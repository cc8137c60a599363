import ExpressAuth.Proofs.ResetLinks

/-!
# Who may change an account

`session.user` is set by a login and by an opened reset link and never cleared, so every use
of it is traced back to one of the two. `session.authenticated` is set by a login and cleared
by a logout, but no handler that changes an account asks for it. A user name that is an array
changes any account without a session.
-/

namespace ExpressAuth.Proofs

/-- The name a login of the session `sid` succeeds with. -/
def loginName (sid : ℕ) (s : Site) : Op → Option String
  | .web sid' (.postLogin username password) now =>
    if sid' = sid ∧ LogsIn s sid username password now ∧ LoginAccepts s.store username password then
      some username.toText
    else none
  | _ => none

/-- The user whose reset link is opened in the session `sid`. -/
def openedLink (sid : ℕ) (s : Site) : Op → Option String
  | .web sid' (.getNewPassword uid token) now =>
    if sid' = sid ∧ Opens s sid uid token now then some uid else none
  | _ => none

def logoutOf (sid : ℕ) : Op → Bool
  | .web sid' .getLogout _ => sid' = sid
  | _ => false

def loginOf (sid : ℕ) : Op → Bool
  | .web sid' (.postLogin _ _) _ => sid' = sid
  | _ => false

def newPasswordOf (sid : ℕ) : Op → Bool
  | .web sid' (.postNewPassword _) _ => sid' = sid
  | _ => false

/-- What one operation can do to the user and the login of a session. -/
inductive SessionStep (s : Site) (op : Op) (sid : ℕ) : Prop
  | kept (huser : ((s.step op).sessions sid).user = (s.sessions sid).user)
      (hauth : ((s.step op).sessions sid).authenticated = (s.sessions sid).authenticated)
      (hlogin : loginName sid s op = none) (hlink : openedLink sid s op = none)
      (hlogout : logoutOf sid op = false)
  | login (hlogin : loginName sid s op = some ((s.step op).sessions sid).user.toText)
      (hlink : openedLink sid s op = none) (hform : loginOf sid op = true)
  | logout (huser : ((s.step op).sessions sid).user = (s.sessions sid).user)
      (hauth : ((s.step op).sessions sid).authenticated = false) (hlink : openedLink sid s op = none)
  | opened {uid token : String} {now : ℕ} (hop : op = .web sid (.getNewPassword uid token) now)
      (hopens : Opens s sid uid token now) (huser : ((s.step op).sessions sid).user = .str uid)
      (hauth : ((s.step op).sessions sid).authenticated = (s.sessions sid).authenticated)

lemma opens_link {s : Site} {sid : ℕ} {uid token : String} {now : ℕ} (h : Opens s sid uid token now) :
    openedLink sid s (.web sid (.getNewPassword uid token) now) = some uid := by
  simp [openedLink, h]

lemma sessionStep_web {s : Site} (hs : s.Textual) (sid : ℕ) {req : Request} (hreq : req.textual = true) (now : ℕ) :
    SessionStep s (.web sid req now) sid := by
  have hsession := step_web_session hs hreq sid now
  cases req with
  | postLogin username password =>
    have hu : username.isArray = false := by simpa [Request.textual] using hreq
    by_cases hl : LoginAccepts s.store username password
    · have hafter := sessionOf_login_accepted hl (s.sessions sid) now
      refine .login ?_ rfl (by simp [loginOf])
      rw [hsession, hafter]
      simp [loginName, logsIn_iff hu, hl]
    · have hafter := sessionOf_login_rejected hl (s.sessions sid) now
      refine .kept ?_ ?_ (by simp [loginName, hl]) rfl rfl
      · rw [hsession, hafter.1]
      · rw [hsession, hafter.2]
  | getLogout =>
    refine .logout ?_ ?_ rfl <;> rw [hsession] <;> rfl
  | getNewPassword uid token =>
    by_cases hl : LinkOpens s.store now uid token
    · refine .opened rfl (opens_iff.mpr hl) ?_ ?_ <;> rw [hsession] <;> simp [sessionOf, hl]
    · refine .kept ?_ ?_ rfl (by simp [openedLink, opens_iff, hl]) rfl <;> rw [hsession] <;>
        simp [sessionOf, hl]
  | getSecure _ | postUpdatePassword _ | postCreateUser _ _ _ | postResetPassword _ _ _ | postNewPassword _ =>
    refine .kept ?_ ?_ rfl rfl rfl <;> rw [hsession] <;> simp only [sessionOf, addFlash] <;>
      split_ifs <;> rfl
  | _ => refine .kept ?_ ?_ rfl rfl rfl <;> rw [hsession] <;> rfl

lemma sessionStep {s : Site} (hs : s.Textual) {op : Op} (hop : op.textual = true) (sid : ℕ) : SessionStep s op sid := by
  cases op with
  | admin argv now => exact .kept rfl rfl rfl rfl rfl
  | web sid' req now =>
    by_cases hsid : sid' = sid
    · subst hsid
      exact sessionStep_web hs sid' hop now
    · have hs := step_web_session_of_ne s (Ne.symm hsid) req now
      refine .kept (by rw [hs]) (by rw [hs]) ?_ ?_ ?_
      · cases req <;> simp [loginName, hsid]
      · cases req <;> simp [openedLink, hsid]
      · cases req <;> simp [logoutOf, hsid]

/-! ### Password changes -/

/-- A login as `u` succeeded in the session, or a reset link of `u` was opened in it. -/
def Earned (ops : List Op) (sid : ℕ) (u : String) : Prop :=
  Runs.Once (fun pre op => loginName sid (site pre) op = some u ∨ openedLink sid (site pre) op = some u) ops

lemma earned_of_session_user {ops : List Op} (htext : ∀ op ∈ ops, op.textual = true) (sid : ℕ) :
    ((site ops).sessions sid).user = .undefined ∨ Earned ops sid ((site ops).sessions sid).user.toText := by
  induction ops using Runs.history_induction with
  | h0 => exact Or.inl rfl
  | hs ops op ih =>
    have hpre : ∀ op ∈ ops, op.textual = true := fun op' hop' => htext op' (List.mem_append_left _ hop')
    have ih := ih hpre
    rw [site, Runs.after_concat, Earned, Runs.once_concat]
    rcases sessionStep (textual_site hpre) (htext op (by simp)) sid with ⟨huser⟩ | ⟨hlogin⟩ | ⟨huser⟩ | ⟨rfl, hopens, huser⟩
    · rw [huser]
      exact ih.imp_right Or.inl
    · exact Or.inr (Or.inr (Or.inl hlogin))
    · rw [huser]
      exact ih.imp_right Or.inl
    · rw [huser]
      exact Or.inr (Or.inr (Or.inr (opens_link hopens)))

/-- The operation is `admin.py -c`, `-p` or `-d` naming `u`. -/
def adminSetsPassword (u : String) : Op → Bool
  | .admin (opt :: username :: args) _ =>
    username = u ∧ (optionOf opt = "-c" ∧ args.length = 2 ∨ optionOf opt = "-p" ∧ args.length = 1 ∨
      optionOf opt = "-d")
  | _ => false

/-- The operation is `POST /create_user` naming `u`. -/
def createsUser (u : String) : Op → Bool
  | .web _ (.postCreateUser username _ _) _ => username.toText = u
  | _ => false

/-- The operation is `POST /update_password` or `POST /new_password` of the session `sid`. -/
def setsOwnPassword (sid : ℕ) : Op → Bool
  | .web sid' (.postUpdatePassword _) _ | .web sid' (.postNewPassword _) _ => sid' = sid
  | _ => false

/-- Every operation that changes the password of `u` is an administrator's, creates `u`, or
comes from a session that logged in as `u` or opened a reset link of `u` before, in every run
without arrays for user names. -/
theorem password_change_provenance (ops : List Op) (op : Op) (htext : ∀ op' ∈ ops ++ [op], op'.textual = true)
    (u : String) (hu : u ≠ "undefined")
    (h : (site (ops ++ [op])).store.hget u .password ≠ (site ops).store.hget u .password) :
    adminSetsPassword u op ∨ createsUser u op ∨ ∃ sid, setsOwnPassword sid op ∧ Earned ops sid u := by
  have hpre : ∀ op' ∈ ops, op'.textual = true := fun op' hop' => htext op' (List.mem_append_left _ hop')
  have hearned : ∀ sid, ((site ops).sessions sid).user.toText = u → Earned ops sid u := by
    intro sid huser
    rcases earned_of_session_user hpre sid with hnone | he
    · rw [hnone] at huser
      exact absurd huser.symm hu
    · rwa [huser] at he
  have hr := recordStep u (textual_site hpre) (htext op (by simp))
  rw [site, Runs.after_concat] at h
  generalize hrec : record ((site ops).step op).store u = r at hr
  have hne : r .password ≠ record (site ops).store u .password := by
    rw [← hrec]
    exact h
  cases hr with
  | kept => exact absurd rfl hne
  | updatePassword huser _ | newPassword huser _ =>
    exact Or.inr (Or.inr ⟨_, by simp [setsOwnPassword], hearned _ huser⟩)
  | createUser hname => exact Or.inr (Or.inl (by simp [createsUser, hname]))
  | adminCreate ho | adminPassword ho | adminDelete ho => exact Or.inl (by simp [adminSetsPassword, ho])
  | updateMail | verify | verifyMail | reset | openLink | adminMail => simp [writeFields] at hne

/-- `alice` logs in and changes the password. -/
theorem password_change_after_login :
    let ops := aliceRegistered ++ [.web 1 (.postLogin (.str "alice") (.str "secret")) 1700000120000]
    let op := Op.web 1 (.postUpdatePassword (.str "changed")) 1700000180000
    (site (ops ++ [op])).store.hget "alice" .password ≠ (site ops).store.hget "alice" .password ∧
      (adminSetsPassword "alice" op ∨ createsUser "alice" op ∨
        ∃ sid, setsOwnPassword sid op ∧ Earned ops sid "alice") := by
  intro ops op
  have hchanged : (site (ops ++ [op])).store.hget "alice" .password ≠ (site ops).store.hget "alice" .password := by
    decide +kernel
  exact ⟨hchanged, password_change_provenance ops op (by decide) "alice" (by decide) hchanged⟩

/-- `POST /create_user` with the name `["alice", "password", hash]` is sent as `HSET alice password hash`:
whoever sends it has chosen the password of `alice`. -/
theorem array_name_sets_password :
    let op := Op.web 5 (.postCreateUser (.array [some "alice", some "password", some (sha256Base64 "alicestolen")])
      (.str "") (.str "")) 1700000120000
    (site (aliceRegistered ++ [op])).store.hget "alice" .password ≠ (site aliceRegistered).store.hget "alice" .password ∧
      ¬(adminSetsPassword "alice" op ∨ createsUser "alice" op ∨
        ∃ sid, setsOwnPassword sid op ∧ Earned aliceRegistered sid "alice") ∧
      LogsIn (site (aliceRegistered ++ [op])) 5 (.str "alice") (.str "stolen") 1700000180000 := by
  intro op
  have hsets : ∀ sid, setsOwnPassword sid op = false := fun _ => rfl
  refine ⟨by decide +kernel, ?_, by decide +kernel⟩
  simp only [hsets, Bool.false_eq_true, false_and, exists_false, or_false]
  decide +kernel

/-! ### Account changes -/

section Account

variable (store : Store)

/-- The site after a serial run that starts with the given accounts and without sessions. -/
abbrev siteFrom (ops : List Op) : Site := Runs.after Site.step { store } ops

/-- The last login of the session that succeeded was as `u`, and no logout came after it. -/
def LoggedInAs (ops : List Op) (sid : ℕ) (u : String) : Prop :=
  Runs.Since (fun pre op => loginName sid (siteFrom store pre) op = some u)
    (fun pre op => logoutOf sid op = false ∧ loginName sid (siteFrom store pre) op = none) ops

/-- A reset link of `u` that was issued after the last opening of a link of `u` was opened in the
session, and no password was set with it. -/
def HoldsLink (ops : List Op) (sid : ℕ) (u : String) : Prop :=
  Runs.Since (fun pre op => openedLink sid (siteFrom store pre) op = some u ∧ LinkFresh { store } u pre)
    (fun _ op => newPasswordOf sid op = false) ops

/-- `POST /update_password` and `POST /update_mail` change a record only for who is logged in
as its user, `POST /new_password` a password only for who holds a link of its user. -/
def ChangesAuthorised (pre : List Op) (op : Op) : Prop :=
  ∀ sid now u f, (siteFrom store (pre ++ [op])).store.hget u f ≠ (siteFrom store pre).store.hget u f →
    (∀ password, op = .web sid (.postUpdatePassword password) now → LoggedInAs store pre sid u) ∧
    (∀ mail secure, op = .web sid (.postUpdateMail mail secure) now → LoggedInAs store pre sid u) ∧
    (∀ password, op = .web sid (.postNewPassword password) now → HoldsLink store pre sid u)

/-- The page `accept_password` was shown to the session, which sent neither `POST /login` nor
`POST /new_password` since. -/
def FormShown (ops : List Op) (sid : ℕ) : Prop :=
  Runs.Since (fun pre op => (openedLink sid (siteFrom store pre) op).isSome)
    (fun _ op => newPasswordOf sid op = false ∧ loginOf sid op = false) ops

instance (ops : List Op) (sid : ℕ) (u : String) : Decidable (LoggedInAs store ops sid u) :=
  inferInstanceAs (Decidable (Runs.Since _ _ ops))

instance (ops : List Op) (sid : ℕ) : Decidable (FormShown store ops sid) :=
  inferInstanceAs (Decidable (Runs.Since _ _ ops))

/-- What the handlers do not check: the account pages are used while logged in, a reset link
is opened by who is logged in as its user or not at all, and the form of `accept_password` is
sent once after it was shown. -/
def WellBehaved (pre : List Op) : Op → Bool
  | .web sid (.postUpdatePassword _) _ | .web sid (.postUpdateMail _ _) _ =>
    ((siteFrom store pre).sessions sid).authenticated
  | .web sid (.getNewPassword uid token) now =>
    let s := siteFrom store pre
    Opens s sid uid token now → (s.sessions sid).authenticated = true → (s.sessions sid).user = .str uid
  | .web sid (.postNewPassword _) _ => FormShown store pre sid
  | _ => true

/-- The login flag and the user of a session agree with its history. -/
structure SessionsEarned (ops : List Op) : Prop where
  login : ∀ sid, ((siteFrom store ops).sessions sid).authenticated = true →
    LoggedInAs store ops sid ((siteFrom store ops).sessions sid).user.toText
  link : ∀ sid, FormShown store ops sid → HoldsLink store ops sid ((siteFrom store ops).sessions sid).user.toText

lemma textual_siteFrom {ops : List Op} (htext : ∀ op ∈ ops, op.textual = true) : (siteFrom store ops).Textual :=
  textual_after (fun _ => rfl) htext

variable {store}

lemma SessionsEarned.login_step {ops : List Op} {op : Op} (h : SessionsEarned store ops)
    (hs : (siteFrom store ops).Textual) (hop : op.textual = true) (hok : WellBehaved store ops op) (sid : ℕ)
    (ha : (((siteFrom store ops).step op).sessions sid).authenticated = true) :
    LoggedInAs store (ops ++ [op]) sid (((siteFrom store ops).step op).sessions sid).user.toText := by
  rw [LoggedInAs, Runs.since_concat]
  cases sessionStep hs hop sid with
  | kept huser hauth hlogin hlink hlogout =>
    rw [hauth] at ha
    have hin := h.login sid ha
    rw [huser]
    exact Or.inr ⟨hin, hlogout, hlogin⟩
  | login hlogin hlink hform => exact Or.inl hlogin
  | logout huser hauth hlink =>
    rw [hauth] at ha
    exact absurd ha (by decide)
  | @opened uid token now hop hopens huser hauth =>
    subst hop
    rw [hauth] at ha
    have hin := h.login sid ha
    -- a link of somebody else would leave the login behind
    have hsame : ((siteFrom store ops).sessions sid).user = .str uid := by
      simp only [WellBehaved, decide_eq_true_eq] at hok
      exact hok hopens ha
    rw [huser, ← hsame]
    exact Or.inr ⟨hin, rfl, rfl⟩

lemma SessionsEarned.link_step {ops : List Op} {op : Op} (h : SessionsEarned store ops)
    (htext : ∀ op ∈ ops, op.textual = true) (hop : op.textual = true) (sid : ℕ) (hf : FormShown store (ops ++ [op]) sid) :
    HoldsLink store (ops ++ [op]) sid (((siteFrom store ops).step op).sessions sid).user.toText := by
  rw [FormShown, Runs.since_concat] at hf
  rw [HoldsLink, Runs.since_concat]
  cases sessionStep (textual_siteFrom store htext) hop sid with
  | kept huser _ _ hlink _ | logout huser _ hlink =>
    rcases hf with hf | ⟨hf, hquiet, -⟩
    · simp [hlink] at hf
    · rw [huser]
      exact Or.inr ⟨h.link sid hf, hquiet⟩
  | login hlogin hlink hform =>
    rcases hf with hf | ⟨-, -, hquiet⟩
    · simp [hlink] at hf
    · simp [hform] at hquiet
  | opened hop hopens huser hauth =>
    subst hop
    rw [huser]
    have hflag := (opens_iff.mp hopens).2.2
    exact Or.inl ⟨opens_link hopens, linkFresh_of_flag (fun _ => rfl) ops htext hflag⟩

variable (store)

lemma sessionsEarned_of_wellBehaved (ops : List Op) (htext : ∀ op ∈ ops, op.textual = true)
    (h : Runs.Guarded (fun pre op => WellBehaved store pre op) ops) : SessionsEarned store ops := by
  induction ops using Runs.history_induction with
  | h0 =>
    refine ⟨fun sid ha => ?_, fun sid hf => absurd hf (Runs.not_since_nil _ _)⟩
    exact absurd ha (by simp)
  | hs ops op ih =>
    have hpre : ∀ op ∈ ops, op.textual = true := fun op' hop' => htext op' (List.mem_append_left _ hop')
    have hop : op.textual = true := htext op (by simp)
    have ih := ih hpre h.init
    refine ⟨fun sid ha => ?_, fun sid hf => ?_⟩
    · rw [siteFrom, Runs.after_concat] at ha ⊢
      exact ih.login_step (textual_siteFrom store hpre) hop h.last sid ha
    · rw [siteFrom, Runs.after_concat]
      exact ih.link_step hpre hop sid hf

end Account

/-- The account of `alice` with the password `secret` and a confirmed address. -/
def aliceAccount : Store :=
  HashStore.writes ∅ [("alice", .password, sha256Base64 "alicesecret"), ("alice", .mail, "alice@example.org"),
    ("alice", .valid, "True")]

/-- `alice` logs in and changes the password, then resets it by a link and sets it once more. -/
def carefulAlice : List Op :=
  [.web 1 (.postLogin (.str "alice") (.str "secret")) 1700000000000,
    .web 1 (.postUpdatePassword (.str "changed")) 1700000060000, .web 1 .getLogout 1700000120000,
    .web 2 (.postResetPassword (.str "alice") (.str "alice@example.org") true) 1700000180000,
    .web 2 (.getNewPassword "alice" (sha256Hex "1700000180")) 1700000240000,
    .web 2 (.postNewPassword (.str "again")) 1700000300000]

end ExpressAuth.Proofs
