import ExpressAuth.Proofs.Line

/-!
# Requests about one account

Runs in which every request names the same user. The undeclared `user` then names this account
whenever a callback reads it.
-/

namespace ExpressAuth.Proofs
open Server

/-- The value is the user name `u`, not an array of arguments. -/
def isName (u : String) (v : JsVal) : Bool := !v.isArray && v.toText = u

lemma isName_iff {u : String} {v : JsVal} : isName u v = true ↔ v.isArray = false ∧ v.toText = u := by
  simp [isName]

/-- The request names no user other than `u`, in its address, its form or its session. -/
def namesOnly (u : String) (session : Session) : Request → Bool
  | .getSecure _ | .postUpdateMail _ _ | .postUpdatePassword _ | .postNewPassword _ => isName u session.user
  | .postLogin username _ | .postCreateUser username _ _ | .postResetPassword username _ _ => isName u username
  | .getVerify uid _ | .postVerifyMail uid | .getVerifyMail uid | .getNewPassword uid _ => uid = u
  | .getRoot | .getWelcome | .getLogin | .getLogout | .getAdmin | .getResetPassword => true

/-- The web requests of the run name only `u`. -/
def webNames (u : String) (s : Server) : Event → Bool
  | .arrive sid req _ => namesOnly u (s.sessions sid) req
  | _ => true

structure OneUser (u : String) (s : Server) : Prop where
  /-- A callback in flight can only call the client with the name `u`. -/
  calls : ∀ x ∈ inFlight s, ∀ call ∈ followUpCall s.vars.user x.2, isName u call.2 = true
  verify : ∀ i, (i, .verifyTimestamp) ∈ inFlight s → ∃ token sid, identity s i = some (.getVerify u token, sid)

/-- What is in flight after an event was in flight before it or is issued by it. -/
lemma mem_inFlight_step {s : Server} (hs : WellFormed s) (e : Event) {x : ℕ × Callback}
    (hx : x ∈ inFlight (s.step .process e)) :
    x ∈ inFlight s ∨ ∃ p ∈ issues s e, x = (p.task, p.callback) := by
  rw [inFlight_step hs, List.mem_append] at hx
  rcases hx with hx | hx
  · left
    cases e with
    | deliver now =>
      rcases List.mem_append.mp hx with hx | hx
      · obtain ⟨a, ha, rfl⟩ := List.mem_map.mp hx
        exact List.mem_append_left _ (List.mem_map_of_mem (List.mem_of_mem_tail ha))
      · exact List.mem_append_right _ hx
    | _ => exact hx
  · obtain ⟨p, hp, rfl⟩ := List.mem_map.mp hx
    exact Or.inr ⟨p, hp, rfl⟩

lemma head_mem_inFlight {s : Server} {a : Answer} {rest : List Answer} (h : s.replies = a :: rest) :
    (a.task, a.callback) ∈ inFlight s := by
  simp [inFlight, h]

/-- What an event issues: the opening of a new request, or what follows up on the oldest reply. -/
lemma mem_issues {s : Server} {e : Event} {p : Pending} (hp : p ∈ issues s e) :
    (∃ sid req now, e = .arrive sid req now ∧ p.task = s.started ∧
      Opening { now, vars := s.vars, session := s.sessions sid } req p.cmd p.callback) ∨
    ∃ now a rest t, e = .deliver now ∧ s.replies = a :: rest ∧ s.tasks a.task = some t ∧ p.task = a.task ∧
      FollowUp { now, vars := s.vars, session := t.session } a.reply a.callback p.cmd p.callback := by
  unfold issues segmentOf at hp
  cases e with
  | arrive sid req now =>
    obtain ⟨q, hq, rfl⟩ := List.mem_map.mp hp
    exact Or.inl ⟨sid, req, now, rfl, rfl, begin_issued req _ rfl q hq⟩
  | deliver now =>
    cases hr : s.replies with
    | nil => simp [hr] at hp
    | cons a rest =>
      cases ht : s.tasks a.task with
      | none => simp [hr, ht] at hp
      | some t =>
        simp only [hr, ht, Option.map_some] at hp
        obtain ⟨q, hq, rfl⟩ := List.mem_map.mp hp
        exact Or.inr ⟨now, a, rest, t, rfl, rfl, ht, rfl, run_issued a.callback a.reply _ rfl q hq⟩
  | _ => simp at hp

/-- A request that names only `u` makes `user` name it, or neither assigns nor reads `user`. -/
lemma begin_names {u : String} {c : Ctx} {req : Request} (h : namesOnly u c.session req = true) :
    isName u (req.begin c).vars.user = true ∨ (req.begin c).vars.user = c.vars.user ∧
      ∀ cmd callback, Opening c req cmd callback → readsUser callback = false := by
  rw [Request.begin, checkAuth_eq]
  split
  · cases req with
    | getSecure url =>
      refine Or.inr ⟨rfl, fun cmd callback ho => ?_⟩
      cases ho <;> rfl
    | _ => exact absurd (And.left ‹_›) (url_ne_secure _ (by simp))
  · cases req with
    | postUpdateMail | postResetPassword => exact Or.inl h
    | getVerify uid | postVerifyMail uid | getNewPassword uid =>
      exact Or.inl (isName_iff.mpr ⟨rfl, of_decide_eq_true h⟩)
    | postLogin | postUpdatePassword | postCreateUser | postNewPassword =>
      refine Or.inr ⟨?_, fun cmd callback ho => by cases ho <;> rfl⟩
      simp only [Request.handler, Routes.postLogin, Routes.postUpdatePassword, Routes.postCreateUser,
        Routes.postNewPassword]
      split <;> rfl
    | _ => exact Or.inr ⟨rfl, fun cmd callback ho => by cases ho <;> rfl⟩

lemma oneUser_init (u : String) (store : Store) (sessions : ℕ → Session) : OneUser u { store, sessions } :=
  ⟨by simp [inFlight], by simp [inFlight]⟩

lemma openingCall_ne_array {u : String} {c : Ctx} {req : Request} (h : namesOnly u c.session req = true)
    {name : CmdName} {items : List (Option String)} : openingCall c req ≠ some (name, .array items) := by
  intro harr
  cases req <;> simp [openingCall] at harr <;> simp [namesOnly, harr, isName, JsVal.isArray] at h

lemma OneUser.followUpCall_ne_array {u : String} {s : Server} (h : OneUser u s) {x : ℕ × Callback}
    (hx : x ∈ inFlight s) (name : CmdName) (items : List (Option String)) :
    followUpCall s.vars.user x.2 ≠ some (name, .array items) := by
  intro harr
  have hname := h.calls x hx _ harr
  simp [isName, JsVal.isArray] at hname

lemma OneUser.user {u : String} {s : Server} (h : OneUser u s) {x : ℕ × Callback} (hx : x ∈ inFlight s)
    (hreads : readsUser x.2 = true) : isName u s.vars.user = true := by
  obtain ⟨name, hcall⟩ := followUpCall_of_readsUser hreads s.vars.user
  exact h.calls x hx _ hcall

/-- `valid` is set to `"True"` only by a `GET /verify` that succeeds. -/
lemma OneUser.success_of_confirm {u : String} {s : Server} (h : OneUser u s) {e : Event}
    (hc : webNames u s e = true) {p : Pending} {k : String} (hp : p ∈ issues s e)
    (hcmd : p.cmd = .hset k .valid "True") :
    (p.task, .verifyTimestamp) ∈ inFlight s ∧ .responded p.task (.render .success) ∈ observed s e := by
  rcases mem_issues hp with ⟨sid, req, now, rfl, -, ho⟩ | ⟨now, a, rest, t, rfl, hr, ht, htask, hf⟩
  · generalize p.cmd = cmd, p.callback = callback at ho hcmd
    cases ho with
    | array harr => exact absurd harr (openingCall_ne_array (show namesOnly u (s.sessions sid) req = true from hc))
    | createUserArray => exact absurd hc (by simp [webNames, namesOnly, isName, JsVal.isArray])
    | _ => simp at hcmd
  · have hcb : a.callback = .verifyTimestamp := by
      have harr := h.followUpCall_ne_array (head_mem_inFlight hr)
      generalize a.callback = callback, p.cmd = cmd, p.callback = callback' at hf hcmd harr
      cases hf with
      | verify => rfl
      | array h' => exact absurd h' (harr _ _)
      | _ => simp at hcmd
    rw [mem_observed_of_log (log_deliver hr ht now), htask]
    rw [issues_deliver hr ht, hcb, Callback.run] at hp
    refine ⟨hcb ▸ head_mem_inFlight hr, ?_⟩
    rw [hcb, Callback.run]
    rcases (verifyTimestamp_spec a.reply.obj { now, vars := s.vars, session := t.session }).2 with
      ⟨-, -, hresp⟩ | ⟨hissued, -⟩
    · rw [observations, hresp]
      simp
    · rw [hissued] at hp
      simp at hp

/-- The name that a callback of a first segment calls the client with later is `u`. -/
lemma Opening.calls {u : String} {c : Ctx} {req : Request} {cmd : Cmd} {callback : Callback}
    (h : Opening c req cmd callback) (hc : namesOnly u c.session req = true) (hreads : readsUser callback = false)
    (user : JsVal) : ∀ call ∈ followUpCall user callback, isName u call.2 = true := by
  cases h <;> simp_all [followUpCall, readsUser, namesOnly]

/-- What follows up on a callback reads `user` only if that callback did, and closes over no name. -/
lemma FollowUp.calls {c : Ctx} {r : Reply} {callback callback' : Callback} {cmd : Cmd}
    (h : FollowUp c r callback cmd callback') (user : JsVal) :
    (readsUser callback' = true → readsUser callback = true ∧ callback' ≠ .verifyTimestamp) ∧
      (readsUser callback' = false → followUpCall user callback' = none) := by
  cases h <;> simp [readsUser, followUpCall]

/-- A callback leaves `user` alone. -/
lemma vars_user_deliver {s : Server} (hs : WellFormed s) (now : ℕ) :
    (s.step .process (.deliver now)).vars.user = s.vars.user := by
  cases hr : s.replies with
  | nil => rw [step_deliver_nil .process hr]
  | cons a rest =>
    obtain ⟨t, ht, -⟩ := hs.head_task hr
    rw [step_deliver_cons .process hr ht]
    exact (run_keeps_user_token a.callback a.reply (s.context .process t now)).1

lemma vars_exec (s : Server) : (s.step .process .exec).vars = s.vars := by
  cases hq : s.queue with
  | nil => rw [step_exec_nil .process hq]
  | cons p rest =>
    rw [step_exec_cons .process hq]
    rfl

/-- Callbacks that only call with `user` keep their names when `user` names `u`. -/
lemma calls_of_isName {u : String} {user user' : JsVal} (hu : isName u user' = true) {callback : Callback}
    (h : readsUser callback = false → ∀ call ∈ followUpCall user callback, isName u call.2 = true) :
    ∀ call ∈ followUpCall user' callback, isName u call.2 = true := by
  cases hreads : readsUser callback with
  | true =>
    obtain ⟨name, hcall⟩ := followUpCall_of_readsUser hreads user'
    rw [hcall]
    rintro call ⟨⟩
    exact hu
  | false =>
    rw [followUpCall_of_not_readsUser hreads user' user]
    exact h hreads

lemma OneUser.calls_step {u : String} {s : Server} (h : OneUser u s) (hs : WellFormed s) {e : Event}
    (hc : webNames u s e = true) {x : ℕ × Callback} (hx : x ∈ inFlight (s.step .process e)) :
    ∀ call ∈ followUpCall (s.step .process e).vars.user x.2, isName u call.2 = true := by
  have hx := mem_inFlight_step hs e hx
  cases e with
  | arrive sid req now =>
    rw [step_arrive]
    change ∀ call ∈ followUpCall (req.begin { now, vars := s.vars, session := s.sessions sid }).vars.user x.2, _
    have hnew : ∀ p ∈ issues s (.arrive sid req now), readsUser p.callback = false →
        ∀ call ∈ followUpCall s.vars.user p.callback, isName u call.2 = true := by
      intro p hp hreads
      rcases mem_issues hp with ⟨_, _, _, he, -, ho⟩ | ⟨_, _, _, _, he, -⟩
      · cases he
        exact ho.calls hc hreads _
      · cases he
    rcases begin_names (c := { now, vars := s.vars, session := s.sessions sid }) hc with hu | ⟨hkept, hnone⟩
    · apply calls_of_isName hu
      intro hreads
      rcases hx with hx | ⟨p, hp, rfl⟩
      · exact h.calls x hx
      · exact hnew p hp hreads
    · rw [hkept]
      rcases hx with hx | ⟨p, hp, rfl⟩
      · exact h.calls x hx
      · refine hnew p hp ?_
        rcases mem_issues hp with ⟨_, _, _, he, -, ho⟩ | ⟨_, _, _, _, he, -⟩
        · cases he
          exact hnone _ _ ho
        · cases he
  | deliver now =>
    rw [vars_user_deliver hs]
    rcases hx with hx | ⟨p, hp, rfl⟩
    · exact h.calls x hx
    · rcases mem_issues hp with ⟨_, _, _, he, -⟩ | ⟨_, a, rest, t, -, hr, -, -, hf⟩
      · cases he
      · cases hreads : readsUser p.callback with
        | true =>
          have hhead := ((hf.calls s.vars.user).1 hreads).1
          obtain ⟨name, hcall⟩ := followUpCall_of_readsUser hreads s.vars.user
          rw [hcall]
          rintro call ⟨⟩
          exact h.user (head_mem_inFlight hr) hhead
        | false => simp [(hf.calls s.vars.user).2 hreads]
  | exec =>
    rw [vars_exec]
    rcases hx with hx | ⟨p, hp, -⟩
    · exact h.calls x hx
    · simp [issues, segmentOf] at hp
  | spawn argv | adminStep =>
    rcases hx with hx | ⟨p, hp, -⟩
    · exact h.calls x hx
    · simp [issues, segmentOf] at hp

theorem OneUser.step {u : String} {s : Server} (h : OneUser u s) (hs : WellFormed s) {e : Event}
    (hc : webNames u s e = true) : OneUser u (s.step .process e) := by
  refine ⟨fun x hx => h.calls_step hs hc hx, fun i hi => ?_⟩
  rcases mem_inFlight_step hs e hi with hi | ⟨p, hp, hpi⟩
  · obtain ⟨token, sid, hid⟩ := h.verify i hi
    exact ⟨token, sid, identity_step hs .process e hid⟩
  · obtain ⟨rfl, hcb⟩ := Prod.mk.inj hpi
    rcases mem_issues hp with ⟨sid, req, now, rfl, htask, ho⟩ | ⟨now, a, rest, t, rfl, -, -, -, hf⟩
    · rw [← hcb] at ho
      generalize p.cmd = cmd at ho
      cases ho
      rename_i uid token
      obtain rfl : uid = u := of_decide_eq_true hc
      refine ⟨token, sid, ?_⟩
      rw [htask, step_arrive, identity_commit .process _ (enter_task s sid _), identity_enter, if_pos rfl]
    · exact absurd hcb.symm ((hf.calls s.vars.user).1 (by rw [← hcb]; rfl)).2

/-! ### The four requests with links -/

/-- The event is one of the four requests that confirm, change or reset by a link, and names `u`,
or it is the connection doing its work. -/
def concerns (u : String) (s : Server) : Event → Bool
  | .arrive _ (.getVerify uid _) _ | .arrive _ (.getNewPassword uid _) _ => uid = u
  | .arrive sid (.postUpdateMail _ _) _ => isName u (s.sessions sid).user
  | .arrive _ (.postResetPassword username _ _) _ => isName u username
  | .exec | .deliver _ => true
  | _ => false

def aboutAccount : Callback → Bool
  | .ignore | .updateMailDone | .verifyValid | .verifyTimestamp | .resetMail _ _ | .resetValid _
  | .newPasswordValid | .newPasswordTimestamp | .newPasswordFlag _ => true
  | _ => false

structure LinksOnly (u : String) (s : Server) : Prop extends OneUser u s where
  callbacks : ∀ x ∈ inFlight s, aboutAccount x.2 = true

lemma isAdmin_of_concerns {u : String} {s : Server} {e : Event} (h : concerns u s e = true) :
    isAdmin e = false := by
  cases e <;> simp_all [concerns, isAdmin]

lemma webNames_of_concerns {u : String} {s : Server} {e : Event} (h : concerns u s e = true) :
    webNames u s e = true := by
  cases e with
  | arrive sid req now => cases req <;> first | exact h | cases h
  | _ => rfl

lemma FollowUp.aboutAccount {c : Ctx} {r : Reply} {callback callback' : Callback} {cmd : Cmd}
    (h : FollowUp c r callback cmd callback') (hb : aboutAccount callback = true)
    (harr : ∀ name items, followUpCall c.vars.user callback ≠ some (name, .array items)) :
    Proofs.aboutAccount callback' = true := by
  cases h with
  | array h => exact absurd h (harr _ _)
  | _ => simp_all [Proofs.aboutAccount]

lemma Opening.aboutAccount {u : String} {s : Server} {sid now : ℕ} {req : Request} {vars : Vars} {cmd : Cmd}
    {callback : Callback} (h : Opening { now, vars, session := s.sessions sid } req cmd callback)
    (hc : concerns u s (.arrive sid req now) = true) : Proofs.aboutAccount callback = true := by
  have hnames : namesOnly u (s.sessions sid) req = true := webNames_of_concerns hc
  cases h with
  | array h => exact absurd h (openingCall_ne_array hnames)
  | _ => simp_all [Proofs.aboutAccount, concerns]

lemma linksOnly_init (u : String) (store : Store) (sessions : ℕ → Session) : LinksOnly u { store, sessions } :=
  ⟨oneUser_init u store sessions, by simp [inFlight]⟩

theorem LinksOnly.step {u : String} {s : Server} (h : LinksOnly u s) (hs : WellFormed s) {e : Event}
    (hc : concerns u s e = true) : LinksOnly u (s.step .process e) := by
  refine ⟨h.toOneUser.step hs (webNames_of_concerns hc), fun x hx => ?_⟩
  rcases mem_inFlight_step hs e hx with hx | ⟨p, hp, rfl⟩
  · exact h.callbacks x hx
  · rcases mem_issues hp with ⟨sid, req, now, rfl, -, ho⟩ | ⟨now, a, rest, t, -, hr, -, -, hf⟩
    · exact ho.aboutAccount hc
    · have hhead := head_mem_inFlight hr
      exact hf.aboutAccount (h.callbacks _ hhead) (h.followUpCall_ne_array hhead)

end ExpressAuth.Proofs
