import ExpressAuth.Proofs.Records
import Mathlib.Data.Set.Function

/-!
# Whose password is which

The specification of the account store is a history of passwords: the one last set for a name
since the name was last deleted. The stored hash follows it, so a login tests this password.
-/

namespace ExpressAuth.Proofs

/-- The form fields of an operation are strings. -/
def stringFields : Op → Bool
  | .web _ (.postLogin username password) _ => isStr username && isStr password
  | .web _ (.postUpdateMail mail _) _ => isStr mail
  | .web _ (.postUpdatePassword password) _ | .web _ (.postNewPassword password) _ => isStr password
  | .web _ (.postCreateUser username password mail) _ => isStr username && isStr password && isStr mail
  | .web _ (.postResetPassword username mail _) _ => isStr username && isStr mail
  | _ => true
where
  isStr : JsVal → Bool
    | .str _ => true
    | _ => false

/-- The name and the password that an operation sets, if it succeeds. -/
def passwordSet (s : Site) : Op → Option (String × String)
  | .web sid (.postUpdatePassword password) _ | .web sid (.postNewPassword password) _ =>
    some ((s.sessions sid).user.toText, password.toText)
  | .web _ (.postCreateUser username password _) _ =>
    if Store.matching s.store username.toText = [] then some (username.toText, password.toText) else none
  | .admin [opt, username, password, _] _ =>
    if optionOf opt = "-c" ∧ Store.lacks s.store username = true then some (username, password) else none
  | .admin [opt, username, password] _ =>
    if optionOf opt = "-p" ∧ Store.matching s.store username ≠ [] then some (username, password) else none
  | _ => none

/-- The last operation that set the password of `u` set `p`, and `u` was not deleted since. -/
def LastPassword (ops : List Op) (u p : String) : Prop :=
  Runs.Since (fun pre op => passwordSet (site pre) op = some (u, p))
    (fun pre op => (∀ p', passwordSet (site pre) op ≠ some (u, p')) ∧ nameDeleted op ≠ some u) ops

lemma isStr_iff {v : JsVal} : stringFields.isStr v = true ↔ ∃ t, v = .str t := by
  cases v <;> simp [stringFields.isStr]

/-- A string is not an array. -/
lemma textual_of_stringFields {op : Op} (h : stringFields op = true) : op.textual = true := by
  have hname : ∀ v, stringFields.isStr v = true → (!v.isArray) = true := by
    intro v hv
    obtain ⟨t, rfl⟩ := isStr_iff.mp hv
    rfl
  cases op with
  | admin argv now => rfl
  | web sid req now =>
    cases req with
    | postLogin username password | postResetPassword username mail secure =>
      exact hname _ (Bool.and_eq_true_iff.mp h).1
    | postCreateUser username password mail =>
      exact hname _ (Bool.and_eq_true_iff.mp (Bool.and_eq_true_iff.mp h).1).1
    | _ => rfl

lemma add_str_eq (v : JsVal) (t : String) : v.add (.str t) = some (v.toText ++ t) := by
  cases v <;> rfl

/-- A web request that sets a password stores its hash. -/
lemma password_of_set_web {s : Site} (hs : s.Textual) {sid : ℕ} {req : Request} {now : ℕ} {u p : String}
    (hstr : stringFields (.web sid req now) = true) (h : passwordSet s (.web sid req now) = some (u, p)) :
    (s.step (.web sid req now)).store.hget u .password = some (sha256Base64 (u ++ p)) := by
  rw [step_web_store hs (textual_of_stringFields hstr)]
  cases req with
  | postUpdatePassword password | postNewPassword password =>
    obtain ⟨t, rfl⟩ := isStr_iff.mp hstr
    obtain ⟨rfl, rfl⟩ : (s.sessions sid).user.toText = u ∧ t = p := by simpa [passwordSet] using h
    simp [writesOf, passwordWrite, add_str_eq]
  | postCreateUser username password mail =>
    simp only [stringFields, Bool.and_eq_true] at hstr
    obtain ⟨t, rfl⟩ := isStr_iff.mp hstr.1.2
    simp only [passwordSet] at h
    split_ifs at h with hk
    obtain ⟨rfl, rfl⟩ : username.toText = u ∧ t = p := by simpa using h
    simp [writesOf, passwordWrite, add_str_eq, hk, HashStore.hget_hset]
  | _ => simp [passwordSet] at h

/-- An invocation that sets a password stores its hash. -/
lemma password_of_set_admin {s : Site} {argv : List String} {now : ℕ} {u p : String}
    (h : passwordSet s (.admin argv now) = some (u, p)) :
    (s.step (.admin argv now)).store.hget u .password = some (AdminTool.sha256Base64 (u ++ p)) := by
  rw [step_admin_store]
  match argv, h with
  | [opt, username, password, mail], h =>
    simp only [passwordSet] at h
    split_ifs at h with hc
    obtain ⟨rfl, rfl⟩ : username = u ∧ password = p := by simpa using h
    simp [adminStore, adminDeletes, adminWrites, hc, HashStore.hget_hset]
  | [opt, username, password], h =>
    simp only [passwordSet] at h
    split_ifs at h with hc
    obtain ⟨rfl, rfl⟩ : username = u ∧ password = p := by simpa using h
    simp [adminStore, adminDeletes, adminWrites, hc]

lemma password_of_deleted {s : Site} {op : Op} {u : String} (h : nameDeleted op = some u) :
    (s.step op).store.hget u .password = none := by
  cases op with
  | web => simp [nameDeleted] at h
  | admin argv now =>
    have hd : adminDeletes argv = some u := h
    rw [step_admin_store, adminStore, hd, HashStore.hget_del, if_pos rfl]

/-- Every other operation keeps the stored password. -/
lemma password_of_other {s : Site} (hs : s.Textual) {op : Op} (hop : op.textual = true) {u : String}
    (hset : ∀ p, passwordSet s op ≠ some (u, p)) (hdel : nameDeleted op ≠ some u) :
    (s.step op).store.hget u .password = s.store.hget u .password := by
  have hr := recordStep u hs hop
  change record (s.step op).store u .password = record s.store u .password
  generalize record (s.step op).store u = r at hr
  cases hr with
  | updatePassword hu _ | newPassword hu _ => simp [passwordSet, hu] at hset
  | createUser hu _ hk => simp [passwordSet, hu, hk] at hset
  | adminCreate ho hk | adminPassword ho hk => simp [passwordSet, ho, hk] at hset
  | adminDelete ho => exact absurd (by simp [nameDeleted, adminDeletes, ho]) hdel
  | kept | updateMail | verify | verifyMail | reset | openLink | adminMail => simp [writeFields]

/-- The stored hash of `u` is the hash of `u` and the password last set. -/
structure Refines (ops : List Op) : Prop where
  stored : ∀ u p, LastPassword ops u p → (site ops).store.hget u .password = some (sha256Base64 (u ++ p))
  known : ∀ u h, (site ops).store.hget u .password = some h → ∃ p, LastPassword ops u p

lemma lastPassword_concat {ops : List Op} {op : Op} {u p : String} :
    LastPassword (ops ++ [op]) u p ↔ passwordSet (site ops) op = some (u, p) ∨
      LastPassword ops u p ∧ (∀ p', passwordSet (site ops) op ≠ some (u, p')) ∧ nameDeleted op ≠ some u :=
  Runs.since_concat

lemma Refines.concat {ops : List Op} {op : Op} (h : Refines ops) (hs : (site ops).Textual) (hstr : stringFields op = true)
    (hsame : ∀ u p, passwordSet (site ops) op = some (u, p) →
      AdminTool.sha256Base64 (u ++ p) = sha256Base64 (u ++ p)) : Refines (ops ++ [op]) := by
  have hop := textual_of_stringFields hstr
  have hset : ∀ u p, passwordSet (site ops) op = some (u, p) →
      ((site ops).step op).store.hget u .password = some (sha256Base64 (u ++ p)) := by
    intro u p hp
    cases op with
    | web sid req now => exact password_of_set_web hs hstr hp
    | admin argv now => rw [password_of_set_admin hp, hsame u p hp]
  refine ⟨?_, ?_⟩
  · intro u p hlast
    rw [site, Runs.after_concat]
    rcases lastPassword_concat.mp hlast with hp | ⟨hlast, hno, hdel⟩
    · exact hset u p hp
    · rw [password_of_other hs hop hno hdel]
      exact h.stored u p hlast
  · intro u hash hstored
    rw [site, Runs.after_concat] at hstored
    by_cases hp : ∃ p, passwordSet (site ops) op = some (u, p)
    · obtain ⟨p, hp⟩ := hp
      exact ⟨p, lastPassword_concat.mpr (Or.inl hp)⟩
    · push Not at hp
      by_cases hdel : nameDeleted op = some u
      · rw [password_of_deleted hdel] at hstored
        cases hstored
      · rw [password_of_other hs hop hp hdel] at hstored
        obtain ⟨p, hlast⟩ := h.known u hash hstored
        exact ⟨p, lastPassword_concat.mpr (Or.inr ⟨hlast, hp, hdel⟩)⟩

lemma refines_site (ops : List Op)
    (h : Runs.Guarded (fun pre op => stringFields op = true ∧ ∀ u p, passwordSet (site pre) op = some (u, p) →
      AdminTool.sha256Base64 (u ++ p) = sha256Base64 (u ++ p)) ops) : Refines ops := by
  induction ops using Runs.history_induction with
  | h0 =>
    refine ⟨fun u p hlast => absurd hlast (Runs.not_since_nil _ _), fun u hash hstored => ?_⟩
    exact absurd hstored (by simp)
  | hs ops op ih =>
    have htext : ∀ op' ∈ ops, op'.textual = true := by
      intro op' hop'
      obtain ⟨pre, post, rfl⟩ := List.append_of_mem hop'
      exact textual_of_stringFields (h.init pre op' ⟨post, by simp⟩).1
    exact (ih h.init).concat (textual_site htext) h.last.1 h.last.2

/-- A login leaves the session authenticated, and otherwise as it was, exactly when it is accepted:
a rejected one leaves a message. -/
lemma sessionOf_login_iff {store : Store} {session : Session} {now : ℕ} {u p : String} :
    sessionOf store session now (.postLogin (.str u) (.str p)) =
        { session with authenticated := true, user := .str u } ↔
      store.hget u .password = some (sha256Base64 (u ++ p)) ∧ store.hget u .valid = some "True" := by
  by_cases hp : store.hget u .password = some (sha256Base64 (u ++ p)) <;>
    by_cases hv : store.hget u .valid = some "True" <;> simp [sessionOf, hp, hv, addFlash]

/-- A login with `(u, p)` authenticates its session as `u` exactly when `valid` of `u` is
`"True"` and `p` is the password last set for `u` since `u` was last deleted. -/
theorem login_correctness (T : Set String) (hinj : Set.InjOn sha256Base64 T)
    (hsame : Set.EqOn AdminTool.sha256Base64 sha256Base64 T) (ops : List Op)
    (hstr : ∀ op ∈ ops, stringFields op = true)
    (hT : Runs.Guarded (fun pre op => ∀ u p, passwordSet (site pre) op = some (u, p) → u ++ p ∈ T) ops)
    (sid : ℕ) (u p : String) (hup : u ++ p ∈ T) (now : ℕ) :
    ((site ops).step (.web sid (.postLogin (.str u) (.str p)) now)).sessions sid =
        { (site ops).sessions sid with authenticated := true, user := .str u } ↔
      (site ops).store.hget u .valid = some "True" ∧ LastPassword ops u p := by
  have hrefines : Refines ops := by
    apply refines_site
    intro pre op hp
    exact ⟨hstr op (hp.subset (by simp)), fun u p hset => hsame (hT pre op hp u p hset)⟩
  -- a stored hash belongs to a password that some operation of the run set
  have hmem : ∀ p', LastPassword ops u p' → u ++ p' ∈ T := by
    rintro p' ⟨pre, op, hp, hset, -⟩
    exact hT pre op hp u p' hset
  have hs : (site ops).Textual := textual_site (fun op hop => textual_of_stringFields (hstr op hop))
  rw [step_web_session hs rfl, sessionOf_login_iff, and_comm]
  refine and_congr_right (fun _ => ⟨fun hstored => ?_, fun hlast => hrefines.stored u p hlast⟩)
  obtain ⟨p', hlast⟩ := hrefines.known u _ hstored
  have hhash : sha256Base64 (u ++ p') = sha256Base64 (u ++ p) := by
    rw [hrefines.stored u p' hlast] at hstored
    exact Option.some.inj hstored
  have htext : u ++ p' = u ++ p := hinj (hmem p' hlast) hup hhash
  rwa [(String.append_right_inj u).mp htext] at hlast

/-- `alice` logs in and changes the password. -/
def aliceChanged : List Op :=
  aliceRegistered ++ [.web 1 (.postLogin (.str "alice") (.str "secret")) 1700000120000,
    .web 1 (.postUpdatePassword (.str "changed")) 1700000180000]

theorem login_correctness_alice :
    ((site aliceChanged).step (.web 2 (.postLogin (.str "alice") (.str "changed")) 1700000240000)).sessions 2 =
        { (site aliceChanged).sessions 2 with authenticated := true, user := .str "alice" } ∧
      (site aliceChanged).store.hget "alice" .valid = some "True" ∧ LastPassword aliceChanged "alice" "changed" := by
  let texts := ["alicesecret", "alicechanged"]
  have hinj : Set.InjOn sha256Base64 {t | t ∈ texts} := by
    have h : ∀ a ∈ texts, ∀ b ∈ texts, sha256Base64 a = sha256Base64 b → a = b := by decide +kernel
    exact fun a ha b hb => h a ha b hb
  have hsame : Set.EqOn AdminTool.sha256Base64 sha256Base64 {t | t ∈ texts} := by
    have h : ∀ a ∈ texts, AdminTool.sha256Base64 a = sha256Base64 a := by decide +kernel
    exact fun a ha => h a ha
  have hT : Runs.Guarded (fun pre op => ∀ u p, passwordSet (site pre) op = some (u, p) → u ++ p ∈ {t | t ∈ texts})
      aliceChanged := by
    have h : ∀ n (hn : n < aliceChanged.length),
        ∀ x ∈ passwordSet (site (aliceChanged.take n)) (aliceChanged.get ⟨n, hn⟩), x.1 ++ x.2 ∈ texts := by
      decide +kernel
    exact Runs.guarded_of_forall_lt (fun n hn u p hset => h n hn (u, p) hset)
  have haccepted : ((site aliceChanged).step
      (.web 2 (.postLogin (.str "alice") (.str "changed")) 1700000240000)).sessions 2 =
        { (site aliceChanged).sessions 2 with authenticated := true, user := .str "alice" } := by decide +kernel
  have hiff := login_correctness {t | t ∈ texts} hinj hsame aliceChanged (by decide) hT 2 "alice" "changed"
    (by decide) 1700000240000
  exact ⟨haccepted, hiff.mp haccepted⟩

end ExpressAuth.Proofs
