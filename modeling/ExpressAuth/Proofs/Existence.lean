import ExpressAuth.Proofs.Globs
import ExpressAuth.Proofs.Records

/-!
# When a user exists

`KEYS` stands in for a test whether a record is there. It takes the name as a glob pattern,
so it is that test only for plain names. Every other handler writes without any test, and
`HSET` brings a missing record into existence.
-/

namespace ExpressAuth.Proofs

/-- On this site `POST /create_user` and the options of `admin.py` go by whether the record of
exactly the name `u` is there. -/
structure ChecksExact (u : String) (s : Site) : Prop where
  createUser : ∀ sid password mail now, (s.step (.web sid (.postCreateUser (.str u) password mail) now)).store =
    if u ∈ s.store then s.store else s.store.writes
      [(u, .password, sha256Base64 (u ++ password.toText)), (u, .mail, mail.toText)]
  adminCreate : ∀ opt password mail now, optionOf opt = "-c" → (s.step (.admin [opt, u, password, mail] now)).store =
    if u ∈ s.store then s.store else s.store.writes
      [(u, .password, AdminTool.sha256Base64 (u ++ password)), (u, .mail, mail),
        (u, .timestamp, AdminTool.floatText (AdminTool.thousands now)), (u, .valid, "False")]
  adminPassword : ∀ opt password now, optionOf opt = "-p" → (s.step (.admin [opt, u, password] now)).store =
    if u ∈ s.store then s.store.writes [(u, .password, AdminTool.sha256Base64 (u ++ password))] else s.store
  adminMail : ∀ opt mail now, optionOf opt = "-m" → (s.step (.admin [opt, u, mail] now)).store =
    if u ∈ s.store then s.store.writes
      [(u, .mail, mail), (u, .timestamp, AdminTool.floatText (AdminTool.thousands now)), (u, .valid, "False")]
    else s.store

lemma step_createUser_store (s : Site) (sid : ℕ) (u : String) (password mail : JsVal) (now : ℕ) :
    (s.step (.web sid (.postCreateUser (.str u) password mail) now)).store =
      if Store.matching s.store u = [] then s.store.writes
        [(u, .password, sha256Base64 (u ++ password.toText)), (u, .mail, mail.toText)]
      else s.store := by
  have hadd : (JsVal.str u).add password = some (u ++ password.toText) := rfl
  rw [Site.step, (served_postCreateUser s sid (.str u) password mail now rfl).store]
  by_cases hk : Store.matching s.store u = [] <;> simp [writesOf, passwordWrite, hadd, hk]

lemma checksExact_of_plain {u : String} (hu : Plain u) (s : Site) : ChecksExact u s := by
  have hk : Store.matching s.store u = [] ↔ u ∉ s.store := matching_eq_nil_iff hu s.store
  have hl : Store.lacks s.store u = true ↔ u ∉ s.store := lacks_iff hu s.store
  refine ⟨?_, ?_, ?_, ?_⟩
  · intro sid password mail now
    rw [step_createUser_store]
    by_cases hmem : u ∈ s.store <;> simp [hk, hmem]
  · intro opt password mail now ho
    rw [step_admin_store]
    by_cases hmem : u ∈ s.store <;> simp [adminStore, adminDeletes, adminWrites, ho, hl, hmem]
  · intro opt password now ho
    rw [step_admin_store]
    by_cases hmem : u ∈ s.store <;> simp [adminStore, adminDeletes, adminWrites, ho, hk, hmem]
  · intro opt mail now ho
    rw [step_admin_store]
    by_cases hmem : u ∈ s.store <;> simp [adminStore, adminDeletes, adminWrites, ho, hk, hmem]

/-- A site with the one record `key`. -/
def siteWith (key : String) : Site := { store := (∅ : Store).hset key .mail "0" }

lemma mem_siteWith {key u : String} : u ∈ (siteWith key).store ↔ u = key := by
  rw [siteWith, HashStore.hset, AList.mem_insert]
  simp [AList.notMem_empty]

lemma matching_siteWith (name key : String) :
    Store.matching (siteWith key).store name = [] ↔ keyMatches name key ≠ some true := by
  have hkeys : (siteWith key).store.keys = [key] := rfl
  unfold Store.matching Store.overruns
  rw [hkeys]
  rcases hmatch : keyMatches name key with _ | _ | _ <;> simp [hmatch]

/-- The checks are exact on every site for the plain names, and for no others. -/
theorem existence_checks_exact (u : String) : (∀ s, ChecksExact u s) ↔ Plain u := by
  refine ⟨fun hexact => ?_, checksExact_of_plain⟩
  by_contra hu
  -- what a registration of `u` leaves where `key` alone is stored
  have hmail : ∀ key, (if u = key then (siteWith key).store else (siteWith key).store.writes
      [(u, .password, sha256Base64 (u ++ "")), (u, .mail, "1")]) =
      if keyMatches u key ≠ some true then (siteWith key).store.writes
        [(u, .password, sha256Base64 (u ++ "")), (u, .mail, "1")] else (siteWith key).store := by
    intro key
    have hstep := (hexact (siteWith key)).createUser 0 (.str "") (.str "1") 0
    rw [step_createUser_store] at hstep
    simp only [matching_siteWith, mem_siteWith] at hstep
    exact hstep.symm
  rcases exists_mismatch_of_not_plain hu with hself | ⟨key, hne, hmatch⟩
  · have h := hmail u
    rw [if_pos rfl, if_pos hself] at h
    have hget := congrArg (fun store : Store => store.hget u .mail) h
    simp [siteWith] at hget
  · have h := hmail key
    rw [if_neg (Ne.symm hne), if_neg (not_not.mpr hmatch)] at h
    have hget := congrArg (fun store : Store => store.hget u .mail) h
    simp [siteWith, HashStore.hget_hset, Ne.symm hne] at hget

/-- The name `al*` matches the key `alice`: the web refuses to create it, and `admin.py -p`
creates it. The name `[al]` does not match itself: its record is overwritten. -/
theorem existence_checks_err :
    let s : Site := { store := (∅ : Store).writes [("alice", .password, "0"), ("[al]", .password, "1")] }
    ("al*" ∉ s.store ∧
      "al*" ∉ (s.step (.web 0 (.postCreateUser (.str "al*") (.str "p") (.str "m")) 1700000000000)).store) ∧
    ("al*" ∉ s.store ∧ "al*" ∈ (s.step (.admin ["-p", "al*", "p"] 1700000000000)).store) ∧
    ("[al]" ∈ s.store ∧
      (s.step (.web 0 (.postCreateUser (.str "[al]") (.str "p") (.str "m")) 1700000000000)).store.hget "[al]" .password ≠
        s.store.hget "[al]" .password) := by
  decide +kernel

/-! ### Records and registrations -/

/-- The operation registers `u`: `KEYS` has answered that no key matches. -/
def creates (u : String) (s : Site) : Op → Bool
  | .web _ (.postCreateUser username password _) _ =>
    username.toText = u ∧ (username.add password).isSome ∧ Store.lacks s.store username.toText = true
  | .admin [opt, username, _, _] _ => username = u ∧ optionOf opt = "-c" ∧ Store.lacks s.store username = true
  | _ => false

/-- Where the operation is one that writes without looking for the record of `u`, or after `KEYS`
has found another one, the record of `u` is there. -/
def knowsUser (u : String) (s : Site) : Op → Bool
  | .web sid (.postUpdateMail _ _) _ | .web sid (.postUpdatePassword _) _ | .web sid (.postNewPassword _) _ =>
    (s.sessions sid).user.toText = u → u ∈ s.store
  | .web _ (.postVerifyMail uid) _ => uid = u → u ∈ s.store
  | .admin [opt, username, _] _ =>
    username = u → optionOf opt = "-p" ∨ optionOf opt = "-m" → Store.matching s.store u ≠ [] → u ∈ s.store
  | _ => true

lemma overruns_of_keysAnswered {s : Site} {sid : ℕ} {username password mail : JsVal} {now : ℕ}
    (hu : username.isArray = false) (ht : (username.add password).isSome = true)
    (h : keysAnswered s (.web sid (.postCreateUser username password mail) now) = true) :
    Store.overruns s.store username.toText = false := by
  obtain ⟨text, ht⟩ := Option.isSome_iff_exists.mp ht
  have hbegin : (s.opening sid (.postCreateUser username password mail) now).issued =
      [(.keys username.toText, .createUserKeys username mail (sha256Base64 text))] := by
    rw [Site.opening, begin_eq_handler _ (by simp)]
    simp [Request.handler, Routes.postCreateUser, ht, clientCall_keys hu]
  simpa [keysAnswered, hbegin, answered] using h

lemma mem_step_of_not_deleted {s : Site} (hs : s.Textual) {op : Op} (hop : op.textual = true)
    (h : nameDeleted op = none) (u : String) :
    u ∈ (s.step op).store ↔ u ∈ s.store ∨ ∃ w ∈ opWrites s op, w.1 = u := by
  cases op with
  | web sid req now => rw [step_web_store hs hop, HashStore.mem_writes, opWrites]
  | admin argv now =>
    have hd : adminDeletes argv = none := h
    rw [step_admin_store, adminStore, hd, HashStore.mem_writes, opWrites]

lemma mem_step_of_deleted {op : Op} {k : String} (h : nameDeleted op = some k) (s : Site) (u : String) :
    u ∈ (s.step op).store ↔ u ≠ k ∧ u ∈ s.store := by
  cases op with
  | web sid req now => cases h
  | admin argv now =>
    have hd : adminDeletes argv = some k := h
    rw [step_admin_store, adminStore, hd]
    exact HashStore.mem_del _ _ _

lemma exists_passwordWrite {user password : JsVal} {u : String} (h : ∃ w ∈ passwordWrite user password, w.1 = u) :
    user.toText = u := by
  obtain ⟨w, hw, rfl⟩ := h
  unfold passwordWrite at hw
  cases ht : user.add password with
  | none => simp [ht] at hw
  | some text =>
    rw [ht] at hw
    rw [List.mem_singleton.mp hw]

lemma exists_of_guarded_writes {P : Prop} [Decidable P] {writes : List (String × Field × String)} {u : String}
    (h : ∃ w ∈ (if P then writes else []), w.1 = u) : P ∧ ∃ w ∈ writes, w.1 = u := by
  split_ifs at h with hP
  · exact ⟨hP, h⟩
  · simp at h

/-- Where every write without a look for the record knows its user, a write is to a record
that is there or registers it. -/
lemma creates_or_mem_of_write {u : String} {s : Site} {op : Op} (hop : op.textual = true)
    (hok : knowsUser u s op = true) (hkeys : keysAnswered s op = true) (h : ∃ w ∈ opWrites s op, w.1 = u) :
    creates u s op = true ∨ u ∈ s.store := by
  match op, hop, hkeys, h with
  | .web sid (.postUpdateMail mail secure) now, _, _, h =>
    simp only [knowsUser, decide_eq_true_eq] at hok
    exact Or.inr (hok (by simpa [opWrites, writesOf] using h))
  | .web sid (.postUpdatePassword password) now, _, _, h | .web sid (.postNewPassword password) now, _, _, h =>
    simp only [knowsUser, decide_eq_true_eq] at hok
    exact Or.inr (hok (exists_passwordWrite h))
  | .web sid (.postCreateUser username password mail) now, hop, hkeys, h =>
    obtain ⟨hc, w, hw, hwu⟩ := exists_of_guarded_writes h
    have harray : username.isArray = false := by simpa [Request.textual] using hop
    have hlacks : Store.lacks s.store username.toText = true := by
      simp [Store.lacks, overruns_of_keysAnswered harray hc.1 hkeys, hc.2]
    have hu : username.toText = u := by
      rcases List.mem_append.mp hw with hw | hw
      · exact exists_passwordWrite ⟨w, hw, hwu⟩
      · rwa [List.mem_singleton.mp hw] at hwu
    subst hu
    exact Or.inl (by simp [creates, hc.1, hlacks])
  | .web sid (.getVerify uid token) now, _, _, h =>
    obtain ⟨hv, hw⟩ := exists_of_guarded_writes h
    obtain rfl : uid = u := by simpa using hw
    exact Or.inr (HashStore.mem_of_hget hv.2)
  | .web sid (.postVerifyMail uid) now, _, _, h =>
    simp only [knowsUser, decide_eq_true_eq] at hok
    exact Or.inr (hok (by simpa [opWrites, writesOf] using h))
  | .web sid (.postResetPassword username mail secure) now, _, _, h =>
    obtain ⟨hi, hw⟩ := exists_of_guarded_writes h
    obtain rfl : username.toText = u := by simpa using hw
    exact Or.inr (HashStore.mem_of_hget hi.2)
  | .web sid (.getNewPassword uid token) now, _, _, h =>
    obtain ⟨ho, hw⟩ := exists_of_guarded_writes h
    obtain rfl : uid = u := by simpa using hw
    exact Or.inr (HashStore.mem_of_hget ho.2.2)
  | .admin [opt, username, password, mail] now, _, _, h =>
    obtain ⟨hc, hw⟩ := exists_of_guarded_writes h
    obtain rfl : username = u := by simpa using hw
    exact Or.inl (by simp [creates, hc])
  | .admin [opt, username, value] now, _, _, h =>
    simp only [knowsUser, decide_eq_true_eq] at hok
    simp only [opWrites, adminWrites] at h
    split_ifs at h with hp hm
    · obtain rfl : username = u := by simpa using h
      exact Or.inr (hok rfl (Or.inl hp.1) hp.2)
    · obtain rfl : username = u := by simpa using h
      exact Or.inr (hok rfl (Or.inr hm.1) hm.2)
    · simp at h

/-- A registration writes the record and deletes nothing. -/
lemma write_of_creates {u : String} {s : Site} {op : Op} (h : creates u s op = true) :
    nameDeleted op = none ∧ ∃ w ∈ opWrites s op, w.1 = u := by
  match op, h with
  | .web sid (.postCreateUser username password mail) now, h =>
    simp only [creates, decide_eq_true_eq] at h
    obtain ⟨rfl, ht, hk⟩ := h
    exact ⟨rfl, (username.toText, .mail, mail.toText),
      by simp [opWrites, writesOf, ht, Store.matching_of_lacks hk], rfl⟩
  | .admin [opt, username, password, mail] now, h =>
    simp only [creates, decide_eq_true_eq] at h
    obtain ⟨rfl, ho, hk⟩ := h
    exact ⟨by simp [nameDeleted, adminDeletes, ho], (username, .mail, mail),
      by simp [opWrites, adminWrites, ho, hk], rfl⟩

/-- A record is there after an operation if the operation registers it, or if it was there
and is not deleted. -/
lemma mem_step_iff {u : String} {s : Site} (hs : s.Textual) {op : Op} (hop : op.textual = true)
    (hok : knowsUser u s op = true) (hkeys : keysAnswered s op = true) :
    u ∈ (s.step op).store ↔ creates u s op = true ∨ u ∈ s.store ∧ nameDeleted op ≠ some u := by
  cases hd : nameDeleted op with
  | none =>
    rw [mem_step_of_not_deleted hs hop hd]
    constructor
    · rintro (hmem | hwrite)
      · exact Or.inr ⟨hmem, by simp⟩
      · exact (creates_or_mem_of_write hop hok hkeys hwrite).imp_right (fun hmem => ⟨hmem, by simp⟩)
    · rintro (hnew | ⟨hmem, -⟩)
      · exact Or.inr (write_of_creates hnew).2
      · exact Or.inl hmem
  | some k =>
    rw [mem_step_of_deleted hd]
    constructor
    · rintro ⟨hne, hmem⟩
      exact Or.inr ⟨hmem, by simpa using hne.symm⟩
    · rintro (hnew | ⟨hmem, hne⟩)
      · rw [(write_of_creates hnew).1] at hd
        cases hd
      · exact ⟨by simpa [eq_comm] using hne, hmem⟩

/-- The record of `u` is there exactly when `u` was registered and not deleted since, in every
run without arrays for user names in which Redis answers and requests that do not look for the
record are made for users that exist. -/
theorem accounts_exist_when_created (u : String) (ops : List Op) (htext : ∀ op ∈ ops, op.textual = true)
    (hkeys : Runs.Guarded (fun pre op => keysAnswered (site pre) op = true) ops)
    (hok : Runs.Guarded (fun pre op => knowsUser u (site pre) op = true) ops) :
    u ∈ (site ops).store ↔
      Runs.Since (fun pre op => creates u (site pre) op = true) (fun _ op => nameDeleted op ≠ some u) ops := by
  induction ops using Runs.history_induction with
  | h0 => simp [AList.notMem_empty]
  | hs ops op ih =>
    have hpre : ∀ op ∈ ops, op.textual = true := fun op' hop' => htext op' (List.mem_append_left _ hop')
    rw [Runs.since_concat, ← ih hpre hkeys.init hok.init, site, Runs.after_concat]
    exact mem_step_iff (textual_site hpre) (htext op (by simp)) hok.last hkeys.last

/-- `alice` is registered, deleted and registered again. -/
theorem accounts_exist_when_created_alice :
    "alice" ∈ (site (aliceRegistered ++ [.admin ["-d", "alice"] 1700000120000,
      .web 1 (.postCreateUser (.str "alice") (.str "secret") (.str "alice@example.org")) 1700000180000])).store := by
  refine (accounts_exist_when_created "alice" _ (by decide) (Runs.guarded_of_forall_lt ?_)
    (Runs.guarded_of_forall_lt ?_)).mpr ?_
  · decide +kernel
  · decide +kernel
  · decide +kernel

/-- A verification mail for an unknown name brings its record into existence, and so does a
session of `alice` after `alice` was deleted. -/
theorem accounts_exist_uncreated :
    let registered := fun u ops =>
      Runs.Since (fun pre op => creates u (site pre) op = true) (fun _ op => nameDeleted op ≠ some u) ops
    let unknown : List Op := [.web 0 (.postVerifyMail "bob") 1700000000000]
    let stale := aliceRegistered ++ [.web 1 (.postLogin (.str "alice") (.str "secret")) 1700000120000,
      .admin ["-d", "alice"] 1700000180000, .web 1 (.postUpdatePassword (.str "other")) 1700000240000]
    ("bob" ∈ (site unknown).store ∧ ¬registered "bob" unknown) ∧
      ("alice" ∈ (site stale).store ∧ ¬registered "alice" stale) := by
  decide +kernel

end ExpressAuth.Proofs
