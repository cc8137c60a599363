import ExpressAuth.Proofs.SerialEffects

/-!
# One user's record

Every serial operation whose user name is not an array leaves the record of a given user alone or
changes it in one of twelve ways. Results about one user go by cases on these.
-/

namespace ExpressAuth.Proofs

/-- The hash of a user. -/
abbrev record (store : Store) (u : String) : Field → Option String := HashStore.hget store u

/-- A record with some fields written. -/
def writeFields (r : Field → Option String) : List (Field × String) → Field → Option String
  | [] => r
  | (f, v) :: fields => writeFields (Function.update r f (some v)) fields

lemma record_writes_self (store : Store) (u : String) (fields : List (Field × String)) :
    record (store.writes (fields.map (fun p => (u, p.1, p.2)))) u = writeFields (record store u) fields := by
  induction fields generalizing store with
  | nil => rfl
  | cons p fields ih =>
    rw [List.map_cons, HashStore.writes_cons, ih, record, HashStore.hget_hset_eq_update]
    rfl

lemma record_writes_of_ne (store : Store) {u k : String} (h : u ≠ k) (fields : List (Field × String)) :
    record (store.writes (fields.map (fun p => (k, p.1, p.2)))) u = record store u := by
  funext f
  apply HashStore.hget_writes_of_forall_ne
  rintro w hw ⟨hk, -⟩
  obtain ⟨p, -, rfl⟩ := List.mem_map.mp hw
  exact h hk.symm

/-- The writes of an operation. -/
def opWrites (s : Site) : Op → List (String × Field × String)
  | .web sid req now => writesOf s.store (s.sessions sid) now req
  | .admin argv now => adminWrites s.store now argv

/-- The name that an operation deletes. -/
def nameDeleted : Op → Option String
  | .admin argv _ => adminDeletes argv
  | _ => none

/-- Redis answers the command. -/
def answered (store : Store) : Cmd → Bool
  | .keys pattern => !Store.overruns store pattern
  | _ => true

/-- Redis answers every `KEYS` of an operation; without an answer it has ended. -/
def keysAnswered (s : Site) : Op → Bool
  | .web sid req now => (s.opening sid req now).issued.all (fun call => answered s.store call.1)
  | .admin argv _ =>
    match AdminTool.main argv with
    | .keys username _ _ => answered s.store (.keys username)
    | _ => true

/-- The operation writes to the record of `u` or deletes it. -/
def touches (u : String) (s : Site) (op : Op) : Bool :=
  nameDeleted op = some u ∨ ∃ w ∈ opWrites s op, w.1 = u

lemma touches_of_write {u : String} {s : Site} {op : Op} {f : Field} {v : String} (h : (u, f, v) ∈ opWrites s op) :
    touches u s op = true :=
  decide_eq_true (Or.inr ⟨_, h, rfl⟩)

/-- What one serial operation can do to the record of `u`. -/
inductive RecordStep (u : String) (s : Site) : Op → (Field → Option String) → Prop
  | kept {op} (h : touches u s op = false) : RecordStep u s op (record s.store u)
  | updateMail {sid mail secure now} (hu : (s.sessions sid).user.toText = u) :
      RecordStep u s (.web sid (.postUpdateMail mail secure) now) (writeFields (record s.store u)
        [(.timestamp, numberText (seconds now)), (.valid, "False"), (.mail, mail.toText)])
  | updatePassword {sid password now text} (hu : (s.sessions sid).user.toText = u)
      (ht : (s.sessions sid).user.add password = some text) :
      RecordStep u s (.web sid (.postUpdatePassword password) now)
        (writeFields (record s.store u) [(.password, sha256Base64 text)])
  | newPassword {sid password now text} (hu : (s.sessions sid).user.toText = u)
      (ht : (s.sessions sid).user.add password = some text) :
      RecordStep u s (.web sid (.postNewPassword password) now)
        (writeFields (record s.store u) [(.password, sha256Base64 text)])
  | createUser {sid username password mail now text} (hu : username.toText = u)
      (ht : username.add password = some text) (hk : Store.matching s.store u = []) :
      RecordStep u s (.web sid (.postCreateUser username password mail) now)
        (writeFields (record s.store u) [(.password, sha256Base64 text), (.mail, mail.toText)])
  | verify {sid token now} (hv : Verifies s.store u token) :
      RecordStep u s (.web sid (.getVerify u token) now) (writeFields (record s.store u) [(.valid, "True")])
  | verifyMail {sid now} :
      RecordStep u s (.web sid (.postVerifyMail u) now) (writeFields (record s.store u)
        [(.timestamp, numberText (seconds now)), (.link, verifyUrl (.str u) (tokenAt now))])
  | reset {sid username mail secure now} (hu : username.toText = u) (hi : ResetIssues s.store username mail) :
      RecordStep u s (.web sid (.postResetPassword username mail secure) now) (writeFields (record s.store u)
        [(.timestamp, numberText (seconds now)), (.newPassword, "True")])
  | openLink {sid token now} (ho : LinkOpens s.store now u token) :
      RecordStep u s (.web sid (.getNewPassword u token) now)
        (writeFields (record s.store u) [(.newPassword, "False")])
  | adminCreate {opt password mail now} (ho : optionOf opt = "-c") (hk : Store.lacks s.store u = true) :
      RecordStep u s (.admin [opt, u, password, mail] now) (writeFields (record s.store u)
        [(.password, AdminTool.sha256Base64 (u ++ password)), (.mail, mail),
          (.timestamp, AdminTool.floatText (AdminTool.thousands now)), (.valid, "False")])
  | adminPassword {opt password now} (ho : optionOf opt = "-p") (hk : Store.matching s.store u ≠ []) :
      RecordStep u s (.admin [opt, u, password] now)
        (writeFields (record s.store u) [(.password, AdminTool.sha256Base64 (u ++ password))])
  | adminMail {opt mail now} (ho : optionOf opt = "-m") (hk : Store.matching s.store u ≠ []) :
      RecordStep u s (.admin [opt, u, mail] now) (writeFields (record s.store u)
        [(.mail, mail), (.timestamp, AdminTool.floatText (AdminTool.thousands now)), (.valid, "False")])
  | adminDelete {opt rest now} (ho : optionOf opt = "-d") :
      RecordStep u s (.admin (opt :: u :: rest) now) (fun _ => none)

/-- Writes to fields of one key are a step of its own record and keep every other. -/
lemma recordStep_of_writes {u : String} {s : Site} {op : Op} (k : String) (fields : List (Field × String))
    (hd : nameDeleted op = none) (hw : opWrites s op = fields.map (fun p => (k, p.1, p.2)))
    (hs : (s.step op).store = s.store.writes (opWrites s op))
    (hstep : k = u → RecordStep u s op (writeFields (record s.store u) fields)) :
    RecordStep u s op (record (s.step op).store u) := by
  rw [hs, hw]
  by_cases hu : u = k
  · subst hu
    rw [record_writes_self]
    exact hstep rfl
  · rw [record_writes_of_ne s.store hu]
    refine .kept ?_
    simp [touches, hd, hw, Ne.symm hu]

lemma recordStep_of_no_writes {u : String} {s : Site} {op : Op} (hd : nameDeleted op = none)
    (hw : opWrites s op = []) (hs : (s.step op).store = s.store.writes (opWrites s op)) :
    RecordStep u s op (record (s.step op).store u) := by
  rw [hs, hw]
  exact .kept (by simp [touches, hd, hw])

lemma adminWrites_of_deletes {argv : List String} {k : String} (h : adminDeletes argv = some k) (store : Store)
    (now : ℕ) : adminWrites store now argv = [] := by
  rcases argv with _ | ⟨opt, _ | ⟨a, _ | ⟨b, _ | ⟨c, _ | ⟨d, rest⟩⟩⟩⟩⟩ <;> simp [adminDeletes] at h <;>
    simp [adminWrites, h.1]

lemma recordStep_admin (u : String) (s : Site) (argv : List String) (now : ℕ) :
    RecordStep u s (.admin argv now) (record (s.step (.admin argv now)).store u) := by
  have hs := step_admin_store s argv now
  unfold adminStore at hs
  cases hd : adminDeletes argv with
  | some username =>
    rw [hd] at hs
    rw [hs]
    by_cases hu : u = username
    · subst hu
      rw [record, HashStore.hget_del_self]
      rcases argv with _ | ⟨opt, _ | ⟨name, rest⟩⟩ <;> simp [adminDeletes] at hd
      obtain ⟨ho, rfl⟩ := hd
      exact .adminDelete ho
    · rw [record, HashStore.hget_del_of_ne s.store hu]
      refine .kept ?_
      simp [touches, nameDeleted, opWrites, hd, adminWrites_of_deletes hd, Ne.symm hu]
  | none =>
    rw [hd] at hs
    have hd : nameDeleted (.admin argv now) = none := hd
    rcases argv with _ | ⟨opt, _ | ⟨username, _ | ⟨value, _ | ⟨mail, _ | ⟨_, _⟩⟩⟩⟩⟩
    · exact recordStep_of_no_writes hd rfl hs
    · exact recordStep_of_no_writes hd rfl hs
    · exact recordStep_of_no_writes hd rfl hs
    · by_cases hp : optionOf opt = "-p" ∧ Store.matching s.store username ≠ []
      · refine recordStep_of_writes username [(.password, _)] hd
          (by rw [opWrites, adminWrites, if_pos hp]; rfl) hs ?_
        rintro rfl
        exact .adminPassword hp.1 hp.2
      · by_cases hm : optionOf opt = "-m" ∧ Store.matching s.store username ≠ []
        · refine recordStep_of_writes username [(.mail, _), (.timestamp, _), (.valid, _)] hd
            (by rw [opWrites, adminWrites, if_neg hp, if_pos hm]; rfl) hs ?_
          rintro rfl
          exact .adminMail hm.1 hm.2
        · exact recordStep_of_no_writes hd (by rw [opWrites, adminWrites, if_neg hp, if_neg hm]) hs
    · by_cases hc : optionOf opt = "-c" ∧ Store.lacks s.store username = true
      · refine recordStep_of_writes username [(.password, _), (.mail, _), (.timestamp, _), (.valid, _)] hd
          (by rw [opWrites, adminWrites, if_pos hc]; rfl) hs ?_
        rintro rfl
        exact .adminCreate hc.1 hc.2
      · exact recordStep_of_no_writes hd (by rw [opWrites, adminWrites, if_neg hc]) hs
    · exact recordStep_of_no_writes hd rfl hs

lemma recordStep_web (u : String) {s : Site} (htext : s.Textual) (sid : ℕ) {req : Request} (hreq : req.textual = true)
    (now : ℕ) : RecordStep u s (.web sid req now) (record (s.step (.web sid req now)).store u) := by
  have hs := step_web_store htext hreq sid now
  cases req with
  | postUpdateMail mail secure =>
    exact recordStep_of_writes _ [(.timestamp, _), (.valid, _), (.mail, _)] rfl rfl hs .updateMail
  | postUpdatePassword password =>
    cases ht : (s.sessions sid).user.add password with
    | none => exact recordStep_of_no_writes rfl (by simp [opWrites, writesOf, passwordWrite, ht]) hs
    | some text =>
      exact recordStep_of_writes (s.sessions sid).user.toText [(.password, sha256Base64 text)] rfl
        (by simp [opWrites, writesOf, passwordWrite, ht]) hs (fun hu => .updatePassword hu ht)
  | postNewPassword password =>
    cases ht : (s.sessions sid).user.add password with
    | none => exact recordStep_of_no_writes rfl (by simp [opWrites, writesOf, passwordWrite, ht]) hs
    | some text =>
      exact recordStep_of_writes (s.sessions sid).user.toText [(.password, sha256Base64 text)] rfl
        (by simp [opWrites, writesOf, passwordWrite, ht]) hs (fun hu => .newPassword hu ht)
  | postCreateUser username password mail =>
    cases ht : username.add password with
    | none => exact recordStep_of_no_writes rfl (by simp [opWrites, writesOf, ht]) hs
    | some text =>
      by_cases hk : Store.matching s.store username.toText = []
      · exact recordStep_of_writes username.toText [(.password, sha256Base64 text), (.mail, mail.toText)] rfl
          (by simp [opWrites, writesOf, passwordWrite, ht, hk]) hs (fun hu => .createUser hu ht (hu ▸ hk))
      · exact recordStep_of_no_writes rfl (by simp [opWrites, writesOf, hk]) hs
  | getVerify uid token =>
    by_cases hv : Verifies s.store uid token
    · refine recordStep_of_writes uid [(.valid, "True")] rfl (by simp [opWrites, writesOf, hv]) hs ?_
      rintro rfl
      exact .verify hv
    · exact recordStep_of_no_writes rfl (by simp [opWrites, writesOf, hv]) hs
  | postVerifyMail uid =>
    refine recordStep_of_writes uid [(.timestamp, _), (.link, _)] rfl rfl hs ?_
    rintro rfl
    exact .verifyMail
  | postResetPassword username mail secure =>
    by_cases hi : ResetIssues s.store username mail
    · exact recordStep_of_writes username.toText [(.timestamp, numberText (seconds now)), (.newPassword, "True")] rfl
        (by simp [opWrites, writesOf, hi]) hs (fun hu => .reset hu hi)
    · exact recordStep_of_no_writes rfl (by simp [opWrites, writesOf, hi]) hs
  | getNewPassword uid token =>
    by_cases ho : LinkOpens s.store now uid token
    · refine recordStep_of_writes uid [(.newPassword, "False")] rfl (by simp [opWrites, writesOf, ho]) hs ?_
      rintro rfl
      exact .openLink ho
    · exact recordStep_of_no_writes rfl (by simp [opWrites, writesOf, ho]) hs
  | _ => exact recordStep_of_no_writes rfl rfl hs

/-- Every operation takes a record to one of the forms above. -/
theorem recordStep (u : String) {s : Site} (hs : s.Textual) {op : Op} (hop : op.textual = true) :
    RecordStep u s op (record (s.step op).store u) := by
  cases op with
  | web sid req now => exact recordStep_web u hs sid hop now
  | admin argv now => exact recordStep_admin u s argv now

end ExpressAuth.Proofs
