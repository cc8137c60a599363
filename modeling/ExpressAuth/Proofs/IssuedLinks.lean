import ExpressAuth.Proofs.Records

/-!
# Links that are issued

A link reaches its user in a mail file or, after `POST /verify_mail`, in the field `link` that
`GET /verify_mail` shows. What an operation issues is read off there. Every link carries the
hash of a clock text, and the operation that issues it stores the same text in `timestamp`.
-/

namespace ExpressAuth.Proofs

/-- `POST /reset_password` for `u`, its two checks passed, mails a link that carries `token`. -/
def IssuesResetLink (u token : String) (s : Site) : Op → Prop
  | .web sid (.postResetPassword username mail secure) now =>
    username.toText = u ∧ ResetIssues s.store username mail ∧
      resetMailFile username token ∈ (s.serve sid (.postResetPassword username mail secure) now).2.files
  | _ => False

/-- The file that `createMail` of `admin.py` writes. -/
def adminMailFile (username token : String) : MailFile :=
  ⟨"/mails/" ++ username ++ "_mail.html",
    "Bitte klicke <a href=" ++ ("https://diana-yavuz.informatik.haw-hamburg.de" ++
      ("/verify/user=" ++ username ++ "&token=" ++ token)) ++ ">hier</a>, um deine Email zu verifizieren."⟩

/-- The operation hands out a verification link of `u` that carries `token`. -/
def IssuesVerifyLink (u token : String) (s : Site) : Op → Prop
  | .web sid (.postUpdateMail mail secure) now =>
    (s.sessions sid).user.toText = u ∧ verifyMailFile (s.sessions sid).user secure token ∈
      (s.serve sid (.postUpdateMail mail secure) now).2.files
  | .web sid (.postVerifyMail uid) now =>
    uid = u ∧ (s.step (.web sid (.postVerifyMail uid) now)).store.hget u .link = some (verifyUrl (.str u) token)
  | .admin argv now => adminMailFile u token ∈ AdminTool.files s.store now argv
  | _ => False

/-- The operation hands out a link of `u` of either kind. -/
def IssuesLink (u token : String) (s : Site) (op : Op) : Prop :=
  IssuesVerifyLink u token s op ∨ IssuesResetLink u token s op

instance (u token : String) (s : Site) (op : Op) : Decidable (IssuesResetLink u token s op) := by
  unfold IssuesResetLink
  split <;> infer_instance

instance (u token : String) (s : Site) (op : Op) : Decidable (IssuesVerifyLink u token s op) := by
  unfold IssuesVerifyLink
  split <;> infer_instance

instance (u token : String) (s : Site) (op : Op) : Decidable (IssuesLink u token s op) :=
  inferInstanceAs (Decidable (_ ∨ _))

/-! ### The clock texts behind the tokens -/

/-- Whose verification link an operation issues, and the clock text in it. -/
def verifyLink (s : Site) : Op → Option (String × String)
  | .web sid (.postUpdateMail _ _) now => some ((s.sessions sid).user.toText, numberText (seconds now))
  | .web _ (.postVerifyMail uid) now => some (uid, numberText (seconds now))
  | .admin [opt, username, _, _] now =>
    if optionOf opt = "-c" ∧ Store.lacks s.store username = true then
      some (username, AdminTool.floatText (AdminTool.thousands now))
    else none
  | .admin [opt, username, _] now =>
    if optionOf opt = "-m" ∧ Store.matching s.store username ≠ [] then
      some (username, AdminTool.floatText (AdminTool.thousands now))
    else none
  | _ => none

/-- The clock text in the verification link that an operation issues for `u`. -/
def linkText (u : String) (s : Site) (op : Op) : Option String :=
  match verifyLink s op with
  | some (user, text) => if user = u then some text else none
  | none => none

/-- The clock text in the reset link that an operation issues for `u`. -/
def resetText (u : String) (s : Site) : Op → Option String
  | .web _ (.postResetPassword username mail _) now =>
    if username.toText = u ∧ ResetIssues s.store username mail then some (numberText (seconds now)) else none
  | _ => none

/-- The clock text in the link of either kind that an operation issues for `u`. -/
def issuedText (u : String) (s : Site) (op : Op) : Option String := (linkText u s op).or (resetText u s op)

lemma linkText_eq_some {u text : String} {s : Site} {op : Op} :
    linkText u s op = some text ↔ verifyLink s op = some (u, text) := by
  unfold linkText
  rcases verifyLink s op with _ | ⟨user, text'⟩ <;> simp

lemma issuedText_eq_some {u text : String} {s : Site} {op : Op} :
    issuedText u s op = some text ↔ linkText u s op = some text ∨ resetText u s op = some text := by
  unfold issuedText
  cases hlink : linkText u s op with
  | none => simp
  | some text' =>
    -- no operation issues links of both kinds
    have hreset : resetText u s op = none := by
      match op, hlink with
      | .web _ (.postUpdateMail _ _) _, _ | .web _ (.postVerifyMail _) _, _ | .admin _ _, _ => rfl
    simp [hreset]

/-- Every link leaves its clock text in the record. -/
lemma timestamp_written {u text : String} {s : Site} {op : Op} (h : issuedText u s op = some text) :
    (u, Field.timestamp, text) ∈ opWrites s op := by
  match op, h with
  | .web sid (.postUpdateMail mail secure) now, h | .web sid (.postVerifyMail uid) now, h
  | .web sid (.postResetPassword username mail secure) now, h =>
    simp only [issuedText, linkText, verifyLink, resetText, Option.or_none, Option.none_or,
      Option.ite_none_right_eq_some] at h
    obtain ⟨hc, ht⟩ := h
    simp [opWrites, writesOf, hc, ← Option.some.inj ht]
  | .admin [opt, username, password, mail] now, h | .admin [opt, username, mail] now, h =>
    simp only [issuedText, resetText, Option.or_none, linkText_eq_some] at h
    obtain ⟨⟨ho, hk⟩, rfl, rfl⟩ : (_ ∧ _) ∧ username = u ∧ _ = text := by simpa [verifyLink] using h
    simp [opWrites, adminWrites, ho, hk]

lemma verifyUrl_inj {user : JsVal} {token token' : String} (h : verifyUrl user token = verifyUrl user token') :
    token = token' :=
  (String.append_right_inj _).mp h

lemma verifyMailFile_inj {user : JsVal} {secure : Bool} {token token' : String}
    (h : verifyMailFile user secure token = verifyMailFile user secure token') : token = token' := by
  obtain ⟨-, htext⟩ := MailFile.mk.inj h
  have hurl := (String.append_right_inj _).mp ((String.append_left_inj _).mp htext)
  exact verifyUrl_inj ((String.append_right_inj _).mp hurl)

lemma resetMailFile_inj {user : JsVal} {token token' : String}
    (h : resetMailFile user token = resetMailFile user token') : token = token' := by
  obtain ⟨-, htext⟩ := MailFile.mk.inj h
  have hurl := (String.append_right_inj _).mp ((String.append_left_inj _).mp htext)
  rw [String.append_right_inj] at hurl
  exact (String.append_right_inj _).mp hurl

lemma adminMailFile_inj {username username' token token' : String}
    (h : adminMailFile username token = adminMailFile username' token') : username = username' ∧ token = token' := by
  obtain ⟨hpath, htext⟩ := MailFile.mk.inj h
  have hname := (String.append_right_inj _).mp ((String.append_left_inj _).mp hpath)
  subst hname
  have hurl := (String.append_right_inj _).mp ((String.append_left_inj _).mp htext)
  rw [String.append_right_inj] at hurl
  exact ⟨rfl, (String.append_right_inj _).mp hurl⟩

/-- An invocation writes the file of the link it issues and no other. -/
lemma admin_files_eq (s : Site) (argv : List String) (now : ℕ) :
    AdminTool.files s.store now argv =
      ((verifyLink s (.admin argv now)).map (fun link => adminMailFile link.1 (sha256Hex link.2))).toList := by
  have hfile : ∀ username, (AdminTool.createMail now username).flatMap AdminTool.Action.written =
      [adminMailFile username (sha256Hex (AdminTool.floatText (AdminTool.thousands now)))] := by
    intro username
    rw [← AdminTool.sha256Hex_floatText]
    simp [AdminTool.createMail, AdminTool.Action.written, adminMailFile, String.append_assoc]
  -- without writes there is no link
  have hnone : adminWrites s.store now argv = [] → verifyLink s (.admin argv now) = none := by
    intro hw
    rcases hlink : verifyLink s (.admin argv now) with _ | ⟨u, text⟩
    · rfl
    · have hmem : (u, Field.timestamp, text) ∈ opWrites s (.admin argv now) :=
        timestamp_written (issuedText_eq_some.mpr (Or.inl (linkText_eq_some.mpr hlink)))
      rw [opWrites, hw] at hmem
      cases hmem
  unfold AdminTool.files
  have hacts := adminActs s.store argv
  generalize (AdminTool.main argv).actions s.store = actions at hacts
  cases hacts with
  | create ho hk => simp [verifyLink, ho, hk, AdminTool.Action.files, AdminTool.Action.written, hfile]
  | password ho hk => simp [verifyLink, ho, AdminTool.Action.files, AdminTool.Action.written]
  | mail ho hk => simp [verifyLink, ho, hk, AdminTool.Action.files, AdminTool.Action.written, hfile]
  | delete ho =>
    rw [hnone (adminWrites_of_other _ (Or.inr (Or.inr ho)) now)]
    rfl
  | list ho names =>
    rw [hnone (adminWrites_of_other _ (Or.inr (Or.inl ho)) now)]
    simp [AdminTool.Action.files, AdminTool.Action.written, List.flatMap_map]
  | @message _ action ha hw hd =>
    rw [hnone (hw now)]
    cases action with
    | print | raise => rfl
    | _ => cases ha

/-- The verification links that reach a user are those of the table, the token the hash of the clock text. -/
theorem issuesVerifyLink_iff {u token : String} {s : Site} (hs : s.Textual) {op : Op} :
    IssuesVerifyLink u token s op ↔ ∃ text, linkText u s op = some text ∧ token = sha256Hex text := by
  simp only [linkText_eq_some]
  cases op with
  | admin argv now =>
    rw [IssuesVerifyLink, admin_files_eq]
    rcases hlink : verifyLink s (.admin argv now) with _ | ⟨user, text⟩
    · simp
    · simp only [Option.map_some, Option.toList_some, List.mem_singleton, Option.some.injEq, Prod.mk.injEq]
      constructor
      · intro hfile
        obtain ⟨rfl, rfl⟩ := adminMailFile_inj hfile
        exact ⟨text, ⟨rfl, rfl⟩, rfl⟩
      · rintro ⟨text', ⟨rfl, rfl⟩, rfl⟩
        rfl
  | web sid req now =>
    cases req with
    | postUpdateMail mail secure =>
      have hfiles := (served_postUpdateMail s sid mail secure now (hs sid)).files
      simp only [IssuesVerifyLink, verifyLink, hfiles, filesOf, List.mem_singleton, Option.some.injEq, Prod.mk.injEq]
      constructor
      · rintro ⟨hu, hfile⟩
        exact ⟨_, ⟨hu, rfl⟩, verifyMailFile_inj hfile⟩
      · rintro ⟨text, ⟨hu, rfl⟩, rfl⟩
        exact ⟨hu, rfl⟩
    | postVerifyMail uid =>
      have hstore := @step_web_store s hs (.postVerifyMail uid) rfl sid now
      simp only [IssuesVerifyLink, verifyLink, hstore, Option.some.injEq, Prod.mk.injEq]
      constructor
      · rintro ⟨rfl, hlink⟩
        have hurl : verifyUrl (.str uid) (sha256Hex (numberText (seconds now))) = verifyUrl (.str uid) token := by
          simpa [writesOf, HashStore.hget_hset] using hlink
        exact ⟨_, ⟨rfl, rfl⟩, (verifyUrl_inj hurl).symm⟩
      · rintro ⟨text, ⟨rfl, rfl⟩, rfl⟩
        exact ⟨rfl, by simp [writesOf]⟩
    | _ => simp [IssuesVerifyLink, verifyLink]

/-- The reset links that reach a user are those of resets whose checks pass. -/
theorem issuesResetLink_iff {u token : String} {s : Site} {op : Op} (hop : op.textual = true) :
    IssuesResetLink u token s op ↔ ∃ text, resetText u s op = some text ∧ token = sha256Hex text := by
  cases op with
  | admin argv now => simp [IssuesResetLink, resetText]
  | web sid req now =>
    cases req with
    | postResetPassword username mail secure =>
      have hu : username.isArray = false := by simpa [Request.textual] using hop
      have hfiles := (served_postResetPassword s sid username mail secure now hu).files
      by_cases hc : username.toText = u ∧ ResetIssues s.store username mail
      · simp only [IssuesResetLink, resetText, hc, true_and, and_self, if_true, Option.some.injEq, exists_eq_left',
          hfiles, filesOf, List.mem_singleton]
        exact ⟨resetMailFile_inj, fun h => h ▸ rfl⟩
      · simp only [IssuesResetLink, resetText, if_neg hc, reduceCtorEq, false_and, exists_false, iff_false]
        exact fun h => hc ⟨h.1, h.2.1⟩
    | _ => simp [IssuesResetLink, resetText]

/-- Every link that reaches a user carries the hash of the clock text the tables give. -/
theorem issuesLink_iff {u token : String} {s : Site} (hs : s.Textual) {op : Op} (hop : op.textual = true) :
    IssuesLink u token s op ↔ ∃ text, issuedText u s op = some text ∧ token = sha256Hex text := by
  simp only [IssuesLink, issuesVerifyLink_iff hs, issuesResetLink_iff hop, issuedText_eq_some, or_and_right, exists_or]

lemma issuesLink_of_linkText {u text : String} {s : Site} (hs : s.Textual) {op : Op} (h : linkText u s op = some text) :
    IssuesLink u (sha256Hex text) s op :=
  Or.inl ((issuesVerifyLink_iff hs).mpr ⟨text, h, rfl⟩)

end ExpressAuth.Proofs
