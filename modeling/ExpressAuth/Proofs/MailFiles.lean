import ExpressAuth.Library.PosixPath
import ExpressAuth.Proofs.Activation

/-!
# Where the mails are written

The mails are files below `mails/`, beside the directory of `routes.js`. The name of the user is a
part of the file name, and `path.join` normalises what it contains.
-/

namespace ExpressAuth.Proofs
open PosixPath

inductive MailKind where
  | verification
  | password
  deriving DecidableEq, Repr

def MailKind.ending : MailKind → String
  | .verification => "_mail.html"
  | .password => "_password.html"

/-- The second argument of `path.join(__dirname, ·)`. -/
def mailFile (kind : MailKind) (u : String) : String := "../mails/" ++ u ++ kind.ending

/-- A request writes no other files: those of `POST /update_mail` are named after the user of its session,
those of `POST /reset_password` after the name in the form. -/
lemma mailFile_of_mem_files {s : Site} (hs : s.Textual) {sid : ℕ} {req : Request} (htext : req.textual = true)
    {now : ℕ} {file : MailFile} (h : file ∈ (s.serve sid req now).2.files) :
    file.file = mailFile .verification (s.sessions sid).user.toText ∨
      ∃ username mail secure, req = .postResetPassword username mail secure ∧
        file.file = mailFile .password username.toText := by
  rw [(served hs sid htext now).files] at h
  cases req with
  | postUpdateMail mail secure =>
    obtain rfl := List.mem_singleton.mp h
    exact .inl rfl
  | postResetPassword username mail secure =>
    simp only [filesOf] at h
    split_ifs at h
    · obtain rfl := List.mem_singleton.mp h
      exact .inr ⟨username, mail, secure, rfl, rfl⟩
    · cases h
  | _ => cases h

/-! ### The path of a mail -/

section
variable (app : Dir)

/-- `__dirname`: `routes.js` lies in `lib` of the application. -/
def dirname : Dir := app.sub "lib".toList (by decide)

def mails : Dir := app.sub "mails".toList (by decide)

def mailPath (kind : MailKind) (u : String) : List Char := join [(dirname app).path, (mailFile kind u).toList]

/-- The ending makes a name of whatever stands behind the last slash. -/
lemma isName_append {text : List Char} (h : '/' ∉ text) (kind : MailKind) : IsName (text ++ kind.ending.toList) := by
  apply isName_of_length
  · cases kind <;> simp [MailKind.ending]
  · cases kind <;> simp [MailKind.ending, h]

/-- The text that `path.join` normalises. -/
lemma mailPath_eq_normalize (kind : MailKind) (u : String) :
    mailPath app kind u = normalize ('/' :: ((['/'].intercalate (app.parts ++ ["lib".toList]) ++
      '/' :: "../mails".toList) ++ '/' :: (u.toList ++ kind.ending.toList))) := by
  simp [mailPath, join, mailFile, Dir.path, dirname, Dir.sub]

/-- `lib/..` cancels, and the path arrives at `mails`. -/
lemma foldl_push_mails (rest : List (List Char)) :
    ((['/'].intercalate (app.parts ++ ["lib".toList]) ++ '/' :: "../mails".toList).splitOn '/' ++ rest).foldl
      (push false) [] = rest.foldl (push false) (mails app).parts := by
  have hnames : ∀ p ∈ app.parts ++ ["lib".toList], IsName p := (dirname app).names
  have hlib : (['/'].intercalate (app.parts ++ ["lib".toList])).splitOn '/' = app.parts ++ ["lib".toList] :=
    List.splitOn_intercalate '/' (fun p hp => (hnames p hp).2.2.2) (by simp)
  have hmails : "../mails".toList.splitOn '/' = [['.', '.'], "mails".toList] := by decide
  rw [List.splitOn_append_cons_self, hlib, hmails, List.foldl_append, List.foldl_append, foldl_push hnames,
    List.nil_append, List.foldl_cons, push_parent (by decide), List.foldl_cons, push_name (by decide)]
  rfl

/-- The file of a name without a slash. -/
lemma mailPath_of_no_slash (kind : MailKind) {u : String} (h : '/' ∉ u.toList) :
    mailPath app kind u = ((mails app).sub (u.toList ++ kind.ending.toList) (isName_append h kind)).path := by
  have hdir := foldl_push_mails app []
  rw [List.append_nil] at hdir
  rw [mailPath_eq_normalize, normalize_name _ (isName_append h kind), hdir]
  rfl

/-- The file of a name with a slash ends with what stands behind the last one. -/
lemma basename_mailPath (kind : MailKind) {u : String} {front text : List Char} (hu : u.toList = front ++ '/' :: text)
    (h : '/' ∉ text) : basename (mailPath app kind u) = text ++ kind.ending.toList := by
  have hname := isName_append h kind
  have hsplit : (['/'].intercalate (app.parts ++ ["lib".toList]) ++ '/' :: "../mails".toList) ++
      '/' :: (u.toList ++ kind.ending.toList) =
      ((['/'].intercalate (app.parts ++ ["lib".toList]) ++ '/' :: "../mails".toList) ++ '/' :: front) ++
        '/' :: (text ++ kind.ending.toList) := by
    simp [hu]
  rw [mailPath_eq_normalize, hsplit, normalize_name _ hname, basename_intercalate _ hname.2.2.2]

end

/-! ### Separate files -/

/-- The kind and the name can be read from the file name. -/
lemma ending_inj {kind kind' : MailKind} {u v : List Char}
    (h : u ++ kind.ending.toList = v ++ kind'.ending.toList) : u = v ∧ kind = kind' := by
  have hrev := congrArg List.reverse h
  cases kind <;> cases kind' <;> simp [MailKind.ending] at hrev h ⊢ <;> assumption

/-- Names without a slash: each mail lies in `mails/` itself, and no two names or kinds share a file. -/
theorem mail_files_separate (app : Dir) (u v : String) (hu : '/' ∉ u.toList) (hv : '/' ∉ v.toList)
    (kind kind' : MailKind) :
    LiesIn (mails app) (mailPath app kind u) ∧
      (mailPath app kind u = mailPath app kind' v → u = v ∧ kind = kind') := by
  have hpath := mailPath_of_no_slash app kind hu
  have hpath' := mailPath_of_no_slash app kind' hv
  refine ⟨⟨_, _, hpath⟩, fun heq => ?_⟩
  rw [hpath, hpath'] at heq
  have hbase := congrArg basename heq
  rw [basename_sub, basename_sub] at hbase
  obtain ⟨hname, hkind⟩ := ending_inj hbase
  exact ⟨String.toList_inj.mp hname, hkind⟩

/-- The two mails of `alice` and those of `bob`. -/
theorem mail_files_separate_alice :
    let app : Dir := ⟨["srv".toList, "app".toList], by decide⟩
    LiesIn (mails app) (mailPath app .verification "alice") ∧
      mailPath app .verification "alice" ≠ mailPath app .verification "bob" ∧
      mailPath app .verification "alice" ≠ mailPath app .password "alice" := by
  intro app
  have hbob := mail_files_separate app "alice" "bob" (by decide) (by decide) .verification .verification
  have hkind := mail_files_separate app "alice" "alice" (by decide) (by decide) .verification .password
  refine ⟨hbob.1, fun heq => ?_, fun heq => ?_⟩
  · exact absurd (hbob.2 heq).1 (by decide)
  · exact absurd (hkind.2 heq).2 (by decide)

/-- The name `../alice` is accepted and its mail is written beside `mails/`. The names `./alice` and
`alice` can both be registered and have one file. -/
theorem mail_files_not_separate :
    let app : Dir := ⟨["srv".toList, "app".toList], by decide⟩
    let created : Op := .web 0 (.postCreateUser (.str "./alice") (.str "secret") (.str "mail@example.org")) 1700000000000
    ReportsCreated (site []) 0 (.str "../alice") (.str "secret") (.str "mail@example.org") 1700000000000 ∧
      ¬LiesIn (mails app) (mailPath app .verification "../alice") ∧
      mailPath app .verification "../alice" = "/srv/app/alice_mail.html".toList ∧
      ReportsCreated (site []) 0 (.str "./alice") (.str "secret") (.str "mail@example.org") 1700000000000 ∧
      ReportsCreated (site [created]) 0 (.str "alice") (.str "secret") (.str "mail@example.org") 1700000060000 ∧
      mailPath app .password "./alice" = mailPath app .password "alice" := by
  decide +kernel

/-- What a request writes lies in `mails/` itself, if neither its session's user nor the name in its form
has a slash. -/
theorem files_lie_in_mails (app : Dir) (s : Site) (hs : s.Textual) (sid : ℕ) (req : Request)
    (htext : req.textual = true) (now : ℕ) (huser : '/' ∉ (s.sessions sid).user.toText.toList)
    (hform : ∀ username mail secure, req = .postResetPassword username mail secure → '/' ∉ username.toText.toList) :
    ∀ file ∈ (s.serve sid req now).2.files, LiesIn (mails app) (join [(dirname app).path, file.file.toList]) := by
  intro file hfile
  rcases mailFile_of_mem_files hs htext hfile with heq | ⟨username, mail, secure, hreq, heq⟩
  · rw [heq]
    exact ⟨_, _, mailPath_of_no_slash app .verification huser⟩
  · rw [heq]
    exact ⟨_, _, mailPath_of_no_slash app .password (hform username mail secure hreq)⟩

/-- A name with a slash has its mail outside of `mails/` or shares the file with another name. -/
theorem shares_of_slash (app : Dir) (u : String) (hu : '/' ∈ u.toList) (kind : MailKind)
    (h : LiesIn (mails app) (mailPath app kind u)) : ∃ v ≠ u, mailPath app kind v = mailPath app kind u := by
  obtain ⟨back, front, hsplit, hback⟩ := List.eq_append_cons_of_mem (List.mem_reverse.mpr hu)
  -- what stands behind the last slash
  obtain ⟨v, hv⟩ : ∃ v : String, v.toList = back.reverse := ⟨String.ofList back.reverse, String.toList_ofList⟩
  have htext : u.toList = front.reverse ++ '/' :: v.toList := by
    rw [← List.reverse_reverse u.toList, hsplit, hv]
    simp
  have hslash : '/' ∉ v.toList := by
    rw [hv]
    simpa using hback
  have hfile := (liesIn_iff.mp h).2
  rw [basename_mailPath app kind htext hslash] at hfile
  refine ⟨v, ?_, ?_⟩
  · rintro rfl
    exact hslash hu
  · rw [mailPath_of_no_slash app kind hslash, hfile]
    rfl

end ExpressAuth.Proofs
