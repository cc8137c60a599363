import ExpressAuth.Routes

/-!
# What a segment reads and what it leaves

Facts about single segments that hold for every request and every callback: which undeclared
variables they depend on, and that they only append to what was issued before.
-/

namespace ExpressAuth.Proofs

/-- What a segment leaves apart from the undeclared variables. -/
def outputs (c : Ctx) : Session × List (Cmd × Callback) × Option Response × List MailFile × Bool :=
  (c.session, c.issued, c.response, c.files, c.crashed)

lemma append_ne_secure {first : String} (h : first.toList.take 2 ≠ "/secure".toList.take 2)
    (hlen : 2 ≤ first.toList.length) (rest : String) : first ++ rest ≠ "/secure" := by
  intro hs
  have hl := congrArg (fun s => s.toList.take 2) hs
  rw [String.toList_append, List.take_append_of_le_length hlen] at hl
  exact h hl

/-- The URL of a route other than `/secure` passes the guard. -/
lemma url_ne_secure (req : Request) (h : ∀ url, req ≠ .getSecure url) : req.url ≠ "/secure" := by
  have hverify : ∀ rest, "/verify/user=" ++ rest ≠ "/secure" := append_ne_secure (by decide) (by decide)
  have hnew : ∀ rest, "/new_password/user=" ++ rest ≠ "/secure" := append_ne_secure (by decide) (by decide)
  have hmail : ∀ rest, "/verify_mail/user=" ++ rest ≠ "/secure" := append_ne_secure (by decide) (by decide)
  cases req with
  | getSecure url => exact absurd rfl (h url)
  | getVerify uid token =>
    change "/verify/user=" ++ uid ++ "&token=" ++ token ≠ "/secure"
    rw [String.append_assoc, String.append_assoc]
    exact hverify _
  | getNewPassword uid token =>
    change "/new_password/user=" ++ uid ++ "&token=" ++ token ≠ "/secure"
    rw [String.append_assoc, String.append_assoc]
    exact hnew _
  | postVerifyMail uid | getVerifyMail uid => exact hmail uid
  | _ => exact of_decide_eq_true rfl

lemma begin_eq_handler (req : Request) (h : ∀ url, req ≠ .getSecure url) : req.begin = req.handler := by
  funext c
  simp only [Request.begin, checkAuth_eq, url_ne_secure req h, false_and, ite_false]

/-- The callbacks that read `user` after a hop. -/
def readsUser : Callback → Bool
  | .verifyTimestamp | .resetMail _ _ | .resetValid _ | .newPasswordTimestamp | .newPasswordFlag _ => true
  | _ => false

/-- The callbacks that read `token` after a hop. -/
def readsToken : Callback → Bool
  | .verifyTimestamp | .newPasswordFlag _ => true
  | _ => false

/-- A first segment assigns every undeclared variable before it reads it. -/
lemma begin_outputs (req : Request) (c : Ctx) (v : Vars) :
    outputs (req.begin { c with vars := v }) = outputs (req.begin c) := by
  simp only [Request.begin, checkAuth_eq]
  split
  · rfl
  · cases req <;> try rfl
    all_goals
      simp only [Request.handler, Routes.postLogin, Routes.postUpdatePassword, Routes.postCreateUser,
        Routes.postNewPassword]
      split <;> rfl

/-- A callback depends on `user` and `token` only where it reads them. -/
lemma run_outputs (callback : Callback) (r : Reply) (c : Ctx) (v : Vars)
    (hu : readsUser callback = true → v.user = c.vars.user)
    (ht : readsToken callback = true → v.token = c.vars.token) :
    outputs (callback.run r { c with vars := v }) = outputs (callback.run r c) := by
  cases callback with
  | missing => cases r <;> rfl
  | loginPassword username generatedHash =>
    simp only [Callback.run, Routes.loginPassword]
    split <;> rfl
  | loginValid username =>
    simp only [Callback.run, Routes.loginValid]
    split <;> rfl
  | createUserKeys username mail generatedHash =>
    simp only [Callback.run, Routes.createUserKeys]
    split <;> rfl
  | verifyTimestamp =>
    simp only [Callback.run, Routes.verifyTimestamp, hu rfl, ht rfl]
    split <;> simp [outputs]
  | resetMail mail secure =>
    simp only [Callback.run, Routes.resetMail, hu rfl]
    split <;> simp [outputs]
  | resetValid secure =>
    simp only [Callback.run, Routes.resetValid, hu rfl]
    split <;> simp [outputs]
  | newPasswordTimestamp => simp [Callback.run, outputs, hu rfl]
  | newPasswordFlag timestamp =>
    simp only [Callback.run, Routes.newPasswordFlag, hu rfl, ht rfl]
    split <;> simp [outputs]
  | _ => rfl

/-- No callback assigns `user` or `token`. -/
lemma run_keeps_user_token (callback : Callback) (r : Reply) (c : Ctx) :
    (callback.run r c).vars.user = c.vars.user ∧ (callback.run r c).vars.token = c.vars.token := by
  cases callback with
  | missing => cases r <;> exact ⟨rfl, rfl⟩
  | loginPassword username generatedHash =>
    simp only [Callback.run, Routes.loginPassword]
    split <;> simp
  | loginValid username =>
    simp only [Callback.run, Routes.loginValid]
    split <;> simp
  | createUserKeys username mail generatedHash =>
    simp only [Callback.run, Routes.createUserKeys]
    split <;> simp
  | verifyTimestamp =>
    simp only [Callback.run, Routes.verifyTimestamp]
    split <;> simp
  | resetMail mail secure =>
    simp only [Callback.run, Routes.resetMail]
    split <;> simp
  | resetValid secure =>
    simp only [Callback.run, Routes.resetValid]
    split <;> simp
  | newPasswordFlag timestamp =>
    simp only [Callback.run, Routes.newPasswordFlag]
    split <;> simp
  | _ => simp [Callback.run, Routes.secureMail]

/-- A command on a user name goes to that user's hash, or the name is an array and stands for the
arguments of a command without a callback. -/
lemma clientCall_cases (name : CmdName) (key : JsVal) (field : String) (rest : List String) (callback : Callback) :
    (key.isArray = false ∧
      clientCall name key (field :: rest) callback = (.ofArgs name (key.toText :: field :: rest), callback)) ∨
    ∃ items, key = .array items ∧
      clientCall name key (field :: rest) callback = (.ofArgs name (itemArgs items), .missing) := by
  cases key with
  | array items => exact Or.inr ⟨items, rfl, rfl⟩
  | _ => exact Or.inl ⟨rfl, rfl⟩

lemma clientCall_snd (name : CmdName) (key : JsVal) (rest : List String) (callback : Callback) :
    (clientCall name key rest callback).2 = callback ∨ (clientCall name key rest callback).2 = .missing := by
  cases key with
  | array items =>
    simp only [clientCall]
    split
    exacts [Or.inl rfl, Or.inr rfl]
  | _ => exact Or.inl rfl

/-- The command of a first segment that takes a user name from the session or the form. -/
def openingCall (c : Ctx) : Request → Option (CmdName × JsVal)
  | .getSecure _ => some (.hget, c.session.user)
  | .postLogin username _ => some (.hget, username)
  | .postUpdateMail _ _ | .postUpdatePassword _ | .postNewPassword _ => some (.hset, c.session.user)
  | .postResetPassword username _ _ => some (.hget, username)
  | _ => none

/-- The commands a first segment in context `c` can issue, each with its callback. -/
inductive Opening (c : Ctx) : Request → Cmd → Callback → Prop
  | secureValid {url} (hu : c.session.user.isArray = false) :
      Opening c (.getSecure url) (.hget c.session.user.toText .valid) .secureValid
  | secureMail {url} (hu : c.session.user.isArray = false) :
      Opening c (.getSecure url) (.hget c.session.user.toText .mail) .secureMail
  | login {username password text} (h : username.add password = some text) (hu : username.isArray = false) :
      Opening c (.postLogin username password) (.hget username.toText .password)
        (.loginPassword username (sha256Base64 text))
  | updateMailTimestamp {mail secure} (hu : c.session.user.isArray = false) :
      Opening c (.postUpdateMail mail secure)
        (.hset c.session.user.toText .timestamp (numberText (seconds c.now))) .ignore
  | updateMailValid {mail secure} (hu : c.session.user.isArray = false) :
      Opening c (.postUpdateMail mail secure) (.hset c.session.user.toText .valid "False") .ignore
  | updateMailMail {mail secure} (hu : c.session.user.isArray = false) :
      Opening c (.postUpdateMail mail secure) (.hset c.session.user.toText .mail mail.toText) .updateMailDone
  | updatePassword {password text} (h : c.session.user.add password = some text)
      (hu : c.session.user.isArray = false) :
      Opening c (.postUpdatePassword password) (.hset c.session.user.toText .password (sha256Base64 text))
        .updatePasswordDone
  | createUser {username password mail text} (h : username.add password = some text)
      (hu : username.isArray = false) :
      Opening c (.postCreateUser username password mail) (.keys username.toText)
        (.createUserKeys username mail (sha256Base64 text))
  | createUserArray {items password mail text cmd} (h : (JsVal.array items).add password = some text)
      (hcmd : cmd = .ofArgs .keys (itemArgs items)) :
      Opening c (.postCreateUser (.array items) password mail) cmd
        (.createUserKeys (.array items) mail (sha256Base64 text))
  | verifyValid {uid token} : Opening c (.getVerify uid token) (.hget uid .valid) .verifyValid
  | verifyTimestamp {uid token} : Opening c (.getVerify uid token) (.hget uid .timestamp) .verifyTimestamp
  | verifyMailTimestamp {uid} :
      Opening c (.postVerifyMail uid) (.hset uid .timestamp (numberText (seconds c.now))) .ignore
  | verifyMailLink {uid} :
      Opening c (.postVerifyMail uid)
        (.hset uid .link (verifyUrl (.str uid) (sha256Hex (numberText (seconds c.now))))) .ignore
  | mailLink {uid} : Opening c (.getVerifyMail uid) (.hget uid .link) (.verifyMailLink (.str uid))
  | resetMail {username mail secure} (hu : username.isArray = false) :
      Opening c (.postResetPassword username mail secure) (.hget username.toText .mail) (.resetMail mail secure)
  | newPasswordValid {uid token} : Opening c (.getNewPassword uid token) (.hget uid .valid) .newPasswordValid
  | newPasswordTimestamp {uid token} :
      Opening c (.getNewPassword uid token) (.hget uid .timestamp) .newPasswordTimestamp
  | newPassword {password text} (h : c.session.user.add password = some text) (hu : c.session.user.isArray = false) :
      Opening c (.postNewPassword password) (.hset c.session.user.toText .password (sha256Base64 text))
        .newPasswordDone
  | array {req name items cmd} (h : openingCall c req = some (name, .array items))
      (hcmd : cmd = .ofArgs name (itemArgs items)) : Opening c req cmd .missing

section openingCall

variable {c : Ctx} {req : Request} {key : JsVal} {callback : Callback}

/-- A call with one field: the command on the user's hash, or an array as the argument list. -/
lemma Opening.of_hget {f : Field} (h : openingCall c req = some (.hget, key))
    (hplain : key.isArray = false → Opening c req (.hget key.toText f) callback) :
    Opening c req (clientCall .hget key [f.name] callback).1 (clientCall .hget key [f.name] callback).2 := by
  rcases clientCall_cases .hget key f.name [] callback with ⟨hu, -⟩ | ⟨items, rfl, hcall⟩
  · rw [clientCall_hget hu]
    exact hplain hu
  · rw [hcall]
    exact .array h rfl

lemma Opening.of_hset {f : Field} {v : String} (h : openingCall c req = some (.hset, key))
    (hplain : key.isArray = false → Opening c req (.hset key.toText f v) callback) :
    Opening c req (clientCall .hset key [f.name, v] callback).1 (clientCall .hset key [f.name, v] callback).2 := by
  rcases clientCall_cases .hset key f.name [v] callback with ⟨hu, -⟩ | ⟨items, rfl, hcall⟩
  · rw [clientCall_hset hu]
    exact hplain hu
  · rw [hcall]
    exact .array h rfl

end openingCall

lemma begin_issued (req : Request) (c : Ctx) (hc : c.issued = []) :
    ∀ p ∈ (req.begin c).issued, Opening c req p.1 p.2 := by
  intro p hp
  rw [Request.begin, checkAuth_eq] at hp
  split at hp
  · simp [hc] at hp
  · cases req with
    | postLogin username password =>
      simp only [Request.handler, Routes.postLogin] at hp
      split at hp <;> simp [hc] at hp
      exact hp ▸ .of_hget rfl (.login ‹_›)
    | postUpdatePassword password =>
      simp only [Request.handler, Routes.postUpdatePassword] at hp
      split at hp <;> simp [hc] at hp
      exact hp ▸ .of_hset rfl (.updatePassword ‹_›)
    | postNewPassword password =>
      simp only [Request.handler, Routes.postNewPassword] at hp
      split at hp <;> simp [hc] at hp
      exact hp ▸ .of_hset rfl (.newPassword ‹_›)
    | postCreateUser username password mail =>
      simp only [Request.handler, Routes.postCreateUser] at hp
      split at hp <;> simp [hc] at hp
      next htext =>
      subst hp
      cases username with
      | array items => exact .createUserArray htext rfl
      | _ => exact .createUser htext rfl
    | getSecure url =>
      simp [Request.handler, Routes.getSecure, hc] at hp
      rcases hp with rfl | rfl
      exacts [.of_hget rfl .secureValid, .of_hget rfl .secureMail]
    | postUpdateMail mail secure =>
      simp [Request.handler, Routes.postUpdateMail, hc] at hp
      rcases hp with rfl | rfl | rfl
      exacts [.of_hset rfl .updateMailTimestamp, .of_hset rfl .updateMailValid, .of_hset rfl .updateMailMail]
    | getVerify uid token =>
      simp [Request.handler, Routes.getVerify, hc] at hp
      rcases hp with rfl | rfl
      exacts [.verifyValid, .verifyTimestamp]
    | postVerifyMail uid =>
      simp [Request.handler, Routes.postVerifyMail, hc] at hp
      rcases hp with rfl | rfl
      exacts [.verifyMailTimestamp, .verifyMailLink]
    | getVerifyMail uid =>
      simp [Request.handler, Routes.getVerifyMail, hc] at hp
      exact hp ▸ .mailLink
    | postResetPassword username mail secure =>
      simp [Request.handler, Routes.postResetPassword, hc] at hp
      exact hp ▸ .of_hget rfl .resetMail
    | getNewPassword uid token =>
      simp [Request.handler, Routes.getNewPassword, hc] at hp
      rcases hp with rfl | rfl
      exacts [.newPasswordValid, .newPasswordTimestamp]
    | _ => simp [Request.handler, Routes.getLogout, hc] at hp

/-- The decision of `GET /verify` in context `c` on a timestamp reply. -/
def VerifyAccepts (c : Ctx) (timestamp : JsVal) : Prop :=
  c.vars.token = .str (sha256Hex timestamp.toText) ∧ c.session.valid = .str "False"

/-- The decision of `GET /new_password` in context `c` on a timestamp and a flag. -/
def LinkAccepts (c : Ctx) (timestamp flag : JsVal) : Prop :=
  c.vars.token = .str (sha256Hex timestamp.toText) ∧ lessThan (Routes.ageOf c.now timestamp) 1800 = true ∧
    flag = .str "True"

/-- The command of a callback that takes a user name from its closure or from `user`. -/
def followUpCall (user : JsVal) : Callback → Option (CmdName × JsVal)
  | .loginPassword username _ => some (.hget, username)
  | .createUserKeys username _ _ => some (.hset, username)
  | .resetMail _ _ | .newPasswordTimestamp => some (.hget, user)
  | .verifyTimestamp | .resetValid _ | .newPasswordFlag _ => some (.hset, user)
  | _ => none

lemma followUpCall_of_readsUser {callback : Callback} (h : readsUser callback = true) (user : JsVal) :
    ∃ name, followUpCall user callback = some (name, user) := by
  cases callback <;> simp [readsUser] at h <;> exact ⟨_, rfl⟩

lemma followUpCall_of_not_readsUser {callback : Callback} (h : readsUser callback = false) (user user' : JsVal) :
    followUpCall user callback = followUpCall user' callback := by
  cases callback <;> simp [readsUser] at h <;> rfl

/-- The commands a callback in context `c` can issue on its reply, each with its callback. -/
inductive FollowUp (c : Ctx) (r : Reply) : Callback → Cmd → Callback → Prop
  | login {username generatedHash} (h : .str generatedHash = r.obj) (hu : username.isArray = false) :
      FollowUp c r (.loginPassword username generatedHash) (.hget username.toText .valid) (.loginValid username)
  | createPassword {username mail generatedHash} (h : ∀ k ks, r ≠ .names (k :: ks)) (hu : username.isArray = false) :
      FollowUp c r (.createUserKeys username mail generatedHash)
        (.hset username.toText .password generatedHash) .ignore
  | createMail {username mail generatedHash} (h : ∀ k ks, r ≠ .names (k :: ks)) (hu : username.isArray = false) :
      FollowUp c r (.createUserKeys username mail generatedHash) (.hset username.toText .mail mail.toText) .ignore
  | verify (h : VerifyAccepts c r.obj) (hu : c.vars.user.isArray = false) :
      FollowUp c r .verifyTimestamp (.hset c.vars.user.toText .valid "True") .ignore
  | resetMail {mail secure} (h : r.obj = mail) (hu : c.vars.user.isArray = false) :
      FollowUp c r (.resetMail mail secure) (.hget c.vars.user.toText .valid) (.resetValid secure)
  | resetTimestamp {secure} (h : r.obj = .str "True") (hu : c.vars.user.isArray = false) :
      FollowUp c r (.resetValid secure)
        (.hset c.vars.user.toText .timestamp (numberText (seconds c.now))) .ignore
  | resetFlag {secure} (h : r.obj = .str "True") (hu : c.vars.user.isArray = false) :
      FollowUp c r (.resetValid secure) (.hset c.vars.user.toText .newPassword "True") .ignore
  | newPasswordTimestamp (hu : c.vars.user.isArray = false) :
      FollowUp c r .newPasswordTimestamp (.hget c.vars.user.toText .newPassword) (.newPasswordFlag r.obj)
  | newPasswordFlag {timestamp} (h : LinkAccepts c timestamp r.obj) (hu : c.vars.user.isArray = false) :
      FollowUp c r (.newPasswordFlag timestamp) (.hset c.vars.user.toText .newPassword "False") .ignore
  | array {callback name items cmd} (h : followUpCall c.vars.user callback = some (name, .array items))
      (hcmd : cmd = .ofArgs name (itemArgs items)) : FollowUp c r callback cmd .missing

section followUpCall

variable {c : Ctx} {r : Reply} {key : JsVal} {callback callback' : Callback}

lemma FollowUp.of_hget {f : Field} (h : followUpCall c.vars.user callback = some (.hget, key))
    (hplain : key.isArray = false → FollowUp c r callback (.hget key.toText f) callback') :
    FollowUp c r callback (clientCall .hget key [f.name] callback').1 (clientCall .hget key [f.name] callback').2 := by
  rcases clientCall_cases .hget key f.name [] callback' with ⟨hu, -⟩ | ⟨items, rfl, hcall⟩
  · rw [clientCall_hget hu]
    exact hplain hu
  · rw [hcall]
    exact .array h rfl

lemma FollowUp.of_hset {f : Field} {v : String} (h : followUpCall c.vars.user callback = some (.hset, key))
    (hplain : key.isArray = false → FollowUp c r callback (.hset key.toText f v) callback') :
    FollowUp c r callback (clientCall .hset key [f.name, v] callback').1
      (clientCall .hset key [f.name, v] callback').2 := by
  rcases clientCall_cases .hset key f.name [v] callback' with ⟨hu, -⟩ | ⟨items, rfl, hcall⟩
  · rw [clientCall_hset hu]
    exact hplain hu
  · rw [hcall]
    exact .array h rfl

end followUpCall

lemma run_issued (callback : Callback) (r : Reply) (c : Ctx) (hc : c.issued = []) :
    ∀ p ∈ (callback.run r c).issued, FollowUp c r callback p.1 p.2 := by
  intro p hp
  cases callback with
  | missing =>
    cases r with
    | error message => simp [Callback.run, hc] at hp
    | _ => simp [Callback.run, hc] at hp
  | loginPassword username generatedHash =>
    simp only [Callback.run, Routes.loginPassword] at hp
    split at hp <;> simp [hc] at hp
    exact hp ▸ .of_hget rfl (.login ‹_›)
  | createUserKeys username mail generatedHash =>
    simp only [Callback.run, Routes.createUserKeys] at hp
    split at hp <;> simp [hc] at hp
    next hnames =>
    rcases hp with rfl | rfl
    · exact .of_hset rfl (.createPassword (fun k ks h => hnames k ks h))
    · exact .of_hset rfl (.createMail (fun k ks h => hnames k ks h))
  | verifyTimestamp =>
    simp only [Callback.run, Routes.verifyTimestamp] at hp
    split at hp <;> simp [hc] at hp
    exact hp ▸ .of_hset rfl (.verify ‹_›)
  | resetMail mail secure =>
    simp only [Callback.run, Routes.resetMail] at hp
    split at hp <;> simp [hc] at hp
    exact hp ▸ .of_hget rfl (.resetMail ‹_›)
  | resetValid secure =>
    simp only [Callback.run, Routes.resetValid] at hp
    split at hp <;> simp [hc] at hp
    rcases hp with rfl | rfl
    exacts [.of_hset rfl (.resetTimestamp ‹_›), .of_hset rfl (.resetFlag ‹_›)]
  | newPasswordTimestamp =>
    simp [Callback.run, hc] at hp
    exact hp ▸ .of_hget rfl .newPasswordTimestamp
  | newPasswordFlag timestamp =>
    simp only [Callback.run, Routes.newPasswordFlag] at hp
    split at hp <;> simp [hc] at hp
    exact hp ▸ .of_hset rfl (.newPasswordFlag ‹_›)
  | loginValid username =>
    simp only [Callback.run, Routes.loginValid] at hp
    split at hp <;> simp [hc] at hp
  | _ => simp [Callback.run, Routes.secureMail, hc] at hp

/-! ### The three callbacks that decide -/

lemma verifyTimestamp_spec (timestamp : JsVal) (c : Ctx) :
    (Routes.verifyTimestamp timestamp c).files = c.files ∧
    ((VerifyAccepts c timestamp ∧
        (Routes.verifyTimestamp timestamp c).issued =
          c.issued ++ [clientCall .hset c.vars.user [Field.valid.name, "True"] .ignore] ∧
        (Routes.verifyTimestamp timestamp c).response = some (.render .success)) ∨
      ((Routes.verifyTimestamp timestamp c).issued = c.issued ∧
        (Routes.verifyTimestamp timestamp c).response = some (.render .fail))) := by
  unfold Routes.verifyTimestamp
  dsimp only
  split
  · exact ⟨rfl, Or.inl ⟨‹_›, rfl, rfl⟩⟩
  · exact ⟨rfl, Or.inr ⟨rfl, rfl⟩⟩

lemma resetValid_spec (secure : Bool) (obj : JsVal) (c : Ctx) :
    (∃ target, (Routes.resetValid secure obj c).response = some (.redirect target)) ∧
    ((obj = .str "True" ∧
        (Routes.resetValid secure obj c).issued = c.issued ++
          [clientCall .hset c.vars.user [Field.timestamp.name, numberText (seconds c.now)] .ignore,
            clientCall .hset c.vars.user [Field.newPassword.name, "True"] .ignore] ∧
        ∃ text, (Routes.resetValid secure obj c).files =
          c.files ++ [⟨"../mails/" ++ c.vars.user.toText ++ "_password.html", text⟩]) ∨
      ((Routes.resetValid secure obj c).issued = c.issued ∧
        (Routes.resetValid secure obj c).files = c.files)) := by
  unfold Routes.resetValid
  dsimp only
  split
  · exact ⟨⟨_, rfl⟩, Or.inl ⟨‹_›, by simp, _, rfl⟩⟩
  · exact ⟨⟨_, rfl⟩, Or.inr ⟨rfl, rfl⟩⟩

lemma newPasswordFlag_spec (timestamp obj : JsVal) (c : Ctx) :
    (Routes.newPasswordFlag timestamp obj c).files = c.files ∧
    ((LinkAccepts c timestamp obj ∧
        (Routes.newPasswordFlag timestamp obj c).issued =
          c.issued ++ [clientCall .hset c.vars.user [Field.newPassword.name, "False"] .ignore] ∧
        ∃ flash, (Routes.newPasswordFlag timestamp obj c).response =
          some (.render (.acceptPassword flash))) ∨
      ((Routes.newPasswordFlag timestamp obj c).issued = c.issued ∧
        (Routes.newPasswordFlag timestamp obj c).response = some (.render .fail))) := by
  unfold Routes.newPasswordFlag
  dsimp only
  split
  · exact ⟨rfl, Or.inl ⟨‹_›, rfl, _, rfl⟩⟩
  · exact ⟨rfl, Or.inr ⟨rfl, rfl⟩⟩

/-! ### Sessions and responses -/

lemma begin_user (req : Request) (c : Ctx) : (req.begin c).session.user = c.session.user := by
  rw [Request.begin, checkAuth_eq]
  split
  · rfl
  · cases req <;> try rfl
    all_goals
      simp only [Request.handler, Routes.postLogin, Routes.postUpdatePassword, Routes.postCreateUser,
        Routes.postNewPassword]
      split <;> rfl

lemma begin_authenticated (req : Request) (c : Ctx) (h : (req.begin c).session.authenticated = true) :
    c.session.authenticated = true := by
  rw [Request.begin, checkAuth_eq] at h
  split at h
  · exact h
  · cases req <;> try exact h
    case getLogout => simp [Request.handler, Routes.getLogout] at h
    all_goals
      simp only [Request.handler, Routes.postLogin, Routes.postUpdatePassword, Routes.postCreateUser,
        Routes.postNewPassword] at h
      split at h <;> exact h

/-- A callback changes `session.user` only on a successful login or an accepted reset link. -/
lemma run_user (callback : Callback) (r : Reply) (c : Ctx) :
    (callback.run r c).session.user = c.session.user ∨
    (∃ username, callback = .loginValid username ∧ r.obj = .str "True" ∧
      (callback.run r c).session.user = username) ∨
    (∃ timestamp, callback = .newPasswordFlag timestamp ∧ LinkAccepts c timestamp r.obj ∧
      (callback.run r c).session.user = c.vars.user) := by
  cases callback with
  | missing => cases r <;> exact Or.inl rfl
  | loginValid username =>
    simp only [Callback.run, Routes.loginValid]
    split
    · exact Or.inr (Or.inl ⟨username, rfl, ‹_›, rfl⟩)
    · exact Or.inl rfl
  | newPasswordFlag timestamp =>
    simp only [Callback.run, Routes.newPasswordFlag]
    split
    · exact Or.inr (Or.inr ⟨timestamp, rfl, ‹_›, rfl⟩)
    · exact Or.inl rfl
  | loginPassword username generatedHash =>
    simp only [Callback.run, Routes.loginPassword]
    split <;> exact Or.inl rfl
  | createUserKeys username mail generatedHash =>
    simp only [Callback.run, Routes.createUserKeys]
    split <;> exact Or.inl rfl
  | verifyTimestamp =>
    simp only [Callback.run, Routes.verifyTimestamp]
    split <;> exact Or.inl rfl
  | resetMail mail secure =>
    simp only [Callback.run, Routes.resetMail]
    split <;> exact Or.inl rfl
  | resetValid secure =>
    simp only [Callback.run, Routes.resetValid]
    split <;> exact Or.inl rfl
  | _ => exact Or.inl rfl

/-- A callback sets `session.authenticated` only on a successful login. -/
lemma run_authenticated (callback : Callback) (r : Reply) (c : Ctx)
    (h : (callback.run r c).session.authenticated = true) :
    c.session.authenticated = true ∨ ∃ username, callback = .loginValid username ∧ r.obj = .str "True" := by
  cases callback with
  | missing => cases r <;> exact Or.inl h
  | loginValid username =>
    simp only [Callback.run, Routes.loginValid] at h
    split at h
    · exact Or.inr ⟨username, rfl, ‹_›⟩
    · exact Or.inl h
  | loginPassword username generatedHash =>
    simp only [Callback.run, Routes.loginPassword] at h
    split at h <;> exact Or.inl h
  | createUserKeys username mail generatedHash =>
    simp only [Callback.run, Routes.createUserKeys] at h
    split at h <;> exact Or.inl h
  | verifyTimestamp =>
    simp only [Callback.run, Routes.verifyTimestamp] at h
    split at h <;> exact Or.inl h
  | resetMail mail secure =>
    simp only [Callback.run, Routes.resetMail] at h
    split at h <;> exact Or.inl h
  | resetValid secure =>
    simp only [Callback.run, Routes.resetValid] at h
    split at h <;> exact Or.inl h
  | newPasswordFlag timestamp =>
    simp only [Callback.run, Routes.newPasswordFlag] at h
    split at h <;> exact Or.inl h
  | _ => exact Or.inl h

/-- The pages that report an accepted link. -/
def acceptsLink : Response → Bool
  | .render .success => true
  | .render (.acceptPassword _) => true
  | _ => false

lemma begin_accepts (req : Request) (c : Ctx) (hc : c.response = none) :
    ∀ response ∈ (req.begin c).response, acceptsLink response = false := by
  intro response h
  rw [Request.begin, checkAuth_eq] at h
  split at h
  · simp at h
    exact h ▸ rfl
  · cases req <;> simp only [Request.handler, Routes.getSecure, Routes.postLogin, Routes.postUpdateMail,
      Routes.postUpdatePassword, Routes.getLogout, Routes.postCreateUser, Routes.getVerify,
      Routes.postVerifyMail, Routes.getVerifyMail, Routes.postResetPassword, Routes.getNewPassword,
      Routes.postNewPassword] at h
    all_goals try split at h
    all_goals simp [hc] at h
    all_goals exact h ▸ rfl

/-- A callback that reports an accepted link has accepted it. -/
lemma run_accepts (callback : Callback) (r : Reply) (c : Ctx) (hc : c.response = none)
    {response : Response} (h : (callback.run r c).response = some response) (ha : acceptsLink response = true) :
    (callback = .verifyTimestamp ∧ VerifyAccepts c r.obj ∧ response = .render .success) ∨
    (∃ timestamp flash, callback = .newPasswordFlag timestamp ∧ LinkAccepts c timestamp r.obj ∧
      response = .render (.acceptPassword flash) ∧ (callback.run r c).session.user = c.vars.user) := by
  cases callback with
  | missing =>
    cases r <;> simp [Callback.run, hc] at h
  | verifyTimestamp =>
    simp only [Callback.run, Routes.verifyTimestamp] at h
    split at h <;> simp at h
    · exact Or.inl ⟨rfl, ‹_›, h.symm⟩
    · simp [← h, acceptsLink] at ha
  | newPasswordFlag timestamp =>
    simp only [Callback.run, Routes.newPasswordFlag] at h ⊢
    split at h <;> simp at h
    · rename_i haccept
      refine Or.inr ⟨timestamp, _, rfl, haccept, h.symm, ?_⟩
      rw [if_pos haccept]
      rfl
    · simp [← h, acceptsLink] at ha
  | _ =>
    simp only [Callback.run, Routes.secureMail, Routes.loginPassword, Routes.loginValid, Routes.createUserKeys,
      Routes.resetMail, Routes.resetValid] at h
    try split at h
    all_goals simp [hc] at h
    all_goals simp [← h, acceptsLink] at ha

end ExpressAuth.Proofs
