import ExpressAuth.Serial
import ExpressAuth.Proofs.Segments

/-!
# What a serial operation does

The writes, the session and the response of a whole request in terms of the store before it,
and the same for an `admin.py` invocation, as long as no user name is an array. Results about
serial runs use these equations and never go back to the segments.
-/

namespace ExpressAuth.Proofs

/-- The checks of `POST /login`. -/
def LoginAccepts (store : Store) (username password : JsVal) : Prop :=
  ∃ text ∈ username.add password, store.hget username.toText .password = some (sha256Base64 text) ∧
    store.hget username.toText .valid = some "True"

/-- The checks of `POST /reset_password`. -/
def ResetIssues (store : Store) (username mail : JsVal) : Prop :=
  JsVal.ofReply (store.hget username.toText .mail) = mail ∧ store.hget username.toText .valid = some "True"

/-- The text of a stored timestamp as a callback hashes it. -/
def timestampText (store : Store) (uid : String) : String := (JsVal.ofReply (store.hget uid .timestamp)).toText

/-- The checks of `GET /verify`. -/
def Verifies (store : Store) (uid token : String) : Prop :=
  token = sha256Hex (timestampText store uid) ∧ store.hget uid .valid = some "False"

/-- The checks of `GET /new_password`. -/
def LinkOpens (store : Store) (now : ℕ) (uid token : String) : Prop :=
  token = sha256Hex (timestampText store uid) ∧
    lessThan (Routes.ageOf now (JsVal.ofReply (store.hget uid .timestamp))) 1800 = true ∧
    store.hget uid .newPassword = some "True"

instance (store : Store) (username password : JsVal) : Decidable (LoginAccepts store username password) :=
  inferInstanceAs (Decidable (∃ text ∈ username.add password, _))

instance (store : Store) (username mail : JsVal) : Decidable (ResetIssues store username mail) :=
  inferInstanceAs (Decidable (_ ∧ _))

instance (store : Store) (uid token : String) : Decidable (Verifies store uid token) :=
  inferInstanceAs (Decidable (_ ∧ _))

instance (store : Store) (now : ℕ) (uid token : String) : Decidable (LinkOpens store now uid token) :=
  inferInstanceAs (Decidable (_ ∧ _ ∧ _))

/-- The writes of a request that hashes a password under a name. -/
def passwordWrite (user password : JsVal) : List (String × Field × String) :=
  match user.add password with
  | none => []
  | some text => [(user.toText, .password, sha256Base64 text)]

/-- The writes of a request, given its session and the store before it. -/
def writesOf (store : Store) (session : Session) (now : ℕ) : Request → List (String × Field × String)
  | .postUpdateMail mail _ =>
    [(session.user.toText, .timestamp, numberText (seconds now)), (session.user.toText, .valid, "False"),
      (session.user.toText, .mail, mail.toText)]
  | .postUpdatePassword password => passwordWrite session.user password
  | .postNewPassword password => passwordWrite session.user password
  | .postCreateUser username password mail =>
    if (username.add password).isSome ∧ Store.matching store username.toText = [] then
      passwordWrite username password ++ [(username.toText, .mail, mail.toText)]
    else []
  | .getVerify uid token => if Verifies store uid token then [(uid, .valid, "True")] else []
  | .postVerifyMail uid =>
    [(uid, .timestamp, numberText (seconds now)),
      (uid, .link, verifyUrl (.str uid) (sha256Hex (numberText (seconds now))))]
  | .postResetPassword username mail _ =>
    if ResetIssues store username mail then
      [(username.toText, .timestamp, numberText (seconds now)), (username.toText, .newPassword, "True")]
    else []
  | .getNewPassword uid token => if LinkOpens store now uid token then [(uid, .newPassword, "False")] else []
  | _ => []

def addFlash (session : Session) (type text : String) : Session :=
  { session with flash := session.flash ++ [(type, text)] }

/-- The session a request leaves. -/
def sessionOf (store : Store) (session : Session) (now : ℕ) : Request → Session
  | .getSecure url =>
    if url = "/secure" ∧ session.authenticated = false then session
    else { session with
      valid := JsVal.ofReply (store.hget session.user.toText .valid)
      mail := JsVal.ofReply (store.hget session.user.toText .mail)
      flash := [] }
  | .getLogin => { session with flash := [] }
  | .postLogin username password =>
    match username.add password with
    | none => session
    | some text =>
      if store.hget username.toText .password = some (sha256Base64 text) then
        if store.hget username.toText .valid = some "True" then
          { session with authenticated := true, user := username }
        else addFlash session "error" "Email nicht verifiziert"
      else addFlash session "error" "Username und Passwort sind nicht korrekt"
  | .postUpdateMail _ _ => addFlash { session with valid := .str "False" } "message" "Email aktualisiert"
  | .postUpdatePassword password =>
    if (session.user.add password).isSome then addFlash session "message" "Passwort aktualisiert" else session
  | .getLogout => { session with authenticated := false }
  | .getAdmin => { session with flash := [] }
  | .postCreateUser username password _ =>
    if (username.add password).isSome then
      if Store.matching store username.toText = [] then
        addFlash session "message" ("Nutzer " ++ username.toText ++ " angelegt")
      else addFlash session "error" ("Nutzer " ++ username.toText ++ " existiert bereits!")
    else session
  | .getVerify uid _ => { session with valid := JsVal.ofReply (store.hget uid .valid) }
  | .getResetPassword => { session with flash := [] }
  | .postResetPassword username mail _ =>
    if JsVal.ofReply (store.hget username.toText .mail) = mail then
      if store.hget username.toText .valid = some "True" then addFlash session "message" "Email versandt"
      else addFlash session "error" "Email nicht verifiziert"
    else addFlash session "error" "Email stimmt nicht mit Username überein"
  | .getNewPassword uid token =>
    let session := { session with valid := JsVal.ofReply (store.hget uid .valid) }
    if LinkOpens store now uid token then { session with user := .str uid, flash := [] } else session
  | .postNewPassword password =>
    if (session.user.add password).isSome then addFlash session "message" "Passwort aktualisiert" else session
  | .getRoot | .getWelcome | .postVerifyMail _ | .getVerifyMail _ => session

/-- The response to a request. -/
def responseOf (store : Store) (session : Session) (now : ℕ) : Request → Response
  | .getRoot => .redirect "/login"
  | .getWelcome => .render .welcome
  | .getSecure url =>
    if url = "/secure" ∧ session.authenticated = false then .render (.unauthorised 403)
    else .render (.secure session.flash session.user (JsVal.ofReply (store.hget session.user.toText .mail))
      (JsVal.ofReply (store.hget session.user.toText .valid)))
  | .getLogin => .render (.login session.flash)
  | .postLogin username password =>
    match username.add password with
    | none => .error
    | some text =>
      if store.hget username.toText .password = some (sha256Base64 text) then
        if store.hget username.toText .valid = some "True" then .redirect "/secure" else .redirect "/login"
      else .redirect "/login"
  | .postUpdateMail _ _ => .redirect "/secure"
  | .postUpdatePassword password => if (session.user.add password).isSome then .redirect "/secure" else .error
  | .getLogout => .redirect "/"
  | .getAdmin => .render (.admin session.flash)
  | .postCreateUser username password _ =>
    if (username.add password).isSome then .redirect "/admin" else .error
  | .getVerify uid token => .render (if Verifies store uid token then .success else .fail)
  | .postVerifyMail uid => .redirect ("/verify_mail/user=" ++ uid)
  | .getVerifyMail uid => .render (.mail (.str uid) (JsVal.ofReply (store.hget uid .link)))
  | .getResetPassword => .render (.reset session.flash)
  | .postResetPassword _ _ _ => .redirect "/reset_password"
  | .getNewPassword uid token =>
    .render (if LinkOpens store now uid token then .acceptPassword session.flash else .fail)
  | .postNewPassword password => if (session.user.add password).isSome then .redirect "/login" else .error

def verifyMailFile (user : JsVal) (secure : Bool) (token : String) : MailFile :=
  ⟨"../mails/" ++ user.toText ++ "_mail.html",
    "Bitte klicke <a href=" ++ (host secure ++ verifyUrl user token) ++ ">hier</a>, um deine Email zu verifizieren."⟩

def resetMailFile (user : JsVal) (token : String) : MailFile :=
  ⟨"../mails/" ++ user.toText ++ "_password.html",
    "Bitte klicke <a href=" ++ (host true ++ newPasswordUrl user token) ++ ">hier</a>, um ein neues Passwort zu setzen."⟩

/-- The token in a link made at a clock reading. -/
def tokenAt (now : ℕ) : String := sha256Hex (numberText (seconds now))

/-- The mail files a request writes. -/
def filesOf (store : Store) (session : Session) (now : ℕ) : Request → List MailFile
  | .postUpdateMail _ secure => [verifyMailFile session.user secure (tokenAt now)]
  | .postResetPassword username mail _ =>
    if ResetIssues store username mail then [resetMailFile username (tokenAt now)] else []
  | _ => []

/-- A request alone ends with these writes, this session, this response and these mail files,
and with no command left. -/
structure Served (s : Site) (sid : ℕ) (req : Request) (now : ℕ) : Prop where
  store : (s.serve sid req now).1 = s.store.writes (writesOf s.store (s.sessions sid) now req)
  session : (s.serve sid req now).2.session = sessionOf s.store (s.sessions sid) now req
  response : (s.serve sid req now).2.response = some (responseOf s.store (s.sessions sid) now req)
  files : (s.serve sid req now).2.files = filesOf s.store (s.sessions sid) now req
  issued : (s.serve sid req now).2.issued = []

lemma serve_eq (s : Site) (sid : ℕ) (req : Request) (h : ∀ url, req ≠ .getSecure url) (now : ℕ) :
    s.serve sid req now = settle 4 s.store (req.handler { now, vars := s.vars, session := s.sessions sid }) := by
  rw [Site.serve, Site.opening, begin_eq_handler req h]

lemma begin_getSecure (url : String) (c : Ctx) : (Request.getSecure url).begin c =
    if url = "/secure" ∧ c.session.authenticated = false then c.render (.unauthorised 403)
    else Routes.getSecure c :=
  checkAuth_eq _ _ c

section

-- the tables and the handlers, up to the segments of each request
attribute [local simp] Request.handler settle Callback.run writesOf sessionOf responseOf filesOf addFlash

lemma served_getSecure (s : Site) (sid : ℕ) (url : String) (now : ℕ) (hu : (s.sessions sid).user.isArray = false) :
    Served s sid (.getSecure url) now := by
  have hs : s.serve sid (.getSecure url) now = settle 4 s.store
      ((Request.getSecure url).begin { now, vars := s.vars, session := s.sessions sid }) := rfl
  rw [begin_getSecure] at hs
  by_cases hb : url = "/secure" ∧ (s.sessions sid).authenticated = false
  · constructor <;> rw [hs] <;> simp [hb]
  · constructor <;> rw [hs] <;> simp [hb, Routes.getSecure, Routes.secureMail, clientCall_hget hu]

lemma served_postLogin (s : Site) (sid : ℕ) (username password : JsVal) (now : ℕ) (hu : username.isArray = false) :
    Served s sid (.postLogin username password) now := by
  have hs := serve_eq s sid (.postLogin username password) (by simp) now
  cases ha : username.add password with
  | none =>
    constructor <;> rw [hs] <;> simp [Routes.postLogin, ha]
  | some text =>
    by_cases hp : s.store.hget username.toText .password = some (sha256Base64 text)
    · by_cases hv : s.store.hget username.toText .valid = some "True" <;> constructor <;> rw [hs] <;>
        simp [Routes.postLogin, ha, Routes.loginPassword, Routes.loginValid, hp, hv, clientCall_hget hu]
    · constructor <;> rw [hs] <;> simp [Routes.postLogin, ha, Routes.loginPassword, hp, clientCall_hget hu]

lemma served_postUpdateMail (s : Site) (sid : ℕ) (mail : JsVal) (secure : Bool) (now : ℕ)
    (hu : (s.sessions sid).user.isArray = false) : Served s sid (.postUpdateMail mail secure) now := by
  have hs := serve_eq s sid (.postUpdateMail mail secure) (by simp) now
  constructor <;> rw [hs] <;> simp [Routes.postUpdateMail, verifyMailFile, tokenAt, clientCall_hset hu]

lemma served_postUpdatePassword (s : Site) (sid : ℕ) (password : JsVal) (now : ℕ)
    (hu : (s.sessions sid).user.isArray = false) : Served s sid (.postUpdatePassword password) now := by
  have hs := serve_eq s sid (.postUpdatePassword password) (by simp) now
  cases ha : (s.sessions sid).user.add password <;> constructor <;> rw [hs] <;>
    simp [Routes.postUpdatePassword, ha, passwordWrite, clientCall_hset hu]

lemma served_postNewPassword (s : Site) (sid : ℕ) (password : JsVal) (now : ℕ)
    (hu : (s.sessions sid).user.isArray = false) : Served s sid (.postNewPassword password) now := by
  have hs := serve_eq s sid (.postNewPassword password) (by simp) now
  cases ha : (s.sessions sid).user.add password <;> constructor <;> rw [hs] <;>
    simp [Routes.postNewPassword, ha, passwordWrite, clientCall_hset hu]

lemma served_postCreateUser (s : Site) (sid : ℕ) (username password mail : JsVal) (now : ℕ)
    (hu : username.isArray = false) : Served s sid (.postCreateUser username password mail) now := by
  have hs := serve_eq s sid (.postCreateUser username password mail) (by simp) now
  cases ha : username.add password with
  | none =>
    constructor <;> rw [hs] <;> simp [Routes.postCreateUser, ha]
  | some text =>
    by_cases ho : Store.overruns s.store username.toText = true
    · have hk := Store.matching_of_overruns ho
      constructor <;> rw [hs] <;>
        simp [Routes.postCreateUser, Routes.createUserKeys, ha, ho, hk, passwordWrite, clientCall_keys hu,
          clientCall_hset hu]
    · cases hk : Store.matching s.store username.toText <;> constructor <;> rw [hs] <;>
        simp [Routes.postCreateUser, Routes.createUserKeys, ha, ho, hk, passwordWrite, clientCall_keys hu,
          clientCall_hset hu]

lemma verifies_iff {store : Store} {uid token : String} :
    (token = sha256Hex (JsVal.ofReply (store.hget uid .timestamp)).toText ∧
      store.hget uid .valid = some "False") ↔ Verifies store uid token := Iff.rfl

lemma linkOpens_iff {store : Store} {now : ℕ} {uid token : String} :
    (token = sha256Hex (JsVal.ofReply (store.hget uid .timestamp)).toText ∧
      lessThan (Routes.ageOf now (JsVal.ofReply (store.hget uid .timestamp))) 1800 = true ∧
      store.hget uid .newPassword = some "True") ↔ LinkOpens store now uid token := Iff.rfl

lemma served_getVerify (s : Site) (sid : ℕ) (uid token : String) (now : ℕ) :
    Served s sid (.getVerify uid token) now := by
  have hs := serve_eq s sid (.getVerify uid token) (by simp) now
  by_cases hv : Verifies s.store uid token <;> constructor <;> rw [hs] <;>
    simp [Routes.getVerify, Routes.verifyTimestamp, verifies_iff, hv]

lemma served_postResetPassword (s : Site) (sid : ℕ) (username mail : JsVal) (secure : Bool) (now : ℕ)
    (hu : username.isArray = false) : Served s sid (.postResetPassword username mail secure) now := by
  have hs := serve_eq s sid (.postResetPassword username mail secure) (by simp) now
  by_cases hm : JsVal.ofReply (s.store.hget username.toText .mail) = mail
  · by_cases hv : s.store.hget username.toText .valid = some "True" <;> constructor <;> rw [hs] <;>
      simp [Routes.postResetPassword, Routes.resetMail, Routes.resetValid, resetMailFile, tokenAt, ResetIssues, hm, hv,
        clientCall_hget hu, clientCall_hset hu]
  · constructor <;> rw [hs] <;>
      simp [Routes.postResetPassword, Routes.resetMail, ResetIssues, hm, clientCall_hget hu]

lemma served_getNewPassword (s : Site) (sid : ℕ) (uid token : String) (now : ℕ) :
    Served s sid (.getNewPassword uid token) now := by
  have hs := serve_eq s sid (.getNewPassword uid token) (by simp) now
  by_cases hv : LinkOpens s.store now uid token <;> constructor <;> rw [hs] <;>
    simp [Routes.getNewPassword, Routes.newPasswordFlag, linkOpens_iff, hv]

/-- Every request whose user name is not an array completes, with the effect the tables give. -/
theorem served {s : Site} (hs : s.Textual) (sid : ℕ) {req : Request} (hreq : req.textual = true) (now : ℕ) :
    Served s sid req now := by
  have hname : ∀ username : JsVal, (!username.isArray) = true → username.isArray = false := by simp
  cases req with
  | getSecure url => exact served_getSecure s sid url now (hs sid)
  | postLogin username password => exact served_postLogin s sid username password now (hname username hreq)
  | postUpdateMail mail secure => exact served_postUpdateMail s sid mail secure now (hs sid)
  | postUpdatePassword password => exact served_postUpdatePassword s sid password now (hs sid)
  | postCreateUser username password mail =>
    exact served_postCreateUser s sid username password mail now (hname username hreq)
  | getVerify uid token => exact served_getVerify s sid uid token now
  | postResetPassword username mail secure =>
    exact served_postResetPassword s sid username mail secure now (hname username hreq)
  | getNewPassword uid token => exact served_getNewPassword s sid uid token now
  | postNewPassword password => exact served_postNewPassword s sid password now (hs sid)
  | postVerifyMail uid | getVerifyMail uid =>
    constructor <;> rw [serve_eq s sid _ (by simp)] <;> simp [Routes.postVerifyMail, Routes.getVerifyMail]
  | _ =>
    constructor <;> rw [serve_eq s sid _ (by simp)] <;> simp [Routes.getLogout]

end

/-! ### Requests that succeed -/

/-- The login of a request is answered with the redirect to `/secure`. -/
def LogsIn (s : Site) (sid : ℕ) (username password : JsVal) (now : ℕ) : Prop :=
  s.response sid (.postLogin username password) now = some (.redirect "/secure")

/-- A `GET /verify` renders `success`. -/
def Confirms (s : Site) (sid : ℕ) (uid token : String) (now : ℕ) : Prop :=
  s.response sid (.getVerify uid token) now = some (.render .success)

/-- A `GET /new_password` renders `accept_password`. -/
def Opens (s : Site) (sid : ℕ) (uid token : String) (now : ℕ) : Prop :=
  ∃ flash, s.response sid (.getNewPassword uid token) now = some (.render (.acceptPassword flash))

lemma logsIn_iff {s : Site} {sid : ℕ} {username password : JsVal} {now : ℕ} (hu : username.isArray = false) :
    LogsIn s sid username password now ↔ LoginAccepts s.store username password := by
  unfold LogsIn Site.response
  rw [(served_postLogin s sid username password now hu).response, responseOf, LoginAccepts]
  cases ha : username.add password with
  | none => simp
  | some text =>
    by_cases hp : s.store.hget username.toText .password = some (sha256Base64 text) <;>
      by_cases hv : s.store.hget username.toText .valid = some "True" <;> simp [hp, hv]

lemma confirms_iff {s : Site} {sid : ℕ} {uid token : String} {now : ℕ} :
    Confirms s sid uid token now ↔ Verifies s.store uid token := by
  unfold Confirms Site.response
  rw [(served_getVerify s sid uid token now).response, responseOf]
  by_cases hv : Verifies s.store uid token <;> simp [hv]

lemma opens_iff {s : Site} {sid : ℕ} {uid token : String} {now : ℕ} :
    Opens s sid uid token now ↔ LinkOpens s.store now uid token := by
  unfold Opens Site.response
  rw [(served_getNewPassword s sid uid token now).response, responseOf]
  by_cases hv : LinkOpens s.store now uid token <;> simp [hv]

instance (s : Site) (sid : ℕ) (username password : JsVal) (now : ℕ) : Decidable (LogsIn s sid username password now) :=
  inferInstanceAs (Decidable (_ = _))

instance (s : Site) (sid : ℕ) (uid token : String) (now : ℕ) : Decidable (Confirms s sid uid token now) :=
  decidable_of_iff _ confirms_iff.symm

instance (s : Site) (sid : ℕ) (uid token : String) (now : ℕ) : Decidable (Opens s sid uid token now) :=
  decidable_of_iff _ opens_iff.symm

/-! ### Operations on a site -/

section

variable {s : Site} (hs : s.Textual) {req : Request} (hreq : req.textual = true)
include hs hreq

lemma step_web_store (sid now : ℕ) :
    (s.step (.web sid req now)).store = s.store.writes (writesOf s.store (s.sessions sid) now req) :=
  (served hs sid hreq now).store

lemma step_web_session (sid now : ℕ) :
    (s.step (.web sid req now)).sessions sid = sessionOf s.store (s.sessions sid) now req := by
  simp [Site.step, (served hs sid hreq now).session, (served hs sid hreq now).response]

end

lemma step_web_session_of_ne (s : Site) {sid sid' : ℕ} (h : sid' ≠ sid) (req : Request) (now : ℕ) :
    (s.step (.web sid req now)).sessions sid' = s.sessions sid' := by
  rw [Site.step]
  dsimp only
  split
  · exact Function.update_of_ne h _ _
  · rfl

lemma sessionOf_user_not_array {store : Store} {session : Session} {req : Request} (now : ℕ)
    (hs : session.user.isArray = false) (hreq : req.textual = true) :
    (sessionOf store session now req).user.isArray = false := by
  cases req with
  | postLogin username password =>
    have hu : username.isArray = false := by simpa [Request.textual] using hreq
    simp only [sessionOf]
    split
    · exact hs
    · split_ifs
      exacts [hu, hs, hs]
  | getNewPassword uid token =>
    simp only [sessionOf]
    split
    · rfl
    · exact hs
  | _ =>
    simp only [sessionOf]
    try split_ifs
    all_goals exact hs

/-- Without arrays for user names no session comes to belong to one. -/
lemma textual_step {s : Site} (hs : s.Textual) {op : Op} (hop : op.textual = true) : (s.step op).Textual := by
  cases op with
  | admin argv now => exact hs
  | web sid req now =>
    intro sid'
    by_cases h : sid' = sid
    · rw [h, step_web_session hs hop]
      exact sessionOf_user_not_array now (hs sid) hop
    · rw [step_web_session_of_ne s h]
      exact hs sid'

lemma textual_after {s : Site} (hs : s.Textual) {ops : List Op} (hops : ∀ op ∈ ops, op.textual = true) :
    (Runs.after Site.step s ops).Textual := by
  induction ops generalizing s with
  | nil => exact hs
  | cons op ops ih =>
    exact ih (textual_step hs (hops op List.mem_cons_self)) (fun op' hop' => hops op' (List.mem_cons_of_mem op hop'))

lemma textual_site {ops : List Op} (hops : ∀ op ∈ ops, op.textual = true) : (site ops).Textual :=
  textual_after (fun _ => rfl) hops

/-- The option `main` takes its first argument for. -/
def optionOf (opt : String) : String :=
  if opt = "-h" then "-h"
  else if AdminTool.isIn opt "-c" then "-c"
  else if AdminTool.isIn opt "-p" then "-p"
  else if AdminTool.isIn opt "-m" then "-m"
  else if AdminTool.isIn opt "-l" then "-l"
  else if AdminTool.isIn opt "-d" then "-d"
  else "-h"

/-- The writes of an invocation. -/
def adminWrites (store : Store) (now : ℕ) : List String → List (String × Field × String)
  | [opt, username, password, mail] =>
    if optionOf opt = "-c" ∧ Store.lacks store username = true then
      [(username, .password, AdminTool.sha256Base64 (username ++ password)), (username, .mail, mail),
        (username, .timestamp, AdminTool.floatText (AdminTool.thousands now)), (username, .valid, "False")]
    else []
  | [opt, username, value] =>
    if optionOf opt = "-p" ∧ Store.matching store username ≠ [] then
      [(username, .password, AdminTool.sha256Base64 (username ++ value))]
    else if optionOf opt = "-m" ∧ Store.matching store username ≠ [] then
      [(username, .mail, value), (username, .timestamp, AdminTool.floatText (AdminTool.thousands now)),
        (username, .valid, "False")]
    else []
  | _ => []

/-- The key an invocation deletes. -/
def adminDeletes : List String → Option String
  | opt :: username :: _ => if optionOf opt = "-d" then some username else none
  | _ => none

/-- The store an invocation leaves. -/
def adminStore (store : Store) (now : ℕ) (argv : List String) : Store :=
  match adminDeletes argv with
  | some username => store.del username
  | none => store.writes (adminWrites store now argv)

/-- `main` reads its first argument through the tests of `optionOf` only. -/
lemma main_cons {opt option : String} (h : optionOf opt = option) (args : List String) :
    AdminTool.main (opt :: args) = AdminTool.main (option :: args) := by
  subst h
  unfold optionOf
  split_ifs with hh hc hp hm hl hd
  · rw [hh]
  · simp only [AdminTool.main, if_neg hh, if_pos hc]
    rfl
  · simp only [AdminTool.main, if_neg hh, if_neg hc, if_pos hp]
    rfl
  · simp only [AdminTool.main, if_neg hh, if_neg hc, if_neg hp, if_pos hm]
    rfl
  · simp only [AdminTool.main, if_neg hh, if_neg hc, if_neg hp, if_neg hm, if_pos hl]
    rfl
  · simp only [AdminTool.main, if_neg hh, if_neg hc, if_neg hp, if_neg hm, if_neg hl, if_pos hd]
    rfl
  · simp only [AdminTool.main, if_neg hh, if_neg hc, if_neg hp, if_neg hm, if_neg hl, if_neg hd]
    rfl

lemma optionOf_cases (opt : String) :
    optionOf opt = "-h" ∨ optionOf opt = "-c" ∨ optionOf opt = "-p" ∨ optionOf opt = "-m" ∨ optionOf opt = "-l" ∨
      optionOf opt = "-d" := by
  unfold optionOf
  split_ifs <;> simp

/-- A line is printed or an exception is raised. -/
def isMessage : AdminTool.Action → Bool
  | .print _ | .raise _ => true
  | _ => false

/-- The actions of an invocation once `KEYS` has answered. -/
inductive AdminActs (store : Store) : List String → List AdminTool.Action → Prop
  | create {opt username password mail} (ho : optionOf opt = "-c") (hk : Store.lacks store username = true) :
      AdminActs store [opt, username, password, mail]
        [.run (.hset username .password (AdminTool.sha256Base64 (username ++ password))),
          .run (.hset username .mail mail), .createMail username mail,
          .print ("Nutzer " ++ username ++ " angelegt.")]
  | password {opt username password} (ho : optionOf opt = "-p") (hk : Store.matching store username ≠ []) :
      AdminActs store [opt, username, password]
        [.run (.hset username .password (AdminTool.sha256Base64 (username ++ password))),
          .print ("Passwort für " ++ username ++ " aktualisiert.")]
  | mail {opt username mail} (ho : optionOf opt = "-m") (hk : Store.matching store username ≠ []) :
      AdminActs store [opt, username, mail]
        [.run (.hset username .mail mail), .createMail username mail,
          .print ("Email für " ++ username ++ " aktualisiert.")]
  | delete {opt username rest} (ho : optionOf opt = "-d") :
      AdminActs store (opt :: username :: rest)
        [.run (.del username), .print ("Nutzer " ++ username ++ " gelöscht.")]
  | list {opt args} (ho : optionOf opt = "-l") (names : List String) :
      AdminActs store (opt :: args) (names.map .showRecord)
  | message {argv action} (ha : isMessage action = true) (hw : ∀ now, adminWrites store now argv = [])
      (hd : adminDeletes argv = none) : AdminActs store argv [action]

/-- `KEYS` names no key, names some or has no answer. -/
lemma adminActs_afterKeys {store : Store} {argv : List String} {username : String} {found missing : List AdminTool.Action}
    (hmissing : Store.lacks store username = true → AdminActs store argv missing)
    (hfound : Store.lacks store username = false → Store.matching store username ≠ [] → AdminActs store argv found)
    (hlost : Store.lacks store username = false → Store.matching store username = [] →
      AdminActs store argv [.raise "ConnectionError"]) :
    AdminActs store argv (AdminTool.afterKeys store username found missing) := by
  unfold AdminTool.afterKeys
  split_ifs with ho hk
  · exact hlost (by simp [Store.lacks, ho]) (Store.matching_of_overruns ho)
  · exact hmissing (by simp [Store.lacks, ho, hk])
  · exact hfound (by simp [Store.lacks, hk]) hk

section

attribute [local simp] adminWrites adminDeletes

lemma adminActs_create (store : Store) {opt : String} (ho : optionOf opt = "-c") (args : List String) :
    AdminActs store (opt :: args) ((AdminTool.main ("-c" :: args)).actions store) := by
  rcases args with _ | ⟨username, _ | ⟨password, _ | ⟨mail, _ | ⟨extra, rest⟩⟩⟩⟩
  case cons.cons.cons.nil =>
    refine adminActs_afterKeys (.create ho) (fun hk _ => ?_) (fun hk _ => ?_) <;>
      exact .message rfl (by simp [hk]) (by simp [ho])
  all_goals exact .message rfl (by simp [ho]) (by simp [ho])

lemma adminActs_password (store : Store) {opt : String} (ho : optionOf opt = "-p") (args : List String) :
    AdminActs store (opt :: args) ((AdminTool.main ("-p" :: args)).actions store) := by
  rcases args with _ | ⟨username, _ | ⟨password, _ | ⟨mail, _ | ⟨extra, rest⟩⟩⟩⟩
  case cons.cons.nil =>
    refine adminActs_afterKeys (fun hk => ?_) (fun _ => .password ho) (fun _ hk => ?_)
    · exact .message rfl (by simp [Store.matching_of_lacks hk]) (by simp [ho])
    · exact .message rfl (by simp [hk]) (by simp [ho])
  all_goals exact .message rfl (by simp [ho]) (by simp [ho])

lemma adminActs_mail (store : Store) {opt : String} (ho : optionOf opt = "-m") (args : List String) :
    AdminActs store (opt :: args) ((AdminTool.main ("-m" :: args)).actions store) := by
  rcases args with _ | ⟨username, _ | ⟨mail, _ | ⟨extra, _ | ⟨extra', rest⟩⟩⟩⟩
  case cons.cons.nil =>
    refine adminActs_afterKeys (fun hk => ?_) (fun _ => .mail ho) (fun _ hk => ?_)
    · exact .message rfl (by simp [Store.matching_of_lacks hk]) (by simp [ho])
    · exact .message rfl (by simp [hk]) (by simp [ho])
  all_goals exact .message rfl (by simp [ho]) (by simp [ho])

lemma adminWrites_of_other {store : Store} {opt : String} (args : List String)
    (h : optionOf opt = "-h" ∨ optionOf opt = "-l" ∨ optionOf opt = "-d") (now : ℕ) :
    adminWrites store now (opt :: args) = [] := by
  rcases args with _ | ⟨a, _ | ⟨b, _ | ⟨c, _ | ⟨d, rest⟩⟩⟩⟩ <;> rcases h with h | h | h <;> simp [h]

/-- Every invocation acts in one of these ways. -/
theorem adminActs (store : Store) (argv : List String) : AdminActs store argv ((AdminTool.main argv).actions store) := by
  rcases argv with _ | ⟨opt, args⟩
  · exact .message rfl (fun _ => rfl) rfl
  rcases optionOf_cases opt with ho | ho | ho | ho | ho | ho <;> rw [main_cons ho]
  · refine .message rfl (adminWrites_of_other args (Or.inl ho)) ?_
    rcases args with _ | ⟨a, rest⟩ <;> simp [ho]
  · exact adminActs_create store ho args
  · exact adminActs_password store ho args
  · exact adminActs_mail store ho args
  · exact .list ho _
  · rcases args with _ | ⟨username, rest⟩
    · exact .message rfl (fun _ => rfl) rfl
    · exact .delete ho

lemma foldl_showRecord (store : Store) (now : ℕ) (names : List String) :
    (names.map AdminTool.Action.showRecord).foldl (AdminTool.Action.apply now) store = store := by
  induction names with
  | nil => rfl
  | cons name names ih => exact ih

/-- A whole `admin.py` invocation has the effect the table gives. -/
theorem invoke_eq (store : Store) (now : ℕ) (argv : List String) :
    AdminTool.invoke store now argv = adminStore store now argv := by
  unfold AdminTool.invoke adminStore
  have hacts := adminActs store argv
  generalize (AdminTool.main argv).actions store = actions at hacts
  cases hacts with
  | create ho hk =>
    simp [ho, hk, AdminTool.Action.apply, AdminTool.Action.perform, AdminTool.createMail]
  | password ho hk => simp [ho, hk, AdminTool.Action.apply, AdminTool.Action.perform]
  | mail ho hk =>
    simp [ho, hk, AdminTool.Action.apply, AdminTool.Action.perform, AdminTool.createMail]
  | delete ho => simp [ho, AdminTool.Action.apply, AdminTool.Action.perform]
  | @list opt args ho names =>
    have hd : adminDeletes (opt :: args) = none := by rcases args with _ | ⟨a, rest⟩ <;> simp [ho]
    rw [hd, adminWrites_of_other args (Or.inr (Or.inl ho))]
    exact foldl_showRecord store now names
  | @message _ action ha hw hd =>
    rw [hd, hw now]
    cases action with
    | print | raise => rfl
    | _ => cases ha

end

lemma step_admin_store (s : Site) (argv : List String) (now : ℕ) :
    (s.step (.admin argv now)).store = adminStore s.store now argv :=
  invoke_eq s.store now argv

lemma sessionOf_login_accepted {store : Store} {username password : JsVal}
    (h : LoginAccepts store username password) (session : Session) (now : ℕ) :
    sessionOf store session now (.postLogin username password) =
      { session with authenticated := true, user := username } := by
  obtain ⟨text, ht, hp, hv⟩ := h
  have ha : username.add password = some text := ht
  simp [sessionOf, ha, hp, hv]

lemma sessionOf_login_rejected {store : Store} {username password : JsVal}
    (h : ¬LoginAccepts store username password) (session : Session) (now : ℕ) :
    (sessionOf store session now (.postLogin username password)).user = session.user ∧
      (sessionOf store session now (.postLogin username password)).authenticated = session.authenticated := by
  cases ha : username.add password with
  | none => simp [sessionOf, ha]
  | some text =>
    by_cases hp : store.hget username.toText .password = some (sha256Base64 text)
    · have hv : store.hget username.toText .valid ≠ some "True" := fun hv => h ⟨text, ha, hp, hv⟩
      simp [sessionOf, ha, hp, hv, addFlash]
    · simp [sessionOf, ha, hp, addFlash]

/-- A run that registers `alice` on the command line and confirms the address. -/
def aliceRegistered : List Op :=
  [.admin ["-c", "alice", "secret", "alice@example.org"] 1700000000000,
    .web 0 (.getVerify "alice" (sha256Hex "1700000.0")) 1700000060000]

end ExpressAuth.Proofs
