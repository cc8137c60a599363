import ExpressAuth.JavaScript
import ExpressAuth.Redis
import Mathlib.Tactic.Simps.Basic

/-!
# The handlers of `routes.js` and the guard of `app.js`

A handler is cut at its Redis callbacks into synchronous segments. A segment reads the clock,
the undeclared variables and the request's copy of its session, and leaves the commands it
issued (each with its callback), the response it sent and the mail files it wrote. What a
callback closes over is an argument of its constructor; what it reads from an undeclared
variable is read from `Vars` when it runs. A user name that is an array reaches the Redis client
as the whole argument list of the command.
-/

namespace ExpressAuth

/-- The variables `routes.js` assigns without declaring them. -/
structure Vars where
  user : JsVal := .undefined
  token : JsVal := .undefined
  timestamp : Option ℕ := none
  timestampHash : String := ""
  url : String := ""
  timeDiff : JsNum := .nan
  newPassword : JsVal := .undefined
  deriving DecidableEq

/-- A flash message: its type and its text. -/
abbrev Flash := String × String

/-- `req.session`; `authenticated` is `false` when the property is missing. -/
structure Session where
  authenticated : Bool := false
  user : JsVal := .undefined
  valid : JsVal := .undefined
  mail : JsVal := .undefined
  flash : List Flash := []
  deriving DecidableEq, Repr

inductive Page where
  | welcome
  | secure (flash : List Flash) (user mail valid : JsVal)
  | login (flash : List Flash)
  | admin (flash : List Flash)
  | success
  | fail
  | mail (user link : JsVal)
  | reset (flash : List Flash)
  | acceptPassword (flash : List Flash)
  | unauthorised (status : ℕ)
  deriving DecidableEq, Repr

inductive Response where
  | redirect (target : String)
  | render (page : Page)
  /-- The framework's answer when a handler throws. -/
  | error
  deriving DecidableEq, Repr

/-- A call of `fs.writeFile`; `file` is the second argument of `path.join(__dirname, ·)`. -/
structure MailFile where
  file : String
  text : String
  deriving DecidableEq, Repr

/-- A request as the router dispatches it, with its parameters and form fields. -/
inductive Request where
  | getRoot
  | getWelcome
  | getSecure (url : String)
  | getLogin
  | postLogin (username password : JsVal)
  | postUpdateMail (mail : JsVal) (secure : Bool)
  | postUpdatePassword (password : JsVal)
  | getLogout
  | getAdmin
  | postCreateUser (username password mail : JsVal)
  | getVerify (uid token : String)
  | postVerifyMail (uid : String)
  | getVerifyMail (uid : String)
  | getResetPassword
  | postResetPassword (username mail : JsVal) (secure : Bool)
  | getNewPassword (uid token : String)
  | postNewPassword (password : JsVal)
  deriving DecidableEq, Repr

/-- The user name of the form is not an array. -/
def Request.textual : Request → Bool
  | .postLogin username _ | .postCreateUser username _ _ | .postResetPassword username _ _ => !username.isArray
  | _ => true

/-- The callbacks of the Redis commands, each with the local variables it closes over. -/
inductive Callback where
  | ignore
  /-- The command was issued without a callback. -/
  | missing
  | secureValid
  | secureMail
  | loginPassword (username : JsVal) (generatedHash : String)
  | loginValid (username : JsVal)
  | updateMailDone
  | updatePasswordDone
  | createUserKeys (username mail : JsVal) (generatedHash : String)
  | verifyValid
  | verifyTimestamp
  | verifyMailLink (user : JsVal)
  | resetMail (mail : JsVal) (secure : Bool)
  | resetValid (secure : Bool)
  | newPasswordValid
  | newPasswordTimestamp
  | newPasswordFlag (timestamp : JsVal)
  | newPasswordDone
  deriving DecidableEq, Repr

/-- What one synchronous segment sees and what it has done so far. -/
structure Ctx where
  now : ℕ
  vars : Vars
  session : Session
  issued : List (Cmd × Callback) := []
  response : Option Response := none
  files : List MailFile := []
  /-- An exception outside of a handler's first segment ended the process. -/
  crashed : Bool := false

/-- The items of an array as arguments of a command. -/
def itemArgs (items : List (Option String)) : List String := items.map (·.getD "null")

/-- A command method of the client on its arguments before the callback. An array in the first
place is the argument list, and the callback then counts only in the second place. -/
def clientCall (name : CmdName) (key : JsVal) (rest : List String) (callback : Callback) : Cmd × Callback :=
  match key with
  | .array items => (.ofArgs name (itemArgs items), if rest = [] then callback else .missing)
  | _ => (.ofArgs name (key.toText :: rest), callback)

section clientCall

variable {key : JsVal} (h : key.isArray = false) (callback : Callback)
include h

lemma clientCall_of_not_array (name : CmdName) (rest : List String) :
    clientCall name key rest callback = (.ofArgs name (key.toText :: rest), callback) := by
  cases key <;> first | rfl | simp [JsVal.isArray] at h

lemma clientCall_hget (f : Field) : clientCall .hget key [f.name] callback = (.hget key.toText f, callback) := by
  rw [clientCall_of_not_array h, Cmd.ofArgs_hget]

lemma clientCall_hset (f : Field) (v : String) :
    clientCall .hset key [f.name, v] callback = (.hset key.toText f v, callback) := by
  rw [clientCall_of_not_array h, Cmd.ofArgs_hset]

lemma clientCall_keys : clientCall .keys key [] callback = (.keys key.toText, callback) := by
  rw [clientCall_of_not_array h, Cmd.ofArgs_keys]

end clientCall

@[simp] lemma clientCall_hget_str (s : String) (f : Field) (callback : Callback) :
    clientCall .hget (.str s) [f.name] callback = (.hget s f, callback) :=
  clientCall_hget rfl callback f

@[simp] lemma clientCall_hset_str (s : String) (f : Field) (v : String) (callback : Callback) :
    clientCall .hset (.str s) [f.name, v] callback = (.hset s f v, callback) :=
  clientCall_hset rfl callback f v

@[simp] lemma clientCall_keys_str (s : String) (callback : Callback) :
    clientCall .keys (.str s) [] callback = (.keys s, callback) :=
  clientCall_keys rfl callback

namespace Ctx

@[simps now vars session issued response files crashed]
def hget (c : Ctx) (key : JsVal) (field : Field) (callback : Callback) : Ctx :=
  { c with issued := c.issued ++ [clientCall .hget key [field.name] callback] }

@[simps now vars session issued response files crashed]
def hset (c : Ctx) (key : JsVal) (field : Field) (value : String) (callback : Callback) : Ctx :=
  { c with issued := c.issued ++ [clientCall .hset key [field.name, value] callback] }

@[simps now vars session issued response files crashed]
def keys (c : Ctx) (pattern : JsVal) (callback : Callback) : Ctx :=
  { c with issued := c.issued ++ [clientCall .keys pattern [] callback] }

@[simps now vars session issued response files crashed]
def redirect (c : Ctx) (target : String) : Ctx := { c with response := some (.redirect target) }

@[simps now vars session issued response files crashed]
def render (c : Ctx) (page : Page) : Ctx := { c with response := some (.render page) }

/-- `req.flash(type, text)`. -/
@[simps now vars session issued response files crashed]
def flash (c : Ctx) (type text : String) : Ctx :=
  { c with session := { c.session with flash := c.session.flash ++ [(type, text)] } }

/-- `res.render` of a page that shows `req.flash()`, which empties it. -/
@[simps now vars session issued response files crashed]
def renderFlash (c : Ctx) (page : List Flash → Page) : Ctx :=
  { c with session := { c.session with flash := [] }, response := some (.render (page c.session.flash)) }

@[simps now vars session issued response files crashed]
def writeFile (c : Ctx) (file text : String) : Ctx := { c with files := c.files ++ [⟨file, text⟩] }

/-- An exception in a handler's first segment; the framework answers. -/
@[simps now vars session issued response files crashed]
def throws (c : Ctx) : Ctx := { c with response := some .error }

/-- An exception in a callback, which nothing catches. -/
@[simps now vars session issued response files crashed]
def crash (c : Ctx) : Ctx := { c with crashed := true }

end Ctx

def host (secure : Bool) : String :=
  if secure then "https://diana-yavuz.informatik.haw-hamburg.de"
  else "http://diana-yavuz.informatik.haw-hamburg.de"

def verifyUrl (user : JsVal) (timestampHash : String) : String :=
  "/verify/user=" ++ user.toText ++ "&token=" ++ timestampHash

def newPasswordUrl (user : JsVal) (timestampHash : String) : String :=
  "/new_password/user=" ++ user.toText ++ "&token=" ++ timestampHash

/-! ### First segments -/

namespace Routes

def getSecure (c : Ctx) : Ctx :=
  (c.hget c.session.user .valid .secureValid).hget c.session.user .mail .secureMail

def postLogin (username password : JsVal) (c : Ctx) : Ctx :=
  match username.add password with
  | none => c.throws
  | some text => c.hget username .password (.loginPassword username (sha256Base64 text))

def postUpdateMail (mail : JsVal) (secure : Bool) (c : Ctx) : Ctx :=
  let user := c.session.user
  let timestamp := seconds c.now
  let timestampHash := sha256Hex (numberText timestamp)
  let url := verifyUrl user timestampHash
  let c := { c with vars := { c.vars with user, timestamp := some timestamp, timestampHash, url } }
  let c := c.hset user .timestamp (numberText timestamp) .ignore
  let fullUrl := host secure ++ url
  let text := "Bitte klicke <a href=" ++ fullUrl ++ ">hier</a>, um deine Email zu verifizieren."
  let c := c.writeFile ("../mails/" ++ user.toText ++ "_mail.html") text
  let c := c.hset user .valid "False" .ignore
  let c := { c with session := { c.session with valid := .str "False" } }
  c.hset user .mail mail.toText .updateMailDone

def postUpdatePassword (password : JsVal) (c : Ctx) : Ctx :=
  match c.session.user.add password with
  | none => c.throws
  | some text => c.hset c.session.user .password (sha256Base64 text) .updatePasswordDone

def getLogout (c : Ctx) : Ctx :=
  { c with session := { c.session with authenticated := false } }.redirect "/"

def postCreateUser (username password mail : JsVal) (c : Ctx) : Ctx :=
  match username.add password with
  | none => c.throws
  | some text => c.keys username (.createUserKeys username mail (sha256Base64 text))

def getVerify (uid token : String) (c : Ctx) : Ctx :=
  let c := { c with vars := { c.vars with user := .str uid, token := .str token } }
  (c.hget c.vars.user .valid .verifyValid).hget c.vars.user .timestamp .verifyTimestamp

def postVerifyMail (uid : String) (c : Ctx) : Ctx :=
  let user := JsVal.str uid
  let timestamp := seconds c.now
  let timestampHash := sha256Hex (numberText timestamp)
  let url := verifyUrl user timestampHash
  let c := { c with vars := { c.vars with user, timestamp := some timestamp, timestampHash, url } }
  let c := c.hset user .timestamp (numberText timestamp) .ignore
  let c := c.hset user .link url .ignore
  c.redirect ("/verify_mail/user=" ++ uid)

def getVerifyMail (uid : String) (c : Ctx) : Ctx :=
  c.hget (.str uid) .link (.verifyMailLink (.str uid))

def postResetPassword (username mail : JsVal) (secure : Bool) (c : Ctx) : Ctx :=
  let c := { c with vars := { c.vars with user := username } }
  c.hget c.vars.user .mail (.resetMail mail secure)

def getNewPassword (uid token : String) (c : Ctx) : Ctx :=
  let c := { c with vars := { c.vars with user := .str uid, token := .str token } }
  (c.hget c.vars.user .valid .newPasswordValid).hget c.vars.user .timestamp .newPasswordTimestamp

def postNewPassword (password : JsVal) (c : Ctx) : Ctx :=
  match c.session.user.add password with
  | none => c.throws
  | some text => c.hset c.session.user .password (sha256Base64 text) .newPasswordDone

end Routes

/-- The handler a request is dispatched to, up to its first callback. -/
def Request.handler : Request → Ctx → Ctx
  | .getRoot, c => c.redirect "/login"
  | .getWelcome, c => c.render .welcome
  | .getSecure _, c => Routes.getSecure c
  | .getLogin, c => c.renderFlash .login
  | .postLogin username password, c => Routes.postLogin username password c
  | .postUpdateMail mail secure, c => Routes.postUpdateMail mail secure c
  | .postUpdatePassword password, c => Routes.postUpdatePassword password c
  | .getLogout, c => Routes.getLogout c
  | .getAdmin, c => c.renderFlash .admin
  | .postCreateUser username password mail, c => Routes.postCreateUser username password mail c
  | .getVerify uid token, c => Routes.getVerify uid token c
  | .postVerifyMail uid, c => Routes.postVerifyMail uid c
  | .getVerifyMail uid, c => Routes.getVerifyMail uid c
  | .getResetPassword, c => c.renderFlash .reset
  | .postResetPassword username mail secure, c => Routes.postResetPassword username mail secure c
  | .getNewPassword uid token, c => Routes.getNewPassword uid token c
  | .postNewPassword password, c => Routes.postNewPassword password c

/-- `req.url`. Only for `/secure` does its spelling matter: the guard compares the raw URL
with that path, and no other route's URL equals it. -/
def Request.url : Request → String
  | .getSecure url => url
  | .getRoot => "/"
  | .getWelcome => "/welcome"
  | .getLogin | .postLogin _ _ => "/login"
  | .postUpdateMail _ _ => "/update_mail"
  | .postUpdatePassword _ => "/update_password"
  | .getLogout => "/logout"
  | .getAdmin => "/admin"
  | .postCreateUser _ _ _ => "/create_user"
  | .getVerify uid token => "/verify/user=" ++ uid ++ "&token=" ++ token
  | .postVerifyMail uid | .getVerifyMail uid => "/verify_mail/user=" ++ uid
  | .getResetPassword | .postResetPassword _ _ _ => "/reset_password"
  | .getNewPassword uid token => "/new_password/user=" ++ uid ++ "&token=" ++ token
  | .postNewPassword _ => "/new_password"

/-- `!req.session || !req.session.authenticated`, for a request whose session may be missing. -/
def unauthenticated (session : Option Session) : Bool := session.all (fun s => !s.authenticated)

/-- `checkAuth`: the guard in front of the router, for a request whose session may be missing. -/
def checkAuthOf (url : String) (session : Option Session) (next : Ctx → Ctx) (c : Ctx) : Ctx :=
  if url = "/secure" ∧ unauthenticated session then c.render (.unauthorised 403) else next c

/-- `checkAuth` for a request with a session. -/
def checkAuth (url : String) (next : Ctx → Ctx) (c : Ctx) : Ctx := checkAuthOf url (some c.session) next c

lemma checkAuth_eq (url : String) (next : Ctx → Ctx) (c : Ctx) :
    checkAuth url next c =
      if url = "/secure" ∧ c.session.authenticated = false then c.render (.unauthorised 403) else next c := by
  simp [checkAuth, checkAuthOf, unauthenticated]

/-- The handler of `GET /secure` reads a property of `req.session`, which throws without a session. -/
def getSecureOf (session : Option Session) (c : Ctx) : Ctx :=
  match session with
  | none => c.throws
  | some session => Routes.getSecure { c with session }

/-- The first segment of a request: the guard and then its handler. -/
def Request.begin (req : Request) : Ctx → Ctx := checkAuth req.url req.handler

/-! ### Callback segments -/

namespace Routes

def secureMail (obj : JsVal) (c : Ctx) : Ctx :=
  let c := { c with session := { c.session with mail := obj } }
  c.renderFlash (fun flash => .secure flash c.session.user c.session.mail c.session.valid)

def loginPassword (username : JsVal) (generatedHash : String) (obj : JsVal) (c : Ctx) : Ctx :=
  if .str generatedHash = obj then c.hget username .valid (.loginValid username)
  else (c.flash "error" "Username und Passwort sind nicht korrekt").redirect "/login"

def loginValid (username obj : JsVal) (c : Ctx) : Ctx :=
  if obj = .str "True" then
    { c with session := { c.session with authenticated := true, user := username } }.redirect "/secure"
  else (c.flash "error" "Email nicht verifiziert").redirect "/login"

def createUserKeys (username mail : JsVal) (generatedHash : String) (reply : Reply) (c : Ctx) : Ctx :=
  match reply with
  | .names (_ :: _) =>
    (c.redirect "/admin").flash "error" ("Nutzer " ++ username.toText ++ " existiert bereits!")
  | _ =>
    let c := c.hset username .password generatedHash .ignore
    let c := c.hset username .mail mail.toText .ignore
    (c.redirect "/admin").flash "message" ("Nutzer " ++ username.toText ++ " angelegt")

/-- `Math.floor(Date.now() / 1000) - timestamp`. -/
def ageOf (now : ℕ) (timestamp : JsVal) : JsNum := subtractFrom (seconds now) timestamp.toNumber

def verifyTimestamp (timestamp : JsVal) (c : Ctx) : Ctx :=
  let timestampHash := sha256Hex timestamp.toText
  let c := { c with vars := { c.vars with timestampHash, timeDiff := ageOf c.now timestamp } }
  if c.vars.token = .str c.vars.timestampHash ∧ c.session.valid = .str "False" then
    (c.hset c.vars.user .valid "True" .ignore).render .success
  else c.render .fail

def resetMail (mail : JsVal) (secure : Bool) (obj : JsVal) (c : Ctx) : Ctx :=
  if obj = mail then c.hget c.vars.user .valid (.resetValid secure)
  else (c.redirect "/reset_password").flash "error" "Email stimmt nicht mit Username überein"

def resetValid (secure : Bool) (obj : JsVal) (c : Ctx) : Ctx :=
  if obj = .str "True" then
    let timestamp := seconds c.now
    let timestampHash := sha256Hex (numberText timestamp)
    let url := newPasswordUrl c.vars.user timestampHash
    let c := { c with vars := { c.vars with timestamp := some timestamp, timestampHash, url } }
    let c := c.hset c.vars.user .timestamp (numberText timestamp) .ignore
    let c := c.hset c.vars.user .newPassword "True" .ignore
    let fullUrl := (if secure then host true else host true) ++ url
    let text := "Bitte klicke <a href=" ++ fullUrl ++ ">hier</a>, um ein neues Passwort zu setzen."
    let c := c.writeFile ("../mails/" ++ c.vars.user.toText ++ "_password.html") text
    (c.redirect "/reset_password").flash "message" "Email versandt"
  else (c.redirect "/reset_password").flash "error" "Email nicht verifiziert"

def newPasswordFlag (timestamp obj : JsVal) (c : Ctx) : Ctx :=
  let timestampHash := sha256Hex timestamp.toText
  let timeDiff := ageOf c.now timestamp
  let c := { c with vars := { c.vars with newPassword := obj, timestampHash, timeDiff } }
  if c.vars.token = .str c.vars.timestampHash ∧ lessThan c.vars.timeDiff 1800 ∧
      c.vars.newPassword = .str "True" then
    let c := c.hset c.vars.user .newPassword "False" .ignore
    let c := { c with session := { c.session with user := c.vars.user } }
    c.renderFlash .acceptPassword
  else c.render .fail

end Routes

/-- The object a callback receives for a reply; an error leaves it undefined. -/
@[simp]
def Reply.obj : Reply → JsVal
  | .bulk v => JsVal.ofReply v
  | _ => .undefined

/-- The segment a callback runs on its reply. -/
def Callback.run : Callback → Reply → Ctx → Ctx
  | .ignore, _, c => c
  -- The client emits an error nobody waits for as an event, and nothing listens to that.
  | .missing, .error _, c => c.crash
  | .missing, _, c => c
  | .secureValid, r, c => { c with session := { c.session with valid := r.obj } }
  | .secureMail, r, c => Routes.secureMail r.obj c
  | .loginPassword username generatedHash, r, c => Routes.loginPassword username generatedHash r.obj c
  | .loginValid username, r, c => Routes.loginValid username r.obj c
  | .updateMailDone, _, c => (c.redirect "/secure").flash "message" "Email aktualisiert"
  | .updatePasswordDone, _, c => (c.redirect "/secure").flash "message" "Passwort aktualisiert"
  | .createUserKeys username mail generatedHash, r, c => Routes.createUserKeys username mail generatedHash r c
  | .verifyValid, r, c => { c with session := { c.session with valid := r.obj } }
  | .verifyTimestamp, r, c => Routes.verifyTimestamp r.obj c
  | .verifyMailLink user, r, c => c.render (.mail user r.obj)
  | .resetMail mail secure, r, c => Routes.resetMail mail secure r.obj c
  | .resetValid secure, r, c => Routes.resetValid secure r.obj c
  | .newPasswordValid, r, c => { c with session := { c.session with valid := r.obj } }
  | .newPasswordTimestamp, r, c => c.hget c.vars.user .newPassword (.newPasswordFlag r.obj)
  | .newPasswordFlag timestamp, r, c => Routes.newPasswordFlag timestamp r.obj c
  | .newPasswordDone, _, c => (c.redirect "/login").flash "message" "Passwort aktualisiert"

end ExpressAuth
