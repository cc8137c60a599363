import ExpressAuth.Routes
import ExpressAuth.Library.LazyPattern

/-!
# From a URL to a handler

The router takes the path of the URL and tries the routes in the order they are registered. A
route is a regular expression that ignores case, with `([^/]+?)` for a parameter and `/?` at its
end; what a parameter captured is percent-decoded.
-/

namespace ExpressAuth

/-! ### `decodeURIComponent` -/

def hexValue (c : Char) : Option ℕ :=
  if '0' ≤ c ∧ c ≤ '9' then some (c.toNat - 48)
  else if 'a' ≤ c ∧ c ≤ 'f' then some (c.toNat - 87)
  else if 'A' ≤ c ∧ c ≤ 'F' then some (c.toNat - 55)
  else none

/-- One escape `%XX` and what follows it. -/
def escapedByte : List Char → Option (ℕ × List Char)
  | '%' :: a :: b :: rest =>
    match hexValue a, hexValue b with
    | some x, some y => some (16 * x + y, rest)
    | _, _ => none
  | _ => none

/-- The value of a character whose leading bits are `value`, with `n` escapes `10xxxxxx` to go. -/
def continuation : ℕ → ℕ → List Char → Option (ℕ × List Char)
  | 0, value, text => some (value, text)
  | n + 1, value, text =>
    match escapedByte text with
    | some (b, rest) => if b / 64 = 2 then continuation n (64 * value + b % 64) rest else none
    | none => none

/-- A character of `n + 1` escapes; one that fits into fewer, and a surrogate, is malformed. -/
def longChar (n value least : ℕ) (text : List Char) : Option (Char × List Char) :=
  match continuation n value text with
  | some (v, rest) => if least ≤ v ∧ v.isValidChar then some (Char.ofNat v, rest) else none
  | none => none

def escapedChar (text : List Char) : Option (Char × List Char) :=
  match escapedByte text with
  | some (b, rest) =>
    if b < 0x80 then some (Char.ofNat b, rest)
    else if b < 0xc0 then none
    else if b < 0xe0 then longChar 1 (b % 32) 0x80 rest
    else if b < 0xf0 then longChar 2 (b % 16) 0x800 rest
    else if b < 0xf8 then longChar 3 (b % 8) 0x10000 rest
    else none
  | none => none

/-- One character of the result for each unit of fuel; each consumes text. -/
def decodeLoop : ℕ → List Char → Option (List Char)
  | _, [] => some []
  | 0, _ :: _ => none
  | fuel + 1, c :: text =>
    if c = '%' then
      match escapedChar (c :: text) with
      | some (d, rest) => (decodeLoop fuel rest).map (d :: ·)
      | none => none
    else (decodeLoop fuel text).map (c :: ·)

/-- `decodeURIComponent`; `none` is a `URIError`. -/
def decodeURIComponent (text : List Char) : Option String := (decodeLoop text.length text).map String.ofList

example : decodeURIComponent "%41%C3%A4/%25".toList = some "Aä/%" := by decide +kernel

example : decodeURIComponent "100%".toList = none := by decide +kernel

/-! ### Routes -/

/-- `url.parse(req.url).pathname`: the URL without query string and fragment. -/
def pathname (url : String) : List Char := url.toList.takeWhile (fun c => c ≠ '?' ∧ c ≠ '#')

def ignoringCase (a c : Char) : Bool := a.toLower = c.toLower

def notSlash (c : Char) : Bool := c ≠ '/'

def trailingSlash (rest : List Char) : Bool := rest = [] ∨ rest = ['/']

/-- The captures of a route's regular expression. -/
def matchRoute (pattern : List (LazyPattern.Piece Char)) (url : String) : Option (List (List Char)) :=
  LazyPattern.run ignoringCase notSlash trailingSlash pattern (pathname url)

structure Route where
  pattern : List (LazyPattern.Piece Char)
  /-- The request for the handler, from the URL and the decoded parameters. -/
  request : String → List String → Option Request

/-- A route without parameters. -/
def Route.plain (path : String) (request : String → Request) : Route :=
  ⟨[.literal path.toList], fun url params => if params = [] then some (request url) else none⟩

/-- A route with the parameters `uid` and `token`. -/
def Route.link (path : String) (request : String → String → Request) : Route :=
  ⟨[.literal path.toList, .capture, .literal "&token=".toList, .capture], fun _ params =>
    match params with
    | [uid, token] => some (request uid token)
    | _ => none⟩

/-- The routes for `GET`, in the order of `routes.js`. -/
def getRoutes : List Route :=
  [.plain "/" fun _ => .getRoot,
    .plain "/welcome" fun _ => .getWelcome,
    .plain "/secure" .getSecure,
    .plain "/login" fun _ => .getLogin,
    .plain "/logout" fun _ => .getLogout,
    .plain "/admin" fun _ => .getAdmin,
    .link "/verify/user=" .getVerify,
    ⟨[.literal "/verify_mail/user=".toList, .capture], fun _ params =>
      match params with
      | [uid] => some (.getVerifyMail uid)
      | _ => none⟩,
    .plain "/reset_password" fun _ => .getResetPassword,
    .link "/new_password/user=" .getNewPassword]

/-- What becomes of a URL: a handler, an error of the decoding, or no route. -/
inductive Dispatch where
  | handled (request : Request)
  | uriError
  | notFound
  deriving DecidableEq, Repr

/-- The first route that matches decides. -/
def dispatch (url : String) : List Route → Dispatch
  | [] => .notFound
  | route :: routes =>
    match matchRoute route.pattern url with
    | none => dispatch url routes
    | some captures =>
      match captures.mapM decodeURIComponent with
      | none => .uriError
      | some params =>
        match route.request url params with
        | some request => .handled request
        | none => .notFound

/-- Routing of a `GET` request. -/
def dispatchGet (url : String) : Dispatch := dispatch url getRoutes

/-- The spellings of `/secure`: the path without query string and fragment, in any case, with at most
one trailing slash. -/
def routesToSecure (url : String) : Bool :=
  let path := (pathname url).map Char.toLower
  path = "/secure".toList ∨ path = "/secure/".toList

end ExpressAuth
