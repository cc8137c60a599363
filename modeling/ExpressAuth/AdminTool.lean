import ExpressAuth.JavaScript
import ExpressAuth.Redis
import ExpressAuth.Routes
import Mathlib.Data.List.Infix

/-!
# The command line tool `admin.py`

An invocation asks `KEYS` first, where its branch does, and is a straight list of actions
from then on. `createMail` reads the clock when it is reached, after the writes before it.
-/

namespace ExpressAuth.AdminTool

/-- `base64.b64encode(hashlib.sha256(text).digest())`; the arguments are UTF-8 bytes. -/
def sha256Base64 (text : String) : String := Sha256.base64Text (Sha256.sha256 (utf8Bytes text))

/-- `hashlib.sha256(text).hexdigest()`. -/
def sha256Hex (text : String) : String := Sha256.hexText (Sha256.sha256 (utf8Bytes text))

/-- On ASCII text both languages hash the same bytes. -/
lemma utf8Bytes_of_ascii {s : String} (h : ∀ c ∈ s.toList, c.toNat < 128) : utf8Bytes s = binaryBytes s := by
  rw [utf8Bytes_eq_flatMap, binaryBytes, List.map_flatMap]
  apply List.flatMap_congr
  intro c hc
  have hc := h c hc
  have hbyte : c.val.toNat ≤ 127 := Nat.lt_succ_iff.mp hc
  have hutf8 : String.utf8EncodeChar c = [UInt8.ofNat c.toNat] := if_pos hbyte
  have hutf16 : utf16Units c = [c.toNat] := if_pos (by omega)
  rw [hutf8, hutf16]
  rfl

/-- `math.floor(time.time() / 1000)`: `time.time()` is in seconds, the clock in milliseconds. -/
def thousands (now : ℕ) : ℕ := now / 1000000

/-- The text of a whole float, below the range where Python changes to an exponent. -/
def floatText (n : ℕ) : String := numberText n ++ ".0"

lemma stringNumber_floatText (n : ℕ) : stringNumber (floatText n) = .finite (n : ℚ) :=
  stringNumber_append n ".0" (Or.inr rfl)

lemma sha256Hex_floatText (n : ℕ) : sha256Hex (floatText n) = ExpressAuth.sha256Hex (floatText n) := by
  have hascii : ∀ c ∈ (floatText n).toList, c.toNat < 128 := by
    intro c hc
    rw [floatText, String.toList_append, List.mem_append] at hc
    rcases hc with hc | hc
    · have hd := isDigit_of_mem_numberText hc
      simp only [Char.isDigit, Bool.and_eq_true, decide_eq_true_eq, UInt32.le_iff_toNat_le] at hd
      exact lt_of_le_of_lt hd.2 (by decide)
    · obtain rfl | rfl : c = '.' ∨ c = '0' := by simpa using hc
      · decide
      · decide
  rw [sha256Hex, ExpressAuth.sha256Hex, utf8Bytes_of_ascii hascii]

inductive Action where
  | run (cmd : Cmd)
  | createMail (username mail : String)
  | writeFile (file : MailFile)
  | showRecord (user : String)
  | print (line : String)
  | raise (exception : String)
  deriving DecidableEq, Repr

/-- An invocation in progress. -/
inductive Proc where
  /-- Before `r.keys(username)`, with what follows if a key matched and if none did. -/
  | keys (username : String) (found missing : List Action)
  /-- Before `r.keys('*')` of `-l`. -/
  | list
  | todo (actions : List Action)
  deriving DecidableEq, Repr

def helpAndExit : Proc :=
  .todo [.print "USAGE: admin.py [-c <username> <password> <mail>] | [-l] | [-d <user>] | [-p <user> <newpassword> | [-m <user> <newmail>"]

/-- The body of `createMail`, from its clock reading on. -/
def createMail (now : ℕ) (username : String) : List Action :=
  let timestamp := floatText (thousands now)
  let url := "/verify/user=" ++ username ++ "&token=" ++ sha256Hex timestamp
  let fullUrl := "https://diana-yavuz.informatik.haw-hamburg.de" ++ url
  [.run (.hset username .timestamp timestamp), .run (.hset username .valid "False"),
    .writeFile ⟨"/mails/" ++ username ++ "_mail.html",
      "Bitte klicke <a href=" ++ fullUrl ++ ">hier</a>, um deine Email zu verifizieren."⟩]

/-- Python's `opt in s` for two strings. -/
def isIn (opt s : String) : Bool := decide (opt.toList <:+: s.toList)

def main : List String → Proc
  | [] => helpAndExit
  | opt :: args =>
    if opt = "-h" then helpAndExit
    else if isIn opt "-c" then
      match args with
      | [username, password, mail] =>
        .keys username
          [.print ("Nutzer " ++ username ++ " existiert bereits!")]
          [.run (.hset username .password (sha256Base64 (username ++ password))),
            .run (.hset username .mail mail), .createMail username mail,
            .print ("Nutzer " ++ username ++ " angelegt.")]
      | _ => helpAndExit
    else if isIn opt "-p" then
      match args with
      | [username, password] =>
        .keys username
          [.run (.hset username .password (sha256Base64 (username ++ password))),
            .print ("Passwort für " ++ username ++ " aktualisiert.")]
          [.print ("Nutzer " ++ username ++ " existiert nicht!\n")]
      | _ => helpAndExit
    else if isIn opt "-m" then
      match args with
      | [username, mail] =>
        .keys username
          [.run (.hset username .mail mail), .createMail username mail,
            .print ("Email für " ++ username ++ " aktualisiert.")]
          [.print ("Nutzer " ++ username ++ " existiert nicht!\n")]
      | _ => helpAndExit
    else if isIn opt "-l" then .list
    else if isIn opt "-d" then
      match args with
      | username :: _ => .todo [.run (.del username), .print ("Nutzer " ++ username ++ " gelöscht.")]
      | [] => .todo [.raise "IndexError"]
    else helpAndExit

/-! ### One action at a time -/

/-- What an invocation shows of one step: a command with its reply, a record that `HGETALL` gave
it, a file or a line. -/
inductive Output where
  | executed (cmd : Cmd) (reply : Reply)
  | listed (user : String) (fields : Finmap (fun _ : Field => String))
  | file (file : MailFile)
  | printed (line : String)
  deriving DecidableEq

/-- What follows `userExists = r.keys(username)`; without an answer the client raises. -/
def afterKeys (store : Store) (username : String) (found missing : List Action) : List Action :=
  if Store.overruns store username then [.raise "ConnectionError"]
  else if Store.matching store username = [] then missing else found

/-- One step of an invocation: at most one command reaches Redis. -/
def Proc.step (store : Store) (now : ℕ) : Proc → Store × Proc × List Output
  | .keys username found missing =>
    (store, .todo (afterKeys store username found missing), [.executed (.keys username) ((Cmd.keys username).exec store).2])
  | .list =>
    let names := Store.matching store "*"
    (store, .todo (names.map .showRecord), [.executed (.keys "*") (.names names)])
  | .todo [] => (store, .todo [], [])
  | .todo (.run cmd :: rest) =>
    ((cmd.exec store).1, .todo rest, [.executed cmd (cmd.exec store).2])
  | .todo (.createMail username _ :: rest) => (store, .todo (createMail now username ++ rest), [])
  | .todo (.writeFile file :: rest) => (store, .todo rest, [.file file])
  | .todo (.showRecord user :: rest) => (store, .todo rest, [.listed user (store.hash user)])
  | .todo (.print line :: rest) => (store, .todo rest, [.printed line])
  | .todo (.raise exception :: _) => (store, .todo [], [.printed exception])

/-! ### A whole invocation -/

/-- The actions left once the answer of `KEYS` is known. -/
def Proc.actions (store : Store) : Proc → List Action
  | .keys username found missing => afterKeys store username found missing
  | .list => (Store.matching store "*").map .showRecord
  | .todo actions => actions

/-- What one action of a straight list does to the store. -/
def Action.perform (store : Store) : Action → Store
  | .run cmd => (cmd.exec store).1
  | _ => store

/-- What one action does to the store when nothing else happens in between. -/
def Action.apply (now : ℕ) (store : Store) : Action → Store
  | .createMail username _ => (AdminTool.createMail now username).foldl Action.perform store
  | action => action.perform store

/-- The store after a whole invocation. -/
def invoke (store : Store) (now : ℕ) (argv : List String) : Store :=
  ((main argv).actions store).foldl (Action.apply now) store

/-- The file an action of a straight list writes. -/
def Action.written : Action → List MailFile
  | .writeFile file => [file]
  | _ => []

/-- The files one action writes. -/
def Action.files (now : ℕ) : Action → List MailFile
  | .createMail username _ => (AdminTool.createMail now username).flatMap Action.written
  | action => action.written

/-- The mail files a whole invocation writes. -/
def files (store : Store) (now : ℕ) (argv : List String) : List MailFile :=
  ((main argv).actions store).flatMap (Action.files now)

end ExpressAuth.AdminTool
