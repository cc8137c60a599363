import ExpressAuth.Redis
import ExpressAuth.Redis.Networking

/-!
# Executing a command and writing its reply

The store holds texts, whose UTF-8 bytes are what the connection carries. How Redis holds a hash in memory is
left open: it may be a ziplist or a table, and a value that reads as an integer may be kept as one.
-/

namespace ExpressAuth

namespace Redis

/-- The text that bytes encode. -/
def textOf (bytes : List UInt8) : Option String := String.fromUTF8? ⟨bytes.toArray⟩

/-- The commands with a fixed number of arguments. -/
def commandTable : List CmdName := [.hget, .hset, .keys]

/-- The command of an argument vector, with the check of the number of its arguments. -/
def lookupCommand (argv : List (List UInt8)) : Option Cmd :=
  match argv.mapM textOf with
  | some ["del", key] => some (.del key)
  | some (name :: args) => (commandTable.find? (fun c => c.text == name)).map (Cmd.ofArgs · args)
  | _ => none

/-! ### Values -/

/-- A string object: its bytes, or an integer that stands for its decimal text. -/
inductive StringObject where
  | raw (bytes : List UInt8)
  | int (n : Int64)
  deriving DecidableEq

/-- The rounds of `while((n = n/10) != 0) len++`. -/
def divisions : ℕ → Int64 → ℕ
  | 0, _ => 0
  | fuel + 1, n => if n / 10 = 0 then 0 else divisions fuel (n / 10) + 1

/-- The length that `addReplyBulkLen` announces. A word has at most twenty digits. -/
def StringObject.len : StringObject → ℕ
  | .raw bytes => bytes.length
  | .int n => if n < 0 then 2 + divisions 20 (-n) else 1 + divisions 20 n

def addReplyBulkLen (obj : StringObject) : List UInt8 :=
  if (obj.len : ℤ) < OBJ_SHARED_BULKHDR_LEN then 0x24 :: (Decimal.text obj.len ++ [0x0d, 0x0a])
  else addReplyLongLongWithPrefix (Int64.ofNat obj.len) 0x24

/-- `addReply` of a string object; an integer is written into a buffer of 32 bytes. -/
def addReply : StringObject → List UInt8
  | .raw bytes => bytes
  | .int n =>
    let (len, buf) := ll2string (List.replicate 32 0) n
    buf.take len

def addReplyBulk (obj : StringObject) : List UInt8 := addReplyBulkLen obj ++ addReply obj ++ [0x0d, 0x0a]

/-- How the hashes are held: which of them are ziplists, and which values that read as integers are kept as
integers. -/
structure Encoding where
  ziplist : Store → String → Bool
  packed : Store → String → String → Bool

def Encoding.object (e : Encoding) (s : Store) (key value : String) : StringObject :=
  match e.packed s key value, string2ll (utf8Bytes value) with
  | true, some n => .int n
  | _, _ => .raw (utf8Bytes value)

/-- A value of a hash that is a ziplist or a table. -/
def addHashValueToReply (ziplist : Bool) : StringObject → List UInt8
  | .raw bytes => if ziplist then addReplyBulkCBuffer bytes else addReplyBulk (.raw bytes)
  | .int n => if ziplist then addReplyBulkLongLong n else addReplyBulk (.int n)

def addHashFieldToReply (ziplist : Bool) : Option StringObject → List UInt8
  | none => nullbulk
  | some obj => addHashValueToReply ziplist obj

/-! ### Commands -/

def hgetCommand (e : Encoding) (s : Store) (key : String) (field : Field) : List UInt8 :=
  addHashFieldToReply (e.ziplist s key) ((s.hget key field).map (e.object s key))

def czero : List UInt8 := [0x3a, 0x30, 0x0d, 0x0a]

def cone : List UInt8 := [0x3a, 0x31, 0x0d, 0x0a]

/-- The reply to `HSET`: whether a field was updated or created. -/
def hsetCommand (s : Store) (key : String) (field : Field) : List UInt8 :=
  if (s.hget key field).isSome then czero else cone

/-- The length is written in front once the keys are counted. -/
def keysCommand (s : Store) (pattern : String) : List UInt8 :=
  let keys := s.keys.filter (fun k => keyMatches pattern k == some true)
  0x2a :: (Decimal.text (Int64.ofNat keys.length).toInt ++ [0x0d, 0x0a]) ++
    keys.flatMap (fun k => addReplyBulk (.raw (utf8Bytes k)))

def delCommand (s : Store) (key : String) : List UInt8 := addReplyLongLong (if key ∈ s then 1 else 0)

/-- `addReplyErrorFormat`, which puts the code `ERR` in front. -/
def addReplyError (message : String) : List UInt8 := 0x2d :: (utf8Bytes ("ERR " ++ message) ++ [0x0d, 0x0a])

/-- The bytes a command sends back; none when Redis crashes in it. -/
def call (e : Encoding) (s : Store) : Cmd → Option (List UInt8)
  | .hget key field => some (hgetCommand e s key field)
  | .hset key field _ => some (hsetCommand s key field)
  | .keys pattern => if Store.overruns s pattern then none else some (keysCommand s pattern)
  | .del key => some (delCommand s key)
  | .refused name _ _ => some (addReplyError ("wrong number of arguments for '" ++ name.text ++ "' command"))

end Redis

end ExpressAuth
