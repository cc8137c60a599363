import ExpressAuth.Library.HashStore
import ExpressAuth.Library.Sha256

/-!
# The Redis commands the application uses

Each user is one hash. `KEYS` takes its argument as a glob pattern and compares bytes as
`stringmatchlen` of `util.c` does with `nocase = 0`.
-/

namespace ExpressAuth

def fieldNames : List String := ["password", "mail", "valid", "timestamp", "link", "new_password"]

/-- The fields of a user's hash. -/
inductive Field where
  | password | mail | valid | timestamp | link | newPassword
  /-- A field the application never reads. -/
  | other (name : { n : String // n ∉ fieldNames })
  deriving DecidableEq, Repr

def Field.name : Field → String
  | .password => "password"
  | .mail => "mail"
  | .valid => "valid"
  | .timestamp => "timestamp"
  | .link => "link"
  | .newPassword => "new_password"
  | .other name => name

def Field.ofName (name : String) : Field :=
  if h : name ∈ fieldNames then
    if name = "password" then .password else if name = "mail" then .mail
    else if name = "valid" then .valid else if name = "timestamp" then .timestamp
    else if name = "link" then .link else .newPassword
  else .other ⟨name, h⟩

@[simp] lemma Field.ofName_name (f : Field) : Field.ofName f.name = f := by
  cases f with
  | other n => exact dif_neg n.2
  | _ => decide

@[simp] lemma Field.name_ofName (name : String) : (Field.ofName name).name = name := by
  unfold ofName
  split_ifs with h
  all_goals simp_all [Field.name, fieldNames]

abbrev Store := HashStore String Field String

/-! ### Glob matching -/

/-- `char` is signed, so a range compares bytes from 128 on as negative numbers. -/
def signed (b : UInt8) : ℤ := if b.toNat < 128 then b.toNat else b.toNat - 256

def inRange (start finish c : UInt8) : Bool :=
  let lo := min (signed start) (signed finish)
  let hi := max (signed start) (signed finish)
  decide (lo ≤ signed c) && decide (signed c ≤ hi)

/-- The body of a bracket class after `[` and `^`: whether `c` is listed, and the pattern
after the class. A pattern that ends inside the class ends there; one that ends in a
backslash is read past its end, which has no result. -/
def bracketClass (c : UInt8) : List UInt8 → Bool → Option (Bool × List UInt8)
  | [], found => some (found, [])
  | 0x5c :: e :: p, found => bracketClass c p (found || e == c)
  | [0x5c], _ => none
  | 0x5d :: p, found => some (found, p)
  | a :: 0x2d :: b :: p, found => bracketClass c p (found || inRange a b c)
  | a :: p, found => bracketClass c p (found || a == c)

/-- What follows `[`: whether the class is negated, and its body. -/
def classBody (p : List UInt8) : Bool × List UInt8 :=
  if p.head? == some 0x5e then (true, p.tail) else (false, p)

def onlyStars (p : List UInt8) : Bool := p.all (· == 0x2a)

/-- The loop once it has stepped over the terminator of an empty key, where `stringLen` is
negative. It reads memory that is not part of the key, so a comparison may go either way; `none`
if that decides the result, or if a star walks on through the memory. -/
def matchPastEnd : ℕ → List UInt8 → Option Bool
  | 0, _ => none
  | fuel + 1, pattern =>
    let compared := fun (p : List UInt8) => if matchPastEnd fuel p = some false then some false else none
    match pattern with
    | [] => some false
    | 0x2a :: p => if onlyStars p then some true else none
    | 0x3f :: p => matchPastEnd fuel p
    | 0x5b :: p =>
      match bracketClass 0 (classBody p).2 false with
      | some (_, rest) => compared rest
      | none => none
    | 0x5c :: _ :: p => compared p
    | _ :: p => compared p

/-- The recursive calls for `*`, from the longest rest of the key to the shortest. -/
def firstMatch : List (Option Bool) → Option Bool
  | [] => some false
  | some false :: rest => firstMatch rest
  | result :: _ => result

/-- One iteration of the outer loop for each unit of fuel; an iteration consumes pattern. The
terminator of the key reads as zero. -/
def stringmatchlenLoop : ℕ → List UInt8 → List UInt8 → Option Bool
  | 0, _, _ => none
  | fuel + 1, pattern, string =>
    let next := fun (p : List UInt8) =>
      match string with
      | [] => matchPastEnd fuel p
      | [_] => some (onlyStars p)
      | _ :: t => stringmatchlenLoop fuel p t
    let literal := fun (c : UInt8) (p : List UInt8) => if c == string.headD 0 then next p else some false
    match pattern with
    | [] => some string.isEmpty
    | 0x2a :: p =>
      let q := p.dropWhile (· == 0x2a)
      if q.isEmpty then some true
      else firstMatch ((string.tails.filter (fun t => !t.isEmpty)).map (stringmatchlenLoop fuel q))
    | 0x3f :: p => if string.isEmpty then some false else next p
    | 0x5b :: p =>
      match bracketClass (string.headD 0) (classBody p).2 false with
      | some (found, rest) => if found != (classBody p).1 then next rest else some false
      | none => none
    | 0x5c :: c :: p => literal c p
    | c :: p => literal c p

/-- Whether a key matches; `none` if memory outside of pattern and key decides. -/
def stringmatchlen (pattern string : List UInt8) : Option Bool :=
  stringmatchlenLoop (pattern.length + 1) pattern string

def utf8Bytes (s : String) : List UInt8 := s.toUTF8.data.toList

lemma utf8Bytes_eq_flatMap (s : String) : utf8Bytes s = s.toList.flatMap String.utf8EncodeChar := by
  rw [utf8Bytes, String.toUTF8_eq_toByteArray, ← String.utf8Encode_toList, List.utf8Encode, List.data_toByteArray,
    List.toList_toArray]

/-! ### Commands and replies -/

inductive CmdName where
  | hget | hset | keys
  deriving DecidableEq, Repr

def CmdName.text : CmdName → String
  | .hget => "hget"
  | .hset => "hset"
  | .keys => "keys"

/-- The number of arguments behind the name. -/
def CmdName.arity : CmdName → ℕ
  | .hget => 2
  | .hset => 3
  | .keys => 1

inductive Cmd where
  | hget (key : String) (field : Field)
  | hset (key : String) (field : Field) (value : String)
  | keys (pattern : String)
  | del (key : String)
  /-- A command with a wrong number of arguments. -/
  | refused (name : CmdName) (args : List String) (h : args.length ≠ name.arity)
  deriving DecidableEq, Repr

/-- The command that a name and its arguments make. -/
def Cmd.ofArgs (name : CmdName) (args : List String) : Cmd :=
  if h : args.length = name.arity then
    match name with
    | .hget => .hget (args.getD 0 "") (.ofName (args.getD 1 ""))
    | .hset => .hset (args.getD 0 "") (.ofName (args.getD 1 "")) (args.getD 2 "")
    | .keys => .keys (args.getD 0 "")
  else .refused name args h

lemma Cmd.ofArgs_hget (k : String) (f : Field) : Cmd.ofArgs .hget [k, f.name] = .hget k f :=
  congrArg (Cmd.hget k) f.ofName_name

lemma Cmd.ofArgs_hset (k : String) (f : Field) (v : String) : Cmd.ofArgs .hset [k, f.name, v] = .hset k f v :=
  congrArg (Cmd.hset k · v) f.ofName_name

lemma Cmd.ofArgs_keys (p : String) : Cmd.ofArgs .keys [p] = .keys p := rfl

lemma Cmd.eq_hset_of_ofArgs {name : CmdName} {args : List String} {k : String} {f : Field} {v : String}
    (h : Cmd.ofArgs name args = .hset k f v) : name = .hset := by
  unfold ofArgs at h
  split at h
  · cases name <;> simp at h ⊢
  · simp at h

inductive Reply where
  | bulk (value : Option String)
  | int (n : ℕ)
  | names (keys : List String)
  | error (message : String)
  deriving DecidableEq, Repr

/-- The shortcut of `keysCommand`: a pattern that starts with a star and a zero byte or ends
after the star. -/
def allkeys (pattern : String) : Bool :=
  match utf8Bytes pattern with
  | 0x2a :: rest => rest.headD 0 == 0
  | _ => false

def keyMatches (pattern key : String) : Option Bool :=
  if allkeys pattern then some true else stringmatchlen (utf8Bytes pattern) (utf8Bytes key)

/-- A comparison of the pattern with a key reads memory outside of both, up to a crash. -/
def Store.overruns (s : Store) (pattern : String) : Bool := s.keys.any (fun k => keyMatches pattern k == none)

/-- The keys that `KEYS` answers with; none if it has no answer. -/
def Store.matching (s : Store) (pattern : String) : List String :=
  if s.overruns pattern then [] else s.keys.filter (fun k => keyMatches pattern k == some true)

/-- `KEYS` answers, and names no key. -/
def Store.lacks (s : Store) (pattern : String) : Bool := !s.overruns pattern && (s.matching pattern).isEmpty

lemma Store.matching_of_overruns {s : Store} {pattern : String} (h : s.overruns pattern = true) :
    s.matching pattern = [] := if_pos h

lemma Store.matching_of_lacks {s : Store} {pattern : String} (h : s.lacks pattern = true) : s.matching pattern = [] := by
  rw [Store.lacks, Bool.and_eq_true] at h
  exact List.isEmpty_iff.mp h.2

/-- What the client reports when Redis goes away without an answer. -/
def connectionLost : String := "Redis connection lost and command aborted."

def wrongArity (name : CmdName) : String := "ERR wrong number of arguments for '" ++ name.text ++ "' command"

/-- One command on the store. -/
@[simp]
def Cmd.exec (s : Store) : Cmd → Store × Reply
  | .hget k f => (s, .bulk (s.hget k f))
  | .hset k f v => (s.hset k f v, .int (if (s.hget k f).isSome then 0 else 1))
  | .keys p => (s, if Store.overruns s p then .error connectionLost else .names (Store.matching s p))
  | .del k => (s.del k, .int (if k ∈ s then 1 else 0))
  | .refused name _ _ => (s, .error (wrongArity name))

lemma Cmd.exec_keys_of_lacks {s : Store} {pattern : String} (h : s.lacks pattern = true) :
    (Cmd.keys pattern).exec s = (s, .names []) := by
  have hanswers : s.overruns pattern = false := by
    rw [Store.lacks, Bool.and_eq_true] at h
    exact (Bool.not_eq_true' _).mp h.1
  rw [Cmd.exec, hanswers, Store.matching_of_lacks h, if_neg Bool.false_ne_true]

example : stringmatchlen (utf8Bytes "di*a") (utf8Bytes "diana") = some true := by decide +kernel

example : stringmatchlen (utf8Bytes "[d]") (utf8Bytes "[d]") = some false := by decide +kernel

example : stringmatchlen (utf8Bytes "[^a]*b") (utf8Bytes "") = none := by decide +kernel

end ExpressAuth
