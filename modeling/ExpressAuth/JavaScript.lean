import ExpressAuth.Library.Sha256
import Mathlib.Data.Rat.Defs
import Mathlib.Algebra.Order.Ring.Rat
import Mathlib.Data.List.TakeWhile
import Mathlib.Tactic.Linarith

/-!
# The values and library calls the handlers rely on

A form field is what the body parser makes of it: missing, a string, an array, an object or,
from a JSON body, also a number, a boolean or `null`. `===` is only used with a reply or a
literal on one side, where it is equality of `JsVal`. Numbers occur only as clock readings and
as the result of subtracting a stored timestamp from one; they are exact here and do not round.
-/

namespace ExpressAuth

/-- A value of a form field, a session field or a reply. -/
inductive JsVal where
  | undefined
  | null
  | str (s : String)
  /-- A number or a boolean, by its text. -/
  | scalar (text : String)
  | object
  /-- An array by the texts of its items; `none` is an item `null`. -/
  | array (items : List (Option String))
  deriving DecidableEq, Repr

namespace JsVal

/-- `String(v)`, which is also what the Redis client sends for an argument `v`. -/
def toText : JsVal → String
  | undefined => "undefined"
  | null => "null"
  | str s => s
  | scalar text => text
  | object => "[object Object]"
  | array items => String.intercalate "," (items.map (·.getD ""))

@[simp] lemma toText_str (s : String) : (str s).toText = s := rfl

/-- `Array.isArray`. -/
def isArray : JsVal → Bool
  | array _ => true
  | _ => false

@[simp] lemma isArray_str (s : String) : (str s).isArray = false := rfl

@[simp] lemma isArray_undefined : undefined.isArray = false := rfl

/-- Whether `+` with this operand is a concatenation. -/
def concatenates : JsVal → Bool
  | str _ | object | array _ => true
  | _ => false

/-- `a + b`: a concatenation, or a number (`none`) if neither side makes it one. -/
def add (a b : JsVal) : Option String :=
  if a.concatenates || b.concatenates then some (a.toText ++ b.toText) else none

@[simp] lemma add_str (a b : String) : (str a).add (str b) = some (a ++ b) := rfl

/-- A bulk reply as the callback receives it. -/
def ofReply : Option String → JsVal
  | none => null
  | some s => str s

@[simp] lemma ofReply_eq_str {r : Option String} {s : String} : ofReply r = str s ↔ r = some s := by
  cases r <;> simp [ofReply]

@[simp] lemma str_eq_ofReply {r : Option String} {s : String} : str s = ofReply r ↔ r = some s := by
  rw [eq_comm, ofReply_eq_str]

end JsVal

/-! ### Numbers -/

inductive JsNum where
  | nan
  | infinite (negative : Bool)
  | finite (q : ℚ)
  deriving DecidableEq

/-- `n < limit`; a comparison with `NaN` is false. -/
def lessThan : JsNum → ℚ → Bool
  | .nan, _ => false
  | .infinite negative, _ => negative
  | .finite q, limit => decide (q < limit)

/-- `n - a` for a finite `n`. -/
def subtractFrom (n : ℚ) : JsNum → JsNum
  | .nan => .nan
  | .infinite negative => .infinite (!negative)
  | .finite q => .finite (n - q)

/-- White space and line ends, which `Number` drops at both ends of a text. -/
def isSpace (c : Char) : Bool :=
  c.toNat ∈ [9, 10, 11, 12, 13, 32, 0xa0, 0x1680, 0x180e, 0x2028, 0x2029, 0x202f, 0x205f, 0x3000, 0xfeff] ||
    decide (0x2000 ≤ c.toNat ∧ c.toNat ≤ 0x200a)

/-- An unsigned decimal without exponent; `none` if the text is not one. -/
def decimalNumber (text : List Char) : Option ℚ :=
  let whole := text.takeWhile (· ≠ '.')
  let frac := (text.dropWhile (· ≠ '.')).tail
  if (whole ++ frac).all Char.isDigit && !(whole ++ frac).isEmpty then
    some ((Nat.ofDigitChars 10 whole 0 : ℚ) + (Nat.ofDigitChars 10 frac 0 : ℚ) / 10 ^ frac.length)
  else none

/-- The text after the `e` of an exponent, as the factor it stands for. -/
def exponentFactor : List Char → Option ℚ
  | '-' :: digits =>
    if digits.all Char.isDigit && !digits.isEmpty then some (1 / 10 ^ Nat.ofDigitChars 10 digits 0) else none
  | '+' :: digits =>
    if digits.all Char.isDigit && !digits.isEmpty then some (10 ^ Nat.ofDigitChars 10 digits 0) else none
  | digits =>
    if digits.all Char.isDigit && !digits.isEmpty then some (10 ^ Nat.ofDigitChars 10 digits 0) else none

/-- A decimal without sign, with or without exponent, or `Infinity`. -/
def unsignedNumber (text : List Char) : JsNum :=
  if text = "Infinity".toList then .infinite false
  else
    match decimalNumber (text.takeWhile (fun c => c ≠ 'e' ∧ c ≠ 'E')),
      text.dropWhile (fun c => c ≠ 'e' ∧ c ≠ 'E') with
    | some m, [] => .finite m
    | some m, _ :: digits => ((exponentFactor digits).map (fun x => JsNum.finite (m * x))).getD .nan
    | none, _ => .nan

/-- The base a number with the prefix `0c` is written in. -/
def radix (c : Char) : Option ℕ :=
  if c = 'x' ∨ c = 'X' then some 16 else if c = 'o' ∨ c = 'O' then some 8
  else if c = 'b' ∨ c = 'B' then some 2 else none

def digitIn (base : ℕ) (c : Char) : Option ℕ :=
  let n := if c.isDigit then c.toNat - 48 else if 'a' ≤ c ∧ c ≤ 'f' then c.toNat - 87
    else if 'A' ≤ c ∧ c ≤ 'F' then c.toNat - 55 else base
  if n < base then some n else none

def radixNumber (base : ℕ) (digits : List Char) : JsNum :=
  match digits.mapM (digitIn base) with
  | some (d :: ds) => .finite ((d :: ds).foldl (fun n d => base * n + d) 0 : ℕ)
  | _ => .nan

/-- `Number(s)` of a string. -/
def stringNumber (s : String) : JsNum :=
  let text := ((s.toList.dropWhile isSpace).reverse.dropWhile isSpace).reverse
  match text with
  | [] => .finite 0
  | '-' :: rest => subtractFrom 0 (unsignedNumber rest)
  | '+' :: rest => unsignedNumber rest
  | '0' :: c :: digits =>
    match radix c with
    | some base => radixNumber base digits
    | none => unsignedNumber text
  | _ => unsignedNumber text

/-- The operand of a subtraction. -/
def JsVal.toNumber : JsVal → JsNum
  | .undefined | .object => .nan
  | .null => .finite 0
  | .str s => stringNumber s
  | .scalar text => if text = "true" then .finite 1 else if text = "false" then .finite 0 else stringNumber text
  | .array items => stringNumber (JsVal.array items).toText

/-- `String(n)` of a whole number. -/
def numberText (n : ℕ) : String := toString n

lemma toList_numberText (n : ℕ) : (numberText n).toList = Nat.toDigits 10 n := by
  rw [numberText, Nat.toString_eq_repr, Nat.toList_repr]

lemma isDigit_of_mem_numberText {n : ℕ} {c : Char} (h : c ∈ (numberText n).toList) : c.isDigit :=
  Nat.isDigit_of_mem_toDigits (by decide) (by decide) (toList_numberText n ▸ h)

lemma ne_point_of_mem_numberText {n : ℕ} {c : Char} (h : c ∈ (numberText n).toList) : c ≠ '.' := by
  rintro rfl
  exact absurd (isDigit_of_mem_numberText h) (by decide)

/-- Reading back a whole number followed by nothing or by a zero fraction. -/
lemma decimalNumber_append (n : ℕ) (tail : List Char) (ht : tail = [] ∨ tail = ['.', '0']) :
    decimalNumber ((numberText n).toList ++ tail) = some (n : ℚ) := by
  have hne : (numberText n).toList ≠ [] := by
    rw [toList_numberText]
    exact Nat.toDigits_ne_nil
  have hpoint : ∀ c ∈ (numberText n).toList, decide (c ≠ '.') = true :=
    fun c hc => decide_eq_true (ne_point_of_mem_numberText hc)
  have hdigits : (numberText n).toList.all Char.isDigit = true :=
    List.all_eq_true.mpr (fun c hc => isDigit_of_mem_numberText hc)
  have hvalue : Nat.ofDigitChars 10 (numberText n).toList 0 = n := by
    rw [toList_numberText, Nat.ofDigitChars_ten_toDigits]
  unfold decimalNumber
  rw [List.takeWhile_append_of_pos hpoint, List.dropWhile_append_of_pos hpoint]
  rcases ht with rfl | rfl
  · simp [hdigits, hne, hvalue]
  · have hzero : Nat.ofDigitChars 10 ['0'] 0 = 0 := by decide
    simp [hdigits, hne, hvalue, hzero]

/-- A text of digits and points is read without trimming, sign, base or exponent. -/
lemma stringNumber_eq_unsigned {s : String} (hne : s.toList ≠ []) (hs : ∀ c ∈ s.toList, c.isDigit ∨ c = '.') :
    stringNumber s = unsignedNumber s.toList := by
  have hchar : ∀ c : Char, c.isDigit ∨ c = '.' → isSpace c = false ∧ c ≠ '-' ∧ c ≠ '+' ∧ radix c = none := by
    intro c hc
    have hrange : 46 ≤ c.toNat ∧ c.toNat ≤ 57 ∧ c.toNat ≠ 47 := by
      rcases hc with hc | rfl
      · simp only [Char.isDigit, Bool.and_eq_true, decide_eq_true_eq, UInt32.le_iff_toNat_le] at hc
        have h1 : 48 ≤ c.toNat := hc.1
        have h2 : c.toNat ≤ 57 := hc.2
        omega
      · decide
    have hne : ∀ d : Char, d.toNat < 46 ∨ 57 < d.toNat → c ≠ d := by
      rintro d hd rfl
      omega
    refine ⟨?_, hne '-' (by decide), hne '+' (by decide), ?_⟩
    · simp only [isSpace, List.mem_cons, List.not_mem_nil, or_false, Bool.or_eq_false_iff, decide_eq_false_iff_not]
      omega
    · simp [radix, hne 'x' (by decide), hne 'X' (by decide), hne 'o' (by decide), hne 'O' (by decide),
        hne 'b' (by decide), hne 'B' (by decide)]
  have htrim : ((s.toList.dropWhile isSpace).reverse.dropWhile isSpace).reverse = s.toList := by
    have hkeep : ∀ l : List Char, (∀ c ∈ l, c.isDigit ∨ c = '.') → l.dropWhile isSpace = l := by
      intro l hl
      cases l with
      | nil => rfl
      | cons c l => rw [List.dropWhile_cons_of_neg (by simp [(hchar c (hl c List.mem_cons_self)).1])]
    rw [hkeep _ hs, hkeep _ (fun c hc => hs c (List.mem_reverse.mp hc)), List.reverse_reverse]
  unfold stringNumber
  simp only [htrim]
  cases hl : s.toList with
  | nil => exact absurd hl hne
  | cons c l =>
    rw [hl] at hs
    obtain ⟨-, hminus, hplus, -⟩ := hchar c (hs c List.mem_cons_self)
    cases l with
    | nil => split <;> simp_all
    | cons d l =>
      have hradix := (hchar d (hs d (by simp))).2.2.2
      split <;> simp_all

lemma stringNumber_append (n : ℕ) (tail : String) (ht : tail.toList = [] ∨ tail.toList = ['.', '0']) :
    stringNumber (numberText n ++ tail) = .finite (n : ℚ) := by
  have hs : ∀ c ∈ (numberText n ++ tail).toList, c.isDigit ∨ c = '.' := by
    intro c hc
    rw [String.toList_append, List.mem_append] at hc
    rcases hc with hc | hc
    · exact Or.inl (isDigit_of_mem_numberText hc)
    · rcases ht with ht | ht
      · simp [ht] at hc
      · obtain rfl | rfl : c = '.' ∨ c = '0' := by simpa [ht] using hc
        · exact Or.inr rfl
        · exact Or.inl (by decide)
  have hne : (numberText n ++ tail).toList ≠ [] := by
    rw [String.toList_append, toList_numberText]
    exact List.append_ne_nil_of_left_ne_nil Nat.toDigits_ne_nil _
  have hexp : ∀ c ∈ (numberText n ++ tail).toList, decide (c ≠ 'e' ∧ c ≠ 'E') = true := by
    intro c hc
    rcases hs c hc with h | rfl
    · refine decide_eq_true ⟨?_, ?_⟩ <;> rintro rfl <;> exact absurd h (by decide)
    · decide
  have hinf : (numberText n ++ tail).toList ≠ "Infinity".toList := by
    intro h
    rcases hs 'I' (h ▸ by decide) with h | h
    · exact absurd h (by decide)
    · exact absurd h (by decide)
  have htake := List.takeWhile_eq_self_iff.mpr hexp
  have hdrop := List.dropWhile_eq_nil_iff.mpr hexp
  rw [stringNumber_eq_unsigned hne hs, unsignedNumber, if_neg hinf, htake, hdrop, String.toList_append,
    decimalNumber_append n _ ht]

@[simp] lemma stringNumber_numberText (n : ℕ) : stringNumber (numberText n) = .finite (n : ℚ) := by
  have h := stringNumber_append n "" (Or.inl rfl)
  rwa [String.append_empty] at h

example : stringNumber " -0.5e3 " = .finite (-500) := by decide +kernel

example : stringNumber "0x1F" = .finite 31 := by decide +kernel

/-- `Math.floor(Date.now() / 1000)` for a clock reading in milliseconds. -/
def seconds (now : ℕ) : ℕ := now / 1000

/-- The UTF-16 units of a character. -/
def utf16Units (c : Char) : List ℕ :=
  if c.toNat < 0x10000 then [c.toNat]
  else [0xd800 + (c.toNat - 0x10000) / 0x400, 0xdc00 + (c.toNat - 0x10000) % 0x400]

/-- The bytes `hash.update` takes from a string: the low byte of each UTF-16 unit. -/
def binaryBytes (s : String) : List UInt8 := (s.toList.flatMap utf16Units).map UInt8.ofNat

/-- `crypto.createHash('sha256').update(s).digest('hex')`. -/
def sha256Hex (s : String) : String := Sha256.hexText (Sha256.sha256 (binaryBytes s))

/-- `crypto.createHash('sha256').update(s).digest('base64')`. -/
def sha256Base64 (s : String) : String := Sha256.base64Text (Sha256.sha256 (binaryBytes s))

end ExpressAuth
