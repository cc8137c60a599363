import ExpressAuth.Library.Decimal
import ExpressAuth.Library.Framing
import ExpressAuth.NodeRedis.Parser

/-!
# Replies as frames

The reply grammar as a reader on the bytes that have arrived, apart from how the parser keeps its place
in them, and the encoding that the reader inverts.
-/

namespace ExpressAuth.NodeRedis

open Framing

/-! ### The grammar -/

/-- The number that digits behind `n` stand for. A byte that is no digit counts all the same. -/
def digitsNumber (n : ℤ) (digits : List UInt8) : ℤ :=
  digits.foldl (fun n c => toDouble (toDouble (n * 10) + ((c.toNat : ℤ) - 48))) n

def lineNumber (line : List UInt8) : ℤ :=
  if line.head? = some 45 then -digitsNumber 0 line.tail else digitsNumber 0 line

def readNumber (s : List UInt8) : Step UInt8 ℤ := (readLine 13 s).map lineNumber

def readBulk (s : List UInt8) : Step UInt8 Value :=
  (readNumber s).andThen (fun length rest =>
    if length = -1 then .frame .null rest else (readBlock length.toNat 2 rest).map .str)

def readArray (read : List UInt8 → Step UInt8 Value) (s : List UInt8) : Step UInt8 Value :=
  (readNumber s).andThen (fun length rest =>
    if length = -1 then .frame .null rest else (readTimes read length.toNat [] rest).map .array)

/-- What follows a type byte, given what reads an array. -/
def readTyped (array : List UInt8 → Step UInt8 Value) (type : UInt8) (s : List UInt8) : Step UInt8 Value :=
  if type = 36 then readBulk s
  else if type = 58 then (readNumber s).map .num
  else if type = 43 then (readLine 13 s).map .str
  else if type = 42 then array s
  else if type = 45 then (readLine 13 s).map .error
  else .bad

/-- A reply with room for `stack` nested arrays. -/
def readValue : ℕ → List UInt8 → Step UInt8 Value
  | _, [] => .need
  | 0, type :: s => readTyped (fun _ => .bad) type s
  | stack + 1, type :: s => readTyped (readArray (readValue stack)) type s

/-- An array with room for `stack` nested arrays, itself included. -/
def readArrayWithin : ℕ → List UInt8 → Step UInt8 Value
  | 0 => fun _ => .bad
  | stack + 1 => readArray (readValue stack)

lemma readValue_nil (stack : ℕ) : readValue stack [] = .need := by
  cases stack <;> rfl

lemma readValue_cons (stack : ℕ) (type : UInt8) (s : List UInt8) :
    readValue stack (type :: s) = readTyped (readArrayWithin stack) type s := by
  cases stack <;> rfl

lemma stable_readNumber : Stable readNumber := stable_readLine.map lineNumber

lemma stable_readBulk : Stable readBulk := by
  apply stable_readNumber.andThen
  intro length
  exact (stable_frame _).ite ((stable_readBlock _ _).map Value.str)

lemma stable_readArray {read : List UInt8 → Step UInt8 Value} (h : Stable read) : Stable (readArray read) := by
  apply stable_readNumber.andThen
  intro length
  exact (stable_frame _).ite ((stable_readTimes h _ _).map Value.array)

lemma stable_readTyped {array : List UInt8 → Step UInt8 Value} (h : Stable array) (type : UInt8) :
    Stable (readTyped array type) := by
  apply stable_readBulk.ite
  apply (stable_readNumber.map Value.num).ite
  apply (stable_readLine.map Value.str).ite
  apply h.ite
  exact (stable_readLine.map Value.error).ite stable_bad

lemma stable_readArrayWithin (stack : ℕ) : Stable (readArrayWithin stack) := by
  induction stack with
  | zero => exact stable_bad
  | succ stack ih =>
    apply stable_readArray
    exact stable_of_cons _ (readValue_nil stack) (readValue_cons stack) (stable_readTyped ih)

def replyReader (stack : ℕ) : Reader UInt8 Value :=
  .ofCons (readValue stack) (readTyped (readArrayWithin stack)) (readValue_nil stack) (readValue_cons stack)
    (stable_readTyped (stable_readArrayWithin stack))

lemma stable_readValue (stack : ℕ) : Stable (readValue stack) := (replyReader stack).stable

/-! ### The encoding -/

/-- A reply as it is written: a string is a simple or a bulk one, and `null` stands for a string or for an
array. -/
inductive Resp where
  | simple (bytes : List UInt8)
  | bulk (bytes : List UInt8)
  | num (n : ℤ)
  | null
  | nullArray
  | error (message : List UInt8)
  | array (elements : List Resp)

mutual

def Resp.encode : Resp → List UInt8
  | .simple bytes => 43 :: (bytes ++ [13, 10])
  | .bulk bytes => 36 :: (Decimal.text bytes.length ++ [13, 10] ++ (bytes ++ [13, 10]))
  | .num n => 58 :: (Decimal.text n ++ [13, 10])
  | .null => 36 :: (Decimal.text (-1) ++ [13, 10])
  | .nullArray => 42 :: (Decimal.text (-1) ++ [13, 10])
  | .error message => 45 :: (message ++ [13, 10])
  | .array elements => 42 :: (Decimal.text elements.length ++ [13, 10] ++ encodeAll elements)

def encodeAll : List Resp → List UInt8
  | [] => []
  | w :: ws => w.encode ++ encodeAll ws

end

mutual

/-- What the parser makes of a reply. -/
def Resp.value : Resp → Value
  | .simple bytes => .str bytes
  | .bulk bytes => .str bytes
  | .num n => .num n
  | .null => .null
  | .nullArray => .null
  | .error message => .error message
  | .array elements => .array (valuesOf elements)

def valuesOf : List Resp → List Value
  | [] => []
  | w :: ws => w.value :: valuesOf ws

end

lemma encodeAll_eq_flatMap (ws : List Resp) : encodeAll ws = ws.flatMap Resp.encode := by
  induction ws with
  | nil => rfl
  | cons w ws ih => rw [encodeAll, ih, List.flatMap_cons]

lemma valuesOf_eq_map (ws : List Resp) : valuesOf ws = ws.map Resp.value := by
  induction ws with
  | nil => rfl
  | cons w ws ih => rw [valuesOf, ih, List.map_cons]

/-- A reply that the protocol can carry and the parser can hold: a simple string or an error is one line,
numbers and lengths are exact as doubles, and arrays nest at most `stack` deep. -/
inductive Sendable : ℕ → Resp → Prop where
  | simple {stack : ℕ} {bytes : List UInt8} (h : 13 ∉ bytes) : Sendable stack (.simple bytes)
  | bulk {stack : ℕ} {bytes : List UInt8} (h : bytes.length ≤ 2 ^ 53) : Sendable stack (.bulk bytes)
  | num {stack : ℕ} {n : ℤ} (h : n.natAbs ≤ 2 ^ 53) : Sendable stack (.num n)
  | null {stack : ℕ} : Sendable stack .null
  | nullArray {stack : ℕ} : Sendable (stack + 1) .nullArray
  | error {stack : ℕ} {message : List UInt8} (h : 13 ∉ message) : Sendable stack (.error message)
  | array {stack : ℕ} {elements : List Resp} (hlength : elements.length ≤ 2 ^ 53)
      (h : ∀ w ∈ elements, Sendable stack w) : Sendable (stack + 1) (.array elements)

/-! ### Numbers -/

lemma toDouble_of_le {n : ℤ} (h : n.natAbs ≤ 2 ^ 53) : toDouble n = n := by
  rcases Nat.lt_or_eq_of_le h with hlt | heq
  · have hlog : n.natAbs.log2 + 1 - 53 = 0 := by
      by_cases hzero : n.natAbs = 0
      · rw [hzero]
        rfl
      · have := (Nat.log2_lt hzero).mpr hlt
        omega
    have hsign := Int.sign_mul_natAbs n
    rw [toDouble, hlog]
    simpa [Nat.mod_one] using hsign
  · rcases Int.natAbs_eq n with hn | hn
    · rw [hn, heq]
      decide
    · rw [hn, heq]
      decide

example : toDouble 9007199254740993 = 9007199254740992 := by decide

lemma le_value (v : ℕ) (bs : List UInt8) : v ≤ Decimal.value v bs := by
  induction bs generalizing v with
  | nil => exact Nat.le_refl v
  | cons b bs ih =>
    rw [Decimal.value_cons]
    exact le_trans (by omega) (ih _)

lemma digitsNumber_eq_value (v : ℕ) {bs : List UInt8} (h : ∀ b ∈ bs, Decimal.IsDigit b)
    (hbound : Decimal.value v bs ≤ 2 ^ 53) : digitsNumber v bs = Decimal.value v bs := by
  induction bs generalizing v with
  | nil => rfl
  | cons b bs ih =>
    have hb := (h b List.mem_cons_self).1
    rw [Decimal.value_cons] at hbound ⊢
    have hle := (le_value (10 * v + (b.toNat - 48)) bs).trans hbound
    have hnext : toDouble (toDouble ((v : ℤ) * 10) + ((b.toNat : ℤ) - 48)) = (10 * v + (b.toNat - 48) : ℕ) := by
      have hsum : (v : ℤ) * 10 + ((b.toNat : ℤ) - 48) = (10 * v + (b.toNat - 48) : ℕ) := by omega
      rw [toDouble_of_le (n := (v : ℤ) * 10) (by omega), hsum, toDouble_of_le (by omega)]
    rw [digitsNumber, List.foldl_cons, hnext]
    exact ih _ (fun c hc => h c (List.mem_cons_of_mem b hc)) hbound

lemma digitsNumber_digits {n : ℕ} (hn : n ≤ 2 ^ 53) : digitsNumber 0 (Decimal.digits n) = n := by
  have hvalue := Decimal.value_digits n
  have h := digitsNumber_eq_value 0 (fun b hb => Decimal.isDigit_of_mem (n := n) hb) (by rwa [hvalue])
  rw [hvalue] at h
  exact h

lemma lineNumber_text {n : ℤ} (hn : n.natAbs ≤ 2 ^ 53) : lineNumber (Decimal.text n) = n := by
  rcases (Decimal.eq_text_iff (Decimal.text n) n).mp rfl with ⟨k, htext, rfl⟩ | ⟨k, -, htext, rfl⟩
  · have hhead : (Decimal.digits k).head? ≠ some 45 := by
      intro h
      exact absurd (Decimal.isDigit_of_mem (List.mem_of_mem_head? h)) (by decide)
    rw [htext, lineNumber, if_neg hhead, digitsNumber_digits (by omega)]
  · rw [htext, lineNumber, List.head?_cons, if_pos rfl, List.tail_cons, digitsNumber_digits (by omega)]

lemma return_notMem_text (n : ℤ) : (13 : UInt8) ∉ Decimal.text n := by
  intro h
  rw [Decimal.text_eq_sign_append, List.mem_append] at h
  rcases h with h | h
  · split at h <;> simp at h
  · exact absurd (Decimal.isDigit_of_mem h) (by decide)

lemma readLine_crlf {line : List UInt8} (h : 13 ∉ line) (rest : List UInt8) :
    readLine 13 (line ++ [13, 10] ++ rest) = .frame line rest := by
  rw [List.append_assoc]
  exact readLine_line h 10 rest

lemma readNumber_text {n : ℤ} (hn : n.natAbs ≤ 2 ^ 53) (rest : List UInt8) :
    readNumber (Decimal.text n ++ [13, 10] ++ rest) = .frame n rest := by
  rw [readNumber, readLine_crlf (return_notMem_text n), Step.frame_map, lineNumber_text hn]

/-- The reader takes back every reply that was written, whatever follows it. -/
lemma readValue_encode {stack : ℕ} {w : Resp} (h : Sendable stack w) (t : List UInt8) :
    readValue stack (w.encode ++ t) = .frame w.value t := by
  induction h generalizing t with
  | simple h =>
    rw [Resp.encode, List.cons_append, readValue_cons, readTyped, if_neg (by decide), if_neg (by decide), if_pos rfl,
      readLine_crlf h, Step.frame_map, Resp.value]
  | @bulk _ bytes hlength =>
    have hblock : readBlock bytes.length 2 (bytes ++ ([13, 10] ++ t)) = .frame bytes t :=
      readBlock_block bytes [13, 10] t
    rw [Resp.encode, List.cons_append, readValue_cons, readTyped, if_pos rfl, readBulk,
      List.append_assoc, readNumber_text (by omega), Step.frame_andThen, if_neg (by omega), Int.toNat_natCast,
      List.append_assoc, hblock, Step.frame_map, Resp.value]
  | num hn =>
    rw [Resp.encode, List.cons_append, readValue_cons, readTyped, if_neg (by decide), if_pos rfl,
      readNumber_text hn, Step.frame_map, Resp.value]
  | null =>
    rw [Resp.encode, List.cons_append, readValue_cons, readTyped, if_pos rfl, readBulk,
      readNumber_text (by decide), Step.frame_andThen, if_pos rfl, Resp.value]
  | nullArray =>
    rw [Resp.encode, List.cons_append, readValue_cons, readTyped, if_neg (by decide), if_neg (by decide),
      if_neg (by decide), if_pos rfl, readArrayWithin, readArray, readNumber_text (by decide), Step.frame_andThen,
      if_pos rfl, Resp.value]
  | error h =>
    rw [Resp.encode, List.cons_append, readValue_cons, readTyped, if_neg (by decide), if_neg (by decide),
      if_neg (by decide), if_neg (by decide), if_pos rfl, readLine_crlf h, Step.frame_map, Resp.value]
  | @array stack elements hlength _ ih =>
    rw [Resp.encode, List.cons_append, readValue_cons, readTyped, if_neg (by decide), if_neg (by decide),
      if_neg (by decide), if_pos rfl, readArrayWithin, readArray, List.append_assoc, readNumber_text (by omega),
      Step.frame_andThen, if_neg (by omega), Int.toNat_natCast, encodeAll_eq_flatMap,
      readTimes_encoded (fun w hw t => ih w hw t), Step.frame_map, List.nil_append, Resp.value, valuesOf_eq_map]

end ExpressAuth.NodeRedis
