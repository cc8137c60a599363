import Mathlib.Data.Nat.Digits.Lemmas
import Mathlib.Data.UInt
import Mathlib.Tactic.IntervalCases
import Mathlib.Tactic.Ring
import Mathlib.Tactic.Positivity

/-!
# Decimal texts

The bytes of whole numbers in base ten, without leading zeros and with `-` before a negative one.
-/

namespace Decimal

/-- The byte of one digit. -/
def digit (d : ℕ) : UInt8 := UInt8.ofNat (48 + d)

def digits (n : ℕ) : List UInt8 := (Nat.toDigits 10 n).map (fun c => UInt8.ofNat c.toNat)

def text : ℤ → List UInt8
  | .ofNat n => digits n
  | .negSucc n => 0x2d :: digits (n + 1)

def IsDigit (b : UInt8) : Prop := 48 ≤ b.toNat ∧ b.toNat ≤ 57

instance (b : UInt8) : Decidable (IsDigit b) := inferInstanceAs (Decidable (_ ∧ _))

lemma toNat_digit {d : ℕ} (h : d < 10) : (digit d).toNat = 48 + d :=
  UInt8.toNat_ofNat_of_lt' (by rw [UInt8.size]; omega)

lemma isDigit_digit {d : ℕ} (h : d < 10) : IsDigit (digit d) := by
  rw [IsDigit, toNat_digit h]
  omega

/-- A digit byte is the digit of its value. -/
lemma digit_of_isDigit {b : UInt8} (h : IsDigit b) : digit (b.toNat - 48) = b := by
  rw [digit, Nat.add_sub_cancel' h.1, UInt8.ofNat_toNat]

lemma digitChar_byte {d : ℕ} (h : d < 10) : UInt8.ofNat (Nat.digitChar d).toNat = digit d := by
  interval_cases d <;> rfl

lemma digits_of_lt {n : ℕ} (h : n < 10) : digits n = [digit n] := by
  rw [digits, Nat.toDigits_of_lt_base h, List.map_singleton, digitChar_byte h]

/-- The last digit comes off the end. -/
lemma digits_of_le {n : ℕ} (h : 10 ≤ n) : digits n = digits (n / 10) ++ [digit (n % 10)] := by
  rw [digits, Nat.toDigits_of_base_le (by decide) h, List.map_append, List.map_singleton,
    digitChar_byte (Nat.mod_lt n (by decide))]
  rfl

lemma digits_append {n d : ℕ} (hn : 0 < n) (hd : d < 10) : digits n ++ [digit d] = digits (10 * n + d) := by
  have hdiv : (10 * n + d) / 10 = n := by omega
  have hmod : (10 * n + d) % 10 = d := by omega
  have hle : 10 ≤ 10 * n + d := by omega
  rw [digits_of_le hle, hdiv, hmod]

lemma isDigit_of_mem {n : ℕ} {b : UInt8} (h : b ∈ digits n) : IsDigit b := by
  induction n using Nat.strong_induction_on with
  | _ n ih =>
    by_cases hn : n < 10
    · rw [digits_of_lt hn, List.mem_singleton] at h
      exact h ▸ isDigit_digit hn
    · rw [digits_of_le (not_lt.mp hn), List.mem_append, List.mem_singleton] at h
      rcases h with h | rfl
      · exact ih (n / 10) (by omega) h
      · exact isDigit_digit (Nat.mod_lt n (by decide))

lemma digits_ne_nil (n : ℕ) : digits n ≠ [] := by
  simp [digits, Nat.toDigits_ne_nil]

lemma length_digits_pos (n : ℕ) : 0 < (digits n).length := List.length_pos_iff.mpr (digits_ne_nil n)

lemma length_digits_le_iff {n k : ℕ} (hk : 0 < k) : (digits n).length ≤ k ↔ n < 10 ^ k := by
  rw [digits, List.length_map]
  exact Nat.length_toDigits_le_iff (by decide) hk

lemma length_digits_eq {n k : ℕ} (hlow : 10 ^ k ≤ n) (hhigh : n < 10 ^ (k + 1)) : (digits n).length = k + 1 := by
  apply le_antisymm ((length_digits_le_iff (by omega)).mpr hhigh)
  by_contra hlt
  rcases Nat.eq_zero_or_pos k with rfl | hk
  · exact absurd (length_digits_pos n) (by omega)
  · have hshort : (digits n).length ≤ k := by omega
    exact absurd ((length_digits_le_iff hk).mp hshort) (not_lt.mpr hlow)

/-- Two lengths in a row, told apart by one comparison. -/
lemma length_digits_of_two {n k : ℕ} (hlow : 10 ^ k ≤ n) (hhigh : n < 10 ^ (k + 2)) :
    (digits n).length = k + 1 + (decide (10 ^ (k + 1) ≤ n)).toNat := by
  by_cases h : 10 ^ (k + 1) ≤ n
  · rw [length_digits_eq h hhigh, decide_eq_true h, Bool.toNat_true]
  · rw [length_digits_eq hlow (not_le.mp h), decide_eq_false h, Bool.toNat_false]

/-- Dividing by a power of ten takes that many digits off the end. -/
lemma length_digits_div {n k : ℕ} (h : 10 ^ k ≤ n) : (digits n).length = k + (digits (n / 10 ^ k)).length := by
  induction k generalizing n with
  | zero => simp
  | succ k ih =>
    have hpow : 10 ^ (k + 1) = 10 * 10 ^ k := by ring
    have hpos : 0 < 10 ^ k := by positivity
    have hten : 10 ≤ n := by omega
    have hdiv : 10 ^ k ≤ n / 10 := by omega
    rw [digits_of_le hten, List.length_append, ih hdiv, Nat.div_div_eq_div_mul, ← hpow]
    simp only [List.length_singleton]
    omega

/-- The last two digits come off together. -/
lemma digits_of_hundred_le {n : ℕ} (h : 100 ≤ n) :
    digits n = digits (n / 100) ++ [digit (n % 100 / 10), digit (n % 100 % 10)] := by
  have hones : n % 10 = n % 100 % 10 := by omega
  have htens : n / 10 % 10 = n % 100 / 10 := by omega
  have hten : 10 ≤ n := by omega
  have hdiv : 10 ≤ n / 10 := by omega
  rw [digits_of_le hten, digits_of_le hdiv, Nat.div_div_eq_div_mul, hones, htens, List.append_assoc]
  rfl

/-! ### Reading digits back -/

/-- The number that `v` followed by the digits `bs` stands for. -/
def value (v : ℕ) (bs : List UInt8) : ℕ := bs.foldl (fun v b => 10 * v + (b.toNat - 48)) v

@[simp] lemma value_nil (v : ℕ) : value v [] = v := rfl

@[simp] lemma value_cons (v : ℕ) (b : UInt8) (bs : List UInt8) :
    value v (b :: bs) = value (10 * v + (b.toNat - 48)) bs := by
  rw [value, List.foldl_cons, value]

lemma le_value (v : ℕ) (bs : List UInt8) : v ≤ value v bs := by
  induction bs generalizing v with
  | nil => exact le_rfl
  | cons b bs ih =>
    rw [value_cons]
    exact le_trans (by omega) (ih _)

/-- Digits behind a positive number are the digits of the whole. -/
lemma digits_value {v : ℕ} (hv : 0 < v) {bs : List UInt8} (h : ∀ b ∈ bs, IsDigit b) :
    digits (value v bs) = digits v ++ bs := by
  induction bs generalizing v with
  | nil => simp
  | cons b bs ih =>
    have hb := h b List.mem_cons_self
    have hlt : b.toNat - 48 < 10 := by
      have h57 := hb.2
      omega
    have hpush := digits_append hv hlt
    rw [digit_of_isDigit hb] at hpush
    rw [value_cons, ih (by omega) (fun c hc => h c (List.mem_cons_of_mem b hc)), ← hpush, List.append_assoc]
    rfl

lemma value_digits (n : ℕ) : value 0 (digits n) = n := by
  induction n using Nat.strong_induction_on with
  | _ n ih =>
    by_cases hn : n < 10
    · rw [digits_of_lt hn, value_cons, toNat_digit hn, value_nil]
      omega
    · have hsplit := ih (n / 10) (by omega)
      rw [digits_of_le (not_lt.mp hn), value, List.foldl_append]
      rw [value] at hsplit
      rw [hsplit, List.foldl_cons, toNat_digit (Nat.mod_lt n (by decide)), List.foldl_nil]
      omega

lemma digits_injective : Function.Injective digits := by
  intro n m h
  rw [← value_digits n, h, value_digits]

/-- A positive number begins with one of the digits from 1 to 9. -/
lemma exists_digits_of_pos {n : ℕ} (hn : 0 < n) :
    ∃ b bs, digits n = b :: bs ∧ 49 ≤ b.toNat ∧ b.toNat ≤ 57 := by
  induction n using Nat.strong_induction_on with
  | _ n ih =>
    by_cases hlt : n < 10
    · refine ⟨digit n, [], digits_of_lt hlt, ?_⟩
      rw [toNat_digit hlt]
      omega
    · obtain ⟨b, bs, hdigits, hb⟩ := ih (n / 10) (by omega) (by omega)
      refine ⟨b, bs ++ [digit (n % 10)], ?_, hb⟩
      rw [digits_of_le (not_lt.mp hlt), hdigits]
      rfl

lemma text_natCast (n : ℕ) : text n = digits n := rfl

lemma text_neg {n : ℕ} (hn : 0 < n) : text (-(n : ℤ)) = 0x2d :: digits n := by
  cases n with
  | zero => exact absurd hn (by decide)
  | succ n => rfl

lemma text_eq_sign_append (z : ℤ) :
    text z = (if z < 0 then [0x2d] else []) ++ digits z.natAbs := by
  cases z with
  | ofNat n => simp [text]
  | negSucc n => simp [text, Int.negSucc_lt_zero]

/-- A decimal text is that of a number from zero on, or a minus sign before the digits of a positive one. -/
lemma eq_text_iff (s : List UInt8) (z : ℤ) :
    s = text z ↔ (∃ n : ℕ, s = digits n ∧ z = n) ∨ ∃ n : ℕ, 0 < n ∧ s = 0x2d :: digits n ∧ z = -n := by
  constructor
  · rintro rfl
    cases z with
    | ofNat n => exact Or.inl ⟨n, rfl, rfl⟩
    | negSucc n => exact Or.inr ⟨n + 1, Nat.succ_pos n, rfl, rfl⟩
  · rintro (⟨n, rfl, rfl⟩ | ⟨n, hn, rfl, rfl⟩)
    · rfl
    · rw [text_neg hn]

/-- No digit is a minus sign. -/
lemma minus_cons_ne_digits (p : List UInt8) (n : ℕ) : 0x2d :: p ≠ digits n := by
  intro h
  have hdigit : IsDigit 0x2d := isDigit_of_mem (n := n) (h ▸ List.mem_cons_self)
  exact absurd hdigit (by decide)

lemma text_injective : Function.Injective text := by
  intro z w h
  have hz := (eq_text_iff (text z) z).mp rfl
  have hw := (eq_text_iff (text z) w).mp h
  generalize text z = s at hz hw
  rcases hz with ⟨n, rfl, rfl⟩ | ⟨n, -, rfl, rfl⟩ <;> rcases hw with ⟨m, hm, rfl⟩ | ⟨m, -, hm, rfl⟩
  · rw [digits_injective hm]
  · exact absurd hm.symm (minus_cons_ne_digits _ n)
  · exact absurd hm (minus_cons_ne_digits _ m)
  · rw [digits_injective (List.cons.inj hm).2]

end Decimal
