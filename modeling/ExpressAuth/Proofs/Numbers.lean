import ExpressAuth.Redis.Util

/-!
# Decimal texts in and out of 64-bit words

`ll2string` writes the decimal text of every signed word, and `string2ll` reads back exactly these
texts: a byte string is packed as an integer only if writing that integer gives the string again.
-/

namespace ExpressAuth.Redis

open Decimal

/-! ### The length -/

lemma digits10Loop_of_lt (fuel : ℕ) {v : UInt64} (h : v.toNat < 10 ^ 12) :
    digits10Loop (fuel + 1) v = (digits v.toNat).length := by
  simp only [digits10Loop, UInt64.lt_iff_toNat_lt, ge_iff_le, UInt64.le_iff_toNat_le, UInt64.reduceToNat]
  split_ifs with h10 h100 h1000 h12 h8 h6 h4 h10'
  · rw [digits_of_lt h10, List.length_singleton]
  · exact (length_digits_eq (k := 1) (by omega) (by omega)).symm
  · exact (length_digits_eq (k := 2) (by omega) (by omega)).symm
  · exact (length_digits_eq (k := 3) (by omega) (by omega)).symm
  · exact (length_digits_of_two (k := 4) (by omega) (by omega)).symm
  · exact (length_digits_of_two (k := 6) (by omega) (by omega)).symm
  · exact (length_digits_of_two (k := 8) (by omega) (by omega)).symm
  · exact (length_digits_of_two (k := 10) (by omega) (by omega)).symm
  · exact absurd h h12

lemma digits10_eq_length (v : UInt64) : digits10 v = (digits v.toNat).length := by
  by_cases h : v.toNat < 10 ^ 12
  · exact digits10Loop_of_lt 1 h
  · have hle : 10 ^ 12 ≤ v.toNat := not_lt.mp h
    have hdiv : (v / 1000000000000).toNat = v.toNat / 10 ^ 12 := UInt64.toNat_div v 1000000000000
    have hword := v.toNat_lt
    have hsmall : (v / 1000000000000).toNat < 10 ^ 12 := by omega
    rw [length_digits_div hle, ← hdiv, ← digits10Loop_of_lt 0 hsmall]
    simp only [digits10, digits10Loop, UInt64.lt_iff_toNat_lt, UInt64.reduceToNat]
    rw [if_neg (by omega), if_neg (by omega), if_neg (by omega), if_neg (by omega)]

/-- A signed word is its unsigned word, less `2 ^ 64` in the upper half. -/
lemma toInt_cases (v : Int64) :
    (v.toUInt64.toNat < 2 ^ 63 ∧ v.toInt = v.toUInt64.toNat) ∨
      (2 ^ 63 ≤ v.toUInt64.toNat ∧ v.toInt = v.toUInt64.toNat - 2 ^ 64) := by
  have hword : v.toInt = if 2 * v.toUInt64.toNat < 2 ^ 64 then (v.toUInt64.toNat : ℤ)
      else v.toUInt64.toNat - (2 ^ 64 : ℕ) := BitVec.toInt_eq_toNat_cond v.toBitVec
  split at hword
  · exact Or.inl ⟨by omega, hword⟩
  · exact Or.inr ⟨by omega, hword⟩

lemma lt_zero_iff_toInt_neg (v : Int64) : v < 0 ↔ v.toInt < 0 := by
  rw [Int64.lt_iff_toInt_lt, Int64.toInt_zero]

lemma toNat_magnitude (v : Int64) : (magnitude v).toNat = v.toInt.natAbs := by
  have hword := v.toUInt64.toNat_lt
  rw [magnitude]
  by_cases hneg : v < 0
  · rw [if_pos hneg]
    rw [lt_zero_iff_toInt_neg] at hneg
    by_cases hmin : v = Int64.minValue
    · rw [if_neg (not_not.mpr hmin), hmin, Int64.toInt_minValue]
      rfl
    · rw [if_pos hmin, Int64.toUInt64_neg, UInt64.toNat_neg, UInt64.size]
      rcases toInt_cases v with h | h <;> omega
  · rw [if_neg hneg]
    rw [lt_zero_iff_toInt_neg] at hneg
    rcases toInt_cases v with h | h <;> omega

/-! ### Writing into the buffer -/

lemma digitTable_pair : ∀ i < 100, digitTable.getD (2 * i) 0 = digit (i / 10) ∧
    digitTable.getD (2 * i + 1) 0 = digit (i % 10) := by
  decide +kernel

lemma drop_set_self {dst : List UInt8} {i : ℕ} (b : UInt8) (h : i < dst.length) :
    (dst.set i b).drop i = b :: dst.drop (i + 1) := by
  rw [List.drop_set, if_neg (lt_irrefl i), List.drop_eq_getElem_cons h, Nat.sub_self, List.set_cons_zero]

lemma length_writePair (dst : List UInt8) (next i : ℕ) : (writePair dst next i).length = dst.length := by
  rw [writePair, List.length_set, List.length_set]

lemma drop_writePair {dst : List UInt8} {next i : ℕ} (hi : i < 100) (hnext : 0 < next) (hroom : next < dst.length) :
    (writePair dst next i).drop (next - 1) = [digit (i / 10), digit (i % 10)] ++ dst.drop (next + 1) := by
  obtain ⟨htens, hones⟩ := digitTable_pair i hi
  have hlen : next - 1 < (dst.set next (digitTable.getD (2 * i + 1) 0)).length := by
    rw [List.length_set]
    omega
  rw [writePair, drop_set_self _ hlen, Nat.sub_add_cancel hnext, drop_set_self _ hroom, htens, hones]
  rfl

/-- What the loop leaves: fewer than three digits to go, and the digits taken off stand behind `next`. -/
lemma ll2stringLoop_spec (sign fuel : ℕ) {value : UInt64} {next : ℕ} {dst : List UInt8}
    (hnext : sign + (digits value.toNat).length = next + 1)
    (hfuel : (digits value.toNat).length ≤ 2 * fuel) (hroom : next < dst.length) :
    ∃ value' next' dst' written, ll2stringLoop fuel value next dst = (value', next', dst') ∧
      value'.toNat < 100 ∧ digits value.toNat = digits value'.toNat ++ written ∧
      sign + (digits value'.toNat).length = next' + 1 ∧ dst'.length = dst.length ∧
      dst'.drop (next' + 1) = written ++ dst.drop (next + 1) := by
  induction fuel generalizing value next dst with
  | zero => exact absurd (length_digits_pos value.toNat) (by omega)
  | succ fuel ih =>
    by_cases hvalue : value ≥ 100
    · have hle : 100 ≤ value.toNat := UInt64.le_iff_toNat_le.mp hvalue
      have hdiv : (value / 100).toNat = value.toNat / 100 := UInt64.toNat_div value 100
      have hmod : (value % 100).toNat = value.toNat % 100 := UInt64.toNat_mod value 100
      have hsplit := digits_of_hundred_le hle
      have hlen : (digits value.toNat).length = (digits (value / 100).toNat).length + 2 := by
        rw [hsplit, hdiv, List.length_append]
        rfl
      have hpos := length_digits_pos (value / 100).toNat
      have hroom' : next - 2 < (writePair dst next (value % 100).toNat).length := by
        rw [length_writePair]
        omega
      obtain ⟨value', next', dst', written, hloop, hlt, hdigits, hnext', hlen', hdrop⟩ :=
        ih (show sign + (digits (value / 100).toNat).length = next - 2 + 1 by omega) (by omega) hroom'
      refine ⟨value', next', dst', written ++ [digit (value.toNat % 100 / 10), digit (value.toNat % 100 % 10)],
        ?_, hlt, ?_, hnext', ?_, ?_⟩
      · rw [ll2stringLoop, if_pos hvalue, hloop]
      · rw [hsplit, ← hdiv, hdigits, List.append_assoc]
      · rw [hlen', length_writePair]
      · have hback : next - 2 + 1 = next - 1 := by omega
        rw [hdrop, hback, drop_writePair (by omega) (by omega) hroom, hmod, List.append_assoc]
    · have hlt : value.toNat < 100 := by
        have h := UInt64.not_le.mp hvalue
        exact UInt64.lt_iff_toNat_lt.mp h
      refine ⟨value, next, dst, [], ?_, hlt, (List.append_nil _).symm, hnext, rfl, rfl⟩
      rw [ll2stringLoop, if_neg hvalue]

/-- The last one or two digits. -/
lemma drop_lastDigits (sign : ℕ) {value : UInt64} {next : ℕ} {dst : List UInt8} (hlt : value.toNat < 100)
    (hnext : sign + (digits value.toNat).length = next + 1) (hroom : next < dst.length) :
    (if value < 10 then dst.set next (0x30 + value.toUInt8) else writePair dst next value.toNat).drop sign =
      digits value.toNat ++ dst.drop (next + 1) := by
  by_cases hvalue : value < 10
  · have hten : value.toNat < 10 := UInt64.lt_iff_toNat_lt.mp hvalue
    have hbyte : 0x30 + value.toUInt8 = digit value.toNat := by
      apply UInt8.toNat_inj.mp
      simp [digit]
    rw [digits_of_lt hten, List.length_singleton] at hnext
    obtain rfl : sign = next := by omega
    rw [if_pos hvalue, digits_of_lt hten, drop_set_self _ hroom, hbyte]
    rfl
  · have hten : 10 ≤ value.toNat := by
      rw [UInt64.lt_iff_toNat_lt] at hvalue
      exact not_lt.mp hvalue
    have htwo : digits value.toNat = [digit (value.toNat / 10), digit (value.toNat % 10)] := by
      rw [digits_of_le hten, digits_of_lt (by omega)]
      rfl
    rw [htwo, List.length_cons, List.length_singleton] at hnext
    obtain rfl : sign = next - 1 := by omega
    rw [if_neg hvalue, htwo, drop_writePair hlt (by omega) hroom]

lemma length_text (v : Int64) :
    (text v.toInt).length = digits10 (magnitude v) + (decide (v < 0)).toNat := by
  rw [text_eq_sign_append, List.length_append, digits10_eq_length, toNat_magnitude, Nat.add_comm]
  by_cases hneg : v < 0
  · rw [if_pos ((lt_zero_iff_toInt_neg v).mp hneg), decide_eq_true hneg]
    rfl
  · rw [if_neg (fun h => hneg ((lt_zero_iff_toInt_neg v).mpr h)), decide_eq_false hneg]
    rfl

lemma length_digits_magnitude_le (v : Int64) : (digits (magnitude v).toNat).length ≤ 20 := by
  have hword := (magnitude v).toNat_lt
  exact (length_digits_le_iff (by decide)).mpr (by omega)

/-- The sign goes in front of the digits. -/
lemma sign_written (v : Int64) {dst tail : List UInt8}
    (h : dst.drop (decide (v < 0)).toNat = digits v.toInt.natAbs ++ tail) :
    (if decide (v < 0) then dst.set 0 0x2d else dst) = text v.toInt ++ tail := by
  rw [text_eq_sign_append]
  by_cases hneg : v < 0
  · rw [decide_eq_true hneg, Bool.toNat_true] at h
    rw [if_pos (decide_eq_true hneg), if_pos ((lt_zero_iff_toInt_neg v).mp hneg), List.append_assoc, ← h]
    cases dst with
    | nil => exact absurd h.symm (by simp [digits_ne_nil])
    | cons b dst => rfl
  · rw [decide_eq_false hneg, Bool.toNat_false, List.drop_zero] at h
    rw [if_neg (by simpa using hneg), if_neg (fun hz => hneg ((lt_zero_iff_toInt_neg v).mpr hz)), h]
    rfl

/-- `ll2string` writes the decimal text and its terminator at the front of any buffer with room for
both, and leaves the bytes behind them alone; in any other buffer it writes nothing and returns 0. -/
theorem ll2string_eq_text (dst : List UInt8) (v : Int64) :
    ll2string dst v = if (text v.toInt).length < dst.length then
      ((text v.toInt).length, text v.toInt ++ 0 :: dst.drop ((text v.toInt).length + 1)) else (0, dst) := by
  have hlen := length_text v
  have hdigits := digits10_eq_length (magnitude v)
  have hpos := length_digits_pos (magnitude v).toNat
  rw [ll2string]
  by_cases hroom : (text v.toInt).length < dst.length
  · have hset : (text v.toInt).length - 1 < (dst.set (text v.toInt).length 0).length := by
      rw [List.length_set]
      omega
    have hnext : (decide (v < 0)).toNat + (digits (magnitude v).toNat).length =
        (text v.toInt).length - 1 + 1 := by omega
    obtain ⟨value, next, dst', written, hloop, hlt, hsplit, hnext', hlen', hdrop⟩ :=
      ll2stringLoop_spec _ 10 hnext (length_digits_magnitude_le v) hset
    have hback : (text v.toInt).length - 1 + 1 = (text v.toInt).length := by omega
    have hshort : (digits value.toNat).length ≤ (digits (magnitude v).toNat).length := by
      rw [hsplit, List.length_append]
      omega
    have hlast := drop_lastDigits _ hlt hnext' (show next < dst'.length by rw [hlen']; omega)
    rw [hdrop, hback, drop_set_self _ hroom, ← List.append_assoc, ← hsplit, toNat_magnitude] at hlast
    simp only [← hlen, if_pos hroom, if_neg (not_le.mpr hroom), ge_iff_le, hloop]
    rw [sign_written v hlast]
  · simp only [← hlen, if_neg hroom, if_pos (not_lt.mp hroom), ge_iff_le]

/-! ### Reading -/

lemma isDigit_iff (c : UInt8) : 0x30 ≤ c ∧ c ≤ 0x39 ↔ IsDigit c := by
  rw [UInt8.le_iff_toNat_le, UInt8.le_iff_toNat_le]
  rfl

/-- The two overflow tests together pass exactly when the next value fits a word. -/
lemma string2llLoop_cons (v : UInt64) {c : UInt8} (p : List UInt8) (hc : IsDigit c) :
    string2llLoop v (c :: p) = if 10 * v.toNat + (c.toNat - 48) < 2 ^ 64 then
      string2llLoop (UInt64.ofNat (10 * v.toNat + (c.toNat - 48))) p else none := by
  have hdigit := (isDigit_iff c).mpr hc
  have hsub : (c - 0x30).toUInt64.toNat = c.toNat - 48 := by
    rw [UInt8.toNat_toUInt64, UInt8.toNat_sub_of_le _ _ hdigit.1]
    rfl
  have hnine : c.toNat - 48 ≤ 9 := by
    have h57 := hc.2
    omega
  have hmax : (ULLONG_MAX / 10).toNat = 1844674407370955161 := rfl
  have hrest : (ULLONG_MAX - (c - 0x30).toUInt64).toNat = 18446744073709551615 - (c.toNat - 48) := by
    rw [UInt64.toNat_sub_of_le, hsub]
    · rfl
    · rw [UInt64.le_iff_toNat_le, hsub]
      exact le_trans hnine (by decide)
  rw [string2llLoop, if_pos hdigit]
  simp only [gt_iff_lt, UInt64.lt_iff_toNat_lt, hmax, hrest]
  by_cases hhigh : 1844674407370955161 < v.toNat
  · rw [if_pos hhigh, if_neg (by omega)]
  · have hmul : (v * 10).toNat = 10 * v.toNat := by
      rw [UInt64.toNat_mul, show (10 : UInt64).toNat = 10 from rfl, Nat.mod_eq_of_lt (by omega), Nat.mul_comm]
    have hnext : v * 10 + (c - 0x30).toUInt64 = UInt64.ofNat (10 * v.toNat + (c.toNat - 48)) := by
      apply UInt64.toNat_inj.mp
      rw [UInt64.toNat_add, hmul, hsub, UInt64.toNat_ofNat']
    rw [if_neg hhigh, hmul, hnext]
    by_cases hsum : 10 * v.toNat + (c.toNat - 48) < 2 ^ 64
    · rw [if_pos hsum, if_neg (by omega)]
    · rw [if_neg hsum, if_pos (by omega)]

lemma string2llLoop_eq_some_iff (v w : UInt64) (p : List UInt8) :
    string2llLoop v p = some w ↔ (∀ b ∈ p, IsDigit b) ∧ w.toNat = value v.toNat p := by
  induction p generalizing v with
  | nil =>
    rw [string2llLoop, Option.some_inj, ← UInt64.toNat_inj]
    simp [eq_comm]
  | cons c p ih =>
    rw [value_cons, List.forall_mem_cons]
    by_cases hc : IsDigit c
    · rw [string2llLoop_cons v p hc]
      by_cases hfits : 10 * v.toNat + (c.toNat - 48) < 2 ^ 64
      · rw [if_pos hfits, ih, UInt64.toNat_ofNat_of_lt' hfits]
        simp only [hc, true_and]
      · have hgrow := le_value (10 * v.toNat + (c.toNat - 48)) p
        have hword := w.toNat_lt
        rw [if_neg hfits]
        exact ⟨fun h => absurd h (by simp), fun h => absurd h.2 (by omega)⟩
    · rw [string2llLoop, if_neg (fun h => hc ((isDigit_iff c).mp h))]
      exact ⟨fun h => absurd h (by simp), fun h => absurd h.1.1 hc⟩

/-- The signed word that the digits of `n` are read as, if it exists. -/
lemma signed_eq_some_iff (negative : Bool) (v : UInt64) (z : Int64) :
    (if negative then if v > LLONG_MAX + 1 then none else some (-v).toInt64
      else if v > LLONG_MAX then none else some v.toInt64) = some z ↔
      z.toInt = if negative then -(v.toNat : ℤ) else v.toNat := by
  have hword := v.toNat_lt
  have hmax : LLONG_MAX.toNat = 9223372036854775807 := rfl
  have hmin : (LLONG_MAX + 1).toNat = 9223372036854775808 := rfl
  have hlow := z.le_toInt
  have hhigh := z.toInt_lt
  cases negative with
  | true =>
    simp only [if_true, gt_iff_lt, UInt64.lt_iff_toNat_lt, hmin]
    by_cases h : 9223372036854775808 < v.toNat
    · rw [if_pos h]
      exact ⟨fun h => absurd h (by simp), fun hz => absurd hz (by omega)⟩
    · rw [if_neg h, Option.some_inj, ← Int64.toInt_inj, eq_comm]
      have hneg : (-v).toInt64.toInt = -(v.toNat : ℤ) := by
        have hcases := toInt_cases (-v).toInt64
        rw [UInt64.toUInt64_toInt64, UInt64.toNat_neg, UInt64.size] at hcases
        omega
      rw [hneg]
  | false =>
    simp only [Bool.false_eq_true, if_false, gt_iff_lt, UInt64.lt_iff_toNat_lt, hmax]
    by_cases h : 9223372036854775807 < v.toNat
    · rw [if_pos h]
      exact ⟨fun h => absurd h (by simp), fun hz => absurd hz (by omega)⟩
    · rw [if_neg h, Option.some_inj, ← Int64.toInt_inj, eq_comm]
      have hpos : v.toInt64.toInt = (v.toNat : ℤ) := by
        have hcases := toInt_cases v.toInt64
        rw [UInt64.toUInt64_toInt64] at hcases
        omega
      rw [hpos]

/-- Behind a first digit from 1 to 9 exactly the digits of the result are read. -/
lemma string2llLoop_first_eq_some_iff {c : UInt8} (hc : 0x31 ≤ c ∧ c ≤ 0x39) (p : List UInt8) (v : UInt64) :
    string2llLoop (c - 0x30).toUInt64 p = some v ↔ c :: p = digits v.toNat := by
  have hlow : 49 ≤ c.toNat := UInt8.le_iff_toNat_le.mp hc.1
  have hhigh : c.toNat ≤ 57 := UInt8.le_iff_toNat_le.mp hc.2
  have hdigit : IsDigit c := ⟨by omega, hhigh⟩
  have hsub : (c - 0x30).toUInt64.toNat = c.toNat - 48 := by
    rw [UInt8.toNat_toUInt64, UInt8.toNat_sub_of_le _ _ ((isDigit_iff c).mpr hdigit).1]
    rfl
  have hfirst : digits (c.toNat - 48) = [c] := by
    rw [digits_of_lt (by omega), digit_of_isDigit hdigit]
  have hwhole (hall : ∀ b ∈ p, IsDigit b) : digits (value (c.toNat - 48) p) = c :: p := by
    rw [digits_value (by omega) hall, hfirst]
    rfl
  rw [string2llLoop_eq_some_iff, hsub]
  constructor
  · rintro ⟨hall, hv⟩
    rw [hv, hwhole hall]
  · intro h
    have hall : ∀ b ∈ p, IsDigit b := fun b hb =>
      isDigit_of_mem (n := v.toNat) (h ▸ List.mem_cons_of_mem c hb)
    refine ⟨hall, digits_injective ?_⟩
    rw [hwhole hall, h]

/-- Behind the sign exactly the digits of a positive number are read. -/
lemma string2llDigits_eq_some_iff {slen : ℕ} (negative : Bool) {s : List UInt8} (z : Int64)
    (hzero : s.head? = some 0x30 → slen ≠ 1) :
    string2llDigits slen negative s = some z ↔
      ∃ n, 0 < n ∧ s = digits n ∧ z.toInt = if negative then -(n : ℤ) else n := by
  cases s with
  | nil =>
    rw [string2llDigits]
    exact ⟨fun h => absurd h (by simp), fun ⟨n, _, h, _⟩ => absurd h.symm (digits_ne_nil n)⟩
  | cons c p =>
    by_cases hc : 0x31 ≤ c ∧ c ≤ 0x39
    · rw [string2llDigits, if_pos hc]
      constructor
      · intro h
        cases hloop : string2llLoop (c - 0x30).toUInt64 p with
        | none =>
          rw [hloop] at h
          exact absurd h (by simp)
        | some v =>
          rw [hloop] at h
          have hdigits := (string2llLoop_first_eq_some_iff hc p v).mp hloop
          refine ⟨v.toNat, ?_, hdigits, (signed_eq_some_iff negative v z).mp h⟩
          by_contra hv
          rw [Nat.eq_zero_of_not_pos hv, digits_of_lt (by decide), List.cons.injEq] at hdigits
          rw [hdigits.1] at hc
          exact absurd hc (by decide)
      · rintro ⟨n, -, hs, hz⟩
        have hbound : n < 2 ^ 64 := by
          have hlow := z.le_toInt
          have hhigh := z.toInt_lt
          cases negative <;> simp at hz <;> omega
        have hword : (UInt64.ofNat n).toNat = n := UInt64.toNat_ofNat_of_lt' hbound
        rw [← hword] at hs hz
        rw [(string2llLoop_first_eq_some_iff hc p _).mpr hs]
        exact (signed_eq_some_iff negative _ z).mpr hz
    · rw [string2llDigits, if_neg hc, if_neg]
      · refine ⟨fun h => absurd h (by simp), fun ⟨n, hn, hs, _⟩ => absurd ?_ hc⟩
        obtain ⟨b, bs, hdigits, hb⟩ := exists_digits_of_pos hn
        rw [hdigits, List.cons.injEq] at hs
        rw [hs.1]
        exact ⟨UInt8.le_iff_toNat_le.mpr hb.1, UInt8.le_iff_toNat_le.mpr hb.2⟩
      · rintro ⟨rfl, hlen⟩
        exact hzero rfl hlen

/-- `string2ll` accepts exactly the texts that `ll2string` writes: no sign but `-`, no leading zero, no
space, nothing outside 64 bits. -/
theorem string2ll_eq_some_iff (s : List UInt8) (v : Int64) :
    string2ll s = some v ↔ s = text v.toInt := by
  cases s with
  | nil =>
    have hne : text v.toInt ≠ [] := by
      rw [text_eq_sign_append]
      simp [digits_ne_nil]
    rw [string2ll]
    exact ⟨fun h => absurd h (by simp), fun h => absurd h.symm hne⟩
  | cons c p =>
    rw [string2ll]
    by_cases hzero : (c :: p).length = 1 ∧ c = 0x30
    · obtain ⟨hlen, rfl⟩ := hzero
      obtain rfl : p = [] := List.length_eq_zero_iff.mp (Nat.succ.inj hlen)
      have htext : [0x30] = text (0 : Int64).toInt := rfl
      rw [if_pos ⟨rfl, rfl⟩, Option.some_inj, htext, ← Int64.toInt_inj]
      exact text_injective.eq_iff.symm
    · rw [if_neg hzero, eq_text_iff]
      by_cases hminus : c = 0x2d
      · subst hminus
        rw [if_pos rfl, string2llDigits_eq_some_iff true v (fun hhead => ?_)]
        · simp [minus_cons_ne_digits]
        · cases p with
          | nil => exact absurd hhead (by simp)
          | cons b p => simp
      · rw [if_neg hminus, string2llDigits_eq_some_iff false v (fun hhead hlen => ?_)]
        · constructor
          · rintro ⟨n, -, hs, hv⟩
            exact Or.inl ⟨n, hs, hv⟩
          · rintro (⟨n, hs, hv⟩ | ⟨n, -, hs, -⟩)
            · refine ⟨n, Nat.pos_of_ne_zero ?_, hs, hv⟩
              rintro rfl
              rw [digits_of_lt (by decide), List.cons.injEq] at hs
              exact hzero ⟨by simp [hs.2], hs.1⟩
            · exact absurd (List.cons.inj hs).1 hminus
        · exact hzero ⟨hlen, Option.some_inj.mp hhead⟩

/-- The longest text is that of the least word, with a sign and nineteen digits. -/
lemma length_text_le (v : Int64) : (text v.toInt).length ≤ 20 := by
  have hlow := Int64.le_toInt v
  have hhigh := Int64.toInt_lt v
  have hdigits : (digits v.toInt.natAbs).length ≤ 19 := (length_digits_le_iff (by decide)).mpr (by omega)
  rw [text_eq_sign_append, List.length_append]
  split_ifs
  · rw [List.length_singleton]
    omega
  · rw [List.length_nil]
    omega

/-- The two directions agree on every word and every byte string. With the room that the server gives
`ll2string` everywhere, `string2ll` reads a word from a string exactly if `ll2string` writes that string
for it, followed by the terminator and the old bytes of the buffer. -/
theorem string2ll_iff_ll2string (s dst : List UInt8) (v : Int64) (hroom : 21 ≤ dst.length) :
    string2ll s = some v ↔ ll2string dst v = (s.length, s ++ 0 :: dst.drop (s.length + 1)) := by
  have hlen := length_text_le v
  rw [string2ll_eq_some_iff, ll2string_eq_text, if_pos (by omega)]
  constructor
  · rintro rfl
    rfl
  · intro h
    rw [Prod.mk.injEq] at h
    exact (List.append_inj_left h.2 h.1).symm

theorem string2ll_iff_ll2string_minus :
    21 ≤ (List.replicate 21 (0 : UInt8)).length ∧ string2ll [0x2d, 0x34, 0x32] = some (-42) ∧
      ll2string (List.replicate 21 0) (-42) = (3, [0x2d, 0x34, 0x32] ++ 0 :: (List.replicate 21 0).drop 4) := by
  have hread : string2ll [0x2d, 0x34, 0x32] = some (-42) := by decide
  exact ⟨by decide, hread, (string2ll_iff_ll2string [0x2d, 0x34, 0x32] (List.replicate 21 0) (-42) (by decide)).mp hread⟩

end ExpressAuth.Redis
