import ExpressAuth.Library.Ring
import ExpressAuth.Library.Runs
import ExpressAuth.NodeRedis.Deque
import Mathlib.Data.Nat.Log

/-!
# The queue behaves as a list

Every operation of the queue answers and acts as the same operation on a list, on whole runs and through
every growth of the ring, as long as the list never has more than `2 ^ 30` items. The capacity stops
growing there.
-/

namespace ExpressAuth.NodeRedis

open Ring

/-! ### Capacities -/

/-- No bit above `t` is set, and the `m` bits from `t` downwards are. -/
structure Smeared (m t x : ℕ) : Prop where
  above : ∀ i, t < i → x.testBit i = false
  below : ∀ i ≤ t, t < i + m → x.testBit i = true

lemma Smeared.shift {m t x : ℕ} (h : Smeared m t x) : Smeared (2 * m) t (x ||| x >>> m) := by
  constructor
  · intro i hi
    rw [Nat.testBit_or, Nat.testBit_shiftRight, h.above i hi, h.above (m + i) (by omega)]
    rfl
  · intro i hle hlt
    rw [Nat.testBit_or, Nat.testBit_shiftRight]
    rcases Nat.lt_or_ge t (i + m) with hnear | hfar
    · rw [h.below i hle hnear, Bool.true_or]
    · rw [h.below (m + i) (by omega) (by omega), Bool.or_true]

lemma Smeared.eq_of_lt {m t x : ℕ} (h : Smeared m t x) (ht : t < m) : x = 2 ^ (t + 1) - 1 := by
  apply Nat.eq_of_testBit_eq
  intro i
  rw [Nat.testBit_two_pow_sub_one]
  rcases Nat.lt_or_ge t i with hi | hi
  · rw [h.above i hi, decide_eq_false (by omega)]
  · rw [h.below i hi (by omega), decide_eq_true (by omega)]

lemma smeared_of_top {t x : ℕ} (hlow : 2 ^ t ≤ x) (hhigh : x < 2 ^ (t + 1)) : Smeared 1 t x := by
  constructor
  · intro i hi
    exact Nat.testBit_lt_two_pow (hhigh.trans_le (Nat.pow_le_pow_right (by decide) hi))
  · intro i hle hlt
    obtain rfl : i = t := by omega
    exact Nat.testBit_of_two_pow_le_and_two_pow_add_one_gt hlow hhigh

lemma pow2AtLeast_eq {t n : ℕ} (hlow : 2 ^ t < n) (hhigh : n ≤ 2 ^ (t + 1)) (ht : t < 32) :
    pow2AtLeast n = 2 ^ (t + 1) := by
  have htop : Smeared 1 t (n - 1) := smeared_of_top (by omega) (by omega)
  have hall := htop.shift.shift.shift.shift.shift.eq_of_lt ht
  have hpos := Nat.two_pow_pos (t + 1)
  calc pow2AtLeast n = 2 ^ (t + 1) - 1 + 1 := congrArg (· + 1) hall
    _ = 2 ^ (t + 1) := by omega

/-- Between 16 and the largest capacity there is always a next power of two. -/
lemma getCapacity_eq {k n : ℕ} (hlow : 2 ^ k < n) (hhigh : n ≤ 2 ^ (k + 1)) (hmin : 4 ≤ k) (hmax : k < 30) :
    getCapacity n = 2 ^ (k + 1) := by
  have h16 : 2 ^ 4 ≤ 2 ^ k := Nat.pow_le_pow_right (by decide) hmin
  have h30 : 2 ^ (k + 1) ≤ 2 ^ 30 := Nat.pow_le_pow_right (by decide) hmax
  have hrange : min (max 16 n) 1073741824 = n := by omega
  rw [getCapacity, hrange]
  exact pow2AtLeast_eq hlow hhigh (by omega)

/-- A full ring becomes at least twice as large, below the largest capacity. -/
lemma exists_getCapacity_grown {k : ℕ} (hmin : 4 ≤ k) (hmax : k < 30) :
    ∃ k', getCapacity (2 ^ k + 2 ^ k / 2 + 16) = 2 ^ k' ∧ k < k' ∧ k' ≤ 30 := by
  rcases Nat.eq_or_lt_of_le hmin with rfl | hk
  · exact ⟨6, getCapacity_eq (by decide) (by decide) (by decide) (by decide), by decide, by decide⟩
  · have h32 : 2 ^ 5 ≤ 2 ^ k := Nat.pow_le_pow_right (by decide) hk
    have hdouble : 2 ^ (k + 1) = 2 ^ k * 2 := Nat.pow_succ 2 k
    exact ⟨k + 1, getCapacity_eq (by omega) (by omega) hmin hmax, by omega, by omega⟩

namespace Deque

variable {α : Type*}

/-! ### Keys -/

lemma index_eq_mod (k front j : ℕ) : index (2 ^ k) front j = (front + j) % 2 ^ k :=
  Nat.and_two_pow_sub_one_eq_mod (front + j) k

lemma xor_two_pow {x k : ℕ} (h : x < 2 ^ k) : x ^^^ 2 ^ k = x + 2 ^ k := by
  have hor : 2 ^ k * 1 + x = 2 ^ k * 1 ||| x := Nat.two_pow_add_eq_or_of_lt h 1
  rw [Nat.mul_one] at hor
  rw [Nat.add_comm, hor]
  apply Nat.eq_of_testBit_eq
  intro i
  rw [Nat.testBit_xor, Nat.testBit_or, Nat.testBit_two_pow]
  by_cases hi : k = i
  · subst hi
    rw [Nat.testBit_lt_two_pow h, decide_eq_true rfl]
    rfl
  · rw [decide_eq_false hi, Bool.xor_false, Bool.false_or]

/-- The masks and the exclusive or of the source take one step back around the ring. -/
lemma indexBefore_spec {k front : ℕ} (hmax : k ≤ 30) (hfront : front < 2 ^ k) :
    indexBefore (2 ^ k) front < 2 ^ k ∧ (indexBefore (2 ^ k) front + 1) % 2 ^ k = front := by
  have hpos := Nat.two_pow_pos k
  have h30 : 2 ^ k ≤ 2 ^ 30 := Nat.pow_le_pow_right (by decide) hmax
  have hmask : (BitVec.ofNat 32 (2 ^ k - 1)).toNat = 2 ^ k - 1 := by
    rw [BitVec.toNat_ofNat, Nat.mod_eq_of_lt (by omega)]
  have hcap : (BitVec.ofNat 32 (2 ^ k)).toNat = 2 ^ k := by
    rw [BitVec.toNat_ofNat, Nat.mod_eq_of_lt (by omega)]
  have hmasked (b : BitVec 32) : ((b &&& BitVec.ofNat 32 (2 ^ k - 1)) ^^^ BitVec.ofNat 32 (2 ^ k)).toNat - 2 ^ k =
      b.toNat % 2 ^ k := by
    rw [BitVec.toNat_xor, BitVec.toNat_and, hmask, hcap, Nat.and_two_pow_sub_one_eq_mod,
      xor_two_pow (Nat.mod_lt _ hpos), Nat.add_sub_cancel]
  have hbefore : indexBefore (2 ^ k) front = (BitVec.ofInt 32 ((front : ℤ) - 1)).toNat % 2 ^ k := hmasked _
  rw [hbefore]
  refine ⟨Nat.mod_lt _ hpos, ?_⟩
  cases front with
  | zero =>
    have hones : (BitVec.ofInt 32 (((0 : ℕ) : ℤ) - 1)).toNat + 1 = 2 ^ 32 := by decide
    rw [Nat.mod_add_mod, hones]
    exact Nat.mod_eq_zero_of_dvd (Nat.pow_dvd_pow 2 (by omega))
  | succ front =>
    have hint : (((front + 1 : ℕ) : ℤ) - 1) = (front : ℤ) := by omega
    rw [hint, BitVec.ofInt_natCast, BitVec.toNat_ofNat, Nat.mod_eq_of_lt (a := front) (by omega),
      Nat.mod_eq_of_lt (a := front) (by omega), Nat.mod_eq_of_lt hfront]

/-! ### Growth -/

lemma arrayMove_succ (slots : ℕ → Option α) (cap len : ℕ) :
    arrayMove slots 0 cap (len + 1) =
      Function.update (Function.update (arrayMove slots 0 cap len) (len + cap)
        (arrayMove slots 0 cap len len)) len none := by
  rw [arrayMove, List.range_succ, List.foldl_append]
  rfl

/-- The slots from `len` to `cap` stay. -/
lemma arrayMove_of_lt (slots : ℕ → Option α) {cap len i : ℕ} (hle : len ≤ i) (hlt : i < cap) :
    arrayMove slots 0 cap len i = slots i := by
  induction len with
  | zero => rfl
  | succ len ih =>
    rw [arrayMove_succ, Function.update_of_ne (by omega), Function.update_of_ne (by omega), ih (by omega)]

/-- The first `len` slots are found behind the old end. -/
lemma arrayMove_moved (slots : ℕ → Option α) {cap len i : ℕ} (hlen : len ≤ cap) (hi : i < len) :
    arrayMove slots 0 cap len (cap + i) = slots i := by
  induction len with
  | zero => exact absurd hi (Nat.not_lt_zero i)
  | succ len ih =>
    rw [arrayMove_succ, Function.update_of_ne (by omega)]
    rcases Nat.eq_or_lt_of_le (Nat.le_of_lt_succ hi) with rfl | hlt
    · rw [Nat.add_comm cap i, Function.update_self, arrayMove_of_lt slots le_rfl (by omega)]
    · rw [Function.update_of_ne (by omega), ih (by omega) hlt]

/-- The queue holds a list: the capacity is a power of two in its range, and the window of the ring from
the front on is the list. -/
structure Represents (d : Deque α) (xs : List α) : Prop where
  capacity : ∃ k, d.capacity = 2 ^ k ∧ 4 ≤ k ∧ k ≤ 30
  front_lt : d.front < d.capacity
  length_eq : d.length = xs.length
  window : Window d.slots d.capacity d.front xs

lemma represents_new : Represents (new : Deque α) [] :=
  ⟨⟨4, rfl, by decide, by decide⟩, Nat.zero_lt_succ 15, rfl, window_nil⟩

lemma Represents.index_eq {d : Deque α} {xs : List α} (h : Represents d xs) (front j : ℕ) :
    index d.capacity front j = (front + j) % d.capacity := by
  obtain ⟨k, hk, -, -⟩ := h.capacity
  rw [hk, index_eq_mod]

lemma Represents.length_le {d : Deque α} {xs : List α} (h : Represents d xs) : xs.length ≤ d.capacity :=
  h.window.length_le

/-- A full ring below the largest capacity grows and keeps its list. -/
lemma Represents.resizeTo {d : Deque α} {xs : List α} (h : Represents d xs) {k : ℕ}
    (hgrow : 2 * d.capacity ≤ 2 ^ k) (hmin : 4 ≤ k) (hmax : k ≤ 30) : Represents (d.resizeTo (2 ^ k)) xs := by
  have hfront := h.front_lt
  have hlen := h.length_le
  have hlength := h.length_eq
  have hmask : (d.front + d.length) &&& (d.capacity - 1) = (d.front + d.length) % d.capacity :=
    h.index_eq d.front d.length
  rw [Deque.resizeTo]
  by_cases hwrap : d.front + d.length > d.capacity
  · rw [if_pos hwrap]
    have hmoved : (d.front + d.length) &&& (d.capacity - 1) = d.front + d.length - d.capacity := by
      rw [hmask, place_of_le (by omega) (by omega)]
    dsimp only
    rw [hmoved]
    refine ⟨⟨k, rfl, hmin, hmax⟩, by dsimp only; omega, hlength, h.window.grow hfront hgrow ?_ ?_⟩
    · intro i hle hlt
      exact arrayMove_of_lt d.slots (by omega) hlt
    · intro i hi
      exact arrayMove_moved d.slots (by omega) (by omega)
  · rw [if_neg hwrap]
    refine ⟨⟨k, rfl, hmin, hmax⟩, by dsimp only; omega, hlength, h.window.grow hfront hgrow ?_ ?_⟩
    · intro i _ _
      rfl
    · intro i hi
      omega

/-- After the check there is room for one more item. -/
lemma Represents.checkCapacity {d : Deque α} {xs : List α} (h : Represents d xs) (hroom : xs.length < 2 ^ 30) :
    Represents (d.checkCapacity (d.length + 1)) xs ∧ xs.length < (d.checkCapacity (d.length + 1)).capacity := by
  have hlen := h.length_le
  have hlength := h.length_eq
  rw [Deque.checkCapacity]
  by_cases hfull : d.capacity < d.length + 1
  · obtain ⟨k, hk, hmin, hmax⟩ := h.capacity
    have hlt : k < 30 := by
      rcases Nat.lt_or_ge k 30 with hlt | hge
      · exact hlt
      · obtain rfl : k = 30 := by omega
        omega
    obtain ⟨k', hk', hkk', hmax'⟩ := exists_getCapacity_grown hmin hlt
    have hdouble : 2 * d.capacity ≤ 2 ^ k' := by
      rw [hk, Nat.mul_comm, ← Nat.pow_succ]
      exact Nat.pow_le_pow_right (by decide) hkk'
    have hcap : (d.resizeTo (2 ^ k')).capacity = 2 ^ k' := by
      rw [Deque.resizeTo]
      split_ifs
      · rfl
      · rfl
    have hpos := Nat.two_pow_pos k
    rw [if_pos hfull, hk, hk']
    refine ⟨h.resizeTo hdouble (by omega) hmax', ?_⟩
    rw [hcap]
    omega
  · rw [if_neg hfull]
    exact ⟨h, by omega⟩

/-! ### Operations -/

lemma Represents.pushItem {d : Deque α} {xs : List α} (h : Represents d xs) (hroom : xs.length < 2 ^ 30) (x : α) :
    Represents (d.pushItem x) (xs ++ [x]) := by
  obtain ⟨hgrown, hlt⟩ := h.checkCapacity hroom
  have hwindow := hgrown.window.append hlt x
  rw [← hgrown.length_eq, ← hgrown.index_eq] at hwindow
  exact ⟨hgrown.capacity, hgrown.front_lt, by simp [Deque.pushItem, hgrown.length_eq], hwindow⟩

lemma Represents.pushItems {d : Deque α} {xs : List α} (h : Represents d xs) (items : List α)
    (hroom : xs.length + items.length ≤ 2 ^ 30) : Represents (items.foldl Deque.pushItem d) (xs ++ items) := by
  induction items generalizing d xs with
  | nil => rwa [List.append_nil]
  | cons x items ih =>
    rw [List.length_cons] at hroom
    have hnext := ih (h.pushItem (by omega) x) (by rw [List.length_append, List.length_singleton]; omega)
    rwa [List.append_assoc, List.singleton_append] at hnext

lemma length_checkCapacity (d : Deque α) (size : ℕ) : (d.checkCapacity size).length = d.length := by
  rw [Deque.checkCapacity, Deque.resizeTo]
  split_ifs
  · rfl
  · rfl
  · rfl

lemma length_pushItem (d : Deque α) (x : α) : (d.pushItem x).length = d.length + 1 := by
  rw [Deque.pushItem]
  exact congrArg (· + 1) (length_checkCapacity d (d.length + 1))

/-- Whether or not there is room. -/
lemma length_pushItems (d : Deque α) (items : List α) :
    (items.foldl Deque.pushItem d).length = d.length + items.length := by
  induction items generalizing d with
  | nil => rfl
  | cons x items ih =>
    rw [List.foldl_cons, ih, length_pushItem, List.length_cons]
    omega

/-- The quick loop writes the slots behind the window. -/
lemma window_writeBack {slots : ℕ → Option α} {k front : ℕ} {xs : List α} (h : Window slots (2 ^ k) front xs)
    (items : List α) (hroom : xs.length + items.length ≤ 2 ^ k) {length j : ℕ} (hj : j + length = front + xs.length) :
    Window (writeBack (2 ^ k) length slots j items) (2 ^ k) front (xs ++ items) := by
  induction items generalizing slots xs j with
  | nil => rwa [List.append_nil]
  | cons x items ih =>
    rw [List.length_cons] at hroom
    have hwindow := h.append (by omega) x
    rw [writeBack, index_eq_mod, hj]
    have hnext := ih hwindow (by rw [List.length_append, List.length_singleton]; omega)
      (show j + 1 + length = front + (xs ++ [x]).length by rw [List.length_append, List.length_singleton]; omega)
    rwa [List.append_assoc, List.singleton_append] at hnext

lemma push_many (d : Deque α) (x y : α) (items : List α) :
    d.push (x :: y :: items) =
      if d.length + (x :: y :: items).length > d.capacity then
        (((x :: y :: items).foldl pushItem d).length, (x :: y :: items).foldl pushItem d)
      else
        (d.length + (x :: y :: items).length,
          { d with
            slots := writeBack d.capacity d.length d.slots d.front (x :: y :: items)
            length := d.length + (x :: y :: items).length }) := rfl

lemma Represents.push {d : Deque α} {xs : List α} (h : Represents d xs) (items : List α)
    (hroom : xs.length + items.length ≤ 2 ^ 30) :
    (d.push items).1 = (xs ++ items).length ∧ Represents (d.push items).2 (xs ++ items) := by
  match items with
  | [] =>
    rw [List.append_nil]
    exact ⟨h.length_eq, h⟩
  | [x] =>
    have hone := h.pushItem (Nat.lt_of_succ_le hroom) x
    exact ⟨hone.length_eq, hone⟩
  | x :: y :: items =>
    rw [push_many]
    by_cases hfit : d.length + (x :: y :: items).length > d.capacity
    · rw [if_pos hfit]
      have hall := h.pushItems (x :: y :: items) hroom
      exact ⟨hall.length_eq, hall⟩
    · rw [if_neg hfit]
      have hlength : d.length + (x :: y :: items).length = (xs ++ x :: y :: items).length := by
        rw [h.length_eq, List.length_append]
      obtain ⟨k, hk, -, -⟩ := h.capacity
      refine ⟨hlength, h.capacity, h.front_lt, hlength, ?_⟩
      have hwindow := h.window
      have hlen := h.length_eq
      rw [hk] at hwindow hfit
      dsimp only
      rw [hk]
      exact window_writeBack hwindow _ (by omega) (by omega)

lemma Represents.unshiftItem {d : Deque α} {xs : List α} (h : Represents d xs) (hroom : xs.length < 2 ^ 30)
    (x : α) : Represents (d.unshiftItem x) (x :: xs) := by
  obtain ⟨hgrown, hlt⟩ := h.checkCapacity hroom
  obtain ⟨k, hk, -, hmax⟩ := hgrown.capacity
  have hfront := hgrown.front_lt
  rw [hk] at hfront
  obtain ⟨hbefore, hnext⟩ := indexBefore_spec hmax hfront
  rw [← hk] at hbefore hnext
  exact ⟨hgrown.capacity, hbefore, by simp [Deque.unshiftItem, hgrown.length_eq],
    hgrown.window.cons hlt x hbefore hnext⟩

lemma Represents.unshiftItems {d : Deque α} {xs : List α} (h : Represents d xs) (items : List α)
    (hroom : xs.length + items.length ≤ 2 ^ 30) :
    Represents (items.foldr (fun item d => d.unshiftItem item) d) (items ++ xs) := by
  induction items with
  | nil => exact h
  | cons x items ih =>
    rw [List.length_cons] at hroom
    exact (ih (by omega)).unshiftItem (by rw [List.length_append]; omega) x

/-- The quick loop writes the slots before the window, the last item first. -/
lemma window_writeFront {slots : ℕ → Option α} {k front : ℕ} {xs : List α} (h : Window slots (2 ^ k) front xs)
    (hmax : k ≤ 30) (hfront : front < 2 ^ k) (items : List α) (hroom : xs.length + items.length ≤ 2 ^ k) :
    (writeFront (2 ^ k) slots front items).2 < 2 ^ k ∧
      Window (writeFront (2 ^ k) slots front items).1 (2 ^ k) (writeFront (2 ^ k) slots front items).2
        (items ++ xs) := by
  induction items with
  | nil => exact ⟨hfront, h⟩
  | cons x items ih =>
    rw [List.length_cons] at hroom
    obtain ⟨hlt, hwindow⟩ := ih (by omega)
    obtain ⟨hbefore, hnext⟩ := indexBefore_spec hmax hlt
    exact ⟨hbefore, hwindow.cons (by rw [List.length_append]; omega) x hbefore hnext⟩

lemma unshift_many (d : Deque α) (x y : α) (items : List α) :
    d.unshift (x :: y :: items) =
      if d.length + (x :: y :: items).length > d.capacity then
        (((x :: y :: items).foldr (fun item d => d.unshiftItem item) d).length,
          (x :: y :: items).foldr (fun item d => d.unshiftItem item) d)
      else
        (d.length + (x :: y :: items).length,
          { d with
            slots := (writeFront d.capacity d.slots d.front (x :: y :: items)).1
            front := (writeFront d.capacity d.slots d.front (x :: y :: items)).2
            length := d.length + (x :: y :: items).length }) := rfl

lemma Represents.unshift {d : Deque α} {xs : List α} (h : Represents d xs) (items : List α)
    (hroom : xs.length + items.length ≤ 2 ^ 30) :
    (d.unshift items).1 = (items ++ xs).length ∧ Represents (d.unshift items).2 (items ++ xs) := by
  match items with
  | [] => exact ⟨h.length_eq, h⟩
  | [x] =>
    have hone := h.unshiftItem (Nat.lt_of_succ_le hroom) x
    exact ⟨hone.length_eq, hone⟩
  | x :: y :: items =>
    rw [unshift_many]
    by_cases hfit : d.length + (x :: y :: items).length > d.capacity
    · rw [if_pos hfit]
      have hall := h.unshiftItems (x :: y :: items) hroom
      exact ⟨hall.length_eq, hall⟩
    · rw [if_neg hfit]
      have hlength : d.length + (x :: y :: items).length = (x :: y :: items ++ xs).length := by
        rw [h.length_eq, List.length_append, Nat.add_comm]
      obtain ⟨k, hk, -, hmax⟩ := h.capacity
      have hwindow := h.window
      have hfront := h.front_lt
      have hlen := h.length_eq
      rw [hk] at hwindow hfit hfront
      obtain ⟨hlt, hwritten⟩ := window_writeFront hwindow hmax hfront (x :: y :: items) (by omega)
      refine ⟨hlength, h.capacity, ?_, hlength, ?_⟩
      · dsimp only
        rwa [hk]
      · dsimp only
        rwa [hk]

lemma Represents.shift_nil {d : Deque α} (h : Represents d []) : d.shift = (none, d) := by
  rw [Deque.shift, if_pos (show d.length = 0 from h.length_eq)]

lemma Represents.shift_cons {d : Deque α} {x : α} {xs : List α} (h : Represents d (x :: xs)) :
    d.shift.1 = some x ∧ Represents d.shift.2 xs := by
  have hlength := h.length_eq
  rw [List.length_cons] at hlength
  rw [Deque.shift, if_neg (by omega)]
  refine ⟨h.window.head h.front_lt, h.capacity, ?_, by dsimp only; omega, ?_⟩
  · dsimp only
    rw [h.index_eq]
    exact Nat.mod_lt _ (Nat.zero_lt_of_lt h.front_lt)
  · dsimp only
    rw [h.index_eq]
    exact h.window.tail h.front_lt none

lemma Represents.pop_nil {d : Deque α} (h : Represents d []) : d.pop = (none, d) := by
  rw [Deque.pop, if_pos (show d.length = 0 from h.length_eq)]

lemma Represents.pop_concat {d : Deque α} {x : α} {xs : List α} (h : Represents d (xs ++ [x])) :
    d.pop.1 = some x ∧ Represents d.pop.2 xs := by
  have hlength := h.length_eq
  rw [List.length_append, List.length_singleton] at hlength
  have hlast : d.length - 1 = xs.length := by omega
  rw [Deque.pop, if_neg (by omega)]
  dsimp only
  rw [h.index_eq, hlast]
  exact ⟨h.window.last, h.capacity, h.front_lt, rfl, h.window.init none⟩

lemma Represents.clear {d : Deque α} {xs : List α} (h : Represents d xs) : Represents d.clear [] :=
  ⟨h.capacity, Nat.zero_lt_of_lt h.front_lt, rfl, window_nil⟩

/-! ### Reads -/

lemma Represents.slot_eq {d : Deque α} {xs : List α} (h : Represents d xs) {j : ℕ} (hj : j < xs.length) :
    d.slots (index d.capacity d.front j) = xs[j]? := by
  rw [h.index_eq]
  exact h.window.read j hj

lemma Represents.toArray {d : Deque α} {xs : List α} (h : Represents d xs) : d.toArray = xs.map some := by
  rw [← h.window.toList, ← h.length_eq, Deque.toArray]
  apply List.map_congr_left
  intro j _
  rw [h.index_eq]

lemma Represents.isEmpty {d : Deque α} {xs : List α} (h : Represents d xs) : d.isEmpty = xs.isEmpty := by
  rw [Deque.isEmpty, h.length_eq]
  cases xs with
  | nil => rfl
  | cons x xs => rfl

lemma Represents.peekFront {d : Deque α} {xs : List α} (h : Represents d xs) : d.peekFront = xs.head? := by
  rw [Deque.peekFront, h.length_eq]
  cases xs with
  | nil => rfl
  | cons x xs =>
    rw [if_neg (by simp)]
    exact h.window.head h.front_lt

lemma Represents.peekBack {d : Deque α} {xs : List α} (h : Represents d xs) : d.peekBack = xs.getLast? := by
  rw [Deque.peekBack, h.length_eq, List.getLast?_eq_getElem?]
  cases xs with
  | nil => rfl
  | cons x xs =>
    rw [if_neg (by simp)]
    exact h.slot_eq (by simp)

/-- The item at an index, which counts from the back if it is negative. -/
def itemAt (xs : List α) (i : ℤ) : Option α :=
  if i < 0 then if i + xs.length < 0 then none else xs[(i + xs.length).toNat]? else xs[i.toNat]?

lemma toInt_ofInt_eq_iff (i : ℤ) : i = (BitVec.ofInt 32 i).toInt ↔ -2 ^ 31 ≤ i ∧ i < 2 ^ 31 := by
  rw [BitVec.toInt_ofInt]
  constructor
  · intro h
    rw [h]
    constructor
    · exact Int.le_bmod (by decide)
    · exact Int.bmod_lt (by decide)
  · rintro ⟨hlow, hhigh⟩
    exact (Int.bmod_eq_of_le (by omega) (by omega)).symm

/-- An index beyond 32 bits is beyond every list that fits. -/
lemma itemAt_of_large {xs : List α} {i : ℤ} (hlen : xs.length ≤ 2 ^ 30) (h : ¬(-2 ^ 31 ≤ i ∧ i < 2 ^ 31)) :
    itemAt xs i = none := by
  rw [itemAt]
  by_cases hneg : i < 0
  · rw [if_pos hneg, if_pos (by omega)]
  · rw [if_neg hneg]
    exact List.getElem?_eq_none (by omega)

lemma Represents.get {d : Deque α} {xs : List α} (h : Represents d xs) (i : ℤ) : d.get i = itemAt xs i := by
  have hlen : xs.length ≤ 2 ^ 30 := by
    obtain ⟨k, hk, -, hmax⟩ := h.capacity
    calc xs.length ≤ d.capacity := h.length_le
      _ = 2 ^ k := hk
      _ ≤ 2 ^ 30 := Nat.pow_le_pow_right (by decide) hmax
  rw [Deque.get, h.length_eq]
  by_cases hword : -2 ^ 31 ≤ i ∧ i < 2 ^ 31
  · rw [if_neg (not_not_intro ((toInt_ofInt_eq_iff i).mpr hword)), itemAt]
    dsimp only
    by_cases hneg : i < 0
    · rw [if_pos hneg, if_pos hneg]
      by_cases hout : i + xs.length < 0
      · rw [if_pos hout, if_pos (Or.inl hout)]
      · rw [if_neg hout, if_neg (by omega), h.slot_eq (by omega)]
    · rw [if_neg hneg, if_neg hneg]
      by_cases hout : (xs.length : ℤ) ≤ i
      · rw [if_pos (Or.inr hout), List.getElem?_eq_none (by omega)]
      · rw [if_neg (by omega), h.slot_eq (by omega)]
  · rw [if_pos (fun hi => hword ((toInt_ofInt_eq_iff i).mp hi)), itemAt_of_large hlen hword]

/-! ### Runs -/

/-- A call of the queue. -/
inductive Call (α : Type*) where
  | push (items : List α)
  | pop
  | shift
  | unshift (items : List α)
  | clear
  | length
  | isEmpty
  | peekFront
  | peekBack
  | get (i : ℤ)
  | toArray
  deriving DecidableEq

/-- What a call returns. -/
inductive Result (α : Type*) where
  | nothing
  | number (n : ℕ)
  | flag (b : Bool)
  | item (o : Option α)
  | items (os : List (Option α))
  deriving DecidableEq

def call (d : Deque α) : Call α → Result α × Deque α
  | .push items => (.number (d.push items).1, (d.push items).2)
  | .pop => (.item d.pop.1, d.pop.2)
  | .shift => (.item d.shift.1, d.shift.2)
  | .unshift items => (.number (d.unshift items).1, (d.unshift items).2)
  | .clear => (.nothing, d.clear)
  | .length => (.number d.length, d)
  | .isEmpty => (.flag d.isEmpty, d)
  | .peekFront => (.item d.peekFront, d)
  | .peekBack => (.item d.peekBack, d)
  | .get i => (.item (d.get i), d)
  | .toArray => (.items d.toArray, d)

/-- The same calls on a list. -/
def listCall (xs : List α) : Call α → Result α × List α
  | .push items => (.number (xs ++ items).length, xs ++ items)
  | .pop => (.item xs.getLast?, xs.dropLast)
  | .shift => (.item xs.head?, xs.tail)
  | .unshift items => (.number (items ++ xs).length, items ++ xs)
  | .clear => (.nothing, [])
  | .length => (.number xs.length, xs)
  | .isEmpty => (.flag xs.isEmpty, xs)
  | .peekFront => (.item xs.head?, xs)
  | .peekBack => (.item xs.getLast?, xs)
  | .get i => (.item (itemAt xs i), xs)
  | .toArray => (.items (xs.map some), xs)

lemma Represents.call {d : Deque α} {xs : List α} (h : Represents d xs) (c : Call α)
    (hroom : (listCall xs c).2.length ≤ 2 ^ 30) :
    (d.call c).1 = (listCall xs c).1 ∧ Represents (d.call c).2 (listCall xs c).2 := by
  cases c with
  | push items =>
    obtain ⟨hresult, hnext⟩ := h.push items (by simpa [listCall] using hroom)
    exact ⟨congrArg Result.number hresult, hnext⟩
  | pop =>
    rcases List.eq_nil_or_concat xs with rfl | ⟨xs, x, rfl⟩
    · rw [Deque.call, h.pop_nil]
      exact ⟨rfl, h⟩
    · rw [List.concat_eq_append] at h ⊢
      obtain ⟨hresult, hnext⟩ := h.pop_concat
      rw [listCall, List.getLast?_concat, List.dropLast_concat]
      exact ⟨congrArg Result.item hresult, hnext⟩
  | shift =>
    cases xs with
    | nil =>
      rw [Deque.call, h.shift_nil]
      exact ⟨rfl, h⟩
    | cons x xs =>
      obtain ⟨hresult, hnext⟩ := h.shift_cons
      exact ⟨congrArg Result.item hresult, hnext⟩
  | unshift items =>
    obtain ⟨hresult, hnext⟩ := h.unshift items (by simpa [listCall, Nat.add_comm] using hroom)
    exact ⟨congrArg Result.number hresult, hnext⟩
  | clear => exact ⟨rfl, h.clear⟩
  | length => exact ⟨congrArg Result.number h.length_eq, h⟩
  | isEmpty => exact ⟨congrArg Result.flag h.isEmpty, h⟩
  | peekFront => exact ⟨congrArg Result.item h.peekFront, h⟩
  | peekBack => exact ⟨congrArg Result.item h.peekBack, h⟩
  | get i => exact ⟨congrArg Result.item (h.get i), h⟩
  | toArray => exact ⟨congrArg Result.items h.toArray, h⟩

/-- A run: the queue and what its calls have returned. -/
def callNext (s : Deque α × List (Result α)) (c : Call α) : Deque α × List (Result α) :=
  ((s.1.call c).2, s.2 ++ [(s.1.call c).1])

/-- A run on a list. -/
def listCallNext (s : List α × List (Result α)) (c : Call α) : List α × List (Result α) :=
  ((listCall s.1 c).2, s.2 ++ [(listCall s.1 c).1])

lemma represents_run (calls : List (Call α))
    (hroom : ∀ pre, pre <+: calls → (Runs.after listCallNext ([], []) pre).1.length ≤ 2 ^ 30) :
    (Runs.after callNext (new, []) calls).2 = (Runs.after listCallNext ([], []) calls).2 ∧
      Represents (Runs.after callNext (new, []) calls).1 (Runs.after listCallNext ([], []) calls).1 := by
  induction calls using Runs.history_induction with
  | h0 => exact ⟨rfl, represents_new⟩
  | hs calls c ih =>
    obtain ⟨hresults, hrep⟩ := ih (fun pre hpre => hroom pre (hpre.trans (List.prefix_append calls [c])))
    have hlast := hroom (calls ++ [c]) List.prefix_rfl
    rw [Runs.after_concat] at hlast ⊢
    rw [Runs.after_concat]
    obtain ⟨hresult, hnext⟩ := hrep.call c hlast
    refine ⟨?_, hnext⟩
    rw [callNext, listCallNext, hresults, hresult]

/-- Over any run of calls from the empty queue, every call returns what it would return on a list, as long
as the list never has more than `2 ^ 30` items. -/
theorem queue_runs_as_list (calls : List (Call α))
    (hroom : ∀ pre, pre <+: calls → (Runs.after listCallNext ([], []) pre).1.length ≤ 2 ^ 30) :
    (Runs.after callNext (new, []) calls).2 = (Runs.after listCallNext ([], []) calls).2 :=
  (represents_run calls hroom).1

/-- The queue grows while its items go around the end of the ring. -/
theorem queue_runs_as_list_growing :
    (Runs.after callNext (new, [])
      [.push [0, 1], .shift, .push (List.range 16), .unshift [7, 8], .pop, .get (-1), .toArray]).2 =
    (Runs.after listCallNext ([], [])
      [.push [0, 1], .shift, .push (List.range 16), .unshift [7, 8], .pop, .get (-1), .toArray]).2 := by
  apply queue_runs_as_list
  intro pre hpre
  have hall : ∀ pre ∈ List.inits [Call.push [0, 1], .shift, .push (List.range 16), .unshift [7, 8], .pop,
      .get (-1), .toArray], (Runs.after listCallNext ([], []) pre).1.length ≤ 2 ^ 30 := by
    decide
  exact hall pre ((List.mem_inits pre _).mpr hpre)

end Deque

end ExpressAuth.NodeRedis
