import Mathlib.Data.Nat.ModEq
import Mathlib.Logic.Function.Basic
import Mathlib.Tactic.Common

/-!
# Windows of a ring of slots

A list is kept in a ring of `cap` slots, one element after the other from the slot `front` on and
around the end of the ring. Adding or removing an element at either end touches one slot outside the
rest of the window, and a ring grows by moving the part that had gone around the end.
-/

namespace Ring

variable {α : Type*}

lemma place_ne {cap front i j : ℕ} (hij : i < j) (hj : j < i + cap) :
    (front + i) % cap ≠ (front + j) % cap := by
  intro h
  have hdvd : cap ∣ front + j - (front + i) := (Nat.modEq_iff_dvd' (by omega)).mp h
  have := Nat.le_of_dvd (by omega) hdvd
  omega

lemma place_ne_front {cap front j : ℕ} (hfront : front < cap) (hpos : 0 < j) (hj : j < cap) :
    (front + j) % cap ≠ front := by
  have hne : (front + 0) % cap ≠ (front + j) % cap := place_ne hpos (by omega)
  rwa [Nat.add_zero, Nat.mod_eq_of_lt hfront, ne_comm] at hne

lemma place_of_lt {cap front j : ℕ} (h : front + j < cap) : (front + j) % cap = front + j :=
  Nat.mod_eq_of_lt h

lemma place_of_le {cap front j : ℕ} (h : cap ≤ front + j) (hlt : front + j < 2 * cap) :
    (front + j) % cap = front + j - cap := by
  rw [Nat.mod_eq_sub_mod h, Nat.mod_eq_of_lt (by omega)]

/-- The slots from `front` on hold the elements of `xs` in order. -/
structure Window (slots : ℕ → Option α) (cap front : ℕ) (xs : List α) : Prop where
  length_le : xs.length ≤ cap
  read : ∀ j < xs.length, slots ((front + j) % cap) = xs[j]?

variable {slots : ℕ → Option α} {cap front : ℕ} {xs : List α} {x : α}

lemma window_nil : Window slots cap front ([] : List α) := ⟨Nat.zero_le _, fun j hj => absurd hj (Nat.not_lt_zero j)⟩

lemma Window.append (h : Window slots cap front xs) (hroom : xs.length < cap) (x : α) :
    Window (Function.update slots ((front + xs.length) % cap) (some x)) cap front (xs ++ [x]) := by
  constructor
  · rw [List.length_append, List.length_singleton]
    omega
  · intro j hj
    rw [List.length_append, List.length_singleton] at hj
    rcases Nat.lt_or_ge j xs.length with hlt | hge
    · rw [Function.update_of_ne (place_ne hlt (by omega)), h.read j hlt, List.getElem?_append_left hlt]
    · obtain rfl : j = xs.length := by omega
      rw [Function.update_self, List.getElem?_concat_length]

lemma Window.head (h : Window slots cap front (x :: xs)) (hfront : front < cap) : slots front = some x := by
  have hread := h.read 0 (Nat.zero_lt_succ _)
  rwa [Nat.add_zero, Nat.mod_eq_of_lt hfront] at hread

lemma Window.tail (h : Window slots cap front (x :: xs)) (hfront : front < cap) (o : Option α) :
    Window (Function.update slots front o) cap ((front + 1) % cap) xs := by
  have hlen := h.length_le
  rw [List.length_cons] at hlen
  refine ⟨by omega, fun j hj => ?_⟩
  have hplace : ((front + 1) % cap + j) % cap = (front + (j + 1)) % cap := by
    rw [Nat.mod_add_mod, Nat.add_assoc, Nat.add_comm 1 j]
  have hne : (front + (j + 1)) % cap ≠ front := place_ne_front hfront (by omega) (by omega)
  have hread := h.read (j + 1) (by simpa using hj)
  rw [hplace, Function.update_of_ne hne, hread, List.getElem?_cons_succ]

lemma Window.last (h : Window slots cap front (xs ++ [x])) : slots ((front + xs.length) % cap) = some x := by
  have hread := h.read xs.length (by simp)
  rwa [List.getElem?_concat_length] at hread

lemma Window.init (h : Window slots cap front (xs ++ [x])) (o : Option α) :
    Window (Function.update slots ((front + xs.length) % cap) o) cap front xs := by
  have hlen := h.length_le
  rw [List.length_append, List.length_singleton] at hlen
  refine ⟨by omega, fun j hj => ?_⟩
  have hread := h.read j (by simp; omega)
  rw [Function.update_of_ne (place_ne hj (by omega)), hread, List.getElem?_append_left hj]

/-- The slot before the window becomes its first. -/
lemma Window.cons (h : Window slots cap front xs) (hroom : xs.length < cap) (x : α) {before : ℕ}
    (hbefore : before < cap) (hnext : (before + 1) % cap = front) :
    Window (Function.update slots before (some x)) cap before (x :: xs) := by
  constructor
  · rw [List.length_cons]
    omega
  · intro j hj
    cases j with
    | zero => rw [Nat.add_zero, Nat.mod_eq_of_lt hbefore, Function.update_self, List.getElem?_cons_zero]
    | succ j =>
      rw [List.length_cons] at hj
      have hplace : (before + (j + 1)) % cap = (front + j) % cap := by
        rw [← hnext, Nat.mod_add_mod, Nat.add_assoc, Nat.add_comm 1 j]
      have hne : (before + (j + 1)) % cap ≠ before := place_ne_front hbefore (by omega) (by omega)
      rw [Function.update_of_ne hne, hplace, h.read j (by omega), List.getElem?_cons_succ]

/-- A larger ring holds the same list once the part that had gone around the end stands behind the old
end. -/
lemma Window.grow (h : Window slots cap front xs) (hfront : front < cap) {cap' : ℕ} (hcap : 2 * cap ≤ cap')
    {slots' : ℕ → Option α} (hkeep : ∀ i, front ≤ i → i < cap → slots' i = slots i)
    (hmove : ∀ i, cap + i < front + xs.length → slots' (cap + i) = slots i) :
    Window slots' cap' front xs := by
  have hlen := h.length_le
  refine ⟨by omega, fun j hj => ?_⟩
  have hread := h.read j hj
  rw [Nat.mod_eq_of_lt (by omega)]
  rcases Nat.lt_or_ge (front + j) cap with hlt | hge
  · rw [hkeep _ (by omega) hlt, ← hread, place_of_lt hlt]
  · rw [place_of_le hge (by omega)] at hread
    have hsplit : cap + (front + j - cap) = front + j := by omega
    have hmoved := hmove (front + j - cap) (by omega)
    rw [hsplit] at hmoved
    rw [hmoved, hread]

/-- Every element is read through its place. -/
lemma Window.toList (h : Window slots cap front xs) :
    (List.range xs.length).map (fun j => slots ((front + j) % cap)) = xs.map some := by
  apply List.ext_getElem?
  intro j
  rcases Nat.lt_or_ge j xs.length with hj | hj
  · rw [List.getElem?_map, List.getElem?_range hj, Option.map_some, h.read j hj, List.getElem?_map]
    rw [List.getElem?_eq_getElem hj]
    rfl
  · rw [List.getElem?_eq_none (by simpa using hj), List.getElem?_eq_none (by simpa using hj)]

end Ring
