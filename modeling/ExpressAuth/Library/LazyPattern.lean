import Mathlib.Data.List.Infix
import Mathlib.Data.List.Induction

/-!
# Patterns with lazy captures

A pattern is a list of literal texts and captures. A capture takes at least one symbol and as few
as let the rest of the pattern match. How a literal compares, what a capture may contain and what
may be left at the end are parameters.
-/

namespace LazyPattern

variable {α : Type*}

inductive Piece (α : Type*) where
  | literal (text : List α)
  | capture

variable (same : α → α → Bool)

/-- The input after a literal text. -/
def strip : List α → List α → Option (List α)
  | [], input => some input
  | _ :: _, [] => none
  | a :: text, c :: input => if same a c then strip text input else none

/-- A literal text stands somewhere in the input. -/
def occurs (text input : List α) : Bool := input.tails.any (fun rest => (strip same text rest).isSome)

variable (inside : α → Bool) (finish : List α → Bool)

/-- The shortest capture, after the symbols `taken`, that the rest of the pattern follows. -/
def capture (next : List α → Option (List (List α))) : List α → List α → Option (List (List α))
  | _, [] => none
  | taken, c :: input =>
    if inside c then
      match next input with
      | some captures => some ((taken ++ [c]) :: captures)
      | none => capture next (taken ++ [c]) input
    else none

/-- The captures of a pattern that matches the whole input. -/
def run : List (Piece α) → List α → Option (List (List α))
  | [], input => if finish input then some [] else none
  | .literal text :: pieces, input => (strip same text input).bind (run pieces)
  | .capture :: pieces, input => capture inside (run pieces) [] input

/-! ### Literals -/

variable {same}

lemma strip_append (hsame : ∀ a, same a a = true) (text input : List α) :
    strip same text (text ++ input) = some input := by
  induction text with
  | nil => rfl
  | cons a text ih => rw [List.cons_append, strip, if_pos (hsame a), ih]

/-- What a literal leaves does not depend on what comes behind. -/
lemma strip_append_of_strip {text input rest : List α} (h : strip same text input = some rest) (more : List α) :
    strip same text (input ++ more) = some (rest ++ more) := by
  induction text generalizing input with
  | nil =>
    obtain rfl := Option.some.inj h
    rfl
  | cons a text ih =>
    cases input with
    | nil => cases h
    | cons c input =>
      simp only [List.cons_append, strip] at h ⊢
      split_ifs at h with hc
      rw [if_pos hc]
      exact ih h

/-- A literal takes as many symbols as it has. -/
lemma exists_of_strip {text input rest : List α} (h : strip same text input = some rest) :
    ∃ taken, input = taken ++ rest ∧ taken.length = text.length := by
  induction text generalizing input with
  | nil =>
    obtain rfl := Option.some.inj h
    exact ⟨[], rfl, rfl⟩
  | cons a text ih =>
    cases input with
    | nil => cases h
    | cons c input =>
      rw [strip] at h
      split_ifs at h
      obtain ⟨taken, rfl, hlength⟩ := ih h
      exact ⟨c :: taken, rfl, by rw [List.length_cons, List.length_cons, hlength]⟩

/-- A literal does not reach across a symbol that it does not have. -/
lemma strip_of_strip_append {text input more rest : List α} {c : α} (hc : ∀ a ∈ text, same a c = false)
    (h : strip same text (input ++ c :: more) = some rest) : ∃ rest', strip same text input = some rest' := by
  induction text generalizing input with
  | nil => exact ⟨input, rfl⟩
  | cons a text ih =>
    cases input with
    | nil =>
      have ha := hc a List.mem_cons_self
      simp [strip, ha] at h
    | cons d input =>
      simp only [List.cons_append, strip] at h ⊢
      split_ifs at h with hd
      rw [if_pos hd]
      exact ih (fun b hb => hc b (List.mem_cons_of_mem a hb)) h

lemma occurs_eq_false {text input : List α} :
    occurs same text input = false ↔ ∀ rest, rest <:+ input → strip same text rest = none := by
  simp [occurs]

/-! ### Captures -/

variable {inside} {next : List α → Option (List (List α))}

/-- A word is captured if the rest follows it and no shorter beginning of it would do. -/
lemma capture_append {word input : List α} {captures : List (List α)} (hne : word ≠ [])
    (hinside : ∀ c ∈ word, inside c = true) (hnext : next input = some captures)
    (hfirst : ∀ begun rest, begun ≠ [] → rest ≠ [] → word = begun ++ rest → next (rest ++ input) = none)
    (taken : List α) : capture inside next taken (word ++ input) = some ((taken ++ word) :: captures) := by
  induction word generalizing taken with
  | nil => exact absurd rfl hne
  | cons c word ih =>
    rw [List.cons_append, capture, if_pos (hinside c List.mem_cons_self)]
    cases word with
    | nil => rw [List.nil_append, hnext]
    | cons d word =>
      rw [hfirst [c] (d :: word) (by simp) (by simp) rfl]
      have hrest := ih (by simp) (fun b hb => hinside b (List.mem_cons_of_mem c hb))
        (fun begun rest _ hr hw => hfirst (c :: begun) rest (by simp) hr (by rw [hw]; rfl)) (taken ++ [c])
      rw [hrest, List.append_assoc]
      rfl

/-- What a capture took: a word of admitted symbols, the first that the rest follows. -/
lemma exists_of_capture {input taken : List α} {captures : List (List α)}
    (h : capture inside next taken input = some captures) :
    ∃ word rest more, input = word ++ rest ∧ captures = (taken ++ word) :: more ∧ word ≠ [] ∧
      (∀ c ∈ word, inside c = true) ∧ next rest = some more ∧
      ∀ begun rest', begun ≠ [] → rest' ≠ [] → word = begun ++ rest' → next (rest' ++ rest) = none := by
  induction input generalizing taken with
  | nil => cases h
  | cons c input ih =>
    rw [capture] at h
    split_ifs at h with hc
    cases hn : next input with
    | some more =>
      simp only [hn, Option.some.injEq] at h
      refine ⟨[c], input, more, rfl, h.symm, by simp, by simpa using hc, hn, ?_⟩
      intro begun rest' hb hr hw
      have hlength := congrArg List.length hw
      have hb' := List.length_pos_iff.mpr hb
      have hr' := List.length_pos_iff.mpr hr
      simp only [List.length_singleton, List.length_append] at hlength
      omega
    | none =>
      simp only [hn] at h
      obtain ⟨word, rest, more, rfl, rfl, hne, hinside, hnext, hfirst⟩ := ih h
      refine ⟨c :: word, rest, more, rfl, by simp, by simp, ?_, hnext, ?_⟩
      · intro d hd
        rcases List.mem_cons.mp hd with rfl | hd
        exacts [hc, hinside d hd]
      · intro begun rest' hb hr hw
        cases begun with
        | nil => exact absurd rfl hb
        | cons d begun =>
          simp only [List.cons_append, List.cons.injEq] at hw
          cases begun with
          | nil =>
            rw [List.nil_append] at hw
            rw [← hw.2]
            exact hn
          | cons d' begun => exact hfirst (d' :: begun) rest' (by simp) hr hw.2

end LazyPattern
