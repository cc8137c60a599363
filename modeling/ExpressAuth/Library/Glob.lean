import Mathlib.Data.List.Forall2
import Mathlib.Data.List.Infix

/-!
# Glob patterns

A pattern is a list of tokens. A star stands for any text, every other token for one letter.
-/

namespace Glob

variable {α : Type*}

inductive Token (α : Type*) where
  | star
  | one (letter : α → Bool)

def Token.isStar : Token α → Bool
  | .star => true
  | .one _ => false

/-- Whether a pattern matches a whole text. -/
def accepts : List (Token α) → List α → Bool
  | [], text => text.isEmpty
  | .star :: ts, text => text.tails.any (accepts ts)
  | .one _ :: _, [] => false
  | .one f :: ts, c :: text => f c && accepts ts text

@[simp] lemma accepts_nil (text : List α) : accepts [] text = text.isEmpty := rfl

@[simp] lemma accepts_one_nil (f : α → Bool) (ts : List (Token α)) : accepts (.one f :: ts) [] = false := rfl

@[simp] lemma accepts_one_cons (f : α → Bool) (ts : List (Token α)) (c : α) (text : List α) :
    accepts (.one f :: ts) (c :: text) = (f c && accepts ts text) := rfl

lemma accepts_one_iff {f : α → Bool} {ts : List (Token α)} {text : List α} :
    accepts (.one f :: ts) text = true ↔ ∃ c rest, text = c :: rest ∧ f c = true ∧ accepts ts rest = true := by
  cases text <;> simp

lemma accepts_star_iff {ts : List (Token α)} {text : List α} :
    accepts (.star :: ts) text = true ↔ ∃ t, t <:+ text ∧ accepts ts t = true := by
  simp [accepts]

/-- Without a star every token stands for one letter. -/
lemma length_eq_of_accepts {ts : List (Token α)} {text : List α} (hstar : ts.any Token.isStar = false)
    (h : accepts ts text = true) : text.length = ts.length := by
  induction ts generalizing text with
  | nil => simpa using h
  | cons token ts ih =>
    cases token with
    | star => simp [Token.isStar] at hstar
    | one f =>
      obtain ⟨c, text, rfl, -, h⟩ := accepts_one_iff.mp h
      have hlength := ih (by simpa [Token.isStar] using hstar) h
      simp [hlength]

/-- Where the pattern has a star, any text can be put into a text that it matches. -/
theorem exists_insertion {ts : List (Token α)} {text : List α} (hstar : ts.any Token.isStar = true)
    (h : accepts ts text = true) : ∃ a b, text = a ++ b ∧ ∀ w, accepts ts (a ++ w ++ b) = true := by
  induction ts generalizing text with
  | nil => simp at hstar
  | cons token ts ih =>
    cases token with
    | star =>
      obtain ⟨b, ⟨a, rfl⟩, hb⟩ := accepts_star_iff.mp h
      exact ⟨a, b, rfl, fun w => accepts_star_iff.mpr ⟨b, List.suffix_append _ _, hb⟩⟩
    | one f =>
      obtain ⟨c, text, rfl, hc, h⟩ := accepts_one_iff.mp h
      obtain ⟨a, b, rfl, hw⟩ := ih (by simpa [Token.isStar] using hstar) h
      exact ⟨c :: a, b, rfl, fun w => accepts_one_iff.mpr ⟨c, _, rfl, hc, hw w⟩⟩

/-- Tokens that stand for one letter each match letter by letter. -/
lemma accepts_map_one {β : Type*} (letter : β → α → Bool) (bs : List β) (text : List α) :
    accepts (bs.map (fun b => .one (letter b))) text = true ↔ List.Forall₂ (fun b c => letter b c = true) bs text := by
  induction bs generalizing text with
  | nil => simp [List.forall₂_nil_left_iff]
  | cons b bs ih => cases text <;> simp [ih, List.forall₂_nil_right_iff]

end Glob
