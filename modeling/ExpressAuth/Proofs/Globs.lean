import ExpressAuth.Redis
import ExpressAuth.Library.Glob
import Mathlib.Data.List.DropRight

/-!
# What `stringmatchlen` accepts

A pattern is read off as a list of tokens, the same for every key. On a key that is not empty
the loop gives the answer of the tokens; on the empty key it may read past its end.
-/

namespace ExpressAuth.Proofs

/-- Whether a bracket class stands for a byte. -/
def classAccepts (body : Bool × List UInt8) (c : UInt8) : Bool :=
  match bracketClass c body.2 false with
  | some (found, _) => found != body.1
  | none => false

/-- The tokens of a pattern. A class that ends in a backslash has none. -/
inductive Parses : List UInt8 → List (Glob.Token UInt8) → Prop
  | nil : Parses [] []
  | star {p ts} (h : Parses (p.dropWhile (· == 0x2a)) ts) : Parses (0x2a :: p) (.star :: ts)
  | any {p ts} (h : Parses p ts) : Parses (0x3f :: p) (.one (fun _ => true) :: ts)
  | bracket {p rest ts} (hrest : (bracketClass 0 (classBody p).2 false).map Prod.snd = some rest) (h : Parses rest ts) :
      Parses (0x5b :: p) (.one (classAccepts (classBody p)) :: ts)
  | escape {c p ts} (h : Parses p ts) : Parses (0x5c :: c :: p) (.one (· == c) :: ts)
  | byte {c p ts} (hstar : c ≠ 0x2a) (hany : c ≠ 0x3f) (hbracket : c ≠ 0x5b) (hescape : c = 0x5c → p = [])
      (h : Parses p ts) : Parses (c :: p) (.one (· == c) :: ts)

/-! ### One iteration of the loop -/

/-- The pattern behind a class does not depend on the byte that is compared. -/
lemma bracketClass_rest (c c' : UInt8) (p : List UInt8) (found found' : Bool) :
    (bracketClass c p found).map Prod.snd = (bracketClass c' p found').map Prod.snd := by
  fun_induction bracketClass c p found generalizing found' with
  | case1 | case3 | case4 => rfl
  | case2 e p found ih => rw [bracketClass, ih]
  | case5 a b p found hescape hclose ih => rw [bracketClass, ih] <;> assumption
  | case6 a p found hescape hend hclose hrange ih => rw [bracketClass, ih] <;> assumption

/-- A class that is not cut off at once uses up pattern. -/
lemma bracketClass_length {c : UInt8} {p rest : List UInt8} {found found' : Bool}
    (h : bracketClass c p found = some (found', rest)) : rest.length < p.length ∨ p = [] ∧ rest = [] ∧ found' = found := by
  fun_induction bracketClass c p found with
  | case1 found =>
    obtain ⟨rfl, rfl⟩ : found = found' ∧ [] = rest := by simpa using h
    exact Or.inr ⟨rfl, rfl, rfl⟩
  | case3 => cases h
  | case4 p found =>
    obtain ⟨rfl, rfl⟩ : found = found' ∧ p = rest := by simpa using h
    exact Or.inl (by simp)
  | case2 e p found ih | case5 a b p found hescape hclose ih | case6 a p found hescape hend hclose hrange ih =>
    refine Or.inl ?_
    rcases ih h with hlt | ⟨rfl, rfl, -⟩
    · simp only [List.length_cons]
      omega
    · simp

lemma bracketClass_eq {c : UInt8} {p rest : List UInt8} (h : (bracketClass 0 p false).map Prod.snd = some rest) :
    ∃ found, bracketClass c p false = some (found, rest) := by
  rw [bracketClass_rest 0 c p false false, Option.map_eq_some_iff] at h
  obtain ⟨⟨found, rest'⟩, h, rfl⟩ := h
  exact ⟨found, h⟩

lemma classRest_length_le {p rest : List UInt8} (hrest : (bracketClass 0 (classBody p).2 false).map Prod.snd = some rest) :
    rest.length ≤ p.length := by
  obtain ⟨found, hclass⟩ := bracketClass_eq (c := 0) hrest
  have hbody : (classBody p).2.length ≤ p.length := by
    unfold classBody
    split <;> simp
  rcases bracketClass_length hclass with hlt | ⟨-, rfl, -⟩
  · exact hlt.le.trans hbody
  · simp

section

variable (fuel : ℕ) (p : List UInt8) (d : UInt8) (t : List UInt8)

/-- The rest of the pattern on the rest of the key, once a letter of the key is used up. -/
def nextMatch : Option Bool := if t.isEmpty then some (onlyStars p) else stringmatchlenLoop fuel p t

lemma loop_star : stringmatchlenLoop (fuel + 1) (0x2a :: p) (d :: t) =
    if (p.dropWhile (· == 0x2a)).isEmpty then some true
    else firstMatch (((d :: t).tails.filter (fun t => !t.isEmpty)).map
      (stringmatchlenLoop fuel (p.dropWhile (· == 0x2a)))) := rfl

lemma loop_any : stringmatchlenLoop (fuel + 1) (0x3f :: p) (d :: t) = nextMatch fuel p t := by
  cases t <;> rfl

lemma loop_bracket : stringmatchlenLoop (fuel + 1) (0x5b :: p) (d :: t) =
    match bracketClass d (classBody p).2 false with
    | some (found, rest) => if found != (classBody p).1 then nextMatch fuel rest t else some false
    | none => none := by
  cases t <;> rfl

lemma loop_escape (c : UInt8) : stringmatchlenLoop (fuel + 1) (0x5c :: c :: p) (d :: t) =
    if c == d then nextMatch fuel p t else some false := by
  cases t <;> rfl

lemma loop_byte {c : UInt8} (hstar : c ≠ 0x2a) (hany : c ≠ 0x3f) (hbracket : c ≠ 0x5b) (hescape : c = 0x5c → p = []) :
    stringmatchlenLoop (fuel + 1) (c :: p) (d :: t) = if c == d then nextMatch fuel p t else some false := by
  rw [stringmatchlenLoop]
  · cases t <;> rfl
  · exact hstar
  · exact hany
  · exact hbracket
  · intro e p' hc hp
    rw [hescape hc] at hp
    cases hp

end

/-! ### The loop and the tokens -/

lemma onlyStars_iff {p : List UInt8} : onlyStars p = true ↔ p.dropWhile (· == 0x2a) = [] := by
  simp [onlyStars, List.dropWhile_eq_nil_iff]

/-- Only stars match the empty text. -/
lemma Parses.accepts_nil {p : List UInt8} {ts : List (Glob.Token UInt8)} (h : Parses p ts) :
    Glob.accepts ts [] = onlyStars p := by
  induction h with
  | nil => rfl
  | @star p ts h ih =>
    have hdrop : onlyStars (p.dropWhile (· == 0x2a)) = onlyStars p := by
      rw [Bool.eq_iff_iff, onlyStars_iff, onlyStars_iff, List.dropWhile_idempotent]
    rw [hdrop] at ih
    simp [Glob.accepts, ih, onlyStars]
  | any | bracket | escape => rfl
  | byte hstar => simp [onlyStars, hstar]

lemma firstMatch_map {α : Type} {g : α → Option Bool} {f : α → Bool} {l : List α} (h : ∀ t ∈ l, g t = some (f t)) :
    firstMatch (l.map g) = some (l.any f) := by
  induction l with
  | nil => rfl
  | cons t l ih =>
    have ih := ih (fun t' ht' => h t' (List.mem_cons_of_mem t ht'))
    rw [List.map_cons, h t List.mem_cons_self, List.any_cons]
    cases hf : f t with
    | false => simpa [firstMatch] using ih
    | true => rfl

lemma nextMatch_eq {fuel : ℕ} {p : List UInt8} {ts : List (Glob.Token UInt8)} (hp : Parses p ts)
    (ih : ∀ t, t ≠ [] → stringmatchlenLoop fuel p t = some (Glob.accepts ts t)) (t : List UInt8) :
    nextMatch fuel p t = some (Glob.accepts ts t) := by
  unfold nextMatch
  cases t with
  | nil => rw [hp.accepts_nil]; rfl
  | cons d t => exact ih _ (by simp)

lemma exists_step {m fuel : ℕ} {s : List UInt8} (hfuel : m < fuel) (hs : s ≠ []) :
    ∃ n d t, fuel = n + 1 ∧ s = d :: t := by
  obtain ⟨n, rfl⟩ := Nat.exists_eq_succ_of_ne_zero (Nat.ne_of_gt (Nat.zero_lt_of_lt hfuel))
  obtain ⟨d, t, rfl⟩ := List.exists_cons_of_ne_nil hs
  exact ⟨n, d, t, rfl, rfl⟩

/-- On a key that is not empty the loop answers as the tokens of the pattern do. -/
theorem stringmatchlenLoop_eq {p : List UInt8} {ts : List (Glob.Token UInt8)} (hp : Parses p ts) {fuel : ℕ}
    (hfuel : p.length < fuel) (s : List UInt8) (hs : s ≠ []) :
    stringmatchlenLoop fuel p s = some (Glob.accepts ts s) := by
  induction hp generalizing fuel s with
  | nil =>
    obtain ⟨fuel, d, t, rfl, rfl⟩ := exists_step hfuel hs
    rfl
  | @star p ts h ih =>
    obtain ⟨fuel, d, t, rfl, rfl⟩ := exists_step hfuel hs
    have hlength := (List.dropWhile_suffix (l := p) (· == 0x2a)).length_le
    have hempty := h.accepts_nil
    rw [loop_star]
    by_cases hq : p.dropWhile (· == 0x2a) = []
    · rw [if_pos (List.isEmpty_iff.mpr hq)]
      rw [hq] at hempty
      have hall : Glob.accepts (.star :: ts) (d :: t) = true :=
        Glob.accepts_star_iff.mpr ⟨[], List.nil_suffix, hempty⟩
      rw [hall]
    · rw [if_neg (by simpa using hq), firstMatch_map (f := Glob.accepts ts)]
      · -- the empty rest of the key is not tried, and would not match
        have hstars : Glob.accepts ts [] = false := by
          rw [hempty, Bool.eq_false_iff, ne_eq, onlyStars_iff, List.dropWhile_idempotent]
          exact hq
        rw [Glob.accepts, List.any_filter]
        congr 2
        funext t'
        cases t' with
        | nil => rw [hstars]; rfl
        | cons d' t' => rfl
      · intro t' ht'
        have hne : t' ≠ [] := by simpa using (List.mem_filter.mp ht').2
        simp only [List.length_cons] at hfuel
        exact ih (by omega) t' hne
  | @any p ts h ih =>
    obtain ⟨fuel, d, t, rfl, rfl⟩ := exists_step hfuel hs
    rw [loop_any, nextMatch_eq h (fun t ht => ih (by simpa using hfuel) t ht)]
    rfl
  | @bracket p rest ts hrest h ih =>
    obtain ⟨fuel, d, t, rfl, rfl⟩ := exists_step hfuel hs
    obtain ⟨found, hclass⟩ := bracketClass_eq (c := d) hrest
    have hshort := classRest_length_le hrest
    simp only [List.length_cons] at hfuel
    rw [loop_bracket, hclass, Glob.accepts_one_cons, classAccepts, hclass]
    dsimp only
    rw [nextMatch_eq h (fun t ht => ih (by omega) t ht)]
    cases found != (classBody p).1 <;> rfl
  | @escape c p ts h ih =>
    obtain ⟨fuel, d, t, rfl, rfl⟩ := exists_step hfuel hs
    simp only [List.length_cons] at hfuel
    rw [loop_escape, nextMatch_eq h (fun t ht => ih (by omega) t ht), Glob.accepts_one_cons, BEq.comm]
    cases d == c <;> rfl
  | @byte c p ts hstar hany hbracket hescape h ih =>
    obtain ⟨fuel, d, t, rfl, rfl⟩ := exists_step hfuel hs
    rw [loop_byte _ _ _ _ hstar hany hbracket hescape, nextMatch_eq h (fun t ht => ih (by simpa using hfuel) t ht),
      Glob.accepts_one_cons, BEq.comm]
    cases d == c <;> rfl

lemma parses_of_onlyStars {p : List UInt8} (h : onlyStars p = true) : ∃ ts, Parses p ts := by
  cases p with
  | nil => exact ⟨[], .nil⟩
  | cons c p =>
    obtain ⟨rfl, hp⟩ : c = 0x2a ∧ onlyStars p = true := by simpa [onlyStars] using h
    have hempty : Parses (p.dropWhile (· == 0x2a)) [] := by
      rw [onlyStars_iff.mp hp]
      exact .nil
    exact ⟨_, .star hempty⟩

lemma exists_of_firstMatch {α : Type} {g : α → Option Bool} {l : List α} (h : firstMatch (l.map g) = some true) :
    ∃ t ∈ l, g t = some true := by
  induction l with
  | nil => cases h
  | cons t l ih =>
    rw [List.map_cons] at h
    rcases hg : g t with _ | _ | _ <;> rw [hg] at h
    · cases h
    · obtain ⟨t', ht', hg'⟩ := ih h
      exact ⟨t', List.mem_cons_of_mem t ht', hg'⟩
    · exact ⟨t, List.mem_cons_self, hg⟩

/-- A pattern that matches some key which is not empty has tokens. -/
lemma exists_parses {fuel : ℕ} {p s : List UInt8} (hs : s ≠ []) (h : stringmatchlenLoop fuel p s = some true) :
    ∃ ts, Parses p ts := by
  induction fuel generalizing p s with
  | zero => cases h
  | succ fuel ih =>
    obtain ⟨d, t, rfl⟩ := List.exists_cons_of_ne_nil hs
    have hnext : ∀ q, nextMatch fuel q t = some true → ∃ ts, Parses q ts := by
      intro q hq
      unfold nextMatch at hq
      split_ifs at hq with hempty
      · exact parses_of_onlyStars (Option.some.inj hq)
      · exact ih (by simpa using hempty) hq
    rcases p with _ | ⟨c, p⟩
    · exact ⟨[], .nil⟩
    by_cases hstar : c = 0x2a
    · subst hstar
      rw [loop_star] at h
      suffices hq : ∃ ts, Parses (p.dropWhile (· == 0x2a)) ts by
        obtain ⟨ts, hts⟩ := hq
        exact ⟨_, .star hts⟩
      split_ifs at h with hempty
      · rw [List.isEmpty_iff.mp hempty]
        exact ⟨[], .nil⟩
      · obtain ⟨t', ht', hmatch⟩ := exists_of_firstMatch h
        exact ih (by simpa using (List.mem_filter.mp ht').2) hmatch
    by_cases hany : c = 0x3f
    · subst hany
      rw [loop_any] at h
      obtain ⟨ts, hts⟩ := hnext p h
      exact ⟨_, .any hts⟩
    by_cases hbracket : c = 0x5b
    · subst hbracket
      rw [loop_bracket] at h
      rcases hclass : bracketClass d (classBody p).2 false with _ | ⟨found, rest⟩ <;> rw [hclass] at h
      · cases h
      · dsimp only at h
        split at h
        · obtain ⟨ts, hts⟩ := hnext rest h
          refine ⟨_, .bracket ?_ hts⟩
          rw [bracketClass_rest 0 d _ false false, hclass]
          rfl
        · cases h
    by_cases hescape : c = 0x5c → p = []
    · rw [loop_byte _ _ _ _ hstar hany hbracket hescape] at h
      split at h
      · obtain ⟨ts, hts⟩ := hnext p h
        exact ⟨_, .byte hstar hany hbracket hescape hts⟩
      · cases h
    · obtain ⟨rfl, hp⟩ := Classical.not_imp.mp hescape
      obtain ⟨e, p, rfl⟩ := List.exists_cons_of_ne_nil hp
      rw [loop_escape] at h
      split at h
      · obtain ⟨ts, hts⟩ := hnext p h
        exact ⟨_, .escape hts⟩
      · cases h

/-! ### Patterns that match themselves -/

/-- Every byte of the pattern is a token of its own. -/
def Simple (p : List UInt8) : Prop := 0x2a ∉ p ∧ 0x5b ∉ p ∧ 0x5c ∉ p.dropLast

/-- A class that stands for some byte is longer than its bracket. -/
lemma classRest_length_lt {p rest : List UInt8} (hrest : (bracketClass 0 (classBody p).2 false).map Prod.snd = some rest)
    {d : UInt8} (hd : classAccepts (classBody p) d = true) : rest.length < p.length := by
  obtain ⟨found, hclass⟩ := bracketClass_eq (c := d) hrest
  rw [classAccepts, hclass] at hd
  unfold classBody at hclass hd
  split at hclass
  · rename_i hnot
    obtain ⟨p, rfl⟩ : ∃ q, p = 0x5e :: q := by
      cases p with
      | nil => simp at hnot
      | cons c q => exact ⟨q, by simpa using hnot⟩
    rcases bracketClass_length hclass with hlt | ⟨hp, rfl, -⟩
    · simpa using Nat.lt_succ_of_lt hlt
    · simp
  · rename_i hnot
    rcases bracketClass_length hclass with hlt | ⟨-, -, rfl⟩
    · exact hlt
    · simp [hnot] at hd

lemma Parses.length_le {p : List UInt8} {ts : List (Glob.Token UInt8)} (h : Parses p ts) : ts.length ≤ p.length := by
  induction h with
  | nil => simp
  | @star p ts h ih =>
    have hlength := (List.dropWhile_suffix (l := p) (· == 0x2a)).length_le
    simpa using ih.trans hlength
  | any h ih | byte _ _ _ _ h ih => simpa using ih
  | bracket hrest h ih => simpa using ih.trans (classRest_length_le hrest)
  | escape h ih =>
    simp only [List.length_cons]
    omega

lemma simple_cons {c : UInt8} {p : List UInt8} (hstar : c ≠ 0x2a) (hbracket : c ≠ 0x5b) (hescape : c = 0x5c → p = [])
    (hp : Simple p) : Simple (c :: p) := by
  obtain ⟨h1, h2, h3⟩ := hp
  refine ⟨by simp [hstar.symm, h1], by simp [hbracket.symm, h2], ?_⟩
  cases p with
  | nil => simp
  | cons e p =>
    have hc : c ≠ 0x5c := fun hc => by cases hescape hc
    rw [List.dropLast_cons_cons, List.mem_cons, not_or]
    exact ⟨hc.symm, h3⟩

/-- Without a star only a pattern in which every byte is a token matches a key of its own length. -/
lemma simple_of_accepts {p s : List UInt8} {ts : List (Glob.Token UInt8)} (hp : Parses p ts)
    (hstar : ts.any Glob.Token.isStar = false) (h : Glob.accepts ts s = true) (hlength : p.length ≤ s.length) :
    Simple p := by
  induction hp generalizing s with
  | nil => simp [Simple]
  | star => simp [Glob.Token.isStar] at hstar
  | any hp ih =>
    obtain ⟨d, s, rfl, -, h⟩ := Glob.accepts_one_iff.mp h
    exact simple_cons (by decide) (by decide) (fun hc => absurd hc (by decide))
      (ih (by simpa [Glob.Token.isStar] using hstar) h (by simpa using hlength))
  | @bracket p rest ts hrest hp ih =>
    obtain ⟨d, s, rfl, hd, h⟩ := Glob.accepts_one_iff.mp h
    have hs := Glob.length_eq_of_accepts (by simpa [Glob.Token.isStar] using hstar) h
    have hts := hp.length_le
    have hlt := classRest_length_lt hrest hd
    simp only [List.length_cons] at hlength
    omega
  | @escape c p ts hp ih =>
    obtain ⟨d, s, rfl, -, h⟩ := Glob.accepts_one_iff.mp h
    have hs := Glob.length_eq_of_accepts (by simpa [Glob.Token.isStar] using hstar) h
    have hts := hp.length_le
    simp only [List.length_cons] at hlength
    omega
  | byte h1 h2 h3 h4 hp ih =>
    obtain ⟨d, s, rfl, -, h⟩ := Glob.accepts_one_iff.mp h
    exact simple_cons h1 h3 h4 (ih (by simpa [Glob.Token.isStar] using hstar) h (by simpa using hlength))

/-- What one byte of a simple pattern stands for. -/
def byteAccepts (b : UInt8) : UInt8 → Bool := if b = 0x3f then fun _ => true else (· == b)

lemma byteAccepts_self (b : UInt8) : byteAccepts b b = true := by
  unfold byteAccepts
  split <;> simp

lemma Simple.parses {p : List UInt8} (h : Simple p) : Parses p (p.map (fun b => .one (byteAccepts b))) := by
  induction p with
  | nil => exact .nil
  | cons c p ih =>
    obtain ⟨h1, h2, h3⟩ := h
    rw [List.mem_cons, not_or] at h1 h2
    have hp : Simple p := ⟨h1.2, h2.2, fun hmem => h3 ?_⟩
    · rw [List.map_cons]
      by_cases hany : c = 0x3f
      · subst hany
        exact .any (ih hp)
      · have hescape : c = 0x5c → p = [] := by
          rintro rfl
          by_contra hne
          obtain ⟨e, q, rfl⟩ := List.exists_cons_of_ne_nil hne
          exact h3 (by simp [List.dropLast_cons_cons])
        have hbyte := Parses.byte (Ne.symm h1.1) hany (Ne.symm h2.1) hescape (ih hp)
        rwa [byteAccepts, if_neg hany]
    · cases p with
      | nil => simp at hmem
      | cons e q => exact List.mem_cons_of_mem c hmem

/-- A simple pattern matches byte by byte. -/
lemma stringmatchlen_of_simple {p : List UInt8} (h : Simple p) {s : List UInt8} (hs : s ≠ []) :
    stringmatchlen p s = some (decide (List.Forall₂ (fun b c => byteAccepts b c = true) p s)) := by
  rw [stringmatchlen, stringmatchlenLoop_eq h.parses (Nat.lt_succ_self _) s hs]
  congr 1
  rw [Bool.eq_iff_iff, Glob.accepts_map_one, decide_eq_true_iff]

/-! ### Names -/

/-- The name has none of the characters `*`, `?` and `[`, and a backslash at most at its end. -/
def Plain (name : String) : Prop :=
  (∀ c ∈ name.toList, c ≠ '*' ∧ c ≠ '?' ∧ c ≠ '[') ∧ '\\' ∉ name.toList.dropLast

-- checked along the name; `Char` is finite as well, but has too many values to go through
instance (name : String) : Decidable (Plain name) :=
  have : Decidable (∀ c ∈ name.toList, c ≠ '*' ∧ c ≠ '?' ∧ c ≠ '[') := List.decidableBAll _ name.toList
  inferInstanceAs (Decidable (_ ∧ _))

lemma utf8Bytes_injective : Function.Injective utf8Bytes := by
  intro a b h
  unfold utf8Bytes at h
  rw [String.toUTF8_eq_toByteArray, String.toUTF8_eq_toByteArray] at h
  exact String.toByteArray_inj.mp (ByteArray.ext (Array.toList_inj.mp h))

/-- An ASCII byte is a character of its own. -/
lemma utf8EncodeChar_of_mem {c : Char} {b : UInt8} (hb : b.toNat < 128) (h : b ∈ String.utf8EncodeChar c) :
    c.toNat = b.toNat ∧ String.utf8EncodeChar c = [b] := by
  have hlarge : ∀ n, 128 ≤ n → n < 256 → ¬(UInt8.ofNat n).toNat < 128 := by
    intro n hn hn'
    rw [UInt8.toNat_ofNat']
    omega
  unfold String.utf8EncodeChar at h ⊢
  dsimp only at h ⊢
  split_ifs at h ⊢ with h1 h2 h3
  · have hc : c.toNat ≤ 127 := h1
    rw [List.mem_singleton.mp h, UInt8.toNat_ofNat']
    exact ⟨(Nat.mod_eq_of_lt (by omega)).symm, rfl⟩
  all_goals
    simp only [List.mem_cons, List.not_mem_nil, or_false] at h
    rcases h with rfl | rfl | rfl | rfl <;> exact absurd hb (hlarge _ (by omega) (by omega))

lemma utf8EncodeChar_of_ascii {c : Char} (hc : c.toNat < 128) : String.utf8EncodeChar c = [UInt8.ofNat c.toNat] :=
  if_pos (Nat.lt_succ_iff.mp hc)

lemma toNat_ofNat_of_ascii {c : Char} (hc : c.toNat < 128) : (UInt8.ofNat c.toNat).toNat = c.toNat := by
  rw [UInt8.toNat_ofNat']
  exact Nat.mod_eq_of_lt (by omega)

lemma ascii_mem_flatMap {cs : List Char} {a : Char} (ha : a.toNat < 128) :
    UInt8.ofNat a.toNat ∈ cs.flatMap String.utf8EncodeChar ↔ a ∈ cs := by
  rw [List.mem_flatMap]
  constructor
  · rintro ⟨c, hc, hb⟩
    have heq := (utf8EncodeChar_of_mem (by rwa [toNat_ofNat_of_ascii ha]) hb).1
    rw [toNat_ofNat_of_ascii ha] at heq
    rwa [← Char.toNat_inj.mp heq]
  · intro hmem
    exact ⟨a, hmem, by simp [utf8EncodeChar_of_ascii ha]⟩

/-- The last character takes the last byte with it. -/
lemma ascii_mem_dropLast_flatMap {cs : List Char} {a : Char} (ha : a.toNat < 128) :
    UInt8.ofNat a.toNat ∈ (cs.flatMap String.utf8EncodeChar).dropLast ↔ a ∈ cs.dropLast := by
  rcases cs.eq_nil_or_concat with rfl | ⟨cs, c, rfl⟩
  · simp
  · rw [List.concat_eq_append]
    have hne : String.utf8EncodeChar c ≠ [] := by
      unfold String.utf8EncodeChar
      dsimp only
      split_ifs <;> simp
    have hlast : UInt8.ofNat a.toNat ∉ (String.utf8EncodeChar c).dropLast := by
      intro hmem
      have hsingle := (utf8EncodeChar_of_mem (by rwa [toNat_ofNat_of_ascii ha]) (List.mem_of_mem_dropLast hmem)).2
      rw [hsingle] at hmem
      cases hmem
    rw [List.flatMap_append, List.flatMap_singleton, List.dropLast_append_of_ne_nil hne, List.mem_append,
      ascii_mem_flatMap ha, List.dropLast_concat]
    simp [hlast]

lemma plain_iff {name : String} : Plain name ↔ Simple (utf8Bytes name) ∧ 0x3f ∉ utf8Bytes name := by
  have hstar : (0x2a : UInt8) ∈ utf8Bytes name ↔ '*' ∈ name.toList := by
    rw [utf8Bytes_eq_flatMap]
    exact ascii_mem_flatMap (a := '*') (by decide)
  have hany : (0x3f : UInt8) ∈ utf8Bytes name ↔ '?' ∈ name.toList := by
    rw [utf8Bytes_eq_flatMap]
    exact ascii_mem_flatMap (a := '?') (by decide)
  have hbracket : (0x5b : UInt8) ∈ utf8Bytes name ↔ '[' ∈ name.toList := by
    rw [utf8Bytes_eq_flatMap]
    exact ascii_mem_flatMap (a := '[') (by decide)
  have hescape : (0x5c : UInt8) ∈ (utf8Bytes name).dropLast ↔ '\\' ∈ name.toList.dropLast := by
    rw [utf8Bytes_eq_flatMap]
    exact ascii_mem_dropLast_flatMap (a := '\\') (by decide)
  have hall : (∀ c ∈ name.toList, c ≠ '*' ∧ c ≠ '?' ∧ c ≠ '[') ↔
      '*' ∉ name.toList ∧ '?' ∉ name.toList ∧ '[' ∉ name.toList := by
    constructor
    · exact fun h => ⟨fun hc => (h _ hc).1 rfl, fun hc => (h _ hc).2.1 rfl, fun hc => (h _ hc).2.2 rfl⟩
    · rintro ⟨h1, h2, h3⟩ c hc
      refine ⟨?_, ?_, ?_⟩ <;> rintro rfl <;> contradiction
  rw [Plain, Simple, hstar, hany, hbracket, hescape, hall]
  tauto

lemma Simple.of_cons {c : UInt8} {p : List UInt8} (h : Simple (c :: p)) :
    c ≠ 0x2a ∧ c ≠ 0x5b ∧ (c = 0x5c → p = []) ∧ Simple p := by
  obtain ⟨h1, h2, h3⟩ := h
  rw [List.mem_cons, not_or] at h1 h2
  cases p with
  | nil => exact ⟨Ne.symm h1.1, Ne.symm h2.1, fun _ => rfl, by simp [Simple]⟩
  | cons e p =>
    rw [List.dropLast_cons_cons, List.mem_cons, not_or] at h3
    exact ⟨Ne.symm h1.1, Ne.symm h2.1, fun hc => absurd hc.symm h3.1, h1.2, h2.2, h3.2⟩

/-- Past the end of the empty key a simple pattern does not match, whatever the memory holds. -/
lemma matchPastEnd_of_simple {fuel : ℕ} {p : List UInt8} (h : Simple p) (hfuel : p.length < fuel) :
    matchPastEnd fuel p = some false := by
  induction p generalizing fuel with
  | nil =>
    cases fuel with
    | zero => cases hfuel
    | succ fuel => rfl
  | cons c p ih =>
    obtain ⟨hstar, hbracket, hescape, hp⟩ := h.of_cons
    cases fuel with
    | zero => cases hfuel
    | succ fuel =>
      have ih := ih hp (by simpa using hfuel)
      by_cases hany : c = 0x3f
      · subst hany
        exact ih
      · rw [matchPastEnd]
        · exact if_pos ih
        · exact hstar
        · exact hany
        · exact hbracket
        · intro e q hc hq
          rw [hescape hc] at hq
          cases hq

lemma stringmatchlen_nil_of_simple {c : UInt8} {p : List UInt8} (h : Simple (c :: p)) :
    stringmatchlen (c :: p) [] = some false := by
  obtain ⟨hstar, hbracket, hescape, hp⟩ := h.of_cons
  by_cases hany : c = 0x3f
  · subst hany
    rfl
  · rw [stringmatchlen, stringmatchlenLoop]
    · simp [matchPastEnd_of_simple hp]
    · exact hstar
    · exact hany
    · exact hbracket
    · intro e q hc hq
      rw [hescape hc] at hq
      cases hq

lemma not_allkeys_of_plain {name : String} (h : Plain name) : allkeys name = false := by
  have hstar := (plain_iff.mp h).1.1
  unfold allkeys
  split
  · rename_i heq
    rw [heq] at hstar
    simp at hstar
  · rfl

lemma forall₂_byteAccepts_iff {p s : List UInt8} (h : 0x3f ∉ p) :
    List.Forall₂ (fun b c => byteAccepts b c = true) p s ↔ p = s := by
  induction p generalizing s with
  | nil => rw [List.forall₂_nil_left_iff, eq_comm]
  | cons b p ih =>
    rw [List.mem_cons, not_or] at h
    cases s with
    | nil => simp [List.forall₂_nil_right_iff]
    | cons c s =>
      rw [List.forall₂_cons, ih h.2, byteAccepts, if_neg (Ne.symm h.1), beq_iff_eq, List.cons.injEq, eq_comm (a := c)]

lemma stringmatchlen_of_plain {p : List UInt8} (hsimple : Simple p) (hany : 0x3f ∉ p) (s : List UInt8) :
    stringmatchlen p s = some (decide (p = s)) := by
  cases p with
  | nil => cases s <;> rfl
  | cons c p =>
    cases s with
    | nil => rw [stringmatchlen_nil_of_simple hsimple]; rfl
    | cons d s =>
      rw [stringmatchlen_of_simple hsimple (by simp)]
      exact congrArg some (decide_eq_decide.mpr (forall₂_byteAccepts_iff hany))

/-- A plain name matches exactly itself. -/
theorem keyMatches_of_plain {name : String} (h : Plain name) (key : String) :
    keyMatches name key = some (decide (name = key)) := by
  obtain ⟨hsimple, hany⟩ := plain_iff.mp h
  rw [keyMatches, not_allkeys_of_plain h, if_neg Bool.false_ne_true, stringmatchlen_of_plain hsimple hany]
  exact congrArg some (decide_eq_decide.mpr utf8Bytes_injective.eq_iff)

lemma utf8Bytes_append (a b : String) : utf8Bytes (a ++ b) = utf8Bytes a ++ utf8Bytes b := by
  simp [utf8Bytes_eq_flatMap]

/-- A name with a glob character that matches itself matches another name too. -/
lemma exists_other_match {name : String} (hname : ¬Plain name)
    (h : stringmatchlen (utf8Bytes name) (utf8Bytes name) = some true) :
    ∃ key, key ≠ name ∧ stringmatchlen (utf8Bytes name) (utf8Bytes key) = some true := by
  have hne : name ≠ "" := fun hempty => hname (hempty ▸ by decide)
  have hbytes : utf8Bytes name ≠ [] := fun hempty => hne (utf8Bytes_injective hempty)
  obtain ⟨ts, hts⟩ := exists_parses hbytes h
  have haccepts : Glob.accepts ts (utf8Bytes name) = true := by
    rw [stringmatchlen, stringmatchlenLoop_eq hts (Nat.lt_succ_self _) _ hbytes] at h
    exact Option.some.inj h
  cases hstar : ts.any Glob.Token.isStar with
  | true =>
    -- the star also stands for what it takes to read the name twice
    obtain ⟨a, b, hab, hw⟩ := Glob.exists_insertion hstar haccepts
    refine ⟨name ++ name, ?_, ?_⟩
    · intro heq
      have hlength := congrArg (List.length ∘ String.toList) heq
      simp at hlength
      exact hne hlength
    · have htwice : utf8Bytes (name ++ name) = a ++ (b ++ a) ++ b := by
        rw [utf8Bytes_append, hab]
        simp
      rw [stringmatchlen, stringmatchlenLoop_eq hts (Nat.lt_succ_self _) _ (by simp [utf8Bytes_append, hbytes]), htwice, hw]
  | false =>
    -- every byte is a token, and one of them a question mark
    have hsimple := simple_of_accepts hts hstar haccepts le_rfl
    have hmark : '?' ∈ name.toList := by
      by_contra hno
      refine hname (plain_iff.mpr ⟨hsimple, ?_⟩)
      rw [utf8Bytes_eq_flatMap]
      exact fun hmem => hno ((ascii_mem_flatMap (a := '?') (by decide)).mp hmem)
    obtain ⟨A, B, hAB⟩ := List.append_of_mem hmark
    have hkey : (String.ofList (A ++ 'a' :: B)).toList = A ++ 'a' :: B := String.toList_ofList
    refine ⟨String.ofList (A ++ 'a' :: B), ?_, ?_⟩
    · intro heq
      rw [heq, hAB] at hkey
      simp at hkey
    · rw [stringmatchlen_of_simple hsimple]
      · refine congrArg some (decide_eq_true ?_)
        rw [utf8Bytes_eq_flatMap, utf8Bytes_eq_flatMap, hkey, hAB]
        simp only [List.flatMap_append, List.flatMap_cons]
        refine List.rel_append (List.forall₂_same.mpr fun b _ => byteAccepts_self b) ?_
        exact .cons rfl (List.forall₂_same.mpr fun b _ => byteAccepts_self b)
      · simp [utf8Bytes_eq_flatMap, utf8EncodeChar_of_ascii (c := 'a') (by decide)]

/-- For every other name `KEYS` goes wrong: the name does not match itself, or matches another. -/
theorem exists_mismatch_of_not_plain {name : String} (h : ¬Plain name) :
    keyMatches name name ≠ some true ∨ ∃ key, key ≠ name ∧ keyMatches name key = some true := by
  by_cases hall : allkeys name = true
  · refine Or.inr ⟨name ++ "a", ?_, if_pos hall⟩
    intro heq
    have hlength := congrArg (List.length ∘ String.toList) heq
    simp at hlength
  · by_cases hself : keyMatches name name = some true
    · rw [keyMatches, if_neg hall] at hself
      obtain ⟨key, hkey, hmatch⟩ := exists_other_match h hself
      exact Or.inr ⟨key, hkey, (if_neg hall).trans hmatch⟩
    · exact Or.inl hself

/-! ### What `KEYS` answers -/

lemma overruns_of_plain {name : String} (h : Plain name) (store : Store) : Store.overruns store name = false := by
  rw [Store.overruns, List.any_eq_false]
  intro key _
  simp [keyMatches_of_plain h]

/-- For a plain name `KEYS` tells whether the record is there. -/
lemma matching_eq_nil_iff {name : String} (h : Plain name) (store : Store) :
    Store.matching store name = [] ↔ name ∉ store := by
  rw [Store.matching, overruns_of_plain h, if_neg Bool.false_ne_true, List.filter_eq_nil_iff, AList.mem_keys]
  simp only [keyMatches_of_plain h]
  constructor
  · intro hno hmem
    exact hno name hmem (by simp)
  · intro hmem key hkey hmatch
    obtain rfl : name = key := by simpa using hmatch
    exact hmem hkey

lemma lacks_iff {name : String} (h : Plain name) (store : Store) : Store.lacks store name = true ↔ name ∉ store := by
  rw [Store.lacks, overruns_of_plain h, Bool.not_false, Bool.true_and, List.isEmpty_iff, matching_eq_nil_iff h]

end ExpressAuth.Proofs
