import ExpressAuth.Proofs.Replies

/-!
# The reply parser on a stream cut into chunks

The parser keeps an unfinished reply in one of four ways: as bytes, as the elements of an array so far,
as the chunks of a long string, or as both. Each of them stands for bytes that the grammar cannot decide
yet, and one call of `execute` takes in a chunk as the grammar would.
-/

namespace ExpressAuth.NodeRedis.Parser

open Framing

/-! ### Places in the buffer -/

/-- The parser stands before the part `s` of its buffer `b`. -/
structure At (p : Parser) (b s : List UInt8) : Prop where
  buffer : p.buffer = some b
  suffix : s <:+ b
  offset : p.offset = b.length - s.length

/-- The parser moved to what is left of its buffer. -/
def upTo (p : Parser) (b rest : List UInt8) : Parser := { p with offset := b.length - rest.length }

/-- Reads that leave the parser where it was until they succeed. -/
def answer {β : Type} (p : Parser) (b : List UInt8) : Step UInt8 β → Parser × Option β
  | .frame v rest => (upTo p b rest, some v)
  | _ => (p, none)

namespace At

variable {p : Parser} {b s : List UInt8}

lemma bytes_eq (h : At p b s) : p.bytes = b := by rw [bytes, h.buffer, Option.getD_some]

lemma drop_eq (h : At p b s) : b.drop p.offset = s := by
  rw [h.offset]
  exact (List.suffix_iff_eq_drop.mp h.suffix).symm

lemma getElem?_eq (h : At p b s) : b[p.offset]? = s.head? := by
  rw [← List.head?_drop, h.drop_eq]

lemma upTo_self (h : At p b s) : upTo p b s = p := by
  rw [upTo, ← h.offset]

lemma move (h : At p b s) {rest : List UInt8} (hrest : rest <:+ b) : At (upTo p b rest) b rest :=
  ⟨h.buffer, hrest, rfl⟩

lemma next {a : UInt8} (h : At p b (a :: s)) : At { p with offset := p.offset + 1 } b s := by
  have hlen := h.suffix.length_le
  refine ⟨h.buffer, (List.suffix_cons a s).trans h.suffix, ?_⟩
  rw [List.length_cons] at hlen
  simp only [h.offset, List.length_cons]
  omega

end At

/-! ### Lines and numbers -/

lemma parseSimpleNumbersLoop_eq (s : List UInt8) (offset : ℕ) (n : ℤ) :
    parseSimpleNumbersLoop s offset n = match readLine 13 s with
      | .frame line _ => some (digitsNumber n line, offset + line.length + 2)
      | _ => none := by
  induction s generalizing offset n with
  | nil => rfl
  | cons c1 s ih =>
    cases s with
    | nil => rfl
    | cons c2 s =>
      by_cases hc : c1 = 13
      · rw [parseSimpleNumbersLoop, readLine, if_pos hc, if_pos hc]
        rfl
      · rw [parseSimpleNumbersLoop, if_neg hc, readLine_cons hc, ih]
        cases readLine 13 (c2 :: s) with
        | need => rfl
        | bad => rfl
        | frame line rest =>
          simp only [Step.frame_map, List.length_cons, digitsNumber, List.foldl_cons]
          congr 2
          omega

lemma parseSimpleStringLoop_eq (s : List UInt8) (offset : ℕ) :
    parseSimpleStringLoop s offset = match readLine 13 s with
      | .frame line _ => some (offset + line.length)
      | _ => none := by
  induction s generalizing offset with
  | nil => rfl
  | cons c1 s ih =>
    cases s with
    | nil => rfl
    | cons c2 s =>
      by_cases hc : c1 = 13
      · rw [parseSimpleStringLoop, readLine, if_pos hc, if_pos hc]
        rfl
      · rw [parseSimpleStringLoop, if_neg hc, readLine_cons hc, ih]
        cases readLine 13 (c2 :: s) with
        | need => rfl
        | bad => rfl
        | frame line rest =>
          simp only [Step.frame_map, List.length_cons]
          congr 1
          omega

lemma parseSimpleNumbers_eq {p : Parser} {b s : List UInt8} (h : At p b s) :
    p.parseSimpleNumbers = answer p b (readNumber s) := by
  have hlen := h.suffix.length_le
  rw [parseSimpleNumbers]
  simp only [h.bytes_eq, h.getElem?_eq]
  by_cases hneg : s.head? = some 45
  · cases s with
    | nil => exact absurd hneg (by simp)
    | cons a s =>
      obtain rfl : a = 45 := Option.some.inj hneg
      have hdrop : b.drop (p.offset + 1) = s := h.next.drop_eq
      simp only [hneg, if_true, hdrop, parseSimpleNumbersLoop_eq]
      rw [readNumber, readLine_cons (by decide)]
      cases hread : readLine 13 s with
      | need => rfl
      | bad => rfl
      | frame line rest =>
        obtain ⟨-, c, rfl⟩ := readLine_eq_frame_iff.mp hread
        simp only [Step.frame_map, answer, lineNumber, List.head?_cons, if_true, List.tail_cons, upTo]
        congr 2
        simp only [h.offset, List.length_cons, List.length_append] at hlen ⊢
        omega
  · have hdrop : b.drop p.offset = s := h.drop_eq
    simp only [hneg, if_false, hdrop, parseSimpleNumbersLoop_eq]
    rw [readNumber]
    cases hread : readLine 13 s with
    | need => rfl
    | bad => rfl
    | frame line rest =>
      obtain ⟨-, c, rfl⟩ := readLine_eq_frame_iff.mp hread
      have hhead : line.head? ≠ some 45 := by
        intro hline
        cases line with
        | nil => exact absurd hline (by simp)
        | cons a line => exact hneg hline
      simp only [Step.frame_map, answer, lineNumber, hhead, if_false, upTo]
      congr 2
      simp only [h.offset, List.length_cons, List.length_append] at hlen ⊢
      omega

lemma parseSimpleStringViaOffset_eq {p : Parser} {b s : List UInt8} (h : At p b s) :
    p.parseSimpleStringViaOffset = answer p b (readLine 13 s) := by
  have hlen := h.suffix.length_le
  rw [parseSimpleStringViaOffset, h.bytes_eq, h.drop_eq, parseSimpleStringLoop_eq]
  cases hread : readLine 13 s with
  | need => rfl
  | bad => rfl
  | frame line rest =>
    obtain ⟨-, c, rfl⟩ := readLine_eq_frame_iff.mp hread
    have hline : (b.take (p.offset + line.length)).drop p.offset = line := by
      rw [List.drop_take, h.drop_eq, Nat.add_sub_cancel_left, List.take_left]
    simp only [convertBufferRange, h.bytes_eq, hline, answer, upTo]
    congr 2
    simp only [h.offset, List.length_cons, List.length_append] at hlen ⊢
    omega

/-! ### Replies that are not finished -/

/-- What an attempt to parse never touches. -/
structure Kept (p p' : Parser) : Prop where
  buffer : p'.buffer = p.buffer
  returned : p'.returned = p.returned
  fatal : p'.fatal = p.fatal

/-- No long string was met, or one was, and reading on cannot succeed before its end. -/
def NoSooner {β : Type} (b : List UInt8) (read : List UInt8 → Step UInt8 β) (p p' : Parser) : Prop :=
  (p'.bigStrSize = p.bigStrSize ∧ p'.bufferCache = p.bufferCache) ∨
    (p'.bufferCache = p.bufferCache ++ [b] ∧ p'.totalChunkSize = b.length ∧ b.length < p'.bigStrSize ∧
      ∀ t, (b ++ t).length < p'.bigStrSize → read t = .need)

lemma NoSooner.imp {β γ : Type} {b : List UInt8} {read : List UInt8 → Step UInt8 β}
    {read' : List UInt8 → Step UInt8 γ} {p p' : Parser} (h : NoSooner b read p p')
    (hread : ∀ t, read t = .need → read' t = .need) : NoSooner b read' p p' := by
  rcases h with hsame | ⟨hcache, htotal, hshort, hneed⟩
  · exact Or.inl hsame
  · exact Or.inr ⟨hcache, htotal, hshort, fun t ht => hread t (hneed t ht)⟩

/-- With the bytes `chunks` of the stream at hand the reply is a string from `bigOffset` on that ends,
line break included, at `bigStrSize`. -/
structure LongString (chunks : List UInt8) (read : List UInt8 → Step UInt8 Value) (p : Parser) : Prop where
  total : p.totalChunkSize = chunks.length
  short : chunks.length < p.bigStrSize
  begin : p.bigOffset + 2 ≤ p.bigStrSize
  read_eq : ∀ t, read t = if (chunks ++ t).length < p.bigStrSize then .need else
    .frame (.str (((chunks ++ t).take (p.bigStrSize - 2)).drop p.bigOffset)) ((chunks ++ t).drop p.bigStrSize)

/-- The reply is an array of which `elements` are read, and the rest begins at `place`. -/
structure PartArray (stack : ℕ) (place : List UInt8) (read : List UInt8 → Step UInt8 Value) (length : ℕ)
    (elements : List Value) : Prop where
  bound : elements.length ≤ length
  read_eq : ∀ t, read t =
    (readTimes (readValue stack) (length - elements.length) elements (place ++ t)).map .array

/-- How the parser is left when the part `s` of its buffer `b` is not a whole reply. -/
inductive Stuck (b : List UInt8) (p p' : Parser) : ℕ → (List UInt8 → Step UInt8 Value) → Prop where
  | bytes {stack : ℕ} {read : List UInt8 → Step UInt8 Value} (harray : p'.arrayCache = p.arrayCache)
      (hsize : p'.bigStrSize = p.bigStrSize) (hcache : p'.bufferCache = p.bufferCache) : Stuck b p p' stack read
  | string {stack : ℕ} {read : List UInt8 → Step UInt8 Value} (harray : p'.arrayCache = p.arrayCache)
      (hcache : p'.bufferCache = p.bufferCache ++ [b]) (hfirst : p'.bigOffset ≤ b.length)
      (hlong : LongString b read p') : Stuck b p p' stack read
  | array {stack : ℕ} {read : List UInt8 → Step UInt8 Value} {length : ℕ} {elements : List Value}
      (harray : p'.arrayCache = some (length, elements)) (hoffset : p'.offset ≤ b.length)
      (hpart : PartArray stack (b.drop p'.offset) read length elements) (hbig : NoSooner b read p p') :
      Stuck b p p' (stack + 1) read

lemma Stuck.noSooner {b : List UInt8} {p p' : Parser} {stack : ℕ} {read : List UInt8 → Step UInt8 Value}
    (h : Stuck b p p' stack read) : NoSooner b read p p' := by
  cases h with
  | bytes _ hsize hcache => exact Or.inl ⟨hsize, hcache⟩
  | string _ hcache _ hlong =>
    refine Or.inr ⟨hcache, hlong.total, hlong.short, fun t ht => ?_⟩
    rw [hlong.read_eq, if_pos ht]
  | array _ _ _ hbig => exact hbig

lemma Kept.refl (p : Parser) : Kept p p := ⟨rfl, rfl, rfl⟩

/-- What one call of `parseType` does where the grammar has decided, and where it needs more. -/
structure TypeSpec (stack : ℕ) : Prop where
  frame : ∀ {p b s type v rest}, At p b s → (type :: s) <:+ b → readValue stack (type :: s) = .frame v rest →
    parseType stack p type = (upTo p b rest, some v)
  need : ∀ {p b s type}, At p b s → (type :: s) <:+ b → readValue stack (type :: s) = .need →
    ∃ p', parseType stack p type = (p', none) ∧ Kept p p' ∧
      Stuck b p p' stack (fun t => readValue stack (type :: s ++ t))

/-! ### The elements of an array -/

section Elements

variable {stack : ℕ} (htype : TypeSpec stack)
include htype

lemma parseArrayElements_frame {length count : ℕ} {elements vs : List Value} {p : Parser} {b s rest : List UInt8}
    (h : At p b s) (hread : readTimes (readValue stack) count elements s = .frame vs rest) :
    parseArrayElements (parseType stack) length count elements p = (upTo p b rest, some (.array vs)) := by
  induction count generalizing elements p s with
  | zero =>
    obtain ⟨rfl, rfl⟩ := Step.frame.inj hread
    rw [parseArrayElements, h.upTo_self]
  | succ count ih =>
    obtain ⟨v, mid, hv, hmid⟩ := Step.andThen_eq_frame_iff.mp hread
    cases s with
    | nil => exact absurd ((readValue_nil stack).symm.trans hv) (by simp)
    | cons type s =>
      have hget : p.bytes[p.offset]? = some type := by rw [h.bytes_eq, h.getElem?_eq, List.head?_cons]
      have hsuffix : mid <:+ b := ((stable_readValue stack).suffix hv).trans h.suffix
      simp only [parseArrayElements, hget, htype.frame h.next h.suffix hv]
      exact ih (h.next.move hsuffix) hmid

/-- The elements before the one that is not finished are kept, and the parser stands before that one. -/
lemma parseArrayElements_need {length count : ℕ} {elements : List Value}
    (hlength : length = elements.length + count) {p : Parser} {b s : List UInt8} (h : At p b s)
    (hread : readTimes (readValue stack) count elements s = .need) :
    ∃ p' elements', parseArrayElements (parseType stack) length count elements p = (p', none) ∧
      Kept p p' ∧ p'.arrayCache = some (length, elements') ∧ p'.offset ≤ b.length ∧
      elements'.length ≤ length ∧ (∀ t, readTimes (readValue stack) count elements (s ++ t) =
        readTimes (readValue stack) (length - elements'.length) elements' (b.drop p'.offset ++ t)) ∧
      NoSooner b (fun t => readTimes (readValue stack) count elements (s ++ t)) p p' := by
  induction count generalizing elements p s with
  | zero => exact absurd hread (by simp [readTimes])
  | succ count ih =>
    have hcount : length - elements.length = count + 1 := by omega
    have hoffset : p.offset ≤ b.length := by
      rw [h.offset]
      omega
    cases s with
    | nil =>
      have hget : p.bytes[p.offset]? = none := by rw [h.bytes_eq, h.getElem?_eq, List.head?_nil]
      simp only [parseArrayElements, hget]
      refine ⟨_, elements, rfl, ⟨rfl, rfl, rfl⟩, rfl, hoffset, by omega, fun t => ?_, Or.inl ⟨rfl, rfl⟩⟩
      rw [hcount, h.drop_eq]
    | cons type s =>
      have hget : p.bytes[p.offset]? = some type := by rw [h.bytes_eq, h.getElem?_eq, List.head?_cons]
      rcases Step.andThen_eq_need_iff.mp hread with hv | ⟨v, mid, hv, hmid⟩
      · obtain ⟨p', hparse, hkept, hstuck⟩ := htype.need h.next h.suffix hv
        simp only [parseArrayElements, hget, hparse]
        refine ⟨_, elements, rfl, ⟨hkept.buffer, hkept.returned, hkept.fatal⟩, rfl, hoffset, by omega,
          fun t => ?_, ?_⟩
        · rw [hcount, h.drop_eq]
        · exact hstuck.noSooner.imp (fun t ht => Step.andThen_eq_need_iff.mpr (Or.inl ht))
      · have hsuffix : mid <:+ b := ((stable_readValue stack).suffix hv).trans h.suffix
        have hmore (t : List UInt8) : readTimes (readValue stack) (count + 1) elements (type :: s ++ t) =
            readTimes (readValue stack) count (elements ++ [v]) (mid ++ t) := by
          rw [readTimes, (stable_readValue stack).frame_append t hv, Step.frame_andThen]
        have hlength' : length = (elements ++ [v]).length + count := by
          rw [List.length_append, List.length_singleton]
          omega
        obtain ⟨p', elements', hparse, hkept, hrest⟩ := ih hlength' (h.next.move hsuffix) hmid
        simp only [parseArrayElements, hget, htype.frame h.next h.suffix hv, hmore]
        exact ⟨p', elements', hparse, ⟨hkept.buffer, hkept.returned, hkept.fatal⟩, hrest⟩

end Elements

/-! ### One reply -/

/-- A read that succeeds or leaves the parser alone, for each of the types that are one line. -/
lemma answer_need {β : Type} {p : Parser} {b : List UInt8} {stack : ℕ} {read : List UInt8 → Step UInt8 Value}
    (f : β → Value) {r : Step UInt8 β} (h : r.map f = .need) :
    ∃ p', ((answer p b r).1, (answer p b r).2.map f) = (p', none) ∧ Kept p p' ∧ Stuck b p p' stack read := by
  rw [Step.map_eq_need_iff.mp h]
  exact ⟨p, rfl, .refl p, .bytes rfl rfl rfl⟩

lemma answer_frame {β : Type} {p : Parser} {b rest : List UInt8} {v : Value} (f : β → Value) {r : Step UInt8 β}
    (h : r.map f = .frame v rest) : ((answer p b r).1, (answer p b r).2.map f) = (upTo p b rest, some v) := by
  obtain ⟨x, rfl, rfl⟩ := Step.map_eq_frame_iff.mp h
  rfl

lemma parseBulkString_frame {p : Parser} {b s rest : List UInt8} {v : Value} (h : At p b s)
    (hread : readBulk s = .frame v rest) : p.parseBulkString = (upTo p b rest, some v) := by
  obtain ⟨length, mid, hlength, hmid⟩ := Step.andThen_eq_frame_iff.mp hread
  have hsuffix : mid <:+ b := (stable_readNumber.suffix hlength).trans h.suffix
  rw [parseBulkString, parseSimpleNumbers_eq h, hlength]
  simp only [answer]
  by_cases hnull : length = -1
  · rw [if_pos hnull] at hmid ⊢
    obtain ⟨rfl, rfl⟩ := Step.frame.inj hmid
    rfl
  · have hat := h.move hsuffix
    have hlen := hsuffix.length_le
    rw [if_neg hnull, readBlock] at hmid
    by_cases hshort : mid.length < length.toNat + 2
    · rw [if_pos hshort] at hmid
      exact absurd hmid (by simp)
    · rw [if_neg hshort, Step.frame_map] at hmid
      obtain ⟨rfl, rfl⟩ := Step.frame.inj hmid
      have henough : ¬(upTo p b mid).offset + length.toNat + 2 > b.length := by
        rw [hat.offset]
        omega
      have hstring : (b.take ((upTo p b mid).offset + length.toNat)).drop (upTo p b mid).offset =
          mid.take length.toNat := by
        rw [List.drop_take, hat.drop_eq, Nat.add_sub_cancel_left]
      rw [if_neg hnull, hat.bytes_eq, if_neg henough]
      simp only [convertBufferRange, hat.bytes_eq, hstring]
      simp only [upTo, List.length_drop]
      congr 2
      omega

lemma parseBulkString_need {p : Parser} {b s : List UInt8} {stack : ℕ} (h : At p b s) (hread : readBulk s = .need) :
    ∃ p', p.parseBulkString = (p', none) ∧ Kept p p' ∧ Stuck b p p' stack (fun t => readBulk (s ++ t)) := by
  rw [parseBulkString, parseSimpleNumbers_eq h]
  rcases Step.andThen_eq_need_iff.mp hread with hlength | ⟨length, mid, hlength, hmid⟩
  · rw [hlength]
    exact ⟨p, rfl, .refl p, .bytes rfl rfl rfl⟩
  · have hsuffix : mid <:+ b := (stable_readNumber.suffix hlength).trans h.suffix
    have hat := h.move hsuffix
    have hlen := hsuffix.length_le
    rw [hlength]
    simp only [answer]
    by_cases hnull : length = -1
    · rw [if_pos hnull] at hmid
      exact absurd hmid (by simp)
    · rw [if_neg hnull, Step.map_eq_need_iff, readBlock] at hmid
      have hshort : mid.length < length.toNat + 2 := by
        by_contra hlong
        rw [if_neg hlong] at hmid
        exact absurd hmid (by simp)
      have hmissing : (upTo p b mid).offset + length.toNat + 2 > b.length := by
        rw [hat.offset]
        omega
      have hplace : (upTo p b mid).offset ≤ b.length := hat.offset.trans_le (Nat.sub_le _ _)
      rw [if_neg hnull, hat.bytes_eq, if_pos hmissing]
      refine ⟨_, rfl, ⟨rfl, rfl, rfl⟩, .string rfl rfl hplace ⟨rfl, hmissing, ?_, fun t => ?_⟩⟩
      · exact Nat.add_le_add_right (Nat.le_add_right _ _) 2
      · have hmore : readBulk (s ++ t) = (readBlock length.toNat 2 (mid ++ t)).map .str := by
          rw [readBulk, stable_readNumber.frame_append t hlength, Step.frame_andThen, if_neg hnull]
        have hdrop : mid ++ t = (b ++ t).drop (upTo p b mid).offset := by
          rw [List.drop_append_of_le_length hplace, hat.drop_eq]
        have hplace' : (upTo p b mid).offset ≤ (b ++ t).length := by
          rw [List.length_append]
          omega
        rw [hmore, hdrop, readBlock_drop hplace', apply_ite (Step.map Value.str)]
        rfl

lemma parseArray_frame {stack : ℕ} (htype : TypeSpec stack) {p : Parser} {b s rest : List UInt8} {v : Value}
    (h : At p b s) (hread : readArray (readValue stack) s = .frame v rest) :
    p.parseArray (parseType stack) = (upTo p b rest, some v) := by
  obtain ⟨length, mid, hlength, hmid⟩ := Step.andThen_eq_frame_iff.mp hread
  have hsuffix : mid <:+ b := (stable_readNumber.suffix hlength).trans h.suffix
  rw [parseArray, parseSimpleNumbers_eq h, hlength]
  simp only [answer]
  by_cases hnull : length = -1
  · rw [if_pos hnull] at hmid ⊢
    obtain ⟨rfl, rfl⟩ := Step.frame.inj hmid
    rfl
  · rw [if_neg hnull] at hmid ⊢
    obtain ⟨vs, hvs, rfl⟩ := Step.map_eq_frame_iff.mp hmid
    exact parseArrayElements_frame htype (h.move hsuffix) hvs

lemma parseArray_need {stack : ℕ} (htype : TypeSpec stack) {p : Parser} {b s : List UInt8}
    (h : At p b s) (hread : readArray (readValue stack) s = .need) :
    ∃ p', p.parseArray (parseType stack) = (p', none) ∧ Kept p p' ∧
      Stuck b p p' (stack + 1) (fun t => readArray (readValue stack) (s ++ t)) := by
  rw [parseArray, parseSimpleNumbers_eq h]
  rcases Step.andThen_eq_need_iff.mp hread with hlength | ⟨length, mid, hlength, hmid⟩
  · rw [hlength]
    exact ⟨p, rfl, .refl p, .bytes rfl rfl rfl⟩
  · have hsuffix : mid <:+ b := (stable_readNumber.suffix hlength).trans h.suffix
    rw [hlength]
    simp only [answer]
    by_cases hnull : length = -1
    · rw [if_pos hnull] at hmid
      exact absurd hmid (by simp)
    · rw [if_neg hnull] at hmid ⊢
      have hmore (t : List UInt8) : readArray (readValue stack) (s ++ t) =
          (readTimes (readValue stack) length.toNat [] (mid ++ t)).map .array := by
        rw [readArray, stable_readNumber.frame_append t hlength, Step.frame_andThen, if_neg hnull]
      have hcount : length.toNat = ([] : List Value).length + length.toNat := by simp
      obtain ⟨p', elements, hparse, hkept, hcache, hplace, hbound, hread', hbig⟩ :=
        parseArrayElements_need htype hcount (h.move hsuffix) (Step.map_eq_need_iff.mp hmid)
      refine ⟨p', hparse, ⟨hkept.buffer, hkept.returned, hkept.fatal⟩, .array hcache hplace ⟨hbound, fun t => ?_⟩ ?_⟩
      · rw [hmore, hread']
      · exact hbig.imp (fun t ht => (hmore t).trans (Step.map_eq_need_iff.mpr ht))

/-- Every type but an array is read the same, whatever the room for nested arrays. -/
lemma typeSpec_of_array {stack : ℕ}
    (hframe : ∀ {p b s v rest}, At p b s → readArrayWithin stack s = .frame v rest →
      parseType stack p 42 = (upTo p b rest, some v))
    (hneed : ∀ {p b s}, At p b s → readArrayWithin stack s = .need → ∃ p', parseType stack p 42 = (p', none) ∧
      Kept p p' ∧ Stuck b p p' stack (fun t => readArrayWithin stack (s ++ t))) : TypeSpec stack where
  frame {p b s type v rest} h _ hread := by
    rw [readValue_cons] at hread
    by_cases harray : type = 42
    · subst harray
      exact hframe h hread
    · rw [readTyped, if_neg harray] at hread
      rw [parseType.eq_def]
      simp only [if_neg harray]
      split_ifs at hread ⊢ with hbulk hnumber hline herror
      · exact parseBulkString_frame h hread
      · rw [parseSimpleNumbers_eq h]
        exact answer_frame _ hread
      · rw [parseSimpleStringViaOffset_eq h]
        exact answer_frame _ hread
      · rw [parseSimpleStringViaOffset_eq h]
        exact answer_frame _ hread
  need {p b s type} h _ hread := by
    simp only [List.cons_append, readValue_cons] at hread ⊢
    by_cases harray : type = 42
    · subst harray
      exact hneed h hread
    · simp only [readTyped, if_neg harray] at hread ⊢
      rw [parseType.eq_def]
      simp only [if_neg harray]
      split_ifs at hread ⊢ with hbulk hnumber hline herror
      · exact parseBulkString_need h hread
      · rw [parseSimpleNumbers_eq h]
        exact answer_need _ hread
      · rw [parseSimpleStringViaOffset_eq h]
        exact answer_need _ hread
      · rw [parseSimpleStringViaOffset_eq h]
        exact answer_need _ hread

/-- The parser does what the grammar says, with any room for nested arrays. -/
lemma typeSpec (stack : ℕ) : TypeSpec stack := by
  induction stack with
  | zero =>
    apply typeSpec_of_array
    · intro p b s v rest _ hread
      exact absurd hread (by simp [readArrayWithin])
    · intro p b s _ hread
      exact absurd hread (by simp [readArrayWithin])
  | succ stack ih =>
    apply typeSpec_of_array
    · intro p b s v rest h hread
      exact parseArray_frame ih h hread
    · intro p b s h hread
      exact parseArray_need ih h hread

/-! ### Between two chunks -/

/-- No chunks of a long string are being collected. -/
structure Clean (p : Parser) : Prop where
  size : p.bigStrSize = 0
  cache : p.bufferCache = []

/-- The parser holds the unfinished part `r` of the stream. -/
inductive Holding (p : Parser) : ℕ → List UInt8 → Prop where
  | idle {stack : ℕ} (hbuffer : p.buffer = none) (harray : p.arrayCache = none) (hclean : Clean p) :
      Holding p stack []
  | bytes {stack : ℕ} {b : List UInt8} (hbuffer : p.buffer = some b) (harray : p.arrayCache = none)
      (hclean : Clean p) : Holding p stack (b.drop p.offset)
  | array {stack length : ℕ} {b r : List UInt8} {elements : List Value} (hbuffer : p.buffer = some b)
      (harray : p.arrayCache = some (length, elements)) (hclean : Clean p)
      (hpart : PartArray stack (b.drop p.offset) (fun t => readValue (stack + 1) (r ++ t)) length elements) :
      Holding p (stack + 1) r
  | string {stack : ℕ} {b r first : List UInt8} {more : List (List UInt8)} (hbuffer : p.buffer = some b)
      (harray : p.arrayCache = none) (hcache : p.bufferCache = first :: more) (hmore : ∀ c ∈ more, c ≠ [])
      (hfirst : p.bigOffset ≤ first.length)
      (hlong : LongString (first :: more).flatten (fun t => readValue stack (r ++ t)) p) : Holding p stack r
  | stringInArray {stack length : ℕ} {b r first : List UInt8} {more : List (List UInt8)} {elements : List Value}
      (hbuffer : p.buffer = some b) (harray : p.arrayCache = some (length, elements))
      (hcache : p.bufferCache = first :: more) (hoffset : p.offset ≤ first.length)
      (htotal : p.totalChunkSize = (first :: more).flatten.length)
      (hshort : (first :: more).flatten.length < p.bigStrSize)
      (hneed : ∀ t, ((first :: more).flatten ++ t).length < p.bigStrSize → readValue (stack + 1) (r ++ t) = .need)
      (hpart : PartArray stack ((first :: more).flatten.drop p.offset) (fun t => readValue (stack + 1) (r ++ t))
        length elements) :
      Holding p (stack + 1) r

/-- The array that the parser is left with. -/
lemma holding_array {stack length : ℕ} {p p' : Parser} {b r : List UInt8} {elements : List Value} (hclean : Clean p)
    (hbuffer : p'.buffer = some b) (harray : p'.arrayCache = some (length, elements)) (hoffset : p'.offset ≤ b.length)
    (hpart : PartArray stack (b.drop p'.offset) (fun t => readValue (stack + 1) (r ++ t)) length elements)
    (hbig : NoSooner b (fun t => readValue (stack + 1) (r ++ t)) p p') : Holding p' (stack + 1) r := by
  have hsingle : [b].flatten = b := by simp
  rcases hbig with ⟨hsize, hcache⟩ | ⟨hcache, htotal, hshort, hneed⟩
  · exact .array hbuffer harray ⟨hsize.trans hclean.size, hcache.trans hclean.cache⟩ hpart
  · rw [hclean.cache] at hcache
    apply Holding.stringInArray hbuffer harray hcache hoffset
    · rwa [hsingle]
    · rwa [hsingle]
    · rwa [hsingle]
    · rwa [hsingle]

/-- The place that `execute` goes back to unless an array is unfinished. -/
lemma holding_of_stuck {stack : ℕ} {p p' : Parser} {b s : List UInt8} {offset : ℕ} (hclean : Clean p)
    (harray : p.arrayCache = none) (hbuffer : p'.buffer = some b) (hs : b.drop offset = s)
    (h : Stuck b p p' stack (fun t => readValue stack (s ++ t))) :
    Holding (if p'.arrayCache.isNone then { p' with offset := offset } else p') stack s := by
  cases h with
  | bytes harray' hsize hcache =>
    rw [harray] at harray'
    rw [if_pos (by rw [harray']; rfl), ← hs]
    exact .bytes hbuffer harray' ⟨hsize.trans hclean.size, hcache.trans hclean.cache⟩
  | string harray' hcache hfirst hlong =>
    rw [harray] at harray'
    rw [hclean.cache] at hcache
    rw [if_pos (by rw [harray']; rfl)]
    have hsingle : [b].flatten = b := by simp
    refine .string hbuffer harray' hcache (by simp) hfirst ?_
    rw [hsingle]
    exact ⟨hlong.total, hlong.short, hlong.begin, hlong.read_eq⟩
  | array harray' hoffset hpart hbig =>
    rw [if_neg (by rw [harray']; simp)]
    exact holding_array hclean hbuffer harray' hoffset hpart hbig

/-- The parser has returned `vs` more and holds `rest`. -/
structure Delivered (stack : ℕ) (p q : Parser) (vs : List Value) (rest : List UInt8) : Prop where
  returned : q.returned = p.returned ++ vs
  fatal : q.fatal = p.fatal
  holding : Holding q stack rest

/-- The loop of `execute` returns the replies of the buffer in order. -/
lemma executeLoop_spec {stack fuel : ℕ} {p : Parser} {b s rest : List UInt8} {vs : List Value} (h : At p b s)
    (harray : p.arrayCache = none) (hclean : Clean p) (hfuel : s.length < fuel)
    (hdrain : Drains (replyReader stack) s vs rest) : Delivered stack p (executeLoop stack fuel p) vs rest := by
  induction hdrain generalizing p fuel with
  | @stop s hneed =>
    obtain ⟨fuel, rfl⟩ := Nat.exists_eq_succ_of_ne_zero (Nat.ne_zero_of_lt hfuel)
    cases s with
    | nil =>
      have hget : p.bytes[p.offset]? = none := by rw [h.bytes_eq, h.getElem?_eq, List.head?_nil]
      simp only [executeLoop, hget]
      exact ⟨(List.append_nil _).symm, rfl, .idle rfl harray ⟨hclean.size, hclean.cache⟩⟩
    | cons type s =>
      have hget : p.bytes[p.offset]? = some type := by rw [h.bytes_eq, h.getElem?_eq, List.head?_cons]
      obtain ⟨p', hparse, hkept, hstuck⟩ := (typeSpec stack).need h.next h.suffix hneed
      simp only [executeLoop, hget, hparse]
      have hholding := holding_of_stuck (p := { p with offset := p.offset + 1 }) ⟨hclean.size, hclean.cache⟩ harray
        (hkept.buffer.trans h.buffer) h.drop_eq hstuck
      refine ⟨?_, ?_, hholding⟩
      · rw [List.append_nil]
        split <;> exact hkept.returned
      · split <;> exact hkept.fatal
  | @frame s rest rest' v vs hread hrest ih =>
    obtain ⟨fuel, rfl⟩ := Nat.exists_eq_succ_of_ne_zero (Nat.ne_zero_of_lt hfuel)
    cases s with
    | nil => exact absurd ((readValue_nil stack).symm.trans hread) (by simp)
    | cons type s =>
      have hget : p.bytes[p.offset]? = some type := by rw [h.bytes_eq, h.getElem?_eq, List.head?_cons]
      have hsuffix : rest <:+ b := ((stable_readValue stack).suffix hread).trans h.suffix
      have hshort := (replyReader stack).shrinks hread
      simp only [executeLoop, hget, (typeSpec stack).frame h.next h.suffix hread]
      have hmoved := h.next.move hsuffix
      obtain ⟨hreturned, hfatal, hholding⟩ :=
        ih (p := (upTo { p with offset := p.offset + 1 } b rest).returnReply v) ⟨hmoved.buffer, hsuffix, hmoved.offset⟩
          harray ⟨hclean.size, hclean.cache⟩ (show rest.length < fuel by omega)
      refine ⟨?_, hfatal, hholding⟩
      rw [hreturned]
      simp [returnReply, upTo]

lemma executeRest_spec {stack : ℕ} {p : Parser} {b s rest : List UInt8} {vs : List Value} (h : At p b s)
    (harray : p.arrayCache = none) (hclean : Clean p) (hdrain : Drains (replyReader stack) s vs rest) :
    Delivered stack p (executeRest stack p) vs rest := by
  have hfuel : s.length < p.bytes.length + 1 := by
    rw [h.bytes_eq]
    exact Nat.lt_succ_of_le h.suffix.length_le
  exact executeLoop_spec h harray hclean hfuel hdrain

/-! ### One chunk -/

/-- With one more chunk the array is still unfinished, or it is the first reply. -/
lemma PartArray.drains {stack length : ℕ} {place r c rest : List UInt8} {elements vs : List Value}
    (h : PartArray stack place (fun t => readValue (stack + 1) (r ++ t)) length elements)
    (hdrain : Drains (replyReader (stack + 1)) (r ++ c) vs rest) :
    (readTimes (readValue stack) (length - elements.length) elements (place ++ c) = .need ∧ vs = [] ∧ rest = r ++ c) ∨
      ∃ elements' mid vs', readTimes (readValue stack) (length - elements.length) elements (place ++ c) =
        .frame elements' mid ∧ vs = .array elements' :: vs' ∧ Drains (replyReader (stack + 1)) mid vs' rest := by
  have hread : (replyReader (stack + 1)).read (r ++ c) = _ := h.read_eq c
  cases hdrain with
  | stop hneed => exact Or.inl ⟨Step.map_eq_need_iff.mp (hread.symm.trans hneed), rfl, rfl⟩
  | frame hframe hrest =>
    obtain ⟨elements', htimes, rfl⟩ := Step.map_eq_frame_iff.mp (hread.symm.trans hframe)
    exact Or.inr ⟨elements', _, _, htimes, rfl, hrest⟩

/-- What is left of an array keeps its meaning when a chunk moves to its bytes. -/
lemma PartArray.append {stack length : ℕ} {place r : List UInt8} {elements : List Value}
    (h : PartArray stack place (fun t => readValue (stack + 1) (r ++ t)) length elements) (c : List UInt8) :
    PartArray stack (place ++ c) (fun t => readValue (stack + 1) (r ++ c ++ t)) length elements where
  bound := h.bound
  read_eq t := by
    rw [List.append_assoc, List.append_assoc]
    exact h.read_eq (c ++ t)

/-- Elements that are read on leave an array with the same meaning. -/
lemma PartArray.advance {stack length : ℕ} {place place' : List UInt8} {read : List UInt8 → Step UInt8 Value}
    {elements elements' : List Value} (h : PartArray stack place read length elements)
    (hbound : elements'.length ≤ length)
    (hread : ∀ t, readTimes (readValue stack) (length - elements.length) elements (place ++ t) =
      readTimes (readValue stack) (length - elements'.length) elements' (place' ++ t)) :
    PartArray stack place' read length elements' where
  bound := hbound
  read_eq t := by rw [h.read_eq, hread]

/-- The parser at the beginning of a new buffer. -/
lemma at_start {p : Parser} {b : List UInt8} (hbuffer : p.buffer = some b) (hoffset : p.offset = 0) : At p b b :=
  ⟨hbuffer, List.suffix_rfl, by rw [hoffset, Nat.sub_self]⟩

/-- An unfinished array goes on with a new buffer. -/
lemma parseArrayChunks_need {stack length : ℕ} {p : Parser} {b r : List UInt8} {elements : List Value}
    (h : At p b b) (hpart : PartArray stack b (fun t => readValue (stack + 1) (r ++ t)) length elements)
    (hread : readTimes (readValue stack) (length - elements.length) elements b = .need) :
    ∃ p' elements', parseArrayChunks (stack + 1) p length elements = (p', none) ∧ Kept p p' ∧
      p'.arrayCache = some (length, elements') ∧ p'.offset ≤ b.length ∧
      PartArray stack (b.drop p'.offset) (fun t => readValue (stack + 1) (r ++ t)) length elements' ∧
      NoSooner b (fun t => readValue (stack + 1) (r ++ t)) p p' := by
  have hlength : length = elements.length + (length - elements.length) := (Nat.add_sub_cancel' hpart.bound).symm
  obtain ⟨p', elements', hparse, hkept, hcache, hplace, hbound, hread', hbig⟩ :=
    parseArrayElements_need (typeSpec stack) hlength h hread
  refine ⟨p', elements', hparse, hkept, hcache, hplace, hpart.advance hbound hread', hbig.imp fun t ht => ?_⟩
  exact (hpart.read_eq t).trans (Step.map_eq_need_iff.mpr ht)

/-- Taking a first part of joined chunks cuts only the last of them. -/
lemma drop_take_join {first mid last : List UInt8} {k offset : ℕ} (hoffset : offset ≤ first.length) :
    ((first ++ mid ++ last).take (first.length + mid.length + k)).drop offset =
      first.drop offset ++ mid ++ last.take k := by
  rw [← List.length_append, List.take_length_add_append, List.append_assoc,
    List.drop_append_of_le_length hoffset, List.append_assoc]

/-- The chunks of a long string are put together as the string of the whole. -/
lemma concatBulkString_eq {p : Parser} {first c : List UInt8} {more : List (List UInt8)}
    (hcache : p.bufferCache = first :: more ++ [c]) (hmore : ∀ c ∈ more, c ≠ [])
    (htotal : p.totalChunkSize = (first :: more).flatten.length) (hshort : p.totalChunkSize < p.bigStrSize)
    (hfirst : p.bigOffset ≤ first.length) :
    p.concatBulkString.2 = (((first :: more).flatten ++ c).take (p.bigStrSize - 2)).drop p.bigOffset := by
  have hlen : p.bufferCache.length = more.length + 2 := by simp [hcache]
  have hhead : p.bufferCache.headD [] = first := by simp [hcache]
  rw [List.flatten_cons, List.length_append] at htotal
  simp only [concatBulkString, hlen, hhead]
  have hchunks : more.length + 2 - 1 = more.length + 1 := by omega
  by_cases hone : p.bigStrSize - p.totalChunkSize = 1
  · -- the last chunk has only the line feed, so the carriage return ends the chunk before
    rcases List.eq_nil_or_concat more with rfl | ⟨mid, last, hmid⟩
    · rw [List.flatten_nil, List.length_nil, Nat.add_zero] at htotal
      rw [if_pos ⟨hone, rfl⟩, List.flatten_cons, List.flatten_nil, List.append_nil,
        List.take_append_of_le_length (by omega)]
      congr 2
      omega
    · rw [List.concat_eq_append] at hmid
      subst hmid
      have hlast : 0 < last.length := List.length_pos_iff.mpr (hmore last (by simp))
      have hbody : (p.bufferCache.take (mid.length + 1)).drop 1 = mid := by simp [hcache]
      have hget : p.bufferCache.getD (mid.length + 1) [] = last := by simp [hcache]
      have hslice : sliceTo last ((1 : ℕ) - 2) = last.take (last.length - 1) := rfl
      have hsize : p.bigStrSize - 2 = first.length + mid.flatten.length + (last.length - 1) := by
        rw [List.flatten_append, List.length_append, List.flatten_singleton] at htotal
        omega
      have hjoin : (first :: (mid ++ [last])).flatten ++ c = first ++ mid.flatten ++ (last ++ c) := by simp
      rw [if_neg (by simp), if_pos hone, hone, hchunks, List.length_append, List.length_singleton,
        Nat.add_sub_cancel, hbody, hget, hslice, hjoin, hsize, drop_take_join hfirst,
        List.take_append_of_le_length (by omega)]
  · have hbody : (p.bufferCache.take (more.length + 1)).drop 1 = more := by simp [hcache]
    have hget : p.bufferCache.getD (more.length + 1) [] = c := by simp [hcache]
    have htwo : ¬((p.bigStrSize - p.totalChunkSize : ℕ) : ℤ) - 2 < 0 := by omega
    have hcut : (((p.bigStrSize - p.totalChunkSize : ℕ) : ℤ) - 2).toNat = p.bigStrSize - p.totalChunkSize - 2 := by
      omega
    have hsize : p.bigStrSize - 2 =
        first.length + more.flatten.length + (p.bigStrSize - p.totalChunkSize - 2) := by omega
    rw [if_neg (fun h => hone h.1), if_neg hone, hchunks, hbody, hget, sliceTo, if_neg htwo, hcut,
      List.flatten_cons, hsize, drop_take_join hfirst]

/-- An array that a chunk completes is returned, and the loop goes on behind it. -/
lemma executeRest_array {stack length : ℕ} {p q : Parser} {b rest : List UInt8} {elements elements' : List Value}
    {vs : List Value} {mid : List UInt8} (h : At p b b) (hclean : Clean q)
    (hread : readTimes (readValue stack) (length - elements.length) elements b = .frame elements' mid)
    (hq : q = { (upTo p b mid).returnReply (.array elements') with
      arrayCache := none, bigStrSize := q.bigStrSize, bufferCache := q.bufferCache })
    (hdrain : Drains (replyReader (stack + 1)) mid vs rest) :
    Delivered (stack + 1) p (executeRest (stack + 1) q) (.array elements' :: vs) rest := by
  have hsuffix : mid <:+ b := (stable_readTimes (stable_readValue stack) _ _).suffix hread
  have hbuffer : q.buffer = some b := by
    rw [hq]
    exact h.buffer
  have hoffset : q.offset = b.length - mid.length := by
    rw [hq]
    rfl
  have harray : q.arrayCache = none := by rw [hq]
  obtain ⟨hreturned, hfatal, hholding⟩ := executeRest_spec ⟨hbuffer, hsuffix, hoffset⟩ harray hclean hdrain
  have hreturned' : q.returned = p.returned ++ [.array elements'] := by
    rw [hq]
    rfl
  have hfatal' : q.fatal = p.fatal := by
    rw [hq]
    rfl
  refine ⟨?_, hfatal.trans hfatal', hholding⟩
  rw [hreturned, hreturned', List.append_assoc]
  rfl

section Chunk

variable {stack length : ℕ} {p : Parser} {b r c rest : List UInt8} {elements vs : List Value}

lemma execute_idle (hbuffer : p.buffer = none) (harray : p.arrayCache = none) (hclean : Clean p)
    (hdrain : Drains (replyReader stack) c vs rest) : Delivered stack p (execute stack p c) vs rest := by
  have hexecute : execute stack p c = executeRest stack { p with buffer := some c, offset := 0 } := by
    simp only [execute, hbuffer]
  rw [hexecute]
  obtain ⟨hreturned, hfatal, hholding⟩ :=
    executeRest_spec (p := { p with buffer := some c, offset := 0 }) (at_start rfl rfl) harray
      ⟨hclean.size, hclean.cache⟩ hdrain
  exact ⟨hreturned, hfatal, hholding⟩

lemma execute_bytes (hbuffer : p.buffer = some b) (harray : p.arrayCache = none) (hclean : Clean p)
    (hdrain : Drains (replyReader stack) (b.drop p.offset ++ c) vs rest) :
    Delivered stack p (execute stack p c) vs rest := by
  have hexecute : execute stack p c =
      executeRest stack { p with buffer := some (b.drop p.offset ++ c), offset := 0 } := by
    simp only [execute, hbuffer, hclean.size, if_true, harray]
  rw [hexecute]
  obtain ⟨hreturned, hfatal, hholding⟩ :=
    executeRest_spec (p := { p with buffer := some (b.drop p.offset ++ c), offset := 0 }) (at_start rfl rfl) harray
      ⟨hclean.size, hclean.cache⟩ hdrain
  exact ⟨hreturned, hfatal, hholding⟩

lemma execute_array (hbuffer : p.buffer = some b) (harray : p.arrayCache = some (length, elements)) (hclean : Clean p)
    (hpart : PartArray stack (b.drop p.offset) (fun t => readValue (stack + 1) (r ++ t)) length elements)
    (hdrain : Drains (replyReader (stack + 1)) (r ++ c) vs rest) :
    Delivered (stack + 1) p (execute (stack + 1) p c) vs rest := by
  have hat : At { p with buffer := some (b.drop p.offset ++ c), offset := 0 }
      (b.drop p.offset ++ c) (b.drop p.offset ++ c) := at_start rfl rfl
  have hclean' : Clean { p with buffer := some (b.drop p.offset ++ c), offset := 0 } := ⟨hclean.size, hclean.cache⟩
  have hunfinished {p' : Parser} (hparse : parseArrayChunks (stack + 1)
      { p with buffer := some (b.drop p.offset ++ c), offset := 0 } length elements = (p', none)) :
      execute (stack + 1) p c = p' := by
    rw [harray, hclean.size] at hparse
    simp only [execute, hbuffer, hclean.size, if_true, harray, hparse]
  have hfinished {p' : Parser} {arr : Value} (hparse : parseArrayChunks (stack + 1)
      { p with buffer := some (b.drop p.offset ++ c), offset := 0 } length elements = (p', some arr)) :
      execute (stack + 1) p c = executeRest (stack + 1) { p'.returnReply arr with arrayCache := none } := by
    rw [harray, hclean.size] at hparse
    simp only [execute, hbuffer, hclean.size, if_true, harray, hparse]
  rcases hpart.drains hdrain with ⟨hneed, rfl, rfl⟩ | ⟨elements', mid, vs, hframe, rfl, hrest⟩
  · obtain ⟨p', elements', hparse, hkept, harray', hoffset, hpart', hbig⟩ :=
      parseArrayChunks_need hat (hpart.append c) hneed
    rw [hunfinished hparse]
    refine ⟨?_, hkept.fatal, holding_array hclean' (hkept.buffer.trans hat.buffer) harray' hoffset hpart' hbig⟩
    rw [List.append_nil]
    exact hkept.returned
  · rw [hfinished (parseArrayElements_frame (typeSpec stack) hat hframe)]
    obtain ⟨hreturned, hfatal, hholding⟩ :=
      executeRest_array hat (q := { (upTo { p with buffer := some (b.drop p.offset ++ c), offset := 0 }
        (b.drop p.offset ++ c) mid).returnReply (.array elements') with arrayCache := none })
        ⟨hclean.size, hclean.cache⟩ hframe rfl hrest
    exact ⟨hreturned, hfatal, hholding⟩

/-- A long string is returned with the chunk that completes it, and the loop goes on behind it. -/
lemma execute_string {first : List UInt8} {more : List (List UInt8)} (hbuffer : p.buffer = some b)
    (harray : p.arrayCache = none) (hcache : p.bufferCache = first :: more) (hmore : ∀ c ∈ more, c ≠ [])
    (hfirst : p.bigOffset ≤ first.length)
    (hlong : LongString (first :: more).flatten (fun t => readValue stack (r ++ t)) p)
    (hc : c ≠ []) (hdrain : Drains (replyReader stack) (r ++ c) vs rest) :
    Delivered stack p (execute stack p c) vs rest := by
  have hsize : p.bigStrSize ≠ 0 := Nat.ne_zero_of_lt hlong.short
  have hread : (replyReader stack).read (r ++ c) = _ := hlong.read_eq c
  rw [List.length_append, ← hlong.total] at hread
  have hjoined : (first :: (more ++ [c])).flatten = (first :: more).flatten ++ c := by simp
  by_cases hlast : p.totalChunkSize + c.length < p.bigStrSize
  · rw [if_pos hlast] at hread
    obtain ⟨rfl, rfl⟩ := hdrain.unique (.stop hread)
    have hexecute : execute stack p c =
        { p with bufferCache := p.bufferCache ++ [c], totalChunkSize := p.totalChunkSize + c.length } := by
      simp only [execute, hbuffer, hsize, if_false, ge_iff_le, not_le.mpr hlast]
    have hmore' : ∀ x ∈ more ++ [c], x ≠ [] := by
      intro x hx
      rw [List.mem_append, List.mem_singleton] at hx
      rcases hx with hx | rfl
      · exact hmore x hx
      · exact hc
    rw [hexecute]
    refine ⟨(List.append_nil _).symm, rfl, .string hbuffer harray ?_ hmore' hfirst ?_⟩
    · rw [hcache]
      rfl
    · rw [hjoined]
      refine ⟨?_, ?_, hlong.begin, fun t => ?_⟩
      · rw [List.length_append, ← hlong.total]
      · rw [List.length_append, ← hlong.total]
        exact hlast
      · rw [List.append_assoc, List.append_assoc]
        exact hlong.read_eq (c ++ t)
  · rw [if_neg hlast] at hread
    have hstring := concatBulkString_eq (p := { p with bufferCache := p.bufferCache ++ [c] })
      (by rw [hcache]) hmore hlong.total (hlong.total.trans_lt hlong.short) hfirst
    have hplace : ((first :: more).flatten ++ c).drop p.bigStrSize = c.drop (p.bigStrSize - p.totalChunkSize) := by
      have hshort := hlong.short
      rw [List.drop_append, List.drop_eq_nil_of_le hshort.le, List.nil_append, hlong.total]
    rw [hplace, ← hstring] at hread
    have hexecute : execute stack p c = executeRest stack
        { (concatBulkString { p with bufferCache := p.bufferCache ++ [c] }).1.returnReply
            (.str (concatBulkString { p with bufferCache := p.bufferCache ++ [c] }).2) with
          buffer := some c, bigStrSize := 0, bufferCache := [] } := by
      simp only [execute, hbuffer, hsize, if_false, ge_iff_le, not_lt.mp hlast, if_true, harray]
    cases hdrain with
    | stop hneed => exact absurd (hread.symm.trans hneed) (by simp)
    | frame hframe hrest =>
      obtain ⟨rfl, rfl⟩ := Step.frame.inj (hread.symm.trans hframe)
      have hoffset : p.bigStrSize - p.totalChunkSize =
          c.length - (c.drop (p.bigStrSize - p.totalChunkSize)).length := by
        rw [List.length_drop]
        omega
      rw [hexecute]
      obtain ⟨hreturned, hfatal, hholding⟩ := executeRest_spec
        (p := { (concatBulkString { p with bufferCache := p.bufferCache ++ [c] }).1.returnReply
            (.str (concatBulkString { p with bufferCache := p.bufferCache ++ [c] }).2) with
          buffer := some c, bigStrSize := 0, bufferCache := [] })
        ⟨rfl, List.drop_suffix _ _, hoffset⟩ harray ⟨rfl, rfl⟩ hrest
      refine ⟨?_, hfatal, hholding⟩
      rw [hreturned]
      simp only [returnReply, concatBulkString, List.append_assoc, List.singleton_append]

/-- A long string inside an array is waited for, then the array goes on with all chunks at once. -/
lemma execute_stringInArray {first : List UInt8} {more : List (List UInt8)} (hbuffer : p.buffer = some b)
    (harray : p.arrayCache = some (length, elements)) (hcache : p.bufferCache = first :: more)
    (hoffset : p.offset ≤ first.length) (htotal : p.totalChunkSize = (first :: more).flatten.length)
    (hshort : (first :: more).flatten.length < p.bigStrSize)
    (hneed : ∀ t, ((first :: more).flatten ++ t).length < p.bigStrSize → readValue (stack + 1) (r ++ t) = .need)
    (hpart : PartArray stack ((first :: more).flatten.drop p.offset) (fun t => readValue (stack + 1) (r ++ t))
      length elements)
    (hdrain : Drains (replyReader (stack + 1)) (r ++ c) vs rest) :
    Delivered (stack + 1) p (execute (stack + 1) p c) vs rest := by
  have hsize : p.bigStrSize ≠ 0 := Nat.ne_zero_of_lt hshort
  have hjoined : (first :: (more ++ [c])).flatten = (first :: more).flatten ++ c := by simp
  by_cases hlast : p.totalChunkSize + c.length < p.bigStrSize
  · have hwait : (replyReader (stack + 1)).read (r ++ c) = .need := by
      apply hneed
      rw [List.length_append, ← htotal]
      exact hlast
    obtain ⟨rfl, rfl⟩ := hdrain.unique (.stop hwait)
    have hexecute : execute (stack + 1) p c =
        { p with bufferCache := p.bufferCache ++ [c], totalChunkSize := p.totalChunkSize + c.length } := by
      simp only [execute, hbuffer, hsize, if_false, ge_iff_le, not_le.mpr hlast]
    have hplace : ((first :: more).flatten ++ c).drop p.offset = (first :: more).flatten.drop p.offset ++ c := by
      apply List.drop_append_of_le_length
      rw [List.flatten_cons, List.length_append]
      omega
    have hcache' : p.bufferCache ++ [c] = first :: (more ++ [c]) := by
      rw [hcache]
      rfl
    rw [hexecute]
    refine ⟨(List.append_nil _).symm, rfl, .stringInArray hbuffer harray hcache' hoffset ?_ ?_ (fun t ht => ?_) ?_⟩
    · rw [hjoined, List.length_append, ← htotal]
    · rw [hjoined, List.length_append, ← htotal]
      exact hlast
    · rw [List.append_assoc]
      apply hneed
      rwa [hjoined, List.append_assoc] at ht
    · rw [hjoined, hplace]
      exact hpart.append c
  · have hconcat : concatBuffer { p with bufferCache := p.bufferCache ++ [c] } =
        (first :: more).flatten.drop p.offset ++ c := by
      rw [concatBuffer, hcache, List.flatten_cons, List.drop_append_of_le_length hoffset, List.append_assoc]
      simp
    generalize hnext : (first :: more).flatten.drop p.offset ++ c = next at hconcat
    have hat : At { p with bufferCache := p.bufferCache ++ [c], buffer := some next, offset := 0 } next next :=
      at_start rfl rfl
    have hunfinished {p' : Parser} (hparse : parseArrayChunks (stack + 1)
        { p with bufferCache := p.bufferCache ++ [c], buffer := some next, offset := 0 } length elements =
          (p', none)) : execute (stack + 1) p c = { p' with bigStrSize := 0, bufferCache := [] } := by
      rw [← hconcat, harray, hbuffer] at hparse
      simp only [execute, hbuffer, hsize, if_false, ge_iff_le, not_lt.mp hlast, if_true, harray]
      rw [hparse]
    have hfinished {p' : Parser} {arr : Value} (hparse : parseArrayChunks (stack + 1)
        { p with bufferCache := p.bufferCache ++ [c], buffer := some next, offset := 0 } length elements =
          (p', some arr)) : execute (stack + 1) p c = executeRest (stack + 1)
            { p'.returnReply arr with arrayCache := none, bigStrSize := 0, bufferCache := [] } := by
      rw [← hconcat, harray, hbuffer] at hparse
      simp only [execute, hbuffer, hsize, if_false, ge_iff_le, not_lt.mp hlast, if_true, harray]
      rw [hparse]
    have hpart' := hpart.append c
    rw [hnext] at hpart'
    rcases hpart.drains hdrain with ⟨hread, rfl, rfl⟩ | ⟨elements', mid, vs, hread, rfl, hrest⟩
    · rw [hnext] at hread
      obtain ⟨p', elements', hparse, hkept, harray', hplace, hpart'', -⟩ := parseArrayChunks_need hat hpart' hread
      rw [hunfinished hparse]
      refine ⟨?_, hkept.fatal, .array (hkept.buffer.trans hat.buffer) harray' ⟨rfl, rfl⟩ hpart''⟩
      rw [List.append_nil]
      exact hkept.returned
    · rw [hnext] at hread
      rw [hfinished (parseArrayElements_frame (typeSpec stack) hat hread)]
      obtain ⟨hreturned, hfatal, hholding⟩ :=
        executeRest_array hat (q := { (upTo { p with
            bufferCache := p.bufferCache ++ [c], buffer := some next, offset := 0 }
          next mid).returnReply (.array elements') with arrayCache := none, bigStrSize := 0, bufferCache := [] })
          ⟨rfl, rfl⟩ hread rfl hrest
      exact ⟨hreturned, hfatal, hholding⟩

/-- One call of `execute` takes in a chunk as the grammar would. -/
lemma execute_delivered (h : Holding p stack r) (hc : c ≠ []) (hdrain : Drains (replyReader stack) (r ++ c) vs rest) :
    Delivered stack p (execute stack p c) vs rest := by
  cases h with
  | idle hbuffer harray hclean => exact execute_idle hbuffer harray hclean hdrain
  | bytes hbuffer harray hclean => exact execute_bytes hbuffer harray hclean hdrain
  | array hbuffer harray hclean hpart => exact execute_array hbuffer harray hclean hpart hdrain
  | string hbuffer harray hcache hmore hfirst hlong =>
    exact execute_string hbuffer harray hcache hmore hfirst hlong hc hdrain
  | stringInArray hbuffer harray hcache hoffset htotal hshort hneed hpart =>
    exact execute_stringInArray hbuffer harray hcache hoffset htotal hshort hneed hpart hdrain

end Chunk

/-! ### The whole stream -/

/-- The parser has returned `vs`, holds `r` and has met no error. -/
structure Represents (stack : ℕ) (p : Parser) (vs : List Value) (r : List UInt8) : Prop where
  returned : p.returned = vs
  fatal : p.fatal = false
  need : readValue stack r = .need
  holding : Holding p stack r

lemma represents_init (stack : ℕ) : Represents stack {} [] [] :=
  ⟨rfl, rfl, readValue_nil stack, .idle rfl rfl ⟨rfl, rfl⟩⟩

lemma Represents.execute {stack : ℕ} {p : Parser} {vs vs' : List Value} {r c rest : List UInt8}
    (h : Represents stack p vs r) (hc : c ≠ []) (hdrain : Drains (replyReader stack) (r ++ c) vs' rest) :
    Represents stack (execute stack p c) (vs ++ vs') rest := by
  obtain ⟨hreturned, hfatal, hholding⟩ := execute_delivered h.holding hc hdrain
  refine ⟨?_, hfatal.trans h.fatal, hdrain.read_rest, hholding⟩
  rw [hreturned, h.returned]

lemma represents_chunks {stack : ℕ} {p : Parser} {vs vs' : List Value} {r rest : List UInt8}
    {chunks : List (List UInt8)} (h : Represents stack p vs r) (hchunks : ∀ c ∈ chunks, c ≠ [])
    (hdrain : Drains (replyReader stack) (r ++ chunks.flatten) vs' rest) :
    Represents stack (chunks.foldl (execute stack) p) (vs ++ vs') rest := by
  exact feed_chunks (replyReader stack) (execute stack) (fun _ c => c ≠ []) (fun _ => True) (Represents stack)
    (fun h => h.need) (fun h hc hdrain _ => h.execute hc hdrain) h (allowed_of_forall hchunks p) hdrain
    (fun _ _ => trivial)

end ExpressAuth.NodeRedis.Parser
