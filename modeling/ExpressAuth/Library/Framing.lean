import Mathlib.Data.List.Basic
import Mathlib.Order.Basic

/-!
# Frames in a stream

A reader takes frames off the front of a stream of which only a part has arrived. What it has decided
does not change when more arrives, so a machine that keeps the unfinished part and reads on with every
chunk delivers the frames of the whole stream, however it was cut.
-/

namespace Framing

variable {α β γ σ : Type*}

/-- One attempt to read: more input is needed, or there is a frame and what follows it, or the input
begins with no frame. -/
inductive Step (α β : Type*) where
  | need
  | frame (b : β) (rest : List α)
  | bad

/-- Reads on behind a frame. -/
def Step.andThen (x : Step α β) (f : β → List α → Step α γ) : Step α γ :=
  match x with
  | .need => .need
  | .frame b rest => f b rest
  | .bad => .bad

@[simp] lemma Step.need_andThen (f : β → List α → Step α γ) : Step.need.andThen f = .need := rfl

@[simp] lemma Step.bad_andThen (f : β → List α → Step α γ) : Step.bad.andThen f = .bad := rfl

@[simp] lemma Step.frame_andThen (b : β) (rest : List α) (f : β → List α → Step α γ) :
    (Step.frame b rest).andThen f = f b rest := rfl

def Step.map (f : β → γ) (x : Step α β) : Step α γ := x.andThen (fun b rest => .frame (f b) rest)

@[simp] lemma Step.need_map (f : β → γ) : (Step.need : Step α β).map f = .need := rfl

@[simp] lemma Step.bad_map (f : β → γ) : (Step.bad : Step α β).map f = .bad := rfl

@[simp] lemma Step.frame_map (f : β → γ) (b : β) (rest : List α) : (Step.frame b rest).map f = .frame (f b) rest := rfl

lemma Step.andThen_eq_frame_iff {x : Step α β} {f : β → List α → Step α γ} {c : γ} {rest : List α} :
    x.andThen f = .frame c rest ↔ ∃ b mid, x = .frame b mid ∧ f b mid = .frame c rest := by
  cases x <;> simp

lemma Step.andThen_eq_need_iff {x : Step α β} {f : β → List α → Step α γ} :
    x.andThen f = .need ↔ x = .need ∨ ∃ b mid, x = .frame b mid ∧ f b mid = .need := by
  cases x <;> simp

lemma Step.map_eq_frame_iff {x : Step α β} {f : β → γ} {c : γ} {rest : List α} :
    x.map f = .frame c rest ↔ ∃ b, x = .frame b rest ∧ f b = c := by
  cases x <;> simp [and_comm]

lemma Step.map_eq_need_iff {x : Step α β} {f : β → γ} : x.map f = .need ↔ x = .need := by
  cases x <;> simp

/-- What is decided does not depend on what has not arrived yet. -/
structure Stable (read : List α → Step α β) : Prop where
  suffix : ∀ {s b rest}, read s = .frame b rest → rest <:+ s
  frame_append : ∀ {s b rest} t, read s = .frame b rest → read (s ++ t) = .frame b (rest ++ t)
  bad_append : ∀ {s} t, read s = .bad → read (s ++ t) = .bad

/-! ### Building readers -/

lemma stable_frame (b : β) : Stable (fun s : List α => Step.frame b s) where
  suffix h := (Step.frame.inj h).2 ▸ List.suffix_rfl
  frame_append t h := by
    obtain ⟨rfl, rfl⟩ := Step.frame.inj h
    rfl
  bad_append t h := absurd h (by simp)

lemma stable_bad : Stable (fun _ : List α => (Step.bad : Step α β)) where
  suffix h := absurd h (by simp)
  frame_append t h := absurd h (by simp)
  bad_append t _ := rfl

lemma Stable.andThen {read : List α → Step α β} {f : β → List α → Step α γ} (hread : Stable read)
    (hf : ∀ b, Stable (f b)) : Stable (fun s => (read s).andThen f) where
  suffix h := by
    obtain ⟨b, mid, hs, hmid⟩ := Step.andThen_eq_frame_iff.mp h
    exact ((hf b).suffix hmid).trans (hread.suffix hs)
  frame_append t h := by
    obtain ⟨b, mid, hs, hmid⟩ := Step.andThen_eq_frame_iff.mp h
    rw [hread.frame_append t hs, Step.frame_andThen]
    exact (hf b).frame_append t hmid
  bad_append {s} t h := by
    cases hs : read s with
    | need => simp [hs] at h
    | bad => rw [hread.bad_append t hs, Step.bad_andThen]
    | frame b mid =>
      rw [hs, Step.frame_andThen] at h
      rw [hread.frame_append t hs, Step.frame_andThen]
      exact (hf b).bad_append t h

lemma Stable.map {read : List α → Step α β} (hread : Stable read) (f : β → γ) :
    Stable (fun s => (read s).map f) := hread.andThen (fun b => stable_frame (f b))

/-- A reader that goes by the first element. -/
lemma stable_of_cons {read : List α → Step α β} (body : α → List α → Step α β) (hnil : read [] = .need)
    (hcons : ∀ a s, read (a :: s) = body a s) (h : ∀ a, Stable (body a)) : Stable read where
  suffix {s b rest} hs := by
    cases s with
    | nil => exact absurd (hnil.symm.trans hs) (by simp)
    | cons a s =>
      rw [hcons] at hs
      exact ((h a).suffix hs).trans (List.suffix_cons a s)
  frame_append {s b rest} t hs := by
    cases s with
    | nil => exact absurd (hnil.symm.trans hs) (by simp)
    | cons a s =>
      rw [hcons] at hs
      rw [List.cons_append, hcons, (h a).frame_append t hs]
  bad_append {s} t hs := by
    cases s with
    | nil => exact absurd (hnil.symm.trans hs) (by simp)
    | cons a s =>
      rw [hcons] at hs
      rw [List.cons_append, hcons, (h a).bad_append t hs]

lemma Stable.ite {p : Prop} [Decidable p] {read read' : List α → Step α β} (h : Stable read) (h' : Stable read') :
    Stable (fun s => if p then read s else read' s) := by
  by_cases hp : p
  · simpa only [if_pos hp] using h
  · simpa only [if_neg hp] using h'

/-- What stands before the first `stop`, once one more element has arrived behind it; that one is
dropped unseen. -/
def readLine [DecidableEq α] (stop : α) : List α → Step α (List α)
  | a :: b :: rest =>
    if a = stop then .frame [] rest
    else (readLine stop (b :: rest)).map (a :: ·)
  | _ => .need

section Line

variable [DecidableEq α] {stop : α}

lemma readLine_cons {a : α} (ha : a ≠ stop) (s : List α) :
    readLine stop (a :: s) = (readLine stop s).map (a :: ·) := by
  cases s with
  | nil => rfl
  | cons b s => rw [readLine, if_neg ha]

lemma readLine_line {line : List α} (hline : stop ∉ line) (b : α) (rest : List α) :
    readLine stop (line ++ stop :: b :: rest) = .frame line rest := by
  induction line with
  | nil => rw [List.nil_append, readLine, if_pos rfl]
  | cons a line ih =>
    have ha : a ≠ stop := fun h => hline (h ▸ List.mem_cons_self)
    rw [List.cons_append, readLine_cons ha, ih (fun h => hline (List.mem_cons_of_mem a h)), Step.frame_map]

lemma readLine_eq_frame_iff {s line rest : List α} :
    readLine stop s = .frame line rest ↔ stop ∉ line ∧ ∃ b, s = line ++ stop :: b :: rest := by
  constructor
  · intro h
    induction s generalizing line with
    | nil => simp [readLine] at h
    | cons a s ih =>
      by_cases ha : a = stop
      · cases s with
        | nil => simp [readLine] at h
        | cons b s =>
          rw [readLine, if_pos ha] at h
          obtain ⟨rfl, rfl⟩ := Step.frame.inj h
          exact ⟨List.not_mem_nil, b, by rw [ha]; rfl⟩
      · rw [readLine_cons ha] at h
        obtain ⟨line', hread, rfl⟩ := Step.map_eq_frame_iff.mp h
        obtain ⟨hmem, c, hs⟩ := ih hread
        refine ⟨?_, c, by rw [hs]; rfl⟩
        rw [List.mem_cons, not_or]
        exact ⟨fun h => ha h.symm, hmem⟩
  · rintro ⟨hline, b, rfl⟩
    exact readLine_line hline b rest

lemma readLine_ne_bad (s : List α) : readLine stop s ≠ .bad := by
  induction s with
  | nil => simp [readLine]
  | cons a s ih =>
    by_cases ha : a = stop
    · cases s <;> simp [readLine, ha]
    · rw [readLine_cons ha]
      cases hread : readLine stop s with
      | need => simp
      | bad => exact absurd hread ih
      | frame line rest => simp

lemma stable_readLine : Stable (readLine stop) where
  suffix h := by
    obtain ⟨-, b, rfl⟩ := readLine_eq_frame_iff.mp h
    exact List.suffix_append_of_suffix ((List.suffix_cons b _).trans (List.suffix_cons stop _))
  frame_append t h := by
    obtain ⟨hline, b, rfl⟩ := readLine_eq_frame_iff.mp h
    rw [List.append_assoc]
    exact readLine_line hline b _
  bad_append t h := absurd h (readLine_ne_bad _)

/-- A line whose `stop` is among the first `limit` elements. -/
def readLineWithin (limit : ℕ) (stop : α) (s : List α) : Step α (List α) :=
  if limit ≤ s.length ∧ stop ∉ s.take limit then .bad else readLine stop s

lemma readLineWithin_eq_frame {limit : ℕ} {s line rest : List α} (h : readLineWithin limit stop s = .frame line rest) :
    readLine stop s = .frame line rest := by
  rw [readLineWithin] at h
  split at h
  · exact absurd h (by simp)
  · exact h

/-- What is not decided within the limit is short. -/
lemma readLineWithin_eq_need {limit : ℕ} {s : List α} (h : readLineWithin limit stop s = .need) :
    readLine stop s = .need ∧ s.length ≤ limit := by
  rw [readLineWithin] at h
  split at h
  · exact absurd h (by simp)
  · next hlimit =>
    refine ⟨h, ?_⟩
    by_contra hlong
    have hmem : stop ∈ s.take limit := by
      by_contra hmem
      exact hlimit ⟨by omega, hmem⟩
    obtain ⟨line, tail, hs, hline⟩ := List.eq_append_cons_of_mem hmem
    -- the first `stop` stands among the first `limit` elements, so there is one more behind it
    have hlength := congrArg List.length hs
    rw [List.length_take, List.length_append, List.length_cons] at hlength
    have hne : tail ++ s.drop limit ≠ [] := by
      rw [← List.length_pos_iff, List.length_append, List.length_drop]
      omega
    obtain ⟨b, rest, hrest⟩ := List.exists_cons_of_ne_nil hne
    have hwhole : s = line ++ stop :: b :: rest := by
      have hsplit := (List.take_append_drop limit s).symm
      rw [hs, List.append_assoc, List.cons_append, hrest] at hsplit
      exact hsplit
    rw [hwhole, readLine_line hline] at h
    exact absurd h (by simp)

lemma readLineWithin_line {limit : ℕ} {line : List α} (hline : stop ∉ line) (hlimit : line.length < limit) (b : α)
    (rest : List α) : readLineWithin limit stop (line ++ stop :: b :: rest) = .frame line rest := by
  have hmem : stop ∈ (line ++ stop :: b :: rest).take limit := by
    rw [List.take_append, List.mem_append]
    right
    obtain ⟨k, hk⟩ := Nat.exists_eq_succ_of_ne_zero (Nat.sub_ne_zero_of_lt hlimit)
    rw [hk, List.take_succ_cons]
    exact List.mem_cons_self
  rw [readLineWithin, if_neg (fun h => h.2 hmem), readLine_line hline]

lemma stable_readLineWithin (limit : ℕ) : Stable (readLineWithin limit stop) where
  suffix h := stable_readLine.suffix (readLineWithin_eq_frame h)
  frame_append {s line rest} t h := by
    have hread := readLineWithin_eq_frame h
    obtain ⟨-, b, hs⟩ := readLine_eq_frame_iff.mp hread
    rw [readLineWithin, if_neg, stable_readLine.frame_append t hread]
    rintro ⟨hlimit, hmem⟩
    by_cases hlong : limit ≤ s.length
    · rw [List.take_append_of_le_length hlong] at hmem
      rw [readLineWithin, if_pos ⟨hlong, hmem⟩] at h
      exact absurd h (by simp)
    · apply hmem
      rw [List.take_append, List.take_of_length_le (by omega), hs]
      simp
  bad_append {s} t h := by
    rw [readLineWithin] at h
    split at h
    · next hlimit =>
      have hlong : limit ≤ (s ++ t).length := by
        rw [List.length_append]
        omega
      rw [readLineWithin, if_pos]
      exact ⟨hlong, by rw [List.take_append_of_le_length hlimit.1]; exact hlimit.2⟩
    · exact absurd h (readLine_ne_bad s)

end Line

/-- A block of `n` elements and `extra` more behind it, which are dropped unseen. -/
def readBlock (n extra : ℕ) (s : List α) : Step α (List α) :=
  if s.length < n + extra then .need else .frame (s.take n) (s.drop (n + extra))

lemma readBlock_block (block more rest : List α) :
    readBlock block.length more.length (block ++ (more ++ rest)) = .frame block rest := by
  have hlen : ¬(block ++ (more ++ rest)).length < block.length + more.length := by
    simp only [List.length_append]
    omega
  rw [readBlock, if_neg hlen, List.take_left, ← List.append_assoc, ← List.length_append, List.drop_left]

lemma length_of_readBlock {n extra : ℕ} {s block rest : List α} (h : readBlock n extra s = .frame block rest) :
    rest.length + n + extra = s.length := by
  rw [readBlock] at h
  split at h
  · exact absurd h (by simp)
  · obtain ⟨-, rfl⟩ := Step.frame.inj h
    rw [List.length_drop]
    omega

/-- A block behind the first `k` elements, in terms of the whole. -/
lemma readBlock_drop {k : ℕ} {s : List α} (hk : k ≤ s.length) (n extra : ℕ) :
    readBlock n extra (s.drop k) = if s.length < k + n + extra then .need else
      .frame ((s.take (k + n)).drop k) (s.drop (k + n + extra)) := by
  have hlen : (s.drop k).length < n + extra ↔ s.length < k + n + extra := by
    rw [List.length_drop]
    omega
  rw [readBlock, List.drop_drop, List.drop_take, Nat.add_sub_cancel_left, ← Nat.add_assoc]
  simp only [hlen]

lemma stable_readBlock (n extra : ℕ) : Stable (readBlock (α := α) n extra) where
  suffix {s b rest} h := by
    rw [readBlock] at h
    split at h
    · exact absurd h (by simp)
    · exact (Step.frame.inj h).2 ▸ List.drop_suffix _ _
  frame_append {s b rest} t h := by
    rw [readBlock] at h
    split at h
    · exact absurd h (by simp)
    · next hlen =>
      obtain ⟨rfl, rfl⟩ := Step.frame.inj h
      have hlonger : ¬(s ++ t).length < n + extra := by
        rw [List.length_append]
        omega
      rw [readBlock, if_neg hlonger, List.take_append_of_le_length (by omega),
        List.drop_append_of_le_length (by omega)]
  bad_append {s} t h := by
    rw [readBlock] at h
    split at h <;> exact absurd h (by simp)

/-- `count` frames, added to those read before. -/
def readTimes (read : List α → Step α β) : ℕ → List β → List α → Step α (List β)
  | 0, bs, s => .frame bs s
  | count + 1, bs, s => (read s).andThen (fun b rest => readTimes read count (bs ++ [b]) rest)

lemma stable_readTimes {read : List α → Step α β} (h : Stable read) (count : ℕ) (bs : List β) :
    Stable (readTimes read count bs) := by
  induction count generalizing bs with
  | zero => exact stable_frame bs
  | succ count ih => exact h.andThen (fun b => ih (bs ++ [b]))

lemma readTimes_encoded {read : List α → Step α β} {encode : γ → List α} {value : γ → β} {ws : List γ}
    (h : ∀ w ∈ ws, ∀ t, read (encode w ++ t) = .frame (value w) t) (before : List β) (rest : List α) :
    readTimes read ws.length before (ws.flatMap encode ++ rest) = .frame (before ++ ws.map value) rest := by
  induction ws generalizing before with
  | nil => rw [List.flatMap_nil, List.nil_append, List.map_nil, List.append_nil, List.length_nil, readTimes]
  | cons w ws ih =>
    have hw := h w List.mem_cons_self (ws.flatMap encode ++ rest)
    have hws := ih (fun w' hw' => h w' (List.mem_cons_of_mem w hw')) (before ++ [value w])
    rw [List.length_cons, readTimes, List.flatMap_cons, List.append_assoc, hw, Step.frame_andThen, hws,
      List.append_assoc]
    rfl

/-! ### Streams of frames -/

/-- A stable reader whose frames are not empty. -/
structure Reader (α β : Type*) where
  read : List α → Step α β
  stable : Stable read
  shrinks : ∀ {s b rest}, read s = .frame b rest → rest.length < s.length

/-- The reader that goes by the first element. -/
def Reader.ofCons (read : List α → Step α β) (body : α → List α → Step α β) (hnil : read [] = .need)
    (hcons : ∀ a s, read (a :: s) = body a s) (h : ∀ a, Stable (body a)) : Reader α β where
  read := read
  stable := stable_of_cons body hnil hcons h
  shrinks {s b rest} hs := by
    cases s with
    | nil => exact absurd (hnil.symm.trans hs) (by simp)
    | cons a s =>
      rw [hcons] at hs
      exact Nat.lt_succ_of_le ((h a).suffix hs).length_le

/-- The frames of `s` are `bs`, and `rest` is unfinished. -/
inductive Drains (R : Reader α β) : List α → List β → List α → Prop where
  | stop {s : List α} (h : R.read s = .need) : Drains R s [] s
  | frame {s rest rest' : List α} {b : β} {bs : List β} (h : R.read s = .frame b rest)
      (hrest : Drains R rest bs rest') : Drains R s (b :: bs) rest'

namespace Drains

variable {R : Reader α β}

lemma read_rest {s rest : List α} {bs : List β} (h : Drains R s bs rest) : R.read rest = .need := by
  induction h with
  | stop h => exact h
  | frame _ _ ih => exact ih

lemma unique {s rest rest' : List α} {bs bs' : List β} (h : Drains R s bs rest) (h' : Drains R s bs' rest') :
    bs = bs' ∧ rest = rest' := by
  induction h generalizing bs' with
  | stop h =>
    cases h' with
    | stop _ => exact ⟨rfl, rfl⟩
    | frame hframe _ => exact absurd (h.symm.trans hframe) (by simp)
  | frame h _ ih =>
    cases h' with
    | stop hneed => exact absurd (h.symm.trans hneed) (by simp)
    | frame hframe hrest =>
      obtain ⟨rfl, rfl⟩ := Step.frame.inj (h.symm.trans hframe)
      obtain ⟨rfl, rfl⟩ := ih hrest
      exact ⟨rfl, rfl⟩

/-- The frames of a stream are those of a first part, then those of its unfinished rest with the
second part. -/
lemma split {s t rest : List α} {bs : List β} (h : Drains R (s ++ t) bs rest) :
    ∃ bs₁ bs₂ mid, bs = bs₁ ++ bs₂ ∧ Drains R s bs₁ mid ∧ Drains R (mid ++ t) bs₂ rest := by
  -- the induction is on the length of the first part, which shrinks with every frame in it
  induction hn : s.length using Nat.strongRecOn generalizing s bs with
  | _ n ih =>
    cases hread : R.read s with
    | need => exact ⟨[], bs, s, rfl, .stop hread, h⟩
    | bad =>
      have hbad := R.stable.bad_append t hread
      cases h with
      | stop hneed => exact absurd (hbad.symm.trans hneed) (by simp)
      | frame hframe _ => exact absurd (hbad.symm.trans hframe) (by simp)
    | frame b s' =>
      have hlonger := R.stable.frame_append t hread
      have hshort := R.shrinks hread
      cases h with
      | stop hneed => exact absurd (hlonger.symm.trans hneed) (by simp)
      | frame hframe hrest =>
        obtain ⟨rfl, rfl⟩ := Step.frame.inj (hlonger.symm.trans hframe)
        obtain ⟨bs₁, bs₂, mid, rfl, hfirst, hsecond⟩ := ih s'.length (hn ▸ hshort) hrest rfl
        exact ⟨_ :: bs₁, bs₂, mid, rfl, .frame hread hfirst, hsecond⟩

/-- The frames of a first part, then those of its unfinished rest with the second part. -/
lemma append {s t rest rest' : List α} {bs bs' : List β} (h : Drains R s bs rest)
    (h' : Drains R (rest ++ t) bs' rest') : Drains R (s ++ t) (bs ++ bs') rest' := by
  induction h with
  | stop _ => exact h'
  | frame hread _ ih => exact .frame (R.stable.frame_append t hread) (ih h')

end Drains

section Encoding

variable (R : Reader α β) (encode : γ → List α) (value : γ → β) (Valid : γ → Prop)
  (hencode : ∀ w, Valid w → ∀ t, R.read (encode w ++ t) = .frame (value w) t)
include hencode

/-- A proper beginning of an encoded frame is unfinished. -/
lemma read_of_unfinished {w : γ} (hw : Valid w) {s t : List α} (h : s ++ t = encode w) (ht : t ≠ []) :
    R.read s = .need := by
  have hwhole : R.read (s ++ t) = .frame (value w) [] := by
    rw [h, ← List.append_nil (encode w)]
    exact hencode w hw []
  cases hread : R.read s with
  | need => rfl
  | bad => exact absurd ((R.stable.bad_append t hread).symm.trans hwhole) (by simp)
  | frame b' rest =>
    have hrest := (Step.frame.inj ((R.stable.frame_append t hread).symm.trans hwhole)).2
    exact absurd (List.append_eq_nil_iff.mp hrest).2 ht

/-- Encoded frames, then an unfinished part. -/
lemma drains_encoded {ws : List γ} (hws : ∀ w ∈ ws, Valid w) {rest : List α} (hrest : R.read rest = .need) :
    Drains R (ws.flatMap encode ++ rest) (ws.map value) rest := by
  induction ws with
  | nil => exact .stop hrest
  | cons w ws ih =>
    rw [List.flatMap_cons, List.append_assoc]
    exact .frame (hencode w (hws w List.mem_cons_self) _) (ih fun w' hw' => hws w' (List.mem_cons_of_mem w hw'))

end Encoding

/-- Every chunk is one that the machine may be given when it comes. -/
def Allowed (feed : σ → List α → σ) (Chunk : σ → List α → Prop) : σ → List (List α) → Prop
  | _, [] => True
  | p, c :: cs => Chunk p c ∧ Allowed feed Chunk (feed p c) cs

lemma allowed_of_forall {feed : σ → List α → σ} {Q : List α → Prop} {cs : List (List α)} (h : ∀ c ∈ cs, Q c) (p : σ) :
    Allowed feed (fun _ c => Q c) p cs := by
  induction cs generalizing p with
  | nil => trivial
  | cons c cs ih => exact ⟨h c List.mem_cons_self, ih (fun c' hc' => h c' (List.mem_cons_of_mem c hc')) _⟩

/-- If a machine that has delivered `bs` and holds `rest` takes in one chunk as the reader would, as long as
its frames are of a certain kind, it takes in any stream of such frames as the reader would, however it is
cut into chunks. -/
theorem feed_chunks (R : Reader α β) (feed : σ → List α → σ) (Chunk : σ → List α → Prop) (Frame : β → Prop)
    (Rep : σ → List β → List α → Prop)
    (hneed : ∀ {p bs rest}, Rep p bs rest → R.read rest = .need)
    (hstep : ∀ {p bs rest c bs' rest'}, Rep p bs rest → Chunk p c → Drains R (rest ++ c) bs' rest' →
      (∀ b ∈ bs', Frame b) → Rep (feed p c) (bs ++ bs') rest')
    {p : σ} {bs bs' : List β} {rest rest' : List α} {cs : List (List α)} (hp : Rep p bs rest)
    (hcs : Allowed feed Chunk p cs) (hdrain : Drains R (rest ++ cs.flatten) bs' rest') (hbs : ∀ b ∈ bs', Frame b) :
    Rep (cs.foldl feed p) (bs ++ bs') rest' := by
  induction cs generalizing p bs rest bs' with
  | nil =>
    rw [List.flatten_nil, List.append_nil] at hdrain
    obtain ⟨rfl, rfl⟩ := hdrain.unique (.stop (hneed hp))
    rwa [List.append_nil]
  | cons c cs ih =>
    rw [List.flatten_cons, ← List.append_assoc] at hdrain
    obtain ⟨bs₁, bs₂, mid, rfl, hfirst, hsecond⟩ := hdrain.split
    rw [List.foldl_cons, ← List.append_assoc]
    exact ih (hstep hp hcs.1 hfirst (fun b hb => hbs b (List.mem_append_left _ hb))) hcs.2 hsecond
      (fun b hb => hbs b (List.mem_append_right _ hb))

end Framing
