import Mathlib.Data.List.Infix
import Mathlib.Data.List.Induction

/-!
# Runs of a deterministic machine

A machine is a total step function on states and events. A history is the list of events so
far, newest last; the state is a function of the history, so properties of whole runs are
stated about the prefixes of one list and proved by induction on it.
-/

namespace Runs

variable {σ ε : Type*} (step : σ → ε → σ)

/-- The state reached from `s` by a history. -/
def after (s : σ) (es : List ε) : σ := es.foldl step s

@[simp] lemma after_nil (s : σ) : after step s [] = s := rfl

@[simp] lemma after_cons (s : σ) (e : ε) (es : List ε) :
    after step s (e :: es) = after step (step s e) es := rfl

@[simp] lemma after_append (s : σ) (es es' : List ε) :
    after step s (es ++ es') = after step (after step s es) es' := List.foldl_append

lemma after_concat (s : σ) (es : List ε) (e : ε) :
    after step s (es ++ [e]) = step (after step s es) e := by simp

/-- Every event of the history meets `ok` together with the history before it. -/
def Guarded (ok : List ε → ε → Prop) (es : List ε) : Prop :=
  ∀ pre e, pre ++ [e] <+: es → ok pre e

lemma Guarded.mono {ok : List ε → ε → Prop} {es es' : List ε} (h : Guarded ok es')
    (hp : es <+: es') : Guarded ok es :=
  fun pre e he => h pre e (he.trans hp)

lemma Guarded.imp {ok ok' : List ε → ε → Prop} {es : List ε} (h : Guarded ok es)
    (hok : ∀ pre e, ok pre e → ok' pre e) : Guarded ok' es :=
  fun pre e he => hok pre e (h pre e he)

lemma Guarded.last {ok : List ε → ε → Prop} {es : List ε} {e : ε}
    (h : Guarded ok (es ++ [e])) : ok es e :=
  h es e (List.prefix_refl _)

lemma Guarded.init {ok : List ε → ε → Prop} {es : List ε} {e : ε}
    (h : Guarded ok (es ++ [e])) : Guarded ok es :=
  h.mono (List.prefix_append _ _)

lemma Guarded.concat {ok : List ε → ε → Prop} {es : List ε} {e : ε} (h : Guarded ok es) (he : ok es e) :
    Guarded ok (es ++ [e]) := by
  intro pre e' hp
  rcases List.prefix_concat_iff.mp hp with heq | hp
  · obtain ⟨rfl, rfl⟩ : pre = es ∧ e' = e := by simpa using heq
    exact he
  · exact h pre e' hp

lemma Guarded.append {ok : List ε → ε → Prop} {es es' : List ε} (h : Guarded ok es)
    (h' : ∀ e ∈ es', ∀ pre, ok pre e) : Guarded ok (es ++ es') := by
  induction es' using List.reverseRecOn with
  | nil => rwa [List.append_nil]
  | append_singleton es' e ih =>
    rw [← List.append_assoc]
    exact (ih (fun e' he' => h' e' (List.mem_append_left _ he'))).concat (h' e (by simp) _)

/-- On a given history the condition is checked position by position. -/
lemma guarded_of_forall_lt {ok : List ε → ε → Prop} {es : List ε}
    (h : ∀ n (hn : n < es.length), ok (es.take n) (es.get ⟨n, hn⟩)) : Guarded ok es := by
  rintro pre e ⟨post, rfl⟩
  have hn : pre.length < (pre ++ [e] ++ post).length := by simp
  simpa using h pre.length hn

/-- What holds of the empty history and is kept by every admissible further event holds
of every admissible history. -/
theorem guarded_induction {ok : List ε → ε → Prop} {P : List ε → Prop} (h0 : P [])
    (hs : ∀ es e, P es → ok es e → P (es ++ [e])) :
    ∀ es, Guarded ok es → P es := by
  intro es
  induction es using List.reverseRecOn with
  | nil => exact fun _ => h0
  | append_singleton es e ih => exact fun hg => hs es e (ih hg.init) hg.last

theorem history_induction {P : List ε → Prop} (h0 : P [])
    (hs : ∀ es e, P es → P (es ++ [e])) (es : List ε) : P es := by
  induction es using List.reverseRecOn with
  | nil => exact h0
  | append_singleton es e ih => exact hs es e ih

/-- What holds at some moment of a run and is kept by every event holds from then on. -/
theorem prefix_induction {P : List ε → Prop} {pre es : List ε} (h : pre <+: es) (h0 : P pre)
    (hs : ∀ es e, P es → P (es ++ [e])) : P es := by
  obtain ⟨rest, rfl⟩ := h
  induction rest using List.reverseRecOn with
  | nil => rwa [List.append_nil]
  | append_singleton rest e ih =>
    rw [← List.append_assoc]
    exact hs _ e ih

/-- Blocks of events that each lower a measure have lowered it by their number. -/
theorem measure_after_blocks {κ : Type*} (step : σ → ε → σ) (block : κ → List ε) (inv : σ → Prop) (μ : σ → ℕ)
    (h : ∀ s k, inv s → inv (after step s (block k)) ∧ μ (after step s (block k)) ≤ μ s - 1)
    {s : σ} (hs : inv s) (ks : List κ) :
    inv (after step s (ks.flatMap block)) ∧ μ (after step s (ks.flatMap block)) ≤ μ s - ks.length := by
  induction ks generalizing s with
  | nil => exact ⟨hs, Nat.le_refl _⟩
  | cons k ks ih =>
    obtain ⟨hinv, hblock⟩ := h s k hs
    obtain ⟨hinv', hblocks⟩ := ih hinv
    rw [List.flatMap_cons, after_append]
    refine ⟨hinv', hblocks.trans ?_⟩
    rw [List.length_cons]
    omega

/-! ### What happened before -/

/-- Some event of the history met `P` together with the history before it. -/
def Once (P : List ε → ε → Prop) (es : List ε) : Prop := ∃ pre e, pre ++ [e] <+: es ∧ P pre e

@[simp] lemma not_once_nil (P : List ε → ε → Prop) : ¬Once P [] := by
  rintro ⟨pre, e, ⟨post, h⟩, -⟩
  simp at h

lemma once_concat {P : List ε → ε → Prop} {es : List ε} {e : ε} :
    Once P (es ++ [e]) ↔ Once P es ∨ P es e := by
  constructor
  · rintro ⟨pre, e', hp, h⟩
    rcases List.prefix_concat_iff.mp hp with heq | hp
    · obtain ⟨rfl, rfl⟩ : pre = es ∧ e' = e := by simpa using heq
      exact Or.inr h
    · exact Or.inl ⟨pre, e', hp, h⟩
  · rintro (⟨pre, e', hp, h⟩ | h)
    · exact ⟨pre, e', hp.trans (List.prefix_append _ _), h⟩
    · exact ⟨es, e, List.prefix_refl _, h⟩

lemma Once.mono {P Q : List ε → ε → Prop} {es es' : List ε} (h : Once P es) (hp : es <+: es')
    (hq : ∀ pre e, P pre e → Q pre e) : Once Q es' := by
  obtain ⟨pre, e, he, h⟩ := h
  exact ⟨pre, e, he.trans hp, hq pre e h⟩

/-- Some event met `P`, and every event after it met `Q`. -/
def Since (P Q : List ε → ε → Prop) (es : List ε) : Prop :=
  ∃ pre e, pre ++ [e] <+: es ∧ P pre e ∧
    ∀ pre' e', pre' ++ [e'] <+: es → pre.length < pre'.length → Q pre' e'

@[simp] lemma not_since_nil (P Q : List ε → ε → Prop) : ¬Since P Q [] := by
  rintro ⟨pre, e, ⟨post, h⟩, -⟩
  simp at h

lemma since_concat {P Q : List ε → ε → Prop} {es : List ε} {e : ε} :
    Since P Q (es ++ [e]) ↔ P es e ∨ Since P Q es ∧ Q es e := by
  constructor
  · rintro ⟨pre, e', hp, h, hq⟩
    rcases List.prefix_concat_iff.mp hp with heq | hp
    · obtain ⟨rfl, rfl⟩ : pre = es ∧ e' = e := by simpa using heq
      exact Or.inl h
    · have hlt : pre.length < es.length := by simpa [Nat.succ_le_iff] using hp.length_le
      refine Or.inr ⟨⟨pre, e', hp, h, fun pre' e'' hp' => ?_⟩, hq es e (List.prefix_refl _) hlt⟩
      exact hq pre' e'' (hp'.trans (List.prefix_append _ _))
  · rintro (h | ⟨⟨pre, e', hp, h, hq⟩, hlast⟩)
    · refine ⟨es, e, List.prefix_refl _, h, fun pre' e' hp' hlt => ?_⟩
      have hle := hp'.length_le
      simp at hle
      omega
    · refine ⟨pre, e', hp.trans (List.prefix_append _ _), h, fun pre' e'' hp' hlt => ?_⟩
      rcases List.prefix_concat_iff.mp hp' with heq | hp'
      · obtain ⟨rfl, rfl⟩ : pre' = es ∧ e'' = e := by simpa using heq
        exact hlast
      · exact hq pre' e'' hp' hlt

lemma Since.append {P Q : List ε → ε → Prop} {es es' : List ε} (h : Since P Q es)
    (h' : ∀ e ∈ es', ∀ pre, Q pre e) : Since P Q (es ++ es') := by
  induction es' using List.reverseRecOn with
  | nil => rwa [List.append_nil]
  | append_singleton es' e ih =>
    rw [← List.append_assoc]
    exact since_concat.mpr (Or.inr ⟨ih (fun e' he' => h' e' (List.mem_append_left _ he')), h' e (by simp) _⟩)

/-- Two events, neither followed by one of the other's kind, are the same event. -/
lemma Since.and {P Q P' Q' : List ε → ε → Prop} {es : List ε} (h : Since P Q es) (h' : Since P' Q' es)
    (hp : Guarded (fun pre e => P pre e → ¬Q' pre e) es) (hp' : Guarded (fun pre e => P' pre e → ¬Q pre e) es) :
    Since (fun pre e => P pre e ∧ P' pre e) (fun pre e => Q pre e ∧ Q' pre e) es := by
  induction es using history_induction with
  | h0 => exact absurd h (not_since_nil P Q)
  | hs es e ih =>
    rw [since_concat] at h h' ⊢
    rcases h with h | ⟨h, hq⟩ <;> rcases h' with h' | ⟨h', hq'⟩
    · exact Or.inl ⟨h, h'⟩
    · exact absurd hq' (hp.last h)
    · exact absurd hq (hp'.last h')
    · exact Or.inr ⟨ih h h' hp.init hp'.init, hq, hq'⟩

lemma Since.imp {P Q P' Q' : List ε → ε → Prop} {es : List ε} (h : Since P Q es)
    (hp : ∀ pre e, P pre e → P' pre e) (hq : ∀ pre e, Q pre e → Q' pre e) : Since P' Q' es := by
  obtain ⟨pre, e, he, h, hafter⟩ := h
  exact ⟨pre, e, he, hp pre e h, fun pre' e' he' hlt => hq pre' e' (hafter pre' e' he' hlt)⟩

lemma Since.once {P Q : List ε → ε → Prop} {es : List ε} (h : Since P Q es) : Once P es := by
  obtain ⟨pre, e, he, h, -⟩ := h
  exact ⟨pre, e, he, h⟩

/-- What holds since some event, but not since the event `x` and not across it, began after `x`. -/
lemma exists_mem_of_since {P : ε → Prop} {Q : List ε → ε → Prop} {es : List ε} {x : ε} (hP : ¬P x)
    (hQ : ¬Q es x) {es' : List ε} (h : Since (fun _ e => P e) Q (es ++ [x] ++ es')) : ∃ e ∈ es', P e := by
  induction es' using history_induction with
  | h0 =>
    rw [List.append_nil] at h
    rcases since_concat.mp h with h | ⟨-, h⟩
    exacts [absurd h hP, absurd h hQ]
  | hs es' e ih =>
    rw [← List.append_assoc] at h
    rcases since_concat.mp h with h | ⟨h, -⟩
    · exact ⟨e, by simp, h⟩
    · obtain ⟨e', he', h'⟩ := ih h
      exact ⟨e', List.mem_append_left _ he', h'⟩

/-- `Since`, computed from the oldest event on. -/
def sinceFrom (P Q : List ε → ε → Prop) : List ε → Prop → List ε → Prop
  | _, now, [] => now
  | pre, now, e :: es => sinceFrom P Q (pre ++ [e]) (P pre e ∨ now ∧ Q pre e) es

lemma sinceFrom_iff (P Q : List ε → ε → Prop) (pre es : List ε) {now : Prop} (h : now ↔ Since P Q pre) :
    sinceFrom P Q pre now es ↔ Since P Q (pre ++ es) := by
  induction es generalizing pre now with
  | nil => simpa [sinceFrom] using h
  | cons e es ih =>
    rw [sinceFrom, ih (pre ++ [e]) (by rw [since_concat, h])]
    simp

def decidableSinceFrom {P Q : List ε → ε → Prop} [∀ pre e, Decidable (P pre e)]
    [∀ pre e, Decidable (Q pre e)] :
    (pre : List ε) → (now : Prop) → [Decidable now] → (es : List ε) → Decidable (sinceFrom P Q pre now es)
  | _, _, hn, [] => hn
  | pre, _, _, e :: es => decidableSinceFrom (pre ++ [e]) (P pre e ∨ _ ∧ Q pre e) es

instance {P Q : List ε → ε → Prop} [∀ pre e, Decidable (P pre e)] [∀ pre e, Decidable (Q pre e)]
    (es : List ε) : Decidable (Since P Q es) :=
  have := decidableSinceFrom (P := P) (Q := Q) [] False es
  decidable_of_iff (sinceFrom P Q [] False es) (sinceFrom_iff P Q [] es (by simp))

lemma once_iff_since {P : List ε → ε → Prop} {es : List ε} : Since P (fun _ _ => True) es ↔ Once P es := by
  constructor
  · rintro ⟨pre, e, hp, h, -⟩
    exact ⟨pre, e, hp, h⟩
  · rintro ⟨pre, e, hp, h⟩
    exact ⟨pre, e, hp, h, fun _ _ _ _ => trivial⟩

instance {P : List ε → ε → Prop} [∀ pre e, Decidable (P pre e)] (es : List ε) : Decidable (Once P es) :=
  decidable_of_iff _ once_iff_since

end Runs
