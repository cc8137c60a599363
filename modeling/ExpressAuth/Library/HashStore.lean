import Mathlib.Data.Finmap
import Mathlib.Logic.Function.Basic

/-!
# A store of hashes

A finite map from keys to hashes, where a hash assigns values to fields. Writing a field
creates a missing key, deleting a key removes its whole hash. The fields of a hash have no
order.
-/

/-- A keyed collection of hashes; `AList` carries the proof that no key is bound twice. -/
abbrev HashStore (K F V : Type*) := AList (fun _ : K => Finmap (fun _ : F => V))

namespace HashStore

variable {K F V : Type*} [DecidableEq K]

/-- The hash of a key, empty if the key is missing. -/
def hash (s : HashStore K F V) (k : K) : Finmap (fun _ : F => V) := (s.lookup k).getD ∅

def del (s : HashStore K F V) (k : K) : HashStore K F V := s.erase k

lemma hash_del (s : HashStore K F V) (k k' : K) : (s.del k).hash k' = if k' = k then ∅ else s.hash k' := by
  unfold hash del
  by_cases hk : k' = k
  · subst hk
    rw [AList.lookup_erase, if_pos rfl]
    rfl
  · rw [AList.lookup_erase_ne hk, if_neg hk]

lemma mem_del (s : HashStore K F V) (k k' : K) : k' ∈ s.del k ↔ k' ≠ k ∧ k' ∈ s := AList.mem_erase

variable [DecidableEq F]

def hget (s : HashStore K F V) (k : K) (f : F) : Option V := (s.hash k).lookup f

@[simp] lemma hget_empty (k : K) (f : F) : hget (∅ : HashStore K F V) k f = none := rfl

lemma hget_del (s : HashStore K F V) (k k' : K) (f : F) :
    (s.del k).hget k' f = if k' = k then none else s.hget k' f := by
  unfold hget
  rw [hash_del]
  split
  · exact Finmap.lookup_empty f
  · rfl

/-- A stored field belongs to a key of the store. -/
lemma mem_of_hget {s : HashStore K F V} {k : K} {f : F} {v : V} (h : s.hget k f = some v) : k ∈ s := by
  rw [← AList.lookup_isSome]
  cases hk : s.lookup k with
  | none => simp [hget, hash, hk] at h
  | some _ => rfl

def hset (s : HashStore K F V) (k : K) (f : F) (v : V) : HashStore K F V := s.insert k ((s.hash k).insert f v)

lemma hget_hset (s : HashStore K F V) (k k' : K) (f f' : F) (v : V) :
    (s.hset k f v).hget k' f' = if k' = k ∧ f' = f then some v else s.hget k' f' := by
  unfold hget hash hset
  by_cases hk : k' = k
  · subst hk
    by_cases hf : f' = f
    · subst hf
      simp
    · simp [hf, Finmap.lookup_insert_of_ne, hash]
  · simp [AList.lookup_insert_ne hk, hk]

@[simp] lemma hget_hset_self (s : HashStore K F V) (k : K) (f : F) (v : V) :
    (s.hset k f v).hget k f = some v := by
  simp [hget_hset]

/-! ### The hash of one key -/

lemma hget_hset_eq_update (s : HashStore K F V) (k : K) (f : F) (v : V) :
    (s.hset k f v).hget k = Function.update (s.hget k) f (some v) := by
  funext f'
  by_cases hf : f' = f <;> simp [hget_hset, hf]

lemma hget_del_self (s : HashStore K F V) (k : K) : (s.del k).hget k = fun _ => none := by
  funext f
  rw [hget_del, if_pos rfl]

lemma hget_del_of_ne (s : HashStore K F V) {k k' : K} (h : k' ≠ k) : (s.del k).hget k' = s.hget k' := by
  funext f
  rw [hget_del, if_neg h]

/-- A hash write: key, field and value. -/
abbrev Write (K F V : Type*) := K × F × V

def write (s : HashStore K F V) (w : Write K F V) : HashStore K F V := s.hset w.1 w.2.1 w.2.2

def writes (s : HashStore K F V) (ws : List (Write K F V)) : HashStore K F V := ws.foldl write s

@[simp] lemma writes_nil (s : HashStore K F V) : s.writes [] = s := rfl

@[simp] lemma writes_cons (s : HashStore K F V) (w : Write K F V) (ws : List (Write K F V)) :
    s.writes (w :: ws) = (s.hset w.1 w.2.1 w.2.2).writes ws := rfl

/-- Writing creates the missing keys and keeps the others. -/
lemma mem_writes (s : HashStore K F V) (ws : List (Write K F V)) (k : K) :
    k ∈ s.writes ws ↔ k ∈ s ∨ ∃ w ∈ ws, w.1 = k := by
  induction ws generalizing s with
  | nil => simp
  | cons w ws ih =>
    rw [writes_cons, ih, hset, AList.mem_insert]
    simp only [List.exists_mem_cons_iff, eq_comm (a := w.1)]
    tauto

/-- A list of writes leaves a field alone when none of them names it. -/
lemma hget_writes_of_forall_ne (s : HashStore K F V) (ws : List (Write K F V)) (k : K) (f : F)
    (h : ∀ w ∈ ws, ¬(w.1 = k ∧ w.2.1 = f)) : (s.writes ws).hget k f = s.hget k f := by
  induction ws generalizing s with
  | nil => rfl
  | cons w ws ih =>
    rw [writes_cons, ih _ (fun w' hw' => h w' (List.mem_cons_of_mem _ hw')), hget_hset]
    have hw : ¬(k = w.1 ∧ f = w.2.1) := fun hc =>
      h w List.mem_cons_self ⟨hc.1.symm, hc.2.symm⟩
    rw [if_neg hw]

end HashStore
