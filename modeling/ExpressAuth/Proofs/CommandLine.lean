import ExpressAuth.Proofs.SerialEffects

/-!
# The grammar of the command line

`main` tests its first argument with `in`, and `in` between two strings asks for a substring. So
the empty string, a lone dash and the bare letters are options too, and the cascade decides which.
Only `-d` reads its argument without a look at the length of the list.
-/

namespace ExpressAuth.Proofs
open AdminTool

/-- The lists of the usage text that write. -/
def documented : List String → Bool
  | [opt, _] => opt = "-d"
  | [opt, _, _] => opt = "-p" ∨ opt = "-m"
  | [opt, _, _, _] => opt = "-c"
  | _ => false

/-- The other lists that write to some store: a part of an option is taken for the option, and `-d` passes
over what it does not read. A name of `-p` and `-m` is a glob, which may match no key at all. -/
inductive Misread : List String → Prop
  | create {opt : String} (username password mail : String) (h : opt ∈ ["", "-", "c"]) :
      Misread [opt, username, password, mail]
  | update {opt username key : String} (value : String) (h : opt ∈ ["p", "m"])
      (hkey : keyMatches username key = some true) : Misread [opt, username, value]
  | delete {opt : String} (username : String) (rest : List String) (h : opt = "d") : Misread (opt :: username :: rest)
  | deleteMore {opt : String} (username extra : String) (rest : List String) (h : opt = "-d") :
      Misread (opt :: username :: extra :: rest)

/-! ### Options -/

lemma infix_pair_iff {α : Type*} {l : List α} {a b : α} :
    l <:+: [a, b] ↔ l = [] ∨ l = [a] ∨ l = [b] ∨ l = [a, b] := by
  simp only [List.infix_cons_iff, List.prefix_cons_iff, List.prefix_nil, List.infix_nil]
  constructor
  · rintro ((rfl | ⟨t, rfl, rfl | ⟨t', rfl, rfl⟩⟩) | (rfl | ⟨t, rfl, rfl⟩) | rfl) <;> simp
  · rintro (rfl | rfl | rfl | rfl) <;> simp

/-- `opt in "-x"` holds of the four substrings. -/
lemma isIn_iff {opt s : String} {a b : Char} (hs : s.toList = [a, b]) :
    isIn opt s = true ↔ opt = "" ∨ opt = String.ofList [a] ∨ opt = String.ofList [b] ∨ opt = s := by
  have hofList : ∀ l, opt.toList = l ↔ opt = String.ofList l := by
    intro l
    constructor
    · rintro rfl
      exact String.ofList_toList.symm
    · rintro rfl
      exact String.toList_ofList
  have hself : String.ofList [a, b] = s := by rw [← hs, String.ofList_toList]
  rw [isIn, decide_eq_true_eq, hs, infix_pair_iff, hofList, hofList, hofList, hofList, hself]

/-- The cascade, written out. -/
lemma optionOf_eq (opt : String) :
    optionOf opt =
      if opt ∈ ["", "-", "c", "-c"] then "-c"
      else if opt ∈ ["p", "-p"] then "-p"
      else if opt ∈ ["m", "-m"] then "-m"
      else if opt ∈ ["l", "-l"] then "-l"
      else if opt ∈ ["d", "-d"] then "-d"
      else "-h" := by
  have hin : ∀ {s : String} {b : Char}, s.toList = ['-', b] →
      (isIn opt s = true ↔ opt ∈ ["", "-", String.ofList [b], s]) := by
    intro s b hs
    rw [isIn_iff hs]
    simp
  have hc : isIn opt "-c" = true ↔ opt ∈ ["", "-", "c", "-c"] := hin rfl
  have hp : isIn opt "-p" = true ↔ opt ∈ ["", "-", "p", "-p"] := hin rfl
  have hm : isIn opt "-m" = true ↔ opt ∈ ["", "-", "m", "-m"] := hin rfl
  have hl : isIn opt "-l" = true ↔ opt ∈ ["", "-", "l", "-l"] := hin rfl
  have hd : isIn opt "-d" = true ↔ opt ∈ ["", "-", "d", "-d"] := hin rfl
  simp only [optionOf, hc, hp, hm, hl, hd, List.mem_cons, List.not_mem_nil, or_false]
  split_ifs <;> simp_all

lemma optionOf_eq_create_iff {opt : String} : optionOf opt = "-c" ↔ opt ∈ ["", "-", "c"] ∨ opt = "-c" := by
  rw [optionOf_eq]
  split_ifs <;> simp_all [or_assoc]

/-- The options that no part of an earlier one is taken for. -/
lemma optionOf_eq_iff {opt : String} :
    (optionOf opt = "-p" ↔ opt = "p" ∨ opt = "-p") ∧ (optionOf opt = "-m" ↔ opt = "m" ∨ opt = "-m") ∧
      (optionOf opt = "-d" ↔ opt = "d" ∨ opt = "-d") := by
  rw [optionOf_eq]
  grind

/-! ### Invocations that only read -/

/-- The action writes nothing. -/
def readsOnly : Action → Bool
  | .run _ | .createMail _ _ => false
  | _ => true

/-- Whatever is stored, the invocation goes on without a write. -/
inductive Harmless : Proc → Prop
  | keys {username found missing} (hnone : ∀ key, keyMatches username key ≠ some true)
      (h : ∀ a ∈ missing, readsOnly a = true) : Harmless (.keys username found missing)
  | list : Harmless .list
  | todo {actions} (h : ∀ a ∈ actions, readsOnly a = true) : Harmless (.todo actions)

lemma harmless_helpAndExit : Harmless helpAndExit := .todo (by simp [readsOnly])

lemma readsOnly_afterKeys {username : String} {found missing : List Action}
    (hnone : ∀ key, keyMatches username key ≠ some true) (h : ∀ a ∈ missing, readsOnly a = true) (store : Store) :
    ∀ a ∈ afterKeys store username found missing, readsOnly a = true := by
  have hmatching : Store.matching store username = [] := by
    rw [Store.matching]
    split_ifs
    · rfl
    · exact List.filter_eq_nil_iff.mpr (fun key _ => by simp [hnone key])
  rw [afterKeys, if_pos hmatching]
  split_ifs
  · simp [readsOnly]
  · exact h

lemma Harmless.actions {proc : Proc} (h : Harmless proc) (store : Store) :
    ∀ a ∈ proc.actions store, readsOnly a = true := by
  cases h with
  | keys hnone h => exact readsOnly_afterKeys hnone h store
  | list =>
    intro a ha
    obtain ⟨user, -, rfl⟩ := List.mem_map.mp ha
    rfl
  | todo h => exact h

lemma Harmless.step {proc : Proc} (h : Harmless proc) (store : Store) (now : ℕ) :
    (proc.step store now).1 = store ∧ Harmless (proc.step store now).2.1 := by
  cases h with
  | keys hnone h => exact ⟨rfl, .todo (readsOnly_afterKeys hnone h store)⟩
  | list => exact ⟨rfl, .todo (Harmless.list.actions store)⟩
  | @todo actions h =>
    cases actions with
    | nil => exact ⟨rfl, .todo h⟩
    | cons a rest =>
      have hrest : ∀ b ∈ rest, readsOnly b = true := fun b hb => h b (List.mem_cons_of_mem a hb)
      cases a with
      | run | createMail => exact absurd (h _ List.mem_cons_self) (by simp [readsOnly])
      | writeFile | showRecord | print => exact ⟨rfl, .todo hrest⟩
      | raise => exact ⟨rfl, .todo (by simp)⟩

/-- An invocation after steps that each met a store and a clock reading of their own. -/
def afterSteps (argv : List String) (met : List (Store × ℕ)) : Proc :=
  Runs.after (fun proc x => (Proc.step x.1 x.2 proc).2.1) (main argv) met

lemma harmless_afterSteps {argv : List String} (h : Harmless (main argv)) (met : List (Store × ℕ)) :
    Harmless (afterSteps argv met) := by
  induction met using Runs.history_induction with
  | h0 => exact h
  | hs met x ih =>
    rw [afterSteps, Runs.after_concat]
    exact (ih.step x.1 x.2).2

lemma Harmless.foldl_actions {proc : Proc} (h : Harmless proc) (store : Store) (now : ℕ) :
    (proc.actions store).foldl (Action.apply now) store = store := by
  have hreads := h.actions store
  generalize proc.actions store = actions at hreads
  induction actions with
  | nil => rfl
  | cons a rest ih =>
    have happly : Action.apply now store a = store := by
      cases a with
      | run | createMail => exact absurd (hreads _ List.mem_cons_self) (by simp [readsOnly])
      | _ => rfl
    rw [List.foldl_cons, happly]
    exact ih (fun b hb => hreads b (List.mem_cons_of_mem a hb))

section main

variable {opt : String} {args : List String} (hdoc : documented (opt :: args) = false) (hnot : ¬Misread (opt :: args))
include hdoc hnot

lemma harmless_create (ho : optionOf opt = "-c") : Harmless (main ("-c" :: args)) := by
  have hopt := optionOf_eq_create_iff.mp ho
  rcases args with _ | ⟨username, _ | ⟨password, _ | ⟨mail, _ | ⟨extra, rest⟩⟩⟩⟩
  case cons.cons.cons.nil =>
    rcases hopt with hopt | rfl
    · exact absurd (.create username password mail hopt) hnot
    · simp [documented] at hdoc
  all_goals exact harmless_helpAndExit

/-- The two options that look for a record first. -/
lemma harmless_update {option letter : String} (hopt : opt = letter ∨ opt = option) (hletter : letter ∈ ["p", "m"])
    (hoption : option = "-p" ∨ option = "-m") {username value : String} {found missing : List Action}
    (hargs : args = [username, value]) (hmissing : ∀ a ∈ missing, readsOnly a = true) :
    Harmless (.keys username found missing) := by
  subst hargs
  rcases hopt with rfl | rfl
  · exact .keys (fun key hkey => hnot (.update value hletter hkey)) hmissing
  · rcases hoption with rfl | rfl <;> simp [documented] at hdoc

lemma harmless_password (ho : optionOf opt = "-p") : Harmless (main ("-p" :: args)) := by
  have hopt := optionOf_eq_iff.1.mp ho
  rcases args with _ | ⟨username, _ | ⟨password, _ | ⟨extra, rest⟩⟩⟩
  case cons.cons.nil =>
    exact harmless_update hdoc hnot hopt (by simp) (.inl rfl) rfl (by simp [readsOnly])
  all_goals exact harmless_helpAndExit

lemma harmless_mail (ho : optionOf opt = "-m") : Harmless (main ("-m" :: args)) := by
  have hopt := optionOf_eq_iff.2.1.mp ho
  rcases args with _ | ⟨username, _ | ⟨mail, _ | ⟨extra, rest⟩⟩⟩
  case cons.cons.nil =>
    exact harmless_update hdoc hnot hopt (by simp) (.inr rfl) rfl (by simp [readsOnly])
  all_goals exact harmless_helpAndExit

lemma harmless_delete (ho : optionOf opt = "-d") : Harmless (main ("-d" :: args)) := by
  have hopt := optionOf_eq_iff.2.2.mp ho
  rcases args with _ | ⟨username, _ | ⟨extra, rest⟩⟩
  · exact .todo (by simp [readsOnly])
  · rcases hopt with rfl | rfl
    · exact absurd (.delete username [] rfl) hnot
    · simp [documented] at hdoc
  · rcases hopt with rfl | rfl
    · exact absurd (.delete username (extra :: rest) rfl) hnot
    · exact absurd (.deleteMore username extra rest rfl) hnot

end main

lemma harmless_main {argv : List String} (hdoc : documented argv = false) (hnot : ¬Misread argv) :
    Harmless (main argv) := by
  rcases argv with _ | ⟨opt, args⟩
  · exact harmless_helpAndExit
  rcases optionOf_cases opt with ho | ho | ho | ho | ho | ho <;> rw [main_cons ho]
  · exact harmless_helpAndExit
  · exact harmless_create hdoc hnot ho
  · exact harmless_password hdoc hnot ho
  · exact harmless_mail hdoc hnot ho
  · exact .list
  · exact harmless_delete hdoc hnot ho

/-! ### Invocations that write -/

/-- A key that a glob matches is one that `KEYS` names. -/
lemma matching_of_keyMatches {username key : String} (h : keyMatches username key = some true) :
    Store.matching (HashStore.hset ∅ key Field.link "") username = [key] := by
  have hkeys : (HashStore.hset ∅ key Field.link "" : Store).keys = [key] := rfl
  simp [Store.matching, Store.overruns, hkeys, h]

lemma invoke_ne_of_misread {argv : List String} (h : Misread argv) : ∃ store now, invoke store now argv ≠ store := by
  have hchange : ∀ {s s' : Store} {u : String} {f : Field}, s.hget u f ≠ s'.hget u f → s ≠ s' := by
    rintro s s' u f hne rfl
    exact hne rfl
  cases h with
  | @create opt username password mail h =>
    have ho := optionOf_eq_create_iff.mpr (.inl h)
    refine ⟨∅, 0, hchange (u := username) (f := .password) ?_⟩
    have hlacks : Store.lacks ∅ username = true := rfl
    rw [invoke_eq]
    simp [adminStore, adminDeletes, adminWrites, ho, hlacks, HashStore.hget_hset]
  | @update opt username key value h hkey =>
    have ho : optionOf opt = "-p" ∨ optionOf opt = "-m" :=
      (List.mem_pair.mp h).imp (optionOf_eq_iff.1.mpr ∘ .inl) (optionOf_eq_iff.2.1.mpr ∘ .inl)
    have hmatching := matching_of_keyMatches hkey
    refine ⟨HashStore.hset ∅ key .link "", 0, ?_⟩
    rw [invoke_eq]
    rcases ho with ho | ho
    · refine hchange (u := username) (f := .password) ?_
      simp [adminStore, adminDeletes, adminWrites, ho, hmatching, HashStore.hget_hset]
    · refine hchange (u := username) (f := .mail) ?_
      simp [adminStore, adminDeletes, adminWrites, ho, hmatching, HashStore.hget_hset]
  | delete username rest h =>
    have ho := optionOf_eq_iff.2.2.mpr (.inl h)
    refine ⟨HashStore.hset ∅ username .link "", 0, hchange (u := username) (f := .link) ?_⟩
    rw [invoke_eq]
    simp [adminStore, adminDeletes, ho, HashStore.hget_del]
  | deleteMore username extra rest h =>
    have ho := optionOf_eq_iff.2.2.mpr (.inr h)
    refine ⟨HashStore.hset ∅ username .link "", 0, hchange (u := username) (f := .link) ?_⟩
    rw [invoke_eq]
    simp [adminStore, adminDeletes, ho, HashStore.hget_del]

/-- A list that is not one of the four leaves every store as it is exactly if it is not misread. Then
each of its steps does so too, whatever others do to the store in between. -/
theorem other_lists_write_nothing_iff (argv : List String) (hdoc : documented argv = false) :
    ((∀ store now, invoke store now argv = store) ↔ ¬Misread argv) ∧
      (¬Misread argv → ∀ met store now, ((afterSteps argv met).step store now).1 = store) := by
  refine ⟨⟨fun hsame hmisread => ?_, fun hnot store now => ?_⟩, fun hnot met store now => ?_⟩
  · obtain ⟨store, now, hne⟩ := invoke_ne_of_misread hmisread
    exact hne (hsame store now)
  · exact (harmless_main hdoc hnot).foldl_actions store now
  · exact ((harmless_afterSteps (harmless_main hdoc hnot) met).step store now).1

/-- `-c` without an address and an unknown option write nothing. -/
theorem other_lists_write_nothing_help :
    invoke ∅ 1700000000000 ["-c", "alice", "secret"] = ∅ ∧
      invoke ∅ 1700000000000 ["-x", "alice", "secret", "alice@example.org"] = ∅ := by
  have hshort : ¬Misread ["-c", "alice", "secret"] := by
    intro h
    cases h with
    | update _ h _ => exact absurd h (by decide)
    | delete _ _ h => exact absurd h (by decide)
    | deleteMore _ _ _ h => exact absurd h (by decide)
  have hunknown : ¬Misread ["-x", "alice", "secret", "alice@example.org"] := by
    intro h
    cases h with
    | create _ _ _ h => exact absurd h (by decide)
    | delete _ _ h => exact absurd h (by decide)
    | deleteMore _ _ _ h => exact absurd h (by decide)
  exact ⟨(other_lists_write_nothing_iff ["-c", "alice", "secret"] (by decide)).1.mpr hshort ∅ _,
    (other_lists_write_nothing_iff ["-x", "alice", "secret", "alice@example.org"] (by decide)).1.mpr hunknown ∅ _⟩

/-- An empty first argument registers, the bare letters work as options, and `-d` with a list of
users deletes the first. -/
theorem other_lists_write :
    let store : Store := HashStore.writes ∅ [("alice", .password, "hash"), ("alice", .mail, "alice@example.org")]
    (∀ argv ∈ [["", "bob", "secret", "bob@example.org"], ["-", "bob", "secret", "bob@example.org"],
        ["c", "bob", "secret", "bob@example.org"]],
      documented argv = false ∧ (invoke store 1700000000000 argv).hget "bob" .mail = some "bob@example.org") ∧
    (documented ["m", "alice", "new@example.org"] = false ∧
      (invoke store 1700000000000 ["m", "alice", "new@example.org"]).hget "alice" .mail = some "new@example.org") ∧
    ∀ argv ∈ [["d", "alice"], ["-d", "alice", "bob"]],
      documented argv = false ∧ (invoke store 1700000000000 argv).hget "alice" .mail = none := by
  decide +kernel

end ExpressAuth.Proofs
