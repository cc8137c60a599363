import Mathlib.Data.List.Basic

/-!
# POSIX paths

`path.join` and `path.normalize` of Node, on lists of characters. The components of a path are read
from left to right onto a stack; `..` takes the last one off it.
-/

namespace PosixPath

/-! ### Normalisation -/

/-- One component of a path. At the root `..` leads nowhere; before a relative path it is kept. -/
def push (allowAboveRoot : Bool) (res : List (List Char)) (p : List Char) : List (List Char) :=
  if p = [] ∨ p = ['.'] then res
  else if p = ['.', '.'] then
    if res ≠ [] ∧ res.getLast? ≠ some ['.', '.'] then res.dropLast
    else if allowAboveRoot then res ++ [['.', '.']]
    else res
  else res ++ [p]

def normalizeArray (parts : List (List Char)) (allowAboveRoot : Bool) : List (List Char) :=
  parts.foldl (push allowAboveRoot) []

def isAbsolute (path : List Char) : Bool := path.head? = some '/'

def normalize (path : List Char) : List Char :=
  let trailingSlash : Bool := path.getLast? = some '/'
  let text := ['/'].intercalate (normalizeArray (path.splitOn '/') (!isAbsolute path))
  let text := if text = [] ∧ isAbsolute path = false then ['.'] else text
  let text := if text ≠ [] ∧ trailingSlash = true then text ++ ['/'] else text
  if isAbsolute path then '/' :: text else text

/-- The segments with a slash between them, normalised; empty segments are left out. -/
def join (segments : List (List Char)) : List Char :=
  normalize (segments.foldl (fun path segment =>
    if segment = [] then path else if path = [] then segment else path ++ '/' :: segment) [])

example : join ["/srv/app/lib".toList, "../mails//a/./../b".toList] = "/srv/app/mails/b".toList := by decide +kernel

example : join ["a".toList, "../../b/".toList] = "../b/".toList := by decide +kernel

/-! ### Directories -/

/-- A component that names an entry of a directory. -/
def IsName (p : List Char) : Prop := p ≠ [] ∧ p ≠ ['.'] ∧ p ≠ ['.', '.'] ∧ '/' ∉ p

instance (p : List Char) : Decidable (IsName p) := inferInstanceAs (Decidable (_ ∧ _))

lemma isName_of_length {p : List Char} (h : 2 < p.length) (hslash : '/' ∉ p) : IsName p := by
  refine ⟨?_, ?_, ?_, hslash⟩ <;>
  · rintro rfl
    simp at h

/-- An absolute directory: the names on the way to it. -/
structure Dir where
  parts : List (List Char)
  names : ∀ p ∈ parts, IsName p

def Dir.path (d : Dir) : List Char := '/' :: ['/'].intercalate d.parts

/-- An entry of a directory. -/
def Dir.sub (d : Dir) (name : List Char) (h : IsName name) : Dir :=
  ⟨d.parts ++ [name], fun p hp => by
    rcases List.mem_append.mp hp with hp | hp
    · exact d.names p hp
    · obtain rfl := List.mem_singleton.mp hp
      exact h⟩

/-- The path names an entry of the directory itself. -/
def LiesIn (d : Dir) (path : List Char) : Prop := ∃ name h, path = (d.sub name h).path

/-- The last component of a path. -/
def basename (path : List Char) : List Char := (path.splitOn '/').getLastD []

lemma basename_append (dir : List Char) {name : List Char} (h : '/' ∉ name) : basename (dir ++ '/' :: name) = name := by
  rw [basename, List.splitOn_append_cons_self, List.splitOn_eq_singleton h]
  simp

/-- A path ends with a slash and its last component. -/
lemma exists_intercalate_concat (parts : List (List Char)) (p : List Char) :
    ∃ dir, '/' :: ['/'].intercalate (parts ++ [p]) = dir ++ '/' :: p := by
  induction parts with
  | nil => exact ⟨[], by simp⟩
  | cons q parts ih =>
    obtain ⟨dir, hdir⟩ := ih
    refine ⟨'/' :: (q ++ dir), ?_⟩
    rw [List.cons_append, List.intercalate_cons_of_ne_nil (by simp), List.append_assoc, List.singleton_append, hdir]
    simp

lemma basename_intercalate (parts : List (List Char)) {p : List Char} (h : '/' ∉ p) :
    basename ('/' :: ['/'].intercalate (parts ++ [p])) = p := by
  obtain ⟨dir, hdir⟩ := exists_intercalate_concat parts p
  rw [hdir, basename_append dir h]

lemma basename_sub (d : Dir) {name : List Char} (h : IsName name) : basename (d.sub name h).path = name :=
  basename_intercalate d.parts h.2.2.2

lemma liesIn_iff {d : Dir} {path : List Char} :
    LiesIn d path ↔ IsName (basename path) ∧ path = '/' :: ['/'].intercalate (d.parts ++ [basename path]) := by
  constructor
  · rintro ⟨name, h, rfl⟩
    rw [basename_sub d h]
    exact ⟨h, rfl⟩
  · rintro ⟨h, hpath⟩
    exact ⟨basename path, h, hpath⟩

instance (d : Dir) (path : List Char) : Decidable (LiesIn d path) := decidable_of_iff _ liesIn_iff.symm

/-! ### The stack of components -/

lemma push_name {p : List Char} (h : IsName p) (above : Bool) (res : List (List Char)) :
    push above res p = res ++ [p] := by
  simp [push, h.1, h.2.1, h.2.2.1]

lemma push_parent {p : List Char} (h : IsName p) (above : Bool) (res : List (List Char)) :
    push above (res ++ [p]) ['.', '.'] = res := by
  simp [push, h.2.2.1]

lemma foldl_push {parts : List (List Char)} (h : ∀ p ∈ parts, IsName p) (above : Bool) (res : List (List Char)) :
    parts.foldl (push above) res = res ++ parts := by
  induction parts generalizing res with
  | nil => simp
  | cons p parts ih =>
    rw [List.foldl_cons, push_name (h p List.mem_cons_self), ih fun q hq => h q (List.mem_cons_of_mem p hq),
      List.append_assoc, List.singleton_append]

/-- An absolute path that ends with a name is normalised to the path of this name. -/
lemma normalize_name (path : List Char) {name : List Char} (h : IsName name) :
    normalize ('/' :: (path ++ '/' :: name)) =
      '/' :: ['/'].intercalate ((path.splitOn '/').foldl (push false) [] ++ [name]) := by
  have hsplit : ('/' :: (path ++ '/' :: name)).splitOn '/' = [] :: (path.splitOn '/' ++ [name]) := by
    have hfirst := List.splitOn_append_cons_self (a := '/') [] (path ++ '/' :: name)
    rw [List.nil_append, List.splitOn_append_cons_self, List.splitOn_eq_singleton h.2.2.2] at hfirst
    rw [hfirst]
    rfl
  have hparts : normalizeArray ([] :: (path.splitOn '/' ++ [name])) false =
      (path.splitOn '/').foldl (push false) [] ++ [name] := by
    rw [normalizeArray, List.foldl_cons, List.foldl_append, List.foldl_cons, List.foldl_nil, push_name h]
    rfl
  have hlast : ('/' :: (path ++ '/' :: name)).getLast? ≠ some '/' := by
    have hname := List.getLast?_eq_some_getLast h.1
    have hne : name.getLast h.1 ≠ '/' := by
      intro heq
      exact h.2.2.2 (heq ▸ List.getLast_mem h.1)
    simp [List.getLast?_cons, List.getLast?_append, hname, hne]
  simp [normalize, isAbsolute, hsplit, hparts, hlast]

end PosixPath
