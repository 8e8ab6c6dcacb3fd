import Gitaly.Base.Filepath

/- The relative paths that internal/gitaly/storage/locator.go keeps below a root. -/
namespace Gitaly.Paths

open Filepath List
open Text hiding join

/-- A clean absolute path. -/
structure Root where
  path : Bytes
  rooted : isAbs path = true
  clean_eq : clean path = path

inductive PathError where
  /-- relative path escapes root directory -/
  | escapesRoot
  /-- Rel: can't make %s relative to %s -/
  | rel (target base : Bytes)
deriving DecidableEq

def ValidateRelativePath (rootDir relativePath : Bytes) : Except PathError Bytes :=
  let absPath := join [rootDir, relativePath]
  if rootDir ≠ absPath ∧ ¬ rootDir ++ [separator] <+: absPath then .error .escapesRoot
  else
    match rel rootDir absPath with
    | some path => .ok path
    | none => .error (.rel absPath rootDir)

namespace Root

variable (root : Root) (path : Bytes)

theorem path_eq : root.path = render true (cleaned root.path) := by
  rw [← clean_of_isAbs root.rooted, root.clean_eq]

theorem path_ne_nil : root.path ≠ [] := by
  rw [path_eq]
  simp [render]

theorem tidy : Tidy true (cleaned root.path).reverse := by
  simpa only [root.rooted] using tidy_cleaned root.path

/-- The elements of a path that is joined with the root. -/
def kept : List Bytes := ((elements path).foldl (push true) (cleaned root.path).reverse).reverse

theorem tidy_kept : Tidy true (root.kept path).reverse := by
  rw [kept, reverse_reverse]
  exact tidy_foldl_push (notMem_splitOn separator path) root.tidy

theorem join_eq : join [root.path, path] = render true (root.kept path) := by
  have fold : (elements root.path).foldl (push true) [] = (cleaned root.path).reverse := by
    rw [cleaned, root.rooted, reverse_reverse]
  by_cases empty : path = []
  · simp [join, empty, root.path_ne_nil, clean_of_isAbs root.rooted, kept, elements, push]
  · have text : join [root.path, path] = clean (root.path ++ separator :: path) := by
      simp [join, empty, root.path_ne_nil, intercalate_cons_cons]
    have abs : isAbs (root.path ++ separator :: path) = true := by
      rw [isAbs, head?_append_of_ne_nil _ root.path_ne_nil]
      exact root.rooted
    rw [text, clean_of_isAbs abs, cleaned, abs, elements_append, foldl_append, fold, kept]

theorem cleaned_join : cleaned (join [root.path, path]) = root.kept path := by
  rw [join_eq, cleaned_render (root.tidy_kept path)]

theorem isAbs_join : isAbs (join [root.path, path]) = true := by
  rw [join_eq, isAbs_render (root.tidy_kept path)]

theorem clean_join : clean (join [root.path, path]) = join [root.path, path] := by
  rw [clean_of_isAbs (root.isAbs_join path), cleaned_join, ← join_eq]

variable {path}

theorem inside_of_ok {rootDir result : Bytes} (ok : ValidateRelativePath rootDir path = .ok result) :
    rootDir = join [rootDir, path] ∨ rootDir ++ [separator] <+: join [rootDir, path] := by
  unfold ValidateRelativePath at ok
  dsimp only at ok
  split at ok
  · cases ok
  · rename_i inside
    rwa [not_and_or, not_not, not_not] at inside

theorem kept_of_ok {result : Bytes} (ok : ValidateRelativePath root.path path = .ok result) :
    cleaned root.path <+: root.kept path := by
  rcases inside_of_ok ok with same | below
  · refine ⟨[], ?_⟩
    rw [append_nil, ← cleaned_join, ← same]
  · have guards : Guards root.path := by
      refine ⟨root.path_ne_nil, fun last => ?_⟩
      exact (root.tidy.isName dotDot (mem_reverse.mpr (mem_of_getLast? last))).notDotDot rfl
    rw [← clean_join] at below
    obtain ⟨-, rest, -, -, same⟩ := below_of_prefix guards below
    rw [clean_join, cleaned_join] at same
    exact ⟨rest, same.symm⟩

/-- The root of the file system ends with the separator already, and no clean path has two. -/
theorem named_of_below (below : root.path ++ [separator] <+: join [root.path, path]) :
    cleaned root.path ≠ [] := by
  obtain ⟨rest, whole⟩ := below
  rw [append_assoc, singleton_append, ← clean_join] at whole
  obtain ⟨names, named, text, parts⟩ := elements_of_prefix root.path_ne_nil whole
  have tidy := tidy_cleaned (join [root.path, path])
  rw [parts, reverse_append] at tidy
  rwa [text, cleaned_render tidy.of_append]

variable (path)

/-- What is returned are the elements that the root lacks. -/
theorem ok_of_kept {rest : List Bytes} (same : root.kept path = cleaned root.path ++ rest)
    (named : cleaned root.path ≠ [] ∨ rest = []) :
    ValidateRelativePath root.path path =
      .ok (if rest = [] then dot else [separator].intercalate rest) := by
  unfold ValidateRelativePath
  by_cases empty : rest = []
  · have here : join [root.path, path] = root.path := by
      rw [join_eq, same, empty, append_nil, ← path_eq]
    simp [here, rel, empty]
  · have below : root.path ++ [separator] <+: join [root.path, path] := by
      rw [join_eq, same, render_append (named.resolve_right empty) empty, ← path_eq]
      exact ⟨[separator].intercalate rest, by simp⟩
    have other : join [root.path, path] ≠ root.path := by
      intro here
      have elements := root.cleaned_join path
      rw [here, same] at elements
      exact empty (by simpa using elements)
    have way : rel root.path (join [root.path, path]) = some ([separator].intercalate rest) := by
      rw [rel, clean_join, root.clean_eq, if_neg other, root.rooted, isAbs_join, cleaned_join, same,
        dropCommon_append]
      simp
    simp [below, way, empty]

/-- A path is confined if and only if the root is not that of the file system, or the path leads
back to it. -/
theorem ValidateRelativePath_confines :
    ((∃ result, ValidateRelativePath root.path path = .ok result) ↔
        cleaned root.path <+: cleaned (join [root.path, path])) ∧
      (∀ result, ValidateRelativePath root.path path = .ok result →
        dotDot ∉ elements result ∧ join [root.path, result] = join [root.path, path]) ↔
    ¬ (root.path = [separator] ∧ join [root.path, path] ≠ root.path) := by
  constructor
  · rintro ⟨succeeds, -⟩ ⟨fileSystem, other⟩
    have unnamed : cleaned root.path = [] := by
      rw [fileSystem]
      decide
    obtain ⟨result, ok⟩ := succeeds.mpr (unnamed ▸ nil_prefix)
    rcases inside_of_ok ok with same | below
    · exact other same.symm
    · exact root.named_of_below below unnamed
  intro escapes
  rw [cleaned_join]
  have ok (inside : cleaned root.path <+: root.kept path) :
      ∃ rest, root.kept path = cleaned root.path ++ rest ∧ ValidateRelativePath root.path path =
        .ok (if rest = [] then dot else [separator].intercalate rest) := by
    obtain ⟨rest, same⟩ := inside
    refine ⟨rest, same.symm, root.ok_of_kept path same.symm ?_⟩
    by_contra unnamed
    rw [not_or, not_not] at unnamed
    refine escapes ⟨by rw [path_eq, unnamed.1]; rfl, fun here => unnamed.2 ?_⟩
    have elements := root.cleaned_join path
    rw [here, ← same] at elements
    simpa using elements
  refine ⟨⟨fun ⟨result, done⟩ => root.kept_of_ok done, fun inside => ?_⟩, ?_⟩
  · obtain ⟨rest, -, done⟩ := ok inside
    exact ⟨_, done⟩
  · intro result done
    obtain ⟨rest, same, returns⟩ := ok (root.kept_of_ok done)
    rw [returns] at done
    cases done
    have tidy := root.tidy_kept path
    have fold := foldl_push_of_tidy tidy
    rw [same, foldl_append, foldl_push_of_tidy root.tidy] at fold
    split
    · rename_i empty
      have one : elements dot = [dot] := by decide
      refine ⟨by decide, ?_⟩
      rw [join_eq, join_eq, same, empty, kept, one]
      simp [push]
    · rename_i several
      have isName (name : Bytes) (member : name ∈ rest) : IsName name :=
        tidy.isName name (by simp [same, member])
      rw [join_eq, join_eq, kept,
        elements_intercalate (fun name member => (isName name member).plain) several, fold, same]
      exact ⟨fun up => (isName _ up).notDotDot rfl, by simp⟩

theorem fileSystemRoot_refuses :
    ValidateRelativePath (ascii "/") (ascii "a") = .error .escapesRoot ∧
      join [ascii "/", ascii "a"] = ascii "/a" := by
  decide

end Root

end Gitaly.Paths
