import Mathlib.Algebra.Group.Int.Defs
import Mathlib.Logic.Basic

/- Removal of empty directories below `refs`. -/
namespace Gitaly.Housekeeping

open List

abbrev Path := List String

/-- The entries of a directory. -/
inductive Entries where
  | nil
  | file (name : String) (rest : Entries)
  | dir (name : String) (mtime : Int) (contents rest : Entries)
deriving DecidableEq

structure Dir where
  path : Path
  mtime : Int
  contents : Entries
deriving DecidableEq

namespace Entries

def names : Entries → List String
  | nil => []
  | file name rest => name :: rest.names
  | dir name _ _ rest => name :: rest.names

def files (parent : Path) : Entries → List Path
  | nil => []
  | file name rest => (parent ++ [name]) :: rest.files parent
  | dir name _ contents rest => contents.files (parent ++ [name]) ++ rest.files parent

def dirs (parent : Path) : Entries → List Dir
  | nil => []
  | file _ rest => rest.dirs parent
  | dir name mtime contents rest =>
    ⟨parent ++ [name], mtime, contents⟩ :: contents.dirs (parent ++ [name]) ++ rest.dirs parent

end Entries

/-- A run: when it looks at the age of each directory, and the errors of the context and of
the file system before its subdirectories are visited, in reading it again and in removing it. -/
structure Run (ε : Type) where
  started : Int
  now : Path → Int
  started_le : ∀ path, started ≤ now path
  enter : Path → Option ε
  reread : Path → Option ε
  remove : Path → Option ε

def emptyRefsGracePeriod : Int := 24 * 3600 * 10 ^ 9

variable {ε : Type} (run : Run ε)

/-- The loop of `removeEmptyDirs` over the entries of the target, with its call for each of the
subdirectories. The modification time is read before anything in the subdirectory is removed,
which changes it. -/
def removeEmptyDirs (target : Path) : Entries → Entries × Option ε
  | .nil => (.nil, none)
  | .file name rest =>
    let (rest, err) := removeEmptyDirs target rest
    (.file name rest, err)
  | .dir name mtime contents rest =>
    let path := target ++ [name]
    match run.enter path with
    | some err => (.dir name mtime contents rest, some err)
    | none =>
      let (remaining, err) := removeEmptyDirs path contents
      let changed := remaining.names ≠ contents.names
      let kept := Entries.dir name (if changed then run.now path else mtime) remaining
      let young := run.now path - mtime < emptyRefsGracePeriod
      match err.or (if young then none else run.reread path) with
      | some err => (kept rest, some err)
      | none =>
        if young ∨ remaining ≠ .nil then
          let (rest, err) := removeEmptyDirs target rest
          (kept rest, err)
        else
          match run.remove path with
          | some err => (kept rest, some err)
          | none => removeEmptyDirs target rest

/-- Never the directory `refs` itself. -/
def removeRefEmptyDirs (refs : Entries) : Entries × Option ε := removeEmptyDirs run ["refs"] refs

def Run.Quiet : Prop :=
  ∀ path, run.enter path = none ∧ run.reread path = none ∧ run.remove path = none

def Run.Old (dir : Dir) : Prop := emptyRefsGracePeriod ≤ run.now dir.path - dir.mtime

/-- The directory and everything below it are old directories. -/
def Run.Stale (dir : Dir) : Prop :=
  run.Old dir ∧ dir.contents.files dir.path = [] ∧ ∀ sub ∈ dir.contents.dirs dir.path, run.Old sub

instance Run.decidableOld : DecidablePred run.Old := fun _ => inferInstanceAs (Decidable (_ ≤ _))

instance Run.decidableStale : DecidablePred run.Stale :=
  fun _ => inferInstanceAs (Decidable (_ ∧ _))

/-- What is left of the entries of a directory, and when nothing is. -/
structure Run.Exact (target : Path) (entries : Entries) (result : Entries × Option ε) : Prop where
  returned : result.2 = none
  files : result.1.files target = entries.files target
  dirs : (result.1.dirs target).map Dir.path =
    ((entries.dirs target).filter (¬ run.Stale ·)).map Dir.path
  empty : result.1 = .nil ↔ entries.files target = [] ∧ ∀ dir ∈ entries.dirs target, run.Old dir

variable {run}

theorem removeEmptyDirs_exact (quiet : run.Quiet)
    (target : Path) (entries : Entries) :
    run.Exact target entries (removeEmptyDirs run target entries) := by
  induction entries generalizing target with
  | nil => exact ⟨rfl, rfl, rfl, by simp [removeEmptyDirs, Entries.files, Entries.dirs]⟩
  | file name rest ih =>
    obtain ⟨returned, files, dirs, -⟩ := ih target
    refine ⟨returned, ?_, dirs, by simp [removeEmptyDirs, Entries.files]⟩
    simp [removeEmptyDirs, Entries.files, files]
  | dir name mtime contents rest below beside =>
    have below := below (target ++ [name])
    have beside := beside target
    have stale : run.Stale ⟨target ++ [name], mtime, contents⟩ ↔
        emptyRefsGracePeriod ≤ run.now (target ++ [name]) - mtime ∧
          (removeEmptyDirs run (target ++ [name]) contents).1 = .nil := by
      rw [below.empty]
      rfl
    by_cases removed : run.Stale ⟨target ++ [name], mtime, contents⟩
    · obtain ⟨old, nothing⟩ := stale.mp removed
      have result : removeEmptyDirs run target (.dir name mtime contents rest) =
          removeEmptyDirs run target rest := by
        simp [removeEmptyDirs, quiet _, below.returned, Int.not_lt.mpr old, nothing]
      have gone := below.dirs
      rw [nothing] at gone
      rw [result]
      refine ⟨beside.returned, ?_, ?_, ?_⟩
      · rw [beside.files, Entries.files, removed.2.1, nil_append]
      · rw [beside.dirs, Entries.dirs, cons_append, filter_cons_of_neg,
          filter_append, map_append, ← gone]
        · rfl
        · simpa using removed
      · rw [beside.empty, Entries.files, removed.2.1, Entries.dirs, nil_append,
          cons_append, forall_mem_cons, forall_mem_append]
        exact ⟨fun ⟨files, dirs⟩ => ⟨files, removed.1, removed.2.2, dirs⟩,
          fun ⟨files, _, _, dirs⟩ => ⟨files, dirs⟩⟩
    · obtain ⟨time, result⟩ :
          ∃ time, removeEmptyDirs run target (.dir name mtime contents rest) =
          (.dir name time (removeEmptyDirs run (target ++ [name]) contents).1
            (removeEmptyDirs run target rest).1, none) := by
        simp only [removeEmptyDirs, quiet _, below.returned, ite_self, Option.or_none]
        rw [if_pos, beside.returned]
        · exact ⟨_, rfl⟩
        · rwa [stale, not_and_or, Int.not_le] at removed
      rw [result]
      refine ⟨rfl, ?_, ?_, ?_⟩
      · simp [Entries.files, below.files, beside.files]
      · simp [Entries.dirs, removed, below.dirs, beside.dirs]
      · simp only [reduceCtorEq, false_iff, Entries.files, Entries.dirs, append_eq_nil_iff,
          forall_mem_cons, forall_mem_append]
        rintro ⟨⟨file, -⟩, ⟨old, dirs⟩, -⟩
        exact removed ⟨old, file, dirs⟩

/-- A directory is removed if and only if it and everything below it are directories that
had been left alone for the grace period when the run looked at them. -/
theorem removeRefEmptyDirs_exact (quiet : run.Quiet)
    (refs : Entries) :
    let result := removeRefEmptyDirs run refs
    result.2 = none ∧ result.1.files ["refs"] = refs.files ["refs"] ∧
      (result.1.dirs ["refs"]).map Dir.path =
        ((refs.dirs ["refs"]).filter (¬ run.Stale ·)).map Dir.path :=
  have exact := removeEmptyDirs_exact quiet ["refs"] refs
  ⟨exact.returned, exact.files, exact.dirs⟩

/-- Every age is looked at a second after the run has started. -/
def slowRun : Run Empty where
  started := emptyRefsGracePeriod - 10 ^ 9
  now _ := emptyRefsGracePeriod
  started_le _ := by decide
  enter _ := none
  reread _ := none
  remove _ := none

/-- What is old and empty is next to a branch, and what is new below what is old. -/
def nested : Entries :=
  .dir "heads" 0 (.dir "feature" 0 (.dir "x" 0 .nil .nil) (.file "main" .nil))
    (.dir "merge-requests" 0 (.dir "1" emptyRefsGracePeriod .nil .nil) .nil)

theorem nested_exact :
    let result := removeRefEmptyDirs slowRun nested
    result.2 = none ∧ result.1.files ["refs"] = [["refs", "heads", "main"]] ∧
      (result.1.dirs ["refs"]).map Dir.path =
        [["refs", "heads"], ["refs", "merge-requests"], ["refs", "merge-requests", "1"]] := by
  have quiet : slowRun.Quiet := fun _ => ⟨rfl, rfl, rfl⟩
  obtain ⟨returned, files, dirs⟩ := removeRefEmptyDirs_exact quiet nested
  exact ⟨returned, files.trans (by decide), dirs.trans (by decide)⟩

def emptyHeads : Entries := .dir "heads" 0 .nil .nil

/-- A directory is removed that was younger than the grace period when the run started. -/
theorem emptyHeads_ripens : (removeRefEmptyDirs slowRun emptyHeads).1 = .nil ∧
    emptyHeads.dirs ["refs"] = [⟨["refs", "heads"], 0, .nil⟩] ∧
    slowRun.started - 0 < emptyRefsGracePeriod := by
  decide

end Gitaly.Housekeeping
