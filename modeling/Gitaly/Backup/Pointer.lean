import Mathlib.Logic.Function.Basic
import Gitaly.Base.Runs
import Gitaly.Base.Text

/- Backups of one repository with the pointer locator on a file system: each run writes its
files below a directory of its own, and then the name of the directory to `LATEST`. -/
namespace Gitaly.Backup

open Text List Runs

/-- The elements of a clean path. -/
abbrev Path := List Bytes

abbrev Files := Path → Option Bytes

/-- An element of a path that is not written by a prefix of it as `.` or `..`. -/
structure BackupID where
  text : Bytes
  nonempty : text ≠ []
  plain : ∀ c ∈ text, c ≠ 46 ∧ c ≠ 47 ∧ c ≠ newline

structure Full where
  bundlePath : Path
  refPath : Path
  customHooksPath : Path
deriving DecidableEq

/-- Where `Write` of the sink fails; `copy n` after this many bytes. -/
inductive WriteFailure where
  | mkdirAll
  | openFile
  | copy (n : Nat)
  | remove
  | close

/-- A file that would be empty is removed. -/
def written (r : Bytes) : Option Bytes := if r = [] then none else some r

/-- What is left of the file, unless it has not been touched. -/
def WriteFailure.leaves (r : Bytes) : WriteFailure → Option (Option Bytes)
  | .mkdirAll | .openFile => none
  | .copy n => some (some (r.take n))
  | .remove => some (some r)
  | .close => some (written r)

def write (files : Files) (path : Path) (r : Bytes) (failure : Option WriteFailure) : Files :=
  match failure.elim (some (written r)) (WriteFailure.leaves r) with
  | some left => Function.update files path left
  | none => files

/-- A run of `Create`: what it has to write, and the number and the failure of the write that
cuts it short, or of what comes right before that write. -/
structure Run where
  backupID : BackupID
  refs : Bytes
  bundle : Bytes
  customHooks : Bytes
  failure : Option (Nat × WriteFailure)

variable (backupPath : Path)

/-- `filepath.Join` leaves out empty elements. -/
def fullAt (id : Bytes) : Full :=
  let dir := backupPath ++ [id].filter (· ≠ [])
  ⟨dir ++ [ascii "full.bundle"], dir ++ [ascii "full.refs"], dir ++ [ascii "custom_hooks.tar"]⟩

def beginFull (id : BackupID) : Full := fullAt backupPath id.text

def latestPath : Path := backupPath ++ [ascii "LATEST"]

/-- The path and the contents of the pointer, from the paths of the backup. -/
def commitFull (full : Full) : Path × Bytes :=
  let bundleDir := full.bundlePath.dropLast
  (latestPath bundleDir.dropLast, bundleDir.getLast?.getD [])

/-- Up to the first write that fails. -/
def writeAll : Files → Option (Nat × WriteFailure) → List (Path × Bytes) → Files × Bool
  | files, _, [] => (files, true)
  | files, some (0, failure), (path, r) :: _ => (write files path r (some failure), false)
  | files, some (n + 1, failure), (path, r) :: rest =>
    writeAll (write files path r none) (some (n, failure)) rest
  | files, none, (path, r) :: rest => writeAll (write files path r none) none rest

def create (files : Files) (run : Run) : Files × Bool :=
  let full := beginFull backupPath run.backupID
  writeAll files run.failure
    [(full.refPath, run.refs), (full.bundlePath, run.bundle),
      (full.customHooksPath, run.customHooks), commitFull full]

def chomp (text : Bytes) : Bytes := if [newline] <:+ text then text.dropLast else text

/-- The fallback's result if there is no pointer. -/
def findLatestFull (files : Files) (fallback : Option Full) : Option Full :=
  match files (latestPath backupPath) with
  | some latest => some (fullAt backupPath (chomp latest))
  | none => fallback

/-- The files, and the last run that has completed all of its steps. -/
structure World where
  files : Files
  completed : Option BackupID

def step (w : World) (run : Run) : Option World :=
  let (files, completed) := create backupPath w.files run
  some ⟨files, if completed then some run.backupID else w.completed⟩

/-- The backup that is found is the last one that was completed, if there is one. -/
def Found (fallback : Option Full) (w : World) : Prop :=
  ∀ id ∈ w.completed, findLatestFull backupPath w.files fallback = some (beginFull backupPath id)

/-- The pointer is not cut short, unless no run has been completed before or it happens to
name the last one that was. -/
def Spares (w : World) (run : Run) : Prop :=
  ∀ old ∈ w.completed, ∀ failure, run.failure = some (3, failure) →
    ∀ left ∈ failure.leaves run.backupID.text, left = some old.text

variable {backupPath} {files : Files} {run : Run}

theorem commitFull_beginFull (id : BackupID) :
    commitFull (beginFull backupPath id) = (latestPath backupPath, id.text) := by
  simp [commitFull, beginFull, fullAt, id.nonempty]

theorem chomp_plain {text : Bytes} (plain : newline ∉ text) : chomp text = text :=
  if_neg (fun ends => plain (ends.subset mem_cons_self))

theorem fullAt_inj {id other : Bytes} :
    fullAt backupPath id = fullAt backupPath other ↔ id = other := by
  constructor
  · intro same
    have dirs := append_inj_left' (congrArg Full.bundlePath same) rfl
    have ids := append_cancel_left dirs
    by_cases left : id = [] <;> by_cases right : other = [] <;> simp_all
  · rintro rfl
    rfl

theorem write_other {path other : Path} (different : other ≠ path) (r : Bytes)
    (failure : Option WriteFailure) : write files path r failure other = files other := by
  unfold write
  cases failure.elim (some (written r)) (WriteFailure.leaves r) with
  | none => rfl
  | some left => exact Function.update_of_ne different _ _

theorem WriteFailure.leaves_eq {r : Bytes} (nonempty : r ≠ []) (failure : WriteFailure) :
    failure.leaves r = none ∨ ∃ n, failure.leaves r = some (some (r.take n)) := by
  cases failure with
  | mkdirAll | openFile => exact .inl rfl
  | copy n => exact .inr ⟨n, rfl⟩
  | remove => exact .inr ⟨r.length, by simp [leaves]⟩
  | close => exact .inr ⟨r.length, by simp [leaves, written, nonempty]⟩

theorem latestPath_ne (id : BackupID) (name : Bytes) :
    latestPath backupPath ≠ backupPath ++ [id.text].filter (· ≠ []) ++ [name] := by
  simp [latestPath, id.nonempty]

variable {fallback : Option Full}

theorem findLatestFull_text {text : Bytes} {id : BackupID}
    (latest : files (latestPath backupPath) = some text) (plain : newline ∉ text) :
    findLatestFull backupPath files fallback = some (beginFull backupPath id) ↔ text = id.text := by
  rw [findLatestFull, latest]
  simp only [Option.some.injEq, chomp_plain plain]
  exact fullAt_inj

theorem Found.congr {w : World} (found : Found backupPath fallback w)
    (same : files (latestPath backupPath) = w.files (latestPath backupPath)) :
    Found backupPath fallback ⟨files, w.completed⟩ := by
  intro id completed
  have finds := found id completed
  rwa [findLatestFull, ← same] at finds

/-- Whether the last complete backup is still found depends on where the run is cut short. -/
theorem step_found_iff {w next : World}
    (found : Found backupPath fallback w) (taken : step backupPath w run = some next) :
    Found backupPath fallback next ↔ Spares w run := by
  obtain ⟨id, refs, bundle, customHooks, failure⟩ := run
  have plain (n : Nat) : newline ∉ id.text.take n :=
    fun member => (id.plain newline (mem_of_mem_take member)).2.2 rfl
  have other (files : Files) (name r : Bytes) (failure : Option WriteFailure) :
      write files (backupPath ++ [id.text].filter (· ≠ []) ++ [name]) r failure
        (latestPath backupPath) = files (latestPath backupPath) :=
    write_other (latestPath_ne id name) r failure
  have completes {failure : Option (Nat × WriteFailure)} {files : Files}
      (late : ∀ cut, failure ≠ some (3, cut)) :
      Found backupPath fallback ⟨write files (latestPath backupPath) id.text none, some id⟩ ↔
        Spares w ⟨id, refs, bundle, customHooks, failure⟩ := by
    refine iff_of_true ?_ (fun _ _ cut failed => absurd failed (late cut))
    rintro _ ⟨⟩
    have latest : write files (latestPath backupPath) id.text none (latestPath backupPath) =
        some id.text := by simp [write, written, id.nonempty]
    exact (findLatestFull_text latest (by simpa using plain id.text.length)).mpr rfl
  have cuts {files : Files} {failure : WriteFailure}
      (same : files (latestPath backupPath) = w.files (latestPath backupPath)) :
      Found backupPath fallback
          ⟨write files (latestPath backupPath) id.text (some failure), w.completed⟩ ↔
        Spares w ⟨id, refs, bundle, customHooks, some (3, failure)⟩ := by
    rcases failure.leaves_eq id.nonempty with untouched | ⟨n, left⟩
    · refine iff_of_true (found.congr ?_) ?_
      · simpa [write, untouched] using same
      · rintro _ _ _ ⟨⟩
        simp [untouched]
    · refine forall₂_congr (fun old _ => ?_)
      have latest : write files (latestPath backupPath) id.text (some failure)
          (latestPath backupPath) = some (id.text.take n) := by simp [write, left]
      rw [findLatestFull_text latest (plain n)]
      simp [left]
  simp only [step, create, commitFull_beginFull] at taken
  rcases failure with _ | ⟨_ | _ | _ | _ | n, failure⟩ <;> cases taken
  · exact completes (by simp)
  · exact iff_of_true (found.congr (other _ _ _ _)) (by rintro _ _ _ ⟨⟩)
  · exact iff_of_true (found.congr ((other _ _ _ _).trans (other _ _ _ _))) (by rintro _ _ _ ⟨⟩)
  · exact iff_of_true (found.congr ((other _ _ _ _).trans ((other _ _ _ _).trans (other _ _ _ _))))
      (by rintro _ _ _ ⟨⟩)
  · exact cuts ((other _ _ _ _).trans ((other _ _ _ _).trans (other _ _ _ _)))
  · exact completes (by simp)

/-- Along any sequence of runs, the last complete backup is found throughout if and only if no
run is cut short in the pointer. -/
theorem found_throughout_iff (fallback : Option Full) (files : Files) (runs : List Run) :
    Throughout (step backupPath) (Found backupPath fallback) ⟨files, none⟩ runs ↔
      Along (step backupPath) Spares ⟨files, none⟩ runs := by
  obtain ⟨final, run⟩ := exec_of_total
    (fun w run => ⟨_, rfl⟩ : ∀ w run, ∃ next, step backupPath w run = some next) ⟨files, none⟩ runs
  exact throughout_iff_along run (fun _ _ _ (holds : True) _ => holds)
    (fun _ _ _ _ found taken => step_found_iff found taken) trivial (by rintro _ ⟨⟩)

def backupAt (text : Bytes) (nonempty : text ≠ [])
    (plain : ∀ c ∈ text, c ≠ 46 ∧ c ≠ 47 ∧ c ≠ newline)
    (failure : Option (Nat × WriteFailure)) : Run :=
  ⟨⟨text, nonempty, plain⟩, [1], [2], [], failure⟩

/-- The second run is cut short in the middle of the pointer, and what is found are the paths
of no run. -/
theorem cut_pointer_misleads :
    ((exec (step [[97]]) ⟨fun _ => none, none⟩
      [backupAt (ascii "20211101") (by decide) (by decide +kernel) none,
        backupAt (ascii "20211102") (by decide) (by decide +kernel) (some (3, .copy 4))]).map
          (fun w => (w.completed.map BackupID.text, findLatestFull [[97]] w.files none))) =
      some (some (ascii "20211101"), some (fullAt [[97]] (ascii "2021"))) := by
  decide

end Gitaly.Backup
