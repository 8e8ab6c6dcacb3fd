import Gitaly.Base.Fallible
import Gitaly.Base.Filepath

/- The object directories of a repository: its own one and those that alternates files name, as
internal/git/dirs.go finds them. -/
namespace Gitaly.Dirs

open Filepath Fallible List
open Text hiding join

/-- What `os.Stat` tells of a path. -/
inductive Stat where
  | notExist
  | failed
  | dir
  | other
deriving DecidableEq

/-- What `ioutil.ReadFile` returns for a path. -/
inductive ReadFile where
  | notExist
  | failed
  | content (text : Bytes)
deriving DecidableEq

structure FileSystem where
  stat : Bytes → Stat
  readFile : Bytes → ReadFile

inductive DirsError where
  | stat (path : Bytes)
  | readFile (path : Bytes)
  | alternateOutsideStorage (path : Bytes)
deriving DecidableEq

def maxAlternatesDepth : Nat := 5

def alternatesFile (objDir : Bytes) : Bytes := join [objDir, ascii "info", ascii "alternates"]

/-- The directory that a line of an alternates file names. -/
def target (objDir newDir : Bytes) : Bytes := if isAbs newDir then newDir else join [objDir, newDir]

/-- A line that names no directory. -/
def skipped (line : Bytes) : Bool := line.isEmpty || line.head? == some 35

/-- The directories of one line, if those of a directory are known. -/
def lineDirs (storagePrefix : Bytes) (nested : Bytes → Except DirsError (List Bytes))
    (objDir newDir : Bytes) : Except DirsError (List Bytes) :=
  if skipped newDir then .ok []
  else if storagePrefix <+: target objDir newDir then nested (target objDir newDir)
  else .error (.alternateOutsideStorage (target objDir newDir))

/-- The number is how many levels there still are: none where the depth is more than
`maxAlternatesDepth`. -/
def altObjectDirs (fs : FileSystem) (storagePrefix : Bytes) :
    Nat → Bytes → Except DirsError (List Bytes)
  | 0, _ => .ok []
  | levels + 1, objDir =>
    match fs.stat objDir with
    | .notExist => .ok []
    | .failed => .error (.stat objDir)
    | .other => .ok []
    | .dir =>
      match fs.readFile (alternatesFile objDir) with
      | .notExist => .ok [objDir]
      | .failed => .error (.readFile (alternatesFile objDir))
      | .content alternates =>
        gather (lineDirs storagePrefix (altObjectDirs fs storagePrefix levels) objDir)
          [objDir] (splitLines alternates)

def ObjectDirectories (fs : FileSystem) (storageRoot repoPath : Bytes) :
    Except DirsError (List Bytes) :=
  altObjectDirs fs (storageRoot ++ [separator]) (maxAlternatesDepth + 1)
    (join [repoPath, ascii "objects"])

inductive Failure where
  | error (err : DirsError)
  | panic
deriving DecidableEq

/-- To slice off the first of no directories is a panic. -/
def AlternateObjectDirectories (fs : FileSystem) (storageRoot repoPath : Bytes) :
    Except Failure (List Bytes) :=
  match ObjectDirectories fs storageRoot repoPath with
  | .error err => .error (.error err)
  | .ok [] => .error .panic
  | .ok (_ :: alternates) => .ok alternates

/-- There is no panic, and every alternate that is returned is below the storage root. -/
structure Confined (fs : FileSystem) (storageRoot repoPath : Bytes) : Prop where
  returns : AlternateObjectDirectories fs storageRoot repoPath ≠ .error .panic
  dirs : ∀ dirs, ObjectDirectories fs storageRoot repoPath = .ok dirs →
    ∀ dir ∈ dirs.tail, Below storageRoot dir
  alternates : ∀ dirs, AlternateObjectDirectories fs storageRoot repoPath = .ok dirs →
    ∀ dir ∈ dirs, Below storageRoot dir

/-- The alternates file of a directory has the line. -/
structure Lists (fs : FileSystem) (objDir line : Bytes) : Prop where
  dir : fs.stat objDir = .dir
  listed : ∃ alternates, fs.readFile (alternatesFile objDir) = .content alternates ∧
    line ∈ splitLines alternates ∧ skipped line = false

/-- From a directory alternates lead to a line in the alternates file of another one, and to
what the line names there are so many levels left. -/
inductive Follows (fs : FileSystem) : Nat → Bytes → Nat → Bytes → Bytes → Prop where
  | here {levels : Nat} {objDir line : Bytes} (lists : Lists fs objDir line) :
      Follows fs (levels + 1) objDir levels objDir line
  | inside {levels left : Nat} {objDir first parent line : Bytes} (lists : Lists fs objDir first)
      (follows : Follows fs levels (target objDir first) left parent line) :
      Follows fs (levels + 1) objDir left parent line

/-- A directory that cannot be looked at. -/
def Unreadable (fs : FileSystem) (objDir : Bytes) : Prop :=
  fs.stat objDir = .failed ∨ fs.stat objDir = .dir ∧ fs.readFile (alternatesFile objDir) = .failed

/-- Something on the way makes the call fail. -/
def Fails (fs : FileSystem) (storagePrefix : Bytes) (levels : Nat) (objDir : Bytes) : Prop :=
  0 < levels ∧ Unreadable fs objDir ∨
    ∃ left parent line, Follows fs levels objDir left parent line ∧
      (¬ storagePrefix <+: target parent line ∨ 0 < left ∧ Unreadable fs (target parent line))

/-- The repository has an object directory, and lines that are taken as they are name
directories below the storage root. -/
structure Trustworthy (fs : FileSystem) (storageRoot repoPath : Bytes) : Prop where
  exists_ : fs.stat (join [repoPath, ascii "objects"]) = .dir ∨
    fs.stat (join [repoPath, ascii "objects"]) = .failed
  lines : Fails fs (storageRoot ++ [separator]) (maxAlternatesDepth + 1)
      (join [repoPath, ascii "objects"]) ∨
    ∀ left parent line,
      Follows fs (maxAlternatesDepth + 1) (join [repoPath, ascii "objects"]) left parent line →
      0 < left → isAbs line = true ∨ ¬ Guards storageRoot →
      fs.stat (target parent line) = .dir → Below storageRoot (target parent line)

section follows

variable {fs : FileSystem} {storagePrefix : Bytes} {levels : Nat} {objDir : Bytes}

theorem fails_succ :
    Fails fs storagePrefix (levels + 1) objDir ↔
      Unreadable fs objDir ∨ ∃ line, Lists fs objDir line ∧
        (¬ storagePrefix <+: target objDir line ∨
          Fails fs storagePrefix levels (target objDir line)) := by
  constructor
  · rintro (⟨-, unreadable⟩ | ⟨left, parent, line, follows, reason⟩)
    · exact .inl unreadable
    · cases follows with
      | here lists =>
        rcases reason with outside | reason
        · exact .inr ⟨line, lists, .inl outside⟩
        · exact .inr ⟨line, lists, .inr (.inl reason)⟩
      | inside lists follows =>
        exact .inr ⟨_, lists, .inr (.inr ⟨left, parent, line, follows, reason⟩)⟩
  · rintro (unreadable | ⟨line, lists, outside | ⟨more, unreadable⟩ |
      ⟨left, parent, inner, follows, reason⟩⟩)
    · exact .inl ⟨Nat.succ_pos levels, unreadable⟩
    · exact .inr ⟨levels, objDir, line, .here lists, .inl outside⟩
    · exact .inr ⟨levels, objDir, line, .here lists, .inr ⟨more, unreadable⟩⟩
    · exact .inr ⟨left, parent, inner, .inside lists follows, reason⟩

theorem lists_iff {alternates line : Bytes} (dir : fs.stat objDir = .dir)
    (read : fs.readFile (alternatesFile objDir) = .content alternates) :
    Lists fs objDir line ↔ line ∈ splitLines alternates ∧ skipped line = false := by
  constructor
  · rintro ⟨-, other, same, listed⟩
    cases read.symm.trans same
    exact listed
  · intro listed
    exact ⟨dir, alternates, read, listed⟩

theorem not_lists_of_stat (other : fs.stat objDir ≠ .dir) (line : Bytes) : ¬ Lists fs objDir line :=
  fun lists => other lists.dir

theorem not_lists_of_readFile {result : ReadFile}
    (read : fs.readFile (alternatesFile objDir) = result)
    (blank : ∀ alternates, result ≠ .content alternates) (line : Bytes) :
    ¬ Lists fs objDir line := by
  rintro ⟨-, alternates, same, -⟩
  exact blank alternates (read.symm.trans same)

/-- The call returns unless something on the way makes it fail. -/
theorem altObjectDirs_returns_iff :
    (∃ dirs, altObjectDirs fs storagePrefix levels objDir = .ok dirs) ↔
      ¬ Fails fs storagePrefix levels objDir := by
  induction levels generalizing objDir with
  | zero =>
    refine iff_of_true ⟨[], rfl⟩ ?_
    rintro (⟨more, -⟩ | ⟨left, parent, line, follows, -⟩)
    · exact Nat.lt_irrefl 0 more
    · cases follows
  | succ levels ih =>
    rw [fails_succ, altObjectDirs]
    cases stat : fs.stat objDir with
    | notExist | other =>
      refine iff_of_true ⟨[], rfl⟩ ?_
      rintro (unreadable | ⟨line, lists, -⟩)
      · simp [Unreadable, stat] at unreadable
      · exact not_lists_of_stat (by simp [stat]) line lists
    | failed =>
      refine iff_of_false ?_ (not_not_intro (.inl (.inl stat)))
      rintro ⟨dirs, returns⟩
      cases returns
    | dir =>
      cases read : fs.readFile (alternatesFile objDir) with
      | notExist =>
        refine iff_of_true ⟨[objDir], rfl⟩ ?_
        rintro (unreadable | ⟨line, lists, -⟩)
        · simp [Unreadable, stat, read] at unreadable
        · exact not_lists_of_readFile read (by simp) line lists
      | failed =>
        refine iff_of_false ?_ (not_not_intro (.inl (.inr ⟨stat, read⟩)))
        rintro ⟨dirs, returns⟩
        cases returns
      | content alternates =>
        have each (line : Bytes) :
            (∃ results, lineDirs storagePrefix (altObjectDirs fs storagePrefix levels)
              objDir line = .ok results) ↔
            (skipped line = false → storagePrefix <+: target objDir line ∧
              ¬ Fails fs storagePrefix levels (target objDir line)) := by
          unfold lineDirs
          cases skips : skipped line with
          | true => simp
          | false =>
            by_cases starts : storagePrefix <+: target objDir line
            · simp [starts, ih]
            · simp [starts]
        simp only [gather_eq_ok, exists_and_left, exists_eq, and_true, each]
        constructor
        · rintro returns (unreadable | ⟨line, lists, reason⟩)
          · simp [Unreadable, stat, read] at unreadable
          · obtain ⟨member, named⟩ := (lists_iff stat read).mp lists
            obtain ⟨starts, succeeds⟩ := returns line member named
            rcases reason with outside | fails
            · exact outside starts
            · exact succeeds fails
        · intro succeeds line member named
          have lists := (lists_iff stat read).mpr ⟨member, named⟩
          rw [not_or, not_exists] at succeeds
          have kept := succeeds.2 line
          rw [not_and, not_or, not_not] at kept
          exact kept lists

variable {dirs : List Bytes}

theorem altObjectDirs_dir (dir : fs.stat objDir = .dir)
    (returns : altObjectDirs fs storagePrefix (levels + 1) objDir = .ok dirs) :
    ∃ alternates, dirs = objDir :: alternates ∧ ∀ found, found ∈ alternates ↔
      ∃ line, Lists fs objDir line ∧ ∃ nested,
        altObjectDirs fs storagePrefix levels (target objDir line) = .ok nested ∧
          found ∈ nested := by
  rw [altObjectDirs, dir] at returns
  cases read : fs.readFile (alternatesFile objDir) with
  | notExist =>
    rw [read] at returns
    cases returns
    refine ⟨[], rfl, fun found => iff_of_false not_mem_nil ?_⟩
    rintro ⟨line, lists, -⟩
    exact not_lists_of_readFile read (by simp) line lists
  | failed =>
    rw [read] at returns
    cases returns
  | content lines =>
    rw [read] at returns
    obtain ⟨each, rfl⟩ := gather_eq_ok.mp returns
    refine ⟨_, singleton_append, fun found => ?_⟩
    rw [mem_flatMap]
    constructor
    · rintro ⟨line, member, inside⟩
      obtain ⟨results, calls⟩ := each line member
      have got : found ∈ results := by simpa [returned, calls, Except.toOption] using inside
      unfold lineDirs at calls
      split at calls
      · cases calls
        exact absurd got not_mem_nil
      rename_i named
      split at calls
      · exact ⟨line, (lists_iff dir read).mpr ⟨member, by simpa using named⟩, results, calls, got⟩
      · cases calls
    · rintro ⟨line, lists, nested, calls, got⟩
      obtain ⟨member, named⟩ := (lists_iff dir read).mp lists
      obtain ⟨results, whole⟩ := each line member
      have same : lineDirs storagePrefix (altObjectDirs fs storagePrefix levels) objDir line =
          .ok nested := by
        unfold lineDirs at whole ⊢
        rw [named, if_neg Bool.false_ne_true] at whole ⊢
        split at whole
        · rename_i starts
          rw [if_pos starts, calls]
        · cases whole
      refine ⟨line, member, ?_⟩
      simpa [returned, same, Except.toOption] using got

theorem altObjectDirs_other (other : fs.stat objDir ≠ .dir)
    (returns : altObjectDirs fs storagePrefix (levels + 1) objDir = .ok dirs) : dirs = [] := by
  rw [altObjectDirs] at returns
  cases stat : fs.stat objDir with
  | notExist | other =>
    rw [stat] at returns
    cases returns
    rfl
  | failed =>
    rw [stat] at returns
    cases returns
  | dir => exact absurd stat other

/-- What is returned besides the directory itself are the directories that lines on the way
name. -/
theorem mem_alternates
    (returns : altObjectDirs fs storagePrefix levels objDir = .ok dirs) (found : Bytes) :
    found ∈ dirs.tail ↔ ∃ left parent line, Follows fs levels objDir left parent line ∧
      0 < left ∧ fs.stat (target parent line) = .dir ∧ found = target parent line := by
  induction levels generalizing objDir dirs with
  | zero =>
    cases returns
    refine iff_of_false not_mem_nil ?_
    rintro ⟨left, parent, line, follows, -⟩
    cases follows
  | succ levels ih =>
    by_cases dir : fs.stat objDir = .dir
    · have succeeds := altObjectDirs_returns_iff.mp ⟨_, returns⟩
      rw [fails_succ, not_or, not_exists] at succeeds
      obtain ⟨alternates, rfl, members⟩ := altObjectDirs_dir dir returns
      rw [tail_cons, members]
      constructor
      · rintro ⟨line, lists, nested, calls, got⟩
        cases levels with
        | zero =>
          cases calls
          exact absurd got not_mem_nil
        | succ levels =>
          by_cases inner : fs.stat (target objDir line) = .dir
          · have later := ih calls
            obtain ⟨rest, rfl, -⟩ := altObjectDirs_dir inner calls
            rcases mem_cons.mp got with rfl | got
            · exact ⟨levels + 1, objDir, line, .here lists, Nat.succ_pos levels, inner, rfl⟩
            · obtain ⟨left, parent, last, follows, rest⟩ := later.mp got
              exact ⟨left, parent, last, .inside lists follows, rest⟩
          · rw [altObjectDirs_other inner calls] at got
            exact absurd got not_mem_nil
      · rintro ⟨left, parent, last, follows, more, isDir, rfl⟩
        have nested (line : Bytes) (lists : Lists fs objDir line) :
            ∃ nested, altObjectDirs fs storagePrefix levels (target objDir line) = .ok nested :=
          altObjectDirs_returns_iff.mpr (fun fails => succeeds.2 line ⟨lists, .inr fails⟩)
        cases follows with
        | here lists =>
          obtain ⟨dirs, calls⟩ := nested last lists
          refine ⟨last, lists, dirs, calls, ?_⟩
          obtain ⟨levels, rfl⟩ := Nat.exists_eq_succ_of_ne_zero (Nat.ne_of_gt more)
          obtain ⟨rest, rfl, -⟩ := altObjectDirs_dir isDir calls
          exact mem_cons_self
        | inside lists follows =>
          obtain ⟨dirs, calls⟩ := nested _ lists
          refine ⟨_, lists, dirs, calls, mem_of_mem_tail ?_⟩
          exact (ih calls).mpr ⟨left, parent, last, follows, more, isDir, rfl⟩
    · rw [altObjectDirs_other dir returns]
      refine iff_of_false not_mem_nil ?_
      rintro ⟨left, parent, line, follows, -⟩
      cases follows with
      | here lists => exact dir lists.dir
      | inside lists _ => exact dir lists.dir

/-- Every line that is followed without a failure names something with the prefix. -/
theorem prefix_of_follows {left : Nat} {parent line : Bytes}
    (succeeds : ¬ Fails fs storagePrefix levels objDir)
    (follows : Follows fs levels objDir left parent line) :
    storagePrefix <+: target parent line := by
  by_contra outside
  exact succeeds (.inr ⟨left, parent, line, follows, .inl outside⟩)

end follows

/-- A relative line is cleaned before it is checked. -/
theorem below_of_relative {storageRoot parent line : Bytes} (guards : Guards storageRoot)
    (relative : isAbs line = false) (starts : storageRoot ++ [separator] <+: target parent line) :
    Below storageRoot (target parent line) := by
  have nonempty : target parent line ≠ [] := by
    intro empty
    rw [empty, prefix_nil] at starts
    simp at starts
  unfold target at starts nonempty ⊢
  rw [relative, if_neg (by decide)] at starts nonempty ⊢
  unfold join at starts nonempty ⊢
  split at starts
  · rename_i blank
    rw [if_pos blank] at nonempty
    exact absurd rfl nonempty
  · rename_i filled
    rw [if_neg filled]
    exact below_of_prefix guards starts

section confined

variable {fs : FileSystem} {storageRoot repoPath : Bytes} {alternates : List Bytes}

theorem alternates_of_dirs {objDir : Bytes}
    (returns : ObjectDirectories fs storageRoot repoPath = .ok (objDir :: alternates)) :
    AlternateObjectDirectories fs storageRoot repoPath = .ok alternates := by
  rw [AlternateObjectDirectories, returns]

theorem confined_of_error {err : DirsError}
    (fails : ObjectDirectories fs storageRoot repoPath = .error err) :
    Confined fs storageRoot repoPath := by
  have alternates : AlternateObjectDirectories fs storageRoot repoPath = .error (.error err) := by
    rw [AlternateObjectDirectories, fails]
  constructor
  · rw [alternates]
    simp
  · intro dirs returns
    cases fails.symm.trans returns
  · intro dirs returns
    cases alternates.symm.trans returns

theorem confined_iff_of_dirs {objDir : Bytes}
    (returns : ObjectDirectories fs storageRoot repoPath = .ok (objDir :: alternates)) :
    Confined fs storageRoot repoPath ↔ ∀ dir ∈ alternates, Below storageRoot dir := by
  have rest := alternates_of_dirs returns
  constructor
  · intro confined
    exact confined.alternates alternates rest
  · intro below
    constructor
    · rw [rest]
      simp
    · intro dirs same
      cases returns.symm.trans same
      exact below
    · intro dirs same
      cases rest.symm.trans same
      exact below

section

variable (absent : fs.stat (join [repoPath, ascii "objects"]) ≠ .dir)
  (looked : fs.stat (join [repoPath, ascii "objects"]) ≠ .failed)
include absent looked

theorem ObjectDirectories_absent : ObjectDirectories fs storageRoot repoPath = .ok [] := by
  rw [ObjectDirectories, altObjectDirs]
  cases stat : fs.stat (join [repoPath, ascii "objects"]) with
  | notExist | other => rfl
  | failed => exact absurd stat looked
  | dir => exact absurd stat absent

/-- Without an object directory there is no first directory to slice off. -/
theorem not_confined_of_absent : ¬ Confined fs storageRoot repoPath := by
  intro confined
  apply confined.returns
  rw [AlternateObjectDirectories, ObjectDirectories_absent absent looked]

end

end confined

/-- The alternates stay in the storage just if the repository has an object directory and, where
the call does not fail, no absolute line leads out of the storage. -/
theorem confined_iff (fs : FileSystem) (storageRoot repoPath : Bytes) :
    Confined fs storageRoot repoPath ↔ Trustworthy fs storageRoot repoPath := by
  by_cases looked : fs.stat (join [repoPath, ascii "objects"]) = .dir ∨
      fs.stat (join [repoPath, ascii "objects"]) = .failed
  · have succeeds : (∃ dirs, ObjectDirectories fs storageRoot repoPath = .ok dirs) ↔
        ¬ Fails fs (storageRoot ++ [separator]) (maxAlternatesDepth + 1)
          (join [repoPath, ascii "objects"]) := altObjectDirs_returns_iff
    cases calls : ObjectDirectories fs storageRoot repoPath with
    | error err =>
      refine iff_of_true (confined_of_error calls) ⟨looked, .inl ?_⟩
      by_contra works
      obtain ⟨dirs, returns⟩ := succeeds.mpr works
      cases calls.symm.trans returns
    | ok dirs =>
      have works := succeeds.mp ⟨dirs, calls⟩
      have dir := looked.resolve_right (fun failed =>
        works (.inl ⟨Nat.succ_pos _, .inl failed⟩))
      have members := mem_alternates calls
      obtain ⟨alternates, rfl, -⟩ := altObjectDirs_dir dir calls
      rw [confined_iff_of_dirs calls]
      constructor
      · intro below
        refine ⟨looked, .inr (fun left parent line follows more _ isDir => ?_)⟩
        exact below _ ((members _).mpr ⟨left, parent, line, follows, more, isDir, rfl⟩)
      · intro trustworthy found member
        obtain ⟨left, parent, line, follows, more, isDir, rfl⟩ := (members found).mp member
        by_cases taken : isAbs line = true ∨ ¬ Guards storageRoot
        · exact trustworthy.lines.resolve_left works left parent line follows more taken isDir
        · rw [not_or, not_not, Bool.not_eq_true] at taken
          exact below_of_relative taken.2 taken.1 (prefix_of_follows works follows)
  · refine iff_of_false ?_ (fun trustworthy => looked trustworthy.exists_)
    rw [not_or] at looked
    exact not_confined_of_absent looked.1 looked.2

/-- The files of a storage whose one repository has an alternates file. -/
def storage (alternates : String) (dirs : List String) : FileSystem where
  stat path :=
    if path ∈ (ascii "/storage/repo.git/objects" :: dirs.map ascii) then .dir else .notExist
  readFile path :=
    if path = ascii "/storage/repo.git/objects/info/alternates" then .content (ascii alternates)
    else .notExist

/-- An absolute line that goes up is taken as it is, and a repository without an object directory
makes the call panic. -/
theorem alternates_escape :
    (AlternateObjectDirectories (storage "/storage/../etc\n" ["/storage/../etc"])
        (ascii "/storage") (ascii "/storage/repo.git") = .ok [ascii "/storage/../etc"] ∧
      ¬ Confined (storage "/storage/../etc\n" ["/storage/../etc"]) (ascii "/storage")
        (ascii "/storage/repo.git")) ∧
    AlternateObjectDirectories (storage "" []) (ascii "/storage") (ascii "/storage/gone.git") =
        .error .panic ∧
      ¬ Confined (storage "" []) (ascii "/storage") (ascii "/storage/gone.git") := by
  have escapes : AlternateObjectDirectories (storage "/storage/../etc\n" ["/storage/../etc"])
      (ascii "/storage") (ascii "/storage/repo.git") = .ok [ascii "/storage/../etc"] := by
    decide +kernel
  have panics : AlternateObjectDirectories (storage "" []) (ascii "/storage")
      (ascii "/storage/gone.git") = .error .panic := by
    decide +kernel
  refine ⟨⟨escapes, fun confined => ?_⟩, panics, fun confined => confined.returns panics⟩
  obtain ⟨-, rest, -, -, same⟩ := confined.alternates _ escapes _ mem_cons_self
  have elsewhere : cleaned (ascii "/storage/../etc") = [ascii "etc"] := by decide
  have root : cleaned (ascii "/storage") = [ascii "storage"] := by decide
  have first := (List.cons.inj same).1
  exact absurd first (by decide)

end Gitaly.Dirs
