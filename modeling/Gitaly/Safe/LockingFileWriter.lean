import Gitaly.Base.Runs
import Mathlib.Data.List.Nodup

/- The writers of internal/safe/locking_file_writer.go and file_writer.go on one path. A step is
what a method does up to its next access to a shared file; the system calls may fail. -/
namespace Gitaly.Safe

open List Option Runs

structure FileInfo where
  size : Nat
  modTime : Nat
  mode : Nat
  deriving DecidableEq

structure File where
  content : List UInt8
  modTime : Nat
  mode : Nat
  deriving DecidableEq

def File.info (file : File) : FileInfo := ⟨file.content.length, file.modTime, file.mode⟩

inductive Error where
  | text (message : String)
  /-- The error of a system call. -/
  | os
  | wrapped (context : String) (cause : Error)
  deriving DecidableEq

def ErrAlreadyDone : Error := .text "safe file was already committed or closed"

inductive WriterState where
  | «open»
  | locked
  | closed
  deriving DecidableEq

inductive Method where
  | write
  | lock
  | commit
  | close
  deriving DecidableEq

/-- Where the writer's current call is. -/
inductive Stage where
  | creating
  | unusable
  | idle
  /-- `Lock` has found the file unmodified. -/
  | locking
  /-- `Commit` has found the file unmodified. -/
  | committing
  | renamed
  | unlocking
  | closeUnlocking
  | closing (err : Option Error)
  deriving DecidableEq

/-- `base` is the number of versions of the file when it was opened; `results` are the calls that
have returned. -/
structure LockingFileWriter where
  tmpFile : File
  done : Bool
  fi : Option FileInfo
  state : WriterState
  stage : Stage
  results : List (Method × Except Error Unit)
  base : Nat
  deriving DecidableEq

namespace LockingFileWriter

def ret (fw : LockingFileWriter) (method : Method) (outcome : Except Error Unit) :
    LockingFileWriter :=
  { fw with stage := .idle, results := fw.results ++ [(method, outcome)] }

end LockingFileWriter

/-- A version of the file and the writer that committed it. -/
structure Version where
  file : File
  writer : Option Nat
  deriving DecidableEq

def versionAt (versions : List Version) : Nat → Option Version
  | 0 => none
  | count + 1 => versions[count]?

/-- The file is the last of its versions, or missing. `lock` is the writer that has created the
lock file. -/
structure World where
  versions : List Version
  lock : Option Nat
  writers : List LockingFileWriter

inductive CommitFailure where
  | syncing
  | closing
  | renaming

def CommitFailure.error : CommitFailure → Error
  | .syncing => .wrapped "syncing temp file" .os
  | .closing => .wrapped "closing temp file" .os
  | .renaming => .wrapped "renaming temp file" .os

inductive Event where
  | openTarget (fileMode : Nat)
  | create (writer : Nat) (seedContents : Bool) (time : Nat)
  | createFails (writer : Nat)
  | write (writer : Nat) (p : List UInt8) (n : Nat) (time : Nat) (fails : Bool)
  | lock (writer : Nat) (fails : Bool)
  | createLock (writer : Nat) (fails : Bool)
  | commit (writer : Nat) (fails : Bool)
  | commitFile (writer : Nat) (failure : Option CommitFailure)
  | syncDir (writer : Nat) (fails : Bool)
  | removeLock (writer : Nat) (fails : Bool)
  | close (writer : Nat)
  | closeFile (writer : Nat) (fails : Bool)

def sameInfo (fi current : Option FileInfo) : Except Error Unit :=
  match fi, current with
  | none, some _ => .error (.text "file concurrently created")
  | some _, none => .error (.text "file concurrently deleted")
  | some fi, some current =>
    if fi.size ≠ current.size ∨ fi.modTime ≠ current.modTime ∨ fi.mode ≠ current.mode then
      .error (.text "file concurrently modified")
    else .ok ()
  | none, none => .ok ()

namespace World

def start (versions : List File) : World := ⟨versions.map (⟨·, none⟩), none, []⟩

variable (w : World)

def target : Option Version := versionAt w.versions w.versions.length

def put (writer : Nat) (fw : LockingFileWriter) : World :=
  { w with writers := w.writers.set writer fw }

def checkConcurrentModification (fw : LockingFileWriter) (fails : Bool) :
    Except Error Unit :=
  if fails then .error (.wrapped "statting path" .os)
  else sameInfo fw.fi (w.target.map (·.file.info))

def unlock (fw : LockingFileWriter) (fails : Bool) :
    World × LockingFileWriter × Except Error Unit :=
  if fw.state ≠ .locked then (w, fw, .error (.text "file writer not locked"))
  else if fails ∨ w.lock = none then (w, fw, .error (.wrapped "removing lock file" .os))
  else ({ w with lock := none }, { fw with state := .closed }, .ok ())

def rename (writer : Nat) (tmpFile : File) : World :=
  { w with versions := w.versions ++ [⟨tmpFile, some writer⟩] }

def step : Event → Option World
  | .openTarget fileMode =>
    some { w with
      writers := w.writers ++ [{
        tmpFile := ⟨[], 0, if fileMode ≠ 0 then fileMode else 0o600⟩
        done := false
        fi := w.target.map (·.file.info)
        state := .open
        stage := .creating
        results := []
        base := w.versions.length }] }
  | .create writer seedContents time =>
    (w.writers[writer]?).bind (fun fw =>
      if fw.stage = .creating then
        let contents := if seedContents then
          ((versionAt w.versions fw.base).map (·.file.content)).getD [] else []
        some (w.put writer { fw with tmpFile := ⟨contents, time, fw.tmpFile.mode⟩, stage := .idle })
      else none)
  | .createFails writer =>
    (w.writers[writer]?).bind (fun fw =>
      if fw.stage = .creating then some (w.put writer { fw with stage := .unusable }) else none)
  | .write writer p n time fails =>
    (w.writers[writer]?).bind (fun fw =>
      if fw.stage = .idle then
        if fw.state ≠ .open then
          some (w.put writer (fw.ret .write (.error (.text "file writer not accepting writes"))))
        else
          let tmpFile := ⟨fw.tmpFile.content ++ p.take n, time, fw.tmpFile.mode⟩
          some (w.put writer
            ({ fw with tmpFile := tmpFile }.ret .write (if fails then .error .os else .ok ())))
      else none)
  | .lock writer fails =>
    (w.writers[writer]?).bind (fun fw =>
      if fw.stage = .idle then
        if fw.state ≠ .open then
          some (w.put writer (fw.ret .lock (.error (.text "file writer not lockable"))))
        else
          match w.checkConcurrentModification fw fails with
          | .error err => some (w.put writer (fw.ret .lock (.error err)))
          | .ok _ => some (w.put writer { fw with stage := .locking })
      else none)
  | .createLock writer fails =>
    (w.writers[writer]?).bind (fun fw =>
      if fw.stage = .locking then
        if w.lock.isSome then
          some (w.put writer (fw.ret .lock (.error (.text "file already locked"))))
        else if fails then
          some (w.put writer (fw.ret .lock (.error (.wrapped "creating lock file" .os))))
        else
          some ({ w with lock := some writer }.put writer
            ({ fw with state := .locked }.ret .lock (.ok ())))
      else none)
  | .commit writer fails =>
    (w.writers[writer]?).bind (fun fw =>
      if fw.stage = .idle then
        if fw.state ≠ .locked then
          some (w.put writer (fw.ret .commit (.error (.text "file writer not locked"))))
        else
          match w.checkConcurrentModification fw fails with
          | .error err => some (w.put writer (fw.ret .commit (.error err)))
          | .ok _ => some (w.put writer { fw with stage := .committing })
      else none)
  | .commitFile writer failure =>
    (w.writers[writer]?).bind (fun fw =>
      if fw.stage = .committing then
        if fw.done then
          some (w.put writer (fw.ret .commit (.error (.wrapped "committing file" ErrAlreadyDone))))
        else
          match failure with
          | some failure =>
            some (w.put writer ({ fw with done := true }.ret .commit
              (.error (.wrapped "committing file" failure.error))))
          | none =>
            some ((w.rename writer fw.tmpFile).put writer
              { fw with done := true, stage := .renamed })
      else none)
  | .syncDir writer fails =>
    (w.writers[writer]?).bind (fun fw =>
      if fw.stage = .renamed then
        if fails then
          some (w.put writer (fw.ret .commit
            (.error (.wrapped "committing file" (.wrapped "syncing dir" .os)))))
        else some (w.put writer { fw with stage := .unlocking })
      else none)
  | .removeLock writer fails =>
    (w.writers[writer]?).bind (fun fw =>
      let (next, unlocked, outcome) := w.unlock fw fails
      match fw.stage with
      | .unlocking =>
        match outcome with
        | .ok _ => some (next.put writer (unlocked.ret .commit (.ok ())))
        | .error err =>
          some (next.put writer (unlocked.ret .commit (.error (.wrapped "unlocking file" err))))
      | .closeUnlocking =>
        match outcome with
        | .ok _ => some (next.put writer { unlocked with stage := .closing none })
        | .error err => some (next.put writer { unlocked with stage := .closing (some err) })
      | _ => none)
  | .close writer =>
    (w.writers[writer]?).bind (fun fw =>
      if fw.stage = .idle then
        match fw.state with
        | .open => some (w.put writer { fw with stage := .closing none })
        | .locked => some (w.put writer { fw with stage := .closeUnlocking })
        | .closed => some (w.put writer (fw.ret .close (.ok ())))
      else none)
  | .closeFile writer fails =>
    (w.writers[writer]?).bind (fun fw =>
      match fw.stage with
      | .closing err =>
        let writerErr := if fw.done then some ErrAlreadyDone else if fails then some .os else none
        let outcome := match err, writerErr with
          | some err, _ => .error err
          | none, some writerErr => .error (.wrapped "closing writer" writerErr)
          | none, none => .ok ()
        some (w.put writer ({ fw with done := true, state := .closed }.ret .close outcome))
      | _ => none)

end World

theorem sameInfo_eq_ok {fi current : Option FileInfo} :
    sameInfo fi current = .ok () ↔ fi = current := by
  cases fi with
  | none => cases current <;> simp [sameInfo]
  | some fi =>
    cases current with
    | none => simp [sameInfo]
    | some current =>
      cases fi
      cases current
      simp only [sameInfo]
      split
      all_goals
        simp
        omega

section versionAt

variable {versions : List Version} {count other : Nat}

theorem versionAt_append (version : Version) (bound : count ≤ versions.length) :
    versionAt (versions ++ [version]) count = versionAt versions count := by
  cases count with
  | zero => rfl
  | succ index => exact getElem?_append_left bound

/-- Different versions differ in size, modification time or mode. -/
theorem versionAt_injective (distinct : (versions.map (·.file.info)).Nodup)
    (bound : count ≤ versions.length) (otherBound : other ≤ versions.length)
    (same : (versionAt versions count).map (·.file.info) =
      (versionAt versions other).map (·.file.info)) : count = other := by
  cases count with
  | zero =>
    cases other with
    | zero => rfl
    | succ index => simp [versionAt, getElem?_eq_getElem otherBound] at same
  | succ index =>
    cases other with
    | zero => simp [versionAt, getElem?_eq_getElem bound] at same
    | succ otherIndex =>
      have inside : index < (versions.map (·.file.info)).length := by
        rw [length_map]
        exact bound
      rw [(getElem?_inj inside distinct).mp (by simpa [versionAt] using same)]

theorem getElem?_concat_eq_some {version found : Version} {index : Nat}
    (at_ : (versions ++ [version])[index]? = some found) :
    versions[index]? = some found ∨ index = versions.length ∧ found = version := by
  rw [getElem?_append] at at_
  split at at_
  · exact .inl at_
  obtain ⟨inside, rfl⟩ := List.getElem?_eq_some_iff.mp at_
  rw [length_singleton] at inside
  exact .inr ⟨by omega, by simp⟩

end versionAt

/-- The calls in which the writer has the lock file all along. -/
def Stage.holds : Stage → Bool
  | .committing | .renamed | .unlocking | .closeUnlocking => true
  | _ => false

def LockingFileWriter.committed (fw : LockingFileWriter) : Prop :=
  fw.stage = .renamed ∨ fw.stage = .unlocking ∨ (.commit, .ok ()) ∈ fw.results

/-- What is true of a writer in a file with these versions and this lock. -/
structure Proper (versions : List Version) (lock : Option Nat) (writer : Nat)
    (fw : LockingFileWriter) : Prop where
  held : fw.state = .locked → lock = some writer
  holding : fw.stage.holds = true → fw.state = .locked
  early : fw.stage = .creating → fw.state = .open
  bound : fw.base ≤ versions.length
  fi : fw.fi = (versionAt versions fw.base).map (·.file.info)
  current : fw.stage = .committing → fw.base = versions.length
  used : fw.done = true → fw.state ≠ .open
  own : ∀ index version, versions[index]? = some version → version.writer = some writer →
    index = fw.base ∧ version.file = fw.tmpFile ∧ fw.done = true
  installed : fw.committed → versions[fw.base]? = some ⟨fw.tmpFile, some writer⟩

namespace Proper

variable {versions : List Version} {lock : Option Nat} {writer : Nat} {fw : LockingFileWriter}

variable (proper : Proper versions lock writer fw)
include proper

theorem ret {method : Method} {outcome : Except Error Unit}
    (other : (method, outcome) ≠ (.commit, .ok ())) :
    Proper versions lock writer (fw.ret method outcome) :=
  { proper with
    holding := nofun
    early := nofun
    current := nofun
    installed := by
      rintro (stage | stage | member)
      · cases stage
      · cases stage
      · rcases mem_append.mp member with before | last
        · exact proper.installed (.inr (.inr before))
        · exact absurd (mem_singleton.mp last).symm other }

theorem enter {stage : Stage} (holding : stage.holds = true → fw.state = .locked)
    (early : stage ≠ .creating) (current : stage = .committing → fw.base = versions.length)
    (committed : stage = .renamed ∨ stage = .unlocking → fw.committed) :
    Proper versions lock writer { fw with stage := stage } :=
  { proper with
    holding := holding
    early := fun creating => absurd creating early
    current := current
    installed := by
      rintro (renamed | unlocking | member)
      · exact proper.installed (committed (.inl renamed))
      · exact proper.installed (committed (.inr unlocking))
      · exact proper.installed (.inr (.inr member)) }

theorem setDone (notOpen : fw.state ≠ .open) :
    Proper versions lock writer { fw with done := true } :=
  { proper with
    used := fun _ => notOpen
    own := fun index version found written =>
      have ⟨place, file, _⟩ := proper.own index version found written
      ⟨place, file, rfl⟩ }

theorem setClosed (stage : fw.stage.holds = false) (early : fw.stage ≠ .creating) :
    Proper versions lock writer { fw with state := .closed } :=
  { proper with
    held := nofun
    holding := fun holds => by rw [stage] at holds; cases holds
    early := fun creating => absurd creating early
    used := fun _ => nofun }

theorem succeed (unlocking : fw.stage = .unlocking) :
    Proper versions lock writer ({ fw with state := .closed }.ret .commit (.ok ())) :=
  { proper with
    held := nofun
    holding := nofun
    early := nofun
    current := nofun
    used := fun _ => nofun
    installed := fun _ => proper.installed (.inr (.inl unlocking)) }

theorem append {version : Version} (foreign : version.writer ≠ some writer)
    (stage : fw.stage ≠ .committing) :
    Proper (versions ++ [version]) lock writer fw :=
  { proper with
    bound := by
      rw [length_append]
      exact Nat.le_add_right_of_le proper.bound
    fi := by
      rw [versionAt_append version proper.bound]
      exact proper.fi
    current := fun committing => absurd committing stage
    own := by
      intro index other found written
      rcases getElem?_concat_eq_some found with old | ⟨_, rfl⟩
      · exact proper.own index other old written
      · exact absurd written foreign
    installed := by
      intro committed
      have before := proper.installed committed
      rw [List.getElem?_append_left (List.getElem?_eq_some_iff.mp before).1]
      exact before }

theorem rename (committing : fw.stage = .committing) (unused : fw.done = false) :
    Proper (versions ++ [⟨fw.tmpFile, some writer⟩]) lock writer
      { fw with done := true, stage := .renamed } := by
  have locked : fw.state = .locked := proper.holding (by rw [committing]; rfl)
  have last := proper.current committing
  exact { proper with
    holding := fun _ => locked
    early := nofun
    bound := by
      rw [length_append]
      exact Nat.le_add_right_of_le proper.bound
    fi := by
      rw [versionAt_append _ proper.bound]
      exact proper.fi
    current := nofun
    used := fun _ isOpen => by rw [locked] at isOpen; cases isOpen
    own := by
      intro index version at_ written
      rcases getElem?_concat_eq_some at_ with old | ⟨rfl, rfl⟩
      · have done := (proper.own index version old written).2.2
        rw [unused] at done
        cases done
      · exact ⟨last.symm, rfl, rfl⟩
    installed := by
      intro _
      rw [last]
      exact getElem?_concat_length }

theorem not_committed (isOpen : fw.state = .open) : ¬ fw.committed := by
  intro committed
  have mine := proper.own _ _ (proper.installed committed) rfl
  exact proper.used mine.2.2 isOpen

end Proper

namespace World

structure Inv (w : World) : Prop where
  distinct : (w.versions.map (·.file.info)).Nodup
  writers : ∀ writer fw, w.writers[writer]? = some fw → Proper w.versions w.lock writer fw
  authors : ∀ version ∈ w.versions, ∀ writer, version.writer = some writer →
    writer < w.writers.length

variable {w next : World} {writer : Nat} {fw : LockingFileWriter} {versions : List File}

theorem start_inv (distinct : (versions.map File.info).Nodup) :
    (start versions).Inv where
  distinct := by simpa [start, Function.comp_def] using distinct
  writers := fun _ _ absent => by simp [start] at absent
  authors := by simp [start]

theorem Inv.authors_set (inv : w.Inv) (moved : LockingFileWriter) :
    ∀ version ∈ w.versions, ∀ author, version.writer = some author →
      author < (w.writers.set writer moved).length :=
  fun version member author written =>
    (inv.authors version member author written).trans_eq length_set.symm

theorem Inv.put (inv : w.Inv) {moved : LockingFileWriter}
    (proper : Proper w.versions w.lock writer moved) : (w.put writer moved).Inv where
  distinct := inv.distinct
  writers := indexed_moved (fun place other _ => inv.writers place other) proper
  authors := inv.authors_set moved

theorem Inv.ret (inv : w.Inv) (found : w.writers[writer]? = some fw) {method : Method}
    {outcome : Except Error Unit} (other : (method, outcome) ≠ (.commit, .ok ())) :
    (w.put writer (fw.ret method outcome)).Inv :=
  inv.put ((inv.writers writer fw found).ret other)

theorem Inv.openTarget (inv : w.Inv) (fileMode : Nat) :
    ∀ next, w.step (.openTarget fileMode) = some next → next.Inv := by
  rintro next ⟨⟩
  refine ⟨inv.distinct, indexed_joined inv.writers ?_, ?_⟩
  · exact {
      held := nofun
      holding := nofun
      early := fun _ => rfl
      bound := Nat.le_refl _
      fi := rfl
      current := nofun
      used := nofun
      own := fun index version found written =>
        absurd (inv.authors version (mem_of_getElem? found) _ written) (Nat.lt_irrefl _)
      installed := by
        rintro (stage | stage | member)
        · cases stage
        · cases stage
        · cases member }
  · intro version member author written
    rw [length_append]
    exact Nat.lt_add_right _ (inv.authors version member author written)

theorem Inv.setTmpFile (inv : w.Inv) (found : w.writers[writer]? = some fw)
    (isOpen : fw.state = .open) (tmpFile : File) :
    Proper w.versions w.lock writer { fw with tmpFile := tmpFile } := by
  have proper := inv.writers writer fw found
  exact { proper with
    own := fun index version at_ written =>
      absurd isOpen (proper.used (proper.own index version at_ written).2.2)
    installed := fun committed => absurd committed (proper.not_committed isOpen) }

theorem checkConcurrentModification_eq_ok {fails : Bool}
    (unmodified : w.checkConcurrentModification fw fails = .ok ()) :
    fw.fi = w.target.map (·.file.info) := by
  unfold checkConcurrentModification at unmodified
  split at unmodified
  · cases unmodified
  · exact sameInfo_eq_ok.mp unmodified

section

variable (inv : w.Inv) (found : w.writers[writer]? = some fw)
include inv found

theorem Inv.base_eq (unmodified : fw.fi = w.target.map (·.file.info)) :
    fw.base = w.versions.length := by
  have proper := inv.writers writer fw found
  rw [proper.fi] at unmodified
  exact versionAt_injective inv.distinct proper.bound (Nat.le_refl _) unmodified

theorem Inv.rename (committing : fw.stage = .committing) (unused : fw.done = false)
    (fresh : fw.tmpFile.info ∉ w.versions.map (·.file.info)) :
    ((w.rename writer fw.tmpFile).put writer { fw with done := true, stage := .renamed }).Inv := by
  have proper := inv.writers writer fw found
  have holds : fw.state = .locked := proper.holding (by rw [committing]; rfl)
  have last := proper.current committing
  have inside := (List.getElem?_eq_some_iff.mp found).1
  refine ⟨?_, indexed_moved ?_ ?_, ?_⟩
  · simp only [World.put, World.rename, map_append, map_cons, map_nil]
    refine nodup_append.mpr ⟨inv.distinct, nodup_singleton _, ?_⟩
    intro old member new isNew
    rw [mem_singleton.mp isNew]
    rintro rfl
    exact fresh member
  · intro place other different otherFound
    have others := inv.writers place other otherFound
    refine others.append (fun same => different (Option.some.inj same).symm) (fun committing => ?_)
    have held := others.held (others.holding (by rw [committing]; rfl))
    rw [proper.held holds] at held
    exact different (Option.some.inj held).symm
  · exact proper.rename committing unused
  · intro version member author written
    simp only [World.put, World.rename, length_set] at member ⊢
    rcases mem_append.mp member with old | new
    · exact inv.authors version old author written
    cases mem_singleton.mp new
    cases written
    exact inside

theorem Inv.createLock (locking : fw.stage = .locking) (free : w.lock = none) :
    ({ w with lock := some writer }.put writer
      ({ fw with state := .locked }.ret .lock (.ok ()))).Inv := by
  have proper := inv.writers writer fw found
  refine ⟨inv.distinct, indexed_moved ?_ (Proper.ret ?_ nofun), ?_⟩
  · intro place other different otherFound
    have others := inv.writers place other otherFound
    refine { others with held := fun locked => ?_ }
    have held := others.held locked
    rw [free] at held
    cases held
  · exact { proper with
      held := fun _ => rfl
      holding := fun _ => rfl
      early := fun creating => by rw [locking] at creating; cases creating
      used := nofun }
  · exact inv.authors_set _

theorem Inv.unlock (locked : fw.state = .locked) {moved : LockingFileWriter}
    (proper : Proper w.versions w.lock writer moved) (state : moved.state = .closed) :
    ({ w with lock := none }.put writer moved).Inv := by
  refine ⟨inv.distinct, indexed_moved ?_ ?_, inv.authors_set _⟩
  · intro place other different otherFound
    have others := inv.writers place other otherFound
    refine { others with held := fun otherLocked => ?_ }
    have held := others.held otherLocked
    rw [(inv.writers writer fw found).held locked] at held
    exact absurd (Option.some.inj held).symm different
  · exact { proper with held := fun locked => by rw [state] at locked; cases locked }

end

theorem unlock_of_locked (fails : Bool) (locked : fw.state = .locked)
    (lock : w.lock = some writer) :
    w.unlock fw fails =
      if fails then (w, fw, .error (.wrapped "removing lock file" .os))
      else ({ w with lock := none }, { fw with state := .closed }, .ok ()) := by
  simp [unlock, locked, lock]

theorem Inv.removeLock (inv : w.Inv) {fails : Bool}
    (taken : w.step (.removeLock writer fails) = some next) : next.Inv := by
  simp only [step, bind_eq_some_iff] at taken
  obtain ⟨fw, found, taken⟩ := taken
  have proper := inv.writers writer fw found
  have unlocks : ∀ {stage : Stage}, fw.stage = stage → stage.holds = true → fw.state = .locked ∧
      w.unlock fw fails = if fails then (w, fw, .error (.wrapped "removing lock file" .os))
        else ({ w with lock := none }, { fw with state := .closed }, .ok ()) := by
    rintro stage rfl holds
    have locked := proper.holding holds
    exact ⟨locked, unlock_of_locked fails locked (proper.held locked)⟩
  split at taken
  · rename_i unlocking
    obtain ⟨locked, unlocked⟩ := unlocks unlocking rfl
    rw [unlocked] at taken
    cases fails with
    | true =>
      cases taken
      exact inv.ret found nofun
    | false =>
      cases taken
      exact inv.unlock found locked (proper.succeed unlocking) rfl
  · rename_i closeUnlocking
    obtain ⟨locked, unlocked⟩ := unlocks closeUnlocking rfl
    rw [unlocked] at taken
    cases fails with
    | true =>
      cases taken
      exact inv.put (proper.enter nofun nofun nofun nofun)
    | false =>
      cases taken
      have closing : Proper w.versions w.lock writer { fw with stage := .closing none } :=
        proper.enter nofun nofun nofun nofun
      exact inv.unlock found locked (closing.setClosed rfl nofun) rfl
  · cases taken

theorem Inv.removeLock_holder (inv : w.Inv) {fails : Bool}
    (taken : w.step (.removeLock writer fails) = some next) :
    ∃ fw, w.writers[writer]? = some fw ∧ fw.state = .locked := by
  simp only [step, bind_eq_some_iff] at taken
  obtain ⟨fw, found, taken⟩ := taken
  refine ⟨fw, found, (inv.writers writer fw found).holding ?_⟩
  split at taken
  · rename_i stage
    rw [stage]
    rfl
  · rename_i stage
    rw [stage]
    rfl
  · cases taken

/-- Every step that leaves the versions distinct. -/
theorem step_inv (event : Event) (inv : w.Inv) (taken : w.step event = some next)
    (distinct : (next.versions.map (·.file.info)).Nodup) : next.Inv := by
  cases event with
  | openTarget fileMode => exact inv.openTarget fileMode next taken
  | removeLock writer fails => exact inv.removeLock taken
  | create writer seedContents time =>
    obtain ⟨fw, found, creating, taken⟩ := guarded taken
    cases taken
    have isOpen := (inv.writers writer fw found).early creating
    exact inv.put ((inv.setTmpFile found isOpen _).enter nofun nofun nofun nofun)
  | createFails writer =>
    obtain ⟨fw, found, -, taken⟩ := guarded taken
    cases taken
    exact inv.put ((inv.writers writer fw found).enter nofun nofun nofun nofun)
  | write writer p n time fails =>
    obtain ⟨fw, found, -, taken⟩ := guarded taken
    split at taken
    · cases taken
      exact inv.ret found nofun
    rename_i isOpen
    cases taken
    exact inv.put ((inv.setTmpFile found (not_not.mp isOpen) _).ret nofun)
  | lock writer fails =>
    obtain ⟨fw, found, -, taken⟩ := guarded taken
    split at taken
    · cases taken
      exact inv.ret found nofun
    split at taken
    · cases taken
      exact inv.ret found nofun
    · cases taken
      exact inv.put ((inv.writers writer fw found).enter nofun nofun nofun nofun)
  | createLock writer fails =>
    obtain ⟨fw, found, locking, taken⟩ := guarded taken
    split at taken
    · cases taken
      exact inv.ret found nofun
    split at taken
    · cases taken
      exact inv.ret found nofun
    rename_i free _
    cases taken
    exact inv.createLock found locking (not_isSome_iff_eq_none.mp free)
  | commit writer fails =>
    obtain ⟨fw, found, -, taken⟩ := guarded taken
    split at taken
    · cases taken
      exact inv.ret found nofun
    rename_i locked
    split at taken
    · cases taken
      exact inv.ret found nofun
    rename_i unmodified
    cases taken
    have same := inv.base_eq found (checkConcurrentModification_eq_ok unmodified)
    exact inv.put ((inv.writers writer fw found).enter (fun _ => not_not.mp locked) nofun
      (fun _ => same) nofun)
  | commitFile writer failure =>
    obtain ⟨fw, found, committing, taken⟩ := guarded taken
    split at taken
    · cases taken
      exact inv.ret found nofun
    rename_i unused
    cases failure with
    | some failure =>
      cases taken
      have proper := inv.writers writer fw found
      have locked := proper.holding (by rw [committing]; rfl)
      exact inv.put ((proper.setDone (by rw [locked]; exact nofun)).ret nofun)
    | none =>
      cases taken
      refine inv.rename found committing (Bool.not_eq_true _ ▸ unused) (fun old => ?_)
      simp only [put, rename, map_append] at distinct
      exact (nodup_append.mp distinct).2.2 _ old _ mem_cons_self rfl
  | syncDir writer fails =>
    obtain ⟨fw, found, renamed, taken⟩ := guarded taken
    split at taken
    · cases taken
      exact inv.ret found nofun
    cases taken
    have proper := inv.writers writer fw found
    exact inv.put (proper.enter (fun _ => proper.holding (by rw [renamed]; rfl)) nofun nofun
      (fun _ => .inl renamed))
  | close writer =>
    obtain ⟨fw, found, -, taken⟩ := guarded taken
    have proper := inv.writers writer fw found
    split at taken
    · cases taken
      exact inv.put (proper.enter nofun nofun nofun nofun)
    · rename_i locked
      cases taken
      exact inv.put (proper.enter (fun _ => locked) nofun nofun nofun)
    · cases taken
      exact inv.ret found nofun
  | closeFile writer fails =>
    obtain ⟨fw, found, taken⟩ := bind_eq_some_iff.mp taken
    split at taken
    · rename_i closing
      cases taken
      have closed := (inv.writers writer fw found).setClosed (by rw [closing]; rfl)
        (by rw [closing]; exact nofun)
      exact inv.put ((closed.setDone nofun).ret nofun)
    · cases taken

/-- The shared files after a step of a writer. -/
structure Effect (w next : World) (event : Event) : Prop where
  versions : ∃ added, next.versions = w.versions ++ added
  lock : ∀ owner, w.lock = some owner →
    next.lock = some owner ∨ ∃ writer fails, event = .removeLock writer fails

theorem Effect.put {event : Event} (moved : LockingFileWriter) :
    Effect w (w.put writer moved) event :=
  ⟨⟨[], (append_nil _).symm⟩, fun _ => .inl⟩

theorem step_effect (event : Event) (taken : w.step event = some next) : Effect w next event := by
  cases event with
  | openTarget fileMode =>
    cases taken
    exact ⟨⟨[], (append_nil _).symm⟩, fun _ => .inl⟩
  | createLock writer fails =>
    obtain ⟨fw, found, -, taken⟩ := guarded taken
    split at taken
    · cases taken
      exact .put _
    split at taken
    · cases taken
      exact .put _
    rename_i free _
    cases taken
    refine ⟨⟨[], (append_nil _).symm⟩, fun owner locked => ?_⟩
    rw [locked] at free
    exact absurd rfl free
  | commitFile writer failure =>
    obtain ⟨fw, found, -, taken⟩ := guarded taken
    split at taken
    · cases taken
      exact .put _
    cases failure with
    | some failure =>
      cases taken
      exact .put _
    | none =>
      cases taken
      exact ⟨⟨_, rfl⟩, fun _ => .inl⟩
  | removeLock writer fails =>
    simp only [step, bind_eq_some_iff] at taken
    obtain ⟨fw, found, taken⟩ := taken
    have kept : (w.unlock fw fails).1.versions = w.versions := by
      unfold unlock
      split
      · rfl
      · split <;> rfl
    refine ⟨⟨[], ?_⟩, fun _ _ => .inr ⟨writer, fails, rfl⟩⟩
    rw [append_nil, ← kept]
    repeat' split at taken
    all_goals first | cases taken; rfl | cases taken
  | create | createFails | write | lock | commit | syncDir | close | closeFile =>
    obtain ⟨fw, found, taken⟩ := bind_eq_some_iff.mp taken
    repeat' split at taken
    all_goals first | cases taken; exact .put _ | cases taken

theorem start_reaches_inv (reached : Reaches step (start versions) w)
    (distinct : (w.versions.map (·.file.info)).Nodup) : w.Inv := by
  refine reached.invariant (fun w => (w.versions.map (·.file.info)).Nodup → w.Inv) ?_ ?_ distinct
  · intro w event next inv taken distinct
    obtain ⟨added, grown⟩ := (step_effect event taken).versions
    have before := distinct
    rw [grown, map_append] at before
    exact step_inv event (inv (nodup_append.mp before).1) taken distinct
  · intro distinct
    exact start_inv (by simpa [start, Function.comp_def] using distinct)

end World

/-- No update is lost: a committed file follows the version its writer has started from, one
writer at most holds the lock file and no other one removes it. -/
structure NoLostUpdate (w : World) : Prop where
  replaces : ∀ (writer : Nat) (fw : LockingFileWriter), w.writers[writer]? = some fw →
    (.commit, .ok ()) ∈ fw.results → w.versions[fw.base]? = some ⟨fw.tmpFile, some writer⟩
  based : ∀ (index : Nat) (version : Version) (writer : Nat), w.versions[index]? = some version →
    version.writer = some writer → ∃ fw : LockingFileWriter,
      w.writers[writer]? = some fw ∧ fw.base = index
  holds : ∀ (writer : Nat) (fw : LockingFileWriter), w.writers[writer]? = some fw →
    fw.state = .locked → w.lock = some writer
  holder : ∀ (writer other : Nat) (fw otherFw : LockingFileWriter),
    w.writers[writer]? = some fw → w.writers[other]? = some otherFw →
      fw.state = .locked → otherFw.state = .locked → writer = other
  removes : ∀ (event : Event) (next : World) (owner : Nat), w.step event = some next →
    w.lock = some owner → next.lock ≠ some owner →
      (∃ fails, event = .removeLock owner fails) ∧
        ∃ fw : LockingFileWriter, w.writers[owner]? = some fw ∧ fw.state = .locked

theorem no_lost_update_of_reaches {versions : List File} {w : World}
    (reached : Reaches World.step (World.start versions) w)
    (distinct : (w.versions.map (·.file.info)).Nodup) : NoLostUpdate w := by
  have inv := World.start_reaches_inv reached distinct
  refine ⟨?_, ?_, ?_, ?_, ?_⟩
  · intro writer fw found committed
    exact (inv.writers writer fw found).installed (.inr (.inr committed))
  · intro index version writer found written
    have inside := inv.authors version (mem_of_getElem? found) writer written
    have at_ := getElem?_eq_getElem inside
    exact ⟨_, at_, ((inv.writers writer _ at_).own index version found written).1.symm⟩
  · intro writer fw found
    exact (inv.writers writer fw found).held
  · intro writer other fw otherFw found otherFound locked otherLocked
    have held := (inv.writers writer fw found).held locked
    rw [(inv.writers other otherFw otherFound).held otherLocked] at held
    exact (Option.some.inj held).symm
  · intro event next owner taken held removed
    rcases (World.step_effect event taken).lock owner held with kept | ⟨writer, fails, rfl⟩
    · exact absurd kept removed
    obtain ⟨fw, found, locked⟩ := inv.removeLock_holder taken
    have mine := (inv.writers writer fw found).held locked
    rw [held] at mine
    cases mine
    exact ⟨⟨fails, rfl⟩, fw, found, locked⟩

/-- Two writers start from one version: the second finds the file modified. -/
def contended : List Event :=
  [.openTarget 0, .create 0 true 5, .openTarget 0, .create 1 true 6, .write 0 [1] 1 7 false,
    .lock 0 false, .lock 1 false, .createLock 0 false, .commit 0 false, .commitFile 0 none,
    .syncDir 0 false, .removeLock 0 false, .createLock 1 false, .commit 1 false, .close 1,
    .removeLock 1 false, .closeFile 1 false]

theorem contended_no_lost_update :
    ((exec World.step (World.start [⟨[0], 1, 2⟩]) contended).get (by decide)).versions =
        [⟨⟨[0], 1, 2⟩, none⟩, ⟨⟨[0, 1], 7, 0o600⟩, some 0⟩] ∧
      NoLostUpdate ((exec World.step (World.start [⟨[0], 1, 2⟩]) contended).get (by decide)) :=
  ⟨by decide, no_lost_update_of_reaches (.of_exec (by decide)) (by decide)⟩

end Gitaly.Safe
