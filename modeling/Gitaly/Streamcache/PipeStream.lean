import Gitaly.Streamcache.Pipe
import Mathlib.Data.List.Nodup
import Mathlib.Order.Lattice

/- What the readers of a pipe receive. -/
namespace Gitaly.Streamcache

open Cursor List Option Runs

namespace Cursor

variable (c : Cursor)

@[simp] theorem SetPosition_pos (pos : Nat) : (c.SetPosition pos).pos = max c.pos pos := by
  unfold SetPosition
  split
  · rename_i less
    exact (max_eq_left less).symm
  · rename_i more
    exact (max_eq_right (le_of_not_ge more)).symm

@[simp] theorem SetPosition_subscribers (pos : Nat) :
    (c.SetPosition pos).subscribers = c.subscribers := by
  unfold SetPosition
  split <;> rfl

@[simp] theorem SetPosition_done (pos : Nat) : (c.SetPosition pos).done = c.done := by
  unfold SetPosition
  split <;> rfl

variable {c}

theorem receive_eq_some {n : Nat} {next : Cursor} (received : c.receive n = some next) :
    next = { c with notified := c.notified.erase n } := by
  unfold receive at received
  split at received
  · exact (Option.some.inj received).symm
  · cases received

end Cursor

def WriteStage.count : WriteStage → Nat
  | .writing _ n | .setting n _ => n
  | .idle | .checking _ | .waiting _ => 0

def ReadStage.count : ReadStage → Nat
  | .advancing _ n _ => n
  | .idle | .checking _ | .waiting _ | .waited _ => 0

section

variable (pr : PipeReader) (mode : Mode) (err : Option Error) (again : Bool)

theorem PipeReader.proceed_closed : (pr.proceed mode err again).closed = pr.closed := by
  unfold proceed
  repeat' split
  all_goals rfl

theorem PipeReader.proceed_position : (pr.proceed mode err again).position = pr.position := by
  unfold proceed
  repeat' split
  all_goals rfl

theorem PipeReader.proceed_awake (waiting : Mode) :
    (pr.proceed mode err again).stage ≠ .waiting waiting := by
  unfold proceed
  repeat' split
  all_goals exact nofun

end

/-- What is true of a reader while the file and the writer's position are these and the writer is
closed or not. -/
structure Reads (file : List UInt8) (pos : Nat) (done : Bool) (pr : PipeReader) : Prop where
  received : pr.received <+: file
  position : pr.position + pr.stage.count = pr.received.length
  waited : ∀ mode, pr.stage = .waited mode → pr.position < pos ∨ done = true
  ending : ∀ mode n, pr.stage = .advancing mode n (some .eof) → (∀ start, mode ≠ .sendfile start) →
    done = true ∧ pr.received = file
  eof : pr.atEOF = true → done = true ∧ pr.received = file

namespace Reads

variable {file : List UInt8} {pos : Nat} {done : Bool} {pr : PipeReader}

theorem newReader (file : List UInt8) (pos : Nat) (done : Bool) :
    Reads file pos done Pipe.newReader where
  received := nil_prefix
  position := rfl
  waited := nofun
  ending := nofun
  eof := nofun

section

variable (reads : Reads file pos done pr)
include reads

theorem mono {later : List UInt8} {laterPos : Nat} {laterDone : Bool} (grows : file <+: later)
    (advances : pos ≤ laterPos) (stays : done = true → laterDone = true ∧ later = file) :
    Reads later laterPos laterDone pr where
  received := reads.received.trans grows
  position := reads.position
  waited := fun mode stage => (reads.waited mode stage).imp
    (fun before => before.trans_le advances) (fun closed => (stays closed).1)
  ending := fun mode n stage plain =>
    have ⟨closed, all⟩ := reads.ending mode n stage plain
    ⟨(stays closed).1, all.trans (stays closed).2.symm⟩
  eof := fun atEOF =>
    have ⟨closed, all⟩ := reads.eof atEOF
    ⟨(stays closed).1, all.trans (stays closed).2.symm⟩

theorem enter {stage : ReadStage} (before : pr.stage.count = 0)
    (after : ∀ mode n err, stage ≠ .advancing mode n err)
    (waited : ∀ mode, stage = .waited mode → pr.position < pos ∨ done = true) :
    Reads file pos done { pr with stage := stage } :=
  { reads with
    position := by
      have same := reads.position
      rw [before] at same
      cases stage with
      | advancing mode n err => exact absurd rfl (after mode n err)
      | _ => exact same
    waited := waited
    ending := fun mode n stage => absurd stage (after mode n _) }

theorem received_take (n : Nat) :
    pr.received ++ (file.drop pr.received.length).take n <+: file := by
  obtain ⟨rest, rfl⟩ := reads.received
  rw [drop_left]
  exact (prefix_append_right_inj _).mpr ( take_prefix n rest)

theorem take (before : pr.stage.count = 0) {mode : Mode} {n : Nat} {err : Option Error}
    (inside : n ≤ file.length - pr.received.length)
    (ending : err = some .eof → (∀ start, mode ≠ .sendfile start) →
      n = 0 ∧ done = true ∧ pr.received = file) :
    Reads file pos done (pr.take file mode n err) where
  received := reads.received_take n
  position := by
    have same := reads.position
    simp only [PipeReader.take, ReadStage.count, length_append, length_take, length_drop]
    omega
  waited := nofun
  ending := by
    rintro _ _ ⟨⟩ plain
    obtain ⟨rfl, closed, all⟩ := ending rfl plain
    exact ⟨closed, by simp [PipeReader.take, all]⟩
  eof := by
    intro atEOF
    obtain ⟨closed, all⟩ := reads.eof atEOF
    refine ⟨closed, ?_⟩
    simp [PipeReader.take, all]

/-- `io.EOF` comes when there is nothing left to read, which is after the writer was closed. -/
theorem fileRead_eof (within : pos ≤ file.length) {mode : Mode} (waited : pr.stage = .waited mode)
    {n : Nat} {closed fails : Bool} {len : Nat}
    (ends : (fileRead file pr.received.length len n closed fails).2 = some .eof) :
    (fileRead file pr.received.length len n closed fails).1 = 0 ∧ done = true ∧
      pr.received = file := by
  have position := reads.position
  rw [waited] at position
  simp only [ReadStage.count, Nat.add_zero] at position
  unfold fileRead at ends ⊢
  split at ends
  · cases ends
  split at ends
  · cases ends
  split at ends
  · rename_i open_ some end_
    have all : pr.received = file := reads.received.eq_of_length_le end_
    rw [if_neg open_, if_neg some, if_pos end_]
    refine ⟨rfl, ?_, all⟩
    rcases reads.waited mode waited with before | done
    · omega
    · exact done
  · split at ends <;> cases ends

end

theorem fileRead_le (len n : Nat) (closed fails : Bool) (offset : Nat) :
    (fileRead file offset len n closed fails).1 ≤ file.length - offset := by
  unfold fileRead
  repeat' split
  all_goals first | exact Nat.zero_le _ | exact (min_le_right _ _).trans (min_le_right _ _)

/-- `WriteTo` ends when `waitReadable` finds nothing to read, which is after the writer was
closed. -/
theorem finish (reads : Reads file pos done pr) {count : Nat} (written : pos + count = file.length)
    (closed : done = true → count = 0) {mode : Mode} (waited : pr.stage = .waited mode)
    (ends : ¬ pr.position < pos) :
    Reads file pos done { pr with atEOF := true, stage := .idle } := by
  have position := reads.position
  rw [waited] at position
  have ended : done = true := (reads.waited mode waited).resolve_left ends
  have none := closed ended
  have all : pr.received = file := reads.received.eq_of_length_le (by omega)
  exact { reads with
    position := position
    waited := nofun
    ending := nofun
    eof := fun _ => ⟨ended, all⟩ }

theorem advance (reads : Reads file pos done pr) {mode : Mode} {n : Nat} {err : Option Error}
    (advancing : pr.stage = .advancing mode n err) (again : Bool) :
    Reads file pos done ({ pr with position := pr.position + n }.proceed mode err again) := by
  have position := reads.position
  rw [advancing] at position
  have returns : ∀ {atEOF : Bool} {stage : ReadStage},
      (∀ mode n err, stage ≠ .advancing mode n err) → (∀ mode, stage ≠ .waited mode) →
      (atEOF = true → done = true ∧ pr.received = file) →
      Reads file pos done
        { pr with position := pr.position + n, atEOF := atEOF, stage := stage } := by
    intro atEOF stage still fresh eof
    exact {
      received := reads.received
      position := by
        cases stage with
        | advancing mode n err => exact absurd rfl (still mode n err)
        | _ => exact position
      waited := fun mode stage => absurd stage (fresh mode)
      ending := fun mode n stage => absurd stage (still mode n _)
      eof := eof }
  unfold PipeReader.proceed
  cases mode with
  | read len =>
    refine returns nofun nofun (fun atEOF => ?_)
    rcases Bool.or_eq_true_iff.mp atEOF with before | now
    · exact reads.eof before
    · rw [of_decide_eq_true now] at advancing
      exact reads.ending _ n advancing nofun
  | copy =>
    dsimp only
    split
    · rename_i ends
      rw [ends] at advancing
      exact returns nofun nofun (fun _ => reads.ending _ n advancing nofun)
    · split
      all_goals exact returns nofun nofun reads.eof
  | sendfile start =>
    dsimp only
    split
    · exact returns nofun nofun reads.eof
    · split
      all_goals exact returns nofun nofun reads.eof

end Reads

/-- The subscribers are the readers that are not closed. -/
structure Listed (subscribers : List Nat) (readers : List PipeReader) : Prop where
  distinct : subscribers.Nodup
  subscribed : ∀ reader, reader ∈ subscribers ↔ ∃ pr, readers[reader]? = some pr ∧ pr.closed = false

namespace Listed

variable {subscribers : List Nat} {readers : List PipeReader} {reader : Nat} {pr moved : PipeReader}

theorem getElem?_moved (found : readers[reader]? = some pr) (moved : PipeReader) (other : Nat) :
    (readers.set reader moved)[other]? =
      if reader = other then some moved else readers[other]? := by
  rw [List.getElem?_set, if_pos (List.getElem?_eq_some_iff.mp found).1]

theorem put (listed : Listed subscribers readers) (found : readers[reader]? = some pr)
    (closed : moved.closed = pr.closed) : Listed subscribers (readers.set reader moved) := by
  refine ⟨listed.distinct, fun other => ?_⟩
  rw [getElem?_moved found, listed.subscribed]
  by_cases same : reader = other
  · subst same
    simp [found, closed]
  · rw [if_neg same]

theorem join (listed : Listed subscribers readers) (new : pr.closed = false) :
    Listed (subscribers ++ [readers.length]) (readers ++ [pr]) := by
  have inside : ∀ reader ∈ subscribers, reader < readers.length := by
    intro reader member
    obtain ⟨_, found, _⟩ := (listed.subscribed reader).mp member
    exact (List.getElem?_eq_some_iff.mp found).1
  constructor
  · refine nodup_append.mpr ⟨listed.distinct, nodup_singleton _, ?_⟩
    intro old member last isLast
    rw [mem_singleton.mp isLast]
    exact (inside old member).ne
  · intro reader
    rw [mem_append, mem_singleton]
    rcases Nat.lt_trichotomy reader readers.length with before | rfl | after
    · rw [getElem?_append_left before, ← listed.subscribed]
      exact or_iff_left before.ne
    · simp [new]
    · have outside : (readers ++ [pr])[reader]? = none := by
        rw [List.getElem?_eq_none_iff, List.length_append]
        exact after
      simp only [outside, reduceCtorEq, false_and, exists_false, iff_false, not_or]
      exact ⟨fun member => absurd (inside reader member) (Nat.lt_asymm after), after.ne'⟩

theorem close (listed : Listed subscribers readers) (found : readers[reader]? = some pr) :
    Listed (subscribers.erase reader) (readers.set reader { pr with closed := true }) := by
  refine ⟨listed.distinct.erase reader, fun other => ?_⟩
  rw [listed.distinct.mem_erase_iff, getElem?_moved found, listed.subscribed]
  by_cases same : reader = other
  · simp [same]
  · rw [if_neg same]
    exact and_iff_right (Ne.symm same)

end Listed

namespace Pipe

structure Inv (p : Pipe) : Prop where
  written : p.wcursor.pos + p.stage.count = p.file.length
  closed : p.rcursor.done = true → p.fileClosed = true ∧ p.stage.count = 0 ∧ p.closes ≠ []
  sole : p.rcursor.done = false → p.rcursor.subscribers = [0]
  listed : Listed p.wcursor.subscribers p.readers
  done : p.wcursor.subscribers = [] → p.wcursor.done = true
  readers : ∀ pr ∈ p.readers, Reads p.file p.wcursor.pos p.rcursor.done pr

variable {p next : Pipe}

theorem newPipe_inv : newPipe.Inv where
  written := rfl
  closed := nofun
  sole := fun _ => rfl
  listed := by
    have none : Listed [] [] := ⟨nodup_nil, by simp⟩
    exact none.join rfl
  done := nofun
  readers := by
    intro pr member
    rw [mem_singleton.mp member]
    exact .newReader _ _ _

section

variable (inv : p.Inv)
include inv

theorem Inv.reads {reader : Nat} {pr : PipeReader} (found : p.readers[reader]? = some pr) :
    Reads p.file p.wcursor.pos p.rcursor.done pr :=
  inv.readers pr (mem_of_getElem? found)

theorem Inv.put {reader : Nat} {pr moved : PipeReader} (found : p.readers[reader]? = some pr)
    (closed : moved.closed = pr.closed) (reads : Reads p.file p.wcursor.pos p.rcursor.done moved) :
    (p.put reader moved).Inv :=
  { inv with
    listed := inv.listed.put found closed
    readers := forall_moved inv.readers reads }

theorem Inv.stay {stage : WriteStage} (count : stage.count = p.stage.count) :
    ({ p with stage := stage } : Pipe).Inv :=
  { inv with
    written := by
      rw [count]
      exact inv.written
    closed := fun done =>
      have ⟨fileClosed, written, closes⟩ := inv.closed done
      ⟨fileClosed, count.trans written, closes⟩ }

theorem Inv.append {rest : List UInt8} {count : Nat} (writing : p.stage = .writing rest count)
    (isOpen : p.fileClosed = false) (n : Nat) :
    ({ p with
      file := p.file ++ rest.take n
      stage := .writing (rest.drop n) (count + (rest.take n).length) } : Pipe).Inv := by
  have notDone : p.rcursor.done = false := by
    refine Bool.not_eq_true _ ▸ (fun done => ?_)
    have fileClosed := (inv.closed done).1
    rw [isOpen] at fileClosed
    cases fileClosed
  exact { inv with
    written := by
      have before := inv.written
      rw [writing] at before
      simp only [WriteStage.count, length_append] at before ⊢
      omega
    closed := fun done => by rw [notDone] at done; cases done
    readers := fun pr member => (inv.readers pr member).mono (prefix_append _ _)
      (Nat.le_refl _) (fun done => by rw [notDone] at done; cases done) }

theorem Inv.setPosition {n : Nat} {err : Option Error} (setting : p.stage = .setting n err) :
    ({ p with
        wcursor := p.wcursor.SetPosition (p.wcursor.pos + n)
        stage := .idle } : Pipe).Inv where
  written := by
    have before := inv.written
    rw [setting] at before
    rw [SetPosition_pos, max_eq_right (Nat.le_add_right _ _)]
    exact before
  closed := fun done =>
    have ⟨fileClosed, _, closes⟩ := inv.closed done
    ⟨fileClosed, rfl, closes⟩
  sole := inv.sole
  listed := by
    rw [SetPosition_subscribers]
    exact inv.listed
  done := by
    rw [SetPosition_subscribers, SetPosition_done]
    exact inv.done
  readers := by
    intro pr member
    rw [SetPosition_pos]
    exact (inv.readers pr member).mono (prefix_refl _) (le_max_left _ _)
      (fun done => ⟨done, rfl⟩)

theorem Inv.setRcursor (position : Nat) :
    ({ p with rcursor := p.rcursor.SetPosition position } : Pipe).Inv :=
  { inv with
    closed := by
      rw [SetPosition_done]
      exact inv.closed
    sole := by
      rw [SetPosition_done, SetPosition_subscribers]
      exact inv.sole
    readers := by
      rw [SetPosition_done]
      exact inv.readers }

theorem Inv.close (errClose : Option Error) (idle : p.stage = .idle) (result : Option Error) :
    ({ (p.Close errClose).1 with
        closes := (p.Close errClose).1.closes ++ [result] } : Pipe).Inv := by
  have still : p.stage.count = 0 := by rw [idle]; rfl
  have called : ∀ closes : List (Option Error), closes ++ [result] ≠ [] :=
    fun closes => append_ne_nil_of_right_ne_nil _ (cons_ne_nil _ _)
  unfold Close
  split
  · exact { inv with closed := fun _ => ⟨rfl, still, called _⟩ }
  rename_i notDone
  split
  · exact { inv with closed := fun _ => ⟨rfl, still, called _⟩ }
  have alone := inv.sole (Bool.not_eq_true _ ▸ notDone)
  have ends : (p.rcursor.Unsubscribe 0).done = true := by simp [Unsubscribe, alone]
  exact { inv with
    closed := fun _ => ⟨rfl, still, called _⟩
    sole := fun open_ => by rw [ends] at open_; cases open_
    readers := fun pr member => (inv.readers pr member).mono (prefix_refl _)
      (Nat.le_refl _) (fun done => absurd done notDone) }

theorem Inv.openReader (fails : Bool) : (p.OpenReader fails).1.Inv := by
  unfold OpenReader
  split
  · exact inv
  split
  · exact inv
  exact { inv with
    listed := inv.listed.join rfl
    done := fun empty => absurd empty
      (append_ne_nil_of_right_ne_nil _ (cons_ne_nil _ _))
    readers := forall_joined inv.readers (.newReader _ _ _) }

theorem Inv.closeReader {reader : Nat} {pr : PipeReader} (found : p.readers[reader]? = some pr) :
    ({ p with wcursor := p.wcursor.Unsubscribe reader }.put reader
      { pr with closed := true }).Inv :=
  { inv with
    listed := inv.listed.close found
    done := fun empty => by
      change p.wcursor.subscribers.erase reader = [] at empty
      change (p.wcursor.done || (p.wcursor.subscribers.erase reader).isEmpty) = true
      rw [empty, isEmpty_nil, Bool.or_true]
    readers := forall_moved inv.readers
      { inv.reads found with } }

end

/-- What a step does to the pipe. A step of a reader that only concerns itself leaves it with what
is true of the file. -/
inductive Moves (p : Pipe) : Pipe → Prop
  | writer (stage : WriteStage) (count : stage.count = p.stage.count)
      (waits : ∀ b, stage = .waiting b → p.rcursor.pos < p.wcursor.pos) :
      Moves p { p with stage := stage }
  | writerNotified (b : List UInt8) (waiting : p.stage = .waiting b) :
      Moves p { p with
        rcursor := { p.rcursor with notified := p.rcursor.notified.erase 0 }
        stage := .checking b }
  | append (rest : List UInt8) (count n : Nat) (writing : p.stage = .writing rest count)
      (isOpen : p.fileClosed = false) :
      Moves p { p with
        file := p.file ++ rest.take n
        stage := .writing (rest.drop n) (count + (rest.take n).length) }
  | setPosition (n : Nat) (err : Option Error) (setting : p.stage = .setting n err) :
      Moves p { p with wcursor := p.wcursor.SetPosition (p.wcursor.pos + n), stage := .idle }
  | close (errClose result : Option Error) (idle : p.stage = .idle) :
      Moves p { (p.Close errClose).1 with closes := (p.Close errClose).1.closes ++ [result] }
  | openReader (fails : Bool) : Moves p (p.OpenReader fails).1
  | closeReader (reader : Nat) (pr : PipeReader) (found : p.readers[reader]? = some pr) :
      Moves p ({ p with wcursor := p.wcursor.Unsubscribe reader }.put reader
        { pr with closed := true })
  | reader (reader : Nat) (pr moved : PipeReader) (found : p.readers[reader]? = some pr)
      (closed : moved.closed = pr.closed) (position : moved.position = pr.position)
      (waits : ∀ mode, moved.stage = .waiting mode →
        pr.stage = .waiting mode ∨ p.wcursor.pos ≤ pr.position)
      (reads : p.Inv → Reads p.file p.wcursor.pos p.rcursor.done moved) :
      Moves p (p.put reader moved)
  | readerNotified (reader : Nat) (pr : PipeReader) (mode : Mode)
      (found : p.readers[reader]? = some pr) (waiting : pr.stage = .waiting mode) :
      Moves p ({ p with
        wcursor := { p.wcursor with notified := p.wcursor.notified.erase reader } }.put reader
        { pr with stage := .checking mode })
  | advance (reader : Nat) (pr : PipeReader) (mode : Mode) (n : Nat) (err : Option Error)
      (again : Bool) (found : p.readers[reader]? = some pr)
      (advancing : pr.stage = .advancing mode n err) :
      Moves p ({ p with rcursor := p.rcursor.SetPosition (pr.position + n) }.put reader
        ({ pr with position := pr.position + n }.proceed mode err again))

theorem step_moves {event : Event} (taken : p.step event = some next) : p.Moves next := by
  cases event with
  | write b =>
    simp only [step] at taken
    split at taken
    · rename_i idle
      cases taken
      exact .writer _ (by rw [idle]; rfl) nofun
    · cases taken
  | checkWrite =>
    simp only [step] at taken
    split at taken
    · rename_i b checking
      split at taken
      · rename_i behind
        cases taken
        exact .writer _ (by rw [checking]; rfl) (fun _ _ => behind)
      · cases taken
        exact .writer _ (by rw [checking]; rfl) nofun
    · cases taken
  | writerDone =>
    simp only [step] at taken
    split at taken
    · rename_i b waiting
      split at taken
      · cases taken
        exact .writer _ (by rw [waiting]; rfl) nofun
      · cases taken
    · cases taken
  | writerNotified =>
    simp only [step] at taken
    split at taken
    · rename_i b waiting
      obtain ⟨rcursor, received, rfl⟩ := map_eq_some_iff.mp taken
      cases receive_eq_some received
      exact .writerNotified b waiting
    · cases taken
  | append n =>
    simp only [step] at taken
    split at taken
    · rename_i rest count writing
      split at taken
      · cases taken
      rename_i isOpen
      cases taken
      exact .append rest count n writing (Bool.not_eq_true _ ▸ isOpen)
    · cases taken
  | written err =>
    simp only [step] at taken
    split at taken
    · rename_i rest count writing
      cases taken
      exact .writer _ (by rw [writing]; rfl) nofun
    · cases taken
  | setPosition =>
    simp only [step] at taken
    split at taken
    · rename_i n err setting
      cases taken
      exact .setPosition n err setting
    · cases taken
  | close errClose =>
    simp only [step] at taken
    split at taken
    · rename_i idle
      cases taken
      exact .close errClose _ idle
    · cases taken
  | openReader fails =>
    cases taken
    exact .openReader fails
  | closeReader reader =>
    obtain ⟨pr, found, rfl⟩ := map_eq_some_iff.mp taken
    exact .closeReader reader pr found
  | closeFile reader =>
    obtain ⟨pr, found, -, taken⟩ := guarded taken
    cases taken
    exact .reader reader pr _ found rfl rfl (fun _ waiting => .inl waiting)
      (fun inv => { inv.reads found with })
  | read reader | writeTo reader =>
    obtain ⟨pr, found, idle, taken⟩ := guarded taken
    cases taken
    exact .reader reader pr _ found rfl rfl nofun
      (fun inv => (inv.reads found).enter (by rw [idle]; rfl) nofun nofun)
  | checkRead reader =>
    obtain ⟨pr, found, taken⟩ := bind_eq_some_iff.mp taken
    split at taken
    · rename_i mode checking
      have still : pr.stage.count = 0 := by rw [checking]; rfl
      split at taken
      · rename_i caught
        cases taken
        exact .reader reader pr _ found rfl rfl (fun _ _ => .inr caught)
          (fun inv => (inv.reads found).enter still nofun nofun)
      · rename_i readable
        cases taken
        exact .reader reader pr _ found rfl rfl nofun (fun inv => (inv.reads found).enter still
          nofun (fun _ _ => .inl (Nat.lt_of_not_le readable)))
    · cases taken
  | readerDone reader =>
    obtain ⟨pr, found, taken⟩ := bind_eq_some_iff.mp taken
    split at taken
    · rename_i mode waiting
      obtain ⟨done, taken⟩ := ite_none_right_eq_some.mp taken
      cases taken
      exact .reader reader pr _ found rfl rfl nofun (fun inv => (inv.reads found).enter
        (by rw [waiting]; rfl) nofun (fun _ _ => .inr done))
    · cases taken
  | readerNotified reader =>
    obtain ⟨pr, found, taken⟩ := bind_eq_some_iff.mp taken
    split at taken
    · rename_i mode waiting
      obtain ⟨wcursor, received, rfl⟩ := map_eq_some_iff.mp taken
      cases receive_eq_some received
      exact .readerNotified reader pr mode found waiting
    · cases taken
  | readFile reader n fails =>
    obtain ⟨pr, found, taken⟩ := bind_eq_some_iff.mp taken
    split at taken
    · cases taken
    · rename_i mode _ waited
      cases taken
      refine .reader reader pr _ found rfl rfl nofun (fun inv => ?_)
      have within : p.wcursor.pos ≤ p.file.length := by
        rw [← inv.written]
        exact Nat.le_add_right _ _
      refine (inv.reads found).take (by rw [waited]; rfl) (Reads.fileRead_le _ _ _ _ _) ?_
      exact fun ends _ => (inv.reads found).fileRead_eof within waited ends
    · cases taken
  | sendfile reader n err =>
    obtain ⟨pr, found, taken⟩ := bind_eq_some_iff.mp taken
    split at taken
    · rename_i start waited
      split at taken
      · cases taken
        refine .reader reader pr _ found rfl rfl nofun (fun inv => ?_)
        refine (inv.reads found).take (by rw [waited]; rfl) ?_ ?_
        · exact (min_le_right _ _).trans (min_le_right _ _)
        · exact fun _ plain => absurd rfl (plain start)
      · rename_i ends
        cases taken
        exact .reader reader pr _ found rfl rfl nofun (fun inv => (inv.reads found).finish
          inv.written (fun done => (inv.closed done).2.1) waited ends)
    · cases taken
  | advance reader again =>
    obtain ⟨pr, found, taken⟩ := bind_eq_some_iff.mp taken
    split at taken
    · rename_i mode n err advancing
      cases taken
      exact .advance reader pr mode n err again found advancing
    · cases taken

theorem step_inv (event : Event) (inv : p.Inv) (taken : p.step event = some next) : next.Inv := by
  cases step_moves taken with
  | writer stage count waits => exact inv.stay count
  | writerNotified b waiting =>
    have stays : ({ p with stage := .checking b } : Pipe).Inv := inv.stay (by rw [waiting]; rfl)
    exact { stays with }
  | append rest count n writing isOpen => exact inv.append writing isOpen n
  | setPosition n err setting => exact inv.setPosition setting
  | close errClose result idle => exact inv.close errClose idle result
  | openReader fails => exact inv.openReader fails
  | closeReader reader pr found => exact inv.closeReader found
  | reader reader pr moved found closed position waits reads =>
    exact inv.put found closed (reads inv)
  | readerNotified reader pr mode found waiting =>
    have moved : (p.put reader { pr with stage := .checking mode }).Inv :=
      inv.put found rfl ((inv.reads found).enter (by rw [waiting]; rfl) nofun nofun)
    exact { moved with }
  | advance reader pr mode n err again found advancing =>
    have set := inv.setRcursor (pr.position + n)
    exact set.put found (PipeReader.proceed_closed _ _ _ _)
      ((set.reads found).advance advancing again)

/-- All readers were closed before the writer. -/
def Broken (p : Pipe) : Prop := p.wcursor.done = true ∧ p.rcursor.done = false

theorem Broken.openReader (broken : p.Broken) (fails : Bool) :
    p.OpenReader fails = (p, some .errWrongCloseOrder) := by
  simp [OpenReader, broken.1, broken.2]

theorem Broken.close (broken : p.Broken) (errClose : Option Error) :
    p.Close errClose = ({ p with fileClosed := true }, some .errWrongCloseOrder) := by
  simp [Close, broken.1, broken.2]

/-- Nothing mends the pipe. -/
theorem step_broken (event : Event) (broken : p.Broken) (taken : p.step event = some next) :
    next.Broken := by
  cases step_moves taken with
  | writer | writerNotified | append | reader | readerNotified => exact broken
  | setPosition n err setting => exact ⟨(SetPosition_done _ _).trans broken.1, broken.2⟩
  | close errClose result idle =>
    rw [broken.close]
    exact broken
  | openReader fails =>
    rw [broken.openReader]
    exact broken
  | closeReader reader pr found =>
    refine ⟨?_, broken.2⟩
    change (p.wcursor.done || _) = true
    rw [broken.1, Bool.true_or]
  | advance reader pr mode n err again found advancing =>
    exact ⟨broken.1, (SetPosition_done _ _).trans broken.2⟩

/-- Without open readers the pipe is broken, unless the writer is closed. -/
theorem Inv.broken (inv : p.Inv) (closed : ∀ pr ∈ p.readers, pr.closed = true)
    (unfinished : p.rcursor.done = false) : p.Broken := by
  refine ⟨inv.done (eq_nil_iff_forall_not_mem.mpr (fun reader member => ?_)), unfinished⟩
  obtain ⟨pr, found, isOpen⟩ := (inv.listed.subscribed reader).mp member
  rw [closed pr (mem_of_getElem? found)] at isOpen
  cases isOpen

end Pipe

/-- The readers receive the stream, its end only when it is complete, and a pipe that all readers
have left stays unusable. -/
structure Streams (p : Pipe) : Prop where
  received : ∀ pr ∈ p.readers, pr.received <+: p.file
  eof : ∀ pr ∈ p.readers, pr.atEOF = true →
    p.rcursor.done = true ∧ p.closes ≠ [] ∧ pr.received = p.file
  broken : (∀ pr ∈ p.readers, pr.closed = true) → p.rcursor.done = false →
    ∀ later, Reaches Pipe.step p later →
      (∀ fails, later.OpenReader fails = (later, some .errWrongCloseOrder)) ∧
        ∀ errClose, (later.Close errClose).2 = some .errWrongCloseOrder

theorem streams_of_reaches {p : Pipe} (reached : Reaches Pipe.step .newPipe p) :
    Streams p := by
  have inv : p.Inv := reached.invariant Pipe.Inv
    (fun _ event _ inv taken => Pipe.step_inv event inv taken) Pipe.newPipe_inv
  refine ⟨fun pr member => (inv.readers pr member).received, fun pr member atEOF => ?_, ?_⟩
  · obtain ⟨done, all⟩ := (inv.readers pr member).eof atEOF
    exact ⟨done, (inv.closed done).2.2, all⟩
  · intro closed unfinished later follows
    have broken : later.Broken := follows.invariant Pipe.Broken
      (fun _ event _ broken taken => Pipe.step_broken event broken taken)
      (inv.broken closed unfinished)
    exact ⟨broken.openReader, fun errClose => by rw [broken.close]⟩

/-- One reader leaves early, one uses sendfile and reads on to the end. -/
def streamed : List Event :=
  [.write [1, 2, 3], .checkWrite, .append 2, .openReader false, .append 1, .written none,
    .setPosition, .closeReader 0, .writeTo 1 true, .checkRead 1, .sendfile 1 5 none,
    .advance 1 true, .write [4], .checkWrite, .append 1, .written none, .setPosition, .close none,
    .checkRead 1, .sendfile 1 5 none, .advance 1 true, .checkRead 1, .readerDone 1,
    .sendfile 1 5 none]

theorem streamed_streams :
    (∃ p, exec Pipe.step .newPipe streamed = some p ∧ p.file = [1, 2, 3, 4] ∧
      p.readers.map (fun pr => (pr.received, pr.atEOF)) = [([], false), ([1, 2, 3, 4], true)]) ∧
      Streams ((exec Pipe.step .newPipe streamed).get (by decide)) :=
  ⟨⟨_, rfl, by decide, by decide⟩, streams_of_reaches (.of_exec (by decide))⟩

end Gitaly.Streamcache
