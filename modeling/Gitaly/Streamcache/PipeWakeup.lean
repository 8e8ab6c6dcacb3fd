import Gitaly.Streamcache.PipeStream

/- The two ends of a pipe wait for each other. `Write` and `waitReadable` test the cursors, then
block in a select on the notifier and on a done channel; whoever changes a cursor in between must
leave a notification. -/
namespace Gitaly.Streamcache

open Runs List Bool

namespace Cursor

variable (c : Cursor) {n : Nat} {pos : Nat}

/-- A subscriber that has been notified of a position if it was reached is so after the position
is set. -/
theorem SetPosition_announces {target : Nat} (subscribed : n ∈ c.subscribers)
    (before : target ≤ c.pos → n ∈ c.notified) (reached : target ≤ (c.SetPosition pos).pos) :
    n ∈ (c.SetPosition pos).notified := by
  rw [SetPosition_pos] at reached
  unfold SetPosition
  split
  · rename_i stays
    rw [max_eq_left stays] at reached
    exact before reached
  · by_cases pending : n ∈ c.notified
    · exact mem_append_left _ pending
    · exact mem_append_right _ (mem_filter.mpr ⟨subscribed, decide_eq_true pending⟩)

end Cursor

namespace Pipe

/-- If the writer is about to block although a reader has caught up or all readers are closed, the
select has something to receive. -/
def WriterWakes (p : Pipe) : Prop :=
  ∀ b, p.stage = .waiting b →
    (∃ pr ∈ p.readers, p.wcursor.pos ≤ pr.position) ∨ (∀ pr ∈ p.readers, pr.closed = true) →
    0 ∈ p.rcursor.notified ∨ p.wcursor.done = true

/-- If a reader is about to block although there are bytes beyond its position or the writer has
called `Close`, the select has something to receive. -/
def ReaderWakes (p : Pipe) (reader : Nat) (pr : PipeReader) : Prop :=
  ∀ mode, pr.stage = .waiting mode → pr.position < p.wcursor.pos ∨ p.closes ≠ [] →
    reader ∈ p.wcursor.notified ∨ p.rcursor.done = true

/-- A reader that is not closed has a notification when it waits behind the writer. -/
def Signalled (wcursor : Cursor) (reader : Nat) (pr : PipeReader) : Prop :=
  pr.closed = false → ∀ mode, pr.stage = .waiting mode → pr.position < wcursor.pos →
    reader ∈ wcursor.notified

structure Signals (p : Pipe) : Prop where
  writer : p.rcursor.done = false → ∀ b, p.stage = .waiting b → p.wcursor.pos ≤ p.rcursor.pos →
    0 ∈ p.rcursor.notified
  behind : ∀ pr ∈ p.readers, pr.position ≤ p.rcursor.pos
  readers : ∀ reader pr, p.readers[reader]? = some pr → Signalled p.wcursor reader pr
  -- a broken pipe has no open readers: none can be opened any more
  broken : p.Broken → p.wcursor.subscribers = []
  closes : p.closes ≠ [] → p.rcursor.done = true ∨ p.wcursor.done = true

variable {p next : Pipe} {reader : Nat} {pr moved : PipeReader}

theorem newPipe_signals : newPipe.Signals where
  writer := nofun
  behind := fun pr member => by rw [mem_singleton.mp member]; exact Nat.le_refl 0
  readers := by
    intro reader pr found
    rw [mem_singleton.mp (mem_of_getElem? found)]
    exact fun _ => nofun
  broken := nofun
  closes := fun called => absurd rfl called

section

variable (signals : p.Signals)
include signals

theorem Signals.put (behind : moved.position ≤ p.rcursor.pos)
    (signalled : Signalled p.wcursor reader moved) : (p.put reader moved).Signals :=
  { signals with
    behind := forall_moved signals.behind behind
    readers := indexed_moved (fun place other _ => signals.readers place other) signalled }

/-- What the writer announces reaches the readers that are not closed: they are subscribed. -/
theorem Signals.setPosition (inv : p.Inv) (pos : Nat) :
    ({ p with wcursor := p.wcursor.SetPosition pos, stage := .idle } : Pipe).Signals where
  writer := fun _ => nofun
  behind := signals.behind
  readers := by
    intro reader pr found isOpen mode waiting behind
    exact p.wcursor.SetPosition_announces
      ((inv.listed.subscribed reader).mpr ⟨pr, found, isOpen⟩)
      (signals.readers reader pr found isOpen mode waiting) behind
  broken := by
    rintro ⟨done, unfinished⟩
    rw [Cursor.SetPosition_done] at done
    rw [Cursor.SetPosition_subscribers]
    exact signals.broken ⟨done, unfinished⟩
  closes := by
    rw [Cursor.SetPosition_done]
    exact signals.closes

/-- What a reader announces reaches the writer unless it is closed. -/
theorem Signals.setRcursor (inv : p.Inv) (position : Nat) :
    ({ p with rcursor := p.rcursor.SetPosition position } : Pipe).Signals where
  writer := by
    intro unfinished b waiting reached
    rw [Cursor.SetPosition_done] at unfinished
    refine p.rcursor.SetPosition_announces ?_ (signals.writer unfinished b waiting) reached
    rw [inv.sole unfinished]
    exact mem_singleton_self 0
  behind := by
    intro pr member
    rw [Cursor.SetPosition_pos]
    exact (signals.behind pr member).trans (le_max_left _ _)
  readers := signals.readers
  broken := by
    rintro ⟨done, unfinished⟩
    rw [Cursor.SetPosition_done] at unfinished
    exact signals.broken ⟨done, unfinished⟩
  closes := by
    rw [Cursor.SetPosition_done]
    exact signals.closes

theorem Signals.close (inv : p.Inv) (errClose result : Option Error) :
    ({ (p.Close errClose).1 with
        closes := (p.Close errClose).1.closes ++ [result] } : Pipe).Signals := by
  unfold Close
  split
  · rename_i done
    exact { signals with closes := fun _ => .inl done }
  rename_i unfinished
  split
  · rename_i broken
    exact { signals with closes := fun _ => .inr broken }
  have alone := inv.sole (not_eq_true _ ▸ unfinished)
  have ends : (p.rcursor.Unsubscribe 0).done = true := by simp [Cursor.Unsubscribe, alone]
  exact { signals with
    writer := fun open_ => by rw [ends] at open_; cases open_
    broken := fun broken => by rw [Broken, ends] at broken; cases broken.2
    closes := fun _ => .inl ends }

theorem Signals.openReader (fails : Bool) : (p.OpenReader fails).1.Signals := by
  unfold OpenReader
  split
  · exact signals
  rename_i whole
  split
  · exact signals
  exact { signals with
    behind := forall_joined signals.behind (Nat.zero_le _)
    readers := indexed_joined signals.readers (fun _ => nofun)
    broken := fun ⟨done, unfinished⟩ =>
      absurd (and_eq_true_iff.mpr ⟨done, not_eq_true' _ ▸ unfinished⟩) whole }

theorem Signals.closeReader (found : p.readers[reader]? = some pr) :
    ({ p with wcursor := p.wcursor.Unsubscribe reader }.put reader
      { pr with closed := true }).Signals := by
  refine Signals.put (p := { p with wcursor := p.wcursor.Unsubscribe reader })
    { signals with
      broken := ?_
      closes := fun called => (signals.closes called).imp_right
        (fun done => or_eq_true_iff.mpr (.inl done)) }
    (signals.behind pr (mem_of_getElem? found)) nofun
  rintro ⟨done, unfinished⟩
  rcases or_eq_true_iff.mp done with before | left
  · change p.wcursor.subscribers.erase reader = []
    rw [signals.broken ⟨before, unfinished⟩]
    rfl
  · exact isEmpty_iff.mp left

end

theorem step_signals (event : Event) (inv : p.Inv) (signals : p.Signals)
    (taken : p.step event = some next) : next.Signals := by
  cases step_moves taken with
  | writer stage count waits =>
    -- the test that lets the writer wait is the one `Write` makes before the select
    exact { signals with
      writer := fun _ b waiting reached => absurd reached (waits b waiting).not_ge }
  | writerNotified | append => exact { signals with writer := fun _ => nofun }
  | setPosition n err setting => exact signals.setPosition inv _
  | close errClose result idle => exact signals.close inv errClose result
  | openReader fails => exact signals.openReader fails
  | closeReader reader pr found => exact signals.closeReader found
  | reader reader pr moved found closed position waits reads =>
    refine signals.put (position ▸ signals.behind pr (mem_of_getElem? found)) ?_
    intro isOpen mode waiting behind
    rw [position] at behind
    rw [closed] at isOpen
    rcases waits mode waiting with already | caught
    · exact signals.readers reader pr found isOpen mode already behind
    · exact absurd caught behind.not_ge
  | readerNotified reader pr mode found waiting =>
    refine { signals with
      behind := forall_moved signals.behind
        (signals.behind pr (mem_of_getElem? found))
      readers := indexed_moved ?_ (fun _ => nofun) }
    intro place other elsewhere there isOpen mode waiting behind
    exact (mem_erase_of_ne elsewhere).mpr
      (signals.readers place other there isOpen mode waiting behind)
  | advance reader pr mode n err again found advancing =>
    refine (signals.setRcursor inv (pr.position + n)).put ?_
      (fun _ mode waiting => absurd waiting (PipeReader.proceed_awake _ _ _ _ mode))
    rw [PipeReader.proceed_position, Cursor.SetPosition_pos]
    exact le_max_right _ _

theorem signals_of_reaches (reached : Reaches step newPipe p) : p.Inv ∧ p.Signals :=
  reached.invariant (fun p => p.Inv ∧ p.Signals)
    (fun _ event _ holds taken =>
      ⟨step_inv event holds.1 taken, step_signals event holds.1 holds.2 taken⟩)
    ⟨newPipe_inv, newPipe_signals⟩

theorem Signals.writerWakes (signals : p.Signals) (inv : p.Inv)
    (unfinished : p.rcursor.done = false) : p.WriterWakes := by
  rintro b waiting (⟨pr, member, caught⟩ | closed)
  · exact .inl (signals.writer unfinished b waiting (caught.trans (signals.behind pr member)))
  · exact .inr (inv.broken closed unfinished).1

theorem Signals.readerWakes (signals : p.Signals) (inv : p.Inv)
    (found : p.readers[reader]? = some pr) (isOpen : pr.closed = false) :
    p.ReaderWakes reader pr := by
  rintro mode waiting (behind | called)
  · exact .inl (signals.readers reader pr found isOpen mode waiting behind)
  · refine .inr ((signals.closes called).elim id (fun done => ?_))
    by_contra unfinished
    -- the writer could not close a broken pipe, but that has no open reader
    have subscribed : reader ∈ p.wcursor.subscribers :=
      (inv.listed.subscribed reader).mpr ⟨pr, found, isOpen⟩
    rw [signals.broken ⟨done, not_eq_true _ ▸ unfinished⟩] at subscribed
    cases subscribed

/-- No wake-up is lost at an end of the pipe that is not closed. -/
theorem no_lost_wakeup (reached : Reaches step newPipe p) :
    (p.rcursor.done = false → p.WriterWakes) ∧
      ∀ reader pr, p.readers[reader]? = some pr → pr.closed = false → p.ReaderWakes reader pr := by
  obtain ⟨inv, signals⟩ := signals_of_reaches reached
  exact ⟨signals.writerWakes inv, fun _ _ found isOpen => signals.readerWakes inv found isOpen⟩

/-- Two readers wait for the first byte; the first of them reads it while the writer waits with the
second byte. -/
def handover : List Event :=
  [.openReader false, .read 0 1, .checkRead 0, .read 1 1, .checkRead 1, .write [1], .checkWrite,
    .append 1, .written none, .setPosition, .readerNotified 0, .checkRead 0, .write [2],
    .checkWrite, .readFile 0 1 false, .advance 0 true]

theorem handover_wakes :
    ∃ p, Reaches step newPipe p ∧ p.stage = .waiting [2] ∧ 0 ∈ p.rcursor.notified ∧
      ∃ pr, p.readers[1]? = some pr ∧ pr.stage = .waiting (.read 1) ∧ 1 ∈ p.wcursor.notified := by
  refine ⟨_, ⟨handover, rfl⟩, rfl, ?_, _, rfl, rfl, ?_⟩
  · have wakes := (no_lost_wakeup ⟨handover, rfl⟩).1 rfl
    exact (wakes [2] rfl (.inl ⟨_, mem_cons_self, by decide⟩)).resolve_right nofun
  · have wakes := (no_lost_wakeup ⟨handover, rfl⟩).2 1 _ rfl rfl
    exact (wakes (.read 1) rfl (.inl (by decide))).resolve_right nofun

/-- A closed end is unsubscribed and sleeps on: a writer that writes again after `Close`, and a
reader that is closed while it waits. -/
theorem closed_ends_sleep :
    (∃ p, Reaches step newPipe p ∧ ¬ p.WriterWakes) ∧
      ∃ p, Reaches step newPipe p ∧ ∃ pr, p.readers[0]? = some pr ∧ ¬ p.ReaderWakes 0 pr := by
  constructor
  · refine ⟨_, ⟨[.write [1], .checkWrite, .append 1, .written none, .setPosition, .close none,
      .write [2], .checkWrite, .read 0 1, .checkRead 0, .readFile 0 1 false, .advance 0 true],
      rfl⟩, fun wakes => ?_⟩
    have woken := wakes [2] rfl (.inl ⟨_, mem_cons_self, by decide⟩)
    revert woken
    decide
  · refine ⟨_, ⟨[.read 0 1, .checkRead 0, .closeReader 0, .write [1], .checkWrite, .append 1,
      .written none, .setPosition], rfl⟩, _, rfl, fun wakes => ?_⟩
    have woken := wakes (.read 1) rfl (.inl (by decide))
    revert woken
    decide

/-- The writer and the readers never all sleep: a writer that has to wait waits for an open reader
that has bytes to read and is awake or about to be. -/
theorem writer_waits_for_awake (reached : Reaches step newPipe p)
    (unfinished : p.rcursor.done = false) {b : List UInt8} (waiting : p.stage = .waiting b) :
    (0 ∈ p.rcursor.notified ∨ p.wcursor.done = true) ∨
      ∃ (reader : Nat) (pr : PipeReader), p.readers[reader]? = some pr ∧ pr.closed = false ∧
        pr.position < p.wcursor.pos ∧
        ∀ mode, pr.stage = .waiting mode → reader ∈ p.wcursor.notified := by
  obtain ⟨inv, signals⟩ := signals_of_reaches reached
  by_cases woken : 0 ∈ p.rcursor.notified ∨ p.wcursor.done = true
  · exact .inl woken
  refine .inr ?_
  have asleep := mt (signals.writerWakes inv unfinished b waiting) woken
  push Not at asleep
  obtain ⟨behind, pr, member, isOpen⟩ := asleep
  obtain ⟨reader, found⟩ := mem_iff_getElem?.mp member
  have isOpen : pr.closed = false := not_eq_true _ ▸ isOpen
  exact ⟨reader, pr, found, isOpen, behind pr member, fun mode asleep =>
    signals.readers reader pr found isOpen mode asleep (behind pr member)⟩

/-- The writer waits with its second byte for a reader that has not read the first one. -/
theorem writer_waits_for_first :
    let p := (exec step newPipe (handover.take 14)).get rfl
    p.stage = .waiting [2] ∧ ∃ (reader : Nat) (pr : PipeReader), p.readers[reader]? = some pr ∧
      pr.position < p.wcursor.pos := by
  intro p
  have waiting : p.stage = .waiting [2] := rfl
  have reached : Reaches step newPipe p := Reaches.of_exec rfl
  have unnotified : ¬ (0 ∈ p.rcursor.notified ∨ p.wcursor.done = true) := by decide
  obtain ⟨reader, pr, found, -, behind, -⟩ :=
    (writer_waits_for_awake reached rfl waiting).resolve_left unnotified
  exact ⟨waiting, reader, pr, found, behind⟩

end Pipe

end Gitaly.Streamcache
