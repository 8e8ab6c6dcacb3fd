import Gitaly.Base.CappedLog
import Mathlib.Algebra.Order.Group.Int

/- The error tracker of internal/praefect/nodes/tracker/errors.go: per node, the times of the
last read and write errors, and whether there were too many of them lately. -/
namespace Gitaly.Praefect.Tracker

open CappedLog List

/-- Nanoseconds, of a point in time or of a duration. -/
abbrev Time := Int

structure ErrorTracker where
  errorWindow : Time
  readThreshold : Nat
  writeThreshold : Nat
  readErrors : String → List Time
  writeErrors : String → List Time
  /-- Whether `ctx` is done. -/
  done : Bool

inductive NewErrorsError where
  /-- errorWindow must be non zero -/
  | errorWindow
  /-- readThreshold must be non zero -/
  | readThreshold
  /-- writeThreshold must be non zero -/
  | writeThreshold
  deriving DecidableEq

namespace ErrorTracker

/-- A tracker that has seen no error. -/
def fresh (errorWindow : Time) (readThreshold writeThreshold : Nat) : ErrorTracker where
  errorWindow := errorWindow
  readThreshold := readThreshold
  writeThreshold := writeThreshold
  readErrors := fun _ => []
  writeErrors := fun _ => []
  done := false

def newErrors (errorWindow : Time) (readThreshold writeThreshold : Nat) :
    Except NewErrorsError ErrorTracker :=
  if errorWindow = 0 then .error .errorWindow
  else if readThreshold = 0 then .error .readThreshold
  else if writeThreshold = 0 then .error .writeThreshold
  else .ok (fresh errorWindow readThreshold writeThreshold)

variable (e : ErrorTracker)

def olderThan (now : Time) : Time := now - e.errorWindow

/-- The errors with another one, and without the first one if there are too many. -/
def record (threshold : Nat) (errors : List Time) (now : Time) : List Time :=
  let appended := errors ++ [now]
  if threshold < appended.length then appended.drop 1 else appended

variable (node : String)

def IncrReadErr (now : Time) : ErrorTracker :=
  if e.done then e
  else
    { e with
      readErrors := Function.update e.readErrors node
        (record e.readThreshold (e.readErrors node) now) }

def IncrWriteErr (now : Time) : ErrorTracker :=
  if e.done then e
  else
    { e with
      writeErrors := Function.update e.writeErrors node
        (record e.writeThreshold (e.writeErrors node) now) }

/-- The loop of the two functions below: it ends at the first error in the window. -/
def thresholdReached (threshold : Nat) (errors : List Time) (olderThanTime : Time) : Bool :=
  match errors.findIdx? (fun errTime => olderThanTime < errTime) with
  | none => false
  | some i =>
    if i = 0 then threshold ≤ errors.length
    else threshold ≤ (errors.drop (i - 1)).length

def ReadThresholdReached (now : Time) : Bool :=
  if e.done then false
  else thresholdReached e.readThreshold (e.readErrors node) (e.olderThan now)

def WriteThresholdReached (now : Time) : Bool :=
  if e.done then false
  else thresholdReached e.writeThreshold (e.writeErrors node) (e.olderThan now)

/-- The errors from the first one in the window on, or none. -/
def clearErrors (errs : String → List Time) (olderThan : Time) : String → List Time :=
  fun node =>
    match (errs node).findIdx? (fun errTime => olderThan < errTime) with
    | some i => (errs node).drop i
    | none => []

def clear (now : Time) : ErrorTracker :=
  { e with
    writeErrors := clearErrors e.writeErrors (e.olderThan now)
    readErrors := clearErrors e.readErrors (e.olderThan now) }

end ErrorTracker

inductive Call where
  | incrReadErr (node : String)
  | incrWriteErr (node : String)
  | clear
  deriving DecidableEq

/-- A call and the time of it. -/
abbrev TimedCall := Time × Call

def ErrorTracker.call (e : ErrorTracker) : TimedCall → ErrorTracker
  | (now, .incrReadErr node) => e.IncrReadErr node now
  | (now, .incrWriteErr node) => e.IncrWriteErr node now
  | (now, .clear) => e.clear now

def ErrorTracker.run (e : ErrorTracker) (calls : List TimedCall) : ErrorTracker :=
  calls.foldl ErrorTracker.call e

/-- How many calls recorded a certain error in the window. -/
def errorsSince (error : Call) (olderThan : Time) (calls : List TimedCall) : Nat :=
  calls.countP (fun (time, call) => call = error ∧ olderThan < time)

/-- No call to `clear` was late enough to remove an error. -/
def Spared (errorWindow time : Time) (calls : List TimedCall) : Prop :=
  ∀ later, (later, Call.clear) ∈ calls → later - errorWindow < time

/-- An error was recorded before the window and not removed since. -/
def Lingers (error : Call) (errorWindow olderThan : Time) (calls : List TimedCall) : Prop :=
  ∃ time, time ≤ olderThan ∧ ∃ before after, calls = before ++ (time, error) :: after ∧
    Spared errorWindow time after

/-- One error is missing in the window, and one before the window is still there. -/
def Overcounts (threshold : Nat) (error : Call) (errorWindow now : Time)
    (calls : List TimedCall) : Prop :=
  1 ≤ errorsSince error (now - errorWindow) calls ∧
    errorsSince error (now - errorWindow) calls + 1 = threshold ∧
    Lingers error errorWindow (now - errorWindow) calls

section log

variable {log : List Time} (sorted : log.Pairwise (· ≤ ·))

include sorted

theorem clearErrors_eq_since {errs : String → List Time} {node : String} {olderThan : Time}
    (isLog : errs node = log) :
    ErrorTracker.clearErrors errs olderThan node = since olderThan log := by
  rw [ErrorTracker.clearErrors, isLog, findIdx?_since sorted]
  by_cases none : since olderThan log = []
  · rw [if_pos none, none]
  · rw [if_neg none]
    exact drop_upTo sorted olderThan

/-- The error before the first one in the window is counted as well. -/
theorem thresholdReached_rtake_iff {threshold : Nat} (positive : 0 < threshold) (olderThan : Time) :
    ErrorTracker.thresholdReached threshold (log.rtake threshold) olderThan = true ↔
      threshold ≤ (since olderThan log).length ∨
        1 ≤ (since olderThan log).length ∧
          (since olderThan log).length + 1 = threshold ∧
          ∃ time ∈ log, time ≤ olderThan := by
  have keptSorted : (log.rtake threshold).Pairwise (· ≤ ·) := sorted.sublist (drop_sublist _ _)
  have recent := congrArg length (since_rtake sorted olderThan threshold)
  have kept := length_upTo_add_since keptSorted olderThan
  have count := length_upTo_add_since sorted olderThan
  have lengths : ∀ entries : List Time, (entries.rtake threshold).length =
      min entries.length threshold := by
    intro entries
    rw [rtake, length_drop]
    omega
  have old : (∃ time ∈ log, time ≤ olderThan) ↔ 0 < (upTo olderThan log).length := by
    rw [length_pos_iff_exists_mem]
    simp only [mem_upTo]
  rw [lengths] at recent
  rw [old, ErrorTracker.thresholdReached, findIdx?_since keptSorted]
  rw [lengths] at kept
  by_cases none : since olderThan (log.rtake threshold) = []
  · rw [if_pos none]
    rw [none, length_nil] at recent
    simp only [Bool.false_eq_true, false_iff]
    omega
  · have some_recent := length_pos_of_ne_nil none
    rw [if_neg none]
    dsimp only
    split
    · rw [decide_eq_true_iff, lengths]
      omega
    · rw [decide_eq_true_iff, length_drop, lengths]
      omega

end log

section pending

/-- The errors that a tracker would keep if it had no bound on their number. -/
def pendingStep (error : Call) (errorWindow : Time) (log : List Time) : TimedCall → List Time
  | (now, call) =>
    if call = error then log ++ [now]
    else if call = .clear then since (now - errorWindow) log
    else log

def pending (error : Call) (errorWindow : Time) (calls : List TimedCall) : List Time :=
  calls.foldl (pendingStep error errorWindow) []

variable {error : Call} {errorWindow : Time} {calls : List TimedCall}

theorem pending_snoc (now : Time) (call : Call) :
    pending error errorWindow (calls ++ [(now, call)]) =
      pendingStep error errorWindow (pending error errorWindow calls) (now, call) := by
  rw [pending, foldl_append]
  rfl

/-- An element of a list and what follows it, if the list grows at its end. -/
theorem exists_split_snoc {α : Type} {list : List α} {last element : α}
    (following : List α → Prop) :
    (∃ before after, list ++ [last] = before ++ element :: after ∧ following after) ↔
      last = element ∧ following [] ∨
        ∃ before after, list = before ++ element :: after ∧ following (after ++ [last]) := by
  constructor
  · intro found
    obtain ⟨before, after, split, holds⟩ := found
    rcases eq_nil_or_concat after with rfl | ⟨rest, final, rfl⟩
    · obtain ⟨-, same⟩ := append_inj' split rfl
      exact .inl ⟨(cons.inj same).1, holds⟩
    rw [concat_eq_append] at split holds
    rw [← cons_append, ← append_assoc] at split
    obtain ⟨same, isLast⟩ := append_inj' split rfl
    cases isLast
    exact .inr ⟨before, rest, same, holds⟩
  · intro found
    rcases found with ⟨rfl, holds⟩ | ⟨before, after, rfl, holds⟩
    · exact ⟨list, [], rfl, holds⟩
    · exact ⟨before, after ++ [last], by simp, holds⟩

theorem spared_snoc_clear {time now : Time} :
    Spared errorWindow time (calls ++ [(now, .clear)]) ↔
      Spared errorWindow time calls ∧ now - errorWindow < time := by
  simp only [Spared, mem_append, mem_singleton, Prod.mk.injEq, and_true, or_imp,
    forall_and, forall_eq]

theorem spared_snoc_error {time now : Time} {call : Call} (isError : call ≠ .clear) :
    Spared errorWindow time (calls ++ [(now, call)]) ↔ Spared errorWindow time calls := by
  simp only [Spared, mem_append, mem_singleton, Prod.mk.injEq, isError.symm, and_false, or_false]

theorem mem_pending {time : Time} (isError : error ≠ .clear) :
    time ∈ pending error errorWindow calls ↔ ∃ before after,
      calls = before ++ (time, error) :: after ∧ Spared errorWindow time after := by
  induction calls using reverseRecOn with
  | nil => simp [pending]
  | append_singleton calls last ih =>
    obtain ⟨now, call⟩ := last
    have none : Spared errorWindow time [] := fun _ absent => absurd absent not_mem_nil
    rw [pending_snoc, exists_split_snoc (Spared errorWindow time)]
    unfold pendingStep
    dsimp only
    by_cases recorded : call = error
    · subst recorded
      simp only [if_true, mem_append, mem_singleton, ih, spared_snoc_error isError,
        Prod.mk.injEq, and_true, none, eq_comm, or_comm]
    · rw [if_neg recorded]
      by_cases cleared : call = .clear
      · subst cleared
        simp only [if_true, mem_since, ih, spared_snoc_clear, Prod.mk.injEq, recorded,
          and_false, false_and, false_or, ← and_assoc, exists_and_right]
      · simp only [cleared, if_false, ih, spared_snoc_error cleared, Prod.mk.injEq, recorded,
          and_false, false_and, false_or]

theorem lingers_iff {olderThan : Time} (isError : error ≠ .clear) :
    Lingers error errorWindow olderThan calls ↔
      ∃ time ∈ pending error errorWindow calls, time ≤ olderThan := by
  simp only [Lingers, mem_pending isError]
  exact exists_congr (fun time => and_comm)

theorem pending_mem_calls {time : Time} (isError : error ≠ .clear)
    (member : time ∈ pending error errorWindow calls) : (time, error) ∈ calls := by
  obtain ⟨before, after, rfl, -⟩ := (mem_pending isError).mp member
  exact mem_append_right _ mem_cons_self

/-- Calls at times that do not go back. -/
abbrev InOrder (calls : List TimedCall) : Prop := (calls.map Prod.fst).Pairwise (· ≤ ·)

theorem inOrder_snoc {last : TimedCall} :
    InOrder (calls ++ [last]) ↔ InOrder calls ∧ ∀ call ∈ calls, call.1 ≤ last.1 := by
  simp [InOrder, pairwise_append]

theorem pending_sorted (isError : error ≠ .clear) (order : InOrder calls) :
    (pending error errorWindow calls).Pairwise (· ≤ ·) := by
  induction calls using reverseRecOn with
  | nil => exact List.Pairwise.nil
  | append_singleton calls last ih =>
    obtain ⟨now, call⟩ := last
    obtain ⟨before, latest⟩ := inOrder_snoc.mp order
    have sorted := ih before
    rw [pending_snoc]
    unfold pendingStep
    dsimp only
    split
    · rw [pairwise_append]
      refine ⟨sorted, pairwise_singleton _ _, ?_⟩
      intro time member now isLast
      rw [mem_singleton.mp isLast]
      exact latest _ (pending_mem_calls isError member)
    · split
      · exact sorted.sublist filter_sublist
      · exact sorted

theorem errorsSince_append (error : Call) (olderThan : Time) (calls later : List TimedCall) :
    errorsSince error olderThan (calls ++ later) =
      errorsSince error olderThan calls + errorsSince error olderThan later :=
  countP_append

/-- Nothing in the window is ever removed. -/
theorem length_since_pending {olderThan : Time} (isError : error ≠ .clear)
    (recent : ∀ later, (later, Call.clear) ∈ calls → later - errorWindow ≤ olderThan) :
    (since olderThan (pending error errorWindow calls)).length =
      errorsSince error olderThan calls := by
  induction calls using reverseRecOn with
  | nil => rfl
  | append_singleton calls last ih =>
    obtain ⟨now, call⟩ := last
    have before := ih (fun later member => recent later (mem_append_left _ member))
    rw [pending_snoc, errorsSince_append, ← before]
    unfold pendingStep
    dsimp only
    by_cases recorded : call = error
    · subst recorded
      rw [if_pos rfl, since, filter_append, length_append, ← since]
      by_cases inWindow : olderThan < now <;> simp [errorsSince, inWindow]
    · rw [if_neg recorded]
      have none : errorsSince error olderThan [(now, call)] = 0 := by simp [errorsSince, recorded]
      rw [none, Nat.add_zero]
      by_cases cleared : call = .clear
      · subst cleared
        rw [if_pos rfl, since_since (recent now (by simp))]
      · rw [if_neg cleared]

end pending

section tracker

variable {errorWindow : Time} {readThreshold writeThreshold : Nat} {calls : List TimedCall}

namespace ErrorTracker

theorem run_snoc (e : ErrorTracker) (last : TimedCall) :
    e.run (calls ++ [last]) = (e.run calls).call last := by
  rw [run, foldl_append]
  rfl

/-- A tracker keeps the last pending errors of each kind and node, up to the threshold. -/
structure Keeps (e : ErrorTracker) (errorWindow : Time) (readThreshold writeThreshold : Nat)
    (calls : List TimedCall) : Prop where
  window : e.errorWindow = errorWindow
  read : e.readThreshold = readThreshold
  write : e.writeThreshold = writeThreshold
  live : e.done = false
  readErrors : ∀ node, e.readErrors node =
    (pending (.incrReadErr node) errorWindow calls).rtake readThreshold
  writeErrors : ∀ node, e.writeErrors node =
    (pending (.incrWriteErr node) errorWindow calls).rtake writeThreshold

variable {threshold : Nat} {errs : String → List Time} {now : Time}

theorem clearErrors_rtake {error : Call} {node : String} (isError : error ≠ .clear)
    (order : InOrder calls) (kept : errs node = (pending error errorWindow calls).rtake threshold) :
    clearErrors errs (now - errorWindow) node =
      (pending error errorWindow (calls ++ [(now, .clear)])).rtake threshold := by
  have sorted : (pending error errorWindow calls).Pairwise (· ≤ ·) := pending_sorted isError order
  rw [clearErrors_eq_since (sorted.sublist (drop_sublist _ _)) kept, ← rtake,
    since_rtake sorted, pending_snoc, pendingStep, if_neg isError.symm, if_pos rfl]

theorem record_rtake {error : Call} :
    record threshold ((pending error errorWindow calls).rtake threshold) now =
      (pending error errorWindow (calls ++ [(now, error)])).rtake threshold := by
  rw [pending_snoc, pendingStep, if_pos rfl, rtake_snoc, record]

theorem pending_other {error call : Call} (isError : call ≠ .clear) (other : call ≠ error) :
    pending error errorWindow (calls ++ [(now, call)]) = pending error errorWindow calls := by
  rw [pending_snoc, pendingStep, if_neg other, if_neg isError]

theorem update_record {error : String → Call} (injective : Function.Injective error)
    (isError : ∀ node, error node ≠ .clear)
    (kept : ∀ node, errs node = (pending (error node) errorWindow calls).rtake threshold)
    (node : String) (now : Time) (other : String) :
    Function.update errs node (record threshold (errs node) now) other =
      (pending (error other) errorWindow (calls ++ [(now, error node)])).rtake threshold := by
  by_cases same : other = node
  · subst same
    rw [Function.update_self, kept, record_rtake]
  · rw [Function.update_of_ne same, kept,
      pending_other (isError node) (fun equal => same (injective equal).symm)]

theorem call_keeps {e : ErrorTracker} {last : TimedCall}
    (keeps : e.Keeps errorWindow readThreshold writeThreshold calls) (order : InOrder calls) :
    (e.call last).Keeps errorWindow readThreshold writeThreshold (calls ++ [last]) := by
  obtain ⟨now, call⟩ := last
  have live : ¬ e.done = true := by simp [keeps.live]
  cases call with
  | incrReadErr node =>
    rw [ErrorTracker.call, IncrReadErr, if_neg live]
    refine ⟨keeps.window, keeps.read, keeps.write, keeps.live, ?_, ?_⟩
    · rw [keeps.read]
      exact update_record (fun _ _ => Call.incrReadErr.inj) (by simp) keeps.readErrors node now
    · intro other
      rw [keeps.writeErrors, pending_other (by simp) (by simp)]
  | incrWriteErr node =>
    rw [ErrorTracker.call, IncrWriteErr, if_neg live]
    refine ⟨keeps.window, keeps.read, keeps.write, keeps.live, ?_, ?_⟩
    · intro other
      rw [keeps.readErrors, pending_other (by simp) (by simp)]
    · rw [keeps.write]
      exact update_record (fun _ _ => Call.incrWriteErr.inj) (by simp) keeps.writeErrors node now
  | clear =>
    refine ⟨keeps.window, keeps.read, keeps.write, keeps.live, ?_, ?_⟩
    · intro node
      rw [← clearErrors_rtake (by simp) order (keeps.readErrors node), ← keeps.window]
      rfl
    · intro node
      rw [← clearErrors_rtake (by simp) order (keeps.writeErrors node), ← keeps.window]
      rfl

theorem run_keeps (order : InOrder calls) :
    ((fresh errorWindow readThreshold writeThreshold).run calls).Keeps errorWindow readThreshold
      writeThreshold calls := by
  induction calls using reverseRecOn with
  | nil =>
    have none : ∀ error threshold, (pending error errorWindow []).rtake threshold = [] :=
      fun _ threshold => rtake_nil threshold
    exact ⟨rfl, rfl, rfl, rfl, fun _ => (none _ _).symm, fun _ => (none _ _).symm⟩
  | append_singleton calls last ih =>
    have before := (inOrder_snoc.mp order).1
    rw [run_snoc]
    exact call_keeps (ih before) before

theorem thresholdReached_pending_iff {error : Call} (isError : error ≠ .clear)
    (positive : 0 < threshold) (order : InOrder calls) (past : ∀ call ∈ calls, call.1 ≤ now) :
    ((thresholdReached threshold ((pending error errorWindow calls).rtake threshold)
          (now - errorWindow) = true ↔
        threshold ≤ errorsSince error (now - errorWindow) calls) ↔
      ¬ Overcounts threshold error errorWindow now calls) := by
  have recent : ∀ later, (later, Call.clear) ∈ calls → later - errorWindow ≤ now - errorWindow := by
    intro later member
    exact Int.sub_le_sub_right (past _ member) errorWindow
  rw [thresholdReached_rtake_iff (pending_sorted isError order) positive,
    length_since_pending isError recent, ← lingers_iff isError, Overcounts]
  constructor
  · intro exact overcounts
    have reached := exact.mp (.inr overcounts)
    omega
  · intro right
    constructor
    · intro counted
      exact counted.resolve_right right
    · exact .inl

/-- The thresholds are reported as reached exactly when enough errors were recorded in the
window, unless one is missing and an error from before the window stands in for it. -/
theorem thresholdReached_iff {now : Time} (positiveRead : 0 < readThreshold)
    (positiveWrite : 0 < writeThreshold) (order : InOrder calls)
    (past : ∀ call ∈ calls, call.1 ≤ now) (node : String) :
    let e := (fresh errorWindow readThreshold writeThreshold).run calls
    ((e.ReadThresholdReached node now = true ↔
          readThreshold ≤ errorsSince (.incrReadErr node) (now - errorWindow) calls) ↔
        ¬ Overcounts readThreshold (.incrReadErr node) errorWindow now calls) ∧
      ((e.WriteThresholdReached node now = true ↔
          writeThreshold ≤ errorsSince (.incrWriteErr node) (now - errorWindow) calls) ↔
        ¬ Overcounts writeThreshold (.incrWriteErr node) errorWindow now calls) := by
  have keeps : ((fresh errorWindow readThreshold writeThreshold).run calls).Keeps errorWindow
    readThreshold writeThreshold calls := run_keeps order
  simp only [ReadThresholdReached, WriteThresholdReached, keeps.live, Bool.false_eq_true, if_false,
    keeps.readErrors, keeps.writeErrors, keeps.read, keeps.write, olderThan, keeps.window]
  exact ⟨thresholdReached_pending_iff (by simp) positiveRead order past,
    thresholdReached_pending_iff (by simp) positiveWrite order past⟩

/-- Two errors, only the second one of which is in the window. -/
def stale : List TimedCall := [(0, .incrReadErr "gitaly-1"), (15, .incrReadErr "gitaly-1")]

theorem stale_overcounts :
    ((fresh 10 2 2).run stale).ReadThresholdReached "gitaly-1" 20 = true ∧
      errorsSince (.incrReadErr "gitaly-1") (20 - 10) stale = 1 := by
  decide

/-- Once the first error is cleared, the second one does not reach the threshold. -/
theorem cleared_not_reached :
    ((fresh 10 2 2).run (stale ++ [(16, .clear)])).ReadThresholdReached "gitaly-1" 20 = true ↔
      2 ≤ errorsSince (.incrReadErr "gitaly-1") (20 - 10) (stale ++ [(16, .clear)]) := by
  refine (thresholdReached_iff (by decide) (by decide) (by decide) (by decide) "gitaly-1").1.mpr ?_
  intro overcounts
  obtain ⟨time, old, lingering⟩ := overcounts.2.2
  have isPending := (mem_pending (by decide)).mpr lingering
  have all : ∀ time ∈ pending (.incrReadErr "gitaly-1") 10 (stale ++ [(16, .clear)]),
      ¬ time ≤ 20 - 10 := by decide
  exact all time isPending old

end ErrorTracker

end tracker

end Gitaly.Praefect.Tracker
