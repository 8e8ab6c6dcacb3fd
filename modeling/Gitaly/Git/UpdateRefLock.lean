import Gitaly.Git.UpdateRefCall

/- Who holds the lock of a reference, among all calls of `UpdateReference` and other writers, and
whether it is held when the prepared vote is cast. -/
namespace Gitaly.Updateref

open Runs Text List Function Option

namespace World

structure Inv (w : World) : Prop where
  calls : ∀ i call, w.calls[i]? = some call → call.Inv ∧
    (call.Holds → w.locks call.update.reference = some (.update i) ∧
      w.values call.update.reference = call.update.oldvalue)
  owned : ∀ reference i, w.locks reference = some (.update i) →
    ∃ call, w.calls[i]? = some call ∧ call.Holds ∧ call.update.reference = reference

theorem start_inv (values : String → Bytes) : (start values).Inv where
  calls := by
    intro i call absent
    cases absent
  owned := by
    intro reference i absent
    cases absent

section inv

variable {w after : World} {i : Nat} {call next : Call}

section

variable (inv : w.Inv) (found : w.calls[i]? = some call)
include inv found

/-- One call or its process changes, and nothing that another one has locked. -/
theorem Inv.change (calls : after.calls = w.calls.set i next) (nextInv : next.Inv)
    (own : next.Holds → after.locks next.update.reference = some (.update i) ∧
      after.values next.update.reference = next.update.oldvalue)
    (others : ∀ reference j, j ≠ i → w.locks reference = some (.update j) →
      after.locks reference = some (.update j) ∧ after.values reference = w.values reference)
    (owned : ∀ reference j, after.locks reference = some (.update j) →
      j ≠ i ∧ w.locks reference = some (.update j) ∨
        j = i ∧ next.Holds ∧ next.update.reference = reference) : after.Inv := by
  refine ⟨?_, ?_⟩
  · rw [calls]
    refine indexed_moved (fun j other different isOther => ?_) ⟨nextInv, own⟩
    obtain ⟨otherInv, holds⟩ := inv.calls j other isOther
    refine ⟨otherInv, fun held => ?_⟩
    obtain ⟨locked, value⟩ := holds held
    obtain ⟨still, same⟩ := others _ j different locked
    exact ⟨still, same.trans value⟩
  · intro reference j locked
    rw [calls]
    rcases owned reference j locked with ⟨different, before⟩ | ⟨rfl, holds, same⟩
    · obtain ⟨other, isOther, held⟩ := inv.owned reference j before
      exact ⟨other, by rw [getElem?_set_ne (Ne.symm different), isOther], held⟩
    · refine ⟨next, ?_, holds, same⟩
      rw [List.getElem?_set_self (List.getElem?_eq_some_iff.mp found).1]

theorem Inv.put (update : next.update = call.update) (holds : next.Holds ↔ call.Holds)
    (nextInv : next.Inv) :
    (w.put i next).Inv := by
  refine inv.change found rfl nextInv (fun held => ?_) (fun _ _ _ locked => ⟨locked, rfl⟩) ?_
  · rw [update]
    exact (inv.calls i call found).2 (holds.mp held)
  · intro reference j locked
    by_cases same : j = i
    · subst same
      obtain ⟨other, isOther, held, named⟩ := inv.owned reference j locked
      obtain rfl := some.inj (found.symm.trans isOther)
      exact .inr ⟨rfl, holds.mpr held, update ▸ named⟩
    · exact .inl ⟨same, locked⟩

/-- The locks of one call are released, with or without its updates. -/
theorem Inv.releases (calls : after.calls = w.calls.set i next) (nextInv : next.Inv)
    (free : ¬ next.Holds) (locks : after.locks = (w.release i).locks)
    (values : ∀ reference j, j ≠ i → w.locks reference = some (.update j) →
      after.values reference = w.values reference) : after.Inv := by
  refine inv.change found calls nextInv (fun holds => absurd holds free) ?_ ?_
  · intro reference j different locked
    refine ⟨?_, values reference j different locked⟩
    rw [locks]
    have other : w.locks reference ≠ some (.update i) := by
      rw [locked]
      exact fun same => different (Holder.update.inj (some.inj same))
    exact (if_neg other).trans locked
  · intro reference j locked
    rw [locks] at locked
    by_cases mine : w.locks reference = some (.update i)
    · rw [show (w.release i).locks reference = none from if_pos mine] at locked
      cases locked
    · rw [show (w.release i).locks reference = w.locks reference from if_neg mine] at locked
      exact .inl ⟨fun same => mine (same ▸ locked), locked⟩

theorem Inv.exit (success : Bool) : (w.exit i call success).Inv := by
  obtain ⟨valid, progress, reported, acknowledged⟩ := (inv.calls i call found).1
  refine inv.releases found rfl ⟨valid, progress, reported, acknowledged⟩ (fun holds => ?_) rfl
    (fun _ _ _ _ => rfl)
  cases holds.1

end

variable {update : RefUpdate}

theorem lockable_singleton (valid : update.oldvalue ≠ []) :
    w.Lockable [update] ↔
      w.locks update.reference = none ∧ w.values update.reference = update.oldvalue := by
  simp [Lockable, valid]

theorem Inv.prepare (inv : w.Inv) (found : w.calls[i]? = some call)
    (same : next.update = call.update) (nextInv : next.Inv) (holds : next.Holds)
    (free : w.locks call.update.reference = none)
    (value : w.values call.update.reference = call.update.oldvalue) :
    ((w.take i [call.update]).put i next).Inv := by
  have lock : ∀ reference, (w.take i [call.update]).locks reference =
      if reference = call.update.reference then some (.update i) else w.locks reference := by
    intro reference
    simp [take]
  refine inv.change found rfl nextInv (fun _ => ?_) ?_ ?_
  · rw [same]
    exact ⟨(lock _).trans (if_pos rfl), value⟩
  · intro reference j _ locked
    have other : reference ≠ call.update.reference := by
      rintro rfl
      rw [free] at locked
      cases locked
    exact ⟨((lock reference).trans (if_neg other)).trans locked, rfl⟩
  · intro reference j locked
    have locked := (lock reference).symm.trans locked
    split at locked
    · rename_i isOwn
      cases locked
      exact .inr ⟨rfl, holds, same ▸ isOwn.symm⟩
    · rename_i elsewhere
      refine .inl ⟨fun isOwn => ?_, locked⟩
      -- The process has locked no other reference.
      obtain ⟨other, isOther, -, named⟩ := inv.owned reference j locked
      subst isOwn
      obtain rfl := some.inj (found.symm.trans isOther)
      exact elsewhere named.symm

theorem apply_values_of_ne (w : World) {reference : String} (other : update.reference ≠ reference) :
    (w.apply [update]).values reference = w.values reference := by
  dsimp only [World.apply]
  rw [find?_cons_of_neg (by simpa using other), find?_nil]

section

variable (inv : w.Inv) (found : w.calls[i]? = some call)
include inv found

theorem Inv.commit (held : call.Holds) (nextInv : next.Inv) (free : ¬ next.Holds) :
    (((w.apply [call.update]).release i).put i next).Inv := by
  refine inv.releases found rfl nextInv free rfl (fun reference j different locked => ?_)
  have other : call.update.reference ≠ reference := by
    rintro rfl
    have own := ((inv.calls i call found).2 held).1
    exact different (Holder.update.inj (some.inj (locked.symm.trans own)))
  exact apply_values_of_ne w other

theorem Inv.executeCommand {command : Command} {rest : List Command}
    (read : call.cmd.stdin = command :: rest) (running : call.cmd.exited = none) :
    (w.executeCommand i call command rest).Inv := by
  obtain ⟨callInv, -⟩ := inv.calls i call found
  obtain ⟨state, queued, executes, further⟩ := callInv.executed read
  have valid := callInv.valid
  obtain ⟨update, verify, stage, flushes, stdin, closed, before, pending, stdout, exited⟩ := call
  dsimp only at executes further valid running
  have printed : ∀ report, .prepare ∈ stdout ++ (if flushes then [report] else []) →
      .prepare ∈ stdout ∨ Command.setState report = .setState .prepare := by
    intro report member
    rcases mem_append.mp member with old | new
    · exact .inl old
    split at new
    · exact .inr (congrArg Command.setState (mem_singleton.mp new).symm)
    · cases new
  cases executes with
  | start =>
    refine inv.put found rfl (iff_of_false ?_ ?_) (further _ (printed .start))
    all_goals
      rintro ⟨-, prepared⟩
      cases prepared
  | update =>
    refine inv.put found rfl (iff_of_false ?_ ?_) (further stdout .inl)
    all_goals
      rintro ⟨-, prepared⟩
      cases prepared
  | prepare =>
    unfold World.executeCommand
    dsimp only [UpdateRefsState.next]
    split
    · rename_i lockable
      obtain ⟨free, value⟩ := (lockable_singleton valid).mp lockable
      exact inv.prepare found rfl (further _ (printed .prepare)) ⟨running, rfl⟩ free value
    · exact inv.exit found false
  | commit =>
    have applied := inv.commit found ⟨running, rfl⟩ (further _ (printed .commit)) (fun holds => by
      cases holds.2)
    unfold World.executeCommand
    dsimp only [UpdateRefsState.next]
    rw [if_pos (.inl rfl)]
    exact applied

theorem Inv.finish : (w.finish i call).Inv := by
  unfold World.finish
  split
  · rename_i opened
    obtain ⟨done, progress, -⟩ := (inv.calls i call found).1.progress
    rw [progress.queued_of_opened opened]
    split
    · exact inv.exit found true
    · exact inv.exit found false
  · exact inv.exit found true

end

theorem onCall_eq_some {act : Call → Option World} :
    w.onCall i act = some after ↔ ∃ call, w.calls[i]? = some call ∧ act call = some after :=
  bind_eq_some_iff

/-- Somebody else changes a reference that no call has locked. -/
theorem Inv.elsewhere (inv : w.Inv) (reference : String) (calls : after.calls = w.calls)
    (free : ∀ j, w.locks reference ≠ some (.update j))
    (still : ∀ j, after.locks reference ≠ some (.update j))
    (rest : ∀ name ≠ reference,
      after.locks name = w.locks name ∧ after.values name = w.values name) : after.Inv := by
  refine ⟨fun j call found => ?_, fun name j locked => ?_⟩
  · obtain ⟨callInv, holds⟩ := inv.calls j call (calls ▸ found)
    refine ⟨callInv, fun held => ?_⟩
    obtain ⟨locked, isOld⟩ := holds held
    obtain ⟨lock, value⟩ := rest call.update.reference (fun same => free j (same ▸ locked))
    exact ⟨lock.trans locked, value.trans isOld⟩
  · rw [calls]
    by_cases same : name = reference
    · exact absurd (same ▸ locked) (still j)
    · exact inv.owned name j ((rest name same).1.symm.trans locked)

theorem Inv.new (inv : w.Inv) (valid : update.oldvalue ≠ []) (verifyStateChanges flushes : Bool) :
    Inv { w with calls := w.calls ++ [.new update verifyStateChanges flushes] } := by
  refine ⟨indexed_joined inv.calls ⟨⟨valid, ⟨[], .opened, nil_prefix, ?_⟩, ?_, ?_⟩, ?_⟩, ?_⟩
  · exact fun written isWritten => some.inj isWritten
  · exact fun absent => absurd absent not_mem_nil
  · rintro - prepared
    cases prepared
  · rintro ⟨-, prepared⟩
    cases prepared
  · intro reference j locked
    obtain ⟨call, found, held⟩ := inv.owned reference j locked
    refine ⟨call, ?_, held⟩
    rw [List.getElem?_append_left (List.getElem?_eq_some_iff.mp found).1, found]

theorem step_inv {event : Event} (inv : w.Inv) (taken : w.step event = some after) : after.Inv := by
  cases event with
  | new update verifyStateChanges flushes =>
    unfold step at taken
    dsimp only at taken
    split at taken
    · rename_i accepted
      cases taken
      refine inv.new (fun empty => ?_) verifyStateChanges flushes
      rw [empty] at accepted
      cases accepted.2.1
    · cases taken
      exact inv
  | advance i =>
    obtain ⟨call, found, advanced⟩ := onCall_eq_some.mp taken
    obtain ⟨next, moved, rfl⟩ := map_eq_some_iff.mp advanced
    have goes := Call.advance_goes moved
    exact inv.put found goes.update goes.holds_iff
      (Call.advance_inv (inv.calls i call found).1 moved)
  | invoke i =>
    obtain ⟨call, found, invoked⟩ := onCall_eq_some.mp taken
    split at invoked
    · rename_i stage
      cases invoked
      refine inv.put found rfl Iff.rfl ((inv.calls i call found).1.enter_next ?_ ?_)
      · rw [stage]
        rfl
      · exact Stage.noConfusion
    · cases invoked
  | vote i err =>
    obtain ⟨call, found, voted⟩ := onCall_eq_some.mp taken
    split at voted
    · rename_i stage
      cases voted
      refine inv.put found rfl Iff.rfl ?_
      cases err with
      | true => exact (inv.calls i call found).1.enter_end rfl
      | false =>
        refine (inv.calls i call found).1.enter_next ?_ Stage.noConfusion
        rw [stage]
        rfl
    · cases voted
  | execute i =>
    obtain ⟨call, found, executed⟩ := onCall_eq_some.mp taken
    split at executed
    · rename_i running
      split at executed
      · rename_i read
        cases executed
        exact inv.executeCommand found read running
      · split at executed
        · cases executed
          exact inv.finish found
        · cases executed
    · cases executed
  | terminate i =>
    obtain ⟨call, found, terminated⟩ := onCall_eq_some.mp taken
    split at terminated
    · cases terminated
      exact inv.exit found false
    · cases terminated
  | reap i =>
    obtain ⟨call, found, reaped⟩ := onCall_eq_some.mp taken
    cases reaped
    obtain ⟨valid, progress, -, acknowledged⟩ := (inv.calls i call found).1
    exact inv.put found rfl Iff.rfl
      ⟨valid, progress, fun absent => absurd absent not_mem_nil, acknowledged⟩
  | lock writer reference =>
    unfold step at taken
    dsimp only at taken
    split at taken
    · rename_i free
      cases taken
      refine inv.elsewhere reference rfl (fun j locked => ?_) (fun j locked => ?_)
        (fun name different => ?_)
      · rw [free] at locked
        cases locked
      · cases (update_self reference _ w.locks).symm.trans locked
      · exact ⟨update_of_ne different _ _, rfl⟩
    · cases taken
  | write writer reference value =>
    unfold step at taken
    dsimp only at taken
    split at taken
    · rename_i own
      cases taken
      have free : ∀ j, w.locks reference ≠ some (.update j) := by
        intro j locked
        rw [own] at locked
        cases locked
      exact inv.elsewhere reference rfl free free
        (fun name different => ⟨rfl, update_of_ne different _ _⟩)
    · cases taken
  | unlock writer reference =>
    unfold step at taken
    dsimp only at taken
    split at taken
    · rename_i own
      cases taken
      refine inv.elsewhere reference rfl (fun j locked => ?_) (fun j locked => ?_)
        (fun name different => ?_)
      · rw [own] at locked
        cases locked
      · cases (update_self reference _ w.locks).symm.trans locked
      · exact ⟨update_of_ne different _ _, rfl⟩
    · cases taken

/-- At the hook, the process has the lock iff it is in time. -/
theorem Inv.locked_iff (inv : w.Inv) (found : w.calls[i]? = some call)
    (stage : call.stage = .prepared) :
    (w.locks call.update.reference = some (.update i) ∧
      w.values call.update.reference = call.update.oldvalue) ↔
    call.cmd.exited = none ∧
      (call.withStatusFlushing = false → .setState .prepare ∉ call.cmd.stdin) := by
  obtain ⟨callInv, holds⟩ := inv.calls i call found
  constructor
  · rintro ⟨locked, -⟩
    obtain ⟨other, isOther, held, -⟩ := inv.owned _ i locked
    obtain rfl := some.inj (found.symm.trans isOther)
    refine ⟨held.1, fun _ => ?_⟩
    rw [callInv.read_of_prepared stage held.2]
    exact not_mem_nil
  · rintro ⟨running, executed⟩
    refine holds ⟨running, ?_⟩
    cases flushing : call.withStatusFlushing with
    | true => exact callInv.acknowledged flushing stage
    | false => exact callInv.prepared_of_read stage (executed flushing)

theorem votesUnderLock_iff {event : Event} (inv : w.Inv) (taken : w.step event = some after) :
    w.VotesUnderLock event ↔ w.InTime event := by
  cases event with
  | invoke i =>
    obtain ⟨call, found, invoked⟩ := onCall_eq_some.mp taken
    split at invoked
    · rename_i stage
      have same := inv.locked_iff found stage
      dsimp only [VotesUnderLock, InTime]
      rw [found]
      exact forall₂_congr (fun other isOther => some.inj isOther ▸ same)
    · cases invoked
  | _ => exact Iff.rfl

end inv

/-- Whatever else goes on, the prepared vote is cast under the lock and on the old value iff the
process is in time. -/
theorem votes_under_lock_iff {values : String → Bytes} {events : List Event} {final : World}
    (run : exec step (start values) events = some final) :
    Along step VotesUnderLock (start values) events ↔ Along step InTime (start values) events :=
  along_congr Inv (fun _ _ _ inv taken => step_inv inv taken)
    (fun _ _ _ inv taken => votesUnderLock_iff inv taken) (start_inv values) run

def branchUpdate : RefUpdate := ⟨"refs/heads/main", replicate 40 98, replicate 40 97⟩

/-- A call up to its hook, where the reports are waited for. -/
def verifiedRun : List Event :=
  [.new branchUpdate true true, .advance 0, .execute 0, .advance 0, .advance 0, .execute 0,
    .advance 0, .execute 0, .advance 0]

/-- Where they are not waited for, before the process has done anything. -/
def unverifiedRun : List Event := [.new branchUpdate false true, .advance 0, .advance 0, .advance 0]

/-- Somebody else updates the same reference. -/
def otherWriter : List Event :=
  [.lock 0 "refs/heads/main", .write 0 "refs/heads/main" (replicate 40 99),
    .unlock 0 "refs/heads/main"]

theorem votes_under_lock_iff_verified :
    (exec step (start fun _ => replicate 40 97) (verifiedRun ++ [.invoke 0])).isSome = true ∧
      Along step VotesUnderLock (start fun _ => replicate 40 97)
        (verifiedRun ++ [.invoke 0]) := by
  have runs : (exec step (start fun _ => replicate 40 97)
      (verifiedRun ++ [.invoke 0])).isSome = true := by
    decide +kernel
  exact ⟨runs, (votes_under_lock_iff (some_get runs).symm).mpr (by decide +kernel)⟩

/-- Where the calls are, and the lock and the value of the reference. -/
def summary (w : World) : List Stage × Option Holder × Bytes :=
  (w.calls.map Call.stage, w.locks "refs/heads/main", w.values "refs/heads/main")

/-- The hook is invoked on a reference that is not locked and has another value: before the
process takes the lock if its reports are not waited for, and otherwise after the process was
terminated. -/
theorem unlocked_at_hook :
    (exec step (start fun _ => replicate 40 97) (unverifiedRun ++ otherWriter)).map summary =
        some ([.prepared], none, replicate 40 99) ∧
      (exec step (start fun _ => replicate 40 97)
          (unverifiedRun ++ otherWriter ++ [.invoke 0])).map summary =
        some ([.voting], none, replicate 40 99) ∧
      (exec step (start fun _ => replicate 40 97)
          (verifiedRun ++ .terminate 0 :: otherWriter)).map summary =
        some ([.prepared], none, replicate 40 99) ∧
      (exec step (start fun _ => replicate 40 97)
          (verifiedRun ++ .terminate 0 :: otherWriter ++ [.invoke 0])).map summary =
        some ([.voting], none, replicate 40 99) :=
  ⟨by decide +kernel, by decide +kernel, by decide +kernel, by decide +kernel⟩

end World

end Gitaly.Updateref
