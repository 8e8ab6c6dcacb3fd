import Gitaly.Git.UpdateRef

/- How far a call of `UpdateReference` and its process can be apart: the process has executed a
part of what the call has written, and the call has written a part of one script. -/
namespace Gitaly.Updateref

open List

/-- What a call writes to its process, as far as it comes. -/
def script (update : RefUpdate) : List Command :=
  [.setState .start, .update update, .setState .prepare, .setState .commit]

/-- The transaction of a process that has executed a part of the script. -/
inductive Progress (update : RefUpdate) :
    List Command → UpdateRefsState → List RefUpdate → Prop where
  | opened : Progress update [] .opened []
  | started : Progress update [.setState .start] .started []
  | queued : Progress update [.setState .start, .update update] .started [update]
  | prepared : Progress update [.setState .start, .update update, .setState .prepare] .prepared
      [update]
  | closed : Progress update (script update) .closed []

/-- The commands of the script, one after the other. -/
inductive Executes (update : RefUpdate) : UpdateRefsState → List RefUpdate → Command →
    UpdateRefsState → List RefUpdate → Prop where
  | start : Executes update .opened [] (.setState .start) .started []
  | update : Executes update .started [] (.update update) .started [update]
  | prepare : Executes update .started [update] (.setState .prepare) .prepared [update]
  | commit : Executes update .prepared [update] (.setState .commit) .closed []

variable {state : UpdateRefsState} {queued : List RefUpdate} {update : RefUpdate}

theorem Progress.next {done rest : List Command} {command : Command}
    (progress : Progress update done state queued)
    (begins : done ++ command :: rest <+: script update) :
    ∃ state' queued', Executes update state queued command state' queued' ∧
      Progress update (done ++ [command]) state' queued' := by
  cases progress with
  | opened =>
    obtain ⟨rfl, -⟩ := cons_prefix_cons.mp begins
    exact ⟨_, _, .start, .started⟩
  | started =>
    obtain ⟨rfl, -⟩ := cons_prefix_cons.mp (cons_prefix_cons.mp begins).2
    exact ⟨_, _, .update, .queued⟩
  | queued =>
    obtain ⟨rfl, -⟩ := cons_prefix_cons.mp (cons_prefix_cons.mp (cons_prefix_cons.mp begins).2).2
    exact ⟨_, _, .prepare, .prepared⟩
  | prepared =>
    obtain ⟨rfl, -⟩ := cons_prefix_cons.mp (cons_prefix_cons.mp
      (cons_prefix_cons.mp (cons_prefix_cons.mp begins).2).2).2
    exact ⟨_, _, .commit, .closed⟩
  | closed =>
    have long := begins.length_le
    rw [length_append, length_cons] at long
    omega

theorem Executes.reported {state state' : UpdateRefsState} {queued queued' : List RefUpdate}
    {command : Command} (executes : Executes update state queued command state' queued')
    (printed : (state = .prepared ∨ state = .closed) ∨ command = .setState .prepare) :
    state' = .prepared ∨ state' = .closed := by
  cases executes with
  | start | update =>
    rcases printed with (prepared | closed) | other
    · cases prepared
    · cases closed
    · cases other
  | prepare => exact .inl rfl
  | commit => exact .inr rfl

variable {done : List Command}

section

variable (progress : Progress update done state queued)
include progress

theorem Progress.queued_of_opened (opened : state = .opened) : queued = [] := by
  cases progress with
  | opened => rfl
  | _ => cases opened

theorem Progress.done_of_prepared (prepared : state = .prepared) :
    done = [.setState .start, .update update, .setState .prepare] := by
  cases progress with
  | prepared => rfl
  | _ => cases prepared

theorem Progress.done_of_closed (closed : state = .closed) : done = script update := by
  cases progress with
  | closed => rfl
  | _ => cases closed

theorem Progress.state_of_prepare (executed : .setState .prepare ∈ done) :
    state = .prepared ∨ state = .closed := by
  cases progress with
  | prepared => exact .inl rfl
  | closed => exact .inr rfl
  | _ => simp at executed

end

/-- What the call has written, while it goes on. -/
def Stage.written (update : RefUpdate) : Stage → Option (List Command)
  | .setState .start => some []
  | .verify .start | .update => some [.setState .start]
  | .setState .prepare => some [.setState .start, .update update]
  | .verify .prepare | .prepared | .voting | .setState .commit =>
    some [.setState .start, .update update, .setState .prepare]
  | .verify .commit | .committing | .committed => some (script update)
  | .canceling | .returned => none

theorem State.failed_written (state : State) (update : RefUpdate) :
    state.failed.written update = none := by
  cases state <;> rfl

theorem State.written_setState (state : State) (update : RefUpdate) :
    ∃ written, (Stage.setState state).written update = some written ∧
      (Stage.verify state).written update = some (written ++ [.setState state]) ∧
      state.succeeded.written update = some (written ++ [.setState state]) ∧
      written ++ [.setState state] <+: script update := by
  cases state
  all_goals exact ⟨_, rfl, rfl, rfl, ⟨_, rfl⟩⟩

namespace Call

/-- The process holds the lock. -/
def Holds (call : Call) : Prop := call.cmd.exited = none ∧ call.cmd.state = .prepared

structure Inv (call : Call) : Prop where
  valid : call.update.oldvalue ≠ []
  progress : ∃ done, Progress call.update done call.cmd.state call.cmd.queued ∧
    done ++ call.cmd.stdin <+: script call.update ∧
    ∀ written ∈ call.stage.written call.update, done ++ call.cmd.stdin = written
  reported : .prepare ∈ call.cmd.stdout → call.cmd.state = .prepared ∨ call.cmd.state = .closed
  acknowledged : call.withStatusFlushing = true → call.stage = .prepared →
    call.cmd.state = .prepared

variable {call next : Call}

section

variable (inv : call.Inv)
include inv

theorem Inv.enter_end {stage : Stage} (written : stage.written call.update = none) :
    (call.enter stage).Inv := by
  obtain ⟨done, progress, begins, -⟩ := inv.progress
  refine ⟨inv.valid, ⟨done, progress, begins, fun other isOther => ?_⟩, inv.reported, ?_⟩
  · rw [show (call.enter stage).stage.written (call.enter stage).update = none from written]
      at isOther
    cases isOther
  · rintro - rfl
    cases written

theorem Inv.enter_next {stage : Stage}
    (written : stage.written call.update = call.stage.written call.update)
    (other : stage ≠ .prepared) : (call.enter stage).Inv := by
  obtain ⟨done, progress, begins, exact⟩ := inv.progress
  refine ⟨inv.valid, ⟨done, progress, begins, fun some isSome => exact some ?_⟩, inv.reported,
    fun _ same => absurd same other⟩
  rwa [← written]

theorem Inv.write {command : Command} {succeeded failed : Stage} {written : List Command}
    (before : call.stage.written call.update = some written)
    (after : succeeded.written call.update = some (written ++ [command]))
    (fits : written ++ [command] <+: script call.update)
    (ended : failed.written call.update = none)
    (unverified : succeeded = .prepared → call.withStatusFlushing = false) :
    (call.write command succeeded failed).Inv := by
  unfold Call.write
  split
  · obtain ⟨done, progress, -, exact⟩ := inv.progress
    have appended : done ++ (call.cmd.stdin ++ [command]) = written ++ [command] := by
      rw [← append_assoc, exact written before]
    refine ⟨inv.valid, ⟨done, progress, ?_, ?_⟩, inv.reported, ?_⟩
    · exact appended.symm ▸ fits
    · intro other isOther
      exact appended.trans (Option.some.inj (after.symm.trans isOther))
    · intro verifies isPrepared
      have plain := unverified isPrepared
      exact absurd (plain.symm.trans verifies) Bool.noConfusion
  · exact inv.enter_end ended

theorem Inv.executed {command : Command} {rest : List Command}
    (read : call.cmd.stdin = command :: rest) :
    ∃ state queued, Executes call.update call.cmd.state call.cmd.queued command state queued ∧
      ∀ stdout, (.prepare ∈ stdout → .prepare ∈ call.cmd.stdout ∨ command = .setState .prepare) →
        Inv { call with cmd := { call.cmd with
          stdin := rest
          state := state
          queued := queued
          stdout := stdout } } := by
  obtain ⟨valid, ⟨done, progress, begins, exact⟩, reported, acknowledged⟩ := inv
  rw [read] at begins exact
  obtain ⟨state, queued, executes, further⟩ := progress.next begins
  have same : (done ++ [command]) ++ rest = done ++ command :: rest :=
    append_assoc done [command] rest
  refine ⟨state, queued, executes, fun stdout printed => ⟨valid,
    ⟨done ++ [command], further, ?_, ?_⟩, fun member => ?_, fun flushing isPrepared => ?_⟩⟩
  · exact same ▸ begins
  · exact fun written isWritten => same.trans (exact written isWritten)
  · exact executes.reported ((printed member).imp_left reported)
  · -- All that was written is executed already.
    have isPrepared : call.stage = .prepared := isPrepared
    have whole := congrArg List.length (exact _ (by rw [isPrepared]; rfl))
    rw [progress.done_of_prepared (acknowledged flushing isPrepared)] at whole
    cases whole

theorem Inv.not_closed {written : List Command}
    (isWritten : call.stage.written call.update = some written) (short : written.length ≤ 3) :
    call.cmd.state ≠ .closed := by
  intro closed
  obtain ⟨done, progress, -, exact⟩ := inv.progress
  have whole := congrArg List.length (exact written isWritten)
  rw [progress.done_of_closed closed, length_append] at whole
  have four : (script call.update).length = 4 := rfl
  omega

/-- When the hook is about to be invoked, an update that is prepared has no more input. -/
theorem Inv.read_of_prepared (stage : call.stage = .prepared)
    (prepared : call.cmd.state = .prepared) : call.cmd.stdin = [] := by
  obtain ⟨done, progress, -, exact⟩ := inv.progress
  rw [stage] at exact
  have whole := exact _ rfl
  rw [progress.done_of_prepared prepared] at whole
  exact append_right_eq_self.mp whole

theorem Inv.prepared_of_read (stage : call.stage = .prepared)
    (read : .setState .prepare ∉ call.cmd.stdin) : call.cmd.state = .prepared := by
  have isWritten : call.stage.written call.update =
      some [.setState .start, .update call.update, .setState .prepare] := by
    rw [stage]
    rfl
  obtain ⟨done, progress, -, exact⟩ := inv.progress
  have written : .setState .prepare ∈ done ++ call.cmd.stdin := by
    rw [exact _ isWritten]
    simp
  have isDone := (mem_append.mp written).resolve_right read
  exact (progress.state_of_prepare isDone).resolve_right (inv.not_closed isWritten (Nat.le_refl 3))

/-- A report is read, and it is the one that `setState` waits for. -/
theorem Inv.verified {state : State} {rest : List State} (stage : call.stage = .verify state)
    (read : call.cmd.stdout = state :: rest) :
    (enter { call with cmd := { call.cmd with stdout := rest } } state.succeeded).Inv := by
  obtain ⟨done, progress, begins, exact⟩ := inv.progress
  obtain ⟨written, -, verify, succeeded, -⟩ := state.written_setState call.update
  rw [stage] at exact
  have fits := exact _ verify
  refine ⟨inv.valid, ⟨done, progress, begins, fun other isOther => ?_⟩, fun member => ?_, ?_⟩
  · exact fits.trans (Option.some.inj (succeeded.symm.trans isOther))
  · exact inv.reported (read ▸ mem_cons_of_mem _ member)
  · -- The commit is not written yet, so that the process has come to the preparation only.
    rintro - isPrepared
    obtain rfl : state = .prepare := by
      cases state with
      | prepare => rfl
      | _ => cases isPrepared
    rcases inv.reported (read ▸ mem_cons_self) with prepared | closed
    · exact prepared
    have isWritten : call.stage.written call.update =
        some [.setState .start, .update call.update, .setState .prepare] := by
      rw [stage]
      rfl
    exact absurd closed (inv.not_closed isWritten (Nat.le_refl 3))

theorem advance_inv (advanced : call.advance = some next) : next.Inv := by
  unfold advance at advanced
  split at advanced
  · rename_i state stage
    obtain ⟨written, before, verify, succeeded, fits⟩ := state.written_setState call.update
    rw [← stage] at before
    split at advanced
    · cases advanced
      exact inv.write before verify fits (state.failed_written _) (fun same => by cases same)
    rename_i plain
    cases advanced
    exact inv.write before succeeded fits (state.failed_written _)
      (fun _ => Bool.not_eq_true _ ▸ plain)
  · rename_i state stage
    split at advanced
    · split at advanced
      · cases advanced
      cases advanced
      exact inv.enter_end rfl
    · rename_i line rest read
      cases advanced
      split
      · rename_i same
        exact inv.verified stage (same ▸ read)
      have left : Inv { call with cmd := { call.cmd with stdout := rest } } := by
        refine ⟨inv.valid, inv.progress, fun member => ?_, inv.acknowledged⟩
        exact inv.reported (read ▸ mem_cons_of_mem _ member)
      exact left.enter_end (state.failed_written _)
  · rename_i stage
    cases advanced
    exact inv.write (by rw [stage]; rfl) rfl ⟨_, rfl⟩ rfl (fun same => by cases same)
  · rename_i stage
    split at advanced
    · cases advanced
    cases advanced
    split
    · exact inv.enter_next (by rw [stage]; rfl) (fun same => by cases same)
    · exact inv.enter_end rfl
  · cases advanced
    exact inv.enter_end rfl
  · split at advanced
    · cases advanced
    cases advanced
    exact inv.enter_end rfl
  all_goals cases advanced

end

/-- The call goes on, and its process does nothing. -/
structure Goes (call next : Call) : Prop where
  update : next.update = call.update
  exited : next.cmd.exited = call.cmd.exited
  state : next.cmd.state = call.cmd.state

theorem Goes.holds_iff (goes : Goes call next) : next.Holds ↔ call.Holds := by
  rw [Holds, Holds, goes.exited, goes.state]

theorem write_goes (call : Call) (command : Command) (succeeded failed : Stage) :
    Goes call (call.write command succeeded failed) := by
  unfold Call.write
  split <;> exact ⟨rfl, rfl, rfl⟩

theorem advance_goes (advanced : call.advance = some next) : Goes call next := by
  unfold advance at advanced
  split at advanced
  · split at advanced <;> cases advanced <;> exact write_goes _ _ _ _
  · split at advanced
    · split at advanced
      · cases advanced
      cases advanced
      exact ⟨rfl, rfl, rfl⟩
    · cases advanced
      exact ⟨rfl, rfl, rfl⟩
  · cases advanced
    exact write_goes _ _ _ _
  · split at advanced
    · cases advanced
    cases advanced
    exact ⟨rfl, rfl, rfl⟩
  · cases advanced
    exact ⟨rfl, rfl, rfl⟩
  · split at advanced
    · cases advanced
    cases advanced
    exact ⟨rfl, rfl, rfl⟩
  all_goals cases advanced

end Call

end Gitaly.Updateref
