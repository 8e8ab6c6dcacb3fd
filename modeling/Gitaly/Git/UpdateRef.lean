import Gitaly.Base.Runs
import Gitaly.Git.Catfile

/- `UpdateReference` of internal/git/updateref, next to the git update-ref processes that its
calls drive and to whoever else writes references. A process executes what was written to its
standard input at any later time. -/
namespace Gitaly.Updateref

open Runs Catfile Text

structure RefUpdate where
  reference : String
  newvalue : Bytes
  oldvalue : Bytes
  deriving DecidableEq

/-- The argument of `setState`, and the report of its success. -/
inductive State where
  | start
  | prepare
  | commit
  deriving DecidableEq

inductive Command where
  | update (update : RefUpdate)
  | setState (state : State)
  deriving DecidableEq

/-- How far the transaction of a process is. -/
inductive UpdateRefsState where
  | opened
  | started
  | prepared
  | closed
  deriving DecidableEq

/-- The state that a command leads to, unless git dies. -/
def UpdateRefsState.next : UpdateRefsState → Command → Option UpdateRefsState
  | .opened, .update _ => some .opened
  | .opened, .setState .start => some .started
  | .started, .update _ => some .started
  | .started, .setState .start => none
  | .opened, .setState .prepare | .started, .setState .prepare => some .prepared
  | .opened, .setState .commit | .started, .setState .commit => some .closed
  | .prepared, .setState .commit => some .closed
  | .prepared, _ => none
  | .closed, .setState .start => some .started
  | .closed, _ => none

/-- A git update-ref process, and the pipes to it. -/
structure Process where
  /-- Its version of git flushes the reports. -/
  flushes : Bool
  stdin : List Command
  stdinClosed : Bool
  state : UpdateRefsState
  queued : List RefUpdate
  /-- The reports that can be read, `<state>: ok`. -/
  stdout : List State
  /-- Whether it has exited, and with success. -/
  exited : Option Bool
  deriving DecidableEq

/-- Where a call of `UpdateReference` is. -/
inductive Stage where
  /-- `setState` writes its command. -/
  | setState (state : State)
  /-- `setState` reads the report. -/
  | verify (state : State)
  | update
  /-- `Prepare` has returned, and the hook is not invoked yet. -/
  | prepared
  | voting
  /-- `Commit` waits for the process. -/
  | committing
  | committed
  /-- `Cancel` waits for the process. -/
  | canceling
  | returned
  deriving DecidableEq

/-- `Wait` closes the standard input of the process first. -/
def Stage.waits : Stage → Bool
  | .committing | .canceling => true
  | _ => false

/-- Where the call is after `setState`. -/
def State.succeeded : State → Stage
  | .start => .update
  | .prepare => .prepared
  | .commit => .committing

/-- Where the call is after an error of `setState`; `Cancel` is deferred after `Prepare`. -/
def State.failed : State → Stage
  | .start | .prepare => .returned
  | .commit => .canceling

structure Call where
  update : RefUpdate
  /-- The feature flag. -/
  verifyStateChanges : Bool
  stage : Stage
  cmd : Process
  deriving DecidableEq

namespace Call

/-- `New` has started the process. -/
def new (update : RefUpdate) (verifyStateChanges flushes : Bool) : Call :=
  ⟨update, verifyStateChanges, .setState .start, ⟨flushes, [], false, .opened, [], [], none⟩⟩

variable (call : Call)

def withStatusFlushing : Bool := call.verifyStateChanges && call.cmd.flushes

def enter (stage : Stage) : Call :=
  { call with
    stage := stage
    cmd := { call.cmd with stdinClosed := call.cmd.stdinClosed || stage.waits } }

/-- A write fails when the process or this end of the pipe is gone. -/
def write (command : Command) (succeeded failed : Stage) : Call :=
  if call.cmd.stdinClosed = false ∧ call.cmd.exited = none then
    { call with stage := succeeded, cmd := { call.cmd with stdin := call.cmd.stdin ++ [command] } }
  else call.enter failed

/-- What the call does next, apart from the hook. -/
def advance : Option Call :=
  match call.stage with
  | .setState state =>
    if call.withStatusFlushing then
      some (call.write (.setState state) (.verify state) state.failed)
    else some (call.write (.setState state) state.succeeded state.failed)
  | .verify state =>
    match call.cmd.stdout with
    | [] => if call.cmd.exited = none then none else some (call.enter .canceling)
    | line :: rest =>
      let call := { call with cmd := { call.cmd with stdout := rest } }
      some (call.enter (if line = state then state.succeeded else state.failed))
  | .update => some (call.write (.update call.update) (.setState .prepare) .returned)
  | .committing =>
    match call.cmd.exited with
    | none => none
    | some success => some (call.enter (if success then .committed else .canceling))
  | .committed => some (call.enter .canceling)
  | .canceling => if call.cmd.exited = none then none else some (call.enter .returned)
  | .prepared | .voting | .returned => none

end Call

/-- Who holds the lock of a reference. -/
inductive Holder where
  | update (call : Nat)
  | writer (id : Nat)
  deriving DecidableEq

structure World where
  /-- The zero id if there is no such reference. -/
  values : String → Bytes
  locks : String → Option Holder
  calls : List Call

inductive Event where
  /-- A call of `UpdateReference` starts its process. -/
  | new (update : RefUpdate) (verifyStateChanges flushes : Bool)
  | advance (call : Nat)
  /-- `ReferenceTransactionHook` is invoked in state prepared. -/
  | invoke (call : Nat)
  | vote (call : Nat) (err : Bool)
  /-- The process executes a command, or finds the end of its input. -/
  | execute (call : Nat)
  /-- The process is terminated, as when the context is canceled. -/
  | terminate (call : Nat)
  /-- The command is waited for because its context is canceled. -/
  | reap (call : Nat)
  | lock (writer : Nat) (reference : String)
  | write (writer : Nat) (reference : String) (value : Bytes)
  | unlock (writer : Nat) (reference : String)
  deriving DecidableEq

namespace World

def start (values : String → Bytes) : World := ⟨values, fun _ => none, []⟩

variable (w : World) (i : Nat) (call : Call)

def put : World := { w with calls := w.calls.set i call }

variable (updates : List RefUpdate)

/-- All references can be locked, and have their old values. -/
def Lockable : Prop :=
  (updates.map RefUpdate.reference).Nodup ∧ ∀ update ∈ updates,
    w.locks update.reference = none ∧
      (update.oldvalue = [] ∨ w.values update.reference = update.oldvalue)

instance (w : World) (updates : List RefUpdate) : Decidable (w.Lockable updates) :=
  inferInstanceAs (Decidable (_ ∧ _))

def take : World :=
  { w with
    locks := fun reference =>
      if reference ∈ updates.map RefUpdate.reference then some (.update i) else w.locks reference }

def release : World :=
  { w with
    locks := fun reference =>
      if w.locks reference = some (.update i) then none else w.locks reference }

def apply : World :=
  { w with
    values := fun reference =>
      match updates.find? (fun update => update.reference = reference) with
      | some update => update.newvalue
      | none => w.values reference }

def exit (success : Bool) : World :=
  (w.release i).put i { call with cmd := { call.cmd with exited := some success } }

/-- The process of the call takes a command from its input. -/
def executeCommand (command : Command) (rest : List Command) : World :=
  match call.cmd.state.next command with
  | none => w.exit i call false
  | some state =>
    let cmd := { call.cmd with stdin := rest, state := state }
    match command with
    | .update update =>
      w.put i { call with cmd := { cmd with queued := cmd.queued ++ [update] } }
    | .setState report =>
      let cmd := { cmd with stdout := cmd.stdout ++ if cmd.flushes then [report] else [] }
      match report with
      | .start => w.put i { call with cmd := cmd }
      | .prepare =>
        if w.Lockable cmd.queued then
          (w.take i cmd.queued).put i { call with cmd := cmd }
        else w.exit i call false
      | .commit =>
        if call.cmd.state = .prepared ∨ w.Lockable cmd.queued then
          let cmd' := { cmd with queued := [] }
          ((w.apply cmd.queued).release i).put i { call with cmd := cmd' }
        else w.exit i call false

/-- At the end of its input, git aborts a transaction that was started. -/
def finish : World :=
  if call.cmd.state = .opened then
    if w.Lockable call.cmd.queued then (w.apply call.cmd.queued).exit i call true
    else w.exit i call false
  else w.exit i call true

/-- What happens to a call, if it is possible. -/
def onCall (act : Call → Option World) : Option World := w.calls[i]?.bind act

def step : Event → Option World
  | .new update verifyStateChanges flushes =>
    if update.reference ≠ "" ∧ validObjectID update.oldvalue ∧ validObjectID update.newvalue then
      some { w with calls := w.calls ++ [.new update verifyStateChanges flushes] }
    else some w
  | .advance i => w.onCall i (fun call => call.advance.map (w.put i))
  | .invoke i => w.onCall i (fun call =>
    if call.stage = .prepared then some (w.put i (call.enter .voting)) else none)
  | .vote i err => w.onCall i (fun call =>
    if call.stage = .voting then
      some (w.put i (call.enter (if err then .canceling else .setState .commit)))
    else none)
  | .execute i => w.onCall i (fun call =>
    if call.cmd.exited = none then
      match call.cmd.stdin with
      | command :: rest => some (w.executeCommand i call command rest)
      | [] => if call.cmd.stdinClosed then some (w.finish i call) else none
    else none)
  | .terminate i => w.onCall i (fun call =>
    if call.cmd.exited = none then some (w.exit i call false) else none)
  | .reap i => w.onCall i (fun call =>
    some (w.put i { call with cmd := { call.cmd with stdinClosed := true, stdout := [] } }))
  | .lock writer reference =>
    if w.locks reference = none then
      some { w with locks := Function.update w.locks reference (some (.writer writer)) }
    else none
  | .write writer reference value =>
    if w.locks reference = some (.writer writer) then
      some { w with values := Function.update w.values reference value }
    else none
  | .unlock writer reference =>
    if w.locks reference = some (.writer writer) then
      some { w with locks := Function.update w.locks reference none }
    else none

/-- The hook is invoked in state prepared while the reference is locked by the update and has
the old value. -/
def VotesUnderLock : Event → Prop
  | .invoke i => ∀ call ∈ w.calls[i]?, w.locks call.update.reference = some (.update i) ∧
      w.values call.update.reference = call.update.oldvalue
  | _ => True

/-- The process has not exited when the hook is invoked and, where its report was not waited
for, has executed the command to prepare. -/
def InTime : Event → Prop
  | .invoke i => ∀ call ∈ w.calls[i]?, call.cmd.exited = none ∧
      (call.withStatusFlushing = false → .setState .prepare ∉ call.cmd.stdin)
  | _ => True

instance (w : World) (event : Event) : Decidable (w.InTime event) := by
  cases event <;> unfold InTime <;> infer_instance

end World

end Gitaly.Updateref
