import Gitaly.Base.KeyedTable
import Gitaly.Base.Like
import Gitaly.Datastore.ReplicationJob
import Mathlib.Data.List.Sort

/- The replication queue of internal/praefect/datastore/queue.go, on the tables that the
migrations create. A statement is one step: it reads the tables as they were before it. -/
namespace Gitaly.Datastore

/-- Microseconds. -/
abbrev Timestamp := Int

/-- A row of `replication_queue`. -/
structure EventRow extends ReplicationEvent where
  id : Nat
  state : JobState
  createdAt : Timestamp
  updatedAt : Option Timestamp
  attempt : Int
  lockID : String
  deriving DecidableEq

/-- A row of `replication_queue_lock`. -/
structure LockRow where
  id : String
  acquired : Bool
  deriving DecidableEq

def LockRow.acquire (acquired : Bool) (lock : LockRow) : LockRow :=
  { lock with acquired := acquired }

theorem LockRow.acquire_id (acquired : Bool) (lock : LockRow) :
    (lock.acquire acquired).id = lock.id := rfl

/-- A row of `replication_queue_job_lock`. -/
structure JobLockRow where
  jobID : Nat
  lockID : String
  triggeredAt : Timestamp
  deriving DecidableEq

def JobLockRow.key (row : JobLockRow) : Nat × String := (row.jobID, row.lockID)

def JobLockRow.trigger (now : Timestamp) (row : JobLockRow) : JobLockRow :=
  { row with triggeredAt := now }

theorem JobLockRow.trigger_key (now : Timestamp) (row : JobLockRow) :
    (row.trigger now).key = row.key := rfl

/-- The tables of the queue. References between the tables are not checked here; they
turn out to be kept by the statements themselves. -/
structure PostgresReplicationEventQueue where
  /-- The sequence of `replication_queue.id`. -/
  nextID : Nat
  queue : KeyedTable EventRow Nat EventRow.id
  locks : KeyedTable LockRow String LockRow.id
  jobLocks : KeyedTable JobLockRow (Nat × String) JobLockRow.key
  deriving DecidableEq

inductive QueueError where
  | uniqueViolation
  /-- LIMIT must not be negative -/
  | negativeLimit
  /-- event state is not supported: %q -/
  | notSupported (state : JobState)
  deriving DecidableEq

namespace EventRow

variable (row : EventRow)

/-- The rows that `delete_replica_unique_index` covers. -/
def Indexed : Prop := row.state ∉ [.completed, .cancelled, .dead] ∧ row.job.change = .deleteReplica

/-- The key of the row in `delete_replica_unique_index`. -/
def indexKey : String × String := (row.job.virtualStorage, row.job.relativePath)

/-- The index does not admit both rows. -/
def Clashes (row other : EventRow) : Prop :=
  row.Indexed ∧ other.Indexed ∧ row.indexKey = other.indexKey

instance (row other : EventRow) : Decidable (row.Clashes other) :=
  inferInstanceAs (Decidable ((row.state ∉ _ ∧ _) ∧ (other.state ∉ _ ∧ _) ∧ _))

variable (now : Timestamp)

/-- How a row leaves `Dequeue`: a replica is deleted with unlimited attempts. -/
def dequeued (row : EventRow) : EventRow :=
  { row with
    attempt := if row.job.change = .deleteReplica then row.attempt else row.attempt - 1
    state := .inProgress
    updatedAt := some now }

theorem dequeued_id (row : EventRow) : (row.dequeued now).id = row.id := rfl

def acknowledged (state : JobState) (row : EventRow) : EventRow :=
  { row with state := state, updatedAt := some now }

theorem acknowledged_id (state : JobState) (row : EventRow) :
    (row.acknowledged now state).id = row.id := rfl

def timedOut : EventRow := { row with state := if row.attempt ≥ 1 then .failed else .dead }

theorem timedOut_id : row.timedOut.id = row.id := rfl

theorem timedOut_ne : row.timedOut.state ≠ .inProgress := by
  unfold timedOut
  dsimp only
  split <;> decide

/-- The row was created before the other one, or at the same instant and comes first. -/
def Before (rank : Nat → Nat) (row other : EventRow) : Prop :=
  row.createdAt < other.createdAt ∨ row.createdAt = other.createdAt ∧ rank row.id ≤ rank other.id

instance (rank : Nat → Nat) : DecidableRel (Before rank) := fun _ _ => instDecidableOr

end EventRow

namespace PostgresReplicationEventQueue

/-- The tables right after the migrations. -/
def empty : PostgresReplicationEventQueue := ⟨1, .empty, .empty, .empty⟩

def lockID (job : ReplicationJob) : String :=
  job.virtualStorage ++ "|" ++ job.targetNodeStorage ++ "|" ++ job.relativePath

variable (rq : PostgresReplicationEventQueue) (now : Timestamp)

/-- The sequence moves on even if the row is not inserted. -/
def Enqueue (event : ReplicationEvent) :
    PostgresReplicationEventQueue × Except QueueError EventRow :=
  let row : EventRow :=
    { event with
      id := rq.nextID, state := .ready, createdAt := now, updatedAt := none, attempt := 3
      lockID := lockID event.job }
  let next := { rq with nextID := rq.nextID + 1 }
  if fresh : row.id ∉ rq.queue.keys ∧ ∀ other ∈ rq.queue.rows, ¬ row.Clashes other then
    ({ next with
        locks := rq.locks.upsert ⟨row.lockID, false⟩ (fun lock => lock) (fun _ => rfl)
        queue := rq.queue.insert row fresh.1 }, .ok row)
  else (next, .error .uniqueViolation)

/-- The ranks of the rows that were created at the same instant: the database may put
them in any order, and not in the same one whenever it sorts. -/
structure Ties where
  window : Nat → Nat
  limit : Nat → Nat

/-- The `lock` of `Dequeue`. -/
def unlocked (virtualStorage nodeStorage : String) : List String :=
  (rq.locks.rows.filter (fun lock =>
    Sql.like (virtualStorage ++ "|" ++ nodeStorage ++ "|%").toList lock.id.toList &&
      !lock.acquired)).map LockRow.id

/-- The events among which `Dequeue` looks for candidates. -/
def waiting (virtualStorage nodeStorage : String) : List EventRow :=
  rq.queue.rows.filter (fun row =>
    row.lockID ∈ rq.unlocked virtualStorage nodeStorage ∧
      (row.state = .ready ∨ row.state = .failed) ∧
      ∀ jobLock ∈ rq.jobLocks.rows, jobLock.lockID ≠ row.lockID)

/-- `FIRST_VALUE` of the ids over the partition of a row. -/
def firstValue (rank : Nat → Nat) (rows : List EventRow) (row : EventRow) : Option Nat :=
  let partition := rows.filter (fun other =>
    other.lockID = row.lockID ∧ other.job.change = row.job.change)
  (partition.insertionSort (EventRow.Before rank)).head?.map EventRow.id

/-- The `candidate` of `Dequeue`. -/
def candidates (ties : Ties) (virtualStorage nodeStorage : String) (count : Nat) : List EventRow :=
  let rows := rq.waiting virtualStorage nodeStorage
  let firsts := rows.map (firstValue ties.window rows)
  ((rq.queue.rows.filter (fun row => some row.id ∈ firsts)).insertionSort
    (EventRow.Before ties.limit)).take count

def Dequeue (ties : Ties) (virtualStorage nodeStorage : String) (count : Int) :
    PostgresReplicationEventQueue × Except QueueError (List EventRow) :=
  if count < 0 then (rq, .error .negativeLimit)
  else
    let candidate := rq.candidates ties virtualStorage nodeStorage count.toNat
    let job := candidate.map (EventRow.dequeued now)
    match rq.jobLocks.insertAll (job.map (fun row => ⟨row.id, row.lockID, now⟩)) with
    | none => (rq, .error .uniqueViolation)
    | some jobLocks =>
      ({ rq with
          queue := rq.queue.updateWhere (fun row => row.id ∈ candidate.map EventRow.id)
            (EventRow.dequeued now) (EventRow.dequeued_id now)
          locks := rq.locks.updateWhere (fun lock => lock.id ∈ job.map EventRow.lockID)
            (LockRow.acquire true) (LockRow.acquire_id true)
          jobLocks := jobLocks },
        .ok (job.insertionSort (fun row other => row.id ≤ other.id)))

/-- `COUNT(*)` of the job locks that hold a lock. -/
def amount (rows : List JobLockRow) (lockID : String) : Nat :=
  rows.countP (fun jobLock => jobLock.lockID = lockID)

/-- Removes job locks, and releases the locks from which as many were removed as there
had been. -/
def release (removed : JobLockRow → Bool) : PostgresReplicationEventQueue :=
  let rows := rq.jobLocks.rows.filter removed
  { rq with
    jobLocks := rq.jobLocks.delete removed
    locks := rq.locks.updateWhere
      (fun lock => lock.id ∈ rows.map JobLockRow.lockID ∧
        amount rows lock.id = amount rq.jobLocks.rows lock.id)
      (LockRow.acquire false) (LockRow.acquire_id false) }

variable (state : JobState)

def allowToAck : Bool := state ∈ [.completed, .failed, .cancelled, .dead]

theorem allowToAck_ne {state : JobState} (allowed : allowToAck state = true) :
    state ≠ .inProgress := by
  rintro rfl
  cases allowed

variable (ids : List Nat)

/-- The `existing` of `Acknowledge`. -/
def existing : List EventRow :=
  rq.queue.rows.filter (fun row => row.id ∈ ids ∧ row.state = .inProgress)

/-- The row was put into the queue before the existing one was taken from it, to apply
what counts as the same operation. -/
def Similar (existing row : EventRow) : Prop :=
  row.state = .ready ∧ (existing.updatedAt.any (fun updatedAt => row.createdAt < updatedAt)) ∧
    row.lockID = existing.lockID ∧ row.job.change = existing.job.change ∧
    row.job.sourceNodeStorage = existing.job.sourceNodeStorage

instance (existing row : EventRow) : Decidable (Similar existing row) :=
  inferInstanceAs (Decidable (_ ∧ _ ∧ _ ∧ _ ∧ _))

/-- The condition of the `deleted` of `Acknowledge`. -/
def Deletes (existing row : EventRow) : Prop :=
  state = .dead ∧ existing.id = row.id ∨
    state = .completed ∧ (existing.id = row.id ∨ Similar existing row)

instance (state : JobState) (existing row : EventRow) : Decidable (Deletes state existing row) :=
  inferInstanceAs (Decidable (_ ∨ _))

/-- The `deleted` of `Acknowledge`. -/
def deleted (row : EventRow) : Bool := (rq.existing ids).any (fun other => Deletes state other row)

/-- The `updated` of `Acknowledge`; a row that is deleted is not updated any more. -/
def updated (row : EventRow) : Bool := row.id ∈ (rq.existing ids).map EventRow.id

/-- The `to_release` of `Acknowledge`. -/
def toRelease : List (Nat × String) :=
  (rq.queue.rows.filter (fun row => rq.deleted state ids row || rq.updated ids row)).map
    (fun row => (row.id, row.lockID))

def Acknowledge (state : JobState)
    (ids : List Nat) : PostgresReplicationEventQueue × Except QueueError (List Nat) :=
  if ids = [] then (rq, .ok [])
  else if allowToAck state = false then (rq, .error (.notSupported state))
  else
    ({ rq.release (fun jobLock => jobLock.key ∈ rq.toRelease state ids) with
        queue := (rq.queue.delete (rq.deleted state ids)).updateWhere (rq.updated ids)
          (EventRow.acknowledged now state) (EventRow.acknowledged_id now state) },
      .ok ((rq.existing ids).map EventRow.id))

/-- What one trigger of `StartHealthUpdate` executes, for the ids and locks of events. -/
def healthUpdate (events : List (Nat × String)) : PostgresReplicationEventQueue :=
  { rq with
    jobLocks := rq.jobLocks.updateWhere (fun jobLock => jobLock.key ∈ events)
      (JobLockRow.trigger now) (JobLockRow.trigger_key now) }

/-- The job locks that are stale after some milliseconds. -/
def stale (staleAfter : Int) (jobLock : JobLockRow) : Bool :=
  jobLock.triggeredAt < now - 1000 * staleAfter

def staleJobs (staleAfter : Int) : List Nat :=
  (rq.jobLocks.rows.filter (stale now staleAfter)).map JobLockRow.jobID

def AcknowledgeStale (staleAfter : Int) : PostgresReplicationEventQueue :=
  { rq.release (stale now staleAfter) with
    queue := rq.queue.updateWhere (fun row => row.id ∈ rq.staleJobs now staleAfter)
      EventRow.timedOut EventRow.timedOut_id }

end PostgresReplicationEventQueue

inductive Call where
  | enqueue (event : ReplicationEvent)
  | dequeue (ties : PostgresReplicationEventQueue.Ties) (virtualStorage nodeStorage : String)
      (count : Int)
  | acknowledge (state : JobState) (ids : List Nat)
  | healthUpdate (events : List (Nat × String))
  | acknowledgeStale (staleAfter : Int)

/-- A call on the queue. The clock that the statement reads need not agree with the order
of the statements. -/
structure Request where
  worker : Nat
  now : Timestamp
  call : Call

namespace PostgresReplicationEventQueue

variable (rq : PostgresReplicationEventQueue)

def step (request : Request) : Option PostgresReplicationEventQueue :=
  match request.call with
  | .enqueue event => some (rq.Enqueue request.now event).1
  | .dequeue ties virtualStorage nodeStorage count =>
    some (rq.Dequeue request.now ties virtualStorage nodeStorage count).1
  | .acknowledge state ids => some (rq.Acknowledge request.now state ids).1
  | .healthUpdate events => some (rq.healthUpdate request.now events)
  | .acknowledgeStale staleAfter => some (rq.AcknowledgeStale request.now staleAfter)

/-- The events that a request returns to its worker for processing. -/
def handedOut (request : Request) : List Nat :=
  match request.call with
  | .dequeue ties virtualStorage nodeStorage count =>
    match (rq.Dequeue request.now ties virtualStorage nodeStorage count).2 with
    | .ok events => events.map EventRow.id
    | .error _ => []
  | _ => []

/-- The events that a request takes out of progress. -/
def ended (request : Request) : List Nat :=
  match request.call with
  | .acknowledge state ids =>
    match (rq.Acknowledge request.now state ids).2 with
    | .ok acknowledged => acknowledged
    | .error _ => []
  | .acknowledgeStale staleAfter => rq.staleJobs request.now staleAfter
  | _ => []

end PostgresReplicationEventQueue

end Gitaly.Datastore
