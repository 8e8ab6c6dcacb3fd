import Gitaly.Datastore.QueueOrigin
import Gitaly.Praefect.Config

/- Which events a worker is given: locks are named by joining names with a bar, and looked
up with a pattern that is made of names. -/
namespace Gitaly.Datastore

open List KeyedTable Runs

open Gitaly.Praefect (Config VirtualStorage Node)

namespace PostgresReplicationEventQueue

variable (target : String × String)

/-- What the ids of the locks of a virtual storage and a node start with. -/
def address : List Char := (target.1 ++ "|" ++ target.2 ++ "|").toList

theorem lockID_toList (job : ReplicationJob) :
    (lockID job).toList =
      address (job.virtualStorage, job.targetNodeStorage) ++ job.relativePath.toList := by
  simp [lockID, address]

variable (config : Config)

/-- A call with the names of the configuration. -/
def Configured (request : Request) : Prop :=
  match request.call with
  | .enqueue event => (event.job.virtualStorage, event.job.targetNodeStorage) ∈ config.storages
  | .dequeue _ virtualStorage nodeStorage _ => (virtualStorage, nodeStorage) ∈ config.storages
  | _ => True

/-- A call of `Enqueue`, `Dequeue` or `Acknowledge`. -/
def Regular (request : Request) : Prop :=
  match request.call with
  | .enqueue _ | .dequeue _ _ _ _ | .acknowledge _ _ => True
  | .healthUpdate _ | .acknowledgeStale _ => False

/-- Events reach their target, and a lock stands for one repository on one target. -/
structure Addressed (config : Config) (rq : PostgresReplicationEventQueue) : Prop where
  dequeued : ∀ now ties virtualStorage nodeStorage count rows,
    (virtualStorage, nodeStorage) ∈ config.storages →
    (rq.Dequeue now ties virtualStorage nodeStorage count).2 = .ok rows →
    ∀ row ∈ rows, row.job.virtualStorage = virtualStorage ∧ row.job.targetNodeStorage = nodeStorage
  locks : ∀ row ∈ rq.queue, ∀ other ∈ rq.queue, row.lockID = other.lockID ↔
    row.job.virtualStorage = other.job.virtualStorage ∧
      row.job.targetNodeStorage = other.job.targetNodeStorage ∧
      row.job.relativePath = other.job.relativePath

/-- No two targets can be mistaken for each other: not as the beginning of a lock id, and
not as a pattern for the ids of the other one. -/
def Unambiguous : Prop :=
  ∀ target ∈ config.storages, ∀ other ∈ config.storages, target ≠ other →
    ¬ address target <+: address other ∧ Sql.meets (address target ++ ['%']) (address other) = false

instance (config : Config) : Decidable (Unambiguous config) :=
  inferInstanceAs (Decidable (∀ target ∈ config.storages, ∀ other ∈ config.storages, _ → _))

/-- The rows name configured targets and the locks of their jobs. -/
def Named (rq : PostgresReplicationEventQueue) : Prop :=
  ∀ row ∈ rq.queue, row.lockID = lockID row.job ∧
    (row.job.virtualStorage, row.job.targetNodeStorage) ∈ config.storages

variable {config : Config}

theorem step_named {rq after : PostgresReplicationEventQueue} (inv : rq.Inv)
    (named : Named config rq) {request : Request} (configured : Configured config request)
    (taken : rq.step request = some after) : Named config after := by
  intro row member
  rcases step_origin inv taken member with ⟨old, present, follows⟩ | ⟨event, call, rfl⟩
  · rw [follows.lockID, follows.job]
    exact named old present
  unfold Configured at configured
  rw [call] at configured
  exact ⟨rfl, configured⟩

variable {rq : PostgresReplicationEventQueue}

theorem exec_named {requests : List Request}
    (configured : ∀ request ∈ requests, Configured config request)
    (runs : exec step empty requests = some rq) : Named config rq := by
  have along : Along step (fun _ request => Configured config request) empty requests :=
    along_of_forall empty configured
  have both := along.invariant (fun rq => rq.Inv ∧ Named config rq)
    (fun _ _ _ before configured taken => ⟨(step_takes before.1 taken).inv before.1,
      step_named before.1 before.2 configured taken⟩)
    ⟨empty_inv, fun _ absent => absurd absent not_mem_nil⟩ runs
  exact both.2

theorem Named.addressed
    (named : Named config rq) (unambiguous : Unambiguous config) : Addressed config rq := by
  constructor
  · intro now ties virtual nodeStorage count rows configured returned row member
    obtain ⟨old, waits, rfl⟩ := rq.Dequeue_returned now ties count returned row member
    obtain ⟨present, matched⟩ := rq.waiting_like waits
    obtain ⟨locked, addressed⟩ := named old present
    rw [locked, lockID_toList] at matched
    have meets := (Sql.exists_like_append _ _).mp ⟨_, matched⟩
    by_contra different
    have other : (virtual, nodeStorage) ≠
        (old.job.virtualStorage, old.job.targetNodeStorage) := by
      intro same
      cases same
      exact different ⟨rfl, rfl⟩
    have apart := (unambiguous _ configured _ addressed other).2
    rw [address] at apart
    rw [meets] at apart
    cases apart
  · intro row present other otherPresent
    obtain ⟨locked, addressed⟩ := named row present
    obtain ⟨otherLocked, otherAddressed⟩ := named other otherPresent
    rw [locked, otherLocked]
    constructor
    · intro same
      have ids := congrArg String.toList same
      rw [lockID_toList, lockID_toList] at ids
      by_cases target : (row.job.virtualStorage, row.job.targetNodeStorage) =
          (other.job.virtualStorage, other.job.targetNodeStorage)
      · rw [target] at ids
        have paths := String.toList_injective (append_cancel_left ids)
        rw [Prod.mk.injEq] at target
        exact ⟨target.1, target.2, paths⟩
      · exfalso
        have left : address (row.job.virtualStorage, row.job.targetNodeStorage) <+:
            address (other.job.virtualStorage, other.job.targetNodeStorage) ++
              other.job.relativePath.toList := ids ▸ prefix_append _ _
        rcases prefix_or_prefix_of_prefix left (prefix_append _ _) with begins | begins
        · exact (unambiguous _ addressed _ otherAddressed target).1 begins
        · exact (unambiguous _ otherAddressed _ addressed (Ne.symm target)).1 begins
    · intro same
      obtain ⟨virtual, target, path⟩ := same
      simp only [lockID, virtual, target, path]

/-- An event for a target. -/
def eventFor (path : String) : ReplicationEvent :=
  ⟨⟨0, .update, path, target.2, "", target.1, none⟩, none⟩

theorem Enqueue_update (rq : PostgresReplicationEventQueue) (now : Timestamp)
    (target : String × String) (path : String) (fresh : rq.nextID ∉ rq.queue.keys) :
    (rq.Enqueue now (eventFor target path)).1 =
      { rq with
        nextID := rq.nextID + 1
        locks := rq.locks.upsert ⟨lockID (eventFor target path).job, false⟩ (fun lock => lock)
          (fun _ => rfl)
        queue := rq.queue.insert (rq.enqueued now (eventFor target path)) fresh } := by
  have admitted : ∀ other ∈ rq.queue.rows,
      ¬ (rq.enqueued now (eventFor target path)).Clashes other := by
    intro other _ clash
    cases clash.1.2
  unfold Enqueue
  rw [dif_pos ⟨fresh, admitted⟩]
  rfl

/-- The queue with a single event. -/
def single (path : String) : PostgresReplicationEventQueue :=
  (empty.Enqueue 0 (eventFor target path)).1

theorem single_eq (path : String) :
    (single target path).queue.rows = [empty.enqueued 0 (eventFor target path)] ∧
      (single target path).locks.rows = [⟨lockID (eventFor target path).job, false⟩] ∧
      (single target path).jobLocks.rows = [] ∧ (single target path).nextID = 2 := by
  unfold single
  rw [Enqueue_update empty 0 target path not_mem_nil]
  exact ⟨rfl, rfl, rfl, rfl⟩

theorem Dequeue_single {target other : String × String} {path : String}
    (matched : Sql.like (address target ++ ['%']) (address other ++ path.toList) = true) :
    ((single other path).Dequeue 0 ⟨id, id⟩ target.1 target.2 1).2 =
      .ok [(empty.enqueued 0 (eventFor other path)).dequeued 0] := by
  obtain ⟨queue, locks, jobLocks, -⟩ := single_eq other path
  have unlocked : (single other path).unlocked target.1 target.2 =
      [lockID (eventFor other path).job] := by
    have free : Sql.like (target.1 ++ "|" ++ target.2 ++ "|%").toList
        (lockID (eventFor other path).job).toList = true := by
      rw [pattern_toList, lockID_toList]
      exact matched
    unfold PostgresReplicationEventQueue.unlocked
    rw [locks, filter_singleton, free]
    rfl
  have waiting : (single other path).waiting target.1 target.2 =
      [empty.enqueued 0 (eventFor other path)] := by
    simp [PostgresReplicationEventQueue.waiting, queue, jobLocks, unlocked, enqueued]
  have candidates : (single other path).candidates ⟨id, id⟩ target.1 target.2 1 =
      [empty.enqueued 0 (eventFor other path)] := by
    simp [PostgresReplicationEventQueue.candidates, queue, waiting, firstValue]
  have returned := ((single other path).Dequeue_candidates 0 ⟨id, id⟩ target.1 target.2
    Int.one_nonneg).2
  rw [Int.toNat_one, candidates] at returned
  exact returned

theorem single_Enqueue (target other : String × String) (path otherPath : String) :
    empty.enqueued 0 (eventFor target path) ∈
        ((single target path).Enqueue 0 (eventFor other otherPath)).1.queue ∧
      (single target path).enqueued 0 (eventFor other otherPath) ∈
        ((single target path).Enqueue 0 (eventFor other otherPath)).1.queue := by
  obtain ⟨queue, -, -, nextID⟩ := single_eq target path
  have fresh : (single target path).nextID ∉ (single target path).queue.keys := by
    simp [KeyedTable.keys, queue, nextID, enqueued, empty]
  have present : empty.enqueued 0 (eventFor target path) ∈ (single target path).queue := by
    rw [mem_iff, queue]
    exact mem_cons_self
  rw [Enqueue_update _ 0 other otherPath fresh]
  exact ⟨(mem_insert _ _ fresh).mpr (.inl present), (mem_insert _ _ fresh).mpr (.inr rfl)⟩

/-- Everything a run of the queue hands out and locks is told apart exactly if the names of
the configuration are. -/
theorem addressed_iff_unambiguous (config : Config) :
    (∀ requests rq, (∀ request ∈ requests, Regular request ∧ Configured config request) →
      exec step empty requests = some rq → Addressed config rq) ↔ Unambiguous config := by
  constructor
  · intro addressed target configured other otherConfigured different
    constructor
    · intro begins
      obtain ⟨rest, same⟩ := begins
      have runs := addressed
        [⟨0, 0, .enqueue (eventFor target (String.ofList rest))⟩,
          ⟨0, 0, .enqueue (eventFor other "")⟩]
        ((single target (String.ofList rest)).Enqueue 0 (eventFor other "")).1
        (by simp [Regular, Configured, eventFor, configured, otherConfigured]) rfl
      obtain ⟨left, right⟩ := single_Enqueue target other (String.ofList rest) ""
      have shared : lockID (eventFor target (String.ofList rest)).job =
          lockID (eventFor other "").job := by
        apply String.toList_injective
        simpa [lockID_toList, eventFor] using same
      have agree := (runs.locks _ left _ right).mp shared
      exact different (Prod.ext agree.1 agree.2.1)
    · rw [Bool.eq_false_iff]
      intro meets
      obtain ⟨rest, matched⟩ := (Sql.exists_like_append _ _).mpr meets
      have runs := addressed [⟨0, 0, .enqueue (eventFor other (String.ofList rest))⟩]
        (single other (String.ofList rest))
        (by simp [Regular, Configured, eventFor, otherConfigured]) rfl
      rw [← String.toList_ofList (l := rest)] at matched
      have returned := Dequeue_single matched
      have reached := runs.dequeued 0 ⟨id, id⟩ target.1 target.2 1 _ configured returned _
        mem_cons_self
      exact different (Prod.ext reached.1.symm reached.2.symm)
  · intro unambiguous requests rq allowed runs
    have configured : ∀ request ∈ requests, Configured config request :=
      fun request member => (allowed request member).2
    exact (exec_named configured runs).addressed unambiguous

/-- Two storages of one virtual storage whose names differ in one character. -/
def lookalikes : Config where
  electionStrategy := "per_repository"
  listenAddr := "0.0.0.0:2305"
  tlsListenAddr := ""
  socketPath := ""
  batchSize := 10
  virtualStorages := [⟨"default", [⟨"gitaly_1", "tcp://a"⟩, ⟨"gitaly-1", "tcp://b"⟩], 0⟩]

/-- The worker of one storage is given the job of the other one. -/
theorem lookalikes_Dequeue :
    lookalikes.Validate = .ok () ∧
      exec step empty [⟨0, 0, .enqueue (eventFor ("default", "gitaly-1") "@hashed/a.git")⟩] =
        some (single ("default", "gitaly-1") "@hashed/a.git") ∧
      ((single ("default", "gitaly-1") "@hashed/a.git").Dequeue 0 ⟨id, id⟩ "default" "gitaly_1"
          10).2.toOption.map (fun rows => rows.map (fun row => row.job.targetNodeStorage)) =
        some ["gitaly-1"] := by
  decide

end PostgresReplicationEventQueue

end Gitaly.Datastore
