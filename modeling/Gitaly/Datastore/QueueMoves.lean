import Gitaly.Datastore.Queue

/- What the statements of the queue can do to its tables. -/
namespace Gitaly.Datastore

open List KeyedTable

namespace PostgresReplicationEventQueue

variable (rq : PostgresReplicationEventQueue)

/-- A job lock ties the job to the lock. -/
def Holds (job : Nat) (lockID : String) : Prop := (job, lockID) ∈ rq.jobLocks.keys

theorem holds_iff {rq : PostgresReplicationEventQueue} {job : Nat} {lockID : String} :
    rq.Holds job lockID ↔
      ∃ jobLock ∈ rq.jobLocks, jobLock.jobID = job ∧ jobLock.lockID = lockID := by
  simp only [Holds, KeyedTable.mem_keys, JobLockRow.key, Prod.mk.injEq]

theorem holds_of_mem {rq : PostgresReplicationEventQueue} {jobLock : JobLockRow}
    (member : jobLock ∈ rq.jobLocks) : rq.Holds jobLock.jobID jobLock.lockID :=
  holds_iff.mpr ⟨jobLock, member, rfl, rfl⟩

/-- A lock is acquired as long as it has a job lock. -/
def Acquired : Prop := ∀ lock ∈ rq.locks, lock.acquired = true ↔ ∃ job, rq.Holds job lock.id

/-- What is left by a statement that fails or finds nothing to do. -/
structure Unchanged (rq after : PostgresReplicationEventQueue) : Prop where
  queue : after.queue = rq.queue
  locks : after.locks = rq.locks
  holds : ∀ job lockID, after.Holds job lockID ↔ rq.Holds job lockID

theorem Unchanged.refl : Unchanged rq rq := ⟨rfl, rfl, fun _ _ => Iff.rfl⟩

theorem healthUpdate_unchanged (now : Timestamp)
    (events : List (Nat × String)) : Unchanged rq (rq.healthUpdate now events) := by
  refine ⟨rfl, rfl, fun job lockID => ?_⟩
  unfold Holds healthUpdate
  rw [updateWhere_keys]

structure Inserts (rq after : PostgresReplicationEventQueue) (row : EventRow) : Prop where
  fresh : row.id ∉ rq.queue.keys
  admitted : ∀ other ∈ rq.queue, ¬ row.Clashes other
  ready : row.state = .ready
  queue : ∀ other, other ∈ after.queue ↔ other ∈ rq.queue ∨ other = row
  locks : after.locks = rq.locks.upsert ⟨row.lockID, false⟩ (fun lock => lock) (fun _ => rfl)
  holds : ∀ job lockID, after.Holds job lockID ↔ rq.Holds job lockID

theorem Enqueue_inserts (now : Timestamp) (event : ReplicationEvent) :
    Unchanged rq (rq.Enqueue now event).1 ∨ ∃ row, Inserts rq (rq.Enqueue now event).1 row := by
  unfold Enqueue
  dsimp only
  split
  · rename_i fresh
    exact .inr ⟨_, fresh.1, fresh.2, rfl, fun _ => mem_insert _ _ fresh.1, rfl, fun _ _ => Iff.rfl⟩
  · exact .inl ⟨rfl, rfl, fun _ _ => Iff.rfl⟩

variable {row : EventRow}

theorem firstValue_mem {rank : Nat → Nat} {rows : List EventRow} {id : Nat}
    (first : firstValue rank rows row = some id) : ∃ other ∈ rows, other.id = id := by
  obtain ⟨other, head, same⟩ := Option.map_eq_some_iff.mp first
  have sorted := (mem_insertionSort _).mp (mem_of_head? head)
  exact ⟨other, (mem_filter.mp sorted).1, same⟩

section candidates

variable (ties : Ties) (virtual nodeStorage : String)
  (count : Nat)

theorem candidates_waiting {row : EventRow}
    (candidate : row ∈ rq.candidates ties virtual nodeStorage count) :
    row ∈ rq.waiting virtual nodeStorage := by
  have sorted := (mem_insertionSort _).mp (mem_of_mem_take candidate)
  obtain ⟨present, first⟩ := mem_filter.mp sorted
  obtain ⟨other, -, isFirst⟩ := mem_map.mp (of_decide_eq_true first)
  obtain ⟨found, waits, same⟩ := firstValue_mem isFirst
  have row_eq : found = row := eq_of_key (mem_filter.mp waits).1 present same
  exact row_eq ▸ waits

theorem candidates_ids_nodup :
    ((rq.candidates ties virtual nodeStorage count).map EventRow.id).Nodup := by
  refine List.Nodup.sublist ((take_sublist _ _).map EventRow.id) ?_
  rw [((perm_insertionSort _ _).map EventRow.id).nodup_iff]
  exact rq.queue.unique.sublist (filter_sublist.map EventRow.id)

end candidates

theorem pattern_toList (virtual nodeStorage : String) :
    (virtual ++ "|" ++ nodeStorage ++ "|%").toList =
      (virtual ++ "|" ++ nodeStorage ++ "|").toList ++ ['%'] := by
  simp only [String.toList_append, append_assoc]
  rfl

variable {virtual nodeStorage : String}

theorem waiting_like (rq : PostgresReplicationEventQueue)
    (waits : row ∈ rq.waiting virtual nodeStorage) :
    row ∈ rq.queue ∧ Sql.like ((virtual ++ "|" ++ nodeStorage ++ "|").toList ++ ['%'])
      row.lockID.toList = true := by
  obtain ⟨present, unlocked, -⟩ := (mem_filter.mp waits).imp_right of_decide_eq_true
  obtain ⟨lock, free, same⟩ := mem_map.mp unlocked
  have matched := (Bool.and_eq_true_iff.mp (mem_filter.mp free).2).1
  rw [pattern_toList, same] at matched
  exact ⟨present, matched⟩

/-- The rows that `Dequeue` takes; none of their locks has a job lock. -/
structure Claims (rq after : PostgresReplicationEventQueue) (now : Timestamp)
    (taken : List EventRow) : Prop where
  present : ∀ row ∈ taken, row ∈ rq.queue
  untouched : ∀ row ∈ taken, row.state = .ready ∨ row.state = .failed
  free : ∀ row ∈ taken, ∀ job, ¬ rq.Holds job row.lockID
  queue : ∀ row, row ∈ after.queue ↔
    ∃ old ∈ rq.queue, (if old ∈ taken then old.dequeued now else old) = row
  locks : after.locks = rq.locks.updateWhere (fun lock => lock.id ∈ taken.map EventRow.lockID)
    (LockRow.acquire true) (LockRow.acquire_id true)
  holds : ∀ job lockID, after.Holds job lockID ↔
    rq.Holds job lockID ∨ ∃ row ∈ taken, row.id = job ∧ row.lockID = lockID

section

variable (now : Timestamp) (ties : Ties)

section

variable {count : Int} (virtual nodeStorage : String)

theorem Dequeue_candidates (limit : 0 ≤ count) :
    Claims rq (rq.Dequeue now ties virtual nodeStorage count).1 now
        (rq.candidates ties virtual nodeStorage count.toNat) ∧
      (rq.Dequeue now ties virtual nodeStorage count).2 =
        .ok (((rq.candidates ties virtual nodeStorage count.toNat).map
          (EventRow.dequeued now)).insertionSort (fun row other => row.id ≤ other.id)) := by
  have waits : ∀ row ∈ rq.candidates ties virtual nodeStorage count.toNat,
      row ∈ rq.waiting virtual nodeStorage :=
    fun _ => rq.candidates_waiting ties virtual nodeStorage count.toNat
  have distinct := rq.candidates_ids_nodup ties virtual nodeStorage count.toNat
  unfold Dequeue
  rw [if_neg (Int.not_lt.mpr limit)]
  dsimp only
  generalize rq.candidates ties virtual nodeStorage count.toNat = taken at waits distinct ⊢
  have fields : ∀ row ∈ taken, row ∈ rq.queue ∧ (row.state = .ready ∨ row.state = .failed) ∧
      ∀ job, ¬ rq.Holds job row.lockID := by
    intro row member
    obtain ⟨present, -, untouched, free⟩ :=
      (mem_filter.mp (waits row member)).imp_right of_decide_eq_true
    refine ⟨present, untouched, fun job holds => ?_⟩
    obtain ⟨jobLock, held, -, same⟩ := holds_iff.mp holds
    exact free jobLock held same
  have tracked : (taken.map (EventRow.dequeued now)).map
      (fun row => (⟨row.id, row.lockID, now⟩ : JobLockRow)) =
        taken.map (fun row => ⟨row.id, row.lockID, now⟩) := map_map
  have locked : (taken.map (EventRow.dequeued now)).map EventRow.lockID =
      taken.map EventRow.lockID := map_map
  rw [tracked, locked]
  have keys : ((taken.map (fun row => (⟨row.id, row.lockID, now⟩ : JobLockRow))).map
      JobLockRow.key).Nodup := by
    rw [map_map]
    exact List.Nodup.of_map Prod.fst (by rw [map_map]; exact distinct)
  have fresh : ∀ jobLock ∈ taken.map (fun row => (⟨row.id, row.lockID, now⟩ : JobLockRow)),
      jobLock.key ∉ rq.jobLocks.keys := by
    intro jobLock member
    obtain ⟨row, isTaken, rfl⟩ := mem_map.mp member
    exact (fields row isTaken).2.2 row.id
  obtain ⟨jobLocks, inserted⟩ := Option.isSome_iff_exists.mp (insertAll_isSome keys fresh)
  have rows := insertAll_rows inserted
  have named : ∀ row ∈ rq.queue, row.id ∈ taken.map EventRow.id ↔ row ∈ taken :=
    fun _ => key_mem_map (fun row member => (fields row member).1)
  rw [inserted]
  refine ⟨⟨fun row member => (fields row member).1, fun row member => (fields row member).2.1,
    fun row member => (fields row member).2.2, fun row => ?_, rfl, fun job lockID => ?_⟩, rfl⟩
  · rw [mem_updateWhere]
    simp only [decide_eq_true_eq]
    constructor
    all_goals
      rintro ⟨old, present, same⟩
      exact ⟨old, present, by simpa only [named old present] using same⟩
  · simp only [Holds, KeyedTable.keys, rows, map_append, mem_append, map_map,
      mem_map, Function.comp_apply, JobLockRow.key, Prod.mk.injEq]

theorem Dequeue_claims (limit : 0 ≤ count) :
    ∃ taken, Claims rq (rq.Dequeue now ties virtual nodeStorage count).1 now taken ∧
      (∀ row ∈ taken, row ∈ rq.waiting virtual nodeStorage) ∧
      (rq.Dequeue now ties virtual nodeStorage count).2 =
        .ok ((taken.map (EventRow.dequeued now)).insertionSort
          (fun row other => row.id ≤ other.id)) := by
  obtain ⟨claimed, returned⟩ := rq.Dequeue_candidates now ties virtual nodeStorage limit
  exact ⟨_, claimed, fun _ => rq.candidates_waiting ties virtual nodeStorage count.toNat,
    returned⟩

theorem Dequeue_negative (negative : count < 0) :
    rq.Dequeue now ties virtual nodeStorage count = (rq, .error .negativeLimit) :=
  if_pos negative

end

theorem Dequeue_returned (count : Int) {rows : List EventRow}
    (returned : (rq.Dequeue now ties virtual nodeStorage count).2 = .ok rows) :
    ∀ row ∈ rows, ∃ old ∈ rq.waiting virtual nodeStorage, old.dequeued now = row := by
  intro row member
  by_cases negative : count < 0
  · rw [Dequeue_negative rq now ties virtual nodeStorage negative] at returned
    cases returned
  obtain ⟨taken, -, waits, result⟩ :=
    Dequeue_claims rq now ties virtual nodeStorage (Int.not_lt.mp negative)
  rw [result] at returned
  cases returned
  obtain ⟨old, isTaken, rfl⟩ := mem_map.mp ((mem_insertionSort _).mp member)
  exact ⟨old, waits old isTaken, rfl⟩

end

section release

variable (removed : JobLockRow → Bool)

theorem release_holds {job : Nat} {lockID : String} :
    (rq.release removed).Holds job lockID ↔ ∃ jobLock ∈ rq.jobLocks,
      jobLock.jobID = job ∧ jobLock.lockID = lockID ∧ removed jobLock = false := by
  have kept : ∀ jobLock, jobLock ∈ (rq.release removed).jobLocks ↔
      jobLock ∈ rq.jobLocks ∧ removed jobLock = false := fun _ => mem_delete _ _
  rw [holds_iff]
  constructor
  · rintro ⟨jobLock, left, same, held⟩
    obtain ⟨before, isKept⟩ := (kept jobLock).mp left
    exact ⟨jobLock, before, same, held, isKept⟩
  · rintro ⟨jobLock, before, same, held, isKept⟩
    exact ⟨jobLock, (kept jobLock).mpr ⟨before, isKept⟩, same, held⟩

theorem release_locks :
    (rq.release removed).locks = rq.locks.updateWhere
      (fun lock => lock.id ∈ (rq.jobLocks.rows.filter removed).map JobLockRow.lockID ∧
        amount (rq.jobLocks.rows.filter removed) lock.id = amount rq.jobLocks.rows lock.id)
      (LockRow.acquire false) (LockRow.acquire_id false) := rfl

theorem release_lock_keys : (rq.release removed).locks.keys = rq.locks.keys := by
  rw [release_locks, updateWhere_keys]

/-- The amounts agree when all job locks of the lock are removed. -/
theorem amount_filter_eq_iff (rows : List JobLockRow) (lockID : String) :
    amount (rows.filter removed) lockID = amount rows lockID ↔
      ∀ jobLock ∈ rows, jobLock.lockID = lockID → removed jobLock = true := by
  unfold amount
  rw [countP_eq_length_filter, countP_eq_length_filter, filter_comm, length_filter_eq_length_iff]
  simp only [mem_filter, decide_eq_true_eq, and_imp]

/-- A lock is released with the last of its job locks, and not before. -/
theorem release_acquired (acquired : rq.Acquired) : (rq.release removed).Acquired := by
  intro lock member
  rw [release_locks] at member
  obtain ⟨old, present, same⟩ := mem_updateWhere.mp member
  split at same
  · rename_i lost
    obtain ⟨-, amounts⟩ := of_decide_eq_true lost
    subst same
    refine iff_of_false Bool.false_ne_true ?_
    rintro ⟨job, holds⟩
    obtain ⟨jobLock, before, -, held, kept⟩ := (release_holds rq removed).mp holds
    rw [(amount_filter_eq_iff removed _ _).mp amounts jobLock before held] at kept
    cases kept
  · rename_i keeps
    subst same
    rw [acquired old present]
    constructor
    · rintro ⟨job, holds⟩
      obtain ⟨jobLock, before, -, held⟩ := holds_iff.mp holds
      by_contra none
      have all : ∀ other ∈ rq.jobLocks.rows, other.lockID = old.id → removed other = true := by
        intro other present heldToo
        by_contra kept
        exact none ⟨other.jobID, (release_holds rq removed).mpr
          ⟨other, present, rfl, heldToo, Bool.eq_false_iff.mpr kept⟩⟩
      have lost := mem_map.mpr ⟨jobLock, mem_filter.mpr ⟨before, all jobLock before held⟩, held⟩
      exact keeps (decide_eq_true ⟨lost, (amount_filter_eq_iff removed _ _).mpr all⟩)
    · rintro ⟨job, holds⟩
      obtain ⟨jobLock, before, same, held, -⟩ := (release_holds rq removed).mp holds
      exact ⟨job, holds_iff.mpr ⟨jobLock, before, same, held⟩⟩

end release

theorem Deletes.same_id {state : JobState} {acked row : EventRow}
    (deletes : Deletes state acked row)
    (progress : row.state = .inProgress) : acked.id = row.id := by
  rcases deletes with ⟨-, same⟩ | ⟨-, same | similar⟩
  · exact same
  · exact same
  · rw [similar.1] at progress
    cases progress

section acknowledge

variable {ids : List Nat}

theorem mem_existing :
    row ∈ rq.existing ids ↔ row ∈ rq.queue ∧ row.id ∈ ids ∧ row.state = .inProgress := by
  unfold existing
  rw [mem_filter, decide_eq_true_iff]
  exact Iff.rfl

theorem existing_nil : rq.existing [] = [] :=
  filter_eq_nil_iff.mpr (fun _ _ named => not_mem_nil (of_decide_eq_true named).1)

theorem deleted_iff {state : JobState} :
    rq.deleted state ids row = true ↔ ∃ acked ∈ rq.existing ids, Deletes state acked row := by
  unfold deleted
  simp only [any_eq_true, decide_eq_true_eq]

theorem updated_iff (present : row ∈ rq.queue) :
    rq.updated ids row = true ↔ row ∈ rq.existing ids := by
  unfold updated
  rw [decide_eq_true_iff]
  exact key_mem_map (fun _ acked => ((mem_existing rq).mp acked).1) present

theorem mem_toRelease {state : JobState} (present : row ∈ rq.queue) :
    (row.id, row.lockID) ∈ rq.toRelease state ids ↔
      (∃ acked ∈ rq.existing ids, Deletes state acked row) ∨ row ∈ rq.existing ids := by
  rw [← deleted_iff, ← updated_iff rq present, ← Bool.or_eq_true]
  constructor
  · intro member
    obtain ⟨other, released, same⟩ := mem_map.mp member
    obtain ⟨otherPresent, affected⟩ := mem_filter.mp released
    have isRow := eq_of_key otherPresent present (congrArg Prod.fst same)
    exact isRow ▸ affected
  · intro affected
    exact mem_map.mpr ⟨row, mem_filter.mpr ⟨present, affected⟩, rfl⟩

theorem Acknowledge_nil (now : Timestamp) (state : JobState) :
    rq.Acknowledge now state [] = (rq, .ok []) := rfl

theorem Acknowledge_notSupported (now : Timestamp) {state : JobState} (nonempty : ids ≠ [])
    (refused : allowToAck state = false) :
    rq.Acknowledge now state ids = (rq, .error (.notSupported state)) := by
  unfold Acknowledge
  rw [if_neg nonempty, if_pos refused]

section allowed

variable (now : Timestamp) {state : JobState} (nonempty : ids ≠ [])
  (allowed : allowToAck state = true)

include nonempty allowed

theorem Acknowledge_allowed :
    rq.Acknowledge now state ids =
      ({ rq.release (fun jobLock => jobLock.key ∈ rq.toRelease state ids) with
          queue := (rq.queue.delete (rq.deleted state ids)).updateWhere (rq.updated ids)
            (EventRow.acknowledged now state) (EventRow.acknowledged_id now state) },
        .ok ((rq.existing ids).map EventRow.id)) := by
  unfold Acknowledge
  rw [if_neg nonempty, if_neg (by rw [allowed]; exact Bool.noConfusion)]

/-- The rows after an acknowledgement: those it deletes are gone, the others it names
have the new state. -/
theorem mem_Acknowledge_queue {row : EventRow} :
    row ∈ (rq.Acknowledge now state ids).1.queue ↔ ∃ old ∈ rq.queue,
      (∀ acked ∈ rq.existing ids, ¬ Deletes state acked old) ∧
      (if old ∈ rq.existing ids then old.acknowledged now state else old) = row := by
  rw [rq.Acknowledge_allowed now nonempty allowed, mem_updateWhere]
  simp only [mem_delete, ← Bool.not_eq_true, deleted_iff, not_exists, not_and]
  constructor
  · rintro ⟨old, ⟨present, kept⟩, same⟩
    exact ⟨old, present, kept, by simpa only [rq.updated_iff present] using same⟩
  · rintro ⟨old, present, kept, same⟩
    exact ⟨old, ⟨present, kept⟩, by simpa only [rq.updated_iff present] using same⟩

theorem mem_Acknowledge_keys {row : EventRow} (present : row ∈ rq.queue) :
    row.id ∈ (rq.Acknowledge now state ids).1.queue.keys ↔
      ∀ acked ∈ rq.existing ids, ¬ Deletes state acked row := by
  rw [KeyedTable.mem_keys]
  constructor
  · rintro ⟨kept, member, same⟩
    obtain ⟨old, oldPresent, spared, rfl⟩ :=
      (rq.mem_Acknowledge_queue now nonempty allowed).mp member
    have sameID : old.id = row.id := by split at same <;> exact same
    exact eq_of_key oldPresent present sameID ▸ spared
  · intro spared
    refine ⟨_, (rq.mem_Acknowledge_queue now nonempty allowed).mpr ⟨row, present, spared, rfl⟩, ?_⟩
    split <;> rfl

theorem Acknowledge_holds {job : Nat} {lockID : String} :
    (rq.Acknowledge now state ids).1.Holds job lockID ↔
      rq.Holds job lockID ∧ (job, lockID) ∉ rq.toRelease state ids := by
  rw [rq.Acknowledge_allowed now nonempty allowed]
  refine (release_holds rq _).trans ?_
  rw [holds_iff]
  constructor
  · rintro ⟨jobLock, present, rfl, rfl, kept⟩
    exact ⟨⟨jobLock, present, rfl, rfl⟩, of_decide_eq_false kept⟩
  · rintro ⟨⟨jobLock, present, rfl, rfl⟩, kept⟩
    exact ⟨jobLock, present, rfl, rfl, decide_eq_false kept⟩

end allowed

end acknowledge

theorem mem_AcknowledgeStale_queue (now : Timestamp) (staleAfter : Int) :
    row ∈ (rq.AcknowledgeStale now staleAfter).queue ↔ ∃ old ∈ rq.queue,
      (if old.id ∈ rq.staleJobs now staleAfter then old.timedOut else old) = row := by
  unfold AcknowledgeStale
  rw [mem_updateWhere]
  simp only [decide_eq_true_eq]

end PostgresReplicationEventQueue

end Gitaly.Datastore
