import Gitaly.Base.Runs
import Gitaly.Datastore.QueueMoves

/- The tables of the queue are kept in step by every statement. -/
namespace Gitaly.Datastore

open KeyedTable List

namespace PostgresReplicationEventQueue

/-- The three tables agree on what is in progress. -/
structure Inv (rq : PostgresReplicationEventQueue) : Prop where
  acquired : rq.Acquired
  inProgress : ∀ row ∈ rq.queue, row.state = .inProgress ↔ ∃ lockID, rq.Holds row.id lockID
  owned : ∀ job lockID, rq.Holds job lockID → ∃ row ∈ rq.queue, row.id = job ∧ row.lockID = lockID
  locked : ∀ row ∈ rq.queue, row.lockID ∈ rq.locks.keys
  indexed : ∀ row ∈ rq.queue, ∀ other ∈ rq.queue, row.Clashes other → row = other

/-- Each row comes from one with the same id, the same lock and the same place in the
unique index, and the index does not cover more rows. -/
def Descends (rq after : PostgresReplicationEventQueue) : Prop :=
  ∀ row ∈ after.queue, ∃ old ∈ rq.queue, old.id = row.id ∧ old.lockID = row.lockID ∧
    old.indexKey = row.indexKey ∧ (row.Indexed → old.Indexed)

variable {rq after : PostgresReplicationEventQueue} {now : Timestamp}

theorem Claims.descends {taken : List EventRow}
    (claimed : Claims rq after now taken) : Descends rq after := by
  intro row member
  obtain ⟨old, present, rfl⟩ := (claimed.queue row).mp member
  refine ⟨old, present, ?_⟩
  split
  · rename_i isTaken
    refine ⟨rfl, rfl, rfl, fun indexed => ⟨?_, indexed.2⟩⟩
    rcases claimed.untouched old isTaken with ready | failed
    · rw [ready]
      decide
    · rw [failed]
      decide
  · exact ⟨rfl, rfl, rfl, fun indexed => indexed⟩

/-- A statement that takes the jobs out of progress that it ends, and removes their job
locks. -/
structure Settles (rq after : PostgresReplicationEventQueue) (ended : Nat → Prop) : Prop where
  acquired : after.Acquired
  lockKeys : after.locks.keys = rq.locks.keys
  holds : ∀ job lockID, after.Holds job lockID ↔ rq.Holds job lockID ∧ ¬ ended job
  descends : Descends rq after
  outcome : ∀ row ∈ after.queue, ended row.id ∧ row.state ≠ .inProgress ∨
    ¬ ended row.id ∧ row ∈ rq.queue
  kept : ∀ row ∈ rq.queue, row.state = .inProgress → ¬ ended row.id → row ∈ after.queue

theorem empty_inv : empty.Inv := by
  have none : ∀ job lockID, ¬ empty.Holds job lockID := fun _ _ => not_mem_nil
  exact ⟨fun _ absent => absurd absent not_mem_nil,
    fun _ absent => absurd absent not_mem_nil,
    fun job lockID holds => absurd holds (none job lockID),
    fun _ absent => absurd absent not_mem_nil,
    fun _ absent => absurd absent not_mem_nil⟩

namespace Inv

variable (inv : rq.Inv)

include inv

variable {row : EventRow}

theorem own_lock (present : row ∈ rq.queue) {lockID : String} (holds : rq.Holds row.id lockID) :
    lockID = row.lockID := by
  obtain ⟨other, otherPresent, same, locked⟩ := inv.owned row.id lockID holds
  rw [← locked, eq_of_key otherPresent present same]

theorem holds_of_inProgress (present : row ∈ rq.queue) (progress : row.state = .inProgress) :
    rq.Holds row.id row.lockID := by
  obtain ⟨lockID, holds⟩ := (inv.inProgress row present).mp progress
  rw [inv.own_lock present holds] at holds
  exact holds

theorem lock_acquired (present : row ∈ rq.queue) (progress : row.state = .inProgress) :
    ∃ lock ∈ rq.locks, lock.id = row.lockID ∧ lock.acquired = true := by
  obtain ⟨lock, member, same⟩ := mem_keys.mp (inv.locked row present)
  refine ⟨lock, member, same, (inv.acquired lock member).mpr ⟨row.id, ?_⟩⟩
  rw [same]
  exact inv.holds_of_inProgress present progress

theorem unchanged (same : Unchanged rq after) : after.Inv := by
  have holds := same.holds
  refine ⟨?_, ?_, ?_, ?_, ?_⟩
  · intro lock member
    simp only [holds]
    rw [same.locks] at member
    exact inv.acquired lock member
  · intro row member
    simp only [holds]
    rw [same.queue] at member
    exact inv.inProgress row member
  · intro job lockID held
    rw [same.queue]
    exact inv.owned job lockID ((holds job lockID).mp held)
  · rw [same.queue, same.locks]
    exact inv.locked
  · rw [same.queue]
    exact inv.indexed

/-- A job lock has its event, so a new event has none. -/
theorem not_holds_of_fresh {job : Nat} (fresh : job ∉ rq.queue.keys) (lockID : String) :
    ¬ rq.Holds job lockID := by
  intro holds
  obtain ⟨row, present, same, -⟩ := inv.owned job lockID holds
  exact fresh (mem_keys.mpr ⟨row, present, same⟩)

theorem inserts (inserted : Inserts rq after row) : after.Inv := by
  have holds := inserted.holds
  refine ⟨?_, ?_, ?_, ?_, ?_⟩
  · intro lock member
    simp only [holds]
    rw [inserted.locks] at member
    rcases mem_upsert_keep.mp member with old | ⟨rfl, unknown⟩
    · exact inv.acquired lock old
    refine iff_of_false Bool.false_ne_true ?_
    rintro ⟨job, held⟩
    obtain ⟨other, present, -, same⟩ := inv.owned job row.lockID held
    exact unknown (same ▸ inv.locked other present)
  · intro other member
    simp only [holds]
    rcases (inserted.queue other).mp member with old | rfl
    · exact inv.inProgress other old
    refine iff_of_false (by rw [inserted.ready]; decide) ?_
    rintro ⟨lockID, held⟩
    exact inv.not_holds_of_fresh inserted.fresh lockID held
  · intro job lockID held
    obtain ⟨other, present, same⟩ := inv.owned job lockID ((holds job lockID).mp held)
    exact ⟨other, (inserted.queue other).mpr (.inl present), same⟩
  · intro other member
    rw [inserted.locks, mem_keys_upsert]
    rcases (inserted.queue other).mp member with old | rfl
    · exact .inl (inv.locked other old)
    · exact .inr rfl
  · intro first left second right clash
    rcases (inserted.queue first).mp left with oldLeft | rfl
    · rcases (inserted.queue second).mp right with oldRight | rfl
      · exact inv.indexed first oldLeft second oldRight clash
      · exact absurd ⟨clash.2.1, clash.1, clash.2.2.symm⟩ (inserted.admitted first oldLeft)
    · rcases (inserted.queue second).mp right with oldRight | rfl
      · exact absurd clash (inserted.admitted second oldRight)
      · rfl

theorem indexed_of_descends (descends : Descends rq after) :
    ∀ row ∈ after.queue, ∀ other ∈ after.queue, row.Clashes other → row = other := by
  intro row left other right clash
  obtain ⟨oldRow, oldLeft, rowID, -, rowKey, rowIndexed⟩ := descends row left
  obtain ⟨oldOther, oldRight, otherID, -, otherKey, otherIndexed⟩ := descends other right
  have before : oldRow.Clashes oldOther := by
    refine ⟨rowIndexed clash.1, otherIndexed clash.2.1, ?_⟩
    rw [rowKey, otherKey]
    exact clash.2.2
  have same := inv.indexed oldRow oldLeft oldOther oldRight before
  exact eq_of_key left right (by rw [← rowID, ← otherID, same])

theorem locked_of_descends (descends : Descends rq after)
    (keys : after.locks.keys = rq.locks.keys) :
    ∀ row ∈ after.queue, row.lockID ∈ after.locks.keys := by
  intro row member
  obtain ⟨old, present, -, same, -⟩ := descends row member
  rw [keys, ← same]
  exact inv.locked old present

section claims

variable {taken : List EventRow} (claimed : Claims rq after now taken)

include claimed

theorem claims_acquired : after.Acquired := by
  intro lock member
  rw [claimed.locks] at member
  obtain ⟨old, present, same⟩ := mem_updateWhere.mp member
  split at same
  · rename_i isTaken
    obtain ⟨row, taken, rowLock⟩ := mem_map.mp (of_decide_eq_true isTaken)
    subst same
    exact iff_of_true rfl ⟨row.id, (claimed.holds _ _).mpr (.inr ⟨row, taken, rfl, rowLock⟩)⟩
  · rename_i untaken
    subst same
    rw [inv.acquired old present]
    constructor
    · rintro ⟨job, held⟩
      exact ⟨job, (claimed.holds _ _).mpr (.inl held)⟩
    · rintro ⟨job, held⟩
      rcases (claimed.holds _ _).mp held with before | ⟨row, taken, -, rowLock⟩
      · exact ⟨job, before⟩
      · exact absurd (decide_eq_true (mem_map.mpr ⟨row, taken, rowLock⟩)) untaken

theorem claims_inProgress {row : EventRow} (member : row ∈ after.queue) :
    row.state = .inProgress ↔ ∃ lockID, after.Holds row.id lockID := by
  obtain ⟨old, present, same⟩ := (claimed.queue row).mp member
  split at same
  · rename_i isTaken
    subst same
    exact iff_of_true rfl ⟨old.lockID, (claimed.holds _ _).mpr (.inr ⟨old, isTaken, rfl, rfl⟩)⟩
  · rename_i untaken
    subst same
    rw [inv.inProgress old present]
    constructor
    · rintro ⟨lockID, held⟩
      exact ⟨lockID, (claimed.holds _ _).mpr (.inl held)⟩
    · rintro ⟨lockID, held⟩
      rcases (claimed.holds _ _).mp held with before | ⟨other, taken, sameID, -⟩
      · exact ⟨lockID, before⟩
      · have isOld := eq_of_key (claimed.present other taken) present sameID
        exact absurd (isOld ▸ taken) untaken

theorem claims_owned {job : Nat} {lockID : String} (held : after.Holds job lockID) :
    ∃ row ∈ after.queue, row.id = job ∧ row.lockID = lockID := by
  have before : ∃ row ∈ rq.queue, row.id = job ∧ row.lockID = lockID := by
    rcases (claimed.holds _ _).mp held with before | ⟨row, taken, same⟩
    · exact inv.owned job lockID before
    · exact ⟨row, claimed.present row taken, same⟩
  obtain ⟨old, present, rfl, rfl⟩ := before
  refine ⟨_, (claimed.queue _).mpr ⟨old, present, rfl⟩, ?_⟩
  split <;> exact ⟨rfl, rfl⟩

theorem claims : after.Inv := by
  have keys : after.locks.keys = rq.locks.keys := by rw [claimed.locks, updateWhere_keys]
  exact ⟨inv.claims_acquired claimed, fun _ => inv.claims_inProgress claimed,
    fun _ _ => inv.claims_owned claimed, inv.locked_of_descends claimed.descends keys,
    inv.indexed_of_descends claimed.descends⟩

end claims

theorem settles {ended : Nat → Prop} (settled : Settles rq after ended) : after.Inv := by
  have holds := settled.holds
  refine ⟨settled.acquired, ?_, ?_, inv.locked_of_descends settled.descends settled.lockKeys,
    inv.indexed_of_descends settled.descends⟩
  · intro row member
    rcases settled.outcome row member with ⟨ended, stopped⟩ | ⟨goesOn, before⟩
    · refine iff_of_false stopped ?_
      rintro ⟨lockID, held⟩
      exact ((holds _ _).mp held).2 ended
    · rw [inv.inProgress row before]
      constructor
      · rintro ⟨lockID, held⟩
        exact ⟨lockID, (holds _ _).mpr ⟨held, goesOn⟩⟩
      · rintro ⟨lockID, held⟩
        exact ⟨lockID, ((holds _ _).mp held).1⟩
  · intro job lockID held
    obtain ⟨before, goesOn⟩ := (holds _ _).mp held
    obtain ⟨row, present, rfl, rfl⟩ := inv.owned job lockID before
    have progress := (inv.inProgress row present).mpr ⟨row.lockID, before⟩
    exact ⟨row, settled.kept row present progress goesOn, rfl, rfl⟩

section acknowledge

variable (now : Timestamp) {state : JobState} {ids : List Nat}

/-- The job locks that an acknowledgement removes are those of the rows it finds in
progress: the similar rows that it deletes have none. -/
theorem toRelease_iff {job : Nat} {lockID : String} (holds : rq.Holds job lockID) :
    (job, lockID) ∈ rq.toRelease state ids ↔ job ∈ (rq.existing ids).map EventRow.id := by
  obtain ⟨row, present, rfl, rfl⟩ := inv.owned job lockID holds
  have progress := (inv.inProgress row present).mpr ⟨row.lockID, holds⟩
  rw [rq.mem_toRelease present, key_mem_map (fun _ acked => (rq.mem_existing.mp acked).1) present]
  constructor
  · rintro (⟨acked, found, deletes⟩ | found)
    · have same := eq_of_key (rq.mem_existing.mp found).1 present
        (deletes.same_id progress)
      exact same ▸ found
    · exact found
  · exact .inr

variable (nonempty : ids ≠ []) (allowed : allowToAck state = true)

include nonempty allowed

theorem acknowledge_settles :
    Settles rq (rq.Acknowledge now state ids).1
      (fun id => id ∈ (rq.existing ids).map EventRow.id) := by
  have rows : ∀ row, row ∈ (rq.Acknowledge now state ids).1.queue ↔ _ :=
    fun _ => rq.mem_Acknowledge_queue now nonempty allowed
  have named : ∀ row ∈ rq.queue, row.id ∈ (rq.existing ids).map EventRow.id ↔
      row ∈ rq.existing ids :=
    fun _ => key_mem_map (fun _ acked => (rq.mem_existing.mp acked).1)
  refine ⟨?_, ?_, ?_, ?_, ?_, ?_⟩
  · rw [rq.Acknowledge_allowed now nonempty allowed]
    exact release_acquired rq _ inv.acquired
  · rw [rq.Acknowledge_allowed now nonempty allowed]
    exact release_lock_keys rq _
  · intro job lockID
    rw [rq.Acknowledge_holds now nonempty allowed]
    exact and_congr_right (fun holds => not_congr (inv.toRelease_iff holds))
  · intro row member
    obtain ⟨old, present, -, rfl⟩ := (rows row).mp member
    refine ⟨old, present, ?_⟩
    split
    · rename_i acked
      refine ⟨rfl, rfl, rfl, fun indexed => ⟨?_, indexed.2⟩⟩
      rw [(rq.mem_existing.mp acked).2.2]
      decide
    · exact ⟨rfl, rfl, rfl, fun indexed => indexed⟩
  · intro row member
    obtain ⟨old, present, -, rfl⟩ := (rows row).mp member
    split
    · rename_i acked
      exact .inl ⟨(named old present).mpr acked, allowToAck_ne allowed⟩
    · rename_i spared
      exact .inr ⟨fun ended => spared ((named old present).mp ended), present⟩
  · intro row present progress goesOn
    refine (rows row).mpr ⟨row, present, fun acked found deletes => goesOn ?_, if_neg ?_⟩
    · exact mem_map.mpr ⟨acked, found, deletes.same_id progress⟩
    · exact fun acked => goesOn ((named row present).mpr acked)

end acknowledge

theorem inProgress_of_stale {now : Timestamp} {staleAfter : Int} (present : row ∈ rq.queue)
    (isStale : row.id ∈ rq.staleJobs now staleAfter) :
    row.state = .inProgress := by
  obtain ⟨jobLock, member, same⟩ := mem_map.mp isStale
  have holds := holds_of_mem (mem_filter.mp member).1
  rw [same] at holds
  exact (inv.inProgress row present).mpr ⟨jobLock.lockID, holds⟩

/-- A job has one job lock, so its staleness is that of the job. -/
theorem stale_iff {now : Timestamp} {staleAfter : Int} {jobLock : JobLockRow}
    (present : jobLock ∈ rq.jobLocks) :
    jobLock.jobID ∈ rq.staleJobs now staleAfter ↔ stale now staleAfter jobLock = true := by
  constructor
  · intro member
    obtain ⟨other, isStale, sameJob⟩ := mem_map.mp member
    obtain ⟨otherPresent, old⟩ := mem_filter.mp isStale
    obtain ⟨row, rowPresent, rowID, rowLock⟩ := inv.owned _ _ (holds_of_mem present)
    have otherHolds : rq.Holds row.id other.lockID := by
      rw [rowID, ← sameJob]
      exact holds_of_mem otherPresent
    have sameKey : other.key = jobLock.key :=
      Prod.ext sameJob ((inv.own_lock rowPresent otherHolds).trans rowLock)
    exact eq_of_key otherPresent present sameKey ▸ old
  · intro isStale
    exact mem_map.mpr ⟨jobLock, mem_filter.mpr ⟨present, isStale⟩, rfl⟩

theorem acknowledgeStale_settles (now : Timestamp) (staleAfter : Int) :
    Settles rq (rq.AcknowledgeStale now staleAfter)
      (fun id => id ∈ rq.staleJobs now staleAfter) := by
  have rows : ∀ row, row ∈ (rq.AcknowledgeStale now staleAfter).queue ↔ _ :=
    fun _ => rq.mem_AcknowledgeStale_queue now staleAfter
  refine ⟨release_acquired rq _ inv.acquired, release_lock_keys rq _, ?_, ?_, ?_, ?_⟩
  · intro job lockID
    refine (release_holds rq _).trans ?_
    rw [holds_iff]
    constructor
    · rintro ⟨jobLock, present, rfl, rfl, kept⟩
      refine ⟨⟨jobLock, present, rfl, rfl⟩, fun isStale => ?_⟩
      rw [(inv.stale_iff present).mp isStale] at kept
      cases kept
    · rintro ⟨⟨jobLock, present, rfl, rfl⟩, fresh⟩
      exact ⟨jobLock, present, rfl, rfl, Bool.eq_false_iff.mpr fun isStale =>
        fresh ((inv.stale_iff present).mpr isStale)⟩
  · intro row member
    obtain ⟨old, present, rfl⟩ := (rows row).mp member
    refine ⟨old, present, ?_⟩
    split
    · rename_i isStale
      refine ⟨rfl, rfl, rfl, fun indexed => ⟨?_, indexed.2⟩⟩
      rw [inv.inProgress_of_stale present isStale]
      decide
    · exact ⟨rfl, rfl, rfl, fun indexed => indexed⟩
  · intro row member
    obtain ⟨old, present, rfl⟩ := (rows row).mp member
    split
    · rename_i isStale
      exact .inl ⟨isStale, EventRow.timedOut_ne old⟩
    · rename_i goesOn
      exact .inr ⟨goesOn, present⟩
  · intro row present _ goesOn
    exact (rows row).mpr ⟨row, present, if_neg goesOn⟩

end Inv

/-- What a request can do to the tables, with what it hands out and what it ends. -/
inductive Takes (rq : PostgresReplicationEventQueue) (request : Request)
    (after : PostgresReplicationEventQueue) : Prop
  | unchanged (same : Unchanged rq after) (handed : rq.handedOut request = [])
      (ended : rq.ended request = [])
  | inserts (row : EventRow) (inserted : Inserts rq after row) (handed : rq.handedOut request = [])
      (ended : rq.ended request = [])
  | claims (taken : List EventRow) (claimed : Claims rq after request.now taken)
      (handed : ∀ id, id ∈ rq.handedOut request ↔ ∃ row ∈ taken, row.id = id)
      (ended : rq.ended request = [])
  | settles (settled : Settles rq after (fun id => id ∈ rq.ended request))
      (handed : rq.handedOut request = [])

theorem Dequeue_takes {worker : Nat}
    {ties : Ties} {virtual nodeStorage : String} {count : Int} :
    Takes rq ⟨worker, now, .dequeue ties virtual nodeStorage count⟩
      (rq.Dequeue now ties virtual nodeStorage count).1 := by
  by_cases negative : count < 0
  · have refused := rq.Dequeue_negative now ties virtual nodeStorage negative
    refine .unchanged ?_ ?_ rfl
    · rw [refused]
      exact .refl rq
    · unfold handedOut
      dsimp only
      rw [refused]
  · obtain ⟨taken, claimed, -, returned⟩ :=
      rq.Dequeue_claims now ties virtual nodeStorage (Int.not_lt.mp negative)
    refine .claims taken claimed (fun id => ?_) rfl
    unfold handedOut
    dsimp only
    rw [returned]
    simp only [mem_map, mem_insertionSort, exists_exists_and_eq_and, EventRow.dequeued_id]

theorem Inv.acknowledge_takes (inv : rq.Inv) {worker : Nat} {state : JobState} {ids : List Nat} :
    Takes rq ⟨worker, now, .acknowledge state ids⟩ (rq.Acknowledge now state ids).1 := by
  by_cases nonempty : ids = []
  · subst nonempty
    exact .unchanged (.refl rq) rfl rfl
  by_cases allowed : allowToAck state = true
  · have returned : rq.ended ⟨worker, now, .acknowledge state ids⟩ =
        (rq.existing ids).map EventRow.id := by
      unfold ended
      dsimp only
      rw [rq.Acknowledge_allowed now nonempty allowed]
    refine .settles ?_ rfl
    rw [returned]
    exact inv.acknowledge_settles now nonempty allowed
  · have refused := rq.Acknowledge_notSupported now nonempty (Bool.eq_false_iff.mpr allowed)
    refine .unchanged ?_ rfl ?_
    · rw [refused]
      exact .refl rq
    · unfold ended
      dsimp only
      rw [refused]

theorem step_takes (inv : rq.Inv) {request : Request} (taken : rq.step request = some after) :
    Takes rq request after := by
  obtain ⟨worker, now, call⟩ := request
  cases call with
  | enqueue event =>
    cases taken
    rcases rq.Enqueue_inserts now event with same | ⟨row, inserted⟩
    · exact .unchanged same rfl rfl
    · exact .inserts row inserted rfl rfl
  | dequeue ties virtual nodeStorage count =>
    cases taken
    exact Dequeue_takes
  | acknowledge state ids =>
    cases taken
    exact inv.acknowledge_takes
  | healthUpdate events =>
    cases taken
    exact .unchanged (rq.healthUpdate_unchanged now events) rfl rfl
  | acknowledgeStale staleAfter =>
    cases taken
    exact .settles (inv.acknowledgeStale_settles now staleAfter) rfl

theorem Takes.inv {request : Request} (takes : Takes rq request after) (inv : rq.Inv) :
    after.Inv := by
  cases takes with
  | unchanged same handed ended => exact inv.unchanged same
  | inserts row inserted handed ended => exact inv.inserts inserted
  | claims taken claimed handed ended => exact inv.claims claimed
  | settles settled handed => exact inv.settles settled

section takes

variable {request : Request}
  (takes : Takes rq request after)

include takes

/-- Events are handed out only while nothing holds their lock. -/
theorem Takes.handed {event : Nat} (handed : event ∈ rq.handedOut request) :
    ∃ row ∈ rq.queue, row.id = event ∧ ∀ job, ¬ rq.Holds job row.lockID := by
  cases takes with
  | unchanged same none ended => exact absurd (none ▸ handed) not_mem_nil
  | inserts other inserted none ended => exact absurd (none ▸ handed) not_mem_nil
  | settles settled none => exact absurd (none ▸ handed) not_mem_nil
  | claims taken claimed returned ended =>
    obtain ⟨row, isTaken, same⟩ := (returned event).mp handed
    exact ⟨row, claimed.present row isTaken, same, claimed.free row isTaken⟩

/-- The job locks after a request, by what it ends and what it hands out. -/
theorem Takes.holds_iff {job : Nat} {lockID : String} :
    after.Holds job lockID ↔ rq.Holds job lockID ∧ job ∉ rq.ended request ∨
      job ∈ rq.handedOut request ∧ ∃ row ∈ rq.queue, row.id = job ∧ row.lockID = lockID := by
  cases takes with
  | unchanged same handed ended => simp [same.holds, handed, ended]
  | inserts row inserted handed ended => simp [inserted.holds, handed, ended]
  | settles settled handed => simp [settled.holds, handed]
  | claims taken claimed handed ended =>
    rw [claimed.holds, handed, ended]
    simp only [not_mem_nil, not_false_eq_true, and_true]
    refine or_congr_right ⟨?_, ?_⟩
    · rintro ⟨row, isTaken, rfl, rfl⟩
      exact ⟨⟨row, isTaken, rfl⟩, row, claimed.present row isTaken, rfl, rfl⟩
    · rintro ⟨⟨row, isTaken, rfl⟩, other, present, same, rfl⟩
      have isRow := eq_of_key (claimed.present row isTaken) present same.symm
      exact ⟨row, isTaken, rfl, by rw [isRow]⟩

end takes

end PostgresReplicationEventQueue

end Gitaly.Datastore
