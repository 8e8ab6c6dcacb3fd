import Gitaly.Datastore.QueueInvariant

/- Where the rows of the queue come from: a row is enqueued once, and from then on only its
state, its attempts and the time of its last change vary. -/
namespace Gitaly.Datastore

/-- The row is not settled yet. -/
def EventRow.Active (row : EventRow) : Prop := row.state ∉ [.completed, .dead, .cancelled]

instance (row : EventRow) : Decidable row.Active := inferInstanceAs (Decidable (row.state ∉ _))

theorem EventRow.active_of_inProgress {row : EventRow} (progress : row.state = .inProgress) :
    row.Active := by
  unfold Active
  rw [progress]
  decide

/-- The row as it is some time later. A settled row stays settled. -/
structure EventRow.Follows (old row : EventRow) : Prop where
  id : row.id = old.id
  event : row.toReplicationEvent = old.toReplicationEvent
  lockID : row.lockID = old.lockID
  active : row.Active → old.Active

namespace EventRow.Follows

theorem refl (row : EventRow) : row.Follows row := ⟨rfl, rfl, rfl, fun active => active⟩

theorem trans {first second third : EventRow} (early : first.Follows second)
    (late : second.Follows third) : first.Follows third :=
  ⟨late.id.trans early.id, late.event.trans early.event, late.lockID.trans early.lockID,
    fun active => early.active (late.active active)⟩

theorem job {old row : EventRow} (follows : old.Follows row) : row.job = old.job :=
  congrArg ReplicationEvent.job follows.event

end EventRow.Follows

namespace PostgresReplicationEventQueue

variable (rq : PostgresReplicationEventQueue)

/-- The row that `Enqueue` inserts. -/
def enqueued (now : Timestamp) (event : ReplicationEvent) : EventRow :=
  { event with
    id := rq.nextID, state := .ready, createdAt := now, updatedAt := none, attempt := 3
    lockID := lockID event.job }

variable {row : EventRow}

theorem Enqueue_queue (now : Timestamp)
    (event : ReplicationEvent) (member : row ∈ (rq.Enqueue now event).1.queue) :
    row ∈ rq.queue ∨ row = rq.enqueued now event := by
  unfold Enqueue at member
  dsimp only at member
  split at member
  · rename_i fresh
    exact (KeyedTable.mem_insert _ _ fresh.1).mp member
  · exact .inl member

variable {rq after : PostgresReplicationEventQueue} {request : Request}

theorem step_rows (taken : rq.step request = some after) (member : row ∈ after.queue) :
    (∃ old ∈ rq.queue, row.id = old.id ∧ (rq.Inv → old.Follows row)) ∨
      ∃ event, request.call = .enqueue event ∧ row = rq.enqueued request.now event := by
  obtain ⟨worker, now, call⟩ := request
  have stays : ∀ {old : EventRow}, old ∈ rq.queue →
      ∃ other ∈ rq.queue, old.id = other.id ∧ (rq.Inv → other.Follows old) :=
    fun {old} present => ⟨old, present, rfl, fun _ => .refl old⟩
  cases call with
  | enqueue event =>
    cases taken
    rcases rq.Enqueue_queue now event member with present | new
    · exact .inl (stays present)
    · exact .inr ⟨event, rfl, new⟩
  | dequeue ties virtual nodeStorage count =>
    cases taken
    refine .inl ?_
    by_cases negative : count < 0
    · dsimp only at member
      rw [rq.Dequeue_negative now ties virtual nodeStorage negative] at member
      exact stays member
    · obtain ⟨taken, claimed, -⟩ :=
        rq.Dequeue_claims now ties virtual nodeStorage (Int.not_lt.mp negative)
      obtain ⟨old, present, rfl⟩ := (claimed.queue row).mp member
      split
      · rename_i isTaken
        refine ⟨old, present, rfl, fun _ => ⟨rfl, rfl, rfl, fun _ => ?_⟩⟩
        rcases claimed.untouched old isTaken with ready | failed
        · simp [EventRow.Active, ready]
        · simp [EventRow.Active, failed]
      · exact stays present
  | acknowledge state ids =>
    cases taken
    refine .inl ?_
    by_cases nonempty : ids = []
    · subst nonempty
      exact stays member
    by_cases allowed : allowToAck state = true
    · obtain ⟨old, present, -, rfl⟩ := (rq.mem_Acknowledge_queue now nonempty allowed).mp member
      split
      · rename_i acked
        have progress := ((rq.mem_existing).mp acked).2.2
        exact ⟨old, present, rfl,
          fun _ => ⟨rfl, rfl, rfl, fun _ => EventRow.active_of_inProgress progress⟩⟩
      · exact stays present
    · rw [rq.Acknowledge_notSupported now nonempty (Bool.eq_false_iff.mpr allowed)] at member
      exact stays member
  | healthUpdate events =>
    cases taken
    exact .inl (stays member)
  | acknowledgeStale staleAfter =>
    cases taken
    refine .inl ?_
    obtain ⟨old, present, rfl⟩ := (rq.mem_AcknowledgeStale_queue now staleAfter).mp member
    split
    · rename_i isStale
      refine ⟨old, present, rfl, fun inv => ⟨rfl, rfl, rfl, fun _ => ?_⟩⟩
      exact EventRow.active_of_inProgress (inv.inProgress_of_stale present isStale)
    · exact stays present

theorem step_origin (inv : rq.Inv) (taken : rq.step request = some after)
    (member : row ∈ after.queue) :
    (∃ old ∈ rq.queue, old.Follows row) ∨
      ∃ event, request.call = .enqueue event ∧ row = rq.enqueued request.now event := by
  refine (step_rows taken member).imp_left ?_
  intro earlier
  obtain ⟨old, present, _, follows⟩ := earlier
  exact ⟨old, present, follows inv⟩

section

variable (rq : PostgresReplicationEventQueue) (now : Timestamp)

theorem Enqueue_nextID (event : ReplicationEvent) :
    (rq.Enqueue now event).1.nextID = rq.nextID + 1 := by
  unfold Enqueue
  dsimp only
  split <;> rfl

theorem Acknowledge_nextID (state : JobState) (ids : List Nat) :
    (rq.Acknowledge now state ids).1.nextID = rq.nextID := by
  unfold Acknowledge
  split
  · rfl
  · split <;> rfl

theorem Dequeue_nextID (ties : Ties) (virtual nodeStorage : String) (count : Int) :
    (rq.Dequeue now ties virtual nodeStorage count).1.nextID = rq.nextID := by
  unfold Dequeue
  dsimp only
  split
  · rfl
  · split <;> rfl

end

theorem step_nextID (taken : rq.step request = some after) :
    rq.nextID ≤ after.nextID := by
  obtain ⟨worker, now, call⟩ := request
  cases call with
  | enqueue event =>
    cases taken
    rw [rq.Enqueue_nextID now event]
    exact Nat.le_succ _
  | dequeue ties virtual nodeStorage count =>
    cases taken
    rw [rq.Dequeue_nextID now ties virtual nodeStorage count]
  | acknowledge state ids =>
    cases taken
    rw [rq.Acknowledge_nextID now state ids]
  | healthUpdate events | acknowledgeStale staleAfter =>
    cases taken
    exact le_rfl

/-- The ids come from a sequence that is ahead of them. -/
def Ahead (rq : PostgresReplicationEventQueue) : Prop := ∀ row ∈ rq.queue, row.id < rq.nextID

theorem Ahead.fresh {rq : PostgresReplicationEventQueue} (ahead : rq.Ahead) :
    rq.nextID ∉ rq.queue.keys := by
  intro used
  obtain ⟨row, present, same⟩ := KeyedTable.mem_keys.mp used
  exact absurd (ahead row present) (by omega)

theorem Ahead.step (ahead : rq.Ahead) (taken : rq.step request = some after) :
    after.Ahead := by
  have later := step_nextID taken
  intro row member
  rcases step_rows taken member with ⟨old, present, same, _⟩ | ⟨event, called, rfl⟩
  · have below := ahead old present
    omega
  obtain ⟨worker, now, call⟩ := request
  subst called
  cases taken
  rw [rq.Enqueue_nextID now event]
  exact Nat.lt_succ_self _

end PostgresReplicationEventQueue

end Gitaly.Datastore
