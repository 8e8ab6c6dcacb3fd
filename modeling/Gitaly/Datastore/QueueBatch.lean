import Gitaly.Datastore.QueueOrigin

/- A statement that inserts several events into the queue, all or none of them. -/
namespace Gitaly.Datastore.PostgresReplicationEventQueue

open List

/-- The sequence moves on even if the rows are not inserted. -/
def insertAll (rq : PostgresReplicationEventQueue) (now : Timestamp) :
    List ReplicationEvent → PostgresReplicationEventQueue × Except QueueError (List EventRow)
  | [] => (rq, .ok [])
  | event :: rest =>
    match rq.Enqueue now event with
    | (after, .error err) => ({ rq with nextID := after.nextID }, .error err)
    | (after, .ok row) =>
      match after.insertAll now rest with
      | (final, .error err) => ({ rq with nextID := final.nextID }, .error err)
      | (final, .ok rows) => (final, .ok (row :: rows))

/-- The statement inserts the rows of the events. -/
structure Adds (rq after : PostgresReplicationEventQueue) (events : List ReplicationEvent)
    (rows : List EventRow) : Prop where
  queue : ∀ row, row ∈ after.queue ↔ row ∈ rq.queue ∨ row ∈ rows
  events : rows.map EventRow.toReplicationEvent = events
  ready : ∀ row ∈ rows, row.state = .ready
  ids : ∀ row ∈ rows, rq.nextID ≤ row.id ∧ row.id < after.nextID
  inv : rq.Inv → after.Inv

theorem Enqueue_ok {rq after : PostgresReplicationEventQueue} {now : Timestamp}
    {event : ReplicationEvent} {row : EventRow}
    (returned : rq.Enqueue now event = (after, .ok row)) :
    Adds rq after [event] [row] := by
  have inv : rq.Inv → after.Inv := by
    intro inv
    have taken : rq.step ⟨0, now, .enqueue event⟩ = some after :=
      congrArg some (congrArg Prod.fst returned)
    exact (step_takes inv taken).inv inv
  have nextID := rq.Enqueue_nextID now event
  unfold Enqueue at returned
  dsimp only at returned
  split at returned
  · rename_i fresh
    cases returned
    refine ⟨?_, rfl, ?_, ?_, inv⟩
    · intro other
      rw [mem_singleton]
      exact KeyedTable.mem_insert _ _ fresh.1
    · intro other member
      rw [mem_singleton.mp member]
    · intro other member
      rw [mem_singleton.mp member]
      exact ⟨le_rfl, Nat.lt_succ_self _⟩
  · cases returned

theorem Adds.trans {rq middle after : PostgresReplicationEventQueue}
    {first second : List ReplicationEvent} {early late : List EventRow}
    (left : Adds rq middle first early) (right : Adds middle after second late)
    (ahead : rq.nextID ≤ middle.nextID) (later : middle.nextID ≤ after.nextID) :
    Adds rq after (first ++ second) (early ++ late) := by
  refine ⟨?_, ?_, ?_, ?_, fun inv => right.inv (left.inv inv)⟩
  · intro row
    rw [right.queue, left.queue, mem_append, or_assoc]
  · rw [map_append, left.events, right.events]
  · intro row member
    rcases mem_append.mp member with inEarly | inLate
    · exact left.ready row inEarly
    · exact right.ready row inLate
  · intro row member
    rcases mem_append.mp member with inEarly | inLate
    · have bounds := left.ids row inEarly
      omega
    · have bounds := right.ids row inLate
      omega

theorem insertAll_cases (rq : PostgresReplicationEventQueue) (now : Timestamp)
    (events : List ReplicationEvent) :
    rq.nextID ≤ (rq.insertAll now events).1.nextID ∧
      ((∃ err, (rq.insertAll now events).2 = .error err ∧
          Unchanged rq (rq.insertAll now events).1) ∨
        ∃ rows, (rq.insertAll now events).2 = .ok rows ∧
          Adds rq (rq.insertAll now events).1 events rows) := by
  induction events generalizing rq with
  | nil =>
    refine ⟨le_rfl, .inr ⟨[], rfl, ?_⟩⟩
    exact ⟨fun row => by simp [insertAll], rfl, fun _ absent => absurd absent not_mem_nil,
      fun _ absent => absurd absent not_mem_nil, id⟩
  | cons event rest ih =>
    have nextID := rq.Enqueue_nextID now event
    unfold insertAll
    split
    · rename_i after err returned
      rw [returned] at nextID
      refine ⟨?_, .inl ⟨err, rfl, rfl, rfl, fun _ _ => Iff.rfl⟩⟩
      dsimp only at nextID ⊢
      omega
    · rename_i after row returned
      rw [returned] at nextID
      dsimp only at nextID
      obtain ⟨later, outcome⟩ := ih after
      split
      · rename_i final err failed
        rw [failed] at later
        refine ⟨?_, .inl ⟨err, rfl, rfl, rfl, fun _ _ => Iff.rfl⟩⟩
        dsimp only at later ⊢
        omega
      · rename_i final rows inserted
        rw [inserted] at later outcome
        dsimp only at later outcome
        refine ⟨by dsimp only; omega, .inr ⟨row :: rows, rfl, ?_⟩⟩
        rcases outcome with ⟨err, failed, _⟩ | ⟨others, same, adds⟩
        · cases failed
        cases same
        exact (Enqueue_ok returned).trans adds (by omega) later

/-- Jobs that the unique index does not admit at the same time. -/
def Excludes (job other : ReplicationJob) : Prop :=
  job.change = .deleteReplica ∧ other.change = .deleteReplica ∧
    (job.virtualStorage, job.relativePath) = (other.virtualStorage, other.relativePath)

variable {rq : PostgresReplicationEventQueue}

theorem Enqueue_admits (ahead : rq.Ahead) (now : Timestamp) {event : ReplicationEvent}
    (free : ∀ row ∈ rq.queue, row.Active → ¬ Excludes event.job row.job) :
    ∃ after row, rq.Enqueue now event = (after, .ok row) := by
  have admitted : ∀ other ∈ rq.queue.rows, ¬ (rq.enqueued now event).Clashes other := by
    intro other present clash
    obtain ⟨mine, theirs, same⟩ := clash
    have active : other.Active := by
      have settled := theirs.1
      unfold EventRow.Active
      simp only [mem_cons, not_mem_nil, or_false, not_or] at settled ⊢
      exact ⟨settled.1, settled.2.2, settled.2.1⟩
    exact free other present active ⟨mine.2, theirs.2, same⟩
  unfold Enqueue
  rw [dif_pos ⟨ahead.fresh, admitted⟩]
  exact ⟨_, _, rfl⟩

theorem insertAll_ok (ahead : rq.Ahead) (now : Timestamp) {events : List ReplicationEvent}
    (apart : events.Pairwise (fun event other => ¬ Excludes event.job other.job))
    (free : ∀ event ∈ events, ∀ row ∈ rq.queue, row.Active → ¬ Excludes event.job row.job) :
    ∃ rows, (rq.insertAll now events).2 = .ok rows := by
  induction events generalizing rq with
  | nil => exact ⟨[], rfl⟩
  | cons event rest ih =>
    rw [pairwise_cons] at apart
    obtain ⟨after, row, returned⟩ := Enqueue_admits ahead now (free event mem_cons_self)
    have adds := Enqueue_ok returned
    have taken : rq.step ⟨0, now, .enqueue event⟩ = some after :=
      congrArg some (congrArg Prod.fst returned)
    have job : row.job = event.job := congrArg ReplicationEvent.job (singleton_inj.mp adds.events)
    have inserted : ∃ rows, (after.insertAll now rest).2 = .ok rows := by
      refine ih (ahead.step taken) apart.2 ?_
      intro later member other present active
      rcases (adds.queue other).mp present with old | new
      · exact free later (mem_cons_of_mem _ member) other old active
      rw [mem_singleton.mp new, job]
      intro excluded
      exact apart.1 later member ⟨excluded.2.1, excluded.1, excluded.2.2.symm⟩
    obtain ⟨rows, ok⟩ := inserted
    unfold insertAll
    rw [returned]
    dsimp only
    split
    · rename_i failed
      rw [failed] at ok
      cases ok
    · exact ⟨_, rfl⟩

theorem insertAll_ahead (ahead : rq.Ahead) (now : Timestamp) (events : List ReplicationEvent) :
    (rq.insertAll now events).1.Ahead := by
  obtain ⟨later, outcome⟩ := rq.insertAll_cases now events
  intro row member
  rcases outcome with ⟨_, _, same⟩ | ⟨rows, _, adds⟩
  · rw [same.queue] at member
    exact (ahead row member).trans_le later
  rcases (adds.queue row).mp member with old | new
  · exact (ahead row old).trans_le later
  · exact (adds.ids row new).2

end Gitaly.Datastore.PostgresReplicationEventQueue
