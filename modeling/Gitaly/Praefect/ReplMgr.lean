import Gitaly.Datastore.QueueOrigin
import Gitaly.Datastore.QueueTrace

/- The goroutines of internal/praefect/replicator.go that work on the queue: `handleNode` takes
events, processes one after the other, and acknowledges them by what has become of them, while
another one acknowledges what looks stale. Workers of several Praefects share the queue. -/
namespace Gitaly.Praefect

open Datastore Runs PostgresReplicationEventQueue List Option

/-- The new state of an event, by the error of `processReplicationEvent`. -/
def handleNodeEvent (event : EventRow) (err : Bool) : JobState :=
  if err then (if event.attempt ≤ 0 then .dead else .failed) else .completed

/-- A call of `handleNode` that has dequeued events. -/
structure Worker where
  /-- The events that are not processed yet. -/
  events : List EventRow
  /-- `eventIDsByState`, until it is acknowledged. The events are as `Dequeue` returned them. -/
  eventIDsByState : List (JobState × EventRow)
  deriving DecidableEq

def Worker.eventsIn (worker : Worker) (state : JobState) : List EventRow :=
  (worker.eventIDsByState.filter (fun entry => entry.1 = state)).map Prod.snd

structure ReplMgr where
  rq : PostgresReplicationEventQueue
  workers : List Worker
  /-- Every event that was handed out, as often as it was. -/
  handed : List EventRow
  deriving DecidableEq

inductive ReplEvent where
  | enqueue (now : Timestamp) (event : ReplicationEvent)
  | dequeue (now : Timestamp) (ties : Ties)
      (virtualStorage nodeStorage : String) (count : Int)
  | process (worker : Nat) (err : Bool)
  /-- `lost` if the statement is not executed. -/
  | acknowledge (worker : Nat) (now : Timestamp) (state : JobState) (lost : Bool)
  | healthUpdate (now : Timestamp) (events : List (Nat × String))
  | acknowledgeStale (now : Timestamp) (staleAfter : Int)

namespace ReplMgr

def empty : ReplMgr := ⟨.empty, [], []⟩

def step (r : ReplMgr) : ReplEvent → Option ReplMgr
  | .enqueue now event => some { r with rq := (r.rq.Enqueue now event).1 }
  | .dequeue now ties virtualStorage nodeStorage count =>
    match r.rq.Dequeue now ties virtualStorage nodeStorage count with
    | (rq, .error _) => some { r with rq := rq }
    | (rq, .ok events) => some ⟨rq, r.workers ++ [⟨events, []⟩], r.handed ++ events⟩
  | .process index err =>
    match r.workers[index]? with
    | some ⟨event :: rest, done⟩ =>
      let worker : Worker := ⟨rest, done ++ [(handleNodeEvent event err, event)]⟩
      some { r with workers := r.workers.set index worker }
    | _ => none
  | .acknowledge index now state lost =>
    match r.workers[index]? with
    | some ⟨[], done⟩ =>
      let ids := (Worker.eventsIn ⟨[], done⟩ state).map EventRow.id
      let worker : Worker := ⟨[], done.filter (fun entry => entry.1 ≠ state)⟩
      some { r with
        rq := if lost then r.rq else (r.rq.Acknowledge now state ids).1
        workers := r.workers.set index worker }
    | _ => none
  | .healthUpdate now events => some { r with rq := r.rq.healthUpdate now events }
  | .acknowledgeStale now staleAfter => some { r with rq := r.rq.AcknowledgeStale now staleAfter }

/-- How often an event was handed out that does not delete a replica. -/
def handouts (r : ReplMgr) (id : Nat) : Nat :=
  r.handed.countP (fun event => event.id = id ∧ event.job.change ≠ .deleteReplica)

structure Accounted (r : ReplMgr) : Prop where
  nonnegative : ∀ row ∈ r.rq.queue, 0 ≤ row.attempt
  /-- Whatever waits in the queue has an attempt left. -/
  left : ∀ row ∈ r.rq.queue, row.state = .ready ∨ row.state = .failed →
    row.job.change ≠ .deleteReplica → 1 ≤ row.attempt
  thrice : ∀ id, r.handouts id ≤ 3

/-- Since the worker got the event, it has been handed out again, for the last time, and is
in progress. -/
def Overtaken (seen row : EventRow) : Prop :=
  row.id = seen.id ∧ row.state = .inProgress ∧ row.job.change ≠ .deleteReplica ∧
    row.attempt < 1 ∧ row.attempt < seen.attempt

instance (seen row : EventRow) : Decidable (Overtaken seen row) :=
  inferInstanceAs (Decidable (_ ∧ _ ∧ _ ∧ _ ∧ _))

/-- A worker does not acknowledge as failed what is another worker's last attempt by now. -/
def Timely (r : ReplMgr) : ReplEvent → Prop
  | .acknowledge index _ state lost => state = .failed → lost = false →
      ∀ worker ∈ r.workers[index]?, ∀ seen ∈ worker.eventsIn .failed,
        ∀ row ∈ r.rq.queue.rows, ¬ Overtaken seen row
  | _ => True

instance (r : ReplMgr) : DecidablePred r.Timely
  | .enqueue _ _ => isTrue trivial
  | .dequeue _ _ _ _ _ => isTrue trivial
  | .process _ _ => isTrue trivial
  | .acknowledge index _ state lost => inferInstanceAs (Decidable (state = .failed → lost = false →
      ∀ worker ∈ r.workers[index]?, ∀ seen ∈ worker.eventsIn .failed,
        ∀ row ∈ r.rq.queue.rows, ¬ Overtaken seen row))
  | .healthUpdate _ _ => isTrue trivial
  | .acknowledgeStale _ _ => isTrue trivial

/-- The attempts of an event are those that were not handed out. A worker finds an event
failed only if it was handed out with attempts left. -/
structure Inv (r : ReplMgr) : Prop where
  known : ∀ row ∈ r.rq.queue, row.id < r.rq.nextID
  handedKnown : ∀ event ∈ r.handed, event.id < r.rq.nextID
  balance : ∀ row ∈ r.rq.queue, row.job.change ≠ .deleteReplica →
    row.attempt + r.handouts row.id = 3
  unlimited : ∀ row ∈ r.rq.queue, row.job.change = .deleteReplica → row.attempt = 3
  failed : ∀ worker ∈ r.workers, ∀ seen ∈ worker.eventsIn .failed, 1 ≤ seen.attempt

theorem empty_inv : empty.Inv :=
  ⟨fun _ absent => absurd absent not_mem_nil, fun _ absent => absurd absent not_mem_nil,
    fun _ absent => absurd absent not_mem_nil, fun _ absent => absurd absent not_mem_nil,
    fun _ absent => absurd absent not_mem_nil⟩

theorem empty_accounted : empty.Accounted :=
  ⟨fun _ absent => absurd absent not_mem_nil, fun _ absent => absurd absent not_mem_nil,
    fun _ => Nat.zero_le 3⟩

/-- A statement that hands nothing out: the rows keep their attempts. -/
structure Keeps (r next : ReplMgr) : Prop where
  handed : next.handed = r.handed
  nextID : next.rq.nextID = r.rq.nextID
  rows : ∀ row ∈ next.rq.queue, ∃ old ∈ r.rq.queue, row.id = old.id ∧ row.job = old.job ∧
    row.attempt = old.attempt

section keeps

variable {r next : ReplMgr} (keeps : Keeps r next)

include keeps

theorem Keeps.inv (inv : r.Inv)
    (failed : ∀ worker ∈ next.workers, ∀ seen ∈ worker.eventsIn .failed, 1 ≤ seen.attempt) :
    next.Inv := by
  have handouts : ∀ id, next.handouts id = r.handouts id := by
    intro id
    rw [ReplMgr.handouts, keeps.handed]
    rfl
  refine ⟨?_, ?_, ?_, ?_, failed⟩
  · intro row member
    obtain ⟨old, present, id, -, -⟩ := keeps.rows row member
    rw [id, keeps.nextID]
    exact inv.known old present
  · rw [keeps.handed, keeps.nextID]
    exact inv.handedKnown
  · intro row member limited
    obtain ⟨old, present, id, job, attempt⟩ := keeps.rows row member
    rw [job] at limited
    rw [id, attempt, handouts]
    exact inv.balance old present limited
  · intro row member deletes
    obtain ⟨old, present, -, job, attempt⟩ := keeps.rows row member
    rw [job] at deletes
    rw [attempt]
    exact inv.unlimited old present deletes

theorem Keeps.accounted_iff (accounted : r.Accounted) :
    next.Accounted ↔ ∀ row ∈ next.rq.queue, row.state = .ready ∨ row.state = .failed →
      row.job.change ≠ .deleteReplica → 1 ≤ row.attempt := by
  refine ⟨Accounted.left, fun left => ⟨?_, left, ?_⟩⟩
  · intro row member
    obtain ⟨old, present, -, -, attempt⟩ := keeps.rows row member
    rw [attempt]
    exact accounted.nonnegative old present
  · intro id
    rw [handouts, keeps.handed]
    exact accounted.thrice id

end keeps

section steps

variable {r : ReplMgr}

theorem handouts_of_unknown (inv : r.Inv) {id : Nat} (unknown : r.rq.nextID ≤ id) :
    r.handouts id = 0 := by
  refine countP_eq_zero.mpr (fun event member counted => ?_)
  have below := inv.handedKnown event member
  have same := (of_decide_eq_true counted).1
  omega

theorem enqueue_inv (inv : r.Inv) (now : Timestamp) (event : ReplicationEvent) :
    Inv { r with rq := (r.rq.Enqueue now event).1 } := by
  have later := r.rq.Enqueue_nextID now event
  have none := handouts_of_unknown inv (Nat.le_refl r.rq.nextID)
  refine ⟨?_, ?_, ?_, ?_, inv.failed⟩
  · intro row member
    rw [later]
    rcases r.rq.Enqueue_queue now event member with old | rfl
    · exact Nat.lt_succ_of_lt (inv.known row old)
    · exact Nat.lt_succ_self _
  · intro seen member
    rw [later]
    exact Nat.lt_succ_of_lt (inv.handedKnown seen member)
  · intro row member limited
    rcases r.rq.Enqueue_queue now event member with old | rfl
    · exact inv.balance row old limited
    change (3 : Int) + (r.handouts r.rq.nextID : Nat) = 3
    rw [none]
    rfl
  · intro row member deletes
    rcases r.rq.Enqueue_queue now event member with old | rfl
    · exact inv.unlimited row old deletes
    · rfl

theorem enqueue_accounted (accounted : r.Accounted) (now : Timestamp) (event : ReplicationEvent) :
    Accounted { r with rq := (r.rq.Enqueue now event).1 } := by
  refine ⟨?_, ?_, accounted.thrice⟩
  · intro row member
    rcases r.rq.Enqueue_queue now event member with old | rfl
    · exact accounted.nonnegative row old
    · change (0 : Int) ≤ 3
      decide
  · intro row member waits limited
    rcases r.rq.Enqueue_queue now event member with old | rfl
    · exact accounted.left row old waits limited
    · change (1 : Int) ≤ 3
      decide

section dequeue

variable {now : Timestamp} {rq : PostgresReplicationEventQueue} {taken : List EventRow}
  (claimed : Claims r.rq rq now taken)
  (distinct : (taken.map EventRow.id).Nodup) (workers : List Worker)

theorem handouts_dequeue (id : Nat) :
    handouts ⟨rq, workers, r.handed ++ (taken.map (EventRow.dequeued now)).insertionSort
        (fun row other => row.id ≤ other.id)⟩ id =
      r.handouts id + taken.countP (fun row => row.id = id ∧ row.job.change ≠ .deleteReplica) := by
  unfold handouts
  rw [countP_append, (perm_insertionSort _ _).countP_eq, countP_map]
  rfl

include distinct

theorem countP_taken_le (id : Nat) :
    taken.countP (fun row => row.id = id ∧ row.job.change ≠ .deleteReplica) ≤ 1 := by
  calc taken.countP (fun row => row.id = id ∧ row.job.change ≠ .deleteReplica)
      ≤ taken.countP (fun row => row.id == id) := by
        refine countP_mono_left (fun row _ counted => ?_)
        exact beq_iff_eq.mpr (of_decide_eq_true counted).1
    _ = (taken.map EventRow.id).count id := by
        rw [List.count, countP_map]
        rfl
    _ ≤ 1 := nodup_iff_count_le_one.mp distinct id

theorem countP_taken_of_mem {row : EventRow} (member : row ∈ taken)
    (limited : row.job.change ≠ .deleteReplica) :
    taken.countP (fun other => other.id = row.id ∧ other.job.change ≠ .deleteReplica) = 1 := by
  have most := countP_taken_le distinct row.id
  have some : 0 < taken.countP
      (fun other => other.id = row.id ∧ other.job.change ≠ .deleteReplica) :=
    countP_pos_iff.mpr ⟨row, member, decide_eq_true ⟨rfl, limited⟩⟩
  omega

include claimed

omit distinct in
theorem countP_taken_of_notMem {row : EventRow} (present : row ∈ r.rq.queue)
    (absent : row ∉ taken) :
    taken.countP (fun other => other.id = row.id ∧ other.job.change ≠ .deleteReplica) = 0 := by
  refine countP_eq_zero.mpr (fun other member counted => absent ?_)
  have same := (of_decide_eq_true counted).1
  exact KeyedTable.eq_of_key (claimed.present other member) present same ▸ member

theorem dequeue_inv (inv : r.Inv) (nextID : rq.nextID = r.rq.nextID)
    (failed : ∀ worker ∈ workers, ∀ seen ∈ worker.eventsIn .failed, 1 ≤ seen.attempt) :
    Inv ⟨rq, workers, r.handed ++ (taken.map (EventRow.dequeued now)).insertionSort
      (fun row other => row.id ≤ other.id)⟩ := by
  refine ⟨?_, ?_, ?_, ?_, failed⟩
  · intro row member
    rw [nextID]
    obtain ⟨old, present, rfl⟩ := (claimed.queue row).mp member
    split <;> exact inv.known old present
  · intro event member
    rw [nextID]
    rcases mem_append.mp member with before | new
    · exact inv.handedKnown event before
    · obtain ⟨old, isTaken, rfl⟩ := mem_map.mp ((mem_insertionSort _).mp new)
      exact inv.known old (claimed.present old isTaken)
  · intro row member limited
    rw [handouts_dequeue]
    obtain ⟨old, present, rfl⟩ := (claimed.queue row).mp member
    split
    · rename_i isTaken
      rw [if_pos isTaken] at limited
      have limited : old.job.change ≠ .deleteReplica := limited
      have before := inv.balance old present limited
      have once := countP_taken_of_mem distinct isTaken limited
      have attempt : (old.dequeued now).attempt = old.attempt - 1 := if_neg limited
      rw [EventRow.dequeued_id, attempt, once]
      omega
    · rename_i notTaken
      rw [if_neg notTaken] at limited
      rw [countP_taken_of_notMem claimed present notTaken]
      exact inv.balance old present limited
  · intro row member deletes
    obtain ⟨old, present, rfl⟩ := (claimed.queue row).mp member
    split
    · rename_i isTaken
      rw [if_pos isTaken] at deletes
      have deletes : old.job.change = .deleteReplica := deletes
      exact (if_pos deletes).trans (inv.unlimited old present deletes)
    · rename_i notTaken
      rw [if_neg notTaken] at deletes
      exact inv.unlimited old present deletes

theorem dequeue_accounted (inv : r.Inv) (accounted : r.Accounted) :
    Accounted ⟨rq, workers, r.handed ++ (taken.map (EventRow.dequeued now)).insertionSort
      (fun row other => row.id ≤ other.id)⟩ := by
  refine ⟨?_, ?_, ?_⟩
  · intro row member
    obtain ⟨old, present, rfl⟩ := (claimed.queue row).mp member
    split
    · rename_i isTaken
      by_cases deletes : old.job.change = .deleteReplica
      · rw [EventRow.dequeued, if_pos deletes]
        exact accounted.nonnegative old present
      have some := accounted.left old present (claimed.untouched old isTaken) deletes
      rw [EventRow.dequeued, if_neg deletes]
      dsimp only
      omega
    · exact accounted.nonnegative old present
  · intro row member waits limited
    obtain ⟨old, present, rfl⟩ := (claimed.queue row).mp member
    split at waits
    · rcases waits with ready | failed
      · cases ready
      · cases failed
    · rename_i notTaken
      rw [if_neg notTaken] at limited ⊢
      exact accounted.left old present waits limited
  · intro id
    rw [handouts_dequeue]
    by_cases some : ∃ row ∈ taken, row.id = id ∧ row.job.change ≠ .deleteReplica
    · -- The row had an attempt left, so that it was handed out twice at most.
      obtain ⟨row, isTaken, rfl, limited⟩ := some
      have present := claimed.present row isTaken
      have left := accounted.left row present (claimed.untouched row isTaken) limited
      have balance := inv.balance row present limited
      have once := countP_taken_of_mem distinct isTaken limited
      omega
    · have none : taken.countP (fun row => row.id = id ∧ row.job.change ≠ .deleteReplica) = 0 :=
        countP_eq_zero.mpr (fun row member counted =>
          some ⟨row, member, of_decide_eq_true counted⟩)
      rw [none]
      exact accounted.thrice id

end dequeue

theorem step_dequeue_cases (r : ReplMgr) (now : Timestamp) (ties : Ties)
    (virtual nodeStorage : String) (count : Int) :
    r.step (.dequeue now ties virtual nodeStorage count) = some r ∨
      ∃ rq taken, Claims r.rq rq now taken ∧
        (taken.map EventRow.id).Nodup ∧ rq.nextID = r.rq.nextID ∧
        r.step (.dequeue now ties virtual nodeStorage count) =
          let events := (taken.map (EventRow.dequeued now)).insertionSort
            (fun row other => row.id ≤ other.id)
          some ⟨rq, r.workers ++ [⟨events, []⟩], r.handed ++ events⟩ := by
  by_cases negative : count < 0
  · refine .inl ?_
    unfold step
    dsimp only
    rw [r.rq.Dequeue_negative now ties virtual nodeStorage negative]
  · obtain ⟨claimed, returned⟩ :=
      r.rq.Dequeue_candidates now ties virtual nodeStorage (Int.not_lt.mp negative)
    refine .inr ⟨_, _, claimed, r.rq.candidates_ids_nodup _ _ _ _,
      r.rq.Dequeue_nextID now ties virtual nodeStorage count, ?_⟩
    unfold step
    dsimp only
    split
    · rename_i failed
      rw [failed] at returned
      cases returned
    · rename_i answered
      rw [answered] at returned ⊢
      cases returned
      rfl

variable {worker : Worker} {state : JobState}

theorem mem_eventsIn {seen : EventRow} :
    seen ∈ worker.eventsIn state ↔ (state, seen) ∈ worker.eventIDsByState := by
  simp [Worker.eventsIn]

theorem attempt_of_failed {event : EventRow} {err : Bool}
    (failed : handleNodeEvent event err = .failed) : 1 ≤ event.attempt := by
  unfold handleNodeEvent at failed
  split at failed
  · split at failed
    · cases failed
    · omega
  · cases failed

/-- `Acknowledge` gives its state to rows that are in progress, and keeps attempts. -/
theorem Acknowledge_rows (rq : PostgresReplicationEventQueue) (now : Timestamp) (state : JobState)
    (ids : List Nat) {row : EventRow} (member : row ∈ (rq.Acknowledge now state ids).1.queue) :
    ∃ old ∈ rq.queue, row.id = old.id ∧ row.job = old.job ∧ row.attempt = old.attempt ∧
      (row.state = old.state ∨ old.state = .inProgress ∧ old.id ∈ ids ∧ row.state = state ∧
        allowToAck state = true) := by
  by_cases nonempty : ids = []
  · subst nonempty
    exact ⟨row, member, rfl, rfl, rfl, .inl rfl⟩
  by_cases allowed : allowToAck state = true
  · obtain ⟨old, present, -, rfl⟩ := (rq.mem_Acknowledge_queue now nonempty allowed).mp member
    refine ⟨old, present, ?_⟩
    split
    · rename_i acked
      obtain ⟨-, named, progress⟩ := rq.mem_existing.mp acked
      exact ⟨rfl, rfl, rfl, .inr ⟨progress, named, rfl, allowed⟩⟩
    · exact ⟨rfl, rfl, rfl, .inl rfl⟩
  · rw [rq.Acknowledge_notSupported now nonempty (Bool.not_eq_true _ ▸ allowed)] at member
    exact ⟨row, member, rfl, rfl, rfl, .inl rfl⟩

theorem acknowledge_keeps (now : Timestamp) (state : JobState) (ids : List Nat)
    (workers : List Worker) :
    Keeps r ⟨(r.rq.Acknowledge now state ids).1, workers, r.handed⟩ := by
  refine ⟨rfl, r.rq.Acknowledge_nextID now state ids, fun row member => ?_⟩
  obtain ⟨old, present, id, job, attempt, -⟩ := Acknowledge_rows r.rq now state ids member
  exact ⟨old, present, id, job, attempt⟩

theorem acknowledge_accounted_iff (accounted : r.Accounted) (now : Timestamp) (state : JobState)
    (ids : List Nat) (workers : List Worker) :
    Accounted ⟨(r.rq.Acknowledge now state ids).1, workers, r.handed⟩ ↔
      (state = .failed → ∀ row ∈ r.rq.queue, row.state = .inProgress → row.id ∈ ids →
        row.job.change ≠ .deleteReplica → 1 ≤ row.attempt) := by
  rw [(acknowledge_keeps now state ids workers).accounted_iff accounted]
  constructor
  · rintro left rfl row member progress named limited
    have nonempty : ids ≠ [] := ne_nil_of_mem named
    refine left (row.acknowledged now .failed) ?_ (.inr rfl) limited
    refine (r.rq.mem_Acknowledge_queue now nonempty rfl).mpr ⟨row, member, ?_, ?_⟩
    · rintro acked - (⟨dead, -⟩ | ⟨completed, -⟩)
      · cases dead
      · cases completed
    · rw [if_pos (r.rq.mem_existing.mpr ⟨member, named, progress⟩)]
  · intro left row member waits limited
    obtain ⟨old, present, id, job, attempt, same | ⟨progress, named, given, allowed⟩⟩ :=
      Acknowledge_rows r.rq now state ids member
    · rw [same] at waits
      rw [job] at limited
      rw [attempt]
      exact accounted.left old present waits limited
    · rw [job] at limited
      rw [attempt]
      rcases waits with ready | failed
      · rw [← given, ready] at allowed
        cases allowed
      · exact left (given.symm.trans failed) old present progress named limited

theorem acknowledgeStale_keeps (now : Timestamp) (staleAfter : Int) :
    Keeps r { r with rq := r.rq.AcknowledgeStale now staleAfter } := by
  refine ⟨rfl, rfl, fun row member => ?_⟩
  obtain ⟨old, present, rfl⟩ := (r.rq.mem_AcknowledgeStale_queue now staleAfter).mp member
  split <;> exact ⟨old, present, rfl, rfl, rfl⟩

theorem acknowledgeStale_accounted (accounted : r.Accounted) (now : Timestamp) (staleAfter : Int) :
    Accounted { r with rq := r.rq.AcknowledgeStale now staleAfter } := by
  rw [(acknowledgeStale_keeps now staleAfter).accounted_iff accounted]
  intro row member waits limited
  obtain ⟨old, present, rfl⟩ := (r.rq.mem_AcknowledgeStale_queue now staleAfter).mp member
  split at waits
  · rename_i isStale
    rw [if_pos isStale]
    by_contra none
    have state : old.timedOut.state = .dead := if_neg none
    rw [state] at waits
    rcases waits with ready | failed
    · cases ready
    · cases failed
  · rename_i notStale
    rw [if_neg notStale] at limited ⊢
    exact accounted.left old present waits limited

variable {index : Nat}

/-- The worker comes in time if and only if no row that it acknowledges is without attempts. -/
theorem timely_acknowledge_iff (inv : r.Inv)
    (found : r.workers[index]? = some worker) (now : Timestamp) (state : JobState) :
    r.Timely (.acknowledge index now state false) ↔
      (state = .failed → ∀ row ∈ r.rq.queue, row.state = .inProgress →
        row.id ∈ (worker.eventsIn state).map EventRow.id →
        row.job.change ≠ .deleteReplica → 1 ≤ row.attempt) := by
  have fresh := inv.failed worker (mem_of_getElem? found)
  constructor
  · rintro timely rfl row member progress named limited
    obtain ⟨seen, failed, same⟩ := mem_map.mp named
    by_contra none
    have attempts := fresh seen failed
    have left : row.attempt < 1 := by omega
    exact timely rfl rfl worker found seen failed row member
      ⟨same.symm, progress, limited, left, by omega⟩
  · rintro left rfl - other isWorker seen failed row member ⟨same, progress, limited, none, -⟩
    obtain rfl : worker = other := some.inj (found.symm.trans isWorker)
    have acknowledged := mem_map.mpr ⟨seen, failed, same.symm⟩
    have attempts := left rfl row member progress acknowledged limited
    omega

variable {next : ReplMgr}

theorem step_process_cases {err : Bool} (stepped : r.step (.process index err) = some next) :
    ∃ event rest done, r.workers[index]? = some ⟨event :: rest, done⟩ ∧
      next = ⟨r.rq, r.workers.set index ⟨rest, done ++ [(handleNodeEvent event err, event)]⟩,
        r.handed⟩ := by
  unfold step at stepped
  dsimp only at stepped
  split at stepped
  · rename_i event rest done found
    exact ⟨event, rest, done, found, (some.inj stepped).symm⟩
  · cases stepped

theorem step_acknowledge_cases {now : Timestamp} {lost : Bool}
    (stepped : r.step (.acknowledge index now state lost) = some next) :
    ∃ worker, r.workers[index]? = some worker ∧
      next = ⟨if lost then r.rq else
          (r.rq.Acknowledge now state ((worker.eventsIn state).map EventRow.id)).1,
        r.workers.set index ⟨[], worker.eventIDsByState.filter (fun entry => entry.1 ≠ state)⟩,
        r.handed⟩ := by
  unfold step at stepped
  dsimp only at stepped
  split at stepped
  · rename_i done found
    exact ⟨⟨[], done⟩, found, (some.inj stepped).symm⟩
  · cases stepped

theorem failed_set (inv : r.Inv) (fresh : ∀ seen ∈ worker.eventsIn .failed, 1 ≤ seen.attempt) :
    ∀ other ∈ r.workers.set index worker, ∀ seen ∈ other.eventsIn .failed, 1 ≤ seen.attempt := by
  intro other member
  rcases mem_or_eq_of_mem_set member with old | rfl
  · exact inv.failed other old
  · exact fresh

theorem process_inv (inv : r.Inv) {err : Bool} (stepped : r.step (.process index err) = some next) :
    next.Inv := by
  obtain ⟨event, rest, done, found, rfl⟩ := step_process_cases stepped
  refine ⟨inv.known, inv.handedKnown, inv.balance, inv.unlimited, failed_set inv ?_⟩
  intro seen failed
  rcases mem_append.mp (mem_eventsIn.mp failed) with before | new
  · exact inv.failed _ (mem_of_getElem? found) seen (mem_eventsIn.mpr before)
  · obtain ⟨state, rfl⟩ := Prod.mk.inj (mem_singleton.mp new)
    exact attempt_of_failed state.symm

theorem acknowledge_inv (inv : r.Inv) {now : Timestamp} {lost : Bool}
    (stepped : r.step (.acknowledge index now state lost) = some next) : next.Inv := by
  obtain ⟨worker, found, rfl⟩ := step_acknowledge_cases stepped
  have fresh : ∀ seen ∈ Worker.eventsIn
      ⟨[], worker.eventIDsByState.filter (fun entry => entry.1 ≠ state)⟩ .failed,
      1 ≤ seen.attempt := by
    intro seen failed
    have before := mem_of_mem_filter (mem_eventsIn.mp failed)
    exact inv.failed worker (mem_of_getElem? found) seen (mem_eventsIn.mpr before)
  cases lost with
  | true => exact ⟨inv.known, inv.handedKnown, inv.balance, inv.unlimited, failed_set inv fresh⟩
  | false => exact (acknowledge_keeps now state _ _).inv inv (failed_set inv fresh)

theorem step_inv {event : ReplEvent} (inv : r.Inv) (stepped : r.step event = some next) :
    next.Inv := by
  cases event with
  | enqueue now event =>
    cases stepped
    exact enqueue_inv inv now event
  | dequeue now ties virtual nodeStorage count =>
    rcases r.step_dequeue_cases now ties virtual nodeStorage count with
      same | ⟨rq, taken, claimed, distinct, nextID, taking⟩
    · exact some.inj (stepped.symm.trans same) ▸ inv
    cases stepped.symm.trans taking
    refine dequeue_inv claimed distinct _ inv nextID (fun worker member => ?_)
    rcases mem_append.mp member with old | new
    · exact inv.failed worker old
    · rw [mem_singleton.mp new]
      exact fun seen absent => absurd absent not_mem_nil
  | process index err => exact process_inv inv stepped
  | acknowledge index now state lost => exact acknowledge_inv inv stepped
  | healthUpdate now events =>
    cases stepped
    exact ⟨inv.known, inv.handedKnown, inv.balance, inv.unlimited, inv.failed⟩
  | acknowledgeStale now staleAfter =>
    cases stepped
    exact (acknowledgeStale_keeps now staleAfter).inv inv inv.failed

theorem step_accounted_iff {event : ReplEvent} (inv : r.Inv) (accounted : r.Accounted)
    (stepped : r.step event = some next) :
    next.Accounted ↔ r.Timely event := by
  cases event with
  | enqueue now event =>
    cases stepped
    exact iff_of_true (enqueue_accounted accounted now event) trivial
  | dequeue now ties virtual nodeStorage count =>
    refine iff_of_true ?_ trivial
    rcases r.step_dequeue_cases now ties virtual nodeStorage count with
      same | ⟨rq, taken, claimed, distinct, -, taking⟩
    · exact some.inj (stepped.symm.trans same) ▸ accounted
    · cases stepped.symm.trans taking
      exact dequeue_accounted claimed distinct _ inv accounted
  | process index err =>
    obtain ⟨-, -, -, -, rfl⟩ := step_process_cases stepped
    exact iff_of_true ⟨accounted.nonnegative, accounted.left, accounted.thrice⟩ trivial
  | acknowledge index now state lost =>
    obtain ⟨worker, found, rfl⟩ := step_acknowledge_cases stepped
    cases lost with
    | true =>
      exact iff_of_true ⟨accounted.nonnegative, accounted.left, accounted.thrice⟩
        (fun _ executed => Bool.noConfusion executed)
    | false =>
      rw [timely_acknowledge_iff inv found]
      exact acknowledge_accounted_iff accounted now state _ _
  | healthUpdate now events =>
    cases stepped
    exact iff_of_true ⟨accounted.nonnegative, accounted.left, accounted.thrice⟩ trivial
  | acknowledgeStale now staleAfter =>
    cases stepped
    exact iff_of_true (acknowledgeStale_accounted accounted now staleAfter) trivial

end steps

/-- On every run of the workers and the acknowledgement of stale events, the attempts are
accounted for throughout if and only if no worker is late. -/
theorem attempts_accounted_iff {events : List ReplEvent} {final : ReplMgr}
    (run : exec step empty events = some final) :
    Throughout step Accounted empty events ↔ Along step Timely empty events :=
  throughout_iff_along run (fun _ _ _ inv stepped => step_inv inv stepped)
    (fun _ _ _ inv accounted stepped => step_accounted_iff inv accounted stepped)
    empty_inv empty_accounted

/-- An event that fails three times. -/
def failingRun : List ReplEvent :=
  let round (worker : Nat) (state : JobState) : List ReplEvent :=
    [.dequeue 2 noTies "praefect" "gitaly-2" 10, .process worker true,
      .acknowledge worker 3 state false]
  .enqueue 1 (sampleEvent 1 .update none) :: round 0 .failed ++ round 1 .failed ++ round 2 .dead

theorem attempts_accounted_iff_failing :
    (exec step empty failingRun).map (fun r => (r.handouts 1, r.rq.queue.rows)) = some (3, []) ∧
      Throughout step Accounted empty failingRun := by
  obtain ⟨final, run⟩ := isSome_iff_exists.mp
    (show (exec step empty failingRun).isSome = true by decide +kernel)
  exact ⟨by decide +kernel, (attempts_accounted_iff run).mpr (by decide +kernel)⟩

/-- The first worker reports its failure when the event, that was taken from it as stale, is
in progress for the third time. -/
def lateRun : List ReplEvent :=
  let round (now : Timestamp) : List ReplEvent :=
    [.dequeue now noTies "praefect" "gitaly-2" 10, .acknowledgeStale (now + 60000000) 30000]
  .enqueue 1 (sampleEvent 1 .update none) :: round 2 ++ round 100000000 ++
    [.dequeue 200000000 noTies "praefect" "gitaly-2" 10, .process 0 true,
      .acknowledge 0 200000001 .failed false, .dequeue 200000002 noTies "praefect" "gitaly-2" 10]

/-- The event waits without attempts, and then is handed out for the fourth time. -/
theorem late_failure_overdraws :
    (exec step empty lateRun.dropLast).map (fun r =>
        r.rq.queue.rows.map (fun row => (row.id, row.state, row.attempt))) =
      some [(1, .failed, 0)] ∧
    (exec step empty lateRun).map (fun r =>
        (r.handouts 1, r.rq.queue.rows.map (fun row => (row.id, row.state, row.attempt)))) =
      some (4, [(1, .inProgress, -1)]) :=
  ⟨by decide +kernel, by decide +kernel⟩

end ReplMgr

section acknowledged

/-- All elements of the first list that do not exist in the second one. -/
def subtractUint64 (l r : List UInt64) : List UInt64 :=
  if l.length = 0 then [] else if r.length = 0 then l else l.filter (· ∉ r)

/-- The ids of the events of one state that `handleNode` logs as not acknowledged. -/
def notAckIDs (eventIDs ackIDs : List UInt64) : List UInt64 := subtractUint64 ackIDs eventIDs

theorem subtractUint64_eq (l r : List UInt64) : subtractUint64 l r = l.filter (· ∉ r) := by
  unfold subtractUint64
  split
  · simp_all
  · split <;> simp_all

/-- The lists are handed over the wrong way round, so that nothing is missing that is logged. -/
theorem notAckIDs_exact_iff (eventIDs ackIDs : List UInt64) :
    ((notAckIDs eventIDs ackIDs).Nodup ∧
        ∀ id, id ∈ notAckIDs eventIDs ackIDs ↔ id ∈ eventIDs ∧ id ∉ ackIDs) ↔
      ∀ id, id ∈ ackIDs ↔ id ∈ eventIDs := by
  simp only [notAckIDs, subtractUint64_eq, mem_filter, decide_eq_true_eq]
  constructor
  · rintro ⟨-, logged⟩ id
    have here := logged id
    tauto
  · intro same
    have unknown : ackIDs.filter (· ∉ eventIDs) = [] := by simp [filter_eq_nil_iff, same]
    rw [unknown]
    exact ⟨nodup_nil, fun id => by simp [same]⟩

theorem missing_unreported : notAckIDs [1, 2] [1] = [] := by decide

end acknowledged

end Gitaly.Praefect
