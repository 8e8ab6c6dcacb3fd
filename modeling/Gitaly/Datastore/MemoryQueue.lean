import Gitaly.Base.Runs
import Gitaly.Datastore.Queue
import Mathlib.Data.Finset.Basic

/- The replication queue of internal/praefect/datastore/memory.go. Its lock makes every call
one step; the wall clock is read at any time, so that nothing is known about its readings.
Jobs are compared by their JSON, which is taken for the job itself: `encodable` are those for
which `json.Marshal` returns no error. -/
namespace Gitaly.Datastore

open PostgresReplicationEventQueue List

structure EventDestination where
  virtual : String
  storage : String
  relativePath : String
  deriving DecidableEq

def defineDest (event : EventRow) : EventDestination :=
  ⟨event.job.virtualStorage, event.job.targetNodeStorage, event.job.relativePath⟩

inductive MemoryQueueError where
  /-- event state is not supported: %q -/
  | notSupported (state : JobState)
  /-- event not in progress, can't be acknowledged: %d [%s] -/
  | notInProgress (id : Nat) (state : JobState)
  /-- job acknowledged as failed with no attempts left, should be 'dead' -/
  | deadAckedAsFailed
  | marshal
  /-- The panic for an `UpdatedAt` that is nil. -/
  | nilUpdatedAt
  deriving DecidableEq

structure MemoryReplicationEventQueue where
  seq : Nat
  queued : List EventRow
  dequeued : Finset Nat
  lastEventByDest : KeyedTable EventRow EventDestination defineDest
  deriving DecidableEq

namespace MemoryReplicationEventQueue

def empty : MemoryReplicationEventQueue := ⟨0, [], ∅, .empty⟩

/-- An event that has changed replaces itself as the last one of its destination. -/
def follow (lastEventByDest : KeyedTable EventRow EventDestination defineDest) (event : EventRow) :
    KeyedTable EventRow EventDestination defineDest :=
  match lastEventByDest.find (defineDest event) with
  | some last => if last.id = event.id then lastEventByDest.put event else lastEventByDest
  | none => lastEventByDest

def Enqueue (s : MemoryReplicationEventQueue) (now : Timestamp) (event : ReplicationEvent) :
    MemoryReplicationEventQueue × EventRow :=
  let row : EventRow :=
    { event with
      id := s.seq + 1, state := .ready, createdAt := now, updatedAt := none, attempt := 3
      lockID := lockID event.job }
  ({ s with
      seq := s.seq + 1
      queued := s.queued ++ [row]
      lastEventByDest := s.lastEventByDest.put row }, row)

/-- The event is for the storage, and waits. -/
def IsFor (virtualStorage nodeStorage : String) (event : EventRow) : Prop :=
  event.job.virtualStorage = virtualStorage ∧ event.job.targetNodeStorage = nodeStorage ∧
    (event.state = .ready ∨ event.state = .failed)

instance (virtualStorage nodeStorage : String) : DecidablePred (IsFor virtualStorage nodeStorage) :=
  fun _ => inferInstanceAs (Decidable (_ ∧ _ ∧ _))

def taken (clock : Nat → Timestamp) (event : EventRow) : EventRow :=
  { event with
    attempt := event.attempt - 1, state := .inProgress, updatedAt := some (clock event.id) }

section loops

variable (encodable : ReplicationJob → Bool) (clock : Nat → Timestamp)

/-- The loop of `Dequeue` over the rest of the queue: what becomes of it, the `result`, and
whether a job could not be encoded. The jobs of the `result` are the `uniqueJob`. -/
def dequeueLoop (virtualStorage nodeStorage : String) (count : Int) :
    List EventRow → List EventRow → List EventRow × List EventRow × Bool
  | [], result => ([], result, false)
  | event :: rest, result =>
    if IsFor virtualStorage nodeStorage event then
      if encodable event.job = false then (event :: rest, result, true)
      else if event.job ∈ result.map (fun row => row.job) then
        (dequeueLoop virtualStorage nodeStorage count rest result).map (event :: ·) id
      else if count ≤ (result ++ [taken clock event]).length then
        (taken clock event :: rest, result ++ [taken clock event], false)
      else
        (dequeueLoop virtualStorage nodeStorage count rest (result ++ [taken clock event])).map
          (taken clock event :: ·) id
    else (dequeueLoop virtualStorage nodeStorage count rest result).map (event :: ·) id

variable (s : MemoryReplicationEventQueue)

def Dequeue (virtualStorage nodeStorage : String)
    (count : Int) : MemoryReplicationEventQueue × Except MemoryQueueError (List EventRow) :=
  let (queued, result, failed) :=
    dequeueLoop encodable clock virtualStorage nodeStorage count s.queued []
  ({ s with
      queued := queued
      dequeued := s.dequeued ∪ (result.map EventRow.id).toFinset
      lastEventByDest := result.foldl follow s.lastEventByDest },
    if failed then .error .marshal else .ok result)

def remove (i : Nat) : MemoryReplicationEventQueue :=
  match s.queued[i]? with
  | none => s
  | some event => { s with dequeued := s.dequeued.erase event.id, queued := s.queued.eraseIdx i }

/-- The loop over `j` that removes events with the job of a completed one, for at most
`fuel` rounds. -/
def removeSame (dequeuedAt : Option Timestamp) (job : ReplicationJob) :
    Nat → MemoryReplicationEventQueue → Nat → MemoryReplicationEventQueue × Option MemoryQueueError
  | 0, s, _ => (s, none)
  | fuel + 1, s, j =>
    match s.queued[j]?, dequeuedAt with
    | none, _ => (s, none)
    | some _, none => (s, some .nilUpdatedAt)
    | some event, some time =>
      if time < event.createdAt then (s, none)
      else if encodable event.job = false then (s, some .marshal)
      -- What moves to the place of a removed event is not looked at.
      else if event.job = job then removeSame dequeuedAt job fuel (s.remove j) (j + 1)
      else removeSame dequeuedAt job fuel s (j + 1)

/-- What `Acknowledge` removes when the event has its new state. -/
def removeAcknowledged (state : JobState) (i : Nat)
    (event : EventRow) : MemoryReplicationEventQueue × Option MemoryQueueError :=
  match state with
  | .completed =>
    if encodable event.job = false then (s, some .marshal)
    else
      match removeSame encodable event.updatedAt event.job s.queued.length s (i + 1) with
      | (s, some err) => (s, some err)
      | (s, none) => (s.remove i, none)
  | .cancelled | .dead => (s.remove i, none)
  | _ => (s, none)

/-- The event can not be acknowledged with the state. -/
def Refused (state : JobState) (event : EventRow) : Prop :=
  event.state ≠ .inProgress ∨ event.attempt = 0 ∧ state = .failed

instance (state : JobState) : DecidablePred (Refused state) :=
  fun _ => inferInstanceAs (Decidable (_ ∨ _))

/-- What `Acknowledge` does with the event that it has found; `event` is the event as it was
before. -/
def acknowledgeAt (state : JobState) (i : Nat)
    (event : EventRow) : MemoryReplicationEventQueue × Option MemoryQueueError :=
  if event.state ≠ .inProgress then (s, some (.notInProgress event.id event.state))
  else if event.attempt = 0 ∧ state = .failed then (s, some .deadAckedAsFailed)
  else
    let acked := event.acknowledged (clock event.id) state
    removeAcknowledged encodable
      { s with
        queued := s.queued.set i acked
        lastEventByDest := follow s.lastEventByDest acked } state i event

/-- One round of the loop of `Acknowledge` over the ids, with what it adds to the `result`. -/
def acknowledgeOne (state : JobState) (s : MemoryReplicationEventQueue) (id : Nat) :
    MemoryReplicationEventQueue × Except MemoryQueueError (List Nat) :=
  if id ∉ s.dequeued then (s, .ok [])
  else
    match s.queued.zipIdx.find? (fun entry => entry.1.id = id) with
    | none => (s, .ok [])
    | some (event, i) =>
      match s.acknowledgeAt encodable clock state i event with
      | (s, some err) => (s, .error err)
      | (s, none) => (s, .ok [id])

def acknowledgeLoop (state : JobState) (s : MemoryReplicationEventQueue) (result : List Nat) :
    List Nat → MemoryReplicationEventQueue × Except MemoryQueueError (List Nat)
  | [] => (s, .ok result)
  | id :: ids =>
    match acknowledgeOne encodable clock state s id with
    | (s, .error err) => (s, .error err)
    | (s, .ok acked) => acknowledgeLoop state s (result ++ acked) ids

def Acknowledge (state : JobState) (ids : List Nat) :
    MemoryReplicationEventQueue × Except MemoryQueueError (List Nat) :=
  if ids = [] then (s, .ok [])
  else if allowToAck state = false then
    (s, .error (.notSupported state))
  else acknowledgeLoop encodable clock state s [] ids

end loops

end MemoryReplicationEventQueue

/-- A call on the queue. -/
inductive MemoryCall where
  | enqueue (now : Timestamp) (event : ReplicationEvent)
  | dequeue (clock : Nat → Timestamp) (virtualStorage nodeStorage : String) (count : Int)
  | acknowledge (clock : Nat → Timestamp) (state : JobState) (ids : List Nat)

namespace MemoryReplicationEventQueue

def step (encodable : ReplicationJob → Bool) (s : MemoryReplicationEventQueue) :
    MemoryCall → Option MemoryReplicationEventQueue
  | .enqueue now event => some (s.Enqueue now event).1
  | .dequeue clock virtualStorage nodeStorage count =>
    some (Dequeue encodable clock s virtualStorage nodeStorage count).1
  | .acknowledge clock state ids => some (Acknowledge encodable clock s state ids).1

/-- No event waits to be taken for the first time in front of one that has the same job and
was taken. -/
def Ordered (events : List EventRow) : Prop :=
  events.Pairwise (fun event later =>
    event.job = later.job → event.state = .ready → later.state = .ready)

structure Inv (encodable : ReplicationJob → Bool) (s : MemoryReplicationEventQueue) : Prop where
  distinct : (s.queued.map EventRow.id).Nodup
  bounded : ∀ event ∈ s.queued, event.id ≤ s.seq
  tracked : ∀ event ∈ s.queued, event.id ∈ s.dequeued ↔ event.state ≠ .ready
  known : ∀ id ∈ s.dequeued, ∃ event ∈ s.queued, event.id = id
  dated : ∀ event ∈ s.queued, event.state = .inProgress → event.updatedAt ≠ none
  encoded : ∀ event ∈ s.queued, event.state ≠ .ready → encodable event.job = true
  ordered : Ordered s.queued

theorem empty_inv (encodable : ReplicationJob → Bool) : Inv encodable empty where
  distinct := nodup_nil
  bounded := fun _ absent => absurd absent not_mem_nil
  tracked := fun _ absent => absurd absent not_mem_nil
  known := fun _ absent => absurd absent (Finset.notMem_empty _)
  dated := fun _ absent => absurd absent not_mem_nil
  encoded := fun _ absent => absurd absent not_mem_nil
  ordered := List.Pairwise.nil

section inv

variable {encodable : ReplicationJob → Bool} {s : MemoryReplicationEventQueue}

theorem Inv.unknown (inv : Inv encodable s) : s.seq + 1 ∉ s.dequeued := by
  intro present
  obtain ⟨event, member, same⟩ := inv.known _ present
  have := inv.bounded event member
  omega

theorem Enqueue_inv (inv : Inv encodable s) (now : Timestamp) (event : ReplicationEvent) :
    Inv encodable (s.Enqueue now event).1 := by
  have known : ∀ row ∈ (s.Enqueue now event).1.queued,
      row ∈ s.queued ∨ row.id = s.seq + 1 ∧ row.state = .ready := by
    intro row member
    rcases mem_append.mp member with old | new
    · exact .inl old
    · rw [mem_singleton.mp new]
      exact .inr ⟨rfl, rfl⟩
  refine ⟨?_, ?_, ?_, ?_, ?_, ?_, ?_⟩
  · change ((s.queued ++ [_]).map EventRow.id).Nodup
    rw [map_append]
    refine nodup_append.mpr ⟨inv.distinct, nodup_singleton _, ?_⟩
    intro id old other new
    obtain ⟨row, member, rfl⟩ := mem_map.mp old
    rw [mem_singleton.mp new]
    exact Nat.ne_of_lt (Nat.lt_succ_of_le (inv.bounded row member))
  · intro row member
    rcases known row member with old | ⟨id, -⟩
    · exact Nat.le_succ_of_le (inv.bounded row old)
    · exact Nat.le_of_eq id
  · intro row member
    rcases known row member with old | ⟨id, ready⟩
    · exact inv.tracked row old
    · rw [id]
      exact iff_of_false inv.unknown (fun other => other ready)
  · intro id present
    obtain ⟨row, member, same⟩ := inv.known id present
    exact ⟨row, mem_append_left _ member, same⟩
  · intro row member progress
    rcases known row member with old | ⟨-, ready⟩
    · exact inv.dated row old progress
    · rw [ready] at progress
      cases progress
  · intro row member notReady
    rcases known row member with old | ⟨-, ready⟩
    · exact inv.encoded row old notReady
    · exact absurd ready notReady
  · refine pairwise_append.mpr ⟨inv.ordered, pairwise_singleton _ _, ?_⟩
    intro row _ other new _ _
    rw [mem_singleton.mp new]

/-- What the loop of `Dequeue` does with the rest of the queue. -/
structure Dequeues (encodable : ReplicationJob → Bool) (virtualStorage nodeStorage : String)
    (events result out result' : List EventRow) : Prop where
  ids : out.map EventRow.id = events.map EventRow.id
  rows : ∀ row ∈ out, row ∈ events ∨ row ∈ result' ∧ row.job ∉ result.map (fun row => row.job) ∧
    row.job.virtualStorage = virtualStorage ∧ row.job.targetNodeStorage = nodeStorage
  returned : ∀ row ∈ result', row ∈ result ∨ row ∈ out ∧ row.state = .inProgress ∧
    row.updatedAt ≠ none ∧ encodable row.job = true
  earlier : ∀ row ∈ result, row ∈ result'
  ordered : Ordered events → Ordered out

section dequeue

variable {virtual nodeStorage : String} {event : EventRow}
  {rest result out result' : List EventRow}

theorem Dequeues.refl (events result : List EventRow) :
    Dequeues encodable virtual nodeStorage events result events result :=
  ⟨rfl, fun _ => .inl, fun _ => .inl, fun _ => id, id⟩

theorem Dequeues.keep (loop : Dequeues encodable virtualStorage nodeStorage rest result out result')
    (blocked : event.state = .ready → event.job.virtualStorage = virtualStorage →
      event.job.targetNodeStorage = nodeStorage → event.job ∈ result.map (fun row => row.job)) :
    Dequeues encodable virtualStorage nodeStorage (event :: rest) result (event :: out)
      result' := by
  refine ⟨?_, ?_, ?_, loop.earlier, ?_⟩
  · rw [map_cons, map_cons, loop.ids]
  · intro row member
    rcases mem_cons.mp member with rfl | later
    · exact .inl mem_cons_self
    · exact (loop.rows row later).imp (mem_cons_of_mem event) id
  · intro row member
    exact (loop.returned row member).imp id (And.imp_left (mem_cons_of_mem event))
  · intro ordered
    obtain ⟨ahead, behind⟩ := pairwise_cons.mp ordered
    refine pairwise_cons.mpr ⟨fun row member same ready => ?_, loop.ordered behind⟩
    rcases loop.rows row member with old | ⟨-, new, virtual, node⟩
    · exact ahead row old same ready
    · rw [← same] at new virtual node
      exact absurd (blocked ready virtual node) new

theorem Dequeues.take {clock : Nat → Timestamp}
    (loop : Dequeues encodable virtual nodeStorage rest (result ++ [taken clock event]) out
      result') (isFor : IsFor virtual nodeStorage event)
    (encodes : encodable event.job = true) (unique : event.job ∉ result.map (fun row => row.job)) :
    Dequeues encodable virtual nodeStorage (event :: rest) result (taken clock event :: out)
      result' := by
  have returned := loop.earlier _ (mem_append_right result (mem_singleton_self _))
  refine ⟨?_, ?_, ?_, ?_, ?_⟩
  · rw [map_cons, map_cons, loop.ids]
    rfl
  · intro row member
    rcases mem_cons.mp member with rfl | later
    · exact .inr ⟨returned, unique, isFor.1, isFor.2.1⟩
    refine (loop.rows row later).imp (mem_cons_of_mem event)
      (And.imp_right (And.imp_left ?_))
    intro absent present
    rw [map_append] at absent
    exact absent (mem_append_left _ present)
  · intro row member
    rcases loop.returned row member with earlier | ⟨later, new⟩
    · rcases mem_append.mp earlier with old | self
      · exact .inl old
      · rw [mem_singleton.mp self]
        exact .inr ⟨mem_cons_self, rfl, Option.some_ne_none _, encodes⟩
    · exact .inr ⟨mem_cons_of_mem _ later, new⟩
  · exact fun row member => loop.earlier row (mem_append_left _ member)
  · intro ordered
    refine pairwise_cons.mpr ⟨fun row _ _ ready => ?_, loop.ordered (pairwise_cons.mp ordered).2⟩
    cases ready

theorem dequeueLoop_dequeues (clock : Nat → Timestamp) (virtualStorage nodeStorage : String)
    (count : Int) (events result : List EventRow) :
    Dequeues encodable virtualStorage nodeStorage events result
      (dequeueLoop encodable clock virtualStorage nodeStorage count events result).1
      (dequeueLoop encodable clock virtualStorage nodeStorage count events result).2.1 := by
  induction events generalizing result with
  | nil => exact Dequeues.refl [] result
  | cons event rest ih =>
    unfold dequeueLoop
    split_ifs with isFor failed duplicate full
    · exact Dequeues.refl (event :: rest) result
    · exact (ih result).keep (fun _ _ _ => duplicate)
    · exact (Dequeues.refl rest _).take isFor (Bool.not_eq_false _ ▸ failed) duplicate
    · exact (ih _).take isFor (Bool.not_eq_false _ ▸ failed) duplicate
    · exact (ih result).keep
        (fun ready virtual node => absurd ⟨virtual, node, .inl ready⟩ isFor)

end dequeue

theorem Dequeue_inv (inv : Inv encodable s) (clock : Nat → Timestamp)
    (virtual nodeStorage : String) (count : Int) :
    Inv encodable (Dequeue encodable clock s virtual nodeStorage count).1 := by
  have loop : Dequeues encodable _ _ _ _ _ _ :=
    dequeueLoop_dequeues clock virtual nodeStorage count s.queued []
  unfold Dequeue
  generalize dequeueLoop encodable clock virtual nodeStorage count s.queued [] = found at *
  obtain ⟨queued, result, failed⟩ := found
  have returned : ∀ row ∈ result, row ∈ queued ∧ row.state = .inProgress ∧ row.updatedAt ≠ none ∧
      encodable row.job = true :=
    fun row member => (loop.returned row member).resolve_left not_mem_nil
  have rows : ∀ row ∈ queued, row ∈ s.queued ∨ row ∈ result :=
    fun row member => (loop.rows row member).imp id And.left
  have distinct : (queued.map EventRow.id).Nodup := loop.ids ▸ inv.distinct
  have sameIDs : ∀ id, (∃ row ∈ queued, row.id = id) ↔ ∃ event ∈ s.queued, event.id = id := by
    intro id
    rw [← mem_map, ← mem_map, loop.ids]
  refine ⟨distinct, ?_, ?_, ?_, ?_, ?_, loop.ordered inv.ordered⟩
  · intro row member
    obtain ⟨event, present, same⟩ := (sameIDs row.id).mp ⟨row, member, rfl⟩
    exact same ▸ inv.bounded event present
  · intro row member
    rw [Finset.mem_union, mem_toFinset]
    by_cases new : row ∈ result
    · refine iff_of_true (.inr (mem_map_of_mem new)) ?_
      rw [(returned row new).2.1]
      exact JobState.noConfusion
    · have old := (rows row member).resolve_right new
      have absent : row.id ∉ result.map EventRow.id := by
        intro present
        obtain ⟨other, isNew, same⟩ := mem_map.mp present
        exact new (inj_on_of_nodup_map distinct (returned other isNew).1 member same ▸ isNew)
      rw [or_iff_left absent]
      exact inv.tracked row old
  · intro id present
    rcases Finset.mem_union.mp present with before | new
    · exact (sameIDs id).mpr (inv.known id before)
    · obtain ⟨row, isNew, same⟩ := mem_map.mp (mem_toFinset.mp new)
      exact ⟨row, (returned row isNew).1, same⟩
  · intro row member progress
    rcases rows row member with old | new
    · exact inv.dated row old progress
    · exact (returned row new).2.2.1
  · intro row member notReady
    rcases rows row member with old | new
    · exact inv.encoded row old notReady
    · exact (returned row new).2.2.2

theorem split_of_getElem? {events : List EventRow} {i : Nat} {event : EventRow}
    (found : events[i]? = some event) :
    ∃ before behind, events = before ++ event :: behind ∧ before.length = i := by
  obtain ⟨inside, rfl⟩ := List.getElem?_eq_some_iff.mp found
  refine ⟨events.take i, events.drop (i + 1), ?_, length_take_of_le (Nat.le_of_lt inside)⟩
  rw [getElem_cons_drop, take_append_drop]

section split

variable {before behind : List EventRow} {event : EventRow}

theorem getElem?_of_split (queued : s.queued = before ++ event :: behind) :
    s.queued[before.length]? = some event := by
  rw [queued, getElem?_append_right (Nat.le_refl _), Nat.sub_self]
  rfl

theorem remove_eq (queued : s.queued = before ++ event :: behind) :
    s.remove before.length =
      { s with queued := before ++ behind, dequeued := s.dequeued.erase event.id } := by
  have rest : s.queued.eraseIdx before.length = before ++ behind := by
    rw [queued, eraseIdx_append_of_length_le (Nat.le_refl _), Nat.sub_self]
    rfl
  unfold remove
  rw [getElem?_of_split queued]
  rw [rest]

theorem Inv.others (inv : Inv encodable s) (queued : s.queued = before ++ event :: behind) :
    ∀ row ∈ before ++ behind, row.id ≠ event.id := by
  have distinct := inv.distinct
  rw [queued, (perm_middle.map EventRow.id).nodup_iff, map_cons, nodup_cons] at distinct
  exact fun row member same => distinct.1 (same ▸ mem_map_of_mem member)

theorem remove_inv (inv : Inv encodable s) (i : Nat) : Inv encodable (s.remove i) := by
  cases found : s.queued[i]? with
  | none =>
    unfold remove
    rw [found]
    exact inv
  | some event =>
  obtain ⟨before, behind, queued, rfl⟩ := split_of_getElem? found
  rw [remove_eq queued]
  have sub : (before ++ behind).Sublist s.queued := by
    rw [queued]
    exact (List.Sublist.refl before).append (sublist_cons_self event behind)
  have others := inv.others queued
  refine ⟨inv.distinct.sublist (sub.map EventRow.id), ?_, ?_, ?_, ?_, ?_, inv.ordered.sublist sub⟩
  · exact fun row member => inv.bounded row (sub.subset member)
  · intro row member
    rw [Finset.mem_erase, and_iff_right (others row member)]
    exact inv.tracked row (sub.subset member)
  · intro id present
    obtain ⟨different, old⟩ := Finset.mem_erase.mp present
    obtain ⟨row, member, rfl⟩ := inv.known id old
    refine ⟨row, ?_, rfl⟩
    rw [queued] at member
    rcases mem_append.mp member with front | back
    · exact mem_append_left _ front
    rcases mem_cons.mp back with rfl | later
    · exact absurd rfl different
    · exact mem_append_right _ later
  · exact fun row member => inv.dated row (sub.subset member)
  · exact fun row member => inv.encoded row (sub.subset member)

theorem removeSame_inv (dequeuedAt : Option Timestamp) (job : ReplicationJob) (fuel : Nat)
    (inv : Inv encodable s) (j : Nat) :
    Inv encodable (removeSame encodable dequeuedAt job fuel s j).1 := by
  induction fuel generalizing s j with
  | zero => exact inv
  | succ fuel ih =>
    unfold removeSame
    split
    · exact inv
    · exact inv
    split_ifs
    · exact inv
    · exact inv
    · exact ih (remove_inv inv j) _
    · exact ih inv _

theorem relabel_inv (inv : Inv encodable s) (queued : s.queued = before ++ event :: behind)
    (notReady : event.state ≠ .ready) {acked : EventRow} (id : acked.id = event.id)
    (job : acked.job = event.job) (state : acked.state ≠ .ready ∧ acked.state ≠ .inProgress)
    (lastEventByDest : KeyedTable EventRow EventDestination defineDest) :
    Inv encodable ⟨s.seq, before ++ acked :: behind, s.dequeued, lastEventByDest⟩ := by
  have present : event ∈ s.queued := queued ▸ mem_append_right before mem_cons_self
  have rows : ∀ row ∈ before ++ acked :: behind, row ∈ s.queued ∨ row = acked := by
    intro row member
    rw [queued]
    rcases mem_append.mp member with front | back
    · exact .inl (mem_append_left _ front)
    rcases mem_cons.mp back with rfl | later
    · exact .inr rfl
    · exact .inl (mem_append_right _ (mem_cons_of_mem _ later))
  have ids : (before ++ acked :: behind).map EventRow.id = s.queued.map EventRow.id := by
    rw [queued, map_append, map_append, map_cons, map_cons, id]
  refine ⟨ids ▸ inv.distinct, ?_, ?_, ?_, ?_, ?_, ?_⟩
  · intro row member
    rcases rows row member with old | rfl
    · exact inv.bounded row old
    · exact id ▸ inv.bounded event present
  · intro row member
    rcases rows row member with old | rfl
    · exact inv.tracked row old
    · rw [id]
      exact iff_of_true ((inv.tracked event present).mpr notReady) state.1
  · intro name named
    rw [← mem_map, ids, mem_map]
    exact inv.known name named
  · intro row member progress
    rcases rows row member with old | rfl
    · exact inv.dated row old progress
    · exact absurd progress state.2
  · intro row member other
    rcases rows row member with old | rfl
    · exact inv.encoded row old other
    · exact job ▸ inv.encoded event present notReady
  · have ordered := inv.ordered
    rw [Ordered, queued] at ordered
    obtain ⟨front, back, across⟩ := pairwise_append.mp ordered
    obtain ⟨-, back⟩ := pairwise_cons.mp back
    refine pairwise_append.mpr ⟨front,
      pairwise_cons.mpr ⟨fun _ _ _ ready => absurd ready state.1, back⟩, ?_⟩
    intro row member other isBack same ready
    rcases mem_cons.mp isBack with rfl | later
    · exact absurd (across row member event mem_cons_self (same.trans job) ready) notReady
    · exact across row member other (mem_cons_of_mem _ later) same ready

section acknowledge

variable {clock : Nat → Timestamp} {state : JobState}

/-- The event that is acknowledged, in its place. -/
def relabelled (s : MemoryReplicationEventQueue) (acked : EventRow)
    (before behind : List EventRow) : MemoryReplicationEventQueue :=
  { s with
    queued := before ++ acked :: behind
    lastEventByDest := follow s.lastEventByDest acked }

theorem set_eq (queued : s.queued = before ++ event :: behind) (acked : EventRow) :
    s.queued.set before.length acked = before ++ acked :: behind := by
  rw [queued, set_append_right _ _ (Nat.le_refl _), Nat.sub_self]
  rfl

theorem acknowledgeAt_refused (encodable : ReplicationJob → Bool) (clock : Nat → Timestamp)
    (s : MemoryReplicationEventQueue) (i : Nat) (refused : Refused state event) :
    ∃ err, acknowledgeAt encodable clock s state i event = (s, some err) := by
  unfold acknowledgeAt
  by_cases progress : event.state = .inProgress
  · rw [if_neg (not_not.mpr progress), if_pos (refused.resolve_left (not_not.mpr progress))]
    exact ⟨_, rfl⟩
  · rw [if_pos progress]
    exact ⟨_, rfl⟩

theorem acknowledgeAt_accepted (queued : s.queued = before ++ event :: behind)
    (accepted : ¬ Refused state event) :
    acknowledgeAt encodable clock s state before.length event =
      removeAcknowledged encodable
        (s.relabelled (event.acknowledged (clock event.id) state) before behind)
        state before.length event := by
  obtain ⟨progress, alive⟩ := not_or.mp accepted
  unfold acknowledgeAt
  rw [if_neg progress, if_neg alive]
  dsimp only
  rw [set_eq queued]
  rfl

theorem removeAcknowledged_inv (inv : Inv encodable s) (i : Nat) :
    Inv encodable (removeAcknowledged encodable s state i event).1 := by
  unfold removeAcknowledged
  split
  · split
    · exact inv
    · have swept := removeSame_inv event.updatedAt event.job s.queued.length inv (i + 1)
      split
      · rename_i removed
        rw [removed] at swept
        exact swept
      · rename_i removed
        rw [removed] at swept
        exact remove_inv swept i
  · exact remove_inv inv i
  · exact remove_inv inv i
  · exact inv

theorem relabelled_inv (inv : Inv encodable s) (queued : s.queued = before ++ event :: behind)
    (progress : event.state = .inProgress) (allowed : allowToAck state = true) :
    Inv encodable (s.relabelled (event.acknowledged (clock event.id) state) before behind) := by
  have notReady : event.state ≠ .ready := by
    rw [progress]
    exact JobState.noConfusion
  have other : state ≠ .ready := by
    rintro rfl
    cases allowed
  exact relabel_inv inv queued notReady (event.acknowledged_id (clock event.id) state) rfl
    ⟨other, allowToAck_ne allowed⟩ _

theorem acknowledgeAt_inv (inv : Inv encodable s) {i : Nat} (found : s.queued[i]? = some event)
    (allowed : allowToAck state = true) :
    Inv encodable (acknowledgeAt encodable clock s state i event).1 := by
  by_cases refused : Refused state event
  · obtain ⟨err, unchanged⟩ := acknowledgeAt_refused encodable clock s i refused
    rw [unchanged]
    exact inv
  · obtain ⟨before, behind, queued, rfl⟩ := split_of_getElem? found
    have progress := not_not.mp (not_or.mp refused).1
    rw [acknowledgeAt_accepted queued refused]
    exact removeAcknowledged_inv (relabelled_inv inv queued progress allowed) _

theorem acknowledgeOne_inv (allowed : allowToAck state = true) (inv : Inv encodable s) (id : Nat) :
    Inv encodable (acknowledgeOne encodable clock state s id).1 := by
  unfold acknowledgeOne
  split
  · exact inv
  split
  · exact inv
  rename_i event i isFirst
  have found := mem_zipIdx_iff_getElem?.mp (mem_of_find?_eq_some isFirst)
  have next : Inv encodable (acknowledgeAt encodable clock s state i event).1 :=
    acknowledgeAt_inv inv found allowed
  split
  · rename_i failed
    rw [failed] at next
    exact next
  · rename_i acked
    rw [acked] at next
    exact next

theorem acknowledgeLoop_inv (allowed : allowToAck state = true)
    (inv : Inv encodable s) (result ids : List Nat) :
    Inv encodable (acknowledgeLoop encodable clock state s result ids).1 := by
  induction ids generalizing s result with
  | nil => exact inv
  | cons id ids ih =>
    have next : Inv encodable (acknowledgeOne encodable clock state s id).1 :=
      acknowledgeOne_inv allowed inv id
    unfold acknowledgeLoop
    split
    · rename_i failed
      rw [failed] at next
      exact next
    · rename_i acked
      rw [acked] at next
      exact ih next _

theorem Acknowledge_inv (inv : Inv encodable s) (clock : Nat → Timestamp) (state : JobState)
    (ids : List Nat) : Inv encodable (Acknowledge encodable clock s state ids).1 := by
  unfold Acknowledge
  split
  · exact inv
  split
  · exact inv
  · rename_i allowed
    exact acknowledgeLoop_inv (Bool.not_eq_false _ ▸ allowed) inv [] ids

end acknowledge

end split

theorem step_inv {call : MemoryCall} {next : MemoryReplicationEventQueue}
    (inv : Inv encodable s) (taken : step encodable s call = some next) : Inv encodable next := by
  cases call with
  | enqueue now event =>
    cases taken
    exact Enqueue_inv inv now event
  | dequeue clock virtual nodeStorage count =>
    cases taken
    exact Dequeue_inv inv clock virtual nodeStorage count
  | acknowledge clock state ids =>
    cases taken
    exact Acknowledge_inv inv clock state ids

theorem inv_of_reaches (reached : Runs.Reaches (step encodable) empty s) : Inv encodable s :=
  reached.invariant (Inv encodable) (fun _ _ _ inv taken => step_inv inv taken)
    (empty_inv encodable)

end inv

end MemoryReplicationEventQueue

end Gitaly.Datastore
