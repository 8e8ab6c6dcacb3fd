import Gitaly.Datastore.MemoryQueue

/- What `Acknowledge` of the queue in memory does to the queue, id after id. -/
namespace Gitaly.Datastore.MemoryReplicationEventQueue

open Runs PostgresReplicationEventQueue List

variable {encodable : ReplicationJob → Bool} {clock : Nat → Timestamp} {state : JobState}
  {s : MemoryReplicationEventQueue}

section rounds

variable {before behind : List EventRow} {event : EventRow}

theorem find_eq (distinct : (s.queued.map EventRow.id).Nodup)
    (queued : s.queued = before ++ event :: behind) :
    s.queued.zipIdx.find? (fun entry => entry.1.id = event.id) = some (event, before.length) := by
  have place := getElem?_of_split queued
  cases found : s.queued.zipIdx.find? (fun entry => entry.1.id = event.id) with
  | none =>
    have listed : (event, before.length) ∈ s.queued.zipIdx := mem_zipIdx_iff_getElem?.mpr place
    exact absurd (decide_eq_true rfl) (find?_eq_none.mp found _ listed)
  | some entry =>
    have same := find?_some found
    rw [decide_eq_true_iff] at same
    have at_index := mem_zipIdx_iff_getElem?.mp (mem_of_find?_eq_some found)
    have isEvent : entry.1 = event :=
      inj_on_of_nodup_map distinct (mem_of_getElem? at_index)
        (List.mem_of_getElem? place) same
    have inside : entry.2 < s.queued.length := (List.getElem?_eq_some_iff.mp at_index).1
    have isPlace : entry.2 = before.length :=
      (List.getElem?_inj inside distinct.of_map).mp (at_index.trans (isEvent ▸ place.symm))
    rw [← isEvent, ← isPlace]

theorem acknowledgeOne_skip {id : Nat} (absent : id ∉ s.dequeued) :
    acknowledgeOne encodable clock state s id = (s, .ok []) := if_pos absent

theorem acknowledgeOne_found (inv : Inv encodable s)
    (queued : s.queued = before ++ event :: behind) (notReady : event.state ≠ .ready) :
    acknowledgeOne encodable clock state s event.id =
      ((acknowledgeAt encodable clock s state before.length event).1,
        match (acknowledgeAt encodable clock s state before.length event).2 with
        | some err => .error err
        | none => .ok [event.id]) := by
  have member : event ∈ s.queued := queued ▸ mem_append_right before mem_cons_self
  unfold acknowledgeOne
  rw [if_neg (not_not.mpr ((inv.tracked event member).mpr notReady)), find_eq inv.distinct queued]
  dsimp only
  rcases acknowledgeAt encodable clock s state before.length event with ⟨next, _ | err⟩ <;> rfl

theorem acknowledgeLoop_cons (result : List Nat) (id : Nat) (ids : List Nat) :
    acknowledgeLoop encodable clock state s result (id :: ids) =
      match (acknowledgeOne encodable clock state s id).2 with
      | .error err => ((acknowledgeOne encodable clock state s id).1, .error err)
      | .ok acked => acknowledgeLoop encodable clock state
          (acknowledgeOne encodable clock state s id).1 (result ++ acked) ids := by
  rw [acknowledgeLoop]
  rcases acknowledgeOne encodable clock state s id with ⟨next, err | acked⟩ <;> rfl

theorem Inv.split (inv : Inv encodable s) {id : Nat} (present : id ∈ s.dequeued) :
    ∃ before event behind, s.queued = before ++ event :: behind ∧ event.id = id ∧
      event.state ≠ .ready := by
  obtain ⟨event, member, rfl⟩ := inv.known id present
  obtain ⟨before, behind, queued⟩ := append_of_mem member
  exact ⟨before, event, behind, queued, rfl, (inv.tracked event member).mp present⟩

theorem remove_sublist (s : MemoryReplicationEventQueue) (i : Nat) :
    (s.remove i).queued.Sublist s.queued := by
  unfold remove
  split
  · exact List.Sublist.refl _
  · exact eraseIdx_sublist _ _

theorem removeSame_sublist (dequeuedAt : Option Timestamp) (job : ReplicationJob) (fuel : Nat)
    (s : MemoryReplicationEventQueue) (j : Nat) :
    (removeSame encodable dequeuedAt job fuel s j).1.queued.Sublist s.queued := by
  induction fuel generalizing s j with
  | zero => exact List.Sublist.refl _
  | succ fuel ih =>
    unfold removeSame
    split
    · exact List.Sublist.refl _
    · exact List.Sublist.refl _
    split_ifs
    · exact List.Sublist.refl _
    · exact List.Sublist.refl _
    · exact (ih _ _).trans (remove_sublist s j)
    · exact ih _ _

theorem removeAcknowledged_sublist (s : MemoryReplicationEventQueue) (i : Nat) :
    (removeAcknowledged encodable s state i event).1.queued.Sublist s.queued := by
  unfold removeAcknowledged
  split
  · split
    · exact List.Sublist.refl _
    · have swept : (removeSame encodable event.updatedAt event.job s.queued.length s
          (i + 1)).1.queued.Sublist s.queued := removeSame_sublist _ _ _ _ _
      split
      · rename_i removed
        rw [removed] at swept
        exact swept
      · rename_i removed
        rw [removed] at swept
        exact (remove_sublist _ i).trans swept
  · exact remove_sublist s i
  · exact remove_sublist s i
  · exact List.Sublist.refl _

variable {row : EventRow}

/-- What is in progress after a round was so before, and is not what the round has
acknowledged. -/
theorem progress_acknowledgeAt (inv : Inv encodable s)
    (queued : s.queued = before ++ event :: behind) (accepted : ¬ Refused state event)
    (allowed : allowToAck state = true)
    (member : row ∈ (acknowledgeAt encodable clock s state before.length event).1.queued)
    (progress : row.state = .inProgress) : row ∈ s.queued ∧ row ≠ event := by
  rw [acknowledgeAt_accepted queued accepted] at member
  have known := (removeAcknowledged_sublist _ _).subset member
  have other : row ∈ before ++ behind := by
    rcases mem_append.mp known with front | back
    · exact mem_append_left _ front
    rcases mem_cons.mp back with rfl | later
    · exact absurd progress (allowToAck_ne allowed)
    · exact mem_append_right _ later
  refine ⟨?_, fun same => inv.others queued row other (congrArg EventRow.id same)⟩
  rw [queued]
  exact mem_append.mpr ((mem_append.mp other).imp id (mem_cons_of_mem event))

theorem progress_acknowledgeOne (inv : Inv encodable s) (allowed : allowToAck state = true)
    {id : Nat} (member : row ∈ (acknowledgeOne encodable clock state s id).1.queued)
    (progress : row.state = .inProgress) : row ∈ s.queued := by
  by_cases present : id ∈ s.dequeued
  · obtain ⟨before, event, behind, queued, rfl, notReady⟩ := inv.split present
    rw [acknowledgeOne_found inv queued notReady] at member
    by_cases refused : Refused state event
    · obtain ⟨err, unchanged⟩ := acknowledgeAt_refused encodable clock s before.length refused
      rw [unchanged] at member
      exact member
    · exact (progress_acknowledgeAt inv queued refused allowed member progress).1
  · rw [acknowledgeOne_skip present] at member
    exact member

theorem progress_acknowledgeLoop (allowed : allowToAck state = true)
    (inv : Inv encodable s) (result ids : List Nat)
    (member : row ∈ (acknowledgeLoop encodable clock state s result ids).1.queued)
    (progress : row.state = .inProgress) : row ∈ s.queued := by
  induction ids generalizing s result with
  | nil => exact member
  | cons id ids ih =>
    have next : Inv encodable (acknowledgeOne encodable clock state s id).1 :=
      acknowledgeOne_inv allowed inv id
    rw [acknowledgeLoop_cons] at member
    split at member
    · exact progress_acknowledgeOne inv allowed member progress
    · exact progress_acknowledgeOne inv allowed (ih next _ member) progress

end rounds

/-- An error leaves the queue as it was if and only if the first of the ids that was dequeued
is the one that is refused. -/
theorem acknowledgeLoop_unchanged_iff (allowed : allowToAck state = true) (inv : Inv encodable s)
    {result ids : List Nat} {err : MemoryQueueError}
    (failed : (acknowledgeLoop encodable clock state s result ids).2 = .error err) :
    ((acknowledgeLoop encodable clock state s result ids).1.queued = s.queued ∧
        (acknowledgeLoop encodable clock state s result ids).1.dequeued = s.dequeued) ↔
      ∀ id ∈ ids.find? (fun id => id ∈ s.dequeued),
        ∀ event ∈ s.queued, event.id = id → Refused state event := by
  induction ids generalizing result with
  | nil => cases failed
  | cons id ids ih =>
    by_cases present : id ∈ s.dequeued
    · have first : (id :: ids).find? (fun id => id ∈ s.dequeued) = some id :=
        find?_cons_of_pos (decide_eq_true present)
      rw [first]
      obtain ⟨before, event, behind, queued, rfl, notReady⟩ := inv.split present
      have member : event ∈ s.queued := queued ▸ mem_append_right before mem_cons_self
      have only : (∀ id ∈ some event.id, ∀ row ∈ s.queued, row.id = id → Refused state row) ↔
          Refused state event := by
        constructor
        · exact fun all => all event.id rfl event member rfl
        · rintro refused id ⟨⟩ row isRow same
          exact inj_on_of_nodup_map inv.distinct isRow member same ▸ refused
      rw [only]
      by_cases refused : Refused state event
      · obtain ⟨err, unchanged⟩ := acknowledgeAt_refused encodable clock s before.length refused
        rw [acknowledgeLoop_cons, acknowledgeOne_found inv queued notReady, unchanged]
        exact iff_of_true ⟨rfl, rfl⟩ refused
      · -- The event is not in progress after this round, and never again.
        refine iff_of_false (fun unchanged => ?_) refused
        have progress : event.state = .inProgress := not_not.mp (not_or.mp refused).1
        have final := unchanged.1.symm ▸ member
        have next : Inv encodable (acknowledgeOne encodable clock state s event.id).1 :=
          acknowledgeOne_inv allowed inv event.id
        have left : event ∈ (acknowledgeOne encodable clock state s event.id).1.queued := by
          rw [acknowledgeLoop_cons] at final
          split at final
          · exact final
          · exact progress_acknowledgeLoop allowed next _ _ final progress
        rw [acknowledgeOne_found inv queued notReady] at left
        exact (progress_acknowledgeAt inv queued refused allowed left progress).2 rfl
    · have later : (id :: ids).find? (fun id => id ∈ s.dequeued) =
          ids.find? (fun id => id ∈ s.dequeued) :=
        find?_cons_of_neg (fun found => present (of_decide_eq_true found))
      rw [later]
      have skipped : acknowledgeLoop encodable clock state s result (id :: ids) =
          acknowledgeLoop encodable clock state s (result ++ []) ids := by
        rw [acknowledgeLoop, acknowledgeOne_skip present]
      rw [skipped] at failed ⊢
      exact ih failed

/-- In every reachable state, an acknowledgement that fails changes neither the queue nor the
ids that are dequeued if and only if it refuses the first of its ids that was dequeued. -/
theorem failed_acknowledge_unchanged_iff {q : MemoryReplicationEventQueue}
    (reached : Reaches (step encodable) empty q) {ids : List Nat} {err : MemoryQueueError}
    (failed : (Acknowledge encodable clock q state ids).2 = .error err) :
    ((Acknowledge encodable clock q state ids).1.queued = q.queued ∧
        (Acknowledge encodable clock q state ids).1.dequeued = q.dequeued) ↔
      (allowToAck state = true →
        ∀ id ∈ ids.find? (fun id => id ∈ q.dequeued),
          ∀ event ∈ q.queued, event.id = id → Refused state event) := by
  unfold Acknowledge at failed ⊢
  split_ifs at failed ⊢ with none refused
  · rw [refused]
    exact iff_of_true ⟨rfl, rfl⟩ (fun allowed => Bool.noConfusion allowed)
  have allowed := Bool.not_eq_false _ ▸ refused
  rw [acknowledgeLoop_unchanged_iff allowed (inv_of_reaches reached) failed,
    forall_prop_of_true allowed]

/-- A job of the repository. -/
def updateOf (relativePath : String) : ReplicationEvent :=
  ⟨⟨1, .update, relativePath, "gitaly-2", "gitaly-1", "praefect", none⟩, none⟩

/-- Two events are in progress, and the second one is acknowledged as failed. -/
def oneFailed : MemoryReplicationEventQueue :=
  (exec (step (fun _ => true)) empty
    [.enqueue 1 (updateOf "a.git"), .enqueue 2 (updateOf "b.git"),
      .dequeue (fun _ => 3) "praefect" "gitaly-2" 2,
      .acknowledge (fun _ => 4) .failed [2]]).get (by decide)

theorem oneFailed_reached : Reaches (step (fun _ => true)) empty oneFailed :=
  Reaches.of_exec (by decide)

theorem failed_acknowledge_unchanged_iff_refused :
    (Acknowledge (fun _ => true) (fun _ => 5) oneFailed .completed [2, 1]).2 =
        .error (.notInProgress 2 .failed) ∧
      (Acknowledge (fun _ => true) (fun _ => 5) oneFailed .completed [2, 1]).1.queued =
        oneFailed.queued := by
  have failed : (Acknowledge (fun _ => true) (fun _ => 5) oneFailed .completed [2, 1]).2 =
      .error (.notInProgress 2 .failed) := by decide
  exact ⟨failed, ((failed_acknowledge_unchanged_iff oneFailed_reached failed).mpr (by decide)).1⟩

/-- The first event is completed and removed before the second one is refused. -/
theorem failed_acknowledge_removes :
    Reaches (step (fun _ => true)) empty oneFailed ∧
      oneFailed.queued.map EventRow.id = [1, 2] ∧ oneFailed.dequeued = {1, 2} ∧
      (Acknowledge (fun _ => true) (fun _ => 5) oneFailed .completed [1, 2]).2 =
        .error (.notInProgress 2 .failed) ∧
      (Acknowledge (fun _ => true) (fun _ => 5) oneFailed .completed [1, 2]).1.queued.map
        EventRow.id = [2] ∧
      (Acknowledge (fun _ => true) (fun _ => 5) oneFailed .completed [1, 2]).1.dequeued = {2} :=
  ⟨oneFailed_reached, by decide, by decide, by decide, by decide, by decide⟩

end Gitaly.Datastore.MemoryReplicationEventQueue
