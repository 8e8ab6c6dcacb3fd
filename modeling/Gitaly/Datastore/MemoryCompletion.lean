import Gitaly.Datastore.MemoryAcknowledge

/- Which events `Acknowledge` of the queue in memory removes when it completes events. -/
namespace Gitaly.Datastore.MemoryReplicationEventQueue

open Runs List

/-- The event would do again what an event did that was dequeued after it was created. -/
def Duplicate (job : ReplicationJob) (dequeuedAt : Timestamp) (event : EventRow) : Prop :=
  event.state = .ready ∧ event.job = job ∧ event.createdAt < dequeuedAt

instance (job : ReplicationJob) (dequeuedAt : Timestamp) :
    DecidablePred (Duplicate job dequeuedAt) := fun _ => inferInstanceAs (Decidable (_ ∧ _ ∧ _))

variable (q : MemoryReplicationEventQueue)

/-- What the completion of events settles: the events themselves, and their duplicates. -/
def Settled (ids : List Nat) (event : EventRow) : Prop :=
  event.state = .inProgress ∧ event.id ∈ ids ∨
    ∃ acked ∈ q.queued, (acked.state = .inProgress ∧ acked.id ∈ ids) ∧
      ∃ dequeuedAt ∈ acked.updatedAt, Duplicate acked.job dequeuedAt event

instance (q : MemoryReplicationEventQueue) (ids : List Nat) : DecidablePred (Settled q ids) :=
  fun _ => inferInstanceAs (Decidable (_ ∨ _))

/-- The queue without what is settled. -/
def remaining (ids : List Nat) : List EventRow :=
  q.queued.filter (fun event => ¬ Settled q ids event)

section clean

variable (job : ReplicationJob) (dequeuedAt : Timestamp)

/-- The last one of the events is a duplicate, and hides what is right behind it. -/
def Hides (events : List EventRow) : Prop := ∃ event ∈ events.getLast?, Duplicate job dequeuedAt event

/-- Whatever was created later among the events is hidden. -/
def Passes (events : List EventRow) : Prop :=
  ∀ front later back, events = front ++ later :: back → dequeuedAt < later.createdAt →
    Hides job dequeuedAt front

/-- What is right behind the events is found. -/
def Found (events : List EventRow) : Prop :=
  ¬ Hides job dequeuedAt events ∧ Passes job dequeuedAt events

/-- Of the events with the job that were not created later, exactly the duplicates are found
behind the others. -/
def Clean (before events : List EventRow) : Prop :=
  ∀ front event back, events = front ++ event :: back → event.job = job →
    ¬ dequeuedAt < event.createdAt →
      (Found job dequeuedAt (before ++ front) ↔ Duplicate job dequeuedAt event)

end clean

/-- The turn of an id, after others are settled. -/
def CleanTurn (served : List Nat) (id : Nat) : Prop :=
  ∀ before acked behind, q.remaining served = before ++ acked :: behind → acked.id = id →
    acked.state = .inProgress → ∀ dequeuedAt ∈ acked.updatedAt, Clean acked.job dequeuedAt [] behind

variable {encodable : ReplicationJob → Bool} {clock : Nat → Timestamp}
  {s : MemoryReplicationEventQueue}

section sweep

variable (encodable) (job : ReplicationJob) (dequeuedAt : Timestamp)

/-- The loop over `j` on what is behind the acknowledged event: what it leaves, and whether a
job could not be encoded. -/
def sweep : List EventRow → List EventRow × Bool
  | [] => ([], false)
  | [event] =>
    if dequeuedAt < event.createdAt then ([event], false)
    else if encodable event.job = false then ([event], true)
    else if event.job = job then ([], false)
    else ([event], false)
  | event :: next :: rest =>
    if dequeuedAt < event.createdAt then (event :: next :: rest, false)
    else if encodable event.job = false then (event :: next :: rest, true)
    else if event.job = job then ((next :: (sweep rest).1), (sweep rest).2)
    else ((event :: (sweep (next :: rest)).1), (sweep (next :: rest)).2)

theorem removeSame_end {dequeuedAt : Option Timestamp} (fuel : Nat) {j : Nat}
    (done : s.queued[j]? = none) : removeSame encodable dequeuedAt job fuel s j = (s, none) := by
  cases fuel with
  | zero => rfl
  | succ fuel =>
    unfold removeSame
    rw [done]

variable {event : EventRow}

theorem removeSame_next (fuel : Nat) {j : Nat} (found : s.queued[j]? = some event) :
    removeSame encodable (some dequeuedAt) job (fuel + 1) s j =
      if dequeuedAt < event.createdAt then (s, none)
      else if encodable event.job = false then (s, some .marshal)
      else if event.job = job then
        removeSame encodable (some dequeuedAt) job fuel (s.remove j) (j + 1)
      else removeSame encodable (some dequeuedAt) job fuel s (j + 1) := by
  conv_lhs => unfold removeSame
  rw [found]

theorem removeSame_sweep {fuel : Nat} {before behind : List EventRow}
    (queued : s.queued = before ++ behind) (enough : behind.length ≤ fuel) :
    (removeSame encodable (some dequeuedAt) job fuel s before.length).1.queued =
        before ++ (sweep encodable job dequeuedAt behind).1 ∧
      (removeSame encodable (some dequeuedAt) job fuel s before.length).2.isSome =
        (sweep encodable job dequeuedAt behind).2 := by
  induction fuel generalizing s before behind with
  | zero =>
    obtain rfl := eq_nil_of_length_eq_zero (Nat.le_zero.mp enough)
    exact ⟨queued, rfl⟩
  | succ fuel ih =>
    match behind with
    | [] =>
      rw [removeSame_end encodable job (fuel + 1) (by simp [queued])]
      exact ⟨queued, rfl⟩
    | [event] =>
      have removed : (s.remove before.length).queued[before.length + 1]? = none := by
        simp [remove_eq queued]
      have stays : s.queued[before.length + 1]? = none := by simp [queued]
      rw [removeSame_next encodable job dequeuedAt fuel (getElem?_of_split queued), sweep,
        removeSame_end encodable job fuel removed, removeSame_end encodable job fuel stays]
      split_ifs <;> simp [queued, remove_eq queued]
    | event :: next :: rest =>
      have removed := @ih (s.remove before.length) (before ++ [next]) rest
        (by simp [remove_eq queued])
      have stays := @ih s (before ++ [event]) (next :: rest) (by simp [queued])
      simp only [length_cons, length_append, length_nil, append_assoc,
        singleton_append, Nat.zero_add] at enough removed stays
      rw [removeSame_next encodable job dequeuedAt fuel (getElem?_of_split queued), sweep]
      split_ifs
      · exact ⟨queued, rfl⟩
      · exact ⟨queued, rfl⟩
      · exact removed (by omega)
      · exact stays (by omega)

/-- What should be left. -/
def spared (events : List EventRow) : List EventRow :=
  events.filter (fun event => ¬ Duplicate job dequeuedAt event)

variable {job dequeuedAt}

theorem not_duplicate_of_later (later : dequeuedAt < event.createdAt) :
    ¬ Duplicate job dequeuedAt event := fun duplicate => Int.lt_asymm later duplicate.2.2

theorem spared_cons (kept : ¬ Duplicate job dequeuedAt event) (rest : List EventRow) :
    spared job dequeuedAt (event :: rest) = event :: spared job dequeuedAt rest :=
  filter_cons_of_pos (decide_eq_true kept)

theorem spared_cons_duplicate (duplicate : Duplicate job dequeuedAt event) (rest : List EventRow) :
    spared job dequeuedAt (event :: rest) = spared job dequeuedAt rest :=
  filter_cons_of_neg (fun kept => of_decide_eq_true kept duplicate)

theorem spared_eq_self_iff {events : List EventRow} :
    events = spared job dequeuedAt events ↔ ∀ event ∈ events, ¬ Duplicate job dequeuedAt event := by
  rw [eq_comm, spared, filter_eq_self]
  simp only [decide_eq_true_eq]

theorem hides_nil : ¬ Hides job dequeuedAt [] := by simp [Hides]

theorem hides_snoc {events : List EventRow} :
    Hides job dequeuedAt (events ++ [event]) ↔ Duplicate job dequeuedAt event := by simp [Hides]

theorem passes_nil : Passes job dequeuedAt [] := fun _ _ _ split => by simp at split

theorem found_nil : Found job dequeuedAt [] := ⟨hides_nil, passes_nil⟩

theorem passes_snoc {events : List EventRow} :
    Passes job dequeuedAt (events ++ [event]) ↔ Passes job dequeuedAt events ∧
      (dequeuedAt < event.createdAt → Hides job dequeuedAt events) := by
  constructor
  · intro passes
    refine ⟨fun front later back split => ?_, passes events event [] rfl⟩
    exact passes front later (back ++ [event]) (by simp [split])
  · rintro ⟨passes, last⟩ front later back split created
    rcases eq_nil_or_concat back with rfl | ⟨init, other, rfl⟩
    · obtain ⟨rfl, same⟩ := append_inj' split rfl
      obtain rfl := singleton_inj.mp same
      exact last created
    · rw [concat_eq_append, ← cons_append, ← append_assoc] at split
      exact passes front later init (append_inj' split rfl).1 created

/-- What is found starts the search anew. -/
theorem found_append {before : List EventRow} (found : Found job dequeuedAt before)
    (events : List EventRow) :
    Found job dequeuedAt (before ++ events) ↔ Found job dequeuedAt events := by
  have both : (Hides job dequeuedAt (before ++ events) ↔ Hides job dequeuedAt events) ∧
      (Passes job dequeuedAt (before ++ events) ↔ Passes job dequeuedAt events) := by
    induction events using reverseRecOn with
    | nil =>
      rw [append_nil]
      exact ⟨iff_of_false found.1 hides_nil, iff_of_true found.2 passes_nil⟩
    | append_singleton events last ih =>
      simp only [← append_assoc, hides_snoc, passes_snoc, ih.1, ih.2, and_self]
  rw [Found, Found, both.1, both.2]

theorem clean_cons (before : List EventRow) (rest : List EventRow) :
    Clean job dequeuedAt before (event :: rest) ↔
      (event.job = job → ¬ dequeuedAt < event.createdAt →
        (Found job dequeuedAt before ↔ Duplicate job dequeuedAt event)) ∧
      Clean job dequeuedAt (before ++ [event]) rest := by
  constructor
  · intro clean
    refine ⟨fun same early => ?_, fun front other back split same early => ?_⟩
    · simpa using clean [] event rest rfl same early
    · simpa using clean (event :: front) other back (by rw [split, cons_append]) same early
  · rintro ⟨first, clean⟩ front other back split same early
    rcases cons_eq_append_iff.mp split with ⟨rfl, -⟩ | ⟨front, rfl, rest⟩
    · obtain ⟨rfl, -⟩ := cons.inj split
      rw [append_nil]
      exact first same early
    · simpa using clean front other back rest same early

theorem clean_of_found {before : List EventRow} (found : Found job dequeuedAt before)
    (events : List EventRow) :
    Clean job dequeuedAt before events ↔ Clean job dequeuedAt [] events := by
  unfold Clean
  simp only [found_append found, nil_append]

/-- Nothing is found behind an event that was created later. -/
theorem clean_of_later (later : dequeuedAt < event.createdAt) (rest : List EventRow) :
    Clean job dequeuedAt [event] rest ↔ ∀ other ∈ rest, ¬ Duplicate job dequeuedAt other := by
  have lost : ∀ front, ¬ Found job dequeuedAt ([event] ++ front) := by
    intro front found
    obtain ⟨_, absent, -⟩ := found.2 [] event front rfl later
    cases absent
  constructor
  · intro clean other member duplicate
    obtain ⟨front, back, split⟩ := append_of_mem member
    exact lost front ((clean front other back split duplicate.2.1
      (Int.lt_asymm duplicate.2.2)).mpr duplicate)
  · rintro none front other back rfl - -
    exact iff_of_false (lost front) (none other (by simp))

/-- What the loop leaves is what should be left if and only if it is clean. -/
theorem sweep_eq_spared_iff : ∀ {events : List EventRow}, events.Nodup →
    (sweep encodable job dequeuedAt events).2 = false →
    ((sweep encodable job dequeuedAt events).1 = spared job dequeuedAt events ↔
      Clean job dequeuedAt [] events)
  | [], _, _ => iff_of_true rfl (fun _ _ _ split => by simp at split)
  | [event], _, encoded => by
    have alone : Clean job dequeuedAt ([] ++ [event]) [] := fun _ _ _ split => by simp at split
    rw [sweep] at encoded ⊢
    rw [clean_cons, and_iff_left alone, iff_true_left found_nil]
    split_ifs at encoded ⊢ with later fails same
    · rw [spared_cons (not_duplicate_of_later later)]
      exact iff_of_true rfl (fun _ early => absurd later early)
    · rw [forall_prop_of_true same, forall_prop_of_true later]
      by_cases duplicate : Duplicate job dequeuedAt event
      · rw [spared_cons_duplicate duplicate]
        exact iff_of_true rfl duplicate
      · rw [spared_cons duplicate]
        exact iff_of_false (cons_ne_nil _ _).symm duplicate
    · rw [spared_cons (fun duplicate => same duplicate.2.1)]
      exact iff_of_true rfl (fun isSame => absurd isSame same)
  | event :: next :: rest, distinct, encoded => by
    obtain ⟨unlike, others⟩ := nodup_cons.mp distinct
    rw [sweep] at encoded ⊢
    rw [clean_cons, iff_true_left found_nil, nil_append]
    split_ifs at encoded ⊢ with later fails same
    · rw [spared_eq_self_iff, forall_mem_cons, and_iff_right (not_duplicate_of_later later),
        clean_of_later later, and_iff_right (fun _ early => absurd later early)]
    · have ih := sweep_eq_spared_iff (nodup_cons.mp others).2 encoded
      rw [forall_prop_of_true same, forall_prop_of_true later]
      by_cases duplicate : Duplicate job dequeuedAt event
      · have hidden : ¬ Found job dequeuedAt [event] := fun found => found.1 ⟨event, rfl, duplicate⟩
        rw [spared_cons_duplicate duplicate, and_iff_right duplicate, clean_cons,
          iff_false_left hidden]
        by_cases again : Duplicate job dequeuedAt next
        · -- The second duplicate is left, which it should not be.
          rw [spared_cons_duplicate again]
          refine iff_of_false (fun equal => ?_) (fun clean =>
            clean.1 again.2.1 (Int.lt_asymm again.2.2) again)
          have left : next ∈ spared job dequeuedAt rest := equal ▸ mem_cons_self
          exact of_decide_eq_true (mem_filter.mp left).2 again
        · have found : Found job dequeuedAt ([event] ++ [next]) := by
            rw [Found, hides_snoc, passes_snoc]
            refine ⟨again, passes_snoc.mpr ⟨passes_nil, fun created => absurd created later⟩, ?_⟩
            exact fun _ => ⟨event, rfl, duplicate⟩
          rw [spared_cons again, cons.injEq, and_iff_right rfl, ih, clean_of_found found,
            and_iff_right (fun _ _ => again)]
      · rw [spared_cons duplicate]
        refine iff_of_false (fun equal => ?_) (fun clean => duplicate clean.1)
        exact unlike ((cons.inj equal).1 ▸ mem_cons_self)
    · have ih := sweep_eq_spared_iff others encoded
      have other : ¬ Duplicate job dequeuedAt event := fun duplicate => same duplicate.2.1
      have found : Found job dequeuedAt [event] := by
        rw [← nil_append [event], Found, hides_snoc, passes_snoc]
        exact ⟨other, passes_nil, fun created => absurd created later⟩
      rw [spared_cons other, cons.injEq, and_iff_right rfl, ih, clean_of_found found,
        and_iff_right (fun isSame => absurd isSame same)]

theorem sweep_sublist : ∀ events : List EventRow,
    (sweep encodable job dequeuedAt events).1 <+ events ∧
      ∀ event ∈ events, event.job ≠ job → event ∈ (sweep encodable job dequeuedAt events).1
  | [] => ⟨.refl _, fun _ absent => absurd absent not_mem_nil⟩
  | [event] => by
    rw [sweep]
    split_ifs <;> simp_all
  | event :: next :: rest => by
    have skips := sweep_sublist rest
    have goes := sweep_sublist (next :: rest)
    rw [sweep]
    split_ifs with later fails same
    · exact ⟨.refl _, fun _ member _ => member⟩
    · exact ⟨.refl _, fun _ member _ => member⟩
    · refine ⟨.cons _ (skips.1.cons_cons _), ?_⟩
      rw [forall_mem_cons, forall_mem_cons]
      refine ⟨fun other => absurd same other, fun _ => mem_cons_self, fun row member other => ?_⟩
      exact mem_cons_of_mem _ (skips.2 row member other)
    · refine ⟨goes.1.cons_cons _, ?_⟩
      rw [forall_mem_cons]
      exact ⟨fun _ => mem_cons_self, fun row member other =>
        mem_cons_of_mem _ (goes.2 row member other)⟩

end sweep

section turn

variable {before behind : List EventRow} {acked : EventRow} {dequeuedAt : Timestamp}

theorem removeAcknowledged_completed {first : EventRow}
    (queued : s.queued = before ++ first :: behind) (encodes : encodable acked.job = true)
    (dated : acked.updatedAt = some dequeuedAt)
    (removed : (removeAcknowledged encodable s .completed before.length acked).2 = none) :
    (removeAcknowledged encodable s .completed before.length acked).1.queued =
        before ++ (sweep encodable acked.job dequeuedAt behind).1 ∧
      (sweep encodable acked.job dequeuedAt behind).2 = false := by
  have split : s.queued = (before ++ [first]) ++ behind := by
    rw [queued, append_assoc]
    rfl
  have enough : behind.length ≤ s.queued.length := by
    rw [split, length_append]
    omega
  have loop := removeSame_sweep encodable acked.job dequeuedAt split enough
  unfold removeAcknowledged at removed ⊢
  rw [dated, encodes] at removed ⊢
  rw [length_append, append_assoc] at loop
  generalize removeSame encodable (some dequeuedAt) acked.job s.queued.length s
    (before.length + 1) = outcome at removed loop ⊢
  obtain ⟨next, _ | err⟩ := outcome
  · obtain ⟨left, encoded⟩ := loop
    refine ⟨?_, encoded.symm⟩
    change (next.remove before.length).queued = _
    rw [remove_eq left]
    rfl
  · cases removed

section

variable (inv : Inv encodable s) (queued : s.queued = before ++ acked :: behind)
  (progress : acked.state = .inProgress)
include inv queued progress

theorem acknowledgeOne_completed (dated : acked.updatedAt = some dequeuedAt) {result : List Nat}
    (succeeded : (acknowledgeOne encodable clock .completed s acked.id).2 = .ok result) :
    (acknowledgeOne encodable clock .completed s acked.id).1.queued =
        before ++ (sweep encodable acked.job dequeuedAt behind).1 ∧
      (sweep encodable acked.job dequeuedAt behind).2 = false := by
  have member : acked ∈ s.queued := queued ▸ mem_append_right before mem_cons_self
  have notReady : acked.state ≠ .ready := by
    rw [progress]
    exact JobState.noConfusion
  have accepted : ¬ Refused .completed acked := by
    rintro (other | ⟨-, failed⟩)
    · exact other progress
    · cases failed
  rw [acknowledgeOne_found inv queued notReady, acknowledgeAt_accepted queued accepted]
    at succeeded ⊢
  refine removeAcknowledged_completed rfl (inv.encoded acked member notReady) dated ?_
  split at succeeded
  · cases succeeded
  · assumption

/-- What an acknowledged event settles around itself: nothing in front of it. -/
theorem filter_settled :
    s.queued.filter (fun event => ¬ (event.id = acked.id ∨
        Duplicate acked.job dequeuedAt event)) = before ++ spared acked.job dequeuedAt behind := by
  have others := inv.others queued
  have ordered := inv.ordered
  rw [Ordered, queued] at ordered
  have front : ∀ row ∈ before, ¬ (row.id = acked.id ∨ Duplicate acked.job dequeuedAt row) := by
    rintro row member (same | ⟨ready, job, -⟩)
    · exact others row (mem_append_left _ member) same
    · have taken := (pairwise_append.mp ordered).2.2 row member acked mem_cons_self
        job ready
      rw [progress] at taken
      cases taken
  have back : behind.filter (fun event => ¬ (event.id = acked.id ∨
      Duplicate acked.job dequeuedAt event)) = spared acked.job dequeuedAt behind := by
    refine filter_congr (fun row member => ?_)
    have other := others row (mem_append_right _ member)
    simp only [other, false_or]
  rw [queued, filter_append, filter_eq_self.mpr (fun row member =>
    decide_eq_true (front row member)), filter_cons_of_neg (by simp), back]

/-- A round removes what the event settles if and only if what is behind the event is clean. -/
theorem acknowledgeOne_exact_iff (dated : acked.updatedAt = some dequeuedAt) {result : List Nat}
    (succeeded : (acknowledgeOne encodable clock .completed s acked.id).2 = .ok result) :
    (acknowledgeOne encodable clock .completed s acked.id).1.queued =
        s.queued.filter (fun event => ¬ (event.id = acked.id ∨
          Duplicate acked.job dequeuedAt event)) ↔
      Clean acked.job dequeuedAt [] behind := by
  obtain ⟨left, encoded⟩ := acknowledgeOne_completed inv queued progress dated succeeded
  have distinct := inv.distinct.of_map
  rw [queued] at distinct
  have distinct : behind.Nodup := (nodup_cons.mp (nodup_append.mp distinct).2.1).2
  rw [left, filter_settled inv queued progress, append_cancel_left_eq,
    sweep_eq_spared_iff encodable distinct encoded]

end

end turn

section remaining

variable {q : MemoryReplicationEventQueue} {served : List Nat} {id : Nat} {event : EventRow}

theorem settled_snoc :
    Settled q (served ++ [id]) event ↔ Settled q served event ∨
      event.state = .inProgress ∧ event.id = id ∨
      ∃ acked ∈ q.queued, (acked.state = .inProgress ∧ acked.id = id) ∧
        ∃ dequeuedAt ∈ acked.updatedAt, Duplicate acked.job dequeuedAt event := by
  unfold Settled
  simp only [mem_append, mem_singleton]
  constructor
  · rintro (⟨progress, served | same⟩ | ⟨acked, member, ⟨progress, served | same⟩, duplicate⟩)
    · exact .inl (.inl ⟨progress, served⟩)
    · exact .inr (.inl ⟨progress, same⟩)
    · exact .inl (.inr ⟨acked, member, ⟨progress, served⟩, duplicate⟩)
    · exact .inr (.inr ⟨acked, member, ⟨progress, same⟩, duplicate⟩)
  · rintro ((⟨progress, served⟩ | ⟨acked, member, ⟨progress, served⟩, duplicate⟩) |
      ⟨progress, same⟩ | ⟨acked, member, ⟨progress, same⟩, duplicate⟩)
    · exact .inl ⟨progress, .inl served⟩
    · exact .inr ⟨acked, member, ⟨progress, .inl served⟩, duplicate⟩
    · exact .inl ⟨progress, .inr same⟩
    · exact .inr ⟨acked, member, ⟨progress, .inr same⟩, duplicate⟩

theorem mem_remaining :
    event ∈ q.remaining served ↔ event ∈ q.queued ∧ ¬ Settled q served event := by
  rw [remaining, mem_filter, decide_eq_true_iff]

theorem settled_iff_of_progress (progress : event.state = .inProgress) :
    Settled q served event ↔ event.id ∈ served := by
  constructor
  · rintro (⟨-, served⟩ | ⟨-, -, -, -, -, ready, -⟩)
    · exact served
    · rw [progress] at ready
      cases ready
  · exact fun served => .inl ⟨progress, served⟩

theorem remaining_snoc (distinct : (q.queued.map EventRow.id).Nodup) {acked : EventRow}
    {dequeuedAt : Timestamp} (member : acked ∈ q.remaining served)
    (progress : acked.state = .inProgress) (dated : acked.updatedAt = some dequeuedAt) :
    q.remaining (served ++ [acked.id]) = (q.remaining served).filter (fun event =>
      ¬ (event.id = acked.id ∨ Duplicate acked.job dequeuedAt event)) := by
  have present := (mem_remaining.mp member).1
  unfold remaining
  rw [filter_filter]
  refine filter_congr (fun event isEvent => ?_)
  have own : event.state = .inProgress ∧ event.id = acked.id ↔ event.id = acked.id :=
    and_iff_right_of_imp (fun same =>
      inj_on_of_nodup_map distinct isEvent present same ▸ progress)
  have one : (∃ other ∈ q.queued, (other.state = .inProgress ∧ other.id = acked.id) ∧
      ∃ time ∈ other.updatedAt, Duplicate other.job time event) ↔
      Duplicate acked.job dequeuedAt event := by
    constructor
    · rintro ⟨other, isOther, ⟨-, same⟩, time, isTime, duplicate⟩
      obtain rfl := inj_on_of_nodup_map distinct isOther present same
      obtain rfl : dequeuedAt = time := Option.some.inj (dated.symm.trans isTime)
      exact duplicate
    · exact fun duplicate => ⟨acked, present, ⟨progress, rfl⟩, dequeuedAt, dated, duplicate⟩
  rw [← Bool.decide_and, decide_eq_decide, settled_snoc, own, one, not_or, and_comm]

theorem remaining_snoc_of_none (none : ∀ acked ∈ q.remaining served, acked.id = id →
    acked.state ≠ .inProgress) : q.remaining (served ++ [id]) = q.remaining served := by
  -- An event in progress with the id is settled already.
  have known : ∀ acked ∈ q.queued, acked.state = .inProgress → acked.id = id →
      acked.id ∈ served := by
    intro acked member progress same
    by_contra unserved
    refine none acked (mem_remaining.mpr ⟨member, ?_⟩) same progress
    rwa [settled_iff_of_progress progress]
  refine filter_congr (fun event member => decide_eq_decide.mpr (not_congr ?_))
  rw [settled_snoc]
  refine or_iff_left_of_imp ?_
  rintro (⟨progress, same⟩ | ⟨acked, isAcked, ⟨progress, same⟩, duplicate⟩)
  · exact .inl ⟨progress, known event member progress same⟩
  · exact .inr ⟨acked, isAcked, ⟨progress, known acked isAcked progress same⟩, duplicate⟩

/-- A round that succeeds completes an event in progress, or finds none. -/
theorem turn_cases (inv : Inv encodable s) {result : List Nat}
    (succeeded : (acknowledgeOne encodable clock .completed s id).2 = .ok result) :
    (∃ before acked behind dequeuedAt, s.queued = before ++ acked :: behind ∧ acked.id = id ∧
      acked.state = .inProgress ∧ acked.updatedAt = some dequeuedAt) ∨
    (∀ acked ∈ s.queued, acked.id = id → acked.state ≠ .inProgress) ∧
      (acknowledgeOne encodable clock .completed s id).1 = s := by
  by_cases found : ∃ acked ∈ s.queued, acked.id = id ∧ acked.state = .inProgress
  · obtain ⟨acked, member, same, progress⟩ := found
    obtain ⟨dequeuedAt, dated⟩ := Option.ne_none_iff_exists'.mp (inv.dated acked member progress)
    obtain ⟨before, behind, split⟩ := append_of_mem member
    exact .inl ⟨before, acked, behind, dequeuedAt, split, same, progress, dated⟩
  · have none : ∀ acked ∈ s.queued, acked.id = id → acked.state ≠ .inProgress :=
      fun acked member same progress => found ⟨acked, member, same, progress⟩
    refine .inr ⟨none, ?_⟩
    have absent : id ∉ s.dequeued := by
      intro present
      obtain ⟨before, event, behind, split, rfl, notReady⟩ := inv.split present
      have refused : Refused .completed event :=
        .inl (none event (split ▸ mem_append_right _ mem_cons_self) rfl)
      obtain ⟨err, unchanged⟩ := acknowledgeAt_refused encodable clock s before.length refused
      rw [acknowledgeOne_found inv split notReady, unchanged] at succeeded
      cases succeeded
    rw [acknowledgeOne_skip absent]

/-- A round of a call that has removed what it should keeps doing so if and only if the turn
is clean. -/
theorem turn_exact_iff (distinct : (q.queued.map EventRow.id).Nodup) (inv : Inv encodable s)
    (queued : s.queued = q.remaining served) {result : List Nat}
    (succeeded : (acknowledgeOne encodable clock .completed s id).2 = .ok result) :
    (acknowledgeOne encodable clock .completed s id).1.queued = q.remaining (served ++ [id]) ↔
      q.CleanTurn served id := by
  rcases turn_cases inv succeeded with
    ⟨before, acked, behind, dequeuedAt, split, rfl, progress, dated⟩ | ⟨none, unchanged⟩
  · have present : acked ∈ s.queued := split ▸ mem_append_right before mem_cons_self
    rw [remaining_snoc distinct (queued ▸ present) progress dated, ← queued,
      acknowledgeOne_exact_iff inv split progress dated succeeded]
    constructor
    · intro clean before' acked' behind' split' same _ time isTime
      rw [← queued] at split'
      have present' : acked' ∈ s.queued := split' ▸ mem_append_right before' mem_cons_self
      obtain rfl := inj_on_of_nodup_map inv.distinct present' present same
      obtain rfl : dequeuedAt = time := Option.some.inj (dated.symm.trans isTime)
      have once := inv.distinct.of_map
      rw [split, perm_middle.nodup_iff, nodup_cons, mem_append, not_or] at once
      obtain ⟨-, -, rfl⟩ := (append_cons_inj_of_notMem once.1.1 once.1.2).mp
        (split.symm.trans split')
      exact clean
    · intro turn
      exact turn before acked behind (queued ▸ split) rfl progress dequeuedAt dated
  · rw [unchanged, remaining_snoc_of_none (queued ▸ none)]
    refine iff_of_true queued (fun before acked behind split same progress => ?_)
    exact absurd progress
      (none acked (queued ▸ split ▸ mem_append_right _ mem_cons_self) same)

end remaining

section calls

variable {q : MemoryReplicationEventQueue}

theorem Acknowledge_completed (ids : List Nat) :
    Acknowledge encodable clock q .completed ids =
      acknowledgeLoop encodable clock .completed q [] ids := by
  unfold Acknowledge
  split
  · rename_i none
    rw [none]
    rfl
  · rfl

theorem remaining_nil : q.remaining [] = q.queued := by
  refine filter_eq_self.mpr (fun event _ => decide_eq_true ?_)
  rintro (⟨-, absent⟩ | ⟨acked, -, ⟨-, absent⟩, -⟩)
  all_goals exact absurd absent not_mem_nil

theorem acknowledgeLoop_append {result served rest acked : List Nat}
    (succeeded : (acknowledgeLoop encodable clock .completed s result (served ++ rest)).2 =
      .ok acked) :
    ∃ earlier, (acknowledgeLoop encodable clock .completed s result served).2 = .ok earlier ∧
      acknowledgeLoop encodable clock .completed s result (served ++ rest) =
        acknowledgeLoop encodable clock .completed
          (acknowledgeLoop encodable clock .completed s result served).1 earlier rest := by
  induction served generalizing s result with
  | nil => exact ⟨result, rfl, rfl⟩
  | cons first served ih =>
    rw [cons_append, acknowledgeLoop_cons] at succeeded
    rw [cons_append, acknowledgeLoop_cons result first served,
      acknowledgeLoop_cons result first (served ++ rest)]
    split at succeeded
    · cases succeeded
    · exact ih succeeded

theorem acknowledgeLoop_singleton {result acked : List Nat} {id : Nat}
    (succeeded : (acknowledgeLoop encodable clock .completed s result [id]).2 = .ok acked) :
    (∃ own, (acknowledgeOne encodable clock .completed s id).2 = .ok own) ∧
      (acknowledgeLoop encodable clock .completed s result [id]).1 =
        (acknowledgeOne encodable clock .completed s id).1 := by
  rw [acknowledgeLoop_cons] at succeeded ⊢
  split at succeeded
  · cases succeeded
  · rename_i own found
    exact ⟨⟨own, found⟩, rfl⟩

/-- What the rounds of a call do to the queue: they remove no event but those with the job of an
event that they complete, and these are gone. -/
structure Removes (s next : MemoryReplicationEventQueue) (ids : List Nat) : Prop where
  sublist : next.queued <+ s.queued
  jobs : ∀ event ∈ s.queued, event ∉ next.queued → ∃ acked ∈ s.queued,
    acked.state = .inProgress ∧ acked.id ∈ ids ∧ event.job = acked.job
  gone : ∀ event ∈ next.queued, event.state = .inProgress → event.id ∉ ids

theorem acknowledgeOne_removes (inv : Inv encodable s) {id : Nat} {result : List Nat}
    (succeeded : (acknowledgeOne encodable clock .completed s id).2 = .ok result) :
    Removes s (acknowledgeOne encodable clock .completed s id).1 [id] := by
  rcases turn_cases inv succeeded with
    ⟨before, acked, behind, dequeuedAt, split, rfl, progress, dated⟩ | ⟨none, unchanged⟩
  · obtain ⟨left, -⟩ := acknowledgeOne_completed inv split progress dated succeeded
    obtain ⟨shorter, others⟩ := @sweep_sublist encodable acked.job dequeuedAt behind
    have own := inv.others split
    refine ⟨?_, fun event member lost => ?_, fun event member _ same => ?_⟩
    · rw [left, split]
      exact (Sublist.refl before).append (.cons _ shorter)
    · refine ⟨acked, by simp [split], progress, mem_singleton_self _, ?_⟩
      by_contra other
      rw [split, mem_append, mem_cons] at member
      rw [left, mem_append, not_or] at lost
      rcases member with front | rfl | back
      · exact lost.1 front
      · exact other rfl
      · exact lost.2 (others event back other)
    · rw [left] at member
      exact own event (((Sublist.refl before).append shorter).subset member) (mem_singleton.mp same)
  · rw [unchanged]
    exact ⟨.refl _, fun _ member lost => absurd member lost,
      fun event member progress same => none event member (mem_singleton.mp same) progress⟩

theorem Removes.trans {next last : MemoryReplicationEventQueue} {first second : List Nat}
    (earlier : Removes s next first) (later : Removes next last second) :
    Removes s last (first ++ second) := by
  refine ⟨later.sublist.trans earlier.sublist, fun event member lost => ?_,
    fun event member progress => ?_⟩
  · by_cases kept : event ∈ next.queued
    · obtain ⟨acked, present, progress, named, same⟩ := later.jobs event kept lost
      exact ⟨acked, earlier.sublist.subset present, progress, mem_append_right _ named, same⟩
    · obtain ⟨acked, present, progress, named, same⟩ := earlier.jobs event member kept
      exact ⟨acked, present, progress, mem_append_left _ named, same⟩
  · rw [mem_append, not_or]
    exact ⟨earlier.gone event (later.sublist.subset member) progress,
      later.gone event member progress⟩

theorem acknowledgeLoop_removes (inv : Inv encodable s) {result ids acked : List Nat}
    (succeeded : (acknowledgeLoop encodable clock .completed s result ids).2 = .ok acked) :
    Removes s (acknowledgeLoop encodable clock .completed s result ids).1 ids := by
  induction ids generalizing s result with
  | nil => exact ⟨.refl _, fun _ member lost => absurd member lost, fun _ _ _ => not_mem_nil⟩
  | cons id ids ih =>
    rw [acknowledgeLoop_cons] at succeeded ⊢
    split at succeeded
    · cases succeeded
    rename_i own found
    exact (acknowledgeOne_removes inv found).trans (ih (acknowledgeOne_inv rfl inv id) succeeded)

/-- No two of the events that are completed have the same job. -/
def Unlike (q : MemoryReplicationEventQueue) (ids : List Nat) : Prop :=
  Set.InjOn (fun event => event.job)
    {event | event ∈ q.queued ∧ event.state = .inProgress ∧ event.id ∈ ids}

section unlike

variable {next last : MemoryReplicationEventQueue} {served rest : List Nat} {event : EventRow}
  (before : Removes q next served) (after : Removes next last rest)
  (unlike : q.Unlike (served ++ rest)) (whole : last.queued = q.remaining (served ++ rest))
include before after unlike whole

theorem Removes.unsettled (kept : event ∈ next.queued) : ¬ Settled q served event := by
  rintro (⟨progress, named⟩ | ⟨acked, member, ⟨progress, named⟩, time, isTime, duplicate⟩)
  · exact before.gone event kept progress named
  -- A later round removes it, for another event with the job.
  have lost : event ∉ last.queued := by
    rw [whole, mem_remaining, not_and_not_right]
    exact fun _ => .inr ⟨acked, member, ⟨progress, mem_append_left _ named⟩, time, isTime,
      duplicate⟩
  obtain ⟨other, present, taken, later, same⟩ := after.jobs event kept lost
  obtain rfl := unlike ⟨member, progress, mem_append_left _ named⟩
    ⟨before.sublist.subset present, taken, mem_append_right _ later⟩
    (duplicate.2.1.symm.trans same)
  exact before.gone acked present progress named

theorem Removes.stays (member : event ∈ q.queued) (unsettled : ¬ Settled q served event) :
    event ∈ next.queued := by
  by_contra lost
  have settled : Settled q (served ++ rest) event := by
    by_contra stays
    exact lost (after.sublist.subset (whole ▸ mem_remaining.mpr ⟨member, stays⟩))
  obtain ⟨acked, present, progress, named, same⟩ := before.jobs event member lost
  have own : ∀ other ∈ q.queued, other.state = .inProgress → other.id ∈ served ++ rest →
      event.job = other.job → other = acked := fun other isOther taken listed job =>
    unlike ⟨isOther, taken, listed⟩ ⟨present, progress, mem_append_left _ named⟩
      (job.symm.trans same)
  rcases settled with ⟨taken, listed⟩ | ⟨other, isOther, ⟨taken, listed⟩, time, isTime, duplicate⟩
  · obtain rfl := own event member taken listed rfl
    exact unsettled (.inl ⟨progress, named⟩)
  · obtain rfl := own other isOther taken listed duplicate.2.1
    exact unsettled (.inr ⟨other, isOther, ⟨taken, named⟩, time, isTime, duplicate⟩)

/-- Where the jobs are different, no round makes up for another one. -/
theorem Removes.exact (distinct : q.queued.Nodup) : next.queued = q.remaining served := by
  have kept := before.sublist.filter (fun event => ¬ Settled q served event)
  rw [filter_eq_self.mpr (fun event member =>
    decide_eq_true (before.unsettled after unlike whole member))] at kept
  refine kept.eq_of_length (Perm.length_eq ?_)
  rw [perm_ext_iff_of_nodup (before.sublist.nodup distinct) (distinct.sublist filter_sublist)]
  refine fun event => ⟨(kept.subset ·), fun member => ?_⟩
  obtain ⟨present, unsettled⟩ := mem_remaining.mp member
  exact before.stays after unlike whole present unsettled

end unlike

/-- A call removes exactly what its ids settle, after every one of its rounds, if and only if
every turn is clean. -/
theorem rounds_exact_iff (inv : Inv encodable q) {ids acked : List Nat}
    (succeeded : (acknowledgeLoop encodable clock .completed q [] ids).2 = .ok acked) :
    (∀ served, served <+: ids →
        (acknowledgeLoop encodable clock .completed q [] served).1.queued = q.remaining served) ↔
      ∀ served id, served ++ [id] <+: ids → q.CleanTurn served id := by
  induction ids using reverseRecOn generalizing acked with
  | nil =>
    refine iff_of_true (fun served isPrefix => ?_) (fun served id isPrefix => ?_)
    · rw [prefix_nil.mp isPrefix, remaining_nil]
      rfl
    · exact absurd (prefix_nil.mp isPrefix) (append_ne_nil_of_right_ne_nil _ (cons_ne_nil id []))
  | append_singleton ids id ih =>
    obtain ⟨earlier, before, last⟩ := acknowledgeLoop_append succeeded
    rw [last] at succeeded
    obtain ⟨⟨own, turn⟩, one⟩ := acknowledgeLoop_singleton succeeded
    have last := (congrArg Prod.fst last).trans one
    have ih := ih before
    have next : Inv encodable (acknowledgeLoop encodable clock .completed q [] ids).1 :=
      acknowledgeLoop_inv rfl inv [] ids
    have shorter : ids <+: ids ++ [id] := prefix_append ids [id]
    constructor
    · intro all served other isPrefix
      rcases prefix_concat_iff.mp isPrefix with whole | inside
      · obtain ⟨rfl, same⟩ := append_inj' whole rfl
        obtain rfl := singleton_inj.mp same
        have exact := all (served ++ [other]) (prefix_refl _)
        rw [last] at exact
        exact (turn_exact_iff inv.distinct next (all served shorter) turn).mp exact
      · refine ih.mp (fun served' inside' => ?_) served other inside
        exact all served' (inside'.trans shorter)
    · intro clean served isPrefix
      have exact := ih.mpr (fun served' other inside => clean served' other (inside.trans shorter))
      rcases prefix_concat_iff.mp isPrefix with rfl | inside
      · rw [last]
        exact (turn_exact_iff inv.distinct next (exact ids (prefix_refl _)) turn).mpr
          (clean ids id (prefix_refl _))
      · exact exact served inside

/-- In every reachable state, a call that completes the ids of a list removes exactly what they
settle if every turn is clean, and, where no two of the events have the same job, only if. -/
theorem completes_exactly_iff (reached : Reaches (step encodable) empty q) {ids acked : List Nat}
    (succeeded : (Acknowledge encodable clock q .completed ids).2 = .ok acked) :
    ((∀ served id, served ++ [id] <+: ids → q.CleanTurn served id) →
      (Acknowledge encodable clock q .completed ids).1.queued = q.remaining ids) ∧
    (q.Unlike ids → ((Acknowledge encodable clock q .completed ids).1.queued = q.remaining ids ↔
      ∀ served id, served ++ [id] <+: ids → q.CleanTurn served id)) := by
  have inv := inv_of_reaches reached
  rw [Acknowledge_completed] at succeeded ⊢
  have rounds := rounds_exact_iff inv succeeded
  have enough := fun clean => rounds.mpr clean ids (prefix_refl ids)
  refine ⟨enough, fun unlike => ⟨fun whole => rounds.mp ?_, enough⟩⟩
  rintro served ⟨rest, rfl⟩
  obtain ⟨earlier, first, last⟩ := acknowledgeLoop_append succeeded
  have before := acknowledgeLoop_removes inv first
  rw [last] at succeeded whole
  have after := acknowledgeLoop_removes (acknowledgeLoop_inv rfl inv [] served) succeeded
  exact before.exact after unlike whole inv.distinct.of_map

end calls

/-- An event in progress, with a duplicate behind it, and another repository's event. -/
def oneDuplicate : MemoryReplicationEventQueue :=
  (exec (step (fun _ => true)) empty
    [.enqueue 1 (updateOf "a.git"), .enqueue 2 (updateOf "a.git"), .enqueue 3 (updateOf "b.git"),
      .dequeue (fun _ => 4) "praefect" "gitaly-2" 1]).get (by decide)

theorem completes_exactly_iff_duplicate :
    (Acknowledge (fun _ => true) (fun _ => 5) oneDuplicate .completed [1]).2 = .ok [1] ∧
      oneDuplicate.Unlike [1] ∧
      ((Acknowledge (fun _ => true) (fun _ => 5) oneDuplicate .completed [1]).1.queued =
          oneDuplicate.remaining [1] ↔
        ∀ served id, served ++ [id] <+: [1] → oneDuplicate.CleanTurn served id) := by
  have reached : Reaches (step (fun _ => true)) empty oneDuplicate := Reaches.of_exec (by decide)
  have succeeded : (Acknowledge (fun _ => true) (fun _ => 5) oneDuplicate .completed [1]).2 =
      .ok [1] := by decide
  have unlike : oneDuplicate.Unlike [1] := by
    rintro first ⟨member, -, one⟩ second ⟨member', -, one'⟩ -
    exact inj_on_of_nodup_map (inv_of_reaches reached).distinct member member'
      ((mem_singleton.mp one).trans (mem_singleton.mp one').symm)
  exact ⟨succeeded, unlike, (completes_exactly_iff reached succeeded).2 unlike⟩

/-- Two duplicates follow the event that is in progress. -/
def twoDuplicates : MemoryReplicationEventQueue :=
  (exec (step (fun _ => true)) empty
    [.enqueue 1 (updateOf "a.git"), .enqueue 2 (updateOf "a.git"), .enqueue 3 (updateOf "a.git"),
      .dequeue (fun _ => 4) "praefect" "gitaly-2" 1]).get (by decide)

/-- Two events with the same job are in progress. -/
def takenTwice : MemoryReplicationEventQueue :=
  (exec (step (fun _ => true)) empty
    [.enqueue 1 (updateOf "a.git"), .enqueue 2 (updateOf "a.git"),
      .dequeue (fun _ => 3) "praefect" "gitaly-2" 1,
      .dequeue (fun _ => 4) "praefect" "gitaly-2" 1]).get (by decide)

/-- The last event read the clock before the first one was dequeued, and got the lock after the
one in between. -/
def overtaken : MemoryReplicationEventQueue :=
  (exec (step (fun _ => true)) empty
    [.enqueue 1 (updateOf "a.git"), .dequeue (fun _ => 3) "praefect" "gitaly-2" 1,
      .enqueue 4 (updateOf "b.git"), .enqueue 2 (updateOf "a.git")]).get (by decide)

/-- The result of completing the first event, the ids that this leaves in the queue, and
those that it should leave. -/
def completesFirst : Except MemoryQueueError (List Nat) × List Nat × List Nat :=
  ((Acknowledge (fun _ => true) (fun _ => 5) q .completed [1]).2,
    (Acknowledge (fun _ => true) (fun _ => 5) q .completed [1]).1.queued.map EventRow.id,
    (q.remaining [1]).map EventRow.id)

theorem completion_inexact :
    (Reaches (step (fun _ => true)) empty twoDuplicates ∧
      completesFirst twoDuplicates = (.ok [1], [3], [])) ∧
    (Reaches (step (fun _ => true)) empty takenTwice ∧
      completesFirst takenTwice = (.ok [1], [], [2])) ∧
    (Reaches (step (fun _ => true)) empty overtaken ∧
      completesFirst overtaken = (.ok [1], [2, 3], [2])) :=
  ⟨⟨Reaches.of_exec (by decide), by decide⟩, ⟨Reaches.of_exec (by decide), by decide⟩,
    ⟨Reaches.of_exec (by decide), by decide⟩⟩

end Gitaly.Datastore.MemoryReplicationEventQueue
