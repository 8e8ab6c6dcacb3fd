import Gitaly.Datastore.QueueTrace

/- What an acknowledgement does beyond the events it names, and whose events they may
be by then. -/
namespace Gitaly.Datastore

open Runs PostgresReplicationEventQueue List

def EventRow.Unprocessed (row : EventRow) : Prop := row.state = .ready ∨ row.state = .failed

instance (row : EventRow) : Decidable row.Unprocessed :=
  inferInstanceAs (Decidable (row.state = .ready ∨ row.state = .failed))

/-- The other event is for the same repository on the same node. -/
def EventRow.SameRepository (row other : EventRow) : Prop :=
  other.job.virtualStorage = row.job.virtualStorage ∧
    other.job.relativePath = row.job.relativePath ∧
    other.job.targetNodeStorage = row.job.targetNodeStorage

instance (row other : EventRow) : Decidable (row.SameRepository other) :=
  inferInstanceAs (Decidable (_ ∧ _ ∧ _))

namespace PostgresReplicationEventQueue

variable (rq : PostgresReplicationEventQueue)

/-- No other change of the repository is due between the two events. -/
def Adjacent (acked row : EventRow) : Prop :=
  ∀ other ∈ rq.queue.rows, other.Unprocessed → row.SameRepository other →
    other.job.change ≠ row.job.change →
    ¬ (min acked.id row.id < other.id ∧ other.id < max acked.id row.id)

/-- The event has been done with by one that is acknowledged: it is the same job, not
started yet, and nothing has to be done in between. -/
def Subsumed (ids : List Nat) (row : EventRow) : Prop :=
  row.Unprocessed ∧ ∃ acked ∈ rq.existing ids, acked.job = row.job ∧ rq.Adjacent acked row

instance (rq : PostgresReplicationEventQueue) (acked row : EventRow) :
    Decidable (rq.Adjacent acked row) :=
  inferInstanceAs (Decidable (∀ other ∈ rq.queue.rows, _ → _ → _ → ¬ _))

instance (rq : PostgresReplicationEventQueue) (ids : List Nat) (row : EventRow) :
    Decidable (rq.Subsumed ids row) :=
  inferInstanceAs (Decidable (_ ∧ ∃ acked ∈ rq.existing ids, _ ∧ _))

/-- Completing the events drops no work: of the others only subsumed ones are removed. -/
def DropsNoWork (now : Timestamp) (ids : List Nat) : Prop :=
  ∀ row ∈ rq.queue.rows, row.id ∉ (rq.Acknowledge now .completed ids).1.queue.keys →
    row ∉ rq.existing ids → rq.Subsumed ids row

instance (rq : PostgresReplicationEventQueue) (now : Timestamp) (ids : List Nat) :
    Decidable (rq.DropsNoWork now ids) :=
  inferInstanceAs (Decidable (∀ row ∈ rq.queue.rows, _ → _ → _))

theorem deletes_completed_iff {acked row : EventRow} :
    Deletes .completed acked row ↔ acked.id = row.id ∨ Similar acked row := by
  simp [Deletes]

/-- What completing events removes: the events and the ones similar to them. -/
theorem removed_iff (now : Timestamp) (ids : List Nat) {row : EventRow} (present : row ∈ rq.queue) :
    row.id ∉ (rq.Acknowledge now .completed ids).1.queue.keys ↔
      row ∈ rq.existing ids ∨ ∃ acked ∈ rq.existing ids, Similar acked row := by
  by_cases nonempty : ids = []
  · subst nonempty
    rw [rq.Acknowledge_nil, rq.existing_nil]
    simpa using KeyedTable.key_mem_keys present
  · rw [rq.mem_Acknowledge_keys now nonempty rfl present]
    simp only [deletes_completed_iff, not_forall, not_not]
    constructor
    · rintro ⟨acked, found, same | similar⟩
      · exact .inl (KeyedTable.eq_of_key (rq.mem_existing.mp found).1 present same ▸ found)
      · exact .inr ⟨acked, found, similar⟩
    · rintro (found | ⟨acked, found, similar⟩)
      · exact ⟨row, found, .inl rfl⟩
      · exact ⟨acked, found, .inr similar⟩

end PostgresReplicationEventQueue

/-- Completing events drops no work exactly if each event that is similar to one of them
is subsumed by one of them. -/
theorem completing_drops_no_work_iff (rq : PostgresReplicationEventQueue) (now : Timestamp)
    (ids : List Nat) :
    rq.DropsNoWork now ids ↔ ∀ row ∈ rq.queue, ∀ acked ∈ rq.existing ids, Similar acked row →
      ∃ subsuming ∈ rq.existing ids, subsuming.job = row.job ∧ rq.Adjacent subsuming row := by
  constructor
  · intro safe row present acked found similar
    have removed := (rq.removed_iff now ids present).mpr (.inr ⟨acked, found, similar⟩)
    have unnamed : row ∉ rq.existing ids := by
      intro isNamed
      have progress := (rq.mem_existing.mp isNamed).2.2
      rw [similar.1] at progress
      cases progress
    exact (safe row present removed unnamed).2
  · intro subsumed row present removed unnamed
    rcases (rq.removed_iff now ids present).mp removed with isNamed | ⟨acked, found, similar⟩
    · exact absurd isNamed unnamed
    · exact ⟨.inl similar.1, subsumed row present acked found similar⟩

def renameTo (repositoryID : Int) (path : String) : ReplicationEvent :=
  sampleEvent repositoryID .rename
    (some ⟨[("RelativePath", .string path)], pairwise_singleton _ _⟩)

/-- Two repositories that had the same path one after the other are moved away. -/
def renameRun : List Request :=
  [⟨0, 1, .enqueue (renameTo 1 "first.git")⟩, ⟨0, 2, .enqueue (renameTo 2 "second.git")⟩,
    ⟨1, 3, .dequeue noTies "praefect" "gitaly-2" 1⟩]

/-- With the first rename the second one is removed, which goes elsewhere. -/
theorem completing_drops_rename :
    (exec PostgresReplicationEventQueue.step .empty renameRun).map (fun rq =>
        (rq.queue.rows.map (fun row => (row.id, row.state, row.job.params.get "RelativePath")),
          (rq.Acknowledge 4 .completed [1]).1.queue.rows.map EventRow.id)) =
      some ([(1, .inProgress, some (.string "first.git")),
        (2, .ready, some (.string "second.git"))],
        []) ∧
    (exec PostgresReplicationEventQueue.step .empty renameRun).map
      (fun rq => decide (rq.DropsNoWork 4 [1])) = some false :=
  ⟨by decide, by decide⟩

namespace Traced

/-- The event was revoked from the worker, and another worker has it in hands. -/
def Reassigned (t : Traced) (worker event : Nat) : Prop :=
  (∃ claim ∈ t.revoked, claim.worker = worker ∧ claim.event = event) ∧
    ∃ claim ∈ t.claims, claim.worker ≠ worker ∧ claim.event = event

instance (t : Traced) (worker event : Nat) : Decidable (t.Reassigned worker event) :=
  inferInstanceAs (Decidable ((∃ claim ∈ t.revoked, _ ∧ _) ∧ ∃ claim ∈ t.claims, _ ∧ _))

/-- An acknowledgement leaves the events alone that were revoked from the worker: their
state stays, and so does the lock. -/
def Powerless (t : Traced) (worker : Nat) (now : Timestamp) (state : JobState) (ids : List Nat) :
    Prop :=
  ∀ row ∈ t.rq.queue.rows, t.Reassigned worker row.id →
    (∃ after ∈ (t.rq.Acknowledge now state ids).1.queue.rows,
      after.id = row.id ∧ after.state = row.state) ∧
    ∃ lock ∈ (t.rq.Acknowledge now state ids).1.locks.rows,
      lock.id = row.lockID ∧ lock.acquired = true

instance (t : Traced) (worker : Nat) (now : Timestamp) (state : JobState) (ids : List Nat) :
    Decidable (t.Powerless worker now state ids) :=
  inferInstanceAs (Decidable (∀ row ∈ t.rq.queue.rows, _ → (∃ after ∈ KeyedTable.rows _, _) ∧
    ∃ lock ∈ KeyedTable.rows _, _))

end Traced

/-- A late acknowledgement is powerless over revoked events exactly if it names none of
those that another worker has in progress. -/
theorem late_acknowledge_powerless_iff {t : Traced} (reached : Reaches Traced.step Traced.empty t)
    {state : JobState} (final : state = .completed ∨ state = .failed) (worker : Nat)
    (now : Timestamp) (ids : List Nat) :
    t.Powerless worker now state ids ↔
      ∀ row ∈ t.rq.queue, t.Reassigned worker row.id → row.id ∉ ids := by
  have inv := (Traced.refines_leases reached).1
  have allowed : allowToAck state = true := by rcases final with rfl | rfl <;> rfl
  have progress : ∀ row ∈ t.rq.queue, t.Reassigned worker row.id → row.state = .inProgress := by
    rintro row present ⟨-, claim, member, -, same⟩
    obtain ⟨lockID, holds⟩ := inv.live claim member
    exact (inv.tables.inProgress row present).mpr ⟨lockID, same ▸ holds⟩
  constructor
  · intro powerless row present reassigned isNamed
    have settled := inv.tables.acknowledge_settles now (ne_nil_of_mem isNamed) allowed
    have ended : row.id ∈ (t.rq.existing ids).map EventRow.id :=
      mem_map_of_mem
        (t.rq.mem_existing.mpr ⟨present, isNamed, progress row present reassigned⟩)
    obtain ⟨⟨after, member, sameID, sameState⟩, -⟩ := powerless row present reassigned
    rcases settled.outcome after member with ⟨-, stopped⟩ | ⟨goesOn, -⟩
    · exact stopped (sameState.trans (progress row present reassigned))
    · exact goesOn (sameID ▸ ended)
  · intro unnamed row present reassigned
    have isProgress := progress row present reassigned
    by_cases nonempty : ids = []
    · subst nonempty
      exact ⟨⟨row, present, rfl, rfl⟩, inv.tables.lock_acquired present isProgress⟩
    have settled := inv.tables.acknowledge_settles now nonempty allowed
    have goesOn : row.id ∉ (t.rq.existing ids).map EventRow.id := by
      intro ended
      obtain ⟨other, found, same⟩ := mem_map.mp ended
      exact unnamed row present reassigned (same ▸ (t.rq.mem_existing.mp found).2.1)
    have kept := settled.kept row present isProgress goesOn
    exact ⟨⟨row, kept, rfl, rfl⟩, (inv.tables.settles settled).lock_acquired kept isProgress⟩

/-- The claim of the first worker is revoked and the event goes to the second one. -/
def revokedRun : List Request :=
  [⟨0, 1, .enqueue (sampleEvent 1 .update none)⟩, ⟨1, 2, .dequeue noTies "praefect" "gitaly-2" 10⟩,
    ⟨0, 60000000, .acknowledgeStale 30000⟩, ⟨2, 60000001, .dequeue noTies "praefect" "gitaly-2" 10⟩]

theorem late_acknowledge_powerless_iff_revoked :
    ((exec Traced.step Traced.empty revokedRun).get (by decide)).Powerless 1 60000002 .failed [2] :=
  (late_acknowledge_powerless_iff (Reaches.of_exec (by decide)) (.inr rfl) 1 60000002 [2]).mpr
    (by decide)

/-- The first worker completes the event that the second one has in hands. -/
theorem late_acknowledge_breaks_lease :
    (exec Traced.step Traced.empty revokedRun).map (fun t =>
        (t.rq.queue.rows.map (fun row => (row.id, row.state, decide (t.Reassigned 1 row.id))),
          t.rq.locks.rows)) =
      some ([(1, .inProgress, true)], [⟨"praefect|gitaly-2|repo.git", true⟩]) ∧
    (exec Traced.step Traced.empty revokedRun).map (fun t =>
        ((t.rq.Acknowledge 60000002 .completed [1]).1.queue.rows,
          (t.rq.Acknowledge 60000002 .completed [1]).1.locks.rows)) =
      some ([], [⟨"praefect|gitaly-2|repo.git", false⟩]) ∧
    (exec Traced.step Traced.empty revokedRun).map (fun t =>
        ((t.rq.Acknowledge 60000002 .failed [1]).1.queue.rows.map EventRow.state,
          (t.rq.Acknowledge 60000002 .failed [1]).1.locks.rows)) =
      some ([.failed], [⟨"praefect|gitaly-2|repo.git", false⟩]) :=
  ⟨by decide, by decide, by decide⟩

end Gitaly.Datastore
