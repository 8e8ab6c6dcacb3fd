import Gitaly.Base.Leases
import Gitaly.Datastore.QueueInvariant

/- The queue with a record of who works on what. The tables tell which events are in
progress, but not under which of the calls that handed them out. -/
namespace Gitaly.Datastore

open Runs PostgresReplicationEventQueue Leases List KeyedTable

/-- An event in the hands of a worker. -/
structure Claim where
  event : Nat
  worker : Nat
  /-- The place in the history of the request that handed the event out. -/
  request : Nat
  deriving DecidableEq

structure Traced where
  rq : PostgresReplicationEventQueue
  /-- The requests so far, with what they handed out. -/
  history : List (Request × List Nat)
  /-- The claims on the events in progress. -/
  claims : List Claim
  /-- The claims that were ended by `AcknowledgeStale`. -/
  revoked : List Claim

def Call.isAcknowledgeStale : Call → Bool
  | .acknowledgeStale _ => true
  | _ => false

def Call.isDequeue : Call → Bool
  | .dequeue .. => true
  | _ => false

namespace Traced

def empty : Traced := ⟨.empty, [], [], []⟩

def step (t : Traced) (request : Request) : Option Traced :=
  (t.rq.step request).map (fun after =>
    { rq := after
      history := t.history ++ [(request, t.rq.handedOut request)]
      claims := t.claims.filter (fun claim => claim.event ∉ t.rq.ended request) ++
        (t.rq.handedOut request).map (fun event => ⟨event, request.worker, t.history.length⟩)
      revoked :=
        if request.call.isAcknowledgeStale then
          t.revoked ++ t.claims.filter (fun claim => claim.event ∈ t.rq.ended request)
        else t.revoked })

/-- The record does not interfere with the queue. -/
theorem exec_rq (t : Traced) (requests : List Request) :
    (exec step t requests).map Traced.rq = exec PostgresReplicationEventQueue.step t.rq requests :=
  exec_project _ (fun _ _ => by
    unfold step
    rw [Option.map_map]
    exact Option.map_id') t requests

section step

variable {t after : Traced} {request : Request} (taken : t.step request = some after)

include taken

theorem step_rq : t.rq.step request = some after.rq := by
  obtain ⟨rq, stepped, rfl⟩ := Option.map_eq_some_iff.mp taken
  exact stepped

theorem step_history : after.history = t.history ++ [(request, t.rq.handedOut request)] := by
  obtain ⟨rq, stepped, rfl⟩ := Option.map_eq_some_iff.mp taken
  rfl

theorem mem_step_claims {claim : Claim} :
    claim ∈ after.claims ↔ claim ∈ t.claims ∧ claim.event ∉ t.rq.ended request ∨
      claim.event ∈ t.rq.handedOut request ∧ claim.worker = request.worker ∧
        claim.request = t.history.length := by
  obtain ⟨rq, stepped, rfl⟩ := Option.map_eq_some_iff.mp taken
  rw [mem_append, mem_filter, decide_eq_true_iff, mem_map]
  refine or_congr_right ⟨?_, ?_⟩
  · rintro ⟨event, handed, rfl⟩
    exact ⟨handed, rfl, rfl⟩
  · rintro ⟨handed, worker, place⟩
    exact ⟨claim.event, handed, by rw [← worker, ← place]⟩

theorem mem_step_revoked {claim : Claim} (member : claim ∈ after.revoked) :
    claim ∈ t.revoked ∨ claim ∈ t.claims := by
  obtain ⟨rq, stepped, rfl⟩ := Option.map_eq_some_iff.mp taken
  split at member
  · rcases mem_append.mp member with old | new
    · exact .inl old
    · exact .inr (mem_filter.mp new).1
  · exact .inl member

end step

/-- The claim is recorded in the history. -/
def Recorded (history : List (Request × List Nat)) (claim : Claim) : Prop :=
  ∃ request handed, history[claim.request]? = some (request, handed) ∧
    request.call.isDequeue = true ∧ request.worker = claim.worker ∧ claim.event ∈ handed

/-- The claims are those on the events in progress. -/
structure Inv (t : Traced) : Prop where
  tables : t.rq.Inv
  claimed : ∀ job lockID, t.rq.Holds job lockID → ∃ claim ∈ t.claims, claim.event = job
  live : ∀ claim ∈ t.claims, ∃ lockID, t.rq.Holds claim.event lockID
  recorded : ∀ claim, claim ∈ t.claims ∨ claim ∈ t.revoked → Recorded t.history claim

theorem empty_inv : empty.Inv := by
  have none : ∀ job lockID, ¬ empty.rq.Holds job lockID := fun _ _ => not_mem_nil
  exact ⟨PostgresReplicationEventQueue.empty_inv,
    fun job lockID holds => absurd holds (none job lockID),
    fun _ absent => absurd absent not_mem_nil,
    fun _ absent => absent.elim (fun member => absurd member not_mem_nil)
      (fun member => absurd member not_mem_nil)⟩

theorem Recorded.append {history : List (Request × List Nat)} {claim : Claim}
    (recorded : Recorded history claim) (more : List (Request × List Nat)) :
    Recorded (history ++ more) claim := by
  obtain ⟨request, handed, found, rest⟩ := recorded
  refine ⟨request, handed, ?_, rest⟩
  rw [List.getElem?_append_left (List.getElem?_eq_some_iff.mp found).1]
  exact found

theorem isDequeue_of_handedOut {rq : PostgresReplicationEventQueue} {request : Request}
    {event : Nat} (handed : event ∈ rq.handedOut request) : request.call.isDequeue = true := by
  unfold handedOut at handed
  split at handed
  · rename_i called
    rw [called]
    rfl
  · cases handed

section inv

variable {t after : Traced} {request : Request} (inv : t.Inv) (taken : t.step request = some after)

include inv

theorem Inv.not_holds_of_handedOut (takes : Takes t.rq request after.rq) {event : Nat}
    (handed : event ∈ t.rq.handedOut request) (lockID : String) : ¬ t.rq.Holds event lockID := by
  obtain ⟨row, present, rfl, free⟩ := takes.handed handed
  intro holds
  rw [inv.tables.own_lock present holds] at holds
  exact free row.id holds

include taken

theorem Inv.step : after.Inv := by
  have takes := step_takes inv.tables (step_rq taken)
  have claims : ∀ claim, claim ∈ after.claims ↔ _ := fun _ => mem_step_claims taken
  refine ⟨takes.inv inv.tables, ?_, ?_, ?_⟩
  · intro job lockID holds
    rcases takes.holds_iff.mp holds with ⟨before, goesOn⟩ | ⟨handed, -⟩
    · obtain ⟨claim, member, rfl⟩ := inv.claimed job lockID before
      exact ⟨claim, (claims claim).mpr (.inl ⟨member, goesOn⟩), rfl⟩
    · exact ⟨⟨job, request.worker, t.history.length⟩, (claims _).mpr (.inr ⟨handed, rfl, rfl⟩), rfl⟩
  · intro claim member
    rcases (claims claim).mp member with ⟨before, goesOn⟩ | ⟨handed, -⟩
    · obtain ⟨lockID, holds⟩ := inv.live claim before
      exact ⟨lockID, takes.holds_iff.mpr (.inl ⟨holds, goesOn⟩)⟩
    · obtain ⟨row, present, same, -⟩ := takes.handed handed
      exact ⟨row.lockID, takes.holds_iff.mpr (.inr ⟨handed, row, present, same, rfl⟩)⟩
  · intro claim member
    rw [step_history taken]
    have old : claim ∈ t.claims ∨ claim ∈ t.revoked →
        Recorded (t.history ++ [(request, t.rq.handedOut request)]) claim :=
      fun known => (inv.recorded claim known).append _
    rcases member with member | member
    · rcases (claims claim).mp member with ⟨before, -⟩ | ⟨handed, worker, place⟩
      · exact old (.inl before)
      · refine ⟨request, t.rq.handedOut request, ?_, isDequeue_of_handedOut handed, worker.symm,
        handed⟩
        rw [place]
        exact getElem?_concat_length
    · exact old ((mem_step_revoked taken member).symm)

end inv

/-- The jobs that hold a lock, with the request whose claims they are under. -/
def Leased (t : Traced) (lockID : String) (job request : Nat) : Prop :=
  t.rq.Holds job lockID ∧ ∃ claim ∈ t.claims, claim.event = job ∧ claim.request = request

variable {table : Table String Nat Nat}

/-- A request first ends leases and then grants new ones, on locks that are free. -/
theorem leased_step {t after : Traced} {request : Request} (inv : t.Inv)
    (taken : t.step request = some after) (represents : Represents t.Leased table) :
    ∃ later, Relation.ReflTransGen Step table later ∧ Represents after.Leased later := by
  have takes := step_takes inv.tables (step_rq taken)
  have claims : ∀ claim, claim ∈ after.claims ↔ _ := fun _ => mem_step_claims taken
  let done : Set Nat := fun job => job ∈ t.rq.ended request
  let jobs : String → Set Nat := fun lockID job => job ∈ t.rq.handedOut request ∧
    ∃ row ∈ t.rq.queue, row.id = job ∧ row.lockID = lockID
  have finished := represents.finish done
  have available : ∀ lockID, (jobs lockID).Nonempty → finish table done lockID = none := by
    rintro lockID ⟨job, handed, row, present, same, rfl⟩
    obtain ⟨other, otherPresent, otherSame, free⟩ := takes.handed handed
    have isRow := eq_of_key otherPresent present (otherSame.trans same.symm)
    refine finished.eq_none_iff.mpr ?_
    rintro other request ⟨⟨holds, -⟩, -⟩
    exact free other (isRow ▸ holds)
  refine ⟨_, (Relation.ReflTransGen.single (.finish table done)).tail
    (.grant _ t.history.length jobs available), (finished.grant available).congr ?_⟩
  intro lockID job place
  constructor
  · rintro ⟨holds, claim, member, rfl, rfl⟩
    rcases takes.holds_iff.mp holds with ⟨before, goesOn⟩ | ⟨handed, row⟩
    · rcases (claims claim).mp member with ⟨old, -⟩ | ⟨handed, -⟩
      · exact .inl ⟨⟨before, claim, old, rfl, rfl⟩, goesOn⟩
      · exact absurd before (inv.not_holds_of_handedOut takes handed lockID)
    · rcases (claims claim).mp member with ⟨old, -⟩ | ⟨-, -, place⟩
      · obtain ⟨held, before⟩ := inv.live claim old
        exact absurd before (inv.not_holds_of_handedOut takes handed held)
      · exact .inr ⟨⟨handed, row⟩, place⟩
  · rintro (⟨⟨before, claim, member, rfl, rfl⟩, goesOn⟩ | ⟨⟨handed, row⟩, rfl⟩)
    · exact ⟨takes.holds_iff.mpr (.inl ⟨before, goesOn⟩), claim,
        (claims claim).mpr (.inl ⟨member, goesOn⟩), rfl, rfl⟩
    · exact ⟨takes.holds_iff.mpr (.inr ⟨handed, row⟩), ⟨job, request.worker, t.history.length⟩,
        (claims _).mpr (.inr ⟨handed, rfl, rfl⟩), rfl, rfl⟩

/-- The queue implements leases of repositories: one request at a time holds a lock. -/
theorem refines_leases {t : Traced} (reached : Reaches step empty t) :
    t.Inv ∧ ∃ table, Relation.ReflTransGen Step free table ∧ Represents t.Leased table := by
  have start : Represents empty.Leased free :=
    represents_free.congr (fun _ _ _ => iff_of_false (fun leased => not_mem_nil leased.1)
      (fun absent => absent))
  obtain ⟨table, steps, inv, represents⟩ := reached.simulates
    (fun t table => t.Inv ∧ Represents t.Leased table)
    (fun _ _ _ _ related taken => by
      obtain ⟨later, steps, represents⟩ := leased_step related.1 taken related.2
      exact ⟨later, steps, related.1.step taken, represents⟩)
    ⟨empty_inv, start⟩
  exact ⟨inv, table, steps, represents⟩

/-- The column `acquired` tells whether the lock is leased. -/
theorem Inv.acquired_iff_leased {t : Traced} (inv : t.Inv)
    (represents : Represents t.Leased table) {lock : LockRow} (present : lock ∈ t.rq.locks) :
    lock.acquired = true ↔ table lock.id ≠ none := by
  rw [inv.tables.acquired lock present, ne_eq, represents.eq_none_iff]
  simp only [not_forall, not_not]
  constructor
  · rintro ⟨job, holds⟩
    obtain ⟨claim, member, same⟩ := inv.claimed job lock.id holds
    exact ⟨job, claim.request, holds, claim, member, same, rfl⟩
  · rintro ⟨job, request, holds, -⟩
    exact ⟨job, holds⟩

end Traced

/-- The lock of a job is the lock of its event, and there is one such job lock. -/
theorem PostgresReplicationEventQueue.Inv.inProgress_iff_single {rq : PostgresReplicationEventQueue}
    (inv : rq.Inv) {event : EventRow} (present : event ∈ rq.queue) :
    event.state = .inProgress ↔ ∃ jobLock,
      rq.jobLocks.rows.filter (fun row => row.jobID = event.id) = [jobLock] ∧
        jobLock.lockID = event.lockID := by
  constructor
  · intro progress
    obtain ⟨jobLock, member, sameJob, sameLock⟩ :=
      holds_iff.mp (inv.holds_of_inProgress present progress)
    refine ⟨jobLock, filter_eq_singleton member (decide_eq_true sameJob) ?_, sameLock⟩
    intro other otherMember otherJob
    have job : other.jobID = event.id := of_decide_eq_true otherJob
    have holds := holds_of_mem otherMember
    rw [job] at holds
    have lock := inv.own_lock present holds
    exact eq_of_key otherMember member
      (Prod.ext (job.trans sameJob.symm) (lock.trans sameLock.symm))
  · rintro ⟨jobLock, single, -⟩
    have selected : jobLock ∈ rq.jobLocks.rows.filter (fun row => row.jobID = event.id) := by
      rw [single]
      exact mem_singleton_self jobLock
    obtain ⟨member, job⟩ := mem_filter.mp selected
    have holds := holds_of_mem member
    rw [of_decide_eq_true job] at holds
    exact (inv.inProgress event present).mpr ⟨jobLock.lockID, holds⟩

/-- A job on `gitaly-2`. -/
def sampleEvent (repositoryID : Int) (change : ChangeType) (params : Params) : ReplicationEvent :=
  ⟨⟨repositoryID, change, "repo.git", "gitaly-2", "gitaly-1", "praefect", params⟩, none⟩

def noTies : Ties := ⟨fun _ => 0, fun _ => 0⟩

/-- A worker takes two jobs on the same repository. -/
def batchRun : List Request :=
  [⟨0, 1, .enqueue (sampleEvent 1 .update none)⟩, ⟨0, 2, .enqueue (sampleEvent 1 .gc none)⟩,
    ⟨1, 3, .dequeue noTies "praefect" "gitaly-2" 10⟩]

theorem batch_reached : Reaches Traced.step Traced.empty
    ((exec Traced.step Traced.empty batchRun).get (by decide)) := Reaches.of_exec (by decide)

/-- The tables of the queue implement a table of leases: whatever calls were made, it is got to
by granting free locks and ending leases, and the column `acquired` tells which locks are
leased. -/
theorem leases_of_reaches {t : Traced} (reached : Reaches Traced.step Traced.empty t) :
    ∃ table : Table String Nat Nat, Relation.ReflTransGen Step free table ∧
      Represents t.Leased table ∧
      ∀ lock ∈ t.rq.locks, lock.acquired = true ↔ table lock.id ≠ none := by
  obtain ⟨inv, table, steps, represents⟩ := Traced.refines_leases reached
  exact ⟨table, steps, represents, fun _ present => inv.acquired_iff_leased represents present⟩

theorem leases_of_batch :
    ∃ table : Table String Nat Nat, Relation.ReflTransGen Step free table ∧
      table "praefect|gitaly-2|repo.git" ≠ none := by
  obtain ⟨table, steps, -, acquired⟩ := leases_of_reaches batch_reached
  have present : ⟨"praefect|gitaly-2|repo.git", true⟩ ∈
      ((exec Traced.step Traced.empty batchRun).get (by decide)).rq.locks.rows := by decide
  exact ⟨table, steps, (acquired _ present).mp rfl⟩

/-- The lock tables are consistent in every state of the queue. -/
theorem lock_tables_consistent {t : Traced} (reached : Reaches Traced.step Traced.empty t) :
    (∀ lock ∈ t.rq.locks, lock.acquired = true ↔
      ∃ jobLock ∈ t.rq.jobLocks, jobLock.lockID = lock.id) ∧
    (∀ event ∈ t.rq.queue, event.state = .inProgress ↔ ∃ jobLock,
      t.rq.jobLocks.rows.filter (fun row => row.jobID = event.id) = [jobLock] ∧
        jobLock.lockID = event.lockID) ∧
    ∀ lockID, ∃ place, ∀ event ∈ t.rq.queue, event.lockID = lockID → event.state = .inProgress →
      (∃ request handed, t.history[place]? = some (request, handed) ∧
        request.call.isDequeue = true ∧ event.id ∈ handed) ∧
      (∃ claim ∈ t.claims, claim.event = event.id) ∧
      ∀ claim ∈ t.claims, claim.event = event.id → claim.request = place := by
  obtain ⟨inv, table, -, represents⟩ := Traced.refines_leases reached
  refine ⟨?_, fun event present => inv.tables.inProgress_iff_single present, ?_⟩
  · intro lock present
    rw [inv.tables.acquired lock present]
    constructor
    · rintro ⟨job, holds⟩
      obtain ⟨jobLock, member, -, same⟩ := holds_iff.mp holds
      exact ⟨jobLock, member, same⟩
    · rintro ⟨jobLock, member, same⟩
      exact ⟨jobLock.jobID, same ▸ holds_of_mem member⟩
  · intro lockID
    have leased : ∀ event ∈ t.rq.queue, event.lockID = lockID → event.state = .inProgress →
        ∀ claim ∈ t.claims, claim.event = event.id → t.Leased lockID event.id claim.request :=
      fun event present locked progress claim member same =>
        ⟨locked ▸ inv.tables.holds_of_inProgress present progress, claim, member, same, rfl⟩
    have claimed : ∀ event ∈ t.rq.queue, event.state = .inProgress →
        ∃ claim ∈ t.claims, claim.event = event.id :=
      fun event present progress =>
        inv.claimed _ _ (inv.tables.holds_of_inProgress present progress)
    by_cases held : ∃ job place, t.Leased lockID job place
    · obtain ⟨job, place, holder⟩ := held
      refine ⟨place, fun event present locked progress => ?_⟩
      have same : ∀ claim ∈ t.claims, claim.event = event.id → claim.request = place :=
        fun claim member claims =>
          represents.holder_unique (leased event present locked progress claim member claims) holder
      obtain ⟨claim, member, claims⟩ := claimed event present progress
      obtain ⟨request, handed, found, dequeue, -, returned⟩ := inv.recorded claim (.inl member)
      rw [same claim member claims] at found
      exact ⟨⟨request, handed, found, dequeue, claims ▸ returned⟩, ⟨claim, member, claims⟩, same⟩
    · refine ⟨0, fun event present locked progress => ?_⟩
      obtain ⟨claim, member, claims⟩ := claimed event present progress
      exact absurd ⟨_, _, leased event present locked progress claim member claims⟩ held

theorem lock_tables_consistent_batch :
    (exec Traced.step Traced.empty batchRun).map (fun t => t.rq.queue.rows.map EventRow.state) =
        some [.inProgress, .inProgress] ∧
      ∃ place, ∀ event ∈ ((exec Traced.step Traced.empty batchRun).get (by decide)).rq.queue,
        event.lockID = "praefect|gitaly-2|repo.git" → event.state = .inProgress →
        ∀ claim ∈ ((exec Traced.step Traced.empty batchRun).get (by decide)).claims,
          claim.event = event.id → claim.request = place := by
  refine ⟨by decide, ?_⟩
  obtain ⟨-, -, together⟩ := lock_tables_consistent batch_reached
  obtain ⟨place, same⟩ := together "praefect|gitaly-2|repo.git"
  exact ⟨place, fun event present locked progress => (same event present locked progress).2.2⟩

end Gitaly.Datastore
