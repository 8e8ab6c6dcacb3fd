import Gitaly.Praefect.Deletion

/- When the deletion of a replica loses no write. -/
namespace Gitaly.Praefect.Deletion

open Datastore Coverage PostgresReplicationEventQueue PostgresRepositoryStore List Option Runs
open Reconciler (Database Run DeleteJob active assigned mem_active)

theorem Destroy_deleteReplica (rs : PostgresRepositoryStore) {row : EventRow}
    {repository : Repository} (change : row.job.change = .deleteReplica)
    (key : row.indexKey = repository) :
    (Destroy rs row.job (.ok ())).1 = rs.deleteReplicas repository [row.job.targetNodeStorage] := by
  unfold Destroy
  rw [change, tolerate_store]
  rw [← key]
  rfl

section marked

variable {db later : Database} {repository : Repository} {storage : String}

theorem Marked.mono (marked : Marked db repository storage)
    (kept : active db.queue repository ⊆ active later.queue repository) :
    Marked later repository storage := by
  obtain ⟨job, member, rest⟩ := marked
  exact ⟨job, kept member, rest⟩

theorem Marked.of_request (inv : db.queue.Inv) {request : Request}
    (other : schedules request = false) {queue : PostgresReplicationEventQueue}
    (taken : db.queue.step request = some queue) {ahead : queue.Ahead}
    (marked : Marked ⟨db.store, queue, ahead⟩ repository storage) :
    Marked db repository storage := by
  obtain ⟨job, member, change, target⟩ := marked
  obtain ⟨row, present, isActive, key, rfl⟩ := mem_active.mp member
  rcases step_origin inv taken present with
    ⟨old, before, follows⟩ | ⟨event, called, rfl⟩
  · have kept : old.indexKey = repository := by
      unfold EventRow.indexKey at key ⊢
      rw [← follows.job]
      exact key
    refine ⟨old.job, mem_active.mpr ⟨old, before, follows.active isActive, kept, rfl⟩, ?_, ?_⟩
    · rw [← follows.job]
      exact change
    · rw [← follows.job]
      exact target
  · unfold schedules at other
    rw [called] at other
    exact absurd change (of_decide_eq_false other)

end marked

section reconcile

variable (run : Run) (db : Database) {repository : Repository} {storage : String}

theorem reconcile_queue_inv (inv : db.queue.Inv) : (run.reconcile db).1.queue.Inv := by
  unfold Run.reconcile
  split
  · exact inv
  rcases run.commit_cases db db with ⟨_, _, same⟩ | ⟨_, _, _, adds⟩
  · exact inv.unchanged same
  · exact adds.inv inv

theorem reconcile_kept (repository : Repository) :
    active db.queue repository ⊆ active (run.reconcile db).1.queue repository := by
  unfold Run.reconcile
  split
  · exact List.Subset.refl _
  · exact (run.commit_leaves db).kept repository

/-- A replica is marked by a run only as one that is deleted. -/
theorem reconcile_marked (marked : Marked (run.reconcile db).1 repository storage) :
    Marked db repository storage ∨
      ∃ delete ∈ run.deleteJobs db, delete.repository = repository ∧ delete.storage = storage := by
  obtain ⟨job, member, change, target⟩ := marked
  obtain ⟨row, present, isActive, key, rfl⟩ := mem_active.mp member
  have earlier : row ∈ db.queue.queue → Marked db repository storage := fun before =>
    ⟨row.job, mem_active.mpr ⟨row, before, isActive, key, rfl⟩, change, target⟩
  unfold Run.reconcile at present
  split at present
  · exact .inl (earlier present)
  rcases run.commit_cases db db with ⟨_, _, same⟩ | ⟨rows, _, jobs, adds⟩
  · rw [same.queue] at present
    exact .inl (earlier present)
  rcases (adds.queue row).mp present with before | new
  · exact .inl (earlier before)
  have listed : row.job ∈ run.jobs db := by
    rw [← jobs]
    exact mem_map.mpr ⟨row, new, rfl⟩
  obtain ⟨delete, selected, same⟩ := run.mem_jobs_delete listed change
  refine .inr ⟨delete, selected, ?_, ?_⟩
  · rw [← key]
    unfold EventRow.indexKey
    rw [← same]
    rfl
  · rw [← target, ← same]
    rfl

/-- The latest generation outlives what a run deletes: an assigned storage has it whenever a
storage that is not assigned does. -/
theorem reconcile_survivor {latest : Int}
    (known : db.store.latest repository = some latest)
    (rows : ∀ storage current, db.store.replica repository storage = some current →
      0 ≤ current ∧ current ≤ latest)
    (held : db.store.replica repository storage = some latest)
    (unmarked : ¬ Marked db repository storage) :
    ∃ other, db.store.replica repository other = some latest ∧
      ¬ Marked (run.reconcile db).1 repository other := by
  by_cases marked : Marked (run.reconcile db).1 repository storage
  · rcases reconcile_marked run db marked with before | ⟨delete, selected, rfl, rfl⟩
    · exact absurd before unmarked
    have free := run.deleteJobs_free selected
    have surplus : Reconciler.Surplus db.store (Reconciler.healthyStorages run.healthyNodes)
        delete := by
      rcases run.mem_deleteJobs selected with isSurplus | isOrphan
      · exact (Reconciler.mem_surplus.mp isSurplus).1
      obtain ⟨record, present, _⟩ := latest_eq_some.mp known
      have gone := (Reconciler.mem_orphans.mp isOrphan).1.record
      rw [gone] at present
      cases present
    obtain ⟨other, first⟩ := exists_mem_of_ne_nil _ surplus.assigned
    obtain ⟨generation, current, mine, theirs, le⟩ :=
      surplus.assigned_replica (fun generation mine => (rows _ generation mine).1) first
    rw [held] at mine
    cases mine
    have top := (rows other current theirs).2
    obtain rfl : current = latest := by omega
    refine ⟨other, theirs, ?_⟩
    intro again
    rcases reconcile_marked run db again with ⟨job, listed, change, _⟩ |
      ⟨second, alsoSelected, same, rfl⟩
    · exact free job listed change
    have equal := inj_on_of_nodup_map (run.deleteJobs_nodup db) alsoSelected selected same
    rw [equal] at first
    exact surplus.unassigned first
  · exact ⟨storage, held, marked⟩

end reconcile

/-- Some replica on the latest generation is there to stay. -/
structure Top (repository : Repository) (db : Database) (recorded : List (Nat × Int))
    (latest : Int) : Prop where
  known : db.store.latest repository = some latest
  rows : ∀ storage current, db.store.replica repository storage = some current →
    0 ≤ current ∧ current ≤ latest
  recorded : ∀ entry ∈ recorded, entry.2 ≤ latest
  survivor : ∃ storage, db.store.replica repository storage = some latest ∧
    ¬ Marked db repository storage

namespace World

variable (virtual relativePath : String)

/-- The generation of a replica whose content is still there. -/
def level (w : World) (storage : String) : Option Int :=
  if storage ∈ w.removed then none else w.db.store.replica (virtual, relativePath) storage

structure Safe (w : World) : Prop where
  queue : w.db.queue.Inv
  removed : ∀ storage ∈ w.removed, Marked w.db (virtual, relativePath) storage
  applied : ∀ m ∈ w.mutators, ∀ storage ∈ m.applied,
    w.level virtual relativePath storage ≠ none → m.write ∈ w.disk storage
  covered : Covered (w.level virtual relativePath) w.disk w.recorded
  top : ∃ latest, Top (virtual, relativePath) w.db w.recorded latest

variable {virtual relativePath} {w next : World}

theorem Safe.kept (safe : w.Safe virtual relativePath) :
    w.Kept virtual relativePath := by
  obtain ⟨latest, top⟩ := safe.top
  obtain ⟨storage, held, unmarked⟩ := top.survivor
  have present : w.level virtual relativePath storage = some latest := by
    unfold level
    rw [if_neg (fun removed => unmarked (safe.removed storage removed))]
    exact held
  intro entry member
  refine ⟨storage, ?_, safe.covered storage latest present entry member (top.recorded entry member)⟩
  rw [held]
  rfl

namespace Safe

variable (safe : w.Safe virtual relativePath)

include safe

theorem withDatabase {db : Database} (queue : db.queue.Inv)
    (known : db.store.latest (virtual, relativePath) =
      w.db.store.latest (virtual, relativePath))
    (replica : ∀ storage, db.store.replica (virtual, relativePath) storage =
      w.db.store.replica (virtual, relativePath) storage)
    (removed : ∀ storage ∈ w.removed, Marked db (virtual, relativePath) storage)
    (survivor : ∀ latest, Top (virtual, relativePath) w.db w.recorded latest → ∃ storage,
      w.db.store.replica (virtual, relativePath) storage = some latest ∧
        ¬ Marked db (virtual, relativePath) storage) :
    ({ w with db := db } : World).Safe virtual relativePath := by
  have level : ({ w with db := db } : World).level virtual relativePath =
      w.level virtual relativePath := by
    funext storage
    unfold World.level
    rw [replica]
  obtain ⟨latest, top⟩ := safe.top
  obtain ⟨storage, held, unmarked⟩ := survivor latest top
  refine ⟨queue, removed, ?_, ?_, latest, ?_, ?_, top.recorded, storage, ?_, unmarked⟩
  · rw [level]
    exact safe.applied
  · rw [level]
    exact safe.covered
  · exact known.trans top.known
  · intro other current row
    exact top.rows other current ((replica other).symm.trans row)
  · exact (replica storage).trans held

theorem reconcile (run : Run) :
    ({ w with db := (run.reconcile w.db).1 } : World).Safe virtual relativePath := by
  have store := run.reconcile_store w.db
  refine safe.withDatabase (reconcile_queue_inv run w.db safe.queue) (by rw [store])
    (fun storage => by rw [store]) ?_ ?_
  · exact fun storage member =>
      (safe.removed storage member).mono (reconcile_kept run w.db (virtual, relativePath))
  · intro latest top
    obtain ⟨storage, held, unmarked⟩ := top.survivor
    exact reconcile_survivor run w.db top.known top.rows held unmarked

theorem withMutators {mutators : List Mutator}
    (progress : ∀ m ∈ mutators, ∀ storage ∈ m.applied,
      ∃ old ∈ w.mutators, old.write = m.write ∧ storage ∈ old.applied) :
    ({ w with mutators := mutators } : World).Safe virtual relativePath := by
  refine { safe with applied := ?_ }
  intro m member storage listed present
  obtain ⟨old, before, same, earlier⟩ := progress m member storage listed
  rw [← same]
  exact safe.applied old before storage earlier present

theorem elect {db : Database} (elects : Elects w.db db) :
    ({ w with db := db } : World).Safe virtual relativePath := by
  have marked : ∀ storage, Marked db (virtual, relativePath) storage ↔
      Marked w.db (virtual, relativePath) storage := by
    intro storage
    unfold Marked
    rw [elects.queue]
  refine safe.withDatabase ?_ (elects.latest _) (elects.replica _) ?_ ?_
  · rw [elects.queue]
    exact safe.queue
  · exact fun storage member => (marked storage).mpr (safe.removed storage member)
  · intro latest top
    obtain ⟨storage, held, unmarked⟩ := top.survivor
    exact ⟨storage, held, fun again => unmarked ((marked storage).mp again)⟩

theorem request {request : Request} (other : schedules request = false)
    {queue : PostgresReplicationEventQueue} {ahead : queue.Ahead}
    (taken : w.db.queue.step request = some queue)
    (removed : ∀ storage ∈ w.removed,
      Marked ⟨w.db.store, queue, ahead⟩ (virtual, relativePath) storage) :
    ({ w with db := ⟨w.db.store, queue, ahead⟩ } : World).Safe virtual relativePath := by
  refine safe.withDatabase ?_ rfl (fun _ => rfl) removed ?_
  · exact (step_takes safe.queue taken).inv safe.queue
  · intro latest top
    obtain ⟨storage, held, unmarked⟩ := top.survivor
    exact ⟨storage, held, fun again => unmarked (again.of_request safe.queue other taken)⟩

theorem apply {mutator : Nat} {storage : String} {m : Mutator}
    (found : w.mutators[mutator]? = some m) :
    ({ w with
        disk := Function.update w.disk storage (m.write :: w.disk storage)
        mutators := w.mutators.set mutator { m with applied := storage :: m.applied } } :
      World).Safe virtual relativePath := by
  have grows := subset_write w.disk storage m.write
  have old := safe.applied m (mem_of_getElem? found)
  refine ⟨safe.queue, safe.removed, ?_, safe.covered.grow grows, safe.top⟩
  intro other member site listed present
  rcases mem_or_eq_of_mem_set member with before | rfl
  · exact grows site (safe.applied other before site listed present)
  rcases mem_cons.mp listed with rfl | earlier
  · exact mem_write w.disk site m.write
  · exact grows site (old site earlier present)

theorem increment {mutator : Nat} {m : Mutator} {storages : List String}
    {store : PostgresRepositoryStore} {generation : Int}
    (found : w.mutators[mutator]? = some m) (applied : ∀ storage ∈ storages, storage ∈ m.applied)
    (raises : Raises w.db.store store (virtual, relativePath) storages generation)
    (lasting : ∃ storage ∈ storages,
      w.db.store.replica (virtual, relativePath) storage = some generation ∧
        ¬ Marked w.db (virtual, relativePath) storage) :
    ({ w with
        db := { w.db with store := store }
        mutators := w.mutators.eraseIdx mutator
        recorded := (m.write, generation + 1) :: w.recorded } :
      World).Safe virtual relativePath := by
  obtain ⟨latest, top⟩ := safe.top
  obtain rfl : generation = latest := Option.some.inj (raises.latest.symm.trans top.known)
  have written := safe.applied m (mem_of_getElem? found)
  -- the labels of the replicas, before and after
  have moves : ∀ storage current,
      (if storage ∈ w.removed then none
        else store.replica (virtual, relativePath) storage) = some current →
      w.level virtual relativePath storage = some current ∨
        w.level virtual relativePath storage = some generation ∧
          current = generation + 1 ∧ m.write ∈ w.disk storage := by
    intro storage current labelled
    unfold level
    split at labelled
    · cases labelled
    rename_i kept
    rw [if_neg kept]
    rw [raises.replica] at labelled
    split at labelled
    · rename_i chosen
      have present : w.level virtual relativePath storage ≠ none := by
        unfold level
        rw [if_neg kept, chosen.2.2]
        exact some_ne_none _
      exact .inr ⟨chosen.2.2, (Option.some.inj labelled).symm,
        written storage (applied storage chosen.2.1) present⟩
    · exact .inl labelled
  have below : ∀ storage current, w.level virtual relativePath storage = some current →
      current ≤ generation := by
    intro storage current labelled
    unfold level at labelled
    split at labelled
    · cases labelled
    · exact (top.rows storage current labelled).2
  refine ⟨safe.queue, safe.removed, ?_, safe.covered.raise top.recorded below moves,
    generation + 1, ?_, ?_, ?_, ?_⟩
  · intro other member storage listed present
    obtain ⟨current, labelled⟩ := ne_none_iff_exists'.mp present
    refine safe.applied other (mem_of_mem_eraseIdx member) storage listed ?_
    rcases moves storage current labelled with same | ⟨same, _, _⟩
    all_goals
      rw [same]
      exact some_ne_none _
  · exact (raises.latest_after _).trans (if_pos rfl)
  · intro storage current row
    rw [raises.replica] at row
    split at row
    · rename_i chosen
      cases row
      have bounds := top.rows storage generation chosen.2.2
      omega
    · have bounds := top.rows storage current row
      omega
  · intro entry member
    rcases mem_cons.mp member with rfl | old
    · exact le_rfl
    · have bound := top.recorded entry old
      omega
  · obtain ⟨storage, named, held, unmarked⟩ := lasting
    refine ⟨storage, ?_, unmarked⟩
    rw [raises.replica, if_pos ⟨rfl, named, held⟩]

section

variable {job : ReplicationJob} (listed : job ∈ active w.db.queue (virtual, relativePath))
  (change : job.change = .deleteReplica)
include listed change

theorem remove :
    ({ w with
        disk := Function.update w.disk job.targetNodeStorage []
        removed := job.targetNodeStorage :: w.removed } :
      World).Safe virtual relativePath := by
  have label : ∀ storage,
      (if storage ∈ job.targetNodeStorage :: w.removed then none
        else w.db.store.replica (virtual, relativePath) storage) =
      if storage = job.targetNodeStorage then none
      else w.level virtual relativePath storage := by
    intro storage
    unfold level
    by_cases same : storage = job.targetNodeStorage
    all_goals simp [same]
  refine ⟨safe.queue, ?_, ?_, ?_, safe.top⟩
  · intro storage member
    rcases mem_cons.mp member with rfl | before
    · exact ⟨job, listed, change, rfl⟩
    · exact safe.removed storage before
  · intro m member storage applied present
    change (if _ then _ else _) ≠ _ at present
    rw [label] at present
    split at present
    · exact absurd rfl present
    rename_i different
    dsimp only
    rw [Function.update_of_ne different]
    exact safe.applied m member storage applied present
  · refine safe.covered.restrict ?_
    intro storage current labelled
    change (if _ then _ else _) = _ at labelled
    rw [label] at labelled
    split at labelled
    · cases labelled
    rename_i different
    dsimp only
    rw [Function.update_of_ne different]
    exact ⟨labelled, List.Subset.refl _⟩

theorem delete (gone : job.targetNodeStorage ∈ w.removed) :
    ({ w with
        db := { w.db with store := (Destroy w.db.store job (.ok ())).1 }
        removed := w.removed.filter (fun storage => storage ≠ job.targetNodeStorage) } :
      World).Safe virtual relativePath := by
  obtain ⟨row, _, _, key, rfl⟩ := mem_active.mp listed
  have store : (Destroy w.db.store row.job (.ok ())).1 =
      w.db.store.deleteReplicas (virtual, relativePath) [row.job.targetNodeStorage] :=
    Destroy_deleteReplica w.db.store change key
  have replica : ∀ storage,
      (w.db.store.deleteReplicas (virtual, relativePath)
        [row.job.targetNodeStorage]).replica (virtual, relativePath) storage =
      if storage = row.job.targetNodeStorage then none
      else w.db.store.replica (virtual, relativePath) storage := by
    intro storage
    rw [deleteReplicas_replica]
    simp
  have label : ∀ storage,
      (if storage ∈ w.removed.filter (fun other => other ≠ row.job.targetNodeStorage) then none
        else (w.db.store.deleteReplicas (virtual, relativePath)
          [row.job.targetNodeStorage]).replica (virtual, relativePath) storage) =
      w.level virtual relativePath storage := by
    intro storage
    rw [replica]
    unfold level
    by_cases same : storage = row.job.targetNodeStorage
    · rw [same, if_pos rfl, if_pos gone, ite_self]
    · simp [same]
  obtain ⟨latest, top⟩ := safe.top
  rw [store]
  refine ⟨safe.queue, ?_, ?_, ?_, latest, top.known, ?_, top.recorded, ?_⟩
  · exact fun storage member => safe.removed storage (mem_filter.mp member).1
  · intro m member storage applied present
    refine safe.applied m member storage applied ?_
    rw [← label]
    exact present
  · refine safe.covered.restrict ?_
    intro storage current labelled
    exact ⟨(label storage).symm.trans labelled, List.Subset.refl _⟩
  · intro storage current held
    rw [replica] at held
    split at held
    · cases held
    · exact top.rows storage current held
  · obtain ⟨storage, held, unmarked⟩ := top.survivor
    refine ⟨storage, ?_, unmarked⟩
    rw [replica, if_neg]
    · exact held
    · rintro rfl
      exact unmarked ⟨row.job, listed, change, rfl⟩

end

end Safe

theorem step_safe {event : Event} (safe : w.Safe virtual relativePath)
    (lasting : w.Lasting virtual relativePath event)
    (taken : w.step virtual relativePath event = some next) :
    next.Safe virtual relativePath := by
  cases event with
  | reconcile run =>
    cases taken
    exact safe.reconcile run
  | getPrimary write healthy random =>
    have elects := GetPrimary_elects w.db healthy random virtual relativePath
    simp only [step] at taken
    split at taken
    · rename_i db primary elected
      rw [elected] at elects
      cases taken
      refine (safe.elect elects).withMutators ?_
      intro m member storage listed
      rcases mem_append.mp member with old | last
      · exact ⟨m, old, rfl, listed⟩
      · rw [mem_singleton.mp last] at listed
        cases listed
    · rename_i db err elected
      rw [elected] at elects
      cases taken
      exact safe.elect elects
  | route mutator healthy configured =>
    obtain ⟨m, found, -, taken⟩ := guarded taken
    split at taken
    · cases taken
      refine safe.withMutators ?_
      intro other member storage listed
      rcases mem_or_eq_of_mem_set member with old | rfl
      · exact ⟨other, old, rfl, listed⟩
      · exact ⟨m, mem_of_getElem? found, rfl, listed⟩
    · cases taken
      exact safe.withMutators (fun other member storage listed =>
        ⟨other, mem_of_mem_eraseIdx member, rfl, listed⟩)
  | apply mutator storage =>
    obtain ⟨m, found, -, taken⟩ := guarded taken
    cases taken
    exact safe.apply found
  | increment mutator secondaries =>
    obtain ⟨m, found, applied, taken⟩ := guarded taken
    rcases IncrementGeneration_cases w.db.store virtual
      relativePath m.primary secondaries with
      ⟨_, refused⟩ | ⟨after, generation, raised, raises⟩
    · rw [refused] at taken
      cases taken
      exact safe.withMutators (fun other member storage listed =>
        ⟨other, mem_of_mem_eraseIdx member, rfl, listed⟩)
    · rw [raised] at taken
      dsimp only at taken
      rw [raises.latest_after, if_pos rfl, getD_some] at taken
      cases taken
      refine safe.increment found ?_ raises
        (lasting m found generation raises.latest raises.raised)
      intro storage member
      rcases mem_append.mp member with secondary | last
      · exact applied.2 storage secondary
      · rw [mem_singleton.mp last]
        exact applied.1
  | assign assignments =>
    cases taken
    exact safe.withDatabase safe.queue rfl (fun _ => rfl) safe.removed
      (fun _ top => top.survivor)
  | request request =>
    simp only [step] at taken
    split at taken
    · cases taken
    rename_i other
    obtain ⟨db, moved, removed, taken⟩ := guarded taken
    cases taken
    simp only [Database.step] at moved
    split at moved
    · cases moved
    rename_i queue requested
    cases moved
    exact safe.request (Bool.eq_false_iff.mpr other) requested removed
  | removeRepository job =>
    simp only [step] at taken
    split at taken
    · rename_i scheduled
      cases taken
      exact safe.remove scheduled.1 scheduled.2
    · cases taken
  | deleteReplica job =>
    simp only [step] at taken
    split at taken
    · rename_i scheduled
      cases taken
      exact safe.delete scheduled.1 scheduled.2.1 scheduled.2.2
    · cases taken

theorem start_safe (repositoryID : Int) (primary : String)
    (updatedSecondaries outdatedSecondaries : List String) (storePrimary storeAssignments : Bool)
    (disk : String → List Nat) :
    (start virtual relativePath repositoryID primary updatedSecondaries outdatedSecondaries
      storePrimary storeAssignments disk).Safe virtual relativePath := by
  have accepted : (empty.CreateRepository repositoryID virtual
      relativePath primary updatedSecondaries outdatedSecondaries storePrimary
      storeAssignments).2 = .ok () :=
    CreateRepository_ok_iff.mpr ⟨rfl, fun _ _ => rfl, not_mem_nil, fun _ _ => not_mem_nil⟩
  rcases CreateRepository_cases .empty repositoryID virtual
    relativePath primary updatedSecondaries outdatedSecondaries storePrimary storeAssignments with
    ⟨_, refused⟩ | ⟨after, created, creates⟩
  · rw [refused] at accepted
    cases accepted
  have replica : ∀ storage,
      after.replica (virtual, relativePath) storage =
        if storage ∈ primary :: updatedSecondaries then some 0 else none := by
    intro storage
    rw [creates.replica]
    simp only [true_and]
    rfl
  unfold start
  rw [created]
  refine ⟨empty_inv, fun _ absent => absurd absent not_mem_nil,
    fun _ absent => absurd absent not_mem_nil, covered_nil _ _, 0, ?_, ?_,
    fun _ absent => absurd absent not_mem_nil, primary, ?_, ?_⟩
  · refine latest_eq_some.mpr ⟨_, (creates.record _).trans (if_pos rfl), rfl⟩
  · intro storage current held
    have row := (replica storage).symm.trans held
    split at row
    · cases row
      exact ⟨le_rfl, le_rfl⟩
    · cases row
  · exact (replica primary).trans (if_pos mem_cons_self)
  · intro marked
    obtain ⟨job, member, _⟩ := marked
    cases member

theorem deletion_keeps_writes (virtual relativePath : String) (repositoryID : Int)
    (primary : String) (updatedSecondaries outdatedSecondaries : List String)
    (storePrimary storeAssignments : Bool) (disk : String → List Nat) (events : List Event)
    (lasting : Along (step virtual relativePath) (Lasting virtual relativePath)
      (start virtual relativePath repositoryID primary updatedSecondaries
        outdatedSecondaries storePrimary storeAssignments disk) events) :
    Throughout (step virtual relativePath) (Kept virtual relativePath)
      (start virtual relativePath repositoryID primary updatedSecondaries
        outdatedSecondaries storePrimary storeAssignments disk) events :=
  lasting.throughout (fun _ _ _ => step_safe) (fun _ => Safe.kept)
    (start_safe repositoryID primary updatedSecondaries outdatedSecondaries storePrimary
      storeAssignments disk)

/-- A repository on two storages. -/
def pair : World := start "default" "repo.git" 1 "gitaly-1" ["gitaly-2"] [] true true (fun _ => [])

/-- The repository is assigned to the second storage only, and the replica on the first one is
scheduled for deletion. -/
def moved : List Event :=
  [.assign ⟨[⟨"default", "repo.git", "gitaly-2"⟩], by decide⟩,
    .reconcile (.ofHealthy [("default", ["gitaly-1", "gitaly-2"])])]

/-- `Destroy` with the job that deletes the replica on the first storage. -/
def destroyed : List Event :=
  [.removeRepository (Reconciler.deletes "gitaly-1"),
    .deleteReplica (Reconciler.deletes "gitaly-1")]

/-- A mutator that is routed to the first storage as the primary. -/
def routed : List Event :=
  [.getPrimary 7 [("default", "gitaly-1"), ("default", "gitaly-2")] .forward,
    .route 0 ["gitaly-1", "gitaly-2"] ["gitaly-1", "gitaly-2"], .apply 0 "gitaly-1"]

/-- The mutator is done before the repository is moved. -/
def orderly : List Event :=
  routed ++ [.apply 0 "gitaly-2", .increment 0 ["gitaly-2"]] ++ moved ++ destroyed

theorem deletion_keeps_writes_orderly :
    Along (step "default" "repo.git") (Lasting "default" "repo.git") pair orderly ∧
      Throughout (step "default" "repo.git") (Kept "default" "repo.git") pair orderly :=
  ⟨by decide, deletion_keeps_writes "default" "repo.git" 1 "gitaly-1" ["gitaly-2"] [] true true
    (fun _ => []) orderly (by decide)⟩

/-- The first storage fails for a moment and another primary is elected, and the mutator is
done after the repository was moved. -/
def late : List Event :=
  routed ++ [.getPrimary 8 [("default", "gitaly-2")] .forward] ++ moved ++ [.increment 0 []] ++
    destroyed

theorem late_loses :
    (exec (step "default" "repo.git") pair late).map (fun w =>
        (w.recorded, w.db.store.replicas ("default", "repo.git"), w.disk "gitaly-2")) =
      some ([(7, 1)], [⟨"default", "repo.git", "gitaly-2", 0⟩], []) := by
  decide

end World

end Gitaly.Praefect.Deletion
