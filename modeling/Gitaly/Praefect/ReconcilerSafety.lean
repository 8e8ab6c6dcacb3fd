import Gitaly.Praefect.Reconciler

/- What a run of the reconciler deletes. -/
namespace Gitaly.Praefect.Reconciler

open Datastore List

namespace Run

variable (run : Run) {db : Database}

theorem mem_updateJobs {update : UpdateJob} (member : update ∈ run.updateJobs db) :
    update ∈ Reconciler.updates db (healthyStorages run.healthyNodes) :=
  run.updates.mem_of_mem_distinctOn member

theorem mem_deleteJobs {delete : DeleteJob} (member : delete ∈ run.deleteJobs db) :
    delete ∈ Reconciler.surplus db (healthyStorages run.healthyNodes) ∨
      delete ∈ Reconciler.orphans db (healthyStorages run.healthyNodes) :=
  (mem_append.mp member).imp run.surplus.mem_of_mem_distinctOn
    run.orphans.mem_of_mem_distinctOn

theorem mem_jobs_update {job : ReplicationJob} (member : job ∈ run.jobs db)
    (change : job.change = .update) : ∃ update ∈ run.updateJobs db, update.job = job := by
  rcases mem_append.mp member with isUpdate | isDelete
  · exact mem_map.mp isUpdate
  · obtain ⟨delete, _, rfl⟩ := mem_map.mp isDelete
    cases change

theorem mem_jobs_delete {job : ReplicationJob} (member : job ∈ run.jobs db)
    (change : job.change = .deleteReplica) : ∃ delete ∈ run.deleteJobs db, delete.job = job := by
  rcases mem_append.mp member with isUpdate | isDelete
  · obtain ⟨update, _, rfl⟩ := mem_map.mp isUpdate
    cases change
  · exact mem_map.mp isDelete

/-- A run inserts all that it has found to be done, or nothing. -/
theorem commit_cases (snapshot db : Database) :
    (∃ err, (run.commit snapshot db).2 = .error err ∧
        PostgresReplicationEventQueue.Unchanged db.queue (run.commit snapshot db).1.queue) ∨
      ∃ rows, (run.commit snapshot db).2 = .ok rows ∧
        rows.map (fun row => row.job) = run.jobs snapshot ∧
        PostgresReplicationEventQueue.Adds db.queue (run.commit snapshot db).1.queue
          ((run.jobs snapshot).map run.event) rows := by
  obtain ⟨_, failed | ⟨rows, inserted, adds⟩⟩ :=
    db.queue.insertAll_cases run.now ((run.jobs snapshot).map run.event)
  · exact .inl failed
  refine .inr ⟨rows, inserted, ?_, adds⟩
  have jobs := congrArg (List.map ReplicationEvent.job) adds.events
  rw [map_map, map_map] at jobs
  exact jobs.trans (map_id _)

theorem reconcile_rows {rows : List EventRow} (scheduled : (run.reconcile db).2 = .ok rows) :
    ∀ row ∈ rows, row.job ∈ run.jobs db := by
  intro row member
  unfold reconcile at scheduled
  split at scheduled
  · cases scheduled
    cases member
  rcases run.commit_cases db db with ⟨err, refused, _⟩ | ⟨others, inserted, jobs, _⟩
  · cases scheduled.symm.trans refused
  cases scheduled.symm.trans inserted
  rw [← jobs]
  exact mem_map.mpr ⟨row, member, rfl⟩

end Run

/-- The generations of replicas are known, and none is ahead of its repository. -/
def Bounded (rs : PostgresRepositoryStore) : Prop :=
  ∀ row ∈ rs.storageRepositories.rows, 0 ≤ row.generation ∧
    ∀ latest ∈ rs.latest row.repository, row.generation ≤ latest

instance (rs : PostgresRepositoryStore) : Decidable (Bounded rs) :=
  inferInstanceAs (Decidable (∀ row ∈ rs.storageRepositories.rows, _ ∧ _))

section surplus

variable {rs : PostgresRepositoryStore} {healthy : List (String × String)} {delete : DeleteJob}

theorem Bounded.replica (bounded : Bounded rs) {repository : Repository} {storage : String}
    {generation : Int} (held : rs.replica repository storage = some generation) :
    0 ≤ generation ∧ ∀ latest, rs.latest repository = some latest → generation ≤ latest := by
  obtain ⟨row, present, same, rfl⟩ := PostgresRepositoryStore.replica_eq_some.mp held
  obtain rfl : row.repository = repository := congrArg Prod.fst same
  exact bounded row present

/-- Every assigned storage has a replica that is as recent. -/
theorem Surplus.assigned_replica (surplus : Surplus rs healthy delete)
    (nonneg : ∀ generation, rs.replica delete.repository delete.storage = some generation →
      0 ≤ generation)
    {storage : String} (member : storage ∈ Reconciler.assigned rs delete.repository) :
    ∃ generation held, rs.replica delete.repository delete.storage = some generation ∧
      rs.replica delete.repository storage = some held ∧ generation ≤ held := by
  obtain ⟨generation, current, least⟩ := surplus.replica
  obtain ⟨below, missing⟩ := le_minGeneration least
  cases held : rs.replica delete.repository storage with
  | none =>
    have known := nonneg generation current
    have negative := missing storage member held
    omega
  | some other => exact ⟨generation, other, current, rfl, below storage other held⟩

/-- A replica that is deleted is the source of no update: a target that lacks the latest
generation would be below it. -/
theorem Surplus.not_source (surplus : Surplus rs healthy delete) (bounded : Bounded rs)
    {update : UpdateJob} (outdated : Outdated rs healthy update)
    (same : update.repository = delete.repository) : update.sourceNodeStorage ≠ delete.storage := by
  intro source
  obtain ⟨generation, current, least⟩ := surplus.replica
  obtain ⟨below, missing⟩ := le_minGeneration least
  obtain ⟨latest, isLatest, held⟩ := outdated.latest
  rw [same] at isLatest held
  rw [source, current] at held
  cases held
  have nonneg := (bounded.replica current).1
  have target : update.targetNodeStorage ∈ Reconciler.assigned rs delete.repository := by
    rw [← same]
    refine outdated.assigned.resolve_left ?_
    rw [same]
    exact surplus.assigned
  cases stored : rs.replica delete.repository update.targetNodeStorage with
  | none =>
    have negative := missing _ target stored
    omega
  | some other =>
    have le := below _ other stored
    have top := (bounded.replica stored).2 generation isLatest
    have different := outdated.outdated generation (by rw [same]; exact isLatest)
    rw [same, stored] at different
    exact different (congrArg some (by omega))

end surplus

theorem reconcile_deletes_surplus (db : Database) (run : Run) (rows : List EventRow)
    (bounded : Bounded db.store) (scheduled : (run.reconcile db).2 = .ok rows) (row : EventRow)
    (member : row ∈ rows) (change : row.job.change = .deleteReplica)
    (present : (db.store.record row.indexKey).isSome) :
    row.job.targetNodeStorage ∉ assigned db.store row.indexKey ∧
      (∃ storage ∈ assigned db.store row.indexKey, ∃ generation held,
        db.store.replica row.indexKey row.job.targetNodeStorage = some generation ∧
          db.store.replica row.indexKey storage = some held ∧ generation ≤ held) ∧
      ∀ other ∈ rows, other.job.change = .update → other.indexKey = row.indexKey →
        other.job.sourceNodeStorage ≠ row.job.targetNodeStorage := by
  have jobs := run.reconcile_rows scheduled
  obtain ⟨delete, chosen, same⟩ := run.mem_jobs_delete (jobs row member) change
  have key : row.indexKey = delete.repository := by
    unfold EventRow.indexKey
    rw [← same]
    rfl
  rw [key] at present ⊢
  rw [← same]
  rcases run.mem_deleteJobs chosen with isSurplus | isOrphan
  · have surplus := (mem_surplus.mp isSurplus).1
    refine ⟨surplus.unassigned, ?_, ?_⟩
    · obtain ⟨storage, first⟩ := exists_mem_of_ne_nil _ surplus.assigned
      exact ⟨storage, first,
        surplus.assigned_replica (fun _ held => (bounded.replica held).1) first⟩
    · intro other listed isUpdate otherKey
      obtain ⟨update, selected, otherSame⟩ := run.mem_jobs_update (jobs other listed) isUpdate
      have outdated := (mem_updates.mp (run.mem_updateJobs selected)).1
      rw [← otherSame]
      refine surplus.not_source bounded outdated ?_
      rw [← otherKey]
      unfold EventRow.indexKey
      rw [← otherSame]
      rfl
  · have gone := (mem_orphans.mp isOrphan).1.record
    rw [gone] at present
    cases present

/-- A repository on its two storages, and a third one that is not assigned to it. -/
def reassigned : PostgresRepositoryStore :=
  (PostgresRepositoryStore.empty.CreateRepository 1 "default" "repo.git" "gitaly-1" ["gitaly-2"] []
    true true).1.SetGeneration "default" "repo.git" "gitaly-3" 0

/-- The job that deletes a replica of the repository. -/
def deletes (storage : String) : ReplicationJob := DeleteJob.job ⟨1, "default", "repo.git", storage⟩

theorem reconcile_deletes_surplus_reassigned :
    ∃ rows, ((Run.ofHealthy [("default", ["gitaly-1", "gitaly-2", "gitaly-3"])]).reconcile
        (.idle reassigned)).2 = .ok rows ∧
      ∃ row ∈ rows, row.job = deletes "gitaly-3" ∧
        row.job.targetNodeStorage ∉ assigned reassigned row.indexKey := by
  refine ⟨[⟨(Run.ofHealthy []).event (deletes "gitaly-3"), 1, .ready, 0, none, 3,
    "default|gitaly-3|repo.git"⟩], by decide, _, mem_singleton_self _, rfl, ?_⟩
  exact (reconcile_deletes_surplus (.idle reassigned)
    (Run.ofHealthy [("default", ["gitaly-1", "gitaly-2", "gitaly-3"])]) _ (by decide) (by decide) _
    (mem_singleton_self _) rfl (by decide)).1

/-- The only replica, on a storage that is not assigned, with a generation below all that a
repository has. -/
def unknown : PostgresRepositoryStore :=
  ((PostgresRepositoryStore.empty.CreateRepository 1 "default" "repo.git" "gitaly-1" [] []
    true true).1.SetGeneration "default" "repo.git" "gitaly-2" (-1)).deleteReplicas
    ("default", "repo.git") ["gitaly-1"]

/-- It is not ahead of its repository, and it is deleted without another one. -/
theorem unknown_deleted :
    (∀ row ∈ unknown.storageRepositories.rows, ∀ latest ∈ unknown.latest row.repository,
        row.generation ≤ latest) ∧
      ((Run.ofHealthy [("default", ["gitaly-1", "gitaly-2"])]).reconcile (.idle unknown)).2.map
          (fun rows => rows.map (fun row => row.job)) = .ok [deletes "gitaly-2"] ∧
      unknown.replicas ("default", "repo.git") = [⟨"default", "repo.git", "gitaly-2", -1⟩] ∧
      assigned unknown ("default", "repo.git") = ["gitaly-1"] := by
  decide

end Gitaly.Praefect.Reconciler
