import Gitaly.Praefect.ReconcilerSafety

/- A run of the reconciler always succeeds, and leaves nothing for the next one to do. -/
namespace Gitaly.Praefect.Reconciler

open Datastore List
open PostgresReplicationEventQueue (Excludes)

section healthy

variable {rs : PostgresRepositoryStore} {healthy more : List (String × String)} {delete : DeleteJob}

theorem Surplus.mono (surplus : Surplus rs healthy delete)
    (sub : healthy ⊆ more) : Surplus rs more delete :=
  { surplus with healthy := sub surplus.healthy }

theorem Orphan.mono (orphan : Orphan rs healthy delete)
    (sub : healthy ⊆ more) : Orphan rs more delete :=
  { orphan with healthy := sub orphan.healthy }

theorem Outdated.mono {update : UpdateJob} (outdated : Outdated rs healthy update)
    (sub : healthy ⊆ more) : Outdated rs more update :=
  { outdated with target := sub outdated.target, source := sub outdated.source }

end healthy

namespace Run

variable (run : Run) {db : Database}

/-- One deletion at most for a repository: those of one kind need its record, those of the
other kind need that it has none. -/
theorem deleteJobs_nodup (db : Database) :
    ((run.deleteJobs db).map DeleteJob.repository).Nodup := by
  unfold deleteJobs
  rw [map_append, nodup_append]
  refine ⟨run.surplus.distinctOn_keys_nodup, run.orphans.distinctOn_keys_nodup, ?_⟩
  intro repository isSurplus other isOrphan same
  obtain ⟨delete, chosen, rfl⟩ := mem_map.mp isSurplus
  obtain ⟨orphan, selected, rfl⟩ := mem_map.mp isOrphan
  obtain ⟨record, present, _⟩ :=
    (mem_surplus.mp (run.surplus.mem_of_mem_distinctOn chosen)).1.record
  have gone := (mem_orphans.mp (run.orphans.mem_of_mem_distinctOn selected)).1.record
  rw [← same, present] at gone
  cases gone

theorem jobs_apart (db : Database) :
    (run.jobs db).Pairwise (fun job other => ¬ Excludes job other) := by
  unfold jobs
  rw [pairwise_append]
  refine ⟨?_, ?_, ?_⟩
  · rw [pairwise_map]
    exact pairwise_of_forall (fun _ _ excluded => by cases excluded.1)
  · have distinct := run.deleteJobs_nodup db
    rw [List.Nodup, pairwise_map] at distinct
    rw [pairwise_map]
    exact distinct.imp (fun different excluded => different excluded.2.2)
  · intro job isUpdate other _ excluded
    obtain ⟨update, _, rfl⟩ := mem_map.mp isUpdate
    cases excluded.1

/-- The storage that an update is for. -/
def target (job : ReplicationJob) : Repository × String :=
  ((job.virtualStorage, job.relativePath), job.targetNodeStorage)

/-- One update at most for a target. -/
theorem jobs_targets (db : Database) :
    (run.jobs db).Pairwise (fun job other =>
      job.change = .update → other.change = .update → target job ≠ target other) := by
  unfold jobs
  rw [pairwise_append]
  refine ⟨?_, ?_, ?_⟩
  · have distinct : ((run.updateJobs db).map UpdateJob.key).Nodup :=
      run.updates.distinctOn_keys_nodup
    rw [List.Nodup, pairwise_map] at distinct
    rw [pairwise_map]
    exact distinct.imp (fun different _ _ => different)
  · rw [pairwise_map]
    exact pairwise_of_forall (fun _ _ change => by cases change)
  · intro job _ other isDelete _ change
    obtain ⟨delete, _, rfl⟩ := mem_map.mp isDelete
    cases change

/-- A replica is deleted only if no other deletion is going on. -/
theorem deleteJobs_free {delete : DeleteJob} (member : delete ∈ run.deleteJobs db) :
    ∀ job ∈ active db.queue delete.repository, job.change ≠ .deleteReplica := by
  rcases run.mem_deleteJobs member with isSurplus | isOrphan
  · exact fun job listed => ((mem_surplus.mp isSurplus).2 job listed).2.2
  · exact (mem_orphans.mp isOrphan).2

theorem jobs_free {job : ReplicationJob} (member : job ∈ run.jobs db) {row : EventRow}
    (present : row ∈ db.queue.queue) (isActive : row.Active) : ¬ Excludes job row.job := by
  intro excluded
  obtain ⟨delete, chosen, rfl⟩ := run.mem_jobs_delete member excluded.1
  have listed : row.job ∈ active db.queue delete.repository :=
    mem_active.mpr ⟨row, present, isActive, excluded.2.2.symm, rfl⟩
  exact run.deleteJobs_free chosen row.job listed excluded.2.1

theorem commit_ok (db : Database) : ∃ rows, (run.commit db db).2 = .ok rows := by
  refine PostgresReplicationEventQueue.insertAll_ok db.ahead run.now ?_ ?_
  · rw [pairwise_map]
    exact run.jobs_apart db
  · intro event member row present isActive
    obtain ⟨job, listed, rfl⟩ := mem_map.mp member
    exact run.jobs_free listed present isActive

theorem reconcile_ok (db : Database) : ∃ rows, (run.reconcile db).2 = .ok rows := by
  unfold reconcile
  split
  · exact ⟨[], rfl⟩
  · exact run.commit_ok db

theorem reconcile_store (db : Database) : (run.reconcile db).1.store = db.store := by
  unfold reconcile
  split <;> rfl

/-- What is left by a run: its jobs are active, next to those that were active before. -/
structure Leaves (db later : Database) : Prop where
  store : later.store = db.store
  kept : ∀ repository, active db.queue repository ⊆ active later.queue repository
  scheduled : ∀ job ∈ run.jobs db, job ∈ active later.queue (job.virtualStorage, job.relativePath)

theorem commit_leaves (db : Database) : run.Leaves db (run.commit db db).1 := by
  obtain ⟨rows, scheduled⟩ := run.commit_ok db
  rcases run.commit_cases db db with ⟨err, refused, _⟩ | ⟨others, inserted, jobs, adds⟩
  · cases scheduled.symm.trans refused
  refine ⟨rfl, ?_, ?_⟩
  · intro repository job member
    obtain ⟨row, present, rest⟩ := mem_active.mp member
    exact mem_active.mpr ⟨row, (adds.queue row).mpr (.inl present), rest⟩
  · intro job member
    rw [← jobs] at member
    obtain ⟨row, listed, rfl⟩ := mem_map.mp member
    refine mem_active.mpr ⟨row, (adds.queue row).mpr (.inr listed), ?_, rfl, rfl⟩
    unfold EventRow.Active
    rw [adds.ready row listed]
    decide

namespace Leaves

variable {run} {later : Database} (leaves : run.Leaves db later)
  {healthy : List (String × String)} (sub : healthy ⊆ healthyStorages run.healthyNodes)

include leaves

/-- A deletion of the run bars any other one of the same repository. -/
theorem bars {delete other : DeleteJob} (selected : delete ∈ run.deleteJobs db)
    (same : delete.repository = other.repository) :
    ∃ job ∈ active later.queue other.repository, job.change = .deleteReplica := by
  have found := leaves.scheduled delete.job
    (mem_append_right _ (mem_map.mpr ⟨delete, selected, rfl⟩))
  exact ⟨delete.job, same ▸ found, rfl⟩

include sub

theorem updates : Reconciler.updates later healthy = [] := by
  rw [eq_nil_iff_forall_not_mem]
  intro update member
  obtain ⟨outdated, unused⟩ := mem_updates.mp member
  rw [leaves.store] at outdated
  have before : update ∈ Reconciler.updates db (healthyStorages run.healthyNodes) :=
    mem_updates.mpr ⟨outdated.mono sub, fun job listed => unused job (leaves.kept _ listed)⟩
  have picked : ∃ chosen ∈ run.updateJobs db, chosen.key = update.key :=
    run.updates.exists_mem_distinctOn before
  obtain ⟨chosen, selected, same⟩ := picked
  have found := leaves.scheduled chosen.job
    (mem_append_left _ (mem_map.mpr ⟨chosen, selected, rfl⟩))
  have repository : chosen.repository = update.repository := congrArg Prod.fst same
  exact (unused chosen.job (repository ▸ found)).2 (congrArg Prod.snd same) rfl

theorem surplus : Reconciler.surplus later healthy = [] := by
  rw [eq_nil_iff_forall_not_mem]
  intro delete member
  obtain ⟨surplus, unused⟩ := mem_surplus.mp member
  rw [leaves.store] at surplus
  have before : delete ∈ Reconciler.surplus db (healthyStorages run.healthyNodes) :=
    mem_surplus.mpr ⟨surplus.mono sub, fun job listed => unused job (leaves.kept _ listed)⟩
  have picked : ∃ chosen ∈ run.surplus.distinctOn DeleteJob.repository
      (Reconciler.surplus db (healthyStorages run.healthyNodes)),
      chosen.repository = delete.repository := run.surplus.exists_mem_distinctOn before
  obtain ⟨chosen, selected, same⟩ := picked
  obtain ⟨job, listed, change⟩ := leaves.bars (mem_append_left _ selected) same
  exact (unused job listed).2.2 change

theorem orphans : Reconciler.orphans later healthy = [] := by
  rw [eq_nil_iff_forall_not_mem]
  intro delete member
  obtain ⟨orphan, unique⟩ := mem_orphans.mp member
  rw [leaves.store] at orphan
  have before : delete ∈ Reconciler.orphans db (healthyStorages run.healthyNodes) :=
    mem_orphans.mpr ⟨orphan.mono sub, fun job listed => unique job (leaves.kept _ listed)⟩
  have picked : ∃ chosen ∈ run.orphans.distinctOn DeleteJob.repository
      (Reconciler.orphans db (healthyStorages run.healthyNodes)),
      chosen.repository = delete.repository := run.orphans.exists_mem_distinctOn before
  obtain ⟨chosen, selected, same⟩ := picked
  obtain ⟨job, listed, change⟩ := leaves.bars (mem_append_right _ selected) same
  exact unique job listed change

end Leaves

variable {run} in
theorem Leaves.jobs {later : Database} (leaves : run.Leaves db later) {again : Run}
    (sub : healthyStorages again.healthyNodes ⊆ healthyStorages run.healthyNodes) :
    again.jobs later = [] := by
  unfold Run.jobs updateJobs deleteJobs
  rw [leaves.updates sub, leaves.surplus sub, leaves.orphans sub]
  simp only [Sql.Scan.distinctOn_nil, map_nil, append_nil]

theorem commit_nil {snapshot : Database} (none : run.jobs snapshot = []) (db : Database) :
    run.commit snapshot db = (db, .ok []) := by
  unfold commit
  simp only [none]
  rfl

theorem reconcile_again (db : Database) {again : Run}
    (sub : healthyStorages again.healthyNodes ⊆ healthyStorages run.healthyNodes) :
    again.reconcile (run.reconcile db).1 = ((run.reconcile db).1, .ok []) := by
  by_cases idle : healthyStorages again.healthyNodes = []
  · unfold reconcile
    rw [if_pos idle]
  have busy : healthyStorages run.healthyNodes ≠ [] := by
    intro none
    rw [none] at sub
    exact idle (subset_nil.mp sub)
  have committed : (run.reconcile db).1 = (run.commit db db).1 := by
    unfold reconcile
    rw [if_neg busy]
  rw [committed]
  unfold reconcile
  rw [if_neg idle]
  exact again.commit_nil ((run.commit_leaves db).jobs sub) _

end Run

/-- The reconciler at work, next to the queue and to whatever else changes the tables. -/
inductive Event where
  | reconcile (run : Run)
  | request (request : Request)
  | store (store : PostgresRepositoryStore)

def Database.step (db : Database) : Event → Option Database
  | .reconcile run => some (run.reconcile db).1
  | .request request =>
    match taken : db.queue.step request with
    | none => none
    | some queue => some ⟨db.store, queue, db.ahead.step taken⟩
  | .store store => some { db with store := store }

/-- A run violates no constraint, and another one after it finds nothing to do unless more
storages are healthy. -/
def Database.Stable (db : Database) : Prop :=
  ∀ run : Run, (∃ rows, (run.reconcile db).2 = .ok rows) ∧
    ∀ again : Run, healthyStorages again.healthyNodes ⊆ healthyStorages run.healthyNodes →
      again.reconcile (run.reconcile db).1 = ((run.reconcile db).1, .ok [])

theorem reconcile_stable (db : Database) (events : List Event) :
    Runs.Throughout Database.step Database.Stable db events :=
  (Runs.along_true db events).throughout (fun _ _ _ _ _ _ => trivial)
    (fun db _ run => ⟨run.reconcile_ok db, fun _ sub => run.reconcile_again db sub⟩) trivial

/-- Whatever a run can repair or clean up is being worked on when it is through, unless a job
that is in the way is active: the source is to be deleted, or the surplus replica is in use. -/
structure Covers (healthy : List (String × String)) (db later : Database) : Prop where
  outdated : ∀ update, Outdated db.store healthy update →
    ∃ job ∈ active later.queue update.repository,
      job.targetNodeStorage = update.targetNodeStorage ∧ job.change = .update ∨
        job.targetNodeStorage = update.sourceNodeStorage ∧ job.change = .deleteReplica
  surplus : ∀ delete, Surplus db.store healthy delete →
    ∃ job ∈ active later.queue delete.repository, job.change = .deleteReplica ∨
      job.sourceNodeStorage = delete.storage ∨ job.targetNodeStorage = delete.storage
  orphans : ∀ delete, Orphan db.store healthy delete →
    ∃ job ∈ active later.queue delete.repository, job.change = .deleteReplica

theorem reconcile_covers (run : Run) (db : Database) :
    Covers (healthyStorages run.healthyNodes) db (run.reconcile db).1 := by
  unfold Run.reconcile
  split
  · rename_i idle
    rw [idle]
    exact ⟨fun _ outdated => absurd outdated.target not_mem_nil,
      fun _ surplus => absurd surplus.healthy not_mem_nil,
      fun _ orphan => absurd orphan.healthy not_mem_nil⟩
  have leaves := run.commit_leaves db
  have all := Subset.refl (healthyStorages run.healthyNodes)
  -- A row that nothing is active for would be a row of the query in the state that is left.
  refine ⟨?_, ?_, ?_⟩
  · intro update outdated
    by_contra idle
    push Not at idle
    exact eq_nil_iff_forall_not_mem.mp (leaves.updates all) update (mem_updates.mpr
      ⟨leaves.store ▸ outdated, fun job listed => (idle job listed).symm⟩)
  · intro delete surplus
    by_contra idle
    push Not at idle
    exact eq_nil_iff_forall_not_mem.mp (leaves.surplus all) delete (mem_surplus.mpr
      ⟨leaves.store ▸ surplus, fun job listed => and_rotate.mp (idle job listed)⟩)
  · intro delete orphan
    by_contra idle
    push Not at idle
    exact eq_nil_iff_forall_not_mem.mp (leaves.orphans all) delete (mem_orphans.mpr
      ⟨leaves.store ▸ orphan, idle⟩)

end Gitaly.Praefect.Reconciler
