import Gitaly.Base.DistinctOn
import Gitaly.Datastore.QueueBatch
import Gitaly.Datastore.RepositoryStoreViews
import Mathlib.Data.List.ProdSigma

/- The reconciler of internal/praefect/reconciler/reconciler.go: what one run schedules, by
the tables that its statement reads. -/
namespace Gitaly.Praefect.Reconciler

open Datastore PostgresRepositoryStore List

/-- The tables of the database. -/
structure Database where
  store : PostgresRepositoryStore
  queue : PostgresReplicationEventQueue
  ahead : queue.Ahead

/-- The tables with nothing in the queue. -/
def Database.idle (store : PostgresRepositoryStore) : Database :=
  ⟨store, .empty, fun _ absent => absurd absent List.not_mem_nil⟩

/-- A virtual storage needs two healthy storages for a source and a target. -/
def healthyStorages (healthyNodes : List (String × List String)) : List (String × String) :=
  healthyNodes.flatMap (fun (virtualStorage, storages) =>
    if storages.length < 2 then [] else storages.map (fun storage => (virtualStorage, storage)))

/-- The storages that a repository is assigned to. -/
def assigned (rs : PostgresRepositoryStore) (repository : Repository) : List String :=
  (rs.assignments.rows.filter (fun row => row.repository = repository)).map AssignmentRow.storage

/-- The jobs of a repository that are not settled. -/
def active (rq : PostgresReplicationEventQueue) (repository : Repository) : List ReplicationJob :=
  (rq.queue.rows.filter (fun row => row.Active ∧ row.indexKey = repository)).map
    (fun row => row.job)

/-- `MIN(COALESCE(generation, -1))` over the assignments and the replicas of a repository. -/
def minGeneration (rs : PostgresRepositoryStore) (repository : Repository) : Option Int :=
  let unmatched := (assigned rs repository).filter (fun storage =>
    rs.replica repository storage = none)
  ((rs.replicas repository).map StorageRow.generation ++ unmatched.map (fun _ => -1)).min?

/-- A row of `delete_jobs`. -/
structure DeleteJob where
  repositoryID : Int
  virtualStorage : String
  relativePath : String
  storage : String
  deriving DecidableEq

namespace DeleteJob

def repository (job : DeleteJob) : Repository := (job.virtualStorage, job.relativePath)

/-- The job that is inserted. It has no source, which is read as an empty one. -/
def job (delete : DeleteJob) : ReplicationJob where
  repositoryID := delete.repositoryID
  change := .deleteReplica
  relativePath := delete.relativePath
  targetNodeStorage := delete.storage
  sourceNodeStorage := ""
  virtualStorage := delete.virtualStorage
  params := none

end DeleteJob

/-- A row of `update_jobs`. -/
structure UpdateJob where
  repositoryID : Int
  virtualStorage : String
  relativePath : String
  sourceNodeStorage : String
  targetNodeStorage : String
  deriving DecidableEq

namespace UpdateJob

def repository (job : UpdateJob) : Repository := (job.virtualStorage, job.relativePath)

def key (job : UpdateJob) : Repository × String := (job.repository, job.targetNodeStorage)

def job (update : UpdateJob) : ReplicationJob where
  repositoryID := update.repositoryID
  change := .update
  relativePath := update.relativePath
  targetNodeStorage := update.targetNodeStorage
  sourceNodeStorage := update.sourceNodeStorage
  virtualStorage := update.virtualStorage
  params := none

end UpdateJob

section query

variable (db : Database) (healthy : List (String × String))

/-- The replicas on storages that are not assigned, as long as nothing else is going on with
them. -/
def surplus : List DeleteJob :=
  db.store.storageRepositories.rows.filterMap (fun row =>
    (db.store.record row.repository).bind (fun record =>
      let assigned := assigned db.store row.repository
      let active := active db.queue row.repository
      if (row.virtualStorage, row.storage) ∈ healthy ∧
          (assigned ≠ [] ∧ row.storage ∉ assigned) ∧
          (minGeneration db.store row.repository).any (fun least => row.generation ≤ least) ∧
          (∀ job ∈ active,
            job.sourceNodeStorage ≠ row.storage ∧ job.targetNodeStorage ≠ row.storage) ∧
          ∀ job ∈ active, job.change ≠ .deleteReplica then
        some ⟨record.repositoryID, row.virtualStorage, row.relativePath, row.storage⟩
      else none))

/-- The replicas of repositories that do not exist any more. -/
def orphans : List DeleteJob :=
  (db.store.storageRepositories.rows.filter (fun row : StorageRow =>
    (row.virtualStorage, row.storage) ∈ healthy ∧ db.store.record row.repository = none ∧
      ∀ job ∈ active db.queue row.repository, job.change ≠ .deleteReplica)).map
    (fun row => ⟨0, row.virtualStorage, row.relativePath, row.storage⟩)

/-- `COALESCE(storage_repositories.generation != repositories.generation, true)` -/
def outdated (rs : PostgresRepositoryStore) (record : RepositoryRow) (storage : String) : Bool :=
  match rs.replica record.key storage, record.generation with
  | some generation, some latest => generation ≠ latest
  | _, _ => true

/-- The `unhealthy_repositories` of a repository. -/
def targets (record : RepositoryRow) : List String :=
  let assigned := assigned db.store record.key
  (healthy.filter (fun (virtualStorage, storage) =>
    virtualStorage = record.virtualStorage ∧ outdated db.store record storage ∧
      (assigned = [] ∨ storage ∈ assigned))).map Prod.snd

/-- The `healthy_repositories` of a repository. -/
def sources (record : RepositoryRow) : List String :=
  ((db.store.replicas record.key).filter (fun row =>
    (row.virtualStorage, row.storage) ∈ healthy ∧ record.generation = some row.generation ∧
      ∀ job ∈ active db.queue record.key,
        job.targetNodeStorage = row.storage → job.change ≠ .deleteReplica)).map StorageRow.storage

def updates : List UpdateJob :=
  db.store.repositories.rows.flatMap (fun record =>
    ((targets db healthy record).product (sources db healthy record)).filterMap
      (fun (target, source) =>
        if ∀ job ∈ active db.queue record.key, job.targetNodeStorage = target →
            job.change ≠ .update then
          some ⟨record.repositoryID, record.virtualStorage, record.relativePath, source, target⟩
        else none))

end query

/-- What a run takes from its surroundings: the healthy nodes, the clock, the random numbers
and the order in which it comes upon the rows. -/
structure Run where
  healthyNodes : List (String × List String)
  now : Timestamp
  correlationID : ReplicationJob → String
  updates : Sql.Scan UpdateJob
  surplus : Sql.Scan DeleteJob
  orphans : Sql.Scan DeleteJob

namespace Run

def ofHealthy (healthyNodes : List (String × List String)) : Run :=
  ⟨healthyNodes, 0, fun _ => "", .forward, .forward, .forward⟩

variable (run : Run) (db : Database)

def updateJobs : List UpdateJob :=
  run.updates.distinctOn UpdateJob.key
    (Reconciler.updates db (healthyStorages run.healthyNodes))

def deleteJobs : List DeleteJob :=
  run.surplus.distinctOn DeleteJob.repository
      (Reconciler.surplus db (healthyStorages run.healthyNodes)) ++
    run.orphans.distinctOn DeleteJob.repository
      (Reconciler.orphans db (healthyStorages run.healthyNodes))

def jobs : List ReplicationJob :=
  (run.updateJobs db).map UpdateJob.job ++ (run.deleteJobs db).map DeleteJob.job

def event (job : ReplicationJob) : ReplicationEvent :=
  ⟨job, some ⟨[("correlation_id", .string (run.correlationID job))], List.pairwise_singleton _ _⟩⟩

/-- The `reconciliation_jobs` of a run that has read one database and commits to another. -/
def commit (snapshot db : Database) : Database × Except QueueError (List EventRow) :=
  let inserted := db.queue.insertAll run.now ((run.jobs snapshot).map run.event)
  (⟨db.store, inserted.1, PostgresReplicationEventQueue.insertAll_ahead db.ahead _ _⟩, inserted.2)

/-- A run that nothing interferes with. -/
def reconcile : Database × Except QueueError (List EventRow) :=
  if healthyStorages run.healthyNodes = [] then (db, .ok []) else run.commit db db

end Run

theorem mem_active {rq : PostgresReplicationEventQueue} {repository : Repository}
    {job : ReplicationJob} :
    job ∈ active rq repository ↔
      ∃ row ∈ rq.queue, row.Active ∧ row.indexKey = repository ∧ row.job = job := by
  unfold active
  simp only [mem_map, mem_filter, decide_eq_true_eq, and_assoc]
  exact Iff.rfl

/-- No replica and no assignment is below the least generation. -/
theorem le_minGeneration {rs : PostgresRepositoryStore} {repository : Repository}
    {generation : Int} :
    (minGeneration rs repository).any (fun least => generation ≤ least) = true →
      (∀ storage current, rs.replica repository storage = some current → generation ≤ current) ∧
        ∀ storage ∈ assigned rs repository, rs.replica repository storage = none →
          generation ≤ -1 := by
  intro below
  rw [Option.any_eq_true] at below
  obtain ⟨least, minimal, le⟩ := below
  rw [decide_eq_true_iff] at le
  have lower := (min?_eq_some_iff.mp minimal).2
  constructor
  · intro storage current held
    obtain ⟨row, present, same, rfl⟩ := replica_eq_some.mp held
    refine le.trans (lower _ (mem_append_left _ (mem_map.mpr ⟨row, ?_, rfl⟩)))
    exact mem_replicas.mpr ⟨present, congrArg Prod.fst same⟩
  · intro storage member missing
    refine le.trans (lower _ (mem_append_right _ (mem_map.mpr ⟨storage, ?_, rfl⟩)))
    exact mem_filter.mpr ⟨member, decide_eq_true missing⟩

/-- A replica on a storage that is not assigned and not ahead of any that is. -/
structure Surplus (rs : PostgresRepositoryStore) (healthy : List (String × String))
    (job : DeleteJob) : Prop where
  record : ∃ record, rs.record job.repository = some record ∧ record.repositoryID = job.repositoryID
  healthy : (job.virtualStorage, job.storage) ∈ healthy
  assigned : assigned rs job.repository ≠ []
  unassigned : job.storage ∉ Reconciler.assigned rs job.repository
  replica : ∃ generation, rs.replica job.repository job.storage = some generation ∧
    (minGeneration rs job.repository).any (fun least => generation ≤ least) = true

structure Orphan (rs : PostgresRepositoryStore) (healthy : List (String × String))
    (job : DeleteJob) : Prop where
  record : rs.record job.repository = none
  repositoryID : job.repositoryID = 0
  healthy : (job.virtualStorage, job.storage) ∈ healthy
  replica : ∃ generation, rs.replica job.repository job.storage = some generation

/-- A storage that lacks the latest generation and another one that has it. -/
structure Outdated (rs : PostgresRepositoryStore) (healthy : List (String × String))
    (job : UpdateJob) : Prop where
  record : ∃ record, rs.record job.repository = some record ∧ record.repositoryID = job.repositoryID
  target : (job.virtualStorage, job.targetNodeStorage) ∈ healthy
  outdated : ∀ latest, rs.latest job.repository = some latest →
    rs.replica job.repository job.targetNodeStorage ≠ some latest
  assigned : assigned rs job.repository = [] ∨
    job.targetNodeStorage ∈ Reconciler.assigned rs job.repository
  source : (job.virtualStorage, job.sourceNodeStorage) ∈ healthy
  latest : ∃ latest, rs.latest job.repository = some latest ∧
    rs.replica job.repository job.sourceNodeStorage = some latest

section members

variable {db : Database} {healthy : List (String × String)} {delete : DeleteJob}

theorem mem_surplus :
    delete ∈ surplus db healthy ↔
      Surplus db.store healthy delete ∧ ∀ job ∈ active db.queue delete.repository,
        job.sourceNodeStorage ≠ delete.storage ∧ job.targetNodeStorage ≠ delete.storage ∧
          job.change ≠ .deleteReplica := by
  unfold surplus
  rw [mem_filterMap]
  constructor
  · intro found
    obtain ⟨row, present, selected⟩ := found
    obtain ⟨record, recorded, selected⟩ := Option.bind_eq_some_iff.mp selected
    dsimp only at selected
    split at selected
    · rename_i chosen
      cases selected
      obtain ⟨healthyRow, assignment, least, unused, unique⟩ := chosen
      refine ⟨⟨⟨record, recorded, rfl⟩, healthyRow, assignment.1, assignment.2, row.generation,
        replica_of_mem present, least⟩, ?_⟩
      exact fun job member => ⟨(unused job member).1, (unused job member).2, unique job member⟩
    · cases selected
  · intro candidate
    obtain ⟨⟨⟨record, recorded, same⟩, healthyRow, nonempty, unassigned, generation, held, least⟩,
      unused⟩ := candidate
    obtain ⟨row, present, key, rfl⟩ := replica_eq_some.mp held
    obtain ⟨repositoryID, virtual, path, storage⟩ := delete
    cases key
    refine ⟨row, present, Option.bind_eq_some_iff.mpr ⟨record, recorded, ?_⟩⟩
    rw [if_pos]
    · rw [same]
    · exact ⟨healthyRow, ⟨nonempty, unassigned⟩, least,
        fun job member => ⟨(unused job member).1, (unused job member).2.1⟩,
        fun job member => (unused job member).2.2⟩

theorem mem_orphans :
    delete ∈ orphans db healthy ↔
      Orphan db.store healthy delete ∧
        ∀ job ∈ active db.queue delete.repository, job.change ≠ .deleteReplica := by
  unfold orphans
  rw [mem_map]
  constructor
  · intro found
    obtain ⟨row, member, rfl⟩ := found
    obtain ⟨present, chosen⟩ := mem_filter.mp member
    obtain ⟨healthyRow, gone, unique⟩ := of_decide_eq_true chosen
    exact ⟨⟨gone, rfl, healthyRow, row.generation, replica_of_mem present⟩, unique⟩
  · intro candidate
    obtain ⟨⟨gone, zero, healthyRow, generation, held⟩, unique⟩ := candidate
    obtain ⟨row, present, key, rfl⟩ := replica_eq_some.mp held
    obtain ⟨repositoryID, virtual, path, storage⟩ := delete
    cases key
    refine ⟨row, mem_filter.mpr ⟨present, decide_eq_true ⟨healthyRow, gone, unique⟩⟩, ?_⟩
    dsimp only at zero
    rw [zero]

variable {record : RepositoryRow} {storage : String}

theorem outdated_iff {rs : PostgresRepositoryStore} :
    outdated rs record storage = true ↔
      ∀ latest, record.generation = some latest → rs.replica record.key storage ≠ some latest := by
  unfold outdated
  cases rs.replica record.key storage with
  | none => simp
  | some generation =>
    cases record.generation with
    | none => simp
    | some latest => simp

theorem mem_targets :
    storage ∈ targets db healthy record ↔
      (record.virtualStorage, storage) ∈ healthy ∧ outdated db.store record storage = true ∧
        (assigned db.store record.key = [] ∨ storage ∈ assigned db.store record.key) := by
  unfold targets
  rw [mem_map]
  constructor
  · intro found
    obtain ⟨⟨virtual, other⟩, member, rfl⟩ := found
    obtain ⟨present, chosen⟩ := mem_filter.mp member
    obtain ⟨rfl, rest⟩ := of_decide_eq_true chosen
    exact ⟨present, rest⟩
  · intro target
    refine ⟨(record.virtualStorage, storage), mem_filter.mpr ⟨target.1, ?_⟩, rfl⟩
    exact decide_eq_true ⟨rfl, target.2⟩

theorem mem_sources :
    storage ∈ sources db healthy record ↔
      (record.virtualStorage, storage) ∈ healthy ∧
        (∃ latest, record.generation = some latest ∧
          db.store.replica record.key storage = some latest) ∧
        ∀ job ∈ active db.queue record.key,
          job.targetNodeStorage = storage → job.change ≠ .deleteReplica := by
  unfold sources
  rw [mem_map]
  constructor
  · intro found
    obtain ⟨row, member, rfl⟩ := found
    obtain ⟨replica, chosen⟩ := mem_filter.mp member
    obtain ⟨present, named⟩ := mem_replicas.mp replica
    obtain ⟨healthyRow, current, unused⟩ := of_decide_eq_true chosen
    have same : row.virtualStorage = record.virtualStorage := congrArg Prod.fst named
    rw [same] at healthyRow
    refine ⟨healthyRow, ⟨row.generation, current, ?_⟩, unused⟩
    rw [← named]
    exact replica_of_mem present
  · intro source
    obtain ⟨healthyRow, ⟨latest, current, held⟩, unused⟩ := source
    obtain ⟨row, present, key, rfl⟩ := replica_eq_some.mp held
    have named : row.repository = record.key := congrArg Prod.fst key
    have same : row.virtualStorage = record.virtualStorage := congrArg Prod.fst named
    obtain rfl : row.storage = storage := congrArg Prod.snd key
    rw [← same] at healthyRow
    refine ⟨row, mem_filter.mpr ⟨?_, decide_eq_true ⟨healthyRow, current, unused⟩⟩, rfl⟩
    exact mem_replicas.mpr ⟨present, named⟩

theorem mem_updates {update : UpdateJob} :
    update ∈ updates db healthy ↔
      Outdated db.store healthy update ∧ ∀ job ∈ active db.queue update.repository,
        (job.targetNodeStorage = update.sourceNodeStorage → job.change ≠ .deleteReplica) ∧
          (job.targetNodeStorage = update.targetNodeStorage → job.change ≠ .update) := by
  unfold updates
  rw [mem_flatMap]
  constructor
  · intro found
    obtain ⟨record, present, selected⟩ := found
    obtain ⟨⟨target, source⟩, pair, selected⟩ := mem_filterMap.mp selected
    obtain ⟨isTarget, isSource⟩ := mem_product.mp pair
    obtain ⟨healthyTarget, outdatedTarget, assignment⟩ := mem_targets.mp isTarget
    obtain ⟨healthySource, ⟨latest, current, held⟩, unused⟩ := mem_sources.mp isSource
    obtain ⟨unique, selected⟩ := Option.ite_none_right_eq_some.mp selected
    cases selected
    have recorded : db.store.record record.key = some record := KeyedTable.find_key present
    have known : db.store.latest record.key = record.generation := by
      unfold PostgresRepositoryStore.latest
      rw [recorded]
      rfl
    refine ⟨⟨⟨record, recorded, rfl⟩, healthyTarget, ?_, assignment, healthySource, latest,
      known.trans current, held⟩, fun job member => ⟨unused job member, unique job member⟩⟩
    intro top isTop
    exact outdated_iff.mp outdatedTarget top (known.symm.trans isTop)
  · intro candidate
    obtain ⟨⟨⟨record, recorded, same⟩, healthyTarget, outdatedTarget, assignment, healthySource,
      latest, isLatest, held⟩, unused⟩ := candidate
    obtain ⟨present, key⟩ := KeyedTable.find_eq_some.mp recorded
    have known : db.store.latest record.key = record.generation := by
      unfold PostgresRepositoryStore.latest
      rw [key, recorded]
      rfl
    obtain ⟨repositoryID, virtual, path, source, target⟩ := update
    cases key
    refine ⟨record, present, mem_filterMap.mpr ⟨(target, source), ?_, ?_⟩⟩
    · refine mem_product.mpr ⟨mem_targets.mpr ⟨healthyTarget, outdated_iff.mpr ?_, assignment⟩,
        mem_sources.mpr ⟨healthySource, ⟨latest, known.symm.trans isLatest, held⟩,
          fun job member => (unused job member).1⟩⟩
      intro top isTop
      exact outdatedTarget top (known.trans isTop)
    · dsimp only
      rw [if_pos]
      · rw [same]
      · exact fun job member => (unused job member).2

end members

end Gitaly.Praefect.Reconciler
