import Gitaly.Praefect.Reconciler
import Gitaly.Praefect.Router

/- What a mutator is routed by: the primary that internal/praefect/nodes/per_repository.go
elects, and the assignments of internal/praefect/datastore/assignment.go. -/
namespace Gitaly.Praefect

open Datastore List
open Reconciler (Database active assigned)

/-- The view `valid_primaries`, for one repository: a replica that is pending deletion could
accept a write and lose it. -/
def validPrimaries (db : Database) (healthy : List (String × String)) (repository : Repository) :
    List String :=
  let replicas := db.store.replicas repository
  let generation := (replicas.map StorageRow.generation).max?
  let assigned := assigned db.store repository
  let candidates := (replicas.filter (fun row =>
    some row.generation = generation ∧ (row.virtualStorage, row.storage) ∈ healthy ∧
      ∀ job ∈ active db.queue repository,
        job.targetNodeStorage = row.storage → job.change ≠ .deleteReplica)).map StorageRow.storage
  candidates.filter (fun storage =>
    storage ∈ assigned ∨ ∀ candidate ∈ candidates, candidate ∉ assigned)

inductive ElectorError where
  /-- repository %q/%q not found -/
  | repositoryNotFound (virtualStorage relativePath : String)
  /-- no primary -/
  | noPrimary
  deriving DecidableEq

def setPrimary (primary : Option String) (row : RepositoryRow) : RepositoryRow :=
  { row with primary := primary }

theorem setPrimary_key (primary : Option String) (row : RepositoryRow) :
    (setPrimary primary row).key = row.key := rfl

/-- The first one of the valid primaries in a random order. -/
def GetPrimary (db : Database) (healthy : List (String × String)) (random : Sql.Scan String)
    (virtualStorage relativePath : String) : Database × Except ElectorError String :=
  match db.store.record (virtualStorage, relativePath) with
  | none => (db, .error (.repositoryNotFound virtualStorage relativePath))
  | some record =>
    let valid := validPrimaries db healthy (virtualStorage, relativePath)
    match record.primary.filter (fun primary => primary ∈ valid) with
    | some primary => (db, .ok primary)
    | none =>
      let elected := (random.order valid).head?
      let store := { db.store with
        repositories := db.store.repositories.modify (virtualStorage, relativePath)
          (setPrimary elected) (setPrimary_key elected) }
      ({ db with store := store },
        match elected with
        | none => .error .noPrimary
        | some primary => .ok primary)

/-- An election is about the primary only. -/
structure Elects (db after : Database) : Prop where
  queue : after.queue = db.queue
  latest : ∀ repository, after.store.latest repository = db.store.latest repository
  replica : ∀ repository storage,
    after.store.replica repository storage = db.store.replica repository storage

theorem GetPrimary_elects (db : Database) (healthy : List (String × String))
    (random : Sql.Scan String) (virtual path : String) :
    Elects db (GetPrimary db healthy random virtual path).1 := by
  unfold GetPrimary
  split
  · exact ⟨rfl, fun _ => rfl, fun _ _ => rfl⟩
  dsimp only
  split
  · exact ⟨rfl, fun _ => rfl, fun _ _ => rfl⟩
  refine ⟨rfl, ?_, fun _ _ => rfl⟩
  intro repository
  unfold PostgresRepositoryStore.latest PostgresRepositoryStore.record
  rw [KeyedTable.find_modify]
  split
  · rename_i same
    rw [same]
    cases db.store.repositories.find (virtual, path) with
    | none | some => rfl
  · rfl

section eligible

variable (db : Database) (healthy : List (String × String)) (repository : Repository)

/-- A healthy replica on the latest generation that is not about to be deleted. -/
def Electable (row : StorageRow) : Prop :=
  some row.generation = ((db.store.replicas row.repository).map StorageRow.generation).max? ∧
    (row.virtualStorage, row.storage) ∈ healthy ∧
    ∀ job ∈ active db.queue row.repository,
      job.targetNodeStorage = row.storage → job.change ≠ .deleteReplica

/-- A storage that is not assigned is the primary only if no electable one is assigned. -/
def Eligible (storage : String) : Prop :=
  ∃ row ∈ db.store.storageRepositories, Electable db healthy row ∧
    (row.storage ∈ assigned db.store row.repository ∨
      ∀ other ∈ db.store.storageRepositories, Electable db healthy other →
        other.repository = row.repository → other.storage ∉ assigned db.store other.repository) ∧
    row.repository = repository ∧ row.storage = storage

variable {db healthy repository}

theorem mem_validPrimaries {storage : String} :
    storage ∈ validPrimaries db healthy repository ↔ Eligible db healthy repository storage := by
  unfold validPrimaries
  simp only [mem_filter, mem_map, PostgresRepositoryStore.mem_replicas,
    decide_eq_true_eq]
  constructor
  · intro found
    obtain ⟨⟨row, ⟨⟨present, rfl⟩, electable⟩, rfl⟩, eligible⟩ := found
    refine ⟨row, present, electable, eligible.imp_right (fun none => ?_), rfl, rfl⟩
    intro other isRow isElectable same
    rw [Electable, same] at isElectable
    rw [same]
    exact none other.storage ⟨other, ⟨⟨isRow, same⟩, isElectable⟩, rfl⟩
  · intro found
    obtain ⟨row, present, electable, eligible, rfl, rfl⟩ := found
    refine ⟨⟨row, ⟨⟨present, rfl⟩, electable⟩, rfl⟩, eligible.imp_right (fun none => ?_)⟩
    rintro _ ⟨other, ⟨⟨isRow, same⟩, isElectable⟩, rfl⟩
    rw [← same] at isElectable ⊢
    exact none other isRow isElectable same

end eligible

section election

variable {db : Database} {healthy : List (String × String)} {random : Sql.Scan String}
  {virtual path primary : String}

theorem GetPrimary_keeps {record : RepositoryRow}
    (recorded : db.store.record (virtual, path) = some record)
    (current : record.primary = some primary)
    (valid : primary ∈ validPrimaries db healthy (virtual, path)) :
    GetPrimary db healthy random virtual path = (db, .ok primary) := by
  unfold GetPrimary
  simp only [recorded, current, Option.filter_some, decide_eq_true valid, if_true]

theorem GetPrimary_ok
    (returned : (GetPrimary db healthy random virtual path).2 = .ok primary) :
    primary ∈ validPrimaries db healthy (virtual, path) ∧
      ∀ order, GetPrimary (GetPrimary db healthy random virtual path).1 healthy order
          virtual path =
        ((GetPrimary db healthy random virtual path).1, .ok primary) := by
  unfold GetPrimary at returned
  split at returned
  · cases returned
  rename_i record recorded
  dsimp only at returned
  split at returned
  · rename_i current kept
    cases returned
    obtain ⟨isCurrent, valid⟩ := Option.filter_eq_some_iff.mp kept
    have valid := of_decide_eq_true valid
    rw [GetPrimary_keeps recorded isCurrent valid]
    exact ⟨valid, fun order => GetPrimary_keeps recorded isCurrent valid⟩
  rename_i outvoted
  split at returned
  · cases returned
  rename_i first
  cases returned
  have valid := (random.perm _).mem_iff.mp (mem_of_head? first)
  have result : GetPrimary db healthy random virtual path =
      ({ db with store := { db.store with
          repositories := db.store.repositories.modify (virtual, path)
            (setPrimary (some primary)) (setPrimary_key (some primary)) } }, .ok primary) := by
    unfold GetPrimary
    simp only [recorded, outvoted, first]
  have changed : (db.store.repositories.modify (virtual, path)
      (setPrimary (some primary)) (setPrimary_key (some primary))).find
        (virtual, path) = some (setPrimary (some primary) record) := by
    rw [KeyedTable.find_modify, if_pos rfl]
    exact congrArg (Option.map _) recorded
  rw [result]
  exact ⟨valid, fun order => GetPrimary_keeps changed rfl valid⟩

theorem GetPrimary_noPrimary
    (returned : (GetPrimary db healthy random virtual path).2 = .error .noPrimary) :
    validPrimaries db healthy (virtual, path) = [] := by
  unfold GetPrimary at returned
  split at returned
  · cases returned
  dsimp only at returned
  split at returned
  · cases returned
  split at returned
  · rename_i none
    exact ((random.perm _).symm.trans (by rw [head?_eq_none_iff.mp none])).eq_nil
  · cases returned

/-- The primary is eligible, and whoever asks next gets the same one. There is none only if no
storage is eligible, and it is not changed while it is eligible. -/
theorem GetPrimary_eligible (db : Database) (healthy : List (String × String))
    (random : Sql.Scan String) (virtualStorage relativePath : String) :
    let repository := (virtualStorage, relativePath)
    let result := GetPrimary db healthy random virtualStorage relativePath
    (∀ primary, result.2 = .ok primary → Eligible db healthy repository primary ∧
        ∀ order, GetPrimary result.1 healthy order virtualStorage relativePath =
          (result.1, .ok primary)) ∧
      (result.2 = .error .noPrimary → ∀ storage, ¬ Eligible db healthy repository storage) ∧
      ∀ record primary, db.store.record repository = some record →
        record.primary = some primary → Eligible db healthy repository primary →
        result = (db, .ok primary) := by
  refine ⟨?_, ?_, ?_⟩
  · intro primary returned
    obtain ⟨valid, again⟩ := GetPrimary_ok returned
    exact ⟨mem_validPrimaries.mp valid, again⟩
  · intro failed storage eligible
    have valid := mem_validPrimaries.mpr eligible
    rw [GetPrimary_noPrimary failed] at valid
    cases valid
  · intro record primary recorded current eligible
    exact GetPrimary_keeps recorded current (mem_validPrimaries.mpr eligible)

end election

inductive AssignmentError where
  /-- virtual storage %q not found -/
  | virtualStorageNotFound (virtualStorage : String)
  deriving DecidableEq

/-- Without an assignment, all configured storages are assigned. -/
def GetHostAssignments (rs : PostgresRepositoryStore)
    (configuredStorages : String → Option (List String)) (virtualStorage relativePath : String) :
    Except AssignmentError (List String) :=
  match configuredStorages virtualStorage with
  | none => .error (.virtualStorageNotFound virtualStorage)
  | some configured =>
    let assignedStorages := (assigned rs (virtualStorage, relativePath)).filter (fun storage =>
      storage ∈ configured)
    .ok (if assignedStorages.length = 0 then configured else assignedStorages)

end Gitaly.Praefect
