import Gitaly.Base.KeyedTable
import Mathlib.Data.List.Dedup
import Mathlib.Data.List.MinMax
import Mathlib.Order.Lattice

/- The repository store of internal/praefect/datastore/repository_store.go, on the tables
that the migrations create. A statement is one step: what it reads is the state before it,
and a violated constraint undoes all of it. -/
namespace Gitaly.Datastore

/-- `GenerationUnknown` -/
def generationUnknown : Int := -1

/-- A virtual storage and a relative path. -/
abbrev Repository := String × String

instance instLawfulBEqRepository : LawfulBEq (String × String) := inferInstance

/-- A row of `repositories`. -/
structure RepositoryRow where
  repositoryID : Int
  virtualStorage : String
  relativePath : String
  generation : Option Int
  primary : Option String
  deriving DecidableEq

namespace RepositoryRow

variable (row : RepositoryRow)

def key : Repository := (row.virtualStorage, row.relativePath)

def setGeneration (generation : Option Int) (row : RepositoryRow) : RepositoryRow :=
  { row with generation := generation }

/-- `generation + 1`, which is NULL for NULL -/
def increment : RepositoryRow :=
  row.setGeneration (row.generation.map (fun generation => generation + 1))

theorem increment_key : row.increment.key = row.key := rfl

/-- The generation is raised to another one, never lowered. -/
def raise (generation : Int) (row : RepositoryRow) : RepositoryRow :=
  if row.generation.getD (-1) < generation then row.setGeneration (some generation) else row

theorem raise_key (generation : Int) (row : RepositoryRow) :
    (row.raise generation).key = row.key := by
  unfold raise
  split <;> rfl

def move (relativePath : String) (row : RepositoryRow) : RepositoryRow :=
  { row with relativePath := relativePath }

end RepositoryRow

/-- A row of `storage_repositories`. -/
structure StorageRow where
  virtualStorage : String
  relativePath : String
  storage : String
  generation : Int
  deriving DecidableEq

namespace StorageRow

variable (row : StorageRow)

def repository : Repository := (row.virtualStorage, row.relativePath)

def key : Repository × String := (row.repository, row.storage)

def setGeneration (generation : Int) (row : StorageRow) : StorageRow :=
  { row with generation := generation }

theorem setGeneration_key (generation : Int) (row : StorageRow) :
    (row.setGeneration generation).key = row.key := rfl

def increment : StorageRow := row.setGeneration (row.generation + 1)

theorem increment_key : row.increment.key = row.key := rfl

def move (relativePath : String) (row : StorageRow) : StorageRow :=
  { row with relativePath := relativePath }

end StorageRow

/-- A row of `repository_assignments`. -/
structure AssignmentRow where
  virtualStorage : String
  relativePath : String
  storage : String
  deriving DecidableEq

namespace AssignmentRow

def repository (row : AssignmentRow) : Repository := (row.virtualStorage, row.relativePath)

def key (row : AssignmentRow) : Repository × String := (row.repository, row.storage)

def move (relativePath : String) (row : AssignmentRow) : AssignmentRow :=
  { row with relativePath := relativePath }

end AssignmentRow

inductive RepositoryStoreError where
  /-- repository %q/%q not found -/
  | repositoryNotFound (virtualStorage relativePath : String)
  /-- write to outdated nodes -/
  | writeToOutdatedNodes
  /-- attempted downgrading %q -> %q -> %q from generation %d to %d -/
  | downgradeAttempted (virtualStorage relativePath storage : String)
      (currentGeneration attemptedGeneration : Int)
  /-- repository %q -> %q -> %q does not exist -/
  | repositoryNotExists (virtualStorage relativePath storage : String)
  /-- repository %q -> %q -> %q already exists -/
  | repositoryExists (virtualStorage relativePath storage : String)
  /-- repository id %d already in use -/
  | repositoryIDInUse (repositoryID : Int)
  /-- no rows were affected by the query -/
  | noRowsAffected
  | uniqueViolation
  | notNullViolation
  deriving DecidableEq

/-- The tables of the store. An assignment refers to its repository and follows it. -/
@[ext] structure PostgresRepositoryStore where
  repositories : KeyedTable RepositoryRow Repository RepositoryRow.key
  storageRepositories : KeyedTable StorageRow (Repository × String) StorageRow.key
  assignments : KeyedTable AssignmentRow (Repository × String) AssignmentRow.key
  deriving DecidableEq

namespace PostgresRepositoryStore

/-- The tables right after the migrations. -/
def empty : PostgresRepositoryStore := ⟨.empty, .empty, .empty⟩

variable (rs : PostgresRepositoryStore) (repository : Repository)

/-- The record of a repository on its virtual storage. -/
def record : Option RepositoryRow := rs.repositories.find repository

/-- `repositories.generation` -/
def latest : Option Int := (rs.record repository).bind RepositoryRow.generation

/-- The generation of a repository on a storage. -/
def replica (storage : String) : Option Int :=
  (rs.storageRepositories.find (repository, storage)).map StorageRow.generation

/-- The rows of a repository in `storage_repositories`. -/
def replicas : List StorageRow :=
  rs.storageRepositories.rows.filter (fun row => row.repository = repository)

variable (storages : List String)

/-- The `to_update` of `IncrementGeneration`. -/
def toUpdate (row : StorageRow) : Bool :=
  row.repository = repository ∧ row.storage ∈ storages ∧ rs.latest repository = some row.generation

def IncrementGeneration (virtualStorage relativePath primary : String) (secondaries : List String) :
    PostgresRepositoryStore × Except RepositoryStoreError Unit :=
  let repository := (virtualStorage, relativePath)
  let toUpdate := rs.toUpdate repository (secondaries ++ [primary])
  let repositoryUpdated := rs.storageRepositories.rows.any toUpdate
  if rs.record repository = none then (rs, .error (.repositoryNotFound virtualStorage relativePath))
  else if repositoryUpdated = false then (rs, .error .writeToOutdatedNodes)
  else
    ({ rs with
        storageRepositories := rs.storageRepositories.updateWhere toUpdate StorageRow.increment
          StorageRow.increment_key
        repositories := rs.repositories.modify repository RepositoryRow.increment
          RepositoryRow.increment_key }, .ok ())

def SetGeneration (virtualStorage relativePath storage : String)
    (generation : Int) : PostgresRepositoryStore :=
  { rs with
    repositories := rs.repositories.modify (virtualStorage, relativePath)
      (RepositoryRow.raise generation) (RepositoryRow.raise_key generation)
    storageRepositories := rs.storageRepositories.upsert
      ⟨virtualStorage, relativePath, storage, generation⟩ (StorageRow.setGeneration generation)
      (StorageRow.setGeneration_key generation) }

/-- A generation that is NULL stays NULL, which no replica can have. -/
def SetAuthoritativeReplica (virtualStorage relativePath storage : String) :
    PostgresRepositoryStore × Except RepositoryStoreError Unit :=
  match rs.record (virtualStorage, relativePath) with
  | none => (rs, .error (.repositoryNotFound virtualStorage relativePath))
  | some record =>
    match record.increment.generation with
    | none => (rs, .error .notNullViolation)
    | some generation =>
      ({ rs with
          repositories := rs.repositories.modify (virtualStorage, relativePath)
            RepositoryRow.increment RepositoryRow.increment_key
          storageRepositories := rs.storageRepositories.upsert
            ⟨virtualStorage, relativePath, storage, generation⟩
            (StorageRow.setGeneration generation)
            (StorageRow.setGeneration_key generation) }, .ok ())

/-- One iteration of the loop of `GetReplicatedGeneration`, on the generations of the source
and of the target. -/
def readGeneration (source target : String) (generations : Int × Int) (row : StorageRow) :
    Int × Int :=
  if row.storage = source then (row.generation, generations.2)
  else if row.storage = target then (generations.1, row.generation)
  else generations

def GetReplicatedGeneration
    (virtualStorage relativePath source target : String) : Except RepositoryStoreError Int :=
  let rows := (rs.replicas (virtualStorage, relativePath)).filter
    (fun row => row.storage ∈ [source, target])
  let (sourceGeneration, targetGeneration) :=
    rows.foldl (readGeneration source target) (generationUnknown, generationUnknown)
  if targetGeneration ≠ generationUnknown ∧ targetGeneration ≥ sourceGeneration then
    .error (.downgradeAttempted virtualStorage relativePath target targetGeneration
      sourceGeneration)
  else .ok sourceGeneration

/-- The primary key of `repositories` is checked after its lookup index, and the main
statement runs ahead of the others. -/
def CreateRepository (repositoryID : Int) (virtualStorage relativePath primary : String)
    (updatedSecondaries outdatedSecondaries : List String) (storePrimary storeAssignments : Bool) :
    PostgresRepositoryStore × Except RepositoryStoreError Unit :=
  let record : RepositoryRow :=
    ⟨repositoryID, virtualStorage, relativePath, some 0,
      if storePrimary then some primary else none⟩
  let updatedStorages := (primary :: updatedSecondaries).dedup
  let assignedStorages :=
    if storeAssignments then (primary :: updatedSecondaries ++ outdatedSecondaries).dedup else []
  let existsError := RepositoryStoreError.repositoryExists virtualStorage relativePath primary
  match rs.storageRepositories.insertAll
      (updatedStorages.map (fun storage => ⟨virtualStorage, relativePath, storage, 0⟩)) with
  | none => (rs, .error existsError)
  | some storageRepositories =>
    if fresh : record.key ∉ rs.repositories.keys then
      if repositoryID ∈ rs.repositories.rows.map RepositoryRow.repositoryID then
        (rs, .error (.repositoryIDInUse repositoryID))
      else
        match rs.assignments.insertAll
            (assignedStorages.map (fun storage => ⟨virtualStorage, relativePath, storage⟩)) with
        | none => (rs, .error existsError)
        | some assignments =>
          (⟨rs.repositories.insert record fresh, storageRepositories, assignments⟩, .ok ())
    else (rs, .error existsError)

/-- The record goes with the assignments that refer to it. -/
def deleteRecord : PostgresRepositoryStore :=
  { rs with
    repositories := rs.repositories.delete (fun row => row.key = repository)
    assignments := rs.assignments.delete (fun row => row.repository = repository) }

def deleteReplicas : PostgresRepositoryStore :=
  { rs with
    storageRepositories := rs.storageRepositories.delete
      (fun row => row.repository = repository ∧ row.storage ∈ storages) }

/-- The result of `delete`, by the rows of `storage_repositories` that a query affects. -/
def affected : Except RepositoryStoreError Unit :=
  if (rs.replicas repository).any (fun row => row.storage ∈ storages) then .ok ()
  else .error .noRowsAffected

def DeleteRepository (virtualStorage relativePath : String)
    (storages : List String) : PostgresRepositoryStore × Except RepositoryStoreError Unit :=
  ((rs.deleteRecord (virtualStorage, relativePath)).deleteReplicas (virtualStorage, relativePath)
    storages, rs.affected (virtualStorage, relativePath) storages)

def DeleteReplica (virtualStorage relativePath storage : String) :
    PostgresRepositoryStore × Except RepositoryStoreError Unit :=
  (rs.deleteReplicas (virtualStorage, relativePath) [storage],
    rs.affected (virtualStorage, relativePath) [storage])

/-- The record is renamed even if the storage turns out to have no replica. -/
def RenameRepository (virtualStorage relativePath storage newRelativePath : String) :
    PostgresRepositoryStore × Except RepositoryStoreError Unit :=
  let repository := (virtualStorage, relativePath)
  let repositories := rs.repositories.rekey (fun row =>
    if row.key = repository then row.move newRelativePath else row)
  let storageRepositories := rs.storageRepositories.rekey (fun row =>
    if row.key = (repository, storage) then row.move newRelativePath else row)
  let assignments := rs.assignments.rekey (fun row =>
    if row.repository = repository then row.move newRelativePath else row)
  match repositories, storageRepositories, assignments with
  | some repositories, some storageRepositories, some assignments =>
    (⟨repositories, storageRepositories, assignments⟩,
      if (rs.replica repository storage).isSome then .ok ()
      else .error (.repositoryNotExists virtualStorage relativePath storage))
  | _, _, _ => (rs, .error .uniqueViolation)

/-- The rows that `GetConsistentStorages` scans. -/
def consistentStorages : List String :=
  let maxGeneration := ((rs.replicas repository).map StorageRow.generation).max?
  if (rs.record repository).isSome then
    ((rs.replicas repository).filter (fun row => some row.generation = maxGeneration)).map
      StorageRow.storage
  else []

def GetConsistentStorages (virtualStorage relativePath : String) :
    Except RepositoryStoreError (List String) :=
  let consistentStorages := rs.consistentStorages (virtualStorage, relativePath)
  if consistentStorages.length = 0 then .error (.repositoryNotFound virtualStorage relativePath)
  else .ok consistentStorages

def RepositoryExists (virtualStorage relativePath : String) : Bool :=
  (rs.record (virtualStorage, relativePath)).isSome

/-- The record goes with the replica if no other storage has one. -/
def DeleteInvalidRepository
    (virtualStorage relativePath storage : String) : PostgresRepositoryStore :=
  let repository := (virtualStorage, relativePath)
  let remaining := rs.deleteReplicas repository [storage]
  if (rs.replicas repository).any (fun row => row.storage ≠ storage) then remaining
  else remaining.deleteRecord repository

def GetRepositoryID (virtualStorage relativePath : String) : Except RepositoryStoreError Int :=
  match rs.record (virtualStorage, relativePath) with
  | none => .error (.repositoryNotFound virtualStorage relativePath)
  | some record => .ok record.repositoryID

end PostgresRepositoryStore

end Gitaly.Datastore
