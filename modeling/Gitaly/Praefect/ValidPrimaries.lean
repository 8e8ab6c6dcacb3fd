import Gitaly.Base.Sql
import Gitaly.Praefect.Elector

/- The view `valid_primaries`, as internal/praefect/datastore/migrations creates it in
20210525173505_valid_primaries_view.go and replaces it in
20210607124235_optimize_valid_primaries_view.go. -/
namespace Gitaly.Praefect.ValidPrimaries

open Datastore Sql Reconciler Truth List

/-- A row of `storage_repositories`. -/
structure StorageRepository where
  virtualStorage : Option String
  relativePath : Option String
  storage : Option String
  generation : Option Int
  deriving DecidableEq

/-- A row of `repository_generations`. -/
structure RepositoryGeneration where
  virtualStorage : Option String
  relativePath : Option String
  generation : Option Int

/-- A row of `healthy_storages`. -/
structure HealthyStorage where
  virtualStorage : Option String
  storage : Option String

/-- A row of `repository_assignments`. -/
structure RepositoryAssignment where
  virtualStorage : Option String
  relativePath : Option String
  storage : Option String

/-- A row of `replication_queue`, with what `->>` finds in its job. -/
structure QueuedJob where
  state : Option JobState
  change : Option String
  virtualStorage : Option String
  relativePath : Option String
  targetNodeStorage : Option String

/-- The relations that the view reads. -/
structure Relations where
  storageRepositories : List StorageRepository
  repositoryGenerations : List RepositoryGeneration
  healthyStorages : List HealthyStorage
  repositoryAssignments : List RepositoryAssignment
  replicationQueue : List QueuedJob

/-- A replica and the assignment that it is joined with. -/
structure Candidate where
  virtualStorage : Option String
  relativePath : Option String
  storage : Option String
  /-- `repository_assignments.storage` -/
  assignment : Option String
  deriving DecidableEq

namespace Candidate

variable (candidate : Candidate)

def row : Option String × Option String × Option String :=
  (candidate.virtualStorage, candidate.relativePath, candidate.storage)

def repository : Option String × Option String := (candidate.virtualStorage, candidate.relativePath)

def assigned : Bool := candidate.assignment.isSome

end Candidate

namespace Relations

variable (relations : Relations)

/-- `EXISTS` an unfinished job that deletes the replica. -/
def pendingDeletion (row : StorageRepository) : Bool :=
  relations.replicationQueue.any (fun event =>
    ((notIn event.state [some .completed, some .dead, some .cancelled]).conj
      ((eq event.change (some "delete_replica")).conj
        ((eq event.virtualStorage row.virtualStorage).conj
          ((eq event.relativePath row.relativePath).conj
            (eq event.targetNodeStorage row.storage))))).holds)

variable (row : StorageRepository)

def sameGeneration (latest : RepositoryGeneration) : Truth :=
  (eq row.virtualStorage latest.virtualStorage).conj
    ((eq row.relativePath latest.relativePath).conj (eq row.generation latest.generation))

def sameStorage (healthy : HealthyStorage) : Truth :=
  (eq row.virtualStorage healthy.virtualStorage).conj (eq row.storage healthy.storage)

def sameReplica (assignment : RepositoryAssignment) : Truth :=
  (eq row.virtualStorage assignment.virtualStorage).conj
    ((eq row.relativePath assignment.relativePath).conj (eq row.storage assignment.storage))

/-- The healthy replicas on the latest generation that are not about to be deleted, which both
views start from. -/
def candidates : List Candidate :=
  let latest := (join sameGeneration relations.storageRepositories
    relations.repositoryGenerations).map Prod.fst
  let healthy := (join sameStorage latest relations.healthyStorages).map Prod.fst
  let joined := (leftJoin sameReplica healthy relations.repositoryAssignments).filter
    (fun joined => !relations.pendingDeletion joined.1)
  joined.map (fun (row, assignment) =>
    ⟨row.virtualStorage, row.relativePath, row.storage,
      assignment.bind RepositoryAssignment.storage⟩)

/-- The view of 20210525173505: without an assigned candidate, every candidate will do. -/
def validPrimaries : List (Option String × Option String × Option String) :=
  let candidates := relations.candidates
  (candidates.filter (fun candidate =>
    (disj (some candidate.assigned) (some (!candidates.any (fun assignedCandidate =>
      (conj (some assignedCandidate.assigned)
        ((eq assignedCandidate.virtualStorage candidate.virtualStorage).conj
          (eq assignedCandidate.relativePath candidate.relativePath))).holds)))).holds)).map
    Candidate.row

/-- The view of 20210607124235. -/
def optimizedValidPrimaries :
    List (Option String × Option String × Option String) :=
  let eligible := window Candidate.repository
    (fun partition => boolAnd (partition.map (fun candidate => some (!candidate.assigned))))
    relations.candidates
  (eligible.filter (fun (candidate, unassigned) =>
    (disj (some candidate.assigned) unassigned).holds)).map
    (fun (candidate, _) => candidate.row)

variable {relations : Relations}

variable {candidate : Candidate}

theorem candidate_known (member : candidate ∈ relations.candidates) :
    ∃ virtual path,
      candidate.repository = (some virtual, some path) := by
  obtain ⟨⟨row, assignment⟩, joined, rfl⟩ := mem_map.mp member
  obtain ⟨present, -⟩ := mem_leftJoin.mp (mem_filter.mp joined).1
  obtain ⟨⟨replica, storage⟩, healthy, rfl⟩ := mem_map.mp present
  obtain ⟨present, -⟩ := mem_join.mp healthy
  obtain ⟨⟨replica, generation⟩, latest, rfl⟩ := mem_map.mp present
  obtain ⟨-, -, same⟩ := mem_join.mp latest
  simp only [sameGeneration, holds_conj, Bool.and_eq_true, holds_eq] at same
  obtain ⟨⟨virtual, isStorage, -⟩, ⟨path, isPath, -⟩, -⟩ := same
  exact ⟨virtual, path, Prod.ext isStorage isPath⟩

theorem same_repository_iff {candidate other : Candidate}
    (member : candidate ∈ relations.candidates) :
    (eq other.virtualStorage candidate.virtualStorage).holds = true ∧
        (eq other.relativePath candidate.relativePath).holds = true ↔
      other.repository = candidate.repository := by
  obtain ⟨virtual, path, known⟩ := candidate_known member
  obtain ⟨isStorage, isPath⟩ := Prod.mk.inj known
  simp [isStorage, isPath, holds_eq, Candidate.repository]

/-- No candidate for the same repository is assigned. -/
def Unassigned (relations : Relations) (candidate : Candidate) : Prop :=
  ∀ other ∈ relations.candidates, other.repository = candidate.repository → other.assigned = false

theorem notExists_iff (member : candidate ∈ relations.candidates) :
    (!relations.candidates.any (fun other => (conj (some other.assigned)
        ((eq other.virtualStorage candidate.virtualStorage).conj
          (eq other.relativePath candidate.relativePath))).holds)) = true ↔
      relations.Unassigned candidate := by
  simp only [Bool.not_eq_true', any_eq_false, holds_conj, holds_some,
    Bool.and_eq_true, same_repository_iff member]
  refine forall₂_congr (fun other _ => ?_)
  rw [not_and', Bool.not_eq_true]

theorem window_iff (member : candidate ∈ relations.candidates) :
    (boolAnd ((relations.candidates.filter
        (fun other => other.repository = candidate.repository)).map
          (fun other => some (!other.assigned)))).holds = true ↔
      relations.Unassigned candidate := by
  rw [holds_boolAnd_partition Candidate.repository (fun other => !other.assigned) member]
  simp only [Unassigned, Bool.not_eq_true']

/-- The view was replaced by one with the same rows. -/
theorem optimizedValidPrimaries_eq (relations : Relations) :
    relations.optimizedValidPrimaries = relations.validPrimaries := by
  unfold optimizedValidPrimaries validPrimaries window
  dsimp only
  rw [filter_map, map_map]
  congr 1
  apply filter_congr
  intro candidate member
  rw [Bool.eq_iff_iff]
  simp only [Function.comp_apply, holds_disj, holds_some, Bool.or_eq_true,
    notExists_iff member, window_iff member]

end Relations

end Gitaly.Praefect.ValidPrimaries
