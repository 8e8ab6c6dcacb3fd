import Gitaly.Base.Runs
import Gitaly.Datastore.RepositoryStoreViews
import Gitaly.Datastore.ReplicationJob
import Mathlib.Logic.Function.Basic

/- The replicator of internal/praefect/replicator.go at work on one repository, next to the
mutators of the repository, its removal and its creation. The store and the storages are
touched one step at a time. -/
namespace Gitaly.Praefect

open Datastore PostgresRepositoryStore Option

inductive ReplicatorError where
  | removeRepository (cause : String)
  | store (cause : RepositoryStoreError)
  /-- unknown change type: %q -/
  | unknownChangeType (change : ChangeType)
  deriving DecidableEq

/-- A replica without a store entry is deleted all the same. -/
def tolerate (result : PostgresRepositoryStore × Except RepositoryStoreError Unit) :
    PostgresRepositoryStore × Except ReplicatorError Unit :=
  match result.2 with
  | .error .noRowsAffected => (result.1, .ok ())
  | .error err => (result.1, .error (.store err))
  | .ok () => (result.1, .ok ())

/-- `defaultReplicator.Destroy`, by what the storage answers to `RemoveRepository`. -/
def Destroy (rs : PostgresRepositoryStore) (job : ReplicationJob) (removed : Except String Unit) :
    PostgresRepositoryStore × Except ReplicatorError Unit :=
  match removed with
  | .error cause => (rs, .error (.removeRepository cause))
  | .ok () =>
    match job.change with
    | .delete =>
      tolerate (rs.DeleteRepository job.virtualStorage job.relativePath [job.targetNodeStorage])
    | .deleteReplica =>
      tolerate (rs.DeleteReplica job.virtualStorage job.relativePath job.targetNodeStorage)
    | change => (rs, .error (.unknownChangeType change))

theorem tolerate_store (result : PostgresRepositoryStore × Except RepositoryStoreError Unit) :
    (tolerate result).1 = result.1 := by
  unfold tolerate
  split <;> rfl

namespace Replication

/-- How far a call of `defaultReplicator.Replicate` has come. -/
inductive Stage where
  /-- The generation has been read. -/
  | read
  /-- The copy has begun, with the source as it was then. -/
  | copying (snapshot : List Nat)
  | copied
  deriving DecidableEq

structure Replicate where
  source : String
  target : String
  generation : Int
  stage : Stage
  deriving DecidableEq

/-- A mutator that is not finished yet, and the storages where it has applied its write. -/
structure Mutator where
  write : Nat
  applied : List String
  deriving DecidableEq

structure World where
  store : PostgresRepositoryStore
  /-- The writes in the repository on each storage. -/
  disk : String → List Nat
  mutators : List Mutator
  replicates : List Replicate
  /-- The writes that `IncrementGeneration` has recorded, each with its generation. -/
  recorded : List (Nat × Int)

inductive Event where
  | create (repositoryID : Int) (primary : String)
      (updatedSecondaries outdatedSecondaries : List String) (storePrimary storeAssignments : Bool)
  | delete (storages : List String)
  | begin (write : Nat)
  | apply (mutator : Nat) (storage : String)
  | increment (mutator : Nat) (primary : String) (secondaries : List String)
  | getReplicatedGeneration (source target : String)
  | copyBegin (replicate : Nat)
  | copyEnd (replicate : Nat) (content : List Nat)
  | invalidSource (replicate : Nat)
  | setGeneration (replicate : Nat)
  | abort (replicate : Nat)

namespace World

def start (store : PostgresRepositoryStore) (disk : String → List Nat) : World :=
  ⟨store, disk, [], [], []⟩

variable (virtualStorage relativePath : String)

/-- The write is recorded with the generation that its replicas are raised to. -/
def record (w : World) (write : Nat) : List (Nat × Int) :=
  match w.store.latest (virtualStorage, relativePath) with
  | none => w.recorded
  | some generation => (write, generation) :: w.recorded

/-- The last statement of `Replicate`. -/
def finish (rs : PostgresRepositoryStore) (replicate : Replicate) : PostgresRepositoryStore :=
  if replicate.generation ≠ generationUnknown then
    rs.SetGeneration virtualStorage relativePath replicate.target replicate.generation
  else rs

/-- A copy from a storage to itself is refused by the storage, after `Replicate` has read the
generation and before it has changed anything. -/
def step (w : World) : Event → Option World
  | .create repositoryID primary updatedSecondaries outdatedSecondaries storePrimary
      storeAssignments =>
        some { w with
          store := (w.store.CreateRepository repositoryID virtualStorage relativePath primary
            updatedSecondaries outdatedSecondaries storePrimary storeAssignments).1 }
  | .delete storages =>
    some { w with
      store := (w.store.DeleteRepository virtualStorage relativePath storages).1
      disk := fun storage => if storage ∈ storages then [] else w.disk storage }
  | .begin write => some { w with mutators := w.mutators ++ [⟨write, []⟩] }
  | .apply mutator storage =>
    (w.mutators[mutator]?).map (fun m =>
      { w with
        disk := Function.update w.disk storage (m.write :: w.disk storage)
        mutators := w.mutators.set mutator { m with applied := storage :: m.applied } })
  | .increment mutator primary secondaries =>
    (w.mutators[mutator]?).bind (fun m =>
      if primary ∈ m.applied ∧ ∀ secondary ∈ secondaries, secondary ∈ m.applied then
        let done := { w with mutators := w.mutators.eraseIdx mutator }
        match w.store.IncrementGeneration virtualStorage relativePath primary secondaries with
        | (store, .ok ()) =>
          let raised := { done with store := store }
          some { raised with recorded := raised.record virtualStorage relativePath m.write }
        | (_, .error _) => some done
      else none)
  | .getReplicatedGeneration source target =>
    if source = target then some w
    else
      match w.store.GetReplicatedGeneration virtualStorage relativePath source target with
      | .ok generation =>
        some { w with replicates := w.replicates ++ [⟨source, target, generation, .read⟩] }
      | .error _ => some w
  | .copyBegin replicate =>
    (w.replicates[replicate]?).bind (fun r =>
      if r.stage = .read then
        some { w with
          replicates := w.replicates.set replicate { r with stage := .copying (w.disk r.source) } }
      else none)
  | .copyEnd replicate content =>
    (w.replicates[replicate]?).bind (fun r =>
      match r.stage with
      | .copying snapshot =>
        if snapshot ⊆ content then
          some { w with
            disk := Function.update w.disk r.target content
            replicates := w.replicates.set replicate { r with stage := .copied } }
        else none
      | _ => none)
  | .invalidSource replicate =>
    (w.replicates[replicate]?).bind (fun r =>
      if r.stage = .copied then none
      else
        some { w with
          store := w.store.DeleteInvalidRepository virtualStorage relativePath r.source
          replicates := w.replicates.eraseIdx replicate })
  | .setGeneration replicate =>
    (w.replicates[replicate]?).bind (fun r =>
      if r.stage = .copied then
        some { w with
          store := finish virtualStorage relativePath w.store r
          replicates := w.replicates.eraseIdx replicate }
      else none)
  | .abort replicate =>
    (w.replicates[replicate]?).map (fun _ =>
      { w with replicates := w.replicates.eraseIdx replicate })

/-- What a step can do. -/
inductive Moves (w : World) : Event → World → Prop
  | refused {event : Event} : Moves w event w
  | created {repositoryID : Int} {primary : String}
      {updatedSecondaries outdatedSecondaries : List String} {storePrimary storeAssignments : Bool}
      {store : PostgresRepositoryStore} {stored : Option String}
      (creates : Creates w.store store repositoryID
        (virtualStorage, relativePath) stored (primary :: updatedSecondaries)) :
      Moves w (.create repositoryID primary updatedSecondaries outdatedSecondaries storePrimary
        storeAssignments) { w with store := store }
  | deleted {storages : List String} {store : PostgresRepositoryStore}
      {disk : String → List Nat}
      (record : store.record (virtualStorage, relativePath) = none)
      (replica : ∀ storage generation,
        store.replica (virtualStorage, relativePath) storage = some generation →
        w.store.replica (virtualStorage, relativePath) storage = some generation) :
      Moves w (.delete storages) { w with store := store, disk := disk }
  | begun {write : Nat} :
      Moves w (.begin write) { w with mutators := w.mutators ++ [⟨write, []⟩] }
  | applied {mutator : Nat} {storage : String} {m : Mutator}
      (found : w.mutators[mutator]? = some m) :
      Moves w (.apply mutator storage)
        { w with
          disk := Function.update w.disk storage (m.write :: w.disk storage)
          mutators := w.mutators.set mutator { m with applied := storage :: m.applied } }
  | failed {mutator : Nat} {primary : String} {secondaries : List String} :
      Moves w (.increment mutator primary secondaries)
        { w with mutators := w.mutators.eraseIdx mutator }
  | raised {mutator : Nat} {primary : String} {secondaries : List String} {m : Mutator}
      {store : PostgresRepositoryStore} {generation : Int}
      (found : w.mutators[mutator]? = some m)
      (applied : ∀ storage ∈ secondaries ++ [primary], storage ∈ m.applied)
      (raises : Raises w.store store (virtualStorage, relativePath)
        (secondaries ++ [primary]) generation) :
      Moves w (.increment mutator primary secondaries)
        { w with
          store := store
          mutators := w.mutators.eraseIdx mutator
          recorded := (m.write, generation + 1) :: w.recorded }
  | read {source target : String} {generation : Int} (different : source ≠ target)
      (returned : w.store.GetReplicatedGeneration virtualStorage relativePath source target =
        .ok generation) :
      Moves w (.getReplicatedGeneration source target)
        { w with replicates := w.replicates ++ [⟨source, target, generation, .read⟩] }
  | copying {replicate : Nat} {r : Replicate} (found : w.replicates[replicate]? = some r)
      (stage : r.stage = .read) :
      Moves w (.copyBegin replicate)
        { w with
          replicates := w.replicates.set replicate { r with stage := .copying (w.disk r.source) } }
  | copied {replicate : Nat} {content snapshot : List Nat} {r : Replicate}
      (found : w.replicates[replicate]? = some r) (stage : r.stage = .copying snapshot)
      (sub : snapshot ⊆ content) :
      Moves w (.copyEnd replicate content)
        { w with
          disk := Function.update w.disk r.target content
          replicates := w.replicates.set replicate { r with stage := .copied } }
  | invalid {replicate : Nat} {store : PostgresRepositoryStore}
      (record : store.record (virtualStorage, relativePath) =
          w.store.record (virtualStorage, relativePath) ∨
        store.record (virtualStorage, relativePath) = none)
      (replica : ∀ storage generation,
        store.replica (virtualStorage, relativePath) storage = some generation →
        w.store.replica (virtualStorage, relativePath) storage = some generation) :
      Moves w (.invalidSource replicate)
        { w with store := store, replicates := w.replicates.eraseIdx replicate }
  | finished {replicate : Nat} {r : Replicate} (found : w.replicates[replicate]? = some r)
      (stage : r.stage = .copied) :
      Moves w (.setGeneration replicate)
        { w with
          store := finish virtualStorage relativePath w.store r
          replicates := w.replicates.eraseIdx replicate }
  | aborted {replicate : Nat} :
      Moves w (.abort replicate) { w with replicates := w.replicates.eraseIdx replicate }

variable {virtualStorage relativePath} {w next : World}

theorem record_raises {store : PostgresRepositoryStore} {storages : List String} {generation : Int}
    (raises : Raises w.store store (virtualStorage, relativePath) storages
      generation) {mutators : List Mutator} {write : Nat} :
    record virtualStorage relativePath { w with store := store, mutators := mutators } write =
      (write, generation + 1) :: w.recorded := by
  unfold record
  rw [raises.latest_after, if_pos rfl]

theorem step_moves {event : Event} (taken : w.step virtualStorage relativePath event = some next) :
    Moves virtualStorage relativePath w event next := by
  cases event with
  | create repositoryID primary updatedSecondaries outdatedSecondaries storePrimary
      storeAssignments =>
      cases taken
      rcases CreateRepository_cases w.store repositoryID virtualStorage
        relativePath primary updatedSecondaries outdatedSecondaries storePrimary
        storeAssignments with ⟨_, refused⟩ | ⟨after, created, creates⟩
      · rw [refused]
        exact .refused
      · rw [created]
        exact .created creates
  | delete storages =>
    cases taken
    refine .deleted ?_ ?_
    · simp [DeleteRepository]
    · intro storage generation held
      simp only [DeleteRepository,
        deleteReplicas_replica,
        deleteRecord_replica] at held
      split at held
      · cases held
      · exact held
  | begin write =>
    cases taken
    exact .begun
  | apply mutator storage =>
    obtain ⟨m, found, rfl⟩ := map_eq_some_iff.mp taken
    exact .applied found
  | increment mutator primary secondaries =>
    obtain ⟨m, found, applied, taken⟩ := Runs.guarded taken
    rcases IncrementGeneration_cases w.store virtualStorage
      relativePath primary secondaries with ⟨_, refused⟩ | ⟨after, generation, raised, raises⟩
    · rw [refused] at taken
      cases taken
      exact .failed
    · rw [raised] at taken
      dsimp only at taken
      rw [record_raises raises] at taken
      cases taken
      refine .raised found ?_ raises
      intro storage member
      rcases List.mem_append.mp member with secondary | last
      · exact applied.2 storage secondary
      · rw [List.mem_singleton.mp last]
        exact applied.1
  | getReplicatedGeneration source target =>
    change (if source = target then _ else _) = _ at taken
    split at taken
    · cases taken
      exact .refused
    rename_i different
    split at taken
    · rename_i generation returned
      cases taken
      exact .read different returned
    · cases taken
      exact .refused
  | copyBegin replicate =>
    obtain ⟨r, found, stage, taken⟩ := Runs.guarded taken
    cases taken
    exact .copying found stage
  | copyEnd replicate content =>
    obtain ⟨r, found, taken⟩ := bind_eq_some_iff.mp taken
    split at taken
    · rename_i snapshot stage
      split at taken
      · rename_i sub
        cases taken
        exact .copied found stage sub
      · cases taken
    · cases taken
  | invalidSource replicate =>
    obtain ⟨r, found, taken⟩ := bind_eq_some_iff.mp taken
    split at taken
    · cases taken
    cases taken
    have gone : ∀ {storage generation},
        (w.store.deleteReplicas (virtualStorage, relativePath) [r.source]).replica
          (virtualStorage, relativePath) storage = some generation →
        w.store.replica (virtualStorage, relativePath) storage = some generation := by
      intro storage generation held
      rw [deleteReplicas_replica] at held
      split at held
      · cases held
      · exact held
    rcases DeleteInvalidRepository_cases w.store virtualStorage
      relativePath r.source with ⟨_, remaining⟩ | ⟨_, last⟩
    · rw [remaining]
      exact .invalid (.inl rfl) (fun _ _ => gone)
    · rw [last]
      exact .invalid (.inr (by simp)) (fun _ _ => gone)
  | setGeneration replicate =>
    obtain ⟨r, found, stage, taken⟩ := Runs.guarded taken
    cases taken
    exact .finished found stage
  | abort replicate =>
    obtain ⟨r, _, rfl⟩ := map_eq_some_iff.mp taken
    exact .aborted

end World

end Replication

end Gitaly.Praefect
