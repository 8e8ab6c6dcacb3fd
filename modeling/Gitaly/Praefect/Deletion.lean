import Gitaly.Base.Coverage
import Gitaly.Praefect.Elector
import Gitaly.Praefect.ReconcilerStability
import Gitaly.Praefect.Replicator

/- The deletion of replicas that reconciliation has scheduled, next to elections and mutators
of the repository. Health and assignments change at any time. -/
namespace Gitaly.Praefect.Deletion

open Datastore
open Reconciler (Database Run active assigned)

/-- A mutator from the election of its primary on. -/
structure Mutator where
  write : Nat
  primary : String
  route : Option RepositoryMutatorRoute
  applied : List String
  deriving DecidableEq

def Mutator.receives (m : Mutator) (storage : String) : Bool :=
  m.route.any (fun route =>
    storage = route.primary.storage ∨ storage ∈ route.secondaries.map RouterNode.storage)

structure World where
  db : Database
  /-- The writes in the repository on each storage. -/
  disk : String → List Nat
  mutators : List Mutator
  /-- The storages that have removed the repository and still have a replica in the store. -/
  removed : List String
  /-- The writes that `IncrementGeneration` has recorded, each with its generation. -/
  recorded : List (Nat × Int)

inductive Event where
  | reconcile (run : Run)
  | getPrimary (write : Nat) (healthy : List (String × String)) (random : Sql.Scan String)
  | route (mutator : Nat) (healthy configured : List String)
  | apply (mutator : Nat) (storage : String)
  | increment (mutator : Nat) (secondaries : List String)
  | assign (assignments : KeyedTable AssignmentRow (Repository × String) AssignmentRow.key)
  | request (request : Request)
  | removeRepository (job : ReplicationJob)
  | deleteReplica (job : ReplicationJob)

/-- A deletion of the replica on the storage is scheduled. -/
def Marked (db : Database) (repository : Repository) (storage : String) : Prop :=
  ∃ job ∈ active db.queue repository, job.change = .deleteReplica ∧ job.targetNodeStorage = storage

instance (db : Database) (repository : Repository) (storage : String) :
    Decidable (Marked db repository storage) :=
  inferInstanceAs (Decidable (∃ job ∈ active db.queue repository, _))

/-- Only the reconciler schedules the deletion of a replica. -/
def schedules (request : Request) : Bool :=
  match request.call with
  | .enqueue event => event.job.change = .deleteReplica
  | _ => false

namespace World

variable (virtualStorage relativePath : String)

/-- A repository that has just been created. -/
def start (repositoryID : Int) (primary : String)
    (updatedSecondaries outdatedSecondaries : List String) (storePrimary storeAssignments : Bool)
    (disk : String → List Nat) : World :=
  ⟨.idle (PostgresRepositoryStore.empty.CreateRepository repositoryID virtualStorage relativePath
    primary updatedSecondaries outdatedSecondaries storePrimary storeAssignments).1, disk, [], [],
    []⟩

/-- The router of a mutator whose primary is elected. Only the answers matter here, not why
there is none. -/
def router (w : World) (healthy configured : List String) (primary : String) :
    PerRepositoryRouter where
  conns := fun _ => some (fun _ => some (some 0))
  hc := fun _ => healthy
  pg := fun _ _ => .ok primary
  csg := fun virtualStorage relativePath =>
    (w.db.store.GetConsistentStorages virtualStorage relativePath).mapError (fun _ => "")
  ag := fun virtualStorage relativePath =>
    (GetHostAssignments w.db.store (fun _ => some configured) virtualStorage
      relativePath).mapError (fun _ => "")
  rs := fun virtualStorage relativePath =>
    (w.db.store.GetRepositoryID virtualStorage relativePath).mapError (fun _ => "")

/-- A worker settles a job when `Destroy` has returned, and keeps it active until then. -/
def step (w : World) : Event → Option World
  | .reconcile run => some { w with db := (run.reconcile w.db).1 }
  | .getPrimary write healthy random =>
    match GetPrimary w.db healthy random virtualStorage relativePath with
    | (db, .ok primary) =>
      some { w with db := db, mutators := w.mutators ++ [⟨write, primary, none, []⟩] }
    | (db, .error _) => some { w with db := db }
  | .route mutator healthy configured =>
    (w.mutators[mutator]?).bind (fun m =>
      if m.route = none then
        match (w.router healthy configured m.primary).RouteRepositoryMutator virtualStorage
            relativePath with
        | .ok route =>
          some { w with mutators := w.mutators.set mutator { m with route := some route } }
        | .error _ => some { w with mutators := w.mutators.eraseIdx mutator }
      else none)
  | .apply mutator storage =>
    (w.mutators[mutator]?).bind (fun m =>
      if m.receives storage then
        some { w with
          disk := Function.update w.disk storage (m.write :: w.disk storage)
          mutators := w.mutators.set mutator { m with applied := storage :: m.applied } }
      else none)
  | .increment mutator secondaries =>
    (w.mutators[mutator]?).bind (fun m =>
      if m.primary ∈ m.applied ∧ ∀ secondary ∈ secondaries, secondary ∈ m.applied then
        let done := { w with mutators := w.mutators.eraseIdx mutator }
        match w.db.store.IncrementGeneration virtualStorage relativePath m.primary
            secondaries with
        | (store, .ok ()) =>
          some { done with
            db := { w.db with store := store }
            recorded := (m.write, (store.latest (virtualStorage, relativePath)).getD 0) ::
              w.recorded }
        | (_, .error _) => some done
      else none)
  | .assign assignments =>
    some { w with db := { w.db with store := { w.db.store with assignments := assignments } } }
  | .request request =>
    if schedules request then none
    else
      (w.db.step (.request request)).bind (fun db =>
        if ∀ storage ∈ w.removed, Marked db (virtualStorage, relativePath) storage then
          some { w with db := db }
        else none)
  | .removeRepository job =>
    if job ∈ active w.db.queue (virtualStorage, relativePath) ∧ job.change = .deleteReplica then
      some { w with
        disk := Function.update w.disk job.targetNodeStorage []
        removed := job.targetNodeStorage :: w.removed }
    else none
  | .deleteReplica job =>
    if job ∈ active w.db.queue (virtualStorage, relativePath) ∧ job.change = .deleteReplica ∧
        job.targetNodeStorage ∈ w.removed then
      some { w with
        db := { w.db with store := (Destroy w.db.store job (.ok ())).1 }
        removed := w.removed.filter (fun storage => storage ≠ job.targetNodeStorage) }
    else none

/-- Every write that was recorded is in some replica. -/
def Kept (w : World) : Prop :=
  ∀ entry ∈ w.recorded, ∃ storage,
    (w.db.store.replica (virtualStorage, relativePath) storage).isSome ∧ entry.1 ∈ w.disk storage

/-- A write is recorded for a replica, on the latest generation, that is not going to be
deleted. -/
def Lasting (w : World) : Event → Prop
  | .increment mutator secondaries =>
    ∀ m ∈ w.mutators[mutator]?,
      ∀ latest ∈ w.db.store.latest (virtualStorage, relativePath),
        (∃ storage ∈ secondaries ++ [m.primary],
          w.db.store.replica (virtualStorage, relativePath) storage = some latest) →
        ∃ storage ∈ secondaries ++ [m.primary],
          w.db.store.replica (virtualStorage, relativePath) storage = some latest ∧
            ¬ Marked w.db (virtualStorage, relativePath) storage
  | _ => True

instance (w : World) (event : Event) : Decidable (w.Lasting virtualStorage relativePath event) := by
  unfold Lasting
  cases event <;> infer_instance

end World

end Gitaly.Praefect.Deletion
