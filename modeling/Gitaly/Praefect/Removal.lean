import Gitaly.Praefect.Coordinator
import Gitaly.Praefect.Replicator

/- Removals of a repository, with the delete jobs that they leave behind, and creations of a
repository at the same path. A job is processed in two steps, first on its storage and then in
the store, at any time and any number of times. -/
namespace Gitaly.Praefect.Removal

open Datastore Runs List Option

structure Queued where
  job : ReplicationJob
  /-- The creations that had succeeded when the job was enqueued. -/
  creations : Nat
  /-- `RemoveRepository` has returned. -/
  removed : Bool
  deriving DecidableEq

structure World where
  store : PostgresRepositoryStore
  /-- The storages that have a repository at the path. -/
  disk : List String
  /-- The jobs of finalizers that have updated the store. -/
  enqueuing : List ReplicationJob
  queue : List Queued
  creations : Nat
  deriving DecidableEq

inductive Event where
  | remove (m : Mutation) (updatedSecondaries outdatedSecondaries : List String)
  | enqueue (index : Nat)
  | create (repositoryID : Int) (primary : String)
      (updatedSecondaries outdatedSecondaries : List String) (storePrimary storeAssignments : Bool)
  | removeRepository (index : Nat)
  | deleteFunc (index : Nat)
  | retry (index : Nat)
  | dead (index : Nat)

namespace World

def start (store : PostgresRepositoryStore) (disk : List String) : World := ⟨store, disk, [], [], 0⟩

variable (virtualStorage relativePath : String)

def step (w : World) : Event → Option World
  | .remove m updatedSecondaries outdatedSecondaries =>
    if m.change = .delete ∧ m.virtualStorage = virtualStorage ∧ m.relativePath = relativePath then
      let storages := updatedSecondaries ++ [m.primary]
      some { w with
        store := (w.store.DeleteRepository virtualStorage relativePath storages).1
        disk := w.disk.filter (fun storage => storage ∉ storages)
        enqueuing := w.enqueuing ++ outdatedSecondaries.map (m.job .delete) }
    else none
  | .enqueue index =>
    (w.enqueuing[index]?).map (fun job =>
      { w with
        enqueuing := w.enqueuing.eraseIdx index
        queue := w.queue ++ [⟨job, w.creations, false⟩] })
  | .create repositoryID primary updatedSecondaries outdatedSecondaries storePrimary
      storeAssignments =>
        match w.store.CreateRepository repositoryID virtualStorage relativePath primary
            updatedSecondaries outdatedSecondaries storePrimary storeAssignments with
        | (store, .ok ()) =>
          some { w with
            store := store
            disk := primary :: updatedSecondaries ++ w.disk
            creations := w.creations + 1 }
        | (_, .error _) => some w
  | .removeRepository index =>
    (w.queue[index]?).map (fun queued =>
      { w with
        disk := w.disk.filter (fun storage => storage ≠ queued.job.targetNodeStorage)
        queue := w.queue.set index { queued with removed := true } })
  | .deleteFunc index =>
    (w.queue[index]?).bind (fun queued =>
      if queued.removed then
        match Destroy w.store queued.job (.ok ()) with
        | (store, .ok ()) => some { w with store := store, queue := w.queue.eraseIdx index }
        | (store, .error _) => some { w with store := store }
      else none)
  | .retry index =>
    (w.queue[index]?).map (fun queued =>
      { w with queue := w.queue.set index { queued with removed := false } })
  | .dead index =>
    (w.queue[index]?).map (fun _ => { w with queue := w.queue.eraseIdx index })

/-- What is left to do of a job takes neither the record nor a replica away. -/
def Spares (w : World) (queued : Queued) : Prop :=
  let after := (Destroy w.store queued.job (.ok ())).1
  after.record (virtualStorage, relativePath) = w.store.record (virtualStorage, relativePath) ∧
    (∀ storage, after.replica (virtualStorage, relativePath) storage =
      w.store.replica (virtualStorage, relativePath) storage) ∧
    (queued.removed = false → queued.job.targetNodeStorage ∉ w.disk)

/-- A job that deletes the repository. -/
structure Deletes (job : ReplicationJob) : Prop where
  change : job.change = .delete
  virtualStorage : job.virtualStorage = virtualStorage
  relativePath : job.relativePath = relativePath

/-- The jobs delete the repository, and those in the queue are from after a number of
creations. -/
structure Since (creations : Nat) (w : World) : Prop where
  enqueuing : ∀ job ∈ w.enqueuing, Deletes virtualStorage relativePath job
  queue : ∀ queued ∈ w.queue, Deletes virtualStorage relativePath queued.job ∧
    creations ≤ queued.creations ∧ queued.creations ≤ w.creations
  creations : creations ≤ w.creations

variable {virtualStorage relativePath} {w next : World}

theorem Deletes.Destroy_record {job : ReplicationJob}
    (deletes : Deletes virtualStorage relativePath job) (rs : PostgresRepositoryStore) :
    (Destroy rs job (.ok ())).1.record (virtualStorage, relativePath) = none := by
  unfold Destroy
  rw [deletes.change, deletes.virtualStorage, deletes.relativePath, tolerate_store]
  simp [PostgresRepositoryStore.DeleteRepository]

theorem step_since {creations : Nat} {event : Event}
    (since : w.Since virtualStorage relativePath creations)
    (taken : w.step virtualStorage relativePath event = some next) :
    next.Since virtualStorage relativePath creations := by
  cases event with
  | remove m updatedSecondaries outdatedSecondaries =>
    simp only [step] at taken
    split at taken
    · rename_i delete
      cases taken
      refine ⟨?_, since.queue, since.creations⟩
      intro job member
      rcases mem_append.mp member with old | new
      · exact since.enqueuing job old
      · obtain ⟨storage, _, rfl⟩ := mem_map.mp new
        exact ⟨rfl, delete.2.1, delete.2.2⟩
    · cases taken
  | enqueue index =>
    obtain ⟨job, found, rfl⟩ := map_eq_some_iff.mp taken
    exact ⟨forall_left since.enqueuing, forall_joined since.queue
      ⟨since.enqueuing job (mem_of_getElem? found), since.creations, le_rfl⟩,
      since.creations⟩
  | create repositoryID primary updatedSecondaries outdatedSecondaries storePrimary
      storeAssignments =>
      simp only [step] at taken
      split at taken
      · cases taken
        refine ⟨since.enqueuing, ?_, since.creations.trans (Nat.le_succ _)⟩
        intro queued member
        obtain ⟨deletes, after, before⟩ := since.queue queued member
        exact ⟨deletes, after, before.trans (Nat.le_succ _)⟩
      · cases taken
        exact since
  | removeRepository index | retry index =>
    obtain ⟨queued, found, rfl⟩ := map_eq_some_iff.mp taken
    -- a job that is only marked is still the same job
    exact ⟨since.enqueuing,
      forall_moved since.queue (since.queue queued (mem_of_getElem? found)),
      since.creations⟩
  | deleteFunc index =>
    obtain ⟨queued, found, -, taken⟩ := guarded taken
    split at taken
    · cases taken
      exact ⟨since.enqueuing, forall_left since.queue, since.creations⟩
    · cases taken
      exact ⟨since.enqueuing, since.queue, since.creations⟩
  | dead index =>
    obtain ⟨queued, found, rfl⟩ := map_eq_some_iff.mp taken
    exact ⟨since.enqueuing, forall_left since.queue, since.creations⟩

theorem start_since (store : PostgresRepositoryStore) (disk : List String) :
    (start store disk).Since virtualStorage relativePath 0 :=
  ⟨fun _ member => absurd member not_mem_nil, fun _ member => absurd member not_mem_nil,
    Nat.zero_le _⟩

/-- The jobs that are in the queue when a repository is created spare it, whenever they are
processed, iff there are none. -/
theorem created_spared_iff (virtualStorage relativePath : String) (store : PostgresRepositoryStore)
    (disk : List String) (w next : World) (repositoryID : Int) (primary : String)
    (updatedSecondaries outdatedSecondaries : List String) (storePrimary storeAssignments : Bool)
    (reached : Reaches (step virtualStorage relativePath) (start store disk) w)
    (created : w.step virtualStorage relativePath (.create repositoryID primary updatedSecondaries
      outdatedSecondaries storePrimary storeAssignments) = some next)
    (succeeded : (w.store.CreateRepository repositoryID virtualStorage relativePath primary
      updatedSecondaries outdatedSecondaries storePrimary storeAssignments).2 = .ok ()) :
    (∀ later, Reaches (step virtualStorage relativePath) next later →
      ∀ queued ∈ later.queue, queued.creations ≤ w.creations →
        later.Spares virtualStorage relativePath queued) ↔ w.queue = [] := by
  have before := reached.invariant (Since virtualStorage relativePath 0)
    (fun _ _ _ => step_since) (start_since store disk)
  rcases PostgresRepositoryStore.CreateRepository_cases w.store repositoryID virtualStorage
    relativePath primary updatedSecondaries outdatedSecondaries storePrimary storeAssignments with
    ⟨_, refused⟩ | ⟨after, accepted, creates⟩
  · rw [refused] at succeeded
    cases succeeded
  simp only [step, accepted] at created
  cases created
  constructor
  · intro spared
    rw [eq_nil_iff_forall_not_mem]
    intro queued member
    obtain ⟨deletes, _, late⟩ := before.queue queued member
    have kept := (spared _ (Reaches.refl _ _) queued member late).1
    rw [deletes.Destroy_record, creates.record, if_pos rfl] at kept
    cases kept
  · intro free later continued queued member late
    have fresh : Since virtualStorage relativePath (w.creations + 1)
        { w with
          store := after
          disk := primary :: updatedSecondaries ++ w.disk
          creations := w.creations + 1 } := by
      refine ⟨before.enqueuing, ?_, le_rfl⟩
      intro old present
      rw [free] at present
      cases present
    have since := continued.invariant (Since virtualStorage relativePath (w.creations + 1))
      (fun _ _ _ => step_since) fresh
    have newer := (since.queue queued member).2.1
    omega

/-- The removal of a repository by a client. -/
def removal : Mutation where
  repositoryID := 1
  virtualStorage := "default"
  relativePath := "repo.git"
  primary := "gitaly-1"
  change := .delete
  params := none
  repositorySpecificPrimariesEnabled := true
  defaultReplicationFactor := 0
  correlationID := "correlation-id"

/-- A removal that misses a secondary. -/
def missed : List Event :=
  [.create 1 "gitaly-1" ["gitaly-2"] [] true false, .remove removal [] ["gitaly-2"], .enqueue 0]

def recreate : Event := .create 2 "gitaly-1" [] [] true false

theorem created_spared_iff_processed :
    ∃ w next, exec (step "default" "repo.git") (start .empty [])
        (missed ++ [.removeRepository 0, .deleteFunc 0]) = some w ∧
      w.step "default" "repo.git" recreate = some next ∧
      ((∀ later, Reaches (step "default" "repo.git") next later →
        ∀ queued ∈ later.queue, queued.creations ≤ w.creations →
          later.Spares "default" "repo.git" queued) ↔ w.queue = []) := by
  refine ⟨(exec (step "default" "repo.git") (start .empty [])
      (missed ++ [.removeRepository 0, .deleteFunc 0])).get (by decide),
    (exec (step "default" "repo.git") (start .empty [])
      (missed ++ [.removeRepository 0, .deleteFunc 0, recreate])).get (by decide), by decide,
    by decide, ?_⟩
  exact created_spared_iff "default" "repo.git" .empty [] _ _ 2 "gitaly-1" [] [] true false
    (Reaches.of_exec (by decide)) (by decide) (by decide)

/-- The delete job of the repository that was removed takes the record of the next one. -/
theorem missed_recreated :
    (exec (step "default" "repo.git") (start .empty []) (missed ++ [recreate])).map
        (fun w => w.store.RepositoryExists "default" "repo.git") = some true ∧
      (exec (step "default" "repo.git") (start .empty [])
          (missed ++ [recreate, .removeRepository 0, .deleteFunc 0])).map
        (fun w => w.store.RepositoryExists "default" "repo.git") = some false := by
  decide

end World

end Gitaly.Praefect.Removal
