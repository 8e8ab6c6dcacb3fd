import Gitaly.Praefect.Coordinator

/- No storage that a repository is assigned to is lost on the way from the router to the
replication jobs of a write. -/
namespace Gitaly.Praefect

open PerRepositoryRouter (receivers)
open Datastore List

section classify

variable {ε : Type} [DecidableEq ε] {route : RepositoryMutatorRoute} {transaction : Observed}
  {errByNode : String → Option ε}

/-- Every storage of the route is on one of the two lists, and only secondaries count
as updated. -/
structure Partitions (route : RepositoryMutatorRoute) (c : Classification) : Prop where
  together : (c.updated ++ c.outdated).Perm (receivers route)
  updated : ∀ storage ∈ c.updated, storage ∈ routerNodesToStorages route.secondaries

theorem Partitions.of_compares {ok : RouterNode → Bool} {after : Classification}
    (compared : Compares ok route.secondaries
      (Classification.dirty.markOutdated .outdated route.replicationTargets) after) :
    Partitions route after := by
  have updated : after.updated = routerNodesToStorages (route.secondaries.filter ok) :=
    compared.updated
  have outdated : after.outdated = route.replicationTargets ++
      routerNodesToStorages (route.secondaries.filter (fun node => !ok node)) := compared.outdated
  constructor
  · have split := (filter_append_perm ok route.secondaries).map RouterNode.storage
    rw [map_append] at split
    have moved : (after.updated ++ after.outdated).Perm
        (routerNodesToStorages (route.secondaries.filter ok) ++
          routerNodesToStorages (route.secondaries.filter (fun node => !ok node)) ++
          route.replicationTargets) := by
      rw [updated, outdated, append_assoc]
      exact perm_append_comm.append_left _
    exact moved.trans (split.append_right _)
  · intro storage member
    rw [updated] at member
    obtain ⟨secondary, passed, named⟩ := mem_map.mp member
    exact mem_map.mpr ⟨secondary, (mem_filter.mp passed).1, named⟩

theorem Classifies.partitions {c : Classification}
    (classifies : Classifies route transaction errByNode c)
    (dirtied : c.primaryDirtied = true) : Partitions route c := by
  cases classifies with
  | unvoted | dropped => cases dirtied
  | replicate reason =>
    have together : (route.replicationTargets ++ routerNodesToStorages route.secondaries).Perm
        (receivers route) := perm_append_comm
    exact ⟨together, fun _ absent => absurd absent not_mem_nil⟩
  | compare nodeStates state committed =>
    exact .of_compares (foldl_classifySecondary _ _ _ _ _)

end classify

namespace Mutation

variable (m : Mutation) (rs : RepositoryStore)
  (updatedSecondaries outdatedSecondaries : List String)

/-- The store update that belongs to the change succeeds, or fails in the one way that
is tolerated for the change. -/
def StoreAccepts : Prop :=
  match m.change with
  | .update =>
    rs.incrementGeneration m.virtualStorage m.relativePath m.primary updatedSecondaries = none
  | .rename =>
    ∃ newRelativePath, m.params.get "RelativePath" = some (.string newRelativePath) ∧
      rs.renameRepository m.virtualStorage m.relativePath m.primary newRelativePath ∈
        [none, some .repositoryNotExists]
  | .delete =>
    rs.deleteRepository m.virtualStorage m.relativePath (updatedSecondaries ++ [m.primary]) ∈
      [none, some .noRowsAffected]
  | .create =>
    rs.createRepository m.repositoryID m.virtualStorage m.relativePath m.primary
        updatedSecondaries outdatedSecondaries m.repositorySpecificPrimariesEnabled
        (m.repositorySpecificPrimariesEnabled && decide (m.defaultReplicationFactor > 0)) ∈
      [none, some .repositoryExists]
  | _ => True

theorem reject_ok_iff {err tolerated : Option StoreError} {wrap : StoreError → FinalizerError}
    {change : ChangeType} :
    (∃ result, reject err tolerated wrap change = .ok result) ↔ err ∈ [none, tolerated] := by
  cases err with
  | none => simp [reject]
  | some cause =>
    unfold reject
    dsimp only
    split
    · rename_i same
      simp [same]
    · rename_i differs
      simp [differs]

theorem updateStore_ok_iff :
    (∃ change, m.updateStore rs updatedSecondaries outdatedSecondaries = .ok change) ↔
      m.StoreAccepts rs updatedSecondaries outdatedSecondaries := by
  unfold updateStore StoreAccepts
  cases kind : m.change with
  | update =>
    rw [reject_ok_iff]
    simp
  | rename =>
    cases parameter : m.params.get "RelativePath" with
    | none => simp
    | some value =>
      cases value with
      | string newRelativePath => simpa using reject_ok_iff
      | _ => simp
  | delete | create => exact reject_ok_iff
  | _ => simp

variable {m rs updatedSecondaries outdatedSecondaries} (enqueue : ReplicationEvent → Option String)

theorem newRequestFinalizer_targets
    (accepts : m.StoreAccepts rs updatedSecondaries outdatedSecondaries) :
    (m.newRequestFinalizer rs enqueue updatedSecondaries outdatedSecondaries).1.map
      (fun event => event.job.targetNodeStorage) = outdatedSecondaries := by
  obtain ⟨change, updated⟩ := (updateStore_ok_iff m rs _ _).mpr accepts
  unfold newRequestFinalizer
  rw [updated]
  rw [map_map]
  exact map_id _

theorem newRequestFinalizer_rejects
    (rejects : ¬ m.StoreAccepts rs updatedSecondaries outdatedSecondaries) :
    ∃ err, m.newRequestFinalizer rs enqueue updatedSecondaries outdatedSecondaries =
      ([], some err) := by
  unfold newRequestFinalizer
  split
  · exact ⟨_, rfl⟩
  · rename_i change updated
    exact absurd ((updateStore_ok_iff m rs _ _).mp ⟨change, updated⟩) rejects

end Mutation

/-- A repository on `a` and `b`, where `b` is healthy but outdated. -/
def pairRouter : PerRepositoryRouter where
  conns _ := some (fun _ => some none)
  hc _ := ["a", "b"]
  pg _ _ := .ok "a"
  csg _ _ := .ok ["a"]
  ag _ _ := .ok ["a", "b"]
  rs _ _ := .ok 1

def pairRoute : RepositoryMutatorRoute := ⟨1, ⟨"a", none⟩, [], ["b"]⟩

/-- An RPC that does not take part in transactions. -/
def noVotes : Observed := ⟨0, 0, fun _ => false, 0, .ok []⟩

def pairUpdate : Mutation := ⟨1, "praefect", "repo.git", "a", .update, none, true, 1, "correlation"⟩

def fixedStore (answer : Option StoreError) : RepositoryStore :=
  ⟨fun _ _ _ _ => answer, fun _ _ _ _ => answer, fun _ _ _ => answer, fun _ _ _ _ _ _ _ _ => answer⟩

theorem pair_routed :
    pairRouter.RouteRepositoryMutator "praefect" "repo.git" = .ok pairRoute := by decide

theorem pair_assigned : pairRouter.ag "praefect" "repo.git" = .ok ["a", "b"] := rfl

theorem pair_classified :
    getUpdatedAndOutdatedSecondaries pairRoute noVotes (fun _ => (none : Option Unit)) =
      ⟨true, [], ["b"], [(.outdated, "b")]⟩ := by decide

section write

variable {r : PerRepositoryRouter} {virtual path : String}
  {route : RepositoryMutatorRoute} {assignedStorages : List String}

/-- From the assignments to the replication jobs of a write: each assigned storage but the
primary is a secondary or a replication target, each of these is updated or outdated once
the primary is dirty, and each outdated one gets its job if the store takes the update. -/
theorem no_assigned_storage_lost
    (routed : r.RouteRepositoryMutator virtualStorage relativePath = .ok route)
    (assigned : r.ag virtualStorage relativePath = .ok assignedStorages)
    (distinct : assignedStorages.Nodup) :
    (r.pg virtualStorage relativePath = .ok route.primary.storage ∧
      List.Disjoint (routerNodesToStorages route.secondaries) route.replicationTargets ∧
      (routerNodesToStorages route.secondaries ++ route.replicationTargets).Perm
        (assignedStorages.filter (fun storage => storage ≠ route.primary.storage)) ∧
      ∀ secondary ∈ route.secondaries, secondary.storage ∈ r.hc virtualStorage ∧
        ∃ consistentStorages, r.csg virtualStorage relativePath = .ok consistentStorages ∧
          secondary.storage ∈ consistentStorages) ∧
    ∀ (ε : Type) [DecidableEq ε] (transaction : Observed) (errByNode : String → Option ε)
      (c : Classification), getUpdatedAndOutdatedSecondaries route transaction errByNode = c →
      c.primaryDirtied = true →
      List.Disjoint c.updated c.outdated ∧ c.updated.Nodup ∧ c.outdated.Nodup ∧
      (c.updated ++ c.outdated).Perm
        (routerNodesToStorages route.secondaries ++ route.replicationTargets) ∧
      (∀ storage ∈ c.updated, storage ∈ routerNodesToStorages route.secondaries) ∧
      ∀ (m : Mutation) (rs : RepositoryStore) (enqueue : ReplicationEvent → Option String),
        (m.StoreAccepts rs c.updated c.outdated →
          (m.newRequestFinalizer rs enqueue c.updated c.outdated).1.map
            (fun event => event.job.targetNodeStorage) = c.outdated) ∧
        (¬ m.StoreAccepts rs c.updated c.outdated →
          ∃ err, m.newRequestFinalizer rs enqueue c.updated c.outdated = ([], some err)) := by
  obtain ⟨nodes, consistentStorages, storages, healthy, primary, consistent, assignments, split⟩ :=
    PerRepositoryRouter.RouteRepositoryMutator_ok routed
  have same : storages = assignedStorages := Except.ok.inj (assignments.symm.trans assigned)
  subst same
  have once : (receivers route).Nodup := split.receivers.nodup_iff.mpr (distinct.filter _)
  refine ⟨⟨primary, (nodup_append'.mp once).2.2, split.receivers, ?_⟩, ?_⟩
  · intro secondary member
    obtain ⟨isHealthy, isConsistent⟩ := split.secondaries secondary member
    rw [← PerRepositoryRouter.healthyNodes_storages healthy]
    exact ⟨mem_map_of_mem isHealthy, consistentStorages, consistent, isConsistent⟩
  · intro ε _ transaction errByNode c outcome dirtied
    have classifies := getUpdatedAndOutdatedSecondaries_classifies route transaction errByNode
    rw [outcome] at classifies
    have parts := classifies.partitions dirtied
    obtain ⟨updatedOnce, outdatedOnce, apart⟩ :=
      nodup_append'.mp (parts.together.nodup_iff.mpr once)
    exact ⟨apart, updatedOnce, outdatedOnce, parts.together, parts.updated, fun m rs enqueue =>
      ⟨Mutation.newRequestFinalizer_targets enqueue, Mutation.newRequestFinalizer_rejects enqueue⟩⟩

theorem no_assigned_storage_lost_pair :
    (pairUpdate.newRequestFinalizer (fixedStore none) (fun _ => none) [] ["b"]).1.map
      (fun event => event.job.targetNodeStorage) = ["b"] := by
  obtain ⟨-, parts⟩ := no_assigned_storage_lost pair_routed pair_assigned (by decide)
  obtain ⟨-, -, -, -, -, finalizes⟩ := parts Unit noVotes (fun _ => none) _ pair_classified rfl
  exact (finalizes pairUpdate (fixedStore none) (fun _ => none)).1 rfl

/-- The finalizer gives up on the jobs when the generation cannot be incremented. -/
theorem failed_store_loses_storage :
    pairRouter.RouteRepositoryMutator "praefect" "repo.git" = .ok pairRoute ∧
      getUpdatedAndOutdatedSecondaries pairRoute noVotes (fun _ => (none : Option Unit)) =
        ⟨true, [], ["b"], [(.outdated, "b")]⟩ ∧
      pairUpdate.newRequestFinalizer (fixedStore (some (.other "timeout")))
        (fun _ => none) [] ["b"] =
        ([], some (.incrementGeneration (.other "timeout"))) :=
  ⟨pair_routed, pair_classified, by decide⟩

end write

end Gitaly.Praefect
