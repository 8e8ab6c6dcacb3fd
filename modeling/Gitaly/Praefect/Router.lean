import Gitaly.Base.Fallible
import Mathlib.Data.List.Perm.Basic

/- Routing of repository mutators by internal/praefect/router_per_repository.go. What
the router asks other components for is a field of the router that answers. -/
namespace Gitaly.Praefect

open Fallible List

/-- A gRPC connection; no connection is the nil pointer. -/
abbrev Connection := Option Nat

structure RouterNode where
  storage : String
  connection : Connection
  deriving DecidableEq

/-- The zero value `RouterNode{}`. -/
def RouterNode.zero : RouterNode := ⟨"", none⟩

structure RepositoryMutatorRoute where
  repositoryID : Int
  primary : RouterNode
  secondaries : List RouterNode
  replicationTargets : List String
  deriving DecidableEq

inductive RouterError where
  /-- virtual storage does not exist -/
  | virtualStorageNotExist
  /-- no connection to node %q/%q -/
  | noConnection (virtualStorage storage : String)
  /-- no healthy nodes -/
  | noHealthyNodes
  /-- get primary: %w -/
  | getPrimary (cause : String)
  /-- primary gitaly is not healthy -/
  | primaryNotHealthy
  /-- consistent storages: %w -/
  | consistentStorages (cause : String)
  /-- repository is in read-only mode -/
  | repositoryReadOnly
  /-- get host assignments: %w -/
  | getHostAssignments (cause : String)
  /-- get repository id: %w -/
  | getRepositoryID (cause : String)
  /-- primary node is not assigned -/
  | primaryUnassigned
  deriving DecidableEq

structure PerRepositoryRouter where
  conns : String → Option (String → Option Connection)
  /-- `HealthyNodes()[virtualStorage]` -/
  hc : String → List String
  /-- `GetPrimary` -/
  pg : String → String → Except String String
  /-- `GetConsistentStorages`, the keys of the map -/
  csg : String → String → Except String (List String)
  /-- `GetHostAssignments` -/
  ag : String → String → Except String (List String)
  /-- `GetRepositoryID` -/
  rs : String → String → Except String Int

namespace PerRepositoryRouter

/-- The loop of `healthyNodes`, over the storages that the health checker names. -/
def connectNodes (virtualStorage : String) (conns : String → Option Connection) :
    List String → Except RouterError (List RouterNode)
  | [] => .ok []
  | storage :: rest =>
    match conns storage with
    | none => .error (.noConnection virtualStorage storage)
    | some connection =>
      match connectNodes virtualStorage conns rest with
      | .error err => .error err
      | .ok nodes => .ok (⟨storage, connection⟩ :: nodes)

def healthyNodes (r : PerRepositoryRouter) (virtualStorage : String) :
    Except RouterError (List RouterNode) :=
  match r.conns virtualStorage with
  | none => .error .virtualStorageNotExist
  | some conns =>
    match connectNodes virtualStorage conns (r.hc virtualStorage) with
    | .error err => .error err
    | .ok nodes => if nodes.length = 0 then .error .noHealthyNodes else .ok nodes

/-- `healthySet[storage]`: the node that was written to the map last. -/
def healthySet (nodes : List RouterNode) (storage : String) : Option RouterNode :=
  nodes.reverse.find? (fun node => node.storage = storage)

/-- One iteration of the loop over the assigned storages. A storage that is not healthy
is looked up in the consistent storages under the name of the zero node. -/
def assign (nodes : List RouterNode) (consistentStorages : List String) (primary : String)
    (route : RepositoryMutatorRoute) (assigned : String) : RepositoryMutatorRoute :=
  let healthy := (healthySet nodes assigned).isSome
  let node := (healthySet nodes assigned).getD .zero
  if assigned = primary then { route with primary := node }
  else if node.storage ∉ consistentStorages ∨ healthy = false then
    { route with replicationTargets := route.replicationTargets ++ [assigned] }
  else { route with secondaries := route.secondaries ++ [node] }

def RouteRepositoryMutator (r : PerRepositoryRouter) (virtualStorage relativePath : String) :
    Except RouterError RepositoryMutatorRoute := do
  let nodes ← r.healthyNodes virtualStorage
  let primary ← (r.pg virtualStorage relativePath).mapError .getPrimary
  require ((healthySet nodes primary).isSome) .primaryNotHealthy
  let consistentStorages ← (r.csg virtualStorage relativePath).mapError .consistentStorages
  require (primary ∈ consistentStorages) .repositoryReadOnly
  let assignedStorages ← (r.ag virtualStorage relativePath).mapError .getHostAssignments
  let repositoryID ← (r.rs virtualStorage relativePath).mapError .getRepositoryID
  let route := assignedStorages.foldl (assign nodes consistentStorages primary)
    ⟨repositoryID, .zero, [], []⟩
  require (route.primary ≠ .zero) .primaryUnassigned
  return route

variable {nodes : List RouterNode}

theorem healthySet_eq_some {storage : String} {node : RouterNode}
    (found : healthySet nodes storage = some node) : node ∈ nodes ∧ node.storage = storage := by
  constructor
  · exact mem_reverse.mp (mem_of_find?_eq_some found)
  · have holds := find?_some found
    exact of_decide_eq_true holds

theorem connectNodes_storages {virtual : String} {conns : String → Option Connection}
    {storages : List String} (connected : connectNodes virtual conns storages = .ok nodes) :
    nodes.map RouterNode.storage = storages := by
  induction storages generalizing nodes with
  | nil =>
    cases connected
    rfl
  | cons storage rest ih =>
    unfold connectNodes at connected
    split at connected
    · cases connected
    split at connected
    · cases connected
    rename_i tail connectedTail
    cases connected
    rw [map_cons, ih connectedTail]

theorem healthyNodes_storages {r : PerRepositoryRouter} {virtualStorage : String}
    (healthy : r.healthyNodes virtualStorage = .ok nodes) :
    nodes.map RouterNode.storage = r.hc virtualStorage := by
  unfold healthyNodes at healthy
  split at healthy
  · cases healthy
  split at healthy
  · cases healthy
  rename_i connected
  split at healthy
  · cases healthy
  cases healthy
  exact connectNodes_storages connected

/-- The storages that a route sends the change to. -/
def receivers (route : RepositoryMutatorRoute) : List String :=
  route.secondaries.map RouterNode.storage ++ route.replicationTargets

section assign

variable (nodes : List RouterNode) (consistentStorages : List String) (primary : String)

section

variable (route : RepositoryMutatorRoute) (assigned : String)

theorem assign_receivers :
    (receivers (assign nodes consistentStorages primary route assigned)).Perm
      (receivers route ++ [assigned].filter (fun storage => storage ≠ primary)) := by
  unfold assign receivers
  dsimp only
  split
  · rename_i isPrimary
    simp only [isPrimary, ne_eq, not_true_eq_false, decide_false, Bool.false_eq_true,
      not_false_eq_true, filter_cons_of_neg, filter_nil, append_nil]
    exact List.Perm.refl _
  · rename_i notPrimary
    have kept : [assigned].filter (fun storage => storage ≠ primary) = [assigned] :=
      filter_cons_of_pos (decide_eq_true notPrimary)
    rw [kept]
    split
    · dsimp only
      rw [append_assoc]
    rename_i secondary
    cases found : healthySet nodes assigned with
    | none => simp [found] at secondary
    | some node =>
      simp only [Option.getD_some, map_append, map_singleton,
        (healthySet_eq_some found).2, append_assoc]
      exact List.Perm.append_left _ perm_append_comm

/-- A secondary is a node that is healthy and consistent. -/
def Qualified (node : RouterNode) : Prop := node ∈ nodes ∧ node.storage ∈ consistentStorages

theorem assign_secondaries
    (before : ∀ node ∈ route.secondaries, Qualified nodes consistentStorages node) :
    ∀ node ∈ (assign nodes consistentStorages primary route assigned).secondaries,
      Qualified nodes consistentStorages node := by
  unfold assign
  dsimp only
  split
  · exact before
  split
  · exact before
  rename_i secondary
  rw [not_or, not_not] at secondary
  intro node member
  rcases mem_append.mp member with old | new
  · exact before node old
  rw [mem_singleton] at new
  cases found : healthySet nodes assigned with
  | none => simp [found] at secondary
  | some healthy =>
    rw [found, Option.getD_some] at new secondary
    rw [new]
    exact ⟨(healthySet_eq_some found).1, secondary.1⟩

theorem assign_primary :
    (assign nodes consistentStorages primary route assigned).primary = route.primary ∨
      (assign nodes consistentStorages primary route assigned).primary =
        (healthySet nodes primary).getD .zero := by
  unfold assign
  dsimp only
  split
  · rename_i isPrimary
    exact .inr (by rw [isPrimary])
  · split
    all_goals exact .inl rfl

end

section

variable (assignedStorages : List String) (route : RepositoryMutatorRoute)

theorem foldl_assign :
    (receivers (assignedStorages.foldl (assign nodes consistentStorages primary) route)).Perm
      (receivers route ++ assignedStorages.filter (fun storage => storage ≠ primary)) := by
  induction assignedStorages generalizing route with
  | nil =>
    rw [filter_nil, append_nil]
    exact List.Perm.refl _
  | cons assigned rest ih =>
    have split : (assigned :: rest).filter (fun storage => storage ≠ primary) =
        [assigned].filter (fun storage => storage ≠ primary) ++
          rest.filter (fun storage => storage ≠ primary) :=
      filter_append [assigned] rest
    rw [foldl_cons, split, ← append_assoc]
    exact (ih _).trans
      ((assign_receivers nodes consistentStorages primary route assigned).append_right _)

theorem foldl_assign_secondaries
    (before : ∀ node ∈ route.secondaries, Qualified nodes consistentStorages node) :
    ∀ node ∈ (assignedStorages.foldl (assign nodes consistentStorages primary) route).secondaries,
      Qualified nodes consistentStorages node := by
  induction assignedStorages generalizing route with
  | nil => exact before
  | cons assigned rest ih =>
    exact ih _ (assign_secondaries nodes consistentStorages primary route assigned before)

theorem foldl_assign_primary :
    (assignedStorages.foldl (assign nodes consistentStorages primary) route).primary =
        route.primary ∨
      (assignedStorages.foldl (assign nodes consistentStorages primary) route).primary =
        (healthySet nodes primary).getD .zero := by
  induction assignedStorages generalizing route with
  | nil => exact .inl rfl
  | cons assigned rest ih =>
    rw [foldl_cons]
    rcases ih (assign nodes consistentStorages primary route assigned) with same | found
    · rw [same]
      exact assign_primary nodes consistentStorages primary route assigned
    · exact .inr found

end

end assign

/-- How a route that is returned stands to what it was computed from. -/
structure Routed (nodes : List RouterNode) (consistentStorages assignedStorages : List String)
    (route : RepositoryMutatorRoute) : Prop where
  receivers : (receivers route).Perm
    (assignedStorages.filter (fun storage => storage ≠ route.primary.storage))
  secondaries : ∀ node ∈ route.secondaries, Qualified nodes consistentStorages node

theorem RouteRepositoryMutator_ok {r : PerRepositoryRouter} {virtual path : String}
    {route : RepositoryMutatorRoute}
    (routed : r.RouteRepositoryMutator virtual path = .ok route) :
    ∃ nodes consistentStorages assignedStorages,
      r.healthyNodes virtual = .ok nodes ∧
      r.pg virtual path = .ok route.primary.storage ∧
      r.csg virtual path = .ok consistentStorages ∧
      r.ag virtual path = .ok assignedStorages ∧
      Routed nodes consistentStorages assignedStorages route := by
  obtain ⟨nodes, healthy, routed⟩ := bind_eq_ok.mp routed
  obtain ⟨primary, primaryIs, routed⟩ := bind_eq_ok.mp routed
  obtain ⟨-, -, routed⟩ := bind_eq_ok.mp routed
  obtain ⟨consistentStorages, consistent, routed⟩ := bind_eq_ok.mp routed
  obtain ⟨-, -, routed⟩ := bind_eq_ok.mp routed
  obtain ⟨assignedStorages, assigned, routed⟩ := bind_eq_ok.mp routed
  obtain ⟨repositoryID, -, routed⟩ := bind_eq_ok.mp routed
  obtain ⟨_, assignedPrimary, returned⟩ := bind_eq_ok.mp routed
  have routeIs := Except.ok.inj returned
  rw [require_eq_ok] at assignedPrimary
  have receivers := foldl_assign nodes consistentStorages primary assignedStorages
    ⟨repositoryID, .zero, [], []⟩
  have secondaries := foldl_assign_secondaries nodes consistentStorages primary assignedStorages
    ⟨repositoryID, .zero, [], []⟩ (fun _ absent => absurd absent not_mem_nil)
  have chosen := foldl_assign_primary nodes consistentStorages primary assignedStorages
    ⟨repositoryID, .zero, [], []⟩
  rw [routeIs] at assignedPrimary receivers secondaries chosen
  -- The route has a primary, so the primary is assigned, and the node is the healthy one.
  have named : route.primary.storage = primary := by
    rcases chosen with missing | found
    · exact absurd missing assignedPrimary
    cases node : healthySet nodes primary with
    | none =>
      rw [node] at found
      exact absurd found assignedPrimary
    | some healthyNode =>
      rw [found, node]
      exact (healthySet_eq_some node).2
  refine ⟨nodes, consistentStorages, assignedStorages, healthy, ?_, ?_, ?_, ?_, secondaries⟩
  · rw [named]
    exact mapError_eq_ok.mp primaryIs
  · exact mapError_eq_ok.mp consistent
  · exact mapError_eq_ok.mp assigned
  · rw [named]
    exact receivers

end PerRepositoryRouter

end Gitaly.Praefect
