import Gitaly.Datastore.RepositoryStoreGenerations
import Gitaly.Praefect.RouterCreation

/- Routing of accessors by internal/praefect/router_per_repository.go, and what the reads see
of the writes that the store has recorded. -/
namespace Gitaly.Praefect

open Datastore PostgresRepositoryStore CreationRouter

def PerRepositoryRouter.RouteRepositoryAccessor (r : PerRepositoryRouter) (random : Random)
    (virtualStorage relativePath : String) (forcePrimary : Bool) :
    Option (Except CreationError RouterNode) :=
  match r.healthyNodes virtualStorage with
  | .error err => some (.error (.router err))
  | .ok healthyNodes =>
    if forcePrimary then
      match r.pg virtualStorage relativePath with
      | .error cause => some (.error (.router (.getPrimary cause)))
      | .ok primary =>
        match healthyNodes.find? (fun node => node.storage = primary) with
        | some node => some (.ok node)
        | none => some (.error (.router .primaryNotHealthy))
    else
      match r.csg virtualStorage relativePath with
      | .error cause => some (.error (.router (.consistentStorages cause)))
      | .ok consistentStorages =>
        pickRandom random (healthyNodes.filter (fun node => node.storage ∈ consistentStorages))

section reads

variable {rs later : PostgresRepositoryStore} {r : PerRepositoryRouter}
  {virtual path primary : String} {secondaries : List String}
  {nodes : List RouterNode}

/-- After a recorded write a read goes to a healthy node that took part in it, or there is none
and the read fails. -/
theorem accessor_follows_write (bounded : rs.Bounded)
    (recorded : rs.IncrementGeneration virtualStorage relativePath primary secondaries =
      (later, .ok ())) (wrap : RepositoryStoreError → String)
    (consults : r.csg virtualStorage relativePath =
      (later.GetConsistentStorages virtualStorage relativePath).mapError wrap)
    (healthy : r.healthyNodes virtualStorage = .ok nodes) (random : Random) :
    let tookPart := fun node : RouterNode =>
      rs.replica (virtualStorage, relativePath) node.storage =
          rs.latest (virtualStorage, relativePath) ∧ node.storage ∈ secondaries ++ [primary]
    (∃ node ∈ nodes, tookPart node ∧
        r.RouteRepositoryAccessor random virtualStorage relativePath false = some (.ok node)) ∨
      (∀ node ∈ nodes, ¬ tookPart node) ∧
        r.RouteRepositoryAccessor random virtualStorage relativePath false =
          some (.error .noSuitableNode) := by
  intro tookPart
  rcases rs.IncrementGeneration_cases virtualStorage relativePath primary secondaries with
    ⟨err, failed⟩ | ⟨after, generation, raised, raises⟩
  · cases recorded.symm.trans failed
  cases recorded.symm.trans raised
  have consistent : ∀ node : RouterNode,
      node.storage ∈ later.consistentStorages (virtualStorage, relativePath) ↔ tookPart node := by
    intro node
    rw [mem_consistentStorages, raises.consistent_iff bounded]
    simp only [tookPart, raises.latest]
  obtain ⟨first, named, current⟩ := raises.raised
  have member := mem_consistentStorages.mpr
    ((raises.consistent_iff bounded first).mpr ⟨current, named⟩)
  have found := GetConsistentStorages_ok.mpr ⟨rfl, List.ne_nil_of_mem member⟩
  have routed : r.RouteRepositoryAccessor random virtualStorage relativePath false =
      pickRandom random (nodes.filter (fun node =>
        node.storage ∈ later.consistentStorages (virtualStorage, relativePath))) := by
    unfold PerRepositoryRouter.RouteRepositoryAccessor
    simp only [healthy, consults, found]
    rfl
  rw [routed]
  by_cases none : nodes.filter (fun node =>
      node.storage ∈ later.consistentStorages (virtualStorage, relativePath)) = []
  · refine .inr ⟨fun node member took => ?_, by rw [none]; rfl⟩
    exact List.filter_eq_nil_iff.mp none node member (decide_eq_true ((consistent node).mpr took))
  · obtain ⟨node, picked, result⟩ := pickRandom_eq random none
    obtain ⟨member, isConsistent⟩ := List.mem_filter.mp picked
    exact .inl ⟨node, member, (consistent node).mp (of_decide_eq_true isConsistent), result⟩

def storeRouter (store : PostgresRepositoryStore) : PerRepositoryRouter :=
  { oneHealthy with
    conns := fun _ => some (fun _ => some none)
    csg := fun virtualStorage relativePath =>
      (store.GetConsistentStorages virtualStorage relativePath).mapError (fun _ => "") }

theorem lagging_accessor :
    let later := (lagging.IncrementGeneration "default" "@hashed/a.git" "gitaly-1" ["gitaly-2"]).1
    ∃ node : RouterNode, node.storage ∈ ["gitaly-2", "gitaly-1"] ∧
      (storeRouter later).RouteRepositoryAccessor firstChoice "default" "@hashed/a.git" false =
        some (.ok node) := by
  intro later
  have recorded : lagging.IncrementGeneration "default" "@hashed/a.git" "gitaly-1" ["gitaly-2"] =
      (later, .ok ()) := Prod.ext rfl (by decide)
  rcases accessor_follows_write (r := storeRouter later) lagging_bounded recorded (fun _ => "")
    rfl rfl firstChoice with ⟨node, -, took, routed⟩ | ⟨none, -⟩
  · exact ⟨node, took.2, routed⟩
  · exact absurd ⟨by decide, by decide⟩ (none ⟨"gitaly-1", Option.none⟩ (by decide))

end reads

end Gitaly.Praefect
