import Gitaly.Base.DistinctOn
import Gitaly.Praefect.Config
import Gitaly.Praefect.Router

/- Routing of a repository's creation by internal/praefect/router_per_repository.go. What an
index or a slice out of range would do, a panic, is the outcome `none`. -/
namespace Gitaly.Praefect

open PerRepositoryRouter Option List

/-- What the router leaves to chance. -/
structure Random where
  /-- `Intn` -/
  intn : Nat → Nat
  intn_lt : ∀ n, 0 < n → intn n < n
  /-- `Shuffle` -/
  shuffle : Sql.Scan RouterNode
  /-- The order in which a map is iterated over. -/
  mapOrder : Sql.Scan String

inductive CreationError where
  | router (err : RouterError)
  /-- no suitable node to serve the request -/
  | noSuitableNode
  /-- reserve repository id: %w -/
  | reserveRepositoryID (cause : String)
  deriving DecidableEq

/-- The router with what it uses for creations only. -/
structure CreationRouter extends PerRepositoryRouter where
  /-- The keys of `conns[virtualStorage]`. -/
  storages : String → List String
  defaultReplicationFactors : String → Int
  /-- `ReserveRepositoryID` -/
  reserveRepositoryID : String → String → Except String Int

/-- `list[:high]` -/
def slice {α : Type} (list : List α) (high : Int) : Option (List α) :=
  if 0 ≤ high ∧ high ≤ list.length then some (list.take high.toNat) else none

namespace CreationRouter

def pickRandom (random : Random) (nodes : List RouterNode) :
    Option (Except CreationError RouterNode) :=
  if nodes.length = 0 then some (.error .noSuitableNode)
  else nodes[random.intn nodes.length]?.map .ok

/-- The nodes that are connected, other than the primary. -/
def secondaryNodes (r : CreationRouter) (random : Random) (virtualStorage : String)
    (primary : RouterNode) : List RouterNode :=
  (random.mapOrder.order (r.storages virtualStorage)).filterMap (fun storage =>
    if storage = primary.storage then none
    else ((r.conns virtualStorage).bind (fun conns => conns storage)).map (RouterNode.mk storage))

def RouteRepositoryCreation (r : CreationRouter) (random : Random)
    (virtualStorage relativePath : String) :
    Option (Except CreationError RepositoryMutatorRoute) :=
  match r.healthyNodes virtualStorage with
  | .error err => some (.error (.router err))
  | .ok healthyNodes =>
    match pickRandom random healthyNodes with
    | none => none
    | some (.error err) => some (.error err)
    | some (.ok primary) =>
      match r.reserveRepositoryID virtualStorage relativePath with
      | .error cause => some (.error (.reserveRepositoryID cause))
      | .ok id =>
        let replicationFactor := r.defaultReplicationFactors virtualStorage
        if replicationFactor = 1 then some (.ok ⟨id, primary, [], []⟩)
        else
          let secondaryNodes := r.secondaryNodes random virtualStorage primary
          let selected :=
            if 0 < replicationFactor then
              slice (random.shuffle.order secondaryNodes) (replicationFactor - 1)
            else some secondaryNodes
          match selected with
          | none => none
          | some secondaryNodes =>
            let healthy := secondaryNodes.filter (fun node => node ∈ healthyNodes)
            let unhealthy := secondaryNodes.filter (fun node => node ∉ healthyNodes)
            some (.ok ⟨id, primary, healthy, unhealthy.map RouterNode.storage⟩)

/-- The router for a configuration: every configured storage has a connection. -/
def ofConfig (c : Config) (dial : String → String → Connection)
    (reserveRepositoryID : String → String → Except String Int) (base : PerRepositoryRouter) :
    CreationRouter :=
  let find := fun virtualStorage =>
    c.virtualStorages.find? (fun vs => vs.name = virtualStorage)
  { base with
    conns := fun virtualStorage => (find virtualStorage).map (fun vs storage =>
      if storage ∈ vs.nodes.map Node.storage then some (dial virtualStorage storage) else none)
    storages := fun virtualStorage =>
      ((find virtualStorage).map (fun vs => vs.nodes.map Node.storage)).getD []
    defaultReplicationFactors := fun virtualStorage =>
      ((find virtualStorage).map VirtualStorage.defaultReplicationFactor).getD 0
    reserveRepositoryID := reserveRepositoryID }

section nodes

variable {r : CreationRouter} {random : Random} {virtualStorage : String}
  {conns : String → Option Connection}

variable {nodes : List RouterNode}

theorem connectNodes_connection {storages : List String}
    (connected : connectNodes virtualStorage conns storages = .ok nodes) :
    ∀ node ∈ nodes, conns node.storage = some node.connection := by
  induction storages generalizing nodes with
  | nil =>
    cases connected
    exact fun _ absent => absurd absent not_mem_nil
  | cons storage rest ih =>
    unfold PerRepositoryRouter.connectNodes at connected
    split at connected
    · cases connected
    rename_i connection found
    split at connected
    · cases connected
    rename_i tail connectedTail
    cases connected
    exact forall_mem_cons.mpr ⟨found, ih connectedTail⟩

theorem healthyNodes_ok (healthy : r.healthyNodes virtual = .ok nodes) :
    nodes ≠ [] ∧ ∃ conns, r.conns virtual = some conns ∧
      ∀ node ∈ nodes, conns node.storage = some node.connection := by
  unfold PerRepositoryRouter.healthyNodes at healthy
  split at healthy
  · cases healthy
  rename_i conns connections
  split at healthy
  · cases healthy
  rename_i connected
  split at healthy
  · cases healthy
  rename_i some_node
  cases healthy
  exact ⟨fun none => some_node (by rw [none]; rfl), conns, connections,
    connectNodes_connection connected⟩

theorem pickRandom_eq (random : Random) (nonempty : nodes ≠ []) :
    ∃ primary ∈ nodes, pickRandom random nodes = some (.ok primary) := by
  have positive := length_pos_of_ne_nil nonempty
  have inRange := random.intn_lt nodes.length positive
  refine ⟨nodes[random.intn nodes.length], getElem_mem inRange, ?_⟩
  rw [pickRandom, if_neg (by omega), getElem?_eq_getElem inRange, map_some]

variable (connections : r.conns virtualStorage = some conns)
  (connected : ∀ storage ∈ r.storages virtualStorage, (conns storage).isSome = true)

include connections

theorem mem_secondaryNodes {primary node : RouterNode}
    (member : node ∈ r.secondaryNodes random virtualStorage primary) :
    conns node.storage = some node.connection := by
  obtain ⟨storage, -, found⟩ := mem_filterMap.mp member
  split at found
  · cases found
  rw [connections, bind_some] at found
  obtain ⟨connection, isConnected, rfl⟩ := map_eq_some_iff.mp found
  exact isConnected

include connected

theorem secondaryNodes_storages (primary : RouterNode) :
    (r.secondaryNodes random virtualStorage primary).map RouterNode.storage =
      (random.mapOrder.order (r.storages virtualStorage)).filter (fun storage =>
        storage ≠ primary.storage) := by
  unfold secondaryNodes
  rw [map_filterMap, ← filterMap_eq_filter]
  apply filterMap_congr
  intro storage member
  have listed := (random.mapOrder.perm _).mem_iff.mp member
  obtain ⟨connection, isConnected⟩ := isSome_iff_exists.mp (connected storage listed)
  by_cases isPrimary : storage = primary.storage
  · simp [isPrimary, Option.guard]
  · simp [isPrimary, connections, isConnected, Option.guard]

variable (random) in
theorem secondaryNodes_perm {primary : RouterNode} (distinct : (r.storages virtualStorage).Nodup)
    (listed : primary.storage ∈ r.storages virtualStorage) :
    (primary.storage :: (r.secondaryNodes random virtualStorage primary).map
      RouterNode.storage).Perm (r.storages virtualStorage) := by
  have ordered := random.mapOrder.perm (r.storages virtualStorage)
  have erased := (ordered.nodup_iff.mpr distinct).erase_eq_filter primary.storage
  rw [secondaryNodes_storages connections connected]
  refine List.Perm.trans ?_ ordered
  have same : (random.mapOrder.order (r.storages virtualStorage)).filter (fun storage =>
      storage ≠ primary.storage) =
      (random.mapOrder.order (r.storages virtualStorage)).erase primary.storage := by
    rw [erased]
    apply filter_congr
    intro storage _
    simp [bne, Bool.beq_eq_decide_eq]
  rw [same]
  exact (perm_cons_erase (ordered.mem_iff.mpr listed)).symm

end nodes

/-- The storages that a route involves. -/
def participants (route : RepositoryMutatorRoute) : List String :=
  route.primary.storage :: receivers route

/-- A route of a certain size over configured storages, the healthy ones of which create the
repository while the others are to be replicated to. -/
structure Creates (configured healthy : List String) (size : Int) (route : RepositoryMutatorRoute) :
    Prop where
  primary : route.primary.storage ∈ healthy
  secondaries : ∀ node ∈ route.secondaries, node.storage ∈ healthy
  replicationTargets : ∀ storage ∈ route.replicationTargets, storage ∉ healthy
  distinct : (participants route).Nodup
  configured : ∀ storage ∈ participants route, storage ∈ configured
  size : ((participants route).length : Int) = size

section selected

variable {conns : String → Option Connection} {healthyNodes selected : List RouterNode}
  {primary : RouterNode}

theorem mem_healthyNodes_iff
    (healthy : ∀ node ∈ healthyNodes, conns node.storage = some node.connection)
    {node : RouterNode} (isConnected : conns node.storage = some node.connection) :
    node ∈ healthyNodes ↔ node.storage ∈ healthyNodes.map RouterNode.storage := by
  constructor
  · exact mem_map_of_mem
  · intro named
    obtain ⟨other, member, same⟩ := mem_map.mp named
    have connection := healthy other member
    rw [same, isConnected] at connection
    have equal : other = node := by
      cases other
      cases node
      cases same
      cases connection
      rfl
    exact equal ▸ member

/-- The selected nodes are divided by their health. -/
theorem creates_of_selected {configured : List String} (id : Int)
    (healthy : ∀ node ∈ healthyNodes, conns node.storage = some node.connection)
    (isHealthy : primary ∈ healthyNodes)
    (isSelected : ∀ node ∈ selected, conns node.storage = some node.connection)
    (distinct : (primary.storage :: selected.map RouterNode.storage).Nodup)
    (listed : ∀ storage ∈ primary.storage :: selected.map RouterNode.storage,
      storage ∈ configured) :
    Creates configured (healthyNodes.map RouterNode.storage) (selected.length + 1)
      ⟨id, primary, selected.filter (fun node => node ∈ healthyNodes),
        (selected.filter (fun node => node ∉ healthyNodes)).map RouterNode.storage⟩ := by
  have parts : (participants ⟨id, primary, selected.filter (fun node => node ∈ healthyNodes),
      (selected.filter (fun node => node ∉ healthyNodes)).map RouterNode.storage⟩).Perm
      (primary.storage :: selected.map RouterNode.storage) := by
    refine List.Perm.cons _ ?_
    unfold PerRepositoryRouter.receivers
    rw [← map_append]
    refine List.Perm.map _ ?_
    simpa only [decide_not] using
      filter_append_perm (fun node => decide (node ∈ healthyNodes)) selected
  refine ⟨mem_map_of_mem isHealthy, ?_, ?_, parts.nodup_iff.mpr distinct,
    fun storage member => listed storage (parts.mem_iff.mp member), ?_⟩
  · intro node member
    exact mem_map_of_mem (of_decide_eq_true (mem_filter.mp member).2)
  · intro storage member
    obtain ⟨node, chosen, rfl⟩ := mem_map.mp member
    obtain ⟨present, unhealthy⟩ := mem_filter.mp chosen
    rw [← mem_healthyNodes_iff healthy (isSelected node present)]
    exact of_decide_eq_true unhealthy
  · rw [parts.length_eq, length_cons, length_map]
    rfl

end selected

theorem slice_eq {α : Type} {list : List α} {high : Int} (low : 0 ≤ high)
    (inRange : high ≤ list.length) : slice list high = some (list.take high.toNat) :=
  if_pos ⟨low, inRange⟩

section creation

variable {r : CreationRouter} {random : Random} {virtualStorage path : String}
  {conns : String → Option Connection}

section

variable (connections : r.conns virtualStorage = some conns)
  (connected : ∀ storage, storage ∈ r.storages virtualStorage ↔ (conns storage).isSome = true)
  (distinct : (r.storages virtualStorage).Nodup)
include connections connected distinct

/-- Whatever is selected of the other nodes, in whatever order, makes a route of its size. -/
theorem creates_of_shuffled {healthyNodes full selected : List RouterNode} {primary : RouterNode}
    (healthy : ∀ node ∈ healthyNodes, conns node.storage = some node.connection)
    (isHealthy : primary ∈ healthyNodes)
    (shuffled : full.Perm (r.secondaryNodes random virtualStorage primary))
    (sub : selected.Sublist full) (id : Int) :
    Creates (r.storages virtualStorage) (healthyNodes.map RouterNode.storage) (selected.length + 1)
      ⟨id, primary, selected.filter (fun node => node ∈ healthyNodes),
        (selected.filter (fun node => node ∉ healthyNodes)).map RouterNode.storage⟩ := by
  have primaryListed : primary.storage ∈ r.storages virtualStorage := by
    rw [connected, healthy primary isHealthy]
    rfl
  have all := secondaryNodes_perm random connections
    (fun storage listed => (connected storage).mp listed) distinct primaryListed
  have chosen := (sub.map RouterNode.storage).cons_cons primary.storage
  have shuffledAll := ((shuffled.map RouterNode.storage).cons primary.storage).trans all
  refine creates_of_selected id healthy isHealthy ?_ ?_ ?_
  · intro node member
    exact mem_secondaryNodes connections (shuffled.mem_iff.mp (sub.subset member))
  · exact (shuffledAll.nodup_iff.mpr distinct).sublist chosen
  · intro storage member
    exact shuffledAll.mem_iff.mp (chosen.subset member)

theorem length_secondaryNodes {primary : RouterNode}
    (isConnected : conns primary.storage = some primary.connection) :
    (r.secondaryNodes random virtualStorage primary).length + 1 =
      (r.storages virtualStorage).length := by
  have listed : primary.storage ∈ r.storages virtualStorage := by
    rw [connected, isConnected]
    rfl
  have all := secondaryNodes_perm random connections
    (fun storage listed => (connected storage).mp listed) distinct listed
  rw [← all.length_eq, length_cons, length_map]

variable (random path) in
/-- The route of a router with connections to distinct storages, enough for the replication
factor. -/
theorem RouteRepositoryCreation_creates
    (enough : r.defaultReplicationFactors virtualStorage ≤ (r.storages virtualStorage).length) :
    ∃ outcome, r.RouteRepositoryCreation random virtualStorage path = some outcome ∧
      ∀ route, outcome = .ok route →
        Creates (r.storages virtualStorage) (r.hc virtualStorage)
          (if 0 < r.defaultReplicationFactors virtualStorage then
            r.defaultReplicationFactors virtualStorage
          else (r.storages virtualStorage).length) route := by
  unfold RouteRepositoryCreation
  cases healthy : r.healthyNodes virtualStorage with
  | error err => exact ⟨_, rfl, fun _ failed => by cases failed⟩
  | ok healthyNodes =>
    obtain ⟨nonempty, _, same, healthyConnected⟩ := healthyNodes_ok healthy
    cases connections.symm.trans same
    obtain ⟨primary, isHealthy, picked⟩ := pickRandom_eq random nonempty
    dsimp only
    rw [picked]
    cases r.reserveRepositoryID virtualStorage path with
    | error cause => exact ⟨_, rfl, fun _ failed => by cases failed⟩
    | ok id =>
      rw [← healthyNodes_storages healthy]
      have selects : ∀ {full selected : List RouterNode},
          full.Perm (r.secondaryNodes random virtualStorage primary) → selected.Sublist full →
          Creates _ _ _ _ := fun shuffled sub => creates_of_shuffled connections connected
        distinct healthyConnected isHealthy shuffled sub id
      have count : (r.secondaryNodes random virtualStorage primary).length + 1 = _ :=
        length_secondaryNodes connections connected distinct
          (healthyConnected primary isHealthy)
      dsimp only
      by_cases one : r.defaultReplicationFactors virtualStorage = 1
      · rw [if_pos one]
        refine ⟨_, rfl, ?_⟩
        rintro _ ⟨⟩
        rw [one]
        exact selects (List.Perm.refl _) (nil_sublist _)
      rw [if_neg one]
      by_cases positive : 0 < r.defaultReplicationFactors virtualStorage
      · have shuffled := random.shuffle.perm (r.secondaryNodes random virtualStorage primary)
        have length := shuffled.length_eq
        rw [if_pos positive, if_pos positive, slice_eq (by omega) (by omega)]
        refine ⟨_, rfl, ?_⟩
        rintro _ ⟨⟩
        have creates := selects shuffled (take_sublist
          (r.defaultReplicationFactors virtualStorage - 1).toNat _)
        rw [length_take] at creates
        convert creates using 1
        omega
      · rw [if_neg positive, if_neg positive]
        refine ⟨_, rfl, ?_⟩
        rintro _ ⟨⟩
        have creates := selects (List.Perm.refl _) (List.Sublist.refl _)
        convert creates using 1
        omega

end

end creation

section configured

variable {c : Config} {dial : String → String → Connection}
  {reserveRepositoryID : String → String → Except String Int} {base : PerRepositoryRouter}

/-- With a configuration that is accepted, a route to create a repository does not run out of
range and has the size that is configured. -/
theorem RouteRepositoryCreation_size (accepted : c.Validate = .ok ()) (random : Random)
    (virtualStorage relativePath : String) :
    ∃ outcome, (ofConfig c dial reserveRepositoryID base).RouteRepositoryCreation random
        virtualStorage relativePath = some outcome ∧
      ∀ route, outcome = .ok route → ∃ vs ∈ c.virtualStorages, vs.name = virtualStorage ∧
        Creates (vs.nodes.map Node.storage) (base.hc virtualStorage)
          (if 0 < vs.defaultReplicationFactor then vs.defaultReplicationFactor
          else vs.nodes.length) route := by
  cases found : c.virtualStorages.find? (fun vs => vs.name = virtualStorage) with
  | none =>
    have unknown : (ofConfig c dial reserveRepositoryID base).healthyNodes virtualStorage =
        .error .virtualStorageNotExist := by
      simp [healthyNodes, ofConfig, found]
    refine ⟨.error (.router .virtualStorageNotExist), ?_, fun _ failed => by cases failed⟩
    rw [RouteRepositoryCreation, unknown]
  | some vs =>
    have configured := mem_of_find?_eq_some found
    obtain ⟨distinct, enough⟩ := Config.Validate_virtualStorage accepted configured
    have storages : (ofConfig c dial reserveRepositoryID base).storages virtualStorage =
        vs.nodes.map Node.storage := by
      simp [ofConfig, found]
    have factor : (ofConfig c dial reserveRepositoryID base).defaultReplicationFactors
        virtualStorage = vs.defaultReplicationFactor := by
      simp [ofConfig, found]
    have connections : (ofConfig c dial reserveRepositoryID base).conns virtualStorage =
        some (fun storage => if storage ∈ vs.nodes.map Node.storage then
          some (dial virtualStorage storage) else none) := by
      simp only [ofConfig, found, map_some]
    have connected : ∀ storage,
        storage ∈ (ofConfig c dial reserveRepositoryID base).storages virtualStorage ↔
          (if storage ∈ vs.nodes.map Node.storage then some (dial virtualStorage storage)
            else none).isSome = true := by
      intro storage
      rw [storages]
      split <;> simp [*]
    obtain ⟨outcome, returned, creates⟩ := RouteRepositoryCreation_creates random relativePath
      connections connected (by rw [storages]; exact distinct)
      (by rw [storages, factor, length_map]; exact enough)
    refine ⟨outcome, returned, fun route isRoute => ⟨vs, configured, ?_, ?_⟩⟩
    · have named := find?_some found
      exact of_decide_eq_true named
    · have created := creates route isRoute
      rw [storages, factor, length_map] at created
      exact created

/-- Three storages, of which two hold a repository. -/
def threeStorages : Config where
  electionStrategy := "per_repository"
  listenAddr := "localhost:2305"
  tlsListenAddr := ""
  socketPath := ""
  batchSize := 10
  virtualStorages := [⟨"default", [⟨"gitaly-1", "tcp://gitaly-1"⟩, ⟨"gitaly-2", "tcp://gitaly-2"⟩,
    ⟨"gitaly-3", "tcp://gitaly-3"⟩], 2⟩]

/-- The health checker reports the first storage only. -/
def oneHealthy : PerRepositoryRouter where
  conns := fun _ => none
  hc := fun _ => ["gitaly-1"]
  pg := fun _ _ => .error ""
  csg := fun _ _ => .error ""
  ag := fun _ _ => .error ""
  rs := fun _ _ => .error ""

def firstChoice : Random := ⟨fun _ => 0, fun _ positive => positive, .forward, .forward⟩

def oneHealthyRoute : RepositoryMutatorRoute := ⟨7, ⟨"gitaly-1", some 1⟩, [], ["gitaly-2"]⟩

theorem oneHealthyRoute_creates :
    threeStorages.Validate = .ok () ∧
      (ofConfig threeStorages (fun _ _ => some 1) (fun _ _ => .ok 7)
        oneHealthy).RouteRepositoryCreation firstChoice "default" "@hashed/a.git" =
          some (.ok oneHealthyRoute) ∧
      ∃ vs ∈ threeStorages.virtualStorages, vs.name = "default" ∧
        Creates (vs.nodes.map Node.storage) ["gitaly-1"]
          (if 0 < vs.defaultReplicationFactor then vs.defaultReplicationFactor
          else vs.nodes.length) oneHealthyRoute := by
  have accepted : threeStorages.Validate = .ok () := by decide
  have routed : (ofConfig threeStorages (fun _ _ => some 1) (fun _ _ => .ok 7)
      oneHealthy).RouteRepositoryCreation firstChoice "default" "@hashed/a.git" =
        some (.ok oneHealthyRoute) := by decide
  obtain ⟨outcome, returned, creates⟩ :=
    RouteRepositoryCreation_size accepted firstChoice "default" "@hashed/a.git"
  cases returned.symm.trans routed
  exact ⟨accepted, routed, creates oneHealthyRoute rfl⟩

end configured

end CreationRouter

end Gitaly.Praefect
