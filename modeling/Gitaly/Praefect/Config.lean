import Gitaly.Base.Fallible
import Mathlib.Data.List.Nodup

/- The configuration that internal/praefect/config accepts, as far as `Validate` reads it. -/
namespace Gitaly.Praefect

open List

open Fallible (require)

abbrev ElectionStrategy := String

structure Node where
  storage : String
  address : String
  deriving DecidableEq

structure VirtualStorage where
  name : String
  nodes : List Node
  defaultReplicationFactor : Int
  deriving DecidableEq

structure Config where
  electionStrategy : ElectionStrategy
  listenAddr : String
  tlsListenAddr : String
  socketPath : String
  batchSize : Nat
  virtualStorages : List VirtualStorage
  deriving DecidableEq

inductive ConfigError where
  /-- invalid election strategy: %q -/
  | invalidElectionStrategy (strategy : ElectionStrategy)
  /-- no listen address or socket path configured -/
  | noListener
  /-- no virtual storages configured -/
  | noVirtualStorages
  /-- replication batch size was %d but must be >=1 -/
  | batchSize (size : Nat)
  /-- virtual storages must have a name -/
  | virtualStorageUnnamed
  /-- virtual storage %q: no primary gitaly backends configured -/
  | noGitalyServers (virtualStorage : String)
  /-- virtual storage %q: virtual storages must have unique names -/
  | virtualStoragesNotUnique (virtualStorage : String)
  /-- virtual storage %q: all gitaly nodes must have a storage -/
  | gitalyWithoutStorage (virtualStorage : String)
  /-- virtual storage %q: all gitaly nodes must have an address -/
  | gitalyWithoutAddr (virtualStorage : String)
  /-- virtual storage %q: internal gitaly storages are not unique -/
  | duplicateStorage (virtualStorage : String)
  /-- virtual storage %q: address %q : multiple storages have the same address -/
  | storageAddressDuplicate (virtualStorage address : String)
  /-- virtual storage %q has a default replication factor (%d) which is higher than the
  number of storages (%d) -/
  | replicationFactor (virtualStorage : String) (factor : Int) (storages : Nat)
  deriving DecidableEq

def ElectionStrategy.validate (es : ElectionStrategy) : Except ConfigError Unit :=
  require (es ∈ ["local", "sql", "per_repository"]) (.invalidElectionStrategy es)

namespace Config

/-- The loop over the nodes of one virtual storage. It returns all addresses seen. -/
def validateNodes (virtualStorage : String) :
    List Node → List String → List String → Except ConfigError (List String)
  | [], _, allAddresses => .ok allAddresses
  | node :: rest, storages, allAddresses => do
      require (node.storage ≠ "") (.gitalyWithoutStorage virtualStorage)
      require (node.address ≠ "") (.gitalyWithoutAddr virtualStorage)
      require (node.storage ∉ storages) (.duplicateStorage virtualStorage)
      require (node.address ∉ allAddresses) (.storageAddressDuplicate virtualStorage node.address)
      validateNodes virtualStorage rest (node.storage :: storages) (node.address :: allAddresses)

def validateVirtualStorages :
    List VirtualStorage → List String → List String → Except ConfigError Unit
  | [], _, _ => .ok ()
  | virtualStorage :: rest, virtualStorages, allAddresses => do
      require (virtualStorage.name ≠ "") .virtualStorageUnnamed
      require (virtualStorage.nodes ≠ []) (.noGitalyServers virtualStorage.name)
      require (virtualStorage.name ∉ virtualStorages)
        (.virtualStoragesNotUnique virtualStorage.name)
      let addresses ← validateNodes virtualStorage.name virtualStorage.nodes [] allAddresses
      require (virtualStorage.defaultReplicationFactor ≤ virtualStorage.nodes.length)
        (.replicationFactor virtualStorage.name virtualStorage.defaultReplicationFactor
          virtualStorage.nodes.length)
      validateVirtualStorages rest (virtualStorage.name :: virtualStorages) addresses

def Validate (c : Config) : Except ConfigError Unit := do
  c.electionStrategy.validate
  require (¬ (c.listenAddr = "" ∧ c.socketPath = "" ∧ c.tlsListenAddr = "")) .noListener
  require (c.virtualStorages ≠ []) .noVirtualStorages
  require (1 ≤ c.batchSize) (.batchSize c.batchSize)
  validateVirtualStorages c.virtualStorages [] []

/-- The storages behind a virtual storage, each with the name of the virtual storage. -/
def storages (c : Config) : List (String × String) :=
  c.virtualStorages.flatMap (fun virtualStorage =>
    virtualStorage.nodes.map (fun node => (virtualStorage.name, node.storage)))

theorem validateNodes_ok {virtual : String} {nodes : List Node} :
    ∀ {seen allAddresses addresses : List String},
      validateNodes virtual nodes seen allAddresses = .ok addresses →
      (∀ node ∈ nodes, node.storage ≠ "" ∧ node.storage ∉ seen) ∧
        (nodes.map Node.storage).Nodup := by
  induction nodes with
  | nil =>
    intro seen allAddresses addresses accepted
    simp
  | cons node rest ih =>
    intro seen allAddresses addresses accepted
    simp only [validateNodes, Fallible.bind_eq_ok, Fallible.require_eq_ok] at accepted
    obtain ⟨-, named, -, -, -, unseen, -, -, remaining⟩ := accepted
    obtain ⟨each, distinct⟩ := ih remaining
    constructor
    · intro other member
      rcases mem_cons.mp member with rfl | later
      · exact ⟨named, unseen⟩
      · exact ⟨(each other later).1, fun old => (each other later).2 (mem_cons_of_mem _ old)⟩
    · rw [map_cons, nodup_cons]
      refine ⟨fun repeated => ?_, distinct⟩
      obtain ⟨other, later, same⟩ := mem_map.mp repeated
      exact (each other later).2 (same ▸ mem_cons_self)

theorem validateVirtualStorages_ok {virtualStorages : List VirtualStorage} :
    ∀ {seen allAddresses : List String},
      validateVirtualStorages virtualStorages seen allAddresses = .ok () →
      (∀ vs ∈ virtualStorages, vs.name ≠ "" ∧ vs.name ∉ seen ∧
        (∀ node ∈ vs.nodes, node.storage ≠ "") ∧ (vs.nodes.map Node.storage).Nodup ∧
        vs.defaultReplicationFactor ≤ vs.nodes.length) ∧
        (virtualStorages.map VirtualStorage.name).Nodup := by
  induction virtualStorages with
  | nil =>
    intro seen allAddresses accepted
    simp
  | cons vs rest ih =>
    intro seen allAddresses accepted
    simp only [validateVirtualStorages, Fallible.bind_eq_ok, Fallible.require_eq_ok] at accepted
    obtain ⟨-, named, -, -, -, unseen, addresses, nodes, -, factor, remaining⟩ := accepted
    obtain ⟨stored, storagesDistinct⟩ := validateNodes_ok nodes
    obtain ⟨each, distinct⟩ := ih remaining
    constructor
    · intro other member
      rcases mem_cons.mp member with rfl | later
      · exact ⟨named, unseen, fun node present => (stored node present).1, storagesDistinct, factor⟩
      · obtain ⟨otherNamed, otherUnseen, otherNodes⟩ := each other later
        exact ⟨otherNamed, fun old => otherUnseen (mem_cons_of_mem _ old), otherNodes⟩
    · rw [map_cons, nodup_cons]
      refine ⟨fun repeated => ?_, distinct⟩
      obtain ⟨other, later, same⟩ := mem_map.mp repeated
      exact (each other later).2.1 (same ▸ mem_cons_self)

/-- The storages of a virtual storage have names of their own, and are enough for the default
replication factor. -/
theorem Validate_virtualStorage {c : Config} (accepted : c.Validate = .ok ()) {vs : VirtualStorage}
    (configured : vs ∈ c.virtualStorages) :
    (vs.nodes.map Node.storage).Nodup ∧ vs.defaultReplicationFactor ≤ vs.nodes.length := by
  simp only [Validate, Fallible.bind_eq_ok] at accepted
  obtain ⟨-, -, -, -, -, -, -, -, remaining⟩ := accepted
  exact ((validateVirtualStorages_ok remaining).1 vs configured).2.2.2

end Config

end Gitaly.Praefect
