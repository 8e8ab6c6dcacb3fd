import Gitaly.Datastore.ReplicationJob
import Gitaly.Praefect.Router
import Gitaly.Praefect.Transaction

/- The coordinator of a mutator, from the registration of its transaction to the
replication jobs that it leaves behind. -/
namespace Gitaly.Praefect

open Transactions (Member Transaction TransactionError VoteResult newTransaction)
open Datastore List

/-- What `transactions.Manager` needs to register a transaction: the last id that was
given out and the ids that are registered. -/
structure Manager where
  idSequence : UInt64
  transactions : List UInt64
  deriving DecidableEq

inductive RegisterError where
  | rejected (cause : TransactionError)
  /-- transaction exists already -/
  | existsAlready
  deriving DecidableEq

/-- The sequence moves on even if the registration fails. -/
def Manager.RegisterTransaction (mgr : Manager) (voters : List Member) (threshold : UInt64) :
    Manager × Except RegisterError Transaction :=
  let transactionID := mgr.idSequence + 1
  let next := { mgr with idSequence := transactionID }
  match newTransaction transactionID voters threshold with
  | .error err => (next, .error (.rejected err))
  | .ok transaction =>
    if transactionID ∈ mgr.transactions then (next, .error .existsAlready)
    else ({ next with transactions := transactionID :: mgr.transactions }, .ok transaction)

def transactionVoters (primary : RouterNode) (secondaries : List RouterNode) : List Member :=
  let secondaryLen := UInt64.ofNat secondaries.length
  ⟨primary.storage, secondaryLen + 1⟩ :: secondaries.map (fun secondary => ⟨secondary.storage, 1⟩)

def transactionThreshold (secondaries : List RouterNode) : UInt64 :=
  let secondaryLen := UInt64.ofNat secondaries.length
  let threshold := secondaryLen + 1
  if secondaries.length > 1 then threshold + (secondaryLen + 1) / 2 else threshold

def registerTransaction (txMgr : Manager) (primary : RouterNode) (secondaries : List RouterNode) :
    Manager × Except RegisterError Transaction :=
  txMgr.RegisterTransaction (transactionVoters primary secondaries)
    (transactionThreshold secondaries)

def routerNodesToStorages (nodes : List RouterNode) : List String := nodes.map RouterNode.storage

/-- What the calls on the `Transaction` interface return, in the order of the calls: the
transaction need not stand still between them. -/
structure Observed where
  countFirst : Nat
  countSecond : Nat
  didVote : String → Bool
  countThird : Nat
  state : Except String (List (String × VoteResult))

/-- The calls on one transaction, each with the transaction as the call finds it. -/
def observeEach (first second third fourth fifth : Transaction) : Observed where
  countFirst := first.CountSubtransactions
  countSecond := second.CountSubtransactions
  didVote := third.DidVote
  countThird := fourth.CountSubtransactions
  state := .ok fifth.State

/-- The calls on a transaction that stands still. -/
def observe (transaction : Transaction) : Observed :=
  observeEach transaction transaction transaction transaction transaction

/-- The labels under which nodes are logged and counted. -/
inductive Reason where
  /-- outdated -/
  | outdated
  /-- no-votes -/
  | noVotes
  /-- missing-tx-state -/
  | missingTxState
  /-- primary-not-committed -/
  | primaryNotCommitted
  /-- node-error-status -/
  | nodeErrorStatus
  /-- node-not-committed -/
  | nodeNotCommitted
  /-- updated -/
  | updated
  deriving DecidableEq

structure Classification where
  primaryDirtied : Bool
  updated : List String
  outdated : List String
  /-- `nodesByState`, entry by entry in the order of the writes. -/
  nodesByState : List (Reason × String)
  deriving DecidableEq

namespace Classification

/-- The primary is not considered to be dirty. -/
def clean : Classification := ⟨false, [], [], []⟩

def dirty : Classification := ⟨true, [], [], []⟩

def markOutdated (c : Classification) (reason : Reason) (nodes : List String) : Classification :=
  { c with
    outdated := c.outdated ++ nodes
    nodesByState := c.nodesByState ++ nodes.map (fun node => (reason, node)) }

def markUpdated (c : Classification) (node : String) : Classification :=
  { c with
    updated := c.updated ++ [node]
    nodesByState := c.nodesByState ++ [(.updated, node)] }

end Classification

section classify

variable {ε : Type} [DecidableEq ε] (errByNode : String → Option ε) (primaryErr : Option ε)

variable (nodeStates : List (String × VoteResult))

/-- One iteration of the loop over the secondaries. -/
def classifySecondary (c : Classification) (secondary : RouterNode) :
    Classification :=
  if errByNode secondary.storage ≠ primaryErr then
    c.markOutdated .nodeErrorStatus [secondary.storage]
  else if nodeStates.lookup secondary.storage ≠ some .committed then
    c.markOutdated .nodeNotCommitted [secondary.storage]
  else c.markUpdated secondary.storage

/-- `errByNode` reads as nil for a node without an error. -/
def getUpdatedAndOutdatedSecondaries (route : RepositoryMutatorRoute) (transaction : Observed)
    (errByNode : String → Option ε) : Classification :=
  let primaryErr := errByNode route.primary.storage
  if transaction.countFirst = 0 ∧ primaryErr ≠ none then .clean
  else if transaction.countSecond = 1 ∧ transaction.didVote route.primary.storage = false then
    .clean
  else
    let c := Classification.dirty.markOutdated .outdated route.replicationTargets
    if transaction.countThird = 0 then
      c.markOutdated .noVotes (routerNodesToStorages route.secondaries)
    else
      match transaction.state with
      | .error _ => c.markOutdated .missingTxState (routerNodesToStorages route.secondaries)
      | .ok nodeStates =>
        if nodeStates.lookup route.primary.storage ≠ some .committed then
          c.markOutdated .primaryNotCommitted (routerNodesToStorages route.secondaries)
        else route.secondaries.foldl (classifySecondary errByNode primaryErr nodeStates) c

/-- A secondary that did what the primary did, as far as the coordinator can tell. -/
def upToDate (secondary : RouterNode) : Bool :=
  errByNode secondary.storage = primaryErr ∧ nodeStates.lookup secondary.storage = some .committed

/-- What the loop over the secondaries adds to a classification. -/
structure Compares (ok : RouterNode → Bool) (secondaries : List RouterNode)
    (c after : Classification) : Prop where
  primaryDirtied : after.primaryDirtied = c.primaryDirtied
  updated : after.updated = c.updated ++ routerNodesToStorages (secondaries.filter ok)
  outdated : after.outdated =
    c.outdated ++ routerNodesToStorages (secondaries.filter (fun node => !ok node))

theorem foldl_classifySecondary (secondaries : List RouterNode) (c : Classification) :
    Compares (upToDate errByNode primaryErr nodeStates) secondaries c
      (secondaries.foldl (classifySecondary errByNode primaryErr nodeStates) c) := by
  induction secondaries generalizing c with
  | nil => exact ⟨rfl, (append_nil _).symm, (append_nil _).symm⟩
  | cons secondary rest ih =>
    rw [foldl_cons]
    have tail := ih (classifySecondary errByNode primaryErr nodeStates c secondary)
    by_cases ok : upToDate errByNode primaryErr nodeStates secondary = true
    · have both := of_decide_eq_true ok
      have step : classifySecondary errByNode primaryErr nodeStates c secondary =
          c.markUpdated secondary.storage := by
        rw [classifySecondary, if_neg (not_not.mpr both.1), if_neg (not_not.mpr both.2)]
      rw [step] at tail ⊢
      refine ⟨tail.primaryDirtied, ?_, ?_⟩
      · rw [tail.updated, filter_cons_of_pos ok]
        exact append_assoc _ _ _
      · rw [tail.outdated, filter_cons_of_neg (by simp [ok])]
        rfl
    · have step : ∃ reason, classifySecondary errByNode primaryErr nodeStates c secondary =
          c.markOutdated reason [secondary.storage] := by
        unfold classifySecondary
        split
        · exact ⟨_, rfl⟩
        rename_i sameError
        refine ⟨.nodeNotCommitted, if_pos fun committed => ok (decide_eq_true ?_)⟩
        exact ⟨not_not.mp sameError, committed⟩
      obtain ⟨reason, step⟩ := step
      rw [step] at tail ⊢
      refine ⟨tail.primaryDirtied, ?_, ?_⟩
      · rw [tail.updated, filter_cons_of_neg ok]
        rfl
      · rw [tail.outdated, filter_cons_of_pos (by simp [ok])]
        exact append_assoc _ _ _

/-- The ways in which the coordinator comes to its classification. -/
inductive Classifies (route : RepositoryMutatorRoute) (transaction : Observed)
    (errByNode : String → Option ε) : Classification → Prop
  | unvoted (empty : transaction.countFirst = 0) (failed : errByNode route.primary.storage ≠ none) :
      Classifies route transaction errByNode .clean
  | dropped (one : transaction.countSecond = 1)
      (missing : transaction.didVote route.primary.storage = false) :
      Classifies route transaction errByNode .clean
  | replicate (reason : Reason) :
      Classifies route transaction errByNode
        ((Classification.dirty.markOutdated .outdated route.replicationTargets).markOutdated reason
          (routerNodesToStorages route.secondaries))
  | compare (nodeStates : List (String × VoteResult)) (state : transaction.state = .ok nodeStates)
      (committed : nodeStates.lookup route.primary.storage = some .committed) :
      Classifies route transaction errByNode
        (route.secondaries.foldl
          (classifySecondary errByNode (errByNode route.primary.storage) nodeStates)
          (Classification.dirty.markOutdated .outdated route.replicationTargets))

theorem getUpdatedAndOutdatedSecondaries_classifies (route : RepositoryMutatorRoute)
    (transaction : Observed) (errByNode : String → Option ε) :
    Classifies route transaction errByNode
      (getUpdatedAndOutdatedSecondaries route transaction errByNode) := by
  unfold getUpdatedAndOutdatedSecondaries
  dsimp only
  split
  · rename_i failed
    exact .unvoted failed.1 failed.2
  split
  · rename_i missing
    exact .dropped missing.1 missing.2
  split
  · exact .replicate .noVotes
  split
  · exact .replicate .missingTxState
  rename_i nodeStates state
  split
  · exact .replicate .primaryNotCommitted
  · rename_i committed
    exact .compare nodeStates state (not_not.mp committed)

end classify

inductive StoreError where
  | repositoryNotExists
  | repositoryExists
  /-- no rows were affected by the query -/
  | noRowsAffected
  | other (message : String)
  deriving DecidableEq

/-- The answers of the repository store to the calls of a finalizer. -/
structure RepositoryStore where
  incrementGeneration (virtualStorage relativePath primary : String) (secondaries : List String) :
    Option StoreError
  renameRepository (virtualStorage relativePath storage newRelativePath : String) :
    Option StoreError
  deleteRepository (virtualStorage relativePath : String) (storages : List String) :
    Option StoreError
  createRepository (repositoryID : Int) (virtualStorage relativePath primary : String)
    (updatedSecondaries outdatedSecondaries : List String) (storePrimary storeAssignments : Bool) :
    Option StoreError

inductive FinalizerError where
  /-- increment generation: %w -/
  | incrementGeneration (cause : StoreError)
  /-- rename repository: %w -/
  | renameRepository (cause : StoreError)
  /-- delete repository: %w -/
  | deleteRepository (cause : StoreError)
  /-- create repository: %w -/
  | createRepository (cause : StoreError)
  /-- The run-time panic of a failed type assertion. -/
  | typeAssertion
  /-- enqueue replication event: %w -/
  | enqueue (cause : String)
  deriving DecidableEq

/-- What a finalizer knows of the mutator it finishes. -/
structure Mutation where
  repositoryID : Int
  virtualStorage : String
  relativePath : String
  primary : String
  change : ChangeType
  params : Params
  /-- `ElectionStrategy == ElectionStrategyPerRepository` -/
  repositorySpecificPrimariesEnabled : Bool
  /-- `DefaultReplicationFactors()[virtualStorage]` -/
  defaultReplicationFactor : Int
  correlationID : String

namespace Mutation

/-- An error that is not tolerated for the change ends the finalizer. -/
def reject (err : Option StoreError) (tolerated : Option StoreError)
    (wrap : StoreError → FinalizerError) (change : ChangeType) : Except FinalizerError ChangeType :=
  match err with
  | none => .ok change
  | some cause => if some cause = tolerated then .ok change else .error (wrap cause)

variable (m : Mutation)

/-- The store update of `newRequestFinalizer`; it returns the change of the jobs. -/
def updateStore (rs : RepositoryStore) (updatedSecondaries outdatedSecondaries : List String) :
    Except FinalizerError ChangeType :=
  match m.change with
  | .update =>
    reject (rs.incrementGeneration m.virtualStorage m.relativePath m.primary updatedSecondaries)
      none .incrementGeneration .update
  | .rename =>
    match m.params.get "RelativePath" with
    | some (.string newRelativePath) =>
      reject (rs.renameRepository m.virtualStorage m.relativePath m.primary newRelativePath)
        (some .repositoryNotExists) .renameRepository .rename
    | _ => .error .typeAssertion
  | .delete =>
    reject (rs.deleteRepository m.virtualStorage m.relativePath (updatedSecondaries ++ [m.primary]))
      (some .noRowsAffected) .deleteRepository .delete
  | .create =>
    let variableReplicationFactorEnabled :=
      m.repositorySpecificPrimariesEnabled && decide (m.defaultReplicationFactor > 0)
    reject (rs.createRepository m.repositoryID m.virtualStorage m.relativePath m.primary
        updatedSecondaries outdatedSecondaries m.repositorySpecificPrimariesEnabled
        variableReplicationFactorEnabled)
      (some .repositoryExists) .createRepository .update
  | change => .ok change

def job (change : ChangeType) (secondary : String) : ReplicationJob where
  repositoryID := m.repositoryID
  change := change
  relativePath := m.relativePath
  targetNodeStorage := secondary
  sourceNodeStorage := m.primary
  virtualStorage := m.virtualStorage
  params := m.params

/-- The metadata of every event: its correlation id. -/
def eventMetadata : Params :=
  some ⟨[("correlation_id", .string m.correlationID)], List.pairwise_singleton _ _⟩

def event (change : ChangeType) (secondary : String) : ReplicationEvent :=
  ⟨m.job change secondary, m.eventMetadata⟩

/-- The events that are handed to `Enqueue`, each by a goroutine of its own, and the
error returned. `enqueue` gives the answers; `g.Wait` returns one of the errors, which one is
left to the scheduler and read off in the order of the secondaries here. -/
def newRequestFinalizer (rs : RepositoryStore) (enqueue : ReplicationEvent → Option String)
    (updatedSecondaries outdatedSecondaries : List String) :
    List ReplicationEvent × Option FinalizerError :=
  match m.updateStore rs updatedSecondaries outdatedSecondaries with
  | .error err => ([], some err)
  | .ok change =>
    let events := outdatedSecondaries.map (m.event change)
    (events, (events.findSome? enqueue).map .enqueue)

end Mutation

end Gitaly.Praefect
