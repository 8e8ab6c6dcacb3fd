import Gitaly.Praefect.Coordinator
import Gitaly.Praefect.TransactionAgreement
import Gitaly.Praefect.TransactionLifecycle

/- The transactions that the coordinator registers: no quorum without the primary, and
what that means for the nodes it considers clean or updated. -/
namespace Gitaly.Praefect

open Transactions List

theorem votesOf_secondaries (secondaries : List RouterNode) :
    votesOf (secondaries.map (fun secondary => ⟨secondary.storage, 1⟩)) = secondaries.length := by
  induction secondaries with
  | nil => rfl
  | cons secondary secondaries ih =>
    rw [map_cons, votesOf_cons, ih, UInt64.toNat_one, length_cons]
    omega

theorem transactionVoters_name (primary : RouterNode) (secondaries : List RouterNode) :
    (transactionVoters primary secondaries).map Member.name =
      primary.storage :: routerNodesToStorages secondaries := by
  simp only [transactionVoters, routerNodesToStorages, map_cons, map_map,
    Function.comp_def]

section registration

variable {primary : RouterNode} {secondaries : List RouterNode}
  (physical : secondaries.length < 2 ^ 63)

include physical

theorem secondaryLen_toNat :
    (UInt64.ofNat secondaries.length + 1).toNat = secondaries.length + 1 := by
  rw [UInt64.toNat_add, UInt64.toNat_ofNat', UInt64.toNat_one]
  omega

theorem votesOf_transactionVoters :
    votesOf (transactionVoters primary secondaries) = 2 * secondaries.length + 1 := by
  rw [transactionVoters, votesOf_cons, votesOf_secondaries, secondaryLen_toNat physical]
  omega

theorem transactionThreshold_toNat :
    (transactionThreshold secondaries).toNat = secondaries.length + 1 +
      if 2 ≤ secondaries.length then (secondaries.length + 1) / 2 else 0 := by
  have len := secondaryLen_toNat physical
  have two : (2 : UInt64).toNat = 2 := rfl
  unfold transactionThreshold
  split
  · rename_i several
    rw [if_pos (by omega), UInt64.toNat_add, UInt64.toNat_div, two, len]
    omega
  · rename_i few
    rw [if_neg (by omega), len, Nat.add_zero]

theorem le_transactionThreshold :
    secondaries.length + 1 ≤ (transactionThreshold secondaries).toNat := by
  rw [transactionThreshold_toNat physical]
  exact Nat.le_add_right _ _

end registration

theorem registerTransaction_ok {txMgr after : Manager} {primary : RouterNode}
    {secondaries : List RouterNode} {t : Transaction}
    (registered : registerTransaction txMgr primary secondaries = (after, .ok t)) :
    newTransaction (txMgr.idSequence + 1) (transactionVoters primary secondaries)
      (transactionThreshold secondaries) = .ok t := by
  unfold registerTransaction Manager.RegisterTransaction at registered
  dsimp only at registered
  split at registered
  · cases registered
  rename_i transaction accepted
  split at registered
  · cases registered
  cases registered
  exact accepted

end Gitaly.Praefect

namespace Gitaly.Transactions

open Weights

variable {sub : Subtransaction}

theorem Subtransaction.total_of_roster {t : Transaction}
    (same : sub.roster = t.roster) : sub.total = votesOf t.voters := by
  have votes := congrArg (List.map (fun entry => entry.2.toNat)) same
  simp only [roster, Transaction.roster, List.map_map, Function.comp_def] at votes
  simp only [total, weight, ↓reduceIte, Voter.weight, votesOf, votes]

/-- A voter with more votes than the quorum can spare is part of every quorum. -/
theorem Subtransaction.Inv.indispensable
    (inv : sub.Inv) {leader voter : Voter} (leads : leader ∈ sub.votersByNode)
    (spare : sub.total < sub.threshold.toNat + leader.weight)
    (member : voter ∈ sub.votersByNode) (committed : voter.result = .committed) :
    ∃ vote, voter.vote = some vote ∧ leader.vote = some vote := by
  obtain ⟨vote, cast, quorum⟩ := inv.backed voter member committed
  refine ⟨vote, cast, ?_⟩
  by_contra absent
  have upper := inv.accounted.upper vote
  have room : sub.support vote + leader.weight ≤ sub.total :=
    weight_add_absent Voter.weight (fun voter => voter.vote = some vote)
      sub.votersByNode.rows leader leads absent
  omega

end Gitaly.Transactions

namespace Gitaly.Praefect

open Transactions
open Runs

section registered

variable {txMgr after : Manager} {primary : RouterNode} {secondaries : List RouterNode}
  {t : Transaction} {world : World} (physical : secondaries.length < 2 ^ 63)
  (registered : registerTransaction txMgr primary secondaries = (after, .ok t))
  (reached : Reaches World.step t.world world)

include physical registered reached

theorem counted_of_registered : world.Counted := by
  refine World.counted_of_reaches (registerTransaction_ok registered) ?_ reached
  rw [votesOf_transactionVoters physical]
  omega

/-- Whoever commits has voted as the primary has. -/
theorem primary_votes_along : ∀ sub ∈ world.transaction.subtransactions,
    ∀ voter ∈ sub.votersByNode, voter.result = .committed →
      ∃ vote, voter.vote = some vote ∧ ∃ leader ∈ sub.votersByNode,
        leader.name = primary.storage ∧ leader.vote = some vote := by
  intro sub member voter present committed
  have counted := counted_of_registered physical registered reached
  have inv := counted.inv sub member
  obtain ⟨created, -, -⟩ := newTransaction_ok (registerTransaction_ok registered)
  obtain ⟨voters, threshold⟩ := World.electorate_of_reaches reached
  have sameVoters : world.transaction.voters = transactionVoters primary secondaries := by
    rw [voters, created]
    rfl
  have roster := counted.roster sub member
  have leads : (primary.storage, UInt64.ofNat secondaries.length + 1) ∈ sub.roster := by
    rw [roster, Transaction.roster, sameVoters]
    exact List.mem_cons_self
  obtain ⟨leader, leaderPresent, leaderIs⟩ := List.mem_map.mp leads
  obtain ⟨named, votes⟩ := Prod.mk.inj leaderIs
  have weight : leader.weight = secondaries.length + 1 := by
    rw [Voter.weight, votes, secondaryLen_toNat physical]
  have total : sub.total = 2 * secondaries.length + 1 := by
    rw [Subtransaction.total_of_roster roster, sameVoters, votesOf_transactionVoters physical]
  have quorum : secondaries.length + 1 ≤ sub.threshold.toNat := by
    rw [counted.threshold sub member, threshold, created]
    exact le_transactionThreshold physical
  obtain ⟨vote, cast, same⟩ := inv.indispensable leaderPresent (by omega) present committed
  exact ⟨vote, cast, leader, leaderPresent, named, same⟩

/-- Nobody commits in a subtransaction on which the primary has not voted. -/
theorem nobody_commits_without_primary : ∀ sub ∈ world.transaction.subtransactions,
    ¬ sub.Cast primary.storage → ∀ node, ¬ sub.Committed node := by
  intro sub member absent node committed
  obtain ⟨voter, present, -, isCommitted⟩ := committed
  obtain ⟨vote, -, leader, leaderPresent, named, cast⟩ :=
    primary_votes_along physical registered reached sub member voter present isCommitted
  exact absent ⟨leader, leaderPresent, named, by rw [cast]; exact Option.some_ne_none vote⟩

end registered

section classify

variable {ε : Type} [DecidableEq ε] {errByNode : String → Option ε} {route : RepositoryMutatorRoute}

/-- The two ways in which the primary is found clean. -/
theorem primaryDirtied_eq_false {transaction : Observed}
    (clean : (getUpdatedAndOutdatedSecondaries route transaction errByNode).primaryDirtied =
      false) :
    transaction.countFirst = 0 ∨
      transaction.countSecond = 1 ∧ transaction.didVote route.primary.storage = false := by
  generalize outcome : getUpdatedAndOutdatedSecondaries route transaction errByNode = c at clean
  have classifies := getUpdatedAndOutdatedSecondaries_classifies route transaction errByNode
  rw [outcome] at classifies
  cases classifies with
  | unvoted empty failed => exact .inl empty
  | dropped one missing => exact .inr ⟨one, missing⟩
  | replicate reason => cases clean
  | compare nodeStates state committed =>
    rw [(foldl_classifySecondary _ _ _ _ _).primaryDirtied] at clean
    cases clean

/-- A node counts as updated only if it and the primary are reported as committed. -/
theorem updated_committed {transaction : Observed} {node : String}
    (member : node ∈ (getUpdatedAndOutdatedSecondaries route transaction errByNode).updated) :
    ∃ nodeStates, transaction.state = .ok nodeStates ∧
      nodeStates.lookup route.primary.storage = some .committed ∧
      nodeStates.lookup node = some .committed := by
  generalize outcome : getUpdatedAndOutdatedSecondaries route transaction errByNode = c at member
  have classifies := getUpdatedAndOutdatedSecondaries_classifies route transaction errByNode
  rw [outcome] at classifies
  cases classifies with
  | unvoted | dropped | replicate => cases member
  | compare nodeStates state committed =>
    refine ⟨nodeStates, state, committed, ?_⟩
    rw [(foldl_classifySecondary _ _ _ _ _).updated] at member
    rcases List.mem_append.mp member with before | compared
    · cases before
    obtain ⟨secondary, ok, named⟩ := List.mem_map.mp compared
    have both := of_decide_eq_true (List.mem_filter.mp ok).2
    rw [← named]
    exact both.2

end classify

/-- A repository with its primary on `a` and two secondaries. -/
def mutatorRoute : RepositoryMutatorRoute := ⟨1, ⟨"a", some 0⟩, [⟨"b", some 1⟩, ⟨"c", some 2⟩], []⟩

def mutatorTransaction : Transaction where
  id := 1
  threshold := 4
  voters := [⟨"a", 3⟩, ⟨"b", 1⟩, ⟨"c", 1⟩]
  state := .transactionOpen
  subtransactions := []

theorem mutator_registered :
    registerTransaction ⟨0, []⟩ mutatorRoute.primary mutatorRoute.secondaries =
      (⟨1, [1]⟩, .ok mutatorTransaction) := by decide

/-- The secondaries cast the same vote before the primary has voted. -/
def unledRun : List Event :=
  [.vote "b" 7, .getOrCreateSubtransaction, .cast 0 [7], .vote "c" 7, .getOrCreateSubtransaction,
    .cast 1 [7]]

/-- The primary and `b` commit, then the coordinator cancels the transaction. -/
def mutatorRun : List Event :=
  [.vote "a" 7, .getOrCreateSubtransaction, .cast 0 [7], .vote "b" 7, .getOrCreateSubtransaction,
    .cast 1 [7], .cancel, .cancelNext, .cancelReturn]

section finalizer

variable {txMgr after : Manager} {route : RepositoryMutatorRoute} {t : Transaction}
  {world : World}

/-- The primary is always part of the quorum, so nothing has been committed anywhere
when the primary is found clean. -/
theorem primary_part_of_quorum (physical : route.secondaries.length < 2 ^ 63)
    (registered : registerTransaction txMgr route.primary route.secondaries = (after, .ok t))
    (reached : Reaches World.step t.world world) :
    (∀ subtransaction ∈ world.transaction.subtransactions, ∀ secondary ∈ route.secondaries,
      ∀ voter ∈ subtransaction.votersByNode, voter.name = secondary.storage →
        voter.result = .committed →
        ∃ vote, voter.vote = some vote ∧ ∃ leader ∈ subtransaction.votersByNode,
          leader.name = route.primary.storage ∧ leader.vote = some vote) ∧
    (∀ (ε : Type) [DecidableEq ε] (errByNode : String → Option ε),
      (getUpdatedAndOutdatedSecondaries route (observe world.transaction)
        errByNode).primaryDirtied = false →
      ∀ subtransaction ∈ world.transaction.subtransactions, ∀ node,
        ¬ subtransaction.Committed node) := by
  constructor
  · intro subtransaction member secondary _ voter present _ committed
    exact primary_votes_along physical registered reached subtransaction member voter present
      committed
  · intro ε _ errByNode clean subtransaction member
    rcases primaryDirtied_eq_false clean with none | ⟨one, unvoted⟩
    · have empty : world.transaction.subtransactions = [] := List.length_eq_zero_iff.mp none
      rw [empty] at member
      cases member
    · apply nobody_commits_without_primary physical registered reached subtransaction member
      intro cast
      obtain ⟨first, single⟩ := List.length_eq_one_iff.mp one
      have voted : world.transaction.DidVote route.primary.storage = true := by
        rw [single, List.mem_singleton] at member
        rw [Transaction.didVote_first]
        exact ⟨first, by rw [single]; rfl, member ▸ cast⟩
      have missing : world.transaction.DidVote route.primary.storage = false := unvoted
      rw [voted] at missing
      cases missing

theorem primary_part_of_quorum_mutator :
    (getUpdatedAndOutdatedSecondaries mutatorRoute (observe ((exec World.step
        mutatorTransaction.world unledRun).get (by decide)).transaction)
        (fun _ => (none : Option Unit))).primaryDirtied = false ∧
      ∀ subtransaction ∈ ((exec World.step mutatorTransaction.world unledRun).get
        (by decide)).transaction.subtransactions, ∀ node, ¬ subtransaction.Committed node :=
  ⟨by decide, (primary_part_of_quorum (by decide) mutator_registered
    (Reaches.of_exec (by decide))).2 Unit (fun _ => none) (by decide)⟩

/-- Updated secondaries did exactly what the primary did, in every subtransaction. -/
theorem updated_secondaries_follow_primary {ε : Type} [DecidableEq ε]
    (physical : route.secondaries.length < 2 ^ 63)
    (registered : registerTransaction txMgr route.primary route.secondaries = (after, .ok t))
    (reached : Reaches World.step t.world world) (errByNode : String → Option ε) :
    ∀ node ∈ (getUpdatedAndOutdatedSecondaries route (observe world.transaction) errByNode).updated,
      ∀ subtransaction ∈ world.transaction.subtransactions,
        ∃ secondary ∈ subtransaction.votersByNode, ∃ leader ∈ subtransaction.votersByNode,
          secondary.name = node ∧ leader.name = route.primary.storage ∧
          secondary.result = .committed ∧ leader.result = .committed ∧
          secondary.vote = leader.vote := by
  intro node updated subtransaction member
  have inv := World.inv_of_reaches (registerTransaction_ok registered) reached
  have counted := counted_of_registered physical registered reached
  obtain ⟨nodeStates, state, primaryCommitted, nodeCommitted⟩ := updated_committed updated
  have reported : nodeStates = world.transaction.State := (Except.ok.inj state).symm
  rw [reported] at primaryCommitted nodeCommitted
  obtain ⟨secondary, left, named, committed⟩ :=
    ((inv.state_iff node).mp nodeCommitted).2 subtransaction member
  obtain ⟨leader, right, leads, leaderCommitted⟩ :=
    ((inv.state_iff route.primary.storage).mp primaryCommitted).2 subtransaction member
  exact ⟨secondary, left, leader, right, named, leads, committed, leaderCommitted,
    (counted.inv subtransaction member).agreement left right committed leaderCommitted⟩

theorem updated_secondaries_follow_primary_mutator :
    (getUpdatedAndOutdatedSecondaries mutatorRoute (observe ((exec World.step
        mutatorTransaction.world mutatorRun).get (by decide)).transaction)
        (fun _ => (none : Option Unit))).updated = ["b"] ∧
      ∀ subtransaction ∈ ((exec World.step mutatorTransaction.world mutatorRun).get
        (by decide)).transaction.subtransactions,
        ∃ secondary ∈ subtransaction.votersByNode, ∃ leader ∈ subtransaction.votersByNode,
          secondary.name = "b" ∧ leader.name = "a" ∧
          secondary.result = .committed ∧ leader.result = .committed ∧
          secondary.vote = leader.vote :=
  ⟨by decide, updated_secondaries_follow_primary (by decide) mutator_registered
    (Reaches.of_exec (by decide)) (fun _ => (none : Option Unit)) "b" (by decide)⟩

end finalizer

/-- The coordinator cancels the transaction before it classifies the nodes; from then on
it makes no difference when it reads what, while late votes still come in. -/
theorem classification_stable {id threshold : UInt64} {voters : List Member} {t : Transaction}
    {world closed first second third fourth fifth : World}
    (accepted : newTransaction id voters threshold = .ok t)
    (reached : Reaches World.step t.world world) (taken : world.step .cancelReturn = some closed)
    (later : ∀ read ∈ [first, second, third, fourth, fifth], Reaches World.step closed read)
    {ε : Type} [DecidableEq ε] (route : RepositoryMutatorRoute) (errByNode : String → Option ε) :
    getUpdatedAndOutdatedSecondaries route (observeEach first.transaction second.transaction
        third.transaction fourth.transaction fifth.transaction) errByNode =
      getUpdatedAndOutdatedSecondaries route (observe closed.transaction) errByNode := by
  have frozen : ∀ read ∈ [first, second, third, fourth, fifth],
      read.transaction.electorates = closed.transaction.electorates :=
    fun read member => (World.dead_of_closed accepted reached (.inl rfl) taken
      (later read member)).frozen
  have counts : ∀ read ∈ [first, second, third, fourth, fifth],
      read.transaction.CountSubtransactions = closed.transaction.CountSubtransactions :=
    fun read member => Transaction.count_of_electorates (frozen read member)
  unfold getUpdatedAndOutdatedSecondaries observe observeEach
  rw [counts first (by simp), counts second (by simp), counts fourth (by simp),
    Transaction.didVote_of_electorates (frozen third (by simp))]
  by_cases none : closed.transaction.CountSubtransactions = 0
  · simp only [none, ↓reduceIte]
  · rw [Transaction.state_of_electorates (frozen fifth (by simp))
      (by rw [counts fifth (by simp)]; exact none)]

/-- A call of `a` comes when the transaction is closed. -/
theorem classification_stable_mutator :
    let canceling := (exec World.step mutatorTransaction.world (mutatorRun.take 8)).get (by decide)
    let closed := (canceling.step .cancelReturn).get (by decide)
    let late := ((closed.step (.vote "a" 9)).get (by decide)).transaction
    getUpdatedAndOutdatedSecondaries mutatorRoute (observeEach late late late late late)
        (fun _ => (none : Option Unit)) =
      getUpdatedAndOutdatedSecondaries mutatorRoute (observe closed.transaction)
        (fun _ => (none : Option Unit)) := by
  refine classification_stable (registerTransaction_ok mutator_registered)
    (Reaches.of_exec (by decide)) (Option.some_get _).symm ?_ _ _
  intro read member
  rw [List.eq_of_mem_replicate (show read ∈ List.replicate 5 _ from member)]
  exact (Reaches.refl _ _).snoc (Option.some_get _).symm

end Gitaly.Praefect
