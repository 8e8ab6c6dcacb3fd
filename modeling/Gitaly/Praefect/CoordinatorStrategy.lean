import Gitaly.Praefect.CoordinatorQuorum

/- The voting strategy of the coordinator: which sets of nodes are a quorum. -/
namespace Gitaly.Praefect

open Transactions Weights

/-- The votes of the nodes of a set. -/
def votesWithin (chosen : String → Prop) [DecidablePred chosen] (voters : List Member) : Nat :=
  weight (fun voter => voter.votes.toNat) (fun voter => chosen voter.name) voters

section strategy

variable {primary : RouterNode} {secondaries : List RouterNode} (chosen : String → Prop)
  [DecidablePred chosen]

theorem votesWithin_secondaries :
    votesWithin chosen (secondaries.map (fun secondary => ⟨secondary.storage, 1⟩)) =
      secondaries.countP (fun secondary => chosen secondary.storage) := by
  induction secondaries with
  | nil => rfl
  | cons secondary secondaries ih =>
    rw [List.map_cons, List.countP_cons, ← ih, votesWithin, weight_cons, Nat.add_comm]
    simp only [decide_eq_true_eq, UInt64.toNat_one]
    rfl

theorem votesWithin_transactionVoters (physical : secondaries.length < 2 ^ 63) :
    votesWithin chosen (transactionVoters primary secondaries) =
      (if chosen primary.storage then secondaries.length + 1 else 0) +
        secondaries.countP (fun secondary => chosen secondary.storage) := by
  rw [← votesWithin_secondaries, transactionVoters, votesWithin, weight_cons,
    secondaryLen_toNat physical]
  rfl

/-- The transaction is accepted, and the quorums are the sets of nodes that contain the
primary and, from two secondaries on, at least half of them. A slice of nodes, each of which
is a string and a pointer, does not exceed the address space. -/
theorem quorum_iff_primary_and_half (physical : 24 * secondaries.length < 2 ^ 63)
    (distinct : (primary.storage :: routerNodesToStorages secondaries).Nodup) :
    (∀ id, newTransaction id (transactionVoters primary secondaries)
      (transactionThreshold secondaries) = .ok ⟨id, transactionThreshold secondaries,
        transactionVoters primary secondaries, .transactionOpen, []⟩) ∧
    ∀ (chosen : String → Prop) [DecidablePred chosen],
      (transactionThreshold secondaries).toNat ≤
          votesWithin chosen (transactionVoters primary secondaries) ↔
        chosen primary.storage ∧ (2 ≤ secondaries.length → (secondaries.length + 1) / 2 ≤
          secondaries.countP (fun secondary => chosen secondary.storage)) := by
  have small : secondaries.length < 2 ^ 63 := by omega
  have threshold := transactionThreshold_toNat small
  constructor
  · intro id
    have total : votesOf (transactionVoters primary secondaries) = 2 * secondaries.length + 1 :=
      votesOf_transactionVoters small
    refine newTransaction_accepts id ?_ ?_ ?_ ?_
    · rw [transactionVoters_name]
      exact distinct
    · rw [threshold, total]
      split <;> omega
    · rw [threshold, total]
      split <;> omega
    · rw [threshold]
      split <;> omega
  · intro chosen _
    have most : secondaries.countP (fun secondary => chosen secondary.storage) ≤
      secondaries.length := List.countP_le_length
    rw [threshold, votesWithin_transactionVoters chosen small]
    by_cases led : chosen primary.storage
    · simp only [led, ↓reduceIte, true_and]
      split
      · rename_i several
        omega
      · rename_i few
        omega
    · simp only [led, ↓reduceIte, false_and, iff_false]
      omega

end strategy

theorem quorum_iff_primary_and_half_mutator :
    24 * mutatorRoute.secondaries.length < 2 ^ 63 ∧
      (mutatorRoute.primary.storage :: routerNodesToStorages mutatorRoute.secondaries).Nodup ∧
      ((transactionThreshold mutatorRoute.secondaries).toNat ≤ votesWithin (· ∈ ["a", "c"])
          (transactionVoters mutatorRoute.primary mutatorRoute.secondaries) ↔
        mutatorRoute.primary.storage ∈ ["a", "c"] ∧
          (2 ≤ mutatorRoute.secondaries.length → (mutatorRoute.secondaries.length + 1) / 2 ≤
            mutatorRoute.secondaries.countP (fun secondary => secondary.storage ∈ ["a", "c"]))) :=
  ⟨by decide, by decide, (quorum_iff_primary_and_half (by decide) (by decide)).2 _⟩

end Gitaly.Praefect
