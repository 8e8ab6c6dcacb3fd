import Gitaly.Base.Weights
import Gitaly.Praefect.Subtransaction

/- The vote counts of a subtransaction as sums over its voters. The source counts
in machine words; everything here is stated over the natural numbers, under the
bound that keeps the words from wrapping. -/
namespace Gitaly.Transactions

open Weights List Nat

def Voter.weight (voter : Voter) : Nat := voter.votes.toNat

theorem Voter.weight_withVote (vote : Vote) (voter : Voter) :
    (voter.withVote vote).weight = voter.weight := rfl

theorem Voter.weight_withResult (result : VoteResult) (voter : Voter) :
    (voter.withResult result).weight = voter.weight := rfl

namespace Subtransaction

variable (t : Subtransaction)

def total : Nat := weight Voter.weight (fun _ => True) t.votersByNode.rows

/-- Votes of the voters that have cast `vote`, withdrawn or not. -/
def support (vote : Vote) : Nat :=
  weight Voter.weight (fun voter => voter.vote = some vote) t.votersByNode.rows

/-- Votes of the voters that have cast `vote` and were not canceled since. -/
def liveSupport (vote : Vote) : Nat :=
  weight Voter.weight (fun voter => voter.vote = some vote ∧ voter.result ≠ .canceled)
    t.votersByNode.rows

def outstanding : Nat := weight Voter.weight (fun voter => voter.vote = none) t.votersByNode.rows

/-- The thresholds that `newTransaction` accepts, for votes that a word can count. -/
structure Sound (t : Subtransaction) : Prop where
  bounded : t.total < 2 ^ 64
  majority : t.total < 2 * t.threshold.toNat

theorem Sound.threshold_pos {t : Subtransaction} (sound : t.Sound) : 0 < t.threshold.toNat := by
  have := sound.majority
  omega

/-- The vote counts lie between the voters that still stand by a vote and all that
ever cast it. Whether a canceled voter withdrew its vote, or was canceled with
it, is not recorded. -/
structure Accounted (t : Subtransaction) : Prop where
  lower : ∀ vote, t.liveSupport vote ≤ (t.count vote).toNat
  upper : ∀ vote, (t.count vote).toNat ≤ t.support vote

theorem support_add_outstanding_le (vote : Vote) : t.support vote + t.outstanding ≤ t.total := by
  apply weight_add_le
  rintro voter - ⟨left, right⟩
  rw [left] at right
  cases right

theorem Accounted.count_add_outstanding_le {t : Subtransaction} (accounted : t.Accounted)
    (vote : Vote) : (t.count vote).toNat + t.outstanding ≤ t.total :=
  Nat.le_trans (Nat.add_le_add_right (accounted.upper vote) _) (t.support_add_outstanding_le vote)

theorem Accounted.quorum_unique {t : Subtransaction} (accounted : t.Accounted) (sound : t.Sound)
    {first second : Vote} (left : t.threshold.toNat ≤ (t.count first).toNat)
    (right : t.threshold.toNat ≤ (t.count second).toNat) : first = second := by
  obtain ⟨voter, -, castFirst, castSecond⟩ := quorum_intersect Voter.weight
    (fun voter => voter.vote = some first) (fun voter => voter.vote = some second)
    t.votersByNode.rows t.threshold.toNat sound.majority
    (le_trans left (accounted.upper first)) (le_trans right (accounted.upper second))
  exact Option.some.inj (castFirst.symm.trans castSecond)

private theorem outstanding_foldl (rows : List Voter) (start : UInt64)
    (bounded : start.toNat + weight Voter.weight (fun voter => voter.vote = none) rows < 2 ^ 64) :
    (rows.foldl (fun total voter => if voter.vote = none then total + voter.votes else total)
      start).toNat =
      start.toNat + weight Voter.weight (fun voter => voter.vote = none) rows := by
  induction rows generalizing start with
  | nil => rfl
  | cons voter rows ih =>
    rw [weight_cons] at bounded ⊢
    rw [foldl_cons]
    by_cases absent : voter.vote = none
    · simp only [absent, ↓reduceIte, Voter.weight] at bounded ⊢
      have sum : (start + voter.votes).toNat = start.toNat + voter.votes.toNat := by
        rw [UInt64.toNat_add]
        omega
      rw [ih (start + voter.votes) (by rw [sum]; exact Nat.add_assoc _ _ _ ▸ bounded), sum]
      exact Nat.add_assoc _ _ _
    · simp only [absent, ↓reduceIte, Nat.zero_add] at bounded ⊢
      exact ih start bounded

theorem outstandingVotes_toNat (bounded : t.total < 2 ^ 64) :
    t.outstandingVotes.toNat = t.outstanding := by
  have small : t.outstanding ≤ t.total := weight_mono _ _ _ _ (fun _ _ _ => trivial)
  have folded := outstanding_foldl t.votersByNode.rows 0 (by
    rw [UInt64.toNat_zero, zero_add]
    exact lt_of_le_of_lt small bounded)
  rw [UInt64.toNat_zero, zero_add] at folded
  exact folded

theorem count_eq_zero {t : Subtransaction} {vote : Vote} (absent : vote ∉ t.voteCounts.keys) :
    t.count vote = 0 := by
  rw [count, KeyedTable.find_eq_none.mpr absent]
  rfl

/-- A vote that has a positive count, or no vote and the count zero. -/
def Best (best : Option Vote × UInt64) : Prop :=
  match best.1 with
  | none => best.2 = 0
  | some vote => best.2 = t.count vote ∧ 0 < best.2.toNat

private theorem majority_foldl (order : List Vote)
    (start : Option Vote × UInt64) (valid : t.Best start) :
    let best := order.foldl
      (fun best vote => if best.2 < t.count vote then (some vote, t.count vote) else best) start
    t.Best best ∧ start.2.toNat ≤ best.2.toNat ∧
      ∀ vote ∈ order, (t.count vote).toNat ≤ best.2.toNat := by
  induction order generalizing start with
  | nil => exact ⟨valid, le_refl _, fun vote member => absurd member not_mem_nil⟩
  | cons vote order ih =>
    rw [foldl_cons]
    by_cases larger : start.2 < t.count vote
    · have grown := UInt64.lt_iff_toNat_lt.mp larger
      obtain ⟨best, above, all⟩ := ih (some vote, t.count vote) ⟨rfl, by dsimp only; omega⟩
      simp only [larger, ↓reduceIte]
      refine ⟨best, by dsimp only at above; omega, ?_⟩
      intro other member
      rcases mem_cons.mp member with rfl | member
      · exact above
      · exact all other member
    · have small : (t.count vote).toNat ≤ start.2.toNat := by
        rw [UInt64.lt_iff_toNat_lt] at larger
        omega
      obtain ⟨best, above, all⟩ := ih start valid
      simp only [larger, ↓reduceIte]
      refine ⟨best, above, ?_⟩
      intro other member
      rcases mem_cons.mp member with rfl | member
      · exact le_trans small above
      · exact all other member

theorem majority_best (order : List Vote) : t.Best (t.majority order) :=
  (majority_foldl t order (none, 0) rfl).1

/-- Whatever order the counts are visited in, the majority is a maximal count. -/
theorem majority_spec (order : List Vote) (visits : order.Perm t.voteCounts.keys) :
    t.Best (t.majority order) ∧ ∀ vote, (t.count vote).toNat ≤ (t.majority order).2.toNat := by
  obtain ⟨best, -, all⟩ := majority_foldl t order (none, 0) rfl
  refine ⟨best, ?_⟩
  intro vote
  by_cases member : vote ∈ t.voteCounts.keys
  · exact all vote (visits.mem_iff.mpr member)
  · rw [count_eq_zero member]
    exact zero_le _

end Subtransaction

end Gitaly.Transactions
