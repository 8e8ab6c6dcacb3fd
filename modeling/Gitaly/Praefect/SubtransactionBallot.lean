import Gitaly.Praefect.SubtransactionTally

/- What casting and withdrawing a vote do to the sums: neither makes a count wrap. -/
namespace Gitaly.Transactions

open Weights Voter
open KeyedTable (changeAt)

namespace Subtransaction

section

variable (t : Subtransaction) (node : String) (votes : UInt64)

theorem count_castVote (vote other : Vote) :
    (t.castVote node votes vote).count other =
      if other = vote then t.count other + votes else t.count other := by
  simp only [count, castVote, KeyedTable.find_upsert]
  split
  · cases t.voteCounts.find other <;> rfl
  · rfl

theorem count_withdrawVote (vote other : Vote) :
    (t.withdrawVote node votes vote).count other =
      if other = vote then t.count other - votes else t.count other := by
  simp only [count, withdrawVote, KeyedTable.find_upsert]
  split
  · cases t.voteCounts.find other <;> rfl
  · rfl

variable (vote : Vote)

theorem castVote_rows :
    (t.castVote node votes vote).votersByNode.rows =
      t.votersByNode.rows.map (changeAt Voter.name node (Voter.withVote vote)) := rfl

theorem withdrawVote_rows :
    (t.withdrawVote node votes vote).votersByNode.rows =
      t.votersByNode.rows.map (changeAt Voter.name node (Voter.withResult .canceled)) := rfl

theorem castVote_done : (t.castVote node votes vote).done = t.done := rfl

theorem withdrawVote_done : (t.withdrawVote node votes vote).done = t.done := rfl

end

section cast

variable {t : Subtransaction} {voter : Voter} (member : voter ∈ t.votersByNode)
  (fresh : voter.vote = none) (vote : Vote)

include member

theorem mem_castVote {other : Voter} :
    other ∈ (t.castVote voter.name voter.votes vote).votersByNode ↔
      other = voter.withVote vote ∨ other ∈ t.votersByNode ∧ other.name ≠ voter.name :=
  KeyedTable.mem_modify _ member _ (withVote_name vote)

theorem castVote_weight {p : Voter → Prop} [DecidablePred p] {other : Vote} (before : ¬ p voter)
    (after : p (voter.withVote vote) ↔ other = vote) :
    weight Voter.weight p (t.castVote voter.name voter.votes vote).votersByNode.rows =
      weight Voter.weight p t.votersByNode.rows + if other = vote then voter.weight else 0 := by
  rw [castVote_rows]
  split
  · rename_i same
    exact weight_changeAt_gain (weight_withVote vote) t.votersByNode.unique member
      (after.mpr same) before
  · rename_i different
    exact weight_changeAt_same (weight_withVote vote) t.votersByNode.unique member
      (iff_of_false (fun counted => different (after.mp counted)) before)

include fresh

theorem castVote_support (other : Vote) :
    (t.castVote voter.name voter.votes vote).support other =
      t.support other + if other = vote then voter.weight else 0 := by
  apply castVote_weight member vote
  · simp only [fresh, reduceCtorEq, not_false_eq_true]
  · simp only [Voter.withVote, Option.some.injEq, eq_comm]

theorem castVote_liveSupport (undecided : voter.result = .undecided) (other : Vote) :
    (t.castVote voter.name voter.votes vote).liveSupport other =
      t.liveSupport other + if other = vote then voter.weight else 0 := by
  apply castVote_weight member vote
  · simp only [fresh, reduceCtorEq, false_and, not_false_eq_true]
  · simp only [Voter.withVote, Option.some.injEq, eq_comm, undecided, ne_eq, reduceCtorEq,
      not_false_eq_true, and_true]

theorem castVote_outstanding :
    t.outstanding = (t.castVote voter.name voter.votes vote).outstanding + voter.weight := by
  unfold outstanding
  rw [castVote_rows]
  apply weight_changeAt_loss (weight_withVote vote) t.votersByNode.unique member
  · exact fresh
  · simp only [Voter.withVote, reduceCtorEq, not_false_eq_true]

omit fresh in
theorem castVote_total : (t.castVote voter.name voter.votes vote).total = t.total := by
  unfold total
  rw [castVote_rows]
  exact weight_changeAt_same (weight_withVote vote) t.votersByNode.unique member Iff.rfl

omit fresh in
theorem castVote_sound (sound : t.Sound) : (t.castVote voter.name voter.votes vote).Sound :=
  ⟨by rw [castVote_total member]; exact sound.bounded,
    by rw [castVote_total member]; exact sound.majority⟩

theorem count_castVote_toNat (sound : t.Sound) (accounted : t.Accounted) (other : Vote) :
    ((t.castVote voter.name voter.votes vote).count other).toNat =
      (t.count other).toNat + if other = vote then voter.weight else 0 := by
  have room := accounted.count_add_outstanding_le other
  have free := castVote_outstanding member fresh vote
  have bounded := sound.bounded
  rw [count_castVote]
  split
  · rw [UInt64.toNat_add]
    simp only [Voter.weight] at free ⊢
    omega
  · rfl

theorem castVote_accounted (sound : t.Sound) (accounted : t.Accounted)
    (undecided : voter.result = .undecided) :
    (t.castVote voter.name voter.votes vote).Accounted := by
  constructor
  · intro other
    rw [castVote_liveSupport member fresh vote undecided,
      count_castVote_toNat member fresh vote sound accounted]
    exact Nat.add_le_add_right (accounted.lower other) _
  · intro other
    rw [castVote_support member fresh, count_castVote_toNat member fresh vote sound accounted]
    exact Nat.add_le_add_right (accounted.upper other) _

end cast

section withdraw

variable {t : Subtransaction} {voter : Voter} (member : voter ∈ t.votersByNode)
  (vote : Vote) (current : voter.vote = some vote) (undecided : voter.result = .undecided)

include member

theorem mem_withdrawVote {other : Voter} :
    other ∈ (t.withdrawVote voter.name voter.votes vote).votersByNode ↔
      other = voter.withResult .canceled ∨ other ∈ t.votersByNode ∧ other.name ≠ voter.name :=
  KeyedTable.mem_modify _ member _ (withResult_name .canceled)

theorem mem_withdrawVote_undecided {other : Voter} (undecided : other.result = .undecided) :
    other ∈ (t.withdrawVote voter.name voter.votes vote).votersByNode ↔
      other ∈ t.votersByNode ∧ other.name ≠ voter.name := by
  rw [mem_withdrawVote member vote]
  refine or_iff_right (fun same => ?_)
  rw [same] at undecided
  cases undecided

theorem withdrawVote_support (other : Vote) :
    (t.withdrawVote voter.name voter.votes vote).support other = t.support other := by
  unfold support
  rw [withdrawVote_rows]
  exact weight_changeAt_same (weight_withResult _) t.votersByNode.unique member Iff.rfl

theorem withdrawVote_outstanding :
    (t.withdrawVote voter.name voter.votes vote).outstanding = t.outstanding := by
  unfold outstanding
  rw [withdrawVote_rows]
  exact weight_changeAt_same (weight_withResult _) t.votersByNode.unique member Iff.rfl

theorem withdrawVote_sound (sound : t.Sound) :
    (t.withdrawVote voter.name voter.votes vote).Sound := by
  have same : (t.withdrawVote voter.name voter.votes vote).total = t.total := by
    unfold total
    rw [withdrawVote_rows]
    exact weight_changeAt_same (weight_withResult _) t.votersByNode.unique member Iff.rfl
  exact ⟨by rw [same]; exact sound.bounded, by rw [same]; exact sound.majority⟩

include current undecided

theorem withdrawVote_liveSupport (other : Vote) :
    t.liveSupport other = (t.withdrawVote voter.name voter.votes vote).liveSupport other +
      if other = vote then voter.weight else 0 := by
  unfold liveSupport
  rw [withdrawVote_rows]
  split
  · rename_i same
    apply weight_changeAt_loss (weight_withResult _) t.votersByNode.unique member
    · simp only [current, same, undecided, ne_eq, reduceCtorEq, not_false_eq_true, and_self]
    · simp only [Voter.withResult, ne_eq, not_true_eq_false, and_false, not_false_eq_true]
  · rename_i different
    symm
    apply weight_changeAt_same (weight_withResult _) t.votersByNode.unique member
    simp only [Voter.withResult, current, Option.some.injEq, Ne.symm different, false_and]

/-- Withdrawing a vote does not make the count wrap: the voter is still counted. -/
theorem count_withdrawVote_toNat (accounted : t.Accounted) (other : Vote) :
    (t.count other).toNat = ((t.withdrawVote voter.name voter.votes vote).count other).toNat +
      if other = vote then voter.weight else 0 := by
  have counted := accounted.lower other
  rw [withdrawVote_liveSupport member vote current undecided] at counted
  rw [count_withdrawVote]
  split at counted
  · rename_i same
    simp only [same, ↓reduceIte, Voter.weight] at counted ⊢
    rw [UInt64.toNat_sub_of_le _ _ (UInt64.le_iff_toNat_le.mpr (by omega))]
    omega
  · rename_i different
    simp only [different, ↓reduceIte, Nat.add_zero]

theorem withdrawVote_accounted (accounted : t.Accounted) :
    (t.withdrawVote voter.name voter.votes vote).Accounted := by
  constructor
  · intro other
    have counted := accounted.lower other
    rw [withdrawVote_liveSupport member vote current undecided,
      count_withdrawVote_toNat member vote current undecided accounted] at counted
    omega
  · intro other
    have counted := accounted.upper other
    rw [withdrawVote_support member]
    rw [count_withdrawVote_toNat member vote current undecided accounted] at counted
    omega

end withdraw

end Subtransaction

end Gitaly.Transactions
