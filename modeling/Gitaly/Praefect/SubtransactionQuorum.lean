import Gitaly.Praefect.SubtransactionInvariant

/- Whether the voters that commit carry a quorum themselves. A `stop` that fails
halfway leaves votes in the counts whose voters will never commit, so the
invariant holds for calls that stop no pending voter before they are blocked. -/
namespace Gitaly.Transactions

open Weights Voter KeyedTable List

namespace Subtransaction

variable (t : Subtransaction)

/-- Votes of the voters that have committed. -/
def committedVotes : Nat :=
  weight weight (fun voter => voter.result = .committed) t.votersByNode.rows

def HasQuorum : Prop :=
  (∃ voter ∈ t.votersByNode, voter.result = .committed) → t.threshold.toNat ≤ t.committedVotes

/-- A `stop` that is going to be blocked is so before it visits any voter with a pending
vote. -/
def StopsNoVote : Op → Prop
  | .stop order => (∃ blocked ∈ t.votersByNode.rows, blocked.Blocked) →
      ∀ voter ∈ t.votersByNode.rows, voter.Pending →
        ∃ blocked ∈ t.votersByNode.rows, blocked.Blocked ∧
          order.idxOf blocked.name < order.idxOf voter.name
  | _ => True

instance (t : Subtransaction) : DecidablePred t.StopsNoVote
  | .vote _ _ _ => isTrue trivial
  | .withdraw _ _ => isTrue trivial
  | .cancel => isTrue trivial
  | .stop order => inferInstanceAs (Decidable
      ((∃ blocked ∈ t.votersByNode.rows, blocked.Blocked) →
        ∀ voter ∈ t.votersByNode.rows, voter.Pending →
          ∃ blocked ∈ t.votersByNode.rows, blocked.Blocked ∧
            order.idxOf blocked.name < order.idxOf voter.name))

/-- A failed voter's vote can reach the threshold no more: nothing can, or another
vote has. -/
def FailedForGood : Prop :=
  ∀ voter ∈ t.votersByNode, voter.result = .failed →
    (∀ vote, (t.count vote).toNat + t.outstanding < t.threshold.toNat) ∨
      ∃ vote, voter.vote ≠ some vote ∧ t.threshold.toNat ≤ (t.count vote).toNat

structure Quorate (t : Subtransaction) : Prop where
  counted : (∃ voter ∈ t.votersByNode, voter.result = .undecided) →
    ∀ vote, (t.count vote).toNat ≤ t.liveSupport vote
  failed : t.FailedForGood
  stopped : ∀ voter ∈ t.votersByNode, voter.result = .stopped → voter.vote ≠ none →
    ∀ other ∈ t.votersByNode, other.result ≠ .undecided
  quorum : t.HasQuorum

section decides

variable {t next : Subtransaction} {change : Voter → Voter}
  (keep : ∀ voter, (change voter).name = voter.name) (decides : Decides change)
  (voters : next.votersByNode = t.votersByNode.update change keep)

include decides voters

theorem decides_committedVotes_le : t.committedVotes ≤ next.committedVotes := by
  unfold committedVotes
  rw [voters, update_rows, weight_map _ _ _ decides.weight]
  apply weight_mono
  intro voter _ committed
  exact decides.result (by decide) committed

theorem decides_liveSupport (cancels : ∀ voter ∈ t.votersByNode,
      (change voter).result = .canceled → voter.result = .canceled) (vote : Vote) :
    next.liveSupport vote = t.liveSupport vote := by
  apply Nat.le_antisymm (decides_liveSupport_le decides voters vote)
  unfold liveSupport
  rw [voters, update_rows, weight_map _ _ _ decides.weight]
  apply weight_mono
  intro voter member live
  rw [decides.vote]
  exact ⟨live.1, fun canceled => live.2 (cancels voter member canceled)⟩

end decides

variable {t : Subtransaction}

theorem Quorate.closes (quorate : t.Quorate) (next : Subtransaction) {change : Voter → Voter}
    (keep : ∀ voter, (change voter).name = voter.name) (decides : Decides change)
    (voters : next.votersByNode = t.votersByNode.update change keep)
    (counts : next.voteCounts = t.voteCounts) (threshold : next.threshold = t.threshold)
    (commits : ∀ voter, (change voter).result = .committed → voter.result = .committed)
    (fails : ∀ voter, (change voter).result = .failed → voter.result = .failed) :
    next.FailedForGood ∧ next.HasQuorum := by
  have count := count_of_voteCounts counts
  constructor
  · intro voter member failed
    obtain ⟨old, present, same⟩ := voter_before voters member
    subst voter
    rw [decides.vote, threshold, decides_outstanding decides voters]
    simp only [count]
    exact quorate.failed old present (fails old failed)
  · intro some
    obtain ⟨voter, member, committed⟩ := some
    obtain ⟨old, present, same⟩ := voter_before voters member
    subst voter
    rw [threshold]
    exact Nat.le_trans (quorate.quorum ⟨old, present, commits old committed⟩)
      (decides_committedVotes_le keep decides voters)

theorem Quorate.settles {next : Subtransaction} (failed : next.FailedForGood)
    (quorum : next.HasQuorum) (settled : next.Settled) : next.Quorate := by
  refine ⟨?_, failed, fun _ _ _ _ => settled, quorum⟩
  intro some
  obtain ⟨voter, member, undecided⟩ := some
  exact absurd undecided (settled voter member)

/-- A decided quorum: all voters that stand by the winning vote commit. -/
theorem decided_committedVotes {winner : Vote} (sound : t.Sound) (accounted : t.Accounted)
    (failed : t.FailedForGood)
    (unstopped : ∀ voter ∈ t.votersByNode, voter.result = .stopped → voter.vote = none)
    (quorum : t.threshold.toNat ≤ (t.count winner).toNat) :
    t.liveSupport winner ≤
      weight weight (fun voter => (voter.decideBy (some winner)).result = .committed)
        t.votersByNode.rows := by
  apply weight_mono
  intro voter member live
  obtain ⟨cast, notCanceled⟩ := live
  cases result : voter.result with
  | undecided =>
    have pending : voter.Pending := ⟨result, by rw [cast]; simp⟩
    simp only [decideBy, pending, cast, ↓reduceIte]
  | committed => exact (decideBy_decides (some winner)).result (by decide) result
  | failed =>
    rcases failed voter member result with lost | ⟨other, different, otherQuorum⟩
    · have below := lost winner
      omega
    have same := accounted.quorum_unique sound quorum otherQuorum
    rw [cast, same] at different
    exact absurd rfl different
  | canceled => exact absurd result notCanceled
  | stopped =>
    have none := unstopped voter member result
    rw [cast] at none
    cases none

theorem Settles.quorate {t next : Subtransaction} (settles : Settles t next) (sound : t.Sound)
    (accounted : t.Accounted) (counted : ∀ vote, (t.count vote).toNat ≤ t.liveSupport vote)
    (failed : t.FailedForGood)
    (unstopped : ∀ voter ∈ t.votersByNode, voter.result = .stopped → voter.vote = none)
    (quorum : t.HasQuorum) : next.Quorate := by
  obtain ⟨change, keep, settled, voters, counts, threshold⟩ := settles.settledBy
  have decides := settled.decides
  have count := count_of_voteCounts counts
  constructor
  · intro _ vote
    have cancels : ∀ voter ∈ t.votersByNode,
        (change voter).result = .canceled → voter.result = .canceled :=
      fun _ _ => settled.result_of_ne (by decide) (by decide)
    rw [count, decides_liveSupport keep decides voters cancels]
    exact counted vote
  · intro voter member isFailed
    obtain ⟨before, present, same⟩ := voter_before voters member
    subst voter
    rw [decides.vote, threshold, decides_outstanding decides voters]
    simp only [count]
    rcases settled.fails before isFailed with wasFailed | reason
    · exact failed before present wasFailed
    · exact reason
  · intro voter member isStopped cast
    obtain ⟨before, present, same⟩ := voter_before voters member
    subst voter
    have wasStopped := settled.result_of_ne (by decide) (by decide) isStopped
    rw [decides.vote] at cast
    exact absurd (unstopped before present wasStopped) cast
  · intro some
    obtain ⟨voter, member, committed⟩ := some
    obtain ⟨before, present, same⟩ := voter_before voters member
    subst voter
    rcases settled.commits before committed with wasCommitted | ⟨vote, -, reached⟩
    · rw [threshold]
      exact Nat.le_trans (quorum ⟨before, present, wasCommitted⟩)
        (decides_committedVotes_le keep decides voters)
    · -- Only a decided settling has a vote at the threshold.
      cases settles with
      | waiting best attained short possible =>
        have below := short vote
        omega
      | hopeless lost =>
        have below := lost vote
        omega
      | decided winner winnerQuorum =>
        have live := decided_committedVotes sound accounted failed unstopped winnerQuorum
        have enough := counted winner
        rw [threshold]
        unfold committedVotes
        rw [signal_votersByNode, updateVoters, update_rows,
          weight_map _ _ _ (decideBy_decides (some winner)).weight]
        omega

variable {voter : Voter}

/-- The states between the two halves of `updateVoterState` carry what settling
needs. -/
theorem castVote_failedForGood (inv : t.Inv) (failed : t.FailedForGood)
    (member : voter ∈ t.votersByNode) (fresh : voter.vote = none)
    (undecided : voter.result = .undecided) (vote : Vote) :
    (t.castVote voter.name voter.votes vote).FailedForGood := by
  have free := castVote_outstanding member fresh vote
  have counts := count_castVote_toNat member fresh vote inv.sound inv.accounted
  intro other present isFailed
  rcases (mem_castVote member vote).mp present with same | ⟨old, -⟩
  · rw [same, withVote, undecided] at isFailed
    cases isFailed
  rcases failed other old isFailed with lost | ⟨another, different, quorum⟩
  · left
    intro vote'
    have below := lost vote'
    have grown := counts vote'
    change _ < t.threshold.toNat
    split at grown <;> omega
  · right
    refine ⟨another, different, ?_⟩
    have grown := counts another
    change t.threshold.toNat ≤ _
    omega

theorem withdrawVote_failedForGood (inv : t.Inv) (failed : t.FailedForGood)
    (member : voter ∈ t.votersByNode) (undecided : voter.result = .undecided) (vote : Vote)
    (current : voter.vote = some vote) (running : t.done = false) :
    (t.withdrawVote voter.name voter.votes vote).FailedForGood := by
  have counts := count_withdrawVote_toNat member vote current undecided inv.accounted
  intro other present isFailed
  rcases (mem_withdrawVote member vote).mp present with same | ⟨old, -⟩
  · rw [same] at isFailed
    cases isFailed
  rcases failed other old isFailed with lost | ⟨another, -, quorum⟩
  · left
    intro vote'
    have below := lost vote'
    have shrunk := counts vote'
    rw [withdrawVote_outstanding member]
    change _ < t.threshold.toNat
    omega
  · have done := inv.signalled another quorum
    rw [running] at done
    cases done

/-- While a voter is undecided, no stopped voter has cast a vote. -/
theorem Quorate.unstopped (quorate : t.Quorate) (member : voter ∈ t.votersByNode)
    (undecided : voter.result = .undecided) :
    ∀ other ∈ t.votersByNode, other.result = .stopped → other.vote = none := by
  intro other present isStopped
  by_contra cast
  exact quorate.stopped other present isStopped cast voter member undecided

theorem castVote_hasQuorum (quorum : t.HasQuorum) (member : voter ∈ t.votersByNode)
    (undecided : voter.result = .undecided) (vote : Vote) :
    (t.castVote voter.name voter.votes vote).HasQuorum := by
  have same : (t.castVote voter.name voter.votes vote).committedVotes = t.committedVotes := by
    unfold committedVotes
    rw [castVote_rows]
    exact weight_changeAt_same (weight_withVote vote) t.votersByNode.unique member Iff.rfl
  intro some
  obtain ⟨other, present, committed⟩ := some
  rw [same]
  rcases (mem_castVote member vote).mp present with isVoter | ⟨old, -⟩
  · rw [isVoter, withVote, undecided] at committed
    cases committed
  · exact quorum ⟨other, old, committed⟩

theorem withdrawVote_hasQuorum (inv : t.Inv) (member : voter ∈ t.votersByNode)
    (running : t.done = false) (vote : Vote) :
    (t.withdrawVote voter.name voter.votes vote).HasQuorum := by
  intro some
  obtain ⟨other, present, committed⟩ := some
  rcases (mem_withdrawVote member vote).mp present with isVoter | ⟨old, -⟩
  · rw [isVoter] at committed
    cases committed
  · exact absurd committed (inv.running running other old)

/-- What a `stop` has visited when it is blocked held no pending vote. -/
theorem StopsNoVote.spared {visited rest : List String} {blocked : Voter}
    (whole : t.StopsNoVote (.stop (visited ++ blocked.name :: rest)))
    (member : blocked ∈ t.votersByNode) (isBlocked : blocked.Blocked)
    (free : ∀ voter ∈ t.votersByNode, voter.name ∈ visited → ¬ voter.Blocked) :
    ∀ voter ∈ t.votersByNode, voter.name ∈ visited → ¬ voter.Pending := by
  intro voter present inside pending
  obtain ⟨first, firstMember, firstBlocked, earlier⟩ :=
    whole ⟨blocked, member, isBlocked⟩ voter present pending
  have outside : first.name ∉ visited := fun inside => free first firstMember inside firstBlocked
  have reached := idxOf_lt_length_of_mem inside
  rw [idxOf_append_of_mem inside, idxOf_append_of_notMem outside] at earlier
  omega

/-- Who is undecided and not visited comes after the voter at which `stop` gives up. -/
theorem idxOf_blocked_lt {visited rest : List String} {blocked voter : Voter}
    (member : blocked ∈ t.votersByNode) (isBlocked : blocked.Blocked)
    (outside : blocked.name ∉ visited) (present : voter ∈ t.votersByNode)
    (undecided : voter.result = .undecided) (unvisited : voter.name ∉ visited) :
    (visited ++ blocked.name :: rest).idxOf blocked.name <
      (visited ++ blocked.name :: rest).idxOf voter.name := by
  have different : voter.name ≠ blocked.name := by
    intro same
    rw [eq_of_key present member same] at undecided
    rcases isBlocked with canceled | stopped
    · exact VoteResult.noConfusion (undecided.symm.trans canceled)
    · exact VoteResult.noConfusion (undecided.symm.trans stopped)
  rw [idxOf_append_of_notMem outside, idxOf_append_of_notMem unvisited,
    idxOf_cons_self, idxOf_cons_ne _ (Ne.symm different)]
  omega

/-- A `stop` that is blocked after the given nodes, none of which had a pending vote. -/
theorem Quorate.halfStop (quorate : t.Quorate) (visited : List String)
    (spared : ∀ voter ∈ t.votersByNode, voter.name ∈ visited → ¬ voter.Pending) :
    Quorate { t with votersByNode := t.votersByNode.update _ (stopIn_name visited) } := by
  have decides := stopIn_decides visited
  have old : ∀ voter ∈ t.votersByNode.update _ (stopIn_name visited),
      ∃ old ∈ t.votersByNode, old.stopIn visited = voter :=
    fun voter => (mem_update _ _ (stopIn_name visited)).mp
  obtain ⟨failed, quorum⟩ := quorate.closes { t with
      votersByNode := t.votersByNode.update _ (stopIn_name visited) }
    (stopIn_name visited) decides rfl rfl rfl
    (fun _ => stopIn_of_ne (by decide)) (fun _ => stopIn_of_ne (by decide))
  refine ⟨?_, failed, ?_, quorum⟩
  · intro some vote
    obtain ⟨voter, member, undecided⟩ := some
    obtain ⟨before, present, same⟩ := old voter member
    rw [← same] at undecided
    rw [decides_liveSupport (stopIn_name visited) decides rfl (fun _ _ => stopIn_of_ne (by decide))]
    exact quorate.counted ⟨before, present, decides.undecided undecided⟩ vote
  · intro voter member isStopped cast
    obtain ⟨before, present, same⟩ := old voter member
    subst voter
    rw [decides.vote] at cast
    rcases before.stopIn_result visited with ⟨-, undecided, inside⟩ | same
    · exact absurd ⟨undecided, cast⟩ (spared before present inside)
    rw [same] at isStopped
    intro other otherMember undecided
    obtain ⟨source, sourcePresent, same⟩ := old other otherMember
    rw [← same] at undecided
    exact quorate.stopped before present isStopped cast source sourcePresent
      (decides.undecided undecided)

theorem Moves.quorate {t next : Subtransaction} {op : Op} (moves : Moves t op next) (inv : t.Inv)
    (quorate : t.Quorate) (whole : t.StopsNoVote op) : next.Quorate := by
  cases moves with
  | refused => exact quorate
  | cast voter vote order next member undecided fresh visits settled =>
    have sound := castVote_sound member vote inv.sound
    have accounted := castVote_accounted member fresh vote inv.sound inv.accounted undecided
    have settles := settles_of_settle sound accounted visits settled
    have counted := quorate.counted ⟨voter, member, undecided⟩
    have unstopped := quorate.unstopped member undecided
    refine settles.quorate sound accounted ?_
      (castVote_failedForGood inv quorate.failed member fresh undecided vote) ?_ ?_
    · intro other
      rw [count_castVote_toNat member fresh vote inv.sound inv.accounted,
        castVote_liveSupport member fresh vote undecided]
      exact Nat.add_le_add_right (counted other) _
    · intro other present isStopped
      rcases (mem_castVote member vote).mp present with same | ⟨old, -⟩
      · rw [same, withVote, undecided] at isStopped
        cases isStopped
      · exact unstopped other old isStopped
    · exact castVote_hasQuorum quorate.quorum member undecided vote
  | withdraw voter vote order next member undecided current running visits settled =>
    have sound := withdrawVote_sound member vote inv.sound
    have accounted := withdrawVote_accounted member vote current undecided inv.accounted
    have settles := settles_of_settle sound accounted visits settled
    have counted := quorate.counted ⟨voter, member, undecided⟩
    have unstopped := quorate.unstopped member undecided
    refine settles.quorate sound accounted ?_
      (withdrawVote_failedForGood inv quorate.failed member undecided vote current running) ?_
      (withdrawVote_hasQuorum inv member running vote)
    · intro other
      have count := count_withdrawVote_toNat member vote current undecided inv.accounted other
      have live := withdrawVote_liveSupport member vote current undecided other
      have before := counted other
      omega
    · intro other present isStopped
      rcases (mem_withdrawVote member vote).mp present with same | ⟨old, -⟩
      · rw [same] at isStopped
        cases isStopped
      · exact unstopped other old isStopped
  | cancel =>
    obtain ⟨failed, quorum⟩ := quorate.closes t.cancel cancel_name
      cancel_decides rfl rfl rfl
      (fun _ => cancel_of_ne (by decide)) (fun _ => cancel_of_ne (by decide))
    exact .settles failed quorum t.cancel_settled
  | stop order visits free =>
    obtain ⟨failed, quorum⟩ := quorate.closes { t with
        votersByNode := t.votersByNode.update _ (stopIn_name order), done := true }
      (stopIn_name order) (stopIn_decides order) rfl rfl rfl
      (fun _ => stopIn_of_ne (by decide)) (fun _ => stopIn_of_ne (by decide))
    exact .settles failed quorum (settled_of_stopIn order visits rfl)
  | halfStop visited voter rest visits member blocked free =>
    exact quorate.halfStop visited (whole.spared member blocked free)

end Subtransaction

end Gitaly.Transactions
