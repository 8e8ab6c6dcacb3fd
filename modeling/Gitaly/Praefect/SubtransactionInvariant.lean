import Gitaly.Praefect.SubtransactionMoves

/- The invariant behind agreement: a committed voter is backed by a vote count at
the threshold, and from such a count on no vote can be withdrawn. -/
namespace Gitaly.Transactions

open Weights KeyedTable Voter

namespace Voter

/-- A change that settles undecided voters and touches nothing else. -/
structure Decides (change : Voter → Voter) : Prop where
  vote : ∀ voter, (change voter).vote = voter.vote
  votes : ∀ voter, (change voter).votes = voter.votes
  settled : ∀ voter, voter.result ≠ .undecided → change voter = voter

theorem decides_id : Decides id := ⟨fun _ => rfl, fun _ => rfl, fun _ _ => rfl⟩

theorem fail_decides : Decides fail where
  vote voter := by
    unfold fail
    split <;> rfl
  votes voter := by
    unfold fail
    split <;> rfl
  settled voter settled := by simp only [fail, Pending, settled, false_and, ↓reduceIte]

theorem decideBy_decides (majorityVote : Option Vote) : Decides (decideBy majorityVote) where
  vote voter := by
    unfold decideBy
    split <;> rfl
  votes voter := by
    unfold decideBy
    split <;> rfl
  settled voter settled := by simp only [decideBy, Pending, settled, false_and, ↓reduceIte]

theorem cancel_decides : Decides cancel where
  vote _ := rfl
  votes _ := rfl
  settled voter settled := by simp only [cancel, settled, ↓reduceIte]

theorem stopIn_decides (visited : List String) : Decides (stopIn visited) where
  vote voter := by
    unfold stopIn
    split <;> rfl
  votes voter := by
    unfold stopIn
    split <;> rfl
  settled voter settled := stopIn_of_settled visited voter settled

theorem Decides.weight {change : Voter → Voter} (decides : Decides change) (voter : Voter) :
    (change voter).weight = voter.weight := congrArg UInt64.toNat (decides.votes voter)

variable {voter : Voter}

theorem Decides.result {change : Voter → Voter} (decides : Decides change) {result : VoteResult}
    (settled : result ≠ .undecided) (before : voter.result = result) :
    (change voter).result = result := by
  rw [decides.settled voter (by rw [before]; exact settled), before]

theorem Decides.undecided {change : Voter → Voter} (decides : Decides change)
    (after : (change voter).result = .undecided) : voter.result = .undecided := by
  by_contra settled
  rw [decides.settled voter settled] at after
  exact settled after

theorem fail_committed (committed : voter.fail.result = .committed) :
    voter.result = .committed := by
  unfold fail at committed
  split at committed
  · cases committed
  · exact committed

theorem decideBy_committed {majorityVote : Option Vote}
    (committed : (voter.decideBy majorityVote).result = .committed) :
    voter.result = .committed ∨ voter.vote = majorityVote ∧ voter.vote ≠ none := by
  unfold decideBy at committed
  split at committed
  · rename_i pending
    by_cases same : voter.vote = majorityVote
    · exact .inr ⟨same, pending.2⟩
    · simp only [same, ↓reduceIte, reduceCtorEq] at committed
  · exact .inl committed

/-- Canceling gives an undecided voter that result, and no voter another one. -/
theorem cancel_result (voter : Voter) :
    voter.cancel.result = .canceled ∧ voter.result = .undecided ∨
      voter.cancel.result = voter.result ∧ voter.result ≠ .undecided := by
  by_cases undecided : voter.result = .undecided
  · exact .inl ⟨if_pos undecided, undecided⟩
  · exact .inr ⟨if_neg undecided, undecided⟩

theorem stopIn_result (visited : List String) (voter : Voter) :
    (voter.stopIn visited).result = .stopped ∧ voter.result = .undecided ∧ voter.name ∈ visited ∨
      (voter.stopIn visited).result = voter.result := by
  unfold stopIn
  split
  · rename_i both
    exact .inl ⟨rfl, both⟩
  · exact .inr rfl

theorem cancel_of_ne {result : VoteResult} (different : result ≠ .canceled)
    (after : voter.cancel.result = result) : voter.result = result := by
  rcases voter.cancel_result with ⟨canceled, -⟩ | ⟨same, -⟩
  · exact absurd (after.symm.trans canceled) different
  · rw [← same, after]

theorem stopIn_of_ne {visited : List String} {result : VoteResult} (different : result ≠ .stopped)
    (after : (voter.stopIn visited).result = result) :
    voter.result = result := by
  rcases voter.stopIn_result visited with ⟨stopped, -⟩ | same
  · exact absurd (after.symm.trans stopped) different
  · rw [← same, after]

end Voter

namespace Subtransaction

variable (t : Subtransaction)

theorem cancel_settled : t.cancel.Settled := by
  intro voter member undecided
  obtain ⟨old, -, same⟩ := (mem_update _ _ cancel_name).mp member
  subst same
  rcases old.cancel_result with ⟨canceled, -⟩ | ⟨same, decided⟩
  · rw [canceled] at undecided
    cases undecided
  · exact decided (same ▸ undecided)

variable {t next : Subtransaction}

theorem count_of_voteCounts (counts : next.voteCounts = t.voteCounts) (vote : Vote) :
    next.count vote = t.count vote := by
  rw [Subtransaction.count, counts, ← Subtransaction.count]

theorem voter_before {change : Voter → Voter} {keep : ∀ voter, (change voter).name = voter.name}
    (voters : next.votersByNode = t.votersByNode.update change keep) {voter : Voter}
    (member : voter ∈ next.votersByNode) : ∃ old ∈ t.votersByNode, change old = voter := by
  rw [voters] at member
  exact (mem_update _ _ keep).mp member

section decides

variable {t next : Subtransaction} {change : Voter → Voter}
  {keep : ∀ voter, (change voter).name = voter.name} (decides : Decides change)
  (voters : next.votersByNode = t.votersByNode.update change keep)

include decides voters

theorem decides_total : next.total = t.total := by
  unfold total
  rw [voters, update_rows]
  exact weight_map_same _ _ _ decides.weight _ (fun _ _ => Iff.rfl)

theorem decides_support (vote : Vote) : next.support vote = t.support vote := by
  unfold support
  rw [voters, update_rows]
  apply weight_map_same _ _ _ decides.weight
  intro voter _
  rw [decides.vote]

theorem decides_outstanding : next.outstanding = t.outstanding := by
  unfold outstanding
  rw [voters, update_rows]
  apply weight_map_same _ _ _ decides.weight
  intro voter _
  rw [decides.vote]

theorem decides_liveSupport_le (vote : Vote) : next.liveSupport vote ≤ t.liveSupport vote := by
  unfold liveSupport
  rw [voters, update_rows, weight_map _ _ _ decides.weight]
  apply weight_mono
  intro voter _ live
  rw [decides.vote] at live
  exact ⟨live.1, fun canceled => live.2 (decides.result (by decide) canceled)⟩

theorem decides_sound (threshold : next.threshold = t.threshold) (sound : t.Sound) :
    next.Sound := by
  have same := decides_total decides voters
  exact ⟨by rw [same]; exact sound.bounded, by rw [same, threshold]; exact sound.majority⟩

theorem decides_accounted (counts : next.voteCounts = t.voteCounts) (accounted : t.Accounted) :
    next.Accounted := by
  have count := count_of_voteCounts counts
  constructor
  · intro vote
    rw [count]
    exact Nat.le_trans (decides_liveSupport_le decides voters vote) (accounted.lower vote)
  · intro vote
    rw [count, decides_support decides voters]
    exact accounted.upper vote

end decides

/-- Every committed voter is backed by a count at the threshold. -/
def Backed (t : Subtransaction) : Prop :=
  ∀ voter ∈ t.votersByNode, voter.result = .committed →
    ∃ vote, voter.vote = some vote ∧ t.threshold.toNat ≤ (t.count vote).toNat

structure Inv (t : Subtransaction) : Prop where
  sound : t.Sound
  accounted : t.Accounted
  backed : t.Backed
  signalled : ∀ vote, t.threshold.toNat ≤ (t.count vote).toNat → t.done = true

/-- Agreement: the votes of committed voters are one vote. -/
theorem Inv.agreement {t : Subtransaction} (inv : t.Inv) {first second : Voter}
    (left : first ∈ t.votersByNode) (right : second ∈ t.votersByNode)
    (firstCommitted : first.result = .committed) (secondCommitted : second.result = .committed) :
    first.vote = second.vote := by
  obtain ⟨vote, castFirst, quorum⟩ := inv.backed first left firstCommitted
  obtain ⟨other, castSecond, otherQuorum⟩ := inv.backed second right secondCommitted
  rw [castFirst, castSecond, inv.accounted.quorum_unique inv.sound quorum otherQuorum]

theorem Inv.running {t : Subtransaction} (inv : t.Inv) (running : t.done = false) :
    ∀ voter ∈ t.votersByNode, voter.result ≠ .committed := by
  intro voter member committed
  obtain ⟨vote, -, quorum⟩ := inv.backed voter member committed
  have done := inv.signalled vote quorum
  rw [running] at done
  cases done

/-- The change that a settling applies to the voters: it commits for a reason and
fails for a reason. -/
structure SettledBy (t : Subtransaction) (change : Voter → Voter) : Prop where
  decides : Decides change
  results : ∀ voter, (change voter).result = voter.result ∨ (change voter).result = .committed ∨
    (change voter).result = .failed
  commits : ∀ voter, (change voter).result = .committed → voter.result = .committed ∨
    ∃ vote, voter.vote = some vote ∧ t.threshold.toNat ≤ (t.count vote).toNat
  fails : ∀ voter, (change voter).result = .failed → voter.result = .failed ∨
    (∀ vote, (t.count vote).toNat + t.outstanding < t.threshold.toNat) ∨
    ∃ vote, voter.vote ≠ some vote ∧ t.threshold.toNat ≤ (t.count vote).toNat

theorem SettledBy.result_of_ne {t : Subtransaction} {change : Voter → Voter}
    (settled : t.SettledBy change) {voter : Voter} {result : VoteResult}
    (notCommitted : result ≠ .committed) (notFailed : result ≠ .failed)
    (after : (change voter).result = result) : voter.result = result := by
  rcases settled.results voter with same | committed | failed
  · rw [← same, after]
  · exact absurd (after.symm.trans committed) notCommitted
  · exact absurd (after.symm.trans failed) notFailed

theorem settledBy_id (t : Subtransaction) : t.SettledBy id :=
  ⟨decides_id, fun _ => .inl rfl, fun _ => .inl, fun _ => .inl⟩

theorem settledBy_fail {t : Subtransaction}
    (lost : ∀ vote, (t.count vote).toNat + t.outstanding < t.threshold.toNat) :
    t.SettledBy fail where
  decides := fail_decides
  results voter := by
    unfold Voter.fail
    split
    · exact .inr (.inr rfl)
    · exact .inl rfl
  commits _ committed := .inl (fail_committed committed)
  fails _ _ := .inr (.inl lost)

theorem settledBy_decideBy {t : Subtransaction} {vote : Vote}
    (quorum : t.threshold.toNat ≤ (t.count vote).toNat) :
    t.SettledBy (decideBy (some vote)) where
  decides := decideBy_decides (some vote)
  results voter := by
    unfold Voter.decideBy
    split
    · right
      split
      · exact .inl rfl
      · exact .inr rfl
    · exact .inl rfl
  commits voter committed := by
    rcases decideBy_committed committed with before | ⟨same, -⟩
    · exact .inl before
    · exact .inr ⟨vote, same, quorum⟩
  fails voter failed := by
    unfold Voter.decideBy at failed
    split at failed
    · right
      right
      refine ⟨vote, fun same => ?_, quorum⟩
      simp only [same, ↓reduceIte, reduceCtorEq] at failed
    · exact .inl failed

theorem Settles.settledBy (settles : Settles t next) :
    ∃ change keep, t.SettledBy change ∧
      next.votersByNode = t.votersByNode.update change keep ∧
      next.voteCounts = t.voteCounts ∧ next.threshold = t.threshold := by
  cases settles with
  | waiting best attained short possible =>
    refine ⟨id, fun _ => rfl, t.settledBy_id, ?_, t.signal_voteCounts, t.signal_threshold⟩
    rw [signal_votersByNode]
    exact (update_id _ id _ (fun _ _ => rfl)).symm
  | hopeless lost =>
    exact ⟨fail, fail_name, settledBy_fail lost, signal_votersByNode _,
      signal_voteCounts _, signal_threshold _⟩
  | decided vote quorum =>
    exact ⟨decideBy (some vote), decideBy_name (some vote),
      settledBy_decideBy quorum, signal_votersByNode _, signal_voteCounts _,
      signal_threshold _⟩

theorem Settles.signalled (settles : Settles t next) (positive : 0 < t.threshold.toNat)
    (vote : Vote) (quorum : next.threshold.toNat ≤ (next.count vote).toNat) : next.done = true := by
  cases settles with
  | waiting best attained short possible =>
    have below := short vote
    rw [signal_threshold, count_of_voteCounts (signal_voteCounts _)] at quorum
    omega
  | hopeless lost =>
    rw [signal_threshold, count_of_voteCounts (signal_voteCounts _)] at quorum
    exact (signal_done (t.updateVoters _ _) positive).mpr (.inr (.inl ⟨vote, quorum⟩))
  | decided winner reached =>
    exact (signal_done (t.updateVoters _ _) positive).mpr (.inr (.inl ⟨winner, reached⟩))

theorem Settles.inv (settles : Settles t next) (sound : t.Sound) (accounted : t.Accounted)
    (backed : t.Backed) : next.Inv := by
  obtain ⟨change, keep, settled, voters, counts, threshold⟩ := settles.settledBy
  have decides := settled.decides
  have count := count_of_voteCounts counts
  refine ⟨decides_sound decides voters threshold sound,
    decides_accounted decides voters counts accounted, ?_,
    settles.signalled sound.threshold_pos⟩
  intro voter member committed
  obtain ⟨old, present, same⟩ := voter_before voters member
  subst voter
  rw [decides.vote, threshold]
  simp only [count]
  rcases settled.commits old committed with before | quorum
  · exact backed old present before
  · exact quorum

/-- Closing a subtransaction, wholly or in part, commits nobody. -/
theorem Inv.closes (inv : t.Inv) {change : Voter → Voter}
    (keep : ∀ voter, (change voter).name = voter.name) (decides : Decides change)
    (voters : next.votersByNode = t.votersByNode.update change keep)
    (counts : next.voteCounts = t.voteCounts) (threshold : next.threshold = t.threshold)
    (done : t.done = true → next.done = true)
    (commits : ∀ voter, (change voter).result = .committed → voter.result = .committed) :
    next.Inv := by
  have count := count_of_voteCounts counts
  refine ⟨decides_sound decides voters threshold inv.sound,
    decides_accounted decides voters counts inv.accounted, ?_, ?_⟩
  · intro voter member committed
    obtain ⟨old, present, same⟩ := voter_before voters member
    subst voter
    rw [decides.vote, threshold]
    simp only [count]
    exact inv.backed old present (commits old committed)
  · intro vote quorum
    rw [threshold, count] at quorum
    exact done (inv.signalled vote quorum)

theorem castVote_backed {t : Subtransaction} {voter : Voter} (inv : t.Inv)
    (member : voter ∈ t.votersByNode) (fresh : voter.vote = none) (vote : Vote) :
    (t.castVote voter.name voter.votes vote).Backed := by
  intro other present committed
  have grows : ∀ vote', (t.count vote').toNat ≤
      ((t.castVote voter.name voter.votes vote).count vote').toNat := by
    intro vote'
    rw [count_castVote_toNat member fresh vote inv.sound inv.accounted]
    omega
  rcases (mem_castVote member vote).mp present with same | ⟨oldMember, -⟩
  · subst other
    obtain ⟨backing, cast, -⟩ := inv.backed voter member committed
    rw [fresh] at cast
    cases cast
  · obtain ⟨backing, cast, quorum⟩ := inv.backed other oldMember committed
    exact ⟨backing, cast, Nat.le_trans quorum (grows backing)⟩

/-- No vote is withdrawn once anybody has committed. -/
theorem withdrawVote_backed {t : Subtransaction} {voter : Voter} (inv : t.Inv)
    (member : voter ∈ t.votersByNode) (running : t.done = false) (vote : Vote) :
    (t.withdrawVote voter.name voter.votes vote).Backed := by
  intro other present committed
  rcases (mem_withdrawVote member vote).mp present with same | ⟨oldMember, -⟩
  · subst other
    cases committed
  · exact absurd committed (inv.running running other oldMember)

theorem Moves.inv {op : Op} (moves : Moves t op next) (inv : t.Inv) : next.Inv := by
  cases moves with
  | refused => exact inv
  | cast voter vote order next member undecided fresh visits settled =>
    have sound := castVote_sound member vote inv.sound
    have accounted := castVote_accounted member fresh vote inv.sound inv.accounted undecided
    exact (settles_of_settle sound accounted visits settled).inv sound accounted
      (castVote_backed inv member fresh vote)
  | withdraw voter vote order next member undecided current running visits settled =>
    have sound := withdrawVote_sound member vote inv.sound
    have accounted := withdrawVote_accounted member vote current undecided inv.accounted
    exact (settles_of_settle sound accounted visits settled).inv sound accounted
      (withdrawVote_backed inv member running vote)
  | cancel =>
    exact inv.closes cancel_name cancel_decides rfl rfl rfl (fun _ => rfl)
      (fun _ => cancel_of_ne (by decide))
  | stop order visits free =>
    exact inv.closes (stopIn_name order) (stopIn_decides order) rfl rfl rfl
      (fun _ => rfl) (fun _ => stopIn_of_ne (by decide))
  | halfStop visited voter rest visits member blocked free =>
    exact inv.closes (stopIn_name visited) (stopIn_decides visited) rfl rfl rfl id
      (fun _ => stopIn_of_ne (by decide))

theorem Inv.apply (inv : t.Inv) {op : Op} (run : t.apply op = some next) : next.Inv :=
  (apply_moves run).inv inv

end Subtransaction

end Gitaly.Transactions
