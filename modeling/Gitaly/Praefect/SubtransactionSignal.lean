import Gitaly.Praefect.SubtransactionBooks

/- Who is decided, and who is told. `updateVoterState` fails the voters that have voted as soon
as no vote can reach the threshold any more, while `mustSignalVoters` still waits for whoever
has not voted. -/
namespace Gitaly.Transactions

open Runs Weights Subtransaction KeyedTable Ledger Option List

theorem Voter.fail_undecided {voter : Voter} :
    voter.fail.result = .undecided ↔ voter.result = .undecided ∧ voter.vote = none := by
  unfold fail
  split
  · rename_i pending
    exact ⟨fun failed => (by cases failed), fun both => absurd both.2 pending.2⟩
  rename_i settled
  refine ⟨fun undecided => ⟨undecided, ?_⟩, And.left⟩
  by_contra cast
  exact settled ⟨undecided, cast⟩

namespace Subtransaction

variable {t : Subtransaction} (positive : 0 < t.threshold.toNat) {voter : Voter}
  (member : voter ∈ t.votersByNode) (undecided : voter.result = .undecided)

include positive member undecided

/-- A first vote of an undecided voter is not refused, nor is a withdrawal in time. -/
theorem vote_accepted (fresh : voter.vote = none) (vote : Vote) (order : List Vote) :
    ∃ next, (t.castVote voter.name voter.votes vote).settle order = .ok next ∧
      t.vote voter.name vote order = (next, none) := by
  obtain ⟨next, settled⟩ :=
    settle_total (t := t.castVote voter.name voter.votes vote) positive order
  have found : t.votersByNode.find voter.name = some voter := find_key member
  refine ⟨next, settled, ?_⟩
  simp only [Subtransaction.vote, found, fresh, ne_eq, not_true_eq_false, ↓reduceIte,
    updateVoterState_cast undecided fresh, settled]

theorem withdraw_accepted {vote : Vote} (current : voter.vote = some vote)
    (running : t.done = false) (order : List Vote) :
    t.reply (.withdraw voter.name order) = some .contextDone := by
  obtain ⟨next, settled⟩ :=
    settle_total (t := t.withdrawVote voter.name voter.votes vote) positive order
  have replied : t.reply (.withdraw voter.name order) =
      (t.collectVotes true voter.name order).2 := rfl
  rw [replied, collectVotes_withdrawing (find_key member),
    updateVoterState_withdraw undecided current, running]
  simp only [Bool.false_eq_true, ↓reduceIte, settled]

end Subtransaction

namespace Ledger

/-- A voter that has cast a vote and is decided, other than by its own withdrawal, finds
`doneCh` closed. -/
def Woken (ledger : Ledger) : Prop :=
  ∀ voter ∈ ledger.subtransaction.votersByNode.rows, voter.vote ≠ none →
    voter.result ≠ .undecided → voter.name ∉ ledger.withdrawn → ledger.subtransaction.done = true

instance (ledger : Ledger) : Decidable ledger.Woken :=
  inferInstanceAs (Decidable (∀ voter ∈ ledger.subtransaction.votersByNode.rows,
    voter.vote ≠ none → voter.result ≠ .undecided → voter.name ∉ ledger.withdrawn →
      ledger.subtransaction.done = true))

/-- The most votes that a vote can get: those that stand and those that are not cast. -/
def prospect (ledger : Ledger) (vote : Vote) : Nat :=
  ledger.subtransaction.standing ledger.withdrawn vote + ledger.subtransaction.outstanding

/-- The call leaves some vote a prospect of the threshold, or leaves nobody to wait for. A
withdrawal may also be the last of those that wait, and a `stop` is as in `StopsNoVote`. -/
def Conclusive (ledger : Ledger) : Op → Prop
  | .vote node vote _ => ∀ voter ∈ ledger.subtransaction.votersByNode, voter.name = node →
      voter.result = .undecided → voter.vote = none →
        (∃ other, ledger.subtransaction.threshold.toNat ≤
          ledger.prospect other - if other = vote then 0 else voter.weight) ∨
        ∀ rest ∈ ledger.subtransaction.votersByNode, rest.name ≠ node →
          rest.result = .undecided → rest.vote ≠ none
  | .withdraw node _ => ∀ voter ∈ ledger.subtransaction.votersByNode, voter.name = node →
      ∀ vote, voter.result = .undecided → voter.vote = some vote →
        (∃ other, ledger.subtransaction.threshold.toNat ≤
          ledger.prospect other - if other = vote then voter.weight else 0) ∨
        (∀ rest ∈ ledger.subtransaction.votersByNode, rest.name ≠ node → ¬ rest.Pending) ∨
        ∀ rest ∈ ledger.subtransaction.votersByNode, rest.result = .undecided → rest.vote ≠ none
  | .cancel => True
  | .stop order => ledger.subtransaction.StopsNoVote (.stop order)

variable {ledger : Ledger}

theorem woken_of_done (done : ledger.subtransaction.done = true) :
    ledger.Woken := fun _ _ _ _ _ => done

theorem woken_iff_of_settles {between next : Subtransaction} {withdrawn : List String}
    {earlier closings : Nat} (settles : Settles between next)
    (positive : 0 < between.threshold.toNat) (before : Woken ⟨between, withdrawn, earlier⟩)
    (quorum : between.done = true → ∃ vote, between.threshold.toNat ≤ (between.count vote).toNat)
    (pendingStays : ∀ voter ∈ between.votersByNode, voter.Pending → voter.name ∉ withdrawn) :
    Woken ⟨next, withdrawn, closings⟩ ↔
      (∃ vote, between.threshold.toNat ≤ (between.count vote).toNat + between.outstanding) ∨
      (∀ voter ∈ between.votersByNode, ¬ voter.Pending) ∨
      ∀ voter ∈ between.votersByNode, voter.result = .undecided → voter.vote ≠ none := by
  cases settles with
  | waiting best attained short possible =>
    refine iff_of_true ?_ (.inl ?_)
    · intro voter member cast decided stays
      rw [signal_votersByNode] at member
      have done : between.done = true := before voter member cast decided stays
      exact (signal_done between positive).mpr (.inl done)
    · rcases attained with zero | ⟨vote, reached⟩
      · exact ⟨0, by omega⟩
      · exact ⟨vote, by omega⟩
  | decided vote reached =>
    refine iff_of_true (woken_of_done ?_)
      (.inl ⟨vote, Nat.le_trans reached (Nat.le_add_right _ _)⟩)
    exact (signal_done (between.updateVoters _ _) positive).mpr (.inr (.inl ⟨vote, reached⟩))
  | hopeless lost =>
    have short : ¬ ∃ vote, between.threshold.toNat ≤ (between.count vote).toNat := by
      rintro ⟨vote, reached⟩
      have below := lost vote
      omega
    have signalled : (between.updateVoters Voter.fail Voter.fail_name).signal.done = true ↔
        ∀ voter ∈ between.votersByNode, voter.result = .undecided → voter.vote ≠ none := by
      rw [signal_done (between.updateVoters _ _) positive]
      constructor
      · rintro (done | reached | settled) voter member undecided absent
        · exact short (quorum done)
        · exact short reached
        · exact settled voter.fail
            (change_mem_update _ _ Voter.fail_name member)
            (Voter.fail_undecided.mpr ⟨undecided, absent⟩)
      · intro all
        refine .inr (.inr (fun voter member undecided => ?_))
        obtain ⟨old, present, rfl⟩ := (mem_update _ _ Voter.fail_name).mp member
        obtain ⟨isUndecided, absent⟩ := Voter.fail_undecided.mp undecided
        exact all old present isUndecided absent
    rw [← signalled]
    constructor
    · intro woken
      by_cases some : ∃ voter ∈ between.votersByNode, voter.Pending
      · -- Whoever is pending is failed here, and so is to be woken.
        obtain ⟨voter, member, pending⟩ := some
        have failed : voter.fail = voter.withResult .failed := if_pos pending
        have after :
            voter.fail ∈ (between.updateVoters Voter.fail Voter.fail_name).votersByNode :=
          change_mem_update _ _ Voter.fail_name member
        rw [failed] at after
        rw [← signal_votersByNode (between.updateVoters _ _)] at after
        refine .inr (.inr (woken (voter.withResult .failed) after pending.2 ?_
          (pendingStays voter member pending)))
        exact VoteResult.noConfusion
      · exact .inr (.inl (fun voter member pending => some ⟨voter, member, pending⟩))
    · rintro (⟨vote, possible⟩ | none | done)
      · have below := lost vote
        omega
      · intro voter member cast decided stays
        rw [signal_votersByNode] at member
        obtain ⟨old, present, rfl⟩ := (mem_update _ _ Voter.fail_name).mp member
        rw [Voter.fail, if_neg (none old present)] at cast decided stays
        exact absurd (quorum (before old present cast decided stays)) short
      · exact woken_of_done done

section

variable {voter : Voter} (inv : ledger.Inv)
include inv

theorem Inv.prospect_cast (member : voter ∈ ledger.subtransaction.votersByNode)
    (fresh : voter.vote = none) (vote other : Vote) :
    ((ledger.subtransaction.castVote voter.name voter.votes vote).count other).toNat +
        (ledger.subtransaction.castVote voter.name voter.votes vote).outstanding =
      ledger.prospect other - if other = vote then 0 else voter.weight := by
  have outstanding := castVote_outstanding member fresh vote
  rw [count_castVote_toNat member fresh vote inv.inv.sound inv.inv.accounted, inv.counted, prospect]
  split <;> omega

theorem Inv.prospect_withdraw (member : voter ∈ ledger.subtransaction.votersByNode)
    (undecided : voter.result = .undecided) {vote : Vote} (current : voter.vote = some vote)
    (other : Vote) :
    ((ledger.subtransaction.withdrawVote voter.name voter.votes vote).count other).toNat +
        (ledger.subtransaction.withdrawVote voter.name voter.votes vote).outstanding =
      ledger.prospect other - if other = vote then voter.weight else 0 := by
  have count := count_withdrawVote_toNat member vote current undecided inv.inv.accounted other
  have counted := inv.counted other
  rw [withdrawVote_outstanding member, prospect]
  omega

theorem woken_iff_of_cast (woken : ledger.Woken)
    (member : voter ∈ ledger.subtransaction.votersByNode) (undecided : voter.result = .undecided)
    (fresh : voter.vote = none) (vote : Vote) {order : List Vote} {next : Subtransaction}
    (visits : order.Perm
      (ledger.subtransaction.castVote voter.name voter.votes vote).voteCounts.keys)
    (settled : (ledger.subtransaction.castVote voter.name voter.votes vote).settle order = .ok next)
    (closings : Nat) :
    Woken { ledger with subtransaction := next, closings := closings } ↔
      ledger.Conclusive (.vote voter.name vote order) := by
  have base := inv.inv
  have sound := castVote_sound member vote base.sound
  have accounted := castVote_accounted member fresh vote base.sound base.accounted undecided
  have before : Woken ⟨ledger.subtransaction.castVote voter.name voter.votes vote,
      ledger.withdrawn, 0⟩ := by
    intro other present cast decided stays
    rcases (mem_castVote member vote).mp present with rfl | ⟨old, -⟩
    · exact absurd undecided decided
    · exact woken other old cast decided stays
  rw [woken_iff_of_settles (settles_of_settle sound accounted visits settled)
    sound.threshold_pos before (inv.cast_quorum member undecided fresh vote) ?_]
  · simp only [inv.prospect_cast member fresh vote]
    constructor
    · intro settles other present named _ _
      obtain rfl := eq_of_key present member named
      rcases settles with possible | none | all
      · exact .inl possible
      · have cast := (mem_castVote member vote).mpr (.inl rfl)
        exact absurd ⟨undecided, some_ne_none vote⟩ (none _ cast)
      · refine .inr (fun rest old different => all rest ?_)
        exact (mem_castVote member vote).mpr (.inr ⟨old, different⟩)
    · intro conclusive
      rcases conclusive voter member rfl undecided fresh with possible | all
      · exact .inl possible
      refine .inr (.inr (fun rest present isUndecided => ?_))
      rcases (mem_castVote member vote).mp present with rfl | ⟨old, different⟩
      · exact some_ne_none vote
      · exact all rest old different isUndecided
  · intro other present pending inside
    rcases (mem_castVote member vote).mp present with rfl | ⟨old, -⟩
    · exact inv.stays member undecided inside
    · exact inv.stays old pending.1 inside

theorem woken_iff_of_withdraw (woken : ledger.Woken)
    (member : voter ∈ ledger.subtransaction.votersByNode) (undecided : voter.result = .undecided)
    {vote : Vote} (current : voter.vote = some vote)
    (running : ledger.subtransaction.done = false) {order : List Vote} {next : Subtransaction}
    (visits : order.Perm
      (ledger.subtransaction.withdrawVote voter.name voter.votes vote).voteCounts.keys)
    (settled : (ledger.subtransaction.withdrawVote voter.name voter.votes vote).settle order =
      .ok next) (closings : Nat) :
    Woken ⟨next, voter.name :: ledger.withdrawn, closings⟩ ↔
      ledger.Conclusive (.withdraw voter.name order) := by
  have base := inv.inv
  have sound := withdrawVote_sound member vote base.sound
  have accounted := withdrawVote_accounted member vote current undecided base.accounted
  have before : Woken ⟨ledger.subtransaction.withdrawVote voter.name voter.votes vote,
      voter.name :: ledger.withdrawn, 0⟩ := by
    intro other present cast decided stays
    rcases (mem_withdrawVote member vote).mp present with rfl | ⟨old, -⟩
    · exact absurd mem_cons_self stays
    · exact woken other old cast decided (fun inside => stays (mem_cons_of_mem _ inside))
  have others := fun {rest : Voter} (isUndecided : rest.result = .undecided) =>
    mem_withdrawVote_undecided member vote isUndecided
  rw [woken_iff_of_settles (settles_of_settle sound accounted visits settled)
    sound.threshold_pos before ?_ ?_]
  · simp only [inv.prospect_withdraw member undecided current]
    constructor
    · intro settles other present named cast _ isCast
      obtain rfl := eq_of_key present member named
      obtain rfl := Option.some.inj (isCast.symm.trans current)
      refine settles.imp_right (Or.imp ?_ ?_)
      · exact fun none rest old different pending =>
          none rest ((others pending.1).mpr ⟨old, different⟩) pending
      · intro all rest old isUndecided
        by_cases same : rest.name = other.name
        · rw [eq_of_key old present same, isCast]
          exact some_ne_none _
        · exact all rest ((others isUndecided).mpr ⟨old, same⟩) isUndecided
    · intro conclusive
      refine (conclusive voter member rfl vote undecided current).imp_right (Or.imp ?_ ?_)
      · intro none rest present pending
        obtain ⟨old, different⟩ := (others pending.1).mp present
        exact none rest old different pending
      · exact fun all rest present isUndecided =>
          all rest ((others isUndecided).mp present).1 isUndecided
  · intro done
    rw [withdrawVote_done, running] at done
    cases done
  · intro other present pending inside
    obtain ⟨old, different⟩ := (others pending.1).mp present
    exact inv.stays old pending.1 ((mem_cons.mp inside).resolve_left different)

end

/-- A `stop` that fails wakes nobody, so it must not have stopped a voter that waits. -/
theorem woken_iff_of_halfStop (inv : ledger.Inv) (woken : ledger.Woken)
    {visited rest : List String} {blocked : Voter}
    (visits : (visited ++ blocked.name :: rest).Perm ledger.subtransaction.votersByNode.keys)
    (member : blocked ∈ ledger.subtransaction.votersByNode) (isBlocked : blocked.Blocked)
    (free : ∀ voter ∈ ledger.subtransaction.votersByNode, voter.name ∈ visited → ¬ voter.Blocked)
    (closings : Nat) :
    Woken { ledger with
      subtransaction := { ledger.subtransaction with
        votersByNode := ledger.subtransaction.votersByNode.update _ (Voter.stopIn_name visited) }
      closings := closings } ↔
      ledger.Conclusive (.stop (visited ++ blocked.name :: rest)) := by
  constructor
  · intro after _ voter present pending
    refine ⟨blocked, member, isBlocked, ?_⟩
    have once : (visited ++ blocked.name :: rest).Nodup :=
      visits.nodup_iff.mpr ledger.subtransaction.votersByNode.unique
    have outside : blocked.name ∉ visited := fun inside =>
      disjoint_of_nodup_append once inside mem_cons_self
    have unvisited : voter.name ∉ visited := by
      intro inside
      have stopped : voter.stopIn visited = voter.withResult .stopped := if_pos ⟨pending.1, inside⟩
      have moved := change_mem_update _ _ (Voter.stopIn_name visited) present
      rw [stopped] at moved
      have stays : voter.name ∉ ledger.withdrawn := inv.stays present pending.1
      have done := after _ moved pending.2 VoteResult.noConfusion stays
      exact inv.informed done voter present pending.2 pending.1
    exact idxOf_blocked_lt member isBlocked outside present pending.1 unvisited
  · intro whole voter present cast decided stays
    have spared := StopsNoVote.spared whole member isBlocked free
    obtain ⟨old, before, rfl⟩ := (mem_update _ _ (Voter.stopIn_name visited)).mp present
    rw [(Voter.stopIn_decides visited).vote] at cast
    rw [Voter.stopIn_name] at stays
    rcases old.stopIn_result visited with ⟨-, undecided, inside⟩ | same
    · exact absurd ⟨undecided, cast⟩ (spared old before inside)
    rw [same] at decided
    exact woken old before cast decided stays

/-- One call keeps everybody woken exactly if it is conclusive. -/
theorem step_woken_iff {ledger after : Ledger} {op : Op} (inv : ledger.Inv) (woken : ledger.Woken)
    (taken : ledger.step op = some after) : after.Woken ↔ ledger.Conclusive op := by
  have positive := inv.inv.sound.threshold_pos
  obtain ⟨-, next, run, rfl⟩ := step_eq_some.mp taken
  cases op with
  | vote node vote order =>
    rcases vote_cases run with
      ⟨same, -, refused⟩ | ⟨voter, member, rfl, undecided, fresh, visits, settled, -⟩
    · rw [same]
      refine iff_of_true woken ?_
      rintro voter member rfl undecided fresh
      obtain ⟨after, -, accepted⟩ := vote_accepted positive member undecided fresh vote order
      exact absurd (congrArg Prod.snd accepted) refused
    · exact woken_iff_of_cast inv woken member undecided fresh vote visits settled _
  | withdraw node order =>
    rcases withdraw_cases run with ⟨same, -, refused⟩ |
      ⟨voter, member, vote, rfl, undecided, current, running, visits, settled, -, replied⟩
    · rw [same, withdrawing, if_neg refused]
      refine iff_of_true woken ?_
      rintro voter member rfl vote undecided current
      have cast : voter.vote ≠ none := by
        rw [current]
        exact some_ne_none vote
      have running : ledger.subtransaction.done = false :=
        Bool.eq_false_iff.mpr (fun done => inv.informed done voter member cast undecided)
      exact absurd (withdraw_accepted positive member undecided current running order) refused
    · rw [withdrawing, if_pos replied]
      exact woken_iff_of_withdraw inv woken member undecided current running visits settled _
  | cancel =>
    cases run
    exact iff_of_true (woken_of_done rfl) trivial
  | stop order =>
    simp only [apply, ite_none_right_eq_some, Option.some.injEq] at run
    obtain ⟨isPerm, rfl⟩ := run
    have visits := isPerm_iff.mp isPerm
    rcases stop_cases order visits with
      ⟨returned, free⟩ | ⟨visited, blocked, rest, err, rfl, member, isBlocked, free, returned⟩
    · rw [returned]
      refine iff_of_true (woken_of_done rfl) ?_
      rintro ⟨blocked, present, isBlocked⟩
      exact absurd isBlocked (free blocked present)
    · rw [returned]
      exact woken_iff_of_halfStop inv woken visits member isBlocked free _

end Ledger

/-- In every run of calls on a subtransaction, the voters that were decided have been woken all
along if and only if each call left some vote a prospect of the threshold or left nobody to
wait for, and each `stop` that failed had stopped no voter with a vote. -/
theorem woken_iff_conclusive {id threshold : UInt64} {voters : List Member} {t : Transaction}
    {ledger : Ledger} {ops : List Op}
    (accepted : newTransaction id voters threshold = .ok t) (fits : votesOf voters < 2 ^ 64)
    (run : exec step t.ledger ops = some ledger) :
    Throughout step Woken t.ledger ops ↔ Along step Conclusive t.ledger ops := by
  refine throughout_iff_along run
    (fun _ _ _ inv taken => (step_takes taken).inv inv)
    (fun _ _ _ inv woken taken => step_woken_iff inv woken taken)
    (ledger_inv accepted fits) ?_
  exact fun voter member cast => absurd (ledger_fresh accepted voter member).1 cast

/-- The three voters, all of which have to agree. -/
def unanimous : Transaction := { trio with threshold := 3 }

theorem unanimous_accepted : newTransaction 1 unanimous.voters 3 = .ok unanimous := rfl

theorem woken_iff_conclusive_unanimous :
    votesOf unanimous.voters < 2 ^ 64 ∧
      (Throughout step Woken unanimous.ledger [.vote "b" 7 [7], .cancel] ↔
        Along step Conclusive unanimous.ledger [.vote "b" 7 [7], .cancel]) :=
  ⟨by decide, woken_iff_conclusive unanimous_accepted (by decide) (some_get (by decide)).symm⟩

/-- Nodes `a` and `b` disagree, and so are failed, but wait on for `c`. -/
def disagreed : Ledger where
  subtransaction :=
    { done := false
      threshold := 3
      votersByNode := ⟨[⟨"a", 1, some 7, .failed⟩, ⟨"b", 1, some 9, .failed⟩,
        ⟨"c", 1, none, .undecided⟩], by decide⟩
      voteCounts := ⟨[(7, 1), (9, 1)], by decide⟩ }
  withdrawn := []
  closings := 0

/-- Node `b` has withdrawn, `a` was stopped on the way to `b`, and waits on for `c`. -/
def stoppedHalfway : Ledger where
  subtransaction :=
    { done := false
      threshold := 2
      votersByNode := ⟨[⟨"a", 1, some 7, .stopped⟩, ⟨"b", 1, some 7, .canceled⟩,
        ⟨"c", 1, none, .undecided⟩], by decide⟩
      voteCounts := ⟨[(7, 1)], by decide⟩ }
  withdrawn := ["b"]
  closings := 0

/-- Both ways for a voter to be decided and not woken. -/
theorem decided_not_woken :
    (newTransaction 1 unanimous.voters 3 = .ok unanimous ∧
      exec step unanimous.ledger [.vote "a" 7 [7], .vote "b" 9 [7, 9]] = some disagreed ∧
      ¬ disagreed.Woken) ∧
    (newTransaction 1 trio.voters 2 = .ok trio ∧
      exec step trio.ledger [.vote "b" 7 [7], .withdraw "b" [7], .vote "a" 7 [7],
        .stop ["a", "b", "c"]] = some stoppedHalfway ∧
      ¬ stoppedHalfway.Woken) :=
  ⟨⟨rfl, by decide, by decide⟩, ⟨rfl, by decide, by decide⟩⟩

end Gitaly.Transactions
