import Gitaly.Praefect.SubtransactionLedger

/- The books of a subtransaction are right after every sequence of calls: votes are counted
once and taken back once, results and votes are final, and whoever has voted is decided by
the time voters are woken. -/
namespace Gitaly.Transactions

open Runs Weights Subtransaction Voter KeyedTable List

namespace Subtransaction

variable {t next : Subtransaction}

/-- Voters were woken because everybody is decided, or because a vote has its quorum. -/
def Finished (t : Subtransaction) : Prop :=
  t.done = true → t.Settled ∨ ∃ vote, t.threshold.toNat ≤ (t.count vote).toNat

/-- Once voters are woken, who has cast a vote is decided. -/
def Informed (t : Subtransaction) : Prop :=
  t.done = true → ∀ voter ∈ t.votersByNode, voter.vote ≠ none → voter.result ≠ .undecided

theorem Settled.finished (settled : t.Settled) : t.Finished ∧ t.Informed :=
  ⟨fun _ => .inl settled, fun _ voter member _ => settled voter member⟩

/-- A signal wakes voters for one of the reasons, if they had been woken for one. -/
theorem signal_finished (positive : 0 < t.threshold.toNat)
    (before : t.done = true → ∃ vote, t.threshold.toNat ≤ (t.count vote).toNat)
    (quorum : (∃ vote, t.threshold.toNat ≤ (t.count vote).toNat) →
      ∀ voter ∈ t.votersByNode, voter.vote ≠ none → voter.result ≠ .undecided) :
    t.signal.Finished ∧ t.signal.Informed := by
  have reason : t.signal.done = true →
      (∃ vote, t.threshold.toNat ≤ (t.count vote).toNat) ∨ t.Settled := by
    intro done
    rcases (signal_done t positive).mp done with already | reached | settled
    · exact .inl (before already)
    · exact .inl reached
    · exact .inr settled
  have count := count_of_voteCounts (signal_voteCounts t)
  constructor
  · intro done
    rcases reason done with ⟨vote, reached⟩ | settled
    · exact .inr ⟨vote, by rw [signal_threshold, count]; exact reached⟩
    left
    unfold Settled
    rw [signal_votersByNode]
    exact settled
  · intro done
    rw [signal_votersByNode]
    rcases reason done with reached | settled
    · exact quorum reached
    · exact fun voter member _ => settled voter member

theorem Settles.finished {between : Subtransaction} (settles : Settles between next)
    (positive : 0 < between.threshold.toNat)
    (before : between.done = true → ∃ vote, between.threshold.toNat ≤ (between.count vote).toNat) :
    next.Finished ∧ next.Informed := by
  cases settles with
  | waiting best attained short possible =>
    refine signal_finished positive before ?_
    rintro ⟨vote, reached⟩
    exact absurd reached (Nat.not_le.mpr (short vote))
  | hopeless lost =>
    refine signal_finished positive before ?_
    rintro ⟨vote, reached⟩
    have below := lost vote
    have reached : between.threshold.toNat ≤ (between.count vote).toNat := reached
    omega
  | decided vote quorum =>
    refine signal_finished positive before ?_
    rintro - voter member cast undecided
    obtain ⟨old, -, rfl⟩ := (mem_update _ _ (decideBy_name _)).mp member
    have decides := decideBy_decides (some vote)
    have pending : old.Pending := ⟨decides.undecided undecided, decides.vote old ▸ cast⟩
    rw [decideBy, if_pos pending] at undecided
    split at undecided <;> cases undecided

theorem Settles.done {between : Subtransaction} (settles : Settles between next)
    (done : between.done = true) : next.done = true := by
  have kept : ∀ t : Subtransaction, t.done = true → t.signal.done = true := by
    intro t done
    unfold signal
    split
    · rfl
    · exact done
  cases settles with
  | waiting | hopeless | decided => exact kept _ done

end Subtransaction

namespace Ledger

variable {ledger after : Ledger} {op : Op}

/-- The books are right. -/
structure Inv (ledger : Ledger) : Prop where
  inv : ledger.subtransaction.Inv
  counted : ∀ vote, (ledger.subtransaction.count vote).toNat =
    ledger.subtransaction.standing ledger.withdrawn vote
  withdrew : ∀ voter ∈ ledger.subtransaction.votersByNode, voter.name ∈ ledger.withdrawn →
    voter.vote ≠ none ∧ voter.result = .canceled
  canceled : ∀ voter ∈ ledger.subtransaction.votersByNode, voter.vote ≠ none →
    voter.result = .canceled → ledger.subtransaction.done = true ∨ voter.name ∈ ledger.withdrawn
  finished : ledger.subtransaction.Finished
  informed : ledger.subtransaction.Informed

theorem Inv.stays (inv : ledger.Inv) {voter : Voter}
    (member : voter ∈ ledger.subtransaction.votersByNode)
    (undecided : voter.result = .undecided) : voter.name ∉ ledger.withdrawn := by
  intro inside
  have canceled := (inv.withdrew voter member inside).2
  rw [undecided] at canceled
  cases canceled

theorem inv_of_settles {between next : Subtransaction} {withdrawn : List String}
    (settles : Settles between next) (inv : next.Inv) (sound : between.Sound)
    (counted : ∀ vote, (between.count vote).toNat = between.standing withdrawn vote)
    (withdrew : ∀ voter ∈ between.votersByNode, voter.name ∈ withdrawn →
      voter.vote ≠ none ∧ voter.result = .canceled)
    (canceled : ∀ voter ∈ between.votersByNode, voter.vote ≠ none → voter.result = .canceled →
      between.done = true ∨ voter.name ∈ withdrawn)
    (woken : between.done = true → ∃ vote, between.threshold.toNat ≤ (between.count vote).toNat)
    (closings : Nat) : Inv ⟨next, withdrawn, closings⟩ := by
  obtain ⟨change, keep, settled, voters, counts, threshold⟩ := settles.settledBy
  obtain ⟨finished, informed⟩ := settles.finished sound.threshold_pos woken
  refine ⟨inv, ?_, ?_, ?_, finished, informed⟩
  · intro vote
    rw [count_of_voteCounts counts, counted, standing_decides settled.decides voters]
  · intro voter member isWithdrawn
    obtain ⟨old, present, rfl⟩ := voter_before voters member
    rw [keep] at isWithdrawn
    have before := withdrew old present isWithdrawn
    rw [settled.decides.settled old (by rw [before.2]; decide)]
    exact before
  · intro voter member cast isCanceled
    obtain ⟨old, present, rfl⟩ := voter_before voters member
    rw [settled.decides.vote] at cast
    rw [keep]
    exact (canceled old present cast
      (settled.result_of_ne (by decide) (by decide) isCanceled)).imp_left settles.done

theorem Inv.closes (inv : ledger.Inv) {next : Subtransaction} (nextInv : next.Inv)
    {change : Voter → Voter} (keep : ∀ voter, (change voter).name = voter.name)
    (decides : Decides change)
    (voters : next.votersByNode = ledger.subtransaction.votersByNode.update change keep)
    (counts : next.voteCounts = ledger.subtransaction.voteCounts)
    (ends : next.Finished ∧ next.Informed)
    (cancels : next.done = true ∨ ledger.subtransaction.done = next.done ∧
      ∀ voter, (change voter).result = .canceled → voter.result = .canceled)
    (closings : Nat) :
    Inv { ledger with subtransaction := next, closings := closings } := by
  refine ⟨nextInv, ?_, ?_, ?_, ends.1, ends.2⟩
  · intro vote
    rw [count_of_voteCounts counts, inv.counted, standing_decides decides voters]
  · intro voter member isWithdrawn
    obtain ⟨old, present, rfl⟩ := voter_before voters member
    rw [keep] at isWithdrawn
    have before := inv.withdrew old present isWithdrawn
    rw [decides.settled old (by rw [before.2]; decide)]
    exact before
  · intro voter member cast isCanceled
    obtain ⟨old, present, rfl⟩ := voter_before voters member
    rcases cancels with done | ⟨same, stays⟩
    · exact .inl done
    rw [decides.vote] at cast
    have before := inv.canceled old present cast (stays old isCanceled)
    rw [keep, ← same]
    exact before

section

variable {voter : Voter} (inv : ledger.Inv) (member : voter ∈ ledger.subtransaction.votersByNode)
  (undecided : voter.result = .undecided)
include inv member undecided

/-- Voters that were woken with one still undecided were so by a quorum, and another vote
leaves them it. -/
theorem Inv.cast_quorum (fresh : voter.vote = none) (vote : Vote)
    (done : (ledger.subtransaction.castVote voter.name voter.votes vote).done = true) :
    ∃ winner, (ledger.subtransaction.castVote voter.name voter.votes vote).threshold.toNat ≤
      ((ledger.subtransaction.castVote voter.name voter.votes vote).count winner).toNat := by
  have base := inv.inv
  rcases inv.finished done with all | ⟨winner, reached⟩
  · exact absurd undecided (all voter member)
  refine ⟨winner, Nat.le_trans reached ?_⟩
  rw [count_castVote_toNat member fresh vote base.sound base.accounted]
  exact Nat.le_add_right _ _

theorem Inv.cast (fresh : voter.vote = none) (vote : Vote) {order : List Vote}
    {next : Subtransaction}
    (visits : order.Perm
      (ledger.subtransaction.castVote voter.name voter.votes vote).voteCounts.keys)
    (settled : (ledger.subtransaction.castVote voter.name voter.votes vote).settle order = .ok next)
    (nextInv : next.Inv) (closings : Nat) :
    Inv { ledger with subtransaction := next, closings := closings } := by
  have base := inv.inv
  have sound := castVote_sound member vote base.sound
  have accounted := castVote_accounted member fresh vote base.sound base.accounted undecided
  have grows := count_castVote_toNat member fresh vote base.sound base.accounted
  have remains := inv.stays member undecided
  refine inv_of_settles (settles_of_settle sound accounted visits settled) nextInv
    sound ?_ ?_ ?_ (inv.cast_quorum member undecided fresh vote) closings
  · intro other
    rw [grows, inv.counted, standing_castVote member fresh remains]
  · intro other present inside
    rcases (mem_castVote member vote).mp present with rfl | ⟨old, -⟩
    · exact absurd inside remains
    · exact inv.withdrew other old inside
  · intro other present cast isCanceled
    rcases (mem_castVote member vote).mp present with rfl | ⟨old, -⟩
    · rw [withVote, undecided] at isCanceled
      cases isCanceled
    · exact inv.canceled other old cast isCanceled

theorem Inv.withdraw {vote : Vote} (current : voter.vote = some vote)
    (running : ledger.subtransaction.done = false) {order : List Vote} {next : Subtransaction}
    (visits : order.Perm
      (ledger.subtransaction.withdrawVote voter.name voter.votes vote).voteCounts.keys)
    (settled : (ledger.subtransaction.withdrawVote voter.name voter.votes vote).settle order =
      .ok next) (closings : Nat) : Inv ⟨next, voter.name :: ledger.withdrawn, closings⟩ := by
  have base := inv.inv
  have sound := withdrawVote_sound member vote base.sound
  have accounted := withdrawVote_accounted member vote current undecided base.accounted
  have settles := settles_of_settle sound accounted visits settled
  have nextInv := settles.inv sound accounted
    (withdrawVote_backed base member running vote)
  have remains := inv.stays member undecided
  refine inv_of_settles settles nextInv sound ?_ ?_ ?_ ?_ closings
  · intro other
    have count := count_withdrawVote_toNat member vote current undecided base.accounted other
    have standing := standing_withdrawVote member current remains other
    have before := inv.counted other
    omega
  · intro other present inside
    rcases (mem_withdrawVote member vote).mp present with rfl | ⟨old, different⟩
    · rw [withResult, current]
      exact ⟨Option.some_ne_none vote, rfl⟩
    · exact inv.withdrew other old ((mem_cons.mp inside).resolve_left different)
  · intro other present cast isCanceled
    rcases (mem_withdrawVote member vote).mp present with rfl | ⟨old, -⟩
    · exact .inr mem_cons_self
    · exact (inv.canceled other old cast isCanceled).imp_right (mem_cons_of_mem _)
  · intro done
    rw [withdrawVote_done, running] at done
    cases done

end

/-- A `stop` that fails wakes nobody. -/
theorem Inv.halfStop (inv : ledger.Inv) (visited : List String) :
    let stopped := { ledger.subtransaction with
      votersByNode := ledger.subtransaction.votersByNode.update _ (stopIn_name visited) }
    stopped.Finished ∧ stopped.Informed := by
  have decides := stopIn_decides visited
  constructor
  · intro done
    refine (inv.finished done).imp_left (fun all voter member undecided => ?_)
    obtain ⟨old, present, rfl⟩ := (mem_update _ _ (stopIn_name visited)).mp member
    exact all old present (decides.undecided undecided)
  · intro done voter member cast undecided
    obtain ⟨old, present, rfl⟩ := (mem_update _ _ (stopIn_name visited)).mp member
    rw [decides.vote] at cast
    exact inv.informed done old present cast (decides.undecided undecided)

theorem Takes.inv (takes : Takes ledger op after) (inv : ledger.Inv) : after.Inv := by
  cases takes with
  | refused _ closings =>
    exact ⟨inv.inv, inv.counted, inv.withdrew, inv.canceled, inv.finished, inv.informed⟩
  | withdraw voter vote order next closings member undecided current running visits settled =>
    exact inv.withdraw member undecided current running visits settled closings
  | moves _ next closings moves stays =>
    have nextInv := moves.inv inv.inv
    cases moves with
    | refused =>
      exact ⟨inv.inv, inv.counted, inv.withdrew, inv.canceled, inv.finished, inv.informed⟩
    | cast voter vote order _ member undecided fresh visits settled =>
      exact inv.cast member undecided fresh vote visits settled nextInv closings
    | withdraw voter vote order => exact absurd rfl (stays voter.name order)
    | cancel =>
      exact inv.closes nextInv cancel_name cancel_decides rfl rfl
        (ledger.subtransaction.cancel_settled).finished (.inl rfl) closings
    | stop order visits free =>
      exact inv.closes nextInv (stopIn_name order) (stopIn_decides order) rfl rfl
        (settled_of_stopIn order visits rfl).finished (.inl rfl) closings
    | halfStop visited voter rest visits member blocked free =>
      exact inv.closes nextInv (stopIn_name visited) (stopIn_decides visited) rfl
        rfl (inv.halfStop visited)
        (.inr ⟨rfl, fun _ => stopIn_of_ne (by decide)⟩) closings

end Ledger

/-- The call ran into a nil pointer, whatever its error is wrapped in. -/
def TransactionError.dereferencesNil : TransactionError → Bool
  | .nilDereference => true
  | .updatingState _ cause => cause.dereferencesNil
  | .cancelVote cause => cause.dereferencesNil
  | _ => false

namespace Subtransaction

variable {t : Subtransaction}

theorem updateVoterState_safe (positive : 0 < t.threshold.toNat) {voter : Voter}
    {vote : Option Vote} (voted : vote = none → voter.vote ≠ none) {order : List Vote}
    {err : TransactionError} (failed : t.updateVoterState voter vote order = .error err) :
    err.dereferencesNil = false := by
  by_cases undecided : voter.result = .undecided
  · cases vote with
    | none =>
      obtain ⟨current, cast⟩ := Option.ne_none_iff_exists'.mp (voted rfl)
      rw [updateVoterState_withdraw undecided cast] at failed
      split at failed
      · cases failed
        rfl
      obtain ⟨next, settled⟩ := settle_total
        (t := t.withdrawVote voter.name voter.votes current) positive order
      rw [settled] at failed
      cases failed
    | some vote =>
      cases current : voter.vote with
      | none =>
        obtain ⟨next, settled⟩ := settle_total
          (t := t.castVote voter.name voter.votes vote) positive order
        rw [updateVoterState_cast undecided current, settled] at failed
        cases failed
      | some other =>
        simp only [updateVoterState, undecided, current] at failed
        cases failed
        rfl
  · unfold updateVoterState at failed
    cases result : voter.result with
    | undecided => exact absurd result undecided
    | _ =>
      simp only [result] at failed
      cases failed
      rfl

/-- No call that is allowed dereferences a nil pointer. -/
theorem reply_safe (positive : 0 < t.threshold.toNat) {op : Op} (allowed : t.Allows op) :
    (t.reply op).all (fun err => !err.dereferencesNil) = true := by
  cases op with
  | vote node vote order =>
    unfold reply Subtransaction.vote
    dsimp only
    cases found : t.votersByNode.find node with
    | none => rfl
    | some voter =>
      dsimp only
      split
      · rfl
      cases updated : t.updateVoterState voter (some vote) order with
      | ok next => rfl
      | error err =>
        have safe := updateVoterState_safe positive (fun absent => by cases absent) updated
        simp [TransactionError.dereferencesNil, safe]
  | withdraw node order =>
    obtain ⟨voter, member, rfl, cast⟩ := allowed
    have found : t.votersByNode.find voter.name = some voter := find_key member
    unfold reply
    dsimp only
    rw [collectVotes_withdrawing found]
    cases updated : t.updateVoterState voter none order with
    | ok next => rfl
    | error err =>
      have safe := updateVoterState_safe positive (fun _ => cast) updated
      simp [TransactionError.dereferencesNil, safe]
  | cancel => rfl
  | stop order =>
    have blocked : ∀ voters order err, (stopVoters voters order).2 = some err →
        err.dereferencesNil = false := by
      intro voters order err failed
      induction order generalizing voters with
      | nil => cases failed
      | cons node rest ih =>
        unfold stopVoters at failed
        split at failed
        · cases failed
          rfl
        · cases failed
          rfl
        all_goals exact ih _ failed
    unfold reply stop
    dsimp only
    split
    · rename_i voters err returned
      have safe := blocked t.votersByNode order err (by rw [returned])
      simp [safe]
    · rfl

end Subtransaction

/-- The later state has the same voters, with the results they were decided on and the votes
they had cast. -/
def Subtransaction.KeptBy (t later : Subtransaction) : Prop :=
  ∀ voter ∈ t.votersByNode, ∃ after ∈ later.votersByNode, after.name = voter.name ∧
    (voter.result ≠ .undecided → after.result = voter.result) ∧
    (voter.vote ≠ none → after.vote = voter.vote)

namespace Ledger

/-- What holds of the books of a subtransaction, whatever calls it has seen. -/
structure Bookkept (ledger : Ledger) : Prop where
  /-- The counts are the votes that were cast and not withdrawn. -/
  counted : ∀ vote, (ledger.subtransaction.count vote).toNat =
    ledger.subtransaction.standing ledger.withdrawn vote
  /-- A vote that can be withdrawn is counted, so the subtraction does not wrap. -/
  covered : ∀ voter ∈ ledger.subtransaction.votersByNode, ∀ vote, voter.result = .undecided →
    voter.vote = some vote → voter.votes ≤ ledger.subtransaction.count vote
  /-- Results and votes are final. -/
  final : ∀ later, Reaches Ledger.step ledger later →
    ledger.subtransaction.KeptBy later.subtransaction
  once : ledger.closings ≤ 1
  /-- Once `doneCh` is closed, `collectVotes` finds a node that has voted decided. -/
  decided : ledger.subtransaction.done = true →
    ∀ voter ∈ ledger.subtransaction.votersByNode, voter.vote ≠ none →
      voter.result ≠ .undecided ∧
        (ledger.subtransaction.collectVotes false voter.name []).2 ≠
          some (.undecidedVoter voter.name)
  safe : ∀ op, ledger.subtransaction.Allows op →
    (ledger.subtransaction.reply op).all (fun err => !err.dereferencesNil) = true

theorem keptBy_of_reaches {ledger later : Ledger} (reached : Reaches Ledger.step ledger later) :
    ledger.subtransaction.KeptBy later.subtransaction := by
  refine reached.invariant (fun later => ledger.subtransaction.KeptBy later.subtransaction) ?_
    (fun voter member => ⟨voter, member, rfl, fun _ => rfl, fun _ => rfl⟩)
  intro between op next before taken voter member
  obtain ⟨middle, present, named, result, vote⟩ := before voter member
  obtain ⟨after, afterPresent, sameName, follows⟩ :=
    (apply_evolves (step_apply taken)).after present
  refine ⟨after, afterPresent, sameName.trans named, ?_, ?_⟩
  · intro decided
    rw [follows.settled (by rw [result decided]; exact decided), result decided]
  · intro cast
    rw [follows.cast (by rw [vote cast]; exact cast), vote cast]

theorem closings_of_reaches {ledger later : Ledger} (reached : Reaches Ledger.step ledger later)
    (before : ledger.closings = ledger.subtransaction.done.toNat) :
    later.closings = later.subtransaction.done.toNat := by
  refine reached.invariant (fun later => later.closings = later.subtransaction.done.toNat) ?_ before
  intro between op next before taken
  rw [step_closings taken, before, apply_done (step_apply taken)]

theorem Inv.decided {ledger : Ledger} (inv : ledger.Inv)
    (done : ledger.subtransaction.done = true) {voter : Voter}
    (member : voter ∈ ledger.subtransaction.votersByNode) (cast : voter.vote ≠ none) :
    (ledger.subtransaction.collectVotes false voter.name []).2 ≠
      some (.undecidedVoter voter.name) := by
  have decided := inv.informed done voter member cast
  unfold Subtransaction.collectVotes
  rw [find_key member]
  simp only [Bool.false_eq_true, ↓reduceIte]
  cases result : voter.result with
  | undecided => exact absurd result decided
  | failed => cases voter.vote <;> simp
  | committed | canceled | stopped => simp

end Ledger

section accepted

variable {id threshold : UInt64} {voters : List Member} {t : Transaction} {ledger : Ledger}
  (accepted : newTransaction id voters threshold = .ok t) (fits : votesOf voters < 2 ^ 64)

include accepted

theorem ledger_fresh : ∀ voter ∈ t.ledger.subtransaction.votersByNode,
    voter.vote = none ∧ voter.result = .undecided := by
  obtain ⟨-, distinct, -⟩ := newTransaction_ok accepted
  intro voter member
  exact voters_fresh t.voters voter
    (newSubtransaction_voter (voters_distinct distinct) member)

include fits

theorem ledger_inv : t.ledger.Inv := by
  obtain ⟨same, distinct, quorums⟩ := newTransaction_ok accepted
  have voter : ∀ voter ∈ t.ledger.subtransaction.votersByNode, voter.vote = none :=
    fun voter member => (ledger_fresh accepted voter member).1
  refine ⟨World.newSubtransaction_counted distinct (quorums fits), ?_, ?_, ?_, ?_, ?_⟩
  · intro vote
    symm
    apply weight_eq_zero
    intro other member counted
    rw [voter other member] at counted
    cases counted.1
  · exact fun _ _ inside => absurd inside not_mem_nil
  · exact fun other member cast => absurd (voter other member) cast
  all_goals exact fun done => by cases done

theorem ledger_inv_of_reaches (reached : Reaches Ledger.step t.ledger ledger) : ledger.Inv :=
  reached.invariant Ledger.Inv (fun _ _ _ inv taken => (Ledger.step_takes taken).inv inv)
    (ledger_inv accepted fits)

/-- The books of every subtransaction are right, in whatever order votes, withdrawals,
`cancel` and `stop` come. -/
theorem bookkept_of_reaches (reached : Reaches Ledger.step t.ledger ledger) : ledger.Bookkept := by
  have inv := ledger_inv_of_reaches accepted fits reached
  refine ⟨inv.counted, ?_, fun _ => Ledger.keptBy_of_reaches, ?_, ?_, ?_⟩
  · intro voter member vote undecided cast
    rw [UInt64.le_iff_toNat_le, inv.counted]
    exact le_weight weight _ member ⟨cast, inv.stays member undecided⟩
  · rw [Ledger.closings_of_reaches reached rfl]
    exact Bool.toNat_le _
  · exact fun done voter member cast =>
      ⟨inv.informed done voter member cast, inv.decided done member cast⟩
  · exact fun op allowed => reply_safe inv.inv.sound.threshold_pos allowed

end accepted

/-- Node `b` votes and withdraws, `a` and `c` agree, and then the subtransaction is
stopped and canceled. -/
def withdrawnOps : List Op :=
  [.vote "b" 7 [7], .withdraw "b" [7], .vote "a" 9 [7, 9], .vote "c" 9 [9, 7],
    .withdraw "c" [7, 9], .stop ["a", "c", "b"], .cancel]

theorem withdrawn_bookkept :
    votesOf trio.voters < 2 ^ 64 ∧
      ((exec Ledger.step trio.ledger withdrawnOps).get (by decide)).Bookkept :=
  ⟨by decide, bookkept_of_reaches trio_accepted (by decide) (Reaches.of_exec (by decide))⟩

end Gitaly.Transactions
