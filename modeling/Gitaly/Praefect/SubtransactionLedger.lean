import Gitaly.Praefect.TransactionAgreement

/- The books of a subtransaction. Which nodes have withdrawn their vote, and how often
`doneCh` was closed, is kept beside the state: a voter that is canceled may have withdrawn
its vote or not, and a channel that is closed does not tell how often. -/
namespace Gitaly.Transactions

open Runs Weights Subtransaction Option
open KeyedTable (changeAt)

namespace Subtransaction

variable (t : Subtransaction)

/-- `settle` up to the deferred call of `mustSignalVoters`. -/
def settleVoters (order : List Vote) : Except TransactionError Subtransaction :=
  let (majorityVote, majorityVoteCount) := t.majority order
  if majorityVoteCount < t.threshold ∧
      t.threshold ≤ majorityVoteCount + t.outstandingVotes then
    .ok t
  else if majorityVoteCount < t.threshold then
    .ok (t.updateVoters Voter.fail Voter.fail_name)
  else if majorityVote = none ∧ t.votersByNode.rows.any (fun voter => voter.Pending) then
    .error .nilDereference
  else
    .ok (t.updateVoters (Voter.decideBy majorityVote) (Voter.decideBy_name majorityVote))

theorem settle_eq (order : List Vote) : t.settle order = (t.settleVoters order).map signal := by
  unfold settle settleVoters
  dsimp only
  split
  · rfl
  split
  · rfl
  · split <;> rfl

/-- How often the deferred function closes `doneCh`. -/
def signals (order : List Vote) : Nat :=
  match t.settleVoters order with
  | .ok settled => settled.mustSignalVoters.toNat
  | .error _ => 0

/-- How often a call executes `close(t.doneCh)`. -/
def closes : Op → Nat
  | .vote node vote order =>
    match t.votersByNode.find node with
    | none => 0
    | some voter =>
      if voter.vote = none ∧ voter.result = .undecided then
        (t.castVote voter.name voter.votes vote).signals order
      else 0
  | .withdraw node order =>
    match t.votersByNode.find node with
    | none => 0
    | some voter =>
      match voter.vote with
      | none => 0
      | some vote =>
        if voter.result = .undecided ∧ t.done = false then
          (t.withdrawVote voter.name voter.votes vote).signals order
        else 0
  | .cancel => (!t.done).toNat
  | .stop order => if (t.stop order).2 = none then (!t.done).toNat else 0

/-- What a call returns. -/
def reply : Op → Option TransactionError
  | .vote node vote order => (t.vote node vote order).2
  | .withdraw node order => (t.collectVotes true node order).2
  | .cancel => none
  | .stop order => (t.stop order).2

/-- A node collects the votes, and may withdraw its own one, after it has voted. -/
def Allows : Op → Prop
  | .withdraw node _ => ∃ voter ∈ t.votersByNode.rows, voter.name = node ∧ voter.vote ≠ none
  | _ => True

instance (t : Subtransaction) : DecidablePred t.Allows
  | .vote _ _ _ => isTrue trivial
  | .withdraw node _ => inferInstanceAs (Decidable
      (∃ voter ∈ t.votersByNode.rows, voter.name = node ∧ voter.vote ≠ none))
  | .cancel => isTrue trivial
  | .stop _ => isTrue trivial

/-- Votes of the voters that have cast `vote` and have not withdrawn it. -/
def standing (withdrawn : List String) (vote : Vote) : Nat :=
  weight Voter.weight (fun voter => voter.vote = some vote ∧ voter.name ∉ withdrawn)
    t.votersByNode.rows

end Subtransaction

structure Ledger where
  subtransaction : Subtransaction
  /-- The nodes that have withdrawn their vote. -/
  withdrawn : List String
  /-- How often `doneCh` was closed. -/
  closings : Nat
  deriving DecidableEq

/-- The books of a subtransaction that the transaction creates. -/
def Transaction.ledger (t : Transaction) : Ledger :=
  ⟨newSubtransaction (t.voters.map Member.voter) t.threshold, [], 0⟩

namespace Ledger

/-- A withdrawal is one when it is not refused. -/
def withdrawing (ledger : Ledger) : Op → List String
  | .withdraw node order =>
    if ledger.subtransaction.reply (.withdraw node order) = some .contextDone then [node] else []
  | _ => []

def step (ledger : Ledger) (op : Op) : Option Ledger :=
  if ledger.subtransaction.Allows op then
    (ledger.subtransaction.apply op).map (fun next =>
      { subtransaction := next
        withdrawn := ledger.withdrawing op ++ ledger.withdrawn
        closings := ledger.closings + ledger.subtransaction.closes op })
  else none

end Ledger

namespace Subtransaction

variable {t next : Subtransaction}

theorem signal_done_toNat (t : Subtransaction) :
    t.signal.done.toNat = t.done.toNat + t.mustSignalVoters.toNat := by
  unfold signal
  cases must : t.mustSignalVoters with
  | false => rfl
  | true =>
    have running : t.done = false := by
      unfold mustSignalVoters at must
      cases done : t.done with
      | false => rfl
      | true => simp [done] at must
    rw [running]
    rfl

variable {order : List Vote}

theorem settleVoters_done (settled : t.settleVoters order = .ok next) : next.done = t.done := by
  unfold settleVoters at settled
  dsimp only at settled
  split at settled
  · cases settled
    rfl
  split at settled
  · cases settled
    rfl
  split at settled
  · cases settled
  cases settled
  rfl

theorem settle_done_toNat (settled : t.settle order = .ok next) :
    next.done.toNat = t.done.toNat + t.signals order := by
  rw [settle_eq] at settled
  unfold signals
  cases voters : t.settleVoters order with
  | error err =>
    rw [voters] at settled
    cases settled
  | ok before =>
    rw [voters] at settled
    cases settled
    rw [signal_done_toNat, settleVoters_done voters]

/-- Settling fails for nobody: a threshold is reached by a vote only. -/
theorem settle_total (positive : 0 < t.threshold.toNat) (order : List Vote) :
    ∃ next, t.settle order = .ok next := by
  have best := t.majority_best order
  unfold settle
  dsimp only
  split
  · exact ⟨_, rfl⟩
  split
  · exact ⟨_, rfl⟩
  rename_i enough
  have present : (t.majority order).1 ≠ none := by
    intro absent
    rw [Best, absent] at best
    have zero : (t.majority order).2 = 0 := best
    rw [zero, UInt64.lt_iff_toNat_lt] at enough
    exact enough positive
  rw [if_neg (fun both => present both.1)]
  exact ⟨_, rfl⟩

theorem signals_of_error {err : TransactionError} (failed : t.settle order = .error err) :
    t.signals order = 0 := by
  rw [settle_eq] at failed
  unfold signals
  cases voters : t.settleVoters order with
  | error err => rfl
  | ok before =>
    rw [voters] at failed
    cases failed

variable {voter : Voter}

theorem updateVoterState_decided (decided : voter.result ≠ .undecided) (vote : Option Vote)
    (order : List Vote) :
    ∃ err, t.updateVoterState voter vote order = .error err := by
  unfold updateVoterState
  cases result : voter.result with
  | undecided => exact absurd result decided
  | committed | failed | canceled | stopped => exact ⟨_, rfl⟩

theorem updateVoterState_cast (undecided : voter.result = .undecided) (fresh : voter.vote = none)
    (vote : Vote) (order : List Vote) :
    t.updateVoterState voter (some vote) order =
      (t.castVote voter.name voter.votes vote).settle order := by
  simp only [updateVoterState, undecided, fresh]

theorem updateVoterState_withdraw {vote : Vote} (undecided : voter.result = .undecided)
    (current : voter.vote = some vote) (order : List Vote) :
    t.updateVoterState voter none order =
      if t.done then .error .alreadyFinished
      else (t.withdrawVote voter.name voter.votes vote).settle order := by
  simp only [updateVoterState, undecided, current]

theorem updateVoterState_unvoted (fresh : voter.vote = none) (order : List Vote) :
    ∃ err, t.updateVoterState voter none order = .error err := by
  by_cases undecided : voter.result = .undecided
  · unfold updateVoterState
    simp only [undecided, fresh]
    split <;> exact ⟨_, rfl⟩
  · exact updateVoterState_decided undecided none order

variable {node : String}

theorem closes_vote (found : t.votersByNode.find node = some voter) (vote : Vote)
    (order : List Vote) :
    t.closes (.vote node vote order) =
      if voter.vote = none ∧ voter.result = .undecided then
        (t.castVote voter.name voter.votes vote).signals order
      else 0 := by
  simp only [closes, found]

theorem closes_withdraw {vote : Vote} (found : t.votersByNode.find node = some voter)
    (current : voter.vote = some vote) (order : List Vote) :
    t.closes (.withdraw node order) =
      if voter.result = .undecided ∧ t.done = false then
        (t.withdrawVote voter.name voter.votes vote).signals order
      else 0 := by
  simp only [closes, found, current]

/-- A vote is refused, and then changes nothing, or cast. -/
theorem vote_cases {vote : Vote} (run : t.apply (.vote node vote order) = some next) :
    next = t ∧ t.closes (.vote node vote order) = 0 ∧ t.reply (.vote node vote order) ≠ none ∨
      ∃ voter ∈ t.votersByNode, voter.name = node ∧ voter.result = .undecided ∧
        voter.vote = none ∧
        order.Perm (t.castVote voter.name voter.votes vote).voteCounts.keys ∧
        (t.castVote voter.name voter.votes vote).settle order = .ok next ∧
        t.closes (.vote node vote order) =
          (t.castVote voter.name voter.votes vote).signals order := by
  simp only [apply, ite_none_right_eq_some, some.injEq] at run
  obtain ⟨visits, rfl⟩ := run
  have replied : t.reply (.vote node vote order) = (t.vote node vote order).2 := rfl
  rw [replied]
  revert visits
  unfold Subtransaction.vote
  cases found : t.votersByNode.find node with
  | none => exact fun _ => .inl ⟨rfl, by simp only [closes, found], some_ne_none _⟩
  | some voter =>
    obtain ⟨member, named⟩ := KeyedTable.find_eq_some.mp found
    rw [closes_vote found]
    dsimp only
    by_cases fresh : voter.vote = none
    · rw [if_neg (not_not.mpr fresh)]
      by_cases undecided : voter.result = .undecided
      · rw [if_pos ⟨fresh, undecided⟩, updateVoterState_cast undecided fresh]
        cases settled : (t.castVote voter.name voter.votes vote).settle order with
        | error err =>
          exact fun _ => .inl ⟨rfl, signals_of_error settled, some_ne_none _⟩
        | ok after =>
          intro visits
          exact .inr ⟨voter, member, named, undecided, fresh,
            settle_visits settled (visits rfl), settled, rfl⟩
      · obtain ⟨err, refused⟩ := updateVoterState_decided (t := t) undecided (some vote) order
        rw [if_neg (fun both => undecided both.2), refused]
        exact fun _ => .inl ⟨rfl, rfl, some_ne_none _⟩
    · rw [if_pos fresh, if_neg (fun both => fresh both.1)]
      exact fun _ => .inl ⟨rfl, rfl, some_ne_none _⟩

theorem collectVotes_withdrawing (found : t.votersByNode.find node = some voter)
    (order : List Vote) :
    t.collectVotes true node order =
      match t.updateVoterState voter none order with
      | .error err => (t, some (.cancelVote err))
      | .ok next => (next, some .contextDone) := by
  cases updated : t.updateVoterState voter none order <;>
    simp only [collectVotes, found, updated, ↓reduceIte]

/-- A withdrawal is refused, and then changes nothing, or takes a vote back. -/
theorem withdraw_cases (run : t.apply (.withdraw node order) = some next) :
    next = t ∧ t.closes (.withdraw node order) = 0 ∧
        t.reply (.withdraw node order) ≠ some .contextDone ∨
      ∃ voter ∈ t.votersByNode, ∃ vote, voter.name = node ∧ voter.result = .undecided ∧
        voter.vote = some vote ∧ t.done = false ∧
        order.Perm (t.withdrawVote voter.name voter.votes vote).voteCounts.keys ∧
        (t.withdrawVote voter.name voter.votes vote).settle order = .ok next ∧
        t.closes (.withdraw node order) =
          (t.withdrawVote voter.name voter.votes vote).signals order ∧
        t.reply (.withdraw node order) = some .contextDone := by
  simp only [apply, ite_none_right_eq_some, some.injEq] at run
  obtain ⟨visits, rfl⟩ := run
  have replied : t.reply (.withdraw node order) = (t.collectVotes true node order).2 := rfl
  rw [replied]
  revert visits
  cases found : t.votersByNode.find node with
  | none =>
    have absent : t.collectVotes true node order = (t, some (.invalidNode node)) := by
      simp only [collectVotes, found]
    rw [absent]
    exact fun _ => .inl ⟨rfl, by simp only [closes, found], by simp⟩
  | some voter =>
    obtain ⟨member, named⟩ := KeyedTable.find_eq_some.mp found
    rw [collectVotes_withdrawing found]
    cases current : voter.vote with
    | none =>
      obtain ⟨err, refused⟩ := updateVoterState_unvoted (t := t) current order
      rw [refused]
      exact fun _ => .inl ⟨rfl, by simp only [closes, found, current], by simp⟩
    | some vote =>
      rw [closes_withdraw found current]
      by_cases undecided : voter.result = .undecided
      · rw [updateVoterState_withdraw undecided current]
        cases running : t.done with
        | true => exact fun _ => .inl ⟨rfl, by simp, by simp⟩
        | false =>
          simp only [undecided, and_self, ↓reduceIte, Bool.false_eq_true]
          cases settled : (t.withdrawVote voter.name voter.votes vote).settle order with
          | error err => exact fun _ => .inl ⟨rfl, signals_of_error settled, by simp⟩
          | ok after =>
            intro visits
            exact .inr ⟨voter, member, vote, named, undecided, current, trivial,
              settle_visits settled (visits rfl), settled, rfl, rfl⟩
      · obtain ⟨err, refused⟩ := updateVoterState_decided (t := t) undecided none order
        rw [refused]
        exact fun _ => .inl ⟨rfl, if_neg (fun both => undecided both.1), by simp⟩

theorem stop_done (order : List String) :
    (t.stop order).1.done = (t.done || decide ((t.stop order).2 = none)) := by
  unfold stop
  split
  all_goals simp

/-- What a call adds to the closings is what it changes of `done`. -/
theorem apply_done {op : Op} (run : t.apply op = some next) :
    next.done.toNat = t.done.toNat + t.closes op := by
  cases op with
  | vote node vote order =>
    rcases vote_cases run with ⟨same, none, -⟩ | ⟨voter, -, -, -, -, -, settled, closed⟩
    · rw [same, none, Nat.add_zero]
    · rw [settle_done_toNat settled, closed, castVote_done]
  | withdraw node order =>
    rcases withdraw_cases run with
      ⟨same, none, -⟩ | ⟨voter, -, vote, -, -, -, -, -, settled, closed, -⟩
    · rw [same, none, Nat.add_zero]
    · rw [settle_done_toNat settled, closed, withdrawVote_done]
  | cancel =>
    obtain rfl := some.inj run
    change true.toNat = t.done.toNat + (!t.done).toNat
    cases t.done <;> rfl
  | stop order =>
    simp only [apply, ite_none_right_eq_some, some.injEq] at run
    obtain ⟨-, rfl⟩ := run
    rw [stop_done, closes]
    split
    · rename_i finished
      rw [finished]
      cases t.done <;> rfl
    · rename_i failed
      rw [decide_eq_false failed, Bool.or_false, Nat.add_zero]

section standing

variable {withdrawn : List String}

theorem standing_decides {change : Voter → Voter} {keep : ∀ voter, (change voter).name = voter.name}
    (decides : Voter.Decides change)
    (voters : next.votersByNode = t.votersByNode.update change keep) (vote : Vote) :
    next.standing withdrawn vote = t.standing withdrawn vote := by
  unfold standing
  rw [voters, KeyedTable.update_rows]
  apply weight_map_same _ _ _ decides.weight
  intro voter _
  rw [decides.vote, keep]

theorem standing_castVote {voter : Voter} (member : voter ∈ t.votersByNode)
    (fresh : voter.vote = none) (remains : voter.name ∉ withdrawn) (vote other : Vote) :
    (t.castVote voter.name voter.votes vote).standing withdrawn other =
      t.standing withdrawn other + if other = vote then voter.weight else 0 := by
  apply castVote_weight member vote
  · simp only [fresh, reduceCtorEq, false_and, not_false_eq_true]
  · simp only [Voter.withVote, some.injEq, eq_comm, remains, not_false_eq_true, and_true]

theorem standing_withdrawVote {voter : Voter} (member : voter ∈ t.votersByNode) {vote : Vote}
    (current : voter.vote = some vote) (remains : voter.name ∉ withdrawn) (other : Vote) :
    t.standing withdrawn other =
      (t.withdrawVote voter.name voter.votes vote).standing (voter.name :: withdrawn) other +
        if other = vote then voter.weight else 0 := by
  have same :
      (t.withdrawVote voter.name voter.votes vote).standing (voter.name :: withdrawn) other =
        t.standing (voter.name :: withdrawn) other := by
    unfold standing
    rw [withdrawVote_rows]
    exact weight_changeAt_same (Voter.weight_withResult _) t.votersByNode.unique member Iff.rfl
  rw [same]
  split
  · rename_i isVote
    apply weight_add_row Voter.name _ _ _ _ t.votersByNode.unique voter member
    · exact ⟨by rw [current, isVote], remains⟩
    · exact fun counted => counted.2 List.mem_cons_self
    · intro different _ named
      simp only [List.mem_cons, named, false_or]
  · rename_i isOther
    apply weight_congr
    intro another present
    refine and_congr_right (fun cast => ?_)
    rw [List.mem_cons, not_or]
    refine ⟨fun outside => ⟨fun named => isOther ?_, outside⟩, And.right⟩
    rw [KeyedTable.eq_of_key present member named, current] at cast
    exact (some.inj cast).symm

end standing

end Subtransaction

namespace Ledger

/-- The steps of a ledger. Only a withdrawal that is not refused is recorded as one. -/
inductive Takes (ledger : Ledger) : Op → Ledger → Prop where
  | refused (op : Op) (closings : Nat) : Takes ledger op { ledger with closings := closings }
  | moves (op : Op) (next : Subtransaction) (closings : Nat)
      (moves : Moves ledger.subtransaction op next)
      (stays : ∀ node order, op ≠ .withdraw node order) :
      Takes ledger op { ledger with subtransaction := next, closings := closings }
  | withdraw (voter : Voter) (vote : Vote) (order : List Vote) (next : Subtransaction)
      (closings : Nat) (member : voter ∈ ledger.subtransaction.votersByNode)
      (undecided : voter.result = .undecided) (current : voter.vote = some vote)
      (running : ledger.subtransaction.done = false)
      (visits : order.Perm
        (ledger.subtransaction.withdrawVote voter.name voter.votes vote).voteCounts.keys)
      (settled : (ledger.subtransaction.withdrawVote voter.name voter.votes vote).settle order =
        .ok next) :
      Takes ledger (.withdraw voter.name order) ⟨next, voter.name :: ledger.withdrawn, closings⟩

variable {ledger after : Ledger} {op : Op}

theorem step_eq_some :
    ledger.step op = some after ↔ ledger.subtransaction.Allows op ∧
      ∃ next, ledger.subtransaction.apply op = some next ∧
        ⟨next, ledger.withdrawing op ++ ledger.withdrawn,
          ledger.closings + ledger.subtransaction.closes op⟩ = after := by
  unfold step
  split
  · rename_i allowed
    rw [map_eq_some_iff]
    exact (and_iff_right allowed).symm
  · rename_i refused
    exact ⟨fun none => (by cases none), fun both => absurd both.1 refused⟩

theorem step_apply (taken : ledger.step op = some after) :
    ledger.subtransaction.apply op = some after.subtransaction := by
  obtain ⟨-, next, run, rfl⟩ := step_eq_some.mp taken
  exact run

theorem step_closings (taken : ledger.step op = some after) :
    after.closings = ledger.closings + ledger.subtransaction.closes op := by
  obtain ⟨-, next, run, rfl⟩ := step_eq_some.mp taken
  rfl

theorem step_takes (taken : ledger.step op = some after) : Takes ledger op after := by
  obtain ⟨-, next, run, rfl⟩ := step_eq_some.mp taken
  cases op with
  | vote node vote order =>
    exact .moves _ next _ (apply_moves run) (fun _ _ => Op.noConfusion)
  | cancel => exact .moves _ next _ (apply_moves run) (fun _ _ => Op.noConfusion)
  | stop order =>
    exact .moves _ next _ (apply_moves run) (fun _ _ => Op.noConfusion)
  | withdraw node order =>
    rcases withdraw_cases run with ⟨same, -, refused⟩ |
      ⟨voter, member, vote, named, undecided, current, running, visits, settled, -, replied⟩
    · rw [same, withdrawing, if_neg refused]
      exact .refused _ _
    subst named
    rw [withdrawing, if_pos replied]
    exact .withdraw voter vote order next _ member undecided current running visits settled

end Ledger

end Gitaly.Transactions
