import Gitaly.Praefect.SubtransactionBallot

/- What each call can do to a subtransaction, said once. The invariants in the
modules that follow are by cases on `Moves` and do not unfold the model again. -/
namespace Gitaly.Transactions

open KeyedTable Voter List

namespace Subtransaction

section

variable (t : Subtransaction)

@[simp] theorem signal_votersByNode : t.signal.votersByNode = t.votersByNode := by
  unfold signal
  split <;> rfl

@[simp] theorem signal_voteCounts : t.signal.voteCounts = t.voteCounts := by
  unfold signal
  split <;> rfl

@[simp] theorem signal_threshold : t.signal.threshold = t.threshold := by
  unfold signal
  split <;> rfl

theorem exists_count_iff (positive : 0 < t.threshold.toNat) :
    (∃ entry ∈ t.voteCounts.rows, t.threshold ≤ entry.2) ↔
      ∃ vote, t.threshold.toNat ≤ (t.count vote).toNat := by
  constructor
  · intro present
    obtain ⟨entry, member, reached⟩ := present
    refine ⟨entry.1, ?_⟩
    rw [count, find_key member]
    exact UInt64.le_iff_toNat_le.mp reached
  · intro present
    obtain ⟨vote, reached⟩ := present
    rw [count] at reached
    cases found : t.voteCounts.find vote with
    | none =>
      rw [found] at reached
      have zero : t.threshold.toNat ≤ 0 := reached
      omega
    | some entry =>
      rw [found] at reached
      exact ⟨entry, (find_eq_some.mp found).1, UInt64.le_iff_toNat_le.mpr reached⟩

/-- Voters are signalled when a vote has its quorum, or when nobody is undecided. -/
theorem signal_done (positive : 0 < t.threshold.toNat) :
    t.signal.done = true ↔ t.done = true ∨ (∃ vote, t.threshold.toNat ≤ (t.count vote).toNat) ∨
      ∀ voter ∈ t.votersByNode, voter.result ≠ .undecided := by
  rw [← exists_count_iff t positive]
  unfold signal mustSignalVoters
  by_cases done : t.done = true
  · simp only [done, ↓reduceIte, Bool.false_eq_true, true_or]
  by_cases reached : ∃ entry ∈ t.voteCounts.rows, t.threshold ≤ entry.2
  · have some : t.voteCounts.rows.any (fun entry => t.threshold ≤ entry.2) = true := by
      simpa only [any_eq_true, decide_eq_true_eq] using reached
    simp only [done, some, reached, Bool.false_eq_true, ↓reduceIte, true_or, or_true]
  · have none : ¬ t.voteCounts.rows.any (fun entry => t.threshold ≤ entry.2) = true := by
      simpa only [any_eq_true, decide_eq_true_eq] using reached
    by_cases waiting : t.votersByNode.rows.any (fun voter => voter.result = .undecided) = true
    · simp only [done, none, waiting, reached, Bool.false_eq_true, ↓reduceIte, false_or,
        false_iff]
      intro settled
      obtain ⟨voter, member, undecided⟩ := any_eq_true.mp waiting
      exact settled voter member (of_decide_eq_true undecided)
    · simp only [done, none, waiting, Bool.false_eq_true, ↓reduceIte, true_iff]
      right
      right
      intro voter member undecided
      exact waiting (any_eq_true.mpr ⟨voter, member, decide_eq_true undecided⟩)

/-- The outcomes of `settle`, in natural numbers: a quorum is still possible, it
is out of reach, or a vote has it. -/
inductive Settles (t : Subtransaction) : Subtransaction → Prop where
  | waiting (best : Nat) (attained : best = 0 ∨ ∃ vote, (t.count vote).toNat = best)
      (short : ∀ vote, (t.count vote).toNat < t.threshold.toNat)
      (possible : t.threshold.toNat ≤ best + t.outstanding) : Settles t t.signal
  | hopeless (lost : ∀ vote, (t.count vote).toNat + t.outstanding < t.threshold.toNat) :
      Settles t (t.updateVoters fail fail_name).signal
  | decided (vote : Vote) (quorum : t.threshold.toNat ≤ (t.count vote).toNat) :
      Settles t
        (t.updateVoters (decideBy (some vote)) (decideBy_name (some vote))).signal

/-- Settling never fails on a threshold that was accepted, and its outcome does not
depend on the order in which the counts are visited beyond these cases. -/
theorem settle_settles (sound : t.Sound) (accounted : t.Accounted) (order : List Vote)
    (visits : order.Perm t.voteCounts.keys) :
    ∃ next, t.settle order = .ok next ∧ Settles t next := by
  obtain ⟨best, maximal⟩ := t.majority_spec order visits
  have outstandingIs := t.outstandingVotes_toNat sound.bounded
  unfold settle
  generalize t.majority order = found at best maximal
  obtain ⟨majorityVote, majorityVoteCount⟩ := found
  dsimp only at best maximal ⊢
  have attained : majorityVoteCount.toNat = 0 ∨
      ∃ vote, (t.count vote).toNat = majorityVoteCount.toNat := by
    cases majorityVote with
    | none =>
      have zero : majorityVoteCount = 0 := best
      exact .inl (by rw [zero]; rfl)
    | some vote =>
      have same : majorityVoteCount = t.count vote := best.1
      exact .inr ⟨vote, by rw [same]⟩
  have room : majorityVoteCount.toNat + t.outstanding < 2 ^ 64 := by
    have bounded := sound.bounded
    rcases attained with zero | ⟨vote, same⟩
    · have small : t.outstanding ≤ t.total := Weights.weight_mono _ _ _ _ (fun _ _ _ => trivial)
      omega
    · have small := accounted.count_add_outstanding_le vote
      omega
  have sum : (majorityVoteCount + t.outstandingVotes).toNat =
      majorityVoteCount.toNat + t.outstanding := by
    rw [UInt64.toNat_add, outstandingIs]
    omega
  simp only [UInt64.lt_iff_toNat_lt, UInt64.le_iff_toNat_le, sum]
  by_cases short : majorityVoteCount.toNat < t.threshold.toNat
  · by_cases possible : t.threshold.toNat ≤ majorityVoteCount.toNat + t.outstanding
    · refine ⟨t.signal, by simp only [short, possible, and_self, ↓reduceIte], ?_⟩
      exact .waiting majorityVoteCount.toNat attained
        (fun vote => Nat.lt_of_le_of_lt (maximal vote) short) possible
    · refine ⟨_, by simp only [short, possible, and_false, ↓reduceIte], .hopeless ?_⟩
      intro vote
      have below := maximal vote
      omega
  · cases majorityVote with
    | none =>
      have zero : majorityVoteCount = 0 := best
      have positive := sound.threshold_pos
      rw [zero] at short
      exact absurd positive short
    | some vote =>
      have same : majorityVoteCount = t.count vote := best.1
      refine ⟨_, by simp only [short, false_and, reduceCtorEq, ↓reduceIte], .decided vote ?_⟩
      rw [← same]
      omega

end

end Subtransaction

namespace Voter

/-- The voters at which `stop` gives up. -/
def Blocked (voter : Voter) : Prop := voter.result = .canceled ∨ voter.result = .stopped

instance (voter : Voter) : Decidable voter.Blocked :=
  inferInstanceAs (Decidable (voter.result = .canceled ∨ voter.result = .stopped))

variable (visited : List String)

def stopIn (voter : Voter) : Voter :=
  if voter.result = .undecided ∧ voter.name ∈ visited then voter.withResult .stopped else voter

@[simp] theorem stopIn_name (voter : Voter) : (voter.stopIn visited).name = voter.name := by
  unfold stopIn
  split <;> rfl

theorem stopIn_nil (voter : Voter) : voter.stopIn [] = voter := by
  simp only [stopIn, not_mem_nil, and_false, ↓reduceIte]

theorem stopIn_cons_of_not (node : String) (visited : List String) (voter : Voter)
    (skip : ¬ (voter.result = .undecided ∧ voter.name = node)) :
    voter.stopIn (node :: visited) = voter.stopIn visited := by
  unfold stopIn
  have same : (voter.result = .undecided ∧ voter.name ∈ node :: visited) ↔
      (voter.result = .undecided ∧ voter.name ∈ visited) := by
    rw [mem_cons]
    constructor
    · intro both
      rcases both.2 with named | later
      · exact absurd ⟨both.1, named⟩ skip
      · exact ⟨both.1, later⟩
    · intro both
      exact ⟨both.1, .inr both.2⟩
  simp only [same]

theorem stopIn_cons_of_undecided (node : String) (visited : List String) (voter : Voter)
    (undecided : voter.result = .undecided) (named : voter.name = node) :
    voter.stopIn (node :: visited) = voter.withResult .stopped := by
  simp only [stopIn, undecided, named, mem_cons_self, and_self, ↓reduceIte]

theorem stopIn_of_settled (voter : Voter)
    (settled : voter.result ≠ .undecided) : voter.stopIn visited = voter := by
  simp only [stopIn, settled, false_and, ↓reduceIte]

theorem stopIn_visited (voter : Voter) (inside : voter.name ∈ visited) :
    (voter.stopIn visited).result ≠ .undecided := by
  unfold stopIn
  split
  · simp only [withResult, ne_eq, reduceCtorEq, not_false_eq_true]
  · rename_i skipped
    exact fun undecided => skipped ⟨undecided, inside⟩

end Voter

namespace Subtransaction

/-- The loop of `stop` either runs to its end, or returns at the first voter that
is blocked, having stopped the undecided voters before it. -/
inductive StopOutcome (voters : KeyedTable Voter String name) :
    List String → KeyedTable Voter String name × Option TransactionError → Prop where
  | finished (order : List String)
      (free : ∀ voter ∈ voters, voter.name ∈ order → ¬ voter.Blocked) :
      StopOutcome voters order
        (voters.update (stopIn order) (stopIn_name order), none)
  | blocked (visited : List String) (voter : Voter) (rest : List String) (err : TransactionError)
      (member : voter ∈ voters) (blocked : voter.Blocked)
      (free : ∀ voter ∈ voters, voter.name ∈ visited → ¬ voter.Blocked) :
      StopOutcome voters (visited ++ voter.name :: rest)
        (voters.update (stopIn visited) (stopIn_name visited), some err)

variable {voters : KeyedTable Voter String name} {voter : Voter}

theorem StopOutcome.immediate (member : voter ∈ voters) (blocked : voter.Blocked)
    (rest : List String) (err : TransactionError) :
    StopOutcome voters (voter.name :: rest) (voters, some err) := by
  have outcome : StopOutcome voters ([] ++ voter.name :: rest) _ :=
    .blocked [] voter rest err member blocked (fun _ _ absent => absurd absent not_mem_nil)
  rw [update_id _ _ _ (fun voter _ => voter.stopIn_nil)] at outcome
  exact outcome

variable {result : KeyedTable Voter String name × Option TransactionError} {rest : List String}

theorem StopOutcome.cons {voters later : KeyedTable Voter String name} {node : String}
    (outcome : StopOutcome later rest result) (once : node ∉ rest)
    (composed : ∀ visited, later.update (stopIn visited) (stopIn_name visited) =
      voters.update (stopIn (node :: visited)) (stopIn_name (node :: visited)))
    (others : ∀ voter, voter.name ≠ node → (voter ∈ later ↔ voter ∈ voters))
    (headFree : ∀ voter ∈ voters, voter.name = node → ¬ voter.Blocked) :
    StopOutcome voters (node :: rest) result := by
  have extend : ∀ names, (∀ voter ∈ later, voter.name ∈ names → ¬ voter.Blocked) →
      ∀ voter ∈ voters, voter.name ∈ node :: names → ¬ voter.Blocked := by
    intro names free voter member named
    by_cases isHead : voter.name = node
    · exact headFree voter member isHead
    · exact free voter ((others voter isHead).mpr member)
        ((mem_cons.mp named).resolve_left isHead)
  cases outcome with
  | finished _ free =>
    rw [composed]
    exact .finished (node :: rest) (extend rest free)
  | blocked visited voter rest err member blocked free =>
    rw [composed]
    have isLater : voter.name ≠ node := by
      intro equal
      apply once
      rw [← equal]
      exact mem_append_right visited mem_cons_self
    exact .blocked (node :: visited) voter rest err ((others voter isLater).mp member) blocked
      (extend visited free)

theorem StopOutcome.pass {node : String}
    (outcome : StopOutcome voters rest result) (once : node ∉ rest)
    (settled : ∀ voter ∈ voters, voter.name = node → voter.result ≠ .undecided ∧ ¬ voter.Blocked) :
    StopOutcome voters (node :: rest) result := by
  refine outcome.cons once ?_ (fun _ _ => Iff.rfl)
    (fun voter member named => (settled voter member named).2)
  intro visited
  apply update_congr
  intro voter member
  exact (stopIn_cons_of_not node visited voter
    (fun both => (settled voter member both.2).1 both.1)).symm

theorem StopOutcome.halt (member : voter ∈ voters) (undecided : voter.result = .undecided)
    (outcome : StopOutcome (voters.modify voter.name (withResult .stopped)
      (withResult_name .stopped)) rest result) (once : voter.name ∉ rest) :
    StopOutcome voters (voter.name :: rest) result := by
  have only : ∀ other ∈ voters, other.name = voter.name → other = voter :=
    fun other present same => eq_of_key present member same
  refine outcome.cons once ?_
    (fun other isLater => mem_modify_of_ne voters _ _ isLater) ?_
  · intro visited
    rw [update_modify]
    apply update_congr
    intro other present
    by_cases isHead : other.name = voter.name
    · rw [changeAt_eq _ isHead, only other present isHead,
        stopIn_cons_of_undecided voter.name visited voter undecided rfl]
      exact stopIn_of_settled visited _ (by simp [withResult])
    · rw [changeAt_ne _ isHead,
        stopIn_cons_of_not voter.name visited other (fun both => isHead both.2)]
  · intro other present same
    simp [only other present same, Blocked, undecided]

theorem stopVoters_outcome (voters : KeyedTable Voter String name) (order : List String)
    (once : order.Nodup) : StopOutcome voters order (stopVoters voters order) := by
  induction order generalizing voters with
  | nil =>
    have outcome : StopOutcome voters [] _ :=
      .finished [] (fun _ _ absent => absurd absent not_mem_nil)
    rw [update_id _ _ _ (fun voter _ => voter.stopIn_nil)] at outcome
    exact outcome
  | cons node rest ih =>
    obtain ⟨notLater, restOnce⟩ := nodup_cons.mp once
    cases found : voters.find node with
    | none =>
      simp only [stopVoters, found, Option.map_none]
      refine (ih voters restOnce).pass notLater ?_
      intro voter member named
      exact absurd (mem_keys.mpr ⟨voter, member, named⟩)
        (find_eq_none.mp found)
    | some voter =>
      obtain ⟨member, named⟩ := find_eq_some.mp found
      subst node
      have only : ∀ other ∈ voters, other.name = voter.name → other = voter :=
        fun other present same => eq_of_key present member same
      simp only [stopVoters, found, Option.map_some]
      cases result : voter.result with
      | canceled => exact .immediate member (.inl result) rest .transactionCanceled
      | stopped => exact .immediate member (.inr result) rest .transactionStopped
      | committed =>
        refine (ih voters restOnce).pass notLater ?_
        intro other present same
        simp [only other present same, Blocked, result]
      | failed =>
        refine (ih voters restOnce).pass notLater ?_
        intro other present same
        simp [only other present same, Blocked, result]
      | undecided => exact .halt member result (ih _ restOnce) notLater

def Settled (t : Subtransaction) : Prop := ∀ voter ∈ t.votersByNode, voter.result ≠ .undecided

/-- Every way in which a call changes a subtransaction, with the guards under which
it does. A call that is refused changes nothing. -/
inductive Moves (t : Subtransaction) : Op → Subtransaction → Prop where
  | refused (op : Op) : Moves t op t
  | cast (voter : Voter) (vote : Vote) (order : List Vote) (next : Subtransaction)
      (member : voter ∈ t.votersByNode) (undecided : voter.result = .undecided)
      (fresh : voter.vote = none)
      (visits : order.Perm (t.castVote voter.name voter.votes vote).voteCounts.keys)
      (settled : (t.castVote voter.name voter.votes vote).settle order = .ok next) :
      Moves t (.vote voter.name vote order) next
  | withdraw (voter : Voter) (vote : Vote) (order : List Vote) (next : Subtransaction)
      (member : voter ∈ t.votersByNode) (undecided : voter.result = .undecided)
      (current : voter.vote = some vote) (running : t.done = false)
      (visits : order.Perm (t.withdrawVote voter.name voter.votes vote).voteCounts.keys)
      (settled : (t.withdrawVote voter.name voter.votes vote).settle order = .ok next) :
      Moves t (.withdraw voter.name order) next
  | cancel : Moves t .cancel t.cancel
  | stop (order : List String) (visits : order.Perm t.votersByNode.keys)
      (free : ∀ voter ∈ t.votersByNode, ¬ voter.Blocked) :
      Moves t (.stop order) { t with
        votersByNode := t.votersByNode.update (stopIn order) (stopIn_name order)
        done := true }
  | halfStop (visited : List String) (voter : Voter) (rest : List String)
      (visits : (visited ++ voter.name :: rest).Perm t.votersByNode.keys)
      (member : voter ∈ t.votersByNode) (blocked : voter.Blocked)
      (free : ∀ voter ∈ t.votersByNode, voter.name ∈ visited → ¬ voter.Blocked) :
      Moves t (.stop (visited ++ voter.name :: rest)) { t with
        votersByNode := t.votersByNode.update (stopIn visited) (stopIn_name visited) }

variable {t next : Subtransaction} {order : List Vote}

theorem settle_ok (settled : t.settle order = .ok next) :
    next = t.signal ∨ next = (t.updateVoters fail fail_name).signal ∨
      ∃ majorityVote, next = (t.updateVoters (decideBy majorityVote)
        (decideBy_name majorityVote)).signal := by
  unfold settle at settled
  dsimp only at settled
  split at settled
  · cases settled
    exact .inl rfl
  split at settled
  · cases settled
    exact .inr (.inl rfl)
  split at settled
  · cases settled
  cases settled
  exact .inr (.inr ⟨_, rfl⟩)

theorem settle_voteCounts
    (settled : t.settle order = .ok next) : next.voteCounts = t.voteCounts := by
  rcases settle_ok settled with same | same | ⟨majorityVote, same⟩
  · rw [same, signal_voteCounts]
  all_goals
    rw [same, signal_voteCounts]
    rfl

/-- An update that succeeds casts a first vote or withdraws one, and settles. -/
theorem updateVoterState_ok {vote : Option Vote}
    (updated : t.updateVoterState voter vote order = .ok next) :
    voter.result = .undecided ∧
      match vote with
      | some vote => voter.vote = none ∧
          (t.castVote voter.name voter.votes vote).settle order = .ok next
      | none => t.done = false ∧ ∃ current, voter.vote = some current ∧
          (t.withdrawVote voter.name voter.votes current).settle order = .ok next := by
  unfold updateVoterState at updated
  cases result : voter.result with
  | canceled | stopped | committed | failed => simp [result] at updated
  | undecided =>
    refine ⟨rfl, ?_⟩
    cases vote with
    | some vote =>
      cases current : voter.vote with
      | some other => simp [result, current] at updated
      | none =>
        simp only [result, current] at updated
        exact ⟨rfl, updated⟩
    | none =>
      cases running : t.done with
      | true => simp [result, running] at updated
      | false =>
        cases current : voter.vote with
        | none => simp [result, running, current] at updated
        | some other =>
          simp only [result, running, current, Bool.false_eq_true, ↓reduceIte] at updated
          exact ⟨rfl, other, rfl, updated⟩

section moves

theorem settles_of_settle (sound : t.Sound) (accounted : t.Accounted)
    (visits : order.Perm t.voteCounts.keys) (settled : t.settle order = .ok next) :
    Settles t next := by
  obtain ⟨other, same, settles⟩ := t.settle_settles sound accounted order visits
  rw [settled] at same
  cases same
  exact settles

theorem settle_visits (settled : t.settle order = .ok next)
    (visits : order.isPerm next.voteCounts.keys) : order.Perm t.voteCounts.keys := by
  rw [settle_voteCounts settled] at visits
  exact isPerm_iff.mp visits

theorem vote_moves {node : String} {vote : Vote}
    (run : t.apply (.vote node vote order) = some next) :
    Moves t (.vote node vote order) next := by
  simp only [apply] at run
  obtain ⟨visits, run⟩ := Option.ite_none_right_eq_some.mp run
  cases run
  revert visits
  unfold Subtransaction.vote
  cases found : t.votersByNode.find node with
  | none => exact fun _ => .refused _
  | some voter =>
    obtain ⟨member, named⟩ := find_eq_some.mp found
    subst node
    by_cases fresh : voter.vote = none
    · simp only [fresh, ne_eq, not_true_eq_false, ↓reduceIte]
      cases updated : t.updateVoterState voter (some vote) order with
      | error err => exact fun _ => .refused _
      | ok after =>
        intro visits
        obtain ⟨undecided, -, settled⟩ := updateVoterState_ok updated
        exact .cast voter vote order after member undecided fresh
          (settle_visits settled (visits rfl)) settled
    · simp only [fresh, ne_eq, not_false_eq_true, ↓reduceIte]
      exact fun _ => .refused _

theorem withdraw_moves {node : String}
    (run : t.apply (.withdraw node order) = some next) : Moves t (.withdraw node order) next := by
  simp only [apply] at run
  obtain ⟨visits, run⟩ := Option.ite_none_right_eq_some.mp run
  cases run
  revert visits
  unfold collectVotes
  cases found : t.votersByNode.find node with
  | none => exact fun _ => .refused _
  | some voter =>
    obtain ⟨member, named⟩ := find_eq_some.mp found
    subst node
    simp only [↓reduceIte]
    cases updated : t.updateVoterState voter none order with
    | error err => exact fun _ => .refused _
    | ok after =>
      intro visits
      obtain ⟨undecided, running, current, cast, settled⟩ := updateVoterState_ok updated
      exact .withdraw voter current order after member undecided cast running
        (settle_visits settled (visits rfl)) settled

section

variable (order : List String) (visits : order.Perm t.votersByNode.keys)
include visits

theorem settled_of_stopIn
    (voters : next.votersByNode = t.votersByNode.update (stopIn order) (stopIn_name order)) :
    next.Settled := by
  intro voter member
  rw [voters] at member
  obtain ⟨old, present, same⟩ := (mem_update _ _ (stopIn_name order)).mp member
  rw [← same]
  exact stopIn_visited order old (visits.mem_iff.mpr (key_mem_keys present))

/-- A `stop` ends the subtransaction, or gives up at the first voter that is blocked. -/
theorem stop_cases :
    (t.stop order = ({ t with
        votersByNode := t.votersByNode.update (stopIn order) (stopIn_name order)
        done := true }, none) ∧ ∀ voter ∈ t.votersByNode, ¬ voter.Blocked) ∨
      ∃ visited voter rest err, order = visited ++ voter.name :: rest ∧
        voter ∈ t.votersByNode ∧ voter.Blocked ∧
        (∀ voter ∈ t.votersByNode, voter.name ∈ visited → ¬ voter.Blocked) ∧
        t.stop order = ({ t with
          votersByNode := t.votersByNode.update (stopIn visited) (stopIn_name visited) },
          some err) := by
  have once : order.Nodup := visits.nodup_iff.mpr t.votersByNode.unique
  have outcome := stopVoters_outcome t.votersByNode order once
  generalize loop : stopVoters t.votersByNode order = result at outcome
  cases outcome with
  | finished _ free =>
    refine .inl ⟨by rw [Subtransaction.stop, loop], fun voter member => ?_⟩
    exact free voter member (visits.mem_iff.mpr (key_mem_keys member))
  | blocked visited voter rest err member blocked free =>
    exact .inr ⟨visited, voter, rest, err, rfl, member, blocked, free,
      by rw [Subtransaction.stop, loop]⟩

theorem stop_moves :
    Moves t (.stop order) (t.stop order).1 ∧
      ((t.stop order).2 = none → (t.stop order).1.Settled) := by
  rcases stop_cases order visits with
    ⟨returned, free⟩ | ⟨visited, voter, rest, err, rfl, member, blocked, free, returned⟩
  · rw [returned]
    exact ⟨.stop order visits free, fun _ => settled_of_stopIn order visits rfl⟩
  rw [returned]
  exact ⟨.halfStop visited voter rest visits member blocked free,
    fun failed => absurd failed (Option.some_ne_none err)⟩

end

theorem apply_moves {op : Op} (run : t.apply op = some next) : Moves t op next := by
  cases op with
  | vote node vote order => exact vote_moves run
  | withdraw node order => exact withdraw_moves run
  | cancel =>
    cases run
    exact .cancel
  | stop order =>
    simp only [apply] at run
    split at run
    · rename_i visits
      cases run
      exact (stop_moves order (isPerm_iff.mp visits)).1
    · cases run

end moves

end Subtransaction

end Gitaly.Transactions
