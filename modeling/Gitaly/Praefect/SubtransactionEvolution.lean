import Gitaly.Praefect.SubtransactionQuorum

/- How a subtransaction may develop from one call to the next, node by node, and
where it starts. Invariants across subtransactions rest on these facts alone. -/
namespace Gitaly.Transactions

open Weights KeyedTable Voter List

namespace Voter

/-- A settled result stays, a vote stays once it is cast, only the node that votes
casts one, and nobody commits without. -/
structure Follows (op : Subtransaction.Op) (before after : Voter) : Prop where
  votes : after.votes = before.votes
  settled : before.result ≠ .undecided → after.result = before.result
  cast : before.vote ≠ none → after.vote = before.vote
  fresh : before.vote = none → after.vote ≠ none → ∃ vote order, op = .vote before.name vote order
  commits : after.result = .committed → before.result = .committed ∨ after.vote ≠ none

/-- A change that commits only voters that have cast a vote. -/
def CommitsCast (change : Voter → Voter) : Prop :=
  ∀ voter, (change voter).result = .committed → voter.result = .committed ∨ voter.vote ≠ none

theorem Decides.follows {change : Voter → Voter} (decides : Decides change)
    (commits : CommitsCast change) (op : Subtransaction.Op) (voter : Voter) :
    Follows op voter (change voter) where
  votes := decides.votes voter
  settled decided := by rw [decides.settled voter decided]
  cast _ := decides.vote voter
  fresh absent present := absurd ((decides.vote voter).trans absent) present
  commits committed := by
    rw [decides.vote]
    exact commits voter committed

theorem Follows.refl (op : Subtransaction.Op) (voter : Voter) : Follows op voter voter :=
  decides_id.follows (fun _ => .inl) op voter

end Voter

namespace Subtransaction

structure Evolves (t : Subtransaction) (op : Op) (next : Subtransaction) : Prop where
  threshold : next.threshold = t.threshold
  voters : ∃ change keep, next.votersByNode = t.votersByNode.update change keep ∧
    ∀ voter ∈ t.votersByNode, voter.Follows op (change voter)

variable (t : Subtransaction)

theorem Evolves.refl (op : Op) : Evolves t op t :=
  ⟨rfl, id, fun _ => rfl, (update_id _ _ _ (fun _ _ => rfl)).symm,
    fun voter _ => Follows.refl op voter⟩

variable {t next : Subtransaction}

theorem settle_decides {order : List Vote} (settled : t.settle order = .ok next) :
    ∃ change keep, Decides change ∧ CommitsCast change ∧
      next.votersByNode = t.votersByNode.update change keep ∧ next.threshold = t.threshold := by
  rcases settle_ok settled with same | same | ⟨majorityVote, same⟩
  · rw [same, signal_votersByNode, signal_threshold]
    exact ⟨id, fun _ => rfl, decides_id, fun _ => .inl,
      (update_id _ id _ (fun _ _ => rfl)).symm, rfl⟩
  · rw [same, signal_votersByNode, signal_threshold]
    exact ⟨fail, fail_name, fail_decides,
      fun _ committed => .inl (fail_committed committed), rfl, rfl⟩
  · rw [same, signal_votersByNode, signal_threshold]
    refine ⟨_, decideBy_name _, decideBy_decides _, ?_, rfl, rfl⟩
    intro voter committed
    exact (decideBy_committed committed).imp_right And.right

theorem settle_evolves {t next between : Subtransaction} {op : Op} {order : List Vote}
    {voter : Voter} {first : Voter → Voter} (settled : between.settle order = .ok next)
    (member : voter ∈ t.votersByNode) (keep : ∀ other, (first other).name = other.name)
    (threshold : between.threshold = t.threshold)
    (voters : between.votersByNode = t.votersByNode.modify voter.name first keep)
    (follows : ∀ change : Voter → Voter, Decides change → CommitsCast change →
      voter.Follows op (change (first voter))) :
    Evolves t op next := by
  obtain ⟨change, keepAgain, decides, commits, later, laterThreshold⟩ := settle_decides settled
  refine ⟨laterThreshold.trans threshold, fun other => change (changeAt _ voter.name first other),
    fun other => (keepAgain _).trans (changeAt_keep keep other), ?_, ?_⟩
  · rw [later, voters, update_modify]
  · intro other present
    dsimp only
    by_cases named : other.name = voter.name
    · have same := eq_of_key present member named
      subst same
      rw [changeAt_eq first rfl]
      exact follows change decides commits
    · rw [changeAt_ne first named]
      exact decides.follows commits op other

theorem evolves_of_decides (op : Op) {change : Voter → Voter}
    (keep : ∀ voter, (change voter).name = voter.name) (decides : Decides change)
    (commits : ∀ voter, (change voter).result = .committed → voter.result = .committed)
    (threshold : next.threshold = t.threshold)
    (voters : next.votersByNode = t.votersByNode.update change keep) : Evolves t op next :=
  ⟨threshold, change, keep, voters,
    fun voter _ =>
      decides.follows (fun voter committed => .inl (commits voter committed)) op voter⟩

theorem Moves.evolves {op : Op} (moves : Moves t op next) : Evolves t op next := by
  cases moves with
  | refused => exact Evolves.refl t op
  | cast voter vote order next member undecided fresh visits settled =>
    apply settle_evolves settled member (withVote_name vote) rfl rfl
    intro change decides commits
    refine ⟨decides.votes _, fun decided => absurd undecided decided,
      fun cast => absurd fresh cast, fun _ _ => ⟨vote, order, rfl⟩, fun _ => .inr ?_⟩
    rw [decides.vote, withVote]
    exact Option.some_ne_none vote
  | withdraw voter vote order next member undecided current running visits settled =>
    apply settle_evolves settled member (withResult_name .canceled) rfl rfl
    intro change decides commits
    refine ⟨decides.votes _, fun decided => absurd undecided decided,
      fun _ => decides.vote _, fun absent => ?_, fun _ => .inr ?_⟩
    · rw [current] at absent
      cases absent
    · rw [decides.vote, withResult, current]
      exact Option.some_ne_none vote
  | cancel =>
    exact evolves_of_decides _ cancel_name cancel_decides
      (fun _ => cancel_of_ne (by decide)) rfl rfl
  | stop order visits free =>
    exact evolves_of_decides _ (stopIn_name order) (stopIn_decides order)
      (fun _ => stopIn_of_ne (by decide)) rfl rfl
  | halfStop visited voter rest visits member blocked free =>
    exact evolves_of_decides _ (stopIn_name visited) (stopIn_decides visited)
      (fun _ => stopIn_of_ne (by decide)) rfl rfl

theorem apply_evolves {op : Op} (run : t.apply op = some next) :
    Evolves t op next := (apply_moves run).evolves

/-- The node has committed. -/
def Committed (t : Subtransaction) (node : String) : Prop :=
  ∃ voter ∈ t.votersByNode, voter.name = node ∧ voter.result = .committed

instance (t : Subtransaction) (node : String) : Decidable (t.Committed node) :=
  inferInstanceAs (Decidable
    (∃ voter ∈ t.votersByNode.rows, voter.name = node ∧ voter.result = .committed))

/-- The node has cast a vote, withdrawn or not. -/
def Cast (t : Subtransaction) (node : String) : Prop :=
  ∃ voter ∈ t.votersByNode, voter.name = node ∧ voter.vote ≠ none

def roster (t : Subtransaction) : List (String × UInt64) :=
  t.votersByNode.rows.map (fun voter => (voter.name, voter.votes))

/-- Who has committed has cast a vote. -/
def CommittedCast (t : Subtransaction) : Prop := ∀ node, t.Committed node → t.Cast node

section evolves

variable {t next : Subtransaction} {op : Op} (evolves : Evolves t op next)

include evolves

theorem Evolves.after {voter : Voter} (member : voter ∈ t.votersByNode) :
    ∃ after ∈ next.votersByNode, after.name = voter.name ∧ voter.Follows op after := by
  obtain ⟨change, keep, voters, follows⟩ := evolves.voters
  rw [voters]
  exact ⟨change voter, change_mem_update _ _ keep member, keep voter, follows voter member⟩

theorem Evolves.before {after : Voter} (member : after ∈ next.votersByNode) :
    ∃ voter ∈ t.votersByNode, after.name = voter.name ∧ voter.Follows op after := by
  obtain ⟨change, keep, voters, follows⟩ := evolves.voters
  rw [voters] at member
  obtain ⟨voter, present, same⟩ := (mem_update _ _ keep).mp member
  subst same
  exact ⟨voter, present, keep voter, follows voter present⟩

theorem Evolves.committed {node : String} (committed : t.Committed node) : next.Committed node := by
  obtain ⟨voter, member, named, isCommitted⟩ := committed
  obtain ⟨after, present, same, follows⟩ := evolves.after member
  refine ⟨after, present, same.trans named, ?_⟩
  rw [follows.settled (by rw [isCommitted]; decide), isCommitted]

/-- A node newly has a vote only if the call cast it. -/
theorem Evolves.cast {node : String} (cast : next.Cast node) :
    t.Cast node ∨ ∃ vote order, op = .vote node vote order := by
  obtain ⟨after, present, named, voted⟩ := cast
  obtain ⟨voter, member, same, follows⟩ := evolves.before present
  by_cases absent : voter.vote = none
  · right
    rw [← named, same]
    exact follows.fresh absent voted
  · exact .inl ⟨voter, member, same.symm.trans named, absent⟩

theorem Evolves.committedCast (before : t.CommittedCast) : next.CommittedCast := by
  intro node committed
  obtain ⟨after, present, named, isCommitted⟩ := committed
  obtain ⟨voter, member, same, follows⟩ := evolves.before present
  refine ⟨after, present, named, ?_⟩
  rcases follows.commits isCommitted with wasCommitted | voted
  · obtain ⟨old, oldMember, oldNamed, voted⟩ :=
      before node ⟨voter, member, same ▸ named, wasCommitted⟩
    rw [eq_of_key oldMember member (oldNamed.trans (same ▸ named).symm)] at voted
    rw [follows.cast voted]
    exact voted
  · exact voted

theorem Evolves.settled (settled : t.Settled) : next.Settled := by
  intro after present undecided
  obtain ⟨voter, member, -, follows⟩ := evolves.before present
  have decided := settled voter member
  rw [follows.settled decided] at undecided
  exact decided undecided

theorem Evolves.roster : next.roster = t.roster := by
  obtain ⟨change, keep, voters, follows⟩ := evolves.voters
  unfold Subtransaction.roster
  rw [voters, update_rows, map_map]
  apply map_congr_left
  intro voter member
  simp only [Function.comp_apply, keep, (follows voter member).votes]

end evolves

theorem decides_of_settled {t : Subtransaction} (settled : t.Settled) {change : Voter → Voter}
    (keep : ∀ voter, (change voter).name = voter.name) (decides : Decides change) :
    t.votersByNode.update change keep = t.votersByNode :=
  update_id _ _ _ (fun voter member => decides.settled voter (settled voter member))

theorem Moves.frozen {op : Op} (moves : Moves t op next) (settled : t.Settled) :
    next.votersByNode = t.votersByNode := by
  cases moves with
  | refused => rfl
  | cast voter vote order next member undecided fresh visits cast =>
    exact absurd undecided (settled voter member)
  | withdraw voter vote order next member undecided current running visits withdrawn =>
    exact absurd undecided (settled voter member)
  | cancel => exact decides_of_settled settled cancel_name cancel_decides
  | stop order visits free =>
    exact decides_of_settled settled (stopIn_name order) (stopIn_decides order)
  | halfStop visited voter rest visits member blocked free =>
    exact decides_of_settled settled (stopIn_name visited) (stopIn_decides visited)

private theorem foldl_putVoter_rows (voters : List Voter) (start : KeyedTable Voter String name)
    (distinct : (start.rows ++ voters).map name |>.Nodup) :
    (voters.foldl putVoter start).rows = start.rows ++ voters := by
  induction voters generalizing start with
  | nil => simp only [foldl_nil, append_nil]
  | cons voter voters ih =>
    have fresh : voter.name ∉ start.keys := by
      intro taken
      rw [map_append, nodup_append] at distinct
      exact distinct.2.2 voter.name taken voter.name mem_cons_self rfl
    have put : (putVoter start voter).rows = start.rows ++ [voter] := by
      unfold putVoter upsert
      rw [dif_pos fresh]
      rfl
    rw [foldl_cons, ih _ (by rw [put, append_assoc]; exact distinct), put, append_assoc]
    rfl

theorem newSubtransaction_rows (voters : List Voter) (threshold : UInt64)
    (distinct : (voters.map name).Nodup) :
    (newSubtransaction voters threshold).votersByNode.rows = voters :=
  foldl_putVoter_rows voters empty distinct

section fresh

variable {voters : List Voter} {threshold : UInt64} (distinct : (voters.map name).Nodup)
  (fresh : ∀ voter ∈ voters, voter.vote = none ∧ voter.result = .undecided)

include distinct

theorem newSubtransaction_voter {voter : Voter}
    (member : voter ∈ (newSubtransaction voters threshold).votersByNode) : voter ∈ voters := by
  rw [mem_iff, newSubtransaction_rows voters threshold distinct] at member
  exact member

include fresh

theorem newSubtransaction_inv (bounded : weight weight (fun _ => True) voters < 2 ^ 64)
    (majority : weight weight (fun _ => True) voters < 2 * threshold.toNat) :
    (newSubtransaction voters threshold).Inv := by
  have total : (newSubtransaction voters threshold).total =
      weight weight (fun _ => True) voters := by
    unfold total
    rw [newSubtransaction_rows voters threshold distinct]
  have zero : ∀ vote, (newSubtransaction voters threshold).count vote = 0 := fun _ => rfl
  refine ⟨⟨by rw [total]; exact bounded, by rw [total]; exact majority⟩, ⟨?_, ?_⟩, ?_, ?_⟩
  · intro vote
    apply Nat.le_of_eq
    rw [zero, UInt64.toNat_zero]
    apply weight_eq_zero
    intro voter member live
    rw [(fresh voter (newSubtransaction_voter distinct member)).1] at live
    cases live.1
  · intro vote
    rw [zero]
    exact Nat.zero_le _
  · intro voter member committed
    rw [(fresh voter (newSubtransaction_voter distinct member)).2] at committed
    cases committed
  · intro vote quorum
    have positive : threshold.toNat ≤ 0 := quorum
    omega

theorem newSubtransaction_quorate : (newSubtransaction voters threshold).Quorate := by
  have undecided : ∀ voter ∈ (newSubtransaction voters threshold).votersByNode,
      voter.result = .undecided :=
    fun voter member => (fresh voter (newSubtransaction_voter distinct member)).2
  refine ⟨fun _ vote => Nat.zero_le _, ?_, ?_, ?_⟩
  · intro voter member failed
    rw [undecided voter member] at failed
    cases failed
  · intro voter member stopped
    rw [undecided voter member] at stopped
    cases stopped
  · intro some
    obtain ⟨voter, member, committed⟩ := some
    rw [undecided voter member] at committed
    cases committed

theorem newSubtransaction_committedCast : (newSubtransaction voters threshold).CommittedCast := by
  intro node committed
  obtain ⟨voter, member, -, isCommitted⟩ := committed
  rw [(fresh voter (newSubtransaction_voter distinct member)).2] at isCommitted
  cases isCommitted

theorem newSubtransaction_cast (node : String) :
    ¬ (newSubtransaction voters threshold).Cast node := by
  intro cast
  obtain ⟨voter, member, -, voted⟩ := cast
  exact voted (fresh voter (newSubtransaction_voter distinct member)).1

end fresh

end Subtransaction

end Gitaly.Transactions
