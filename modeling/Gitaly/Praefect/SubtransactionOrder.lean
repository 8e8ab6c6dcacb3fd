import Gitaly.Praefect.SubtransactionSignal

/- The outcome of a subtransaction in which everybody votes. Voters are decided one call at
a time, early where a quorum is reached or out of reach; in the end the votes alone decide. -/
namespace Gitaly.Transactions

open Runs Weights Subtransaction KeyedTable List

variable (assign : String → Vote)

/-- The votes of the members that cast `vote`. -/
def supportOf (voters : List Member) (vote : Vote) : Nat :=
  weight (fun voter => voter.votes.toNat) (fun voter => assign voter.name = vote) voters

/-- What the votes of everybody decide for a node. -/
def outcome (voters : List Member) (threshold : UInt64) (node : String) : VoteResult :=
  if threshold.toNat ≤ supportOf assign voters (assign node) then .committed else .failed

/-- The vote that a call casts. -/
def Subtransaction.Op.ballot : Op → Option (String × Vote)
  | .vote node choice _ => some (node, choice)
  | _ => none

/-- The calls of the members in their order, each with the vote assigned to it. In what order
a call visits the map of vote counts is open. -/
def Ballots (members : List Member) (ops : List Op) : Prop :=
  ops.map Op.ballot = members.map (fun m => some (m.name, assign m.name))

theorem ballots_cons {assign : String → Vote} {m : Member} {members : List Member} {ops : List Op} :
    Ballots assign (m :: members) ops ↔
      ∃ order rest, ops = .vote m.name (assign m.name) order :: rest ∧
        Ballots assign members rest := by
  constructor
  · intro ballots
    cases ops with
    | nil => cases ballots
    | cons op rest =>
      obtain ⟨same, later⟩ := List.cons.inj ballots
      cases op with
      | vote node vote order =>
        cases same
        exact ⟨order, rest, rfl, later⟩
      | withdraw => cases same
      | cancel => cases same
      | stop => cases same
  · rintro ⟨order, rest, rfl, later⟩
    exact cons_eq_cons.mpr ⟨rfl, later⟩

namespace Voter

theorem fail_of_unvoted {voter : Voter} (absent : voter.vote = none) : voter.fail = voter :=
  if_neg (fun pending => pending.2 absent)

theorem decideBy_of_unvoted {voter : Voter} (majorityVote : Option Vote)
    (absent : voter.vote = none) : voter.decideBy majorityVote = voter :=
  if_neg (fun pending => pending.2 absent)

end Voter

namespace Subtransaction

variable {t next : Subtransaction}

/-- Settling leaves those alone that have not voted. -/
theorem Settles.unvoted (settles : Settles t next) {voter : Voter}
    (member : voter ∈ next.votersByNode) (absent : voter.vote = none) :
    voter ∈ t.votersByNode := by
  cases settles with
  | waiting =>
    rw [signal_votersByNode] at member
    exact member
  | hopeless lost =>
    rw [signal_votersByNode] at member
    obtain ⟨old, present, rfl⟩ := (mem_update _ _ Voter.fail_name).mp member
    rw [Voter.fail_decides.vote] at absent
    rw [Voter.fail_of_unvoted absent]
    exact present
  | decided vote quorum =>
    rw [signal_votersByNode] at member
    obtain ⟨old, present, rfl⟩ := (mem_update _ _ (Voter.decideBy_name _)).mp member
    rw [(Voter.decideBy_decides _).vote] at absent
    rw [Voter.decideBy_of_unvoted _ absent]
    exact present

/-- Once everybody has voted, everybody is decided and woken. -/
theorem Settles.complete (settles : Settles t next) (positive : 0 < t.threshold.toNat)
    (voted : ∀ voter ∈ t.votersByNode, voter.vote ≠ none) : next.Settled ∧ next.done = true := by
  cases settles with
  | waiting best attained short possible =>
    have none : t.outstanding = 0 := weight_eq_zero _ _ _ voted
    rcases attained with zero | ⟨vote, reached⟩
    · omega
    · have below := short vote
      omega
  | hopeless lost =>
    have settled : (t.updateVoters Voter.fail Voter.fail_name).Settled := by
      intro voter member undecided
      obtain ⟨old, present, rfl⟩ := (mem_update _ _ Voter.fail_name).mp member
      exact voted old present (Voter.fail_undecided.mp undecided).2
    refine ⟨?_, (signal_done (t.updateVoters _ _) positive).mpr (.inr (.inr settled))⟩
    unfold Settled
    rw [signal_votersByNode]
    exact settled
  | decided vote quorum =>
    refine ⟨fun voter member undecided => ?_,
      (signal_done (t.updateVoters _ _) positive).mpr (.inr (.inl ⟨vote, quorum⟩))⟩
    rw [signal_votersByNode] at member
    obtain ⟨old, present, rfl⟩ := (mem_update _ _ (Voter.decideBy_name _)).mp member
    have pending : old.Pending :=
      ⟨(Voter.decideBy_decides _).undecided undecided, voted old present⟩
    rw [Voter.decideBy, if_pos pending] at undecided
    split at undecided <;> cases undecided

/-- The state after the nodes in `seen` have voted and nothing else has happened. -/
structure Voting (assign : String → Vote) (seen : List String) (t : Subtransaction) : Prop where
  inv : t.Inv
  quorate : t.Quorate
  ballots : ∀ voter ∈ t.votersByNode,
    voter.vote = if voter.name ∈ seen then some (assign voter.name) else none
  fresh : ∀ voter ∈ t.votersByNode, voter.vote = none → voter.result = .undecided
  running : ∀ voter ∈ t.votersByNode, voter.result ≠ .canceled ∧ voter.result ≠ .stopped
  complete : (∀ voter ∈ t.votersByNode, voter.vote ≠ none) → t.Settled ∧ t.done = true

section voting

variable {assign : String → Vote} {seen : List String}

section

variable {voter : Voter} (voting : t.Voting assign seen) (member : voter ∈ t.votersByNode)
  (unseen : voter.name ∉ seen)
include voting member unseen

/-- Who has not voted can, whatever has been decided by then. -/
theorem Voting.accepts : voter.vote = none ∧ voter.result = .undecided := by
  have absent : voter.vote = none := by rw [voting.ballots voter member, if_neg unseen]
  exact ⟨absent, voting.fresh voter member absent⟩

theorem Voting.vote {order : List Vote}
    (run : t.apply (.vote voter.name (assign voter.name) order) = some next) :
    next.Voting assign (voter.name :: seen) := by
  obtain ⟨fresh, undecided⟩ := voting.accepts member unseen
  have base := voting.inv
  rcases vote_cases run with
    ⟨-, -, refused⟩ | ⟨caster, present, named, -, -, visits, settled, -⟩
  · obtain ⟨after, -, accepted⟩ :=
      vote_accepted base.sound.threshold_pos member undecided fresh (assign voter.name) order
    exact absurd (congrArg Prod.snd accepted) refused
  obtain rfl := eq_of_key present member named
  have sound := castVote_sound member (assign caster.name) base.sound
  have settles := settles_of_settle sound
    (castVote_accounted member fresh _ base.sound base.accounted undecided) visits settled
  have cast : ∀ other ∈ (t.castVote caster.name caster.votes (assign caster.name)).votersByNode,
      other.vote = if other.name ∈ caster.name :: seen then some (assign other.name) else none := by
    intro other inside
    rcases (mem_castVote member _).mp inside with rfl | ⟨old, different⟩
    · exact (if_pos mem_cons_self).symm
    · rw [voting.ballots other old]
      simp only [mem_cons, different, false_or]
  obtain ⟨change, keep, settledBy, voters, -, -⟩ := settles.settledBy
  refine ⟨base.apply run, (apply_moves run).quorate base voting.quorate trivial, ?_, ?_, ?_, ?_⟩
  · intro other inside
    obtain ⟨old, before, rfl⟩ := voter_before voters inside
    rw [settledBy.decides.vote, keep]
    exact cast old before
  · intro other inside absent
    have before := settles.unvoted inside absent
    rcases (mem_castVote member _).mp before with rfl | ⟨old, -⟩
    · cases absent
    · exact voting.fresh other old absent
  · intro other inside
    obtain ⟨old, before, rfl⟩ := voter_before voters inside
    have running : old.result ≠ .canceled ∧ old.result ≠ .stopped := by
      rcases (mem_castVote member _).mp before with rfl | ⟨old, -⟩
      · exact voting.running caster member
      · exact voting.running _ old
    exact ⟨fun canceled => running.1 (settledBy.result_of_ne (by decide) (by decide) canceled),
      fun stopped => running.2 (settledBy.result_of_ne (by decide) (by decide) stopped)⟩
  · intro voted
    refine settles.complete sound.threshold_pos (fun other before => ?_)
    have after : change other ∈ next.votersByNode := by
      rw [voters]
      exact change_mem_update _ _ keep before
    rw [← settledBy.decides.vote]
    exact voted _ after

/-- A node that has not voted meets an order of the map in which it can. -/
theorem Voting.exists_vote :
    ∃ order next, t.apply (.vote voter.name (assign voter.name) order) = some next := by
  obtain ⟨fresh, undecided⟩ := voting.accepts member unseen
  let order := (t.castVote voter.name voter.votes (assign voter.name)).voteCounts.keys
  obtain ⟨next, settled, voted⟩ := vote_accepted voting.inv.sound.threshold_pos member undecided
    fresh (assign voter.name) order
  refine ⟨order, next, ?_⟩
  simp only [apply, voted]
  refine if_pos (fun _ => isPerm_iff.mpr ?_)
  rw [settle_voteCounts settled]

end

/-- Whatever is visited in whatever order, the votes that were cast decide in the end. -/
theorem Voting.result (voting : t.Voting assign seen)
    (everyone : ∀ voter ∈ t.votersByNode, voter.name ∈ seen) {voter : Voter}
    (member : voter ∈ t.votersByNode) :
    voter.result =
      if t.threshold.toNat ≤ t.support (assign voter.name) then .committed else .failed := by
  have inv := voting.inv
  have cast : voter.vote = some (assign voter.name) := by
    rw [voting.ballots voter member, if_pos (everyone voter member)]
  have live : ∀ vote, t.liveSupport vote = t.support vote := fun vote =>
    weight_congr _ _ _ _ (fun other present => and_iff_left (voting.running other present).1)
  have counted : ∀ vote, (t.count vote).toNat = t.support vote := fun vote =>
    Nat.le_antisymm (inv.accounted.upper vote) (live vote ▸ inv.accounted.lower vote)
  have decided : voter.result ≠ .undecided := by
    refine (voting.complete (fun other present => ?_)).1 voter member
    rw [voting.ballots other present, if_pos (everyone other present)]
    exact Option.some_ne_none _
  cases result : voter.result with
  | undecided => exact absurd result decided
  | canceled => exact absurd result (voting.running voter member).1
  | stopped => exact absurd result (voting.running voter member).2
  | committed =>
    obtain ⟨vote, isVote, quorum⟩ := inv.backed voter member result
    obtain rfl := Option.some.inj (isVote.symm.trans cast)
    rw [if_pos (counted _ ▸ quorum)]
  | failed =>
    rw [if_neg]
    intro quorum
    rw [← counted] at quorum
    rcases voting.quorate.failed voter member result with lost | ⟨other, different, reached⟩
    · have below := lost (assign voter.name)
      omega
    · exact different (by rw [cast, inv.accounted.quorum_unique inv.sound quorum reached])

end voting

/-- The members that are still to vote. -/
structure Awaits (t : Subtransaction) (members : List Member) (seen : List String) : Prop where
  distinct : (members.map Member.name).Nodup
  unseen : ∀ m ∈ members, m.name ∉ seen
  present : ∀ m ∈ members, m.name ∈ t.roster.map Prod.fst

section awaits

variable {assign : String → Vote} {seen : List String} {m : Member} {members : List Member}

theorem Awaits.head (awaits : t.Awaits (m :: members) seen) :
    ∃ voter ∈ t.votersByNode, voter.name = m.name ∧ voter.name ∉ seen := by
  have present := awaits.present m mem_cons_self
  rw [roster, map_map] at present
  obtain ⟨voter, member, named⟩ := mem_map.mp present
  have named : voter.name = m.name := named
  exact ⟨voter, member, named, named ▸ awaits.unseen m mem_cons_self⟩

theorem Awaits.tail (awaits : t.Awaits (m :: members) seen) (same : next.roster = t.roster) :
    next.Awaits members (m.name :: seen) := by
  obtain ⟨fresh, distinct⟩ := nodup_cons.mp awaits.distinct
  refine ⟨distinct, ?_, ?_⟩
  · intro other inside seen
    rcases mem_cons.mp seen with named | before
    · exact fresh (named ▸ mem_map_of_mem inside)
    · exact awaits.unseen other (mem_cons_of_mem _ inside) before
  · intro other inside
    rw [same]
    exact awaits.present other (mem_cons_of_mem _ inside)

theorem Voting.run {final : Subtransaction} {ops : List Op} (voting : t.Voting assign seen)
    (awaits : t.Awaits members seen) (ballots : Ballots assign members ops)
    (run : exec apply t ops = some final) :
    ∃ voted, final.Voting assign voted ∧ (∀ m ∈ members, m.name ∈ voted) ∧
      (∀ node ∈ seen, node ∈ voted) ∧ final.roster = t.roster ∧
      final.threshold = t.threshold := by
  induction members generalizing t seen ops with
  | nil =>
    obtain rfl : ops = [] := map_eq_nil_iff.mp ballots
    cases run
    exact ⟨seen, voting, fun _ inside => absurd inside not_mem_nil, fun _ => id, rfl, rfl⟩
  | cons m members ih =>
    obtain ⟨order, rest, rfl, later⟩ := ballots_cons.mp ballots
    obtain ⟨next, taken, remaining⟩ := (exec_cons apply t final _ rest).mp run
    obtain ⟨voter, member, named, unseen⟩ := awaits.head
    have evolves := apply_evolves taken
    rw [← named] at taken
    have after := voting.vote member unseen taken
    rw [named] at after
    obtain ⟨voted, ends, all, kept, roster, threshold⟩ :=
      ih after (awaits.tail evolves.roster) later remaining
    refine ⟨voted, ends, ?_, fun node inside => kept node (mem_cons_of_mem _ inside),
      roster.trans evolves.roster, threshold.trans evolves.threshold⟩
    intro other inside
    rcases mem_cons.mp inside with rfl | inside
    · exact kept _ mem_cons_self
    · exact all other inside

theorem Voting.exists_run (voting : t.Voting assign seen) (awaits : t.Awaits members seen) :
    ∃ ops final, Ballots assign members ops ∧ exec apply t ops = some final := by
  induction members generalizing t seen with
  | nil => exact ⟨[], t, rfl, rfl⟩
  | cons m members ih =>
    obtain ⟨voter, member, named, unseen⟩ := awaits.head
    obtain ⟨order, next, taken⟩ := voting.exists_vote member unseen
    have after := voting.vote member unseen taken
    rw [named] at taken after
    obtain ⟨ops, final, ballots, run⟩ := ih after (awaits.tail (apply_evolves taken).roster)
    exact ⟨_, final, ballots_cons.mpr ⟨order, ops, rfl, ballots⟩,
      (exec_cons apply t final _ ops).mpr ⟨next, taken, run⟩⟩

end awaits

theorem support_eq {assign : String → Vote} {voters : List Member}
    (roster : t.roster = voters.map (fun m => (m.name, m.votes)))
    (voted : ∀ voter ∈ t.votersByNode, voter.vote = some (assign voter.name)) (vote : Vote) :
    t.support vote = supportOf assign voters vote := by
  have assigned : t.support vote =
      weight Voter.weight (fun voter => assign voter.name = vote) t.votersByNode.rows := by
    refine weight_congr _ _ _ _ (fun voter member => ?_)
    rw [voted voter member, Option.some.injEq]
  have summed : weight Voter.weight (fun voter => assign voter.name = vote) t.votersByNode.rows =
      (t.roster.map (fun entry => if assign entry.1 = vote then entry.2.toNat else 0)).sum := by
    simp only [weight, Subtransaction.roster, map_map, Function.comp_def, Voter.weight]
  rw [assigned, summed, roster]
  simp only [supportOf, weight, map_map, Function.comp_def]

end Subtransaction

section everybody

variable {voters : List Member} {threshold : UInt64} (distinct : (voters.map Member.name).Nodup)
  (fits : votesOf voters < 2 ^ 64)
  (valid : threshold.toNat ≤ votesOf voters ∧ votesOf voters < 2 * threshold.toNat)

include distinct fits valid

theorem newSubtransaction_voting (assign : String → Vote) :
    (newSubtransaction (voters.map Member.voter) threshold).Voting assign [] := by
  have distinct := voters_distinct (t := ⟨0, threshold, voters, .transactionOpen, []⟩) distinct
  have fresh := voters_fresh voters
  have members : ∀ voter ∈ (newSubtransaction (voters.map Member.voter) threshold).votersByNode,
      voter.vote = none ∧ voter.result = .undecided := fun voter member =>
    fresh voter (newSubtransaction_voter distinct member)
  have total := weight_voters voters
  refine ⟨newSubtransaction_inv distinct fresh (total ▸ fits) (total ▸ valid.2),
    newSubtransaction_quorate distinct fresh, ?_, ?_, ?_, ?_⟩
  · exact fun voter member => (members voter member).1
  · exact fun voter member _ => (members voter member).2
  · intro voter member
    rw [(members voter member).2]
    exact ⟨VoteResult.noConfusion, VoteResult.noConfusion⟩
  · intro voted
    cases voters with
    | nil =>
      have empty : votesOf [] = 0 := rfl
      omega
    | cons first rest =>
      have present : first.voter ∈
          (newSubtransaction ((first :: rest).map Member.voter) threshold).votersByNode := by
        rw [mem_iff, newSubtransaction_rows _ _ distinct]
        exact mem_cons_self
      exact absurd (members _ present).1 (voted _ present)

/-- When everybody votes, in whatever order, exactly those commit whose vote has the threshold
among all votes. -/
theorem outcome_of_ballots (assign : String → Vote) {members : List Member}
    (everyone : members.Perm voters) :
    (∃ ops final, Ballots assign members ops ∧
      exec apply (newSubtransaction (voters.map Member.voter) threshold) ops = some final) ∧
    ∀ ops final, Ballots assign members ops →
      exec apply (newSubtransaction (voters.map Member.voter) threshold) ops = some final →
      final.done = true ∧ (∀ voter ∈ final.votersByNode, voter.vote = some (assign voter.name)) ∧
        final.state = voters.map (fun m => (m.name, outcome assign voters threshold m.name)) := by
  have start := newSubtransaction_voting distinct fits valid assign
  have roster : (newSubtransaction (voters.map Member.voter) threshold).roster =
      voters.map (fun m => (m.name, m.votes)) :=
    World.newSubtransaction_roster (t := ⟨0, threshold, voters, .transactionOpen, []⟩) distinct
  have awaits : (newSubtransaction (voters.map Member.voter) threshold).Awaits members [] := by
    refine ⟨(everyone.map Member.name).nodup_iff.mpr distinct,
      fun _ _ => not_mem_nil, fun m inside => ?_⟩
    rw [roster, map_map]
    exact mem_map.mpr ⟨m, everyone.mem_iff.mp inside, rfl⟩
  refine ⟨start.exists_run awaits, fun ops final ballots run => ?_⟩
  obtain ⟨voted, voting, all, -, same, limit⟩ := start.run awaits ballots run
  rw [roster] at same
  have names : ∀ voter ∈ final.votersByNode, voter.name ∈ voted := by
    intro voter member
    have entry : (voter.name, voter.votes) ∈ final.roster := mem_map.mpr ⟨voter, member, rfl⟩
    rw [same] at entry
    obtain ⟨m, inside, same⟩ := mem_map.mp entry
    rw [← (Prod.mk.inj same).1]
    exact all m (everyone.mem_iff.mpr inside)
  have cast : ∀ voter ∈ final.votersByNode, voter.vote = some (assign voter.name) := by
    intro voter member
    rw [voting.ballots voter member, if_pos (names voter member)]
  have complete := voting.complete (fun voter member => by
    rw [cast voter member]
    exact Option.some_ne_none _)
  refine ⟨complete.2, cast, ?_⟩
  calc final.state
      = final.roster.map (fun entry => (entry.1, outcome assign voters threshold entry.1)) := by
        unfold Subtransaction.state Subtransaction.roster
        rw [map_map]
        refine map_congr_left (fun voter member => ?_)
        rw [voting.result names member, support_eq same cast, limit]
        rfl
    _ = voters.map (fun m => (m.name, outcome assign voters threshold m.name)) := by
        rw [same, map_map]
        rfl

end everybody

/-- Nodes `a` and `b` agree, `c` does not. -/
def dissent (node : String) : Vote := if node = "c" then 9 else 7

theorem outcome_of_ballots_trio :
    (trio.voters.map Member.name).Nodup ∧ votesOf trio.voters < 2 ^ 64 ∧
      ((2 : UInt64).toNat ≤ votesOf trio.voters ∧ votesOf trio.voters < 2 * (2 : UInt64).toNat) ∧
      ∀ ops final, Ballots dissent trio.voters.reverse ops →
        exec apply (newSubtransaction (trio.voters.map Member.voter) 2) ops = some final →
        final.state = [("a", .committed), ("b", .committed), ("c", .failed)] :=
  ⟨by decide, by decide, by decide, fun ops final ballots run =>
    ((outcome_of_ballots (by decide) (by decide) (by decide) dissent
      (reverse_perm _)).2 ops final ballots run).2.2⟩

end Gitaly.Transactions
