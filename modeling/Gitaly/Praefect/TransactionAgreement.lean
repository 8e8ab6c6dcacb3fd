import Gitaly.Praefect.TransactionRuns

/- Agreement and quorums in every subtransaction of a transaction whose votes a
machine word can count. -/
namespace Gitaly.Transactions

open Runs Subtransaction World

def Transaction.roster (t : Transaction) : List (String × UInt64) :=
  t.voters.map (fun voter => (voter.name, voter.votes))

namespace World

structure Counted (world : World) : Prop where
  distinct : world.transaction.Distinct
  quorums : world.transaction.Quorums
  inv : ∀ subtransaction ∈ world.transaction.subtransactions, subtransaction.Inv
  threshold : ∀ subtransaction ∈ world.transaction.subtransactions,
    subtransaction.threshold = world.transaction.threshold
  roster : ∀ subtransaction ∈ world.transaction.subtransactions,
    subtransaction.roster = world.transaction.roster

theorem newSubtransaction_roster {t : Transaction} (distinct : t.Distinct) :
    (newSubtransaction (t.voters.map Member.voter) t.threshold).roster = t.roster := by
  unfold Subtransaction.roster Transaction.roster
  rw [newSubtransaction_rows _ _ (voters_distinct distinct), List.map_map]
  rfl

theorem newSubtransaction_counted {t : Transaction} (distinct : t.Distinct) (quorums : t.Quorums) :
    (newSubtransaction (t.voters.map Member.voter) t.threshold).Inv :=
  newSubtransaction_inv (voters_distinct distinct) (voters_fresh _)
    (by rw [weight_voters]; exact quorums.bounded) (by rw [weight_voters]; exact quorums.majority)

theorem Takes.counted {world after : World} {event : Event} (takes : Takes world event after)
    (counted : world.Counted) : after.Counted := by
  have changes := takes.changes
  have voters := changes.voters
  have threshold := changes.threshold
  have distinct := counted.distinct
  refine ⟨?_, ?_, ?_, ?_, ?_⟩
  · unfold Transaction.Distinct
    rw [voters]
    exact distinct
  · exact ⟨voters ▸ counted.quorums.bounded, voters ▸ threshold ▸ counted.quorums.reachable,
      voters ▸ threshold ▸ counted.quorums.majority⟩
  · exact changes.forall counted.inv (newSubtransaction_counted distinct counted.quorums)
      (fun _ _ _ _ _ run _ inv => inv.apply run)
  · rw [threshold]
    exact changes.forall counted.threshold rfl (fun _ _ _ _ _ run _ same =>
      (apply_evolves run).threshold.trans same)
  · unfold Transaction.roster
    rw [voters]
    exact changes.forall counted.roster (newSubtransaction_roster distinct)
      (fun _ _ _ _ _ run _ same => (apply_evolves run).roster.trans same)

end World

section accepted

variable {id threshold : UInt64} {voters : List Member} {t : Transaction} {world : World}
  (accepted : newTransaction id voters threshold = .ok t) (fits : votesOf voters < 2 ^ 64)

include accepted fits

theorem newTransaction_counted : t.world.Counted := by
  obtain ⟨same, distinct, quorums⟩ := newTransaction_ok accepted
  have none : ∀ sub, sub ∉ t.subtransactions := by
    intro sub member
    rw [same] at member
    cases member
  exact ⟨distinct, quorums fits, fun _ member => absurd member (none _),
    fun _ member => absurd member (none _), fun _ member => absurd member (none _)⟩

theorem World.counted_of_reaches (reached : Reaches World.step t.world world) : world.Counted :=
  reached.invariant World.Counted
    (fun _ _ _ counted taken => (step_takes taken).counted counted)
    (newTransaction_counted accepted fits)

/-- Agreement: no state that a transaction can get into has a subtransaction with two
committed voters whose votes differ. -/
theorem transaction_agreement (reached : Reaches World.step t.world world) :
    ∀ subtransaction ∈ world.transaction.subtransactions,
      ∀ first ∈ subtransaction.votersByNode, ∀ second ∈ subtransaction.votersByNode,
        first.result = .committed → second.result = .committed → first.vote = second.vote := by
  intro subtransaction member first left second right firstCommitted secondCommitted
  have inv := (counted_of_reaches accepted fits reached).inv subtransaction member
  exact inv.agreement left right firstCommitted secondCommitted

end accepted

theorem transaction_agreement_trio :
    votesOf trio.voters < 2 ^ 64 ∧
      ∀ subtransaction ∈ ((exec World.step trio.world trioRun).get
          (by decide)).transaction.subtransactions,
        ∀ first ∈ subtransaction.votersByNode, ∀ second ∈ subtransaction.votersByNode,
          first.result = .committed → second.result = .committed → first.vote = second.vote :=
  ⟨by decide, transaction_agreement trio_accepted (by decide) (Reaches.of_exec (by decide))⟩

/-- The order in which a step visits voters to stop them. -/
def Event.stopOrder : Event → Option (List String)
  | .stopNext order => some order
  | _ => none

namespace World

/-- The subtransaction that a `stop` is about to visit. -/
def stoppingAt (world : World) : Option Subtransaction :=
  match world.lock with
  | .stopping index => world.transaction.subtransactions[index]?
  | _ => none

/-- A `stop` that a subtransaction is going to block is so before it visits a voter with a
pending vote. -/
def StopsNoVote (world : World) (event : Event) : Prop :=
  ∀ order ∈ event.stopOrder, ∀ subtransaction ∈ world.stoppingAt,
    subtransaction.StopsNoVote (.stop order)

instance (world : World) (event : Event) : Decidable (world.StopsNoVote event) :=
  inferInstanceAs (Decidable (∀ order ∈ event.stopOrder, ∀ subtransaction ∈ world.stoppingAt,
    subtransaction.StopsNoVote (.stop order)))

/-- The invariant behind quorums among the committed. -/
structure Quorate (world : World) : Prop extends Counted world where
  quorate : ∀ subtransaction ∈ world.transaction.subtransactions, subtransaction.Quorate

theorem Takes.quorate {world after : World} {event : Event} (takes : Takes world event after)
    (quorate : world.Quorate) (whole : world.StopsNoVote event) : after.Quorate := by
  have distinct := quorate.distinct
  refine ⟨takes.counted quorate.toCounted, ?_⟩
  have kept := takes.changes.forall
    (P := fun sub => sub.Inv ∧ sub.Quorate)
    (fun sub member =>
      ⟨quorate.inv sub member, quorate.quorate sub member⟩)
    ⟨newSubtransaction_counted distinct quorate.quorums,
      newSubtransaction_quorate (voters_distinct distinct) (voters_fresh _)⟩
  refine fun sub member => (kept ?_ sub member).2
  intro index sub next op found run stops both
  refine ⟨both.1.apply run, (apply_moves run).quorate both.1 both.2 ?_⟩
  cases op with
  | vote | withdraw | cancel => trivial
  | stop order =>
    obtain ⟨same, held⟩ := stops order rfl
    subst same
    apply whole order rfl sub
    rw [stoppingAt, held]
    exact found

end World

/-- In every run in which each `stop` is blocked before it visits a voter with a pending
vote, or not at all, the committed voters of a subtransaction carry a quorum among
themselves. -/
theorem committed_quorum {id threshold : UInt64} {voters : List Member} {t : Transaction}
    {world : World} {events : List Event} (accepted : newTransaction id voters threshold = .ok t)
    (fits : votesOf voters < 2 ^ 64)
    (whole : Along World.step World.StopsNoVote t.world events)
    (run : exec World.step t.world events = some world) :
    ∀ subtransaction ∈ world.transaction.subtransactions,
      (∃ voter ∈ subtransaction.votersByNode, voter.result = .committed) →
        threshold.toNat ≤ subtransaction.committedVotes := by
  obtain ⟨created, -, -⟩ := newTransaction_ok accepted
  have start : t.world.Quorate := by
    refine ⟨newTransaction_counted accepted fits, ?_⟩
    intro subtransaction member
    rw [created] at member
    cases member
  have quorate := whole.invariant World.Quorate
    (fun _ _ _ quorate whole taken => (step_takes taken).quorate quorate whole) start run
  have unchanged : world.transaction.threshold = threshold := by
    rw [(electorate_of_reaches ⟨events, run⟩).2, created]
    rfl
  intro subtransaction member committed
  rw [← unchanged, ← quorate.threshold subtransaction member]
  exact (quorate.quorate subtransaction member).quorum committed

/-- Node `b` takes its vote back, `a` votes and waits, and `stop` fails at `b`; where
that leaves `a` depends on the order of the visits. Then `c` votes. -/
def stoppedRun (order : List String) : List Event :=
  [.vote "b" 7, .getOrCreateSubtransaction, .cast 0 [7], .withdraw 0 [7],
    .vote "a" 7, .getOrCreateSubtransaction, .cast 1 [7], .stop, .stopNext order,
    .vote "c" 7, .getOrCreateSubtransaction, .cast 2 [7]]

theorem committed_quorum_trio :
    Along World.step World.StopsNoVote trio.world (stoppedRun ["b", "a", "c"]) ∧
      ∀ subtransaction ∈ ((exec World.step trio.world (stoppedRun ["b", "a", "c"])).get
          (by decide)).transaction.subtransactions,
        (∃ voter ∈ subtransaction.votersByNode, voter.result = .committed) →
          (2 : UInt64).toNat ≤ subtransaction.committedVotes :=
  ⟨by decide, committed_quorum trio_accepted (by decide) (by decide) (Option.some_get _).symm⟩

/-- A state in which `c` has committed alone, with the vote of `a` that was stopped. -/
def halfStopped : Subtransaction where
  done := true
  threshold := 2
  votersByNode := ⟨[⟨"a", 1, some 7, .stopped⟩, ⟨"b", 1, some 7, .canceled⟩,
    ⟨"c", 1, some 7, .committed⟩], by decide⟩
  voteCounts := ⟨[(7, 2)], by decide⟩

/-- A `stop` that visits `a` before it fails at `b` leaves the vote of `a` counted. -/
theorem halfStop_breaks_quorum :
    newTransaction 1 trio.voters 2 = .ok trio ∧
      (exec World.step trio.world (stoppedRun ["a", "b", "c"])).map
        (fun world => world.transaction.subtransactions) = some [halfStopped] ∧
      (∃ voter ∈ halfStopped.votersByNode.rows, voter.result = .committed) ∧
      halfStopped.committedVotes < (2 : UInt64).toNat :=
  ⟨rfl, by decide, by decide, by decide⟩

end Gitaly.Transactions
