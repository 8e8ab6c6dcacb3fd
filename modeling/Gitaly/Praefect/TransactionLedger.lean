import Gitaly.Praefect.SubtransactionBooks

/- The subtransactions of a transaction are ones that ledgers describe: whatever the calls
on the transaction do, they only withdraw votes that they have cast. -/
namespace Gitaly.Transactions

open Runs List Option

namespace Subtransaction

theorem Evolves.castKept {t next : Subtransaction} {op : Op} (evolves : Evolves t op next)
    {node : String} (cast : t.Cast node) : next.Cast node := by
  obtain ⟨voter, member, named, voted⟩ := cast
  obtain ⟨after, present, same, follows⟩ := evolves.after member
  exact ⟨after, present, same.trans named, by rw [follows.cast voted]; exact voted⟩

theorem cast_of_vote {t next : Subtransaction} {node : String} {vote : Vote} {order : List Vote}
    (run : t.apply (.vote node vote order) = some next)
    (replied : (t.vote node vote order).2 = none) : next.Cast node := by
  rcases vote_cases run with ⟨-, -, refused⟩ | ⟨voter, member, named, -, -, -, settled, -⟩
  · exact absurd replied refused
  obtain ⟨change, keep, decides, -, voters, -⟩ := settle_decides settled
  have cast := (mem_castVote member vote).mpr (.inl rfl)
  refine ⟨change (voter.withVote vote), ?_, (keep _).trans named, ?_⟩
  · rw [voters]
    exact KeyedTable.change_mem_update _ _ keep cast
  · rw [decides.vote, Voter.withVote]
    exact some_ne_none vote

end Subtransaction

namespace World

variable {world after : World} {event : Event} {index : Nat}

theorem Changes.castKept {t : Transaction} (changes : Changes world event t)
    {node : String} (cast : world.transaction.CastAt index node) : t.CastAt index node := by
  obtain ⟨sub, present, isCast⟩ := cast
  cases changes with
  | same | close => exact ⟨sub, present, isCast⟩
  | put position source next op found run casts stops =>
    unfold Transaction.CastAt
    rw [Transaction.put_getElem? found]
    split
    · rename_i here
      rw [← here, found] at present
      cases present
      exact ⟨next, rfl, (Subtransaction.apply_evolves run).castKept isCast⟩
    · exact ⟨sub, present, isCast⟩
  | create =>
    have inside := (List.getElem?_eq_some_iff.mp present).1
    refine ⟨sub, ?_, isCast⟩
    rw [Transaction.create_getElem?, if_neg (Nat.ne_of_lt inside)]
    exact present

/-- A call that waits has cast its vote. -/
def Waits (world : World) : Prop :=
  ∀ c ∈ world.calls, ∀ index, c.stage = .waiting index → world.transaction.CastAt index c.node

theorem Takes.waiting (takes : Takes world event after)
    (others : ∀ call order, event ≠ .cast call order) {c : Call}
    (member : c ∈ after.calls) (stage : c.stage = .waiting index) : c ∈ world.calls := by
  cases takes with
  | refuse | enter =>
    rcases mem_append.mp member with before | last
    · exact before
    · cases mem_singleton.mp last
      cases stage
  | take | fail | create | collect | withdraw =>
    rcases setStage_mem member with before | ⟨_, -, rfl⟩
    · exact before
    · cases stage
  | pass | cancel | cancelNext | cancelReturn | stop | stopNext | stopFail | stopReturn =>
    exact member
  | cast call position c' sub next order => exact absurd rfl (others call order)

theorem cast_waits {call : Nat} {order : List Vote}
    (run : world.step (.cast call order) = some after) (waits : world.Waits) : after.Waits := by
  have kept : ∀ {index node}, world.transaction.CastAt index node →
      after.transaction.CastAt index node := (step_takes run).changes.castKept
  obtain ⟨⟨source, position, sub⟩, located, rest⟩ := bind_eq_some_iff.mp run
  obtain ⟨next, applied, rest⟩ := bind_eq_some_iff.mp rest
  obtain ⟨calling, -, found⟩ := callAt_eq_some.mp located
  cases rest
  intro c member index stage
  rcases setStage_mem member with before | ⟨old, oldCalling, rfl⟩
  · exact kept (waits c before index stage)
  obtain rfl : source = old := Option.some.inj (calling.symm.trans oldCalling)
  split at stage
  · rename_i replied
    cases stage
    refine ⟨next, ?_, Subtransaction.cast_of_vote applied replied⟩
    exact (Transaction.put_getElem? found position).trans (if_pos rfl)
  · cases stage

theorem step_waits (run : world.step event = some after) (waits : world.Waits) : after.Waits := by
  by_cases casts : ∃ call order, event = .cast call order
  · obtain ⟨call, order, rfl⟩ := casts
    exact cast_waits run waits
  have takes := step_takes run
  intro c member index stage
  have before := takes.waiting (fun call order same => casts ⟨call, order, same⟩) member stage
  exact takes.changes.castKept (waits c before index stage)

/-- Every subtransaction is one that a ledger describes. -/
def Audited (start : Ledger) (t : Transaction) : Prop :=
  ∀ subtransaction ∈ t.subtransactions,
    ∃ ledger, Reaches Ledger.step start ledger ∧ ledger.subtransaction = subtransaction

variable {start : Ledger}

theorem Audited.put {t : Transaction} (audited : Audited start t)
    {sub next : Subtransaction} {op : Subtransaction.Op}
    (found : t.subtransactions[index]? = some sub)
    (run : sub.apply op = some next) (allowed : sub.Allows op) :
    Audited start (t.put index next) := by
  intro other member
  rcases mem_or_eq_of_mem_set member with old | rfl
  · exact audited other old
  · obtain ⟨ledger, reached, rfl⟩ := audited sub (mem_of_getElem? found)
    exact ⟨_, reached.snoc (Ledger.step_eq_some.mpr ⟨allowed, other, run, rfl⟩), rfl⟩

theorem withdraw_audited {call : Nat} {order : List Vote}
    (run : world.step (.withdraw call order) = some after) (waits : world.Waits)
    (audited : Audited start world.transaction) : Audited start after.transaction := by
  obtain ⟨⟨c, index, sub⟩, located, rest⟩ := bind_eq_some_iff.mp run
  obtain ⟨next, applied, rest⟩ := bind_eq_some_iff.mp rest
  obtain ⟨calling, positioned, found⟩ := callAt_eq_some.mp located
  cases rest
  have waiting : c.stage = .waiting index := by
    unfold waitingIndex at positioned
    split at positioned <;> simp_all
  obtain ⟨source, present, cast⟩ := waits c (mem_of_getElem? calling) index waiting
  rw [found] at present
  cases present
  exact audited.put found applied cast

theorem step_audited (run : world.step event = some after) (waits : world.Waits)
    (created : Audited start world.transaction.create)
    (audited : Audited start world.transaction) : Audited start after.transaction := by
  cases step_takes run with
  | refuse | enter | take | pass | fail | collect | cancel | cancelReturn | stop | stopReturn =>
    exact audited
  | create => exact created
  | cast call index c sub next order stage calling selected found applied leaves =>
    exact audited.put found applied trivial
  | withdraw => exact withdraw_audited run waits audited
  | cancelNext index sub held found =>
    have run : sub.apply .cancel = some sub.cancel := rfl
    exact audited.put found run trivial
  | stopNext index sub next order held found applied settled =>
    exact audited.put found applied trivial
  | stopFail index sub next order held found applied =>
    exact audited.put found applied trivial

end World

/-- In every state that a transaction can get into, each subtransaction has the state that
some ledger reaches. -/
theorem World.audited_of_reaches {id threshold : UInt64} {voters : List Member} {t : Transaction}
    {world : World} (accepted : newTransaction id voters threshold = .ok t)
    (reached : Reaches World.step t.world world) : World.Audited t.ledger world.transaction := by
  obtain ⟨same, -, -⟩ := newTransaction_ok accepted
  have start : t.world.Waits ∧ World.Audited t.ledger t.world.transaction := by
    refine ⟨fun c member => absurd member not_mem_nil, fun sub member => ?_⟩
    have none : t.subtransactions = [] := by rw [same]
    rw [Transaction.world, none] at member
    cases member
  have kept := reached.invariant (fun world => Reaches World.step t.world world ∧
    world.Waits ∧ World.Audited t.ledger world.transaction) ?_ ⟨.refl _ _, start⟩
  · exact kept.2.2
  · rintro between event after ⟨before, waits, audited⟩ run
    refine ⟨before.snoc run, World.step_waits run waits, World.step_audited run waits ?_ audited⟩
    obtain ⟨members, limit⟩ := World.electorate_of_reaches before
    intro sub member
    rcases mem_append.mp member with old | new
    · exact audited sub old
    refine ⟨t.ledger, .refl _ _, ?_⟩
    rw [mem_singleton.mp new, members, limit]
    rfl

/-- In a transaction with any number of subtransactions and calls under way, the counts of each
subtransaction are the votes that were cast and not withdrawn, and taking back a vote does not
wrap around. -/
theorem books_of_reaches {id threshold : UInt64} {voters : List Member} {t : Transaction}
    {world : World} (accepted : newTransaction id voters threshold = .ok t)
    (fits : votesOf voters < 2 ^ 64) (reached : Reaches World.step t.world world) :
    ∀ subtransaction ∈ world.transaction.subtransactions, ∃ ledger : Ledger,
      Reaches Ledger.step t.ledger ledger ∧ ledger.subtransaction = subtransaction ∧
      (∀ vote, (subtransaction.count vote).toNat =
        subtransaction.standing ledger.withdrawn vote) ∧
      ∀ voter ∈ subtransaction.votersByNode, ∀ vote, voter.result = .undecided →
        voter.vote = some vote → voter.votes ≤ subtransaction.count vote := by
  intro subtransaction member
  obtain ⟨ledger, audited, rfl⟩ := World.audited_of_reaches accepted reached subtransaction member
  have inv := ledger_inv_of_reaches accepted fits audited
  refine ⟨ledger, audited, rfl, inv.counted, ?_⟩
  intro voter present vote undecided cast
  rw [UInt64.le_iff_toNat_le, inv.counted]
  exact Weights.le_weight Voter.weight _ present ⟨cast, inv.stays present undecided⟩

theorem books_of_trioRun :
    votesOf trio.voters < 2 ^ 64 ∧
      ∀ subtransaction ∈ ((exec World.step trio.world trioRun).get
        (by decide)).transaction.subtransactions, ∃ ledger : Ledger,
        ∀ vote, (subtransaction.count vote).toNat =
          subtransaction.standing ledger.withdrawn vote :=
  ⟨by decide, fun subtransaction member => (books_of_reaches trio_accepted (by decide)
    (Reaches.of_exec (by decide)) subtransaction member).imp (fun _ counted => counted.2.2.1)⟩

end Gitaly.Transactions
