import Gitaly.Praefect.TransactionPositions

/- Invariants across the subtransactions of a transaction that do not depend on the
votes being counted right: a node votes on a subtransaction only after it has
committed all earlier ones, and closing leaves nobody undecided. -/
namespace Gitaly.Transactions

open Runs Subtransaction Transaction List

namespace World

/-- What a step does to the transaction. A vote on a subtransaction is cast by a call
that has selected it, a `stop` of one is the step of the call that holds the lock. -/
inductive Changes (world : World) (event : Event) : Transaction → Prop where
  | same : Changes world event world.transaction
  | put (index : Nat) (subtransaction next : Subtransaction) (op : Op)
      (found : world.transaction.subtransactions[index]? = some subtransaction)
      (run : subtransaction.apply op = some next)
      (casts : ∀ node vote order, op = .vote node vote order →
        ∃ c ∈ world.calls, c.node = node ∧ c.stage = .selected index)
      (stops : ∀ order, op = .stop order → event = .stopNext order ∧ world.lock = .stopping index) :
      Changes world event (world.transaction.put index next)
  | create (call index : Nat) (held : world.lock = .voting call index) :
      Changes world event world.transaction.create
  | close (state : TransactionState) (notOpen : state ≠ .transactionOpen) :
      Changes world event { world.transaction with state := state }

variable {world after : World} {event : Event}

theorem Takes.changes (takes : Takes world event after) :
    Changes world event after.transaction := by
  cases takes with
  | refuse | enter | take | pass | fail | collect | cancel | stop => exact .same
  | create call index held past => exact .create call index held
  | cast call index c sub next order stage calling selected found run leaves =>
    refine .put index sub next _ found run ?_ (fun _ => Op.noConfusion)
    intro node vote order same
    cases same
    exact ⟨c, mem_of_getElem? calling, rfl, selected⟩
  | withdraw call index node sub next order err found run =>
    exact .put index sub next _ found run
      (fun _ _ _ => Op.noConfusion) (fun _ => Op.noConfusion)
  | cancelNext index sub held found =>
    exact .put index sub _ .cancel found rfl
      (fun _ _ _ => Op.noConfusion) (fun _ => Op.noConfusion)
  | cancelReturn | stopReturn => exact .close _ TransactionState.noConfusion
  | stopNext index sub next order held found run settled =>
    refine .put index sub next (.stop order) found run
      (fun _ _ _ => Op.noConfusion) ?_
    intro other same
    cases same
    exact ⟨rfl, held⟩
  | stopFail index sub next order held found run =>
    refine .put index sub next (.stop order) found run
      (fun _ _ _ => Op.noConfusion) ?_
    intro other same
    cases same
    exact ⟨rfl, held⟩

section changes

variable {t : Transaction} (changes : Changes world event t)

include changes

theorem Changes.voters : t.voters = world.transaction.voters := by cases changes <;> rfl

theorem Changes.threshold : t.threshold = world.transaction.threshold := by cases changes <;> rfl

theorem Changes.forall {P : Subtransaction → Prop}
    (all : ∀ subtransaction ∈ world.transaction.subtransactions, P subtransaction)
    (created : P (newSubtransaction (world.transaction.voters.map Member.voter)
      world.transaction.threshold))
    (applied : ∀ index subtransaction next op,
      world.transaction.subtransactions[index]? = some subtransaction →
      subtransaction.apply op = some next →
      (∀ order, op = .stop order → event = .stopNext order ∧ world.lock = .stopping index) →
      P subtransaction → P next) :
    ∀ subtransaction ∈ t.subtransactions, P subtransaction := by
  cases changes with
  | same | close => exact all
  | put index subtransaction next op found run casts stops =>
    intro other member
    rcases mem_or_eq_of_mem_set member with old | new
    · exact all other old
    rw [new]
    exact applied index subtransaction next op found run stops
      (all subtransaction (mem_of_getElem? found))
  | create =>
    intro other member
    rcases mem_append.mp member with old | new
    · exact all other old
    · rw [mem_singleton.mp new]
      exact created

theorem Changes.reached {index : Nat} {node : String}
    (reached : world.transaction.Reached index node) : t.Reached index node := by
  intro before earlier
  have committed := reached before earlier
  cases changes with
  | same | close => exact committed
  | put index sub next op found run casts stops =>
    exact committed.put found (apply_evolves run)
  | create => exact committed.create

end changes

variable {c : Call}

theorem setStage_mem {call : Nat} {stage : Stage} (member : c ∈ (world.setStage call stage).calls) :
    c ∈ world.calls ∨ ∃ old, world.calls[call]? = some old ∧ c = { old with stage := stage } := by
  obtain ⟨position, present⟩ := mem_iff_getElem?.mp member
  rw [setStage, getElem?_modify] at present
  obtain ⟨old, calling, same⟩ := Option.map_eq_some_iff.mp present
  by_cases here : call = position
  · simp only [here, ↓reduceIte] at same
    exact .inr ⟨old, here ▸ calling, same.symm⟩
  · simp only [here, ↓reduceIte] at same
    exact .inl (same ▸ mem_of_getElem? calling)

theorem setStage_node {call position : Nat} {stage : Stage}
    (calling : (world.setStage call stage).calls[position]? = some c) :
    ∃ old, world.calls[position]? = some old ∧ old.node = c.node := by
  rw [setStage, getElem?_modify] at calling
  obtain ⟨old, present, same⟩ := Option.map_eq_some_iff.mp calling
  refine ⟨old, present, ?_⟩
  subst same
  split <;> rfl

/-- The signs that a node is done with everything before an index: it has voted
there, or one of its calls is there. -/
inductive Past (world : World) : Nat → String → Prop where
  | cast (index : Nat) (node : String) (cast : world.transaction.CastAt index node) :
      Past world index node
  | selected (index : Nat) (c : Call) (member : c ∈ world.calls)
      (stage : c.stage = .selected index) : Past world index c.node
  | voting (call index : Nat) (c : Call) (held : world.lock = .voting call index)
      (calling : world.calls[call]? = some c) : Past world index c.node

/-- Where a sign comes from: the node starts, it was there or further on already, or
it was one subtransaction earlier and has committed that one. -/
def Origin (world : World) (index : Nat) (node : String) : Prop :=
  index = 0 ∨ (∃ further, index ≤ further ∧ world.Past further node) ∨
    ∃ previous, index = previous + 1 ∧ world.Past previous node ∧
      world.transaction.CommittedAt previous node

variable {index : Nat} {node : String}

theorem Origin.here (past : world.Past index node) :
    world.Origin index node := .inr (.inl ⟨index, Nat.le_refl index, past⟩)

theorem Origin.reached (origin : world.Origin index node)
    (reached : ∀ index node, world.Past index node → world.transaction.Reached index node) :
    world.transaction.Reached index node := by
  intro before earlier
  rcases origin with start | ⟨further, behind, past⟩ | ⟨previous, next, past, committed⟩
  · omega
  · exact reached further node past before (by omega)
  · by_cases last : before = previous
    · exact last ▸ committed
    · exact reached previous node past before (by omega)

theorem Changes.castAt {t : Transaction} (changes : Changes world event t)
    (distinct : world.transaction.Distinct)
    (cast : t.CastAt index node) : world.Past index node := by
  cases changes with
  | same | close => exact .cast index node cast
  | put position sub next op found run casts stops =>
    rcases castAt_put found (apply_evolves run) cast with
      before | ⟨here, vote, order, same⟩
    · exact .cast index node before
    obtain ⟨c, member, named, selected⟩ := casts node vote order same
    rw [← named, ← here]
    exact .selected position c member selected
  | create => exact .cast index node (castAt_create distinct cast)

theorem Takes.selected (takes : Takes world event after)
    (member : c ∈ after.calls) (stage : c.stage = .selected index) :
    world.Origin index c.node := by
  -- A call that is at the stage `selected` already keeps its place.
  have old : c ∈ world.calls → world.Origin index c.node :=
    fun before => Origin.here (.selected index c before stage)
  have moved : ∀ {call : Nat} {newStage : Stage}, newStage ≠ .selected index →
      c ∈ (world.setStage call newStage).calls → world.Origin index c.node := by
    intro call newStage different changed
    rcases setStage_mem changed with before | ⟨source, -, same⟩
    · exact old before
    · rw [same] at stage
      exact absurd stage different
  have left : ∀ {call reached chosen : Nat}, world.lock = .voting call reached →
      chosen ≤ reached → c ∈ (world.setStage call (.selected chosen)).calls →
      world.Origin index c.node := by
    intro call reached chosen held within changed
    rcases setStage_mem changed with before | ⟨source, calling, same⟩
    · exact old before
    rw [same] at stage ⊢
    cases stage
    exact .inr (.inl ⟨reached, within, .voting call reached source held calling⟩)
  cases takes with
  | refuse node vote err free =>
    rcases mem_append.mp member with before | new
    · exact old before
    · rw [mem_singleton.mp new] at stage
      cases stage
  | enter node vote free isOpen =>
    rcases mem_append.mp member with before | new
    · exact old before
    · rw [mem_singleton.mp new] at stage
      cases stage
  | take call reached held => exact left held (Nat.le_refl _) member
  | pass | cancel | cancelNext | cancelReturn | stop | stopNext | stopFail | stopReturn =>
    exact old member
  | fail | collect | withdraw => exact moved Stage.noConfusion member
  | create call reached held past => exact left held past member
  | cast call position c' sub next order newStage calling selected found run leaves =>
    exact moved (leaves index) member

/-- A call in the loop has just entered it, or was there, or has passed a
subtransaction that its node committed. -/
theorem Takes.voting (takes : Takes world event after) {call index : Nat}
    (held : after.lock = .voting call index) (calling : after.calls[call]? = some c) :
    world.Origin index c.node := by
  have kept : world.lock = .voting call index →
      (∃ old, world.calls[call]? = some old ∧ old.node = c.node) → world.Origin index c.node := by
    intro before present
    obtain ⟨old, oldCalling, same⟩ := present
    exact same ▸ Origin.here (.voting call index old before oldCalling)
  cases takes with
  | refuse node vote err free =>
    rw [free] at held
    cases held
  | enter node vote free isOpen =>
    cases held
    exact .inl rfl
  | pass call' reached c' sub before oldCalling found committed =>
    cases held
    rw [calling] at oldCalling
    cases oldCalling
    exact .inr (.inr ⟨reached, rfl, .voting call reached c before calling,
      sub, found, committed⟩)
  | cast | collect | withdraw => exact kept held (setStage_node calling)
  | take | fail | create | cancel | cancelNext | cancelReturn | stop | stopNext | stopFail
  | stopReturn => cases held

theorem Takes.origin (takes : Takes world event after) (distinct : world.transaction.Distinct)
    (past : after.Past index node) : world.Origin index node := by
  cases past with
  | cast _ _ cast => exact Origin.here (takes.changes.castAt distinct cast)
  | selected _ c member stage => exact takes.selected member stage
  | voting call _ c held calling => exact takes.voting held calling

/-- Where a closing loop has been, and everywhere once it has returned, nobody is
undecided. -/
structure Closing (world : World) : Prop where
  canceling : ∀ index, world.lock = .canceling index → ∀ before < index,
    world.transaction.SettledAt before
  stopping : ∀ index, world.lock = .stopping index → ∀ before < index,
    world.transaction.SettledAt before
  closed : world.transaction.state ≠ .transactionOpen → ∀ index, world.transaction.SettledAt index
  voting : ∀ call index, world.lock = .voting call index →
    world.transaction.state = .transactionOpen

theorem Closing.keeps (closing : world.Closing)
    (lock : after.lock = world.lock ∨ after.lock = .free)
    (state : after.transaction.state = world.transaction.state)
    (settled : ∀ index, world.transaction.SettledAt index → after.transaction.SettledAt index) :
    after.Closing := by
  have before : ∀ lock, lock ≠ .free → after.lock = lock → world.lock = lock := by
    intro held notFree same
    rcases lock with kept | freed
    · rw [← kept, same]
    · exact absurd (same.symm.trans freed) notFree
  refine ⟨?_, ?_, ?_, ?_⟩
  · intro index held earlier inside
    exact settled _ (closing.canceling index (before _ Lock.noConfusion held) earlier inside)
  · intro index held earlier inside
    exact settled _ (closing.stopping index (before _ Lock.noConfusion held) earlier inside)
  · intro notOpen index
    exact settled _ (closing.closed (state ▸ notOpen) index)
  · intro call index held
    rw [state]
    exact closing.voting call index (before _ Lock.noConfusion held)

theorem Closing.loops (closing : world.Closing)
    (lock : after.lock = .canceling index ∨ after.lock = .stopping index)
    (state : after.transaction.state = world.transaction.state)
    (settled : ∀ index, world.transaction.SettledAt index → after.transaction.SettledAt index)
    (visited : ∀ before < index, after.transaction.SettledAt before) : after.Closing := by
  refine ⟨?_, ?_, fun notOpen index => settled _ (closing.closed (state ▸ notOpen) index), ?_⟩
  · intro reached held
    rcases lock with canceling | stopping
    · rw [canceling] at held
      cases held
      exact visited
    · rw [stopping] at held
      cases held
  · intro reached held
    rcases lock with canceling | stopping
    · rw [canceling] at held
      cases held
    rw [stopping] at held
    cases held
    exact visited
  · intro call reached held
    rcases lock with canceling | stopping
    · rw [canceling] at held
      cases held
    · rw [stopping] at held
      cases held

theorem Closing.opened (isOpen : after.transaction.state = .transactionOpen)
    (canceling : ∀ index, after.lock ≠ .canceling index)
    (stopping : ∀ index, after.lock ≠ .stopping index) : after.Closing :=
  ⟨fun index held => absurd held (canceling index), fun index held => absurd held (stopping index),
    fun notOpen => absurd isOpen notOpen, fun _ _ _ => isOpen⟩

theorem Closing.returned (free : after.lock = .free)
    (settled : ∀ index, after.transaction.SettledAt index) : after.Closing := by
  refine ⟨?_, ?_, fun _ => settled, ?_⟩
  · intro index held
    exact fun before _ => settled before
  · intro index held
    exact fun before _ => settled before
  · intro call index held
    rw [free] at held
    cases held

theorem Takes.closing (takes : Takes world event after) (closing : world.Closing) :
    after.Closing := by
  have early : ∀ before < 0, world.transaction.SettledAt before :=
    fun before inside => absurd inside (Nat.not_lt_zero before)
  cases takes with
  | refuse | collect => exact closing.keeps (.inl rfl) rfl (fun _ => id)
  | enter node vote free isOpen =>
    exact .opened isOpen (fun _ => Lock.noConfusion) (fun _ => Lock.noConfusion)
  | take | fail => exact closing.keeps (.inr rfl) rfl (fun _ => id)
  | pass call index c sub held calling found committed =>
    exact .opened (closing.voting call index held) (fun _ => Lock.noConfusion)
      (fun _ => Lock.noConfusion)
  | create call index held past =>
    exact .opened (closing.voting call index held) (fun _ => Lock.noConfusion)
      (fun _ => Lock.noConfusion)
  | cast call index c sub next order stage calling selected found run leaves =>
    exact closing.keeps (.inl rfl) rfl
      (fun _ settled => settled.put found (apply_evolves run))
  | withdraw call index node sub next order err found run =>
    exact closing.keeps (.inl rfl) rfl
      (fun _ settled => settled.put found (apply_evolves run))
  | cancel free => exact closing.loops (.inl rfl) rfl (fun _ => id) early
  | cancelNext index sub held found =>
    have run : sub.apply .cancel = some sub.cancel := rfl
    have evolves := apply_evolves run
    exact closing.loops (.inl rfl) rfl (fun _ settled => settled.put found evolves)
      (settledAt_succ found evolves (closing.canceling index held) sub.cancel_settled)
  | cancelReturn held =>
    exact .returned rfl (settledAt_all (closing.canceling _ held))
  | stop free => exact closing.loops (.inr rfl) rfl (fun _ => id) early
  | stopNext index sub next order held found run settled =>
    have evolves := apply_evolves run
    exact closing.loops (.inr rfl) rfl (fun _ settled => settled.put found evolves)
      (settledAt_succ found evolves (closing.stopping index held) settled)
  | stopFail index sub next order held found run =>
    exact closing.keeps (.inr rfl) rfl
      (fun _ settled => settled.put found (apply_evolves run))
  | stopReturn held =>
    exact .returned rfl (settledAt_all (closing.stopping _ held))

structure Inv (world : World) : Prop where
  distinct : world.transaction.Distinct
  committedCast : ∀ subtransaction ∈ world.transaction.subtransactions, subtransaction.CommittedCast
  reached : ∀ index node, world.Past index node → world.transaction.Reached index node
  closing : world.Closing

theorem Takes.inv (takes : Takes world event after) (inv : world.Inv) : after.Inv := by
  have changes := takes.changes
  have distinct : after.transaction.Distinct := by
    unfold Transaction.Distinct
    rw [changes.voters]
    exact inv.distinct
  refine ⟨distinct, ?_, ?_, takes.closing inv.closing⟩
  · exact changes.forall inv.committedCast
      (newSubtransaction_committedCast (voters_distinct inv.distinct) (voters_fresh _))
      (fun _ _ _ _ _ run _ => (apply_evolves run).committedCast)
  · intro index node past
    exact changes.reached ((takes.origin inv.distinct past).reached inv.reached)

end World

/-- Who votes, and what a quorum is, stays as registered. -/
theorem World.electorate_of_reaches {start world : World}
    (reached : Reaches World.step start world) :
    world.transaction.voters = start.transaction.voters ∧
      world.transaction.threshold = start.transaction.threshold := by
  refine reached.invariant (fun world => world.transaction.voters = start.transaction.voters ∧
    world.transaction.threshold = start.transaction.threshold) ?_ ⟨rfl, rfl⟩
  intro state event next same taken
  have changes := (World.step_takes taken).changes
  exact ⟨changes.voters.trans same.1, changes.threshold.trans same.2⟩

/-- Three nodes, any two of which are a quorum. -/
def trio : Transaction where
  id := 1
  threshold := 2
  voters := [⟨"a", 1⟩, ⟨"b", 1⟩, ⟨"c", 1⟩]
  state := .transactionOpen
  subtransactions := []

theorem trio_accepted : newTransaction 1 trio.voters 2 = .ok trio := rfl

/-- Nodes `a` and `b` commit a first subtransaction; `a` goes on to a second one, where
it waits, and `c` has the first one in hand without having voted. -/
def trioRun : List Event :=
  [.vote "a" 7, .getOrCreateSubtransaction, .cast 0 [7], .vote "b" 7, .getOrCreateSubtransaction,
    .cast 1 [7], .collect 0, .vote "a" 9, .getOrCreateSubtransaction, .getOrCreateSubtransaction,
    .cast 2 [9], .vote "c" 7, .getOrCreateSubtransaction]

section

variable {id threshold : UInt64} {t : Transaction} {voters : List Member}
  (accepted : newTransaction id voters threshold = .ok t)
include accepted

theorem newTransaction_inv : t.world.Inv := by
  obtain ⟨same, distinct, -⟩ := newTransaction_ok accepted
  have absent : ∀ index : Nat, t.subtransactions[index]? = none := by
    intro index
    rw [same]
    rfl
  refine ⟨distinct, ?_, ?_, ?_⟩
  · intro sub member
    rw [same] at member
    cases member
  · intro index node past
    cases past with
    | cast _ _ cast =>
      obtain ⟨sub, present, -⟩ := cast
      rw [world, absent] at present
      cases present
    | selected _ c member stage => cases member
    | voting call _ c held calling => cases held
  · exact .opened (by rw [same]; rfl) (fun _ => Lock.noConfusion) (fun _ => Lock.noConfusion)

theorem World.inv_of_reaches {world : World} (reached : Reaches World.step t.world world) :
    world.Inv :=
  reached.invariant World.Inv (fun _ _ _ inv taken => (World.step_takes taken).inv inv)
    (newTransaction_inv accepted)

end

end Gitaly.Transactions
