import Gitaly.Praefect.TransactionRuns

/- What a transaction reports about its nodes, and what it does once it is closed. -/
namespace Gitaly.Transactions

open Runs Transaction World List Option KeyedTable

private theorem lookup_results (rows : List Voter) (node : String) :
    (rows.map (fun voter => (voter.name, voter.result))).lookup node =
      (rows.find? (fun voter => voter.name = node)).map Voter.result := by
  induction rows with
  | nil => rfl
  | cons voter rows ih =>
    rw [map_cons, lookup_cons, find?_cons]
    by_cases named : voter.name = node
    · simp only [named, beq_self_eq_true, decide_true, map_some]
    have different : (node == voter.name) = false := beq_eq_false_iff_ne.mpr (Ne.symm named)
    simp only [different, named, decide_false]
    exact ih

namespace Subtransaction

theorem state_committed (t : Subtransaction) (node : String) :
    t.state.lookup node = some .committed ↔ t.Committed node := by
  unfold state
  rw [lookup_results]
  rw [map_eq_some_iff]
  constructor
  · intro found
    obtain ⟨voter, present, committed⟩ := found
    obtain ⟨member, named⟩ := find_eq_some.mp present
    exact ⟨voter, member, named, committed⟩
  · intro found
    obtain ⟨voter, member, named, committed⟩ := found
    exact ⟨voter, find_eq_some.mpr ⟨member, named⟩, committed⟩

theorem getVote_cast (t : Subtransaction) (node : String) :
    (∃ vote, t.getVote node = .ok (some vote)) ↔ t.Cast node := by
  unfold getVote
  constructor
  · intro found
    obtain ⟨vote, cast⟩ := found
    cases present : t.votersByNode.find node with
    | none =>
      rw [present] at cast
      cases cast
    | some voter =>
      rw [present] at cast
      obtain ⟨member, named⟩ := find_eq_some.mp present
      refine ⟨voter, member, named, ?_⟩
      rw [Except.ok.inj cast]
      exact some_ne_none vote
  · intro found
    obtain ⟨voter, member, named, cast⟩ := found
    rw [find_eq_some.mpr ⟨member, named⟩]
    obtain ⟨vote, same⟩ := ne_none_iff_exists'.mp cast
    exact ⟨vote, congrArg Except.ok same⟩

end Subtransaction

namespace Transaction

theorem initialResult_ne_committed (state : TransactionState) :
    initialResult state ≠ .committed := by
  cases state <;> decide

variable (t : Transaction) (node : String)

theorem state_committed_last :
    t.State.lookup node = some .committed ↔
      t.subtransactions ≠ [] ∧ t.CommittedAt (t.subtransactions.length - 1) node := by
  unfold State CommittedAt
  rw [getLast?_eq_getElem?]
  cases last : t.subtransactions[t.subtransactions.length - 1]? with
  | none =>
    constructor
    · intro reported
      dsimp only at reported
      obtain ⟨front, rest, split, -⟩ := lookup_eq_some_iff.mp reported
      have member : (node, VoteResult.committed) ∈ t.voters.map
          (fun voter => (voter.name, initialResult t.state)) := by
        rw [split]
        exact mem_append_right front mem_cons_self
      obtain ⟨voter, -, same⟩ := mem_map.mp member
      exact absurd (Prod.mk.inj same).2 (initialResult_ne_committed t.state)
    · intro reported
      obtain ⟨-, sub, absent, -⟩ := reported
      cases absent
  | some sub =>
    have nonempty : t.subtransactions ≠ [] := by
      intro empty
      rw [empty] at last
      cases last
    rw [sub.state_committed]
    constructor
    · intro committed
      exact ⟨nonempty, sub, rfl, committed⟩
    · intro reported
      obtain ⟨-, other, same, committed⟩ := reported
      cases same
      exact committed

theorem didVote_first :
    t.DidVote node = true ↔ t.CastAt 0 node := by
  unfold DidVote CastAt
  rw [head?_eq_getElem?]
  cases first : t.subtransactions[0]? with
  | none => simp
  | some sub =>
    simp only [Option.some.injEq, exists_eq_left', ← sub.getVote_cast]
    cases sub.getVote node with
    | error err => simp
    | ok vote => simp [isSome_iff_exists]

section electorates

variable {t other : Transaction} (same : t.electorates = other.electorates)

include same

theorem count_of_electorates : t.CountSubtransactions = other.CountSubtransactions := by
  have lengths := congrArg length same
  rw [electorates, electorates, length_map, length_map] at lengths
  exact lengths

theorem didVote_of_electorates : t.DidVote = other.DidVote := by
  have firsts := congrArg head? same
  simp only [electorates, head?_map] at firsts
  funext node
  unfold DidVote
  cases left : t.subtransactions.head? with
  | none =>
    rw [left] at firsts
    rw [map_eq_none_iff.mp firsts.symm]
  | some first =>
    rw [left] at firsts
    obtain ⟨counterpart, right, voters⟩ := map_eq_some_iff.mp firsts.symm
    rw [right]
    dsimp only
    unfold Subtransaction.getVote
    rw [voters]

/-- Without a subtransaction the report depends on how the transaction was closed. -/
theorem state_of_electorates (some : t.CountSubtransactions ≠ 0) : t.State = other.State := by
  have lasts := congrArg getLast? same
  simp only [electorates, getLast?_map] at lasts
  unfold State
  cases left : t.subtransactions.getLast? with
  | none => exact absurd (congrArg length (getLast?_eq_none_iff.mp left)) some
  | some last =>
    rw [left] at lasts
    obtain ⟨counterpart, right, voters⟩ := map_eq_some_iff.mp lasts.symm
    rw [right]
    dsimp only
    unfold Subtransaction.state
    rw [voters]

end electorates

theorem forall_committed_iff :
    (∀ sub ∈ t.subtransactions, sub.Committed node) ↔
      t.Reached t.subtransactions.length node := by
  constructor
  · intro all index inside
    refine ⟨t.subtransactions[index], getElem?_eq_getElem inside, ?_⟩
    exact all _ (getElem_mem inside)
  · intro reached sub member
    obtain ⟨index, present⟩ := mem_iff_getElem?.mp member
    obtain ⟨other, same, committed⟩ := reached index (List.getElem?_eq_some_iff.mp present).1
    rw [present] at same
    cases same
    exact committed

theorem exists_cast_iff :
    (∃ sub ∈ t.subtransactions, sub.Cast node) ↔
      ∃ index, t.CastAt index node := by
  constructor
  · intro some
    obtain ⟨sub, member, cast⟩ := some
    obtain ⟨index, present⟩ := mem_iff_getElem?.mp member
    exact ⟨index, sub, present, cast⟩
  · intro some
    obtain ⟨index, sub, present, cast⟩ := some
    exact ⟨sub, mem_of_getElem? present, cast⟩

end Transaction

namespace World

variable {world : World} {node : String}

theorem Inv.castAt (inv : world.Inv) {index : Nat}
    (committed : world.transaction.CommittedAt index node) :
    world.transaction.CastAt index node := by
  obtain ⟨sub, present, isCommitted⟩ := committed
  exact ⟨sub, present,
    inv.committedCast sub (mem_of_getElem? present) node isCommitted⟩

/-- Who committed the last subtransaction has voted on it, and so has committed all
before it. -/
theorem Inv.reached_of_last (inv : world.Inv)
    (committed :
      world.transaction.CommittedAt (world.transaction.subtransactions.length - 1) node) :
    world.transaction.Reached world.transaction.subtransactions.length node := by
  intro index inside
  by_cases last : index = world.transaction.subtransactions.length - 1
  · exact last ▸ committed
  · exact inv.reached _ node (.cast _ node (inv.castAt committed)) index (by omega)

theorem Inv.castAt_zero (inv : world.Inv) {index : Nat}
    (cast : world.transaction.CastAt index node) : world.transaction.CastAt 0 node := by
  cases index with
  | zero => exact cast
  | succ index =>
    exact inv.castAt (inv.reached _ node (.cast _ node cast) 0 (Nat.succ_pos index))

theorem Inv.state_iff (inv : world.Inv) (node : String) :
    world.transaction.State.lookup node = some .committed ↔
      world.transaction.subtransactions ≠ [] ∧
        ∀ sub ∈ world.transaction.subtransactions, sub.Committed node := by
  rw [state_committed_last, forall_committed_iff]
  constructor
  · intro reported
    exact ⟨reported.1, inv.reached_of_last reported.2⟩
  · intro all
    have positive := length_pos_iff.mpr all.1
    exact ⟨all.1, all.2 _ (by omega)⟩

theorem Inv.didVote_iff (inv : world.Inv) (node : String) :
    world.transaction.DidVote node = true ↔
      ∃ sub ∈ world.transaction.subtransactions, sub.Cast node := by
  rw [didVote_first, exists_cast_iff]
  constructor
  · intro cast
    exact ⟨0, cast⟩
  · intro some
    obtain ⟨index, cast⟩ := some
    exact inv.castAt_zero cast

end World

/-- Looking at the last subtransaction, or at the first, is enough. -/
theorem first_and_last_suffice {id threshold : UInt64} {voters : List Member} {t : Transaction}
    {world : World} (accepted : newTransaction id voters threshold = .ok t)
    (reached : Reaches step t.world world) (node : String) :
    (world.transaction.State.lookup node = some .committed ↔
      world.transaction.subtransactions ≠ [] ∧
        ∀ subtransaction ∈ world.transaction.subtransactions, subtransaction.Committed node) ∧
    (world.transaction.DidVote node = true ↔
      ∃ subtransaction ∈ world.transaction.subtransactions, subtransaction.Cast node) := by
  have inv := inv_of_reaches accepted reached
  exact ⟨inv.state_iff node, inv.didVote_iff node⟩

theorem first_and_last_suffice_trio :
    let t := ((exec step trio.world trioRun).get (by decide)).transaction
    (t.State.lookup "a" = some .committed ↔
      t.subtransactions ≠ [] ∧ ∀ subtransaction ∈ t.subtransactions, subtransaction.Committed "a") ∧
    (t.DidVote "a" = true ↔ ∃ subtransaction ∈ t.subtransactions, subtransaction.Cast "a") :=
  first_and_last_suffice trio_accepted (Reaches.of_exec (by decide)) "a"

namespace World

/-- A closed transaction: its voters stay as they were when it was closed. -/
structure Dead (closed : Transaction) (world : World) : Prop where
  inv : world.Inv
  notOpen : world.transaction.state ≠ .transactionOpen
  frozen : world.transaction.electorates = closed.electorates

theorem Dead.step {closed : Transaction} {world after : World} {event : Event}
    (dead : Dead closed world) (takes : Takes world event after) : Dead closed after := by
  have inv := takes.inv dead.inv
  have settled := dead.inv.closing.closed dead.notOpen
  have changes := takes.changes
  generalize same : after.transaction = t at changes
  refine ⟨inv, ?_, ?_⟩ <;> rw [same]
  · cases changes with
    | same | put | create => exact dead.notOpen
    | close state notOpen => exact notOpen
  · cases changes with
    | same | close => exact dead.frozen
    | put index sub next op found run casts stops =>
      have unchanged := (Subtransaction.apply_moves run).frozen
        (settled index sub found)
      exact (electorates_put found unchanged).trans dead.frozen
    | create call index held => exact absurd (dead.inv.closing.voting call index held) dead.notOpen

end World

section closed

variable {id threshold : UInt64} {voters : List Member} {t : Transaction}
  {world closed final : World} {event : Event}
  (accepted : newTransaction id voters threshold = .ok t)
  (reached : Reaches step t.world world)
  (returns : event = .cancelReturn ∨ event = .stopReturn)
  (taken : world.step event = some closed) (later : Reaches step closed final)

include accepted reached returns taken later

theorem World.dead_of_closed : Dead closed.transaction final := by
  have inv := inv_of_reaches accepted (reached.snoc taken)
  have notOpen : closed.transaction.state ≠ .transactionOpen := by
    have takes := step_takes taken
    rcases returns with canceled | stopped
    · subst canceled
      cases takes
      exact TransactionState.noConfusion
    · subst stopped
      cases takes
      exact TransactionState.noConfusion
  exact later.invariant (Dead closed.transaction)
    (fun _ _ _ dead taken => dead.step (step_takes taken)) ⟨inv, notOpen, rfl⟩

/-- After `cancel` has returned, or `stop` without an error, no subtransaction is
created and no voter commits. -/
theorem closed_stays_dead :
    final.transaction.subtransactions.length = closed.transaction.subtransactions.length ∧
      ∀ index node, final.transaction.CommittedAt index node →
        closed.transaction.CommittedAt index node := by
  have dead := dead_of_closed accepted reached returns taken later
  constructor
  · exact count_of_electorates dead.frozen
  · intro index node committed
    exact committedAt_of_electorates dead.frozen committed

end closed

/-- The vote of `c` that is in flight while the transaction is canceled commits nobody. -/
theorem closed_stays_dead_trio : let canceling := (exec step trio.world
      (trioRun ++ [.cancel, .cancelNext, .cancelNext])).get (by decide)
    let closed := (canceling.step .cancelReturn).get (by decide)
    let final := (exec step closed [.cast 3 []]).get (by decide)
    final.transaction.subtransactions.length = closed.transaction.subtransactions.length ∧
      ∀ index node, final.transaction.CommittedAt index node →
        closed.transaction.CommittedAt index node :=
  closed_stays_dead trio_accepted (Reaches.of_exec (by decide)) (.inl rfl)
    (some_get _).symm (Reaches.of_exec (by decide))

end Gitaly.Transactions
