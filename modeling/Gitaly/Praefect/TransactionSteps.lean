import Gitaly.Praefect.SubtransactionEvolution
import Gitaly.Praefect.Transaction

/- What each step of the world can do, said once. The invariants across
subtransactions are by cases on `Takes` and do not unfold `World.step` again. -/
namespace Gitaly.Transactions

open Option

namespace World

inductive Takes (world : World) : Event → World → Prop where
  | refuse (node : String) (vote : Vote) (err : TransactionError) (free : world.lock = .free) :
      Takes world (.vote node vote)
        { world with calls := world.calls ++ [⟨node, vote, .returned (some err)⟩] }
  | enter (node : String) (vote : Vote) (free : world.lock = .free)
      (isOpen : world.transaction.state = .transactionOpen) :
      Takes world (.vote node vote)
        { world with
          calls := world.calls ++ [⟨node, vote, .choosing⟩]
          lock := .voting world.calls.length 0 }
  | take (call index : Nat) (held : world.lock = .voting call index) :
      Takes world .getOrCreateSubtransaction
        { world.setStage call (.selected index) with lock := .free }
  | pass (call index : Nat) (c : Call) (subtransaction : Subtransaction)
      (held : world.lock = .voting call index) (calling : world.calls[call]? = some c)
      (found : world.transaction.subtransactions[index]? = some subtransaction)
      (committed : subtransaction.Committed c.node) :
      Takes world .getOrCreateSubtransaction { world with lock := .voting call (index + 1) }
  | fail (call index : Nat) (err : TransactionError) (held : world.lock = .voting call index) :
      Takes world .getOrCreateSubtransaction
        { world.setStage call (.returned (some err)) with lock := .free }
  | create (call index : Nat) (held : world.lock = .voting call index)
      (past : world.transaction.subtransactions.length ≤ index) :
      Takes world .getOrCreateSubtransaction
        { world.setStage call (.selected world.transaction.subtransactions.length) with
          transaction := world.transaction.create
          lock := .free }
  | cast (call index : Nat) (c : Call) (subtransaction next : Subtransaction) (order : List Vote)
      (stage : Stage) (calling : world.calls[call]? = some c) (selected : c.stage = .selected index)
      (found : world.transaction.subtransactions[index]? = some subtransaction)
      (run : subtransaction.apply (.vote c.node c.vote order) = some next)
      (leaves : ∀ other, stage ≠ .selected other) :
      Takes world (.cast call order) ((world.put index next).setStage call stage)
  | collect (call : Nat) (err : Option TransactionError) :
      Takes world (.collect call) (world.setStage call (.returned err))
  | withdraw (call index : Nat) (node : String) (subtransaction next : Subtransaction)
      (order : List Vote) (err : Option TransactionError)
      (found : world.transaction.subtransactions[index]? = some subtransaction)
      (run : subtransaction.apply (.withdraw node order) = some next) :
      Takes world (.withdraw call order) ((world.put index next).setStage call (.returned err))
  | cancel (free : world.lock = .free) :
      Takes world .cancel { world with lock := .canceling 0 }
  | cancelNext (index : Nat) (subtransaction : Subtransaction)
      (held : world.lock = .canceling index)
      (found : world.transaction.subtransactions[index]? = some subtransaction) :
      Takes world .cancelNext
        { world.put index subtransaction.cancel with lock := .canceling (index + 1) }
  | cancelReturn (held : world.lock = .canceling world.transaction.subtransactions.length) :
      Takes world .cancelReturn { world.setState .transactionCanceled with lock := .free }
  | stop (free : world.lock = .free) : Takes world .stop { world with lock := .stopping 0 }
  | stopNext (index : Nat) (subtransaction next : Subtransaction) (order : List String)
      (held : world.lock = .stopping index)
      (found : world.transaction.subtransactions[index]? = some subtransaction)
      (run : subtransaction.apply (.stop order) = some next) (settled : next.Settled) :
      Takes world (.stopNext order) { world.put index next with lock := .stopping (index + 1) }
  | stopFail (index : Nat) (subtransaction next : Subtransaction) (order : List String)
      (held : world.lock = .stopping index)
      (found : world.transaction.subtransactions[index]? = some subtransaction)
      (run : subtransaction.apply (.stop order) = some next) :
      Takes world (.stopNext order) { world.put index next with lock := .free }
  | stopReturn (held : world.lock = .stopping world.transaction.subtransactions.length) :
      Takes world .stopReturn { world.setState .transactionStopped with lock := .free }

variable {world after : World}

theorem enterVote_takes (free : world.lock = .free) (node : String) (vote : Vote) :
    Takes world (.vote node vote) (world.enterVote node vote) := by
  unfold enterVote Transaction.checkOpen
  cases state : world.transaction.state with
  | transactionOpen => exact .enter node vote free state
  | transactionCanceled => exact .refuse node vote .transactionCanceled free
  | transactionStopped => exact .refuse node vote .transactionStopped free

theorem getResult_committed {t : Subtransaction} {node : String}
    (result : t.getResult node = .ok .committed) : t.Committed node := by
  unfold Subtransaction.getResult at result
  cases found : t.votersByNode.find node with
  | none =>
    rw [found] at result
    cases result
  | some voter =>
    rw [found] at result
    obtain ⟨member, named⟩ := KeyedTable.find_eq_some.mp found
    exact ⟨voter, member, named, Except.ok.inj result⟩

theorem getOrCreateStep_takes {call index : Nat} {c : Call}
    (held : world.lock = .voting call index) (calling : world.calls[call]? = some c) :
    Takes world .getOrCreateSubtransaction (world.getOrCreateStep call index c.node) := by
  unfold getOrCreateStep Transaction.getOrCreateSubtransaction
  cases found : world.transaction.subtransactions[index]? with
  | none => exact .create call index held (List.getElem?_eq_none_iff.mp found)
  | some sub =>
    dsimp only
    cases result : sub.getResult c.node with
    | error err => exact .fail call index err held
    | ok value =>
      cases value with
      | undecided => exact .take call index held
      | committed =>
        exact .pass call index c sub held calling found
          (getResult_committed result)
      | failed => exact .fail call index .transactionFailed held
      | canceled => exact .fail call index .transactionCanceled held
      | stopped => exact .fail call index .transactionStopped held

theorem callAt_eq_some {call index : Nat} {position : Stage → Option Nat} {c : Call}
    {subtransaction : Subtransaction} :
    world.callAt call position = some (c, index, subtransaction) ↔
      world.calls[call]? = some c ∧ position c.stage = some index ∧
        world.transaction.subtransactions[index]? = some subtransaction := by
  constructor
  · intro found
    obtain ⟨c', calling, rest⟩ := bind_eq_some_iff.mp found
    obtain ⟨index', positioned, rest⟩ := bind_eq_some_iff.mp rest
    obtain ⟨subtransaction', present, rest⟩ := bind_eq_some_iff.mp rest
    cases rest
    exact ⟨calling, positioned, present⟩
  · intro found
    obtain ⟨calling, positioned, present⟩ := found
    simp only [callAt, calling, positioned, present, bind_eq_bind, bind_some]

theorem selectedIndex_eq_some {stage : Stage} {index : Nat} :
    selectedIndex stage = some index ↔ stage = .selected index := by
  cases stage <;> simp [selectedIndex]

theorem cast_takes {call : Nat} {order : List Vote}
    (run : world.step (.cast call order) = some after) :
    Takes world (.cast call order) after := by
  obtain ⟨⟨c, index, subtransaction⟩, located, rest⟩ := bind_eq_some_iff.mp run
  obtain ⟨next, applied, rest⟩ := bind_eq_some_iff.mp rest
  obtain ⟨calling, positioned, found⟩ := callAt_eq_some.mp located
  cases rest
  refine .cast call index c subtransaction next order _ calling
    (selectedIndex_eq_some.mp positioned) found applied ?_
  intro other
  split
  all_goals exact Stage.noConfusion

theorem collect_takes {call : Nat} (run : world.step (.collect call) = some after) :
    Takes world (.collect call) after := by
  obtain ⟨⟨c, index, sub⟩, located, rest⟩ := bind_eq_some_iff.mp run
  dsimp only at rest
  split at rest
  · cases rest
    exact .collect call _
  · cases rest

theorem withdraw_takes {call : Nat} {order : List Vote}
    (run : world.step (.withdraw call order) = some after) :
    Takes world (.withdraw call order) after := by
  obtain ⟨⟨c, index, subtransaction⟩, located, rest⟩ := bind_eq_some_iff.mp run
  obtain ⟨next, applied, rest⟩ := bind_eq_some_iff.mp rest
  obtain ⟨calling, positioned, found⟩ := callAt_eq_some.mp located
  cases rest
  exact .withdraw call index c.node subtransaction next order _ found applied

theorem stopNext_takes {order : List String} (run : world.step (.stopNext order) = some after) :
    Takes world (.stopNext order) after := by
  unfold step at run
  dsimp only at run
  split at run
  · rename_i index held
    obtain ⟨sub, found, rest⟩ := bind_eq_some_iff.mp run
    obtain ⟨next, applied, rest⟩ := bind_eq_some_iff.mp rest
    cases rest
    split
    · rename_i finished
      refine .stopNext index sub next order held found applied ?_
      unfold Subtransaction.apply at applied
      dsimp only at applied
      split at applied
      · rename_i visits
        cases applied
        exact (Subtransaction.stop_moves order (List.isPerm_iff.mp visits)).2 finished
      · cases applied
    · exact .stopFail index sub next order held found applied
  · cases run

theorem step_takes {event : Event} (run : world.step event = some after) :
    Takes world event after := by
  cases event with
  | vote node vote =>
    simp only [step, ite_none_right_eq_some, some.injEq] at run
    exact run.2 ▸ enterVote_takes run.1 node vote
  | getOrCreateSubtransaction =>
    unfold step at run
    dsimp only at run
    split at run
    · rename_i call index held
      obtain ⟨c, calling, same⟩ := map_eq_some_iff.mp run
      exact same ▸ getOrCreateStep_takes held calling
    · cases run
  | cast call order => exact cast_takes run
  | collect call => exact collect_takes run
  | withdraw call order => exact withdraw_takes run
  | cancel =>
    simp only [step, ite_none_right_eq_some, some.injEq] at run
    exact run.2 ▸ .cancel run.1
  | cancelNext =>
    unfold step at run
    dsimp only at run
    split at run
    · rename_i index held
      obtain ⟨sub, found, rest⟩ := bind_eq_some_iff.mp run
      cases rest
      exact .cancelNext index sub held found
    · cases run
  | cancelReturn =>
    simp only [step, ite_none_right_eq_some, some.injEq] at run
    exact run.2 ▸ .cancelReturn run.1
  | stop =>
    simp only [step, ite_none_right_eq_some, some.injEq] at run
    exact run.2 ▸ .stop run.1
  | stopNext order => exact stopNext_takes run
  | stopReturn =>
    simp only [step, ite_none_right_eq_some, some.injEq] at run
    exact run.2 ▸ .stopReturn run.1

end World

end Gitaly.Transactions
