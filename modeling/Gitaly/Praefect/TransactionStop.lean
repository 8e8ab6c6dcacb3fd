import Gitaly.Praefect.TransactionAgreement

/- Whether a `stop` that returns an error has changed anything by then. -/
namespace Gitaly.Transactions

open Runs World Subtransaction KeyedTable Option List

namespace Voter

theorem stopIn_eq_self_iff (visited : List String) (voter : Voter) :
    voter.stopIn visited = voter ↔ (voter.result = .undecided → voter.name ∉ visited) := by
  constructor
  · intro same undecided inside
    have settled := voter.stopIn_visited visited inside
    rw [same] at settled
    exact settled undecided
  · intro outside
    exact if_neg (fun both => outside both.1 both.2)

end Voter

namespace Subtransaction

/-- In the order of the visits, every undecided voter comes after one at which `stop`
gives up. -/
def StopsNobody (t : Subtransaction) (order : List String) : Prop :=
  ∀ voter ∈ t.votersByNode.rows, voter.result = .undecided →
    ∃ blocked ∈ t.votersByNode.rows, blocked.Blocked ∧
      order.idxOf blocked.name < order.idxOf voter.name

instance (t : Subtransaction) (order : List String) : Decidable (t.StopsNobody order) :=
  inferInstanceAs (Decidable (∀ voter ∈ t.votersByNode.rows, _ → ∃ blocked ∈ _, _ ∧ _))

variable {t : Subtransaction}

theorem update_stopIn_iff (visited : List String) :
    t.votersByNode.update (Voter.stopIn visited) (Voter.stopIn_name visited) = t.votersByNode ↔
      ∀ voter ∈ t.votersByNode, voter.result = .undecided → voter.name ∉ visited := by
  constructor
  · intro same voter member
    rw [← Voter.stopIn_eq_self_iff]
    have kept : voter.stopIn visited ∈ t.votersByNode := by
      have changed := change_mem_update t.votersByNode (Voter.stopIn visited)
        (Voter.stopIn_name visited) member
      rw [same] at changed
      exact changed
    exact eq_of_key kept member (voter.stopIn_name visited)
  · intro outside
    exact update_id _ _ _ (fun voter member =>
      (voter.stopIn_eq_self_iff visited).mpr (outside voter member))

variable {order : List String}

/-- A visit leaves the voters as it finds them exactly if it stops nobody on its way. -/
theorem stop_voters_iff (visits : order.Perm t.votersByNode.keys) :
    (t.stop order).1.votersByNode = t.votersByNode ↔ t.StopsNobody order := by
  have once : order.Nodup := visits.nodup_iff.mpr t.votersByNode.unique
  have outcome := stopVoters_outcome t.votersByNode order once
  have voters : (t.stop order).1.votersByNode = (stopVoters t.votersByNode order).1 := by
    unfold stop
    split <;> simp_all
  rw [voters]
  have everyone : ∀ voter ∈ t.votersByNode, voter.name ∈ order :=
    fun voter member => visits.mem_iff.mpr (key_mem_keys member)
  generalize stopVoters t.votersByNode order = result at outcome
  cases outcome with
  | finished _ free =>
    rw [update_stopIn_iff]
    constructor
    · intro outside voter member undecided
      exact absurd (everyone voter member) (outside voter member undecided)
    · intro nobody voter member undecided
      obtain ⟨blocked, present, isBlocked, -⟩ := nobody voter member undecided
      exact absurd isBlocked (free blocked present (everyone blocked present))
  | blocked visited first rest err member isBlocked free =>
    rw [update_stopIn_iff]
    have outside : ∀ voter ∈ t.votersByNode, voter.Blocked → voter.name ∉ visited :=
      fun voter present blocked inside => free voter present inside blocked
    constructor
    · intro spared voter present undecided
      exact ⟨first, member, isBlocked, idxOf_blocked_lt member isBlocked
        (outside first member isBlocked) present undecided (spared voter present undecided)⟩
    · intro nobody voter present undecided inside
      obtain ⟨blocked, blockedMember, blockedBlocked, earlier⟩ := nobody voter present undecided
      have reached := idxOf_lt_length_of_mem inside
      rw [idxOf_append_of_mem inside,
        idxOf_append_of_notMem (outside blocked blockedMember blockedBlocked)] at earlier
      omega

theorem apply_stop {next : Subtransaction} {order : List String} :
    t.apply (.stop order) = some next ↔
      order.Perm t.votersByNode.keys ∧ (t.stop order).1 = next := by
  simp only [apply, ite_none_right_eq_some, Option.some.injEq, isPerm_iff]

theorem stop_failed (failed : (t.stop order).2 ≠ none) :
    (t.stop order).1 = { t with votersByNode := (t.stop order).1.votersByNode } := by
  unfold stop at failed ⊢
  split
  · rfl
  rename_i finished
  rw [finished] at failed
  exact absurd rfl failed

/-- A `stop` that fails never ends the subtransaction, and changes a voter exactly if it
meets an undecided one before the one that makes it fail. -/
theorem stop_failed_iff (visits : order.Perm t.votersByNode.keys)
    (failed : (t.stop order).2 ≠ none) : (t.stop order).1 = t ↔ t.StopsNobody order := by
  rw [← stop_voters_iff visits]
  constructor
  · intro same
    rw [same]
  · intro same
    rw [stop_failed failed, same]

end Subtransaction

namespace World

/-- If the step is one of a `stop`, it changes no voter. -/
def SparesVoters (world : World) (event : Event) : Prop :=
  event.stopOrder ≠ none → ∀ next, world.step event = some next →
    next.transaction.electorates = world.transaction.electorates

/-- If the step is one of a `stop`, the visit finds nobody to stop. -/
def StopsNobody (world : World) (event : Event) : Prop :=
  ∀ order ∈ event.stopOrder, ∀ subtransaction ∈ world.stoppingAt, subtransaction.StopsNobody order

instance (world : World) (event : Event) : Decidable (world.StopsNobody event) :=
  inferInstanceAs (Decidable (∀ order ∈ event.stopOrder, ∀ subtransaction ∈ world.stoppingAt,
    subtransaction.StopsNobody order))

def Stopping (world : World) : Prop := ∃ index, world.lock = .stopping index

/-- The steps of a call of `transaction.stop` that returns an error, from after the lock is
taken to the visit that fails, and those of other calls in between. -/
structure FailedStop (world : World) (events : List Event) : Prop where
  entered : world.lock = .stopping 0
  held : Along step (fun between _ => between.Stopping) world events
  failed : (exec step world events).map lock = some .free
  visit : ∃ before order, events = before ++ [.stopNext order]

theorem sparesVoters_iff {world next : World} {event : Event}
    (run : world.step event = some next) : world.SparesVoters event ↔ world.StopsNobody event := by
  unfold SparesVoters StopsNobody
  cases ordered : event.stopOrder with
  | none => simp
  | some visited =>
    have only : ∀ other, world.step event = some other → other = next :=
      fun other found => Option.some.inj (found.symm.trans run)
    cases event with
    | stopNext order =>
      obtain rfl : order = visited := Option.some.inj ordered
      -- Whether the visit fails or not, it puts back what the subtransaction made of it.
      have visit : ∃ index subtransaction, world.lock = .stopping index ∧
          world.transaction.subtransactions[index]? = some subtransaction ∧
          order.Perm subtransaction.votersByNode.keys ∧
          next.transaction = world.transaction.put index (subtransaction.stop order).1 := by
        cases step_takes run with
        | stopNext index subtransaction stopped _ held found applied settled =>
          obtain ⟨visits, rfl⟩ := apply_stop.mp applied
          exact ⟨index, subtransaction, held, found, visits, rfl⟩
        | stopFail index subtransaction stopped _ held found applied =>
          obtain ⟨visits, rfl⟩ := apply_stop.mp applied
          exact ⟨index, subtransaction, held, found, visits, rfl⟩
      obtain ⟨index, subtransaction, held, found, visits, after⟩ := visit
      have stopping : world.stoppingAt = some subtransaction := by
        rw [stoppingAt, held]
        exact found
      have unchanged : next.transaction.electorates = world.transaction.electorates ↔
          subtransaction.StopsNobody order := by
        rw [after, Transaction.electorates_put_iff found]
        exact stop_voters_iff visits
      rw [stopping]
      constructor
      · intro spared other same _ here
        cases same
        cases here
        exact unchanged.mp (spared (some_ne_none _) next run)
      · intro nobody _ other taken
        rw [only other taken]
        exact unchanged.mpr (nobody order rfl subtransaction rfl)
    | _ => cases ordered

end World

/-- A `stop` that fails has changed nothing exactly if, in the order of its visits, every
undecided voter it found came after one at which it gives up. A `transaction.stop` makes
such a visit to each subtransaction until one fails. -/
theorem stop_all_or_nothing_iff (t : Subtransaction) (order : List String) (world : World)
    (events : List Event) :
    (order.Perm t.votersByNode.keys → (t.stop order).2 ≠ none →
      ((t.stop order).1 = t ↔ t.StopsNobody order)) ∧
    (world.FailedStop events →
      (Along step SparesVoters world events ↔ Along step StopsNobody world events)) := by
  refine ⟨fun visits failed => stop_failed_iff visits failed, fun failing => ?_⟩
  obtain ⟨final, run, -⟩ := map_eq_some_iff.mp failing.failed
  exact along_congr (fun _ => True) (fun _ _ _ _ _ => trivial)
    (fun _ _ _ _ taken => sparesVoters_iff taken) trivial run

/-- Node `b` takes its vote back while `a` waits. -/
def withdrawnRun : List Event :=
  [.vote "b" 7, .getOrCreateSubtransaction, .cast 0 [7], .withdraw 0 [7],
    .vote "a" 7, .getOrCreateSubtransaction, .cast 1 [7]]

/-- Nodes `a` and `b` commit a first subtransaction, and `b` takes back its vote on a second
one. -/
def secondWithdrawnRun : List Event :=
  [.vote "a" 7, .getOrCreateSubtransaction, .cast 0 [7], .vote "b" 7, .getOrCreateSubtransaction,
    .cast 1 [7], .collect 1, .vote "b" 9, .getOrCreateSubtransaction, .getOrCreateSubtransaction,
    .cast 2 [9], .withdraw 2 [9]]

/-- `transaction.stop` has begun after node `b` has taken back its vote. -/
def blockedWorld : World := (exec step trio.world (withdrawnRun ++ [.stop])).get (by decide +kernel)

def blockedSubtransaction : Subtransaction :=
  (blockedWorld.transaction.subtransactions[0]?).get (by decide +kernel)

theorem stop_all_or_nothing_iff_blocked :
    (["b", "a", "c"].Perm blockedSubtransaction.votersByNode.keys ∧
      (blockedSubtransaction.stop ["b", "a", "c"]).2 ≠ none ∧
      (blockedSubtransaction.stop ["b", "a", "c"]).1 = blockedSubtransaction) ∧
    blockedWorld.FailedStop [.stopNext ["b", "a", "c"]] ∧
      Along step SparesVoters blockedWorld [.stopNext ["b", "a", "c"]] := by
  have iff := stop_all_or_nothing_iff blockedSubtransaction ["b", "a", "c"] blockedWorld
    [.stopNext ["b", "a", "c"]]
  have visits : ["b", "a", "c"].Perm blockedSubtransaction.votersByNode.keys := by decide +kernel
  have failed : (blockedSubtransaction.stop ["b", "a", "c"]).2 ≠ none := by decide +kernel
  have failing : blockedWorld.FailedStop [.stopNext ["b", "a", "c"]] :=
    ⟨by decide +kernel, ⟨⟨0, by decide +kernel⟩, fun _ _ => trivial⟩, by decide +kernel, [], _, rfl⟩
  exact ⟨⟨visits, failed, (iff.1 visits failed).mpr (by decide +kernel)⟩, failing,
    (iff.2 failing).mpr (by decide +kernel)⟩

/-- The results of all voters, by subtransaction, and the lock. -/
def World.summary (world : World) : List (List (String × VoteResult)) × Lock :=
  (world.transaction.subtransactions.map state, world.lock)

/-- The first `stop` fails at `b` and has stopped `a` on its way. The second one fails in
the second subtransaction and has stopped `c` in the first one. -/
theorem failed_stop_changes :
    newTransaction 1 trio.voters 2 = .ok trio ∧
      (exec step trio.world withdrawnRun).map summary =
        some ([[("a", .undecided), ("b", .canceled), ("c", .undecided)]], .free) ∧
      (exec step trio.world withdrawnRun).map (fun world =>
          world.transaction.subtransactions.map (fun subtransaction =>
            ((subtransaction.stop ["a", "b", "c"]).2,
              (subtransaction.stop ["a", "b", "c"]).1.state))) =
        some [(some .transactionCanceled, [("a", .stopped), ("b", .canceled), ("c", .undecided)])] ∧
      (exec step trio.world (secondWithdrawnRun ++ [.stop])).map summary =
        some ([[("a", .committed), ("b", .committed), ("c", .undecided)],
          [("a", .undecided), ("b", .canceled), ("c", .undecided)]], .stopping 0) ∧
      (exec step trio.world (secondWithdrawnRun ++
          [.stop, .stopNext ["a", "b", "c"], .stopNext ["b", "a", "c"]])).map summary =
        some ([[("a", .committed), ("b", .committed), ("c", .stopped)],
          [("a", .undecided), ("b", .canceled), ("c", .undecided)]], .free) :=
  ⟨rfl, by decide, by decide, by decide, by decide⟩

end Gitaly.Transactions
