import Gitaly.Praefect.TransactionSteps

/- What `newTransaction` accepts, and how the subtransactions of a transaction stand
to a node, by their index. -/
namespace Gitaly.Transactions

open Weights List

def votesOf (voters : List Member) : Nat := (voters.map (fun voter => voter.votes.toNat)).sum

theorem votesOf_cons (voter : Member) (voters : List Member) :
    votesOf (voter :: voters) = voter.votes.toNat + votesOf voters := sum_cons

theorem weight_voters (voters : List Member) :
    weight Voter.weight (fun _ => True) (voters.map Member.voter) = votesOf voters := by
  simp only [weight, votesOf, ↓reduceIte, map_map, Function.comp_def, Voter.weight, Member.voter]

variable {voters : List Member} {votersByNode : List String} {start total : UInt64}

theorem totalVotes_toNat (summed : totalVotes voters votersByNode start = .ok total) :
    total.toNat = (start.toNat + votesOf voters) % 2 ^ 64 := by
  induction voters generalizing votersByNode start with
  | nil =>
    cases summed
    have small := total.toNat_lt
    have empty : votesOf [] = 0 := rfl
    omega
  | cons voter voters ih =>
    rw [totalVotes] at summed
    split at summed
    · cases summed
    rw [ih summed, votesOf_cons, UInt64.toNat_add]
    omega

theorem totalVotes_ok (accepted : totalVotes voters votersByNode start = .ok total) :
    (voters.map Member.name).Nodup ∧ (∀ voter ∈ voters, voter.name ∉ votersByNode) ∧
      (start.toNat + votesOf voters < 2 ^ 64 → total.toNat = start.toNat + votesOf voters) := by
  refine and_assoc.mp ⟨?_, fun fits => by rw [totalVotes_toNat accepted, Nat.mod_eq_of_lt fits]⟩
  induction voters generalizing votersByNode start with
  | nil => exact ⟨nodup_nil, fun _ absent => absurd absent not_mem_nil⟩
  | cons voter voters ih =>
    rw [totalVotes] at accepted
    split at accepted
    · cases accepted
    rename_i unseen
    obtain ⟨distinct, apart⟩ := ih accepted
    refine ⟨?_, ?_⟩
    · rw [map_cons, nodup_cons]
      refine ⟨?_, distinct⟩
      intro repeated
      obtain ⟨other, member, same⟩ := mem_map.mp repeated
      exact apart other member (same ▸ mem_cons_self)
    · intro other member
      rcases mem_cons.mp member with rfl | member
      · exact unseen
      · exact fun seen => apart other member (mem_cons_of_mem _ seen)

theorem exists_totalVotes (start : UInt64) (distinct : (voters.map Member.name).Nodup)
    (apart : ∀ voter ∈ voters, voter.name ∉ votersByNode) :
    ∃ total, totalVotes voters votersByNode start = .ok total := by
  induction voters generalizing votersByNode start with
  | nil => exact ⟨start, rfl⟩
  | cons voter voters ih =>
    obtain ⟨fresh, rest⟩ := nodup_cons.mp distinct
    rw [totalVotes, if_neg (apart voter mem_cons_self)]
    refine ih _ rest (fun other member => ?_)
    rw [mem_cons, not_or]
    exact ⟨fun same => fresh (same ▸ mem_map_of_mem member), apart other (mem_cons_of_mem _ member)⟩

namespace Transaction

/-- What `newTransaction` makes sure of, if the votes do not overflow. -/
structure Quorums (t : Transaction) : Prop where
  bounded : votesOf t.voters < 2 ^ 64
  reachable : t.threshold.toNat ≤ votesOf t.voters
  majority : votesOf t.voters < 2 * t.threshold.toNat

def Distinct (t : Transaction) : Prop := (t.voters.map Member.name).Nodup

end Transaction

section

variable {id threshold : UInt64} {t : Transaction}
  (accepted : newTransaction id voters threshold = .ok t)
include accepted

theorem newTransaction_ok :
    t = ⟨id, threshold, voters, .transactionOpen, []⟩ ∧ t.Distinct ∧
      (votesOf voters < 2 ^ 64 → t.Quorums) := by
  unfold newTransaction at accepted
  split at accepted
  · cases accepted
  split at accepted
  · cases accepted
  rename_i total summed
  obtain ⟨distinct, -, sum⟩ := totalVotes_ok summed
  split at accepted
  · cases accepted
  rename_i enough
  split at accepted
  · cases accepted
  rename_i unique
  cases accepted
  refine ⟨rfl, distinct, ?_⟩
  intro fits
  rw [UInt64.toNat_zero, Nat.zero_add] at sum
  have total := sum fits
  have two : (2 : UInt64).toNat = 2 := rfl
  rw [UInt64.lt_iff_toNat_lt] at enough
  rw [UInt64.le_iff_toNat_le, UInt64.toNat_mul, two] at unique
  refine ⟨fits, ?_, ?_⟩ <;> dsimp only <;> omega

end

/-- Thresholds above half of the votes are accepted, as far as their double does not
overflow. -/
theorem newTransaction_accepts (id : UInt64) {threshold : UInt64}
    (distinct : (voters.map Member.name).Nodup) (reachable : threshold.toNat ≤ votesOf voters)
    (majority : votesOf voters < 2 * threshold.toNat) (fits : 2 * threshold.toNat < 2 ^ 64) :
    newTransaction id voters threshold = .ok ⟨id, threshold, voters, .transactionOpen, []⟩ := by
  have some : voters.length ≠ 0 := by
    intro empty
    rw [length_eq_zero_iff.mp empty] at reachable majority
    have zero : votesOf [] = 0 := rfl
    omega
  obtain ⟨total, summed⟩ := exists_totalVotes 0 distinct (fun _ _ => not_mem_nil)
  have sum := totalVotes_toNat summed
  have two : (2 : UInt64).toNat = 2 := rfl
  rw [UInt64.toNat_zero] at sum
  unfold newTransaction
  simp only [some, ↓reduceIte, summed, UInt64.lt_iff_toNat_lt, UInt64.le_iff_toNat_le,
    UInt64.toNat_mul, two]
  rw [if_neg (by omega), if_neg (by omega)]

theorem voters_fresh (voters : List Member) :
    ∀ voter ∈ voters.map Member.voter, voter.vote = none ∧ voter.result = .undecided := by
  intro voter member
  obtain ⟨origin, -, same⟩ := mem_map.mp member
  subst same
  exact ⟨rfl, rfl⟩

theorem voters_distinct {t : Transaction} (distinct : t.Distinct) :
    ((t.voters.map Member.voter).map Voter.name).Nodup := by
  rw [map_map]
  exact distinct

namespace Transaction

section positions

variable {t : Transaction} {index : Nat} {sub next : Subtransaction}
  {op : Subtransaction.Op}

def CommittedAt (t : Transaction) (index : Nat) (node : String) : Prop :=
  ∃ subtransaction, t.subtransactions[index]? = some subtransaction ∧ subtransaction.Committed node

def CastAt (t : Transaction) (index : Nat) (node : String) : Prop :=
  ∃ subtransaction, t.subtransactions[index]? = some subtransaction ∧ subtransaction.Cast node

def SettledAt (t : Transaction) (index : Nat) : Prop :=
  ∀ subtransaction, t.subtransactions[index]? = some subtransaction → subtransaction.Settled

/-- The node has committed in every subtransaction before the index. -/
def Reached (t : Transaction) (index : Nat) (node : String) : Prop :=
  ∀ before < index, t.CommittedAt before node

theorem put_getElem? (found : t.subtransactions[index]? = some sub) (other : Nat) :
    (t.put index next).subtransactions[other]? =
      if index = other then some next else t.subtransactions[other]? := by
  have inside : index < t.subtransactions.length := (List.getElem?_eq_some_iff.mp found).1
  rw [put, getElem?_set]
  by_cases same : index = other
  · subst same
    simp only [↓reduceIte, inside]
  · simp only [same, ↓reduceIte]

theorem create_getElem? (t : Transaction) (other : Nat) :
    t.create.subtransactions[other]? =
      if other = t.subtransactions.length then
        some (newSubtransaction (t.voters.map Member.voter) t.threshold)
      else t.subtransactions[other]? := by
  rw [create, getElem?_append]
  split
  · rename_i inside
    rw [if_neg (Nat.ne_of_lt inside)]
  rename_i outside
  split
  · rename_i last
    rw [last, Nat.sub_self]
    rfl
  · rename_i beyond
    rw [getElem?_eq_none (by rw [length_singleton]; omega), getElem?_eq_none (by omega)]

/-- The voters of every subtransaction. -/
def electorates (t : Transaction) : List (KeyedTable Voter String Voter.name) :=
  t.subtransactions.map Subtransaction.votersByNode

theorem electorates_put (found : t.subtransactions[index]? = some sub)
    (same : next.votersByNode = sub.votersByNode) :
    (t.put index next).electorates = t.electorates := by
  unfold electorates
  apply ext_getElem?
  intro other
  rw [getElem?_map, getElem?_map, put_getElem? found]
  split
  · rename_i here
    rw [← here, found, Option.map_some, Option.map_some, same]
  · rfl

theorem electorates_put_iff (found : t.subtransactions[index]? = some sub) :
    (t.put index next).electorates = t.electorates ↔
      next.votersByNode = sub.votersByNode := by
  refine ⟨fun same => ?_, electorates_put found⟩
  have entry := congrArg (fun rows => rows[index]?) same
  simp only [electorates, getElem?_map, put_getElem? found, ↓reduceIte, found,
    Option.map_some, Option.some.injEq] at entry
  exact entry

theorem electorates_getElem? {other : Transaction} (same : t.electorates = other.electorates)
    (found : t.subtransactions[index]? = some sub) :
    ∃ counterpart, other.subtransactions[index]? = some counterpart ∧
      counterpart.votersByNode = sub.votersByNode := by
  have entry := congrArg (fun rows => rows[index]?) same
  simp only [electorates, getElem?_map, found, Option.map_some] at entry
  obtain ⟨counterpart, present, voters⟩ := Option.map_eq_some_iff.mp entry.symm
  exact ⟨counterpart, present, voters⟩

variable {node : String}

theorem committedAt_of_electorates {other : Transaction} (same : t.electorates = other.electorates)
    (committed : t.CommittedAt index node) : other.CommittedAt index node := by
  obtain ⟨sub, present, voter, member, named, isCommitted⟩ := committed
  obtain ⟨counterpart, found, voters⟩ := electorates_getElem? same present
  exact ⟨counterpart, found, voter, voters ▸ member, named, isCommitted⟩

section put

variable (found : t.subtransactions[index]? = some sub)
  (evolves : sub.Evolves op next)

include found evolves

theorem CommittedAt.put {other : Nat} {node : String} (committed : t.CommittedAt other node) :
    (t.put index next).CommittedAt other node := by
  obtain ⟨before, present, isCommitted⟩ := committed
  unfold CommittedAt
  rw [put_getElem? found]
  split
  · rename_i same
    rw [← same, found] at present
    cases present
    exact ⟨next, rfl, evolves.committed isCommitted⟩
  · exact ⟨before, present, isCommitted⟩

theorem SettledAt.put {other : Nat} (settled : t.SettledAt other) :
    (t.put index next).SettledAt other := by
  intro after present
  rw [put_getElem? found] at present
  split at present
  · rename_i same
    cases present
    exact evolves.settled (settled sub (same ▸ found))
  · exact settled after present

theorem settledAt_succ (settled : ∀ before < index, t.SettledAt before) (here : next.Settled) :
    ∀ before < index + 1, (t.put index next).SettledAt before := by
  intro before inside
  by_cases last : index = before
  · intro after present
    rw [put_getElem? found, if_pos last] at present
    cases present
    exact here
  · exact (settled before (by omega)).put found evolves

/-- Only the node that votes newly has a vote, and only where it votes. -/
theorem castAt_put {other : Nat} {node : String} (cast : (t.put index next).CastAt other node) :
    t.CastAt other node ∨ index = other ∧ ∃ vote order, op = .vote node vote order := by
  obtain ⟨after, present, isCast⟩ := cast
  rw [put_getElem? found] at present
  split at present
  · rename_i same
    cases present
    rcases evolves.cast isCast with before | voted
    · exact .inl ⟨sub, same ▸ found, before⟩
    · exact .inr ⟨same, voted⟩
  · exact .inl ⟨after, present, isCast⟩

end put

theorem settledAt_all (settled : ∀ before < t.subtransactions.length, t.SettledAt before)
    (index : Nat) : t.SettledAt index := by
  intro sub present
  exact settled index (List.getElem?_eq_some_iff.mp present).1 sub present

theorem CommittedAt.create {other : Nat} (committed : t.CommittedAt other node) :
    t.create.CommittedAt other node := by
  obtain ⟨before, present, isCommitted⟩ := committed
  have inside : other < t.subtransactions.length := (List.getElem?_eq_some_iff.mp present).1
  refine ⟨before, ?_, isCommitted⟩
  rw [create_getElem?, if_neg (Nat.ne_of_lt inside)]
  exact present

theorem castAt_create (distinct : t.Distinct) {other : Nat}
    (cast : t.create.CastAt other node) : t.CastAt other node := by
  obtain ⟨after, present, isCast⟩ := cast
  rw [create_getElem?] at present
  split at present
  · cases present
    exact absurd isCast
      (Subtransaction.newSubtransaction_cast (voters_distinct distinct) (voters_fresh _) node)
  · exact ⟨after, present, isCast⟩

end positions

end Transaction

end Gitaly.Transactions
