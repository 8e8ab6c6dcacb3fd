import Mathlib.Data.Set.Basic

/- Keys that are leased to one holder at a time, for a set of jobs. A key is free again
when all the jobs it was leased for are finished. -/
namespace Leases

variable {κ ι η : Type}

structure Lease (ι η : Type) where
  holder : η
  jobs : Set ι
  nonempty : jobs.Nonempty

/-- The leases by key; a key without one is free. -/
abbrev Table (κ ι η : Type) := κ → Option (Lease ι η)

def free : Table κ ι η := fun _ => none

open Classical in
/-- Leases every key for which there are jobs. -/
noncomputable def grant (table : Table κ ι η) (holder : η) (jobs : κ → Set ι) : Table κ ι η :=
  fun k => if wanted : (jobs k).Nonempty then some ⟨holder, jobs k, wanted⟩ else table k

open Classical in
noncomputable def finish (table : Table κ ι η) (done : Set ι) : Table κ ι η :=
  fun k => (table k).bind (fun lease =>
    if left : (lease.jobs \ done).Nonempty then some ⟨lease.holder, lease.jobs \ done, left⟩
    else none)

/-- Only free keys are leased. -/
inductive Step : Table κ ι η → Table κ ι η → Prop
  | grant (table : Table κ ι η) (holder : η) (jobs : κ → Set ι)
      (available : ∀ k, (jobs k).Nonempty → table k = none) : Step table (grant table holder jobs)
  | finish (table : Table κ ι η) (done : Set ι) : Step table (finish table done)

/-- The entries list the jobs that a key is leased for, with the holder. -/
def Represents (entries : κ → ι → η → Prop) (table : Table κ ι η) : Prop :=
  ∀ k i h, entries k i h ↔ ∃ lease, table k = some lease ∧ i ∈ lease.jobs ∧ lease.holder = h

theorem represents_free : Represents (fun (_ : κ) (_ : ι) (_ : η) => False) free := by
  intro k i h
  constructor
  · exact False.elim
  · rintro ⟨lease, leased, -⟩
    cases leased

namespace Represents

variable {entries : κ → ι → η → Prop} {table : Table κ ι η} (represents : Represents entries table)

include represents

theorem congr {other : κ → ι → η → Prop} (same : ∀ k i h, other k i h ↔ entries k i h) :
    Represents other table := fun k i h => (same k i h).trans (represents k i h)

theorem holder_unique {k : κ} {first second : ι} {left right : η} (one : entries k first left)
    (other : entries k second right) : left = right := by
  obtain ⟨lease, leased, -, rfl⟩ := (represents k first left).mp one
  obtain ⟨again, leasedAgain, -, rfl⟩ := (represents k second right).mp other
  rw [leased] at leasedAgain
  cases leasedAgain
  rfl

theorem eq_none_iff {k : κ} : table k = none ↔ ∀ i h, ¬ entries k i h := by
  constructor
  · intro isFree i h entry
    obtain ⟨lease, leased, -⟩ := (represents k i h).mp entry
    rw [isFree] at leased
    cases leased
  · intro empty
    cases leased : table k with
    | none => rfl
    | some lease =>
      obtain ⟨job, member⟩ := lease.nonempty
      exact absurd ((represents k job lease.holder).mpr ⟨lease, leased, member, rfl⟩)
        (empty job lease.holder)

theorem grant {holder : η} {jobs : κ → Set ι}
    (available : ∀ k, (jobs k).Nonempty → table k = none) :
    Represents (fun k i h => entries k i h ∨ i ∈ jobs k ∧ h = holder)
      (Leases.grant table holder jobs) := by
  intro k i h
  by_cases wanted : (jobs k).Nonempty
  · have empty := (represents.eq_none_iff).mp (available k wanted)
    have granted : Leases.grant table holder jobs k = some ⟨holder, jobs k, wanted⟩ :=
      dif_pos wanted
    rw [granted]
    constructor
    · rintro (old | ⟨member, rfl⟩)
      · exact absurd old (empty i h)
      · exact ⟨_, rfl, member, rfl⟩
    · rintro ⟨lease, leased, member, rfl⟩
      cases leased
      exact .inr ⟨member, rfl⟩
  · have kept : Leases.grant table holder jobs k = table k := dif_neg wanted
    rw [kept, ← represents k i h]
    constructor
    · rintro (old | ⟨member, -⟩)
      · exact old
      · exact absurd ⟨i, member⟩ wanted
    · exact .inl

theorem finish (done : Set ι) :
    Represents (fun k i h => entries k i h ∧ i ∉ done) (Leases.finish table done) := by
  intro k i h
  dsimp only
  rw [represents k i h]
  unfold Leases.finish
  constructor
  · rintro ⟨⟨lease, leased, member, rfl⟩, unfinished⟩
    have left : (lease.jobs \ done).Nonempty := ⟨i, member, unfinished⟩
    exact ⟨⟨lease.holder, lease.jobs \ done, left⟩, by rw [leased, Option.bind_some, dif_pos left],
      ⟨member, unfinished⟩, rfl⟩
  · rintro ⟨lease, leased, member, rfl⟩
    obtain ⟨before, leasedBefore, outcome⟩ := Option.bind_eq_some_iff.mp leased
    split at outcome
    · cases outcome
      exact ⟨⟨before, leasedBefore, member.1, rfl⟩, member.2⟩
    · cases outcome

end Represents

end Leases
