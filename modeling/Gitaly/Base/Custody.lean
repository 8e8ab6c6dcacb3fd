import Gitaly.Base.Runs
import Mathlib.Data.List.Nodup

/- Resources that are in a store or with an agent. Each is in one place only: in the store once, or
with one agent. An agent holds at most one. -/
namespace Custody

open List

variable {ρ α : Type} [DecidableEq ρ] (holds : α → Option ρ)

/-- The number of agents that hold the resource. -/
def holders (agents : List α) (x : ρ) : Nat := agents.countP (fun agent => holds agent = some x)

def Sole (store : List ρ) (agents : List α) : Prop :=
  ∀ x, store.count x + holders holds agents x ≤ 1

variable {holds} {store : List ρ} {agents : List α} {agent old new : α} {index : Nat} {x : ρ}

theorem holders_pos (member : agent ∈ agents) (held : holds agent = some x) :
    0 < holders holds agents x :=
  countP_pos_iff.mpr ⟨agent, member, decide_eq_true held⟩

theorem holders_eq_zero (free : ∀ agent ∈ agents, holds agent ≠ some x) :
    holders holds agents x = 0 :=
  countP_eq_zero.mpr (fun agent member => by simpa using free agent member)

theorem holders_joined (agents : List α) (agent : α) (x : ρ) :
    holders holds (agents ++ [agent]) x =
      holders holds agents x + if holds agent = some x then 1 else 0 := by
  simp [holders, countP_append, countP_cons]

variable (holds) in
theorem holders_moved (found : agents[index]? = some old) (new : α) (x : ρ) :
    holders holds (agents.set index new) x + (if holds old = some x then 1 else 0) =
      holders holds agents x + if holds new = some x then 1 else 0 := by
  have moved := Runs.countP_moved (fun agent => decide (holds agent = some x)) new found
  simpa [holders] using moved

namespace Sole

section

variable (sole : Sole holds store agents)
include sole

theorem nodup : store.Nodup :=
  nodup_iff_count_le_one.mpr (fun x => Nat.le_trans (Nat.le_add_right _ _) (sole x))

theorem notMem (member : agent ∈ agents) (held : holds agent = some x) : x ∉ store := by
  intro stored
  have one := sole x
  have here := count_pos_iff.mpr stored
  have there := holders_pos member held
  omega

theorem unique {place other : Nat} (found : agents[place]? = some old)
    (there : agents[other]? = some new) (held : holds old = some x) (too : holds new = some x) :
    place = other := by
  have apart : agents.Pairwise (fun first second =>
      ¬ (holds first = some x ∧ holds second = some x)) := by
    have one : holders holds agents x ≤ 1 := Nat.le_trans (Nat.le_add_left _ _) (sole x)
    clear sole found there
    induction agents with
    | nil => exact List.Pairwise.nil
    | cons first rest ih =>
      simp only [holders, countP_cons] at one ih
      refine pairwise_cons.mpr ⟨?_, ih (by omega)⟩
      rintro second later ⟨here, there⟩
      have positive := holders_pos later there
      simp only [holders, here, decide_true, if_true] at one positive
      omega
  obtain ⟨inside, rfl⟩ := List.getElem?_eq_some_iff.mp found
  obtain ⟨insideToo, rfl⟩ := List.getElem?_eq_some_iff.mp there
  have disjoint := List.pairwise_iff_getElem.mp apart
  rcases Nat.lt_trichotomy place other with before | same | after
  · exact absurd ⟨held, too⟩ (disjoint place other inside insideToo before)
  · exact same
  · exact absurd ⟨too, held⟩ (disjoint other place insideToo inside after)

theorem shed {kept : List ρ} (sublist : kept.Sublist store) : Sole holds kept agents :=
  fun x => Nat.le_trans (Nat.add_le_add_right (sublist.count_le x) _) (sole x)

theorem join (free : holds agent = none) : Sole holds store (agents ++ [agent]) := by
  intro x
  rw [holders_joined, if_neg (by simp [free])]
  exact sole x

end

theorem checkout {before after : List ρ} (sole : Sole holds (before ++ x :: after) agents)
    (held : holds agent = some x) : Sole holds (before ++ after) (agents ++ [agent]) := by
  intro y
  have one := sole y
  rw [holders_joined, held]
  simp only [count_append, count_cons, beq_iff_eq, Option.some.injEq] at one ⊢
  omega

section

variable (sole : Sole holds store agents) (found : agents[index]? = some old)
include sole found

theorem keep (keeps : ∀ x, holds new = some x → holds old = some x) :
    Sole holds store (agents.set index new) := by
  intro y
  have one := sole y
  have moved := holders_moved holds found new y
  by_cases held : holds new = some y
  · rw [if_pos held, if_pos (keeps y held)] at moved
    omega
  · rw [if_neg held] at moved
    omega

theorem acquire (held : holds new = some x) (absent : x ∉ store)
    (free : ∀ agent ∈ agents, holds agent ≠ some x) :
    Sole holds store (agents.set index new) := by
  intro y
  have one := sole y
  have moved := holders_moved holds found new y
  rw [held] at moved
  by_cases same : x = y
  · subst same
    have nowhere := count_eq_zero.mpr absent
    have nobody := holders_eq_zero free
    rw [if_pos rfl] at moved
    omega
  · rw [if_neg (fun both => same (Option.some.inj both))] at moved
    omega

theorem put (held : holds old = some x) (gives : holds new = none) :
    Sole holds (store ++ [x]) (agents.set index new) := by
  intro y
  have one := sole y
  have moved := holders_moved holds found new y
  rw [held, gives] at moved
  simp only [count_append, count_singleton, beq_iff_eq, Option.some.injEq,
    reduceCtorEq, if_false] at moved ⊢
  omega

end

end Sole

end Custody
