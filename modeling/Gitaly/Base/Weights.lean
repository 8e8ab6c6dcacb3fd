import Gitaly.Base.KeyedTable
import Mathlib.Algebra.Order.BigOperators.Group.List
import Mathlib.Algebra.Order.Ring.Nat

namespace Weights

open List

open KeyedTable (changeAt changeAt_eq changeAt_ne)

variable {ρ : Type}

/-- Total weight of the rows that satisfy a predicate. -/
def weight (w : ρ → Nat) (p : ρ → Prop) [DecidablePred p] (rows : List ρ) : Nat :=
  (rows.map (fun row => if p row then w row else 0)).sum

section weight

variable (w : ρ → Nat) (p q : ρ → Prop) [DecidablePred p] [DecidablePred q]

@[simp] theorem weight_cons (row : ρ) (rows : List ρ) :
    weight w p (row :: rows) = (if p row then w row else 0) + weight w p rows := by
  simp only [weight, map_cons, sum_cons]

variable (rows : List ρ)

theorem weight_mono (imp : ∀ row ∈ rows, p row → q row) : weight w p rows ≤ weight w q rows := by
  apply sum_le_sum
  intro row member
  by_cases holds : p row
  · simp only [holds, imp row member holds, ↓reduceIte, Nat.le_refl]
  · simp only [holds, ↓reduceIte, Nat.zero_le]

theorem weight_congr (same : ∀ row ∈ rows, p row ↔ q row) : weight w p rows = weight w q rows :=
  Nat.le_antisymm (weight_mono w p q rows (fun row member => (same row member).mp))
    (weight_mono w q p rows (fun row member => (same row member).mpr))

theorem weight_eq_zero (none : ∀ row ∈ rows, ¬ p row) : weight w p rows = 0 := by
  rw [weight_congr w p (fun _ => False) rows (fun row member => iff_false_intro (none row member))]
  simp [weight]

theorem weight_add_le (apart : ∀ row ∈ rows, ¬ (p row ∧ q row)) :
    weight w p rows + weight w q rows ≤ weight w (fun _ => True) rows := by
  induction rows with
  | nil => exact Nat.le_refl 0
  | cons row rows ih =>
    have rest := ih (fun other member => apart other (mem_cons_of_mem _ member))
    have head := apart row mem_cons_self
    simp only [weight_cons, ↓reduceIte]
    by_cases left : p row
    · have right : ¬ q row := fun holds => head ⟨left, holds⟩
      simp only [left, right, ↓reduceIte]
      omega
    · simp only [left, ↓reduceIte]
      split <;> omega

theorem le_weight {rows : List ρ} {row : ρ} (member : row ∈ rows) (counted : p row) :
    w row ≤ weight w p rows := by
  apply le_sum_of_mem
  exact mem_map.mpr ⟨row, member, if_pos counted⟩

/-- A row that is not counted leaves room for its weight. -/
theorem weight_add_absent (row : ρ) (member : row ∈ rows) (absent : ¬ p row) :
    weight w p rows + w row ≤ weight w (fun _ => True) rows := by
  induction rows with
  | nil => cases member
  | cons head rows ih =>
    rw [weight_cons, weight_cons]
    have rest : weight w p rows ≤ weight w (fun _ => True) rows :=
      weight_mono w p _ rows (fun _ _ _ => trivial)
    simp only [↓reduceIte]
    rcases mem_cons.mp member with same | inside
    · rw [← same, if_neg absent]
      omega
    · have smaller := ih inside
      split <;> omega

theorem weight_map (change : ρ → ρ) (keep : ∀ row, w (change row) = w row) (rows : List ρ) :
    weight w p (rows.map change) = weight w (fun row => p (change row)) rows := by
  simp only [weight, map_map, Function.comp_def, keep]

/-- Two quorums above half of the total weight share a row. -/
theorem quorum_intersect (threshold : Nat)
    (majority : weight w (fun _ => True) rows < 2 * threshold)
    (left : threshold ≤ weight w p rows) (right : threshold ≤ weight w q rows) :
    ∃ row ∈ rows, p row ∧ q row := by
  by_contra disjoint
  have apart : ∀ row ∈ rows, ¬ (p row ∧ q row) :=
    fun row member both => disjoint ⟨row, member, both⟩
  have bound := weight_add_le w p q rows apart
  omega

end weight

theorem weight_add_row {κ : Type} (key : ρ → κ) (w : ρ → Nat) (p q : ρ → Prop)
    [DecidablePred p] [DecidablePred q] (rows : List ρ) (unique : (rows.map key).Nodup)
    (row : ρ) (member : row ∈ rows) (gained : q row) (before : ¬ p row)
    (same : ∀ other ∈ rows, key other ≠ key row → (q other ↔ p other)) :
    weight w q rows = weight w p rows + w row := by
  induction rows with
  | nil => cases member
  | cons head rows ih =>
    obtain ⟨fresh, rest⟩ := nodup_cons.mp unique
    rw [weight_cons, weight_cons]
    rcases mem_cons.mp member with rfl | inside
    · have unchanged : weight w q rows = weight w p rows := by
        apply weight_congr
        intro other present
        apply same other (mem_cons_of_mem _ present)
        intro equal
        exact fresh (equal ▸ mem_map_of_mem present)
      simp only [gained, before, ↓reduceIte, unchanged]
      omega
    · have different : key head ≠ key row := fun equal => fresh (equal ▸ mem_map_of_mem inside)
      have unchanged : weight w q rows = weight w p rows + w row :=
        ih rest inside (fun other present => same other (mem_cons_of_mem _ present))
      simp only [same head mem_cons_self different, unchanged]
      omega

theorem weight_map_same (w : ρ → Nat) (p : ρ → Prop) [DecidablePred p] (change : ρ → ρ)
    (keep : ∀ row, w (change row) = w row) (rows : List ρ)
    (same : ∀ row ∈ rows, p (change row) ↔ p row) :
    weight w p (rows.map change) = weight w p rows := by
  rw [weight_map w p change keep]
  exact weight_congr w _ p rows same

section changeAt

variable {κ : Type} [DecidableEq κ] {key : ρ → κ} {w : ρ → Nat} {p : ρ → Prop} [DecidablePred p]
  {change : ρ → ρ} (keep : ∀ row, w (change row) = w row) {rows : List ρ}
  (unique : (rows.map key).Nodup) {row : ρ} (member : row ∈ rows)

include keep

theorem changeAt_weight (k : κ) (other : ρ) : w (changeAt key k change other) = w other := by
  unfold changeAt
  split
  · exact keep other
  · rfl

include unique member

theorem weight_changeAt_same (same : p (change row) ↔ p row) :
    weight w p (rows.map (changeAt key (key row) change)) = weight w p rows := by
  apply weight_map_same w p _ (changeAt_weight keep (key row))
  intro other present
  by_cases named : key other = key row
  · rw [inj_on_of_nodup_map unique present member named, changeAt_eq change rfl]
    exact same
  · rw [changeAt_ne change named]

theorem weight_changeAt_gain (gained : p (change row)) (before : ¬ p row) :
    weight w p (rows.map (changeAt key (key row) change)) = weight w p rows + w row := by
  rw [weight_map w p _ (changeAt_weight keep (key row))]
  apply weight_add_row key w p _ rows unique row member
  · rw [changeAt_eq change rfl]
    exact gained
  · exact before
  · intro other _ different
    rw [changeAt_ne change different]

theorem weight_changeAt_loss (before : p row) (lost : ¬ p (change row)) :
    weight w p rows = weight w p (rows.map (changeAt key (key row) change)) + w row := by
  rw [weight_map w p _ (changeAt_weight keep (key row))]
  apply weight_add_row key w _ p rows unique row member
  · exact before
  · rw [changeAt_eq change rfl]
    exact lost
  · intro other _ different
    rw [changeAt_ne change different]

end changeAt

end Weights
