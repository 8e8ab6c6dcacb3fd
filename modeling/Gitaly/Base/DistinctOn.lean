import Mathlib.Data.List.Nodup
import Mathlib.Data.List.Perm.Basic

/- `SELECT DISTINCT ON`: the first row for each key, in an order of the rows that the database
may choose. -/
namespace Sql

open List

variable {α κ : Type} [DecidableEq κ]

def distinctOn (key : α → κ) : List α → List α
  | [] => []
  | row :: rest => row :: (distinctOn key rest).filter (fun other => key other ≠ key row)

theorem mem_of_mem_distinctOn {key : α → κ} {rows : List α} {row : α}
    (member : row ∈ distinctOn key rows) : row ∈ rows := by
  induction rows with
  | nil => exact member
  | cons first rest ih =>
    rcases mem_cons.mp member with rfl | later
    · exact mem_cons_self
    · exact mem_cons_of_mem _ (ih (mem_filter.mp later).1)

theorem distinctOn_keys_nodup (key : α → κ) (rows : List α) :
    ((distinctOn key rows).map key).Nodup := by
  induction rows with
  | nil => exact nodup_nil
  | cons first rest ih =>
    unfold distinctOn
    rw [map_cons, nodup_cons]
    refine ⟨?_, ih.sublist (filter_sublist.map key)⟩
    intro again
    obtain ⟨other, member, same⟩ := mem_map.mp again
    exact of_decide_eq_true (mem_filter.mp member).2 same

theorem exists_mem_distinctOn {key : α → κ} {rows : List α} {row : α} (member : row ∈ rows) :
    ∃ chosen ∈ distinctOn key rows, key chosen = key row := by
  induction rows with
  | nil => cases member
  | cons first rest ih =>
    by_cases same : key first = key row
    · exact ⟨first, mem_cons_self, same⟩
    rcases mem_cons.mp member with rfl | later
    · exact absurd rfl same
    obtain ⟨chosen, selected, named⟩ := ih later
    refine ⟨chosen, mem_cons_of_mem _ (mem_filter.mpr ⟨selected, ?_⟩), named⟩
    rw [decide_eq_true_iff, named]
    exact fun again => same again.symm

/-- An order in which a query may come upon its rows. -/
structure Scan (α : Type) where
  order : List α → List α
  perm : ∀ rows, (order rows).Perm rows

namespace Scan

def forward : Scan α := ⟨id, fun _ => .refl _⟩

def distinctOn (scan : Scan α) (key : α → κ) (rows : List α) : List α :=
  Sql.distinctOn key (scan.order rows)

variable (scan : Scan α) {key : α → κ} {rows : List α}

theorem mem_of_mem_distinctOn {row : α} (member : row ∈ scan.distinctOn key rows) : row ∈ rows :=
  (scan.perm rows).mem_iff.mp (Sql.mem_of_mem_distinctOn member)

theorem distinctOn_keys_nodup : ((scan.distinctOn key rows).map key).Nodup :=
  Sql.distinctOn_keys_nodup key (scan.order rows)

theorem exists_mem_distinctOn {row : α} (member : row ∈ rows) :
    ∃ chosen ∈ scan.distinctOn key rows, key chosen = key row :=
  Sql.exists_mem_distinctOn ((scan.perm rows).mem_iff.mpr member)

theorem distinctOn_nil : scan.distinctOn key [] = [] := by
  unfold distinctOn
  rw [(scan.perm []).eq_nil]
  rfl

end Scan

end Sql
