import Mathlib.Data.List.ReduceOption

/- Queries over nullable columns: three-valued conditions, joins and window aggregates. A
relation is the list of its rows, so that duplicates count. -/
namespace Sql

open List

/-- A boolean of a query, which may be NULL. -/
abbrev Truth := Option Bool

namespace Truth

/-- Whether WHERE and ON keep a row: NULL counts as false. -/
def holds (truth : Truth) : Bool := truth.getD false

def conj : Truth → Truth → Truth
  | some false, _ => some false
  | _, some false => some false
  | some true, some true => some true
  | _, _ => none

def disj : Truth → Truth → Truth
  | some true, _ => some true
  | _, some true => some true
  | some false, some false => some false
  | _, _ => none

def neg (truth : Truth) : Truth := truth.map Bool.not

@[simp] theorem holds_some (value : Bool) : holds (some value) = value := rfl

@[simp] theorem holds_none : holds none = false := rfl

@[simp] theorem holds_conj (left right : Truth) :
    (conj left right).holds = (left.holds && right.holds) := by
  rcases left with _ | _ | _ <;> rcases right with _ | _ | _ <;> rfl

@[simp] theorem holds_disj (left right : Truth) :
    (disj left right).holds = (left.holds || right.holds) := by
  rcases left with _ | _ | _ <;> rcases right with _ | _ | _ <;> rfl

end Truth

section comparison

variable {α : Type} [DecidableEq α]

/-- A comparison with NULL is NULL. -/
def eq (left right : Option α) : Truth :=
  left.bind (fun first => right.map (fun second => decide (first = second)))

def ne (left right : Option α) : Truth := (eq left right).neg

variable (left : Option α)

/-- `left IN (values)` -/
def isIn (values : List (Option α)) : Truth :=
  values.foldr (fun value found => (eq left value).disj found) (some false)

def notIn (values : List (Option α)) : Truth := (isIn left values).neg

@[simp] theorem eq_some (left right : α) :
    eq (some left) (some right) = some (decide (left = right)) :=
  rfl

@[simp] theorem eq_none : eq left none = none := by cases left <;> rfl

@[simp] theorem ne_some (left right : α) :
    ne (some left) (some right) = some (decide (left ≠ right)) := by
  simp [ne, Truth.neg]

@[simp] theorem ne_none : ne left none = none := by simp [ne, Truth.neg]

theorem holds_eq {left right : Option α} :
    (eq left right).holds = true ↔ ∃ value, left = some value ∧ right = some value := by
  cases left with
  | none => simp [eq]
  | some first =>
    cases right with
    | none => simp
    | some second => simp [eq_comm]

theorem isIn_some (left : α) (values : List α) :
    isIn (some left) (values.map some) = some (decide (left ∈ values)) := by
  induction values with
  | nil => rfl
  | cons value rest ih =>
    unfold isIn at ih ⊢
    rw [map_cons, foldr_cons, ih, eq_some]
    by_cases same : left = value <;> by_cases member : left ∈ rest <;>
      simp [same, member, Truth.disj]

@[simp] theorem notIn_some (left : α) (values : List α) :
    notIn (some left) (values.map some) = some (decide (left ∉ values)) := by
  rw [notIn, isIn_some]
  simp [Truth.neg]

end comparison

section joins

variable {α β : Type} {on : α → β → Truth} {left : List α} {right : List β}

def join (on : α → β → Truth) (left : List α) (right : List β) : List (α × β) :=
  left.flatMap (fun row => (right.filter (fun other => (on row other).holds)).map (Prod.mk row))

theorem mem_join {row : α} {other : β} :
    (row, other) ∈ join on left right ↔
      row ∈ left ∧ other ∈ right ∧ (on row other).holds = true := by
  simp [join, mem_flatMap]

/-- A row without a match is joined with NULLs. -/
def leftJoin (on : α → β → Truth) (left : List α) (right : List β) : List (α × Option β) :=
  left.flatMap (fun row =>
    match right.filter (fun other => (on row other).holds) with
    | [] => [(row, none)]
    | matching => matching.map (fun other => (row, some other)))

theorem mem_leftJoin {row : α} {other : Option β} :
    (row, other) ∈ leftJoin on left right ↔ row ∈ left ∧
      match other with
      | none => ∀ candidate ∈ right, (on row candidate).holds = false
      | some other => other ∈ right ∧ (on row other).holds = true := by
  unfold leftJoin
  rw [mem_flatMap]
  constructor
  · intro found
    obtain ⟨joined, present, member⟩ := found
    split at member
    · rename_i unmatched
      cases mem_singleton.mp member
      refine ⟨present, fun candidate isRow => ?_⟩
      have excluded := filter_eq_nil_iff.mp unmatched candidate isRow
      exact (Bool.not_eq_true _).mp excluded
    · rename_i matched
      obtain ⟨chosen, isMatch, same⟩ := mem_map.mp member
      cases same
      exact ⟨present, mem_filter.mp isMatch⟩
  · intro found
    obtain ⟨present, matched⟩ := found
    refine ⟨row, present, ?_⟩
    cases other with
    | none =>
      rw [filter_eq_nil_iff.mpr (fun candidate isRow =>
        (Bool.not_eq_true _).mpr (matched candidate isRow))]
      exact mem_singleton.mpr rfl
    | some other =>
      have isMatch : other ∈ right.filter (fun other => (on row other).holds) :=
        mem_filter.mpr matched
      split
      · rename_i unmatched
        rw [unmatched] at isMatch
        cases isMatch
      · exact mem_map.mpr ⟨other, isMatch, rfl⟩

end joins

section windows

variable {α κ γ : Type} [DecidableEq κ]

/-- `bool_and`, which leaves NULLs out and is NULL without any other value. -/
def boolAnd (values : List Truth) : Truth :=
  match values.reduceOption with
  | [] => none
  | known => some (known.all id)

/-- `aggregate OVER (PARTITION BY key)`: NULLs of the key are in one partition. -/
def window (key : α → κ) (aggregate : List α → γ) (rows : List α) : List (α × γ) :=
  rows.map (fun row => (row, aggregate (rows.filter (fun other => key other = key row))))

theorem holds_boolAnd_some {values : List Bool} (nonempty : values ≠ []) :
    (boolAnd (values.map some)).holds = values.all id := by
  have known : (values.map some).reduceOption = values := by
    rw [List.reduceOption, filterMap_map]
    exact filterMap_some
  unfold boolAnd
  rw [known]
  cases values with
  | nil => exact absurd rfl nonempty
  | cons value rest => rfl

/-- Over its partition a row has at least its own value. -/
theorem holds_boolAnd_partition (key : α → κ) (value : α → Bool) {rows : List α} {row : α}
    (member : row ∈ rows) :
    (boolAnd ((rows.filter (fun other => key other = key row)).map
        (fun other => some (value other)))).holds = true ↔
      ∀ other ∈ rows, key other = key row → value other = true := by
  have partition : row ∈ rows.filter (fun other => key other = key row) :=
    mem_filter.mpr ⟨member, decide_eq_true rfl⟩
  have values := holds_boolAnd_some
    (ne_nil_of_mem (mem_map_of_mem (f := value) partition))
  rw [map_map] at values
  refine (Bool.eq_iff_iff.mp values).trans ?_
  simp only [all_map, all_filter, all_eq_true, Function.comp_apply, id_eq,
    Bool.or_eq_true, Bool.not_eq_true', decide_eq_false_iff_not, imp_iff_not_or]

end windows

end Sql
