import Mathlib.Data.List.Basic
import Mathlib.Data.List.Nodup

/-- Rows with pairwise different keys: a map from keys to rows in some fixed
order, or a relational table with its primary key. -/
@[ext] structure KeyedTable (ρ κ : Type) (key : ρ → κ) where
  rows : List ρ
  unique : (rows.map key).Nodup
  deriving DecidableEq

namespace KeyedTable

open List

variable {ρ κ : Type} {key : ρ → κ}

instance : Membership ρ (KeyedTable ρ κ key) := ⟨fun table row => row ∈ table.rows⟩

variable {table : KeyedTable ρ κ key} {row : ρ}

theorem mem_iff : row ∈ table ↔ row ∈ table.rows := Iff.rfl

def empty : KeyedTable ρ κ key := ⟨[], nodup_nil⟩

def keys (table : KeyedTable ρ κ key) : List κ := table.rows.map key

theorem key_mem_keys (member : row ∈ table) : key row ∈ table.keys := mem_map_of_mem member

variable {k : κ}

theorem mem_keys : k ∈ table.keys ↔ ∃ row ∈ table, key row = k := mem_map

theorem eq_of_key {first second : ρ} (left : first ∈ table) (right : second ∈ table)
    (same : key first = key second) : first = second :=
  inj_on_of_nodup_map table.unique left right same

theorem rows_nodup (table : KeyedTable ρ κ key) : table.rows.Nodup := table.unique.of_map

theorem filter_eq_singleton {chosen : ρ → Bool} (member : row ∈ table)
    (isChosen : chosen row = true) (only : ∀ other ∈ table, chosen other = true → other = row) :
    table.rows.filter chosen = [row] := by
  have selected : row ∈ table.rows.filter chosen := mem_filter.mpr ⟨member, isChosen⟩
  have alone : ∀ other ∈ table.rows.filter chosen, other = row := by
    intro other found
    obtain ⟨present, passes⟩ := mem_filter.mp found
    exact only other present passes
  have distinct := table.rows_nodup.filter chosen
  match rows : table.rows.filter chosen with
  | [] => exact absurd (rows ▸ selected) not_mem_nil
  | [first] => rw [alone first (rows ▸ mem_cons_self)]
  | first :: second :: rest =>
    rw [rows] at alone distinct
    have same : first = second :=
      (alone first mem_cons_self).trans
        (alone second (mem_cons_of_mem _ mem_cons_self)).symm
    exact absurd (same ▸ mem_cons_self) (nodup_cons.mp distinct).1

theorem key_mem_map {named : List ρ} (sub : ∀ row ∈ named, row ∈ table) (present : row ∈ table) :
    key row ∈ named.map key ↔ row ∈ named := by
  constructor
  · intro member
    obtain ⟨other, isNamed, same⟩ := mem_map.mp member
    exact eq_of_key (sub other isNamed) present same ▸ isNamed
  · exact mem_map_of_mem

/-- Replaces every row; the replacement may not touch the key. -/
def update (table : KeyedTable ρ κ key) (change : ρ → ρ)
    (keep : ∀ row, key (change row) = key row) : KeyedTable ρ κ key where
  rows := table.rows.map change
  unique := by
    have same : (table.rows.map change).map key = table.rows.map key := by
      rw [map_map]
      exact map_congr_left (fun row _ => keep row)
    rw [same]
    exact table.unique

section update

variable (table : KeyedTable ρ κ key) (change : ρ → ρ) (keep : ∀ row, key (change row) = key row)

@[simp] theorem update_rows : (table.update change keep).rows = table.rows.map change := rfl

@[simp] theorem update_keys : (table.update change keep).keys = table.keys := by
  simp only [keys, update_rows, map_map]
  exact map_congr_left (fun row _ => keep row)

theorem update_update (again : ρ → ρ) (keepAgain : ∀ row, key (again row) = key row) :
    (table.update change keep).update again keepAgain =
      table.update (fun row => again (change row))
        (fun row => (keepAgain (change row)).trans (keep row)) := by
  ext1
  simp only [update_rows, map_map, Function.comp_def]

theorem update_congr {again : ρ → ρ} {keepAgain : ∀ row, key (again row) = key row}
    (same : ∀ row ∈ table, change row = again row) :
    table.update change keep = table.update again keepAgain := by
  ext1
  exact map_congr_left same

theorem update_id (same : ∀ row ∈ table, change row = row) : table.update change keep = table := by
  ext1
  rw [update_rows, map_congr_left same, map_id']

theorem mem_update {row : ρ} :
    row ∈ table.update change keep ↔ ∃ old ∈ table, change old = row := mem_map

theorem change_mem_update {row : ρ} (member : row ∈ table) :
    change row ∈ table.update change keep := mem_map_of_mem member

end update

/-- Replaces the rows that satisfy the predicate. -/
def updateWhere (table : KeyedTable ρ κ key) (chosen : ρ → Bool) (change : ρ → ρ)
    (keep : ∀ row, key (change row) = key row) : KeyedTable ρ κ key :=
  table.update (fun row => if chosen row then change row else row) (fun row => by
    split
    · exact keep row
    · rfl)

section updateWhere

variable {chosen : ρ → Bool} {change : ρ → ρ}
  {keep : ∀ row, key (change row) = key row}

@[simp] theorem updateWhere_keys : (table.updateWhere chosen change keep).keys = table.keys :=
  update_keys _ _ _

theorem mem_updateWhere {row : ρ} :
    row ∈ table.updateWhere chosen change keep ↔
      ∃ old ∈ table, (if chosen old then change old else old) = row := mem_map

end updateWhere

/-- Removes the rows that satisfy the predicate. -/
def delete (table : KeyedTable ρ κ key) (doomed : ρ → Bool) : KeyedTable ρ κ key where
  rows := table.rows.filter (fun row => !doomed row)
  unique := table.unique.sublist (filter_sublist.map key)

theorem mem_delete (table : KeyedTable ρ κ key) (doomed : ρ → Bool) :
    row ∈ table.delete doomed ↔ row ∈ table ∧ doomed row = false := by
  change row ∈ table.rows.filter _ ↔ row ∈ table.rows ∧ _
  rw [mem_filter, Bool.not_eq_true']

/-- Appends a row whose key is not taken. -/
def insert (table : KeyedTable ρ κ key) (row : ρ) (fresh : key row ∉ table.keys) :
    KeyedTable ρ κ key where
  rows := table.rows ++ [row]
  unique := by
    rw [map_append, nodup_append]
    refine ⟨table.unique, by simp, ?_⟩
    intro left member right single same
    rw [map_singleton, mem_singleton] at single
    rw [same, single] at member
    exact fresh member

@[simp] theorem insert_rows (table : KeyedTable ρ κ key) (row : ρ)
    (fresh : key row ∉ table.keys) : (table.insert row fresh).rows = table.rows ++ [row] := rfl

theorem mem_insert (table : KeyedTable ρ κ key) (row : ρ) (fresh : key row ∉ table.keys)
    {other : ρ} : other ∈ table.insert row fresh ↔ other ∈ table ∨ other = row := by
  change other ∈ table.rows ++ [row] ↔ _
  rw [mem_append, mem_singleton]
  exact Iff.rfl

variable [DecidableEq κ]

def find (table : KeyedTable ρ κ key) (k : κ) : Option ρ :=
  table.rows.find? (fun row => key row = k)

theorem find_eq_some : table.find k = some row ↔ row ∈ table ∧ key row = k := by
  constructor
  · intro found
    exact ⟨mem_of_find?_eq_some found, by simpa using find?_some found⟩
  · rintro ⟨member, same⟩
    cases found : table.find k with
    | none =>
      have absent := find?_eq_none.mp found row member
      simp [same] at absent
    | some other =>
      have otherKey : key other = k := by simpa using find?_some found
      rw [eq_of_key (mem_of_find?_eq_some found) member (otherKey.trans same.symm)]

theorem find_key (member : row ∈ table) :
    table.find (key row) = some row := find_eq_some.mpr ⟨member, rfl⟩

theorem find_eq_none : table.find k = none ↔ k ∉ table.keys := by
  rw [mem_keys, find, find?_eq_none]
  simp only [decide_eq_true_eq, not_exists, not_and]
  exact Iff.rfl

theorem find_isSome : (table.find k).isSome = true ↔ k ∈ table.keys := by
  rw [Option.isSome_iff_ne_none, ne_eq, find_eq_none, not_not]

section

variable (table : KeyedTable ρ κ key)

@[simp] theorem find_update (change : ρ → ρ) (keep : ∀ row, key (change row) = key row) (k : κ) :
    (table.update change keep).find k = (table.find k).map change := by
  simp only [find, update_rows, find?_map, Function.comp_def, keep]

theorem find_updateWhere (chosen : ρ → Bool) (change : ρ → ρ)
    (keep : ∀ row, key (change row) = key row) (k : κ) :
    (table.updateWhere chosen change keep).find k =
      (table.find k).map (fun row => if chosen row then change row else row) := find_update _ _ _ _

theorem find_delete (doomed : ρ → Bool) (k : κ) :
    (table.delete doomed).find k = (table.find k).filter (fun row => !doomed row) := by
  have kept : ∀ row, (table.delete doomed).find k = some row ↔
      table.find k = some row ∧ doomed row = false := by
    intro row
    rw [find_eq_some, find_eq_some, mem_delete]
    exact and_right_comm
  ext row
  rw [kept row, Option.filter_eq_some_iff, Bool.not_eq_true']

theorem key_notMem_delete (k : κ) : k ∉ (table.delete (fun other => key other = k)).keys := by
  intro present
  obtain ⟨other, member, same⟩ := mem_keys.mp present
  exact of_decide_eq_false ((mem_delete table _).mp member).2 same

/-- The row replaces the one with its key. -/
def put (table : KeyedTable ρ κ key) (row : ρ) : KeyedTable ρ κ key :=
  (table.delete (fun other => key other = key row)).insert row (table.key_notMem_delete (key row))

theorem mem_put (row : ρ) {other : ρ} :
    other ∈ table.put row ↔ other ∈ table ∧ key other ≠ key row ∨ other = row := by
  rw [put, mem_insert, mem_delete, decide_eq_false_iff_not]

end

/-- Changing the row that has one key, and no other row. -/
def changeAt (key : ρ → κ) (k : κ) (change : ρ → ρ) (row : ρ) : ρ :=
  if key row = k then change row else row

theorem changeAt_eq (change : ρ → ρ) (named : key row = k) :
    changeAt key k change row = change row := if_pos named

theorem changeAt_ne (change : ρ → ρ) (different : key row ≠ k) :
    changeAt key k change row = row := if_neg different

theorem changeAt_keep {change : ρ → ρ} (keep : ∀ row, key (change row) = key row) (row : ρ) :
    key (changeAt key k change row) = key row := by
  unfold changeAt
  split
  · exact keep row
  · rfl

def modify (table : KeyedTable ρ κ key) (k : κ) (change : ρ → ρ)
    (keep : ∀ row, key (change row) = key row) : KeyedTable ρ κ key :=
  table.update (changeAt key k change) (changeAt_keep keep)

section

variable (table : KeyedTable ρ κ key)

@[simp] theorem modify_keys (k : κ) (change : ρ → ρ) (keep : ∀ row, key (change row) = key row) :
    (table.modify k change keep).keys = table.keys := update_keys _ _ _

theorem update_modify (k : κ) (change again : ρ → ρ) (keep : ∀ row, key (change row) = key row)
    (keepAgain : ∀ row, key (again row) = key row) :
    (table.modify k change keep).update again keepAgain =
      table.update (fun row => again (changeAt key k change row))
        (fun row => (keepAgain _).trans (changeAt_keep keep row)) := update_update _ _ _ _ _

theorem mem_modify_of_ne (change : ρ → ρ) (keep : ∀ row, key (change row) = key row)
    (different : key row ≠ k) :
    row ∈ table.modify k change keep ↔ row ∈ table := by
  constructor
  · intro changed
    obtain ⟨old, present, same⟩ := (mem_update _ _ _).mp changed
    by_cases named : key old = k
    · rw [← same, changeAt_keep keep] at different
      exact absurd named different
    · rw [changeAt_ne change named] at same
      exact same ▸ present
  · intro present
    exact (mem_update _ _ _).mpr ⟨row, present, changeAt_ne change different⟩

theorem mem_modify (member : row ∈ table) (change : ρ → ρ)
    (keep : ∀ row, key (change row) = key row) {other : ρ} :
    other ∈ table.modify (key row) change keep ↔
      other = change row ∨ other ∈ table ∧ key other ≠ key row := by
  constructor
  · intro changed
    by_cases named : key other = key row
    · obtain ⟨old, present, same⟩ := (mem_update _ _ (changeAt_keep keep)).mp changed
      rw [← same, changeAt_keep keep] at named
      rw [changeAt_eq change named, eq_of_key present member named] at same
      exact .inl same.symm
    · exact .inr ⟨(mem_modify_of_ne table change keep named).mp changed, named⟩
  · intro cases
    rcases cases with rfl | ⟨present, different⟩
    · exact (mem_update _ _ (changeAt_keep keep)).mpr ⟨row, member, changeAt_eq change rfl⟩
    · exact (mem_modify_of_ne table change keep different).mpr present

theorem find_modify (k other : κ) (change : ρ → ρ) (keep : ∀ row, key (change row) = key row) :
    (table.modify k change keep).find other =
      if other = k then (table.find k).map change else table.find other := by
  rw [modify, find_update]
  cases found : table.find other with
  | none =>
    split
    · rename_i same
      subst other
      rw [found]
      rfl
    · rfl
  | some row =>
    have rowKey := (find_eq_some.mp found).2
    split
    · rename_i same
      rw [← same, found, Option.map_some, changeAt_eq change rowKey]
      rfl
    · rename_i different
      rw [Option.map_some, changeAt_ne change (rowKey ▸ different)]

end

/-- Appends the rows one by one, unless the key of one of them is taken by then. -/
def insertAll (table : KeyedTable ρ κ key) : List ρ → Option (KeyedTable ρ κ key)
  | [] => some table
  | row :: rest =>
    if fresh : key row ∉ table.keys then (table.insert row fresh).insertAll rest else none

variable {rows : List ρ} {after : KeyedTable ρ κ key}

theorem insertAll_rows
    (inserted : table.insertAll rows = some after) : after.rows = table.rows ++ rows := by
  induction rows generalizing table with
  | nil =>
    cases inserted
    exact (append_nil _).symm
  | cons row rest ih =>
    unfold insertAll at inserted
    split at inserted
    · rw [ih inserted, insert_rows, append_assoc]
      rfl
    · cases inserted

theorem insertAll_isSome (distinct : (rows.map key).Nodup)
    (fresh : ∀ row ∈ rows, key row ∉ table.keys) :
    (table.insertAll rows).isSome = true := by
  induction rows generalizing table with
  | nil => rfl
  | cons row rest ih =>
    have headFresh := fresh row mem_cons_self
    rw [map_cons, nodup_cons] at distinct
    unfold insertAll
    rw [dif_pos headFresh]
    apply ih distinct.2
    intro other member taken
    obtain ⟨old, present, same⟩ := mem_keys.mp taken
    rcases (mem_insert table row headFresh).mp present with before | rfl
    · exact fresh other (mem_cons_of_mem _ member) (mem_keys.mpr ⟨old, before, same⟩)
    · exact distinct.1 (mem_map.mpr ⟨other, member, same.symm⟩)

theorem mem_insertAll (inserted : table.insertAll rows = some after) :
    row ∈ after ↔ row ∈ table ∨ row ∈ rows := by
  rw [mem_iff, insertAll_rows inserted, mem_append]
  exact Iff.rfl

theorem insertAll_fresh (inserted : table.insertAll rows = some after) (member : row ∈ rows) :
    key row ∉ table.keys := by
  have unique := after.unique
  rw [insertAll_rows inserted, map_append, nodup_append] at unique
  intro taken
  exact unique.2.2 _ taken _ (mem_map_of_mem member) rfl

theorem insertAll_isSome_iff (distinct : (rows.map key).Nodup) :
    (table.insertAll rows).isSome = true ↔ ∀ row ∈ rows, key row ∉ table.keys := by
  constructor
  · intro accepted row member
    obtain ⟨after, inserted⟩ := Option.isSome_iff_exists.mp accepted
    exact insertAll_fresh inserted member
  · exact insertAll_isSome distinct

/-- Replaces every row, keys included, unless two rows would then have the same key. -/
def rekey (table : KeyedTable ρ κ key) (change : ρ → ρ) : Option (KeyedTable ρ κ key) :=
  if unique : ((table.rows.map change).map key).Nodup then some ⟨table.rows.map change, unique⟩
  else none

theorem mem_rekey {change : ρ → ρ} (changed : table.rekey change = some after) :
    row ∈ after ↔ ∃ old ∈ table, change old = row := by
  unfold rekey at changed
  split at changed
  · cases changed
    exact mem_map
  · cases changed

/-- The rows that move can all move exactly if the places that they move to are free. -/
theorem rekey_isSome_iff (moved : κ → Prop) [DecidablePred moved] (place : κ → κ) {move : ρ → ρ}
    (moves : ∀ row, moved (key row) → key (move row) = place (key row))
    (away : ∀ k, moved k → ¬ moved (place k))
    (apart : ∀ k other, moved k → moved other → place k = place other → k = other) :
    (table.rekey (fun row => if moved (key row) then move row else row)).isSome = true ↔
      ∀ k ∈ table.keys, moved k → place k ∉ table.keys := by
  have changed : (table.rows.map (fun row => if moved (key row) then move row else row)).map key =
      table.keys.map (fun k => if moved k then place k else k) := by
    unfold keys
    rw [map_map, map_map]
    refine map_congr_left (fun row _ => ?_)
    dsimp only [Function.comp_apply]
    split
    · rename_i isMoved
      exact moves row isMoved
    · rfl
  have defined : ∀ change : ρ → ρ, (table.rekey change).isSome = true ↔
      ((table.rows.map change).map key).Nodup := by
    intro change
    unfold rekey
    split
    · rename_i unique
      exact iff_of_true rfl unique
    · rename_i clash
      exact iff_of_false Bool.false_ne_true clash
  have distinct : table.keys.Nodup := table.unique
  rw [defined, changed, nodup_map_iff_inj_on distinct]
  constructor
  · intro injective k present isMoved taken
    have same := injective k present (place k) taken
      (by rw [if_pos isMoved, if_neg (away k isMoved)])
    exact away k isMoved (same ▸ isMoved)
  · intro free k present other otherPresent same
    by_cases isMoved : moved k
    · rw [if_pos isMoved] at same
      by_cases otherMoved : moved other
      · rw [if_pos otherMoved] at same
        exact apart k other isMoved otherMoved same
      · rw [if_neg otherMoved] at same
        exact absurd (same ▸ otherPresent) (free k present isMoved)
    · rw [if_neg isMoved] at same
      by_cases otherMoved : moved other
      · rw [if_pos otherMoved] at same
        exact absurd (same ▸ present) (free other otherPresent otherMoved)
      · rw [if_neg otherMoved] at same
        exact same

section

variable {move : ρ → ρ} {source target : κ}
  (moves : ∀ row, key row = source → key (move row) = target)
include moves

theorem rekey_one_isSome_iff (different : target ≠ source) :
    (table.rekey (fun row => if key row = source then move row else row)).isSome = true ↔
      ¬ ((table.find source).isSome = true ∧ (table.find target).isSome = true) := by
  rw [rekey_isSome_iff (fun k => k = source) (fun _ => target) moves (fun _ _ => different)
    (fun _ _ isSource otherSource _ => isSource.trans otherSource.symm), find_isSome, find_isSome,
    not_and]
  constructor
  · intro free present
    exact free source present rfl
  · intro free k present same
    exact free (same ▸ present)

theorem find_rekey {table after : KeyedTable ρ κ key}
    (changed : table.rekey (fun row => if key row = source then move row else row) = some after)
    (k : κ) :
    after.find k =
      if k = target then ((table.find source).map move).or (table.find target)
      else if k = source then none else table.find k := by
  have rows : ∀ row, row ∈ after ↔ _ := fun _ => mem_rekey changed
  by_cases isTarget : k = target
  · subst isTarget
    rw [if_pos rfl]
    cases sourceRow : table.find source with
    | some row =>
      obtain ⟨member, same⟩ := find_eq_some.mp sourceRow
      exact find_eq_some.mpr ⟨(rows _).mpr ⟨row, member, if_pos same⟩, moves row same⟩
    | none =>
      have kept : ∀ row ∈ table, key row ≠ source := by
        intro row member same
        exact find_eq_none.mp sourceRow (mem_keys.mpr ⟨row, member, same⟩)
      rw [Option.map_none, Option.none_or]
      ext row
      rw [find_eq_some, find_eq_some, rows]
      refine and_congr_left (fun _ => ?_)
      constructor
      · intro found
        obtain ⟨old, member, same⟩ := found
        rw [if_neg (kept old member)] at same
        exact same ▸ member
      · intro member
        exact ⟨row, member, if_neg (kept row member)⟩
  · rw [if_neg isTarget]
    by_cases isSource : k = source
    · rw [if_pos isSource, find_eq_none, mem_keys]
      intro found
      obtain ⟨row, member, same⟩ := found
      obtain ⟨old, -, changedTo⟩ := (rows row).mp member
      split at changedTo
      · rename_i moved
        rw [← changedTo, moves old moved] at same
        exact isTarget same.symm
      · rename_i kept
        rw [changedTo, same] at kept
        exact kept isSource
    · rw [if_neg isSource]
      ext row
      rw [find_eq_some, find_eq_some, rows]
      refine and_congr_left (fun same => ?_)
      constructor
      · intro found
        obtain ⟨old, member, changedTo⟩ := found
        split at changedTo
        · rename_i moved
          rw [← changedTo, moves old moved] at same
          exact absurd same.symm isTarget
        · exact changedTo ▸ member
      · intro member
        exact ⟨row, member, if_neg (fun isKey => isSource (same.symm.trans isKey))⟩

end

/-- Inserts the row, or merges into the row that has its key already. -/
def upsert (table : KeyedTable ρ κ key) (row : ρ) (merge : ρ → ρ)
    (keep : ∀ row, key (merge row) = key row) : KeyedTable ρ κ key :=
  if fresh : key row ∉ table.keys then table.insert row fresh
  else table.modify (key row) merge keep

theorem mem_upsert_keep {keep : ∀ row, key ((fun row => row) row) = key row} {other : ρ} :
    other ∈ table.upsert row (fun row => row) keep ↔
      other ∈ table ∨ other = row ∧ key row ∉ table.keys := by
  unfold upsert
  split
  · rename_i fresh
    rw [mem_insert]
    simp only [fresh, not_false_eq_true, and_true]
  · rename_i taken
    have same : table.modify (key row) (fun row => row) keep = table := by
      apply update_id
      intro old _
      unfold changeAt
      split <;> rfl
    rw [same]
    exact ⟨.inl, fun cases => cases.elim (fun old => old) (fun new => absurd new.2 taken)⟩

theorem find_insert (table : KeyedTable ρ κ key) (row : ρ) (fresh : key row ∉ table.keys) (k : κ) :
    (table.insert row fresh).find k = if k = key row then some row else table.find k := by
  split
  · rename_i same
    exact find_eq_some.mpr ⟨(mem_insert _ _ fresh).mpr (.inr rfl), same.symm⟩
  rename_i different
  simp only [find, insert_rows, find?_append]
  have last : [row].find? (fun row => key row = k) = none := by
    simpa using fun same => different same.symm
  rw [last, Option.or_none]

section

variable (table : KeyedTable ρ κ key) (row : ρ) (merge : ρ → ρ)
  (keep : ∀ row, key (merge row) = key row)
include keep

theorem find_upsert (k : κ) :
    (table.upsert row merge keep).find k =
      if k = key row then some ((table.find k).elim row merge) else table.find k := by
  unfold upsert
  split
  · rename_i fresh
    rw [find_insert]
    split
    · rename_i same
      rw [same, find_eq_none.mpr fresh]
      rfl
    · rfl
  · rename_i taken
    rw [find_modify]
    split
    · rename_i same
      obtain ⟨old, member, oldKey⟩ := mem_keys.mp (not_not.mp taken)
      have found := find_eq_some.mpr ⟨member, oldKey⟩
      rw [same, found]
      rfl
    · rfl

theorem mem_keys_upsert :
    k ∈ (table.upsert row merge keep).keys ↔ k ∈ table.keys ∨ k = key row := by
  unfold upsert
  split
  · simp only [keys, insert_rows, map_append, map_singleton, mem_append, mem_singleton]
  rename_i taken
  rw [modify_keys]
  constructor
  · exact .inl
  · rintro (old | rfl)
    · exact old
    · exact not_not.mp taken

end

end KeyedTable
