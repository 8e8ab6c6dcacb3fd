import Mathlib.Data.List.Basic

/- Texts that are read field by field, each up to a delimiter, and record by record until a
record cannot be read. -/
namespace Records

open List

section fields

variable {α : Type} [DecidableEq α] {delim : α}

/-- The text before the first delimiter, and the one after it. -/
def cut (delim : α) : List α → Option (List α × List α)
  | [] => none
  | c :: text =>
    if c = delim then some ([], text)
    else (cut delim text).map (fun parts => (c :: parts.1, parts.2))

@[simp] theorem cut_nil : cut delim [] = none := rfl

theorem cut_append {field : List α} (plain : delim ∉ field) (rest : List α) :
    cut delim (field ++ delim :: rest) = some (field, rest) := by
  induction field with
  | nil => simp [cut]
  | cons c field ih =>
    simp only [mem_cons, not_or] at plain
    rw [cons_append, cut, if_neg (Ne.symm plain.1), ih plain.2]
    rfl

theorem cut_eq_none {text : List α} : cut delim text = none ↔ delim ∉ text := by
  induction text with
  | nil => simp
  | cons c text ih =>
    by_cases here : c = delim
    · simp [cut, here]
    · simp [cut, here, ih, Ne.symm here]

/-- A field that is cut off has lost its delimiter. -/
theorem cut_of_isPrefix {field part : List α} (plain : delim ∉ field) (cuts : part <+: field) :
    cut delim part = none :=
  cut_eq_none.mpr (fun inside => plain (cuts.subset inside))

omit [DecidableEq α] in
/-- A text that begins with a field and is cut off ends inside the field or after it. -/
theorem isPrefix_field {field rest part : List α} (cuts : part <+: field ++ delim :: rest) :
    part <+: field ∨ ∃ after, part = field ++ delim :: after ∧ after <+: rest := by
  rcases prefix_or_prefix_of_prefix cuts (prefix_append field _) with
    inside | ⟨after, rfl⟩
  · exact .inl inside
  rw [prefix_append_right_inj] at cuts
  cases after with
  | nil => exact .inl (by simp)
  | cons c after =>
    obtain ⟨rfl, shorter⟩ := cons_prefix_cons.mp cuts
    exact .inr ⟨after, rfl, shorter⟩

end fields

section streams

variable {α ι ρ ε : Type} {next : List α → Except ε (ρ × List α)} {render : ι → List α}

/-- The records of repeated calls until one fails, and its error. -/
def collect (next : List α → Except ε (ρ × List α)) : Nat → List α → List ρ × Option ε
  | 0, _ => ([], none)
  | fuel + 1, text =>
    match next text with
    | .error err => ([], some err)
    | .ok (record, rest) =>
      (record :: (collect next fuel rest).1, (collect next fuel rest).2)

theorem collect_error {text : List α} {err : ε} (fails : next text = .error err) (fuel : Nat) :
    collect next (fuel + 1) text = ([], some err) := by
  rw [collect, fails]

theorem collect_cons {text rest : List α} {record : ρ} (reads : next text = .ok (record, rest))
    (fuel : Nat) :
    collect next (fuel + 1) text =
      (record :: (collect next fuel rest).1, (collect next fuel rest).2) := by
  rw [collect, reads]

variable {items : List ι}

/-- Records that can be read whatever follows them are read one after the other. -/
theorem collect_flatMap {value : ι → ρ}
    (reads : ∀ item ∈ items, ∀ rest, next (render item ++ rest) = .ok (value item, rest))
    (fuel : Nat) (rest : List α) :
    collect next (fuel + items.length) (items.flatMap render ++ rest) =
      (items.map value ++ (collect next fuel rest).1, (collect next fuel rest).2) := by
  induction items with
  | nil => simp
  | cons item items ih =>
    have first := reads item mem_cons_self (items.flatMap render ++ rest)
    have others := ih (fun other member => reads other (mem_cons_of_mem _ member))
    rw [flatMap_cons, append_assoc, length_cons, ← Nat.add_assoc, collect_cons first, others]
    rfl

theorem length_le_flatMap (nonempty : ∀ item ∈ items, render item ≠ []) :
    items.length ≤ (items.flatMap render).length := by
  induction items with
  | nil => simp
  | cons item items ih =>
    rw [forall_mem_cons] at nonempty
    have first := length_pos_iff.mpr nonempty.1
    have others := ih nonempty.2
    rw [flatMap_cons, length_append, length_cons]
    omega

/-- A call for each byte is enough to come to what cannot be read. -/
theorem collect_whole {value : ι → ρ}
    (reads : ∀ item ∈ items, ∀ rest, next (render item ++ rest) = .ok (value item, rest))
    (nonempty : ∀ item ∈ items, render item ≠ []) {part : List α} {err : ε}
    (fails : next part = .error err) :
    collect next ((items.flatMap render ++ part).length + 1) (items.flatMap render ++ part) =
      (items.map value, some err) := by
  have enough := length_le_flatMap nonempty
  have split : (items.flatMap render ++ part).length + 1 =
      (items.flatMap render ++ part).length - items.length + 1 + items.length := by
    rw [length_append]
    omega
  rw [split, collect_flatMap reads, collect_error fails, append_nil]

/-- Where a text is cut off there are whole records before, and a part of the next one unless
the cut is between records. -/
theorem take_flatMap (render : ι → List α) (records : List ι) (k : Nat)
    (inside : k ≤ (records.flatMap render).length) :
    ∃ n part, n ≤ records.length ∧
      (records.flatMap render).take k = (records.take n).flatMap render ++ part ∧
      k = ((records.take n).flatMap render).length + part.length ∧
      (part = [] ∨ ∃ record, records[n]? = some record ∧ part <+: render record ∧
        part.length < (render record).length) := by
  induction records generalizing k with
  | nil => exact ⟨0, [], by simp, by simp, by simpa using inside, .inl rfl⟩
  | cons record records ih =>
    rw [flatMap_cons, length_append] at inside
    by_cases short : k < (render record).length
    · refine ⟨0, (render record).take k, by simp, ?_, ?_, .inr ⟨record, rfl, ?_, ?_⟩⟩
      · rw [flatMap_cons, take_append_of_le_length (by omega)]
        rfl
      · simp
        omega
      · exact take_prefix k _
      · rw [length_take]
        omega
    · obtain ⟨n, part, bound, text, length, kind⟩ := ih (k - (render record).length) (by omega)
      refine ⟨n + 1, part, by simpa using bound, ?_, ?_, kind⟩
      · rw [flatMap_cons, take_append, take_of_length_le (by omega), text]
        simp
      · simp only [take_succ_cons, flatMap_cons, length_append]
        omega

end streams

end Records
