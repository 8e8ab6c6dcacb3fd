import Mathlib.Data.List.Basic

/- Text as bytes, and its lines. -/
namespace Text

open List

abbrev Bytes := List UInt8

def ascii (text : String) : Bytes := text.toList.map (fun c => c.toNat.toUInt8)

def newline : UInt8 := 10

/-- Every line with the newline that ends it. -/
def unlines (lines : List Bytes) : Bytes := lines.flatMap (fun line => line ++ [newline])

/-- The lines with newlines between them. -/
def join (lines : List Bytes) : Bytes := [newline].intercalate lines

def splitLines (text : Bytes) : List Bytes := text.splitOn newline

/-- The first line, without its newline, and what comes after it. -/
def cutLine (text : Bytes) : Option (Bytes × Bytes) :=
  (text.idxOf? newline).map (fun i => (text.take i, text.drop (i + 1)))

/-- What comes before the first separator. -/
def upTo (separator : Bytes) : Bytes → Bytes
  | [] => []
  | c :: rest => if separator <+: c :: rest then [] else c :: upTo separator rest

theorem idxOf?_newline {line : Bytes} (plain : newline ∉ line) (after : Bytes) :
    (line ++ newline :: after).idxOf? newline = some line.length := by
  induction line with
  | nil => simp [idxOf?_cons]
  | cons c line ih =>
    obtain ⟨other, plain⟩ := not_or.mp (mt mem_cons.mpr plain)
    have different : (c == newline) = false := beq_eq_false_iff_ne.mpr (Ne.symm other)
    rw [cons_append, idxOf?_cons, different, ih plain]
    rfl

theorem cutLine_append {line : Bytes} (plain : newline ∉ line) (rest : Bytes) :
    cutLine (line ++ newline :: rest) = some (line, rest) := by
  simp [cutLine, idxOf?_newline plain]

/-- The first separator of a text that has one begins after this, and none before. -/
theorem upTo_first {separator : Bytes} (nonempty : separator ≠ []) {text : Bytes}
    (found : separator <:+: text) :
    ∃ after, text = upTo separator text ++ (separator ++ after) ∧
      ∀ before part, upTo separator text = before ++ part → part ≠ [] →
        ¬ separator <+: part ++ (separator ++ after) := by
  induction text with
  | nil => exact absurd (infix_nil.mp found) nonempty
  | cons c text ih =>
    by_cases here : separator <+: c :: text
    · obtain ⟨after, whole⟩ := here
      rw [upTo, if_pos ⟨after, whole⟩]
      refine ⟨after, whole.symm, fun before part same nonempty => ?_⟩
      exact absurd (append_eq_nil_iff.mp same.symm).2 nonempty
    · obtain ⟨after, whole, least⟩ := ih ((infix_cons_iff.mp found).resolve_left here)
      rw [upTo, if_neg here]
      refine ⟨after, congrArg (c :: ·) whole, fun before part same nonempty => ?_⟩
      cases before with
      | nil =>
        rw [← nil_append part, ← same, cons_append, ← whole]
        exact here
      | cons first before => exact least before part (List.cons.inj same).2 nonempty

variable {lines others : List Bytes}

@[simp] theorem unlines_nil : unlines [] = [] := rfl

@[simp] theorem unlines_cons (line : Bytes) (rest : List Bytes) :
    unlines (line :: rest) = line ++ newline :: unlines rest := by
  simp [unlines]

@[simp] theorem unlines_append (first second : List Bytes) :
    unlines (first ++ second) = unlines first ++ unlines second :=
  flatMap_append

theorem length_le_unlines (lines : List Bytes) : lines.length ≤ (unlines lines).length := by
  induction lines with
  | nil => exact Nat.le_refl _
  | cons line rest ih =>
    rw [unlines_cons, length_append, length_cons, length_cons]
    omega

theorem unlines_eq_nil : unlines lines = [] ↔ lines = [] := by cases lines <;> simp

theorem join_append_newline (nonempty : lines ≠ []) : join lines ++ [newline] = unlines lines := by
  induction lines with
  | nil => exact absurd rfl nonempty
  | cons line rest ih =>
    cases rest with
    | nil => simp [join]
    | cons next rest =>
      rw [unlines_cons, ← ih (cons_ne_nil _ _), join, join, intercalate_cons_cons]
      simp

theorem splitLines_join (plain : ∀ line ∈ lines, newline ∉ line) (nonempty : lines ≠ []) :
    splitLines (join lines) = lines :=
  splitOn_intercalate newline plain nonempty

theorem splitOn_cons (separator c : UInt8) (text : Bytes) :
    (c :: text).splitOn separator =
      if c = separator then [] :: text.splitOn separator
      else (text.splitOn separator).modifyHead (c :: ·) := by
  simp [List.splitOn, splitOnP_cons_eq_if_modifyHead]

/-- What comes after the last separator is the last field. -/
theorem splitOn_append {separator : UInt8} {last : Bytes} (plain : separator ∉ last)
    (text : Bytes) :
    (text ++ separator :: last).splitOn separator = text.splitOn separator ++ [last] := by
  induction text with
  | nil =>
    have single : last.splitOn separator = [last] := splitOnP_eq_singleton (fun _ member =>
      beq_eq_false_iff_ne.mpr (fun same => plain (same ▸ member)))
    rw [nil_append, splitOn_cons, if_pos rfl, single]
    simp
  | cons c text ih =>
    rw [cons_append, splitOn_cons, splitOn_cons, ih]
    split
    · rfl
    obtain ⟨first, rest, fields⟩ := exists_cons_of_ne_nil (splitOn_ne_nil separator text)
    rw [fields]
    rfl

theorem splitLines_cons (c : UInt8) (text : Bytes) :
    splitLines (c :: text) =
      if c = newline then [] :: splitLines text else (splitLines text).modifyHead (c :: ·) :=
  splitOn_cons newline c text

theorem splitLines_ne_nil (text : Bytes) : splitLines text ≠ [] := splitOn_ne_nil newline text

theorem splitLines_plain {text : Bytes} (plain : newline ∉ text) : splitLines text = [text] :=
  splitOnP_eq_singleton (fun _ member => beq_eq_false_iff_ne.mpr (fun same =>
    plain (same ▸ member)))

theorem notMem_splitOn (separator : UInt8) (text : Bytes) :
    ∀ field ∈ text.splitOn separator, separator ∉ field := by
  induction text with
  | nil => simp
  | cons c text ih =>
    rw [splitOn_cons]
    split
    · exact forall_mem_cons.mpr ⟨not_mem_nil, ih⟩
    rename_i other
    obtain ⟨first, rest, fields⟩ := exists_cons_of_ne_nil (splitOn_ne_nil separator text)
    rw [fields] at ih ⊢
    obtain ⟨plain, plains⟩ := forall_mem_cons.mp ih
    exact forall_mem_cons.mpr ⟨not_mem_cons_of_ne_of_not_mem (Ne.symm other) plain, plains⟩

theorem newline_notMem_splitLines (text : Bytes) : ∀ line ∈ splitLines text, newline ∉ line :=
  notMem_splitOn newline text

theorem unlines_splitLines (text : Bytes) : unlines (splitLines text) = text ++ [newline] := by
  rw [← join_append_newline (splitLines_ne_nil text)]
  exact congrArg (· ++ [newline]) (intercalate_splitOn newline)

theorem unlines_flatMap_splitLines (texts : List Bytes) :
    unlines (texts.flatMap splitLines) = unlines texts := by
  induction texts with
  | nil => rfl
  | cons text rest ih =>
    rw [flatMap_cons, unlines_append, unlines_splitLines, ih, unlines_cons]
    simp

theorem flatMap_splitLines_plain {texts : List Bytes} (plain : ∀ text ∈ texts, newline ∉ text) :
    texts.flatMap splitLines = texts := by
  induction texts with
  | nil => rfl
  | cons text rest ih =>
    obtain ⟨first, others⟩ := forall_mem_cons.mp plain
    rw [flatMap_cons, splitLines_plain first, ih others]
    rfl

theorem newline_notMem_flatMap_splitLines (texts : List Bytes) :
    ∀ line ∈ texts.flatMap splitLines, newline ∉ line := by
  intro line member
  obtain ⟨text, _, inside⟩ := mem_flatMap.mp member
  exact newline_notMem_splitLines text line inside

theorem splitLines_append {first : Bytes} (plain : newline ∉ first) (second : Bytes) :
    splitLines (first ++ second) = (splitLines second).modifyHead (first ++ ·) := by
  induction first with
  | nil =>
    rw [nil_append]
    cases splitLines second <;> rfl
  | cons c first ih =>
    obtain ⟨other, plain⟩ := not_or.mp (mt mem_cons.mpr plain)
    rw [cons_append, splitLines_cons, if_neg (Ne.symm other), ih plain]
    cases splitLines second <;> rfl

theorem newline_suffix_unlines : [newline] <:+ unlines lines ↔ lines ≠ [] := by
  constructor
  · rintro ends rfl
    exact absurd ends (by decide)
  · intro nonempty
    exact ⟨join lines, join_append_newline nonempty⟩

section plain

variable (plain : ∀ line ∈ lines, newline ∉ line) (plains : ∀ line ∈ others, newline ∉ line)
include plain plains

theorem unlines_inj (same : unlines lines = unlines others) : lines = others := by
  cases lines with
  | nil => exact (unlines_eq_nil.mp same.symm).symm
  | cons line rest =>
    have nonempty : others ≠ [] := by
      rintro rfl
      cases unlines_eq_nil.mp same
    rw [← join_append_newline (cons_ne_nil _ _), ← join_append_newline nonempty] at same
    rw [← splitLines_join plain (cons_ne_nil _ _), ← splitLines_join plains nonempty,
      append_cancel_right same]

/-- Joined lines with a newline after them are these lines, but an empty line stands for
no lines. -/
theorem join_newline_inj (same : join lines ++ [newline] = unlines others) :
    lines = others ∨ lines = [] ∧ others = [[]] := by
  cases lines with
  | nil =>
    have single : unlines [[]] = unlines others := same
    exact .inr ⟨rfl, (unlines_inj (by simp) plains single).symm⟩
  | cons line rest =>
    rw [join_append_newline (cons_ne_nil _ _)] at same
    exact .inl (unlines_inj plain plains same)

/-- Joined lines with no newline after them end in an empty line. -/
theorem join_inj (same : join lines = unlines others) :
    lines = others ++ [[]] ∨ lines = [] ∧ others = [] := by
  have ended : join lines ++ [newline] = unlines (others ++ [[]]) := by
    rw [same, unlines_append]
    rfl
  have plains : ∀ line ∈ others ++ [[]], newline ∉ line := forall_mem_append.mpr ⟨plains, by simp⟩
  rcases join_newline_inj plain plains ended with same | ⟨nothing, single⟩
  · exact .inl same
  · exact .inr ⟨nothing, by simpa using single⟩

end plain

end Text
