import Gitaly.Base.Records
import Gitaly.Base.Text
import Mathlib.Tactic.IntervalCases

/- The parser of internal/git/rawdiff for what git diff --raw -z prints. -/
namespace Gitaly.Rawdiff

open Text List

structure Diff where
  srcMode : Bytes
  dstMode : Bytes
  srcSHA : Bytes
  dstSHA : Bytes
  status : Bytes
  srcPath : Bytes
  dstPath : Bytes
deriving DecidableEq

inductive Error where
  | eof
  | expectedLeadingColon
  | readRawDiff
deriving DecidableEq

/-- What is read up to a delimiter, without it. An end of input is reported as another error. -/
def readStringChop (delim : UInt8) (r : Bytes) : Except Error (Bytes × Bytes) :=
  match Records.cut delim r with
  | some parts => .ok parts
  | none => .error .readRawDiff

/-- A copy or a rename. -/
def twoPaths (status : Bytes) : Bool := status.head? == some 67 || status.head? == some 82

/-- The diff and what is left of the input. -/
def NextDiff (r : Bytes) : Except Error (Diff × Bytes) :=
  match r with
  | [] => .error .eof
  | c :: r =>
    if c ≠ 58 then .error .expectedLeadingColon
    else do
      let (srcMode, r) ← readStringChop 32 r
      let (dstMode, r) ← readStringChop 32 r
      let (srcSHA, r) ← readStringChop 32 r
      let (dstSHA, r) ← readStringChop 32 r
      let (status, r) ← readStringChop 0 r
      let (srcPath, r) ← readStringChop 0 r
      if twoPaths status then
        let (dstPath, r) ← readStringChop 0 r
        return (⟨srcMode, dstMode, srcSHA, dstSHA, status, srcPath, dstPath⟩, r)
      else return (⟨srcMode, dstMode, srcSHA, dstSHA, status, srcPath, []⟩, r)

/-- The diffs of repeated calls until one returns an error, and this error. Every diff takes
something of the input. -/
def nextDiffs (r : Bytes) : List Diff × Option Error := Records.collect NextDiff (r.length + 1) r

/-- A diff that git can print: the fields have no delimiters, and there is a second path just
for a copy or a rename. -/
structure Diff.Printable (d : Diff) : Prop where
  fields : ∀ field ∈ [d.srcMode, d.dstMode, d.srcSHA, d.dstSHA], 32 ∉ field
  paths : ∀ field ∈ [d.status, d.srcPath, d.dstPath], 0 ∉ field
  second : twoPaths d.status = false → d.dstPath = []

/-- What git prints for a diff. -/
def Diff.print (d : Diff) : Bytes :=
  [58] ++ d.srcMode ++ [32] ++ d.dstMode ++ [32] ++ d.srcSHA ++ [32] ++ d.dstSHA ++ [32] ++
    d.status ++ [0] ++ d.srcPath ++ [0] ++ if twoPaths d.status then d.dstPath ++ [0] else []

variable {delim : UInt8}

theorem readStringChop_append {field : Bytes} (plain : delim ∉ field)
    (rest : Bytes) : readStringChop delim (field ++ delim :: rest) = .ok (field, rest) := by
  rw [readStringChop, Records.cut_append plain]

theorem readStringChop_isPrefix {field part : Bytes} (plain : delim ∉ field)
    (cuts : part <+: field) : readStringChop delim part = .error .readRawDiff := by
  rw [readStringChop, Records.cut_of_isPrefix plain cuts]

/-- Where the input ends in a field or in what is read after it, the call fails. -/
theorem readStringChop_short {β : Type} {field rest part : Bytes}
    {next : Bytes × Bytes → Except Error β} (plain : delim ∉ field)
    (cuts : part <+: field ++ delim :: rest) (short : part.length < (field ++ delim :: rest).length)
    (later : ∀ after, after <+: rest → after.length < rest.length →
      next (field, after) = .error .readRawDiff) :
    (readStringChop delim part >>= next) = .error .readRawDiff := by
  rcases Records.isPrefix_field cuts with inside | ⟨after, rfl, shorter⟩
  · rw [readStringChop_isPrefix plain inside]
    rfl
  rw [readStringChop_append plain]
  apply later after shorter
  simp only [length_append, length_cons] at short
  omega

variable {d : Diff}

theorem Diff.print_eq (d : Diff) : d.print =
    58 :: (d.srcMode ++ 32 :: (d.dstMode ++ 32 :: (d.srcSHA ++ 32 :: (d.dstSHA ++ 32 ::
      (d.status ++ 0 :: (d.srcPath ++ 0 ::
        if twoPaths d.status then d.dstPath ++ 0 :: [] else [])))))) := by
  simp [Diff.print]

theorem Diff.Printable.plain (printable : d.Printable) :
    (32 ∉ d.srcMode ∧ 32 ∉ d.dstMode ∧ 32 ∉ d.srcSHA ∧ 32 ∉ d.dstSHA) ∧
      0 ∉ d.status ∧ 0 ∉ d.srcPath ∧ 0 ∉ d.dstPath := by
  have fields := printable.fields
  have paths := printable.paths
  simp only [forall_mem_cons, not_mem_nil, false_imp_iff, implies_true, and_true]
    at fields paths
  exact ⟨fields, paths⟩

theorem NextDiff_print (printable : d.Printable) (rest : Bytes) :
    NextDiff (d.print ++ rest) = .ok (d, rest) := by
  obtain ⟨⟨plain1, plain2, plain3, plain4⟩, plain5, plain6, plain7⟩ := printable.plain
  have second := printable.second
  rw [Diff.print_eq]
  simp only [cons_append, append_assoc, NextDiff, ne_eq, not_true_eq_false, if_false]
  simp only [readStringChop_append plain1, readStringChop_append plain2,
    readStringChop_append plain3, readStringChop_append plain4, readStringChop_append plain5,
    readStringChop_append plain6, bind, Except.bind]
  by_cases two : twoPaths d.status = true
  · simp only [two, if_true, append_assoc, cons_append, nil_append, readStringChop_append plain7]
    rfl
  have single := second (by simpa using two)
  obtain ⟨srcMode, dstMode, srcSHA, dstSHA, status, srcPath, dstPath⟩ := d
  simp only at two single
  subst single
  simp only [two, if_false, Bool.false_eq_true]
  rfl

theorem NextDiff_short (printable : d.Printable) {part : Bytes} (begun : part ≠ [])
    (cuts : part <+: d.print) (short : part.length < d.print.length) :
    NextDiff part = .error .readRawDiff := by
  obtain ⟨⟨plain1, plain2, plain3, plain4⟩, plain5, plain6, plain7⟩ := printable.plain
  rw [Diff.print_eq] at cuts short
  cases part with
  | nil => exact absurd rfl begun
  | cons c part =>
    obtain ⟨rfl, inner⟩ := cons_prefix_cons.mp cuts
    rw [length_cons, length_cons, Nat.add_lt_add_iff_right] at short
    rw [NextDiff, if_neg (by simp)]
    refine readStringChop_short plain1 inner short (fun part cuts short => ?_)
    refine readStringChop_short plain2 cuts short (fun part cuts short => ?_)
    refine readStringChop_short plain3 cuts short (fun part cuts short => ?_)
    refine readStringChop_short plain4 cuts short (fun part cuts short => ?_)
    refine readStringChop_short plain5 cuts short (fun part cuts short => ?_)
    refine readStringChop_short plain6 cuts short (fun part cuts short => ?_)
    dsimp only
    by_cases two : twoPaths d.status = true
    · rw [if_pos two] at cuts short ⊢
      refine readStringChop_short plain7 cuts short (fun part cuts short => ?_)
      simp at short
    · rw [if_neg two] at short
      simp at short

theorem Diff.print_ne_nil (d : Diff) : d.print ≠ [] := by simp [Diff.print_eq]

variable {diffs : List Diff}

theorem nextDiffs_append (printable : ∀ d ∈ diffs, d.Printable) {part : Bytes} {err : Error}
    (fails : NextDiff part = .error err) :
    nextDiffs (diffs.flatMap Diff.print ++ part) = (diffs, some err) := by
  have whole := Records.collect_whole (fun d member => NextDiff_print (printable d member))
    (fun d _ => d.print_ne_nil) fails
  rwa [map_id'' (fun _ => rfl)] at whole

/-- The position is the end of a record, or the beginning of the first one. -/
def Boundary (diffs : List Diff) (k : Nat) : Prop :=
  ∃ n ≤ diffs.length, k = ((diffs.take n).flatMap Diff.print).length

/-- The diffs that git prints are returned one by one and then the end of the input; of what it
prints a cut is noticed wherever it is not between two records. -/
theorem nextDiffs_print (printable : ∀ d ∈ diffs, d.Printable) :
    nextDiffs (diffs.flatMap Diff.print) = (diffs, some .eof) ∧
      ∀ k ≤ (diffs.flatMap Diff.print).length, ¬ Boundary diffs k →
        ∃ parsed err, nextDiffs ((diffs.flatMap Diff.print).take k) = (parsed, some err) ∧
          err ≠ .eof := by
  constructor
  · have ended : NextDiff [] = .error .eof := rfl
    have whole := nextDiffs_append printable ended
    rwa [append_nil] at whole
  · intro k inside between
    obtain ⟨n, part, bound, text, length, kind⟩ := Records.take_flatMap Diff.print diffs k inside
    rcases kind with rfl | ⟨d, found, cuts, short⟩
    · exact absurd ⟨n, bound, by simpa using length⟩ between
    have begun : part ≠ [] := by
      rintro rfl
      exact between ⟨n, bound, by simpa using length⟩
    have fails := NextDiff_short (printable d (mem_of_getElem? found)) begun cuts short
    refine ⟨diffs.take n, .readRawDiff, ?_, by decide⟩
    rw [text]
    exact nextDiffs_append (fun d member => printable d (mem_of_mem_take member)) fails

/-- A rename and then a change. -/
def renameAndChange : List Diff :=
  [⟨ascii "100644", ascii "100644", ascii "a1", ascii "a1", ascii "R100", ascii "a b", ascii ":c"⟩,
    ⟨ascii "100644", ascii "100755", ascii "a1", ascii "b2", ascii "M", ascii "d", []⟩]

/-- The same is cut off inside the second path of the rename. -/
theorem renameAndChange_print :
    nextDiffs (renameAndChange.flatMap Diff.print) = (renameAndChange, some .eof) ∧
      ∃ parsed err, nextDiffs ((renameAndChange.flatMap Diff.print).take 32) =
        (parsed, some err) ∧ err ≠ .eof := by
  have printable : ∀ d ∈ renameAndChange, d.Printable := by
    simp only [renameAndChange, forall_mem_cons, not_mem_nil, false_imp_iff, implies_true, and_true]
    exact ⟨⟨by decide, by decide, by decide⟩, ⟨by decide, by decide, by decide⟩⟩
  have between : ¬ Boundary renameAndChange 32 := by
    rintro ⟨n, bound, length⟩
    have few : n ≤ 2 := bound
    interval_cases n <;> revert length <;> decide
  have both := nextDiffs_print printable
  exact ⟨both.1, both.2 32 (by decide) between⟩

end Gitaly.Rawdiff
