import Gitaly.Base.Runs
import Gitaly.Git.DiffLimits

/- What the limits bound in all the diffs that are returned. -/
namespace Gitaly.DiffParser

open Text Runs

def totalLines (diffs : List Diff) : Nat := (diffs.map (fun d => (countedLines d.patch).length)).sum

def totalBytes (diffs : List Diff) : Nat :=
  (diffs.map (fun d => (countedLines d.patch).flatten.length)).sum

/-- The diffs are within the limits: none that has a patch in the stream, or has one itself, kept
or pruned, comes after the first `maxFiles` ones, the lines and bytes that are counted stay below
theirs, and the overflow marker is the last diff. -/
structure Within (limits : Limits) (patched : Nat → Prop) (restored : Prop) (diffs : List Diff) :
    Prop where
  files : ∀ (k : Nat) (d : Diff), diffs[k]? = some d → d.overflowMarker = false →
    patched k ∨ d.patch ≠ [] ∨ d.collapsed ∨ d.tooLarge → (k : Int) < limits.maxFiles
  lines : totalLines diffs = 0 ∨ (totalLines diffs : Int) < limits.maxLines
  bytes : restored → totalBytes diffs = 0 ∨ (totalBytes diffs : Int) < limits.maxBytes
  patches : ∀ d ∈ diffs, d.patch = [] ∨ (d.patch.length : Int) < limits.maxPatchBytes
  overflow : ∀ (k : Nat) (d : Diff), diffs[k]? = some d → d.overflowMarker = true →
    k + 1 = diffs.length

variable {limits : Limits} {patched : Nat → Prop} {restored : Prop} {seen : List Diff} {d : Diff}

theorem totals_snoc (seen : List Diff) (d : Diff) :
    totalLines (seen ++ [d]) = totalLines seen + (countedLines d.patch).length ∧
      totalBytes (seen ++ [d]) = totalBytes seen + (countedLines d.patch).flatten.length := by
  simp [totalLines, totalBytes]

theorem Within.snoc (within : Within limits patched restored seen)
    (unmarked : ∀ d ∈ seen, d.overflowMarker = false)
    (files : d.overflowMarker = false → patched seen.length ∨ d.patch ≠ [] ∨ d.collapsed ∨
      d.tooLarge → (seen.length : Int) < limits.maxFiles)
    (lines : d.patch = [] ∨ (totalLines (seen ++ [d]) : Int) < limits.maxLines)
    (bytes : restored → d.patch = [] ∨ (totalBytes (seen ++ [d]) : Int) < limits.maxBytes)
    (patch : d.patch = [] ∨ (d.patch.length : Int) < limits.maxPatchBytes) :
    Within limits patched restored (seen ++ [d]) := by
  obtain ⟨moreLines, moreBytes⟩ := totals_snoc seen d
  have nothing (empty : d.patch = []) :
      totalLines (seen ++ [d]) = totalLines seen ∧ totalBytes (seen ++ [d]) = totalBytes seen := by
    rw [moreLines, moreBytes, empty]
    exact ⟨rfl, rfl⟩
  refine ⟨indexed_joined within.files files, ?_, fun isRestored => ?_,
    forall_joined within.patches patch, indexed_joined ?_ (fun _ => by simp)⟩
  · rcases lines with empty | below
    · rw [(nothing empty).1]
      exact within.lines
    · exact .inr below
  · rcases bytes isRestored with empty | below
    · rw [(nothing empty).2]
      exact within.bytes isRestored
    · exact .inr below
  · intro k other found marked
    rw [unmarked other (List.mem_of_getElem? found)] at marked
    cases marked

namespace Parser

/-- How the parser has counted the diffs it has returned. -/
structure Accounts (limits : Limits) (patched : Nat → Prop) (restored : Prop) (parser : Parser)
    (seen : List Diff) : Prop where
  same : parser.limits = limits
  files : parser.filesProcessed = seen.length
  within : Within limits patched restored seen
  unmarked : parser.finished = false → ∀ d ∈ seen, d.overflowMarker = false
  lines : parser.finished = false →
    parser.linesProcessed = totalLines seen ∨ limits.maxPatchBytes ≤ 0
  bytes : parser.finished = false → restored → parser.bytesProcessed = totalBytes seen

variable {parser next : Parser}

theorem collapse_outcome (parser : Parser) :
    parser.collapse.limits = parser.limits ∧ parser.collapse.finished = parser.finished ∧
      parser.collapse.filesProcessed = parser.filesProcessed ∧
      parser.collapse.currentDiff.overflowMarker = parser.currentDiff.overflowMarker ∧
      (parser.collapse.currentDiff.patch = [] ∨ ¬ parser.Collapses) := by
  unfold collapse Collapses
  split <;> simp_all [prunePatch]

theorem enforce_outcome (enforces : parser.limits.enforceLimits = true) :
    parser.enforce.limits = parser.limits ∧
    parser.enforce.filesProcessed = parser.filesProcessed ∧
    (parser.enforce.finished = true ∧ parser.enforce.currentDiff = { overflowMarker := true } ∨
      parser.enforce.finished = parser.finished ∧
      parser.enforce.currentDiff.overflowMarker = parser.currentDiff.overflowMarker ∧
      (parser.TooLarge → parser.enforce.currentDiff.patch = []) ∧
      (¬ parser.TooLarge → parser.enforce.currentDiff.patch = parser.currentDiff.patch) ∧
      parser.filesProcessed ≤ parser.limits.maxFiles ∧
      parser.enforce.bytesProcessed < parser.limits.maxBytes ∧
      parser.enforce.linesProcessed < parser.limits.maxLines) := by
  unfold enforce TooLarge
  by_cases large : (parser.currentDiff.patch.length : Int) ≥ parser.limits.maxPatchBytes
  · simp only [enforces, large, if_true]
    split <;> simp_all [prunePatch]
  · simp only [enforces, large, if_true, if_false]
    split <;> simp_all

theorem Accounts.arrives (accounts : Accounts limits patched restored parser seen)
    (going : parser.finished = false) (arrives : Arrives parser next)
    (unpatched : ¬ patched seen.length) :
    Accounts limits patched restored next (seen ++ [next.currentDiff]) := by
  obtain ⟨empty, -, unmarked, uncollapsed, small⟩ := arrives.fresh
  obtain ⟨moreLines, moreBytes⟩ := totals_snoc seen next.currentDiff
  rw [empty] at moreLines moreBytes
  refine ⟨arrives.limits.trans accounts.same, ?_, ?_, ?_, ?_, ?_⟩
  · rw [arrives.files, accounts.files]
    simp
  · refine accounts.within.snoc (accounts.unmarked going) (fun _ carries => ?_) (.inl empty)
      (fun _ => .inl empty) (.inl empty)
    simp [empty, uncollapsed, small, unpatched] at carries
  · exact fun _ => forall_joined (accounts.unmarked going) unmarked
  · rw [moreLines, arrives.lines]
    exact fun _ => accounts.lines going
  · rw [moreBytes, arrives.bytes]
    exact fun _ => accounts.bytes going

/-- A patch that is read is counted as it is kept or pruned, or it is marked as the overflow. -/
theorem Accounts.reads (enforces : limits.enforceLimits = true)
    (accounts : Accounts limits patched restored parser seen) (going : parser.finished = false)
    {read : Parser} {t : Tally} (reads : Reads parser read t)
    (undone : restored → read.Collapses ∨ read.collapse.TooLarge →
      read.collapse.enforce.bytesProcessed = parser.bytesProcessed) :
    Accounts limits patched restored read.collapse.enforce
      (seen ++ [read.collapse.enforce.currentDiff]) := by
  obtain ⟨limits_, finished, files, overflow, collapsed⟩ := read.collapse_outcome
  obtain ⟨excess, moderate⟩ := reads.account
  rw [← reads.collapses_iff, accounts.same] at excess moderate
  have same := limits_.trans (reads.limits.trans accounts.same)
  obtain ⟨enforced, processed, outcome⟩ :=
    read.collapse.enforce_outcome (by rw [same]; exact enforces)
  rw [same] at enforced outcome
  generalize read.collapse.enforce = next at excess moderate enforced processed outcome undone ⊢
  obtain ⟨moreLines, moreBytes⟩ := totals_snoc seen next.currentDiff
  have count : next.filesProcessed = (seen ++ [next.currentDiff]).length := by
    rw [processed, files, reads.files, accounts.files]
    simp
  rcases outcome with ⟨ended, marker⟩ | ⟨goes, marker, emptied, kept, few, less, fewer⟩
  · have ends : ¬ next.finished = false := by simp [ended]
    refine ⟨enforced, count, ?_, (absurd · ends), (absurd · ends), (absurd · ends)⟩
    rw [marker]
    exact accounts.within.snoc (accounts.unmarked going) (by simp) (.inl rfl) (fun _ => .inl rfl)
      (.inl rfl)
  · have account : (next.linesProcessed = totalLines (seen ++ [next.currentDiff]) ∨
          next.currentDiff.patch = [] ∧ limits.maxPatchBytes ≤ 0) ∧
        (restored → next.bytesProcessed = totalBytes (seen ++ [next.currentDiff])) ∧
        (next.currentDiff.patch = [] ∨
          (next.currentDiff.patch.length : Int) < limits.maxPatchBytes) := by
      have lines := accounts.lines going
      have bytes := accounts.bytes going
      rw [moreLines, moreBytes]
      by_cases pruned : read.Collapses ∨ read.collapse.TooLarge
      · have empty : next.currentDiff.patch = [] := by
          by_cases large : read.collapse.TooLarge
          · exact emptied large
          · rw [kept large]
            exact collapsed.resolve_right (not_not.mpr (pruned.resolve_right large))
        have unchanged : next.linesProcessed = parser.linesProcessed ∨
            limits.maxPatchBytes ≤ 0 := by
          by_cases excessive : read.Collapses
          · exact (em _).symm.imp (excess excessive).2.1 And.right
          · exact .inl ((moderate excessive).2.1 (pruned.resolve_left excessive)).2
        rw [empty]
        refine ⟨?_, fun isRestored => ?_, .inl rfl⟩
        · rcases unchanged, lines with ⟨same | zero, same_ | zero⟩
          · exact .inl (same.trans same_)
          all_goals exact .inr ⟨rfl, zero⟩
        · exact (undone isRestored pruned).trans (bytes isRestored)
      · obtain ⟨uncollapsed, small⟩ := not_or.mp pruned
        obtain ⟨bytes_, lines_⟩ := (moderate uncollapsed).2.2 small
        have patch := kept small
        rw [TooLarge, same] at small
        rw [collapse_of_not uncollapsed] at patch small
        have short : (read.currentDiff.patch.length : Int) < limits.maxPatchBytes := by
          simpa [enforces] using small
        rw [patch, reads.counted.1, reads.counted.2]
        exact ⟨.inl (by omega), fun isRestored => by have := bytes isRestored; omega, .inr short⟩
    obtain ⟨lines, bytes, patch⟩ := account
    have still := goes.trans (finished.trans (reads.finished.trans going))
    refine ⟨enforced, count, accounts.within.snoc (accounts.unmarked going) ?_ ?_ ?_ patch,
      ?_, fun _ => lines.imp_right And.right, fun _ => bytes⟩
    · intro _ _
      rw [files, reads.files, accounts.files] at few
      omega
    · exact lines.symm.imp And.left (fun total => by rw [← total]; exact fewer)
    · exact fun isRestored => .inr (by rw [← bytes isRestored]; exact less)
    · exact fun _ => forall_joined (accounts.unmarked going)
        (marker.trans (overflow.trans reads.overflow))

theorem finished_of_parse (parsed : parser.parse.1 = true) : parser.finished = false := by
  cases ended : parser.finished with
  | false => rfl
  | true =>
    rw [parse, if_pos (.inl ended)] at parsed
    cases parsed

theorem Accounts.parse (enforces : limits.enforceLimits = true)
    (accounts : Accounts limits patched restored parser seen) (undone : restored → parser.Undone)
    (patch : patched seen.length → parser.patchAt ≠ none) (parsed : parser.parse.1 = true) :
    Accounts limits patched restored parser.parse.2 (seen ++ [parser.parse.2.currentDiff]) := by
  have going := finished_of_parse parsed
  cases at_ : parser.patchAt with
  | none => exact accounts.arrives going ((parse_of_none at_).2 parsed) (fun is => patch is at_)
  | some there =>
    rcases patch_cases at_ with ⟨read, isRead, parses, reads, -⟩ | ⟨-, -, failed, -⟩
    · unfold Undone at undone
      rw [parses] at undone ⊢
      exact accounts.reads enforces going reads (fun isRestored pruned =>
        (undone isRestored ⟨read, isRead, pruned⟩).2)
    · rw [failed] at parsed
      cases parsed

end Parser

def twoLines : Limits := ⟨true, false, 9, 2, 99, 9, 9, 9, 99⟩

end Gitaly.DiffParser
