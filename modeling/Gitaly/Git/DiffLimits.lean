import Gitaly.Git.Diff
import Mathlib.Logic.Function.Iterate

/- What the parser counts of a patch, and what it takes back when it prunes one. -/
namespace Gitaly.DiffParser

open Text List

/-- What is in the lines of a patch: how many are counted, their bytes, and the bytes of the hunk
headers, which are kept but not counted. -/
structure Tally where
  lines : Nat
  bytes : Nat
  hunkBytes : Nat
deriving DecidableEq

def Tally.add (t other : Tally) : Tally :=
  ⟨t.lines + other.lines, t.bytes + other.bytes, t.hunkBytes + other.hunkBytes⟩

inductive LineKind where
  | hunkHeader
  | counted
  | skipped
deriving DecidableEq

/-- By the first bytes of a line, and whether the patch has begun. -/
def lineKind (begun : Bool) (line : Bytes) : LineKind :=
  if (ascii "@@").isPrefixOf line then .hunkHeader
  else if byteSliceHasAnyPrefix line [ascii "---", ascii "+++"] && !begun then .skipped
  else if byteSliceHasAnyPrefix line
      [ascii "~\n", ascii "Binary", ascii "-", ascii "+", ascii " ", ascii "\\"] then .counted
  else .skipped

def LineKind.tally (kind : LineKind) (line : Bytes) : Tally :=
  match kind with
  | .hunkHeader => ⟨0, 0, line.length⟩
  | .counted => ⟨1, line.length, 0⟩
  | .skipped => ⟨0, 0, 0⟩

/-- The lines up to the header of the next patch. -/
def tally : Nat → Bool → Bytes → Tally
  | 0, _, _ => ⟨0, 0, 0⟩
  | fuel + 1, begun, text =>
    if text = [] ∨ (ascii "diff --git").isPrefixOf (text.take 10) then ⟨0, 0, 0⟩
    else
      let kind := lineKind begun (text.take 10)
      (kind.tally (readBytes text).1).add
        (tally fuel (begun || decide (kind ≠ .skipped)) (readBytes text).2)

/-- The lines of a patch, each with its newline. -/
def patchLines : Bytes → List Bytes
  | [] => []
  | c :: text =>
    if c = newline then [c] :: patchLines text
    else
      match patchLines text with
      | [] => [[c]]
      | line :: rest => (c :: line) :: rest

def isHunkHeader (line : Bytes) : Bool := (ascii "@@").isPrefixOf line

/-- The lines of a patch that are counted. -/
def countedLines (patch : Bytes) : List Bytes :=
  (patchLines patch).filter (fun line => !isHunkHeader line)

/-- A text in which every line is ended. -/
def Lined (text : Bytes) : Prop := text = [] ∨ text.getLast? = some newline

theorem patchLines_ne_nil {text : Bytes} (filled : text ≠ []) : patchLines text ≠ [] := by
  cases text with
  | nil => exact absurd rfl filled
  | cons c text =>
    unfold patchLines
    repeat' split
    all_goals simp

theorem patchLines_append {patch : Bytes} (lined : Lined patch) (text : Bytes) :
    patchLines (patch ++ text) = patchLines patch ++ patchLines text := by
  induction patch with
  | nil => rfl
  | cons c patch ih =>
    have last := lined.resolve_left (cons_ne_nil c patch)
    cases patch with
    | nil =>
      have ends : c = newline := Option.some.inj last
      simp [patchLines, ends]
    | cons d patch =>
      have filled := patchLines_ne_nil (cons_ne_nil d patch)
      rw [cons_append, patchLines, patchLines.eq_def (c :: d :: patch), ih (.inr last)]
      dsimp only
      split
      · rfl
      cases lines : patchLines (d :: patch) with
      | nil => exact absurd lines filled
      | cons line rest => rfl

theorem readBytes_cons (c : UInt8) (text : Bytes) : readBytes (c :: text) =
    if c = newline then ([c], text) else (c :: (readBytes text).1, (readBytes text).2) := by
  by_cases ends : c = newline
  · subst ends
    rfl
  have different : (c == newline) = false := beq_eq_false_iff_ne.mpr ends
  rw [if_neg ends, readBytes, readBytes, cutLine, cutLine, idxOf?_cons, different]
  cases text.idxOf? newline <;> rfl

theorem readBytes_line_of {text : Bytes} (filled : text ≠ []) :
    patchLines (readBytes text).1 = [(readBytes text).1] ∧
      ((readBytes text).2 = [] ∨ (readBytes text).1.getLast? = some newline) := by
  induction text with
  | nil => exact absurd rfl filled
  | cons c text ih =>
    rw [readBytes_cons]
    split
    · rename_i ends
      simp [patchLines, ends]
    rename_i inside
    cases text with
    | nil => simp [readBytes, cutLine, patchLines, inside]
    | cons d text =>
      obtain ⟨line, ends⟩ := ih (cons_ne_nil d text)
      refine ⟨by simp [patchLines, inside, line], ends.imp_right (fun last => ?_)⟩
      rw [getLast?_cons, last]
      rfl

theorem isHunkHeader_take (text : Bytes) :
    isHunkHeader (text.take 10) = isHunkHeader (readBytes text).1 := by
  rcases text with _ | ⟨c, _ | ⟨d, text⟩⟩
  · rfl
  · rw [readBytes_cons]
    split <;> simp [isHunkHeader, ascii, readBytes, cutLine]
  · rw [readBytes_cons, readBytes_cons]
    by_cases first : c = newline
    · subst first
      rfl
    · rw [if_neg first]
      split <;> rfl

namespace Parser

/-- The parser as it comes to the patch of its next diff, if it has one. -/
def patchAt (parser : Parser) : Option Parser :=
  if parser.finished ∨ parser.rawLines = [] then none
  else
    match parser.initializeCurrentDiff >>= findNextPatchFromPath with
    | .error _ => none
    | .ok there =>
      if there.nextPatchFromPath ≠ there.currentDiff.fromPath then none
      else some { there with nextPatchFromPath := [] }

/-- The parser when it has read the patch. -/
def patchRead (parser : Parser) : Option Parser :=
  parser.patchAt.bind (fun there =>
    (consumePatch (there.patchReader.length + 2) false there).toOption)

def Collapses (parser : Parser) : Prop :=
  parser.limits.collapseDiffs ∧ parser.isOverSafeLimits ∧ parser.currentDiff.lineCount > 0

def TooLarge (parser : Parser) : Prop :=
  parser.limits.enforceLimits ∧
    (parser.currentDiff.patch.length : Int) ≥ parser.limits.maxPatchBytes

/-- The next call prunes the patch it reads. -/
def Prunes (parser : Parser) : Prop :=
  ∃ read, parser.patchRead = some read ∧ (read.Collapses ∨ read.collapse.TooLarge)

/-- If the next call prunes, it undoes what it has counted. -/
def Undone (parser : Parser) : Prop :=
  parser.Prunes → parser.parse.2.linesProcessed = parser.linesProcessed ∧
    parser.parse.2.bytesProcessed = parser.bytesProcessed

def Nonnegative (parser : Parser) : Prop := 0 ≤ parser.linesProcessed ∧ 0 ≤ parser.bytesProcessed

/-- With such a patch the safe limits are passed. -/
def Excessive (parser : Parser) (t : Tally) : Prop :=
  parser.limits.collapseDiffs ∧ 0 < t.lines ∧
    (parser.filesProcessed + 1 > parser.limits.safeMaxFiles ∨
      parser.linesProcessed + t.lines > parser.limits.safeMaxLines ∨
      parser.bytesProcessed + t.bytes > parser.limits.safeMaxBytes)

/-- What is in the patch that the parser has come to. -/
def patchTally (there : Parser) : Tally :=
  tally (there.patchReader.length + 2) false there.patchReader

/-- A patch that is pruned has no hunk header, and it is not pruned both for the safe limits and
for a limit on its size that an empty patch reaches. -/
def Restorable (parser : Parser) : Prop :=
  parser.err = none → ∀ there, parser.patchAt = some there →
    (parser.Excessive there.patchTally ∨ parser.limits.enforceLimits ∧
        (there.patchTally.bytes + there.patchTally.hunkBytes : Int) ≥ parser.limits.maxPatchBytes →
      there.patchTally.hunkBytes = 0) ∧
    ¬ (parser.Excessive there.patchTally ∧ parser.limits.enforceLimits ∧
      parser.limits.maxPatchBytes ≤ 0)

/-- Another line does not go on with the last one of the patch. -/
def Whole (parser : Parser) : Prop := parser.patchReader = [] ∨ Lined parser.currentDiff.patch

/-- What reading lines changes, by what is in them. -/
structure Tallied (parser last : Parser) (t : Tally) : Prop where
  limits : last.limits = parser.limits
  finished : last.finished = parser.finished
  overflow : last.currentDiff.overflowMarker = parser.currentDiff.overflowMarker
  files : last.filesProcessed = parser.filesProcessed
  lines : last.linesProcessed = parser.linesProcessed + t.lines
  bytes : last.bytesProcessed = parser.bytesProcessed + t.bytes
  lineCount : last.currentDiff.lineCount = parser.currentDiff.lineCount + t.lines
  patch : last.currentDiff.patch.length = parser.currentDiff.patch.length + t.bytes + t.hunkBytes
  counted : parser.Whole → last.Whole ∧
    (countedLines last.currentDiff.patch).length =
      (countedLines parser.currentDiff.patch).length + t.lines ∧
    (countedLines last.currentDiff.patch).flatten.length =
      (countedLines parser.currentDiff.patch).flatten.length + t.bytes

theorem Tallied.refl (parser : Parser) : Tallied parser parser ⟨0, 0, 0⟩ := by constructor <;> simp

theorem Tallied.trans {first second third : Parser} {t other : Tally}
    (left : Tallied first second t) (right : Tallied second third other) :
    Tallied first third (t.add other) := by
  obtain ⟨limits, finished, overflow, files, lines, bytes, lineCount, patch, counted⟩ := left
  obtain ⟨limits_, finished_, overflow_, files_, lines_, bytes_, lineCount_, patch_, counted_⟩ :=
    right
  unfold Tally.add
  refine ⟨limits_.trans limits, finished_.trans finished, overflow_.trans overflow,
    files_.trans files, by dsimp only; omega, by dsimp only; omega, by dsimp only; omega,
    by dsimp only; omega, fun whole => ?_⟩
  obtain ⟨whole, filled, long⟩ := counted whole
  obtain ⟨whole, more, longer⟩ := counted_ whole
  exact ⟨whole, by dsimp only; omega, by dsimp only; omega⟩

variable {parser : Parser}

theorem consume_nil (ended : parser.patchReader = []) : parser.consume [] = parser := by
  cases parser
  subst ended
  rfl

/-- A line that is consumed. -/
structure Consumed (parser next : Parser) (kind : LineKind) : Prop where
  tallied : Tallied parser next (kind.tally (readBytes parser.patchReader).1)
  reader : next.patchReader = (readBytes parser.patchReader).2
  begun : next.isParsingChunkLines = (parser.isParsingChunkLines || decide (kind ≠ .skipped))
  err : next.err = parser.err

theorem Whole.lined (whole : parser.Whole) (filled : parser.patchReader ≠ []) :
    Lined parser.currentDiff.patch :=
  whole.resolve_left filled

theorem consumeLine_consumed (filled : parser.patchReader ≠ []) :
    Consumed parser (parser.consumeLine false) .skipped := by
  refine ⟨⟨rfl, rfl, rfl, rfl, ?_, ?_, ?_, ?_, fun whole => ⟨.inr (whole.lined filled), ?_, ?_⟩⟩,
    rfl, ?_, rfl⟩ <;> simp [consumeLine, LineKind.tally, isParsingChunkLines]

theorem consumeChunkLine_consumed (parser : Parser) (filled : parser.patchReader ≠ [])
    (counted : Bool) (kind : isHunkHeader (readBytes parser.patchReader).1 = !counted) :
    Consumed parser (parser.consumeChunkLine counted)
      (if counted then .counted else .hunkHeader) := by
  obtain ⟨line, ends⟩ := readBytes_line_of filled
  have nonempty : (readBytes parser.patchReader).1 ≠ [] := by
    intro empty
    rw [empty] at line
    cases line
  have lines (whole : parser.Whole) :
      countedLines (parser.currentDiff.patch ++ (readBytes parser.patchReader).1) =
        countedLines parser.currentDiff.patch ++
          if counted then [(readBytes parser.patchReader).1] else [] := by
    rw [countedLines, patchLines_append (whole.lined filled), line, filter_append]
    cases counted <;> simp [countedLines, kind]
  have last : (parser.consumeChunkLine counted).Whole := by
    refine ends.imp (fun ended => ?_) (fun ended => .inr ?_)
    · cases counted <;> exact ended
    · cases counted <;> simp [consumeChunkLine, getLast?_append, ended]
  cases counted <;>
    refine ⟨⟨rfl, rfl, rfl, rfl, ?_, ?_, ?_, ?_, fun whole =>
      ⟨last, by simp [consumeChunkLine, LineKind.tally, lines whole]⟩⟩, rfl, ?_, rfl⟩ <;>
    simp [consumeChunkLine, LineKind.tally, isParsingChunkLines, nonempty]

theorem consume_consumed (filled : parser.patchReader ≠ []) :
    Consumed parser (parser.consume (parser.patchReader.take 10))
      (lineKind parser.isParsingChunkLines (parser.patchReader.take 10)) := by
  have chunk := consumeChunkLine_consumed parser filled
  have marked := consumeChunkLine_consumed
    { parser with currentDiff := { parser.currentDiff with binary := true } } filled true
  rw [← isHunkHeader_take] at chunk marked
  generalize parser.patchReader.take 10 = line at chunk marked ⊢
  unfold consume lineKind
  by_cases hunk : (ascii "@@").isPrefixOf line = true
  · rw [if_pos hunk, if_pos hunk]
    exact chunk false hunk
  have chunk := chunk true (Bool.eq_false_iff.mpr hunk)
  rw [if_neg hunk, if_neg hunk]
  by_cases file : (byteSliceHasAnyPrefix line [ascii "---", ascii "+++"] &&
      !parser.isParsingChunkLines) = true
  · rw [if_pos file, if_pos file]
    exact consumeLine_consumed filled
  rw [if_neg file, if_neg file]
  have kinds : byteSliceHasAnyPrefix line
      [ascii "~\n", ascii "Binary", ascii "-", ascii "+", ascii " ", ascii "\\"] =
        ((ascii "~\n").isPrefixOf line || ((ascii "Binary").isPrefixOf line ||
          byteSliceHasAnyPrefix line [ascii "-", ascii "+", ascii " ", ascii "\\"])) := rfl
  rw [kinds]
  split
  · rename_i tilde
    simpa [tilde] using chunk
  rename_i tilde
  split
  · rename_i binary
    rw [binary, Bool.true_or, Bool.or_true, if_pos rfl]
    obtain ⟨⟨limits, finished, overflow, files, lines, bytes, lineCount, patch, counted⟩, reader,
      begun, err⟩ := marked (Bool.eq_false_iff.mpr hunk)
    exact ⟨⟨limits, finished, overflow, files, lines, bytes, lineCount, patch, counted⟩, reader,
      begun, err⟩
  · rename_i text
    split
    · rename_i counted
      simpa [counted] using chunk
    · rename_i other
      simpa [tilde, text, other] using consumeLine_consumed filled

theorem tally_nil (fuel : Nat) (begun : Bool) : tally fuel begun [] = ⟨0, 0, 0⟩ := by
  cases fuel <;> simp [tally]

/-- The loop adds up what is in the lines it reads. -/
theorem consumePatch_ok (fuel : Nat) (done : Bool) (clean : parser.err = none) :
    ∃ last, consumePatch fuel done parser = .ok last ∧
      Tallied parser last (tally fuel parser.isParsingChunkLines parser.patchReader) := by
  induction fuel generalizing done parser with
  | zero => exact ⟨parser, rfl, .refl parser⟩
  | succ fuel ih =>
    rw [consumePatch, tally]
    by_cases stop : done ∧ parser.patchReader = []
    · rw [if_pos stop, if_pos (.inl stop.2)]
      exact ⟨parser, rfl, .refl parser⟩
    rw [if_neg stop]
    dsimp only
    by_cases header : (ascii "diff --git").isPrefixOf (parser.patchReader.take 10) = true
    · rw [if_pos header, if_pos (.inr header)]
      exact ⟨parser, rfl, .refl parser⟩
    rw [if_neg header]
    by_cases ended : parser.patchReader = []
    · obtain ⟨last, consumes, tallied⟩ :=
        ih (done || decide ((parser.patchReader.take 10).length < 10)) clean
      rw [ended, tally_nil] at tallied
      have idle : parser.consume (parser.patchReader.take 10) = parser := by
        rw [ended, take_nil, consume_nil ended]
      rw [idle, clean, if_neg (by simp), if_pos (.inl ended)]
      exact ⟨last, consumes, tallied⟩
    · rw [if_neg (not_or.mpr ⟨ended, header⟩)]
      have consumed := consume_consumed ended
      obtain ⟨last, consumes, tallied⟩ :=
        ih (done || decide ((parser.patchReader.take 10).length < 10))
          (consumed.err.trans clean)
      rw [consumed.begun, consumed.reader] at tallied
      rw [consumed.err, clean]
      exact ⟨last, consumes, consumed.tallied.trans tallied⟩

theorem consumePatch_failed (fuel : Nat) (failed : parser.err.isSome = true) :
    (consumePatch (fuel + 1) false parser = .ok parser ∧
      tally (fuel + 1) parser.isParsingChunkLines parser.patchReader = ⟨0, 0, 0⟩) ∨
    ∃ last t, consumePatch (fuel + 1) false parser = .error last ∧ Tallied parser last t := by
  rw [consumePatch, tally, if_neg (by simp)]
  dsimp only
  by_cases header : (ascii "diff --git").isPrefixOf (parser.patchReader.take 10) = true
  · rw [if_pos header, if_pos (.inr header)]
    exact .inl ⟨rfl, rfl⟩
  rw [if_neg header]
  right
  by_cases ended : parser.patchReader = []
  · rw [ended, take_nil, consume_nil ended, if_pos failed]
    exact ⟨parser, _, rfl, .refl parser⟩
  have consumed := consume_consumed ended
  rw [consumed.err, if_pos failed]
  exact ⟨_, _, rfl, consumed.tallied⟩

/-- A diff as it is before its patch is read. -/
structure Fresh (diff : Diff) : Prop where
  patch : diff.patch = []
  lineCount : diff.lineCount = 0
  flags : diff.overflowMarker = false ∧ diff.collapsed = false ∧ diff.tooLarge = false

/-- What is known of the parser that comes to a patch. -/
structure Arrives (parser there : Parser) : Prop where
  limits : there.limits = parser.limits
  finished : there.finished = parser.finished
  files : there.filesProcessed = parser.filesProcessed + 1
  lines : there.linesProcessed = parser.linesProcessed
  bytes : there.bytesProcessed = parser.bytesProcessed
  err : there.err = parser.err
  fresh : Fresh there.currentDiff

theorem parseRawLine_fresh (line : Bytes) : Fresh (parseRawLine line {}).2 := by
  unfold parseRawLine
  repeat' split
  all_goals exact ⟨rfl, rfl, rfl, rfl, rfl⟩

/-- Nothing is counted before the patch. -/
structure Reaches (parser : Parser) (result : Except Parser Parser) : Prop where
  ok : ∀ there, result = .ok there → Arrives parser there
  error : ∀ last, result = .error last → last.linesProcessed = parser.linesProcessed ∧
    last.bytesProcessed = parser.bytesProcessed

theorem initializeCurrentDiff_reaches (parser : Parser) :
    Reaches parser parser.initializeCurrentDiff := by
  have fresh := parseRawLine_fresh (parser.rawLines.headD [])
  unfold initializeCurrentDiff
  generalize parseRawLine (parser.rawLines.headD []) {} = parsed at fresh ⊢
  obtain ⟨err, diff⟩ := parsed
  cases err with
  | some err =>
    refine ⟨(fun there same => by cases same), fun last same => ?_⟩
    cases same
    exact ⟨rfl, rfl⟩
  | none =>
    refine ⟨fun there same => ?_, (fun last same => by cases same)⟩
    cases same
    split <;> exact ⟨rfl, rfl, rfl, rfl, rfl, rfl, fresh.patch, fresh.lineCount, fresh.flags⟩

theorem reaches (parser : Parser) :
    Reaches parser (parser.initializeCurrentDiff >>= findNextPatchFromPath) := by
  have first := parser.initializeCurrentDiff_reaches
  cases initialized : parser.initializeCurrentDiff with
  | error last =>
    refine ⟨(fun there same => by cases same), fun other same => ?_⟩
    cases same
    exact first.error last initialized
  | ok middle =>
    have there := first.ok middle initialized
    change Reaches parser middle.findNextPatchFromPath
    unfold findNextPatchFromPath
    constructor <;> intro last same <;> repeat' split at same
    all_goals cases same
    all_goals first
      | exact ⟨there.limits, there.finished, there.files, there.lines, there.bytes, there.err,
          there.fresh⟩
      | exact ⟨there.lines, there.bytes⟩

variable {there : Parser}

theorem arrives (at_ : parser.patchAt = some there) :
    Arrives parser there := by
  unfold patchAt at at_
  split at at_
  · cases at_
  split at at_
  · cases at_
  rename_i reached
  have stage := parser.reaches.ok _ reached
  split at at_ <;> cases at_
  exact ⟨stage.limits, stage.finished, stage.files, stage.lines, stage.bytes, stage.err,
    stage.fresh⟩

theorem parse_of_reached (more : ¬ (parser.finished ∨ parser.rawLines = []))
    (reached : parser.initializeCurrentDiff >>= findNextPatchFromPath = .ok there) :
    parser.parse = match there.readPatch with
      | .error last => (false, last)
      | .ok last => (true, last) := by
  rw [parse, if_neg more, reached]
  rfl

theorem parse_of_none (absent : parser.patchAt = none) :
    (parser.parse.2.linesProcessed = parser.linesProcessed ∧
      parser.parse.2.bytesProcessed = parser.bytesProcessed) ∧
    (parser.parse.1 = true → Arrives parser parser.parse.2) := by
  unfold patchAt at absent
  split at absent
  · rename_i ended
    rw [parse, if_pos ended]
    exact ⟨⟨rfl, rfl⟩, fun succeeds => by cases succeeds⟩
  · rename_i more
    split at absent
    · rename_i last failed
      rw [parse, if_neg more, failed]
      exact ⟨parser.reaches.error last failed, fun succeeds => by cases succeeds⟩
    · rename_i there reached
      split at absent
      · rename_i other
        have stage := parser.reaches.ok there reached
        rw [parse_of_reached more reached, readPatch, if_pos other]
        exact ⟨⟨stage.lines, stage.bytes⟩, fun _ => stage⟩
      · cases absent

theorem parse_of_some (at_ : parser.patchAt = some there) :
    parser.parse = match consumePatch (there.patchReader.length + 2) false there with
      | .error last => (false, last)
      | .ok last => (true, last.collapse.enforce) := by
  unfold patchAt at at_
  split at at_
  · cases at_
  rename_i more
  split at at_
  · cases at_
  rename_i before reached
  split at at_ <;> cases at_
  rename_i same
  rw [parse_of_reached more reached, readPatch, if_neg same]
  cases consumePatch (before.patchReader.length + 2) false
    { before with nextPatchFromPath := [] } <;> rfl

theorem collapse_counters (collapses : parser.Collapses) :
    parser.collapse.linesProcessed = parser.linesProcessed - parser.currentDiff.lineCount ∧
      parser.collapse.bytesProcessed = parser.bytesProcessed - parser.currentDiff.patch.length ∧
      parser.collapse.currentDiff.lineCount = parser.currentDiff.lineCount ∧
      parser.collapse.currentDiff.patch = [] ∧ parser.collapse.limits = parser.limits := by
  unfold Collapses at collapses
  rw [collapse, if_pos collapses]
  exact ⟨rfl, rfl, rfl, rfl, rfl⟩

theorem collapse_of_not (kept : ¬ parser.Collapses) : parser.collapse = parser := if_neg kept

theorem enforce_counters (parser : Parser) :
    (parser.TooLarge →
      parser.enforce.linesProcessed = parser.linesProcessed - parser.currentDiff.lineCount ∧
      parser.enforce.bytesProcessed = parser.bytesProcessed - parser.currentDiff.patch.length) ∧
    (¬ parser.TooLarge → parser.enforce.linesProcessed = parser.linesProcessed ∧
      parser.enforce.bytesProcessed = parser.bytesProcessed) := by
  unfold enforce TooLarge
  by_cases enforces : parser.limits.enforceLimits = true
  · by_cases large : (parser.currentDiff.patch.length : Int) ≥ parser.limits.maxPatchBytes
    · simp only [enforces, large, if_true]
      split <;> simp [prunePatch]
    · simp only [enforces, large, if_true, if_false]
      split <;> simp
  · simp [enforces]

/-- The patch that a call reads, by what was in the parser before. -/
structure Reads (parser read : Parser) (t : Tally) : Prop where
  limits : read.limits = parser.limits
  finished : read.finished = parser.finished
  overflow : read.currentDiff.overflowMarker = false
  files : read.filesProcessed = parser.filesProcessed + 1
  lines : read.linesProcessed = parser.linesProcessed + t.lines
  bytes : read.bytesProcessed = parser.bytesProcessed + t.bytes
  lineCount : read.currentDiff.lineCount = t.lines
  patch : read.currentDiff.patch.length = t.bytes + t.hunkBytes
  counted : (countedLines read.currentDiff.patch).length = t.lines ∧
    (countedLines read.currentDiff.patch).flatten.length = t.bytes

section reads

variable {read : Parser} {t : Tally}

theorem Arrives.reads (begins : Arrives parser there) (tallied : Tallied there read t) :
    Reads parser read t := by
  have patch := tallied.patch
  have lineCount := tallied.lineCount
  have counted := (tallied.counted (.inr (.inl begins.fresh.patch))).2
  rw [begins.fresh.patch, length_nil, Nat.zero_add] at patch
  rw [begins.fresh.lineCount, Int.zero_add] at lineCount
  rw [begins.fresh.patch] at counted
  exact ⟨tallied.limits.trans begins.limits, tallied.finished.trans begins.finished,
    tallied.overflow.trans begins.fresh.flags.1, tallied.files.trans begins.files,
    by rw [tallied.lines, begins.lines], by rw [tallied.bytes, begins.bytes], lineCount, patch,
    by simpa [countedLines, patchLines] using counted⟩

/-- A call that comes to a patch reads it, if none has failed before. -/
theorem patch_cases (at_ : parser.patchAt = some there) :
    (∃ read, parser.patchRead = some read ∧ parser.parse = (true, read.collapse.enforce) ∧
      Reads parser read there.patchTally ∧ (parser.err ≠ none → there.patchTally = ⟨0, 0, 0⟩)) ∨
    parser.err ≠ none ∧ parser.patchRead = none ∧ parser.parse.1 = false ∧ ∃ t : Tally,
      parser.parse.2.linesProcessed = parser.linesProcessed + t.lines ∧
      parser.parse.2.bytesProcessed = parser.bytesProcessed + t.bytes := by
  have begins := arrives at_
  have outside : there.isParsingChunkLines = false := by
    simp [isParsingChunkLines, begins.fresh.patch]
  rw [parse_of_some at_, patchRead, at_, Option.bind_some, patchTally]
  by_cases clean : parser.err = none
  · obtain ⟨read, consumes, tallied⟩ :=
      consumePatch_ok (there.patchReader.length + 2) false (begins.err.trans clean)
    rw [outside] at tallied
    rw [consumes]
    exact .inl ⟨read, rfl, rfl, begins.reads tallied, (absurd clean ·)⟩
  · have failed : there.err.isSome = true := by
      rw [begins.err]
      exact Option.isSome_iff_ne_none.mpr clean
    rcases consumePatch_failed (there.patchReader.length + 1) failed with
      ⟨consumes, nothing⟩ | ⟨last, t, consumes, tallied⟩
    · rw [outside] at nothing
      rw [consumes, nothing]
      exact .inl ⟨there, rfl, rfl, begins.reads (.refl there), fun _ => rfl⟩
    · rw [consumes]
      exact .inr ⟨clean, rfl, rfl, t, begins.lines ▸ tallied.lines, begins.bytes ▸ tallied.bytes⟩

theorem Reads.collapses_iff (reads : Reads parser read t) :
    read.Collapses ↔ parser.Excessive t := by
  unfold Collapses Excessive isOverSafeLimits
  rw [reads.limits, reads.files, reads.lines, reads.bytes, reads.lineCount]
  constructor
  · rintro ⟨collapses, passed, filled⟩
    exact ⟨collapses, by omega, passed⟩
  · rintro ⟨collapses, filled, passed⟩
    exact ⟨collapses, passed, by omega⟩

/-- The counters after a patch that is kept, pruned once, or pruned twice. -/
theorem Reads.account (reads : Reads parser read t) : let after := read.collapse.enforce
    (parser.Excessive t →
      after.bytesProcessed = parser.bytesProcessed - t.hunkBytes ∧
      (¬ (parser.limits.enforceLimits ∧ parser.limits.maxPatchBytes ≤ 0) →
        after.linesProcessed = parser.linesProcessed) ∧
      (parser.limits.enforceLimits ∧ parser.limits.maxPatchBytes ≤ 0 →
        after.linesProcessed = parser.linesProcessed - t.lines)) ∧
    (¬ parser.Excessive t →
      (read.collapse.TooLarge ↔ parser.limits.enforceLimits ∧
        (t.bytes + t.hunkBytes : Int) ≥ parser.limits.maxPatchBytes) ∧
      (read.collapse.TooLarge → after.bytesProcessed = parser.bytesProcessed - t.hunkBytes ∧
        after.linesProcessed = parser.linesProcessed) ∧
      (¬ read.collapse.TooLarge → after.bytesProcessed = parser.bytesProcessed + t.bytes ∧
        after.linesProcessed = parser.linesProcessed + t.lines)) := by
  have isExcessive := reads.collapses_iff
  obtain ⟨limits, -, -, files, lines, bytes, lineCount, patch, -⟩ := reads
  obtain ⟨pruned, kept⟩ := read.collapse.enforce_counters
  constructor
  · intro excessive
    obtain ⟨fewer, less, same, empty, limits_⟩ := collapse_counters (isExcessive.mpr excessive)
    have large : read.collapse.TooLarge ↔
        parser.limits.enforceLimits ∧ parser.limits.maxPatchBytes ≤ 0 := by
      rw [TooLarge, limits_, limits, empty, length_nil]
      rfl
    by_cases isLarge : read.collapse.TooLarge
    · obtain ⟨fewer_, less_⟩ := pruned isLarge
      rw [empty, length_nil] at less_
      refine ⟨by omega, fun other => absurd (large.mp isLarge) other, fun _ => by omega⟩
    · obtain ⟨fewer_, less_⟩ := kept isLarge
      refine ⟨by omega, fun _ => by omega, fun other => absurd (large.mpr other) isLarge⟩
  · intro moderate
    have unchanged := collapse_of_not (mt isExcessive.mp moderate)
    rw [unchanged] at pruned kept ⊢
    refine ⟨by rw [TooLarge, limits, patch]; rfl, fun large => ?_, fun small => ?_⟩
    · obtain ⟨fewer, less⟩ := pruned large
      omega
    · obtain ⟨fewer, less⟩ := kept small
      omega

theorem Reads.restored_iff (reads : Reads parser read t) :
    (read.Collapses ∨ read.collapse.TooLarge →
      read.collapse.enforce.linesProcessed = parser.linesProcessed ∧
        read.collapse.enforce.bytesProcessed = parser.bytesProcessed) ↔
    (parser.Excessive t ∨ parser.limits.enforceLimits ∧
        (t.bytes + t.hunkBytes : Int) ≥ parser.limits.maxPatchBytes → t.hunkBytes = 0) ∧
      ¬ (parser.Excessive t ∧ parser.limits.enforceLimits ∧ parser.limits.maxPatchBytes ≤ 0) := by
  obtain ⟨excess, moderate⟩ := reads.account
  rw [reads.collapses_iff]
  by_cases excessive : parser.Excessive t
  · obtain ⟨bytes, once, twice⟩ := excess excessive
    have filled := excessive.2.1
    by_cases both : parser.limits.enforceLimits ∧ parser.limits.maxPatchBytes ≤ 0
    · have lines := twice both
      refine iff_of_false (fun restored => ?_) (fun fine => fine.2 ⟨excessive, both⟩)
      have same := restored (.inl excessive)
      omega
    · have lines := once both
      refine ⟨fun restored => ⟨fun _ => ?_, fun other => both other.2⟩, fun fine _ => ?_⟩
      · have same := restored (.inl excessive)
        omega
      · have absent := fine.1 (.inl excessive)
        omega
  · obtain ⟨large, pruned, -⟩ := moderate excessive
    rw [or_iff_right excessive, or_iff_right excessive, ← large]
    refine ⟨fun restored => ⟨fun isLarge => ?_, fun both => excessive both.1⟩,
      fun fine isLarge => ?_⟩
    · have same := restored isLarge
      have counters := pruned isLarge
      omega
    · have absent := fine.1 isLarge
      have counters := pruned isLarge
      omega

end reads

/-- A call from a parser that has not failed undoes what it prunes under the condition only. -/
theorem undone_iff (parser : Parser) : parser.Undone ↔ parser.Restorable := by
  unfold Undone Prunes Restorable
  cases at_ : parser.patchAt with
  | none => simp [patchRead, at_]
  | some there =>
    rcases patch_cases at_ with ⟨read, isRead, parses, reads, nothing⟩ | ⟨failed, unread, -⟩
    · have restored := reads.restored_iff
      simp only [isRead, parses, Option.some.injEq, exists_eq_left', forall_eq']
      by_cases clean : parser.err = none
      · simp only [clean, forall_const]
        exact restored
      refine iff_of_true (restored.mpr ?_) (fun other => absurd other clean)
      rw [nothing clean]
      exact ⟨fun _ => rfl, fun both => Nat.lt_irrefl 0 both.1.2.1⟩
    · simp [unread, failed]

theorem nonnegative_step (undone : parser.Undone) (before : parser.Nonnegative) :
    parser.parse.2.Nonnegative := by
  by_cases prunes : parser.Prunes
  · obtain ⟨lines, bytes⟩ := undone prunes
    rw [Nonnegative, lines, bytes]
    exact before
  · obtain ⟨lines, bytes⟩ := before
    cases at_ : parser.patchAt with
    | none =>
      obtain ⟨lines_, bytes_⟩ := (parse_of_none at_).1
      rw [Nonnegative, lines_, bytes_]
      exact ⟨lines, bytes⟩
    | some there =>
      rcases patch_cases at_ with ⟨read, isRead, parses, reads, -⟩ | ⟨-, -, -, t, lines_, bytes_⟩
      · have kept := not_or.mp (fun both => prunes ⟨read, isRead, both⟩)
        obtain ⟨-, -, counted⟩ := reads.account.2 (mt reads.collapses_iff.mpr kept.1)
        obtain ⟨bytes_, lines_⟩ := counted kept.2
        rw [parses]
        exact ⟨by dsimp only; omega, by dsimp only; omega⟩
      · exact ⟨by omega, by omega⟩

/-- The parser after so many calls. -/
def calls (src : Bytes) (limits : Limits) (k : Nat) : Parser :=
  (fun parser : Parser => parser.parse.2)^[k] (newDiffParser src limits)

/-- In all calls for an output the counters are restored by whatever is pruned, and not negative,
exactly if all the patches that are pruned can be restored. -/
theorem undone_throughout_iff (src : Bytes) (limits : Limits) :
    (∀ k, (calls src limits k).Undone ∧ (calls src limits k).Nonnegative) ↔
      ∀ k, (calls src limits k).Restorable := by
  constructor
  · intro undone k
    exact (undone_iff _).mp (undone k).1
  · intro restorable k
    refine ⟨(undone_iff _).mpr (restorable k), ?_⟩
    induction k with
    | zero => exact ⟨Int.le_refl 0, Int.le_refl 0⟩
    | succ k ih =>
      rw [calls, Function.iterate_succ_apply']
      exact nonnegative_step ((undone_iff _).mpr (restorable k)) ih

/-- A file of one added line. -/
def oneHunk : Bytes :=
  ascii ":100644 100644 " ++ List.replicate 40 49 ++ ascii " " ++ List.replicate 40 50 ++
    ascii " M\ta\n\ndiff --git a/a b/a\n@@ -0,0 +1 @@\n+b\n"

def onePatchByte : Limits := ⟨true, false, 9, 9, 9, 9, 9, 9, 1⟩

/-- The hunk header of the pruned patch is taken off the bytes, to which it was not added. -/
theorem hunk_header_subtracted :
    (calls oneHunk onePatchByte 1).currentDiff.tooLarge = true ∧
      (calls oneHunk onePatchByte 0).bytesProcessed = 0 ∧
      (calls oneHunk onePatchByte 1).bytesProcessed = -14 := by
  decide +kernel

end Parser

end Gitaly.DiffParser
