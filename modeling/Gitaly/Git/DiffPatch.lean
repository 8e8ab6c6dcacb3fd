import Gitaly.Git.DiffOutput

/- How the parser consumes the lines of a patch. -/
namespace Gitaly.DiffParser

open Text Regexp List

/-- The diff with more lines in its patch, so many of which are counted. -/
def extend (diff : Diff) (lines : List Bytes) (count : Nat) : Diff :=
  { diff with patch := diff.patch ++ unlines lines, lineCount := diff.lineCount + count }

theorem extend_nil (diff : Diff) : extend diff [] 0 = diff := by simp [extend]

theorem extend_extend (diff : Diff) (first second : List Bytes) (m n : Nat) :
    extend (extend diff first m) second n = extend diff (first ++ second) (m + n) := by
  simp [extend, Int.add_assoc]

namespace Parser

/-- The loop over the lines of a patch gets from one parser to another in that many
rounds. -/
def Consumes (rounds : Nat) (parser last : Parser) : Prop :=
  ∀ fuel done, ∃ doneThen,
    consumePatch (fuel + rounds) done parser = consumePatch fuel doneThen last

theorem Consumes.refl (parser : Parser) : Consumes 0 parser parser := fun _ done => ⟨done, rfl⟩

theorem Consumes.trans {first second third : Parser} {before after : Nat}
    (left : Consumes before first second) (right : Consumes after second third) :
    Consumes (after + before) first third := by
  intro fuel done
  obtain ⟨doneThen, earlier⟩ := left (fuel + after) done
  obtain ⟨doneLast, later⟩ := right fuel doneThen
  exact ⟨doneLast, by rw [← Nat.add_assoc, earlier, later]⟩

variable {parser : Parser} {line rest : Bytes}

theorem consumes_line (reader : parser.patchReader = line ++ newline :: rest)
    (inside : (ascii "diff --git").isPrefixOf ((line ++ newline :: rest).take 10) = false)
    (clean : (parser.consume ((line ++ newline :: rest).take 10)).err = none) :
    Consumes 1 parser (parser.consume ((line ++ newline :: rest).take 10)) := by
  rw [← reader] at inside clean ⊢
  intro fuel done
  have unread : parser.patchReader ≠ [] := by simp [reader]
  refine ⟨done || decide ((parser.patchReader.take 10).length < 10), ?_⟩
  rw [consumePatch, if_neg (fun ended => unread ended.2)]
  simp only [inside, clean, Option.isSome_none, Bool.false_eq_true, if_false]

theorem readBytes_line (plain : newline ∉ line) :
    readBytes (line ++ newline :: rest) = (line ++ [newline], rest) := by
  rw [readBytes, cutLine_append plain]

theorem consumeLine_line (reader : parser.patchReader = line ++ newline :: rest)
    (plain : newline ∉ line) : parser.consumeLine false = { parser with patchReader := rest } := by
  simp [consumeLine, reader, readBytes_line plain]

/-- What the loop changes in the parser. -/
def advance (parser : Parser) (reader : Bytes) (diff : Diff) (lines bytes : Int) : Parser :=
  { parser with
    patchReader := reader
    currentDiff := diff
    linesProcessed := lines
    bytesProcessed := bytes }

theorem consumes_nothing (reader : parser.patchReader = rest) :
    ∃ lines bytes, Consumes 0 parser (parser.advance rest parser.currentDiff lines bytes) := by
  subst reader
  exact ⟨parser.linesProcessed, parser.bytesProcessed, Consumes.refl parser⟩

theorem consumeChunkLine_line (parser : Parser)
    (reader : parser.patchReader = line ++ newline :: rest) (plain : newline ∉ line)
    (counted : Bool) :
    ∃ lines bytes, parser.consumeChunkLine counted =
      parser.advance rest (extend parser.currentDiff [line] counted.toNat) lines bytes := by
  have patch : line ++ [newline] = unlines [line] := by simp
  simp only [consumeChunkLine, reader, readBytes_line plain, patch]
  cases counted with
  | false =>
    exact ⟨parser.linesProcessed, parser.bytesProcessed, by simp [advance, extend]⟩
  | true => exact ⟨_, _, rfl⟩

section

variable (reader : parser.patchReader = line ++ newline :: rest) (plain : newline ∉ line)
  (clean : parser.err = none)
  (inside : (ascii "diff --git").isPrefixOf ((line ++ newline :: rest).take 10) = false)
include reader plain clean inside

theorem consumes_skipped
    (skipped : parser.consume ((line ++ newline :: rest).take 10) = parser.consumeLine false) :
    Consumes 1 parser { parser with patchReader := rest } := by
  rw [← consumeLine_line reader plain, ← skipped]
  refine consumes_line reader inside ?_
  rw [skipped, consumeLine_line reader plain]
  exact clean

/-- Where the line is taken, the parser may have been marked as binary first. -/
theorem consumes_chunk (diff : Diff) (counted : Bool)
    (taken : parser.consume ((line ++ newline :: rest).take 10) =
      { parser with currentDiff := diff }.consumeChunkLine counted) :
    ∃ lines bytes,
      Consumes 1 parser (parser.advance rest (extend diff [line] counted.toNat) lines bytes) := by
  obtain ⟨lines, bytes, consumed⟩ :=
    consumeChunkLine_line { parser with currentDiff := diff } reader plain counted
  refine ⟨lines, bytes, ?_⟩
  have whole := taken.trans consumed
  have step := consumes_line reader inside (by rw [whole]; exact clean)
  rwa [whole] at step

end

end Parser

theorem HeaderLine.newline_notMem (line : HeaderLine) : newline ∉ line.text := by
  have kind : newline ∉ line.kind.text := by cases line.kind <;> decide
  exact mem_append.not.mpr (not_or.mpr ⟨kind, line.value.plain⟩)

theorem HunkLine.newline_notMem (line : HunkLine) : newline ∉ line.text := by
  have mark : newline ≠ line.kind.mark := by cases line.kind <;> decide
  exact mem_cons.not.mpr (not_or.mpr ⟨mark, line.content.plain⟩)

theorem newline_notMem_ascii {text : Bytes} (first : newline ∉ text) (line : Line) :
    newline ∉ text ++ line.text :=
  mem_append.not.mpr (not_or.mpr ⟨first, line.plain⟩)

namespace Parser

variable {parser : Parser} {rest : Bytes}

theorem consumes_header (header : List HeaderLine)
    (reader : parser.patchReader = unlines (header.map HeaderLine.text) ++ rest)
    (clean : parser.err = none) :
    Consumes header.length parser { parser with patchReader := rest } := by
  induction header generalizing parser with
  | nil =>
    have same : { parser with patchReader := rest } = parser := by
      cases parser
      simp_all
    rw [same]
    exact Consumes.refl parser
  | cons line header ih =>
    rw [map_cons, unlines_cons, append_assoc, cons_append] at reader
    have first := consumes_skipped reader line.newline_notMem clean
      (by rw [HeaderLine.text]; cases line.kind <;> rfl)
      (by rw [HeaderLine.text]; cases line.kind <;> rfl)
    exact first.trans (ih rfl clean)

theorem consumes_file (parser : Parser) {mark : Bytes}
    (names : mark = ascii "--- " ∨ mark = ascii "+++ ") (line : Line)
    (reader : parser.patchReader = mark ++ line.text ++ newline :: rest)
    (clean : parser.err = none) (before : parser.currentDiff.patch = []) :
    Consumes 1 parser { parser with patchReader := rest } := by
  have outside : parser.isParsingChunkLines = false := by simp [isParsingChunkLines, before]
  have plain : newline ∉ mark := by rcases names with rfl | rfl <;> decide
  refine consumes_skipped reader (newline_notMem_ascii plain line) clean ?_ ?_
  · rcases names with rfl | rfl <;> rfl
  · rw [consume, outside]
    rcases names with rfl | rfl <;> rfl

theorem consume_hunkLine (kind : HunkLineKind) (s : Bytes)
    (parsing : parser.isParsingChunkLines = true) :
    parser.consume ((kind.mark :: s).take 10) = parser.consumeChunkLine true := by
  simp only [consume, parsing, Bool.not_true, Bool.and_false, Bool.false_eq_true, if_false]
  cases kind <;> rfl

theorem consumes_hunkLines (parser : Parser) (lines : List HunkLine)
    (reader : parser.patchReader = unlines (lines.map HunkLine.text) ++ rest)
    (clean : parser.err = none) (begun : parser.currentDiff.patch ≠ []) :
    ∃ n bytes, Consumes lines.length parser (parser.advance rest
      (extend parser.currentDiff (lines.map HunkLine.text) lines.length) n bytes) := by
  induction lines generalizing parser with
  | nil =>
    rw [map_nil, length_nil, extend_nil]
    exact consumes_nothing reader
  | cons line lines ih =>
    rw [map_cons, unlines_cons, append_assoc, cons_append] at reader
    have parsing : parser.isParsingChunkLines = true := by simp [isParsingChunkLines, begun]
    obtain ⟨n, bytes, first⟩ := consumes_chunk reader line.newline_notMem clean
      (by rw [HunkLine.text]; cases line.kind <;> rfl) parser.currentDiff true
      (consume_hunkLine line.kind _ parsing)
    obtain ⟨n, bytes, others⟩ := ih (parser.advance (unlines (lines.map HunkLine.text) ++ rest)
      (extend parser.currentDiff [line.text] 1) n bytes) rfl clean (by simp [advance, extend])
    have counts : (line :: lines).length = 1 + lines.length := Nat.add_comm _ _
    rw [map_cons, counts, ← singleton_append, ← extend_extend, Nat.add_comm]
    exact ⟨n, bytes, first.trans others⟩

theorem consumes_hunk (parser : Parser) (hunk : Hunk)
    (reader : parser.patchReader = unlines hunk.text ++ rest) (clean : parser.err = none) :
    ∃ n bytes, Consumes hunk.text.length parser (parser.advance rest
      (extend parser.currentDiff hunk.text hunk.lines.length) n bytes) := by
  rw [Hunk.text, unlines_cons, append_assoc, cons_append] at reader
  obtain ⟨n, bytes, first⟩ := consumes_chunk reader
    (newline_notMem_ascii (by decide) hunk.range) clean rfl parser.currentDiff false rfl
  obtain ⟨n, bytes, others⟩ := consumes_hunkLines (parser.advance _
    (extend parser.currentDiff [ascii "@@" ++ hunk.range.text] 0) n bytes) hunk.lines rfl clean
    (by simp [advance, extend])
  have rounds : hunk.text.length = hunk.lines.length + 1 := by simp [Hunk.text]
  have whole : extend (extend parser.currentDiff [ascii "@@" ++ hunk.range.text] 0)
      (hunk.lines.map HunkLine.text) hunk.lines.length =
      extend parser.currentDiff hunk.text hunk.lines.length := by
    rw [extend_extend, Nat.zero_add]
    rfl
  rw [rounds, ← whole]
  exact ⟨n, bytes, first.trans others⟩

theorem consumes_hunks (parser : Parser) (hunks : List Hunk)
    (reader : parser.patchReader = unlines (hunks.flatMap Hunk.text) ++ rest)
    (clean : parser.err = none) :
    ∃ n bytes, Consumes (hunks.flatMap Hunk.text).length parser (parser.advance rest
      (extend parser.currentDiff (hunks.flatMap Hunk.text)
        (hunks.map (fun hunk => hunk.lines.length)).sum) n bytes) := by
  induction hunks generalizing parser with
  | nil =>
    rw [flatMap_nil, length_nil, map_nil, sum_nil, extend_nil]
    exact consumes_nothing reader
  | cons hunk hunks ih =>
    rw [flatMap_cons, unlines_append, append_assoc] at reader
    obtain ⟨n, bytes, first⟩ := consumes_hunk parser hunk reader clean
    obtain ⟨n, bytes, others⟩ := ih (parser.advance (unlines (hunks.flatMap Hunk.text) ++ rest)
      (extend parser.currentDiff hunk.text hunk.lines.length) n bytes) rfl clean
    rw [flatMap_cons, map_cons, sum_cons, ← extend_extend, length_append, Nat.add_comm]
    exact ⟨n, bytes, first.trans others⟩

theorem consumes_preamble (patch : Patch)
    (reader : parser.patchReader = unlines patch.preamble ++ rest) (clean : parser.err = none)
    (before : parser.currentDiff.patch = []) :
    Consumes patch.preamble.length parser { parser with patchReader := rest } := by
  obtain ⟨header, body⟩ := patch
  cases body with
  | empty =>
    simp only [Patch.preamble, append_nil, length_map] at reader ⊢
    exact consumes_header header reader clean
  | binary names =>
    simp only [Patch.preamble, append_nil, length_map] at reader ⊢
    exact consumes_header header reader clean
  | hunks old new hunks =>
    simp only [Patch.preamble, unlines_append, unlines_cons, unlines_nil, append_assoc,
      cons_append, nil_append] at reader
    have first := consumes_header header reader clean
    have second := first.trans
      (consumes_file _ (.inl rfl) old (append_assoc _ _ _).symm clean before)
    have third := second.trans
      (consumes_file _ (.inr rfl) new (append_assoc _ _ _).symm clean before)
    have rounds : (Patch.mk header (.hunks old new hunks)).preamble.length =
        1 + (1 + header.length) := by
      simp [Patch.preamble]
      omega
    rw [rounds]
    exact third

/-- The diff has no patch yet. -/
structure Blank (diff : Diff) : Prop where
  patch : diff.patch = []
  lineCount : diff.lineCount = 0
  binary : diff.binary = false

theorem withPatch_eq_extend {diff : Diff} (blank : Blank diff) (patch : Patch) :
    Item.withPatch diff patch =
      extend { diff with binary := patch.binary } patch.content patch.lineCount := by
  simp [Item.withPatch, extend, blank.patch, blank.lineCount]

theorem consumes_content (parser : Parser) (patch : Patch)
    (reader : parser.patchReader = unlines patch.content ++ rest) (clean : parser.err = none)
    (blank : Blank parser.currentDiff) :
    ∃ n bytes, Consumes patch.content.length parser
      (parser.advance rest (Item.withPatch parser.currentDiff patch) n bytes) := by
  rw [withPatch_eq_extend blank]
  obtain ⟨header, body⟩ := patch
  have unmarked : { parser.currentDiff with binary := false } = parser.currentDiff := by
    rw [← blank.binary]
  cases body with
  | empty =>
    simp only [Patch.content, Patch.lineCount, Patch.binary, extend_nil, unmarked]
    exact consumes_nothing reader
  | binary names =>
    have plain : newline ∉ ascii "Binary files " ++ names.text ++ ascii " differ" :=
      mem_append.not.mpr (not_or.mpr ⟨newline_notMem_ascii (by decide) names, by decide⟩)
    rw [Patch.content, unlines_cons, unlines_nil, append_assoc, cons_append, nil_append] at reader
    exact consumes_chunk reader plain clean rfl { parser.currentDiff with binary := true } true
      rfl
  | hunks old new hunks =>
    simp only [Patch.content, Patch.lineCount, Patch.binary, unmarked]
    exact consumes_hunks parser hunks reader clean

theorem consumes_patch (parser : Parser) (patch : Patch)
    (reader : parser.patchReader = unlines patch.lines ++ rest) (clean : parser.err = none)
    (blank : Blank parser.currentDiff) :
    ∃ n bytes, Consumes patch.lines.length parser
      (parser.advance rest (Item.withPatch parser.currentDiff patch) n bytes) := by
  rw [Patch.lines, unlines_append, append_assoc] at reader
  have first := consumes_preamble patch reader clean blank.patch
  obtain ⟨n, bytes, others⟩ := consumes_content
    { parser with patchReader := unlines patch.content ++ rest } patch rfl clean blank
  rw [Patch.lines, length_append, Nat.add_comm]
  exact ⟨n, bytes, first.trans others⟩

end Parser

/-- The patches that are left to read. -/
def blocksText (blocks : List (Entry × Patch)) : Bytes :=
  unlines (blocks.flatMap (fun block => block.1.header :: block.2.lines))

theorem blocksText_cons (entry : Entry) (patch : Patch) (blocks : List (Entry × Patch)) :
    blocksText ((entry, patch) :: blocks) =
      entry.header ++ newline :: (unlines patch.lines ++ blocksText blocks) := by
  simp [blocksText]

namespace Parser

variable {parser : Parser} {blocks : List (Entry × Patch)}

/-- The loop ends before the next header, or a round after the last line. -/
theorem consumePatch_end (ended : parser.patchReader = blocksText blocks)
    (clean : parser.err = none) (fuel : Nat) (done : Bool) :
    consumePatch (fuel + 2) done parser = .ok parser := by
  cases blocks with
  | nil =>
    have empty : parser.patchReader = [] := ended
    have idle : parser.consume [] = parser := by
      cases parser
      subst empty
      rfl
    cases done with
    | true => rw [consumePatch, if_pos ⟨rfl, empty⟩]
    | false =>
      rw [consumePatch, if_neg (fun both => Bool.false_ne_true both.1)]
      simp only [empty, take_nil, idle, clean]
      rw [if_neg (by decide), if_neg (by decide), consumePatch]
      exact if_pos ⟨rfl, empty⟩
  | cons block blocks =>
    rw [blocksText_cons] at ended
    rw [consumePatch, if_neg (by simp [ended])]
    rw [ended]
    rfl

/-- No limit makes the parser drop what it has read, and nothing has failed. -/
structure Unlimited (parser : Parser) : Prop where
  enforce : parser.limits.enforceLimits = false
  collapse : parser.limits.collapseDiffs = false
  running : parser.finished = false
  clean : parser.err = none

theorem enforce_collapse (unlimited : Unlimited parser) : parser.collapse.enforce = parser := by
  have kept : parser.collapse = parser := by simp [Parser.collapse, unlimited.collapse]
  simp [kept, Parser.enforce, unlimited.enforce]

theorem readPatch_taken (parser : Parser) {patch : Patch} (unlimited : Unlimited parser)
    (blank : Blank parser.currentDiff)
    (same : parser.nextPatchFromPath = parser.currentDiff.fromPath)
    (reader : parser.patchReader = unlines patch.lines ++ blocksText blocks) :
    ∃ n bytes, parser.readPatch = .ok ({ parser with nextPatchFromPath := [] }.advance
      (blocksText blocks) (Item.withPatch parser.currentDiff patch) n bytes) := by
  obtain ⟨n, bytes, consumes⟩ := consumes_patch
    { parser with nextPatchFromPath := [] } patch reader unlimited.clean blank
  refine ⟨n, bytes, ?_⟩
  have enough : ∃ fuel, parser.patchReader.length + 2 = fuel + 2 + patch.lines.length := by
    have lines := length_le_unlines patch.lines
    rw [reader, length_append]
    exact ⟨(unlines patch.lines).length - patch.lines.length + (blocksText blocks).length, by omega⟩
  obtain ⟨fuel, enough⟩ := enough
  obtain ⟨done, rounds⟩ := consumes (fuel + 2) false
  generalize reached : { parser with nextPatchFromPath := [] }.advance (blocksText blocks)
    (Item.withPatch parser.currentDiff patch) n bytes = last at rounds ⊢
  have remaining : last.patchReader = blocksText blocks := by rw [← reached]; rfl
  have kept : Unlimited last := by
    rw [← reached]
    exact ⟨unlimited.enforce, unlimited.collapse, unlimited.running, unlimited.clean⟩
  rw [readPatch, if_neg (not_not_intro same), enough, rounds, consumePatch_end remaining kept.clean]
  exact congrArg Except.ok (enforce_collapse kept)

end Parser

end Gitaly.DiffParser
