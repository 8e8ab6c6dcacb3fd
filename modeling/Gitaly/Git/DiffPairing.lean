import Gitaly.Git.DiffPatch

/- How the parser pairs the raw lines with the patches: the next patch goes to the first
raw line with the path that is read from its header. -/
namespace Gitaly.DiffParser

open Text Regexp List

/-- What is left of the raw lines, and what they are about. The addition of a type change
has no line until its deletion has been reported. -/
inductive Upcoming : List Bytes → List Item → Prop where
  | nil : Upcoming [] []
  | single {entry : Entry} {patch : Option Patch} {lines : List Bytes} {items : List Item}
      (digits : Nat) (whole : entry.status ≠ .typeChanged) (later : Upcoming lines items) :
      Upcoming ((entry.rawLine digits ++ [newline]) :: lines) (⟨entry, false, patch⟩ :: items)
  | typeChange {entry : Entry} {patch : Option Patch} {lines : List Bytes} {items : List Item}
      (digits : Nat) (split : entry.status = .typeChanged)
      (later : Upcoming ((entry.addition.rawLine 1 ++ [newline]) :: lines) items) :
      Upcoming ((entry.rawLine digits ++ [newline]) :: lines) (⟨entry, true, patch⟩ :: items)

theorem upcoming_changes (changes : List Change) :
    Upcoming (changes.map (fun change => change.entry.rawLine 6 ++ [newline]))
      (changes.flatMap Change.items) := by
  induction changes with
  | nil => exact .nil
  | cons change changes ih =>
    rw [map_cons, flatMap_cons, Change.items]
    split
    · rename_i typeChanged
      have added : change.entry.addition.status ≠ .typeChanged := Status.noConfusion
      exact .typeChange 6 typeChanged (.single 1 added ih)
    · rename_i whole
      exact .single 6 whole ih

theorem formatOctal_mode (mode : Fin (8 ^ 6)) :
    formatOctal (mode.val : Int) = Numeral.format 8 1 mode := by
  rw [formatOctal, if_neg (by omega), Int.toNat_natCast]

theorem rawLine_addition (entry : Entry) :
    ascii ":" ++ formatOctal 0 ++ ascii " " ++ formatOctal entry.newMode ++ ascii " " ++ zeroOID ++
      ascii " " ++ entry.toID.text ++ ascii " A\t" ++ entry.fromPath.text ++ ascii "\n" =
      entry.addition.rawLine 1 ++ [newline] := by
  rw [formatOctal_mode]
  simp only [Entry.rawLine, append_assoc]
  rfl

theorem letter_typeChanged (status : Status) : status.letter = 84 ↔ status = .typeChanged := by
  cases status <;> decide

theorem Item.blank_fromPath (item : Item) : item.blank.fromPath = item.entry.fromPath.text := by
  unfold Item.blank
  split <;> rfl

theorem Item.blank_blank (item : Item) : Parser.Blank item.blank := by
  unfold Item.blank
  split <;> exact ⟨rfl, rfl, rfl⟩

namespace Parser

variable {parser : Parser} {item : Item} {items : List Item}

theorem initializeCurrentDiff_upcoming (upcoming : Upcoming parser.rawLines (item :: items)) :
    ∃ lines, Upcoming lines items ∧ parser.initializeCurrentDiff = .ok { parser with
      currentDiff := item.blank
      rawLines := lines
      filesProcessed := parser.filesProcessed + 1 } := by
  unfold initializeCurrentDiff
  generalize parser.rawLines = lines at upcoming ⊢
  cases upcoming with
  | single digits whole later =>
    rename_i entry patch lines
    refine ⟨lines, later, ?_⟩
    rw [headD_cons, entry.parseRawLine_rawLine digits]
    have other : entry.diff.status ≠ 84 := mt (letter_typeChanged _).mp whole
    simp only [if_neg other]
    rfl
  | typeChange digits split later =>
    rename_i entry patch lines
    refine ⟨_, later, ?_⟩
    rw [headD_cons, entry.parseRawLine_rawLine digits]
    have typeChanged : entry.diff.status = 84 := (letter_typeChanged _).mpr split
    simp only [if_pos typeChanged, handleTypeChangeDiff]
    rw [← rawLine_addition]
    rfl

/-- The patches that are left. Of the first one the header may have been read. -/
inductive Ready (parser : Parser) : List (Entry × Patch) → Prop where
  | unread {blocks : List (Entry × Patch)} (nothing : parser.nextPatchFromPath = [])
      (reader : parser.patchReader = blocksText blocks) : Ready parser blocks
  | pending {entry : Entry} {patch : Patch} {blocks : List (Entry × Patch)}
      (next : parser.nextPatchFromPath = entry.readPath) (something : entry.readPath ≠ [])
      (reader : parser.patchReader = unlines patch.lines ++ blocksText blocks) :
      Ready parser ((entry, patch) :: blocks)

variable {entry : Entry} {patch : Patch} {blocks : List (Entry × Patch)}

theorem findNextPatchFromPath_nil (ready : Ready parser []) :
    parser.findNextPatchFromPath = .ok parser ∧ parser.nextPatchFromPath = [] := by
  obtain ⟨nothing, reader⟩ | _ := ready
  have empty : parser.patchReader = [] := reader
  have same : { parser with patchReader := [] } = parser := by rw [← empty]
  refine ⟨?_, nothing⟩
  rw [findNextPatchFromPath, if_neg (not_not_intro nothing), empty]
  exact congrArg Except.ok same

theorem findNextPatchFromPath_cons (ready : Ready parser ((entry, patch) :: blocks)) :
    parser.findNextPatchFromPath = .ok { parser with
      patchReader := unlines patch.lines ++ blocksText blocks
      nextPatchFromPath := entry.readPath } := by
  cases ready with
  | unread nothing reader =>
    obtain ⟨captures, found, path⟩ := entry.findSubmatch_header
    rw [blocksText_cons] at reader
    rw [findNextPatchFromPath, if_neg (not_not_intro nothing), reader,
      cutLine_append entry.newline_notMem_header]
    simp only [found, path, entry.unescape_readPath]
  | pending next something reader =>
    rw [findNextPatchFromPath, if_pos (next ▸ something), ← next, ← reader]

/-- The parser has got to a diff, and these items are left. -/
structure Reached (items : List Item) (diff : Diff) (parser : Parser) : Prop where
  unlimited : Unlimited parser
  upcoming : Upcoming parser.rawLines items
  current : parser.currentDiff = diff

section step

variable (unlimited : Unlimited parser) (upcoming : Upcoming parser.rawLines (item :: items))
include unlimited upcoming

theorem exists_initialized (ready : Ready parser blocks) :
    ∃ middle, parser.initializeCurrentDiff = .ok middle ∧ Reached items item.blank middle ∧
      Ready middle blocks := by
  obtain ⟨lines, later, initialized⟩ := initializeCurrentDiff_upcoming upcoming
  refine ⟨_, initialized, ⟨?_, later, rfl⟩, ?_⟩
  · exact ⟨unlimited.enforce, unlimited.collapse, unlimited.running, unlimited.clean⟩
  · cases ready with
    | unread nothing reader => exact .unread nothing reader
    | pending next something reader => exact .pending next something reader

theorem parse_of_initialized {middle : Parser}
    (initialized : parser.initializeCurrentDiff = .ok middle) :
    parser.parse =
      match middle.findNextPatchFromPath >>= readPatch with
      | .error last => (false, last)
      | .ok last => (true, last) := by
  have unread : parser.rawLines ≠ [] := by
    generalize parser.rawLines = lines at upcoming
    cases upcoming <;> exact cons_ne_nil _ _
  rw [parse, if_neg (by simp [unlimited.running, unread]), initialized]
  rfl

theorem parse_of_read {middle last : Parser}
    (initialized : parser.initializeCurrentDiff = .ok middle)
    (read : (middle.findNextPatchFromPath >>= readPatch) = .ok last) :
    parser.parse = (true, last) := by
  rw [parse_of_initialized unlimited upcoming initialized, read]

theorem parse_alone (ready : Ready parser []) :
    ∃ last, parser.parse = (true, last) ∧ Reached items item.blank last ∧ Ready last [] := by
  obtain ⟨middle, initialized, reached, ready⟩ := exists_initialized unlimited upcoming ready
  obtain ⟨found, nothing⟩ := findNextPatchFromPath_nil ready
  refine ⟨middle, parse_of_read unlimited upcoming initialized ?_, reached, ready⟩
  have different : middle.nextPatchFromPath ≠ middle.currentDiff.fromPath := by
    rw [nothing, reached.current, item.blank_fromPath]
    exact item.entry.fromPath.nonempty.symm
  rw [found]
  exact if_pos different

/-- The next patch has the path of the item. -/
theorem parse_taken (ready : Ready parser ((entry, patch) :: blocks))
    (same : entry.readPath = item.entry.fromPath.text) :
    ∃ last, parser.parse = (true, last) ∧
      Reached items (Item.withPatch item.blank patch) last ∧ Ready last blocks := by
  obtain ⟨middle, initialized, reached, ready⟩ := exists_initialized unlimited upcoming ready
  have kept := reached.unlimited
  obtain ⟨n, bytes, taken⟩ := readPatch_taken
    { middle with
      patchReader := unlines patch.lines ++ blocksText blocks
      nextPatchFromPath := entry.readPath }
    ⟨kept.enforce, kept.collapse, kept.running, kept.clean⟩
    (by rw [reached.current]; exact item.blank_blank)
    (by rw [reached.current, item.blank_fromPath]; exact same) rfl
  have read := (congrArg (· >>= readPatch) (findNextPatchFromPath_cons ready)).trans taken
  refine ⟨_, parse_of_read unlimited upcoming initialized read, ⟨?_, reached.upcoming, ?_⟩, ?_⟩
  · exact ⟨kept.enforce, kept.collapse, kept.running, kept.clean⟩
  · exact congrArg (Item.withPatch · patch) reached.current
  · exact .unread rfl rfl

/-- The next patch has another path, and is kept for later. -/
theorem parse_passed (ready : Ready parser ((entry, patch) :: blocks))
    (different : entry.readPath ≠ item.entry.fromPath.text) :
    ∃ last, parser.parse = (true, last) ∧ Reached items item.blank last ∧
      last.nextPatchFromPath = entry.readPath ∧
      last.patchReader = unlines patch.lines ++ blocksText blocks := by
  obtain ⟨middle, initialized, reached, ready⟩ := exists_initialized unlimited upcoming ready
  have kept := reached.unlimited
  refine ⟨{ middle with
    patchReader := unlines patch.lines ++ blocksText blocks
    nextPatchFromPath := entry.readPath }, parse_of_read unlimited upcoming initialized ?_,
    ⟨⟨kept.enforce, kept.collapse, kept.running, kept.clean⟩, reached.upcoming, reached.current⟩,
    rfl, rfl⟩
  rw [findNextPatchFromPath_cons ready]
  refine if_pos ?_
  rw [reached.current, item.blank_fromPath]
  exact different

/-- A patch whose header had no path to it leaves the parser in the middle of it. -/
theorem parse_lost (line : Bytes) {rest : Bytes} (nothing : parser.nextPatchFromPath = [])
    (reader : parser.patchReader = line ++ newline :: rest) (plain : newline ∉ line)
    (inside : (ascii "diff --git ").isPrefixOf (line ++ [newline]) = false) :
    parser.parse.1 = false := by
  have mismatch : findSubmatch diffHeaderRegexp (line ++ [newline]) = none := by
    refine findSubmatch_line_none plain (run_literal_none fun found => ?_) rfl
    exact Bool.false_ne_true (inside.symm.trans (List.isPrefixOf_iff_prefix.mpr found))
  obtain ⟨lines, -, initialized⟩ := initializeCurrentDiff_upcoming upcoming
  rw [parse_of_initialized unlimited upcoming initialized, findNextPatchFromPath,
    if_neg (not_not_intro nothing)]
  simp only [reader, cutLine_append plain, mismatch]
  rfl

end step

theorem parse_nil (upcoming : Upcoming parser.rawLines []) :
    parser.parse = (false, { parser with patchReader := [] }) := by
  have done : parser.rawLines = [] := by
    generalize parser.rawLines = lines at upcoming
    cases upcoming
    rfl
  rw [parse, if_pos (.inr done)]

end Parser

end Gitaly.DiffParser
