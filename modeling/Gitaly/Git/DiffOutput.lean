import Gitaly.Git.Diff

/- What git diff prints with raw lines and patches, and what the parser reads of a raw line
and of the header of a patch. -/
namespace Gitaly.DiffParser

open Text Regexp Numeral Captures List

/-- A byte that does not make git put quotes around a path. -/
def unquoted (c : UInt8) : Bool := 32 ≤ c && c != 34 && c != 92 && c != 127

structure Path where
  text : Bytes
  nonempty : text ≠ []
  plain : ∀ c ∈ text, unquoted c = true

structure ObjectID where
  text : Bytes
  length : text.length = 40
  xdigits : ∀ c ∈ text, xdigit c = true

def ObjectID.zero : ObjectID := ⟨zeroOID, rfl, all_eq_true.mp rfl⟩

inductive Status where
  | added
  | deleted
  | typeChanged
  | unmerged
  | unknown
  | modified
  | renamed
  | copied
deriving DecidableEq

def Status.letter : Status → UInt8
  | .added => 65
  | .deleted => 68
  | .typeChanged => 84
  | .unmerged => 85
  | .unknown => 88
  | .modified => 77
  | .renamed => 82
  | .copied => 67

instance instNeZeroModes : NeZero (8 ^ 6) := ⟨by decide⟩

/-- A file that differs. Its raw line has a second path if it is renamed or copied. -/
structure Entry where
  oldMode : Fin (8 ^ 6)
  newMode : Fin (8 ^ 6)
  fromID : ObjectID
  toID : ObjectID
  status : Status
  score : Option Nat
  fromPath : Path
  toPath : Path
  samePath : status ≠ .renamed → status ≠ .copied → toPath = fromPath

namespace Entry

variable (entry : Entry)

def paths : Bytes :=
  if entry.status = .renamed ∨ entry.status = .copied then
    entry.fromPath.text ++ (ascii "\t" ++ entry.toPath.text)
  else entry.fromPath.text

def scoreText : Bytes := (entry.score.map (format 10 3)).getD []

/-- Git prints modes with at least six digits. -/
def rawLine (digits : Nat) (entry : Entry) : Bytes :=
  ascii ":" ++ (format 8 digits entry.oldMode ++ (ascii " " ++
    (format 8 digits entry.newMode ++ (ascii " " ++ (entry.fromID.text ++ (ascii " " ++
    (entry.toID.text ++ (ascii " " ++ ((entry.status.letter :: entry.scoreText) ++ (ascii "\t" ++
    entry.paths))))))))))

/-- The paths of a header, which are one text to the parser. -/
def headerPaths : Bytes := entry.fromPath.text ++ (ascii " b/" ++ entry.toPath.text)

/-- The header of the patch, if there is one. -/
def header : Bytes := ascii "diff --git a/" ++ entry.headerPaths

/-- What the raw line says. -/
def diff : Diff :=
  { status := entry.status.letter
    fromID := entry.fromID.text
    toID := entry.toID.text
    oldMode := entry.oldMode
    newMode := entry.newMode
    fromPath := entry.fromPath.text
    toPath := entry.toPath.text }

/-- The second half of a type change: the file is added in its new type. -/
def addition : Entry :=
  { entry with
    oldMode := 0
    fromID := .zero
    status := .added
    score := none
    toPath := entry.fromPath
    samePath := fun _ _ => rfl }

end Entry

structure Line where
  text : Bytes
  plain : newline ∉ text

inductive HeaderKind where
  | oldMode
  | newMode
  | deletedFileMode
  | newFileMode
  | copyFrom
  | copyTo
  | renameFrom
  | renameTo
  | similarityIndex
  | dissimilarityIndex
  | index
deriving DecidableEq

def HeaderKind.text : HeaderKind → Bytes
  | .oldMode => ascii "old mode "
  | .newMode => ascii "new mode "
  | .deletedFileMode => ascii "deleted file mode "
  | .newFileMode => ascii "new file mode "
  | .copyFrom => ascii "copy from "
  | .copyTo => ascii "copy to "
  | .renameFrom => ascii "rename from "
  | .renameTo => ascii "rename to "
  | .similarityIndex => ascii "similarity index "
  | .dissimilarityIndex => ascii "dissimilarity index "
  | .index => ascii "index "

structure HeaderLine where
  kind : HeaderKind
  value : Line

def HeaderLine.text (line : HeaderLine) : Bytes := line.kind.text ++ line.value.text

inductive HunkLineKind where
  | context
  | added
  | removed
  | noNewline
deriving DecidableEq

def HunkLineKind.mark : HunkLineKind → UInt8
  | .context => 32
  | .added => 43
  | .removed => 45
  | .noNewline => 92

structure HunkLine where
  kind : HunkLineKind
  content : Line

def HunkLine.text (line : HunkLine) : Bytes := line.kind.mark :: line.content.text

structure Hunk where
  range : Line
  lines : List HunkLine

def Hunk.text (hunk : Hunk) : List Bytes :=
  (ascii "@@" ++ hunk.range.text) :: hunk.lines.map HunkLine.text

inductive Body where
  | empty
  | binary (names : Line)
  | hunks (old new : Line) (hunks : List Hunk)

/-- What comes after the header line. -/
structure Patch where
  header : List HeaderLine
  body : Body

namespace Patch

variable (patch : Patch)

/-- The lines that are not part of the patch bytes. -/
def preamble : List Bytes :=
  patch.header.map HeaderLine.text ++
    match patch.body with
    | .hunks old new _ => [ascii "--- " ++ old.text, ascii "+++ " ++ new.text]
    | _ => []

def content : List Bytes :=
  match patch.body with
  | .empty => []
  | .binary names => [ascii "Binary files " ++ names.text ++ ascii " differ"]
  | .hunks _ _ hunks => hunks.flatMap Hunk.text

def binary : Bool :=
  match patch.body with
  | .binary _ => true
  | _ => false

def lineCount : Nat :=
  match patch.body with
  | .empty => 0
  | .binary _ => 1
  | .hunks _ _ hunks => (hunks.map (fun hunk => hunk.lines.length)).sum

def lines : List Bytes := patch.preamble ++ patch.content

end Patch

/-- An entry and its patch, if that is printed. A type change has a second patch, that of
the addition. -/
structure Change where
  entry : Entry
  patch : Option Patch
  addition : Option Patch
  single : entry.status ≠ .typeChanged → addition = none

/-- What one diff is about. -/
structure Item where
  entry : Entry
  deletion : Bool
  patch : Option Patch

def Change.items (change : Change) : List Item :=
  if change.entry.status = .typeChanged then
    [⟨change.entry, true, change.patch⟩, ⟨change.entry.addition, false, change.addition⟩]
  else [⟨change.entry, false, change.patch⟩]

namespace Item

/-- The diff without its patch. -/
def blank (item : Item) : Diff :=
  if item.deletion then { item.entry.diff with newMode := 0, toID := zeroOID }
  else item.entry.diff

def withPatch (diff : Diff) (patch : Patch) : Diff :=
  { diff with
    binary := patch.binary
    lineCount := patch.lineCount
    patch := unlines patch.content }

/-- The diff with exactly its own patch. -/
def diff (item : Item) : Diff :=
  match item.patch with
  | none => item.blank
  | some patch => withPatch item.blank patch

def block (item : Item) : List Bytes :=
  match item.patch with
  | none => []
  | some patch => item.entry.header :: patch.lines

end Item

/-- Without any difference nothing is printed. -/
def output (changes : List Change) : Bytes :=
  if changes = [] then []
  else
    unlines (changes.map (fun change => change.entry.rawLine 6)) ++ [newline] ++
      unlines ((changes.flatMap Change.items).flatMap Item.block)

theorem notMem_of_accepted {accepts : UInt8 → Bool} {s : Bytes} {c : UInt8}
    (accepted : ∀ c ∈ s, accepts c = true) (rejected : accepts c = false) : c ∉ s :=
  fun member => Bool.false_ne_true (rejected.symm.trans (accepted c member))

namespace Path

variable (path : Path) {c : UInt8}

theorem notMem (quoted : unquoted c = false) : c ∉ path.text := notMem_of_accepted path.plain quoted

theorem newline_notMem : newline ∉ path.text := path.notMem rfl

theorem unquoteBytes_text : unquoteBytes path.text = path.text := by
  refine if_neg ?_
  rintro ⟨-, first, -⟩
  exact path.notMem rfl (mem_of_mem_head? (Option.mem_def.mpr first))

end Path

theorem unescape_of_notMem {s : Bytes} (plain : 92 ∉ s) : unescape s = s := by
  induction s with
  | nil => rfl
  | cons c s ih =>
    obtain ⟨other, plain⟩ := not_or.mp (mt mem_cons.mpr plain)
    unfold unescape
    rw [if_neg (Ne.symm other), ih plain]

theorem digit_of_digitValue {c : UInt8} {value : Nat} (small : value < 10)
    (valued : digitValue c = some value) : digit c = true := by
  unfold digitValue at valued
  split at valued
  · rename_i inside
    simpa [digit, UInt8.le_iff_toNat_le] using inside
  split at valued
  · cases valued
    omega
  split at valued
  · cases valued
    omega
  · cases valued

theorem digits_format {base : Nat} (pos : 0 < base) (small : base ≤ 10) (least n : Nat) :
    ∀ c ∈ format base least n, digit c = true := by
  intro c member
  obtain ⟨value, bound, valued⟩ := digitValue_of_mem_padded pos (by omega) member
  exact digit_of_digitValue (by omega) valued

theorem format_ne_nil (base least n : Nat) : format base least n ≠ [] := by
  rw [← length_pos_iff, Numeral.format, padded_length]
  exact Nat.lt_of_lt_of_le (width_pos n n) (Nat.le_max_right _ _)

theorem parseMode (least : Nat) (mode : Fin (8 ^ 6)) :
    parseInt64 8 (format 8 least mode) = some (mode.val : Int) := by
  have bound := mode.isLt
  exact parseInt64_of_parseUint (parseUint_format (by omega) (by omega) _ _)
    (by omega)

theorem int32_mode (mode : Fin (8 ^ 6)) : int32 (mode.val : Int) = mode.val := by
  have bound := mode.isLt
  exact Int.bmod_eq_of_le (by omega) (by omega)

section rawLines

/-- The end of the expression for raw lines, from the second path on. -/
def rawLineEnd : Expr :=
  concat [.opt (.seq (literal (ascii "\t")) (.group 7 (.reluctant dot))), .lineEnd]

variable {captures : Captures}

theorem run_lineEnd_inside {α : Type} {next : Bytes → Captures → Option α}
    {before after rest : Bytes} (plain : newline ∉ before ++ after) (nonempty : after ≠ []) :
    run (concat [.lineEnd]) (after ++ rest) captures next = none := by
  obtain ⟨c, after, rfl⟩ := exists_cons_of_ne_nil nonempty
  refine run_lineEnd_none ?_
  rintro rfl
  exact plain (by simp)

theorem run_rawLineEnd_none {path before after rest : Bytes} (tab : 9 ∉ path)
    (plain : newline ∉ path) (inside : path = before ++ after) (nonempty : after ≠ []) :
    run rawLineEnd (after ++ rest) captures (fun _ captures => some captures) = none := by
  have other : ¬ ascii "\t" <+: after ++ rest := by
    obtain ⟨c, after, rfl⟩ := exists_cons_of_ne_nil nonempty
    intro found
    have same : 9 = c := (cons_prefix_cons.mp found).1
    exact tab (by simp [inside, same])
  rw [rawLineEnd, run_concat, run_opt_none (by rw [run_seq, run_literal_none other])]
  exact run_lineEnd_inside (inside ▸ plain) nonempty

theorem dots_of_notMem {text : Bytes} (plain : newline ∉ text) : ∀ c ∈ text, dot c = true := by
  intro c member
  refine bne_iff_ne.mpr ?_
  rintro rfl
  exact plain member

theorem run_onePath {path : Bytes} (tab : 9 ∉ path) (plain : newline ∉ path) :
    run (.seq (.group 6 (.reluctant dot)) rawLineEnd) (path ++ [newline]) captures
      (fun _ captures => some captures) = some (captures.set 6 path) := by
  rw [run_seq, run_group]
  refine run_reluctant (dots_of_notMem plain) ?_ ?_
  · intro before after inside nonempty
    exact run_rawLineEnd_none tab plain inside nonempty
  · rw [taken_append]
    rfl

theorem run_twoPaths {old new : Bytes} (tab : 9 ∉ old) (plain : newline ∉ old)
    (plainNew : newline ∉ new) :
    run (.seq (.group 6 (.reluctant dot)) rawLineEnd)
      (old ++ (ascii "\t" ++ (new ++ [newline]))) captures
      (fun _ captures => some captures) =
      some ((captures.set 6 old).set 7 new) := by
  rw [run_seq, run_group]
  refine run_reluctant (dots_of_notMem plain) ?_ ?_
  · intro before after inside nonempty
    exact run_rawLineEnd_none tab plain inside nonempty
  · rw [taken_append, rawLineEnd, run_concat]
    refine run_opt_some ?_
    rw [run_seq, run_literal, run_group]
    refine run_reluctant (dots_of_notMem plainNew) ?_ ?_
    · intro before after inside nonempty
      exact run_lineEnd_inside (inside ▸ plainNew) nonempty
    · rw [taken_append]
      rfl

end rawLines

/-- What a raw line has before the paths. -/
structure RawFields where
  oldMode : Fin (8 ^ 6)
  newMode : Fin (8 ^ 6)
  fromID : ObjectID
  toID : ObjectID
  status : Status
  score : Option Nat

namespace RawFields

def scoreText (fields : RawFields) : Bytes := (fields.score.map (format 10 3)).getD []

/-- A raw line with these paths. -/
def line (digits : Nat) (fields : RawFields) (paths : Bytes) : Bytes :=
  ascii ":" ++ (format 8 digits fields.oldMode ++ (ascii " " ++
    (format 8 digits fields.newMode ++ (ascii " " ++ (fields.fromID.text ++ (ascii " " ++
    (fields.toID.text ++ (ascii " " ++ ((fields.status.letter :: fields.scoreText) ++
    (ascii "\t" ++ paths))))))))))

/-- The groups before the paths. -/
def captures (digits : Nat) (fields : RawFields) : Captures :=
  ((((set (fun _ => []) 1 (format 8 digits fields.oldMode)).set 2
    (format 8 digits fields.newMode)).set 3 fields.fromID.text).set 4
    fields.toID.text).set 5 (fields.status.letter :: fields.scoreText)

variable (digits : Nat) (fields : RawFields)

theorem statusLetter_letter (status : Status) : statusLetter status.letter = true := by
  cases status <;> rfl

theorem digits_scoreText : ∀ c ∈ fields.scoreText, digit c = true := by
  unfold scoreText
  cases fields.score with
  | none => exact fun c member => absurd member not_mem_nil
  | some score => exact digits_format (by omega) (by omega) 3 score

theorem matchAt_line {paths : Bytes} {result : Captures}
    (matched : run (.seq (.group 6 (.reluctant dot)) rawLineEnd) (paths ++ [newline])
      (fields.captures digits) (fun _ captures => some captures) = some result) :
    matchAt rawLineRegexp (fields.line digits paths ++ [newline]) = some result := by
  have mode := digits_format (by omega : 0 < 8) (by omega) digits
  rw [matchAt, line]
  simp only [append_assoc]
  rw [rawLineRegexp, run_concat, run_literal, run_concat, run_group]
  refine run_plus (format_ne_nil _ _ _) (mode _) rfl ?_
  rw [taken_append, run_concat, run_literal, run_concat, run_group]
  refine run_plus (format_ne_nil _ _ _) (mode _) rfl ?_
  rw [taken_append, run_concat, run_literal, run_concat, run_group,
    run_times fields.fromID.length fields.fromID.xdigits, taken_append, run_concat, run_literal,
    run_concat, run_group, run_times fields.toID.length fields.toID.xdigits, taken_append,
    run_concat, run_literal, run_concat, run_group, run_seq]
  simp only [cons_append, run_set (statusLetter_letter fields.status)]
  refine run_star fields.digits_scoreText rfl ?_
  rw [← cons_append, taken_append, run_concat, run_literal]
  exact matched

end RawFields

namespace Entry

variable (digits : Nat) (entry : Entry)

/-- The groups before the paths. -/
def fieldCaptures : Captures :=
  ((((set (fun _ => []) 1 (format 8 digits entry.oldMode)).set 2
    (format 8 digits entry.newMode)).set 3 entry.fromID.text).set 4 entry.toID.text).set 5
    (entry.status.letter :: entry.scoreText)

def captures : Captures :=
  let fields := (entry.fieldCaptures digits).set 6 entry.fromPath.text
  if entry.status = .renamed ∨ entry.status = .copied then fields.set 7 entry.toPath.text
  else fields

/-- What the raw line has before the paths. -/
def rawFields (entry : Entry) : RawFields :=
  ⟨entry.oldMode, entry.newMode, entry.fromID, entry.toID, entry.status, entry.score⟩

theorem run_paths :
    run (.seq (.group 6 (.reluctant dot)) rawLineEnd) (entry.paths ++ [newline])
      (entry.fieldCaptures digits) (fun _ captures => some captures) =
      some (entry.captures digits) := by
  have tab : 9 ∉ entry.fromPath.text := entry.fromPath.notMem rfl
  have plain := entry.fromPath.newline_notMem
  unfold paths captures
  split
  · rw [append_assoc, append_assoc]
    exact run_twoPaths tab plain entry.toPath.newline_notMem
  · exact run_onePath tab plain

theorem digits_scoreText : ∀ c ∈ entry.scoreText, digit c = true := entry.rawFields.digits_scoreText

theorem matchAt_rawLine :
    matchAt rawLineRegexp (entry.rawLine digits ++ [newline]) = some (entry.captures digits) :=
  entry.rawFields.matchAt_line digits (entry.run_paths digits)

theorem findSubmatch_rawLine :
    findSubmatch rawLineRegexp (entry.rawLine digits ++ [newline]) = some (entry.captures digits) :=
  findSubmatch_eq (entry.matchAt_rawLine digits)

theorem captures_field {number : Nat} (field : number < 6) :
    entry.captures digits number = entry.fieldCaptures digits number := by
  unfold captures
  split
  · rw [set_other (by omega), set_other (by omega)]
  · rw [set_other (by omega)]

theorem captures_fromPath : entry.captures digits 6 = entry.fromPath.text := by
  unfold captures
  split
  · rw [set_other (by omega), set_same]
  · exact set_same _ _ _

theorem letter_moved (status : Status) :
    status.letter = 67 ∨ status.letter = 82 ↔ status = .renamed ∨ status = .copied := by
  cases status <;> decide

theorem toPath_captures :
    (if entry.status.letter = 67 ∨ entry.status.letter = 82 then
        unescape (unquoteBytes (entry.captures digits 7))
      else entry.fromPath.text) = entry.toPath.text := by
  by_cases moved : entry.status = .renamed ∨ entry.status = .copied
  · rw [if_pos ((letter_moved entry.status).mpr moved), captures, if_pos moved,
      set_same, entry.toPath.unquoteBytes_text,
      unescape_of_notMem (entry.toPath.notMem rfl)]
  · rw [if_neg (mt (letter_moved entry.status).mp moved),
      entry.samePath (fun renamed => moved (.inl renamed)) (fun copied => moved (.inr copied))]

theorem parseRawLine_rawLine :
    parseRawLine (entry.rawLine digits ++ [newline]) {} = (none, entry.diff) := by
  have old : entry.captures digits 1 = format 8 digits entry.oldMode :=
    entry.captures_field digits (by omega)
  have new : entry.captures digits 2 = format 8 digits entry.newMode :=
    entry.captures_field digits (by omega)
  have fromID : entry.captures digits 3 = entry.fromID.text :=
    entry.captures_field digits (by omega)
  have toID : entry.captures digits 4 = entry.toID.text := entry.captures_field digits (by omega)
  have status : entry.captures digits 5 = entry.status.letter :: entry.scoreText :=
    entry.captures_field digits (by omega)
  unfold parseRawLine
  simp only [entry.findSubmatch_rawLine digits, old, new, fromID, toID, status, parseMode,
    int32_mode, headD_cons, entry.captures_fromPath digits,
    entry.fromPath.unquoteBytes_text, unescape_of_notMem (entry.fromPath.notMem rfl),
    entry.toPath_captures digits]
  rfl

theorem newline_notMem_rawLine : newline ∉ entry.rawLine digits := by
  have mode : ∀ n, newline ∉ format 8 digits n := fun n =>
    notMem_of_accepted (digits_format (by omega) (by omega) digits n) rfl
  have paths : newline ∉ entry.paths := by
    have tab : newline ∉ ascii "\t" := by decide
    unfold paths
    split <;> simp [entry.fromPath.newline_notMem, entry.toPath.newline_notMem, tab]
  have letter : newline ≠ entry.status.letter := by cases entry.status <;> decide
  have literals : newline ∉ ascii ":" ∧ newline ∉ ascii " " ∧ newline ∉ ascii "\t" := by decide
  simp only [rawLine, mem_append, mem_cons, not_or]
  exact ⟨literals.1, mode _, literals.2.1, mode _, literals.2.1,
    notMem_of_accepted entry.fromID.xdigits rfl, literals.2.1,
    notMem_of_accepted entry.toID.xdigits rfl, literals.2.1,
    ⟨letter, notMem_of_accepted entry.digits_scoreText rfl⟩, literals.2.2, paths⟩

end Entry

/-- What the parser takes for the path of a patch. -/
def Entry.readPath (entry : Entry) : Bytes := upTo (ascii " b/") entry.headerPaths

section headers

variable {α : Type} {captures : Captures} {next : Bytes → Captures → Option α} {s : Bytes}

theorem run_quote_none (plain : 34 ∉ s) :
    run (.opt (literal (ascii "\""))) s captures next = next s captures := by
  refine run_opt_none (run_literal_none ?_)
  intro found
  exact plain (found.subset (by decide))

/-- The end of the expression for headers, from the end of the first path on. -/
def headerEnd : Expr :=
  concat [.opt (literal (ascii "\"")), literal (ascii " "), .opt (literal (ascii "\"")),
    literal (ascii "b/"), .group 2 (.reluctant dot), .opt (literal (ascii "\"")), .lineEnd]

theorem run_headerEnd_none (plain : 34 ∉ s) (other : ¬ ascii " b/" <+: s) :
    run headerEnd s captures next = none := by
  rw [headerEnd, run_concat, run_quote_none plain, run_concat]
  by_cases space : ascii " " <+: s
  · obtain ⟨rest, rfl⟩ := space
    have plain : 34 ∉ rest := fun member => plain (mem_append_right _ member)
    rw [run_literal, run_concat, run_quote_none plain, run_concat, run_literal_none]
    rintro ⟨after, rfl⟩
    exact other ⟨after, rfl⟩
  · exact run_literal_none space

theorem run_headerEnd {last : Bytes} (dots : ∀ c ∈ last, dot c = true) (plain : 34 ∉ last) :
    run headerEnd (ascii " b/" ++ (last ++ [newline])) captures (fun _ captures => some captures) =
      some (captures.set 2 last) := by
  have ended : 34 ∉ last ++ [newline] := by simp [plain, newline]
  have after : 34 ∉ ascii "b/" ++ (last ++ [newline]) :=
    mem_append.not.mpr (not_or.mpr ⟨by decide, ended⟩)
  have whole : 34 ∉ ascii " b/" ++ (last ++ [newline]) :=
    mem_append.not.mpr (not_or.mpr ⟨by decide, ended⟩)
  have split : ascii " b/" ++ (last ++ [newline]) =
    ascii " " ++ (ascii "b/" ++ (last ++ [newline])) := rfl
  rw [headerEnd, run_concat, run_quote_none whole, run_concat, split, run_literal, run_concat,
    run_quote_none after, run_concat, run_literal, run_concat, run_group]
  refine run_reluctant dots ?_ ?_
  · intro before part inside nonempty
    subst inside
    have unquoted : 34 ∉ part ++ [newline] := by
      simp only [append_assoc] at ended
      exact fun member => ended (mem_append_right before member)
    rw [run_concat, run_quote_none unquoted]
    exact run_lineEnd_inside (notMem_of_accepted dots rfl) nonempty
  · rw [taken_append]
    rfl

end headers

namespace Entry

variable (entry : Entry)

theorem notMem_headerPaths {c : UInt8} (quoted : unquoted c = false) : c ∉ entry.headerPaths := by
  have literals : ∀ c ∈ ascii " b/", unquoted c = true := all_eq_true.mp rfl
  simp only [headerPaths, mem_append, not_or]
  exact ⟨entry.fromPath.notMem quoted, notMem_of_accepted literals quoted,
    entry.toPath.notMem quoted⟩

theorem readPath_first :
    ∃ after, entry.headerPaths = entry.readPath ++ (ascii " b/" ++ after) ∧
      ∀ before part, entry.readPath = before ++ part → part ≠ [] →
        ∀ last, ¬ ascii " b/" <+: part ++ (ascii " b/" ++ (after ++ last)) := by
  obtain ⟨after, whole, least⟩ := upTo_first (by decide : ascii " b/" ≠ [])
    (⟨entry.fromPath.text, entry.toPath.text, by rw [headerPaths, append_assoc]⟩ :
      ascii " b/" <:+: entry.headerPaths)
  refine ⟨after, whole, fun before part inside nonempty last found => ?_⟩
  have longer : part ++ (ascii " b/" ++ after) <+: part ++ (ascii " b/" ++ (after ++ last)) :=
    ⟨last, by simp only [append_assoc]⟩
  refine least before part inside nonempty (prefix_of_prefix_length_le found longer ?_)
  simp only [length_append]
  omega

theorem findSubmatch_header :
    ∃ captures, findSubmatch diffHeaderRegexp (entry.header ++ [newline]) = some captures ∧
      captures 1 = entry.readPath := by
  obtain ⟨after, whole, least⟩ := entry.readPath_first
  have unquoted := entry.notMem_headerPaths (c := 34) rfl
  have plain := entry.notMem_headerPaths (c := newline) rfl
  have text : entry.header ++ [newline] = ascii "diff --git " ++ (ascii "a/" ++
      (entry.readPath ++ (ascii " b/" ++ (after ++ [newline])))) := by
    rw [header, whole]
    simp only [append_assoc]
    rfl
  rw [whole] at unquoted plain
  simp only [mem_append, not_or] at unquoted plain
  refine ⟨(set (fun _ => []) 1 entry.readPath).set 2 after, findSubmatch_eq ?_, ?_⟩
  · rw [matchAt, text, diffHeaderRegexp, run_concat, run_literal, run_concat,
      run_opt_none (run_literal_none (by simp [ascii])), run_concat, run_literal, run_concat,
      run_group]
    refine run_reluctant ?_ ?_ ?_
    · exact fun c member => bne_iff_ne.mpr (fun same => plain.1 (same ▸ member))
    · intro before part inside nonempty
      refine run_headerEnd_none ?_ (least before part inside nonempty [newline])
      simp only [mem_append, not_or]
      refine ⟨fun member => unquoted.1 ?_, unquoted.2.1, unquoted.2.2, by decide⟩
      exact inside ▸ mem_append_right before member
    · rw [taken_append]
      exact run_headerEnd (fun c member => bne_iff_ne.mpr (fun same => plain.2.2 (same ▸ member)))
        unquoted.2.2
  · rw [set_other (by omega), set_same]

theorem newline_notMem_header : newline ∉ entry.header :=
  mem_append.not.mpr (not_or.mpr ⟨by decide, entry.notMem_headerPaths rfl⟩)

theorem unescape_readPath : unescape entry.readPath = entry.readPath := by
  obtain ⟨after, whole, -⟩ := entry.readPath_first
  have plain := entry.notMem_headerPaths (c := 92) rfl
  rw [whole, mem_append, not_or] at plain
  exact unescape_of_notMem plain.1

/-- It is the path unless that has a ` b/` in it, since none can begin in the path and end
after it. -/
theorem readPath_eq_iff :
    entry.readPath = entry.fromPath.text ↔ ¬ ascii " b/" <:+: entry.fromPath.text := by
  obtain ⟨after, whole, least⟩ := entry.readPath_first
  constructor
  · rintro same ⟨before, rest, inside⟩
    refine least before (ascii " b/" ++ rest) ?_ (by simp [ascii]) [] ?_
    · rw [same, ← inside, append_assoc]
    · rw [append_assoc]
      exact prefix_append _ _
  · intro clean
    rcases append_eq_append_iff.mp whole with ⟨part, longer, rest⟩ | ⟨part, shorter, rest⟩
    · -- a later one: the path has been passed by
      by_cases empty : part = []
      · rw [longer, empty, append_nil]
      refine absurd ?_ (least entry.fromPath.text part longer empty [])
      rw [append_nil, ← rest]
      exact prefix_append _ _
    · match part, shorter, rest with
      | [], shorter, _ => rw [shorter, append_nil]
      | [_], _, rest => simp [ascii] at rest
      | [_, _], _, rest => simp [ascii] at rest
      | first :: second :: third :: part, shorter, rest =>
        refine absurd ⟨entry.readPath, part, ?_⟩ clean
        have same : [first, second, third] = ascii " b/" := by
          simp only [ascii] at rest
          simp at rest
          simp [ascii, rest]
        rw [shorter, ← same]
        simp

end Entry

end Gitaly.DiffParser
