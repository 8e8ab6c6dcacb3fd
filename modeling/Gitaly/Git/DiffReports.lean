import Gitaly.Git.DiffPairing

/- When the parser reports every file with its own patch. -/
namespace Gitaly.DiffParser

open Text Change Item List

/-- The path of an item, and whether its patch is printed. -/
structure Slot where
  fromPath : Bytes
  printed : Bool
deriving DecidableEq

variable (item : Item)

def Item.slot : Slot := ⟨item.entry.fromPath.text, item.patch.isSome⟩

/-- No printed patch is of a path with ` b/` in it, and the first patch after an item without
one is of another path. -/
def Matched : List Slot → Prop
  | [] => True
  | slot :: rest =>
    (slot.printed = true → ¬ ascii " b/" <:+: slot.fromPath) ∧
      (slot.printed = false →
        ∀ next, rest.find? Slot.printed = some next → next.fromPath ≠ slot.fromPath) ∧
      Matched rest

/-- A change up to what its patches contain. -/
structure Shape where
  entry : Entry
  printed : Bool
  additionPrinted : Bool

variable (change : Change)

def Change.shape : Shape := ⟨change.entry, change.patch.isSome, change.addition.isSome⟩

variable (changes : List Change)

/-- With no limits, there is one diff for each item, in order and with its own patch, and no
error. -/
def Reported : Prop :=
  ∀ limits : Limits, limits.enforceLimits = false → limits.collapseDiffs = false →
    (parseDiffs (output changes) limits).1 = (changes.flatMap items).map diff ∧
      (parseDiffs (output changes) limits).2.err = none

/-- The patches that are printed. -/
def printedBlocks (items : List Item) : List (Entry × Patch) :=
  items.filterMap (fun item => item.patch.map (fun patch => (item.entry, patch)))

theorem printedBlocks_some {item : Item} {patch : Patch} (printed : item.patch = some patch)
    (items : List Item) :
    printedBlocks (item :: items) = (item.entry, patch) :: printedBlocks items := by
  simp [printedBlocks, printed]

theorem printedBlocks_none {item : Item} (absent : item.patch = none) (items : List Item) :
    printedBlocks (item :: items) = printedBlocks items := by
  simp [printedBlocks, absent]

theorem find?_slots (items : List Item) :
    (items.map slot).find? Slot.printed =
      (printedBlocks items).head?.map (fun block => ⟨block.1.fromPath.text, true⟩) := by
  induction items with
  | nil => rfl
  | cons item items ih =>
    cases own : item.patch with
    | none =>
      rw [printedBlocks_none own, ← ih]
      simp [slot, own]
    | some patch =>
      rw [printedBlocks_some own]
      simp [slot, own]

theorem unlines_blocks (items : List Item) :
    unlines (items.flatMap block) = blocksText (printedBlocks items) := by
  induction items with
  | nil => rfl
  | cons item items ih =>
    rw [flatMap_cons, unlines_append, ih, block]
    cases own : item.patch with
    | none =>
      rw [printedBlocks_none own]
      rfl
    | some patch =>
      rw [printedBlocks_some own, blocksText_cons]
      simp

theorem Matched.readPath {items : List Item} (matched : Matched (items.map slot)) :
    ∀ block ∈ printedBlocks items, block.1.readPath = block.1.fromPath.text := by
  induction items with
  | nil => exact fun block member => absurd member not_mem_nil
  | cons item items ih =>
    obtain ⟨clean, -, rest⟩ := matched
    cases own : item.patch with
    | none =>
      rw [printedBlocks_none own]
      exact ih rest
    | some patch =>
      rw [printedBlocks_some own]
      refine forall_mem_cons.mpr ⟨?_, ih rest⟩
      exact item.entry.readPath_eq_iff.mpr (clean (by simp [slot, own]))

theorem Item.diff_none (absent : item.patch = none) : item.diff = item.blank := by rw [diff, absent]

theorem Item.diff_some {patch : Patch} (printed : item.patch = some patch) :
    item.diff = withPatch item.blank patch := by
  rw [diff, printed]

namespace Parser

variable {parser : Parser}

theorem parseAll_true {next : Parser} (parsed : parser.parse = (true, next)) (fuel : Nat) :
    parser.parseAll (fuel + 1) =
      (next.currentDiff :: (next.parseAll fuel).1, (next.parseAll fuel).2) := by
  rw [parseAll, parsed]

theorem parseAll_false (parsed : parser.parse.1 = false) (fuel : Nat) :
    (parser.parseAll fuel).1 = [] := by
  cases fuel with
  | zero => rfl
  | succ fuel =>
    rw [parseAll]
    split
    · rfl
    rename_i called
    rw [called] at parsed
    cases parsed

theorem parseAll_matched (parser : Parser) {items : List Item} (unlimited : Unlimited parser)
    (upcoming : Upcoming parser.rawLines items) (ready : Ready parser (printedBlocks items))
    (matched : Matched (items.map slot)) {fuel : Nat} (enough : items.length < fuel) :
    (parser.parseAll fuel).1 = items.map diff ∧ (parser.parseAll fuel).2.err = none := by
  induction items generalizing parser fuel with
  | nil =>
    obtain ⟨fuel, rfl⟩ := Nat.exists_eq_succ_of_ne_zero (by omega : fuel ≠ 0)
    rw [parseAll, parse_nil upcoming]
    exact ⟨rfl, unlimited.clean⟩
  | cons item items ih =>
    obtain ⟨fuel, rfl⟩ := Nat.exists_eq_succ_of_ne_zero (by omega : fuel ≠ 0)
    have fewer : items.length < fuel := Nat.lt_of_succ_lt_succ enough
    have reads := matched.readPath
    obtain ⟨clean, apart, rest⟩ := matched
    cases own : item.patch with
    | some patch =>
      rw [printedBlocks_some own] at ready reads
      obtain ⟨next, parsed, reached, ready⟩ := parse_taken unlimited upcoming ready
        (reads _ mem_cons_self)
      obtain ⟨diffs, err⟩ := ih next reached.unlimited reached.upcoming ready rest fewer
      rw [parseAll_true parsed, reached.current, diffs, map_cons, item.diff_some own]
      exact ⟨rfl, err⟩
    | none =>
      rw [printedBlocks_none own] at ready reads
      obtain ⟨next, parsed, reached, ready⟩ :
          ∃ next, parser.parse = (true, next) ∧ Reached items item.blank next ∧
            Ready next (printedBlocks items) := by
        cases left : printedBlocks items with
        | nil =>
          rw [left] at ready
          exact parse_alone unlimited upcoming ready
        | cons block blocks =>
          rw [left] at ready reads
          have read := reads block mem_cons_self
          have other : block.1.fromPath.text ≠ item.entry.fromPath.text :=
            apart (by simp [slot, own]) ⟨block.1.fromPath.text, true⟩
              (by rw [find?_slots, left]; rfl)
          obtain ⟨next, parsed, reached, path, reader⟩ :=
            parse_passed unlimited upcoming ready (read ▸ other)
          refine ⟨next, parsed, reached, .pending path ?_ reader⟩
          rw [read]
          exact block.1.fromPath.nonempty
      obtain ⟨diffs, err⟩ := ih next reached.unlimited reached.upcoming ready rest fewer
      rw [parseAll_true parsed, reached.current, diffs, map_cons, item.diff_none own]
      exact ⟨rfl, err⟩

end Parser

/-- A patch that shows: a line is replaced. -/
def samplePatch : Patch :=
  ⟨[], .hunks ⟨ascii "a/file", by decide⟩ ⟨ascii "b/file", by decide⟩
    [⟨⟨ascii " -1 +1 @@", by decide⟩, [⟨.removed, ⟨ascii "old", by decide⟩⟩,
      ⟨.added, ⟨ascii "new", by decide⟩⟩]⟩]⟩

theorem withPatch_samplePatch : withPatch item.blank samplePatch ≠ item.blank := by
  intro same
  have shown : unlines samplePatch.content ≠ [] := by decide
  have patches := congrArg Diff.patch same
  rw [item.blank_blank.patch] at patches
  exact shown patches

namespace Parser

section shown

variable {parser : Parser} {item : Item} {items : List Item} {blocks : List (Entry × Patch)}
  (unlimited : Unlimited parser) (upcoming : Upcoming parser.rawLines (item :: items))
include unlimited upcoming

/-- An item gets its patch only if its path is read from the header. -/
theorem parse_printed (own : item.patch = some samplePatch)
    (ready : Ready parser ((item.entry, samplePatch) :: blocks)) :
    ∃ next diff, parser.parse = (true, next) ∧ Reached items diff next ∧
      (diff = item.diff → item.entry.readPath = item.entry.fromPath.text ∧ Ready next blocks) := by
  by_cases same : item.entry.readPath = item.entry.fromPath.text
  · obtain ⟨next, parsed, reached, ready⟩ := parse_taken unlimited upcoming ready same
    exact ⟨next, _, parsed, reached, fun _ => ⟨same, ready⟩⟩
  obtain ⟨next, parsed, reached, -⟩ := parse_passed unlimited upcoming ready same
  refine ⟨next, _, parsed, reached, fun wrong => ?_⟩
  rw [item.diff_some own] at wrong
  exact absurd wrong.symm (withPatch_samplePatch item)

/-- An item without a patch is left without one only if the next header is read as another
path. If nothing is read from it the parser is lost. -/
theorem parse_unprinted (own : item.patch = none) (ready : Ready parser blocks)
    (shows : ∀ block ∈ blocks, block.2 = samplePatch) :
    ∃ next diff, parser.parse = (true, next) ∧ Reached items diff next ∧
      (diff = item.diff →
        (∀ block ∈ blocks.head?, block.1.readPath ≠ item.entry.fromPath.text) ∧
        (Ready next blocks ∨ blocks ≠ [] ∧ (items ≠ [] → next.parse.1 = false))) := by
  cases blocks with
  | nil =>
    obtain ⟨next, parsed, reached, ready⟩ := parse_alone unlimited upcoming ready
    exact ⟨next, _, parsed, reached, fun _ => ⟨nofun, .inl ready⟩⟩
  | cons block blocks =>
    obtain ⟨entry, patch⟩ := block
    obtain rfl : patch = samplePatch := shows _ mem_cons_self
    by_cases same : entry.readPath = item.entry.fromPath.text
    · obtain ⟨next, parsed, reached, -⟩ := parse_taken unlimited upcoming ready same
      refine ⟨next, _, parsed, reached, fun wrong => ?_⟩
      rw [item.diff_none own] at wrong
      exact absurd wrong (withPatch_samplePatch item)
    · obtain ⟨next, parsed, reached, path, reader⟩ := parse_passed unlimited upcoming ready same
      refine ⟨next, _, parsed, reached, fun _ => ⟨?_, ?_⟩⟩
      · rintro block ⟨⟩
        exact same
      · by_cases nothing : entry.readPath = []
        · refine .inr ⟨cons_ne_nil _ _, fun more => ?_⟩
          obtain ⟨later, items, rfl⟩ := exists_cons_of_ne_nil more
          exact parse_lost reached.unlimited reached.upcoming (ascii "--- a/file")
            (path.trans nothing) reader (by decide) (by decide)
        · exact .inl (.pending path nothing reader)

end shown

/-- If every patch shows, every mistake does. -/
theorem matched_of_parseAll (parser : Parser) {items : List Item} (unlimited : Unlimited parser)
    (upcoming : Upcoming parser.rawLines items) (ready : Ready parser (printedBlocks items))
    (shows : ∀ block ∈ printedBlocks items, block.2 = samplePatch) {fuel : Nat}
    (right : (parser.parseAll fuel).1 = items.map diff) :
    Matched (items.map slot) := by
  induction items generalizing parser fuel with
  | nil => trivial
  | cons item items ih =>
    cases fuel with
    | zero => cases right
    | succ fuel =>
      cases own : item.patch with
      | some patch =>
        rw [printedBlocks_some own] at ready shows
        obtain ⟨sample, others⟩ := forall_mem_cons.mp shows
        cases sample
        obtain ⟨next, diff, parsed, reached, only⟩ := parse_printed unlimited upcoming own ready
        rw [parseAll_true parsed, reached.current, map_cons] at right
        obtain ⟨first, later⟩ := cons.inj right
        obtain ⟨same, ready⟩ := only first
        refine ⟨fun _ => item.entry.readPath_eq_iff.mp same, ?_, ?_⟩
        · simp [slot, own]
        · exact ih next reached.unlimited reached.upcoming ready others later
      | none =>
        rw [printedBlocks_none own] at ready shows
        obtain ⟨next, diff, parsed, reached, only⟩ :=
          parse_unprinted unlimited upcoming own ready shows
        rw [parseAll_true parsed, reached.current, map_cons] at right
        obtain ⟨first, later⟩ := cons.inj right
        obtain ⟨apart, ready | ⟨filled, lost⟩⟩ := only first
        · have rest := ih next reached.unlimited reached.upcoming ready shows later
          refine ⟨by simp [slot, own], fun _ other found => ?_, rest⟩
          rw [find?_slots, Option.map_eq_some_iff] at found
          obtain ⟨block, head, rfl⟩ := found
          have read := rest.readPath block (mem_of_mem_head? head)
          exact read ▸ apart block head
        · have more : items ≠ [] := by
            rintro rfl
            exact filled rfl
          rw [parseAll_false (lost more)] at later
          exact absurd (map_eq_nil_iff.mp later.symm) more

end Parser

theorem cacheRawLines_lines {lines : List Bytes} (plain : ∀ line ∈ lines, newline ∉ line)
    (raw : ∀ line ∈ lines, (ascii ":").isPrefixOf line = true) (rest : Bytes) {fuel : Nat}
    (enough : lines.length < fuel) :
    cacheRawLines fuel (unlines lines ++ newline :: rest) =
      (lines.map (fun line => line ++ [newline]), rest) := by
  induction lines generalizing fuel with
  | nil =>
    obtain ⟨fuel, rfl⟩ := Nat.exists_eq_succ_of_ne_zero (by omega : fuel ≠ 0)
    rfl
  | cons line lines ih =>
    obtain ⟨fuel, rfl⟩ := Nat.exists_eq_succ_of_ne_zero (by omega : fuel ≠ 0)
    obtain ⟨first, plain⟩ := forall_mem_cons.mp plain
    obtain ⟨colon, raw⟩ := forall_mem_cons.mp raw
    rw [cacheRawLines, unlines_cons, append_assoc, cons_append, cutLine_append first]
    simp only [colon, if_true, ih plain raw (Nat.lt_of_succ_lt_succ enough), map_cons]

theorem newDiffParser_output (limits : Limits) :
    newDiffParser (output changes) limits =
      { limits := limits.enforceUpperBound
        patchReader := blocksText (printedBlocks (changes.flatMap items))
        rawLines := changes.map (fun change => change.entry.rawLine 6 ++ [newline]) } := by
  by_cases nothing : changes = []
  · subst nothing
    rfl
  have cached : cacheRawLines ((output changes).length + 1) (output changes) =
      (changes.map (fun change => change.entry.rawLine 6 ++ [newline]),
        blocksText (printedBlocks (changes.flatMap items))) := by
    have lines := length_le_unlines (changes.map (fun change => change.entry.rawLine 6))
    rw [output, if_neg nothing, unlines_blocks, append_assoc, singleton_append,
      cacheRawLines_lines ?_ ?_ _ ?_, map_map]
    · rfl
    · intro line member
      obtain ⟨change, -, rfl⟩ := mem_map.mp member
      exact change.entry.newline_notMem_rawLine 6
    · intro line member
      obtain ⟨change, -, rfl⟩ := mem_map.mp member
      rfl
    · rw [length_append]
      omega
  rw [newDiffParser, cached]

theorem length_items_le : (changes.flatMap items).length ≤ 2 * changes.length := by
  induction changes with
  | nil => exact Nat.le_refl _
  | cons change changes ih =>
    have two : change.items.length ≤ 2 := by
      unfold Change.items
      split <;> simp
    rw [flatMap_cons, length_append, length_cons]
    omega

theorem newDiffParser_ready (limits : Limits)
    (enforce : limits.enforceLimits = false) (collapse : limits.collapseDiffs = false) :
    (newDiffParser (output changes) limits).Unlimited ∧
      Upcoming (newDiffParser (output changes) limits).rawLines (changes.flatMap items) ∧
      (newDiffParser (output changes) limits).Ready
        (printedBlocks (changes.flatMap items)) := by
  rw [newDiffParser_output]
  exact ⟨⟨enforce, collapse, rfl, rfl⟩, upcoming_changes changes, .unread rfl rfl⟩

theorem reported_of_matched {changes : List Change}
    (matched : Matched ((changes.flatMap items).map slot)) : Reported changes := by
  intro limits enforce collapse
  obtain ⟨unlimited, upcoming, ready⟩ := newDiffParser_ready changes limits enforce collapse
  refine Parser.parseAll_matched _ unlimited upcoming ready matched ?_
  rw [newDiffParser_output, length_map]
  exact Nat.lt_succ_of_le (length_items_le changes)

def unlimited : Limits := ⟨false, false, 0, 0, 0, 0, 0, 0, 0⟩

theorem matched_of_reported {changes : List Change} (reported : Reported changes)
    (shows : ∀ block ∈ printedBlocks (changes.flatMap items), block.2 = samplePatch) :
    Matched ((changes.flatMap items).map slot) := by
  obtain ⟨kept, upcoming, ready⟩ := newDiffParser_ready changes unlimited rfl rfl
  exact Parser.matched_of_parseAll _ kept upcoming ready shows (reported unlimited rfl rfl).1

/-- The same change with a patch that shows wherever one is printed. -/
def Change.sample : Change :=
  { change with
    patch := change.patch.map (fun _ => samplePatch)
    addition := change.addition.map (fun _ => samplePatch)
    single := fun whole => by rw [change.single whole]; rfl }

theorem Change.shape_sample : change.sample.shape = change.shape := by simp [shape, sample]

theorem Change.patch_of_mem_items {change : Change} {item : Item} (member : item ∈ change.items) :
    item.patch = change.patch ∨ item.patch = change.addition := by
  unfold Change.items at member
  split at member
  · rcases mem_pair.mp member with rfl | rfl
    · exact .inl rfl
    · exact .inr rfl
  · rw [mem_singleton.mp member]
    exact .inl rfl

theorem printedBlocks_sample :
    ∀ block ∈ printedBlocks ((changes.map sample).flatMap items), block.2 = samplePatch := by
  intro block member
  obtain ⟨item, inside, printed⟩ := mem_filterMap.mp member
  obtain ⟨patch, own, rfl⟩ := Option.map_eq_some_iff.mp printed
  obtain ⟨sampled, among, inside⟩ := mem_flatMap.mp inside
  obtain ⟨change, -, rfl⟩ := mem_map.mp among
  rcases patch_of_mem_items inside with same | same
  all_goals
    obtain ⟨_, -, sample⟩ := Option.map_eq_some_iff.mp (same.symm.trans own)
    exact sample.symm

def Shape.slots (shape : Shape) : List Slot :=
  if shape.entry.status = .typeChanged then
    [⟨shape.entry.fromPath.text, shape.printed⟩, ⟨shape.entry.fromPath.text, shape.additionPrinted⟩]
  else [⟨shape.entry.fromPath.text, shape.printed⟩]

theorem Change.slots_items : change.items.map slot = change.shape.slots := by
  unfold Change.items Shape.slots
  split <;> rename_i status <;> simp [shape, status, slot, Entry.addition]

theorem slots_of_shapes {changes others : List Change}
    (same : others.map shape = changes.map shape) :
    (others.flatMap items).map slot = (changes.flatMap items).map slot := by
  have slots : ∀ list : List Change, (list.flatMap items).map slot =
      (list.map shape).flatMap Shape.slots := by
    intro list
    rw [map_flatMap, flatMap_map]
    exact congrArg (list.flatMap ·) (funext slots_items)
  rw [slots, slots, same]

/-- Whatever the patches contain, every file is reported, exactly if no printed patch is of a
path with ` b/` in it and the first patch after a file without one is of another path. -/
theorem reported_iff_matched :
    (∀ others : List Change, others.map shape = changes.map shape →
      Reported others) ↔
      Matched ((changes.flatMap items).map slot) := by
  constructor
  · intro all
    have same : (changes.map sample).map shape = changes.map shape := by
      rw [map_map]
      exact map_congr_left (fun change _ => change.shape_sample)
    rw [← slots_of_shapes same]
    exact matched_of_reported (all _ same) (printedBlocks_sample changes)
  · intro matched others same
    exact reported_of_matched (slots_of_shapes same ▸ matched)

def sampleID : ObjectID := ⟨replicate 40 97, rfl, all_eq_true.mp rfl⟩

/-- The file `a`, of which only white space has changed, and the file `b`, which is a copy
of it: the patch of the first one is left out. -/
def respaced : List Change :=
  let a : Path := ⟨ascii "a", by decide, all_eq_true.mp rfl⟩
  let b : Path := ⟨ascii "b", by decide, all_eq_true.mp rfl⟩
  let copy : Patch :=
    ⟨[⟨.similarityIndex, ⟨ascii "90%", by decide⟩⟩, ⟨.copyFrom, ⟨ascii "a", by decide⟩⟩,
        ⟨.copyTo, ⟨ascii "b", by decide⟩⟩],
      .hunks ⟨ascii "a/a", by decide⟩ ⟨ascii "b/b", by decide⟩
        [⟨⟨ascii " -1 +1,2 @@", by decide⟩, [⟨.context, ⟨ascii "old", by decide⟩⟩,
          ⟨.added, ⟨ascii "new", by decide⟩⟩]⟩]⟩
  [⟨⟨33188, 33188, sampleID, sampleID, .modified, none, a, a, fun _ _ => rfl⟩, none, none,
      fun _ => rfl⟩,
    ⟨⟨33188, 33188, sampleID, sampleID, .copied, some 90, a, b,
      fun _ copied => absurd rfl copied⟩, some copy, none, fun _ => rfl⟩]

/-- The file `x b/y`, which is modified. -/
def spacedPath : List Change :=
  let path : Path := ⟨ascii "x b/y", by decide, all_eq_true.mp rfl⟩
  [⟨⟨33188, 33188, sampleID, sampleID, .modified, none, path, path, fun _ _ => rfl⟩,
    some samplePatch, none, fun _ => rfl⟩]

/-- The one file gets the patch of its copy, the other one gets none. -/
theorem respaced_mixed : ¬ Reported respaced ∧ ¬ Reported spacedPath := by
  constructor
  all_goals
    intro reported
    exact absurd (reported unlimited rfl rfl).1 (by decide +kernel)

end Gitaly.DiffParser
