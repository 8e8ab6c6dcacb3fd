import Gitaly.Git.ConflictLines

/- Exactly when a merged file is resolved into any choice of sides. -/
namespace Gitaly.Conflict

open Scanning Parsing Conflict.Part Merged List Fallible
open Text

section sides

variable (choice : Choice)

/-- The lines of one side. -/
def sideLines (parts : List Part) : List Bytes :=
  parts.flatMap (fun part => choice.pick part.ourLines part.theirLines)

variable {parts : List Part}

theorem exists_side {part : Part} {line : Bytes} (member : part ∈ parts)
    (inside : line ∈ part.content) : ∃ choice, line ∈ sideLines choice parts := by
  have picked : ∃ choice : Choice, line ∈ choice.pick part.ourLines part.theirLines := by
    cases part with
    | common other => exact ⟨.head, inside⟩
    | conflict ours theirs =>
      rcases mem_append.mp inside with our | their
      · exact ⟨.head, our⟩
      · exact ⟨.origin, their⟩
  obtain ⟨choice, of_⟩ := picked
  exact ⟨choice, mem_flatMap.mpr ⟨part, member, of_⟩⟩

theorem resolved_const (number : Nat) (parts : List Part) :
    resolved (fun _ => choice) number parts = sideLines choice parts := by
  induction parts generalizing number with
  | nil => rfl
  | cons part rest ih =>
    cases part with
    | common line =>
      rw [resolved, ih]
      cases choice <;> rfl
    | conflict ours theirs =>
      rcases Nat.eq_zero_or_pos (ours.length + theirs.length) with blank | lines
      · obtain ⟨rfl, rfl⟩ : ours = [] ∧ theirs = [] := by simpa using blank
        rw [resolved, ih]
        cases choice <;> rfl
      · rw [resolved_conflict lines, ih]
        rfl

/-- The lines that are kept where one side is chosen throughout. -/
def keptSide (lines : List Line) : List Bytes :=
  (lines.filter (fun l => l.side = .none ∨ l.side = choice.side)).map Line.payload

theorem kept_const (number : Nat) (inside : Bool) (lines : List Line) :
    kept (fun _ => choice) number inside lines = keptSide choice lines := by
  induction lines generalizing number inside with
  | nil => rfl
  | cons l rest ih =>
    rw [kept, ih, ih, keptSide, keptSide, filter_cons]
    split <;> rename_i side
    · simp [side]
    · split <;> simp_all

@[simp] theorem keptSide_append (first second : List Line) :
    keptSide choice (first ++ second) = keptSide choice first ++ keptSide choice second := by
  simp [keptSide]

theorem keptSide_numbered (indices : Indices) {side : Section}
    (conflict : side ≠ .none) (lines : List Bytes) :
    keptSide choice (numbered indices side lines) = if side = choice.side then lines else [] := by
  have all := kept_numbered (fun _ => choice) conflict indices 0 false lines []
  rwa [append_nil, kept_const, kept, append_nil] at all

theorem keptSide_partLines (indices : Indices)
    (apart : Apart parts) : keptSide choice (partLines indices parts) = sideLines choice parts := by
  rw [← kept_const choice 0 false, kept_partLines _ indices 0 false apart (ended_false parts),
    resolved_const]

theorem resolved_ne_nil (choices : Nat → Choice) (number : Nat)
    (shared : ∃ part ∈ parts, part.ourLines ≠ [] ∧ part.theirLines ≠ []) :
    resolved choices number parts ≠ [] := by
  induction parts generalizing number with
  | nil =>
    obtain ⟨part, member, _⟩ := shared
    cases member
  | cons part rest ih =>
    obtain ⟨other, member, ours_, theirs_⟩ := shared
    cases part with
    | common line => simp [resolved]
    | conflict ours theirs =>
      rcases mem_cons.mp member with rfl | later
      · have lines : 0 < ours.length + theirs.length :=
          Nat.add_pos_left (length_pos_iff.mpr ours_) _
        rw [resolved_conflict lines]
        refine append_ne_nil_of_left_ne_nil ?_ _
        cases choices number with
        | head => exact ours_
        | origin => exact theirs_
      · rcases Nat.eq_zero_or_pos (ours.length + theirs.length) with blank | lines
        · obtain ⟨rfl, rfl⟩ : ours = [] ∧ theirs = [] := by simpa using blank
          exact ih number ⟨other, later, ours_, theirs_⟩
        · rw [resolved_conflict lines]
          exact append_ne_nil_of_right_ne_nil _ (ih _ ⟨other, later, ours_, theirs_⟩)

end sides

section merged

variable {sha1 : Bytes → Bytes} {ourPath theirPath : Bytes} (merged : Merged ourPath theirPath)
  {sizes : Nat → Nat} (lively : Lively sizes) (early : Bool) (ancestor : Option Entry)
  (contents : Bytes)

/-- The lines the parser sees. A path may have several. -/
def Merged.tokens : List Bytes :=
  (merged.parts.flatMap (rendered ourPath theirPath)).flatMap splitLines

/-- What the lines are parsed to. -/
def Merged.parsed : Except ParseError Parsing :=
  merged.tokens.foldlM (consume merged.our ⟨theirPath, contents⟩) .start

include lively in
theorem parse_merged :
    parse ⟨render ourPath theirPath merged.parts, sizes, early⟩ ancestor merged.our
        ⟨theirPath, contents⟩ =
      some ((merged.parsed contents).bind (finish ancestor merged.our ⟨theirPath, contents⟩
        (render ourPath theirPath merged.parts).length)) := by
  refine parse_lines (newline_notMem_flatMap_splitLines _) lively ?_ merged.small ancestor _ _
  exact (unlines_flatMap_splitLines _).symm

theorem Merged.ordinary
    (unescaped : ∀ part ∈ merged.parts, ∀ line ∈ part.content, line.head? ≠ some 92) :
    ∀ part ∈ merged.parts, ∀ line ∈ part.content,
      Ordinary merged.our ⟨theirPath, contents⟩ line := by
  intro part member line inside
  obtain ⟨start, middle, finish⟩ := merged.unmarked part member line inside
  exact ⟨start, middle, finish, unescaped part member line inside⟩

theorem rendered_plain {part : Part} (plain : ∀ line ∈ part.content, newline ∉ line)
    (paths : part.isConflict = true → newline ∉ ourPath ∧ newline ∉ theirPath) :
    ∀ text ∈ part.rendered ourPath theirPath, newline ∉ text := by
  cases part with
  | common line => exact plain
  | conflict ours theirs =>
    obtain ⟨our, their⟩ := paths rfl
    obtain ⟨first, second⟩ := forall_mem_append.mp plain
    have marker (text : Bytes) (is : newline ∉ text) (path : Bytes) (plain : newline ∉ path) :
        newline ∉ text ++ path := by
      simp [is, plain]
    simp only [rendered, forall_mem_append, forall_mem_singleton]
    exact ⟨⟨⟨⟨marker _ (by decide) _ our, first⟩, by decide⟩, second⟩, marker _ (by decide) _ their⟩

theorem parsed_of_plain
    (unescaped : ∀ part ∈ merged.parts, ∀ line ∈ part.content, line.head? ≠ some 92)
    (paths : ∀ part ∈ merged.parts, part.isConflict = true →
      newline ∉ ourPath ∧ newline ∉ theirPath) :
    merged.parsed contents = .ok (start.pushParts merged.parts) := by
  have plain : ∀ text ∈ merged.parts.flatMap (rendered ourPath theirPath), newline ∉ text := by
    intro text member
    obtain ⟨part, inside, of_⟩ := mem_flatMap.mp member
    exact rendered_plain (merged.plain part inside) (paths part inside) text of_
  rw [parsed, tokens, flatMap_splitLines_plain plain]
  exact consume_parts rfl (merged.ordinary contents unescaped)

/-- The file of what was parsed. -/
def Merged.file (p : Parsing) : File :=
  ⟨(ancestor.getD merged.our).path, p.lines, ancestor, merged.our, ⟨theirPath, contents⟩⟩

theorem ending_eq (p : Parsing) (lines : List Bytes) :
    (merged.file ancestor contents p).ending lines =
      if merged.parts.flatMap ourLines ≠ [] then join lines ++ [newline] else join lines := by
  simp only [File.ending, file, our, newline_suffix_unlines]

theorem positions_ne_nil {indices : Indices} {parts : List Part} :
    positions indices parts ≠ [] ↔ ∃ part ∈ parts, part.isConflict = true ∧ part.content ≠ [] := by
  induction parts generalizing indices with
  | nil => simp [positions]
  | cons part rest ih =>
    rw [exists_mem_cons_iff]
    cases part with
    | common line => simp [positions, ih, isConflict]
    | conflict ours theirs =>
      rcases Nat.eq_zero_or_pos (ours.length + theirs.length) with blank | lines
      · obtain ⟨rfl, rfl⟩ : ours = [] ∧ theirs = [] := by simpa using blank
        simp [positions, ih, content]
      have filled : ours ++ theirs ≠ [] := by
        rw [← length_pos_iff, length_append]
        exact lines
      rw [positions_conflict lines]
      exact iff_of_true (cons_ne_nil _ _) (.inl ⟨rfl, filled⟩)

section ids

variable {f : File} {parts : List Part} (apart : Apart parts)
  (lines : f.lines = (start.pushParts parts).lines)
include apart lines

theorem sectionIDs_pushParts :
    f.sectionIDs sha1 = (positions start.toIndices parts).map
      (fun place => f.sectionID sha1 ⟨place, [], .none⟩) := by
  rw [File.sectionIDs, lines]
  exact idsFrom_partLines _ false apart (ended_false parts)

theorem sectionIDs_nodup_of_lines : (f.sectionIDs sha1).Nodup := by
  rw [sectionIDs_pushParts apart lines]
  exact sectionIDs_nodup _ parts

theorem sectionIDs_ne_nil :
    f.sectionIDs sha1 ≠ [] ↔ ∃ part ∈ parts, part.isConflict = true ∧ part.content ≠ [] := by
  rw [sectionIDs_pushParts apart lines, Ne, map_eq_nil_iff]
  exact positions_ne_nil

end ids

theorem render_ne_nil {parts : List Part} {part : Part} (member : part ∈ parts) :
    render ourPath theirPath parts ≠ [] := by
  have written : part.rendered ourPath theirPath ≠ [] := by cases part <;> simp [rendered]
  rw [render, Ne, unlines_eq_nil, flatMap_eq_nil_iff]
  exact fun empty => written (empty part member)

include lively in
/-- A file that meets the condition is resolved by any choices. -/
theorem roundTrips_of_resolvable (resolvable : Resolvable ourPath theirPath merged.parts) :
    RoundTrips sha1 ⟨render ourPath theirPath merged.parts, sizes, early⟩ ancestor merged.our
      ⟨theirPath, contents⟩ merged.parts := by
  obtain ⟨part, member, our, _⟩ := resolvable.shared
  have parsed := parsed_of_plain merged contents resolvable.unescaped
    (fun _ _ _ => ⟨resolvable.our, resolvable.their⟩)
  have bytes : render ourPath theirPath merged.parts ≠ [] := render_ne_nil member
  have ours : merged.parts.flatMap ourLines ≠ [] := by
    rw [Ne, flatMap_eq_nil_iff]
    exact fun empty => our (empty part member)
  refine ⟨merged.file ancestor contents (start.pushParts merged.parts), ?_,
    sectionIDs_nodup_of_lines merged.apart rfl, fun choices content => ?_⟩
  · rw [parse_merged merged lively, parsed]
    simp [Except.bind, finish, pushParts, start, bytes, file]
  · have lines : kept choices 0 false (start.pushParts merged.parts).lines =
        resolved choices 0 merged.parts :=
      kept_partLines choices _ 0 false merged.apart (ended_false _)
    rw [resolve_choose (sectionIDs_nodup_of_lines merged.apart rfl)
      ((sectionIDs_ne_nil merged.apart rfl).mpr resolvable.conflict), ending_eq, if_pos ours,
      file, lines, join_append_newline (resolved_ne_nil choices 0 resolvable.shared)]

/-- What a round trip says about the parsed lines. -/
structure Settled (sha1 : Bytes → Bytes) (p : Parsing) : Prop where
  parsed : merged.parsed contents = .ok p
  closed : p.currentSection ≠ .old ∧ p.currentSection ≠ .new
  ids : (merged.file ancestor contents p).sectionIDs sha1 ≠ []
  sides : ∀ choice, (merged.file ancestor contents p).ending (keptSide choice p.lines) =
    unlines (sideLines choice merged.parts)

variable {merged ancestor contents}

include lively in
theorem settled_of_roundTrips
    (roundTrips : RoundTrips sha1 ⟨render ourPath theirPath merged.parts, sizes, early⟩ ancestor
      merged.our ⟨theirPath, contents⟩ merged.parts) :
    ∃ p, Settled merged ancestor contents sha1 p := by
  obtain ⟨file, parses, nodup, resolves⟩ := roundTrips
  rw [parse_merged merged lively, Option.some.injEq] at parses
  obtain ⟨p, parsed, finished⟩ := bind_eq_ok.mp parses
  unfold finish at finished
  split_ifs at finished with unclosed empty
  have is : merged.file ancestor contents p = file := Except.ok.inj finished
  subst is
  have ids : (merged.file ancestor contents p).sectionIDs sha1 ≠ [] := by
    intro blank
    have content (text : Bytes) := resolves (fun _ => .head) text
    simp only [File.resolve, File.choose, blank, mapIdx_nil, isEmpty_nil, if_true,
      Except.ok.injEq] at content
    cases (content []).trans (content [0]).symm
  refine ⟨p, parsed, not_or.mp unclosed, ids, fun choice => ?_⟩
  have both := resolves (fun _ => choice) []
  rw [resolve_choose nodup ids, kept_const, resolved_const] at both
  exact Except.ok.inj both

/-- A kept line does not start with a backslash. -/
theorem lines_of_parsed {p : Parsing} (parsed : merged.parsed contents = .ok p) :
    ∀ l ∈ p.lines, newline ∉ l.payload ∧ (l.side ≠ .noNewline → l.payload.head? ≠ some 92) := by
  refine foldlM_invariant (fun p : Parsing => ∀ l ∈ p.lines,
    newline ∉ l.payload ∧ (l.side ≠ .noNewline → l.payload.head? ≠ some 92)) ?_
    (forall_mem_nil _) parsed
  intro q token member next holds taken
  cases consumes_of_ok taken with
  | start | middle | finish => exact holds
  | line =>
    rw [push_lines]
    refine forall_mem_append.mpr ⟨holds, forall_mem_singleton.mpr ⟨?_, ?_⟩⟩
    · exact newline_notMem_flatMap_splitLines _ token member
    · intro side
      rw [push_section] at side
      split at side
      · exact absurd rfl side
      · assumption

section settled

variable {p : Parsing} (settled : Settled merged ancestor contents sha1 p)
include settled

variable (choice : Choice)

theorem keptSide_plain : ∀ line ∈ keptSide choice p.lines, newline ∉ line := by
  intro line member
  obtain ⟨l, inside, rfl⟩ := mem_map.mp member
  exact (lines_of_parsed settled.parsed l (mem_of_mem_filter inside)).1

theorem keptSide_unescaped : ∀ line ∈ keptSide choice p.lines, line.head? ≠ some 92 := by
  intro line member
  obtain ⟨l, inside, rfl⟩ := mem_map.mp member
  obtain ⟨of_, side⟩ := mem_filter.mp inside
  refine (lines_of_parsed settled.parsed l of_).2 (fun escaped => ?_)
  rw [escaped] at side
  cases choice <;> exact absurd side (by decide)

omit settled in
theorem sideLines_plain : ∀ line ∈ sideLines choice merged.parts, newline ∉ line := by
  intro line member
  obtain ⟨part, inside, of_⟩ := mem_flatMap.mp member
  refine merged.plain part inside line ?_
  cases part <;> cases choice <;>
    simp_all [Choice.pick, ourLines, theirLines, content]

/-- The kept lines are the lines of the side, but for an empty line. -/
theorem keptSide_cases :
    merged.parts.flatMap ourLines ≠ [] ∧
        (keptSide choice p.lines = sideLines choice merged.parts ∨
          keptSide choice p.lines = [] ∧ sideLines choice merged.parts = [[]]) ∨
      merged.parts.flatMap ourLines = [] ∧
        (keptSide choice p.lines = sideLines choice merged.parts ++ [[]] ∨
          keptSide choice p.lines = [] ∧ sideLines choice merged.parts = []) := by
  have same := settled.sides choice
  rw [ending_eq] at same
  split_ifs at same with ours
  · exact .inl
      ⟨ours, join_newline_inj (keptSide_plain settled choice) (sideLines_plain choice) same⟩
  · exact .inr ⟨not_not.mp ours,
      join_inj (keptSide_plain settled choice) (sideLines_plain choice) same⟩

theorem unescaped_of_settled :
    ∀ part ∈ merged.parts, ∀ line ∈ part.content, line.head? ≠ some 92 := by
  have side (choice : Choice) : ∀ line ∈ sideLines choice merged.parts, line.head? ≠ some 92 := by
    intro line member
    have kept_ : line ∈ keptSide choice p.lines ∨ line = [] := by
      rcases keptSide_cases settled choice with
        ⟨_, same | ⟨_, single⟩⟩ | ⟨_, longer | ⟨_, blank⟩⟩
      · exact .inl (same ▸ member)
      · exact .inr (mem_singleton.mp (single ▸ member))
      · exact .inl (longer ▸ mem_append_left _ member)
      · rw [blank] at member
        cases member
    rcases kept_ with inside | rfl
    · exact keptSide_unescaped settled choice line inside
    · exact nofun
  intro part member line inside
  obtain ⟨choice, of_⟩ := exists_side member inside
  exact side choice line of_

theorem conflict_of_settled : ∃ part ∈ merged.parts, part.isConflict = true := by
  by_contra blank
  have parsed := parsed_of_plain merged contents (unescaped_of_settled settled)
    (fun part member conflict => absurd ⟨part, member, conflict⟩ blank)
  obtain rfl := Except.ok.inj (settled.parsed.symm.trans parsed)
  obtain ⟨part, member, conflict, _⟩ := (sectionIDs_ne_nil merged.apart rfl).mp settled.ids
  exact blank ⟨part, member, conflict⟩

omit settled in
theorem middleMarker_mem {parts : List Part} {part : Part} (member : part ∈ parts)
    (conflict : part.isConflict = true) :
    middleMarker ∈ (parts.flatMap (rendered ourPath theirPath)).flatMap splitLines := by
  refine mem_flatMap.mpr ⟨middleMarker, mem_flatMap.mpr ⟨part, member, ?_⟩, by decide⟩
  cases part with
  | common line => cases conflict
  | conflict ours theirs => simp [rendered]

theorem ourPath_plain : newline ∉ ourPath := by
  intro broken
  obtain ⟨part, member, conflict⟩ := conflict_of_settled settled
  have unstarted : startMarker ourPath ∉ merged.tokens := fun token =>
    newline_notMem_flatMap_splitLines _ _ token (mem_append_right _ broken)
  have outside : start.currentSection ≠ .new := by decide
  exact middle_notMem_of_no_start unstarted outside settled.parsed
    (middleMarker_mem member conflict)

omit settled in
theorem broken_marker (our : Entry) (broken : newline ∈ theirPath) :
    ∃ marker others, splitLines (endMarker theirPath) = marker :: others ∧ marker ≠ [] ∧
      Ordinary our ⟨theirPath, contents⟩ marker := by
  obtain ⟨first, others, lines⟩ := exists_cons_of_ne_nil (splitLines_ne_nil theirPath)
  have split : splitLines (endMarker theirPath) = (ascii ">>>>>>> " ++ first) :: others := by
    rw [endMarker, splitLines_append (by decide), lines]
    rfl
  have plain := newline_notMem_splitLines (endMarker theirPath) (ascii ">>>>>>> " ++ first)
    (by rw [split]; exact mem_cons_self)
  refine ⟨_, others, split, by simp [ascii], ?_, ?_, ?_, by simp [ascii]⟩
  · simp [startMarker, ascii]
  · simp [middleMarker, ascii]
  · intro same
    rw [same] at plain
    exact plain (mem_append_right _ broken)

omit settled in
theorem commons_plain {parts : List Part}
    (plain : ∀ part ∈ parts, ∀ line ∈ part.content, newline ∉ line)
    (commons : ∀ part ∈ parts, part.isConflict = false) :
    ∀ text ∈ parts.flatMap (rendered ourPath theirPath), newline ∉ text := by
  intro text member
  obtain ⟨part, inside, of_⟩ := mem_flatMap.mp member
  refine rendered_plain (plain part inside) (fun conflict => ?_) text of_
  rw [commons part inside] at conflict
  cases conflict

section

variable {before rest : List Part} {ours theirs : List Bytes}
  (split : merged.parts = before ++ .conflict ours theirs :: rest)
  (commons : ∀ part ∈ before, part.isConflict = false)
include split commons

omit settled in
theorem tokens_split (our : newline ∉ ourPath) :
    merged.tokens = before.flatMap (rendered ourPath theirPath) ++
      ([startMarker ourPath] ++ ours ++ [middleMarker] ++ theirs ++
        (splitLines (endMarker theirPath) ++
          (rest.flatMap (rendered ourPath theirPath)).flatMap splitLines)) := by
  have plain := merged.plain
  rw [split] at plain
  obtain ⟨plain, plains⟩ := forall_mem_append.mp plain
  obtain ⟨first, second⟩ := forall_mem_append.mp (forall_mem_cons.mp plains).1
  have start : newline ∉ startMarker ourPath := by
    rw [startMarker, mem_append, not_or]
    exact ⟨by decide, our⟩
  have opening : ∀ text ∈ [startMarker ourPath] ++ ours ++ [middleMarker] ++ theirs,
      newline ∉ text := by
    simp only [forall_mem_append, forall_mem_singleton]
    exact ⟨⟨⟨start, first⟩, by decide⟩, second⟩
  rw [tokens, split, flatMap_append, flatMap_cons, flatMap_append,
    flatMap_splitLines_plain (commons_plain plain commons), flatMap_append, rendered,
    flatMap_append, flatMap_splitLines_plain opening, append_assoc]
  simp

/-- If the path in the end marker has a newline, the first conflict never ends: the marker
is among its lines. -/
theorem broken_end (broken : newline ∈ theirPath) :
    ∃ marker olds, marker ≠ [] ∧
      keptSide .head p.lines = sideLines .head before ++ ours ∧
      keptSide .origin p.lines = sideLines .origin before ++ theirs ++ marker :: olds ∧
      ∀ part ∈ rest, part.isConflict = false := by
  obtain ⟨marker, others, lines, nonempty, ordinary⟩ : ∃ marker others,
      splitLines (endMarker theirPath) = marker :: others ∧ marker ≠ [] ∧
        Ordinary merged.our ⟨theirPath, contents⟩ marker := broken_marker merged.our broken
  have each := merged.ordinary contents (unescaped_of_settled settled)
  have apart : Apart before := by
    have all := merged.apart
    rw [split] at all
    exact List.IsChain.left_of_append all
  rw [split] at each
  obtain ⟨ordinaries, later⟩ := forall_mem_append.mp each
  -- the parser after the lines in front, and after the two halves of the conflict
  have first : (before.flatMap (rendered ourPath theirPath)).foldlM
      (consume merged.our ⟨theirPath, contents⟩) .start =
        .ok (start.pushParts before) := consume_parts rfl ordinaries
  have second : ([startMarker ourPath] ++ ours ++ [middleMarker] ++ theirs).foldlM
      (consume merged.our ⟨theirPath, contents⟩) (start.pushParts before) =
        .ok ((start.pushParts before).openConflict ours theirs) :=
    consume_open rfl (forall_mem_cons.mp later).1
  have runs : merged.tokens.foldlM (consume merged.our ⟨theirPath, contents⟩) .start =
      .ok p := settled.parsed
  have missing : endMarker theirPath ∉ merged.tokens := fun token =>
    newline_notMem_flatMap_splitLines _ _ token (mem_append_right _ broken)
  rw [tokens_split split commons (ourPath_plain settled), lines] at missing runs
  rw [foldlM_append_ok first, foldlM_append_ok second, cons_append,
    foldlM_cons_ok (consume_ordinary ordinary _)] at runs
  have absent : endMarker theirPath ∉
      others ++ (rest.flatMap (rendered ourPath theirPath)).flatMap splitLines :=
    fun member => missing (mem_append_right _ (mem_append_right _ (mem_cons_of_mem _ member)))
  obtain ⟨unmarked, added, linesOf, sides⟩ := unended absent (.inl rfl) runs
  have all : p.lines = partLines start.toIndices before ++
      (numbered _ .new ours ++ numbered _ .old theirs) ++ numbered _ .old [marker] ++ added :=
        linesOf
  refine ⟨marker, keptSide .origin added, nonempty, ?_, ?_, fun part member => ?_⟩
  · have blank : keptSide .head added = [] := by
      rw [keptSide, map_eq_nil_iff, filter_eq_nil_iff]
      intro l member
      rcases sides l member with side | side <;> simp [side, Choice.side]
    rw [all, keptSide_append, keptSide_append, keptSide_append, keptSide_append, blank,
      keptSide_partLines _ _ apart, keptSide_numbered _ _ (by decide),
      keptSide_numbered _ _ (by decide), keptSide_numbered _ _ (by decide)]
    simp [Choice.side]
  · rw [all, keptSide_append, keptSide_append, keptSide_append, keptSide_append,
      keptSide_partLines _ _ apart, keptSide_numbered _ _ (by decide),
      keptSide_numbered _ _ (by decide), keptSide_numbered _ _ (by decide)]
    simp [Choice.side]
  · rw [← Bool.not_eq_true]
    exact fun conflict => unmarked (mem_append_right _ (middleMarker_mem member conflict))

end

omit settled in
theorem sideLines_commons {parts : List Part} (commons : ∀ part ∈ parts, part.isConflict = false) :
    sideLines choice parts = parts.flatMap ourLines := by
  refine flatMap_congr (fun part member => ?_)
  cases part with
  | common line => cases choice <;> rfl
  | conflict ours theirs => cases commons _ member

/-- A marker that is a line would have to be the line after the conflict as well, and then
our side misses that line. -/
theorem theirPath_plain : newline ∉ theirPath := by
  intro broken
  obtain ⟨part, member, conflict⟩ := conflict_of_settled settled
  obtain ⟨found, finds⟩ : ∃ found, merged.parts.find? isConflict = some found :=
    Option.isSome_iff_exists.mp (find?_isSome.mpr ⟨part, member, conflict⟩)
  obtain ⟨is, before, rest, split, commons⟩ := find?_eq_some_iff_append.mp finds
  cases found with
  | common line => cases is
  | conflict ours theirs =>
    obtain ⟨marker, olds, nonempty, heads, origins, after⟩ :=
      broken_end settled split (fun part inside => by simpa using commons part inside) broken
    have sides (choice : Choice) : sideLines choice merged.parts =
        sideLines choice before ++ (choice.pick ours theirs ++ rest.flatMap ourLines) := by
      rw [← sideLines_commons choice after, split]
      simp [sideLines, ourLines, theirLines]
    have our : merged.parts.flatMap ourLines = [] → rest.flatMap ourLines = [] := by
      rw [split]
      simp +contextual
    have origin := keptSide_cases settled .origin
    have head := keptSide_cases settled .head
    rw [origins, sides .origin, Choice.pick, append_assoc] at origin
    rw [heads, sides .head, Choice.pick] at head
    rcases origin with ⟨filled, same | ⟨blank, _⟩⟩ | ⟨blank, same | ⟨blank, _⟩⟩
    · have follows := append_cancel_left (append_cancel_left same)
      rcases head with ⟨_, same | ⟨blank, single⟩⟩ | ⟨blank, _⟩
      · have lengths := congrArg List.length (append_cancel_left same)
        rw [← follows, length_append, length_cons] at lengths
        omega
      · rw [← append_assoc, blank, nil_append, ← follows] at single
        exact nonempty (List.cons.inj single).1
      · exact filled blank
    · simp at blank
    · rw [our blank, append_nil, append_assoc] at same
      exact nonempty (List.cons.inj (append_cancel_left (append_cancel_left same))).1
    · simp at blank

omit settled in
/-- Lines on either side are on both sides of some part: of a common line, or else of the
only conflict. -/
theorem shared_of_sides {parts : List Part} (apart : Apart parts)
    (sides : ∀ choice, sideLines choice parts ≠ []) :
    ∃ part ∈ parts, part.ourLines ≠ [] ∧ part.theirLines ≠ [] := by
  by_cases common : ∃ part ∈ parts, part.isConflict = false
  · obtain ⟨part, member, is⟩ := common
    cases part with
    | common line => exact ⟨_, member, cons_ne_nil _ _, cons_ne_nil _ _⟩
    | conflict ours theirs => cases is
  · have conflicts : ∀ part ∈ parts, part.isConflict = true := fun part member =>
      Bool.of_not_eq_false (fun is => common ⟨part, member, is⟩)
    match parts, apart, sides, conflicts with
    | [], _, sides, _ => exact absurd rfl (sides .head)
    | [part], _, sides, _ =>
      have only (choice : Choice) : choice.pick part.ourLines part.theirLines ≠ [] := by
        simpa [sideLines] using sides choice
      exact ⟨part, mem_cons_self, only .head, only .origin⟩
    | first :: second :: rest, apart, _, conflicts =>
      exact absurd ⟨conflicts first mem_cons_self,
        conflicts second (mem_cons_of_mem _ mem_cons_self)⟩
        ((isChain_cons.mp apart).1 second rfl)

/-- The contents end rightly only if both sides have lines, or none. -/
theorem sides_of_settled (lines : keptSide choice p.lines = sideLines choice merged.parts) :
    sideLines choice merged.parts ≠ [] ↔ merged.parts.flatMap ourLines ≠ [] := by
  have ends := settled.sides choice
  rw [ending_eq, lines] at ends
  constructor
  · intro filled blank
    rw [if_neg (not_not.mpr blank), ← join_append_newline filled] at ends
    exact cons_ne_nil _ _ (append_right_eq_self.mp ends.symm)
  · intro filled blank
    rw [if_pos filled, blank] at ends
    cases ends

theorem resolvable_of_settled : Resolvable ourPath theirPath merged.parts := by
  have unescaped := unescaped_of_settled settled
  have parsed := parsed_of_plain merged contents unescaped
    (fun _ _ _ => ⟨ourPath_plain settled, theirPath_plain settled⟩)
  obtain rfl := Except.ok.inj (settled.parsed.symm.trans parsed)
  obtain ⟨part, member, conflict, lines⟩ := (sectionIDs_ne_nil merged.apart rfl).mp settled.ids
  refine ⟨unescaped, ourPath_plain settled, theirPath_plain settled,
    ⟨part, member, conflict, lines⟩,
    shared_of_sides merged.apart ?_⟩
  have sides (choice : Choice) :=
    sides_of_settled settled choice (keptSide_partLines choice _ merged.apart)
  obtain ⟨line, inside⟩ := exists_mem_of_ne_nil _ lines
  obtain ⟨choice, of_⟩ := exists_side member inside
  exact fun other => (sides other).mpr ((sides choice).mp (ne_nil_of_mem of_))

end settled

include lively in
theorem roundTrips_iff_resolvable (sha1 : Bytes → Bytes) (merged : Merged ourPath theirPath)
    (ancestor : Option Entry) (contents : Bytes) :
    RoundTrips sha1 ⟨render ourPath theirPath merged.parts, sizes, early⟩ ancestor merged.our
        ⟨theirPath, contents⟩ merged.parts ↔ Resolvable ourPath theirPath merged.parts := by
  constructor
  · intro roundTrips
    obtain ⟨p, settled⟩ := settled_of_roundTrips lively early roundTrips
    exact resolvable_of_settled settled
  · exact roundTrips_of_resolvable merged lively early ancestor contents

end merged

/-- A file with two common lines around a conflict. -/
def poem : Merged (ascii "poem") (ascii "poem") where
  parts := [.common (ascii "a"), .conflict [ascii "b"] [ascii "c", ascii "d"], .common (ascii "e")]
  plain := by decide
  unmarked := by decide
  apart := by unfold Apart; decide
  small := by decide

theorem poem_roundTrips :
    Lively (fun _ => 3) ∧ Resolvable (ascii "poem") (ascii "poem") poem.parts ∧
      RoundTrips (fun _ => []) ⟨render (ascii "poem") (ascii "poem") poem.parts, fun _ => 3, true⟩
        none poem.our ⟨ascii "poem", ascii "a"⟩ poem.parts := by
  have lively : Lively (fun _ => 3) := fun _ => ⟨0, Nat.zero_le _, Nat.succ_pos _⟩
  have resolvable : Resolvable (ascii "poem") (ascii "poem") poem.parts :=
    ⟨by decide, by decide, by decide, by decide, by decide⟩
  exact ⟨lively, resolvable,
    (roundTrips_iff_resolvable lively true (fun _ => []) poem none (ascii "a")).mpr resolvable⟩

/-- The same with a line in front that starts with a backslash. -/
def texFile : Merged (ascii "a.tex") (ascii "a.tex") where
  parts := [.common (ascii "\\begin"), .conflict [ascii "b"] [ascii "c"]]
  plain := by decide
  unmarked := by decide
  apart := by unfold Apart; decide
  small := by decide

theorem texFile_lost :
    ¬ RoundTrips (fun _ => [])
      ⟨render (ascii "a.tex") (ascii "a.tex") texFile.parts, fun _ => 4096, false⟩ none texFile.our
      ⟨ascii "a.tex", ascii "c"⟩ texFile.parts := by
  rintro ⟨file, parses, _⟩
  have fails : parse ⟨render (ascii "a.tex") (ascii "a.tex") texFile.parts, fun _ => 4096, false⟩
      none texFile.our ⟨ascii "a.tex", ascii "c"⟩ = some (.error .unexpectedDelimiter) := by
    decide +kernel
  cases fails.symm.trans parses

end Gitaly.Conflict
