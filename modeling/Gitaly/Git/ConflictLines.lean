import Gitaly.Base.Fallible
import Gitaly.Git.Conflict
import Mathlib.Data.List.Chain

/- What the parser makes of a file's lines, and the resolver of the parsed lines. -/
namespace Gitaly.Conflict

open Scanning Numeral Parsing List Fallible
open Text

section scan

theorem split_recognises {line : Bytes} {consumed : Nat} (plain : newline ∉ line)
    (small : consumed + line.length + 1 < fileLimit) :
    Recognises split fileLimit consumed (line ++ [newline]) line where
  nonempty := by simp
  bound := by
    rw [length_append, length_singleton]
    omega
  incomplete := by
    intro data after cut nonempty missing
    have inside : newline ∉ data := by
      obtain ⟨before, last, rfl⟩ := eq_nil_or_concat after |>.resolve_left missing
      rw [concat_eq_append, ← append_assoc] at cut
      have line := (append_inj' cut rfl).1
      exact fun member => plain (line ▸ mem_append_left _ member)
    have below : ¬ fileLimit ≤ consumed := by omega
    simp [split, below, idxOf?_eq_none_iff.mpr inside]
  complete := by
    intro after eof
    have below : ¬ fileLimit ≤ consumed := by omega
    rw [append_assoc, singleton_append]
    simp [split, below, idxOf?_newline plain]

theorem cuts_lines {lines : List Bytes} (plain : ∀ line ∈ lines, newline ∉ line) {consumed : Nat}
    (small : consumed + (unlines lines).length < fileLimit) :
    Cuts split fileLimit consumed (lines.map (fun line => (line ++ [newline], line))) := by
  induction lines generalizing consumed with
  | nil =>
    have below : ¬ fileLimit ≤ consumed := by omega
    simp [Cuts, split, below]
  | cons line rest ih =>
    obtain ⟨first, others⟩ := forall_mem_cons.mp plain
    rw [unlines_cons, length_append, length_cons] at small
    refine ⟨split_recognises first (by omega), ih others ?_⟩
    rw [length_append, length_singleton]
    omega

theorem parse_lines {lines : List Bytes} (plain : ∀ line ∈ lines, newline ∉ line)
    {src : Reader UInt8} (lively : Lively src.sizes) (stream : src.rest = unlines lines)
    (small : src.rest.length < fileLimit) (ancestor : Option Entry) (our their : Entry) :
    parse src ancestor our their =
      some ((lines.foldlM (consume our their) .start).bind
        (finish ancestor our their src.rest.length)) := by
  have cuts : Cuts split fileLimit 0 _ := cuts_lines plain (by rwa [← stream, Nat.zero_add])
  have pieces : src.rest =
      (lines.map (fun line => (line ++ [newline], line))).flatMap Prod.fst := by
    rw [stream, unlines, flatMap_map]
  obtain ⟨final, error, consumed, runs⟩ := Scanner.run_fresh 4096 src
    (consume our their) .start (by decide) lively cuts pieces
  have tokens : (lines.map (fun line => (line ++ [newline], line))).map Prod.snd = lines := by
    simp [Function.comp_def]
  rw [tokens] at runs
  rw [parse, newScanner, runs]
  cases lines.foldlM (consume our their) .start with
  | error e => rfl
  | ok p => simp [Except.map, Except.bind, error, consumed]

end scan

section resolve

variable (sha1 : Bytes → Bytes) (f : File)

theorem underscore_notMem_format (n : Nat) : (95 : UInt8) ∉ format 10 1 n := by
  intro member
  obtain ⟨digit, _, value⟩ := digitValue_of_mem_padded (by decide) (by decide) member
  cases value

theorem sectionID_ne_nil (l : Line) : f.sectionID sha1 l ≠ [] := by simp [File.sectionID, ascii]

/-- An ID tells the place of its line in the two files. -/
theorem sectionID_inj {l other : Line} (same : f.sectionID sha1 l = f.sectionID sha1 other) :
    l.oldIndex = other.oldIndex ∧ l.newIndex = other.newIndex := by
  simp only [File.sectionID, append_assoc] at same
  have numerals := append_cancel_left (append_cancel_left same)
  have split (old new : Nat) : splitOn (95 : UInt8)
      (format 10 1 old ++ (ascii "_" ++ format 10 1 new)) = [format 10 1 old, format 10 1 new] := by
    have plain : ∀ numeral ∈ [format 10 1 old, format 10 1 new], (95 : UInt8) ∉ numeral := by
      simp [underscore_notMem_format]
    rw [← splitOn_intercalate 95 plain (cons_ne_nil _ _)]
    simp [intercalate_cons_cons, ascii]
  have parts := congrArg (splitOn (95 : UInt8)) numerals
  rw [split, split, cons.injEq, cons.injEq] at parts
  exact ⟨format_inj (by decide) (by decide) parts.1, format_inj (by decide) (by decide) parts.2.1⟩

/-- The lines that are kept of a file, the number being that of the section a line is in, or
else of the next one. -/
def kept (choices : Nat → Choice) : Nat → Bool → List Line → List Bytes
  | _, _, [] => []
  | number, inside, l :: rest =>
    if l.side = .none then
      l.payload :: kept choices (if inside then number + 1 else number) false rest
    else if l.side = (choices number).side then l.payload :: kept choices number true rest
    else kept choices number true rest

variable {sha1 f} {sections : List (Bytes × Bytes)}

/-- A line of a section is kept if it is of the side chosen for the section. -/
theorem resolveLines_section {choice : Choice} {id : Bytes} {l : Line} {rest : List Line}
    {keeps : List Bytes} (sectionID : Bytes) (conflict : l.side ≠ .none)
    (is : (if sectionID = [] then f.sectionID sha1 l else sectionID) = id)
    (found : sections.lookup id = some choice.text)
    (later : f.resolveLines sha1 sections id rest = .ok keeps) :
    f.resolveLines sha1 sections sectionID (l :: rest) =
      .ok (if l.side = choice.side then l.payload :: keeps else keeps) := by
  unfold File.resolveLines
  rw [if_neg conflict, is]
  dsimp only
  rw [found, later]
  cases choice with
  | head => by_cases side : l.side = .new <;> simp [Choice.text, Choice.side, side, Except.map]
  | origin =>
    have other : origin ≠ head := by decide
    by_cases side : l.side = .old <;> simp [Choice.text, Choice.side, side, other, Except.map]

theorem resolveLines_kept {choices : Nat → Choice} {sectionID : Bytes} {lines : List Line}
    (number : Nat) (inside : Bool) (outside : inside = false → sectionID = [])
    (current : inside = true →
      sectionID ≠ [] ∧ sections.lookup sectionID = some (choices number).text)
    (coming : ∀ (j : Nat) (id : Bytes), (f.idsFrom sha1 inside lines)[j]? = some id →
      sections.lookup id = some (choices ((if inside then number + 1 else number) + j)).text) :
    f.resolveLines sha1 sections sectionID lines = .ok (kept choices number inside lines) := by
  induction lines generalizing number inside sectionID with
  | nil => rfl
  | cons l rest ih =>
    rw [File.idsFrom] at coming
    by_cases common : l.side = .none
    · rw [if_pos common] at coming
      rw [File.resolveLines, kept, if_pos common, if_pos common,
        ih _ false (fun _ => rfl) nofun coming]
      rfl
    · rw [if_neg common] at coming
      rw [kept, if_neg common]
      cases inside with
      | true =>
        obtain ⟨nonempty, found⟩ := current rfl
        rw [resolveLines_section sectionID common (if_neg nonempty) found
          (ih number true nofun (fun _ => ⟨nonempty, found⟩) coming)]
      | false =>
        have found : sections.lookup (f.sectionID sha1 l) = some (choices number).text :=
          coming 0 _ rfl
        have later (j : Nat) (id : Bytes) (next : (f.idsFrom sha1 true rest)[j]? = some id) :
            sections.lookup id = some (choices (number + 1 + j)).text := by
          rw [Nat.add_assoc, Nat.add_comm 1 j]
          exact coming (j + 1) id next
        rw [resolveLines_section sectionID common (if_pos (outside rfl)) found
          (ih number true nofun (fun _ => ⟨sectionID_ne_nil sha1 f l, found⟩) later)]

theorem lookup_mapIdx {keys : List Bytes} (nodup : keys.Nodup) (value : Nat → Bytes) {j : Nat}
    {key : Bytes} (found : keys[j]? = some key) :
    (keys.mapIdx (fun number key => (key, value number))).lookup key = some (value j) := by
  induction keys generalizing j value with
  | nil => cases found
  | cons first rest ih =>
    obtain ⟨fresh, nodup⟩ := nodup_cons.mp nodup
    rw [mapIdx_cons]
    cases j with
    | zero =>
      cases found
      exact lookup_cons_self
    | succ j =>
      have found : rest[j]? = some key := found
      have other : key ≠ first := fun same =>
        fresh (same ▸ mem_of_getElem? found)
      rw [lookup_cons, beq_eq_false_iff_ne.mpr other]
      exact ih nodup (fun number => value (number + 1)) found

/-- The contents end as our contents do. -/
def File.ending (f : File) (lines : List Bytes) : Bytes :=
  if [newline] <:+ f.our.contents then join lines ++ [newline] else join lines

/-- A file with sections that are told apart is resolved by the choices. -/
theorem resolve_choose (nodup : (f.sectionIDs sha1).Nodup) (nonempty : f.sectionIDs sha1 ≠ [])
    (choices : Nat → Choice) (content : Bytes) :
    f.resolve sha1 ⟨f.choose sha1 choices, content⟩ =
      .ok (f.ending (kept choices 0 false f.lines)) := by
  have chosen : (f.choose sha1 choices).isEmpty = false := by simpa [File.choose] using nonempty
  have resolves : f.resolveLines sha1 (f.choose sha1 choices) [] f.lines =
      .ok (kept choices 0 false f.lines) := by
    refine resolveLines_kept 0 false (fun _ => rfl) nofun (fun j id found => ?_)
    rw [if_neg Bool.false_ne_true, Nat.zero_add]
    exact lookup_mapIdx nodup (fun number => (choices number).text) found
  rw [File.resolve]
  rw [chosen, resolves]
  rfl

end resolve

section parse

variable {our their : Entry}

namespace Indices

/-- After a number of lines of one section. -/
def skip (indices : Indices) (side : Section) : Nat → Indices
  | 0 => indices
  | n + 1 => (indices.next side).skip side n

/-- Every line moves on in one of the files. -/
def place (indices : Indices) : Nat := indices.oldIndex + indices.newIndex

theorem place_lt_next (indices : Indices) (side : Section) :
    indices.place < (indices.next side).place := by
  cases side <;> simp [place, next] <;> omega

theorem add_le_place_skip (indices : Indices) (side : Section) (n : Nat) :
    indices.place + n ≤ (indices.skip side n).place := by
  induction n generalizing indices with
  | zero => exact Nat.le_refl _
  | succ n ih =>
    have moves := indices.place_lt_next side
    have later := ih (indices.next side)
    rw [skip]
    omega

end Indices

/-- The lines of one section, from the given place on. -/
def numbered (indices : Indices) (side : Section) : List Bytes → List Line
  | [] => []
  | l :: rest => ⟨indices, l, side⟩ :: numbered (indices.next side) side rest

def Parsing.pushAll (p : Parsing) (lines : List Bytes) : Parsing :=
  { p with
    toIndices := p.toIndices.skip p.currentSection lines.length
    lines := p.lines ++ numbered p.toIndices p.currentSection lines }

/-- A line of a file that the parser takes as what it is. -/
structure Ordinary (our their : Entry) (line : Bytes) : Prop where
  start : line ≠ startMarker our.path
  middle : line ≠ middleMarker
  finish : line ≠ endMarker their.path
  unescaped : line.head? ≠ some 92

theorem consume_ordinary {line : Bytes} (ordinary : Ordinary our their line) (p : Parsing) :
    p.consume our their line = .ok (p.pushAll [line]) := by
  rw [consume, if_neg ordinary.start, if_neg ordinary.middle, if_neg ordinary.finish,
    push, if_neg ordinary.unescaped]
  rfl

theorem consume_all {lines : List Bytes} (ordinary : ∀ line ∈ lines, Ordinary our their line)
    (p : Parsing) : lines.foldlM (consume our their) p = .ok (p.pushAll lines) := by
  induction lines generalizing p with
  | nil => simp [pushAll, Indices.skip, numbered]; rfl
  | cons line rest ih =>
    obtain ⟨first, others⟩ := forall_mem_cons.mp ordinary
    rw [foldlM_cons, consume_ordinary first]
    refine (ih others _).trans ?_
    simp [pushAll, Indices.skip, numbered]

theorem middleMarker_ne_startMarker (path : Bytes) : middleMarker ≠ startMarker path := by
  simp [middleMarker, startMarker, ascii]

theorem endMarker_ne_startMarker (theirPath ourPath : Bytes) :
    endMarker theirPath ≠ startMarker ourPath := by
  simp [endMarker, startMarker, ascii]

theorem endMarker_ne_middleMarker (path : Bytes) : endMarker path ≠ middleMarker := by
  simp [endMarker, middleMarker, ascii]

/-- What consuming a line does where it does not fail. -/
inductive Consumes (our their : Entry) (p : Parsing) (l : Bytes) : Parsing → Prop where
  | start (is : l = startMarker our.path) (outside : p.currentSection = .none) :
      Consumes our their p l { p with currentSection := .new }
  | middle (is : l = middleMarker) (ours : p.currentSection = .new) :
      Consumes our their p l { p with currentSection := .old }
  | finish (is : l = endMarker their.path) (theirs : p.currentSection = .old) :
      Consumes our their p l { p with currentSection := .none }
  | line (start : l ≠ startMarker our.path) (middle : l ≠ middleMarker)
      (finish : l ≠ endMarker their.path) : Consumes our their p l (p.push l)

theorem delimit_eq_ok {p next : Parsing} {expected later : Section}
    (taken : p.delimit expected later = .ok next) :
    p.currentSection = expected ∧ next = { p with currentSection := later } := by
  unfold Parsing.delimit at taken
  split_ifs at taken with same
  cases taken
  exact ⟨not_not.mp same, rfl⟩

theorem consumes_of_ok {p next : Parsing} {l : Bytes} (taken : p.consume our their l = .ok next) :
    Consumes our their p l next := by
  unfold Parsing.consume at taken
  split_ifs at taken with start middle finish
  · obtain ⟨outside, rfl⟩ := delimit_eq_ok taken
    exact .start start outside
  · obtain ⟨ours, rfl⟩ := delimit_eq_ok taken
    exact .middle middle ours
  · obtain ⟨theirs, rfl⟩ := delimit_eq_ok taken
    exact .finish finish theirs
  · cases taken
    exact .line start middle finish

theorem push_lines (p : Parsing) (l : Bytes) :
    (p.push l).lines = p.lines ++ [⟨p.toIndices, l, (p.push l).currentSection⟩] := by
  unfold Parsing.push
  split <;> rfl

theorem push_section (p : Parsing) (l : Bytes) :
    (p.push l).currentSection = if l.head? = some 92 then .noNewline else p.currentSection := by
  unfold Parsing.push
  split <;> rfl

/-- Without a start marker there is no middle marker. -/
theorem middle_notMem_of_no_start {tokens : List Bytes} {p q : Parsing}
    (unstarted : startMarker our.path ∉ tokens) (outside : p.currentSection ≠ .new)
    (runs : tokens.foldlM (consume our their) p = .ok q) : middleMarker ∉ tokens := by
  induction tokens generalizing p with
  | nil => exact not_mem_nil
  | cons token rest ih =>
    obtain ⟨other, unstarted⟩ := not_or.mp (mt mem_cons.mpr unstarted)
    obtain ⟨next, taken, remaining⟩ := foldlM_cons_eq_ok.mp runs
    rw [mem_cons, not_or]
    cases consumes_of_ok taken with
    | start is => exact absurd is.symm other
    | middle is ours => exact absurd ours outside
    | finish is =>
      have closed : Section.none ≠ .new := by decide
      exact ⟨fun same => endMarker_ne_middleMarker _ (is.symm.trans same.symm),
        ih unstarted closed remaining⟩
    | line _ middle =>
      refine ⟨Ne.symm middle, ih unstarted ?_ remaining⟩
      rw [push_section]
      split
      · exact nofun
      · exact outside

/-- Without an end marker a conflict that has come to its second half goes on to the end. -/
theorem unended {tokens : List Bytes} {p q : Parsing} (missing : endMarker their.path ∉ tokens)
    (inside : p.currentSection = .old ∨ p.currentSection = .noNewline)
    (runs : tokens.foldlM (consume our their) p = .ok q) :
    middleMarker ∉ tokens ∧ ∃ added, q.lines = p.lines ++ added ∧
      ∀ l ∈ added, l.side = .old ∨ l.side = .noNewline := by
  induction tokens generalizing p with
  | nil =>
    cases runs
    exact ⟨not_mem_nil, [], (append_nil _).symm, forall_mem_nil _⟩
  | cons token rest ih =>
    obtain ⟨other, missing⟩ := not_or.mp (mt mem_cons.mpr missing)
    obtain ⟨next, taken, remaining⟩ := foldlM_cons_eq_ok.mp runs
    cases consumes_of_ok taken with
    | start _ outside => rcases inside with at_ | at_ <;> cases outside.symm.trans at_
    | middle _ ours => rcases inside with at_ | at_ <;> cases ours.symm.trans at_
    | finish is => exact absurd is.symm other
    | line _ middle =>
      have stays : (p.push token).currentSection = .old ∨
          (p.push token).currentSection = .noNewline := by
        rw [push_section]
        split
        · exact .inr rfl
        · exact inside
      obtain ⟨unmarked, added, lines, sides⟩ := ih missing stays remaining
      refine ⟨?_, ⟨p.toIndices, token, (p.push token).currentSection⟩ :: added, ?_,
        forall_mem_cons.mpr ⟨stays, sides⟩⟩
      · rw [mem_cons, not_or]
        exact ⟨Ne.symm middle, unmarked⟩
      · rw [lines, push_lines, append_assoc]
        rfl

/-- The lines of a merged file, from the given place on. -/
def partLines : Indices → List Part → List Line
  | _, [] => []
  | indices, .common line :: rest =>
    ⟨indices, line, .none⟩ :: partLines (indices.next .none) rest
  | indices, .conflict ours theirs :: rest =>
    numbered indices .new ours ++
      (numbered (indices.skip .new ours.length) .old theirs ++
        partLines ((indices.skip .new ours.length).skip .old theirs.length) rest)

def partsEnd : Indices → List Part → Indices
  | indices, [] => indices
  | indices, .common _ :: rest => partsEnd (indices.next .none) rest
  | indices, .conflict ours theirs :: rest =>
    partsEnd ((indices.skip .new ours.length).skip .old theirs.length) rest

def Parsing.pushParts (p : Parsing) (parts : List Part) : Parsing :=
  { p with
    toIndices := partsEnd p.toIndices parts
    lines := p.lines ++ partLines p.toIndices parts }

def Parsing.openConflict (p : Parsing) (ours theirs : List Bytes) : Parsing :=
  { p with
    toIndices := (p.toIndices.skip .new ours.length).skip .old theirs.length
    currentSection := .old
    lines := p.lines ++ (numbered p.toIndices .new ours ++
      numbered (p.toIndices.skip .new ours.length) .old theirs) }

theorem consume_open {p : Parsing} {ours theirs : List Bytes} (outside : p.currentSection = .none)
    (ordinary : ∀ line ∈ ours ++ theirs, Ordinary our their line) :
    ([startMarker our.path] ++ ours ++ [middleMarker] ++ theirs).foldlM
      (consume our their) p = .ok (p.openConflict ours theirs) := by
  obtain ⟨first, second⟩ := forall_mem_append.mp ordinary
  have starts : p.consume our their (startMarker our.path) =
      .ok { p with currentSection := .new } := by
    simp [consume, delimit, outside]
  have turns (q : Parsing) (inside : q.currentSection = .new) :
      q.consume our their middleMarker = .ok { q with currentSection := .old } := by
    simp [consume, delimit, inside, middleMarker_ne_startMarker]
  simp only [cons_append, nil_append, append_assoc]
  rw [foldlM_cons_ok starts, foldlM_append_ok (consume_all first _),
    foldlM_cons_ok (turns _ rfl), consume_all second]
  simp [pushAll, openConflict]

theorem consume_parts {parts : List Part} {p : Parsing} (outside : p.currentSection = .none)
    (ordinary : ∀ part ∈ parts, ∀ line ∈ part.content, Ordinary our their line) :
    (parts.flatMap (Part.rendered our.path their.path)).foldlM (consume our their) p =
      .ok (p.pushParts parts) := by
  induction parts generalizing p with
  | nil => simp [pushParts, partsEnd, partLines]; rfl
  | cons part rest ih =>
    obtain ⟨first, others⟩ := forall_mem_cons.mp ordinary
    rw [flatMap_cons]
    cases part with
    | common line =>
      rw [Part.rendered, singleton_append, foldlM_cons_ok
        (consume_ordinary (first line mem_cons_self) p),
        ih (p := p.pushAll [line]) outside others]
      simp [pushAll, pushParts, partsEnd, partLines, numbered, Indices.skip, outside]
    | conflict ours theirs =>
      have ends : (p.openConflict ours theirs).consume our their (endMarker their.path) =
          .ok { p.openConflict ours theirs with currentSection := .none } := by
        simp [consume, delimit, endMarker_ne_startMarker, endMarker_ne_middleMarker, openConflict]
      rw [Part.rendered, append_assoc, foldlM_append_ok
        (consume_open outside first), singleton_append, foldlM_cons_ok ends,
        ih rfl others]
      simp [openConflict, pushParts, partsEnd, partLines, outside]

end parse

section sections

variable {sha1 : Bytes → Bytes} {f : File}

theorem kept_numbered (choices : Nat → Choice) {side : Section} (conflict : side ≠ .none)
    (indices : Indices) (number : Nat) (inside : Bool) (lines : List Bytes) (rest : List Line) :
    kept choices number inside (numbered indices side lines ++ rest) =
      (if side = (choices number).side then lines else []) ++
        kept choices number (inside || !lines.isEmpty) rest := by
  induction lines generalizing indices inside with
  | nil => simp [numbered]
  | cons line lines ih =>
    rw [numbered, cons_append, kept, if_neg conflict, ih]
    split <;> simp_all

variable {ours theirs : List Bytes}

theorem resolved_conflict (lines : 0 < ours.length + theirs.length)
    (choices : Nat → Choice) (number : Nat) (rest : List Part) :
    resolved choices number (.conflict ours theirs :: rest) =
      (choices number).pick ours theirs ++ resolved choices (number + 1) rest := by
  cases ours <;> cases theirs <;> first | rfl | cases lines

/-- Where the conflicts with lines are. -/
def positions : Indices → List Part → List Indices
  | _, [] => []
  | indices, .common _ :: rest => positions (indices.next .none) rest
  | indices, .conflict [] [] :: rest => positions indices rest
  | indices, .conflict ours theirs :: rest =>
    indices :: positions ((indices.skip .new ours.length).skip .old theirs.length) rest

theorem positions_conflict (lines : 0 < ours.length + theirs.length)
    (indices : Indices) (rest : List Part) :
    positions indices (.conflict ours theirs :: rest) =
      indices :: positions ((indices.skip .new ours.length).skip .old theirs.length) rest := by
  cases ours <;> cases theirs <;> first | rfl | cases lines

theorem idsFrom_numbered {side : Section} (conflict : side ≠ .none) (indices : Indices)
    (inside : Bool) (lines : List Bytes) (rest : List Line) :
    f.idsFrom sha1 inside (numbered indices side lines ++ rest) =
      (if !inside && !lines.isEmpty then [f.sectionID sha1 ⟨indices, [], .none⟩] else []) ++
        f.idsFrom sha1 (inside || !lines.isEmpty) rest := by
  induction lines generalizing indices inside with
  | nil => simp [numbered]
  | cons line lines ih =>
    rw [numbered, cons_append, File.idsFrom, if_neg conflict, ih]
    cases inside <;> simp
    rfl

/-- A section never goes on in the next part: its conflict has ended. -/
def Ended (inside : Bool) (parts : List Part) : Prop :=
  inside = true → ∀ part ∈ parts.head?, part.isConflict = false

theorem ended_false (parts : List Part) : Ended false parts := fun inside => by cases inside

theorem Apart.ended {part : Part} {rest : List Part} (apart : Apart (part :: rest))
    (conflict : part.isConflict = true) : Ended true rest := fun _ next member =>
  Bool.eq_false_iff.mpr (fun also => (isChain_cons.mp apart).1 next member ⟨conflict, also⟩)

theorem Ended.outside {rest : List Part} {inside : Bool}
    (ended : Ended inside (.conflict ours theirs :: rest)) : inside = false := by
  cases inside with
  | false => rfl
  | true => cases ended rfl _ rfl

variable {parts : List Part}

theorem kept_partLines (choices : Nat → Choice) (indices : Indices) (number : Nat) (inside : Bool)
    (apart : Apart parts) (ended : Ended inside parts) :
    kept choices number inside (partLines indices parts) =
      resolved choices (if inside then number + 1 else number) parts := by
  induction parts generalizing indices number inside with
  | nil => rfl
  | cons part rest ih =>
    have later : Apart rest := (isChain_cons.mp apart).2
    cases part with
    | common line =>
      rw [partLines, kept, if_pos rfl, resolved, ih _ _ false later (ended_false rest),
        if_neg Bool.false_ne_true]
    | conflict ours theirs =>
      obtain rfl := ended.outside
      rw [partLines, kept_numbered choices (by decide), kept_numbered choices (by decide)]
      rcases Nat.eq_zero_or_pos (ours.length + theirs.length) with blank | lines
      · obtain ⟨rfl, rfl⟩ : ours = [] ∧ theirs = [] := by simpa using blank
        simpa [resolved] using ih _ number false later (ended_false rest)
      have inside : (false || !ours.isEmpty || !theirs.isEmpty) = true := by
        cases ours <;> cases theirs <;> first | rfl | cases lines
      rw [inside, ih _ number true later (apart.ended rfl), if_pos rfl,
        if_neg Bool.false_ne_true, resolved_conflict lines, ← append_assoc]
      congr 1
      cases choices number <;> simp [Choice.side, Choice.pick]

theorem idsFrom_partLines (indices : Indices) (inside : Bool)
    (apart : Apart parts) (ended : Ended inside parts) :
    f.idsFrom sha1 inside (partLines indices parts) =
      (positions indices parts).map (fun place => f.sectionID sha1 ⟨place, [], .none⟩) := by
  induction parts generalizing indices inside with
  | nil => rfl
  | cons part rest ih =>
    have later : Apart rest := (isChain_cons.mp apart).2
    cases part with
    | common line =>
      rw [partLines, File.idsFrom, if_pos rfl, positions, ih _ false later (ended_false rest)]
    | conflict ours theirs =>
      obtain rfl := ended.outside
      rw [partLines, idsFrom_numbered (by decide), idsFrom_numbered (by decide),
        ih _ _ later (fun _ => apart.ended rfl rfl)]
      cases ours <;> cases theirs <;> simp [positions, Indices.skip]

theorem place_le_of_mem_positions {indices : Indices} :
    ∀ place ∈ positions indices parts, indices.place ≤ place.place := by
  induction parts generalizing indices with
  | nil => nofun
  | cons part rest ih =>
    intro place member
    cases part with
    | common line =>
      exact Nat.le_trans (Nat.le_of_lt (indices.place_lt_next .none)) (ih place member)
    | conflict ours theirs =>
      rcases Nat.eq_zero_or_pos (ours.length + theirs.length) with blank | lines
      · obtain ⟨rfl, rfl⟩ : ours = [] ∧ theirs = [] := by simpa using blank
        exact ih place member
      rw [positions_conflict lines] at member
      rcases mem_cons.mp member with rfl | later
      · exact Nat.le_refl _
      have ours_ := indices.add_le_place_skip .new ours.length
      have theirs_ := (indices.skip .new ours.length).add_le_place_skip .old theirs.length
      have further := ih place later
      omega

theorem positions_increase (indices : Indices) (parts : List Part) :
    (positions indices parts).Pairwise (fun place later => place.place < later.place) := by
  induction parts generalizing indices with
  | nil => exact List.Pairwise.nil
  | cons part rest ih =>
    cases part with
    | common line => exact ih _
    | conflict ours theirs =>
      rcases Nat.eq_zero_or_pos (ours.length + theirs.length) with blank | lines
      · obtain ⟨rfl, rfl⟩ : ours = [] ∧ theirs = [] := by simpa using blank
        exact ih _
      rw [positions_conflict lines]
      refine List.Pairwise.cons (fun place later => ?_) (ih _)
      have ours_ := indices.add_le_place_skip .new ours.length
      have theirs_ := (indices.skip .new ours.length).add_le_place_skip .old theirs.length
      have further := place_le_of_mem_positions place later
      omega

theorem sectionIDs_nodup (indices : Indices) (parts : List Part) :
    ((positions indices parts).map (fun place => f.sectionID sha1 ⟨place, [], .none⟩)).Nodup := by
  refine List.Pairwise.map _ (fun place later before same => ?_) (positions_increase indices parts)
  obtain ⟨old, new⟩ := sectionID_inj sha1 f same
  dsimp only at old new
  dsimp only [Indices.place] at before
  omega

end sections

end Gitaly.Conflict
