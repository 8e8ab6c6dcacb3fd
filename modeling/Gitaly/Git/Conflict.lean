import Gitaly.Base.Numeral
import Gitaly.Base.Scanner
import Gitaly.Base.Text

/- Conflict files: a merged file with conflict markers is parsed into lines that
know their side, and resolved section by section. -/
namespace Gitaly.Conflict

open Scanning
open Text

inductive Section where
  | none
  | old
  | new
  | noNewline
deriving DecidableEq

def fileLimit : Nat := 200 * 2 ^ 10

/-- Where a line is in the object, in the old file and in the new file. -/
structure Indices where
  objIndex : Nat
  oldIndex : Nat
  newIndex : Nat
deriving DecidableEq

/-- After a line of the given section. -/
def Indices.next (indices : Indices) (currentSection : Section) : Indices where
  objIndex := indices.objIndex + 1
  oldIndex := if currentSection ≠ .new then indices.oldIndex + 1 else indices.oldIndex
  newIndex := if currentSection ≠ .old then indices.newIndex + 1 else indices.newIndex

structure Line extends Indices where
  payload : Bytes
  side : Section
deriving DecidableEq

structure Entry where
  path : Bytes
  contents : Bytes
deriving DecidableEq

structure File where
  path : Bytes
  lines : List Line
  ancestor : Option Entry
  our : Entry
  their : Entry
deriving DecidableEq

structure Resolution where
  sections : List (Bytes × Bytes)
  content : Bytes
deriving DecidableEq

inductive ResolveError where
  | missingResolution (sectionID : Bytes)
deriving DecidableEq

def head : Bytes := ascii "head"

def origin : Bytes := ascii "origin"

section resolve

variable (sha1 : Bytes → Bytes) (f : File)

/-- The format `%x_%d_%d`. -/
def File.sectionID (l : Line) : Bytes :=
  (sha1 f.path).flatMap (fun byte => Numeral.format 16 2 byte.toNat) ++ ascii "_" ++
    Numeral.format 10 1 l.oldIndex ++ ascii "_" ++ Numeral.format 10 1 l.newIndex

/-- The lines that are kept. There is no section ID outside of conflicts. -/
def File.resolveLines (sections : List (Bytes × Bytes)) :
    Bytes → List Line → Except ResolveError (List Bytes)
  | _, [] => .ok []
  | sectionID, l :: rest =>
    if l.side = .none then
      (resolveLines sections [] rest).map (fun resolvedLines => l.payload :: resolvedLines)
    else
      let sectionID := if sectionID = [] then f.sectionID sha1 l else sectionID
      match sections.lookup sectionID with
      | none => .error (.missingResolution sectionID)
      | some r =>
        if r = head then
          if l.side ≠ .new then resolveLines sections sectionID rest
          else (resolveLines sections sectionID rest).map (fun resolvedLines =>
            l.payload :: resolvedLines)
        else if r = origin then
          if l.side ≠ .old then resolveLines sections sectionID rest
          else (resolveLines sections sectionID rest).map (fun resolvedLines =>
            l.payload :: resolvedLines)
        else .error (.missingResolution sectionID)

def File.resolve (resolution : Resolution) : Except ResolveError Bytes :=
  if resolution.sections.isEmpty then .ok resolution.content
  else
    (f.resolveLines sha1 resolution.sections [] f.lines).map (fun resolvedLines =>
      if [newline] <:+ f.our.contents then join resolvedLines ++ [newline] else join resolvedLines)

end resolve

inductive ParseError where
  | unmergeableFile
  | unexpectedDelimiter
  | missingEndDelimiter
  | advanceTooFar
  | noProgress
deriving DecidableEq

def startMarker (ourPath : Bytes) : Bytes := ascii "<<<<<<< " ++ ourPath

def middleMarker : Bytes := ascii "======="

def endMarker (theirPath : Bytes) : Bytes := ascii ">>>>>>> " ++ theirPath

/-- Lines are cut at newlines, carriage returns are kept. -/
def split (bytesRead : Nat) (data : Bytes) (atEOF : Bool) :
    Except ParseError (Nat × Option Bytes) :=
  if fileLimit ≤ bytesRead then .error .unmergeableFile
  else if atEOF && data.isEmpty then .ok (0, none)
  else
    match data.idxOf? newline with
    | some i => .ok (i + 1, some (data.take i))
    | none => if atEOF then .ok (data.length, some data) else .ok (0, none)

structure Parsing extends Indices where
  currentSection : Section
  lines : List Line
deriving DecidableEq

namespace Parsing

def start : Parsing := ⟨⟨0, 1, 1⟩, .none, []⟩

/-- A delimiter is expected in one section and leads to another one. -/
def delimit (p : Parsing) (expected next : Section) : Except ParseError Parsing :=
  if p.currentSection ≠ expected then .error .unexpectedDelimiter
  else .ok { p with currentSection := next }

def push (p : Parsing) (l : Bytes) : Parsing :=
  if l.head? = some 92 then
    { p with currentSection := .noNewline, lines := p.lines ++ [⟨p.toIndices, l, .noNewline⟩] }
  else
    { p with
      toIndices := p.toIndices.next p.currentSection
      lines := p.lines ++ [⟨p.toIndices, l, p.currentSection⟩] }

def consume (our their : Entry) (p : Parsing) (l : Bytes) : Except ParseError Parsing :=
  if l = startMarker our.path then p.delimit .none .new
  else if l = middleMarker then p.delimit .new .old
  else if l = endMarker their.path then p.delimit .old .none
  else .ok (p.push l)

end Parsing

def newScanner (src : Reader UInt8) : Scanner UInt8 ParseError where
  split := split
  maxTokenSize := fileLimit
  reader := src
  size := 4096

/-- What is checked after the last line. -/
def finish (ancestor : Option Entry) (our their : Entry) (bytesRead : Nat) (p : Parsing) :
    Except ParseError File :=
  if p.currentSection = .old ∨ p.currentSection = .new then .error .missingEndDelimiter
  else if bytesRead = 0 then .error .unmergeableFile
  else .ok ⟨(ancestor.getD our).path, p.lines, ancestor, our, their⟩

def parse (src : Reader UInt8) (ancestor : Option Entry) (our their : Entry) :
    Option (Except ParseError File) :=
  (Scanner.run (Parsing.consume our their) .start (newScanner src)).map (fun outcome =>
    outcome.bind (fun (p, s) =>
      match s.error with
      | some .tooLong => .error .unmergeableFile
      | some (.split err) => .error err
      | some .advanceTooFar => .error .advanceTooFar
      | some .noProgress => .error .noProgress
      | none => finish ancestor our their s.consumed p))

/-- A part of a merged file: a line both sides have, or the lines of either side. -/
inductive Part where
  | common (line : Bytes)
  | conflict (ours theirs : List Bytes)
deriving DecidableEq

namespace Part

def isConflict : Part → Bool
  | .common _ => false
  | .conflict _ _ => true

/-- All lines of the part, of both sides. -/
def content : Part → List Bytes
  | .common line => [line]
  | .conflict ours theirs => ours ++ theirs

def ourLines : Part → List Bytes
  | .common line => [line]
  | .conflict ours _ => ours

def theirLines : Part → List Bytes
  | .common line => [line]
  | .conflict _ theirs => theirs

/-- What git writes for the part, line by line. -/
def rendered (ourPath theirPath : Bytes) : Part → List Bytes
  | .common line => [line]
  | .conflict ours theirs =>
    [startMarker ourPath] ++ ours ++ [middleMarker] ++ theirs ++ [endMarker theirPath]

end Part

def render (ourPath theirPath : Bytes) (parts : List Part) : Bytes :=
  unlines (parts.flatMap (Part.rendered ourPath theirPath))

/-- No conflict follows on another one. -/
def Apart (parts : List Part) : Prop :=
  parts.IsChain (fun part next => ¬ (part.isConflict = true ∧ next.isConflict = true))

/-- A merged file with conflicts: its lines are lines and none of them is a marker, conflicts
are apart, and it is not too large. -/
structure Merged (ourPath theirPath : Bytes) where
  parts : List Part
  plain : ∀ part ∈ parts, ∀ line ∈ part.content, newline ∉ line
  unmarked : ∀ part ∈ parts, ∀ line ∈ part.content,
    line ≠ startMarker ourPath ∧ line ≠ middleMarker ∧ line ≠ endMarker theirPath
  apart : Apart parts
  small : (render ourPath theirPath parts).length < fileLimit

inductive Choice where
  | head
  | origin
deriving DecidableEq

namespace Choice

def text : Choice → Bytes
  | .head => Conflict.head
  | .origin => Conflict.origin

def side : Choice → Section
  | .head => .new
  | .origin => .old

def pick {α : Type} : Choice → α → α → α
  | .head, ours, _ => ours
  | .origin, _, theirs => theirs

end Choice

/-- The merged file with a choice for every conflict that has lines, from the given number
on. -/
def resolved (choices : Nat → Choice) : Nat → List Part → List Bytes
  | _, [] => []
  | number, .common line :: rest => line :: resolved choices number rest
  | number, .conflict [] [] :: rest => resolved choices number rest
  | number, .conflict ours theirs :: rest =>
    (choices number).pick ours theirs ++ resolved choices (number + 1) rest

section ids

variable (sha1 : Bytes → Bytes) (f : File)

/-- The IDs that are asked for: of the first line of each stretch of lines in conflict. -/
def File.idsFrom : Bool → List Line → List Bytes
  | _, [] => []
  | inside, l :: rest =>
    if l.side = .none then idsFrom false rest
    else if inside then idsFrom true rest
    else f.sectionID sha1 l :: idsFrom true rest

def File.sectionIDs : List Bytes := f.idsFrom sha1 false f.lines

def File.choose (choices : Nat → Choice) : List (Bytes × Bytes) :=
  (f.sectionIDs sha1).mapIdx (fun number sectionID => (sectionID, (choices number).text))

end ids

/-- The file is parsed, its sections are told apart, and it is resolved by any choices into
what was chosen. -/
def RoundTrips (sha1 : Bytes → Bytes) (src : Reader UInt8) (ancestor : Option Entry)
    (our their : Entry) (parts : List Part) : Prop :=
  ∃ file, parse src ancestor our their = some (.ok file) ∧ (file.sectionIDs sha1).Nodup ∧
    ∀ (choices : Nat → Choice) (content : Bytes),
      file.resolve sha1 ⟨file.choose sha1 choices, content⟩ =
        .ok (unlines (resolved choices 0 parts))

/-- The entry of our side, with our lines. -/
def Merged.our {ourPath theirPath : Bytes} (merged : Merged ourPath theirPath) : Entry :=
  ⟨ourPath, unlines (merged.parts.flatMap Part.ourLines)⟩

/-- No line starts with a backslash and no path has a newline. There is a conflict with
lines, and a part with lines on both sides. -/
structure Resolvable (ourPath theirPath : Bytes) (parts : List Part) : Prop where
  unescaped : ∀ part ∈ parts, ∀ line ∈ part.content, line.head? ≠ some 92
  our : newline ∉ ourPath
  their : newline ∉ theirPath
  conflict : ∃ part ∈ parts, part.isConflict = true ∧ part.content ≠ []
  shared : ∃ part ∈ parts, part.ourLines ≠ [] ∧ part.theirLines ≠ []

end Gitaly.Conflict
