import Gitaly.Base.Numeral
import Gitaly.Base.Regexp

/- The parser of what git diff prints with raw lines and patches: the raw lines are read
first, then each of them is paired with the next patch if their paths are the same. -/
namespace Gitaly.DiffParser

open Text Regexp

structure Diff where
  binary : Bool := false
  overflowMarker : Bool := false
  collapsed : Bool := false
  tooLarge : Bool := false
  status : UInt8 := 0
  lineCount : Int := 0
  fromID : Bytes := []
  toID : Bytes := []
  oldMode : Int := 0
  newMode : Int := 0
  fromPath : Bytes := []
  toPath : Bytes := []
  patch : Bytes := []
deriving DecidableEq

structure Limits where
  enforceLimits : Bool
  collapseDiffs : Bool
  maxFiles : Int
  maxLines : Int
  maxBytes : Int
  safeMaxFiles : Int
  safeMaxLines : Int
  safeMaxBytes : Int
  maxPatchBytes : Int
deriving DecidableEq

def maxFilesUpperBound : Int := 5000
def maxLinesUpperBound : Int := 250000
def maxBytesUpperBound : Int := 5000 * 5120
def safeMaxFilesUpperBound : Int := 500
def safeMaxLinesUpperBound : Int := 25000
def safeMaxBytesUpperBound : Int := 500 * 5120
def maxPatchBytesUpperBound : Int := 512000

def Limits.enforceUpperBound (limit : Limits) : Limits :=
  { limit with
    maxFiles := min limit.maxFiles maxFilesUpperBound
    maxLines := min limit.maxLines maxLinesUpperBound
    maxBytes := min limit.maxBytes maxBytesUpperBound
    safeMaxFiles := min limit.safeMaxFiles safeMaxFilesUpperBound
    safeMaxLines := min limit.safeMaxLines safeMaxLinesUpperBound
    safeMaxBytes := min limit.safeMaxBytes safeMaxBytesUpperBound
    maxPatchBytes := min limit.maxPatchBytes maxPatchBytesUpperBound }

inductive ParseError where
  | rawLineRegexpMismatch
  | rawOldMode (mode : Bytes)
  | rawNewMode (mode : Bytes)
  | diffHeaderRegexpMismatch
deriving DecidableEq

/-- The reader is what is left of the output. A path that is nil is empty. -/
structure Parser where
  limits : Limits
  patchReader : Bytes
  rawLines : List Bytes
  currentDiff : Diff := {}
  nextPatchFromPath : Bytes := []
  filesProcessed : Int := 0
  linesProcessed : Int := 0
  bytesProcessed : Int := 0
  finished : Bool := false
  err : Option ParseError := none
deriving DecidableEq

variable (c : UInt8)

def digit : Bool := 48 ≤ c && c ≤ 57

def xdigit : Bool := digit c || (65 ≤ c && c ≤ 70) || (97 ≤ c && c ≤ 102)

def statusLetter : Bool := (ascii "ADTUXMRC").contains c

/-- The dot, which is any byte of a line. -/
def dot : Bool := c != newline

/-- The expression
`^:(\d+) (\d+) ([[:xdigit:]]{40}) ([[:xdigit:]]{40}) ([ADTUXMRC]\d*)\t(.*?)(?:\t(.*?))?$`. -/
def rawLineRegexp : Expr :=
  concat [literal (ascii ":"), .group 1 (plus digit), literal (ascii " "), .group 2 (plus digit),
    literal (ascii " "), .group 3 (times xdigit 40), literal (ascii " "),
    .group 4 (times xdigit 40), literal (ascii " "),
    .group 5 (.seq (.set statusLetter) (.star digit)), literal (ascii "\t"),
    .group 6 (.reluctant dot), .opt (.seq (literal (ascii "\t")) (.group 7 (.reluctant dot))),
    .lineEnd]

/-- The expression `^diff --git "?a/(.*?)"? "?b/(.*?)"?$`. -/
def diffHeaderRegexp : Expr :=
  concat [literal (ascii "diff --git "), .opt (literal (ascii "\"")), literal (ascii "a/"),
    .group 1 (.reluctant dot), .opt (literal (ascii "\"")), literal (ascii " "),
    .opt (literal (ascii "\"")), literal (ascii "b/"), .group 2 (.reluctant dot),
    .opt (literal (ascii "\"")), .lineEnd]

variable (s : Bytes)

def byteSliceHasAnyPrefix (prefixes : List Bytes) : Bool :=
  prefixes.any (fun first => first.isPrefixOf s)

def isNumber : Bool := s.all (fun c => (ascii "1234567890").contains c)

def unquoteBytes : Bytes :=
  if 2 ≤ s.length ∧ s.head? = some 34 ∧ s.getLast? = some 34 then s.tail.dropLast else s

/-- A backslash and the byte after it. -/
def unescapeByte : Bytes :=
  if (ascii "\"\\/'").contains c then [c]
  else if c = 98 then [8]
  else if c = 102 then [12]
  else if c = 110 then [10]
  else if c = 114 then [13]
  else if c = 116 then [9]
  else [92, c]

/-- Three octal digits of a byte. -/
def octalByte : Option UInt8 :=
  if isNumber s then
    ((Numeral.parseUint 8 s).filter (fun n => decide (n < 256))).map UInt8.ofNat
  else none

def unescape : Bytes → Bytes
  | [] => []
  | c :: s =>
    if c = 92 then
      match s with
      | first :: second :: third :: rest =>
        match octalByte [first, second, third] with
        | some byte => byte :: unescape rest
        | none => unescapeByte first ++ unescape (second :: third :: rest)
      | first :: rest => unescapeByte first ++ unescape rest
      | [] => [c]
    else c :: unescape s

/-- A conversion to 32 bits, which drops the others. -/
def int32 (n : Int) : Int := n.bmod (2 ^ 32)

def parseRawLine (line : Bytes) (diff : Diff) : Option ParseError × Diff :=
  match findSubmatch rawLineRegexp line with
  | none => (some .rawLineRegexpMismatch, diff)
  | some submatch =>
    match Numeral.parseInt64 8 (submatch 1) with
    | none => (some (.rawOldMode (submatch 1)), diff)
    | some old =>
      match Numeral.parseInt64 8 (submatch 2) with
      | none => (some (.rawNewMode (submatch 2)), { diff with oldMode := int32 old })
      | some new =>
        let status := (submatch 5).headD 0
        let fromPath := unescape (unquoteBytes (submatch 6))
        let toPath :=
          if status = 67 ∨ status = 82 then unescape (unquoteBytes (submatch 7))
          else fromPath
        (none, { diff with
          oldMode := int32 old
          newMode := int32 new
          fromID := submatch 3
          toID := submatch 4
          status := status
          fromPath := fromPath
          toPath := toPath })

/-- A line with its newline, if it has one, and what comes after it. -/
def readBytes : Bytes × Bytes :=
  match cutLine s with
  | some (line, rest) => (line ++ [newline], rest)
  | none => (s, [])

/-- Reads lines up to the first one that does not begin with a colon, which is dropped. -/
def cacheRawLines : Nat → Bytes → List Bytes × Bytes
  | 0, reader => ([], reader)
  | fuel + 1, reader =>
    match cutLine reader with
    | none => ([], [])
    | some (line, rest) =>
      if (ascii ":").isPrefixOf line then
        let (rawLines, reader) := cacheRawLines fuel rest
        ((line ++ [newline]) :: rawLines, reader)
      else ([], rest)

def newDiffParser (src : Bytes) (limits : Limits) : Parser :=
  let (rawLines, reader) := cacheRawLines (src.length + 1) src
  { limits := limits.enforceUpperBound, patchReader := reader, rawLines := rawLines }

def zeroOID : Bytes := List.replicate 40 48

/-- The verb `%o`. -/
def formatOctal (n : Int) : Bytes :=
  if n < 0 then 45 :: Numeral.format 8 1 n.natAbs else Numeral.format 8 1 n.toNat

namespace Parser

variable (parser : Parser)

def handleTypeChangeDiff : Parser :=
  let newRawLine :=
    ascii ":" ++ formatOctal 0 ++ ascii " " ++ formatOctal parser.currentDiff.newMode ++
      ascii " " ++ zeroOID ++ ascii " " ++ parser.currentDiff.toID ++ ascii " A\t" ++
      parser.currentDiff.fromPath ++ ascii "\n"
  { parser with
    currentDiff := { parser.currentDiff with newMode := 0, toID := zeroOID }
    rawLines := newRawLine :: parser.rawLines }

/-- A call that fails leaves its error in the parser. -/
def initializeCurrentDiff : Except Parser Parser :=
  match parseRawLine (parser.rawLines.headD []) {} with
  | (some err, diff) =>
    .error { parser with currentDiff := diff, rawLines := parser.rawLines.tail, err := some err }
  | (none, diff) =>
    let parser := { parser with currentDiff := diff, rawLines := parser.rawLines.tail }
    let parser := if diff.status = 84 then parser.handleTypeChangeDiff else parser
    .ok { parser with filesProcessed := parser.filesProcessed + 1 }

def findNextPatchFromPath : Except Parser Parser :=
  if parser.nextPatchFromPath ≠ [] then .ok parser
  else
    match cutLine parser.patchReader with
    | none => .ok { parser with patchReader := [] }
    | some (line, rest) =>
      match findSubmatch diffHeaderRegexp (line ++ [newline]) with
      | some submatch =>
        .ok { parser with patchReader := rest, nextPatchFromPath := unescape (submatch 1) }
      | none => .error { parser with patchReader := rest, err := some .diffHeaderRegexpMismatch }

def consumeChunkLine (updateLineStats : Bool) : Parser :=
  let (line, rest) := readBytes parser.patchReader
  let parser :=
    { parser with
      patchReader := rest
      currentDiff := { parser.currentDiff with patch := parser.currentDiff.patch ++ line } }
  if updateLineStats then
    { parser with
      bytesProcessed := parser.bytesProcessed + line.length
      currentDiff := { parser.currentDiff with lineCount := parser.currentDiff.lineCount + 1 }
      linesProcessed := parser.linesProcessed + 1 }
  else parser

def consumeLine (updateStats : Bool) : Parser :=
  let (line, rest) := readBytes parser.patchReader
  let parser := { parser with patchReader := rest }
  if updateStats then
    { parser with
      currentDiff := { parser.currentDiff with lineCount := parser.currentDiff.lineCount + 1 }
      linesProcessed := parser.linesProcessed + 1
      bytesProcessed := parser.bytesProcessed + line.length }
  else parser

def isParsingChunkLines : Bool := !parser.currentDiff.patch.isEmpty

/-- Consumes a line of the current patch of which these are the first bytes. -/
def consume (line : Bytes) : Parser :=
  if (ascii "@@").isPrefixOf line then parser.consumeChunkLine false
  else if byteSliceHasAnyPrefix line [ascii "---", ascii "+++"] && !parser.isParsingChunkLines then
    parser.consumeLine false
  else if (ascii "~\n").isPrefixOf line then parser.consumeChunkLine true
  else if (ascii "Binary").isPrefixOf line then
    { parser with
      currentDiff := { parser.currentDiff with binary := true } }.consumeChunkLine true
  else if byteSliceHasAnyPrefix line [ascii "-", ascii "+", ascii " ", ascii "\\"] then
    parser.consumeChunkLine true
  else parser.consumeLine false

/-- Consumes lines up to the header of the next patch. To peek at fewer than ten bytes is to
have seen the end. -/
def consumePatch : Nat → Bool → Parser → Except Parser Parser
  | 0, _, parser => .ok parser
  | fuel + 1, currentPatchDone, parser =>
    if currentPatchDone ∧ parser.patchReader = [] then .ok parser
    else
      let line := parser.patchReader.take 10
      if (ascii "diff --git").isPrefixOf line then .ok parser
      else
        let parser := parser.consume line
        if parser.err.isSome then .error parser
        else consumePatch fuel (currentPatchDone || decide (line.length < 10)) parser

def isOverSafeLimits : Prop :=
  parser.filesProcessed > parser.limits.safeMaxFiles ∨
    parser.linesProcessed > parser.limits.safeMaxLines ∨
    parser.bytesProcessed > parser.limits.safeMaxBytes

instance (parser : Parser) : Decidable parser.isOverSafeLimits :=
  inferInstanceAs (Decidable (_ ∨ _ ∨ _))

def prunePatch : Parser :=
  { parser with
    linesProcessed := parser.linesProcessed - parser.currentDiff.lineCount
    bytesProcessed := parser.bytesProcessed - parser.currentDiff.patch.length
    currentDiff := { parser.currentDiff with patch := [] } }

def collapse : Parser :=
  if parser.limits.collapseDiffs ∧ parser.isOverSafeLimits ∧ parser.currentDiff.lineCount > 0 then
    let parser := parser.prunePatch
    { parser with currentDiff := { parser.currentDiff with collapsed := true } }
  else parser

def enforce : Parser :=
  if parser.limits.enforceLimits then
    let parser :=
      if (parser.currentDiff.patch.length : Int) ≥ parser.limits.maxPatchBytes then
        let parser := parser.prunePatch
        { parser with currentDiff := { parser.currentDiff with tooLarge := true } }
      else parser
    if parser.filesProcessed > parser.limits.maxFiles ∨
        parser.bytesProcessed ≥ parser.limits.maxBytes ∨
        parser.linesProcessed ≥ parser.limits.maxLines then
      { parser with finished := true, currentDiff := { overflowMarker := true } }
    else parser
  else parser

/-- The patch at the reader is that of the current diff if their paths are the same. -/
def readPatch : Except Parser Parser :=
  if parser.nextPatchFromPath ≠ parser.currentDiff.fromPath then .ok parser
  else
    match consumePatch (parser.patchReader.length + 2) false
        { parser with nextPatchFromPath := [] } with
    | .error parser => .error parser
    | .ok parser => .ok parser.collapse.enforce

def parse : Bool × Parser :=
  if parser.finished ∨ parser.rawLines = [] then (false, { parser with patchReader := [] })
  else
    match parser.initializeCurrentDiff >>= findNextPatchFromPath >>= readPatch with
    | .error parser => (false, parser)
    | .ok parser => (true, parser)

/-- The diffs of repeated calls, until one returns false, and the parser after it. -/
def parseAll : Nat → Parser → List Diff × Parser
  | 0, parser => ([], parser)
  | fuel + 1, parser =>
    match parser.parse with
    | (false, parser) => ([], parser)
    | (true, parser) =>
      let (diffs, last) := parseAll fuel parser
      (parser.currentDiff :: diffs, last)

end Parser

/-- A raw line is parsed once, or twice if it is a type change, and the last call returns
false. -/
def parseDiffs (src : Bytes) (limits : Limits) : List Diff × Parser :=
  let parser := newDiffParser src limits
  parser.parseAll (2 * parser.rawLines.length + 1)

end Gitaly.DiffParser
