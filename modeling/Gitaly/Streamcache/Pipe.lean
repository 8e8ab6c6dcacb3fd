import Gitaly.Base.Runs
import Mathlib.Algebra.Group.Nat.Defs

/- The pipe of internal/streamcache: pipe.go, pipe_linux.go and cursor.go. One writer appends to a
file that any number of readers read, each from its start and at its own pace. A step is one
access to a cursor, to a notifier's channel or to the file, or one section under the pipe's
lock. -/
namespace Gitaly.Streamcache

/-- A subscriber is named by a number; `notified` are those with a notification in their
channel. -/
structure Cursor where
  pos : Nat
  subscribers : List Nat
  notified : List Nat
  done : Bool
  deriving DecidableEq

namespace Cursor

def newCursor : Cursor := ⟨0, [], [], false⟩

def Subscribe (c : Cursor) (n : Nat) : Cursor := { c with subscribers := c.subscribers ++ [n] }

def Unsubscribe (c : Cursor) (n : Nat) : Cursor :=
  let subscribers := c.subscribers.erase n
  { c with subscribers := subscribers, done := c.done || subscribers.isEmpty }

def SetPosition (c : Cursor) (pos : Nat) : Cursor :=
  if pos ≤ c.pos then c
  else { c with
    pos := pos
    notified := c.notified ++ c.subscribers.filter (fun n => n ∉ c.notified) }

/-- The notification is taken out of the channel. -/
def receive (c : Cursor) (n : Nat) : Option Cursor :=
  if n ∈ c.notified then some { c with notified := c.notified.erase n } else none

end Cursor

inductive Error where
  /-- streamcache.pipe: all readers closed before writer finished -/
  | errWrongCloseOrder
  /-- streamcache.pipe: writer already closed -/
  | errWriterAlreadyClosed
  | eof
  | errClosed
  | eagain
  | eintr
  | os
  deriving DecidableEq

/-- Where a call of `Write` is. -/
inductive WriteStage where
  | idle
  | checking (b : List UInt8)
  | waiting (b : List UInt8)
  /-- `n` bytes are in the file. -/
  | writing (rest : List UInt8) (n : Nat)
  | setting (n : Nat) (err : Option Error)
  deriving DecidableEq

/-- `Read` with a buffer of a length, `WriteTo` with sendfile from a position on, or the `io.Copy`
that `WriteTo` falls back to. -/
inductive Mode where
  | read (len : Nat)
  | sendfile (start : Nat)
  | copy
  deriving DecidableEq

/-- Where a call of `Read` or `WriteTo` is. -/
inductive ReadStage where
  | idle
  | checking (mode : Mode)
  | waiting (mode : Mode)
  /-- The loop of `waitReadable` is left. -/
  | waited (mode : Mode)
  | advancing (mode : Mode) (n : Nat) (err : Option Error)
  deriving DecidableEq

/-- `received` is what was read from the file, `atEOF` whether `Read` has returned `io.EOF` or
`WriteTo` has come to the end; `closed` is set by `closeReader`. -/
structure PipeReader where
  position : Nat
  received : List UInt8
  atEOF : Bool
  closed : Bool
  fileClosed : Bool
  stage : ReadStage
  deriving DecidableEq

/-- `closes` are the results of the writer's `Close`. -/
structure Pipe where
  file : List UInt8
  fileClosed : Bool
  wcursor : Cursor
  rcursor : Cursor
  stage : WriteStage
  closes : List (Option Error)
  readers : List PipeReader

inductive Event where
  | write (b : List UInt8)
  | checkWrite
  | writerDone
  | writerNotified
  | append (n : Nat)
  | written (err : Option Error)
  | setPosition
  | close (errClose : Option Error)
  | openReader (fails : Bool)
  | closeReader (reader : Nat)
  | closeFile (reader : Nat)
  | read (reader : Nat) (len : Nat)
  | writeTo (reader : Nat) (rawconn : Bool)
  | checkRead (reader : Nat)
  | readerDone (reader : Nat)
  | readerNotified (reader : Nat)
  | readFile (reader : Nat) (n : Nat) (fails : Bool)
  | sendfile (reader : Nat) (n : Nat) (err : Option Error)
  /-- `again` if the destination is still good to write to. -/
  | advance (reader : Nat) (again : Bool)

/-- The buffer of `io.Copy`. -/
def copyBuffer : Nat := 32 * 1024

def maxBytes : Nat := 4 * 2 ^ 20

/-- `os.File.Read` at an offset: at most `n` bytes, but one unless there is none or it fails. -/
def fileRead (file : List UInt8) (offset len n : Nat) (closed fails : Bool) : Nat × Option Error :=
  if closed then (0, some .errClosed)
  else if len = 0 then (0, none)
  else if file.length ≤ offset then (0, some .eof)
  else if fails then (0, some .os)
  else (min (max n 1) (min len (file.length - offset)), none)

def Mode.len : Mode → Nat
  | .read len => len
  | .copy => copyBuffer
  | .sendfile _ => maxBytes

namespace PipeReader

/-- `n` bytes of the file are read. -/
def take (pr : PipeReader) (file : List UInt8) (mode : Mode) (n : Nat) (err : Option Error) :
    PipeReader :=
  { pr with
    received := pr.received ++ (file.drop pr.received.length).take n
    stage := .advancing mode n err }

/-- What follows after the position was advanced. -/
def proceed (pr : PipeReader) (mode : Mode) (err : Option Error) (again : Bool) : PipeReader :=
  match mode with
  | .read _ => { pr with atEOF := pr.atEOF || err = some .eof, stage := .idle }
  | .copy =>
    if err = some .eof then { pr with atEOF := true, stage := .idle }
    else if err = none ∧ again then { pr with stage := .checking .copy }
    else { pr with stage := .idle }
  | .sendfile start =>
    -- EINTR is retried at once and EAGAIN when the destination can be written to
    if err = none ∨ err = some .eintr ∨ err = some .eagain ∧ again then
      { pr with stage := .checking (.sendfile start) }
    else if start < pr.position then { pr with stage := .idle }
    else { pr with stage := .checking .copy }

end PipeReader

namespace Pipe

def newReader : PipeReader := ⟨0, [], false, false, false, .idle⟩

/-- The writer is subscriber 0 of `rcursor`, a reader is its own number at `wcursor`. -/
def newPipe : Pipe where
  file := []
  fileClosed := false
  wcursor := Cursor.newCursor.Subscribe 0
  rcursor := Cursor.newCursor.Subscribe 0
  stage := .idle
  closes := []
  readers := [newReader]

def Close (p : Pipe) (errClose : Option Error) : Pipe × Option Error :=
  if p.rcursor.done then ({ p with fileClosed := true }, some .errWriterAlreadyClosed)
  else if p.wcursor.done then ({ p with fileClosed := true }, some .errWrongCloseOrder)
  else ({ p with fileClosed := true, rcursor := p.rcursor.Unsubscribe 0 }, errClose)

def OpenReader (p : Pipe) (fails : Bool) : Pipe × Option Error :=
  if p.wcursor.done && !p.rcursor.done then (p, some .errWrongCloseOrder)
  else if fails then (p, some .os)
  else ({ p with
    wcursor := p.wcursor.Subscribe p.readers.length
    readers := p.readers ++ [newReader] }, none)

def put (p : Pipe) (reader : Nat) (pr : PipeReader) : Pipe :=
  { p with readers := p.readers.set reader pr }

def step (p : Pipe) : Event → Option Pipe
  | .write b => if p.stage = .idle then some { p with stage := .checking b } else none
  | .checkWrite =>
    match p.stage with
    | .checking b =>
      if p.rcursor.pos < p.wcursor.pos then some { p with stage := .waiting b }
      else some { p with stage := .writing b 0 }
    | _ => none
  | .writerDone =>
    match p.stage with
    -- returns errWrongCloseOrder
    | .waiting _ => if p.wcursor.done then some { p with stage := .idle } else none
    | _ => none
  | .writerNotified =>
    match p.stage with
    | .waiting b =>
      (p.rcursor.receive 0).map (fun rcursor =>
        { p with rcursor := rcursor, stage := .checking b })
    | _ => none
  | .append n =>
    match p.stage with
    | .writing rest count =>
      if p.fileClosed then none
      else some { p with
        file := p.file ++ rest.take n
        stage := .writing (rest.drop n) (count + (rest.take n).length) }
    | _ => none
  | .written err =>
    match p.stage with
    | .writing _ count => some { p with stage := .setting count err }
    | _ => none
  | .setPosition =>
    match p.stage with
    | .setting n _ =>
      some { p with wcursor := p.wcursor.SetPosition (p.wcursor.pos + n), stage := .idle }
    | _ => none
  | .close errClose =>
    if p.stage = .idle then
      let (next, result) := p.Close errClose
      some { next with closes := next.closes ++ [result] }
    else none
  | .openReader fails => some (p.OpenReader fails).1
  | .closeReader reader =>
    (p.readers[reader]?).map (fun pr =>
      { p with wcursor := p.wcursor.Unsubscribe reader }.put reader { pr with closed := true })
  | .closeFile reader =>
    (p.readers[reader]?).bind (fun pr =>
      if pr.closed then some (p.put reader { pr with fileClosed := true }) else none)
  | .read reader len =>
    (p.readers[reader]?).bind (fun pr =>
      if pr.stage = .idle then some (p.put reader { pr with stage := .checking (.read len) })
      else none)
  | .writeTo reader rawconn =>
    (p.readers[reader]?).bind (fun pr =>
      if pr.stage = .idle then
        some (p.put reader { pr with
          stage := .checking (if rawconn then .sendfile pr.position else .copy) })
      else none)
  | .checkRead reader =>
    (p.readers[reader]?).bind (fun pr =>
      match pr.stage with
      | .checking mode =>
        if p.wcursor.pos ≤ pr.position then
          some (p.put reader { pr with stage := .waiting mode })
        else some (p.put reader { pr with stage := .waited mode })
      | _ => none)
  | .readerDone reader =>
    (p.readers[reader]?).bind (fun pr =>
      match pr.stage with
      | .waiting mode =>
        if p.rcursor.done then some (p.put reader { pr with stage := .waited mode }) else none
      | _ => none)
  | .readerNotified reader =>
    (p.readers[reader]?).bind (fun pr =>
      match pr.stage with
      | .waiting mode =>
        (p.wcursor.receive reader).map (fun wcursor =>
          { p with wcursor := wcursor }.put reader { pr with stage := .checking mode })
      | _ => none)
  | .readFile reader n fails =>
    (p.readers[reader]?).bind (fun pr =>
      match pr.stage with
      | .waited (.sendfile _) => none
      | .waited mode =>
        let (n, err) := fileRead p.file pr.received.length mode.len n pr.fileClosed fails
        some (p.put reader (pr.take p.file mode n err))
      | _ => none)
  | .sendfile reader n err =>
    (p.readers[reader]?).bind (fun pr =>
      match pr.stage with
      | .waited (.sendfile start) =>
        if pr.position < p.wcursor.pos then
          let n := min n (min maxBytes (p.file.length - pr.received.length))
          some (p.put reader (pr.take p.file (.sendfile start) n err))
        else some (p.put reader { pr with atEOF := true, stage := .idle })
      | _ => none)
  | .advance reader again =>
    (p.readers[reader]?).bind (fun pr =>
      match pr.stage with
      | .advancing mode n err =>
        let position := pr.position + n
        some ({ p with rcursor := p.rcursor.SetPosition position }.put reader
          ({ pr with position := position }.proceed mode err again))
      | _ => none)

end Pipe

end Gitaly.Streamcache
