import Gitaly.Base.Runs

/- The goroutines of internal/praefect/grpc-proxy/proxy/handler.go for one call: one forwards the
client's frames into a channel per destination, one per destination sends what is in its channel,
one per destination receives from it, and the handler itself waits for them. -/
namespace Gitaly.Praefect.Proxy

abbrev Frame := List UInt8

/-- The capacity of a channel. -/
def capacity : Nat := 16

inductive Stream where
  | «open»
  /-- The destination has returned without an error. -/
  | ended
  | failed
  | cancelled
  deriving DecidableEq

/-- `forwardFramesToServer` of a destination. -/
inductive Consumer where
  | running
  | returned (err : Bool)
  deriving DecidableEq

/-- How a goroutine that receives from a destination has ended; the error handler may return
nil. -/
inductive Received where
  | eof
  | tolerated
  | error
  deriving DecidableEq

/-- `sent` are the frames that `SendMsg` has taken. -/
structure Destination where
  msg : Frame
  errHandler : Bool
  channel : List Frame
  sent : List Frame
  consumer : Consumer
  stream : Stream
  receiver : Option Received
  deriving DecidableEq

/-- `forwardClientToServers`; a frame is pushed to one destination after the other. -/
inductive Forwarder where
  | receiving
  | pushing (f : Frame) (next : Nat)
  /-- The channels are closed. -/
  | waiting (err : Bool)
  | finished (err : Bool)
  deriving DecidableEq

def Forwarder.closed : Forwarder → Bool
  | .waiting _ | .finished _ => true
  | .receiving | .pushing _ _ => false

/-- What the handler has received from its goroutines. -/
structure Handler where
  clientErr : Option Bool
  primaryErr : Option Received
  secondariesProxied : Bool
  returned : Bool
  deriving DecidableEq

/-- `incoming` are the frames the client has still to send, `received` those the forwarder has
got; `broken` if the client's stream has failed. The primary is the last destination. -/
structure World where
  incoming : List Frame
  received : List Frame
  broken : Bool
  forwarder : Forwarder
  destinations : List Destination
  handler : Handler

inductive Event where
  | clientFails
  | receive
  | receiveEOF
  | receiveErr
  | push
  | wait
  | send (destination : Nat)
  /-- `SendMsg` returns `io.EOF`. -/
  | sendEOF (destination : Nat)
  | sendErr (destination : Nat)
  | drain (destination : Nat)
  | endStream (destination : Nat) (ok : Bool)
  | receiveFrom (destination : Nat)
  | clientErr
  | primaryErr
  | secondaryErr
  | handlerReturns

namespace Destination

/-- A new destination has its own first message in the channel. -/
def new (msg : Frame) (errHandler : Bool) : Destination :=
  ⟨msg, errHandler, [msg], [], .running, .open, none⟩

def cancel (d : Destination) : Destination :=
  if d.stream = .open then { d with stream := .cancelled } else d

/-- The error of a stream that has not ended well. -/
def outcome (d : Destination) : Received := if d.errHandler then .tolerated else .error

end Destination

namespace World

/-- Every destination has its first message and whether its error handler tolerates errors. -/
def start (frames : List Frame) (destinations : List (Frame × Bool)) : World where
  incoming := frames
  received := []
  broken := false
  forwarder := .receiving
  destinations := destinations.map (fun d => .new d.1 d.2)
  handler := ⟨none, none, false, false⟩

variable (w : World)

def put (destination : Nat) (d : Destination) : World :=
  { w with destinations := w.destinations.set destination d }

def cancelStreams : World := { w with destinations := w.destinations.map Destination.cancel }

def step : Event → Option World
  | .clientFails => some { w with broken := true }
  | .receive =>
    match w.forwarder, w.incoming with
    | .receiving, f :: rest =>
      if w.broken then none
      else some { w with
        incoming := rest
        received := w.received ++ [f]
        forwarder := .pushing f 0 }
    | _, _ => none
  | .receiveEOF =>
    match w.forwarder, w.incoming with
    | .receiving, [] => if w.broken then none else some { w with forwarder := .waiting false }
    | _, _ => none
  | .receiveErr =>
    match w.forwarder with
    | .receiving => if w.broken then some { w with forwarder := .waiting true } else none
    | _ => none
  | .push =>
    match w.forwarder with
    | .pushing f next =>
      match w.destinations[next]? with
      | none => some { w with forwarder := .receiving }
      | some d =>
        if d.channel.length < capacity then
          some ({ w with forwarder := .pushing f (next + 1) }.put next
            { d with channel := d.channel ++ [f] })
        else none
    | _ => none
  | .wait =>
    match w.forwarder with
    | .waiting err =>
      if w.destinations.all (fun d => d.consumer ≠ .running) then
        some { w with
          forwarder := .finished
            (err || w.destinations.any (fun d => d.consumer = .returned true)) }
      else none
    | _ => none
  | .send destination =>
    (w.destinations[destination]?).bind (fun d =>
      match d.consumer, d.channel with
      | .running, f :: rest =>
        some (w.put destination { d with channel := rest, sent := d.sent ++ [f] })
      | _, _ => none)
  | .sendEOF destination =>
    (w.destinations[destination]?).bind (fun d =>
      match d.consumer, d.channel with
      | .running, _ :: rest =>
        if d.stream = .open then none
        else some (w.put destination { d with channel := rest, consumer := .returned false })
      | _, _ => none)
  | .sendErr destination =>
    (w.destinations[destination]?).bind (fun d =>
      match d.consumer, d.channel with
      | .running, _ :: rest =>
        some (w.put destination
          { d with channel := rest, consumer := .returned true, stream := .failed })
      | _, _ => none)
  | .drain destination =>
    (w.destinations[destination]?).bind (fun d =>
      match d.consumer, d.channel with
      | .running, [] =>
        if w.forwarder.closed then
          some (w.put destination { d with consumer := .returned false })
        else none
      | _, _ => none)
  | .endStream destination ok =>
    (w.destinations[destination]?).bind (fun d =>
      if d.stream = .open then
        some (w.put destination { d with stream := if ok then .ended else .failed })
      else none)
  | .receiveFrom destination =>
    (w.destinations[destination]?).bind (fun d =>
      if d.receiver.isSome then none
      else
        match d.stream with
        | .open =>
          -- the primary's frames cannot be passed on to the client
          if w.broken ∧ destination + 1 = w.destinations.length then
            some (w.put destination { d with receiver := some d.outcome })
          else none
        | .ended => some (w.put destination { d with receiver := some .eof })
        | .failed | .cancelled => some (w.put destination { d with receiver := some d.outcome }))
  | .clientErr =>
    match w.forwarder, w.handler.clientErr with
    | .finished err, none =>
      let next := { w with handler := { w.handler with clientErr := some err } }
      some (if err then next.cancelStreams else next)
    | _, _ => none
  | .primaryErr =>
    match w.destinations.getLast?.bind (·.receiver), w.handler.primaryErr with
    | some err, none =>
      let next := { w with handler := { w.handler with primaryErr := some err } }
      some (if err = .eof then next else next.cancelStreams)
    | _, _ => none
  | .secondaryErr =>
    if w.destinations.dropLast.all (fun d => d.receiver.isSome) then
      some { w with handler := { w.handler with secondariesProxied := true } }
    else none
  | .handlerReturns =>
    if w.handler.primaryErr.isSome && w.handler.secondariesProxied then
      some ({ w with
        broken := true
        handler := { w.handler with returned := true } }.cancelStreams)
    else none

/-- The forwarder waits for a place in the channel of a destination that takes no more frames, and
does so in all states to come. -/
def BlockedForever : Prop :=
  ∃ f next d, w.forwarder = .pushing f next ∧ w.destinations[next]? = some d ∧
    d.consumer ≠ .running ∧
    ∀ later, Runs.Reaches step w later → later.forwarder = .pushing f next

/-- No goroutine between the client and the destinations can go on. -/
def Quiet : Prop :=
  w.step .receive = none ∧ w.step .receiveEOF = none ∧ w.step .receiveErr = none ∧
    w.step .push = none ∧ ∀ destination, w.step (.send destination) = none

/-- The destinations that have not failed get every frame of the client. -/
structure Delivers (w : World) : Prop where
  unblocked : ¬ w.BlockedForever
  delivered : w.Quiet → (w.broken = false → w.incoming = []) ∧
    ∀ d ∈ w.destinations, d.stream = .open → d.sent = d.msg :: w.received

/-- The frame the forwarder has still to push to a destination. -/
def inflight (destination : Nat) : List Frame :=
  match w.forwarder with
  | .pushing f next => if next ≤ destination then [f] else []
  | _ => []

/-- The number of frames that are still to be pushed to a destination. -/
def toCome (destination : Nat) : Nat :=
  (w.inflight destination).length + if w.forwarder.closed then 0 else w.incoming.length

/-- When a destination's consumer returns early, the rest fits into the channel. -/
def Fits : Event → Prop
  | .sendEOF destination | .sendErr destination => ∀ d ∈ w.destinations[destination]?,
      d.channel.tail.length + w.toCome destination ≤ capacity
  | _ => True

instance (w : World) (event : Event) : Decidable (w.Fits event) := by
  cases event <;> simp only [Fits] <;> infer_instance

end World

end Gitaly.Praefect.Proxy
