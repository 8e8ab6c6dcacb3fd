import Gitaly.Base.Numeral
import Gitaly.Base.Runs
import Gitaly.Base.Scanner
import Gitaly.Base.Text

/- The pkt-line format: packets behind a length of four hexadecimal digits, and
byte streams multiplexed into such packets. -/
namespace Gitaly.Pktline

open Scanning List Numeral
open Text (ascii Bytes)

def maxPktSize : Nat := 65520

def maxSidebandData : Nat := maxPktSize - 5

def pktDelim : Bytes := ascii "0001"

def pktFlush : Bytes := ascii "0000"

/-- The packet without its length. -/
def dataOf (pkt : Bytes) : Bytes := pkt.drop 4

def isFlush (pkt : Bytes) : Bool := pkt == pktFlush

structure StringTooLarge where
  length : Nat
deriving DecidableEq

/-- The format `%04x`. -/
def lengthPrefix (pktLen : Nat) : Bytes := Numeral.format 16 4 pktLen

def writeString (str : Bytes) : Except StringTooLarge Bytes :=
  let pktLen := str.length + 4
  if maxPktSize < pktLen then .error ⟨str.length⟩
  else .ok (lengthPrefix pktLen ++ str)

inductive SplitError where
  | incompleteLengthPrefix (data : Bytes)
  | decodeLength (digits : Bytes)
  | invalidLength (pktLength : Int)
  | unexpectedEOF
deriving DecidableEq

def pktLineSplitter (data : Bytes) (atEOF : Bool) : Except SplitError (Nat × Option Bytes) :=
  if data.length < 4 then
    if atEOF && decide (0 < data.length) then .error (.incompleteLengthPrefix data)
    else .ok (0, none)
  else
    match Numeral.parseInt 16 (data.take 4) with
    | none => .error (.decodeLength (data.take 4))
    | some pktLength =>
      if pktLength < 0 then .error (.invalidLength pktLength)
      -- the magic packets 0000 to 0003 have no data
      else if pktLength < 4 then .ok (4, some (data.take 4))
      else if data.length < pktLength.toNat then
        if atEOF then .error .unexpectedEOF else .ok (0, none)
      else .ok (pktLength.toNat, some (data.take pktLength.toNat))

def newScanner (reader : Reader UInt8) : Scanner UInt8 SplitError where
  split := fun _ => pktLineSplitter
  maxTokenSize := maxPktSize
  reader := reader
  size := maxPktSize

def collect (pkts : List Bytes) (pkt : Bytes) : Except Empty (List Bytes) := .ok (pkts ++ [pkt])

/-- All packets as they are scanned, and the error the scanner has in the end. -/
def scan (reader : Reader UInt8) : Option (List Bytes × Option (ScanError SplitError)) :=
  match Scanner.run collect [] (newScanner reader) with
  | some (.ok (pkts, s)) => some (pkts, s.error)
  | _ => none

inductive Packet where
  | data (str : Bytes)
  | flush
  | delim
deriving DecidableEq

namespace Packet

def Fits : Packet → Prop
  | .data str => str.length ≤ 65516
  | .flush | .delim => True

def write : Packet → Except StringTooLarge Bytes
  | .data str => writeString str
  | .flush => .ok pktFlush
  | .delim => .ok pktDelim

/-- How a scanned packet is told from the others. -/
def ofBytes (pkt : Bytes) : Packet :=
  if isFlush pkt then .flush else if pkt = pktDelim then .delim else .data (dataOf pkt)

end Packet

/-- The packets are written one after the other, until a write fails. -/
def writeAll : List Packet → Except StringTooLarge Bytes
  | [] => .ok []
  | packet :: rest => packet.write.bind (fun pkt => (writeAll rest).map (fun later => pkt ++ later))

/-- A call of writeBand that holds the lock: what it has still to write, what it has
written, and the size of the chunk whose header has been written. -/
structure Write where
  band : UInt8
  data : Bytes
  n : Nat
  chunk : Option Nat
deriving DecidableEq

/-- The calls are listed as they get the lock, and their results as they release it. -/
structure SidebandWriter where
  w : Bytes
  m : Option Write
  calls : List (UInt8 × Bytes)
  returned : List Nat
deriving DecidableEq

namespace SidebandWriter

def newSidebandWriter : SidebandWriter := ⟨[], none, [], []⟩

def sidebandHeader (band : UInt8) (chunkSize : Nat) : Bytes :=
  lengthPrefix (chunkSize + 5) ++ [band]

inductive Event where
  | lock (band : UInt8) (data : Bytes)
  | header
  | chunk
  | unlock

def step (sw : SidebandWriter) : Event → Option SidebandWriter
  | .lock band data =>
    match sw.m with
    | none =>
      some { sw with m := some ⟨band, data, 0, none⟩, calls := sw.calls ++ [(band, data)] }
    | some _ => none
  | .header =>
    match sw.m with
    | some ⟨band, data, n, none⟩ =>
      if data.isEmpty then none
      else
        let chunkSize := if maxSidebandData < data.length then maxSidebandData else data.length
        some { sw with
          w := sw.w ++ sidebandHeader band chunkSize
          m := some ⟨band, data, n, some chunkSize⟩ }
    | _ => none
  | .chunk =>
    match sw.m with
    | some ⟨band, data, n, some chunkSize⟩ =>
      some { sw with
        w := sw.w ++ data.take chunkSize
        m := some ⟨band, data.drop chunkSize, n + chunkSize, none⟩ }
    | _ => none
  | .unlock =>
    match sw.m with
    | some ⟨_, [], n, none⟩ => some { sw with m := none, returned := sw.returned ++ [n] }
    | _ => none

end SidebandWriter

inductive SidebandError (δ : Type) where
  | notSideband (pkt : Bytes)
  | fn (err : δ)
  | scan (err : ScanError SplitError)
deriving DecidableEq

/-- The function is given the band and the data of every packet. -/
def sidebandBody {τ δ : Type} (fn : τ → UInt8 → Bytes → Except δ τ) (state : τ) (pkt : Bytes) :
    Except (SidebandError δ) τ :=
  match dataOf pkt with
  | [] => .error (.notSideband pkt)
  | band :: data => (fn state band data).mapError .fn

def eachSidebandPacket {τ δ : Type} (fn : τ → UInt8 → Bytes → Except δ τ) (state : τ)
    (reader : Reader UInt8) : Option (Except (SidebandError δ) τ) :=
  (Scanner.run (sidebandBody fn) state (newScanner reader)).map (fun outcome =>
    outcome.bind (fun (later, s) =>
      match s.error with
      | some err => .error (.scan err)
      | none => .ok later))

/-- A packet as the splitter takes it: its first four bytes are its length, or the number
of a magic packet. -/
structure Framed (pkt : Bytes) (n : Nat) : Prop where
  parses : Numeral.parseInt 16 (pkt.take 4) = some (Int.ofNat n)
  length : pkt.length = max n 4
  bound : pkt.length ≤ maxPktSize

theorem pktLineSplitter_short {data : Bytes} (short : data.length < 4) :
    pktLineSplitter data false = .ok (0, none) := by
  simp [pktLineSplitter, short]

theorem pktLineSplitter_parses {data : Bytes} {n : Nat} (long : 4 ≤ data.length)
    (parses : Numeral.parseInt 16 (data.take 4) = some (Int.ofNat n)) (atEOF : Bool) :
    pktLineSplitter data atEOF =
      if n < 4 then .ok (4, some (data.take 4))
      else if data.length < n then if atEOF then .error .unexpectedEOF else .ok (0, none)
      else .ok (n, some (data.take n)) := by
  have nonneg : ¬ Int.ofNat n < 0 := Int.not_lt.mpr (Int.natCast_nonneg n)
  have magic : Int.ofNat n < 4 ↔ n < 4 := Int.ofNat_lt
  simp only [pktLineSplitter, Nat.not_lt.mpr long, if_false, parses, nonneg, magic]
  rfl

theorem Framed.recognises {pkt : Bytes} {n : Nat} (framed : Framed pkt n) (consumed : Nat) :
    Recognises (fun _ => pktLineSplitter) maxPktSize consumed pkt pkt where
  nonempty := by
    have length := framed.length
    rintro rfl
    rw [length_nil] at length
    omega
  bound := framed.bound
  incomplete := by
    intro data after cut _ missing
    have length := framed.length
    have pos := length_pos_iff.mpr missing
    rw [cut, length_append] at length
    by_cases short : data.length < 4
    · exact pktLineSplitter_short short
    have parses := framed.parses
    rw [cut, take_append_of_le_length (by omega)] at parses
    rw [pktLineSplitter_parses (by omega) parses, if_neg (by omega), if_pos (by omega)]
    rfl
  complete := by
    intro after eof
    have length := framed.length
    have same : (pkt ++ after).take 4 = pkt.take 4 := take_append_of_le_length (by omega)
    rw [pktLineSplitter_parses (by rw [length_append]; omega) (same ▸ framed.parses), same]
    split
    · rw [take_of_length_le (by omega), show pkt.length = 4 by omega]
    have all : pkt.length = n := by omega
    rw [if_neg (by rw [length_append]; omega), ← all, take_left']
    rfl

section

variable {pkts : List Bytes} (framed : ∀ pkt ∈ pkts, ∃ n, Framed pkt n)
include framed

theorem cuts_framed (consumed : Nat) :
    Cuts (fun _ => pktLineSplitter) maxPktSize consumed (pkts.map (fun pkt => (pkt, pkt))) := by
  induction pkts generalizing consumed with
  | nil => rfl
  | cons pkt rest ih =>
    obtain ⟨n, first⟩ := framed pkt mem_cons_self
    exact ⟨first.recognises consumed,
      ih (fun other member => framed other (mem_cons_of_mem _ member)) _⟩

theorem run_framed {τ δ : Type} {sizes : Nat → Nat} (lively : Lively sizes) (early : Bool)
    (body : τ → Bytes → Except δ τ) (state : τ) :
    ∃ final : Scanner UInt8 SplitError, final.error = none ∧
      Scanner.run body state (newScanner ⟨pkts.flatten, sizes, early⟩) =
        some ((pkts.foldlM body state).map (fun later => (later, final))) := by
  have stream : pkts.flatten = (pkts.map (fun pkt => (pkt, pkt))).flatMap Prod.fst := by
    rw [flatMap_map, flatMap_id']
  obtain ⟨final, error, _, runs⟩ := Scanner.run_fresh maxPktSize ⟨pkts.flatten, sizes, early⟩ body
    state (Nat.succ_pos _) lively (cuts_framed framed 0) stream
  refine ⟨final, error, runs.trans ?_⟩
  rw [map_map]
  simp [Function.comp_def]

theorem scan_framed {sizes : Nat → Nat} (lively : Lively sizes) (early : Bool) :
    scan ⟨pkts.flatten, sizes, early⟩ = some (pkts, none) := by
  obtain ⟨final, error, runs⟩ := run_framed framed lively early collect []
  have collected : pkts.foldlM collect [] = .ok pkts := by
    nth_rewrite 1 [← map_id pkts]
    exact Scanner.foldlM_collect collect id (fun _ _ _ => rfl) []
  rw [collected] at runs
  -- The equation of `scan` would be derived by running the scanner.
  delta scan
  simp only [runs, Except.map, error]

end

section lengths

variable {pktLen : Nat} (bound : pktLen ≤ maxPktSize)
include bound

theorem lengthPrefix_length : (lengthPrefix pktLen).length = 4 := by
  have fits : pktLen < 16 ^ 4 := Nat.lt_of_le_of_lt bound (by decide)
  rw [lengthPrefix, format_of_fits (by decide) (by decide) fits, padded_length]

theorem framed_of_lengthPrefix {str : Bytes} (length : str.length + 4 = pktLen) :
    Framed (lengthPrefix pktLen ++ str) pktLen where
  parses := by
    rw [take_left' (lengthPrefix_length bound)]
    exact parseInt_of_parseUint (parseUint_format (by decide) (by decide) 4 pktLen)
  length := by
    rw [length_append, lengthPrefix_length bound]
    omega
  bound := by
    rw [length_append, lengthPrefix_length bound]
    omega

end lengths

theorem framed_pktFlush : Framed pktFlush 0 := ⟨by decide, by decide, by decide⟩

theorem framed_pktDelim : Framed pktDelim 1 := ⟨by decide, by decide, by decide⟩

namespace Packet

/-- A packet that fits is written, framed, and told from the others. -/
theorem write_framed {packet : Packet} (fits : packet.Fits) :
    ∃ pkt n, packet.write = .ok pkt ∧ Framed pkt n ∧ ofBytes pkt = packet := by
  cases packet with
  | flush => exact ⟨pktFlush, 0, rfl, framed_pktFlush, by decide⟩
  | delim => exact ⟨pktDelim, 1, rfl, framed_pktDelim, by decide⟩
  | data str =>
    have bound : str.length + 4 ≤ maxPktSize := Nat.add_le_add_right fits 4
    have framed := framed_of_lengthPrefix bound rfl
    refine ⟨_, _, ?_, framed, ?_⟩
    · rw [write, writeString]
      exact if_neg (Nat.not_lt.mpr bound)
    · -- a magic packet has another length
      have other {magic : Bytes} {n : Nat} (small : n < 4) (is : Framed magic n) :
          lengthPrefix (str.length + 4) ++ str ≠ magic := by
        intro same
        have parses := is.parses
        rw [← same, framed.parses, Option.some.injEq] at parses
        have : str.length + 4 = n := Int.ofNat.inj parses
        omega
      rw [ofBytes, isFlush, beq_eq_false_iff_ne.mpr (other (by decide) framed_pktFlush),
        if_neg Bool.false_ne_true, if_neg (other (by decide) framed_pktDelim), dataOf,
        drop_left' (lengthPrefix_length bound)]

end Packet

theorem writeAll_framed {packets : List Packet} (fits : ∀ packet ∈ packets, packet.Fits) :
    ∃ pkts : List Bytes, writeAll packets = .ok pkts.flatten ∧ (∀ pkt ∈ pkts, ∃ n, Framed pkt n) ∧
      pkts.map Packet.ofBytes = packets := by
  induction packets with
  | nil => exact ⟨[], rfl, nofun, rfl⟩
  | cons packet rest ih =>
    obtain ⟨pkt, n, written, framed, told⟩ := Packet.write_framed (fits packet mem_cons_self)
    obtain ⟨pkts, later, others, same⟩ :=
      ih (fun other member => fits other (mem_cons_of_mem _ member))
    refine ⟨pkt :: pkts, ?_, forall_mem_cons.mpr ⟨⟨n, framed⟩, others⟩, ?_⟩
    · rw [writeAll, written, later]
      rfl
    · rw [map_cons, told, same]

variable (band : UInt8)

/-- What of the stream is of one band. -/
def ofBand (packets : List (UInt8 × Bytes)) : Bytes :=
  (packets.filter (fun packet => packet.1 == band)).flatMap Prod.snd

@[simp] theorem ofBand_nil : ofBand band [] = [] := rfl

@[simp] theorem ofBand_append (first second : List (UInt8 × Bytes)) :
    ofBand band (first ++ second) = ofBand band first ++ ofBand band second := by
  simp [ofBand]

theorem ofBand_singleton (packet : UInt8 × Bytes) :
    ofBand band [packet] = if packet.1 == band then packet.2 else [] := by
  unfold ofBand
  split <;> simp_all

def sidebandPacket (packet : UInt8 × Bytes) : Bytes :=
  SidebandWriter.sidebandHeader packet.1 packet.2.length ++ packet.2

theorem framed_sidebandPacket {packet : UInt8 × Bytes} (bound : packet.2.length ≤ maxSidebandData) :
    Framed (sidebandPacket packet) (packet.2.length + 5) := by
  have fits : packet.2.length + 5 ≤ maxPktSize := Nat.add_le_add_right bound 5
  rw [sidebandPacket, SidebandWriter.sidebandHeader, append_assoc]
  exact framed_of_lengthPrefix fits rfl

variable {packets : List (UInt8 × Bytes)}

theorem framed_sidebandPackets (fits : ∀ packet ∈ packets, packet.2.length ≤ maxSidebandData) :
    ∀ pkt ∈ packets.map sidebandPacket, ∃ n, Framed pkt n := by
  rw [forall_mem_map]
  exact fun packet member => ⟨_, framed_sidebandPacket (fits packet member)⟩

theorem dataOf_sidebandPacket {packet : UInt8 × Bytes} (bound : packet.2.length ≤ maxSidebandData) :
    dataOf (sidebandPacket packet) = packet.1 :: packet.2 := by
  have fits : packet.2.length + 5 ≤ maxPktSize := Nat.add_le_add_right bound 5
  rw [dataOf, sidebandPacket, SidebandWriter.sidebandHeader, append_assoc,
    drop_left' (lengthPrefix_length fits)]
  rfl

namespace SidebandWriter

variable (sw : SidebandWriter)

/-- The header that still waits for its chunk. -/
def opened : Bytes :=
  match sw.m with
  | some ⟨band, _, _, some chunkSize⟩ => sidebandHeader band chunkSize
  | _ => []

/-- The data the call that holds the lock has still to write, and what it will return. -/
def pending : List (UInt8 × Bytes) := (sw.m.map (fun write => (write.band, write.data))).toList

def owed : List Nat := (sw.m.map (fun write => write.n + write.data.length)).toList

/-- The stream consists of whole packets, but for the header of the next one, and together
with the pending data they are the data of the calls. -/
structure Written (sw : SidebandWriter) (packets : List (UInt8 × Bytes)) : Prop where
  fits : ∀ packet ∈ packets, packet.2.length ≤ maxSidebandData
  stream : sw.w = (packets.map sidebandPacket).flatten ++ sw.opened
  complete : ∀ band, ofBand band packets ++ ofBand band sw.pending = ofBand band sw.calls
  counted : sw.returned ++ sw.owed = sw.calls.map (fun call => call.2.length)
  chunk : ∀ write ∈ sw.m, ∀ chunkSize ∈ write.chunk,
    chunkSize ≤ maxSidebandData ∧ chunkSize ≤ write.data.length

theorem newSidebandWriter_written : newSidebandWriter.Written [] :=
  ⟨nofun, rfl, fun _ => rfl, rfl, nofun⟩

section steps

variable {w : Bytes} {calls : List (UInt8 × Bytes)} {returned : List Nat} {band : UInt8}
  {data : Bytes} {n : Nat}

theorem lock_written (written : Written ⟨w, none, calls, returned⟩ packets) :
    Written ⟨w, some ⟨band, data, 0, none⟩, calls ++ [(band, data)], returned⟩ packets where
  fits := written.fits
  stream := written.stream
  complete := by
    intro other
    rw [ofBand_append, ← written.complete other]
    simp [pending]
  counted := by
    rw [map_append, ← written.counted]
    simp [owed]
  chunk := nofun

theorem header_written {chunkSize : Nat}
    (written : Written ⟨w, some ⟨band, data, n, none⟩, calls, returned⟩ packets)
    (bound : chunkSize ≤ maxSidebandData) (inside : chunkSize ≤ data.length) :
    Written ⟨w ++ sidebandHeader band chunkSize, some ⟨band, data, n, some chunkSize⟩, calls,
      returned⟩ packets where
  fits := written.fits
  stream := by
    have stream : w = _ := written.stream
    rw [stream]
    simp [opened]
  complete := written.complete
  counted := written.counted
  chunk := by
    rintro write ⟨⟩ size ⟨⟩
    exact ⟨bound, inside⟩

theorem chunk_written {chunkSize : Nat}
    (written : Written ⟨w, some ⟨band, data, n, some chunkSize⟩, calls, returned⟩ packets) :
    Written ⟨w ++ data.take chunkSize, some ⟨band, data.drop chunkSize, n + chunkSize, none⟩, calls,
      returned⟩ (packets ++ [(band, data.take chunkSize)]) := by
  obtain ⟨bound, inside⟩ := written.chunk _ rfl chunkSize rfl
  have length : (data.take chunkSize).length = chunkSize := length_take_of_le inside
  refine ⟨Runs.forall_joined written.fits (by rwa [length]), ?_, fun other => ?_, ?_, nofun⟩
  · have stream : w = _ := written.stream
    rw [stream]
    simp [opened, sidebandPacket, length]
  · rw [← written.complete other]
    simp only [pending, ofBand_append, Option.map_some, Option.toList_some, ofBand_singleton,
      append_assoc]
    split <;> simp
  · have counted := written.counted
    simp only [owed, Option.map_some, Option.toList_some] at counted ⊢
    have whole : n + chunkSize + (data.length - chunkSize) = n + data.length := by
      dsimp only at inside
      omega
    rw [length_drop, whole, counted]

theorem unlock_written (written : Written ⟨w, some ⟨band, [], n, none⟩, calls, returned⟩ packets) :
    Written ⟨w, none, calls, returned ++ [n]⟩ packets where
  fits := written.fits
  stream := written.stream
  complete := by
    intro other
    rw [← written.complete other]
    simp [pending, ofBand_singleton]
  counted := by
    rw [← written.counted]
    simp [owed]
  chunk := nofun

end steps

theorem step_written {sw next : SidebandWriter} {event : Event} {packets : List (UInt8 × Bytes)}
    (written : sw.Written packets) (taken : sw.step event = some next) :
    ∃ packets, next.Written packets := by
  obtain ⟨w, m, calls, returned⟩ := sw
  cases event with
  | lock band data =>
    rcases m with _ | write
    · cases taken
      exact ⟨packets, lock_written written⟩
    · cases taken
  | header =>
    rcases m with _ | ⟨band, data, n, _ | chunkSize⟩
    · cases taken
    · simp only [step] at taken
      split at taken
      · cases taken
      cases taken
      exact ⟨packets, header_written written (by split <;> omega) (by split <;> omega)⟩
    · cases taken
  | chunk =>
    rcases m with _ | ⟨band, data, n, _ | chunkSize⟩
    · cases taken
    · cases taken
    cases taken
    exact ⟨_, chunk_written written⟩
  | unlock =>
    rcases m with _ | ⟨band, _ | _, n, _ | chunkSize⟩
    case unlock.some.nil.none =>
      cases taken
      exact ⟨packets, unlock_written written⟩
    all_goals cases taken

theorem written_of_reaches {sw : SidebandWriter}
    (reached : Runs.Reaches step newSidebandWriter sw) :
    ∃ packets, sw.Written packets :=
  reached.invariant (fun sw => ∃ packets, sw.Written packets)
    (fun _ _ _ ⟨_, written⟩ taken => step_written written taken) ⟨[], newSidebandWriter_written⟩

end SidebandWriter

/-- What the splitting of a sideband stream is for here. -/
def gather (packets : List (UInt8 × Bytes)) (band : UInt8) (data : Bytes) :
    Except Empty (List (UInt8 × Bytes)) :=
  .ok (packets ++ [(band, data)])

theorem eachSidebandPacket_gather (fits : ∀ packet ∈ packets, packet.2.length ≤ maxSidebandData)
    {sizes : Nat → Nat} (lively : Lively sizes) (early : Bool) :
    eachSidebandPacket gather [] ⟨(packets.map sidebandPacket).flatten, sizes, early⟩ =
      some (.ok packets) := by
  have gathers : (packets.map sidebandPacket).foldlM (sidebandBody gather) [] = .ok packets := by
    refine Scanner.foldlM_collect _ sidebandPacket (fun found packet member => ?_) []
    rw [sidebandBody, dataOf_sidebandPacket (fits packet member)]
    rfl
  obtain ⟨final, error, runs⟩ := run_framed (framed_sidebandPackets fits) lively early
    (sidebandBody gather) []
  rw [eachSidebandPacket, runs, gathers]
  simp only [Option.map_some, Except.map, Except.bind, error]

/-- Through a reader of the given read sizes packets come back as they were written, and
bands as the calls wrote them. -/
structure RoundTrip (sizes : Nat → Nat) (early : Bool) : Prop where
  packets : ∀ packets : List Packet, (∀ packet ∈ packets, packet.Fits) →
    ∃ written pkts, writeAll packets = .ok written ∧
      scan ⟨written, sizes, early⟩ = some (pkts, none) ∧ pkts.map Packet.ofBytes = packets
  bands : ∀ sw, Runs.Reaches SidebandWriter.step .newSidebandWriter sw → sw.m = none →
    sw.returned = sw.calls.map (fun call => call.2.length) ∧
    ∃ pkts packets, scan ⟨sw.w, sizes, early⟩ = some (pkts, none) ∧
      (∀ pkt ∈ pkts, pkt.length ≤ 65520) ∧
      eachSidebandPacket gather [] ⟨sw.w, sizes, early⟩ = some (.ok packets) ∧
      ∀ band, ofBand band packets = ofBand band sw.calls

theorem roundTrip_of_lively {sizes : Nat → Nat} (lively : Lively sizes) (early : Bool) :
    RoundTrip sizes early where
  packets := by
    intro packets fits
    obtain ⟨pkts, written, framed, told⟩ := writeAll_framed fits
    exact ⟨pkts.flatten, pkts, written, scan_framed framed lively early, told⟩
  bands := by
    intro sw reached free
    obtain ⟨packets, written⟩ := SidebandWriter.written_of_reaches reached
    have stream : sw.w = (packets.map sidebandPacket).flatten := by
      rw [written.stream, SidebandWriter.opened, free, append_nil]
    have framed := framed_sidebandPackets written.fits
    constructor
    · have counted := written.counted
      rwa [SidebandWriter.owed, free, Option.map_none, Option.toList_none, append_nil] at counted
    · rw [stream]
      refine ⟨_, packets, scan_framed framed lively early, fun pkt member => ?_,
        eachSidebandPacket_gather written.fits lively early, fun band => ?_⟩
      · obtain ⟨n, is⟩ := framed pkt member
        exact is.bound
      · have complete := written.complete band
        rwa [SidebandWriter.pending, free, Option.map_none, Option.toList_none, ofBand_nil,
          append_nil] at complete

/-- A reader that delivers a byte with every hundred-and-first read. -/
def sluggish (i : Nat) : Nat := if i % 101 = 100 then 1 else 0

theorem sluggish_roundTrip : Lively sluggish ∧ RoundTrip sluggish true := by
  have lively : Lively sluggish := by
    intro i
    refine ⟨100 - i % 101, Nat.sub_le _ _, ?_⟩
    rw [sluggish, if_pos (by omega)]
    exact Nat.one_pos
  exact ⟨lively, roundTrip_of_lively lively true⟩

/-- A reader that delivers nothing for longer than the scanner waits: a flush packet does not
come back. -/
theorem stalled_loses : ¬ RoundTrip (fun i => if i ≤ 100 then 0 else 65520) false := by
  intro roundTrip
  obtain ⟨written, pkts, wrote, scanned, _⟩ := roundTrip.packets [.flush] (by simp [Packet.Fits])
  obtain rfl : pktFlush = written := Except.ok.inj wrote
  have stopped : scan ⟨pktFlush, fun i => if i ≤ 100 then 0 else 65520, false⟩ =
      some ([], some .noProgress) := by decide +kernel
  cases scanned

section lengths

/-- The first four bytes are hexadecimal digits of a length, and a packet of this length, or of
four bytes if it is less, is complete. -/
structure Begins (data pkt : Bytes) (n : Nat) : Prop where
  long : 4 ≤ data.length
  digits : ∀ c ∈ data.take 4, ∃ digit < 16, digitValue c = some digit
  parses : parseUint 16 (data.take 4) = some n
  complete : max n 4 ≤ data.length
  pkt : pkt = data.take (max n 4)

/-- The length has a sign in front, which is read over: a plus sign, or a minus sign of zero. -/
def Signed (data : Bytes) : Prop :=
  4 ≤ data.length ∧ ∃ n, parseUint 16 ((data.take 4).drop 1) = some n ∧ max n 4 ≤ data.length ∧
    (data.head? = some 43 ∨ data.head? = some 45 ∧ n = 0)

theorem digits_of_parseFrom {s : Bytes} {base value n : Nat}
    (parses : parseFrom base value s = some n) :
    ∀ c ∈ s, ∃ digit < base, digitValue c = some digit := by
  induction s generalizing value with
  | nil => simp
  | cons c rest ih =>
    obtain ⟨digit, isDigit, parses⟩ := Option.bind_eq_some_iff.mp parses
    obtain ⟨small, parses⟩ := Option.ite_none_right_eq_some.mp parses
    exact forall_mem_cons.mpr ⟨⟨digit, small, isDigit⟩, ih parses⟩

theorem digits_of_parseUint {s : Bytes} {base n : Nat} (parses : parseUint base s = some n) :
    ∀ c ∈ s, ∃ digit < base, digitValue c = some digit :=
  digits_of_parseFrom (Option.ite_none_left_eq_some.mp parses).2

/-- A packet is taken for one if and only if its length is read as a number. -/
theorem pktLineSplitter_iff {data pkt : Bytes} {atEOF : Bool} :
    (∃ advance, pktLineSplitter data atEOF = .ok (advance, some pkt)) ↔
      4 ≤ data.length ∧ ∃ n : Nat, parseInt 16 (data.take 4) = some (Int.ofNat n) ∧
        max n 4 ≤ data.length ∧ pkt = data.take (max n 4) := by
  by_cases long : 4 ≤ data.length
  · constructor
    · rintro ⟨advance, yields⟩
      refine ⟨long, ?_⟩
      cases parses : parseInt 16 (data.take 4) with
      | none => simp [pktLineSplitter, Nat.not_lt.mpr long, parses] at yields
      | some length =>
        cases length with
        | negSucc n =>
          simp [pktLineSplitter, Nat.not_lt.mpr long, parses, Int.negSucc_lt_zero] at yields
        | ofNat n =>
          refine ⟨n, rfl, ?_⟩
          rw [pktLineSplitter_parses long parses] at yields
          split at yields
          · cases yields
            exact ⟨by omega, by rw [max_eq_right (by omega)]⟩
          split at yields
          · split at yields <;> cases yields
          · cases yields
            exact ⟨by omega, by rw [max_eq_left (by omega)]⟩
    · rintro ⟨-, n, parses, complete, rfl⟩
      rw [pktLineSplitter_parses long parses]
      split
      · rename_i magic
        exact ⟨4, by rw [max_eq_right magic.le]⟩
      rw [if_neg (by omega), max_eq_left (by omega)]
      exact ⟨n, rfl⟩
  · refine iff_of_false ?_ (fun packet => long packet.1)
    rintro ⟨advance, yields⟩
    rw [pktLineSplitter, if_pos (by omega)] at yields
    split at yields <;> cases yields

/-- A packet is taken for one exactly if it begins with its length, unless the length has a sign. -/
theorem pktLineSplitter_yields (data : Bytes) (atEOF : Bool) :
    (∀ pkt, (∃ advance, pktLineSplitter data atEOF = .ok (advance, some pkt)) ↔
        ∃ n, Begins data pkt n) ↔
      ¬ Signed data := by
  have head : (data.take 4).head? = data.head? := by simp [head?_take]
  constructor
  · rintro all ⟨long, n, parses, complete, sign⟩
    have read := parseInt_eq_ofNat.mpr (.inr ⟨parses, head ▸ sign⟩)
    obtain ⟨m, begins⟩ := (all _).mp (pktLineSplitter_iff.mpr ⟨long, n, read, complete, rfl⟩)
    -- The sign is not a digit.
    rw [← head] at sign
    rcases sign with plus | ⟨minus, -⟩
    · obtain ⟨digit, -, isDigit⟩ := begins.digits 43 (mem_of_head? plus)
      cases isDigit
    · obtain ⟨digit, -, isDigit⟩ := begins.digits 45 (mem_of_head? minus)
      cases isDigit
  · intro unsigned pkt
    rw [pktLineSplitter_iff]
    constructor
    · rintro ⟨long, n, read, complete, rfl⟩
      rcases parseInt_eq_ofNat.mp read with parses | ⟨parses, sign⟩
      · exact ⟨n, long, digits_of_parseUint parses, parses, complete, rfl⟩
      · exact absurd ⟨long, n, parses, complete, head ▸ sign⟩ unsigned
    · rintro ⟨n, long, -, parses, complete, rfl⟩
      exact ⟨long, n, parseInt_of_parseUint parses, complete, rfl⟩

theorem signed_length : pktLineSplitter (ascii "+005x") false = .ok (5, some (ascii "+005x")) ∧
    digitValue 43 = none := by
  decide

end lengths

end Gitaly.Pktline
