import Mathlib.Order.Basic
import Mathlib.Data.List.Basic

/- A buffered scanner that cuts what a reader delivers into tokens, after Go's
bufio.Scanner. The split functions here never return a token without advancing,
so the scanner's guard against that is left out. -/
namespace Scanning

open List Option Nat

variable {α ε δ τ : Type}

/-- A reader with what it has still to deliver. The sizes are how much its next reads
deliver at most. An early end is reported along with the last bytes. -/
structure Reader (α : Type) where
  rest : List α
  sizes : Nat → Nat
  early : Bool

def Reader.read (r : Reader α) (room : Nat) : List α × Bool × Reader α :=
  let next := { r with sizes := fun i => r.sizes (i + 1) }
  if r.sizes 0 = 0 then ([], false, next)
  else if r.rest.isEmpty then ([], true, next)
  else
    let n := min (r.sizes 0) room
    (r.rest.take n, r.early && decide (r.rest.length ≤ n), { next with rest := r.rest.drop n })

/-- There are never more than a hundred empty reads in a row. -/
def Lively (sizes : Nat → Nat) : Prop := ∀ i, ∃ j ≤ 100, 0 < sizes (i + j)

inductive ScanError (ε : Type) where
  | split (err : ε)
  | advanceTooFar
  | tooLong
  | noProgress
deriving DecidableEq

inductive Halt (ε : Type) where
  | eof
  | failed (err : ScanError ε)
deriving DecidableEq

/-- Reads until something comes. -/
def Reader.fill (room : Nat) : Nat → Reader α → List α × Option (Halt ε) × Reader α
  | 0, r => ([], some (.failed .noProgress), r)
  | attempts + 1, r =>
    let (bytes, eof, next) := r.read room
    if eof then (bytes, some .eof, next)
    else if bytes.isEmpty then fill room attempts next
    else (bytes, none, next)

/-- The data is the part of the buffer that has been read and not consumed, from `start` on.
A split function may count what it has consumed. -/
structure Scanner (α ε : Type) where
  split : Nat → List α → Bool → Except ε (Nat × Option (List α))
  maxTokenSize : Nat
  reader : Reader α
  size : Nat
  start : Nat := 0
  data : List α := []
  consumed : Nat := 0
  err : Option (Halt ε) := none

namespace Scanner

variable (s : Scanner α ε)

/-- Only the end of the input gives way to a later error. -/
def setErr (e : ScanError ε) : Scanner α ε :=
  match s.err with
  | some (.failed _) => s
  | _ => { s with err := some (.failed e) }

def advance (n : Nat) : Scanner α ε :=
  { s with start := s.start + n, data := s.data.drop n, consumed := s.consumed + n }

/-- The end of the input is not an error. -/
def error : Option (ScanError ε) :=
  match s.err with
  | some (.failed e) => some e
  | _ => none

def offer : Except (ScanError ε) (Nat × Option (List α)) :=
  if s.data.isEmpty && s.err.isNone then .ok (0, none)
  else
    match s.split s.consumed s.data s.err.isSome with
    | .error e => .error (.split e)
    | .ok (n, token) => if s.data.length < n then .error .advanceTooFar else .ok (n, token)

def shift : Scanner α ε :=
  if 0 < s.start ∧ (s.start + s.data.length = s.size ∨ s.size / 2 < s.start) then
    { s with start := 0 }
  else s

def grow : Option (Scanner α ε) :=
  if s.start + s.data.length = s.size then
    if s.maxTokenSize ≤ s.size then none
    else
      some { s with
        size := min (if s.size = 0 then 4096 else s.size * 2) s.maxTokenSize
        start := 0 }
  else some s

def readMore : Scanner α ε :=
  let (bytes, err, reader) := s.reader.fill (s.size - (s.start + s.data.length)) 101
  { s with data := s.data ++ bytes, err := err, reader := reader }

inductive Turn (α ε : Type) where
  | token (bytes : List α) (s : Scanner α ε)
  | again (s : Scanner α ε)
  | done (s : Scanner α ε)

/-- There is no token in the data. -/
def more : Turn α ε :=
  if s.err.isSome then .done { s with start := 0, data := [] }
  else
    match s.shift.grow with
    | none => .done (s.setErr .tooLong)
    | some roomy => .again roomy.readMore

/-- One turn of the loop of Scan. -/
def turn : Turn α ε :=
  match s.offer with
  | .error e => .done (s.setErr e)
  | .ok (n, some bytes) => .token bytes (s.advance n)
  | .ok (n, none) => (s.advance n).more

/-- Scans with a body run on every token, which may break off. At the end of the loop there
are its state and the scanner. -/
def forEach (body : τ → List α → Except δ τ) : Nat → τ → Scanner α ε →
    Option (Except δ (τ × Scanner α ε))
  | 0, _, _ => none
  | fuel + 1, state, s =>
    match s.turn with
    | .done final => some (.ok (state, final))
    | .again next => forEach body fuel state next
    | .token bytes next =>
      match body state bytes with
      | .error e => some (.error e)
      | .ok later => forEach body fuel later next

/-- Every turn reads something, cuts something off or is the last one. -/
def run (body : τ → List α → Except δ τ) (state : τ) (s : Scanner α ε) :
    Option (Except δ (τ × Scanner α ε)) :=
  forEach body (2 * s.reader.rest.length + 2) state s

end Scanner

theorem Lively.tail {sizes : Nat → Nat} (lively : Lively sizes) :
    Lively (fun i => sizes (i + 1)) := by
  intro i
  obtain ⟨j, bound, pos⟩ := lively (i + 1)
  refine ⟨j, bound, ?_⟩
  rwa [Nat.add_right_comm] at pos

namespace Reader

variable (r : Reader α) (room : Nat)

theorem read_sizes : (r.read room).2.2.sizes = fun i => r.sizes (i + 1) := by
  unfold read
  split_ifs <;> rfl

theorem read_delivered : r.rest = (r.read room).1 ++ (r.read room).2.2.rest := by
  unfold read
  split_ifs
  · rfl
  · rfl
  · exact (take_append_drop _ _).symm

theorem read_fits : (r.read room).1.length ≤ room := by
  unfold read
  split_ifs
  · exact zero_le _
  · exact zero_le _
  · rw [length_take]
    omega

theorem read_eof (eof : (r.read room).2.1 = true) : (r.read room).2.2.rest = [] := by
  unfold read at eof ⊢
  split_ifs at eof ⊢ with _ ended
  · simpa using ended
  · rw [Bool.and_eq_true, decide_eq_true_eq] at eof
    exact drop_eq_nil_of_le eof.2

theorem read_progress (roomy : 0 < room) (size : 0 < r.sizes 0)
    (open_ : (r.read room).2.1 = false) : (r.read room).1 ≠ [] := by
  unfold read at open_ ⊢
  split_ifs at open_ ⊢ with empty ended
  · omega
  rw [List.isEmpty_iff] at ended
  rw [Ne, take_eq_nil_iff]
  rintro (empty | nothing)
  · omega
  · exact ended nothing

/-- What a fill that is not given up delivers. -/
structure Filled (bytes : List α) (err : Option (Halt ε)) (next : Reader α) : Prop where
  delivered : r.rest = bytes ++ next.rest
  fits : bytes.length ≤ room
  halt : err = none ∧ bytes ≠ [] ∨ err = some .eof ∧ next.rest = []
  lively : Lively r.sizes → Lively next.sizes

variable {r room} (ε)

theorem fill_filled {attempts : Nat} (roomy : 0 < room) (soon : ∃ j < attempts, 0 < r.sizes j) :
    ∃ (bytes : List α) (err : Option (Halt ε)) (next : Reader α),
      r.fill room attempts = (bytes, err, next) ∧ r.Filled room bytes err next := by
  induction attempts generalizing r with
  | zero =>
    obtain ⟨j, bound, _⟩ := soon
    omega
  | succ attempts ih =>
    have tail : Lively r.sizes → Lively (r.read room).2.2.sizes := fun lively => by
      rw [read_sizes]
      exact lively.tail
    unfold fill
    dsimp only
    split_ifs with eof empty
    · exact ⟨_, _, _, rfl, r.read_delivered room, r.read_fits room,
        .inr ⟨rfl, r.read_eof room eof⟩, tail⟩
    · -- the next read that delivers is one read nearer
      rw [List.isEmpty_iff] at empty
      obtain ⟨j, bound, pos⟩ := soon
      have later : j ≠ 0 := by
        rintro rfl
        exact r.read_progress room roomy pos (by simpa using eof) empty
      obtain ⟨j, rfl⟩ := exists_eq_succ_of_ne_zero later
      obtain ⟨bytes, err, next, filled, spec⟩ := ih (r := (r.read room).2.2)
        ⟨j, lt_of_succ_lt_succ bound, by rwa [read_sizes]⟩
      have same : r.rest = (r.read room).2.2.rest := by
        have delivered := r.read_delivered room
        rwa [empty, nil_append] at delivered
      exact ⟨bytes, err, next, filled, same.trans spec.delivered, spec.fits, spec.halt,
        fun lively => spec.lively (tail lively)⟩
    · rw [List.isEmpty_iff] at empty
      exact ⟨_, _, _, rfl, r.read_delivered room, r.read_fits room, .inl ⟨rfl, empty⟩, tail⟩

end Reader

/-- The split function asks for more on every beginning of the bytes and cuts them off, as
the token, whatever comes after them. -/
structure Recognises (split : Nat → List α → Bool → Except ε (Nat × Option (List α)))
    (maxTokenSize consumed : Nat) (bytes token : List α) : Prop where
  nonempty : bytes ≠ []
  bound : bytes.length ≤ maxTokenSize
  incomplete : ∀ {data after : List α}, bytes = data ++ after → data ≠ [] → after ≠ [] →
    split consumed data false = .ok (0, none)
  complete : ∀ (after : List α) (eof : Bool),
    split consumed (bytes ++ after) eof = .ok (bytes.length, some token)

/-- The stream of all the bytes is cut into the tokens. -/
def Cuts (split : Nat → List α → Bool → Except ε (Nat × Option (List α))) (maxTokenSize : Nat) :
    Nat → List (List α × List α) → Prop
  | consumed, [] => split consumed [] true = .ok (0, none)
  | consumed, (bytes, token) :: rest =>
    Recognises split maxTokenSize consumed bytes token ∧
      Cuts split maxTokenSize (consumed + bytes.length) rest

namespace Scanner

/-- The scanner has the pieces before it. -/
structure Ready (s : Scanner α ε) (pieces : List (List α × List α)) : Prop where
  stream : s.data ++ s.reader.rest = pieces.flatMap Prod.fst
  halt : s.err = none ∨ s.err = some .eof ∧ s.reader.rest = []
  fits : s.start + s.data.length ≤ s.size
  max_pos : 0 < s.maxTokenSize
  lively : Lively s.reader.sizes
  cuts : Cuts s.split s.maxTokenSize s.consumed pieces

/-- How much is left to read, the end included. -/
def unread (s : Scanner α ε) : Nat := s.reader.rest.length + (if s.err.isNone then 1 else 0)

variable {s : Scanner α ε} {pieces : List (List α × List α)}

theorem shift_start (fits : s.start + s.data.length ≤ s.size) :
    ∃ start, s.shift = { s with start := start } ∧ start + s.data.length ≤ s.size ∧
      (start + s.data.length = s.size → start = 0) := by
  unfold shift
  split_ifs with shifts
  · exact ⟨0, rfl, by omega, fun _ => rfl⟩
  · exact ⟨s.start, rfl, fits, by omega⟩

theorem grow_shift (fits : s.start + s.data.length ≤ s.size)
    (short : s.data.length < s.maxTokenSize) :
    ∃ start size, s.shift.grow = some { s with start := start, size := size } ∧
      start + s.data.length < size := by
  obtain ⟨start, shifted, fits, full⟩ := shift_start fits
  rw [shifted]
  unfold grow
  split_ifs with whole large small
  · dsimp only at whole large
    omega
  · exact ⟨0, _, rfl, by dsimp only at whole large small ⊢; omega⟩
  · exact ⟨0, _, rfl, by dsimp only at whole large small ⊢; omega⟩
  · exact ⟨start, s.size, rfl, by dsimp only at whole; omega⟩

theorem more_again (ready : s.Ready pieces) (running : s.err = none)
    (short : s.data.length < s.maxTokenSize) :
    ∃ next, s.more = .again next ∧ next.Ready pieces ∧ next.unread < s.unread ∧
      next.consumed = s.consumed := by
  obtain ⟨start, size, grown, room⟩ := grow_shift ready.fits short
  obtain ⟨j, bound, pos⟩ := ready.lively 0
  rw [Nat.zero_add] at pos
  obtain ⟨bytes, err, reader, filled, spec⟩ := Reader.fill_filled ε
    (r := s.reader) (Nat.sub_pos_of_lt room) ⟨j, Nat.lt_succ_of_le bound, pos⟩
  have next : s.more = .again
      { s with start := start, size := size, data := s.data ++ bytes, err := err,
               reader := reader } := by
    simp only [more, running, isSome_none, grown, readMore, filled]
    rfl
  refine ⟨_, next, ⟨?_, ?_, ?_, ready.max_pos, spec.lively ready.lively, ready.cuts⟩, ?_, rfl⟩
  · rw [← ready.stream, spec.delivered, append_assoc]
  · rcases spec.halt with ⟨running, _⟩ | ended
    · exact .inl running
    · exact .inr ended
  · have fits := spec.fits
    simp only [length_append]
    omega
  · have delivered := congrArg length spec.delivered
    rw [length_append] at delivered
    unfold unread
    rcases spec.halt with ⟨rfl, nonempty⟩ | ⟨rfl, ended⟩
    · have pos := length_pos_iff.mpr nonempty
      simp only [running, isNone_none, if_true]
      omega
    · simp only [running, isNone_none, isNone_some, if_true]
      simp
      omega

theorem offer_of_split {n : Nat} {token : Option (List α)} (busy : s.data ≠ [] ∨ s.err ≠ none)
    (splits : s.split s.consumed s.data s.err.isSome = .ok (n, token))
    (inside : n ≤ s.data.length) : s.offer = .ok (n, token) := by
  have called : (s.data.isEmpty && s.err.isNone) = false := by
    rcases busy with data | err
    · simp [data]
    · simp [isSome_iff_ne_none, err]
  rw [offer, called, splits]
  simp [Nat.not_lt.mpr inside]

theorem turn_of_offer_none (waits : s.offer = .ok (0, none)) : s.turn = s.more := by
  rw [turn, waits]
  rfl

theorem turn_nil (ready : s.Ready []) :
    (∃ next, s.turn = .again next ∧ next.Ready [] ∧ next.unread < s.unread ∧
        next.consumed = s.consumed) ∨
      ∃ final, s.turn = .done final ∧ final.error = none ∧ final.consumed = s.consumed := by
  have data : s.data = [] := (append_eq_nil_iff.mp ready.stream).1
  rcases ready.halt with running | ⟨ended, _⟩
  · left
    have waits : s.offer = .ok (0, none) := by simp [offer, data, running]
    rw [turn_of_offer_none waits]
    exact more_again ready running (by rw [data]; exact ready.max_pos)
  · right
    have last : s.split s.consumed s.data s.err.isSome = .ok (0, none) := by
      rw [data, ended]
      exact ready.cuts
    have waits : s.offer = .ok (0, none) :=
      offer_of_split (.inr (by rw [ended]; exact some_ne_none _)) last (zero_le _)
    refine ⟨{ s with start := 0, data := [] }, ?_, ?_, rfl⟩
    · rw [turn_of_offer_none waits, more, ended]
      rfl
    · simp [error, ended]

/-- The scanner has a piece before it: it is cut off if it is there, and else more is read. -/
theorem turn_cons {bytes token : List α} (ready : s.Ready ((bytes, token) :: pieces)) :
    (∃ next, s.turn = .again next ∧ next.Ready ((bytes, token) :: pieces) ∧
        next.unread < s.unread ∧ next.consumed = s.consumed) ∨
      ∃ next, s.turn = .token token next ∧ next.Ready pieces ∧ next.unread = s.unread ∧
        next.consumed = s.consumed + bytes.length := by
  obtain ⟨piece, cuts⟩ := ready.cuts
  have stream : s.data ++ s.reader.rest = bytes ++ pieces.flatMap Prod.fst := ready.stream
  by_cases cut : bytes <+: s.data
  · right
    obtain ⟨after, data⟩ := cut
    have splits : s.split s.consumed s.data s.err.isSome = .ok (bytes.length, some token) := by
      rw [← data]
      exact piece.complete after _
    have offers : s.offer = .ok (bytes.length, some token) := by
      refine offer_of_split (.inl ?_) splits ?_
      · rw [← data]
        exact append_ne_nil_of_left_ne_nil piece.nonempty _
      · rw [← data, length_append]
        exact le_add_right _ _
    have dropped : s.data.drop bytes.length = after := by rw [← data, drop_left]
    refine ⟨s.advance bytes.length, by rw [turn, offers], ⟨?_, ready.halt, ?_, ready.max_pos,
      ready.lively, cuts⟩, rfl, rfl⟩
    · rw [← data, append_assoc] at stream
      rw [advance, dropped]
      exact append_cancel_left stream
    · have fits := ready.fits
      rw [← data, length_append] at fits
      simp only [advance, dropped]
      omega
  · left
    obtain ⟨after, rfl, rest⟩ : ∃ after, bytes = s.data ++ after ∧
        s.reader.rest = after ++ pieces.flatMap Prod.fst := by
      rcases append_eq_append_iff.mp stream with inside | ⟨after, data, _⟩
      · exact inside
      · exact absurd ⟨after, data.symm⟩ cut
    have missing : after ≠ [] := by
      rintro rfl
      exact cut ⟨[], by simp⟩
    have running : s.err = none := by
      rcases ready.halt with running | ⟨_, ended⟩
      · exact running
      · rw [ended] at rest
        exact absurd (append_eq_nil_iff.mp rest.symm).1 missing
    have short : s.data.length < s.maxTokenSize := by
      have bound := piece.bound
      have pos := length_pos_iff.mpr missing
      rw [length_append] at bound
      omega
    have waits : s.offer = .ok (0, none) := by
      by_cases data : s.data = []
      · simp [offer, data, running]
      refine offer_of_split (.inl data) ?_ (zero_le _)
      rw [running]
      exact piece.incomplete rfl data missing
    rw [turn_of_offer_none waits]
    exact more_again ready running short

/-- Over a stream of pieces the body runs on their tokens, in order. If it does not break
off, the loop ends without an error and with everything consumed. -/
theorem forEach_ready (body : τ → List α → Except δ τ) (fuel : Nat) (state : τ)
    (ready : s.Ready pieces) (enough : s.unread + pieces.length < fuel) :
    ∃ final : Scanner α ε, final.error = none ∧
      final.consumed = s.consumed + (pieces.flatMap Prod.fst).length ∧
      forEach body fuel state s =
        some (((pieces.map Prod.snd).foldlM body state).map (fun later => (later, final))) := by
  induction fuel generalizing s state pieces with
  | zero => omega
  | succ fuel ih =>
    unfold forEach
    cases pieces with
    | nil =>
      rcases turn_nil ready with
        ⟨next, turns, later, fewer, same⟩ | ⟨final, turns, error, consumed⟩
      · rw [turns]
        rw [← same]
        exact ih state later (by omega)
      · rw [turns]
        exact ⟨final, error, consumed, rfl⟩
    | cons piece rest =>
      obtain ⟨bytes, token⟩ := piece
      rcases turn_cons ready with
        ⟨next, turns, later, fewer, same⟩ | ⟨next, turns, later, same, cut⟩
      · rw [turns]
        rw [← same]
        exact ih state later (by omega)
      · rw [turns, map_cons, foldlM_cons, flatMap_cons, length_append, ← Nat.add_assoc, ← cut]
        dsimp only
        cases body state token with
        | error e =>
          exact ⟨{ s with err := none, consumed := _ }, rfl, rfl, rfl⟩
        | ok next => exact ih next later (by rw [length_cons] at enough; omega)

variable {split : Nat → List α → Bool → Except ε (Nat × Option (List α))}

theorem length_le_of_cuts
    {maxTokenSize consumed : Nat} (cuts : Cuts split maxTokenSize consumed pieces) :
    pieces.length ≤ (pieces.flatMap Prod.fst).length := by
  induction pieces generalizing consumed with
  | nil => exact Nat.le_refl 0
  | cons piece rest ih =>
    have pos := length_pos_iff.mpr cuts.1.nonempty
    have tail := ih cuts.2
    rw [flatMap_cons, length_append, length_cons]
    omega

theorem foldlM_collect {β : Type} (body : List β → List α → Except δ (List β)) (token : β → List α)
    {items : List β}
    (collects : ∀ found, ∀ item ∈ items, body found (token item) = .ok (found ++ [item]))
    (found : List β) : (items.map token).foldlM body found = .ok (found ++ items) := by
  induction items generalizing found with
  | nil =>
    rw [append_nil]
    rfl
  | cons item rest ih =>
    have tail := ih (fun found other member =>
      collects found other (mem_cons_of_mem _ member))
      (found ++ [item])
    rw [append_assoc] at tail
    rw [map_cons, foldlM_cons, collects found item mem_cons_self]
    exact tail

/-- The same for a scanner that has read nothing, and with fuel enough. -/
theorem run_fresh {maxTokenSize : Nat} (size : Nat) (reader : Reader α)
    (body : τ → List α → Except δ τ) (state : τ) (max_pos : 0 < maxTokenSize)
    (lively : Lively reader.sizes) (cuts : Cuts split maxTokenSize 0 pieces)
    (stream : reader.rest = pieces.flatMap Prod.fst) :
    ∃ final : Scanner α ε, final.error = none ∧ final.consumed = reader.rest.length ∧
      run body state { split, maxTokenSize, reader, size } =
        some (((pieces.map Prod.snd).foldlM body state).map (fun later => (later, final))) := by
  have ready : Scanner.Ready { split, maxTokenSize, reader, size } pieces :=
    ⟨stream, .inl rfl, zero_le _, max_pos, lively, cuts⟩
  have fewer := length_le_of_cuts cuts
  rw [← stream] at fewer
  have enough : unread { split, maxTokenSize, reader, size } + pieces.length <
      2 * reader.rest.length + 2 := by
    simp only [unread, isNone_none, if_true]
    omega
  obtain ⟨final, error, consumed, runs⟩ := forEach_ready body _ state ready enough
  exact ⟨final, error, by rw [consumed, ← stream, Nat.zero_add], runs⟩

end Scanner

end Scanning
