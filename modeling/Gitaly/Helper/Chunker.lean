import Gitaly.Base.Fallible
import Mathlib.Algebra.GroupWithZero.Nat
import Mathlib.Data.List.Chain

/- The chunker of internal/helper/chunk, which spreads items over messages. Whether a message
has items is told from the sum of their encoded sizes. -/
namespace Gitaly.Chunk

open List

variable {ι ε : Type}

/-- The response message that is being built, and the messages given to the stream. -/
structure Sender (ι : Type) where
  response : List ι
  sent : List (List ι)
deriving DecidableEq

namespace Sender

variable (s : Sender ι)

def Reset : Sender ι := { s with response := [] }

def Append (it : ι) : Sender ι := { s with response := s.response ++ [it] }

/-- The stream tells for each message whether sending it fails. -/
def Send (stream : Nat → Option ε) : Except ε (Sender ι) :=
  match stream s.sent.length with
  | some err => .error err
  | none => .ok { s with sent := s.sent ++ [s.response] }

end Sender

structure Chunker (ι : Type) where
  s : Sender ι
  size : Nat
deriving DecidableEq

def New (s : Sender ι) : Chunker ι := ⟨s, 0⟩

def maxMessageSize : Nat := 1 * 1024 * 1024

namespace Chunker

def sendResponseMsg (stream : Nat → Option ε) (c : Chunker ι) : Except ε (Chunker ι) :=
  (c.s.Send stream).map (fun s => ⟨s, 0⟩)

def reset (c : Chunker ι) : Chunker ι := { c with s := c.s.Reset }

/-- The item is measured by `proto.Size`. -/
def Send (size : ι → Nat) (stream : Nat → Option ε) (c : Chunker ι) (it : ι) :
    Except ε (Chunker ι) := do
  let c := if c.size = 0 then c.reset else c
  let itSize := size it
  let c ← if maxMessageSize ≤ itSize + c.size then
      (c.sendResponseMsg stream).map reset
    else .ok c
  return ⟨c.s.Append it, c.size + itSize⟩

def Flush (stream : Nat → Option ε) (c : Chunker ι) : Except ε (Chunker ι) :=
  if c.size = 0 then .ok c else c.sendResponseMsg stream

end Chunker

/-- The messages that a stream gets of items which are sent one by one and then flushed. -/
def sendAll (size : ι → Nat) (stream : Nat → Option ε) (items : List ι) :
    Except ε (List (List ι)) := do
  let c ← items.foldlM (Chunker.Send size stream) (New ⟨[], []⟩)
  let c ← c.Flush stream
  return c.s.sent

/-- The messages have all items in order, each has one, and what has several is not too large. -/
structure Delivered (size : ι → Nat) (items : List ι) (messages : List (List ι)) : Prop where
  whole : messages.flatten = items
  nonempty : ∀ message ∈ messages, message ≠ []
  bounded : ∀ message ∈ messages, 1 < message.length → (message.map size).sum < maxMessageSize

/-- The first item is neither empty nor as large as a message may be, and none that is empty
comes right after one that is as large. -/
def Chunkable (size : ι → Nat) (items : List ι) : Prop :=
  (∀ first ∈ items.head?, 0 < size first ∧ size first < maxMessageSize) ∧
    items.IsChain (fun item next => size next = 0 → size item < maxMessageSize)

section pure

variable (size : ι → Nat)

/-- A stream that never fails. -/
def succeeds (ε : Type) : Nat → Option ε := fun _ => none

/-- The items of the message that the next call keeps: none if they have no size. -/
def kept (c : Chunker ι) : List ι := if c.size = 0 then [] else c.s.response

/-- What a call does whose stream does not fail. -/
def push (c : Chunker ι) (it : ι) : Chunker ι :=
  if maxMessageSize ≤ size it + c.size then ⟨⟨[it], c.s.sent ++ [kept c]⟩, size it⟩
  else ⟨⟨kept c ++ [it], c.s.sent⟩, c.size + size it⟩

theorem Send_eq_push (c : Chunker ι) (it : ι) :
    c.Send size (succeeds ε) it = .ok (push size c it) := by
  have begun : (if c.size = 0 then c.reset else c) = ⟨⟨kept c, c.s.sent⟩, c.size⟩ := by
    unfold kept
    split <;> rfl
  unfold Chunker.Send push
  rw [begun]
  by_cases full : maxMessageSize ≤ size it + c.size
  · rw [if_pos full, if_pos full]
    change Except.ok (⟨_, 0 + size it⟩ : Chunker ι) = _
    rw [Nat.zero_add]
    rfl
  · rw [if_neg full, if_neg full]
    rfl

theorem foldlM_Send (items : List ι) (c : Chunker ι) :
    items.foldlM (Chunker.Send size (succeeds ε)) c = .ok (items.foldl (push size) c) := by
  induction items generalizing c with
  | nil => rfl
  | cons it items ih =>
    rw [Fallible.foldlM_cons_ok (Send_eq_push size c it), ih, foldl_cons]

/-- The messages there are after a flush. -/
def flushed (c : Chunker ι) : List (List ι) :=
  if c.size = 0 then c.s.sent else c.s.sent ++ [c.s.response]

theorem sendAll_succeeds (items : List ι) :
    sendAll size (succeeds ε) items = .ok (flushed (items.foldl (push size) (New ⟨[], []⟩))) := by
  unfold sendAll
  rw [foldlM_Send]
  generalize items.foldl (push size) (New ⟨[], []⟩) = c
  change (c.Flush (succeeds ε)).bind _ = _
  unfold Chunker.Flush flushed
  split <;> rfl

/-- An item for which the call neither forgets an item nor sends a message without one. -/
def Fits (c : Chunker ι) (it : ι) : Prop :=
  (size it = 0 → 0 < c.size ∧ c.size < maxMessageSize) ∧ (maxMessageSize ≤ size it → 0 < c.size)

/-- All items fit, each into what the chunker has become by then. -/
def AllFit : Chunker ι → List ι → Prop
  | _, [] => True
  | c, it :: items => Fits size c it ∧ AllFit (push size c it) items

variable {size} {c : Chunker ι} {it : ι}

/-- An item that fits leaves a message with a size, which is too large just if the item is. -/
theorem Fits.push_size (fits : Fits size c it) :
    0 < (push size c it).size ∧
      (maxMessageSize ≤ (push size c it).size ↔ maxMessageSize ≤ size it) := by
  have small := fits.1
  have large := fits.2
  have positive : 0 < maxMessageSize := by decide
  unfold push
  by_cases full : maxMessageSize ≤ size it + c.size
  · rw [if_pos full]
    refine ⟨?_, Iff.rfl⟩
    by_contra zero
    have empty : size it = 0 := Nat.eq_zero_of_not_pos zero
    have room := small empty
    omega
  · rw [if_neg full]
    dsimp only
    constructor
    · by_contra zero
      have room := small (by omega)
      omega
    · omega

theorem allFit_iff_isChain (items : List ι) {last : ι} (begun : 0 < c.size)
    (same : maxMessageSize ≤ c.size ↔ maxMessageSize ≤ size last) :
    AllFit size c items ↔
      (last :: items).IsChain (fun item next => size next = 0 → size item < maxMessageSize) := by
  induction items generalizing c last with
  | nil => simp [AllFit]
  | cons it items ih =>
    have fits : Fits size c it ↔ (size it = 0 → size last < maxMessageSize) := by
      constructor
      · intro both empty
        have room := both.1 empty
        omega
      · intro room
        refine ⟨fun empty => ⟨begun, ?_⟩, fun _ => begun⟩
        have bound := room empty
        omega
    rw [AllFit, isChain_cons_cons, fits]
    constructor
    · rintro ⟨room, others⟩
      obtain ⟨next, equal⟩ := (fits.mpr room).push_size
      exact ⟨room, (ih next equal).mp others⟩
    · rintro ⟨room, others⟩
      obtain ⟨next, equal⟩ := (fits.mpr room).push_size
      exact ⟨room, (ih next equal).mpr others⟩

theorem allFit_iff_chunkable (s : Sender ι) (items : List ι) :
    AllFit size (New s) items ↔ Chunkable size items := by
  cases items with
  | nil => simp [AllFit, Chunkable]
  | cons first items =>
    have fits : Fits size (New s) first ↔ 0 < size first ∧ size first < maxMessageSize := by
      unfold Fits New
      dsimp only
      omega
    rw [AllFit, fits, Chunkable]
    simp only [head?_cons, Option.mem_some_iff, forall_eq']
    constructor
    · rintro ⟨room, others⟩
      obtain ⟨next, equal⟩ := (fits.mpr room).push_size
      exact ⟨room, (allFit_iff_isChain items next equal).mp others⟩
    · rintro ⟨room, others⟩
      obtain ⟨next, equal⟩ := (fits.mpr room).push_size
      exact ⟨room, (allFit_iff_isChain items next equal).mpr others⟩

/-- What has been sent and what the message keeps are the items so far. -/
structure Holds (size : ι → Nat) (items : List ι) (c : Chunker ι) : Prop where
  whole : c.s.sent.flatten ++ kept c = items
  nonempty : ∀ message ∈ c.s.sent, message ≠ []
  bounded : ∀ message ∈ c.s.sent, 1 < message.length → (message.map size).sum < maxMessageSize
  total : c.size = ((kept c).map size).sum
  room : 1 < (kept c).length → c.size < maxMessageSize

theorem kept_of_pos (begun : 0 < c.size) : kept c = c.s.response := if_neg (by omega)

theorem holds_New (response : List ι) : Holds size [] (New ⟨response, []⟩) := by
  constructor <;> simp [New, kept]

variable {items : List ι}

section

variable (holds : Holds size items c)
include holds

theorem Holds.kept_ne_nil (begun : 0 < c.size) : kept c ≠ [] := by
  intro empty
  have total := holds.total
  simp only [empty, map_nil, sum_nil] at total
  omega

theorem Holds.push_of_full (fits : Fits size c it) (full : maxMessageSize ≤ size it + c.size) :
    Holds size (items ++ [it]) (push size c it) := by
  have begun : 0 < c.size := by
    by_contra zero
    exact zero (fits.2 (by omega))
  have message := holds.kept_ne_nil begun
  have next := kept_of_pos fits.push_size.1
  unfold push at next ⊢
  rw [if_pos full] at next ⊢
  constructor
  · rw [next, ← holds.whole]
    simp
  · exact forall_mem_append.mpr ⟨holds.nonempty, by simpa using message⟩
  · refine forall_mem_append.mpr ⟨holds.bounded, ?_⟩
    simp only [mem_singleton, forall_eq]
    intro several
    rw [← holds.total]
    exact holds.room several
  all_goals simp [next]

theorem Holds.push_of_room (fits : Fits size c it) (room : ¬ maxMessageSize ≤ size it + c.size) :
    Holds size (items ++ [it]) (push size c it) := by
  have next := kept_of_pos fits.push_size.1
  unfold push at next ⊢
  rw [if_neg room] at next ⊢
  constructor
  · rw [next, ← holds.whole]
    simp
  · exact holds.nonempty
  · exact holds.bounded
  · rw [next]
    simp [holds.total]
  · intro _
    dsimp only
    omega

theorem Holds.foldl {later : List ι} (fit : AllFit size c later) :
    Holds size (items ++ later) (later.foldl (push size) c) := by
  induction later generalizing items c with
  | nil => simpa using holds
  | cons it later ih =>
    have next : Holds size (items ++ [it]) (push size c it) := by
      by_cases full : maxMessageSize ≤ size it + c.size
      · exact holds.push_of_full fit.1 full
      · exact holds.push_of_room fit.1 full
    simpa using ih next fit.2

theorem Holds.delivered : Delivered size items (flushed c) := by
  unfold flushed
  by_cases empty : c.size = 0
  · have unsent : kept c = [] := if_pos empty
    have whole := holds.whole
    rw [unsent, append_nil] at whole
    rw [if_pos empty]
    exact ⟨whole, holds.nonempty, holds.bounded⟩
  · have begun : 0 < c.size := Nat.pos_of_ne_zero empty
    have message := holds.kept_ne_nil begun
    have whole := holds.whole
    have room := holds.room
    rw [holds.total] at room
    rw [kept_of_pos begun] at message whole room
    rw [if_neg empty]
    constructor
    · simpa using whole
    · exact forall_mem_append.mpr ⟨holds.nonempty, by simpa using message⟩
    · exact forall_mem_append.mpr ⟨holds.bounded, by simpa using room⟩

end

/-- How many items have been sent or will be. -/
def count (c : Chunker ι) : Nat := c.s.sent.flatten.length + (kept c).length

theorem length_flushed (c : Chunker ι) : (flushed c).flatten.length = count c := by
  unfold flushed count kept
  split <;> simp

theorem count_push_le (size : ι → Nat) (c : Chunker ι) (it : ι) :
    count (push size c it) ≤ count c + 1 := by
  have fewer (c : Chunker ι) : count c ≤ c.s.sent.flatten.length + c.s.response.length := by
    unfold count kept
    split <;> simp
  apply (fewer _).trans
  unfold push count
  split <;> simp [Nat.add_assoc]

/-- An item without size is forgotten with the message it is alone in. -/
theorem count_push_of_empty (empty : size it = 0)
    (alone : ¬ (0 < c.size ∧ c.size < maxMessageSize)) : count (push size c it) ≤ count c := by
  unfold push
  split
  · simp [count, kept, empty]
  · have zero : c.size = 0 := by omega
    simp [count, kept, empty, zero]

/-- An item that is too large for any message has the one before it sent, even if that has no
items. -/
theorem nil_mem_push_sent (large : maxMessageSize ≤ size it) (zero : c.size = 0) :
    [] ∈ (push size c it).s.sent := by
  unfold push
  rw [if_pos (by omega)]
  simp [kept, zero]

theorem push_sent_subset (size : ι → Nat) (c : Chunker ι) (it : ι) :
    c.s.sent ⊆ (push size c it).s.sent := by
  unfold push
  split
  · exact subset_append_left _ _
  · exact List.Subset.refl _

theorem foldl_push_grows (size : ι → Nat) (items : List ι) (c : Chunker ι) :
    count (items.foldl (push size) c) ≤ count c + items.length ∧
      c.s.sent ⊆ (items.foldl (push size) c).s.sent := by
  induction items generalizing c with
  | nil => simp
  | cons it items ih =>
    obtain ⟨counted, sent⟩ := ih (push size c it)
    have one := count_push_le size c it
    rw [foldl_cons, length_cons]
    exact ⟨by omega, List.Subset.trans (push_sent_subset size c it) sent⟩

/-- Items of which none is forgotten, and with which no message goes out empty, fit. -/
theorem allFit_of_count (all : count c + items.length ≤ count (items.foldl (push size) c))
    (nonempty : [] ∉ (items.foldl (push size) c).s.sent) : AllFit size c items := by
  induction items generalizing c with
  | nil => trivial
  | cons it items ih =>
    rw [foldl_cons] at all nonempty
    rw [length_cons] at all
    obtain ⟨counted, sent⟩ := foldl_push_grows size items (push size c it)
    have one := count_push_le size c it
    refine ⟨⟨?_, ?_⟩, ih (by omega) nonempty⟩
    · intro empty
      by_contra alone
      have forgotten := count_push_of_empty empty alone
      omega
    · intro large
      by_contra zero
      exact nonempty (sent (nil_mem_push_sent large (by omega)))

end pure

/-- Every item arrives, and no message without one is sent, just if the first item is neither
empty nor too large and no empty item follows one that is too large. -/
theorem sendAll_delivered_iff (size : ι → Nat) (items : List ι) :
    (∃ messages, sendAll size (succeeds ε) items = .ok messages ∧
      Delivered size items messages) ↔ Chunkable size items := by
  rw [← allFit_iff_chunkable ⟨[], []⟩]
  constructor
  · rintro ⟨messages, sends, delivered⟩
    rw [sendAll_succeeds] at sends
    cases sends
    have counted := length_flushed (items.foldl (push size) (New ⟨[], []⟩))
    rw [delivered.whole] at counted
    apply allFit_of_count
    · rw [← counted]
      simp [count, New, kept]
    · intro sent
      refine delivered.nonempty [] ?_ rfl
      unfold flushed
      split
      · exact sent
      · exact mem_append_left _ sent
  · intro fit
    have holds := (holds_New []).foldl fit
    exact ⟨_, sendAll_succeeds size items, holds.delivered⟩

/-- An empty item is forgotten when the next one comes, and a message without items is sent
before an item that is too large. -/
theorem empty_item_forgotten :
    (sendAll id (succeeds Unit) [0, 5] = .ok [[5]] ∧ ¬ Delivered id [0, 5] [[5]]) ∧
      sendAll id (succeeds Unit) [maxMessageSize] = .ok [[], [maxMessageSize]] ∧
        ¬ Delivered id [maxMessageSize] [[], [maxMessageSize]] := by
  refine ⟨⟨by decide, ?_⟩, by decide, ?_⟩
  · intro delivered
    have whole := delivered.whole
    simp at whole
  · intro delivered
    exact delivered.nonempty [] mem_cons_self rfl

end Gitaly.Chunk
