import Gitaly.Base.Runs
import Gitaly.Git.Catfile

/- All the readers that a batch process has handed out: they share its output and its count of
unread bytes, and older ones may be read again. -/
namespace Gitaly.Catfile

open Text List Runs

/-- A reader, which may read so much more. -/
structure Handle where
  revision : Bytes
  left : Nat
  received : Bytes
deriving DecidableEq

structure Readers where
  batch : Batch
  handles : List Handle
  panicked : Bool

/-- A read gets any number of bytes up to the room there is for them. -/
inductive Access where
  | request (revision : Bytes) (plain : newline ∉ revision) (expectedType : ObjectType)
  | read (handle : Nat) (count : Nat)

namespace Readers

def start : Readers := ⟨.start, [], false⟩

def request (git : Git) (s : Readers) (revision : Bytes) (expectedType : ObjectType) : Readers :=
  let batch := s.batch.reader git revision expectedType
  match batch.log.getLast?.map Entry.result with
  | some (.ok oi) =>
    { s with batch := batch, handles := s.handles ++ [⟨revision, oi.size.toNat, []⟩] }
  | _ => { s with batch := batch }

/-- Reads through the limit, and consumes. -/
def read (s : Readers) (handle count : Nat) : Readers :=
  match s.handles[handle]? with
  | none => s
  | some h =>
    let bytes := s.batch.r.take (min count h.left)
    let n := s.batch.n - bytes.length
    { batch := { s.batch with r := s.batch.r.drop (min count h.left), n := n }
      handles := s.handles.set handle
        { h with left := h.left - bytes.length, received := h.received ++ bytes }
      panicked := decide (n < 1) }

/-- After a panic nothing happens. -/
def step (git : Git) (s : Readers) (access : Access) : Option Readers :=
  if s.panicked then some s
  else
    match access with
    | .request revision _ expectedType => some (s.request git revision expectedType)
    | .read handle count => some (s.read handle count)

/-- Every reader has returned a part of its object from the beginning, and all of it at the end;
the number is that of the unread bytes, and while it is above one there is no new object. -/
structure Sound (git : Git) (s : Readers) : Prop where
  running : s.panicked = false
  own : ∀ h ∈ s.handles, ∃ object, git h.revision = .found object ∧
    h.received <+: object.contents ∧ (h.left = 0 → h.received = object.contents)
  n : s.batch.n = s.batch.r.length
  refuses : 1 < s.batch.n → ∀ revision expectedType, s.batch.reader git revision expectedType =
    s.batch.returns revision expectedType (.error (.unreadBytes s.batch.n))

/-- No reader is read while nothing is left of a reply. -/
def Awake (s : Readers) : Access → Prop
  | .request _ _ _ => True
  | .read handle _ => s.panicked = false → handle < s.handles.length → s.batch.n ≠ 0

/-- The reader still has these contents to read. -/
def Owes (git : Git) (h : Handle) (rest : Bytes) : Prop :=
  ∃ object, git h.revision = .found object ∧ object.contents = h.received ++ rest ∧
    h.left = rest.length

/-- Only the last reader may have contents to read, which are before the linefeed. -/
structure Framed (git : Git) (s : Readers) : Prop where
  n : s.batch.n = s.batch.r.length
  readers : (s.batch.r = [] ∧ ∀ h ∈ s.handles, Owes git h []) ∨
    ∃ before last rest, s.handles = before ++ [last] ∧ (∀ h ∈ before, Owes git h []) ∧
      Owes git last rest ∧ s.batch.r = rest ++ [newline]

section steps

variable {git : Git} {s : Readers} {b : Batch}

theorem reader_of_unread (unread : 1 < b.n) (revision : Bytes)
    (expectedType : ObjectType) : b.reader git revision expectedType =
      b.returns revision expectedType (.error (.unreadBytes b.n)) := by
  rw [Batch.reader, if_neg (by omega), Batch.request, if_pos (by omega)]

theorem Framed.sound (framed : Framed git s) (running : s.panicked = false) : Sound git s := by
  have own {h : Handle} {rest : Bytes} (owes : Owes git h rest) :
      ∃ object, git h.revision = .found object ∧ h.received <+: object.contents ∧
        (h.left = 0 → h.received = object.contents) := by
    obtain ⟨object, found, contents, left⟩ := owes
    refine ⟨object, found, ⟨rest, contents.symm⟩, fun ended => ?_⟩
    rw [contents, length_eq_zero_iff.mp (left.symm.trans ended), append_nil]
  refine ⟨running, fun h member => ?_, framed.n, reader_of_unread⟩
  rcases framed.readers with ⟨-, all⟩ | ⟨before, last, rest, handles, others, owes, -⟩
  · exact own (all h member)
  rw [handles, mem_append, mem_singleton] at member
  rcases member with older | rfl
  · exact own (others h older)
  · exact own owes

variable {revision : Bytes}

theorem request_idle (n : b.n = 0) (r : b.r = []) (plain : newline ∉ revision)
    (expectedType : ObjectType) (clear : git revision ≠ .ambiguous) :
    let after := b.request git revision expectedType
    (∃ object, git revision = .found object ∧ after.r = object.contents ++ [newline] ∧
        after.n = object.contents.length + 1 ∧
        after.log.getLast?.map Entry.result = some (.ok object.info)) ∨
      after.r = [] ∧ after.n = 0 ∧
        ∃ err, after.log.getLast?.map Entry.result = some (.error err) := by
  have parses := parseObjectInfo_replies git true plain
  rw [Batch.request, if_neg (not_not_intro n), r, nil_append]
  cases found : git revision with
  | ambiguous => exact absurd found clear
  | missing =>
    rw [found] at parses
    rw [parses]
    exact .inr ⟨rfl, n, _, by simp [Batch.returns]; rfl⟩
  | found object =>
    simp only [found, if_true] at parses
    rw [parses]
    dsimp only [GitObject.info]
    split
    · rw [if_neg (by simp)]
      exact .inr ⟨by simp [Batch.returns], rfl, _, by simp [Batch.returns]; rfl⟩
    · exact .inl ⟨object, rfl, rfl, rfl, by simp [Batch.returns]⟩

theorem request_of_idle (n : b.n = 0) (r : b.r = []) (handles : List Handle)
    (all : ∀ h ∈ handles, Owes git h []) (plain : newline ∉ revision)
    (expectedType : ObjectType) (clear : git revision ≠ .ambiguous)
    (same : s.batch.reader git revision expectedType = b.request git revision expectedType)
    (kept : s.handles = handles) : Framed git (s.request git revision expectedType) := by
  subst kept
  have outcome := request_idle n r plain expectedType clear
  rw [request, same]
  rcases outcome with ⟨object, found, unread, counter, result⟩ | ⟨unread, counter, err, result⟩
  · simp only [result]
    refine ⟨by simp [unread, counter], .inr ⟨s.handles, _, object.contents, rfl, all, ?_, unread⟩⟩
    exact ⟨object, found, rfl, rfl⟩
  · simp only [result]
    exact ⟨by simp [unread, counter], .inl ⟨unread, all⟩⟩

theorem Framed.request (framed : Framed git s) (plain : newline ∉ revision)
    (expectedType : ObjectType) (clear : git revision ≠ .ambiguous) :
    Framed git (s.request git revision expectedType) := by
  have n := framed.n
  rcases framed.readers with ⟨r, all⟩ | ⟨before, last, rest, handles, others, owes, r⟩
  · rw [r, length_nil] at n
    refine request_of_idle n r _ all plain expectedType clear ?_ rfl
    rw [Batch.reader, if_neg (by omega)]
  · rw [r, length_append, length_singleton] at n
    cases rest with
    | nil =>
      -- the linefeed is read first, and then nothing is left
      have idle : ({ s.batch with r := [], n := 0 } : Batch).n = 0 := rfl
      refine request_of_idle idle rfl _ (fun h member => ?_) plain expectedType clear ?_ handles
      · rcases mem_append.mp member with older | newest
        · exact others h older
        · rw [mem_singleton.mp newest]
          exact owes
      · rw [Batch.reader, if_pos (by simpa using n), r]
        rfl
    | cons c rest =>
      have unread : 1 < s.batch.n := by
        rw [length_cons] at n
        omega
      simp only [Readers.request, reader_of_unread unread, Batch.returns, getLast?_concat,
        Option.map_some]
      exact ⟨framed.n, framed.readers⟩

theorem read_ended {handle : Nat} {h : Handle} (found : s.handles[handle]? = some h)
    (ended : h.left = 0) (count : Nat) :
    s.read handle count = { s with panicked := decide (s.batch.n < 1) } := by
  obtain ⟨inside, same⟩ := List.getElem?_eq_some_iff.mp found
  have unset : s.handles.set handle h = s.handles := by
    rw [← same]
    exact set_getElem_self inside
  rw [read, found]
  simp only [ended, Nat.min_zero, take_zero, drop_zero, length_nil, Nat.sub_zero,
    append_nil, Int.natCast_zero, Int.sub_zero]
  rw [← ended, unset]

theorem Framed.read (framed : Framed git s) (running : s.panicked = false) (handle count : Nat) :
    ((s.read handle count).panicked = false → Framed git (s.read handle count)) ∧
      ((s.read handle count).panicked = false ↔ (handle < s.handles.length → s.batch.n ≠ 0)) := by
  have n := framed.n
  cases found : s.handles[handle]? with
  | none =>
    have outside := getElem?_eq_none_iff.mp found
    rw [Readers.read, found]
    exact ⟨fun _ => framed, iff_of_true running (fun inside => by omega)⟩
  | some h =>
    obtain ⟨inside, -⟩ := List.getElem?_eq_some_iff.mp found
    have member := mem_of_getElem? found
    simp only [inside, forall_const]
    rcases framed.readers with ⟨r, all⟩ | ⟨before, last, rest, handles, others, owes, r⟩
    · obtain ⟨-, -, -, ended⟩ := all h member
      have zero : s.batch.n = 0 := by simpa [r] using n
      rw [read_ended found ended]
      exact ⟨fun _ => ⟨n, .inl ⟨r, all⟩⟩, by simp [zero]⟩
    · have positive : s.batch.n = rest.length + 1 := by simpa [r] using n
      have place := found
      rw [handles, getElem?_append] at place
      split at place
      · obtain ⟨-, -, -, ended⟩ := others h (mem_of_getElem? place)
        rw [read_ended found ended]
        refine ⟨fun _ => ⟨framed.n, framed.readers⟩, ?_⟩
        simp only [decide_eq_false_iff_not]
        omega
      · obtain ⟨here, rfl⟩ : handle = before.length ∧ last = h := by
          rw [getElem?_singleton] at place
          split at place
          · exact ⟨by omega, Option.some.inj place⟩
          · cases place
        obtain ⟨object, known, contents, left⟩ := owes
        have bytes : s.batch.r.take (min count last.left) = rest.take count := by
          rw [r, left, take_append_of_le_length (Nat.min_le_right _ _), ← take_eq_take_min]
        have unread : s.batch.r.drop (min count last.left) = rest.drop count ++ [newline] := by
          rw [r, left, drop_append_of_le_length (Nat.min_le_right _ _), ← drop_eq_drop_min]
        rw [Readers.read, found]
        simp only [bytes, unread, handles, here, set_append_right _ _ (Nat.le_refl _),
          Nat.sub_self, set_cons_zero]
        refine ⟨fun _ => ⟨?_, .inr ⟨before, _, rest.drop count, rfl, others,
          ⟨object, known, ?_, ?_⟩, rfl⟩⟩, ?_⟩
        · simp [positive]
          omega
        · rw [contents, append_assoc, take_append_drop]
        · simp [left]
          omega
        · simp only [decide_eq_false_iff_not, positive, length_take]
          omega

end steps

/-- For any requests and reads, each reader gets its own object, the number is right and nothing
panics exactly if no reader is read again after a request that gave no object. -/
theorem sound_throughout_iff {git : Git} (clear : ∀ revision, git revision ≠ .ambiguous)
    (accesses : List Access) :
    Throughout (step git) (Sound git) start accesses ↔
      Along (step git) Awake start accesses := by
  have total : ∀ s access, ∃ next, step git s access = some next := by
    intro s access
    unfold step
    split
    · exact ⟨s, rfl⟩
    · cases access <;> exact ⟨_, rfl⟩
  obtain ⟨final, run⟩ := exec_of_total total start accesses
  have initial : Framed git start := ⟨rfl, .inl ⟨rfl, by simp [start]⟩⟩
  have preserved : ∀ s access next, (s.panicked = false → Framed git s) →
      step git s access = some next → next.panicked = false → Framed git next := by
    intro s access next framed taken running
    unfold step at taken
    split at taken
    · cases taken
      exact framed running
    rename_i clean
    have framed := framed (Bool.eq_false_iff.mpr clean)
    cases access <;> cases taken
    · exact framed.request ‹_› _ (clear _)
    · exact (framed.read (Bool.eq_false_iff.mpr clean) _ _).1 running
  refine throughout_iff_along run preserved ?_ (fun _ => initial) (initial.sound rfl)
  intro s access next framed sound taken
  have after := preserved s access next framed taken
  have framed := framed sound.running
  have holds : Sound git next ↔ next.panicked = false :=
    ⟨Sound.running, fun running => (after running).sound running⟩
  rw [holds]
  rw [step.eq_def, if_neg (by simp [sound.running])] at taken
  cases access with
  | request revision plain expectedType =>
    cases taken
    refine iff_of_true ?_ trivial
    rw [Readers.request]
    split <;> exact sound.running
  | read handle count =>
    cases taken
    simp only [(framed.read sound.running handle count).2, Awake, sound.running, forall_const]

/-- An object of one byte, under one name. -/
def oneByte : Git := fun revision =>
  if revision = ascii "a" then .found ⟨replicate 40 48, .blob, [120], rfl, by decide⟩
  else .missing

/-- The reader of an object that is read to its end panics after a request for another one that
is missing. -/
theorem ended_reader_panics :
    (exec (step oneByte) start [.request (ascii "a") (by decide) .blob, .read 0 9,
      .read 0 9]).map Readers.panicked = some false ∧
    (exec (step oneByte) start [.request (ascii "a") (by decide) .blob, .read 0 9, .read 0 9,
      .request (ascii "b") (by decide) .blob, .read 0 9]).map Readers.panicked = some true := by
  decide +kernel

/-- Until then a reader may be read at its end. -/
theorem ended_reader_sound :
    Throughout (step oneByte) (Sound oneByte) start
      [.request (ascii "a") (by decide) .blob, .read 0 9, .read 0 9] := by
  refine (sound_throughout_iff (fun revision => ?_) _).mpr ⟨trivial, fun first taken => ?_⟩
  · unfold oneByte
    split <;> simp
  · cases taken
    refine ⟨fun _ _ => by decide +kernel, fun second taken => ?_⟩
    cases taken
    exact ⟨fun _ _ => by decide +kernel, fun _ _ => trivial⟩

end Readers

end Gitaly.Catfile
