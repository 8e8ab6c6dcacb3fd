import Gitaly.Streamcache.Pipe
import Mathlib.Data.Option.Basic
import Mathlib.Logic.Function.Basic

/- The cache of internal/streamcache: cache.go. An entry is in the index under its key while a
goroutine writes it and any number of readers read it. A step is one section under the cache's
lock, one step of a pipe, or one step of a goroutine that `newEntry` has started. -/
namespace Gitaly.Streamcache

open Runs

open List

open Option Function

inductive CreateError where
  | create (err : String)
  | panic (value : String)
  | close (err : Error)
  deriving DecidableEq

/-- Where the goroutine of an entry is. -/
inductive Creation where
  | creating
  /-- `create` has returned without an error. -/
  | created
  /-- The deferred `Close` comes next. -/
  | deferred (err : Option CreateError)
  /-- `runCreate` has returned. -/
  | finished (err : Option CreateError)
  /-- The waiter has the error. -/
  | reported (err : Option CreateError)
  /-- The key was deleted. -/
  | deleted (err : CreateError)
  deriving DecidableEq

def Creation.err : Creation → Option CreateError
  | .creating | .created => none
  | .deferred err | .finished err | .reported err => err
  | .deleted err => some err

structure Entry where
  key : String
  created : Int
  pipe : Pipe
  creation : Creation

/-- `entries` are all that were made; the index has them by their place. -/
structure Cache where
  maxAge : Int
  index : String → Option Nat
  entries : List Entry
  now : Int

/-- A reader of the pipe of an entry. -/
structure Stream where
  entry : Nat
  reader : Nat

def Event.writes : Event → Bool
  | .write _ | .checkWrite | .writerDone | .writerNotified | .append _ | .written _
  | .setPosition => true
  | _ => false

def Event.reads : Event → Bool
  | .closeReader _ | .closeFile _ | .read _ _ | .writeTo _ _ | .checkRead _ | .readerDone _
  | .readerNotified _ | .readFile _ _ _ | .sendfile _ _ _ | .advance _ _ => true
  | _ => false

/-- What happens to an entry outside the lock. -/
inductive EntryEvent where
  | pipe (event : Event)
  | create (err : Option String)
  | panic (value : String)
  | close (errClose : Option Error)
  | setError

inductive CacheEvent where
  | tick (elapsed : Nat)
  | clean
  /-- `openFails`: the file of the entry that is found cannot be opened. `errCreate`, `newFails`:
  the file of a new entry cannot be created, or not opened for its first reader. -/
  | findOrCreate (key : String) (openFails : Bool) (errCreate : Option Error) (newFails : Bool)
  | entry (place : Nat) (event : EntryEvent)
  | deleteFailed (place : Nat)

/-- `create` writes to the pipe, and `runCreate` closes it twice. -/
def Entry.step (e : Entry) : EntryEvent → Option Entry
  | .pipe event =>
    if event.reads ∨ event.writes ∧ e.creation = .creating then
      (e.pipe.step event).map (fun pipe => { e with pipe := pipe })
    else none
  | .create err =>
    if e.creation = .creating ∧ e.pipe.stage = .idle then
      match err with
      | none => some { e with creation := .created }
      | some err => some { e with creation := .deferred (some (.create err)) }
    else none
  | .panic value =>
    if e.creation = .creating ∧ e.pipe.stage = .idle then
      some { e with creation := .deferred (some (.panic value)) }
    else none
  | .close errClose =>
    match e.creation with
    | .created =>
      (e.pipe.step (.close errClose)).map (fun pipe =>
        { e with
          pipe := pipe
          creation := .deferred ((e.pipe.Close errClose).2.map .close) })
    | .deferred err =>
      (e.pipe.step (.close errClose)).map (fun pipe =>
        { e with pipe := pipe, creation := .finished err })
    | _ => none
  | .setError =>
    match e.creation with
    | .finished err => some { e with creation := .reported err }
    | _ => none

theorem Entry.step_key {e moved : Entry} {event : EntryEvent} (taken : e.step event = some moved) :
    moved.key = e.key := by
  cases event with
  | pipe event =>
    simp only [Entry.step] at taken
    split at taken
    · obtain ⟨pipe, stepped, rfl⟩ := map_eq_some_iff.mp taken
      rfl
    · cases taken
  | close errClose =>
    simp only [Entry.step] at taken
    split at taken
    · obtain ⟨pipe, stepped, rfl⟩ := map_eq_some_iff.mp taken
      rfl
    · obtain ⟨pipe, stepped, rfl⟩ := map_eq_some_iff.mp taken
      rfl
    · cases taken
  | create | panic | setError =>
    simp only [Entry.step] at taken
    repeat' split at taken
    all_goals cases taken
    all_goals rfl

namespace Cache

def newCache (maxAge now : Int) : Cache := ⟨maxAge, fun _ => none, [], now⟩

def delete (c : Cache) (key : String) : Cache :=
  { c with index := Function.update c.index key none }

def put (c : Cache) (place : Nat) (e : Entry) : Cache := { c with entries := c.entries.set place e }

def clean (c : Cache) : Cache :=
  let cutoff := c.now - c.maxAge
  { c with
    index := fun key => (c.index key).filter (fun place =>
      !(c.entries[place]?).any (fun e => e.created < cutoff)) }

def newEntry (c : Cache) (key : String) (errCreate : Option Error) (newFails : Bool) :
    Except Error Entry :=
  match errCreate with
  | some err => .error err
  | none => if newFails then .error .os else .ok ⟨key, c.now, Pipe.newPipe, .creating⟩

/-- The end of `FindOrCreate`, if nothing was found. -/
def create (c : Cache) (key : String) (errCreate : Option Error) (newFails : Bool) :
    Cache × Except Error (Stream × Bool) :=
  match c.newEntry key errCreate newFails with
  | .error err => (c, .error err)
  | .ok e =>
    ({ c with
        index := Function.update c.index key (some c.entries.length)
        entries := c.entries ++ [e] }, .ok (⟨c.entries.length, 0⟩, true))

def stored (c : Cache) (key : String) : Option (Nat × Entry) :=
  (c.index key).bind (fun place => (c.entries[place]?).map (place, ·))

def FindOrCreate (c : Cache) (key : String) (openFails : Bool) (errCreate : Option Error)
    (newFails : Bool) : Cache × Except Error (Stream × Bool) :=
  match c.stored key with
  | none => c.create key errCreate newFails
  | some (place, e) =>
    match e.pipe.OpenReader openFails with
    | (pipe, none) =>
      (c.put place { e with pipe := pipe }, .ok (⟨place, e.pipe.readers.length⟩, false))
    | (_, some _) => (c.delete key).create key errCreate newFails

def step (c : Cache) : CacheEvent → Option Cache
  | .tick elapsed => some { c with now := c.now + elapsed }
  | .clean => some c.clean
  | .findOrCreate key openFails errCreate newFails =>
    some (c.FindOrCreate key openFails errCreate newFails).1
  | .entry place event => (c.entries[place]?).bind (fun e => (e.step event).map (c.put place))
  | .deleteFailed place =>
    (c.entries[place]?).bind (fun e =>
      match e.creation with
      | .reported (some err) =>
        some ((c.put place { e with creation := .deleted err }).delete e.key)
      | _ => none)

/-- What an entry may disappear for: it was not created, it is older than `maxAge`, or it cannot be
opened. -/
def Fault (c : Cache) (event : CacheEvent) (e : Entry) : Prop :=
  e.creation.err ≠ none ∨ e.created < c.now - c.maxAge ∨
    ∃ openFails errCreate newFails,
      event = .findOrCreate e.key openFails errCreate newFails ∧
        (e.pipe.OpenReader openFails).2 ≠ none

/-- An entry that the step takes out of the index is at fault. -/
def RemovesAtFault (c : Cache) (event : CacheEvent) : Prop :=
  ∀ next, c.step event = some next →
    ∀ key place, c.index key = some place → next.index key ≠ some place →
      ∃ e, c.entries[place]? = some e ∧ c.Fault event e

structure Inv (c : Cache) : Prop where
  indexed : ∀ key place, c.index key = some place → ∃ e, c.entries[place]? = some e ∧ e.key = key

variable {c next : Cache} {key : String} {place : Nat} {e moved : Entry}

theorem newCache_inv (maxAge now : Int) : (newCache maxAge now).Inv := ⟨nofun⟩

theorem stored_eq_some {found : Nat × Entry} :
    c.stored key = some found ↔
      c.index key = some found.1 ∧ c.entries[found.1]? = some found.2 := by
  simp only [stored, bind_eq_some_iff, map_eq_some_iff]
  constructor
  · rintro ⟨place, indexed, e, made, rfl⟩
    exact ⟨indexed, made⟩
  · rintro ⟨indexed, made⟩
    exact ⟨found.1, indexed, found.2, made, rfl⟩

theorem Inv.stored (inv : c.Inv) (indexed : c.index key = some place) :
    ∃ e, c.stored key = some (place, e) ∧ c.entries[place]? = some e ∧ e.key = key := by
  obtain ⟨e, made, same⟩ := inv.indexed key place indexed
  exact ⟨e, stored_eq_some.mpr ⟨indexed, made⟩, made, same⟩

theorem Inv.put (inv : c.Inv) (made : c.entries[place]? = some e) (same : moved.key = e.key) :
    (c.put place moved).Inv := by
  refine ⟨fun key other indexed => ?_⟩
  obtain ⟨before, found, isKey⟩ := inv.indexed key other indexed
  by_cases here : place = other
  · subst here
    cases made.symm.trans found
    refine ⟨moved, ?_, same.trans isKey⟩
    exact List.getElem?_set_self (List.getElem?_eq_some_iff.mp made).1
  · exact ⟨before, (getElem?_set_ne here).trans found, isKey⟩

theorem delete_index (key other : String) (place : Nat) :
    (c.delete key).index other = some place ↔ other ≠ key ∧ c.index other = some place := by
  unfold delete
  by_cases same : other = key
  · subst same
    simp
  · simp [same]

theorem clean_index (key : String) (place : Nat) :
    c.clean.index key = some place ↔ c.index key = some place ∧
      ∀ e, c.entries[place]? = some e → ¬ e.created < c.now - c.maxAge := by
  simp only [clean, filter_eq_some_iff]
  cases c.entries[place]? <;> simp

theorem Inv.delete (inv : c.Inv) (key : String) : (c.delete key).Inv :=
  ⟨fun other place indexed => inv.indexed other place ((delete_index key other place).mp indexed).2⟩

theorem Inv.clean (inv : c.Inv) : c.clean.Inv :=
  ⟨fun key place indexed => inv.indexed key place ((clean_index key place).mp indexed).1⟩

theorem create_cases (c : Cache) (key : String) (errCreate : Option Error) (newFails : Bool) :
    (c.create key errCreate newFails).1 = c ∨
      (c.create key errCreate newFails).1 = { c with
        index := Function.update c.index key (some c.entries.length)
        entries := c.entries ++ [⟨key, c.now, Pipe.newPipe, .creating⟩] } := by
  cases errCreate with
  | some err => exact .inl rfl
  | none =>
    cases newFails with
    | true => exact .inl rfl
    | false => exact .inr rfl

theorem create_index_of_ne {other : String} (different : other ≠ key) (errCreate : Option Error)
    (newFails : Bool) : (c.create key errCreate newFails).1.index other = c.index other := by
  rcases create_cases c key errCreate newFails with same | joined
  · rw [same]
  · rw [joined]
    exact update_of_ne different _ _

theorem Inv.create (inv : c.Inv) (key : String) (errCreate : Option Error) (newFails : Bool) :
    (c.create key errCreate newFails).1.Inv := by
  rcases create_cases c key errCreate newFails with same | joined
  · rw [same]
    exact inv
  rw [joined]
  refine ⟨fun other place indexed => ?_⟩
  dsimp only at indexed
  by_cases same : other = key
  · subst same
    rw [update_self] at indexed
    cases indexed
    exact ⟨_, getElem?_concat_length, rfl⟩
  · rw [update_of_ne same] at indexed
    obtain ⟨e, made, isKey⟩ := inv.indexed other place indexed
    have inside := (List.getElem?_eq_some_iff.mp made).1
    exact ⟨e, (getElem?_append_left inside).trans made, isKey⟩

/-- An entry that is found and can be opened gets a reader; otherwise the key is deleted and a new
entry may be made. -/
theorem FindOrCreate_cases (c : Cache) (key : String) (openFails : Bool)
    (errCreate : Option Error) (newFails : Bool) :
    (∃ place e, c.stored key = some (place, e) ∧ (e.pipe.OpenReader openFails).2 = none ∧
      (c.FindOrCreate key openFails errCreate newFails).1 =
        c.put place { e with pipe := (e.pipe.OpenReader openFails).1 }) ∨
    (∃ place e, c.stored key = some (place, e) ∧ (e.pipe.OpenReader openFails).2 ≠ none ∧
      (c.FindOrCreate key openFails errCreate newFails).1 =
        ((c.delete key).create key errCreate newFails).1) ∨
    c.stored key = none ∧ (c.FindOrCreate key openFails errCreate newFails).1 =
      (c.create key errCreate newFails).1 := by
  unfold FindOrCreate
  cases found : c.stored key with
  | none => exact .inr (.inr ⟨rfl, rfl⟩)
  | some stored =>
    obtain ⟨place, e⟩ := stored
    dsimp only
    split
    · rename_i opened
      exact .inl ⟨place, e, rfl, by rw [opened], by rw [opened]⟩
    rename_i err opened
    refine .inr (.inl ⟨place, e, rfl, ?_, rfl⟩)
    rw [opened]
    exact some_ne_none err

variable {event : CacheEvent}

theorem step_inv (inv : c.Inv) (taken : c.step event = some next) :
    next.Inv := by
  cases event with
  | tick elapsed =>
    cases taken
    exact { inv with }
  | clean =>
    cases taken
    exact inv.clean
  | findOrCreate key openFails errCreate newFails =>
    cases taken
    rcases FindOrCreate_cases c key openFails errCreate newFails with
      ⟨place, e, stored, _, result⟩ | ⟨_, _, _, _, result⟩ | ⟨_, result⟩
    · rw [result]
      exact inv.put (stored_eq_some.mp stored).2 rfl
    · rw [result]
      exact (inv.delete key).create key errCreate newFails
    · rw [result]
      exact inv.create key errCreate newFails
  | entry place event =>
    simp only [step, bind_eq_some_iff, map_eq_some_iff] at taken
    obtain ⟨e, made, moved, stepped, rfl⟩ := taken
    exact inv.put made (Entry.step_key stepped)
  | deleteFailed place =>
    obtain ⟨e, made, taken⟩ := bind_eq_some_iff.mp taken
    split at taken
    · cases taken
      refine Inv.delete (inv.put made ?_) e.key
      rfl
    · cases taken

/-- An entry is taken out of the index because it is at fault, or by the goroutine of a failed entry
of the same key. -/
theorem removal (taken : c.step event = some next) (indexed : c.index key = some place)
    (made : c.entries[place]? = some e) (isKey : e.key = key) (gone : next.index key ≠ some place) :
    c.Fault event e ∨
      ∃ failed own, event = .deleteFailed failed ∧ c.entries[failed]? = some own ∧
        own.creation.err ≠ none ∧ own.key = key := by
  cases event with
  | tick elapsed =>
    cases taken
    exact absurd indexed gone
  | clean =>
    cases taken
    rw [ne_eq, clean_index] at gone
    refine .inl (.inr (.inl ?_))
    by_contra young
    exact gone ⟨indexed, fun other found => by cases made.symm.trans found; exact young⟩
  | findOrCreate asked openFails errCreate newFails =>
    cases taken
    rcases FindOrCreate_cases c asked openFails errCreate newFails with
      ⟨_, _, _, _, result⟩ | ⟨other, found, stored, fails, result⟩ | ⟨none, result⟩
    · rw [result] at gone
      exact absurd indexed gone
    · by_cases same : key = asked
      · subst same
        obtain ⟨here, there⟩ := stored_eq_some.mp stored
        cases here.symm.trans indexed
        cases there.symm.trans made
        exact .inl (.inr (.inr ⟨openFails, errCreate, newFails, by rw [isKey], fails⟩))
      · rw [result, create_index_of_ne same, ne_eq, delete_index] at gone
        exact absurd ⟨same, indexed⟩ gone
    · by_cases same : key = asked
      · subst same
        have stored : c.stored key = some (place, e) := stored_eq_some.mpr ⟨indexed, made⟩
        cases stored.symm.trans none
      · rw [result, create_index_of_ne same] at gone
        exact absurd indexed gone
  | entry other event =>
    simp only [step, bind_eq_some_iff, map_eq_some_iff] at taken
    obtain ⟨_, _, moved, stepped, rfl⟩ := taken
    exact absurd indexed gone
  | deleteFailed failed =>
    obtain ⟨own, found, taken⟩ := bind_eq_some_iff.mp taken
    split at taken
    · rename_i err reported
      cases taken
      refine .inr ⟨failed, own, rfl, found, ?_, ?_⟩
      · rw [reported]
        exact some_ne_none err
      · by_contra different
        rw [ne_eq, delete_index] at gone
        exact gone ⟨Ne.symm different, indexed⟩
    · cases taken

/-- The only reader of the first entry goes away while its writer waits with the next bytes; the
second call cannot open the broken pipe and makes a new entry, and then the writer fails. -/
def reconnect : List CacheEvent :=
  [.findOrCreate "k" false none false, .entry 0 (.pipe (.write [1])), .entry 0 (.pipe .checkWrite),
    .entry 0 (.pipe (.append 1)), .entry 0 (.pipe (.written none)), .entry 0 (.pipe .setPosition),
    .entry 0 (.pipe (.write [2])), .entry 0 (.pipe .checkWrite),
    .entry 0 (.pipe (.closeReader 0)), .findOrCreate "k" false none false,
    .entry 0 (.pipe .writerDone), .entry 0 (.create (some "write: pipe broken")),
    .entry 0 (.close none), .entry 0 .setError]

theorem reconnect_removed :
    ∃ before e after, exec step (newCache 300 0) reconnect = some before ∧
      before.index "k" = some 1 ∧ before.entries[1]? = some e ∧
      e.creation = .creating ∧ e.created = before.now ∧ (e.pipe.OpenReader false).2 = none ∧
      before.step (.deleteFailed 0) = some after ∧ after.index "k" = none ∧
      ¬ before.RemovesAtFault (.deleteFailed 0) := by
  refine ⟨_, _, _, rfl, rfl, rfl, rfl, rfl, rfl, rfl, rfl, fun removes => ?_⟩
  obtain ⟨e, made, failed | old | ⟨_, _, _, other, _⟩⟩ := removes _ rfl "k" 1 rfl nofun
  · cases made
    exact failed rfl
  · cases made
    revert old
    decide
  · cases other

end Cache

/-- The goroutine may still delete the key of its entry. -/
def Creation.mayDelete : Creation → Bool
  | .creating | .created | .deferred _ | .finished _ | .reported (some _) => true
  | .reported none | .deleted _ => false

theorem Entry.step_mayDelete {e moved : Entry} {event : EntryEvent}
    (taken : e.step event = some moved) (may : moved.creation.mayDelete = true) :
    e.creation.mayDelete = true := by
  cases event with
  | pipe event =>
    simp only [Entry.step] at taken
    split at taken
    · obtain ⟨pipe, stepped, rfl⟩ := map_eq_some_iff.mp taken
      exact may
    · cases taken
  | create | panic | close | setError =>
    -- The stage that the event needs is one in which the goroutine is not through.
    simp only [Entry.step] at taken
    split at taken
    all_goals grind [Creation.mayDelete]

namespace Cache

/-- A new entry is made only when the goroutines of the earlier ones of its key are through. -/
def Patient (c : Cache) : CacheEvent → Prop
  | .findOrCreate key openFails _ _ =>
    (∃ place e, c.stored key = some (place, e) ∧ (e.pipe.OpenReader openFails).2 = none) ∨
      ∀ e ∈ c.entries, e.key = key → e.creation.mayDelete = false
  | _ => True

/-- What a goroutine may delete is its own entry. -/
def Sole (c : Cache) : Prop :=
  ∀ place e, c.entries[place]? = some e → e.creation.mayDelete = true →
    ∀ other, c.index e.key = some other → other = place

variable {c next : Cache} {key : String} {place : Nat} {e moved : Entry}

theorem newCache_sole (maxAge now : Int) : (newCache maxAge now).Sole := by
  intro place e made
  simp [newCache] at made

theorem Sole.put (sole : c.Sole) (made : c.entries[place]? = some e) (same : moved.key = e.key)
    (may : moved.creation.mayDelete = true → e.creation.mayDelete = true) :
    (c.put place moved).Sole :=
  indexed_moved (fun other found _ => sole other found)
    (fun still other indexed => sole place e made (may still) other (same ▸ indexed))

theorem Sole.delete (sole : c.Sole) (key : String) : (c.delete key).Sole :=
  fun place e made may other indexed =>
    sole place e made may other ((delete_index key e.key other).mp indexed).2

theorem Sole.clean (sole : c.Sole) : c.clean.Sole :=
  fun place e made may other indexed =>
    sole place e made may other ((clean_index e.key other).mp indexed).1

theorem Sole.create (sole : c.Sole)
    (settled : ∀ e ∈ c.entries, e.key = key → e.creation.mayDelete = false)
    (errCreate : Option Error) (newFails : Bool) : (c.create key errCreate newFails).1.Sole := by
  rcases create_cases c key errCreate newFails with same | joined
  · rw [same]
    exact sole
  rw [joined]
  refine indexed_joined (fun place e made may other indexed => ?_) ?_
  · have different : e.key ≠ key := by
      intro same
      rw [settled e (mem_of_getElem? made) same] at may
      cases may
    dsimp only at indexed
    rw [update_of_ne different] at indexed
    exact sole place e made may other indexed
  · intro _ other indexed
    dsimp only at indexed
    rw [update_self] at indexed
    exact (Option.some.inj indexed).symm

theorem step_sole {event : CacheEvent} (sole : c.Sole) (patient : c.Patient event)
    (taken : c.step event = some next) : next.Sole := by
  cases event with
  | tick elapsed =>
    cases taken
    exact sole
  | clean =>
    cases taken
    exact sole.clean
  | findOrCreate key openFails errCreate newFails =>
    cases taken
    rcases FindOrCreate_cases c key openFails errCreate newFails with
      ⟨place, e, stored, _, result⟩ | ⟨place, e, stored, fails, result⟩ | ⟨none, result⟩
    · rw [result]
      exact sole.put (stored_eq_some.mp stored).2 rfl id
    · rw [result]
      have settled := patient.resolve_left (by
        rintro ⟨other, found, here, opens⟩
        cases here.symm.trans stored
        exact fails opens)
      exact (sole.delete key).create settled errCreate newFails
    · rw [result]
      have settled := patient.resolve_left (by
        rintro ⟨other, found, here, _⟩
        cases here.symm.trans none)
      exact sole.create settled errCreate newFails
  | entry place event =>
    simp only [step, bind_eq_some_iff, map_eq_some_iff] at taken
    obtain ⟨e, made, moved, stepped, rfl⟩ := taken
    exact sole.put made (Entry.step_key stepped) (Entry.step_mayDelete stepped)
  | deleteFailed place =>
    obtain ⟨e, made, taken⟩ := bind_eq_some_iff.mp taken
    split at taken
    · rename_i err reported
      cases taken
      have moved : (c.put place { e with creation := .deleted err }).Sole := sole.put made rfl nofun
      exact moved.delete e.key
    · cases taken

/-- What a goroutine may delete is its own failed entry. -/
theorem Sole.removesAtFault (sole : c.Sole) (inv : c.Inv) (event : CacheEvent) :
    c.RemovesAtFault event := by
  intro next taken key place indexed gone
  obtain ⟨e, -, made, isKey⟩ := inv.stored indexed
  refine ⟨e, made, ?_⟩
  rcases removal taken indexed made isKey gone with fault | ⟨failed, own, rfl, found, err, same⟩
  · exact fault
  have may : own.creation.mayDelete = true := by
    simp only [step, found, bind_some] at taken
    split at taken
    · rename_i err reported
      rw [reported]
      rfl
    · cases taken
  obtain rfl := sole failed own found may place (same ▸ indexed)
  cases found.symm.trans made
  exact .inl err

/-- An entry disappears only for its own fault if no entry is made for a key before the goroutines
of its earlier entries are through. -/
theorem removed_at_fault_of_patient {maxAge now : Int} {events : List CacheEvent}
    (patient : Along step Patient (newCache maxAge now) events) :
    Along step RemovesAtFault (newCache maxAge now) events := by
  refine patient.imp_of_invariant (fun c => c.Inv ∧ c.Sole) ?_ ?_
    ⟨newCache_inv maxAge now, newCache_sole maxAge now⟩
  · rintro c event next ⟨inv, sole⟩ patient taken
    exact ⟨step_inv inv taken, step_sole sole patient taken⟩
  · rintro c event ⟨inv, sole⟩ -
    exact sole.removesAtFault inv event

theorem failed_creation_patient :
    Along step RemovesAtFault (newCache 300 0)
      [.findOrCreate "k" false none false, .entry 0 (.create (some "exit status 128")),
        .entry 0 (.close none), .entry 0 .setError, .deleteFailed 0] := by
  apply removed_at_fault_of_patient
  refine ⟨.inr ?_, fun _ _ => ?_⟩
  · intro e member
    cases member
  · refine ⟨trivial, fun _ _ => ⟨trivial, fun _ _ => ⟨trivial, fun _ _ => ⟨trivial, ?_⟩⟩⟩⟩
    exact fun _ _ => trivial

end Cache

end Gitaly.Streamcache
