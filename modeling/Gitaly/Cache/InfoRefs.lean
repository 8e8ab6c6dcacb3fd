import Gitaly.Base.KeyedTable
import Gitaly.Base.Numeral
import Gitaly.Base.Runs
import Gitaly.Base.Text
import Mathlib.Order.Lattice

/- The responses to info-refs requests of one repository in the disk cache:
internal/cache/keyer.go and diskcache.go under internal/gitaly/service/smarthttp/cache.go. A step
is one access to the repository, to its state files or to the stored streams. -/
namespace Gitaly.Cache

open Runs List KeyedTable Option

/-- Where a call of `keyPath` is. -/
inductive KeyStage where
  | listing
  /-- The stale leases of the listing to remove, and whether there is a valid one. -/
  | clearing (stale : List Nat) (anyValidPending : Bool)
  | reading
  /-- There is no latest file. -/
  | writing
  | keyed (genID : Nat)
  /-- ErrPendingExists -/
  | pendingExists
  deriving DecidableEq

/-- Where a call of `tryCache` is. A response is the number of the repository's changes before it
was generated. -/
inductive Stage where
  | getStream (key : KeyStage)
  /-- After a miss the response is generated while `PutStream` runs. -/
  | putStream (key : KeyStage) (generated : Option Nat)
  | stored
  | hit (response : Nat)
  | uncached
  deriving DecidableEq

namespace Stage

def key : Stage → Option KeyStage
  | .getStream key | .putStream key _ => some key
  | .stored | .hit _ | .uncached => none

def withKey (next : KeyStage) : Stage → Stage
  | .getStream _ => .getStream next
  | .putStream _ generated => .putStream next generated
  | other => other

def generated : Stage → Option Nat
  | .putStream _ generated => generated
  | _ => none

end Stage

/-- `floor` is the last change of a mutation that had ended when the call began. -/
structure Call where
  request : String
  floor : Nat
  stage : Stage
  deriving DecidableEq

inductive MutationStage where
  | starting
  /-- The latest file is removed. -/
  | leasing
  | leased
  /-- `EndLease` has updated the latest file. -/
  | updated
  | ended
  deriving DecidableEq

/-- `changed` is the mutation's last change. -/
structure Mutation where
  stage : MutationStage
  changed : Nat
  deriving DecidableEq

/-- `version` counts the changes of the repository. `generations` has for every generation that
was ever written the last change of a mutation that had updated the latest file by then, which
for the mutations up to now is `updated`, and `ended` for those that have ended. A pending lease
is named by its mutation and may be stale. -/
structure World where
  version : Nat
  updated : Nat
  ended : Nat
  generations : List Nat
  latest : Option Nat
  pending : List (Nat × Bool)
  streams : KeyedTable ((Nat × String) × Nat) (Nat × String) Prod.fst
  mutations : List Mutation
  calls : List Call

inductive Event where
  | startLease
  | removeLatest (mutation : Nat)
  | createPending (mutation : Nat)
  | change (mutation : Nat)
  | updateLatest (mutation : Nat)
  | removePending (mutation : Nat)
  /-- An hour goes by. -/
  | age (mutation : Nat)
  | tryCache (request : String)
  | currentLeases (call : Nat)
  | clear (call : Nat)
  | currentGenID (call : Nat)
  | writeLatest (call : Nat)
  | giveUp (call : Nat)
  | openStream (call : Nat)
  | generate (call : Nat)
  | commit (call : Nat)
  | clean (genID : Nat) (request : String)

namespace World

def initial : World where
  version := 0
  updated := 0
  ended := 0
  generations := []
  latest := none
  pending := []
  streams := .empty
  mutations := []
  calls := []

def move (w : World) (call : Nat) (c : Call) (stage : Stage) : World :=
  { w with calls := w.calls.set call { c with stage := stage } }

def mutate (w : World) (mutation : Nat) (m : Mutation) : World :=
  { w with mutations := w.mutations.set mutation m }

/-- `updateLatest`: the new generation is one that was never used. -/
def newLatest (w : World) (updated : Nat) : World :=
  { w with
    updated := updated
    generations := w.generations ++ [updated]
    latest := some w.generations.length }

def step (w : World) : Event → Option World
  | .startLease => some { w with mutations := w.mutations ++ [⟨.starting, 0⟩] }
  | .removeLatest mutation =>
    (w.mutations[mutation]?).bind (fun m =>
      if m.stage = .starting then
        some ({ w with latest := none }.mutate mutation { m with stage := .leasing })
      else none)
  | .createPending mutation =>
    (w.mutations[mutation]?).bind (fun m =>
      if m.stage = .leasing then
        some ({ w with pending := w.pending ++ [(mutation, false)] }.mutate mutation
          { m with stage := .leased })
      else none)
  | .change mutation =>
    (w.mutations[mutation]?).bind (fun m =>
      if m.stage = .leased then
        some ({ w with version := w.version + 1 }.mutate mutation
          { m with changed := w.version + 1 })
      else none)
  | .updateLatest mutation =>
    (w.mutations[mutation]?).bind (fun m =>
      if m.stage = .leased then
        some ((w.newLatest (max w.updated m.changed)).mutate mutation { m with stage := .updated })
      else none)
  | .removePending mutation =>
    (w.mutations[mutation]?).bind (fun m =>
      if m.stage = .updated then
        -- ErrMissingLeaseFile if the lease was removed as stale
        some ({ w with
          pending := w.pending.filter (fun lease => lease.1 ≠ mutation)
          ended := max w.ended m.changed }.mutate mutation { m with stage := .ended })
      else none)
  | .age mutation =>
    some { w with
      pending := w.pending.map (fun lease =>
        if lease.1 = mutation then (lease.1, true) else lease) }
  | .tryCache request =>
    some { w with calls := w.calls ++ [⟨request, w.ended, .getStream .listing⟩] }
  | .currentLeases call =>
    (w.calls[call]?).bind (fun c =>
      if c.stage.key = some .listing then
        some (w.move call c (c.stage.withKey (.clearing
          ((w.pending.filter (fun lease => lease.2)).map Prod.fst)
          (w.pending.any (fun lease => !lease.2)))))
      else none)
  | .clear call =>
    (w.calls[call]?).bind (fun c =>
      match c.stage.key with
      | some (.clearing (lease :: rest) anyValidPending) =>
        some ({ w with pending := w.pending.filter (fun other => other.1 ≠ lease) }.move call c
          (c.stage.withKey (.clearing rest anyValidPending)))
      | some (.clearing [] anyValidPending) =>
        some (w.move call c
          (c.stage.withKey (if anyValidPending then .pendingExists else .reading)))
      | _ => none)
  | .currentGenID call =>
    (w.calls[call]?).bind (fun c =>
      if c.stage.key = some .reading then
        match w.latest with
        | some genID => some (w.move call c (c.stage.withKey (.keyed genID)))
        | none => some (w.move call c (c.stage.withKey .writing))
      else none)
  | .writeLatest call =>
    (w.calls[call]?).bind (fun c =>
      if c.stage.key = some .writing then
        some ((w.newLatest w.updated).move call c (c.stage.withKey (.keyed w.generations.length)))
      else none)
  | .giveUp call =>
    (w.calls[call]?).bind (fun c =>
      if c.stage = .getStream .pendingExists then some (w.move call c .uncached) else none)
  | .openStream call =>
    (w.calls[call]?).bind (fun c =>
      match c.stage with
      | .getStream (.keyed genID) =>
        match w.streams.find (genID, c.request) with
        | some stream => some (w.move call c (.hit stream.2))
        | none => some (w.move call c (.putStream .listing none))
      | _ => none)
  | .generate call =>
    (w.calls[call]?).bind (fun c =>
      match c.stage with
      | .putStream key none => some (w.move call c (.putStream key (some w.version)))
      | _ => none)
  | .commit call =>
    (w.calls[call]?).bind (fun c =>
      match c.stage with
      | .putStream (.keyed genID) (some response) =>
        some ({ w with streams := w.streams.put ((genID, c.request), response) }.move call c
          .stored)
      | _ => none)
  | .clean genID request =>
    some { w with streams := w.streams.delete (fun stream => stream.1 = (genID, request)) }

end World

/-- A response is not older than a mutation that had ended when the call began. -/
def World.Current (w : World) : Prop :=
  ∀ c ∈ w.calls, ∀ response, c.stage = .hit response → c.floor ≤ response

/-- When `PutStream` gets its generation, the response, if it is generated already, is not older
than a mutation that has updated the latest file. -/
def World.Timely (w : World) : Event → Prop
  | .currentGenID call => w.latest.isSome → ∀ c ∈ w.calls[call]?,
      ∀ response ∈ c.stage.generated, w.updated ≤ response
  | .writeLatest call => ∀ c ∈ w.calls[call]?,
      ∀ response ∈ c.stage.generated, w.updated ≤ response
  | _ => True

instance (w : World) (event : Event) : Decidable (w.Timely event) := by
  cases event <;> simp only [World.Timely] <;> infer_instance

theorem getElem?_append_some {generations added : List Nat} {genID bound : Nat}
    (written : generations[genID]? = some bound) :
    (generations ++ added)[genID]? = some bound := by
  rw [List.getElem?_append_left (List.getElem?_eq_some_iff.mp written).1]
  exact written

/-- What is true of a call. The keys it has are of generations whose mutations its floor, or its
response, comes after. -/
structure Proper (generations : List Nat) (updated : Nat) (c : Call) : Prop where
  floor : c.floor ≤ updated
  looking : ∀ genID, c.stage = .getStream (.keyed genID) →
    ∃ bound, generations[genID]? = some bound ∧ c.floor ≤ bound
  filling : ∀ genID generated, c.stage = .putStream (.keyed genID) generated →
    ∃ bound, generations[genID]? = some bound ∧ ∀ response ∈ generated, bound ≤ response
  hit : ∀ response, c.stage = .hit response → c.floor ≤ response

namespace Proper

variable {generations : List Nat} {updated : Nat} {c : Call}

section

variable (proper : Proper generations updated c)
include proper

theorem newLatest {later : Nat} (grows : updated ≤ later) (generation : Nat) :
    Proper (generations ++ [generation]) later c where
  floor := proper.floor.trans grows
  looking := by
    intro genID stage
    obtain ⟨bound, written, below⟩ := proper.looking genID stage
    exact ⟨bound, getElem?_append_some written, below⟩
  filling := by
    intro genID generated stage
    obtain ⟨bound, written, below⟩ := proper.filling genID generated stage
    exact ⟨bound, getElem?_append_some written, below⟩
  hit := proper.hit

theorem move {stage : Stage} (unkeyed : ∀ genID, stage.key ≠ some (.keyed genID))
    (missed : ∀ response, stage ≠ .hit response) :
    Proper generations updated { c with stage := stage } where
  floor := proper.floor
  looking := by
    rintro genID rfl
    exact absurd rfl (unkeyed genID)
  filling := by
    rintro genID generated rfl
    exact absurd rfl (unkeyed genID)
  hit := by
    rintro response rfl
    exact absurd rfl (missed response)

theorem advance {key next : KeyStage} (has : c.stage.key = some key)
    (unkeyed : ∀ genID, next ≠ .keyed genID) :
    Proper generations updated { c with stage := c.stage.withKey next } := by
  obtain ⟨request, floor, stage⟩ := c
  cases stage with
  | getStream | putStream =>
    exact proper.move (fun genID same => unkeyed genID (Option.some.inj same)) nofun
  | _ => cases has

theorem withKey {genID : Nat} (written : generations[genID]? = some updated)
    (timely : ∀ response ∈ c.stage.generated, updated ≤ response) :
    Proper generations updated { c with stage := c.stage.withKey (.keyed genID) } := by
  obtain ⟨request, floor, stage⟩ := c
  cases stage with
  | getStream key =>
    refine ⟨proper.floor, ?_, nofun, nofun⟩
    rintro _ ⟨⟩
    exact ⟨updated, written, proper.floor⟩
  | putStream key generated =>
    refine ⟨proper.floor, nofun, ?_, nofun⟩
    rintro _ _ ⟨⟩
    exact ⟨updated, written, timely⟩
  | _ => exact proper

end

end Proper

namespace World

structure Inv (w : World) : Prop where
  ended : w.ended ≤ w.updated
  updated : w.updated ≤ w.version
  generations : ∀ bound ∈ w.generations, bound ≤ w.updated
  latest : ∀ genID ∈ w.latest, w.generations[genID]? = some w.updated
  streams : ∀ stream ∈ w.streams, ∃ bound,
    w.generations[stream.1.1]? = some bound ∧ bound ≤ stream.2
  changed : ∀ m ∈ w.mutations, m.changed ≤ w.version
  mutations : ∀ m ∈ w.mutations, m.stage = .updated → m.changed ≤ w.updated
  calls : ∀ c ∈ w.calls, Proper w.generations w.updated c

variable {w next : World}

theorem initial_inv : initial.Inv where
  ended := Nat.le_refl _
  updated := Nat.le_refl _
  generations := nofun
  latest := nofun
  streams := fun _ absent => absurd absent not_mem_nil
  changed := nofun
  mutations := nofun
  calls := nofun

theorem Inv.move (inv : w.Inv) {call : Nat} {c : Call} {stage : Stage}
    (proper : Proper w.generations w.updated { c with stage := stage }) :
    (w.move call c stage).Inv :=
  { inv with calls := forall_moved inv.calls proper }

theorem Inv.newLatest (inv : w.Inv) {updated : Nat} (grows : w.updated ≤ updated)
    (bounded : updated ≤ w.version) : (w.newLatest updated).Inv where
  ended := inv.ended.trans grows
  updated := bounded
  generations := by
    intro bound member
    rcases mem_append.mp member with old | new
    · exact (inv.generations bound old).trans grows
    · exact (mem_singleton.mp new).le
  latest := by
    rintro _ ⟨⟩
    exact getElem?_concat_length
  streams := by
    intro stream member
    obtain ⟨bound, written, below⟩ := inv.streams stream member
    exact ⟨bound, getElem?_append_some written, below⟩
  changed := inv.changed
  mutations := fun m member stage => (inv.mutations m member stage).trans grows
  calls := fun c member => (inv.calls c member).newLatest grows updated

theorem Inv.mutate (inv : w.Inv) {mutation : Nat} {m : Mutation} (changed : m.changed ≤ w.version)
    (updated : m.stage = .updated → m.changed ≤ w.updated) : (w.mutate mutation m).Inv :=
  { inv with
    changed := forall_moved inv.changed changed
    mutations := forall_moved inv.mutations updated }

theorem step_inv (event : Event) (inv : w.Inv) (timely : w.Timely event)
    (taken : w.step event = some next) : next.Inv := by
  cases event with
  | startLease =>
    cases taken
    exact { inv with
      changed := forall_joined inv.changed (Nat.zero_le _)
      mutations := forall_joined inv.mutations (by simp) }
  | removeLatest mutation =>
    obtain ⟨m, found, -, taken⟩ := guarded taken
    cases taken
    have removed : ({ w with latest := none } : World).Inv := { inv with latest := (by simp) }
    exact removed.mutate (inv.changed m (mem_of_getElem? found)) (by simp)
  | createPending mutation =>
    obtain ⟨m, found, -, taken⟩ := guarded taken
    cases taken
    have pending : ({ w with pending := w.pending ++ [(mutation, false)] } : World).Inv :=
      { inv with }
    exact pending.mutate (inv.changed m (mem_of_getElem? found)) (by simp)
  | change mutation =>
    obtain ⟨m, found, leased, taken⟩ := guarded taken
    cases taken
    have changed : ({ w with version := w.version + 1 } : World).Inv := { inv with
      updated := Nat.le_succ_of_le inv.updated
      changed := fun m member => Nat.le_succ_of_le (inv.changed m member) }
    exact changed.mutate (Nat.le_refl _) (fun stage => by rw [leased] at stage; cases stage)
  | updateLatest mutation =>
    obtain ⟨m, found, -, taken⟩ := guarded taken
    cases taken
    have bounded := inv.changed m (mem_of_getElem? found)
    have written := inv.newLatest (le_max_left w.updated m.changed)
      (max_le inv.updated bounded)
    exact written.mutate bounded (fun _ => le_max_right w.updated m.changed)
  | removePending mutation =>
    obtain ⟨m, found, updated, taken⟩ := guarded taken
    cases taken
    have member := mem_of_getElem? found
    have ended : ({ w with
        pending := w.pending.filter (fun lease => lease.1 ≠ mutation)
        ended := max w.ended m.changed } : World).Inv :=
      { inv with ended := max_le inv.ended (inv.mutations m member updated) }
    exact ended.mutate (inv.changed m member) (by simp)
  | age mutation =>
    cases taken
    exact { inv with }
  | tryCache request =>
    cases taken
    exact { inv with calls := forall_joined inv.calls ⟨inv.ended, (by simp), (by simp), (by simp)⟩ }
  | currentLeases call =>
    obtain ⟨c, found, listing, taken⟩ := guarded taken
    cases taken
    exact inv.move ((inv.calls c (mem_of_getElem? found)).advance listing (by simp))
  | clear call =>
    obtain ⟨c, found, taken⟩ := bind_eq_some_iff.mp taken
    have proper := inv.calls c (mem_of_getElem? found)
    split at taken
    · rename_i clearing
      cases taken
      exact { inv with calls := forall_moved inv.calls (proper.advance clearing (by simp)) }
    · rename_i anyValidPending clearing
      cases taken
      refine inv.move (proper.advance clearing (fun genID => ?_))
      split <;> simp
    · cases taken
  | currentGenID call =>
    obtain ⟨c, found, reading, taken⟩ := guarded taken
    have proper := inv.calls c (mem_of_getElem? found)
    split at taken
    · rename_i genID latest
      cases taken
      exact inv.move (proper.withKey (inv.latest genID latest)
        (timely (by rw [latest]; rfl) c found))
    · cases taken
      exact inv.move (proper.advance reading (by simp))
  | writeLatest call =>
    obtain ⟨c, found, -, taken⟩ := guarded taken
    cases taken
    have written := inv.newLatest (Nat.le_refl _) inv.updated
    have proper := written.calls c (mem_of_getElem? found)
    exact written.move (proper.withKey (written.latest _ rfl) (timely c found))
  | giveUp call =>
    obtain ⟨c, found, -, taken⟩ := guarded taken
    cases taken
    exact inv.move ((inv.calls c (mem_of_getElem? found)).move (by simp [Stage.key]) (by simp))
  | openStream call =>
    obtain ⟨c, found, taken⟩ := bind_eq_some_iff.mp taken
    have proper := inv.calls c (mem_of_getElem? found)
    split at taken
    · rename_i genID keyed
      split at taken
      · rename_i stream present
        cases taken
        obtain ⟨member, key⟩ := find_eq_some.mp present
        obtain ⟨bound, written, below⟩ := proper.looking genID keyed
        obtain ⟨same, again, above⟩ := inv.streams stream member
        rw [key, written] at again
        cases again
        refine inv.move ⟨proper.floor, (by simp), (by simp), ?_⟩
        rintro _ ⟨⟩
        exact below.trans above
      · cases taken
        exact inv.move (proper.move (by simp [Stage.key]) (by simp))
    · cases taken
  | generate call =>
    obtain ⟨c, found, taken⟩ := bind_eq_some_iff.mp taken
    have proper := inv.calls c (mem_of_getElem? found)
    split at taken
    · rename_i key ungenerated
      cases taken
      refine inv.move ⟨proper.floor, (by simp), ?_, (by simp)⟩
      rintro genID _ ⟨⟩
      obtain ⟨bound, written, _⟩ := proper.filling genID none ungenerated
      refine ⟨bound, written, ?_⟩
      rintro _ ⟨⟩
      exact (inv.generations bound (mem_of_getElem? written)).trans inv.updated
    · cases taken
  | commit call =>
    obtain ⟨c, found, taken⟩ := bind_eq_some_iff.mp taken
    have proper := inv.calls c (mem_of_getElem? found)
    split at taken
    · rename_i genID response filled
      cases taken
      obtain ⟨bound, written, below⟩ := proper.filling genID _ filled
      refine { inv with
        streams := ?_
        calls := forall_moved inv.calls (proper.move (by simp [Stage.key]) (by simp)) }
      intro stream member
      rcases (mem_put _ _).mp member with ⟨old, _⟩ | rfl
      · exact inv.streams stream old
      · exact ⟨bound, written, below response rfl⟩
    · cases taken
  | clean genID request =>
    cases taken
    exact { inv with
      streams := fun stream remains =>
        inv.streams stream ((mem_delete _ _).mp remains).1 }

theorem Inv.current (inv : w.Inv) : w.Current := fun c member => (inv.calls c member).hit

end World

theorem current_of_timely (events : List Event)
    (timely : Along World.step World.Timely .initial events) :
    Throughout World.step World.Current .initial events :=
  timely.throughout (fun _ event _ inv timely taken => World.step_inv event inv timely taken)
    (fun _ inv => inv.current) World.initial_inv

/-- The mutation ends between the generation of the response and the look at the latest file. -/
def outrun : List Event :=
  [.tryCache "info-refs", .currentLeases 0, .clear 0, .currentGenID 0, .writeLatest 0,
    .openStream 0, .generate 0, .startLease, .removeLatest 0, .createPending 0, .change 0,
    .updateLatest 0, .removePending 0, .currentLeases 0, .clear 0, .currentGenID 0, .commit 0,
    .tryCache "info-refs", .currentLeases 1, .clear 1, .currentGenID 1, .openStream 1]

theorem outrun_stale : ∃ w, Reaches World.step .initial w ∧ ¬ w.Current := by
  refine ⟨_, ⟨outrun, rfl⟩, fun current => ?_⟩
  exact absurd (current ⟨"info-refs", 1, .hit 0⟩ (by decide) 0 rfl) (by decide)

/-- The same response, but generated after the look at the latest file. -/
def fresh : List Event :=
  [.tryCache "info-refs", .currentLeases 0, .clear 0, .currentGenID 0, .writeLatest 0,
    .openStream 0, .startLease, .removeLatest 0, .createPending 0, .change 0,
    .updateLatest 0, .removePending 0, .currentLeases 0, .clear 0, .currentGenID 0, .generate 0,
    .commit 0, .tryCache "info-refs", .currentLeases 1, .clear 1, .currentGenID 1, .openStream 1]

theorem fresh_current :
    (exec World.step .initial fresh).isSome = true ∧
      Throughout World.step World.Current .initial fresh :=
  ⟨by decide, current_of_timely fresh (by decide)⟩

section keys

open Text (Bytes)

/-- The parts of a composite key, the features as they are joined. -/
structure KeyParts where
  version : Bytes
  method : Bytes
  genID : Bytes
  reqSum : Bytes
  ffs : Bytes
  small : ∀ part ∈ [version, method, genID, reqSum, ffs], part.length < 2 ^ 32

/-- The format `%08x%s`. -/
def prefixLen (s : Bytes) : Bytes := Numeral.format 16 8 s.length ++ s

/-- What `compositeKeyHashHex` feeds to the hash. -/
def KeyParts.hashed (key : KeyParts) : Bytes :=
  [key.version, key.method, key.genID, key.reqSum, key.ffs].flatMap prefixLen

theorem prefixLen_append_inj {s other rest others : Bytes} (small : s.length < 2 ^ 32)
    (otherSmall : other.length < 2 ^ 32)
    (same : prefixLen s ++ rest = prefixLen other ++ others) : s = other ∧ rest = others := by
  have digits {s : Bytes} (small : s.length < 2 ^ 32) :
      (Numeral.format 16 8 s.length).length = 8 := by
    have fits : s.length < 16 ^ 8 := small
    rw [Numeral.format_of_fits (by decide) (by decide) fits, Numeral.padded_length]
  simp only [prefixLen, append_assoc] at same
  obtain ⟨lengths, contents⟩ := append_inj same (by rw [digits small, digits otherSmall])
  exact append_inj contents (Numeral.format_inj (by decide) (by decide) lengths)

theorem flatMap_prefixLen_inj {parts others : List Bytes}
    (same : parts.flatMap prefixLen = others.flatMap prefixLen)
    (lengths : parts.length = others.length) (small : ∀ part ∈ parts, part.length < 2 ^ 32)
    (otherSmall : ∀ part ∈ others, part.length < 2 ^ 32) : parts = others := by
  induction parts generalizing others with
  | nil => exact (length_eq_zero_iff.mp lengths.symm).symm
  | cons part parts ih =>
    obtain ⟨other, others, rfl⟩ := exists_cons_of_length_eq_add_one lengths.symm
    rw [forall_mem_cons] at small otherSmall
    obtain ⟨rfl, rest⟩ := prefixLen_append_inj small.1 otherSmall.1 same
    rw [ih rest (Nat.succ.inj lengths) small.2 otherSmall.2]

theorem hashed_injective : Function.Injective KeyParts.hashed := by
  intro key other same
  have parts := flatMap_prefixLen_inj same rfl key.small other.small
  cases key
  cases other
  simpa using parts

end keys

end Gitaly.Cache
