import Gitaly.Praefect.Proxy
import Mathlib.Data.List.Basic

/- Which frames reach the destinations of a proxied call. -/
namespace Gitaly.Praefect.Proxy

open List Option Runs

/-- What is true of a destination while the forwarder has received these frames and has one in
flight or others to come. -/
structure Proper (closed : Bool) (received inflight : List Frame) (toCome : Nat)
    (d : Destination) : Prop where
  room : d.consumer ≠ .running → d.channel.length + toCome ≤ capacity
  carried : d.stream = .open → d.sent ++ d.channel ++ inflight = d.msg :: received
  drained : d.stream = .open → d.consumer ≠ .running → closed = true ∧ d.channel = []

namespace Proper

variable {closed : Bool} {received inflight : List Frame} {toCome : Nat} {d : Destination}

theorem cancel (proper : Proper closed received inflight toCome d) :
    Proper closed received inflight toCome d.cancel := by
  unfold Destination.cancel
  split
  · exact ⟨proper.room, nofun, nofun⟩
  · exact proper

theorem mono (proper : Proper closed received inflight toCome d) {later : Bool} {fewer : Nat}
    (closes : closed = true → later = true) (fits : fewer ≤ toCome) :
    Proper later received inflight fewer d where
  room := fun returned => Nat.le_trans (Nat.add_le_add_left fits _) (proper.room returned)
  carried := proper.carried
  drained := fun isOpen returned =>
    have ⟨before, empty⟩ := proper.drained isOpen returned
    ⟨closes before, empty⟩

end Proper

namespace World

structure Inv (w : World) : Prop where
  ends : w.forwarder.closed = true → w.broken = true ∨ w.incoming = []
  each : ∀ destination d, w.destinations[destination]? = some d →
    Proper w.forwarder.closed w.received (w.inflight destination) (w.toCome destination) d

variable {w next : World}

theorem inflight_closed (closed : w.forwarder.closed = true) (destination : Nat) :
    w.inflight destination = [] := by
  unfold inflight
  cases forwarder : w.forwarder with
  | pushing f next =>
    rw [forwarder] at closed
    cases closed
  | _ => rfl

theorem start_inv (frames : List Frame) (destinations : List (Frame × Bool)) :
    (start frames destinations).Inv where
  ends := nofun
  each := by
    intro destination d found
    obtain ⟨new, _, rfl⟩ := mem_map.mp (mem_of_getElem? found)
    exact ⟨fun returned => absurd rfl returned, fun _ => rfl, fun _ returned => absurd rfl returned⟩

theorem Inv.put (inv : w.Inv) {destination : Nat} {d : Destination}
    (proper : Proper w.forwarder.closed w.received (w.inflight destination)
      (w.toCome destination) d) : (w.put destination d).Inv where
  ends := inv.ends
  each := indexed_moved (fun place other _ => inv.each place other) proper

theorem Inv.cancelStreams (inv : w.Inv) : w.cancelStreams.Inv where
  ends := inv.ends
  each := by
    intro destination d found
    simp only [World.cancelStreams, getElem?_map, map_eq_some_iff] at found
    obtain ⟨before, present, rfl⟩ := found
    exact (inv.each destination before present).cancel

theorem Inv.receive (inv : w.Inv) (taken : w.step .receive = some next) : next.Inv := by
  simp only [step] at taken
  split at taken
  · rename_i f rest receiving incoming
    split at taken
    · cases taken
    cases taken
    refine ⟨nofun, fun destination d found => ?_⟩
    have proper := inv.each destination d found
    simp only [inflight, toCome, receiving, incoming] at proper
    refine ⟨fun returned => ?_, fun isOpen => ?_, fun isOpen returned => ?_⟩
    · have room := proper.room returned
      simp [toCome, inflight, Forwarder.closed] at room ⊢
      omega
    · have carried := proper.carried isOpen
      rw [append_nil] at carried
      simp [inflight, carried]
    · exact absurd (proper.drained isOpen returned).1 nofun
  · cases taken

theorem Inv.close (inv : w.Inv) (receiving : w.forwarder = .receiving) (err : Bool)
    (ends : w.broken = true ∨ w.incoming = []) :
    ({ w with forwarder := .waiting err } : World).Inv := by
  refine ⟨fun _ => ends, fun destination d found => ?_⟩
  have proper := inv.each destination d found
  simp only [inflight, receiving] at proper
  exact proper.mono (fun _ => rfl) (Nat.zero_le _)

theorem Inv.push (inv : w.Inv) (taken : w.step .push = some next) : next.Inv := by
  simp only [step] at taken
  split at taken
  · rename_i f at_ pushing
    have beyond : ∀ destination, at_ ≠ destination →
        (at_ ≤ destination ↔ at_ + 1 ≤ destination) := by omega
    split at taken
    · rename_i outside
      cases taken
      refine ⟨nofun, fun destination d found => ?_⟩
      have proper := inv.each destination d found
      have inside : destination < w.destinations.length := (List.getElem?_eq_some_iff.mp found).1
      have passed : ¬ at_ ≤ destination := by
        have := getElem?_eq_none_iff.mp outside
        omega
      simp only [inflight, toCome, pushing, if_neg passed] at proper
      exact proper
    · rename_i d found
      obtain ⟨free, taken⟩ := ite_none_right_eq_some.mp taken
      cases taken
      refine ⟨nofun, indexed_moved ?_ ?_⟩
      · intro destination other different otherFound
        have proper := inv.each destination other otherFound
        simp only [inflight, toCome, pushing, beyond destination (Ne.symm different)] at proper
        exact proper
      · have proper := inv.each at_ d found
        simp only [inflight, toCome, pushing, Nat.le_refl, if_true] at proper
        have still : ¬ at_ + 1 ≤ at_ := by omega
        refine ⟨fun returned => ?_, fun isOpen => ?_, fun isOpen returned => ?_⟩
        · have room := proper.room returned
          simp only [toCome, inflight, World.put, if_neg still, length_append,
            length_singleton, length_nil, Forwarder.closed, Bool.false_eq_true,
            if_false] at room ⊢
          omega
        · have carried := proper.carried isOpen
          simp only [inflight, World.put, if_neg still, append_nil]
          rw [← append_assoc]
          exact carried
        · exact absurd (proper.drained isOpen returned).1 nofun
  · cases taken

theorem Inv.wait (inv : w.Inv) (taken : w.step .wait = some next) : next.Inv := by
  simp only [step] at taken
  split at taken
  · rename_i err waiting
    split at taken
    · cases taken
      refine ⟨fun _ => inv.ends (by rw [waiting]; rfl), fun destination d found => ?_⟩
      have proper := inv.each destination d found
      simp only [inflight, toCome, waiting] at proper
      exact proper
    · cases taken
  · cases taken

theorem step_inv (event : Event) (inv : w.Inv) (fits : w.Fits event)
    (taken : w.step event = some next) : next.Inv := by
  cases event with
  | clientFails =>
    cases taken
    exact ⟨fun _ => .inl rfl, inv.each⟩
  | receive => exact inv.receive taken
  | receiveEOF =>
    simp only [step] at taken
    split at taken
    · rename_i receiving incoming
      split at taken
      · cases taken
      cases taken
      exact inv.close receiving false (.inr incoming)
    · cases taken
  | receiveErr =>
    simp only [step] at taken
    split at taken
    · rename_i receiving
      split at taken
      · rename_i broken
        cases taken
        exact inv.close receiving true (.inl broken)
      · cases taken
    · cases taken
  | push => exact inv.push taken
  | wait => exact inv.wait taken
  | send destination =>
    obtain ⟨d, found, taken⟩ := bind_eq_some_iff.mp taken
    have proper := inv.each destination d found
    split at taken
    · rename_i f rest running channel
      cases taken
      refine inv.put ⟨fun returned => absurd running returned, fun isOpen => ?_,
        fun _ returned => absurd running returned⟩
      have carried := proper.carried isOpen
      rw [channel] at carried
      simpa using carried
    · cases taken
  | sendEOF destination =>
    obtain ⟨d, found, taken⟩ := bind_eq_some_iff.mp taken
    have room := fits d found
    split at taken
    · rename_i rest running channel
      rw [channel] at room
      split at taken
      · cases taken
      rename_i gone
      cases taken
      exact inv.put ⟨fun _ => room, fun isOpen => absurd isOpen gone,
        fun isOpen => absurd isOpen gone⟩
    · cases taken
  | sendErr destination =>
    obtain ⟨d, found, taken⟩ := bind_eq_some_iff.mp taken
    have room := fits d found
    split at taken
    · rename_i rest running channel
      rw [channel] at room
      cases taken
      exact inv.put ⟨fun _ => room, nofun, nofun⟩
    · cases taken
  | drain destination =>
    obtain ⟨d, found, taken⟩ := bind_eq_some_iff.mp taken
    have proper := inv.each destination d found
    split at taken
    · rename_i running channel
      obtain ⟨closed, taken⟩ := ite_none_right_eq_some.mp taken
      cases taken
      refine inv.put ⟨fun _ => ?_, proper.carried, fun _ _ => ⟨closed, channel⟩⟩
      rw [toCome, inflight_closed closed, if_pos closed, channel]
      exact Nat.zero_le _
    · cases taken
  | endStream destination ok =>
    obtain ⟨d, found, -, taken⟩ := guarded taken
    cases taken
    have gone : (if ok then Stream.ended else .failed) ≠ .open := by split <;> exact nofun
    exact inv.put ⟨(inv.each destination d found).room, fun isOpen => absurd isOpen gone,
      fun isOpen => absurd isOpen gone⟩
  | receiveFrom destination =>
    obtain ⟨d, found, taken⟩ := bind_eq_some_iff.mp taken
    have proper := inv.each destination d found
    have still : ∀ receiver, (w.put destination { d with receiver := receiver }).Inv :=
      fun _ => inv.put { proper with }
    repeat' split at taken
    all_goals first | cases taken; exact still _ | cases taken
  | clientErr =>
    simp only [step] at taken
    split at taken
    · have still : ∀ handler, ({ w with handler := handler } : World).Inv :=
        fun _ => ⟨inv.ends, inv.each⟩
      cases taken
      split
      · exact (still _).cancelStreams
      · exact still _
    · cases taken
  | primaryErr =>
    simp only [step] at taken
    split at taken
    · have still : ∀ handler, ({ w with handler := handler } : World).Inv :=
        fun _ => ⟨inv.ends, inv.each⟩
      cases taken
      split
      · exact still _
      · exact (still _).cancelStreams
    · cases taken
  | secondaryErr =>
    simp only [step] at taken
    split at taken
    · cases taken
      exact ⟨inv.ends, inv.each⟩
    · cases taken
  | handlerReturns =>
    simp only [step] at taken
    split at taken
    · cases taken
      have broken : ∀ handler, ({ w with broken := true, handler := handler } : World).Inv :=
        fun _ => ⟨fun _ => .inl rfl, inv.each⟩
      exact (broken _).cancelStreams
    · cases taken

/-- The channel the forwarder pushes into next has room if nobody takes frames from it. -/
theorem Inv.unblocked (inv : w.Inv) : ¬ w.BlockedForever := by
  rintro ⟨f, at_, d, pushing, found, returned, forever⟩
  have room := (inv.each at_ d found).room returned
  simp only [toCome, inflight, pushing, Nat.le_refl, if_true, length_singleton] at room
  have free : d.channel.length < capacity := by omega
  have pushed : w.step .push = some ({ w with forwarder := .pushing f (at_ + 1) }.put at_
      { d with channel := d.channel ++ [f] }) := by
    simp only [step, pushing, found, if_pos free]
  have next := forever _ ((Reaches.refl step w).snoc pushed)
  simp [World.put] at next

/-- Every stage of the forwarder but the last ones lets some goroutine go on. -/
theorem Inv.closed_of_quiet (inv : w.Inv) (quiet : w.Quiet) : w.forwarder.closed = true := by
  obtain ⟨noReceive, noEOF, noErr, noPush, none⟩ := quiet
  cases forwarder : w.forwarder with
  | receiving =>
    exfalso
    cases broken : w.broken with
    | true => simp [step, forwarder, broken] at noErr
    | false =>
      cases incoming : w.incoming with
      | nil => simp [step, forwarder, broken, incoming] at noEOF
      | cons f rest => simp [step, forwarder, broken, incoming] at noReceive
  | pushing f at_ =>
    exfalso
    cases found : w.destinations[at_]? with
    | none => simp [step, forwarder, found] at noPush
    | some d =>
      have full : ¬ d.channel.length < capacity := fun free => by
        simp [step, forwarder, found, free] at noPush
      cases consumer : d.consumer with
      | returned err =>
        have room := (inv.each at_ d found).room (by rw [consumer]; exact nofun)
        simp only [toCome, inflight, forwarder, Nat.le_refl, if_true, length_singleton] at room
        omega
      | running =>
        have noSend := none at_
        cases channel : d.channel with
        | nil =>
          rw [channel] at full
          exact full (by decide)
        | cons g rest => simp [step, found, consumer, channel] at noSend
  | waiting | finished => rfl

theorem Inv.delivered (inv : w.Inv) (quiet : w.Quiet) :
    (w.broken = false → w.incoming = []) ∧
      ∀ d ∈ w.destinations, d.stream = .open → d.sent = d.msg :: w.received := by
  have closed := inv.closed_of_quiet quiet
  refine ⟨fun whole => ?_, fun d member isOpen => ?_⟩
  · rcases inv.ends closed with broken | all
    · rw [whole] at broken
      cases broken
    · exact all
  · obtain ⟨destination, found⟩ := mem_iff_getElem?.mp member
    have proper := inv.each destination d found
    have carried := proper.carried isOpen
    rw [inflight_closed closed, append_nil] at carried
    have empty : d.channel = [] := by
      cases consumer : d.consumer with
      | returned err => exact (proper.drained isOpen (by rw [consumer]; exact nofun)).2
      | running =>
        have noSend := quiet.2.2.2.2 destination
        cases channel : d.channel with
        | nil => rfl
        | cons f rest => simp [step, found, consumer, channel] at noSend
    rwa [empty, append_nil] at carried

/-- The channel is full and nobody takes frames from it. -/
def Stuck (d : Destination) : Prop := d.consumer ≠ .running ∧ capacity ≤ d.channel.length

def Stalled (f : Frame) (at_ : Nat) (w : World) : Prop :=
  w.forwarder = .pushing f at_ ∧ ∃ d, w.destinations[at_]? = some d ∧ Stuck d

section stalled

variable {f : Frame} {at_ : Nat}

theorem Stalled.put (stalled : Stalled f at_ w) {destination : Nat} {d moved : Destination}
    (found : w.destinations[destination]? = some d) (stays : Stuck d → Stuck moved) :
    Stalled f at_ (w.put destination moved) := by
  obtain ⟨pushing, full, at_found, stuck⟩ := stalled
  refine ⟨pushing, ?_⟩
  by_cases same : destination = at_
  · subst same
    cases found.symm.trans at_found
    exact ⟨moved, List.getElem?_set_self (List.getElem?_eq_some_iff.mp found).1, stays stuck⟩
  · exact ⟨full, (getElem?_set_ne same).trans at_found, stuck⟩

theorem Stalled.cancelStreams (stalled : Stalled f at_ w) : Stalled f at_ w.cancelStreams := by
  obtain ⟨pushing, d, found, stuck⟩ := stalled
  refine ⟨pushing, d.cancel, ?_, ?_⟩
  · simp only [World.cancelStreams, getElem?_map, found, map_some]
  · unfold Destination.cancel
    split <;> exact stuck

theorem step_stalled (event : Event) (stalled : Stalled f at_ w)
    (taken : w.step event = some next) :
    Stalled f at_ next := by
  have pushing := stalled.1
  cases event with
  | clientFails =>
    cases taken
    exact stalled
  | receive | receiveEOF | receiveErr | wait | clientErr =>
    simp [step, pushing] at taken
  | push =>
    obtain ⟨_, d, found, stuck⟩ := stalled
    simp only [step, pushing, found, if_neg (Nat.not_lt.mpr stuck.2)] at taken
    cases taken
  | send | sendEOF | sendErr | drain =>
    obtain ⟨d, found, taken⟩ := bind_eq_some_iff.mp taken
    split at taken
    · rename_i running channel
      repeat' split at taken
      all_goals first
        | cases taken; exact stalled.put found (fun stuck => absurd running stuck.1)
        | cases taken
    · cases taken
  | endStream | receiveFrom =>
    obtain ⟨d, found, taken⟩ := bind_eq_some_iff.mp taken
    repeat' split at taken
    all_goals first | cases taken; exact stalled.put found id | cases taken
  | primaryErr =>
    simp only [step] at taken
    split at taken
    · cases taken
      split
      · exact stalled
      · exact Stalled.cancelStreams stalled
    · cases taken
  | secondaryErr =>
    simp only [step] at taken
    split at taken
    · cases taken
      exact stalled
    · cases taken
  | handlerReturns =>
    simp only [step] at taken
    split at taken
    · cases taken
      exact Stalled.cancelStreams stalled
    · cases taken

theorem Stalled.blockedForever (stalled : Stalled f at_ w) : w.BlockedForever := by
  obtain ⟨pushing, d, found, stuck⟩ := id stalled
  refine ⟨f, at_, d, pushing, found, stuck.1, fun later follows => ?_⟩
  exact (follows.invariant (Stalled f at_)
    (fun _ event _ stalled taken => step_stalled event stalled taken) stalled).1

end stalled

end World

theorem delivers_of_fits (frames : List Frame) (destinations : List (Frame × Bool))
    (events : List Event)
    (fits : Along World.step World.Fits (World.start frames destinations) events) :
    Throughout World.step World.Delivers (World.start frames destinations) events :=
  fits.throughout (fun _ event _ inv fits taken => World.step_inv event inv fits taken)
    (fun _ inv => ⟨inv.unblocked, inv.delivered⟩) (World.start_inv frames destinations)

/-- The secondary fails, its error is tolerated, and the client sends 17 frames. -/
def deadSecondary : List Event :=
  [.endStream 0 false, .sendEOF 0, .receiveFrom 0] ++
    (replicate 16 [Event.receive, .push, .push, .push, .send 1]).flatten ++ [.receive]

theorem deadSecondary_blocks : ∃ w, Reaches World.step
    (World.start (replicate 17 [7]) [([1], true), ([2], true)]) w ∧ w.BlockedForever := by
  have stalled : ∃ w, exec World.step
      (World.start (replicate 17 [7]) [([1], true), ([2], true)]) deadSecondary = some w ∧
        World.Stalled [7] 0 w := ⟨_, rfl, rfl, _, rfl, by decide, by decide⟩
  obtain ⟨w, run, stalled⟩ := stalled
  exact ⟨w, ⟨deadSecondary, run⟩, stalled.blockedForever⟩

/-- The secondary fails when 16 frames are to come. -/
def lateFailure : List Event :=
  [.receive, .push, .push, .push, .send 1, .send 1, .send 0, .endStream 0 false, .sendEOF 0] ++
    (replicate 16 [Event.receive, .push, .push, .push, .send 1]).flatten ++ [.receiveEOF]

theorem lateFailure_delivers :
    (exec World.step (World.start (replicate 17 [7]) [([1], true), ([2], true)])
      lateFailure).isSome = true ∧
    Throughout World.step World.Delivers
      (World.start (replicate 17 [7]) [([1], true), ([2], true)]) lateFailure :=
  ⟨by decide, delivers_of_fits _ _ _ (by decide +kernel)⟩

end Gitaly.Praefect.Proxy
