import Mathlib.Logic.Relation
import Mathlib.Order.Basic

/- Runs of a labelled transition system whose step is a partial function: a
label carries every choice the environment makes, a disabled label has no
successor. -/
namespace Runs

open List Option

variable {σ ε : Type} (step : σ → ε → Option σ)

def exec : σ → List ε → Option σ
  | state, [] => some state
  | state, event :: rest => (step state event).bind (fun next => exec next rest)

theorem exec_cons (state final : σ) (event : ε) (rest : List ε) :
    exec step state (event :: rest) = some final ↔
      ∃ next, step state event = some next ∧ exec step next rest = some final :=
  bind_eq_some_iff

theorem exec_append (state : σ) (first second : List ε) :
    exec step state (first ++ second) =
      (exec step state first).bind (fun middle => exec step middle second) := by
  induction first generalizing state with
  | nil => rfl
  | cons event rest ih =>
    simp only [cons_append, exec]
    cases taken : step state event with
    | none => rfl
    | some next => exact ih next

/-- A system that only adds to the states of another one has the same runs. -/
theorem exec_project {τ : Type} {project : τ → σ} {rich : τ → ε → Option τ}
    (same : ∀ state event, (rich state event).map project = step (project state) event)
    (state : τ) (events : List ε) :
    (exec rich state events).map project = exec step (project state) events := by
  induction events generalizing state with
  | nil => rfl
  | cons event rest ih =>
    unfold exec
    rw [← same state event]
    cases rich state event with
    | none => rfl
    | some next => exact ih next

def Reaches (start final : σ) : Prop := ∃ events, exec step start events = some final

theorem Reaches.refl (state : σ) : Reaches step state state := ⟨[], rfl⟩

variable {step} {first second third : σ}

theorem Reaches.trans (left : Reaches step first second)
    (right : Reaches step second third) : Reaches step first third := by
  obtain ⟨before, reached⟩ := left
  obtain ⟨after, final⟩ := right
  exact ⟨before ++ after, by rw [exec_append, reached]; exact final⟩

theorem Reaches.snoc {event : ε} (left : Reaches step first second)
    (taken : step second event = some third) : Reaches step first third :=
  left.trans ⟨[event], by rw [exec_cons]; exact ⟨third, taken, rfl⟩⟩

variable {events : List ε} {start : σ}

theorem Reaches.of_exec (runs : (exec step start events).isSome = true) :
    Reaches step start ((exec step start events).get runs) :=
  ⟨events, (some_get runs).symm⟩

/-- Every step of the run is taken from a state, and with a label, that meet the
condition. -/
def Along (step : σ → ε → Option σ) (condition : σ → ε → Prop) : σ → List ε → Prop
  | _, [] => True
  | state, event :: rest =>
    condition state event ∧ ∀ next, step state event = some next → Along step condition next rest

instance decidableAlong (step : σ → ε → Option σ) (condition : σ → ε → Prop)
    [∀ state event, Decidable (condition state event)] :
    ∀ state events, Decidable (Along step condition state events)
  | _, [] => isTrue trivial
  | state, event :: rest =>
    match taken : step state event with
    | none => decidable_of_iff (condition state event)
        ⟨fun holds => ⟨holds, fun next runs =>
    absurd (taken.symm.trans runs) (Option.some_ne_none next).symm⟩, And.left⟩
    | some next =>
      haveI := decidableAlong step condition next rest
      decidable_of_iff (condition state event ∧ Along step condition next rest)
        ⟨fun holds => ⟨holds.1, fun _ runs =>
    Option.some.inj (taken.symm.trans runs) ▸ holds.2⟩, fun along => ⟨along.1, along.2 next taken⟩⟩

variable {condition other : σ → ε → Prop}

/-- A condition that follows from another one under an invariant follows from it along a run. -/
theorem Along.imp_of_invariant (inv : σ → Prop)
    (preserved : ∀ state event next, inv state → condition state event →
      step state event = some next → inv next)
    (implies : ∀ state event, inv state → condition state event → other state event)
    (initial : inv start) (along : Along step condition start events) :
    Along step other start events := by
  induction events generalizing start with
  | nil => trivial
  | cons event rest ih =>
    refine ⟨implies start event initial along.1, fun next taken => ?_⟩
    exact ih (preserved start event next initial along.1 taken) (along.2 next taken)

theorem Along.imp (implies : ∀ state event, condition state event → other state event)
    (along : Along step condition start events) : Along step other start events :=
  along.imp_of_invariant (fun _ => True) (fun _ _ _ _ _ _ => trivial)
    (fun state event _ => implies state event) trivial

variable {final : σ}

/-- What one step preserves under a condition on the step, a run of such steps
preserves. -/
theorem Along.invariant (inv : σ → Prop)
    (preserved : ∀ state event next, inv state → condition state event →
      step state event = some next → inv next) (along : Along step condition start events)
    (initial : inv start) (run : exec step start events = some final) : inv final := by
  induction events generalizing start with
  | nil =>
    cases run
    exact initial
  | cons event rest ih =>
    obtain ⟨next, taken, remaining⟩ := (exec_cons step start final event rest).mp run
    exact ih (along.2 next taken) (preserved start event next initial along.1 taken) remaining

theorem along_of_forall {condition : ε → Prop} (start : σ)
    (all : ∀ event ∈ events, condition event) :
    Along step (fun _ event => condition event) start events := by
  induction events generalizing start with
  | nil => trivial
  | cons event rest ih =>
    have tail : ∀ later ∈ rest, condition later :=
      fun later member => all later (mem_cons_of_mem _ member)
    exact ⟨all event mem_cons_self, fun next _ => ih next tail⟩

theorem along_true (start : σ) (events : List ε) : Along step (fun _ _ => True) start events :=
  along_of_forall start (fun _ _ => trivial)

/-- Conditions that agree wherever a step can be taken under an invariant agree along every
run. -/
theorem along_congr (inv : σ → Prop)
    (preserved : ∀ state event next, inv state → step state event = some next → inv next)
    (same : ∀ state event next, inv state → step state event = some next →
      (condition state event ↔ other state event)) (initial : inv start)
    (run : exec step start events = some final) :
    Along step condition start events ↔ Along step other start events := by
  induction events generalizing start with
  | nil => exact Iff.rfl
  | cons event rest ih =>
    obtain ⟨next, taken, remaining⟩ := (exec_cons step start final event rest).mp run
    have here := same start event next initial taken
    have later := ih (preserved start event next initial taken) remaining
    have only : ∀ other, step start event = some other → other = next :=
      fun other found => Option.some.inj (found.symm.trans taken)
    constructor
    · intro along
      exact ⟨here.mp along.1, fun other found =>
        only other found ▸ later.mp (along.2 next taken)⟩
    · intro along
      exact ⟨here.mpr along.1, fun other found =>
        only other found ▸ later.mpr (along.2 next taken)⟩

/-- The property holds in every state of the run. -/
def Throughout (step : σ → ε → Option σ) (property : σ → Prop) : σ → List ε → Prop
  | state, [] => property state
  | state, event :: rest =>
    property state ∧ ∀ next, step state event = some next → Throughout step property next rest

/-- In a run of steps that keep an invariant, what follows from the invariant holds
throughout. -/
theorem Along.throughout {inv property : σ → Prop}
    (preserved : ∀ state event next, inv state → condition state event →
      step state event = some next → inv next) (sound : ∀ state, inv state → property state)
    (along : Along step condition start events) (initial : inv start) :
    Throughout step property start events := by
  induction events generalizing start with
  | nil => exact sound start initial
  | cons event rest ih =>
    refine ⟨sound start initial, fun next taken => ?_⟩
    exact ih (along.2 next taken) (preserved start event next initial along.1 taken)

/-- A system with no disabled labels runs on every list of them. -/
theorem exec_of_total (total : ∀ state event, ∃ next, step state event = some next) (start : σ)
    (events : List ε) : ∃ final, exec step start events = some final := by
  induction events generalizing start with
  | nil => exact ⟨start, rfl⟩
  | cons event rest ih =>
    obtain ⟨next, taken⟩ := total start event
    obtain ⟨final, remaining⟩ := ih next
    exact ⟨final, (exec_cons step start final event rest).mpr ⟨next, taken, remaining⟩⟩

/-- If a condition on a step decides whether the step keeps a property, it decides on whole
runs whether the property holds throughout. -/
theorem throughout_iff_along {inv property : σ → Prop} (run : exec step start events = some final)
    (preserved : ∀ state event next, inv state → step state event = some next → inv next)
    (decides : ∀ state event next, inv state → property state → step state event = some next →
      (property next ↔ condition state event)) (initial : inv start) (holds : property start) :
    Throughout step property start events ↔ Along step condition start events := by
  induction events generalizing start with
  | nil => exact iff_of_true holds trivial
  | cons event rest ih =>
    obtain ⟨next, taken, remaining⟩ := (exec_cons step start final event rest).mp run
    have kept := preserved start event next initial taken
    have decided := decides start event next initial holds taken
    have only : ∀ other, step start event = some other → other = next :=
      fun other same => Option.some.inj (same.symm.trans taken)
    constructor
    · intro throughout
      have later := throughout.2 next taken
      have keeps : property next := by
        cases rest with
        | nil => exact later
        | cons following rest => exact later.1
      refine ⟨decided.mp keeps, fun other same => ?_⟩
      rw [only other same]
      exact (ih remaining kept keeps).mp later
    · intro along
      refine ⟨holds, fun other same => ?_⟩
      rw [only other same]
      exact (ih remaining kept (decided.mpr along.1)).mpr (along.2 next taken)

theorem Reaches.invariant (inv : σ → Prop)
    (preserved : ∀ state event next, inv state → step state event = some next → inv next)
    (reached : Reaches step start final) (initial : inv start) : inv final := by
  obtain ⟨events, run⟩ := reached
  exact (along_true start events).invariant inv
    (fun state event next holds _ => preserved state event next holds) initial run

/-- A system whose steps are all matched by another one stays related to what the other
one reaches. -/
theorem Reaches.simulates {α : Type} {abstractStep : α → α → Prop} (related : σ → α → Prop)
    (matched : ∀ state event next abstract, related state abstract →
      step state event = some next →
      ∃ later, Relation.ReflTransGen abstractStep abstract later ∧ related next later)
    {abstract : α} (reached : Reaches step start final) (initial : related start abstract) :
    ∃ later, Relation.ReflTransGen abstractStep abstract later ∧ related final later := by
  refine reached.invariant
    (fun state => ∃ later, Relation.ReflTransGen abstractStep abstract later ∧ related state later)
    ?_ ⟨abstract, .refl, initial⟩
  rintro state event next ⟨middle, before, holds⟩ taken
  obtain ⟨later, after, related⟩ := matched state event next middle holds taken
  exact ⟨later, before.trans after, related⟩

/-- A label of an agent is enabled if there is the agent and its guard holds. -/
theorem guarded {α β : Type} {agent : Option α} {guard : α → Prop} [DecidablePred guard]
    {act : α → Option β} {next : β}
    (taken : (agent.bind fun a => if guard a then act a else none) = some next) :
    ∃ a, agent = some a ∧ guard a ∧ act a = some next := by
  obtain ⟨a, found, acts⟩ := bind_eq_some_iff.mp taken
  exact ⟨a, found, ite_none_right_eq_some.mp acts⟩

section agents

variable {α : Type} {property : α → Prop} {agents : List α} {agent : α} {index : Nat}

/-- The agents of a system are a list in its state. One joins, moves on or leaves. -/
theorem forall_joined (each : ∀ other ∈ agents, property other) (joins : property agent) :
    ∀ other ∈ agents ++ [agent], property other :=
  forall_mem_append.mpr ⟨each, forall_mem_singleton.mpr joins⟩

theorem forall_moved (each : ∀ other ∈ agents, property other) (moves : property agent) :
    ∀ other ∈ agents.set index agent, property other := by
  intro other member
  rcases mem_or_eq_of_mem_set member with before | rfl
  · exact each other before
  · exact moves

theorem forall_left (each : ∀ other ∈ agents, property other) :
    ∀ other ∈ agents.eraseIdx index, property other :=
  fun other member => each other (mem_of_mem_eraseIdx member)

/-- The same where the property is of an agent and its place. -/
theorem indexed_joined {each : Nat → α → Prop}
    (others : ∀ place other, agents[place]? = some other → each place other)
    (joins : each agents.length agent) :
    ∀ place other, (agents ++ [agent])[place]? = some other → each place other := by
  intro place other found
  rw [getElem?_append] at found
  split at found
  · exact others place other found
  rename_i outside
  obtain ⟨inside, rfl⟩ := List.getElem?_eq_some_iff.mp found
  obtain rfl : place = agents.length := by
    rw [length_singleton] at inside
    omega
  simpa using joins

theorem indexed_moved {each : Nat → α → Prop}
    (others : ∀ place other, place ≠ index → agents[place]? = some other → each place other)
    (moves : each index agent) :
    ∀ place other, (agents.set index agent)[place]? = some other → each place other := by
  intro place other found
  rw [getElem?_set] at found
  split at found
  · rename_i same
    subst same
    split at found
    · cases found
      exact moves
    · cases found
  · rename_i different
    exact others place other (Ne.symm different) found

theorem countP_moved (counted : α → Bool) (agent : α) {before : α}
    (found : agents[index]? = some before) :
    (agents.set index agent).countP counted + (if counted before then 1 else 0) =
      agents.countP counted + (if counted agent then 1 else 0) := by
  obtain ⟨inside, rfl⟩ := List.getElem?_eq_some_iff.mp found
  rw [countP_set inside]
  have counts : (if counted agents[index] then 1 else 0) ≤ agents.countP counted := by
    split
    · rename_i chosen
      exact countP_pos_iff.mpr ⟨agents[index], getElem_mem inside, chosen⟩
    · exact Nat.zero_le _
  omega

end agents

end Runs
