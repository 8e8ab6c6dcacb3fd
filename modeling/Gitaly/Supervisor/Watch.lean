import Gitaly.Base.Runs
import Mathlib.Algebra.Group.Nat.Defs

/- The respawn loop of the supervisor. -/
namespace Gitaly.Supervisor

open Runs Option

structure Config where
  crashThreshold : Nat
  crashWaitTime : Nat
  crashResetTime : Nat
  positive : 0 < crashThreshold

/-- How long the loop waits before it repeats the notification, in nanoseconds. -/
def minute : Nat := 60 * 10 ^ 9

inductive Phase where
  /-- At the top of `spawnLoop`. -/
  | spawn
  /-- The circuit breaker is open. -/
  | opened (deadline : Nat)
  /-- Before the shutdown is polled for. -/
  | poll
  | start
  /-- The process is sent to the monitor. -/
  | monitor
  /-- In the `select` of `waitLoop`, whose timers have been started at this time. -/
  | wait (since : Nat)
  | kill
  | stop
  | done
deriving DecidableEq

structure Process where
  phase : Phase
  crashes : Nat
  now : Nat
  /-- `Stop` has been called. -/
  shutdown : Bool
  running : Bool
  started : Nat
  /-- How long every process ran that has crashed, the last one first; not at all if it did
  not start. -/
  ran : List Nat
  /-- The processes that were started after `Stop` was called. -/
  late : Nat

def new : Process := ⟨.spawn, 0, 0, false, false, 0, [], 0⟩

inductive Event where
  | pass (time : Nat)
  | stop
  /-- The process exits. -/
  | exit
  /-- The loop goes on. -/
  | go
  | fail
  | notifyUp
  | reset
  | shutdown

variable (config : Config) (p : Process)

def Process.crash (ran : Nat) : Process :=
  { p with phase := .spawn, crashes := p.crashes + 1, ran := ran :: p.ran }

def step : Event → Option Process
  | .pass time => some { p with now := p.now + time }
  | .stop => some { p with shutdown := true }
  | .exit => if p.running then some { p with running := false } else none
  | .go =>
    match p.phase with
    | .spawn =>
      if config.crashThreshold ≤ p.crashes then
        some { p with phase := .opened (p.now + config.crashWaitTime) }
      else some { p with phase := .poll }
    | .opened deadline =>
      if deadline ≤ p.now then some { p with phase := .poll, crashes := 0 } else none
    | .poll => some { p with phase := if p.shutdown then .stop else .start }
    | .start =>
      some { p with
        phase := .monitor
        running := true
        started := p.now
        late := p.late + if p.shutdown then 1 else 0 }
    | .monitor => some { p with phase := .wait p.now }
    | .wait _ => if p.running then none else some (p.crash (p.now - p.started))
    | .kill => if p.running then none else some { p with phase := .stop }
    | .stop => some { p with phase := .done }
    | .done => none
  | .fail => if p.phase = .start then some (p.crash 0) else none
  | .notifyUp =>
    match p.phase with
    | .wait since => if since + minute ≤ p.now then some { p with phase := .wait p.now } else none
    | _ => none
  | .reset =>
    match p.phase with
    | .wait since =>
      if since + config.crashResetTime ≤ p.now then
        some { p with phase := .wait p.now, crashes := 0 }
      else none
    | _ => none
  | .shutdown =>
    match p.phase with
    | .opened _ => if p.shutdown then some { p with phase := .stop } else none
    | .wait _ => if p.shutdown then some { p with phase := .kill } else none
    | _ => none

/-- A stopped supervisor starts no more than one process and leaves none. -/
structure Stopped (p : Process) : Prop where
  stops : p.late ≤ 1
  ends : p.phase = .done → p.running = false

/-- The circuit breaker is open only after crashes with no long run between them, and a process
that has been running for long has its crashes forgotten. -/
structure Sound (p : Process) : Prop extends Stopped p where
  opens : ∀ deadline, p.phase = .opened deadline → config.crashThreshold ≤ p.ran.length ∧
    ∀ time ∈ p.ran.take (config.crashThreshold - 1), time ≤ config.crashResetTime
  forgets : p.running = true → config.crashResetTime < p.now - p.started → p.crashes = 0

/-- No time passes while a process is sent to the monitor or dies, nor while something can be
done that the loop waits for: a timer is taken when it is due. -/
def Process.idle (time : Nat) : Bool :=
  match p.phase with
  | .opened deadline => time ≤ deadline
  | .wait since => p.running ∧ time ≤ since + config.crashResetTime ∧ time ≤ since + minute
  | .monitor | .kill => time = p.now
  | _ => true

def Prompt : Event → Prop
  | .pass time => p.idle config (p.now + time) = true
  | _ => True

instance decidablePrompt (event : Event) : Decidable (Prompt config p event) := by
  unfold Prompt
  split <;> infer_instance

variable {config}

structure Stops (p : Process) : Prop where
  alive : p.running = true → p.phase = .monitor ∨ (∃ since, p.phase = .wait since) ∨ p.phase = .kill
  unstopped : p.shutdown = false → p.late = 0
  starts : p.phase = .start → p.late = 0
  stops : p.late ≤ 1

theorem Stops.stopped {p : Process} (inv : Stops p) : Stopped p :=
  ⟨inv.stops, fun done => by simpa [done] using inv.alive⟩

theorem step_stops {p next : Process} {event : Event} (inv : Stops p)
    (taken : step config p event = some next) : Stops next := by
  have ⟨alive, unstopped, starts, stops⟩ := inv
  cases event with
  | pass time =>
    cases taken
    exact { inv with }
  | stop =>
    cases taken
    exact { inv with unstopped := by simp }
  | exit =>
    obtain ⟨-, ⟨⟩⟩ := ite_none_right_eq_some.mp taken
    exact { inv with alive := by simp }
  | fail =>
    obtain ⟨start, ⟨⟩⟩ := ite_none_right_eq_some.mp taken
    constructor <;> simp_all [Process.crash]
  | go =>
    simp only [step] at taken
    repeat' split at taken
    all_goals cases taken
    -- A process is started only where the shutdown was polled for.
    all_goals cases stopped : p.shutdown <;> constructor <;> simp_all [Process.crash]
  | notifyUp | reset | shutdown =>
    simp only [step] at taken
    repeat' split at taken
    all_goals cases taken
    all_goals constructor <;> simp_all

structure Inv (config : Config) (p : Process) : Prop extends Stops p where
  counted : p.crashes ≤ p.ran.length
  short : ∀ time ∈ p.ran.take (p.crashes - 1), time ≤ config.crashResetTime
  opens : ∀ deadline, p.phase = .opened deadline → config.crashThreshold ≤ p.crashes
  fresh : p.phase = .monitor → p.now = p.started
  waits : ∀ since, p.phase = .wait since →
    p.crashes = 0 ∨ since = p.started ∧ p.now ≤ p.started + config.crashResetTime
  killed : p.phase = .kill → p.crashes = 0 ∨ p.now ≤ p.started + config.crashResetTime

/-- A crash follows the long run of its process only if there was none before it. -/
theorem Inv.crash {p : Process} (inv : Inv config p) {ran : Nat} (stops : Stops (p.crash ran))
    (brief : p.crashes = 0 ∨ ran ≤ config.crashResetTime) : Inv config (p.crash ran) := by
  have ⟨_, counted, short, _, _, _, _⟩ := inv
  constructor
  case short =>
    cases crashes : p.crashes with
    | zero => simp [Process.crash, crashes]
    | succ n =>
      simp only [Process.crash, crashes, Nat.add_sub_cancel, List.take_succ_cons,
        List.forall_mem_cons]
      rw [crashes] at short brief
      exact ⟨brief.resolve_left (Nat.succ_ne_zero n), short⟩
  all_goals simp_all [Process.crash]

theorem step_inv (fast : config.crashResetTime < minute) {p next : Process} {event : Event}
    (inv : Inv config p) (prompt : Prompt config p event) (taken : step config p event = some next) :
    Inv config next := by
  have lasting := step_stops inv.toStops taken
  have ⟨_, counted, short, opens, fresh, waits, killed⟩ := inv
  cases event with
  | pass time =>
    cases taken
    unfold Prompt Process.idle at prompt
    refine { inv with fresh := fun monitor => ?_, waits := ?_, killed := fun kill => ?_ }
    · change p.phase = .monitor at monitor
      simp_all
    · intro since (wait : p.phase = .wait since)
      simp only [wait, decide_eq_true_eq] at prompt
      exact (waits since wait).imp id (fun ⟨first, _⟩ => ⟨first, first ▸ prompt.2.1⟩)
    · change p.phase = .kill at kill
      simp_all
  | stop =>
    cases taken
    exact { inv with toStops := lasting }
  | exit =>
    obtain ⟨-, ⟨⟩⟩ := ite_none_right_eq_some.mp taken
    exact { inv with toStops := lasting }
  | go =>
    simp only [step] at taken
    split at taken
    · split at taken
      all_goals cases taken; constructor <;> simp_all
    · obtain ⟨-, ⟨⟩⟩ := ite_none_right_eq_some.mp taken
      constructor <;> simp_all
    · cases taken
      cases stopped : p.shutdown <;> constructor <;> simp_all
    · cases taken
      cases stopped : p.shutdown <;> constructor <;> simp_all
    · cases taken
      constructor <;> simp_all
    · rename_i since wait
      split at taken
      all_goals cases taken
      refine inv.crash lasting ((waits since wait).imp id (fun ⟨_, short⟩ => ?_))
      omega
    · split at taken
      all_goals cases taken
      constructor <;> simp_all
    · cases taken
      constructor <;> simp_all
    · cases taken
  | fail =>
    obtain ⟨start, ⟨⟩⟩ := ite_none_right_eq_some.mp taken
    exact inv.crash lasting (.inr (Nat.zero_le _))
  | notifyUp =>
    simp only [step] at taken
    split at taken
    · rename_i since wait
      obtain ⟨due, ⟨⟩⟩ := ite_none_right_eq_some.mp taken
      have clear : p.crashes = 0 := (waits since wait).resolve_right (by omega)
      constructor <;> simp_all
    · cases taken
  | reset =>
    simp only [step] at taken
    split at taken
    · obtain ⟨-, ⟨⟩⟩ := ite_none_right_eq_some.mp taken
      constructor <;> simp_all
    · cases taken
  | shutdown =>
    simp only [step] at taken
    split at taken
    · obtain ⟨-, ⟨⟩⟩ := ite_none_right_eq_some.mp taken
      constructor <;> simp_all
    · rename_i since wait
      obtain ⟨-, ⟨⟩⟩ := ite_none_right_eq_some.mp taken
      have short := (waits since wait).imp_right And.right
      constructor <;> simp_all
    · cases taken

theorem Inv.sound {p : Process} (inv : Inv config p) : Sound config p where
  toStopped := inv.toStops.stopped
  opens deadline opened := by
    have crashed := inv.opens deadline opened
    refine ⟨Nat.le_trans crashed inv.counted, fun time member => inv.short time ?_⟩
    exact List.take_subset_take_left p.ran (Nat.sub_le_sub_right crashed 1) member
  forgets running long := by
    rcases inv.alive running with monitor | ⟨since, wait⟩ | kill
    · have started := inv.fresh monitor
      omega
    · have waits := inv.waits since wait
      omega
    · have killed := inv.killed kill
      omega

theorem new_inv : Inv config new := by
  have stops : Stops new := by constructor <;> simp [new]
  refine ⟨stops, ?_, ?_, ?_, ?_, ?_, ?_⟩ <;> simp [new]

/-- The timers start anew with every notification, so that the one that forgets the crashes has
to be the shorter one. A supervisor is stopped whatever the timers do. -/
theorem watch_sound (config : Config) (events : List Event) :
    Throughout (step config) Stopped new events ∧
      (config.crashResetTime < minute → Along (step config) (Prompt config) new events →
        Throughout (step config) (Sound config) new events) := by
  have start : Inv config new := new_inv
  refine ⟨?_, fun fast prompt => ?_⟩
  · exact (along_true new events).throughout (fun _ _ _ inv _ taken => step_stops inv taken)
      (fun _ inv => inv.stopped) start.toStops
  · exact prompt.throughout (fun _ _ _ inv prompt taken => step_inv fast inv prompt taken)
      (fun _ inv => inv.sound) start

/-- Every process but the third one runs for a short time. -/
def crashing : List Event :=
  [.go, .go, .fail, .go, .go, .go, .go, .pass 1, .exit, .go, .go, .pass 5, .go, .go, .go, .go,
    .pass 2, .reset, .pass 1, .stop, .shutdown, .exit, .go, .go]

def quick : Config := ⟨2, 5, 2, by decide⟩

theorem crashing_sound : Along (step quick) (Prompt quick) new crashing ∧
    Throughout (step quick) (Sound quick) new crashing := by
  have prompt : Along (step quick) (Prompt quick) new crashing := by decide
  exact ⟨prompt, (watch_sound quick crashing).2 (by decide) prompt⟩

def failing : List Event := [.go, .go, .fail, .go, .go, .go, .go, .pass minute, .notifyUp, .pass 1]

/-- With the times of the default configuration the notification comes when the crashes are to
be forgotten, and starts the timer anew. -/
theorem notification_prevents_reset :
    Along (step ⟨5, minute, minute, by decide⟩) (Prompt ⟨5, minute, minute, by decide⟩) new
      failing ∧
    (exec (step ⟨5, minute, minute, by decide⟩) new failing).map
      (fun p => (p.running, p.now - p.started, p.crashes)) = some (true, minute + 1, 1) := by
  decide +kernel

end Gitaly.Supervisor
