import Gitaly.Base.KeyedTable
import Gitaly.Base.Runs
import Mathlib.Algebra.Order.Ring.Int

/- The limiter of internal/middleware/limithandler/concurrency_limiter.go: calls with the same
key share a semaphore, which is created for the first one and dropped with the last. -/
namespace Gitaly.Limithandler

open KeyedTable List Option Runs

/-- `tokens` is the number of tokens in the channel. -/
structure SemaphoreReference where
  tokens : Nat
  count : Int
  deriving DecidableEq

inductive Panic where
  /-- semaphore should be in the map -/
  | notInMap
  /-- bad semaphore ref count %d -/
  | badRefCount (count : Int)
  deriving DecidableEq

/-- A semaphore is named by its place in the memory, where it stays when the map drops it. -/
structure ConcurrencyLimiter where
  semaphores : KeyedTable (String × Nat) String Prod.fst
  max : Int
  memory : List SemaphoreReference

namespace ConcurrencyLimiter

def NewLimiter (max : Int) : ConcurrencyLimiter := ⟨.empty, max, []⟩

variable (c : ConcurrencyLimiter)

def getSemaphore (lockKey : String) : ConcurrencyLimiter × Nat :=
  match missing : c.semaphores.find lockKey with
  | some row =>
    ({ c with memory := c.memory.modify row.2 (fun ref => { ref with count := ref.count + 1 }) },
      row.2)
  | none =>
    ({ c with
      semaphores := c.semaphores.insert (lockKey, c.memory.length)
        (find_eq_none.mp missing)
      memory := c.memory ++ [⟨0, 1⟩] }, c.memory.length)

def putSemaphore (lockKey : String) : Except Panic ConcurrencyLimiter :=
  match c.semaphores.find lockKey with
  | none => .error .notInMap
  | some row =>
    match c.memory[row.2]? with
    | none => .error .notInMap
    | some ref =>
      if ref.count ≤ 0 then .error (.badRefCount ref.count)
      else
        let memory := c.memory.set row.2 { ref with count := ref.count - 1 }
        if ref.count - 1 = 0 then
          .ok { c with
            semaphores := c.semaphores.delete (fun other => other.1 = lockKey)
            memory := memory }
        else .ok { c with memory := memory }

theorem getSemaphore_max (lockKey : String) :
    (c.getSemaphore lockKey).1.max = c.max := by
  unfold getSemaphore
  split <;> rfl

end ConcurrencyLimiter

/-- Where a call of `Limit` is. The deferred calls come in the order release, put. -/
inductive Stage where
  | queued
  | acquiring (sem : Nat)
  /-- The context was done first. -/
  | refused (sem : Nat)
  /-- The function runs, without a semaphore if there is no limit. -/
  | running (sem : Option Nat)
  | leaving (sem : Nat)
  | released (sem : Nat)
  | returned
  | panicked (panic : Panic)
  deriving DecidableEq

namespace Stage

/-- The semaphore between `getSemaphore` and `putSemaphore`. -/
def semaphore : Stage → Option Nat
  | .acquiring sem | .refused sem | .leaving sem | .released sem => some sem
  | .running sem => sem
  | .queued | .returned | .panicked _ => none

/-- The semaphore of which the call has a token. -/
def token : Stage → Option Nat
  | .leaving sem => some sem
  | .running sem => sem
  | _ => none

def isRunning : Stage → Bool
  | .running _ => true
  | _ => false

theorem semaphore_of_token {stage : Stage} {sem : Nat} (owns : stage.token = some sem) :
    stage.semaphore = some sem := by
  cases stage <;> first | exact owns | cases owns

end Stage

structure Call where
  lockKey : String
  cancelled : Bool
  stage : Stage
  deriving DecidableEq

structure World where
  limiter : ConcurrencyLimiter
  calls : List Call

inductive Event where
  | limit (lockKey : String)
  | cancel (call : Nat)
  | getSemaphore (call : Nat)
  | acquire (call : Nat)
  | giveUp (call : Nat)
  | finish (call : Nat)
  | release (call : Nat)
  | putSemaphore (call : Nat)

namespace World

def start (max : Int) : World := ⟨.NewLimiter max, []⟩

def move (w : World) (call : Nat) (c : Call) (stage : Stage) : World :=
  { w with calls := w.calls.set call { c with stage := stage } }

def step (w : World) : Event → Option World
  | .limit lockKey =>
    some { w with
      calls := w.calls ++ [⟨lockKey, false, if w.limiter.max ≤ 0 then .running none else .queued⟩] }
  | .cancel call =>
    (w.calls[call]?).map (fun c =>
      { w with calls := w.calls.set call { c with cancelled := true } })
  | .getSemaphore call =>
    (w.calls[call]?).bind (fun c =>
      if c.stage = .queued then
        let (limiter, sem) := w.limiter.getSemaphore c.lockKey
        some ({ w with limiter := limiter }.move call c (.acquiring sem))
      else none)
  | .acquire call =>
    (w.calls[call]?).bind (fun c =>
      match c.stage with
      | .acquiring sem =>
        (w.limiter.memory[sem]?).bind (fun ref =>
          if (ref.tokens : Int) < w.limiter.max then
            some ({ w with
              limiter := { w.limiter with
                memory := w.limiter.memory.set sem { ref with tokens := ref.tokens + 1 } }
            }.move call c (.running (some sem)))
          else none)
      | _ => none)
  | .giveUp call =>
    (w.calls[call]?).bind (fun c =>
      match c.stage with
      | .acquiring sem => if c.cancelled then some (w.move call c (.refused sem)) else none
      | _ => none)
  | .finish call =>
    (w.calls[call]?).bind (fun c =>
      match c.stage with
      | .running (some sem) => some (w.move call c (.leaving sem))
      | .running none => some (w.move call c .returned)
      | _ => none)
  | .release call =>
    (w.calls[call]?).bind (fun c =>
      match c.stage with
      | .leaving sem =>
        (w.limiter.memory[sem]?).bind (fun ref =>
          if 0 < ref.tokens then
            some ({ w with
              limiter := { w.limiter with
                memory := w.limiter.memory.set sem { ref with tokens := ref.tokens - 1 } }
            }.move call c (.released sem))
          else none)
      | _ => none)
  | .putSemaphore call =>
    (w.calls[call]?).bind (fun c =>
      match c.stage with
      | .refused _ | .released _ =>
        match w.limiter.putSemaphore c.lockKey with
        | .ok limiter => some ({ w with limiter := limiter }.move call c .returned)
        | .error panic => some (w.move call c (.panicked panic))
      | _ => none)

end World

/-- The counts of the semaphores in the map are those of the calls that use them and of the
calls that have a token, and no other semaphore is in use. -/
structure Ledger (c : ConcurrencyLimiter) (users owners : Nat → Nat) : Prop where
  counted : ∀ row ∈ c.semaphores, ∃ ref, c.memory[row.2]? = some ref ∧
    ref.count = users row.2 ∧ ref.tokens = owners row.2 ∧ (ref.tokens : Int) ≤ c.max
  used : ∀ row ∈ c.semaphores, 0 < users row.2
  apart : ∀ row ∈ c.semaphores, ∀ other ∈ c.semaphores, row.2 = other.2 → row = other
  unused : ∀ sem, (∀ row ∈ c.semaphores, row.2 ≠ sem) → users sem = 0
  within : ∀ sem, owners sem ≤ users sem

namespace Ledger

variable {c : ConcurrencyLimiter} {users owners after : Nat → Nat}

theorem empty (max : Int) : Ledger (.NewLimiter max) (fun _ => 0) (fun _ => 0) where
  counted := fun _ absent => absurd absent not_mem_nil
  used := fun _ absent => absurd absent not_mem_nil
  apart := fun _ absent => absurd absent not_mem_nil
  unused := fun _ _ => rfl
  within := fun _ => le_rfl

section

variable (ledger : Ledger c users owners)
include ledger

theorem congr {users' owners' : Nat → Nat} (sameUsers : ∀ sem, users' sem = users sem)
    (sameOwners : ∀ sem, owners' sem = owners sem) :
    Ledger c users' owners' := by
  rw [funext sameUsers, funext sameOwners]
  exact ledger

theorem get (lockKey : String) (positive : 0 < c.max)
    (more : ∀ sem, after sem = users sem + if (c.getSemaphore lockKey).2 = sem then 1 else 0) :
    Ledger (c.getSemaphore lockKey).1 after owners ∧
      (lockKey, (c.getSemaphore lockKey).2) ∈ (c.getSemaphore lockKey).1.semaphores ∧
      ∀ row ∈ c.semaphores, row ∈ (c.getSemaphore lockKey).1.semaphores := by
  have grows : ∀ sem, users sem ≤ after sem := fun sem => by
    rw [more]
    exact Nat.le_add_right _ _
  unfold ConcurrencyLimiter.getSemaphore at more ⊢
  split at more
  · rename_i row found
    obtain ⟨present, rfl⟩ := find_eq_some.mp found
    refine ⟨⟨?_, fun other member => (ledger.used other member).trans_le (grows _), ledger.apart,
      ?_, fun sem => (ledger.within sem).trans (grows sem)⟩, present, fun _ => id⟩
    · intro other member
      obtain ⟨ref, stored, count, tokens, bound⟩ := ledger.counted other member
      rw [getElem?_modify, stored, more]
      by_cases same : row.2 = other.2
      · rw [if_pos same]
        exact ⟨{ ref with count := ref.count + 1 }, by simp [same], by simp [count], tokens, bound⟩
      · rw [if_neg same]
        exact ⟨ref, by simp [same], count, tokens, bound⟩
    · intro sem absent
      rw [more, if_neg (absent row present), ledger.unused sem absent]
  · rename_i missing
    have fresh := find_eq_none.mp missing
    have inside : ∀ row ∈ c.semaphores, row.2 < c.memory.length := by
      intro row member
      obtain ⟨ref, stored, -⟩ := ledger.counted row member
      exact (List.getElem?_eq_some_iff.mp stored).1
    have idle : users c.memory.length = 0 :=
      ledger.unused _ (fun row member => (inside row member).ne)
    have kept : ∀ {row}, row ∈ c.semaphores → c.memory.length ≠ row.2 :=
      fun member => (inside _ member).ne'
    refine ⟨⟨?_, ?_, ?_, ?_, fun sem => (ledger.within sem).trans (grows sem)⟩,
      (mem_insert _ _ fresh).mpr (.inr rfl),
      fun row member => (mem_insert _ _ fresh).mpr (.inl member)⟩
    · intro row member
      rcases (mem_insert _ _ fresh).mp member with old | rfl
      · obtain ⟨ref, stored, count, tokens, bound⟩ := ledger.counted row old
        refine ⟨ref, ?_, ?_, tokens, bound⟩
        · rw [getElem?_append_left (inside row old), stored]
        · rw [more, if_neg (kept old), count, Nat.add_zero]
      · refine ⟨⟨0, 1⟩, getElem?_concat_length, ?_, ?_, positive.le⟩
        · rw [more, if_pos rfl, idle]
          rfl
        · have none := ledger.within c.memory.length
          rw [idle] at none
          exact (Nat.le_zero.mp none).symm
    · intro row member
      rcases (mem_insert _ _ fresh).mp member with old | rfl
      · exact (ledger.used row old).trans_le (grows _)
      · rw [more, if_pos rfl]
        exact Nat.succ_pos _
    · intro row member other otherMember same
      rcases (mem_insert _ _ fresh).mp member with old | rfl
      · rcases (mem_insert _ _ fresh).mp otherMember with otherOld | rfl
        · exact ledger.apart row old other otherOld same
        · exact absurd same.symm (kept old)
      · rcases (mem_insert _ _ fresh).mp otherMember with otherOld | rfl
        · exact absurd same (kept otherOld)
        · rfl
    · intro sem absent
      have new := absent _ ((mem_insert _ _ fresh).mpr (.inr rfl))
      rw [more, if_neg new]
      exact ledger.unused sem
        (fun row member => absent row ((mem_insert _ _ fresh).mpr (.inl member)))

theorem setTokens {sem : Nat} {ref : SemaphoreReference} (stored : c.memory[sem]? = some ref)
    {tokens : Nat} (bound : (tokens : Int) ≤ c.max) (changed : after sem = tokens)
    (same : ∀ other, other ≠ sem → after other = owners other) (within : tokens ≤ users sem) :
    Ledger { c with memory := c.memory.set sem { ref with tokens := tokens } } users after where
  counted := by
    intro other member
    obtain ⟨otherRef, otherStored, count, otherTokens, otherBound⟩ := ledger.counted other member
    rw [getElem?_set]
    by_cases named : sem = other.2
    · rw [if_pos named, if_pos (List.getElem?_eq_some_iff.mp stored).1]
      rw [← named, stored] at otherStored
      cases otherStored
      exact ⟨_, rfl, count, by rw [← named, changed], bound⟩
    · rw [if_neg named]
      exact ⟨otherRef, otherStored, count, by rw [same _ (Ne.symm named), otherTokens], otherBound⟩
  used := ledger.used
  apart := ledger.apart
  unused := ledger.unused
  within := by
    intro other
    by_cases named : other = sem
    · rw [named, changed]
      exact within
    · rw [same other named]
      exact ledger.within other

theorem put {lockKey : String} {sem : Nat} (present : (lockKey, sem) ∈ c.semaphores)
    (less : after sem + 1 = users sem) (same : ∀ other, other ≠ sem → after other = users other)
    (within : owners sem ≤ after sem) :
    ∃ next, c.putSemaphore lockKey = .ok next ∧ Ledger next after owners ∧
      next.max = c.max ∧
      ∀ row ∈ c.semaphores, row ∈ next.semaphores ∨ row = (lockKey, sem) ∧ after sem = 0 := by
  obtain ⟨ref, stored, count, tokens, bound⟩ := ledger.counted _ present
  dsimp only at stored count tokens
  have found : c.semaphores.find lockKey = some (lockKey, sem) := find_eq_some.mpr ⟨present, rfl⟩
  have inside := (List.getElem?_eq_some_iff.mp stored).1
  have others : ∀ row ∈ c.semaphores, row ≠ (lockKey, sem) → row.2 ≠ sem :=
    fun row member different same => different (ledger.apart row member _ present same)
  have recount : ∀ row ∈ c.semaphores, ∃ stored,
      (c.memory.set sem { ref with count := ref.count - 1 })[row.2]? = some stored ∧
        stored.count = after row.2 ∧ stored.tokens = owners row.2 ∧
          (stored.tokens : Int) ≤ c.max := by
    intro row member
    rw [getElem?_set]
    by_cases named : row = (lockKey, sem)
    · subst named
      rw [if_pos rfl, if_pos inside]
      exact ⟨_, rfl, by dsimp only; omega, tokens, bound⟩
    · have apart := others row member named
      rw [if_neg (Ne.symm apart), same _ apart]
      exact ledger.counted row member
  have smaller : ∀ other, owners other ≤ after other := by
    intro other
    by_cases named : other = sem
    · rw [named]
      exact within
    · rw [same other named]
      exact ledger.within other
  unfold ConcurrencyLimiter.putSemaphore
  rw [found]
  dsimp only
  rw [stored]
  dsimp only
  rw [if_neg (by omega)]
  by_cases last : ref.count - 1 = 0
  · rw [if_pos last]
    have remaining : ∀ {row}, row ∈ c.semaphores.delete (fun other => other.1 = lockKey) ↔
        row ∈ c.semaphores ∧ row.1 ≠ lockKey := by
      intro row
      rw [mem_delete, decide_eq_false_iff_not]
    have alone : ∀ row ∈ c.semaphores, row.1 = lockKey → row = (lockKey, sem) :=
      fun row member named => eq_of_key member present named
    refine ⟨_, rfl, ⟨fun row member => recount row (remaining.mp member).1, ?_, ?_, ?_, smaller⟩,
      rfl, ?_⟩
    · intro row member
      obtain ⟨old, different⟩ := remaining.mp member
      have apart := others row old (fun same => different (by rw [same]))
      rw [same _ apart]
      exact ledger.used row old
    · exact fun row member other otherMember =>
        ledger.apart row (remaining.mp member).1 other (remaining.mp otherMember).1
    · intro other absent
      by_cases named : other = sem
      · subst named
        omega
      rw [same other named]
      refine ledger.unused other (fun row member => ?_)
      by_cases key : row.1 = lockKey
      · rw [alone row member key]
        exact Ne.symm named
      · exact absent row (remaining.mpr ⟨member, key⟩)
    · intro row member
      by_cases key : row.1 = lockKey
      · exact .inr ⟨alone row member key, by omega⟩
      · exact .inl (remaining.mpr ⟨member, key⟩)
  · rw [if_neg last]
    refine ⟨_, rfl, ⟨recount, ?_, ledger.apart, ?_, smaller⟩, rfl, fun row member => .inl member⟩
    · intro row member
      by_cases named : row = (lockKey, sem)
      · subst named
        dsimp only
        omega
      · rw [same _ (others row member named)]
        exact ledger.used row member
    · intro other absent
      rw [same other (absent _ present).symm]
      exact ledger.unused other absent

end

end Ledger

namespace World

variable {max : Int} {w next : World}

/-- The calls that use a semaphore, or those that have a token of it. -/
def holders (held : Stage → Option Nat) (calls : List Call) (sem : Nat) : Nat :=
  calls.countP (fun c => held c.stage = some sem)

/-- What is true of a call by itself. -/
structure Proper (semaphores : KeyedTable (String × Nat) String Prod.fst) (c : Call) : Prop where
  mapped : ∀ sem, c.stage.semaphore = some sem → (c.lockKey, sem) ∈ semaphores
  limited : c.stage ≠ .running none
  calm : ∀ panic, c.stage ≠ .panicked panic

structure Inv (max : Int) (w : World) : Prop where
  limit : w.limiter.max = max
  positive : 0 < max
  ledger : Ledger w.limiter (holders Stage.semaphore w.calls) (holders Stage.token w.calls)
  calls : ∀ c ∈ w.calls, Proper w.limiter.semaphores c

theorem start_inv (positive : 0 < max) : (start max).Inv max where
  limit := rfl
  positive := positive
  ledger := .empty max
  calls := fun _ absent => absurd absent not_mem_nil

theorem Proper.mono {semaphores larger : KeyedTable (String × Nat) String Prod.fst} {c : Call}
    (proper : Proper semaphores c) (sub : ∀ row ∈ semaphores, row ∈ larger) : Proper larger c :=
  ⟨fun sem uses => sub _ (proper.mapped sem uses), proper.limited, proper.calm⟩

section move

variable {call : Nat} {c : Call}

section

variable {calls : List Call} (held : Stage → Option Nat) (agent : Call)
  (found : calls[call]? = some c)
include found

theorem holders_moved (sem : Nat) :
    holders held (calls.set call agent) sem + (if held c.stage = some sem then 1 else 0) =
      holders held calls sem + (if held agent.stage = some sem then 1 else 0) := by
  simpa only [holders, decide_eq_true_eq] using
    countP_moved (fun c => held c.stage = some sem) agent found

theorem holders_kept (same : held agent.stage = held c.stage) (sem : Nat) :
    holders held (calls.set call agent) sem = holders held calls sem := by
  have moved := holders_moved held agent found sem
  rw [same] at moved
  exact Nat.add_right_cancel moved

end

theorem holders_pos {held : Stage → Option Nat} {calls : List Call} (member : c ∈ calls)
    {sem : Nat} (holds : held c.stage = some sem) : 0 < holders held calls sem :=
  countP_pos_iff.mpr ⟨c, member, decide_eq_true holds⟩

theorem Inv.stay (inv : w.Inv max) (found : w.calls[call]? = some c) {agent : Call}
    (lockKey : agent.lockKey = c.lockKey) (semaphore : agent.stage.semaphore = c.stage.semaphore)
    (token : agent.stage.token = c.stage.token) (limited : agent.stage ≠ .running none)
    (calm : ∀ panic, agent.stage ≠ .panicked panic) :
    ({ w with calls := w.calls.set call agent } : World).Inv max where
  limit := inv.limit
  positive := inv.positive
  ledger := inv.ledger.congr (holders_kept _ agent found semaphore)
    (holders_kept _ agent found token)
  calls := by
    have proper := inv.calls c (mem_of_getElem? found)
    refine forall_moved inv.calls ⟨?_, limited, calm⟩
    intro sem uses
    rw [lockKey]
    exact proper.mapped sem (semaphore ▸ uses)

theorem Inv.getSemaphore (inv : w.Inv max) (found : w.calls[call]? = some c)
    (queued : c.stage = .queued) :
    ({ w with limiter := (w.limiter.getSemaphore c.lockKey).1 }.move call c
      (.acquiring (w.limiter.getSemaphore c.lockKey).2)).Inv max := by
  have users := holders_moved Stage.semaphore
    { c with stage := .acquiring (w.limiter.getSemaphore c.lockKey).2 } found
  have owners := holders_moved Stage.token
    { c with stage := .acquiring (w.limiter.getSemaphore c.lockKey).2 } found
  simp only [queued, Stage.semaphore, Stage.token, reduceCtorEq, if_false, Nat.add_zero,
    Option.some.injEq] at users owners
  obtain ⟨ledger, present, grows⟩ := inv.ledger.get c.lockKey (inv.limit ▸ inv.positive) users
  refine ⟨?_, inv.positive, ledger.congr (fun _ => rfl) owners, ?_⟩
  · exact (w.limiter.getSemaphore_max c.lockKey).trans inv.limit
  · refine forall_moved (fun other member => (inv.calls other member).mono grows) ⟨?_, ?_, ?_⟩
    · intro sem uses
      cases uses
      exact present
    all_goals exact nofun

theorem owners_le_users (calls : List Call) (sem : Nat) :
    holders Stage.token calls sem ≤ holders Stage.semaphore calls sem := by
  refine countP_mono_left (fun c _ owns => ?_)
  exact decide_eq_true (Stage.semaphore_of_token (of_decide_eq_true owns))

theorem Inv.setTokens (inv : w.Inv max) (found : w.calls[call]? = some c) {sem : Nat}
    {stage : Stage} (before : c.stage.semaphore = some sem) (after : stage.semaphore = some sem)
    {ref : SemaphoreReference} (stored : w.limiter.memory[sem]? = some ref) {tokens : Nat}
    (bound : (tokens : Int) ≤ w.limiter.max)
    (counted : tokens + (if c.stage.token = some sem then 1 else 0) =
      ref.tokens + (if stage.token = some sem then 1 else 0)) :
    ({ w with limiter := { w.limiter with
        memory := w.limiter.memory.set sem { ref with tokens := tokens }
      } }.move call c stage).Inv max := by
  have proper := inv.calls c (mem_of_getElem? found)
  obtain ⟨_, sameRef, _, owned, _⟩ := inv.ledger.counted _ (proper.mapped sem before)
  cases sameRef.symm.trans stored
  have users := holders_kept Stage.semaphore { c with stage := stage } found
    (after.trans before.symm)
  have owners : holders Stage.token (w.calls.set call { c with stage := stage }) sem = tokens := by
    have moved := holders_moved Stage.token { c with stage := stage } found sem
    dsimp only at owned moved
    omega
  have others : ∀ other, other ≠ sem → holders Stage.token
      (w.calls.set call { c with stage := stage }) other = holders Stage.token w.calls other := by
    intro other different
    have none : ∀ {at_ : Stage}, at_.semaphore = some sem → at_.token ≠ some other := by
      intro at_ uses owns
      exact different (Option.some.inj ((Stage.semaphore_of_token owns).symm.trans uses))
    have moved := holders_moved Stage.token { c with stage := stage } found other
    rwa [if_neg (none before), if_neg (none after)] at moved
  refine ⟨inv.limit, inv.positive, (inv.ledger.setTokens stored bound owners others ?_).congr users
    (fun _ => rfl), forall_moved inv.calls ⟨?_, ?_, ?_⟩⟩
  · rw [← owners, ← users sem]
    exact owners_le_users _ sem
  · intro other uses
    cases after.symm.trans uses
    exact proper.mapped sem before
  · rintro rfl
    cases after
  · rintro _ rfl
    cases after

theorem Inv.putSemaphore (inv : w.Inv max) (found : w.calls[call]? = some c) {sem : Nat}
    (uses : c.stage.semaphore = some sem) (freed : c.stage.token = none) :
    ∃ limiter, w.limiter.putSemaphore c.lockKey = .ok limiter ∧
      ({ w with limiter := limiter }.move call c .returned).Inv max := by
  have users := holders_moved Stage.semaphore { c with stage := .returned } found
  have owners := holders_kept Stage.token { c with stage := .returned } found freed.symm
  rw [uses] at users
  have less := users sem
  rw [if_pos rfl] at less
  have same : ∀ other, other ≠ sem → _ := fun other different => by
    have moved := users other
    rwa [if_neg (fun same => different (Option.some.inj same).symm)] at moved
  have within := owners_le_users (w.calls.set call { c with stage := .returned }) sem
  rw [owners] at within
  have proper := inv.calls c (mem_of_getElem? found)
  obtain ⟨limiter, put, ledger, sameMax, kept⟩ :=
    inv.ledger.put (proper.mapped sem uses) less same within
  refine ⟨limiter, put, sameMax.trans inv.limit, inv.positive,
    ledger.congr (fun _ => rfl) owners, ?_⟩
  · intro other member
    have old : other.stage = .returned ∨ Proper w.limiter.semaphores other := by
      rcases mem_or_eq_of_mem_set member with before | rfl
      · exact .inr (inv.calls other before)
      · exact .inl rfl
    rcases old with returned | proper
    · exact ⟨by simp [returned, Stage.semaphore], by simp [returned], by simp [returned]⟩
    refine ⟨fun used otherUses => ?_, proper.limited, proper.calm⟩
    rcases kept _ (proper.mapped used otherUses) with still | ⟨dropped, unused⟩
    · exact still
    · obtain rfl : used = sem := (Prod.mk.inj dropped).2
      exact absurd unused (holders_pos member otherUses).ne'

end move

theorem step_inv (event : Event) (inv : w.Inv max) (taken : w.step event = some next) :
    next.Inv max := by
  cases event with
  | limit lockKey =>
    cases taken
    have new : ∀ held : Stage → Option Nat, held .queued = none → ∀ sem,
        holders held (w.calls ++ [⟨lockKey, false, .queued⟩]) sem = holders held w.calls sem := by
      intro held none sem
      simp [holders, none]
    have limited : ¬ w.limiter.max ≤ 0 := not_le.mpr (inv.limit ▸ inv.positive)
    simp only [if_neg limited]
    exact ⟨inv.limit, inv.positive, inv.ledger.congr (new _ rfl) (new _ rfl),
      forall_joined inv.calls ⟨nofun, nofun, nofun⟩⟩
  | cancel call =>
    obtain ⟨c, found, rfl⟩ := map_eq_some_iff.mp taken
    have proper := inv.calls c (mem_of_getElem? found)
    exact inv.stay found rfl rfl rfl proper.limited proper.calm
  | getSemaphore call =>
    obtain ⟨c, found, queued, taken⟩ := guarded taken
    cases taken
    exact inv.getSemaphore found queued
  | acquire call =>
    obtain ⟨c, found, taken⟩ := bind_eq_some_iff.mp taken
    split at taken
    · rename_i sem acquiring
      obtain ⟨ref, stored, free, taken⟩ := guarded taken
      cases taken
      refine inv.setTokens found (by rw [acquiring]; rfl) rfl stored free ?_
      simp [acquiring, Stage.token]
    · cases taken
  | giveUp call =>
    obtain ⟨c, found, taken⟩ := bind_eq_some_iff.mp taken
    split at taken
    · rename_i sem acquiring
      split at taken
      · cases taken
        exact inv.stay found rfl (by rw [acquiring]; rfl) (by rw [acquiring]; rfl) nofun nofun
      · cases taken
    · cases taken
  | finish call =>
    obtain ⟨c, found, taken⟩ := bind_eq_some_iff.mp taken
    split at taken
    · rename_i sem running
      cases taken
      exact inv.stay found rfl (by rw [running]; rfl) (by rw [running]; rfl) nofun nofun
    · rename_i running
      exact absurd running (inv.calls c (mem_of_getElem? found)).limited
    · cases taken
  | release call =>
    obtain ⟨c, found, taken⟩ := bind_eq_some_iff.mp taken
    split at taken
    · rename_i sem leaving
      obtain ⟨ref, stored, owned, taken⟩ := guarded taken
      cases taken
      have proper := inv.calls c (mem_of_getElem? found)
      have uses : c.stage.semaphore = some sem := by rw [leaving]; rfl
      obtain ⟨_, same, _, _, bound⟩ := inv.ledger.counted _ (proper.mapped sem uses)
      cases same.symm.trans stored
      refine inv.setTokens found uses rfl stored (by omega) ?_
      simp only [leaving, Stage.token]
      simp
      omega
    · cases taken
  | putSemaphore call =>
    obtain ⟨c, found, taken⟩ := bind_eq_some_iff.mp taken
    have leaves : ∀ sem, c.stage = .refused sem ∨ c.stage = .released sem →
        (match w.limiter.putSemaphore c.lockKey with
          | .ok limiter => some ({ w with limiter := limiter }.move call c .returned)
          | .error panic => some (w.move call c (.panicked panic))) = some next →
        next.Inv max := by
      intro sem stage taken
      have uses : c.stage.semaphore = some sem := by
        rcases stage with stage | stage <;> rw [stage] <;> rfl
      have freed : c.stage.token = none := by rcases stage with stage | stage <;> rw [stage] <;> rfl
      obtain ⟨limiter, put, kept⟩ := inv.putSemaphore found uses freed
      rw [put] at taken
      cases taken
      exact kept
    split at taken
    · rename_i sem refused
      exact leaves sem (.inl refused) taken
    · rename_i sem released
      exact leaves sem (.inr released) taken
    · cases taken

theorem Inv.one_semaphore (inv : w.Inv max) {c other : Call} (member : c ∈ w.calls)
    (otherMember : other ∈ w.calls) (key : c.lockKey = other.lockKey) {sem otherSem : Nat}
    (uses : c.stage.semaphore = some sem) (otherUses : other.stage.semaphore = some otherSem) :
    sem = otherSem := by
  have mapped := (inv.calls c member).mapped sem uses
  have otherMapped := (inv.calls other otherMember).mapped otherSem otherUses
  exact congrArg Prod.snd (eq_of_key mapped otherMapped key)

theorem Inv.running_token (inv : w.Inv max) {c : Call} (member : c ∈ w.calls)
    (running : c.stage.isRunning = true) : ∃ sem, c.stage.token = some sem := by
  have limited := (inv.calls c member).limited
  cases stage : c.stage with
  | running sem =>
    cases sem with
    | none => exact absurd stage limited
    | some sem => exact ⟨sem, rfl⟩
  | _ => rw [stage] at running; cases running

/-- The running functions of one key have tokens of one semaphore. -/
theorem Inv.running_le (inv : w.Inv max) (lockKey : String) :
    (w.calls.countP (fun c => c.lockKey = lockKey && c.stage.isRunning) : Int) ≤ max := by
  by_cases runs : ∃ c ∈ w.calls, c.lockKey = lockKey ∧ c.stage.isRunning
  · obtain ⟨c, member, rfl, running⟩ := runs
    obtain ⟨sem, stage⟩ := inv.running_token member running
    have present := (inv.calls c member).mapped sem (Stage.semaphore_of_token stage)
    obtain ⟨ref, _, _, owners, bound⟩ := inv.ledger.counted _ present
    have fewer : w.calls.countP (fun other => other.lockKey = c.lockKey && other.stage.isRunning) ≤
        holders Stage.token w.calls sem := by
      refine countP_mono_left (fun other otherMember matched => decide_eq_true ?_)
      obtain ⟨key, otherRunning⟩ := (Bool.and_eq_true_iff).mp matched
      obtain ⟨otherSem, otherStage⟩ := inv.running_token otherMember otherRunning
      rwa [inv.one_semaphore member otherMember (of_decide_eq_true key).symm
        (Stage.semaphore_of_token stage) (Stage.semaphore_of_token otherStage)]
    rw [inv.limit] at bound
    dsimp only at owners
    omega
  · have none : w.calls.countP (fun c => c.lockKey = lockKey && c.stage.isRunning) = 0 := by
      refine countP_eq_zero.mpr (fun c member matched => runs ⟨c, member, ?_⟩)
      obtain ⟨key, running⟩ := (Bool.and_eq_true_iff).mp matched
      exact ⟨of_decide_eq_true key, running⟩
    rw [none]
    exact inv.positive.le

theorem Inv.semaphores_empty (inv : w.Inv max) (returned : ∀ c ∈ w.calls, c.stage = .returned) :
    w.limiter.semaphores.rows = [] := by
  refine eq_nil_iff_forall_not_mem.mpr (fun row member => ?_)
  obtain ⟨c, called, uses⟩ := countP_pos_iff.mp (inv.ledger.used row member)
  rw [returned c called] at uses
  cases uses

theorem start_reaches_inv (positive : 0 < max) (reached : Reaches step (start max) w) :
    w.Inv max :=
  reached.invariant (Inv max) (fun _ event _ inv taken => step_inv event inv taken)
    (start_inv positive)

end World

/-- What the limiter promises of the calls so far. -/
structure Limited (max : Int) (w : World) : Prop where
  running : ∀ lockKey,
    (w.calls.countP (fun c => c.lockKey = lockKey && c.stage.isRunning) : Int) ≤ max
  semaphore : ∀ c ∈ w.calls, ∀ other ∈ w.calls, c.lockKey = other.lockKey →
    ∀ sem otherSem, c.stage.semaphore = some sem → other.stage.semaphore = some otherSem →
      sem = otherSem
  calm : ∀ c ∈ w.calls, ∀ panic, c.stage ≠ .panicked panic
  emptied : (∀ c ∈ w.calls, c.stage = .returned) → w.limiter.semaphores.rows = []

theorem limited_of_reaches {max : Int} (positive : 0 < max) {w : World}
    (reached : Reaches World.step (World.start max) w) : Limited max w := by
  have inv := World.start_reaches_inv positive reached
  exact {
    running := inv.running_le
    semaphore := fun c member other otherMember key sem otherSem uses otherUses =>
      inv.one_semaphore member otherMember key uses otherUses
    calm := fun c member => (inv.calls c member).calm
    emptied := inv.semaphores_empty }

/-- A second call waits for the token of the first, gives up and returns. -/
def contended : List Event :=
  [.limit "user", .limit "user", .getSemaphore 0, .getSemaphore 1, .acquire 0, .cancel 1, .giveUp 1,
    .putSemaphore 1, .finish 0, .release 0, .putSemaphore 0]

theorem contended_limited : 0 < (1 : Int) ∧
    Limited 1 ((exec World.step (World.start 1) contended).get (by decide)) :=
  ⟨by decide, limited_of_reaches (by decide) (.of_exec (by decide))⟩

/-- Without a limit a function runs at once. -/
theorem unlimited_runs : ∃ w, Reaches World.step (World.start 0) w ∧ ¬ Limited 0 w := by
  refine ⟨_, ⟨[.limit "user"], rfl⟩, fun limited => ?_⟩
  exact absurd (limited.running "user") (by decide)

end Gitaly.Limithandler
