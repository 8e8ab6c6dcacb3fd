import Gitaly.Praefect.ReconcilerStability
import Mathlib.Data.List.Pairwise

/- Statements of several reconcilers that overlap. Each one reads the database as it is when
the statement starts, tries the lock at some time and commits at a later one. -/
namespace Gitaly.Praefect.Reconciler.Concurrent

open Datastore Runs PostgresReplicationEventQueue List Option

structure Statement where
  run : Run
  snapshot : Database
  /-- The commits before the statement started. -/
  commits : Nat
  /-- What `pg_try_advisory_xact_lock` has returned. -/
  acquired : Option Bool

structure World where
  db : Database
  statements : List Statement
  /-- The statements that have inserted their jobs. -/
  commits : Nat
  /-- The events that they have inserted. -/
  scheduled : List Nat

inductive Event where
  | start (run : Run)
  | tryLock (statement : Nat)
  | commit (statement : Nat)
  | request (request : Request)
  | store (store : PostgresRepositoryStore)

namespace World

variable (store : PostgresRepositoryStore)

def start : World := ⟨.idle store, [], 0, []⟩

/-- No statement holds the lock. -/
def Free (w : World) : Prop := ∀ statement ∈ w.statements, statement.acquired ≠ some true

instance (w : World) : Decidable w.Free :=
  inferInstanceAs (Decidable (∀ statement ∈ w.statements, _))

/-- The lock is released with the end of the transaction. -/
def step (w : World) : Event → Option World
  | .start run =>
    if healthyStorages run.healthyNodes = [] then some w
    else some { w with statements := w.statements ++ [⟨run, w.db, w.commits, none⟩] }
  | .tryLock statement =>
    (w.statements[statement]?).bind (fun s =>
      if s.acquired = none then
        some { w with
          statements := w.statements.set statement { s with acquired := some (decide w.Free) } }
      else none)
  | .commit statement =>
    (w.statements[statement]?).bind (fun s =>
      match s.acquired with
      | none => none
      | some false => some { w with statements := w.statements.eraseIdx statement }
      | some true =>
        match s.run.commit s.snapshot w.db with
        | (db, .ok rows) =>
          some ⟨db, w.statements.eraseIdx statement, w.commits + 1,
            w.scheduled ++ rows.map EventRow.id⟩
        | (db, .error _) =>
          some { w with db := db, statements := w.statements.eraseIdx statement })
  | .request request =>
    (w.db.step (.request request)).map (fun db => { w with db := db })
  | .store store =>
    (w.db.step (.store store)).map (fun db => { w with db := db })

/-- Two active updates of one target that reconciliation has scheduled are the same. -/
def Single (w : World) : Prop :=
  ∀ row ∈ w.db.queue.queue, ∀ other ∈ w.db.queue.queue, row.id ∈ w.scheduled →
    other.id ∈ w.scheduled → row.Active → other.Active → row.job.change = .update →
    other.job.change = .update → row.indexKey = other.indexKey →
    row.job.targetNodeStorage = other.job.targetNodeStorage → row = other

/-- A statement that is given the lock has seen all that was scheduled. -/
def Current (w : World) : Event → Prop
  | .tryLock statement =>
    w.Free → ∀ s ∈ w.statements[statement]?, s.commits = w.commits
  | _ => True

instance (w : World) (event : Event) : Decidable (w.Current event) := by
  unfold Current
  cases event <;> infer_instance

def holding (statement : Statement) : Bool := statement.acquired = some true

structure Inv (w : World) : Prop where
  queue : w.db.queue.Inv
  ids : ∀ id ∈ w.scheduled, id < w.db.queue.nextID
  single : w.Single
  holders : w.statements.countP holding ≤ 1
  past : ∀ s ∈ w.statements, s.commits ≤ w.commits
  current : ∀ s ∈ w.statements, s.acquired = some true → s.commits = w.commits
  tracked : ∀ s ∈ w.statements, s.commits = w.commits → ∀ row ∈ w.db.queue.queue,
    row.id ∈ w.scheduled → ∃ old ∈ s.snapshot.queue.queue, old.Follows row

theorem start_inv : (start store).Inv where
  queue := empty_inv
  ids := fun _ absent => absurd absent not_mem_nil
  single := fun _ absent => absurd absent not_mem_nil
  holders := Nat.zero_le _
  past := fun _ absent => absurd absent not_mem_nil
  current := fun _ absent => absurd absent not_mem_nil
  tracked := fun _ absent => absurd absent not_mem_nil

variable {w next : World}

namespace Inv

variable (inv : w.Inv)

include inv

theorem evolve {db : Database} (queue : db.queue.Inv) (later : w.db.queue.nextID ≤ db.queue.nextID)
    (origin : ∀ row ∈ db.queue.queue, row.id ∈ w.scheduled →
      ∃ old ∈ w.db.queue.queue, old.Follows row) : ({ w with db := db } : World).Inv := by
  refine ⟨queue, fun id member => (inv.ids id member).trans_le later, ?_, inv.holders, inv.past,
    inv.current, ?_⟩
  · intro row present other otherPresent scheduled otherScheduled active otherActive change
      otherChange key target
    obtain ⟨old, before, follows⟩ := origin row present scheduled
    obtain ⟨otherOld, otherBefore, otherFollows⟩ := origin other otherPresent otherScheduled
    rw [follows.id] at scheduled
    rw [otherFollows.id] at otherScheduled
    unfold EventRow.indexKey at key
    rw [follows.job] at change target key
    rw [otherFollows.job] at otherChange target key
    have same := inv.single old before otherOld otherBefore scheduled otherScheduled
      (follows.active active) (otherFollows.active otherActive) change otherChange key target
    exact KeyedTable.eq_of_key present otherPresent
      (follows.id.trans ((congrArg EventRow.id same).trans otherFollows.id.symm))
  · intro s member upToDate row present scheduled
    obtain ⟨old, before, follows⟩ := origin row present scheduled
    rw [follows.id] at scheduled
    obtain ⟨first, seen, earlier⟩ := inv.tracked s member upToDate old before scheduled
    exact ⟨first, seen, earlier.trans follows⟩

theorem request {request : Request} {queue : PostgresReplicationEventQueue} {ahead : queue.Ahead}
    (taken : w.db.queue.step request = some queue) :
    ({ w with db := ⟨w.db.store, queue, ahead⟩ } : World).Inv := by
  refine inv.evolve ?_ (step_nextID taken) ?_
  · exact (step_takes inv.queue taken).inv inv.queue
  · intro row present scheduled
    rcases step_origin inv.queue taken present with
      old | ⟨event, _, rfl⟩
    · exact old
    · exact absurd (inv.ids _ scheduled) (Nat.lt_irrefl _)

variable {s : Statement}

theorem refused {db : Database} {err : QueueError}
    (returned : s.run.commit s.snapshot w.db = (db, .error err)) :
    ({ w with db := db } : World).Inv := by
  have later := (w.db.queue.insertAll_cases s.run.now ((s.run.jobs s.snapshot).map s.run.event)).1
  have outcome := s.run.commit_cases s.snapshot w.db
  obtain rfl : (s.run.commit s.snapshot w.db).1 = db := congrArg Prod.fst returned
  rcases outcome with ⟨_, _, same⟩ | ⟨rows, inserted, _⟩
  · refine inv.evolve (inv.queue.unchanged same) later ?_
    intro row present _
    rw [same.queue] at present
    exact ⟨row, present, .refl row⟩
  · rw [returned] at inserted
    cases inserted

theorem erase (statement : Nat) :
    ({ w with statements := w.statements.eraseIdx statement } : World).Inv := by
  have fewer := eraseIdx_sublist w.statements statement
  exact ⟨inv.queue, inv.ids, inv.single, fewer.countP_le.trans inv.holders,
    fun s member => inv.past s (fewer.subset member),
    fun s member => inv.current s (fewer.subset member),
    fun s member => inv.tracked s (fewer.subset member)⟩

theorem begin (run : Run) :
    ({ w with statements := w.statements ++ [⟨run, w.db, w.commits, none⟩] } : World).Inv := by
  refine ⟨inv.queue, inv.ids, inv.single, ?_, forall_joined inv.past le_rfl,
    forall_joined inv.current ?_,
    forall_joined inv.tracked ?_⟩
  · rw [countP_append]
    exact inv.holders
  · intro held
    cases held
  · exact fun _ row present _ => ⟨row, present, .refl row⟩

variable {statement : Nat}

theorem tryLock (found : w.statements[statement]? = some s)
    (current : w.Free → s.commits = w.commits) :
    ({ w with
        statements := w.statements.set statement { s with acquired := some (decide w.Free) } } :
      World).Inv := by
  have present := mem_of_getElem? found
  refine ⟨inv.queue, inv.ids, inv.single, ?_, forall_moved inv.past (inv.past s present), ?_,
    forall_moved inv.tracked (inv.tracked s present)⟩
  · obtain ⟨inside, -⟩ := List.getElem?_eq_some_iff.mp found
    rw [(set_perm_cons_eraseIdx inside _).countP_eq]
    have fewer : (w.statements.eraseIdx statement).countP holding ≤
        w.statements.countP holding := (eraseIdx_sublist w.statements statement).countP_le
    by_cases free : w.Free
    · have none : w.statements.countP holding = 0 := by
        rw [countP_eq_zero]
        exact fun other member => by simpa [holding] using free other member
      rw [countP_cons]
      split <;> omega
    · rw [countP_cons_of_neg (by simp [holding, free])]
      exact fewer.trans inv.holders
  · refine forall_moved inv.current ?_
    intro held
    exact current (of_decide_eq_true (Option.some.inj held))

theorem others_free {s other : Statement}
    (found : w.statements[statement]? = some s) (held : s.acquired = some true)
    (member : other ∈ w.statements.eraseIdx statement) : other.acquired ≠ some true := by
  intro also
  obtain ⟨inside, rfl⟩ := List.getElem?_eq_some_iff.mp found
  have holders := inv.holders
  have holds : holding w.statements[statement] = true := decide_eq_true held
  rw [← (getElem_cons_eraseIdx_perm inside).countP_eq, countP_cons_of_pos holds] at holders
  have one : 0 < (w.statements.eraseIdx statement).countP holding :=
    countP_pos_iff.mpr ⟨other, member, decide_eq_true also⟩
  omega

theorem not_scheduled (member : s ∈ w.statements)
    (held : s.acquired = some true) {job : ReplicationJob} (listed : job ∈ s.run.jobs s.snapshot)
    (change : job.change = .update) {row : EventRow} (present : row ∈ w.db.queue.queue)
    (scheduled : row.id ∈ w.scheduled) (active : row.Active) (update : row.job.change = .update) :
    Run.target row.job ≠ Run.target job := by
  intro same
  obtain ⟨old, seen, follows⟩ :=
    inv.tracked s member (inv.current s member held) row present scheduled
  obtain ⟨chosen, selected, rfl⟩ := s.run.mem_jobs_update listed change
  rw [follows.job] at same update
  have found : old.job ∈ Reconciler.active s.snapshot.queue chosen.repository :=
    mem_active.mpr ⟨old, seen, follows.active active, congrArg Prod.fst same, rfl⟩
  have unused := (mem_updates.mp (s.run.mem_updateJobs selected)).2 old.job found
  exact unused.2 (congrArg Prod.snd same) update

theorem commit {rows : List EventRow} (found : w.statements[statement]? = some s)
    (held : s.acquired = some true) (returned : (s.run.commit s.snapshot w.db).2 = .ok rows) :
    World.Inv ⟨(s.run.commit s.snapshot w.db).1, w.statements.eraseIdx statement, w.commits + 1,
      w.scheduled ++ rows.map EventRow.id⟩ := by
  have member := mem_of_getElem? found
  have fewer := eraseIdx_sublist w.statements statement
  rcases s.run.commit_cases s.snapshot w.db with ⟨_, failed, _⟩ | ⟨others, inserted, jobs, adds⟩
  · cases returned.symm.trans failed
  cases returned.symm.trans inserted
  have later : w.db.queue.nextID ≤ (s.run.commit s.snapshot w.db).1.queue.nextID :=
    (w.db.queue.insertAll_cases s.run.now ((s.run.jobs s.snapshot).map s.run.event)).1
  have job : ∀ row ∈ rows, row.job ∈ s.run.jobs s.snapshot := by
    intro row new
    rw [← jobs]
    exact mem_map.mpr ⟨row, new, rfl⟩
  -- the ids of the new events are not those of events that were there before
  have old : ∀ row ∈ w.db.queue.queue, row.id ∈ w.scheduled ++ rows.map EventRow.id →
      row.id ∈ w.scheduled := by
    intro row present listed
    rcases mem_append.mp listed with before | new
    · exact before
    obtain ⟨other, added, same⟩ := mem_map.mp new
    have low := w.db.ahead row present
    have high := (adds.ids other added).1
    omega
  refine ⟨adds.inv inv.queue, ?_, ?_, fewer.countP_le.trans inv.holders, ?_, ?_, ?_⟩
  · intro id listed
    rcases mem_append.mp listed with before | new
    · exact (inv.ids id before).trans_le later
    · obtain ⟨row, added, rfl⟩ := mem_map.mp new
      exact (adds.ids row added).2
  · intro row present other otherPresent scheduled otherScheduled active otherActive change
      otherChange key target
    have same : Run.target row.job = Run.target other.job := Prod.ext key target
    rcases (adds.queue row).mp present with before | new
    · have scheduled := old row before scheduled
      rcases (adds.queue other).mp otherPresent with otherBefore | otherNew
      · exact inv.single row before other otherBefore scheduled
          (old other otherBefore otherScheduled) active otherActive change otherChange key target
      · exact absurd same (inv.not_scheduled member held (job other otherNew) otherChange before
          scheduled active change)
    · rcases (adds.queue other).mp otherPresent with otherBefore | otherNew
      · exact absurd same.symm (inv.not_scheduled member held (job row new) change otherBefore
          (old other otherBefore otherScheduled) otherActive otherChange)
      have apart := s.run.jobs_targets s.snapshot
      rw [← jobs, pairwise_map] at apart
      by_contra different
      have : Std.Symm (fun row other : EventRow => row.job.change = .update →
          other.job.change = .update → Run.target row.job ≠ Run.target other.job) :=
        ⟨fun _ _ distinct change otherChange => (distinct otherChange change).symm⟩
      exact apart.forall new otherNew different change otherChange same
  · intro other remaining
    exact (inv.past other (fewer.subset remaining)).trans (Nat.le_succ _)
  · intro other remaining also
    exact absurd also (inv.others_free found held remaining)
  · intro other remaining upToDate
    have past := inv.past other (fewer.subset remaining)
    dsimp only at upToDate
    omega

end Inv

theorem step_inv {event : Event} (inv : w.Inv) (current : w.Current event)
    (taken : w.step event = some next) : next.Inv := by
  cases event with
  | start run =>
    simp only [step] at taken
    split at taken
    · cases taken
      exact inv
    · cases taken
      exact inv.begin run
  | tryLock statement =>
    obtain ⟨s, found, -, taken⟩ := guarded taken
    cases taken
    exact inv.tryLock found (fun free => current free s found)
  | commit statement =>
    obtain ⟨s, found, taken⟩ := bind_eq_some_iff.mp taken
    split at taken
    · cases taken
    · cases taken
      exact inv.erase statement
    rename_i held
    split at taken
    · rename_i db rows returned
      cases taken
      have committed := inv.commit found held (congrArg Prod.snd returned)
      rw [returned] at committed
      exact committed
    · rename_i db err returned
      cases taken
      exact (inv.refused returned).erase statement
  | request request =>
    obtain ⟨db, moved, rfl⟩ := map_eq_some_iff.mp taken
    simp only [Database.step] at moved
    split at moved
    · cases moved
    rename_i queue requested
    cases moved
    exact inv.request requested
  | store store =>
    simp only [step] at taken
    obtain ⟨db, moved, rfl⟩ := map_eq_some_iff.mp taken
    cases moved
    exact inv.evolve inv.queue le_rfl (fun row present _ => ⟨row, present, .refl row⟩)

theorem scheduled_single (events : List Event) (current : Along step Current (start store) events) :
    Throughout step Single (start store) events :=
  current.throughout (fun _ _ _ => step_inv) (fun _ => Inv.single) (start_inv store)

/-- A repository that is missing on a storage. -/
def incomplete : PostgresRepositoryStore :=
  (PostgresRepositoryStore.empty.CreateRepository 1 "default" "repo.git" "gitaly-1" [] []
    true false).1

def both : Run := .ofHealthy [("default", ["gitaly-1", "gitaly-2"])]

/-- One of two statements is given the lock, and the next one sees what it has done. -/
def contended : List Event :=
  [.start both, .start both, .tryLock 0, .tryLock 1, .commit 0, .commit 0, .start both, .tryLock 0,
    .commit 0]

theorem scheduled_single_contended :
    Along step Current (start incomplete) contended ∧
      Throughout step Single (start incomplete) contended :=
  ⟨by decide, scheduled_single incomplete contended (by decide)⟩

/-- The second statement tries the lock when the first one has released it. -/
def successive : List Event :=
  [.start both, .start both, .tryLock 0, .commit 0, .tryLock 0, .commit 0]

theorem successive_duplicates :
    (exec step (start incomplete) successive).map (fun w =>
        (w.scheduled, w.db.queue.queue.rows.map (fun row => (row.id, row.state, row.job)))) =
      some ([1, 2],
        [(1, .ready, UpdateJob.job ⟨1, "default", "repo.git", "gitaly-1", "gitaly-2"⟩),
          (2, .ready, UpdateJob.job ⟨1, "default", "repo.git", "gitaly-1", "gitaly-2"⟩)]) := by
  decide

end World

end Gitaly.Praefect.Reconciler.Concurrent
