import Gitaly.Base.KeyedTable
import Gitaly.Base.Runs
import Mathlib.Data.Finset.Basic

/- The cache of internal/praefect/datastore/storage_provider.go. Calls, the handler of the
notifications and the callbacks of the connection run beside each other; a step is one access to
the cache, the syncer or the database. -/
namespace Gitaly.Datastore.StorageProvider

open List Option KeyedTable Runs

structure Repository where
  virtualStorage : String
  relativePath : String
  deriving DecidableEq

structure NotificationEntry where
  virtualStorage : String
  relativePaths : List String

/-- What a notification does to the caches, one by one. -/
inductive Invalidation where
  | remove (repository : Repository)
  | disable
  | purge (virtualStorage : String)

def Invalidation.touches (repository : Repository) : Invalidation → Bool
  | .remove removed => removed = repository
  | .disable => false
  | .purge virtualStorage => virtualStorage = repository.virtualStorage

/-- `Notification` of the decoded payload, `none` if it cannot be decoded. -/
def Notification (virtualStorages : List String) :
    Option (List NotificationEntry) → List Invalidation
  | none => .disable :: virtualStorages.map .purge
  | some changes =>
    changes.flatMap (fun entry =>
      if entry.virtualStorage ∈ virtualStorages then
        entry.relativePaths.map (fun relativePath => .remove ⟨entry.virtualStorage, relativePath⟩)
      else [])

/-- The payload names the repository. -/
def names (repository : Repository) : Option (List NotificationEntry) → Bool
  | none => true
  | some changes => changes.any (fun entry =>
    entry.virtualStorage = repository.virtualStorage &&
      repository.relativePath ∈ entry.relativePaths)

/-- Where a call of `GetConsistentStorages` is; `acquired` if it has to release the syncer's key.
A call that has queried keeps the number of changes before its query, and whether an invalidation
of its repository for a later change has been carried out or lost since. -/
inductive Stage where
  | called
  | uncached
  | looking
  | missed
  | waiting (holder : Nat)
  | lookingAgain (acquired : Bool)
  | querying (acquired : Bool)
  | queried (storages : Finset String) (since : Nat) (overtaken acquired : Bool)
  | leaving (storages : Option (Finset String)) (acquired : Bool)
  | returned (storages : Option (Finset String))
  deriving DecidableEq

def Stage.overtaken : Stage → Bool
  | .queried _ _ overtaken _ => overtaken
  | _ => false

structure Call where
  repository : Repository
  stage : Stage

def Call.overtake (change : Nat) (invalidation : Invalidation) (c : Call) : Call :=
  match c.stage with
  | .queried storages since _ acquired =>
    if since ≤ change && invalidation.touches c.repository then
      { c with stage := .queried storages since true acquired }
    else c
  | _ => c

/-- `storages` is the database, `pending` are the invalidations to come, each with the number of
its change, `inflight` the syncer's keys with the calls that have acquired them and `purging` what
a `Disconnect` has still to purge. -/
structure World where
  storages : Repository → Finset String
  changes : Nat
  pending : List (Nat × Invalidation)
  virtualStorages : List String
  caches : KeyedTable (Repository × Finset String) Repository Prod.fst
  access : Bool
  connected : Bool
  purging : List String
  inflight : List (String × Nat)
  calls : List Call

inductive Event where
  | change (updates : List (Repository × Finset String)) (payload : Option (List NotificationEntry))
  | invalidate
  /-- A notification does not arrive. -/
  | lose (index : Nat)
  | disconnect
  | purge
  | connected
  | evict (repository : Repository)
  | call (repository : Repository)
  | start (call : Nat)
  | lookup (call : Nat)
  | await (call : Nat)
  | wake (call : Nat)
  | query (call : Nat) (fails : Bool)
  | insert (call : Nat)
  | leave (call : Nat)

namespace World

def initial (virtualStorages : List String) (storages : Repository → Finset String) : World where
  storages := storages
  changes := 0
  pending := []
  virtualStorages := virtualStorages
  caches := .empty
  access := false
  connected := false
  purging := []
  inflight := []
  calls := []

def drop (w : World) (invalidation : Invalidation) :
    KeyedTable (Repository × Finset String) Repository Prod.fst :=
  w.caches.delete (fun row => invalidation.touches row.1)

def move (w : World) (call : Nat) (c : Call) (stage : Stage) : World :=
  { w with calls := w.calls.set call { c with stage := stage } }

def updated (w : World) (updates : List (Repository × Finset String)) (repository : Repository) :
    Finset String :=
  match updates.find? (fun update => update.1 = repository) with
  | some update => update.2
  | none => w.storages repository

def step (w : World) : Event → Option World
  | .change updates payload =>
    if updates.all (fun update => names update.1 payload) then
      some { w with
        storages := w.updated updates
        changes := w.changes + 1
        pending := w.pending ++
          (Notification w.virtualStorages payload).map (fun invalidation =>
            (w.changes, invalidation)) }
    else none
  | .invalidate =>
    match w.pending with
    | [] => none
    | (change, invalidation) :: rest =>
      some { w with
        pending := rest
        caches := w.drop invalidation
        access := match invalidation with
          | .disable => false
          | _ => w.access
        calls := w.calls.map (Call.overtake change invalidation) }
  | .lose index =>
    (w.pending[index]?).map (fun lost =>
      { w with
        pending := w.pending.eraseIdx index
        calls := w.calls.map (Call.overtake lost.1 lost.2) })
  | .disconnect =>
    if w.purging = [] then
      some { w with access := false, connected := false, purging := w.virtualStorages }
    else none
  | .purge =>
    match w.purging with
    | [] => none
    | virtualStorage :: rest =>
      some { w with caches := w.drop (.purge virtualStorage), purging := rest }
  | .connected =>
    if w.purging = [] then some { w with access := true, connected := true } else none
  | .evict repository => some { w with caches := w.drop (.remove repository) }
  | .call repository => some { w with calls := w.calls ++ [⟨repository, .called⟩] }
  | .start call =>
    (w.calls[call]?).bind (fun c =>
      if c.stage = .called then
        some (w.move call c
          (if w.access && c.repository.virtualStorage ∈ w.virtualStorages then .looking
          else .uncached))
      else none)
  | .lookup call =>
    (w.calls[call]?).bind (fun c =>
      match c.stage with
      | .looking =>
        match w.caches.find c.repository with
        | some row => some (w.move call c (.leaving (some row.2) false))
        | none => some (w.move call c .missed)
      | .lookingAgain acquired =>
        match w.caches.find c.repository with
        | some row => some (w.move call c (.leaving (some row.2) acquired))
        | none => some (w.move call c (.querying acquired))
      | _ => none)
  | .await call =>
    (w.calls[call]?).bind (fun c =>
      if c.stage = .missed then
        match w.inflight.find? (fun held => held.1 = c.repository.relativePath) with
        | some held => some (w.move call c (.waiting held.2))
        | none =>
          some ({ w with inflight := w.inflight ++ [(c.repository.relativePath, call)] }.move
            call c (.lookingAgain true))
      else none)
  | .wake call =>
    (w.calls[call]?).bind (fun c =>
      match c.stage with
      | .waiting holder =>
        if (c.repository.relativePath, holder) ∈ w.inflight then none
        else some (w.move call c (.lookingAgain false))
      | _ => none)
  | .query call fails =>
    (w.calls[call]?).bind (fun c =>
      match c.stage with
      | .uncached =>
        some (w.move call c
          (.leaving (if fails then none else some (w.storages c.repository)) false))
      | .querying acquired =>
        some (w.move call c
          (if fails then .leaving none acquired
          else .queried (w.storages c.repository) w.changes false acquired))
      | _ => none)
  | .insert call =>
    (w.calls[call]?).bind (fun c =>
      match c.stage with
      | .queried storages _ _ acquired =>
        some ({ w with caches := w.caches.put (c.repository, storages) }.move call c
          (.leaving (some storages) acquired))
      | _ => none)
  | .leave call =>
    (w.calls[call]?).bind (fun c =>
      match c.stage with
      | .leaving storages acquired =>
        some ({ w with
          inflight := if acquired then w.inflight.filter (fun held => held.2 ≠ call)
            else w.inflight }.move call c (.returned storages))
      | _ => none)

end World

/-- Once no notification is to come and the listener is connected, a hit is what the database
has. -/
def World.Coherent (w : World) : Prop :=
  w.pending = [] → w.connected = true → ∀ (call : Nat) (next : World) (c : Call)
    (storages : Finset String) (acquired : Bool), w.step (.lookup call) = some next →
    next.calls[call]? = some c → c.stage = .leaving (some storages) acquired →
      storages = w.storages c.repository

/-- A call that inserts has not been overtaken by an invalidation, and nothing is cached that a
lost notification names. -/
def World.Timely (w : World) : Event → Prop
  | .insert call => ∀ c ∈ w.calls[call]?, c.stage.overtaken = false
  | .lose index => ∀ lost ∈ w.pending[index]?, ∀ row ∈ w.caches.rows,
      lost.2.touches row.1 = false
  | _ => True

instance (w : World) (event : Event) : Decidable (w.Timely event) := by
  cases event <;> simp only [World.Timely] <;> infer_instance

/-- The storages are those of the database, or an invalidation for a later change is to come. -/
def Fresh (database : Repository → Finset String) (pending : List (Nat × Invalidation))
    (since : Nat) (repository : Repository) (storages : Finset String) : Prop :=
  storages = database repository ∨ ∃ due ∈ pending, since ≤ due.1 ∧ due.2.touches repository = true

namespace Fresh

variable {database : Repository → Finset String} {pending rest : List (Nat × Invalidation)}
  {since : Nat} {repository : Repository} {storages : Finset String}

theorem less (fresh : Fresh database pending since repository storages)
    {due : Nat × Invalidation} (split : ∀ other ∈ pending, other = due ∨ other ∈ rest)
    (other : ¬ (since ≤ due.1 ∧ due.2.touches repository = true)) :
    Fresh database rest since repository storages := by
  rcases fresh with same | ⟨found, member, touches⟩
  · exact .inl same
  rcases split found member with rfl | remains
  · exact absurd touches other
  · exact .inr ⟨found, remains, touches⟩

end Fresh

theorem touches_of_names {virtualStorages : List String} {repository : Repository}
    {payload : Option (List NotificationEntry)} (named : names repository payload = true)
    (known : repository.virtualStorage ∈ virtualStorages) :
    ∃ invalidation ∈ Notification virtualStorages payload,
      invalidation.touches repository = true := by
  cases payload with
  | none =>
    refine ⟨.purge repository.virtualStorage, ?_, decide_eq_true rfl⟩
    exact mem_cons_of_mem _ (mem_map_of_mem known)
  | some changes =>
    obtain ⟨entry, member, matched⟩ := any_eq_true.mp named
    rw [Bool.and_eq_true, decide_eq_true_eq, decide_eq_true_eq] at matched
    refine ⟨.remove repository, mem_flatMap.mpr ⟨entry, member, ?_⟩, decide_eq_true rfl⟩
    rw [if_pos (matched.1 ▸ known), matched.1]
    exact mem_map_of_mem matched.2

namespace World

variable {w next : World}

variable {updates : List (Repository × Finset String)} {repository : Repository}

theorem updated_of_not_mem (other : ∀ update ∈ updates, update.1 ≠ repository) :
    w.updated updates repository = w.storages repository := by
  unfold updated
  rw [find?_eq_none.mpr (fun update member => by simpa using other update member)]

variable {payload : Option (List NotificationEntry)} {storages : Finset String}

/-- A change that touches the repository brings an invalidation of it. -/
theorem Fresh.change {since : Nat} (fresh : Fresh w.storages w.pending since repository storages)
    (named : updates.all (fun update => names update.1 payload) = true)
    (known : repository.virtualStorage ∈ w.virtualStorages) (before : since ≤ w.changes) :
    Fresh (w.updated updates) (w.pending ++ (Notification w.virtualStorages payload).map
      (fun invalidation => (w.changes, invalidation))) since repository storages := by
  by_cases changed : ∃ update ∈ updates, update.1 = repository
  · obtain ⟨update, member, rfl⟩ := changed
    have names := all_eq_true.mp named update member
    obtain ⟨invalidation, sent, touches⟩ := touches_of_names names known
    exact .inr ⟨(w.changes, invalidation),
      mem_append_right _ (mem_map_of_mem sent), before, touches⟩
  · rcases fresh with same | ⟨due, member, touches⟩
    · refine .inl (same.trans (updated_of_not_mem (fun update member same => ?_)).symm)
      exact changed ⟨update, member, same⟩
    · exact .inr ⟨due, mem_append_left _ member, touches⟩

/-- The virtual storage has a cache, as every call knows that uses it. -/
def Proper (w : World) (c : Call) : Prop :=
  match c.stage with
  | .called | .uncached | .leaving _ _ | .returned _ => True
  | .looking | .missed | .waiting _ | .lookingAgain _ | .querying _ =>
    c.repository.virtualStorage ∈ w.virtualStorages
  | .queried storages since overtaken _ =>
    c.repository.virtualStorage ∈ w.virtualStorages ∧ since ≤ w.changes ∧
      (overtaken = false → Fresh w.storages w.pending since c.repository storages)

structure Inv (w : World) : Prop where
  cached : ∀ row ∈ w.caches, row.1.virtualStorage ∈ w.virtualStorages ∧
    Fresh w.storages w.pending 0 row.1 row.2
  calls : ∀ c ∈ w.calls, w.Proper c

theorem initial_inv (virtualStorages : List String) (storages : Repository → Finset String) :
    (initial virtualStorages storages).Inv where
  cached := fun _ absent => absurd absent not_mem_nil
  calls := nofun

theorem Inv.move (inv : w.Inv) {call : Nat} {c : Call} {stage : Stage}
    (proper : w.Proper { c with stage := stage }) : (w.move call c stage).Inv where
  cached := inv.cached
  calls := forall_moved inv.calls proper

theorem Inv.purge (inv : w.Inv) (invalidation : Invalidation) (purging : List String) :
    ({ w with caches := w.drop invalidation, purging := purging } : World).Inv where
  cached := fun row remains => inv.cached row ((mem_delete _ _).mp remains).1
  calls := inv.calls

theorem Inv.overtake {pending : List (Nat × Invalidation)} {due : Nat × Invalidation} (inv : w.Inv)
    (split : ∀ other ∈ w.pending, other = due ∨ other ∈ pending) :
    ∀ c ∈ w.calls.map (Call.overtake due.1 due.2),
      ({ w with pending := pending } : World).Proper c := by
  intro c member
  obtain ⟨⟨repository, stage⟩, called, rfl⟩ := mem_map.mp member
  have proper := inv.calls _ called
  cases stage with
  | queried storages since overtaken acquired =>
    obtain ⟨known, before, fresh⟩ := proper
    unfold Call.overtake
    dsimp only
    split
    · exact ⟨known, before, nofun⟩
    rename_i other
    rw [Bool.and_eq_true, decide_eq_true_eq] at other
    exact ⟨known, before, fun timely => (fresh timely).less split other⟩
  | _ => exact proper

theorem Inv.change (inv : w.Inv)
    (taken : w.step (.change updates payload) = some next) : next.Inv := by
  obtain ⟨named, taken⟩ := ite_none_right_eq_some.mp taken
  cases taken
  refine ⟨fun row found => ?_, fun c called => ?_⟩
  · obtain ⟨known, fresh⟩ := inv.cached row found
    exact ⟨known, Fresh.change fresh named known (Nat.zero_le _)⟩
  · have proper := inv.calls c called
    obtain ⟨repository, stage⟩ := c
    cases stage with
    | queried storages since overtaken acquired =>
      obtain ⟨known, before, fresh⟩ := proper
      exact ⟨known, Nat.le_succ_of_le before,
        fun timely => Fresh.change (fresh timely) named known before⟩
    | _ => exact proper

theorem Inv.invalidate (inv : w.Inv) (taken : w.step .invalidate = some next) : next.Inv := by
  simp only [step] at taken
  split at taken
  · cases taken
  rename_i change invalidation rest pending
  cases taken
  have split : ∀ other ∈ w.pending, other = (change, invalidation) ∨ other ∈ rest := by
    rw [pending]
    exact fun other => mem_cons.mp
  refine ⟨fun row remains => ?_, inv.overtake split⟩
  obtain ⟨before, other⟩ := (mem_delete _ _).mp remains
  obtain ⟨known, fresh⟩ := inv.cached row before
  exact ⟨known, fresh.less split (fun both => Bool.noConfusion (both.2.symm.trans other))⟩

theorem Inv.lose (inv : w.Inv) {index : Nat} (timely : w.Timely (.lose index))
    (taken : w.step (.lose index) = some next) : next.Inv := by
  obtain ⟨lost, found, rfl⟩ := map_eq_some_iff.mp taken
  have split : ∀ other ∈ w.pending, other = lost ∨ other ∈ w.pending.eraseIdx index := by
    intro other member
    obtain ⟨place, at_⟩ := mem_iff_getElem?.mp member
    by_cases same : place = index
    · rw [same, found] at at_
      exact .inl (Option.some.inj at_).symm
    · exact .inr (mem_eraseIdx_iff_getElem?.mpr ⟨place, same, at_⟩)
  refine ⟨fun row cached => ?_, inv.overtake split⟩
  obtain ⟨known, fresh⟩ := inv.cached row cached
  refine ⟨known, fresh.less split (fun both => ?_)⟩
  exact Bool.noConfusion (both.2.symm.trans (timely lost found row cached))

theorem Inv.insert (inv : w.Inv) {call : Nat} (timely : w.Timely (.insert call))
    (taken : w.step (.insert call) = some next) : next.Inv := by
  obtain ⟨c, found, taken⟩ := bind_eq_some_iff.mp taken
  split at taken
  · rename_i storages since overtaken acquired stage
    cases taken
    have proper := inv.calls c (mem_of_getElem? found)
    rw [Proper, stage] at proper
    obtain ⟨known, before, fresh⟩ := proper
    have inTime := timely c found
    rw [stage] at inTime
    refine ⟨fun row cached => ?_, forall_moved inv.calls trivial⟩
    rcases (mem_put _ _).mp cached with ⟨before, _⟩ | rfl
    · exact inv.cached row before
    rcases fresh inTime with same | ⟨due, member, _, touches⟩
    · exact ⟨known, .inl same⟩
    · exact ⟨known, .inr ⟨due, member, Nat.zero_le _, touches⟩⟩
  · cases taken

theorem step_inv (event : Event) (inv : w.Inv) (timely : w.Timely event)
    (taken : w.step event = some next) : next.Inv := by
  cases event with
  | change updates payload => exact inv.change taken
  | invalidate => exact inv.invalidate taken
  | lose index => exact inv.lose timely taken
  | insert call => exact inv.insert timely taken
  | disconnect =>
    simp only [step] at taken
    split at taken
    · cases taken
      exact ⟨inv.cached, inv.calls⟩
    · cases taken
  | purge =>
    simp only [step] at taken
    split at taken
    · cases taken
    cases taken
    exact inv.purge _ _
  | connected =>
    simp only [step] at taken
    split at taken
    · cases taken
      exact ⟨inv.cached, inv.calls⟩
    · cases taken
  | evict repository =>
    cases taken
    exact inv.purge _ _
  | call repository =>
    cases taken
    exact ⟨inv.cached, forall_joined inv.calls trivial⟩
  | start call =>
    obtain ⟨c, found, -, taken⟩ := guarded taken
    cases taken
    split
    · rename_i enabled
      rw [Bool.and_eq_true, decide_eq_true_eq] at enabled
      exact inv.move enabled.2
    · exact inv.move trivial
  | lookup call =>
    obtain ⟨c, found, taken⟩ := bind_eq_some_iff.mp taken
    have proper := inv.calls c (mem_of_getElem? found)
    split at taken
    · rename_i stage
      rw [Proper, stage] at proper
      split at taken
      · cases taken
        exact inv.move trivial
      · cases taken
        exact inv.move proper
    · rename_i acquired stage
      rw [Proper, stage] at proper
      split at taken
      · cases taken
        exact inv.move trivial
      · cases taken
        exact inv.move proper
    · cases taken
  | await call =>
    obtain ⟨c, found, stage, taken⟩ := guarded taken
    have proper := inv.calls c (mem_of_getElem? found)
    rw [Proper, stage] at proper
    split at taken
    · cases taken
      exact inv.move proper
    · cases taken
      exact ⟨inv.cached, forall_moved inv.calls proper⟩
  | wake call =>
    obtain ⟨c, found, taken⟩ := bind_eq_some_iff.mp taken
    have proper := inv.calls c (mem_of_getElem? found)
    split at taken
    · rename_i holder stage
      rw [Proper, stage] at proper
      split at taken
      · cases taken
      cases taken
      exact inv.move proper
    · cases taken
  | query call fails =>
    obtain ⟨c, found, taken⟩ := bind_eq_some_iff.mp taken
    have proper := inv.calls c (mem_of_getElem? found)
    split at taken
    · cases taken
      exact inv.move trivial
    · rename_i acquired stage
      rw [Proper, stage] at proper
      cases taken
      cases fails with
      | true => exact inv.move trivial
      | false => exact inv.move ⟨proper, Nat.le_refl _, fun _ => .inl rfl⟩
    · cases taken
  | leave call =>
    obtain ⟨c, found, taken⟩ := bind_eq_some_iff.mp taken
    split at taken
    · cases taken
      exact ⟨inv.cached, forall_moved inv.calls trivial⟩
    · cases taken

theorem lookup_hit {call : Nat} {c : Call} {acquired : Bool}
    (taken : w.step (.lookup call) = some next) (moved : next.calls[call]? = some c)
    (hit : c.stage = .leaving (some storages) acquired) :
    (c.repository, storages) ∈ w.caches := by
  obtain ⟨before, found, taken⟩ := bind_eq_some_iff.mp taken
  have inside := (List.getElem?_eq_some_iff.mp found).1
  have after : ∀ stage, (w.move call before stage).calls[call]? =
      some { before with stage := stage } := fun stage => List.getElem?_set_self inside
  have finds : ∀ row, w.caches.find before.repository = some row → row.2 = storages →
      (before.repository, storages) ∈ w.caches := by
    rintro row present rfl
    obtain ⟨member, same⟩ := find_eq_some.mp present
    rw [← same]
    exact member
  split at taken
  · split at taken
    · rename_i row present
      cases taken
      cases (after _).symm.trans moved
      cases hit
      exact finds row present rfl
    · cases taken
      cases (after _).symm.trans moved
      cases hit
  · split at taken
    · rename_i row present
      cases taken
      cases (after _).symm.trans moved
      cases hit
      exact finds row present rfl
    · cases taken
      cases (after _).symm.trans moved
      cases hit
  · cases taken

theorem Inv.coherent (inv : w.Inv) : w.Coherent := by
  intro settled _ call next c storages acquired taken moved hit
  rcases (inv.cached _ (lookup_hit taken moved hit)).2 with same | ⟨due, member, _⟩
  · exact same
  · rw [settled] at member
    cases member

end World

theorem coherent_of_timely (virtualStorages : List String) (storages : Repository → Finset String)
    (events : List Event)
    (timely : Along World.step World.Timely (World.initial virtualStorages storages) events) :
    Throughout World.step World.Coherent (World.initial virtualStorages storages) events :=
  timely.throughout (fun _ event _ inv timely taken => World.step_inv event inv timely taken)
    (fun _ inv => inv.coherent) (World.initial_inv virtualStorages storages)

def repository : Repository := ⟨"default", "@hashed/a.git"⟩

/-- The call has queried before the change and inserts after its notification. -/
def overtaken : List Event :=
  [.connected, .call repository, .start 0, .lookup 0, .await 0, .lookup 0, .query 0 false,
    .change [(repository, {"gitaly-2"})] (some [⟨"default", ["@hashed/a.git"]⟩]), .invalidate,
    .insert 0, .leave 0, .call repository, .start 1]

theorem overtaken_incoherent : ∃ w,
    Reaches World.step (World.initial ["default"] (fun _ => {"gitaly-1"})) w ∧
      ¬ w.Coherent := by
  refine ⟨_, ⟨overtaken, rfl⟩, fun coherent => ?_⟩
  exact absurd (coherent rfl rfl 1 _ _ _ _ rfl rfl rfl) (by decide)

/-- The notification comes after the insertion. -/
def inTime : List Event :=
  [.connected, .call repository, .start 0, .lookup 0, .await 0, .lookup 0, .query 0 false,
    .change [(repository, {"gitaly-2"})] (some [⟨"default", ["@hashed/a.git"]⟩]), .insert 0,
    .invalidate, .leave 0, .call repository, .start 1, .lookup 1]

theorem inTime_coherent :
    (exec World.step (World.initial ["default"] (fun _ => {"gitaly-1"})) inTime).isSome ∧
      Throughout World.step World.Coherent
        (World.initial ["default"] (fun _ => {"gitaly-1"})) inTime :=
  ⟨by decide, coherent_of_timely _ _ _ (by decide)⟩

end Gitaly.Datastore.StorageProvider
