import Gitaly.Base.Runs
import Gitaly.Datastore.RepositoryStoreViews

/- Reads go to the storages with the newest replicas, writes are recorded on replicas that
have the generation of the record: when the two tables agree on what is the latest. -/
namespace Gitaly.Datastore

open PostgresRepositoryStore RepositoryRow List Option Runs

/-- The calls that change the tables of the store. -/
inductive RepositoryCall where
  | createRepository (repositoryID : Int) (virtual path primary : String)
      (updatedSecondaries outdatedSecondaries : List String) (storePrimary storeAssignments : Bool)
  | incrementGeneration (virtual path primary : String) (secondaries : List String)
  | setGeneration (virtual path storage : String) (generation : Int)
  | setAuthoritativeReplica (virtual path storage : String)
  | deleteRepository (virtual path : String) (storages : List String)
  | deleteReplica (virtual path storage : String)
  | deleteInvalidRepository (virtual path storage : String)
  | renameRepository (virtual path storage newRelativePath : String)

namespace PostgresRepositoryStore

variable (rs : PostgresRepositoryStore)

def call : RepositoryCall → PostgresRepositoryStore
  | .createRepository repositoryID virtual path primary updatedSecondaries
      outdatedSecondaries storePrimary storeAssignments =>
        (rs.CreateRepository repositoryID virtual path primary updatedSecondaries
          outdatedSecondaries storePrimary storeAssignments).1
  | .incrementGeneration virtual path primary secondaries =>
    (rs.IncrementGeneration virtual path primary secondaries).1
  | .setGeneration virtual path storage generation =>
    rs.SetGeneration virtual path storage generation
  | .setAuthoritativeReplica virtual path storage =>
    (rs.SetAuthoritativeReplica virtual path storage).1
  | .deleteRepository virtual path storages =>
    (rs.DeleteRepository virtual path storages).1
  | .deleteReplica virtual path storage =>
    (rs.DeleteReplica virtual path storage).1
  | .deleteInvalidRepository virtual path storage =>
    rs.DeleteInvalidRepository virtual path storage
  | .renameRepository virtual path storage newRelativePath =>
    (rs.RenameRepository virtual path storage newRelativePath).1

def step (call : RepositoryCall) : Option PostgresRepositoryStore := some (rs.call call)

/-- A write that was routed to a consistent storage can be recorded. -/
def Recordable : Prop :=
  ∀ virtual path storages storage secondaries,
    rs.GetConsistentStorages virtual path = .ok storages → storage ∈ storages →
    (rs.IncrementGeneration virtual path storage secondaries).2 = .ok ()

/-- The newest replicas, if there are any, have the latest generation. -/
def Agrees (latest : Option Int) (replica : String → Option Int) : Prop :=
  (∀ storage, replica storage = none) ∨
    ∃ newest, latest = some newest ∧ (∃ storage, replica storage = some newest) ∧
      ∀ storage generation, replica storage = some generation → generation ≤ newest

theorem exists_newest (repository : Repository) :
    (∀ storage, rs.replica repository storage = none) ∨
      ∃ storage generation, rs.replica repository storage = some generation ∧
        ∀ other newer, rs.replica repository other = some newer → newer ≤ generation := by
  cases found : ((rs.replicas repository).map StorageRow.generation).max? with
  | none =>
    rw [max?_eq_none_iff, map_eq_nil_iff] at found
    refine .inl (fun storage => ?_)
    by_contra held
    obtain ⟨generation, held⟩ := ne_none_iff_exists'.mp held
    obtain ⟨row, member, -⟩ := (exists_replicas (fun _ _ => True)).mpr
      ⟨storage, generation, held, trivial⟩
    rw [found] at member
    exact absurd member not_mem_nil
  | some generation =>
    obtain ⟨⟨storage, held⟩, newest⟩ := max_replicas.mp found
    exact .inr ⟨storage, generation, held, newest⟩

theorem recordable_iff :
    rs.Recordable ↔ ∀ repository, (rs.record repository).isSome →
      Agrees (rs.latest repository) (rs.replica repository) := by
  constructor
  · intro recordable repository recorded
    rcases rs.exists_newest repository with none | ⟨storage, generation, held, newest⟩
    · exact .inl none
    have member : storage ∈ rs.consistentStorages repository :=
      mem_consistentStorages.mpr ⟨recorded, generation, held, newest⟩
    have returned : rs.GetConsistentStorages repository.1 repository.2 =
        .ok (rs.consistentStorages repository) :=
      GetConsistentStorages_ok.mpr ⟨rfl, ne_nil_of_mem member⟩
    have succeeds := recordable _ _ _ storage [] returned member
    obtain ⟨latest, isLatest, other, named, current⟩ :=
      (rs.IncrementGeneration_ok_iff _ _ _ _).mp succeeds
    rw [nil_append, mem_singleton] at named
    subst named
    have same : generation = latest := Option.some.inj (held.symm.trans current)
    subst same
    exact .inr ⟨generation, isLatest, ⟨other, held⟩, newest⟩
  · intro agree virtual path storages storage secondaries returned member
    rw [(GetConsistentStorages_ok.mp returned).1, mem_consistentStorages] at member
    obtain ⟨recorded, generation, held, newest⟩ := member
    rw [rs.IncrementGeneration_ok_iff]
    rcases agree _ recorded with none | ⟨latest, isLatest, ⟨other, current⟩, bound⟩
    · rw [none storage] at held
      cases held
    have same : generation = latest :=
      le_antisymm (bound storage generation held) (newest other latest current)
    subst same
    exact ⟨generation, isLatest, storage, mem_append_right _ mem_cons_self, held⟩

/-- No record has lost its generation. -/
def Numbered : Prop :=
  ∀ repository record, rs.record repository = some record → record.generation.isSome

/-- The replicas at the new path of a renamed repository. -/
def renamed (repository target : Repository) (storage : String) (other : String) : Option Int :=
  if other = storage then (rs.replica repository storage).or (rs.replica target storage)
  else rs.replica target other

/-- Another storage than the given one has the latest generation, or no other one has any. -/
def Spares (repository : Repository) (storage : String) : Prop :=
  (∀ other, other ≠ storage → rs.replica repository other = none) ∨
    ∃ newest, rs.latest repository = some newest ∧
      ∃ other, other ≠ storage ∧ rs.replica repository other = some newest

/-- What is asked of the state before a call. -/
def Keeps : RepositoryCall → Prop
  | .createRepository repositoryID virtual path primary updatedSecondaries
      outdatedSecondaries _ storeAssignments =>
        rs.Vacant repositoryID (virtual, path) (primary :: updatedSecondaries)
          (if storeAssignments then primary :: updatedSecondaries ++ outdatedSecondaries else []) →
        ∀ storage generation,
          rs.replica (virtual, path) storage = some generation → generation ≤ 0
  | .incrementGeneration _ _ _ _ => True
  | .setGeneration virtual path storage generation =>
    ∀ newest, rs.latest (virtual, path) = some newest → generation < newest →
      ∃ other, other ≠ storage ∧ rs.replica (virtual, path) other = some newest
  | .setAuthoritativeReplica _ _ _ => True
  | .deleteRepository _ _ _ => True
  | .deleteReplica virtual path storage =>
    (rs.record (virtual, path)).isSome →
      rs.Spares (virtual, path) storage
  | .deleteInvalidRepository virtual path storage =>
    (rs.record (virtual, path)).isSome →
      rs.Spares (virtual, path) storage
  | .renameRepository virtual path storage newRelativePath =>
    newRelativePath ≠ path →
      ¬ rs.Collides (virtual, path) (virtual, newRelativePath) storage →
      (rs.record (virtual, path)).isSome ∨
        (rs.record (virtual, newRelativePath)).isSome →
      Agrees ((rs.latest (virtual, path)).or
          (rs.latest (virtual, newRelativePath)))
        (rs.renamed (virtual, path) (virtual, newRelativePath) storage)

section steps

variable {rs after : PostgresRepositoryStore} {repository : Repository}

/-- The stores differ in one repository only. -/
def DiffersAt (rs after : PostgresRepositoryStore) (repository : Repository) : Prop :=
  ∀ other, other ≠ repository →
    after.record other = rs.record other ∧
      ∀ storage, after.replica other storage = rs.replica other storage

theorem recordable_after (differs : DiffersAt rs after repository) (recordable : rs.Recordable) :
    after.Recordable ↔ ((after.record repository).isSome →
      Agrees (after.latest repository) (after.replica repository)) := by
  rw [recordable_iff] at recordable ⊢
  constructor
  · intro agree
    exact agree repository
  · intro agree other recorded
    by_cases same : other = repository
    · subst same
      exact agree recorded
    obtain ⟨record, replica⟩ := differs other same
    have unchanged := recordable other (record ▸ recorded)
    have replicas : after.replica other = rs.replica other := funext replica
    rw [replicas]
    unfold latest
    rw [record]
    exact unchanged

theorem Recordable.bound (recordable : rs.Recordable) {newest : Int}
    (latest : rs.latest repository = some newest) :
    ∀ storage generation, rs.replica repository storage = some generation →
      generation ≤ newest := by
  intro storage generation held
  obtain ⟨record, found, -⟩ := latest_eq_some.mp latest
  have agrees := (recordable_iff rs).mp recordable repository (by rw [found]; rfl)
  rcases agrees with none | ⟨other, isLatest, -, bound⟩
  · rw [none storage] at held
    cases held
  rw [latest] at isLatest
  cases isLatest
  exact bound storage generation held

theorem Creates.decides {repositoryID : Int} {primary : Option String} {storages : List String}
    (creates : Creates rs after repositoryID repository primary storages) (nonempty : storages ≠ [])
    (recordable : rs.Recordable) :
    after.Recordable ↔ ∀ storage generation,
      rs.replica repository storage = some generation → generation ≤ 0 := by
  have differs : DiffersAt rs after repository := by
    intro other different
    refine ⟨by rw [creates.record, if_neg different], fun storage => ?_⟩
    rw [creates.replica, if_neg (fun both => different both.1)]
  have recorded : after.record repository = _ := creates.record repository
  rw [if_pos rfl] at recorded
  have latest : after.latest repository = some 0 := by
    unfold PostgresRepositoryStore.latest
    rw [recorded]
    rfl
  have held : ∀ storage, after.replica repository storage =
      if storage ∈ storages then some 0 else rs.replica repository storage := by
    intro storage
    rw [creates.replica]
    simp
  rw [recordable_after differs recordable, latest]
  constructor
  · intro agree storage generation leftover
    have here := agree (by rw [recorded]; rfl)
    have spared : storage ∉ storages := by
      intro named
      rw [creates.free storage named] at leftover
      cases leftover
    rcases here with none | ⟨newest, isNewest, -, bound⟩
    · have absent := none storage
      rw [held, if_neg spared, leftover] at absent
      cases absent
    · cases isNewest
      exact bound storage generation (by rw [held, if_neg spared, leftover])
  · intro old _
    obtain ⟨first, member⟩ := exists_mem_of_ne_nil storages nonempty
    refine .inr ⟨0, rfl, ⟨first, by rw [held, if_pos member]⟩, ?_⟩
    intro storage generation kept
    rw [held] at kept
    split at kept
    · cases kept
      exact le_refl 0
    · exact old storage generation kept

variable {generation : Int}

theorem recordable_of_raised (differs : DiffersAt rs after repository)
    (recordable : rs.Recordable) (before : rs.latest repository = some generation)
    (latest : after.latest repository = some (generation + 1))
    (raised : ∃ storage, after.replica repository storage = some (generation + 1))
    (others : ∀ storage held, after.replica repository storage = some held →
      held = generation + 1 ∨ rs.replica repository storage = some held) : after.Recordable := by
  have bound := recordable.bound before
  rw [recordable_after differs recordable, latest]
  intro _
  refine .inr ⟨generation + 1, rfl, raised, ?_⟩
  intro storage held isHeld
  rcases others storage held isHeld with rfl | old
  · exact le_refl _
  · have below := bound storage held old
    omega

theorem Raises.recordable {storages : List String}
    (raises : Raises rs after repository storages generation) (recordable : rs.Recordable) :
    after.Recordable := by
  have differs : DiffersAt rs after repository := by
    intro other different
    refine ⟨by rw [raises.record, if_neg different], fun storage => ?_⟩
    rw [raises.replica, if_neg (fun both => different both.1)]
  obtain ⟨first, named, current⟩ := raises.raised
  refine recordable_of_raised differs recordable raises.latest ?_ ⟨first, ?_⟩ ?_
  · rw [raises.latest_after, if_pos rfl]
  · rw [raises.replica, if_pos ⟨rfl, named, current⟩]
  · intro storage held isHeld
    rw [raises.replica] at isHeld
    split at isHeld
    · cases isHeld
      exact .inl rfl
    · exact .inr isHeld

variable {storage : String}

theorem Crowns.recordable
    (crowns : Crowns rs after repository storage generation) (recordable : rs.Recordable) :
    after.Recordable := by
  have differs : DiffersAt rs after repository := by
    intro other different
    refine ⟨by rw [crowns.record, if_neg different], fun storage => ?_⟩
    rw [crowns.replica, if_neg (fun both => different both.1)]
  refine recordable_of_raised differs recordable crowns.latest ?_ ⟨storage, ?_⟩ ?_
  · rw [crowns.latest_after, if_pos rfl]
  · rw [crowns.replica, if_pos ⟨rfl, rfl⟩]
  · intro other held isHeld
    rw [crowns.replica] at isHeld
    split at isHeld
    · cases isHeld
      exact .inl rfl
    · exact .inr isHeld

/-- A replica may be set back as long as another one has the latest generation. -/
theorem SetGeneration_decides {virtual path storage : String}
    (numbered : rs.Numbered) (recordable : rs.Recordable) :
    (rs.SetGeneration virtual path storage generation).Recordable ↔
      ∀ newest, rs.latest (virtual, path) = some newest → generation < newest →
        ∃ other, other ≠ storage ∧
          rs.replica (virtual, path) other = some newest := by
  have differs : DiffersAt rs (rs.SetGeneration virtual path storage generation)
      (virtual, path) := by
    intro other different
    refine ⟨by rw [SetGeneration_record, if_neg different], fun otherStorage => ?_⟩
    rw [SetGeneration_replica, if_neg (fun both => different both.1)]
  have held : ∀ other, (rs.SetGeneration virtual path storage generation).replica
      (virtual, path) other = if other = storage then some generation
        else rs.replica (virtual, path) other := by
    intro other
    rw [SetGeneration_replica]
    simp
  rw [recordable_after differs recordable, SetGeneration_record, if_pos rfl, isSome_map,
    SetGeneration_latest]
  cases found : rs.record (virtual, path) with
  | none => simp [latest, found]
  | some record =>
    obtain ⟨newest, current⟩ := isSome_iff_exists.mp (numbered _ record found)
    have latest : rs.latest (virtual, path) = some newest :=
      latest_eq_some.mpr ⟨record, found, current⟩
    have bound := recordable.bound latest
    simp only [latest, isSome_some, true_and, getD_some, forall_const,
      Option.some.injEq, forall_eq']
    by_cases back : generation < newest
    · rw [if_neg (by omega)]
      constructor
      · intro agrees _
        rcases agrees with none | ⟨other, same, ⟨some, isNewest⟩, -⟩
        · have absent := none storage
          rw [held, if_pos rfl] at absent
          cases absent
        · cases same
          rw [held] at isNewest
          split at isNewest
          · cases isNewest
            omega
          · rename_i different
            exact ⟨some, different, isNewest⟩
      · intro other
        obtain ⟨spare, different, isNewest⟩ := other back
        refine .inr ⟨newest, rfl, ⟨spare, by rw [held, if_neg different, isNewest]⟩, ?_⟩
        intro some kept isHeld
        rw [held] at isHeld
        split at isHeld
        · cases isHeld
          omega
        · exact bound some kept isHeld
    · refine iff_of_true ?_ (fun less => absurd less back)
      have ahead : (if newest < generation then some generation else some newest) =
          some generation := by
        split
        · rfl
        · exact congrArg some (by omega)
      rw [ahead]
      refine .inr ⟨generation, rfl, ⟨storage, by rw [held, if_pos rfl]⟩, ?_⟩
      intro other kept isHeld
      rw [held] at isHeld
      split at isHeld
      · cases isHeld
        exact le_refl _
      · have old := bound other kept isHeld
        omega

theorem deleteReplicas_decides (recordable : rs.Recordable) :
    (rs.deleteReplicas repository [storage]).Recordable ↔
      ((rs.record repository).isSome → rs.Spares repository storage) := by
  have differs : DiffersAt rs (rs.deleteReplicas repository [storage]) repository := by
    intro other different
    exact ⟨rfl, fun otherStorage => by simp [different]⟩
  have held : ∀ other, (rs.deleteReplicas repository [storage]).replica repository other =
      if other = storage then none else rs.replica repository other := by
    intro other
    simp
  rw [recordable_after differs recordable]
  refine forall_congr' (fun recorded => ?_)
  constructor
  · intro agrees
    rcases agrees with none | ⟨newest, latest, ⟨other, isNewest⟩, -⟩
    · refine .inl (fun other different => ?_)
      have absent := none other
      rw [held, if_neg different] at absent
      exact absent
    · rw [held] at isNewest
      split at isNewest
      · cases isNewest
      rename_i different
      exact .inr ⟨newest, latest, other, different, isNewest⟩
  · intro spares
    rcases spares with none | ⟨newest, latest, other, different, isNewest⟩
    · refine .inl (fun other => ?_)
      rw [held]
      split
      · rfl
      · rename_i different
        exact none other different
    · refine .inr ⟨newest, latest, ⟨other, by rw [held, if_neg different, isNewest]⟩, ?_⟩
      intro some generation isHeld
      rw [held] at isHeld
      split at isHeld
      · cases isHeld
      · exact recordable.bound latest some generation isHeld

theorem Moves.decides {target : Repository} (moves : Moves rs after repository target storage)
    (different : target ≠ repository) (numbered : rs.Numbered) (recordable : rs.Recordable) :
    after.Recordable ↔ ((rs.record repository).isSome ∨ (rs.record target).isSome →
      Agrees ((rs.latest repository).or (rs.latest target))
        (rs.renamed repository target storage)) := by
  have record := moves.record target
  rw [if_pos rfl] at record
  have replicas : after.replica target = rs.renamed repository target storage := by
    funext other
    unfold renamed
    rw [moves.replica]
    simp [different]
  have latest : after.latest target = (rs.latest repository).or (rs.latest target) := by
    unfold PostgresRepositoryStore.latest
    rw [record]
    cases found : rs.record repository with
    | none => rfl
    | some row =>
      obtain ⟨newest, current⟩ := isSome_iff_exists.mp (numbered _ row found)
      simp [move, current]
  have recorded : (after.record target).isSome ↔
      (rs.record repository).isSome ∨ (rs.record target).isSome := by
    rw [record, isSome_or, isSome_map, Bool.or_eq_true]
  rw [← replicas, ← latest, ← recorded]
  rw [recordable_iff] at recordable ⊢
  constructor
  · intro agree
    exact agree target
  · intro agree other present
    by_cases isTarget : other = target
    · subst isTarget
      exact agree present
    rw [moves.record, if_neg isTarget] at present
    by_cases isSource : other = repository
    · rw [if_pos isSource] at present
      cases present
    rw [if_neg isSource] at present
    have unchanged := recordable other present
    have kept : after.replica other = rs.replica other := by
      funext another
      rw [moves.replica]
      simp [isTarget, isSource]
    rw [kept]
    unfold PostgresRepositoryStore.latest
    rw [moves.record, if_neg isTarget, if_neg isSource]
    exact unchanged

theorem Moves.recordable (moves : Moves rs after repository repository storage)
    (recordable : rs.Recordable) : after.Recordable := by
  have record : ∀ other, after.record other = rs.record other := by
    intro other
    rw [moves.record]
    split
    · rename_i same
      rw [same]
      cases found : rs.record repository with
      | none => rfl
      | some row =>
        obtain ⟨-, key⟩ := KeyedTable.find_eq_some.mp found
        have unmoved : row.move repository.2 = row := by
          rw [← key]
          rfl
        rw [map_some, unmoved]
        rfl
    · rfl
  have replica : ∀ other otherStorage, after.replica other otherStorage =
      rs.replica other otherStorage := by
    intro other otherStorage
    rw [moves.replica]
    split
    · rename_i same
      rw [same.1, same.2, Option.or_self]
    · rfl
  have differs : DiffersAt rs after repository := fun other _ => ⟨record other, replica other⟩
  rw [recordable_after differs recordable, record]
  intro recorded
  have unchanged := (recordable_iff rs).mp recordable repository recorded
  have replicas : after.replica repository = rs.replica repository := funext (replica repository)
  rw [replicas]
  unfold latest
  rw [record]
  exact unchanged

/-- Records come with a generation and keep one. -/
theorem call_numbered (numbered : rs.Numbered) (call : RepositoryCall) :
    (rs.call call).Numbered := by
  cases call with
  | createRepository repositoryID virtual path primary updated outdated sp sa =>
    rcases rs.CreateRepository_cases repositoryID virtual path primary updated
      outdated sp sa with ⟨err, failed⟩ | ⟨after, created, creates⟩
    · simpa only [call, failed] using numbered
    intro other row found
    simp only [call, created, creates.record] at found
    split at found
    · cases found
      rfl
    · exact numbered other row found
  | incrementGeneration virtual path primary secondaries =>
    rcases rs.IncrementGeneration_cases virtual path primary secondaries with
      ⟨err, failed⟩ | ⟨after, generation, raised, raises⟩
    · simpa only [call, failed] using numbered
    intro other row found
    simp only [call, raised, raises.record] at found
    split at found
    · obtain ⟨old, present, rfl⟩ := map_eq_some_iff.mp found
      rw [increment, setGeneration, isSome_map]
      exact numbered other old present
    · exact numbered other row found
  | setGeneration virtual path storage generation =>
    intro other row found
    simp only [call, SetGeneration_record] at found
    split at found
    · obtain ⟨old, present, rfl⟩ := map_eq_some_iff.mp found
      unfold RepositoryRow.raise
      split
      · rfl
      · exact numbered other old present
    · exact numbered other row found
  | setAuthoritativeReplica virtual path storage =>
    rcases rs.SetAuthoritativeReplica_cases virtual path storage with
      ⟨err, failed⟩ | ⟨after, generation, crowned, crowns⟩
    · simpa only [call, failed] using numbered
    intro other row found
    simp only [call, crowned, crowns.record] at found
    split at found
    · obtain ⟨old, present, rfl⟩ := map_eq_some_iff.mp found
      rw [increment, setGeneration, isSome_map]
      exact numbered other old present
    · exact numbered other row found
  | deleteRepository virtual path storages =>
    intro other row found
    simp only [call, DeleteRepository, deleteReplicas_record, deleteRecord_record] at found
    split at found
    · cases found
    · exact numbered other row found
  | deleteReplica virtual path storage => exact numbered
  | deleteInvalidRepository virtual path storage =>
    rcases rs.DeleteInvalidRepository_cases virtual path storage with
      ⟨-, kept⟩ | ⟨-, gone⟩
    · simp only [call, kept]
      exact numbered
    intro other row found
    simp only [call, gone, deleteRecord_record] at found
    split at found
    · cases found
    · exact numbered other row found
  | renameRepository virtual path storage newRelativePath =>
    rcases rs.RenameRepository_cases virtual path storage newRelativePath with
      failed | ⟨-, moves⟩
    · simpa only [call, failed] using numbered
    intro other row found
    simp only [call, moves.record] at found
    split at found
    · rcases or_eq_some_iff.mp found with moved | ⟨-, present⟩
      · obtain ⟨old, present, rfl⟩ := map_eq_some_iff.mp moved
        exact numbered _ old present
      · exact numbered _ row present
    · split at found
      · cases found
      · exact numbered other row found

theorem call_decides (numbered : rs.Numbered) (recordable : rs.Recordable) (call : RepositoryCall) :
    (rs.call call).Recordable ↔ rs.Keeps call := by
  cases call with
  | createRepository repositoryID virtual path primary updated outdated sp sa =>
    rcases rs.CreateRepository_cases repositoryID virtual path primary updated
      outdated sp sa with ⟨err, failed⟩ | ⟨after, created, creates⟩
    · simp only [call, failed]
      refine iff_of_true recordable (fun vacant => ?_)
      have ok : (rs.CreateRepository repositoryID virtual path primary updated
          outdated sp sa).2 = .ok () := CreateRepository_ok_iff.mpr vacant
      rw [failed] at ok
      cases ok
    · have vacant := CreateRepository_ok_iff.mp (congrArg Prod.snd created)
      simp only [call, Keeps, created, vacant, forall_const]
      exact creates.decides (cons_ne_nil _ _) recordable
  | incrementGeneration virtual path primary secondaries =>
    refine iff_of_true ?_ trivial
    rcases rs.IncrementGeneration_cases virtual path primary secondaries with
      ⟨err, failed⟩ | ⟨after, generation, raised, raises⟩
    · simpa only [call, failed] using recordable
    · simpa only [call, raised] using raises.recordable recordable
  | setGeneration virtual path storage generation =>
    exact SetGeneration_decides numbered recordable
  | setAuthoritativeReplica virtual path storage =>
    refine iff_of_true ?_ trivial
    rcases rs.SetAuthoritativeReplica_cases virtual path storage with
      ⟨err, failed⟩ | ⟨after, generation, crowned, crowns⟩
    · simpa only [call, failed] using recordable
    · simpa only [call, crowned] using crowns.recordable recordable
  | deleteRepository virtual path storages =>
    refine iff_of_true ?_ trivial
    have differs : DiffersAt rs (rs.DeleteRepository virtual path storages).1
        (virtual, path) := by
      intro other different
      simp [DeleteRepository, different]
    refine (recordable_after differs recordable).mpr (fun recorded => ?_)
    simp [DeleteRepository] at recorded
  | deleteReplica virtual path storage => exact deleteReplicas_decides recordable
  | deleteInvalidRepository virtual path storage =>
    rcases rs.DeleteInvalidRepository_cases virtual path storage with
      ⟨-, kept⟩ | ⟨alone, gone⟩
    · simp only [call, kept]
      exact deleteReplicas_decides recordable
    refine iff_of_true ?_ (fun _ => .inl alone)
    have differs : DiffersAt rs
        (rs.DeleteInvalidRepository virtual path storage)
        (virtual, path) := by
      intro other different
      simp [gone, different]
    refine (recordable_after differs recordable).mpr (fun recorded => ?_)
    simp [gone] at recorded
  | renameRepository virtual path storage newRelativePath =>
    rcases rs.RenameRepository_cases virtual path storage newRelativePath with
      failed | ⟨admitted, moves⟩
    · simp only [call, failed]
      refine iff_of_true recordable (fun different free => ?_)
      have collides :=
        (RenameRepository_collides_iff different storage).mp (congrArg Prod.snd failed)
      exact absurd collides free
    · by_cases same : newRelativePath = path
      · subst same
        exact iff_of_true (moves.recordable recordable) (fun different => absurd rfl different)
      · have different : (virtual, newRelativePath) ≠ (virtual, path) :=
          fun equal => same (congrArg Prod.snd equal)
        rw [ne_eq, RenameRepository_collides_iff same] at admitted
        refine (moves.decides different numbered recordable).trans ?_
        simp [Keeps, admitted, same]

end steps

/-- Along any sequence of calls, what is written to a consistent storage can be recorded if
and only if no call takes the latest generation away from the replicas, or brings in a newer
one. -/
theorem recordable_iff_keeps (calls : List RepositoryCall) :
    Throughout step Recordable empty calls ↔ Along step Keeps empty calls := by
  have initial : empty.Recordable := by
    rw [recordable_iff]
    intro repository recorded
    cases recorded
  have numbered : empty.Numbered := by
    intro repository record found
    cases found
  have total : ∀ rs call, ∃ next, step rs call = some next := fun rs call => ⟨rs.call call, rfl⟩
  obtain ⟨final, run⟩ := exec_of_total total empty calls
  refine throughout_iff_along run ?_ ?_ numbered initial
  · intro rs call after before taken
    cases taken
    exact call_numbered before call
  · intro rs call after before holds taken
    cases taken
    exact call_decides before holds call

/-- A replica that fell behind, and the replica that was ahead of it turns out to be
invalid. -/
def invalidated : List RepositoryCall :=
  [.createRepository 1 "default" "@hashed/a.git" "gitaly-1" ["gitaly-2"] [] true false,
    .incrementGeneration "default" "@hashed/a.git" "gitaly-1" [],
    .deleteInvalidRepository "default" "@hashed/a.git" "gitaly-1"]

/-- The replica left is consistent, but a write on it cannot be recorded. -/
theorem invalidated_not_recordable :
    (exec step empty invalidated).map (fun rs =>
        (rs.GetConsistentStorages "default" "@hashed/a.git",
          (rs.IncrementGeneration "default" "@hashed/a.git" "gitaly-2" []).2)) =
      some (.ok ["gitaly-2"], .error .writeToOutdatedNodes) := by
  decide

section creation

variable {rs : PostgresRepositoryStore} {repositoryID : Int}
  {virtual path primary : String}
  {updatedSecondaries outdatedSecondaries : List String} {storePrimary storeAssignments : Bool}

/-- A new repository is consistent on the storages that created it and nowhere else exactly
if every replica that is left from before is of a negative generation. -/
theorem created_consistent_iff
    (created : (rs.CreateRepository repositoryID virtual path primary
      updatedSecondaries outdatedSecondaries storePrimary storeAssignments).2 = .ok ()) :
    (∃ storages, (rs.CreateRepository repositoryID virtual path primary
          updatedSecondaries outdatedSecondaries storePrimary
          storeAssignments).1.GetConsistentStorages virtual path = .ok storages ∧
        ∀ storage, storage ∈ storages ↔ storage ∈ primary :: updatedSecondaries) ↔
      ∀ storage generation,
        rs.replica (virtual, path) storage = some generation → generation < 0 := by
  rcases rs.CreateRepository_cases repositoryID virtual path primary
    updatedSecondaries outdatedSecondaries storePrimary storeAssignments with
    ⟨err, failed⟩ | ⟨after, result, creates⟩
  · rw [failed] at created
    cases created
  rw [result]
  have held : ∀ storage, after.replica (virtual, path) storage =
      if storage ∈ primary :: updatedSecondaries then some 0
      else rs.replica (virtual, path) storage := by
    intro storage
    rw [creates.replica]
    simp
  have recorded : (after.record (virtual, path)).isSome := by
    rw [creates.record, if_pos rfl]
    rfl
  have consistent : ∀ {storage}, storage ∈ after.consistentStorages (virtual, path) ↔
      ∃ generation, after.replica (virtual, path) storage = some generation ∧
        ∀ other newer, after.replica (virtual, path) other = some newer →
          newer ≤ generation :=
    mem_consistentStorages.trans (and_iff_right recorded)
  have first : after.replica (virtual, path) primary = some 0 := by
    rw [held, if_pos mem_cons_self]
  constructor
  · intro returned storage generation leftover
    obtain ⟨storages, found, exactly⟩ := returned
    rw [(GetConsistentStorages_ok.mp found).1] at exactly
    have spared : storage ∉ primary :: updatedSecondaries := by
      intro named
      rw [creates.free storage named] at leftover
      cases leftover
    have kept : after.replica (virtual, path) storage = some generation := by
      rw [held, if_neg spared, leftover]
    obtain ⟨newest, isNewest, bound⟩ := consistent.mp ((exactly primary).mpr mem_cons_self)
    rw [first] at isNewest
    cases isNewest
    by_contra notOlder
    have zero : generation = 0 := le_antisymm (bound storage generation kept) (not_lt.mp notOlder)
    subst zero
    exact spared ((exactly storage).mp (consistent.mpr ⟨0, kept, bound⟩))
  · intro old
    have bound : ∀ other newer,
        after.replica (virtual, path) other = some newer → newer ≤ 0 := by
      intro other newer kept
      rw [held] at kept
      split at kept
      · cases kept
        exact le_refl 0
      · exact le_of_lt (old other newer kept)
    have exactly : ∀ storage, storage ∈ after.consistentStorages (virtual, path) ↔
        storage ∈ primary :: updatedSecondaries := by
      intro storage
      constructor
      · intro member
        obtain ⟨generation, kept, newest⟩ := consistent.mp member
        by_contra spared
        rw [held, if_neg spared] at kept
        have negative := old storage generation kept
        have positive := newest primary 0 first
        omega
      · intro member
        exact consistent.mpr ⟨0, by rw [held, if_pos member], bound⟩
    refine ⟨_, GetConsistentStorages_ok.mpr ⟨rfl, ?_⟩, exactly⟩
    exact ne_nil_of_mem ((exactly primary).mpr mem_cons_self)

end creation

/-- A repository that was created on two storages and deleted from one of them. -/
def leftBehind : PostgresRepositoryStore :=
  ((empty.CreateRepository 1 "default" "@hashed/a.git" "gitaly-1" ["gitaly-2"] [] true false).1
    |>.DeleteRepository "default" "@hashed/a.git" ["gitaly-1"]).1

theorem created_consistent_iff_first :
    (empty.CreateRepository 1 "default" "@hashed/a.git" "gitaly-1" ["gitaly-2"] [] true false).2 =
        .ok () ∧
      ((∃ storages, (empty.CreateRepository 1 "default" "@hashed/a.git" "gitaly-1" ["gitaly-2"] []
            true false).1.GetConsistentStorages "default" "@hashed/a.git" = .ok storages ∧
          ∀ storage, storage ∈ storages ↔ storage ∈ ["gitaly-1", "gitaly-2"]) ↔
        ∀ storage generation,
          empty.replica ("default", "@hashed/a.git") storage = some generation → generation < 0) :=
  ⟨by decide, created_consistent_iff (by decide)⟩

/-- The replica that was left behind counts as one of the repository created next. -/
theorem leftBehind_consistent :
    exec step empty
        [.createRepository 1 "default" "@hashed/a.git" "gitaly-1" ["gitaly-2"] [] true false,
          .deleteRepository "default" "@hashed/a.git" ["gitaly-1"]] = some leftBehind ∧
      (leftBehind.CreateRepository 2 "default" "@hashed/a.git" "gitaly-1" [] [] true false).2 =
        .ok () ∧
      (leftBehind.CreateRepository 2 "default" "@hashed/a.git" "gitaly-1" [] [] true
          false).1.GetConsistentStorages "default" "@hashed/a.git" =
        .ok ["gitaly-2", "gitaly-1"] := by
  decide

end PostgresRepositoryStore

end Gitaly.Datastore
