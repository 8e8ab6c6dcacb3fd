import Gitaly.Datastore.RepositoryStore

/- What each statement of the repository store does to the record of a repository and to
the generations of its replicas. -/
namespace Gitaly.Datastore

open KeyedTable StorageRow List

namespace PostgresRepositoryStore

variable {rs after : PostgresRepositoryStore}

variable {repository : Repository} {generation : Int}

theorem replica_eq_some {storage : String} :
    rs.replica repository storage = some generation ↔
      ∃ row ∈ rs.storageRepositories, row.key = (repository, storage) ∧
        row.generation = generation := by
  simp only [replica, Option.map_eq_some_iff, find_eq_some, and_assoc]

theorem replica_of_mem {row : StorageRow} (member : row ∈ rs.storageRepositories) :
    rs.replica row.repository row.storage = some row.generation :=
  replica_eq_some.mpr ⟨row, member, rfl, rfl⟩

theorem replica_eq_none {storage : String} :
    rs.replica repository storage = none ↔ (repository, storage) ∉ rs.storageRepositories.keys := by
  rw [replica, Option.map_eq_none_iff, find_eq_none]

theorem mem_replicas {row : StorageRow} :
    row ∈ rs.replicas repository ↔ row ∈ rs.storageRepositories ∧ row.repository = repository := by
  unfold replicas
  rw [mem_filter, decide_eq_true_iff]
  exact Iff.rfl

theorem exists_replicas (property : String → Int → Prop) :
    (∃ row ∈ rs.replicas repository, property row.storage row.generation) ↔
      ∃ storage generation, rs.replica repository storage = some generation ∧
        property storage generation := by
  constructor
  · intro found
    obtain ⟨row, member, holds⟩ := found
    obtain ⟨present, rfl⟩ := mem_replicas.mp member
    exact ⟨row.storage, row.generation, replica_of_mem present, holds⟩
  · intro found
    obtain ⟨storage, generation, held, holds⟩ := found
    obtain ⟨row, present, same, rfl⟩ := replica_eq_some.mp held
    cases same
    exact ⟨row, mem_replicas.mpr ⟨present, rfl⟩, holds⟩

theorem latest_eq_some :
    rs.latest repository = some generation ↔
      ∃ record, rs.record repository = some record ∧ record.generation = some generation := by
  unfold latest
  rw [Option.bind_eq_some_iff]

theorem modify_record {change : RepositoryRow → RepositoryRow}
    (keep : ∀ row, (change row).key = row.key) (repository other : Repository) :
    (rs.repositories.modify repository change keep).find other =
      if other = repository then (rs.record other).map change else rs.record other := by
  unfold record
  rw [find_modify]
  split
  · rename_i same
    rw [same]
  · rfl

theorem latest_of_increment (latest : rs.latest repository = some generation)
    (record : ∀ other, after.record other =
      if other = repository then (rs.record other).map RepositoryRow.increment
      else rs.record other) (other : Repository) :
    after.latest other = if other = repository then some (generation + 1) else rs.latest other := by
  obtain ⟨row, found, current⟩ := latest_eq_some.mp latest
  unfold PostgresRepositoryStore.latest
  rw [record]
  split
  · rename_i same
    subst same
    simp [found, current, RepositoryRow.increment, RepositoryRow.setGeneration]
  · rfl

section increment

variable {repository : Repository} {storages : List String}

/-- The replicas on the latest generation are raised to the next one, with the record. -/
structure Raises (rs after : PostgresRepositoryStore) (repository : Repository)
    (storages : List String) (generation : Int) : Prop where
  latest : rs.latest repository = some generation
  raised : ∃ storage ∈ storages, rs.replica repository storage = some generation
  record : ∀ other, after.record other =
    if other = repository then (rs.record other).map RepositoryRow.increment else rs.record other
  replica : ∀ other storage, after.replica other storage =
    if other = repository ∧ storage ∈ storages ∧ rs.replica other storage = some generation
    then some (generation + 1) else rs.replica other storage
  assignments : after.assignments = rs.assignments

theorem any_toUpdate :
    rs.storageRepositories.rows.any (rs.toUpdate repository storages) = true ↔
      ∃ generation, rs.latest repository = some generation ∧
        ∃ storage ∈ storages, rs.replica repository storage = some generation := by
  simp only [any_eq_true, toUpdate, decide_eq_true_eq]
  constructor
  · intro found
    obtain ⟨row, present, rfl, named, current⟩ := found
    exact ⟨row.generation, current, row.storage, named, replica_of_mem present⟩
  · intro found
    obtain ⟨generation, current, storage, named, held⟩ := found
    obtain ⟨row, present, same, rfl⟩ := replica_eq_some.mp held
    cases same
    exact ⟨row, present, rfl, named, current⟩

theorem Raises.latest_after {generation : Int}
    (raises : Raises rs after repository storages generation) :
    ∀ other, after.latest other =
      if other = repository then some (generation + 1) else rs.latest other :=
  latest_of_increment raises.latest raises.record

section

variable (rs : PostgresRepositoryStore) (virtual path primary : String)
  (secondaries : List String)

theorem IncrementGeneration_cases :
    (∃ err, rs.IncrementGeneration virtual path primary secondaries =
        (rs, .error err)) ∨
      ∃ after generation,
        rs.IncrementGeneration virtual path primary secondaries = (after, .ok ()) ∧
        Raises rs after (virtual, path) (secondaries ++ [primary]) generation := by
  unfold IncrementGeneration
  dsimp only
  split
  · exact .inl ⟨_, rfl⟩
  split
  · exact .inl ⟨_, rfl⟩
  rename_i updated
  rw [Bool.not_eq_false, any_toUpdate] at updated
  obtain ⟨generation, current, raised⟩ := updated
  refine .inr ⟨_, generation, rfl, current, raised, ?_, ?_, rfl⟩
  · exact modify_record RepositoryRow.increment_key (virtual, path)
  · intro other storage
    unfold replica
    rw [find_updateWhere, Option.map_map]
    cases found : rs.storageRepositories.find (other, storage) with
    | none => simp
    | some row =>
      obtain ⟨-, same⟩ := find_eq_some.mp found
      cases same
      simp only [Option.map_some, Function.comp_apply, toUpdate, current,
        Option.some.injEq, decide_eq_true_eq]
      by_cases chosen : row.repository = (virtual, path) ∧
          row.storage ∈ secondaries ++ [primary] ∧ row.generation = generation
      · obtain ⟨isRepository, named, rfl⟩ := chosen
        simp [isRepository, named, increment, setGeneration]
      rw [if_neg, if_neg chosen]
      intro holds
      exact chosen ⟨holds.1, holds.2.1, holds.2.2.symm⟩

theorem IncrementGeneration_ok_iff :
    (rs.IncrementGeneration virtual path primary secondaries).2 = .ok () ↔
      ∃ generation, rs.latest (virtual, path) = some generation ∧
        ∃ storage ∈ secondaries ++ [primary],
          rs.replica (virtual, path) storage = some generation := by
  rw [← any_toUpdate]
  unfold IncrementGeneration
  dsimp only
  split
  · rename_i absent
    refine iff_of_false (fun failed => by cases failed) ?_
    rw [any_toUpdate]
    intro found
    obtain ⟨generation, current, -⟩ := found
    obtain ⟨record, present, -⟩ := latest_eq_some.mp current
    rw [absent] at present
    cases present
  · split
    · rename_i none
      exact iff_of_false (fun failed => by cases failed) (by rw [none]; exact Bool.false_ne_true)
    · rename_i updated
      exact iff_of_true rfl ((Bool.not_eq_false _).mp updated)

end

end increment

section setGeneration

variable (rs) (virtual path storage : String) (generation : Int) (other : Repository)

theorem SetGeneration_record :
    (rs.SetGeneration virtual path storage generation).record other =
      if other = (virtual, path) then
        (rs.record other).map (RepositoryRow.raise generation)
      else rs.record other :=
  modify_record (RepositoryRow.raise_key generation) (virtual, path) other

theorem upsert_replica (otherStorage : String) :
    ((rs.storageRepositories.upsert ⟨virtual, path, storage, generation⟩
        (setGeneration generation) (setGeneration_key generation)).find
          (other, otherStorage)).map StorageRow.generation =
      if other = (virtual, path) ∧ otherStorage = storage then some generation
      else rs.replica other otherStorage := by
  rw [find_upsert]
  simp only [key, repository, Prod.mk.injEq]
  split
  · cases rs.storageRepositories.find (other, otherStorage) with
    | none | some => rfl
  · rfl

theorem SetGeneration_replica (otherStorage : String) :
    (rs.SetGeneration virtual path storage generation).replica other otherStorage =
      if other = (virtual, path) ∧ otherStorage = storage then some generation
      else rs.replica other otherStorage :=
  upsert_replica rs virtual path storage generation other otherStorage

theorem SetGeneration_latest :
    (rs.SetGeneration virtual path storage generation).latest other =
      if other = (virtual, path) ∧ (rs.record other).isSome ∧
          (rs.latest other).getD (-1) < generation then some generation
      else rs.latest other := by
  unfold latest
  rw [SetGeneration_record]
  by_cases same : other = (virtual, path)
  · rw [if_pos same]
    cases found : rs.record other with
    | none => simp
    | some record =>
      simp only [Option.map_some, Option.bind_some, RepositoryRow.raise, Option.isSome_some,
        true_and, same]
      split <;> rfl
  · simp [same]

end setGeneration

section authoritative

/-- A replica becomes the only one on a new latest generation. -/
structure Crowns (rs after : PostgresRepositoryStore) (repository : Repository) (storage : String)
    (generation : Int) : Prop where
  latest : rs.latest repository = some generation
  record : ∀ other, after.record other =
    if other = repository then (rs.record other).map RepositoryRow.increment else rs.record other
  replica : ∀ other otherStorage, after.replica other otherStorage =
    if other = repository ∧ otherStorage = storage then some (generation + 1)
    else rs.replica other otherStorage

theorem Crowns.latest_after {repository : Repository} {storage : String} {generation : Int}
    (crowns : Crowns rs after repository storage generation) :
    ∀ other, after.latest other =
      if other = repository then some (generation + 1) else rs.latest other :=
  latest_of_increment crowns.latest crowns.record

theorem SetAuthoritativeReplica_cases (rs : PostgresRepositoryStore)
    (virtual path storage : String) :
    (∃ err, rs.SetAuthoritativeReplica virtual path storage = (rs, .error err)) ∨
      ∃ after generation,
        rs.SetAuthoritativeReplica virtual path storage = (after, .ok ()) ∧
        Crowns rs after (virtual, path) storage generation := by
  unfold SetAuthoritativeReplica
  split
  · exact .inl ⟨_, rfl⟩
  rename_i record found
  split
  · exact .inl ⟨_, rfl⟩
  rename_i next incremented
  obtain ⟨generation, current, rfl⟩ := Option.map_eq_some_iff.mp incremented
  refine .inr ⟨_, generation, rfl, latest_eq_some.mpr ⟨record, found, current⟩, ?_, ?_⟩
  · exact modify_record RepositoryRow.increment_key (virtual, path)
  · exact upsert_replica rs virtual path storage (generation + 1)

end authoritative

section replicated

variable (rs : PostgresRepositoryStore)

theorem replicas_storages_nodup (repository : Repository) :
    ((rs.replicas repository).map storage).Nodup := by
  have keys : ((rs.replicas repository).map key).Nodup :=
    rs.storageRepositories.unique.sublist (filter_sublist.map key)
  have same : (rs.replicas repository).map key =
      ((rs.replicas repository).map storage).map (Prod.mk repository) := by
    rw [map_map]
    apply map_congr_left
    intro row member
    have named := (mem_replicas.mp member).2
    exact Prod.ext named rfl
  rw [same] at keys
  exact keys.of_map

theorem foldl_readGeneration (source target : String) (rows : List StorageRow)
    (distinct : (rows.map storage).Nodup) (generations : Int × Int) :
    rows.foldl (readGeneration source target) generations =
      (((rows.find? (fun row => row.storage = source)).map StorageRow.generation).getD
        generations.1,
        if target = source then generations.2
        else ((rows.find? (fun row => row.storage = target)).map
          StorageRow.generation).getD generations.2) := by
  induction rows generalizing generations with
  | nil => simp
  | cons row rest ih =>
    rw [map_cons, nodup_cons] at distinct
    have absent : ∀ {storage}, row.storage = storage →
        rest.find? (fun other => other.storage = storage) = none := by
      intro storage same
      rw [find?_eq_none]
      intro other member found
      exact distinct.1 (mem_map.mpr ⟨other, member, (of_decide_eq_true found).trans same.symm⟩)
    rw [foldl_cons, ih distinct.2]
    unfold readGeneration
    by_cases isSource : row.storage = source
    · rw [if_pos isSource, absent isSource]
      by_cases same : target = source
      · simp [isSource, same]
      · have other : ¬ source = target := fun isTarget => same isTarget.symm
        simp [isSource, same, other]
    · rw [if_neg isSource]
      by_cases isTarget : row.storage = target
      · rw [if_pos isTarget, absent isTarget]
        have different : ¬ target = source := fun same => isSource (isTarget.trans same)
        simp [isTarget, different]
      · simp [isSource, isTarget]

theorem find_replicas (repository : Repository) (storage : String)
    {chosen : StorageRow → Bool} (all : ∀ row, row.storage = storage → chosen row = true) :
    ((((rs.replicas repository).filter chosen).find? (fun row => row.storage = storage)).map
      StorageRow.generation) = rs.replica repository storage := by
  unfold replicas replica find
  rw [filter_filter, find?_filter]
  congr 2
  funext row
  simp only [key, Prod.mk.injEq, Bool.decide_and]
  by_cases same : row.storage = storage
  · simp [same, all row same]
  · simp [same]

theorem GetReplicatedGeneration_eq (virtual path source target : String) :
    rs.GetReplicatedGeneration virtual path source target =
      let sourceGeneration :=
        (rs.replica (virtual, path) source).getD generationUnknown
      let targetGeneration := if target = source then generationUnknown
        else (rs.replica (virtual, path) target).getD generationUnknown
      if targetGeneration ≠ generationUnknown ∧ targetGeneration ≥ sourceGeneration then
        .error (.downgradeAttempted virtual path target targetGeneration
          sourceGeneration)
      else .ok sourceGeneration := by
  have distinct := (replicas_storages_nodup rs (virtual, path)).sublist
    ((filter_sublist (p := fun row : StorageRow => row.storage ∈ [source, target])).map storage)
  unfold GetReplicatedGeneration
  dsimp only
  rw [foldl_readGeneration source target _ distinct,
    find_replicas rs _ source (by simp +contextual),
    find_replicas rs _ target (by simp +contextual)]

theorem GetReplicatedGeneration_ok {rs : PostgresRepositoryStore}
    {virtual path source target : String} {generation : Int}
    (different : source ≠ target)
    (returned : rs.GetReplicatedGeneration virtual path source target =
      .ok generation) :
    (rs.replica (virtual, path) source).getD generationUnknown = generation ∧
      ∀ current, rs.replica (virtual, path) target = some current →
        current = generationUnknown ∨ current < generation := by
  rw [GetReplicatedGeneration_eq] at returned
  dsimp only at returned
  rw [if_neg different.symm] at returned
  split at returned
  · cases returned
  rename_i upgrade
  cases returned
  refine ⟨rfl, ?_⟩
  intro current held
  rw [held, Option.getD_some] at upgrade
  omega

end replicated

section create

variable {repositoryID : Int} {virtual path primary : String}
  {updatedSecondaries outdatedSecondaries : List String} {storePrimary storeAssignments : Bool}

variable {storages : List String}

theorem replica_insertAll {storageRepositories : KeyedTable StorageRow _ key}
    (inserted : rs.storageRepositories.insertAll
      (storages.map (fun storage => ⟨virtual, path, storage, 0⟩)) =
        some storageRepositories) (other : Repository) (storage : String) :
    (storageRepositories.find (other, storage)).map StorageRow.generation =
      if other = (virtual, path) ∧ storage ∈ storages then some 0
      else rs.replica other storage := by
  split
  · rename_i created
    obtain ⟨rfl, named⟩ := created
    have present : ⟨virtual, path, storage, 0⟩ ∈ storageRepositories :=
      (mem_insertAll inserted).mpr (.inr (mem_map.mpr ⟨storage, named, rfl⟩))
    exact Option.map_eq_some_iff.mpr ⟨_, find_eq_some.mpr ⟨present, rfl⟩, rfl⟩
  · rename_i other
    congr 1
    ext row
    rw [find_eq_some, find_eq_some, mem_insertAll inserted]
    refine and_congr_left (fun same => or_iff_left ?_)
    intro created
    obtain ⟨name, named, rfl⟩ := mem_map.mp created
    cases same
    exact other ⟨rfl, named⟩

/-- A new record, with replicas on the storages that took part in the creation. -/
structure Creates (rs after : PostgresRepositoryStore) (repositoryID : Int)
    (repository : Repository)
    (primary : Option String) (storages : List String) : Prop where
  absent : rs.record repository = none
  free : ∀ storage ∈ storages, rs.replica repository storage = none
  record : ∀ other, after.record other =
    if other = repository then some ⟨repositoryID, repository.1, repository.2, some 0, primary⟩
    else rs.record other
  replica : ∀ other storage, after.replica other storage =
    if other = repository ∧ storage ∈ storages then some 0 else rs.replica other storage

theorem CreateRepository_cases (rs : PostgresRepositoryStore) (repositoryID : Int)
    (virtual path primary : String)
    (updatedSecondaries outdatedSecondaries : List String) (storePrimary storeAssignments : Bool) :
    (∃ err, rs.CreateRepository repositoryID virtual path primary updatedSecondaries
        outdatedSecondaries storePrimary storeAssignments = (rs, .error err)) ∨
      ∃ after, rs.CreateRepository repositoryID virtual path primary
          updatedSecondaries outdatedSecondaries storePrimary storeAssignments = (after, .ok ()) ∧
        Creates rs after repositoryID (virtual, path)
          (if storePrimary then some primary else none) (primary :: updatedSecondaries) := by
  unfold CreateRepository
  dsimp only
  generalize (if storePrimary then some primary else none) = stored
  split
  · exact .inl ⟨_, rfl⟩
  rename_i storageRepositories inserted
  split
  · rename_i fresh
    split
    · exact .inl ⟨_, rfl⟩
    split
    · exact .inl ⟨_, rfl⟩
    refine .inr ⟨_, rfl, find_eq_none.mpr fresh, ?_, ?_, ?_⟩
    · intro storage named
      rw [replica_eq_none]
      exact insertAll_fresh inserted
        (mem_map.mpr ⟨storage, mem_dedup.mpr named, rfl⟩)
    · intro other
      unfold record
      rw [find_insert]
      rfl
    · intro other storage
      unfold replica
      rw [replica_insertAll inserted]
      simp only [mem_dedup]
      rfl
  · exact .inl ⟨_, rfl⟩

/-- No row is in the way of a new repository. -/
structure Vacant (rs : PostgresRepositoryStore) (repositoryID : Int) (repository : Repository)
    (storages assigned : List String) : Prop where
  absent : rs.record repository = none
  free : ∀ storage ∈ storages, rs.replica repository storage = none
  unused : repositoryID ∉ rs.repositories.rows.map RepositoryRow.repositoryID
  unassigned : ∀ storage ∈ assigned, (repository, storage) ∉ rs.assignments.keys

variable {rs : PostgresRepositoryStore} {virtual path : String}

theorem insertAll_replicas_iff :
    (rs.storageRepositories.insertAll (storages.dedup.map (fun storage =>
        ⟨virtual, path, storage, 0⟩))).isSome = true ↔
      ∀ storage ∈ storages, rs.replica (virtual, path) storage = none := by
  rw [insertAll_isSome_iff]
  · simp only [forall_mem_map, mem_dedup, replica_eq_none]
    rfl
  · rw [map_map]
    exact (nodup_dedup _).map (fun _ _ same => congrArg Prod.snd same)

theorem insertAll_assignments_iff :
    (rs.assignments.insertAll (storages.dedup.map (fun storage =>
        ⟨virtual, path, storage⟩))).isSome = true ↔
      ∀ storage ∈ storages, ((virtual, path), storage) ∉ rs.assignments.keys := by
  rw [insertAll_isSome_iff]
  · simp only [forall_mem_map, mem_dedup]
    rfl
  · rw [map_map]
    exact (nodup_dedup _).map (fun _ _ same => congrArg Prod.snd same)

theorem CreateRepository_ok_iff {repositoryID : Int} {virtual path primary : String}
    {updatedSecondaries outdatedSecondaries : List String} {storePrimary storeAssignments : Bool} :
    (rs.CreateRepository repositoryID virtual path primary updatedSecondaries
        outdatedSecondaries storePrimary storeAssignments).2 = .ok () ↔
      rs.Vacant repositoryID (virtual, path) (primary :: updatedSecondaries)
        (if storeAssignments then primary :: updatedSecondaries ++ outdatedSecondaries
          else []) := by
  have listed : (if storeAssignments then
      (primary :: updatedSecondaries ++ outdatedSecondaries).dedup else []) =
      (if storeAssignments then primary :: updatedSecondaries ++ outdatedSecondaries
        else []).dedup := by
    split <;> rfl
  unfold CreateRepository
  dsimp only
  rw [listed]
  generalize (if storePrimary then some primary else none) = stored
  generalize (if storeAssignments then primary :: updatedSecondaries ++ outdatedSecondaries
    else []) = assigned
  constructor
  · intro created
    split at created
    · cases created
    rename_i inserted
    split at created
    · rename_i fresh
      split at created
      · cases created
      rename_i unused
      split at created
      · cases created
      rename_i insertedAssignments
      exact ⟨find_eq_none.mpr fresh,
        insertAll_replicas_iff.mp (Option.isSome_iff_exists.mpr ⟨_, inserted⟩), unused,
        insertAll_assignments_iff.mp (Option.isSome_iff_exists.mpr ⟨_, insertedAssignments⟩)⟩
    · cases created
  · intro vacant
    obtain ⟨storageRepositories, inserted⟩ :=
      Option.isSome_iff_exists.mp (insertAll_replicas_iff.mpr vacant.free)
    obtain ⟨assignments, insertedAssignments⟩ :=
      Option.isSome_iff_exists.mp (insertAll_assignments_iff.mpr vacant.unassigned)
    rw [inserted]
    dsimp only
    split
    · rw [if_neg vacant.unused, insertedAssignments]
    · rename_i taken
      exact absurd (find_eq_none.mp vacant.absent) taken

end create

section delete

variable (rs) (repository : Repository) (storages : List String) (other : Repository)

@[simp] theorem deleteRecord_record :
    (rs.deleteRecord repository).record other =
      if other = repository then none else rs.record other := by
  unfold deleteRecord record
  rw [find_delete]
  cases found : rs.repositories.find other with
  | none => simp
  | some row =>
    obtain ⟨-, rfl⟩ := find_eq_some.mp found
    simp [Option.filter_some]

@[simp] theorem deleteRecord_replica (storage : String) :
    (rs.deleteRecord repository).replica other storage = rs.replica other storage := rfl

@[simp] theorem deleteReplicas_record :
    (rs.deleteReplicas repository storages).record other = rs.record other := rfl

@[simp] theorem deleteReplicas_replica (storage : String) :
    (rs.deleteReplicas repository storages).replica other storage =
      if other = repository ∧ storage ∈ storages then none else rs.replica other storage := by
  unfold deleteReplicas replica
  rw [find_delete]
  cases found : rs.storageRepositories.find (other, storage) with
  | none => simp
  | some row =>
    obtain ⟨-, same⟩ := find_eq_some.mp found
    cases same
    by_cases doomed : row.repository = repository ∧ row.storage ∈ storages
    · simp [Option.filter_some, doomed]
    · rw [Option.filter_some, if_pos (by simpa [imp_iff_not_or] using doomed), if_neg doomed]

theorem any_other_replicas (storage : String) :
    (rs.replicas repository).any (fun row => row.storage ≠ storage) = true ↔
      ∃ other, other ≠ storage ∧ rs.replica repository other ≠ none := by
  simp only [any_eq_true, decide_eq_true_eq]
  rw [exists_replicas (fun other _ => other ≠ storage)]
  simp only [Option.ne_none_iff_exists']
  constructor
  · intro found
    obtain ⟨other, generation, held, different⟩ := found
    exact ⟨other, different, generation, held⟩
  · intro found
    obtain ⟨other, different, generation, held⟩ := found
    exact ⟨other, generation, held, different⟩

/-- The record survives as long as another storage has a replica. -/
theorem DeleteInvalidRepository_cases (virtual path storage : String) :
    ((∃ other, other ≠ storage ∧ rs.replica (virtual, path) other ≠ none) ∧
        rs.DeleteInvalidRepository virtual path storage =
          rs.deleteReplicas (virtual, path) [storage]) ∨
      (∀ other, other ≠ storage → rs.replica (virtual, path) other = none) ∧
        rs.DeleteInvalidRepository virtual path storage =
          (rs.deleteReplicas (virtual, path) [storage]).deleteRecord
            (virtual, path) := by
  unfold DeleteInvalidRepository
  dsimp only
  split
  · rename_i others
    exact .inl ⟨(any_other_replicas rs _ storage).mp others, rfl⟩
  rename_i alone
  rw [any_other_replicas] at alone
  push Not at alone
  exact .inr ⟨alone, rfl⟩

end delete

section rename

/-- The record of a repository and one of its replicas move to another path, where a record
or a replica on the same storage may only be if the repository has none itself. -/
structure Moves (rs after : PostgresRepositoryStore) (repository target : Repository)
    (storage : String) : Prop where
  record : ∀ other, after.record other =
    if other = target then
      ((rs.record repository).map (RepositoryRow.move target.2)).or (rs.record target)
    else if other = repository then none else rs.record other
  replica : ∀ other otherStorage, after.replica other otherStorage =
    if other = target ∧ otherStorage = storage then
      (rs.replica repository storage).or (rs.replica target storage)
    else if other = repository ∧ otherStorage = storage then none
    else rs.replica other otherStorage

theorem RenameRepository_cases (rs : PostgresRepositoryStore)
    (virtual path storage newRelativePath : String) :
    rs.RenameRepository virtual path storage newRelativePath =
        (rs, .error .uniqueViolation) ∨
      (rs.RenameRepository virtual path storage newRelativePath).2 ≠
          .error .uniqueViolation ∧
        Moves rs (rs.RenameRepository virtual path storage newRelativePath).1
          (virtual, path) (virtual, newRelativePath) storage := by
  unfold RenameRepository
  dsimp only
  split
  · rename_i repositories storageRepositories assignments records replicas assigned
    refine .inr ⟨?_, ?_, ?_⟩
    · dsimp only
      split
      all_goals exact fun failed => by cases failed
    · intro other
      refine find_rekey ?_ records other
      intro row same
      cases same
      rfl
    · intro other otherStorage
      have moves : ∀ row : StorageRow, row.key = ((virtual, path), storage) →
          (row.move newRelativePath).key = ((virtual, newRelativePath), storage) := by
        intro row same
        cases same
        rfl
      have found := find_rekey moves replicas (other, otherStorage)
      unfold replica
      rw [found]
      simp only [Prod.mk.injEq]
      split
      · cases rs.storageRepositories.find ((virtual, path), storage) with
        | none | some => rfl
      · split <;> rfl
  · exact .inl rfl

/-- Something at the target is in the way of the rows that a rename moves there. -/
def Collides (rs : PostgresRepositoryStore) (repository target : Repository) (storage : String) :
    Prop :=
  (rs.record repository).isSome ∧ (rs.record target).isSome ∨
    (rs.replica repository storage).isSome ∧ (rs.replica target storage).isSome ∨
    ∃ other, (repository, other) ∈ rs.assignments.keys ∧ (target, other) ∈ rs.assignments.keys

theorem RenameRepository_collides_iff {virtual path newRelativePath : String}
    (different : newRelativePath ≠ path) (storage : String) :
    (rs.RenameRepository virtual path storage newRelativePath).2 =
        .error .uniqueViolation ↔
      rs.Collides (virtual, path) (virtual, newRelativePath) storage := by
  have apart : ((virtual, newRelativePath) : Repository) ≠ (virtual, path) :=
    fun same => different (congrArg Prod.snd same)
  have records : (rs.repositories.rekey (fun row =>
      if row.key = (virtual, path) then row.move newRelativePath
      else row)).isSome = true ↔ ¬ ((rs.record (virtual, path)).isSome ∧
        (rs.record (virtual, newRelativePath)).isSome) := by
    refine rekey_one_isSome_iff ?_ apart
    intro row same
    cases same
    rfl
  have replicas : (rs.storageRepositories.rekey (fun row =>
      if row.key = ((virtual, path), storage) then row.move newRelativePath
      else row)).isSome = true ↔ ¬ ((rs.replica (virtual, path) storage).isSome ∧
        (rs.replica (virtual, newRelativePath) storage).isSome) := by
    unfold replica
    rw [Option.isSome_map, Option.isSome_map]
    refine rekey_one_isSome_iff ?_ (fun same => apart (congrArg Prod.fst same))
    intro row same
    cases same
    rfl
  have assigned : (rs.assignments.rekey (fun row =>
      if row.repository = (virtual, path) then row.move newRelativePath
      else row)).isSome = true ↔ ¬ ∃ other,
        ((virtual, path), other) ∈ rs.assignments.keys ∧
          ((virtual, newRelativePath), other) ∈ rs.assignments.keys := by
    refine (rekey_isSome_iff (fun k : Repository × String =>
      k.1 = (virtual, path)) (fun k => ((virtual, newRelativePath), k.2)) ?_
      (fun _ _ => apart) ?_).trans ?_
    · intro row same
      cases same
      rfl
    · intro k other isSource otherSource same
      exact Prod.ext (isSource.trans otherSource.symm) (congrArg (fun pair => pair.2) same)
    · constructor
      · rintro free ⟨other, present, taken⟩
        exact free _ present rfl taken
      · rintro free ⟨_, other⟩ present rfl taken
        exact free ⟨other, present, taken⟩
  unfold RenameRepository Collides
  dsimp only
  split
  · rename_i renamed moved reassigned
    rw [renamed] at records
    rw [moved] at replicas
    rw [reassigned] at assigned
    refine iff_of_false ?_ ?_
    · split <;> exact fun failed => by cases failed
    · rintro (both | both | both)
      · exact records.mp rfl both
      · exact replicas.mp rfl both
      · exact assigned.mp rfl both
  · rename_i missing
    refine iff_of_true rfl ?_
    by_contra free
    simp only [not_or] at free
    obtain ⟨_, renamed⟩ := Option.isSome_iff_exists.mp (records.mpr free.1)
    obtain ⟨_, moved⟩ := Option.isSome_iff_exists.mp (replicas.mpr free.2.1)
    obtain ⟨_, reassigned⟩ := Option.isSome_iff_exists.mp (assigned.mpr free.2.2)
    exact missing _ _ _ renamed moved reassigned

end rename

section consistent

variable {virtual path : String}

/-- A storage is consistent if no other one has a newer replica. -/
def Consistent (rs : PostgresRepositoryStore) (repository : Repository) (storage : String) : Prop :=
  (rs.record repository).isSome ∧ ∃ generation, rs.replica repository storage = some generation ∧
    ∀ other newer, rs.replica repository other = some newer → newer ≤ generation

theorem max_replicas {repository : Repository} {generation : Int} :
    ((rs.replicas repository).map StorageRow.generation).max? = some generation ↔
      (∃ storage, rs.replica repository storage = some generation) ∧
        ∀ other newer, rs.replica repository other = some newer → newer ≤ generation := by
  rw [max?_eq_some_iff]
  refine and_congr ?_ ?_
  · rw [mem_map, exists_replicas (fun _ held => held = generation)]
    constructor
    · intro found
      obtain ⟨storage, _, held, rfl⟩ := found
      exact ⟨storage, held⟩
    · intro found
      obtain ⟨storage, held⟩ := found
      exact ⟨storage, generation, held, rfl⟩
  · constructor
    · intro bound other newer held
      obtain ⟨row, present, same, rfl⟩ := replica_eq_some.mp held
      cases same
      exact bound _ (mem_map.mpr ⟨row, mem_replicas.mpr ⟨present, rfl⟩, rfl⟩)
    · intro bound newer member
      obtain ⟨row, found, rfl⟩ := mem_map.mp member
      obtain ⟨present, rfl⟩ := mem_replicas.mp found
      exact bound row.storage row.generation (replica_of_mem present)

theorem mem_consistentStorages {repository : Repository} {storage : String} :
    storage ∈ rs.consistentStorages repository ↔ rs.Consistent repository storage := by
  unfold consistentStorages Consistent
  split
  · rename_i recorded
    rw [mem_map]
    constructor
    · intro found
      obtain ⟨row, member, rfl⟩ := found
      obtain ⟨replica, latest⟩ := mem_filter.mp member
      obtain ⟨present, rfl⟩ := mem_replicas.mp replica
      exact ⟨recorded, row.generation, replica_of_mem present,
        (max_replicas.mp (of_decide_eq_true latest).symm).2⟩
    · intro found
      obtain ⟨-, generation, held, newest⟩ := found
      obtain ⟨row, present, same, rfl⟩ := replica_eq_some.mp held
      cases same
      have latest := max_replicas.mpr ⟨⟨row.storage, held⟩, newest⟩
      exact ⟨row, mem_filter.mpr ⟨mem_replicas.mpr ⟨present, rfl⟩, decide_eq_true latest.symm⟩, rfl⟩
  · rename_i missing
    exact iff_of_false not_mem_nil (fun consistent => missing consistent.1)

theorem GetConsistentStorages_ok {storages : List String} :
    rs.GetConsistentStorages virtual path = .ok storages ↔
      storages = rs.consistentStorages (virtual, path) ∧ storages ≠ [] := by
  unfold GetConsistentStorages
  dsimp only
  split
  · rename_i none
    rw [length_eq_zero_iff] at none
    refine iff_of_false (fun failed => by cases failed) ?_
    intro found
    exact found.2 (found.1.trans none)
  · rename_i some
    rw [length_eq_zero_iff] at some
    constructor
    · intro returned
      cases returned
      exact ⟨rfl, some⟩
    · intro found
      rw [found.1]

end consistent

end PostgresRepositoryStore

end Gitaly.Datastore
