import Gitaly.Datastore.RepositoryStoreAgreement

/- A recorded write: the replicas that took part in it go to the next generation together with
the record of the repository, and the generation of a record never goes back. -/
namespace Gitaly.Datastore

open PostgresRepositoryStore Option List

/-- The calls that record a generation. -/
def RepositoryCall.RecordsGeneration : RepositoryCall → Prop
  | .incrementGeneration _ _ _ _ | .setGeneration _ _ _ _ | .setAuthoritativeReplica _ _ _ => True
  | _ => False

namespace PostgresRepositoryStore

variable {rs after : PostgresRepositoryStore}

/-- No replica is newer than the record of its repository. -/
def Bounded (rs : PostgresRepositoryStore) : Prop :=
  ∀ repository storage generation newest, rs.replica repository storage = some generation →
    rs.latest repository = some newest → generation ≤ newest

theorem find_storageRepositories (rs : PostgresRepositoryStore) (repository : Repository)
    (storage : String) :
    rs.storageRepositories.find (repository, storage) =
      (rs.replica repository storage).map (StorageRow.mk repository.1 repository.2 storage) := by
  unfold replica
  cases found : rs.storageRepositories.find (repository, storage) with
  | none => rfl
  | some row =>
    obtain ⟨-, same⟩ := KeyedTable.find_eq_some.mp found
    cases same
    rfl

variable {repository : Repository}

section

variable {generation : Int} {storages : List String}
  (raises : Raises rs after repository storages generation)
include raises

/-- The replicas on the new generation are those that were raised: before, no replica was
newer than the record. -/
theorem Raises.replica_newest_iff (bounded : rs.Bounded) (storage : String) :
    after.replica repository storage = some (generation + 1) ↔
      rs.replica repository storage = some generation ∧ storage ∈ storages := by
  rw [raises.replica]
  split
  · rename_i raised
    exact iff_of_true rfl ⟨raised.2.2, raised.2.1⟩
  rename_i kept
  constructor
  · intro newer
    have old := bounded repository storage (generation + 1) generation newer raises.latest
    omega
  · intro raised
    exact absurd ⟨rfl, raised.2, raised.1⟩ kept

theorem Raises.find_unchanged {other : Repository} {storage : String}
    (unaffected : ¬ (other = repository ∧ rs.replica other storage = some generation ∧
      storage ∈ storages)) :
    after.storageRepositories.find (other, storage) =
      rs.storageRepositories.find (other, storage) := by
  rw [find_storageRepositories, find_storageRepositories, raises.replica, if_neg]
  intro raised
  exact unaffected ⟨raised.1, raised.2.2, raised.2.1⟩

end

/-- A call that records a generation does not take the record of any repository back. -/
theorem call_latest_le {call : RepositoryCall} (records : call.RecordsGeneration)
    {generation : Int} (latest : rs.latest repository = some generation) :
    ∃ later, generation ≤ later ∧ (rs.call call).latest repository = some later := by
  cases call with
  | incrementGeneration virtual path primary secondaries =>
    rcases rs.IncrementGeneration_cases virtual path primary secondaries with
      ⟨err, failed⟩ | ⟨after, current, raised, raises⟩
    · exact ⟨generation, le_refl _, by simpa only [call, failed]⟩
    simp only [call, raised, raises.latest_after]
    split
    · rename_i same
      rw [same, raises.latest] at latest
      cases latest
      exact ⟨generation + 1, by omega, rfl⟩
    · exact ⟨generation, le_refl _, latest⟩
  | setGeneration virtual path storage recorded =>
    simp only [call, SetGeneration_latest]
    split
    · rename_i raised
      rw [latest, getD_some] at raised
      exact ⟨recorded, raised.2.2.le, rfl⟩
    · exact ⟨generation, le_refl _, latest⟩
  | setAuthoritativeReplica virtual path storage =>
    rcases rs.SetAuthoritativeReplica_cases virtual path storage with
      ⟨err, failed⟩ | ⟨after, current, crowned, crowns⟩
    · exact ⟨generation, le_refl _, by simpa only [call, failed]⟩
    simp only [call, crowned, crowns.latest_after]
    split
    · rename_i same
      rw [same, crowns.latest] at latest
      cases latest
      exact ⟨generation + 1, by omega, rfl⟩
    · exact ⟨generation, le_refl _, latest⟩
  | _ => exact records.elim

theorem calls_latest_le {calls : List RepositoryCall}
    (records : ∀ call ∈ calls, call.RecordsGeneration) {generation : Int}
    (latest : rs.latest repository = some generation) :
    ∃ later, generation ≤ later ∧ (calls.foldl call rs).latest repository = some later := by
  induction calls generalizing rs generation with
  | nil => exact ⟨generation, le_refl _, latest⟩
  | cons first rest ih =>
    rw [forall_mem_cons] at records
    obtain ⟨middle, grown, recorded⟩ := call_latest_le records.1 latest
    obtain ⟨later, more, final⟩ := ih records.2 recorded
    exact ⟨later, grown.trans more, final⟩

/-- A write that is recorded raises the record by one, with the replicas on the latest
generation that took part in it, and changes no other row. A write that is not recorded
changes nothing. The calls that record generations never lower the one of a record. -/
theorem IncrementGeneration_records (bounded : rs.Bounded)
    (virtual path primary : String) (secondaries : List String) :
    let repository := (virtual, path)
    let result := rs.IncrementGeneration virtual path primary secondaries
    (result.2 = .ok () → ∃ generation, rs.latest repository = some generation ∧
        result.1.latest repository = some (generation + 1) ∧
        (∀ storage, result.1.replica repository storage = some (generation + 1) ↔
          rs.replica repository storage = some generation ∧
            (storage = primary ∨ storage ∈ secondaries)) ∧
        (∀ other storage, ¬ (other = repository ∧ rs.replica other storage = some generation ∧
            (storage = primary ∨ storage ∈ secondaries)) →
          result.1.storageRepositories.find (other, storage) =
            rs.storageRepositories.find (other, storage)) ∧
        result.1.record repository =
          (rs.record repository).map (RepositoryRow.setGeneration (some (generation + 1))) ∧
        (∀ other, other ≠ repository → result.1.record other = rs.record other) ∧
        result.1.assignments = rs.assignments) ∧
      (∀ err, result.2 = .error err → result.1 = rs) ∧
      ∀ earlier later : List RepositoryCall,
        (∀ call ∈ earlier ++ later, call.RecordsGeneration) →
        ∀ other generation, (earlier.foldl call rs).latest other = some generation →
          ∃ next, generation ≤ next ∧
            ((earlier ++ later).foldl call rs).latest other = some next := by
  refine ⟨?_, ?_, ?_⟩
  · intro succeeded
    rcases rs.IncrementGeneration_cases virtual path primary secondaries with
      ⟨err, failed⟩ | ⟨after, generation, raised, raises⟩
    · rw [failed] at succeeded
      cases succeeded
    have named : ∀ storage, storage ∈ secondaries ++ [primary] ↔
        storage = primary ∨ storage ∈ secondaries := by
      intro storage
      rw [mem_append, mem_singleton, or_comm]
    simp only [raised, ← named]
    refine ⟨generation, raises.latest, ?_, raises.replica_newest_iff bounded,
      fun _ _ => raises.find_unchanged, ?_, ?_, raises.assignments⟩
    · rw [raises.latest_after, if_pos rfl]
    · obtain ⟨record, found, current⟩ := latest_eq_some.mp raises.latest
      rw [raises.record, if_pos rfl, found, map_some, map_some,
        RepositoryRow.increment, current, map_some]
    · intro other different
      rw [raises.record, if_neg different]
  · intro err failed
    rcases rs.IncrementGeneration_cases virtual path primary secondaries with
      ⟨err, unchanged⟩ | ⟨after, generation, raised, -⟩
    · rw [unchanged]
    · rw [raised] at failed
      cases failed
  · intro earlier later records other generation latest
    rw [foldl_append]
    exact calls_latest_le (fun call member => records call (mem_append_right _ member)) latest

/-- A repository on three storages, one of which is outdated. -/
def lagging : PostgresRepositoryStore where
  repositories := ⟨[⟨1, "default", "@hashed/a.git", some 2, none⟩], by decide⟩
  storageRepositories := ⟨[⟨"default", "@hashed/a.git", "gitaly-1", 2⟩,
    ⟨"default", "@hashed/a.git", "gitaly-2", 1⟩, ⟨"default", "@hashed/a.git", "gitaly-3", 2⟩],
    by decide⟩
  assignments := .empty

theorem lagging_bounded : lagging.Bounded := by
  intro repository storage generation newest held latest
  obtain ⟨row, present, -, rfl⟩ := replica_eq_some.mp held
  obtain ⟨record, found, recorded⟩ := latest_eq_some.mp latest
  obtain ⟨isRecord, -⟩ := KeyedTable.find_eq_some.mp found
  have rows : ∀ row ∈ lagging.storageRepositories.rows, row.generation ≤ 2 := by decide
  have records : ∀ record ∈ lagging.repositories.rows, record.generation = some 2 := by decide
  have same := recorded.symm.trans (records record isRecord)
  cases same
  exact rows row present

/-- The outdated replica stays behind although it is named as a secondary. -/
theorem lagging_records :
    lagging.Bounded ∧
      (lagging.IncrementGeneration "default" "@hashed/a.git" "gitaly-1" ["gitaly-2"]).2 = .ok () ∧
      (∃ generation, lagging.latest ("default", "@hashed/a.git") = some generation ∧
        (lagging.IncrementGeneration "default" "@hashed/a.git" "gitaly-1" ["gitaly-2"]).1.latest
          ("default", "@hashed/a.git") = some (generation + 1)) := by
  have recorded : (lagging.IncrementGeneration "default" "@hashed/a.git" "gitaly-1"
      ["gitaly-2"]).2 = .ok () := by decide
  obtain ⟨generation, before, after, -⟩ :=
    (IncrementGeneration_records lagging_bounded "default" "@hashed/a.git" "gitaly-1"
      ["gitaly-2"]).1 recorded
  exact ⟨lagging_bounded, recorded, generation, before, after⟩

section bounds

variable {storage : String} {storages : List String} {generation : Int}

/-- A repository that comes to a path finds no replica there that is newer than its record. -/
def Clears (rs : PostgresRepositoryStore) : RepositoryCall → Prop
  | .createRepository repositoryID virtual path primary updatedSecondaries
      outdatedSecondaries storePrimary storeAssignments =>
        (rs.CreateRepository repositoryID virtual path primary updatedSecondaries
          outdatedSecondaries storePrimary storeAssignments).2 = .ok () →
        ∀ storage generation,
          rs.replica (virtual, path) storage = some generation → generation ≤ 0
  | .renameRepository virtual path storage newRelativePath =>
    (rs.RenameRepository virtual path storage newRelativePath).2 ≠
        .error .uniqueViolation →
      ∀ other generation newest, rs.renamed (virtual, path)
          (virtual, newRelativePath) storage other = some generation →
        (rs.latest (virtual, path)).or
          (rs.latest (virtual, newRelativePath)) = some newest →
        generation ≤ newest
  | _ => True

theorem Creates.bounded_iff {repositoryID : Int} {primary : Option String}
    (creates : Creates rs after repositoryID repository primary storages) (bounded : rs.Bounded) :
    after.Bounded ↔ ∀ storage generation, rs.replica repository storage = some generation →
      generation ≤ 0 := by
  have latest : ∀ other, after.latest other =
      if other = repository then some 0 else rs.latest other := by
    intro other
    unfold PostgresRepositoryStore.latest
    rw [creates.record]
    split <;> rfl
  unfold Bounded
  simp only [latest, creates.replica]
  constructor
  · intro bound storage generation held
    have free := creates.free storage
    have below := bound repository storage generation 0
    grind
  · intro left other storage generation newest held isLatest
    have old := bounded other storage generation newest
    have below := left storage generation
    grind

theorem Moves.bounded_iff {target : Repository}
    (moves : Moves rs after repository target storage) (numbered : rs.Numbered)
    (bounded : rs.Bounded) :
    after.Bounded ↔ ∀ other generation newest,
      rs.renamed repository target storage other = some generation →
      (rs.latest repository).or (rs.latest target) = some newest → generation ≤ newest := by
  -- The record of the old path is gone, whatever replicas are left there.
  have latest : ∀ other, after.latest other =
      if other = target then (rs.latest repository).or (rs.latest target)
      else if other = repository then none else rs.latest other := by
    intro other
    unfold PostgresRepositoryStore.latest
    rw [moves.record]
    cases found : rs.record repository with
    | none => grind
    | some row =>
      obtain ⟨newest, current⟩ := isSome_iff_exists.mp (numbered _ row found)
      split
      · simp [RepositoryRow.move, current]
      · grind
  unfold Bounded renamed
  simp only [latest, moves.replica]
  constructor
  · intro bound other generation newest
    have below := bound target other generation newest
    grind
  · intro bound other otherStorage generation newest
    have old := bounded other otherStorage generation newest
    have below := bound otherStorage generation newest
    grind

theorem Raises.bounded (raises : Raises rs after repository storages generation)
    (bounded : rs.Bounded) : after.Bounded := by
  intro other storage held newest
  rw [raises.latest_after, raises.replica]
  have old := bounded other storage held
  have current := raises.latest
  grind

/-- Only those that took part in a recorded write are consistent after it. -/
theorem Raises.consistent_iff (raises : Raises rs after repository storages generation)
    (bounded : rs.Bounded) (storage : String) :
    after.Consistent repository storage ↔
      rs.replica repository storage = some generation ∧ storage ∈ storages := by
  rw [← raises.replica_newest_iff bounded]
  have below : ∀ other held, after.replica repository other = some held →
      held ≤ generation + 1 := by
    intro other held isHeld
    refine (raises.bounded bounded) repository other held (generation + 1) isHeld ?_
    rw [raises.latest_after, if_pos rfl]
  constructor
  · intro consistent
    obtain ⟨-, held, isHeld, newest⟩ := consistent
    obtain ⟨first, named, current⟩ := raises.raised
    have least := newest first (generation + 1)
      ((raises.replica_newest_iff bounded first).mpr ⟨current, named⟩)
    rw [isHeld, le_antisymm (below storage held isHeld) least]
  · intro newest
    obtain ⟨record, found, -⟩ := latest_eq_some.mp raises.latest
    exact ⟨by rw [raises.record, if_pos rfl, found]; rfl, generation + 1, newest, below⟩

theorem Crowns.bounded (crowns : Crowns rs after repository storage generation)
    (bounded : rs.Bounded) : after.Bounded := by
  intro other otherStorage held newest
  rw [crowns.latest_after, crowns.replica]
  have old := bounded other otherStorage held
  have current := crowns.latest
  grind

theorem SetGeneration_bounded (numbered : rs.Numbered) (bounded : rs.Bounded)
    (virtual path storage : String) (generation : Int) :
    (rs.SetGeneration virtual path storage generation).Bounded := by
  intro other otherStorage held newest
  rw [SetGeneration_latest, SetGeneration_replica]
  have old := bounded other otherStorage held newest
  cases found : rs.record other with
  | none =>
    -- The new replica has no record that it could be ahead of.
    simp [PostgresRepositoryStore.latest, found]
  | some record =>
    obtain ⟨current, isCurrent⟩ := isSome_iff_exists.mp (numbered _ record found)
    have before : rs.latest other = some current :=
      latest_eq_some.mpr ⟨record, found, isCurrent⟩
    have bound := bounded other otherStorage held current
    grind

theorem deleteReplicas_bounded (bounded : rs.Bounded) (storages : List String) :
    (rs.deleteReplicas repository storages).Bounded := by
  intro other storage generation newest held isLatest
  rw [deleteReplicas_replica] at held
  exact bounded other storage generation newest (ite_none_left_eq_some.mp held).2 isLatest

theorem deleteRecord_bounded (bounded : rs.Bounded) : (rs.deleteRecord repository).Bounded := by
  intro other storage generation newest held isLatest
  unfold PostgresRepositoryStore.latest at isLatest
  rw [deleteRecord_record] at isLatest
  split at isLatest
  · cases isLatest
  · exact bounded other storage generation newest held isLatest

theorem call_bounded_iff (numbered : rs.Numbered) (bounded : rs.Bounded) (call : RepositoryCall) :
    (rs.call call).Bounded ↔ rs.Clears call := by
  cases call with
  | createRepository repositoryID virtual path primary updated outdated sp sa =>
    rcases rs.CreateRepository_cases repositoryID virtual path primary updated
      outdated sp sa with ⟨err, failed⟩ | ⟨after, created, creates⟩
    · simp [call, Clears, failed, bounded]
    · simp only [call, Clears, created, forall_const]
      exact creates.bounded_iff bounded
  | incrementGeneration virtual path primary secondaries =>
    refine iff_of_true ?_ trivial
    rcases rs.IncrementGeneration_cases virtual path primary secondaries with
      ⟨err, failed⟩ | ⟨after, generation, raised, raises⟩
    · simpa only [call, failed] using bounded
    · simpa only [call, raised] using raises.bounded bounded
  | setGeneration virtual path storage generation =>
    exact iff_of_true (SetGeneration_bounded numbered bounded _ _ _ _) trivial
  | setAuthoritativeReplica virtual path storage =>
    refine iff_of_true ?_ trivial
    rcases rs.SetAuthoritativeReplica_cases virtual path storage with
      ⟨err, failed⟩ | ⟨after, generation, crowned, crowns⟩
    · simpa only [call, failed] using bounded
    · simpa only [call, crowned] using crowns.bounded bounded
  | deleteRepository virtual path storages =>
    exact iff_of_true (deleteReplicas_bounded (deleteRecord_bounded bounded) storages) trivial
  | deleteReplica virtual path storage =>
    exact iff_of_true (deleteReplicas_bounded bounded [storage]) trivial
  | deleteInvalidRepository virtual path storage =>
    refine iff_of_true ?_ trivial
    have remaining : (rs.deleteReplicas (virtual, path) [storage]).Bounded :=
      deleteReplicas_bounded bounded [storage]
    unfold call DeleteInvalidRepository
    dsimp only
    split
    · exact remaining
    · exact deleteRecord_bounded remaining
  | renameRepository virtual path storage newRelativePath =>
    rcases rs.RenameRepository_cases virtual path storage newRelativePath with
      failed | ⟨admitted, moves⟩
    · simp [call, Clears, failed, bounded]
    · simp only [call, Clears, admitted, ne_eq, not_false_eq_true, forall_const]
      exact moves.bounded_iff numbered bounded

/-- Along any sequence of calls no replica gets ahead of the record of its repository, if and
only if no repository is created at, or renamed to, a path where a newer replica is left. -/
theorem bounded_iff_clears (calls : List RepositoryCall) :
    Runs.Throughout step Bounded empty calls ↔ Runs.Along step Clears empty calls := by
  have total : ∀ rs call, ∃ next, step rs call = some next := fun rs call => ⟨rs.call call, rfl⟩
  obtain ⟨final, run⟩ := Runs.exec_of_total total empty calls
  have numbered : empty.Numbered := by
    intro repository record found
    cases found
  have bounded : empty.Bounded := by
    intro repository storage generation newest held
    cases held
  refine Runs.throughout_iff_along run ?_ ?_ numbered bounded
  · intro rs call after before taken
    cases taken
    exact call_numbered before call
  · intro rs call after before holds taken
    cases taken
    exact call_bounded_iff before holds call

end bounds

end PostgresRepositoryStore

end Gitaly.Datastore
