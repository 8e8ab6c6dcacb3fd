import Gitaly.Base.Sql
import Gitaly.Praefect.Elector
import Mathlib.Data.Finset.Card

/- `SetReplicationFactor` of internal/praefect/datastore/assignment.go: hosts are assigned or
unassigned, in random order, until the replication factor is met. -/
namespace Gitaly.Praefect

open Datastore AssignmentRow KeyedTable Finset
open Reconciler (assigned)

inductive ReplicationFactorError where
  /-- virtual storage %q not found -/
  | virtualStorageNotFound (virtualStorage : String)
  /-- attempted to set replication factor %d but minimum is 1 -/
  | minimumReplicationFactor (replicationFactor : Int)
  /-- attempted to set replication factor %d but virtual storage only contains %d storages -/
  | unattainableReplicationFactor (attempted : Int) (maximum : Nat)
  /-- repository %q/%q not found -/
  | repositoryNotFound (virtualStorage relativePath : String)
  /-- query: duplicate key value violates unique constraint -/
  | uniqueViolation
  deriving DecidableEq

/-- What the database decides on: the two random orders and how text is sorted. -/
structure AssignmentChoices where
  created : Sql.Scan String
  removed : Sql.Scan String
  collation : String → String → Bool

section statement

variable (primary : Option String) (existing : List String) (replicationFactor : Int)

/-- `existing_assignments`: there may be assignments to storages that are not configured any
more. -/
def existingAssignments (rs : PostgresRepositoryStore) (repository : Repository)
    (candidateStorages : List String) : List String :=
  (assigned rs repository).filter (fun storage => storage ∈ candidateStorages)

def unassignedStorages (candidateStorages : List String) : List String :=
  candidateStorages.filter (fun storage =>
    (Sql.notIn (some storage) (existing.map some)).holds)

variable (random : Sql.Scan String)

/-- `ORDER BY CASE WHEN storage = "primary" THEN 1 ELSE 0 END DESC, random()` -/
def primaryFirst (storages : List String) : List String :=
  let isPrimary := fun storage => (Sql.eq (some storage) primary).holds
  (random.order storages).filter isPrimary ++
    (random.order storages).filter (fun storage => !isPrimary storage)

/-- `created_assignments` -/
def createdAssignments (candidateStorages : List String) : List String :=
  (primaryFirst primary random (unassignedStorages existing candidateStorages)).take
    (max (existing.length : Int) replicationFactor - existing.length).toNat

/-- The assignments that may be removed: none if the primary is NULL. -/
def removableAssignments : List String :=
  existing.filter (fun storage => (Sql.ne (some storage) primary).holds)

/-- `removed_assignments` -/
def removedAssignments : List String :=
  (random.order (removableAssignments primary existing)).take
    (existing.length - min (existing.length : Int) replicationFactor).toNat

end statement

def SetReplicationFactor (rs : PostgresRepositoryStore)
    (configuredStorages : String → Option (List String)) (choices : AssignmentChoices)
    (virtualStorage relativePath : String) (replicationFactor : Int) :
    PostgresRepositoryStore × Except ReplicationFactorError (List String) :=
  match configuredStorages virtualStorage with
  | none => (rs, .error (.virtualStorageNotFound virtualStorage))
  | some candidateStorages =>
    if replicationFactor < 1 then (rs, .error (.minimumReplicationFactor replicationFactor))
    else if candidateStorages.length < replicationFactor then
      (rs, .error (.unattainableReplicationFactor replicationFactor candidateStorages.length))
    else
      let repository := (virtualStorage, relativePath)
      match rs.record repository with
      -- every part of the statement starts from the record of the repository
      | none => (rs, .error (.repositoryNotFound virtualStorage relativePath))
      | some record =>
        let existing := existingAssignments rs repository candidateStorages
        let created := createdAssignments record.primary existing replicationFactor
          choices.created candidateStorages
        let removed := removedAssignments record.primary existing replicationFactor
          choices.removed
        match rs.assignments.insertAll
            (created.map (mk virtualStorage relativePath)) with
        | none => (rs, .error .uniqueViolation)
        | some assignments =>
          let storages := ((existing.filter (fun storage =>
            (Sql.notIn (some storage) (removed.map some)).holds) ++
              created).dedup).insertionSort (fun left right => choices.collation left right)
          ({ rs with assignments := assignments.delete (fun row =>
              row.repository = repository ∧ row.storage ∈ removed) },
            if storages.length = 0 then
              .error (.repositoryNotFound virtualStorage relativePath)
            else .ok storages)

section statement

variable {primary : Option String} {existing candidateStorages : List String}
  {replicationFactor : Int} {random : Sql.Scan String}

variable {storage : String} {rs : PostgresRepositoryStore} {repository : Repository}

theorem mem_assigned :
    storage ∈ assigned rs repository ↔ ∃ row ∈ rs.assignments, row.key = (repository, storage) := by
  simp only [assigned, List.mem_map, List.mem_filter, decide_eq_true_eq, and_assoc,
    key, Prod.mk.injEq]
  exact Iff.rfl

theorem assigned_nodup (rs : PostgresRepositoryStore) (repository : Repository) :
    (assigned rs repository).Nodup := by
  have keys := rs.assignments.unique.sublist
    ((List.filter_sublist (p := fun row => decide (row.repository = repository))).map key)
  refine List.Nodup.of_map (Prod.mk repository) ?_
  have same : (assigned rs repository).map (Prod.mk repository) =
      (rs.assignments.rows.filter (fun row => row.repository = repository)).map
        key := by
    rw [assigned, List.map_map]
    apply List.map_congr_left
    intro row member
    exact Prod.ext (of_decide_eq_true (List.mem_filter.mp member).2).symm rfl
  rw [same]
  exact keys

theorem mem_existingAssignments :
    storage ∈ existingAssignments rs repository candidateStorages ↔
      storage ∈ assigned rs repository ∧ storage ∈ candidateStorages := by
  rw [existingAssignments, List.mem_filter, decide_eq_true_iff]

theorem existingAssignments_nodup (rs : PostgresRepositoryStore) (repository : Repository)
    (candidateStorages : List String) :
    (existingAssignments rs repository candidateStorages).Nodup :=
  (assigned_nodup rs repository).sublist List.filter_sublist

theorem mem_unassignedStorages :
    storage ∈ unassignedStorages existing candidateStorages ↔
      storage ∈ candidateStorages ∧ storage ∉ existing := by
  rw [unassignedStorages, List.mem_filter, Sql.notIn_some, Sql.Truth.holds_some, decide_eq_true_iff]

theorem primaryFirst_perm (storages : List String) :
    (primaryFirst primary random storages).Perm storages :=
  (List.filter_append_perm _ _).trans (random.perm storages)

theorem primary_mem_take_primaryFirst {storages : List String} {limit : Nat}
    (member : storage ∈ storages) (some_room : 0 < limit) :
    storage ∈ (primaryFirst (some storage) random storages).take limit := by
  have isPrimary : storage ∈ (random.order storages).filter (fun other =>
      (Sql.eq (some other) (some storage)).holds) :=
    List.mem_filter.mpr ⟨(random.perm storages).mem_iff.mpr member, by simp⟩
  obtain ⟨first, rest, found⟩ := List.exists_cons_of_ne_nil (List.ne_nil_of_mem isPrimary)
  have named : first = storage := by
    have chosen := (List.mem_filter.mp (found ▸ List.mem_cons_self)).2
    simpa using chosen
  obtain ⟨more, rfl⟩ := Nat.exists_eq_add_of_lt some_room
  rw [primaryFirst, found, named, Nat.zero_add]
  exact List.mem_cons_self

theorem mem_createdAssignments
    (member : storage ∈ createdAssignments primary existing replicationFactor random
      candidateStorages) :
    storage ∈ candidateStorages ∧ storage ∉ existing ∧
      (existing.length : Int) < replicationFactor := by
  have shuffled := List.mem_of_mem_take member
  obtain ⟨configured, fresh⟩ :=
    mem_unassignedStorages.mp ((primaryFirst_perm _).mem_iff.mp shuffled)
  refine ⟨configured, fresh, ?_⟩
  have some_room : 0 < (createdAssignments primary existing replicationFactor random
      candidateStorages).length := List.length_pos_of_mem member
  rw [createdAssignments, List.length_take] at some_room
  omega

theorem mem_removedAssignments
    (member : storage ∈ removedAssignments primary existing replicationFactor random) :
    storage ∈ existing ∧ primary ≠ some storage ∧ replicationFactor < existing.length := by
  have shuffled := List.mem_of_mem_take member
  obtain ⟨present, other⟩ := List.mem_filter.mp ((random.perm _).mem_iff.mp shuffled)
  refine ⟨present, ?_, ?_⟩
  · intro isPrimary
    rw [isPrimary] at other
    simp at other
  · have some_room : 0 < (removedAssignments primary existing replicationFactor random).length :=
      List.length_pos_of_mem member
    rw [removedAssignments, List.length_take] at some_room
    omega

theorem removedAssignments_null :
    removedAssignments none existing replicationFactor random = [] := by
  have none_removable : removableAssignments none existing = [] := by simp [removableAssignments]
  rw [removedAssignments, none_removable, (random.perm []).eq_nil, List.take_nil]

theorem length_removedAssignments (distinct : existing.Nodup) (positive : 1 ≤ replicationFactor) :
    ((removedAssignments (some storage) existing replicationFactor random).length : Int) =
      existing.length - min (existing.length : Int) replicationFactor := by
  have removable : removableAssignments (some storage) existing = existing.erase storage := by
    rw [distinct.erase_eq_filter]
    apply List.filter_congr
    intro other _
    simp [bne, beq_eq_decide]
  have enough : existing.length ≤ (existing.erase storage).length + 1 := by
    rw [List.length_erase]
    split <;> omega
  rw [removedAssignments, removable, List.length_take, (random.perm _).length_eq]
  omega

theorem length_createdAssignments
    (attainable : replicationFactor ≤ candidateStorages.dedup.length) :
    ((createdAssignments primary existing replicationFactor random
        candidateStorages).length : Int) =
      max (existing.length : Int) replicationFactor - existing.length := by
  have covered : candidateStorages.toFinset ⊆
      existing.toFinset ∪ (unassignedStorages existing candidateStorages).toFinset := by
    intro storage configured
    rw [List.mem_toFinset] at configured
    rw [mem_union, List.mem_toFinset, List.mem_toFinset, mem_unassignedStorages]
    by_cases present : storage ∈ existing
    · exact .inl present
    · exact .inr ⟨configured, present⟩
  have bound : candidateStorages.dedup.length ≤
      existing.length + (unassignedStorages existing candidateStorages).length := calc
    candidateStorages.dedup.length = candidateStorages.toFinset.card := (List.card_toFinset _).symm
    _ ≤ existing.toFinset.card + (unassignedStorages existing candidateStorages).toFinset.card :=
      (card_le_card covered).trans (card_union_le _ _)
    _ ≤ _ := Nat.add_le_add (List.toFinset_card_le _) (List.toFinset_card_le _)
  rw [createdAssignments, List.length_take, (primaryFirst_perm _).length_eq]
  omega

theorem length_replaced {before removed created after : List String} (distinct : before.Nodup)
    (removedDistinct : removed.Nodup) (createdDistinct : created.Nodup)
    (afterDistinct : after.Nodup) (present : ∀ storage ∈ removed, storage ∈ before)
    (fresh : ∀ storage ∈ created, storage ∉ before)
    (replaced : ∀ storage, storage ∈ after ↔
      storage ∈ before ∧ storage ∉ removed ∨ storage ∈ created) :
    (after.length : Int) = before.length - removed.length + created.length := by
  have union : after.toFinset = (before.toFinset \ removed.toFinset) ∪ created.toFinset := by
    ext storage
    simp [replaced storage]
  have apart : Disjoint (before.toFinset \ removed.toFinset) created.toFinset := by
    rw [disjoint_left]
    intro storage kept new
    rw [mem_sdiff, List.mem_toFinset] at kept
    exact fresh storage (List.mem_toFinset.mp new) kept.1
  have within : removed.toFinset ⊆ before.toFinset := by
    intro storage member
    exact List.mem_toFinset.mpr (present storage (List.mem_toFinset.mp member))
  have cards := congrArg Finset.card union
  rw [card_union_of_disjoint apart, card_sdiff_of_subset within,
    List.toFinset_card_of_nodup afterDistinct, List.toFinset_card_of_nodup distinct,
    List.toFinset_card_of_nodup removedDistinct,
    List.toFinset_card_of_nodup createdDistinct] at cards
  have fewer := card_le_card within
  rw [List.toFinset_card_of_nodup distinct, List.toFinset_card_of_nodup removedDistinct] at fewer
  omega

end statement

section factor

variable {rs after : PostgresRepositoryStore}
  {configuredStorages : String → Option (List String)} {choices : AssignmentChoices}
  {virtualStorage relativePath : String} {replicationFactor : Int} {storages : List String}

/-- What a statement that succeeds has done to the assignments of a repository. -/
structure Reassigns (rs after : PostgresRepositoryStore) (repository : Repository)
    (existing removed created storages : List String) : Prop where
  distinct : created.Nodup
  reassigned : ∀ storage, storage ∈ assigned after repository ↔
    storage ∈ assigned rs repository ∧ storage ∉ removed ∨ storage ∈ created
  elsewhere : ∀ other, other ≠ repository → ∀ storage,
    storage ∈ assigned after other ↔ storage ∈ assigned rs other
  returned : ∀ storage, storage ∈ storages ↔
    storage ∈ existing ∧ storage ∉ removed ∨ storage ∈ created
  returnedOnce : storages.Nodup

/-- What a statement does that finds a record with the given primary. -/
abbrev ReassignsWith (rs after : PostgresRepositoryStore) (repository : Repository)
    (candidateStorages : List String) (primary : Option String) (replicationFactor : Int)
    (createdOrder removedOrder : Sql.Scan String) (storages : List String) : Prop :=
  let existing := existingAssignments rs repository candidateStorages
  Reassigns rs after repository existing
    (removedAssignments primary existing replicationFactor removedOrder)
    (createdAssignments primary existing replicationFactor createdOrder candidateStorages) storages

theorem mem_assigned_replaced {assignments : KeyedTable AssignmentRow _ key}
    {created removed : List String}
    (inserted : rs.assignments.insertAll
      (created.map (mk virtualStorage relativePath)) = some assignments)
    (kept : ∀ storage ∈ created, storage ∉ removed) (other : Repository) (storage : String) :
    storage ∈ assigned { rs with assignments := assignments.delete (fun row =>
        row.repository = (virtualStorage, relativePath) ∧ row.storage ∈ removed) } other ↔
      if other = (virtualStorage, relativePath) then
        storage ∈ assigned rs other ∧ storage ∉ removed ∨ storage ∈ created
      else storage ∈ assigned rs other := by
  have rows : ∀ row, row ∈ assignments.delete (fun row =>
        row.repository = (virtualStorage, relativePath) ∧ row.storage ∈ removed) ↔
      (row ∈ rs.assignments ∨ ∃ new ∈ created, ⟨virtualStorage, relativePath, new⟩ = row) ∧
        ¬ (row.repository = (virtualStorage, relativePath) ∧ row.storage ∈ removed) := by
    intro row
    rw [mem_delete, mem_insertAll inserted, List.mem_map, decide_eq_false_iff_not]
  simp only [mem_assigned, rows]
  split
  · rename_i same
    subst same
    constructor
    · intro found
      obtain ⟨row, ⟨old | ⟨new, created, rfl⟩, spared⟩, isRow⟩ := found
      · cases isRow
        exact .inl ⟨⟨row, old, rfl⟩, fun doomed => spared ⟨rfl, doomed⟩⟩
      · cases isRow
        exact .inr created
    · intro found
      rcases found with ⟨⟨row, old, isRow⟩, spared⟩ | new
      · cases isRow
        exact ⟨row, ⟨.inl old, fun doomed => spared doomed.2⟩, rfl⟩
      · exact ⟨_, ⟨.inr ⟨storage, new, rfl⟩, fun doomed => kept storage new doomed.2⟩, rfl⟩
  · rename_i different
    constructor
    · intro found
      obtain ⟨row, ⟨old | ⟨new, -, rfl⟩, -⟩, isRow⟩ := found
      · exact ⟨row, old, isRow⟩
      · cases isRow
        exact absurd rfl different
    · intro found
      obtain ⟨row, old, isRow⟩ := found
      cases isRow
      exact ⟨row, ⟨.inl old, fun doomed => different doomed.1⟩, rfl⟩

theorem SetReplicationFactor_ok
    (succeeded : SetReplicationFactor rs configuredStorages choices virtualStorage relativePath
      replicationFactor = (after, .ok storages)) :
    ∃ candidateStorages record, configuredStorages virtualStorage = some candidateStorages ∧
      rs.record (virtualStorage, relativePath) = some record ∧ 1 ≤ replicationFactor ∧
      ReassignsWith rs after (virtualStorage, relativePath) candidateStorages record.primary
        replicationFactor choices.created choices.removed storages := by
  unfold SetReplicationFactor at succeeded
  split at succeeded
  · cases succeeded
  rename_i candidateStorages configured
  split at succeeded
  · cases succeeded
  split at succeeded
  · cases succeeded
  dsimp only at succeeded
  split at succeeded
  · cases succeeded
  rename_i record recorded
  split at succeeded
  · cases succeeded
  rename_i assignments inserted
  split at succeeded
  · cases succeeded
  cases succeeded
  have kept : ∀ storage ∈ createdAssignments record.primary (existingAssignments rs
      (virtualStorage, relativePath) candidateStorages) replicationFactor choices.created
        candidateStorages,
      storage ∉ removedAssignments record.primary (existingAssignments rs
        (virtualStorage, relativePath) candidateStorages) replicationFactor choices.removed := by
    intro storage new old
    exact (mem_createdAssignments new).2.1 (mem_removedAssignments old).1
  refine ⟨candidateStorages, record, configured, recorded, by omega, ?_, ?_, ?_, ?_, ?_⟩
  · have unique := assignments.unique
    rw [insertAll_rows inserted, List.map_append, List.map_map] at unique
    exact unique.of_append_right.of_map
  · intro storage
    rw [mem_assigned_replaced inserted kept, if_pos rfl]
  · intro other different storage
    rw [mem_assigned_replaced inserted kept, if_neg different]
  · intro storage
    simp [List.mem_insertionSort]
  · exact (List.perm_insertionSort _ _).nodup_iff.mpr (List.nodup_dedup _)

/-- The replication factor is met, on the configured storages: with the primary, with the
assignments from before or with some of them, and as returned. -/
structure MeetsFactor (rs after : PostgresRepositoryStore) (repository : Repository)
    (candidateStorages : List String) (replicationFactor : Int) (storages : List String) :
    Prop where
  count : ((existingAssignments after repository candidateStorages).length : Int) =
    replicationFactor
  primary : ∀ record storage, rs.record repository = some record →
    record.primary = some storage → storage ∈ assigned after repository
  grown : (existingAssignments rs repository candidateStorages).length ≤ replicationFactor →
    ∀ storage ∈ existingAssignments rs repository candidateStorages,
      storage ∈ existingAssignments after repository candidateStorages
  shrunk : replicationFactor ≤ (existingAssignments rs repository candidateStorages).length →
    ∀ storage ∈ existingAssignments after repository candidateStorages,
      storage ∈ existingAssignments rs repository candidateStorages
  returned : storages.Perm (existingAssignments after repository candidateStorages)

section reassigned

variable {repository : Repository} {candidateStorages : List String} {primary : Option String}
  {createdOrder removedOrder : Sql.Scan String}

variable (reassigns : ReassignsWith rs after repository candidateStorages primary replicationFactor
  createdOrder removedOrder storages)

include reassigns

theorem mem_existingAssignments_after (storage : String) :
    storage ∈ existingAssignments after repository candidateStorages ↔
      let existing := existingAssignments rs repository candidateStorages
      storage ∈ existing ∧
          storage ∉ removedAssignments primary existing replicationFactor removedOrder ∨
        storage ∈ createdAssignments primary existing replicationFactor createdOrder
          candidateStorages := by
  dsimp only
  rw [mem_existingAssignments, reassigns.reassigned, mem_existingAssignments]
  constructor
  · intro found
    obtain ⟨⟨old, kept⟩ | new, configured⟩ := found
    · exact .inl ⟨⟨old, configured⟩, kept⟩
    · exact .inr new
  · intro found
    rcases found with ⟨⟨old, configured⟩, kept⟩ | new
    · exact ⟨.inl ⟨old, kept⟩, configured⟩
    · exact ⟨.inr new, (mem_createdAssignments new).1⟩

theorem length_existingAssignments_after :
    let existing := existingAssignments rs repository candidateStorages
    ((existingAssignments after repository candidateStorages).length : Int) =
      existing.length -
        (removedAssignments primary existing replicationFactor removedOrder).length +
        (createdAssignments primary existing replicationFactor createdOrder
          candidateStorages).length := by
  have distinct := existingAssignments_nodup rs repository candidateStorages
  refine length_replaced distinct ?_ reassigns.distinct (existingAssignments_nodup after _ _)
    (fun storage member => (mem_removedAssignments member).1)
    (fun storage member => (mem_createdAssignments member).2.1)
    (mem_existingAssignments_after reassigns)
  exact ((removedOrder.perm _).nodup_iff.mpr (distinct.sublist List.filter_sublist)).sublist
    (List.take_sublist _ _)

/-- Only the number of assignments and the one of the primary can go wrong. -/
theorem meetsFactor_iff {record : RepositoryRow} (recorded : rs.record repository = some record)
    (isPrimary : record.primary = primary) :
    MeetsFactor rs after repository candidateStorages replicationFactor storages ↔
      ((existingAssignments after repository candidateStorages).length : Int) = replicationFactor ∧
        ∀ storage, primary = some storage → storage ∈ assigned after repository := by
  have members := mem_existingAssignments_after reassigns
  constructor
  · intro meets
    exact ⟨meets.count, fun storage named =>
      meets.primary record storage recorded (isPrimary.trans named)⟩
  · intro met
    refine ⟨met.1, ?_, ?_, ?_, ?_⟩
    · intro other storage found named
      cases recorded.symm.trans found
      exact met.2 storage (isPrimary.symm.trans named)
    · intro few storage old
      refine (members storage).mpr (.inl ⟨old, fun removed => ?_⟩)
      have many := (mem_removedAssignments removed).2.2
      omega
    · intro many storage current
      rcases (members storage).mp current with ⟨old, -⟩ | new
      · exact old
      · have few := (mem_createdAssignments new).2.2
        omega
    · rw [List.perm_ext_iff_of_nodup reassigns.returnedOnce (existingAssignments_nodup after _ _)]
      intro storage
      rw [members, reassigns.returned]

end reassigned

/-- What the statement needs to find: with no primary, not too many assignments; with one, the
primary among the assigned, or a place for it. -/
def Meetable (rs : PostgresRepositoryStore) (repository : Repository)
    (candidateStorages : List String) (replicationFactor : Int) : Prop :=
  let existing := existingAssignments rs repository candidateStorages
  match (rs.record repository).bind RepositoryRow.primary with
  | none => existing.length ≤ replicationFactor
  | some primary => primary ∈ assigned rs repository ∨
      primary ∈ candidateStorages ∧ existing.length < replicationFactor

/-- A change of the replication factor that succeeds meets it if and only if the statement
found what it needs. -/
theorem SetReplicationFactor_meets_iff {candidateStorages : List String}
    (configured : configuredStorages virtualStorage = some candidateStorages)
    (attainable : replicationFactor ≤ candidateStorages.dedup.length)
    (succeeded : SetReplicationFactor rs configuredStorages choices virtualStorage relativePath
      replicationFactor = (after, .ok storages)) :
    MeetsFactor rs after (virtualStorage, relativePath) candidateStorages replicationFactor
        storages ↔
      Meetable rs (virtualStorage, relativePath) candidateStorages replicationFactor := by
  obtain ⟨_, record, isConfigured, recorded, positive, reassigns⟩ :=
    SetReplicationFactor_ok succeeded
  cases configured.symm.trans isConfigured
  have distinct := existingAssignments_nodup rs (virtualStorage, relativePath) candidateStorages
  have count := length_existingAssignments_after reassigns
  rw [meetsFactor_iff reassigns recorded rfl, count, length_createdAssignments attainable]
  simp only [Meetable, recorded, Option.bind_some]
  cases isPrimary : record.primary with
  | none =>
    rw [removedAssignments_null]
    simp only [List.length_nil, reduceCtorEq, false_implies, implies_true, and_true]
    omega
  | some primary =>
    rw [length_removedAssignments distinct positive]
    simp only [Option.some.injEq, forall_eq']
    rw [reassigns.reassigned, isPrimary]
    constructor
    · intro met
      rcases met.2 with old | new
      · exact .inl old.1
      · obtain ⟨isCandidate, -, few⟩ := mem_createdAssignments new
        exact .inr ⟨isCandidate, few⟩
    · intro meetable
      refine ⟨by omega, ?_⟩
      by_cases old : primary ∈ assigned rs (virtualStorage, relativePath)
      · exact .inl ⟨old, fun removed => (mem_removedAssignments removed).2.1 rfl⟩
      obtain ⟨isCandidate, few⟩ := meetable.resolve_left old
      refine .inr (primary_mem_take_primaryFirst (mem_unassignedStorages.mpr
        ⟨isCandidate, fun present => old (mem_existingAssignments.mp present).1⟩) (by omega))

end factor

section hosts

/-- Two storages, which are tried in the order of the configuration. -/
def twoStorages : String → Option (List String) := fun _ => some ["gitaly-1", "gitaly-2"]

def inOrder : AssignmentChoices := ⟨.forward, .forward, fun left right => left ≤ right⟩

/-- A repository with assignments, of which nothing else matters. -/
def hosted (primary : Option String) (storages : List String) (distinct : storages.Nodup) :
    PostgresRepositoryStore where
  repositories := ⟨[⟨1, "default", "@hashed/a.git", some 0, primary⟩], by simp⟩
  storageRepositories := .empty
  assignments := ⟨storages.map (mk "default" "@hashed/a.git"), by
    rw [List.map_map]
    exact distinct.map (fun _ _ same => congrArg Prod.snd same)⟩

/-- A repository that was never elected a primary keeps both of its hosts. A primary that is not
assigned stays so when the factor is met without it. -/
theorem SetReplicationFactor_unmet :
    (SetReplicationFactor (hosted none ["gitaly-1", "gitaly-2"] (by decide)) twoStorages inOrder
        "default" "@hashed/a.git" 1).2 = .ok ["gitaly-1", "gitaly-2"] ∧
      (SetReplicationFactor (hosted (some "gitaly-1") ["gitaly-2"] (by decide)) twoStorages inOrder
        "default" "@hashed/a.git" 1).2 = .ok ["gitaly-2"] := by
  decide

/-- The second host of a repository is unassigned, not its primary. -/
theorem SetReplicationFactor_met :
    MeetsFactor (hosted (some "gitaly-2") ["gitaly-1", "gitaly-2"] (by decide))
      (SetReplicationFactor (hosted (some "gitaly-2") ["gitaly-1", "gitaly-2"] (by decide))
        twoStorages inOrder "default" "@hashed/a.git" 1).1
      ("default", "@hashed/a.git") ["gitaly-1", "gitaly-2"] 1 ["gitaly-2"] := by
  have succeeded : SetReplicationFactor
      (hosted (some "gitaly-2") ["gitaly-1", "gitaly-2"] (by decide)) twoStorages inOrder "default"
        "@hashed/a.git" 1 = (_, .ok ["gitaly-2"]) := Prod.ext rfl (by decide)
  refine (SetReplicationFactor_meets_iff rfl (by decide) succeeded).mpr ?_
  exact .inl (by decide)

end hosts

end Gitaly.Praefect
