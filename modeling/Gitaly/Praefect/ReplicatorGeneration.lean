import Gitaly.Praefect.Replicator
import Mathlib.Data.List.Perm.Basic

/- The generations of a repository while it is replicated, written, removed and created anew,
and when the last statement of `Replicate` leaves the latest one alone. -/
namespace Gitaly.Praefect.Replication

open Datastore PostgresRepositoryStore Replicate List Runs

/-- The storage that a replication writes to and the generation that it has read. -/
def Replicate.pending (replicate : Replicate) : String × Int :=
  (replicate.target, replicate.generation)

/-- No replica is ahead of the record, and a replication in flight is behind the record and
ahead of its target. -/
structure Ordered (repository : Repository) (rs : PostgresRepositoryStore)
    (pending : List (String × Int)) : Prop where
  numbered : rs.latest repository = none → rs.record repository = none
  counted : ∀ latest, rs.latest repository = some latest → 0 ≤ latest
  nonneg : ∀ storage current, rs.replica repository storage = some current → 0 ≤ current
  read : ∀ job ∈ pending, job.2 = generationUnknown ∨ 0 ≤ job.2
  targets : (pending.map Prod.fst).Nodup
  current : ∀ latest, rs.latest repository = some latest →
    ∀ storage current, rs.replica repository storage = some current → current ≤ latest
  behind : ∀ latest, rs.latest repository = some latest → ∀ job ∈ pending, job.2 ≤ latest
  ahead : (rs.latest repository).isSome → ∀ job ∈ pending, job.2 ≠ generationUnknown →
    ∀ current, rs.replica repository job.1 = some current → current < job.2

namespace Ordered

variable {virtual relativePath : String} {repository : Repository}
  {rs after : PostgresRepositoryStore} {pending : List (String × Int)}

theorem empty (repository : Repository) : Ordered repository .empty [] where
  numbered := fun _ => rfl
  counted := fun _ held => by cases held
  nonneg := fun _ _ held => by cases held
  read := fun _ absent => absurd absent not_mem_nil
  targets := nodup_nil
  current := fun _ held => by cases held
  behind := fun _ held => by cases held
  ahead := fun held => by cases held

section

variable (ordered : Ordered repository rs pending)
include ordered

theorem sublist {fewer : List (String × Int)} (sub : fewer.Sublist pending) :
    Ordered repository rs fewer where
  numbered := ordered.numbered
  counted := ordered.counted
  nonneg := ordered.nonneg
  read := fun job member => ordered.read job (sub.subset member)
  targets := ordered.targets.sublist (sub.map Prod.fst)
  current := ordered.current
  behind := fun latest held job member => ordered.behind latest held job (sub.subset member)
  ahead := fun held job member => ordered.ahead held job (sub.subset member)

theorem shrink
    (record : after.record repository = rs.record repository ∨ after.record repository = none)
    (replica : ∀ storage current, after.replica repository storage = some current →
      rs.replica repository storage = some current) : Ordered repository after pending := by
  have latest : ∀ latest, after.latest repository = some latest →
      rs.latest repository = some latest := by
    intro latest held
    obtain ⟨found, present, generation⟩ := latest_eq_some.mp held
    rcases record with same | gone
    · exact latest_eq_some.mpr ⟨found, same ▸ present, generation⟩
    · rw [gone] at present
      cases present
  refine ⟨?_, fun top held => ordered.counted top (latest top held), ?_, ordered.read,
    ordered.targets, ?_, ?_, ?_⟩
  · intro unknown
    rcases record with same | gone
    · unfold PostgresRepositoryStore.latest at unknown
      rw [same] at unknown ⊢
      exact ordered.numbered unknown
    · exact gone
  · exact fun storage current held => ordered.nonneg storage current (replica _ _ held)
  · exact fun top held storage current kept =>
      ordered.current top (latest top held) storage current (replica _ _ kept)
  · exact fun top held => ordered.behind top (latest top held)
  · intro held job member known current kept
    obtain ⟨top, same⟩ := Option.isSome_iff_exists.mp held
    have present : (rs.latest repository).isSome := by rw [latest top same]; rfl
    exact ordered.ahead present job member known current (replica _ _ kept)

theorem create {repositoryID : Int} {primary : Option String} {storages : List String}
    (creates : Creates rs after repositoryID repository primary storages)
    (unknown : ∀ job ∈ pending, job.2 = generationUnknown)
    (leftover : ∀ storage current, rs.replica repository storage = some current → current ≤ 0) :
    Ordered repository after pending := by
  have latest : after.latest repository = some 0 := by
    unfold PostgresRepositoryStore.latest
    rw [creates.record, if_pos rfl]
    rfl
  have replica : ∀ storage current, after.replica repository storage = some current →
      0 ≤ current ∧ current ≤ 0 := by
    intro storage current held
    rw [creates.replica] at held
    split at held
    · cases held
      exact ⟨le_refl 0, le_refl 0⟩
    · exact ⟨ordered.nonneg storage current held, leftover storage current held⟩
  refine ⟨?_, ?_, fun storage current held => (replica storage current held).1, ordered.read,
    ordered.targets, ?_, ?_, ?_⟩
  · intro absent
    rw [latest] at absent
    cases absent
  · intro top held
    rw [latest] at held
    cases held
    exact le_refl 0
  · intro top held storage current kept
    rw [latest] at held
    cases held
    exact (replica storage current kept).2
  · intro top held job member
    rw [latest] at held
    cases held
    rw [unknown job member]
    decide
  · exact fun _ job member known => absurd (unknown job member) known

theorem raise {storages : List String} {generation : Int}
    (raises : Raises rs after repository storages generation) :
    Ordered repository after pending := by
  have latest : after.latest repository = some (generation + 1) := by
    rw [raises.latest_after, if_pos rfl]
  have nonneg : 0 ≤ generation := by
    obtain ⟨storage, _, held⟩ := raises.raised
    exact ordered.nonneg storage generation held
  have bounds := ordered.current generation raises.latest
  refine ⟨?_, ?_, ?_, ordered.read, ordered.targets, ?_, ?_, ?_⟩
  · intro absent
    rw [latest] at absent
    cases absent
  · intro top same
    rw [latest] at same
    cases same
    omega
  · intro storage current held
    rw [raises.replica] at held
    split at held
    · cases held
      omega
    · exact ordered.nonneg storage current held
  · intro top same storage current held
    rw [latest] at same
    cases same
    rw [raises.replica] at held
    split at held
    · cases held
      exact le_refl _
    · have below := bounds storage current held
      omega
  · intro top same job member
    rw [latest] at same
    cases same
    have below := ordered.behind generation raises.latest job member
    omega
  · intro _ job member known current held
    have present : (rs.latest repository).isSome := by rw [raises.latest]; rfl
    have below := ordered.behind generation raises.latest job member
    have above := ordered.ahead present job member known
    rw [raises.replica] at held
    split at held
    · -- a target that is behind what it will be given is not on the latest generation
      rename_i chosen
      have behind := above generation chosen.2.2
      omega
    · exact above current held

end

theorem get (ordered : Ordered (virtual, relativePath) rs pending) {source target : String}
    {generation : Int} (different : source ≠ target)
    (returned : rs.GetReplicatedGeneration virtual relativePath source target =
      .ok generation) (single : ∀ job ∈ pending, job.1 ≠ target) :
    Ordered (virtual, relativePath) rs (pending ++ [(target, generation)]) := by
  obtain ⟨sourceRow, targetRow⟩ := GetReplicatedGeneration_ok different returned
  have known : generation = generationUnknown ∨
      rs.replica (virtual, relativePath) source = some generation := by
    cases held : rs.replica (virtual, relativePath) source with
    | none =>
      rw [held] at sourceRow
      exact .inl sourceRow.symm
    | some current =>
      rw [held] at sourceRow
      exact .inr (congrArg some sourceRow)
  refine ⟨ordered.numbered, ordered.counted, ordered.nonneg, forall_joined ordered.read ?_, ?_,
    ordered.current, ?_, ?_⟩
  · exact known.imp_right (ordered.nonneg source generation)
  · rw [map_append, nodup_append]
    refine ⟨ordered.targets, nodup_singleton _, ?_⟩
    intro storage member other last
    obtain ⟨job, present, rfl⟩ := mem_map.mp member
    rw [mem_singleton.mp last]
    exact single job present
  · intro latest held
    refine forall_joined (ordered.behind latest held) ?_
    rcases known with unknown | row
    · have nonneg := ordered.counted latest held
      rw [unknown]
      unfold generationUnknown
      omega
    · exact ordered.current latest held source generation row
  · intro held
    refine forall_joined (ordered.ahead held) ?_
    intro _ current row
    have nonneg := ordered.nonneg target current row
    rcases targetRow current row with unknown | lower
    · unfold generationUnknown at unknown
      omega
    · exact lower

variable {job : String × Int}

theorem latest_SetGeneration (ordered : Ordered (virtual, relativePath) rs pending)
    (member : job ∈ pending) :
    (rs.SetGeneration virtual relativePath job.1 job.2).latest
        (virtual, relativePath) = rs.latest (virtual, relativePath) := by
  rw [SetGeneration_latest]
  refine if_neg ?_
  intro raised
  obtain ⟨_, present, lower⟩ := raised
  cases held : rs.latest (virtual, relativePath) with
  | none =>
    rw [ordered.numbered held] at present
    cases present
  | some latest =>
    have below := ordered.behind latest held job member
    rw [held, Option.getD_some] at lower
    omega

/-- A target that is still to be raised is not on the latest generation. -/
theorem target_outdated (ordered : Ordered repository rs pending)
    (member : job ∈ pending) (known : job.2 ≠ generationUnknown) {latest : Int}
    (held : rs.latest repository = some latest) : rs.replica repository job.1 ≠ some latest := by
  intro same
  have present : (rs.latest repository).isSome := by rw [held]; rfl
  have below := ordered.behind latest held job member
  have above := ordered.ahead present job member known latest same
  omega

theorem set (ordered : Ordered (virtual, relativePath) rs pending)
    {rest : List (String × Int)} (chosen : pending.Perm (job :: rest))
    (known : job.2 ≠ generationUnknown) :
    Ordered (virtual, relativePath)
      (rs.SetGeneration virtual relativePath job.1 job.2) rest := by
  have member : job ∈ pending := chosen.mem_iff.mpr mem_cons_self
  have latest := ordered.latest_SetGeneration member
  have later : ∀ other ∈ rest, other ∈ pending :=
    fun other remaining => chosen.mem_iff.mpr (mem_cons_of_mem _ remaining)
  have distinct := (chosen.map Prod.fst).nodup_iff.mp ordered.targets
  rw [map_cons, nodup_cons] at distinct
  have replica : ∀ {storage current},
      (rs.SetGeneration virtual relativePath job.1 job.2).replica
        (virtual, relativePath) storage = some current →
      storage = job.1 ∧ current = job.2 ∨
        rs.replica (virtual, relativePath) storage = some current := by
    intro storage current held
    rw [SetGeneration_replica] at held
    split at held
    · rename_i target
      exact .inl ⟨target.2, (Option.some.inj held).symm⟩
    · exact .inr held
  refine ⟨?_, ?_, ?_, fun other remaining => ordered.read other (later other remaining), distinct.2,
    ?_, ?_, ?_⟩
  · intro absent
    rw [latest] at absent
    rw [SetGeneration_record, if_pos rfl, ordered.numbered absent]
    rfl
  · rw [latest]
    exact ordered.counted
  · intro storage current held
    rcases replica held with ⟨rfl, rfl⟩ | old
    · exact (ordered.read job member).resolve_left known
    · exact ordered.nonneg storage current old
  · intro top same storage current held
    rw [latest] at same
    rcases replica held with ⟨rfl, rfl⟩ | old
    · exact ordered.behind top same job member
    · exact ordered.current top same storage current old
  · intro top same other remaining
    rw [latest] at same
    exact ordered.behind top same other (later other remaining)
  · intro present other remaining otherKnown current held
    rw [latest] at present
    rcases replica held with ⟨same, _⟩ | old
    · have again : job.1 ∈ rest.map Prod.fst := mem_map.mpr ⟨other, remaining, same⟩
      exact absurd again distinct.1
    · exact ordered.ahead present other (later other remaining) otherKnown current old

end Ordered

namespace World

variable (virtual relativePath : String)

def Ordered (w : World) : Prop :=
  Replication.Ordered (virtual, relativePath) w.store (w.replicates.map pending)

/-- One replication at a time writes to a storage, and a repository is created when none is
in flight that has read a generation and no replica of an earlier one is left above the first
generation. -/
def Timely (w : World) : Event → Prop
  | .create _ _ _ _ _ _ =>
    w.store.record (virtual, relativePath) = none →
      (∀ replicate ∈ w.replicates, replicate.generation = generationUnknown) ∧
        ∀ row ∈ w.store.replicas (virtual, relativePath), row.generation ≤ 0
  | .getReplicatedGeneration _ target =>
    ∀ replicate ∈ w.replicates, replicate.target ≠ target
  | _ => True

instance (w : World) (event : Event) : Decidable (w.Timely virtual relativePath event) := by
  unfold Timely
  cases event <;> infer_instance

/-- The last statement of a replication keeps the latest generation and the replicas that are
on it. -/
def Harmless (w : World) : Prop :=
  ∀ replicate ∈ w.replicates, replicate.stage = .copied →
    let after := finish virtual relativePath w.store replicate
    after.latest (virtual, relativePath) = w.store.latest (virtual, relativePath) ∧
      ∀ storage latest, w.store.latest (virtual, relativePath) = some latest →
        w.store.replica (virtual, relativePath) storage = some latest →
        after.replica (virtual, relativePath) storage = some latest

variable {virtual relativePath} {w next : World}

theorem Ordered.harmless (ordered : w.Ordered virtual relativePath) :
    w.Harmless virtual relativePath := by
  intro replicate member _
  have pending : replicate.pending ∈ w.replicates.map pending :=
    mem_map.mpr ⟨replicate, member, rfl⟩
  unfold finish
  split
  · rename_i known
    refine ⟨Replication.Ordered.latest_SetGeneration ordered pending, ?_⟩
    intro storage latest held current
    rw [SetGeneration_replica, if_neg]
    · exact current
    · intro target
      rw [target.2] at current
      exact Replication.Ordered.target_outdated ordered pending known held current
  · exact ⟨rfl, fun _ _ _ current => current⟩

theorem perm_eraseIdx {replicate : Nat} {r : Replicate}
    (found : w.replicates[replicate]? = some r) :
    (w.replicates.map pending).Perm
      (r.pending :: (w.replicates.eraseIdx replicate).map pending) := by
  obtain ⟨inside, rfl⟩ := List.getElem?_eq_some_iff.mp found
  exact (getElem_cons_eraseIdx_perm inside).symm.map pending

theorem pending_set {replicate : Nat} {r : Replicate} (found : w.replicates[replicate]? = some r)
    (stage : Stage) :
    (w.replicates.set replicate { r with stage := stage }).map pending =
      w.replicates.map pending := by
  obtain ⟨inside, rfl⟩ := List.getElem?_eq_some_iff.mp found
  have within : replicate < (w.replicates.map pending).length := by rwa [length_map]
  have same : ({ w.replicates[replicate] with stage := stage } : Replicate).pending =
      (w.replicates.map pending)[replicate] := by
    rw [getElem_map]
    rfl
  rw [map_set, same, set_getElem_self]

theorem step_ordered {event : Event} (ordered : w.Ordered virtual relativePath)
    (timely : w.Timely virtual relativePath event)
    (taken : w.step virtual relativePath event = some next) :
    next.Ordered virtual relativePath := by
  have fewer : ∀ index, ((w.replicates.eraseIdx index).map pending).Sublist
      (w.replicates.map pending) :=
    fun index => (eraseIdx_sublist w.replicates index).map _
  unfold Ordered at ordered ⊢
  cases step_moves taken with
  | refused | begun | applied _ | failed => exact ordered
  | created creates =>
    obtain ⟨unknown, leftover⟩ := timely creates.absent
    refine ordered.create creates ?_ ?_
    · intro job member
      obtain ⟨replicate, present, rfl⟩ := mem_map.mp member
      exact unknown replicate present
    · intro storage current held
      obtain ⟨row, present, same, rfl⟩ := replica_eq_some.mp held
      exact leftover row
        (mem_replicas.mpr ⟨present, congrArg Prod.fst same⟩)
  | deleted record replica => exact ordered.shrink (.inr record) replica
  | raised _ _ raises => exact ordered.raise raises
  | read different returned =>
    rw [map_append]
    refine ordered.get different returned ?_
    intro job member
    obtain ⟨replicate, present, rfl⟩ := mem_map.mp member
    exact timely replicate present
  | copying found _ | copied found _ _ =>
    rw [pending_set found]
    exact ordered
  | invalid record replica => exact (ordered.sublist (fewer _)).shrink record replica
  | finished found _ =>
    unfold finish
    split
    · rename_i known
      exact ordered.set (perm_eraseIdx found) known
    · exact ordered.sublist (fewer _)
  | aborted => exact ordered.sublist (fewer _)

theorem start_ordered (disk : String → List Nat) :
    (start .empty disk).Ordered virtual relativePath :=
  .empty _

theorem replicate_harmless (virtual relativePath : String) (disk : String → List Nat)
    (events : List Event)
    (timely : Along (step virtual relativePath) (Timely virtual relativePath)
      (start .empty disk) events) :
    Throughout (step virtual relativePath) (Harmless virtual relativePath)
      (start .empty disk) events :=
  timely.throughout (fun _ _ _ => step_ordered) (fun _ => Ordered.harmless) (start_ordered disk)

/-- A write that misses a secondary, and what brings the secondary up to date. -/
def caughtUp : List Event :=
  [.create 1 "gitaly-1" ["gitaly-2"] [] true false, .begin 0, .apply 0 "gitaly-1",
    .increment 0 "gitaly-1" [], .getReplicatedGeneration "gitaly-1" "gitaly-2", .copyBegin 0,
    .copyEnd 0 [0], .setGeneration 0, .delete ["gitaly-1", "gitaly-2"],
    .create 2 "gitaly-1" ["gitaly-2"] [] true false]

theorem replicate_harmless_caughtUp :
    Along (step "default" "repo.git") (Timely "default" "repo.git")
        (start .empty fun _ => []) caughtUp ∧
      Throughout (step "default" "repo.git") (Harmless "default" "repo.git")
        (start .empty fun _ => []) caughtUp :=
  ⟨by decide, replicate_harmless "default" "repo.git" (fun _ => []) caughtUp (by decide)⟩

/-- A replication to a third storage that a removal and a creation overtake. -/
def overtaken : List Event :=
  [.create 1 "gitaly-1" ["gitaly-2"] [] true false, .begin 0, .apply 0 "gitaly-1",
    .apply 0 "gitaly-2", .increment 0 "gitaly-1" ["gitaly-2"],
    .getReplicatedGeneration "gitaly-1" "gitaly-3", .copyBegin 0, .copyEnd 0 [0],
    .delete ["gitaly-1", "gitaly-2"], .create 2 "gitaly-1" ["gitaly-2"] [] true false]

/-- The new repository is outdated from then on, and the old replica is the latest. -/
theorem overtaken_raises :
    (exec (step "default" "repo.git") (start .empty fun _ => []) overtaken).map
        (fun w => (w.store.latest ("default", "repo.git"),
          w.store.GetConsistentStorages "default" "repo.git")) =
      some (some 0, .ok ["gitaly-1", "gitaly-2"]) ∧
    (exec (step "default" "repo.git") (start .empty fun _ => [])
        (overtaken ++ [.setGeneration 0])).map
        (fun w => (w.store.latest ("default", "repo.git"),
          w.store.GetConsistentStorages "default" "repo.git")) =
      some (some 1, .ok ["gitaly-3"]) := by
  decide

end World

end Gitaly.Praefect.Replication
