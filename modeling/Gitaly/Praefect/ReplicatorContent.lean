import Gitaly.Base.Coverage
import Gitaly.Praefect.ReplicatorGeneration

/- What the generation of a replica says about its content, while mutators write to it and
replications copy over it. -/
namespace Gitaly.Praefect.Replication.World

open Datastore Coverage Runs PostgresRepositoryStore List Function

variable (virtual relativePath : String)

/-- A repository is created before it is replicated, nothing of it is deleted, and one
replication at a time writes to a storage. -/
def Exclusive (w : World) : Event → Prop
  | .create _ _ _ _ _ _ => w.replicates = []
  | .delete _ | .invalidSource _ => False
  | .getReplicatedGeneration _ target =>
    ∀ replicate ∈ w.replicates, replicate.target ≠ target
  | _ => True

instance (w : World) : (event : Event) → Decidable (w.Exclusive event)
  | .create .. => inferInstanceAs (Decidable (w.replicates = []))
  | .delete _ | .invalidSource _ => inferInstanceAs (Decidable False)
  | .getReplicatedGeneration _ target =>
    inferInstanceAs (Decidable (∀ replicate ∈ w.replicates, replicate.target ≠ target))
  | .begin _ | .apply .. | .increment .. | .copyBegin _ | .copyEnd .. | .setGeneration _
  | .abort _ => inferInstanceAs (Decidable True)

/-- What a copy leaves on its target has the writes that mutators have applied there and not
recorded yet. -/
def Preserves (w : World) : Event → Prop
  | .copyEnd replicate content =>
    ∀ r ∈ w.replicates[replicate]?, ∀ m ∈ w.mutators, r.target ∈ m.applied → m.write ∈ content
  | _ => True

instance (w : World) : (event : Event) → Decidable (w.Preserves event)
  | .copyEnd replicate content =>
    inferInstanceAs (Decidable (∀ r ∈ w.replicates[replicate]?, ∀ m ∈ w.mutators,
      r.target ∈ m.applied → m.write ∈ content))
  | .create .. | .delete _ | .begin _ | .apply .. | .increment .. | .getReplicatedGeneration ..
  | .copyBegin _ | .invalidSource _ | .setGeneration _ | .abort _ =>
    inferInstanceAs (Decidable True)

/-- A replica has every write that is recorded with a generation up to its own. -/
def LowerBound (w : World) : Prop :=
  Covered (w.store.replica (virtual, relativePath)) w.disk w.recorded

/-- What a replication that has read a generation will bring to its target. -/
def Carries (w : World) (replicate : Replicate) : Prop :=
  match replicate.stage with
  | .read =>
    ∃ current, w.store.replica (virtual, relativePath) replicate.source = some current ∧
      replicate.generation ≤ current
  | .copying snapshot => Upto w.recorded replicate.generation snapshot
  | .copied => Upto w.recorded replicate.generation (w.disk replicate.target)

structure Sound (w : World) : Prop where
  ordered : w.Ordered virtual relativePath
  absent : w.store.record (virtual, relativePath) = none →
    w.recorded = [] ∧
      (∀ storage, w.store.replica (virtual, relativePath) storage = none) ∧
      ∀ replicate ∈ w.replicates, replicate.generation = generationUnknown
  bound : ∀ latest, w.store.latest (virtual, relativePath) = some latest →
    ∀ entry ∈ w.recorded, entry.2 ≤ latest
  applied : ∀ m ∈ w.mutators, ∀ storage ∈ m.applied, m.write ∈ w.disk storage
  covered : w.LowerBound virtual relativePath
  unknown : ∀ replicate ∈ w.replicates, replicate.generation = generationUnknown →
    w.store.replica (virtual, relativePath) replicate.target = none
  carried : ∀ replicate ∈ w.replicates, replicate.generation ≠ generationUnknown →
    w.Carries virtual relativePath replicate

variable {virtual relativePath} {w next : World}

theorem start_sound (disk : String → List Nat) :
    (start .empty disk).Sound virtual relativePath where
  ordered := start_ordered disk
  absent := fun _ => ⟨rfl, fun _ => rfl, fun _ member => absurd member not_mem_nil⟩
  bound := fun _ _ _ member => absurd member not_mem_nil
  applied := fun _ member => absurd member not_mem_nil
  covered := covered_nil _ _
  unknown := fun _ member => absurd member not_mem_nil
  carried := fun _ member => absurd member not_mem_nil

theorem Ordered.target_ne (ordered : w.Ordered virtual relativePath) {replicate : Nat}
    {r other : Replicate} (found : w.replicates[replicate]? = some r)
    (member : other ∈ w.replicates.eraseIdx replicate) : other.target ≠ r.target := by
  have distinct := ((perm_eraseIdx found).map Prod.fst).nodup_iff.mp ordered.targets
  rw [map_cons, nodup_cons] at distinct
  intro same
  apply distinct.1
  rw [map_map]
  exact mem_map.mpr ⟨other, member, same⟩

theorem forall_set_stage {property : Replicate → Prop} {replicate : Nat} {r : Replicate}
    {stage : Stage} (found : w.replicates[replicate]? = some r)
    (others : ∀ other ∈ w.replicates.eraseIdx replicate, property other)
    (moved : property { r with stage := stage }) :
    ∀ other ∈ w.replicates.set replicate { r with stage := stage }, property other := by
  obtain ⟨inside, -⟩ := List.getElem?_eq_some_iff.mp found
  intro other member
  have split := (List.set_perm_cons_eraseIdx inside { r with stage := stage }).mem_iff.mp member
  rcases List.mem_cons.mp split with rfl | remaining
  · exact moved
  · exact others other remaining

/-- Replicas that only come forward, and contents that only grow. -/
theorem Carries.mono {replicate : Replicate}
    (carries : w.Carries virtual relativePath replicate)
    (forward : ∀ current,
      w.store.replica (virtual, relativePath) replicate.source = some current →
      ∃ later, next.store.replica (virtual, relativePath) replicate.source = some later ∧
        current ≤ later)
    (upto : ∀ content, Upto w.recorded replicate.generation content →
      Upto next.recorded replicate.generation content)
    (grows : w.disk replicate.target ⊆ next.disk replicate.target) :
    next.Carries virtual relativePath replicate := by
  unfold Carries at carries ⊢
  cases stage : replicate.stage with
  | read =>
    rw [stage] at carries
    obtain ⟨current, held, below⟩ := carries
    obtain ⟨later, kept, le⟩ := forward current held
    exact ⟨later, kept, below.trans le⟩
  | copying snapshot =>
    rw [stage] at carries
    exact upto snapshot carries
  | copied =>
    rw [stage] at carries
    exact (upto _ carries).grow grows

namespace Sound

variable (sound : w.Sound virtual relativePath)
include sound

theorem target_behind {replicate : Replicate} (member : replicate ∈ w.replicates) {current : Int}
    (held : w.store.replica (virtual, relativePath) replicate.target = some current) :
    replicate.generation ≠ generationUnknown ∧ current < replicate.generation := by
  have known : replicate.generation ≠ generationUnknown := by
    intro unknown
    rw [sound.unknown replicate member unknown] at held
    cases held
  refine ⟨known, ?_⟩
  cases latest : w.store.latest (virtual, relativePath) with
  | none =>
    have gone := (sound.absent (sound.ordered.numbered latest)).2.1 replicate.target
    rw [gone] at held
    cases held
  | some top =>
    have present : (w.store.latest (virtual, relativePath)).isSome := by
      rw [latest]
      rfl
    exact sound.ordered.ahead present replicate.pending (mem_map.mpr ⟨_, member, rfl⟩) known
      current held

theorem timely {event : Event} (exclusive : w.Exclusive event) :
    w.Timely virtual relativePath event := by
  cases event with
  | create =>
    intro gone
    have free : w.replicates = [] := exclusive
    refine ⟨fun replicate member => ?_, fun row member => ?_⟩
    · rw [free] at member
      cases member
    · obtain ⟨present, same⟩ := mem_replicas.mp member
      have held := replica_of_mem present
      rw [same, (sound.absent gone).2.1] at held
      cases held
  | getReplicatedGeneration source target => exact exclusive
  | _ => trivial

variable {store : PostgresRepositoryStore} {storages : List String}

theorem create {repositoryID : Int} {primary : Option String}
    (creates : Creates w.store store repositoryID (virtual, relativePath) primary storages)
    (free : w.replicates = [])
    (ordered : ({ w with store := store } : World).Ordered virtual relativePath) :
    ({ w with store := store } : World).Sound virtual relativePath := by
  have unrecorded := (sound.absent creates.absent).1
  refine ⟨ordered, ?_, ?_, sound.applied, ?_, ?_, ?_⟩
  · intro gone
    rw [creates.record, if_pos rfl] at gone
    cases gone
  · intro latest _ entry member
    rw [unrecorded] at member
    cases member
  · unfold LowerBound
    rw [unrecorded]
    exact covered_nil _ _
  all_goals
    intro replicate member
    rw [free] at member
    cases member

theorem apply {mutator : Nat} {storage : String} {m : Mutator}
    (found : w.mutators[mutator]? = some m) :
    ({ w with
        disk := Function.update w.disk storage (m.write :: w.disk storage)
        mutators := w.mutators.set mutator { m with applied := storage :: m.applied } } :
      World).Sound virtual relativePath := by
  have grows := subset_write w.disk storage m.write
  have old := sound.applied m (mem_of_getElem? found)
  refine ⟨sound.ordered, sound.absent, sound.bound, ?_, sound.covered.grow grows, sound.unknown, ?_⟩
  · intro other member site listed
    rcases mem_or_eq_of_mem_set member with before | rfl
    · exact grows site (sound.applied other before site listed)
    rcases mem_cons.mp listed with rfl | earlier
    · exact mem_write w.disk site m.write
    · exact grows site (old site earlier)
  · intro replicate member known
    exact (sound.carried replicate member known).mono (fun current held => ⟨current, held, le_rfl⟩)
      (fun _ => id) (grows replicate.target)

theorem raise {mutator : Nat} {m : Mutator} {generation : Int}
    (found : w.mutators[mutator]? = some m) (applied : ∀ storage ∈ storages, storage ∈ m.applied)
    (raises : Raises w.store store (virtual, relativePath) storages generation) :
    ({ w with
        store := store
        mutators := w.mutators.eraseIdx mutator
        recorded := (m.write, generation + 1) :: w.recorded } :
      World).Sound virtual relativePath := by
  have bound := sound.bound generation raises.latest
  have below := sound.ordered.current generation raises.latest
  have behind := sound.ordered.behind generation raises.latest
  have latest : store.latest (virtual, relativePath) = some (generation + 1) := by
    rw [raises.latest_after, if_pos rfl]
  have written := sound.applied m (mem_of_getElem? found)
  refine ⟨sound.ordered.raise raises, ?_, ?_, ?_, ?_, ?_, ?_⟩
  · intro gone
    rw [PostgresRepositoryStore.latest, gone] at latest
    cases latest
  · intro top held entry member
    rw [latest] at held
    cases held
    rcases mem_cons.mp member with rfl | old
    · exact le_rfl
    · have le := bound entry old
      omega
  · exact fun other member => sound.applied other (mem_of_mem_eraseIdx member)
  · refine sound.covered.raise bound below ?_
    intro site current held
    rw [raises.replica] at held
    split at held
    · rename_i chosen
      cases held
      exact .inr ⟨chosen.2.2, rfl, written site (applied site chosen.2.1)⟩
    · exact .inl held
  · intro replicate member unknown
    have none := sound.unknown replicate member unknown
    rw [raises.replica, none]
    simp
  · intro replicate member known
    refine (sound.carried replicate member known).mono ?_ ?_ (List.Subset.refl _)
    · intro current held
      have le := below _ current held
      rw [raises.replica]
      split
      · exact ⟨generation + 1, rfl, by omega⟩
      · exact ⟨current, held, le_rfl⟩
    · intro content upto
      have le : replicate.generation ≤ generation :=
        behind replicate.pending (mem_map.mpr ⟨replicate, member, rfl⟩)
      exact upto.above (by omega)

theorem get {source target : String} {generation : Int} (different : source ≠ target)
    (returned : w.store.GetReplicatedGeneration virtual relativePath source target =
      .ok generation)
    (ordered : ({ w with replicates := w.replicates ++ [⟨source, target, generation, .read⟩] } :
      World).Ordered virtual relativePath) :
    ({ w with replicates := w.replicates ++ [⟨source, target, generation, .read⟩] } :
      World).Sound virtual relativePath := by
  obtain ⟨sourceRow, targetRow⟩ := GetReplicatedGeneration_ok different returned
  refine ⟨ordered, ?_, sound.bound, sound.applied, sound.covered, ?_, ?_⟩
  · intro gone
    obtain ⟨unrecorded, free, unknown⟩ := sound.absent gone
    refine ⟨unrecorded, free, forall_joined unknown ?_⟩
    rw [free source] at sourceRow
    exact sourceRow.symm
  · refine forall_joined sound.unknown ?_
    intro unknown
    cases held : w.store.replica (virtual, relativePath) target with
    | none => rfl
    | some current =>
      have nonneg := sound.ordered.nonneg target current held
      have low := targetRow current held
      dsimp only at unknown
      unfold generationUnknown at low unknown
      omega
  · refine forall_joined sound.carried ?_
    intro known
    cases held : w.store.replica (virtual, relativePath) source with
    | none =>
      rw [held] at sourceRow
      exact absurd sourceRow.symm known
    | some current =>
      rw [held] at sourceRow
      exact ⟨current, held, le_of_eq sourceRow.symm⟩

variable {replicate : Nat} {r : Replicate}

theorem copyBegin (found : w.replicates[replicate]? = some r)
    (stage : r.stage = .read)
    (ordered : ({ w with
        replicates := w.replicates.set replicate { r with stage := .copying (w.disk r.source) } } :
      World).Ordered virtual relativePath) :
    ({ w with
        replicates := w.replicates.set replicate { r with stage := .copying (w.disk r.source) } } :
      World).Sound virtual relativePath := by
  have present := mem_of_getElem? found
  refine ⟨ordered, ?_, sound.bound, sound.applied, sound.covered, ?_, ?_⟩
  · intro gone
    obtain ⟨unrecorded, free, unknown⟩ := sound.absent gone
    exact ⟨unrecorded, free, forall_moved unknown (unknown r present)⟩
  · exact forall_moved sound.unknown (sound.unknown r present)
  · refine forall_moved sound.carried ?_
    intro known
    have carries := sound.carried r present known
    unfold Carries at carries
    rw [stage] at carries
    obtain ⟨current, held, below⟩ := carries
    exact (sound.covered r.source current held).lower below

theorem copyEnd {content snapshot : List Nat}
    (found : w.replicates[replicate]? = some r) (stage : r.stage = .copying snapshot)
    (sub : snapshot ⊆ content) (preserves : w.Preserves (.copyEnd replicate content))
    (ordered : ({ w with
        disk := Function.update w.disk r.target content
        replicates := w.replicates.set replicate { r with stage := .copied } } :
      World).Ordered virtual relativePath) :
    ({ w with
        disk := Function.update w.disk r.target content
        replicates := w.replicates.set replicate { r with stage := .copied } } :
      World).Sound virtual relativePath := by
  have present := mem_of_getElem? found
  have brought : r.generation ≠ generationUnknown → Upto w.recorded r.generation content := by
    intro known
    have carries := sound.carried r present known
    unfold Carries at carries
    rw [stage] at carries
    exact carries.grow sub
  refine ⟨ordered, ?_, sound.bound, ?_, ?_,
    forall_moved sound.unknown (sound.unknown r present), ?_⟩
  · intro gone
    obtain ⟨unrecorded, free, unknown⟩ := sound.absent gone
    exact ⟨unrecorded, free, forall_moved unknown (unknown r present)⟩
  · intro m member storage listed
    dsimp only
    by_cases same : storage = r.target
    · subst same
      rw [update_self]
      exact preserves r found m member listed
    · rw [update_of_ne same]
      exact sound.applied m member storage listed
  · intro storage current held
    dsimp only
    by_cases same : storage = r.target
    · subst same
      obtain ⟨known, behind⟩ := sound.target_behind present held
      rw [update_self]
      exact (brought known).lower behind.le
    · rw [update_of_ne same]
      exact sound.covered storage current held
  · refine forall_set_stage found ?_ ?_
    · intro other member known
      have carries := sound.carried other (mem_of_mem_eraseIdx member) known
      refine carries.mono (fun current held => ⟨current, held, le_rfl⟩) (fun _ => id) ?_
      dsimp only
      rw [update_of_ne (sound.ordered.target_ne found member)]
      exact List.Subset.refl _
    · intro known
      unfold Carries
      dsimp only
      rw [update_self]
      exact brought known

theorem erase (replicate : Nat)
    (ordered : ({ w with replicates := w.replicates.eraseIdx replicate } : World).Ordered
      virtual relativePath) :
    ({ w with replicates := w.replicates.eraseIdx replicate } : World).Sound virtual
      relativePath := by
  refine ⟨ordered, ?_, sound.bound, sound.applied, sound.covered, forall_left sound.unknown,
    forall_left sound.carried⟩
  intro gone
  obtain ⟨unrecorded, free, unknown⟩ := sound.absent gone
  exact ⟨unrecorded, free, forall_left unknown⟩

theorem setGeneration
    (found : w.replicates[replicate]? = some r) (stage : r.stage = .copied)
    (known : r.generation ≠ generationUnknown)
    (ordered : ({ w with
        store := w.store.SetGeneration virtual relativePath r.target r.generation
        replicates := w.replicates.eraseIdx replicate } : World).Ordered
      virtual relativePath) :
    ({ w with
        store := w.store.SetGeneration virtual relativePath r.target r.generation
        replicates := w.replicates.eraseIdx replicate } : World).Sound
      virtual relativePath := by
  have present := mem_of_getElem? found
  have latest := Replication.Ordered.latest_SetGeneration sound.ordered
    (mem_map.mpr ⟨r, present, rfl⟩)
  have brought := sound.carried r present known
  unfold Carries at brought
  rw [stage] at brought
  have replica : ∀ storage,
      (w.store.SetGeneration virtual relativePath r.target r.generation).replica
        (virtual, relativePath) storage =
      if storage = r.target then some r.generation
      else w.store.replica (virtual, relativePath) storage := by
    intro storage
    rw [SetGeneration_replica]
    simp
  refine ⟨ordered, ?_, ?_, sound.applied, ?_, ?_, ?_⟩
  · intro gone
    rw [SetGeneration_record, if_pos rfl, Option.map_eq_none_iff] at gone
    exact absurd ((sound.absent gone).2.2 r present) known
  · intro top held
    exact sound.bound top (latest.symm.trans held)
  · intro storage current held
    rw [replica] at held
    split at held
    · rename_i target
      cases held
      rw [target]
      exact brought
    · exact sound.covered storage current held
  · intro other member unknown
    rw [replica, if_neg (sound.ordered.target_ne found member)]
    exact sound.unknown other (mem_of_mem_eraseIdx member) unknown
  · intro other member otherKnown
    have carries := sound.carried other (mem_of_mem_eraseIdx member) otherKnown
    refine carries.mono ?_ (fun _ => id) (List.Subset.refl _)
    intro current held
    rw [replica]
    split
    · -- the source of another replication has come forward
      rename_i target
      rw [target] at held
      exact ⟨r.generation, rfl, (sound.target_behind present held).2.le⟩
    · exact ⟨current, held, le_rfl⟩

end Sound

theorem step_sound {event : Event} (sound : w.Sound virtual relativePath)
    (admitted : w.Exclusive event ∧ w.Preserves event)
    (taken : w.step virtual relativePath event = some next) :
    next.Sound virtual relativePath := by
  have ordered := step_ordered sound.ordered (sound.timely admitted.1) taken
  cases step_moves taken with
  | refused => exact sound
  | created creates => exact sound.create creates admitted.1 ordered
  | deleted | invalid => exact admitted.1.elim
  | begun =>
    refine { sound with applied := ?_ }
    intro m member storage listed
    rcases mem_append.mp member with old | last
    · exact sound.applied m old storage listed
    · rw [mem_singleton.mp last] at listed
      cases listed
  | applied found => exact sound.apply found
  | failed =>
    exact { sound with
      applied := fun m member => sound.applied m (mem_of_mem_eraseIdx member) }
  | raised found applied raises => exact sound.raise found applied raises
  | read different returned => exact sound.get different returned ordered
  | copying found stage => exact sound.copyBegin found stage ordered
  | copied found stage sub => exact sound.copyEnd found stage sub admitted.2 ordered
  | finished found stage =>
    unfold finish at ordered ⊢
    split at ordered
    · rename_i known
      rw [if_pos known]
      exact sound.setGeneration found stage known ordered
    · rename_i unknown
      rw [if_neg unknown]
      exact sound.erase _ ordered
  | aborted => exact sound.erase _ ordered

theorem generation_lower_bound (virtual relativePath : String) (disk : String → List Nat)
    (events : List Event)
    (admitted : Along (step virtual relativePath)
      (fun w event => w.Exclusive event ∧ w.Preserves event) (start .empty disk) events) :
    Throughout (step virtual relativePath) (LowerBound virtual relativePath)
      (start .empty disk) events :=
  admitted.throughout (fun _ _ _ => step_sound) (fun _ => Sound.covered) (start_sound disk)

/-- A write that misses the secondary, which is replicated to it while another write is on
its way to both storages. The copy leaves a content on the secondary. -/
def overlapping (content : List Nat) : List Event :=
  [.create 1 "gitaly-1" ["gitaly-2"] [] true false, .begin 1, .begin 2, .apply 1 "gitaly-1",
    .increment 1 "gitaly-1" [], .getReplicatedGeneration "gitaly-1" "gitaly-2", .copyBegin 0,
    .apply 0 "gitaly-1", .apply 0 "gitaly-2", .copyEnd 0 content, .setGeneration 0,
    .increment 0 "gitaly-1" ["gitaly-2"]]

theorem generation_lower_bound_overlapping :
    Along (step "default" "repo.git") (fun w event => w.Exclusive event ∧ w.Preserves event)
        (start .empty fun _ => []) (overlapping [1, 2]) ∧
      Throughout (step "default" "repo.git") (LowerBound "default" "repo.git")
        (start .empty fun _ => []) (overlapping [1, 2]) :=
  ⟨by decide,
    generation_lower_bound "default" "repo.git" (fun _ => []) (overlapping [1, 2]) (by decide)⟩

/-- The copy takes the second write back, and the secondary is raised with it all the same. -/
theorem overlapping_loses :
    Along (step "default" "repo.git") (fun w event => w.Exclusive event)
        (start .empty fun _ => []) (overlapping [2]) ∧
      (exec (step "default" "repo.git") (start .empty fun _ => []) (overlapping [2])).map
          (fun w => (w.store.replica ("default", "repo.git") "gitaly-2", w.recorded,
            w.disk "gitaly-2")) =
        some (some 2, [(1, 2), (2, 1)], [2]) := by
  decide

end Gitaly.Praefect.Replication.World
