import Gitaly.Git.Catfile
import Mathlib.Data.List.Nodup

/- The cache of cat-file processes: internal/git/catfile/batch_cache.go, and the type `batch` of
batch.go. A batch is named by its place among all that were started. -/
namespace Gitaly.Catfile

open List

structure CacheKey where
  sessionID : String
  repoStorage : String
  repoRelPath : String
  repoObjDir : String
  repoAltDir : String
  deriving DecidableEq

structure GitRepo where
  storageName : String
  relativePath : String
  gitObjectDirectory : String
  gitAlternateObjectDirectories : List String

def newCacheKey (sessionID : String) (repo : GitRepo) : CacheKey where
  sessionID := sessionID
  repoStorage := repo.storageName
  repoRelPath := repo.relativePath
  repoObjDir := repo.gitObjectDirectory
  repoAltDir := ",".intercalate repo.gitAlternateObjectDirectories

/-- `cancel` is whether there is a function that ends the context of the processes, `cancelled`
whether that context has ended. -/
structure Processes where
  batch : Batch
  cancel : Bool
  cancelled : Bool
  closed : Bool

namespace Processes

def Close (c : Processes) : Processes :=
  if c.closed then c else { c with closed := true, cancelled := c.cancelled || c.cancel }

def isClosed (c : Processes) : Bool := c.closed

def hasUnreadData (c : Processes) : Bool := 1 < c.batch.n

end Processes

structure CacheEntry where
  key : CacheKey
  value : Nat
  expiry : Int
  deriving DecidableEq

/-- `batches` are the processes that the entries and the requests refer to. -/
structure BatchCache where
  maxLen : Nat
  ttl : Int
  entries : List CacheEntry
  batches : List Processes

def defaultMaxLen : Nat := 100

namespace BatchCache

def newCache (ttl maxLen : Int) : BatchCache where
  maxLen := if maxLen ≤ 0 then defaultMaxLen else maxLen.toNat
  ttl := ttl
  entries := []
  batches := []

variable (bc : BatchCache)

def values : List Nat := bc.entries.map (·.value)

def lookup (k : CacheKey) : Option Nat := bc.entries.findIdx? (fun ent => ent.key = k)

def delete (i : Nat) (wantClose : Bool) : BatchCache :=
  match bc.entries[i]? with
  | none => bc
  | some ent =>
    { bc with
      entries := bc.entries.eraseIdx i
      batches := if wantClose then bc.batches.modify ent.value .Close else bc.batches }

def evictHead : BatchCache := bc.delete 0 true

/-- A loop around `evictHead`. It runs at most once for each entry. -/
def evictLoop (excess : BatchCache → Bool) : List CacheEntry → BatchCache → BatchCache
  | [], bc => bc
  | _ :: rest, bc => if excess bc then evictLoop excess rest bc.evictHead else bc

def evictWhile (excess : BatchCache → Bool) (bc : BatchCache) : BatchCache :=
  evictLoop excess bc.entries bc

def append (now : Int) (k : CacheKey) (b : Nat) : BatchCache :=
  { bc with entries := bc.entries ++ [⟨k, b, now + bc.ttl⟩] }

def add (now : Int) (k : CacheKey) (b : Nat) : BatchCache :=
  let bc : BatchCache := match bc.lookup k with
    | some i => bc.delete i true
    | none => bc
  (bc.append now k b).evictWhile (fun bc => bc.maxLen < bc.entries.length)

def checkout (k : CacheKey) : BatchCache × Option Nat :=
  match bc.lookup k with
  | none => (bc, none)
  | some i => (bc.delete i false, (bc.entries[i]?).map (·.value))

/-- The head has expired. -/
def headExpired (now : Int) (bc : BatchCache) : Bool :=
  (bc.entries.head?).any (fun head => head.expiry < now)

def enforceTTL (now : Int) : BatchCache := bc.evictWhile (headExpired now)

def Evict : BatchCache := bc.evictWhile (fun bc => 0 < bc.entries.length)

variable {bc next last : BatchCache} {k : CacheKey} {ent : CacheEntry}

theorem lookup_eq_none (absent : bc.lookup k = none) : ∀ ent ∈ bc.entries, ent.key ≠ k := by
  intro ent member
  simpa using findIdx?_eq_none_iff.mp absent ent member

theorem lookup_split {i : Nat} (found : bc.lookup k = some i) :
    ∃ before ent after, bc.entries = before ++ ent :: after ∧ before.length = i ∧ ent.key = k := by
  obtain ⟨inside, isKey, -⟩ := findIdx?_eq_some_iff_getElem.mp found
  refine ⟨bc.entries.take i, bc.entries[i], bc.entries.drop (i + 1), ?_, ?_, ?_⟩
  · rw [getElem_cons_drop, take_append_drop]
  · exact length_take_of_le inside.le
  · simpa using isKey

theorem delete_split {before after : List CacheEntry} (split : bc.entries = before ++ ent :: after)
    (wantClose : Bool) :
    bc.delete before.length wantClose = { bc with
      entries := before ++ after
      batches := if wantClose then bc.batches.modify ent.value .Close else bc.batches } := by
  have here : bc.entries[before.length]? = some ent := by
    rw [split, getElem?_append_right (Nat.le_refl _), Nat.sub_self]
    rfl
  have without : bc.entries.eraseIdx before.length = before ++ after := by
    rw [split, eraseIdx_append_of_length_le (Nat.le_refl _), Nat.sub_self]
    rfl
  unfold delete
  rw [here, without]

/-- Some entries are deleted, with their batches closed, and nothing else happens. -/
structure Sheds (bc next : BatchCache) : Prop where
  maxLen : next.maxLen = bc.maxLen
  ttl : next.ttl = bc.ttl
  entries : next.entries.Sublist bc.entries
  closed : ∀ ent ∈ bc.entries, ent ∉ next.entries →
    next.batches[ent.value]? = (bc.batches[ent.value]?).map .Close
  others : ∀ b, b ∉ bc.values ∨ b ∈ next.values → next.batches[b]? = bc.batches[b]?

namespace Sheds

theorem refl (bc : BatchCache) : Sheds bc bc where
  maxLen := rfl
  ttl := rfl
  entries := List.Sublist.refl _
  closed := fun _ member gone => absurd member gone
  others := fun _ _ => rfl

theorem values (sheds : Sheds bc next) : next.values.Sublist bc.values := sheds.entries.map _

theorem mem_values (member : ent ∈ bc.entries) : ent.value ∈ bc.values := mem_map_of_mem member

/-- An entry that is gone took its batch along: no other entry has it. -/
theorem notMem_values (sheds : Sheds bc next) (distinct : bc.values.Nodup)
    (member : ent ∈ bc.entries) (gone : ent ∉ next.entries) : ent.value ∉ next.values := by
  intro still
  obtain ⟨other, stays, same⟩ := mem_map.mp still
  have equal : other = ent := inj_on_of_nodup_map distinct (sheds.entries.subset stays) member same
  exact gone (equal ▸ stays)

theorem trans (first : Sheds bc next) (second : Sheds next last) (distinct : bc.values.Nodup) :
    Sheds bc last where
  maxLen := second.maxLen.trans first.maxLen
  ttl := second.ttl.trans first.ttl
  entries := second.entries.trans first.entries
  closed := by
    intro ent member gone
    by_cases between : ent ∈ next.entries
    · rw [second.closed ent between gone, first.others ent.value (.inr (mem_values between))]
    · rw [second.others ent.value (.inl (first.notMem_values distinct member between)),
        first.closed ent member between]
  others := by
    rintro b (absent | stays)
    · rw [second.others b (.inl (fun between => absent (first.values.subset between))),
        first.others b (.inl absent)]
    · rw [second.others b (.inr stays), first.others b (.inr (second.values.subset stays))]

theorem delete {before after : List CacheEntry} (split : bc.entries = before ++ ent :: after)
    (distinct : bc.values.Nodup) : Sheds bc (bc.delete before.length true) := by
  rw [delete_split split]
  have inner : (before ++ after).Sublist (before ++ ent :: after) :=
    (List.Sublist.refl before).append (sublist_cons_self ent after)
  refine ⟨rfl, rfl, split ▸ inner, ?_, ?_⟩
  · intro other member gone
    obtain rfl : other = ent := by
      rw [split, mem_append, mem_cons] at member
      rw [mem_append] at gone
      tauto
    exact getElem?_modify_eq _ _ _
  · intro b untouched
    refine getElem?_modify_ne _ _ (fun same => ?_)
    subst same
    rcases untouched with absent | stays
    · exact absent (mem_values (by rw [split]; simp))
    have once : ent.value ∉ (before ++ after).map (·.value) := by
      rw [BatchCache.values, split, map_append, map_cons, nodup_middle] at distinct
      rw [map_append]
      exact (nodup_cons.mp distinct).1
    exact once stays

theorem evictHead (distinct : bc.values.Nodup) : Sheds bc bc.evictHead := by
  cases entries : bc.entries with
  | nil =>
    have same : bc.evictHead = bc := by simp [BatchCache.evictHead, BatchCache.delete, entries]
    rw [same]
    exact refl bc
  | cons ent rest =>
    have split : bc.entries = [] ++ ent :: rest := entries
    exact delete split distinct

end Sheds

theorem evictHead_entries (bc : BatchCache) : bc.evictHead.entries = bc.entries.tail := by
  unfold evictHead delete
  cases entries : bc.entries with
  | nil => exact entries
  | cons ent rest => rfl

/-- The loop sheds entries from the front until its condition fails or nothing is left. -/
theorem evictWhile_spec (excess : BatchCache → Bool) (distinct : bc.values.Nodup) :
    Sheds bc (bc.evictWhile excess) ∧
      ((bc.evictWhile excess).entries = [] ∨ excess (bc.evictWhile excess) = false) := by
  unfold evictWhile
  generalize entries : bc.entries = guide
  induction guide generalizing bc with
  | nil => exact ⟨Sheds.refl bc, .inl entries⟩
  | cons ent rest ih =>
    unfold evictLoop
    split
    · have first := Sheds.evictHead distinct
      have tail : bc.evictHead.entries = rest := by rw [evictHead_entries, entries]; rfl
      obtain ⟨later, ends⟩ := ih (distinct.sublist first.values) tail
      exact ⟨first.trans later distinct, ends⟩
    · rename_i stops
      exact ⟨Sheds.refl bc, .inr (Bool.not_eq_true _ ▸ stops)⟩

theorem Evict_spec (distinct : bc.values.Nodup) : Sheds bc bc.Evict ∧ bc.Evict.entries = [] := by
  obtain ⟨sheds, ends⟩ := evictWhile_spec (fun bc => 0 < bc.entries.length) distinct
  refine ⟨sheds, ends.elim id (fun stops => ?_)⟩
  exact eq_nil_of_length_eq_zero (Nat.eq_zero_of_not_pos (of_decide_eq_false stops))

def Ordered (entries : List CacheEntry) : Prop :=
  entries.Pairwise (fun first second => first.expiry ≤ second.expiry)

/-- Only the head is looked at, but it is the first to expire. -/
theorem enforceTTL_spec (distinct : bc.values.Nodup) (ordered : Ordered bc.entries) (now : Int) :
    Sheds bc (bc.enforceTTL now) ∧ ∀ ent ∈ (bc.enforceTTL now).entries, ¬ ent.expiry < now := by
  obtain ⟨sheds, ends⟩ := evictWhile_spec (headExpired now) distinct
  refine ⟨sheds, fun ent member => ?_⟩
  change ent ∈ (bc.evictWhile (headExpired now)).entries at member
  have kept : Ordered (bc.evictWhile (headExpired now)).entries := ordered.sublist sheds.entries
  cases entries : (bc.evictWhile (headExpired now)).entries with
  | nil =>
    rw [entries] at member
    cases member
  | cons head rest =>
    have fresh : ¬ head.expiry < now := by
      have stops := ends.resolve_left (by rw [entries]; exact cons_ne_nil _ _)
      simpa [headExpired, entries] using stops
    rw [entries] at member kept
    rcases mem_cons.mp member with rfl | later
    · exact fresh
    · have after := (pairwise_cons.mp kept).1 ent later
      omega

theorem add_duplicate (distinct : bc.values.Nodup) (keys : (bc.entries.map (·.key)).Nodup)
    (now : Int) (k : CacheKey) (b : Nat) :
    ∃ middle, Sheds bc middle ∧ (∀ ent ∈ middle.entries, ent.key ≠ k) ∧
      bc.add now k b =
        (middle.append now k b).evictWhile (fun bc => bc.maxLen < bc.entries.length) := by
  unfold add
  cases found : bc.lookup k with
  | none => exact ⟨bc, Sheds.refl bc, lookup_eq_none found, rfl⟩
  | some i =>
    obtain ⟨before, ent, after, split, rfl, rfl⟩ := lookup_split found
    refine ⟨_, Sheds.delete split distinct, ?_, rfl⟩
    intro other member same
    rw [delete_split split] at member
    rw [split, map_append, map_cons, nodup_middle, ← map_append] at keys
    exact (nodup_cons.mp keys).1 (same ▸ mem_map_of_mem member)

theorem add_spec (distinct : bc.values.Nodup) (keys : (bc.entries.map (·.key)).Nodup) {b : Nat}
    (absent : b ∉ bc.values) (now : Int) (k : CacheKey) :
    ∃ middle, Sheds bc middle ∧ (∀ ent ∈ middle.entries, ent.key ≠ k) ∧
      Sheds (middle.append now k b) (bc.add now k b) ∧
      (bc.add now k b).entries.length ≤ bc.maxLen := by
  obtain ⟨middle, sheds, unlike, added⟩ := add_duplicate distinct keys now k b
  have appended : (middle.append now k b).values.Nodup := by
    rw [values, append, map_append, map_singleton, ← concat_eq_append]
    exact (distinct.sublist sheds.values).concat (fun member => absent (sheds.values.subset member))
  obtain ⟨later, ends⟩ := evictWhile_spec (fun bc => bc.maxLen < bc.entries.length) appended
  rw [added]
  refine ⟨middle, sheds, unlike, later, ?_⟩
  have limit := later.maxLen.trans sheds.maxLen
  rcases ends with empty | stops
  · rw [empty]
    exact Nat.zero_le _
  · rw [← limit]
    exact Nat.le_of_not_lt (of_decide_eq_false stops)

end BatchCache

end Gitaly.Catfile
