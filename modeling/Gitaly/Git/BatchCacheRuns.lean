import Gitaly.Base.Custody
import Gitaly.Git.BatchCache

/- Requests take their batches out of the cache or start new ones, and `returnWhenDone` puts them
back. A step is one section under the cache's lock, one call on a batch, or one step of
`returnWhenDone`. -/
namespace Gitaly.Catfile

open List Option Runs

inductive Stage where
  /-- `newBatch` is running. -/
  | spawning
  | serving (b : Nat)
  /-- The request is done; `returnWhenDone` goes on with `isClosed`. -/
  | finished (b : Nat)
  /-- `hasUnreadData` comes next. -/
  | unclosed (b : Nat)
  | dirty (b : Nat)
  | clean (b : Nat)
  | ended
  deriving DecidableEq

/-- A request without a session has no key. -/
structure Request where
  key : Option CacheKey
  stage : Stage
  deriving DecidableEq

def Request.holds (r : Request) : Option Nat :=
  match r.stage with
  | .serving b | .finished b | .unclosed b | .dirty b | .clean b => some b
  | .spawning | .ended => none

/-- The batch that the request may call. It may go on after it is done, until `returnWhenDone` has
looked for unread data. -/
def Request.calls (r : Request) : Option Nat :=
  match r.stage with
  | .serving b | .finished b | .unclosed b => some b
  | .spawning | .dirty _ | .clean _ | .ended => none

theorem Request.calls_eq_some {r : Request} {b : Nat} (calls : r.calls = some b) :
    r.holds = some b ∧ ∀ other, r.stage ≠ .clean other := by
  obtain ⟨key, stage⟩ := r
  cases stage with
  | serving | finished | unclosed => exact ⟨calls, nofun⟩
  | spawning | dirty | clean | ended => cases calls

inductive CacheEvent where
  | tick (elapsed : Nat)
  | batchProcess (sessionID : String) (repo : GitRepo)
  | spawn (request : Nat) (fails : Bool)
  | call (request : Nat) (git : Git) (op : Op)
  | done (request : Nat)
  | returnWhenDone (request : Nat)
  | enforceTTL (now : Int)
  | evict

structure Sessions where
  bc : BatchCache
  requests : List Request
  now : Int

namespace Sessions

def start (ttl maxLen now : Int) : Sessions := ⟨.newCache ttl maxLen, [], now⟩

variable (w : Sessions)

def put (request : Nat) (r : Request) : Sessions := { w with requests := w.requests.set request r }

def modify (b : Nat) (change : Processes → Processes) : Sessions :=
  { w with bc := { w.bc with batches := w.bc.batches.modify b change } }

/-- A batch for the cache has a context of its own and a function to end it. -/
def newBatch (cached : Bool) : Sessions :=
  { w with bc := { w.bc with batches := w.bc.batches ++ [⟨.start, cached, false, false⟩] } }

def BatchProcess (sessionID : String) (repo : GitRepo) : Sessions :=
  if sessionID = "" then { w with requests := w.requests ++ [⟨none, .spawning⟩] }
  else
    let cacheKey := newCacheKey sessionID repo
    match w.bc.checkout cacheKey with
    | (bc, some c) => { w with bc := bc, requests := w.requests ++ [⟨some cacheKey, .serving c⟩] }
    | (bc, none) => { w with bc := bc, requests := w.requests ++ [⟨some cacheKey, .spawning⟩] }

def returnWhenDone (request : Nat) (r : Request) : Option Sessions :=
  match r.stage with
  | .finished b =>
    (w.bc.batches[b]?).map (fun c =>
      w.put request { r with stage := if c.isClosed then .ended else .unclosed b })
  | .unclosed b =>
    (w.bc.batches[b]?).map (fun c =>
      w.put request { r with stage := if c.hasUnreadData then .dirty b else .clean b })
  | .dirty b => some ((w.modify b .Close).put request { r with stage := .ended })
  | .clean b =>
    r.key.map (fun cacheKey =>
      { w with bc := w.bc.add w.now cacheKey b }.put request { r with stage := .ended })
  | _ => none

def step : CacheEvent → Option Sessions
  | .tick elapsed => some { w with now := w.now + elapsed }
  | .batchProcess sessionID repo => some (w.BatchProcess sessionID repo)
  | .spawn request fails =>
    (w.requests[request]?).bind (fun r =>
      if r.stage = .spawning then
        if fails then some (w.put request { r with stage := .ended })
        else some ((w.newBatch r.key.isSome).put request
          { r with stage := .serving w.bc.batches.length })
      else none)
  | .call request git op =>
    (w.requests[request]?).bind (fun r =>
      r.calls.map (fun b =>
        w.modify b (fun c => { c with batch := Catfile.step git c.batch op })))
  | .done request =>
    (w.requests[request]?).bind (fun r =>
      match r.stage with
      | .serving b =>
        if r.key.isSome then some (w.put request { r with stage := .finished b })
        -- the processes have the request's context
        else some ((w.modify b (fun c => { c with cancelled := true })).put request
          { r with stage := .ended })
      | _ => none)
  | .returnWhenDone request => (w.requests[request]?).bind (w.returnWhenDone request)
  | .enforceTTL now => some { w with bc := w.bc.enforceTTL now }
  | .evict => some { w with bc := w.bc.Evict }

end Sessions

variable (batches : List Processes)

/-- A batch as it is kept for the next request. -/
def Ready (b : Nat) : Prop :=
  ∃ c, batches[b]? = some c ∧ c.closed = false ∧ c.cancel = true ∧ c.hasUnreadData = false

/-- A request's batch is open, and has no unread data once that was found. -/
def Held (r : Request) : Prop :=
  ∀ b, r.holds = some b → ∃ c, batches[b]? = some c ∧ c.closed = false ∧
    (r.key.isSome = true → c.cancel = true) ∧ (r.stage = .clean b → c.hasUnreadData = false)

theorem Ready.congr {batches others : List Processes} {b : Nat} (ready : Ready batches b)
    (same : others[b]? = batches[b]?) : Ready others b := by
  unfold Ready
  rw [same]
  exact ready

theorem Held.congr {batches others : List Processes} {r : Request} (held : Held batches r)
    (same : ∀ b, r.holds = some b → others[b]? = batches[b]?) : Held others r := by
  intro b holds
  rw [same b holds]
  exact held b holds

/-- The batch is closed and its processes are ended. -/
def Closed (b : Nat) : Prop := ∃ c, batches[b]? = some c ∧ c.closed = true ∧ c.cancelled = true

theorem Ready.close {batches others : List Processes} {b : Nat} (ready : Ready batches b)
    (closes : others[b]? = (batches[b]?).map .Close) : Closed others b := by
  obtain ⟨c, found, isOpen, cancel, _⟩ := ready
  rw [found, map_some] at closes
  exact ⟨c.Close, closes, by simp [Processes.Close, isOpen],
    by simp [Processes.Close, isOpen, cancel]⟩

namespace Sessions

structure Core (w : Sessions) : Prop where
  keys : (w.bc.entries.map (·.key)).Nodup
  ordered : BatchCache.Ordered w.bc.entries
  fresh : ∀ ent ∈ w.bc.entries, ent.expiry ≤ w.now + w.bc.ttl
  sole : Custody.Sole Request.holds w.bc.values w.requests
  ready : ∀ ent ∈ w.bc.entries, Ready w.bc.batches ent.value
  held : ∀ r ∈ w.requests, Held w.bc.batches r

variable {w next : Sessions} {request : Nat} {r moved : Request} {b : Nat}

theorem start_core (ttl maxLen now : Int) : (start ttl maxLen now).Core where
  keys := nodup_nil
  ordered := List.Pairwise.nil
  fresh := nofun
  sole := fun _ => Nat.zero_le 1
  ready := nofun
  held := nofun

namespace Core

variable (core : w.Core)
include core

theorem inside : w.bc.batches.length ∉ w.bc.values ∧
    ∀ r ∈ w.requests, r.holds ≠ some w.bc.batches.length := by
  have beyond : w.bc.batches[w.bc.batches.length]? = none := getElem?_eq_none (Nat.le_refl _)
  constructor
  · intro member
    obtain ⟨ent, cached, same⟩ := mem_map.mp member
    obtain ⟨c, found, -⟩ := core.ready ent cached
    rw [same, beyond] at found
    cases found
  · intro r member holds
    obtain ⟨c, found, -⟩ := core.held r member _ holds
    rw [beyond] at found
    cases found

theorem shed {bc : BatchCache} (sheds : BatchCache.Sheds w.bc bc) :
    ({ w with bc := bc } : Sessions).Core where
  keys := core.keys.sublist (sheds.entries.map _)
  ordered := core.ordered.sublist sheds.entries
  fresh := by
    intro ent member
    rw [sheds.ttl]
    exact core.fresh ent (sheds.entries.subset member)
  sole := core.sole.shed sheds.values
  ready := fun ent member => (core.ready ent (sheds.entries.subset member)).congr
    (sheds.others _ (.inr (BatchCache.Sheds.mem_values member)))
  held := fun r member => (core.held r member).congr
    (fun _ holds => sheds.others _ (.inl (core.sole.notMem member holds)))

section

variable (found : w.requests[request]? = some r)
include found

theorem put (keeps : ∀ b, moved.holds = some b → r.holds = some b)
    (held : Held w.bc.batches moved) :
    (w.put request moved).Core :=
  { core with
    sole := core.sole.keep found keeps
    held := forall_moved core.held held }

theorem advance {stage : Stage} (holds : r.holds = some b)
    (still : ({ r with stage := stage } : Request).holds = some b)
    (read : stage = .clean b → ∀ c, w.bc.batches[b]? = some c → c.hasUnreadData = false) :
    (w.put request { r with stage := stage }).Core := by
  refine core.put found (fun _ keeps => holds.trans (still.symm.trans keeps)) ?_
  intro other holdsToo
  cases still.symm.trans holdsToo
  obtain ⟨c, there, isOpen, cancel, _⟩ := core.held r (mem_of_getElem? found) b holds
  exact ⟨c, there, isOpen, cancel, fun clean => read clean c there⟩

theorem modify (holds : r.holds = some b) (change : Processes → Processes)
    (keeps : ∀ b, moved.holds = some b → r.holds = some b)
    (held : Held (w.bc.batches.modify b change) moved) :
    ((w.modify b change).put request moved).Core := by
  have elsewhere : ∀ other, other ≠ b →
      (w.bc.batches.modify b change)[other]? = w.bc.batches[other]? :=
    fun other different => getElem?_modify_ne _ _ different.symm
  refine { core with
    sole := core.sole.keep found keeps
    ready := ?_
    held := ?_ }
  · intro ent member
    refine (core.ready ent member).congr (elsewhere _ (fun same => ?_))
    exact core.sole.notMem (mem_of_getElem? found) holds
      (same ▸ BatchCache.Sheds.mem_values member)
  · have kept : ∀ (place : Nat) other, (w.requests.set request moved)[place]? = some other →
        Held (w.bc.batches.modify b change) other := by
      refine indexed_moved (fun place other different there => ?_) held
      refine (core.held other (mem_of_getElem? there)).congr (fun theirs holdsToo => ?_)
      refine elsewhere theirs (fun same => different ?_)
      exact core.sole.unique there found holdsToo (same ▸ holds)
    intro other member
    obtain ⟨place, there⟩ := mem_iff_getElem?.mp member
    exact kept place other there

theorem spawn (key : moved.key = r.key) (serving : moved.stage = .serving w.bc.batches.length) :
    ((w.newBatch r.key.isSome).put request moved).Core := by
  have same : ∀ b c, w.bc.batches[b]? = some c → (w.newBatch r.key.isSome).bc.batches[b]? =
      w.bc.batches[b]? :=
    fun b c there => List.getElem?_append_left (List.getElem?_eq_some_iff.mp there).1
  have holds : moved.holds = some w.bc.batches.length := by simp [Request.holds, serving]
  refine { core with
    sole := core.sole.acquire found holds core.inside.1 core.inside.2
    ready := ?_
    held := forall_moved ?_ ?_ }
  · intro ent member
    obtain ⟨c, there, _⟩ := core.ready ent member
    exact (core.ready ent member).congr (same _ c there)
  · intro other member
    refine (core.held other member).congr (fun b holds => ?_)
    obtain ⟨c, there, _⟩ := core.held other member b holds
    exact same b c there
  · intro b holdsToo
    cases holds.symm.trans holdsToo
    refine ⟨_, getElem?_concat_length, rfl, fun isSome => ?_, fun clean => ?_⟩
    · rw [← key]
      exact isSome
    · rw [serving] at clean
      cases clean

end

theorem checkout {before after : List CacheEntry} {ent : CacheEntry}
    (split : w.bc.entries = before ++ ent :: after) (key : Option CacheKey) :
    ({ w with
      bc := { w.bc with entries := before ++ after }
      requests := w.requests ++ [⟨key, .serving ent.value⟩] } : Sessions).Core := by
  have inner : (before ++ after).Sublist w.bc.entries := by
    rw [split]
    exact (List.Sublist.refl before).append (sublist_cons_self ent after)
  have here : ent ∈ w.bc.entries := by simp [split]
  refine {
    keys := core.keys.sublist (inner.map _)
    ordered := core.ordered.sublist inner
    fresh := fun other member => core.fresh other (inner.subset member)
    sole := ?_
    ready := fun other member => core.ready other (inner.subset member)
    held := forall_joined core.held ?_ }
  · have sole := core.sole
    rw [BatchCache.values, split, map_append, map_cons] at sole
    rw [BatchCache.values, map_append]
    exact sole.checkout rfl
  · rintro b ⟨⟩
    obtain ⟨c, found, isOpen, cancel, _⟩ := core.ready ent here
    exact ⟨c, found, isOpen, fun _ => cancel, by simp⟩

theorem join (key : Option CacheKey) :
    ({ w with requests := w.requests ++ [⟨key, .spawning⟩] } : Sessions).Core :=
  { core with
    sole := core.sole.join rfl
    held := forall_joined core.held nofun }

theorem append (found : w.requests[request]? = some r) {k : CacheKey} (key : r.key = some k)
    (clean : r.stage = .clean b) (unlike : ∀ ent ∈ w.bc.entries, ent.key ≠ k)
    (gives : moved.holds = none) :
    ({ w with bc := w.bc.append w.now k b }.put request moved).Core := by
  have holds : r.holds = some b := by simp [Request.holds, clean]
  refine {
    keys := ?_
    ordered := ?_
    fresh := ?_
    sole := ?_
    ready := ?_
    held := forall_moved core.held (fun b holds => ?_) }
  · change ((w.bc.entries ++ [_]).map _).Nodup
    rw [map_append, map_singleton, ← concat_eq_append]
    refine core.keys.concat (fun member => ?_)
    obtain ⟨ent, cached, same⟩ := mem_map.mp member
    exact unlike ent cached same
  · refine pairwise_append.mpr ⟨core.ordered, pairwise_singleton _ _, ?_⟩
    intro ent member last isLast
    rw [mem_singleton.mp isLast]
    exact core.fresh ent member
  · exact forall_joined core.fresh (Int.le_refl _)
  · change Custody.Sole Request.holds ((w.bc.entries ++ [_]).map _) _
    rw [map_append, map_singleton]
    exact core.sole.put found holds gives
  · refine forall_joined core.ready ?_
    obtain ⟨c, there, isOpen, cancel, read⟩ := core.held r (mem_of_getElem? found) b holds
    exact ⟨c, there, isOpen, cancel (by rw [key]; rfl), read clean⟩
  · rw [gives] at holds
    cases holds

end Core

theorem put_self (found : w.requests[request]? = some r) : w.put request r = w := by
  obtain ⟨inside, rfl⟩ := List.getElem?_eq_some_iff.mp found
  unfold put
  rw [set_getElem_self]

theorem BatchProcess_cases (w : Sessions) (sessionID : String) (repo : GitRepo) :
    (∃ key, w.BatchProcess sessionID repo =
      { w with requests := w.requests ++ [⟨key, .spawning⟩] }) ∨
    ∃ before ent after, w.bc.entries = before ++ ent :: after ∧
      ent.key = newCacheKey sessionID repo ∧ w.BatchProcess sessionID repo = { w with
        bc := { w.bc with entries := before ++ after }
        requests := w.requests ++ [⟨some ent.key, .serving ent.value⟩] } := by
  unfold BatchProcess
  split
  · exact .inl ⟨none, rfl⟩
  dsimp only
  unfold BatchCache.checkout
  cases found : w.bc.lookup (newCacheKey sessionID repo) with
  | none => exact .inl ⟨some (newCacheKey sessionID repo), rfl⟩
  | some i =>
    obtain ⟨before, ent, after, split, rfl, same⟩ := BatchCache.lookup_split found
    refine .inr ⟨before, ent, after, split, same, ?_⟩
    have here : w.bc.entries[before.length]? = some ent := by simp [split]
    dsimp only
    rw [← same, here, BatchCache.delete_split split]
    rfl

/-- The cache is within its limit after every operation. -/
structure Inv (cap : Nat) (w : Sessions) : Prop extends Core w where
  limit : w.bc.maxLen = cap
  short : w.bc.entries.length ≤ cap

namespace Inv

variable {cap : Nat}

theorem same (inv : w.Inv cap) (core : next.Core) (limit : next.bc.maxLen = w.bc.maxLen)
    (entries : next.bc.entries = w.bc.entries) : next.Inv cap :=
  { core with
    limit := limit.trans inv.limit
    short := by
      rw [entries]
      exact inv.short }

theorem shed (inv : w.Inv cap) {bc : BatchCache} (sheds : BatchCache.Sheds w.bc bc) :
    ({ w with bc := bc } : Sessions).Inv cap :=
  { inv.toCore.shed sheds with
    limit := sheds.maxLen.trans inv.limit
    short := sheds.entries.length_le.trans inv.short }

theorem batchProcess (inv : w.Inv cap) (sessionID : String) (repo : GitRepo) :
    (w.BatchProcess sessionID repo).Inv cap := by
  rcases BatchProcess_cases w sessionID repo with
    ⟨key, result⟩ | ⟨before, ent, after, split, _, result⟩
  · rw [result]
    exact inv.same (inv.toCore.join key) rfl rfl
  rw [result]
  have short := inv.short
  rw [split, length_append, length_cons] at short
  exact { inv.toCore.checkout split (some ent.key) with
    limit := inv.limit
    short := by
      rw [length_append]
      omega }

section

variable (inv : w.Inv cap) (found : w.requests[request]? = some r)
include inv found

theorem call (calls : r.calls = some b) (git : Git) (op : Op) :
    (w.modify b (fun c => { c with batch := Catfile.step git c.batch op })).Inv cap := by
  obtain ⟨holds, unchecked⟩ := Request.calls_eq_some calls
  have held : Held (w.bc.batches.modify b
      (fun c => { c with batch := Catfile.step git c.batch op })) r := by
    intro other holdsToo
    cases holds.symm.trans holdsToo
    obtain ⟨c, there, isOpen, cancel, _⟩ := inv.held r (mem_of_getElem? found) b holds
    refine ⟨{ c with batch := Catfile.step git c.batch op }, ?_, isOpen, cancel,
      fun clean => absurd clean (unchecked b)⟩
    rw [getElem?_modify_eq, there]
    rfl
  have modified := inv.toCore.modify found holds _ (fun _ keeps => keeps) held
  have stays : (w.modify b (fun c => { c with batch := Catfile.step git c.batch op })).put request
      r = w.modify b (fun c => { c with batch := Catfile.step git c.batch op }) := put_self found
  rw [stays] at modified
  exact inv.same modified rfl rfl

theorem add {k : CacheKey} (key : r.key = some k) (clean : r.stage = .clean b)
    (gives : moved.holds = none) :
    ({ w with bc := w.bc.add w.now k b }.put request moved).Inv cap := by
  have holds : r.holds = some b := by simp [Request.holds, clean]
  have absent := inv.sole.notMem (mem_of_getElem? found) holds
  obtain ⟨middle, first, unlike, second, short⟩ :=
    BatchCache.add_spec inv.sole.nodup inv.keys absent w.now k
  have appended := Core.append (inv.toCore.shed first) found key clean unlike gives
  exact { appended.shed second with
    limit := (second.maxLen.trans first.maxLen).trans inv.limit
    short := short.trans inv.limit.le }

theorem returnWhenDone (taken : w.returnWhenDone request r = some next) : next.Inv cap := by
  unfold Sessions.returnWhenDone at taken
  split at taken
  · rename_i b finished
    obtain ⟨c, there, rfl⟩ := map_eq_some_iff.mp taken
    have holds : r.holds = some b := by simp [Request.holds, finished]
    -- nothing closes a batch that a request holds
    obtain ⟨_, isThere, isOpen, _⟩ := inv.held r (mem_of_getElem? found) b holds
    cases there.symm.trans isThere
    rw [Processes.isClosed, isOpen]
    exact inv.same (inv.toCore.advance found holds rfl nofun) rfl rfl
  · rename_i b unclosed
    obtain ⟨c, there, rfl⟩ := map_eq_some_iff.mp taken
    have holds : r.holds = some b := by simp [Request.holds, unclosed]
    cases unread : c.hasUnreadData with
    | true => exact inv.same (inv.toCore.advance found holds rfl nofun) rfl rfl
    | false =>
      refine inv.same (inv.toCore.advance found holds rfl (fun _ same isThere => ?_)) rfl rfl
      cases there.symm.trans isThere
      exact unread
  · rename_i b dirty
    cases taken
    have holds : r.holds = some b := by simp [Request.holds, dirty]
    exact inv.same (inv.toCore.modify found holds .Close nofun nofun) rfl rfl
  · rename_i b clean
    obtain ⟨k, key, rfl⟩ := map_eq_some_iff.mp taken
    exact inv.add found key clean rfl
  · cases taken

end

end Inv

theorem step_inv {cap : Nat} {event : CacheEvent} (inv : w.Inv cap)
    (taken : w.step event = some next) : next.Inv cap := by
  cases event with
  | tick elapsed =>
    cases taken
    exact { inv with
      fresh := fun ent member => (inv.fresh ent member).trans (by dsimp only; omega) }
  | batchProcess sessionID repo =>
    cases taken
    exact inv.batchProcess sessionID repo
  | spawn request fails =>
    obtain ⟨r, found, taken⟩ := bind_eq_some_iff.mp taken
    repeat' split at taken
    · cases taken
      exact inv.same (inv.toCore.put found nofun nofun) rfl rfl
    · cases taken
      exact inv.same (inv.toCore.spawn found rfl rfl) rfl rfl
    · cases taken
  | call request git op =>
    simp only [step, bind_eq_some_iff, map_eq_some_iff] at taken
    obtain ⟨r, found, b, calls, rfl⟩ := taken
    exact inv.call found calls git op
  | done request =>
    obtain ⟨r, found, taken⟩ := bind_eq_some_iff.mp taken
    split at taken
    · rename_i b serving
      have holds : r.holds = some b := by simp [Request.holds, serving]
      split at taken
      · cases taken
        exact inv.same (inv.toCore.advance found holds rfl nofun) rfl rfl
      · cases taken
        exact inv.same (inv.toCore.modify found holds _ nofun nofun) rfl rfl
    · cases taken
  | returnWhenDone request =>
    obtain ⟨r, found, taken⟩ := bind_eq_some_iff.mp taken
    exact inv.returnWhenDone found taken
  | enforceTTL now =>
    cases taken
    exact inv.shed (BatchCache.enforceTTL_spec inv.sole.nodup inv.ordered now).1
  | evict =>
    cases taken
    exact inv.shed (BatchCache.Evict_spec inv.sole.nodup).1

theorem inv_of_reaches {ttl maxLen now : Int}
    (reached : Runs.Reaches step (start ttl maxLen now) w) :
    w.Inv (if maxLen ≤ 0 then defaultMaxLen else maxLen.toNat) :=
  reached.invariant (Inv _) (fun _ _ _ => step_inv)
    { start_core ttl maxLen now with
      limit := rfl
      short := Nat.zero_le _ }

/-- What holds of the cache and the requests at any time. -/
structure Sound (maxLen : Int) (w : Sessions) : Prop where
  keys : (w.bc.entries.map (·.key)).Nodup
  ordered : w.bc.entries.Pairwise (fun first second => first.expiry ≤ second.expiry)
  short : w.bc.entries.length ≤ if maxLen ≤ 0 then 100 else maxLen.toNat
  notShared : ∀ (i j : Nat) (first second : Request) (b : Nat), w.requests[i]? = some first →
    w.requests[j]? = some second → first.holds = some b → second.holds = some b → i = j
  notCached : ∀ r ∈ w.requests, ∀ b, r.holds = some b → b ∉ w.bc.entries.map (·.value)

/-- What a step does to the cache. -/
structure SoundStep (w : Sessions) (event : CacheEvent) (next : Sessions) : Prop where
  expired : ∀ now, event = .enforceTTL now → ∀ ent ∈ next.bc.entries, ¬ ent.expiry < now
  returned : ∀ request, event = .returnWhenDone request →
    ∀ ent ∈ next.bc.entries, ent ∉ w.bc.entries →
      ∃ c, next.bc.batches[ent.value]? = some c ∧ c.closed = false ∧ c.hasUnreadData = false
  left : ∀ ent ∈ w.bc.entries, ent.value ∉ next.bc.entries.map (·.value) →
    Closed next.bc.batches ent.value ∨
      ∃ sessionID repo, event = .batchProcess sessionID repo ∧
        ent.key = newCacheKey sessionID repo ∧
        next.requests = w.requests ++ [⟨some ent.key, .serving ent.value⟩]

theorem Core.shed_left (core : w.Core) {bc : BatchCache} (sheds : BatchCache.Sheds w.bc bc)
    {ent : CacheEntry} (member : ent ∈ w.bc.entries)
    (gone : ent.value ∉ bc.values) : Closed bc.batches ent.value :=
  Ready.close (core.ready ent member)
    (sheds.closed ent member (fun still => gone (BatchCache.Sheds.mem_values still)))

theorem Core.add_left (core : w.Core) {b : Nat} (absent : b ∉ w.bc.values) (k : CacheKey)
    {ent : CacheEntry} (member : ent ∈ w.bc.entries)
    (gone : ent.value ∉ (w.bc.add w.now k b).values) :
    Closed (w.bc.add w.now k b).batches ent.value := by
  obtain ⟨middle, first, _, second, _⟩ :=
    BatchCache.add_spec core.sole.nodup core.keys absent w.now k
  by_cases between : ent ∈ middle.entries
  · have ready := (core.shed first).ready ent between
    refine Ready.close ready (second.closed ent (mem_append_left _ between) ?_)
    exact fun still => gone (BatchCache.Sheds.mem_values still)
  · have without := first.notMem_values core.sole.nodup member between
    have same := second.others ent.value (.inl (fun appended => by
      rw [BatchCache.values, BatchCache.append, map_append, mem_append,
        map_singleton, mem_singleton] at appended
      rcases appended with still | isNew
      · exact without still
      · have same : ent.value = b := isNew
        exact absent (same ▸ BatchCache.Sheds.mem_values member)))
    have closed := core.shed_left first member without
    unfold Closed
    rw [same]
    exact closed

theorem step_left {event : CacheEvent} (core : w.Core) (taken : w.step event = some next)
    {ent : CacheEntry} (member : ent ∈ w.bc.entries) (gone : ent.value ∉ next.bc.values) :
    Closed next.bc.batches ent.value ∨
      ∃ sessionID repo, event = .batchProcess sessionID repo ∧
        ent.key = newCacheKey sessionID repo ∧
        next.requests = w.requests ++ [⟨some ent.key, .serving ent.value⟩] := by
  have still : next.bc.entries = w.bc.entries → False := by
    intro same
    rw [BatchCache.values, same] at gone
    exact gone (mem_map_of_mem member)
  cases event with
  | tick elapsed =>
    cases taken
    exact (still rfl).elim
  | batchProcess sessionID repo =>
    cases taken
    rcases BatchProcess_cases w sessionID repo with
      ⟨key, result⟩ | ⟨before, taken, after, split, isKey, result⟩
    · rw [result] at still
      exact (still rfl).elim
    rw [result] at gone ⊢
    obtain rfl : ent = taken := by
      rw [split, mem_append, mem_cons] at member
      by_contra different
      refine gone (mem_map_of_mem (mem_append.mpr ?_))
      tauto
    exact .inr ⟨sessionID, repo, rfl, isKey, rfl⟩
  | returnWhenDone request =>
    obtain ⟨r, found, taken⟩ := bind_eq_some_iff.mp taken
    unfold Sessions.returnWhenDone at taken
    split at taken
    · obtain ⟨c, there, rfl⟩ := map_eq_some_iff.mp taken
      exact (still rfl).elim
    · obtain ⟨c, there, rfl⟩ := map_eq_some_iff.mp taken
      exact (still rfl).elim
    · cases taken
      exact (still rfl).elim
    · rename_i b clean
      obtain ⟨k, key, rfl⟩ := map_eq_some_iff.mp taken
      have holds : r.holds = some b := by simp [Request.holds, clean]
      have absent := core.sole.notMem (mem_of_getElem? found) holds
      exact .inl (core.add_left absent k member gone)
    · cases taken
  | enforceTTL now =>
    cases taken
    exact .inl (core.shed_left
      (BatchCache.enforceTTL_spec core.sole.nodup core.ordered now).1 member gone)
  | evict =>
    cases taken
    exact .inl (core.shed_left (BatchCache.Evict_spec core.sole.nodup).1 member gone)
  | call request git op =>
    simp only [step, bind_eq_some_iff, map_eq_some_iff] at taken
    obtain ⟨r, found, b, calls, rfl⟩ := taken
    exact (still rfl).elim
  | spawn | done =>
    obtain ⟨r, found, taken⟩ := bind_eq_some_iff.mp taken
    repeat' split at taken
    all_goals first | cases taken; exact (still rfl).elim | cases taken

theorem cache_sound {ttl maxLen now : Int} (reached : Runs.Reaches step (start ttl maxLen now) w) :
    w.Sound maxLen ∧ ∀ event next, w.step event = some next → SoundStep w event next := by
  have inv := inv_of_reaches reached
  constructor
  · exact {
      keys := inv.keys
      ordered := inv.ordered
      short := inv.short
      notShared := fun i j first second b found there => inv.sole.unique found there
      notCached := fun r member b holds => inv.sole.notMem member holds }
  · intro event next taken
    have later := step_inv inv taken
    exact {
      expired := by
        rintro now rfl
        cases taken
        exact (BatchCache.enforceTTL_spec inv.sole.nodup inv.ordered now).2
      returned := by
        intro _ _ ent member _
        obtain ⟨c, found, isOpen, _, read⟩ := later.ready ent member
        exact ⟨c, found, isOpen, read⟩
      left := fun ent member gone => step_left inv.toCore taken member gone }

/-- Two requests of one session at a time start a batch each; the one that is returned later takes
the place of the other one. -/
def twins : List CacheEvent :=
  [.batchProcess "session" ⟨"default", "repo.git", "", []⟩,
    .batchProcess "session" ⟨"default", "repo.git", "", []⟩, .spawn 0 false, .spawn 1 false,
    .done 0, .done 1, .returnWhenDone 0, .returnWhenDone 0, .returnWhenDone 0, .tick 3,
    .returnWhenDone 1, .returnWhenDone 1, .returnWhenDone 1]

theorem twins_sound :
    ∃ w, Runs.exec step (start 10 2 0) twins = some w ∧ w.bc.entries.map (·.value) = [1] ∧
      Closed w.bc.batches 0 ∧ w.Sound 2 ∧
      ∀ event next, w.step event = some next → SoundStep w event next :=
  ⟨_, rfl, rfl, ⟨_, rfl, rfl, rfl⟩, cache_sound ⟨twins, rfl⟩⟩

end Sessions

end Gitaly.Catfile
