import Gitaly.Praefect.CoordinatorQuorum

/- The errors of the nodes that run a mutator: how the proxy comes by them, how the error
handlers of the coordinator record them, and what comes of comparing them. -/
namespace Gitaly.Praefect

open Transactions Runs List Option

/-- What a gRPC status error says. -/
structure Status where
  code : UInt32
  message : String
  deriving DecidableEq

/-- Values of the type `error`, which compare by the pointer they hold. The errors that a
package declares are the same for everybody who meets them; `RecvMsg` makes a new object for
every status that it returns. -/
inductive GoError where
  | eof
  | declared (text : String)
  | object (address : Nat)
  deriving DecidableEq

/-- What a call on a stream returns. -/
inductive Returned where
  | nil
  | eof
  | declared (text : String)
  | status (status : Status)
  deriving DecidableEq

/-- What `RecvMsg` returns: never an error that a package declares, except for `io.EOF`. -/
inductive RecvMsg where
  | frame
  | eof
  | status (status : Status)
  deriving DecidableEq

def RecvMsg.returned : RecvMsg → Returned
  | .frame => .nil
  | .eof => .eof
  | .status said => .status said

/-- Of two calls, the second one is made if the first one succeeds. -/
def Returned.andThen : Returned → Returned → Returned
  | .nil, next => next
  | err, _ => err

inductive Phase where
  | initiating
  | proxying
  /-- A stream could not be created, and the handler has returned. -/
  | failed
  deriving DecidableEq

/-- `heap` holds the status errors, `ended` how the loop of each destination has ended. The
handlers write to `errByNode`, the latest entry of a node first. -/
structure Streams where
  phase : Phase
  heap : List Status
  ended : List (String × GoError)
  errByNode : List (String × GoError)
  /-- The frames that the client has got from the primary. -/
  i : Nat
  /-- A call on the stream to the client has ended the loop of the primary. -/
  clientFailed : Bool
  deriving DecidableEq

inductive ProxyEvent where
  | initiate
  | initiateFails (text : String)
  /-- An iteration of `forwardPrimaryToClient`, with what its calls return if they are made. -/
  | forward (recvMsg : RecvMsg) (header sendHeader sendMsg : Returned)
  /-- An iteration of the loop in `receiveSecondaryStreams`. -/
  | receive (secondary : String) (recvMsg : RecvMsg)
  deriving DecidableEq

namespace Streams

def start : Streams := ⟨.initiating, [], [], [], 0, false⟩

variable (s : Streams)

/-- The error value that is returned, a new one for a status. -/
def raise : Returned → Option (Streams × GoError)
  | .nil => none
  | .eof => some (s, .eof)
  | .declared text => some (s, .declared text)
  | .status status => some ({ s with heap := s.heap ++ [status] }, .object s.heap.length)

variable (node : String)

/-- `ErrHandler` of a destination. -/
def errHandler (err : GoError) : Streams := { s with errByNode := (node, err) :: s.errByNode }

/-- The end of a loop, which hands every error but `io.EOF` to the handler. -/
def finish (err : GoError) : Streams :=
  let s := if err = .eof then s else s.errHandler node err
  { s with ended := (node, err) :: s.ended }

variable (route : RepositoryMutatorRoute)

/-- All destinations fail with the same error. -/
def failDestinationsWithError (err : GoError) :
    Streams :=
  (routerNodesToStorages (route.primary :: route.secondaries)).foldl
    (fun s node => s.errHandler node err) s

/-- The loop of the destination is running. -/
def Running : Prop := s.phase = .proxying ∧ s.ended.lookup node = none

instance (s : Streams) (node : String) : Decidable (s.Running node) :=
  inferInstanceAs (Decidable (_ ∧ _))

/-- One iteration ends the loop, or does not. -/
def iterate (returned : Returned) : Streams :=
  match s.raise returned with
  | none => s
  | some (s, err) => s.finish node err

def step (s : Streams) : ProxyEvent → Option Streams
  | .initiate => if s.phase = .initiating then some { s with phase := .proxying } else none
  | .initiateFails text =>
    if s.phase = .initiating then
      some { s.failDestinationsWithError route (.declared text) with phase := .failed }
    else none
  | .forward recvMsg header sendHeader sendMsg =>
    if s.Running route.primary.storage then
      let received := recvMsg.returned.andThen (if s.i = 0 then header else .nil)
      let sent := if s.i = 0 then sendHeader.andThen sendMsg else sendMsg
      some { s.iterate route.primary.storage (received.andThen sent) with
        i := s.i + 1, clientFailed := received = .nil ∧ sent ≠ .nil }
    else none
  | .receive secondary recvMsg =>
    if secondary ∈ routerNodesToStorages route.secondaries ∧ s.Running secondary then
      some (s.iterate secondary recvMsg.returned)
    else none

/-- The error that has ended the loop of a destination; the end of a stream is none. -/
def raised : Option GoError := (s.ended.lookup node).filter (fun err => err ≠ .eof)

/-- The error that the stream of a destination has returned to the proxy. What ends the loop of
the primary may also come from the stream to the client. -/
def returned : Option GoError :=
  if s.clientFailed = true ∧ node = route.primary.storage then none else s.raised node

variable (secondary : String)

/-- The streams of the primary and a secondary have returned a status error, of the same code and
message. -/
def SameStatus : Prop :=
  ∃ left right status, s.returned route.primary.storage route = some (.object left) ∧
    s.returned secondary route = some (.object right) ∧
    s.heap[left]? = some status ∧ s.heap[right]? = some status

/-- A message of the primary could not be sent to the client, which is recorded as an error of the
primary, and the stream of a secondary has returned no error. -/
def ClientGone : Prop :=
  s.clientFailed = true ∧ s.raised route.primary.storage ≠ none ∧
    s.returned secondary route = none

/-- A secondary that failed exactly like the primary, or succeeded like it, is updated, and
every other one is outdated. -/
def RightlyClassified (c : Classification) : Prop :=
  (s.returned route.primary.storage route = none ∧ s.returned secondary route = none ∨
      s.SameStatus route secondary → secondary ∈ c.updated) ∧
    (¬ (s.returned route.primary.storage route = none ∧ s.returned secondary route = none ∨
      s.SameStatus route secondary) → secondary ∈ c.outdated)

/-- The handlers have recorded what has ended the loops, and no two streams return the same
object. -/
structure Recorded (route : RepositoryMutatorRoute) (s : Streams) : Prop where
  recorded : s.phase ≠ .failed → ∀ node, s.errByNode.lookup node = s.raised node
  bounded : ∀ node address, s.raised node = some (.object address) → address < s.heap.length
  apart : ∀ first second address, s.raised first = some (.object address) →
    s.raised second = some (.object address) → first = second
  plain : ∀ node text, node ≠ route.primary.storage → s.raised node ≠ some (.declared text)

section iterate

variable {route : RepositoryMutatorRoute} {s : Streams} {node : String}

theorem start_recorded : start.Recorded route where
  recorded _ _ := rfl
  bounded _ _ none := by cases none
  apart _ _ _ none := by cases none
  plain _ _ _ none := by cases none

theorem lookup_cons_ite {α : Type} (key other : String) (value : α) (rows : List (String × α)) :
    ((key, value) :: rows).lookup other =
      if other = key then some value else rows.lookup other := by
  rw [lookup_cons]
  by_cases same : other = key
  · simp only [same, BEq.rfl, ↓reduceIte]
  · simp only [beq_false_of_ne same, same, ↓reduceIte]

theorem finish_raised (err : GoError) (other : String) :
    (s.finish node err).raised other =
      if other = node then (if err = .eof then none else some err) else s.raised other := by
  have ended : (s.finish node err).ended = (node, err) :: s.ended := by
    unfold finish
    split <;> rfl
  unfold raised
  rw [ended, lookup_cons_ite]
  split
  · by_cases isEOF : err = .eof <;> simp [isEOF]
  · rfl

theorem Recorded.finish (recorded : s.Recorded route) (running : s.Running node) {err : GoError}
    (fresh : ∀ other address, err = .object address →
      s.raised other = some (.object address) → other = node)
    (bounded : ∀ address, err = .object address → address < s.heap.length)
    (plain : ∀ text, err = .declared text → node = route.primary.storage) :
    (s.finish node err).Recorded route := by
  have heap : (s.finish node err).heap = s.heap := by
    unfold Streams.finish
    split <;> rfl
  have ends : ∀ other value, (s.finish node err).raised other = some value →
      other = node ∧ err = value ∨ s.raised other = some value := by
    intro other value ended
    rw [finish_raised] at ended
    split at ended
    · rename_i same
      split at ended
      · cases ended
      · exact .inl ⟨same, Option.some.inj ended⟩
    · exact .inr ended
  refine ⟨?_, ?_, ?_, ?_⟩
  · intro _ other
    have before := recorded.recorded (by rw [running.1]; decide)
    have unrecorded : s.errByNode.lookup node = none := by
      rw [before, raised, running.2]
      rfl
    rw [finish_raised]
    by_cases isEOF : err = .eof
    · have unchanged : (s.finish node err).errByNode = s.errByNode := by
        simp only [Streams.finish, isEOF, ↓reduceIte]
      rw [unchanged, if_pos isEOF]
      split
      · rename_i same
        rw [same, unrecorded]
      · exact before other
    · have written : (s.finish node err).errByNode = (node, err) :: s.errByNode := by
        simp only [Streams.finish, isEOF, ↓reduceIte, errHandler]
      rw [written, lookup_cons_ite, if_neg isEOF, before]
  · intro other address ended
    rw [heap]
    rcases ends other _ ended with ⟨-, isErr⟩ | before
    · exact bounded address isErr
    · exact recorded.bounded other address before
  · intro first second address left right
    rcases ends first _ left with ⟨isFirst, isErr⟩ | before
    · rcases ends second _ right with ⟨isSecond, -⟩ | other
      · rw [isFirst, isSecond]
      · rw [isFirst, fresh second address isErr other]
    · rcases ends second _ right with ⟨isSecond, isErr⟩ | other
      · rw [isSecond, fresh first address isErr before]
      · exact recorded.apart first second address before other
  · intro other text secondary ended
    rcases ends other _ ended with ⟨same, isErr⟩ | before
    · exact secondary (same.trans (plain text isErr))
    · exact recorded.plain other text secondary before

theorem Recorded.iterate (recorded : s.Recorded route) (running : s.Running node)
    {result : Returned} (plain : ∀ text, result = .declared text → node = route.primary.storage) :
    (s.iterate node result).Recorded route := by
  cases result with
  | nil => exact recorded
  | eof =>
    exact recorded.finish running (fun _ _ isErr => by cases isErr)
      (fun _ isErr => by cases isErr)
      (fun _ isErr => by cases isErr)
  | declared text =>
    exact recorded.finish running (fun _ _ isErr => by cases isErr)
      (fun _ isErr => by cases isErr)
      (fun _ _ => plain text rfl)
  | status said =>
    have grown : Recorded route { s with heap := s.heap ++ [said] } := by
      refine ⟨recorded.recorded, fun other address ended => ?_, recorded.apart, recorded.plain⟩
      have inside := recorded.bounded other address ended
      rw [length_append]
      omega
    refine grown.finish running ?_ ?_ (fun _ isErr => by cases isErr)
    · -- The address is new.
      intro other address isErr ended
      cases isErr
      exact absurd (recorded.bounded other _ ended) (Nat.lt_irrefl _)
    · intro address isErr
      cases isErr
      simp only [length_append, length_singleton]
      omega

/-- The handlers that record the failure of a stream touch no stream. -/
theorem failDestinationsWithError_frame (s : Streams) (route : RepositoryMutatorRoute)
    (err : GoError) : (s.failDestinationsWithError route err).ended = s.ended ∧
      (s.failDestinationsWithError route err).heap = s.heap := by
  unfold failDestinationsWithError
  generalize routerNodesToStorages (route.primary :: route.secondaries) = nodes
  induction nodes generalizing s with
  | nil => exact ⟨rfl, rfl⟩
  | cons node nodes ih => exact ih (s.errHandler node err)

theorem step_recorded {event : ProxyEvent} {next : Streams} (recorded : s.Recorded route)
    (taken : s.step route event = some next) : next.Recorded route := by
  cases event with
  | initiate =>
    simp only [step, ite_none_right_eq_some, some.injEq] at taken
    obtain ⟨initiating, rfl⟩ := taken
    exact ⟨fun _ => recorded.recorded (by rw [initiating]; decide), recorded.bounded,
      recorded.apart, recorded.plain⟩
  | initiateFails text =>
    simp only [step, ite_none_right_eq_some, some.injEq] at taken
    obtain ⟨-, rfl⟩ := taken
    obtain ⟨ended, heap⟩ := failDestinationsWithError_frame s route (.declared text)
    have same : ∀ node, raised { s.failDestinationsWithError route (.declared text) with
        phase := .failed } node = s.raised node := by
      intro node
      unfold raised
      rw [← ended]
    refine ⟨fun running => absurd rfl running, ?_, ?_, ?_⟩ <;> simp only [same]
    · rw [heap]
      exact recorded.bounded
    · exact recorded.apart
    · exact recorded.plain
  | forward recvMsg header sendHeader sendMsg =>
    simp only [step, ite_none_right_eq_some, some.injEq] at taken
    obtain ⟨running, rfl⟩ := taken
    generalize Returned.andThen (recvMsg.returned.andThen _) _ = result
    have iterated : (s.iterate route.primary.storage result).Recorded route :=
      recorded.iterate running (fun _ _ => rfl)
    exact ⟨iterated.recorded, iterated.bounded, iterated.apart, iterated.plain⟩
  | receive secondary recvMsg =>
    simp only [step, ite_none_right_eq_some, some.injEq] at taken
    obtain ⟨⟨-, running⟩, rfl⟩ := taken
    refine recorded.iterate running (fun text declared => ?_)
    cases recvMsg <;> cases declared

theorem recorded_of_reaches (reached : Reaches (step route) start s) : s.Recorded route :=
  reached.invariant (Recorded route) (fun _ _ _ recorded taken => step_recorded recorded taken)
    start_recorded

/-- No two loops end with the same error. -/
theorem Recorded.raised_eq_iff (recorded : s.Recorded route)
    (secondary : node ≠ route.primary.storage) :
    s.raised node = s.raised route.primary.storage ↔
      s.raised route.primary.storage = none ∧ s.raised node = none := by
  constructor
  · intro same
    cases primary : s.raised route.primary.storage with
    | none => exact ⟨rfl, same.trans primary⟩
    | some err =>
      rw [primary] at same
      cases err with
      | eof =>
        have kept := (filter_eq_some_iff.mp same).2
        exact absurd kept (by decide)
      | declared text => exact absurd same (recorded.plain node text secondary)
      | object address => exact absurd (recorded.apart _ _ address same primary) secondary
  · rintro ⟨primary, same⟩
    rw [primary, same]

/-- A secondary whose recorded error is compared with that of the primary. -/
theorem Recorded.classified_iff (recorded : s.Recorded route)
    (secondary : node ≠ route.primary.storage) {c : Classification}
    (isUpdated : node ∈ c.updated ↔ s.raised node = s.raised route.primary.storage)
    (isOutdated : s.raised node ≠ s.raised route.primary.storage → node ∈ c.outdated) :
    s.RightlyClassified route node c ↔ ¬ s.SameStatus route node ∧ ¬ s.ClientGone route node := by
  have agree := recorded.raised_eq_iff secondary
  have own : s.returned node route = s.raised node :=
    if_neg (fun ⟨_, same⟩ => secondary same)
  unfold RightlyClassified ClientGone
  rw [isUpdated, agree, own]
  cases failed : s.clientFailed with
  | false =>
    have primary : s.returned route.primary.storage route = s.raised route.primary.storage :=
      if_neg (by simp [failed])
    rw [primary]
    constructor
    · rintro ⟨right, -⟩
      refine ⟨fun same => ?_, fun gone => Bool.false_ne_true gone.1⟩
      obtain ⟨clean, -⟩ := right (.inr same)
      obtain ⟨left, _, _, isSome, -⟩ := same
      rw [primary, clean] at isSome
      cases isSome
    · rintro ⟨apart, -⟩
      refine ⟨fun alike => alike.resolve_right apart, fun unlike => isOutdated (fun same => ?_)⟩
      exact unlike (.inl (agree.mp same))
  | true =>
    have primary : s.returned route.primary.storage route = none := if_pos ⟨failed, rfl⟩
    have apart : ¬ s.SameStatus route node := by
      rintro ⟨left, _, _, isSome, -⟩
      rw [primary] at isSome
      cases isSome
    simp only [primary, apart, or_false, true_and, not_false_eq_true]
    constructor
    · rintro ⟨right, -⟩ ⟨recordedError, clean⟩
      exact recordedError (right clean).1
    · intro present
      refine ⟨fun clean => ⟨?_, clean⟩, fun unlike => isOutdated (fun same => ?_)⟩
      · by_contra isSome
        exact present ⟨isSome, clean⟩
      · exact unlike (agree.mp same).2

end iterate

end Streams

section classify

variable {ε : Type} [DecidableEq ε] (errByNode : String → Option ε)

section

variable {route : RepositoryMutatorRoute} {world : World} (inv : world.Inv)
  (begun : world.transaction.subtransactions ≠ [])
include inv begun

theorem getUpdatedAndOutdatedSecondaries_compares
    (committed : ∀ sub ∈ world.transaction.subtransactions,
      sub.Committed route.primary.storage) :
    Compares (upToDate errByNode (errByNode route.primary.storage) world.transaction.State)
      route.secondaries (Classification.dirty.markOutdated .outdated route.replicationTargets)
      (getUpdatedAndOutdatedSecondaries route (observe world.transaction) errByNode) := by
  have state := (inv.state_iff route.primary.storage).mpr ⟨begun, committed⟩
  have voted : world.transaction.DidVote route.primary.storage = true := by
    obtain ⟨first, member⟩ := exists_mem_of_ne_nil _ begun
    exact (inv.didVote_iff _).mpr
      ⟨first, member, inv.committedCast first member _ (committed first member)⟩
  have counted : world.transaction.CountSubtransactions ≠ 0 :=
    fun none => begun (length_eq_zero_iff.mp none)
  unfold getUpdatedAndOutdatedSecondaries observe observeEach
  simp only [counted, voted, state, false_and, and_false, Bool.true_eq_false, ↓reduceIte,
    not_true_eq_false, ne_eq]
  exact foldl_classifySecondary _ _ _ _ _

/-- A secondary that has committed as well is classified by the errors alone. -/
theorem getUpdatedAndOutdatedSecondaries_committed {secondary : RouterNode}
    (member : secondary ∈ route.secondaries)
    (committed : ∀ sub ∈ world.transaction.subtransactions,
      sub.Committed route.primary.storage ∧ sub.Committed secondary.storage) :
    (secondary.storage ∈ (getUpdatedAndOutdatedSecondaries route (observe world.transaction)
        errByNode).updated ↔ errByNode secondary.storage = errByNode route.primary.storage) ∧
    (errByNode secondary.storage ≠ errByNode route.primary.storage →
      secondary.storage ∈ (getUpdatedAndOutdatedSecondaries route (observe world.transaction)
        errByNode).outdated) := by
  have compares := getUpdatedAndOutdatedSecondaries_compares errByNode inv begun
    (fun sub present => (committed sub present).1)
  have state := (inv.state_iff secondary.storage).mpr
    ⟨begun, fun sub present => (committed sub present).2⟩
  rw [compares.updated, compares.outdated]
  refine ⟨⟨fun listed => ?_, fun same => ?_⟩, fun other => ?_⟩
  · obtain ⟨named, ok, same⟩ := mem_map.mp ((mem_append.mp listed).resolve_left not_mem_nil)
    rw [← same]
    exact (of_decide_eq_true (mem_filter.mp ok).2).1
  · refine mem_append_right _ (mem_map_of_mem (mem_filter.mpr ⟨member, ?_⟩))
    exact decide_eq_true ⟨same, state⟩
  · refine mem_append_right _ (mem_map_of_mem (mem_filter.mpr ⟨member, ?_⟩))
    simp [upToDate, other]

end

end classify

/-- Where the primary and a secondary have committed every subtransaction, the secondary is
classified by the errors of their streams exactly if they have not both returned a status error
of the same code and message, and the client is not gone with nothing wrong at the secondary. -/
theorem rightlyClassified_iff {txMgr after : Manager} {route : RepositoryMutatorRoute}
    {t : Transaction} {world : World} {s : Streams} {secondary : RouterNode}
    (registered : registerTransaction txMgr route.primary route.secondaries = (after, .ok t))
    (reached : Reaches World.step t.world world) (begun : world.transaction.subtransactions ≠ [])
    (member : secondary ∈ route.secondaries)
    (committed : ∀ subtransaction ∈ world.transaction.subtransactions,
      subtransaction.Committed route.primary.storage ∧ subtransaction.Committed secondary.storage)
    (proxied : Reaches (Streams.step route) Streams.start s) (running : s.phase = .proxying) :
    s.RightlyClassified route secondary.storage
        (getUpdatedAndOutdatedSecondaries route (observe world.transaction)
          (fun node => s.errByNode.lookup node)) ↔
      ¬ s.SameStatus route secondary.storage ∧ ¬ s.ClientGone route secondary.storage := by
  have accepted := registerTransaction_ok registered
  have inv := World.inv_of_reaches accepted reached
  have recorded := Streams.recorded_of_reaches proxied
  have different : secondary.storage ≠ route.primary.storage := by
    obtain ⟨created, distinct, -⟩ := newTransaction_ok accepted
    rw [created, Transaction.Distinct, transactionVoters_name] at distinct
    exact fun same => (nodup_cons.mp distinct).1 (same ▸ mem_map_of_mem member)
  have errors : ∀ node, s.errByNode.lookup node = s.raised node :=
    recorded.recorded (by rw [running]; decide)
  obtain ⟨isUpdated, isOutdated⟩ := getUpdatedAndOutdatedSecondaries_committed
    (fun node => s.errByNode.lookup node) inv begun member committed
  generalize getUpdatedAndOutdatedSecondaries route (observe world.transaction)
    (fun node => s.errByNode.lookup node) = c at isUpdated isOutdated ⊢
  rw [errors, errors] at isUpdated isOutdated
  exact recorded.classified_iff different isUpdated isOutdated

/-- All nodes commit, the coordinator cancels the transaction, and it turns out that the nodes
have failed all the same. -/
def committedRun : List Event :=
  [.vote "a" 7, .getOrCreateSubtransaction, .cast 0 [7], .vote "b" 7, .getOrCreateSubtransaction,
    .cast 1 [7], .vote "c" 7, .getOrCreateSubtransaction, .cast 2 [7], .cancel, .cancelNext,
    .cancelReturn]

def unavailable : Status := ⟨14, "transport is closing"⟩

def failedAlike : List ProxyEvent :=
  [.initiate, .receive "b" (.status unavailable), .forward .frame .nil .nil .nil,
    .forward (.status unavailable) .nil .nil .nil, .receive "c" .eof]

theorem rightlyClassified_iff_mutator :
    let transaction := ((exec World.step mutatorTransaction.world committedRun).get
      (by decide)).transaction
    let s := (exec (Streams.step mutatorRoute) Streams.start failedAlike).get (by decide)
    s.RightlyClassified mutatorRoute "c" (getUpdatedAndOutdatedSecondaries mutatorRoute
        (observe transaction) (fun node => s.errByNode.lookup node)) ↔
      ¬ s.SameStatus mutatorRoute "c" ∧ ¬ s.ClientGone mutatorRoute "c" :=
  rightlyClassified_iff mutator_registered (Reaches.of_exec (by decide)) (by decide)
    (show (⟨"c", some 2⟩ : RouterNode) ∈ mutatorRoute.secondaries by decide) (by decide)
    (Reaches.of_exec (by decide)) (by decide)

/-- Every stream ends well, but the client has gone before it has got the answer. -/
def goneClient : List ProxyEvent :=
  [.initiate, .receive "b" .eof, .receive "c" .eof, .forward .frame .nil .nil (.status unavailable)]

/-- Node `b` has failed exactly like the primary `a`, and is outdated; so it is if nothing has
failed but the stream to the client. -/
theorem same_status_outdated :
    let transaction := ((exec World.step mutatorTransaction.world committedRun).get
      (by decide)).transaction
    let s := (exec (Streams.step mutatorRoute) Streams.start failedAlike).get (by decide)
    let c := getUpdatedAndOutdatedSecondaries mutatorRoute (observe transaction)
      (fun node => s.errByNode.lookup node)
    let gone := (exec (Streams.step mutatorRoute) Streams.start goneClient).get (by decide)
    (transaction.State = [("a", .committed), ("b", .committed), ("c", .committed)] ∧
      s.ended = [("c", .eof), ("a", .object 1), ("b", .object 0)] ∧
      s.heap = [unavailable, unavailable] ∧ c.updated = [] ∧ "b" ∈ c.outdated) ∧
    (["a", "b", "c"].map (fun node => gone.returned node mutatorRoute) = [none, none, none] ∧
      (getUpdatedAndOutdatedSecondaries mutatorRoute (observe transaction)
        (fun node => gone.errByNode.lookup node)).outdated = ["b", "c"]) := by
  decide

end Gitaly.Praefect
