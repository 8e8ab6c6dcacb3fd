import Gitaly.Base.Runs
import Gitaly.Praefect.Subtransaction

/- A transaction and the calls in flight on it. Two kinds of lock are involved:
`transaction.lock` is held over a loop through the subtransactions, whose own
locks are taken and released once per iteration. A step of the world below is
what happens between two lock operations, so a vote can be cast, or withdrawn,
between any two iterations of such a loop. -/
namespace Gitaly.Transactions

/-- The fields of `Voter` that its package exports: whoever registers a transaction
can set these two only. -/
structure Member where
  name : String
  votes : UInt64
  deriving DecidableEq

def Member.voter (member : Member) : Voter where
  name := member.name
  votes := member.votes
  vote := none
  result := .undecided

inductive TransactionState where
  | transactionOpen
  | transactionCanceled
  | transactionStopped
  deriving DecidableEq

structure Transaction where
  id : UInt64
  threshold : UInt64
  voters : List Member
  state : TransactionState
  subtransactions : List Subtransaction
  deriving DecidableEq

/-- The loop of `newTransaction`, which sums in machine words. -/
def totalVotes : List Member → List String → UInt64 → Except TransactionError UInt64
  | [], _, total => .ok total
  | voter :: rest, votersByNode, total =>
    if voter.name ∈ votersByNode then .error .duplicateNodes
    else totalVotes rest (voter.name :: votersByNode) (total + voter.votes)

def newTransaction (id : UInt64) (voters : List Member) (threshold : UInt64) :
    Except TransactionError Transaction :=
  if voters.length = 0 then .error .missingNodes
  else
    match totalVotes voters [] 0 with
    | .error err => .error err
    | .ok total =>
      if total < threshold then .error .invalidThreshold
      else if threshold * 2 ≤ total then .error .invalidThreshold
      else .ok ⟨id, threshold, voters, .transactionOpen, []⟩

namespace Transaction

/-- What `State` reports for every voter while there are no subtransactions. -/
def initialResult : TransactionState → VoteResult
  | .transactionOpen => .undecided
  | .transactionCanceled => .canceled
  | .transactionStopped => .stopped

variable (t : Transaction)

def State : List (String × VoteResult) :=
  match t.subtransactions.getLast? with
  | none => t.voters.map (fun voter => (voter.name, initialResult t.state))
  | some last => last.state

def CountSubtransactions : Nat := t.subtransactions.length

def DidVote (node : String) : Bool :=
  match t.subtransactions.head? with
  | none => false
  | some first =>
    match first.getVote node with
    | .error _ => false
    | .ok vote => vote.isSome

/-- The check at the head of `getOrCreateSubtransaction`. -/
def checkOpen : Except TransactionError Unit :=
  match t.state with
  | .transactionOpen => .ok ()
  | .transactionCanceled => .error .transactionCanceled
  | .transactionStopped => .error .transactionStopped

/-- What one iteration of the loop in `getOrCreateSubtransaction` comes to. -/
inductive Choice where
  | take
  | pass
  | fail (err : TransactionError)
  | create
  deriving DecidableEq

def getOrCreateSubtransaction (node : String) (index : Nat) : Choice :=
  match t.subtransactions[index]? with
  | none => .create
  | some subtransaction =>
    match subtransaction.getResult node with
    | .error err => .fail err
    | .ok .undecided => .take
    | .ok .committed => .pass
    | .ok .failed => .fail .transactionFailed
    | .ok .canceled => .fail .transactionCanceled
    | .ok .stopped => .fail .transactionStopped

def create : Transaction :=
  { t with
    subtransactions :=
      t.subtransactions ++ [newSubtransaction (t.voters.map Member.voter) t.threshold] }

def put (index : Nat) (subtransaction : Subtransaction) : Transaction :=
  { t with subtransactions := t.subtransactions.set index subtransaction }

end Transaction

/-- How far a call of `transaction.vote` has come. -/
inductive Stage where
  | choosing
  | selected (index : Nat)
  | waiting (index : Nat)
  | returned (err : Option TransactionError)
  deriving DecidableEq

structure Call where
  node : String
  vote : Vote
  stage : Stage
  deriving DecidableEq

/-- Who holds `transaction.lock`, and the subtransaction its loop is about to visit. -/
inductive Lock where
  | free
  | voting (call : Nat) (index : Nat)
  | canceling (index : Nat)
  | stopping (index : Nat)
  deriving DecidableEq

structure World where
  transaction : Transaction
  lock : Lock
  calls : List Call
  deriving DecidableEq

def Transaction.world (t : Transaction) : World := ⟨t, .free, []⟩

inductive Event where
  /-- A node calls `transaction.vote`, which takes the transaction's lock. -/
  | vote (node : String) (vote : Vote)
  | getOrCreateSubtransaction
  /-- The call goes on to `subtransaction.vote`, without the transaction's lock. -/
  | cast (call : Nat) (order : List Vote)
  /-- `collectVotes` after the subtransaction is done. -/
  | collect (call : Nat)
  /-- `collectVotes` after its context is canceled. -/
  | withdraw (call : Nat) (order : List Vote)
  | cancel
  | cancelNext
  | cancelReturn
  | stop
  | stopNext (order : List String)
  | stopReturn
  deriving DecidableEq

namespace World

variable (world : World)

def setStage (call : Nat) (stage : Stage) : World :=
  { world with calls := world.calls.modify call (fun c => { c with stage := stage }) }

def put (index : Nat) (subtransaction : Subtransaction) : World :=
  { world with transaction := world.transaction.put index subtransaction }

def setState (state : TransactionState) : World :=
  { world with transaction := { world.transaction with state := state } }

/-- The subtransaction a call is at, where `position` reads the stage that it must be in. -/
def callAt (call : Nat) (position : Stage → Option Nat) : Option (Call × Nat × Subtransaction) := do
  let c ← world.calls[call]?
  let index ← position c.stage
  let subtransaction ← world.transaction.subtransactions[index]?
  some (c, index, subtransaction)

def selectedIndex : Stage → Option Nat
  | .selected index => some index
  | _ => none

def waitingIndex : Stage → Option Nat
  | .waiting index => some index
  | _ => none

def enterVote (node : String) (vote : Vote) : World :=
  match world.transaction.checkOpen with
  | .error err => { world with calls := world.calls ++ [⟨node, vote, .returned (some err)⟩] }
  | .ok () =>
    { world with
      calls := world.calls ++ [⟨node, vote, .choosing⟩]
      lock := .voting world.calls.length 0 }

def getOrCreateStep (call index : Nat) (node : String) : World :=
  match world.transaction.getOrCreateSubtransaction node index with
  | .take => { world.setStage call (.selected index) with lock := .free }
  | .pass => { world with lock := .voting call (index + 1) }
  | .fail err => { world.setStage call (.returned (some err)) with lock := .free }
  | .create =>
    { world.setStage call (.selected world.transaction.subtransactions.length) with
      transaction := world.transaction.create
      lock := .free }

def step : Event → Option World
  | .vote node vote => if world.lock = .free then some (world.enterVote node vote) else none
  | .getOrCreateSubtransaction =>
    match world.lock with
    | .voting call index =>
      (world.calls[call]?).map (fun c => world.getOrCreateStep call index c.node)
    | _ => none
  | .cast call order => do
      let (c, index, subtransaction) ← world.callAt call selectedIndex
      let next ← subtransaction.apply (.vote c.node c.vote order)
      let stage := match (subtransaction.vote c.node c.vote order).2 with
        | none => .waiting index
        | some err => .returned (some err)
      some ((world.put index next).setStage call stage)
  | .collect call => do
      let (c, _, subtransaction) ← world.callAt call waitingIndex
      if subtransaction.done then
        some (world.setStage call (.returned (subtransaction.collectVotes false c.node []).2))
      else none
  | .withdraw call order => do
      let (c, index, subtransaction) ← world.callAt call waitingIndex
      let next ← subtransaction.apply (.withdraw c.node order)
      some ((world.put index next).setStage call
        (.returned (subtransaction.collectVotes true c.node order).2))
  | .cancel => if world.lock = .free then some { world with lock := .canceling 0 } else none
  | .cancelNext =>
    match world.lock with
    | .canceling index => do
        let subtransaction ← world.transaction.subtransactions[index]?
        let next ← subtransaction.apply .cancel
        some { world.put index next with lock := .canceling (index + 1) }
    | _ => none
  | .cancelReturn =>
    if world.lock = .canceling world.transaction.subtransactions.length then
      some { world.setState .transactionCanceled with lock := .free }
    else none
  | .stop => if world.lock = .free then some { world with lock := .stopping 0 } else none
  | .stopNext order =>
    match world.lock with
    | .stopping index => do
        let subtransaction ← world.transaction.subtransactions[index]?
        let next ← subtransaction.apply (.stop order)
        -- A failing subtransaction makes `transaction.stop` return with its error.
        some { world.put index next with
          lock := if (subtransaction.stop order).2 = none then .stopping (index + 1) else .free }
    | _ => none
  | .stopReturn =>
    if world.lock = .stopping world.transaction.subtransactions.length then
      some { world.setState .transactionStopped with lock := .free }
    else none

end World

end Gitaly.Transactions
