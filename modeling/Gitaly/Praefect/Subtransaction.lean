import Gitaly.Base.KeyedTable
import Mathlib.Data.List.Perm.Basic

/- One voting session of internal/praefect/transactions. Every function below runs
under the subtransaction's own lock, so each call is one atomic step. Go leaves
the iteration order of a map open: where the order can be observed it is an
argument, `order`. -/
namespace Gitaly.Transactions

/-- A vote is the 20-byte array of `voting.Vote`. -/
abbrev Vote := BitVec 160

inductive VoteResult where
  | undecided
  | committed
  | failed
  | canceled
  | stopped
  deriving DecidableEq

structure Voter where
  name : String
  votes : UInt64
  vote : Option Vote
  result : VoteResult
  deriving DecidableEq

namespace Voter

variable (voter : Voter)

/-- A voter that has cast a vote and is not settled yet. -/
def Pending : Prop := voter.result = .undecided ∧ voter.vote ≠ none

instance : DecidablePred Pending := fun _ => inferInstanceAs (Decidable (_ ∧ _))

def withVote (vote : Vote) (voter : Voter) : Voter := { voter with vote := some vote }

def withResult (result : VoteResult) (voter : Voter) : Voter := { voter with result := result }

def cancel : Voter :=
  { voter with result := if voter.result = .undecided then .canceled else voter.result }

def fail : Voter := if voter.Pending then { voter with result := .failed } else voter

def decideBy (majorityVote : Option Vote) (voter : Voter) : Voter :=
  if voter.Pending then
    { voter with result := if voter.vote = majorityVote then .committed else .failed }
  else voter

@[simp] theorem withVote_name (vote : Vote) (voter : Voter) :
    (voter.withVote vote).name = voter.name := rfl

@[simp] theorem withResult_name (result : VoteResult) (voter : Voter) :
    (voter.withResult result).name = voter.name := rfl

@[simp] theorem cancel_name : voter.cancel.name = voter.name := rfl

@[simp] theorem fail_name : voter.fail.name = voter.name := by
  unfold fail
  split <;> rfl

@[simp] theorem decideBy_name (majorityVote : Option Vote) (voter : Voter) :
    (voter.decideBy majorityVote).name = voter.name := by
  unfold decideBy
  split <;> rfl

end Voter

inductive TransactionError where
  /-- transactions cannot have duplicate nodes -/
  | duplicateNodes
  /-- transaction requires at least one node -/
  | missingNodes
  /-- transaction has invalid threshold -/
  | invalidThreshold
  /-- transaction did not reach quorum -/
  | transactionFailed
  /-- transaction has been canceled -/
  | transactionCanceled
  /-- transaction has been stopped -/
  | transactionStopped
  /-- invalid node for transaction: %q -/
  | invalidNode (node : String)
  /-- node already cast a vote: %q -/
  | alreadyVoted (node : String)
  /-- cannot change committed vote -/
  | changeCommitted
  /-- voter is in invalid state %d -/
  | invalidState (result : VoteResult)
  /-- changing current vote is not allowed -/
  | changeVote
  /-- subtransaction was already finished -/
  | alreadyFinished
  /-- %w: did not cast a vote -/
  | failedWithoutVote
  /-- %w: got %d/%d votes for %v -/
  | failedWith (count threshold : UInt64) (vote : Vote)
  /-- voter is in undecided state: %q -/
  | undecidedVoter (node : String)
  /-- The error of the caller's context. -/
  | contextDone
  /-- updating state of node %q: %w -/
  | updatingState (node : String) (cause : TransactionError)
  /-- cancel vote: %w -/
  | cancelVote (cause : TransactionError)
  /-- The run-time panic of a nil pointer dereference. -/
  | nilDereference
  deriving DecidableEq

structure Subtransaction where
  /-- Whether `doneCh` is closed. -/
  done : Bool
  threshold : UInt64
  votersByNode : KeyedTable Voter String Voter.name
  voteCounts : KeyedTable (Vote × UInt64) Vote Prod.fst
  deriving DecidableEq

/-- An error leaves the state it is paired with behind. -/
abbrev Reply := Subtransaction × Option TransactionError

/-- Assigning to a map replaces the entry that has the key already. -/
def putVoter (votersByNode : KeyedTable Voter String Voter.name) (voter : Voter) :
    KeyedTable Voter String Voter.name :=
  votersByNode.upsert voter (fun old => { voter with name := old.name }) (fun _ => rfl)

def newSubtransaction (voters : List Voter) (threshold : UInt64) : Subtransaction where
  done := false
  threshold := threshold
  votersByNode := voters.foldl putVoter KeyedTable.empty
  voteCounts := KeyedTable.empty

namespace Subtransaction

variable (t : Subtransaction)

/-- `voteCounts[vote]`, where a missing entry reads as zero. -/
def count (vote : Vote) : UInt64 := ((t.voteCounts.find vote).map Prod.snd).getD 0

def updateVoters (change : Voter → Voter)
    (keep : ∀ voter, (change voter).name = voter.name) : Subtransaction :=
  { t with votersByNode := t.votersByNode.update change keep }

def cancel : Subtransaction := { t.updateVoters Voter.cancel Voter.cancel_name with done := true }

/-- The loop of `stop`. It returns from the middle when it meets a voter that was
canceled or stopped before, with the voters it has visited so far stopped. -/
def stopVoters (voters : KeyedTable Voter String Voter.name) :
    List String → KeyedTable Voter String Voter.name × Option TransactionError
  | [] => (voters, none)
  | node :: rest =>
    match (voters.find node).map Voter.result with
    | some .canceled => (voters, some .transactionCanceled)
    | some .stopped => (voters, some .transactionStopped)
    | some .undecided =>
      stopVoters (voters.modify node (Voter.withResult .stopped) (Voter.withResult_name _)) rest
    | _ => stopVoters voters rest

def stop (order : List String) : Reply :=
  match stopVoters t.votersByNode order with
  | (voters, some err) => ({ t with votersByNode := voters }, some err)
  | (voters, none) => ({ t with votersByNode := voters, done := true }, none)

def state : List (String × VoteResult) :=
  t.votersByNode.rows.map (fun voter => (voter.name, voter.result))

/-- The majority among the votes visited so far; a later vote needs strictly more. -/
def majority (order : List Vote) : Option Vote × UInt64 :=
  order.foldl (fun best vote => if best.2 < t.count vote then (some vote, t.count vote) else best)
    (none, 0)

def outstandingVotes : UInt64 :=
  t.votersByNode.rows.foldl
    (fun total voter => if voter.vote = none then total + voter.votes else total) 0

def mustSignalVoters : Bool :=
  if t.done then false
  else if t.voteCounts.rows.any (fun entry => t.threshold ≤ entry.2) then true
  else if t.votersByNode.rows.any (fun voter => voter.result = .undecided) then false
  else true

def signal : Subtransaction := if t.mustSignalVoters then { t with done := true } else t

/-- The second half of `updateVoterState`: from the vote counts to the results, and
the deferred signal. -/
def settle (order : List Vote) : Except TransactionError Subtransaction :=
  let (majorityVote, majorityVoteCount) := t.majority order
  if majorityVoteCount < t.threshold ∧
      t.threshold ≤ majorityVoteCount + t.outstandingVotes then
    .ok t.signal
  else if majorityVoteCount < t.threshold then
    .ok (t.updateVoters Voter.fail Voter.fail_name).signal
  else if majorityVote = none ∧ t.votersByNode.rows.any (fun voter => voter.Pending) then
    .error .nilDereference
  else
    .ok (t.updateVoters (Voter.decideBy majorityVote) (Voter.decideBy_name majorityVote)).signal

variable (node : String)

def castVote (votes : UInt64) (vote : Vote) : Subtransaction :=
  { t with
    voteCounts := t.voteCounts.upsert (vote, 0 + votes)
      (fun entry => (entry.1, entry.2 + votes)) (fun _ => rfl)
    votersByNode := t.votersByNode.modify node (Voter.withVote vote) (Voter.withVote_name vote) }

def withdrawVote (votes : UInt64) (vote : Vote) : Subtransaction :=
  { t with
    voteCounts := t.voteCounts.upsert (vote, 0 - votes)
      (fun entry => (entry.1, entry.2 - votes)) (fun _ => rfl)
    votersByNode :=
      t.votersByNode.modify node (Voter.withResult .canceled) (Voter.withResult_name _) }

def updateVoterState (voter : Voter) (vote : Option Vote)
    (order : List Vote) : Except TransactionError Subtransaction :=
  match voter.result with
  | .canceled => .error .transactionCanceled
  | .stopped => .error .transactionStopped
  | .committed => .error .changeCommitted
  | .failed => .error (.invalidState .failed)
  | .undecided =>
    match vote, voter.vote with
    | some _, some _ => .error .changeVote
    | some vote, none => (t.castVote voter.name voter.votes vote).settle order
    | none, current =>
      if t.done then .error .alreadyFinished
      else
        match current with
        | none => .error .nilDereference
        | some vote => (t.withdrawVote voter.name voter.votes vote).settle order

def vote (vote : Vote) (order : List Vote) : Reply :=
  match t.votersByNode.find node with
  | none => (t, some (.invalidNode node))
  | some voter =>
    if voter.vote ≠ none then (t, some (.alreadyVoted node))
    else
      match t.updateVoterState voter (some vote) order with
      | .error err => (t, some (.updatingState node err))
      | .ok next => (next, none)

/-- What `collectVotes` does once it stops waiting. `contextErr` says whether the
context was canceled, `order` is used only then. -/
def collectVotes (contextErr : Bool) (node : String) (order : List Vote) : Reply :=
  match t.votersByNode.find node with
  | none => (t, some (.invalidNode node))
  | some voter =>
    if contextErr then
      match t.updateVoterState voter none order with
      | .error err => (t, some (.cancelVote err))
      | .ok next => (next, some .contextDone)
    else
      match voter.result, voter.vote with
      | .committed, _ => (t, none)
      | .failed, none => (t, some .failedWithoutVote)
      | .failed, some vote => (t, some (.failedWith (t.count vote) t.threshold vote))
      | .canceled, _ => (t, some .transactionCanceled)
      | .stopped, _ => (t, some .transactionStopped)
      | .undecided, _ => (t, some (.undecidedVoter node))

def getResult : Except TransactionError VoteResult :=
  match t.votersByNode.find node with
  | none => .error (.invalidNode node)
  | some voter => .ok voter.result

def getVote : Except TransactionError (Option Vote) :=
  match t.votersByNode.find node with
  | none => .error (.invalidNode node)
  | some voter => .ok voter.vote

/-- The calls that may change a subtransaction, with the map orders they meet. -/
inductive Op where
  | vote (node : String) (vote : Vote) (order : List Vote)
  | withdraw (node : String) (order : List Vote)
  | cancel
  | stop (order : List String)
  deriving DecidableEq

/-- The state a call leaves behind. An order is one that a map can show: it visits
every key exactly once. -/
def apply : Op → Option Subtransaction
  | .vote node vote order =>
    let (next, err) := t.vote node vote order
    if err = none → order.isPerm next.voteCounts.keys then some next else none
  | .withdraw node order =>
    let (next, err) := t.collectVotes true node order
    if err = some .contextDone → order.isPerm next.voteCounts.keys then some next else none
  | .cancel => some t.cancel
  | .stop order =>
    if order.isPerm t.votersByNode.keys then some (t.stop order).1 else none

end Subtransaction

end Gitaly.Transactions
