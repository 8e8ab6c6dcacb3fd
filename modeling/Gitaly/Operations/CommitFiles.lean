import Gitaly.Base.Fallible
import Gitaly.Git.Catfile

/- `UserCommitFiles`, from the resolution of the target branch to the update of it, while the
repositories are changed by others. -/
namespace Gitaly.Operations

open Catfile Fallible Text List

/-- The names and the ids of its references. -/
structure Refs where
  refs : List (Bytes × Bytes)

structure Repository where
  storageName : Bytes
  relativePath : Bytes
deriving DecidableEq

structure Header where
  repository : Repository
  branchName : Bytes
  startBranchName : Bytes
  startRepository : Option Repository
  startSha : Bytes
  force : Bool

structure BranchUpdate where
  commitId : Bytes
  repoCreated : Bool
  branchCreated : Bool

/-- The calls that can fail for reasons of their own. -/
inductive Step where
  | quarantinedRepo | resolveTarget | remoteRepository | hasBranches | resolveParent
  | fetchMissingCommit | actions | commit | wasRepoCreated
  | preReceiveHook | migrate | updateHook | updateRef | referenceTransactionHook
  | postReceiveHook

inductive CommitError (ε : Type) where
  | failed (step : Step) (err : ε)
  | referenceNotFound (refish : Bytes)
  | invalidStartSha
  | invalidOldValue
  | invalidNewValue
  /-- `Could not update %s. Please refresh and try again.` -/
  | notUpdated (reference : Bytes)

/-- What a call finds: the references of the target repository whenever it reads or writes
them, those of the start repository, and what the other calls return. -/
structure Env (ε : Type) where
  atResolve : Refs
  atParent : Refs
  atCommit : Refs
  atUpdate : Refs
  start : Refs
  errors : Step → Option ε
  /-- The id of a commit with this parent. -/
  commit : Bytes → Bytes

def zeroOID : Bytes := replicate 40 48

def newReferenceNameFromBranchName (branch : Bytes) : Bytes := ascii "refs/heads/" ++ branch

namespace Refs

variable (repo : Refs)

def tip (name : Bytes) : Option Bytes := repo.refs.lookup name

def hasBranches : Bool := repo.refs.any (fun ref => (ascii "refs/heads/").isPrefixOf ref.1)

/-- git update-ref: without an old value nothing is compared, and the zero id stands for a
reference that does not exist. -/
def updateRef (reference newvalue oldvalue : Bytes) : Option Refs :=
  if oldvalue = [] ∨ repo.tip reference = if oldvalue = zeroOID then none else some oldvalue then
    some ⟨(reference, newvalue) :: repo.refs.filter (·.1 ≠ reference)⟩
  else none

end Refs

variable {ε : Type} (env : Env ε) (header : Header)

def Env.attempt (step : Step) : Except (CommitError ε) Unit :=
  match env.errors step with
  | some err => .error (.failed step err)
  | none => .ok ()

def resolveParentCommit (remote : Bool) (targetBranch targetBranchCommit startBranch : Bytes) :
    Except (CommitError ε) Bytes :=
  if remote = false ∧ startBranch = [] then .ok targetBranchCommit
  else do
    if remote then env.attempt .remoteRepository
    let repo := if remote then env.start else env.atParent
    env.attempt .hasBranches
    if repo.hasBranches then
      let branch :=
        if startBranch = [] then targetBranch else newReferenceNameFromBranchName startBranch
      env.attempt .resolveParent
      match repo.tip branch with
      | some commit => return commit
      | none => .error (.referenceNotFound branch)
    else return targetBranchCommit

/-- With a quarantine directory. -/
def updateReference (reference newrev oldrev : Bytes) : Except (CommitError ε) Refs := do
  require (validObjectID oldrev) .invalidOldValue
  require (validObjectID newrev) .invalidNewValue
  env.attempt .preReceiveHook
  env.attempt .migrate
  env.attempt .updateHook
  env.attempt .updateRef
  match env.atUpdate.updateRef reference newrev oldrev with
  | none => .error (.notUpdated reference)
  | some refs => do
    env.attempt .referenceTransactionHook
    env.attempt .postReceiveHook
    return refs

def Header.targetBranch : Bytes := newReferenceNameFromBranchName header.branchName

/-- Empty if the branch is being created. -/
def targetBranchCommit : Bytes := (env.atResolve.tip header.targetBranch).getD []

/-- The start repository, unless it is the target repository. -/
def Header.remote : Bool := header.startRepository.any (· ≠ header.repository)

def parentCommit : Except (CommitError ε) Bytes :=
  if header.startSha = [] then
    resolveParentCommit env header.remote header.targetBranch (targetBranchCommit env header)
      header.startBranchName
  else if validObjectID header.startSha then .ok header.startSha
  else .error .invalidStartSha

/-- Only a commit that is not the tip of the target branch can be missing. -/
def fetchMissingCommit (parentCommitOID : Bytes) : Except (CommitError ε) Unit :=
  if parentCommitOID = targetBranchCommit env header then .ok ()
  else env.attempt .fetchMissingCommit

def oldRevision (parentCommitOID : Bytes) : Bytes :=
  if targetBranchCommit env header = [] then zeroOID
  else if header.force then targetBranchCommit env header
  else parentCommitOID

def userCommitFiles : Except (CommitError ε) (BranchUpdate × Refs) := do
  env.attempt .quarantinedRepo
  env.attempt .resolveTarget
  let parentCommitOID ← parentCommit env header
  fetchMissingCommit env header parentCommitOID
  env.attempt .actions
  env.attempt .commit
  let commitID := env.commit parentCommitOID
  env.attempt .wasRepoCreated
  let old := oldRevision env header parentCommitOID
  let refs ← updateReference env header.targetBranch commitID old
  return (⟨commitID, !env.atCommit.hasBranches, old = zeroOID⟩, refs)

variable {env header}

theorem updateRef_moves {repo refs : Refs} {reference newvalue oldvalue : Bytes}
    (nonempty : oldvalue ≠ []) (updated : repo.updateRef reference newvalue oldvalue = some refs) :
    repo.tip reference = (if oldvalue = zeroOID then none else some oldvalue) ∧
      ∀ name, refs.tip name = if name = reference then some newvalue else repo.tip name := by
  simp only [Refs.updateRef, nonempty, false_or, Option.ite_none_right_eq_some] at updated
  obtain ⟨expected, ⟨⟩⟩ := updated
  refine ⟨expected, fun name => ?_⟩
  simp only [Refs.tip, lookup_cons]
  by_cases same : name = reference
  · simp [same]
  have unfiltered : (repo.refs.filter (·.1 ≠ reference)).lookup name = repo.refs.lookup name := by
    induction repo.refs with
    | nil => rfl
    | cons ref rest ih => grind
  rw [beq_eq_false_iff_ne.mpr same, if_neg same]
  exact unfiltered

theorem updateReference_moves {reference newrev oldrev : Bytes} {refs : Refs}
    (returned : updateReference env reference newrev oldrev = .ok refs) :
    env.atUpdate.tip reference = (if oldrev = zeroOID then none else some oldrev) ∧
      ∀ name, refs.tip name = if name = reference then some newrev else env.atUpdate.tip name := by
  simp only [updateReference, bind_eq_ok, require_eq_ok] at returned
  obtain ⟨_, valid, _, -, _, -, _, -, _, -, _, -, returned⟩ := returned
  have nonempty : oldrev ≠ [] := by
    rintro rfl
    cases valid
  cases updated : env.atUpdate.updateRef reference newrev oldrev with
  | none =>
    rw [updated] at returned
    cases returned
  | some moved =>
    simp only [updated, bind_eq_ok] at returned
    obtain ⟨_, -, _, -, ⟨⟩⟩ := returned
    exact updateRef_moves nonempty updated

/-- A call that succeeds has moved the branch from a state in which it did not exist, from the
parent of the new commit or, with force, from the tip that the call began with, and has left
every other reference as it was. -/
theorem userCommitFiles_advances {update : BranchUpdate} {refs : Refs}
    (returned : userCommitFiles env header = .ok (update, refs)) :
    ∃ parent, parentCommit env header = .ok parent ∧ update.commitId = env.commit parent ∧
      (∀ name, refs.tip name =
        if name = header.targetBranch then some update.commitId else env.atUpdate.tip name) ∧
      (env.atUpdate.tip header.targetBranch = none ∨
        env.atUpdate.tip header.targetBranch =
          if header.force then env.atResolve.tip header.targetBranch else some parent) := by
  simp only [userCommitFiles, bind_eq_ok] at returned
  obtain ⟨_, -, _, -, parent, resolved, _, -, _, -, _, -, _, -, moved, updated, ⟨⟩⟩ := returned
  obtain ⟨expected, after⟩ := updateReference_moves updated
  refine ⟨parent, resolved, rfl, after, ?_⟩
  rw [expected]
  split
  · exact .inl rfl
  rename_i nonzero
  refine .inr ?_
  unfold oldRevision at nonzero ⊢
  split at nonzero
  · exact absurd rfl nonzero
  rename_i existed
  rw [if_neg existed]
  split
  · cases tip : env.atResolve.tip header.targetBranch with
    | none => simp [targetBranchCommit, tip] at existed
    | some id => simp [targetBranchCommit, tip]
  · rfl

def mainAt (id : UInt8) : Refs := ⟨[(ascii "refs/heads/main", replicate 40 id)]⟩

/-- Nobody else changes the branch. -/
def steady : Env Unit :=
  ⟨mainAt 97, mainAt 97, mainAt 97, mainAt 97, ⟨[]⟩, fun _ => none, fun _ => replicate 40 98⟩

def toMain : Header := ⟨⟨[], []⟩, ascii "main", [], none, [], false⟩

theorem steady_advances :
    userCommitFiles steady toMain = .ok (⟨replicate 40 98, false, false⟩, mainAt 98) ∧
      ∃ parent, parentCommit steady toMain = .ok parent ∧
        (steady.atUpdate.tip toMain.targetBranch = none ∨
          steady.atUpdate.tip toMain.targetBranch = some parent) := by
  have returned :
      userCommitFiles steady toMain = .ok (⟨replicate 40 98, false, false⟩, mainAt 98) := rfl
  obtain ⟨parent, resolved, -, -, before⟩ := userCommitFiles_advances returned
  exact ⟨returned, parent, resolved, before⟩

end Gitaly.Operations
