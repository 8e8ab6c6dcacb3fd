import Mathlib.Data.List.Basic

/- Replication jobs as internal/praefect/datastore stores them. -/
namespace Gitaly.Datastore

inductive JobState where
  | ready
  | inProgress
  | completed
  | cancelled
  | failed
  | dead
  deriving DecidableEq

inductive ChangeType where
  | update
  | create
  | delete
  | deleteReplica
  | rename
  | gc
  | repackFull
  | repackIncremental
  | cleanup
  | packRefs
  | writeCommitGraph
  | midxRepack
  | optimizeRepository
  deriving DecidableEq

/-- The values of a `Params` map that jobs carry. -/
inductive ParamValue where
  | string (value : String)
  | bool (value : Bool)
  | number (value : Int)
  deriving DecidableEq

/-- A map in the one form that its keys have in increasing order, so that two maps are
equal iff their entries are. -/
structure ParamMap where
  entries : List (String × ParamValue)
  sorted : (entries.map Prod.fst).Pairwise (fun left right => left < right)
  deriving DecidableEq

/-- `Params`; the nil map is not the empty one. -/
abbrev Params := Option ParamMap

def Params.get (params : Params) (key : String) : Option ParamValue :=
  params.bind (fun map => map.entries.lookup key)

structure ReplicationJob where
  repositoryID : Int
  change : ChangeType
  relativePath : String
  targetNodeStorage : String
  sourceNodeStorage : String
  virtualStorage : String
  params : Params
  deriving DecidableEq

/-- What `Enqueue` reads of a `ReplicationEvent`. -/
structure ReplicationEvent where
  job : ReplicationJob
  metadata : Params
  deriving DecidableEq

end Gitaly.Datastore
