import Mathlib.Algebra.Ring.Int.Defs
import Gitaly.Base.DistinctOn
import Gitaly.Base.Runs
import Gitaly.Datastore.Queue
import Gitaly.Datastore.RepositoryStore

/- The elector of internal/praefect/nodes/sql_elector.go, on the tables that every Praefect
shares, and the view `healthy_storages` on the same tables. -/
namespace Gitaly.Praefect

open List KeyedTable

open Datastore (Timestamp PostgresRepositoryStore)

/-- A row of `node_status`. -/
structure NodeStatusRow where
  praefectName : String
  shardName : String
  nodeName : String
  lastContactAttemptAt : Option Timestamp
  lastSeenActiveAt : Option Timestamp
  deriving DecidableEq

namespace NodeStatusRow

def key (row : NodeStatusRow) : String × String × String :=
  (row.praefectName, row.shardName, row.nodeName)

/-- What a health check that reached the node updates, and one that did not. -/
def check (result : Bool) (now : Timestamp) (row : NodeStatusRow) : NodeStatusRow :=
  { row with
    lastContactAttemptAt := some now
    lastSeenActiveAt := if result then some now else row.lastSeenActiveAt }

theorem check_key (result : Bool) (now : Timestamp) (row : NodeStatusRow) :
    (row.check result now).key = row.key := rfl

end NodeStatusRow

/-- A row of `shard_primaries`. -/
structure ShardPrimaryRow where
  shardName : String
  nodeName : String
  electedByPraefect : String
  electedAt : Timestamp
  demoted : Bool
  deriving DecidableEq

def ShardPrimaryRow.demote (row : ShardPrimaryRow) : ShardPrimaryRow := { row with demoted := true }

theorem ShardPrimaryRow.demote_shardName (row : ShardPrimaryRow) :
    row.demote.shardName = row.shardName := rfl

structure ElectionTables where
  nodeStatus : KeyedTable NodeStatusRow (String × String × String) NodeStatusRow.key
  shardPrimaries : KeyedTable ShardPrimaryRow String ShardPrimaryRow.shardName

/-- 60 s -/
def activePraefectTimeout : Timestamp := 60000000

structure SqlElector where
  praefectName : String
  shardName : String
  /-- The storages of the shard that this Praefect knows of. -/
  nodes : List String
  failoverTimeout : Timestamp

/-- What the database decides on: how text is sorted, and which of the nodes that are as far
behind comes first. -/
structure ElectionChoices where
  collation : String → String → Bool
  ties : Sql.Scan String

/-- `at >= NOW() - timeout`, which is not true for NULL -/
def within (timeout now : Timestamp) (time : Option Timestamp) : Bool :=
  time.any (fun time => now - timeout ≤ time)

namespace ElectionTables

variable (db : ElectionTables)

/-- The Praefects that lately tried to reach some node of the shard. -/
def activePraefects (shardName : String) (timeout now : Timestamp) :
    List String :=
  ((db.nodeStatus.rows.filter (fun row =>
    row.shardName = shardName ∧ within timeout now row.lastContactAttemptAt)).map
      NodeStatusRow.praefectName).dedup

/-- The rows of the nodes that were lately reached. -/
def seenRows (shardName : String) (timeout now : Timestamp) :
    List NodeStatusRow :=
  db.nodeStatus.rows.filter (fun row =>
    row.shardName = shardName ∧ within timeout now row.lastSeenActiveAt)

/-- The Praefects that lately reached a node. -/
def seenBy (shardName nodeName : String) (timeout now : Timestamp) :
    List String :=
  ((db.seenRows shardName timeout now).filter (fun row => row.nodeName = nodeName)).map
    NodeStatusRow.praefectName

end ElectionTables

namespace SqlElector

variable (s : SqlElector) (db : ElectionTables) (now : Timestamp)

def updateNode (node : String) (result : Bool) : ElectionTables :=
  { db with
    nodeStatus := db.nodeStatus.upsert
      ⟨s.praefectName, s.shardName, node, some now, if result then some now else none⟩
      (NodeStatusRow.check result now) (NodeStatusRow.check_key result now) }

def getQuorumCount : Nat :=
  let totalCount := (db.activePraefects s.shardName activePraefectTimeout now).length
  if totalCount ≤ 1 then 1
  -- rounded up
  else (totalCount + 1) / 2

def lookupNodeByName (name : String) : Option String := s.nodes.find? (fun node => node = name)

def lookupPrimary : Option String :=
  match (db.shardPrimaries.find s.shardName).filter (fun row => !row.demoted) with
  | none => none
  | some row => if row.nodeName ≠ "" then s.lookupNodeByName row.nodeName else none

def demotePrimary : ElectionTables :=
  { db with
    shardPrimaries := db.shardPrimaries.modify s.shardName ShardPrimaryRow.demote
      ShardPrimaryRow.demote_shardName }

variable (store : PostgresRepositoryStore)

/-- `SUM(r.generation - COALESCE(sr.generation, -1))` -/
def behind (storage : String) : Option Int :=
  let terms := (store.repositories.rows.filter (fun r => r.virtualStorage = s.shardName)).filterMap
    (fun r => r.generation.map (fun generation =>
      generation - (store.replica r.key storage).getD (-1)))
  if terms = [] then none else some terms.sum

/-- The order of sums, in which NULL is last. -/
def sumLE : Option Int → Option Int → Bool
  | some left, some right => left ≤ right
  | _, none => true
  | none, some _ => false

/-- The candidate that is the least behind, or the first one without any repository. -/
def newPrimary (choices : ElectionChoices) (candidates : List String) : Option String :=
  if store.repositories.rows.any (fun r => r.virtualStorage = s.shardName) then
    ((choices.ties.order candidates).insertionSort (fun left right =>
      sumLE (s.behind store left) (s.behind store right))).head?
  else candidates.head?

/-- `ON CONFLICT (shard_name) DO UPDATE`, for a primary that was elected long enough ago. -/
def replace (node : String) (row : ShardPrimaryRow) : ShardPrimaryRow :=
  if row.electedAt < now - s.failoverTimeout then
    { row with electedByPraefect := s.praefectName, nodeName := node, electedAt := now,
               demoted := false }
  else row

theorem replace_shardName (node : String)
    (row : ShardPrimaryRow) : (s.replace now node row).shardName = row.shardName := by
  unfold replace
  split <;> rfl

def electNewPrimary
    (choices : ElectionChoices) (now : Timestamp) (candidates : List String) : ElectionTables :=
  match s.newPrimary store choices candidates with
  | none => db
  | some node =>
    let current := (db.shardPrimaries.find s.shardName).filter (fun row => !row.demoted)
    if node ≠ (current.map ShardPrimaryRow.nodeName).getD "" then
      { db with
        shardPrimaries := db.shardPrimaries.upsert
          ⟨s.shardName, node, s.praefectName, now, false⟩ (s.replace now node)
          (s.replace_shardName now node) }
    else db

/-- The nodes that enough Praefects reached, the ones that most did first. -/
def candidateNames (collation : String → String → Bool)
    (now : Timestamp) (quorumCount : Nat) : List String :=
  let count := fun name => (db.seenBy s.shardName name s.failoverTimeout now).length
  let names := ((db.seenRows s.shardName s.failoverTimeout now).map NodeStatusRow.nodeName).dedup
  (names.filter (fun name => quorumCount ≤ count name)).insertionSort (fun left right =>
    count right < count left ∨ count left = count right ∧ collation left right)

def validateAndUpdatePrimary (choices : ElectionChoices) (now : Timestamp) :
    ElectionTables :=
  let candidates := (s.candidateNames db choices.collation now
    (s.getQuorumCount db now)).filterMap s.lookupNodeByName
  if candidates.length = 0 then s.demotePrimary db
  else
    match s.lookupPrimary db with
    | none => s.electNewPrimary db store choices now candidates
    | some primaryNode =>
      if primaryNode ∉ candidates then s.electNewPrimary db store choices now candidates
      else db

end SqlElector

/-- A transaction of `checkNodes`: which Praefect makes it and when, what its health checks
result in, and what it reads of the repositories. -/
structure CheckNodes where
  elector : SqlElector
  now : Timestamp
  healthy : String → Bool
  store : PostgresRepositoryStore
  choices : ElectionChoices

namespace CheckNodes

/-- The tables once all health checks are in. -/
def checked (tx : CheckNodes) (db : ElectionTables) : ElectionTables :=
  tx.elector.nodes.foldl (fun db node =>
    tx.elector.updateNode db tx.now node (tx.healthy node)) db

def run (tx : CheckNodes) (db : ElectionTables) : ElectionTables :=
  tx.elector.validateAndUpdatePrimary (tx.checked db) tx.store tx.choices tx.now

end CheckNodes

namespace ElectionTables

variable (db : ElectionTables)

def step (tx : CheckNodes) : Option ElectionTables := some (tx.run db)

/-- The view `healthy_storages`; the order of its rows is left out. -/
def healthyStorages (now : Timestamp) : List (String × String) :=
  let seen := db.nodeStatus.rows.filter (fun row => within 10000000 now row.lastSeenActiveAt)
  (seen.map (fun row => (row.shardName, row.nodeName))).dedup.filter (fun (shardName, nodeName) =>
    let total := (db.activePraefects shardName 60000000 now).length
    -- CEIL(COUNT(DISTINCT praefect_name) / 2.0)
    (total + 1) / 2 ≤ (db.seenBy shardName nodeName 10000000 now).length)

/-- More than half of the active Praefects lately reached the node. -/
def Majority (shardName nodeName : String) (timeout now : Timestamp) : Prop :=
  let active := db.activePraefects shardName activePraefectTimeout now
  active.length < 2 * (active.filter (fun praefect =>
    praefect ∈ db.seenBy shardName nodeName timeout now)).length

/-- At least half as many Praefects reached the node as are active. -/
def Half (shardName nodeName : String) (timeout now : Timestamp) : Prop :=
  let seen := (db.seenBy shardName nodeName timeout now).length
  1 ≤ seen ∧ (db.activePraefects shardName activePraefectTimeout now).length ≤ 2 * seen

instance (db : ElectionTables) (shardName nodeName : String) (timeout now : Timestamp) :
    Decidable (db.Majority shardName nodeName timeout now) :=
  inferInstanceAs (Decidable (_ < _))

instance (db : ElectionTables) (shardName nodeName : String) (timeout now : Timestamp) :
    Decidable (db.Half shardName nodeName timeout now) :=
  inferInstanceAs (Decidable (_ ∧ _))

variable {db : ElectionTables} {shardName nodeName : String} {timeout now : Timestamp}

theorem Majority.half (majority : db.Majority shardName nodeName timeout now) :
    db.Half shardName nodeName timeout now := by
  unfold Majority at majority
  have fewer : ((db.activePraefects shardName activePraefectTimeout now).filter (fun praefect =>
      praefect ∈ db.seenBy shardName nodeName timeout now)).length ≤
      (db.seenBy shardName nodeName timeout now).length := by
    refine (subperm_of_subset ((nodup_dedup _).sublist filter_sublist) ?_).length_le
    intro praefect member
    exact of_decide_eq_true (mem_filter.mp member).2
  constructor <;> omega

theorem mem_seenRows {row : NodeStatusRow} :
    row ∈ db.seenRows shardName timeout now ↔ row ∈ db.nodeStatus ∧ row.shardName = shardName ∧
      within timeout now row.lastSeenActiveAt = true := by
  rw [seenRows, mem_filter, decide_eq_true_iff]
  exact Iff.rfl

theorem seenBy_pos :
    1 ≤ (db.seenBy shardName nodeName timeout now).length ↔
      ∃ row ∈ db.seenRows shardName timeout now, row.nodeName = nodeName := by
  rw [seenBy, length_map, Nat.one_le_iff_ne_zero, ← Nat.pos_iff_ne_zero, length_pos_iff_exists_mem]
  simp only [mem_filter, decide_eq_true_eq]

theorem mem_healthyStorages :
    (shardName, nodeName) ∈ db.healthyStorages now ↔ db.Half shardName nodeName 10000000 now := by
  unfold healthyStorages Half
  dsimp only
  rw [seenBy_pos, mem_filter, mem_dedup, decide_eq_true_iff]
  refine and_congr ?_ ?_
  · simp only [mem_map, mem_filter, mem_seenRows, Prod.mk.injEq, mem_iff]
    constructor
    · intro found
      obtain ⟨row, ⟨present, seen⟩, shard, node⟩ := found
      exact ⟨row, ⟨present, shard, seen⟩, node⟩
    · intro found
      obtain ⟨row, ⟨present, shard, seen⟩, node⟩ := found
      exact ⟨row, ⟨present, seen⟩, shard, node⟩
  · unfold activePraefectTimeout
    dsimp only
    omega

end ElectionTables

namespace SqlElector

variable {s : SqlElector} {db : ElectionTables} {now : Timestamp} {store : PostgresRepositoryStore}
  {choices : ElectionChoices}

theorem lookupNodeByName_eq_some {name node : String} :
    s.lookupNodeByName name = some node ↔ node = name ∧ node ∈ s.nodes := by
  unfold lookupNodeByName
  constructor
  · intro found
    have same := find?_some found
    exact ⟨of_decide_eq_true same, mem_of_find?_eq_some found⟩
  · intro known
    obtain ⟨rfl, member⟩ := known
    cases found : s.nodes.find? (fun other => other = node) with
    | none =>
      have absent := find?_eq_none.mp found node member
      simp at absent
    | some other =>
      have same := find?_some found
      rw [of_decide_eq_true same]

/-- The candidates of an election. -/
def candidates (s : SqlElector) (db : ElectionTables) (choices : ElectionChoices)
    (now : Timestamp) : List String :=
  (s.candidateNames db choices.collation now (s.getQuorumCount db now)).filterMap s.lookupNodeByName

theorem mem_candidates {node : String} :
    node ∈ s.candidates db choices now ↔
      node ∈ s.nodes ∧ db.Half s.shardName node s.failoverTimeout now := by
  have quorum : s.getQuorumCount db now ≤
      (db.seenBy s.shardName node s.failoverTimeout now).length ↔
      db.Half s.shardName node s.failoverTimeout now := by
    unfold getQuorumCount ElectionTables.Half
    dsimp only
    split <;> omega
  unfold candidates candidateNames
  simp only [mem_filterMap, lookupNodeByName_eq_some, mem_insertionSort, mem_filter,
    mem_dedup, mem_map, decide_eq_true_eq]
  constructor
  · intro found
    obtain ⟨name, ⟨-, reached⟩, rfl, known⟩ := found
    exact ⟨known, quorum.mp reached⟩
  · intro found
    exact ⟨node, ⟨ElectionTables.seenBy_pos.mp found.2.1, quorum.mpr found.2⟩, rfl, found.1⟩

theorem newPrimary_mem {candidates : List String} {node : String}
    (chosen : s.newPrimary store choices candidates = some node) : node ∈ candidates := by
  unfold newPrimary at chosen
  split at chosen
  · have sorted := mem_of_mem_head? chosen
    rw [mem_insertionSort] at sorted
    exact (choices.ties.perm candidates).mem_iff.mp sorted
  · exact mem_of_mem_head? chosen

/-- What a transaction does to the primaries: nothing, or the shard has no candidate and its
primary is demoted, or a candidate is elected in place of a primary that is not a candidate. -/
theorem validateAndUpdatePrimary_cases (s : SqlElector) (db : ElectionTables)
    (store : PostgresRepositoryStore) (choices : ElectionChoices) (now : Timestamp) :
    s.validateAndUpdatePrimary db store choices now = db ∨
      s.candidates db choices now = [] ∧
        s.validateAndUpdatePrimary db store choices now = s.demotePrimary db ∨
      (∀ primary, s.lookupPrimary db = some primary → primary ∉ s.candidates db choices now) ∧
        ∃ node ∈ s.candidates db choices now,
          s.validateAndUpdatePrimary db store choices now =
            { db with
              shardPrimaries := db.shardPrimaries.upsert
                ⟨s.shardName, node, s.praefectName, now, false⟩ (s.replace now node)
                (s.replace_shardName now node) } := by
  have elect : s.electNewPrimary db store choices now (s.candidates db choices now) = db ∨
      ∃ node ∈ s.candidates db choices now,
        s.electNewPrimary db store choices now (s.candidates db choices now) =
          { db with
            shardPrimaries := db.shardPrimaries.upsert
              ⟨s.shardName, node, s.praefectName, now, false⟩ (s.replace now node)
              (s.replace_shardName now node) } := by
    unfold electNewPrimary
    split
    · exact .inl rfl
    rename_i node chosen
    dsimp only
    split
    · exact .inr ⟨node, newPrimary_mem chosen, rfl⟩
    · exact .inl rfl
  unfold validateAndUpdatePrimary
  dsimp only
  rw [← candidates]
  split
  · rename_i none
    exact .inr (.inl ⟨length_eq_zero_iff.mp none, rfl⟩)
  split
  · rename_i unknown
    rcases elect with same | elected
    · exact .inl same
    · refine .inr (.inr ⟨fun primary known => ?_, elected⟩)
      cases unknown.symm.trans known
  · rename_i primaryNode known
    split
    · rename_i unhealthy
      rcases elect with same | elected
      · exact .inl same
      refine .inr (.inr ⟨fun primary isPrimary => ?_, elected⟩)
      cases known.symm.trans isPrimary
      exact unhealthy
    · exact .inl rfl

theorem lookupPrimary_eq {row : ShardPrimaryRow}
    (found : db.shardPrimaries.find s.shardName = some row) (current : row.demoted = false)
    (known : row.nodeName ∈ s.nodes) (named : row.nodeName ≠ "") :
    s.lookupPrimary db = some row.nodeName := by
  unfold lookupPrimary
  rw [found, Option.filter_some, if_pos (by rw [current]; rfl)]
  dsimp only
  rw [if_pos named]
  exact lookupNodeByName_eq_some.mpr ⟨rfl, known⟩

end SqlElector

namespace CheckNodes

theorem checked_shardPrimaries (tx : CheckNodes) (db : ElectionTables) :
    (tx.checked db).shardPrimaries = db.shardPrimaries := by
  unfold checked
  generalize tx.elector.nodes = nodes
  induction nodes generalizing db with
  | nil => rfl
  | cons node rest ih => exact ih _

/-- What a majority of the Praefects has to agree on. A primary is replaced by another node or
demoted. -/
structure Sound (tx : CheckNodes) (db : ElectionTables) : Prop where
  elected : ∀ row, (tx.run db).shardPrimaries.find tx.elector.shardName = some row →
    row.demoted = false → db.shardPrimaries.find tx.elector.shardName ≠ some row →
    (tx.checked db).Majority tx.elector.shardName row.nodeName tx.elector.failoverTimeout tx.now
  replaced : ∀ old row, db.shardPrimaries.find tx.elector.shardName = some old →
    old.demoted = false → (tx.run db).shardPrimaries.find tx.elector.shardName = some row →
    row.nodeName ≠ old.nodeName ∨ row.demoted = true →
    ¬ (tx.checked db).Majority tx.elector.shardName old.nodeName tx.elector.failoverTimeout tx.now
  recent : ∀ old, db.shardPrimaries.find tx.elector.shardName = some old →
    tx.now - tx.elector.failoverTimeout ≤ old.electedAt →
    ∃ row, (tx.run db).shardPrimaries.find tx.elector.shardName = some row ∧
      row.nodeName = old.nodeName
  elsewhere : ∀ shardName, shardName ≠ tx.elector.shardName →
    (tx.run db).shardPrimaries.find shardName = db.shardPrimaries.find shardName

/-- Half of the Praefects are never enough for a node that the elector knows, and the elector
knows the primary. -/
structure Decisive (tx : CheckNodes) (db : ElectionTables) : Prop where
  majority : ∀ node ∈ tx.elector.nodes,
    (tx.checked db).Half tx.elector.shardName node tx.elector.failoverTimeout tx.now →
    (tx.checked db).Majority tx.elector.shardName node tx.elector.failoverTimeout tx.now
  known : ∀ row, db.shardPrimaries.find tx.elector.shardName = some row → row.demoted = false →
    row.nodeName ∈ tx.elector.nodes ∧ row.nodeName ≠ ""

section cases

variable {tx : CheckNodes} {db : ElectionTables}

theorem Decisive.candidate (decisive : tx.Decisive db) {old : ShardPrimaryRow}
    (found : db.shardPrimaries.find tx.elector.shardName = some old) (current : old.demoted = false)
    (majority : (tx.checked db).Majority tx.elector.shardName old.nodeName
      tx.elector.failoverTimeout tx.now) :
    tx.elector.lookupPrimary (tx.checked db) = some old.nodeName ∧
      old.nodeName ∈ tx.elector.candidates (tx.checked db) tx.choices tx.now := by
  obtain ⟨known, named⟩ := decisive.known old found current
  constructor
  · refine SqlElector.lookupPrimary_eq ?_ current known named
    rw [tx.checked_shardPrimaries db]
    exact found
  · exact SqlElector.mem_candidates.mpr ⟨known, majority.half⟩

theorem sound_of_unchanged
    (unchanged : (tx.run db).shardPrimaries = db.shardPrimaries) : tx.Sound db := by
  constructor
  · intro row found _ different
    rw [unchanged] at found
    exact absurd found different
  · intro old row before current found different
    rw [unchanged, before] at found
    cases found
    rcases different with other | isDemoted
    · exact absurd rfl other
    rw [current] at isDemoted
    cases isDemoted
  · intro old found _
    exact ⟨old, by rw [unchanged]; exact found, rfl⟩
  · intro shardName _
    rw [unchanged]

theorem sound_of_demoted (decisive : tx.Decisive db)
    (none : tx.elector.candidates (tx.checked db) tx.choices tx.now = [])
    (demoted : tx.elector.validateAndUpdatePrimary (tx.checked db) tx.store tx.choices tx.now =
      tx.elector.demotePrimary (tx.checked db)) : tx.Sound db := by
  have find : ∀ shardName, (tx.run db).shardPrimaries.find shardName =
      if shardName = tx.elector.shardName then
        (db.shardPrimaries.find shardName).map ShardPrimaryRow.demote
      else db.shardPrimaries.find shardName := by
    intro shardName
    rw [run, demoted, SqlElector.demotePrimary]
    rw [tx.checked_shardPrimaries db, find_modify]
    split
    · rename_i same
      rw [same]
    · rfl
  constructor
  · intro row found current _
    rw [find, if_pos rfl] at found
    obtain ⟨old, -, rfl⟩ := Option.map_eq_some_iff.mp found
    cases current
  · intro old row before current found _ majority
    have present := (decisive.candidate before current majority).2
    rw [none] at present
    cases present
  · intro old found _
    exact ⟨old.demote, by rw [find, if_pos rfl, found]; rfl, rfl⟩
  · intro shardName different
    rw [find, if_neg different]

theorem sound_of_elected (decisive : tx.Decisive db) {node : String}
    (unhealthy : ∀ primary, tx.elector.lookupPrimary (tx.checked db) = some primary →
      primary ∉ tx.elector.candidates (tx.checked db) tx.choices tx.now)
    (elected : node ∈ tx.elector.candidates (tx.checked db) tx.choices tx.now)
    (replaced : tx.elector.validateAndUpdatePrimary (tx.checked db) tx.store tx.choices tx.now =
      { tx.checked db with
        shardPrimaries := (tx.checked db).shardPrimaries.upsert
          ⟨tx.elector.shardName, node, tx.elector.praefectName, tx.now, false⟩
          (tx.elector.replace tx.now node) (tx.elector.replace_shardName tx.now node) }) :
    tx.Sound db := by
  have find : ∀ shardName, (tx.run db).shardPrimaries.find shardName =
      if shardName = tx.elector.shardName then
        some ((db.shardPrimaries.find shardName).elim
          ⟨tx.elector.shardName, node, tx.elector.praefectName, tx.now, false⟩
          (tx.elector.replace tx.now node))
      else db.shardPrimaries.find shardName := by
    intro shardName
    rw [run, replaced]
    rw [tx.checked_shardPrimaries db, find_upsert]
  have majority := decisive.majority node (SqlElector.mem_candidates.mp elected).1
    (SqlElector.mem_candidates.mp elected).2
  constructor
  · intro row found current different
    rw [find, if_pos rfl] at found
    cases before : db.shardPrimaries.find tx.elector.shardName with
    | none =>
      rw [before] at found
      cases found
      exact majority
    | some old =>
      rw [before, Option.elim_some, SqlElector.replace] at found
      split at found
      · cases found
        exact majority
      · exact absurd (before.trans found) different
  · intro old row before current found different isMajority
    obtain ⟨known, isCandidate⟩ := decisive.candidate before current isMajority
    exact unhealthy _ known isCandidate
  · intro old found recent
    refine ⟨old, ?_, rfl⟩
    rw [find, if_pos rfl, found, Option.elim_some, SqlElector.replace, if_neg (not_lt.mpr recent)]
  · intro shardName different
    rw [find, if_neg different]

theorem sound_of_decisive (decisive : tx.Decisive db) : tx.Sound db := by
  rcases tx.elector.validateAndUpdatePrimary_cases (tx.checked db) tx.store tx.choices tx.now with
    same | ⟨none, demoted⟩ | ⟨unhealthy, node, elected, replaced⟩
  · refine sound_of_unchanged ?_
    rw [run, same, tx.checked_shardPrimaries db]
  · exact sound_of_demoted decisive none demoted
  · exact sound_of_elected decisive unhealthy elected replaced

end cases

end CheckNodes

namespace ElectionTables

/-- Whatever the tables hold: if all transactions of a run are decisive, every one of them keeps
to the majority of the active Praefects, and the view lists only what a majority reached exactly
if half of them are never enough. -/
theorem election_majority (db : ElectionTables) (transactions : List CheckNodes) (now : Timestamp) :
    (Runs.Along step (fun db tx => tx.Decisive db) db transactions →
        Runs.Along step (fun db tx => tx.Sound db) db transactions) ∧
      ((∀ shardName nodeName, (shardName, nodeName) ∈ db.healthyStorages now →
          db.Majority shardName nodeName 10000000 now) ↔
        ∀ shardName nodeName, db.Half shardName nodeName 10000000 now →
          db.Majority shardName nodeName 10000000 now) := by
  constructor
  · exact Runs.Along.imp (fun _ _ => CheckNodes.sound_of_decisive)
  · simp only [mem_healthyStorages]

end ElectionTables

section elections

/-- The elector of one of several Praefects. -/
def elector (praefectName : String) (nodes : List String) : SqlElector :=
  ⟨praefectName, "default", nodes, 10000000⟩

/-- The first Praefect checks its nodes, all of which it reaches. -/
def check (nodes : List String) : CheckNodes where
  elector := elector "praefect-1" nodes
  now := 100000000
  healthy := fun _ => true
  store := .empty
  choices := ⟨fun left right => left ≤ right, .forward⟩

/-- The other Praefect did not reach the only node. -/
def disputed : ElectionTables where
  nodeStatus := ⟨[⟨"praefect-2", "default", "gitaly-1", some 99000000, none⟩], by decide⟩
  shardPrimaries := .empty

/-- A primary that both Praefects reach, though one of them does not know of it any more. -/
def removed : ElectionTables where
  nodeStatus := ⟨[⟨"praefect-2", "default", "gitaly-1", some 99000000, some 99000000⟩,
    ⟨"praefect-1", "default", "gitaly-1", some 99000000, some 99000000⟩], by decide⟩
  shardPrimaries := ⟨[⟨"default", "gitaly-1", "praefect-2", 0, false⟩], by decide⟩

/-- One of two Praefects is enough for an election and for the view, and a primary that has the
majority is replaced if the elector does not know it. -/
theorem minority_elects :
    ((((check ["gitaly-1"]).run disputed).shardPrimaries.find "default").map
        ShardPrimaryRow.nodeName = some "gitaly-1" ∧
      ¬ ((check ["gitaly-1"]).checked disputed).Majority "default" "gitaly-1" 10000000 100000000 ∧
      ("default", "gitaly-1") ∈
        ((check ["gitaly-1"]).checked disputed).healthyStorages 100000000) ∧
    (((check ["gitaly-2"]).run removed).shardPrimaries.find "default").map
        ShardPrimaryRow.nodeName = some "gitaly-2" ∧
      ((check ["gitaly-2"]).checked removed).Majority "default" "gitaly-1" 10000000 100000000 := by
  decide

/-- The primary that is recorded has been lost to two of three Praefects. -/
def lost : ElectionTables where
  nodeStatus := ⟨[⟨"praefect-2", "default", "gitaly-2", some 99000000, some 99000000⟩,
    ⟨"praefect-3", "default", "gitaly-2", some 99000000, some 99000000⟩], by decide⟩
  shardPrimaries := ⟨[⟨"default", "gitaly-1", "praefect-2", 0, false⟩], by decide⟩

theorem lost_primary_replaced :
    (((check ["gitaly-1", "gitaly-2"]).run lost).shardPrimaries.find "default").map
        ShardPrimaryRow.nodeName = some "gitaly-2" ∧
      Runs.Along ElectionTables.step (fun db tx => tx.Sound db) lost
        [check ["gitaly-1", "gitaly-2"]] := by
  refine ⟨by decide,
    (ElectionTables.election_majority lost [check ["gitaly-1", "gitaly-2"]] 0).1 ?_⟩
  refine ⟨⟨by decide, ?_⟩, fun _ _ => trivial⟩
  intro row found _
  obtain rfl : (⟨"default", "gitaly-1", "praefect-2", 0, false⟩ : ShardPrimaryRow) = row :=
    Option.some.inj found
  decide

end elections

end Gitaly.Praefect
