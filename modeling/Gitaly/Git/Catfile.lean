import Gitaly.Base.Numeral
import Gitaly.Base.Text

/- A pair of long-running git cat-file processes that requests share: revisions
are written to them line by line, and their replies are read in order. -/
namespace Gitaly.Catfile

open Text Numeral List

inductive RevisionError where
  | empty
  | startsWithDash
  | containsWhitespace
  | containsNUL
  | containsColon
deriving DecidableEq

def validateRevision (revision : Bytes) (allowEmpty : Bool) : Except RevisionError Unit :=
  if !allowEmpty && revision.isEmpty then .error .empty
  else if ascii "-" <+: revision then .error .startsWithDash
  else if 32 ∈ revision then .error .containsWhitespace
  else if 0 ∈ revision then .error .containsNUL
  else if 58 ∈ revision then .error .containsColon
  else .ok ()

/-- A revision that is asked for: a valid one, or a path in the tree of one. -/
def Accepted (revision : Bytes) : Prop :=
  validateRevision revision false = .ok () ∨
    ∃ commit path, validateRevision commit false = .ok () ∧ revision = commit ++ ascii ":" ++ path

inductive ObjectType where
  | commit
  | tree
  | blob
  | tag
deriving DecidableEq

def ObjectType.text : ObjectType → Bytes
  | .commit => ascii "commit"
  | .tree => ascii "tree"
  | .blob => ascii "blob"
  | .tag => ascii "tag"

structure ObjectInfo where
  oid : Bytes
  type : Bytes
  size : Int
deriving DecidableEq

/-- The expression `\A[0-9a-f]{40}\z`. -/
def validObjectID (id : Bytes) : Bool :=
  id.length == 40 && id.all (fun c => (48 ≤ c && c ≤ 57) || (97 ≤ c && c ≤ 102))

inductive CatfileError where
  | notFound
  | wrongType (oid expected got : Bytes)
  | unreadBytes (n : Int)
  | readInfoLine
  | invalidInfoLine (infoLine : Bytes)
  | parseObjectID (oid : Bytes)
  | parseObjectSize (size : Bytes)
  | eof
deriving DecidableEq

def parseInfoLine (infoLine : Bytes) : Except CatfileError ObjectInfo :=
  if ascii " missing" <:+ infoLine then .error .notFound
  else
    match infoLine.splitOn 32 with
    | [oid, type, size] =>
      if validObjectID oid then
        match parseInt64 10 size with
        | some objectSize => .ok ⟨oid, type, objectSize⟩
        | none => .error (.parseObjectSize size)
      else .error (.parseObjectID oid)
    | _ => .error (.invalidInfoLine infoLine)

/-- Reads a line, and leaves what comes after it. -/
def parseObjectInfo (stdout : Bytes) : Except CatfileError ObjectInfo × Bytes :=
  match cutLine stdout with
  | some (infoLine, rest) => (parseInfoLine infoLine, rest)
  | none => (.error .readInfoLine, [])

/-- An object as git has it. -/
structure GitObject where
  oid : Bytes
  kind : ObjectType
  contents : Bytes
  valid : validObjectID oid = true
  small : contents.length + 1 < 2 ^ 63

def GitObject.info (object : GitObject) : ObjectInfo :=
  ⟨object.oid, object.kind.text, object.contents.length⟩

inductive Reply where
  | found (object : GitObject)
  | missing
  | ambiguous

/-- What git finds for each revision. -/
abbrev Git := Bytes → Reply

def GitObject.infoLine (object : GitObject) : Bytes :=
  object.oid ++ [32] ++ object.kind.text ++ [32] ++ format 10 1 object.contents.length

variable (git : Git)

/-- The reply to a line: of the one process without, of the other one with the contents. -/
def reply (contents : Bool) (line : Bytes) : Bytes :=
  match git line with
  | .found object =>
    object.infoLine ++ [newline] ++ if contents then object.contents ++ [newline] else []
  | .missing => line ++ ascii " missing" ++ [newline]
  | .ambiguous => line ++ ascii " ambiguous" ++ [newline]

/-- What is written for a revision, and ended by a newline, is answered line by line. -/
def replies (contents : Bool) (revision : Bytes) : Bytes :=
  (splitLines revision).flatMap (reply git contents)

/-- A request with its result, and what has been read of the object it has returned. -/
structure Entry where
  revision : Bytes
  expectedType : Option ObjectType
  result : Except CatfileError ObjectInfo
  received : Bytes
deriving DecidableEq

/-- What the processes have written and nobody has read: the one for infos, the one for
objects. The number is how much of an object is unread, the limit how much its reader may
still read, and the entry is the one that returned it. -/
structure Batch where
  check : Bytes
  r : Bytes
  n : Int
  limit : Nat
  current : Nat
  log : List Entry

def Batch.start : Batch := ⟨[], [], 0, 0, 0, []⟩

namespace Batch

variable (b : Batch) (revision : Bytes)

def info : Batch :=
  let (result, rest) := parseObjectInfo (b.check ++ replies git false revision)
  { b with check := rest, log := b.log ++ [⟨revision, none, result, []⟩] }

variable (expectedType : ObjectType)

def returns (result : Except CatfileError ObjectInfo) :
    Batch :=
  { b with log := b.log ++ [⟨revision, some expectedType, result, []⟩] }

/-- The request, once no linefeed is left of the last object. -/
def request : Batch :=
  if b.n ≠ 0 then b.returns revision expectedType (.error (.unreadBytes b.n))
  else
    match parseObjectInfo (b.r ++ replies git true revision) with
    | (.error err, rest) => { b with r := rest }.returns revision expectedType (.error err)
    | (.ok oi, rest) =>
      let n := oi.size + 1
      if oi.type ≠ expectedType.text then
        if (rest.length : Int) < n then
          { b with r := [], n := n }.returns revision expectedType (.error .eof)
        else
          { b with r := rest.drop n.toNat, n := 0 }.returns revision expectedType
            (.error (.wrongType oi.oid expectedType.text oi.type))
      else
        { b with r := rest, n := n, limit := oi.size.toNat, current := b.log.length }.returns
          revision expectedType (.ok oi)

def reader : Batch :=
  if b.n = 1 then
    match b.r with
    | [] => b.returns revision expectedType (.error .eof)
    | _ :: rest => { b with r := rest, n := 0 }.request git revision expectedType
  else b.request git revision expectedType

/-- A read from the last object, while it is open. -/
def read (count : Nat) : Batch :=
  if b.n < 1 then b
  else
    let bytes := b.r.take (min count b.limit)
    { b with
      r := b.r.drop (min count b.limit)
      n := b.n - bytes.length
      limit := b.limit - bytes.length
      log := b.log.modify b.current (fun entry =>
        { entry with received := entry.received ++ bytes }) }

end Batch

inductive Op where
  | info (revision : Bytes)
  | object (expectedType : ObjectType) (revision : Bytes)
  | read (count : Nat)
deriving DecidableEq

def Op.revision : Op → Bytes
  | .info revision => revision
  | .object _ revision => revision
  | .read _ => []

def step (b : Batch) : Op → Batch
  | .info revision => b.info git revision
  | .object expectedType revision => b.reader git revision expectedType
  | .read count => b.read count

def run (ops : List Op) : Batch := ops.foldl (step git) .start

/-- The result that a reply calls for. -/
def Answers : Reply → Option ObjectType → Except CatfileError ObjectInfo → Prop
  | .found object, none, result => result = .ok object.info
  | .found object, some expected, result =>
    if object.kind = expected then result = .ok object.info
    else result = .error (.wrongType object.oid expected.text object.kind.text)
  | .missing, _, result => result = .error .notFound
  | .ambiguous, _, result => ∃ err, result = .error err ∧ err ≠ .notFound

/-- The request has been refused because an object is unread, or has the answer for its
revision and nothing but the object's contents has been read. -/
structure Answered (git : Git) (entry : Entry) : Prop where
  result : (∃ n, entry.result = .error (.unreadBytes n)) ∨
    Answers (git entry.revision) entry.expectedType entry.result
  received : entry.received = [] ∨ ∃ object, git entry.revision = .found object ∧
    entry.result = .ok object.info ∧ entry.received <+: object.contents

def NeverMixed (ops : List Op) : Prop :=
  ∀ (git : Git), ∀ entry ∈ (run git ops).log, Answered git entry

section replies

theorem plain_of_validObjectID {oid : Bytes} (valid : validObjectID oid = true) {c : UInt8}
    (member : c ∈ oid) : (48 ≤ c ∧ c ≤ 57) ∨ (97 ≤ c ∧ c ≤ 102) := by
  rw [validObjectID, Bool.and_eq_true, all_eq_true] at valid
  simpa using valid.2 c member

variable (object : GitObject)

theorem GitObject.fields_plain (c : UInt8) (blank : c = 32 ∨ c = newline) :
    ∀ field ∈ [object.oid, object.kind.text, format 10 1 object.contents.length], c ∉ field := by
  rw [forall_mem_cons, forall_mem_cons, forall_mem_singleton]
  refine ⟨fun member => ?_, ?_, fun member => ?_⟩
  · have hex := plain_of_validObjectID object.valid member
    rcases blank with rfl | rfl <;> revert hex <;> decide
  · rcases blank with rfl | rfl <;> cases object.kind <;> decide
  · obtain ⟨digit, _, value⟩ := digitValue_of_mem_padded (by decide) (by decide) member
    rcases blank with rfl | rfl <;> cases value

theorem GitObject.infoLine_plain : newline ∉ object.infoLine := by
  have plain := object.fields_plain newline (.inr rfl)
  rw [forall_mem_cons, forall_mem_cons, forall_mem_singleton] at plain
  simp only [infoLine, mem_append, mem_singleton, not_or]
  exact ⟨⟨⟨⟨plain.1, by decide⟩, plain.2.1⟩, by decide⟩, plain.2.2⟩

theorem GitObject.splitOn_infoLine : object.infoLine.splitOn 32 =
    [object.oid, object.kind.text, format 10 1 object.contents.length] := by
  rw [← splitOn_intercalate 32 (object.fields_plain 32 (.inl rfl)) (cons_ne_nil _ _)]
  simp [infoLine, intercalate_cons_cons]

theorem parseUint_size : parseUint 10 (format 10 1 object.contents.length) =
    some object.contents.length :=
  parseUint_format (by decide) (by decide) 1 _

theorem GitObject.infoLine_found : ¬ ascii " missing" <:+ object.infoLine := by
  rintro ⟨before, line⟩
  have fields : (before ++ 32 :: ascii "missing").splitOn 32 =
      before.splitOn 32 ++ [ascii "missing"] := splitOn_append (by decide) before
  have same : before ++ (32 :: ascii "missing") = object.infoLine := line
  rw [same, object.splitOn_infoLine] at fields
  have last : format 10 1 object.contents.length = ascii "missing" := by
    have lasts := congrArg getLast? fields
    simpa using lasts
  have number := parseUint_size object
  rw [last] at number
  cases number

theorem GitObject.parseInfoLine_infoLine : parseInfoLine object.infoLine = .ok object.info := by
  have size : parseInt64 10 (format 10 1 object.contents.length) =
      some (Int.ofNat object.contents.length) :=
    parseInt64_of_parseUint (parseUint_size object) (Nat.lt_of_succ_lt object.small)
  rw [parseInfoLine, if_neg object.infoLine_found, object.splitOn_infoLine]
  simp only [object.valid, size, GitObject.info, if_true]
  rfl

theorem parseObjectInfo_line {line : Bytes} (plain : newline ∉ line) (rest : Bytes) :
    parseObjectInfo (line ++ newline :: rest) = (parseInfoLine line, rest) := by
  simp [parseObjectInfo, cutLine_append plain]

theorem parseInfoLine_missing (line : Bytes) :
    parseInfoLine (line ++ ascii " missing") = .error .notFound :=
  if_pos (suffix_append _ _)

theorem parseInfoLine_ambiguous (line : Bytes) :
    ∃ err, parseInfoLine (line ++ ascii " ambiguous") = .error err ∧ err ≠ .notFound := by
  have fields : (line ++ ascii " ambiguous").splitOn 32 = line.splitOn 32 ++ [ascii "ambiguous"] :=
    splitOn_append (by decide) line
  have found : ¬ ascii " missing" <:+ line ++ ascii " ambiguous" := by
    intro missing
    rcases suffix_or_suffix_of_suffix missing (suffix_append line (ascii " ambiguous"))
      with inside | inside
    all_goals exact absurd inside (by decide)
  rw [parseInfoLine, if_neg found, fields]
  split
  · rename_i oid type size three
    have last : size = ascii "ambiguous" := by
      have lasts := congrArg getLast? three
      simpa using lasts.symm
    have number : parseInt64 10 size = none := by
      rw [last]
      decide
    rw [number]
    split
    all_goals exact ⟨_, rfl, nofun⟩
  · exact ⟨_, rfl, nofun⟩

/-- The answer to a revision of one line, and what is left of the reply: of an object that
comes with its contents, these. -/
theorem parseObjectInfo_replies (git : Git) (contents : Bool) {revision : Bytes}
    (plain : newline ∉ revision) :
    match git revision with
    | .found object => parseObjectInfo (replies git contents revision) =
        (.ok object.info, if contents then object.contents ++ [newline] else [])
    | .missing => parseObjectInfo (replies git contents revision) = (.error .notFound, [])
    | .ambiguous => ∃ err, parseObjectInfo (replies git contents revision) = (.error err, []) ∧
        err ≠ .notFound := by
  have line (text : Bytes) (is : newline ∉ text) : newline ∉ revision ++ text := by
    rw [mem_append, not_or]
    exact ⟨plain, is⟩
  have one : replies git contents revision = reply git contents revision := by
    simp [replies, splitLines_plain plain]
  rw [one, reply]
  cases git revision with
  | found object =>
    dsimp only
    rw [append_assoc, singleton_append, parseObjectInfo_line object.infoLine_plain,
      object.parseInfoLine_infoLine]
  | missing =>
    rw [parseObjectInfo_line (line _ (by decide)), parseInfoLine_missing]
  | ambiguous =>
    obtain ⟨err, parses, other⟩ := parseInfoLine_ambiguous revision
    refine ⟨err, ?_, other⟩
    rw [parseObjectInfo_line (line _ (by decide)), parses]

end replies

/-- An object is open: what is left of its contents has not been read. -/
structure Open (git : Git) (b : Batch) (entry : Entry) (object : GitObject) (rest : Bytes) :
    Prop where
  logged : b.log[b.current]? = some entry
  found : git entry.revision = .found object
  returned : entry.result = .ok object.info
  contents : object.contents = entry.received ++ rest
  r : b.r = rest ++ [newline]
  n : b.n = rest.length + 1
  limit : b.limit = rest.length

/-- The processes and their readers are in step. -/
structure Aligned (git : Git) (b : Batch) : Prop where
  check : b.check = []
  answered : ∀ entry ∈ b.log, Answered git entry
  object : b.n = 0 ∧ b.r = [] ∨ ∃ entry object rest, Open git b entry object rest

section steps

variable {git : Git} {b : Batch}

theorem start_aligned (git : Git) : Aligned git .start := ⟨rfl, forall_mem_nil _, .inl ⟨rfl, rfl⟩⟩

theorem Open.append {entry : Entry} {object : GitObject} {rest : Bytes}
    (opened : Open git b entry object rest) (check : Bytes) (later : Entry) :
    Open git { b with check := check, log := b.log ++ [later] } entry object rest where
  logged := by
    obtain ⟨inside, _⟩ := List.getElem?_eq_some_iff.mp opened.logged
    rw [getElem?_append_left inside]
    exact opened.logged
  found := opened.found
  returned := opened.returned
  contents := opened.contents
  r := opened.r
  n := opened.n
  limit := opened.limit

section

variable (aligned : Aligned git b)
include aligned

variable {revision : Bytes}

theorem info_aligned (plain : newline ∉ revision) :
    Aligned git (b.info git revision) := by
  have answer := parseObjectInfo_replies git false plain
  obtain ⟨result, parses, answers⟩ : ∃ result,
      parseObjectInfo (replies git false revision) = (result, []) ∧
        Answers (git revision) none result := by
    cases found : git revision with
    | found object =>
      rw [found] at answer
      exact ⟨_, answer, rfl⟩
    | missing =>
      rw [found] at answer
      exact ⟨_, answer, rfl⟩
    | ambiguous =>
      rw [found] at answer
      obtain ⟨err, parses, other⟩ := answer
      exact ⟨_, parses, err, rfl, other⟩
  have next : b.info git revision =
      { b with check := [], log := b.log ++ [⟨revision, none, result, []⟩] } := by
    rw [Batch.info, aligned.check, nil_append, parses]
  rw [next]
  refine ⟨rfl, forall_mem_append.mpr ⟨aligned.answered,
    forall_mem_singleton.mpr ⟨.inr answers, .inl rfl⟩⟩, ?_⟩
  rcases aligned.object with idle | ⟨entry, object, rest, opened⟩
  · exact .inl idle
  · exact .inr ⟨entry, object, rest, opened.append [] _⟩

theorem request_aligned (idle : b.n = 0 ∧ b.r = [])
    (plain : newline ∉ revision) (expectedType : ObjectType) :
    Aligned git (b.request git revision expectedType) := by
  have answer := parseObjectInfo_replies git true plain
  have logged {result : Except CatfileError ObjectInfo}
      (answers : Answers (git revision) (some expectedType) result) :
      ∀ entry ∈ b.log ++ [⟨revision, some expectedType, result, []⟩], Answered git entry :=
    forall_mem_append.mpr ⟨aligned.answered, forall_mem_singleton.mpr ⟨.inr answers, .inl rfl⟩⟩
  unfold Batch.request
  rw [if_neg (not_not.mpr idle.1), idle.2, nil_append]
  cases found : git revision with
  | missing =>
    rw [found] at answer logged
    rw [answer]
    exact ⟨aligned.check, logged rfl, .inl ⟨idle.1, rfl⟩⟩
  | ambiguous =>
    rw [found] at answer logged
    obtain ⟨err, parses, other⟩ := answer
    rw [parses]
    exact ⟨aligned.check, logged ⟨err, rfl, other⟩, .inl ⟨idle.1, rfl⟩⟩
  | found object =>
    rw [found] at answer logged
    rw [answer]
    dsimp only [GitObject.info]
    by_cases kind : object.kind = expectedType
    · subst kind
      rw [if_neg (not_not.mpr rfl)]
      exact ⟨aligned.check, logged (by simp [Answers, GitObject.info]),
        .inr ⟨⟨revision, some object.kind, .ok object.info, []⟩, object, object.contents,
          getElem?_concat_length, found, rfl, rfl, rfl, rfl, rfl⟩⟩
    · have text : object.kind.text ≠ expectedType.text := by
        revert kind
        cases object.kind <;> cases expectedType <;> decide
      have discarded : (object.contents ++ [newline]).drop
          ((object.contents.length : Int) + 1).toNat = [] :=
        drop_eq_nil_of_le (by rw [length_append, length_singleton]; omega)
      have available : ¬ ((object.contents ++ [newline]).length : Int) <
          (object.contents.length : Int) + 1 := by
        rw [length_append, length_singleton]
        omega
      rw [if_pos text, if_pos rfl, if_neg available, discarded]
      exact ⟨aligned.check, logged (by simp [Answers, kind]), .inl ⟨rfl, rfl⟩⟩

theorem reader_aligned (plain : newline ∉ revision) (expectedType : ObjectType) :
    Aligned git (b.reader git revision expectedType) := by
  unfold Batch.reader
  rcases aligned.object with idle | ⟨entry, object, rest, opened⟩
  · rw [if_neg (by rw [idle.1]; decide)]
    exact request_aligned aligned idle plain expectedType
  cases rest with
  | nil =>
    -- only the linefeed is left
    have one : b.n = 1 := opened.n
    have closed : Aligned git { b with r := [], n := 0 } :=
      ⟨aligned.check, aligned.answered, .inl ⟨rfl, rfl⟩⟩
    rw [if_pos one, opened.r]
    exact request_aligned closed ⟨rfl, rfl⟩ plain expectedType
  | cons c rest =>
    have n := opened.n
    rw [length_cons] at n
    rw [if_neg (by omega), Batch.request, if_pos (by omega)]
    exact ⟨aligned.check, forall_mem_append.mpr ⟨aligned.answered,
      forall_mem_singleton.mpr ⟨.inl ⟨b.n, rfl⟩, .inl rfl⟩⟩,
      .inr ⟨entry, object, c :: rest, opened.append b.check _⟩⟩

theorem read_aligned (count : Nat) : Aligned git (b.read count) := by
  unfold Batch.read
  split
  · exact aligned
  rename_i open_
  rcases aligned.object with idle | ⟨entry, object, rest, opened⟩
  · rw [idle.1] at open_
    exact absurd (by decide) open_
  have bound : min count b.limit ≤ rest.length := by
    rw [opened.limit]
    exact Nat.min_le_right _ _
  have bytes : b.r.take (min count b.limit) = rest.take (min count b.limit) := by
    rw [opened.r, take_append_of_le_length bound]
  have length : (rest.take (min count b.limit)).length = min count b.limit :=
    length_take_of_le bound
  have received : object.contents = entry.received ++ rest.take (min count b.limit) ++
      rest.drop (min count b.limit) := by
    rw [append_assoc, take_append_drop]
    exact opened.contents
  refine ⟨aligned.check, ?_, .inr ⟨{ entry with
    received := entry.received ++ rest.take (min count b.limit) }, object,
    rest.drop (min count b.limit), ?_⟩⟩
  · intro other member
    obtain ⟨index, at_⟩ := mem_iff_getElem?.mp member
    rw [getElem?_modify] at at_
    obtain ⟨before, found, changed⟩ := Option.map_eq_some_iff.mp at_
    have holds := aligned.answered before (mem_of_getElem? found)
    split at changed
    · rename_i same
      rw [← same, opened.logged] at found
      cases found
      rw [← changed]
      refine ⟨holds.result, .inr ⟨object, opened.found, opened.returned, ?_⟩⟩
      rw [bytes, received]
      exact prefix_append _ _
    · rw [← changed]
      exact holds
  · refine ⟨?_, opened.found, opened.returned, received, ?_, ?_, ?_⟩
    · rw [getElem?_modify_eq, opened.logged, bytes]
      rfl
    · dsimp only
      rw [opened.r, drop_append_of_le_length bound]
    · dsimp only
      rw [bytes, length, opened.n, length_drop]
      omega
    · dsimp only
      rw [bytes, length, length_drop, opened.limit]

theorem step_aligned {op : Op} (plain : newline ∉ op.revision) : Aligned git (step git b op) := by
  cases op with
  | info revision => exact info_aligned aligned plain
  | object expectedType revision => exact reader_aligned aligned plain expectedType
  | read count => exact read_aligned aligned count

end

end steps

theorem run_aligned {ops : List Op} (plain : ∀ op ∈ ops, newline ∉ op.revision) :
    Aligned git (run git ops) := by
  refine foldlRecOn ops (step git) (start_aligned git) ?_
  exact fun b aligned op member => step_aligned aligned (plain op member)

section mixed

variable {git : Git}

/-- What a request has been told. -/
def Entry.told (entry : Entry) : Bytes × Option ObjectType × Except CatfileError ObjectInfo :=
  (entry.revision, entry.expectedType, entry.result)

theorem request_log (b : Batch) (revision : Bytes) (expectedType : ObjectType) :
    ∃ entry, (b.request git revision expectedType).log = b.log ++ [entry] := by
  unfold Batch.request
  split
  · exact ⟨_, rfl⟩
  split
  · exact ⟨_, rfl⟩
  dsimp only
  split
  · split <;> exact ⟨_, rfl⟩
  · exact ⟨_, rfl⟩

theorem reader_log (b : Batch) (revision : Bytes) (expectedType : ObjectType) :
    ∃ entry, (b.reader git revision expectedType).log = b.log ++ [entry] := by
  unfold Batch.reader
  split
  · split
    · exact ⟨_, rfl⟩
    · exact request_log _ revision expectedType
  · exact request_log b revision expectedType

theorem read_told (b : Batch) (count : Nat) :
    (b.read count).log.map Entry.told = b.log.map Entry.told := by
  unfold Batch.read
  split
  · rfl
  refine ext_getElem? (fun index => ?_)
  rw [getElem?_map, getElem?_map, getElem?_modify]
  cases b.log[index]? with
  | none => rfl
  | some entry =>
    dsimp only [Option.map_some]
    split <;> rfl

/-- What a request has been told is not taken back. -/
theorem step_told (b : Batch) (op : Op) :
    b.log.map Entry.told <+: (step git b op).log.map Entry.told := by
  cases op with
  | info revision =>
    rw [step, Batch.info, map_append]
    exact prefix_append _ _
  | object expectedType revision =>
    obtain ⟨entry, log⟩ : ∃ entry, (b.reader git revision expectedType).log = b.log ++ [entry] :=
      reader_log b revision expectedType
    rw [step, log, map_append]
    exact prefix_append _ _
  | read count =>
    have same := read_told b count
    exact same ▸ prefix_refl _

theorem foldl_told (ops : List Op) (b : Batch) :
    b.log.map Entry.told <+: (ops.foldl (step git) b).log.map Entry.told := by
  induction ops generalizing b with
  | nil => exact prefix_refl _
  | cons op rest ih => exact (step_told b op).trans (ih _)

/-- A git that has the same empty object for every revision but one. -/
def allBut (revision : Bytes) (kind : ObjectType) : Git := fun line =>
  if line = revision then .missing
  else .found ⟨replicate 40 48, kind, [], by decide, by decide⟩

/-- A revision of several lines is answered by what is found for the first one. -/
theorem parseObjectInfo_first {revision : Bytes} (broken : newline ∈ revision) (kind : ObjectType)
    (contents : Bool) :
    ∃ rest, parseObjectInfo (replies (allBut revision kind) contents revision) =
      (.ok ⟨replicate 40 48, kind.text, 0⟩, rest) := by
  obtain ⟨first, others, lines⟩ := exists_cons_of_ne_nil (splitLines_ne_nil revision)
  have plain : newline ∉ first := newline_notMem_splitLines revision first
    (by rw [lines]; exact mem_cons_self)
  have other : first ≠ revision := by
    rintro rfl
    exact plain broken
  rw [replies, lines, flatMap_cons, reply, allBut, if_neg other]
  rw [append_assoc, append_assoc, singleton_append,
    parseObjectInfo_line (GitObject.infoLine_plain _), GitObject.parseInfoLine_infoLine]
  exact ⟨_, rfl⟩

variable {revision : Bytes} {kind : ObjectType} {b : Batch}

theorem idle_or_linefeed (aligned : Aligned (allBut revision kind) b) :
    b.n = 0 ∧ b.r = [] ∨ b.n = 1 ∧ b.r = [newline] := by
  rcases aligned.object with idle | ⟨entry, object, rest, opened⟩
  · exact .inl idle
  have found := opened.found
  unfold allBut at found
  split at found
  · cases found
  cases found
  have empty : rest = [] := (append_eq_nil_iff.mp opened.contents.symm).2
  have n := opened.n
  have r := opened.r
  rw [empty] at n r
  exact .inr ⟨n, r⟩

theorem info_mixed (aligned : Aligned (allBut revision kind) b) (broken : newline ∈ revision) :
    (revision, none, .ok ⟨replicate 40 48, kind.text, 0⟩) ∈
      (b.info (allBut revision kind) revision).log.map Entry.told := by
  obtain ⟨rest, parses⟩ := parseObjectInfo_first broken kind false
  rw [Batch.info, aligned.check, nil_append, parses, map_append]
  exact mem_append_right _ mem_cons_self

theorem request_mixed (idle : b.n = 0 ∧ b.r = []) (broken : newline ∈ revision) :
    (revision, some kind, .ok ⟨replicate 40 48, kind.text, 0⟩) ∈
      (b.request (allBut revision kind) revision kind).log.map Entry.told := by
  obtain ⟨rest, parses⟩ := parseObjectInfo_first broken kind true
  rw [Batch.request, if_neg (not_not.mpr idle.1), idle.2, nil_append, parses]
  dsimp only
  rw [if_neg (not_not.mpr rfl), Batch.returns, map_append]
  exact mem_append_right _ mem_cons_self

theorem reader_mixed (aligned : Aligned (allBut revision kind) b) (broken : newline ∈ revision) :
    (revision, some kind, .ok ⟨replicate 40 48, kind.text, 0⟩) ∈
      (b.reader (allBut revision kind) revision kind).log.map Entry.told := by
  unfold Batch.reader
  rcases idle_or_linefeed aligned with idle | ⟨one, linefeed⟩
  · rw [if_neg (by rw [idle.1]; decide)]
    exact request_mixed idle broken
  · rw [if_pos one, linefeed]
    exact request_mixed ⟨rfl, rfl⟩ broken

theorem not_answered {expectedType : Option ObjectType} {oi : ObjectInfo}
    (told : (revision, expectedType, .ok oi) ∈ b.log.map Entry.told) :
    ∃ entry ∈ b.log, ¬ Answered (allBut revision kind) entry := by
  obtain ⟨entry, member, same⟩ := mem_map.mp told
  obtain ⟨rev, _, result⟩ : entry.revision = revision ∧ entry.expectedType = expectedType ∧
      entry.result = .ok oi := by
    simpa [Entry.told] using same
  refine ⟨entry, member, fun answered => ?_⟩
  rcases answered.result with ⟨n, refused⟩ | answers
  · cases refused.symm.trans result
  · rw [rev, allBut, if_pos rfl, result] at answers
    cases answers

end mixed

/-- Answers are never mixed up just if every revision is one line. -/
theorem neverMixed_iff (ops : List Op) : NeverMixed ops ↔ ∀ op ∈ ops, newline ∉ op.revision := by
  constructor
  · intro never op member broken
    obtain ⟨first, finds⟩ : ∃ first, ops.find? (fun op => newline ∈ op.revision) = some first :=
      Option.isSome_iff_exists.mp (find?_isSome.mpr ⟨op, member, by simpa using broken⟩)
    obtain ⟨is, before, after, split, commons⟩ := find?_eq_some_iff_append.mp finds
    have plain : ∀ op ∈ before, newline ∉ op.revision := fun op member => by
      simpa using commons op member
    have kept (git : Git) : (step git (run git before) first).log.map Entry.told <+:
        (run git ops).log.map Entry.told := by
      rw [run, run, split, foldl_append, foldl_cons]
      exact foldl_told after _
    have broken : newline ∈ first.revision := by simpa using is
    obtain ⟨git, entry, logged, wrong⟩ :
        ∃ git, ∃ entry ∈ (run git ops).log, ¬ Answered git entry := by
      cases first with
      | info revision =>
        have told := info_mixed (run_aligned (allBut revision .blob) plain) broken
        exact ⟨_, not_answered ((kept _).subset told)⟩
      | object expectedType revision =>
        have told := reader_mixed (run_aligned (allBut revision expectedType) plain) broken
        exact ⟨_, not_answered ((kept _).subset told)⟩
      | read count => cases broken
    exact wrong (never git entry logged)
  · intro plain git
    exact (run_aligned git plain).answered

/-- Two requests, the first one of two lines. -/
def twoLines : List Op := [.info (ascii "a\nb"), .info (ascii "c")]

/-- The second request is told of what the first one has asked for. -/
theorem twoLines_mixed : (∀ op ∈ twoLines, Accepted op.revision) ∧ ¬ NeverMixed twoLines := by
  have valid : ∀ op ∈ twoLines, validateRevision op.revision false = .ok () := by decide
  refine ⟨fun op member => .inl (valid op member), fun never => ?_⟩
  let git : Git := fun line =>
    if line = ascii "b" then .found ⟨replicate 40 48, .blob, [], by decide, by decide⟩
    else .missing
  have told : (⟨ascii "c", none, .ok ⟨replicate 40 48, ascii "blob", 0⟩, []⟩ : Entry) ∈
      (run git twoLines).log := by decide +kernel
  rcases (never git _ told).result with ⟨n, refused⟩ | answers
  · cases refused
  · cases answers

end Gitaly.Catfile
