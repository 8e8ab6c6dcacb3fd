import Mathlib.Data.List.Nodup

/- How internal/praefect/protoregistry finds the repository that a request is about: it walks
down the structs that protoc-gen-go generates, by the field numbers in their tags. A panic of
the reflection is an outcome of its own. -/
namespace Gitaly.Praefect.Protoregistry

open List

/-- What a field holds: a pointer to a message of a certain name, or something else. -/
inductive Kind where
  | scalar
  | message (name : String)
  deriving DecidableEq

/-- A field with a number in its `protobuf` tag. -/
structure Member where
  number : Nat
  kind : Kind
  deriving DecidableEq

/-- A field of a generated struct. A oneof is an interface that holds a pointer to a struct
with one of its members. -/
inductive FieldType where
  /-- Without a tag that `protobufTagRegex` matches. -/
  | untagged
  | single (member : Member)
  | oneof (members : List Member)

/-- For each message, the fields of its struct in their order, and the name of the Go type. -/
structure Schema where
  fields : String → List FieldType
  typeName : String → String

mutual

/-- A pointer to the struct of a message. -/
inductive Message where
  | nil
  | struct (fields : List Field)

inductive Field where
  | scalar (zero : Bool)
  | message (value : Message)
  /-- The member that is set, if any. -/
  | oneof (set : Option (Member × Field))

end

def Field.isZero : Field → Bool
  | .scalar zero => zero
  | .message .nil => true
  | .message _ => false
  | .oneof none => true
  | .oneof (some _) => false

/-- A value that the walk has come to. -/
inductive Located where
  | scalar (zero : Bool)
  | message (name : String) (value : Message)

def Kind.locate : Kind → Field → Located
  | .message name, .message value => .message name value
  | _, field => .scalar field.isZero

inductive FindError where
  /-- empty Repository -/
  | targetRepoMissing
  /-- proto field is empty -/
  | protoFieldEmpty
  /-- unable to find protobuf field %d in message %s -/
  | unableToFind (protoField : Nat) (typeName : String)
  /-- unable to descend OID %+v into message %s: %v -/
  | unableToDescend (targetOID : List Nat) (message : String) (cause : FindError)
  /-- repo target OID %v points to non-Repo type %+v -/
  | nonRepoType (targetOID : List Nat)
  /-- proto message %s does not match expected RPC request message %s -/
  | messageMismatch (name requestName : String)
  deriving DecidableEq

inductive Failure where
  | panic
  | error (err : FindError)
  deriving DecidableEq

/-- The loop of `findProtoField` over the fields of a struct, with `tryNumberedField` and
`tryOneOfField`. -/
def scanFields (protoField : Nat) (isZero : Bool) :
    List (FieldType × Field) → Except Failure (Option Located)
  | [] => .ok none
  | (.untagged, _) :: rest => scanFields protoField isZero rest
  | (.single member, field) :: rest =>
    if member.number = protoField then .ok (some (member.kind.locate field))
    else scanFields protoField isZero rest
  | (.oneof _, field) :: rest =>
    if isZero then scanFields protoField isZero rest
    else
      match field with
      | .oneof (some (member, value)) =>
        if member.number = protoField then .ok (some (member.kind.locate value))
        else scanFields protoField isZero rest
      -- `Elem` of what is in a nil interface
      | _ => .error .panic

def findProtoField (schema : Schema) (protoField : Nat) : Located → Except Failure Located
  | .scalar zero => .error (if zero then .error .protoFieldEmpty else .panic)
  | .message _ .nil => .error (.error .protoFieldEmpty)
  | .message name (.struct fields) =>
    match scanFields protoField (fields.all Field.isZero) ((schema.fields name).zip fields) with
    | .error failure => .error failure
    | .ok none => .error (.error (.unableToFind protoField (schema.typeName name)))
    | .ok (some located) => .ok located

/-- The loop of `reflectFindOID`, over the rest of the path. -/
def descend (schema : Schema) (targetOID : List Nat) (message : String) :
    List Nat → Located → Except Failure Located
  | [], located => .ok located
  | fieldNo :: rest, located =>
    match findProtoField schema fieldNo located with
    | .error .panic => .error .panic
    | .error (.error err) => .error (.error (.unableToDescend targetOID message err))
    | .ok next => descend schema targetOID message rest next

def reflectFindOID (schema : Schema) (name : String) (pbMsg : Message) (targetOID : List Nat) :
    Except Failure Located :=
  descend schema targetOID name targetOID (.message name pbMsg)

/-- A pointer to a `Repository`, which may be nil. -/
def reflectFindRepoTarget (schema : Schema) (name : String) (pbMsg : Message)
    (targetOID : List Nat) : Except Failure Message :=
  match reflectFindOID schema name pbMsg targetOID with
  | .error failure =>
    .error (if failure = .error .protoFieldEmpty then .error .targetRepoMissing else failure)
  | .ok (.message "gitaly.Repository" targetRepo) => .ok targetRepo
  | .ok _ => .error (.error (.nonRepoType targetOID))

/-- What `TargetRepo` reads. -/
structure MethodInfo where
  targetRepo : List Nat
  requestName : String

def MethodInfo.getRepo (mi : MethodInfo) (schema : Schema) (name : String) (msg : Message)
    (targetOid : List Nat) : Except Failure Message :=
  if mi.requestName ≠ name then .error (.error (.messageMismatch name mi.requestName))
  else
    match reflectFindRepoTarget schema name msg targetOid with
    | .error failure => .error failure
    | .ok .nil => .error (.error .targetRepoMissing)
    | .ok repo => .ok repo

def MethodInfo.TargetRepo (mi : MethodInfo) (schema : Schema) (name : String) (msg : Message) :
    Except Failure Message :=
  mi.getRepo schema name msg mi.targetRepo

section types

def FieldType.members : FieldType → List Member
  | .untagged => []
  | .single member => [member]
  | .oneof members => members

/-- The numbered fields of a message. -/
def Schema.members (schema : Schema) (name : String) : List Member :=
  (schema.fields name).flatMap FieldType.members

/-- No two fields of a message have the same number. -/
def Schema.Numbered (schema : Schema) : Prop :=
  ∀ name, ((schema.members name).map Member.number).Nodup

mutual

/-- The values of a generated type. -/
inductive HasType (schema : Schema) : String → Message → Prop
  | nil (name : String) : HasType schema name .nil
  | struct {name : String} {fields : List Field} (complete : fields.length = (schema.fields name).length)
      (each : ∀ pair ∈ (schema.fields name).zip fields, FieldHasType schema pair.1 pair.2) :
      HasType schema name (.struct fields)

inductive FieldHasType (schema : Schema) : FieldType → Field → Prop
  | untagged (zero : Bool) : FieldHasType schema .untagged (.scalar zero)
  | single {member : Member} {value : Field} (typed : PayloadHasType schema member.kind value) :
      FieldHasType schema (.single member) value
  | unset (members : List Member) : FieldHasType schema (.oneof members) (.oneof none)
  | set {members : List Member} {member : Member} {value : Field} (among : member ∈ members)
      (typed : PayloadHasType schema member.kind value) :
      FieldHasType schema (.oneof members) (.oneof (some (member, value)))

inductive PayloadHasType (schema : Schema) : Kind → Field → Prop
  | scalar (zero : Bool) : PayloadHasType schema .scalar (.scalar zero)
  | message {name : String} {value : Message} (typed : HasType schema name value) :
      PayloadHasType schema (.message name) (.message value)

end

/-- A path of field numbers that leads from a message to a repository. -/
inductive LeadsToRepository (schema : Schema) : String → List Nat → Prop
  | here : LeadsToRepository schema "gitaly.Repository" []
  | field {name next : String} {member : Member} {path : List Nat}
      (among : member ∈ schema.members name) (isMessage : member.kind = .message next)
      (leads : LeadsToRepository schema next path) :
      LeadsToRepository schema name (member.number :: path)

end types

section path

/-- What a struct holds under a number: the field of that number, or the member of that number
if its oneof is set to it. -/
def held (protoField : Nat) : List (FieldType × Field) → Option Located
  | [] => none
  | (.single member, field) :: rest =>
    if member.number = protoField then some (member.kind.locate field) else held protoField rest
  | (.oneof _, .oneof (some (member, value))) :: rest =>
    if member.number = protoField then some (member.kind.locate value) else held protoField rest
  | _ :: rest => held protoField rest

/-- A oneof that is not set comes before what is held under a number. -/
def obstructed (protoField : Nat) : List (FieldType × Field) → Bool
  | [] => false
  | (.untagged, _) :: rest => obstructed protoField rest
  | (.single member, _) :: rest => member.number ≠ protoField && obstructed protoField rest
  | (.oneof _, .oneof (some (member, _))) :: rest =>
    member.number ≠ protoField && obstructed protoField rest
  | (.oneof _, _) :: _ => true

/-- The repository at the end of a path, unless something on the path is not set. -/
def stored (schema : Schema) : List Nat → Located → Option Message
  | [], .message _ (.struct fields) => some (.struct fields)
  | fieldNo :: rest, .message name (.struct fields) =>
    (held fieldNo ((schema.fields name).zip fields)).bind (stored schema rest)
  | _, _ => none

/-- Every message above the repository is set, every oneof on the path is set to the member on
the path, and the fields before it can be passed. -/
def Clear (schema : Schema) : List Nat → Located → Prop
  | [], _ => True
  | fieldNo :: rest, .message name (.struct fields) =>
    (fields.all Field.isZero = true ∨ obstructed fieldNo ((schema.fields name).zip fields) = false) ∧
      ∃ located, held fieldNo ((schema.fields name).zip fields) = some located ∧ Clear schema rest located
  | _ :: _, _ => False

theorem scanFields_eq {protoField : Nat} {isZero : Bool} {fields : List (FieldType × Field)}
    (empty : isZero = true → ∀ pair ∈ fields, pair.2.isZero = true) :
    scanFields protoField isZero fields =
      if isZero = false ∧ obstructed protoField fields = true then .error .panic
      else .ok (held protoField fields) := by
  induction fields with
  | nil => simp [scanFields, obstructed, held]
  | cons pair rest ih =>
    have later := ih (fun isEmpty other member =>
      empty isEmpty other (mem_cons_of_mem _ member))
    obtain ⟨type, field⟩ := pair
    cases type with
    | untagged => exact later
    | single member =>
      by_cases found : member.number = protoField
      · simp [scanFields, obstructed, held, found]
      · simpa [scanFields, obstructed, held, found] using later
    | oneof members =>
      cases isZero with
      | true =>
        have unset := empty rfl _ mem_cons_self
        match field, unset with
        | .scalar _, _ | .message _, _ | .oneof none, _ =>
          simpa [scanFields, obstructed, held] using later
      | false =>
        match field with
        | .scalar _ | .message _ | .oneof none => simp [scanFields, obstructed]
        | .oneof (some (member, value)) =>
          by_cases found : member.number = protoField
          · simp [scanFields, obstructed, held, found]
          · simpa [scanFields, obstructed, held, found] using later

theorem findProtoField_eq (schema : Schema) (protoField : Nat) (name : String)
    (fields : List Field) :
    findProtoField schema protoField (.message name (.struct fields)) =
      if fields.all Field.isZero = false ∧
          obstructed protoField ((schema.fields name).zip fields) = true then .error .panic
      else
        match held protoField ((schema.fields name).zip fields) with
        | none => .error (.error (.unableToFind protoField (schema.typeName name)))
        | some located => .ok located := by
  have empty : fields.all Field.isZero = true →
      ∀ pair ∈ (schema.fields name).zip fields, pair.2.isZero = true := by
    intro all pair member
    exact all_eq_true.mp all _ (of_mem_zip member).2
  rw [findProtoField, scanFields_eq empty]
  by_cases stuck : fields.all Field.isZero = false ∧
      obstructed protoField ((schema.fields name).zip fields) = true
  · rw [if_pos stuck, if_pos stuck]
  · rw [if_neg stuck, if_neg stuck]
    cases held protoField ((schema.fields name).zip fields) <;> rfl

variable {schema : Schema}

/-- The walk gets to the end of a path exactly if the path is clear. -/
theorem descend_ok_iff (targetOID : List Nat) (message : String) {path : List Nat}
    {start : Located} :
    (∃ located, descend schema targetOID message path start = .ok located) ↔
      Clear schema path start := by
  induction path generalizing start with
  | nil => simp [descend, Clear]
  | cons fieldNo rest ih =>
    match start with
    | .scalar zero =>
      cases zero <;> simp [descend, findProtoField, Clear]
    | .message name .nil => simp [descend, findProtoField, Clear]
    | .message name (.struct fields) =>
      rw [descend, findProtoField_eq, Clear]
      by_cases stuck : fields.all Field.isZero = false ∧
          obstructed fieldNo ((schema.fields name).zip fields) = true
      · rw [if_pos stuck]
        simp [stuck]
      have free : fields.all Field.isZero = true ∨
          obstructed fieldNo ((schema.fields name).zip fields) = false := by
        rwa [not_and_or, Bool.not_eq_false, Bool.not_eq_true] at stuck
      rw [if_neg stuck]
      cases held fieldNo ((schema.fields name).zip fields) with
      | none => simp
      | some next => simp only [ih, free, true_and, Option.some.injEq, exists_eq_left']

theorem findProtoField_ok {protoField : Nat} {start next : Located}
    (found : findProtoField schema protoField start = .ok next) :
    ∃ name fields, start = .message name (.struct fields) ∧
      held protoField ((schema.fields name).zip fields) = some next := by
  match start with
  | .scalar zero => cases found
  | .message name .nil => cases found
  | .message name (.struct fields) =>
    rw [findProtoField_eq] at found
    split at found
    · cases found
    refine ⟨name, fields, rfl, ?_⟩
    cases isHeld : held protoField ((schema.fields name).zip fields) with
    | none =>
      rw [isHeld] at found
      cases found
    | some located =>
      rw [isHeld] at found
      cases found
      rfl

variable {message : String} {start located : Located}

theorem descend_cons_ok {targetOID rest : List Nat} {fieldNo : Nat}
    (reached : descend schema targetOID message (fieldNo :: rest) start = .ok located) :
    ∃ next, findProtoField schema fieldNo start = .ok next ∧
      descend schema targetOID message rest next = .ok located := by
  rw [descend] at reached
  split at reached
  · cases reached
  · cases reached
  rename_i next found
  exact ⟨next, found, reached⟩

/-- What is at the end of a clear path is what is stored there. -/
theorem descend_stored {targetOID path : List Nat}
    (reached : descend schema targetOID message path start = .ok located) :
    stored schema path start = stored schema [] located := by
  induction path generalizing start with
  | nil =>
    cases reached
    rfl
  | cons fieldNo rest ih =>
    obtain ⟨next, found, remaining⟩ := descend_cons_ok reached
    obtain ⟨name, fields, rfl, isHeld⟩ := findProtoField_ok found
    rw [stored, isHeld, Option.bind_some, ih remaining]

/-- A walk fails with a panic, or with an error that names the whole path. -/
theorem descend_error {targetOID path : List Nat} {start : Located}
    {failure : Failure} (failed : descend schema targetOID message path start = .error failure) :
    failure = .panic ∨ ∃ cause, failure = .error (.unableToDescend targetOID message cause) := by
  induction path generalizing start with
  | nil => cases failed
  | cons fieldNo rest ih =>
    rw [descend] at failed
    split at failed
    · cases failed
      exact .inl rfl
    · cases failed
      exact .inr ⟨_, rfl⟩
    · exact ih failed

end path

section typed

variable {schema : Schema}

/-- A field of a number, or a oneof that is set to a member of that number. -/
def HeldBy (protoField : Nat) (located : Located) (pair : FieldType × Field) : Prop :=
  ∃ member value, member.number = protoField ∧ located = member.kind.locate value ∧
    (pair = (.single member, value) ∨
      ∃ members, pair = (.oneof members, .oneof (some (member, value))))

variable {located : Located}

theorem held_eq_some {protoField : Nat} {fields : List (FieldType × Field)}
    (found : held protoField fields = some located) :
    ∃ pair ∈ fields, HeldBy protoField located pair := by
  induction fields with
  | nil => cases found
  | cons pair rest ih =>
    -- in all cases but those of a match the rest of the fields is looked at
    have later : held protoField rest = some located →
        ∃ other ∈ pair :: rest, HeldBy protoField located other := by
      intro remaining
      obtain ⟨other, present, known⟩ := ih remaining
      exact ⟨other, mem_cons_of_mem _ present, known⟩
    match pair with
    | (.untagged, _) | (.oneof _, .scalar _) | (.oneof _, .message _) | (.oneof _, .oneof none) =>
      exact later found
    | (.single member, value) =>
      rw [held] at found
      split at found
      · rename_i same
        cases found
        exact ⟨_, mem_cons_self, member, value, same, rfl, .inl rfl⟩
      · exact later found
    | (.oneof members, .oneof (some (member, value))) =>
      rw [held] at found
      split at found
      · rename_i same
        cases found
        exact ⟨_, mem_cons_self, member, value, same, rfl, .inr ⟨members, rfl⟩⟩
      · exact later found

/-- A number stands for one member of a message. -/
theorem held_typed (numbered : schema.Numbered) {name : String} {fields : List Field}
    {member : Member} (each : ∀ pair ∈ (schema.fields name).zip fields, FieldHasType schema pair.1 pair.2)
    (among : member ∈ schema.members name)
    (found : held member.number ((schema.fields name).zip fields) = some located) :
    ∃ value, located = member.kind.locate value ∧ PayloadHasType schema member.kind value := by
  obtain ⟨⟨type, field⟩, present, other, value, same, rfl, isField⟩ := held_eq_some found
  have typed := each _ present
  have listed : other ∈ type.members ∧ PayloadHasType schema other.kind value := by
    rcases isField with single | ⟨members, oneof⟩
    · cases single
      cases typed with
      | single isTyped => exact ⟨mem_singleton.mpr rfl, isTyped⟩
    · cases oneof
      cases typed with
      | set isMember isTyped => exact ⟨isMember, isTyped⟩
  have isMember : other ∈ schema.members name :=
    mem_flatMap.mpr ⟨type, (of_mem_zip present).1, listed.1⟩
  cases inj_on_of_nodup_map (numbered name) isMember among same
  exact ⟨value, rfl, listed.2⟩

/-- A walk along a path that leads to a repository ends at one. -/
theorem descend_typed (numbered : schema.Numbered) {targetOID path : List Nat}
    {message name : String} {value : Message}
    (leads : LeadsToRepository schema name path) (typed : HasType schema name value)
    (reached : descend schema targetOID message path (.message name value) = .ok located) :
    ∃ repository, located = .message "gitaly.Repository" repository := by
  induction leads generalizing value with
  | here =>
    cases reached
    exact ⟨value, rfl⟩
  | field among isMessage leads ih =>
    obtain ⟨next, found, remaining⟩ := descend_cons_ok reached
    obtain ⟨_, fields, isStruct, isHeld⟩ := findProtoField_ok found
    cases isStruct
    cases typed with
    | struct complete each =>
      obtain ⟨payload, rfl, isTyped⟩ := held_typed numbered each among isHeld
      rw [isMessage] at isTyped remaining
      cases isTyped with
      | message isTyped => exact ih isTyped remaining

end typed

/-- What `TargetRepo` is to return: the repository, or that it is missing. -/
def expected (stored : Option Message) : Except Failure Message :=
  match stored with
  | some repository => .ok repository
  | none => .error (.error .targetRepoMissing)

/-- The repository that a request is about is returned, or reported missing, exactly if the path
to it is clear. -/
theorem TargetRepo_expected_iff {schema : Schema} (numbered : schema.Numbered) {mi : MethodInfo}
    (leads : LeadsToRepository schema mi.requestName mi.targetRepo) {msg : Message}
    (typed : HasType schema mi.requestName msg) :
    mi.TargetRepo schema mi.requestName msg =
        expected (stored schema mi.targetRepo (.message mi.requestName msg)) ↔
      Clear schema mi.targetRepo (.message mi.requestName msg) := by
  rw [← descend_ok_iff mi.targetRepo mi.requestName]
  unfold MethodInfo.TargetRepo MethodInfo.getRepo reflectFindRepoTarget reflectFindOID
  rw [if_neg (fun different => different rfl)]
  cases walked : descend schema mi.targetRepo mi.requestName mi.targetRepo
      (.message mi.requestName msg) with
  | error failure =>
    refine iff_of_false ?_ (fun reached => by obtain ⟨_, isOk⟩ := reached; cases isOk)
    intro returned
    have different : failure ≠ .error .protoFieldEmpty ∧ failure ≠ .error .targetRepoMissing := by
      rcases descend_error walked with rfl | ⟨cause, rfl⟩ <;> simp
    dsimp only at returned
    rw [if_neg different.1] at returned
    unfold expected at returned
    split at returned
    · cases returned
    · exact different.2 (Except.error.inj returned)
  | ok located =>
    refine iff_of_true ?_ ⟨located, rfl⟩
    obtain ⟨repository, rfl⟩ := descend_typed numbered leads typed walked
    rw [descend_stored walked]
    cases repository <;> rfl

/-- Two requests of the schema: in one the repository is in a header that is a member of a
oneof, in the other one it follows a oneof that is not on the path to it. -/
def requests : Schema where
  fields
    | "gitaly.Stream" => [.untagged, .oneof [⟨1, .message "gitaly.Header"⟩, ⟨2, .scalar⟩]]
    | "gitaly.Header" => [.untagged, .single ⟨1, .message "gitaly.Repository"⟩]
    | "gitaly.Unary" =>
      [.untagged, .oneof [⟨2, .scalar⟩], .single ⟨1, .message "gitaly.Repository"⟩]
    | _ => [.untagged]
  typeName
    | "gitaly.Stream" => "Stream"
    | "gitaly.Header" => "Header"
    | "gitaly.Unary" => "Unary"
    | _ => "Repository"

def streamInfo : MethodInfo := ⟨[1, 1], "gitaly.Stream"⟩

def unaryInfo : MethodInfo := ⟨[1], "gitaly.Unary"⟩

/-- A request without a header, one with a header that is nil, and one that sets its repository
but not the oneof before it. -/
theorem TargetRepo_unexpected :
    streamInfo.TargetRepo requests "gitaly.Stream" (.struct [.scalar false, .oneof none]) =
        .error .panic ∧
      streamInfo.TargetRepo requests "gitaly.Stream" (.struct [.scalar false,
        .oneof (some (⟨1, .message "gitaly.Header"⟩, .message .nil))]) =
        .error (.error (.unableToDescend [1, 1] "gitaly.Stream" .protoFieldEmpty)) ∧
      streamInfo.TargetRepo requests "gitaly.Stream" (.struct [.scalar false,
        .oneof (some (⟨2, .scalar⟩, .scalar false))]) =
        .error (.error (.unableToDescend [1, 1] "gitaly.Stream"
          (.unableToFind 1 "Stream"))) ∧
      unaryInfo.TargetRepo requests "gitaly.Unary" (.struct [.scalar false, .oneof none,
        .message (.struct [.scalar false])]) = .error .panic :=
  ⟨rfl, rfl, rfl, rfl⟩

/-- A header without a repository is reported as such. -/
theorem TargetRepo_missing :
    streamInfo.TargetRepo requests "gitaly.Stream" (.struct [.scalar false,
        .oneof (some (⟨1, .message "gitaly.Header"⟩, .message (.struct [.scalar false,
          .message .nil])))]) = expected none := by
  have numbered : requests.Numbered := by
    intro name
    unfold Schema.members requests
    dsimp only
    split <;> decide
  have header : (⟨1, .message "gitaly.Header"⟩ : Member) ∈ requests.members "gitaly.Stream" := by
    decide
  have repository : (⟨1, .message "gitaly.Repository"⟩ : Member) ∈
      requests.members "gitaly.Header" := by decide
  have leads : LeadsToRepository requests "gitaly.Stream" [1, 1] :=
    .field header rfl (.field repository rfl .here)
  have typedHeader : HasType requests "gitaly.Header" (.struct [.scalar false, .message .nil]) := by
    refine .struct rfl (forall_mem_cons.mpr ⟨.untagged false, forall_mem_cons.mpr ⟨?_, ?_⟩⟩)
    · exact .single (.message (.nil _))
    · exact fun _ absent => absurd absent not_mem_nil
  have typed : HasType requests "gitaly.Stream" (.struct [.scalar false,
      .oneof (some (⟨1, .message "gitaly.Header"⟩, .message (.struct [.scalar false,
        .message .nil])))]) := by
    refine .struct rfl (forall_mem_cons.mpr ⟨.untagged false, forall_mem_cons.mpr ⟨?_, ?_⟩⟩)
    · exact .set mem_cons_self (.message typedHeader)
    · exact fun _ absent => absurd absent not_mem_nil
  exact (TargetRepo_expected_iff numbered (show LeadsToRepository requests streamInfo.requestName
    streamInfo.targetRepo from leads) typed).mpr
    ⟨.inr rfl, _, rfl, .inr rfl, _, rfl, trivial⟩

end Gitaly.Praefect.Protoregistry
