import SdtTr369.DataModel

/-!
# Reading the data model

What `data_model.c` and `group_get_vector.c` tell about a path without changing
the data model: the permissions of a role, the value of a parameter, the
properties of a path, the instances of an object and the values of a group of
parameters. Tables whose instances come from a callback may be refreshed.
-/

namespace DataModelRead

open UspTypes Schema DecimalText PathCodec Agent InstVector DataModel

/-! ## Permissions -/

/-- The bits of a permission bitmask, `PERMIT_GET` and so on. -/
inductive Permit where
  | get
  | set
  | add
  | del
  | oper
  | subsValChange
  | subsObjAdd
  | getInst
  | subsObjDel
  | subsEvtOperComp
  | objInfo
  | cmdInfo
  deriving DecidableEq, Repr

/-- `dm_node_t.permissions[]` of all nodes. -/
abbrev PermissionTable := NodeId → Nat → Permit → Bool

def ctrustRoleMax : Nat := 2
def invalidRole : Nat := ctrustRoleMax

/-- `combined_role_t`. -/
structure CombinedRole where
  inherited : Nat
  assigned : Nat
  deriving DecidableEq, Repr

def rolePermissions (P : PermissionTable) (node : NodeId) (role : Nat) : Permit → Bool :=
  if role < ctrustRoleMax ∧ role ≠ invalidRole then P node role else fun _ => false

/-- `DM_PRIV_GetPermissions`; no role is `INTERNAL_ROLE`. -/
def getPermissions (P : PermissionTable) (node : NodeId) : Option CombinedRole → Permit → Bool
  | none => fun _ => true
  | some role => fun p =>
    rolePermissions P node role.inherited p || rolePermissions P node role.assigned p

variable (S : DmTree) (P : PermissionTable) (W : World)

/-! ## Values -/

def maxDmValueLen : Nat := 4096

/-- The characters in front of the terminator. -/
def cString (s : Str) : Str := s.takeWhile (· ≠ Char.ofNat 0)

/-- `DATABASE_GetParameterValue`; `none`: there is no row. -/
def databaseGetParameterValue (key : Key) (bufLen : Nat) (obfuscated : Bool) :
    Op (Option Str) := do
  let fails ← call W.readFails
  if fails then .fail .internalError
  else .read fun a => (a.db.get key).map fun value =>
    let text := value.take (bufLen - 1)
    if obfuscated then cString (obfuscatedCopy text) else cString text

/-- `GetVendorParam`, whose hooks answer for themselves. -/
def getVendorParam (node : NodeId) (path : Str) : Op Str := do
  if (S.node node).registered.groupId.isNone then
    match ← call W.getValue with
    | .error e => .fail e
    | .ok value => pure value
  else
    match ← call W.groupGet with
    | .error _ => .fail .internalError
    | .ok values =>
      match values path with
      | none => .fail .internalError
      | some value => pure value

/-- The flag of `DATA_MODEL_GetParameterValue`. -/
structure GetFlags where
  showPassword : Bool := false
  deriving DecidableEq, Repr

/-- The value in the database, or the default value. -/
def getDbParam (node : NodeId) (inst : DmInstances) (bufLen : Nat) (obfuscated : Bool) :
    Op Str := do
  match ← databaseGetParameterValue W (rowKey S node inst) bufLen obfuscated with
  | some value => pure value
  | none => pure (S.node node).registered.defaultValue

/-- The switch of `DATA_MODEL_GetParameterValue` on the type of the node. -/
def getValueOfType (path : Str) (node : NodeId) (inst : DmInstances) (bufLen : Nat)
    (flags : GetFlags) : Op Str :=
  match (S.node node).type with
  | .paramConstantValue => pure (S.node node).registered.defaultValue
  | .dbParamSecure =>
    if flags.showPassword then getDbParam S W node inst bufLen true else pure []
  | .dbParamReadWrite | .dbParamReadOnly | .dbParamReadOnlyAuto | .dbParamReadWriteAuto =>
    getDbParam S W node inst bufLen false
  | .paramNumEntries => do
    let numInstances ←
      instVectorGetNumInstances S W (S.node node).registered.tableNode inst
    pure (natDigits numInstances)
  | .vendorParamReadOnly | .vendorParamReadWrite => getVendorParam S W node path
  | .objectMultiInstance | .objectSingleInstance | .syncOperation | .asyncOperation | .event =>
    .fail .invalidPath

/-- `DATA_MODEL_GetParameterValue`. -/
def getParameterValue (path : Str) (bufLen : Nat) (flags : GetFlags) : Op Str := do
  match getNodeFromPath S path with
  | none => .fail .invalidPath
  | some (node, inst) =>
    if ← instVectorIsExist S W inst then
      let value ← getValueOfType S W path node inst bufLen flags
      pure (value.take (bufLen - 1))
    else .fail .objectDoesNotExist

/-! ## Path properties -/

/-- The `PP_` flags. -/
structure PathFlags where
  existsInSchema : Bool := false
  isObject : Bool := false
  isParameter : Bool := false
  isOperation : Bool := false
  isEvent : Bool := false
  isObjectInstance : Bool := false
  instanceNumbersExist : Bool := false
  parentInstanceNumbersExist : Bool := false
  isMultiInstanceObject : Bool := false
  isSecureParam : Bool := false
  isWritable : Bool := false
  deriving DecidableEq, Repr

/-- A word read as flags, from `PP_EXISTS_IN_SCHEMA` on. -/
def flagsOfWord (word : Nat) : PathFlags where
  existsInSchema := word.testBit 0
  isObject := word.testBit 1
  isParameter := word.testBit 2
  isOperation := word.testBit 3
  isEvent := word.testBit 4
  isObjectInstance := word.testBit 5
  instanceNumbersExist := word.testBit 6
  parentInstanceNumbersExist := word.testBit 7
  isMultiInstanceObject := word.testBit 8
  isSecureParam := word.testBit 9
  isWritable := word.testBit 10

/-- `USP_ERR_INTERNAL_ERROR`. -/
def uspErrInternalError : Nat := 7003

def isWritableType : NodeType → Bool
  | .dbParamSecure | .dbParamReadWrite | .dbParamReadWriteAuto | .vendorParamReadWrite => true
  | _ => false

def isOperationType : NodeType → Bool
  | .syncOperation | .asyncOperation => true
  | _ => false

/-- The flags that follow from the node. -/
def nodeFlags (type : NodeType) (isQualified : Bool) : PathFlags where
  existsInSchema := true
  isObject := isObject type
  isParameter := isParam type
  isOperation := isOperationType type
  isEvent := type = .event
  isObjectInstance := isObject type && isQualified
  isMultiInstanceObject := type = .objectMultiInstance
  isSecureParam := type = .dbParamSecure
  isWritable := isWritableType type

/-- What `DATA_MODEL_GetPathProperties` returns and fills in. -/
structure PathProperties where
  flags : PathFlags := {}
  permissions : Permit → Bool := fun _ => false
  groupId : Option Nat := none
  paramType : Option ParamType := none

def nodeProperties (role : Option CombinedRole) (node : NodeId) (isQualified : Bool) :
    PathProperties where
  flags := nodeFlags (S.node node).type isQualified
  permissions := getPermissions P node role
  groupId := if isParam (S.node node).type then (S.node node).registered.groupId else none
  paramType :=
    if isParam (S.node node).type then some (S.node node).registered.paramType else none

/-- The instance bits of the flags. `DM_INST_VECTOR_IsExist` fails only with
`USP_ERR_INTERNAL_ERROR`, and its code is then returned in place of the flags. -/
def addInstanceFlags (flags : PathFlags) (inst : DmInstances) (isQualified : Bool) :
    Op PathFlags := do
  match ← .attempt (instVectorIsExist S W inst) with
  | .error _ => pure (flagsOfWord uspErrInternalError)
  | .ok true =>
    pure { flags with instanceNumbersExist := true, parentInstanceNumbersExist := true }
  | .ok false =>
    if isQualified = false then pure flags
    else match ← .attempt (instVectorIsExist S W inst.dropLast) with
      | .error _ => pure (flagsOfWord uspErrInternalError)
      | .ok parentExists => pure { flags with parentInstanceNumbersExist := parentExists }

/-- `DATA_MODEL_GetPathProperties`. -/
def getPathProperties (path : Str) (role : Option CombinedRole) : Op PathProperties := do
  match getQualifiedNode S path with
  | none => pure {}
  | some (node, inst, isQualified) =>
    let properties := nodeProperties S P role node isQualified
    let flags ← addInstanceFlags S W properties.flags inst isQualified
    pure { properties with flags := flags }

/-! ## Values of groups of parameters -/

def maxVendorParamGroups : Nat := 10

/-- `group_get_entry_t`; the outcome is the value or the error code, once known. -/
structure GroupGetEntry where
  path : Str
  groupId : Option Nat
  outcome : Option (Except Err Str) := none

/-- The first loop of `GROUP_GET_VECTOR_GetValues`. -/
def getUngrouped : List GroupGetEntry → Op (List GroupGetEntry)
  | [] => pure []
  | gge :: rest => do
    let got ← if gge.groupId.isNone then do
        let value ← .attempt (getParameterValue S W gge.path maxDmValueLen {})
        pure { gge with outcome := some value }
      else pure gge
    let rest ← getUngrouped rest
    pure (got :: rest)

/-- The entries of a group after its callback has been called. -/
def fillGroup (group : Nat) (answer : Except Err (Str → Option Str)) (gge : GroupGetEntry) :
    GroupGetEntry :=
  if gge.groupId ≠ some group then gge
  else match answer with
    | .error _ => { gge with outcome := some (.error .internalError) }
    | .ok values => match values gge.path with
      | none => { gge with outcome := some (.error .internalError) }
      | some value => { gge with outcome := some (.ok value) }

/-- `GetParameterGroup`, called for the groups that have an entry. -/
def getParameterGroup (ggv : List GroupGetEntry) (group : Nat) : Op (List GroupGetEntry) := do
  if ggv.any fun gge => gge.groupId = some group then
    let answer ← call W.groupGet
    pure (ggv.map (fillGroup group answer))
  else pure ggv

def getGroups : List Nat → List GroupGetEntry → Op (List GroupGetEntry)
  | [], ggv => pure ggv
  | group :: groups, ggv => do getGroups groups (← getParameterGroup W ggv group)

/-- `GROUP_GET_VECTOR_GetValues`. -/
def groupGetValues (ggv : List GroupGetEntry) : Op (List GroupGetEntry) := do
  getGroups W (List.range maxVendorParamGroups) (← getUngrouped S W ggv)

end DataModelRead
