import SdtTr369.DmTrans

/-!
# Operations on the data model

The functions of `data_model.c` that add and delete instances and set
parameters. Recursion over the schema carries fuel; a child has a higher index
than its parent, so that the number of nodes is always enough.
-/

namespace DataModel

open UspTypes Schema PathCodec DecimalText Agent InstVector DmTrans

variable (S : DmTree) (W : World)

/-- `USP_SNPRINTF` of a dot and a name behind a path, cut off by the buffer. -/
def appendName (path name : Str) : Str := (path ++ '.' :: name).take (maxDmPath - 1)

def rowKey (param : NodeId) (inst : DmInstances) : Key :=
  ((S.node param).hash, formInstanceString (instances inst))

/-- `AddChildParamsDefaultValues`. -/
def addChildParamsDefaultValues : Nat → NodeId → DmInstances → Op Unit
  | 0, _, _ => pure ()
  | fuel + 1, node, inst => .forEach (S.node node).childNodes fun child =>
    match (S.node child).type with
    | .dbParamReadOnly | .dbParamReadWrite | .dbParamSecure =>
      databaseSetParameterValue W (rowKey S child inst) (S.node child).registered.defaultValue false
    | .dbParamReadOnlyAuto | .dbParamReadWriteAuto => do
      match ← call W.getValue with
      | .error e => .fail e
      | .ok newValue => databaseSetParameterValue W (rowKey S child inst) newValue false
    | .objectSingleInstance => addChildParamsDefaultValues fuel child inst
    | _ => pure ()

/-- `DeleteChildParams_MultiInstanceObject`, `deleteChildParams` being the
mutually recursive `DeleteChildParams`. -/
def deleteTableInstances (deleteChildParams : Str → NodeId → DmInstances → Op Unit) (path : Str)
    (node : NodeId) (inst : DmInstances) : Op Unit := do
  let iv ← instVectorGetInstances S W node inst
  .forEach iv fun n => do
    let instPath := appendName path (intDigits n)
    deleteChildParams instPath node (inst ++ [(node, n)])
    instVectorRemove S (inst ++ [(node, n)])
    transAdd S W .del instPath none node (inst ++ [(node, n)])

/-- `DeleteChildParams`. -/
def deleteChildParams : Nat → Str → NodeId → DmInstances → Op Unit
  | 0, _, _, _ => pure ()
  | fuel + 1, path, node, inst => .forEach (S.node node).childNodes fun child =>
    match (S.node child).type with
    | .dbParamReadOnly | .dbParamReadWrite | .dbParamReadOnlyAuto | .dbParamReadWriteAuto
    | .dbParamSecure => databaseDeleteParameter W (rowKey S child inst)
    | .objectSingleInstance =>
      deleteChildParams fuel (appendName path (S.node child).name) child inst
    | .objectMultiInstance =>
      deleteTableInstances S W (deleteChildParams fuel) (appendName path (S.node child).name)
        child inst
    | _ => pure ()

/-- The flags of `DATA_MODEL_AddInstance`. -/
structure AddFlags where
  checkCreatable : Bool := false
  ignoreInstanceExists : Bool := false
  deriving DecidableEq, Repr

/-- The instance to add, still without its number when the vendor gives it. -/
structure NewInstance where
  parent : DmInstances
  parentPath : Str
  number : Option Int

/-- The part of `DATA_MODEL_AddInstance` that determines the instance number.
`none`: the instance exists already and that is to be ignored. -/
def chooseInstance (internalPath : Str) (wantInstance : Bool) (flags : AddFlags)
    (node : NodeId) (inst : DmInstances) : Op (Option NewInstance) :=
  if (S.node node).registered.groupId.isSome then pure (some ⟨inst, internalPath, none⟩)
  else if wantInstance then do
    let n ← getNextInstance S node inst
    pure (some ⟨inst, internalPath, some n⟩)
  else do
    if ← instVectorIsExist S W inst then
      if flags.ignoreInstanceExists then pure none else .fail .requestDenied
    else match inst.getLast? with
      | none => .require false
                pure none
      | some last => pure (some ⟨inst.dropLast,
          ((internalPath.reverse.dropWhile (· ≠ '.')).drop 1).reverse, some last.2⟩)

/-- The vendor hooks of an add: they may refuse it, and for a grouped table they
give the number. -/
def addHooks (flags : AddFlags) (number : Option Int) : Op Int := do
  match number with
  | some n => do
    if flags.checkCreatable then vendorHook W
    vendorHook W
    pure n
  | none => do
    match ← call W.groupAdd with
    | .error e => .fail e
    | .ok n => pure n

/-- The part of `DATA_MODEL_AddInstance` after the vendor hooks. -/
def registerInstance (parentPath : Str) (node : NodeId) (parent : DmInstances) (n : Int) :
    Op Unit := do
  let inst := parent ++ [(node, n)]
  instVectorAdd S inst
  match ← .attempt (addChildParamsDefaultValues S W S.nodes.length node inst) with
  | .error e => do
    instVectorRemove S inst
    .fail e
  | .ok _ => transAdd S W .add (appendName parentPath (intDigits n)) none node inst

def stripTrailingDot (path : Str) : Str :=
  if path.getLast? = some '.' then path.dropLast else path

/-- `DATA_MODEL_AddInstance`; with `wantInstance` the agent gives the number and
returns it, and else the path contains it. -/
def addInstance (path : Str) (wantInstance : Bool) (flags : AddFlags) : Op (Option Int) := do
  if maxDmPath ≤ path.length then .fail .resourcesExceeded
  else
    let internalPath := stripTrailingDot path
    match getQualifiedNode S internalPath with
    | none => .fail .objectDoesNotExist
    | some (node, inst, isQualified) =>
      let info := (S.node node).registered
      let numberInPath := !wantInstance && info.groupId.isNone
      if (S.node node).type ≠ .objectMultiInstance then .fail .objectNotCreatable
      else if info.groupId.isSome && !info.groupWritable then .fail .objectNotCreatable
      else if isQualified ≠ numberInPath then .fail .objectNotCreatable
      else
        match ← chooseInstance S W internalPath wantInstance flags node inst with
        | none => pure none
        | some new =>
          if ← instVectorIsExist S W new.parent then
            let n ← addHooks W flags new.number
            registerInstance S W new.parentPath node new.parent n
            pure (some n)
          else .fail .objectDoesNotExist

/-- The flags of `DATA_MODEL_DeleteInstance`. -/
structure DelFlags where
  checkDeletable : Bool := false
  ignoreNoInstance : Bool := false
  deriving DecidableEq, Repr

/-- The vendor hooks of a delete. -/
def deleteHooks (info : Registered) (flags : DelFlags) : Op Unit := do
  if info.groupId.isSome then
    if info.groupWritable = false then .fail .objectNotDeletable
    else vendorHook W
  else do
    if flags.checkDeletable then vendorHook W
    vendorHook W

/-- The part of `DATA_MODEL_DeleteInstance` for a table instance that exists. The
deletion is logged before the children are deleted, and the instance is removed
after that. -/
def deleteFound (path : Str) (flags : DelFlags) (node : NodeId) (inst : DmInstances) :
    Op Unit := do
  deleteHooks W (S.node node).registered flags
  transAdd S W .del path none node inst
  deleteChildParams S W S.nodes.length (path.take (maxDmPath - 1)) node inst
  instVectorRemove S inst

/-- `DATA_MODEL_DeleteInstance`. -/
def deleteInstance (path : Str) (flags : DelFlags) : Op Unit := do
  match getQualifiedNode S path with
  | none => .fail .objectDoesNotExist
  | some (node, inst, isQualified) =>
    if isQualified = false then .fail .objectNotCreatable
    else if ← instVectorIsExist S W inst then
      if (S.node node).type ≠ .objectMultiInstance then .fail .objectNotCreatable
      else deleteFound S W path flags node inst
    else if flags.ignoreNoInstance then pure ()
    else .fail .objectDoesNotExist

/-- The write of `DATA_MODEL_SetParameterValue`, by the type of the parameter. -/
def writeParameter (checkWritable : Bool) (node : NodeId) (inst : DmInstances) (newValue : Str) :
    Op Unit :=
  match (S.node node).type with
  | .dbParamReadOnly | .dbParamReadOnlyAuto => do
    if checkWritable then .fail .paramReadOnly
    else
      convert
      databaseSetParameterValue W (rowKey S node inst) newValue false
  | .dbParamReadWrite | .dbParamReadWriteAuto => do
    convert
    vendorHook W
    databaseSetParameterValue W (rowKey S node inst) newValue false
  | .dbParamSecure => do
    convert
    vendorHook W
    databaseSetParameterValue W (rowKey S node inst) newValue true
  | .vendorParamReadWrite => do
    convert
    vendorHook W
  | _ => .fail .paramReadOnly
where
  /-- `DM_PRIV_InitSetRequest` refuses a value that is not of the registered type. -/
  convert : Op Unit := do
    match ← call W.convertValue with
    | none => pure ()
    | some e => .fail e

/-- `DATA_MODEL_SetParameterValue`. The number of instance numbers in the path is
not compared with the order of the parameter. -/
def setParameterValue (path newValue : Str) (checkWritable : Bool) : Op Unit := do
  match getNodeFromPath S path with
  | none => .fail .unsupportedParam
  | some (node, inst) =>
    if isParam (S.node node).type = false then .fail .invalidPath
    else if ← instVectorIsExist S W inst then
      writeParameter S W checkWritable node inst newValue
      instVectorAdd S inst
      transAdd S W .set path (some newValue) node inst
    else .fail .invalidPath

/-- `DATA_MODEL_InformInstance`. -/
def informInstance (path : Str) : Op Unit :=
  match getQualifiedNode S path with
  | none => .fail .invalidPath
  | some (_, inst, isQualified) =>
    if isQualified = false ∨ inst = [] then .fail .invalidPath
    else instVectorAdd S inst

/-- `DATA_MODEL_NotifyInstanceAdded`. -/
def notifyInstanceAdded (path : Str) : Op Unit := do
  match getQualifiedNode S path with
  | none => .fail .objectDoesNotExist
  | some (node, inst, isQualified) =>
    if (S.node node).type ≠ .objectMultiInstance then .fail .objectNotCreatable
    else if isQualified = false then .fail .invalidArguments
    else if ← instVectorIsExist S W inst then .fail .creationFailure
    else if ← instVectorIsExist S W inst.dropLast then instVectorAdd S inst
    else .fail .objectDoesNotExist

/-- `DATA_MODEL_NotifyInstanceDeleted`. -/
def notifyInstanceDeleted (path : Str) : Op Unit := do
  match getQualifiedNode S path with
  | none => .fail .objectDoesNotExist
  | some (node, inst, isQualified) =>
    if (S.node node).type ≠ .objectMultiInstance then .fail .objectNotCreatable
    else if isQualified = false then .fail .objectNotCreatable
    else if ← instVectorIsExist S W inst then
      resolveObjectDeletionPaths S W
      instVectorRemove S inst
    else .fail .objectDoesNotExist

/-- `DATA_MODEL_AddParameterInstances`: the tuple of a stored row is registered,
its ancestors are not. -/
def addParameterInstances (key : Key) : Op Unit :=
  match findNodeFromHash S key.1 with
  | none => .fail .invalidPath
  | some node =>
    match parseInstanceString key.2 with
    | none => .fail .internalError
    | some numbers =>
      if numbers.length ≠ (S.node node).order then .fail .internalError
      else instVectorAdd S (zipNodes (S.node node).instanceNodes numbers)

/-- The turn of one row in `DATABASE_ReadDataModelInstanceNumbers`. -/
def readRow (removeUnknownParams : Bool) (row : Key × Str) : Op Unit := do
  match ← .attempt (addParameterInstances S row.1) with
  | .ok _ => pure ()
  | .error _ => if removeUnknownParams then .ignore (databaseDeleteParameter W row.1)

/-- `DATABASE_ReadDataModelInstanceNumbers`. -/
def readDataModelInstanceNumbers (removeUnknownParams : Bool) : Op Unit := do
  let rows ← .read (·.db.rows)
  .forEach rows (readRow S W removeUnknownParams)

/-- Whether `DATA_MODEL_GetPathProperties` reports a secure parameter. When the
instances cannot be refreshed it returns the error code 7003 in place of the
flags, and that number has the bit of `PP_IS_SECURE_PARAM`. -/
def isSecurePath (path : Str) : Op Bool := do
  match getQualifiedNode S path with
  | none => pure false
  | some (node, inst, _) =>
    match ← .attempt (instVectorIsExist S W inst) with
    | .error _ => pure true
    | .ok _ => pure ((S.node node).type = .dbParamSecure)

/-- `DATA_MODEL_SetParameterInDatabase`, the body of `SK_TR369_SetDBParam`: the
row is written and no instance is registered. -/
def setParameterInDatabase (path value : Str) : Op Unit := do
  match formDbFromPath S path with
  | .error e => .fail e
  | .ok key =>
    let isSecure ← isSecurePath S W path
    databaseSetParameterValue W key value isSecure

/-- `DATA_MODEL_GetNumInstances`. -/
def getNumInstances (path : Str) : Op Nat := do
  match getQualifiedNode S path with
  | none => .fail .objectDoesNotExist
  | some (node, inst, isQualified) =>
    if (S.node node).type ≠ .objectMultiInstance then .fail .objectNotCreatable
    else if isQualified then .fail .invalidArguments
    else if ← instVectorIsExist S W inst then instVectorGetNumInstances S W node inst
    else .fail .objectDoesNotExist

/-- `DATA_MODEL_GetInstances`. -/
def getInstances (path : Str) : Op (List Int) := do
  match getQualifiedNode S path with
  | none => .fail .objectDoesNotExist
  | some (node, inst, isQualified) =>
    if (S.node node).type ≠ .objectMultiInstance then .fail .notATable
    else if isQualified then .fail .invalidPathSyntax
    else if ← instVectorIsExist S W inst then instVectorGetInstances S W node inst
    else .fail .objectDoesNotExist

end DataModel
