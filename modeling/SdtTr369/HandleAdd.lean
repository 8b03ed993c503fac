import SdtTr369.GroupSetVector
import SdtTr369.HandleDelete

/-!
# Add requests

`handle_add.c`, with the two functions of `data_model.c` about unique keys. With
`allow_partial` each object is created in a transaction of its own, and else the
whole request in one. The callbacks of groups of parameters and the notify
functions of a commit are given.
-/

namespace HandleAdd

open UspTypes TextUtils Schema PathCodec DecimalText Agent DmTrans DataModel
open DataModelRead ExprVector PathResolver GroupSetVector HandleDelete

/-- `CreateParamSetting`. -/
structure CreateParamSetting where
  param : Str
  value : Str
  required : Bool
  deriving DecidableEq, Repr

/-- `CreateObject`; a missing path is empty. -/
structure CreateObj where
  objPath : Str
  paramSettings : List CreateParamSetting
  deriving DecidableEq, Repr

/-- `CreatedObjectResult`. The name of the parameter that failed is kept in
`add_oper_failure_param_names`, an empty one standing for none. -/
inductive CreatedObjResult where
  | operFailure (requestedPath paramName : Str) (e : Err)
  | operSuccess (requestedPath instantiatedPath : Str) (paramErrs : List (Str × Err))
      (uniqueKeys : List (Str × Str))
  deriving DecidableEq, Repr

/-- The response to the controller: an AddResp, or an Error with its `param_errs`. -/
inductive AddAnswer where
  | addResp (results : List CreatedObjResult)
  | error (e : Err) (paramErrs : List (Str × Err))
  deriving DecidableEq, Repr

/-- `ParamError_FromAddRespToErrResp`. -/
def addParamErrors (results : List CreatedObjResult) : List (Str × Err) :=
  results.filterMap fun result => match result with
    | .operFailure path [] e => some (path.take (maxDmPath - 1), e)
    | .operFailure path paramName e =>
      some ((path ++ "{i}.".toList ++ paramName).take (maxDmPath - 1), e)
    | .operSuccess .. => none

variable (S : DmTree) (P : PermissionTable) (W : World) {N : Type} (R : ValueRules N)
  (fuel : Nat) (role : CombinedRole) (G : GroupCallbacks) (notifies : List (Op Unit))

/-- The unique key parameters that the role may read, with their entries. A name is
compared with the full paths of the entries, so that none is left out. -/
def uniqueKeyEntries (objPath : Str) :
    List Str → List Str × List GroupGetEntry → Op (List Str × List GroupGetEntry)
  | [], found => pure found
  | name :: names, (nv, ggv) => do
    if ggv.any fun gge => gge.path = name then uniqueKeyEntries objPath names (nv, ggv)
    else
      let paramPath := appendName objPath name
      let properties ← getPathProperties S P W paramPath (some role)
      if properties.permissions .get = false then uniqueKeyEntries objPath names (nv, ggv)
      else
        let gge : GroupGetEntry := { path := paramPath, groupId := properties.groupId }
        uniqueKeyEntries objPath names (nv ++ [name], ggv ++ [gge])

/-- The error of the first entry without a value, if there is one. -/
def firstWithoutValue : List GroupGetEntry → Option (Option Err)
  | [] => none
  | gge :: rest => match gge.outcome with
    | some (.ok _) => firstWithoutValue rest
    | some (.error e) => some (some e)
    | none => some none

def valueOf (gge : GroupGetEntry) : Str :=
  match gge.outcome with
  | some (.ok value) => value
  | _ => []

/-- `DATA_MODEL_GetUniqueKeyParams`. -/
def getUniqueKeyParams (objPath : Str) : Op (List (Str × Str)) := do
  match getNodeFromPath S objPath with
  | none => .fail .internalError
  | some (node, _) =>
    if (S.node node).type ≠ .objectMultiInstance then pure []
    else
      let (nv, ggv) ← uniqueKeyEntries S P W role objPath
        (S.node node).registered.uniqueKeys.flatten ([], [])
      if ggv = [] then pure []
      else
        let ggv ← groupGetValues S W ggv
        match firstWithoutValue ggv with
        | some (some e) => .fail e
        | some none => pure []
        | none => pure (nv.zip (ggv.map valueOf))

/-- The first path of the vector that is this one is taken out. -/
def takeOutPath (path : Str) : List (Option Str) → Option (List (Option Str))
  | [] => none
  | p :: rest =>
    if p = some path then some (none :: rest) else (takeOutPath path rest).map (p :: ·)

/-- The keys that the request has set are taken out; one that it failed to set is an
error. -/
def takeOutSet : List GroupSetEntry → List (Option Str) → Except Err (List (Option Str))
  | [], ukPaths => .ok ukPaths
  | gse :: gsv, ukPaths => match takeOutPath gse.path ukPaths with
    | none => takeOutSet gsv ukPaths
    | some rest => match gse.err with
      | some e => .error e
      | none => takeOutSet gsv rest

def isReadOnlyOrAuto : NodeType → Bool
  | .dbParamReadOnly | .dbParamReadOnlyAuto | .dbParamReadWriteAuto | .vendorParamReadOnly => true
  | _ => false

/-- The keys that cannot be set or set themselves are taken out. -/
def takeOutReadOnly (ukPath : Option Str) : Op (Option Str) :=
  match ukPath with
  | none => pure none
  | some path => match getNodeFromPath S path with
    | none => .halt
    | some (node, _) => pure (if isReadOnlyOrAuto (S.node node).type then none else some path)

def takeOutAllReadOnly : List (Option Str) → Op (List (Option Str))
  | [] => pure []
  | ukPath :: rest => do
    let ukPath ← takeOutReadOnly S ukPath
    let rest ← takeOutAllReadOnly rest
    pure (ukPath :: rest)

/-- `DATA_MODEL_ValidateDefaultedUniqueKeys`. -/
def validateDefaultedUniqueKeys (objPath : Str) (uniqueKeyParams : List (Str × Str))
    (gsv : List GroupSetEntry) : Op Unit := do
  let ukPaths := uniqueKeyParams.map fun kv => some (appendName objPath kv.1)
  match takeOutSet gsv ukPaths with
  | .error e => .fail e
  | .ok ukPaths =>
    let ukPaths ← takeOutAllReadOnly S ukPaths
    .forEach (ukPaths.zip uniqueKeyParams) fun (ukPath, kv) => match ukPath with
      | none => pure ()
      | some path => setParameterValue S W path kv.2 false

/-- `GROUP_SET_VECTOR_Add` for each setting of the request. -/
def settingEntries (fullPath : Str) : List CreateParamSetting → Op (List GroupSetEntry)
  | [] => pure []
  | ps :: rest => do
    let gse ← newEntry S P W (appendName fullPath ps.param) ps.value ps.required (some role)
    let rest ← settingEntries fullPath rest
    pure (gse :: rest)

/-- The first required setting that failed, with its error. -/
def firstRequiredFailure : List CreateParamSetting → List GroupSetEntry → Option (Str × Err)
  | ps :: settings, gse :: gsv => match gse.err with
    | some e => if ps.required then some (ps.param, e) else firstRequiredFailure settings gsv
    | none => firstRequiredFailure settings gsv
  | _, _ => none

/-- The settings that failed and were not required. -/
def settingErrors (settings : List CreateParamSetting) (gsv : List GroupSetEntry) :
    List (Str × Err) :=
  (settings.zip gsv).filterMap fun (ps, gse) => gse.err.map fun e => (ps.param, e)

/-- The part of `CreateObject` for a new instance: the entry in the response, and the
error. -/
def setUpObject (cr : CreateObj) (fullPath : Str) : Op (CreatedObjResult × Option Err) := do
  let gsv ← settingEntries S P W role fullPath cr.paramSettings
  let gsv ← setValues S W G gsv 0 gsv.length
  match firstRequiredFailure cr.paramSettings gsv with
  | some (param, e) => pure (.operFailure cr.objPath param e, some e)
  | none =>
    match ← .attempt (getUniqueKeyParams S P W role fullPath) with
    | .error e => pure (.operFailure cr.objPath [] e, some e)
    | .ok uniqueKeyParams =>
      match ← .attempt (validateDefaultedUniqueKeys S W fullPath uniqueKeyParams gsv) with
      | .error e => pure (.operFailure cr.objPath [] e, some e)
      | .ok _ => pure (.operSuccess cr.objPath (withTrailingDot fullPath)
          (settingErrors cr.paramSettings gsv) uniqueKeyParams, none)

/-- `CreateObject`: the entries added to the response, and the error. -/
def createObject (allowPartial : Bool) (cr : CreateObj) (objPath : Str) :
    Op (List CreatedObjResult × Option Err) := do
  match ← .attempt (addInstance S W objPath true { checkCreatable := true }) with
  | .error e => pure (if allowPartial then [.operFailure cr.objPath [] e] else [], some e)
  | .ok none => .halt
  | .ok (some n) =>
    let (result, err) ← setUpObject S P W role G cr (appendName objPath (intDigits n))
    pure ([result], err)

/-- `CreateObject_Trans`. -/
def createObjectTrans (allowPartial : Bool) (cr : CreateObj) (objPath : Str) :
    Op (List CreatedObjResult × Option Err) := do
  if allowPartial = false then createObject S P W role G false cr objPath
  else match ← .attempt (transStart S W) with
    | .error e => pure ([.operFailure cr.objPath [] e], some e)
    | .ok _ =>
      match ← createObject S P W role G true cr objPath with
      | (results, none) =>
        match ← .attempt (transCommit S W notifies) with
        | .error e => pure ([.operFailure cr.objPath [] e], some e)
        | .ok _ => pure (results, none)
      | (results, some _) =>
        .ignore (transAbort S W)
        pure (results, none)

/-- The loop of `CreateExpressionObjects`. -/
def createObjects (allowPartial : Bool) (cr : CreateObj) :
    List Str → List CreatedObjResult → Op (List CreatedObjResult × Option Err)
  | [], results => pure (results, none)
  | objPath :: objPaths, results => do
    match ← createObjectTrans S P W role G notifies allowPartial cr objPath with
    | (new, some e) => pure (results ++ new, some e)
    | (new, none) => createObjects allowPartial cr objPaths (results ++ new)

/-- The request under which an Add resolves its expressions. -/
def addRequest : Request where
  op := .add
  depth := fullDepth
  role := some role

/-- `CreateExpressionObjects`: the entries added to the response, and the error. An
expression that is empty or refers to no object is a failure without an error. -/
def createExpressionObjects (allowPartial : Bool) (cr : CreateObj) :
    Op (List CreatedObjResult × Option Err) := do
  if cr.objPath = [] then pure ([.operFailure cr.objPath [] .invalidArguments], none)
  else match ← .attempt (resolvedPaths S P W (addRequest role) R fuel cr.objPath) with
    | .error e => pure ([.operFailure cr.objPath [] e], some e)
    | .ok [] => pure ([.operFailure cr.objPath [] .invalidArguments], none)
    | .ok objPaths => createObjects S P W role G notifies allowPartial cr objPaths []

/-- The loop of `MSG_HANDLER_HandleAdd`, which ignores errors with `allow_partial`. -/
def createExpressions (allowPartial : Bool) :
    List CreateObj → List CreatedObjResult → Op (List CreatedObjResult × Option Err)
  | [], results => pure (results, none)
  | cr :: rest, results => do
    match ← createExpressionObjects S P W R fuel role G notifies allowPartial cr with
    | (new, some e) =>
      if allowPartial then createExpressions allowPartial rest (results ++ new)
      else pure (results ++ new, some e)
    | (new, none) => createExpressions allowPartial rest (results ++ new)

/-- `MSG_HANDLER_HandleAdd`, given the fields of the request. -/
def handleAdd (allowPartial : Bool) (createObjs : List CreateObj) : Op AddAnswer := do
  if createObjs = [] then pure (.addResp [])
  else if allowPartial then
    let (results, _) ← createExpressions S P W R fuel role G notifies true createObjs []
    pure (.addResp results)
  else
    match ← .attempt (transStart S W) with
    | .error e => pure (.error e [])
    | .ok _ =>
      match ← createExpressions S P W R fuel role G notifies false createObjs [] with
      | (results, some e) =>
        let paramErrs := addParamErrors results
        .ignore (transAbort S W)
        pure (.error (calcOuterErrCode paramErrs.length e) paramErrs)
      | (results, none) =>
        match ← .attempt (transCommit S W notifies) with
        | .error e => pure (.error e [])
        | .ok _ => pure (.addResp results)

end HandleAdd
