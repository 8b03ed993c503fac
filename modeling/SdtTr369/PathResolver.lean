import SdtTr369.DataModelRead
import SdtTr369.ExprVector

/-!
# The path resolver

`path_resolver.c`: a path expression is read from the left, its addressing
operators are expanded one after the other, and every path at which the
expression ends is checked and added to the vector of resolved paths. The value
of a reference is itself resolved when it contains operators, so that the
recursion does not follow the text of the expression. It carries fuel, and a
resolution that runs out of fuel is `unfinished`.
-/

namespace PathResolver

open UspTypes Schema DecimalText PathCodec EffectProgram Agent InstVector DataModel DataModelRead
open ExprVector

/-- `resolve_op_t`. -/
inductive ResolveOp where
  | get
  | set
  | add
  | del
  | oper
  | event
  | instances
  | subsValChange
  | subsAdd
  | subsDel
  | subsOper
  | subsEvent
  | getBulkData
  | forgivingRef
  | strictRef
  | any
  deriving DecidableEq, Repr

/-- The arguments of a resolution: the fields of `resolver_state_t`, with
whether `sv` and `gv` are given instead of the vectors. A negative depth acts as 0. -/
structure Request where
  op : ResolveOp
  depth : Nat
  role : Option CombinedRole
  getAllInstances : Bool := false
  wantsPaths : Bool := true
  wantsGroups : Bool := false
  deriving DecidableEq, Repr

inductive Fault where
  | code (e : Err)
  | unfinished
  deriving DecidableEq, Repr

/-- The agent with the two vectors that a resolution fills. -/
structure RState where
  agent : State
  sv : List Str
  gv : List (Option Nat)

abbrev ROp := Prog RState Fault

def failWith {α : Type} (e : Err) : ROp α := .fail (.code e)

/-- A part of the resolution that does not see the vectors. -/
def onAgent {α : Type} (m : Op α) : ROp α := fun s =>
  (m s.agent).map fun r => (r.1.mapError Fault.code, { s with agent := r.2 })

/-- A resolution into vectors of its own, of which the paths are handed on. -/
def inOwnVector (m : ROp Unit) : ROp (List Str) := fun s =>
  (m { s with sv := [], gv := [] }).map fun r =>
    (r.1.map fun _ => r.2.sv, { s with agent := r.2.agent })

/-- `STR_VECTOR_Add`. -/
def addPath (path : Str) : ROp Unit := .update fun s => { s with sv := s.sv ++ [path] }

/-- `STR_VECTOR_Add_IfNotExist`. -/
def addIfNotExist (path : Str) : ROp Unit :=
  .update fun s => if path ∈ s.sv then s else { s with sv := s.sv ++ [path] }

variable (S : DmTree) (P : PermissionTable) (W : World)

/-! ## Instance paths -/

/-- `DATA_MODEL_GetInstancePaths`. -/
def getInstancePaths (path : Str) (role : Option CombinedRole) : ROp Unit := do
  match getQualifiedNode S path with
  | none => failWith .invalidPath
  | some (node, inst, isQualified) =>
    if getPermissions P node role .getInst = false then pure ()
    else if (S.node node).type ≠ .objectMultiInstance then addIfNotExist path
    else
      if isQualified then addIfNotExist path
      let iv ← onAgent (instVectorGetInstances S W node inst)
      .forEach iv fun n => addIfNotExist (appendName path (intDigits n))

/-- `AddObjectInstanceIfPermitted`. -/
def addObjectInstanceIfPermitted (role : Option CombinedRole) (oi : DmInstances) : ROp Unit :=
  match oi.getLast? with
  | none => pure ()
  | some (node, _) =>
    if getPermissions P node role .getInst = false then pure ()
    else match formInstantiatedPath (S.node node).path (instances oi) maxDmPath with
      | none => .halt
      | some (.error _) => pure ()
      | some (.ok path) => addPath path

/-- `DM_INST_VECTOR_GetAllInstancePaths_Unqualified`. -/
def getAllInstancePathsUnqualified (role : Option CombinedRole) (node : NodeId)
    (inst : DmInstances) : ROp Unit := do
  onAgent (requireTable S node inst)
  onAgent (refreshInstVector S W (topNodeOf node inst))
  let div ← .read fun s => s.agent.instVector (topNodeOf node inst)
  .forEach (div.filter fun oi => (numberBelow node inst oi).isSome)
    (addObjectInstanceIfPermitted S P role)

/-- `DM_INST_VECTOR_GetAllInstancePaths_Qualified`. -/
def getAllInstancePathsQualified (role : Option CombinedRole) (inst : DmInstances) :
    ROp Unit := do
  .require (0 < inst.length && inst.length < maxDmInstanceOrder)
  onAgent (requireTop S inst)
  onAgent (refreshInstVector S W (topNode inst))
  let div ← .read fun s => s.agent.instVector (topNode inst)
  .forEach (div.filter fun oi => inst.isPrefixOf oi) (addObjectInstanceIfPermitted S P role)

/-- `GetAllInstancePathsRecursive`, with fuel for the height of the schema. -/
def getAllInstancePathsRecursive (role : Option CombinedRole) :
    Nat → NodeId → DmInstances → ROp Unit
  | 0, _, _ => pure ()
  | fuel + 1, node, inst =>
    if (S.node node).type = .objectMultiInstance then
      getAllInstancePathsUnqualified S P W role node inst
    else .forEach (S.node node).childNodes fun child =>
      getAllInstancePathsRecursive role fuel child inst

/-- `DATA_MODEL_GetAllInstancePaths`. -/
def getAllInstancePaths (path : Str) (role : Option CombinedRole) : ROp Unit := do
  match getQualifiedNode S path with
  | none => failWith .objectDoesNotExist
  | some (node, inst, isQualified) =>
    .require (isObject (S.node node).type)
    if (S.node node).type = .objectMultiInstance ∧ isQualified then
      getAllInstancePathsQualified S P W role inst
    else getAllInstancePathsRecursive S P W role S.nodes.length node inst

/-! ## The paths at which an expression ends -/

/-- The first switch of `CheckPathProperties`: the kind of node. -/
def checkKind (op : ResolveOp) (flags : PathFlags) : Except Err Unit :=
  match op with
  | .get | .subsValChange | .getBulkData =>
    if flags.isParameter then .ok () else .error .invalidPath
  | .add => if flags.isObject then .ok () else .error .objectNotCreatable
  | .set | .del | .instances | .subsAdd | .subsDel =>
    if flags.isObject then .ok () else .error .notATable
  | .oper | .subsOper => if flags.isOperation then .ok () else .error .commandFailure
  | .event | .subsEvent => if flags.isEvent then .ok () else .error .invalidPath
  | .any | .strictRef | .forgivingRef => .ok ()

/-- The second switch: with or without the instance number of the object. -/
def checkQualified (op : ResolveOp) (flags : PathFlags) : Except Err Unit :=
  match op with
  | .del => if flags.isObjectInstance then .ok () else .error .objectDoesNotExist
  | .subsAdd | .subsDel => if flags.isMultiInstanceObject then .ok () else .error .notATable
  | .add =>
    if flags.isObjectInstance = false then .ok ()
    else if flags.isMultiInstanceObject then .error .creationFailure
    else .error .notATable
  | _ => .ok ()

/-- The permission that the third switch asks for. -/
def permitAsked : ResolveOp → Option Permit
  | .get | .getBulkData => some .get
  | .add => some .add
  | .del => some .del
  | .oper => some .oper
  | .event | .subsEvent | .subsOper => some .subsEvtOperComp
  | .subsAdd => some .subsObjAdd
  | .subsDel => some .subsObjDel
  | .subsValChange => some .subsValChange
  | .set | .instances | .any | .strictRef | .forgivingRef => none

/-- The third switch; `false`: the path is ignored. -/
def checkPermission (op : ResolveOp) (permissions : Permit → Bool) : Except Err Bool :=
  match permitAsked op with
  | none => .ok true
  | some permit =>
    if permissions permit then .ok true
    else if op = .get then .ok false
    else if op = .oper then .error .commandFailure
    else .error .permissionDenied

/-- The fourth switch; `false`: the path is ignored. -/
def checkInstances (op : ResolveOp) (flags : PathFlags) : Except Err Bool :=
  match op with
  | .get | .del | .subsValChange | .subsAdd | .subsDel | .subsOper | .subsEvent
  | .getBulkData => .ok flags.instanceNumbersExist
  | .set | .add | .instances | .oper | .event =>
    if flags.instanceNumbersExist then .ok true else .error .objectDoesNotExist
  | .any | .strictRef | .forgivingRef => .ok true

/-- `CheckPathProperties`: whether the path is to be added. -/
def checkPathProperties (op : ResolveOp) (properties : PathProperties) : Except Err Bool := do
  if properties.flags.existsInSchema = false then .error .invalidPath
  else
    checkKind op properties.flags
    checkQualified op properties.flags
    if ← checkPermission op properties.permissions then checkInstances op properties.flags
    else pure false

variable (rq : Request)

/-- The end of `AddPathFound`. -/
def addOnce (path : Str) (groupId : Option Nat) : ROp Unit := .update fun s =>
  if path ∈ s.sv then s
  else { s with
    sv := s.sv ++ [path]
    gv := if rq.wantsGroups then s.gv ++ [groupId] else s.gv }

/-- `AddPathFound`. -/
def addPathFound (path : Str) : ROp Unit := do
  let properties ← onAgent (getPathProperties S P W path rq.role)
  match checkPathProperties rq.op properties with
  | .error e => failWith e
  | .ok addToVector =>
    if addToVector = false ∨ rq.wantsPaths = false then pure ()
    else if (rq.op = .subsAdd ∨ rq.op = .subsDel) ∧
        properties.flags.isObjectInstance = false then do
      .require properties.flags.isMultiInstanceObject
      getInstancePaths S P W path none
    else if rq.op = .instances then
      if rq.getAllInstances then getAllInstancePaths S P W path rq.role
      else getInstancePaths S P W path rq.role
    else addOnce rq path properties.groupId

/-- Whether `GetChildParams` adds a child that is no object. -/
def checkChild (op : ResolveOp) (type : NodeType) (permissions : Permit → Bool) :
    Except Err Bool :=
  if isParam type then
    match op with
    | .getBulkData => if permissions .get then .ok true else .error .permissionDenied
    | .get => .ok (permissions .get)
    | .subsValChange => .ok (permissions .subsValChange)
    | _ => .ok false
  else match type with
    | .asyncOperation => .ok (op = .subsOper && permissions .subsEvtOperComp)
    | .event => .ok (op = .subsEvent && permissions .subsEvtOperComp)
    | _ => .ok false

/-- The end of the loop of `GetChildParams`, which looks for no duplicate. -/
def addChildFound (path : Str) (groupId : Option Nat) : ROp Unit := .update fun s =>
  { s with
    sv := if rq.wantsPaths then s.sv ++ [path] else s.sv
    gv := if rq.wantsGroups then s.gv ++ [groupId] else s.gv }

/-- `GetChildParams_MultiInstanceObject`, `getChildParams` being the mutually
recursive `GetChildParams`. -/
def getTableParams (getChildParams : Str → NodeId → DmInstances → ROp Unit) (depth : Nat)
    (path : Str) (node : NodeId) (inst : DmInstances) : ROp Unit := do
  if depth = 0 then pure ()
  else
    let iv ← onAgent (instVectorGetInstances S W node inst)
    .forEach iv fun n => getChildParams (appendName path (intDigits n)) node (inst ++ [(node, n)])

/-- `GetChildParams`. -/
def getChildParams : Nat → Str → NodeId → DmInstances → ROp Unit
  | 0, _, _, _ => pure ()
  | depth + 1, path, node, inst => .forEach (S.node node).childNodes fun child =>
    let childPath := appendName path (S.node child).name
    match (S.node child).type with
    | .objectSingleInstance => getChildParams depth childPath child inst
    | .objectMultiInstance =>
      getTableParams S W (getChildParams depth) depth childPath child inst
    | type =>
      match checkChild rq.op type (getPermissions P child rq.role) with
      | .error e => failWith e
      | .ok addToVector =>
        if addToVector then addChildFound rq childPath (S.node child).registered.groupId
        else pure ()

/-- `ResolvePartialPath`. -/
def resolvePartialPath (path : Str) : ROp Unit := do
  match getQualifiedNode S path with
  | none => failWith .invalidPath
  | some (node, inst, isQualified) =>
    if isObject (S.node node).type = false then failWith .invalidPath
    else if ← onAgent (instVectorIsExist S W inst) then
      if isQualified then getChildParams S P W rq rq.depth path node inst
      else getTableParams S W (getChildParams S P W rq rq.depth) rq.depth path node inst
    else pure ()

/-- `RefreshInstances_LifecycleSubscriptionEndingInPartialPath`. -/
def refreshLifecycleInstances (path : Str) : ROp Unit :=
  match getQualifiedNode S path with
  | none => pure ()
  | some (node, _, isQualified) =>
    if (S.node node).type = .objectMultiInstance ∧ (S.node node).order = 1 ∧
        isQualified = false then
      .ignore (onAgent (refreshInstVector S W node))
    else pure ()

/-- The part of `ExpandPath` after its loop. -/
def finishPath (resolved : Str) : ROp Unit :=
  if resolved.getLast? ≠ some '.' then addPathFound S P W rq resolved
  else match rq.op with
    | .get | .subsValChange | .getBulkData | .subsOper | .subsEvent =>
      resolvePartialPath S P W rq resolved.dropLast
    | .subsAdd | .subsDel => do
      addPathFound S P W rq resolved.dropLast
      refreshLifecycleInstances S W resolved.dropLast
    | .add | .del | .set | .instances | .any | .strictRef | .forgivingRef =>
      addPathFound S P W rq resolved.dropLast
    | .oper | .event => .halt

/-! ## Addressing operators -/

/-- Macro `IS_FORGIVING`. -/
def isForgiving (op : ResolveOp) : Bool := op = .get || op = .subsValChange || op = .forgivingRef

/-- Macro `IS_STRICT`: an error where forgiving operations go on. -/
def giveUp {α : Type} (rest : ROp α) (e : Err) : ROp α :=
  if isForgiving rq.op then rest else failWith e

/-- `ExpandWildcard`; `expand` goes on with the rest of the expression. -/
def expandWildcard (resolved : Str) (expand : Str → ROp Unit) : ROp Unit := do
  let iv ← onAgent (getInstances S W resolved)
  if iv = [] then pure ()
  else if maxDmPath < resolved.length + 2 then failWith .internalError
  else .forEach iv fun n => expand ((resolved ++ intDigits n).take (maxDmPath - 1))

/-- The characters for which `ResolveReferenceFollow` resolves a reference. -/
def isOperator (c : Char) : Bool := c = '[' || c = '+' || c = '#' || c = '*' || c = ']'

/-- The part of `ResolveReferenceFollow` from the properties of the dereferenced
path on. -/
def followObject (dereferenced : Str) (expand : Str → ROp Unit) : ROp Unit := do
  let properties ← onAgent (getPathProperties S P W dereferenced none)
  if properties.flags.isObject = false ∨ properties.flags.isObjectInstance = false then
    failWith .invalidPathSyntax
  else if properties.flags.instanceNumbersExist = false then
    giveUp rq (pure ()) .objectDoesNotExist
  else expand dereferenced

/-- `ResolveReferenceFollow`; `nested` resolves the value of the reference. -/
def resolveReferenceFollow (nested : Str → ROp (List Str)) (resolved : Str)
    (expand : Str → ROp Unit) : ROp Unit := do
  if rq.op = .getBulkData then failWith .invalidPathSyntax
  else match getNodeFromPath S resolved with
    | none => failWith .invalidPath
    | some (node, _) =>
      if getPermissions P node rq.role .get = false then giveUp rq (pure ()) .permissionDenied
      else
        let value ← onAgent (getParameterValue S W resolved maxDmPath {})
        if value = [] then giveUp rq (pure ()) .objectDoesNotExist
        else
          let dereferenced := value.takeWhile (· ≠ ',')
          if dereferenced.any isOperator then
            match ← nested dereferenced with
            | [] => giveUp rq (pure ()) .objectDoesNotExist
            | first :: _ => followObject S P W rq (first.take (maxDmPath - 1)) expand
          else followObject S P W rq dereferenced expand

/-! ## Search keys -/

/-- `search_param_t`. An index of `none` is `INVALID`. -/
structure SearchParam where
  keys : List ExprComp
  ggvIndexes : List (Option Nat) := []
  ggv : List GroupGetEntry := []
  keyTypes : List ParamType := []

/-- `SplitReferenceKeysFromkeys`: the plain keys and those that go through references. -/
def splitReferenceKeys : List ExprComp → Except Err (List ExprComp × List ExprComp)
  | [] => .ok ([], [])
  | ec :: rest =>
    if '+' ∉ ec.param then (splitReferenceKeys rest).map fun r => (ec :: r.1, r.2)
    else if ec.param.getLast? = some '+' then .error .invalidPathSyntax
    else (splitReferenceKeys rest).map fun r => (r.1, ec :: r.2)

/-- What `CheckPathPermission` finds out about the parameter of a key. -/
structure KeyAccess where
  groupId : Option Nat
  paramType : ParamType
  hasPermission : Bool

/-- `CheckPathPermission`. -/
def checkPathPermission (path : Str) : ROp KeyAccess := do
  let properties ← onAgent (getPathProperties S P W path rq.role)
  if properties.flags.isParameter = false then failWith .invalidPath
  else
    let access := ⟨properties.groupId, properties.paramType.getD .string,
      properties.permissions .get⟩
    if properties.permissions .get then pure access
    else giveUp rq (pure access) .permissionDenied

/-- A pair of an instance and a key is entered into the vectors. -/
def addKey (sp : SearchParam) (path : Str) (access : KeyAccess) : SearchParam :=
  if access.hasPermission then
    { sp with
      ggvIndexes := sp.ggvIndexes ++ [some sp.ggv.length]
      ggv := sp.ggv ++ [⟨path, access.groupId, none⟩]
      keyTypes := sp.keyTypes ++ [access.paramType] }
  else { sp with ggvIndexes := sp.ggvIndexes ++ [none] }

/-- The path of a key parameter, as `USP_SNPRINTF` puts it together. -/
def keyPath (object : Str) (n : Int) (ec : ExprComp) : Str :=
  (object ++ intDigits n ++ '.' :: ec.param).take (maxDmPath - 1)

/-- `GetGroupIdForUniqueKeys`, which asks about the instance 1 whether it exists or not. -/
def getGroupIdForUniqueKeys (object : Str) : List ExprComp → ROp (List KeyAccess)
  | [] => pure []
  | ec :: rest => do
    let access ← checkPathPermission S P W rq (keyPath object 1 ec)
    return access :: (← getGroupIdForUniqueKeys object rest)

/-- `ExpandUniqueKeysOverSingleInstance`. -/
def expandOverInstance (object : Str) (accesses : List KeyAccess) (sp : SearchParam) (n : Int) :
    SearchParam :=
  (sp.keys.zip accesses).foldl (fun sp key => addKey sp (keyPath object n key.1) key.2) sp

/-- `ExpandsNonReferencedKeys`, with `ExpandUniqueKeysOverAllInstances`. -/
def expandNonReferencedKeys (object : Str) (iv : List Int) (keys : List ExprComp) :
    ROp SearchParam := do
  let accesses ← getGroupIdForUniqueKeys S P W rq object keys
  pure (iv.foldl (expandOverInstance object accesses) { keys := keys })

/-- An entry of the vectors `params` and `perm`. -/
structure KeyParam where
  path : Str
  perm : Bool
  deriving DecidableEq, Repr

/-- The text in front of the first `+`. -/
def beforePlus (path : Str) : Str := path.takeWhile (· ≠ '+')

/-- The text behind the first `+`. -/
def afterPlus (path : Str) : Str := (path.dropWhile (· ≠ '+')).tail

/-- `GroupReferencedParameters`, with the group get vector that it fills. -/
def groupReferencedParameters : List KeyParam → ROp (List KeyParam × List GroupGetEntry)
  | [] => pure ([], [])
  | kp :: rest => do
    if kp.perm = false ∨ '+' ∉ kp.path then
      let r ← groupReferencedParameters rest
      pure (kp :: r.1, r.2)
    else
      let access ← checkPathPermission S P W rq (beforePlus kp.path)
      let r ← groupReferencedParameters rest
      if access.hasPermission then
        pure (kp :: r.1, ⟨beforePlus kp.path, access.groupId, none⟩ :: r.2)
      else pure ({ kp with perm := false } :: r.1, r.2)

/-- The loop of `ResolveIntermediateReferences` over the parameters, which
takes the values in turn. An empty reference ends the way of its parameter. -/
def dereferenceParams : List KeyParam → List GroupGetEntry → ROp (List KeyParam)
  | [], _ => pure []
  | kp :: rest, ggv => do
    if kp.perm = false ∨ '+' ∉ kp.path then
      return kp :: (← dereferenceParams rest ggv)
    else match ggv with
      | [] => .halt
      | gge :: ggv =>
        match gge.outcome with
        | none => .halt
        | some (.error e) => failWith e
        | some (.ok value) =>
          let path := (value ++ afterPlus kp.path).take (maxDmPath - 1)
          let kp := if value = [] then ⟨beforePlus kp.path, false⟩ else ⟨path, true⟩
          return kp :: (← dereferenceParams rest ggv)

/-- `ResolveIntermediateReferences`, with fuel for its outer loop. -/
def resolveIntermediateReferences : Nat → List KeyParam → ROp (List KeyParam)
  | 0, _ => .fail .unfinished
  | rounds + 1, params => do
    let grouped ← groupReferencedParameters S P W rq params
    if grouped.2.isEmpty then pure grouped.1
    else
      let ggv ← onAgent (groupGetValues S W grouped.2)
      resolveIntermediateReferences rounds (← dereferenceParams grouped.1 ggv)

/-- The last loop of `ResolveReferencedKeys`. -/
def addReferencedKeys : List KeyParam → SearchParam → ROp SearchParam
  | [], sp => pure sp
  | kp :: rest, sp => do
    if kp.perm = false then
      addReferencedKeys rest { sp with ggvIndexes := sp.ggvIndexes ++ [none] }
    else
      let access ← checkPathPermission S P W rq kp.path
      addReferencedKeys rest (addKey sp kp.path access)

/-- `ResolveReferencedKeys`. -/
def resolveReferencedKeys (rounds : Nat) (object : Str) (iv : List Int) (keys : List ExprComp) :
    ROp SearchParam := do
  if keys = [] then pure { keys := [] }
  else
    let params := iv.flatMap fun n => keys.map fun ec => ⟨keyPath object n ec, true⟩
    let params ← resolveIntermediateReferences S P W rq rounds params
    addReferencedKeys S P W rq params { keys := keys }

variable {N : Type} (R : ValueRules N)

/-- The loop of `DoUniqueKeysMatch`, from the index of a key in `ggv_indexes` on. -/
def doKeysMatch (sp : SearchParam) : Nat → List ExprComp → ROp Bool
  | _, [] => pure true
  | index, ec :: rest =>
    match sp.ggvIndexes[index]? with
    | none => .halt
    | some none => pure false
    | some (some ggvIndex) =>
      match sp.ggv[ggvIndex]?, sp.keyTypes[ggvIndex]? with
      | some gge, some type =>
        match gge.outcome with
        | none => .halt
        | some (.error e) => failWith e
        | some (.ok value) =>
          match compareValue R type value ec.op ec.value with
          | none => .halt
          | some (.error e) => failWith e
          | some (.ok false) => pure false
          | some (.ok true) => doKeysMatch sp (index + 1) rest
      | _, _ => .halt

/-- `DoUniqueKeysMatch`. -/
def doUniqueKeysMatch (index : Nat) (sp : SearchParam) : ROp Bool :=
  doKeysMatch R sp (index * sp.keys.length) sp.keys

/-- `GROUP_GET_VECTOR_GetValues` of the parameters of a search. -/
def getKeyValues (sp : SearchParam) : ROp SearchParam := do
  return { sp with ggv := ← onAgent (groupGetValues S W sp.ggv) }

/-- The two halves of the keys of a search with their values. -/
def prepareSearch (rounds : Nat) (resolved : Str) (iv : List Int) (key : Str) :
    ROp (SearchParam × SearchParam) := do
  if maxDmPath - 1 < key.length then failWith .invalidPathSyntax
  else match splitExpressions key with
    | .error e => failWith e
    | .ok [] => failWith .invalidPathSyntax
    | .ok keys => match splitReferenceKeys keys with
      | .error e => failWith e
      | .ok (keys, refKeys) => do
        let sp ← expandNonReferencedKeys S P W rq resolved iv keys
        let refSp ← resolveReferencedKeys S P W rq rounds resolved iv refKeys
        let sp ← getKeyValues S W sp
        let refSp ← getKeyValues S W refSp
        pure (sp, refSp)

/-- `ResolveUniqueKey`, given the text between the brackets. -/
def resolveUniqueKey (rounds : Nat) (resolved key : Str) (expand : Str → ROp Unit) :
    ROp Unit := do
  let iv ← onAgent (getInstances S W resolved)
  if iv = [] then pure ()
  else
    let (sp, refSp) ← prepareSearch S P W rq rounds resolved iv key
    .forEach iv.zipIdx fun (n, i) => do
      let isMatch ← doUniqueKeysMatch R i sp
      let isRefMatch ← doUniqueKeysMatch R i refSp
      if isMatch && isRefMatch then expand ((resolved ++ intDigits n).take (maxDmPath - 1))

/-! ## Expansion -/

/-- `ExpandPath` after its check of the length: `finish` is what it does with a
path that has no operator left. -/
def expandPath (nested : Str → ROp (List Str)) (rounds : Nat) (finish : Str → ROp Unit)
    (resolved : Str) : Str → ROp Unit
  | [] => finish resolved
  | c :: unresolved =>
    if c = '*' then
      expandWildcard S W resolved fun text => do
        checkLength text
        expandPath nested rounds finish text unresolved
    else if c = '+' then
      resolveReferenceFollow S P W rq nested resolved fun text => do
        checkLength text
        expandPath nested rounds finish text unresolved
    else if c = '[' then
      match _h : unresolved.dropWhile (· ≠ ']') with
      | [] => failWith .invalidPathSyntax
      | _ :: rest =>
        resolveUniqueKey S P W rq R rounds resolved (unresolved.takeWhile (· ≠ ']')) fun text => do
          checkLength text
          expandPath nested rounds finish text rest
    else do
      checkLength resolved
      expandPath nested rounds finish (resolved ++ [c]) unresolved
termination_by unresolved => unresolved.length
decreasing_by
  · exact Nat.lt_succ_self _
  · exact Nat.lt_succ_self _
  · have hlen := (List.dropWhile_suffix (fun x : Char => decide (x ≠ ']')) (l := unresolved)).length_le
    rw [_h] at hlen
    exact Nat.lt_succ_of_lt hlen
  · exact Nat.lt_succ_self _
where
  /-- The text must leave room in its buffer for one more character. -/
  checkLength (text : Str) : ROp Unit :=
    if maxDmPath - 1 ≤ text.length then failWith .internalError else pure ()

def fullDepth : Nat := 2147483647

/-- The request under which `ResolveReferenceFollow` resolves the value of a reference. -/
def referenceRequest : Request where
  op := if isForgiving rq.op then .forgivingRef else .strictRef
  depth := fullDepth
  role := rq.role

/-- The operations for which `gv` may be given. -/
def allowsGroups (op : ResolveOp) : Bool :=
  op = .get || op = .set || op = .subsValChange || op = .getBulkData

/-- `PATH_RESOLVER_ResolvePath`. -/
def resolvePath : Nat → Request → Str → ROp Unit
  | 0, _, _ => .fail .unfinished
  | fuel + 1, rq, path => do
    .require (!rq.wantsGroups || allowsGroups rq.op)
    if ['.', '.'] <:+: path then failWith .invalidPathSyntax
    else
      expandPath S P W rq R (fun value => inOwnVector (resolvePath fuel (referenceRequest rq) value))
        fuel (finishPath S P W rq) [] (path.take (maxDmPath - 1))

/-- `PATH_RESOLVER_ResolveDevicePath`. -/
def resolveDevicePath (fuel : Nat) (path : Str) : ROp Unit :=
  if "Device.".toList.isPrefixOf path = false then failWith .invalidPath
  else if path.getLast? = some '.' then
    if rq.op = .oper ∨ rq.op = .event then failWith .invalidPathSyntax
    else resolvePath S P W R fuel rq path
  else if rq.op = .add ∨ rq.op = .del ∨ rq.op = .instances then failWith .invalidPathSyntax
  else resolvePath S P W R fuel rq path

/-- The paths that a message handler is given; a resolution that does not end does
not come back to it. -/
def resolvedPaths (fuel : Nat) (path : Str) : Op (List Str) := fun a =>
  match resolveDevicePath S P W rq R fuel path ⟨a, [], []⟩ with
  | none => none
  | some (.error .unfinished, _) => none
  | some (.error (.code e), s) => some (.error e, s.agent)
  | some (.ok _, s) => some (.ok s.sv, s.agent)

end PathResolver
