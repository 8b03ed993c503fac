import SdtTr369.DataModelRead

/-!
# The answer to GetSupportedDM

`handle_get_supported_dm.c` walks the schema below a requested object and adds
to its answer what the role of the message may see. A child list is kept as the
source links it: a first node, the list below it and its next sibling.
-/

namespace SupportedDm

open UspTypes DataModelRead List

/-- The fields of `dm_node_t` and of its `registered` that the answer reads. A
group of `none` is `NON_GROUPED`; the two hooks only matter where they are
`USP_HOOK_DenyAddInstance` and `USP_HOOK_DenyDeleteInstance`. -/
structure SchemaNode where
  name : Str
  path : Str
  type : NodeType
  permissions : Nat → Permit → Bool
  groupId : Option Nat := none
  groupWritable : Bool := false
  denyAddInstance : Bool := false
  denyDeleteInstance : Bool := false
  paramType : ParamType := .string
  inputArgs : List Str := []
  outputArgs : List Str := []
  eventArgs : List Str := []

/-- `child_nodes`: its head and the `link.next` of every node. -/
inductive Siblings where
  | none
  | node (node : SchemaNode) (childNodes next : Siblings)

/-- `DM_PRIV_GetPermissions`, on the bitmasks of this one node. -/
def SchemaNode.permit (node : SchemaNode) (role : Option CombinedRole) : Permit → Bool :=
  getPermissions (fun _ => node.permissions) 0 role

/-- `gs_flags`. -/
structure GsFlags where
  firstLevelOnly : Bool
  returnCommands : Bool
  returnEvents : Bool
  returnParams : Bool
  deriving DecidableEq, Repr

inductive ObjAccessType where
  | readOnly | addDelete | addOnly | deleteOnly
  deriving DecidableEq, Repr

inductive ParamAccessType where
  | readOnly | readWrite | writeOnly
  deriving DecidableEq, Repr

inductive ValueChangeType where
  | unknown | allowed | willIgnore
  deriving DecidableEq, Repr

inductive CmdType where
  | sync | async
  deriving DecidableEq, Repr

structure SupportedParamResult where
  paramName : Str
  access : ParamAccessType
  valueType : ParamType
  valueChange : ValueChangeType
  deriving DecidableEq, Repr

structure SupportedCommandResult where
  commandName : Str
  commandType : CmdType
  inputArgNames : List Str
  outputArgNames : List Str
  deriving DecidableEq, Repr

structure SupportedEventResult where
  eventName : Str
  argNames : List Str
  deriving DecidableEq, Repr

structure SupportedObjectResult where
  supportedObjPath : Str
  isMultiInstance : Bool
  access : ObjAccessType
  supportedParams : List SupportedParamResult := []
  supportedCommands : List SupportedCommandResult := []
  supportedEvents : List SupportedEventResult := []
  deriving DecidableEq, Repr

/-! ## Entries of the answer -/

def calcDMSchemaObjAccess (isAddAllowed isDelAllowed : Bool) : ObjAccessType :=
  match isAddAllowed, isDelAllowed with
  | false, false => .readOnly
  | false, true => .deleteOnly
  | true, false => .addOnly
  | true, true => .addDelete

/-- The access that `AddReqObjResult_SupportedObjResult` works out. -/
def SchemaNode.objAccess (node : SchemaNode) (permissions : Permit → Bool) : ObjAccessType :=
  if node.type = .objectMultiInstance then
    match node.groupId with
    | none => calcDMSchemaObjAccess (!node.denyAddInstance && permissions .add)
        (!node.denyDeleteInstance && permissions .del)
    | some _ => calcDMSchemaObjAccess (node.groupWritable && permissions .add)
        (node.groupWritable && permissions .del)
  else calcDMSchemaObjAccess false false

/-- `AddReqObjResult_SupportedObjResult`: the result that it appends. -/
def supportedObjResult (node : SchemaNode) (permissions : Permit → Bool) :
    SupportedObjectResult where
  supportedObjPath := node.path ++ ['.']
  isMultiInstance := node.type = .objectMultiInstance
  access := node.objAccess permissions

/-- `AddSupportedObjResult_SupportedCommandResult`. -/
def addSupportedCommandResult (node : SchemaNode) (sor : SupportedObjectResult) :
    SupportedObjectResult :=
  { sor with supportedCommands := sor.supportedCommands ++
      [⟨node.name, if node.type = .syncOperation then .sync else .async,
        node.inputArgs, node.outputArgs⟩] }

/-- `AddSupportedObjResult_SupportedEventResult`. -/
def addSupportedEventResult (node : SchemaNode) (sor : SupportedObjectResult) :
    SupportedObjectResult :=
  { sor with supportedEvents := sor.supportedEvents ++ [⟨node.name, node.eventArgs⟩] }

/-- The parameters whose raw access is read and write. -/
def isWritableParam : NodeType → Bool
  | .dbParamReadWrite | .dbParamReadWriteAuto | .dbParamSecure => true
  | .vendorParamReadWrite => true
  | _ => false

def SchemaNode.isReadAllowed (node : SchemaNode) (permissions : Permit → Bool) : Bool :=
  isParam node.type && permissions .get

def SchemaNode.isWriteAllowed (node : SchemaNode) (permissions : Permit → Bool) : Bool :=
  isWritableParam node.type && permissions .set

/-- `CalcDMSchemaParamAccess`; the assertion keeps the case of no access away. -/
def calcDMSchemaParamAccess (isReadAllowed isWriteAllowed : Bool) : ParamAccessType :=
  match isReadAllowed, isWriteAllowed with
  | true, true => .readWrite
  | true, false => .readOnly
  | false, _ => .writeOnly

/-- `AddSupportedObjResult_SupportedParamResult`. -/
def addSupportedParamResult (node : SchemaNode) (permissions : Permit → Bool)
    (sor : SupportedObjectResult) : SupportedObjectResult :=
  if !node.isReadAllowed permissions && !node.isWriteAllowed permissions then sor
  else { sor with supportedParams := sor.supportedParams ++
      [⟨node.name, calcDMSchemaParamAccess (node.isReadAllowed permissions)
          (node.isWriteAllowed permissions), node.paramType, .allowed⟩] }

/-! ## The walk -/

variable (role : Option CombinedRole) (flags : GsFlags)

/-- The branches of the switch for what is not an object, on the entry `sor`. -/
def addLeaf (parent child : SchemaNode) (sor : SupportedObjectResult) : SupportedObjectResult :=
  match child.type with
  | .objectMultiInstance | .objectSingleInstance => sor
  | .syncOperation | .asyncOperation =>
    if flags.returnCommands && parent.permit role .objInfo && parent.permit role .cmdInfo &&
        child.permit role .oper then
      addSupportedCommandResult child sor
    else sor
  | .event =>
    if flags.returnEvents && parent.permit role .objInfo && parent.permit role .cmdInfo &&
        child.permit role .subsEvtOperComp then
      addSupportedEventResult child sor
    else sor
  | _ =>
    if flags.returnParams && parent.permit role .objInfo then
      addSupportedParamResult child (child.permit role) sor
    else sor

/-- What `WalkSchema` does before its loop: the pointer `sor`, as an index into
the results, and the results themselves. -/
def enterObject (parent : SchemaNode) (ror : List SupportedObjectResult) :
    Option Nat × List SupportedObjectResult :=
  if parent.permit role .objInfo then
    (some ror.length, ror ++ [supportedObjResult parent (parent.permit role)])
  else (none, ror)

/-- The loop of `WalkSchema` over the children of `parent`. -/
def walkChildren : SchemaNode → Option Nat → Siblings → List SupportedObjectResult →
    List SupportedObjectResult
  | _, _, .none, ror => ror
  | parent, sor, .node child childNodes next, ror =>
    walkChildren parent sor next <|
      if isObject child.type then
        if flags.firstLevelOnly = false then
          walkChildren child (enterObject role child ror).1 childNodes (enterObject role child ror).2
        else
          -- the permissions are fetched again here, and for `parent`
          let childPerm := parent.permit role
          if childPerm .objInfo then ror ++ [supportedObjResult child childPerm] else ror
      else match sor with
        -- every addition asks for the right that made `sor` an entry
        | none => ror
        | some i => ror.modify i (addLeaf role flags parent child)

def walkSchema (parent : SchemaNode) (childNodes : Siblings) (ror : List SupportedObjectResult) :
    List SupportedObjectResult :=
  walkChildren role flags parent (enterObject role parent ror).1 childNodes
    (enterObject role parent ror).2

/-! ## What the role may see -/

/-- A requested object, or one below it, with its children. -/
abbrev SchemaObject := SchemaNode × Siblings

def Siblings.toList : Siblings → List SchemaNode
  | .none => []
  | .node first _ next => first :: next.toList

/-- The objects of a child list, without what is below them. -/
def childObjects : Siblings → List SchemaObject
  | .none => []
  | .node node childNodes next =>
    (if isObject node.type then [(node, childNodes)] else []) ++ childObjects next

/-- The objects of a child list and all those below them, in the order of the walk. -/
def descendantObjects : Siblings → List SchemaObject
  | .none => []
  | .node node childNodes next =>
    (if isObject node.type then (node, childNodes) :: descendantObjects childNodes else []) ++
      descendantObjects next

/-- The objects that a request is about. -/
def requestedObjects (root : SchemaObject) : List SchemaObject :=
  root :: if flags.firstLevelOnly then childObjects root.2 else descendantObjects root.2

/-- Instances of a table are added by those with the right to it, unless its hook denies it; a
group needs a function that sets its values. -/
def SchemaNode.mayAdd (node : SchemaNode) (permissions : Permit → Bool) : Bool :=
  node.type = .objectMultiInstance ∧ permissions .add ∧
    (node.groupId = none ∧ ¬node.denyAddInstance ∨ node.groupId ≠ none ∧ node.groupWritable)

def SchemaNode.mayDelete (node : SchemaNode) (permissions : Permit → Bool) : Bool :=
  node.type = .objectMultiInstance ∧ permissions .del ∧
    (node.groupId = none ∧ ¬node.denyDeleteInstance ∨ node.groupId ≠ none ∧ node.groupWritable)

def ObjAccessType.adds : ObjAccessType → Bool
  | .addDelete | .addOnly => true
  | .readOnly | .deleteOnly => false

def ObjAccessType.deletes : ObjAccessType → Bool
  | .addDelete | .deleteOnly => true
  | .readOnly | .addOnly => false

/-- The role has the right that an entry for `leaf` below `parent` asks for. -/
def SchemaNode.leafSeen (leaf : SchemaNode) (parent : SchemaNode) : Bool :=
  parent.permit role .objInfo &&
    match leaf.type with
    | .objectMultiInstance | .objectSingleInstance => false
    | .syncOperation | .asyncOperation =>
      parent.permit role .cmdInfo && leaf.permit role .oper
    | .event => parent.permit role .cmdInfo && leaf.permit role .subsEvtOperComp
    | _ => leaf.permit role .get || isWritableParam leaf.type && leaf.permit role .set

/-- What an entry lists under an object is there for the role. -/
structure LeavesSeen (o : SchemaObject) (sor : SupportedObjectResult) : Prop where
  params : ∀ p ∈ sor.supportedParams, ∃ leaf ∈ o.2.toList,
    isParam leaf.type ∧ leaf.name = p.paramName ∧ leaf.leafSeen role o.1
  commands : ∀ c ∈ sor.supportedCommands, ∃ leaf ∈ o.2.toList,
    (leaf.type = .syncOperation ∨ leaf.type = .asyncOperation) ∧ leaf.name = c.commandName ∧
      leaf.leafSeen role o.1
  events : ∀ e ∈ sor.supportedEvents, ∃ leaf ∈ o.2.toList,
    leaf.type = .event ∧ leaf.name = e.eventName ∧ leaf.leafSeen role o.1

/-- The entries are those of the requested objects that the role may see, each with the
access of the role to this object, and what they list is there for the role too. -/
structure AsPermitted (root : SchemaObject) (ror : List SupportedObjectResult) : Prop where
  objects : ror.map (fun sor => (sor.supportedObjPath, sor.access.adds, sor.access.deletes)) =
    ((requestedObjects flags root).filter fun o => o.1.permit role .objInfo).map fun o =>
      (o.1.path ++ ['.'], o.1.mayAdd (o.1.permit role), o.1.mayDelete (o.1.permit role))
  leaves : ∀ sor ∈ ror, ∃ o ∈ requestedObjects flags root,
    sor.supportedObjPath = o.1.path ++ ['.'] ∧ LeavesSeen role o sor

/-- Stands for an object that the role may not see. -/
def hiddenObject : SchemaNode where
  name := []
  path := []
  type := .objectSingleInstance
  permissions _ _ := false

/-- Keeps what the role may see of a child list. An object that it may not see
leaves a gap where there is something to be seen below it. -/
def seenPart : SchemaNode → Siblings → Siblings
  | _, .none => .none
  | parent, .node node childNodes next =>
    if isObject node.type then
      if node.permit role .objInfo then
        .node node (seenPart node childNodes) (seenPart parent next)
      else match seenPart node childNodes with
        | .none => seenPart parent next
        | below => .node hiddenObject below (seenPart parent next)
    else if node.leafSeen role parent then .node node .none (seenPart parent next)
    else seenPart parent next

/-- What the role may see of a requested object and of all below it. -/
def seenObject (root : SchemaObject) : SchemaObject :=
  (if root.1.permit role .objInfo then root.1 else hiddenObject, seenPart role root.1 root.2)

/-- A first-level answer tests and shows the permissions of the parent: they
make no difference to those of the child. -/
def ParentStandsIn (root : SchemaObject) : Prop :=
  flags.firstLevelOnly = true → ∀ o ∈ childObjects root.2,
    o.1.permit role .objInfo = root.1.permit role .objInfo ∧
      (root.1.permit role .objInfo = true →
        o.1.mayAdd (o.1.permit role) = o.1.mayAdd (root.1.permit role) ∧
          o.1.mayDelete (o.1.permit role) = o.1.mayDelete (root.1.permit role))

/-! ## The walk in closed form -/

/-- The entry of a visible object with what is listed under it. -/
def addLeaves (parent : SchemaNode) : Siblings → SupportedObjectResult → SupportedObjectResult
  | .none, sor => sor
  | .node node _ next, sor =>
    addLeaves parent next (if isObject node.type then sor else addLeaf role flags parent node sor)

/-- The entry of an object and its leaves, if the role may see it. -/
def objectEntry (o : SchemaObject) : List SupportedObjectResult :=
  if o.1.permit role .objInfo then
    [addLeaves role flags o.1 o.2 (supportedObjResult o.1 (o.1.permit role))]
  else []

/-- The entry of a first-level child, for the permissions `perm`. -/
def childEntry (perm : Permit → Bool) (o : SchemaObject) : List SupportedObjectResult :=
  if perm .objInfo then [supportedObjResult o.1 perm] else []

/-- The entries for what is below `parent`. -/
def entriesBelow (parent : SchemaNode) (childNodes : Siblings) : List SupportedObjectResult :=
  if flags.firstLevelOnly then (childObjects childNodes).flatMap (childEntry (parent.permit role))
  else (descendantObjects childNodes).flatMap (objectEntry role flags)

section Walk

variable {role : Option CombinedRole} {flags : GsFlags}

theorem modify_append_cons {α : Type} (f : α → α) (front : List α) (x : α) (back : List α) :
    (front ++ x :: back).modify front.length f = front ++ f x :: back := by
  induction front with
  | nil => rfl
  | cons y front ih => simp [ih]

variable (parent : SchemaNode) {node : SchemaNode} (childNodes : Siblings) (root o : SchemaObject)

@[simp] theorem entriesBelow_none : entriesBelow role flags parent .none = [] := by
  simp [entriesBelow, childObjects, descendantObjects]

variable {next : Siblings} (isAddAllowed isDelAllowed : Bool) (perm : Permit → Bool)
  (os : List SchemaObject) {leaf : SchemaNode}

theorem entriesBelow_leaf {parent : SchemaNode} {childNodes : Siblings}
    (h : isObject node.type = false) :
    entriesBelow role flags parent (.node node childNodes next) =
      entriesBelow role flags parent next := by
  simp [entriesBelow, childObjects, descendantObjects, h]

theorem entriesBelow_object {parent : SchemaNode} {childNodes : Siblings}
    (h : isObject node.type = true) :
    entriesBelow role flags parent (.node node childNodes next) =
      (if flags.firstLevelOnly then childEntry (parent.permit role) (node, childNodes)
        else objectEntry role flags (node, childNodes) ++
          (descendantObjects childNodes).flatMap (objectEntry role flags)) ++
      entriesBelow role flags parent next := by
  cases hfirst : flags.firstLevelOnly <;>
    simp [entriesBelow, childObjects, descendantObjects, h, hfirst]

/-- Without an entry of its own the loop only appends; with one it fills it in. -/
theorem walkChildren_eq : ∀ parent : SchemaNode,
    (parent.permit role .objInfo = false → ∀ ror,
      walkChildren role flags parent none childNodes ror =
        ror ++ entriesBelow role flags parent childNodes) ∧
    (parent.permit role .objInfo = true → ∀ front sor back,
      walkChildren role flags parent (some front.length) childNodes (front ++ sor :: back) =
        front ++ addLeaves role flags parent childNodes sor :: back ++
          entriesBelow role flags parent childNodes) := by
  induction childNodes with
  | none => intro parent; simp [walkChildren, addLeaves]
  | node node childNodes next ihBelow ihNext =>
    intro parent
    obtain ⟨hunseen, hseen⟩ := ihNext parent
    -- what the walk of an object appends, wherever it starts
    have hwalk : ∀ ror, walkChildren role flags node (enterObject role node ror).1 childNodes
        (enterObject role node ror).2 =
        ror ++ (objectEntry role flags (node, childNodes) ++
          entriesBelow role flags node childNodes) := by
      intro ror
      cases hnode : node.permit role .objInfo with
      | false =>
        simp only [enterObject, hnode, objectEntry, Bool.false_eq_true, if_false,
          nil_append]
        exact (ihBelow node).1 hnode ror
      | true =>
        simp only [enterObject, hnode, objectEntry, if_true]
        rw [(ihBelow node).2 hnode ror _ []]
        simp
    cases hobject : isObject node.type with
    | false =>
      constructor
      · intro hparent ror
        rw [walkChildren, entriesBelow_leaf hobject]
        simp only [hobject, Bool.false_eq_true, if_false]
        exact hunseen hparent ror
      · intro hparent front sor back
        rw [walkChildren, entriesBelow_leaf hobject, addLeaves]
        simp only [hobject, Bool.false_eq_true, if_false, modify_append_cons]
        exact hseen hparent front _ back
    | true =>
      cases hfirst : flags.firstLevelOnly with
      | false =>
        have hbelow : entriesBelow role flags node childNodes =
            (descendantObjects childNodes).flatMap (objectEntry role flags) := by
          simp [entriesBelow, hfirst]
        constructor
        · intro hparent ror
          rw [walkChildren, entriesBelow_object hobject]
          simp only [hobject, hfirst, if_true, Bool.false_eq_true, if_false]
          rw [hwalk, hunseen hparent, hbelow]
          simp
        · intro hparent front sor back
          rw [walkChildren, entriesBelow_object hobject, addLeaves]
          simp only [hobject, hfirst, if_true, Bool.false_eq_true, if_false]
          rw [hwalk, append_assoc, cons_append, hseen hparent, hbelow]
          simp
      | true =>
        constructor
        · intro hparent ror
          rw [walkChildren, entriesBelow_object hobject]
          simp only [hobject, hfirst, hparent, childEntry, if_true, Bool.true_eq_false,
            Bool.false_eq_true, if_false, nil_append]
          exact hunseen hparent ror
        · intro hparent front sor back
          rw [walkChildren, entriesBelow_object hobject, addLeaves]
          simp only [hobject, hfirst, hparent, childEntry, if_true, Bool.true_eq_false, if_false]
          rw [append_assoc, cons_append, hseen hparent]
          simp

theorem walkSchema_eq :
    walkSchema role flags root.1 root.2 [] =
      objectEntry role flags root ++ entriesBelow role flags root.1 root.2 := by
  cases hroot : root.1.permit role .objInfo with
  | false =>
    simp only [walkSchema, enterObject, objectEntry, hroot, Bool.false_eq_true, if_false]
    exact (walkChildren_eq root.2 root.1).1 hroot []
  | true =>
    simp only [walkSchema, enterObject, objectEntry, hroot, if_true]
    exact (walkChildren_eq root.2 root.1).2 hroot [] _ []

/-- A leaf leaves the entry alone or adds one result, and this only if the role has the
right for it. -/
theorem addLeaf_cases (role : Option CombinedRole) (flags : GsFlags) (parent child : SchemaNode)
    (sor : SupportedObjectResult) :
    addLeaf role flags parent child sor = sor ∨ child.leafSeen role parent = true ∧
      ((isParam child.type = true ∧ ∃ access, addLeaf role flags parent child sor =
          { sor with supportedParams := sor.supportedParams ++
              [⟨child.name, access, child.paramType, .allowed⟩] }) ∨
        ((child.type = .syncOperation ∨ child.type = .asyncOperation) ∧
          addLeaf role flags parent child sor = addSupportedCommandResult child sor) ∨
        (child.type = .event ∧
          addLeaf role flags parent child sor = addSupportedEventResult child sor)) := by
  unfold addLeaf SchemaNode.leafSeen
  split
  case h_1 => exact .inl rfl
  case h_2 => exact .inl rfl
  case h_3 htype =>
    split
    case isTrue h =>
      simp only [Bool.and_eq_true] at h
      exact .inr ⟨by simp [h], .inr (.inl ⟨.inl htype, rfl⟩)⟩
    case isFalse => exact .inl rfl
  case h_4 htype =>
    split
    case isTrue h =>
      simp only [Bool.and_eq_true] at h
      exact .inr ⟨by simp [h], .inr (.inl ⟨.inr htype, rfl⟩)⟩
    case isFalse => exact .inl rfl
  case h_5 htype =>
    split
    case isTrue h =>
      simp only [Bool.and_eq_true] at h
      exact .inr ⟨by simp [h], .inr (.inr ⟨htype, rfl⟩)⟩
    case isFalse => exact .inl rfl
  case h_6 hmulti hsingle hsync hasync hevent =>
    have hparam : isParam child.type = true := by
      cases htype : child.type <;> simp_all [isParam]
    split
    case isTrue h =>
      simp only [Bool.and_eq_true] at h
      unfold addSupportedParamResult
      split
      · exact .inl rfl
      · next hallowed =>
        refine .inr ⟨?_, .inl ⟨hparam, _, rfl⟩⟩
        have hrights : child.permit role .get = true ∨
            isWritableParam child.type = true ∧ child.permit role .set = true := by
          simpa [SchemaNode.isReadAllowed, SchemaNode.isWriteAllowed, hparam, or_iff_not_imp_left]
            using hallowed
        simpa [h] using hrights
    case isFalse => exact .inl rfl

/-! ## Objects and their access -/

@[simp] theorem addLeaf_heading (child : SchemaNode) (sor : SupportedObjectResult) :
    (addLeaf role flags parent child sor).supportedObjPath = sor.supportedObjPath ∧
      (addLeaf role flags parent child sor).access = sor.access := by
  obtain h | ⟨-, ⟨-, access, h⟩ | ⟨-, h⟩ | ⟨-, h⟩⟩ :=
    addLeaf_cases role flags parent child sor <;>
    rw [h] <;> exact ⟨rfl, rfl⟩

@[simp] theorem addLeaves_heading :
    ∀ sor : SupportedObjectResult,
      (addLeaves role flags parent childNodes sor).supportedObjPath = sor.supportedObjPath ∧
        (addLeaves role flags parent childNodes sor).access = sor.access := by
  induction childNodes with
  | none => intro sor; exact ⟨rfl, rfl⟩
  | node node below next _ ih =>
    intro sor
    rw [addLeaves, (ih _).1, (ih _).2]
    split <;> simp

@[simp] theorem calc_adds :
    (calcDMSchemaObjAccess isAddAllowed isDelAllowed).adds = isAddAllowed := by
  cases isAddAllowed <;> cases isDelAllowed <;> rfl

@[simp] theorem calc_deletes :
    (calcDMSchemaObjAccess isAddAllowed isDelAllowed).deletes = isDelAllowed := by
  cases isAddAllowed <;> cases isDelAllowed <;> rfl

@[simp] theorem objAccess_adds (node : SchemaNode) (permissions : Permit → Bool) :
    (node.objAccess permissions).adds = node.mayAdd permissions := by
  unfold SchemaNode.objAccess SchemaNode.mayAdd
  split
  · cases node.groupId <;> simp [*, Bool.and_comm]
  · simp [*]

@[simp] theorem objAccess_deletes (node : SchemaNode) (permissions : Permit → Bool) :
    (node.objAccess permissions).deletes = node.mayDelete permissions := by
  unfold SchemaNode.objAccess SchemaNode.mayDelete
  split
  · cases node.groupId <;> simp [*, Bool.and_comm]
  · simp [*]

theorem ObjAccessType.eq_of_rights {access access' : ObjAccessType}
    (hadds : access.adds = access'.adds) (hdeletes : access.deletes = access'.deletes) :
    access = access' := by
  cases access <;> cases access' <;> simp [adds, deletes] at hadds hdeletes ⊢

/-- What an entry says about its object. -/
def heading (sor : SupportedObjectResult) : Str × Bool × Bool :=
  (sor.supportedObjPath, sor.access.adds, sor.access.deletes)

/-- What the entry of `node` says when it is made for `permissions`. -/
def headingOf (permissions : Permit → Bool) (node : SchemaNode) : Str × Bool × Bool :=
  (node.path ++ ['.'], node.mayAdd permissions, node.mayDelete permissions)

theorem objectEntry_heading :
    (objectEntry role flags o).map heading =
      if o.1.permit role .objInfo then [headingOf (o.1.permit role) o.1] else [] := by
  unfold objectEntry
  split <;> simp [heading, headingOf, supportedObjResult]

theorem childEntry_heading :
    (childEntry perm o).map heading = if perm .objInfo then [headingOf perm o.1] else [] := by
  unfold childEntry
  split <;> simp [heading, headingOf, supportedObjResult]

/-- The objects of the list that the role may see, each with its own access. -/
def headings (role : Option CombinedRole) (os : List SchemaObject) : List (Str × Bool × Bool) :=
  (os.filter fun o => o.1.permit role .objInfo).map fun o => headingOf (o.1.permit role) o.1

theorem headings_cons :
    headings role (o :: os) =
      (if o.1.permit role .objInfo then [headingOf (o.1.permit role) o.1] else []) ++
        headings role os := by
  unfold headings
  cases h : o.1.permit role .objInfo <;> simp [h]

theorem headings_entries :
    (os.flatMap (objectEntry role flags)).map heading = headings role os := by
  induction os with
  | nil => rfl
  | cons o os ih => rw [flatMap_cons, map_append, objectEntry_heading, ih, headings_cons]

/-- With the permissions of the parent in the place of their own the children get the
same headings only where this makes no difference. -/
theorem headings_children :
    (os.flatMap (childEntry perm)).map heading = headings role os ↔
      ∀ o ∈ os, o.1.permit role .objInfo = perm .objInfo ∧
        (perm .objInfo = true → o.1.mayAdd (o.1.permit role) = o.1.mayAdd perm ∧
          o.1.mayDelete (o.1.permit role) = o.1.mayDelete perm) := by
  cases hparent : perm .objInfo with
  | false =>
    have hnone : os.flatMap (childEntry perm) = [] := by
      simp [childEntry, hparent]
    simp only [hnone, map_nil, Bool.false_eq_true, false_implies, and_true, headings]
    rw [eq_comm, map_eq_nil_iff, filter_eq_nil_iff]
    simp
  | true =>
    have hall : (os.flatMap (childEntry perm)).map heading = os.map fun o => headingOf perm o.1 := by
      rw [map_flatMap, map_eq_flatMap]
      congr 1
      funext o
      simp [childEntry_heading, hparent]
    rw [hall]
    constructor
    · intro h
      have hlength := congrArg List.length h
      rw [headings, length_map, length_map] at hlength
      have hseen := List.length_filter_eq_length_iff.mp hlength.symm
      rw [headings, List.filter_eq_self.mpr hseen, map_inj_left] at h
      intro o ho
      exact ⟨hseen o ho, fun _ => Prod.mk.inj (congrArg Prod.snd (h o ho)).symm⟩
    · intro h
      rw [headings, List.filter_eq_self.mpr fun o ho => (h o ho).1, map_inj_left]
      intro o ho
      obtain ⟨hadd, hdelete⟩ := (h o ho).2 rfl
      rw [headingOf, headingOf, hadd, hdelete]

theorem headings_walk {root : SchemaObject} :
    (walkSchema role flags root.1 root.2 []).map heading =
      headings role (requestedObjects flags root) ↔ ParentStandsIn role flags root := by
  rw [walkSchema_eq, map_append, objectEntry_heading, requestedObjects, headings_cons,
    append_cancel_left_eq, entriesBelow, ParentStandsIn]
  cases flags.firstLevelOnly with
  | false => simp [headings_entries]
  | true => simp [headings_children]

/-! ## Parameters, commands and events -/

theorem LeavesSeen.addLeaf {o : SchemaObject} {sor : SupportedObjectResult}
    (h : LeavesSeen role o sor) (hleaf : leaf ∈ o.2.toList) :
    LeavesSeen role o (SupportedDm.addLeaf role flags o.1 leaf sor) := by
  obtain heq | ⟨hseen, ⟨hparam, access, heq⟩ | ⟨hcommand, heq⟩ | ⟨hevent, heq⟩⟩ :=
    addLeaf_cases role flags o.1 leaf sor
  · rw [heq]
    exact h
  · rw [heq]
    refine ⟨fun p hp => ?_, h.commands, h.events⟩
    obtain hp | hp := List.mem_append.mp hp
    · exact h.params p hp
    · cases List.mem_singleton.mp hp
      exact ⟨leaf, hleaf, hparam, rfl, hseen⟩
  · rw [heq]
    refine ⟨h.params, fun c hc => ?_, h.events⟩
    obtain hc | hc := List.mem_append.mp hc
    · exact h.commands c hc
    · cases List.mem_singleton.mp hc
      exact ⟨leaf, hleaf, hcommand, rfl, hseen⟩
  · rw [heq]
    refine ⟨h.params, h.commands, fun e he => ?_⟩
    obtain he | he := List.mem_append.mp he
    · exact h.events e he
    · cases List.mem_singleton.mp he
      exact ⟨leaf, hleaf, hevent, rfl, hseen⟩

theorem LeavesSeen.addLeaves {o : SchemaObject} :
    ∀ sor, LeavesSeen role o sor → childNodes.toList ⊆ o.2.toList →
      LeavesSeen role o (SupportedDm.addLeaves role flags o.1 childNodes sor) := by
  induction childNodes with
  | none => intro sor h _; exact h
  | node node below next _ ih =>
    intro sor h hsub
    rw [SupportedDm.addLeaves]
    refine ih _ ?_ fun n hn => hsub (mem_cons_of_mem _ hn)
    split
    · exact h
    · exact h.addLeaf (hsub mem_cons_self)

/-- A fresh entry lists nothing. -/
theorem LeavesSeen.fresh (node : SchemaNode) (permissions : Permit → Bool) :
    LeavesSeen role o (supportedObjResult node permissions) :=
  ⟨nofun, nofun, nofun⟩

theorem leaves_walk : ∀ sor ∈ walkSchema role flags root.1 root.2 [],
    ∃ o ∈ requestedObjects flags root,
      sor.supportedObjPath = o.1.path ++ ['.'] ∧ LeavesSeen role o sor := by
  have hentry : ∀ o, ∀ sor ∈ objectEntry role flags o,
      sor.supportedObjPath = o.1.path ++ ['.'] ∧ LeavesSeen role o sor := by
    intro o sor hsor
    unfold objectEntry at hsor
    split at hsor
    · cases List.mem_singleton.mp hsor
      exact ⟨by simp [supportedObjResult],
        LeavesSeen.addLeaves o.2 _ (LeavesSeen.fresh o _ _) (List.Subset.refl _)⟩
    · cases hsor
  intro sor hsor
  rw [walkSchema_eq, mem_append] at hsor
  cases hsor with
  | inl h => exact ⟨root, mem_cons_self, hentry root sor h⟩
  | inr h =>
    rw [entriesBelow] at h
    split at h
    case isTrue hfirst =>
      obtain ⟨o, ho, h⟩ := List.mem_flatMap.mp h
      refine ⟨o, mem_cons_of_mem _ (by rw [if_pos hfirst]; exact ho), ?_⟩
      unfold childEntry at h
      split at h
      · cases List.mem_singleton.mp h
        exact ⟨rfl, LeavesSeen.fresh o _ _⟩
      · cases h
    case isFalse hfirst =>
      obtain ⟨o, ho, h⟩ := List.mem_flatMap.mp h
      exact ⟨o, mem_cons_of_mem _ (by rw [if_neg hfirst]; exact ho), hentry o sor h⟩

/-! ## What the role may not see -/

/-- The answer that the permissions of the role on every object call for. -/
def supported (role : Option CombinedRole) (flags : GsFlags) (root : SchemaObject) :
    List SupportedObjectResult :=
  objectEntry role flags root ++
    if flags.firstLevelOnly then
      (childObjects root.2).flatMap fun o => childEntry (o.1.permit role) o
    else (descendantObjects root.2).flatMap (objectEntry role flags)

theorem walkSchema_supported {root : SchemaObject} (h : ParentStandsIn role flags root) :
    walkSchema role flags root.1 root.2 [] = supported role flags root := by
  rw [walkSchema_eq, supported, entriesBelow]
  congr 1
  split
  · apply flatMap_congr
    intro o ho
    obtain ⟨hinfo, haccess⟩ := h ‹_› o ho
    unfold childEntry
    rw [hinfo]
    split
    · obtain ⟨hadd, hdelete⟩ := haccess ‹_›
      rw [← objAccess_adds, ← objAccess_adds] at hadd
      rw [← objAccess_deletes, ← objAccess_deletes] at hdelete
      rw [supportedObjResult, supportedObjResult, ObjAccessType.eq_of_rights hadd hdelete]
    · rfl
  · rfl

theorem hiddenObject_permit (h : node.permit role .objInfo = false) (p : Permit) :
    hiddenObject.permit role p = false := by
  cases role with
  | none => cases h
  | some role => simp [hiddenObject, SchemaNode.permit, getPermissions, rolePermissions]

theorem addLeaf_unseen {parent : SchemaNode} (h : leaf.leafSeen role parent = false)
    (sor : SupportedObjectResult) : addLeaf role flags parent leaf sor = sor := by
  obtain heq | ⟨hseen, -⟩ := addLeaf_cases role flags parent leaf sor
  · exact heq
  · rw [h] at hseen
    cases hseen

theorem addLeaves_seenPart {parent : SchemaNode} :
    ∀ sor, addLeaves role flags parent (seenPart role parent childNodes) sor =
      addLeaves role flags parent childNodes sor := by
  induction childNodes with
  | none => intro sor; rfl
  | node node below next _ ih =>
    intro sor
    rw [seenPart, addLeaves]
    cases hobject : isObject node.type with
    | true =>
      simp only [if_true]
      split
      · rw [addLeaves, hobject, if_pos rfl, ih]
      · split
        · rw [ih]
        · rw [addLeaves, show isObject hiddenObject.type = true from rfl, if_pos rfl, ih]
    | false =>
      simp only [Bool.false_eq_true, if_false]
      split
      · rw [addLeaves, hobject]
        simp only [Bool.false_eq_true, if_false]
        rw [ih]
      · next hunseen =>
        rw [addLeaf_unseen (Bool.eq_false_iff.mpr hunseen), ih]

theorem descendants_seenPart : ∀ parent : SchemaNode,
    (descendantObjects (seenPart role parent childNodes)).flatMap (objectEntry role flags) =
      (descendantObjects childNodes).flatMap (objectEntry role flags) := by
  induction childNodes with
  | none => intro parent; rfl
  | node node below next ihBelow ihNext =>
    intro parent
    rw [seenPart, descendantObjects]
    cases hobject : isObject node.type with
    | true =>
      simp only [if_true, cons_append, flatMap_cons, flatMap_append]
      split
      case isTrue hinfo =>
        rw [descendantObjects, hobject, if_pos rfl, cons_append, flatMap_cons,
          flatMap_append, ihBelow, ihNext]
        simp only [objectEntry, addLeaves_seenPart]
      case isFalse hinfo =>
        have hnone : objectEntry role flags (node, below) = [] := by simp [objectEntry, hinfo]
        rw [hnone, nil_append]
        have hbelow := ihBelow node
        split
        case h_1 hgap =>
          rw [hgap] at hbelow
          rw [ihNext, ← hbelow]
          rfl
        case h_2 =>
          have hhidden : ∀ b, objectEntry role flags (hiddenObject, b) = [] := by
            intro b
            simp [objectEntry, hiddenObject_permit (Bool.eq_false_iff.mpr hinfo)]
          rw [descendantObjects, show isObject hiddenObject.type = true from rfl, if_pos rfl,
            cons_append, flatMap_cons, flatMap_append, hhidden, hbelow, ihNext]
          rfl
    | false =>
      simp only [Bool.false_eq_true, if_false, nil_append]
      split
      · rw [descendantObjects, hobject]
        exact ihNext parent
      · exact ihNext parent

theorem children_seenPart :
    (childObjects (seenPart role parent childNodes)).flatMap
        (fun o => childEntry (o.1.permit role) o) =
      (childObjects childNodes).flatMap fun o => childEntry (o.1.permit role) o := by
  induction childNodes with
  | none => rfl
  | node node below next _ ih =>
    rw [seenPart, childObjects]
    cases hobject : isObject node.type with
    | true =>
      simp only [if_true, cons_append, nil_append, flatMap_cons]
      split
      case isTrue hinfo =>
        rw [childObjects, hobject, if_pos rfl, cons_append, flatMap_cons,
          nil_append, ih]
        rfl
      case isFalse hinfo =>
        have hnone : childEntry (node.permit role) (node, below) = [] := by
          simp [childEntry, hinfo]
        rw [hnone, nil_append]
        split
        · exact ih
        · have hhidden : ∀ b, childEntry (hiddenObject.permit role) (hiddenObject, b) = [] := by
            intro b
            simp [childEntry, hiddenObject_permit (Bool.eq_false_iff.mpr hinfo)]
          rw [childObjects, show isObject hiddenObject.type = true from rfl, if_pos rfl,
            cons_append, flatMap_cons, hhidden]
          exact ih
    | false =>
      simp only [Bool.false_eq_true, if_false, nil_append]
      split
      · rw [childObjects, hobject]
        exact ih
      · exact ih

/-- Only what the role may see is in the answer that its permissions call for. -/
theorem supported_seenObject :
    supported role flags (seenObject role root) = supported role flags root := by
  have hroot : objectEntry role flags (seenObject role root) = objectEntry role flags root := by
    unfold seenObject objectEntry
    cases hinfo : root.1.permit role .objInfo with
    | true => simp [hinfo, addLeaves_seenPart]
    | false => simp [hiddenObject_permit hinfo]
  rw [supported, supported, hroot]
  congr 1
  split
  · exact children_seenPart root.1 root.2
  · exact descendants_seenPart root.2 root.1

end Walk

/-- A walk answers as the permissions of the role call for exactly where the parent stands
in for the first-level children; and two such schemas with the same part to be seen get
the same answer. -/
theorem answer_permitted_iff (role : Option CombinedRole) (flags : GsFlags) :
    (∀ root : SchemaObject, AsPermitted role flags root (walkSchema role flags root.1 root.2 []) ↔
      ParentStandsIn role flags root) ∧
    ∀ root root' : SchemaObject,
      ParentStandsIn role flags root → ParentStandsIn role flags root' →
      seenObject role root = seenObject role root' →
      walkSchema role flags root.1 root.2 [] = walkSchema role flags root'.1 root'.2 [] := by
  constructor
  · intro root
    constructor
    · intro h
      exact headings_walk.mp h.objects
    · intro h
      exact ⟨headings_walk.mpr h, leaves_walk root⟩
  · intro root root' h h' hsame
    rw [walkSchema_supported h, walkSchema_supported h', ← supported_seenObject, hsame,
      supported_seenObject]

def hiddenTable : SchemaNode where
  name := ['T']
  path := ['D', '.', 'T']
  type := .objectMultiInstance
  permissions _ _ := false

def shownRoot : SchemaNode where
  name := ['D']
  path := ['D']
  type := .objectSingleInstance
  permissions _ p := p = .objInfo

/-- Below the first level the table that the role may not see makes no difference. -/
theorem answer_permitted_hidden :
    walkSchema (some ⟨1, 1⟩) ⟨false, false, false, true⟩ shownRoot
        (.node hiddenTable .none .none) [] =
      walkSchema (some ⟨1, 1⟩) ⟨false, false, false, true⟩ shownRoot .none [] :=
  (answer_permitted_iff (some ⟨1, 1⟩) ⟨false, false, false, true⟩).2
    (shownRoot, .node hiddenTable .none .none) (shownRoot, .none) nofun nofun rfl

theorem hidden_child_listed :
    ¬ AsPermitted (some ⟨1, 1⟩) ⟨true, false, false, false⟩
      (shownRoot, .node hiddenTable .none .none)
      (walkSchema (some ⟨1, 1⟩) ⟨true, false, false, false⟩ shownRoot
        (.node hiddenTable .none .none) []) := by
  intro h
  have hobjects := h.objects
  revert hobjects
  decide

end SupportedDm
