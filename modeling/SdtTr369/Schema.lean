import SdtTr369.TextUtils
import Mathlib.Data.List.Basic

/-!
# The data-model tree and its registration

Nodes live in one growing table and are named by their index; the two root
nodes made by `DATA_MODEL_Init` are 0 and 1. The hash map holds, for each
bucket, the nodes most recently pushed first. Arrays of node pointers are
lists: an array index that runs past the end of a C array is a list that is
longer than the array.
-/

namespace Schema

open UspTypes TextUtils

abbrev NodeId := Nat

/-- What the `USP_REGISTER` functions attach to a node, as far as the modelled
functions read it. A group of `none` is `NON_GROUPED`. -/
structure Registered where
  defaultValue : Str := []
  groupId : Option Nat := none
  groupWritable : Bool := false
  uniqueKeys : List (List Str) := []
  refreshInstances : Bool := false
  paramType : ParamType := .string
  tableNode : NodeId := 0
  deriving DecidableEq, Repr

/-- `dm_node_t`. -/
structure DmNode where
  name : Str
  path : Str
  hash : UInt32
  type : NodeType
  childNodes : List NodeId
  order : Nat
  instanceNodes : List NodeId
  registered : Registered
  deriving DecidableEq, Repr

def nullNode : DmNode := ⟨[], [], 0, .event, [], 0, [], {}⟩

/-- The node table with `dm_node_map`. -/
structure DmTree where
  nodes : List DmNode
  nodeMap : Nat → List NodeId

def DmTree.node (S : DmTree) (id : NodeId) : DmNode := S.nodes.getD id nullNode

def DmTree.modifyNode (S : DmTree) (id : NodeId) (f : DmNode → DmNode) : DmTree :=
  { S with nodes := S.nodes.modify id f }

@[simp] theorem modifyNode_length (S : DmTree) (id : NodeId) (f : DmNode → DmNode) :
    (S.modifyNode id f).nodes.length = S.nodes.length := by simp [DmTree.modifyNode]

theorem modifyNode_node (S : DmTree) (id id' : NodeId) (f : DmNode → DmNode)
    (h : id' < S.nodes.length) :
    (S.modifyNode id f).node id' = if id = id' then f (S.node id') else S.node id' := by
  simp only [DmTree.node, DmTree.modifyNode, List.getD_eq_getElem?_getD, List.getElem?_modify]
  split <;> simp [h]

def findInBucket (S : DmTree) (hash : UInt32) : List NodeId → Option NodeId
  | [] => none
  | id :: rest => if (S.node id).hash = hash then some id else findInBucket S hash rest

def squashedHash (hash : UInt32) : Nat := hash.toNat % maxNodeMapBuckets

def findNodeFromHash (S : DmTree) (hash : UInt32) : Option NodeId :=
  findInBucket S hash (S.nodeMap (squashedHash hash))

def findMatchingChild (S : DmTree) (parent : NodeId) (name : Str) : Option NodeId :=
  (S.node parent).childNodes.find? fun child => (S.node child).name = name

/-- The allocation part of `CreateNode`: the node enters the table and the
front of its bucket. -/
def pushNode (S : DmTree) (n : DmNode) : DmTree where
  nodes := S.nodes ++ [n]
  nodeMap b := if b = squashedHash n.hash then S.nodes.length :: S.nodeMap b else S.nodeMap b

def createNode (S : DmTree) (name : Str) (type : NodeType) (schemaPath : Str) :
    Option (DmTree × NodeId) :=
  let hash := calcHash schemaPath
  match findNodeFromHash S hash with
  | some _ => none
  | none => some (pushNode S ⟨name, schemaPath, hash, type, [], 0, [], {}⟩, S.nodes.length)

/-- `dm_path_segment`. -/
structure Segment where
  name : Str
  type : NodeType
  deriving DecidableEq, Repr

/-- The strings left by `strncpy_path_segments`, which copies one character
less than its buffer holds and turns every dot into a terminator. -/
def pathSegments (path : Str) : List Str :=
  ((path.take (maxDmPath - 1)).splitOn '.').filter (· ≠ [])

/-- A segment that stands for an instance number. -/
def isInstanceSegment (s : Str) : Bool :=
  s = multiSeparator || (match s with | c :: _ => isNumeric c | [] => false)

def markLast : List Segment → List Segment
  | [] => []
  | [seg] => [{ seg with type := .objectMultiInstance }]
  | seg :: rest => seg :: markLast rest

/-- The scanning loop of `ParseSchemaPath`. With no name before it an instance
segment marks the cell in front of the array, which is no segment. -/
def scanSegments (segments : List Segment) : List Str → Option (List Segment)
  | [] => some segments
  | s :: rest =>
    if isInstanceSegment s then scanSegments (markLast segments) rest
    else if segments.length = maxPathSegments then none
    else scanSegments (segments ++ [⟨s, .objectSingleInstance⟩]) rest

def setLastType (type : NodeType) : List Segment → List Segment
  | [] => []
  | [seg] => [{ seg with type := type }]
  | seg :: rest => seg :: setLastType type rest

def parseSchemaPath (path : Str) (type : NodeType) : Option (List Segment) :=
  (scanSegments [] (pathSegments path)).map fun segments =>
    if type = .objectMultiInstance then segments else setLastType type segments

/-- The flags of `DM_PRIV_AddSchemaPath`. -/
structure SchemaFlags where
  suppressPreExistanceErr : Bool := false
  suppressLastTypeCheck : Bool := false
  deriving DecidableEq, Repr

/-- Where the loop of `DM_PRIV_AddSchemaPath` stands: `inst` is its
`inst.nodes` up to `inst.order`. -/
structure Walk where
  tree : DmTree
  parent : NodeId
  schemaPath : Str
  inst : List NodeId

def separator (type : NodeType) : Str :=
  if type = .objectMultiInstance then '.' :: multiSeparator else []

/-- Parameters go in front of the first object, objects to the tail. -/
def linkChild (S : DmTree) (siblings : List NodeId) (type : NodeType) (child : NodeId) :
    List NodeId :=
  if isObject type then siblings ++ [child]
  else siblings.takeWhile (fun n => !isObject (S.node n).type) ++
    child :: siblings.dropWhile (fun n => !isObject (S.node n).type)

def extendInst (inst : List NodeId) (type : NodeType) (child : NodeId) : List NodeId :=
  if type = .objectMultiInstance then inst ++ [child] else inst

/-- The branch of the loop body for a name that the parent does not have yet. -/
def addChild (w : Walk) (seg : Segment) (isLast : Bool) (schemaPath : Str) : Option Walk :=
  if seg.type = .objectMultiInstance ∧ isLast = false then none
  else match createNode w.tree seg.name seg.type schemaPath with
    | none => none
    | some (S, child) =>
      let inst := extendInst w.inst seg.type child
      let S := S.modifyNode w.parent fun n =>
        { n with childNodes := linkChild S n.childNodes seg.type child }
      let S := S.modifyNode child fun n =>
        { n with instanceNodes := inst, order := inst.length }
      some ⟨S, child, schemaPath, inst⟩

/-- The branch of the loop body for a name that the parent already has. -/
def enterChild (w : Walk) (seg : Segment) (isLast : Bool) (flags : SchemaFlags)
    (schemaPath : Str) (child : NodeId) : Option Walk :=
  if isLast = true ∧ flags.suppressPreExistanceErr = false then none
  else if ¬ (isLast = true ∧ flags.suppressLastTypeCheck = true) ∧
      (w.tree.node child).type ≠ seg.type then none
  else
    let inst := extendInst w.inst seg.type child
    if (w.tree.node child).order ≠ inst.length then none
    else some ⟨w.tree, child, schemaPath, inst⟩

def walkSegment (flags : SchemaFlags) (w : Walk) (seg : Segment) (isLast : Bool) : Option Walk :=
  let schemaPath := w.schemaPath ++ '.' :: seg.name ++ separator seg.type
  match findMatchingChild w.tree w.parent seg.name with
  | none => addChild w seg isLast schemaPath
  | some child => enterChild w seg isLast flags schemaPath child

/-- The loop of `DM_PRIV_AddSchemaPath`; nodes added before a failure stay. -/
def walkSegments (flags : SchemaFlags) (w : Walk) : List Segment → DmTree × Option NodeId
  | [] => (w.tree, some w.parent)
  | seg :: rest =>
    match walkSegment flags w seg rest.isEmpty with
    | none => (w.tree, none)
    | some w => walkSegments flags w rest

def deviceNodeName : Str := ['D', 'e', 'v', 'i', 'c', 'e']
def internalNodeName : Str := ['I', 'n', 't', 'e', 'r', 'n', 'a', 'l']

def rootDeviceNode : NodeId := 0
def rootInternalNode : NodeId := 1

def addSchemaPath (S : DmTree) (path : Str) (type : NodeType) (flags : SchemaFlags) :
    DmTree × Option NodeId :=
  match parseSchemaPath path type with
  | none => (S, none)
  | some [] => (S, none)
  | some (first :: rest) =>
    if first.name = (S.node rootDeviceNode).name then
      walkSegments flags ⟨S, rootDeviceNode, first.name, []⟩ rest
    else if first.name = (S.node rootInternalNode).name then
      walkSegments flags ⟨S, rootInternalNode, first.name, []⟩ rest
    else (S, none)

def emptyTree : DmTree := ⟨[], fun _ => []⟩

def rootNode (name : Str) : DmNode :=
  ⟨name, name, calcHash name, .objectSingleInstance, [], 0, [], {}⟩

/-- The tree after the two calls of `CreateNode` in `DATA_MODEL_Init`. -/
def initialTree : DmTree :=
  pushNode (pushNode emptyTree (rootNode deviceNodeName)) (rootNode internalNodeName)

/-- One call of `DM_PRIV_AddSchemaPath`, and what its caller then attaches to
the node that it gets. -/
structure Registration where
  path : Str
  type : NodeType
  flags : SchemaFlags
  attach : Registered → Registered := id

/-- The caller writes into `node->registered`. -/
def attachInfo (S : DmTree) (id : NodeId) (f : Registered → Registered) : DmTree :=
  S.modifyNode id fun n => { n with registered := f n.registered }

def register (S : DmTree) (r : Registration) : DmTree :=
  match addSchemaPath S r.path r.type r.flags with
  | (S, none) => S
  | (S, some node) => attachInfo S node r.attach

def registerAll (S : DmTree) (rs : List Registration) : DmTree := rs.foldl register S

end Schema
