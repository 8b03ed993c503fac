import SdtTr369.CBuffers
import SdtTr369.DataModelRead
import SdtTr369.ExprVector
import SdtTr369.ReportingInterval
import SdtTr369.RunHistory
import SdtTr369.SchemaInvariant

/-!
# The schema of the model file

`SK_TR369_ParseSchema` of `vendor.c` walks the tree of the model file and registers a parameter
for each of its schema elements that stands for one. The path is put together from the element
upwards, and with the other attributes printed into buffers of fixed size.
-/

namespace XmlSchema

open UspTypes Schema CBuffers RunHistory List
open DataModelRead (isWritableType)
open ExprVector (stringToBool)
open ReportingInterval (stringToInteger stringToUnsigned)

/-! ## The tree -/

/-- A node of the tree with its attributes; a text has none. -/
structure Element where
  tag : Str
  attrs : List (Str × Str)
  deriving DecidableEq, Repr

/-- `xmlGetProp` -/
def Element.prop (e : Element) (name : String) : Option Str := e.attrs.lookup name.toList

/-- `xmlNodePtr`, with the pointers `children` and `next`. -/
inductive XmlNode where
  | null
  | node (element : Element) (children next : XmlNode)
  deriving Repr

/-- An element below its ancestors, the nearest one first. -/
structure Visit where
  element : Element
  ancestors : List Element
  deriving DecidableEq, Repr

/-- The element and its ancestors. -/
def Visit.chain (v : Visit) : List Element := v.element :: v.ancestors

/-! ## Parsing an element -/

/-- The loop of `SK_TR369_GetNodeFullName`; both buffers are of `MAX_DM_PATH`. -/
def nodeFullName : List Element → Str → Option Str
  | [], name => some name
  | current :: parents, name =>
    match current.prop "name" with
    | none => some name
    | some nodeName => do
      let fullName ← sprintf maxDmPath (if name ≠ [] then nodeName ++ '.' :: name else nodeName)
      nodeFullName parents fullName

/-- `sk_schema_node_t`, as far as it is used. -/
structure SchemaNode where
  path : Str
  getter : Bool
  setter : Bool
  value : Str
  deriving DecidableEq, Repr

/-- The size of `value`. -/
def maxDmShortValueLen : Nat := maxDmPath

/-- `SK_TR369_ParseNode`. The name is printed into an array of `MAX_PATH_SEGMENTS`. -/
def parseNode (v : Visit) : Option SchemaNode := do
  let path ← nodeFullName v.chain []
  let _ ← sprintf maxPathSegments ((v.element.prop "name").getD [])
  let value ← sprintf maxDmShortValueLen ((v.element.prop "default").getD [])
  pure ⟨path, v.element.prop "getter" = some "diagnose".toList,
    v.element.prop "setter" = some "diagnose".toList, value⟩

/-- `SK_TR369_ParseType` -/
def parseType (type : Option Str) : ParamType :=
  if type = some "string".toList then .string
  else if type = some "boolean".toList then .bool
  else if type = some "dateTime".toList then .dateTime
  else if type = some "int".toList then .int
  else if type = some "unsignedInt".toList then .uint
  else if type = some "long".toList then .long
  else if type = some "unsignedLong".toList then .ulong
  else if type = some "base64".toList then .base64
  else if type = some "hex".toList then .hexBin
  else if type = some "decimal".toList then .decimal
  else .string

/-- A call of one of the `USP_REGISTER` functions for a parameter. -/
structure ParamCall where
  path : Str
  type : NodeType
  defaultValue : Str
  paramType : ParamType
  deriving DecidableEq, Repr

/-- `SK_TR369_AddNodeToUspDataModel` -/
def addNodeToUspDataModel (node : SchemaNode) (type : ParamType) : Option ParamCall :=
  if node.setter then some ⟨node.path, .vendorParamReadWrite, [], .string⟩
  else if node.getter then some ⟨node.path, .vendorParamReadOnly, [], .string⟩
  else if node.value ≠ [] then some ⟨node.path, .dbParamReadOnly, node.value, type⟩
  else none

/-- The calls of the `USP_REGISTER` functions. -/
inductive Call where
  | numEntries (path tablePath : Str)
  | object (path : Str)
  | param (call : ParamCall)
  deriving DecidableEq, Repr

def isSchema (e : Element) : Bool := e.tag = "schema".toList

/-- The body of the loop of `SK_TR369_ParseSchema`, up to the call that it makes, if any. -/
def parseElement (v : Visit) : Option (Option Call) :=
  let type := v.element.prop "type"
  if isSchema v.element = false then some none
  else if type = some "multipleNumber".toList then
    match v.element.prop "table" with
    | none => some none
    | some table => do
      let tablePath ← sprintf maxDmPath table
      let nodePath ← nodeFullName v.chain []
      pure (some (.numEntries nodePath tablePath))
  else if type = some "multipleObject".toList then do
    let nodePath ← nodeFullName v.chain []
    pure (some (.object nodePath))
  else if type = some "object".toList ∨ type = some "unknown".toList then some none
  else do
    let node ← parseNode v
    pure ((addNodeToUspDataModel node (parseType type)).map .param)

/-! ## Registering it -/

/-- `USP_REGISTER_VendorParam_ReadWrite`, `USP_REGISTER_VendorParam_ReadOnly` and
`USP_REGISTER_DBParam_ReadOnly` -/
def ParamCall.registration (call : ParamCall) : Registration where
  path := call.path
  type := call.type
  flags := {}
  attach := fun _ => { defaultValue := call.defaultValue, paramType := call.paramType }

/-- `USP_REGISTER_Object` without hooks. -/
def objectRegistration (path : Str) : Registration where
  path := path
  type := .objectMultiInstance
  flags := {}
  attach := fun _ => {}

/-- The checks of `USP_REGISTER_Param_NumEntries` on the two nodes. -/
def sameParent (param table : DmNode) : Bool :=
  param.order + 1 = table.order ∧
    (0 < param.order → param.instanceNodes[param.order - 1]? = table.instanceNodes[param.order - 1]?)

/-- `USP_REGISTER_Param_NumEntries` -/
def registerNumEntries (S : DmTree) (path tablePath : Str) : DmTree :=
  match addSchemaPath S path .paramNumEntries {} with
  | (S, none) => S
  | (S, some param) =>
    match addSchemaPath S tablePath .objectMultiInstance { suppressPreExistanceErr := true } with
    | (S, none) => S
    | (S, some table) =>
      if sameParent (S.node param) (S.node table) then
        attachInfo S param fun _ => { tableNode := table, paramType := .uint }
      else S

/-- The call of the registering function; errors are not looked at. -/
def perform (S : DmTree) : Option Call → DmTree
  | none => S
  | some (.numEntries path tablePath) => registerNumEntries S path tablePath
  | some (.object path) => register S (objectRegistration path)
  | some (.param call) => register S call.registration

def visit (v : Visit) (S : DmTree) : Option DmTree := (parseElement v).map (perform S)

/-- `SK_TR369_ParseSchema`, below the ancestors of the node. -/
def parseSchema (ancestors : List Element) : XmlNode → DmTree → Option DmTree
  | .null, S => some S
  | .node element children next, S => do
    let S ← visit ⟨element, ancestors⟩ S
    let S ← parseSchema (element :: ancestors) children S
    parseSchema ancestors next S

/-- The elements in the order in which they are visited. -/
def visits (ancestors : List Element) : XmlNode → List Visit
  | .null => []
  | .node element children next =>
    ⟨element, ancestors⟩ :: visits (element :: ancestors) children ++ visits ancestors next

theorem parseSchema_eq_run (xml : XmlNode) (ancestors : List Element) (S : DmTree) :
    parseSchema ancestors xml S = run visit (visits ancestors xml) S := by
  induction xml generalizing ancestors S with
  | null => rfl
  | node element children next ihChildren ihNext =>
    rw [parseSchema, visits, cons_append, run_cons]
    show (visit ⟨element, ancestors⟩ S).bind _ = _
    congr 1
    funext T
    show (parseSchema (element :: ancestors) children T).bind _ = _
    rw [ihChildren, run, run, foldlM_append]
    show Option.bind _ _ = Option.bind _ _
    congr 1
    funext U
    exact ihNext ancestors U

/-! ## A Set -/

/-- Which texts are values of the types whose conversions belong to the platform. -/
structure Conversions where
  dateTime : Str → Bool
  ulong : Str → Bool
  long : Str → Bool
  decimal : Str → Bool
  base64 : Str → Bool
  hexBin : Str → Bool

/-- Whether a text is a value of a type, with the conversions of `text_utils.c`. -/
def isValue (V : Conversions) (text : Str) : ParamType → Bool
  | .string => true
  | .dateTime => V.dateTime text
  | .bool => (stringToBool text).isSome
  | .int => (stringToInteger text).isSome
  | .uint => (stringToUnsigned text).isSome
  | .ulong => V.ulong text
  | .base64 => V.base64 text
  | .hexBin => V.hexBin text
  | .decimal => V.decimal text
  | .long => V.long text

/-- `DM_PRIV_InitSetRequest` -/
def initSetRequest (V : Conversions) (type : ParamType) (newValue : Str) : Bool :=
  match type with
  | .string | .base64 | .hexBin => true
  | type => isValue V newValue type

/-- A parameter takes the text in a Set. -/
def setAccepted (V : Conversions) (node : DmNode) (newValue : Str) : Bool :=
  isWritableType node.type && initSetRequest V node.registered.paramType newValue

/-! ## What the parser should do -/

/-- The types that are not those of a parameter. -/
def objectTypes : List (Option Str) :=
  [some "multipleNumber".toList, some "multipleObject".toList, some "object".toList,
    some "unknown".toList]

/-- A schema element of a parameter type. -/
def isParamElement (e : Element) : Bool := isSchema e ∧ e.prop "type" ∉ objectTypes

/-- It has a getter, a setter or a default. -/
def Needed (v : Visit) : Prop :=
  isParamElement v.element = true ∧ ((v.element.prop "getter").isSome = true ∨
    (v.element.prop "setter").isSome = true ∨ (v.element.prop "default").isSome = true)

/-- The names of the schema ancestors and of the element itself, joined with dots. -/
def schemaPath (v : Visit) : Str :=
  ['.'].intercalate ((v.chain.filter isSchema).filterMap (·.prop "name")).reverse

def declaredType (v : Visit) : ParamType := parseType (v.element.prop "type")

/-- What the parameter of an element is in the tree. -/
structure RegisteredAs (V : Conversions) (S : DmTree) (v : Visit) (id : NodeId) : Prop where
  param : isParam (S.node id).type = true
  writable : isWritableType (S.node id).type = true ↔ (v.element.prop "setter").isSome = true
  type : (S.node id).registered.paramType = declaredType v
  set : ∀ text, setAccepted V (S.node id) text = true → isValue V text (declaredType v) = true

/-- The element is registered by its own call, under its own path, as a new node that is right
in the tree `T` at the end. -/
def Registers (V : Conversions) (T S : DmTree) (v : Visit) : Prop :=
  ∃ call tree id, parseElement v = some (some (.param call)) ∧ call.path = schemaPath v ∧
    addSchemaPath S call.path call.type {} = (tree, some id) ∧ S.nodes.length ≤ id ∧
    RegisteredAs V T v id

/-- No buffer is exceeded, and every element that should be is registered at its turn. -/
def Right (V : Conversions) (xml : XmlNode) (S : DmTree) : Prop :=
  ∃ T, parseSchema [] xml S = some T ∧
    RunMeets visit (fun S v => Needed v → Registers V T S v) (visits [] xml) S

/-! ## When it does -/

/-- The names from the element upwards, to the first ancestor without one. -/
def walkedNames : List Element → List Str
  | [] => []
  | e :: parents =>
    match e.prop "name" with
    | none => []
    | some name => name :: walkedNames parents

/-- Names put in front of one another. -/
def joinUp : List Str → Str → Str
  | [], name => name
  | parent :: parents, name =>
    joinUp parents (if name ≠ [] then parent ++ '.' :: name else parent)

def walkedPath (v : Visit) : Str := joinUp (walkedNames v.chain) []

/-- What is printed fits into its buffers. -/
structure Contained (v : Visit) : Prop where
  table : isSchema v.element = true → v.element.prop "type" = some "multipleNumber".toList →
    ∀ table, v.element.prop "table" = some table →
      table.length < maxDmPath ∧ (walkedPath v).length < maxDmPath
  object : isSchema v.element = true → v.element.prop "type" = some "multipleObject".toList →
    (walkedPath v).length < maxDmPath
  param : isParamElement v.element = true → (walkedPath v).length < maxDmPath ∧
    ((v.element.prop "name").getD []).length < maxPathSegments ∧
    ((v.element.prop "default").getD []).length < maxDmShortValueLen

variable (names : List Str) {node : SchemaNode} (V : Conversions)

/-- Two last names may be joined beforehand. -/
theorem intercalate_merge (parent name : Str) :
    ['.'].intercalate (names ++ [parent ++ '.' :: name]) =
      ['.'].intercalate (names ++ [parent, name]) := by
  induction names with
  | nil => simp [intercalate_cons_cons]
  | cons first names ih =>
    rw [cons_append, cons_append, intercalate_cons_of_ne_nil (by simp), ih,
      intercalate_cons_of_ne_nil (by simp)]

theorem joinUp_eq (parents : List Str) {name : Str} (h : name ≠ []) :
    joinUp parents name = ['.'].intercalate (name :: parents).reverse := by
  induction parents generalizing name with
  | nil => simp [joinUp]
  | cons parent parents ih =>
    have hne : parent ++ '.' :: name ≠ [] := by simp
    rw [joinUp, if_pos h, ih hne, reverse_cons, reverse_cons, reverse_cons,
      intercalate_merge, append_assoc, singleton_append]

/-- The path of the walk joins the names that it meets. -/
theorem walkedPath_eq (v : Visit) :
    walkedPath v = ['.'].intercalate ((walkedNames v.chain).dropWhile (· = [])).reverse := by
  rw [walkedPath]
  induction walkedNames v.chain with
  | nil => rfl
  | cons name names ih =>
    have hfirst : joinUp (name :: names) [] = joinUp names name := by simp [joinUp]
    rw [hfirst]
    by_cases hname : name = []
    · rw [hname, ih]
      rfl
    · rw [joinUp_eq names hname, dropWhile_cons_of_neg (by simpa using hname)]

/-- The node that `SK_TR369_ParseNode` fills in. -/
def schemaNodeOf (v : Visit) : SchemaNode :=
  ⟨walkedPath v, v.element.prop "getter" = some "diagnose".toList,
    v.element.prop "setter" = some "diagnose".toList, (v.element.prop "default").getD []⟩

/-- The element names the known function. -/
def Diagnosed (v : Visit) (hook : String) : Prop := v.element.prop hook = some "diagnose".toList

instance (v : Visit) (hook : String) : Decidable (Diagnosed v hook) :=
  inferInstanceAs (Decidable (_ = _))

def nodeType (v : Visit) : NodeType :=
  if Diagnosed v "setter" then .vendorParamReadWrite
  else if Diagnosed v "getter" then .vendorParamReadOnly
  else .dbParamReadOnly

/-- The tree takes a new node for the path. -/
def TakesNode (S : DmTree) (path : Str) (type : NodeType) : Prop :=
  ∃ tree id, addSchemaPath S path type {} = (tree, some id) ∧ S.nodes.length ≤ id

/-- The names met on the way up, without empty ones at its start, are those of the schema
ancestors; a setter is the known one, and there is a known getter or setter or a default; one of
the two makes the type a string; and the tree takes a node for the path. -/
structure Sound (S : DmTree) (v : Visit) : Prop where
  path : ['.'].intercalate ((walkedNames v.chain).dropWhile (· = [])).reverse = schemaPath v
  setter : (v.element.prop "setter").isSome = true → Diagnosed v "setter"
  known : Diagnosed v "setter" ∨ Diagnosed v "getter" ∨ (v.element.prop "default").getD [] ≠ []
  type : Diagnosed v "setter" ∨ Diagnosed v "getter" → declaredType v = .string
  added : TakesNode S (schemaPath v) (nodeType v)

/-- Each element meets the condition at its turn. -/
def Fits (xml : XmlNode) (S : DmTree) : Prop :=
  RunMeets visit (fun S v => Contained v ∧ (Needed v → Sound S v)) (visits [] xml) S

/-! ## Paths -/

theorem joinUp_length (name : Str) : name.length ≤ (joinUp names name).length := by
  induction names generalizing name with
  | nil => exact Nat.le_refl _
  | cons parent parents ih =>
    refine Nat.le_trans ?_ (ih _)
    split
    · simp only [length_append, length_cons]
      omega
    · next hempty =>
      rw [not_not.mp hempty]
      exact Nat.zero_le _

/-- The walk prints what it joins, if that fits. -/
theorem nodeFullName_eq (chain : List Element) {name : Str} (hname : name.length < maxDmPath) :
    nodeFullName chain name = sprintf maxDmPath (joinUp (walkedNames chain) name) := by
  induction chain generalizing name with
  | nil => exact (if_pos hname).symm
  | cons current parents ih =>
    rw [nodeFullName, walkedNames]
    cases current.prop "name" with
    | none => exact (if_pos hname).symm
    | some nodeName =>
      simp only [joinUp]
      generalize (if name ≠ [] then nodeName ++ '.' :: name else nodeName) = fullName
      by_cases hfull : fullName.length < maxDmPath
      · show (sprintf maxDmPath fullName).bind _ = _
        rw [sprintf, if_pos hfull]
        exact ih hfull
      · show (sprintf maxDmPath fullName).bind _ = _
        have hlong : ¬ (joinUp (walkedNames parents) fullName).length < maxDmPath := by
          have := joinUp_length (walkedNames parents) fullName
          omega
        rw [sprintf, if_neg hfull, sprintf, if_neg hlong]
        rfl

theorem nodeFullName_chain (v : Visit) :
    nodeFullName v.chain [] = sprintf maxDmPath (walkedPath v) :=
  nodeFullName_eq v.chain (by decide)

theorem parseNode_eq {v : Visit} (hpath : (walkedPath v).length < maxDmPath)
    (hname : ((v.element.prop "name").getD []).length < maxPathSegments)
    (hdefault : ((v.element.prop "default").getD []).length < maxDmShortValueLen) :
    parseNode v = some (schemaNodeOf v) := by
  rw [parseNode, nodeFullName_chain, sprintf_of_lt hpath, sprintf_of_lt hname,
    sprintf_of_lt hdefault]
  rfl

/-- A parameter element calls what its node asks for. -/
theorem parseElement_param {v : Visit} (hparam : isParamElement v.element = true) :
    parseElement v =
      (parseNode v).map fun node => (addNodeToUspDataModel node (declaredType v)).map .param := by
  obtain ⟨hschema, htype⟩ := of_decide_eq_true hparam
  simp only [objectTypes, mem_cons, not_mem_nil, or_false, not_or] at htype
  obtain ⟨hnumber, hmulti, hobject, hunknown⟩ := htype
  rw [parseElement]
  simp only [hschema, Bool.true_eq_false, if_false, hnumber, hmulti, hobject, hunknown, or_self]
  cases parseNode v <;> rfl

section Types

variable {v : Visit} (hschema : isSchema v.element = true)
include hschema

theorem parsed_number (hnumber : v.element.prop "type" = some "multipleNumber".toList) :
    (parseElement v).isSome = true ↔ ∀ table, v.element.prop "table" = some table →
      table.length < maxDmPath ∧ (walkedPath v).length < maxDmPath := by
  rw [parseElement]
  simp only [hschema, Bool.true_eq_false, if_false, if_pos hnumber]
  cases v.element.prop "table" with
  | none => exact ⟨fun _ _ => nofun, fun _ => rfl⟩
  | some table =>
    simp only [nodeFullName_chain]
    constructor
    · rintro hsome _ ⟨⟩
      obtain ⟨call, hcall⟩ := Option.isSome_iff_exists.mp hsome
      obtain ⟨tablePath, htable, hcall⟩ := Option.bind_eq_some_iff.mp hcall
      obtain ⟨nodePath, hpath, _⟩ := Option.bind_eq_some_iff.mp hcall
      exact ⟨lt_of_sprintf htable, lt_of_sprintf hpath⟩
    · intro hfits
      obtain ⟨htable, hpath⟩ := hfits table rfl
      rw [sprintf_of_lt htable, sprintf_of_lt hpath]
      rfl

theorem parsed_multi (hmulti : v.element.prop "type" = some "multipleObject".toList) :
    (parseElement v).isSome = true ↔ (walkedPath v).length < maxDmPath := by
  have hnumber : ¬ v.element.prop "type" = some "multipleNumber".toList := by
    rw [hmulti]
    decide
  rw [parseElement]
  simp only [hschema, Bool.true_eq_false, if_false, if_neg hnumber, if_pos hmulti]
  rw [nodeFullName_chain]
  constructor
  · intro hsome
    obtain ⟨call, hcall⟩ := Option.isSome_iff_exists.mp hsome
    obtain ⟨nodePath, hpath, _⟩ := Option.bind_eq_some_iff.mp hcall
    exact lt_of_sprintf hpath
  · intro hpath
    rw [sprintf_of_lt hpath]
    rfl

theorem parsed_object (hobject : v.element.prop "type" = some "object".toList ∨
    v.element.prop "type" = some "unknown".toList) : parseElement v = some none := by
  have hnumber : ¬ v.element.prop "type" = some "multipleNumber".toList := by
    rcases hobject with h | h <;> rw [h] <;> decide
  have hmulti : ¬ v.element.prop "type" = some "multipleObject".toList := by
    rcases hobject with h | h <;> rw [h] <;> decide
  rw [parseElement]
  simp only [hschema, Bool.true_eq_false, if_false, if_neg hnumber, if_neg hmulti, if_pos hobject]

end Types

theorem parsed_param {v : Visit} (hparam : isParamElement v.element = true) :
    (parseElement v).isSome = true ↔ (walkedPath v).length < maxDmPath ∧
      ((v.element.prop "name").getD []).length < maxPathSegments ∧
      ((v.element.prop "default").getD []).length < maxDmShortValueLen := by
  rw [parseElement_param hparam, Option.isSome_map]
  constructor
  · intro hsome
    rw [parseNode, nodeFullName_chain] at hsome
    obtain ⟨node, hnode⟩ := Option.isSome_iff_exists.mp hsome
    obtain ⟨path, hpath, hnode⟩ := Option.bind_eq_some_iff.mp hnode
    obtain ⟨name, hname, hnode⟩ := Option.bind_eq_some_iff.mp hnode
    obtain ⟨value, hvalue, _⟩ := Option.bind_eq_some_iff.mp hnode
    exact ⟨lt_of_sprintf hpath, lt_of_sprintf hname, lt_of_sprintf hvalue⟩
  · rintro ⟨hpath, hname, hdefault⟩
    rw [parseNode_eq hpath hname hdefault]
    rfl

/-- An element is parsed when everything fits into its buffers. -/
theorem parseElement_isSome_iff (v : Visit) : (parseElement v).isSome = true ↔ Contained v := by
  constructor
  · exact fun hsome => ⟨fun hschema htype => (parsed_number hschema htype).mp hsome,
      fun hschema htype => (parsed_multi hschema htype).mp hsome,
      fun hparam => (parsed_param hparam).mp hsome⟩
  · intro hcontained
    by_cases hschema : isSchema v.element = true
    · by_cases hmem : v.element.prop "type" ∈ objectTypes
      · simp only [objectTypes, mem_cons, not_mem_nil, or_false] at hmem
        rcases hmem with hnumber | hmulti | hobject
        · exact (parsed_number hschema hnumber).mpr (hcontained.table hschema hnumber)
        · exact (parsed_multi hschema hmulti).mpr (hcontained.object hschema hmulti)
        · rw [parsed_object hschema hobject]
          rfl
      · have hparam : isParamElement v.element = true := decide_eq_true ⟨hschema, hmem⟩
        exact (parsed_param hparam).mpr (hcontained.param hparam)
    · rw [parseElement, if_pos (Bool.not_eq_true _ ▸ hschema)]
      rfl

/-! ## Nodes that stay -/

/-- Nodes are only added, and the parameters keep their type and what was attached to them. -/
structure Keeps (S S' : DmTree) : Prop where
  length : S.nodes.length ≤ S'.nodes.length
  types : ∀ id < S.nodes.length, (S'.node id).type = (S.node id).type
  params : ∀ id < S.nodes.length, isParam (S.node id).type = true →
    (S'.node id).registered = (S.node id).registered

theorem Keeps.refl (S : DmTree) : Keeps S S := ⟨Nat.le_refl _, fun _ _ => rfl, fun _ _ _ => rfl⟩

variable {S S' T tree : DmTree} {w w' : Walk} {seg : Segment} {isLast : Bool} {path : Str}
  {segments : List Segment} {id : NodeId} {type : NodeType} {vs : List Visit} {call : ParamCall}

theorem Keeps.trans {S'' : DmTree} (h : Keeps S S') (h' : Keeps S' S'') : Keeps S S'' where
  length := Nat.le_trans h.length h'.length
  types id hid := (h'.types id (Nat.lt_of_lt_of_le hid h.length)).trans (h.types id hid)
  params id hid hparam := by
    have htype := h.types id hid
    rw [h'.params id (Nat.lt_of_lt_of_le hid h.length) (htype ▸ hparam), h.params id hid hparam]

theorem keeps_pushNode (S : DmTree) (n : DmNode) : Keeps S (pushNode S n) where
  length := by
    rw [pushNode, length_append]
    exact Nat.le_add_right _ _
  types id hid := by rw [SchemaInvariant.pushNode_node_of_lt hid]
  params id hid _ := by rw [SchemaInvariant.pushNode_node_of_lt hid]

theorem Keeps.modifyNode (h : Keeps S T) (id : NodeId) {f : DmNode → DmNode}
    (htype : ∀ n, (f n).type = n.type) (hregistered : ∀ n, (f n).registered = n.registered) :
    Keeps S (T.modifyNode id f) := by
  refine h.trans ⟨by rw [modifyNode_length], fun id' hid' => ?_, fun id' hid' _ => ?_⟩
  · rw [modifyNode_node T id id' f hid']
    split <;> simp [htype]
  · rw [modifyNode_node T id id' f hid']
    split <;> simp [hregistered]

theorem keeps_addChild (h : addChild w seg isLast path = some w') :
    Keeps w.tree w'.tree ∧ w'.parent = w.tree.nodes.length := by
  rw [addChild] at h
  split at h
  · cases h
  · cases hc : createNode w.tree seg.name seg.type path with
    | none => simp [hc] at h
    | some r =>
      obtain ⟨S, child⟩ := r
      rw [hc] at h
      cases h
      simp only [createNode] at hc
      split at hc
      · cases hc
      · cases hc
        refine ⟨?_, rfl⟩
        dsimp only
        refine Keeps.modifyNode ?_ _ (fun _ => rfl) fun _ => rfl
        refine Keeps.modifyNode ?_ _ (fun _ => rfl) fun _ => rfl
        exact keeps_pushNode w.tree _

theorem keeps_walkSegment {flags : SchemaFlags} (h : walkSegment flags w seg isLast = some w') :
    Keeps w.tree w'.tree := by
  rw [walkSegment] at h
  split at h
  · exact (keeps_addChild h).1
  · rw [enterChild] at h
    split at h
    · cases h
    · split at h
      · cases h
      · simp only at h
        split at h
        · cases h
        · cases h
          exact Keeps.refl _

theorem keeps_walkSegments (flags : SchemaFlags) (w : Walk) (segments : List Segment) :
    Keeps w.tree (walkSegments flags w segments).1 := by
  induction segments generalizing w with
  | nil => exact Keeps.refl _
  | cons seg rest ih =>
    rw [walkSegments]
    split
    · exact Keeps.refl _
    · next w' hstep => exact (keeps_walkSegment hstep).trans (ih w')

/-- A walk of at least one segment that may not end at a node that is there adds a node. -/
theorem added_of_walkSegments (hne : segments ≠ [])
    (h : walkSegments {} w segments = (tree, some id)) : w.tree.nodes.length ≤ id := by
  induction segments generalizing w with
  | nil => exact absurd rfl hne
  | cons seg rest ih =>
    rw [walkSegments] at h
    split at h
    · cases h
    · next w' hstep =>
      cases rest with
      | nil =>
        cases h
        rw [walkSegment] at hstep
        split at hstep
        · rw [(keeps_addChild hstep).2]
        · rw [enterChild, if_pos ⟨rfl, rfl⟩] at hstep
          cases hstep
      | cons seg' rest =>
        exact Nat.le_trans (keeps_walkSegment hstep).length (ih (by simp) h)

theorem keeps_addSchemaPath (S : DmTree) (path : Str) (type : NodeType) (flags : SchemaFlags) :
    Keeps S (addSchemaPath S path type flags).1 := by
  rw [addSchemaPath]
  split
  · exact Keeps.refl _
  · exact Keeps.refl _
  · split
    · exact keeps_walkSegments flags ⟨S, _, _, _⟩ _
    · split
      · exact keeps_walkSegments flags ⟨S, _, _, _⟩ _
      · exact Keeps.refl _

/-- The two nodes at the top are no parameters. -/
def RootsAreObjects (S : DmTree) : Prop :=
  2 ≤ S.nodes.length ∧ isParam (S.node 0).type = false ∧ isParam (S.node 1).type = false

/-- The node that a registration attaches to is a new one or one at the top. -/
theorem addSchemaPath_id (h : addSchemaPath S path type {} = (tree, some id)) :
    S.nodes.length ≤ id ∨ id = 0 ∨ id = 1 := by
  rw [addSchemaPath] at h
  split at h
  · cases h
  · cases h
  · next first rest _ =>
    cases rest with
    | nil =>
      split at h
      · cases h
        exact .inr (.inl rfl)
      · split at h
        · cases h
          exact .inr (.inr rfl)
        · cases h
    | cons seg rest =>
      split at h
      · exact .inl (added_of_walkSegments (by simp) h)
      · split at h
        · exact .inl (added_of_walkSegments (by simp) h)
        · cases h

theorem attachInfo_type (S : DmTree) (id id' : NodeId) (f : Registered → Registered) :
    ((attachInfo S id f).node id').type = (S.node id').type := by
  obtain ⟨r, hr⟩ := SchemaInvariant.attachInfo_node S id id' f
  rw [hr]

theorem Keeps.attachInfo (h : Keeps S T)
    (hid : S.nodes.length ≤ id ∨ isParam (S.node id).type = false) (f : Registered → Registered) :
    Keeps S (Schema.attachInfo T id f) where
  length := by
    rw [Schema.attachInfo, modifyNode_length]
    exact h.length
  types id' hid' := (attachInfo_type T id id' f).trans (h.types id' hid')
  params id' hid' hparam := by
    have hne : id ≠ id' := by
      rintro rfl
      rcases hid with hnew | hobject
      · exact Nat.not_le_of_lt hid' hnew
      · rw [hobject] at hparam
        cases hparam
    rw [Schema.attachInfo, modifyNode_node T id id' _ (Nat.lt_of_lt_of_le hid' h.length), if_neg hne]
    exact h.params id' hid' hparam

theorem RootsAreObjects.of_types (h : RootsAreObjects S)
    (hlength : S.nodes.length ≤ T.nodes.length)
    (htypes : ∀ id < S.nodes.length, (T.node id).type = (S.node id).type) : RootsAreObjects T := by
  obtain ⟨htwo, hdevice, hinternal⟩ := h
  refine ⟨Nat.le_trans htwo hlength, ?_, ?_⟩
  · rw [htypes 0 (by omega)]
    exact hdevice
  · rw [htypes 1 (by omega)]
    exact hinternal

theorem RootsAreObjects.attachable (h : RootsAreObjects S)
    (hadd : addSchemaPath S path type {} = (tree, some id)) :
    S.nodes.length ≤ id ∨ isParam (S.node id).type = false := by
  rcases addSchemaPath_id hadd with hnew | rfl | rfl
  · exact .inl hnew
  · exact .inr h.2.1
  · exact .inr h.2.2

theorem keeps_register (h : RootsAreObjects S) {r : Registration} (hflags : r.flags = {}) :
    Keeps S (register S r) := by
  have hkeeps := keeps_addSchemaPath S r.path r.type r.flags
  rw [register]
  split
  · next hadd =>
    rw [hadd] at hkeeps
    exact hkeeps
  · next hadd =>
    rw [hadd] at hkeeps
    exact hkeeps.attachInfo (h.attachable (hflags ▸ hadd)) _

theorem keeps_registerNumEntries (h : RootsAreObjects S) (path tablePath : Str) :
    Keeps S (registerNumEntries S path tablePath) := by
  have hkeeps := keeps_addSchemaPath S path .paramNumEntries {}
  rw [registerNumEntries]
  split
  · next hadd =>
    rw [hadd] at hkeeps
    exact hkeeps
  · next T param hadd =>
    rw [hadd] at hkeeps
    have htable := hkeeps.trans
      (keeps_addSchemaPath T tablePath .objectMultiInstance { suppressPreExistanceErr := true })
    split
    · next hadd' =>
      rw [hadd'] at htable
      exact htable
    · next hadd' =>
      rw [hadd'] at htable
      split
      · exact htable.attachInfo (h.attachable hadd) _
      · exact htable

theorem keeps_visit {v : Visit} (h : RootsAreObjects S) (hvisit : visit v S = some S') :
    Keeps S S' := by
  obtain ⟨call, _, rfl⟩ := Option.map_eq_some_iff.mp hvisit
  cases call with
  | none => exact Keeps.refl S
  | some call =>
    cases call with
    | numEntries path tablePath => exact keeps_registerNumEntries h path tablePath
    | object path => exact keeps_register h rfl
    | param call => exact keeps_register h rfl

theorem Keeps.roots (h : Keeps S T) (hroots : RootsAreObjects S) :
    RootsAreObjects T := hroots.of_types h.length h.types

theorem keeps_run (h : RootsAreObjects S) (hrun : run visit vs S = some T) : Keeps S T := by
  induction vs generalizing S with
  | nil =>
    cases hrun
    exact Keeps.refl _
  | cons v vs ih =>
    rw [run_cons, Option.bind_eq_some_iff] at hrun
    obtain ⟨S', hvisit, hrun⟩ := hrun
    have hkeeps := keeps_visit h hvisit
    exact hkeeps.trans (ih (hkeeps.roots h) hrun)

/-- The trees that the agent has registered before. -/
theorem registerAll_roots (rs : List Registration) : RootsAreObjects (registerAll initialTree rs) := by
  have hregister : ∀ (S : DmTree) (r : Registration), RootsAreObjects S →
      RootsAreObjects (register S r) := by
    intro S r h
    have hkeeps := keeps_addSchemaPath S r.path r.type r.flags
    rw [register]
    split
    · next hadd =>
      rw [hadd] at hkeeps
      exact hkeeps.roots h
    · next tree node hadd =>
      rw [hadd] at hkeeps
      refine (hkeeps.roots h).of_types ?_ fun id _ => attachInfo_type tree node id r.attach
      rw [attachInfo, modifyNode_length]
  have hall : ∀ (S : DmTree), RootsAreObjects S → RootsAreObjects (registerAll S rs) := by
    induction rs with
    | nil => exact fun S h => h
    | cons r rs ih => exact fun S h => ih (register S r) (hregister S r h)
  exact hall initialTree ⟨by decide, by decide, by decide⟩

/-! ## The node of a parameter -/

theorem addChild_type (h : addChild w seg isLast path = some w') :
    w'.parent < w'.tree.nodes.length ∧ (w'.tree.node w'.parent).type = seg.type := by
  rw [addChild] at h
  split at h
  · cases h
  · cases hc : createNode w.tree seg.name seg.type path with
    | none => simp [hc] at h
    | some r =>
      obtain ⟨S, child⟩ := r
      rw [hc] at h
      cases h
      simp only [createNode] at hc
      split at hc
      · cases hc
      · cases hc
        have hpush := SchemaInvariant.pushNode_length w.tree
          ⟨seg.name, path, TextUtils.calcHash path, seg.type, [], 0, [], {}⟩
        refine ⟨?_, ?_⟩
        · dsimp only
          rw [modifyNode_length, modifyNode_length, hpush]
          exact Nat.lt_succ_self _
        · dsimp only
          rw [modifyNode_node _ _ _ _ (by rw [modifyNode_length, hpush]; exact Nat.lt_succ_self _),
            if_pos rfl, modifyNode_node _ _ _ _ (by rw [hpush]; exact Nat.lt_succ_self _)]
          split <;> rw [SchemaInvariant.pushNode_node_self]

/-- The node that a walk adds is of the type of its last segment. -/
theorem walkSegments_type (hlast : segments.getLast? = some seg)
    (h : walkSegments {} w segments = (tree, some id)) :
    id < tree.nodes.length ∧ (tree.node id).type = seg.type := by
  induction segments generalizing w with
  | nil => cases hlast
  | cons first rest ih =>
    rw [walkSegments] at h
    split at h
    · cases h
    · next w' hstep =>
      cases rest with
      | nil =>
        cases h
        cases hlast
        rw [walkSegment] at hstep
        split at hstep
        · exact addChild_type hstep
        · rw [enterChild, if_pos ⟨rfl, rfl⟩] at hstep
          cases hstep
      | cons second rest => exact ih hlast h

theorem setLastType_last (type : NodeType) (h : (setLastType type segments).getLast? = some seg) :
    seg.type = type := by
  induction segments with
  | nil => cases h
  | cons first rest ih =>
    cases rest with
    | nil =>
      cases h
      rfl
    | cons second rest =>
      have hne : setLastType type (second :: rest) ≠ [] := by
        cases rest <;> simp [setLastType]
      change (first :: setLastType type (second :: rest)).getLast? = some seg at h
      rw [getLast?_cons_of_ne_nil hne] at h
      exact ih h

/-- A new node for a path is of the type that was asked for. -/
theorem addSchemaPath_type (hparam : isParam type = true) (hroots : RootsAreObjects S)
    (h : addSchemaPath S path type {} = (tree, some id)) (hnew : S.nodes.length ≤ id) :
    id < tree.nodes.length ∧ (tree.node id).type = type := by
  have hmulti : type ≠ .objectMultiInstance := by
    rintro rfl
    cases hparam
  rw [addSchemaPath] at h
  split at h
  · cases h
  · cases h
  · next first rest hparse =>
    have hlast : ∀ seg, rest.getLast? = some seg → seg.type = type := by
      intro seg hseg
      rw [parseSchemaPath, Option.map_eq_some_iff] at hparse
      obtain ⟨segments, _, hset⟩ := hparse
      rw [if_neg hmulti] at hset
      have hset' : (setLastType type segments).getLast? = some seg := by
        rw [hset, getLast?_cons_of_ne_nil (by rintro rfl; cases hseg)]
        exact hseg
      exact setLastType_last type hset'
    have hwalk : ∀ root : Nat, root < 2 →
        walkSegments {} ⟨S, root, first.name, []⟩ rest = (tree, some id) →
        id < tree.nodes.length ∧ (tree.node id).type = type := by
      intro root hroot hwalk
      cases hrest : rest.getLast? with
      | none =>
        rw [List.getLast?_eq_none_iff.mp hrest] at hwalk
        cases hwalk
        change S.nodes.length ≤ root at hnew
        have htwo := hroots.1
        omega
      | some seg =>
        rw [← hlast seg hrest]
        exact walkSegments_type hrest hwalk
    split at h
    · exact hwalk rootDeviceNode (by decide) h
    · split at h
      · exact hwalk rootInternalNode (by decide) h
      · cases h

/-- What a call leaves in the tree at the end. -/
theorem ParamCall.kept (hroots : RootsAreObjects S) (hparam : isParam call.type = true)
    (hadd : addSchemaPath S call.path call.type {} = (tree, some id)) (hnew : S.nodes.length ≤ id)
    (hkeeps : Keeps (register S call.registration) T) :
    (T.node id).type = call.type ∧ (T.node id).registered.paramType = call.paramType := by
  obtain ⟨hlt, htype⟩ := addSchemaPath_type hparam hroots hadd hnew
  have hregister : register S call.registration = attachInfo tree id call.registration.attach := by
    have hadd' : addSchemaPath S call.registration.path call.registration.type
        call.registration.flags = (tree, some id) := hadd
    rw [register, hadd']
  rw [hregister] at hkeeps
  have hlt' : id < (attachInfo tree id call.registration.attach).nodes.length := by
    rw [attachInfo, modifyNode_length]
    exact hlt
  have hattached : ((attachInfo tree id call.registration.attach).node id).type = call.type := by
    rw [attachInfo_type, htype]
  refine ⟨(hkeeps.types id hlt').trans hattached, ?_⟩
  rw [hkeeps.params id hlt' (hattached ▸ hparam), attachInfo, modifyNode_node tree id id _ hlt, if_pos rfl]
  rfl

/-! ## The turn of an element -/

/-- Everything about the call that a node asks for. -/
structure Asked (node : SchemaNode) (type : ParamType) (call : ParamCall) : Prop where
  path : call.path = node.path
  kind : call.type = if node.setter then .vendorParamReadWrite
    else if node.getter then .vendorParamReadOnly else .dbParamReadOnly
  param : isParam call.type = true
  writable : isWritableType call.type = true ↔ node.setter = true
  paramType : call.paramType = if node.setter ∨ node.getter then .string else type
  known : node.setter = true ∨ node.getter = true ∨ node.value ≠ []

theorem asked_of_add {type : ParamType} (h : addNodeToUspDataModel node type = some call) :
    Asked node type call := by
  rw [addNodeToUspDataModel] at h
  split at h
  · next hsetter =>
    cases h
    exact ⟨rfl, by simp [hsetter], rfl, by simp [hsetter, isWritableType], by simp [hsetter], .inl hsetter⟩
  · next hsetter =>
    split at h
    · next hgetter =>
      cases h
      exact ⟨rfl, by simp [hsetter, hgetter], rfl, by simp [hsetter, isWritableType],
        by simp [hgetter], .inr (.inl hgetter)⟩
    · next hgetter =>
      split at h
      · next hvalue =>
        cases h
        exact ⟨rfl, by simp [hsetter, hgetter], rfl, by simp [hsetter, isWritableType],
          by simp [hsetter, hgetter],
          .inr (.inr hvalue)⟩
      · cases h

theorem add_of_known (type : ParamType)
    (h : node.setter = true ∨ node.getter = true ∨ node.value ≠ []) :
    ∃ call, addNodeToUspDataModel node type = some call := by
  rw [addNodeToUspDataModel]
  split
  · exact ⟨_, rfl⟩
  · split
    · exact ⟨_, rfl⟩
    · next hsetter hgetter =>
      rw [if_pos ((h.resolve_left hsetter).resolve_left hgetter)]
      exact ⟨_, rfl⟩

theorem parseElement_contained {v : Visit} (hparam : isParamElement v.element = true)
    (hcontained : Contained v) :
    parseElement v =
      some ((addNodeToUspDataModel (schemaNodeOf v) (declaredType v)).map .param) := by
  obtain ⟨hpath, hname, hdefault⟩ := hcontained.param hparam
  rw [parseElement_param hparam, parseNode_eq hpath hname hdefault]
  rfl

section Hooks

variable {v : Visit}

theorem Diagnosed.isSome {hook : String} (h : Diagnosed v hook) :
    (v.element.prop hook).isSome = true := by
  rw [h]
  rfl

theorem setter_iff : (schemaNodeOf v).setter = true ↔ Diagnosed v "setter" := decide_eq_true_iff

theorem getter_iff : (schemaNodeOf v).getter = true ↔ Diagnosed v "getter" := decide_eq_true_iff

theorem hooked_iff : (schemaNodeOf v).setter = true ∨ (schemaNodeOf v).getter = true ↔
    Diagnosed v "setter" ∨ Diagnosed v "getter" := or_congr setter_iff getter_iff

theorem known_iff : ((schemaNodeOf v).setter = true ∨ (schemaNodeOf v).getter = true ∨
    (schemaNodeOf v).value ≠ []) ↔
    Diagnosed v "setter" ∨ Diagnosed v "getter" ∨ (v.element.prop "default").getD [] ≠ [] :=
  or_congr setter_iff (or_congr getter_iff Iff.rfl)

theorem Asked.nodeType {type : ParamType} (h : Asked (schemaNodeOf v) type call) :
    call.type = XmlSchema.nodeType v := by
  rw [h.kind, XmlSchema.nodeType]
  simp only [setter_iff, getter_iff]

end Hooks

theorem visit_isSome_iff (v : Visit) (S : DmTree) : (visit v S).isSome = true ↔ Contained v := by
  rw [visit, Option.isSome_map, parseElement_isSome_iff]

/-- At its turn a parameter is registered right exactly under the condition. -/
theorem registers_iff_sound {v : Visit} (hroots : RootsAreObjects S)
    (hvisit : visit v S = some S') (hkeeps : Keeps S' T)
    (hparam : isParamElement v.element = true) : Registers V T S v ↔ Sound S v := by
  have hcontained : Contained v := (visit_isSome_iff v S).mp (hvisit ▸ rfl)
  have hparse := parseElement_contained hparam hcontained
  have hS' : ∀ call, addNodeToUspDataModel (schemaNodeOf v) (declaredType v) = some call →
      S' = register S call.registration := by
    intro call hcall
    rw [visit, hparse, hcall] at hvisit
    exact (Option.some.inj hvisit).symm
  constructor
  · rintro ⟨call, tree, id, hcall, hpath, hadd, hnew, hright⟩
    rw [hparse] at hcall
    obtain ⟨call', hcall, heq⟩ := Option.map_eq_some_iff.mp (Option.some.inj hcall)
    cases heq
    have hasked := asked_of_add hcall
    obtain ⟨htype, hparamType⟩ := call.kept hroots hasked.param hadd hnew (hS' call hcall ▸ hkeeps)
    have hwalked : walkedPath v = schemaPath v := hasked.path.symm.trans hpath
    refine ⟨(walkedPath_eq v).symm.trans hwalked, fun hsetter => ?_, known_iff.mp hasked.known,
      fun hhook => ?_, ?_⟩
    · have hwritable := hright.writable.mpr hsetter
      rw [htype] at hwritable
      exact setter_iff.mp (hasked.writable.mp hwritable)
    · rw [← hright.type, hparamType, hasked.paramType, if_pos (hooked_iff.mpr hhook)]
    · rw [← hasked.nodeType, ← hpath]
      exact ⟨tree, id, hadd, hnew⟩
  · intro hsound
    obtain ⟨call, hcall⟩ := add_of_known (declaredType v) (known_iff.mpr hsound.known)
    have hasked := asked_of_add hcall
    have hpath : call.path = schemaPath v :=
      hasked.path.trans ((walkedPath_eq v).trans hsound.path)
    obtain ⟨tree, id, hadd, hnew⟩ := hsound.added
    rw [← hasked.nodeType, ← hpath] at hadd
    obtain ⟨htype, hparamType⟩ := call.kept hroots hasked.param hadd hnew (hS' call hcall ▸ hkeeps)
    have hdeclared : call.paramType = declaredType v := by
      rw [hasked.paramType]
      split
      · next hhook => exact (hsound.type (hooked_iff.mp hhook)).symm
      · rfl
    refine ⟨call, tree, id, ?_, hpath, hadd, hnew, ?_⟩
    · rw [hparse, hcall]
      rfl
    · refine ⟨htype ▸ hasked.param, ?_, hparamType.trans hdeclared, fun text haccepted => ?_⟩
      · rw [htype, hasked.writable, setter_iff]
        exact ⟨Diagnosed.isSome, hsound.setter⟩
      · have hwritable := (Bool.and_eq_true _ _ ▸ haccepted).1
        rw [htype] at hwritable
        rw [hsound.type (.inl (setter_iff.mp (hasked.writable.mp hwritable)))]
        rfl

/-! ## The whole file -/

theorem visit_none {v : Visit} (h : parseElement v = some none) : visit v S = some S := by
  rw [visit, h]
  rfl

theorem registered_iff_fits (hroots : RootsAreObjects S) (hrun : run visit vs S = some T) :
    RunMeets visit (fun S v => Needed v → Registers V T S v) vs S ↔
      RunMeets visit (fun S v => Contained v ∧ (Needed v → Sound S v)) vs S := by
  induction vs generalizing S with
  | nil => exact Iff.rfl
  | cons v vs ih =>
    rw [run_cons, Option.bind_eq_some_iff] at hrun
    obtain ⟨S', hvisit, hrun⟩ := hrun
    have hroots' := (keeps_visit hroots hvisit).roots hroots
    have hcontained : Contained v := (visit_isSome_iff v S).mp (hvisit ▸ rfl)
    have hturn : (Needed v → Registers V T S v) ↔ (Needed v → Sound S v) :=
      ⟨fun h hneeded => (registers_iff_sound V hroots hvisit (keeps_run hroots' hrun) hneeded.1).mp
        (h hneeded), fun h hneeded =>
        (registers_iff_sound V hroots hvisit (keeps_run hroots' hrun) hneeded.1).mpr (h hneeded)⟩
    simp only [RunMeets, hvisit, Option.some.injEq, forall_eq', hturn, hcontained, true_and,
      ih hroots' hrun]

theorem run_of_fits (h : RunMeets visit (fun S v => Contained v ∧ (Needed v → Sound S v)) vs S) :
    ∃ T, run visit vs S = some T := by
  induction vs generalizing S with
  | nil => exact ⟨S, rfl⟩
  | cons v vs ih =>
    obtain ⟨S', hvisit⟩ := Option.isSome_iff_exists.mp ((visit_isSome_iff v S).mpr h.1.1)
    obtain ⟨T, hrun⟩ := ih (h.2 S' hvisit)
    exact ⟨T, by rw [run_cons, hvisit, Option.bind_some, hrun]⟩

/-- The model file is registered right, whatever was registered before, exactly when each of its
elements meets the condition at its turn. -/
theorem schema_right_iff (V : Conversions) (rs : List Registration) (xml : XmlNode) :
    Right V xml (registerAll initialTree rs) ↔ Fits xml (registerAll initialTree rs) := by
  have hroots := registerAll_roots rs
  constructor
  · rintro ⟨T, hparse, hright⟩
    rw [parseSchema_eq_run] at hparse
    exact (registered_iff_fits V hroots hparse).mp hright
  · intro hfits
    obtain ⟨T, hrun⟩ := run_of_fits hfits
    exact ⟨T, by rw [parseSchema_eq_run, hrun], (registered_iff_fits V hroots hrun).mpr hfits⟩

/-! ## Files -/

def element (tag : String) (attrs : List (String × String)) : Element :=
  ⟨tag.toList, attrs.map fun x => (x.1.toList, x.2.toList)⟩

def modelElement : Element := element "model" []

def deviceElement : Element := element "schema" [("name", "Device"), ("type", "object")]

def enableElement : Element :=
  element "schema" [("name", "Enable"), ("getter", "diagnose"), ("setter", "diagnose"),
    ("type", "boolean")]

/-- A file with one parameter that can be set, of type boolean. -/
def booleanFile : XmlNode :=
  .node modelElement (.node deviceElement (.node enableElement .null .null) .null) .null

def noConversions : Conversions := ⟨fun _ => false, fun _ => false, fun _ => false, fun _ => false,
  fun _ => false, fun _ => false⟩

/-- The parameter is registered as a string, and a text that is no boolean can be set. -/
theorem boolean_takes_any_text : ∃ T, parseSchema [] booleanFile initialTree = some T ∧
    (T.node 2).path = "Device.Enable".toList ∧ isValue noConversions "maybe".toList .bool = false ∧
    setAccepted noConversions (T.node 2) "maybe".toList = true ∧
    ¬ Right noConversions booleanFile initialTree := by
  have hnode : (parseSchema [] booleanFile initialTree).map (fun T =>
      ((T.node 2).path, setAccepted noConversions (T.node 2) "maybe".toList)) =
        some ("Device.Enable".toList, true) := by decide
  obtain ⟨T, hparse, hT⟩ := Option.map_eq_some_iff.mp hnode
  obtain ⟨hpath, haccepted⟩ := Prod.ext_iff.mp hT
  refine ⟨T, hparse, hpath, by decide, haccepted, ?_⟩
  rintro ⟨T', hparse', hright⟩
  rw [parseSchema_eq_run] at hparse'
  obtain ⟨_, hdevice⟩ := (registered_iff_fits _ (registerAll_roots []) hparse').mp hright
  obtain ⟨_, henable⟩ := hdevice initialTree (visit_none (by decide))
  obtain ⟨⟨_, hsound⟩, _⟩ := henable initialTree (visit_none (by decide))
  have hstring := (hsound ⟨by decide, .inl (by decide)⟩).type
    (.inl (by decide))
  exact absurd hstring (by decide)

end XmlSchema
