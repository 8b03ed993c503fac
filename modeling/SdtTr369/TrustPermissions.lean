import SdtTr369.DataModelRead
import SdtTr369.InstanceTree

/-!
# The permissions that a vendor gives to roles

`USP_DM_AddControllerTrustPermission`, `DM_PRIV_ApplyPermissions` and the `Permission` table of
`device_ctrust.c`. The calls of any sequence overwrite each other in the nodes of the data model;
the rows that they leave in the table say which permissions are in force.
-/

namespace TrustPermissions

open UspTypes TextUtils Schema SchemaInvariant PathCodec PathRoundTrip InstanceTree Agent List
open InstVector DataModel DataModelRead
open DecimalText (intDigits)

/-- `DM_PRIV_CalcHashFromPath` when no instance numbers are asked for: their number has no limit. -/
def schemaHash (hash : UInt32) : Str → UInt32
  | [] => hash
  | c :: p =>
    if c = '.' then
      let q := p.dropWhile (· = '.')
      if q = [] then hash
      else
        let digits := q.takeWhile isNumeric
        let after := q.dropWhile isNumeric
        if digits ≠ [] ∧ (after = [] ∨ after.head? = some '.') then
          schemaHash (addSeparator hash) after
        else schemaHash (addToHash hash c) q
    else if c = '*' then schemaHash (addAllToHash hash multiSeparator) p
    else schemaHash (addToHash hash c) p
termination_by path => path.length
decreasing_by
  · have hdots := (dropWhile_suffix (fun c : Char => decide (c = '.')) (l := p)).length_le
    have hnum := (dropWhile_suffix isNumeric (l := q)).length_le
    exact Nat.lt_succ_of_le (Nat.le_trans hnum hdots)
  · exact Nat.lt_succ_of_le (dropWhile_suffix (fun c : Char => decide (c = '.'))).length_le
  · exact Nat.lt_succ_self _
  · exact Nat.lt_succ_self _

/-- `DM_PRIV_GetNodeFromPath` with both `inst` and `is_qualified_instance` null. -/
def nodeFromPath (S : DmTree) (path : Str) : Option NodeId :=
  findPathNode S (schemaHash offsetBasis path)

/-- `permission_bitmask`. -/
abbrev Bitmask := BitVec 16

/-- The bit of a `PERMIT_` constant. -/
def permitBit : Permit → Nat
  | .get => 0
  | .set => 1
  | .add => 2
  | .del => 3
  | .oper => 4
  | .subsValChange => 5
  | .subsObjAdd => 6
  | .getInst => 7
  | .subsObjDel => 8
  | .subsEvtOperComp => 9
  | .objInfo => 10
  | .cmdInfo => 11

def permits (bitmask : Bitmask) (p : Permit) : Bool := bitmask.getLsbD (permitBit p)

/-- `node->permissions[role] = permission_bitmask`. -/
def setPermissions (role : Nat) (bitmask : Bitmask) (P : PermissionTable) (node : NodeId) :
    PermissionTable :=
  fun id r => if id = node ∧ r = role then permits bitmask else P id r

/-- `DM_PRIV_ApplyPermissions`. The nodes are nested no deeper than there are nodes, so that as much
fuel as there are nodes is enough. -/
def applyPermissions (S : DmTree) (role : Nat) (bitmask : Bitmask) :
    Nat → NodeId → PermissionTable → PermissionTable
  | 0, _, P => P
  | fuel + 1, node, P =>
    (S.node node).childNodes.foldl
      (fun P child =>
        let P := setPermissions role bitmask P child
        if (S.node child).childNodes ≠ [] then applyPermissions S role bitmask fuel child P else P)
      (setPermissions role bitmask P node)

/-- `permission_t`. -/
structure Permission where
  targets : Str
  bitmask : Bitmask
  deriving DecidableEq, Repr

/-- The permissions in the nodes, the `roles[]` of `device_ctrust.c` and the data model that the rows
are added to. -/
structure Ctrust where
  permissions : PermissionTable
  roles : Nat → List Permission
  agent : State

/-- The path of a row of the `Permission` table. -/
def permissionPath (role number : Nat) : Str :=
  "Device.LocalAgent.ControllerTrust.Role.".toList ++ intDigits (role + 1) ++
    ".Permission.".toList ++ intDigits number

/-- `DEVICE_CTRUST_AddPermissions`. -/
def addPermissions (S : DmTree) (role : Nat) (path : Str) (bitmask : Bitmask) (ct : Ctrust) :
    Option (Except Err Unit × Ctrust) :=
  let permissions := ct.roles role ++ [⟨path, bitmask⟩]
  let ct := { ct with roles := fun r => if r = role then permissions else ct.roles r }
  (informInstance S (permissionPath role permissions.length) ct.agent).map fun (err, agent) =>
    (err, { ct with agent })

/-- A call of `USP_DM_AddControllerTrustPermission`. -/
structure Call where
  role : Nat
  path : Str
  bitmask : Bitmask
  deriving DecidableEq, Repr

/-- `USP_DM_AddControllerTrustPermission`; `none` is an assertion that fails. -/
def addControllerTrustPermission (S : DmTree) (call : Call) (ct : Ctrust) :
    Option (Except Err Unit × Ctrust) :=
  if ctrustRoleMax ≤ call.role then some (.error .internalError, ct)
  else
    match nodeFromPath S call.path with
    | none => some (.error .internalError, ct)
    | some node =>
      let permissions :=
        applyPermissions S call.role call.bitmask S.nodes.length node ct.permissions
      addPermissions S call.role call.path call.bitmask { ct with permissions }

/-- The calls of a vendor, one after the other, whatever they return. -/
def runCalls (S : DmTree) : List Call → Ctrust → Option Ctrust
  | [], ct => some ct
  | call :: calls, ct => (addControllerTrustPermission S call ct).bind fun r => runCalls S calls r.2

/-- Before the first call. -/
def initialCtrust (agent : State) : Ctrust := ⟨fun _ _ _ => false, fun _ => [], agent⟩

/-! ## The rows that a controller reads -/

/-- The macro `PERMISSION_CHAR`. -/
def permissionChar (bitmask : Bitmask) (c : Char) (p : Permit) : Char :=
  if permits bitmask p then c else '-'

/-- The values of a row: `Get_PermissionOrder`, `Get_PermissionTargets`, `Get_ParamPermissions`,
`Get_ObjPermissions`, `Get_InstantiatedObjPermissions` and `Get_CommandEventPermissions`. -/
structure Row where
  order : Nat
  targets : Str
  param : Str
  obj : Str
  instantiatedObj : Str
  commandEvent : Str
  deriving DecidableEq, Repr

/-- The row of the permission with the instance number `index + 1`. -/
def row (permission : Permission) (index : Nat) : Row :=
  let char := permissionChar permission.bitmask
  { order := index
    targets := permission.targets
    param := [char 'r' .get, char 'w' .set, '-', char 'n' .subsValChange]
    obj := [char 'r' .objInfo, char 'w' .add, '-', char 'n' .subsObjAdd]
    instantiatedObj := [char 'r' .getInst, char 'w' .del, '-', char 'n' .subsObjDel]
    commandEvent := [char 'r' .cmdInfo, '-', char 'x' .oper, char 'n' .subsEvtOperComp] }

/-- The `Permission` table of a role. -/
def table (ct : Ctrust) (role : Nat) : List Row := (ct.roles role).mapIdx fun i p => row p i

/-- What the columns of a row say about a permission. -/
def Row.permits (r : Row) : Permit → Bool
  | .get => r.param[0]? = some 'r'
  | .set => r.param[1]? = some 'w'
  | .subsValChange => r.param[3]? = some 'n'
  | .objInfo => r.obj[0]? = some 'r'
  | .add => r.obj[1]? = some 'w'
  | .subsObjAdd => r.obj[3]? = some 'n'
  | .getInst => r.instantiatedObj[0]? = some 'r'
  | .del => r.instantiatedObj[1]? = some 'w'
  | .subsObjDel => r.instantiatedObj[3]? = some 'n'
  | .cmdInfo => r.commandEvent[0]? = some 'r'
  | .oper => r.commandEvent[2]? = some 'x'
  | .subsEvtOperComp => r.commandEvent[3]? = some 'n'

theorem permits_row (permission : Permission) (index : Nat) (p : Permit) :
    (row permission index).permits p = permits permission.bitmask p := by
  have hchar (c : Char) (p : Permit) (hc : c ≠ '-') :
      decide (permissionChar permission.bitmask c p = c) = permits permission.bitmask p := by
    rw [permissionChar]
    cases permits permission.bitmask p with
    | true => simp
    | false => simpa using hc.symm
  cases p <;> simp [row, Row.permits, hchar]

/-! ## What lies below a node -/

/-- `Below S top id`: the child links lead from `top` down to `id`. -/
inductive Below (S : DmTree) (top : NodeId) : NodeId → Prop
  | self : Below S top top
  | child {p c : NodeId} (h : Below S top p) (hc : c ∈ (S.node p).childNodes) : Below S top c

theorem Below.of_child {S : DmTree} {top c id : NodeId} (hc : c ∈ (S.node top).childNodes)
    (h : Below S c id) : Below S top id := by
  induction h with
  | self => exact .child .self hc
  | child _ hc' ih => exact .child ih hc'

theorem below_iff {S : DmTree} {top id : NodeId} :
    Below S top id ↔ id = top ∨ ∃ c ∈ (S.node top).childNodes, Below S c id := by
  constructor
  · intro h
    induction h with
    | self => exact .inl rfl
    | @child p c _ hc ih =>
      obtain rfl | ⟨c', hc', hbelow⟩ := ih
      · exact .inr ⟨c, hc, .self⟩
      · exact .inr ⟨c', hc', .child hbelow hc⟩
  · rintro (rfl | ⟨c, hc, h⟩)
    · exact .self
    · exact .of_child hc h

/-- An update of the permissions that gives `bitmask` to the role in the nodes of `covered`. -/
structure Gives (role : Nat) (bitmask : Bitmask) (covered : NodeId → Prop)
    (f : PermissionTable → PermissionTable) : Prop where
  given : ∀ P id, covered id → f P id role = permits bitmask
  kept : ∀ P id, ¬covered id → f P id role = P id role
  others : ∀ P id r, r ≠ role → f P id r = P id r

section Updates

variable {role : Nat} {bitmask : Bitmask} {covered covered' : NodeId → Prop}
  {f g : PermissionTable → PermissionTable}

theorem gives_set (node : NodeId) :
    Gives role bitmask (· = node) fun P => setPermissions role bitmask P node := by
  refine ⟨fun P id h => ?_, fun P id h => ?_, fun P id r h => ?_⟩
  · simp [setPermissions, h]
  · simp [setPermissions, h]
  · simp [setPermissions, h]

theorem Gives.comp (hg : Gives role bitmask covered' g) (hf : Gives role bitmask covered f) :
    Gives role bitmask (fun id => covered id ∨ covered' id) fun P => g (f P) := by
  refine ⟨fun P id h => ?_, fun P id h => ?_, fun P id r h => ?_⟩
  · by_cases h' : covered' id
    · exact hg.given _ id h'
    · rw [hg.kept _ id h']
      exact hf.given P id (h.resolve_right h')
  · rw [not_or] at h
    rw [hg.kept _ id h.2, hf.kept P id h.1]
  · rw [hg.others _ id r h, hf.others P id r h]

theorem Gives.congr (h : Gives role bitmask covered f) (heq : ∀ id, covered id ↔ covered' id) :
    Gives role bitmask covered' f :=
  ⟨fun P id hid => h.given P id ((heq id).mpr hid),
    fun P id hid => h.kept P id fun hc => hid ((heq id).mp hc), h.others⟩

/-- An update for each of the nodes of a list. -/
theorem gives_foldl {cover : NodeId → NodeId → Prop} {step : PermissionTable → NodeId → PermissionTable}
    {children : List NodeId}
    (h : ∀ c ∈ children, Gives role bitmask (cover c) fun P => step P c) :
    Gives role bitmask (fun id => ∃ c ∈ children, cover c id) fun P => children.foldl step P := by
  induction children with
  | nil =>
    refine ⟨fun P id h => ?_, fun P id _ => rfl, fun P id r _ => rfl⟩
    obtain ⟨c, hc, -⟩ := h
    cases hc
  | cons c children ih =>
    have hfirst := h c mem_cons_self
    have hrest := ih fun c' hc' => h c' (mem_cons_of_mem c hc')
    exact (hrest.comp hfirst).congr fun id => by simp

end Updates

section Applies

variable {limit : Nat} {S : DmTree}

/-- `DM_PRIV_ApplyPermissions` gives the permissions to a node and to all that lies below it. -/
theorem applyPermissions_gives (hS : SchemaOk limit S) (role : Nat) (bitmask : Bitmask) {fuel : Nat}
    {node : NodeId} (hnode : node < S.nodes.length) (hfuel : S.nodes.length ≤ fuel + node) :
    Gives role bitmask (Below S node) (applyPermissions S role bitmask fuel node) := by
  induction fuel generalizing node with
  | zero => exact absurd (Nat.lt_of_lt_of_le hnode hfuel) (by simp)
  | succ fuel ih =>
    have hchild : ∀ c ∈ (S.node node).childNodes, Gives role bitmask (Below S c) fun P =>
        if (S.node c).childNodes ≠ [] then
          applyPermissions S role bitmask fuel c (setPermissions role bitmask P c)
        else setPermissions role bitmask P c := by
      intro c hc
      obtain ⟨hlt, hbound⟩ := hS.child_bounds node hnode c hc
      by_cases hleaf : (S.node c).childNodes ≠ []
      · simp only [if_pos hleaf]
        refine ((ih hbound (by omega)).comp (gives_set c)).congr fun id => ⟨?_, .inr⟩
        rintro (rfl | h)
        · exact .self
        · exact h
      · simp only [if_neg hleaf]
        refine (gives_set c).congr fun id => ?_
        rw [below_iff, not_not.mp hleaf]
        simp
    refine ((gives_foldl hchild).comp (gives_set node)).congr fun id => ?_
    exact below_iff.symm

end Applies

/-! ## No call stops the agent -/

theorem informInstance_returns {limit : Nat} {S : DmTree} (hS : SchemaOk limit S) (path : Str)
    (a : State) : ∃ r, informInstance S path a = some r := by
  rw [informInstance]
  cases hget : getQualifiedNode S path with
  | none => exact ⟨_, rfl⟩
  | some found =>
    obtain ⟨node, inst, isQualified⟩ := found
    dsimp only
    by_cases hrefused : isQualified = false ∨ inst = []
    · rw [if_pos hrefused]
      exact ⟨_, rfl⟩
    · rw [if_neg hrefused]
      rw [not_or, Bool.not_eq_false] at hrefused
      obtain ⟨rfl, hne⟩ := hrefused
      obtain ⟨hlt, hnodes, -⟩ := getQualifiedNode_spec hS hget
      have htop := topNode_table hS hlt (hnodes rfl ▸ prefix_rfl) hne
      rw [instVectorAdd, if_neg hne, requireTop]
      simp only [htop, decide_true]
      exact ⟨_, rfl⟩

/-! ## What is in force -/

/-- The row is about the node: its `Targets` are a path of the node or of one that it lies below. -/
def Covers (S : DmTree) (targets : Str) (id : NodeId) : Prop :=
  ∃ top, nodeFromPath S targets = some top ∧ Below S top id

open Classical in
/-- What the rows of a table say about a node: the last row that is about it decides. -/
noncomputable def inForce (S : DmTree) (rows : List Row) (id : NodeId) (p : Permit) : Bool :=
  match rows.reverse.find? fun r => Covers S r.targets id with
  | some r => r.permits p
  | none => false

/-- Whether a call gets as far as to the table of a role. -/
def isAccepted (S : DmTree) (role : Nat) (call : Call) : Bool :=
  call.role = role && call.role < ctrustRoleMax && (nodeFromPath S call.path).isSome

open Classical in
theorem inForce_concat (S : DmTree) (rows : List Row) (r : Row) (id : NodeId) (p : Permit) :
    inForce S (rows ++ [r]) id p =
      if Covers S r.targets id then r.permits p else inForce S rows id p := by
  rw [inForce, reverse_append, reverse_singleton, singleton_append, find?_cons]
  by_cases h : Covers S r.targets id
  · rw [decide_eq_true h, if_pos h]
  · rw [decide_eq_false h, if_neg h, inForce]

theorem table_concat (ct : Ctrust) (role : Nat) (permission : Permission) :
    ((ct.roles role ++ [permission]).mapIdx fun i p => row p i) =
      table ct role ++ [row permission (ct.roles role).length] := by
  rw [mapIdx_concat, table]

theorem covers_iff {S : DmTree} {path : Str} {node id : NodeId}
    (hnode : nodeFromPath S path = some node) : Covers S path id ↔ Below S node id := by
  rw [Covers, hnode]
  exact ⟨fun ⟨_, heq, h⟩ => Option.some.inj heq ▸ h, fun h => ⟨node, rfl, h⟩⟩

section Calls

variable {limit : Nat} {S : DmTree} {ct : Ctrust} {call : Call}

open Classical in
/-- What a call does, whatever it returns. -/
theorem call_effect (hS : SchemaOk limit S) (call : Call) (ct : Ctrust) :
    ∃ err ct', addControllerTrustPermission S call ct = some (err, ct') ∧
      (∀ role, ct'.roles role = ct.roles role ++
        if isAccepted S role call then [⟨call.path, call.bitmask⟩] else []) ∧
      ∀ id role, ct'.permissions id role =
        if isAccepted S role call ∧ Covers S call.path id then permits call.bitmask
        else ct.permissions id role := by
  rw [addControllerTrustPermission]
  by_cases hrole : ctrustRoleMax ≤ call.role
  · have hnot (role : Nat) : isAccepted S role call = false := by
      simp [isAccepted, Nat.not_lt.mpr hrole]
    rw [if_pos hrole]
    exact ⟨_, ct, rfl, fun role => by simp [hnot], fun id role => by simp [hnot]⟩
  rw [if_neg hrole]
  cases hnode : nodeFromPath S call.path with
  | none =>
    have hnot (role : Nat) : isAccepted S role call = false := by
      simp [isAccepted, hnode]
    exact ⟨_, ct, rfl, fun role => by simp [hnot], fun id role => by simp [hnot]⟩
  | some node =>
    have haccepted (role : Nat) : isAccepted S role call = decide (role = call.role) := by
      rw [isAccepted, hnode]
      simp [Nat.not_le.mp hrole, eq_comm]
    have hlt := findPathNode_lt hS hnode
    have hgives := applyPermissions_gives hS call.role call.bitmask hlt (Nat.le_add_right _ _)
    dsimp only
    rw [addPermissions]
    dsimp only
    obtain ⟨⟨err, agent⟩, hinform⟩ := informInstance_returns hS (permissionPath call.role
      (ct.roles call.role ++ [(⟨call.path, call.bitmask⟩ : Permission)]).length) ct.agent
    rw [hinform]
    refine ⟨err, _, rfl, fun role => ?_, fun id role => ?_⟩
    · dsimp only
      rw [haccepted]
      by_cases heq : role = call.role
      · simp [heq]
      · simp [heq]
    · dsimp only
      rw [haccepted]
      by_cases heq : role = call.role
      · subst heq
        by_cases hcovers : Covers S call.path id
        · rw [if_pos ⟨decide_eq_true rfl, hcovers⟩]
          exact hgives.given _ id ((covers_iff hnode).mp hcovers)
        · rw [if_neg (fun h => hcovers h.2)]
          exact hgives.kept _ id fun h => hcovers ((covers_iff hnode).mpr h)
      · rw [if_neg (fun h => heq (of_decide_eq_true h.1))]
        exact hgives.others _ id role heq

/-- The tables say what is in force. -/
def Described (S : DmTree) (ct : Ctrust) : Prop :=
  ∀ id role p, ct.permissions id role p = inForce S (table ct role) id p

theorem call_described (hS : SchemaOk limit S) (call : Call) (ct : Ctrust)
    (h : Described S ct) :
    ∃ err ct', addControllerTrustPermission S call ct = some (err, ct') ∧
      (∀ role, ct'.roles role = ct.roles role ++
        if isAccepted S role call then [⟨call.path, call.bitmask⟩] else []) ∧
      Described S ct' := by
  obtain ⟨err, ct', hcall, hroles, hpermissions⟩ := call_effect hS call ct
  refine ⟨err, ct', hcall, hroles, fun id role p => ?_⟩
  rw [hpermissions id, table, hroles]
  cases haccepted : isAccepted S role call with
  | false =>
    rw [if_neg (by simp), if_neg (by simp), append_nil]
    exact h id role p
  | true =>
    rw [if_pos rfl, table_concat, inForce_concat, permits_row]
    have htargets : (row ⟨call.path, call.bitmask⟩ (ct.roles role).length).targets = call.path := rfl
    rw [htargets]
    by_cases hcovers : Covers S call.path id
    · rw [if_pos ⟨rfl, hcovers⟩, if_pos hcovers]
    · rw [if_neg (fun h => hcovers h.2), if_neg hcovers]
      exact h id role p

theorem runCalls_described (hS : SchemaOk limit S) (calls : List Call) (ct : Ctrust)
    (h : Described S ct) :
    ∃ ct', runCalls S calls ct = some ct' ∧
      (∀ role, ct'.roles role = ct.roles role ++
        (calls.filter (isAccepted S role)).map fun call => ⟨call.path, call.bitmask⟩) ∧
      Described S ct' := by
  induction calls generalizing ct with
  | nil => exact ⟨ct, rfl, fun role => by simp, h⟩
  | cons call calls ih =>
    obtain ⟨err, ct₁, hcall, hroles, hdescribed⟩ := call_described hS call ct h
    obtain ⟨ct', hrun, hroles', hdescribed'⟩ := ih ct₁ hdescribed
    refine ⟨ct', ?_, fun role => ?_, hdescribed'⟩
    · rw [runCalls, hcall]
      exact hrun
    · rw [hroles', hroles, filter_cons]
      split <;> simp

end Calls

/-- What the `Permission` tables say of a role; one that is not valid has no permissions. -/
noncomputable def roleInForce (S : DmTree) (ct : Ctrust) (id : NodeId) (role : Nat) (p : Permit) : Bool :=
  decide (role < ctrustRoleMax) && inForce S (table ct role) id p

/-- After any calls, the table of a role lists those that were accepted for it, in order, and a role
may do with a node what the last row that is about the node says. -/
theorem permissions_in_force (rs : List Registration) (h : ∀ r ∈ rs, WithinArrays r)
    (calls : List Call) (agent : State) :
    ∃ ct, runCalls (registerAll initialTree rs) calls (initialCtrust agent) = some ct ∧
      (∀ role, ct.roles role =
        (calls.filter (isAccepted (registerAll initialTree rs) role)).map
          fun call => ⟨call.path, call.bitmask⟩) ∧
      ∀ id role p,
        getPermissions ct.permissions id (some role) p =
          (roleInForce (registerAll initialTree rs) ct id role.inherited p ||
            roleInForce (registerAll initialTree rs) ct id role.assigned p) := by
  have hS := registered_ok h
  obtain ⟨ct, hrun, hroles, hdescribed⟩ :=
    runCalls_described hS calls (initialCtrust agent) fun _ _ _ => rfl
  have hrole (id : NodeId) (role : Nat) (p : Permit) : rolePermissions ct.permissions id role p =
        roleInForce (registerAll initialTree rs) ct id role p := by
    rw [rolePermissions, roleInForce, ← hdescribed id]
    by_cases hlt : role < ctrustRoleMax
    · rw [if_pos ⟨hlt, Nat.ne_of_lt hlt⟩, decide_eq_true hlt, Bool.true_and]
    · rw [if_neg (fun h => hlt h.1), decide_eq_false hlt, Bool.false_and]
  exact ⟨ct, hrun, hroles, fun id role p =>
    congrArg₂ (· || ·) (hrole id role.inherited p) (hrole id role.assigned p)⟩

/-- A table, of which a role may read and write everything until it may only read. -/
theorem permissions_in_force_one_table :
    let S := registerAll initialTree [⟨"Device.A.{i}".toList, .objectMultiInstance, {}, id⟩]
    let calls : List Call := [⟨0, "Device.".toList, 0xFFF⟩, ⟨0, "Device.A.*.".toList, 1⟩]
    ∃ ct, runCalls S calls (initialCtrust initialState) = some ct ∧
      (∀ role, ct.roles role =
        (calls.filter (isAccepted S role)).map fun call => ⟨call.path, call.bitmask⟩) ∧
      ∀ id role p, getPermissions ct.permissions id (some role) p =
        (roleInForce S ct id role.inherited p || roleInForce S ct id role.assigned p) :=
  permissions_in_force _ (fun r hr => by
    rw [List.mem_singleton.mp hr]
    exact ⟨by decide, by decide, by decide⟩) _ _

end TrustPermissions
