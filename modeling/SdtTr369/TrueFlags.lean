import SdtTr369.ResolvedPaths

/-!
# The flags of a path

`DATA_MODEL_GetPathProperties` of `data_model.c` returns a set of flags, or the error of
`DM_INST_VECTOR_IsExist` in the place of the flags. The bits of `USP_ERR_INTERNAL_ERROR`,
which is 7003, then say that the path is an object and an operation, and that it exists.
-/

namespace TrueFlags

open UspTypes Schema SchemaInvariant PathCodec PathRoundTrip EffectProgram Agent InstVector InstanceTree
open DataModelRead HeldInstances PathResolver ResolvedPaths

/-- The instance, or one below it, is in the vector of its top-level table. -/
def Instantiated (a : State) (inst : DmInstances) : Prop :=
  inst = [] ∨ ∃ t ∈ a.instVector (topNode inst), inst <+: t

/-- The instances that have to be there for a path to be added: all but the last one of a
qualified path. -/
def parentInst (inst : DmInstances) (isQualified : Bool) : DmInstances :=
  if isQualified then inst.dropLast else inst

/-- A flag that is set tells the truth about the node and the instances. -/
structure FlagsTrue (type : NodeType) (inst : DmInstances) (isQualified : Bool) (a : State)
    (flags : PathFlags) : Prop where
  isObject : flags.isObject = true → isObject type = true
  isParameter : flags.isParameter = true → isParam type = true
  isOperation : flags.isOperation = true → isOperationType type = true
  isEvent : flags.isEvent = true → type = .event
  isObjectInstance : flags.isObjectInstance = true →
    UspTypes.isObject type = true ∧ isQualified = true
  instanceNumbersExist : flags.instanceNumbersExist = true → Instantiated a inst
  parentInstanceNumbersExist : flags.parentInstanceNumbersExist = true →
    Instantiated a (parentInst inst isQualified)
  isMultiInstanceObject : flags.isMultiInstanceObject = true → type = .objectMultiInstance
  isSecureParam : flags.isSecureParam = true → type = .dbParamSecure
  isWritable : flags.isWritable = true → isWritableType type = true

/-- The kind of node that an operation accepts at the end of a path. -/
def kindAccepted (op : ResolveOp) (type : NodeType) (isQualified : Bool) : Bool :=
  match op with
  | .get | .subsValChange | .getBulkData => isParam type
  | .set | .instances => isObject type
  | .add => type = .objectMultiInstance && !isQualified
  | .del => isObject type && isQualified
  | .subsAdd | .subsDel => type = .objectMultiInstance
  | .oper | .subsOper => isOperationType type
  | .event | .subsEvent => type = .event
  | .any | .forgivingRef | .strictRef => true

/-- The path is of a kind that the operation accepts, and what `AddPathFound` asserts of a
table to subscribe to holds. -/
structure RightlyAccepted (S : DmTree) (path : Str) (op : ResolveOp) (flags : PathFlags) :
    Prop where
  kind : ∃ node inst isQualified, getQualifiedNode S path = some (node, inst, isQualified) ∧
    kindAccepted op (S.node node).type isQualified = true
  table : op = .subsAdd ∨ op = .subsDel → flags.isObjectInstance = false →
    flags.isMultiInstanceObject = true

/-- The flags are those of the path, and an operation accepts the path only if it is of
its kind. -/
structure Described (S : DmTree) (path : Str) (properties : PathProperties) (a : State) :
    Prop where
  unknown : getQualifiedNode S path = none → properties.flags = {}
  flags : ∀ node inst isQualified, getQualifiedNode S path = some (node, inst, isQualified) →
    FlagsTrue (S.node node).type inst isQualified a properties.flags
  accepted : ∀ op b, checkPathProperties op properties = .ok b →
    RightlyAccepted S path op properties.flags

/-- The vector of the table is due for a refresh, and the callback reports an error. -/
def RefreshFails (S : DmTree) (W : World) (a : State) (top : NodeId) : Prop :=
  (S.node top).registered.refreshInstances = true ∧ a.lockPeriod top ≠ a.curLockPeriod ∧
    a.refreshExpiryTime top < W.time a.calls ∧ W.refreshInstances (a.calls + 1) = none

/-- The refresh for the instances of the path fails. -/
def LookupFails (S : DmTree) (W : World) (a : State) (path : Str) : Prop :=
  ∃ node inst isQualified, getQualifiedNode S path = some (node, inst, isQualified) ∧
    inst ≠ [] ∧ RefreshFails S W a (topNode inst)

/-! ## The refresh -/

section Lookup

variable {S : DmTree} {W : World} {a : State} {top : NodeId} {inst : DmInstances}

theorem refreshInstVector_iff : Wp False (refreshInstVector S W top) a
    (fun _ a' => ¬ RefreshFails S W a top ∧ SettledAt S a' top)
    (fun _ _ => RefreshFails S W a top) := by
  unfold refreshInstVector RefreshFails
  split
  · next hnone => exact ⟨by simp [hnone], fun h => by simp [hnone] at h⟩
  · next hcallback =>
    simp only [wp_bind, wp_read]
    split
    · next hlocked =>
      have hlocked : a.lockPeriod top = a.curLockPeriod := by simpa using hlocked
      exact ⟨by simp [hlocked], fun _ => hlocked⟩
    · next hunlocked =>
      simp only [wp_bind, wp_call, wp_read]
      split
      · next hfresh => exact ⟨fun h => by omega, (quiet_lock S _ top).2⟩
      · next hexpired =>
        simp only [wp_bind, wp_call]
        split
        · next hfails =>
          exact ⟨by simpa using hcallback, by simpa using hunlocked, by omega, hfails⟩
        · next paths expiryPeriod hpaths =>
          simp only [wp_bind, wp_call, wp_update]
          exact ⟨by simp [hpaths], (quiet_lock S _ top).2⟩

/-- A table is refreshed once in a lock period. -/
theorem refreshInstVector_settled (h : SettledAt S a top) :
    refreshInstVector S W top a = some (.ok (), a) := by
  unfold refreshInstVector
  split
  · rfl
  · next hcallback =>
    have hlocked : a.lockPeriod top = a.curLockPeriod := h (by simpa using hcallback)
    show Prog.bind (Prog.read fun a => decide (a.lockPeriod top = a.curLockPeriod)) _ a = _
    simp [Prog.bind, Prog.read, hlocked]
    rfl

theorem isExistInInstVector_iff (hne : inst ≠ []) :
    isExistInInstVector inst (a.instVector (topNode inst)) = true ↔ Instantiated a inst := by
  simp [isExistInInstVector, Instantiated, hne]

theorem instVectorIsExist_iff
    (htop : inst ≠ [] → (S.node (topNode inst)).type = .objectMultiInstance) :
    Wp False (instVectorIsExist S W inst) a
      (fun b a' => (inst ≠ [] → ¬ RefreshFails S W a (topNode inst) ∧
        SettledAt S a' (topNode inst)) ∧ (b = true ↔ Instantiated a' inst))
      (fun _ _ => inst ≠ [] ∧ RefreshFails S W a (topNode inst)) := by
  unfold instVectorIsExist
  split
  · next hnil => exact ⟨fun hne => absurd hnil hne, by simp [Instantiated, hnil]⟩
  · next hne =>
    simp only [wp_bind, wp_requireTop, wp_read]
    rw [if_pos (htop hne)]
    refine refreshInstVector_iff.mono (fun _ a' h => ?_) fun _ _ h => ⟨hne, h⟩
    exact ⟨fun _ => h, isExistInInstVector_iff hne⟩

/-- The parent is looked up in the vector that was refreshed for the instance. -/
theorem instVectorIsExist_parent (hsettled : inst ≠ [] → SettledAt S a (topNode inst))
    (htop : inst ≠ [] → (S.node (topNode inst)).type = .objectMultiInstance) :
    Wp False (instVectorIsExist S W inst.dropLast) a
      (fun b a' => a' = a ∧ (b = true ↔ Instantiated a inst.dropLast)) (fun _ _ => False) := by
  unfold instVectorIsExist
  split
  · next hnil => exact ⟨rfl, by simp [Instantiated, hnil]⟩
  · next hne =>
    have hinst : inst ≠ [] := by
      rintro rfl
      exact hne rfl
    have hsame : topNode inst.dropLast = topNode inst :=
      topNode_of_isPrefix (List.dropLast_prefix inst) hne
    simp only [wp_bind, wp_requireTop, wp_read]
    rw [if_pos (hsame ▸ htop hinst)]
    have hrun : refreshInstVector S W (topNode inst.dropLast) a = some (.ok (), a) :=
      refreshInstVector_settled (hsame.symm ▸ hsettled hinst)
    unfold Wp
    rw [hrun]
    exact ⟨rfl, isExistInInstVector_iff hne⟩

theorem Instantiated.dropLast (h : Instantiated a inst) : Instantiated a inst.dropLast := by
  by_cases hnil : inst.dropLast = []
  · exact .inl hnil
  · obtain rfl | ⟨t, ht, hpre⟩ := h
    · exact .inl rfl
    · refine .inr ⟨t, ?_, (List.dropLast_prefix inst).trans hpre⟩
      rwa [topNode_of_isPrefix (List.dropLast_prefix inst) hnil]

end Lookup

/-! ## The flags -/

section Flags

variable {S : DmTree} {W : World} {P : PermissionTable} {a : State} {inst : DmInstances}
  {isQualified : Bool} {type : NodeType} {node : NodeId} {path : Str}

variable {limit : Nat} {op : ResolveOp}

/-- The instances of a path begin in a top-level table. -/
theorem getQualifiedNode_topNode (hS : SchemaOk limit S)
    (hget : getQualifiedNode S path = some (node, inst, isQualified)) (hne : inst ≠ []) :
    (S.node (topNode inst)).type = .objectMultiInstance := by
  obtain ⟨hlt, hqualified, hopen⟩ := getQualifiedNode_spec hS hget
  apply topNode_table hS hlt _ hne
  cases isQualified with
  | true => exact hqualified rfl ▸ List.prefix_rfl
  | false => exact (hopen rfl).2 ▸ List.prefix_append _ _

/-- The flags of the node and of the instances, unless the refresh fails. -/
theorem addInstanceFlags_iff
    (htop : inst ≠ [] → (S.node (topNode inst)).type = .objectMultiInstance) :
    Wp False (addInstanceFlags S W (nodeFlags type isQualified) inst isQualified) a
      (fun flags a' =>
        ¬ (inst ≠ [] ∧ RefreshFails S W a (topNode inst)) ∧
          flags.isObjectInstance = (isObject type && isQualified) ∧
          FlagsTrue type inst isQualified a' flags ∨
        (inst ≠ [] ∧ RefreshFails S W a (topNode inst)) ∧ flags = flagsOfWord uspErrInternalError)
      (fun _ _ => False) := by
  simp only [addInstanceFlags, wp_bind, wp_attempt]
  refine (instVectorIsExist_iff htop).mono (fun b a' h => ?_) fun _ _ h => .inr ⟨h, rfl⟩
  obtain ⟨hrefreshed, hexist⟩ := h
  have hsucceeds : ¬ (inst ≠ [] ∧ RefreshFails S W a (topNode inst)) := fun h =>
    (hrefreshed h.1).1 h.2
  cases b with
  | true =>
    have hinst : Instantiated a' inst := hexist.mp rfl
    have hparent : Instantiated a' (parentInst inst isQualified) := by
      cases isQualified
      · exact hinst
      · exact hinst.dropLast
    exact .inl ⟨hsucceeds, rfl, by constructor <;> simp_all [nodeFlags]⟩
  | false =>
    simp only
    split
    · exact .inl ⟨hsucceeds, rfl, by constructor <;> simp_all [nodeFlags]⟩
    · next hqualified =>
      simp only [wp_bind, wp_attempt]
      refine (instVectorIsExist_parent (fun hne => (hrefreshed hne).2) htop).mono
        (fun parentExist a'' h => ?_) fun _ _ h => h.elim
      obtain ⟨rfl, hparent⟩ := h
      refine .inl ⟨hsucceeds, rfl, ?_⟩
      constructor <;> simp_all [nodeFlags, parentInst]

/-- The bits of the error number are those of no node. -/
theorem not_flagsTrue_errorNumber :
    ¬ FlagsTrue type inst isQualified a (flagsOfWord uspErrInternalError) := by
  intro h
  have hobject := h.isObject (by decide)
  have hoperation := h.isOperation (by decide)
  cases type <;> simp_all [isObject, isOperationType]

theorem of_check {c : Bool} {e : Err}
    (h : (if c = true then Except.ok () else Except.error e) = Except.ok ()) : c = true := by
  cases c with
  | false => cases h
  | true => rfl

variable {flags : PathFlags} {properties : PathProperties}

/-- Flags of a node let an operation through only if the node is of its kind. -/
theorem kindAccepted_of_checks (hflags : FlagsTrue type inst isQualified a flags)
    (hinstance : flags.isObjectInstance = (isObject type && isQualified))
    (hopen : isQualified = false → type = .objectMultiInstance)
    (hkind : checkKind op flags = .ok ()) (hqualified : checkQualified op flags = .ok ()) :
    kindAccepted op type isQualified = true := by
  cases op with
  | get | subsValChange | getBulkData => exact hflags.isParameter (of_check hkind)
  | set | instances => exact hflags.isObject (of_check hkind)
  | oper | subsOper => exact hflags.isOperation (of_check hkind)
  | event | subsEvent => simpa [kindAccepted] using hflags.isEvent (of_check hkind)
  | del => simpa [kindAccepted] using hflags.isObjectInstance (of_check hqualified)
  | subsAdd | subsDel =>
    simpa [kindAccepted] using hflags.isMultiInstanceObject (of_check hqualified)
  | any | forgivingRef | strictRef => rfl
  | add =>
    -- an object that is not an instance is a table, without the number of an instance
    have hobject : isObject type = true := hflags.isObject (of_check hkind)
    cases isQualified with
    | false => simpa [kindAccepted] using hopen rfl
    | true =>
      rw [hobject, Bool.true_and] at hinstance
      rw [checkQualified, hinstance] at hqualified
      simp only [Bool.true_eq_false, if_false] at hqualified
      split at hqualified <;> cases hqualified

theorem checkPathProperties_accepts {b : Bool} (h : checkPathProperties op properties = .ok b) :
    properties.flags.existsInSchema = true ∧ checkKind op properties.flags = .ok () ∧
      checkQualified op properties.flags = .ok () := by
  unfold checkPathProperties at h
  split at h
  · cases h
  · next hexist =>
    simp only [bind, Except.bind] at h
    split at h
    · cases h
    · next hkind =>
      split at h
      · cases h
      · next hqualified => exact ⟨by simpa using hexist, hkind, hqualified⟩

/-- What `AddPathFound` asserts is what `CheckPathProperties` has checked. -/
theorem multiInstance_of_checks (hop : op = .subsAdd ∨ op = .subsDel)
    (hqualified : checkQualified op flags = .ok ()) : flags.isMultiInstanceObject = true := by
  obtain rfl | rfl := hop
  · simpa [checkQualified] using hqualified
  · simpa [checkQualified] using hqualified

theorem getPathProperties_unknown (hget : getQualifiedNode S path = none)
    (role : Option CombinedRole) : getPathProperties S P W path role a = some (.ok {}, a) := by
  unfold getPathProperties
  rw [hget]
  rfl

theorem described_unknown (hget : getQualifiedNode S path = none) : Described S path {} a where
  unknown _ := rfl
  flags node inst isQualified hfound := by
    rw [hget] at hfound
    cases hfound
  accepted op b hchecks := by
    have hexist := (checkPathProperties_accepts hchecks).1
    cases hexist

theorem described_found (hget : getQualifiedNode S path = some (node, inst, isQualified))
    (hopen : isQualified = false → (S.node node).type = .objectMultiInstance)
    (hinstance : properties.flags.isObjectInstance = (isObject (S.node node).type && isQualified))
    (hflags : FlagsTrue (S.node node).type inst isQualified a properties.flags) :
    Described S path properties a where
  unknown hnone := by
    rw [hget] at hnone
    cases hnone
  flags node' inst' isQualified' hfound := by
    rw [hget] at hfound
    cases hfound
    exact hflags
  accepted op b hchecks := by
    obtain ⟨-, hkind, hqualified⟩ := checkPathProperties_accepts hchecks
    refine ⟨⟨node, inst, isQualified, hget, ?_⟩, fun hop _ => ?_⟩
    · exact kindAccepted_of_checks hflags hinstance hopen hkind hqualified
    · exact multiInstance_of_checks hop hqualified

/-- No refresh fails, and the flags are right. -/
theorem getPathProperties_described (hS : SchemaOk limit S) (hsucceeds : ¬ LookupFails S W a path)
    (role : Option CombinedRole) :
    Wp False (getPathProperties S P W path role) a
      (fun properties a' => Described S path properties a') (fun _ _ => False) := by
  cases hget : getQualifiedNode S path with
  | none =>
    unfold Wp
    rw [getPathProperties_unknown hget]
    exact described_unknown hget
  | some found =>
    obtain ⟨node, inst, isQualified⟩ := found
    have hopen : isQualified = false → (S.node node).type = .objectMultiInstance :=
      fun hfalse => ((getQualifiedNode_spec hS hget).2.2 hfalse).1
    unfold getPathProperties
    rw [hget]
    simp only [wp_bind, wp_pure]
    refine (addInstanceFlags_iff (getQualifiedNode_topNode hS hget)).mono (fun flags a' h => ?_)
      fun _ _ h => h
    obtain ⟨-, hinstance, hflags⟩ | ⟨hfails, -⟩ := h
    · exact described_found hget hopen hinstance hflags
    · exact absurd ⟨node, inst, isQualified, hget, hfails⟩ hsucceeds

/-- A refresh fails, and the error number is taken for flags. -/
theorem getPathProperties_errorNumber (hS : SchemaOk limit S) (hfails : LookupFails S W a path)
    (role : Option CombinedRole) :
    Wp False (getPathProperties S P W path role) a
      (fun properties _ => properties.flags = flagsOfWord uspErrInternalError)
      (fun _ _ => False) := by
  obtain ⟨node, inst, isQualified, hget, hfails⟩ := hfails
  unfold getPathProperties
  rw [hget]
  simp only [wp_bind, wp_pure]
  refine (addInstanceFlags_iff (getQualifiedNode_topNode hS hget)).mono (fun flags a' h => ?_)
    fun _ _ h => h
  obtain ⟨hsucceeds, -⟩ | ⟨-, hflags⟩ := h
  · exact absurd hfails hsucceeds
  · exact hflags

theorem not_described (hS : SchemaOk limit S) (hfails : LookupFails S W a path)
    (role : Option CombinedRole) :
    ¬ Wp False (getPathProperties S P W path role) a
      (fun properties a' => Described S path properties a') (fun _ _ => False) := by
  intro h
  have hboth := h.and (getPathProperties_errorNumber hS hfails role)
  obtain ⟨r, a', hrun⟩ := hboth.exists_run
  cases r with
  | error e => exact ((hboth.of_run hrun).2 e rfl).1
  | ok properties =>
    obtain ⟨hdescribed, hflags⟩ := (hboth.of_run hrun).1 properties rfl
    obtain ⟨node, inst, isQualified, hget, -⟩ := hfails
    have htrue := hdescribed.flags node inst isQualified hget
    rw [hflags] at htrue
    exact not_flagsTrue_errorNumber htrue

end Flags

/-- The flags tell the truth about the path unless the refresh for its instances fails. -/
theorem described_iff (rs : List Registration) (hrs : ∀ r ∈ rs, WithinArrays r)
    (P : PermissionTable) (W : World) (path : Str) (role : Option CombinedRole) (a : State) :
    Wp False (getPathProperties (registerAll initialTree rs) P W path role) a
        (fun properties a' => Described (registerAll initialTree rs) path properties a')
        (fun _ _ => False) ↔
      ¬ LookupFails (registerAll initialTree rs) W a path := by
  have hS := registered_ok hrs
  constructor
  · intro h hfails
    exact not_described hS hfails role h
  · intro hsucceeds
    exact getPathProperties_described hS hsucceeds role

theorem described_iff_nested :
    Wp False (getPathProperties (registerAll initialTree nestedTables) readers quietWorld
        "Device.A.1.B.4.P".toList none) nestedInstances
      (fun properties a' => Described (registerAll initialTree nestedTables)
        "Device.A.1.B.4.P".toList properties a')
      (fun _ _ => False) := by
  refine (described_iff nestedTables nestedTables_within readers quietWorld _ none _).mpr ?_
  rintro ⟨node, inst, isQualified, hget, -, hcallback, -⟩
  have hfound : getQualifiedNode (registerAll initialTree nestedTables)
      "Device.A.1.B.4.P".toList = some (4, [(2, 1), (3, 4)], true) := by decide +kernel
  rw [hfound] at hget
  cases hget
  revert hcallback
  decide

/-- A table that a callback keeps, with a parameter. -/
def refreshedTable : List Registration :=
  [{ tableRegistration "Device.A.{i}" with
      attach := fun registered => { registered with refreshInstances := true } },
    { path := "Device.A.{i}.P".toList, type := .vendorParamReadOnly, flags := {} }]

theorem refreshedTable_within : ∀ r ∈ refreshedTable, WithinArrays r := by
  intro r hr
  simp only [refreshedTable, List.mem_cons, List.not_mem_nil, or_false] at hr
  rcases hr with rfl | rfl <;> exact ⟨by decide, by decide, by decide⟩

/-- The callback of the table is due and fails: a parameter that is not there is an object,
and its instances exist. -/
theorem failed_refresh_misdescribes :
    ¬ Wp False (getPathProperties (registerAll initialTree refreshedTable) readers
        { quietWorld with time := fun _ => 1 } "Device.A.1.P".toList none) initialState
      (fun properties a' => Described (registerAll initialTree refreshedTable)
        "Device.A.1.P".toList properties a')
      (fun _ _ => False) := by
  have hS := registered_ok refreshedTable_within
  refine not_described hS ⟨3, [(2, 1)], true, ?_, ?_, ?_, ?_, ?_, rfl⟩ none
  all_goals decide +kernel

end TrueFlags
