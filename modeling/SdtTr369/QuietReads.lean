import SdtTr369.ProgramFrames
import SdtTr369.HeldInstances
import SdtTr369.DataModelRead

/-!
# Reads are quiet

The functions that read the data model do nothing to it but refresh tables.
What `DATA_MODEL_GetPathProperties` says about a path is then true of the
instance vectors as it leaves them, unless a refresh has failed.
-/

namespace QuietReads

open UspTypes Schema SchemaInvariant PathCodec EffectProgram Agent InstVector
open DataModel DataModelRead HeldInstances

variable {limit : Nat} {S : DmTree} {W : World} {a : State}

theorem quiet_frame (S : DmTree) : IsFrame (Quiet S) := ⟨Quiet.refl S, Quiet.trans⟩

theorem call_quiet {β : Type} (f : Nat → β) : Within (Quiet S) (call f) :=
  fun a => quiet_calls S a _

section Reads

variable (hS : SchemaOk limit S)

include hS

theorem refreshInstVector_within (top : NodeId) : Within (Quiet S) (refreshInstVector S W top) :=
  fun _ => (refreshInstVector_quiet hS top).mono (fun _ _ h => h.1) fun _ _ h => h

omit hS in
theorem requireTop_within (inst : DmInstances) : Within (Quiet S) (requireTop S inst) :=
  within_require (quiet_frame S) _

variable (node : NodeId) (path : Str)

omit hS in
theorem requireTable_within (inst : DmInstances) : Within (Quiet S) (requireTable S node inst) :=
  within_bind (quiet_frame S) (within_require (quiet_frame S) _) fun _ => requireTop_within _

theorem instVectorIsExist_within (inst : DmInstances) :
    Within (Quiet S) (instVectorIsExist S W inst) := by
  have hq := quiet_frame S
  unfold instVectorIsExist
  split
  · exact within_pure hq _
  · exact within_bind hq (requireTop_within inst) fun _ =>
      within_bind hq (refreshInstVector_within hS _) fun _ => within_read hq _

theorem instVectorGetInstances_within (inst : DmInstances) :
    Within (Quiet S) (instVectorGetInstances S W node inst) := by
  have hq := quiet_frame S
  exact within_bind hq (requireTable_within node inst) fun _ =>
    within_bind hq (refreshInstVector_within hS _) fun _ => within_read hq _

theorem instVectorGetNumInstances_within (inst : DmInstances) :
    Within (Quiet S) (instVectorGetNumInstances S W node inst) := by
  have hq := quiet_frame S
  exact within_bind hq (requireTable_within node inst) fun _ =>
    within_bind hq (refreshInstVector_within hS _) fun _ => within_read hq _

theorem getInstances_within : Within (Quiet S) (getInstances S W path) := by
  have hq := quiet_frame S
  unfold getInstances
  split
  · exact within_fail hq _
  · split
    · exact within_fail hq _
    · split
      · exact within_fail hq _
      · refine within_bind hq (instVectorIsExist_within hS _) fun b => ?_
        split
        · exact instVectorGetInstances_within hS _ _
        · exact within_fail hq _

omit hS in
theorem databaseGetParameterValue_within (key : Key) (bufLen : Nat) (obfuscated : Bool) :
    Within (Quiet S) (databaseGetParameterValue W key bufLen obfuscated) := by
  have hq := quiet_frame S
  refine within_bind hq (call_quiet _) fun fails => ?_
  split
  · exact within_fail hq _
  · exact within_read hq _

omit hS in
theorem getVendorParam_within : Within (Quiet S) (getVendorParam S W node path) := by
  have hq := quiet_frame S
  unfold getVendorParam
  split
  · refine within_bind hq (call_quiet _) fun answer => ?_
    split
    · exact within_fail hq _
    · exact within_pure hq _
  · refine within_bind hq (call_quiet _) fun answer => ?_
    split
    · exact within_fail hq _
    · split
      · exact within_fail hq _
      · exact within_pure hq _

omit hS in
theorem getDbParam_within (inst : DmInstances) (bufLen : Nat) (obfuscated : Bool) :
    Within (Quiet S) (getDbParam S W node inst bufLen obfuscated) := by
  have hq := quiet_frame S
  refine within_bind hq (databaseGetParameterValue_within _ _ _) fun value => ?_
  split
  · exact within_pure hq _
  · exact within_pure hq _

theorem getValueOfType_within (inst : DmInstances) (bufLen : Nat) (flags : GetFlags) :
    Within (Quiet S) (getValueOfType S W path node inst bufLen flags) := by
  have hq := quiet_frame S
  unfold getValueOfType
  split
  · exact within_pure hq _
  · split
    · exact getDbParam_within _ _ _ _
    · exact within_pure hq _
  · exact getDbParam_within _ _ _ _
  · exact getDbParam_within _ _ _ _
  · exact getDbParam_within _ _ _ _
  · exact getDbParam_within _ _ _ _
  · exact within_bind hq (instVectorGetNumInstances_within hS _ _) fun _ => within_pure hq _
  · exact getVendorParam_within _ _
  · exact getVendorParam_within _ _
  all_goals exact within_fail hq _

theorem getParameterValue_within (bufLen : Nat) (flags : GetFlags) :
    Within (Quiet S) (getParameterValue S W path bufLen flags) := by
  have hq := quiet_frame S
  unfold getParameterValue
  split
  · exact within_fail hq _
  · refine within_bind hq (instVectorIsExist_within hS _) fun b => ?_
    split
    · exact within_bind hq (getValueOfType_within hS _ _ _ _ _) fun _ => within_pure hq _
    · exact within_fail hq _

theorem addInstanceFlags_within (flags : PathFlags) (inst : DmInstances) (isQualified : Bool) :
    Within (Quiet S) (addInstanceFlags S W flags inst isQualified) := by
  have hq := quiet_frame S
  have hexist : ∀ t, Within (Quiet S) (.attempt (instVectorIsExist S W t) : Op (Except Err Bool)) :=
    fun t => within_attempt (instVectorIsExist_within hS t)
  refine within_bind hq (hexist inst) fun b => ?_
  split
  · exact within_pure hq _
  · exact within_pure hq _
  · split
    · exact within_pure hq _
    · refine within_bind hq (hexist inst.dropLast) fun b => ?_
      split
      · exact within_pure hq _
      · exact within_pure hq _

theorem getPathProperties_within (P : PermissionTable) (path : Str)
    (role : Option CombinedRole) : Within (Quiet S) (getPathProperties S P W path role) := by
  have hq := quiet_frame S
  unfold getPathProperties
  split
  · exact within_pure hq _
  · exact within_bind hq (addInstanceFlags_within hS _ _ _) fun _ => within_pure hq _

theorem getUngrouped_within (ggv : List GroupGetEntry) :
    Within (Quiet S) (getUngrouped S W ggv) := by
  have hq := quiet_frame S
  induction ggv with
  | nil => exact within_pure hq _
  | cons gge rest ih =>
    have hread : Within (Quiet S) (.attempt (getParameterValue S W gge.path maxDmValueLen {}) :
        Op (Except Err Str)) := within_attempt (getParameterValue_within hS _ _ _)
    have hrest : ∀ got, Within (Quiet S) (do
        let rest ← getUngrouped S W rest
        pure (got :: rest) : Op (List GroupGetEntry)) :=
      fun _ => within_bind hq ih fun _ => within_pure hq _
    unfold getUngrouped
    split
    · exact within_bind hq hread fun _ => hrest _
    · exact hrest _

omit hS in
theorem getGroups_within (groups : List Nat) (ggv : List GroupGetEntry) :
    Within (Quiet S) (getGroups W groups ggv) := by
  have hq := quiet_frame S
  induction groups generalizing ggv with
  | nil => exact within_pure hq _
  | cons group groups ih =>
    refine within_bind hq ?_ fun ggv => ih ggv
    unfold getParameterGroup
    split
    · exact within_bind hq (call_quiet _) fun _ => within_pure hq _
    · exact within_pure hq _

theorem groupGetValues_within (ggv : List GroupGetEntry) :
    Within (Quiet S) (groupGetValues S W ggv) :=
  within_bind (quiet_frame S) (getUngrouped_within hS ggv) fun _ => getGroups_within _ _

end Reads

/-! ## The answers -/

/-- No refresh callback reports an error. -/
def RefreshesSucceed (W : World) : Prop := ∀ n, W.refreshInstances n ≠ none

/-- The instance is there, and no refresh can change that in this lock period. -/
def Present (S : DmTree) (a : State) (inst : DmInstances) : Prop :=
  inst = [] ∨ Known a inst ∧ SettledAt S a (topNode inst)

theorem Present.quiet {a' : State} {inst : DmInstances} (h : Present S a inst)
    (hq : Quiet S a a') : Present S a' inst := by
  rcases h with h | ⟨hk, hs⟩
  · exact .inl h
  · by_cases hne : inst = []
    · exact .inl hne
    · exact .inr ⟨(hq.known_iff hne hs).mpr hk, hq.settled _ hs⟩

/-- The group of a parameter; nothing else has one. -/
def groupOf (S : DmTree) (node : NodeId) : Option Nat :=
  if isParam (S.node node).type then (S.node node).registered.groupId else none

/-- The properties are those of the node, and the instance bit is right. -/
structure Describes (S : DmTree) (P : PermissionTable) (role : Option CombinedRole)
    (properties : PathProperties) (node : NodeId) (inst : DmInstances) (isQualified : Bool)
    (a : State) : Prop where
  permissions : properties.permissions = getPermissions P node role
  groupId : properties.groupId = groupOf S node
  paramType : isParam (S.node node).type = true →
    properties.paramType = some (S.node node).registered.paramType
  flags : ∃ exist parentExist, properties.flags =
    { nodeFlags (S.node node).type isQualified with
      instanceNumbersExist := exist
      parentInstanceNumbersExist := parentExist }
  exist_iff : properties.flags.instanceNumbersExist = true ↔ inst = [] ∨ Known a inst
  settled : inst ≠ [] → SettledAt S a (topNode inst)

theorem Describes.present {P : PermissionTable} {role : Option CombinedRole}
    {properties : PathProperties} {node : NodeId} {inst : DmInstances} {isQualified : Bool}
    (h : Describes S P role properties node inst isQualified a)
    (hexist : properties.flags.instanceNumbersExist = true) : Present S a inst := by
  rcases h.exist_iff.mp hexist with hnil | hk
  · exact .inl hnil
  · by_cases hne : inst = []
    · exact .inl hne
    · exact .inr ⟨hk, h.settled hne⟩

/-- The instances that are listed are the known ones, for whatever node. -/
theorem instVectorGetInstances_known (hS : SchemaOk limit S) (hok : StateOk S a) (node : NodeId)
    (inst : DmInstances) :
    Wp True (instVectorGetInstances S W node inst) a
      (fun l a' => Quiet S a a' ∧ SettledAt S a' (topNodeOf node inst) ∧
        ∀ n, n ∈ l ↔ Known a' (inst ++ [(node, n)]))
      (fun _ a' => Quiet S a a') := by
  simp only [instVectorGetInstances, requireTable, wp_bind, wp_require, wp_requireTop, wp_read]
  split
  · split
    · refine (refreshInstVector_quiet hS _).mono (fun _ a' h => ?_) fun _ _ h => h
      exact ⟨h.1, h.2, fun n => mem_listInstances (h.1.ok hok)⟩
    · trivial
  · trivial

section Answers

variable (hS : SchemaOk limit S) (hW : RefreshesSucceed W)

theorem refreshInstVector_error (top : NodeId) :
    Wp True (refreshInstVector S W top) a (fun _ _ => True)
      (fun _ _ => ∃ n, W.refreshInstances n = none) := by
  unfold refreshInstVector
  split
  · trivial
  · simp only [wp_bind, wp_read]
    split
    · trivial
    · simp only [wp_bind, wp_call, wp_read]
      split
      · trivial
      · simp only [wp_bind, wp_call]
        split
        · rename_i hnone
          exact ⟨_, hnone⟩
        · trivial

include hS hW

theorem instVectorIsExist_answer (hok : StateOk S a) (inst : DmInstances) :
    Wp True (instVectorIsExist S W inst) a
      (fun b a' => Quiet S a a' ∧ (inst ≠ [] → SettledAt S a' (topNode inst)) ∧
        (b = true ↔ inst = [] ∨ Known a' inst))
      (fun _ _ => False) := by
  have herror : Wp True (instVectorIsExist S W inst) a (fun _ _ => True)
      (fun _ _ => ∃ n, W.refreshInstances n = none) := by
    unfold instVectorIsExist
    split
    · trivial
    · simp only [wp_bind, wp_requireTop, wp_read]
      split
      · exact refreshInstVector_error _
      · trivial
  refine ((instVectorIsExist_spec hS hok fun _ _ => trivial).and herror).mono
    (fun b a' h => h.1) fun e a' h => ?_
  obtain ⟨n, hn⟩ := h.2
  exact hW n hn

theorem addInstanceFlags_answer (hok : StateOk S a) (flags : PathFlags) (inst : DmInstances)
    (isQualified : Bool) (hflags : flags.instanceNumbersExist = false) :
    Wp True (addInstanceFlags S W flags inst isQualified) a
      (fun flags' a' => Quiet S a a' ∧ (inst ≠ [] → SettledAt S a' (topNode inst)) ∧
        (∃ exist parentExist, flags' = { flags with
          instanceNumbersExist := exist
          parentInstanceNumbersExist := parentExist }) ∧
        (flags'.instanceNumbersExist = true ↔ inst = [] ∨ Known a' inst))
      (fun _ _ => False) := by
  simp only [addInstanceFlags, wp_bind, wp_attempt]
  refine (instVectorIsExist_answer hS hW hok inst).mono (fun b a' h => ?_) fun _ _ h => h.elim
  obtain ⟨hq, hs, hiff⟩ := h
  cases b with
  | true => exact ⟨hq, hs, ⟨true, true, rfl⟩, by simpa using hiff⟩
  | false =>
    have hsame : ∀ a'', Quiet S a' a'' → (inst ≠ [] → SettledAt S a'' (topNode inst)) ∧
        (flags.instanceNumbersExist = true ↔ inst = [] ∨ Known a'' inst) := by
      intro a'' hq'
      refine ⟨fun hne => hq'.settled _ (hs hne), ?_⟩
      simp only [Bool.false_eq_true, false_iff, not_or] at hiff
      simp only [hflags, Bool.false_eq_true, false_iff, not_or]
      exact ⟨hiff.1, fun hk => hiff.2 ((hq'.known_iff hiff.1 (hs hiff.1)).mp hk)⟩
    simp only
    split
    · exact ⟨hq, (hsame a' (Quiet.refl S a')).1,
        ⟨flags.instanceNumbersExist, flags.parentInstanceNumbersExist, rfl⟩,
        (hsame a' (Quiet.refl S a')).2⟩
    · simp only [wp_bind, wp_attempt]
      refine (instVectorIsExist_answer hS hW (hq.ok hok) inst.dropLast).mono
        (fun parentExist a'' h' => ?_) fun _ _ h' => h'.elim
      exact ⟨hq.trans h'.1, (hsame a'' h'.1).1, ⟨flags.instanceNumbersExist, parentExist, rfl⟩,
        (hsame a'' h'.1).2⟩

theorem getPathProperties_spec (hok : StateOk S a) (P : PermissionTable) (path : Str)
    (role : Option CombinedRole) :
    Wp True (getPathProperties S P W path role) a
      (fun properties a' => Quiet S a a' ∧ match getQualifiedNode S path with
        | none => properties.flags.existsInSchema = false
        | some (node, inst, isQualified) =>
          Describes S P role properties node inst isQualified a')
      (fun _ _ => False) := by
  unfold getPathProperties
  cases hget : getQualifiedNode S path with
  | none => exact ⟨Quiet.refl S a, rfl⟩
  | some found =>
    obtain ⟨node, inst, isQualified⟩ := found
    refine (wp_bind _ _ _ _ _).mpr ?_
    refine (addInstanceFlags_answer hS hW hok (nodeFlags (S.node node).type isQualified) inst
      isQualified rfl).mono (fun flags a' h => ?_) fun _ _ h => h
    obtain ⟨hq, hs, hflags, hiff⟩ := h
    exact ⟨hq, rfl, rfl, fun hparam => if_pos hparam, hflags, hiff, hs⟩

end Answers

end QuietReads
