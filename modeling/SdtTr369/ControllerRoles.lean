import SdtTr369.ControllerTable
import SdtTr369.RunHistory

/-!
# The role of a connection and the role of a controller

A handshake stores the role of an MQTT connection in the controllers that are
connected to it at that time, and a received message carries the role of the
connection it came over. The message handler asserts that the two are equal.
-/

namespace ControllerRoles

open UspTypes DataModelRead ControllerTable Option
open RunHistory (run Since since_snoc run_induction not_since_nil)

structure State where
  slots : Slots
  connections : Nat → Option Nat
  curMsgCombinedRole : CombinedRole

def initialState : State := ⟨noControllers, fun _ => none, ⟨roleDefault, roleDefault⟩⟩

/-- What changes the configuration of the controllers: the notifications of a
committed transaction and the loading at boot. -/
inductive Change where
  | controllerAdded (E : Loading) (row : ControllerRow)
  | controllerDeleted (inst : Nat)
  | controllerEnable (inst : Nat) (value : Bool)
  | controllerEndpointId (inst : Nat) (value : Str)
  | controllerAssignedRole (E : Loading) (inst : Nat) (value : Reference)
  | mtpAdded (E : Loading) (inst : Nat) (row : MtpRow)
  | mtpDeleted (inst mtpInst : Nat)
  | mtpEnable (inst mtpInst : Nat) (value : Bool)
  | mtpProtocol (inst mtpInst : Nat) (value : MtpProtocol)
  | mtpMqttReference (E : Loading) (inst mtpInst : Nat) (value stored : Reference)
  | mtpMqttTopic (inst mtpInst : Nat) (value : Str)

def notifyChange : Change → Slots → Option Slots
  | .controllerAdded E row => notifyControllerAdded E row
  | .controllerDeleted inst => notifyControllerDeleted inst
  | .controllerEnable inst value => notifyControllerEnable inst value
  | .controllerEndpointId inst value => notifyControllerEndpointId inst value
  | .controllerAssignedRole E inst value => notifyControllerAssignedRole E inst value
  | .mtpAdded E inst row => notifyControllerMtpAdded E inst row
  | .mtpDeleted inst mtpInst => notifyControllerMtpDeleted inst mtpInst
  | .mtpEnable inst mtpInst value => notifyControllerMtpEnable inst mtpInst value
  | .mtpProtocol inst mtpInst value => notifyControllerMtpProtocol inst mtpInst value
  | .mtpMqttReference E inst mtpInst value stored =>
    notifyControllerMtpMqttReference E inst mtpInst value stored
  | .mtpMqttTopic inst mtpInst value => notifyControllerMtpMqttTopic inst mtpInst value

inductive RoleStep where
  | handshake (mqttInstance role : Nat)
  | change (c : Change)
  | message (endpointId : Str) (mqttInstance : Nat)

/-- `CacheControllerRoleForCurMsg` for a message received over MQTT: the role to
authorise it with, `none` when the assertion fails. -/
def cacheControllerRoleForCurMsg (slots : Slots) (endpointId : Str) (role : Nat) :
    Option CombinedRole :=
  match getCombinedRoleByEndpointId slots endpointId with
  | none => some ⟨kCTrustRoleUntrusted, invalidRole⟩
  | some combined => if combined.inherited = role then some combined else none
where
  kCTrustRoleUntrusted : Nat := 1

/-- A message cannot come over a connection without a handshake. -/
def runStep (step : RoleStep) (s : State) : Option State :=
  match step with
  | .handshake i role =>
    some { s with
      slots := setRolesFromMqtt i role s.slots
      connections := fun j => if j = i then some role else s.connections j }
  | .change c => (notifyChange c s.slots).map fun slots => { s with slots := slots }
  | .message endpointId i =>
    match s.connections i with
    | none => some s
    | some role =>
      (cacheControllerRoleForCurMsg s.slots endpointId role).map fun combined =>
        { s with curMsgCombinedRole := combined }

/-! ## What a step does to the role in a slot -/

/-- The role that a step writes into a slot: a handshake when the controller is
connected, and the default role when a controller is loaded there. -/
def touch (k : Nat) (s : State) : RoleStep → Option Nat
  | .handshake i role =>
    if (s.slots[k]?.join.any (isConnectedTo i)) = true then some role else none
  | .change (.controllerAdded _ _) => if findUnused s.slots = some k then some roleDefault else none
  | _ => none

/-- The last step that wrote a role into the slot wrote this one. -/
def Standing (steps : List RoleStep) (k role : Nat) : Prop :=
  Since runStep (fun s step => touch k s step = some role) (fun s step => touch k s step ≠ none)
    initialState steps

/-- The role that a slot holds. -/
def inheritedAt (slots : Slots) (k : Nat) : Option Nat :=
  slots[k]?.join.map (·.combinedRole.inherited)

/-- A change that fills no slot leaves the roles in the slots that stay used. -/
def KeepsRoles (slots slots' : Slots) (k : Nat) : Prop :=
  ∀ role, inheritedAt slots' k = some role → inheritedAt slots k = some role

theorem inheritedAt_set (slots : Slots) (k j : Nat) (slot : Option Controller) :
    inheritedAt (slots.set j slot) k =
      if j = k ∧ k < slots.length then slot.map (·.combinedRole.inherited)
      else inheritedAt slots k := by
  unfold inheritedAt
  by_cases hjk : j = k
  · subst hjk
    by_cases hlt : j < slots.length
    · simp [hlt]
    · simp [hlt]
  · simp [hjk, List.getElem?_set_ne]

variable {slots' : Slots} (E : Loading)

theorem keepsRoles_modifyController {slots : Slots} {inst : Nat}
    {f : Controller → Option Controller}
    (hf : ∀ cont cont', f cont = some cont' →
      cont'.combinedRole.inherited = cont.combinedRole.inherited)
    (hmodify : modifyController slots inst f = some slots') (k : Nat) :
    KeepsRoles slots slots' k := by
  simp only [modifyController, bind_eq_some_iff, map_eq_some_iff] at hmodify
  obtain ⟨j, -, cont', ⟨cont, hcont, hcont'⟩, rfl⟩ := hmodify
  intro role hrole
  rw [inheritedAt_set] at hrole
  split at hrole
  · next hj =>
    obtain ⟨rfl, -⟩ := hj
    rw [inheritedAt, hcont]
    simpa [hf cont cont' hcont'] using hrole
  · exact hrole

theorem keepsRoles_modifyMtp {slots : Slots} {inst mtpInst : Nat} {f : Mtp → Option Mtp}
    (hmodify : modifyMtp slots inst mtpInst f = some slots') (k : Nat) :
    KeepsRoles slots slots' k := by
  apply keepsRoles_modifyController _ hmodify
  intro cont cont' hcont
  simp only [bind_eq_some_iff, map_eq_some_iff] at hcont
  obtain ⟨j, -, mtp, -, rfl⟩ := hcont
  rfl

theorem processControllerMtpAdded_inherited (slots : Slots) (cont : Controller) (row : MtpRow) :
    (processControllerMtpAdded E slots cont row).1.combinedRole = cont.combinedRole := by
  unfold processControllerMtpAdded
  cases findUnused cont.mtps with
  | none => rfl
  | some j => rfl

theorem loadMtps_combinedRole (slots : Slots) (k : Nat) (rows : List MtpRow) (cont : Controller) :
    (loadMtps E slots k rows cont).1.combinedRole = cont.combinedRole := by
  induction rows generalizing cont with
  | nil => rfl
  | cons row rows ih =>
    have hrow := processControllerMtpAdded_inherited E (slots.set k (some cont)) cont row
    rw [loadMtps]
    cases hadded : processControllerMtpAdded E (slots.set k (some cont)) cont row with
    | mk cont' err =>
      rw [hadded] at hrow
      cases err with
      | none => exact (ih cont').trans hrow
      | some e =>
        dsimp only
        split
        · exact (ih cont').trans hrow
        · exact hrow

theorem readSettings_inherited {E : Loading} {row : ControllerRow} {cont : Controller}
    (hread : readSettings E row = some cont) : cont.combinedRole.inherited = roleDefault := by
  simp only [readSettings] at hread
  split at hread
  · cases hread
    rfl
  · cases hread

/-- Whatever is left in the slot has the default role. -/
theorem loadController_inherited (slots : Slots) (k : Nat) (row : ControllerRow)
    {cont : Controller} (hslot : (loadController E slots k row).slot = some cont) :
    cont.combinedRole.inherited = roleDefault := by
  rw [loadController] at hslot
  cases hread : readSettings E row with
  | none => simp [hread, Loaded.slot] at hslot
  | some settings =>
    have hsettings := readSettings_inherited hread
    simp only [hread] at hslot
    split at hslot
    · cases hslot
    split at hslot
    · cases hslot
      exact hsettings
    cases hrole : updateAssignedRole E row.assignedRole with
    | error e => simp [hrole, Loaded.slot] at hslot
    | ok role =>
      simp only [hrole] at hslot
      split at hslot
      · cases hslot
      split at hslot
      · cases hslot
        exact hsettings
      have hmtps := loadMtps_combinedRole E slots k row.mtps
        { settings with combinedRole := { settings.combinedRole with assigned := role } }
      cases hload : loadMtps E slots k row.mtps
          { settings with combinedRole := { settings.combinedRole with assigned := role } } with
      | mk loaded err =>
        rw [hload] at hmtps
        simp only [hload] at hslot
        cases err with
        | some e => cases hslot
        | none =>
          simp only [processControllerE2eSessionAdded] at hslot
          split at hslot
          · cases hslot
          split at hslot
          · cases hslot
          · cases hslot
            exact (congrArg CombinedRole.inherited hmtps).trans hsettings

/-- The role in a slot after a change of the configuration. -/
theorem notifyChange_inherited {c : Change} {s : State}
    (hchange : notifyChange c s.slots = some slots') (k : Nat) {role : Nat}
    (hrole : inheritedAt slots' k = some role) :
    (touch k s (.change c)).getD role = role ∧
      (touch k s (.change c) = none → inheritedAt s.slots k = some role) := by
  cases c with
  | controllerAdded E row =>
    simp only [notifyChange, notifyControllerAdded, Option.some.injEq] at hchange
    subst hchange
    rw [processControllerAdded] at hrole
    cases hunused : findUnused s.slots with
    | none =>
      rw [hunused] at hrole
      simpa [touch, hunused] using hrole
    | some j =>
      simp only [hunused, inheritedAt_set] at hrole
      by_cases hjk : j = k
      · subst hjk
        have hlt : j < s.slots.length := (List.findIdx?_eq_some_iff_getElem.mp hunused).1
        rw [if_pos ⟨rfl, hlt⟩, map_eq_some_iff] at hrole
        obtain ⟨cont, hslot, rfl⟩ := hrole
        simp [touch, hunused, loadController_inherited E s.slots j row hslot]
      · rw [if_neg fun h => hjk h.1] at hrole
        simpa [touch, hunused, hjk] using hrole
  | controllerDeleted inst =>
    simp only [notifyChange, notifyControllerDeleted] at hchange
    refine ⟨rfl, fun _ => ?_⟩
    cases hfind : findControllerByInstance s.slots inst with
    | none =>
      simp only [hfind, Option.some.injEq] at hchange
      exact hchange ▸ hrole
    | some j =>
      simp only [hfind, Option.some.injEq] at hchange
      subst hchange
      rw [inheritedAt_set] at hrole
      split at hrole
      · cases hrole
      · exact hrole
  | controllerEnable inst value =>
    refine ⟨rfl, fun _ => keepsRoles_modifyController ?_ hchange k role hrole⟩
    rintro cont cont' ⟨⟩
    rfl
  | controllerEndpointId inst value =>
    refine ⟨rfl, fun _ => keepsRoles_modifyController ?_ hchange k role hrole⟩
    rintro cont cont' ⟨⟩
    rfl
  | controllerAssignedRole E inst value =>
    refine ⟨rfl, fun _ => keepsRoles_modifyController ?_ hchange k role hrole⟩
    intro cont cont' hcont
    split at hcont
    · cases hcont
      rfl
    · cases hcont
      rfl
  | mtpAdded E inst row =>
    simp only [notifyChange, notifyControllerMtpAdded] at hchange
    refine ⟨rfl, fun _ => ?_⟩
    cases hfind : findControllerByInstance s.slots inst with
    | none =>
      simp only [hfind, Option.some.injEq] at hchange
      exact hchange ▸ hrole
    | some j =>
      simp only [hfind] at hchange
      apply keepsRoles_modifyController _ hchange k role hrole
      rintro cont cont' ⟨⟩
      exact congrArg CombinedRole.inherited (processControllerMtpAdded_inherited E s.slots cont row)
  | mtpDeleted inst mtpInst =>
    simp only [notifyChange, notifyControllerMtpDeleted] at hchange
    refine ⟨rfl, fun _ => ?_⟩
    cases hfind : findControllerByInstance s.slots inst with
    | none =>
      simp only [hfind, Option.some.injEq] at hchange
      exact hchange ▸ hrole
    | some j =>
      simp only [hfind] at hchange
      apply keepsRoles_modifyController _ hchange k role hrole
      intro cont cont' hcont
      split at hcont
      · cases hcont
        rfl
      · cases hcont
        rfl
  | mtpEnable inst mtpInst value => exact ⟨rfl, fun _ => keepsRoles_modifyMtp hchange k role hrole⟩
  | mtpProtocol inst mtpInst value =>
    exact ⟨rfl, fun _ => keepsRoles_modifyMtp hchange k role hrole⟩
  | mtpMqttReference E inst mtpInst value stored =>
    simp only [notifyChange, notifyControllerMtpMqttReference] at hchange
    refine ⟨rfl, fun _ => ?_⟩
    cases value with
    | blank => exact (Option.some.inj hchange) ▸ hrole
    | invalid => exact (Option.some.inj hchange) ▸ hrole
    | row n =>
      dsimp only at hchange
      split at hchange
      · exact keepsRoles_modifyMtp hchange k role hrole
      · exact (Option.some.inj hchange) ▸ hrole
  | mtpMqttTopic inst mtpInst value =>
    exact ⟨rfl, fun _ => keepsRoles_modifyMtp hchange k role hrole⟩

theorem inheritedAt_setRolesFromMqtt (i r : Nat) (slots : Slots) (k : Nat) :
    inheritedAt (setRolesFromMqtt i r slots) k =
      if (slots[k]?.join.any (isConnectedTo i)) = true then some r else inheritedAt slots k := by
  simp only [inheritedAt, setRolesFromMqtt, List.getElem?_map]
  rcases slots[k]? with _ | _ | cont
  · rfl
  · rfl
  · by_cases hconnected : isConnectedTo i cont = true
    · simp [hconnected]
    · simp [hconnected]

/-- A step either writes the role that the slot then has, or the slot had it. -/
theorem runStep_inherited {step : RoleStep} {s s' : State} (hstep : runStep step s = some s')
    (k : Nat) {role : Nat} (hrole : inheritedAt s'.slots k = some role) :
    (touch k s step).getD role = role ∧
      (touch k s step = none → inheritedAt s.slots k = some role) := by
  cases step with
  | handshake i r =>
    cases hstep
    rw [inheritedAt_setRolesFromMqtt] at hrole
    by_cases hconnected : (s.slots[k]?.join.any (isConnectedTo i)) = true
    · rw [if_pos hconnected] at hrole
      cases hrole
      simp [touch, hconnected]
    · rw [if_neg hconnected] at hrole
      simpa [touch, hconnected] using hrole
  | change c =>
    simp only [runStep, map_eq_some_iff] at hstep
    obtain ⟨slots', hchange, rfl⟩ := hstep
    exact notifyChange_inherited hchange k hrole
  | message endpointId i =>
    refine ⟨rfl, fun _ => ?_⟩
    simp only [runStep] at hstep
    cases hconnection : s.connections i with
    | none =>
      rw [hconnection] at hstep
      cases hstep
      exact hrole
    | some r =>
      simp only [hconnection, map_eq_some_iff] at hstep
      obtain ⟨combined, -, rfl⟩ := hstep
      exact hrole

/-! ## Runs -/

theorem inheritedAt_noControllers (k : Nat) : inheritedAt noControllers k = none := by
  unfold inheritedAt noControllers
  rw [List.getElem?_replicate]
  split <;> rfl

/-- In every run, the role in a used slot is the one that stands. -/
theorem standing_iff_inherited (steps : List RoleStep) (s : State)
    (hrun : run runStep steps initialState = some s) :
    ∀ k inherited, inheritedAt s.slots k = some inherited →
      ∀ role, Standing steps k role ↔ inherited = role := by
  refine run_induction (I := fun steps s => ∀ k inherited, inheritedAt s.slots k = some inherited →
    ∀ role, Standing steps k role ↔ inherited = role) ?_ ?_ steps s hrun
  · intro k inherited hinherited
    rw [initialState, inheritedAt_noControllers] at hinherited
    cases hinherited
  · intro steps s step s' hrun ih hstep k inherited hinherited role
    obtain ⟨hwritten, hkept⟩ := runStep_inherited hstep k hinherited
    rw [Standing, since_snoc hrun]
    cases htouch : touch k s step with
    | none => simpa [Standing] using ih k inherited (hkept htouch) role
    | some r =>
      have hr : r = inherited := by simpa [htouch] using hwritten
      simp [hr]

theorem getCombinedRoleByEndpointId_eq {slots : Slots} {endpointId : Str} {k : Nat}
    (hfind : findEnabledControllerByEndpointId slots endpointId = some k) :
    ∃ combined, getCombinedRoleByEndpointId slots endpointId = some combined ∧
      inheritedAt slots k = some combined.inherited := by
  obtain ⟨hlt, hfound, -⟩ := List.findIdx?_eq_some_iff_getElem.mp hfind
  obtain ⟨cont, hcont, -⟩ := (Option.any_eq_true _ _).mp hfound
  have hslot : slots[k]? = some (some cont) := by rw [List.getElem?_eq_getElem hlt, hcont]
  refine ⟨cont.combinedRole, ?_, ?_⟩
  · simp [getCombinedRoleByEndpointId, hfind, hslot]
  · simp [inheritedAt, hslot]

/-- In every state of a run, a message of an enabled controller passes the
assertion if and only if the role of its connection is the one that stands for
the controller, and the role it is authorised with is then that of the connection. -/
theorem authorised_iff (steps : List RoleStep) (s : State)
    (hrun : run runStep steps initialState = some s) (endpointId : Str) (k : Nat)
    (hfind : findEnabledControllerByEndpointId s.slots endpointId = some k) (i role : Nat)
    (hconnection : s.connections i = some role) :
    (runStep (.message endpointId i) s ≠ none ↔ Standing steps k role) ∧
      ∀ s', runStep (.message endpointId i) s = some s' →
        s'.curMsgCombinedRole.inherited = role := by
  obtain ⟨combined, hcombined, hinherited⟩ := getCombinedRoleByEndpointId_eq hfind
  rw [standing_iff_inherited steps s hrun k combined.inherited hinherited role]
  simp only [runStep, hconnection, cacheControllerRoleForCurMsg, hcombined]
  by_cases hrole : combined.inherited = role
  · simp [hrole]
  · simp [hrole]

/-! A controller that is added after the handshake of its connection. -/

def readable : Loading := ⟨fun _ _ => true, fun _ => true, fun _ => true, 0, fun _ => true⟩

def firstEndpoint : Str := ['a']
def secondEndpoint : Str := ['b']

def mqttRow : MtpRow := ⟨1, true, .mqtt, .row 1, ['t']⟩

def controllerRow (inst : Nat) (endpointId : Str) (mtps : List MtpRow) : ControllerRow :=
  ⟨inst, true, endpointId, .blank, 0, 86400, 5, 2000, .allow, 0, mtps⟩

/-- The certificate of the server of connection 1 gives the role `Untrusted`. -/
def addedAfterHandshake : List RoleStep :=
  [.change (.controllerAdded readable (controllerRow 1 firstEndpoint [mqttRow])),
    .handshake 1 1,
    .change (.controllerAdded readable (controllerRow 2 secondEndpoint [])),
    .change (.mtpAdded readable 2 mqttRow)]

theorem addedAfterHandshake_runs :
    (run runStep addedAfterHandshake initialState).map (fun s =>
      (s.connections 1, findEnabledControllerByEndpointId s.slots firstEndpoint,
        findEnabledControllerByEndpointId s.slots secondEndpoint,
        (runStep (.message secondEndpoint 1) s).isNone)) =
      some (some 1, some 0, some 1, true) := by
  decide

/-- The second controller sends a message and the agent ends. -/
theorem added_controller_fails_assertion :
    ∃ s, run runStep addedAfterHandshake initialState = some s ∧ s.connections 1 = some 1 ∧
      findEnabledControllerByEndpointId s.slots secondEndpoint = some 1 ∧
      runStep (.message secondEndpoint 1) s = none := by
  obtain ⟨s, hrun, hs⟩ := map_eq_some_iff.mp addedAfterHandshake_runs
  simp only [Prod.mk.injEq, isNone_iff_eq_none] at hs
  exact ⟨s, hrun, hs.1, hs.2.2.1, hs.2.2.2⟩

theorem authorised_iff_first_controller :
    ∃ s, run runStep addedAfterHandshake initialState = some s ∧
      (runStep (.message firstEndpoint 1) s ≠ none ↔ Standing addedAfterHandshake 0 1) := by
  obtain ⟨s, hrun, hs⟩ := map_eq_some_iff.mp addedAfterHandshake_runs
  simp only [Prod.mk.injEq] at hs
  exact ⟨s, hrun, (authorised_iff addedAfterHandshake s hrun firstEndpoint 0 hs.2.1 1 1 hs.1).1⟩

end ControllerRoles
