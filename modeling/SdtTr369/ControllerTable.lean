import SdtTr369.DataModelRead
import SdtTr369.E2eContext

/-!
# The controllers array

`device_controller.c` keeps a copy of `Device.LocalAgent.Controller.{i}` in an
array of slots. Functions that look for a controller return its slot, where the
source returns a pointer. What the loaders read of the database is a row; a
`Loading` tells which of its parameters can be read and what the references
refer to. STOMP, CoAP and WebSockets are not built in.
-/

namespace ControllerTable

open UspTypes DataModelRead E2eContext

/-- `MAX_CONTROLLERS`. -/
def maxControllers : Nat := 5

/-- `MAX_CONTROLLER_MTPS`. -/
def maxControllerMtps : Nat := 3

/-- `MAX_MQTT_CLIENTS`. -/
def maxMqttClients : Nat := 5

/-- `ROLE_DEFAULT`, which is the role with full access. -/
def roleDefault : Nat := 0

/-- `mtp_protocol_t`. -/
inductive MtpProtocol where
  | none
  | mqtt
  deriving DecidableEq, Repr

/-- The value of a parameter that refers to a row of one table. -/
inductive Reference where
  | blank
  | row (instance_ : Nat)
  | invalid
  deriving DecidableEq, Repr

/-! ## Rows of the database -/

structure MtpRow where
  inst : Nat
  enable : Bool
  protocol : MtpProtocol
  mqttReference : Reference
  mqttTopic : Str
  deriving DecidableEq, Repr

structure ControllerRow where
  inst : Nat
  enable : Bool
  endpointId : Str
  assignedRole : Reference
  periodicNotifTime : Int
  periodicNotifInterval : Nat
  retryMinimumWaitInterval : Nat
  retryIntervalMultiplier : Nat
  sessionMode : SessionMode
  maxUspRecordSize : UInt32
  mtps : List MtpRow
  deriving DecidableEq, Repr

/-- The parameters that the loaders read. -/
inductive Param where
  | enable | endpointId | assignedRole | periodicNotifTime | periodicNotifInterval
  | retryMinimumWaitInterval | retryIntervalMultiplier | sessionMode | maxUspRecordSize
  | mtpInstances
  | mtpEnable (mtp : Nat) | mtpProtocol (mtp : Nat) | mtpMqttReference (mtp : Nat)
  | mtpMqttTopic (mtp : Nat)
  deriving DecidableEq, Repr

/-- What the rest of the agent answers while a row is loaded. -/
structure Loading where
  reads : Nat → Param → Bool
  mqttClients : Nat → Bool
  trustRoles : Nat → Bool
  randomBase : Int
  deletesMtp : Nat → Bool

/-! ## The array -/

/-- `controller_mtp_t`. -/
structure Mtp where
  inst : Nat
  enable : Bool
  protocol : MtpProtocol
  mqttConnectionInstance : Option Nat
  mqttControllerTopic : Option Str
  deriving DecidableEq, Repr

/-- The fields of `e2e_session_t` that a parameter is copied to. -/
structure SessionSettings where
  modeBuffered : SessionMode
  maxRecordSize : UInt32
  deriving DecidableEq, Repr

/-- `controller_t`. -/
structure Controller where
  inst : Nat
  enable : Bool
  endpointId : Str
  mtps : List (Option Mtp)
  periodicBase : Int
  periodicInterval : Nat
  combinedRole : CombinedRole
  session : SessionSettings
  subsRetryMinWaitInterval : Nat
  subsRetryIntervalMultiplier : Nat
  deriving DecidableEq, Repr

abbrev Slots := List (Option Controller)

/-- The array after `DEVICE_CONTROLLER_Init`. -/
def noControllers : Slots := List.replicate maxControllers none

/-- `FindUnusedController` and `FindUnusedControllerMtp`. -/
def findUnused {α : Type} (slots : List (Option α)) : Option Nat := slots.findIdx? (·.isNone)

/-- The loop of the functions that look for an entry. -/
abbrev findSlot {α : Type} (found : α → Bool) (slots : List (Option α)) : Option Nat :=
  slots.findIdx? fun slot => slot.any found

/-- `FindControllerByInstance`. -/
def findControllerByInstance (slots : Slots) (inst : Nat) : Option Nat :=
  findSlot (fun cont => cont.inst = inst) slots

/-- `FindEnabledControllerByEndpointId`. -/
def findEnabledControllerByEndpointId (slots : Slots) (endpointId : Str) : Option Nat :=
  findSlot (fun cont => cont.enable && cont.endpointId = endpointId) slots

/-- `FindControllerMtpByInstance`. -/
def findControllerMtpByInstance (mtps : List (Option Mtp)) (inst : Nat) : Option Nat :=
  findSlot (fun mtp => mtp.inst = inst) mtps

/-- What a change notification does to the controller that it finds; it asserts
that there is one. -/
def modifyController (slots : Slots) (inst : Nat) (f : Controller → Option Controller) :
    Option Slots :=
  (findControllerByInstance slots inst).bind fun k =>
    (slots[k]?.join.bind f).map fun cont => slots.set k (some cont)

/-- The same for the MTP that `FindControllerMtpFromReq` finds. -/
def modifyMtp (slots : Slots) (inst mtpInst : Nat) (f : Mtp → Option Mtp) : Option Slots :=
  modifyController slots inst fun cont =>
    (findControllerMtpByInstance cont.mtps mtpInst).bind fun j =>
      (cont.mtps[j]?.join.bind f).map fun mtp => { cont with mtps := cont.mtps.set j (some mtp) }

/-! ## Validation -/

/-- `ValidateEndpointIdUniqueness`. -/
def validateEndpointIdUniqueness (slots : Slots) (endpointId : Str) (contInstance : Nat) : Bool :=
  slots.reduceOption.all fun cont => cont.inst = contInstance || cont.endpointId ≠ endpointId

/-- `ValidateMtpUniqueness`, for the controller that it finds. -/
def validateMtpUniqueness (protocol : MtpProtocol) (cont : Controller) (mtpInst : Nat) : Bool :=
  cont.mtps.reduceOption.all fun mtp =>
    mtp.inst = mtpInst || !(mtp.enable && mtp.protocol = protocol)

/-- The enabled MTPs that `ValidateMtpResourceAvailable` counts. -/
def countMtps (slots : Slots) (protocol : MtpProtocol) (contInst mtpInst : Nat) : Nat :=
  (slots.reduceOption.map fun cont => cont.mtps.reduceOption.countP fun mtp =>
    mtp.enable && mtp.protocol = protocol && (cont.inst ≠ contInst || mtp.inst ≠ mtpInst)).sum

/-- `ValidateMtpResourceAvailable`. -/
def validateMtpResourceAvailable (slots : Slots) (protocol : MtpProtocol) (contInst mtpInst : Nat) :
    Bool :=
  match protocol with
  | .none => true
  | .mqtt => countMtps slots protocol contInst mtpInst + 1 ≤ maxMqttClients

/-! ## Loading -/

/-- `DEVICE_MTP_GetMqttReference`, behind the reading of the value. -/
def getMqttReference (E : Loading) : Reference → Except Err (Option Nat)
  | .blank => .ok none
  | .row n => if E.mqttClients n then .ok (some n) else .error .invalidValue
  | .invalid => .error .invalidValue

/-- `DEVICE_CTRUST_GetRoleFromInstance`. -/
def getRoleFromInstance (n : Nat) : Nat :=
  if n = 0 ∨ ctrustRoleMax < n then invalidRole else n - 1

/-- `UpdateAssignedRole`; what it returns is the role to store. -/
def updateAssignedRole (E : Loading) : Reference → Except Err Nat
  | .blank => .ok invalidRole
  | .row n =>
    if E.trustRoles n = false then .error .invalidValue
    else if getRoleFromInstance n = invalidRole then .error .invalidValue
    else .ok (getRoleFromInstance n)
  | .invalid => .error .invalidValue

/-- What is left in a slot when loading stops: `destroyed` is an unused slot, and
`kept` one that an early return leaves as it is at that point. -/
inductive Loaded (α : Type) where
  | done (entry : α)
  | destroyed (e : Err)
  | kept (entry : α) (e : Err)

def Loaded.slot {α : Type} : Loaded α → Option α
  | .done entry => some entry
  | .destroyed _ => none
  | .kept entry _ => some entry

/-- `ProcessControllerMtpAdded`, behind the search for an unused slot. The slot
that is being filled counts as its own in the checks. -/
def loadMtp (E : Loading) (slots : Slots) (cont : Controller) (row : MtpRow) : Loaded Mtp :=
  let reads := E.reads cont.inst
  let mtp : Mtp := ⟨row.inst, false, .none, some 0, none⟩
  if reads (.mtpProtocol row.inst) = false then .destroyed .internalError
  else
    let mtp := { mtp with protocol := row.protocol }
    if reads (.mtpEnable row.inst) = false then .destroyed .internalError
    else
      let mtp := { mtp with enable := row.enable }
      if mtp.enable = true ∧ validateMtpUniqueness mtp.protocol cont row.inst = false then
        .kept mtp .valueConflict
      else if mtp.enable = true ∧
          validateMtpResourceAvailable slots mtp.protocol cont.inst row.inst = false then
        .kept mtp .resourcesExceeded
      else if reads (.mtpMqttReference row.inst) = false then .destroyed .internalError
      else match getMqttReference E row.mqttReference with
      | .error e => .destroyed e
      | .ok connection =>
        let mtp := { mtp with mqttConnectionInstance := connection }
        if reads (.mtpMqttTopic row.inst) = false then .kept mtp .internalError
        else .done { mtp with mqttControllerTopic := some row.mqttTopic }

/-- `ProcessControllerMtpAdded`: the controller afterwards, and the error. -/
def processControllerMtpAdded (E : Loading) (slots : Slots) (cont : Controller) (row : MtpRow) :
    Controller × Option Err :=
  match findUnused cont.mtps with
  | none => (cont, some .resourcesExceeded)
  | some j =>
    let loaded := loadMtp E slots cont row
    let err := match loaded with
      | .done _ => none
      | .destroyed e => some e
      | .kept _ e => some e
    ({ cont with mtps := cont.mtps.set j loaded.slot }, err)

/-- The slot of a controller before its parameters are read. -/
def emptyController (inst : Nat) : Controller :=
  ⟨inst, false, [], List.replicate maxControllerMtps none, 0, 0, ⟨roleDefault, roleDefault⟩,
    ⟨.require, 0⟩, 0, 0⟩

/-- `UNKNOWN_TIME`. -/
def unknownTime : Int := -2 ^ 31

/-- `RETRY_WAIT_UseRandomBaseIfUnknownTime`. -/
def useRandomBaseIfUnknownTime (E : Loading) (base : Int) : Int :=
  if base = unknownTime then E.randomBase else base

/-- The parameters that `ProcessControllerAdded` reads up to the check of the
endpoint id; `none` when one of them cannot be read. -/
def readSettings (E : Loading) (row : ControllerRow) : Option Controller :=
  let settings : List Param := [.enable, .periodicNotifTime, .periodicNotifInterval,
    .retryMinimumWaitInterval, .retryIntervalMultiplier, .endpointId]
  if settings.all (E.reads row.inst) then
    some { emptyController row.inst with
      enable := row.enable
      periodicBase := useRandomBaseIfUnknownTime E row.periodicNotifTime
      periodicInterval := row.periodicNotifInterval
      subsRetryMinWaitInterval := row.retryMinimumWaitInterval
      subsRetryIntervalMultiplier := row.retryIntervalMultiplier
      endpointId := row.endpointId }
  else none

/-- The loop over the rows of the MTP table: a row that cannot be loaded is
deleted from the database, and loading goes on when that succeeds. -/
def loadMtps (E : Loading) (slots : Slots) (k : Nat) :
    List MtpRow → Controller → Controller × Option Err
  | [], cont => (cont, none)
  | row :: rows, cont =>
    match processControllerMtpAdded E (slots.set k (some cont)) cont row with
    | (cont, none) => loadMtps E slots k rows cont
    | (cont, some e) =>
      if E.deletesMtp row.inst then loadMtps E slots k rows cont else (cont, some e)

/-- `ProcessControllerE2ESessionAdded`. -/
def processControllerE2eSessionAdded (E : Loading) (row : ControllerRow) (cont : Controller) :
    Loaded Controller :=
  if E.reads row.inst .sessionMode = false then .destroyed .internalError
  else if E.reads row.inst .maxUspRecordSize = false then .destroyed .internalError
  else .done { cont with session := ⟨row.sessionMode, row.maxUspRecordSize⟩ }

/-- `ProcessControllerAdded`, behind the search for an unused slot. A controller
without MTPs is done before its E2E session is initialised. -/
def loadController (E : Loading) (slots : Slots) (k : Nat) (row : ControllerRow) :
    Loaded Controller :=
  match readSettings E row with
  | none => .destroyed .internalError
  | some cont =>
    if validateEndpointIdUniqueness slots cont.endpointId row.inst = false then
      .destroyed .uniqueKeyConflict
    else if E.reads row.inst .assignedRole = false then .kept cont .internalError
    else match updateAssignedRole E row.assignedRole with
    | .error e => .destroyed e
    | .ok role =>
      let cont := { cont with combinedRole := { cont.combinedRole with assigned := role } }
      if E.reads row.inst .mtpInstances = false then .destroyed .internalError
      else if row.mtps = [] then .done cont
      else match loadMtps E slots k row.mtps cont with
      | (_, some e) => .destroyed e
      | (cont, none) => processControllerE2eSessionAdded E row cont

/-- `ProcessControllerAdded`; the error goes to a caller that ignores it. -/
def processControllerAdded (E : Loading) (slots : Slots) (row : ControllerRow) : Slots :=
  match findUnused slots with
  | none => slots
  | some k => slots.set k (loadController E slots k row).slot

/-! ## Change notifications

`none` is a failed assertion. -/

/-- `Notify_ControllerAdded`. -/
def notifyControllerAdded (E : Loading) (row : ControllerRow) (slots : Slots) : Option Slots :=
  some (processControllerAdded E slots row)

/-- `Notify_ControllerDeleted`, less the subscriptions of the controller. -/
def notifyControllerDeleted (inst : Nat) (slots : Slots) : Option Slots :=
  match findControllerByInstance slots inst with
  | none => some slots
  | some k => some (slots.set k none)

/-- `Notify_ControllerEnable`. -/
def notifyControllerEnable (inst : Nat) (value : Bool) (slots : Slots) : Option Slots :=
  modifyController slots inst fun cont => some { cont with enable := value }

/-- `Notify_ControllerEndpointID`. -/
def notifyControllerEndpointId (inst : Nat) (value : Str) (slots : Slots) : Option Slots :=
  modifyController slots inst fun cont => some { cont with endpointId := value }

/-- `Notify_ControllerAssignedRole`. -/
def notifyControllerAssignedRole (E : Loading) (inst : Nat) (value : Reference) (slots : Slots) :
    Option Slots :=
  modifyController slots inst fun cont =>
    match updateAssignedRole E value with
    | .error _ => some cont
    | .ok role => some { cont with combinedRole := { cont.combinedRole with assigned := role } }

/-- `Notify_ControllerMtpAdded`. -/
def notifyControllerMtpAdded (E : Loading) (inst : Nat) (row : MtpRow) (slots : Slots) :
    Option Slots :=
  match findControllerByInstance slots inst with
  | none => some slots
  | some _ =>
    modifyController slots inst fun cont => some (processControllerMtpAdded E slots cont row).1

/-- `Notify_ControllerMtpDeleted`. -/
def notifyControllerMtpDeleted (inst mtpInst : Nat) (slots : Slots) : Option Slots :=
  match findControllerByInstance slots inst with
  | none => some slots
  | some _ =>
    modifyController slots inst fun cont =>
      match findControllerMtpByInstance cont.mtps mtpInst with
      | none => some cont
      | some j => some { cont with mtps := cont.mtps.set j none }

/-- `Notify_ControllerMtpEnable`. -/
def notifyControllerMtpEnable (inst mtpInst : Nat) (value : Bool) (slots : Slots) : Option Slots :=
  modifyMtp slots inst mtpInst fun mtp => some { mtp with enable := value }

/-- `Notify_ControllerMtpProtocol`. -/
def notifyControllerMtpProtocol (inst mtpInst : Nat) (value : MtpProtocol) (slots : Slots) :
    Option Slots :=
  modifyMtp slots inst mtpInst fun mtp => some { mtp with protocol := value }

/-- `Notify_ControllerMtpMqttReference`: a blank value is ignored. `stored` is the
value in the database. -/
def notifyControllerMtpMqttReference (E : Loading) (inst mtpInst : Nat) (value stored : Reference)
    (slots : Slots) : Option Slots :=
  match value with
  | .blank => some slots
  | .invalid => some slots
  | .row n =>
    if E.mqttClients n then
      modifyMtp slots inst mtpInst fun mtp =>
        if E.reads inst (.mtpMqttReference mtpInst) = false then
          some { mtp with mqttConnectionInstance := none }
        else match getMqttReference E stored with
        | .error _ => some { mtp with mqttConnectionInstance := none }
        | .ok _ => some { mtp with mqttConnectionInstance := some n }
    else some slots

/-- `Notify_ControllerMtpMqttTopic`, which compares the topic of an enabled MQTT
MTP with the new one; a NULL topic ends the process there. -/
def notifyControllerMtpMqttTopic (inst mtpInst : Nat) (value : Str) (slots : Slots) :
    Option Slots :=
  modifyMtp slots inst mtpInst fun mtp =>
    if mtp.enable = true ∧ mtp.protocol = .mqtt ∧ mtp.mqttControllerTopic = none then none
    else some { mtp with mqttControllerTopic := some value }

/-! ## Roles -/

/-- The test of the two loops of `DEVICE_CONTROLLER_SetRolesFromMqtt`. -/
def isConnectedTo (mqttInstance : Nat) (cont : Controller) : Bool :=
  cont.enable && cont.mtps.reduceOption.any fun mtp =>
    mtp.enable && mtp.protocol = .mqtt && mtp.mqttConnectionInstance = some mqttInstance

/-- `DEVICE_CONTROLLER_SetRolesFromMqtt`. -/
def setRolesFromMqtt (mqttInstance role : Nat) (slots : Slots) : Slots :=
  slots.map fun slot => slot.map fun cont =>
    if isConnectedTo mqttInstance cont then
      { cont with combinedRole := { cont.combinedRole with inherited := role } }
    else cont

/-- `DEVICE_CONTROLLER_GetCombinedRoleByEndpointId`. -/
def getCombinedRoleByEndpointId (slots : Slots) (endpointId : Str) : Option CombinedRole :=
  (findEnabledControllerByEndpointId slots endpointId).bind fun k =>
    slots[k]?.join.map (·.combinedRole)

end ControllerTable
