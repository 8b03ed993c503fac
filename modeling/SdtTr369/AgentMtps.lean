import Mathlib.Logic.Function.Basic
import SdtTr369.ControllerTable
import SdtTr369.RunHistory
import SdtTr369.SlotTable

/-!
# The table of agent MTPs

Each row of `Device.LocalAgent.MTP` is cached in a slot of `agent_mtps`. A commit changes
the rows first and then notifies the component of one operation after the other. A
notification that schedules a reconnect of an MQTT client hands over the response topic
and the QoS as the slots give them at that moment. Only MQTT is compiled in, so a stored
protocol is empty, MQTT or none that is known.
-/

namespace AgentMtps

open UspTypes RunHistory SlotTable
open ControllerTable (MtpProtocol Reference)

def maxAgentMtps : Nat := 5

/-- `MQTT_FALLBACK_QOS`. -/
def qosDefault : Nat := 0

/-- The stored parameters of a row. The protocol is missing when its text is none of
`mtp_protocols`. -/
structure Row where
  enable : Bool
  protocol : Option MtpProtocol
  reference : Reference
  responseTopic : Str
  publishQos : Nat
  deriving DecidableEq

/-- `agent_mtp_t`. -/
structure AgentMtp where
  inst : Nat
  enable : Bool
  protocol : MtpProtocol
  mqttConnectionInstance : Option Nat
  mqttAgentTopic : Str
  mqttPublishQos : Nat
  deriving DecidableEq

abbrev Slots := List (Option AgentMtp)

/-- The stored rows, the MQTT clients with whether each is enabled, `agent_mtps`, what each
client was handed last, and whether an assertion has ended the process. -/
structure State where
  rows : Nat → Option Row
  clients : Nat → Option Bool
  slots : Slots
  handed : Nat → Option Str × Nat
  stopped : Bool

/-- `FindAgentMtpByInstance`. -/
def findAgentMtpByInstance (i : Nat) (slots : Slots) : Option AgentMtp :=
  find AgentMtp.inst i slots

/-- The slot is one that `DEVICE_MTP_GetAgentMqttPublishQos` takes for the client. -/
def serves (client : Nat) (mtp : AgentMtp) : Bool :=
  mtp.enable && mtp.mqttConnectionInstance = some client && mtp.protocol = .mqtt

/-- `DEVICE_MTP_GetAgentMqttResponseTopic`. -/
def getAgentMqttResponseTopic (slots : Slots) (client : Nat) : Option Str :=
  first (fun mtp =>
    if serves client mtp ∧ mtp.mqttAgentTopic ≠ [] then some mtp.mqttAgentTopic else none) slots

/-- `DEVICE_MTP_GetAgentMqttPublishQos`. -/
def getAgentMqttPublishQos (slots : Slots) (client : Nat) : Nat :=
  (first (fun mtp => if serves client mtp then some mtp.mqttPublishQos else none) slots).getD
    qosDefault

def computed (slots : Slots) (client : Nat) : Option Str × Nat :=
  (getAgentMqttResponseTopic slots client, getAgentMqttPublishQos slots client)

/-- `DEVICE_MTP_GetMqttReference` of a stored value: the instance to cache, or no result for an
error. -/
def getMqttReference (clients : Nat → Option Bool) : Reference → Option (Option Nat)
  | .blank => some none
  | .row n => if (clients n).isSome then some (some n) else none
  | .invalid => none

/-- `DEVICE_MQTT_ScheduleReconnect`. -/
def scheduleReconnect (client : Option Nat) (s : State) : State :=
  match client with
  | none => s
  | some c =>
    if s.clients c = some true then
      { s with handed := Function.update s.handed c (computed s.slots c) }
    else s

def setMtp (i : Nat) (mtp : Option AgentMtp) (s : State) : State :=
  { s with slots := replace AgentMtp.inst i mtp s.slots }

/-- A parameter that a Set changes, with its new value. -/
inductive Change
  | enable (value : Bool)
  | protocol (value : MtpProtocol)
  | reference (value : Reference)
  | responseTopic (value : Str)
  | publishQos (value : Nat)

/-- The row stored afterwards. -/
def Change.store (row : Row) : Change → Row
  | .enable value => { row with enable := value }
  | .protocol value => { row with protocol := some value }
  | .reference value => { row with reference := value }
  | .responseTopic value => { row with responseTopic := value }
  | .publishQos value => { row with publishQos := value }

/-- The validators of the parameters: an unknown protocol is none of the values here. -/
def Change.valid (clients : Nat → Option Bool) : Change → Bool
  | .reference value => (getMqttReference clients value).isSome
  | .publishQos value => value ≤ 2
  | _ => true

/-- `ProcessAgentMtpAdded`, up to the slot: no result when a parameter cannot be read or is
none that can be cached. -/
def loadMtp (clients : Nat → Option Bool) (readable : Bool) (i : Nat) (row : Row) :
    Option AgentMtp :=
  if readable then
    row.protocol.bind fun protocol => (getMqttReference clients row.reference).map fun connection =>
      ⟨i, row.enable, protocol, connection, row.responseTopic, row.publishQos⟩
  else none

/-- `Notify_AgentMtpAdded`. A slot whose loading fails is destroyed again. -/
def notifyAdded (i : Nat) (readable : Bool) (s : State) : State :=
  match (s.rows i).bind (loadMtp s.clients readable i) with
  | none => s
  | some mtp =>
    match put mtp s.slots with
    | none => s
    | some slots =>
      let s := { s with slots := slots }
      if mtp.enable ∧ mtp.protocol = .mqtt then scheduleReconnect mtp.mqttConnectionInstance s else s

/-- `Notify_AgentMtpDeleted`. -/
def notifyDeleted (i : Nat) (s : State) : State :=
  match findAgentMtpByInstance i s.slots with
  | none => s
  | some mtp =>
    if mtp.enable = false then s
    else
      let s := if mtp.protocol = .mqtt then scheduleReconnect mtp.mqttConnectionInstance s else s
      setMtp i none s

/-- `NotifyChange_AgentMtpEnable`. It has no case for a row without protocol. -/
def notifyEnable (i : Nat) (value : Bool) (mtp : AgentMtp) (s : State) : State :=
  if value = mtp.enable then s
  else match mtp.protocol with
  | .mqtt =>
    scheduleReconnect mtp.mqttConnectionInstance (setMtp i (some { mtp with enable := value }) s)
  | .none => { s with stopped := true }

/-- `NotifyChange_AgentMtpProtocol`: the reconnect is scheduled before the protocol is cached. -/
def notifyProtocol (i : Nat) (value : MtpProtocol) (mtp : AgentMtp) (s : State) : State :=
  if mtp.protocol = value then s
  else if mtp.enable = false then setMtp i (some { mtp with protocol := value }) s
  else
    setMtp i (some { mtp with protocol := value }) (scheduleReconnect mtp.mqttConnectionInstance s)

/-- `NotifyChange_AgentMtpMqttReference`, which reads the stored value again. -/
def notifyReference (i : Nat) (readable : Bool) (mtp : AgentMtp) (s : State) : State :=
  let read := if readable then (s.rows i).bind fun row => getMqttReference s.clients row.reference
    else none
  match read with
  | none => setMtp i (some { mtp with mqttConnectionInstance := none }) s
  | some connection =>
    let s := setMtp i (some { mtp with mqttConnectionInstance := connection }) s
    if mtp.enable ∧ mtp.protocol = .mqtt ∧ mtp.mqttConnectionInstance ≠ connection then
      scheduleReconnect connection (scheduleReconnect mtp.mqttConnectionInstance s)
    else s

/-- `NotifyChange_AgentMtpMqtt_ResponseTopicConfigured`. -/
def notifyResponseTopic (i : Nat) (value : Str) (mtp : AgentMtp) (s : State) : State :=
  let scheduled := mtp.enable ∧ mtp.protocol = .mqtt ∧ mtp.mqttAgentTopic ≠ value
  let s := setMtp i (some { mtp with mqttAgentTopic := value }) s
  if scheduled then scheduleReconnect mtp.mqttConnectionInstance s else s

/-- `NotifyChange_AgentMtpMQTTPublishQoS`. -/
def notifyPublishQos (i : Nat) (value : Nat) (mtp : AgentMtp) (s : State) : State :=
  let scheduled := mtp.enable ∧ mtp.protocol = .mqtt ∧ mtp.mqttPublishQos ≠ value
  let s := setMtp i (some { mtp with mqttPublishQos := value }) s
  if scheduled then scheduleReconnect mtp.mqttConnectionInstance s else s

/-- The change notifications. Each asserts that the row has a slot. -/
def notifyChanged (i : Nat) (change : Change) (readable : Bool) (s : State) : State :=
  match findAgentMtpByInstance i s.slots with
  | none => { s with stopped := true }
  | some mtp =>
    match change with
    | .enable value => notifyEnable i value mtp s
    | .protocol value => notifyProtocol i value mtp s
    | .reference _ => notifyReference i readable mtp s
    | .responseTopic value => notifyResponseTopic i value mtp s
    | .publishQos value => notifyPublishQos i value mtp s

/-- One operation of a commit, with whether what its notification reads can be read. -/
inductive Op
  | added (i : Nat) (row : Row) (readable : Bool)
  | deleted (i : Nat)
  | changed (i : Nat) (change : Change) (readable : Bool)

/-- The rows after one operation. -/
def Op.store (rows : Nat → Option Row) : Op → Nat → Option Row
  | .added i row _ => Function.update rows i (some row)
  | .deleted i => Function.update rows i none
  | .changed i change _ => Function.update rows i ((rows i).map change.store)

/-- `FindUnusedAgentMtp`, as `ValidateAdd_AgentMtp` asks it. -/
def hasUnusedAgentMtp (slots : Slots) : Bool := slots.any (·.isNone)

/-- The data model carries the operation out: a row added is new and finds a slot unused, one
deleted or changed exists, and a new value passes its validator. -/
def Op.valid (clients : Nat → Option Bool) (slots : Slots) (rows : Nat → Option Row) : Op → Bool
  | .added i _ _ => (rows i).isNone && hasUnusedAgentMtp slots
  | .deleted i => (rows i).isSome
  | .changed i change _ => (rows i).isSome && change.valid clients

/-- The notification of an operation. Nothing runs once an assertion has failed. -/
def notify (op : Op) (s : State) : State :=
  if s.stopped then s
  else match op with
  | .added i _ readable => notifyAdded i readable s
  | .deleted i => notifyDeleted i s
  | .changed i change readable => notifyChanged i change readable s

/-- A request commits operations of one kind: the rows that an Add creates, those that a
Delete removes, or the parameters that a Set changes. -/
inductive Request
  | add (rows : List (Nat × Row × Bool))
  | delete (instances : List Nat)
  | set (changes : List (Nat × Change × Bool))

def Request.ops : Request → List Op
  | .add rows => rows.map fun x => .added x.1 x.2.1 x.2.2
  | .delete instances => instances.map .deleted
  | .set changes => changes.map fun x => .changed x.1 x.2.1 x.2.2

/-- Each operation is carried out on what the one before it left. -/
def opsValid (clients : Nat → Option Bool) (slots : Slots) : (Nat → Option Row) → List Op → Bool
  | _, [] => true
  | rows, op :: ops => op.valid clients slots rows && opsValid clients slots (op.store rows) ops

def notifyStep (op : Op) (s : State) : Option State := some (notify op s)

/-- The state at the database commit. -/
def stored (ops : List Op) (s : State) : State := { s with rows := ops.foldl Op.store s.rows }

/-- A request that is committed; no result when it is refused. -/
def commit (request : Request) (s : State) : Option State :=
  if s.stopped = false ∧ opsValid s.clients s.slots s.rows request.ops then
    run notifyStep request.ops (stored request.ops s)
  else none

end AgentMtps
