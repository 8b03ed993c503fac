import SdtTr369.AgentMtps

/-!
# References to MQTT clients

The rows of `Device.LocalAgent.MTP` and of the controllers' MTP tables refer to rows of
`Device.MQTT.Client`. A commit changes the rows and then notifies the component of one
operation after the other. When a client is deleted, the references found in the slots are
set to the empty string. These Sets are committed in a transaction of their own, after the
notifications of the first one. What the MQTT layer is told is left out.
-/

namespace MqttReferences

open UspTypes RunHistory ControllerTable SlotTable

/-- A row of one of the two MTP tables. -/
inductive RowId
  | agent (i : Nat)
  | controller (c i : Nat)
  deriving DecidableEq

/-- A row of `Device.MQTT.Client`. The agent keeps no serial number: it tells apart the
clients that had the same instance. -/
structure Client where
  inst : Nat
  serial : Nat
  deriving DecidableEq

/-- The rows of the tables, the instances in `mqtt_client_params`, `agent_mtps` and
`controllers`, and whether an assertion has ended the process. `target` is the client that a
Reference was set to last, and `serials` the serial number of the next client. -/
structure State where
  clients : List Client
  mqttClientParams : List Nat
  agentRows : Nat → Option AgentMtps.Row
  agentMtps : AgentMtps.Slots
  controllerRows : Nat × Nat → Option MtpRow
  controllers : Slots
  stopped : Bool
  serials : Nat
  target : RowId → Nat

namespace State

def instances (s : State) : List Nat := s.clients.map Client.inst

/-- The clients as the agent MTPs see them. None counts as enabled: what a reconnect hands
over is left out. -/
def mqttClients (s : State) (n : Nat) : Option Bool := if n ∈ s.instances then some false else none

def serialOf (s : State) (n : Nat) : Nat :=
  ((s.clients.find? (·.inst = n)).map Client.serial).getD 0

/-- What the loaders of the controllers' MTPs are answered. -/
def loading (s : State) (reads : Nat → Param → Bool) : Loading :=
  ⟨reads, fun n => n ∈ s.instances, fun _ => false, 0, fun _ => false⟩

/-- The agent MTPs, without what the clients are handed. -/
def agentMtpState (s : State) : AgentMtps.State :=
  ⟨s.agentRows, s.mqttClients, s.agentMtps, fun _ => (none, AgentMtps.qosDefault), s.stopped⟩

end State

/-- `DM_INST_VECTOR_GetNextInstance`. -/
def getNextInstance (instances : List Nat) : Nat :=
  instances.foldl (fun highest i => if highest < i then i else highest) 0 + 1

/-- A parameter of a controller's MTP that a Set changes. -/
inductive MtpChange
  | enable (value : Bool)
  | protocol (value : MtpProtocol)
  | reference (value : Reference)
  | topic (value : Str)

def MtpChange.store (row : MtpRow) : MtpChange → MtpRow
  | .enable value => { row with enable := value }
  | .protocol value => { row with protocol := value }
  | .reference value => { row with mqttReference := value }
  | .topic value => { row with mqttTopic := value }

/-- One operation of a commit, with what its notification is answered. -/
inductive Op
  | clientAdded (n : Nat) (loads : Bool)
  | clientDeleted (n : Nat)
  | clientChanged (n : Nat)
  | agent (op : AgentMtps.Op)
  | mtpAdded (c : Nat) (row : MtpRow) (reads : Nat → Param → Bool)
  | mtpDeleted (c i : Nat)
  | mtpChanged (c i : Nat) (change : MtpChange) (reads : Nat → Param → Bool)

namespace Op

/-- The Reference that the operation stores. -/
def reference : Op → Option (RowId × Reference)
  | .agent (.added i row _) => some (.agent i, row.reference)
  | .agent (.changed i (.reference value) _) => some (.agent i, value)
  | .mtpAdded c row _ => some (.controller c row.inst, row.mqttReference)
  | .mtpChanged c i (.reference value) _ => some (.controller c i, value)
  | _ => none

/-- The rows after one operation. -/
def storeRows (op : Op) (s : State) : State :=
  match op with
  | .clientAdded n _ =>
    { s with clients := s.clients ++ [⟨n, s.serials⟩], serials := s.serials + 1 }
  | .clientDeleted n => { s with clients := s.clients.filter (·.inst ≠ n) }
  | .clientChanged _ => s
  | .agent op => { s with agentRows := op.store s.agentRows }
  | .mtpAdded c row _ =>
    { s with controllerRows := Function.update s.controllerRows (c, row.inst) (some row) }
  | .mtpDeleted c i => { s with controllerRows := Function.update s.controllerRows (c, i) none }
  | .mtpChanged c i change _ =>
    { s with
      controllerRows := Function.update s.controllerRows (c, i)
        ((s.controllerRows (c, i)).map change.store) }

def store (op : Op) (s : State) : State :=
  match op.reference with
  | some (r, .row n) =>
    { op.storeRows s with target := Function.update s.target r (s.serialOf n) }
  | _ => op.storeRows s

/-- A client added takes the next instance and finds one of `mqtt_client_params` unused, and
`ValidateAdd_ControllerMtp` finds the controller and an unused slot. The other rows exist. -/
def validRow (s : State) : Op → Bool
  | .clientAdded n _ =>
    n = getNextInstance s.instances && s.mqttClientParams.length < maxMqttClients
  | .clientDeleted n | .clientChanged n => n ∈ s.instances
  | .agent op => op.valid s.mqttClients s.agentMtps s.agentRows
  | .mtpAdded c row _ => (s.controllerRows (c, row.inst)).isNone &&
    (find Controller.inst c s.controllers).any fun cont => (findUnused cont.mtps).isSome
  | .mtpDeleted c i | .mtpChanged c i _ _ => (s.controllerRows (c, i)).isSome

/-- The data model carries the operation out. Of the validators of parameters only
`DEVICE_MTP_ValidateMqttReference` matters here. -/
def valid (s : State) (op : Op) : Bool :=
  op.validRow s &&
    op.reference.all fun x => (AgentMtps.getMqttReference s.mqttClients x.2).isSome

end Op

/-- Each operation is carried out on what the one before it left. -/
def opsValid : List Op → State → Bool
  | [], _ => true
  | op :: ops, s => op.valid s && opsValid ops (op.store s)

section Notifications

/-- `DATA_MODEL_SetParameterValue` by a notification, in the cascaded transaction. -/
def setParameterValue (op : Op) (x : State × List Op) : State × List Op :=
  if op.valid x.1 then (op.store x.1, x.2 ++ [op]) else x

/-- The Sets of `DEVICE_CONTROLLER_NotifyMqttConnDeleted`. -/
def controllerUnpicks (n : Nat) (controllers : Slots) : List Op :=
  controllers.reduceOption.flatMap fun cont => cont.mtps.reduceOption.filterMap fun mtp =>
    if mtp.protocol = .mqtt ∧ mtp.mqttConnectionInstance = some n then
      some (.mtpChanged cont.inst mtp.inst (.reference .blank) fun _ _ => true)
    else none

/-- The Sets of `DEVICE_MTP_NotifyMqttConnDeleted`. -/
def agentUnpicks (n : Nat) (agentMtps : AgentMtps.Slots) : List Op :=
  agentMtps.reduceOption.filterMap fun mtp =>
    if mtp.protocol = .mqtt ∧ mtp.mqttConnectionInstance = some n then
      some (.agent (.changed mtp.inst (.reference .blank) true))
    else none

/-- `Notify_MqttClientDeleted`. -/
def notifyMqttClientDeleted (n : Nat) (x : State × List Op) : State × List Op :=
  if n ∈ x.1.mqttClientParams then
    (controllerUnpicks n x.1.controllers ++ agentUnpicks n x.1.agentMtps).foldl
      (fun x op => setParameterValue op x)
      ({ x.1 with mqttClientParams := x.1.mqttClientParams.erase n }, x.2)
  else x

def notifyAgent (op : AgentMtps.Op) (s : State) : State :=
  { s with
    agentMtps := (AgentMtps.notify op s.agentMtpState).slots
    stopped := (AgentMtps.notify op s.agentMtpState).stopped }

/-- A notification of a controller's MTP, where no result is a failed assertion. -/
def notifyController (f : Slots → Option Slots) (s : State) : State :=
  match f s.controllers with
  | none => { s with stopped := true }
  | some slots => { s with controllers := slots }

def notifyMtpChange (c i : Nat) (change : MtpChange) (reads : Nat → Param → Bool) (s : State) : State :=
  match change with
  | .enable value => notifyController (notifyControllerMtpEnable c i value) s
  | .protocol value => notifyController (notifyControllerMtpProtocol c i value) s
  | .reference value =>
    match s.controllerRows (c, i) with
    | none => s
    | some row => notifyController
        (notifyControllerMtpMqttReference (s.loading reads) c i value row.mqttReference) s
  | .topic value => notifyController (notifyControllerMtpMqttTopic c i value) s

/-- The notification of an operation, with the Sets it adds to the cascaded transaction.
Nothing runs once an assertion has failed. -/
def notify (op : Op) (x : State × List Op) : State × List Op :=
  if x.1.stopped then x
  else match op with
  | .clientAdded n loads =>
    if loads then ({ x.1 with mqttClientParams := x.1.mqttClientParams ++ [n] }, x.2) else x
  | .clientDeleted n => notifyMqttClientDeleted n x
  | .clientChanged _ => x
  | .agent op => (notifyAgent op x.1, x.2)
  | .mtpAdded c row reads =>
    match x.1.controllerRows (c, row.inst) with
    | none => x
    | some values =>
      (notifyController
        (notifyControllerMtpAdded (x.1.loading reads) c { values with inst := row.inst }) x.1, x.2)
  | .mtpDeleted c i => (notifyController (notifyControllerMtpDeleted c i) x.1, x.2)
  | .mtpChanged c i change reads => (notifyMtpChange c i change reads x.1, x.2)

end Notifications

inductive Kind
  | add
  | delete
  | set
  deriving DecidableEq

def Op.kind : Op → Kind
  | .clientAdded _ _ | .agent (.added _ _ _) | .mtpAdded _ _ _ => .add
  | .clientDeleted _ | .agent (.deleted _) | .mtpDeleted _ _ => .delete
  | .clientChanged _ | .agent (.changed _ _ _) | .mtpChanged _ _ _ _ => .set

/-- A request commits operations of one kind. -/
structure Request where
  kind : Kind
  ops : List Op

def notifyStep (op : Op) (x : State × List Op) : Option (State × List Op) := some (notify op x)

/-- The state at the database commit. -/
def stored (ops : List Op) (s : State) : State := ops.foldl (fun s op => op.store s) s

/-- A request that is committed, and then its cascaded transaction, whose Sets add no further
ones. No result when the request is refused. -/
def commit (request : Request) (s : State) : Option State :=
  if s.stopped = false ∧ request.ops.all (·.kind = request.kind) ∧ opsValid request.ops s then
    (run notifyStep request.ops (stored request.ops s, [])).bind fun x =>
      (run notifyStep x.2 (x.1, [])).map (·.1)
  else none

end MqttReferences
