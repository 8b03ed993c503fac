import SdtTr369.BoundedQueue
import SdtTr369.MqttSession
import SdtTr369.OperationArgs

/-!
# The message queue of the data model thread

The functions of `dm_exec.c` that post to the queue, the data model thread that processes
one message at a time, and the MQTT and bulk data threads as far as they post and exit.
The queue is that of a process in which `DM_EXEC_Init` has succeeded. A step of the MQTT
thread posts what the client of the step hands to the data model thread.
-/

namespace DmExec

open UspTypes UspRecord DataModelRead ControllerTable MqttClient MqttCallbacks MqttThread
  MqttSession BoundedQueue
open E2eContext (E2eEvent)
open OperationArgs (Args)

/-! ## Messages -/

/-- `bdc_transfer_result_t`. -/
inductive BdcTransferResult where
  | success
  | failureDns
  | failureAuth
  | failureConnect
  | failureReadWrite
  | failureTimeout
  | failureOther
  deriving DecidableEq, Repr

/-- `dm_exec_msg_t`. -/
inductive Msg where
  | operComplete (inst : Int) (errCode : Nat) (errMsg : Option Str) (outputArgs : Option Args)
  | operStatus (inst : Int) (status : Str)
  | eventComplete (eventName : Option Str) (outputArgs : Option Args)
  | objAdded (path : Str)
  | objDeleted (path : Str)
  | processUspRecord (pbuf : Bytes) (role : Nat) (inst : Int) (replyTo : Option Str)
  | mtpThreadExited (flags : Nat)
  | bdcTransferResult (profileId : Int) (transferResult : BdcTransferResult)
  | mqttHandshakeComplete (inst : Int) (role : Nat) (version : ProtocolVer) (topic : Option Str)
  | e2eSessionEvent (event : E2eEvent) (requestInstance controllerInstance : Int)
  deriving DecidableEq, Repr

abbrev MsgQueue (capacity : Nat) := Queue Msg capacity

variable {capacity : Nat}

/-- `MQTT_EXITED`. -/
def mqttExited : Nat := 4

/-- `BDC_EXITED`. -/
def bdcExited : Nat := 8

/-- `all_mtp_exited` for the threads of this build. -/
def allMtpExited : Nat := mqttExited ||| bdcExited

/-! ## Posting -/

/-- The flags of a `send`: zero and `MSG_DONTWAIT`. -/
inductive SendFlags where
  | wait
  | dontWait
  deriving DecidableEq, Repr

/-- `BLOCK_UNLESS_DM_THREAD`. -/
def blockUnlessDmThread (onDmThread : Bool) : SendFlags := if onDmThread then .dontWait else .wait

def uspErrOk : Nat := 0

/-- `send` on `mq_tx_socket`, in a function that returns an error code. `none` while the
caller waits for room. -/
def send (flags : SendFlags) (msg : Msg) (q : MsgQueue capacity) : Option (Nat × MsgQueue capacity) :=
  if flags = .wait ∧ q.waiting.length = capacity then none
  else some (if (q.offer msg).1 then uspErrOk else uspErrInternalError, (q.offer msg).2)

/-- `send` with `MSG_DONTWAIT`, in a function that returns nothing and logs a failure. -/
def post (msg : Msg) (q : MsgQueue capacity) : MsgQueue capacity := (q.offer msg).2

/-- `USP_SIGNAL_OperationComplete`. -/
def uspSignalOperationComplete (onDmThread : Bool) (inst : Int) (errCode : Nat)
    (errMsg : Option Str) (outputArgs : Option Args) (q : MsgQueue capacity) :
    Option (Nat × MsgQueue capacity) :=
  if errCode = uspErrOk ∧ errMsg.isSome ∨ errCode ≠ uspErrOk ∧ errMsg.isNone then
    some (uspErrInternalError, q)
  else send (blockUnlessDmThread onDmThread) (.operComplete inst errCode errMsg outputArgs) q

/-- `USP_SIGNAL_DataModelEvent`. -/
def uspSignalDataModelEvent (onDmThread : Bool) (eventName : Option Str)
    (outputArgs : Option Args) (q : MsgQueue capacity) : Option (Nat × MsgQueue capacity) :=
  send (blockUnlessDmThread onDmThread) (.eventComplete eventName outputArgs) q

/-- A signal about a text, which may not be a null pointer. -/
def signalText (onDmThread : Bool) (msg : Str → Msg) (text : Option Str) (q : MsgQueue capacity) :
    Option (Nat × MsgQueue capacity) :=
  match text with
  | none => some (uspErrInternalError, q)
  | some text => send (blockUnlessDmThread onDmThread) (msg text) q

/-- `USP_SIGNAL_OperationStatus`. -/
def uspSignalOperationStatus (onDmThread : Bool) (inst : Int) :
    Option Str → MsgQueue capacity → Option (Nat × MsgQueue capacity) :=
  signalText onDmThread (.operStatus inst)

/-- `USP_SIGNAL_ObjectAdded`. -/
def uspSignalObjectAdded (onDmThread : Bool) :
    Option Str → MsgQueue capacity → Option (Nat × MsgQueue capacity) :=
  signalText onDmThread .objAdded

/-- `USP_SIGNAL_ObjectDeleted`. -/
def uspSignalObjectDeleted (onDmThread : Bool) :
    Option Str → MsgQueue capacity → Option (Nat × MsgQueue capacity) :=
  signalText onDmThread .objDeleted

/-- `DM_EXEC_NotifyBdcTransferResult`, which only the bulk data thread calls. -/
def notifyBdcTransferResult (profileId : Int) (transferResult : BdcTransferResult)
    (q : MsgQueue capacity) : Option (Nat × MsgQueue capacity) :=
  send .wait (.bdcTransferResult profileId transferResult) q

/-- `DM_EXEC_PostE2eEvent`. -/
def postE2eEvent (event : E2eEvent) (requestInstance controllerInstance : Int)
    (q : MsgQueue capacity) : Option (Nat × MsgQueue capacity) :=
  if controllerInstance ≤ 0 then some (uspErrInternalError, q)
  else send .dontWait (.e2eSessionEvent event requestInstance controllerInstance) q

/-- `DM_EXEC_PostUspRecord`. -/
def postUspRecord (pbuf : Bytes) (role : Nat) (inst : Int) (replyTo : Option Str) :
    MsgQueue capacity → MsgQueue capacity :=
  post (.processUspRecord pbuf role inst replyTo)

/-- `DM_EXEC_PostMqttHandshakeComplete`. -/
def postMqttHandshakeComplete (inst : Int) (version : ProtocolVer) (topic : Option Str)
    (role : Nat) : MsgQueue capacity → MsgQueue capacity :=
  post (.mqttHandshakeComplete inst role version topic)

/-- `DM_EXEC_PostMtpThreadExited`. -/
def postMtpThreadExited (flags : Nat) : MsgQueue capacity → MsgQueue capacity :=
  post (.mtpThreadExited flags)

/-- The function that posts such a message returns an error code. -/
def answers : Msg → Bool
  | .processUspRecord .. | .mtpThreadExited _ | .mqttHandshakeComplete .. => false
  | _ => true

/-- A call, from any thread, of a function that returns an error code. -/
inductive Signal where
  | operationComplete (onDmThread : Bool) (inst : Int) (errCode : Nat) (errMsg : Option Str)
      (outputArgs : Option Args)
  | dataModelEvent (onDmThread : Bool) (eventName : Option Str) (outputArgs : Option Args)
  | operationStatus (onDmThread : Bool) (inst : Int) (status : Option Str)
  | objectAdded (onDmThread : Bool) (path : Option Str)
  | objectDeleted (onDmThread : Bool) (path : Option Str)
  | e2eEvent (event : E2eEvent) (requestInstance controllerInstance : Int)

def Signal.call (signal : Signal) (q : MsgQueue capacity) : Option (Nat × MsgQueue capacity) :=
  match signal with
  | .operationComplete onDmThread inst errCode errMsg outputArgs =>
    uspSignalOperationComplete onDmThread inst errCode errMsg outputArgs q
  | .dataModelEvent onDmThread eventName outputArgs =>
    uspSignalDataModelEvent onDmThread eventName outputArgs q
  | .operationStatus onDmThread inst status => uspSignalOperationStatus onDmThread inst status q
  | .objectAdded onDmThread path => uspSignalObjectAdded onDmThread path q
  | .objectDeleted onDmThread path => uspSignalObjectDeleted onDmThread path q
  | .e2eEvent event requestInstance controllerInstance =>
    postE2eEvent event requestInstance controllerInstance q

/-- What the MQTT thread posts at an event. -/
def postEvent (e : Event) (q : MsgQueue capacity) : MsgQueue capacity :=
  match e with
  | .handshakeComplete inst version topic role => postMqttHandshakeComplete inst version topic role q
  | .uspRecord pbuf role inst replyTo => postUspRecord pbuf role inst replyTo q
  | _ => q

/-! ## Processing -/

/-- What the data model thread calls for a message. The calls for an object go on to
`DEVICE_SUBSCRIPTION_NotifyObjectLifeEvent` where the object is in the schema. -/
inductive Call where
  | handleBinaryRecord (pbuf : Bytes) (role : Nat) (inst : Int) (replyTo : Option Str)
  | queueMqttConnectRecord (inst : Int) (version : ProtocolVer) (topic : Option Str)
  | setRolesFromMqtt (inst : Int) (role : Nat)
  | enableNotifications
  | operationComplete (inst : Int) (errCode : Nat) (errMsg : Option Str) (outputArgs : Option Args)
  | processAllEventCompleteSubscriptions (eventName : Option Str) (outputArgs : Option Args)
  | updateOperationStatus (inst : Int) (status : Str)
  | notifyInstanceAdded (path : Str)
  | notifyInstanceDeleted (path : Str)
  | notifyTransferResult (profileId : Int) (transferResult : BdcTransferResult)
  | e2eSessionEvent (event : E2eEvent) (requestInstance controllerInstance : Int)
  deriving DecidableEq, Repr

/-- The cases of `ProcessMessageQueueSocketActivity`. -/
def callsOf : Msg → List Call
  | .processUspRecord pbuf role inst replyTo => [.handleBinaryRecord pbuf role inst replyTo]
  | .mqttHandshakeComplete inst role version topic =>
    [.queueMqttConnectRecord inst version topic, .setRolesFromMqtt inst role, .enableNotifications]
  | .operComplete inst errCode errMsg outputArgs =>
    [.operationComplete inst errCode errMsg outputArgs]
  | .eventComplete eventName outputArgs =>
    [.processAllEventCompleteSubscriptions eventName outputArgs]
  | .operStatus inst status => [.updateOperationStatus inst status]
  | .objAdded path => [.notifyInstanceAdded path]
  | .objDeleted path => [.notifyInstanceDeleted path]
  | .mtpThreadExited _ => []
  | .bdcTransferResult profileId transferResult => [.notifyTransferResult profileId transferResult]
  | .e2eSessionEvent event requestInstance controllerInstance =>
    [.e2eSessionEvent event requestInstance controllerInstance]

/-- A thread that is asked to exit posts its flag; one aborts without it when `select`
fails. -/
inductive ThreadState where
  | running
  | exited
  | aborted
  deriving DecidableEq, Repr

structure Threads (capacity : Nat) where
  queue : MsgQueue capacity
  /-- The messages of the calls that returned `USP_ERR_OK`. -/
  acknowledged : List Msg
  cumulativeMtpThreadsExited : Nat
  isNotificationsEnabled : Bool
  /-- `DM_EXEC_HandleScheduledExit` has been called, which ends the process. -/
  scheduledExit : Bool
  mqtt : Mqtt
  mqttThread : ThreadState
  mtpExitScheduled : ScheduledAction
  bdcThread : ThreadState
  bdcExitScheduled : Bool

/-- At the start of `DM_EXEC_Main`, where `enabledConnections` are counted. -/
def initDmExec (capacity enabledConnections : Nat) : Threads capacity where
  queue := .empty
  acknowledged := []
  cumulativeMtpThreadsExited := 0
  isNotificationsEnabled := enabledConnections = 0
  scheduledExit := false
  mqtt := initMqtt
  mqttThread := .running
  mtpExitScheduled := .off
  bdcThread := .running
  bdcExitScheduled := false

variable (s : Threads capacity)

/-- What the data model thread has called for messages so far. -/
def Threads.calls : List Call := s.queue.taken.flatMap callsOf

/-- What `ProcessMessageQueueSocketActivity` does to the state of the module. -/
def processMessage (msg : Msg) : Threads capacity :=
  match msg with
  | .mqttHandshakeComplete .. => { s with isNotificationsEnabled := true }
  | .mtpThreadExited flags =>
    let flags := s.cumulativeMtpThreadsExited ||| flags
    { s with cumulativeMtpThreadsExited := flags, scheduledExit := flags = allMtpExited }
  | _ => s

/-- `ProcessMessageQueueSocketActivity`. -/
def receive : Option (Threads capacity) :=
  s.queue.take.map fun (msg, q) => processMessage { s with queue := q } msg

/-- A function that returns an error code was called. -/
def takeAnswer (res : Nat × MsgQueue capacity) : Threads capacity :=
  { s with
    queue := res.2
    acknowledged := s.acknowledged ++
      if res.1 = uspErrOk then (res.2.offers.drop s.queue.offers.length).map Offer.msg else [] }

/-! ## The MQTT thread -/

/-- The step is one of the MQTT thread, not a request of the data model thread. -/
def isMtpStep : MqttThread.Step → Bool
  | .startUpdate | .update _ | .startProcess | .loop _ | .connectDone .. | .callback .. | .reconnect _
  | .close _ | .disconnected _ => true
  | _ => false

/-- What is logged for the slots in a step. -/
def loggedEvents (m m' : Mqtt) : List Event :=
  (m.clients.zip m'.clients).flatMap fun (c, c') => newEvents c c'

/-- A step of the MQTT clients. After the exit of the thread there is no client to be
found for a request. -/
def mqttStep (step : MqttThread.Step) : Option (Threads capacity) :=
  if s.mqttThread ≠ .running ∧ isMtpStep step then none
  else if s.mqttThread = .exited then some s
  else (MqttThread.step step s.mqtt).map fun m =>
    { s with mqtt := m, queue := (loggedEvents s.mqtt m).foldl (fun q e => postEvent e q) s.queue }

/-- `MQTT_AreAllResponsesSent`. -/
def areAllResponsesSent (m : Mqtt) : Bool :=
  m.clients.all fun c => c.connParams.inst = invalid || c.queue = []

/-- A slot after the `memset` in `MQTT_Destroy`. -/
def destroyedClient : Client :=
  let params := { destroyedConnParams with inst := 0 }
  let sub : Subscription := ⟨0, 0, none, false, 0, .unsubscribed⟩
  { initClient with
    connParams := params
    nextParams := params
    subscriptions := List.replicate maxMqttSubscriptions sub
    responseSubscription := sub
    role := 0 }

/-- `MQTT_Destroy`. -/
def destroyedMqtt : Mqtt := ⟨List.replicate maxMqttClients destroyedClient, .select⟩

/-- The end of a turn of `MTP_EXEC_MqttMain` when an exit is scheduled. -/
def mqttExit : Option (Threads capacity) :=
  if s.mqttThread = .running ∧ s.mqtt.pc = .select ∧ s.mtpExitScheduled = .activated ∧
      areAllResponsesSent s.mqtt then
    some { s with
      mqtt := destroyedMqtt
      mqttThread := .exited
      queue := postMtpThreadExited mqttExited s.queue }
  else none

/-- `MTP_EXEC_MqttMain` returns after `select` has failed. -/
def mqttAbort : Option (Threads capacity) :=
  if s.mqttThread = .running ∧ s.mqtt.pc = .select then some { s with mqttThread := .aborted }
  else none

/-- `MTP_EXEC_ScheduleExit`. -/
def scheduleExit : Threads capacity := { s with mtpExitScheduled := .signalled }

/-- The part of `MTP_EXEC_ActivateScheduledActions` about the exit. -/
def activateExit : Threads capacity :=
  if s.mqttThread ≠ .exited ∧ s.mtpExitScheduled = .signalled then
    { s with mtpExitScheduled := .activated }
  else s

/-! ## The bulk data thread -/

/-- `BDC_EXEC_Main` reads the message of `BDC_EXEC_ScheduleExit`. -/
def bdcScheduleExit : Option (Threads capacity) :=
  if s.bdcThread = .running then some { s with bdcExitScheduled := true } else none

/-- The exit of `BDC_EXEC_Main` when one is scheduled. -/
def bdcExit : Option (Threads capacity) :=
  if s.bdcThread = .running ∧ s.bdcExitScheduled then
    some { s with bdcThread := .exited, queue := postMtpThreadExited bdcExited s.queue }
  else none

/-- `BDC_EXEC_Main` returns after `select` or `curl_multi_init` has failed. -/
def bdcAbort : Option (Threads capacity) :=
  if s.bdcThread = .running then some { s with bdcThread := .aborted } else none

def bdcTransferResult (profileId : Int) (transferResult : BdcTransferResult) :
    Option (Threads capacity) :=
  if s.bdcThread = .running then
    (notifyBdcTransferResult profileId transferResult s.queue).map (takeAnswer s)
  else none

/-! ## Steps -/

inductive Step where
  | signal (signal : Signal)
  | receive
  | mqtt (step : MqttThread.Step)
  | mqttExit
  | mqttAbort
  | scheduleExit
  | activateExit
  | bdcTransferResult (profileId : Int) (transferResult : BdcTransferResult)
  | bdcScheduleExit
  | bdcExit
  | bdcAbort

/-- A step of one of the threads; `none` where it cannot be taken now, or the process has
ended. -/
def step (i : Step) (s : Threads capacity) : Option (Threads capacity) :=
  if s.scheduledExit then none
  else
    match i with
    | .signal signal => (signal.call s.queue).map (takeAnswer s)
    | .receive => receive s
    | .mqtt step => mqttStep s step
    | .mqttExit => mqttExit s
    | .mqttAbort => mqttAbort s
    | .scheduleExit => some (scheduleExit s)
    | .activateExit => some (activateExit s)
    | .bdcTransferResult profileId transferResult => bdcTransferResult s profileId transferResult
    | .bdcScheduleExit => bdcScheduleExit s
    | .bdcExit => bdcExit s
    | .bdcAbort => bdcAbort s

end DmExec
