import SdtTr369.CBuffers
import SdtTr369.MqttThread
import SdtTr369.MutexPrograms

/-!
# The mutex of the MQTT MTP

The functions of `mqtt.c` that other components and libmosquitto call, each with the calls
on `mqtt_access_mutex` that its paths make. libmosquitto calls back only from
`mosquitto_connect` and from its three loop functions, and gives the callbacks a pointer to
the instance number of the slot.
-/

namespace MqttMutex

open UspTypes UspRecord ControllerTable EffectProgram MutexPrograms
open MqttClient (Client Answers Subscription ConnParams CertChain MtpContentType invalid lacksTopic
  emptyTopic)
open MqttCallbacks (Callback ConnackProps Message)
open MqttThread (findMqttClientByInstance findUnusedMqttClient reconnectTest closeTest
  disconnectTest)

/-- What the mutex protects. -/
structure Mtp where
  clients : List Client
  isMqttMtpThreadExited : Bool

abbrev Call (α : Type) : Type := Act Mtp α

def findClient (inst : Int) : Call (Option Nat) :=
  get fun m => findMqttClientByInstance inst m.clients

def clientAt (i : Nat) : Call (Option Client) := get fun m => m.clients[i]?

/-- A function of one client; `none` is a failed assertion. -/
def onClient {α : Type} (i : Nat) (f : Client → Option (α × Client)) : Call α :=
  tryModify fun m => (m.clients[i]?.bind f).map fun r =>
    (r.1, { m with clients := m.clients.set i r.2 })

def changeClient (i : Nat) (f : Client → Client) : Call Unit :=
  modify fun m => { m with clients := m.clients.modify i f }

/-- The code at the label `exit`. -/
def exitWith {α : Type} (a : α) : Call α := do
  release
  pure a

/-- The code of a function whose flag tells that it succeeds. -/
def returnCode (ok : Bool) : Except Err Unit := if ok then .ok () else .error .internalError

/-! ## The API -/

/-- `MQTT_Start`; `sslCtxNew` tells for which slots there is a context. -/
def start (sslCtxNew : Nat → Bool) : Call (Except Err Unit) := do
  acquire
  exitWith (returnCode ((List.range maxMqttClients).all sslCtxNew))

/-- `MQTT_EnableClient`. The subscriptions are looked at before the mutex is taken. -/
def enableClient (A : Answers) (p : ConnParams) (subscriptions : List Subscription) :
    Call (Except Err Unit) :=
  if subscriptions.any lacksTopic then exitWith (.error .internalError)
  else do
    acquire
    match ← get fun m => (findMqttClientByInstance p.inst m.clients).or
      (findUnusedMqttClient m.clients) with
    | none => exitWith (.error .internalError)
    | some i => do
      let ok ← onClient i fun c => some (MqttClient.enableClient A p subscriptions c)
      exitWith (returnCode ok)

/-- `MQTT_DisableClient`. -/
def disableClient (inst : Int) : Call (Except Err Unit) := do
  acquire
  match ← findClient inst with
  | none => exitWith (.error .internalError)
  | some i => do
    changeClient i MqttClient.disableClient
    exitWith (.ok ())

/-- `MQTT_QueueBinaryMessage`. -/
def queueBinaryMessage (inst : Int) (contentType : MtpContentType) (pbuf : Bytes)
    (topic : Option Str) : Call (Except Err Unit) := do
  acquire
  if ← get Mtp.isMqttMtpThreadExited then
    release
    pure (.ok ())
  else
    match ← findClient inst with
    | none => exitWith (.error .internalError)
    | some i => do
      let ok ← onClient i fun c => some (MqttClient.queueBinaryMessage contentType pbuf topic c)
      exitWith (returnCode ok)

/-- `MQTT_ScheduleReconnect`. -/
def scheduleReconnect (p : ConnParams) : Call Unit := do
  acquire
  if ← get Mtp.isMqttMtpThreadExited then release
  else
    match ← findClient p.inst with
    | none => exitWith ()
    | some i => do
      changeClient i (MqttClient.scheduleReconnect p)
      exitWith ()

/-- `MQTT_ActivateScheduledActions`. -/
def activateScheduledActions : Call Unit := do
  acquire
  if ← get Mtp.isMqttMtpThreadExited then release
  else
    modify fun m => { m with clients := m.clients.map MqttClient.activateScheduledActions }
    release

/-- `mtp_status_t`. -/
inductive MtpStatus where
  | error
  | up
  | down
  deriving DecidableEq, Repr

def mtpStatus (c : Client) : MtpStatus :=
  match c.state with
  | .running => .up
  | .errorRetrying => .error
  | .idle | .sendingConnect | .awaitingConnect | .awaitingDisconnect => .down

/-- `MQTT_GetMtpStatus`. -/
def getMtpStatus (inst : Int) : Call MtpStatus := do
  acquire
  match ← get fun m => m.clients.find? (·.connParams.inst = inst) with
  | none => exitWith .error
  | some c => exitWith (mtpStatus c)

def clientStatus (c : Client) : Str :=
  match c.state with
  | .sendingConnect | .awaitingConnect => "Connecting".toList
  | .running => "Connected".toList
  | .errorRetrying =>
    match c.failureCode with
    | .misconfigured => "Error_Misconfigured".toList
    | .connect => "Error_BrokerUnreachable".toList
    | _ => "Error".toList
  | .idle | .awaitingDisconnect => "Disabled".toList

/-- `MQTT_GetClientStatus`. -/
def getClientStatus (inst : Int) : Call Str := do
  acquire
  match ← get fun m => m.clients.find? (·.connParams.inst = inst) with
  | some c => exitWith (clientStatus c)
  | none => exitWith "Disabled".toList

/-- One turn of the loop of `MQTT_AreAllResponsesSent`, on `responses_sent` and
`all_responses_sent`. A slot that is not in use leaves the first as it was. -/
def responsesSent (sent : Bool × Bool) (c : Client) : Bool × Bool :=
  let responsesSent := if c.connParams.inst ≠ invalid then decide (c.queue = []) else sent.1
  (responsesSent, if responsesSent then sent.2 else false)

/-- `MQTT_AreAllResponsesSent`. -/
def areAllResponsesSent : Call Bool := do
  acquire
  if ← get Mtp.isMqttMtpThreadExited then
    release
    pure true
  else
    let sent ← get fun m => m.clients.foldl responsesSent (true, true)
    release
    pure sent.2

/-- `MQTT_AddSubscription`. -/
def addSubscription (A : Answers) (inst : Int) (sub : Subscription) : Call (Except Err Unit) := do
  .require sub.topic.isSome
  if sub.enabled ∧ emptyTopic sub.topic then pure (.error .invalidArguments)
  else
    acquire
    match ← findClient inst with
    | none => exitWith (.error .internalError)
    | some i => do
      let ok ← onClient i (MqttCallbacks.addSubscription A sub)
      exitWith (returnCode ok)

/-- `MQTT_DeleteSubscription`. -/
def deleteSubscription (A : Answers) (inst subinstance : Int) : Call (Except Err Unit) := do
  acquire
  match ← findClient inst with
  | none => exitWith (.error .internalError)
  | some i => do
    let ok ← onClient i (MqttCallbacks.deleteSubscription A subinstance)
    exitWith (returnCode ok)

/-- `MQTT_ScheduleResubscription`. -/
def scheduleResubscription (A : Answers) (inst : Int) (newSub : Subscription) :
    Call (Except Err Unit) := do
  .require newSub.topic.isSome
  if newSub.enabled ∧ emptyTopic newSub.topic then pure (.error .invalidArguments)
  else
    acquire
    .require (inst ≠ invalid ∧ newSub.inst ≠ invalid)
    match ← findClient inst with
    | none => exitWith (.error .internalError)
    | some i => do
      let ok ← onClient i (MqttCallbacks.scheduleResubscription A newSub)
      exitWith (returnCode ok)

/-- `MQTT_GetAgentResponseTopicDiscovered`, the text in its buffer. -/
def getAgentResponseTopicDiscovered (inst : Int) (len : Nat) : Call Str := do
  acquire
  match ← get fun m => m.clients.find? (·.connParams.inst = inst) with
  | none => exitWith []
  | some c =>
    if c.state ≠ .running then exitWith []
    else if c.connParams.version ≠ .v50 then exitWith []
    else exitWith (CBuffers.clip len (c.agentTopicFromConnack.getD []))

/-- The turn of one slot in `MQTT_UpdateAllSockSet`. -/
def updateSlot (A : Answers) (i : Nat) : Call Unit := do
  match ← clientAt i with
  | none => pure ()
  | some c =>
    if c.connParams.inst = invalid then pure ()
    else onClient i fun c => (MqttClient.updateSockSet A c).map fun c => ((), c)

/-- `MQTT_UpdateAllSockSet`, without the set of sockets. -/
def updateAllSockSet (A : Nat → Answers) : Call Unit := do
  acquire
  if ← get Mtp.isMqttMtpThreadExited then release
  else
    .forEach (List.range maxMqttClients) fun i => updateSlot (A i) i
    release

/-! ## The callbacks -/

/-- A callback that looks up its client and gives back the mutex in both cases. -/
def clientCallback (inst : Int) (f : Client → Client) : Call Unit := do
  acquire
  match ← findClient inst with
  | none => exitWith ()
  | some i => do
    changeClient i f
    exitWith ()

/-- `ConnectCallback`. -/
def connectCallback (A : Answers) (inst : Int) (accepted : Bool) : Call Unit :=
  clientCallback inst (MqttCallbacks.connectCallback A accepted)

/-- `ConnectV5Callback`. -/
def connectV5Callback (A : Answers) (inst : Int) (accepted : Bool) (props : ConnackProps) :
    Call Unit :=
  clientCallback inst (MqttCallbacks.connectV5Callback A accepted props)

/-- `DisconnectCallback`. -/
def disconnectCallback (inst : Int) : Call Unit :=
  clientCallback inst MqttCallbacks.disconnectCallback

/-- `SubscribeCallback`, to which `SubscribeV5Callback` leads. -/
def subscribeCallback (inst mid : Int) : Call Unit :=
  clientCallback inst (MqttCallbacks.subscribeCallback mid)

/-- `UnsubscribeCallback`, to which `UnsubscribeV5Callback` leads. Without a client it returns
before its label `exit`. -/
def unsubscribeCallback (A : Answers) (inst mid : Int) : Call Unit := do
  acquire
  match ← findClient inst with
  | none => pure ()
  | some i => do
    changeClient i (MqttCallbacks.unsubscribeCallback A mid)
    exitWith ()

/-- `PublishCallback`, to which `PublishV5Callback` leads. -/
def publishCallback (A : Answers) (inst mid : Int) : Call Unit :=
  clientCallback inst (MqttCallbacks.publishCallback A mid)

/-- A message of MQTT 3 for a client. -/
def takeMessage (m : Message) (c : Client) : Client :=
  if m.payload = [] ∨ c.state ≠ .running then c else MqttCallbacks.receiveMqttMessage m c

/-- A message of MQTT 5; the short ones go elsewhere. -/
def takeV5Message (m : Message) (c : Client) : Client :=
  if m.payload = [] ∨ c.state ≠ .running then c
  else if MqttCallbacks.shortMessageTopic <+: m.topic then c
  else MqttCallbacks.receiveMqttMessage m c

/-- `MessageCallback`; the pointer to the message may be null. -/
def messageCallback (inst : Int) (message : Option Message) : Call Unit :=
  clientCallback inst fun c => message.elim c fun m => takeMessage m c

/-- `MessageV5Callback`. -/
def messageV5Callback (inst : Int) (message : Option Message) : Call Unit :=
  clientCallback inst fun c => message.elim c fun m => takeV5Message m c

/-- The verify callback of a slot, which does not use the mutex. -/
def trustCertVerifyCallback (i : Nat) (chain : CertChain) : Call Unit :=
  changeClient i (MqttCallbacks.certVerifyCallback chain)

/-- The callback that `SetupCallbacks` has registered for a client. -/
def registered (i : Nat) (c : Client) (A : Answers) : Callback → Call Unit
  | .certVerify chain => trustCertVerifyCallback i chain
  | .connect accepted props =>
    if c.callbacksV5 then connectV5Callback A c.connParams.inst accepted props
    else connectCallback A c.connParams.inst accepted
  | .disconnect => disconnectCallback c.connParams.inst
  | .subscribe mid => subscribeCallback c.connParams.inst mid
  | .unsubscribe mid => unsubscribeCallback A c.connParams.inst mid
  | .publish mid => publishCallback A c.connParams.inst mid
  | .message m =>
    if c.callbacksV5 then messageV5Callback c.connParams.inst (some m)
    else messageCallback c.connParams.inst (some m)

/-- One callback while the context of the slot is served. -/
def callBack (i : Nat) (answered : Answers × Callback) : Call Unit := do
  match ← clientAt i with
  | none => pure ()
  | some c => registered i c answered.1 answered.2

/-! ## The sockets -/

/-- One of `mosquitto_loop_write`, `mosquitto_loop_read` and `mosquitto_loop_misc`: whether the
socket is open and there is something to do, and the callbacks. -/
structure LoopCall where
  socket : Bool
  ready : Bool
  callbacks : List (Answers × Callback)

def loopCall (i : Nat) (l : LoopCall) : Call Unit := do
  match ← clientAt i with
  | none => pure ()
  | some c =>
    if c.mosq && l.socket && l.ready then .forEach l.callbacks (callBack i)

/-- What is answered while one slot is processed. While the mutex is free for
`mosquitto_connect`, the other threads change what they like. -/
structure Pass where
  start : Answers
  connecting : List (Answers × Callback)
  others : Mtp → Mtp
  success : Bool
  done : Answers
  write : LoopCall
  read : LoopCall
  misc : LoopCall
  reconnect : Answers
  close : Answers
  disconnected : Answers

/-- `Connect`, with `PerformMqttClientConnect`. -/
def connect (P : Pass) (i : Nat) : Call Unit := do
  let connects ← onClient i fun c => some (MqttClient.connectStart P.start c)
  if connects then
    release
    .forEach P.connecting (callBack i)
    modify P.others
    acquire
    changeClient i (MqttClient.connectDone P.done P.success)

/-- The turn of one slot in `MQTT_ProcessAllSocketActivity`. -/
def processSlot (P : Pass) (i : Nat) : Call Unit := do
  match ← clientAt i with
  | none => pure ()
  | some c =>
    if c.connParams.inst = invalid then pure ()
    else
      if c.state = .sendingConnect then connect P i
      loopCall i P.write
      loopCall i P.read
      loopCall i P.misc
      changeClient i (reconnectTest P.reconnect)
      changeClient i (closeTest P.close)
      changeClient i (disconnectTest P.disconnected)

/-- `MQTT_ProcessAllSocketActivity`. -/
def processAllSocketActivity (P : Nat → Pass) : Call Unit := do
  acquire
  if ← get Mtp.isMqttMtpThreadExited then exitWith ()
  else
    .forEach (List.range maxMqttClients) fun i => processSlot (P i) i
    exitWith ()

/-! ## Each function -/

variable {α : Type} {m : Mtp}

theorem releases_exit (a : α) : Releases (exitWith a) := releases_then (moves_pure a)

theorem moves_onClient {n : Nat} (i : Nat) (f : Client → Option (α × Client)) :
    Moves n 0 (onClient i f) := moves_tryModify _

theorem moves_changeClient {n : Nat} (i : Nat) (f : Client → Client) :
    Moves n 0 (changeClient i f) := moves_modify _

variable {subscriptions : List Subscription}

section Api

variable (A : Answers) (inst : Int)

theorem start_balanced (sslCtxNew : Nat → Bool) : Balanced (start sslCtxNew) :=
  moves_section (releases_exit _)

variable (p : ConnParams)

theorem enableClient_balanced (h : subscriptions.any lacksTopic = false) :
    Balanced (enableClient A p subscriptions) := by
  rw [enableClient, if_neg (Bool.eq_false_iff.mp h)]
  refine moves_section (moves_next (moves_get _) fun found => ?_)
  cases found with
  | none => exact releases_exit _
  | some i => exact moves_next (moves_onClient i _) fun _ => releases_exit _

theorem disableClient_balanced : Balanced (disableClient inst) := by
  refine moves_section (moves_next (moves_get _) fun found => ?_)
  cases found with
  | none => exact releases_exit _
  | some i => exact moves_next (moves_changeClient i _) fun _ => releases_exit _

theorem queueBinaryMessage_balanced (contentType : MtpContentType) (pbuf : Bytes)
    (topic : Option Str) : Balanced (queueBinaryMessage inst contentType pbuf topic) := by
  refine moves_section (moves_next (moves_get _) fun exited => ?_)
  split
  · exact releases_then (moves_pure _)
  · refine moves_next (moves_get _) fun found => ?_
    cases found with
    | none => exact releases_exit _
    | some i => exact moves_next (moves_onClient i _) fun _ => releases_exit _

theorem scheduleReconnect_balanced : Balanced (scheduleReconnect p) := by
  refine moves_section (moves_next (moves_get _) fun exited => ?_)
  split
  · exact moves_release
  · refine moves_next (moves_get _) fun found => ?_
    cases found with
    | none => exact releases_exit _
    | some i => exact moves_next (moves_changeClient i _) fun _ => releases_exit _

theorem activateScheduledActions_balanced : Balanced activateScheduledActions := by
  refine moves_section (moves_next (moves_get _) fun exited => ?_)
  split
  · exact moves_release
  · exact moves_next (moves_modify _) fun _ => moves_release

theorem getMtpStatus_balanced : Balanced (getMtpStatus inst) := by
  refine moves_section (moves_next (moves_get _) fun found => ?_)
  cases found <;> exact releases_exit _

theorem getClientStatus_balanced : Balanced (getClientStatus inst) := by
  refine moves_section (moves_next (moves_get _) fun found => ?_)
  cases found <;> exact releases_exit _

theorem areAllResponsesSent_balanced : Balanced areAllResponsesSent := by
  refine moves_section (moves_next (moves_get _) fun exited => ?_)
  split
  · exact releases_then (moves_pure _)
  · exact moves_next (moves_get _) fun _ => releases_then (moves_pure _)

theorem addSubscription_balanced (sub : Subscription) : Balanced (addSubscription A inst sub) := by
  refine moves_next (moves_require _) fun _ => ?_
  split
  · exact moves_pure _
  · refine moves_section (moves_next (moves_get _) fun found => ?_)
    cases found with
    | none => exact releases_exit _
    | some i => exact moves_next (moves_onClient i _) fun _ => releases_exit _

theorem deleteSubscription_balanced (subinstance : Int) :
    Balanced (deleteSubscription A inst subinstance) := by
  refine moves_section (moves_next (moves_get _) fun found => ?_)
  cases found with
  | none => exact releases_exit _
  | some i => exact moves_next (moves_onClient i _) fun _ => releases_exit _

theorem scheduleResubscription_balanced (newSub : Subscription) :
    Balanced (scheduleResubscription A inst newSub) := by
  refine moves_next (moves_require _) fun _ => ?_
  split
  · exact moves_pure _
  · refine moves_section (moves_next (moves_require _) fun _ => ?_)
    refine moves_next (moves_get _) fun found => ?_
    cases found with
    | none => exact releases_exit _
    | some i => exact moves_next (moves_onClient i _) fun _ => releases_exit _

theorem getAgentResponseTopicDiscovered_balanced (len : Nat) :
    Balanced (getAgentResponseTopicDiscovered inst len) := by
  refine moves_section (moves_next (moves_get _) fun found => ?_)
  cases found with
  | none => exact releases_exit _
  | some c =>
    dsimp only
    split_ifs <;> exact releases_exit _

theorem updateSlot_moves (i : Nat) : Moves 1 0 (updateSlot A i) := by
  refine moves_next (moves_get _) fun found => ?_
  cases found with
  | none => exact moves_pure _
  | some c =>
    dsimp only
    split_ifs
    · exact moves_pure _
    · exact moves_onClient i _

theorem updateAllSockSet_balanced (A : Nat → Answers) : Balanced (updateAllSockSet A) := by
  refine moves_section (moves_next (moves_get _) fun exited => ?_)
  split
  · exact moves_release
  · exact moves_next (moves_forEach fun i _ => updateSlot_moves (A i) i) fun _ => moves_release

end Api

section Callbacks

variable (A : Answers) {inst : Int}

theorem clientCallback_balanced (inst : Int) (f : Client → Client) :
    Balanced (clientCallback inst f) := by
  refine moves_section (moves_next (moves_get _) fun found => ?_)
  cases found with
  | none => exact releases_exit _
  | some i => exact moves_next (moves_changeClient i f) fun _ => releases_exit _

/-- Where the client is found, the missing jump makes no difference. -/
theorem unsubscribeCallback_eq (mid : Int) {s : Locked Mtp}
    (h : (findMqttClientByInstance inst s.state.clients).isSome) :
    unsubscribeCallback A inst mid s =
      clientCallback inst (MqttCallbacks.unsubscribeCallback A mid) s := by
  obtain ⟨i, hi⟩ := Option.isSome_iff_exists.mp h
  have hfind : findClient inst { s with depth := s.depth + 1 } =
      some (.ok (some i), { s with depth := s.depth + 1 }) := by
    rw [← hi]
    rfl
  have htake : (acquire : Call Unit) s = some (.ok (), { s with depth := s.depth + 1 }) := rfl
  rw [unsubscribeCallback, clientCallback, bind_run htake, bind_run htake, bind_run hfind,
    bind_run hfind]

/-- The pointer that libmosquitto was given leads to the slot itself. -/
theorem slot_found {clients : List Client} {i : Nat} {c : Client} (h : clients[i]? = some c) :
    (findMqttClientByInstance c.connParams.inst clients).isSome := by
  rw [findMqttClientByInstance, List.findIdx?_isSome, List.any_eq_true]
  exact ⟨c, List.mem_of_getElem? h, decide_eq_true rfl⟩

theorem callBack_balanced (i : Nat) (answered : Answers × Callback) :
    Balanced (callBack i answered) := by
  intro s hs a s' hrun
  have hget : clientAt i s = some (.ok s.state.clients[i]?, s) := rfl
  rw [callBack, bind_run hget] at hrun
  cases hfound : s.state.clients[i]? with
  | none =>
    rw [hfound] at hrun
    exact moves_pure _ s hs a s' hrun
  | some c =>
    rw [hfound] at hrun
    obtain ⟨A, cb⟩ := answered
    cases cb with
    | certVerify chain => exact moves_changeClient _ _ s hs a s' hrun
    | connect accepted props =>
      simp only [registered] at hrun
      split at hrun <;> exact clientCallback_balanced _ _ s hs a s' hrun
    | disconnect => exact clientCallback_balanced _ _ s hs a s' hrun
    | subscribe mid => exact clientCallback_balanced _ _ s hs a s' hrun
    | unsubscribe mid =>
      simp only [registered] at hrun
      rw [unsubscribeCallback_eq A mid (slot_found hfound)] at hrun
      exact clientCallback_balanced _ _ s hs a s' hrun
    | publish mid => exact clientCallback_balanced _ _ s hs a s' hrun
    | message m =>
      simp only [registered] at hrun
      split at hrun <;> exact clientCallback_balanced _ _ s hs a s' hrun

theorem loopCall_balanced (i : Nat) (l : LoopCall) : Balanced (loopCall i l) := by
  refine moves_next (moves_get _) fun found => ?_
  cases found with
  | none => exact moves_pure _
  | some c =>
    dsimp only
    split
    · exact moves_forEach fun answered _ => callBack_balanced i answered
    · exact moves_pure _

end Callbacks

section Sockets

variable (P : Pass) (i : Nat)

theorem connect_moves : Moves 1 0 (connect P i) := by
  refine moves_next (moves_onClient i _) fun connects => ?_
  split
  · refine moves_gap (moves_next (moves_forEach fun answered _ => callBack_balanced i answered) ?_)
    exact fun _ => moves_next (moves_modify _) fun _ => moves_again (moves_changeClient i _)
  · exact moves_pure _

/-- The loop functions and the tests behind them. -/
theorem serve_moves : Moves 1 0 (do
    loopCall i P.write
    loopCall i P.read
    loopCall i P.misc
    changeClient i (reconnectTest P.reconnect)
    changeClient i (closeTest P.close)
    changeClient i (disconnectTest P.disconnected)) := by
  have hloop : ∀ l, Moves 1 0 (loopCall i l) := fun l =>
    (loopCall_balanced i l).mono (Nat.zero_le _)
  refine moves_next (hloop _) fun _ => moves_next (hloop _) fun _ => moves_next (hloop _) fun _ => ?_
  exact moves_next (moves_changeClient i _) fun _ => moves_next (moves_changeClient i _) fun _ =>
    moves_changeClient i _

theorem processSlot_moves : Moves 1 0 (processSlot P i) := by
  refine moves_next (moves_get _) fun found => ?_
  cases found with
  | none => exact moves_pure _
  | some c =>
    dsimp only
    split
    · exact moves_pure _
    · split
      · exact moves_next (connect_moves P i) fun _ => serve_moves P i
      · exact serve_moves P i

theorem processAllSocketActivity_balanced (P : Nat → Pass) :
    Balanced (processAllSocketActivity P) := by
  refine moves_section (moves_next (moves_get _) fun exited => ?_)
  split
  · exact releases_exit _
  · exact moves_next (moves_forEach fun i _ => processSlot_moves (P i) i) fun _ => releases_exit _

end Sockets

/-! ## Every call -/

/-- A function that other components or libmosquitto call. `unguarded` stands for those that
make no call on the mutex: `MQTT_Init`, `MQTT_Destroy`, `LogCallback` and the functions on
parameters and subscriptions of the caller. -/
inductive Entry where
  | unguarded (f : Mtp → Mtp)
  | start (sslCtxNew : Nat → Bool)
  | enableClient (A : Answers) (p : ConnParams) (subscriptions : List Subscription)
  | disableClient (inst : Int)
  | queueBinaryMessage (inst : Int) (contentType : MtpContentType) (pbuf : Bytes)
      (topic : Option Str)
  | scheduleReconnect (p : ConnParams)
  | activateScheduledActions
  | getMtpStatus (inst : Int)
  | getClientStatus (inst : Int)
  | areAllResponsesSent
  | addSubscription (A : Answers) (inst : Int) (sub : Subscription)
  | deleteSubscription (A : Answers) (inst subinstance : Int)
  | scheduleResubscription (A : Answers) (inst : Int) (newSub : Subscription)
  | getAgentResponseTopicDiscovered (inst : Int) (len : Nat)
  | updateAllSockSet (A : Nat → Answers)
  | processAllSocketActivity (P : Nat → Pass)
  | connectCallback (A : Answers) (inst : Int) (accepted : Bool)
  | connectV5Callback (A : Answers) (inst : Int) (accepted : Bool) (props : ConnackProps)
  | disconnectCallback (inst : Int)
  | subscribeCallback (inst mid : Int)
  | unsubscribeCallback (A : Answers) (inst mid : Int)
  | publishCallback (A : Answers) (inst mid : Int)
  | messageCallback (inst : Int) (message : Option Message)
  | messageV5Callback (inst : Int) (message : Option Message)
  | trustCertVerifyCallback (i : Nat) (chain : CertChain)

/-- The call without the value that it returns. -/
def drop {α : Type} (m : Call α) : Call Unit := do
  let _ ← m
  pure ()

def Entry.run : Entry → Call Unit
  | .unguarded f => modify f
  | .start sslCtxNew => drop (MqttMutex.start sslCtxNew)
  | .enableClient A p subscriptions => drop (MqttMutex.enableClient A p subscriptions)
  | .disableClient inst => drop (MqttMutex.disableClient inst)
  | .queueBinaryMessage inst contentType pbuf topic =>
    drop (MqttMutex.queueBinaryMessage inst contentType pbuf topic)
  | .scheduleReconnect p => MqttMutex.scheduleReconnect p
  | .activateScheduledActions => MqttMutex.activateScheduledActions
  | .getMtpStatus inst => drop (MqttMutex.getMtpStatus inst)
  | .getClientStatus inst => drop (MqttMutex.getClientStatus inst)
  | .areAllResponsesSent => drop MqttMutex.areAllResponsesSent
  | .addSubscription A inst sub => drop (MqttMutex.addSubscription A inst sub)
  | .deleteSubscription A inst subinstance => drop (MqttMutex.deleteSubscription A inst subinstance)
  | .scheduleResubscription A inst newSub => drop (MqttMutex.scheduleResubscription A inst newSub)
  | .getAgentResponseTopicDiscovered inst len =>
    drop (MqttMutex.getAgentResponseTopicDiscovered inst len)
  | .updateAllSockSet A => MqttMutex.updateAllSockSet A
  | .processAllSocketActivity P => MqttMutex.processAllSocketActivity P
  | .connectCallback A inst accepted => MqttMutex.connectCallback A inst accepted
  | .connectV5Callback A inst accepted props => MqttMutex.connectV5Callback A inst accepted props
  | .disconnectCallback inst => MqttMutex.disconnectCallback inst
  | .subscribeCallback inst mid => MqttMutex.subscribeCallback inst mid
  | .unsubscribeCallback A inst mid => MqttMutex.unsubscribeCallback A inst mid
  | .publishCallback A inst mid => MqttMutex.publishCallback A inst mid
  | .messageCallback inst message => MqttMutex.messageCallback inst message
  | .messageV5Callback inst message => MqttMutex.messageV5Callback inst message
  | .trustCertVerifyCallback i chain => MqttMutex.trustCertVerifyCallback i chain

/-- Called without the mutex, the function returns without it and never gives back a mutex that
it does not hold. -/
def Returns (e : Entry) (m : Mtp) : Prop :=
  ∀ s, e.run ⟨0, false, m⟩ = some (.ok (), s) → s.depth = 0 ∧ s.stray = false

/-- Every enabled subscription of a client that is enabled has a topic, and an UNSUBACK is for
the instance number of a slot. -/
def Entry.Guarded (m : Mtp) : Entry → Prop
  | .enableClient _ _ subscriptions => ∀ sub ∈ subscriptions, lacksTopic sub = false
  | .unsubscribeCallback _ inst _ => ∃ c ∈ m.clients, c.connParams.inst = inst
  | _ => True

theorem drop_balanced {m : Call α} (h : Balanced m) : Balanced (drop m) :=
  moves_next h fun _ => moves_pure ()

theorem returns_of_balanced {e : Entry} (h : Balanced e.run) : Returns e m := by
  intro s hrun
  obtain ⟨hdepth, hstray⟩ := h _ (Nat.zero_le _) () s hrun
  exact ⟨by simpa using hdepth, hstray⟩

theorem enableClient_returns_iff {A : Answers} {p : ConnParams} :
    Returns (.enableClient A p subscriptions) m ↔
      ∀ sub ∈ subscriptions, lacksTopic sub = false := by
  constructor
  · intro h
    by_contra hlacks
    have hany : subscriptions.any lacksTopic = true := by
      push Not at hlacks
      obtain ⟨sub, hin, hsub⟩ := hlacks
      exact List.any_eq_true.mpr ⟨sub, hin, by simpa using hsub⟩
    have hrun : (Entry.enableClient A p subscriptions).run ⟨0, false, m⟩ =
        some (.ok (), ⟨0, true, m⟩) := by
      rw [Entry.run, drop, MqttMutex.enableClient, if_pos hany]
      rfl
    cases (h _ hrun).2
  · intro h
    refine returns_of_balanced (drop_balanced (enableClient_balanced A p ?_))
    rw [List.any_eq_false]
    intro sub hin
    exact Bool.eq_false_iff.mp (h sub hin)

theorem unsubscribeCallback_returns_iff {A : Answers} {inst mid : Int} :
    Returns (.unsubscribeCallback A inst mid) m ↔ ∃ c ∈ m.clients, c.connParams.inst = inst := by
  have hiff : (findMqttClientByInstance inst m.clients).isSome ↔
      ∃ c ∈ m.clients, c.connParams.inst = inst := by
    simp [findMqttClientByInstance, List.findIdx?_isSome, List.any_eq_true]
  rw [← hiff]
  constructor
  · intro h
    by_contra hnone
    have hfind : findMqttClientByInstance inst m.clients = none := by simpa using hnone
    have hrun : (Entry.unsubscribeCallback A inst mid).run ⟨0, false, m⟩ =
        some (.ok (), ⟨1, false, m⟩) := by
      have hget : findClient inst ⟨1, false, m⟩ = some (.ok none, ⟨1, false, m⟩) := by
        rw [← hfind]
        rfl
      have htake : (acquire : Call Unit) ⟨0, false, m⟩ = some (.ok (), ⟨1, false, m⟩) := rfl
      rw [Entry.run, MqttMutex.unsubscribeCallback, bind_run htake, bind_run hget]
      rfl
    cases (h _ hrun).1
  · intro h s hrun
    rw [Entry.run, unsubscribeCallback_eq A mid h] at hrun
    obtain ⟨hdepth, hstray⟩ := clientCallback_balanced inst _ _ (Nat.zero_le _) () s hrun
    exact ⟨by simpa using hdepth, hstray⟩

/-- All functions but two give back the mutex in every state. -/
theorem run_balanced (e : Entry) (henable : ∀ A p subs, e ≠ .enableClient A p subs)
    (hunsubscribe : ∀ A inst mid, e ≠ .unsubscribeCallback A inst mid) : Balanced e.run := by
  cases e with
  | unguarded f => exact moves_modify f
  | start sslCtxNew => exact drop_balanced (start_balanced _)
  | enableClient A p subscriptions => exact absurd rfl (henable A p subscriptions)
  | disableClient inst => exact drop_balanced (disableClient_balanced _)
  | queueBinaryMessage inst contentType pbuf topic =>
    exact drop_balanced (queueBinaryMessage_balanced _ _ _ _)
  | scheduleReconnect p => exact scheduleReconnect_balanced p
  | activateScheduledActions => exact activateScheduledActions_balanced
  | getMtpStatus inst => exact drop_balanced (getMtpStatus_balanced _)
  | getClientStatus inst => exact drop_balanced (getClientStatus_balanced _)
  | areAllResponsesSent => exact drop_balanced areAllResponsesSent_balanced
  | addSubscription A inst sub => exact drop_balanced (addSubscription_balanced _ _ _)
  | deleteSubscription A inst subinstance => exact drop_balanced (deleteSubscription_balanced _ _ _)
  | scheduleResubscription A inst newSub =>
    exact drop_balanced (scheduleResubscription_balanced _ _ _)
  | getAgentResponseTopicDiscovered inst len =>
    exact drop_balanced (getAgentResponseTopicDiscovered_balanced _ _)
  | updateAllSockSet A => exact updateAllSockSet_balanced A
  | processAllSocketActivity P => exact processAllSocketActivity_balanced P
  | unsubscribeCallback A inst mid => exact absurd rfl (hunsubscribe A inst mid)
  | trustCertVerifyCallback i chain => exact moves_changeClient _ _
  | connectCallback | connectV5Callback | disconnectCallback | subscribeCallback
  | publishCallback | messageCallback | messageV5Callback => exact clientCallback_balanced _ _

theorem returns_iff (e : Entry) (m : Mtp) : Returns e m ↔ e.Guarded m := by
  cases e
  case enableClient A p subscriptions => exact enableClient_returns_iff
  case unsubscribeCallback A inst mid => exact unsubscribeCallback_returns_iff
  all_goals
    exact iff_of_true (returns_of_balanced (run_balanced _ (by simp) (by simp))) trivial

/-- An enabled subscription with an empty topic, and an UNSUBACK for a client that is gone. -/
theorem empty_topic_strays :
    ¬Returns (.enableClient MqttThread.smooth (MqttThread.brokerParams .tcpip)
      [⟨1, 0, some [], true, 0, .unsubscribed⟩]) ⟨MqttThread.initMqtt.clients, false⟩ ∧
    ¬Returns (.unsubscribeCallback MqttThread.smooth 1 7) ⟨MqttThread.initMqtt.clients, false⟩ := by
  rw [enableClient_returns_iff, unsubscribeCallback_returns_iff]
  constructor
  · intro h
    exact absurd (h _ List.mem_cons_self) (by decide)
  · rintro ⟨c, hc, hinst⟩
    rw [MqttThread.mem_initMqtt hc] at hinst
    exact absurd hinst (by decide)

end MqttMutex
