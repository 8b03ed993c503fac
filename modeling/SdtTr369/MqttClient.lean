import SdtTr369.ControllerTable

/-!
# One MQTT client

A slot of `mqtt_clients` and the functions of `mqtt.c` that connect, disconnect
and clean it. Answers stand for libmosquitto, OpenSSL and the clock; the log of a
slot keeps the requests made of it and what it handed to libmosquitto and to the
data model thread.
-/

namespace MqttClient

open UspTypes ControllerTable UspRecord

/-- `INVALID`. -/
def invalid : Int := -1

/-- `INVALID_MOSQUITTO_MID`. -/
def invalidMosquittoMid : Int := 0

def maxMqttSubscriptions : Nat := 5

/-- `kMqttQos_Default`. -/
def qosDefault : Nat := 0

/-- `mqtt_failure_t`. -/
inductive MqttFailure where
  | none
  | connect
  | readWrite
  | misconfigured
  | otherError
  deriving DecidableEq, Repr

/-- `mqtt_state_t`. -/
inductive MqttState where
  | idle
  | sendingConnect
  | awaitingConnect
  | running
  | awaitingDisconnect
  | errorRetrying
  deriving DecidableEq, Repr

/-- `mqtt_protocolver_t`. -/
inductive ProtocolVer where
  | v31
  | v311
  | v50
  deriving DecidableEq, Repr

/-- `mqtt_tsprotocol_t`. -/
inductive TsProtocol where
  | tcpip
  | tls
  deriving DecidableEq, Repr

/-- `mqtt_substate_t`. -/
inductive SubState where
  | unsubscribed
  | subscribing
  | subscribed
  | unsubscribing
  | resubscribing
  deriving DecidableEq, Repr

/-- `scheduled_action_t`. -/
inductive ScheduledAction where
  | off
  | signalled
  | activated
  deriving DecidableEq, Repr

/-- `mtp_content_type_t`. -/
inductive MtpContentType where
  | uspMessage
  | connectRecord
  | disconnectRecord
  | sessTermination
  | fullMessage
  | begin
  | inProcess
  | complete
  deriving DecidableEq, Repr

/-- `IsUspConnectOrDisconnectRecord`. -/
def isUspConnectOrDisconnectRecord : MtpContentType → Bool
  | .connectRecord | .disconnectRecord | .sessTermination => true
  | _ => false

/-- `mqtt_retry_params_t`. -/
structure RetryParams where
  connectRetrytime : Nat
  intervalMultiplier : Nat
  maxInterval : Nat
  deriving DecidableEq, Repr

/-- `mqtt_conn_params_t`; `none` is a null pointer. -/
structure ConnParams where
  host : Option Str
  port : Nat
  keepalive : Int
  username : Str
  password : Str
  inst : Int
  enable : Bool
  version : ProtocolVer
  topic : Option Str
  responseTopic : Option Str
  publishQos : Nat
  clientId : Option Str
  tsProtocol : TsProtocol
  cleanSession : Bool
  cleanStart : Bool
  retry : RetryParams
  deriving DecidableEq, Repr

/-- What `MQTT_DestroyConnParams` leaves behind. -/
def destroyedConnParams : ConnParams where
  host := none
  port := 0
  keepalive := 0
  username := []
  password := []
  inst := invalid
  enable := false
  version := .v31
  topic := none
  responseTopic := none
  publishQos := 0
  clientId := none
  tsProtocol := .tcpip
  cleanSession := false
  cleanStart := false
  retry := ⟨0, 0, 0⟩

/-- `MQTT_InitConnParams`. -/
def initConnParams : ConnParams :=
  { destroyedConnParams with version := .v50, publishQos := qosDefault }

/-- `mqtt_subscription_t`. -/
structure Subscription where
  inst : Int
  qos : Nat
  topic : Option Str
  enabled : Bool
  mid : Int
  state : SubState
  deriving DecidableEq, Repr

/-- `InitSubscription`, which leaves the instance number zero. -/
def initSubscription : Subscription := ⟨0, qosDefault, none, false, invalid, .unsubscribed⟩

/-- `mqtt_send_item_t`. The message id is read only where it was just written. -/
structure SendItem where
  contentType : MtpContentType
  pbuf : Bytes
  topic : Option Str
  qos : Nat
  deriving DecidableEq, Repr

/-- A certificate chain, from the broker's certificate to that of the trust store. -/
abbrev CertChain := List Nat

/-- What `DEVICE_SECURITY_GetControllerTrust` looks up: the hash of a certificate,
the row of `Device.LocalAgent.Certificate` with a hash, and the role of a row. -/
structure TrustStore where
  calcCertHash : Nat → Option Nat
  findLocalAgentCert : Nat → Option Nat
  getCertRole : Nat → Nat

/-- What `mosquitto_connect` is told. -/
structure ConnectArgs where
  host : Option Str
  port : Nat
  keepAlive : Int
  login : Option (Str × Str)
  tls : Bool
  version : ProtocolVer
  deriving DecidableEq, Repr

/-- What happens to a slot, in order. -/
inductive Event where
  /-- `MQTT_EnableClient` took over parameters. -/
  | enable (p : ConnParams)
  /-- `MQTT_EnableClient` has started the connection. -/
  | enabled
  /-- `MQTT_ScheduleReconnect` took over parameters. -/
  | reconnectRequest (p : ConnParams)
  | reconnectActivated
  | disable
  /-- `mosquitto_new`. -/
  | newContext (clientId : Option Str) (clean : Bool)
  | connect (args : ConnectArgs)
  | disconnect
  /-- `CleanMqttClient` was called. -/
  | cleaned (isReconnect : Bool)
  | certVerify (chain : CertChain)
  /-- A CONNACK has taken the client to `running`. -/
  | connack (trust : TrustStore)
  | subscribe (topic : Str) (qos : Nat) (mid : Int)
  | unsubscribe (topic : Str) (mid : Int)
  | publish (item : SendItem) (mid : Int)
  | publishComplete (mid : Int)
  | handshakeComplete (inst : Int) (version : ProtocolVer) (topic : Option Str) (role : Nat)
  | uspRecord (pbuf : Bytes) (role : Nat) (inst : Int) (replyTo : Option Str)
  /-- A record was linked to the send queue. -/
  | queued (item : SendItem)
  /-- A newer connect record has unlinked a record. -/
  | superseded (item : SendItem)
  /-- `CleanMqttClient` has unlinked a record. -/
  | purged (item : SendItem)

/-- `mqtt_client_t`. Of the context, `mosq` tells whether it exists and
`callbacksV5` which callbacks it has. -/
structure Client where
  connParams : ConnParams
  state : MqttState
  mosq : Bool
  callbacksV5 : Bool
  subscriptions : List Subscription
  queue : List SendItem
  responseSubscription : Subscription
  retryCount : Nat
  retryTime : Int
  lastStatusChange : Int
  failureCode : MqttFailure
  role : Nat
  nextParams : ConnParams
  scheduleReconnect : ScheduledAction
  scheduleClose : ScheduledAction
  certChain : Option CertChain
  agentTopicFromConnack : Option Str
  disconnectMid : Int
  isReconnect : Bool
  isDisconnected : Bool
  log : List Event

def Client.emit (c : Client) (e : Event) : Client := { c with log := c.log ++ [e] }

/-- `InitClient`. -/
def initClient : Client where
  connParams := initConnParams
  state := .idle
  mosq := false
  callbacksV5 := false
  subscriptions := List.replicate maxMqttSubscriptions initSubscription
  queue := []
  responseSubscription := initSubscription
  retryCount := 0
  retryTime := 0
  lastStatusChange := 0
  failureCode := .none
  role := roleDefault
  nextParams := initConnParams
  scheduleReconnect := .off
  scheduleClose := .off
  certChain := none
  agentTopicFromConnack := none
  disconnectMid := invalidMosquittoMid
  isReconnect := false
  isDisconnected := false
  log := []

/-- The endpoint id of the agent is never empty. -/
abbrev EndpointId := { id : Str // id ≠ [] }

/-- What is answered from outside while one function runs. A call that fails
gives `none`, or `false`. -/
structure Answers where
  now : Int
  endpointId : EndpointId
  /-- `mosquitto_socket` of an existing context is not `-1`. -/
  socket : Bool
  mosquittoNew : Bool
  /-- `mosquitto_int_option` for the protocol version. -/
  intOption : Bool
  usernamePwSet : Bool
  /-- `ConnectSetEncryption`. -/
  setEncryption : Bool
  /-- The functions that add properties to a packet of MQTT 5. -/
  properties : Bool
  /-- `RETRY_WAIT_Calculate`. -/
  retryWait : Nat → Nat → Nat → Nat
  /-- The message id given to the SUBSCRIBE for an entry of the array, and behind
  its end for the response topic. -/
  subscribe : Nat → Option Int
  unsubscribe : Option Int
  publish : Option Int
  trust : TrustStore

/-- The topic pointer is null or the topic is the empty string. -/
def emptyTopic (topic : Option Str) : Bool := topic.getD [] = []

/-! ## Connecting and disconnecting -/

/-- `mosquitto_socket(client->mosq) != -1`. -/
def socketOpen (A : Answers) (c : Client) : Bool := c.mosq && A.socket

/-- `CleanMqttClient`. -/
def cleanMqttClient (isReconnect : Bool) (c : Client) : Client :=
  let c := { c with
    certChain := none
    connParams := destroyedConnParams
    scheduleReconnect := .off
    scheduleClose := .off
    disconnectMid := invalidMosquittoMid
    agentTopicFromConnack := none
    retryTime := 0
    state := .idle
    log := c.log ++ [.cleaned isReconnect] }
  if isReconnect then c
  else { c with
    queue := []
    nextParams := destroyedConnParams
    isReconnect := false
    log := c.log ++ c.queue.map .purged }

/-- The client id that `EnableMosquitto` hands to `mosquitto_new`. -/
def contextClientId (A : Answers) (p : ConnParams) : Option Str :=
  if emptyTopic p.clientId then
    if p.version = .v50 then none else some A.endpointId.val
  else p.clientId

/-- `EnableMosquitto` and `SetupCallbacks`. Before MQTT 5 an empty client id is
overridden with the endpoint id. -/
def enableMosquitto (A : Answers) (c : Client) : Bool × Client :=
  let p := c.connParams
  let clientId := contextClientId A p
  let clean := if p.version = .v50 then p.cleanStart else p.cleanSession
  let c := { c with
    connParams := { p with clientId := clientId.or p.clientId }
    mosq := A.mosquittoNew }
  let c := c.emit (.newContext clientId (clean || clientId.isNone))
  if A.mosquittoNew && A.intOption then (true, { c with callbacksV5 := p.version = .v50 })
  else (false, c)

/-- `EnableMqttClient`. -/
def enableMqttClient (A : Answers) (c : Client) : Bool × Client :=
  let c := { c with
    scheduleReconnect := .off
    scheduleClose := .off
    certChain := none
    disconnectMid := invalidMosquittoMid
    agentTopicFromConnack := none
    retryTime := 0
    responseSubscription :=
      ⟨0, qosDefault, c.connParams.responseTopic, true, 0, .unsubscribed⟩ }
  match enableMosquitto A c with
  | (true, c) => (true, { c with state := .sendingConnect })
  | (false, c) => (false, c)

/-- `DisconnectClient`. -/
def disconnectClient (A : Answers) (c : Client) : Client :=
  if socketOpen A c then { c.emit .disconnect with state := .awaitingDisconnect } else c

/-- `ParamReplace` of the connection parameters with those to use next. -/
def takeNextParams (c : Client) : Client := { c with connParams := c.nextParams }

/-- `HandleMqttReconnectAfterDisconnect`. -/
def handleMqttReconnectAfterDisconnect (A : Answers) (c : Client) : Client :=
  if c.isReconnect then
    (enableMqttClient A (takeNextParams { cleanMqttClient true c with isReconnect := false })).2
  else cleanMqttClient false c

/-- The failure code that `HandleMqttError` notes. -/
def noteFailure (A : Answers) (failure : MqttFailure) (c : Client) : Client :=
  if c.failureCode = failure then c
  else { c with lastStatusChange := A.now, failureCode := failure }

/-- The wait time that `HandleMqttError` computes from the retry count. -/
def retryWaitTime (A : Answers) (c : Client) : Nat :=
  let retry := c.connParams.retry
  min (A.retryWait c.retryCount retry.connectRetrytime retry.intervalMultiplier)
    retry.maxInterval

/-- The part of `HandleMqttError` that schedules the retry. -/
def startRetry (A : Answers) (c : Client) : Client :=
  let c := { c with state := .errorRetrying, retryCount := c.retryCount + 1 }
  { c with retryTime := A.now + retryWaitTime A c - 1 }

/-- The part of `HandleMqttError` that enters the retry state. -/
def enterRetry (A : Answers) (failure : MqttFailure) (c : Client) : Client :=
  startRetry A (disconnectClient A { noteFailure A failure c with isReconnect := false })

/-- `HandleMqttError`. -/
def handleMqttError (A : Answers) (failure : MqttFailure) (c : Client) : Client :=
  if c.state = .awaitingDisconnect ∧ c.isReconnect then handleMqttReconnectAfterDisconnect A c
  else enterRetry A failure c

/-- `HandleMqttReconnect`. -/
def handleMqttReconnect (A : Answers) (c : Client) : Client :=
  match c.state with
  | .idle | .errorRetrying => (enableMqttClient A (takeNextParams c)).2
  | .awaitingDisconnect => { c with isReconnect := true }
  | .sendingConnect | .awaitingConnect | .running =>
    if socketOpen A c then disconnectClient A { c with isReconnect := true }
    else (enableMqttClient A (takeNextParams c)).2

/-- `HandleMqttClose`. -/
def handleMqttClose (A : Answers) (c : Client) : Client :=
  match c.state with
  | .awaitingDisconnect => { c with isReconnect := false }
  | .sendingConnect | .idle | .errorRetrying => cleanMqttClient false c
  | .running | .awaitingConnect =>
    if c.queue = [] then disconnectClient A { c with isReconnect := false } else c

/-- `HandleMqttDisconnect`. -/
def handleMqttDisconnect (A : Answers) (c : Client) : Client :=
  let c := { c with isDisconnected := false }
  match c.state with
  | .errorRetrying | .idle => c
  | .awaitingDisconnect => handleMqttReconnectAfterDisconnect A c
  | .sendingConnect | .awaitingConnect | .running => handleMqttError A .otherError c

/-- The keep alive period that `PerformMqttClientConnect` hands to libmosquitto. -/
def keepAlivePeriod (keepalive : Int) : Int :=
  if keepalive = 0 then 60 * 60 * 18 else if keepalive < 5 then 5 else keepalive

def connectArgs (p : ConnParams) : ConnectArgs where
  host := p.host
  port := p.port
  keepAlive := keepAlivePeriod p.keepalive
  login := if p.username = [] then none else some (p.username, p.password)
  tls := p.tsProtocol = .tls
  version := p.version

/-- `Connect`, until `PerformMqttClientConnect` releases the mutex to call
`mosquitto_connect`. The failures before it handle the error twice. -/
def connectStart (A : Answers) (c : Client) : Bool × Client :=
  let p := c.connParams
  if p.username ≠ [] ∧ A.usernamePwSet = false then
    (false, handleMqttError A .connect (handleMqttError A .otherError c))
  else if p.tsProtocol = .tls ∧ A.setEncryption = false then
    (false, handleMqttError A .connect (handleMqttError A .misconfigured c))
  else if p.version = .v50 ∧ A.properties = false then (false, handleMqttError A .connect c)
  else (true, c.emit (.connect (connectArgs p)))

/-- `Connect`, from the return of `mosquitto_connect`. -/
def connectDone (A : Answers) (success : Bool) (c : Client) : Client :=
  if success then { c with state := .awaitingConnect } else handleMqttError A .connect c

/-! ## The send queue -/

/-- `Publish` and `PublishV5` give the message id, or nothing when the record could
not be handed over; their assertions are about the two topics. -/
def publish (A : Answers) (item : SendItem) (c : Client) : Option (Option Int) :=
  if item.topic.isNone then none
  else if c.connParams.version = .v50 ∧ A.properties = false then some none
  else if emptyTopic c.responseSubscription.topic then none
  else some A.publish

/-- The case `kMqttState_Running` of `MQTT_UpdateAllSockSet`. -/
def sendStep (A : Answers) (c : Client) : Option Client :=
  match c.queue with
  | [] => some c
  | item :: rest => (publish A item c).map fun sent =>
    match sent with
    | none => c
    | some mid =>
      { c.emit (.publish item mid) with
        disconnectMid :=
          if item.contentType = .disconnectRecord then mid else invalidMosquittoMid
        queue := rest }

/-- A scheduled reconnect retries at once, with the next parameters. -/
def retryAtOnce (A : Answers) (c : Client) : Client :=
  if c.scheduleReconnect = .activated then
    { takeNextParams c with retryCount := 0, retryTime := A.now }
  else c

def retryWhenDue (A : Answers) (c : Client) : Client :=
  if c.retryTime ≤ 0 then handleMqttError A c.failureCode c
  else if c.retryTime ≤ A.now then (enableMqttClient A c).2
  else c

/-- The case `kMqttState_ErrorRetrying` of `MQTT_UpdateAllSockSet`. -/
def retryStep (A : Answers) (c : Client) : Client := retryWhenDue A (retryAtOnce A c)

/-- `MQTT_UpdateAllSockSet` for one client in use. -/
def updateSockSet (A : Answers) (c : Client) : Option Client :=
  match c.state with
  | .running => sendStep A c
  | .errorRetrying => some (retryStep A c)
  | _ => some c

/-- `QueueUspConnectRecord_MQTT`. -/
def queueUspConnectRecord (item : SendItem) (c : Client) : Client :=
  let stale := c.queue.filter (isUspConnectOrDisconnectRecord ·.contentType)
  { c with
    queue := item :: c.queue.filter (!isUspConnectOrDisconnectRecord ·.contentType)
    log := c.log ++ stale.map .superseded ++ [.queued item] }

/-- `IsUspRecordInMqttQueue`. -/
def isUspRecordInMqttQueue (pbuf : Bytes) (c : Client) : Bool := c.queue.any (·.pbuf = pbuf)

/-- `MQTT_QueueBinaryMessage` once the client is found; the flag tells that it
returns `USP_ERR_OK`. -/
def queueBinaryMessage (contentType : MtpContentType) (pbuf : Bytes) (topic : Option Str)
    (c : Client) : Bool × Client :=
  if contentType = .connectRecord then
    (true, queueUspConnectRecord ⟨contentType, pbuf, topic, c.connParams.publishQos⟩ c)
  else if isUspRecordInMqttQueue pbuf c then (true, c)
  else
    let topic := topic.or c.connParams.topic
    if emptyTopic topic then (false, c)
    else
      let item : SendItem := ⟨contentType, pbuf, topic, c.connParams.publishQos⟩
      (true, { c.emit (.queued item) with queue := c.queue ++ [item] })

/-! ## Requests of the data model thread -/

/-- An enabled subscription has an empty topic, which `MQTT_EnableClient` refuses. -/
def lacksTopic (sub : Subscription) : Bool :=
  sub.inst ≠ invalid && sub.enabled && emptyTopic sub.topic

/-- `MQTT_EnableClient` once the client is found or allocated. -/
def enableClient (A : Answers) (p : ConnParams) (subscriptions : List Subscription) (c : Client) :
    Bool × Client :=
  if subscriptions.any lacksTopic then (false, c)
  else
    let c := { c with connParams := { c.connParams with inst := p.inst } }
    if c.state ≠ .idle ∧ c.state ≠ .errorRetrying then (false, c)
    else
      let c := { c.emit (.enable p) with
        connParams := p
        nextParams := p
        subscriptions := subscriptions
        retryTime := 0
        retryCount := 0 }
      if p.enable then
        let res := enableMqttClient A c
        (res.1, if res.1 then res.2.emit .enabled else res.2)
      else (true, c)

/-- `MQTT_DisableClient` once the client is found. -/
def disableClient (c : Client) : Client := { c.emit .disable with scheduleClose := .signalled }

/-- `MQTT_ScheduleReconnect` once the client is found. -/
def scheduleReconnect (p : ConnParams) (c : Client) : Client :=
  { c.emit (.reconnectRequest p) with
    nextParams := { p with inst := c.connParams.inst }
    scheduleReconnect := .signalled }

def activateReconnect (c : Client) : Client :=
  if c.scheduleReconnect = .signalled then
    { c.emit .reconnectActivated with scheduleReconnect := .activated }
  else c

def activateClose (c : Client) : Client :=
  if c.scheduleClose = .signalled then { c with scheduleClose := .activated } else c

/-- `MQTT_ActivateScheduledActions` for one client. -/
def activateScheduledActions (c : Client) : Client := activateClose (activateReconnect c)

end MqttClient
