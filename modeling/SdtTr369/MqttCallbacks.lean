import SdtTr369.MqttClient

/-!
# Callbacks of libmosquitto

Subscribing and unsubscribing, and what an MQTT client does when libmosquitto
calls it back. Each function is given the client that its callback has found.
-/

namespace MqttCallbacks

open UspTypes UspRecord DataModelRead MqttClient

/-! ## Subscribing -/

/-- `MAX_TOPIC_LEN`. -/
def maxTopicLen : Nat := 128

/-- The topic given to `mosquitto_subscribe`: before MQTT 5 the agent's topic is
subscribed to with a wildcard, in a buffer of `MAX_TOPIC_LEN + 2` bytes. -/
def subscribeTopic (version : ProtocolVer) (isAgentTopic : Bool) (topic : Str) : Str :=
  if version ≠ .v50 ∧ isAgentTopic then (topic ++ ['/', '#']).take (maxTopicLen + 1) else topic

/-- The message id of the packet; a packet of MQTT 5 also needs its properties. -/
def packetMid (A : Answers) (version : ProtocolVer) (mid : Option Int) : Option Int :=
  if version = .v50 ∧ A.properties = false then none else mid

/-- `Subscribe` and `SubscribeV5` for an entry; `mid` is what libmosquitto answers. -/
def subscribe (A : Answers) (version : ProtocolVer) (isAgentTopic : Bool) (mid : Option Int)
    (sub : Subscription) : Bool × Subscription × List Event :=
  match sub.topic with
  | none => (false, sub, [])
  | some topic =>
    let sub := { sub with state := .subscribing }
    match packetMid A version mid with
    | none => (false, sub, [])
    | some mid =>
      (true, { sub with mid := mid },
        [.subscribe (subscribeTopic version isAgentTopic topic) sub.qos mid])

/-- The packet of `mosquitto_unsubscribe` or `UnsubscribeV5`. -/
def unsubscribePacket (A : Answers) (version : ProtocolVer) (sub : Subscription) :
    Bool × Subscription × List Event :=
  match sub.topic, packetMid A version A.unsubscribe with
  | some topic, some mid => (true, { sub with mid := mid }, [.unsubscribe topic mid])
  | _, _ => (false, sub, [])

/-- `Unsubscribe`. -/
def unsubscribe (A : Answers) (version : ProtocolVer) (sub : Subscription) :
    Bool × Subscription × List Event :=
  match sub.topic with
  | none => (false, sub, [])
  | some _ => unsubscribePacket A version { sub with state := .unsubscribing }

/-- The function was called for the entry at `i` and has sent packets. -/
def putSubscription (i : Nat) (res : Bool × Subscription × List Event) (c : Client) : Client :=
  { c with subscriptions := c.subscriptions.set i res.2.1, log := c.log ++ res.2.2 }

def putResponseSubscription (res : Bool × Subscription × List Event) (c : Client) : Client :=
  { c with responseSubscription := res.2.1, log := c.log ++ res.2.2 }

/-- One turn of the loop of `SubscribeToAll`. -/
def subscribeEntry (A : Answers) (i : Nat) (c : Client) : Client :=
  match c.subscriptions[i]? with
  | none => c
  | some sub =>
    if sub.enabled ∧ sub.topic.isSome then
      let res := subscribe A c.connParams.version false (A.subscribe i) sub
      let c := putSubscription i res c
      if res.1 then c else handleMqttError A .otherError c
    else c

def subscribeEntries (A : Answers) : List Nat → Client → Client
  | [], c => c
  | i :: rest, c => subscribeEntries A rest (subscribeEntry A i c)

/-- The part of `SubscribeToAll` that subscribes to the response topic. -/
def subscribeResponse (A : Answers) (c : Client) : Client :=
  let res := subscribe A c.connParams.version true (A.subscribe maxMqttSubscriptions)
    c.responseSubscription
  let c := putResponseSubscription res c
  if res.1 then c else handleMqttError A .otherError c

/-- `SubscribeToAll`. -/
def subscribeToAll (A : Answers) (c : Client) : Client :=
  if emptyTopic c.responseSubscription.topic then handleMqttError A .misconfigured c
  else
    let c := subscribeResponse A (subscribeEntries A (List.range maxMqttSubscriptions) c)
    c.emit (.handshakeComplete c.connParams.inst c.connParams.version
      c.responseSubscription.topic c.role)

/-! ## The CONNACK -/

/-- `DEVICE_SECURITY_GetControllerTrust`: whether it returns `USP_ERR_OK`, and the
role, which is written before it is checked. -/
def getControllerTrust (T : TrustStore) (chain : CertChain) (role : Nat) : Bool × Nat :=
  match chain with
  | [] | [_] => (false, role)
  | _ :: ca :: rest =>
    match T.calcCertHash ((ca :: rest).getLast (List.cons_ne_nil ca rest)) with
    | none => (false, role)
    | some hash =>
      match T.findLocalAgentCert hash with
      | none => (false, role)
      | some laInstance =>
        (decide (T.getCertRole laInstance ≠ invalidRole), T.getCertRole laInstance)

/-- The part of the connect callbacks that turns the certificate chain into a role. -/
def takeControllerTrust (T : TrustStore) (c : Client) : Client :=
  match c.certChain with
  | none => c
  | some chain => { c with role := (getControllerTrust T chain c.role).2, certChain := none }

/-- What `ConnectV5Callback` reads of the properties of a CONNACK. The user
properties are listed in order. -/
structure ConnackProps where
  assignedClientId : Option Str
  responseInformation : Option Str
  userProperties : List (Str × Str)

def subscribeTopicProperty : Str := "subscribe-topic".toList

/-- The agent topic in a CONNACK: the response information, or else the first of two
user properties that is named `subscribe-topic`. -/
def agentTopic (props : ConnackProps) : Option Str :=
  props.responseInformation.or
    ((props.userProperties.take 2).find? (·.1 = subscribeTopicProperty) |>.map (·.2))

/-- `SaveAgentTopicFromConnack`, when a topic was found. -/
def saveAgentTopic (topic : Option Str) (c : Client) : Client :=
  match topic with
  | none => { c with agentTopicFromConnack := none }
  | some topic => { c with
      responseSubscription := { c.responseSubscription with topic := some topic }
      agentTopicFromConnack := some topic }

/-- The part of `ConnectV5Callback` that reads the properties. -/
def readConnackProps (props : ConnackProps) (c : Client) : Client :=
  saveAgentTopic (agentTopic props) { c with
    connParams := { c.connParams with
      clientId := props.assignedClientId.or c.connParams.clientId } }

theorem readConnackProps_same (props : ConnackProps) (c : Client) :
    (readConnackProps props c).subscriptions = c.subscriptions ∧
      (readConnackProps props c).connParams.version = c.connParams.version ∧
      (readConnackProps props c).responseSubscription.topic =
        (agentTopic props).or c.responseSubscription.topic ∧
      (readConnackProps props c).log = c.log := by
  unfold readConnackProps saveAgentTopic
  cases agentTopic props <;> exact ⟨rfl, rfl, rfl, rfl⟩

/-- The end of the connect callbacks. -/
def connected (A : Answers) (c : Client) : Client :=
  subscribeToAll A { c with retryTime := 0, retryCount := 0, state := .running }

/-- `ConnectCallback`; the flag tells that the CONNACK carries result zero. -/
def connectCallback (A : Answers) (accepted : Bool) (c : Client) : Client :=
  if c.state ≠ .awaitingConnect ∧ c.state ≠ .errorRetrying then c
  else if accepted = false then handleMqttError A .otherError c
  else connected A (takeControllerTrust A.trust (c.emit (.connack A.trust)))

/-- `ConnectV5Callback`. -/
def connectV5Callback (A : Answers) (accepted : Bool) (props : ConnackProps) (c : Client) :
    Client :=
  if c.state ≠ .awaitingConnect ∧ c.state ≠ .errorRetrying then handleMqttError A .otherError c
  else if accepted = false then handleMqttError A .otherError c
  else connected A
    (readConnackProps props (takeControllerTrust A.trust (c.emit (.connack A.trust))))

/-! ## The other callbacks -/

/-- `DEVICE_SECURITY_TrustCertVerifyCallbackWithCertChain`, which keeps a chain that
is already saved. -/
def certVerifyCallback (chain : CertChain) (c : Client) : Client :=
  { c.emit (.certVerify chain) with certChain := c.certChain.or (some chain) }

/-- `DisconnectCallback`. -/
def disconnectCallback (c : Client) : Client := { c with isDisconnected := true }

/-- `FindSubscriptionByMid` among the entries. -/
def findSubscriptionByMid (mid : Int) (c : Client) : Option Nat :=
  c.subscriptions.findIdx? (·.mid = mid)

/-- `SubscribeCallback` for the entry it has found. -/
def subscribeAck (sub : Subscription) : Subscription :=
  if sub.state = .subscribing then { sub with state := .subscribed } else sub

/-- `SubscribeCallback`. -/
def subscribeCallback (mid : Int) (c : Client) : Client :=
  match findSubscriptionByMid mid c with
  | some i => { c with subscriptions := c.subscriptions.modify i subscribeAck }
  | none =>
    if c.responseSubscription.mid = mid then
      { c with responseSubscription := subscribeAck c.responseSubscription }
    else c

/-- `UnsubscribeCallback` for the entry it has found. -/
def unsubscribeAck (A : Answers) (version : ProtocolVer) (isAgentTopic : Bool)
    (mid : Option Int) (sub : Subscription) : Bool × Subscription × List Event :=
  match sub.state with
  | .unsubscribing => (true, { sub with state := .unsubscribed }, [])
  | .resubscribing => subscribe A version isAgentTopic mid sub
  | _ => (true, sub, [])

/-- `UnsubscribeCallback`. -/
def unsubscribeCallback (A : Answers) (mid : Int) (c : Client) : Client :=
  match findSubscriptionByMid mid c with
  | some i =>
    match c.subscriptions[i]? with
    | some sub =>
      putSubscription i (unsubscribeAck A c.connParams.version false (A.subscribe i) sub) c
    | none => c
  | none =>
    if c.responseSubscription.mid = mid then
      putResponseSubscription (unsubscribeAck A c.connParams.version true
        (A.subscribe maxMqttSubscriptions) c.responseSubscription) c
    else c

/-- `PublishCallback`. -/
def publishCallback (A : Answers) (mid : Int) (c : Client) : Client :=
  let c := c.emit (.publishComplete mid)
  if mid = c.disconnectMid then handleMqttError A .otherError c else c

/-- A message of libmosquitto. The reply-to topic is that of `FindReplyToTopic`, or
the response topic among the properties of MQTT 5. -/
structure Message where
  topic : Str
  payload : Bytes
  replyTo : Option Str

def shortMessageTopic : Str := "sdtcpe/agent/shortmsg/".toList

/-- `ReceiveMqttMessage`. -/
def receiveMqttMessage (m : Message) (c : Client) : Client :=
  c.emit (.uspRecord m.payload c.role c.connParams.inst m.replyTo)

/-- `MessageCallback` and `MessageV5Callback`; the latter keeps short messages back. -/
def messageCallback (m : Message) (c : Client) : Client :=
  if m.payload = [] ∨ c.state ≠ .running then c
  else if c.callbacksV5 ∧ shortMessageTopic <+: m.topic then c
  else receiveMqttMessage m c

/-- A callback from libmosquitto or OpenSSL. -/
inductive Callback where
  | certVerify (chain : CertChain)
  | connect (accepted : Bool) (props : ConnackProps)
  | disconnect
  | subscribe (mid : Int)
  | unsubscribe (mid : Int)
  | publish (mid : Int)
  | message (m : Message)

def callback (A : Answers) (cb : Callback) (c : Client) : Client :=
  match cb with
  | .certVerify chain => certVerifyCallback chain c
  | .connect accepted props =>
    if c.callbacksV5 then connectV5Callback A accepted props c else connectCallback A accepted c
  | .disconnect => disconnectCallback c
  | .subscribe mid => subscribeCallback mid c
  | .unsubscribe mid => unsubscribeCallback A mid c
  | .publish mid => publishCallback A mid c
  | .message m => messageCallback m c

/-! ## Requests about subscriptions -/

/-- `FindMqttSubscriptionByInstance`. -/
def findMqttSubscriptionByInstance (subinstance : Int) (c : Client) : Option Nat :=
  c.subscriptions.findIdx? (·.inst = subinstance)

/-- `MQTT_AddSubscription` once the client is found. `none` is a failed assertion,
and the flag tells that it returns `USP_ERR_OK`. -/
def addSubscription (A : Answers) (sub : Subscription) (c : Client) : Option (Bool × Client) :=
  if sub.topic.isNone then none
  else if sub.enabled ∧ emptyTopic sub.topic then some (false, c)
  else if sub.inst = invalid ∨ (findMqttSubscriptionByInstance sub.inst c).isSome then none
  else
    match findMqttSubscriptionByInstance invalid c with
    | none => some (false, c)
    | some i =>
      let c := { c with subscriptions := c.subscriptions.set i sub }
      if sub.enabled ∧ c.state = .running then
        let res := subscribe A c.connParams.version false (A.subscribe i) sub
        some (res.1, putSubscription i res c)
      else some (true, c)

/-- `MQTT_DeleteSubscription` for the entry it has found. -/
def dropSubscription (A : Answers) (version : ProtocolVer) (running : Bool) (sub : Subscription) :
    Subscription × List Event :=
  let res :=
    if sub.enabled ∧ running ∧ (sub.state = .resubscribing ∨ sub.state = .subscribed) then
      (unsubscribe A version sub).2
    else (sub, [])
  ({ res.1 with inst := invalid }, res.2)

/-- `MQTT_DeleteSubscription` once the client is found. `none` is a failed assertion. -/
def deleteSubscription (A : Answers) (subinstance : Int) (c : Client) : Option (Bool × Client) :=
  match findMqttSubscriptionByInstance subinstance c with
  | none => some (false, c)
  | some i =>
    match c.subscriptions[i]? with
    | none => some (false, c)
    | some sub =>
      if sub.inst = invalid then none
      else
        let res := dropSubscription A c.connParams.version (c.state = .running) sub
        some (true, { c with subscriptions := c.subscriptions.set i res.1, log := c.log ++ res.2 })

/-- The entry has to be unsubscribed from before it can change. -/
def isUnsubscribing (sub : Subscription) : Bool :=
  sub.enabled && sub.state ≠ .unsubscribed && sub.state ≠ .unsubscribing

/-- The entry takes over what can change of a subscription, but keeps its message id. -/
def takeSubscription (newSub sub : Subscription) : Subscription :=
  { sub with qos := newSub.qos, topic := newSub.topic, enabled := newSub.enabled }

/-- `MQTT_ScheduleResubscription` for the entry it has found while connected. -/
def changeSubscription (A : Answers) (version : ProtocolVer) (mid : Option Int)
    (newSub sub : Subscription) : Bool × Subscription × List Event :=
  if isUnsubscribing sub then
    let res := unsubscribePacket A version sub
    if res.1 then
      (true, { takeSubscription newSub res.2.1 with
        state := if newSub.enabled then .resubscribing else .unsubscribing }, res.2.2)
    else res
  else if newSub.enabled then subscribe A version false mid (takeSubscription newSub sub)
  else (true, { takeSubscription newSub sub with state := .unsubscribed }, [])

/-- `MQTT_ScheduleResubscription` once the client is found. `none` is a failed
assertion, and the flag tells that it returns `USP_ERR_OK`. -/
def scheduleResubscription (A : Answers) (newSub : Subscription) (c : Client) :
    Option (Bool × Client) :=
  if newSub.topic.isNone then none
  else if newSub.enabled ∧ emptyTopic newSub.topic then some (false, c)
  else if newSub.inst = invalid then none
  else
    match findMqttSubscriptionByInstance newSub.inst c with
    | none => some (false, c)
    | some i =>
      match c.subscriptions[i]? with
      | none => some (false, c)
      | some sub =>
        if c.state ≠ .running then
          some (true, { c with subscriptions := c.subscriptions.set i newSub })
        else
          let res := changeSubscription A c.connParams.version (A.subscribe i) newSub sub
          some (res.1, putSubscription i res c)

end MqttCallbacks
