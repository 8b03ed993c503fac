import Mathlib.Logic.Relation
import SdtTr369.MqttThread

/-!
# What an operation does to a slot

Every operation on a slot but those that send a record or connect is a chain of moves. Each move
says what becomes of the state, the queue, the role and the certificate chain, and
which events it adds to the log.
-/

namespace MqttMoves

open UspTypes UspRecord MqttClient MqttCallbacks MqttThread List Option

/-- An event that says nothing about connections, roles and queued records. -/
def Plain : Event → Prop
  | .enable _ | .enabled | .reconnectRequest _ | .reconnectActivated | .disable | .disconnect
  | .subscribe .. | .unsubscribe .. | .publishComplete _ => True
  | _ => False

/-- An event that passes the role of the slot on. -/
def Passes (role : Nat) : Event → Prop
  | .handshakeComplete _ _ _ r | .uspRecord _ r _ _ => r = role
  | _ => False

/-- A packet that changes the subscriptions at the broker. -/
def IsPacket : Event → Prop
  | .subscribe .. | .unsubscribe .. => True
  | _ => False

variable {e : Event}

theorem IsPacket.plain (h : IsPacket e) : Plain e := by
  cases e <;> first | exact h | cases h

/-- The fields that the moves account for. -/
structure SameCore (c c' : Client) : Prop where
  state : c'.state = c.state
  queue : c'.queue = c.queue
  role : c'.role = c.role
  certChain : c'.certChain = c.certChain

inductive Move : Client → Client → Prop where
  | keep {c c' : Client} {es : List Event} (core : SameCore c c') (log : c'.log = c.log ++ es)
      (plain : ∀ e ∈ es, Plain e) : Move c c'
  | enter {c c' : Client} (state : c'.state ≠ .running) (queue : c'.queue = c.queue)
      (role : c'.role = c.role) (certChain : c'.certChain = c.certChain) (log : c'.log = c.log) :
      Move c c'
  | clean (c : Client) (isReconnect : Bool) : Move c (cleanMqttClient isReconnect c)
  | newContext {c c' : Client} {clientId : Option Str} {clean : Bool}
      (state : c'.state = c.state ∨ c'.state = .sendingConnect) (queue : c'.queue = c.queue)
      (role : c'.role = c.role) (certChain : c'.certChain = none)
      (log : c'.log = c.log ++ [.newContext clientId clean]) : Move c c'
  | connack {c c' : Client} {T : TrustStore} (state : c'.state = .running)
      (queue : c'.queue = c.queue) (role : c'.role = (takeControllerTrust T c).role)
      (certChain : c'.certChain = none) (log : c'.log = c.log ++ [.connack T]) : Move c c'
  | certVerify (c : Client) (chain : CertChain) : Move c (certVerifyCallback chain c)
  | pass {c : Client} {e : Event} (h : Passes c.role e) : Move c (c.emit e)
  | queueConnect (c : Client) (item : SendItem) (h : item.contentType = .connectRecord) :
      Move c (queueUspConnectRecord item c)
  | queueTail (c : Client) (item : SendItem) (h : item.contentType ≠ .connectRecord) :
      Move c { c.emit (.queued item) with queue := c.queue ++ [item] }

theorem cleanMqttClient_log (isReconnect : Bool) (c : Client) :
    (cleanMqttClient isReconnect c).log =
      c.log ++ (.cleaned isReconnect :: if isReconnect then [] else c.queue.map .purged) := by
  cases isReconnect with
  | true => rfl
  | false => exact append_assoc ..

/-- The records that a newer connect record unlinks. -/
def stale (queue : List SendItem) : List SendItem :=
  queue.filter (isUspConnectOrDisconnectRecord ·.contentType)

theorem queueUspConnectRecord_log (item : SendItem) (c : Client) :
    (queueUspConnectRecord item c).log =
      c.log ++ ((stale c.queue).map .superseded ++ [.queued item]) := append_assoc ..

abbrev Moves := Relation.ReflTransGen Move

/-- What every move keeps is kept by a chain of moves. -/
theorem moves_keep {I : Client → Prop} (hmove : ∀ c c', I c → Move c c' → I c') {c c' : Client}
    (h : Moves c c') (hI : I c) : I c' := by
  induction h with
  | refl => exact hI
  | tail _ hlast ih => exact hmove _ _ ih hlast

/-- A record is handed over. -/
def IsPublish : Event → Prop
  | .publish .. => True
  | _ => False

theorem not_isPublish_of_plain (he : Plain e) : ¬ IsPublish e := by
  cases e <;> first | exact id | cases he

theorem not_isPublish_of_passes {role : Nat} (he : Passes role e) : ¬ IsPublish e := by
  cases e <;> first | exact id | cases he

/-- The events of a move. -/
theorem move_log {c c' : Client} (h : Move c c') :
    ∃ es, c'.log = c.log ++ es ∧ ∀ e ∈ es, ¬ IsPublish e := by
  cases h with
  | keep core log plain => exact ⟨_, log, fun e he => not_isPublish_of_plain (plain e he)⟩
  | enter _ _ _ _ log => exact ⟨[], by simpa using log, by simp⟩
  | clean isReconnect =>
    refine ⟨_, cleanMqttClient_log isReconnect c, ?_⟩
    cases isReconnect <;> simp [IsPublish]
  | newContext _ _ _ _ log => exact ⟨_, log, by simp [IsPublish]⟩
  | connack _ _ _ _ log => exact ⟨_, log, by simp [IsPublish]⟩
  | certVerify chain => exact ⟨[.certVerify chain], rfl, by simp [IsPublish]⟩
  | pass he => exact ⟨[_], rfl, by simpa using not_isPublish_of_passes he⟩
  | queueConnect item =>
    refine ⟨_, queueUspConnectRecord_log item c, ?_⟩
    rw [forall_mem_append, List.forall_mem_map]
    exact ⟨fun _ _ => id, by simp [IsPublish]⟩
  | queueTail item => exact ⟨[.queued item], rfl, by simp [IsPublish]⟩

theorem moves_log {c c' : Client} (h : Moves c c') :
    ∃ es, c'.log = c.log ++ es ∧ ∀ e ∈ es, ¬ IsPublish e := by
  induction h with
  | refl => exact ⟨[], by simp, by simp⟩
  | tail _ hlast ih =>
    obtain ⟨es, hlog, hes⟩ := ih
    obtain ⟨es', hlog', hes'⟩ := move_log hlast
    refine ⟨es ++ es', by rw [hlog', hlog, append_assoc], ?_⟩
    exact List.forall_mem_append.mpr ⟨hes, hes'⟩

/-! ## Calm moves -/

/-- An event of a connection that has come up. -/
def ComesUp : Event → Prop
  | .connack _ | .handshakeComplete .. => True
  | _ => False

theorem not_comesUp_of_plain (he : Plain e) : ¬ ComesUp e := by
  cases e <;> first | exact id | cases he

/-- A move with no event of a connection that has come up. -/
structure Calm (c c' : Client) : Prop where
  move : Move c c'
  quiet : ∃ es, c'.log = c.log ++ es ∧ ∀ e ∈ es, ¬ ComesUp e

abbrev Calms := Relation.ReflTransGen Calm

theorem moves_of_calms {c c' : Client} (h : Calms c c') : Moves c c' :=
  Relation.ReflTransGen.mono (fun _ _ hcalm => hcalm.move) c c' h

namespace Calm

variable {c c' : Client}

theorem keep {es : List Event} (core : SameCore c c') (log : c'.log = c.log ++ es)
    (plain : ∀ e ∈ es, Plain e) : Calm c c' :=
  ⟨.keep core log plain, es, log, fun e he => not_comesUp_of_plain (plain e he)⟩

theorem enter (state : c'.state ≠ .running) (queue : c'.queue = c.queue) (role : c'.role = c.role)
    (certChain : c'.certChain = c.certChain) (log : c'.log = c.log) : Calm c c' :=
  ⟨.enter state queue role certChain log, [], by simpa using log, by simp⟩

theorem clean (c : Client) (isReconnect : Bool) : Calm c (cleanMqttClient isReconnect c) := by
  refine ⟨.clean c isReconnect, _, cleanMqttClient_log isReconnect c, ?_⟩
  cases isReconnect <;> simp [ComesUp]

theorem newContext {clientId : Option Str} {clean : Bool}
    (state : c'.state = c.state ∨ c'.state = .sendingConnect) (queue : c'.queue = c.queue)
    (role : c'.role = c.role) (certChain : c'.certChain = none)
    (log : c'.log = c.log ++ [.newContext clientId clean]) : Calm c c' :=
  ⟨.newContext state queue role certChain log, _, log, by simp [ComesUp]⟩

theorem certVerify (c : Client) (chain : CertChain) : Calm c (certVerifyCallback chain c) :=
  ⟨.certVerify c chain, [.certVerify chain], rfl, by simp [ComesUp]⟩

theorem record (c : Client) (m : Message) : Calm c (receiveMqttMessage m c) :=
  ⟨.pass rfl, [_], rfl, by simp [ComesUp]⟩

theorem queueConnect (c : Client) (item : SendItem) (h : item.contentType = .connectRecord) :
    Calm c (queueUspConnectRecord item c) := by
  refine ⟨.queueConnect c item h, _, queueUspConnectRecord_log item c, ?_⟩
  rw [forall_mem_append, List.forall_mem_map]
  exact ⟨fun _ _ => id, by simp [ComesUp]⟩

theorem queueTail (c : Client) (item : SendItem) (h : item.contentType ≠ .connectRecord) :
    Calm c { c.emit (.queued item) with queue := c.queue ++ [item] } :=
  ⟨.queueTail c item h, [.queued item], rfl, by simp [ComesUp]⟩

end Calm

theorem keeps {c c' : Client} (core : SameCore c c') (log : c'.log = c.log) : Calms c c' :=
  .single (.keep core (log.trans (append_nil _).symm) (by simp))

section Connection

variable (A : Answers) (c : Client)

theorem enableMqttClient_calm : Calms c (enableMqttClient A c).2 := by
  unfold enableMqttClient enableMosquitto
  cases A.mosquittoNew && A.intOption
  · exact .single (.newContext (.inl rfl) rfl rfl rfl rfl)
  · exact .single (.newContext (.inr rfl) rfl rfl rfl rfl)

theorem disconnectClient_calm : Calms c (disconnectClient A c) := by
  unfold disconnectClient
  split
  · have hevent : Calms c (c.emit .disconnect) :=
      .single (.keep ⟨rfl, rfl, rfl, rfl⟩ rfl (by simp [Plain]))
    exact hevent.tail (.enter (by simp) rfl rfl rfl rfl)
  · exact .refl

theorem takeNextParams_calm : Calms c (takeNextParams c) := keeps ⟨rfl, rfl, rfl, rfl⟩ rfl

theorem handleMqttReconnectAfterDisconnect_calm :
    Calms c (handleMqttReconnectAfterDisconnect A c) := by
  unfold handleMqttReconnectAfterDisconnect
  split
  · have hnext : Calms (cleanMqttClient true c)
        (takeNextParams { cleanMqttClient true c with isReconnect := false }) :=
      keeps ⟨rfl, rfl, rfl, rfl⟩ rfl
    exact ((Relation.ReflTransGen.single (.clean c true)).trans hnext).trans
      (enableMqttClient_calm A _)
  · exact .single (.clean c false)

variable (failure : MqttFailure)

theorem enterRetry_calm : Calms c (enterRetry A failure c) := by
  have hflag : Calms c { noteFailure A failure c with isReconnect := false } := by
    unfold noteFailure
    split <;> exact keeps ⟨rfl, rfl, rfl, rfl⟩ rfl
  exact (hflag.trans (disconnectClient_calm A _)).tail
    (.enter (by simp [enterRetry, startRetry]) rfl rfl rfl rfl)

theorem handleMqttError_calm : Calms c (handleMqttError A failure c) := by
  unfold handleMqttError
  split
  · exact handleMqttReconnectAfterDisconnect_calm A c
  · exact enterRetry_calm A c failure

theorem reconnectTest_calm : Calms c (reconnectTest A c) := by
  have henable := (takeNextParams_calm c).trans (enableMqttClient_calm A _)
  have hflag : Calms c { c with isReconnect := true } := keeps ⟨rfl, rfl, rfl, rfl⟩ rfl
  unfold reconnectTest handleMqttReconnect
  split
  · split
    case h_3 => exact hflag
    case h_1 | h_2 => exact henable
    all_goals
      split
      · exact hflag.trans (disconnectClient_calm A _)
      · exact henable
  · exact .refl

theorem closeTest_calm : Calms c (closeTest A c) := by
  have hflag : Calms c { c with isReconnect := false } := keeps ⟨rfl, rfl, rfl, rfl⟩ rfl
  unfold closeTest handleMqttClose
  split
  · split
    case h_1 => exact hflag
    case h_2 | h_3 | h_4 => exact .single (.clean c false)
    all_goals
      split
      · exact hflag.trans (disconnectClient_calm A _)
      · exact .refl
  · exact .refl

theorem disconnectTest_calm : Calms c (disconnectTest A c) := by
  have hflag : Calms c { c with isDisconnected := false } := keeps ⟨rfl, rfl, rfl, rfl⟩ rfl
  unfold disconnectTest
  split
  · dsimp only [handleMqttDisconnect]
    split
    case h_1 | h_2 => exact hflag
    case h_3 => exact hflag.trans (handleMqttReconnectAfterDisconnect_calm A _)
    all_goals exact hflag.trans (handleMqttError_calm A _ .otherError)
  · exact .refl

theorem connectStart_cases : (connectStart A c).2 = c.emit (.connect (connectArgs c.connParams)) ∨
    Calms c (connectStart A c).2 := by
  dsimp only [connectStart]
  split
  · exact .inr ((handleMqttError_calm A c .otherError).trans (handleMqttError_calm A _ .connect))
  split
  · exact .inr
      ((handleMqttError_calm A c .misconfigured).trans (handleMqttError_calm A _ .connect))
  split
  · exact .inr (handleMqttError_calm A c .connect)
  · exact .inl rfl

theorem connectDone_calm (success : Bool) : Calms c (connectDone A success c) := by
  cases success with
  | true => exact .single (.enter (by simp [connectDone]) rfl rfl rfl rfl)
  | false => exact handleMqttError_calm A c .connect

theorem retryStep_calm : Calms c (retryStep A c) := by
  have hnext : Calms c (retryAtOnce A c) := by
    unfold retryAtOnce
    split
    · exact keeps ⟨rfl, rfl, rfl, rfl⟩ rfl
    · exact .refl
  unfold retryStep retryWhenDue
  split
  · exact hnext.trans (handleMqttError_calm A _ _)
  split
  · exact hnext.trans (enableMqttClient_calm A _)
  · exact hnext

end Connection

section Packets

variable (A : Answers) (version : ProtocolVer) (isAgentTopic : Bool) (mid : Option Int)
  (sub : Subscription)

theorem subscribe_packets : ∀ e ∈ (subscribe A version isAgentTopic mid sub).2.2, IsPacket e := by
  unfold subscribe
  split
  · simp
  · dsimp only
    split <;> simp [IsPacket]

theorem unsubscribePacket_packets : ∀ e ∈ (unsubscribePacket A version sub).2.2, IsPacket e := by
  unfold unsubscribePacket
  split <;> simp [IsPacket]

theorem unsubscribeAck_packets :
    ∀ e ∈ (unsubscribeAck A version isAgentTopic mid sub).2.2, IsPacket e := by
  unfold unsubscribeAck
  split
  · simp
  · exact subscribe_packets A version isAgentTopic mid sub
  · simp

theorem dropSubscription_packets (running : Bool) :
    ∀ e ∈ (dropSubscription A version running sub).2, IsPacket e := by
  dsimp only [dropSubscription, unsubscribe]
  split
  · split
    · simp
    · exact unsubscribePacket_packets A version _
  · simp

theorem changeSubscription_packets (newSub : Subscription) :
    ∀ e ∈ (changeSubscription A version mid newSub sub).2.2, IsPacket e := by
  dsimp only [changeSubscription]
  split
  · split
    · exact unsubscribePacket_packets A version sub
    · exact unsubscribePacket_packets A version sub
  split
  · exact subscribe_packets A version false mid _
  · simp

end Packets

section Subscriptions

variable (A : Answers) (c : Client)

theorem putSubscription_calm (i : Nat) {res : Bool × Subscription × List Event}
    (hres : ∀ e ∈ res.2.2, IsPacket e) : Calms c (putSubscription i res c) :=
  .single (.keep ⟨rfl, rfl, rfl, rfl⟩ rfl fun e he => (hres e he).plain)

theorem putResponseSubscription_calm {res : Bool × Subscription × List Event}
    (hres : ∀ e ∈ res.2.2, IsPacket e) : Calms c (putResponseSubscription res c) :=
  .single (.keep ⟨rfl, rfl, rfl, rfl⟩ rfl fun e he => (hres e he).plain)

theorem subscribeEntry_calm (i : Nat) : Calms c (subscribeEntry A i c) := by
  unfold subscribeEntry
  split
  · exact .refl
  · next sub hsub =>
    have hput := putSubscription_calm c i
      (subscribe_packets A c.connParams.version false (A.subscribe i) sub)
    dsimp only
    split
    · split
      · exact hput
      · exact hput.trans (handleMqttError_calm A _ .otherError)
    · exact .refl

theorem subscribeEntries_calm (is : List Nat) : Calms c (subscribeEntries A is c) := by
  induction is generalizing c with
  | nil => exact .refl
  | cons i rest ih => exact (subscribeEntry_calm A c i).trans (ih _)

theorem subscribeResponse_calm : Calms c (subscribeResponse A c) := by
  have hput := putResponseSubscription_calm c (subscribe_packets A c.connParams.version true
    (A.subscribe maxMqttSubscriptions) c.responseSubscription)
  dsimp only [subscribeResponse]
  split
  · exact hput
  · exact hput.trans (handleMqttError_calm A _ .otherError)

theorem subscribeToAll_moves : Moves c (subscribeToAll A c) := by
  dsimp only [subscribeToAll]
  split
  · exact moves_of_calms (handleMqttError_calm A c .misconfigured)
  · have hpackets := (subscribeEntries_calm A c (List.range maxMqttSubscriptions)).trans
      (subscribeResponse_calm A _)
    exact (moves_of_calms hpackets).tail (.pass rfl)

/-! ## Callbacks -/

theorem takeControllerTrust_connack (T : TrustStore) :
    Move c { takeControllerTrust T (c.emit (.connack T)) with
      state := .running, retryTime := 0, retryCount := 0 } := by
  cases hchain : c.certChain <;> refine .connack (T := T) rfl ?_ ?_ ?_ ?_ <;>
    simp [takeControllerTrust, Client.emit, hchain]

variable (accepted : Bool) (props : ConnackProps)

theorem connectCallback_moves : Moves c (connectCallback A accepted c) := by
  unfold connectCallback
  split
  · exact .refl
  split
  · exact moves_of_calms (handleMqttError_calm A c .otherError)
  · exact (Relation.ReflTransGen.single (takeControllerTrust_connack c A.trust)).trans
      (subscribeToAll_moves A _)

theorem readConnackProps_keeps :
    SameCore c (readConnackProps props c) ∧ (readConnackProps props c).log = c.log := by
  unfold readConnackProps saveAgentTopic
  split <;> exact ⟨⟨rfl, rfl, rfl, rfl⟩, rfl⟩

theorem connectV5Callback_moves : Moves c (connectV5Callback A accepted props c) := by
  unfold connectV5Callback
  split
  · exact moves_of_calms (handleMqttError_calm A c .otherError)
  split
  · exact moves_of_calms (handleMqttError_calm A c .otherError)
  · obtain ⟨hcore, hlog⟩ :=
      readConnackProps_keeps (takeControllerTrust A.trust (c.emit (.connack A.trust))) props
    have hprops : Moves
        { takeControllerTrust A.trust (c.emit (.connack A.trust)) with
          state := .running, retryTime := 0, retryCount := 0 }
        { readConnackProps props (takeControllerTrust A.trust (c.emit (.connack A.trust))) with
          state := .running, retryTime := 0, retryCount := 0 } :=
      moves_of_calms (keeps ⟨rfl, hcore.queue, hcore.role, hcore.certChain⟩ hlog)
    exact ((Relation.ReflTransGen.single (takeControllerTrust_connack c A.trust)).trans
      hprops).trans (subscribeToAll_moves A _)

theorem subscribeCallback_calm (mid : Int) : Calms c (subscribeCallback mid c) := by
  unfold subscribeCallback
  split
  · exact keeps ⟨rfl, rfl, rfl, rfl⟩ rfl
  split
  · exact keeps ⟨rfl, rfl, rfl, rfl⟩ rfl
  · exact .refl

theorem unsubscribeCallback_calm (mid : Int) : Calms c (unsubscribeCallback A mid c) := by
  unfold unsubscribeCallback
  split
  · split
    · exact putSubscription_calm c _ fun e => unsubscribeAck_packets _ _ _ _ _ e
    · exact .refl
  split
  · exact putResponseSubscription_calm c fun e => unsubscribeAck_packets _ _ _ _ _ e
  · exact .refl

/-- The callback brings a CONNACK. -/
def IsConnack : Callback → Prop
  | .connect .. => True
  | _ => False

theorem callback_calm {cb : Callback} (h : ¬ IsConnack cb) : Calms c (callback A cb c) := by
  cases cb with
  | certVerify chain => exact .single (.certVerify c chain)
  | connect accepted props => exact absurd trivial h
  | disconnect => exact keeps ⟨rfl, rfl, rfl, rfl⟩ rfl
  | subscribe mid => exact subscribeCallback_calm c mid
  | unsubscribe mid => exact unsubscribeCallback_calm A c mid
  | publish mid =>
    have hevent : Calms c (c.emit (.publishComplete mid)) :=
      .single (.keep ⟨rfl, rfl, rfl, rfl⟩ rfl (by simp [Plain]))
    dsimp only [callback, publishCallback]
    split
    · exact hevent.trans (handleMqttError_calm A _ .otherError)
    · exact hevent
  | message m =>
    dsimp only [callback, messageCallback]
    split
    · exact .refl
    split
    · exact .refl
    · exact .single (.record c m)

theorem callback_moves (cb : Callback) : Moves c (callback A cb c) := by
  by_cases hconnack : IsConnack cb
  · cases cb with
    | connect accepted props =>
      dsimp only [callback]
      split
      · exact connectV5Callback_moves A c accepted props
      · exact connectCallback_moves A c accepted
    | _ => exact hconnack.elim
  · exact moves_of_calms (callback_calm A c hconnack)

/-! ## Requests -/

theorem enableClient_calm (p : ConnParams) (subs : List Subscription) :
    Calms c (enableClient A p subs c).2 := by
  have hparams : Calms c { c.emit (.enable p) with
      connParams := p, nextParams := p, subscriptions := subs, retryTime := 0, retryCount := 0 } :=
    .single (.keep ⟨rfl, rfl, rfl, rfl⟩ rfl (by simp [Plain]))
  dsimp only [enableClient]
  split
  · exact .refl
  split
  · exact keeps ⟨rfl, rfl, rfl, rfl⟩ rfl
  split
  · have henable := hparams.trans (enableMqttClient_calm A _)
    split
    · exact henable.tail (.keep ⟨rfl, rfl, rfl, rfl⟩ rfl (by simp [Plain]))
    · exact henable
  · exact hparams

theorem queueBinaryMessage_calm (contentType : MtpContentType) (pbuf : Bytes)
    (topic : Option Str) : Calms c (queueBinaryMessage contentType pbuf topic c).2 := by
  dsimp only [queueBinaryMessage]
  split
  · next h => exact .single (.queueConnect c _ h)
  split
  · exact .refl
  split
  · exact .refl
  · next h _ _ => exact .single (.queueTail c _ h)

theorem activateScheduledActions_calm : Calms c (activateScheduledActions c) := by
  have hreconnect : Calms c (activateReconnect c) := by
    unfold activateReconnect
    split
    · exact .single (.keep ⟨rfl, rfl, rfl, rfl⟩ rfl (by simp [Plain]))
    · exact .refl
  unfold activateScheduledActions activateClose
  split
  · exact hreconnect.trans (keeps ⟨rfl, rfl, rfl, rfl⟩ rfl)
  · exact hreconnect

variable {res : Bool × Client}

theorem addSubscription_calm {sub : Subscription} (hres : addSubscription A sub c = some res) :
    Calms c res.2 := by
  have hset : ∀ i, Calms c { c with subscriptions := c.subscriptions.set i sub } :=
    fun _ => keeps ⟨rfl, rfl, rfl, rfl⟩ rfl
  dsimp only [addSubscription] at hres
  split at hres
  · cases hres
  split at hres
  · cases hres
    exact .refl
  split at hres
  · cases hres
  split at hres
  · cases hres
    exact .refl
  split at hres
  · cases hres
    exact (hset _).trans (putSubscription_calm _ _ fun e => subscribe_packets _ _ _ _ _ e)
  · cases hres
    exact hset _

theorem deleteSubscription_calm {subinstance : Int}
    (hres : deleteSubscription A subinstance c = some res) : Calms c res.2 := by
  dsimp only [deleteSubscription] at hres
  split at hres
  · cases hres
    exact .refl
  split at hres
  · cases hres
    exact .refl
  split at hres
  · cases hres
  · cases hres
    exact .single (.keep ⟨rfl, rfl, rfl, rfl⟩ rfl fun e he =>
      (dropSubscription_packets _ _ _ _ e he).plain)

theorem scheduleResubscription_calm {newSub : Subscription}
    (hres : scheduleResubscription A newSub c = some res) : Calms c res.2 := by
  dsimp only [scheduleResubscription] at hres
  split at hres
  · cases hres
  split at hres
  · cases hres
    exact .refl
  split at hres
  · cases hres
  split at hres
  · cases hres
    exact .refl
  split at hres
  · cases hres
    exact .refl
  split at hres
  · cases hres
    exact keeps ⟨rfl, rfl, rfl, rfl⟩ rfl
  · cases hres
    exact putSubscription_calm _ _ fun e => changeSubscription_packets _ _ _ _ _ e

end Subscriptions

/-- What sending the head of the queue leaves behind. -/
def sent (item : SendItem) (rest : List SendItem) (mid : Int) (c : Client) : Client :=
  { c.emit (.publish item mid) with
    disconnectMid := if item.contentType = .disconnectRecord then mid else invalidMosquittoMid
    queue := rest }

theorem sendStep_cases {A : Answers} {c c' : Client} (h : sendStep A c = some c') :
    c' = c ∨ ∃ item rest mid, c.queue = item :: rest ∧ publish A item c = some (some mid) ∧
      c' = sent item rest mid c := by
  unfold sendStep at h
  split at h
  · cases h
    exact .inl rfl
  · next item rest hqueue =>
    obtain ⟨mid, hpublish, rfl⟩ := map_eq_some_iff.mp h
    cases mid with
    | none => exact .inl rfl
    | some mid => exact .inr ⟨item, rest, mid, hqueue, hpublish, rfl⟩

/-- The operation has sent the head of the queue. -/
structure Sends (op : SlotOp) (c c' : Client) : Prop where
  running : c.state = .running
  sent : ∃ A item rest mid, op = .updateSockSet A ∧ c.queue = item :: rest ∧
    publish A item c = some (some mid) ∧ c' = sent item rest mid c

theorem updateSockSet_cases {A : Answers} {c c' : Client} (h : updateSockSet A c = some c') :
    Sends (.updateSockSet A) c c' ∨ Calms c c' := by
  unfold updateSockSet at h
  split at h
  · next hrunning =>
    rcases sendStep_cases h with rfl | ⟨item, rest, mid, hqueue, hpublish, rfl⟩
    · exact .inr .refl
    · exact .inl ⟨hrunning, A, item, rest, mid, rfl, hqueue, hpublish, rfl⟩
  · cases h
    exact .inr (retryStep_calm A c)
  · cases h
    exact .inr .refl

/-- The operation has called `mosquitto_connect`. -/
structure Connects (op : SlotOp) (c c' : Client) : Prop where
  sendingConnect : c.state = .sendingConnect
  connects : ∃ A, op = .connectStart A ∧ c' = c.emit (.connect (connectArgs c.connParams))

/-- An operation sends the head of the queue, calls `mosquitto_connect`, is a chain of
calm moves, or is a CONNACK. -/
theorem apply_calm {op : SlotOp} {c c' : Client} (h : op.apply c = some c')
    (hconnack : ∀ A cb, op = .callback A cb → ¬ IsConnack cb) :
    Sends op c c' ∨ Connects op c c' ∨ Calms c c' := by
  cases op
  case updateSockSet =>
    rcases updateSockSet_cases h with hsends | hmoves
    · exact .inl hsends
    · exact .inr (.inr hmoves)
  case connectStart A =>
    obtain ⟨hstate, h⟩ := ite_none_right_eq_some.mp h
    cases h
    rcases connectStart_cases A c with hconnect | hmoves
    · exact .inr (.inl ⟨hstate, A, rfl, hconnect⟩)
    · exact .inr (.inr hmoves)
  all_goals refine .inr (.inr ?_)
  case addSubscription =>
    obtain ⟨res, hres, rfl⟩ := map_eq_some_iff.mp h
    exact addSubscription_calm _ c hres
  case deleteSubscription =>
    obtain ⟨res, hres, rfl⟩ := map_eq_some_iff.mp h
    exact deleteSubscription_calm _ c hres
  case scheduleResubscription =>
    obtain ⟨res, hres, rfl⟩ := map_eq_some_iff.mp h
    exact scheduleResubscription_calm _ c hres
  all_goals cases h
  case enableClient A p subs => exact enableClient_calm A c p subs
  case disableClient =>
    exact .single (.keep ⟨rfl, rfl, rfl, rfl⟩ rfl (by simp [Plain]))
  case queueBinaryMessage contentType pbuf topic =>
    exact queueBinaryMessage_calm c contentType pbuf topic
  case scheduleReconnect p =>
    exact .single (.keep ⟨rfl, rfl, rfl, rfl⟩ rfl (by simp [Plain]))
  case activateScheduledActions => exact activateScheduledActions_calm c
  case connectDone A success => exact connectDone_calm A c success
  case callback A cb => exact callback_calm A c (hconnack A cb rfl)
  case reconnect A => exact reconnectTest_calm A c
  case close A => exact closeTest_calm A c
  case disconnected A => exact disconnectTest_calm A c

/-- An operation sends the head of the queue, calls `mosquitto_connect`, or is a chain
of moves. -/
theorem apply_cases {op : SlotOp} {c c' : Client} (h : op.apply c = some c') :
    Sends op c c' ∨ Connects op c c' ∨ Moves c c' := by
  by_cases hcallback : ∃ A cb, op = .callback A cb
  · obtain ⟨A, cb, rfl⟩ := hcallback
    cases h
    exact .inr (.inr (callback_moves A c cb))
  · have hcalm := apply_calm h fun A cb hop => absurd ⟨A, cb, hop⟩ hcallback
    exact hcalm.imp_right (Or.imp_right moves_of_calms)

end MqttMoves
