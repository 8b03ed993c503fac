import SdtTr369.MqttThread

/-!
# A session with the broker

What the broker has subscribed in a session, and which SUBACKs and UNSUBACKs it owes. A
session begins with its CONNACK and is clean. Libmosquitto delivers the packets of a slot
in order, so what the broker has subscribed is read off the log.
-/

namespace MqttSession

open UspTypes UspRecord MqttClient MqttCallbacks MqttThread List

inductive Ack where
  | suback (mid : Int)
  | unsuback (mid : Int)
  deriving DecidableEq, Repr

structure Broker where
  topics : List Str
  outstanding : List Ack
  deriving DecidableEq, Repr

def Broker.take (b : Broker) : Event → Broker
  | .connack _ => ⟨[], []⟩
  | .subscribe topic _ mid => ⟨topic :: b.topics, b.outstanding ++ [.suback mid]⟩
  | .unsubscribe topic mid => ⟨b.topics.filter (· ≠ topic), b.outstanding ++ [.unsuback mid]⟩
  | _ => b

/-- The acknowledgement that a callback brings is not outstanding any more. -/
def Broker.acknowledge (b : Broker) : SlotOp → Broker
  | .callback _ (.subscribe mid) => { b with outstanding := b.outstanding.erase (.suback mid) }
  | .callback _ (.unsubscribe mid) => { b with outstanding := b.outstanding.erase (.unsuback mid) }
  | _ => b

/-- A slot with its broker. -/
structure Watched where
  client : Client
  broker : Broker

def initWatched : Watched := ⟨initClient, ⟨[], []⟩⟩

/-- What a slot has logged since. -/
def newEvents (c c' : Client) : List Event := c'.log.drop c.log.length

/-- One operation on the slot; `none` is a failed assertion. -/
def watch (op : SlotOp) (w : Watched) : Option Watched :=
  (op.apply w.client).map fun c =>
    ⟨c, (newEvents w.client c).foldl Broker.take (w.broker.acknowledge op)⟩

variable {es : List Event}

theorem newEvents_eq {c c' : Client} (h : c'.log = c.log ++ es) : newEvents c c' = es := by
  rw [newEvents, h, drop_left]

/-- The event is no packet about a topic and begins no session. -/
def Aside : Event → Prop
  | .connack _ | .subscribe .. | .unsubscribe .. => False
  | _ => True

theorem take_aside (hes : ∀ e ∈ es, Aside e) (b : Broker) : es.foldl Broker.take b = b := by
  induction es with
  | nil => rfl
  | cons e es ih =>
    have he : b.take e = b := by
      have := hes e mem_cons_self
      cases e <;> first | rfl | cases this
    rw [foldl_cons, he]
    exact ih fun e' he' => hes e' (mem_cons_of_mem _ he')

/-! ## What leaves a session as it is -/

/-- The entries are the same, and so is the session, unless it has ended. -/
structure Untouched (c c' : Client) : Prop where
  subscriptions : c'.subscriptions = c.subscriptions
  running : c'.state = .running → c.state = .running
  response : c'.state = .running → c'.responseSubscription = c.responseSubscription
  version : c'.state = .running → c'.connParams.version = c.connParams.version
  log : ∃ es, c'.log = c.log ++ es ∧ ∀ e ∈ es, Aside e

namespace Untouched

variable {c c' c'' : Client}

theorem refl (c : Client) : Untouched c c :=
  ⟨rfl, id, fun _ => rfl, fun _ => rfl, [], (append_nil _).symm, by simp⟩

theorem trans (h : Untouched c c') (h' : Untouched c' c'') : Untouched c c'' := by
  obtain ⟨es, hlog, hes⟩ := h.log
  obtain ⟨es', hlog', hes'⟩ := h'.log
  refine ⟨h'.subscriptions.trans h.subscriptions, fun hr => h.running (h'.running hr),
    fun hr => (h'.response hr).trans (h.response (h'.running hr)),
    fun hr => (h'.version hr).trans (h.version (h'.running hr)), es ++ es', ?_, ?_⟩
  · rw [hlog', hlog, append_assoc]
  · exact List.forall_mem_append.mpr ⟨hes, hes'⟩

/-- Nothing that a session is about has changed. -/
theorem of_same (hlog : c'.log = c.log ++ es) (hes : ∀ e ∈ es, Aside e)
    (hsubs : c'.subscriptions = c.subscriptions) (hstate : c'.state = c.state)
    (hresponse : c'.responseSubscription = c.responseSubscription)
    (hversion : c'.connParams.version = c.connParams.version) : Untouched c c' :=
  ⟨hsubs, fun hr => hstate ▸ hr, fun _ => hresponse, fun _ => hversion, es, hlog, hes⟩

/-- The session has ended. -/
theorem of_ended (hlog : c'.log = c.log ++ es) (hes : ∀ e ∈ es, Aside e)
    (hsubs : c'.subscriptions = c.subscriptions) (hstate : c'.state ≠ .running) : Untouched c c' :=
  ⟨hsubs, fun hr => absurd hr hstate, fun hr => absurd hr hstate, fun hr => absurd hr hstate,
    es, hlog, hes⟩

end Untouched

section Connection

variable (A : Answers) (c : Client)

/-- A context that cannot be made leaves the state as it is. -/
theorem enableMqttClient_untouched
    (h : c.state ≠ .running ∨ (A.mosquittoNew && A.intOption) = true) :
    Untouched c (enableMqttClient A c).2 := by
  unfold enableMqttClient enableMosquitto
  cases hnew : A.mosquittoNew && A.intOption with
  | true => exact .of_ended rfl (by simp [Aside]) rfl (by simp)
  | false =>
    refine .of_ended rfl (by simp [Aside]) rfl ?_
    exact h.resolve_right (by simp [hnew])

theorem disconnectClient_untouched : Untouched c (disconnectClient A c) := by
  unfold disconnectClient
  split
  · exact .of_ended rfl (by simp [Aside]) rfl (by simp)
  · exact .refl c

theorem cleanMqttClient_untouched (isReconnect : Bool) :
    Untouched c (cleanMqttClient isReconnect c) := by
  cases isReconnect with
  | true => exact .of_ended rfl (by simp [Aside]) rfl (by simp [cleanMqttClient])
  | false =>
    refine .of_ended (append_assoc ..) ?_ rfl (by simp [cleanMqttClient])
    simp [Aside]

theorem handleMqttReconnectAfterDisconnect_untouched :
    Untouched c (handleMqttReconnectAfterDisconnect A c) := by
  unfold handleMqttReconnectAfterDisconnect
  split
  · have hnext : Untouched c
        (takeNextParams { cleanMqttClient true c with isReconnect := false }) :=
      .of_ended rfl (by simp [Aside]) rfl (by simp [takeNextParams, cleanMqttClient])
    exact hnext.trans (enableMqttClient_untouched A _
      (.inl (by simp [takeNextParams, cleanMqttClient])))
  · exact cleanMqttClient_untouched c false

theorem handleMqttError_untouched (failure : MqttFailure) :
    Untouched c (handleMqttError A failure c) := by
  unfold handleMqttError
  split
  · exact handleMqttReconnectAfterDisconnect_untouched A c
  · have hnote : Untouched c { noteFailure A failure c with isReconnect := false } := by
      unfold noteFailure
      split <;> exact .of_same (append_nil _).symm (by simp) rfl rfl rfl rfl
    exact (hnote.trans (disconnectClient_untouched A _)).trans
      (.of_ended (append_nil _).symm (by simp) rfl (by simp [enterRetry, startRetry]))

/-- A failure ends the session. -/
theorem handleMqttError_ended (failure : MqttFailure) :
    (handleMqttError A failure c).state ≠ .running := by
  unfold handleMqttError
  split
  · intro hrunning
    have h := handleMqttReconnectAfterDisconnect_untouched A c
    have hwait : c.state = .awaitingDisconnect := (by assumption : _ ∧ _).1
    rw [h.running hrunning] at hwait
    cases hwait
  · simp [enterRetry, startRetry]

/-- The context of a scheduled reconnect can be made, where it is made at once. -/
def Reconnects (A : Answers) (c : Client) : Prop :=
  c.state = .running → c.scheduleReconnect = .activated → c.queue = [] →
    socketOpen A c = true ∨ (A.mosquittoNew && A.intOption) = true

instance (A : Answers) (c : Client) : Decidable (Reconnects A c) :=
  inferInstanceAs (Decidable (_ → _ → _ → _ ∨ _))

theorem reconnectTest_untouched (h : Reconnects A c) : Untouched c (reconnectTest A c) := by
  have hflag : Untouched c { c with isReconnect := true } :=
    .of_same (append_nil _).symm (by simp) rfl rfl rfl rfl
  have hnext : c.state ≠ .running → Untouched c (enableMqttClient A (takeNextParams c)).2 := by
    intro hstate
    have htake : Untouched c (takeNextParams c) :=
      .of_ended (append_nil _).symm (by simp) rfl hstate
    exact htake.trans (enableMqttClient_untouched A _ (.inl hstate))
  unfold reconnectTest
  split
  · next hscheduled =>
    unfold handleMqttReconnect
    split
    case h_1 hstate | h_2 hstate => exact hnext (by simp [hstate])
    case h_3 => exact hflag
    case h_4 hstate | h_5 hstate =>
      split
      · exact hflag.trans (disconnectClient_untouched A _)
      · exact hnext (by simp [hstate])
    case h_6 hstate =>
      split
      · exact hflag.trans (disconnectClient_untouched A _)
      · next hclosed =>
        have hnew := (h hstate hscheduled.1 hscheduled.2).resolve_left hclosed
        unfold enableMqttClient enableMosquitto
        rw [hnew]
        exact .of_ended rfl (by simp [Aside]) rfl (by simp)
  · exact .refl c

theorem closeTest_untouched : Untouched c (closeTest A c) := by
  have hflag : Untouched c { c with isReconnect := false } :=
    .of_same (append_nil _).symm (by simp) rfl rfl rfl rfl
  unfold closeTest handleMqttClose
  split
  · split
    case h_1 => exact hflag
    case h_2 | h_3 | h_4 => exact cleanMqttClient_untouched c false
    all_goals
      split
      · exact hflag.trans (disconnectClient_untouched A _)
      · exact .refl c
  · exact .refl c

theorem disconnectTest_untouched : Untouched c (disconnectTest A c) := by
  have hflag : Untouched c { c with isDisconnected := false } :=
    .of_same (append_nil _).symm (by simp) rfl rfl rfl rfl
  unfold disconnectTest
  split
  · dsimp only [handleMqttDisconnect]
    split
    case h_1 | h_2 => exact hflag
    case h_3 => exact hflag.trans (handleMqttReconnectAfterDisconnect_untouched A _)
    all_goals exact hflag.trans (handleMqttError_untouched A _ .otherError)
  · exact .refl c

theorem connectStart_untouched : Untouched c (connectStart A c).2 := by
  dsimp only [connectStart]
  split
  · exact (handleMqttError_untouched A c .otherError).trans
      (handleMqttError_untouched A _ .connect)
  split
  · exact (handleMqttError_untouched A c .misconfigured).trans
      (handleMqttError_untouched A _ .connect)
  split
  · exact handleMqttError_untouched A c .connect
  · exact .of_same rfl (by simp [Aside]) rfl rfl rfl rfl

theorem connectDone_untouched (success : Bool) : Untouched c (connectDone A success c) := by
  cases success with
  | true => exact .of_ended (append_nil _).symm (by simp) rfl (by simp [connectDone])
  | false => exact handleMqttError_untouched A c .connect

theorem updateSockSet_untouched {c' : Client} (h : updateSockSet A c = some c') :
    Untouched c c' := by
  unfold updateSockSet at h
  split at h
  · unfold sendStep at h
    split at h
    · cases h
      exact .refl c
    · obtain ⟨sent, -, rfl⟩ := Option.map_eq_some_iff.mp h
      dsimp only
      split
      · exact .refl c
      · exact .of_same rfl (by simp [Aside]) rfl rfl rfl rfl
  · next hstate =>
    cases h
    have hnext : Untouched c (retryAtOnce A c) ∧ (retryAtOnce A c).state ≠ .running := by
      unfold retryAtOnce
      split
      · exact ⟨.of_ended (append_nil _).symm (by simp) rfl (by simp [takeNextParams, hstate]),
          by simp [takeNextParams, hstate]⟩
      · exact ⟨.refl c, by simp [hstate]⟩
    unfold retryStep retryWhenDue
    split
    · exact hnext.1.trans (handleMqttError_untouched A _ _)
    split
    · exact hnext.1.trans (enableMqttClient_untouched A _ (.inl hnext.2))
    · exact hnext.1
  · cases h
    exact .refl c

end Connection

section Requests

variable (c : Client)

theorem queueBinaryMessage_untouched (contentType : MtpContentType) (pbuf : Bytes)
    (topic : Option Str) : Untouched c (queueBinaryMessage contentType pbuf topic c).2 := by
  unfold queueBinaryMessage
  split
  · refine .of_same (append_assoc ..) ?_ rfl rfl rfl rfl
    rw [forall_mem_append, forall_mem_map]
    exact ⟨fun _ _ => trivial, by simp [Aside]⟩
  split
  · exact .refl c
  dsimp only
  split
  · exact .refl c
  · exact .of_same rfl (by simp [Aside]) rfl rfl rfl rfl

theorem activateScheduledActions_untouched : Untouched c (activateScheduledActions c) := by
  have hreconnect : Untouched c (activateReconnect c) := by
    unfold activateReconnect
    split
    · exact .of_same rfl (by simp [Aside]) rfl rfl rfl rfl
    · exact .refl c
  unfold activateScheduledActions activateClose
  split
  · exact hreconnect.trans (.of_same (append_nil _).symm (by simp) rfl rfl rfl rfl)
  · exact hreconnect

theorem publishCallback_untouched (A : Answers) (mid : Int) :
    Untouched c (publishCallback A mid c) := by
  have hemit : Untouched c (c.emit (.publishComplete mid)) :=
    .of_same rfl (by simp [Aside]) rfl rfl rfl rfl
  dsimp only [publishCallback]
  split
  · exact hemit.trans (handleMqttError_untouched A _ .otherError)
  · exact hemit

theorem messageCallback_untouched (m : Message) : Untouched c (messageCallback m c) := by
  unfold messageCallback
  split
  · exact .refl c
  split
  · exact .refl c
  · exact .of_same rfl (by simp [Aside]) rfl rfl rfl rfl

end Requests

end MqttSession
