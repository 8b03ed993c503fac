import SdtTr369.MqttFlags
import SdtTr369.MqttMoves

/-!
# The scheduled requests of a slot

Each operation on a slot does to its flags what the abstract transitions say. A request
that waits is cleared by a retry, by a reconnect that starts at once, and by an enable
that fails; an operation is gentle when it does none of these.
-/

namespace MqttRequestSlot

open UspTypes UspRecord MqttClient MqttCallbacks MqttThread MqttFlags MqttMoves List

def view (c : Client) : Flags where
  state := c.state
  isReconnect := c.isReconnect
  scheduleReconnect := c.scheduleReconnect
  scheduleClose := c.scheduleClose
  inst := c.connParams.inst
  args := connectArgs c.connParams
  nextInst := c.nextParams.inst
  nextArgs := connectArgs c.nextParams
  ledger := ledger c.log

/-- `EnableMosquitto` succeeds. -/
def enables (A : Answers) : Bool := A.mosquittoNew && A.intOption

/-! ## Connecting and disconnecting -/

variable {c' : Client} {op : SlotOp} {f' : Flags}

section Connection

variable (A : Answers) (c : Client)

theorem view_emit (e : Event) : view (c.emit e) = (view c).note e := by
  simp [view, Client.emit, Flags.note]

theorem ledger_purged (l : Ledger) (queue : List SendItem) :
    (queue.map Event.purged).foldl Ledger.after l = l := by
  rw [foldl_map]
  exact foldl_fixed' (fun _ => rfl) _

theorem view_cleanMqttClient (isReconnect : Bool) :
    view (cleanMqttClient isReconnect c) = (view c).clean isReconnect := by
  cases isReconnect <;>
    simp [view, cleanMqttClient, Flags.clean, Flags.note, Flags.destroyedArgs, ledger_purged,
      destroyedConnParams]

theorem view_enableMqttClient : view (enableMqttClient A c).2 = (view c).enable (enables A) := by
  unfold enableMqttClient enableMosquitto enables
  cases A.mosquittoNew && A.intOption <;>
    simp [view, Client.emit, Flags.enable, Ledger.after, connectArgs]

theorem enableMqttClient_fst : (enableMqttClient A c).1 = enables A := by
  unfold enableMqttClient enableMosquitto enables
  cases A.mosquittoNew && A.intOption <;> rfl

theorem view_takeNextParams : view (takeNextParams c) = (view c).takeNext := rfl

theorem view_disconnectClient :
    view (disconnectClient A c) = (view c).disconnect (socketOpen A c) := by
  unfold disconnectClient Flags.disconnect
  split <;> simp [view, Client.emit, Ledger.after]

theorem view_handleMqttReconnectAfterDisconnect :
    view (handleMqttReconnectAfterDisconnect A c) = (view c).afterDisconnect (enables A) := by
  unfold handleMqttReconnectAfterDisconnect Flags.afterDisconnect
  have hflag : (view c).isReconnect = c.isReconnect := rfl
  rw [hflag]
  split
  · have hnext : view (takeNextParams { cleanMqttClient true c with isReconnect := false }) =
        Flags.takeNext { (view c).clean true with isReconnect := false } := by
      rw [← view_cleanMqttClient]
      rfl
    rw [view_enableMqttClient, hnext]
  · exact view_cleanMqttClient c false

theorem view_enterRetry (failure : MqttFailure) : view (enterRetry A failure c) = (view c).retry := by
  unfold enterRetry disconnectClient noteFailure
  split <;> split <;>
    simp [view, startRetry, Client.emit, Flags.retry, Ledger.after]

theorem view_handleMqttError (failure : MqttFailure) :
    view (handleMqttError A failure c) = (view c).error (enables A) := by
  unfold handleMqttError Flags.error
  have hstate : (view c).state = c.state := rfl
  have hflag : (view c).isReconnect = c.isReconnect := rfl
  rw [hstate, hflag]
  split
  · exact view_handleMqttReconnectAfterDisconnect A c
  · exact view_enterRetry A c failure

theorem view_handleMqttReconnect :
    view (handleMqttReconnect A c) = (view c).reconnect (socketOpen A c) (enables A) := by
  have henable : view (enableMqttClient A (takeNextParams c)).2 =
      (view c).takeNext.enable (enables A) := view_enableMqttClient A _
  obtain ⟨p, state⟩ := c
  cases state
  case idle | errorRetrying => exact henable
  case awaitingDisconnect => rfl
  all_goals
    dsimp only [handleMqttReconnect, Flags.reconnect, view]
    split
    · next hsocket => exact (view_disconnectClient A _).trans (if_pos hsocket)
    · exact henable

theorem view_handleMqttClose :
    view (handleMqttClose A c) = (view c).close (socketOpen A c) (c.queue = []) := by
  obtain ⟨p, state⟩ := c
  cases state
  case awaitingDisconnect => rfl
  case idle | sendingConnect | errorRetrying => exact view_cleanMqttClient _ false
  all_goals
    dsimp only [handleMqttClose, Flags.close, view]
    simp only [decide_eq_true_eq]
    split
    · exact view_disconnectClient A _
    · rfl

theorem view_handleMqttDisconnect :
    view (handleMqttDisconnect A c) = (view c).disconnected (enables A) := by
  obtain ⟨p, state⟩ := c
  cases state
  case idle | errorRetrying => rfl
  case awaitingDisconnect => exact view_handleMqttReconnectAfterDisconnect A _
  all_goals exact view_handleMqttError A _ .otherError

theorem view_retryAtOnce : view (retryAtOnce A c) = (view c).retryAtOnce := by
  unfold retryAtOnce Flags.retryAtOnce
  have hflag : (view c).scheduleReconnect = c.scheduleReconnect := rfl
  rw [hflag]
  split
  · exact view_takeNextParams c
  · rfl

theorem view_sendStep (h : sendStep A c = some c') : view c' = view c := by
  unfold sendStep at h
  split at h
  · cases h
    rfl
  · obtain ⟨mid, -, rfl⟩ := Option.map_eq_some_iff.mp h
    cases mid <;> simp [view, Client.emit, Ledger.after]

end Connection

section Queue

variable (c : Client)

theorem view_queueBinaryMessage (contentType : MtpContentType) (pbuf : Bytes) (topic : Option Str) :
    view (queueBinaryMessage contentType pbuf topic c).2 = view c := by
  have hsuperseded : ∀ l, ((stale c.queue).map Event.superseded).foldl Ledger.after l = l := by
    intro l
    rw [foldl_map]
    exact foldl_fixed' (fun _ => rfl) _
  dsimp only [queueBinaryMessage]
  split
  · rw [view, queueUspConnectRecord_log, ledger_append, foldl_append, hsuperseded]
    rfl
  split
  · rfl
  split
  · rfl
  · exact view_emit c _

theorem view_disableClient : view (disableClient c) = (view c).disable := by
  simp [view, disableClient, Client.emit, Flags.disable, Flags.note]

theorem view_scheduleReconnect (p : ConnParams) :
    view (scheduleReconnect p c) = (view c).request p := by
  simp only [view, scheduleReconnect, Client.emit, Flags.request, Flags.note, ledger_append,
    foldl_cons, foldl_nil]
  rfl

theorem view_activateScheduledActions : view (activateScheduledActions c) = (view c).activate := by
  have hreconnect : view (activateReconnect c) = (view c).activateReconnect := by
    unfold activateReconnect Flags.activateReconnect
    have hflag : (view c).scheduleReconnect = c.scheduleReconnect := rfl
    rw [hflag]
    split
    · simp [view, Client.emit, Flags.note]
    · rfl
  dsimp only [activateScheduledActions, Flags.activate]
  rw [← hreconnect, activateClose]
  have hflag : (view (activateReconnect c)).scheduleClose = (activateReconnect c).scheduleClose := rfl
  rw [hflag]
  split
  · rfl
  · rfl

/-- `MQTT_EnableClient` takes the parameters over, or refuses to and changes nothing
but the instance number. -/
theorem view_enableClient (A : Answers) (p : ConnParams) (subs : List Subscription) :
    (view (enableClient A p subs c).2 = view c ∧ (enableClient A p subs c).1 = false) ∨
      (view (enableClient A p subs c).2 = { view c with inst := p.inst } ∧
        (enableClient A p subs c).1 = false ∧ c.state ≠ .idle ∧ c.state ≠ .errorRetrying) ∨
      (view (enableClient A p subs c).2 = (view c).enableClient p (enables A) ∧
        (enableClient A p subs c).1 = (!p.enable || enables A) ∧
        subs.any lacksTopic = false ∧ (c.state = .idle ∨ c.state = .errorRetrying)) := by
  dsimp only [enableClient]
  split
  · exact .inl ⟨rfl, rfl⟩
  split
  · next hstate => exact .inr (.inl ⟨rfl, rfl, hstate⟩)
  · next htopics hstate =>
    refine .inr (.inr ?_)
    have hsubs : subs.any lacksTopic = false := by simpa using htopics
    have hidle : c.state = .idle ∨ c.state = .errorRetrying := by
      by_contra hnot
      exact hstate (not_or.mp hnot)
    have htaken : view { c.emit (.enable p) with
        connParams := p, nextParams := p, subscriptions := subs, retryTime := 0, retryCount := 0 } =
        { (view c).note (.enable p) with
          inst := p.inst, args := connectArgs p, nextInst := p.inst, nextArgs := connectArgs p } := by
      simp [view, Client.emit, Flags.note]
    have hstarted := view_enableMqttClient A { c.emit (.enable p) with
      connParams := p, nextParams := p, subscriptions := subs, retryTime := 0, retryCount := 0 }
    rw [htaken] at hstarted
    dsimp only [Flags.enableClient]
    rw [enableMqttClient_fst]
    cases p.enable
    · exact ⟨htaken, rfl, hsubs, hidle⟩
    · refine ⟨?_, by simp, hsubs, hidle⟩
      cases henables : enables A
      · rw [henables] at hstarted
        exact hstarted
      · rw [henables] at hstarted
        exact (view_emit _ _).trans (congrArg (Flags.note · .enabled) hstarted)

end Queue

section Subscriptions

variable {c : Client}

theorem ledger_packets {es : List Event} (hes : ∀ e ∈ es, IsPacket e) (l : Ledger) :
    es.foldl Ledger.after l = l := by
  induction es with
  | nil => rfl
  | cons e es ih =>
    have he : l.after e = l := by
      have hpacket := hes e (by simp)
      cases e <;> first | rfl | cases hpacket
    rw [foldl_cons, he]
    exact ih fun e' he' => hes e' (mem_cons_of_mem _ he')

theorem view_putSubscription (i : Nat) {res : Bool × Subscription × List Event}
    (hres : ∀ e ∈ res.2.2, IsPacket e) : view (putSubscription i res c) = view c := by
  simp [view, putSubscription, ledger_packets hres]

theorem view_putResponseSubscription {res : Bool × Subscription × List Event}
    (hres : ∀ e ∈ res.2.2, IsPacket e) : view (putResponseSubscription res c) = view c := by
  simp [view, putResponseSubscription, ledger_packets hres]

variable {res : Bool × Client}

theorem view_addSubscription {A : Answers} {sub : Subscription}
    (hres : addSubscription A sub c = some res) : view res.2 = view c := by
  dsimp only [addSubscription] at hres
  split at hres
  · cases hres
  split at hres
  · cases hres
    rfl
  split at hres
  · cases hres
  split at hres
  · cases hres
    rfl
  split at hres
  · cases hres
    exact view_putSubscription _ fun e => subscribe_packets _ _ _ _ _ e
  · cases hres
    rfl

theorem view_deleteSubscription {A : Answers} {subinstance : Int}
    (hres : deleteSubscription A subinstance c = some res) : view res.2 = view c := by
  dsimp only [deleteSubscription] at hres
  split at hres
  · cases hres
    rfl
  split at hres
  · cases hres
    rfl
  split at hres
  · cases hres
  · next sub _ _ =>
    cases hres
    have hes := dropSubscription_packets A c.connParams.version sub (c.state = .running)
    simp [view, ledger_packets hes]

theorem view_scheduleResubscription {A : Answers} {newSub : Subscription}
    (hres : scheduleResubscription A newSub c = some res) : view res.2 = view c := by
  dsimp only [scheduleResubscription] at hres
  split at hres
  · cases hres
  split at hres
  · cases hres
    rfl
  split at hres
  · cases hres
  split at hres
  · cases hres
    rfl
  split at hres
  · cases hres
    rfl
  split at hres
  · cases hres
    rfl
  · cases hres
    exact view_putSubscription _ fun e => changeSubscription_packets _ _ _ _ _ e

end Subscriptions

/-! ## Callbacks -/

/-- The client is as it was, or has gone into the retry state. -/
def Retries (f f' : Flags) : Prop := f' = f ∨ f' = f.retry

namespace Retries

variable {f : Flags} {A : Answers} {c : Client}

theorem refl (f : Flags) : Retries f f := .inl rfl

theorem state (h : Retries f (view c)) (hstate : f.state ≠ .awaitingDisconnect) :
    c.state ≠ .awaitingDisconnect := by
  change (view c).state ≠ _
  rcases h with h | h
  · rwa [h]
  · rw [h]
    simp [Flags.retry]

theorem error (h : Retries f (view c)) (hstate : f.state ≠ .awaitingDisconnect)
    (failure : MqttFailure) : Retries f (view (handleMqttError A failure c)) := by
  have hnot : ¬ ((view c).state = .awaitingDisconnect ∧ (view c).isReconnect) :=
    fun hawaiting => h.state hstate hawaiting.1
  rw [view_handleMqttError, Flags.error, if_neg hnot]
  rcases h with h | h <;> rw [h]
  · exact .inr rfl
  · exact .inr rfl

theorem subscribeEntry (h : Retries f (view c)) (hstate : f.state ≠ .awaitingDisconnect) (i : Nat) :
    Retries f (view (subscribeEntry A i c)) := by
  unfold MqttCallbacks.subscribeEntry
  split
  · exact h
  · next sub hsub =>
    have hput : Retries f (view (putSubscription i
        (subscribe A c.connParams.version false (A.subscribe i) sub) c)) := by
      rwa [view_putSubscription i fun e => subscribe_packets _ _ _ _ _ e]
    dsimp only
    split
    · split
      · exact hput
      · exact hput.error hstate .otherError
    · exact h

theorem subscribeEntries (hstate : f.state ≠ .awaitingDisconnect) (is : List Nat) :
    ∀ {c : Client}, Retries f (view c) → Retries f (view (subscribeEntries A is c)) := by
  induction is with
  | nil => exact fun {c} h => h
  | cons i is ih => exact fun {c} h => ih (h.subscribeEntry hstate i)

theorem subscribeResponse (h : Retries f (view c)) (hstate : f.state ≠ .awaitingDisconnect) :
    Retries f (view (subscribeResponse A c)) := by
  have hput : Retries f (view (putResponseSubscription (subscribe A c.connParams.version true
      (A.subscribe maxMqttSubscriptions) c.responseSubscription) c)) := by
    rwa [view_putResponseSubscription fun e => subscribe_packets _ _ _ _ _ e]
  dsimp only [MqttCallbacks.subscribeResponse]
  split
  · exact hput
  · exact hput.error hstate .otherError

theorem subscribeToAll (h : Retries f (view c)) (hstate : f.state ≠ .awaitingDisconnect) :
    Retries f (view (subscribeToAll A c)) := by
  dsimp only [MqttCallbacks.subscribeToAll]
  split
  · exact h.error hstate .misconfigured
  · rw [view_emit]
    exact ((h.subscribeEntries hstate _)).subscribeResponse hstate

end Retries

/-- The callback calls `HandleMqttError`, or a connection comes up. -/
def handlesConnection (cb : Callback) (c : Client) : Bool :=
  match cb with
  | .connect .. =>
    c.callbacksV5 || c.state = .awaitingConnect || c.state = .errorRetrying
  | .publish mid => mid = c.disconnectMid
  | _ => false

theorem view_takeControllerTrust (T : TrustStore) (c : Client) :
    view (takeControllerTrust T c) = view c := by
  unfold takeControllerTrust
  split <;> rfl

theorem view_readConnackProps (props : ConnackProps) (c : Client) :
    view (readConnackProps props c) = view c := by
  unfold readConnackProps saveAgentTopic
  split <;> simp [view, connectArgs]

/-- What a callback does to the flags. -/
theorem view_callback (A : Answers) (cb : Callback) (c : Client) :
    view (callback A cb c) = view c ∨
      handlesConnection cb c ∧
        (view (callback A cb c) = (view c).error (enables A) ∨
          (c.state = .awaitingConnect ∨ c.state = .errorRetrying) ∧
            Retries { view c with state := .running } (view (callback A cb c))) := by
  have hconnected : ∀ c', view c' = view c →
      Retries { view c with state := .running } (view (connected A c')) := by
    intro c' hview
    have hrunning : view { c' with retryTime := 0, retryCount := 0, state := .running } =
        { view c with state := .running } := by
      rw [← hview]
      rfl
    apply Retries.subscribeToAll
    · rw [hrunning]
      exact Retries.refl _
    · simp
  have hconnack : view (c.emit (.connack A.trust)) = view c := view_emit c _
  cases cb with
  | certVerify chain => exact .inl (view_emit c _)
  | connect accepted props =>
    dsimp only [callback]
    split
    · next hv5 =>
      refine .inr ⟨by simp [handlesConnection, hv5], ?_⟩
      unfold connectV5Callback
      split
      · exact .inl (view_handleMqttError A c _)
      · next hstate =>
        split
        · exact .inl (view_handleMqttError A c _)
        · refine .inr ⟨by simpa [or_iff_not_imp_left] using hstate, hconnected _ ?_⟩
          rw [view_readConnackProps, view_takeControllerTrust, hconnack]
    · unfold connectCallback
      split
      · exact .inl rfl
      · next hstate =>
        have hwaits : c.state = .awaitingConnect ∨ c.state = .errorRetrying := by
          simpa [or_iff_not_imp_left] using hstate
        refine .inr ⟨by simp [handlesConnection, or_assoc, hwaits], ?_⟩
        split
        · exact .inl (view_handleMqttError A c _)
        · refine .inr ⟨hwaits, hconnected _ ?_⟩
          rw [view_takeControllerTrust, hconnack]
  | disconnect => exact .inl rfl
  | subscribe mid =>
    dsimp only [callback, subscribeCallback]
    split
    · exact .inl rfl
    split <;> exact .inl rfl
  | unsubscribe mid =>
    dsimp only [callback, unsubscribeCallback]
    refine .inl ?_
    split
    · split
      · exact view_putSubscription _ fun e => unsubscribeAck_packets _ _ _ _ _ e
      · rfl
    split
    · exact view_putResponseSubscription fun e => unsubscribeAck_packets _ _ _ _ _ e
    · rfl
  | publish mid =>
    dsimp only [callback, publishCallback]
    split
    · next hmid =>
      have hcomplete : mid = c.disconnectMid := hmid
      refine .inr ⟨by simpa [handlesConnection] using hcomplete, .inl ?_⟩
      rw [view_handleMqttError, view_emit]
      rfl
    · exact .inl (view_emit c _)
  | message m =>
    dsimp only [callback, messageCallback]
    refine .inl ?_
    split
    · rfl
    split
    · rfl
    · exact view_emit c _

/-! ## Connecting and retrying -/

/-- `Connect` gets as far as `mosquitto_connect`. -/
def attempts (A : Answers) (c : Client) : Bool :=
  (c.connParams.username ≠ [] → A.usernamePwSet) ∧
    (c.connParams.tsProtocol = .tls → A.setEncryption) ∧
    (c.connParams.version = .v50 → A.properties)

theorem view_connectStart (A : Answers) {c : Client} (hstate : c.state = .sendingConnect) :
    attempts A c ∧ view (connectStart A c).2 = (view c).note (.connect (view c).args) ∨
      Retries (view c) (view (connectStart A c).2) := by
  have hview : (view c).state ≠ .awaitingDisconnect := by
    change c.state ≠ _
    simp [hstate]
  have herror : ∀ failure, Retries (view c) (view (handleMqttError A failure c)) :=
    fun failure => (Retries.refl (view c)).error hview failure
  dsimp only [connectStart]
  split
  · exact .inr ((herror .otherError).error hview .connect)
  split
  · exact .inr ((herror .misconfigured).error hview .connect)
  split
  · exact .inr (herror .connect)
  · next hlogin htls hproperties =>
    refine .inl ⟨?_, view_emit c _⟩
    simp only [not_and, Bool.not_eq_false] at hlogin htls hproperties
    simp only [attempts, decide_eq_true_eq]
    exact ⟨hlogin, htls, hproperties⟩

/-- The time of the retry has come, or a reconnect makes it come. -/
def retryDue (A : Answers) (c : Client) : Bool :=
  let retryTime := if c.scheduleReconnect = .activated then A.now else c.retryTime
  0 < retryTime ∧ retryTime ≤ A.now

theorem view_retryStep (A : Answers) {c : Client} (hstate : c.state = .errorRetrying) :
    retryDue A c ∧ view (retryStep A c) = (view c).retryAtOnce.enable (enables A) ∨
      Retries (view c).retryAtOnce (view (retryStep A c)) := by
  have htime : (retryAtOnce A c).retryTime =
      if c.scheduleReconnect = .activated then A.now else c.retryTime := by
    unfold retryAtOnce
    split <;> rfl
  have hnext : (view c).retryAtOnce.state ≠ .awaitingDisconnect := by
    have hsame : (view c).retryAtOnce.state = c.state := by
      unfold Flags.retryAtOnce
      split <;> rfl
    simp [hsame, hstate]
  have hsame : Retries (view c).retryAtOnce (view (retryAtOnce A c)) := .inl (view_retryAtOnce A c)
  unfold retryStep retryWhenDue
  split
  · exact .inr (hsame.error hnext _)
  · next hpositive =>
    split
    · next hdue =>
      refine .inl ⟨?_, by rw [view_enableMqttClient, view_retryAtOnce]⟩
      rw [htime] at hpositive hdue
      simp only [retryDue, decide_eq_true_eq]
      exact ⟨Int.not_le.mp hpositive, hdue⟩
    · exact .inr hsame

/-! ## One operation -/

/-- What an operation does to the flags. -/
def FlagStep (c : Client) (f' : Flags) : SlotOp → Prop
  | .enableClient A p subs =>
    (f' = view c ∧ (enableClient A p subs c).1 = false) ∨
      (f' = { view c with inst := p.inst } ∧ (enableClient A p subs c).1 = false ∧
        c.state ≠ .idle ∧ c.state ≠ .errorRetrying) ∨
      (f' = (view c).enableClient p (enables A) ∧
        (enableClient A p subs c).1 = (!p.enable || enables A) ∧
        subs.any lacksTopic = false ∧ (c.state = .idle ∨ c.state = .errorRetrying))
  | .disableClient => f' = (view c).disable
  | .scheduleReconnect p => f' = (view c).request p
  | .activateScheduledActions => f' = (view c).activate
  | .updateSockSet A => f' = view c ∨ c.state = .errorRetrying ∧
      (retryDue A c ∧ f' = (view c).retryAtOnce.enable (enables A) ∨
        Retries (view c).retryAtOnce f')
  | .connectStart A => c.state = .sendingConnect ∧
      (attempts A c ∧ f' = (view c).note (.connect (view c).args) ∨ Retries (view c) f')
  | .connectDone A success =>
    if success then f' = { view c with state := .awaitingConnect }
    else f' = (view c).error (enables A)
  | .callback A cb => f' = view c ∨ handlesConnection cb c ∧
      (f' = (view c).error (enables A) ∨
        (c.state = .awaitingConnect ∨ c.state = .errorRetrying) ∧
          Retries { view c with state := .running } f')
  | .reconnect A =>
    if c.scheduleReconnect = .activated ∧ c.queue = [] then
      f' = (view c).reconnect (socketOpen A c) (enables A)
    else f' = view c
  | .close A =>
    if c.scheduleClose = .activated then f' = (view c).close (socketOpen A c) (c.queue = [])
    else f' = view c
  | .disconnected A =>
    if c.isDisconnected then f' = (view c).disconnected (enables A) else f' = view c
  | .queueBinaryMessage .. | .addSubscription .. | .deleteSubscription ..
  | .scheduleResubscription .. => f' = view c

theorem flagStep_apply {c : Client} (h : op.apply c = some c') : FlagStep c (view c') op := by
  cases op
  case addSubscription =>
    obtain ⟨res, hres, rfl⟩ := Option.map_eq_some_iff.mp h
    exact view_addSubscription hres
  case deleteSubscription =>
    obtain ⟨res, hres, rfl⟩ := Option.map_eq_some_iff.mp h
    exact view_deleteSubscription hres
  case scheduleResubscription =>
    obtain ⟨res, hres, rfl⟩ := Option.map_eq_some_iff.mp h
    exact view_scheduleResubscription hres
  case connectStart A =>
    obtain ⟨hstate, h⟩ := Option.ite_none_right_eq_some.mp h
    cases h
    exact ⟨hstate, view_connectStart A hstate⟩
  case updateSockSet A =>
    dsimp only [SlotOp.apply, updateSockSet] at h
    split at h
    · exact .inl (view_sendStep A c h)
    · next hstate =>
      cases h
      exact .inr ⟨hstate, view_retryStep A hstate⟩
    · cases h
      exact .inl rfl
  all_goals cases h
  case enableClient A p subs => exact view_enableClient c A p subs
  case disableClient => exact view_disableClient c
  case queueBinaryMessage contentType pbuf topic => exact view_queueBinaryMessage c contentType pbuf topic
  case scheduleReconnect p => exact view_scheduleReconnect c p
  case activateScheduledActions => exact view_activateScheduledActions c
  case connectDone A success =>
    cases success with
    | true => rfl
    | false => exact view_handleMqttError A c .connect
  case callback A cb => exact view_callback A cb c
  case reconnect A =>
    dsimp only [FlagStep, reconnectTest]
    split
    · exact view_handleMqttReconnect A c
    · rfl
  case close A =>
    dsimp only [FlagStep, closeTest]
    split
    · exact view_handleMqttClose A c
    · rfl
  case disconnected A =>
    dsimp only [FlagStep, disconnectTest]
    split
    · exact view_handleMqttDisconnect A c
    · rfl

/-- What the threads see to when they operate on a slot. -/
def Fits (c : Client) : SlotOp → Prop
  | .enableClient _ p _ =>
    p.inst ≠ invalid ∧ (c.connParams.inst = p.inst ∨ c.connParams.inst = invalid)
  | .disableClient | .scheduleReconnect _ => c.connParams.inst ≠ invalid
  | .connectDone _ _ => c.state = .sendingConnect
  | _ => True

/-- The operation clears no request that waits, and starts no connection with old
parameters. -/
def Gentle (c : Client) : SlotOp → Prop
  | .enableClient A p subs => c.state = .errorRetrying → subs.any lacksTopic = false → p.enable →
      enables A ∨ c.scheduleClose = .off
  | .scheduleReconnect _ => c.state = .idle → c.scheduleClose ≠ .off
  | .updateSockSet A => c.state = .errorRetrying → retryDue A c →
      c.scheduleClose = .off ∧ c.scheduleReconnect ≠ .signalled
  | .connectStart A => attempts A c → c.scheduleReconnect = .off ∨
      connectArgs c.nextParams = connectArgs c.connParams ∨ (ledger c.log).activated = false
  | .callback A cb => handlesConnection cb c →
      c.state ≠ .idle ∧ (c.isReconnect → c.scheduleClose = .off ∧ enables A)
  | .reconnect A => c.scheduleReconnect = .activated → c.queue = [] →
      c.state = .idle ∨ c.state = .errorRetrying ∨
        (c.state ≠ .awaitingDisconnect ∧ socketOpen A c = false) → c.scheduleClose = .off
  | .disconnected A => c.isDisconnected → c.isReconnect → c.scheduleClose = .off ∧ enables A
  | _ => True

instance decidableGentle (c : Client) : ∀ op, Decidable (Gentle c op) := by
  intro op
  cases op <;> dsimp only [Gentle] <;> infer_instance

theorem Retries.keeps {f : Flags} (h : Retries f f') (hf : FlagsOk f) (hstate : f.state ≠ .idle) :
    FlagsOk f' := by
  rcases h with rfl | rfl
  · exact hf
  · exact hf.retry hstate

/-- Entering a state of a connection that comes up. -/
theorem flagsOk_enter {f : Flags} (h : FlagsOk f) (hidle : f.state ≠ .idle)
    (hawaiting : f.state ≠ .awaitingDisconnect) {state : MqttState} (hup : state ≠ .idle)
    (hstate : state ≠ .awaitingDisconnect) : FlagsOk { f with state := state } := by
  have hflag : f.isReconnect = false := by
    rw [Bool.eq_false_iff]
    exact fun hflag => hawaiting (h.flag hflag)
  have hentered := h.enter hidle hup hstate
  rwa [← hflag] at hentered

theorem flagsOk_retryAtOnce {f : Flags} (h : FlagsOk f) : FlagsOk f.retryAtOnce := by
  unfold Flags.retryAtOnce
  split
  · exact h.takeNext
  · exact h

theorem flagsOk_apply {c : Client} (h : FlagsOk (view c)) (hfits : Fits c op)
    (hgentle : Gentle c op) (happly : op.apply c = some c') : FlagsOk (view c') := by
  have hstep := flagStep_apply happly
  generalize view c' = f' at hstep ⊢
  have hdisconnect : ∀ A, (c.isReconnect → c.scheduleClose = .off ∧ enables A = true) →
      (view c).isReconnect → (view c).scheduleClose = .off ∧ enables A = true := fun _ hok => hok
  cases op
  case enableClient A p subs =>
    rcases hstep with ⟨rfl, -⟩ | ⟨rfl, -, hidle, -⟩ | ⟨rfl, -, hsubs, hstate⟩
    · exact h
    · have hinst : c.connParams.inst = p.inst := hfits.2.resolve_right (h.inUse hidle)
      rw [← hinst]
      exact h
    · exact h.enableClient hfits.1 hstate fun hretrying henable => hgentle hretrying hsubs henable
  case disableClient =>
    cases hstep
    exact h.disable hfits
  case scheduleReconnect p =>
    cases hstep
    exact h.request hfits hgentle p
  case activateScheduledActions =>
    cases hstep
    exact h.activate
  case updateSockSet A =>
    rcases hstep with rfl | ⟨hstate, ⟨hdue, rfl⟩ | hretries⟩
    · exact h
    · obtain ⟨hclose, hreconnect⟩ := hgentle hstate hdue
      have hnext : (view c).retryAtOnce.state = c.state ∧
          (view c).retryAtOnce.scheduleClose = c.scheduleClose := by
        unfold Flags.retryAtOnce
        split <;> exact ⟨rfl, rfl⟩
      have hargs : (view c).retryAtOnce.args = (view c).retryAtOnce.nextArgs := by
        unfold Flags.retryAtOnce
        split
        · rfl
        · next hnot =>
          apply h.current
          change c.scheduleReconnect = .off
          change c.scheduleReconnect ≠ .activated at hnot
          cases hflag : c.scheduleReconnect
          · rfl
          · exact absurd hflag hreconnect
          · exact absurd hflag hnot
      apply (flagsOk_retryAtOnce h).enable _ _ _ hargs
      · simp [hnext.1, hstate]
      · simp [hnext.1, hstate]
      · rw [hnext.2, hclose]
    · refine hretries.keeps (flagsOk_retryAtOnce h) ?_
      unfold Flags.retryAtOnce
      split <;> simp [Flags.takeNext, view, hstate]
  case connectStart A =>
    obtain ⟨hstate, ⟨hattempts, rfl⟩ | hretries⟩ := hstep
    · exact h.connect (by simp [view, hstate]) (hgentle hattempts)
    · exact hretries.keeps h (by simp [view, hstate])
  case connectDone A success =>
    change c.state = .sendingConnect at hfits
    cases success with
    | true =>
      cases hstep
      exact flagsOk_enter h (by simp [view, hfits]) (by simp [view, hfits]) (by simp) (by simp)
    | false =>
      cases hstep
      refine h.error (by simp [view, hfits]) fun hflag => ?_
      have hawaiting : c.state = .awaitingDisconnect := h.flag hflag
      rw [hfits] at hawaiting
      cases hawaiting
  case callback A cb =>
    rcases hstep with rfl | ⟨hhandles, rfl | ⟨hwaits, hretries⟩⟩
    · exact h
    · exact h.error (hgentle hhandles).1 (hdisconnect A (hgentle hhandles).2)
    · refine hretries.keeps (flagsOk_enter h ?_ ?_ (by simp) (by simp)) (by simp)
      · rcases hwaits with hwaits | hwaits <;> simp [view, hwaits]
      · rcases hwaits with hwaits | hwaits <;> simp [view, hwaits]
  case reconnect A =>
    dsimp only [FlagStep] at hstep
    split at hstep
    · next hactivated =>
      cases hstep
      exact h.reconnect hactivated.1 (hgentle hactivated.1 hactivated.2)
    · cases hstep
      exact h
  case close A =>
    dsimp only [FlagStep] at hstep
    split at hstep
    · next hactivated =>
      cases hstep
      exact h.close_ok hactivated _ _
    · cases hstep
      exact h
  case disconnected A =>
    dsimp only [FlagStep] at hstep
    split at hstep
    · next hdisconnected =>
      cases hstep
      exact h.disconnected (hdisconnect A (hgentle hdisconnected))
    · cases hstep
      exact h
  all_goals
    cases hstep
    exact h

theorem Retries.keepsClose {f : Flags} (h : Retries f f') (hf : CloseOk f) : CloseOk f' := by
  rcases h with rfl | rfl
  · exact hf
  · exact hf.enter (by simp) false

/-- A close comes from a disable, whatever an operation does. -/
theorem closeOk_apply {c : Client} (h : CloseOk (view c)) (happly : op.apply c = some c') :
    CloseOk (view c') := by
  have hstep := flagStep_apply happly
  generalize view c' = f' at hstep ⊢
  have hretry : CloseOk (view c).retryAtOnce ∧ (view c).retryAtOnce.state = c.state := by
    unfold Flags.retryAtOnce
    split
    · exact ⟨h.takeNext, rfl⟩
    · exact ⟨h, rfl⟩
  cases op
  case enableClient A p subs =>
    rcases hstep with ⟨rfl, -⟩ | ⟨rfl, -⟩ | ⟨rfl, -, -, hstate⟩
    · exact h
    · exact ⟨h.awaiting, h.close, h.orderly⟩
    · have hawaiting : (view c).state ≠ .awaitingDisconnect := by
        rcases hstate with hstate | hstate <;> simp [view, hstate]
      exact h.enableClient p hawaiting _
  case disableClient =>
    cases hstep
    exact h.disable
  case scheduleReconnect p =>
    cases hstep
    exact h.request p
  case activateScheduledActions =>
    cases hstep
    exact h.activate
  case updateSockSet A =>
    rcases hstep with rfl | ⟨hstate, ⟨-, rfl⟩ | hretries⟩
    · exact h
    · exact hretry.1.enable (by simp [hretry.2, hstate]) _
    · exact hretries.keepsClose hretry.1
  case connectStart A =>
    obtain ⟨-, ⟨-, rfl⟩ | hretries⟩ := hstep
    · exact ⟨h.awaiting, h.close, h.orderly⟩
    · exact hretries.keepsClose h
  case connectDone A success =>
    cases success with
    | true =>
      cases hstep
      exact ⟨fun hstate => (by cases hstate), h.close, h.orderly⟩
    | false =>
      cases hstep
      exact h.error _
  case callback A cb =>
    rcases hstep with rfl | ⟨-, rfl | ⟨-, hretries⟩⟩
    · exact h
    · exact h.error _
    · exact hretries.keepsClose ⟨fun hstate => (by cases hstate), h.close, h.orderly⟩
  case reconnect A =>
    dsimp only [FlagStep] at hstep
    split at hstep <;> cases hstep
    · exact h.reconnect _ _
    · exact h
  case close A =>
    dsimp only [FlagStep] at hstep
    split at hstep
    · next hactivated =>
      cases hstep
      exact h.close_ok hactivated _ _
    · cases hstep
      exact h
  case disconnected A =>
    dsimp only [FlagStep] at hstep
    split at hstep <;> cases hstep
    · exact h.disconnected _
    · exact h
  all_goals
    cases hstep
    exact h

/-- What an operation says about the requests made for the instance of a slot. -/
def RequestStep (c : Client) (f' : Flags) : SlotOp → Prop
  | .enableClient A p subs =>
    (f'.inst = c.connParams.inst ∨ f'.inst = p.inst) ∧
      if p.enable ∧ (enableClient A p subs c).1 then f'.inst = p.inst ∧ f'.ledger.last = some true
      else f'.ledger.last = (view c).ledger.last
  | .disableClient => f'.inst = c.connParams.inst ∧ f'.ledger.last = some false
  | _ => SameRequest (view c) f'

theorem Retries.sameRequest {f : Flags} (h : Retries f f') : SameRequest f f' := by
  rcases h with rfl | rfl
  · exact SameRequest.refl _
  · exact SameRequest.retry f

theorem requestStep_apply {c : Client} (h : FlagsOk (view c)) (happly : op.apply c = some c') :
    RequestStep c (view c') op := by
  have hstep := flagStep_apply happly
  generalize view c' = f' at hstep ⊢
  have hnext : (view c).nextInst = (view c).inst := h.nextInst
  cases op
  case enableClient A p subs =>
    rcases hstep with ⟨rfl, hres⟩ | ⟨rfl, hres, -, -⟩ | ⟨rfl, hres, -, -⟩
    · exact ⟨.inl rfl, by simp [hres]⟩
    · exact ⟨.inr rfl, by simp [hres]⟩
    · refine ⟨.inr ?_, ?_⟩
      · dsimp only [Flags.enableClient]
        split
        · split <;> rfl
        · rfl
      · rw [hres]
        dsimp only [Flags.enableClient]
        cases p.enable
        · rfl
        · cases enables A
          · rfl
          · exact ⟨rfl, rfl⟩
  case disableClient =>
    cases hstep
    exact ⟨rfl, rfl⟩
  case scheduleReconnect p =>
    cases hstep
    exact ⟨rfl, .inl rfl⟩
  case activateScheduledActions =>
    cases hstep
    exact SameRequest.activate _
  case updateSockSet A =>
    have hretry : SameRequest (view c) (view c).retryAtOnce := by
      unfold Flags.retryAtOnce
      split
      · exact SameRequest.takeNext hnext
      · exact SameRequest.refl _
    rcases hstep with rfl | ⟨-, ⟨-, rfl⟩ | hretries⟩
    · exact SameRequest.refl _
    · exact hretry.trans (SameRequest.enable _ _)
    · exact hretry.trans hretries.sameRequest
  case connectStart A =>
    obtain ⟨-, ⟨-, rfl⟩ | hretries⟩ := hstep
    · exact ⟨rfl, .inl rfl⟩
    · exact hretries.sameRequest
  case connectDone A success =>
    cases success with
    | true =>
      cases hstep
      exact ⟨rfl, .inl rfl⟩
    | false =>
      cases hstep
      exact SameRequest.error hnext _
  case callback A cb =>
    rcases hstep with rfl | ⟨-, rfl | ⟨-, hretries⟩⟩
    · exact SameRequest.refl _
    · exact SameRequest.error hnext _
    · have hup : SameRequest (view c) { view c with state := .running } := ⟨rfl, .inl rfl⟩
      exact hup.trans hretries.sameRequest
  case reconnect A =>
    dsimp only [FlagStep] at hstep
    split at hstep <;> cases hstep
    · exact SameRequest.reconnect hnext _ _
    · exact SameRequest.refl _
  case close A =>
    dsimp only [FlagStep] at hstep
    split at hstep <;> cases hstep
    · exact SameRequest.close _ _ _
    · exact SameRequest.refl _
  case disconnected A =>
    dsimp only [FlagStep] at hstep
    split at hstep <;> cases hstep
    · exact SameRequest.disconnected hnext _
    · exact SameRequest.refl _
  all_goals
    cases hstep
    exact SameRequest.refl _

end MqttRequestSlot
