import SdtTr369.MqttGreetings

/-!
# Connection attempts of an MQTT client

One attempt is `Connect`, with the mutex released around `mosquitto_connect`, and
then the CONNACK with `SubscribeToAll`. A failure is handled by `HandleMqttError`
where it happens: a failure of the credentials or of the TLS set-up is handled
once more by `Connect`, and `SubscribeToAll` goes on after each subscription that
fails, and tells the data model thread that the handshake is complete.
-/

namespace MqttAttempts

open UspTypes MqttClient MqttCallbacks MqttThread MqttMoves MqttSession MqttGreetings List Option

/-- What is answered during an attempt: by `mosquitto_connect`, and in the CONNACK. -/
structure Attempt where
  start : Answers
  done : Answers
  success : Bool
  connack : Answers
  accepted : Bool
  props : ConnackProps

def attempt (T : Attempt) (c : Client) : Client :=
  match connectStart T.start c with
  | (false, c) => c
  | (true, c) =>
    let c := connectDone T.done T.success c
    if T.success then callback T.connack (.connect T.accepted T.props) c else c

/-! ## What an attempt fails of -/

/-- The first thing that fails. -/
inductive Cause where
  | credentials
  | encryption
  | properties
  | tcpConnect
  | connack
  | responseTopic
  | subscription
  deriving DecidableEq, Repr

/-- The failure code that is given at the place of the failure. -/
def Cause.failure : Cause → MqttFailure
  | .credentials | .connack | .subscription => .otherError
  | .encryption | .responseTopic => .misconfigured
  | .properties | .tcpConnect => .connect

/-- The response topic after the properties of a CONNACK of MQTT 5. -/
def responseTopic (T : Attempt) (c : Client) : Option Str :=
  if c.callbacksV5 then (agentTopic T.props).or c.responseSubscription.topic
  else c.responseSubscription.topic

/-- The SUBSCRIBE for an entry cannot be sent. -/
def entryFails (A : Answers) (version : ProtocolVer) (i : Nat) (sub : Subscription) : Bool :=
  sub.enabled && sub.topic.isSome && (packetMid A version (A.subscribe i)).isNone

def entryFailsAt (A : Answers) (c : Client) (i : Nat) : Bool :=
  c.subscriptions[i]?.any (entryFails A c.connParams.version i)

/-- The SUBSCRIBE for the response topic cannot be sent. -/
def responseFails (A : Answers) (c : Client) : Bool :=
  (packetMid A c.connParams.version (A.subscribe maxMqttSubscriptions)).isNone

def subscriptionFails (A : Answers) (c : Client) : Bool :=
  (List.range maxMqttSubscriptions).any (entryFailsAt A c) || responseFails A c

/-- What fails from the CONNACK on. -/
def connackCause (T : Attempt) (c : Client) : Option Cause :=
  if T.accepted = false then some .connack
  else if emptyTopic (responseTopic T c) then some .responseTopic
  else if subscriptionFails T.connack c then some .subscription
  else none

def cause (T : Attempt) (c : Client) : Option Cause :=
  let p := c.connParams
  if p.username ≠ [] ∧ T.start.usernamePwSet = false then some .credentials
  else if p.tsProtocol = .tls ∧ T.start.setEncryption = false then some .encryption
  else if p.version = .v50 ∧ T.start.properties = false then some .properties
  else if T.success = false then some .tcpConnect
  else connackCause T c

/-- The handshake-complete message is posted. -/
def Posted (c c' : Client) : Prop := ∃ e ∈ newEvents c c', IsHandshake e

/-- The attempt is counted once, has the code of its failure, and is announced just if the
client is running. -/
structure Handled (T : Attempt) (c : Client) : Prop where
  failed : ∀ k, cause T c = some k →
    (attempt T c).retryCount = c.retryCount + 1 ∧ (attempt T c).failureCode = k.failure
  succeeded : cause T c = none → (attempt T c).retryCount = 0
  handshake : Posted c (attempt T c) ↔ (attempt T c).state = .running

theorem not_posted_of_silent {c c' : Client} (h : Silent c c') : ¬ Posted c c' := by
  obtain ⟨es, hlog, hes⟩ := h.log
  rw [Posted, newEvents_eq hlog]
  rintro ⟨e, he, hhandshake⟩
  exact hes e he hhandshake

/-! ## Handling a failure -/

section Failure

variable (A : Answers) (failure : MqttFailure) (c : Client)

@[simp] theorem disconnectClient_retryCount : (disconnectClient A c).retryCount = c.retryCount := by
  unfold disconnectClient
  split <;> rfl

@[simp] theorem disconnectClient_failureCode :
    (disconnectClient A c).failureCode = c.failureCode := by
  unfold disconnectClient
  split <;> rfl

/-- What one handling of a failure does. -/
structure Retries (failure : MqttFailure) (c c' : Client) : Prop where
  state : c'.state = .errorRetrying
  retryCount : c'.retryCount = c.retryCount + 1
  failureCode : c'.failureCode = failure

theorem enterRetry_retries : Retries failure c (enterRetry A failure c) := by
  have hcode : (noteFailure A failure c).failureCode = failure := by
    unfold noteFailure
    split
    · assumption
    · rfl
  have hcount : (noteFailure A failure c).retryCount = c.retryCount := by
    unfold noteFailure
    split <;> rfl
  refine ⟨rfl, ?_, ?_⟩
  · simp [enterRetry, startRetry, hcount]
  · simp [enterRetry, startRetry, hcode]

/-- No disconnect of a reconnect is waited for. -/
theorem handleMqttError_retries (h : c.state ≠ .awaitingDisconnect) :
    Retries failure c (handleMqttError A failure c) := by
  rw [handleMqttError, if_neg fun hwait => h hwait.1]
  exact enterRetry_retries A failure c

theorem handleMqttError_silent : Silent c (handleMqttError A failure c) :=
  .of_calms (handleMqttError_calm A c failure)

/-- A failure that is handled twice. -/
theorem handleMqttError_twice (first : MqttFailure) (h : c.state ≠ .awaitingDisconnect) :
    (handleMqttError A failure (handleMqttError A first c)).retryCount = c.retryCount + 2 := by
  have hfirst := handleMqttError_retries A first c h
  have hsecond := handleMqttError_retries A failure (handleMqttError A first c) (by simp [hfirst.state])
  rw [hsecond.retryCount, hfirst.retryCount]

end Failure

/-! ## Subscribing -/

/-- What is the same of a client while its subscriptions are sent. -/
structure Sends (c c' : Client) : Prop where
  state : c'.state = c.state
  retryCount : c'.retryCount = c.retryCount
  connParams : c'.connParams = c.connParams
  response : c'.responseSubscription = c.responseSubscription

theorem Sends.trans {c c' c'' : Client} (h : Sends c c') (h' : Sends c' c'') : Sends c c'' :=
  ⟨h'.state.trans h.state, h'.retryCount.trans h.retryCount, h'.connParams.trans h.connParams,
    h'.response.trans h.response⟩

section Subscribing

variable {A : Answers} {c : Client} {i : Nat} {is : List Nat}

theorem subscribeEntry_fails (h : entryFailsAt A c i = true) :
    (subscribeEntry A i c).state ≠ .running := by
  rw [entryFailsAt, Option.any_eq_true] at h
  obtain ⟨sub, hsub, hfails⟩ := h
  simp only [entryFails, Bool.and_eq_true, isNone_iff_eq_none] at hfails
  obtain ⟨⟨henabled, htopic⟩, hmid⟩ := hfails
  obtain ⟨topic, htopic⟩ := isSome_iff_exists.mp htopic
  have hres : (subscribe A c.connParams.version false (A.subscribe i) sub).1 = false := by
    simp only [subscribe, htopic, hmid]
  simp only [subscribeEntry, hsub, henabled, htopic, isSome_some, and_self, if_true, hres,
    Bool.false_eq_true, if_false]
  exact handleMqttError_ended A _ .otherError

theorem subscribeEntry_sends (h : entryFailsAt A c i = false) :
    Sends c (subscribeEntry A i c) ∧
      ∀ j, j ≠ i → (subscribeEntry A i c).subscriptions[j]? = c.subscriptions[j]? := by
  unfold subscribeEntry
  split
  · exact ⟨⟨rfl, rfl, rfl, rfl⟩, fun _ _ => rfl⟩
  · next sub hsub =>
    split
    · next hsends =>
      obtain ⟨henabled, htopic⟩ := hsends
      have hmid : (packetMid A c.connParams.version (A.subscribe i)).isNone = false := by
        simpa [entryFailsAt, hsub, entryFails, henabled, htopic] using h
      obtain ⟨topic, htopic⟩ := isSome_iff_exists.mp htopic
      obtain ⟨mid, hmid⟩ := isSome_iff_exists.mp (isNone_eq_false_iff.mp hmid)
      have hres : (subscribe A c.connParams.version false (A.subscribe i) sub).1 = true := by
        simp only [subscribe, htopic, hmid]
      dsimp only
      rw [if_pos hres]
      exact ⟨⟨rfl, rfl, rfl, rfl⟩, fun j hj => getElem?_set_ne (Ne.symm hj)⟩
    · exact ⟨⟨rfl, rfl, rfl, rfl⟩, fun _ _ => rfl⟩

/-- The entries do not depend on each other. -/
theorem entryFailsAt_subscribeEntry (h : entryFailsAt A c i = false) {j : Nat} (hj : j ≠ i) :
    entryFailsAt A (subscribeEntry A i c) j = entryFailsAt A c j := by
  obtain ⟨hsends, hothers⟩ := subscribeEntry_sends h
  rw [entryFailsAt, entryFailsAt, hothers j hj, hsends.connParams]

theorem subscribeEntries_running (hrunning : (subscribeEntries A is c).state = .running) :
    c.state = .running :=
  (Silent.of_calms (subscribeEntries_calm A c is)).running hrunning

theorem subscribeEntries_sends : ∀ {c : Client}, is.Nodup → (∀ i ∈ is, entryFailsAt A c i = false) →
    Sends c (subscribeEntries A is c) := by
  induction is with
  | nil => exact fun _ _ => ⟨rfl, rfl, rfl, rfl⟩
  | cons i rest ih =>
    intro c hnodup hall
    obtain ⟨hi, hrest⟩ := List.forall_mem_cons.mp hall
    obtain ⟨hfresh, hnodup⟩ := List.nodup_cons.mp hnodup
    refine (subscribeEntry_sends hi).1.trans (ih hnodup fun j hj => ?_)
    rw [entryFailsAt_subscribeEntry hi fun heq => hfresh (heq ▸ hj)]
    exact hrest j hj

/-- An entry that fails takes the client out of `running`, for good. -/
theorem subscribeEntries_fails : ∀ {c : Client}, is.Nodup → (∃ i ∈ is, entryFailsAt A c i = true) →
    (subscribeEntries A is c).state ≠ .running := by
  induction is with
  | nil =>
    rintro _ _ ⟨i, hi, -⟩
    cases hi
  | cons i rest ih =>
    rintro c hnodup ⟨j, hj, hfails⟩
    obtain ⟨hfresh, hnodup⟩ := List.nodup_cons.mp hnodup
    rw [subscribeEntries]
    cases hi : entryFailsAt A c i with
    | true => exact fun hrunning => subscribeEntry_fails hi (subscribeEntries_running hrunning)
    | false =>
      cases List.mem_cons.mp hj with
      | inl heq =>
        rw [heq, hi] at hfails
        cases hfails
      | inr hrest =>
        refine ih hnodup ⟨j, hrest, ?_⟩
        rw [entryFailsAt_subscribeEntry hi fun heq => hfresh (heq ▸ hrest)]
        exact hfails

/-- The response topic is there, and its SUBSCRIBE fails just if libmosquitto does. -/
theorem subscribeResponse_cases (htopic : emptyTopic c.responseSubscription.topic = false) :
    responseFails A c = true ∧ (subscribeResponse A c).state ≠ .running ∨
      responseFails A c = false ∧ (subscribeResponse A c).state = c.state ∧
        (subscribeResponse A c).retryCount = c.retryCount := by
  cases hfound : c.responseSubscription.topic with
  | none => simp [emptyTopic, hfound] at htopic
  | some topic =>
    cases hmid : packetMid A c.connParams.version (A.subscribe maxMqttSubscriptions) with
    | none =>
      have hres : (subscribe A c.connParams.version true (A.subscribe maxMqttSubscriptions)
          c.responseSubscription).1 = false := by
        simp only [subscribe, hfound, hmid]
      refine .inl ⟨by rw [responseFails, hmid]; rfl, ?_⟩
      simp only [subscribeResponse, hres, Bool.false_eq_true, if_false]
      exact handleMqttError_ended A _ .otherError
    | some mid =>
      have hres : (subscribe A c.connParams.version true (A.subscribe maxMqttSubscriptions)
          c.responseSubscription).1 = true := by
        simp only [subscribe, hfound, hmid]
      refine .inr ⟨by rw [responseFails, hmid]; rfl, ?_⟩
      simp only [subscribeResponse, hres, if_true]
      exact ⟨rfl, rfl⟩

theorem subscribeResponse_running (hrunning : (subscribeResponse A c).state = .running) :
    c.state = .running :=
  (Silent.of_calms (subscribeResponse_calm A c)).running hrunning

/-- A client that has come up stays up, with its retry count, if all subscriptions are sent. -/
theorem subscribeToAll_sends (htopic : emptyTopic c.responseSubscription.topic = false)
    (hsends : subscriptionFails A c = false) :
    (subscribeToAll A c).state = c.state ∧ (subscribeToAll A c).retryCount = c.retryCount := by
  obtain ⟨hentries, hresponse⟩ := Bool.or_eq_false_iff.mp hsends
  have hall := subscribeEntries_sends (A := A) (c := c) nodup_range
    fun i hi => Bool.eq_false_iff.mpr (List.any_eq_false.mp hentries i hi)
  have htopic' : emptyTopic (subscribeEntries A (List.range maxMqttSubscriptions)
      c).responseSubscription.topic = false := by rw [hall.response]; exact htopic
  rw [subscribeToAll, if_neg (by simp [htopic])]
  rcases subscribeResponse_cases (A := A) htopic' with ⟨hfails, -⟩ | ⟨-, hstate, hcount⟩
  · rw [responseFails, hall.connParams] at hfails
    rw [responseFails, hfails] at hresponse
    cases hresponse
  · exact ⟨hstate.trans hall.state, hcount.trans hall.retryCount⟩

theorem subscribeToAll_fails (htopic : emptyTopic c.responseSubscription.topic = false)
    (hfails : subscriptionFails A c = true) : (subscribeToAll A c).state ≠ .running := by
  rw [subscribeToAll, if_neg (by simp [htopic])]
  change (subscribeResponse A (subscribeEntries A (List.range maxMqttSubscriptions) c)).state ≠ _
  cases hentries : (List.range maxMqttSubscriptions).any (entryFailsAt A c) with
  | true =>
    intro hrunning
    exact subscribeEntries_fails nodup_range (List.any_eq_true.mp hentries)
      (subscribeResponse_running hrunning)
  | false =>
    have hall := subscribeEntries_sends (A := A) (c := c) nodup_range
      fun i hi => Bool.eq_false_iff.mpr (List.any_eq_false.mp hentries i hi)
    have htopic' : emptyTopic (subscribeEntries A (List.range maxMqttSubscriptions)
        c).responseSubscription.topic = false := by rw [hall.response]; exact htopic
    rcases subscribeResponse_cases (A := A) htopic' with ⟨-, hstate⟩ | ⟨hsent, -⟩
    · exact hstate
    · rw [responseFails, hall.connParams] at hsent
      rw [subscriptionFails, hentries, responseFails, hsent] at hfails
      cases hfails

end Subscribing

/-! ## The CONNACK -/

/-- The client after `Connect`. -/
def awaiting (c : Client) : Client :=
  { c.emit (.connect (connectArgs c.connParams)) with state := .awaitingConnect }

/-- The client that a CONNACK takes to `running`. -/
def comingUp (T : Attempt) (c : Client) : Client :=
  let up := takeControllerTrust T.connack.trust ((awaiting c).emit (.connack T.connack.trust))
  let up := if c.callbacksV5 then readConnackProps T.props up else up
  { up with retryTime := 0, retryCount := 0, state := .running }

section Connack

variable (T : Attempt) (c : Client)

theorem takeControllerTrust_same (trust : TrustStore) :
    (takeControllerTrust trust c).subscriptions = c.subscriptions ∧
      (takeControllerTrust trust c).connParams = c.connParams ∧
      (takeControllerTrust trust c).responseSubscription = c.responseSubscription := by
  unfold takeControllerTrust
  split <;> exact ⟨rfl, rfl, rfl⟩

/-- What the CONNACK leaves of what the subscriptions depend on. -/
theorem comingUp_same : (comingUp T c).subscriptions = c.subscriptions ∧
    (comingUp T c).connParams.version = c.connParams.version ∧
    (comingUp T c).responseSubscription.topic = responseTopic T c ∧
    (comingUp T c).log =
      c.log ++ [.connect (connectArgs c.connParams)] ++ [.connack T.connack.trust] := by
  obtain ⟨hsubs, hparams, hresponse⟩ :=
    takeControllerTrust_same ((awaiting c).emit (.connack T.connack.trust)) T.connack.trust
  have hlog := takeControllerTrust_log ((awaiting c).emit (.connack T.connack.trust)) T.connack.trust
  unfold comingUp responseTopic
  cases c.callbacksV5 with
  | true =>
    obtain ⟨hsubs', hversion', htopic', hlog'⟩ := readConnackProps_same T.props
      (takeControllerTrust T.connack.trust ((awaiting c).emit (.connack T.connack.trust)))
    simp only [if_true]
    exact ⟨hsubs'.trans hsubs, hversion'.trans (congrArg ConnParams.version hparams),
      htopic'.trans (congrArg (fun sub => (agentTopic T.props).or sub.topic) hresponse),
      hlog'.trans hlog⟩
  | false =>
    simp only [Bool.false_eq_true, if_false]
    exact ⟨hsubs, congrArg ConnParams.version hparams, congrArg Subscription.topic hresponse, hlog⟩

theorem subscriptionFails_comingUp :
    subscriptionFails T.connack (comingUp T c) = subscriptionFails T.connack c := by
  obtain ⟨hsubs, hversion, -⟩ := comingUp_same T c
  have hentries : entryFailsAt T.connack (comingUp T c) = entryFailsAt T.connack c := by
    funext i
    rw [entryFailsAt, entryFailsAt, hsubs, hversion]
  rw [subscriptionFails, subscriptionFails, hentries, responseFails, responseFails, hversion]

/-- A CONNACK with result zero. -/
theorem callback_accepted :
    callback T.connack (.connect true T.props) (awaiting c) =
      subscribeToAll T.connack (comingUp T c) := by
  have hstate : ¬ ((awaiting c).state ≠ .awaitingConnect ∧ (awaiting c).state ≠ .errorRetrying) :=
    fun h => h.1 rfl
  have hflag : (awaiting c).callbacksV5 = c.callbacksV5 := rfl
  unfold callback comingUp
  dsimp only
  rw [hflag]
  cases c.callbacksV5 with
  | true =>
    simp only [if_true]
    rw [connectV5Callback, if_neg hstate, if_neg (by decide), connected]
  | false =>
    simp only [Bool.false_eq_true, if_false]
    rw [connectCallback, if_neg hstate, if_neg (by decide), connected]

/-- A CONNACK with another result. -/
theorem callback_refused :
    callback T.connack (.connect false T.props) (awaiting c) =
      handleMqttError T.connack .otherError (awaiting c) := by
  have hstate : ¬ ((awaiting c).state ≠ .awaitingConnect ∧ (awaiting c).state ≠ .errorRetrying) :=
    fun h => h.1 rfl
  unfold callback
  dsimp only
  split
  · rw [connectV5Callback, if_neg hstate, if_pos rfl]
  · rw [connectCallback, if_neg hstate, if_pos rfl]

end Connack

/-! ## Main theorem -/

/-- The attempt does not fail of the credentials, the TLS set-up or a subscription, and where it
fails of the response topic no attempt has failed before. -/
def Meets (T : Attempt) (c : Client) : Prop :=
  cause T c ≠ some .credentials ∧ cause T c ≠ some .encryption ∧ cause T c ≠ some .subscription ∧
    (cause T c = some .responseTopic → c.retryCount = 0)

section Outcome

variable {T : Attempt} {c c₀ : Client} {A : Answers} {k : Cause} {es : List Event}

/-- The failure is handled once, after events that are no handshake. -/
theorem handled_once (hcause : cause T c = some k) (hstate : c₀.state ≠ .awaitingDisconnect)
    (hattempt : attempt T c = handleMqttError A k.failure c₀) (hlog : c₀.log = c.log ++ es)
    (hes : ∀ e ∈ es, ¬ IsHandshake e) :
    Handled T c ↔ c₀.retryCount = c.retryCount := by
  have hretries := handleMqttError_retries A k.failure c₀ hstate
  obtain ⟨es', hlog', hes'⟩ := (handleMqttError_silent A k.failure c₀).log
  have hsilent : Silent c (attempt T c) := by
    rw [hattempt]
    have hboth : (handleMqttError A k.failure c₀).log = c.log ++ (es ++ es') := by
      rw [hlog', hlog, append_assoc]
    refine .of_ended hboth (List.forall_mem_append.mpr ⟨hes, hes'⟩) ?_
    rw [hretries.state]
    decide
  constructor
  · intro h
    have hcount := (h.failed k hcause).1
    rw [hattempt, hretries.retryCount] at hcount
    omega
  · intro hcount
    refine ⟨?_, ?_, ?_⟩
    · intro k' hk'
      rw [hcause] at hk'
      cases hk'
      rw [hattempt]
      exact ⟨by rw [hretries.retryCount, hcount], hretries.failureCode⟩
    · intro hnone
      rw [hcause] at hnone
      cases hnone
    · have hstopped : (attempt T c).state ≠ .running := by
        rw [hattempt, hretries.state]
        decide
      exact ⟨fun hposted => absurd hposted (not_posted_of_silent hsilent),
        fun hrunning => absurd hrunning hstopped⟩

/-- The failure is handled a second time. -/
theorem not_handled_twice (hcause : cause T c = some k) (hstate : c.state ≠ .awaitingDisconnect)
    {first second : MqttFailure}
    (hattempt : attempt T c = handleMqttError A second (handleMqttError A first c)) :
    ¬ Handled T c := by
  intro h
  have hcount := (h.failed k hcause).1
  rw [hattempt, handleMqttError_twice A second c first hstate] at hcount
  omega

theorem posted_emit {c' : Client} {e : Event} (hlog : c'.log = c.log ++ es) (he : IsHandshake e) :
    Posted c (c'.emit e) := by
  have hevents : (c'.emit e).log = c.log ++ (es ++ [e]) := by
    rw [Client.emit, hlog, append_assoc]
  rw [Posted, newEvents_eq hevents]
  exact ⟨e, mem_append_right _ (mem_singleton_self e), he⟩

/-- A client with a topic for responses posts that the handshake is complete. -/
theorem subscribeToAll_posts {c' : Client} (hlog : c'.log = c.log ++ es)
    (htopic : emptyTopic c'.responseSubscription.topic = false) :
    Posted c (subscribeToAll A c') := by
  obtain ⟨es', hlog', -⟩ := (Silent.of_calms ((subscribeEntries_calm A c'
    (List.range maxMqttSubscriptions)).trans (subscribeResponse_calm A _))).log
  rw [subscribeToAll, if_neg (by simp [htopic])]
  exact posted_emit (hlog'.trans (by rw [hlog, append_assoc])) trivial

/-- The attempt fails of a subscription, and its client is announced. -/
theorem not_handled_announced (hposted : Posted c (attempt T c))
    (hstopped : (attempt T c).state ≠ .running) : ¬ Handled T c :=
  fun h => hstopped (h.handshake.mp hposted)

end Outcome

/-- What an attempt makes of the answer in the CONNACK. -/
theorem handled_connack {T : Attempt} {c : Client} (hcause : cause T c = connackCause T c)
    (hcallback : attempt T c = callback T.connack (.connect T.accepted T.props) (awaiting c)) :
    Handled T c ↔ Meets T c := by
  unfold connackCause at hcause
  cases haccepted : T.accepted with
  | false =>
    rw [haccepted, if_pos rfl] at hcause
    rw [haccepted, callback_refused] at hcallback
    have hhandled := handled_once hcause (by simp [awaiting]) hcallback rfl (by simp [IsHandshake])
    have hcount : (awaiting c).retryCount = c.retryCount := rfl
    simp [hhandled, Meets, hcause, hcount]
  | true =>
    rw [haccepted, if_neg (by decide)] at hcause
    rw [haccepted, callback_accepted] at hcallback
    obtain ⟨-, -, htopic, hlog⟩ := comingUp_same T c
    rw [append_assoc] at hlog
    have hup : (comingUp T c).state = .running := rfl
    have hzero : (comingUp T c).retryCount = 0 := rfl
    cases hempty : emptyTopic (responseTopic T c) with
    | true =>
      rw [hempty, if_pos rfl] at hcause
      have hattempt : attempt T c = handleMqttError T.connack .misconfigured (comingUp T c) := by
        rw [hcallback, subscribeToAll, htopic, if_pos hempty]
      have hhandled := handled_once hcause (by rw [hup]; decide) hattempt hlog
        (by simp [IsHandshake])
      rw [hhandled, hzero]
      simp [Meets, hcause, eq_comm]
    | false =>
      rw [hempty, if_neg (by decide)] at hcause
      have hresponse : emptyTopic (comingUp T c).responseSubscription.topic = false := by
        rw [htopic, hempty]
      have hposted : Posted c (attempt T c) := by
        rw [hcallback]
        exact subscribeToAll_posts hlog hresponse
      have hfailing := subscriptionFails_comingUp T c
      cases hfails : subscriptionFails T.connack c with
      | true =>
        rw [hfails, if_pos rfl] at hcause
        have hstopped : (attempt T c).state ≠ .running := by
          rw [hcallback]
          exact subscribeToAll_fails hresponse (hfailing.trans hfails)
        have hnot := not_handled_announced hposted hstopped
        exact ⟨fun h => absurd h hnot, fun h => absurd hcause h.2.2.1⟩
      | false =>
        rw [hfails, if_neg (by decide)] at hcause
        obtain ⟨hstate, hcount⟩ := subscribeToAll_sends hresponse (hfailing.trans hfails)
        rw [← hcallback] at hstate hcount
        constructor
        · intro _
          simp [Meets, hcause]
        · intro _
          refine ⟨?_, fun _ => hcount.trans hzero, ?_⟩
          · intro k hk
            rw [hcause] at hk
            cases hk
          · exact ⟨fun _ => hstate.trans hup, fun _ => hposted⟩

/-- An attempt is handled as it should be exactly if it fails of nothing that is handled twice or
after the client was announced, and of no response topic but in a first attempt. -/
theorem handled_iff {T : Attempt} {c : Client} (hstate : c.state = .sendingConnect) :
    Handled T c ↔ Meets T c := by
  have hwait : c.state ≠ .awaitingDisconnect := by
    rw [hstate]
    decide
  by_cases hcredentials : c.connParams.username ≠ [] ∧ T.start.usernamePwSet = false
  · have hcause : cause T c = some .credentials := if_pos hcredentials
    have hattempt : attempt T c = handleMqttError T.start .connect
        (handleMqttError T.start .otherError c) := by
      simp only [attempt, connectStart, if_pos hcredentials]
    have hnot := not_handled_twice hcause hwait hattempt
    exact ⟨fun h => absurd h hnot, fun h => absurd hcause h.1⟩
  by_cases htls : c.connParams.tsProtocol = .tls ∧ T.start.setEncryption = false
  · have hcause : cause T c = some .encryption := by
      simp only [cause, if_neg hcredentials, if_pos htls]
    have hattempt : attempt T c = handleMqttError T.start .connect
        (handleMqttError T.start .misconfigured c) := by
      simp only [attempt, connectStart, if_neg hcredentials, if_pos htls]
    have hnot := not_handled_twice hcause hwait hattempt
    exact ⟨fun h => absurd h hnot, fun h => absurd hcause h.2.1⟩
  by_cases hproperties : c.connParams.version = .v50 ∧ T.start.properties = false
  · have hcause : cause T c = some .properties := by
      simp only [cause, if_neg hcredentials, if_neg htls, if_pos hproperties]
    have hattempt : attempt T c = handleMqttError T.start .connect c := by
      simp only [attempt, connectStart, if_neg hcredentials, if_neg htls, if_pos hproperties]
    have hlog : c.log = c.log ++ [] := (append_nil _).symm
    have hhandled := handled_once hcause hwait hattempt hlog (by simp)
    simp [hhandled, Meets, hcause]
  have hstart : connectStart T.start c = (true, c.emit (.connect (connectArgs c.connParams))) := by
    simp only [connectStart, if_neg hcredentials, if_neg htls, if_neg hproperties]
  have hcause : cause T c = if T.success = false then some .tcpConnect else connackCause T c := by
    simp only [cause, if_neg hcredentials, if_neg htls, if_neg hproperties]
  cases hsuccess : T.success with
  | false =>
    rw [hsuccess, if_pos rfl] at hcause
    have hattempt : attempt T c = handleMqttError T.done .connect
        (c.emit (.connect (connectArgs c.connParams))) := by
      simp only [attempt, hstart, hsuccess, connectDone, Bool.false_eq_true, if_false]
    have hlog : (c.emit (.connect (connectArgs c.connParams))).log =
        c.log ++ [.connect (connectArgs c.connParams)] := rfl
    have hhandled := handled_once hcause (show (c.emit _).state ≠ _ from hwait) hattempt hlog
      (by simp [IsHandshake])
    simp [hhandled, Meets, hcause, Client.emit]
  | true =>
    rw [hsuccess, if_neg (by decide)] at hcause
    have hdone : connectDone T.done true (c.emit (.connect (connectArgs c.connParams))) =
        awaiting c := rfl
    exact handled_connack hcause (by simp only [attempt, hstart, hsuccess, hdone, if_true])

/-- An attempt in which every call succeeds but those for which `A` answers. -/
def attemptWith (A : Answers) : Attempt := ⟨A, A, true, A, true, ⟨none, none, []⟩⟩

/-- A client that is about to connect. -/
def ready (p : ConnParams) : Client := (enableClient smooth p unusedSubscriptions initClient).2

theorem handled_iff_smooth :
    Handled (attemptWith smooth) (ready (brokerParams .tcpip)) ↔
      Meets (attemptWith smooth) (ready (brokerParams .tcpip)) :=
  handled_iff (by decide)

/-- The credentials cannot be set: one failed attempt counts twice, with the code of `Connect`.
The SUBSCRIBE for the response topic fails: the client is announced, and is retrying. -/
theorem failures_handled_wrongly :
    let login := ready { brokerParams .tcpip with username := ['u'] }
    let T := attemptWith { smooth with usernamePwSet := false }
    let c := ready (brokerParams .tcpip)
    let T' := attemptWith { smooth with subscribe := fun _ => none }
    (cause T login = some .credentials ∧ (attempt T login).retryCount = login.retryCount + 2 ∧
      (attempt T login).failureCode = .connect) ∧
    (cause T' c = some .subscription ∧ (attempt T' c).state = .errorRetrying ∧
      Posted c (attempt T' c)) := by
  refine ⟨by decide, by decide, by decide, ?_⟩
  exact ⟨.handshakeComplete 1 .v311 (some ['a']) 0, mem_of_getElem? (i := 3) rfl, trivial⟩

end MqttAttempts
