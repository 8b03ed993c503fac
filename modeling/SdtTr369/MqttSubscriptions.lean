import SdtTr369.MqttSession

/-!
# The topics of a session

When a client is running and every packet about a topic is acknowledged, the broker has
subscribed the topics of the enabled subscriptions and the response topic. The condition on
each operation says where the entries of the array and the packets come apart.
-/

namespace MqttSubscriptions

open UspTypes MqttClient MqttCallbacks MqttThread MqttSession RunHistory List Option

/-- The filter of the response topic: before MQTT 5 with the wildcard. -/
def responseFilter (version : ProtocolVer) (topic : Str) : Str :=
  if version = .v50 then topic else topic ++ ['/', '#']

def agentFilter (c : Client) : Option Str :=
  c.responseSubscription.topic.map (responseFilter c.connParams.version)

/-- The topic of an enabled, existing subscription. -/
def wantedTopic (sub : Subscription) : Option Str :=
  if sub.inst ≠ invalid ∧ sub.enabled then sub.topic else none

/-- The broker has subscribed the topics of the subscriptions and the response topic. -/
def Mirrored (w : Watched) : Prop :=
  ∀ topic, topic ∈ w.broker.topics ↔
    agentFilter w.client = some topic ∨
      ∃ sub ∈ w.client.subscriptions, wantedTopic sub = some topic

/-! ## The condition -/

/-- The topic that the last SUBSCRIBE of an entry was for; there is none while it waits for
an UNSUBACK. -/
def carriedTopic (sub : Subscription) : Option Str :=
  if sub.state = .resubscribing then none else wantedTopic sub

def carriedAt (c : Client) (i : Nat) : Option Str := c.subscriptions[i]?.bind carriedTopic

/-- The topic is needed by nothing but the entry at `i`. -/
def Unshared (c : Client) (i : Nat) (topic : Str) : Prop :=
  agentFilter c ≠ some topic ∧
    ∀ j < c.subscriptions.length, j ≠ i → carriedAt c j ≠ some topic

/-- No later entry waits for an UNSUBACK with the message id. -/
def Clear (c : Client) (i : Nat) (mid : Int) : Prop :=
  ∀ j < c.subscriptions.length, i < j → ∀ sub ∈ c.subscriptions[j]?,
    sub.state = .resubscribing → mid ≠ sub.mid

/-- No earlier entry has the message id. -/
def First (c : Client) (i : Nat) (mid : Int) : Prop :=
  ∀ j < i, ∀ sub ∈ c.subscriptions[j]?, sub.mid ≠ mid

instance (c : Client) (i : Nat) (topic : Str) : Decidable (Unshared c i topic) :=
  inferInstanceAs (Decidable (_ ∧ _))

instance (c : Client) (i : Nat) (mid : Int) : Decidable (Clear c i mid) :=
  inferInstanceAs (Decidable (∀ j < _, _))

instance (c : Client) (i : Nat) (mid : Int) : Decidable (First c i mid) :=
  inferInstanceAs (Decidable (∀ j < _, _))

/-- The SUBSCRIBE of the entry is handed over with a message id that can be told. -/
def Subscribes (A : Answers) (c : Client) (i : Nat) : Prop :=
  ∃ mid ∈ packetMid A c.connParams.version (A.subscribe i), Clear c i mid

instance (A : Answers) (c : Client) (i : Nat) : Decidable (Subscribes A c i) :=
  inferInstanceAs (Decidable (∃ mid ∈ _, _))

/-- The response topic from the CONNACK on. -/
def connackResponse (props : ConnackProps) (c : Client) : Option Str :=
  if c.callbacksV5 then (agentTopic props).or c.responseSubscription.topic
  else c.responseSubscription.topic

/-- The response topic fits into its buffer, and every enabled entry has a topic that is
still to be subscribed. -/
def Begins (props : ConnackProps) (c : Client) : Prop :=
  (c.connParams.version ≠ .v50 → ∀ topic ∈ connackResponse props c, topic.length < maxTopicLen) ∧
    ∀ sub ∈ c.subscriptions, sub.enabled → ∀ topic ∈ sub.topic,
      (connackResponse props c).map (responseFilter c.connParams.version) = some topic ∨
        ∃ sub' ∈ c.subscriptions, wantedTopic sub' = some topic

instance (props : ConnackProps) (c : Client) : Decidable (Begins props c) :=
  inferInstanceAs (Decidable (_ ∧ _))

/-- The entry can be deleted: it does not wait for a SUBACK, and its topic is its own. -/
def Deletable (A : Answers) (c : Client) (i : Nat) (sub : Subscription) : Prop :=
  sub.enabled → sub.state ≠ .subscribing ∧
    (sub.state = .subscribed →
      (packetMid A c.connParams.version A.unsubscribe).isSome) ∧
    (sub.state = .subscribed ∨ sub.state = .resubscribing →
      (∀ topic ∈ sub.topic, Unshared c i topic) ∧
        ∀ mid ∈ packetMid A c.connParams.version A.unsubscribe, Clear c i mid)

instance (A : Answers) (c : Client) (i : Nat) (sub : Subscription) :
    Decidable (Deletable A c i sub) :=
  inferInstanceAs (Decidable (_ → _ ∧ _ ∧ (_ → _ ∧ _)))

/-- The entry can change: the topic that is unsubscribed is its own, and the UNSUBACK that
it waits for will find it. -/
def Changeable (A : Answers) (c : Client) (i : Nat) (newSub sub : Subscription) : Prop :=
  if isUnsubscribing sub then
    ∀ mid ∈ packetMid A c.connParams.version A.unsubscribe,
      (∀ topic ∈ sub.topic, Unshared c i topic) ∧ Clear c i mid ∧
        (newSub.enabled → First c i mid)
  else newSub.enabled → Subscribes A c i

instance (A : Answers) (c : Client) (i : Nat) (newSub sub : Subscription) :
    Decidable (Changeable A c i newSub sub) := by
  unfold Changeable
  infer_instance

/-- The operations after which the entries and the broker still agree. What the data model
thread hands over is unsubscribed, and its arrays have their length. -/
def Meets (c : Client) : SlotOp → Prop
  | .enableClient _ _ subscriptions => subscriptions.length = maxMqttSubscriptions ∧
      ∀ sub ∈ subscriptions, sub.state = .unsubscribed
  | .addSubscription A sub => sub.state = .unsubscribed ∧ (c.state = .running →
      ∀ i ∈ findMqttSubscriptionByInstance invalid c,
        if sub.enabled then Subscribes A c i else Clear c i sub.mid)
  | .deleteSubscription A subinstance => c.state = .running →
      ∀ i ∈ findMqttSubscriptionByInstance subinstance c, ∀ sub ∈ c.subscriptions[i]?,
        Deletable A c i sub
  | .scheduleResubscription A newSub => newSub.state = .unsubscribed ∧ (c.state = .running →
      ∀ i ∈ findMqttSubscriptionByInstance newSub.inst c, ∀ sub ∈ c.subscriptions[i]?,
        Changeable A c i newSub sub)
  | .callback _ (.connect true props) =>
      c.state = .awaitingConnect ∨ c.state = .errorRetrying → Begins props c
  | .callback A (.unsubscribe mid) => c.state = .running →
      ∀ i ∈ findSubscriptionByMid mid c, ∀ sub ∈ c.subscriptions[i]?,
        sub.state = .resubscribing → Subscribes A c i
  | .reconnect A => Reconnects A c
  | _ => True

instance decidableMeets (c : Client) : ∀ op, Decidable (Meets c op)
  | .enableClient _ _ _ => inferInstanceAs (Decidable (_ ∧ _))
  | .addSubscription A sub => inferInstanceAs (Decidable (sub.state = .unsubscribed ∧
      (c.state = .running → ∀ i ∈ findMqttSubscriptionByInstance invalid c,
        if sub.enabled then Subscribes A c i else Clear c i sub.mid)))
  | .deleteSubscription A subinstance => inferInstanceAs (Decidable (c.state = .running →
      ∀ i ∈ findMqttSubscriptionByInstance subinstance c, ∀ sub ∈ c.subscriptions[i]?,
        Deletable A c i sub))
  | .scheduleResubscription A newSub => inferInstanceAs (Decidable
      (newSub.state = .unsubscribed ∧ (c.state = .running →
        ∀ i ∈ findMqttSubscriptionByInstance newSub.inst c, ∀ sub ∈ c.subscriptions[i]?,
          Changeable A c i newSub sub)))
  | .callback _ (.connect true props) => inferInstanceAs (Decidable
      (c.state = .awaitingConnect ∨ c.state = .errorRetrying → Begins props c))
  | .callback A (.unsubscribe mid) => inferInstanceAs (Decidable (c.state = .running →
      ∀ i ∈ findSubscriptionByMid mid c, ∀ sub ∈ c.subscriptions[i]?,
        sub.state = .resubscribing → Subscribes A c i))
  | .reconnect A => inferInstanceAs (Decidable (Reconnects A c))
  | .callback _ (.certVerify _) | .callback _ (.connect false _) | .callback _ .disconnect
  | .callback _ (.subscribe _) | .callback _ (.publish _) | .callback _ (.message _)
  | .disableClient | .queueBinaryMessage .. | .scheduleReconnect _ | .activateScheduledActions
  | .updateSockSet _ | .connectStart _ | .connectDone .. | .close _ | .disconnected _ =>
    isTrue trivial

/-! ## The invariant -/

/-- An enabled subscription has a topic, and an entry that waits for an UNSUBACK is enabled. -/
structure EntryOk (sub : Subscription) : Prop where
  topic : sub.inst ≠ invalid → sub.enabled = true → sub.topic.isSome = true
  waits : sub.state = .resubscribing → sub.enabled = true ∧ sub.topic.isSome = true

structure Ready (c : Client) : Prop where
  length : c.subscriptions.length = maxMqttSubscriptions
  entries : ∀ sub ∈ c.subscriptions, EntryOk sub

/-- The entries of a running client agree with the broker. -/
structure InSession (c : Client) (b : Broker) : Prop where
  topics : ∀ topic, topic ∈ b.topics ↔
    agentFilter c = some topic ∨ ∃ i, carriedAt c i = some topic
  states : ∀ sub ∈ c.subscriptions, sub.inst ≠ invalid → sub.enabled = true →
    sub.state ≠ .unsubscribed ∧ sub.state ≠ .unsubscribing
  waiting : ∀ i sub, c.subscriptions[i]? = some sub → sub.state = .resubscribing →
    sub.inst ≠ invalid ∧ .unsuback sub.mid ∈ b.outstanding ∧ First c i sub.mid
  response : c.responseSubscription.state = .subscribing ∨
    c.responseSubscription.state = .subscribed

/-- What holds of a slot and its broker in every run that meets the condition. -/
structure Agreed (w : Watched) : Prop where
  ready : Ready w.client
  session : w.client.state = .running → InSession w.client w.broker

theorem agreed_init : Agreed initWatched := by
  refine ⟨⟨rfl, ?_⟩, nofun⟩
  intro sub hsub
  cases eq_of_mem_replicate hsub
  exact ⟨by simp [initSubscription], by simp [initSubscription]⟩

/-- When no acknowledgement is outstanding no entry waits for one. -/
theorem InSession.mirrored {c : Client} {b : Broker} (h : InSession c b)
    (hquiet : b.outstanding = []) : Mirrored ⟨c, b⟩ := by
  intro topic
  rw [h.topics topic]
  apply or_congr_right
  constructor
  · rintro ⟨i, hi⟩
    obtain ⟨sub, hsub, hcarried⟩ := bind_eq_some_iff.mp hi
    refine ⟨sub, mem_of_getElem? hsub, ?_⟩
    rw [carriedTopic] at hcarried
    split at hcarried
    · cases hcarried
    · exact hcarried
  · rintro ⟨sub, hmem, hwanted⟩
    obtain ⟨i, hsub⟩ := mem_iff_getElem?.mp hmem
    refine ⟨i, ?_⟩
    have hstate : sub.state ≠ .resubscribing := by
      intro hwaits
      have := (h.waiting i sub hsub hwaits).2.1
      rw [hquiet] at this
      cases this
    rw [carriedAt, hsub, bind_some, carriedTopic, if_neg hstate, hwanted]

theorem Untouched.agreed {w : Watched} {c' : Client} (hw : Agreed w)
    (h : Untouched w.client c') :
    Agreed ⟨c', (newEvents w.client c').foldl Broker.take w.broker⟩ := by
  obtain ⟨es, hlog, hes⟩ := h.log
  rw [newEvents_eq hlog, take_aside hes]
  refine ⟨⟨h.subscriptions ▸ hw.ready.length, h.subscriptions ▸ hw.ready.entries⟩, ?_⟩
  intro hrunning
  have hsession := hw.session (h.running hrunning)
  have hfilter : agentFilter c' = agentFilter w.client := by
    rw [agentFilter, agentFilter, h.response hrunning, h.version hrunning]
  constructor
  · simp only [hfilter, carriedAt, h.subscriptions]
    exact hsession.topics
  · simpa only [h.subscriptions] using hsession.states
  · simpa only [h.subscriptions, First] using hsession.waiting
  · rw [h.response hrunning]
    exact hsession.response

/-! ## One entry -/

/-- The entry at `i` was replaced, and packets were sent. -/
structure Replaced (c c' : Client) (i : Nat) (sub sub' : Subscription) (es : List Event) : Prop where
  found : c.subscriptions[i]? = some sub
  subscriptions : c'.subscriptions = c.subscriptions.set i sub'
  response : c'.responseSubscription = c.responseSubscription
  version : c'.connParams.version = c.connParams.version
  state : c'.state = c.state
  log : c'.log = c.log ++ es

variable {topic : Str}

section Entry

variable {c c' : Client} {i : Nat} {sub sub' : Subscription} {es : List Event} {b b' : Broker}

section

variable (h : Replaced c c' i sub sub' es)
include h

theorem Replaced.lt : i < c.subscriptions.length :=
  (List.getElem?_eq_some_iff.mp h.found).1

theorem Replaced.getElem? (j : Nat) :
    c'.subscriptions[j]? = if j = i then some sub' else c.subscriptions[j]? := by
  rw [h.subscriptions, getElem?_set]
  by_cases hj : i = j
  · subst hj
    rw [if_pos rfl, if_pos h.lt, if_pos rfl]
  · rw [if_neg hj, if_neg (Ne.symm hj)]

theorem Replaced.carriedAt_eq (j : Nat) :
    carriedAt c' j = if j = i then carriedTopic sub' else carriedAt c j := by
  rw [carriedAt, h.getElem? j]
  split <;> rfl

theorem Replaced.agentFilter_eq : agentFilter c' = agentFilter c := by
  rw [agentFilter, agentFilter, h.response, h.version]

theorem Replaced.mem {s : Subscription} (hs : s ∈ c'.subscriptions) :
    s = sub' ∨ s ∈ c.subscriptions := by
  rw [h.subscriptions] at hs
  exact (mem_or_eq_of_mem_set hs).symm

end

theorem Replaced.ready (h : Replaced c c' i sub sub' es) (hc : Ready c) (hsub : EntryOk sub') :
    Ready c' := by
  refine ⟨by rw [h.subscriptions, length_set, hc.length], fun s hs => ?_⟩
  rcases h.mem hs with rfl | hs
  · exact hsub
  · exact hc.entries s hs

/-- What has to be seen to when one entry changes. -/
theorem InSession.replace (h : InSession c b) (hr : Replaced c c' i sub sub' es)
    (htopics : ∀ topic, topic ∈ b'.topics ↔ agentFilter c = some topic ∨
      carriedTopic sub' = some topic ∨ ∃ j, j ≠ i ∧ carriedAt c j = some topic)
    (hstates : sub'.inst ≠ invalid → sub'.enabled = true →
      sub'.state ≠ .unsubscribed ∧ sub'.state ≠ .unsubscribing)
    (hself : sub'.state = .resubscribing →
      sub'.inst ≠ invalid ∧ .unsuback sub'.mid ∈ b'.outstanding ∧ First c i sub'.mid)
    (hclear : Clear c i sub'.mid)
    (houtstanding : ∀ j s, j ≠ i → c.subscriptions[j]? = some s → s.state = .resubscribing →
      .unsuback s.mid ∈ b.outstanding → .unsuback s.mid ∈ b'.outstanding) :
    InSession c' b' := by
  constructor
  · intro topic
    rw [htopics, hr.agentFilter_eq]
    apply or_congr_right
    constructor
    · rintro (hcarried | ⟨j, hj, hcarried⟩)
      · exact ⟨i, by rw [hr.carriedAt_eq, if_pos rfl, hcarried]⟩
      · exact ⟨j, by rw [hr.carriedAt_eq, if_neg hj, hcarried]⟩
    · rintro ⟨j, hcarried⟩
      rw [hr.carriedAt_eq] at hcarried
      split at hcarried
      · exact .inl hcarried
      · next hj => exact .inr ⟨j, hj, hcarried⟩
  · intro s hs
    rcases hr.mem hs with rfl | hs
    · exact hstates
    · exact h.states s hs
  · intro j s hj hwaits
    rw [hr.getElem?] at hj
    split at hj
    · next heq =>
      cases hj
      subst heq
      obtain ⟨hinst, hack, hfirst⟩ := hself hwaits
      refine ⟨hinst, hack, fun k hk s' hs' => ?_⟩
      rw [hr.getElem?, if_neg (Nat.ne_of_lt hk)] at hs'
      exact hfirst k hk s' hs'
    · next hne =>
      obtain ⟨hinst, hack, hfirst⟩ := h.waiting j s hj hwaits
      refine ⟨hinst, houtstanding j s hne hj hwaits hack, fun k hk s' hs' => ?_⟩
      rw [hr.getElem?] at hs'
      split at hs'
      · next heq =>
        cases hs'
        subst heq
        exact hclear j (List.getElem?_eq_some_iff.mp hj).1 hk s hj hwaits
      · exact hfirst k hk s' hs'
  · rw [hr.response]
    exact h.response

/-- The message id of an entry is that of no later one that waits. -/
theorem InSession.clear_mid (h : InSession c b) (hi : c.subscriptions[i]? = some sub) :
    Clear c i sub.mid := by
  intro j _ hlt s hs hwaits
  exact (h.waiting j s hs hwaits).2.2 i hlt sub hi

theorem InSession.carried_topics (h : InSession c b) (hi : carriedAt c i = none) (topic : Str) :
    topic ∈ b.topics ↔ agentFilter c = some topic ∨
      ∃ j, j ≠ i ∧ carriedAt c j = some topic := by
  rw [h.topics]
  apply or_congr_right
  constructor
  · rintro ⟨j, hj⟩
    refine ⟨j, ?_, hj⟩
    rintro rfl
    rw [hi] at hj
    cases hj
  · rintro ⟨j, -, hj⟩
    exact ⟨j, hj⟩

/-- An entry that carries no topic is subscribed. -/
theorem InSession.subscribes (h : InSession c b) {qos : Nat}
    (hr : Replaced c c' i sub sub' [.subscribe topic qos sub'.mid])
    (hbefore : carriedTopic sub = none) (hinst : sub'.inst ≠ invalid)
    (henabled : sub'.enabled = true) (hstate : sub'.state = .subscribing)
    (htopic : sub'.topic = some topic) (hclear : Clear c i sub'.mid)
    (hother : ∀ j s, j ≠ i → c.subscriptions[j]? = some s → s.state = .resubscribing →
      .unsuback s.mid ∈ b.outstanding → .unsuback s.mid ∈ b'.outstanding)
    (hsame : b'.topics = b.topics) : InSession c' (b'.take (.subscribe topic qos sub'.mid)) := by
  have hcarried : carriedTopic sub' = some topic := by
    rw [carriedTopic, if_neg (by simp [hstate]), wantedTopic, if_pos ⟨hinst, henabled⟩, htopic]
  have hnone : carriedAt c i = none := by
    rw [carriedAt, hr.found, bind_some, hbefore]
  refine h.replace hr ?_ (by simp [hstate]) (by simp [hstate]) hclear ?_
  · intro t
    simp only [Broker.take, mem_cons, hsame, h.carried_topics hnone, hcarried,
      Option.some.injEq]
    rw [eq_comm (a := t)]
    exact or_left_comm
  · intro j s hj hs hwaits hack
    exact mem_append_left _ (hother j s hj hs hwaits hack)

/-- An entry whose topic is its own is unsubscribed. -/
theorem InSession.unsubscribes (h : InSession c b)
    (hr : Replaced c c' i sub sub' [.unsubscribe topic sub'.mid]) (htopic : sub.topic = some topic)
    (hunshared : Unshared c i topic) (hafter : carriedTopic sub' = none)
    (hstates : sub'.inst ≠ invalid → sub'.enabled = true →
      sub'.state ≠ .unsubscribed ∧ sub'.state ≠ .unsubscribing)
    (hself : sub'.state = .resubscribing → sub'.inst ≠ invalid ∧ First c i sub'.mid)
    (hclear : Clear c i sub'.mid) : InSession c' (b.take (.unsubscribe topic sub'.mid)) := by
  have hbefore : ∀ t, carriedAt c i = some t → t = topic := by
    intro t ht
    rw [carriedAt, hr.found, bind_some, carriedTopic] at ht
    split at ht
    · cases ht
    · rw [wantedTopic] at ht
      split at ht
      · rw [htopic] at ht
        exact (Option.some.inj ht).symm
      · cases ht
  refine h.replace hr ?_ hstates ?_ hclear ?_
  · intro t
    simp only [Broker.take, mem_filter, h.topics, hafter, decide_eq_true_eq]
    constructor
    · rintro ⟨hagent | ⟨j, hj⟩, hne⟩
      · exact .inl hagent
      · refine .inr (.inr ⟨j, ?_, hj⟩)
        rintro rfl
        exact hne (hbefore t hj)
    · rintro (hagent | hnone | ⟨j, hne, hj⟩)
      · refine ⟨.inl hagent, ?_⟩
        rintro rfl
        exact hunshared.1 hagent
      · cases hnone
      · refine ⟨.inr ⟨j, hj⟩, ?_⟩
        rintro rfl
        obtain ⟨s, hs, -⟩ := bind_eq_some_iff.mp hj
        exact hunshared.2 j (List.getElem?_eq_some_iff.mp hs).1 hne hj
  · intro hwaits
    obtain ⟨hinst, hfirst⟩ := hself hwaits
    exact ⟨hinst, mem_append_right _ mem_cons_self, hfirst⟩
  · exact fun _ _ _ _ _ hack => mem_append_left _ hack

/-- An entry changes without a packet, and what it carries stays. -/
theorem InSession.keeps (h : InSession c b) (hr : Replaced c c' i sub sub' [])
    (hcarried : carriedTopic sub' = carriedTopic sub)
    (hstates : sub'.inst ≠ invalid → sub'.enabled = true →
      sub'.state ≠ .unsubscribed ∧ sub'.state ≠ .unsubscribing)
    (hself : sub'.state ≠ .resubscribing) (hclear : Clear c i sub'.mid)
    (hother : ∀ j s, j ≠ i → c.subscriptions[j]? = some s → s.state = .resubscribing →
      .unsuback s.mid ∈ b.outstanding → .unsuback s.mid ∈ b'.outstanding)
    (hsame : b'.topics = b.topics) : InSession c' b' := by
  refine h.replace hr ?_ hstates (fun hwaits => absurd hwaits hself) hclear hother
  intro t
  rw [hsame, h.topics]
  apply or_congr_right
  have hat : carriedAt c i = carriedTopic sub' := by
    rw [carriedAt, hr.found, bind_some, hcarried]
  constructor
  · rintro ⟨j, hj⟩
    by_cases heq : j = i
    · rw [heq, hat] at hj
      exact .inl hj
    · exact .inr ⟨j, heq, hj⟩
  · rintro (hself | ⟨j, -, hj⟩)
    · exact ⟨i, hat.trans hself⟩
    · exact ⟨j, hj⟩

end Entry

/-! ## Acknowledgements -/

theorem EntryOk.moved {sub : Subscription} (h : EntryOk sub) {state : SubState} (mid : Int)
    (hstate : state ≠ .resubscribing) : EntryOk { sub with state := state, mid := mid } :=
  ⟨h.topic, fun hwaits => absurd hwaits hstate⟩

theorem subscribe_entryOk {sub : Subscription} (h : EntryOk sub) (A : Answers)
    (version : ProtocolVer) (isAgentTopic : Bool) (mid : Option Int) :
    EntryOk (subscribe A version isAgentTopic mid sub).2.1 := by
  unfold subscribe
  split
  · exact h
  · dsimp only
    split
    · exact h.moved sub.mid (by simp)
    · next mid' _ => exact h.moved mid' (by simp)

/-- A SUBSCRIBE that is handed over. -/
theorem subscribe_sent {A : Answers} {version : ProtocolVer} {mid : Option Int}
    {sub : Subscription} {mid' : Int} (htopic : sub.topic = some topic)
    (hmid : packetMid A version mid = some mid') :
    subscribe A version false mid sub = (true, { sub with state := .subscribing, mid := mid' },
      [.subscribe topic sub.qos mid']) := by
  rw [subscribe, htopic]
  simp [hmid, subscribeTopic]

section Operations

variable {c c' : Client} {b b' : Broker} {A : Answers} {i : Nat} {sub sub' : Subscription}
  {es : List Event}

theorem Replaced.agreed (hr : Replaced c c' i sub sub' es) (hw : Agreed ⟨c, b⟩)
    (hok : EntryOk sub') (hsession : c.state = .running → InSession c b → InSession c' b') :
    Agreed ⟨c', b'⟩ := by
  refine ⟨hr.ready hw.ready hok, fun hrunning => ?_⟩
  rw [hr.state] at hrunning
  exact hsession hrunning (hw.session hrunning)

theorem Agreed.entryOk (hw : Agreed ⟨c, b⟩) (hi : c.subscriptions[i]? = some sub) : EntryOk sub :=
  hw.ready.entries sub (mem_of_getElem? hi)

/-- The entries are the same, and acknowledgements that no entry waits for have come. -/
theorem InSession.acknowledged (h : InSession c b) (hsubs : c'.subscriptions = c.subscriptions)
    (hfilter : agentFilter c' = agentFilter c)
    (hresponse : c'.responseSubscription.state = .subscribing ∨
      c'.responseSubscription.state = .subscribed)
    (houtstanding : ∀ (j : Nat) (s : Subscription), c.subscriptions[j]? = some s →
      s.state = .resubscribing → .unsuback s.mid ∈ b.outstanding →
        .unsuback s.mid ∈ b'.outstanding)
    (hsame : b'.topics = b.topics) : InSession c' b' := by
  refine ⟨?_, by simpa only [hsubs] using h.states, ?_, hresponse⟩
  · simpa only [hsame, hfilter, carriedAt, hsubs] using h.topics
  · intro j s hj hwaits
    rw [hsubs] at hj
    obtain ⟨hinst, hack, hfirst⟩ := h.waiting j s hj hwaits
    refine ⟨hinst, houtstanding j s hj hwaits hack, ?_⟩
    rw [First, hsubs]
    exact hfirst

theorem find_some {p : Subscription → Bool} (hfind : c.subscriptions.findIdx? p = some i) :
    ∃ sub, c.subscriptions[i]? = some sub ∧ p sub = true ∧
      ∀ j < i, ∀ s ∈ c.subscriptions[j]?, ¬ p s = true := by
  obtain ⟨hlt, hp, hfirst⟩ := List.findIdx?_eq_some_iff_getElem.mp hfind
  refine ⟨_, getElem?_eq_getElem hlt, hp, fun j hj s hs => ?_⟩
  obtain ⟨hlt', rfl⟩ := List.getElem?_eq_some_iff.mp hs
  exact hfirst j hj

theorem modify_eq_set {f : Subscription → Subscription} (hi : c.subscriptions[i]? = some sub) :
    c.subscriptions.modify i f = c.subscriptions.set i (f sub) := by
  apply ext_getElem?
  intro j
  rw [getElem?_modify, getElem?_set]
  split
  · next heq =>
    subst heq
    rw [if_pos (List.getElem?_eq_some_iff.mp hi).1, hi]
    rfl
  · simp

/-- A SUBACK changes nothing that the broker has subscribed. -/
theorem subscribeCallback_agreed (hw : Agreed ⟨c, b⟩) (mid : Int) :
    (subscribeCallback mid c).log = c.log ∧
      Agreed ⟨subscribeCallback mid c, { b with outstanding := b.outstanding.erase (.suback mid) }⟩ := by
  have hack : ∀ m : Int, Ack.unsuback m ∈ b.outstanding →
      Ack.unsuback m ∈ b.outstanding.erase (.suback mid) :=
    fun m hm => (mem_erase_of_ne (by simp)).mpr hm
  unfold subscribeCallback
  split
  · next i hfind =>
    obtain ⟨sub, hi, -, -⟩ := find_some hfind
    rw [modify_eq_set hi]
    refine ⟨rfl, ?_⟩
    have hr : Replaced c { c with subscriptions := c.subscriptions.set i (subscribeAck sub) } i
        sub (subscribeAck sub) [] := ⟨hi, rfl, rfl, rfl, rfl, (append_nil _).symm⟩
    by_cases hstate : sub.state = .subscribing
    · have hsub : subscribeAck sub = { sub with state := .subscribed } := if_pos hstate
      rw [hsub] at hr ⊢
      refine hr.agreed hw ((hw.entryOk hi).moved sub.mid (by simp)) fun _ h => ?_
      have hclear : Clear c i sub.mid := h.clear_mid hi
      refine h.keeps hr ?_ (by simp) (by simp) hclear (fun j s _ _ _ => hack s.mid) rfl
      simp [carriedTopic, wantedTopic, hstate]
    · have hsame : { c with subscriptions := c.subscriptions.set i (subscribeAck sub) } = c := by
        obtain ⟨hlt, rfl⟩ := List.getElem?_eq_some_iff.mp hi
        rw [subscribeAck, if_neg hstate, set_getElem_self hlt]
      rw [hsame]
      exact ⟨hw.ready, fun hrunning => (hw.session hrunning).acknowledged rfl rfl
        (hw.session hrunning).response (fun j s _ _ => hack s.mid) rfl⟩
  · split
    · refine ⟨rfl, ⟨hw.ready.length, hw.ready.entries⟩, fun hrunning => ?_⟩
      have h := hw.session hrunning
      refine h.acknowledged rfl ?_ ?_ (fun j s _ _ => hack s.mid) rfl
      · unfold agentFilter subscribeAck
        dsimp only
        split <;> rfl
      · dsimp only [subscribeAck]
        split
        · exact .inr rfl
        · exact h.response
    · exact ⟨rfl, hw.ready, fun hrunning => (hw.session hrunning).acknowledged rfl rfl
        (hw.session hrunning).response (fun j s _ _ => hack s.mid) rfl⟩

theorem replaced_put (hi : c.subscriptions[i]? = some sub)
    (res : Bool × Subscription × List Event) :
    Replaced c (putSubscription i res c) i sub res.2.1 res.2.2 := ⟨hi, rfl, rfl, rfl, rfl, rfl⟩

theorem unsubscribeAck_entryOk (hok : EntryOk sub) (version : ProtocolVer) (isAgentTopic : Bool)
    (mid : Option Int) : EntryOk (unsubscribeAck A version isAgentTopic mid sub).2.1 := by
  unfold unsubscribeAck
  split
  · exact hok.moved sub.mid (by simp)
  · exact subscribe_entryOk hok A version isAgentTopic mid
  · exact hok

/-- An UNSUBACK lets the entry that waits for it be subscribed again. -/
theorem unsubscribeCallback_agreed (hw : Agreed ⟨c, b⟩) {mid : Int}
    (hmeets : c.state = .running → ∀ i ∈ findSubscriptionByMid mid c,
      ∀ sub ∈ c.subscriptions[i]?, sub.state = .resubscribing → Subscribes A c i) :
    Agreed ⟨unsubscribeCallback A mid c, (newEvents c (unsubscribeCallback A mid c)).foldl
      Broker.take { b with outstanding := b.outstanding.erase (.unsuback mid) }⟩ := by
  -- a waiting entry has another message id, unless it is the one that is found
  have hother : ∀ m : Int, m ≠ mid → Ack.unsuback m ∈ b.outstanding →
      Ack.unsuback m ∈ b.outstanding.erase (.unsuback mid) :=
    fun m hne hm => (mem_erase_of_ne (by simp [hne])).mpr hm
  unfold unsubscribeCallback
  cases hfind : findSubscriptionByMid mid c with
  | some i =>
    obtain ⟨sub, hi, hmid, hfirst⟩ := find_some hfind
    simp only [decide_eq_true_eq] at hmid hfirst
    simp only [hi]
    have hr := replaced_put hi (unsubscribeAck A c.connParams.version false (A.subscribe i) sub)
    rw [newEvents_eq hr.log]
    refine hr.agreed hw (unsubscribeAck_entryOk (hw.entryOk hi) _ _ _) fun hrunning h => ?_
    have houtstanding : ∀ (j : Nat) (s : Subscription), j ≠ i → c.subscriptions[j]? = some s →
        s.state = .resubscribing → Ack.unsuback s.mid ∈ b.outstanding →
          Ack.unsuback s.mid ∈ b.outstanding.erase (.unsuback mid) := by
      intro j s hj hs hwaits
      apply hother
      rcases Nat.lt_or_gt_of_ne hj with hlt | hgt
      · exact hfirst j hlt s hs
      · rw [← hmid]
        exact ((h.waiting j s hs hwaits).2.2 i hgt sub hi).symm
    have hclear : Clear c i sub.mid := h.clear_mid hi
    cases hstate : sub.state with
    | resubscribing =>
      obtain ⟨hinst, -, -⟩ := h.waiting i sub hi hstate
      obtain ⟨henabled, htopic⟩ := (hw.entryOk hi).waits hstate
      obtain ⟨topic, htopic⟩ := isSome_iff_exists.mp htopic
      obtain ⟨mid', hmid', hclear'⟩ := hmeets hrunning i hfind sub hi hstate
      have hres : unsubscribeAck A c.connParams.version false (A.subscribe i) sub =
          (true, { sub with state := .subscribing, mid := mid' },
            [.subscribe topic sub.qos mid']) := by
        rw [unsubscribeAck, hstate]
        exact subscribe_sent htopic hmid'
      rw [hres] at hr ⊢
      exact h.subscribes hr (by simp [carriedTopic, hstate]) hinst henabled rfl htopic hclear'
        houtstanding rfl
    | unsubscribing =>
      have hres : unsubscribeAck A c.connParams.version false (A.subscribe i) sub =
          (true, { sub with state := .unsubscribed }, []) := by rw [unsubscribeAck, hstate]
      rw [hres] at hr ⊢
      refine h.keeps hr ?_ ?_ (by simp) hclear houtstanding rfl
      · simp [carriedTopic, wantedTopic, hstate]
      · intro hinst henabled
        exact absurd hstate (h.states sub (mem_of_getElem? hi) hinst henabled).2
    | unsubscribed | subscribing | subscribed =>
      have hres : unsubscribeAck A c.connParams.version false (A.subscribe i) sub =
          (true, sub, []) := by rw [unsubscribeAck, hstate]
      rw [hres] at hr ⊢
      exact h.keeps hr rfl (h.states sub (mem_of_getElem? hi)) (by simp [hstate]) hclear
        houtstanding rfl
  | none =>
    have houtstanding : ∀ (j : Nat) (s : Subscription), c.subscriptions[j]? = some s →
        s.state = .resubscribing → Ack.unsuback s.mid ∈ b.outstanding →
          Ack.unsuback s.mid ∈ b.outstanding.erase (.unsuback mid) := by
      intro j s hs _
      apply hother
      exact of_decide_eq_false (List.findIdx?_eq_none_iff.mp hfind s (mem_of_getElem? hs))
    dsimp only
    split
    · refine ⟨⟨hw.ready.length, hw.ready.entries⟩, fun hrunning => ?_⟩
      have h := hw.session hrunning
      have hres : unsubscribeAck A c.connParams.version true (A.subscribe maxMqttSubscriptions)
          c.responseSubscription = (true, c.responseSubscription, []) := by
        rcases h.response with hstate | hstate <;> rw [unsubscribeAck, hstate]
      rw [hres]
      have hlog : (putResponseSubscription (true, c.responseSubscription, []) c).log =
          c.log ++ [] := rfl
      rw [newEvents_eq hlog]
      exact h.acknowledged rfl rfl h.response houtstanding rfl
    · rw [newEvents_eq (append_nil _).symm]
      exact ⟨hw.ready, fun hrunning => (hw.session hrunning).acknowledged rfl rfl
        (hw.session hrunning).response houtstanding rfl⟩

/-! ## Requests of the data model thread -/

theorem agreed_same (hw : Agreed ⟨c, b⟩) :
    Agreed ⟨c, (newEvents c c).foldl Broker.take b⟩ := by
  rw [newEvents_eq (append_nil _).symm]
  exact hw

variable {newSub : Subscription} {res : Bool × Client}

theorem addSubscription_agreed (hw : Agreed ⟨c, b⟩) (hmeets : Meets c (.addSubscription A newSub))
    (hres : addSubscription A newSub c = some res) :
    Agreed ⟨res.2, (newEvents c res.2).foldl Broker.take b⟩ := by
  obtain ⟨hstate, hfree⟩ := hmeets
  unfold addSubscription at hres
  split at hres
  · cases hres
  next htopic =>
  rw [Bool.not_eq_true, isNone_eq_false_iff] at htopic
  obtain ⟨topic, htopic⟩ := isSome_iff_exists.mp htopic
  split at hres
  · cases hres
    exact agreed_same hw
  split at hres
  · cases hres
  next hinst =>
  rw [not_or] at hinst
  split at hres
  · cases hres
    exact agreed_same hw
  next i hfind =>
  obtain ⟨sub, hi, hfound, -⟩ := find_some hfind
  simp only [decide_eq_true_eq] at hfound
  have hbefore : carriedTopic sub = none := by simp [carriedTopic, wantedTopic, hfound]
  have hok : EntryOk newSub := ⟨fun _ _ => by simp [htopic], by simp [hstate]⟩
  dsimp only at hres
  split at hres
  · next hrun =>
    cases hres
    have hput : ∀ u, Replaced c (putSubscription i u
        { c with subscriptions := c.subscriptions.set i newSub }) i sub u.2.1 u.2.2 :=
      fun u => ⟨hi, by simp [putSubscription], rfl, rfl, rfl, rfl⟩
    have hr := hput (subscribe A c.connParams.version false (A.subscribe i) newSub)
    rw [newEvents_eq hr.log]
    refine hr.agreed hw (subscribe_entryOk hok A _ _ _) fun hrunning h => ?_
    have hsubscribes := hfree hrunning i hfind
    rw [if_pos hrun.1] at hsubscribes
    obtain ⟨mid, hmid, hmidclear⟩ := hsubscribes
    have hsent := subscribe_sent htopic hmid
    rw [hsent] at hr ⊢
    exact h.subscribes hr hbefore hinst.1 hrun.1 rfl htopic hmidclear
      (fun _ _ _ _ _ hack => hack) rfl
  · next hrun =>
    cases hres
    have hr : Replaced c { c with subscriptions := c.subscriptions.set i newSub } i sub newSub [] :=
      ⟨hi, rfl, rfl, rfl, rfl, (append_nil _).symm⟩
    rw [newEvents_eq hr.log]
    refine hr.agreed hw hok fun hrunning h => ?_
    have hdisabled : newSub.enabled = false := by
      rw [not_and] at hrun
      exact Bool.eq_false_iff.mpr fun henabled => hrun henabled hrunning
    have hmidclear := hfree hrunning i hfind
    rw [if_neg (by simp [hdisabled])] at hmidclear
    refine h.keeps hr ?_ (by simp [hdisabled]) (by simp [hstate]) hmidclear
      (fun _ _ _ _ _ hack => hack) rfl
    rw [hbefore]
    simp [carriedTopic, wantedTopic, hdisabled]

/-- The packet of an UNSUBSCRIBE, if there is one. -/
theorem unsubscribePacket_cases (A : Answers) (version : ProtocolVer) (sub : Subscription) :
    unsubscribePacket A version sub = (false, sub, []) ∨ ∃ topic mid, sub.topic = some topic ∧
      packetMid A version A.unsubscribe = some mid ∧
      unsubscribePacket A version sub = (true, { sub with mid := mid }, [.unsubscribe topic mid]) := by
  unfold unsubscribePacket
  split
  · next topic mid htopic hmid => exact .inr ⟨topic, mid, htopic, hmid, rfl⟩
  · exact .inl rfl

/-- A deleted entry carries no topic any more. -/
theorem deleteSubscription_agreed (hw : Agreed ⟨c, b⟩) {subinstance : Int}
    (hmeets : Meets c (.deleteSubscription A subinstance))
    (hres : deleteSubscription A subinstance c = some res) :
    Agreed ⟨res.2, (newEvents c res.2).foldl Broker.take b⟩ := by
  unfold deleteSubscription at hres
  split at hres
  · cases hres
    exact agreed_same hw
  next i hfind =>
  obtain ⟨sub, hi, -, -⟩ := find_some hfind
  simp only [hi] at hres
  split at hres
  · cases hres
  next hinst =>
  cases hres
  have hok := hw.entryOk hi
  obtain ⟨d, hd⟩ : ∃ d, dropSubscription A c.connParams.version (decide (c.state = .running)) sub =
    d := ⟨_, rfl⟩
  rw [hd]
  have hr : Replaced c { c with
      subscriptions := c.subscriptions.set i d.1, log := c.log ++ d.2 } i sub d.1 d.2 :=
    ⟨hi, rfl, rfl, rfl, rfl, rfl⟩
  dsimp only
  rw [newEvents_eq hr.log]
  have hgone : ∀ (state : SubState) (mid : Int), carriedTopic
      { sub with state := state, mid := mid, inst := invalid } = none := by
    intro state mid
    simp [carriedTopic, wantedTopic]
  have hmid : ∀ h : InSession c b, Clear c i sub.mid := fun h => h.clear_mid hi
  by_cases hcond : sub.enabled = true ∧ decide (c.state = .running) = true ∧
      (sub.state = .resubscribing ∨ sub.state = .subscribed)
  · obtain ⟨henabled, hrunning, hwas⟩ := hcond
    rw [decide_eq_true_eq] at hrunning
    obtain ⟨hnot, hsent, hown⟩ := hmeets hrunning i hfind sub hi henabled
    obtain ⟨hunshared, hclear⟩ := hown hwas.symm
    obtain ⟨topic, htopic⟩ := isSome_iff_exists.mp (hok.topic hinst henabled)
    obtain rfl : d =
        ({ (unsubscribePacket A c.connParams.version { sub with state := .unsubscribing }).2.1 with
          inst := invalid },
        (unsubscribePacket A c.connParams.version { sub with state := .unsubscribing }).2.2) := by
      simp only [← hd, dropSubscription, unsubscribe, htopic]
      rw [if_pos ⟨henabled, decide_eq_true hrunning, hwas⟩]
    rcases unsubscribePacket_cases A c.connParams.version { sub with state := .unsubscribing } with
      hfailed | ⟨topic', mid, htopic', hpacket, hdone⟩
    · rw [hfailed] at hr ⊢
      refine hr.agreed hw ⟨by simp, by simp⟩ fun _ h => ?_
      have hresub : sub.state = .resubscribing := by
        refine hwas.resolve_right fun hsubscribed => ?_
        obtain ⟨mid, hpacket⟩ := isSome_iff_exists.mp (hsent hsubscribed)
        simp [unsubscribePacket, htopic, hpacket] at hfailed
      refine h.keeps hr ?_ (by simp) (by simp) (hmid h) (fun _ _ _ _ _ hack => hack) rfl
      exact (hgone .unsubscribing sub.mid).trans (if_pos hresub).symm
    · rw [hdone] at hr ⊢
      refine hr.agreed hw ⟨by simp, by simp⟩ fun _ h => ?_
      exact h.unsubscribes hr htopic' (hunshared topic' htopic') (hgone .unsubscribing mid)
        (by simp) (by simp) (hclear mid hpacket)
  · obtain rfl : d = ({ sub with inst := invalid }, []) := by
      simp only [← hd, dropSubscription]
      rw [if_neg hcond]
    refine hr.agreed hw ⟨by simp, hok.waits⟩ fun hrunning h => ?_
    simp only [hrunning, decide_true, true_and, not_and, not_or] at hcond
    have hwaits : sub.state ≠ .resubscribing := by
      intro hstate
      exact (hcond (hok.waits hstate).1).1 hstate
    refine h.keeps hr ?_ (by simp) hwaits (hmid h) (fun _ _ _ _ _ hack => hack) rfl
    rw [hgone sub.state sub.mid, carriedTopic, if_neg hwaits, wantedTopic, if_neg]
    rintro ⟨-, henabled⟩
    have hstates := h.states sub (mem_of_getElem? hi) hinst henabled
    have hnot := (hmeets hrunning i hfind sub hi henabled).1
    have hsubscribed := (hcond henabled).2
    cases hstate : sub.state with
    | unsubscribed => exact hstates.1 hstate
    | unsubscribing => exact hstates.2 hstate
    | subscribing => exact hnot hstate
    | subscribed => exact hsubscribed hstate
    | resubscribing => exact hwaits hstate

/-- An entry that is not unsubscribed first carries nothing while the client is running. -/
theorem InSession.idle (h : InSession c b) (hi : c.subscriptions[i]? = some sub)
    (hok : EntryOk sub) (hnot : isUnsubscribing sub = false) :
    carriedTopic sub = none ∧ sub.state ≠ .resubscribing := by
  simp only [isUnsubscribing, Bool.and_eq_false_iff, decide_eq_false_iff_not, not_not] at hnot
  have hwaits : sub.state ≠ .resubscribing := by
    intro hstate
    simp [hstate, (hok.waits hstate).1] at hnot
  refine ⟨?_, hwaits⟩
  rw [carriedTopic, if_neg hwaits, wantedTopic, if_neg]
  rintro ⟨hinst, henabled⟩
  have hstates := h.states sub (mem_of_getElem? hi) hinst henabled
  rcases hnot with (hdisabled | hstate) | hstate
  · rw [henabled] at hdisabled
    cases hdisabled
  · exact hstates.1 hstate
  · exact hstates.2 hstate

theorem takeSubscription_entryOk (htopic : newSub.topic.isSome = true)
    (hwaits : sub.state ≠ .resubscribing) : EntryOk (takeSubscription newSub sub) :=
  ⟨fun _ _ => htopic, fun hstate => absurd hstate hwaits⟩

/-- A changed entry carries its new topic, or waits to. -/
theorem changeSubscription_agreed (hw : Agreed ⟨c, b⟩) (hrunning : c.state = .running)
    (hi : c.subscriptions[i]? = some sub) (hinst : sub.inst ≠ invalid)
    (htopic : newSub.topic = some topic) (hmeets : Changeable A c i newSub sub)
    {u : Bool × Subscription × List Event}
    (hu : changeSubscription A c.connParams.version (A.subscribe i) newSub sub = u) :
    Agreed ⟨putSubscription i u c, u.2.2.foldl Broker.take b⟩ := by
  have hr := replaced_put hi u
  have hsession := hw.session hrunning
  have hok := hw.entryOk hi
  have hsome : newSub.topic.isSome = true := by rw [htopic]; rfl
  cases hunsub : isUnsubscribing sub with
  | true =>
    have hown := hmeets
    rw [Changeable, if_pos hunsub] at hown
    rcases unsubscribePacket_cases A c.connParams.version sub with
      hfailed | ⟨old, mid, hold, hpacket, hdone⟩
    · obtain rfl : u = (false, sub, []) := by simp [← hu, changeSubscription, hunsub, hfailed]
      have hsame : putSubscription i (false, sub, []) c = c := by
        obtain ⟨hlt, rfl⟩ := List.getElem?_eq_some_iff.mp hi
        simp [putSubscription, set_getElem_self hlt]
      rw [hsame]
      exact hw
    · obtain ⟨hunshared, hclear, hfirst⟩ := hown mid hpacket
      obtain rfl : u = (true, { takeSubscription newSub { sub with mid := mid } with
          state := if newSub.enabled then .resubscribing else .unsubscribing },
          [.unsubscribe old mid]) := by
        simp [← hu, changeSubscription, hunsub, hdone]
      cases henabled : newSub.enabled with
      | true =>
        simp only [henabled, if_true] at hr ⊢
        refine hr.agreed hw ⟨fun _ _ => hsome, fun _ => ⟨henabled, hsome⟩⟩ fun _ h => ?_
        exact h.unsubscribes hr hold (hunshared old hold) rfl (by simp)
          (fun _ => ⟨hinst, hfirst henabled⟩) hclear
      | false =>
        simp only [henabled, Bool.false_eq_true, if_false] at hr ⊢
        refine hr.agreed hw ⟨fun _ _ => hsome, by simp⟩ fun _ h => ?_
        refine h.unsubscribes hr hold (hunshared old hold) ?_ ?_ (by simp) hclear
        · simp [carriedTopic, wantedTopic, takeSubscription, henabled]
        · simp [takeSubscription, henabled]
  | false =>
    have hsubscribes := hmeets
    rw [Changeable, if_neg (by simp [hunsub])] at hsubscribes
    obtain ⟨hbefore, hwaits⟩ := hsession.idle hi hok hunsub
    cases henabled : newSub.enabled with
    | true =>
      have hchange : u =
          subscribe A c.connParams.version false (A.subscribe i) (takeSubscription newSub sub) := by
        simp [← hu, changeSubscription, hunsub, henabled]
      obtain ⟨mid, hmid, hclear⟩ := hsubscribes henabled
      have hsent : subscribe A c.connParams.version false (A.subscribe i)
          (takeSubscription newSub sub) = _ := subscribe_sent htopic hmid
      rw [hchange, hsent] at hr ⊢
      refine hr.agreed hw ?_ fun _ h => ?_
      · exact (takeSubscription_entryOk hsome hwaits).moved mid (by simp)
      · exact h.subscribes hr hbefore hinst henabled rfl htopic hclear
          (fun _ _ _ _ _ hack => hack) rfl
    | false =>
      obtain rfl : u = (true, { takeSubscription newSub sub with state := .unsubscribed }, []) := by
        simp [← hu, changeSubscription, hunsub, henabled]
      refine hr.agreed hw ⟨fun _ _ => hsome, by simp⟩ fun _ h => ?_
      have hclear : Clear c i sub.mid := h.clear_mid hi
      refine h.keeps hr ?_ ?_ (by simp) hclear (fun _ _ _ _ _ hack => hack) rfl
      · rw [hbefore]
        simp [carriedTopic, wantedTopic, takeSubscription, henabled]
      · simp [takeSubscription, henabled]

theorem scheduleResubscription_agreed (hw : Agreed ⟨c, b⟩)
    (hmeets : Meets c (.scheduleResubscription A newSub))
    (hres : scheduleResubscription A newSub c = some res) :
    Agreed ⟨res.2, (newEvents c res.2).foldl Broker.take b⟩ := by
  obtain ⟨hstate, hchangeable⟩ := hmeets
  unfold scheduleResubscription at hres
  split at hres
  · cases hres
  next htopic =>
  rw [Bool.not_eq_true, isNone_eq_false_iff] at htopic
  obtain ⟨topic, htopic⟩ := isSome_iff_exists.mp htopic
  split at hres
  · cases hres
    exact agreed_same hw
  split at hres
  · cases hres
  next hinst =>
  split at hres
  · cases hres
    exact agreed_same hw
  next i hfind =>
  obtain ⟨sub, hi, hfound, -⟩ := find_some hfind
  simp only [decide_eq_true_eq] at hfound
  simp only [hi] at hres
  split at hres
  · next hrunning =>
    cases hres
    have hr : Replaced c { c with subscriptions := c.subscriptions.set i newSub } i sub newSub [] :=
      ⟨hi, rfl, rfl, rfl, rfl, (append_nil _).symm⟩
    rw [newEvents_eq hr.log]
    exact hr.agreed hw ⟨fun _ _ => by simp [htopic], by simp [hstate]⟩ fun h => absurd h hrunning
  · next hrunning =>
    rw [not_not] at hrunning
    cases hres
    have hr := replaced_put hi
      (changeSubscription A c.connParams.version (A.subscribe i) newSub sub)
    rw [newEvents_eq hr.log]
    exact changeSubscription_agreed hw hrunning hi (hfound ▸ hinst) htopic
      (hchangeable hrunning i hfind sub hi) rfl

/-- The parameters and subscriptions of a client that is not connected are taken over. -/
theorem enableClient_agreed (hw : Agreed ⟨c, b⟩) {p : ConnParams}
    {subscriptions : List Subscription} (hmeets : Meets c (.enableClient A p subscriptions)) :
    Agreed ⟨(enableClient A p subscriptions c).2,
      (newEvents c (enableClient A p subscriptions c).2).foldl Broker.take b⟩ := by
  obtain ⟨hlength, hstates⟩ := hmeets
  unfold enableClient
  split
  · exact agreed_same hw
  next htopics =>
  dsimp only
  split
  · have hsame : Untouched c { c with connParams := { c.connParams with inst := p.inst } } :=
      .of_same (append_nil _).symm (by simp) rfl rfl rfl rfl
    exact Untouched.agreed hw hsame
  next hstate =>
  have hidle : c.state ≠ .running := by
    intro hrunning
    simp [hrunning] at hstate
  have hready : ∀ c' : Client, c'.subscriptions = subscriptions → c'.state ≠ .running →
      ∀ b', Agreed ⟨c', b'⟩ := by
    intro c' hsubs hrunning b'
    refine ⟨⟨by rw [hsubs, hlength], fun sub hsub => ⟨fun hinst henabled => ?_, ?_⟩⟩,
      fun h => absurd h hrunning⟩
    · have hlacks := List.any_eq_false.mp (Bool.not_eq_true _ ▸ htopics) sub (hsubs ▸ hsub)
      cases htopic : sub.topic with
      | none => simp [lacksTopic, hinst, henabled, htopic, emptyTopic] at hlacks
      | some topic => rfl
    · simp [hstates sub (hsubs ▸ hsub)]
  split
  · have hun : Untouched { c.emit (.enable p) with
        connParams := p, nextParams := p, subscriptions := subscriptions,
        retryTime := 0, retryCount := 0 } _ :=
      enableMqttClient_untouched A _ (.inl hidle)
    split
    · exact hready (Client.emit _ .enabled) hun.subscriptions
        (fun hrunning => hidle (hun.running hrunning)) _
    · exact hready _ hun.subscriptions (fun hrunning => hidle (hun.running hrunning)) _
  · refine hready { c.emit (.enable p) with
      connParams := p, nextParams := p, subscriptions := subscriptions,
      retryTime := 0, retryCount := 0 } rfl hidle _

end Operations

/-! ## The CONNACK -/

section Connack

variable {cs c : Client} {b : Broker} {n : Nat}

/-- An entry after its turn in `SubscribeToAll`. -/
structure Served (sub sub' : Subscription) : Prop where
  wanted : wantedTopic sub' = wantedTopic sub
  waits : sub'.state ≠ .resubscribing
  subscribing : sub'.inst ≠ invalid → sub'.enabled = true → sub'.state = .subscribing

/-- The first `n` entries of `cs` had their turn, and the broker has the topics of those
that are enabled. -/
structure Progress (cs c : Client) (n : Nat) (b : Broker) : Prop where
  version : c.connParams.version = cs.connParams.version
  response : c.responseSubscription = cs.responseSubscription
  rest : ∀ j, n ≤ j → c.subscriptions[j]? = cs.subscriptions[j]?
  served : ∀ j < n, ∀ sub, cs.subscriptions[j]? = some sub →
    ∃ sub', c.subscriptions[j]? = some sub' ∧ Served sub sub'
  topics : ∀ topic, topic ∈ b.topics ↔ ∃ j < n, ∃ sub, cs.subscriptions[j]? = some sub ∧
    sub.enabled = true ∧ sub.topic = some topic

theorem progress_zero (c : Client) : Progress c c 0 ⟨[], []⟩ :=
  ⟨rfl, rfl, fun _ _ => rfl, nofun, fun _ => by simp⟩

/-- The next entry has had its turn. -/
theorem Progress.succ (h : Progress cs c n b) {c' : Client} {b' : Broker} {sub sub' : Subscription}
    (hversion : c'.connParams.version = c.connParams.version)
    (hresponse : c'.responseSubscription = c.responseSubscription)
    (hsub : cs.subscriptions[n]? = some sub) (hsub' : c'.subscriptions[n]? = some sub')
    (hothers : ∀ j, j ≠ n → c'.subscriptions[j]? = c.subscriptions[j]?) (hserved : Served sub sub')
    (htopics : ∀ topic, topic ∈ b'.topics ↔
      topic ∈ b.topics ∨ sub.enabled = true ∧ sub.topic = some topic) :
    Progress cs c' (n + 1) b' := by
  refine ⟨hversion.trans h.version, hresponse.trans h.response, ?_, ?_, ?_⟩
  · intro j hj
    rw [hothers j (by omega)]
    exact h.rest j (by omega)
  · intro j hj s hs
    by_cases heq : j = n
    · subst heq
      rw [hsub] at hs
      cases hs
      exact ⟨sub', hsub', hserved⟩
    · rw [hothers j heq]
      exact h.served j (by omega) s hs
  · intro topic
    rw [htopics, h.topics]
    constructor
    · rintro (⟨j, hj, hs⟩ | hs)
      · exact ⟨j, by omega, hs⟩
      · exact ⟨n, by omega, sub, hsub, hs⟩
    · rintro ⟨j, hj, s, hs, henabled⟩
      by_cases heq : j = n
      · subst heq
        rw [hsub] at hs
        cases hs
        exact .inr henabled
      · exact .inl ⟨j, by omega, s, hs, henabled⟩

variable (A : Answers)

theorem subscribeEntry_ready (hc : Ready c) (i : Nat) : Ready (subscribeEntry A i c) := by
  unfold subscribeEntry
  split
  · exact hc
  next sub hi =>
  have hok := hc.entries sub (mem_of_getElem? hi)
  split
  · have hput := (replaced_put hi (subscribe A c.connParams.version false (A.subscribe i) sub)).ready
      hc (subscribe_entryOk hok A _ _ _)
    dsimp only
    split
    · exact hput
    · have hun := handleMqttError_untouched A (putSubscription i
        (subscribe A c.connParams.version false (A.subscribe i) sub) c) .otherError
      exact ⟨hun.subscriptions ▸ hput.length, hun.subscriptions ▸ hput.entries⟩
  · exact hc

theorem subscribeEntries_ready (is : List Nat) (hc : Ready c) :
    Ready (subscribeEntries A is c) := by
  induction is generalizing c with
  | nil => exact hc
  | cons i rest ih => exact ih (subscribeEntry_ready A hc i)

/-- After a failure the client does not run any more. -/
theorem subscribeEntry_running {i : Nat} (h : (subscribeEntry A i c).state = .running) :
    c.state = .running := by
  unfold subscribeEntry at h
  split at h
  · exact h
  · split at h
    · dsimp only at h
      split at h
      · exact h
      · exact absurd h (handleMqttError_ended A _ .otherError)
    · exact h

theorem subscribeEntries_running {is : List Nat}
    (h : (subscribeEntries A is c).state = .running) : c.state = .running := by
  induction is generalizing c with
  | nil => exact h
  | cons i rest ih => exact subscribeEntry_running A (ih h)

theorem subscribeEntry_progress (h : Progress cs c n b) (hcs : Ready cs)
    (hlt : n < cs.subscriptions.length) (hrunning : (subscribeEntry A n c).state = .running) :
    ∃ es, (subscribeEntry A n c).log = c.log ++ es ∧
      Progress cs (subscribeEntry A n c) (n + 1) (es.foldl Broker.take b) := by
  have hsub : cs.subscriptions[n]? = some cs.subscriptions[n] := getElem?_eq_getElem hlt
  have hok := hcs.entries _ (getElem_mem hlt)
  have hi := (h.rest n (Nat.le_refl n)).trans hsub
  generalize cs.subscriptions[n] = sub at hsub hok hi
  unfold subscribeEntry at hrunning ⊢
  simp only [hi] at hrunning ⊢
  split at hrunning
  · next hturn =>
    obtain ⟨topic, htopic⟩ := isSome_iff_exists.mp hturn.2
    rw [if_pos hturn]
    cases hmid : packetMid A c.connParams.version (A.subscribe n) with
    | none =>
      have hfailed : (subscribe A c.connParams.version false (A.subscribe n) sub).1 = false := by
        simp [subscribe, htopic, hmid]
      rw [if_neg (by simp [hfailed])] at hrunning
      exact absurd hrunning (handleMqttError_ended A _ .otherError)
    | some mid =>
      have hsent := subscribe_sent htopic hmid
      have hr := replaced_put hi (subscribe A c.connParams.version false (A.subscribe n) sub)
      simp only [hsent, if_true] at hr ⊢
      have hserved : Served sub { sub with state := .subscribing, mid := mid } :=
        ⟨rfl, by simp, fun _ _ => rfl⟩
      have hat := hr.getElem? n
      rw [if_pos rfl] at hat
      refine ⟨_, hr.log, h.succ hr.version hr.response hsub hat ?_ hserved ?_⟩
      · intro j hj
        rw [hr.getElem?, if_neg hj]
      · intro t
        simp only [foldl_cons, foldl_nil, Broker.take, mem_cons, htopic,
          Option.some.injEq, hturn.1, true_and]
        rw [or_comm, eq_comm (a := t)]
  · next hturn =>
    rw [if_neg hturn]
    refine ⟨[], (append_nil _).symm, h.succ rfl rfl hsub hi (fun _ _ => rfl) ?_ ?_⟩
    · refine ⟨rfl, fun hstate => hturn (hok.waits hstate), fun hinst henabled => ?_⟩
      exact absurd ⟨henabled, hok.topic hinst henabled⟩ hturn
    · intro t
      simp only [foldl_nil]
      refine ⟨.inl, fun ht => ht.resolve_right ?_⟩
      rintro ⟨henabled, htopic⟩
      exact hturn ⟨henabled, by rw [htopic]; rfl⟩

theorem subscribeEntries_progress (hcs : Ready cs) : ∀ (k n : Nat) (c : Client) (b : Broker),
    Progress cs c n b → n + k ≤ cs.subscriptions.length →
    (subscribeEntries A (List.range' n k) c).state = .running →
    ∃ es, (subscribeEntries A (List.range' n k) c).log = c.log ++ es ∧
      Progress cs (subscribeEntries A (List.range' n k) c) (n + k) (es.foldl Broker.take b) := by
  intro k
  induction k with
  | zero => exact fun n c b h _ _ => ⟨[], (append_nil _).symm, h⟩
  | succ k ih =>
    intro n c b h hle hrunning
    rw [range'_succ, subscribeEntries] at hrunning ⊢
    obtain ⟨es, hlog, hnext⟩ := subscribeEntry_progress A h hcs (by omega)
      (subscribeEntries_running A hrunning)
    obtain ⟨es', hlog', hlast⟩ := ih (n + 1) _ _ hnext (by omega) hrunning
    refine ⟨es ++ es', by rw [hlog', hlog, append_assoc], ?_⟩
    rw [foldl_append, show n + (k + 1) = n + 1 + k by omega]
    exact hlast

theorem subscribeTopic_agent {version : ProtocolVer}
    (hfits : version ≠ .v50 → topic.length < maxTopicLen) :
    subscribeTopic version true topic = responseFilter version topic := by
  unfold subscribeTopic responseFilter
  by_cases hversion : version = .v50
  · rw [if_neg (by simp [hversion]), if_pos hversion]
  · rw [if_pos ⟨hversion, rfl⟩, if_neg hversion]
    have := hfits hversion
    apply take_of_length_le
    simp only [length_append, length_cons, length_nil]
    omega

/-- The broker has the topics of the entries that are served, and the response topic. -/
theorem Progress.inSession (h : Progress cs c cs.subscriptions.length b) {c' : Client}
    {b' : Broker}
    (hwanted : ∀ sub ∈ cs.subscriptions, sub.enabled = true → ∀ topic ∈ sub.topic,
      agentFilter cs = some topic ∨ ∃ sub' ∈ cs.subscriptions, wantedTopic sub' = some topic)
    (hagent : agentFilter cs = some topic) (hsubs : c'.subscriptions = c.subscriptions)
    (hagent' : agentFilter c' = agentFilter cs)
    (hresponse : c'.responseSubscription.state = .subscribing)
    (htopics : b'.topics = topic :: b.topics) : InSession c' b' := by
  have hserved : ∀ (i : Nat) (sub' : Subscription), c'.subscriptions[i]? = some sub' →
      ∃ sub, cs.subscriptions[i]? = some sub ∧ Served sub sub' := by
    intro i sub' hi
    rw [hsubs] at hi
    rcases Nat.lt_or_ge i cs.subscriptions.length with hlt | hge
    · have hsub := getElem?_eq_getElem hlt
      obtain ⟨sub'', hi', hsub'⟩ := h.served i hlt _ hsub
      rw [hi] at hi'
      cases hi'
      exact ⟨_, hsub, hsub'⟩
    · rw [h.rest i hge, getElem?_eq_none hge] at hi
      cases hi
  refine ⟨fun t => ?_, fun sub' hsub' => ?_, fun i sub' hi hwaits => ?_, .inl hresponse⟩
  · rw [htopics, mem_cons, h.topics, hagent', hagent, Option.some.injEq, eq_comm (a := t)]
    constructor
    · rintro (rfl | ⟨j, -, sub, hj, henabled, htopic⟩)
      · exact .inl rfl
      · rcases hwanted sub (mem_of_getElem? hj) henabled t htopic with hfilter | ⟨s, hs, hst⟩
        · rw [hagent] at hfilter
          exact .inl (Option.some.inj hfilter)
        · obtain ⟨i, hi⟩ := mem_iff_getElem?.mp hs
          obtain ⟨s', hi', hs'⟩ := h.served i (List.getElem?_eq_some_iff.mp hi).1 s hi
          refine .inr ⟨i, ?_⟩
          rw [carriedAt, hsubs, hi', bind_some, carriedTopic, if_neg hs'.waits, hs'.wanted,
            hst]
    · rintro (rfl | ⟨i, hi⟩)
      · exact .inl rfl
      · obtain ⟨s', hi', hcarried⟩ := bind_eq_some_iff.mp hi
        obtain ⟨s, hs, hserved⟩ := hserved i s' hi'
        rw [carriedTopic, if_neg hserved.waits, hserved.wanted, wantedTopic] at hcarried
        split at hcarried
        · next hwant =>
          exact .inr ⟨i, (List.getElem?_eq_some_iff.mp hs).1, s, hs, hwant.2, hcarried⟩
        · cases hcarried
  · intro hinst henabled
    obtain ⟨i, hi⟩ := mem_iff_getElem?.mp hsub'
    obtain ⟨sub, -, hsub⟩ := hserved i sub' hi
    simp [hsub.subscribing hinst henabled]
  · obtain ⟨sub, -, hsub⟩ := hserved i sub' hi
    exact absurd hwaits hsub.waits

/-- `SubscribeToAll` subscribes every enabled entry and the response topic, or fails. -/
theorem subscribeToAll_session (hcs : Ready cs)
    (hfits : cs.connParams.version ≠ .v50 → ∀ topic ∈ cs.responseSubscription.topic,
      topic.length < maxTopicLen)
    (hwanted : ∀ sub ∈ cs.subscriptions, sub.enabled = true → ∀ topic ∈ sub.topic,
      agentFilter cs = some topic ∨ ∃ sub' ∈ cs.subscriptions, wantedTopic sub' = some topic) :
    Ready (subscribeToAll A cs) ∧ ((subscribeToAll A cs).state = .running →
      ∃ es, (subscribeToAll A cs).log = cs.log ++ es ∧
        InSession (subscribeToAll A cs) (es.foldl Broker.take ⟨[], []⟩)) := by
  unfold subscribeToAll
  split
  · have hun := handleMqttError_untouched A cs .misconfigured
    exact ⟨⟨hun.subscriptions ▸ hcs.length, hun.subscriptions ▸ hcs.entries⟩,
      fun hrunning => absurd hrunning (handleMqttError_ended A cs _)⟩
  next htopic =>
  obtain ⟨topic, htopic⟩ : ∃ topic, cs.responseSubscription.topic = some topic := by
    cases hresponse : cs.responseSubscription.topic with
    | none => simp [emptyTopic, hresponse] at htopic
    | some topic => exact ⟨topic, rfl⟩
  have hready := subscribeEntries_ready A (List.range maxMqttSubscriptions) hcs
  have hprogress := subscribeEntries_progress A hcs maxMqttSubscriptions 0 cs ⟨[], []⟩
    (progress_zero cs) (by rw [hcs.length, Nat.zero_add])
  rw [← range_eq_range', Nat.zero_add, ← hcs.length] at hprogress
  rw [← hcs.length] at hready ⊢
  generalize subscribeEntries A (List.range cs.subscriptions.length) cs = c at hready hprogress
  dsimp only [subscribeResponse]
  cases hres : (subscribe A c.connParams.version true (A.subscribe maxMqttSubscriptions)
      c.responseSubscription).1 with
  | false =>
    have hun := handleMqttError_untouched A (putResponseSubscription (subscribe A
      c.connParams.version true (A.subscribe maxMqttSubscriptions) c.responseSubscription) c)
      .otherError
    rw [if_neg (by simp)]
    refine ⟨⟨hun.subscriptions ▸ hready.length, hun.subscriptions ▸ hready.entries⟩, ?_⟩
    exact fun hrunning => absurd hrunning (handleMqttError_ended A _ .otherError)
  | true =>
    rw [if_pos rfl]
    refine ⟨⟨hready.length, hready.entries⟩, fun hrunning => ?_⟩
    obtain ⟨es, hlog, hdone⟩ := hprogress hrunning
    have hctopic : c.responseSubscription.topic = some topic := by rw [hdone.response, htopic]
    cases hmid : packetMid A c.connParams.version (A.subscribe maxMqttSubscriptions) with
    | none => simp [subscribe, hctopic, hmid] at hres
    | some mid =>
      have hfilter := subscribeTopic_agent fun hversion => hfits hversion topic htopic
      have hsent : subscribe A c.connParams.version true (A.subscribe maxMqttSubscriptions)
          c.responseSubscription =
            (true, { c.responseSubscription with state := .subscribing, mid := mid },
              [.subscribe (responseFilter cs.connParams.version topic)
                c.responseSubscription.qos mid]) := by
        rw [subscribe, hctopic]
        simp only [hmid]
        rw [hdone.version, hfilter, hctopic]
      rw [hsent]
      refine ⟨es ++ [.subscribe (responseFilter cs.connParams.version topic)
        c.responseSubscription.qos mid] ++ [.handshakeComplete c.connParams.inst
          c.connParams.version (some topic) c.role], ?_, ?_⟩
      · simp [putResponseSubscription, Client.emit, hlog, hctopic]
      · rw [foldl_append, foldl_append]
        have hagent : agentFilter cs = some (responseFilter cs.connParams.version topic) := by
          rw [agentFilter, htopic]
          rfl
        refine hdone.inSession hwanted hagent rfl ?_ rfl rfl
        simp [agentFilter, Client.emit, putResponseSubscription, hctopic, htopic, hdone.version]

/-- A session begins. -/
theorem connack_agreed (hw : Agreed ⟨c, b⟩) {props : ConnackProps} {T : TrustStore}
    (hmeets : Begins props c) (hsubs : cs.subscriptions = c.subscriptions)
    (hversion : cs.connParams.version = c.connParams.version)
    (hresponse : cs.responseSubscription.topic = connackResponse props c)
    (hlog : cs.log = c.log ++ [.connack T]) :
    Agreed ⟨subscribeToAll A cs, (newEvents c (subscribeToAll A cs)).foldl Broker.take b⟩ := by
  obtain ⟨hfits, hwanted⟩ := hmeets
  have hcs : Ready cs := ⟨hsubs ▸ hw.ready.length, hsubs ▸ hw.ready.entries⟩
  obtain ⟨hready, hsession⟩ := subscribeToAll_session A hcs
    (by rw [hversion, hresponse]; exact hfits)
    (by rw [agentFilter, hversion, hresponse, hsubs]; exact hwanted)
  refine ⟨hready, fun hrunning => ?_⟩
  obtain ⟨es, hes, hsession⟩ := hsession hrunning
  rw [hlog, append_assoc] at hes
  rw [newEvents_eq hes, foldl_append]
  exact hsession

theorem takeControllerTrust_keeps (T : TrustStore) (c : Client) :
    (takeControllerTrust T c).subscriptions = c.subscriptions ∧
      (takeControllerTrust T c).connParams = c.connParams ∧
      (takeControllerTrust T c).responseSubscription = c.responseSubscription ∧
      (takeControllerTrust T c).log = c.log := by
  unfold takeControllerTrust
  split <;> exact ⟨rfl, rfl, rfl, rfl⟩

theorem connect_agreed (hw : Agreed ⟨c, b⟩) {accepted : Bool} {props : ConnackProps}
    (hmeets : Meets c (.callback A (.connect accepted props))) :
    Agreed ⟨callback A (.connect accepted props) c,
      (newEvents c (callback A (.connect accepted props) c)).foldl Broker.take b⟩ := by
  obtain ⟨htsubs, htparams, htresponse, htlog⟩ :=
    takeControllerTrust_keeps A.trust (c.emit (.connack A.trust))
  have hfailed := Untouched.agreed hw (handleMqttError_untouched A c .otherError)
  cases hv5 : c.callbacksV5 with
  | true =>
    simp only [callback, hv5, if_true, connectV5Callback]
    split
    · exact hfailed
    next hstate =>
    split
    · exact hfailed
    next haccepted =>
    rw [Bool.not_eq_false] at haccepted
    subst haccepted
    rw [← not_or, not_not] at hstate
    obtain ⟨hsubs, hversion, hresponse, hlog⟩ := readConnackProps_same props
      (takeControllerTrust A.trust (c.emit (.connack A.trust)))
    refine connack_agreed A hw (hmeets hstate) (hsubs.trans htsubs)
      (hversion.trans (congrArg ConnParams.version htparams)) ?_ (hlog.trans htlog)
    rw [connackResponse, if_pos hv5]
    exact hresponse.trans (by rw [htresponse]; rfl)
  | false =>
    simp only [callback, hv5, Bool.false_eq_true, if_false, connectCallback]
    split
    · exact agreed_same hw
    next hstate =>
    split
    · exact hfailed
    next haccepted =>
    rw [Bool.not_eq_false] at haccepted
    subst haccepted
    rw [← not_or, not_not] at hstate
    refine connack_agreed A hw (hmeets hstate) htsubs (congrArg ConnParams.version htparams) ?_ htlog
    rw [connackResponse, if_neg (by simp [hv5])]
    exact congrArg Subscription.topic htresponse

end Connack

/-! ## Runs -/

/-- Every operation that meets the condition keeps the entries and the broker in agreement. -/
theorem agreed_step {op : SlotOp} {w w' : Watched} (hw : Agreed w) (hmeets : Meets w.client op)
    (h : watch op w = some w') : Agreed w' := by
  obtain ⟨c, hc, rfl⟩ := map_eq_some_iff.mp h
  obtain ⟨c₀, b⟩ := w
  cases op
  case addSubscription =>
    obtain ⟨res, hres, rfl⟩ := map_eq_some_iff.mp hc
    exact addSubscription_agreed hw hmeets hres
  case deleteSubscription =>
    obtain ⟨res, hres, rfl⟩ := map_eq_some_iff.mp hc
    exact deleteSubscription_agreed hw hmeets hres
  case scheduleResubscription =>
    obtain ⟨res, hres, rfl⟩ := map_eq_some_iff.mp hc
    exact scheduleResubscription_agreed hw hmeets hres
  case updateSockSet A => exact Untouched.agreed hw (updateSockSet_untouched A c₀ hc)
  case connectStart A =>
    obtain ⟨-, hc⟩ := ite_none_right_eq_some.mp hc
    cases hc
    exact Untouched.agreed hw (connectStart_untouched A c₀)
  all_goals cases hc
  case enableClient A p subscriptions => exact enableClient_agreed hw hmeets
  case disableClient =>
    exact Untouched.agreed hw (.of_same rfl (by simp [Aside]) rfl rfl rfl rfl)
  case queueBinaryMessage contentType pbuf topic =>
    exact Untouched.agreed hw (queueBinaryMessage_untouched c₀ contentType pbuf topic)
  case scheduleReconnect p =>
    exact Untouched.agreed hw (.of_same rfl (by simp [Aside]) rfl rfl rfl rfl)
  case activateScheduledActions =>
    exact Untouched.agreed hw (activateScheduledActions_untouched c₀)
  case connectDone A success => exact Untouched.agreed hw (connectDone_untouched A c₀ success)
  case reconnect A => exact Untouched.agreed hw (reconnectTest_untouched A c₀ hmeets)
  case close A => exact Untouched.agreed hw (closeTest_untouched A c₀)
  case disconnected A => exact Untouched.agreed hw (disconnectTest_untouched A c₀)
  case callback A cb =>
    cases cb with
    | connect accepted props => exact connect_agreed A hw hmeets
    | subscribe mid =>
      obtain ⟨hlog, hagreed⟩ := subscribeCallback_agreed hw mid
      dsimp only [callback]
      rw [newEvents_eq (hlog.trans (append_nil _).symm)]
      exact hagreed
    | unsubscribe mid => exact unsubscribeCallback_agreed hw hmeets
    | certVerify chain =>
      exact Untouched.agreed hw (.of_same rfl (by simp [Aside]) rfl rfl rfl rfl)
    | disconnect =>
      exact Untouched.agreed hw (.of_same (append_nil _).symm (by simp) rfl rfl rfl rfl)
    | publish mid => exact Untouched.agreed hw (publishCallback_untouched c₀ A mid)
    | message m => exact Untouched.agreed hw (messageCallback_untouched c₀ m)

/-- The client connects, and its response topic is subscribed. -/
def connectedOps : List SlotOp :=
  [.enableClient smooth (brokerParams .tcpip) unusedSubscriptions, .connectStart smooth,
    .connectDone smooth true, .callback smooth (.connect true ⟨none, none, []⟩),
    .callback smooth (.subscribe 6)]

def sampleSubscription (topic : Str) : Subscription := ⟨1, 0, some topic, true, 0, .unsubscribed⟩

/-- A subscription is added, and its topic changes. -/
def changedOps : List SlotOp :=
  connectedOps ++ [.addSubscription smooth (sampleSubscription ['t']),
    .callback smooth (.subscribe 1), .scheduleResubscription smooth (sampleSubscription ['u']),
    .callback smooth (.unsubscribe 7), .callback smooth (.subscribe 1)]

/-- A subscription is deleted before its SUBACK has come. -/
def deletedOps : List SlotOp :=
  connectedOps ++ [.addSubscription smooth (sampleSubscription ['t']),
    .deleteSubscription smooth 1, .callback smooth (.subscribe 1)]

end MqttSubscriptions
