import Mathlib.Data.List.Nodup
import SdtTr369.MqttCallbacks
import SdtTr369.RunHistory

/-!
# The threads of the MQTT MTP

The data model thread makes its requests while the MTP thread is outside of
`MQTT_UpdateAllSockSet` and `MQTT_ProcessAllSocketActivity`, or inside
`mosquitto_connect`, around which the mutex is released. The end of the MTP thread
at shutdown is left out.
-/

namespace MqttThread

open UspTypes ControllerTable UspRecord MqttClient MqttCallbacks RunHistory List Option

/-- Where the MTP thread is, and at which slot. -/
inductive Pc where
  | select
  | update (i : Nat)
  | loops (i : Nat)
  | connecting (i : Nat)
  | callbacks (i : Nat)
  | close (i : Nat)
  | disconnected (i : Nat)
  deriving DecidableEq, Repr

structure Mqtt where
  clients : List Client
  pc : Pc

def initMqtt : Mqtt := ⟨List.replicate maxMqttClients initClient, .select⟩

/-- What can be done to one slot. `Connect` is called in one state only. -/
inductive SlotOp where
  | enableClient (A : Answers) (p : ConnParams) (subscriptions : List Subscription)
  | disableClient
  | queueBinaryMessage (contentType : MtpContentType) (pbuf : Bytes) (topic : Option Str)
  | scheduleReconnect (p : ConnParams)
  | activateScheduledActions
  | addSubscription (A : Answers) (sub : Subscription)
  | deleteSubscription (A : Answers) (subinstance : Int)
  | scheduleResubscription (A : Answers) (newSub : Subscription)
  | updateSockSet (A : Answers)
  | connectStart (A : Answers)
  | connectDone (A : Answers) (success : Bool)
  | callback (A : Answers) (cb : Callback)
  | reconnect (A : Answers)
  | close (A : Answers)
  | disconnected (A : Answers)

/-- The test for a scheduled reconnect in `MQTT_ProcessAllSocketActivity`. -/
def reconnectTest (A : Answers) (c : Client) : Client :=
  if c.scheduleReconnect = .activated ∧ c.queue = [] then handleMqttReconnect A c else c

/-- The test for a scheduled close. -/
def closeTest (A : Answers) (c : Client) : Client :=
  if c.scheduleClose = .activated then handleMqttClose A c else c

/-- The test for a disconnect that has been called back. -/
def disconnectTest (A : Answers) (c : Client) : Client :=
  if c.isDisconnected then handleMqttDisconnect A c else c

/-- `none` is a failed assertion. -/
def SlotOp.apply (op : SlotOp) (c : Client) : Option Client :=
  match op with
  | .enableClient A p subscriptions => some (MqttClient.enableClient A p subscriptions c).2
  | .disableClient => some (MqttClient.disableClient c)
  | .queueBinaryMessage contentType pbuf topic =>
    some (MqttClient.queueBinaryMessage contentType pbuf topic c).2
  | .scheduleReconnect p => some (MqttClient.scheduleReconnect p c)
  | .activateScheduledActions => some (MqttClient.activateScheduledActions c)
  | .addSubscription A sub => (MqttCallbacks.addSubscription A sub c).map (·.2)
  | .deleteSubscription A subinstance =>
    (MqttCallbacks.deleteSubscription A subinstance c).map (·.2)
  | .scheduleResubscription A newSub =>
    (MqttCallbacks.scheduleResubscription A newSub c).map (·.2)
  | .updateSockSet A => MqttClient.updateSockSet A c
  | .connectStart A =>
    if c.state = .sendingConnect then some (MqttClient.connectStart A c).2 else none
  | .connectDone A success => some (MqttClient.connectDone A success c)
  | .callback A cb => some (MqttCallbacks.callback A cb c)
  | .reconnect A => some (reconnectTest A c)
  | .close A => some (closeTest A c)
  | .disconnected A => some (disconnectTest A c)

/-- A step of one of the two threads; the steps from `startUpdate` on are those of
the MTP thread. -/
inductive Step where
  | enableClient (A : Answers) (p : ConnParams) (subscriptions : List Subscription)
  | disableClient (inst : Int)
  | queueBinaryMessage (inst : Int) (contentType : MtpContentType) (pbuf : Bytes)
      (topic : Option Str)
  | scheduleReconnect (p : ConnParams)
  | activateScheduledActions
  | addSubscription (A : Answers) (inst : Int) (sub : Subscription)
  | deleteSubscription (A : Answers) (inst subinstance : Int)
  | scheduleResubscription (A : Answers) (inst : Int) (newSub : Subscription)
  | startUpdate
  | update (A : Answers)
  | startProcess
  | loop (A : Answers)
  | connectDone (A : Answers) (success : Bool)
  | callback (A : Answers) (cb : Callback)
  | reconnect (A : Answers)
  | close (A : Answers)
  | disconnected (A : Answers)

/-- `FindMqttClientByInstance`. -/
def findMqttClientByInstance (inst : Int) (clients : List Client) : Option Nat :=
  clients.findIdx? (·.connParams.inst = inst)

/-- `FindUnusedMqttClient_Local`. -/
def findUnusedMqttClient (clients : List Client) : Option Nat :=
  findMqttClientByInstance invalid clients

def inUse (i : Nat) (m : Mqtt) : Bool := m.clients[i]?.any (·.connParams.inst ≠ invalid)

/-- An operation on the client with an instance number, if there is one. -/
def onClient (inst : Int) (op : SlotOp) (m : Mqtt) : List (Nat × SlotOp) :=
  (findMqttClientByInstance inst m.clients).toList.map (·, op)

/-- The operation is for a client in use. -/
def onSlot (i : Nat) (op : SlotOp) (m : Mqtt) : List (Nat × SlotOp) :=
  if inUse i m then [(i, op)] else []

/-- `Connect` is called for the client at `i`. -/
def sendsConnect (i : Nat) (m : Mqtt) : Bool :=
  m.clients[i]?.any fun c => c.connParams.inst ≠ invalid ∧ c.state = .sendingConnect

/-- The instance number that a callback finds behind its user data: that of the slot
whose context is being served. -/
def callbackInstance (i : Nat) (m : Mqtt) : Int :=
  (m.clients[i]?.map (·.connParams.inst)).getD invalid

/-- A certificate is verified for a slot, any other callback looks its client up. -/
def onCallback (A : Answers) (i : Nat) (cb : Callback) (m : Mqtt) : List (Nat × SlotOp) :=
  match cb with
  | .certVerify chain => [(i, .callback A (.certVerify chain))]
  | cb => onClient (callbackInstance i m) (.callback A cb) m

/-- The operations of a step. -/
def acts (m : Mqtt) (step : Step) : List (Nat × SlotOp) :=
  match step, m.pc with
  | .enableClient A p subscriptions, _ =>
    ((findMqttClientByInstance p.inst m.clients).or
      (findUnusedMqttClient m.clients)).toList.map (·, .enableClient A p subscriptions)
  | .disableClient inst, _ => onClient inst .disableClient m
  | .queueBinaryMessage inst contentType pbuf topic, _ =>
    onClient inst (.queueBinaryMessage contentType pbuf topic) m
  | .scheduleReconnect p, _ => onClient p.inst (.scheduleReconnect p) m
  | .activateScheduledActions, _ =>
    (List.range m.clients.length).map (·, .activateScheduledActions)
  | .addSubscription A inst sub, _ => onClient inst (.addSubscription A sub) m
  | .deleteSubscription A inst subinstance, _ =>
    onClient inst (.deleteSubscription A subinstance) m
  | .scheduleResubscription A inst newSub, _ =>
    onClient inst (.scheduleResubscription A newSub) m
  | .update A, .update i => onSlot i (.updateSockSet A) m
  | .loop A, .loops i => if sendsConnect i m then [(i, .connectStart A)] else []
  | .connectDone A success, .connecting i => [(i, .connectDone A success)]
  | .callback A cb, .callbacks i => onCallback A i cb m
  | .callback A cb, .connecting i => onCallback A i cb m
  | .reconnect A, .callbacks i => [(i, .reconnect A)]
  | .close A, .close i => [(i, .close A)]
  | .disconnected A, .disconnected i => [(i, .disconnected A)]
  | _, _ => []

/-- The operation that a step does to one slot or to several. -/
def slotOp : Step → Option SlotOp
  | .enableClient A p subscriptions => some (.enableClient A p subscriptions)
  | .disableClient _ => some .disableClient
  | .queueBinaryMessage _ contentType pbuf topic => some (.queueBinaryMessage contentType pbuf topic)
  | .scheduleReconnect p => some (.scheduleReconnect p)
  | .activateScheduledActions => some .activateScheduledActions
  | .addSubscription A _ sub => some (.addSubscription A sub)
  | .deleteSubscription A _ subinstance => some (.deleteSubscription A subinstance)
  | .scheduleResubscription A _ newSub => some (.scheduleResubscription A newSub)
  | .update A => some (.updateSockSet A)
  | .loop A => some (.connectStart A)
  | .connectDone A success => some (.connectDone A success)
  | .callback A cb => some (.callback A cb)
  | .reconnect A => some (.reconnect A)
  | .close A => some (.close A)
  | .disconnected A => some (.disconnected A)
  | .startUpdate | .startProcess => none

def nextSlot (at_ : Nat → Pc) (i : Nat) : Pc :=
  if i + 1 < maxMqttClients then at_ (i + 1) else .select

/-- The `mosquitto_connect` for the client at `i` is called. -/
def callsConnect (A : Answers) (i : Nat) (m : Mqtt) : Bool :=
  m.clients[i]?.any fun c => (connectStart A c).1

/-- Where the MTP thread is after a step, and `none` where the step cannot be taken:
the mutex is not free, or the MTP thread is elsewhere. -/
def nextPc (m : Mqtt) (step : Step) : Option Pc :=
  match step, m.pc with
  | .startUpdate, .select => some (.update 0)
  | .update _, .update i => some (nextSlot .update i)
  | .startProcess, .select => some (.loops 0)
  | .loop A, .loops i =>
    if inUse i m = false then some (nextSlot .loops i)
    else if sendsConnect i m ∧ callsConnect A i m then some (.connecting i)
    else some (.callbacks i)
  | .connectDone _ _, .connecting i => some (.callbacks i)
  | .callback _ (.certVerify _), .connecting i => some (.connecting i)
  | .callback _ _, .callbacks i => some (.callbacks i)
  | .reconnect _, .callbacks i => some (.close i)
  | .close _, .close i => some (.disconnected i)
  | .disconnected _, .disconnected i => some (nextSlot .loops i)
  | .startUpdate, _ | .update _, _ | .startProcess, _ | .loop _, _ | .connectDone _ _, _
  | .callback _ _, _ | .reconnect _, _ | .close _, _ | .disconnected _, _ => none
  | _, .select => some .select
  | _, .connecting i => some (.connecting i)
  | _, _ => none

/-- What the callers of the data model thread see to: the instance numbers are those
of rows of `Device.MQTT.Client.{i}`, and the topics asserted at once are there. -/
def Called : Step → Prop
  | .enableClient _ p _ | .scheduleReconnect p => p.inst ≠ invalid
  | .disableClient inst | .queueBinaryMessage inst _ _ _ | .deleteSubscription _ inst _ =>
    inst ≠ invalid
  | .addSubscription _ inst sub | .scheduleResubscription _ inst sub =>
    inst ≠ invalid ∧ sub.topic.isSome
  | _ => True

instance : ∀ step, Decidable (Called step)
  | .enableClient _ p _ | .scheduleReconnect p => inferInstanceAs (Decidable (p.inst ≠ invalid))
  | .disableClient inst | .queueBinaryMessage inst _ _ _ | .deleteSubscription _ inst _ =>
    inferInstanceAs (Decidable (inst ≠ invalid))
  | .addSubscription _ inst sub | .scheduleResubscription _ inst sub =>
    inferInstanceAs (Decidable (inst ≠ invalid ∧ sub.topic.isSome))
  | .activateScheduledActions | .startUpdate | .update _ | .startProcess | .loop _
  | .connectDone _ _ | .callback _ _ | .reconnect _ | .close _ | .disconnected _ => isTrue trivial

def applyAll : List (Nat × SlotOp) → List Client → Option (List Client)
  | [], clients => some clients
  | (i, op) :: rest, clients =>
    (clients[i]?.bind op.apply).bind fun c => applyAll rest (clients.set i c)

def step (i : Step) (m : Mqtt) : Option Mqtt :=
  if Called i then
    (nextPc m i).bind fun pc => (applyAll (acts m i) m.clients).map (⟨·, pc⟩)
  else none

variable {i : Step} {m m' : Mqtt} {op : SlotOp} {k : Nat} {ops : List (Nat × SlotOp)}
  {clients clients' : List Client}

theorem step_eq_some (h : step i m = some m') :
    Called i ∧ nextPc m i = some m'.pc ∧ applyAll (acts m i) m.clients = some m'.clients := by
  rw [step] at h
  split at h
  · next hcalled =>
    rw [bind_eq_some_iff] at h
    obtain ⟨pc, hpc, h⟩ := h
    rw [map_eq_some_iff] at h
    obtain ⟨clients, hclients, rfl⟩ := h
    exact ⟨hcalled, hpc, hclients⟩
  · cases h

/-! ## One slot in a step -/

theorem onClient_nodup (inst : Int) (op : SlotOp) (m : Mqtt) :
    ((onClient inst op m).map Prod.fst).Nodup := by
  rw [onClient]
  cases findMqttClientByInstance inst m.clients <;> simp

/-- A step does at most one operation to a slot. -/
theorem acts_nodup (m : Mqtt) (i : Step) : ((acts m i).map Prod.fst).Nodup := by
  unfold acts onSlot onCallback
  split
  case h_1 =>
    cases (findMqttClientByInstance _ m.clients).or (findUnusedMqttClient m.clients) <;> simp
  case h_5 => simp [Function.comp_def, nodup_range]
  all_goals first
    | exact onClient_nodup _ _ _
    | split <;> first | exact onClient_nodup _ _ _ | simp
    | simp

theorem mem_onClient {inst : Int} {op' : SlotOp} (h : (k, op') ∈ onClient inst op m) :
    op' = op ∧ findMqttClientByInstance inst m.clients = some k := by
  obtain ⟨_, hk', heq⟩ := List.mem_map.mp h
  cases heq
  exact ⟨rfl, mem_toList.mp hk'⟩

theorem mem_onCallback {A : Answers} {j : Nat} {cb : Callback} (h : (k, op) ∈ onCallback A j cb m) :
    op = .callback A cb := by
  cases cb
  case certVerify chain =>
    obtain ⟨-, rfl⟩ : k = j ∧ op = .callback A (.certVerify chain) := by simpa [onCallback] using h
    rfl
  all_goals exact (mem_onClient h).1

theorem slotOp_of_acts (h : (k, op) ∈ acts m i) : slotOp i = some op := by
  unfold acts onSlot at h
  split at h
  case h_1 | h_5 =>
    obtain ⟨_, -, heq⟩ := List.mem_map.mp h
    cases heq
    rfl
  case h_2 | h_3 | h_4 | h_6 | h_7 | h_8 => rw [(mem_onClient h).1, slotOp]
  case h_9 | h_10 =>
    split at h
    · cases List.mem_singleton.mp h
      rfl
    · cases h
  case h_11 | h_14 | h_15 | h_16 =>
    cases List.mem_singleton.mp h
    rfl
  case h_12 | h_13 => rw [mem_onCallback h, slotOp]
  case h_17 => cases h

theorem applyAll_other (h : applyAll ops clients = some clients') (hk : k ∉ ops.map Prod.fst) :
    clients'[k]? = clients[k]? := by
  induction ops generalizing clients with
  | nil =>
    cases h
    rfl
  | cons op ops ih =>
    rw [map_cons, mem_cons, not_or] at hk
    rw [applyAll, bind_eq_some_iff] at h
    obtain ⟨c, -, h⟩ := h
    rw [ih h hk.2, getElem?_set_ne (Ne.symm hk.1)]

theorem applyAll_mem (h : applyAll ops clients = some clients')
    (hnodup : (ops.map Prod.fst).Nodup) (hmem : (k, op) ∈ ops) :
    ∃ c c', clients[k]? = some c ∧ op.apply c = some c' ∧ clients'[k]? = some c' := by
  induction ops generalizing clients with
  | nil => cases hmem
  | cons first ops ih =>
    rw [map_cons, nodup_cons] at hnodup
    rw [applyAll, bind_eq_some_iff] at h
    obtain ⟨c', hc', h⟩ := h
    rw [bind_eq_some_iff] at hc'
    obtain ⟨c, hc, hop⟩ := hc'
    rcases List.mem_cons.mp hmem with rfl | hmem
    · refine ⟨c, c', hc, hop, ?_⟩
      rw [applyAll_other h hnodup.1, getElem?_set_self (List.getElem?_eq_some_iff.mp hc).1]
    · have hne : first.1 ≠ k := by
        rintro rfl
        exact hnodup.1 (List.mem_map.mpr ⟨_, hmem, rfl⟩)
      obtain ⟨c₁, c₁', hc₁, hop₁, hc₁'⟩ := ih h hnodup.2 hmem
      rw [getElem?_set_ne hne] at hc₁
      exact ⟨c₁, c₁', hc₁, hop₁, hc₁'⟩

theorem applyAll_length (h : applyAll ops clients = some clients') :
    clients'.length = clients.length := by
  induction ops generalizing clients with
  | nil =>
    cases h
    rfl
  | cons op ops ih =>
    rw [applyAll, bind_eq_some_iff] at h
    obtain ⟨c, -, h⟩ := h
    rw [ih h, length_set]

/-- A slot after a step comes from the slot before it, by an operation of the step or
without any. -/
theorem slot_of_step (h : step i m = some m') {c' : Client} (hk : m'.clients[k]? = some c') :
    (m.clients[k]? = some c' ∧ k ∉ (acts m i).map Prod.fst) ∨
      ∃ c op, m.clients[k]? = some c ∧ (k, op) ∈ acts m i ∧ op.apply c = some c' := by
  have hclients := (step_eq_some h).2.2
  by_cases hmem : k ∈ (acts m i).map Prod.fst
  · obtain ⟨⟨_, op⟩, hop, rfl⟩ := List.mem_map.mp hmem
    obtain ⟨c, c₁, hc, happly, hc₁⟩ := applyAll_mem hclients (acts_nodup m i) hop
    rw [hk, Option.some.injEq] at hc₁
    subst hc₁
    exact .inr ⟨c, op, hc, hop, happly⟩
  · rw [applyAll_other hclients hmem] at hk
    exact .inl ⟨hk, hmem⟩

/-- What becomes of a slot in a step. -/
theorem slot_in_step (h : step i m = some m') {c : Client} (hk : m.clients[k]? = some c) :
    (m'.clients[k]? = some c ∧ k ∉ (acts m i).map Prod.fst) ∨
      ∃ c' op, m'.clients[k]? = some c' ∧ (k, op) ∈ acts m i ∧ op.apply c = some c' := by
  have hlength := applyAll_length (step_eq_some h).2.2
  have hlt : k < m'.clients.length := by
    rw [hlength]
    exact (List.getElem?_eq_some_iff.mp hk).1
  have hk' := getElem?_eq_getElem hlt
  rcases slot_of_step h hk' with ⟨hsame, hnot⟩ | ⟨c₁, op, hc₁, hop, happly⟩
  · rw [hk] at hsame
    exact .inl ⟨hk'.trans hsame.symm, hnot⟩
  · rw [hk, Option.some.injEq] at hc₁
    subst hc₁
    exact .inr ⟨_, op, hk', hop, happly⟩

/-! ## One slot in a run -/

/-- Every operation of the step meets `C` at its slot. -/
def OnSlots (C : Client → SlotOp → Prop) (m : Mqtt) (i : Step) : Prop :=
  ∀ k op c, (k, op) ∈ acts m i → m.clients[k]? = some c → C c op

instance decidableOnSlots {C : Client → SlotOp → Prop} [∀ c op, Decidable (C c op)] (m : Mqtt)
    (i : Step) : Decidable (OnSlots C m i) :=
  decidable_of_iff (∀ x ∈ acts m i, ∀ c ∈ m.clients[x.1]?, C c x.2)
    ⟨fun h k op c hop hc => h (k, op) hop c hc, fun h x hop c hc => h x.1 x.2 c hop hc⟩

theorem slots_keep {C : Client → SlotOp → Prop} {I : Client → Prop}
    (hstep : ∀ c op c', I c → C c op → op.apply c = some c' → I c') {steps : List Step}
    {m₀ : Mqtt} (hfirst : ∀ c ∈ m₀.clients, I c) (hmeets : RunMeets step (OnSlots C) steps m₀)
    (hrun : run step steps m₀ = some m) : ∀ c ∈ m.clients, I c := by
  refine run_keeps (I := fun m => ∀ c ∈ m.clients, I c) ?_ hfirst hmeets hrun
  intro m i m' hI hC h c' hc'
  obtain ⟨k, hk⟩ := mem_iff_getElem?.mp hc'
  rcases slot_of_step h hk with ⟨hk, -⟩ | ⟨c, op, hc, hop, happly⟩
  · exact hI c' (mem_of_getElem? hk)
  · exact hstep c op c' (hI c (mem_of_getElem? hc)) (hC k op c hop hc) happly

theorem mem_initMqtt {c : Client} (hc : c ∈ initMqtt.clients) : c = initClient :=
  eq_of_mem_replicate hc

/-! ## A smooth run -/

/-- Answers to calls that all succeed. -/
def smooth : Answers where
  now := 1
  endpointId := ⟨['e'], cons_ne_nil _ _⟩
  socket := true
  mosquittoNew := true
  intOption := true
  usernamePwSet := true
  setEncryption := true
  properties := true
  retryWait := fun _ _ _ => 1
  subscribe := fun i => some (i + 1)
  unsubscribe := some 7
  publish := some 8
  trust := ⟨some, some, id⟩

/-- The parameters of the client with instance number 1. -/
def brokerParams (tsProtocol : TsProtocol) : ConnParams :=
  { initConnParams with
    host := some ['b']
    inst := 1
    enable := true
    version := .v311
    topic := some ['c']
    responseTopic := some ['a']
    tsProtocol := tsProtocol
    retry := ⟨5, 2, 60⟩ }

def unusedSubscriptions : List Subscription :=
  List.replicate maxMqttSubscriptions { initSubscription with inst := invalid }

/-- The MTP thread serves the slots of which only the first is in use: `serves` is what
it does for that one before the three tests. -/
def processPass (serves : List Step) : List Step :=
  [.startProcess, .loop smooth] ++ serves ++
    [.reconnect smooth, .close smooth, .disconnected smooth] ++ List.replicate 4 (.loop smooth)

def updatePass : List Step := .startUpdate :: List.replicate 5 (.update smooth)

/-- The context of the first slot connects, and the CONNACK comes. -/
def connectPass (chain : Option CertChain) : List Step :=
  processPass (chain.toList.map (.callback smooth <| .certVerify ·) ++
    [.connectDone smooth true, .callback smooth (.connect true ⟨none, none, []⟩)])

end MqttThread
