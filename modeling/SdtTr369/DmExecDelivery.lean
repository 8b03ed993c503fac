import SdtTr369.DmExec
import SdtTr369.MqttGreetings

/-!
# What becomes of the messages that are posted

Over any run of the threads: a call that returns `USP_ERR_OK` has its message processed
once or waiting, and so has every message that found room. A client that is running has
told so, and a thread that has exited has posted its flag; where there was room for that
message, the data model thread has acted on it or finds it in the queue.
-/

namespace DmExecDelivery

open UspTypes MqttClient MqttSession MqttInstances MqttGreetings BoundedQueue DmExec RunHistory List
open Option
open MqttThread (Mqtt initMqtt)
open DataModelRead (uspErrInternalError)

variable {capacity : Nat}

/-! ## What the data model thread has done -/

def isHandshakeFor (inst : Int) : Msg → Bool
  | .mqttHandshakeComplete i .. => i = inst
  | _ => false

def roleFor (inst : Int) : Call → Option Nat
  | .setRolesFromMqtt i role => if i = inst then some role else none
  | _ => none

def connectRecordFor (inst : Int) : Call → Option (ProtocolVer × Option Str)
  | .queueMqttConnectRecord i version topic => if i = inst then some (version, topic) else none
  | _ => none

/-- The role and the connect record of a client are those that the data model thread has
applied last for its instance. -/
structure Applied (s : Threads capacity) (inst : Int) (role : Nat) (version : ProtocolVer)
    (topic : Option Str) : Prop where
  role : (s.calls.filterMap (roleFor inst)).getLast? = some role
  connectRecord : (s.calls.filterMap (connectRecordFor inst)).getLast? = some (version, topic)
  notifications : s.isNotificationsEnabled

/-- The handshake-complete message of a client is in the queue, or has been applied. -/
def Told (s : Threads capacity) (inst : Int) (role : Nat) (version : ProtocolVer)
    (topic : Option Str) : Prop :=
  .mqttHandshakeComplete inst role version topic ∈ s.queue.waiting ∨ Applied s inst role version topic

/-- The flags are in `cumulative_mtp_threads_exited`. -/
def HasFlags (s : Threads capacity) (flags : Nat) : Prop :=
  s.cumulativeMtpThreadsExited ||| flags = s.cumulativeMtpThreadsExited

/-- The flags of a thread are in the queue, or have been taken note of. -/
def FlagsKept (s : Threads capacity) (flags : Nat) : Prop :=
  .mtpThreadExited flags ∈ s.queue.waiting ∨ HasFlags s flags

def isExitOf (flags : Nat) (msg : Msg) : Bool := msg = .mtpThreadExited flags

/-- The flag of a thread was posted, and is kept where it found room. -/
def ExitPosted (s : Threads capacity) (flags : Nat) : Prop :=
  ∃ e, latest (isExitOf flags) s.queue.offers = some e ∧ (e.waiting < capacity → FlagsKept s flags)

/-- The flag of a thread found room when it was posted. -/
def ExitAccepted (s : Threads capacity) (flags : Nat) : Prop :=
  ∃ e, latest (isExitOf flags) s.queue.offers = some e ∧ e.waiting < capacity

structure Delivers (s : Threads capacity) : Prop where
  account : accepted capacity s.queue.offers = s.queue.taken ++ s.queue.waiting
  acknowledged : s.acknowledged = (s.queue.taken ++ s.queue.waiting).filter answers
  running : ∀ c ∈ s.mqtt.clients, c.state = .running → ∃ e version topic,
    latest (isHandshakeFor c.connParams.inst) s.queue.offers = some e ∧
      e.msg = .mqttHandshakeComplete c.connParams.inst c.role version topic ∧
      (e.waiting < capacity → Told s c.connParams.inst c.role version topic)
  mqttThread : s.mqttThread = .exited → ExitPosted s mqttExited
  bdcThread : s.bdcThread = .exited → ExitPosted s bdcExited
  scheduledExit : ExitAccepted s mqttExited → ExitAccepted s bdcExited →
    ∃ n ≤ s.queue.waiting.length, ∃ s', run step (List.replicate n .receive) s = some s' ∧
      s'.scheduledExit

/-! ## One step -/

/-- Everything but the messages and what the threads do about them. -/
structure SameTraffic (s s' : Threads capacity) : Prop where
  queue : s'.queue = s.queue
  acknowledged : s'.acknowledged = s.acknowledged
  flags : s'.cumulativeMtpThreadsExited = s.cumulativeMtpThreadsExited
  notifications : s'.isNotificationsEnabled = s.isNotificationsEnabled
  scheduledExit : s'.scheduledExit = s.scheduledExit
  mqtt : s'.mqtt = s.mqtt
  mqttThread : s'.mqttThread = .exited ↔ s.mqttThread = .exited
  bdcThread : s'.bdcThread = .exited ↔ s.bdcThread = .exited

theorem SameTraffic.refl (s : Threads capacity) : SameTraffic s s :=
  ⟨rfl, rfl, rfl, rfl, rfl, rfl, Iff.rfl, Iff.rfl⟩

/-- The answer of a call that has offered a message. -/
def offerAnswer (msg : Msg) (q : MsgQueue capacity) : Nat × MsgQueue capacity :=
  (if (q.offer msg).1 then uspErrOk else uspErrInternalError, (q.offer msg).2)

/-- What a step can do. -/
inductive Stepped (s s' : Threads capacity) : Prop
  | aside (h : SameTraffic s s')
  | answered (msg : Msg) (hmsg : answers msg) (h : s' = takeAnswer s (offerAnswer msg s.queue))
  | received (msg : Msg) (q : MsgQueue capacity) (hq : s.queue.take = some (msg, q))
      (h : s' = processMessage { s with queue := q } msg)
  | mqtt (i : MqttThread.Step) (m : Mqtt) (hthread : s.mqttThread ≠ .exited)
      (hm : MqttThread.step i s.mqtt = some m)
      (h : s' = { s with
        mqtt := m
        queue := (loggedEvents s.mqtt m).foldl (fun q e => postEvent e q) s.queue })
  | mqttExited (h : s' = { s with
      mqtt := destroyedMqtt
      mqttThread := .exited
      queue := postMtpThreadExited mqttExited s.queue })
  | bdcExited (h : s' = { s with
      bdcThread := .exited
      queue := postMtpThreadExited bdcExited s.queue })

variable {msg : Msg} {q : MsgQueue capacity} {res : Nat × MsgQueue capacity} {e : Offer Msg}

theorem send_cases {flags : SendFlags} (h : send flags msg q = some res) :
    res = offerAnswer msg q := by
  unfold send at h
  split at h <;> cases h
  rfl

theorem signalText_cases {onDmThread : Bool} {msg : Str → Msg} {text : Option Str}
    (hmsg : ∀ text, answers (msg text)) (h : signalText onDmThread msg text q = some res) :
    res = (uspErrInternalError, q) ∨ ∃ msg, answers msg ∧ res = offerAnswer msg q := by
  cases text with
  | none =>
    cases h
    exact .inl rfl
  | some text => exact .inr ⟨msg text, hmsg text, send_cases h⟩

/-- A call is refused for its arguments, or offers a message of a kind that is answered. -/
theorem call_cases {signal : Signal} (h : signal.call q = some res) :
    res = (uspErrInternalError, q) ∨ ∃ msg, answers msg ∧ res = offerAnswer msg q := by
  cases signal with
  | operationComplete onDmThread inst errCode errMsg outputArgs =>
    dsimp only [Signal.call, uspSignalOperationComplete] at h
    split at h
    · cases h
      exact .inl rfl
    · exact .inr ⟨_, rfl, send_cases h⟩
  | dataModelEvent onDmThread eventName outputArgs => exact .inr ⟨_, rfl, send_cases h⟩
  | operationStatus onDmThread inst status => exact signalText_cases (fun _ => rfl) h
  | objectAdded onDmThread path => exact signalText_cases (fun _ => rfl) h
  | objectDeleted onDmThread path => exact signalText_cases (fun _ => rfl) h
  | e2eEvent event requestInstance controllerInstance =>
    dsimp only [Signal.call, postE2eEvent] at h
    split at h
    · cases h
      exact .inl rfl
    · exact .inr ⟨_, rfl, send_cases h⟩

theorem takeAnswer_refused (s : Threads capacity) :
    takeAnswer s (uspErrInternalError, s.queue) = s := by
  simp [takeAnswer, uspErrInternalError, uspErrOk]

theorem step_cases {i : Step} {s s' : Threads capacity} (h : step i s = some s') :
    s.scheduledExit = false ∧ Stepped s s' := by
  unfold step at h
  split at h
  · cases h
  · next hrunning =>
    refine ⟨by simpa using hrunning, ?_⟩
    cases i with
    | signal signal =>
      obtain ⟨res, hres, rfl⟩ := map_eq_some_iff.mp h
      rcases call_cases hres with rfl | ⟨msg, hmsg, rfl⟩
      · rw [takeAnswer_refused]
        exact .aside (.refl s)
      · exact .answered msg hmsg rfl
    | receive =>
      obtain ⟨⟨msg, q⟩, hq, rfl⟩ := map_eq_some_iff.mp h
      exact .received msg q hq rfl
    | mqtt step =>
      dsimp only [mqttStep] at h
      split at h
      · cases h
      split at h
      · cases h
        exact .aside (.refl s)
      · next hthread =>
        obtain ⟨m, hm, rfl⟩ := map_eq_some_iff.mp h
        exact .mqtt step m hthread hm rfl
    | mqttExit =>
      dsimp only [mqttExit] at h
      split at h <;> cases h
      exact .mqttExited rfl
    | mqttAbort =>
      dsimp only [mqttAbort] at h
      split at h <;> cases h
      next hthread =>
      exact .aside ⟨rfl, rfl, rfl, rfl, rfl, rfl, by simp [hthread.1], Iff.rfl⟩
    | scheduleExit =>
      cases h
      exact .aside ⟨rfl, rfl, rfl, rfl, rfl, rfl, Iff.rfl, Iff.rfl⟩
    | activateExit =>
      cases h
      unfold activateExit
      split
      · exact .aside ⟨rfl, rfl, rfl, rfl, rfl, rfl, Iff.rfl, Iff.rfl⟩
      · exact .aside (.refl s)
    | bdcTransferResult profileId transferResult =>
      dsimp only [bdcTransferResult] at h
      split at h
      · obtain ⟨res, hres, rfl⟩ := map_eq_some_iff.mp h
        rw [send_cases hres]
        exact .answered _ rfl rfl
      · cases h
    | bdcScheduleExit =>
      dsimp only [bdcScheduleExit] at h
      split at h <;> cases h
      exact .aside ⟨rfl, rfl, rfl, rfl, rfl, rfl, Iff.rfl, Iff.rfl⟩
    | bdcExit =>
      dsimp only [bdcExit] at h
      split at h <;> cases h
      exact .bdcExited rfl
    | bdcAbort =>
      dsimp only [bdcAbort] at h
      split at h <;> cases h
      next hthread =>
      exact .aside ⟨rfl, rfl, rfl, rfl, rfl, rfl, Iff.rfl, by simp [hthread]⟩

/-! ## The handshakes that are posted -/

def msgOf : Event → Option Msg
  | .handshakeComplete inst version topic role => some (.mqttHandshakeComplete inst role version topic)
  | .uspRecord pbuf role inst replyTo => some (.processUspRecord pbuf role inst replyTo)
  | _ => none

/-- What a step of the MQTT clients posts is what the events say. -/
theorem foldl_postEvent (es : List Event) (q : MsgQueue capacity) :
    es.foldl (fun q e => postEvent e q) q = q.offerAll (es.filterMap msgOf) := by
  induction es generalizing q with
  | nil => rfl
  | cons e es ih =>
    rw [foldl_cons, ih]
    cases e <;> rfl

/-- The handshakes for an instance among what the slot has posted. -/
def handshakes (inst : Int) (es : List Event) : List Msg :=
  (es.filterMap msgOf).filter (isHandshakeFor inst)

theorem handshakes_append (inst : Int) (es es' : List Event) :
    handshakes inst (es ++ es') = handshakes inst es ++ handshakes inst es' := by
  simp [handshakes]

theorem handshakes_quiet {inst : Int} {es : List Event} (h : ∀ e ∈ es, ¬ IsHandshake e) :
    handshakes inst es = [] := by
  refine List.filter_eq_nil_iff.mpr fun msg hmsg => ?_
  obtain ⟨e, he, hmsg⟩ := List.mem_filterMap.mp hmsg
  cases e <;> cases hmsg
  case handshakeComplete => exact absurd trivial (h _ he)
  case uspRecord => simp [isHandshakeFor]

section Slot

variable {c c' : Client} {inst : Int}

theorem handshakes_silent (h : Silent c c') : handshakes inst (newEvents c c') = [] := by
  obtain ⟨es, hlog, hes⟩ := h.log
  rw [newEvents_eq hlog]
  exact handshakes_quiet hes

/-- A client that has come up posts one handshake, for its own instance. -/
theorem handshakes_greets (h : Greets c c') : ∃ version topic,
    handshakes inst (newEvents c c') = if c'.connParams.inst = inst then
      [.mqttHandshakeComplete c'.connParams.inst c'.role version topic] else [] := by
  obtain ⟨es, version, topic, hlog, hes⟩ := h
  rw [append_assoc] at hlog
  refine ⟨version, topic, ?_⟩
  rw [newEvents_eq hlog, handshakes_append, handshakes_quiet hes]
  split <;> simp_all [handshakes, msgOf, isHandshakeFor]

end Slot

/-- Of a list of lists only one is not empty. -/
theorem flatMap_only {β γ : Type} {l : List β} {g : β → List γ} {k : Nat} {x : β}
    (hk : l[k]? = some x) (hother : ∀ j y, l[j]? = some y → j ≠ k → g y = []) :
    l.flatMap g = g x := by
  induction l generalizing k with
  | nil => cases hk
  | cons y l ih =>
    rw [flatMap_cons]
    cases k with
    | zero =>
      cases hk
      have hrest : l.flatMap g = [] := by
        refine List.flatMap_eq_nil_iff.mpr fun z hz => ?_
        obtain ⟨j, hj⟩ := mem_iff_getElem?.mp hz
        exact hother (j + 1) z hj (Nat.succ_ne_zero j)
      rw [hrest, append_nil]
    | succ k =>
      rw [hother 0 y rfl (Nat.succ_ne_zero k).symm, nil_append]
      exact ih hk fun j z hj hne => hother (j + 1) z hj (fun h => hne (Nat.succ_injective h))

section MqttStep

variable {m m' : Mqtt} {i : MqttThread.Step}

/-- In a step only the slot for an instance posts handshakes for it. -/
theorem handshakes_step (hok' : InstancesOk m') (hstep : MqttThread.step i m = some m') {k : Nat}
    {c c' : Client} (hc : m.clients[k]? = some c) (hc' : m'.clients[k]? = some c')
    (hused : c'.connParams.inst ≠ invalid) :
    handshakes c'.connParams.inst (loggedEvents m m') =
      handshakes c'.connParams.inst (newEvents c c') := by
  have hsplit : handshakes c'.connParams.inst (loggedEvents m m') =
      (m.clients.zip m'.clients).flatMap fun x =>
        handshakes c'.connParams.inst (newEvents x.1 x.2) := by
    simp only [handshakes, loggedEvents, filterMap_flatMap, filter_flatMap]
  rw [hsplit]
  refine flatMap_only (x := (c, c')) (List.getElem?_zip_eq_some.mpr ⟨hc, hc'⟩) ?_
  rintro j ⟨d, d'⟩ hj hne
  obtain ⟨hd, hd'⟩ := List.getElem?_zip_eq_some.mp hj
  rcases step_greets hstep hd hd' with hsilent | hgreets
  · exact handshakes_silent hsilent
  · obtain ⟨version, topic, hposted⟩ := handshakes_greets hgreets
    rw [hposted, if_neg fun hinst => hne (hok'.distinct j k d' c' hd' hc' hinst (hinst ▸ hused))]

/-- A client that is running has just come up, or was running in the same way before. -/
theorem running_step (hok : InstancesOk m) (hstep : MqttThread.step i m = some m') {c' : Client}
    (hmem : c' ∈ m'.clients) (hrunning : c'.state = .running) :
    (∃ version topic, handshakes c'.connParams.inst (loggedEvents m m') =
      [.mqttHandshakeComplete c'.connParams.inst c'.role version topic]) ∨
    handshakes c'.connParams.inst (loggedEvents m m') = [] ∧
      ∃ c ∈ m.clients, c.state = .running ∧ c.connParams.inst = c'.connParams.inst ∧
        c.role = c'.role := by
  have hok' := instancesOk_step hok hstep
  obtain ⟨k, hc'⟩ := mem_iff_getElem?.mp hmem
  have hlength : m'.clients.length = m.clients.length :=
    MqttThread.applyAll_length (MqttThread.step_eq_some hstep).2.2
  have hlt : k < m.clients.length := hlength ▸ (List.getElem?_eq_some_iff.mp hc').1
  have hc := getElem?_eq_getElem hlt
  have hused := running_inUse hok' hc' hrunning
  rw [handshakes_step hok' hstep hc hc' hused]
  rcases step_greets hstep hc hc' with hsilent | hgreets
  · have hwas := hsilent.running hrunning
    refine .inr ⟨handshakes_silent hsilent, _, mem_of_getElem? hc, hwas, ?_, ?_⟩
    · exact (running_inst hok hstep hc hc' hwas hrunning).symm
    · exact (hsilent.role hrunning).symm
  · obtain ⟨version, topic, hposted⟩ := handshakes_greets hgreets
    rw [if_pos rfl] at hposted
    exact .inl ⟨version, topic, hposted⟩

end MqttStep

/-! ## The invariant -/

/-- The flags of the exit messages among `msgs`, together. -/
def exitFlags (msgs : List Msg) : Nat :=
  msgs.foldl (fun flags msg => match msg with
    | .mtpThreadExited flag => flags ||| flag
    | _ => flags) 0

theorem exitFlags_snoc (msgs : List Msg) (msg : Msg) : exitFlags (msgs ++ [msg]) =
    match msg with
    | .mtpThreadExited flag => exitFlags msgs ||| flag
    | _ => exitFlags msgs := by
  rw [exitFlags, foldl_append]
  rfl

variable {msgs : List Msg} {p : Msg → Bool} {offers es : List (Offer Msg)}

theorem exitFlags_mem {flag : Nat} (h : .mtpThreadExited flag ∈ msgs) :
    exitFlags msgs ||| flag = exitFlags msgs := by
  induction msgs using List.reverseRecOn with
  | nil => cases h
  | append_singleton msgs msg ih =>
    rw [exitFlags_snoc]
    rcases List.mem_append.mp h with hmem | hlast
    · have hbefore := ih hmem
      cases msg
      case mtpThreadExited other => rw [Nat.or_assoc, Nat.or_comm other, ← Nat.or_assoc, hbefore]
      all_goals exact hbefore
    · rw [← List.mem_singleton.mp hlast, Nat.or_assoc, Nat.or_self]

/-- Only the flags of the two threads are posted. -/
def ExitFlag (msg : Msg) : Prop :=
  ∀ flags, msg = .mtpThreadExited flags → flags = mqttExited ∨ flags = bdcExited

theorem exitFlags_bound (h : ∀ msg ∈ msgs, ExitFlag msg) :
    exitFlags msgs ||| allMtpExited = allMtpExited := by
  induction msgs using List.reverseRecOn with
  | nil => rfl
  | append_singleton msgs msg ih =>
    have hbefore := ih fun msg' hmsg' => h msg' (mem_append_left _ hmsg')
    rw [exitFlags_snoc]
    cases msg
    case mtpThreadExited flags =>
      have hflags : flags ||| allMtpExited = allMtpExited := by
        rcases h _ (mem_append_right _ (mem_singleton_self _)) flags rfl with rfl | rfl <;>
          rfl
      rw [Nat.or_assoc, hflags, hbefore]
    all_goals exact hbefore

structure Inv (s : Threads capacity) : Prop where
  acknowledged : s.acknowledged = (accepted capacity s.queue.offers).filter answers
  notified : ∀ inst role version topic,
    .mqttHandshakeComplete inst role version topic ∈ s.queue.taken → s.isNotificationsEnabled
  flags : s.cumulativeMtpThreadsExited = exitFlags s.queue.taken
  posted : ∀ e ∈ s.queue.offers, ExitFlag e.msg
  scheduledExit : s.scheduledExit = decide (s.cumulativeMtpThreadsExited = allMtpExited)
  mqttThread : s.mqttThread = .exited → (latest (isExitOf mqttExited) s.queue.offers).isSome
  bdcThread : s.bdcThread = .exited → (latest (isExitOf bdcExited) s.queue.offers).isSome
  instances : s.mqttThread ≠ .exited → InstancesOk s.mqtt
  running : ∀ c ∈ s.mqtt.clients, c.state = .running → ∃ e version topic,
    latest (isHandshakeFor c.connParams.inst) s.queue.offers = some e ∧
      e.msg = .mqttHandshakeComplete c.connParams.inst c.role version topic

theorem initDmExec_inv (connections : Nat) : Inv (initDmExec capacity connections) where
  acknowledged := rfl
  notified := by simp [initDmExec, Queue.empty]
  flags := rfl
  posted := by simp [initDmExec, Queue.empty]
  scheduledExit := rfl
  mqttThread := by simp [initDmExec]
  bdcThread := by simp [initDmExec]
  instances := fun _ => initMqtt_instancesOk
  running := by
    intro c hc hrunning
    have hinit : c = initClient := MqttThread.mem_initMqtt hc
    rw [hinit] at hrunning
    cases hrunning

/-- What offers of other messages leave of the facts about the offers. -/
theorem latest_kept (h : latest p offers = some e) (hes : ∀ x ∈ es, p x.msg = false) :
    latest p (offers ++ es) = some e := by
  rw [latest_other, h]
  simpa [filter_eq_nil_iff] using hes

section Step

variable {s s' : Threads capacity}

theorem inv_aside (h : Inv s) (hsame : SameTraffic s s') : Inv s' where
  acknowledged := by rw [hsame.acknowledged, hsame.queue, h.acknowledged]
  notified := by
    rw [hsame.queue, hsame.notifications]
    exact h.notified
  flags := by rw [hsame.flags, hsame.queue, h.flags]
  posted := by
    rw [hsame.queue]
    exact h.posted
  scheduledExit := by rw [hsame.scheduledExit, hsame.flags, h.scheduledExit]
  mqttThread := by
    rw [hsame.mqttThread, hsame.queue]
    exact h.mqttThread
  bdcThread := by
    rw [hsame.bdcThread, hsame.queue]
    exact h.bdcThread
  instances := by
    rw [Ne, hsame.mqttThread, hsame.mqtt]
    exact h.instances
  running := by
    rw [hsame.mqtt, hsame.queue]
    exact h.running

theorem accepted_offer (msg : Msg) (q : MsgQueue capacity) :
    accepted capacity (q.offer msg).2.offers =
      accepted capacity q.offers ++ if (q.offer msg).1 then [msg] else [] := by
  rw [Queue.offer_offers, accepted_append, Queue.offer_fst]
  by_cases hroom : q.waiting.length < capacity <;>
    simp [hroom, accepted_room, accepted_full]

/-- The code of a call tells whether its message was accepted. -/
theorem takeAnswer_acknowledged (msg : Msg) : (takeAnswer s (offerAnswer msg s.queue)).acknowledged =
    s.acknowledged ++ if (s.queue.offer msg).1 then [msg] else [] := by
  simp only [takeAnswer, offerAnswer, Queue.offer_offers, drop_left, map_cons, map_nil]
  cases (s.queue.offer msg).1 <;> simp [uspErrOk, uspErrInternalError]

theorem inv_answered (h : Inv s) (hmsg : answers msg) :
    Inv (takeAnswer s (offerAnswer msg s.queue)) := by
  have hoffers : (takeAnswer s (offerAnswer msg s.queue)).queue.offers =
      s.queue.offers ++ [⟨msg, s.queue.waiting.length⟩] := Queue.offer_offers s.queue msg
  have htaken : (takeAnswer s (offerAnswer msg s.queue)).queue.taken = s.queue.taken :=
    Queue.offer_taken s.queue msg
  have hexit : ExitFlag msg := by
    rintro flags rfl
    cases hmsg
  constructor
  case acknowledged =>
    have haccepted : accepted capacity (takeAnswer s (offerAnswer msg s.queue)).queue.offers = _ :=
      accepted_offer msg s.queue
    rw [takeAnswer_acknowledged, haccepted, filter_append, h.acknowledged]
    cases (s.queue.offer msg).1 <;> simp [hmsg]
  case notified =>
    rw [htaken]
    exact h.notified
  case flags =>
    rw [htaken]
    exact h.flags
  case posted =>
    rw [hoffers]
    exact List.forall_mem_append.mpr ⟨h.posted, by simpa using hexit⟩
  case scheduledExit => exact h.scheduledExit
  case mqttThread =>
    rw [hoffers]
    exact fun hthread => latest_isSome (h.mqttThread hthread) _
  case bdcThread =>
    rw [hoffers]
    exact fun hthread => latest_isSome (h.bdcThread hthread) _
  case instances => exact h.instances
  case running =>
    intro c hc hrunning
    obtain ⟨e, version, topic, hlatest, he⟩ := h.running c hc hrunning
    refine ⟨e, version, topic, ?_, he⟩
    rw [hoffers]
    refine latest_kept hlatest fun x hx => ?_
    rw [List.mem_singleton.mp hx]
    cases msg <;> first | rfl | cases hmsg

/-- A message that has been taken leaves the offers and the threads as they are. -/
theorem processMessage_same (s : Threads capacity) (msg : Msg) :
    (processMessage s msg).queue = s.queue ∧ (processMessage s msg).acknowledged = s.acknowledged ∧
      (processMessage s msg).mqtt = s.mqtt ∧ (processMessage s msg).mqttThread = s.mqttThread ∧
      (processMessage s msg).bdcThread = s.bdcThread := by
  cases msg <;> exact ⟨rfl, rfl, rfl, rfl, rfl⟩

theorem inv_received (h : Inv s) (hq : s.queue.take = some (msg, q)) :
    Inv (processMessage { s with queue := q } msg) := by
  obtain ⟨hqueue, hacknowledged, hmqtt, hmqttThread, hbdcThread⟩ :=
    processMessage_same { s with queue := q } msg
  obtain ⟨-, htaken, hoffers⟩ := Queue.take_eq_some hq
  constructor
  case acknowledged =>
    rw [hacknowledged, hqueue, hoffers]
    exact h.acknowledged
  case notified =>
    rw [hqueue, htaken]
    intro inst role version topic hmem
    rcases List.mem_append.mp hmem with hmem | hlast
    · have hnotified := h.notified inst role version topic hmem
      cases msg <;> first | exact hnotified | rfl
    · rw [← List.mem_singleton.mp hlast]
      rfl
  case flags =>
    rw [hqueue, htaken, exitFlags_snoc, ← h.flags]
    cases msg <;> rfl
  case posted =>
    rw [hqueue, hoffers]
    exact h.posted
  case scheduledExit =>
    cases msg
    case mtpThreadExited => rfl
    all_goals exact h.scheduledExit
  case mqttThread =>
    rw [hmqttThread, hqueue, hoffers]
    exact h.mqttThread
  case bdcThread =>
    rw [hbdcThread, hqueue, hoffers]
    exact h.bdcThread
  case instances =>
    rw [hmqttThread, hmqtt]
    exact h.instances
  case running =>
    rw [hmqtt, hqueue, hoffers]
    exact h.running

theorem answers_msgOf {es : List Event} :
    ∀ msg ∈ es.filterMap msgOf, answers msg = false ∧ ExitFlag msg := by
  intro msg hmsg
  obtain ⟨e, -, he⟩ := List.mem_filterMap.mp hmsg
  cases e <;> cases he
  all_goals
    refine ⟨rfl, ?_⟩
    rintro flags ⟨⟩

/-- Messages that no answer is given for leave what was acknowledged as it is. -/
theorem accepted_silent (hes : ∀ x ∈ es, answers x.msg = false) :
    (accepted capacity (offers ++ es)).filter answers =
      (accepted capacity offers).filter answers := by
  have hnone : (accepted capacity es).filter answers = [] := by
    refine List.filter_eq_nil_iff.mpr fun msg hmsg => ?_
    obtain ⟨x, hx, rfl⟩ := List.mem_map.mp hmsg
    simp [hes x (mem_of_mem_filter hx)]
  rw [accepted_append, filter_append, hnone, append_nil]

theorem inv_mqtt (h : Inv s) {i : MqttThread.Step} {m : Mqtt} (hthread : s.mqttThread ≠ .exited)
    (hm : MqttThread.step i s.mqtt = some m) : Inv { s with
      mqtt := m
      queue := (loggedEvents s.mqtt m).foldl (fun q e => postEvent e q) s.queue } := by
  have hok := h.instances hthread
  rw [foldl_postEvent]
  obtain ⟨es, hoffers, hmsgs⟩ := s.queue.offerAll_offers ((loggedEvents s.mqtt m).filterMap msgOf)
  have htaken := s.queue.offerAll_taken ((loggedEvents s.mqtt m).filterMap msgOf)
  have hes : ∀ x ∈ es, answers x.msg = false ∧ ExitFlag x.msg := by
    intro x hx
    have hmem : x.msg ∈ es.map Offer.msg := mem_map_of_mem hx
    exact answers_msgOf _ (hmsgs ▸ hmem)
  constructor
  case acknowledged =>
    rw [hoffers, accepted_silent fun x hx => (hes x hx).1]
    exact h.acknowledged
  case notified =>
    rw [htaken]
    exact h.notified
  case flags =>
    rw [htaken]
    exact h.flags
  case posted =>
    rw [hoffers]
    exact List.forall_mem_append.mpr ⟨h.posted, fun x hx => (hes x hx).2⟩
  case scheduledExit => exact h.scheduledExit
  case mqttThread => exact fun hexited => absurd hexited hthread
  case bdcThread =>
    rw [hoffers]
    exact fun hexited => latest_isSome (h.bdcThread hexited) _
  case instances => exact fun _ => instancesOk_step hok hm
  case running =>
    intro c hc hrunning
    rw [hoffers]
    rcases running_step hok hm hc hrunning with ⟨version, topic, hposted⟩ | ⟨hnone, d, hd, hwas⟩
    · rw [handshakes, ← hmsgs] at hposted
      obtain ⟨e, hlatest, he⟩ := latest_single s.queue.offers hposted
      exact ⟨e, version, topic, hlatest, he⟩
    · rw [handshakes, ← hmsgs] at hnone
      obtain ⟨e, version, topic, hlatest, he⟩ := h.running d hd hwas.1
      rw [hwas.2.1] at hlatest he
      rw [hwas.2.2] at he
      exact ⟨e, version, topic, (latest_other hnone).trans hlatest, he⟩

variable {flags : Nat}

/-- A thread has posted its flag: what does not concern the thread. -/
theorem inv_exit (h : Inv s) (hflags : flags = mqttExited ∨ flags = bdcExited)
    {m : Mqtt} {mqttThread bdcThread : ThreadState}
    (hmqtt : m = s.mqtt ∧ mqttThread = s.mqttThread ∨
      m = destroyedMqtt ∧ mqttThread = .exited ∧ flags = mqttExited)
    (hbdc : bdcThread = s.bdcThread ∨ flags = bdcExited) : Inv { s with
      mqtt := m
      mqttThread := mqttThread
      bdcThread := bdcThread
      queue := postMtpThreadExited flags s.queue } := by
  have hoffers : (postMtpThreadExited flags s.queue).offers =
      s.queue.offers ++ [⟨.mtpThreadExited flags, s.queue.waiting.length⟩] :=
    Queue.offer_offers s.queue _
  have htaken : (postMtpThreadExited flags s.queue).taken = s.queue.taken :=
    Queue.offer_taken s.queue _
  constructor
  case acknowledged =>
    rw [hoffers, accepted_silent (by simp [answers])]
    exact h.acknowledged
  case notified =>
    rw [htaken]
    exact h.notified
  case flags =>
    rw [htaken]
    exact h.flags
  case posted =>
    rw [hoffers]
    refine List.forall_mem_append.mpr ⟨h.posted, fun x hx => ?_⟩
    rw [List.mem_singleton.mp hx]
    rintro flags' ⟨⟩
    exact hflags
  case scheduledExit => exact h.scheduledExit
  case mqttThread =>
    rw [hoffers]
    intro hexited
    rcases hmqtt with ⟨-, rfl⟩ | ⟨-, -, rfl⟩
    · exact latest_isSome (h.mqttThread hexited) _
    · exact latest_isSome_of_last (by simp [isExitOf])
  case bdcThread =>
    rw [hoffers]
    intro hexited
    rcases hbdc with rfl | rfl
    · exact latest_isSome (h.bdcThread hexited) _
    · exact latest_isSome_of_last (by simp [isExitOf])
  case instances =>
    rcases hmqtt with ⟨rfl, rfl⟩ | ⟨-, rfl, -⟩
    · exact h.instances
    · exact fun hrunning => absurd rfl hrunning
  case running =>
    intro c hc hrunning
    rcases hmqtt with ⟨rfl, -⟩ | ⟨rfl, -, -⟩
    · obtain ⟨e, version, topic, hlatest, he⟩ := h.running c hc hrunning
      refine ⟨e, version, topic, ?_, he⟩
      rw [hoffers]
      refine latest_kept hlatest fun x hx => ?_
      rw [List.mem_singleton.mp hx]
      rfl
    · rw [eq_of_mem_replicate hc] at hrunning
      cases hrunning

theorem inv_step (h : Inv s) {i : Step} (hstep : step i s = some s') : Inv s' := by
  cases (step_cases hstep).2 with
  | aside hsame => exact inv_aside h hsame
  | answered msg hmsg hs' => exact hs' ▸ inv_answered h hmsg
  | received msg q hq hs' => exact hs' ▸ inv_received h hq
  | mqtt i m hthread hm hs' => exact hs' ▸ inv_mqtt h hthread hm
  | mqttExited hs' =>
    exact hs' ▸ inv_exit h (.inl rfl) (.inr ⟨rfl, rfl, rfl⟩) (.inl rfl)
  | bdcExited hs' =>
    exact hs' ▸ inv_exit h (.inr rfl) (.inl ⟨rfl, rfl⟩) (.inr rfl)

theorem inv_run {connections : Nat} {steps : List Step}
    (hrun : run step steps (initDmExec capacity connections) = some s) : Inv s :=
  run_induction (I := fun _ s => Inv s) (initDmExec_inv connections)
    (fun _ _ _ _ _ h hstep => inv_step h hstep) steps s hrun

/-! ## What the data model thread acts on -/

/-- Of the calls for an instance the last are those for its last handshake. -/
theorem last_call {β : Type} {f : Call → Option β} {inst : Int} {b : β} {taken : List Msg}
    (h : (taken.filter (isHandshakeFor inst)).getLast? = some msg)
    (hother : ∀ msg, isHandshakeFor inst msg = false → (callsOf msg).filterMap f = [])
    (hmsg : (callsOf msg).filterMap f = [b]) :
    ((taken.flatMap callsOf).filterMap f).getLast? = some b := by
  induction taken using List.reverseRecOn with
  | nil => cases h
  | append_singleton taken last ih =>
    rw [filter_append, filter_singleton] at h
    rw [flatMap_append, filterMap_append, flatMap_singleton]
    cases hlast : isHandshakeFor inst last with
    | true =>
      have hsame : last = msg := by simpa [hlast] using h
      rw [hsame, hmsg, getLast?_concat]
    | false =>
      rw [hlast, cond_false, append_nil] at h
      rw [hother last hlast, append_nil]
      exact ih h

theorem applied_of_last (h : Inv s) {inst : Int} {role : Nat} {version : ProtocolVer}
    {topic : Option Str} (hlast : (s.queue.taken.filter (isHandshakeFor inst)).getLast? =
      some (.mqttHandshakeComplete inst role version topic)) : Applied s inst role version topic where
  role := by
    refine last_call hlast ?_ (by simp [callsOf, roleFor, filterMap_cons])
    intro msg hmsg
    cases msg <;> simp_all [callsOf, roleFor, isHandshakeFor]
  connectRecord := by
    refine last_call hlast ?_ (by simp [callsOf, connectRecordFor])
    intro msg hmsg
    cases msg <;> simp_all [callsOf, connectRecordFor, isHandshakeFor]
  notifications :=
    h.notified inst role version topic (mem_of_mem_filter (mem_of_getLast? hlast))

/-- An accepted message that is the latest of its kind waits, or is the last that the data
model thread has taken. -/
theorem waits_or_taken (hlatest : latest p s.queue.offers = some e) (he : e.waiting < capacity) :
    e.msg ∈ s.queue.waiting ∨ (s.queue.taken.filter p).getLast? = some e.msg := by
  have hlast := latest_accepted hlatest he
  rw [s.queue.account] at hlast
  exact last_waits_or_taken hlast

theorem exit_msg (h : latest (isExitOf flags) s.queue.offers = some e) :
    e.msg = .mtpThreadExited flags := of_decide_eq_true (latest_mem h).2

theorem exitPosted (h : Inv s) (hposted : (latest (isExitOf flags) s.queue.offers).isSome) :
    ExitPosted s flags := by
  obtain ⟨e, he⟩ := isSome_iff_exists.mp hposted
  refine ⟨e, he, fun hroom => ?_⟩
  have hmsg := waits_or_taken he hroom
  rw [exit_msg he] at hmsg
  refine hmsg.imp_right fun htaken => ?_
  rw [HasFlags, h.flags]
  exact exitFlags_mem (mem_of_mem_filter (mem_of_getLast? htaken))

/-- The flag of a thread is taken or waits. -/
theorem exit_mem (h : ExitAccepted s flags) :
    .mtpThreadExited flags ∈ s.queue.taken ++ s.queue.waiting := by
  obtain ⟨e, he, hroom⟩ := h
  rw [← exit_msg he, mem_append]
  rcases waits_or_taken he hroom with hwaits | htaken
  · exact .inr hwaits
  · exact .inl (mem_of_mem_filter (mem_of_getLast? htaken))

/-- The scheduled exit is handled when both flags have been taken. -/
theorem scheduledExit_of_taken (h : Inv s)
    (hmqtt : .mtpThreadExited mqttExited ∈ s.queue.taken)
    (hbdc : .mtpThreadExited bdcExited ∈ s.queue.taken) : s.scheduledExit := by
  have hboth : exitFlags s.queue.taken ||| allMtpExited = exitFlags s.queue.taken := by
    rw [allMtpExited, ← Nat.or_assoc, exitFlags_mem hmqtt, exitFlags_mem hbdc]
  have hbound : exitFlags s.queue.taken ||| allMtpExited = allMtpExited := by
    refine exitFlags_bound fun msg hmsg => ?_
    have haccepted : msg ∈ accepted capacity s.queue.offers := by
      rw [s.queue.account]
      exact mem_append_left _ hmsg
    obtain ⟨e, he, rfl⟩ := List.mem_map.mp haccepted
    exact h.posted e (mem_of_mem_filter he)
  rw [h.scheduledExit, h.flags]
  exact decide_eq_true (hboth.symm.trans hbound)

theorem exit_reached (h : Inv s)
    (hmqtt : .mtpThreadExited mqttExited ∈ s.queue.taken ++ s.queue.waiting)
    (hbdc : .mtpThreadExited bdcExited ∈ s.queue.taken ++ s.queue.waiting) :
    ∃ n ≤ s.queue.waiting.length, ∃ s', run step (List.replicate n .receive) s = some s' ∧
      s'.scheduledExit := by
  generalize hlength : s.queue.waiting.length = length
  induction length generalizing s with
  | zero =>
    rw [List.length_eq_zero_iff.mp hlength, append_nil] at hmqtt hbdc
    exact ⟨0, le_rfl, s, rfl, scheduledExit_of_taken h hmqtt hbdc⟩
  | succ length ih =>
    cases hends : s.scheduledExit with
    | true => exact ⟨0, Nat.zero_le _, s, rfl, hends⟩
    | false =>
      cases htake : s.queue.take with
      | none =>
        rw [(Queue.take_eq_none _).mp htake] at hlength
        cases hlength
      | some res =>
        obtain ⟨msg, q⟩ := res
        obtain ⟨hwaiting, htaken, -⟩ := Queue.take_eq_some htake
        have hqueue := (processMessage_same { s with queue := q } msg).1
        have hsame : s.queue.taken ++ s.queue.waiting = q.taken ++ q.waiting := by
          rw [hwaiting, htaken, append_assoc, singleton_append]
        have hstep : step .receive s = some (processMessage { s with queue := q } msg) := by
          simp [step, hends, receive, htake]
        obtain ⟨n, hn, s', hrun, hexit⟩ := ih (inv_received h htake)
          (by rwa [hqueue, ← hsame]) (by rwa [hqueue, ← hsame])
          (by rw [hqueue, ← Nat.add_right_cancel_iff, ← hlength, hwaiting, length_cons])
        refine ⟨n + 1, Nat.succ_le_succ hn, s', ?_, hexit⟩
        rw [replicate_succ, run_cons, hstep]
        exact hrun

theorem delivers (h : Inv s) : Delivers s where
  account := s.queue.account
  acknowledged := by rw [h.acknowledged, s.queue.account]
  running := by
    intro c hc hrunning
    obtain ⟨e, version, topic, hlatest, he⟩ := h.running c hc hrunning
    refine ⟨e, version, topic, hlatest, he, fun hroom => ?_⟩
    have hmsg := waits_or_taken hlatest hroom
    rw [he] at hmsg
    exact hmsg.imp_right (applied_of_last h)
  mqttThread := fun hexited => exitPosted h (h.mqttThread hexited)
  bdcThread := fun hexited => exitPosted h (h.bdcThread hexited)
  scheduledExit := fun hmqtt hbdc => exit_reached h (exit_mem hmqtt) (exit_mem hbdc)

end Step

/-- The steps of the MQTT clients until the first of them is running. -/
def comesUp : List Step :=
  .mqtt (.enableClient MqttThread.smooth (MqttThread.brokerParams .tcpip)
    MqttThread.unusedSubscriptions) :: (MqttThread.connectPass none).map .mqtt

/-- The message of a client is applied, and both threads exit as scheduled. -/
def orderly : List Step :=
  comesUp ++ [.receive, .scheduleExit, .activateExit, .mqttExit, .bdcScheduleExit, .bdcExit]

/-- A signal fills the queue before a client comes up and the bulk data thread exits. -/
def burst : List Step :=
  .signal (.objectAdded false (some ['D'])) :: comesUp ++ [.bdcScheduleExit, .bdcExit]

end DmExecDelivery
