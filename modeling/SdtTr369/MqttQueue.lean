import SdtTr369.MqttRequestSlot
import SdtTr369.QueueAccounts

/-!
# The send queue of an MQTT client

Over every run of the two threads, a record that was queued is handed over once and in
its turn, or waits, or was superseded by a newer connect record, or purged with its
client. On a new connection the connect record goes first as long as nothing is sent
before it is queued.
-/

namespace MqttQueue

open MqttClient MqttCallbacks MqttThread MqttMoves MqttFlags MqttRequestSlot QueueAccounts
  RunHistory List

/-! ## What the log tells about records -/

inductive Fate where
  | queued
  | published
  | superseded
  | purged
  deriving DecidableEq

def fate : Event → Option (Fate × SendItem)
  | .queued item => some (.queued, item)
  | .publish item _ => some (.published, item)
  | .superseded item => some (.superseded, item)
  | .purged item => some (.purged, item)
  | _ => none

/-- The records of which the log tells one fate, in order. -/
def records (f : Fate) (log : List Event) : List SendItem :=
  log.filterMap fun e => (fate e).bind fun x => if x.1 = f then some x.2 else none

variable (f : Fate) (log : List Event) {es : List Event} {c c' : Client} {e : Event}
  {item : SendItem} {op : SlotOp} {m : Mqtt}

@[simp] theorem records_append (es : List Event) :
    records f (log ++ es) = records f log ++ records f es := filterMap_append

theorem records_silent (hes : ∀ e ∈ es, fate e = none) (f : Fate) : records f es = [] := by
  rw [records, filterMap_eq_nil_iff]
  intro e he
  simp [hes e he]

variable (items : List SendItem) {steps : List Step}

theorem records_superseded :
    records f (items.map .superseded) = if f = .superseded then items else [] := by
  split
  · next h => simp [records, h, fate, filterMap_map]
  · next h => simp [records, fate, Ne.symm h]

theorem records_purged : records f (items.map .purged) = if f = .purged then items else [] := by
  split
  · next h => simp [records, h, fate, filterMap_map]
  · next h => simp [records, fate, Ne.symm h]

/-- A connect record is queued in front of all others. -/
def inOrder (item : SendItem) : Bool := item.contentType ≠ .connectRecord

/-- The records queued are accounted for. -/
def Accounted (c : Client) : Prop :=
  Accounts inOrder (records .queued c.log) (records .published c.log)
    (records .superseded c.log ++ records .purged c.log) c.queue

theorem accounted_silent (h : Accounted c) (hqueue : c'.queue = c.queue)
    (hlog : c'.log = c.log ++ es) (hes : ∀ e ∈ es, fate e = none) : Accounted c' := by
  unfold Accounted
  simp only [hqueue, hlog, records_append, records_silent hes, append_nil]
  exact h

theorem fate_plain (he : Plain e) : fate e = none := by
  cases e <;> first | rfl | cases he

theorem fate_passes {role : Nat} (he : Passes role e) : fate e = none := by
  cases e <;> first | rfl | cases he

theorem accounted_clean (h : Accounted c) (isReconnect : Bool) :
    Accounted (cleanMqttClient isReconnect c) := by
  cases isReconnect with
  | true => exact accounted_silent h rfl rfl (by simp [fate])
  | false =>
    have hlog := cleanMqttClient_log false c
    have hqueue : (cleanMqttClient false c).queue = [] := rfl
    unfold Accounted
    rw [hqueue, hlog]
    have hcleaned : ∀ f, records f (.cleaned false :: c.queue.map .purged) =
        records f (c.queue.map .purged) := fun _ => rfl
    simp only [Bool.false_eq_true, if_false, records_append, hcleaned, records_purged]
    simpa using h.clear

theorem accounted_queueConnect (h : Accounted c) (hitem : item.contentType = .connectRecord) :
    Accounted (queueUspConnectRecord item c) := by
  have hfront : inOrder item = false := by simp [inOrder, hitem]
  have hlog := queueUspConnectRecord_log item c
  unfold Accounted
  rw [hlog]
  have hitem' : ∀ f, records f [.queued item] = if f = .queued then [item] else [] := by
    intro f
    cases f <;> rfl
  simp only [records_append, records_superseded, hitem', reduceCtorEq, if_true, if_false,
    nil_append, append_nil]
  have hdropped := (h.drop (isUspConnectOrDisconnectRecord ·.contentType)).pushFront hfront
  apply hdropped.congr
  rw [append_assoc, append_assoc]
  exact List.perm_append_comm.append_left _

theorem accounted_queueTail (h : Accounted c) (item : SendItem) :
    Accounted { c.emit (.queued item) with queue := c.queue ++ [item] } := by
  have hback := h.pushBack item
  simpa [Accounted, Client.emit, records, fate] using hback

theorem accounted_sent (h : Accounted c) {rest : List SendItem} (hqueue : c.queue = item :: rest)
    (mid : Int) : Accounted (sent item rest mid c) := by
  unfold Accounted at h
  rw [hqueue] at h
  simpa [Accounted, sent, Client.emit, records, fate] using h.pop

/-! ## Why a record was dropped -/

/-- A record that was superseded is a connect or disconnect record, and a newer connect
record was queued at once. -/
def Superseded (log : List Event) : Prop :=
  ∀ before item after, log = before ++ .superseded item :: after →
    isUspConnectOrDisconnectRecord item.contentType ∧
      ∃ (others : List SendItem) (newer : SendItem) (rest : List Event),
        after = others.map .superseded ++ .queued newer :: rest ∧
        newer.contentType = .connectRecord

/-- A record is purged when its client is cleaned for good. -/
def PurgedWhenCleaned (before : List Event) (e : Event) : Prop :=
  ∀ item, e = .purged item → ∃ (b : List Event) (others : List SendItem),
    before = b ++ .cleaned false :: others.map .purged

/-- A client is cleaned for good after a disable. -/
def CleanedWhenDisabled (before : List Event) (e : Event) : Prop :=
  e = .cleaned false → (ledger before).last = some false

theorem orderly_iff : (ledger log).orderly ↔ Along CleanedWhenDisabled log := by
  induction log using List.reverseRecOn with
  | nil => simp [ledger]
  | append_singleton log e ih =>
    rw [along_snoc, ← ih, ledger_append, foldl_cons, foldl_nil]
    cases e
    case cleaned isReconnect => cases isReconnect <;> simp [Ledger.after, CleanedWhenDisabled]
    all_goals simp [Ledger.after, CleanedWhenDisabled]

theorem Superseded.append {log : List Event} (h : Superseded log) (hes : Superseded es) :
    Superseded (log ++ es) := by
  intro before item after hsplit
  rcases List.append_eq_append_iff.mp hsplit with ⟨middle, rfl, hmiddle⟩ | ⟨middle, hlog, hmiddle⟩
  · exact hes middle item after hmiddle
  · cases middle with
    | nil => exact hes [] item after hmiddle.symm
    | cons e middle =>
      rw [cons_append] at hmiddle
      obtain ⟨rfl, rfl⟩ := List.cons.inj hmiddle
      obtain ⟨hitem, others, newer, rest, rfl, hnewer⟩ := h before item middle hlog
      exact ⟨hitem, others, newer, rest ++ es, by simp, hnewer⟩

theorem superseded_silent (hes : ∀ e ∈ es, ∀ item, e ≠ .superseded item) : Superseded es := by
  rintro before item after rfl
  exact absurd rfl (hes (.superseded item) (by simp) item)

theorem superseded_queueConnect {items : List SendItem} {newer : SendItem}
    (hitems : ∀ item ∈ items, isUspConnectOrDisconnectRecord item.contentType)
    (hnewer : newer.contentType = .connectRecord) :
    Superseded (items.map .superseded ++ [.queued newer]) := by
  induction items with
  | nil => exact superseded_silent (by simp)
  | cons first items ih =>
    intro before item after hsplit
    cases before with
    | nil =>
      obtain ⟨hfirst, rfl⟩ := List.cons.inj hsplit
      cases hfirst
      exact ⟨hitems first (by simp), items, newer, [], rfl, hnewer⟩
    | cons e before =>
      obtain ⟨-, hsplit⟩ := List.cons.inj hsplit
      exact ih (fun item' hitem' => hitems item' (mem_cons_of_mem _ hitem')) before item after hsplit

theorem purged_clean {log : List Event} (h : Along PurgedWhenCleaned log) (queue : List SendItem) :
    Along PurgedWhenCleaned (log ++ .cleaned false :: queue.map .purged) := by
  induction queue using List.reverseRecOn with
  | nil =>
    rw [map_nil, along_snoc]
    exact ⟨h, by simp [PurgedWhenCleaned]⟩
  | append_singleton queue item ih =>
    rw [map_append, ← cons_append, ← append_assoc]
    refine along_snoc.mpr ⟨ih, ?_⟩
    rintro _ ⟨⟩
    exact ⟨log, queue, rfl⟩

/-- What the log of a slot says about its queue. -/
structure QueueOk (c : Client) : Prop where
  accounted : Accounted c
  superseded : Superseded c.log
  purged : Along PurgedWhenCleaned c.log

theorem QueueOk.silent (h : QueueOk c) (haccounted : Accounted c') (hlog : c'.log = c.log ++ es)
    (hes : ∀ e ∈ es, ∀ item, e ≠ .superseded item ∧ e ≠ .purged item) : QueueOk c' where
  accounted := haccounted
  superseded := by
    rw [hlog]
    exact h.superseded.append (superseded_silent fun e he item => (hes e he item).1)
  purged := by
    rw [hlog]
    exact h.purged.append fun e he _ item hpurged => absurd hpurged (hes e he item).2

theorem not_dropped (he : fate e = none) (item : SendItem) :
    e ≠ .superseded item ∧ e ≠ .purged item := by
  constructor <;> rintro rfl <;> cases he

theorem QueueOk.keep (h : QueueOk c) (hqueue : c'.queue = c.queue) (hlog : c'.log = c.log ++ es)
    (hes : ∀ e ∈ es, fate e = none) : QueueOk c' :=
  h.silent (accounted_silent h.accounted hqueue hlog hes) hlog fun e he => not_dropped (hes e he)

theorem QueueOk.move (h : QueueOk c) (hmove : Move c c') : QueueOk c' := by
  cases hmove with
  | keep core log plain => exact h.keep core.queue log fun e he => fate_plain (plain e he)
  | enter _ queue _ _ log => exact h.keep queue (log.trans (append_nil _).symm) (by simp)
  | clean isReconnect =>
    have hlog := cleanMqttClient_log isReconnect c
    cases isReconnect with
    | true => exact h.keep rfl hlog (by simp [fate])
    | false =>
      refine ⟨accounted_clean h.accounted false, ?_, ?_⟩
      · rw [hlog]
        exact h.superseded.append (superseded_silent (by simp))
      · rw [hlog]
        exact purged_clean h.purged c.queue
  | newContext _ queue _ _ log | connack _ queue _ _ log => exact h.keep queue log (by simp [fate])
  | certVerify chain => exact h.keep rfl rfl (by simp [fate])
  | pass he => exact h.keep rfl rfl (by simpa using fate_passes he)
  | queueConnect item hitem =>
    have hlog := queueUspConnectRecord_log item c
    refine ⟨accounted_queueConnect h.accounted hitem, ?_, ?_⟩
    · rw [hlog]
      refine h.superseded.append (superseded_queueConnect ?_ hitem)
      exact fun record hrecord => (List.mem_filter.mp hrecord).2
    · rw [hlog]
      refine h.purged.append ?_
      rintro _ hpurged before record rfl
      simp at hpurged
  | queueTail item => exact h.silent (accounted_queueTail h.accounted item) rfl (by simp)

theorem QueueOk.apply (h : QueueOk c) (happly : op.apply c = some c') : QueueOk c' := by
  rcases apply_cases happly with hsends | hconnects | hmoves
  · obtain ⟨_, item, rest, mid, -, hqueue, -, rfl⟩ := hsends.sent
    exact h.silent (accounted_sent h.accounted hqueue mid) rfl (by simp)
  · obtain ⟨_, -, rfl⟩ := hconnects.connects
    exact h.keep rfl rfl (by simp [fate])
  · exact moves_keep (fun _ _ hok hmove => hok.move hmove) hmoves h

/-! ## The connect record goes first -/

/-- How far a connection is: its CONNACK has come, its connect record has been queued,
or a record has been handed over. -/
inductive Phase where
  | connected
  | greeting
  | sending
  deriving DecidableEq

def Phase.after (p : Phase) : Event → Phase
  | .connack _ => .connected
  | .queued item => if item.contentType = .connectRecord ∧ p = .connected then .greeting else p
  | .publish _ _ => .sending
  | _ => p

def phase (log : List Event) : Phase := log.foldl Phase.after .sending

@[simp] theorem phase_append (es : List Event) :
    phase (log ++ es) = es.foldl Phase.after (phase log) := foldl_append ..

/-- The first record on a connection is a connect record. -/
def ConnectFirst (before : List Event) (e : Event) : Prop :=
  ∀ item mid, e = .publish item mid → phase before ≠ .sending → item.contentType = .connectRecord

/-- Until the connect record is queued, a send step takes none but an earlier connect
record. -/
def WaitsForConnect (c : Client) (op : SlotOp) : Prop :=
  ∀ A, op = .updateSockSet A → c.state = .running → phase c.log = .connected →
    ∀ item ∈ c.queue.head?, (publish A item c).join = none ∨ item.contentType = .connectRecord

/-- A connect record that was queued on the connection waits at the head of the queue. -/
def GreetingOk (c : Client) : Prop :=
  phase c.log = .greeting → c.state = .running →
    ∃ item ∈ c.queue.head?, item.contentType = .connectRecord

theorem phase_silent {log : List Event} (hes : ∀ e ∈ es, ∀ p, Phase.after p e = p) :
    phase (log ++ es) = phase log := by
  rw [phase_append]
  induction es with
  | nil => rfl
  | cons e es ih =>
    rw [foldl_cons, hes e (by simp)]
    exact ih fun e' he' => hes e' (mem_cons_of_mem _ he')

theorem GreetingOk.keep (h : GreetingOk c) (hstate : c'.state = .running → c.state = .running)
    (hqueue : c'.queue = c.queue) (hlog : c'.log = c.log ++ es)
    (hes : ∀ e ∈ es, ∀ p, Phase.after p e = p) : GreetingOk c' := by
  intro hphase hrunning
  rw [hlog, phase_silent hes] at hphase
  rw [hqueue]
  exact h hphase (hstate hrunning)

theorem GreetingOk.move (h : GreetingOk c) (hmove : Move c c') : GreetingOk c' := by
  cases hmove with
  | keep core log plain =>
    refine h.keep (fun hrunning => core.state ▸ hrunning) core.queue log fun e he p => ?_
    have hplain := plain e he
    cases e <;> first | rfl | cases hplain
  | enter state => exact fun _ hrunning => absurd hrunning state
  | clean isReconnect =>
    intro _ hrunning
    cases isReconnect <;> cases hrunning
  | newContext state queue _ _ log =>
    refine h.keep (fun hrunning => ?_) queue log (by simp [Phase.after])
    rcases state with hsame | hsending
    · exact hsame ▸ hrunning
    · rw [hsending] at hrunning
      cases hrunning
  | connack _ _ _ _ log =>
    intro hphase
    rw [log, phase_append] at hphase
    cases hphase
  | certVerify chain => exact h.keep id rfl rfl (by simp [Phase.after])
  | @pass e he =>
    refine h.keep id rfl rfl fun e' he' p => ?_
    cases List.mem_singleton.mp he'
    cases e <;> first | rfl | cases he
  | queueConnect item hitem => exact fun _ _ => ⟨item, rfl, hitem⟩
  | queueTail item hitem =>
    intro hphase hrunning
    have hlog : phase (c.log ++ [.queued item]) = phase c.log :=
      phase_silent (by simp [Phase.after, hitem])
    obtain ⟨first, hfirst, hconnect⟩ := h (hlog ▸ hphase) hrunning
    exact ⟨first, by simp [Option.mem_def.mp hfirst], hconnect⟩

theorem GreetingOk.apply (h : GreetingOk c) (happly : op.apply c = some c') : GreetingOk c' := by
  rcases apply_cases happly with hsends | hconnects | hmoves
  · obtain ⟨_, item, rest, mid, -, -, -, rfl⟩ := hsends.sent
    intro hphase
    simp [sent, Client.emit, Phase.after] at hphase
  · obtain ⟨_, -, rfl⟩ := hconnects.connects
    exact h.keep id rfl rfl (by simp [Phase.after])
  · exact moves_keep (fun _ _ hok hmove => hok.move hmove) hmoves h

/-- A send step that finds a record which libmosquitto takes. -/
theorem sendStep_sent {A : Answers} {mid : Int} (h : updateSockSet A c = some c')
    (hrunning : c.state = .running) (hitem : item ∈ c.queue.head?)
    (hpublish : (publish A item c).join = some mid) : c'.log = c.log ++ [.publish item mid] := by
  obtain ⟨rest, hqueue⟩ := List.head?_eq_some_iff.mp hitem
  unfold updateSockSet sendStep at h
  rw [hrunning, hqueue] at h
  dsimp only at h
  rw [Option.join_eq_some_iff.mp hpublish] at h
  cases h
  rfl

/-- An operation sends the connect record first just where it waits for it. -/
theorem connectFirst_apply (h : GreetingOk c) (happly : op.apply c = some c') :
    Along ConnectFirst c'.log ↔ Along ConnectFirst c.log ∧ WaitsForConnect c op := by
  have hsilent : ∀ es, c'.log = c.log ++ es → (∀ e ∈ es, ¬ IsPublish e) →
      (Along ConnectFirst c'.log ↔ Along ConnectFirst c.log) := by
    intro es hlog hes
    rw [hlog]
    constructor
    · intro hall before e after hsplit
      exact hall before e (after ++ es) (by simp [hsplit])
    · refine fun hall => hall.append ?_
      rintro _ he before item mid rfl
      exact absurd trivial (hes _ he)
  rcases apply_cases happly with hsends | hconnects | hmoves
  · obtain ⟨A, item, rest, mid, rfl, hqueue, hpublish, rfl⟩ := hsends.sent
    have hlog : (sent item rest mid c).log = c.log ++ [.publish item mid] := rfl
    rw [hlog, along_snoc]
    refine and_congr_right fun _ => ?_
    constructor
    · rintro hfirst A' hA' hrunning hphase record hrecord
      rw [hqueue] at hrecord
      cases hrecord
      exact .inr (hfirst item mid rfl (by simp [hphase]))
    · rintro hwaits _ _ ⟨⟩ hphase
      cases hp : phase c.log with
      | sending => exact absurd hp hphase
      | connected =>
        have hwait := hwaits A rfl hsends.running hp item (by simp [hqueue])
        simpa [hpublish] using hwait
      | greeting =>
        obtain ⟨first, hfirst, hconnect⟩ := h hp hsends.running
        rw [hqueue] at hfirst
        cases hfirst
        exact hconnect
  · obtain ⟨_, rfl, rfl⟩ := hconnects.connects
    rw [hsilent _ rfl (by simp [IsPublish])]
    refine (and_iff_left ?_).symm
    rintro A ⟨⟩
  · obtain ⟨es, hlog, hes⟩ := moves_log hmoves
    rw [hsilent es hlog hes]
    refine (and_iff_left ?_).symm
    rintro A rfl hrunning - item hitem
    cases hpublish : (publish A item c).join with
    | none => exact .inl rfl
    | some mid =>
      rw [sendStep_sent happly hrunning hitem hpublish] at hlog
      obtain rfl := append_cancel_left hlog
      exact absurd trivial (hes (.publish item mid) (by simp))

/-! ## A run -/

/-- A record that `MQTT_QueueBinaryMessage` accepts is queued, unless it is there. -/
def QueuesAccepted (c : Client) (op : SlotOp) : Prop :=
  ∀ contentType pbuf topic, op = .queueBinaryMessage contentType pbuf topic →
    (queueBinaryMessage contentType pbuf topic c).1 → isUspRecordInMqttQueue pbuf c = false →
      ∃ item, item.contentType = contentType ∧ item.pbuf = pbuf ∧
        .queued item ∈ (queueBinaryMessage contentType pbuf topic c).2.log.getLast?

theorem queuesAccepted (c : Client) (op : SlotOp) : QueuesAccepted c op := by
  rintro contentType pbuf topic rfl
  dsimp only [queueBinaryMessage]
  split
  · exact fun _ _ => ⟨⟨contentType, pbuf, topic, c.connParams.publishQos⟩, rfl, rfl,
      by simp [queueUspConnectRecord]⟩
  split
  · next hthere =>
    intro _ hnot
    rw [hthere] at hnot
    cases hnot
  split
  · intro haccepted
    cases haccepted
  · exact fun _ _ => ⟨⟨contentType, pbuf, topic.or c.connParams.topic, c.connParams.publishQos⟩,
      rfl, rfl, by simp [Client.emit]⟩

/-- What holds of the queue of a slot, with its history. -/
structure RecordsKept (c : Client) : Prop extends QueueOk c where
  cleaned : Along CleanedWhenDisabled c.log

/-- No record is lost or sent twice, and the connect record goes first. -/
structure QueuesKept (steps : List Step) (m : Mqtt) : Prop where
  accepted : RunMeets step (OnSlots QueuesAccepted) steps initMqtt
  kept : ∀ c ∈ m.clients, RecordsKept c
  connectFirst : ∀ c ∈ m.clients, Along ConnectFirst c.log

theorem recordsKept_run (hrun : run step steps initMqtt = some m) :
    ∀ c ∈ m.clients, RecordsKept c ∧ GreetingOk c := by
  have hmeets : RunMeets step (OnSlots fun _ _ => True) steps initMqtt :=
    runMeets_of_forall fun _ _ _ _ _ _ _ => trivial
  have hkeeps := slots_keep (I := fun c => QueueOk c ∧ CloseOk (view c) ∧ GreetingOk c)
    (fun c op c' h _ happly => ⟨h.1.apply happly, closeOk_apply h.2.1 happly, h.2.2.apply happly⟩)
    ?_ hmeets hrun
  · intro c hc
    obtain ⟨hqueue, hclose, hgreeting⟩ := hkeeps c hc
    exact ⟨⟨hqueue, (orderly_iff c.log).mp hclose.orderly⟩, hgreeting⟩
  · intro c hc
    rw [mem_initMqtt hc]
    refine ⟨⟨Accounts.nil, superseded_silent (by simp [initClient]), along_nil _⟩, ?_, ?_⟩
    · exact ⟨fun hstate => (by cases hstate), fun hclose => absurd rfl hclose, rfl⟩
    · exact fun hphase => by cases hphase

theorem connectFirst_step {m' : Mqtt} {i : Step} (h : ∀ c ∈ m.clients, GreetingOk c)
    (hstep : step i m = some m') :
    (∀ c ∈ m'.clients, Along ConnectFirst c.log) ↔
      (∀ c ∈ m.clients, Along ConnectFirst c.log) ∧ OnSlots WaitsForConnect m i := by
  constructor
  · intro hall
    have hslot : ∀ k c, m.clients[k]? = some c → Along ConnectFirst c.log ∧
        ∀ op, (k, op) ∈ acts m i → WaitsForConnect c op := by
      intro k c hc
      rcases slot_in_step hstep hc with ⟨hsame, hnot⟩ | ⟨c', op, hc', hop, happly⟩
      · refine ⟨hall c (mem_of_getElem? hsame), fun op hop => ?_⟩
        exact absurd (List.mem_map.mpr ⟨_, hop, rfl⟩) hnot
      · have hgreeting := h c (mem_of_getElem? hc)
        have hboth := (connectFirst_apply hgreeting happly).mp (hall c' (mem_of_getElem? hc'))
        refine ⟨hboth.1, fun op' hop' => ?_⟩
        cases (slotOp_of_acts hop).symm.trans (slotOp_of_acts hop')
        exact hboth.2
    refine ⟨fun c hc => ?_, fun k op c hop hc => (hslot k c hc).2 op hop⟩
    obtain ⟨k, hk⟩ := mem_iff_getElem?.mp hc
    exact (hslot k c hk).1
  · rintro ⟨hall, hwaits⟩ c' hc'
    obtain ⟨k, hk⟩ := mem_iff_getElem?.mp hc'
    rcases slot_of_step hstep hk with ⟨hsame, -⟩ | ⟨c, op, hc, hop, happly⟩
    · exact hall c' (mem_of_getElem? hsame)
    · have hc'' := mem_of_getElem? hc
      exact (connectFirst_apply (h c hc'') happly).mpr ⟨hall c hc'', hwaits k op c hop hc⟩

theorem connectFirst_run (hrun : run step steps initMqtt = some m) :
    (∀ c ∈ m.clients, Along ConnectFirst c.log) ↔
      RunMeets step (OnSlots WaitsForConnect) steps initMqtt := by
  refine run_induction (I := fun steps m => (∀ c ∈ m.clients, Along ConnectFirst c.log) ↔
    RunMeets step (OnSlots WaitsForConnect) steps initMqtt) ?_ ?_ steps m hrun
  · refine iff_of_true (fun c hc => ?_) trivial
    rw [mem_initMqtt hc]
    exact along_nil _
  · intro steps m i m' hrun ih hstep
    rw [runMeets_snoc hrun, ← ih]
    exact connectFirst_step (fun c hc => (recordsKept_run hrun c hc).2) hstep

/-- In every run, the records are kept as they should be just where no send step comes
before the connect record of its connection is queued. -/
theorem queues_kept_iff {steps : List Step} {m : Mqtt} (hrun : run step steps initMqtt = some m) :
    QueuesKept steps m ↔ RunMeets step (OnSlots WaitsForConnect) steps initMqtt := by
  rw [← connectFirst_run hrun]
  constructor
  · exact fun h => h.connectFirst
  · intro hfirst
    refine ⟨runMeets_of_forall fun m i _ op c _ _ => queuesAccepted c op, ?_, hfirst⟩
    exact fun c hc => (recordsKept_run hrun c hc).1

/-- A record waits while the client connects, and is sent before the connect record is
queued. -/
def sentBeforeConnect : List Step :=
  [.enableClient smooth (brokerParams .tcpip) unusedSubscriptions,
    .queueBinaryMessage 1 .uspMessage [2] none] ++ connectPass none ++ updatePass

theorem queues_kept_iff_sentBeforeConnect :
    ∃ m, run step sentBeforeConnect initMqtt = some m ∧ (QueuesKept sentBeforeConnect m ↔
      RunMeets step (OnSlots WaitsForConnect) sentBeforeConnect initMqtt) := by
  have hsome : (run step sentBeforeConnect initMqtt).isSome := by decide
  obtain ⟨m, hm⟩ := Option.isSome_iff_exists.mp hsome
  exact ⟨m, hm, queues_kept_iff hm⟩

/-- A record is handed over that is no connect record. -/
def sendsOther : Event → Bool
  | .publish item _ => item.contentType ≠ .connectRecord
  | _ => false

/-- The first record on the connection is not a connect record. -/
theorem record_before_connect_record :
    ¬ ∀ steps m, run step steps initMqtt = some m → QueuesKept steps m := by
  intro h
  have hlast : ((run step sentBeforeConnect initMqtt).bind (·.clients.head?)).any (fun c =>
      c.log.getLast?.any fun e => sendsOther e ∧ phase c.log.dropLast = .connected) := by
    decide
  obtain ⟨c, hc, hlast⟩ := (Option.any_eq_true ..).mp hlast
  obtain ⟨e, he, hlast⟩ := (Option.any_eq_true ..).mp hlast
  obtain ⟨m, hm, hc⟩ := Option.bind_eq_some_iff.mp hc
  obtain ⟨hother, hphase⟩ := of_decide_eq_true hlast
  have hfirst : ConnectFirst c.log.dropLast e :=
    ((h _ m hm).connectFirst c (mem_of_mem_head? hc)).last he
  cases e
  case publish item mid =>
    exact of_decide_eq_true hother (hfirst item mid rfl (by simp [hphase]))
  all_goals cases hother

end MqttQueue
