import SdtTr369.AgentMtps

/-!
# The slots hold the rows

Within a commit the slots follow the operations one after the other, except that a
reference is cached as the rows hold it at the end. What each notification leaves is
compared with the rows as the operations so far made them, and after the last one these
are the rows. What an enabled client was handed last is what the slots give, unless a
notification schedules the reconnect before it changes the slot it is about.
-/

namespace AgentMtps

open UspTypes SlotTable Option
open ControllerTable (MtpProtocol Reference)

/-- What the slot caches is what the row holds; the reference may be the one of the rows `F`. -/
structure Caches (F : Nat → Option Row) (clients : Nat → Option Bool) (i : Nat) (row : Row)
    (mtp : AgentMtp) : Prop where
  enable : mtp.enable = row.enable
  protocol : row.protocol = some mtp.protocol
  reference : getMqttReference clients row.reference = some mtp.mqttConnectionInstance ∨
    ∃ final, F i = some final ∧
      getMqttReference clients final.reference = some mtp.mqttConnectionInstance
  responseTopic : mtp.mqttAgentTopic = row.responseTopic
  publishQos : mtp.mqttPublishQos = row.publishQos

/-- Every enabled client was handed last what the slots give for it. -/
def HandedRight (s : State) : Prop :=
  ∀ c, s.clients c = some true → s.handed c = computed s.slots c

/-- The slots hold the rows `R`, each once, up to the references of `F`. -/
structure Holds (F R : Nat → Option Row) (s : State) : Prop where
  running : s.stopped = false
  length : s.slots.length = maxAgentMtps
  nodup : (keys AgentMtp.inst s.slots).Nodup
  unused : ∀ i, R i = none → findAgentMtpByInstance i s.slots = none
  cached : ∀ i row, R i = some row →
    ∃ mtp, findAgentMtpByInstance i s.slots = some mtp ∧ Caches F s.clients i row mtp
  handed : HandedRight s

section Computed

variable {s : State} {slots slots' : Slots} {i c : Nat} {mtp mtp' : AgentMtp} {new : Option AgentMtp}

theorem serves_iff : serves c mtp ↔
    mtp.enable = true ∧ mtp.mqttConnectionInstance = some c ∧ mtp.protocol = .mqtt := by
  simp [serves, and_assoc]

/-- Slots that do not serve a client may change without what is computed for it changing. -/
theorem computed_replace (hfind : findAgentMtpByInstance i slots = some mtp)
    (hold : serves c mtp = false) (hnew : ∀ m, new = some m → serves c m = false) :
    computed (replace AgentMtp.inst i new slots) c = computed slots c := by
  have hnone : ∀ {β : Type} (f : AgentMtp → Option β), (∀ m, serves c m = false → f m = none) →
      first f (replace AgentMtp.inst i new slots) = first f slots := by
    intro β f hf
    apply first_replace hfind (hf mtp hold)
    cases new with
    | none => rfl
    | some m => exact hf m (hnew m rfl)
  rw [computed, computed, getAgentMqttResponseTopic, getAgentMqttPublishQos,
    hnone _ (by simp +contextual), hnone _ (by simp +contextual)]
  rfl

theorem computed_put (hput : put mtp slots = some slots') (hnew : serves c mtp = false) :
    computed slots' c = computed slots c := by
  rw [computed, computed, getAgentMqttResponseTopic, getAgentMqttPublishQos,
    first_put hput (by simp [hnew]), first_put hput (by simp [hnew])]
  rfl

theorem replace_self (hfind : findAgentMtpByInstance i slots = some mtp) :
    replace AgentMtp.inst i (some mtp) slots = slots := by
  induction slots with
  | nil => rfl
  | cons o slots ih =>
    cases o with
    | none => rw [replace, ih hfind]
    | some m =>
      rw [findAgentMtpByInstance, find_used] at hfind
      rw [replace]
      split
      · rename_i hm
        rw [if_pos hm] at hfind
        rw [hfind]
      · rename_i hm
        rw [if_neg hm] at hfind
        rw [ih hfind]

variable (client : Option Nat)

@[simp] theorem scheduleReconnect_slots (s : State) :
    (scheduleReconnect client s).slots = s.slots := by
  cases client with
  | none => rfl
  | some c =>
    rw [scheduleReconnect]
    split <;> rfl

@[simp] theorem scheduleReconnect_clients (s : State) :
    (scheduleReconnect client s).clients = s.clients := by
  cases client with
  | none => rfl
  | some c =>
    rw [scheduleReconnect]
    split <;> rfl

@[simp] theorem scheduleReconnect_rows (s : State) :
    (scheduleReconnect client s).rows = s.rows := by
  cases client with
  | none => rfl
  | some c =>
    rw [scheduleReconnect]
    split <;> rfl

@[simp] theorem scheduleReconnect_stopped (s : State) :
    (scheduleReconnect client s).stopped = s.stopped := by
  cases client with
  | none => rfl
  | some c =>
    rw [scheduleReconnect]
    split <;> rfl

/-- A reconnect hands over what the slots give, to its client alone. -/
theorem scheduleReconnect_handed {client : Option Nat} (hc : s.clients c = some true) :
    (scheduleReconnect client s).handed c =
      if client = some c then computed s.slots c else s.handed c := by
  cases client with
  | none => simp [scheduleReconnect]
  | some d =>
    by_cases hd : d = c
    · subst hd
      simp [scheduleReconnect, hc]
    · have hd' : c ≠ d := Ne.symm hd
      rw [scheduleReconnect]
      split <;> simp [hd, hd']

/-- Once its reconnect is scheduled, only the other clients are in question. -/
theorem handedRight_schedule {client : Option Nat}
    (h : ∀ c, client ≠ some c → s.clients c = some true → s.handed c = computed s.slots c) :
    HandedRight (scheduleReconnect client s) := by
  intro c hc
  rw [scheduleReconnect_clients] at hc
  rw [scheduleReconnect_handed hc, scheduleReconnect_slots]
  split
  · rfl
  · rename_i hne
    exact h c hne hc

end Computed

section Changes

variable {F R : Nat → Option Row} {s : State} {i : Nat} {mtp mtp' : AgentMtp} {row : Row}

@[simp] theorem setMtp_clients (i : Nat) (mtp : Option AgentMtp) (s : State) :
    (setMtp i mtp s).clients = s.clients := rfl

@[simp] theorem setMtp_handed (i : Nat) (mtp : Option AgentMtp) (s : State) :
    (setMtp i mtp s).handed = s.handed := rfl

/-- A slot changed together with its row. -/
theorem holds_replace (h : Holds F R s) (hfind : findAgentMtpByInstance i s.slots = some mtp)
    (hcaches : Caches F s.clients i row mtp') (hsame : mtp'.inst = mtp.inst) {s' : State}
    (hslots : s'.slots = replace AgentMtp.inst i (some mtp') s.slots)
    (hclients : s'.clients = s.clients) (hrunning : s'.stopped = false) (hhanded : HandedRight s') :
    Holds F (Function.update R i (some row)) s' where
  running := hrunning
  length := by rw [hslots, length_replace, h.length]
  nodup := by
    rw [hslots, keys_replace_some hfind (hsame.trans (key_of_find hfind))]
    exact h.nodup
  unused := by
    intro k hk
    have hinst : mtp'.inst = i := hsame.trans (key_of_find hfind)
    have hki : k ≠ i := by
      rintro rfl
      simp at hk
    rw [Function.update_of_ne hki] at hk
    rw [findAgentMtpByInstance, hslots, find_replace_some hfind hinst, if_neg hki]
    exact h.unused k hk
  cached := by
    intro k r hk
    have hinst : mtp'.inst = i := hsame.trans (key_of_find hfind)
    rw [findAgentMtpByInstance, hslots, find_replace_some hfind hinst, hclients]
    by_cases hki : k = i
    · subst hki
      obtain rfl : row = r := by simpa using hk
      exact ⟨mtp', if_pos rfl, hcaches⟩
    · rw [Function.update_of_ne hki] at hk
      rw [if_neg hki]
      exact h.cached k r hk
  handed := hhanded

/-- The other clients are served by neither the old nor the new slot. -/
theorem handed_replace (h : HandedRight s) (hfind : findAgentMtpByInstance i s.slots = some mtp)
    {c : Nat} (hold : serves c mtp = false) (hnew : serves c mtp' = false)
    (hc : s.clients c = some true) :
    s.handed c = computed (replace AgentMtp.inst i (some mtp') s.slots) c := by
  rw [h c hc, computed_replace hfind hold]
  intro m hm
  obtain rfl := Option.some.inj hm
  exact hnew

theorem serves_false_of_enable {c : Nat} (h : mtp.enable = false) : serves c mtp = false := by
  simp [serves, h]

theorem serves_false_of_protocol {c : Nat} (h : mtp.protocol ≠ .mqtt) : serves c mtp = false := by
  simp [serves, h]

theorem serves_false_of_connection {c : Nat} (h : mtp.mqttConnectionInstance ≠ some c) :
    serves c mtp = false := by
  simp [serves, h]

/-- The slot is changed first, and the reconnect of its client then sees the change. -/
theorem handedRight_replace_schedule (h : HandedRight s)
    (hfind : findAgentMtpByInstance i s.slots = some mtp)
    (hnew : mtp'.mqttConnectionInstance = mtp.mqttConnectionInstance) :
    HandedRight (scheduleReconnect mtp.mqttConnectionInstance (setMtp i (some mtp') s)) := by
  apply handedRight_schedule
  intro c hne hc
  exact handed_replace h hfind (serves_false_of_connection hne)
    (serves_false_of_connection (hnew ▸ hne)) hc

/-- A slot that serves no client, before and after, may change without a reconnect. -/
theorem handedRight_replace (h : HandedRight s)
    (hfind : findAgentMtpByInstance i s.slots = some mtp) (hold : ∀ c, serves c mtp = false)
    (hnew : ∀ c, serves c mtp' = false) : HandedRight (setMtp i (some mtp') s) :=
  fun c hc => handed_replace h hfind (hold c) (hnew c) hc

theorem serves_false_of_not {c : Nat} (h : ¬ (mtp.enable = true ∧ mtp.protocol = .mqtt)) :
    serves c mtp = false := by
  by_contra hc
  rw [Bool.not_eq_false, serves_iff] at hc
  exact h ⟨hc.1, hc.2.2⟩

/-- No reconnect is scheduled when the slot serves no client or the value is the old one. -/
theorem handedRight_unscheduled {changed : Prop} (h : HandedRight s)
    (hfind : findAgentMtpByInstance i s.slots = some mtp)
    (hnot : ¬ (mtp.enable = true ∧ mtp.protocol = .mqtt ∧ changed)) (hold : ¬ changed → mtp' = mtp)
    (henable : mtp'.enable = mtp.enable) (hprotocol : mtp'.protocol = mtp.protocol) :
    HandedRight (setMtp i (some mtp') s) := by
  by_cases hserves : mtp.enable = true ∧ mtp.protocol = .mqtt
  · have hsame : mtp' = mtp := hold fun hchanged => hnot ⟨hserves.1, hserves.2, hchanged⟩
    have hslots : (setMtp i (some mtp') s).slots = s.slots := by
      rw [hsame]
      exact replace_self hfind
    intro c hc
    rw [hslots]
    exact h c hc
  · have hserves' : ¬ (mtp'.enable = true ∧ mtp'.protocol = .mqtt) := by
      rwa [henable, hprotocol]
    exact handedRight_replace h hfind (fun c => serves_false_of_not hserves)
      fun c => serves_false_of_not hserves'

variable (h : Holds F R s) (hfind : findAgentMtpByInstance i s.slots = some mtp)
  (hrow : R i = some row) (hcaches : Caches F s.clients i row mtp)

include h hfind hcaches

theorem holds_enable {value : Bool} (hprotocol : value ≠ mtp.enable → mtp.protocol = .mqtt) :
    Holds F (Function.update R i (some { row with enable := value })) (notifyEnable i value mtp s) := by
  have hcaches' : Caches F s.clients i { row with enable := value } { mtp with enable := value } :=
    ⟨rfl, hcaches.protocol, hcaches.reference, hcaches.responseTopic, hcaches.publishQos⟩
  rw [notifyEnable]
  by_cases hsame : value = mtp.enable
  · subst hsame
    rw [if_pos rfl]
    exact holds_replace h hfind hcaches' rfl (replace_self hfind).symm rfl
      h.running h.handed
  · rw [if_neg hsame]
    split
    · exact holds_replace h hfind hcaches' rfl (by simp [setMtp]) (by simp)
        (by simp [setMtp, h.running]) (handedRight_replace_schedule h.handed hfind rfl)
    · simp_all

theorem holds_protocol {value : MtpProtocol}
    (hkept : value ≠ mtp.protocol → mtp.enable = true → ∀ c,
      mtp.mqttConnectionInstance = some c → s.clients c = some true →
        computed (replace AgentMtp.inst i (some { mtp with protocol := value }) s.slots) c =
          computed s.slots c) :
    Holds F (Function.update R i (some { row with protocol := some value }))
      (notifyProtocol i value mtp s) := by
  have hcaches' : Caches F s.clients i { row with protocol := some value }
      { mtp with protocol := value } :=
    ⟨hcaches.enable, rfl, hcaches.reference, hcaches.responseTopic, hcaches.publishQos⟩
  rw [notifyProtocol]
  by_cases hsame : mtp.protocol = value
  · subst hsame
    rw [if_pos rfl]
    exact holds_replace h hfind hcaches' rfl (replace_self hfind).symm rfl
      h.running h.handed
  rw [if_neg hsame]
  by_cases henable : mtp.enable = false
  · rw [if_pos henable]
    exact holds_replace h hfind hcaches' rfl rfl rfl h.running
      (handedRight_replace h.handed hfind (fun c => serves_false_of_enable henable)
        fun c => serves_false_of_enable henable)
  · rw [if_neg henable]
    have hkept' := hkept (Ne.symm hsame) (by simpa using henable)
    apply holds_replace h hfind hcaches' rfl (by simp [setMtp]) (by simp)
      (by simp [setMtp, h.running])
    -- The reconnect hands over what the slots gave before the change.
    intro c hc
    rw [setMtp_clients, scheduleReconnect_clients] at hc
    have hslots : (setMtp i (some { mtp with protocol := value })
        (scheduleReconnect mtp.mqttConnectionInstance s)).slots =
        replace AgentMtp.inst i (some { mtp with protocol := value }) s.slots := by
      simp [setMtp]
    rw [setMtp_handed, scheduleReconnect_handed hc, hslots]
    by_cases hclient : mtp.mqttConnectionInstance = some c
    · rw [if_pos hclient, hkept' c hclient hc]
    · rw [if_neg hclient]
      exact handed_replace h.handed hfind (serves_false_of_connection hclient)
        (serves_false_of_connection hclient) hc

theorem holds_responseTopic {value : Str} :
    Holds F (Function.update R i (some { row with responseTopic := value }))
      (notifyResponseTopic i value mtp s) := by
  have hcaches' : Caches F s.clients i { row with responseTopic := value }
      { mtp with mqttAgentTopic := value } :=
    ⟨hcaches.enable, hcaches.protocol, hcaches.reference, rfl, hcaches.publishQos⟩
  simp only [notifyResponseTopic]
  split
  · exact holds_replace h hfind hcaches' rfl (by simp [setMtp]) (by simp)
      (by simp [setMtp, h.running]) (handedRight_replace_schedule h.handed hfind rfl)
  · rename_i hnot
    have hhanded : HandedRight (setMtp i (some { mtp with mqttAgentTopic := value }) s) :=
      handedRight_unscheduled h.handed hfind hnot (fun hsame => by rw [← not_not.mp hsame]) rfl rfl
    exact holds_replace h hfind hcaches' rfl rfl rfl h.running hhanded

theorem holds_publishQos {value : Nat} :
    Holds F (Function.update R i (some { row with publishQos := value }))
      (notifyPublishQos i value mtp s) := by
  have hcaches' : Caches F s.clients i { row with publishQos := value }
      { mtp with mqttPublishQos := value } :=
    ⟨hcaches.enable, hcaches.protocol, hcaches.reference, hcaches.responseTopic, rfl⟩
  simp only [notifyPublishQos]
  split
  · exact holds_replace h hfind hcaches' rfl (by simp [setMtp]) (by simp)
      (by simp [setMtp, h.running]) (handedRight_replace_schedule h.handed hfind rfl)
  · rename_i hnot
    have hhanded : HandedRight (setMtp i (some { mtp with mqttPublishQos := value }) s) :=
      handedRight_unscheduled h.handed hfind hnot (fun hsame => by rw [← not_not.mp hsame]) rfl rfl
    exact holds_replace h hfind hcaches' rfl rfl rfl h.running hhanded

/-- The reference is cached as the rows hold it at the end of the commit. -/
theorem holds_reference {value : Reference} {connection : Option Nat} {final : Row}
    (hfinal : s.rows i = some final) (hF : F i = some final)
    (hread : getMqttReference s.clients final.reference = some connection) :
    Holds F (Function.update R i (some { row with reference := value }))
      (notifyReference i true mtp s) := by
  have hcaches' : Caches F s.clients i { row with reference := value }
      { mtp with mqttConnectionInstance := connection } :=
    ⟨hcaches.enable, hcaches.protocol, .inr ⟨final, hF, hread⟩, hcaches.responseTopic,
      hcaches.publishQos⟩
  simp only [notifyReference, if_true, hfinal, bind_some, hread]
  split
  · apply holds_replace h hfind hcaches' rfl (by simp [setMtp]) (by simp)
      (by simp [setMtp, h.running])
    apply handedRight_schedule
    intro c hnew hc
    rw [scheduleReconnect_clients] at hc
    rw [scheduleReconnect_handed hc, scheduleReconnect_slots]
    split
    · rfl
    · rename_i hold
      exact handed_replace h.handed hfind (serves_false_of_connection hold)
        (serves_false_of_connection hnew) hc
  · rename_i hnot
    have hhanded : HandedRight (setMtp i (some { mtp with mqttConnectionInstance := connection }) s) :=
      handedRight_unscheduled h.handed hfind hnot (fun hsame => by rw [← not_not.mp hsame]) rfl rfl
    exact holds_replace h hfind hcaches' rfl rfl rfl h.running hhanded

end Changes

section Tables

variable {F R : Nat → Option Row} {s : State} {i : Nat} {mtp : AgentMtp} {row : Row}

variable {readable : Bool}

theorem caches_loadMtp {clients : Nat → Option Bool}
    (h : loadMtp clients readable i row = some mtp) :
    mtp.inst = i ∧ Caches F clients i row mtp := by
  cases readable with
  | false => simp [loadMtp] at h
  | true =>
    rw [loadMtp, if_pos rfl, bind_eq_some_iff] at h
    obtain ⟨protocol, hprotocol, h⟩ := h
    rw [map_eq_some_iff] at h
    obtain ⟨connection, hconnection, rfl⟩ := h
    exact ⟨rfl, rfl, hprotocol, .inl hconnection, rfl, rfl⟩

theorem loadMtp_of_caches {clients : Nat → Option Bool} (h : Caches (fun _ => none) clients i row mtp)
    (hinst : mtp.inst = i) : loadMtp clients true i row = some mtp := by
  have hconnection : getMqttReference clients row.reference = some mtp.mqttConnectionInstance := by
    simpa using h.reference
  rw [loadMtp, if_pos rfl, h.protocol, bind_some, hconnection, ← h.enable, ← h.responseTopic,
    ← h.publishQos, ← hinst]
  rfl

/-- The new slot is there before the reconnect of its client. -/
theorem handedRight_added {slots' : Slots} (h : HandedRight s) (hput : put mtp s.slots = some slots') :
    HandedRight (if mtp.enable ∧ mtp.protocol = .mqtt then
      scheduleReconnect mtp.mqttConnectionInstance { s with slots := slots' }
      else { s with slots := slots' }) := by
  have hother : ∀ c, serves c mtp = false → s.clients c = some true →
      s.handed c = computed slots' c := by
    intro c hserves hc
    rw [h c hc, computed_put hput hserves]
  split
  · apply handedRight_schedule
    intro c hne hc
    exact hother c (serves_false_of_connection hne) hc
  · rename_i hserves
    intro c hc
    exact hother c (serves_false_of_not hserves) hc

theorem notifyAdded_eq {slots' : Slots} (hrow : s.rows i = some row)
    (hload : loadMtp s.clients readable i row = some mtp) (hput : put mtp s.slots = some slots') :
    notifyAdded i readable s = if mtp.enable ∧ mtp.protocol = .mqtt then
      scheduleReconnect mtp.mqttConnectionInstance { s with slots := slots' }
      else { s with slots := slots' } := by
  rw [notifyAdded, hrow, bind_some, hload]
  simp only [hput]

theorem holds_added (h : Holds F R s) (hnew : R i = none) (hrow : s.rows i = some row)
    (hload : (loadMtp s.clients readable i row).isSome) (hroom : hasUnusedAgentMtp s.slots) :
    Holds F (Function.update R i (some row)) (notifyAdded i readable s) := by
  obtain ⟨mtp, hmtp⟩ := isSome_iff_exists.mp hload
  obtain ⟨hinst, hcaches⟩ := caches_loadMtp (F := F) hmtp
  have hfree : find AgentMtp.inst (AgentMtp.inst mtp) s.slots = none := hinst ▸ h.unused i hnew
  cases hput : put mtp s.slots with
  | none =>
    rw [put_eq_none_iff] at hput
    simp [hasUnusedAgentMtp, hput] at hroom
  | some slots' =>
    rw [notifyAdded_eq hrow hmtp hput]
    have hhanded := handedRight_added h.handed hput
    have hfind : ∀ k, findAgentMtpByInstance k slots' =
        if k = i then some mtp else findAgentMtpByInstance k s.slots := by
      intro k
      rw [findAgentMtpByInstance, find_put hput hfree, hinst]
      rfl
    generalize hs' : (if mtp.enable ∧ mtp.protocol = .mqtt then
      scheduleReconnect mtp.mqttConnectionInstance { s with slots := slots' }
      else { s with slots := slots' } : State) = s' at hhanded ⊢
    have hslots : s'.slots = slots' := by
      rw [← hs']
      split <;> simp
    have hclients : s'.clients = s.clients := by
      rw [← hs']
      split <;> simp
    refine ⟨?_, ?_, ?_, ?_, ?_, hhanded⟩
    · rw [← hs']
      split <;> simp [h.running]
    · rw [hslots, length_put hput, h.length]
    · rw [hslots, (keys_put hput).nodup_iff, List.nodup_cons]
      exact ⟨find_eq_none_iff.mp hfree, h.nodup⟩
    · intro k hk
      have hki : k ≠ i := by
        rintro rfl
        simp at hk
      rw [Function.update_of_ne hki] at hk
      rw [hslots, hfind, if_neg hki]
      exact h.unused k hk
    · intro k r hk
      rw [hslots, hfind, hclients]
      by_cases hki : k = i
      · subst hki
        obtain rfl : row = r := by simpa using hk
        exact ⟨mtp, if_pos rfl, hcaches⟩
      · rw [Function.update_of_ne hki] at hk
        rw [if_neg hki]
        exact h.cached k r hk

theorem notifyDeleted_eq (hfind : findAgentMtpByInstance i s.slots = some mtp)
    (henable : mtp.enable = true) : notifyDeleted i s = setMtp i none
      (if mtp.protocol = .mqtt then scheduleReconnect mtp.mqttConnectionInstance s else s) := by
  simp [notifyDeleted, hfind, henable]

/-- The reconnect of its client is scheduled while the slot is still there. -/
theorem holds_deleted (h : Holds F R s) (hfind : findAgentMtpByInstance i s.slots = some mtp)
    (henable : mtp.enable = true)
    (hkept : mtp.protocol = .mqtt → ∀ c, mtp.mqttConnectionInstance = some c →
      s.clients c = some true → computed (replace AgentMtp.inst i none s.slots) c = computed s.slots c) :
    Holds F (Function.update R i none) (notifyDeleted i s) := by
  rw [notifyDeleted_eq hfind henable]
  generalize hs' : (if mtp.protocol = .mqtt then scheduleReconnect mtp.mqttConnectionInstance s
    else s : State) = s'
  have hslots : (setMtp i none s').slots = replace AgentMtp.inst i none s.slots := by
    rw [← hs', setMtp]
    split <;> simp
  have hclients : (setMtp i none s').clients = s.clients := by
    rw [← hs', setMtp]
    split <;> simp
  have hfind' : ∀ k, findAgentMtpByInstance k (setMtp i none s').slots =
      if k = i then none else findAgentMtpByInstance k s.slots := by
    intro k
    rw [hslots, findAgentMtpByInstance, find_replace_none h.nodup]
    rfl
  refine ⟨?_, ?_, ?_, ?_, ?_, ?_⟩
  · rw [← hs', setMtp]
    split <;> simp [h.running]
  · rw [hslots, length_replace, h.length]
  · rw [hslots]
    exact h.nodup.sublist keys_replace_none
  · intro k hk
    rw [hfind']
    by_cases hki : k = i
    · exact if_pos hki
    · rw [Function.update_of_ne hki] at hk
      rw [if_neg hki]
      exact h.unused k hk
  · intro k r hk
    have hki : k ≠ i := by
      rintro rfl
      simp at hk
    rw [Function.update_of_ne hki] at hk
    rw [hfind', if_neg hki, hclients]
    exact h.cached k r hk
  · intro c hc
    rw [hclients] at hc
    have hother : serves c mtp = false →
        s.handed c = computed (replace AgentMtp.inst i none s.slots) c := by
      intro hserves
      rw [h.handed c hc, computed_replace hfind hserves fun m hm => by cases hm]
    rw [hslots, setMtp_handed, ← hs']
    by_cases hprotocol : mtp.protocol = .mqtt
    · rw [if_pos hprotocol, scheduleReconnect_handed hc]
      by_cases hclient : mtp.mqttConnectionInstance = some c
      · rw [if_pos hclient, hkept hprotocol c hclient hc]
      · rw [if_neg hclient]
        exact hother (serves_false_of_connection hclient)
    · rw [if_neg hprotocol]
      exact hother (serves_false_of_protocol hprotocol)

end Tables

end AgentMtps
