import SdtTr369.AgentMtpSlots
import SdtTr369.ControllerSlots
import SdtTr369.MqttReferences

/-!
# What the notifications leave in the slots

Of each slot only the MQTT client matters. A notification changes it in the slot of its own
row, and there it caches what the row refers to.
-/

namespace MqttReferences

open ControllerTable SlotTable Option
open AgentMtps (findAgentMtpByInstance)

/-- The client that a Reference names. -/
def clientOf : Reference → Option Nat
  | .row n => some n
  | _ => none

def referenceOf (s : State) : RowId → Option Reference
  | .agent i => (s.agentRows i).map AgentMtps.Row.reference
  | .controller c i => (s.controllerRows (c, i)).map MtpRow.mqttReference

def agentConnection (slots : AgentMtps.Slots) (i : Nat) : Option (Option Nat) :=
  (findAgentMtpByInstance i slots).map AgentMtps.AgentMtp.mqttConnectionInstance

/-- The client cached for a row, where it has a slot. -/
def connectionOf (s : State) : RowId → Option (Option Nat)
  | .agent i => agentConnection s.agentMtps i
  | .controller c i => connectionAt s.controllers c i

/-- The operation stores the Reference of the row. -/
def Op.sets (op : Op) (r : RowId) : Prop := ∃ ref, op.reference = some (r, ref)

/-- The row that the operation deletes. -/
def Op.removed : Op → Option RowId
  | .agent (.deleted i) => some (.agent i)
  | .mtpDeleted c i => some (.controller c i)
  | _ => none

section Conditions

def isDone {α : Type} : Loaded α → Bool
  | .done _ => true
  | _ => false

/-- Where the slot of a row has the client, it is the slot of an MQTT row of the agent, and the
client is found. -/
def unpicks (s : State) (n : Nat) : Bool :=
  (s.agentMtps.reduceOption.all fun mtp =>
    (s.agentRows mtp.inst).isNone || mtp.mqttConnectionInstance ≠ some n ||
      (mtp.protocol = .mqtt && n ∈ s.mqttClientParams)) &&
  s.controllers.reduceOption.all fun cont => cont.mtps.reduceOption.all fun mtp =>
    (s.controllerRows (cont.inst, mtp.inst)).isNone || mtp.mqttConnectionInstance ≠ some n

/-- The notification of a Reference: one that can be read, and for a controller's MTP no empty
one where a client is cached. -/
def MtpChange.meets (c i : Nat) (reads : Nat → Param → Bool) (s : State) : MtpChange → Bool
  | .reference .blank => connectionAt s.controllers c i = some none
  | .reference _ => reads c (.mtpMqttReference i)
  | _ => true

/-- A row added is loaded into a slot, and no other slot has its instance. A client deleted is
unpicked from every row. -/
def Op.meets (s : State) : Op → Bool
  | .clientDeleted n => unpicks s n
  | .agent (.added i _ readable) =>
    (findAgentMtpByInstance i s.agentMtps).isNone && AgentMtps.hasUnusedAgentMtp s.agentMtps &&
      ((s.agentRows i).bind (AgentMtps.loadMtp s.mqttClients readable i)).isSome
  | .agent (.changed i (.reference _) readable) =>
    readable || referenceOf s (.agent i) = some .blank
  | .mtpAdded c row reads =>
    (s.controllerRows (c, row.inst)).any fun values =>
      (find Controller.inst c s.controllers).any fun cont =>
        (find Mtp.inst row.inst cont.mtps).isNone && (findUnused cont.mtps).isSome &&
          isDone (loadMtp (s.loading reads) s.controllers cont { values with inst := row.inst })
  | .mtpChanged c i change reads => change.meets c i reads s
  | _ => true

end Conditions

variable {value : Reference} {connection : Option Nat}

section Agent

variable {t : AgentMtps.State} {i k : Nat} {mtp : AgentMtps.AgentMtp}

variable (new : AgentMtps.AgentMtp) {row : AgentMtps.Row}

theorem agentConnection_setMtp (hfind : findAgentMtpByInstance i t.slots = some mtp)
    (hinst : new.inst = mtp.inst) :
    agentConnection (AgentMtps.setMtp i (some new) t).slots k =
      if k = i then some new.mqttConnectionInstance else agentConnection t.slots k := by
  have hkey : new.inst = i := hinst.trans (key_of_find hfind)
  rw [agentConnection, AgentMtps.setMtp, findAgentMtpByInstance, find_replace_some hfind hkey]
  split <;> rfl

/-- A slot that keeps its client. -/
theorem agentConnection_kept (hfind : findAgentMtpByInstance i t.slots = some mtp)
    (hinst : new.inst = mtp.inst)
    (hsame : new.mqttConnectionInstance = mtp.mqttConnectionInstance) :
    agentConnection (AgentMtps.setMtp i (some new) t).slots k = agentConnection t.slots k := by
  rw [agentConnection_setMtp new hfind hinst]
  split
  · rename_i hk
    rw [hk, hsame, agentConnection, hfind]
    rfl
  · rfl

variable {readable : Bool}

/-- Only the notification of a Reference changes a client. -/
theorem agentConnection_changed {change : AgentMtps.Change}
    (h : k ≠ i ∨ ∀ value, change ≠ .reference value) :
    agentConnection (AgentMtps.notifyChanged i change readable t).slots k =
      agentConnection t.slots k := by
  rw [AgentMtps.notifyChanged]
  cases hfind : findAgentMtpByInstance i t.slots with
  | none => rfl
  | some mtp =>
    cases change with
    | enable value =>
      dsimp only [AgentMtps.notifyEnable]
      split
      · rfl
      · split
        · rw [AgentMtps.scheduleReconnect_slots]
          exact agentConnection_kept _ hfind rfl rfl
        · rfl
    | protocol value =>
      dsimp only [AgentMtps.notifyProtocol]
      split
      · rfl
      · split
        · exact agentConnection_kept _ hfind rfl rfl
        · have hfind' : findAgentMtpByInstance i
              (AgentMtps.scheduleReconnect mtp.mqttConnectionInstance t).slots = some mtp := by
            rwa [AgentMtps.scheduleReconnect_slots]
          rw [agentConnection_kept { mtp with protocol := value } hfind' rfl rfl,
            AgentMtps.scheduleReconnect_slots]
    | reference value =>
      have hk : k ≠ i := h.resolve_right fun hno => hno value rfl
      dsimp only [AgentMtps.notifyReference]
      split
      · rw [agentConnection_setMtp { mtp with mqttConnectionInstance := none } hfind rfl, if_neg hk]
      · rename_i connection _
        have hset : agentConnection (AgentMtps.setMtp i
            (some { mtp with mqttConnectionInstance := connection }) t).slots k =
            agentConnection t.slots k := by
          rw [agentConnection_setMtp { mtp with mqttConnectionInstance := connection } hfind rfl,
            if_neg hk]
        split
        · rwa [AgentMtps.scheduleReconnect_slots, AgentMtps.scheduleReconnect_slots]
        · exact hset
    | responseTopic value =>
      dsimp only [AgentMtps.notifyResponseTopic]
      split
      · rw [AgentMtps.scheduleReconnect_slots]
        exact agentConnection_kept _ hfind rfl rfl
      · exact agentConnection_kept _ hfind rfl rfl
    | publishQos value =>
      dsimp only [AgentMtps.notifyPublishQos]
      split
      · rw [AgentMtps.scheduleReconnect_slots]
        exact agentConnection_kept _ hfind rfl rfl
      · exact agentConnection_kept _ hfind rfl rfl

/-- A Reference is cached as the row holds it. -/
theorem agentConnection_reference (hrow : t.rows i = some row)
    (hread : AgentMtps.getMqttReference t.clients row.reference = some connection)
    (hreadable : readable = true ∨ connection = none) :
    (AgentMtps.notifyChanged i (.reference value) readable t).stopped = true ∨
      agentConnection (AgentMtps.notifyChanged i (.reference value) readable t).slots i =
        some connection := by
  rw [AgentMtps.notifyChanged]
  cases hfind : findAgentMtpByInstance i t.slots with
  | none => exact .inl rfl
  | some mtp =>
    right
    dsimp only [AgentMtps.notifyReference]
    cases readable with
    | false =>
      obtain rfl : connection = none := by simpa using hreadable
      simp only [Bool.false_eq_true, if_false]
      rw [agentConnection_setMtp { mtp with mqttConnectionInstance := none } hfind rfl, if_pos rfl]
    | true =>
      simp only [if_true, hrow, bind_some, hread]
      have hset : agentConnection (AgentMtps.setMtp i
          (some { mtp with mqttConnectionInstance := connection }) t).slots i = some connection := by
        rw [agentConnection_setMtp { mtp with mqttConnectionInstance := connection } hfind rfl,
          if_pos rfl]
      split
      · rwa [AgentMtps.scheduleReconnect_slots, AgentMtps.scheduleReconnect_slots]
      · exact hset

theorem agentConnection_added (hrow : t.rows i = some row)
    (hload : AgentMtps.loadMtp t.clients readable i row = some mtp)
    (hfree : findAgentMtpByInstance i t.slots = none)
    (hunused : AgentMtps.hasUnusedAgentMtp t.slots) :
    agentConnection (AgentMtps.notifyAdded i readable t).slots k =
      if k = i then some mtp.mqttConnectionInstance else agentConnection t.slots k := by
  have hinst : mtp.inst = i := (AgentMtps.caches_loadMtp (F := fun _ => none) hload).1
  cases hput : put mtp t.slots with
  | none =>
    rw [put_eq_none_iff] at hput
    simp [AgentMtps.hasUnusedAgentMtp, hput] at hunused
  | some slots =>
    have hslots : (AgentMtps.notifyAdded i readable t).slots = slots := by
      rw [AgentMtps.notifyAdded_eq hrow hload hput]
      split <;> simp
    have hnew : find AgentMtps.AgentMtp.inst mtp.inst t.slots = none := hinst ▸ hfree
    rw [hslots, agentConnection, findAgentMtpByInstance, find_put hput hnew, hinst]
    split <;> rfl

theorem agentConnection_deleted (hk : k ≠ i) :
    agentConnection (AgentMtps.notifyDeleted i t).slots k = agentConnection t.slots k := by
  rw [AgentMtps.notifyDeleted]
  split
  · rfl
  · split
    · rfl
    · dsimp only [AgentMtps.setMtp]
      rw [agentConnection, findAgentMtpByInstance, find_replace_of_ne hk fun b hb => by cases hb]
      split <;> simp [agentConnection, findAgentMtpByInstance]

end Agent

section Rows

variable {s : State} {op : Op} {acc : List Op} {r : RowId} {ref : Reference}

variable {E : Loading} {c : Nat}

theorem clientOf_of_loading (h : getMqttReference E ref = .ok connection) :
    connection = clientOf ref := by
  cases ref with
  | blank => exact (Except.ok.inj h).symm
  | row n =>
    rw [getMqttReference] at h
    split at h
    · exact (Except.ok.inj h).symm
    · cases h
  | invalid => cases h

theorem notifyAgent_of_running (hrun : s.stopped = false) (op : AgentMtps.Op) :
    (notify (.agent op) (s, acc)).1 = notifyAgent op s := by
  simp [notify, hrun]

theorem notifyController_spec {f : Slots → Option Slots} (s : State) :
    (f s.controllers = none ∧ notifyController f s = { s with stopped := true }) ∨
      ∃ slots, f s.controllers = some slots ∧
        notifyController f s = { s with controllers := slots } := by
  rw [notifyController]
  cases h : f s.controllers with
  | none => exact .inl ⟨rfl, rfl⟩
  | some slots => exact .inr ⟨slots, rfl, rfl⟩

/-- A change of a controller's MTP that keeps its client. -/
theorem connectionOf_modified {i : Nat} {f : Mtp → Option Mtp}
    (hf : ∀ mtp new, f mtp = some new →
      new.inst = mtp.inst ∧ new.mqttConnectionInstance = mtp.mqttConnectionInstance) :
    connectionOf (notifyController (fun slots => modifyMtp slots c i f) s) r = connectionOf s r := by
  obtain ⟨-, hstop⟩ | ⟨slots, hslots, hdone⟩ :=
    notifyController_spec (f := fun slots => modifyMtp slots c i f) s
  · rw [hstop]
    cases r <;> rfl
  · rw [hdone]
    cases r with
    | agent k => rfl
    | controller c' i' =>
      obtain ⟨mtp, new, hold, hnew, hall⟩ :=
        connectionAt_modifyMtp hslots fun mtp new h => (hf mtp new h).1
      have hsame := (hf mtp new hnew).2
      rw [connectionOf, hall]
      split
      · rename_i hrow
        rw [hsame, ← hold, hrow.1, hrow.2]
        rfl
      · rfl

variable {old : Reference}

theorem mqttReference_inst {i n : Nat} (mtp new : Mtp)
    (h : (if E.reads c (.mtpMqttReference i) = false then
      some { mtp with mqttConnectionInstance := none }
      else match getMqttReference E old with
      | .error _ => some { mtp with mqttConnectionInstance := none }
      | .ok _ => some { mtp with mqttConnectionInstance := some n }) = some new) :
    new.inst = mtp.inst := by
  split at h
  · obtain rfl := Option.some.inj h
    rfl
  · split at h <;> obtain rfl := Option.some.inj h <;> rfl

/-- The Reference of a controller's MTP changes no other slot. -/
theorem connectionOf_reference {i : Nat} (hne : r ≠ .controller c i) :
    connectionOf (notifyController (notifyControllerMtpMqttReference E c i value old) s) r =
      connectionOf s r := by
  cases value with
  | blank => cases r <;> rfl
  | invalid => cases r <;> rfl
  | row n =>
    obtain ⟨-, hstop⟩ | ⟨slots, hslots, hdone⟩ :=
      notifyController_spec (f := notifyControllerMtpMqttReference E c i (.row n) old) s
    · rw [hstop]
      cases r <;> rfl
    · rw [hdone]
      cases r with
      | agent k => rfl
      | controller c' i' =>
        rw [notifyControllerMtpMqttReference] at hslots
        split at hslots
        · obtain ⟨mtp, new, -, -, hall⟩ := connectionAt_modifyMtp hslots mqttReference_inst
          have hrow : ¬ (c' = c ∧ i' = i) := by
            rintro ⟨rfl, rfl⟩
            exact hne rfl
          rw [connectionOf, hall, if_neg hrow]
          rfl
        · obtain rfl := Option.some.inj hslots
          rfl

theorem mtpAdded_meets {row : MtpRow} {reads : Nat → Param → Bool}
    (h : (Op.mtpAdded c row reads).meets s) :
    ∃ values, s.controllerRows (c, row.inst) = some values ∧
      ∃ cont, find Controller.inst c s.controllers = some cont ∧
        find Mtp.inst row.inst cont.mtps = none ∧ (findUnused cont.mtps).isSome ∧
        ∃ mtp, loadMtp (s.loading reads) s.controllers cont { values with inst := row.inst } =
          .done mtp := by
  rw [Op.meets, Option.any_eq_true] at h
  obtain ⟨values, hvalues, h⟩ := h
  rw [Option.any_eq_true] at h
  obtain ⟨cont, hcont, h⟩ := h
  rw [Bool.and_eq_true, Bool.and_eq_true, isNone_iff_eq_none] at h
  obtain ⟨⟨hfree, hunused⟩, hload⟩ := h
  refine ⟨values, hvalues, cont, hcont, hfree, hunused, ?_⟩
  cases hloaded : loadMtp (s.loading reads) s.controllers cont { values with inst := row.inst } with
  | done mtp => exact ⟨mtp, rfl⟩
  | destroyed e => simp [hloaded, isDone] at hload
  | kept mtp e => simp [hloaded, isDone] at hload

/-- The slots of the other rows keep their clients. -/
theorem connectionOf_kept (hrun : s.stopped = false) (hmeets : op.meets s)
    (hclient : ∀ n, op ≠ .clientDeleted n) (hset : ¬ op.sets r) (hremoved : op.removed ≠ some r) :
    connectionOf (notify op (s, acc)).1 r = connectionOf s r := by
  cases op with
  | clientAdded n loads =>
    simp only [notify, hrun, Bool.false_eq_true, if_false]
    split
    · cases r <;> rfl
    · rfl
  | clientDeleted n => exact absurd rfl (hclient n)
  | clientChanged n => simp [notify, hrun]
  | agent op =>
    rw [notifyAgent_of_running hrun]
    cases r with
    | controller c i => rfl
    | agent k =>
      cases op with
      | added i row readable =>
        have hk : k ≠ i := by
          rintro rfl
          exact hset ⟨row.reference, rfl⟩
        simp only [Op.meets, Bool.and_eq_true, isNone_iff_eq_none] at hmeets
        obtain ⟨⟨hfree, hunused⟩, hload⟩ := hmeets
        obtain ⟨mtp, hmtp⟩ := isSome_iff_exists.mp hload
        obtain ⟨values, hvalues, hmtp⟩ := bind_eq_some_iff.mp hmtp
        have hadded : AgentMtps.notify (.added i row readable) s.agentMtpState =
            AgentMtps.notifyAdded i readable s.agentMtpState := by
          simp [AgentMtps.notify, State.agentMtpState, hrun]
        rw [connectionOf, notifyAgent, hadded, agentConnection_added hvalues hmtp hfree hunused,
          if_neg hk]
        rfl
      | deleted i =>
        have hk : k ≠ i := by
          rintro rfl
          exact hremoved rfl
        have hdeleted : AgentMtps.notify (.deleted i) s.agentMtpState =
            AgentMtps.notifyDeleted i s.agentMtpState := by
          simp [AgentMtps.notify, State.agentMtpState, hrun]
        rw [connectionOf, notifyAgent, hdeleted, agentConnection_deleted hk]
        rfl
      | changed i change readable =>
        have hk : k ≠ i ∨ ∀ value, change ≠ .reference value := by
          by_contra hno
          push Not at hno
          obtain ⟨rfl, value, rfl⟩ := hno
          exact hset ⟨value, rfl⟩
        have hchanged : AgentMtps.notify (.changed i change readable) s.agentMtpState =
            AgentMtps.notifyChanged i change readable s.agentMtpState := by
          simp [AgentMtps.notify, State.agentMtpState, hrun]
        rw [connectionOf, notifyAgent, hchanged, agentConnection_changed hk]
        rfl
  | mtpAdded c row reads =>
    obtain ⟨values, hvalues, cont, hcont, hfree, hunused, mtp, hload⟩ := mtpAdded_meets hmeets
    obtain ⟨slots, hslots, hall⟩ := connectionAt_mtpAdded hcont hload hfree hunused
    simp only [notify, hrun, Bool.false_eq_true, if_false, hvalues, notifyController, hslots]
    cases r with
    | agent k => rfl
    | controller c' i' =>
      have hrow : ¬ (c' = c ∧ i' = row.inst) := by
        rintro ⟨rfl, rfl⟩
        exact hset ⟨row.mqttReference, rfl⟩
      rw [connectionOf, hall, if_neg hrow]
      rfl
  | mtpDeleted c i =>
    simp only [notify, hrun, Bool.false_eq_true, if_false]
    obtain ⟨-, hstop⟩ | ⟨slots, hslots, hdone⟩ :=
      notifyController_spec (f := notifyControllerMtpDeleted c i) s
    · rw [hstop]
      cases r <;> rfl
    · rw [hdone]
      cases r with
      | agent k => rfl
      | controller c' i' =>
        apply connectionAt_mtpDeleted hslots
        rintro ⟨rfl, rfl⟩
        exact hremoved rfl
  | mtpChanged c i change reads =>
    simp only [notify, hrun, Bool.false_eq_true, if_false, notifyMtpChange]
    cases change with
    | enable value =>
      apply connectionOf_modified
      rintro mtp new h
      obtain rfl := Option.some.inj h
      exact ⟨rfl, rfl⟩
    | protocol value =>
      apply connectionOf_modified
      rintro mtp new h
      obtain rfl := Option.some.inj h
      exact ⟨rfl, rfl⟩
    | reference value =>
      dsimp only
      split
      · rfl
      · apply connectionOf_reference
        rintro rfl
        exact hset ⟨value, rfl⟩
    | topic value =>
      apply connectionOf_modified
      intro mtp new h
      split at h
      · cases h
      · obtain rfl := Option.some.inj h
        exact ⟨rfl, rfl⟩

/-- The slot of the row caches what it refers to. -/
theorem connectionOf_set (hrun : s.stopped = false) (hmeets : op.meets s)
    (hset : op.reference = some (r, ref)) (hrow : referenceOf s r = some ref)
    (hread : AgentMtps.getMqttReference s.mqttClients ref = some (clientOf ref)) :
    (notify op (s, acc)).1.stopped = true ∨
      connectionOf (notify op (s, acc)).1 r = some (clientOf ref) := by
  cases op with
  | clientAdded n loads => cases hset
  | clientDeleted n => cases hset
  | clientChanged n => cases hset
  | mtpDeleted c i => cases hset
  | agent op =>
    rw [notifyAgent_of_running hrun]
    cases op with
    | deleted i => cases hset
    | added i row readable =>
      cases hset
      right
      simp only [Op.meets, Bool.and_eq_true, isNone_iff_eq_none] at hmeets
      obtain ⟨⟨hfree, hunused⟩, hload⟩ := hmeets
      obtain ⟨mtp, hmtp⟩ := isSome_iff_exists.mp hload
      obtain ⟨values, hvalues, hmtp⟩ := bind_eq_some_iff.mp hmtp
      have hadded : AgentMtps.notify (.added i row readable) s.agentMtpState =
          AgentMtps.notifyAdded i readable s.agentMtpState := by
        simp [AgentMtps.notify, State.agentMtpState, hrun]
      have hconnection : mtp.mqttConnectionInstance = clientOf row.reference := by
        have hcaches := (AgentMtps.caches_loadMtp (F := fun _ => none) hmtp).2
        have hvalue : values.reference = row.reference := by simpa [referenceOf, hvalues] using hrow
        have hget : AgentMtps.getMqttReference s.mqttClients values.reference =
            some mtp.mqttConnectionInstance := by simpa using hcaches.reference
        rw [hvalue, hread] at hget
        exact (Option.some.inj hget).symm
      rw [connectionOf, notifyAgent, hadded, agentConnection_added hvalues hmtp hfree hunused,
        if_pos rfl, hconnection]
    | changed i change readable =>
      cases change with
      | reference value =>
        cases hset
        obtain ⟨row, hvalues, hvalue⟩ := map_eq_some_iff.mp hrow
        have hchanged : AgentMtps.notify (.changed i (.reference ref) readable) s.agentMtpState =
            AgentMtps.notifyChanged i (.reference ref) readable s.agentMtpState := by
          simp [AgentMtps.notify, State.agentMtpState, hrun]
        have hreadable : readable = true ∨ clientOf ref = none := by
          simp only [Op.meets, Bool.or_eq_true, decide_eq_true_eq] at hmeets
          refine hmeets.imp_right fun hblank => ?_
          rw [hrow] at hblank
          obtain rfl := Option.some.inj hblank
          rfl
        rw [notifyAgent, hchanged]
        exact agentConnection_reference hvalues (by rw [hvalue]; exact hread) hreadable
      | _ => cases hset
  | mtpAdded c row reads =>
    cases hset
    right
    obtain ⟨values, hvalues, cont, hcont, hfree, hunused, mtp, hload⟩ := mtpAdded_meets hmeets
    obtain ⟨slots, hslots, hall⟩ := connectionAt_mtpAdded hcont hload hfree hunused
    have hvalue : values.mqttReference = row.mqttReference := by
      simpa [referenceOf, hvalues] using hrow
    have hconnection : mtp.mqttConnectionInstance = clientOf row.mqttReference := by
      have hget := (loadMtp_done hload).2
      rw [hvalue] at hget
      exact clientOf_of_loading hget
    simp only [notify, hrun, Bool.false_eq_true, if_false, hvalues, notifyController, hslots]
    rw [connectionOf, hall, if_pos ⟨rfl, rfl⟩, hconnection]
  | mtpChanged c i change reads =>
    cases change with
    | reference value =>
      cases hset
      obtain ⟨row, hvalues, hvalue⟩ := map_eq_some_iff.mp hrow
      simp only [notify, hrun, Bool.false_eq_true, if_false, notifyMtpChange, hvalues, hvalue]
      cases ref with
      | invalid => cases hread
      | blank =>
        right
        have hblank : connectionAt s.controllers c i = some none := by
          simpa [Op.meets, MtpChange.meets] using hmeets
        exact hblank
      | row n =>
        have hreads : reads c (.mtpMqttReference i) = true := hmeets
        have hn : n ∈ s.instances := by
          by_contra hno
          simp [AgentMtps.getMqttReference, State.mqttClients, hno] at hread
        obtain ⟨-, hstop⟩ | ⟨slots, hslots, hdone⟩ := notifyController_spec
          (f := notifyControllerMtpMqttReference (s.loading reads) c i (.row n) (.row n)) s
        · left
          rw [hstop]
        · right
          rw [hdone]
          have hmodified : modifyMtp s.controllers c i
              (fun mtp => some { mtp with mqttConnectionInstance := some n }) = some slots := by
            simpa [notifyControllerMtpMqttReference, State.loading, hn, hreads, getMqttReference]
              using hslots
          have hinst : ∀ mtp new : Mtp,
              some { mtp with mqttConnectionInstance := some n } = some new →
                new.inst = mtp.inst := by
            intro mtp new h
            obtain rfl := Option.some.inj h
            rfl
          obtain ⟨mtp, new, -, hnew, hall⟩ := connectionAt_modifyMtp hmodified hinst
          obtain rfl := Option.some.inj hnew
          rw [connectionOf, hall, if_pos ⟨rfl, rfl⟩]
          rfl
    | _ => cases hset

end Rows

end MqttReferences
