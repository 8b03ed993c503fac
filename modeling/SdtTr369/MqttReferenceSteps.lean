import SdtTr369.MqttReferenceSlots

/-!
# What a notification does to the references

Once the rows are stored, every row is in order or has an operation still to come that puts
it in order: one that stores its Reference, or the deletion of the client that it names.
-/

namespace MqttReferences

open ControllerTable SlotTable List Option
open AgentMtps (findAgentMtpByInstance)

/-- A Reference that is not empty names the client that it was set to. -/
def Aimed (s : State) (r : RowId) : Reference → Prop
  | .blank => True
  | .row n => ∃ client ∈ s.clients, client.inst = n ∧ client.serial = s.target r
  | .invalid => False

/-- Every row is in order, or an operation to come puts it in order. -/
def Follows (pending : List Op) (s : State) : Prop := ∀ r ref, referenceOf s r = some ref →
  Aimed s r ref ∧ (connectionOf s r = some (clientOf ref) ∨ ∃ op ∈ pending, op.sets r) ∨
    ∃ n, ref = .row n ∧ .clientDeleted n ∈ pending ∧ connectionOf s r = some (some n)

/-- The rows of the three tables are the same. -/
structure SameRows (s s' : State) : Prop where
  clients : s'.clients = s.clients
  agentRows : s'.agentRows = s.agentRows
  controllerRows : s'.controllerRows = s.controllerRows
  target : s'.target = s.target

section Stores

variable {s s' : State} {op : Op} {ops : List Op} {r : RowId} {ref : Reference} {n : Nat}

theorem mem_instances_iff : n ∈ s.instances ↔ ∃ client ∈ s.clients, client.inst = n :=
  mem_map

theorem SameRows.referenceOf (h : SameRows s s') (r : RowId) :
    referenceOf s' r = MqttReferences.referenceOf s r := by
  cases r with
  | agent i => rw [MqttReferences.referenceOf, MqttReferences.referenceOf, h.agentRows]
  | controller c i => rw [MqttReferences.referenceOf, MqttReferences.referenceOf, h.controllerRows]

theorem SameRows.aimed (h : SameRows s s') : Aimed s' r ref ↔ Aimed s r ref := by
  cases ref with
  | blank => rfl
  | row n => rw [Aimed, Aimed, h.clients, h.target]
  | invalid => rfl

theorem SameRows.trans {s'' : State} (h : SameRows s s') (h' : SameRows s' s'') : SameRows s s'' :=
  ⟨h'.clients.trans h.clients, h'.agentRows.trans h.agentRows,
    h'.controllerRows.trans h.controllerRows, h'.target.trans h.target⟩

theorem get_of_aimed (h : Aimed s r ref) :
    AgentMtps.getMqttReference s.mqttClients ref = some (clientOf ref) := by
  cases ref with
  | blank => rfl
  | row n =>
    obtain ⟨client, hclient, hinst, -⟩ := h
    have hn : n ∈ s.instances := mem_instances_iff.mpr ⟨client, hclient, hinst⟩
    simp [AgentMtps.getMqttReference, State.mqttClients, hn, clientOf]
  | invalid => exact h.elim

/-- Storing an operation changes no slot. -/
theorem store_connectionOf (op : Op) (s : State) (r : RowId) :
    connectionOf (op.store s) r = connectionOf s r := by
  have hrows : connectionOf (op.storeRows s) r = connectionOf s r := by
    cases op <;> cases r <;> rfl
  rw [Op.store]
  split
  · cases r <;> exact hrows
  · exact hrows

theorem store_referenceOf (op : Op) (s : State) (r : RowId) :
    referenceOf (op.store s) r = referenceOf (op.storeRows s) r := by
  rw [Op.store]
  split
  · cases r <;> rfl
  · rfl

theorem referenceOf_store_set (hvalid : op.valid s) (hset : op.reference = some (r, ref)) :
    referenceOf (op.store s) r = some ref := by
  rw [store_referenceOf]
  rw [Op.valid, Bool.and_eq_true] at hvalid
  have hrow := hvalid.1
  cases op with
  | clientAdded n loads => cases hset
  | clientDeleted n => cases hset
  | clientChanged n => cases hset
  | mtpDeleted c i => cases hset
  | agent op =>
    cases op with
    | deleted i => cases hset
    | added i row readable =>
      cases hset
      simp [referenceOf, Op.storeRows, AgentMtps.Op.store]
    | changed i change readable =>
      cases change with
      | reference value =>
        cases hset
        simp only [Op.validRow, AgentMtps.Op.valid, Bool.and_eq_true] at hrow
        obtain ⟨row, hrow⟩ := isSome_iff_exists.mp hrow.1
        simp [referenceOf, Op.storeRows, AgentMtps.Op.store, hrow, AgentMtps.Change.store]
      | _ => cases hset
  | mtpAdded c row reads =>
    cases hset
    simp [referenceOf, Op.storeRows]
  | mtpChanged c i change reads =>
    cases change with
    | reference value =>
      cases hset
      obtain ⟨row, hrow⟩ := isSome_iff_exists.mp hrow
      simp [referenceOf, Op.storeRows, hrow, MtpChange.store]
    | _ => cases hset

theorem referenceOf_store_removed (hremoved : op.removed = some r) :
    referenceOf (op.store s) r = none := by
  rw [store_referenceOf]
  cases op with
  | clientAdded n loads => cases hremoved
  | clientDeleted n => cases hremoved
  | clientChanged n => cases hremoved
  | mtpAdded c row reads => cases hremoved
  | mtpChanged c i change reads => cases hremoved
  | mtpDeleted c i =>
    cases hremoved
    simp [referenceOf, Op.storeRows]
  | agent op =>
    cases op with
    | added i row readable => cases hremoved
    | changed i change readable => cases hremoved
    | deleted i =>
      cases hremoved
      simp [referenceOf, Op.storeRows, AgentMtps.Op.store]

theorem reference_of_update {α β ι : Type} [DecidableEq ι] {f : α → β} {rows : ι → Option α}
    {new : Option α} {i k : ι} (h : k = i → new.map f = (rows i).map f) :
    (Function.update rows i new k).map f = (rows k).map f := by
  by_cases hk : k = i
  · subst hk
    rw [Function.update_self, h rfl]
  · rw [Function.update_of_ne hk]

/-- A row whose Reference the operation does not store keeps it. -/
theorem referenceOf_store_kept (hset : ¬ op.sets r) (hremoved : op.removed ≠ some r) :
    referenceOf (op.store s) r = referenceOf s r := by
  rw [store_referenceOf]
  cases op with
  | clientAdded n loads => cases r <;> rfl
  | clientDeleted n => cases r <;> rfl
  | clientChanged n => rfl
  | agent op =>
    cases r with
    | controller c i => rfl
    | agent k =>
      cases op with
      | added i row readable =>
        exact reference_of_update fun hk => absurd ⟨row.reference, by rw [hk]; rfl⟩ hset
      | deleted i =>
        exact reference_of_update fun hk => absurd (by rw [hk]; rfl) hremoved
      | changed i change readable =>
        apply reference_of_update
        intro hk
        cases change with
        | reference value => exact absurd ⟨value, by rw [hk]; rfl⟩ hset
        | _ =>
          rw [Option.map_map]
          rfl
  | mtpAdded c row reads =>
    cases r with
    | agent k => rfl
    | controller c' i' =>
      apply reference_of_update
      intro hk
      cases hk
      exact absurd ⟨row.mqttReference, rfl⟩ hset
  | mtpDeleted c i =>
    cases r with
    | agent k => rfl
    | controller c' i' =>
      apply reference_of_update
      intro hk
      cases hk
      exact absurd rfl hremoved
  | mtpChanged c i change reads =>
    cases r with
    | agent k => rfl
    | controller c' i' =>
      apply reference_of_update
      intro hk
      cases hk
      cases change with
      | reference value => exact absurd ⟨value, rfl⟩ hset
      | _ =>
        rw [Option.map_map]
        rfl

end Stores

section Steps

variable {s : State} {op : Op} {rest acc : List Op} {r : RowId} {ref : Reference} {n : Nat}

theorem notifyController_sameRows (f : Slots → Option Slots) (s : State) :
    SameRows s (notifyController f s) := by
  obtain ⟨-, hstop⟩ | ⟨slots, -, hdone⟩ := notifyController_spec (f := f) s
  · rw [hstop]
    exact ⟨rfl, rfl, rfl, rfl⟩
  · rw [hdone]
    exact ⟨rfl, rfl, rfl, rfl⟩

theorem notifyMtpChange_sameRows (c i : Nat) (change : MtpChange) (reads : Nat → Param → Bool)
    (s : State) : SameRows s (notifyMtpChange c i change reads s) := by
  cases change with
  | reference value =>
    dsimp only [notifyMtpChange]
    split
    · exact ⟨rfl, rfl, rfl, rfl⟩
    · exact notifyController_sameRows _ s
  | enable value => exact notifyController_sameRows _ s
  | protocol value => exact notifyController_sameRows _ s
  | topic value => exact notifyController_sameRows _ s

/-- Only the deletion of a client changes rows, or adds to the cascaded transaction. -/
theorem notify_sameRows (hclient : ∀ n, op ≠ .clientDeleted n) :
    SameRows s (notify op (s, acc)).1 ∧ (notify op (s, acc)).2 = acc := by
  simp only [notify]
  split
  · exact ⟨⟨rfl, rfl, rfl, rfl⟩, rfl⟩
  · cases op with
    | clientAdded n loads =>
      dsimp only
      split <;> exact ⟨⟨rfl, rfl, rfl, rfl⟩, rfl⟩
    | clientDeleted n => exact absurd rfl (hclient n)
    | clientChanged n => exact ⟨⟨rfl, rfl, rfl, rfl⟩, rfl⟩
    | agent op => exact ⟨⟨rfl, rfl, rfl, rfl⟩, rfl⟩
    | mtpAdded c row reads =>
      dsimp only
      split
      · exact ⟨⟨rfl, rfl, rfl, rfl⟩, rfl⟩
      · exact ⟨notifyController_sameRows _ s, rfl⟩
    | mtpDeleted c i => exact ⟨notifyController_sameRows _ s, rfl⟩
    | mtpChanged c i change reads => exact ⟨notifyMtpChange_sameRows c i change reads s, rfl⟩

/-- A notification puts its own row in order, if no later operation has it. -/
theorem follows_step (hrun : s.stopped = false) (hmeets : op.meets s)
    (hclient : ∀ n, op ≠ .clientDeleted n) (hfollows : Follows (op :: rest) s)
    (hset : ∀ r ref, op.reference = some (r, ref) →
      (∀ op' ∈ rest, ¬ op'.sets r) → referenceOf s r = some ref)
    (hkind : op.reference = none ∨ ∀ n, .clientDeleted n ∉ rest)
    (hremoved : ∀ r, op.removed = some r → referenceOf s r = none) :
    (notify op (s, acc)).1.stopped = true ∨ Follows rest (notify op (s, acc)).1 := by
  have hrows : SameRows s (notify op (s, acc)).1 := (notify_sameRows hclient).1
  by_cases hstop : (notify op (s, acc)).1.stopped = true
  · exact .inl hstop
  right
  intro r ref href
  rw [hrows.referenceOf] at href
  have hstays : op.removed ≠ some r := by
    intro h
    rw [hremoved r h] at href
    cases href
  rcases hfollows r ref href with ⟨haimed, hdone⟩ | ⟨n, rfl, hpending, hconnection⟩
  · refine .inl ⟨hrows.aimed.mpr haimed, ?_⟩
    by_cases hlater : ∃ op' ∈ rest, op'.sets r
    · exact .inr hlater
    by_cases hsets : op.sets r
    · left
      obtain ⟨value, hvalue⟩ := hsets
      have hrow := hset r value hvalue fun op' hop' h => hlater ⟨op', hop', h⟩
      obtain rfl : value = ref := Option.some.inj (hrow.symm.trans href)
      exact (connectionOf_set hrun hmeets hvalue hrow (get_of_aimed haimed)).resolve_left hstop
    · left
      rw [connectionOf_kept hrun hmeets hclient hsets hstays]
      refine hdone.resolve_right ?_
      rintro ⟨op', hop', hsets'⟩
      rcases List.mem_cons.mp hop' with rfl | hop'
      · exact hsets hsets'
      · exact hlater ⟨op', hop', hsets'⟩
  · have hpending' : .clientDeleted n ∈ rest := by
      rcases List.mem_cons.mp hpending with h | h
      · exact absurd h.symm (hclient n)
      · exact h
    have hsets : ¬ op.sets r := by
      rintro ⟨value, hvalue⟩
      rcases hkind with h | h
      · rw [h] at hvalue
        cases hvalue
      · exact h n hpending'
    refine .inr ⟨n, rfl, hpending', ?_⟩
    rw [connectionOf_kept hrun hmeets hclient hsets hstays, hconnection]

/-- A Set that empties the Reference of a row. -/
def Empties (op : Op) (r : RowId) : Prop :=
  (∃ i, r = .agent i ∧ op = .agent (.changed i (.reference .blank) true)) ∨
    ∃ c i, r = .controller c i ∧ op = .mtpChanged c i (.reference .blank) fun _ _ => true

theorem Empties.reference (h : Empties op r) : op.reference = some (r, .blank) := by
  rcases h with ⟨i, rfl, rfl⟩ | ⟨c, i, rfl, rfl⟩ <;> rfl

theorem Empties.removed (h : Empties op r) : op.removed = none := by
  rcases h with ⟨i, rfl, rfl⟩ | ⟨c, i, rfl, rfl⟩ <;> rfl

theorem Empties.valid (h : Empties op r) : op.valid s ↔ (referenceOf s r).isSome := by
  rcases h with ⟨i, rfl, rfl⟩ | ⟨c, i, rfl, rfl⟩ <;>
    simp [Op.valid, Op.validRow, Op.reference, AgentMtps.Op.valid, AgentMtps.Change.valid,
      AgentMtps.getMqttReference, referenceOf]

theorem Empties.store (h : Empties op r) :
    (op.store s).clients = s.clients ∧ (op.store s).target = s.target ∧
      (op.store s).stopped = s.stopped := by
  rcases h with ⟨i, rfl, rfl⟩ | ⟨c, i, rfl, rfl⟩ <;> exact ⟨rfl, rfl, rfl⟩

/-- What a list of such Sets leaves: it empties rows, each with a Set to come, and changes no
slot. -/
structure Emptied (ops : List Op) (x x' : State × List Op) : Prop where
  clients : x'.1.clients = x.1.clients
  target : x'.1.target = x.1.target
  stopped : x'.1.stopped = x.1.stopped
  connection : ∀ r, connectionOf x'.1 r = connectionOf x.1 r
  kept : ∀ op ∈ x.2, op ∈ x'.2
  row : ∀ r, referenceOf x'.1 r = referenceOf x.1 r ∨
    referenceOf x'.1 r = some .blank ∧ (referenceOf x.1 r).isSome ∧ ∃ op ∈ x'.2, op.sets r
  emptied : ∀ op ∈ ops, ∀ r, Empties op r → (referenceOf x.1 r).isSome →
    referenceOf x'.1 r = some .blank ∧ ∃ op ∈ x'.2, op.sets r
  new : ∀ op ∈ x'.2, op ∈ x.2 ∨ op ∈ ops ∧ ∃ r, Empties op r ∧ referenceOf x'.1 r = some .blank ∧
    (referenceOf x.1 r).isSome

theorem emptied_one {x : State × List Op} (h : Empties op r) :
    Emptied [op] x (setParameterValue op x) := by
  obtain ⟨hclients, htarget, hstopped⟩ := h.store (s := x.1)
  have hunique : ∀ r', Empties op r' → r' = r := by
    intro r' h'
    have heq := h'.reference.symm.trans h.reference
    cases heq
    rfl
  rw [setParameterValue]
  by_cases hvalid : op.valid x.1
  · rw [if_pos hvalid]
    have hsome : (referenceOf x.1 r).isSome := h.valid.mp hvalid
    have hblank : referenceOf (op.store x.1) r = some .blank :=
      referenceOf_store_set hvalid h.reference
    have hnew : ∃ op' ∈ x.2 ++ [op], op'.sets r := ⟨op, by simp, .blank, h.reference⟩
    refine ⟨hclients, htarget, hstopped, store_connectionOf op x.1,
      fun op' => mem_append_left _, ?_, ?_, ?_⟩
    · intro r'
      by_cases hr : r' = r
      · subst hr
        exact .inr ⟨hblank, hsome, hnew⟩
      · left
        apply referenceOf_store_kept
        · rintro ⟨value, hvalue⟩
          rw [h.reference] at hvalue
          cases hvalue
          exact hr rfl
        · rw [h.removed]
          exact nofun
    · intro op' hop' r' h' _
      obtain rfl := List.mem_singleton.mp hop'
      obtain rfl := hunique r' h'
      exact ⟨hblank, hnew⟩
    · intro op' hop'
      rcases List.mem_append.mp hop' with hold | hop'
      · exact .inl hold
      · obtain rfl := List.mem_singleton.mp hop'
        exact .inr ⟨mem_singleton_self _, r, h, hblank, hsome⟩
  · rw [if_neg hvalid]
    refine ⟨rfl, rfl, rfl, fun _ => rfl, fun _ h => h, fun _ => .inl rfl, ?_, fun _ => .inl⟩
    intro op' hop' r' h' hsome
    obtain rfl := List.mem_singleton.mp hop'
    exact absurd (h'.valid.mpr hsome) hvalid

theorem Emptied.trans {ops : List Op} {x y z : State × List Op} (h : Emptied [op] x y)
    (h' : Emptied ops y z) : Emptied (op :: ops) x z := by
  have hsome : ∀ r, (referenceOf y.1 r).isSome ↔ (referenceOf x.1 r).isSome := by
    intro r
    rcases h.row r with hr | ⟨hr, hx, -⟩
    · rw [hr]
    · simp [hr, hx]
  have hblank : ∀ r, referenceOf y.1 r = some .blank → referenceOf z.1 r = some .blank := by
    intro r hr
    rcases h'.row r with hz | ⟨hz, -⟩
    · rw [hz, hr]
    · exact hz
  have hkept : ∀ r, (∃ op ∈ y.2, op.sets r) → ∃ op ∈ z.2, op.sets r := by
    rintro r ⟨op, hop, hsets⟩
    exact ⟨op, h'.kept op hop, hsets⟩
  refine ⟨h'.clients.trans h.clients, h'.target.trans h.target, h'.stopped.trans h.stopped,
    fun r => (h'.connection r).trans (h.connection r), fun op hop => h'.kept op (h.kept op hop),
    ?_, ?_, ?_⟩
  · intro r
    rcases h'.row r with hz | ⟨hz, hy, hset⟩
    · rcases h.row r with hr | ⟨hr, hx, hset⟩
      · exact .inl (hz.trans hr)
      · exact .inr ⟨hz.trans hr, hx, hkept r hset⟩
    · exact .inr ⟨hz, (hsome r).mp hy, hset⟩
  · intro op' hop' r hr hx
    rcases List.mem_cons.mp hop' with rfl | hop'
    · obtain ⟨hy, hset⟩ := h.emptied op' (mem_singleton_self _) r hr hx
      exact ⟨hblank r hy, hkept r hset⟩
    · exact h'.emptied op' hop' r hr ((hsome r).mpr hx)
  · intro op' hop'
    rcases h'.new op' hop' with hy | ⟨hops, r, hr, hz, hy⟩
    · rcases h.new op' hy with hx | ⟨hone, r, hr, hy, hx⟩
      · exact .inl hx
      · obtain rfl := List.mem_singleton.mp hone
        exact .inr ⟨mem_cons_self, r, hr, hblank r hy, hx⟩
    · exact .inr ⟨mem_cons_of_mem _ hops, r, hr, hz, (hsome r).mp hy⟩

theorem emptied_fold (ops : List Op) {x : State × List Op} (h : ∀ op ∈ ops, ∃ r, Empties op r) :
    Emptied ops x (ops.foldl (fun x op => setParameterValue op x) x) := by
  induction ops generalizing x with
  | nil =>
    exact ⟨rfl, rfl, rfl, fun _ => rfl, fun _ h => h, fun _ => .inl rfl,
      fun _ hop => absurd hop not_mem_nil, fun _ => .inl⟩
  | cons op ops ih =>
    obtain ⟨r, hr⟩ := h op mem_cons_self
    exact (emptied_one hr).trans (ih fun op' hop' => h op' (mem_cons_of_mem _ hop'))

theorem mem_agentUnpicks {slots : AgentMtps.Slots} : op ∈ agentUnpicks n slots ↔
    ∃ mtp ∈ slots.reduceOption, (mtp.protocol = .mqtt ∧ mtp.mqttConnectionInstance = some n) ∧
      .agent (.changed mtp.inst (.reference .blank) true) = op := by
  simp [agentUnpicks, mem_filterMap, and_assoc]

theorem mem_controllerUnpicks {slots : Slots} : op ∈ controllerUnpicks n slots ↔
    ∃ cont ∈ slots.reduceOption, ∃ mtp ∈ cont.mtps.reduceOption,
      (mtp.protocol = .mqtt ∧ mtp.mqttConnectionInstance = some n) ∧
        .mtpChanged cont.inst mtp.inst (.reference .blank) (fun _ _ => true) = op := by
  simp [controllerUnpicks, mem_flatMap, mem_filterMap, and_assoc]

theorem empties_of_unpicks
    (hop : op ∈ controllerUnpicks n s.controllers ++ agentUnpicks n s.agentMtps) :
    ∃ r, Empties op r := by
  rcases List.mem_append.mp hop with hop | hop
  · obtain ⟨cont, -, mtp, -, -, rfl⟩ := mem_controllerUnpicks.mp hop
    exact ⟨_, .inr ⟨_, _, rfl, rfl⟩⟩
  · obtain ⟨mtp, -, -, rfl⟩ := mem_agentUnpicks.mp hop
    exact ⟨_, .inl ⟨_, rfl, rfl⟩⟩

/-- No row of a controller has the client cached. -/
theorem controller_of_unpicks (h : unpicks s n) {cont : Controller} {mtp : Mtp}
    (hcont : cont ∈ s.controllers.reduceOption) (hmtp : mtp ∈ cont.mtps.reduceOption)
    (hclient : mtp.mqttConnectionInstance = some n) :
    referenceOf s (.controller cont.inst mtp.inst) = none := by
  rw [unpicks, Bool.and_eq_true] at h
  have hall := List.all_eq_true.mp (List.all_eq_true.mp h.2 cont hcont) mtp hmtp
  simpa [referenceOf, hclient] using hall

theorem agent_of_unpicks (h : unpicks s n) {mtp : AgentMtps.AgentMtp}
    (hmtp : mtp ∈ s.agentMtps.reduceOption) (hclient : mtp.mqttConnectionInstance = some n)
    (hrow : (referenceOf s (.agent mtp.inst)).isSome) :
    mtp.protocol = .mqtt ∧ n ∈ s.mqttClientParams := by
  rw [unpicks, Bool.and_eq_true] at h
  have hall := List.all_eq_true.mp h.1 mtp hmtp
  have hsome : s.agentRows mtp.inst ≠ none := by
    rw [referenceOf, isSome_map] at hrow
    intro hnone
    rw [hnone] at hrow
    cases hrow
  simpa [hclient, hsome] using hall

theorem cached_of_unpicks (hunpicks : unpicks s n) (hrow : (referenceOf s r).isSome)
    (hconnection : connectionOf s r = some (some n)) : n ∈ s.mqttClientParams := by
  cases r with
  | agent i =>
    obtain ⟨mtp, hfind, hclient⟩ := map_eq_some_iff.mp hconnection
    obtain rfl : mtp.inst = i := key_of_find hfind
    exact (agent_of_unpicks hunpicks (mem_of_find hfind) hclient hrow).2
  | controller c i =>
    obtain ⟨cont, hcont, hmtp⟩ := bind_eq_some_iff.mp hconnection
    obtain ⟨mtp, hfind, hclient⟩ := map_eq_some_iff.mp hmtp
    have hnone := controller_of_unpicks hunpicks (mem_of_find hcont) (mem_of_find hfind) hclient
    rw [key_of_find hcont, key_of_find hfind] at hnone
    rw [hnone] at hrow
    cases hrow

section

variable {x' : State × List Op} (hunpicks : unpicks s n)
  (hemptied : Emptied (controllerUnpicks n s.controllers ++ agentUnpicks n s.agentMtps) (s, acc) x')
include hunpicks hemptied

/-- A row that has the client cached is emptied, and its Set is still to come. -/
theorem emptied_of_connection (hrow : (referenceOf s r).isSome)
    (hconnection : connectionOf s r = some (some n)) :
    referenceOf x'.1 r = some .blank ∧ ∃ op ∈ x'.2, op.sets r := by
  cases r with
  | agent i =>
    obtain ⟨mtp, hfind, hclient⟩ := map_eq_some_iff.mp hconnection
    have hmem := mem_of_find hfind
    obtain rfl : mtp.inst = i := key_of_find hfind
    have hmqtt := (agent_of_unpicks hunpicks hmem hclient hrow).1
    have hop : .agent (.changed mtp.inst (.reference .blank) true) ∈ agentUnpicks n s.agentMtps :=
      mem_agentUnpicks.mpr ⟨mtp, hmem, ⟨hmqtt, hclient⟩, rfl⟩
    exact hemptied.emptied _ (mem_append_right _ hop) _ (.inl ⟨_, rfl, rfl⟩) hrow
  | controller c i =>
    obtain ⟨cont, hcont, hmtp⟩ := bind_eq_some_iff.mp hconnection
    obtain ⟨mtp, hfind, hclient⟩ := map_eq_some_iff.mp hmtp
    have hnone := controller_of_unpicks hunpicks (mem_of_find hcont) (mem_of_find hfind) hclient
    rw [key_of_find hcont, key_of_find hfind] at hnone
    rw [hnone] at hrow
    cases hrow

/-- The cascaded transaction empties the references of agent MTPs. -/
def Unpicks (x : State × List Op) : Prop := ∀ op ∈ x.2, ∃ i,
  op = .agent (.changed i (.reference .blank) true) ∧ referenceOf x.1 (.agent i) = some .blank

structure Unpicking (rest : List Op) (x : State × List Op) : Prop where
  running : x.1.stopped = false
  once : x.1.instances.Nodup
  follows : Follows (rest ++ x.2) x.1
  gone : ∀ op ∈ rest, ∀ r, op.removed = some r → referenceOf x.1 r = none
  cascade : Unpicks x

/-- What is in order stays so while rows are emptied, and what named the client is emptied. -/
theorem follows_emptied (hfollows : Follows (.clientDeleted n :: rest ++ acc) s) :
    Follows (rest ++ x'.2) x'.1 := by
  have hpending : ∀ op ∈ .clientDeleted n :: rest ++ acc, op ≠ .clientDeleted n →
      op ∈ rest ++ x'.2 := by
    intro op hop hne
    rcases List.mem_append.mp hop with hop | hop
    · rcases List.mem_cons.mp hop with h | hop
      · exact absurd h hne
      · exact mem_append_left _ hop
    · exact mem_append_right _ (hemptied.kept op hop)
  intro r ref href
  rcases hemptied.row r with hsame | ⟨hblank, -, op, hop, hsets⟩
  · rw [hsame] at href
    rcases hfollows r ref href with ⟨haimed, hdone⟩ | ⟨m, rfl, hdeleted, hconnection⟩
    · have haimed' : Aimed x'.1 r ref := by
        cases ref with
        | blank => trivial
        | row m =>
          rw [Aimed, hemptied.clients, hemptied.target]
          exact haimed
        | invalid => exact haimed
      refine .inl ⟨haimed', ?_⟩
      rw [hemptied.connection]
      refine hdone.imp_right ?_
      rintro ⟨op, hop, hsets⟩
      refine ⟨op, hpending op hop ?_, hsets⟩
      rintro rfl
      obtain ⟨value, hvalue⟩ := hsets
      cases hvalue
    · by_cases hm : m = n
      · subst hm
        have hblank := (emptied_of_connection hunpicks hemptied (by rw [href]; rfl) hconnection).1
        rw [hsame, href] at hblank
        cases hblank
      · refine .inr ⟨m, rfl, hpending _ hdeleted ?_, by rw [hemptied.connection, hconnection]⟩
        intro h
        cases h
        exact hm rfl
  · rw [hblank] at href
    obtain rfl := Option.some.inj href
    exact .inl ⟨trivial, .inr ⟨op, mem_append_right _ hop, hsets⟩⟩

theorem cascade_emptied (hcascade : Unpicks (s, acc)) : Unpicks x' := by
  intro op hop
  rcases hemptied.new op hop with hold | ⟨hops, r, hr, hblank, hsome⟩
  · obtain ⟨i, rfl, hi⟩ := hcascade op hold
    refine ⟨i, rfl, ?_⟩
    rcases hemptied.row (.agent i) with h | ⟨h, -⟩
    · exact h.trans hi
    · exact h
  · rcases List.mem_append.mp hops with hops | hops
    · obtain ⟨cont, hcont, mtp, hmtp, ⟨-, hclient⟩, rfl⟩ := mem_controllerUnpicks.mp hops
      have hnone := controller_of_unpicks hunpicks hcont hmtp hclient
      have heq := hr.reference
      cases heq
      rw [hnone] at hsome
      cases hsome
    · obtain ⟨mtp, -, -, rfl⟩ := mem_agentUnpicks.mp hops
      have heq := hr.reference
      cases heq
      exact ⟨mtp.inst, rfl, hblank⟩

end

theorem once_emptied {ops : List Op} {x x' : State × List Op} (h : Emptied ops x x')
    (honce : x.1.instances.Nodup) : x'.1.instances.Nodup := by
  rw [State.instances, h.clients]
  exact honce

theorem unpicking_clientDeleted (h : Unpicking (.clientDeleted n :: rest) (s, acc))
    (hmeets : unpicks s n) : Unpicking rest (notify (.clientDeleted n) (s, acc)) := by
  have hrunning : s.stopped = false := h.running
  have hgone : ∀ op ∈ rest, ∀ r, op.removed = some r → referenceOf s r = none :=
    fun op hop => h.gone op (mem_cons_of_mem _ hop)
  have hnotify : notify (.clientDeleted n) (s, acc) = notifyMqttClientDeleted n (s, acc) :=
    if_neg (by simp [hrunning])
  rw [hnotify, notifyMqttClientDeleted]
  split
  · have hfold := emptied_fold (controllerUnpicks n s.controllers ++ agentUnpicks n s.agentMtps)
      (x := ({ s with mqttClientParams := s.mqttClientParams.erase n }, acc))
      fun op hop => empties_of_unpicks hop
    have hemptied : Emptied (controllerUnpicks n s.controllers ++ agentUnpicks n s.agentMtps)
        (s, acc) ((controllerUnpicks n s.controllers ++ agentUnpicks n s.agentMtps).foldl
          (fun x op => setParameterValue op x)
          ({ s with mqttClientParams := s.mqttClientParams.erase n }, acc)) :=
      ⟨hfold.clients, hfold.target, hfold.stopped, hfold.connection, hfold.kept, hfold.row,
        hfold.emptied, hfold.new⟩
    refine ⟨hemptied.stopped.trans hrunning, once_emptied hemptied h.once,
      follows_emptied hmeets hemptied h.follows, ?_,
      cascade_emptied hmeets hemptied h.cascade⟩
    intro op hop r hr
    rcases hemptied.row r with hsame | ⟨-, hsome, -⟩
    · rw [hsame, hgone op hop r hr]
    · simp [hgone op hop r hr] at hsome
  · rename_i hnot
    refine ⟨hrunning, h.once, ?_, hgone, h.cascade⟩
    intro r ref href
    rcases h.follows r ref href with ⟨haimed, hdone⟩ | ⟨m, rfl, hdeleted, hconnection⟩
    · refine .inl ⟨haimed, hdone.imp_right ?_⟩
      rintro ⟨op, hop, hsets⟩
      refine ⟨op, (List.mem_cons.mp hop).resolve_left ?_, hsets⟩
      rintro rfl
      obtain ⟨value, hvalue⟩ := hsets
      cases hvalue
    · refine .inr ⟨m, rfl, (List.mem_cons.mp hdeleted).resolve_left ?_, hconnection⟩
      intro hm
      cases hm
      exact hnot (cached_of_unpicks hmeets (by rw [href]; rfl) hconnection)

end Steps

end MqttReferences
