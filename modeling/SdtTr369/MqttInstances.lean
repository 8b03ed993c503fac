import SdtTr369.MqttRequests

/-!
# Which MQTT client a slot is for

In any run of the two threads a slot that is not in use is idle, the parameters to use
next are for the instance of the slot, at most one slot is for an instance, and the slot
whose callbacks are served stays in use.
-/

namespace MqttInstances

open MqttClient MqttCallbacks MqttThread MqttFlags MqttRequestSlot MqttRequests

/-! ## The flags of one slot -/

structure SlotOk (f : Flags) : Prop where
  unused : f.inst = invalid → f.state = .idle ∧ f.scheduleReconnect = .off
  nextInst : f.nextInst = f.inst

/-- The slot is for the instance that it was for. -/
structure Stays (f f' : Flags) : Prop where
  inst : f'.inst = f.inst
  nextInst : f'.nextInst = f.inst

namespace Stays

variable {f f' f'' : Flags}

theorem refl (h : SlotOk f) : Stays f f := ⟨rfl, h.nextInst⟩

theorem trans (h : Stays f f') (h' : Stays f' f'') : Stays f f'' :=
  ⟨h'.inst.trans h.inst, h'.nextInst.trans h.inst⟩

theorem slotOk (h : Stays f f') (hused : f.inst ≠ invalid) : SlotOk f' :=
  ⟨fun hinst => absurd (h.inst.symm.trans hinst) hused, h.nextInst.trans h.inst.symm⟩

theorem takeNext (h : SlotOk f) : Stays f f.takeNext := ⟨h.nextInst, h.nextInst⟩

theorem enable (h : SlotOk f) (success : Bool) : Stays f (f.enable success) := ⟨rfl, h.nextInst⟩

theorem takeNextEnable (h : SlotOk f) (success : Bool) : Stays f (f.takeNext.enable success) :=
  ⟨h.nextInst, h.nextInst⟩

theorem retryAtOnce (h : SlotOk f) : Stays f f.retryAtOnce := by
  unfold Flags.retryAtOnce
  split
  · exact takeNext h
  · exact refl h

theorem of_retries (h : SlotOk f) (hretries : Retries f f') : Stays f f' := by
  rcases hretries with rfl | rfl
  · exact refl h
  · exact ⟨rfl, h.nextInst⟩

theorem error (h : SlotOk f) (success : Bool) : Stays f (f.error success) := by
  unfold Flags.error Flags.afterDisconnect
  split
  · next hreconnect =>
    rw [if_pos hreconnect.2]
    exact ⟨h.nextInst, h.nextInst⟩
  · exact ⟨rfl, h.nextInst⟩

theorem reconnect (h : SlotOk f) (socket success : Bool) :
    Stays f (f.reconnect socket success) := by
  unfold Flags.reconnect
  split
  case h_1 | h_2 => exact takeNextEnable h success
  case h_3 => exact ⟨rfl, h.nextInst⟩
  all_goals
    split
    · exact ⟨rfl, h.nextInst⟩
    · exact takeNextEnable h success

end Stays

variable {f : Flags}

theorem slotOk_clean (f : Flags) : SlotOk (f.clean false) := ⟨fun _ => ⟨rfl, rfl⟩, rfl⟩

theorem SlotOk.afterDisconnect (h : SlotOk f) (hused : f.inst ≠ invalid) (success : Bool) :
    SlotOk (f.afterDisconnect success) := by
  have hstays : f.isReconnect = true → Stays f (f.afterDisconnect success) := by
    intro hreconnect
    unfold Flags.afterDisconnect
    rw [if_pos hreconnect]
    exact ⟨h.nextInst, h.nextInst⟩
  by_cases hreconnect : f.isReconnect = true
  · exact (hstays hreconnect).slotOk hused
  · unfold Flags.afterDisconnect
    rw [if_neg hreconnect]
    exact slotOk_clean f

theorem SlotOk.close (h : SlotOk f) (socket queueEmpty : Bool) :
    SlotOk (f.close socket queueEmpty) := by
  have hused : f.state ≠ .idle → f.inst ≠ invalid := fun hstate hinst =>
    hstate (h.unused hinst).1
  unfold Flags.close
  split
  case h_1 hstate =>
    have hstays : Stays f { f with isReconnect := false } := ⟨rfl, h.nextInst⟩
    exact hstays.slotOk (hused (by simp [hstate]))
  case h_2 | h_3 | h_4 => exact slotOk_clean f
  all_goals
    next hstate =>
    split
    · have hstays : Stays f (Flags.disconnect { f with isReconnect := false } socket) := by
        cases socket <;> exact ⟨rfl, h.nextInst⟩
      exact hstays.slotOk (hused (by simp [hstate]))
    · exact h

theorem SlotOk.disconnected (h : SlotOk f) (success : Bool) : SlotOk (f.disconnected success) := by
  have hused : f.state ≠ .idle → f.inst ≠ invalid := fun hstate hinst =>
    hstate (h.unused hinst).1
  unfold Flags.disconnected
  split
  case h_1 | h_2 => exact h
  case h_3 hstate => exact h.afterDisconnect (hused (by simp [hstate])) success
  all_goals
    next hstate => exact (Stays.error h success).slotOk (hused (by simp [hstate]))

theorem SlotOk.activate (h : SlotOk f) : SlotOk f.activate ∧ Stays f f.activate := by
  have hreconnect : f.activateReconnect.scheduleReconnect = .off ∨
      f.scheduleReconnect ≠ .off := by
    unfold Flags.activateReconnect
    split
    · next hsignalled => exact .inr (by simp [hsignalled])
    · exact or_not
  have hstays : Stays f f.activate := by
    dsimp only [Flags.activate, Flags.activateReconnect]
    split <;> split <;> exact ⟨rfl, h.nextInst⟩
  have hsame : f.activate.state = f.state ∧
      f.activate.scheduleReconnect = f.activateReconnect.scheduleReconnect := by
    dsimp only [Flags.activate, Flags.activateReconnect]
    split <;> split <;> exact ⟨rfl, rfl⟩
  refine ⟨⟨fun hinst => ?_, hstays.nextInst.trans hstays.inst.symm⟩, hstays⟩
  obtain ⟨hidle, hoff⟩ := h.unused (hstays.inst.symm.trans hinst)
  exact ⟨hsame.1.trans hidle, hsame.2.trans (hreconnect.resolve_right (absurd hoff))⟩

/-! ## One operation -/

/-- The operation is for a client in use. -/
def Served (c : Client) : SlotOp → Prop
  | .callback _ (.certVerify _) => True
  | .updateSockSet _ | .connectStart _ | .connectDone .. | .callback .. =>
    c.connParams.inst ≠ invalid
  | _ => True

/-- The operation may give the slot up. -/
def GivesUp : SlotOp → Prop
  | .close _ | .disconnected _ => True
  | _ => False

/-- What an operation does to the instance number of a slot. -/
inductive InstStep (c c' : Client) (op : SlotOp) : Prop
  | same (h : c'.connParams.inst = c.connParams.inst)
  | givenUp (hop : GivesUp op) (h : c'.connParams.inst = invalid)
  | taken (hc : c.connParams.inst = invalid)
      (h : ∃ A p subs, op = .enableClient A p subs ∧ c'.connParams.inst = p.inst)

variable {op : SlotOp} {c : Client}

theorem slotOk_apply {c' : Client} (h : SlotOk (view c)) (hfits : Fits c op)
    (hserved : Served c op) (happly : op.apply c = some c') :
    SlotOk (view c') ∧ InstStep c c' op := by
  have hstep := flagStep_apply happly
  have hstays : Stays (view c) (view c') → (view c).inst ≠ invalid →
      SlotOk (view c') ∧ InstStep c c' op :=
    fun hstays hused => ⟨hstays.slotOk hused, .same hstays.inst⟩
  have hview : view c' = view c → SlotOk (view c') ∧ InstStep c c' op :=
    fun hsame => ⟨hsame ▸ h, .same (congrArg Flags.inst hsame)⟩
  cases op
  case enableClient A p subs =>
    rcases hstep with ⟨hsame, -⟩ | ⟨hsame, -, hidle, -⟩ | ⟨hsame, -, -, -⟩
    · exact hview hsame
    · have hused : c.connParams.inst ≠ invalid := fun hinst => hidle (h.unused hinst).1
      have hinst : c.connParams.inst = p.inst := hfits.2.resolve_right hused
      rw [← hinst] at hsame
      exact hview hsame
    · have hinst : c'.connParams.inst = p.inst ∧ c'.nextParams.inst = p.inst := by
        change (view c').inst = p.inst ∧ (view c').nextInst = p.inst
        rw [hsame]
        dsimp only [Flags.enableClient]
        split
        · split <;> exact ⟨rfl, rfl⟩
        · exact ⟨rfl, rfl⟩
      refine ⟨⟨fun hunused => ?_, hinst.2.trans hinst.1.symm⟩, ?_⟩
      · exact absurd (hinst.1.symm.trans hunused) hfits.1
      · rcases hfits.2 with hslot | hunused
        · exact .same (hinst.1.trans hslot.symm)
        · exact .taken hunused ⟨A, p, subs, rfl, hinst.1⟩
  case disableClient => exact hstays (hstep ▸ ⟨rfl, h.nextInst⟩) hfits
  case scheduleReconnect p => exact hstays (hstep ▸ ⟨rfl, rfl⟩) hfits
  case activateScheduledActions =>
    obtain ⟨hok, hactivate⟩ := h.activate
    have hsame : view c' = (view c).activate := hstep
    exact ⟨hsame ▸ hok, .same ((congrArg Flags.inst hsame).trans hactivate.inst)⟩
  case updateSockSet A =>
    have hretry := Stays.retryAtOnce h
    have hretryOk : SlotOk (view c).retryAtOnce := hretry.slotOk hserved
    rcases hstep with hsame | ⟨-, ⟨-, hsame⟩ | hretries⟩
    · exact hview hsame
    · exact hstays (hsame ▸ hretry.trans (Stays.enable hretryOk _)) hserved
    · exact hstays (hretry.trans (Stays.of_retries hretryOk hretries)) hserved
  case connectStart A =>
    obtain ⟨-, ⟨-, hsame⟩ | hretries⟩ := hstep
    · exact hstays (hsame ▸ ⟨rfl, h.nextInst⟩) hserved
    · exact hstays (Stays.of_retries h hretries) hserved
  case connectDone A success =>
    dsimp only [FlagStep] at hstep
    split at hstep
    · exact hstays (hstep ▸ ⟨rfl, h.nextInst⟩) hserved
    · exact hstays (hstep ▸ Stays.error h _) hserved
  case callback A cb =>
    rcases hstep with hsame | ⟨hhandles, hcases⟩
    · exact hview hsame
    · have hused : c.connParams.inst ≠ invalid := by
        cases cb
        case certVerify => cases hhandles
        all_goals exact hserved
      rcases hcases with hsame | ⟨-, hretries⟩
      · exact hstays (hsame ▸ Stays.error h _) hused
      · have hup : Stays (view c) { view c with state := .running } := ⟨rfl, h.nextInst⟩
        exact hstays (hup.trans (Stays.of_retries (hup.slotOk hused) hretries)) hused
  case reconnect A =>
    dsimp only [FlagStep] at hstep
    split at hstep
    · next hactivated =>
      have hused : c.connParams.inst ≠ invalid := by
        intro hinst
        have hoff : c.scheduleReconnect = .off := (h.unused hinst).2
        rw [hactivated.1] at hoff
        cases hoff
      exact hstays (hstep ▸ Stays.reconnect h _ _) hused
    · exact hview hstep
  case close A =>
    dsimp only [FlagStep] at hstep
    split at hstep
    · refine ⟨hstep ▸ h.close _ _, ?_⟩
      have hinst := (SameRequest.close (view c) (socketOpen A c) (c.queue = [])).inst
      rw [← hstep] at hinst
      exact hinst.elim .same (.givenUp trivial)
    · exact hview hstep
  case disconnected A =>
    dsimp only [FlagStep] at hstep
    split at hstep
    · refine ⟨hstep ▸ h.disconnected _, ?_⟩
      have hinst := (SameRequest.disconnected h.nextInst (enables A)).inst
      rw [← hstep] at hinst
      exact hinst.elim .same (.givenUp trivial)
    · exact hview hstep
  all_goals exact hview hstep

/-! ## One step -/

structure InstancesOk (m : Mqtt) : Prop where
  slots : ∀ c ∈ m.clients, SlotOk (view c)
  distinct : Distinct m
  connecting : Connecting m
  serving : ∀ j, m.pc = .callbacks j → inUse j m

section Step

variable {m m' : Mqtt} {i : Step}

variable {j k : Nat}

theorem inUse_iff : inUse j m ↔ ∃ c, m.clients[j]? = some c ∧ c.connParams.inst ≠ invalid := by
  simp [inUse, Option.any_eq_true]

theorem inUse_connecting (h : InstancesOk m) (hpc : m.pc = .connecting j) : inUse j m := by
  obtain ⟨c, hc, hstate⟩ := h.connecting j hpc
  refine inUse_iff.mpr ⟨c, hc, fun hinst => ?_⟩
  have hidle : c.state = .idle := ((h.slots c (List.mem_of_getElem? hc)).unused hinst).1
  rw [hidle] at hstate
  cases hstate

/-- A callback other than that of a certificate finds a client in use. -/
theorem served_of_onCallback {A : Answers} {cb : Callback} (hused : inUse j m)
    (hop : (k, op) ∈ onCallback A j cb m) (hk : m.clients[k]? = some c) : Served c op := by
  obtain ⟨d, hd, hdinst⟩ := inUse_iff.mp hused
  have hinst : callbackInstance j m = d.connParams.inst := by simp [callbackInstance, hd]
  rw [mem_onCallback hop]
  cases cb
  case certVerify => trivial
  all_goals
    change c.connParams.inst ≠ invalid
    rw [findMqttClientByInstance_some (mem_onClient hop).2 hk, hinst]
    exact hdinst

theorem served_of_acts (h : InstancesOk m) (hop : (k, op) ∈ acts m i)
    (hk : m.clients[k]? = some c) : Served c op := by
  have hslot : inUse k m → c.connParams.inst ≠ invalid := by
    intro hused
    obtain ⟨d, hd, hdinst⟩ := inUse_iff.mp hused
    rw [hk, Option.some.injEq] at hd
    exact hd ▸ hdinst
  have hkind := slotOp_of_acts hop
  cases i <;> cases hkind
  case update A =>
    cases hpc : m.pc with
    | update j =>
      simp only [acts, hpc, onSlot] at hop
      split at hop
      · next hused =>
        cases List.mem_singleton.mp hop
        exact hslot hused
      · cases hop
    | _ => simp [acts, hpc] at hop
  case loop A =>
    cases hpc : m.pc with
    | loops j =>
      simp only [acts, hpc] at hop
      split at hop
      · next hsends =>
        cases List.mem_singleton.mp hop
        obtain ⟨d, hd, hsending⟩ := (Option.any_eq_true ..).mp hsends
        rw [hk, Option.some.injEq] at hd
        rw [← hd] at hsending
        exact (of_decide_eq_true hsending).1
      · cases hop
    | _ => simp [acts, hpc] at hop
  case connectDone A success =>
    cases hpc : m.pc with
    | connecting j =>
      simp only [acts, hpc, List.mem_singleton, Prod.mk.injEq, and_true] at hop
      subst hop
      exact hslot (inUse_connecting h hpc)
    | _ => simp [acts, hpc] at hop
  case callback A cb =>
    cases hpc : m.pc with
    | callbacks j =>
      simp only [acts, hpc] at hop
      exact served_of_onCallback (h.serving j hpc) hop hk
    | connecting j =>
      simp only [acts, hpc] at hop
      exact served_of_onCallback (inUse_connecting h hpc) hop hk
    | _ => simp [acts, hpc] at hop
  all_goals trivial

/-- What a step does to one slot. -/
theorem slot_apply (h : InstancesOk m) (hstep : step i m = some m') {c' : Client}
    (hop : (k, op) ∈ acts m i) (hc : m.clients[k]? = some c) (happly : op.apply c = some c') :
    SlotOk (view c') ∧ InstStep c c' op :=
  slotOk_apply (h.slots c (List.mem_of_getElem? hc))
    (fits_of_acts h.connecting (step_eq_some hstep).1 hop hc) (served_of_acts h hop hc) happly

theorem keepsInsts_of_instancesOk (h : InstancesOk m) (hstep : step i m = some m') :
    KeepsInsts m i := by
  intro k op c c' hop hc happly hinst
  cases (slot_apply h hstep hop hc happly).2 with
  | same hsame => exact .inl hsame.symm
  | givenUp _ hgone => exact absurd hgone hinst
  | taken _ htaken => exact .inr htaken

/-- A slot that is in use stays so in a step that does not give slots up. -/
theorem inUse_step (h : InstancesOk m) (hstep : step i m = some m') (hused : inUse k m)
    (hkeeps : ∀ op, slotOp i = some op → ¬ GivesUp op) : inUse k m' := by
  obtain ⟨c, hc, hcinst⟩ := inUse_iff.mp hused
  rcases slot_in_step hstep hc with ⟨hc', -⟩ | ⟨c', op, hc', hop, happly⟩
  · exact inUse_iff.mpr ⟨c, hc', hcinst⟩
  · refine inUse_iff.mpr ⟨c', hc', ?_⟩
    cases (slot_apply h hstep hop hc happly).2 with
    | same hsame => exact hsame ▸ hcinst
    | givenUp hgives _ => exact absurd hgives (hkeeps op (slotOp_of_acts hop))
    | taken hunused _ => exact absurd hunused hcinst

/-- The callbacks of a slot are served after the slot was found in use, or after
`mosquitto_connect`, or go on. -/
theorem nextPc_callbacks (h : nextPc m i = some (.callbacks j)) :
    (∃ A, i = .loop A) ∧ inUse j m ∨
      (m.pc = .connecting j ∨ m.pc = .callbacks j) ∧
        ((∃ A success, i = .connectDone A success) ∨ ∃ A cb, i = .callback A cb) := by
  have hslot : ∀ at_ k, (∀ k', at_ k' ≠ Pc.callbacks j) → nextSlot at_ k ≠ .callbacks j := by
    intro at_ k hat
    unfold nextSlot
    split
    · exact hat _
    · simp
  unfold nextPc at h
  split at h
  case h_2 => exact absurd (Option.some.inj h) (hslot _ _ (by simp))
  case h_4 A k hpc =>
    split at h
    · exact absurd (Option.some.inj h) (hslot _ _ (by simp))
    · next hused =>
      split at h <;> cases h
      exact .inl ⟨⟨A, rfl⟩, by simpa using hused⟩
  case h_5 A success k hpc =>
    cases h
    exact .inr ⟨.inl hpc, .inl ⟨A, success, rfl⟩⟩
  case h_7 A cb k hpc =>
    cases h
    exact .inr ⟨.inr hpc, .inr ⟨A, cb, rfl⟩⟩
  case h_10 => exact absurd (Option.some.inj h) (hslot _ _ (by simp))
  all_goals cases h

theorem serving_step (h : InstancesOk m) (hstep : step i m = some m') (j : Nat)
    (hpc : m'.pc = .callbacks j) : inUse j m' := by
  have hnext := (step_eq_some hstep).2.1
  rw [hpc] at hnext
  rcases nextPc_callbacks hnext with ⟨⟨A, rfl⟩, hused⟩ | ⟨hat, hi⟩
  · exact inUse_step h hstep hused (by rintro op ⟨⟩ ⟨⟩)
  · have hused : inUse j m := hat.elim (inUse_connecting h) (h.serving j)
    refine inUse_step h hstep hused fun op hop => ?_
    rcases hi with ⟨A, success, rfl⟩ | ⟨A, cb, rfl⟩ <;> cases hop <;> exact id

theorem slots_step (h : InstancesOk m) (hstep : step i m = some m') :
    ∀ c ∈ m'.clients, SlotOk (view c) := by
  intro c' hc'
  obtain ⟨k, hk⟩ := List.mem_iff_getElem?.mp hc'
  rcases slot_of_step hstep hk with ⟨hk, -⟩ | ⟨c, op, hc, hop, happly⟩
  · exact h.slots c' (List.mem_of_getElem? hk)
  · exact (slot_apply h hstep hop hc happly).1

theorem instancesOk_step (h : InstancesOk m) (hstep : step i m = some m') : InstancesOk m' where
  slots := slots_step h hstep
  distinct := distinct_step h.distinct (keepsInsts_of_instancesOk h hstep) hstep
  connecting := connecting_step h.connecting hstep
  serving := serving_step h hstep

theorem initMqtt_instancesOk : InstancesOk initMqtt := by
  have hinit : ∀ (k : Nat) (c : Client), initMqtt.clients[k]? = some c →
      c.connParams.inst = invalid := by
    intro k c hc
    rw [mem_initMqtt (List.mem_of_getElem? hc)]
    rfl
  refine ⟨fun c hc => ?_, ?_, ?_, ?_⟩
  · rw [mem_initMqtt hc]
    exact ⟨fun _ => ⟨rfl, rfl⟩, rfl⟩
  · exact fun j k c d hj _ _ hinst => absurd (hinit j c hj) hinst
  · rintro j ⟨⟩
  · rintro j ⟨⟩

end Step

end MqttInstances
