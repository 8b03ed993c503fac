import SdtTr369.MqttRequestSlot

/-!
# No request for an MQTT client is lost

Over every run of the two threads: once no scheduled action of a slot waits, its client
is connected or about to be just where the last of enable and disable was an enable,
and an attempt after an activated reconnect uses the latest parameters. This asks that
no operation clears a request that waits.
-/

namespace MqttRequests

open MqttClient MqttCallbacks MqttThread MqttFlags MqttRequestSlot RunHistory
open List

/-! ## The latest parameters -/

/-- An attempt after an activated reconnect uses the parameters of the latest request. -/
def UsesLatest (before : List Event) (e : Event) : Prop :=
  ∀ args, e = .connect args → (ledger before).activated → (ledger before).latest = some args

theorem served_iff_along (log : List Event) : (ledger log).served ↔ Along UsesLatest log := by
  induction log using List.reverseRecOn with
  | nil => simp [ledger]
  | append_singleton log e ih =>
    rw [along_snoc, ← ih, ledger_append, foldl_cons, foldl_nil]
    cases e
    case connect args =>
      simp [Ledger.after, UsesLatest, or_iff_not_imp_left]
    case cleaned isReconnect => cases isReconnect <;> simp [Ledger.after, UsesLatest]
    all_goals simp [Ledger.after, UsesLatest]

/-! ## Which slot an operation is for -/

variable {inst n : Int} {k : Nat} {c c' : Client} {op : SlotOp}

theorem findMqttClientByInstance_some {clients : List Client}
    (h : findMqttClientByInstance inst clients = some k) (hk : clients[k]? = some c) :
    c.connParams.inst = inst := by
  obtain ⟨hlt, hinst, -⟩ := List.findIdx?_eq_some_iff_getElem.mp h
  rw [getElem?_eq_getElem hlt, Option.some.injEq] at hk
  rw [← hk]
  exact of_decide_eq_true hinst

theorem findMqttClientByInstance_none {clients : List Client}
    (h : findMqttClientByInstance inst clients = none) :
    ∀ c ∈ clients, c.connParams.inst ≠ inst := by
  intro c hc
  exact of_decide_eq_false (List.findIdx?_eq_none_iff.mp h c hc)

/-- An operation of the data model thread, or one that only saves a certificate. -/
def IsRequest : SlotOp → Prop
  | .callback _ (.certVerify _) => True
  | .updateSockSet _ | .connectStart _ | .connectDone _ _ | .callback _ _ | .reconnect _ | .close _
  | .disconnected _ => False
  | _ => True

/-- A client that waits for `mosquitto_connect` is left alone by them. -/
theorem request_sending (hop : IsRequest op) (hstate : c.state = .sendingConnect)
    (h : op.apply c = some c') : c'.state = .sendingConnect := by
  have hstep := flagStep_apply h
  change (view c').state = .sendingConnect
  have hview : (view c).state = .sendingConnect := hstate
  generalize view c' = f' at hstep ⊢
  cases op
  case enableClient A p subs =>
    rcases hstep with ⟨rfl, -⟩ | ⟨rfl, -⟩ | ⟨-, -, -, hidle⟩
    · exact hview
    · exact hview
    · simp [hstate] at hidle
  case activateScheduledActions =>
    cases hstep
    dsimp only [Flags.activate, Flags.activateReconnect]
    split <;> split <;> exact hview
  case callback A cb =>
    cases cb
    case certVerify =>
      rcases hstep with rfl | ⟨hhandles, -⟩
      · exact hview
      · cases hhandles
    all_goals cases hop
  case updateSockSet | connectStart | connectDone | reconnect | close | disconnected => cases hop
  all_goals
    cases hstep
    exact hview

theorem connectStart_sending {A : Answers} (h : (connectStart A c).1) :
    (connectStart A c).2.state = c.state := by
  revert h
  dsimp only [connectStart]
  split
  · exact fun h => by cases h
  split
  · exact fun h => by cases h
  split
  · exact fun h => by cases h
  · exact fun _ => rfl

/-! ## One step -/

/-- While `mosquitto_connect` runs, its client waits for it. -/
def Connecting (m : Mqtt) : Prop :=
  ∀ i, m.pc = .connecting i → ∃ c, m.clients[i]? = some c ∧ c.state = .sendingConnect

structure RequestsOk (m : Mqtt) : Prop where
  flags : ∀ c ∈ m.clients, FlagsOk (view c)
  distinct : ∀ (i j : Nat) (c d : Client), m.clients[i]? = some c → m.clients[j]? = some d →
    c.connParams.inst = d.connParams.inst → c.connParams.inst ≠ invalid → i = j
  connecting : ∀ i, m.pc = .connecting i →
    ∃ c, m.clients[i]? = some c ∧ c.state = .sendingConnect

variable {m m' : Mqtt} {i : Step}

/-- `MQTT_EnableClient` finds the slot of the instance, or else an unused one. -/
theorem mem_acts_enableClient {A : Answers} {p : ConnParams} {subs : List Subscription}
    (h : (k, op) ∈ acts m (.enableClient A p subs)) (hk : m.clients[k]? = some c) :
    c.connParams.inst = p.inst ∨
      c.connParams.inst = invalid ∧ ∀ d ∈ m.clients, d.connParams.inst ≠ p.inst := by
  obtain ⟨k', hk', heq⟩ := List.mem_map.mp h
  cases heq
  rw [Option.mem_toList, Option.or_eq_some_iff] at hk'
  rcases hk' with hfound | ⟨hnone, hunused⟩
  · exact .inl (findMqttClientByInstance_some hfound hk)
  · exact .inr ⟨findMqttClientByInstance_some hunused hk, findMqttClientByInstance_none hnone⟩

theorem mem_acts_disableClient (h : (k, op) ∈ acts m (.disableClient inst))
    (hk : m.clients[k]? = some c) : c.connParams.inst = inst :=
  findMqttClientByInstance_some (mem_onClient h).2 hk

theorem fits_of_acts (hconnecting : Connecting m) (hcalled : Called i) (hop : (k, op) ∈ acts m i)
    (hk : m.clients[k]? = some c) : Fits c op := by
  have hkind := slotOp_of_acts hop
  cases i <;> cases hkind
  case enableClient A p subs => exact ⟨hcalled, (mem_acts_enableClient hop hk).imp_right And.left⟩
  case disableClient inst =>
    change c.connParams.inst ≠ invalid
    rw [mem_acts_disableClient hop hk]
    exact hcalled
  case scheduleReconnect p =>
    change c.connParams.inst ≠ invalid
    rw [findMqttClientByInstance_some (mem_onClient hop).2 hk]
    exact hcalled
  case connectDone A success =>
    cases hpc : m.pc with
    | connecting j =>
      simp only [acts, hpc, mem_singleton, Prod.mk.injEq, and_true] at hop
      subst hop
      obtain ⟨d, hd, hstate⟩ := hconnecting k hpc
      rw [hk, Option.some.injEq] at hd
      rw [hd]
      exact hstate
    | _ => simp [acts, hpc] at hop
  all_goals trivial

theorem flags_step (h : RequestsOk m) (hgentle : OnSlots Gentle m i) (hstep : step i m = some m') :
    ∀ c ∈ m'.clients, FlagsOk (view c) := by
  intro c' hc'
  obtain ⟨k, hk⟩ := mem_iff_getElem?.mp hc'
  rcases slot_of_step hstep hk with ⟨hk, -⟩ | ⟨c, op, hc, hop, happly⟩
  · exact h.flags c' (mem_of_getElem? hk)
  · have hfits := fits_of_acts h.connecting (step_eq_some hstep).1 hop hc
    exact flagsOk_apply (h.flags c (mem_of_getElem? hc)) hfits (hgentle k op c hop hc) happly

/-- A slot that is in use after an operation was for the same instance before, or was
taken for another one. -/
def KeepsInst (c c' : Client) (op : SlotOp) : Prop :=
  c'.connParams.inst ≠ invalid → c.connParams.inst = c'.connParams.inst ∨
    ∃ A p subs, op = .enableClient A p subs ∧ c'.connParams.inst = p.inst

/-- Every operation of the step does so. -/
def KeepsInsts (m : Mqtt) (i : Step) : Prop :=
  ∀ k op c c', (k, op) ∈ acts m i → m.clients[k]? = some c → op.apply c = some c' →
    KeepsInst c c' op

theorem keepsInsts_of_requestsOk (h : RequestsOk m) : KeepsInsts m i := by
  intro k op c c' hop hc happly hinst
  have hrequest := requestStep_apply (h.flags c (mem_of_getElem? hc)) happly
  have hsame : SameRequest (view c) (view c') → c.connParams.inst = c'.connParams.inst :=
    fun hsame => (hsame.inst.resolve_right hinst).symm
  cases op
  case enableClient A p subs =>
    have hp : c'.connParams.inst = c.connParams.inst ∨ c'.connParams.inst = p.inst := hrequest.1
    rcases hp with hp | hp
    · exact .inl hp.symm
    · exact .inr ⟨A, p, subs, rfl, hp⟩
  case disableClient => exact .inl hrequest.1.symm
  all_goals exact .inl (hsame hrequest)

/-- A slot is taken for an instance that has none. -/
theorem inst_of_step (h : KeepsInsts m i) (hstep : step i m = some m')
    (hk : m'.clients[k]? = some c') (hinst : c'.connParams.inst ≠ invalid) :
    (∃ c, m.clients[k]? = some c ∧ c.connParams.inst = c'.connParams.inst) ∨
      ((∀ d ∈ m.clients, d.connParams.inst ≠ c'.connParams.inst) ∧
        k ∈ (acts m i).map Prod.fst ∧ ∃ A p subs, i = .enableClient A p subs) := by
  rcases slot_of_step hstep hk with ⟨hk, -⟩ | ⟨c, op, hc, hop, happly⟩
  · exact .inl ⟨c', hk, rfl⟩
  · rcases h k op c c' hop hc happly hinst with hsame | ⟨A, p, subs, rfl, hp⟩
    · exact .inl ⟨c, hc, hsame⟩
    · have hkind := slotOp_of_acts hop
      cases i <;> cases hkind
      rcases mem_acts_enableClient hop hc with hslot | ⟨-, hnone⟩
      · exact .inl ⟨c, hc, hslot.trans hp.symm⟩
      · exact .inr ⟨hp ▸ hnone, List.mem_map.mpr ⟨_, hop, rfl⟩, A, p, subs, rfl⟩

/-- At most one slot is for an instance. -/
def Distinct (m : Mqtt) : Prop :=
  ∀ (i j : Nat) (c d : Client), m.clients[i]? = some c → m.clients[j]? = some d →
    c.connParams.inst = d.connParams.inst → c.connParams.inst ≠ invalid → i = j

theorem distinct_step (h : Distinct m) (hkeeps : KeepsInsts m i) (hstep : step i m = some m') :
    Distinct m' := by
  intro j k c d hj hk hsame hinst
  have hd : d.connParams.inst ≠ invalid := hsame ▸ hinst
  rcases inst_of_step hkeeps hstep hj hinst with ⟨c₀, hc₀, hc₀inst⟩ | ⟨hnone, hjacts, hi⟩
  · rcases inst_of_step hkeeps hstep hk hd with ⟨d₀, hd₀, hd₀inst⟩ | ⟨hnone, -⟩
    · refine h j k c₀ d₀ hc₀ hd₀ ?_ (hc₀inst ▸ hinst)
      rw [hc₀inst, hd₀inst, hsame]
    · exact absurd (hc₀inst.trans hsame) (hnone c₀ (mem_of_getElem? hc₀))
  · rcases inst_of_step hkeeps hstep hk hd with ⟨d₀, hd₀, hd₀inst⟩ | ⟨-, hkacts, -⟩
    · exact absurd (hd₀inst.trans hsame.symm) (hnone d₀ (mem_of_getElem? hd₀))
    · obtain ⟨A, p, subs, rfl⟩ := hi
      simp only [acts, map_map, Function.comp_def, map_id', Option.mem_toList] at hjacts hkacts
      rw [hjacts, Option.some.injEq] at hkacts
      exact hkacts

theorem nextPc_connecting {j : Nat} (h : nextPc m i = some (.connecting j)) :
    (∃ A, i = .loop A ∧ m.pc = .loops j ∧ sendsConnect j m ∧ callsConnect A j m) ∨
      (m.pc = .connecting j ∧ ∀ op, slotOp i = some op → IsRequest op) := by
  have hslot : ∀ at_ k, (∀ k', at_ k' ≠ Pc.connecting j) → nextSlot at_ k ≠ .connecting j := by
    intro at_ k hat
    unfold nextSlot
    split
    · exact hat _
    · simp
  unfold nextPc at h
  split at h
  case h_2 => exact absurd (Option.some.inj h) (hslot _ _ (by simp))
  case h_4 A k hpc =>
    split at h
    · exact absurd (Option.some.inj h) (hslot _ _ (by simp))
    split at h
    · next hconnect =>
      cases h
      exact .inl ⟨A, rfl, hpc, hconnect.1, hconnect.2⟩
    · cases h
  case h_10 => exact absurd (Option.some.inj h) (hslot _ _ (by simp))
  case h_6 hpc =>
    cases h
    refine .inr ⟨hpc, ?_⟩
    rintro op ⟨⟩
    trivial
  case h_21 request _ _ _ hdone hcert hupdates hupdate hprocesses hloop hcallback hreconnect hclose
      hdisconnected hpc =>
    cases h
    refine .inr ⟨hpc, ?_⟩
    intro op hop
    cases request
    case update A => exact (hupdate A rfl).elim
    case loop A => exact (hloop A rfl).elim
    case connectDone A success => exact (hdone A success rfl).elim
    case callback A cb => exact (hcallback A cb rfl).elim
    case reconnect A => exact (hreconnect A rfl).elim
    case close A => exact (hclose A rfl).elim
    case disconnected A => exact (hdisconnected A rfl).elim
    case startUpdate | startProcess => cases hop
    all_goals
      cases hop
      trivial
  all_goals cases h

theorem connecting_step (h : Connecting m) (hstep : step i m = some m') : Connecting m' := by
  intro j hpc
  have hnext := (step_eq_some hstep).2.1
  rw [hpc] at hnext
  rcases nextPc_connecting hnext with ⟨A, rfl, hloops, hsends, hcalls⟩ | ⟨hconnecting, hrequest⟩
  · obtain ⟨c, hc, hsending⟩ := (Option.any_eq_true ..).mp hsends
    obtain ⟨c₁, hc₁, hcalled⟩ := (Option.any_eq_true ..).mp hcalls
    rw [hc, Option.some.injEq] at hc₁
    subst hc₁
    have hstate : c.state = .sendingConnect := (of_decide_eq_true hsending).2
    have hact : (j, SlotOp.connectStart A) ∈ acts m (.loop A) := by simp [acts, hloops, hsends]
    rcases slot_in_step hstep hc with ⟨-, hnot⟩ | ⟨c', op, hc', hop, happly⟩
    · exact absurd (List.mem_map.mpr ⟨_, hact, rfl⟩) hnot
    · cases slotOp_of_acts hop
      simp only [SlotOp.apply, hstate, if_true, Option.some.injEq] at happly
      subst happly
      exact ⟨_, hc', (connectStart_sending hcalled).trans hstate⟩
  · obtain ⟨c, hc, hstate⟩ := h j hconnecting
    rcases slot_in_step hstep hc with ⟨hc', -⟩ | ⟨c', op, hc', hop, happly⟩
    · exact ⟨c, hc', hstate⟩
    · exact ⟨c', hc', request_sending (hrequest op (slotOp_of_acts hop)) hstate happly⟩

theorem requestsOk_step (h : RequestsOk m) (hgentle : OnSlots Gentle m i)
    (hstep : step i m = some m') : RequestsOk m' :=
  ⟨flags_step h hgentle hstep, distinct_step h.distinct (keepsInsts_of_requestsOk h) hstep,
    connecting_step h.connecting hstep⟩

/-! ## The last request -/

/-- The last of enable and disable for the instance of the slot was an enable. -/
def Holds (n : Int) (c : Client) : Prop :=
  c.connParams.inst = n ∧ (ledger c.log).last = some true

/-- `MQTT_EnableClient` returns `USP_ERR_OK` for an instance that is enabled. -/
def Accepts (n : Int) (c : Client) : SlotOp → Prop
  | .enableClient A p subs => p.inst = n ∧ p.enable ∧ (enableClient A p subs c).1
  | _ => False

def Enables (n : Int) (m : Mqtt) (i : Step) : Prop :=
  ∃ k c op, (k, op) ∈ acts m i ∧ m.clients[k]? = some c ∧ Accepts n c op

def Disables (n : Int) (_ : Mqtt) (i : Step) : Prop := i = .disableClient n

theorem holds_apply (hn : n ≠ invalid) (h : FlagsOk (view c)) (h' : FlagsOk (view c'))
    (hfits : Fits c op) (happly : op.apply c = some c') :
    Holds n c' ↔ Accepts n c op ∨ Holds n c ∧ op ≠ .disableClient := by
  have hrequest := requestStep_apply h happly
  have hunused : ∀ d, FlagsOk (view d) → (ledger d.log).last = some true →
      d.connParams.inst ≠ invalid := fun d hd hlast hinst => (hd.unused hinst).2.2.2 hlast
  cases op
  case enableClient A p subs =>
    obtain ⟨hinst, hlast⟩ := hrequest
    have hslot := hfits.2
    split at hlast
    · next haccepted =>
      obtain ⟨hp, hlast⟩ := hlast
      have hp' : c'.connParams.inst = p.inst := hp
      have hlast' : (ledger c'.log).last = some true := hlast
      simp only [Holds, Accepts, hp', hlast', haccepted, and_true]
      grind
    · next hrefused =>
      have hnot : ¬ Accepts n c (.enableClient A p subs) := fun haccepts => hrefused haccepts.2
      have hlast' : (ledger c'.log).last = (ledger c.log).last := hlast
      have hinst' : c'.connParams.inst = c.connParams.inst ∨ c'.connParams.inst = p.inst := hinst
      have hused := hunused c h
      simp only [Holds, hnot, hlast', false_or]
      grind
  case disableClient =>
    have hlast : (ledger c'.log).last = some false := hrequest.2
    simp [Holds, Accepts, hlast]
  all_goals
    have hlast : (ledger c'.log).last = (ledger c.log).last := hrequest.last
    have hinst : c'.connParams.inst = c.connParams.inst ∨ c'.connParams.inst = invalid := hrequest.inst
    have hused := hunused c' h'
    simp only [Holds, Accepts, hlast, false_or]
    grind

def Requested (n : Int) (m : Mqtt) : Prop := ∃ c ∈ m.clients, Holds n c

theorem requested_step (hn : n ≠ invalid) (h : RequestsOk m) (h' : RequestsOk m')
    (hstep : step i m = some m') :
    Requested n m' ↔ Enables n m i ∨ Requested n m ∧ ¬ Disables n m i := by
  have hslot : ∀ k op c c', m.clients[k]? = some c → m'.clients[k]? = some c' →
      (k, op) ∈ acts m i → op.apply c = some c' →
      (Holds n c' ↔ Accepts n c op ∨ Holds n c ∧ op ≠ .disableClient) := by
    intro k op c c' hc hc' hop happly
    exact holds_apply hn (h.flags c (mem_of_getElem? hc)) (h'.flags c' (mem_of_getElem? hc'))
      (fits_of_acts h.connecting (step_eq_some hstep).1 hop hc) happly
  constructor
  · rintro ⟨c', hc', hholds⟩
    obtain ⟨k, hk⟩ := mem_iff_getElem?.mp hc'
    rcases slot_of_step hstep hk with ⟨hsame, hnot⟩ | ⟨c, op, hc, hop, happly⟩
    · refine .inr ⟨⟨c', mem_of_getElem? hsame, hholds⟩, ?_⟩
      rintro rfl
      -- The slot of the instance is the one that is disabled.
      cases hfind : findMqttClientByInstance n m.clients with
      | none =>
        exact findMqttClientByInstance_none hfind c' (mem_of_getElem? hsame) hholds.1
      | some j =>
        have hact : (j, SlotOp.disableClient) ∈ acts m (.disableClient n) := by
          simp [acts, onClient, hfind]
        obtain ⟨d, hd⟩ : ∃ d, m.clients[j]? = some d :=
          ⟨_, getElem?_eq_getElem (List.findIdx?_eq_some_iff_getElem.mp hfind).1⟩
        have hdinst := findMqttClientByInstance_some hfind hd
        have hjk : j = k := h.distinct j k d c' hd hsame (hdinst.trans hholds.1.symm) (hdinst ▸ hn)
        subst hjk
        exact hnot (List.mem_map.mpr ⟨_, hact, rfl⟩)
    · rcases (hslot k op c c' hc hk hop happly).mp hholds with haccepts | ⟨hheld, hop'⟩
      · exact .inl ⟨k, c, op, hop, hc, haccepts⟩
      · refine .inr ⟨⟨c, mem_of_getElem? hc, hheld⟩, ?_⟩
        rintro rfl
        exact hop' (Option.some.inj (slotOp_of_acts hop)).symm
  · rintro (⟨k, c, op, hop, hc, haccepts⟩ | ⟨⟨c, hc, hholds⟩, hnot⟩)
    · rcases slot_in_step hstep hc with ⟨-, hout⟩ | ⟨c', op', hc', hop', happly⟩
      · exact absurd (List.mem_map.mpr ⟨_, hop, rfl⟩) hout
      · cases (slotOp_of_acts hop).symm.trans (slotOp_of_acts hop')
        exact ⟨c', mem_of_getElem? hc', (hslot k op c c' hc hc' hop happly).mpr (.inl haccepts)⟩
    · obtain ⟨k, hk⟩ := mem_iff_getElem?.mp hc
      rcases slot_in_step hstep hk with ⟨hsame, -⟩ | ⟨c', op, hc', hop, happly⟩
      · exact ⟨c, mem_of_getElem? hsame, hholds⟩
      · refine ⟨c', mem_of_getElem? hc', (hslot k op c c' hk hc' hop happly).mpr (.inr ⟨hholds, ?_⟩)⟩
        rintro rfl
        apply hnot
        have hkind := slotOp_of_acts hop
        cases i <;> cases hkind
        rw [Disables, ← hholds.1, mem_acts_disableClient hop hk]

/-! ## A run -/

/-- No scheduled action waits, and no disconnect is outstanding. -/
def Settled (c : Client) : Prop :=
  c.scheduleReconnect = .off ∧ c.scheduleClose = .off ∧ c.state ≠ .awaitingDisconnect

instance (c : Client) : Decidable (Settled c) := inferInstanceAs (Decidable (_ ∧ _))

def Up (n : Int) (m : Mqtt) : Prop := ∃ c ∈ m.clients, c.connParams.inst = n ∧ c.state ≠ .idle

/-- No request of the run is lost. -/
def RequestsKept (steps : List Step) (m : Mqtt) : Prop :=
  (∀ n, n ≠ invalid → (∀ c ∈ m.clients, c.connParams.inst = n → Settled c) →
    (Up n m ↔ Since step (Enables n) (Disables n) initMqtt steps)) ∧
  ∀ c ∈ m.clients, Along UsesLatest c.log

theorem requestsOk_initMqtt : RequestsOk initMqtt where
  flags := by
    intro c hc
    rw [mem_initMqtt hc]
    exact
      { awaiting := fun hstate => by cases hstate
        close := fun hclose => absurd rfl hclose
        orderly := rfl
        unused := fun _ => ⟨rfl, rfl, rfl, by simp [view, initClient, ledger]⟩
        flag := fun hflag => by cases hflag
        up := fun hstate => absurd rfl hstate
        idle := fun _ _ => ⟨rfl, by simp [view, initClient, ledger]⟩
        nextInst := rfl
        latest := fun hinst => absurd rfl hinst
        current := fun _ => rfl
        served := rfl }
  distinct := by
    intro _ _ c _ hc _ _ hinst
    rw [mem_initMqtt (mem_of_getElem? hc)] at hinst
    exact absurd rfl hinst
  connecting := fun _ hpc => by cases hpc

theorem run_requests {steps : List Step} (hgentle : RunMeets step (OnSlots Gentle) steps initMqtt)
    (hrun : run step steps initMqtt = some m) :
    RequestsOk m ∧ ∀ n, n ≠ invalid →
      (Since step (Enables n) (Disables n) initMqtt steps ↔ Requested n m) := by
  revert hgentle
  refine run_induction (I := fun steps m => RunMeets step (OnSlots Gentle) steps initMqtt →
    RequestsOk m ∧ ∀ n, n ≠ invalid →
      (Since step (Enables n) (Disables n) initMqtt steps ↔ Requested n m)) ?_ ?_ steps m hrun
  · refine fun _ => ⟨requestsOk_initMqtt, fun n hn => iff_of_false not_since_nil ?_⟩
    rintro ⟨c, hc, hholds⟩
    rw [mem_initMqtt hc] at hholds
    exact hn hholds.1.symm
  · intro steps m i m' hrun ih hstep hgentle
    obtain ⟨hbefore, hgentle⟩ := (runMeets_snoc hrun).mp hgentle
    obtain ⟨hok, hsince⟩ := ih hbefore
    have hok' := requestsOk_step hok hgentle hstep
    refine ⟨hok', fun n hn => ?_⟩
    rw [since_snoc hrun, hsince n hn, requested_step hn hok hok' hstep]

/-- In every run whose operations clear no request that waits, no request is lost. -/
theorem requests_kept {steps : List Step} (hgentle : RunMeets step (OnSlots Gentle) steps initMqtt)
    (hrun : run step steps initMqtt = some m) : RequestsKept steps m := by
  obtain ⟨hok, hsince⟩ := run_requests hgentle hrun
  refine ⟨?_, fun c hc => (served_iff_along c.log).mp (hok.flags c hc).served⟩
  intro n hn hsettled
  rw [hsince n hn]
  constructor
  · rintro ⟨c, hc, hinst, hstate⟩
    exact ⟨c, hc, hinst, (hok.flags c hc).up hstate (hsettled c hc hinst).2.1⟩
  · rintro ⟨c, hc, hinst, hlast⟩
    refine ⟨c, hc, hinst, fun hidle => ?_⟩
    exact ((hok.flags c hc).idle hidle (hsettled c hc hinst).2.1).2 hlast

/-- The client connects, is reconfigured while it is connected, and is disabled. -/
def reconfigured : List Step :=
  [.enableClient smooth (brokerParams .tcpip) unusedSubscriptions] ++ connectPass none ++
    [.scheduleReconnect (brokerParams .tls), .activateScheduledActions] ++ processPass [] ++
    processPass [.callback smooth .disconnect] ++ connectPass (some [4, 1]) ++
    [.disableClient 1, .activateScheduledActions] ++ processPass [] ++
    processPass [.callback smooth .disconnect]

theorem requests_kept_reconfigured :
    ∃ m, run step reconfigured initMqtt = some m ∧ RequestsKept reconfigured m := by
  have hsome : (run step reconfigured initMqtt).isSome := by decide
  obtain ⟨m, hm⟩ := Option.isSome_iff_exists.mp hsome
  exact ⟨m, hm, requests_kept (by decide +kernel) hm⟩

/-! ## A retry that loses a disable -/

/-- The attempt fails, and the client is disabled before the retry. -/
def disabledWhileRetrying : List Step :=
  [.enableClient smooth (brokerParams .tcpip) unusedSubscriptions] ++
    processPass [.connectDone smooth false]

theorem not_enables (h : ∀ A p subs, i ≠ .enableClient A p subs) : ¬ Enables n m i := by
  rintro ⟨k, c, op, hop, -, haccepts⟩
  have hkind := slotOp_of_acts hop
  cases op
  case enableClient A p subs =>
    cases i <;> cases hkind
    exact h _ _ _ rfl
  all_goals cases haccepts

/-- The retry connects although the last request was a disable. -/
theorem disable_lost :
    ¬ ∀ steps m, run step steps initMqtt = some m → RequestsKept steps m := by
  intro h
  have hlast : (run step (disabledWhileRetrying ++ .disableClient 1 :: updatePass) initMqtt).any
      fun m => (m.clients.all fun c => c.connParams.inst = 1 → Settled c) ∧
        m.clients.any fun c => c.connParams.inst = 1 ∧ c.state ≠ .idle := by
    decide
  obtain ⟨m, hm, hlast⟩ := (Option.any_eq_true ..).mp hlast
  obtain ⟨hsettled, hup⟩ := of_decide_eq_true hlast
  have hsince : ¬ Since step (Enables 1) (Disables 1) initMqtt
      (disabledWhileRetrying ++ .disableClient 1 :: updatePass) := by
    refine not_since_stopped (fun _ => rfl) (fun j hj s => not_enables ?_) hm
    rintro A p subs rfl
    simp [updatePass] at hj
  apply hsince
  rw [← (h _ m hm).1 1 (by decide)]
  · obtain ⟨c, hc, hstate⟩ := List.any_eq_true.mp hup
    exact ⟨c, hc, of_decide_eq_true hstate⟩
  · intro c hc
    exact of_decide_eq_true (List.all_eq_true.mp hsettled c hc)

end MqttRequests
