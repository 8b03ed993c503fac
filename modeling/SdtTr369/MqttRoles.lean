import SdtTr369.MqttMoves

/-!
# Roles over MQTT

The role that goes with a record is a field of the slot. The log tells which role the
certificate chain of the current connection gives; the field is right where that chain
gives one, and otherwise where the last role written is the default role.
-/

namespace MqttRoles

open ControllerTable DataModelRead MqttClient MqttCallbacks MqttThread MqttMoves RunHistory List
  Option

/-- The role of the row of `Device.LocalAgent.Certificate` that the last certificate of
a chain belongs to. -/
def chainRole (T : TrustStore) (chain : CertChain) : Option Nat :=
  if chain.length < 2 then none
  else ((chain.getLast?.bind T.calcCertHash).bind T.findLocalAgentCert).map T.getCertRole

/-- The role determined from a chain. -/
def determinedRole (T : TrustStore) (chain : CertChain) : Option Nat :=
  (chainRole T chain).filter (· ≠ invalidRole)

/-- What the log tells about roles: the chain verified on the connection whose CONNACK
has not come yet, the role determined on the connection, and the role of the last chain
that had one, on any connection of the slot. -/
structure RoleHistory where
  chain : Option CertChain
  determined : Option Nat
  last : Nat

def RoleHistory.after (h : RoleHistory) : Event → RoleHistory
  | .newContext _ _ | .cleaned _ => ⟨none, none, h.last⟩
  | .certVerify chain => { h with chain := h.chain.or (some chain) }
  | .connack T =>
    match h.chain with
    | none => h
    | some chain => ⟨none, determinedRole T chain, (chainRole T chain).getD h.last⟩
  | _ => h

def roleHistory (log : List Event) : RoleHistory :=
  log.foldl RoleHistory.after ⟨none, none, roleDefault⟩

/-- The role determined on the current connection, or else `ROLE_DEFAULT`. -/
def RoleHistory.entitled (h : RoleHistory) : Nat := h.determined.getD roleDefault

/-- The role passed with a received record or in the handshake-complete message. -/
def passedRole : Event → Option Nat
  | .handshakeComplete _ _ _ role | .uspRecord _ role _ _ => some role
  | _ => none

variable (log : List Event) {es : List Event} (T : TrustStore)

@[simp] theorem roleHistory_append (es : List Event) :
    roleHistory (log ++ es) = es.foldl RoleHistory.after (roleHistory log) :=
  foldl_append ..

variable {e : Event}

theorem after_plain (he : Plain e) (h : RoleHistory) : h.after e = h := by
  cases e <;> first | rfl | cases he

theorem passedRole_plain (he : Plain e) : passedRole e = none := by
  cases e <;> first | rfl | cases he

/-- The role passed is the last one written. -/
def PassedLast (before : List Event) (e : Event) : Prop :=
  ∀ role ∈ passedRole e, role = (roleHistory before).last

/-- The fields of a slot and its log agree about roles. -/
structure RoleOk (c : Client) : Prop where
  role : c.role = (roleHistory c.log).last
  chain : c.certChain = (roleHistory c.log).chain
  passed : Along PassedLast c.log

theorem initClient_ok : RoleOk initClient := ⟨rfl, rfl, along_nil _⟩

/-- The role determined on the current connection is the last one written. -/
theorem determined_last : ∀ role ∈ (roleHistory log).determined, role = (roleHistory log).last := by
  induction log using List.reverseRecOn with
  | nil => simp [roleHistory]
  | append_singleton log e ih =>
    rw [roleHistory_append, foldl_cons, foldl_nil]
    intro role hmem
    cases e <;> try exact ih role hmem
    case newContext | cleaned => cases hmem
    case connack T =>
      unfold RoleHistory.after at hmem ⊢
      cases hchain : (roleHistory log).chain with
      | none =>
        simp only [hchain] at hmem
        exact ih role hmem
      | some chain =>
        simp only [hchain, determinedRole, mem_def, filter_eq_some_iff] at hmem
        simp only [hmem.1, getD_some]

variable {c c' : Client}

/-- Events that leave the history as it is and pass no role but that of the slot. -/
theorem RoleOk.keep (h : RoleOk c) (hlog : c'.log = c.log ++ es)
    (hes : es.foldl RoleHistory.after (roleHistory c.log) = roleHistory c.log)
    (hpassed : Along PassedLast c'.log) (hrole : c'.role = c.role)
    (hchain : c'.certChain = c.certChain) : RoleOk c' := by
  have hhistory : roleHistory c'.log = roleHistory c.log := by
    rw [hlog, roleHistory_append, hes]
  constructor
  · rw [hrole, hhistory, h.role]
  · rw [hchain, hhistory, h.chain]
  · exact hpassed

/-- An event that neither says anything about roles nor passes one. -/
theorem RoleOk.event (h : RoleOk c) (hlog : c'.log = c.log ++ [e])
    (he : ∀ r, RoleHistory.after r e = r) (hpassed : passedRole e = none)
    (hrole : c'.role = c.role) (hchain : c'.certChain = c.certChain) : RoleOk c' := by
  apply h.keep hlog (by simp [he]) _ hrole hchain
  rw [hlog, along_snoc]
  exact ⟨h.passed, by simp [PassedLast, hpassed]⟩

/-- A connection has ended, or another has begun. -/
theorem RoleOk.reset (h : RoleOk c) (hlog : c'.log = c.log ++ [e])
    (he : ∀ r, RoleHistory.after r e = ⟨none, none, r.last⟩) (hpassed : passedRole e = none)
    (hrole : c'.role = c.role) (hchain : c'.certChain = none) : RoleOk c' := by
  have hhistory : roleHistory c'.log = ⟨none, none, (roleHistory c.log).last⟩ := by
    rw [hlog, roleHistory_append, foldl_cons, foldl_nil, he]
  constructor
  · rw [hrole, hhistory, h.role]
  · rw [hchain, hhistory]
  · rw [hlog, along_snoc]
    exact ⟨h.passed, by simp [PassedLast, hpassed]⟩

theorem getControllerTrust_role (chain : CertChain) (role : Nat) :
    (getControllerTrust T chain role).2 = (chainRole T chain).getD role := by
  unfold getControllerTrust
  split
  · rfl
  · rfl
  · next leaf ca rest =>
    have hlast : (leaf :: ca :: rest).getLast? =
        some ((ca :: rest).getLast (cons_ne_nil ca rest)) := by
      rw [getLast?_eq_some_getLast (cons_ne_nil _ _), getLast_cons]
    have hlength : ¬ (leaf :: ca :: rest).length < 2 := by simp
    rw [chainRole, if_neg hlength, hlast, bind_some]
    cases T.calcCertHash ((ca :: rest).getLast (cons_ne_nil ca rest)) with
    | none => rfl
    | some hash =>
      dsimp only [bind_some]
      cases T.findLocalAgentCert hash <;> rfl

theorem takeControllerTrust_role (c : Client) :
    (takeControllerTrust T c).role =
      ((c.certChain.bind (chainRole T)).getD c.role) := by
  unfold takeControllerTrust
  cases c.certChain with
  | none => rfl
  | some chain => exact getControllerTrust_role T chain c.role

/-- A CONNACK has come, and the chain of its connection decides about the role. -/
theorem RoleOk.connack (h : RoleOk c) {T : TrustStore} (hlog : c'.log = c.log ++ [.connack T])
    (hrole : c'.role = (takeControllerTrust T c).role) (hchain : c'.certChain = none) :
    RoleOk c' := by
  have hpassed : Along PassedLast c'.log := by
    rw [hlog, along_snoc]
    exact ⟨h.passed, by simp [PassedLast, passedRole]⟩
  rw [takeControllerTrust_role, h.chain] at hrole
  cases hsaved : (roleHistory c.log).chain with
  | none =>
    rw [hsaved, Option.bind_none, getD_none] at hrole
    apply h.keep hlog _ hpassed hrole (by rw [hchain, h.chain, hsaved])
    simp [RoleHistory.after, hsaved]
  | some chain =>
    rw [hsaved, bind_some] at hrole
    have hhistory : roleHistory c'.log =
        ⟨none, determinedRole T chain, (chainRole T chain).getD (roleHistory c.log).last⟩ := by
      rw [hlog, roleHistory_append]
      simp [RoleHistory.after, hsaved]
    constructor
    · rw [hrole, hhistory, h.role]
    · rw [hchain, hhistory]
    · exact hpassed

theorem RoleOk.certVerify (h : RoleOk c) (chain : CertChain) :
    RoleOk (certVerifyCallback chain c) := by
  have hhistory : roleHistory (certVerifyCallback chain c).log =
      { roleHistory c.log with chain := (roleHistory c.log).chain.or (some chain) } := by
    simp [certVerifyCallback, Client.emit, RoleHistory.after]
  constructor
  · rw [hhistory]
    exact h.role
  · rw [hhistory]
    simp only [certVerifyCallback, h.chain]
  · simp only [certVerifyCallback, Client.emit, along_snoc]
    exact ⟨h.passed, by simp [PassedLast, passedRole]⟩

theorem RoleOk.pass (h : RoleOk c) (he : Passes c.role e) : RoleOk (c.emit e) := by
  have hpassed : PassedLast c.log e := by
    intro role hmem
    rw [← h.role]
    cases e <;> first | (cases he; exact (Option.some.inj hmem).symm) | cases he
  have hafter : (roleHistory c.log).after e = roleHistory c.log := by
    cases e <;> first | rfl | cases he
  have hlog : (c.emit e).log = c.log ++ [e] := rfl
  apply h.keep hlog (by simpa using hafter) _ rfl rfl
  rw [hlog, along_snoc]
  exact ⟨h.passed, hpassed⟩

theorem RoleOk.plain (h : RoleOk c) (hlog : c'.log = c.log ++ es)
    (hes : ∀ e ∈ es, (∀ r, RoleHistory.after r e = r) ∧ passedRole e = none)
    (hrole : c'.role = c.role) (hchain : c'.certChain = c.certChain) : RoleOk c' := by
  induction es using List.reverseRecOn generalizing c' with
  | nil =>
    rw [append_nil] at hlog
    exact h.keep (hlog.trans (append_nil _).symm) rfl (by rw [hlog]; exact h.passed) hrole hchain
  | append_singleton es e ih =>
    have hbefore : RoleOk { c' with log := c.log ++ es } :=
      ih rfl (fun e' he' => hes e' (mem_append_left _ he')) hrole hchain
    have he := hes e (by simp)
    exact hbefore.event (by rw [hlog, append_assoc]) he.1 he.2 rfl rfl

theorem RoleOk.move (h : RoleOk c) (hmove : Move c c') : RoleOk c' := by
  cases hmove with
  | keep core log plain =>
    apply h.plain log _ core.role core.certChain
    exact fun e he => ⟨after_plain (plain e he), passedRole_plain (plain e he)⟩
  | enter _ _ role certChain log =>
    exact h.plain (log.trans (append_nil _).symm) (by simp) role certChain
  | clean isReconnect =>
    have hclean : RoleOk { c with certChain := none, log := c.log ++ [.cleaned isReconnect] } :=
      h.reset rfl (fun _ => rfl) rfl rfl rfl
    have hlog : (cleanMqttClient isReconnect c).log = (c.log ++ [.cleaned isReconnect]) ++
        if isReconnect then [] else c.queue.map .purged := by
      rw [cleanMqttClient_log, append_assoc, singleton_append]
    apply hclean.plain hlog
    · cases isReconnect <;> simp [RoleHistory.after, passedRole]
    · cases isReconnect <;> rfl
    · cases isReconnect <;> rfl
  | newContext _ _ role certChain log => exact h.reset log (fun _ => rfl) rfl role certChain
  | connack _ _ role certChain log => exact h.connack log role certChain
  | certVerify chain => exact h.certVerify chain
  | pass he => exact h.pass he
  | queueConnect item =>
    apply h.plain (queueUspConnectRecord_log item c) _ rfl rfl
    rw [forall_mem_append, List.forall_mem_map]
    exact ⟨fun _ _ => ⟨fun _ => rfl, rfl⟩, by simp [RoleHistory.after, passedRole]⟩
  | queueTail item => exact h.event rfl (fun _ => rfl) rfl rfl rfl

theorem RoleOk.apply (h : RoleOk c) {op : SlotOp} (happly : op.apply c = some c') : RoleOk c' := by
  rcases apply_cases happly with hsends | hconnects | hmoves
  · obtain ⟨A, item, rest, mid, -, -, -, rfl⟩ := hsends.sent
    exact h.event rfl (fun _ => rfl) rfl rfl rfl
  · obtain ⟨A, -, rfl⟩ := hconnects.connects
    exact h.event rfl (fun _ => rfl) rfl rfl rfl
  · exact moves_keep (fun _ _ h hmove => h.move hmove) hmoves h

/-! ## The roles passed in a run -/

/-- The role passed is the one that the current connection gives. -/
def RightRole (before : List Event) (e : Event) : Prop :=
  ∀ role ∈ passedRole e, role = (roleHistory before).entitled

/-- The chain of the current connection gives a role, or the last role written to the
slot is the default role. -/
def RoleStands (before : List Event) : Prop :=
  (roleHistory before).determined.isSome ∨ (roleHistory before).last = roleDefault

theorem entitled_eq_last_iff (before : List Event) :
    (roleHistory before).last = (roleHistory before).entitled ↔ RoleStands before := by
  unfold RoleStands RoleHistory.entitled
  cases hdetermined : (roleHistory before).determined with
  | none => simp
  | some role => simp [← determined_last before role hdetermined]

theorem PassedLast.right_iff {before : List Event} (h : PassedLast before e)
    (hpasses : (passedRole e).isSome) : RightRole before e ↔ RoleStands before := by
  obtain ⟨role, hrole⟩ := isSome_iff_exists.mp hpasses
  have hlast : role = (roleHistory before).last := h role hrole
  rw [RightRole, hrole, ← entitled_eq_last_iff, ← hlast]
  simp

/-- In every run of the threads, a role passed on is that of the current connection just
where the role stands. -/
theorem passed_role_right_iff {steps : List Step} {m : Mqtt}
    (hrun : run step steps initMqtt = some m) :
    ∀ c ∈ m.clients, Along (fun before e => (passedRole e).isSome →
      (RightRole before e ↔ RoleStands before)) c.log := by
  have hmeets : RunMeets step (OnSlots fun _ _ => True) steps initMqtt :=
    runMeets_of_forall fun _ _ _ _ _ _ _ => trivial
  have hok := slots_keep (fun c op c' (h : RoleOk c) _ happly => h.apply happly)
    (fun c hc => by rw [mem_initMqtt hc]; exact initClient_ok) hmeets hrun
  intro c hc before e after hlog hpasses
  exact ((hok c hc).passed before e after hlog).right_iff hpasses

/-- The client connects with TLS to a broker whose chain gives role 1, and is then
reconfigured to connect without. -/
def tlsThenTcp : List Step :=
  [.enableClient smooth (brokerParams .tls) unusedSubscriptions] ++ connectPass (some [4, 1]) ++
    [.scheduleReconnect (brokerParams .tcpip), .activateScheduledActions] ++ processPass [] ++
    processPass [.callback smooth .disconnect] ++ connectPass none

theorem passed_role_right_tlsThenTcp :
    ∃ m, run step tlsThenTcp initMqtt = some m ∧ ∀ c ∈ m.clients,
      Along (fun before e => (passedRole e).isSome →
        (RightRole before e ↔ RoleStands before)) c.log := by
  have hsome : (run step tlsThenTcp initMqtt).isSome := by decide
  obtain ⟨m, hm⟩ := isSome_iff_exists.mp hsome
  exact ⟨m, hm, passed_role_right_iff hm⟩

/-- On the connection without TLS the role of the earlier connection is passed. -/
theorem role_of_earlier_connection_passed :
    ¬ ∀ steps m, run step steps initMqtt = some m →
      ∀ c ∈ m.clients, Along RightRole c.log := by
  intro h
  have hlast : ((run step tlsThenTcp initMqtt).bind (·.clients.head?)).any (fun c =>
      c.log.getLast?.any fun e =>
        passedRole e = some 1 ∧ (roleHistory c.log.dropLast).entitled = roleDefault) := by
    decide
  obtain ⟨c, hc, hlast⟩ := (Option.any_eq_true ..).mp hlast
  obtain ⟨e, he, hlast⟩ := (Option.any_eq_true ..).mp hlast
  obtain ⟨m, hm, hc⟩ := bind_eq_some_iff.mp hc
  obtain ⟨hpassed, hentitled⟩ := of_decide_eq_true hlast
  have hright : RightRole c.log.dropLast e :=
    (h tlsThenTcp m hm c (mem_of_mem_head? hc)).last he
  have hrole := hright 1 hpassed
  rw [hentitled] at hrole
  exact absurd hrole (by decide)

end MqttRoles
