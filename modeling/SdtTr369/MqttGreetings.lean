import SdtTr369.MqttInstances
import SdtTr369.MqttSession

/-!
# The handshake of a client that is running

A client comes up in a CONNACK, whose last event is the handshake-complete message with
the instance number and the role of the client. No other operation takes a client to
`running`, logs such a message, or changes the role of one that is running.
-/

namespace MqttGreetings

open MqttClient MqttCallbacks MqttThread MqttMoves MqttInstances MqttSession

def IsHandshake : Event → Prop
  | .handshakeComplete .. => True
  | _ => False

/-- No client has come up, and no message says so. -/
structure Silent (c c' : Client) : Prop where
  running : c'.state = .running → c.state = .running
  role : c'.state = .running → c'.role = c.role
  log : ∃ es, c'.log = c.log ++ es ∧ ∀ e ∈ es, ¬ IsHandshake e

/-- A client has come up, or has failed after that, and its last event says so. -/
def Greets (c c' : Client) : Prop :=
  ∃ es version topic, c'.log = c.log ++ es ++
    [.handshakeComplete c'.connParams.inst version topic c'.role] ∧ ∀ e ∈ es, ¬ IsHandshake e

theorem not_isHandshake {e : Event} (he : ¬ ComesUp e) : ¬ IsHandshake e := by
  cases e <;> first | exact id | exact absurd trivial he

namespace Silent

variable {c c' c'' : Client}

theorem refl (c : Client) : Silent c c :=
  ⟨id, fun _ => rfl, [], (List.append_nil _).symm, by simp⟩

theorem trans (h : Silent c c') (h' : Silent c' c'') : Silent c c'' := by
  obtain ⟨es, hlog, hes⟩ := h.log
  obtain ⟨es', hlog', hes'⟩ := h'.log
  refine ⟨fun hr => h.running (h'.running hr),
    fun hr => (h'.role hr).trans (h.role (h'.running hr)), es ++ es', ?_, ?_⟩
  · rw [hlog', hlog, List.append_assoc]
  · exact List.forall_mem_append.mpr ⟨hes, hes'⟩

/-- The state is the same or not `running`, and the role is the same. -/
theorem of_same {es : List Event} (hlog : c'.log = c.log ++ es) (hes : ∀ e ∈ es, ¬ IsHandshake e)
    (hstate : c'.state = .running → c.state = .running) (hrole : c'.role = c.role) : Silent c c' :=
  ⟨hstate, fun _ => hrole, es, hlog, hes⟩

theorem of_ended {es : List Event} (hlog : c'.log = c.log ++ es)
    (hes : ∀ e ∈ es, ¬ IsHandshake e) (hstate : c'.state ≠ .running) : Silent c c' :=
  ⟨fun hr => absurd hr hstate, fun hr => absurd hr hstate, es, hlog, hes⟩

theorem of_calm (h : Calm c c') : Silent c c' := by
  obtain ⟨es, hlog, hes⟩ := h.quiet
  have hquiet : ∀ e ∈ es, ¬ IsHandshake e := fun e he => not_isHandshake (hes e he)
  cases h.move with
  | keep core => exact of_same hlog hquiet (core.state ▸ id) core.role
  | enter state _ _ _ _ => exact of_ended hlog hquiet state
  | clean isReconnect =>
    refine of_ended hlog hquiet ?_
    cases isReconnect <;> simp [cleanMqttClient]
  | newContext state _ role _ _ =>
    refine of_same hlog hquiet (fun hrunning => ?_) role
    rcases state with hsame | hsending
    · exact hsame ▸ hrunning
    · rw [hsending] at hrunning
      cases hrunning
  | connack _ _ _ _ log =>
    rw [hlog] at log
    have hup : Event.connack _ ∈ es := List.append_cancel_left log ▸ List.mem_singleton_self _
    exact absurd trivial (hes _ hup)
  | certVerify | pass | queueConnect | queueTail => exact of_same hlog hquiet id rfl

theorem of_calms (h : Calms c c') : Silent c c' := by
  induction h with
  | refl => exact refl c
  | tail _ hlast ih => exact ih.trans (of_calm hlast)

end Silent

/-! ## The CONNACK -/

section Connack

variable (A : Answers) (c : Client)

theorem takeControllerTrust_log (T : TrustStore) : (takeControllerTrust T c).log = c.log := by
  unfold takeControllerTrust
  split <;> rfl

/-- A client for which there is a topic to subscribe to tells that it has come up. -/
theorem subscribeToAll_cases : Greets c (subscribeToAll A c) ∨
    (subscribeToAll A c).state ≠ .running ∧
      ∃ es, (subscribeToAll A c).log = c.log ++ es ∧ ∀ e ∈ es, ¬ IsHandshake e := by
  dsimp only [subscribeToAll]
  split
  · have hsilent := Silent.of_calms (handleMqttError_calm A c .misconfigured)
    exact .inr ⟨handleMqttError_ended A c .misconfigured, hsilent.log⟩
  · have hpackets := (subscribeEntries_calm A c (List.range maxMqttSubscriptions)).trans
      (subscribeResponse_calm A _)
    generalize subscribeResponse A (subscribeEntries A (List.range maxMqttSubscriptions) c) = c₂
      at hpackets
    obtain ⟨es, hlog, hes⟩ := (Silent.of_calms hpackets).log
    refine .inl ⟨es, c₂.connParams.version, c₂.responseSubscription.topic, ?_, hes⟩
    rw [← hlog]
    rfl

/-- The events before the client comes up are those of the CONNACK. -/
theorem connack_cases {c₁ : Client} (hlog : c₁.log = c.log ++ [.connack A.trust]) :
    Silent c (connected A c₁) ∨ Greets c (connected A c₁) := by
  rcases subscribeToAll_cases A { c₁ with retryTime := 0, retryCount := 0, state := .running } with
    ⟨es, version, topic, hevents, hes⟩ | ⟨hstate, es, hevents, hes⟩
  · refine .inr ⟨.connack A.trust :: es, version, topic, ?_, ?_⟩
    · rw [connected, hevents, hlog]
      simp
    · exact List.forall_mem_cons.mpr ⟨id, hes⟩
  · have hall : (connected A c₁).log = c.log ++ (.connack A.trust :: es) := by
      rw [connected, hevents, hlog]
      simp
    exact .inl (.of_ended hall (List.forall_mem_cons.mpr ⟨id, hes⟩) hstate)

theorem connectCallback_cases (accepted : Bool) :
    Silent c (connectCallback A accepted c) ∨ Greets c (connectCallback A accepted c) := by
  unfold connectCallback
  split
  · exact .inl (.refl c)
  split
  · exact .inl (.of_calms (handleMqttError_calm A c .otherError))
  · exact connack_cases A c (takeControllerTrust_log _ A.trust)

theorem connectV5Callback_cases (accepted : Bool) (props : ConnackProps) :
    Silent c (connectV5Callback A accepted props c) ∨
      Greets c (connectV5Callback A accepted props c) := by
  unfold connectV5Callback
  split
  · exact .inl (.of_calms (handleMqttError_calm A c .otherError))
  split
  · exact .inl (.of_calms (handleMqttError_calm A c .otherError))
  · apply connack_cases A c
    rw [(readConnackProps_keeps _ props).2, takeControllerTrust_log]
    rfl

end Connack

/-! ## One operation -/

theorem apply_greets {op : SlotOp} {c c' : Client} (h : op.apply c = some c') :
    Silent c c' ∨ Greets c c' := by
  by_cases hconnack : ∃ A accepted props, op = .callback A (.connect accepted props)
  · obtain ⟨A, accepted, props, rfl⟩ := hconnack
    cases h
    dsimp only [callback]
    split
    · exact connectV5Callback_cases A c accepted props
    · exact connectCallback_cases A c accepted
  · have hcalm : ∀ A cb, op = .callback A cb → ¬ IsConnack cb := by
      rintro A cb rfl hcb
      cases cb with
      | connect accepted props => exact hconnack ⟨A, accepted, props, rfl⟩
      | _ => exact hcb
    rcases apply_calm h hcalm with hsends | hconnects | hcalms
    · obtain ⟨-, A, item, rest, mid, -, -, -, rfl⟩ := hsends
      exact .inl (.of_same rfl (by simp [IsHandshake]) id rfl)
    · obtain ⟨-, A, -, rfl⟩ := hconnects
      exact .inl (.of_same rfl (by simp [IsHandshake]) id rfl)
    · exact .inl (.of_calms hcalms)

/-! ## One step -/

section Step

variable {m m' : Mqtt} {i : Step} {k : Nat} {c c' : Client}

theorem step_greets (hstep : step i m = some m') (hc : m.clients[k]? = some c)
    (hc' : m'.clients[k]? = some c') : Silent c c' ∨ Greets c c' := by
  rcases slot_in_step hstep hc with ⟨hsame, -⟩ | ⟨c₁, op, hc₁, -, happly⟩
  · rw [hc', Option.some.injEq] at hsame
    exact .inl (hsame ▸ .refl c')
  · rw [hc', Option.some.injEq] at hc₁
    exact apply_greets (hc₁ ▸ happly)

theorem running_inUse (h : InstancesOk m) (hc : m.clients[k]? = some c)
    (hrunning : c.state = .running) : c.connParams.inst ≠ invalid := by
  intro hinst
  have hidle : c.state = .idle := ((h.slots c (List.mem_of_getElem? hc)).unused hinst).1
  rw [hidle] at hrunning
  cases hrunning

/-- A client that has kept running is for the same instance. -/
theorem running_inst (h : InstancesOk m) (hstep : step i m = some m')
    (hc : m.clients[k]? = some c) (hc' : m'.clients[k]? = some c') (hrunning : c.state = .running)
    (hrunning' : c'.state = .running) : c'.connParams.inst = c.connParams.inst := by
  rcases slot_in_step hstep hc with ⟨hsame, -⟩ | ⟨c₁, op, hc₁, hop, happly⟩
  · rw [hc', Option.some.injEq] at hsame
    rw [hsame]
  · rw [hc', Option.some.injEq] at hc₁
    subst hc₁
    cases (slot_apply h hstep hop hc happly).2 with
    | same hsame => exact hsame
    | givenUp _ hgone =>
      exact absurd hgone (running_inUse (instancesOk_step h hstep) hc' hrunning')
    | taken hunused _ => exact absurd hunused (running_inUse h hc hrunning)

end Step

end MqttGreetings
