import SdtTr369.SessionRuns

/-!
# A record that opens a new session

It is served when the controller may use sessions and the vector is empty. The
segments left by an older session make it look out of place, because the
vector is checked before the new session id empties it.
-/

namespace NewSession

open UspTypes EffectProgram UspRecord SarVector E2eContext SessionRuns

/-- A well-formed record that opens a session other than the current one, with
the first segment of a message or a whole one. -/
structure Opens (s : E2eSession) (ctx : SessionContextRecord) : Prop where
  session : 2 ≤ ctx.sessionId
  other : ctx.sessionId ≠ s.currentSessionId
  first : ctx.sequenceId = 1
  expected : 1 ≤ ctx.expectedId
  synchronized : ctx.payloadrecSarState = ctx.payloadSarState
  payload : ∃ payload, ctx.payload = [payload]
  sar : ctx.payloadSarState = .none ∨ ctx.payloadSarState = .begin

/-- What is done with the payload: nothing if it is empty, else it is handed on
or kept as the first segment. -/
def PayloadTaken (ctx : SessionContextRecord) (w w' : SessionWorld) : Prop :=
  if payloadOf ctx = [] then
    w'.handled = w.handled ∧ w'.session.receivedPayloads.vector = []
  else if ctx.payloadSarState = .none then
    w'.handled = w.handled ++ [.direct (payloadOf ctx)] ∧
      w'.session.receivedPayloads.vector = []
  else
    w'.handled = w.handled ∧
      w'.session.receivedPayloads.vector = [segmentOf ctx (payloadOf ctx)]

/-- The old session is reset, the new one is current and up, and nothing was
sent in reply to the record. -/
structure Served (ctx : SessionContextRecord) (w w' : SessionWorld) : Prop where
  current : w'.session.currentSessionId = ctx.sessionId
  status : w'.session.status = .up
  received : w'.session.lastRecvSequenceId = ctx.sequenceId
  sent : w'.session.lastSentSequenceId = 0
  undisturbed : w'.queued = w.queued
  payload : PayloadTaken ctx w w'

variable {s : E2eSession}

section Serve

variable {H : Host} {w : SessionWorld} {ctx : SessionContextRecord} {record : Record}

theorem takeOver_other (h : ctx.sessionId ≠ s.currentSessionId) :
    takeOver ctx s = { clearE2eSessionState s with
      currentSessionId := ctx.sessionId
      lastRecvSequenceId := ctx.sequenceId
      status := .up } := by
  simp [takeOver, Ne.symm h]

theorem Opens.contextOk (h : Opens w.session ctx) (hmode : w.session.mode ≠ .forbid)
    (hempty : w.session.receivedPayloads.vector = []) : ContextOk w.session ctx where
  mode := hmode
  session := h.session
  sequence := by rw [h.first]; exact UInt64.le_refl 1
  expected := h.expected
  opens := fun _ => h.first
  sar := by
    rcases h.sar with hs | hs <;> rw [hs] <;> simpa [isValidE2eSarState] using hempty

/-- A record that passes the checks is served. -/
theorem handle_serves (h : Opens w.session ctx) :
    Keeps False (handleSessionContextRecord H ctx) w (Served ctx w) := by
  obtain ⟨payload, hp⟩ := h.payload
  have hpay : payloadOf ctx = payload := payloadOf_single hp
  have htake := takeOver_other h.other
  by_cases hne : payload = []
  · subst hne
    refine (handle_empty hp).mpr ?_
    simp only [taken, htake]
    exact ⟨rfl, rfl, rfl, rfl, rfl, by simp [PayloadTaken, hpay, clearE2eSessionState]⟩
  rcases h.sar with hsar | hsar
  · refine (handle_direct hp hne hsar).mpr (keeps_mono (handleBinaryMessage_spec _ _) ?_)
    rintro _ rfl
    simp only [taken, htake]
    exact ⟨rfl, rfl, rfl, rfl, rfl, by
      simp [PayloadTaken, hpay, hne, hsar, clearE2eSessionState]⟩
  · obtain ⟨v, happ, hv⟩ := Vector.init_append (segmentOf ctx payload)
    refine (handle_stored (v := v) hp hne (by simp [hsar]) (by rw [htake]; exact happ)).mpr
      ((store_open (by simp [hsar])).mpr ?_)
    simp only [taken, htake]
    exact ⟨rfl, rfl, rfl, rfl, rfl, by simp [PayloadTaken, hpay, hne, hsar, hv]⟩

end Serve

/-! ## A refused record leaves no session up -/

section Refuse

variable {H : Host} {endpointId : Str}

theorem queueUspRecord_status (msg : Bytes) {w : SessionWorld} (h : w.session.status = .down) :
    Keeps True (queueUspRecord H endpointId msg) w (fun w' => w'.session.status ≠ .up) := by
  simp only [Keeps, queueUspRecord, wp_bind, wp_getSession, wp_ite]
  split
  · refine keeps_mono (queueUspSessionRecord_queues _ _ _ _) fun w' h' => ?_
    rw [h'.session]
    simp [establish, h]
  · simp only [queueUspNoSessionRecord, wp_bind, wp_require]
    split
    · refine keeps_mono (queueBinaryMessage_queues (P := fun _ => True) H trivial w) fun w' h' => ?_
      rw [h'.session]
      simp [h]
    · trivial

/-- After an event the session is down or being established anew. -/
theorem e2eSessionEvent_status {event : E2eEvent} (he : event ≠ .none) (w : SessionWorld) :
    Keeps True (e2eSessionEvent H event) w (fun w' => w'.session.status ≠ .up) := by
  simp only [Keeps, e2eSessionEvent, wp_bind, wp_modifySession, wp_ite, wp_pure, wp_read,
    wp_ignore, he, if_false]
  have hkick : ∀ w₁ : SessionWorld, w₁.session.status = .down →
      if event = .establishment ∨ event = .restart then
        Keeps True (queueUspRecord H w.endpointId []) w₁ (fun w' => w'.session.status ≠ .up)
      else w₁.session.status ≠ .up := by
    intro w₁ h₁
    split
    · exact queueUspRecord_status _ h₁
    · simp [h₁]
  split
  · refine keeps_mono (queueBinaryMessage_queues (P := fun _ => True) H trivial _) fun w₁ h₁ => ?_
    apply hkick
    rw [h₁.session]
    rfl
  · exact hkick _ rfl

theorem faultEvent_ne_none (s : E2eSession) : faultEvent s ≠ .none := by
  unfold faultEvent
  split <;> simp

end Refuse

section Iff

variable {H : Host} {w : SessionWorld} {ctx : SessionContextRecord} {record : Record}

variable {Q : Unit → SessionWorld → Prop} {E : Err → SessionWorld → Prop}

/-- A well-formed record gets as far as the checks of the session context. -/
theorem handleBinaryRecord_opens {T : Prop} (hr : record.recordType = .sessionContext ctx)
    (h : Opens w.session ctx) :
    Wp T (handleBinaryRecord H record) w Q E ↔ Wp T (handleUspRecord H record) w Q E := by
  obtain ⟨payload, hp⟩ := h.payload
  simp only [handleBinaryRecord, hr, wp_bind, validateSessionContextRecord, h.synchronized, hp,
    ne_eq, not_true_eq_false, List.length_singleton, if_false, wp_pure]

theorem handle_fault {T : Prop} {err : Err} (hr : record.recordType = .sessionContext ctx)
    (hf : contextFault w.session ctx = some err) :
    Wp T (handleUspRecord H record) w Q E ↔
      Wp T (e2eSessionEvent H (faultEvent w.session)) w (fun _ w' => E err w') E := by
  simp only [handleUspRecord, hr, wp_bind, validateSessionContextHandling, wp_getSession, hf,
    wp_fail]

/-- A record that opens a new session is served if and only if sessions are not
forbidden and no segments of an older message are left. -/
theorem served_iff (hr : record.recordType = .sessionContext ctx) (h : Opens w.session ctx) :
    Keeps False (handleBinaryRecord H record) w (Served ctx w) ↔
      w.session.mode ≠ .forbid ∧ w.session.receivedPayloads.vector = [] := by
  show Wp False (handleBinaryRecord H record) w _ _ ↔ _
  rw [handleBinaryRecord_opens hr h]
  constructor
  · intro hserved
    cases hf : contextFault w.session ctx with
    | none =>
      have hok := contextFault_eq_none.mp hf
      refine ⟨hok.mode, ?_⟩
      have hsar := hok.sar
      rcases h.sar with hs | hs <;> rw [hs] at hsar <;> simpa [isValidE2eSarState] using hsar
    | some err =>
      rw [handle_fault hr hf] at hserved
      obtain ⟨r, w', hrun⟩ := hserved.exists_run
      obtain ⟨hok, herr⟩ := hserved.of_run hrun
      obtain ⟨hok', herr'⟩ :=
        (e2eSessionEvent_status (faultEvent_ne_none w.session) w).of_run hrun
      cases r with
      | ok u => exact absurd (hok u rfl).status (hok' u rfl)
      | error e => exact absurd (herr e rfl).status (herr' e rfl)
  · rintro ⟨hmode, hempty⟩
    rw [handleUspRecord_valid hr (contextFault_eq_none.mpr (h.contextOk hmode hempty))]
    exact handle_serves h

end Iff

/-! ## A peer that starts again in the middle of a message -/

/-- The record by which the peer opens the session 3. -/
def restartRecord : Record :=
  recordTo quietHost ['a'] (.sessionContext (segment 3 1 .begin [2]))

theorem opens_restart (h : s.currentSessionId ≠ 3) :
    Opens s (segment 3 1 .begin [2]) where
  session := by decide
  other := Ne.symm h
  first := rfl
  expected := by decide
  synchronized := rfl
  payload := ⟨[2], rfl⟩
  sar := .inr rfl

theorem served_iff_new :
    Keeps False (handleBinaryRecord quietHost restartRecord) (newHistory .allow).world
        (Served (segment 3 1 .begin [2]) (newHistory .allow).world) ↔
      (newHistory .allow).world.session.mode ≠ .forbid ∧
        (newHistory .allow).world.session.receivedPayloads.vector = [] :=
  served_iff rfl (opens_restart (by decide))

/-- A session that received the first of several segments. -/
def halfReceived : SessionWorld :=
  (Prog.after (Prog.forEach [receiveSegment (segment 2 1 .begin [1])] (advance quietHost))
    (newHistory .allow)).world

/-- The record that opens the session 3 is refused and the peer is sent a
disconnect record. -/
theorem restart_refused :
    Opens halfReceived.session (segment 3 1 .begin [2]) ∧
    Prog.result (handleBinaryRecord quietHost restartRecord) halfReceived =
      some (.error .recordFieldInvalid) ∧
    ¬ Keeps False (handleBinaryRecord quietHost restartRecord) halfReceived
      (Served (segment 3 1 .begin [2]) halfReceived) := by
  have hrun : Prog.result (handleBinaryRecord quietHost restartRecord) halfReceived =
      some (.error .recordFieldInvalid) := by decide
  refine ⟨opens_restart (by decide), hrun, fun hserved => ?_⟩
  have hw := (hserved.of_run (Prog.run_eq hrun)).2 _ rfl
  exact absurd hw.status (by decide)

end NewSession
