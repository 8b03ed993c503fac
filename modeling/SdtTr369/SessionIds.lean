import SdtTr369.SessionRuns

/-!
# The session ids of the records sent

One step of a session that was set up: the records it sends carry a valid
session id, and they go out in a session that was up or in mode `Require`.
-/

namespace SessionIds

open UspTypes EffectProgram UspRecord SarVector E2eContext SessionRuns

/-- The session was given its first id, and a valid one once it is not down. -/
structure SetUp (s : E2eSession) : Prop where
  pos : 1 ≤ s.currentSessionId
  live : s.status ≠ .down → 2 ≤ s.currentSessionId

/-- The agent opens no session behind the largest id. -/
def NoWrap (s : E2eSession) : Prop :=
  s.currentSessionId = uint64Max → s.mode ≠ .require ∧ s.modeBuffered ≠ .require

instance (s : E2eSession) : Decidable (NoWrap s) := by
  unfold NoWrap
  infer_instance

/-- A session-context record has a valid session id and was sent in mode
`Require` or when the session was `up` already. -/
def Rightly (up : Prop) (mode : SessionMode) (item : MtpSendItem) : Prop :=
  ∀ ctx, item.pbuf.recordType = .sessionContext ctx → 2 ≤ ctx.sessionId ∧ (mode = .require ∨ up)

/-- What a step makes of a session, and what it sends. -/
structure Sends (up : Prop) (w w' : SessionWorld) : Prop where
  setUp : SetUp w'.session
  queued : ∃ items, w'.queued = w.queued ++ items ∧
    ∀ item ∈ items, Rightly up w'.session.mode item

variable {w : SessionWorld} {s : E2eSession}

theorem Sends.weaken {up up' : Prop} {w' : SessionWorld} (h : Sends up w w') (himp : up → up') :
    Sends up' w w' := by
  obtain ⟨hs, items, hq, hitems⟩ := h
  refine ⟨hs, items, hq, fun item hi ctx hctx => ?_⟩
  obtain ⟨hid, hmode⟩ := hitems item hi ctx hctx
  exact ⟨hid, hmode.imp_right himp⟩

theorem two_le_succ {id : UInt64} (h : 1 ≤ id) (hmax : id ≠ uint64Max) : 2 ≤ id + 1 := by
  have h₁ : 1 ≤ id.toNat := UInt64.le_iff_toNat_le.mp h
  have h₂ : id.toNat ≠ 2 ^ 64 - 1 := fun he => hmax (UInt64.toNat_inj.mp he)
  have h₃ := id.toNat_lt
  rw [UInt64.le_iff_toNat_le, UInt64.toNat_add]
  simp only [UInt64.toNat_ofNat]
  omega

theorem sends_of_eq {up : Prop} {w' : SessionWorld} (hs : SetUp w'.session)
    (hq : w'.queued = w.queued) : Sends up w w' :=
  ⟨hs, [], by simp [hq], by simp⟩

section Functions

variable {H : Host} {endpointId : Str}

/-- The session that carries a message has a valid id. -/
theorem establish_setUp (hs : SetUp s)
    (hwrap : s.currentSessionId = uint64Max → s.mode ≠ .require)
    (hsend : isToSendThroughSessionContext s = true) :
    2 ≤ (establish s).currentSessionId ∧ (establish s).mode = s.mode := by
  unfold establish
  split
  · rename_i hdown
    refine ⟨two_le_succ hs.pos fun hmax => hwrap hmax ?_, rfl⟩
    simpa [isToSendThroughSessionContext, hdown] using hsend
  · rename_i hup
    exact ⟨hs.live hup, rfl⟩

theorem queueUspRecord_sends (msg : Bytes) (hs : SetUp w.session)
    (hwrap : w.session.currentSessionId = uint64Max → w.session.mode ≠ .require) :
    Keeps True (queueUspRecord H endpointId msg) w
      (fun w' => w'.session.mode = w.session.mode ∧ Sends (w.session.status ≠ .down) w w') := by
  simp only [Keeps, queueUspRecord, wp_bind, wp_getSession, wp_ite]
  split
  · rename_i hsend
    obtain ⟨hid, hmode⟩ := establish_setUp hs hwrap hsend
    refine keeps_mono (queueUspSessionRecord_queues _ _ _ _) fun w' h' => ?_
    have hmode' : w'.session.mode = w.session.mode := by rw [h'.session]; exact hmode
    have hid' : w'.session.currentSessionId = (establish w.session).currentSessionId := by
      rw [h'.session]
    refine ⟨hmode', ⟨?_, fun _ => by rw [hid']; exact hid⟩, ?_⟩
    · rw [hid', UInt64.le_iff_toNat_le]
      have := UInt64.le_iff_toNat_le.mp hid
      simp at this ⊢
      omega
    · obtain ⟨items, hq, hitems⟩ := h'.queued
      refine ⟨items, hq, fun item hi ctx hctx => ?_⟩
      obtain ⟨ctx', hctx', hid₂, -⟩ := hitems item hi
      rw [hctx'] at hctx
      cases hctx
      refine ⟨hid₂ ▸ hid, ?_⟩
      rw [hmode']
      simpa [isToSendThroughSessionContext, or_comm] using hsend
  · simp only [queueUspNoSessionRecord, wp_bind, wp_require]
    split
    · refine keeps_mono (queueBinaryMessage_queues
        (P := fun item => ∀ ctx, item.pbuf.recordType ≠ .sessionContext ctx) H
        (by intro ctx h; cases h) w) fun w' h' => ?_
      obtain ⟨items, hq, hitems⟩ := h'.queued
      have hmode : w'.session.mode = w.session.mode := by rw [h'.session]
      have hs' : SetUp w'.session := by
        rw [h'.session]
        exact ⟨hs.pos, hs.live⟩
      exact ⟨hmode, hs', items, hq, fun item hi ctx hctx => absurd hctx (hitems item hi ctx)⟩
    · trivial

/-- An event leaves the session set up, and what it sends is sent in the mode
that applies then. -/
theorem e2eSessionEvent_sends (event : E2eEvent) (hs : SetUp w.session) (hwrap : NoWrap w.session) :
    Keeps True (e2eSessionEvent H event) w (Sends False w) := by
  simp only [Keeps, e2eSessionEvent, wp_bind, wp_modifySession, wp_ite, wp_pure, wp_read,
    wp_ignore]
  split
  · exact sends_of_eq ⟨hs.pos, hs.live⟩ rfl
  -- the session is down when the kick-off record is sent
  have hkick : ∀ w₁ : SessionWorld,
      w₁.session = { clearE2eSessionState (applyMode w.session) with
        lastSentSequenceId := w₁.session.lastSentSequenceId } →
      (∃ items, w₁.queued = w.queued ++ items ∧
        ∀ item ∈ items, ∀ ctx, item.pbuf.recordType ≠ .sessionContext ctx) →
      if event = .establishment ∨ event = .restart then
        Keeps True (queueUspRecord H w.endpointId []) w₁ (Sends False w)
      else Sends False w w₁ := by
    rintro w₁ hw₁ ⟨items, hq, hitems⟩
    have hdown : w₁.session.status = .down := by rw [hw₁]; rfl
    have hs₁ : SetUp w₁.session := ⟨by rw [hw₁]; exact hs.pos, fun h => absurd hdown h⟩
    split
    · refine keeps_mono (queueUspRecord_sends _ hs₁ ?_) fun w₂ h₂ => ?_
      · rw [hw₁]
        exact fun hmax => (hwrap hmax).2
      · obtain ⟨-, hs₂, items₂, hq₂, hitems₂⟩ := h₂
        refine ⟨hs₂, items ++ items₂, by rw [hq₂, hq, List.append_assoc], fun item hi ctx hctx => ?_⟩
        rcases List.mem_append.mp hi with hi | hi
        · exact absurd hctx (hitems item hi ctx)
        · obtain ⟨hid, hmode | hup⟩ := hitems₂ item hi ctx hctx
          · exact ⟨hid, .inl hmode⟩
          · exact absurd hdown hup
    · exact ⟨hs₁, items, hq, fun item hi ctx hctx => absurd hctx (hitems item hi ctx)⟩
  split
  · refine keeps_mono (queueBinaryMessage_queues
      (P := fun item => ∀ ctx, item.pbuf.recordType ≠ .sessionContext ctx) H
      (by intro ctx h; cases h) _) fun w₁ h₁ => hkick w₁ h₁.session h₁.queued
  · exact hkick _ rfl ⟨[], by simp, by simp⟩

end Functions

section Step

variable {H : Host} {ctx : SessionContextRecord}

theorem takeOver_setUp (h : 2 ≤ ctx.sessionId) : SetUp (takeOver ctx s) := by
  have hid : (takeOver ctx s).currentSessionId = ctx.sessionId := by
    unfold takeOver
    by_cases hne : s.currentSessionId = ctx.sessionId
    · simp [hne]
    · simp [hne]
  refine ⟨?_, fun _ => hid ▸ h⟩
  rw [hid, UInt64.le_iff_toNat_le]
  have := UInt64.le_iff_toNat_le.mp h
  simp at this ⊢
  omega

/-- A segment is refused only in the session that was current before. -/
theorem current_of_refused {payload : Bytes}
    (h : (takeOver ctx s).receivedPayloads.append (segmentOf ctx payload) = none) :
    s.currentSessionId = ctx.sessionId := by
  by_contra hne
  obtain ⟨v, hv, -⟩ := Vector.init_append (segmentOf ctx payload)
  have hinit : (takeOver ctx s).receivedPayloads = SarVector.Vector.init := by
    simp [takeOver, hne, clearE2eSessionState]
  rw [hinit, hv] at h
  cases h

theorem accepted_sends {payload : Bytes} (hp : ctx.payload = [payload])
    (hok : ContextOk w.session ctx) (hwrap : NoWrap w.session) :
    Keeps True (handleSessionContextRecord H ctx) w (Sends False w) := by
  have hset : SetUp (takeOver ctx w.session) := takeOver_setUp hok.session
  by_cases hne : payload = []
  · subst hne
    exact (handle_empty hp).mpr (sends_of_eq hset rfl)
  by_cases hnone : ctx.payloadSarState = .none
  · refine (handle_direct hp hne hnone).mpr (keeps_mono (handleBinaryMessage_spec _ _) ?_)
    rintro _ rfl
    exact sends_of_eq hset rfl
  cases happ : (takeOver ctx w.session).receivedPayloads.append (segmentOf ctx payload) with
  | none =>
    have htake : takeOver ctx w.session =
        { w.session with lastRecvSequenceId := ctx.sequenceId, status := .up } := by
      simp [takeOver, current_of_refused happ]
    have hwrap' : NoWrap (taken ctx w).session := by
      simp only [taken, htake]
      exact hwrap
    refine (handle_refused hp hne hnone happ).mpr
      (keeps_mono (e2eSessionEvent_sends _ hset hwrap') fun _ h => ?_)
    exact ⟨h.setUp, h.queued⟩
  | some v =>
    refine (handle_stored hp hne hnone happ).mpr ?_
    simp only [storeSegment, wp_bind, wp_modifySession, wp_ite, wp_pure]
    split
    · cases v.serialize with
      | none => exact sends_of_eq ⟨hset.pos, hset.live⟩ rfl
      | some buf =>
        refine keeps_mono (handleBinaryMessage_spec _ _) ?_
        rintro _ rfl
        exact sends_of_eq ⟨hset.pos, hset.live⟩ rfl
    · exact sends_of_eq ⟨hset.pos, hset.live⟩ rfl

/-- What one step of a session sends, whatever the step. -/
theorem runStep_sends (step : SessionStep) (hs : SetUp w.session) (hwrap : NoWrap w.session) :
    Keeps True (runStep H step) w (Sends (w.session.status ≠ .down) w) := by
  have hevent : ∀ event, Keeps True (e2eSessionEvent H event) w
      (Sends (w.session.status ≠ .down) w) := fun event =>
    keeps_mono (e2eSessionEvent_sends event hs hwrap) fun _ h => h.weaken False.elim
  cases step with
  | receive record =>
    cases hacc : acceptedBy w (.receive record) with
    | none =>
      refine rejected_keeps hacc (sends_of_eq hs rfl) hevent (fun w₁ pbuf h₁ => ?_) fun code => ?_
      · exact ⟨h₁.setUp, h₁.queued⟩
      · refine keeps_mono (queueBinaryMessage_queues
          (P := fun item => ∀ ctx, item.pbuf.recordType ≠ .sessionContext ctx) H
          (by intro ctx h; cases h) _) fun w' h' => ?_
        obtain ⟨items, hq, hitems⟩ := h'.queued
        refine ⟨?_, items, hq, fun item hi ctx hctx => absurd hctx (hitems item hi ctx)⟩
        rw [h'.session]
        exact ⟨hs.pos, hs.live⟩
    | some ctx =>
      obtain ⟨hok, ⟨payload, hp⟩, hwp⟩ := handleBinaryRecord_accepted (H := H) (T := True)
        (Q := fun _ => Sends (w.session.status ≠ .down) w)
        (E := fun _ => Sends (w.session.status ≠ .down) w) hacc
      refine hwp.mpr (keeps_mono (accepted_sends hp hok hwrap) fun _ h => ?_)
      exact h.weaken False.elim
  | send msg =>
    simp only [Keeps, runStep, wp_bind, wp_read]
    refine keeps_mono (queueUspRecord_sends msg hs fun hmax => (hwrap hmax).1) fun _ h => h.2
  | event event => exact hevent event
  | setMode mode => exact sends_of_eq ⟨hs.pos, hs.live⟩ rfl
  | setMaxRecordSize size => exact sends_of_eq ⟨hs.pos, hs.live⟩ rfl

end Step

end SessionIds
