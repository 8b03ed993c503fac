import SdtTr369.E2eContext

/-!
# Runs of one session

Records come in, messages go out, events and parameter changes happen, in any
order. A message put together from segments consists of a run of accepted
records, as long as no segment opens a session over the rest of another one.
-/

namespace SessionRuns

open UspTypes EffectProgram UspRecord SarVector E2eContext

/-- What can happen to the session of a controller. -/
inductive SessionStep where
  | receive (record : Record)
  | send (msg : Bytes)
  | event (event : E2eEvent)
  | setMode (mode : SessionMode)
  | setMaxRecordSize (size : UInt32)
  deriving DecidableEq

def runStep (H : Host) (step : SessionStep) : Act Unit :=
  match step with
  | .receive record => handleBinaryRecord H record
  | .send msg => do
    let endpointId ← Prog.read SessionWorld.endpointId
    queueUspRecord H endpointId msg
  | .event event => e2eSessionEvent H event
  | .setMode mode => modifySession fun s => { s with modeBuffered := mode }
  | .setMaxRecordSize size => modifySession fun s => { s with maxRecordSize := size }

/-! ## Steps that assemble nothing -/

/-- Nothing was put together, and the vector is as it was or empty. -/
structure Quiet (w w' : SessionWorld) : Prop where
  handled : ∀ buf, .reassembled buf ∈ w'.handled → .reassembled buf ∈ w.handled
  vector : w'.session.receivedPayloads.vector = w.session.receivedPayloads.vector ∨
    w'.session.receivedPayloads.vector = []

theorem Quiet.refl (w : SessionWorld) : Quiet w w := ⟨fun _ h => h, .inl rfl⟩

theorem Quiet.trans {w₁ w₂ w₃ : SessionWorld} (h : Quiet w₁ w₂) (h' : Quiet w₂ w₃) :
    Quiet w₁ w₃ := by
  refine ⟨fun buf hb => h.handled buf (h'.handled buf hb), ?_⟩
  rcases h'.vector with h₂ | h₂
  · rcases h.vector with h₁ | h₁
    · exact .inl (h₂.trans h₁)
    · exact .inr (h₂.trans h₁)
  · exact .inr h₂

variable {w : SessionWorld}

/-- Nothing but the counters and the identifiers of the session and the queue changes. -/
theorem quiet_of_eq {w' : SessionWorld} (hh : w'.handled = w.handled)
    (hv : w'.session.receivedPayloads = w.session.receivedPayloads) : Quiet w w' :=
  ⟨fun _ h => hh ▸ h, .inl (by rw [hv])⟩

theorem quiet_of_queues {P : MtpSendItem → Prop} {w' : SessionWorld} (h : Queues P w w') :
    Quiet w w' :=
  quiet_of_eq h.handled (by rw [h.session])

theorem quiet_direct (w : SessionWorld) (pbuf : Bytes) :
    Quiet w { w with handled := w.handled ++ [.direct pbuf] } :=
  ⟨fun buf hb => by simpa using hb, .inl rfl⟩

section Quiet

variable {T : Prop} {H : Host} {endpointId : Str}

theorem queueBinaryMessage_quiet (item : MtpSendItem) (w : SessionWorld) :
    Keeps T (queueBinaryMessage H item) w (Quiet w) :=
  keeps_mono (queueBinaryMessage_queues (P := fun _ => True) H trivial w) fun _ h =>
    quiet_of_queues h

theorem establish_receivedPayloads (s : E2eSession) :
    (establish s).receivedPayloads = s.receivedPayloads := by
  unfold establish
  split <;> rfl

theorem queueUspRecord_quiet (msg : Bytes) (w : SessionWorld) :
    Keeps True (queueUspRecord H endpointId msg) w (Quiet w) := by
  simp only [Keeps, queueUspRecord, wp_bind, wp_getSession, wp_ite]
  split
  · have hest : Quiet w { w with session := establish w.session } :=
      quiet_of_eq rfl (establish_receivedPayloads _)
    exact keeps_mono (queueUspSessionRecord_queues _ _ _ _) fun w' h' => hest.trans (quiet_of_queues h')
  · simp only [queueUspNoSessionRecord, wp_bind, wp_require]
    split
    · exact queueBinaryMessage_quiet _ _
    · trivial

theorem e2eSessionEvent_quiet (event : E2eEvent) (w : SessionWorld) :
    Keeps True (e2eSessionEvent H event) w (Quiet w) := by
  simp only [Keeps, e2eSessionEvent, wp_bind, wp_modifySession, wp_ite, wp_pure, wp_read,
    wp_ignore]
  have hmode : Quiet w { w with session := applyMode w.session } := quiet_of_eq rfl rfl
  split
  · exact hmode
  have hclear : Quiet w { w with session := clearE2eSessionState (applyMode w.session) } :=
    ⟨fun _ h => h, .inr rfl⟩
  -- the kick-off record comes behind the disconnect record, whether that was queued or not
  have hkick : ∀ w₁, Quiet w w₁ →
      if event = .establishment ∨ event = .restart then
        Keeps True (queueUspRecord H w.endpointId []) w₁ (Quiet w)
      else Quiet w w₁ := by
    intro w₁ h₁
    split
    · exact keeps_mono (queueUspRecord_quiet _ _) fun w₂ h₂ => h₁.trans h₂
    · exact h₁
  split
  · refine keeps_mono (queueBinaryMessage_quiet _ _) fun w₁ h₁ => hkick w₁ (hclear.trans h₁)
  · exact hkick _ hclear

end Quiet

/-! ## What is put together -/

/-- The bytes of a record's payloads. -/
def payloadOf (r : SessionContextRecord) : Bytes := r.payload.flatten

/-- The segment of `s` may stand behind the one of `r`. -/
def NextRecord (r s : SessionContextRecord) : Prop :=
  r.sessionId = s.sessionId ∧ s.sequenceId = r.sequenceId + 1

instance (r s : SessionContextRecord) : Decidable (NextRecord r s) := instDecidableAnd

/-- A run of records that is not completed: first `BEGIN`, then `INPROCESS` only. -/
def OpenRun : List SessionContextRecord → Prop
  | [] => True
  | r :: rs => r.payloadSarState = .begin ∧ ∀ s ∈ rs, s.payloadSarState = .inprocess

/-- The message is the text of a run of records: `BEGIN`, then `INPROCESS`, then
`COMPLETE`, in one session and with consecutive sequence ids. -/
structure Assembled (accepted : List SessionContextRecord) (buf : Bytes)
    (run : List SessionContextRecord) (last : SessionContextRecord) : Prop where
  received : (run ++ [last]).Sublist accepted
  begun : run ≠ []
  opened : OpenRun run
  completed : last.payloadSarState = .complete
  consecutive : (run ++ [last]).IsChain NextRecord
  text : buf = (run ++ [last]).flatMap payloadOf

/-- A session and the session-context records it accepted so far. -/
structure History where
  world : SessionWorld
  accepted : List SessionContextRecord

/-- The record a step brings, if it passes all checks. -/
def acceptedBy (w : SessionWorld) : SessionStep → Option SessionContextRecord
  | .receive record =>
    match record.recordType with
    | .sessionContext ctx =>
      if ctx.payloadrecSarState = ctx.payloadSarState ∧ ctx.payload.length = 1 ∧
          contextFault w.session ctx = none then some ctx
      else none
    | _ => none
  | _ => none

def advance (H : Host) (step : SessionStep) : Prog History Err Unit := fun h =>
  match runStep H step h.world with
  | none => none
  | some (_, w) => some (.ok (), ⟨w, h.accepted ++ (acceptedBy h.world step).toList⟩)

theorem keeps_advance {H : Host} {step : SessionStep} {h : History} {I : History → Prop}
    (hk : Keeps True (runStep H step) h.world fun w =>
      I ⟨w, h.accepted ++ (acceptedBy h.world step).toList⟩) :
    Keeps True (advance H step) h I := by
  unfold Keeps Wp advance at *
  cases hr : runStep H step h.world with
  | none => trivial
  | some x =>
    obtain ⟨r, w⟩ := x
    rw [hr] at hk
    cases r <;> exact hk

/-- The vector holds an open run of accepted records, and every message put
together so far is a completed one. -/
structure Gathered (h : History) : Prop where
  buffer : ∃ run, run.Sublist h.accepted ∧ OpenRun run ∧
    h.world.session.receivedPayloads.vector = run.map fun r => segmentOf r (payloadOf r)
  messages : ∀ buf, .reassembled buf ∈ h.world.handled →
    ∃ run last, Assembled h.accepted buf run last

theorem Assembled.later {accepted : List SessionContextRecord} {buf : Bytes}
    {run : List SessionContextRecord} {last : SessionContextRecord}
    (h : Assembled accepted buf run last) (more : List SessionContextRecord) :
    Assembled (accepted ++ more) buf run last :=
  { h with received := h.received.trans (List.sublist_append_left _ _) }

theorem Gathered.of_quiet {h : History} (hg : Gathered h) (hq : Quiet h.world w)
    (more : List SessionContextRecord) : Gathered ⟨w, h.accepted ++ more⟩ := by
  constructor
  · rcases hq.vector with hv | hv
    · obtain ⟨run, hsub, hopen, hvec⟩ := hg.buffer
      exact ⟨run, hsub.trans (List.sublist_append_left _ _), hopen, hv.trans hvec⟩
    · exact ⟨[], List.nil_sublist _, trivial, hv⟩
  · intro buf hb
    obtain ⟨run, last, ha⟩ := hg.messages buf (hq.handled buf hb)
    exact ⟨run, last, ha.later more⟩

/-- What is asked of a step: a segment that is taken either begins a message or
belongs to the current session and goes on or completes it, with less than
`2^32` bytes in all. -/
def Orderly (step : SessionStep) (h : History) : Prop :=
  ∀ ctx ∈ acceptedBy h.world step, payloadOf ctx ≠ [] → ctx.payloadSarState ≠ .none →
    ctx.payloadSarState = .begin ∨
    (ctx.sessionId = h.world.session.currentSessionId ∧
      (ctx.payloadSarState = .inprocess ∨ ctx.payloadSarState = .complete ∧
        totalLength h.world.session.receivedPayloads.vector + (payloadOf ctx).length < 2 ^ 32))

instance (step : SessionStep) (h : History) : Decidable (Orderly step h) := by
  unfold Orderly
  infer_instance

/-! ## One step -/

section Step

variable {H : Host} {h : History} {ctx : SessionContextRecord} {payload : Bytes}

theorem quiet_taken (ctx : SessionContextRecord) (w : SessionWorld) : Quiet w (taken ctx w) := by
  refine ⟨fun _ hb => hb, ?_⟩
  simp only [taken, takeOver]
  split
  · exact .inr rfl
  · exact .inl rfl

theorem payloadOf_single (hp : ctx.payload = [payload]) : payloadOf ctx = payload := by
  simp [payloadOf, hp]

variable {v : SarVector.Vector} {record : Record}

/-- A first segment starts a run. -/
theorem gathered_begin (hg : Gathered h) (hbegin : ctx.payloadSarState = .begin)
    (hv : v.vector = [segmentOf ctx (payloadOf ctx)]) (s : E2eSession) :
    Gathered ⟨{ h.world with session := { s with receivedPayloads := v } },
      h.accepted ++ [ctx]⟩ := by
  constructor
  · exact ⟨[ctx], List.sublist_append_right _ _, ⟨hbegin, by simp⟩, hv⟩
  · intro buf hb
    obtain ⟨run, last, ha⟩ := hg.messages buf hb
    exact ⟨run, last, ha.later _⟩

/-- A further segment of the current session makes the run longer. -/
theorem gathered_inprocess (hg : Gathered h)
    (hin : ctx.payloadSarState = .inprocess)
    (hne : h.world.session.receivedPayloads.vector ≠ [])
    (hv : v.vector =
      h.world.session.receivedPayloads.vector ++ [segmentOf ctx (payloadOf ctx)])
    (s : E2eSession) : Gathered ⟨{ h.world with session := { s with receivedPayloads := v } },
      h.accepted ++ [ctx]⟩ := by
  obtain ⟨⟨run, hsub, hopen, hvec⟩, hmsg⟩ := hg
  constructor
  · refine ⟨run ++ [ctx], hsub.append (List.Sublist.refl _), ?_, by rw [hv, hvec]; simp⟩
    cases run with
    | nil => rw [hvec] at hne; exact absurd rfl hne
    | cons r rs =>
      refine ⟨hopen.1, fun x hx => ?_⟩
      rcases List.mem_append.mp hx with hx | hx
      · exact hopen.2 x hx
      · rw [List.mem_singleton.mp hx]; exact hin
  · intro buf hb
    obtain ⟨run, last, ha⟩ := hmsg buf hb
    exact ⟨run, last, ha.later _⟩

/-- The last segment of the current session completes the run. -/
theorem assembled_complete {buf : Bytes} (hg : Gathered h)
    (hcomplete : ctx.payloadSarState = .complete)
    (hne : h.world.session.receivedPayloads.vector ≠ [])
    (hv : v.vector =
      h.world.session.receivedPayloads.vector ++ [segmentOf ctx (payloadOf ctx)])
    (hbuf : v.serialize = some buf) (hlen : totalLength v.vector < 2 ^ 32) :
    ∃ run last, Assembled (h.accepted ++ [ctx]) buf run last := by
  obtain ⟨run, hsub, hopen, hvec⟩ := hg.buffer
  have hall : v.vector = (run ++ [ctx]).map fun r => segmentOf r (payloadOf r) := by
    rw [hv, hvec]
    simp
  refine ⟨run, ctx, hsub.append (List.Sublist.refl _), ?_, hopen, hcomplete, ?_, ?_⟩
  · rintro rfl
    rw [hvec] at hne
    exact hne rfl
  · have hchain := v.linked
    rw [hall, List.isChain_map] at hchain
    exact hchain
  · rw [Vector.serialize_eq_text hbuf hlen, hall, Vector.text, List.flatMap_map]
    rfl

/-- An accepted record keeps the messages whole when it is an orderly one. -/
theorem accepted_step (hg : Gathered h) (hp : ctx.payload = [payload])
    (hok : ContextOk h.world.session ctx)
    (horderly : payload ≠ [] → ctx.payloadSarState ≠ .none →
      ctx.payloadSarState = .begin ∨
      (ctx.sessionId = h.world.session.currentSessionId ∧
        (ctx.payloadSarState = .inprocess ∨ ctx.payloadSarState = .complete ∧
          totalLength h.world.session.receivedPayloads.vector + payload.length < 2 ^ 32))) :
    Keeps True (handleSessionContextRecord H ctx) h.world
      fun w => Gathered ⟨w, h.accepted ++ [ctx]⟩ := by
  have hpay : payloadOf ctx = payload := payloadOf_single hp
  have htaken := quiet_taken ctx h.world
  by_cases hne : payload = []
  · subst hne
    exact (handle_empty hp).mpr (hg.of_quiet htaken _)
  by_cases hnone : ctx.payloadSarState = .none
  · refine (handle_direct hp hne hnone).mpr (keeps_mono (handleBinaryMessage_spec _ _) ?_)
    rintro _ rfl
    exact hg.of_quiet (htaken.trans (quiet_direct _ _)) _
  cases happ : (takeOver ctx h.world.session).receivedPayloads.append (segmentOf ctx payload) with
  | none =>
    refine (handle_refused hp hne hnone happ).mpr (keeps_mono (e2eSessionEvent_quiet _ _) ?_)
    intro w hq
    exact hg.of_quiet (htaken.trans hq) _
  | some v =>
    refine (handle_stored hp hne hnone happ).mpr ?_
    have hv := Vector.append_vector happ
    rcases horderly hne hnone with hbegin | ⟨hcur, hrest⟩
    · -- the vector was empty before the record and still is
      have hsar := hok.sar
      rw [hbegin] at hsar
      have hempty : (takeOver ctx h.world.session).receivedPayloads.vector = [] := by
        have h₀ : h.world.session.receivedPayloads.vector = [] := by
          simpa [isValidE2eSarState] using hsar
        rcases htaken.vector with h₁ | h₁
        · exact h₁.trans h₀
        · exact h₁
      refine (store_open (by rw [hbegin]; simp)).mpr ?_
      exact gathered_begin hg hbegin (by rw [hv, hempty, hpay]; rfl) _
    have htake : (takeOver ctx h.world.session).receivedPayloads =
        h.world.session.receivedPayloads := by
      simp [takeOver, hcur]
    rw [htake, ← hpay] at hv
    have hcontent : h.world.session.receivedPayloads.vector ≠ [] := by
      have hsar := hok.sar
      rcases hrest with hs | ⟨hs, -⟩ <;> rw [hs] at hsar <;>
        simpa [isValidE2eSarState] using hsar
    rcases hrest with hin | ⟨hcomplete, hlen⟩
    · refine (store_open (by rw [hin]; simp)).mpr ?_
      exact gathered_inprocess hg hin hcontent hv _
    -- the vector is emptied, and what it serializes to, if anything, is handed on
    have hemptied : Quiet h.world { taken ctx h.world with
        session := { (taken ctx h.world).session with
          receivedPayloads := SarVector.Vector.init } } := ⟨fun _ hb => hb, .inr rfl⟩
    have hg' := hg.of_quiet hemptied [ctx]
    cases hbuf : v.serialize with
    | none =>
      simp only [storeSegment, wp_bind, wp_modifySession, hcomplete, if_true, hbuf, wp_fail]
      exact hg'
    | some buf =>
      refine (store_complete hcomplete hbuf).mpr (keeps_mono (handleBinaryMessage_spec _ _) ?_)
      rintro _ rfl
      refine ⟨hg'.buffer, fun b hb => ?_⟩
      rcases List.mem_append.mp hb with hb | hb
      · exact hg'.messages b hb
      · cases List.mem_singleton.mp hb
        refine assembled_complete hg hcomplete hcontent hv hbuf ?_
        rw [hv, totalLength_append, totalLength_singleton, ← hpay] at *
        exact hlen

/-- A record that fails a check does nothing but raise an event, send a
disconnect record or, without a session context, hand its payload on. -/
theorem rejected_keeps {I : SessionWorld → Prop}
    (hrej : acceptedBy w (.receive record) = none) (hself : I w)
    (hevent : ∀ event, Keeps True (e2eSessionEvent H event) w I)
    (hdirect : ∀ w₁ pbuf, I w₁ → I { w₁ with handled := w₁.handled ++ [.direct pbuf] })
    (hdisconnect : ∀ code, Keeps True (queueBinaryMessage H
      ⟨.disconnectRecord, recordTo H record.fromId (.disconnect code)⟩) w I) :
    Keeps True (handleBinaryRecord H record) w I := by
  unfold handleBinaryRecord
  cases hr : record.recordType with
  | noSessionContext payload =>
    simp only [Keeps, wp_ite, wp_fail]
    split
    · exact hself
    simp only [handleUspRecord, hr, wp_bind, wp_attempt]
    have hvalid : Keeps True (validateNoSessionContextHandling H) w I := by
      simp only [Keeps, validateNoSessionContextHandling, wp_bind, wp_getSession, wp_ite, wp_fail,
        wp_pure]
      split
      · exact hevent _
      · split
        · exact hevent _
        · exact hself
    refine hvalid.mono (fun _ w₁ h₁ => ?_) fun _ w₁ h₁ => h₁
    refine keeps_mono (handleBinaryMessage_spec _ _) ?_
    rintro _ rfl
    exact hdirect w₁ payload h₁
  | disconnect code =>
    simp only [Keeps, wp_bind, wp_ignore, wp_fail]
    exact hdisconnect _
  | sessionContext ctx =>
    simp only [acceptedBy, hr, ite_eq_right_iff, reduceCtorEq, imp_false] at hrej
    simp only [Keeps, wp_bind, validateSessionContextRecord, wp_ite, wp_fail, wp_pure]
    split
    · exact hevent _
    · split
      · exact hevent _
      · rename_i hsync hlen
        simp only [handleUspRecord, hr, wp_bind, validateSessionContextHandling, wp_getSession]
        cases hf : contextFault w.session ctx with
        | none => exact absurd ⟨not_not.mp hsync, not_not.mp hlen, hf⟩ hrej
        | some err =>
          simp only [wp_bind, wp_fail]
          exact hevent _

/-- A record that fails a check assembles nothing. -/
theorem rejected_quiet (hrej : acceptedBy w (.receive record) = none) :
    Keeps True (handleBinaryRecord H record) w (Quiet w) :=
  rejected_keeps hrej (Quiet.refl w) (fun event => e2eSessionEvent_quiet event w)
    (fun w₁ pbuf h₁ => h₁.trans (quiet_direct w₁ pbuf))
    fun _ => queueBinaryMessage_quiet _ w

/-- A record that passes all checks goes on to the session. -/
theorem handleBinaryRecord_accepted {T : Prop} {Q : Unit → SessionWorld → Prop}
    {E : Err → SessionWorld → Prop} (hacc : acceptedBy w (.receive record) = some ctx) :
    ContextOk w.session ctx ∧ (∃ payload, ctx.payload = [payload]) ∧
      (Wp T (handleBinaryRecord H record) w Q E ↔
        Wp T (handleSessionContextRecord H ctx) w Q E) := by
  simp only [acceptedBy] at hacc
  split at hacc
  · rename_i c hr
    split at hacc
    · rename_i hc
      cases hacc
      obtain ⟨hsync, hlen, hf⟩ := hc
      refine ⟨contextFault_eq_none.mp hf, List.length_eq_one_iff.mp hlen, ?_⟩
      simp only [handleBinaryRecord, hr, wp_bind, validateSessionContextRecord, hsync, hlen,
        ne_eq, not_true_eq_false, if_false, wp_pure]
      exact handleUspRecord_valid hr hf
    · cases hacc
  · cases hacc

/-- An orderly step keeps the messages whole. -/
theorem step_gathered (step : SessionStep) (h : History) (hg : Gathered h)
    (horderly : Orderly step h) : Keeps True (advance H step) h Gathered := by
  apply keeps_advance
  cases step with
  | receive record =>
    cases hacc : acceptedBy h.world (.receive record) with
    | none => exact keeps_mono (rejected_quiet hacc) fun w hq => hg.of_quiet hq _
    | some ctx =>
      obtain ⟨hok, ⟨payload, hp⟩, hwp⟩ := handleBinaryRecord_accepted (H := H) (T := True)
        (Q := fun _ w => Gathered ⟨w, h.accepted ++ [ctx]⟩)
        (E := fun _ w => Gathered ⟨w, h.accepted ++ [ctx]⟩) hacc
      have ho := horderly ctx hacc
      rw [payloadOf_single hp] at ho
      exact hwp.mpr (accepted_step hg hp hok ho)
  | send msg =>
    simp only [Keeps, runStep, wp_bind, wp_read]
    exact keeps_mono (queueUspRecord_quiet _ _) fun w hq => hg.of_quiet hq _
  | event event => exact keeps_mono (e2eSessionEvent_quiet _ _) fun w hq => hg.of_quiet hq _
  | setMode mode =>
    have hq : Quiet h.world { h.world with
        session := { h.world.session with modeBuffered := mode } } := quiet_of_eq rfl rfl
    exact hg.of_quiet hq _
  | setMaxRecordSize size =>
    have hq : Quiet h.world { h.world with
        session := { h.world.session with maxRecordSize := size } } := quiet_of_eq rfl rfl
    exact hg.of_quiet hq _

end Step

/-! ## Whole runs -/

/-- In a run of orderly steps every message put together from segments is the
text of a run of accepted records of one session, in sequence, from `BEGIN`
over `INPROCESS` to `COMPLETE`. -/
theorem runs_assemble (H : Host) (steps : List SessionStep) (w : SessionWorld)
    (hempty : w.session.receivedPayloads.vector = []) (hhandled : w.handled = [])
    (horderly : MeetsAlong Orderly (advance H) steps ⟨w, []⟩) :
    Keeps True (Prog.forEach steps (advance H)) ⟨w, []⟩ fun h =>
      ∀ buf, .reassembled buf ∈ h.world.handled →
        ∃ run last, Assembled h.accepted buf run last := by
  have hstart : Gathered ⟨w, []⟩ := by
    constructor
    · exact ⟨[], List.Sublist.refl _, trivial, hempty⟩
    · intro buf hb
      rw [hhandled] at hb
      cases hb
  exact keeps_mono (keeps_run step_gathered steps hstart horderly) fun h hg => hg.messages

/-- A record that carries one segment. -/
def segment (sessionId sequenceId : UInt64) (sar : SarState) (payload : Bytes) :
    SessionContextRecord where
  sessionId := sessionId
  sequenceId := sequenceId
  expectedId := 1
  retransmitId := 0
  payloadSarState := sar
  payloadrecSarState := sar
  payload := [payload]

def receiveSegment (ctx : SessionContextRecord) : SessionStep :=
  .receive (recordTo quietHost ['a'] (.sessionContext ctx))

/-- A new controller's session, with nothing received. -/
def newHistory (mode : SessionMode) : History where
  world :=
    { endpointId := ['c']
      session := addedSession mode 0
      handled := []
      queued := [] }
  accepted := []

/-- A message in three segments. -/
def threeSegments : List SessionStep :=
  [receiveSegment (segment 2 1 .begin [1]), receiveSegment (segment 2 2 .inprocess [2]),
    receiveSegment (segment 2 3 .complete [3])]

theorem runs_assemble_three :
    Keeps True (Prog.forEach threeSegments (advance quietHost)) (newHistory .allow) fun h =>
      ∀ buf, .reassembled buf ∈ h.world.handled →
        ∃ run last, Assembled h.accepted buf run last :=
  runs_assemble quietHost threeSegments (newHistory .allow).world rfl rfl (by decide)

/-- A segment `COMPLETE` that opens a session while the vector holds the
beginning of a message of another one. -/
def fragments : List SessionStep :=
  [receiveSegment (segment 2 1 .begin [1]), receiveSegment (segment 3 1 .complete [2])]

/-- The check of the SAR state still sees the old segments, which the new
session id then throws away: the lone fragment is handed on as a message. -/
theorem fragment_becomes_message :
    .reassembled [2] ∈
      (Prog.after (Prog.forEach fragments (advance quietHost)) (newHistory .allow)).world.handled ∧
    ¬ ∃ run last, Assembled
      (Prog.after (Prog.forEach fragments (advance quietHost)) (newHistory .allow)).accepted
      [2] run last := by
  refine ⟨by decide, ?_⟩
  have hacc : (Prog.after (Prog.forEach fragments (advance quietHost))
      (newHistory .allow)).accepted = [segment 2 1 .begin [1], segment 3 1 .complete [2]] := by
    decide
  rw [hacc]
  rintro ⟨run, last, h⟩
  have hlen : 1 ≤ run.length := List.length_pos_iff.mpr h.begun
  have hall := h.received.eq_of_length_le (by simp; omega)
  have hchain := h.consecutive
  rw [hall] at hchain
  exact absurd hchain (by decide)

end SessionRuns
