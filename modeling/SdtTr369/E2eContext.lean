import SdtTr369.EffectProgram
import SdtTr369.SarVector
import Mathlib.Tactic.Tauto
import Mathlib.Tactic.ByContra

/-!
# End-to-end sessions

The session context of one controller and the functions of `e2e_context.c`
that send and receive records through it, with the parts of `msg_handler.c`
between them. The packed buffer of a queued record is kept as the record itself.
-/

namespace E2eContext

open UspTypes EffectProgram UspRecord SarVector

/-- `e2e_session_mode_t`. -/
inductive SessionMode where
  | require
  | allow
  | forbid
  deriving DecidableEq, Repr

/-- `e2e_session_status_t`. -/
inductive SessionStatus where
  | up
  | negotiating
  | down
  deriving DecidableEq, Repr

/-- `e2e_event_t`. -/
inductive E2eEvent where
  | none
  | establishment
  | termination
  | restart
  deriving DecidableEq, Repr

/-- `e2e_session_t`. -/
structure E2eSession where
  mode : SessionMode
  modeBuffered : SessionMode
  maxRecordSize : UInt32
  status : SessionStatus
  currentSessionId : UInt64
  lastSentSequenceId : UInt64
  lastRecvSequenceId : UInt64
  receivedPayloads : SarVector.Vector
  deriving DecidableEq

def e2eFirstValidSessId : UInt64 := 2
def e2eFirstSeqId : UInt64 := 1

/-- `mtp_content_type_t`, without the types no session function uses. -/
inductive ContentType where
  | uspMessage
  | disconnectRecord
  | sessTermination
  | fullMessage
  | begin
  | inProcess
  | complete
  deriving DecidableEq, Repr

structure MtpSendItem where
  contentType : ContentType
  pbuf : Record
  deriving DecidableEq, Repr

/-- A call of `MSG_HANDLER_HandleBinaryMessage`: with the payload of one record,
or with what was put together from several. -/
inductive Handled where
  | direct (pbuf : Bytes)
  | reassembled (pbuf : Bytes)
  deriving DecidableEq, Repr

def Handled.pbuf : Handled → Bytes
  | .direct pbuf | .reassembled pbuf => pbuf

/-- What the session functions call: the return codes (`none` is `USP_ERR_OK`)
of the message handler and of the MTP layer, which knows what is queued, and the
endpoint id of the agent. -/
structure Host where
  localEndpoint : Str
  handleBinaryMessage : Bytes → Option Err
  queueBinaryMessage : List MtpSendItem → MtpSendItem → Option Err

/-- A controller's endpoint id and session, the messages handed on and the
records queued so far. -/
structure SessionWorld where
  endpointId : Str
  session : E2eSession
  handled : List Handled
  queued : List MtpSendItem

/-- A host all of whose calls succeed. -/
def quietHost : Host where
  localEndpoint := ['a']
  handleBinaryMessage := fun _ => none
  queueBinaryMessage := fun _ _ => none

/-- The session that `ProcessControllerE2ESessionAdded` sets up. -/
def addedSession (mode : SessionMode) (maxRecordSize : UInt32) : E2eSession where
  mode := mode
  modeBuffered := mode
  maxRecordSize := maxRecordSize
  status := .down
  currentSessionId := e2eFirstValidSessId - 1
  lastSentSequenceId := 0
  lastRecvSequenceId := 0
  receivedPayloads := SarVector.Vector.init

abbrev Act := Prog SessionWorld Err

def getSession : Act E2eSession := Prog.read SessionWorld.session

def modifySession (f : E2eSession → E2eSession) : Act Unit :=
  Prog.update fun w => { w with session := f w.session }

@[simp] theorem wp_getSession {T : Prop} (w : SessionWorld) (Q : E2eSession → SessionWorld → Prop)
    (E : Err → SessionWorld → Prop) : Wp T getSession w Q E ↔ Q w.session w := Iff.rfl

@[simp] theorem wp_modifySession {T : Prop} (f : E2eSession → E2eSession) (w : SessionWorld)
    (Q : Unit → SessionWorld → Prop) (E : Err → SessionWorld → Prop) :
    Wp T (modifySession f) w Q E ↔ Q () { w with session := f w.session } := Iff.rfl

/-! ## Sending -/

/-- `DEVICE_CONTROLLER_QueueBinaryMessage`. -/
def queueBinaryMessage (H : Host) (item : MtpSendItem) : Act Unit := do
  let queued ← Prog.read SessionWorld.queued
  match H.queueBinaryMessage queued item with
  | some err => Prog.fail err
  | none => Prog.update fun w => { w with queued := w.queued ++ [item] }

theorem queueBinaryMessage_spec {T : Prop} (H : Host) (item : MtpSendItem) (w : SessionWorld) :
    Wp T (queueBinaryMessage H item) w
      (fun _ w' => w' = { w with queued := w.queued ++ [item] }) (fun _ w' => w' = w) := by
  simp only [queueBinaryMessage, wp_bind, wp_read]
  cases H.queueBinaryMessage w.queued item with
  | none => rfl
  | some err => rfl

def recordTo (H : Host) (endpointId : Str) (content : RecordType) : Record where
  version := agentCurrentProtocolVersion
  toId := endpointId
  fromId := H.localEndpoint
  recordType := content

/-- The block of `E2E_CONTEXT_QueueUspSessionRecord` that establishes a session
which is down. -/
def establish (s : E2eSession) : E2eSession :=
  if s.status = .down then
    { s with
      currentSessionId := s.currentSessionId + 1
      lastSentSequenceId := 0
      lastRecvSequenceId := 0
      status := .negotiating }
  else s

/-- The context of every record of one message, before its segment is put in. -/
def contextOf (s : E2eSession) : SessionContextRecord where
  sessionId := s.currentSessionId
  sequenceId := s.lastSentSequenceId + 1
  expectedId := s.lastRecvSequenceId + 1
  retransmitId := 0
  payloadSarState := .none
  payloadrecSarState := .none
  payload := []

/-- The SAR state of the segment of `len` bytes that is followed by
`remaining - len` more. -/
def sarStateOf (bytesQueued remaining len : Nat) : SarState :=
  if bytesQueued = 0 then (if remaining ≤ len then .none else .begin)
  else if remaining ≤ len then .complete
  else .inprocess

def contentTypeOf : SarState → ContentType
  | .none => .fullMessage
  | .begin => .begin
  | .complete => .complete
  | _ => .inProcess

/-- The record that carries one segment. -/
def segmentRecord (ctx : SessionContextRecord) (sequenceId : UInt64) (sar : SarState)
    (segment : Bytes) : SessionContextRecord :=
  { ctx with
    sequenceId := sequenceId
    payloadSarState := sar
    payloadrecSarState := sar
    payload := [segment] }

/-- The record does not fit into `MaxUSPRecordSize`. -/
def exceedsMaximum (s : E2eSession) (packed : Nat) : Bool :=
  s.maxRecordSize > 0 && UInt32.ofNat packed > s.maxRecordSize

/-- The do-while loop over the segments; each turn but the last queues
`maxPayloadSize` bytes, so a turn for each byte and one more are enough. -/
def queueSegments (H : Host) (endpointId : Str) (ctx : SessionContextRecord)
    (maxPayloadSize : Nat) (msg : Bytes) (turns bytesQueued : Nat) : Act Unit :=
  match turns with
  | 0 => Prog.require false
  | turns + 1 => do
    let remaining := msg.length - bytesQueued
    let len := min maxPayloadSize remaining
    let sar := sarStateOf bytesQueued remaining len
    modifySession fun s => { s with lastSentSequenceId := s.lastSentSequenceId + 1 }
    let s ← getSession
    let segment := (msg.drop bytesQueued).take len
    let record := segmentRecord ctx s.lastSentSequenceId sar segment
    if exceedsMaximum s (packedSize endpointId H.localEndpoint record) then
      Prog.fail .generalFailure
    else do
      queueBinaryMessage H ⟨contentTypeOf sar, recordTo H endpointId (.sessionContext record)⟩
      if bytesQueued + len < msg.length then
        queueSegments H endpointId ctx maxPayloadSize msg turns (bytesQueued + len)
      else pure ()

/-- Items that meet `P` were queued, and the session counted them; nothing else
changed. -/
structure Queues (P : MtpSendItem → Prop) (w w' : SessionWorld) : Prop where
  endpointId : w'.endpointId = w.endpointId
  session : w'.session =
    { w.session with lastSentSequenceId := w'.session.lastSentSequenceId }
  handled : w'.handled = w.handled
  queued : ∃ items, w'.queued = w.queued ++ items ∧ ∀ item ∈ items, P item

theorem Queues.refl (P : MtpSendItem → Prop) (w : SessionWorld) : Queues P w w :=
  ⟨rfl, rfl, rfl, [], by simp, by simp⟩

variable {P : MtpSendItem → Prop}

theorem Queues.trans {w₁ w₂ w₃ : SessionWorld} (h : Queues P w₁ w₂) (h' : Queues P w₂ w₃) :
    Queues P w₁ w₃ := by
  obtain ⟨items, hq, hp⟩ := h.queued
  obtain ⟨items', hq', hp'⟩ := h'.queued
  refine ⟨h'.endpointId.trans h.endpointId, ?_, h'.handled.trans h.handled, items ++ items',
    by rw [hq', hq, List.append_assoc], ?_⟩
  · rw [h'.session, h.session]
  · intro item hi
    rcases List.mem_append.mp hi with hi | hi
    · exact hp item hi
    · exact hp' item hi

theorem queueBinaryMessage_queues {T : Prop} (H : Host) {item : MtpSendItem} (hP : P item)
    (w : SessionWorld) : Keeps T (queueBinaryMessage H item) w (Queues P w) := by
  refine (queueBinaryMessage_spec H item w).mono ?_ ?_
  · rintro _ _ rfl
    exact ⟨rfl, rfl, rfl, [item], rfl, by simpa using hP⟩
  · rintro _ _ rfl
    exact Queues.refl P _

/-- A session-context record of the session `id`, to the endpoint. -/
def IsSessionRecord (endpointId : Str) (id : UInt64) (item : MtpSendItem) : Prop :=
  ∃ ctx, item.pbuf.recordType = .sessionContext ctx ∧ ctx.sessionId = id ∧
    item.pbuf.toId = endpointId

theorem queueSegments_queues (H : Host) (endpointId : Str) (ctx : SessionContextRecord)
    (cap : Nat) (msg : Bytes) (turns : Nat) :
    ∀ (k : Nat) (w : SessionWorld),
      Keeps True (queueSegments H endpointId ctx cap msg turns k) w
        (Queues (IsSessionRecord endpointId ctx.sessionId) w) := by
  induction turns with
  | zero =>
    intro k w
    simp [queueSegments, Keeps]
  | succ turns ih =>
    intro k w
    have hcount : Queues (IsSessionRecord endpointId ctx.sessionId) w { w with
        session := { w.session with lastSentSequenceId := w.session.lastSentSequenceId + 1 } } :=
      ⟨rfl, rfl, rfl, [], by simp, by simp⟩
    simp only [Keeps, queueSegments, wp_bind, wp_modifySession, wp_getSession, wp_ite, wp_fail,
      wp_pure]
    split
    · exact hcount
    refine (queueBinaryMessage_queues H ⟨_, rfl, rfl, rfl⟩ _).mono (fun _ w₁ h₁ => ?_)
      fun _ _ h₁ => hcount.trans h₁
    split
    · exact keeps_mono (ih _ w₁) fun w₂ h₂ => (hcount.trans h₁).trans h₂
    · exact hcount.trans h₁

/-- The bytes of the message that one record takes. -/
def payloadCapacity (H : Host) (endpointId : Str) (s : E2eSession) : UInt32 :=
  if s.maxRecordSize > 0 then
    computePayloadCapacity endpointId H.localEndpoint (contextOf s) s.maxRecordSize
  else 0xFFFFFFFF

/-- `E2E_CONTEXT_QueueUspSessionRecord`. -/
def queueUspSessionRecord (H : Host) (endpointId : Str) (msg : Bytes) : Act Unit := do
  modifySession establish
  let s ← getSession
  let maxPayloadSize := payloadCapacity H endpointId s
  Prog.require (maxPayloadSize > 50)
  queueSegments H endpointId (contextOf s) maxPayloadSize.toNat msg (msg.length + 1) 0

theorem queueUspSessionRecord_queues (H : Host) (endpointId : Str) (msg : Bytes)
    (w : SessionWorld) :
    Keeps True (queueUspSessionRecord H endpointId msg) w
      (Queues (IsSessionRecord endpointId (establish w.session).currentSessionId)
        { w with session := establish w.session }) := by
  simp only [Keeps, queueUspSessionRecord, wp_bind, wp_modifySession, wp_getSession, wp_require]
  split
  · exact queueSegments_queues _ _ _ _ _ _ _ _
  · trivial

/-- `QueueUspNoSessionRecord`. -/
def queueUspNoSessionRecord (H : Host) (endpointId : Str) (msg : Bytes) : Act Unit := do
  Prog.require (msg.length > 0)
  queueBinaryMessage H ⟨.uspMessage, recordTo H endpointId (.noSessionContext msg)⟩

/-- `E2E_CONTEXT_IsToSendThroughSessionContext`, for a session that was found. -/
def isToSendThroughSessionContext (s : E2eSession) : Bool :=
  s.status ≠ .down || s.mode = .require

/-- `MSG_HANDLER_QueueUspRecord`. -/
def queueUspRecord (H : Host) (endpointId : Str) (msg : Bytes) : Act Unit := do
  let s ← getSession
  if isToSendThroughSessionContext s then queueUspSessionRecord H endpointId msg
  else queueUspNoSessionRecord H endpointId msg

/-- `USP_ERR_SESS_CONTEXT_TERMINATED`. -/
def sessContextTerminated : Nat := 7105

/-- `MSG_HANDLER_QueueUspDisconnectRecord`, as the session events call it. -/
def queueUspDisconnectRecord (H : Host) (endpointId : Str) : Act Unit :=
  queueBinaryMessage H ⟨.sessTermination, recordTo H endpointId (.disconnect sessContextTerminated)⟩

/-! ## Events -/

def clearE2eSessionState (s : E2eSession) : E2eSession :=
  { s with
    status := .down
    lastSentSequenceId := 0
    lastRecvSequenceId := 0
    receivedPayloads := SarVector.Vector.init }

def applyMode (s : E2eSession) : E2eSession := { s with mode := s.modeBuffered }

/-- `E2E_CONTEXT_E2eSessionEvent` on the session of an enabled controller: the
endpoint id is there, and the codes of the queueing calls are dropped. -/
def e2eSessionEvent (H : Host) (event : E2eEvent) : Act Unit := do
  modifySession applyMode
  if event = .none then pure ()
  else do
    let endpointId ← Prog.read SessionWorld.endpointId
    modifySession clearE2eSessionState
    if event = .termination ∨ event = .restart then
      Prog.ignore (queueUspDisconnectRecord H endpointId)
    else pure ()
    if event = .establishment ∨ event = .restart then
      Prog.ignore (queueUspRecord H endpointId [])
    else pure ()

/-- The event raised when a record does not fit the session. -/
def faultEvent (s : E2eSession) : E2eEvent :=
  if s.mode = .require then .restart else .termination

/-! ## Receiving -/

def handleBinaryMessage (H : Host) (call : Handled) (pbuf : Bytes) : Act Unit := do
  Prog.update fun w => { w with handled := w.handled ++ [call] }
  match H.handleBinaryMessage pbuf with
  | some err => Prog.fail err
  | none => pure ()

/-- `IsValidSessionId`. -/
def isValidSessionId (id : UInt64) : Bool := id ≥ e2eFirstValidSessId

/-- `IsValidE2eSarState`. -/
def isValidE2eSarState (v : SarVector.Vector) : SarState → Bool
  | .none | .begin => v.vector = []
  | _ => v.vector ≠ []

/-- `E2E_CONTEXT_ValidateSessionContextRecord`, for a context that is there. -/
def validateSessionContextRecord (H : Host) (ctx : SessionContextRecord) : Act Unit :=
  if ctx.payloadrecSarState ≠ ctx.payloadSarState then do
    e2eSessionEvent H .restart
    Prog.fail .secureSessNotSupported
  else if ctx.payload.length ≠ 1 then do
    e2eSessionEvent H .restart
    Prog.fail .recordFieldInvalid
  else pure ()

/-- The tests of `ValidateSessionContextHandling`, in their order. -/
def contextFault (s : E2eSession) (ctx : SessionContextRecord) : Option Err :=
  if s.mode = .forbid then some .sessContextNotAllowed
  else if !isValidSessionId ctx.sessionId || ctx.sequenceId < e2eFirstSeqId ||
      ctx.expectedId < e2eFirstSeqId then
    some .recordFieldInvalid
  else if ctx.sessionId ≠ s.currentSessionId ∧ ctx.sequenceId ≠ e2eFirstSeqId then
    some .recordFieldInvalid
  else if !isValidE2eSarState s.receivedPayloads ctx.payloadSarState then
    some .recordFieldInvalid
  else none

/-- All the tests are passed. -/
structure ContextOk (s : E2eSession) (ctx : SessionContextRecord) : Prop where
  mode : s.mode ≠ .forbid
  session : 2 ≤ ctx.sessionId
  sequence : 1 ≤ ctx.sequenceId
  expected : 1 ≤ ctx.expectedId
  opens : ctx.sessionId ≠ s.currentSessionId → ctx.sequenceId = 1
  sar : isValidE2eSarState s.receivedPayloads ctx.payloadSarState = true

theorem contextFault_eq_none {s : E2eSession} {ctx : SessionContextRecord} :
    contextFault s ctx = none ↔ ContextOk s ctx := by
  unfold contextFault
  have hids : (!isValidSessionId ctx.sessionId || ctx.sequenceId < e2eFirstSeqId ||
      ctx.expectedId < e2eFirstSeqId) = true ↔
      ¬ (2 ≤ ctx.sessionId ∧ 1 ≤ ctx.sequenceId ∧ 1 ≤ ctx.expectedId) := by
    simp [isValidSessionId, e2eFirstValidSessId, e2eFirstSeqId, ← UInt64.not_le]
    tauto
  constructor
  · intro h
    split at h
    · cases h
    split at h
    · cases h
    rename_i hmode hid
    rw [hids, not_not] at hid
    split at h
    · cases h
    split at h
    · cases h
    rename_i hopens hsar
    refine ⟨hmode, hid.1, hid.2.1, hid.2.2, fun hne => ?_, by simpa using hsar⟩
    by_contra hseq
    exact hopens ⟨hne, hseq⟩
  · intro h
    rw [if_neg h.mode, if_neg (by rw [hids, not_not]; exact ⟨h.session, h.sequence, h.expected⟩),
      if_neg (by rintro ⟨hne, hseq⟩; exact hseq (h.opens hne)), if_neg (by simp [h.sar])]

/-- `ValidateSessionContextHandling`. -/
def validateSessionContextHandling (H : Host) (ctx : SessionContextRecord) : Act Unit := do
  let s ← getSession
  match contextFault s ctx with
  | none => pure ()
  | some err => do
    e2eSessionEvent H (faultEvent s)
    Prog.fail err

/-- `ValidateNoSessionContextHandling`. -/
def validateNoSessionContextHandling (H : Host) : Act Unit := do
  let s ← getSession
  if s.mode = .require then do
    e2eSessionEvent H .restart
    Prog.fail .invalidConfiguration
  else if s.status ≠ .down then do
    e2eSessionEvent H .termination
    Prog.fail .invalidConfiguration
  else pure ()

/-- The session takes over the identifiers of a record; a new session id resets it. -/
def takeOver (ctx : SessionContextRecord) (s : E2eSession) : E2eSession :=
  let s :=
    if s.currentSessionId ≠ ctx.sessionId then
      { clearE2eSessionState s with currentSessionId := ctx.sessionId }
    else s
  { s with lastRecvSequenceId := ctx.sequenceId, status := .up }

/-- The last block of `HandleSessionContextRecord`: the vector with the new
segment is kept, or serialized if the segment was the last one. -/
def storeSegment (H : Host) (ctx : SessionContextRecord) (sarVector : SarVector.Vector) :
    Act Unit := do
  modifySession fun s => { s with receivedPayloads := sarVector }
  if ctx.payloadSarState = .complete then do
    modifySession fun s => { s with receivedPayloads := SarVector.Vector.init }
    match sarVector.serialize with
    | none => Prog.fail .internalError
    | some buf => handleBinaryMessage H (.reassembled buf) buf
  else pure ()

/-- The segment of a record, as the SAR vector holds it. -/
def segmentOf (ctx : SessionContextRecord) (payload : Bytes) : SarPayload :=
  ⟨ctx.sessionId, ctx.sequenceId, payload⟩

/-- `HandleSessionContextRecord`. -/
def handleSessionContextRecord (H : Host) (ctx : SessionContextRecord) : Act Unit :=
  match ctx.payload with
  | [payload] => do
    modifySession (takeOver ctx)
    if payload.length = 0 then pure ()
    else if ctx.payloadSarState = .none then handleBinaryMessage H (.direct payload) payload
    else do
      let s ← getSession
      match s.receivedPayloads.append (segmentOf ctx payload) with
      | none => e2eSessionEvent H (faultEvent s)
      | some sarVector => storeSegment H ctx sarVector
  | _ => Prog.require false

/-- `E2E_CONTEXT_HandleUspRecord`. -/
def handleUspRecord (H : Host) (record : Record) : Act Unit :=
  match record.recordType with
  | .noSessionContext payload => do
    match ← (Prog.attempt (validateNoSessionContextHandling H) : Act (Except Err Unit)) with
    | .error _ => pure ()
    | .ok _ => handleBinaryMessage H (.direct payload) payload
  | .sessionContext ctx => do
    validateSessionContextHandling H ctx
    handleSessionContextRecord H ctx
  | .disconnect _ => Prog.require false

/-- `MSG_HANDLER_HandleBinaryRecord` for a record of the controller: the checks
of `ValidateUspRecord` on its content, then `E2E_CONTEXT_HandleUspRecord`. -/
def handleBinaryRecord (H : Host) (record : Record) : Act Unit :=
  match record.recordType with
  | .noSessionContext payload =>
    if payload = [] then Prog.fail .recordFieldInvalid else handleUspRecord H record
  | .sessionContext ctx => do
    validateSessionContextRecord H ctx
    handleUspRecord H record
  | .disconnect _ => do
    Prog.ignore (queueBinaryMessage H
      ⟨.disconnectRecord, recordTo H record.fromId (.disconnect sessContextTerminated)⟩)
    Prog.fail .sessContextTerminated

/-! ## One record, by what becomes of it -/

section Rules

variable {T : Prop} {H : Host} {w : SessionWorld} {ctx : SessionContextRecord} {payload : Bytes}
  {Q : Unit → SessionWorld → Prop} {E : Err → SessionWorld → Prop}

/-- The world after the identifiers of a record are taken over. -/
def taken (ctx : SessionContextRecord) (w : SessionWorld) : SessionWorld :=
  { w with session := takeOver ctx w.session }

theorem handle_empty (hp : ctx.payload = [[]]) :
    Wp T (handleSessionContextRecord H ctx) w Q E ↔ Q () (taken ctx w) := by
  simp only [handleSessionContextRecord, hp, wp_bind, wp_modifySession, List.length_nil, if_true,
    wp_pure]
  rfl

theorem handle_direct (hp : ctx.payload = [payload]) (hne : payload ≠ [])
    (hsar : ctx.payloadSarState = .none) :
    Wp T (handleSessionContextRecord H ctx) w Q E ↔
      Wp T (handleBinaryMessage H (.direct payload) payload) (taken ctx w) Q E := by
  simp only [handleSessionContextRecord, hp, wp_bind, wp_modifySession, List.length_eq_zero_iff,
    hne, hsar, if_true, if_false]
  rfl

theorem handle_refused (hp : ctx.payload = [payload]) (hne : payload ≠ [])
    (hsar : ctx.payloadSarState ≠ .none)
    (happ : (takeOver ctx w.session).receivedPayloads.append (segmentOf ctx payload) = none) :
    Wp T (handleSessionContextRecord H ctx) w Q E ↔
      Wp T (e2eSessionEvent H (faultEvent (takeOver ctx w.session))) (taken ctx w) Q E := by
  simp only [handleSessionContextRecord, hp, wp_bind, wp_modifySession, wp_getSession,
    List.length_eq_zero_iff, hne, hsar, if_false, happ]
  rfl

theorem handle_stored {v : SarVector.Vector} (hp : ctx.payload = [payload])
    (hne : payload ≠ []) (hsar : ctx.payloadSarState ≠ .none)
    (happ : (takeOver ctx w.session).receivedPayloads.append (segmentOf ctx payload) =
      some v) :
    Wp T (handleSessionContextRecord H ctx) w Q E ↔
      Wp T (storeSegment H ctx v) (taken ctx w) Q E := by
  simp only [handleSessionContextRecord, hp, wp_bind, wp_modifySession, wp_getSession,
    List.length_eq_zero_iff, hne, hsar, if_false, happ]
  rfl

variable {sarVector : SarVector.Vector}

/-- A segment that is not the last one stays in the vector. -/
theorem store_open (hsar : ctx.payloadSarState ≠ .complete) :
    Wp T (storeSegment H ctx sarVector) w Q E ↔
      Q () { w with session := { w.session with receivedPayloads := sarVector } } := by
  simp only [storeSegment, wp_bind, wp_modifySession, hsar, if_false, wp_pure]

/-- The last segment empties the vector, and what it serializes to is handed on. -/
theorem store_complete {buf : Bytes} (hsar : ctx.payloadSarState = .complete)
    (hbuf : sarVector.serialize = some buf) :
    Wp T (storeSegment H ctx sarVector) w Q E ↔
      Wp T (handleBinaryMessage H (.reassembled buf) buf)
        { w with session := { w.session with receivedPayloads := SarVector.Vector.init } } Q E := by
  simp only [storeSegment, wp_bind, wp_modifySession, hsar, if_true, hbuf]

/-- A record without a fault goes on to the session. -/
theorem handleUspRecord_valid {record : Record} (hr : record.recordType = .sessionContext ctx)
    (hf : contextFault w.session ctx = none) :
    Wp T (handleUspRecord H record) w Q E ↔ Wp T (handleSessionContextRecord H ctx) w Q E := by
  simp only [handleUspRecord, hr, wp_bind, validateSessionContextHandling, wp_getSession, hf,
    wp_pure]

theorem handleBinaryMessage_spec (call : Handled) (pbuf : Bytes) :
    Keeps T (handleBinaryMessage H call pbuf) w
      (fun w' => w' = { w with handled := w.handled ++ [call] }) := by
  show Wp T (handleBinaryMessage H call pbuf) w _ _
  simp only [handleBinaryMessage, wp_bind, wp_update]
  cases H.handleBinaryMessage pbuf with
  | none => rfl
  | some err => rfl

end Rules

end E2eContext
