import SdtTr369.ControllerRoles

/-!
# Records and messages

The way of a received record through `msg_handler.c`: the record is validated,
taken through the session of the controller that sent it, and the message that
comes out of this is processed. The three static variables about the current
message are set on the way. What protobuf unpacks and what the handlers of the
messages do is given by an `Agent`.
-/

namespace MessageHandler

open UspTypes EffectProgram UspRecord DataModelRead ControllerTable E2eContext

/-- What a record carries; a context or a payload that is not there is `none`, and
`other` stands for the types that no agent expects. -/
inductive Content where
  | noSessionContext (payload : Option Bytes)
  | sessionContext (ctx : Option SessionContextRecord)
  | disconnect
  | other
  deriving DecidableEq, Repr

/-- `UspRecord__Record`, where `none` is `NULL`. -/
structure Received where
  toId : Option Str
  fromId : Option Str
  plaintext : Bool
  content : Content
  deriving DecidableEq, Repr

/-- The message types that `HandleUspMessage` tells apart. `ignored` are the
errors, the responses and the types without a name. -/
inductive MsgType where
  | get | set | add | delete | operate | notifyResp | getSupportedProto | getInstances
  | getSupportedDm | notify
  | ignored
  deriving DecidableEq, Repr

/-- `Usp__Msg`: the type in its header, if there is a header, and the rest. -/
structure UspMsg (β : Type) where
  header : Option MsgType
  body : β

/-- `mtp_reply_to_t`. -/
structure ReplyTo where
  isReplyToSpecified : Bool
  protocol : MtpProtocol
  deriving DecidableEq, Repr

/-! ## State -/

/-- The controllers array, the session in each slot, and the records queued. A
session's settings are those that the slot holds. -/
structure Table where
  slots : Slots
  sessions : Nat → E2eSession
  queued : List MtpSendItem

/-- The static variables about the current message; `INVALID` is `none`. -/
structure CurMsg where
  controllerInstance : Option Nat
  combinedRole : CombinedRole
  controllerInfo : Option Str
  deriving DecidableEq

/-- `MSG_HANDLER_GetMsgControllerInstance`. -/
def getMsgControllerInstance (m : CurMsg) : Nat := m.controllerInstance.getD 1

/-- `MSG_HANDLER_GetMsgRole`. -/
def getMsgRole (m : CurMsg) : CombinedRole := m.combinedRole

/-- `MSG_HANDLER_GetControllerInfo`. -/
def getControllerInfo (m : CurMsg) : Option Str := m.controllerInfo

/-- A message that was processed: how it came, and what the getters gave meanwhile. -/
structure Processed where
  call : Handled
  controllerInstance : Nat
  role : CombinedRole
  controllerInfo : Option Str
  deriving DecidableEq

structure World where
  table : Table
  curMsg : CurMsg
  processed : List Processed

/-- What the message handler calls: protobuf, the MTP layer, and the handlers of
the messages, which may change everything but the variables of this file (`none`
is the end of the process). -/
structure Agent (β : Type) where
  localEndpoint : Str
  unpackRecord : Bytes → Option Received
  unpackMsg : Bytes → Option (UspMsg β)
  queueBinaryMessage : List MtpSendItem → MtpSendItem → Option Err
  handle : UspMsg β → CurMsg → Table → Option Table

/-- The session functions as they are called from here: a message that they hand
on is handled when they are through. -/
def Agent.host {β : Type} (A : Agent β) : Host where
  localEndpoint := A.localEndpoint
  handleBinaryMessage := fun _ => none
  queueBinaryMessage := A.queueBinaryMessage

abbrev HandlerOp := Prog World Err

/-- `USP_ERR_MESSAGE_NOT_UNDERSTOOD`. -/
def messageNotUnderstood : Err := .vendor 7001

/-- `USP_ERR_SECURE_SESS_NOT_SUPPORTED`. -/
def secureSessNotSupported : Nat := 7102

/-- `USP_ERR_RECORD_FIELD_INVALID`. -/
def recordFieldInvalid : Nat := 7104

/-- The variables before the first message. -/
def noMessage : CurMsg := ⟨none, ⟨roleDefault, roleDefault⟩, none⟩

/-! ## Controllers -/

/-- `FindFirstEnabledMtp`. -/
def findFirstEnabledMtp (cont : Controller) (preferredProtocol : MtpProtocol) : Option Mtp :=
  let enabled := cont.mtps.reduceOption.filter (·.enable)
  (enabled.find? fun mtp => preferredProtocol = .none || preferredProtocol = mtp.protocol).or
    enabled.head?

/-- `DEVICE_CONTROLLER_IsMTPConfigured`; `none` is the end of the process. -/
def isMtpConfigured (slots : Slots) (endpointId : Str) (protocol : MtpProtocol) : Option Bool :=
  match (findEnabledControllerByEndpointId slots endpointId).bind fun k =>
      slots[k]?.join.bind (findFirstEnabledMtp · protocol) with
  | none => some false
  | some mtp =>
    match protocol with
    | .none => none
    | .mqtt =>
      if mtp.mqttConnectionInstance = none then some false
      else mtp.mqttControllerTopic.map fun topic => topic ≠ []

/-- `DEVICE_CONTROLLER_FindInstanceByEndpointId`. -/
def findInstanceByEndpointId (slots : Slots) (endpointId : Str) : Option Nat :=
  (findEnabledControllerByEndpointId slots endpointId).bind fun k => slots[k]?.join.map (·.inst)

/-- `DEVICE_CONTROLLER_FindE2ESessionByInstance`, as the slot of the session and
the controller there. -/
def findE2eSessionByInstance (slots : Slots) (inst : Nat) : Option (Nat × Controller) :=
  (findControllerByInstance slots inst).bind fun k =>
    (slots[k]?.join.filter (·.enable)).map fun cont => (k, cont)

/-- `e2e_session_t` of a slot. -/
def sessionOf (t : Table) (k : Nat) (cont : Controller) : E2eSession :=
  { t.sessions k with
    modeBuffered := cont.session.modeBuffered
    maxRecordSize := cont.session.maxRecordSize }

/-- Run a session function on the session of a slot; the messages that it hands
on are the result. -/
def withSession (k : Nat) (cont : Controller) (m : E2eContext.Act Unit) :
    HandlerOp (List Handled) := fun w =>
  (m ⟨cont.endpointId, sessionOf w.table k cont, [], w.table.queued⟩).map fun (r, s) =>
    (r.map fun _ => s.handled,
      { w with table :=
        { w.table with
          sessions := Function.update w.table.sessions k s.session
          queued := s.queued } })

/-- `E2E_CONTEXT_E2eSessionEvent`. -/
def e2eSessionEvent {β : Type} (A : Agent β) (event : E2eEvent) (inst : Nat) : HandlerOp Unit := do
  match ← Prog.read fun w => findE2eSessionByInstance w.table.slots inst with
  | none => pure ()
  | some (k, cont) => Prog.ignore (withSession k cont (E2eContext.e2eSessionEvent A.host event))

/-- `MSG_HANDLER_QueueUspDisconnectRecord` to the sender of a record; its code is dropped. -/
def queueUspDisconnectRecord {β : Type} (A : Agent β) (endpointId : Str) (reasonCode : Nat) :
    HandlerOp Unit := fun w =>
  let item := ⟨.disconnectRecord, recordTo A.host endpointId (.disconnect reasonCode)⟩
  match A.queueBinaryMessage w.table.queued item with
  | some _ => some (.ok (), w)
  | none => some (.ok (), { w with table := { w.table with queued := w.table.queued ++ [item] } })

/-! ## Messages -/

section Handler

variable {β : Type} (A : Agent β)

def updateCurMsg (f : CurMsg → CurMsg) : HandlerOp Unit :=
  Prog.update fun w => { w with curMsg := f w.curMsg }

/-- `CacheControllerRoleForCurMsg`. -/
def cacheControllerRoleForCurMsg (endpointId : Str) (role : Nat) (protocol : MtpProtocol) :
    HandlerOp Unit := do
  updateCurMsg fun m => { m with controllerInfo := some endpointId }
  let slots ← Prog.read fun w => w.table.slots
  if protocol ≠ .mqtt ∧ getCombinedRoleByEndpointId slots endpointId ≠ none then Prog.halt
  else
    match ControllerRoles.cacheControllerRoleForCurMsg slots endpointId role with
    | none => Prog.halt
    | some combined => updateCurMsg fun m => { m with combinedRole := combined }

/-- The handler of a message. -/
def runHandler (usp : UspMsg β) : HandlerOp Unit := fun w =>
  (A.handle usp w.curMsg w.table).map fun t => (.ok (), { w with table := t })

/-- The `switch` of `HandleUspMessage`; a Notify is answered with an error message. -/
def dispatch (usp : UspMsg β) : HandlerOp Unit :=
  match usp.header with
  | none => Prog.fail messageNotUnderstood
  | some .ignored => Prog.fail .requestDenied
  | some _ => runHandler A usp

/-- `HandleUspMessage`. -/
def handleUspMessage (usp : UspMsg β) (call : Handled) : HandlerOp Unit := do
  Prog.update fun w =>
    { w with processed := w.processed ++ [⟨call, getMsgControllerInstance w.curMsg,
      getMsgRole w.curMsg, getControllerInfo w.curMsg⟩] }
  let r ← (Prog.attempt (dispatch A usp) : HandlerOp (Except Err Unit))
  -- the label `exit`
  updateCurMsg fun m => { m with controllerInstance := none }
  match r with
  | .error err => Prog.fail err
  | .ok _ => pure ()

/-- `MSG_HANDLER_HandleBinaryMessage`. -/
def handleBinaryMessage (call : Handled) (role : Nat) (controllerEndpoint : Str) (mrt : ReplyTo) :
    HandlerOp Unit :=
  match A.unpackMsg call.pbuf with
  | none => Prog.fail messageNotUnderstood
  | some usp => do
    cacheControllerRoleForCurMsg controllerEndpoint role mrt.protocol
    handleUspMessage A usp call

/-! ## Records -/

/-- `E2E_CONTEXT_ValidateSessionContextRecord`. -/
def validateSessionContextRecord (inst : Nat) : Option SessionContextRecord → HandlerOp Unit
  | none => do
    e2eSessionEvent A .restart inst
    Prog.fail .recordNotParsed
  | some ctx =>
    if ctx.payloadrecSarState ≠ ctx.payloadSarState then do
      e2eSessionEvent A .restart inst
      Prog.fail .secureSessNotSupported
    else if ctx.payload.length ≠ 1 then do
      e2eSessionEvent A .restart inst
      Prog.fail .recordFieldInvalid
    else pure ()

/-- The last `switch` of `ValidateUspRecord`. -/
def validateContent (inst : Nat) (fromId : Str) : Content → HandlerOp Unit
  | .noSessionContext payload =>
    if payload.getD [] = [] then Prog.fail .recordFieldInvalid else pure ()
  | .sessionContext ctx => validateSessionContextRecord A inst ctx
  | .disconnect => do
    queueUspDisconnectRecord A fromId sessContextTerminated
    Prog.fail .sessContextTerminated
  | .other => Prog.fail .requestDenied

def Content.isSessionContext : Content → Bool
  | .sessionContext _ => true
  | _ => false

/-- The sender can be answered, where the record came from or as the data model says. -/
def requireReplyTo (fromId : Str) (mrt : ReplyTo) : HandlerOp Unit :=
  if mrt.isReplyToSpecified then pure ()
  else do
    match ← Prog.read fun w => isMtpConfigured w.table.slots fromId mrt.protocol with
    | none => Prog.halt
    | some false => Prog.fail .requestDenied
    | some true => pure ()

/-- `ValidateUspRecord` from the known sender on. -/
def validateFrom (inst : Nat) (fromId : Str) (rec : Received) (mrt : ReplyTo) :
    HandlerOp Unit := do
  requireReplyTo fromId mrt
  if !rec.plaintext && !rec.content.isSessionContext then do
    queueUspDisconnectRecord A fromId recordFieldInvalid
    Prog.fail .recordFieldInvalid
  else if !rec.plaintext then do
    queueUspDisconnectRecord A fromId secureSessNotSupported
    Prog.fail .secureSessNotSupported
  else validateContent A inst fromId rec.content

/-- `ValidateUspRecord`. -/
def validateUspRecord (rec : Received) (mrt : ReplyTo) : HandlerOp Unit :=
  if rec.toId ≠ some A.localEndpoint then Prog.fail .requestDenied
  else
    match rec.fromId with
    | none | some [] => Prog.fail .recordFieldInvalid
    | some fromId => do
      let inst ← Prog.read fun w => findInstanceByEndpointId w.table.slots fromId
      updateCurMsg fun m => { m with controllerInstance := inst }
      match inst with
      | none => Prog.fail .requestDenied
      | some inst => validateFrom A inst fromId rec mrt

/-- The record that the session functions are given. -/
def recordOf (fromId : Str) (content : RecordType) : Record :=
  ⟨agentCurrentProtocolVersion, A.localEndpoint, fromId, content⟩

/-- A validated record in the session of its sender. Without a session a session
context is not refused but read, which ends the process. -/
def throughSession (fromId : Str) (content : Content) (session : Option (Nat × Controller)) :
    HandlerOp (List Handled) :=
  match content, session with
  | .noSessionContext (some payload), none => pure [.direct payload]
  | .noSessionContext (some payload), some (k, cont) =>
    withSession k cont
      (E2eContext.handleUspRecord A.host (recordOf A fromId (.noSessionContext payload)))
  | .sessionContext (some ctx), some (k, cont) =>
    withSession k cont
      (E2eContext.handleUspRecord A.host (recordOf A fromId (.sessionContext ctx)))
  | _, _ => Prog.halt

/-- `E2E_CONTEXT_HandleUspRecord`. -/
def handleUspRecord (fromId : Str) (content : Content) (role : Nat) (mrt : ReplyTo) :
    HandlerOp Unit := do
  let inst ← Prog.read fun w => getMsgControllerInstance w.curMsg
  let session ← Prog.read fun w => findE2eSessionByInstance w.table.slots inst
  let handled ← throughSession A fromId content session
  Prog.forEach handled fun call => handleBinaryMessage A call role fromId mrt

/-- `MSG_HANDLER_HandleBinaryRecord`. -/
def handleBinaryRecord (pbuf : Bytes) (role : Nat) (mrt : ReplyTo) : HandlerOp Unit :=
  match A.unpackRecord pbuf with
  | none => Prog.fail .recordNotParsed
  | some rec => do
    validateUspRecord A rec mrt
    handleUspRecord A (rec.fromId.getD []) rec.content role mrt

end Handler

end MessageHandler
