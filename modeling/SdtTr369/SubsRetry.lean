import SdtTr369.UspTypes
import SdtTr369.DecimalText
import SdtTr369.RunHistory

/-!
# Notifications that wait for a response

`subs_retry.c`: a notification that wants a response is kept and sent again
until the response comes. The entries are told apart by the instance of their
subscription and the path they are about. What comes from outside (the clock,
the random waiting time) is a `Host` that answers the calls of a turn of the
main loop one after the other.
-/

namespace SubsRetry

open UspTypes DecimalText

/-- `END_OF_TIME`. -/
def endOfTime : Int := 2 ^ 31 - 1

/-- `MAX_NOTIFY_MSG_ID`. -/
def maxNotifyMsgId : Nat := 64

/-- The types of `subs_notify_t` that a notification has. -/
inductive SubsNotify where
  | valueChange
  | objectCreation
  | objectDeletion
  | operationComplete
  | event
  deriving DecidableEq, Repr

/-- What a message is about; each has its own counter. -/
inductive MessageKind where
  | subs (notifyType : SubsNotify)
  | onBoardRequest
  deriving DecidableEq, Repr

/-- `notify_types` and the string of `OnBoardRequestMessageId`. -/
def MessageKind.text : MessageKind → Str
  | .subs .valueChange => "ValueChange".toList
  | .subs .objectCreation => "ObjectCreation".toList
  | .subs .objectDeletion => "ObjectDeletion".toList
  | .subs .operationComplete => "OperationComplete".toList
  | .subs .event => "Event".toList
  | .onBoardRequest => "OnBoardRequest".toList

/-- The fields of `subs_t` that `SendNotify` reads. -/
structure Subs where
  inst : Nat
  contInstance : Nat
  subscriptionId : Str
  notificationRetry : Bool
  notifyType : SubsNotify
  retryExpiryPeriod : Nat
  deriving DecidableEq, Repr

/-- The fields of `controller_t` that decide about retries. -/
structure Controller where
  inst : Nat
  enable : Bool
  endpointId : Str
  subsRetryMinWaitInterval : Nat
  subsRetryIntervalMultiplier : Nat
  deriving DecidableEq, Repr

/-- The part of `Usp__Notify` that depends on the notification. -/
inductive NotifyContent where
  | valueChange (paramPath paramValue : Str)
  | objCreation (objPath : Str)
  | objDeletion (objPath : Str)
  | operComplete (command commandKey : Str) (outputArgs : Except Err (List (Str × Str)))
  | event (eventName : Str) (params : List (Str × Str))
  | onBoardReq (oui productClass serialNumber : Str)
  deriving DecidableEq

/-- `Usp__Msg`, which is also what its serialisation stands for. -/
structure NotifyReq where
  msgId : Str
  subscriptionId : Str
  sendResp : Bool
  content : NotifyContent
  deriving DecidableEq

/-- The message that `SUBS_RETRY_Add` is given. Every caller passes a path, so
that `differentiator` is never NULL. -/
structure Notification where
  inst : Nat
  msgId : Str
  subscriptionId : Str
  destEndpoint : Str
  differentiator : Str
  pbuf : NotifyReq
  retryExpiryTime : Int
  deriving DecidableEq

/-- `subs_retry_t`. Entries that are marked for deletion are garbage collected
before the function that marks them returns, and are left out at once here. -/
structure SubsRetryEntry where
  notification : Notification
  retryCount : Nat
  minWaitInterval : Nat
  intervalMultiplier : Nat
  nextRetryTime : Int
  deriving DecidableEq

/-- A message that was queued for a controller. -/
structure QueuedNotify where
  endpointId : Str
  msgId : Str
  pbuf : NotifyReq
  expiryTime : Int
  deriving DecidableEq

/-- The answers to the calls of a turn: the turn and the call. -/
structure Host where
  time : Nat → Nat → Int
  isoTime : Nat → Str
  retryWait : Nat → Nat → (retryCount minWait multiplier : Nat) → Nat
  uninitialised : Nat → Nat × Nat

structure State where
  controllers : List (Option Controller)
  subsRetry : List SubsRetryEntry
  firstRetryTime : Int
  messageCount : MessageKind → Nat
  queued : List QueuedNotify
  turn : Nat

def initialState (controllers : List (Option Controller)) : State :=
  ⟨controllers, [], endOfTime, fun _ => 0, [], 0⟩

/-! ## Message ids -/

/-- `CalcMessageId` and `OnBoardRequestMessageId`: the counter is unsigned and
printed as a signed number. -/
def messageId (H : Host) (s : State) (kind : MessageKind) : Str :=
  let count := UInt32.ofNat (s.messageCount kind + 1)
  (kind.text ++ '-' :: H.isoTime s.turn ++ '-' :: intDigits (signedWord count)).take
    (maxNotifyMsgId - 1)

def countMessage (s : State) (kind : MessageKind) : State :=
  { s with messageCount := fun k => if k = kind then s.messageCount k + 1 else s.messageCount k }

/-! ## Controllers -/

/-- `FindControllerByInstance`. -/
def findControllerByInstance (controllers : List (Option Controller)) (inst : Nat) :
    Option Controller :=
  controllers.reduceOption.find? fun cont => cont.inst = inst

/-- `FindEnabledControllerByEndpointId`. -/
def findEnabledControllerByEndpointId (controllers : List (Option Controller))
    (endpointId : Str) : Option Controller :=
  controllers.reduceOption.find? fun cont => cont.enable && cont.endpointId = endpointId

/-- `DEVICE_CONTROLLER_FindEndpointIdByInstance`. -/
def findEndpointIdByInstance (controllers : List (Option Controller)) (inst : Nat) : Option Str :=
  match findControllerByInstance controllers inst with
  | none => none
  | some cont => if cont.enable = false then none else some cont.endpointId

/-- `DEVICE_CONTROLLER_GetSubsRetryParams`. -/
def getSubsRetryParams (controllers : List (Option Controller)) (endpointId : Str) :
    Option (Nat × Nat) :=
  (findEnabledControllerByEndpointId controllers endpointId).map fun cont =>
    (cont.subsRetryMinWaitInterval, cont.subsRetryIntervalMultiplier)

/-! ## The retry vector -/

/-- The comparison of `FindRetryEntry`. -/
def isRetryOf (inst : Nat) (differentiator : Str) (sr : SubsRetryEntry) : Bool :=
  sr.notification.inst = inst && sr.notification.differentiator = differentiator

/-- `CalcNextSubsRetryTime`. -/
def calcNextSubsRetryTime (H : Host) (turn call : Nat) (sr : SubsRetryEntry) : Int :=
  H.time turn call + H.retryWait turn call sr.retryCount sr.minWaitInterval sr.intervalMultiplier

/-- `UpdateFirstRetryTime`. -/
def updateFirstRetryTime (s : State) : State :=
  let earlier (first : Int) (sr : SubsRetryEntry) :=
    if sr.nextRetryTime < first then sr.nextRetryTime else first
  { s with firstRetryTime := s.subsRetry.foldl earlier endOfTime }

/-- Put `sr` in the place of the first entry that `FindRetryEntry` finds, or
behind the others. -/
def replaceRetryEntry (sr : SubsRetryEntry) : List SubsRetryEntry → List SubsRetryEntry
  | [] => [sr]
  | old :: rest =>
    if isRetryOf sr.notification.inst sr.notification.differentiator old then sr :: rest
    else old :: replaceRetryEntry sr rest

/-- `SUBS_RETRY_Add`. When the controller is disabled and there is no entry, the
function goes on with parameters that nobody has set. -/
def subsRetryAdd (H : Host) (n : Notification) (s : State) : State :=
  let params := getSubsRetryParams s.controllers n.destEndpoint
  if params = none ∧ s.subsRetry.any (isRetryOf n.inst n.differentiator) = true then
    { s with subsRetry := s.subsRetry.eraseP (isRetryOf n.inst n.differentiator) }
  else
    let (minWait, multiplier) := params.getD (H.uninitialised s.turn)
    let sr : SubsRetryEntry := ⟨n, 1, minWait, multiplier, 0⟩
    let sr := { sr with nextRetryTime := calcNextSubsRetryTime H s.turn 1 sr }
    updateFirstRetryTime { s with subsRetry := replaceRetryEntry sr s.subsRetry }

/-- `SUBS_RETRY_Remove`: the subscription id is ignored. -/
def subsRetryRemove (msgId : Str) (s : State) : State :=
  if s.subsRetry.any (fun sr => sr.notification.msgId = msgId) = true then
    updateFirstRetryTime
      { s with subsRetry := s.subsRetry.eraseP fun sr => sr.notification.msgId = msgId }
  else s

/-- `SUBS_RETRY_Delete`. -/
def subsRetryDelete (inst : Nat) (s : State) : State :=
  updateFirstRetryTime
    { s with subsRetry := s.subsRetry.filter fun sr => sr.notification.inst ≠ inst }

/-- An entry with the time of its next retry, when it is sent again. -/
def nextRetry (H : Host) (turn call : Nat) (sr : SubsRetryEntry) : SubsRetryEntry :=
  let sr := { sr with retryCount := sr.retryCount + 1 }
  { sr with nextRetryTime := calcNextSubsRetryTime H turn call sr }

/-- One turn of the loop of `SubsRetryExec`: what is left of the entry. -/
def retryEntry (H : Host) (turn : Nat) (curTime : Int) (call : Nat) (sr : SubsRetryEntry) :
    Option SubsRetryEntry :=
  if sr.notification.retryExpiryTime ≤ curTime then none
  else if sr.nextRetryTime ≤ curTime then
    if sr.notification.retryExpiryTime ≤ (nextRetry H turn call sr).nextRetryTime then none
    else some (nextRetry H turn call sr)
  else some sr

/-- The messages that `SubsRetryExec` sends again. -/
def resent (curTime : Int) (sr : SubsRetryEntry) : Option QueuedNotify :=
  if ¬ sr.notification.retryExpiryTime ≤ curTime ∧ sr.nextRetryTime ≤ curTime then
    some ⟨sr.notification.destEndpoint, sr.notification.msgId, sr.notification.pbuf,
      sr.notification.retryExpiryTime⟩
  else none

/-- `SubsRetryExec`: the process ends when the clock was set back. -/
def subsRetryExec (H : Host) (s : State) : Option State :=
  let curTime := H.time s.turn 0
  if curTime < s.firstRetryTime then none
  else some <| updateFirstRetryTime
    { s with
      subsRetry := (s.subsRetry.zipIdx 1).filterMap fun (sr, call) =>
        retryEntry H s.turn curTime call sr
      queued := s.queued ++ s.subsRetry.filterMap (resent curTime) }

/-! ## Sending -/

/-- `CreateNotify` for a notification of this kind. -/
def createNotify (H : Host) (s : State) (kind : MessageKind) (subscriptionId : Str)
    (sendResp : Bool) (content : NotifyContent) : NotifyReq :=
  ⟨messageId H s kind, subscriptionId, sendResp, content⟩

/-- The end of retrying, as `SendNotify` works it out. -/
def retryExpiryTime (H : Host) (s : State) (sub : Subs) : Int :=
  if sub.notificationRetry = true ∧ sub.retryExpiryPeriod ≠ 0 then
    H.time s.turn 0 + sub.retryExpiryPeriod
  else endOfTime

/-- `SendNotify`; the request was created by the caller. -/
def sendNotify (H : Host) (req : NotifyReq) (sub : Subs) (path : Str) (s : State) : State :=
  match findEndpointIdByInstance s.controllers sub.contInstance with
  | none => s
  | some destEndpoint =>
    let expiry := retryExpiryTime H s sub
    let s := { s with queued := s.queued ++ [⟨destEndpoint, req.msgId, req, expiry⟩] }
    if sub.notificationRetry then
      subsRetryAdd H ⟨sub.inst, req.msgId, sub.subscriptionId, destEndpoint, path, req, expiry⟩ s
    else s

/-- A `MSG_HANDLER_CreateNotifyReq_` function and `SendNotify`, as every event
handler calls them. -/
def notify (H : Host) (sub : Subs) (path : Str) (content : NotifyContent) (s : State) : State :=
  let kind := MessageKind.subs sub.notifyType
  let req := createNotify H s kind sub.subscriptionId sub.notificationRetry content
  sendNotify H req sub path (countMessage s kind)

theorem subsRetryAdd_queued (H : Host) (n : Notification) (s : State) :
    (subsRetryAdd H n s).queued = s.queued ∧ (subsRetryAdd H n s).controllers = s.controllers := by
  rw [subsRetryAdd]
  dsimp only
  split <;> exact ⟨rfl, rfl⟩

/-- A notification for an enabled controller is queued, whatever becomes of it later. -/
theorem notify_queued (H : Host) {sub : Subs} {s : State} {destEndpoint : Str}
    (path : Str) (content : NotifyContent)
    (hdest : findEndpointIdByInstance s.controllers sub.contInstance = some destEndpoint) :
    let req := createNotify H s (.subs sub.notifyType) sub.subscriptionId sub.notificationRetry
      content
    ∃ expiry, (notify H sub path content s).queued =
        s.queued ++ [⟨destEndpoint, req.msgId, req, expiry⟩] ∧
      (notify H sub path content s).controllers = s.controllers := by
  intro req
  refine ⟨retryExpiryTime H s sub, ?_⟩
  have hdest' : findEndpointIdByInstance (countMessage s (.subs sub.notifyType)).controllers
      sub.contInstance = some destEndpoint := hdest
  unfold notify sendNotify
  simp only [hdest']
  split
  · exact subsRetryAdd_queued H _ _
  · exact ⟨rfl, rfl⟩

/-- `ON_BOARD_REQUEST_SUBS_INSTANCE`. -/
def onBoardRequestSubsInstance : Nat := 0

/-- `SendOnBoardRequestNotify`. -/
def sendOnBoardRequestNotify (H : Host) (req : NotifyReq) (contInstance : Nat) (s : State) :
    State :=
  match findEndpointIdByInstance s.controllers contInstance with
  | none => s
  | some destEndpoint =>
    let s := { s with queued := s.queued ++ [⟨destEndpoint, req.msgId, req, endOfTime⟩] }
    subsRetryAdd H ⟨onBoardRequestSubsInstance, req.msgId, [], destEndpoint, [], req, endOfTime⟩ s

/-- `ExecuteSendOnBoardRequest`, behind the reading of its parameters. -/
def onBoardRequest (H : Host) (contInstance : Nat) (content : NotifyContent) (s : State) : State :=
  let req := createNotify H s .onBoardRequest [] true content
  sendOnBoardRequestNotify H req contInstance (countMessage s .onBoardRequest)

/-! ## Turns of the main loop -/

inductive RetryStep where
  | notify (sub : Subs) (path : Str) (content : NotifyContent)
  | onBoardRequest (contInstance : Nat) (content : NotifyContent)
  | response (msgId subscriptionId : Str)
  | subsDeleted (inst : Nat)
  | timer
  | configure (controllers : List (Option Controller))

def runStep (H : Host) (step : RetryStep) (s : State) : Option State :=
  let done := match step with
    | .notify sub path content => some (notify H sub path content s)
    | .onBoardRequest contInstance content => some (onBoardRequest H contInstance content s)
    | .response msgId _ => some (subsRetryRemove msgId s)
    | .subsDeleted inst => some (subsRetryDelete inst s)
    | .timer => subsRetryExec H s
    | .configure controllers => some { s with controllers := controllers }
  done.map fun s => { s with turn := s.turn + 1 }

end SubsRetry
