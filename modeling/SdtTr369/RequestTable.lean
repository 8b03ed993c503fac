import SdtTr369.OperationArgs

/-!
# Asynchronous operations

`device_request.c`, the asynchronous part of `DATA_MODEL_Operate`, and
`MSG_HANDLER_HandleOperate`: every asynchronous operation has a row in
`Device.LocalAgent.Request.{i}` from its start to its completion. The rows are
in the database and their numbers in the instance vector; a transaction undoes
the vector by its log and SQLite the rows. A row holds its persisted input
arguments, which the notify function of its deletion deletes. The operations of
one request share its argument vector. What can fail is answered from outside.
-/

namespace RequestTable

open UspTypes OperationArgs

/-- A row of `Device.LocalAgent.Request.{i}`, with `Internal.Request.{i}.InputArgs`. -/
structure Request where
  inst : Nat
  command : Str
  commandKey : Str
  status : Str
  originator : Str
  inputArgs : Option ShadowArgs
  deriving DecidableEq, Repr

/-- `command_key` of `MAX_DM_SHORT_VALUE_LEN` bytes, in which a row's key is read. -/
def readCommandKey (commandKey : Str) : Str := commandKey.take (maxDmShortValueLen - 1)

/-- An OperationComplete event that was handed to the subscriptions. -/
structure Completion where
  inst : Nat
  command : Str
  commandKey : Str
  err : Option Err
  deriving DecidableEq, Repr

structure State where
  rows : List Request
  saved : Option (List Request)
  instances : List Nat
  curTransaction : Option (List (Bool × Nat))
  completed : List Completion
  restarted : List Nat
  deriving DecidableEq, Repr

def initialState : State := ⟨[], none, [], none, [], []⟩

/-! ## Transactions -/

/-- One entry of the replay of an aborted transaction: `true` for an addition. -/
def undoEntry (instances : List Nat) (entry : Bool × Nat) : List Nat :=
  if entry.1 then instances.filter (· ≠ entry.2)
  else if entry.2 ∈ instances then instances else instances ++ [entry.2]

/-- `DM_TRANS_Abort`. -/
def transAbort (s : State) : State :=
  match s.curTransaction with
  | none => s
  | some log =>
    { s with
      instances := log.foldl undoEntry s.instances
      curTransaction := none
      rows := s.saved.getD s.rows
      saved := none }

/-- Whether SQLite and the vendor hook of a transaction do what is asked. -/
structure TransAnswers where
  sqlite : Bool
  hook : Bool
  deriving DecidableEq, Repr

/-- `DM_TRANS_Start`; a failure of SQLite leaves the current transaction set. -/
def transStart (T : TransAnswers) (s : State) : State × Bool :=
  if s.curTransaction.isSome then (s, true)
  else
    let s := { s with curTransaction := some [] }
    if !T.sqlite || s.saved.isSome then (s, false)
    else
      let s := { s with saved := some s.rows }
      if T.hook then (s, true) else (transAbort s, false)

/-- `DM_TRANS_Commit`, less the cascade, which deletes persisted arguments. -/
def transCommit (T : TransAnswers) (s : State) : State :=
  if s.curTransaction = none then s
  else if !T.hook then transAbort s
  else if !T.sqlite || s.saved.isNone then transAbort s
  else { s with saved := none, curTransaction := none }

def logEntry (isAdd : Bool) (inst : Nat) (s : State) : State :=
  { s with curTransaction := s.curTransaction.map (· ++ [(isAdd, inst)]) }

/-! ## The table -/

def modifyRow (inst : Nat) (f : Request → Request) (s : State) : State :=
  { s with rows := s.rows.map fun r => if r.inst = inst then f r else r }

def findRow (s : State) (inst : Nat) : Option Request := s.rows.find? fun r => r.inst = inst

/-- The answers while an operation is started; the callback gives output arguments when
the operation is synchronous. -/
structure OperateAnswers where
  checks : Except Err Unit
  counts : Bool
  adds : Bool
  setsCommand : Bool
  setsCommandKey : Bool
  setsStatus : Bool
  setsOriginator : Bool
  timeRef : DateTime
  persistsArgs : Bool
  callback : Args → Except Err Args

/-- The registered information about an operation. -/
structure OperInfo where
  isAsync : Bool
  maxConcurrency : Option Nat
  canRestart : Bool

/-- What the schema says about a command: its node, and what is registered there. -/
structure Commands where
  node : Str → Option Nat
  info : Nat → OperInfo

/-- `DATA_MODEL_AddInstance` for the table: the number is the next after the highest. -/
def nextInstance (s : State) : Nat := s.instances.foldl max 0 + 1

/-- `DEVICE_REQUEST_Add`: the new row, also when one of its parameters cannot be set. -/
def requestAdd (A : OperateAnswers) (path commandKey originator : Str) (s : State) :
    State × Except Err Nat :=
  if A.adds = false then (s, .error .internalError)
  else
    let inst := nextInstance s
    let s := logEntry true inst { s with
      instances := s.instances ++ [inst]
      rows := s.rows ++ [⟨inst, [], [], [], [], none⟩] }
    if A.setsCommand = false then (s, .error .internalError)
    else
      let s := modifyRow inst (fun r => { r with command := path }) s
      if A.setsCommandKey = false then (s, .error .internalError)
      else
        let s := modifyRow inst (fun r => { r with commandKey := commandKey }) s
        if A.setsStatus = false then (s, .error .internalError)
        else
          let s := modifyRow inst (fun r => { r with status := "Requested".toList }) s
          if A.setsOriginator = false then (s, .error .internalError)
          else (modifyRow inst (fun r => { r with originator := originator }) s, .ok inst)

/-- `DEVICE_REQUEST_CountMatchingRequests`: the loop ends at a row whose command
is not in the schema any more. -/
def countMatchingRequests (C : Commands) (node : Nat) (s : State) : Nat :=
  let commands := s.instances.map fun inst => (findRow s inst).map (·.command)
  let nodes := commands.map fun command => command.bind C.node
  (nodes.takeWhile Option.isSome).countP (· = some node)

/-- The limit of concurrent operations; a table that cannot be read counts as
`INVALID` and is below every limit. -/
def isLimitReached (C : Commands) (A : OperateAnswers) (node : Nat) (s : State) : Bool :=
  match (C.info node).maxConcurrency with
  | none => false
  | some limit => A.counts && limit ≤ countMatchingRequests C node s

inductive OperResult where
  | cmdFailure (path : Str) (e : Err)
  | reqObjPath (path : Str) (inst : Nat)
  | outputArgs (path : Str) (args : Args)
  deriving DecidableEq

/-- What `DATA_MODEL_Operate` leaves: also the argument vector, and what the callback of
the operation was called with. -/
structure Operated where
  state : State
  inputArgs : Args
  received : Option Args
  result : OperResult

/-- The asynchronous branch of `DATA_MODEL_Operate` up to the new row. -/
def admitAsync (C : Commands) (A : OperateAnswers) (node : Nat) (path commandKey originator : Str)
    (s : State) : State × Except Err Nat :=
  if isLimitReached C A node s then (s, .error .resourcesExceeded)
  else requestAdd A path commandKey originator s

/-- The arguments of a new row are persisted, if the operation may be restarted. -/
def persistArgs (C : Commands) (A : OperateAnswers) (node inst : Nat) (inputArgs : Args)
    (s : State) : Option State :=
  if (C.info node).canRestart then
    if A.persistsArgs = false then none
    else (persistOperationArgs inputArgs).map fun shadow =>
      modifyRow inst (fun r => { r with inputArgs := some shadow }) s
  else some s

/-- The asynchronous branch of `DATA_MODEL_Operate`. -/
def startAsync (C : Commands) (A : OperateAnswers) (node : Nat) (path commandKey originator : Str)
    (inputArgs : Args) (s : State) : Operated :=
  match admitAsync C A node path commandKey originator s with
  | (s, .error e) => ⟨s, inputArgs, none, .cmdFailure path e⟩
  | (s, .ok inst) =>
    let inputArgs := addTimeRef A.timeRef inputArgs
    match persistArgs C A node inst inputArgs s with
    | none => ⟨s, inputArgs, none, .cmdFailure path .internalError⟩
    | some s =>
      match A.callback inputArgs with
      | .error e => ⟨s, inputArgs, some inputArgs, .cmdFailure path e⟩
      | .ok _ => ⟨s, inputArgs, some inputArgs, .reqObjPath path inst⟩

/-- The synchronous branch of `DATA_MODEL_Operate`. -/
def runSync (A : OperateAnswers) (path : Str) (inputArgs : Args) (s : State) : Operated :=
  match A.callback inputArgs with
  | .error e => ⟨s, inputArgs, some inputArgs, .cmdFailure path e⟩
  | .ok outputArgs => ⟨s, inputArgs, some inputArgs, .outputArgs path outputArgs⟩

/-- `DATA_MODEL_Operate`. -/
def operate (C : Commands) (A : OperateAnswers) (path commandKey originator : Str)
    (inputArgs : Args) (s : State) : Operated :=
  match A.checks with
  | .error e => ⟨s, inputArgs, none, .cmdFailure path e⟩
  | .ok _ =>
    match C.node path with
    | none => ⟨s, inputArgs, none, .cmdFailure path .objectDoesNotExist⟩
    | some node =>
      if validateArguments inputArgs = false then
        ⟨s, inputArgs, none, .cmdFailure path .commandFailure⟩
      else if (C.info node).isAsync then startAsync C A node path commandKey originator inputArgs s
      else runSync A path inputArgs s

/-- One resolved path of an Operate request. -/
structure OperateCall where
  path : Str
  start : TransAnswers
  answers : OperateAnswers
  commit : TransAnswers

/-- The fields of an Operate request. -/
structure OperateRequest where
  commandKey : Str
  originator : Str
  inputArgs : Args

def isFailure : OperResult → Bool
  | .cmdFailure .. => true
  | _ => false

/-- The loop of `MSG_HANDLER_HandleOperate`: the results, or that the request is
answered by an error. The error of a commit is ignored. -/
def handleOperate (C : Commands) (rq : OperateRequest) :
    List OperateCall → Args → List OperResult → State → State × Option (List OperResult)
  | [], _, results, s => (s, some results)
  | call :: calls, inputArgs, results, s =>
    match transStart call.start s with
    | (s, false) => (s, none)
    | (s, true) =>
      let o := operate C call.answers call.path rq.commandKey rq.originator inputArgs s
      let s := if isFailure o.result then transAbort o.state else transCommit call.commit o.state
      handleOperate C rq calls o.inputArgs (results ++ [o.result]) s

/-! ## Completion -/

/-- The answers while an operation is completed. -/
structure CompleteAnswers where
  lists : Bool
  readsCommand : Bool
  readsCommandKey : Bool
  start : TransAnswers
  deletes : Bool
  commit : TransAnswers
  deriving DecidableEq, Repr

/-- `IsRequestInstanceValid`. -/
def isRequestInstanceValid (lists : Bool) (inst : Nat) (s : State) : Bool :=
  lists && inst ∈ s.instances

/-- `DATA_MODEL_DeleteInstance` for a row; it is logged before it can fail. -/
def deleteRow (deletes : Bool) (inst : Nat) (s : State) : State × Bool :=
  let s := logEntry false inst s
  if deletes then
    ({ s with
      rows := s.rows.filter (·.inst ≠ inst)
      instances := s.instances.filter (· ≠ inst) }, true)
  else (s, false)

/-- `DEVICE_REQUEST_OperationComplete`. -/
def operationComplete (A : CompleteAnswers) (inst : Nat) (err : Option Err) (s : State) : State :=
  if isRequestInstanceValid A.lists inst s = false then s
  else match findRow s inst with
  | none => s
  | some row =>
    if A.readsCommand = false then s
    else if A.readsCommandKey = false then s
    else match transStart A.start s with
    | (s, false) => s
    | (s, true) =>
      let s := { s with
        completed := s.completed ++ [⟨inst, row.command, readCommandKey row.commandKey, err⟩] }
      match deleteRow A.deletes inst s with
      | (s, false) => transAbort s
      | (s, true) => transCommit A.commit s

/-- The answers while a status is updated. -/
structure StatusAnswers where
  lists : Bool
  start : TransAnswers
  sets : Bool
  commit : TransAnswers

/-- `DEVICE_REQUEST_UpdateOperationStatus`: a status that cannot be set leaves the
transaction open. -/
def updateOperationStatus (A : StatusAnswers) (inst : Nat) (status : Str) (s : State) : State :=
  if isRequestInstanceValid A.lists inst s = false then s
  else match transStart A.start s with
  | (s, false) => s
  | (s, true) =>
    if A.sets = false then s
    else transCommit A.commit (modifyRow inst (fun r => { r with status := status }) s)

/-! ## Recovery after a reboot -/

/-- What `DATA_MODEL_ShouldOperationRestart` decides. -/
inductive RestartDecision where
  | restart
  | finished (err : Option Err)
  deriving DecidableEq

/-- The answers for one row of the table. -/
structure RestartAnswers where
  readsCommand : Bool
  decides : Except Err RestartDecision
  readsArgs : Bool
  callback : Except Err Unit
  complete : CompleteAnswers

/-- `RestartAsyncOperation`. -/
def restartAsyncOperation (A : RestartAnswers) (inst : Nat) (s : State) : State :=
  if A.readsArgs = false then operationComplete A.complete inst (some .internalError) s
  else match A.callback with
  | .error e => operationComplete A.complete inst (some e) s
  | .ok _ => { s with restarted := s.restarted ++ [inst] }

/-- The loop of `DEVICE_REQUEST_RestartAsyncOperations`, which ends at the first
row that it cannot decide about. -/
def restartRows (A : Nat → RestartAnswers) : List Nat → State → State
  | [], s => s
  | inst :: rest, s =>
    if (A inst).readsCommand = false then s
    else match (A inst).decides with
    | .error _ => s
    | .ok .restart => restartRows A rest (restartAsyncOperation (A inst) inst s)
    | .ok (.finished err) => restartRows A rest (operationComplete (A inst).complete inst err s)

/-- `DEVICE_REQUEST_RestartAsyncOperations`. -/
def restartAsyncOperations (lists : Bool) (A : Nat → RestartAnswers) (s : State) : State :=
  if lists then restartRows A s.instances s else s

/-- A row after a reboot, with the instances of its arguments that have rows. -/
def rebuilt (r : Request) : Request := { r with inputArgs := r.inputArgs.bind rebuildArgs }

/-- What is left after a reboot: SQLite rolls an open transaction back, and the
instances are those that have rows. -/
def boot (s : State) : State :=
  let rows := (s.saved.getD s.rows).map rebuilt
  { s with
    rows := rows
    saved := none
    instances := rows.map (·.inst)
    curTransaction := none
    restarted := [] }

/-! ## Runs -/

inductive RequestStep where
  | operate (rq : OperateRequest) (calls : List OperateCall)
  | complete (A : CompleteAnswers) (inst : Nat) (err : Option Err)
  | status (A : StatusAnswers) (inst : Nat) (status : Str)
  | reboot (lists : Bool) (A : Nat → RestartAnswers)

def requestStep (C : Commands) (step : RequestStep) (s : State) : State :=
  match step with
  | .operate rq calls => (handleOperate C rq calls rq.inputArgs [] s).1
  | .complete A inst err => operationComplete A inst err s
  | .status A inst status => updateOperationStatus A inst status s
  | .reboot lists A => restartAsyncOperations lists A (boot s)

/-- The results that an Operate request reports. -/
def reported (C : Commands) (rq : OperateRequest) (calls : List OperateCall) (s : State) :
    List OperResult :=
  (handleOperate C rq calls rq.inputArgs [] s).2.getD []

end RequestTable
