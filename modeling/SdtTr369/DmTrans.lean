import SdtTr369.InstVector

/-!
# Transactions

`dm_trans.c`: one current transaction, its log of operations, and the replay of
the log when the transaction is aborted. `DM_TRANS_Start` accepts a second
start silently, and `DM_TRANS_Commit` and `DM_TRANS_Abort` end the one current
transaction whoever started it.
-/

namespace DmTrans

open UspTypes Schema PathCodec Agent InstVector

variable (S : DmTree) (W : World)

/-- `DM_TRANS_IsWithinTransaction`. -/
def isWithinTransaction (a : State) : Bool := a.curTransaction.isSome

/-- The instance of a logged operation, its nodes taken from the logged node. -/
def entryInst (dt : DmTrans) : DmInstances := zipNodes (S.node dt.node).instanceNodes dt.inst

/-- A set below an object that the transaction adds is not logged. -/
def isCoveredByAdd (log : List DmTrans) (inst : DmInstances) : Bool :=
  log.any fun dt => dt.op = .add && (entryInst S dt).isPrefixOf inst

/-- `DEVICE_SUBSCRIPTION_ResolveObjectDeletionPaths`: of the data model it only
refreshes the tables that subscriptions refer to. -/
def resolveObjectDeletionPaths : Op Unit := do
  let tables ← call W.subscribedTables
  .forEach tables fun top => .ignore (refreshInstVector S W top)

def appendEntry (dt : DmTrans) (a : State) : State :=
  { a with curTransaction := a.curTransaction.map (· ++ [dt]) }

/-- `DM_TRANS_Add`, which asserts that a transaction is open. -/
def transAdd (op : DmOp) (path : Str) (value : Option Str) (node : NodeId) (inst : DmInstances) :
    Op Unit := do
  match ← .read (·.curTransaction) with
  | none => .require false
  | some log =>
    if op = .set ∧ isCoveredByAdd S log inst = true then pure ()
    else do
      if op = .del then resolveObjectDeletionPaths S W
      .update (appendEntry ⟨op, path, value, node, instances inst⟩)

/-- One entry of the replay. -/
def undoEntry (dt : DmTrans) : Op Unit :=
  match dt.op with
  | .add => instVectorRemove S (entryInst S dt)
  | .del => instVectorAdd S (entryInst S dt)
  | .set => pure ()

/-- `DM_TRANS_Abort`: the log is replayed from its first entry to its last. -/
def transAbort : Op Unit := do
  match ← .read (·.curTransaction) with
  | none => pure ()
  | some log =>
    .forEach log (undoEntry S)
    .update fun a => { a with curTransaction := none }
    match ← .attempt (vendorHook W) with
    | .error e => do
      databaseAbortTransaction
      .fail e
    | .ok _ => databaseAbortTransaction

/-- `DM_TRANS_Start`. -/
def transStart : Op Unit := do
  if ← .read isWithinTransaction then pure ()
  else
    .update fun a => { a with curTransaction := some [] }
    databaseStartTransaction W
    match ← .attempt (vendorHook W) with
    | .error e => do
      .ignore (transAbort S W)
      .fail e
    | .ok _ => pure ()

/-- The part of `DM_TRANS_Commit` that commits; it tells whether there are
operations to notify. A failure aborts the transaction. -/
def commitLog : Op Bool := do
  match ← .read (·.curTransaction) with
  | none => pure false
  | some log =>
    match ← .attempt (vendorHook W) with
    | .error e => do
      .ignore (transAbort S W)
      .fail e
    | .ok _ =>
      match ← .attempt (databaseCommitTransaction W) with
      | .error e => do
        .ignore (transAbort S W)
        .fail e
      | .ok _ => do
        .update fun a => { a with curTransaction := none }
        pure (log ≠ [])

/-- The body of `DM_TRANS_Commit`. `cascade` stands for the notify functions of
the committed operations and the commit of what these have done. -/
def commitWith (cascade : Op Unit) : Op Unit := do
  if ← commitLog S W then
    .ignore (transStart S W)
    .ignore cascade
    .require (← .read fun a => !isWithinTransaction a)

/-- `DM_TRANS_Commit`, given what the notify functions of each level of the
cascade do; after the last level they do nothing to the data model. -/
def transCommit : List (Op Unit) → Op Unit
  | [] => commitWith S W (commitWith S W (pure ()))
  | notifies :: rest => commitWith S W (do .ignore notifies; transCommit rest)

end DmTrans
