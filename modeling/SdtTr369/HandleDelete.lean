import SdtTr369.PathResolver

/-!
# Delete requests

`handle_delete.c`: each expression of a Delete request has one entry in the
response. With `allow_partial` each resolved object is deleted in a transaction
of its own, and else the whole request in one. `notifies` are the notify
functions of a commit, as in `DmTrans`.
-/

namespace HandleDelete

open UspTypes TextUtils Schema Agent DmTrans DataModel DataModelRead ExprVector PathResolver

/-- `DeletedObjectResult`. -/
inductive DeletedObjResult where
  | operFailure (requestedPath : Str) (e : Err)
  | operSuccess (requestedPath : Str) (affectedPaths : List Str) (unaffectedPathErrs : List (Str × Err))
  deriving DecidableEq, Repr

/-- The response to the controller: a DeleteResp, or an Error with its `param_errs`. -/
inductive DeleteAnswer where
  | deleteResp (results : List DeletedObjResult)
  | error (e : Err) (paramErrs : List (Str × Err))
  deriving DecidableEq, Repr

/-- The two lists of an OperationSuccess. -/
structure OperSuccess where
  affectedPaths : List Str
  unaffectedPathErrs : List (Str × Err)
  deriving DecidableEq, Repr

/-- `ERROR_RESP_CalcOuterErrCode`. -/
def calcOuterErrCode (count : Nat) (e : Err) : Err :=
  if count = 0 then e
  else match e with
    | .invalidArguments | .invalidPathSyntax | .unsupportedParam | .invalidType | .invalidValue
    | .paramReadOnly | .valueConflict | .objectDoesNotExist | .creationFailure | .notATable
    | .objectNotCreatable | .objectNotDeletable | .uniqueKeyConflict | .invalidPath =>
      .invalidArguments
    | e => e

/-- `ParamError_FromDeleteRespToErrResp`. -/
def paramErrors (results : List DeletedObjResult) : List (Str × Err) :=
  results.filterMap fun result => match result with
    | .operFailure path e => some (path, e)
    | .operSuccess .. => none

variable (S : DmTree) (P : PermissionTable) (W : World) {N : Type} (R : ValueRules N)
  (fuel : Nat) (role : CombinedRole) (notifies : List (Op Unit))

/-- The request under which a Delete resolves its expressions. -/
def deleteRequest : Request where
  op := .del
  depth := fullDepth
  role := some role

/-- The loop of `DeleteExpressionObjects` with `allow_partial`: a start or a commit
that fails ends it. -/
def deletePartially : List Str → OperSuccess → Op (OperSuccess × Option Err)
  | [], done => pure (done, none)
  | path :: paths, done => do
    match ← .attempt (transStart S W) with
    | .error e => pure (done, some e)
    | .ok _ =>
      match ← .attempt (deleteInstance S W path { checkDeletable := true }) with
      | .ok _ =>
        let done := { done with affectedPaths := done.affectedPaths ++ [withTrailingDot path] }
        match ← .attempt (transCommit S W notifies) with
        | .error e => pure (done, some e)
        | .ok _ => deletePartially paths done
      | .error e =>
        .ignore (transAbort S W)
        deletePartially paths { done with
          unaffectedPathErrs := done.unaffectedPathErrs ++ [(withTrailingDot path, e)] }

/-- The same loop without `allow_partial`: an object that cannot be deleted ends it. -/
def deleteWholly : List Str → List Str → Op (Except Err (List Str))
  | [], affected => pure (.ok affected)
  | path :: paths, affected => do
    match ← .attempt (deleteInstance S W path { checkDeletable := true }) with
    | .ok _ => deleteWholly paths (affected ++ [withTrailingDot path])
    | .error e => pure (.error e)

/-- The entry when all objects of an expression had their turn. -/
def operResult (path : Str) (done : OperSuccess) : DeletedObjResult :=
  match done.affectedPaths, done.unaffectedPathErrs with
  | [], (_, e) :: _ => .operFailure path e
  | affected, unaffected => .operSuccess path affected unaffected

/-- `DeleteExpressionObjects`: the entry in the response, and the error. -/
def deleteExpressionObjects (allowPartial : Bool) (path : Str) :
    Op (DeletedObjResult × Option Err) := do
  match ← .attempt (resolvedPaths S P W (deleteRequest role) R fuel path) with
  | .error e => pure (.operFailure path e, some e)
  | .ok objPaths =>
    if allowPartial then
      match ← deletePartially S W notifies objPaths ⟨[], []⟩ with
      | (done, some e) =>
        pure (.operSuccess path done.affectedPaths done.unaffectedPathErrs, some e)
      | (done, none) => pure (operResult path done, none)
    else
      match ← deleteWholly S W objPaths [] with
      | .error e => pure (.operFailure path e, some e)
      | .ok affected => pure (.operSuccess path affected [], none)

/-- The loop of `MSG_HANDLER_HandleDelete`, which ignores errors with `allow_partial`. -/
def deleteExpressions (allowPartial : Bool) :
    List Str → List DeletedObjResult → Op (List DeletedObjResult × Option Err)
  | [], results => pure (results, none)
  | path :: paths, results => do
    match ← deleteExpressionObjects S P W R fuel role notifies allowPartial path with
    | (result, some e) =>
      if allowPartial then deleteExpressions allowPartial paths (results ++ [result])
      else pure (results ++ [result], some e)
    | (result, none) => deleteExpressions allowPartial paths (results ++ [result])

/-- `MSG_HANDLER_HandleDelete`, given the fields of the request. -/
def handleDelete (allowPartial : Bool) (objPaths : List Str) : Op DeleteAnswer := do
  if objPaths = [] then pure (.deleteResp [])
  else if allowPartial then
    let (results, _) ← deleteExpressions S P W R fuel role notifies true objPaths []
    pure (.deleteResp results)
  else
    match ← .attempt (transStart S W) with
    | .error e => pure (.error e [])
    | .ok _ =>
      match ← deleteExpressions S P W R fuel role notifies false objPaths [] with
      | (results, some e) =>
        .ignore (transAbort S W)
        let paramErrs := paramErrors results
        pure (.error (calcOuterErrCode paramErrs.length e) paramErrs)
      | (results, none) =>
        match ← .attempt (transCommit S W notifies) with
        | .error e => pure (.error e [])
        | .ok _ => pure (.deleteResp results)

end HandleDelete
