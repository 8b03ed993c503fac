import SdtTr369.PathResolver
import Mathlib.Data.List.DropRight

/-!
# Get requests

A Get resolves its path expressions one after the other into one vector, reads all the
parameters of the vector, and forms the result of each expression from its part of the
vector. A parameter is reported under its parent object, which is searched for among the
last few objects of the result only.
-/

namespace HandleGet

open UspTypes Schema Agent DataModelRead ExprVector PathResolver

/-! ## Resolving the expressions -/

section Expand

variable {N : Type} (S : DmTree) (P : PermissionTable) (W : World) (V : ValueRules N) (fuel : Nat)

/-- The arguments of the resolutions. A depth that is negative as an `int` acts as 0. -/
def getExprRequest (maxDepth : Nat) (role : CombinedRole) : Request where
  op := .get
  depth := if maxDepth = 0 then fullDepth else if maxDepth ≤ fullDepth then maxDepth else 0
  role := some role
  wantsGroups := true

/-- `PATH_RESOLVER_ResolveDevicePath` with new vectors. A resolution that does not end does not
come back to the handler. -/
def resolveIntoVectors (rq : Request) (path : Str) :
    Op (Except Err (List Str × List (Option Nat))) := fun a =>
  match resolveDevicePath S P W rq V fuel path ⟨a, [], []⟩ with
  | none => none
  | some (.error .unfinished, _) => none
  | some (.error (.code e), s) => some (.ok (.error e), s.agent)
  | some (.ok _, s) => some (.ok (.ok (s.sv, s.gv)), s.agent)

/-- `get_expr_info_t`. -/
structure GetExprInfo where
  index : Nat := 0
  numEntries : Nat := 0
  err : Option Err := none

/-- The entries of parameters that are not read yet. -/
def newEntries (params : List Str) (groupIds : List (Option Nat)) : List GroupGetEntry :=
  (params.zip groupIds).map fun (path, groupId) => { path, groupId }

/-- `GROUP_GET_VECTOR_AddParams`. -/
def addParams (ggv : List GroupGetEntry) (params : List Str) (groupIds : List (Option Nat)) :
    Op (List GroupGetEntry) := do
  .require (params.length = groupIds.length)
  pure (ggv ++ newEntries params groupIds)

/-- `ExpandGetPathExpression`. -/
def expandGetPathExpression (rq : Request) (pathExpr : Str) (ggv : List GroupGetEntry) :
    Op (GetExprInfo × List GroupGetEntry) := do
  match ← resolveIntoVectors S P W V fuel rq pathExpr with
  | .error e => pure ({ err := some e }, ggv)
  | .ok (params, groupIds) =>
    let gi : GetExprInfo := { index := ggv.length, numEntries := params.length }
    if params = [] then pure (gi, ggv)
    else
      let ggv ← addParams ggv params groupIds
      pure (gi, ggv)

/-- The first loop of `MSG_HANDLER_HandleGet`. -/
def expandExpressions (rq : Request) :
    List Str → List GroupGetEntry → Op (List GetExprInfo × List GroupGetEntry)
  | [], ggv => pure ([], ggv)
  | pathExpr :: pathExprs, ggv => do
    let first ← expandGetPathExpression S P W V fuel rq pathExpr ggv
    let rest ← expandExpressions rq pathExprs first.2
    pure (first.1 :: rest.1, rest.2)

end Expand

/-! ## Forming the response -/

/-- `Usp__GetResp__ResolvedPathResult__ResultParamsEntry`; a value of `none` is a null pointer. -/
structure ResultParamsEntry where
  key : Str
  value : Option Str
  deriving DecidableEq, Repr

/-- `Usp__GetResp__ResolvedPathResult`. -/
structure ResolvedPathResult where
  resolvedPath : Str
  resultParams : List ResultParamsEntry
  deriving DecidableEq, Repr

/-- `Usp__GetResp__RequestedPathResult`; an error code of `none` is `USP_ERR_OK`. -/
structure RequestedPathResult where
  requestedPath : Str
  errCode : Option Err
  resolvedPathResults : List ResolvedPathResult
  deriving DecidableEq, Repr

/-- `TEXT_UTILS_SplitPath`: what is put into the buffer, and the name that is returned. -/
def splitPath (path : Str) (len : Nat) : Str × Str :=
  if '.' ∈ path then
    ((path.rdropWhile (· ≠ '.')).take (len - 1), path.rtakeWhile (· ≠ '.'))
  else ([], [])

def resolvedPathSearchLimit : Nat := 10

/-- `FindResolvedPath`, which searches backwards from the end. -/
def findResolvedPath (results : List ResolvedPathResult) (objPath : Str) : Option Nat :=
  ((List.range results.length).drop (results.length - resolvedPathSearchLimit)).reverse.find?
    fun i => results[i]?.any fun result => result.resolvedPath = objPath

/-- `AddResolvedPathRes_ParamsEntry`. -/
def addParamsEntry (paramName : Str) (value : Option Str) (result : ResolvedPathResult) :
    ResolvedPathResult :=
  { result with resultParams := result.resultParams ++ [⟨paramName, value⟩] }

/-- `AddResolvedPathResult`. -/
def addResolvedPathResult (results : List ResolvedPathResult) (path : Str) (value : Option Str) :
    List ResolvedPathResult :=
  let (objPath, paramName) := splitPath path maxDmPath
  match findResolvedPath results objPath with
  | some i => results.modify i (addParamsEntry paramName value)
  | none => results ++ [addParamsEntry paramName value ⟨objPath, []⟩]

/-- The field `err_code` of an entry. -/
def errCode (gge : GroupGetEntry) : Option Err :=
  match gge.outcome with
  | some (.error e) => some e
  | _ => none

/-- The field `value` of an entry. -/
def value (gge : GroupGetEntry) : Option Str :=
  match gge.outcome with
  | some (.ok value) => some value
  | _ => none

/-- `FormPathExprResponse`, from the entries of the expression on. -/
def formEntriesResponse (pathExpr : Str) (entries : List GroupGetEntry) : RequestedPathResult :=
  match entries.findSome? errCode with
  | some e => ⟨pathExpr, some e, []⟩
  | none => ⟨pathExpr, none,
      entries.foldl (fun results gge => addResolvedPathResult results gge.path (value gge)) []⟩

/-- `FormPathExprResponse`. -/
def formPathExprResponse (ggv : List GroupGetEntry) (pathExpr : Str) (gi : GetExprInfo) :
    RequestedPathResult :=
  match gi.err with
  | some e => ⟨pathExpr, some e, []⟩
  | none =>
    if gi.numEntries = 0 then ⟨pathExpr, none, []⟩
    else formEntriesResponse pathExpr ((ggv.drop gi.index).take gi.numEntries)

/-- `MSG_HANDLER_HandleGet`, for the results in its response. -/
def handleGet {N : Type} (S : DmTree) (P : PermissionTable) (W : World) (V : ValueRules N)
    (fuel maxDepth : Nat) (role : CombinedRole) (pathExprs : List Str) :
    Op (List RequestedPathResult) := do
  if pathExprs = [] then pure []
  else
    let expanded ← expandExpressions S P W V fuel (getExprRequest maxDepth role) pathExprs []
    let ggv ← groupGetValues S W expanded.2
    pure (List.zipWith (formPathExprResponse ggv) pathExprs expanded.1)

end HandleGet
