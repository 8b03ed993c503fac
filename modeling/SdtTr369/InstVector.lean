import SdtTr369.Agent

/-!
# Instance vectors

`dm_inst_vector.c`: the instances of a top-level table and of all tables below
it are tuples in one vector. A tuple exists when it is a prefix of an entry.
Removing a tuple removes every entry that it is a prefix of.
-/

namespace InstVector

open UspTypes Schema PathCodec Agent

variable (S : DmTree) (W : World)

/-- `inst->nodes[0]`. -/
def topNode (inst : DmInstances) : NodeId :=
  match inst with
  | [] => 0
  | entry :: _ => entry.1

def setVector (a : State) (top : NodeId) (div : List DmInstances) : State :=
  { a with instVector := fun n => if n = top then div else a.instVector n }

/-- `IsExistInInstVector`. -/
def isExistInInstVector (inst : DmInstances) (div : List DmInstances) : Bool :=
  div.any fun oi => inst.isPrefixOf oi

def addToInstVector (inst : DmInstances) (div : List DmInstances) : List DmInstances :=
  div ++ [inst]

/-- The assertions on the top-level table made before its vector is used. -/
def requireTop (inst : DmInstances) : Op Unit :=
  .require ((S.node (topNode inst)).type = .objectMultiInstance)

/-- `DM_INST_VECTOR_Add`. -/
def instVectorAdd (inst : DmInstances) : Op Unit :=
  if inst = [] then pure ()
  else do
    requireTop S inst
    .update fun a =>
      let div := a.instVector (topNode inst)
      if inst ∈ div then a else setVector a (topNode inst) (addToInstVector inst div)

def removeBelow (inst : DmInstances) (div : List DmInstances) : List DmInstances :=
  div.filter fun oi => !inst.isPrefixOf oi

/-- `DM_INST_VECTOR_Remove`. -/
def instVectorRemove (inst : DmInstances) : Op Unit :=
  if inst = [] then pure ()
  else do
    requireTop S inst
    .update fun a => setVector a (topNode inst) (removeBelow inst (a.instVector (topNode inst)))

/-- `DM_INST_VECTOR_RefreshInstance`, called by the refresh callback of `top`
with the vector that it builds up. Paths that it refuses leave the vector. -/
def refreshInstance (top : NodeId) (refreshed : List DmInstances) (path : Str) :
    List DmInstances :=
  match getQualifiedNode S path with
  | none => refreshed
  | some (id, inst, isQualified) =>
    if (S.node id).type ≠ .objectMultiInstance then refreshed
    else if isQualified = false then refreshed
    else if topNode inst ≠ top then refreshed
    else if isExistInInstVector inst refreshed then refreshed
    else if 1 < inst.length ∧ isExistInInstVector inst.dropLast refreshed = false then refreshed
    else addToInstVector inst refreshed

def lockInstances (a : State) (top : NodeId) : State :=
  { a with lockPeriod := fun n => if n = top then a.curLockPeriod else a.lockPeriod n }

/-- `RefreshInstVector`. Calls made while the callback runs find the table under
refresh and return at once. -/
def refreshInstVector (top : NodeId) : Op Unit := do
  if (S.node top).registered.refreshInstances = false then pure ()
  else
    let isLocked ← .read fun a => decide (a.lockPeriod top = a.curLockPeriod)
    if isLocked then pure ()
    else
      let curTime ← call W.time
      let expiryTime ← .read fun a => a.refreshExpiryTime top
      if curTime ≤ expiryTime then .update fun a => lockInstances a top
      else
        match ← call W.refreshInstances with
        | none => .fail .internalError
        | some (paths, expiryPeriod) =>
          let curTime ← call W.time
          .update fun a => lockInstances { setVector a top (paths.foldl (refreshInstance S top) [])
            with refreshExpiryTime := fun n =>
              if n = top then curTime + expiryPeriod else a.refreshExpiryTime n } top

/-- `DM_INST_VECTOR_IsExist`. -/
def instVectorIsExist (inst : DmInstances) : Op Bool :=
  if inst = [] then pure true
  else do
    requireTop S inst
    refreshInstVector S W (topNode inst)
    .read fun a => isExistInInstVector inst (a.instVector (topNode inst))

/-- The number that an entry gives to the instance of `node` below `inst`. -/
def numberBelow (node : NodeId) (inst oi : DmInstances) : Option Int :=
  match oi.drop inst.length with
  | [] => none
  | entry :: _ => if inst.isPrefixOf oi && entry.1 = node then some entry.2 else none

/-- An entry for an instance of `node` itself, with nothing nested below. -/
def ownNumber (node : NodeId) (inst oi : DmInstances) : Option Int :=
  if oi.length = inst.length + 1 then numberBelow node inst oi else none

/-- `inst->nodes[0]` after `node` has been put behind the nodes of `inst`. -/
def topNodeOf (node : NodeId) (inst : DmInstances) : NodeId := topNode (inst ++ [(node, 0)])

def requireTable (node : NodeId) (inst : DmInstances) : Op Unit := do
  .require (inst.length < maxDmInstanceOrder)
  requireTop S (inst ++ [(node, 0)])

/-- `DM_INST_VECTOR_GetNextInstance`: one more than the highest number. The
addition overflows in the source when that number is the largest `int`, which
leaves the result undefined; here it goes on. -/
def getNextInstance (node : NodeId) (inst : DmInstances) : Op Int := do
  requireTable S node inst
  .read fun a =>
    let numbers := (a.instVector (topNodeOf node inst)).filterMap (ownNumber node inst)
    numbers.foldl (fun highest n => if n > highest then n else highest) 0 + 1

def countInstances (node : NodeId) (inst : DmInstances) (div : List DmInstances) : Nat :=
  (div.filterMap (ownNumber node inst)).length

/-- `INT_VECTOR_Add` of the numbers that are not there yet. -/
def collectNumbers (iv : List Int) (n : Int) : List Int := if n ∈ iv then iv else iv ++ [n]

def listInstances (node : NodeId) (inst : DmInstances) (div : List DmInstances) : List Int :=
  (div.filterMap (numberBelow node inst)).foldl collectNumbers []

/-- `DM_INST_VECTOR_GetNumInstances`. -/
def instVectorGetNumInstances (node : NodeId) (inst : DmInstances) : Op Nat := do
  requireTable S node inst
  refreshInstVector S W (topNodeOf node inst)
  .read fun a => countInstances node inst (a.instVector (topNodeOf node inst))

/-- `DM_INST_VECTOR_GetInstances`. -/
def instVectorGetInstances (node : NodeId) (inst : DmInstances) : Op (List Int) := do
  requireTable S node inst
  refreshInstVector S W (topNodeOf node inst)
  .read fun a => listInstances node inst (a.instVector (topNodeOf node inst))

end InstVector
