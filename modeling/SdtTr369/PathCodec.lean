import SdtTr369.Schema
import SdtTr369.DecimalText

/-!
# Paths, instance numbers and database keys

The text of an instantiated path is read by `DM_PRIV_CalcHashFromPath`, which
hashes the schema path it comes from and collects the instance numbers. A
database key is that hash with the numbers as a dotted string. Instance numbers
are read in unsigned words and stored in signed ones.
-/

namespace PathCodec

open UspTypes TextUtils Schema DecimalText

/-- `dm_instances_t`: its `order` entries of `nodes` and `instances`. -/
abbrev DmInstances := List (NodeId × Int)

instance instLawfulBEqDmInstances : LawfulBEq DmInstances := inferInstance

def instances (inst : DmInstances) : List Int := inst.map Prod.snd

/-- The copy of `instance_nodes` into `inst->nodes`. A number without a node
keeps the null pointer, which is written 0 here. -/
def zipNodes : List NodeId → List Int → DmInstances
  | _, [] => []
  | [], m :: ms => (0, m) :: zipNodes [] ms
  | n :: ns, m :: ms => (n, m) :: zipNodes ns ms

@[simp] theorem instances_zipNodes (ns : List NodeId) (ms : List Int) :
    instances (zipNodes ns ms) = ms := by
  induction ms generalizing ns with
  | nil => cases ns <;> rfl
  | cons m ms ih =>
    cases ns with
    | nil => exact congrArg (m :: ·) (ih [])
    | cons n ns => exact congrArg (m :: ·) (ih ns)

@[simp] theorem zipNodes_length (ns : List NodeId) (ms : List Int) :
    (zipNodes ns ms).length = ms.length := by
  have h := congrArg List.length (instances_zipNodes ns ms)
  simpa [instances] using h

/-- `ADD_TO_HASH` of the characters that stand for an instance number. -/
def addSeparator (hash : UInt32) : UInt32 := addAllToHash hash ('.' :: multiSeparator)

/-- The character loop of `DM_PRIV_CalcHashFromPath`. After a dot the
consecutive dots are skipped and the digits that follow are counted; they are
an instance number when the segment has nothing else. -/
def hashLoop (hash : UInt32) (inst : List Int) : Str → Except Err (UInt32 × List Int)
  | [] => .ok (hash, inst)
  | c :: p =>
    if c = '.' then
      let q := p.dropWhile (· = '.')
      if q = [] then .ok (hash, inst)
      else
        let digits := q.takeWhile isNumeric
        let after := q.dropWhile isNumeric
        if digits ≠ [] ∧ (after = [] ∨ after.head? = some '.') then
          if inst.length = maxDmInstanceOrder then .error .internalError
          else hashLoop (addSeparator hash) (inst ++ [signedWord (wordValue digits)]) after
        else hashLoop (addToHash hash c) inst q
    else if c = '*' then hashLoop (addAllToHash hash multiSeparator) inst p
    else hashLoop (addToHash hash c) inst p
termination_by path => path.length
decreasing_by
  · have hdots := (List.dropWhile_suffix (fun c : Char => decide (c = '.')) (l := p)).length_le
    have hnum := (List.dropWhile_suffix isNumeric (l := q)).length_le
    exact Nat.lt_succ_of_le (Nat.le_trans hnum hdots)
  · exact Nat.lt_succ_of_le (List.dropWhile_suffix (fun c : Char => decide (c = '.'))).length_le
  · exact Nat.lt_succ_self _
  · exact Nat.lt_succ_self _

def calcHashFromPath (path : Str) : Except Err (UInt32 × List Int) := hashLoop offsetBasis [] path

/-- The node of a path, tried as it stands and then as a table without its
instance number. -/
def findPathNode (S : DmTree) (hash : UInt32) : Option NodeId :=
  match findNodeFromHash S hash with
  | some id => some id
  | none => findNodeFromHash S (addSeparator hash)

/-- `DM_PRIV_GetNodeFromPath` with `is_qualified_instance` null: the number of
instance numbers is not checked. -/
def getNodeFromPath (S : DmTree) (path : Str) : Option (NodeId × DmInstances) :=
  match calcHashFromPath path with
  | .error _ => none
  | .ok (hash, inst) =>
    match findPathNode S hash with
    | none => none
    | some id => some (id, zipNodes (S.node id).instanceNodes inst)

/-- `DM_PRIV_GetNodeFromPath` returning `is_qualified_instance` as well. -/
def getQualifiedNode (S : DmTree) (path : Str) : Option (NodeId × DmInstances × Bool) :=
  match getNodeFromPath S path with
  | none => none
  | some (id, inst) =>
    if inst.length = (S.node id).order then some (id, inst, true)
    else if (S.node id).type ≠ .objectMultiInstance then none
    else if inst.length + 1 = (S.node id).order then some (id, inst, false)
    else none

/-- The copying loop of `DM_PRIV_FormInstantiatedPath` with `len` cells left.
`none`: the loop spins on a full buffer, or the terminator goes past its end. -/
def instantiateLoop : Str → List Int → Nat → Option (Except Err Str)
  | [], [], len => if len = 0 then none else some (.ok [])
  | [], _ :: _, _ => some (.error .internalError)
  | '{' :: 'i' :: '}' :: src, inst, len =>
    match inst with
    | [] => some (.error .internalError)
    | n :: inst =>
      let written := intDigits n
      (instantiateLoop src inst (len - written.length)).map (Except.map (written ++ ·))
  | c :: src, inst, len =>
    if 1 < len then (instantiateLoop src inst (len - 1)).map (Except.map (c :: ·)) else none

def formInstantiatedPath (schemaPath : Str) (inst : List Int) (len : Nat) :
    Option (Except Err Str) := instantiateLoop schemaPath inst len

/-- The numbers in decimal with a dot between them. -/
def formInstanceString (inst : List Int) : Str := ['.'].intercalate (inst.map intDigits)

/-- `ParseInstanceInteger`: the value and the rest of the string. -/
def parseInstanceInteger (value : UInt32) : Str → Option (Int × Str)
  | [] => some (signedWord value, [])
  | c :: p =>
    if c = '.' then some (signedWord value, p)
    else if isNumeric c then parseInstanceInteger (pushDigit value c) p
    else none

theorem parseInstanceInteger_length {value : UInt32} {c : Char} {s rest : Str} {v : Int}
    (h : parseInstanceInteger value (c :: s) = some (v, rest)) : rest.length ≤ s.length := by
  induction s generalizing value c with
  | nil =>
    simp only [parseInstanceInteger] at h
    split at h
    · simp_all
    · split at h <;> simp_all
  | cons d s ih =>
    rw [parseInstanceInteger] at h
    split at h
    · simp_all
    · split at h
      · exact Nat.le_succ_of_le (ih h)
      · cases h

/-- `DM_PRIV_ParseInstanceString`, which does not count the numbers it stores. -/
def parseInstanceString : Str → Option (List Int)
  | [] => some []
  | c :: s =>
    match _h : parseInstanceInteger 0 (c :: s) with
    | none => none
    | some (v, rest) => (parseInstanceString rest).map (v :: ·)
termination_by s => s.length
decreasing_by
  exact Nat.lt_succ_of_le (parseInstanceInteger_length _h)

/-- `paths_to_migrate[]` as hashes: with `DISABLE_STOMP` it has no entry. -/
def pathsToMigrate : List (UInt32 × UInt32) := []

def getMigratedHash (hash : UInt32) : UInt32 := (pathsToMigrate.lookup hash).getD hash

@[simp] theorem getMigratedHash_eq (hash : UInt32) : getMigratedHash hash = hash := rfl

/-- `DM_PRIV_FormDB_FromPath`. Six numbers fit every buffer it is given. -/
def formDbFromPath (S : DmTree) (path : Str) : Except Err (UInt32 × Str) :=
  match getNodeFromPath S path with
  | none => .error .invalidPath
  | some (id, inst) =>
    let migratedHash := getMigratedHash (S.node id).hash
    match (if migratedHash = (S.node id).hash then some id else findNodeFromHash S migratedHash) with
    | none => .error .invalidPath
    | some id =>
      if isParam (S.node id).type = false then .error .invalidPath
      else if isDbParam (S.node id).type = false then .error .invalidPathSyntax
      else .ok ((S.node id).hash, formInstanceString (instances inst))

/-- `DM_PRIV_FormPath_FromDB`; `none` as for `formInstantiatedPath`. -/
def formPathFromDb (S : DmTree) (hash : UInt32) (inst : Str) (len : Nat) :
    Option (Except Err Str) :=
  match findNodeFromHash S hash with
  | none => some (.error .invalidPath)
  | some id =>
    match parseInstanceString inst with
    | none => some (.error .internalError)
    | some inst =>
      if inst.length ≠ (S.node id).order then some (.error .internalError)
      else formInstantiatedPath (S.node id).path inst len

end PathCodec
