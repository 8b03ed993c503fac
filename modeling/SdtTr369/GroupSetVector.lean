import SdtTr369.DataModelRead

/-!
# Groups of settings

`group_set_vector.c`: the settings of a request lie in one vector, which is
processed slice by slice. Parameters without a group are set one by one, those
of a group by one call of its callback. The error of a setting stands in its
entry; the text of the error is left out.
-/

namespace GroupSetVector

open UspTypes Schema Agent DataModel DataModelRead

/-- `group_set_entry_t`. -/
structure GroupSetEntry where
  path : Str
  groupId : Option Nat
  value : Str
  isRequired : Bool
  err : Option Err := none
  deriving DecidableEq, Repr

/-- The `set_group_cb` of each group. A callback that fails gives an error code
and may give the index of the parameter that failed. -/
abbrev GroupCallbacks := Nat → Option (Nat → Option (Err × Option Nat))

variable (S : DmTree) (P : PermissionTable) (W : World) (G : GroupCallbacks)

/-- `GROUP_SET_VECTOR_Add`, the new entry. -/
def newEntry (path value : Str) (isRequired : Bool) (role : Option CombinedRole) :
    Op GroupSetEntry := do
  let properties ← getPathProperties S P W path role
  let entry : GroupSetEntry := { path, groupId := properties.groupId, value, isRequired }
  if properties.flags.existsInSchema = false then pure { entry with err := some .unsupportedParam }
  else if properties.flags.isWritable = false then pure { entry with err := some .paramReadOnly }
  else if properties.permissions .set = false then
    pure { entry with err := some .permissionDenied }
  else pure entry

def requiredFailed (gse : GroupSetEntry) : Bool := gse.err.isSome && gse.isRequired

/-- The first loop of `GROUP_SET_VECTOR_SetValues`. It ends at a required parameter
that fails, and then says `true`. -/
def setUngrouped : List GroupSetEntry → Op (List GroupSetEntry × Bool)
  | [] => pure ([], false)
  | gse :: rest => do
    if gse.err.isSome || gse.groupId.isSome then
      let (rest, failed) ← setUngrouped rest
      pure (gse :: rest, failed)
    else match ← .attempt (setParameterValue S W gse.path gse.value true) with
      | .ok _ =>
        let (rest, failed) ← setUngrouped rest
        pure (gse :: rest, failed)
      | .error e =>
        let gse := { gse with err := some e }
        if gse.isRequired then pure (gse :: rest, true)
        else
          let (rest, failed) ← setUngrouped rest
          pure (gse :: rest, failed)

/-- The settings that one call of `SetParameterGroup` is about. -/
def inGroup (group : Nat) (isRequired : Bool) (gse : GroupSetEntry) : Bool :=
  gse.groupId = some group && gse.isRequired = isRequired && gse.err.isNone

/-- The error goes to the members with these indexes among the members. -/
def markMembers (isMember : GroupSetEntry → Bool) (fails : Nat → Bool) (e : Err) :
    Nat → List GroupSetEntry → List GroupSetEntry
  | _, [] => []
  | i, gse :: rest =>
    if isMember gse then
      (if fails i then { gse with err := some e } else gse) ::
        markMembers isMember fails e (i + 1) rest
    else gse :: markMembers isMember fails e i rest

/-- `SetParameterGroup`, called for a group with settings: whether it failed. -/
def setParameterGroup (group : Nat) (isRequired : Bool) (gsv : List GroupSetEntry) :
    Op (List GroupSetEntry × Bool) :=
  let isMember := inGroup group isRequired
  let mark := fun fails e => markMembers isMember fails e 0 gsv
  if gsv.any isMember = false then pure (gsv, false)
  else match G group with
    | none => pure (mark (fun _ => true) .internalError, true)
    | some callback => do
      match ← call callback with
      | none => pure (gsv, false)
      | some (e, some i) =>
        -- the other required settings have been wound back, and are not marked
        if isRequired && i < gsv.countP isMember then pure (mark (fun j => j = i) e, true)
        else pure (mark (fun _ => true) e, true)
      | some (e, none) => pure (mark (fun _ => true) e, true)

/-- The second loop of `GROUP_SET_VECTOR_SetValues`. -/
def setGroups : List Nat → List GroupSetEntry → Op (List GroupSetEntry)
  | [], gsv => pure gsv
  | group :: groups, gsv => do
    let (gsv, failed) ← setParameterGroup G group true gsv
    if failed then pure gsv
    else
      let (gsv, _) ← setParameterGroup G group false gsv
      setGroups groups gsv

/-- The slice after `GROUP_SET_VECTOR_SetValues`. -/
def setSlice (slice : List GroupSetEntry) : Op (List GroupSetEntry) := do
  if slice.any requiredFailed then pure slice
  else
    let (slice, failed) ← setUngrouped S W slice
    if failed then pure slice else setGroups G (List.range maxVendorParamGroups) slice

/-- `GROUP_SET_VECTOR_SetValues`. -/
def setValues (gsv : List GroupSetEntry) (index numEntries : Nat) : Op (List GroupSetEntry) := do
  let slice ← setSlice S W G ((gsv.drop index).take numEntries)
  pure (gsv.take index ++ slice ++ gsv.drop (index + numEntries))

end GroupSetVector
