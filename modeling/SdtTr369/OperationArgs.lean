import SdtTr369.ValueChange
import Mathlib.Data.List.Dedup

/-!
# Arguments of operations

The argument vector of an Operate request, and the shadow table
`Internal.Request.{i}.InputArgs.{i}` in which the arguments of a restartable operation are
persisted. After a restart the instances of that table are those that have rows, and the
arguments are read through buffers of a fixed length.
-/

namespace OperationArgs

open UspTypes List

abbrev Args := List (Str × Str)

/-- `SAVED_TIME_REF_ARG_NAME`. -/
def savedTimeRefArgName : Str := "Internal_TimeRef".toList

/-- `MAX_ISO8601_LEN`. -/
def maxIso8601Len : Nat := 32

/-- A date-time as `iso8601_from_unix_time` writes it. -/
abbrev DateTime := { text : Str // text.length < maxIso8601Len }

/-- `USP_ARG_AddDateTime` for the time at which an operation is issued. -/
def addTimeRef (now : DateTime) (args : Args) : Args := args ++ [(savedTimeRefArgName, now.val)]

/-- `KV_VECTOR_ValidateArguments`, which ignores unknown arguments. -/
def validateArguments (args : Args) : Bool :=
  (List.range (args.length - 1)).all fun i =>
    args[i]?.all fun kv => ValueChange.findKey args kv.1 (i + 1) = some i

/-! ## The shadow table -/

inductive ArgField where
  | name
  | value
  deriving DecidableEq, Repr

/-- The instances and rows of `Internal.Request.{i}.InputArgs.{i}` for one request. -/
structure ShadowArgs where
  instances : List Nat
  rows : List ((Nat × ArgField) × Str)
  deriving DecidableEq, Repr

/-- `DATA_MODEL_AddInstance`. -/
def addInstance (i : Nat) (shadow : ShadowArgs) : Option ShadowArgs :=
  if i ∈ shadow.instances then none
  else some { shadow with instances := shadow.instances ++ [i] }

/-- `DATA_MODEL_SetParameterValue`. -/
def setArg (i : Nat) (field : ArgField) (value : Str) (shadow : ShadowArgs) : Option ShadowArgs :=
  if i ∈ shadow.instances then
    some { shadow with rows := shadow.rows.filter (·.1 ≠ (i, field)) ++ [((i, field), value)] }
  else none

/-- The loop of `DEVICE_REQUEST_PersistOperationArgs`. -/
def persistLoop : Nat → Args → ShadowArgs → Option ShadowArgs
  | _, [], shadow => some shadow
  | i, kv :: args, shadow =>
    match addInstance i shadow with
    | none => none
    | some shadow =>
      match setArg i .name kv.1 shadow with
      | none => none
      | some shadow =>
        match setArg i .value kv.2 shadow with
        | none => none
        | some shadow => persistLoop (i + 1) args shadow

/-- `DEVICE_REQUEST_PersistOperationArgs` for a request that has no shadow yet. -/
def persistOperationArgs (args : Args) : Option ShadowArgs := persistLoop 1 args ⟨[], []⟩

/-- The instances that a boot finds in the rows; a request without rows has no shadow. -/
def rebuildArgs (shadow : ShadowArgs) : Option ShadowArgs :=
  if shadow.rows = [] then none
  else some { shadow with instances := (shadow.rows.map (·.1.1)).dedup }

/-- `DATA_MODEL_GetParameterValue` into a buffer of the given length. -/
def getArg (i : Nat) (field : ArgField) (bufLen : Nat) (shadow : ShadowArgs) : Option Str :=
  if i ∈ shadow.instances then
    some (((shadow.rows.lookup (i, field)).getD []).take (bufLen - 1))
  else none

/-- The loop of `ReadOperationArgs`, which ends at an argument that cannot be read. -/
def readLoop (shadow : ShadowArgs) : Nat → Nat → Option Args
  | _, 0 => some []
  | i, n + 1 =>
    match getArg i .name maxDmPath shadow with
    | none => none
    | some key =>
      match getArg i .value DataModelRead.maxDmValueLen shadow with
      | none => none
      | some value => (readLoop shadow (i + 1) n).map ((key, value) :: ·)

/-- `ReadOperationArgs`. -/
def readOperationArgs (shadow : ShadowArgs) : Option Args :=
  readLoop shadow 1 shadow.instances.length

/-- What a boot makes of the shadow, and `ReadOperationArgs` of that. -/
def readBack (shadow : ShadowArgs) : Option Args := (rebuildArgs shadow).bind readOperationArgs

/-! ## Names that occur once -/

variable {args : Args} {kv : Str × Str} {i : Nat}

theorem findKey_next_iff (hkv : args[i]? = some kv) (hlast : i + 1 ≤ args.length) :
    ValueChange.findKey args kv.1 (i + 1) = some i ↔
      ∀ j kv', args[j]? = some kv' → kv'.1 = kv.1 → j = i := by
  have hstart : ¬ args.length < i + 1 := Nat.not_lt.mpr hlast
  simp only [ValueChange.findKey, if_neg hstart]
  constructor
  · intro hfind j kv' hj hsame
    split at hfind
    · next n hn =>
      simp only [Option.some.injEq] at hfind
      omega
    · next hnone =>
      obtain ⟨_, _, hfirst⟩ := List.findIdx?_eq_some_iff_getElem.mp hfind
      rcases Nat.lt_trichotomy j i with hlt | heq | hgt
      · have hbefore := hfirst j hlt
        simp only [getElem_take, decide_eq_true_eq] at hbefore
        rw [(List.getElem?_eq_some_iff.mp hj).2] at hbefore
        exact absurd hsame hbefore
      · exact heq
      · rw [findIdx?_eq_none_iff] at hnone
        have hmem : kv' ∈ args.drop (i + 1) := by
          rw [mem_iff_getElem?]
          exact ⟨j - (i + 1), by rw [getElem?_drop, Nat.add_sub_cancel' hgt, hj]⟩
        exact absurd hsame (of_decide_eq_false (hnone kv' hmem))
  · intro honly
    have hdrop : (args.drop (i + 1)).findIdx? (fun pair => decide (pair.1 = kv.1)) = none := by
      rw [findIdx?_eq_none_iff]
      intro kv' hkv'
      obtain ⟨n, hn⟩ := mem_iff_getElem?.mp hkv'
      rw [getElem?_drop] at hn
      refine decide_eq_false fun hsame => ?_
      have := honly _ kv' hn hsame
      omega
    rw [hdrop]
    refine List.findIdx?_eq_some_iff_getElem.mpr
      ⟨by rw [length_take]; omega, ?_, fun j hj => ?_⟩
    · simp [(List.getElem?_eq_some_iff.mp hkv).2]
    · simp only [getElem_take, decide_eq_true_eq]
      intro hsame
      have := honly j _ (getElem?_eq_getElem (by omega)) hsame
      omega

/-- `KV_VECTOR_ValidateArguments` finds just the vectors whose names occur once. -/
theorem validateArguments_iff : validateArguments args = true ↔ (args.map (·.1)).Nodup := by
  simp only [validateArguments, all_eq_true, mem_range, Option.all_eq_true]
  rw [nodup_iff_pairwise_ne, pairwise_map, pairwise_iff_getElem]
  constructor
  · intro hall j k hj hk hlt hsame
    have hfind := of_decide_eq_true (hall j (by omega) _ (getElem?_eq_getElem hj))
    have := (findKey_next_iff (getElem?_eq_getElem hj) hj).mp hfind k _
      (getElem?_eq_getElem hk) hsame.symm
    omega
  · intro hpairwise j _ kv hkv
    obtain ⟨hj, rfl⟩ := List.getElem?_eq_some_iff.mp hkv
    refine decide_eq_true ((findKey_next_iff hkv hj).mpr fun k kv' hk hsame => ?_)
    obtain ⟨hlt, rfl⟩ := List.getElem?_eq_some_iff.mp hk
    rcases Nat.lt_trichotomy k j with hless | heq | hmore
    · exact absurd hsame (hpairwise k j hlt hj hless)
    · exact heq
    · exact absurd hsame.symm (hpairwise j k hj hlt hmore)

/-! ## What is persisted and read back -/

/-- The rows of the arguments from number `i` on. -/
def argRows : Nat → Args → List ((Nat × ArgField) × Str)
  | _, [] => []
  | i, kv :: args => ((i, .name), kv.1) :: ((i, .value), kv.2) :: argRows (i + 1) args

theorem argRows_ge {row : (Nat × ArgField) × Str} : ∀ {args : Args} {i : Nat},
    row ∈ argRows i args → i ≤ row.1.1 := by
  intro args
  induction args with
  | nil => exact fun h => by cases h
  | cons kv args ih =>
    intro i h
    simp only [argRows, mem_cons] at h
    rcases h with rfl | rfl | h
    · exact Nat.le_refl i
    · exact Nat.le_refl i
    · exact (Nat.le_succ i).trans (ih h)

/-- The arguments are persisted under the next numbers. -/
theorem persistLoop_eq : ∀ (args : Args) (i : Nat) (shadow : ShadowArgs),
    (∀ j ∈ shadow.instances, j < i) → (∀ row ∈ shadow.rows, row.1.1 < i) →
    persistLoop i args shadow = some
      ⟨shadow.instances ++ List.range' i args.length, shadow.rows ++ argRows i args⟩ := by
  intro args
  induction args with
  | nil =>
    intro i shadow _ _
    simp [persistLoop, argRows]
  | cons kv args ih =>
    intro i shadow hinstances hrows
    have hnew : i ∉ shadow.instances := fun h => Nat.lt_irrefl i (hinstances i h)
    have hfresh : ∀ (field : ArgField), shadow.rows.filter (·.1 ≠ (i, field)) = shadow.rows := by
      intro field
      refine List.filter_eq_self.mpr fun row hrow => decide_eq_true fun hkey => ?_
      have := hrows row hrow
      rw [hkey] at this
      exact Nat.lt_irrefl i this
    have hname : (shadow.rows ++ [((i, ArgField.name), kv.1)]).filter (·.1 ≠ (i, .value)) =
        shadow.rows ++ [((i, .name), kv.1)] := by
      rw [filter_append, hfresh]
      simp
    simp only [persistLoop, addInstance, if_neg hnew, setArg, mem_append, mem_singleton,
      or_true, if_true, hfresh, hname]
    rw [ih]
    · simp [argRows, range'_succ]
    · intro j hj
      rcases List.mem_append.mp hj with hj | hj
      · exact (hinstances j hj).trans (Nat.lt_succ_self i)
      · cases List.mem_singleton.mp hj
        exact Nat.lt_succ_self i
    · intro row hrow
      simp only [mem_append, mem_singleton] at hrow
      rcases hrow with (hrow | rfl) | rfl
      · exact (hrows row hrow).trans (Nat.lt_succ_self i)
      · exact Nat.lt_succ_self i
      · exact Nat.lt_succ_self i

theorem persistOperationArgs_eq (args : Args) :
    persistOperationArgs args = some ⟨List.range' 1 args.length, argRows 1 args⟩ := by
  rw [persistOperationArgs, persistLoop_eq args 1 _ (by simp) (by simp)]
  simp

/-- The numbers in the rows are those of the arguments. -/
theorem dedup_argRows : ∀ (args : Args) (i : Nat),
    ((argRows i args).map (·.1.1)).dedup = List.range' i args.length := by
  intro args
  induction args with
  | nil => exact fun _ => rfl
  | cons kv args ih =>
    intro i
    have hlater : i ∉ (argRows (i + 1) args).map (·.1.1) := by
      intro h
      obtain ⟨row, hrow, hi⟩ := List.mem_map.mp h
      have := argRows_ge hrow
      omega
    simp only [argRows, map_cons, length_cons, range'_succ]
    rw [dedup_cons_of_mem mem_cons_self, dedup_cons_of_notMem hlater, ih]

/-- What a buffer keeps of an argument. -/
def clipped (kv : Str × Str) : Str × Str :=
  (kv.1.take (maxDmPath - 1), kv.2.take (DataModelRead.maxDmValueLen - 1))

theorem readLoop_eq {shadow : ShadowArgs} : ∀ (args : Args) (i : Nat),
    (∀ j, i ≤ j → j < i + args.length → j ∈ shadow.instances) →
    (∀ j field, i ≤ j → shadow.rows.lookup (j, field) = (argRows i args).lookup (j, field)) →
    readLoop shadow i args.length = some (args.map clipped) := by
  intro args
  induction args with
  | nil => exact fun _ _ _ => rfl
  | cons kv args ih =>
    intro i hinstances hrows
    have hi : i ∈ shadow.instances := hinstances i (Nat.le_refl i) (by simp)
    have hname : shadow.rows.lookup (i, .name) = some kv.1 := by
      rw [hrows i .name (Nat.le_refl i)]
      simp [argRows]
    have hvalue : shadow.rows.lookup (i, .value) = some kv.2 := by
      rw [hrows i .value (Nat.le_refl i)]
      have hne : ((i, ArgField.value) == (i, ArgField.name)) = false := by simp
      simp [argRows, lookup_cons, hne]
    have hrest := ih (i + 1) (fun j hj hlt => hinstances j (by omega)
      (by simp only [length_cons]; omega)) ?_
    · simp [readLoop, getArg, hi, hname, hvalue, hrest, clipped]
    · intro j field hj
      rw [hrows j field (by omega)]
      have hne : ∀ field' : ArgField, ((j, field) == (i, field')) = false := by
        intro field'
        rw [beq_eq_false_iff_ne]
        rintro ⟨⟩
        omega
      simp [argRows, lookup_cons, hne]

/-- After a restart every argument is read that was persisted, as far as its buffer is long. -/
theorem readBack_persisted (hne : args ≠ []) :
    (persistOperationArgs args).bind readBack = some (args.map clipped) := by
  obtain ⟨kv, rest, rfl⟩ := exists_cons_of_ne_nil hne
  have hrebuilt : rebuildArgs ⟨List.range' 1 (kv :: rest).length, argRows 1 (kv :: rest)⟩ =
      some ⟨List.range' 1 (kv :: rest).length, argRows 1 (kv :: rest)⟩ := by
    rw [rebuildArgs, if_neg (by simp [argRows]), dedup_argRows]
  rw [persistOperationArgs_eq, Option.bind_some, readBack, hrebuilt, Option.bind_some,
    readOperationArgs, length_range']
  exact readLoop_eq _ 1 (fun j hj hlt => mem_range'_1.mpr ⟨hj, hlt⟩) fun _ _ _ => rfl

/-- The name and the value fit into their buffers. -/
def Fits (kv : Str × Str) : Prop :=
  kv.1.length < maxDmPath ∧ kv.2.length < DataModelRead.maxDmValueLen

instance (kv : Str × Str) : Decidable (Fits kv) := inferInstanceAs (Decidable (_ ∧ _))

theorem clipped_eq_iff : clipped kv = kv ↔ Fits kv := by
  obtain ⟨key, value⟩ := kv
  simp only [clipped, Fits, Prod.mk.injEq, take_eq_self_iff, maxDmPath,
    DataModelRead.maxDmValueLen]
  omega

/-- The arguments are read back as they were just when all of them fit. -/
theorem readBack_eq_iff (hne : args ≠ []) :
    (persistOperationArgs args).bind readBack = some args ↔ ∀ kv ∈ args, Fits kv := by
  rw [readBack_persisted hne, Option.some.injEq]
  constructor
  · intro hsame kv hkv
    rw [← clipped_eq_iff]
    have hmap : args.map clipped = args.map fun kv => kv := by rw [hsame, map_id']
    exact List.map_inj_left.mp hmap kv hkv
  · intro hfits
    exact (map_congr_left fun kv hkv => clipped_eq_iff.mpr (hfits kv hkv)).trans (map_id' _)

end OperationArgs
