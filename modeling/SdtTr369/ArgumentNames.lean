import SdtTr369.OperationArgs
import SdtTr369.SchemaForms

/-!
# Argument names and their schema

`KV_VECTOR_ValidateArguments` with its flags. A name is compared with the expected ones as
`TEXT_UTILS_PathToSchemaForm` leaves it in a buffer of `MAX_DM_PATH` cells: a form that does not
fit is cut, or is written over the end of the buffer.
-/

namespace ArgumentNames

open UspTypes OperationArgs SchemaForms

/-- `IGNORE_UNKNOWN_ARGS` -/
def ignoreUnknownArgs : UInt32 := 1

/-- `converted_path`, up to its terminator. -/
def convertedPath (key : Str) : Str := copied (tokens key) maxDmPath

/-- The loop over the names. No answer is one behind a write over the end of the buffer. -/
def checkNames (expectedSchema : List Str) : List Str → Option Bool
  | [] => some true
  | key :: keys =>
    if (convertedPath key).length + 1 ≤ maxDmPath then
      if convertedPath key ∈ expectedSchema then checkNames expectedSchema keys else some false
    else none

/-- `KV_VECTOR_ValidateArguments` -/
def kvVectorValidateArguments (args : Args) (expectedSchema : List Str) (flags : UInt32) :
    Option Bool :=
  if validateArguments args = false then some false
  else if flags &&& ignoreUnknownArgs ≠ 0 then some true
  else checkNames expectedSchema (args.map (·.1))

/-! ## Accepting and rejecting -/

/-- What the arguments are accepted for: each name is received once, and is an expected one with
its instance numbers generalised. -/
def Acceptable (args : Args) (expectedSchema : List Str) (flags : UInt32) : Prop :=
  (args.map (·.1)).Nodup ∧
    (flags &&& ignoreUnknownArgs = 0 → ∀ key ∈ args.map (·.1), schemaForm key ∈ expectedSchema)

/-- The call ends, and succeeds just on the arguments that are acceptable. -/
def AnswersExactly (args : Args) (expectedSchema : List Str) (flags : UInt32) : Prop :=
  ∃ accepted, kvVectorValidateArguments args expectedSchema flags = some accepted ∧
    (accepted = true ↔ Acceptable args expectedSchema flags)

/-- `P` is true of the names up to the first one that is not expected. -/
def UpToUnknown (expectedSchema keys : List Str) (P : Str → Prop) : Prop :=
  ∀ before key after, keys = before ++ key :: after →
    (∀ earlier ∈ before, schemaForm earlier ∈ expectedSchema) → P key

/-- The form of the name is written whole, or no expected name that it begins with is as long as
what is written of a form that is cut. -/
def NotMistaken (expectedSchema : List Str) (key : Str) : Prop :=
  Uncut (tokens key) maxDmPath ∨
    ∀ expected ∈ expectedSchema, expected <+: schemaForm key → expected.length + 4 < maxDmPath

section Loop

variable {expectedSchema keys : List Str} {key : Str} {P : Str → Prop}

theorem upToUnknown_cons :
    UpToUnknown expectedSchema (key :: keys) P ↔
      P key ∧ (schemaForm key ∈ expectedSchema → UpToUnknown expectedSchema keys P) := by
  constructor
  · intro h
    refine ⟨h [] key keys rfl (fun _ hmem => nomatch hmem), fun hkey before k after heq hbefore => ?_⟩
    exact h (key :: before) k after (by rw [heq]; rfl) (List.forall_mem_cons.mpr ⟨hkey, hbefore⟩)
  · rintro ⟨hfirst, hrest⟩ before k after heq hbefore
    cases before with
    | nil =>
      obtain ⟨rfl, -⟩ := List.cons.inj heq
      exact hfirst
    | cons first before =>
      obtain ⟨rfl, rfl⟩ := List.cons.inj heq
      obtain ⟨hkey, hbefore⟩ := List.forall_mem_cons.mp hbefore
      exact hrest hkey before k after rfl hbefore

theorem inside_iff (key : Str) :
    (convertedPath key).length + 1 ≤ maxDmPath ↔ RunsFit key maxDmPath := by
  rw [runsFit_iff (by decide), ← copied_fits (by decide), convertedPath]
  omega

/-- What is written of a name is expected just where its form is. -/
theorem converted_mem_iff (hruns : RunsFit key maxDmPath) (h : NotMistaken expectedSchema key) :
    convertedPath key ∈ expectedSchema ↔ schemaForm key ∈ expectedSchema := by
  by_cases huncut : Uncut (tokens key) maxDmPath
  · rw [convertedPath, copied_whole huncut (by decide), textOf_tokens]
  · have hshort := h.resolve_left huncut
    have hprefix : convertedPath key <+: schemaForm key := by
      rw [← textOf_tokens]
      exact copied_prefix _ _
    have hlong : maxDmPath ≤ (convertedPath key).length + 4 := by
      have := copied_cut (by decide) ((runsFit_iff (by decide)).mp hruns) huncut
      rw [convertedPath]
      omega
    have hlength := hprefix.length_le
    constructor
    · intro hmem
      have := hshort _ hmem hprefix
      omega
    · intro hmem
      have := hshort _ hmem List.prefix_rfl
      omega

theorem checkNames_inside (hruns : UpToUnknown expectedSchema keys (RunsFit · maxDmPath))
    (h : UpToUnknown expectedSchema keys (NotMistaken expectedSchema)) :
    checkNames expectedSchema keys =
      some (decide (∀ key ∈ keys, schemaForm key ∈ expectedSchema)) := by
  induction keys with
  | nil => rfl
  | cons key keys ih =>
    obtain ⟨hfits, hruns⟩ := upToUnknown_cons.mp hruns
    obtain ⟨hkey, h⟩ := upToUnknown_cons.mp h
    have hmem := converted_mem_iff hfits hkey
    rw [checkNames, if_pos ((inside_iff key).mpr hfits)]
    by_cases hform : schemaForm key ∈ expectedSchema
    · rw [if_pos (hmem.mpr hform), ih (hruns hform) (h hform)]
      simp [hform]
    · rw [if_neg (mt hmem.mp hform)]
      simp [hform]

theorem checkNames_outside (hruns : ¬UpToUnknown expectedSchema keys (RunsFit · maxDmPath))
    (h : UpToUnknown expectedSchema keys (NotMistaken expectedSchema)) :
    checkNames expectedSchema keys = none := by
  induction keys with
  | nil => exact absurd (fun before key after heq _ => by simp at heq) hruns
  | cons key keys ih =>
    obtain ⟨hkey, h⟩ := upToUnknown_cons.mp h
    rw [upToUnknown_cons] at hruns
    rw [checkNames]
    split
    · next hroom =>
      have hfits := (inside_iff key).mp hroom
      have hrest : schemaForm key ∈ expectedSchema ∧
          ¬UpToUnknown expectedSchema keys (RunsFit · maxDmPath) := by
        simpa [hfits] using hruns
      rw [if_pos ((converted_mem_iff hfits hkey).mpr hrest.1), ih hrest.2 (h hrest.1)]
    · rfl

/-- A form that is six characters shorter than the buffer is written whole. -/
theorem notMistaken_of_length (h : (schemaForm key).length + 6 ≤ maxDmPath) :
    NotMistaken expectedSchema key :=
  .inl (uncut_of_length (by rw [textOf_tokens]; omega))

end Loop

/-- Of names that are compared, up to the first that is not expected, none is cut to the length
of an expected name that it begins with. -/
theorem validateArguments_answers_iff (args : Args) (expectedSchema : List Str) (flags : UInt32)
    (h : (args.map (·.1)).Nodup → flags &&& ignoreUnknownArgs = 0 →
      UpToUnknown expectedSchema (args.map (·.1)) (NotMistaken expectedSchema)) :
    AnswersExactly args expectedSchema flags ↔
      ¬(args.map (·.1)).Nodup ∨ flags &&& ignoreUnknownArgs ≠ 0 ∨
        UpToUnknown expectedSchema (args.map (·.1)) (RunsFit · maxDmPath) := by
  rw [AnswersExactly, kvVectorValidateArguments, Acceptable]
  by_cases hnodup : (args.map (·.1)).Nodup
  · rw [if_neg (by simpa using validateArguments_iff.mpr hnodup)]
    by_cases hflags : flags &&& ignoreUnknownArgs = 0
    · have hnot := h hnodup hflags
      by_cases hruns : UpToUnknown expectedSchema (args.map (·.1)) (RunsFit · maxDmPath)
      · simp [hflags, hnodup, hruns, checkNames_inside hruns hnot]
      · simp [hflags, hnodup, hruns, checkNames_outside hruns hnot]
    · simp [hflags, hnodup]
  · rw [if_pos (by simpa using mt validateArguments_iff.mp hnodup)]
    simp [hnodup]

/-- The arguments of a command with one expected name, and a second argument that it has not. -/
theorem validateArguments_answers_iff_ssid :
    AnswersExactly [("SSID.1.Enable".toList, ['1']), (['X'], [])] ["SSID.{i}.Enable".toList] 0 ↔
      ¬[("SSID.1.Enable".toList), ['X']].Nodup ∨ (0 : UInt32) &&& ignoreUnknownArgs ≠ 0 ∨
        UpToUnknown ["SSID.{i}.Enable".toList] ["SSID.1.Enable".toList, ['X']]
          (RunsFit · maxDmPath) :=
  validateArguments_answers_iff _ _ _ fun _ _ =>
    upToUnknown_cons.mpr ⟨notMistaken_of_length (by decide), fun _ =>
      upToUnknown_cons.mpr ⟨notMistaken_of_length (by decide), fun _ before _ _ heq _ =>
        absurd heq (by simp)⟩⟩

/-- A name of 253 characters, and an expected one that is its first 252. -/
def longName : Str := List.replicate 252 'A' ++ ['B']

def shortName : Str := List.replicate 252 'A'

/-- A name is accepted for the expected one that it begins with, and a name of 64 instance
numbers is written over the end of the buffer. -/
theorem long_names_not_told :
    ¬AnswersExactly [(longName, [])] [shortName] 0 ∧ ¬AnswersExactly [(numbersPath, [])] [] 0 := by
  constructor
  · rintro ⟨accepted, hanswer, hexact⟩
    have haccepted : kvVectorValidateArguments [(longName, [])] [shortName] 0 = some true := by
      decide +kernel
    obtain rfl := Option.some.inj (haccepted.symm.trans hanswer)
    have hform := (hexact.mp rfl).2 rfl longName List.mem_cons_self
    exact absurd hform (by decide +kernel)
  · rintro ⟨accepted, hanswer, -⟩
    have hnone : kvVectorValidateArguments [(numbersPath, [])] [] 0 = none := by decide +kernel
    cases hnone.symm.trans hanswer

end ArgumentNames
