import SdtTr369.CBuffers
import SdtTr369.DateTimes
import SdtTr369.ExprVector
import SdtTr369.ReportingInterval

/-!
# The texts of typed values

`DM_PRIV_InitSetRequest` converts the text of a new value to the type of the parameter, and the
typed getters convert the text that is stored. Every type has its own conversion of the C library:
numbers may have white space in front of them, no text at all is the number zero, and what is
behind an `int` or a date is not looked at.
-/

namespace ValueTexts

open UspTypes DecimalText Numerals CBuffers DateTimes List
open ReportingInterval (isSpace scanNumeral unconverted stringToUnsigned stringToInteger)
open ExprVector (stringToBool)

/-! ## The conversions -/

inductive ValueType
  | dateTime
  | bool
  | int
  | uint
  | ulong
  | long
  deriving DecidableEq, Repr

/-- `val_union` -/
inductive Value
  | time (t : Int)
  | flag (b : Bool)
  | number (n : Int)
  deriving DecidableEq, Repr

/-- `TEXT_UTILS_StringToUnsignedLongLong` -/
def stringToUnsignedLongLong (str : Str) : Option Nat :=
  if '-' ∈ str ∨ unconverted str ≠ [] then none
  else if natValue (scanNumeral str).digits < 2 ^ 64 then some (natValue (scanNumeral str).digits)
  else none

/-- A number with its sign. -/
def signed (sign : Str) (n : Nat) : Int := if sign = ['-'] then -n else n

def numeralValue (s : ReportingInterval.Numeral) : Int :=
  if s.negative then -natValue s.digits else natValue s.digits

def largestNegative : Str := "-9223372036854775808".toList

/-- `TEXT_UTILS_StringToLongLong` -/
def stringToLongLong (str : Str) : Option Int :=
  if str = largestNegative then none
  else if unconverted str ≠ [] then none
  else if -2 ^ 63 ≤ numeralValue (scanNumeral str) ∧ numeralValue (scanNumeral str) < 2 ^ 63 then
    some (numeralValue (scanNumeral str))
  else none

def unknownTimeStr : Str := "0001-01-01T00:00:00Z".toList

def unknownTime : Int := -2 ^ 31

section Requests

variable (leap : Nat)

/-- `iso8601_to_unix_time`, without the value `INVALID_TIME`. -/
def iso8601ToUnixTime (date : Str) : Option Int :=
  if date = unknownTimeStr then some unknownTime
  else
    match strptime leap date with
    | none => none
    | some (tm, _) => if tm.year < 1970 ∨ 2037 < tm.year then none else some (timegm tm)

/-- `iso8601_from_unix_time`, for the unknown time and times from the epoch on. -/
def iso8601FromUnixTime (t : Int) : Str :=
  if t = unknownTime then unknownTimeStr else isoText (gmtime t.toNat)

/-- `DM_PRIV_InitSetRequest` -/
def initSetRequest : ValueType → Str → Option Value
  | .dateTime, newValue => (iso8601ToUnixTime leap newValue).map .time
  | .bool, newValue => (stringToBool newValue).map .flag
  | .int, newValue => (stringToInteger newValue).map .number
  | .uint, newValue => (stringToUnsigned newValue).map fun n : Nat => .number n
  | .ulong, newValue => (stringToUnsignedLongLong newValue).map fun n : Nat => .number n
  | .long, newValue => (stringToLongLong newValue).map .number

/-- `TEXT_UTILS_BoolToString` -/
def boolToString (value : Bool) : Str := if value then "true".toList else "false".toList

/-- `SerializeNativeValue` -/
def serializeNativeValue : Value → Str
  | .time t => iso8601FromUnixTime t
  | .flag b => boolToString b
  | .number n => intDigits n

/-- `DM_ACCESS_GetInteger`, `DM_ACCESS_GetUnsigned`, `DM_ACCESS_GetBool` and
`DM_ACCESS_GetDateTime` with their buffer; the numbers of 64 bits are converted without one. -/
def getValue : ValueType → Str → Option Value
  | .ulong, stored => initSetRequest leap .ulong stored
  | .long, stored => initSetRequest leap .long stored
  | type, stored => initSetRequest leap type (clip maxDmShortValueLen stored)

/-! ## What a text stands for -/

/-- Decimal digits with an optional sign. -/
structure Decimal (text sign ds : Str) : Prop where
  text : text = sign ++ ds
  sign : sign = [] ∨ sign = ['+'] ∨ sign = ['-']
  ne_nil : ds ≠ []
  digits : ∀ c ∈ ds, c.isDigit = true

/-- The least number of a type, and the first one behind the largest. -/
def bounds : ValueType → Int × Int
  | .int => (-2 ^ 31, 2 ^ 31)
  | .uint => (0, 2 ^ 32)
  | .ulong => (0, 2 ^ 64)
  | .long => (-2 ^ 63, 2 ^ 63)
  | .dateTime | .bool => (0, 0)

def Represents (type : ValueType) (text : Str) : Value → Prop
  | .number n => ∃ sign ds, Decimal text sign ds ∧ (sign = ['-'] → (bounds type).1 < 0) ∧
      signed sign (natValue ds) = n ∧ (bounds type).1 ≤ n ∧ n < (bounds type).2
  | .flag b => type = .bool ∧
      if b then text.map Char.toLower = "true".toList ∨ text = "1".toList
      else text.map Char.toLower = "false".toList ∨ text = "0".toList
  | .time t => type = .dateTime ∧ (text = unknownTimeStr ∧ t = unknownTime ∨
      ∃ tm, Valid tm ∧ tm.year ≤ 2037 ∧ text = isoText tm ∧ t = timegm tm)

/-- A text is accepted when it stands for a value of the type, and this value is read back, also
from its own text. -/
structure Right (type : ValueType) (text : Str) : Prop where
  accepts : (initSetRequest leap type text).isSome = true ↔ ∃ v, Represents type text v
  value : ∀ v, initSetRequest leap type text = some v → Represents type text v ∧
    getValue leap type text = some v
  reread : ∀ v, initSetRequest leap type text = some v →
    initSetRequest leap type (serializeNativeValue v) = some v ∧
      getValue leap type (serializeNativeValue v) = some v

/-- White space, and a number of the type behind it. -/
def Indented (type : ValueType) (text : Str) : Prop :=
  ∃ ws t v, ws ≠ [] ∧ (∀ c ∈ ws, isSpace c = true) ∧ text = ws ++ t ∧ Represents type t v

/-- A number other than zero that does not fit in the buffer of the getters. -/
def Overlong (type : ValueType) (text : Str) : Prop :=
  maxDmShortValueLen ≤ text.length ∧ ∃ n, n ≠ 0 ∧ Represents type text (.number n)

/-- The texts that a type deals with in another way. -/
def Misread : ValueType → Str → Prop
  | .int, text => (scanNumeral text).digits ≠ [] ∧ (∀ v, ¬ Represents .int text v) ∨
      Overlong .int text
  | .uint, text => text = [] ∨ Indented .uint text ∨ Overlong .uint text
  | .ulong, text => text = [] ∨ Indented .ulong text
  | .long, text => text = [] ∨ Indented .long text ∨ Represents .long text (.number (-2 ^ 63))
  | .bool, _ => False
  | .dateTime, text => text ≠ unknownTimeStr ∧ (∀ v, ¬ Represents .dateTime text v) ∧
      ∃ tm rest, strptime leap text = some (tm, rest) ∧ 1970 ≤ tm.year ∧ tm.year ≤ 2037

end Requests

variable {leap : Nat}

/-! ## Numerals in a text -/

/-- White space, a numeral, and something else behind it. -/
structure Scanned (str ws sign ds rest : Str) : Prop where
  text : str = ws ++ (sign ++ ds ++ rest)
  spaces : ∀ c ∈ ws, isSpace c = true
  decimal : Decimal (sign ++ ds) sign ds
  stop : ∀ c, rest.head? = some c → c.isDigit = false

section Scanning

variable {str text ws sign ds rest : Str}

theorem takeWhile_stop (hds : ∀ c ∈ ds, c.isDigit = true)
    (hstop : ∀ c, rest.head? = some c → c.isDigit = false) :
    (ds ++ rest).takeWhile Char.isDigit = ds ∧ (ds ++ rest).dropWhile Char.isDigit = rest := by
  rw [takeWhile_append_of_pos hds, dropWhile_append_of_pos hds]
  cases rest with
  | nil => simp
  | cons c rest => simp [hstop c rfl]

theorem scanNumeral_of_scanned (h : Scanned str ws sign ds rest) :
    scanNumeral str = ⟨decide (sign = ['-']), ds, rest⟩ := by
  obtain ⟨htext, hspaces, ⟨_, hsign, hne, hdigits⟩, hstop⟩ := h
  obtain ⟨htake, hdrop⟩ := takeWhile_stop hdigits hstop
  have hskip : str.dropWhile isSpace = sign ++ (ds ++ rest) := by
    rw [htext, dropWhile_append_of_pos hspaces, append_assoc]
    obtain rfl | rfl | rfl := hsign
    · cases ds with
      | nil => exact (hne rfl).elim
      | cons c ds =>
        have hc := ReportingInterval.isSpace_of_isDigit (hdigits c mem_cons_self)
        exact dropWhile_cons_of_neg (by simp [hc])
    · exact dropWhile_cons_of_neg (by decide)
    · exact dropWhile_cons_of_neg (by decide)
  rw [scanNumeral, hskip]
  obtain rfl | rfl | rfl := hsign
  · cases ds with
    | nil => exact (hne rfl).elim
    | cons c ds =>
      have hc := hdigits c mem_cons_self
      rw [nil_append, cons_append] at *
      split
      · next heq =>
        cases (List.cons.inj heq).1
        exact absurd hc (by decide)
      · next heq =>
        cases (List.cons.inj heq).1
        exact absurd hc (by decide)
      · rw [htake, hdrop]
        rfl
  · simp only [cons_append, nil_append, htake, hdrop]
    rfl
  · simp only [cons_append, nil_append, htake, hdrop]
    rfl

theorem exists_scanned (h : (scanNumeral str).digits ≠ []) :
    ∃ ws sign, Scanned str ws sign (scanNumeral str).digits (scanNumeral str).rest := by
  have hspaces : ∀ c ∈ str.takeWhile isSpace, isSpace c = true := fun c => mem_takeWhile_imp
  have hwhole : str = str.takeWhile isSpace ++ str.dropWhile isSpace :=
    List.takeWhile_append_dropWhile.symm
  have hcut : ∀ s : Str, s = s.takeWhile Char.isDigit ++ s.dropWhile Char.isDigit := fun s =>
    List.takeWhile_append_dropWhile.symm
  have hdigits : ∀ s : Str, ∀ c ∈ s.takeWhile Char.isDigit, c.isDigit = true := fun s c =>
    mem_takeWhile_imp
  have hstop : ∀ s : Str, ∀ c, (s.dropWhile Char.isDigit).head? = some c → c.isDigit = false := by
    intro s c hc
    have hnot := head?_dropWhile_not Char.isDigit s
    rw [hc] at hnot
    exact hnot
  revert h
  rw [scanNumeral]
  split
  · next s heq =>
    intro h
    refine ⟨str.takeWhile isSpace, ['-'], ?_, hspaces, ⟨rfl, .inr (.inr rfl), h, hdigits s⟩, hstop s⟩
    rw [append_assoc, ← hcut, singleton_append, ← heq]
    exact hwhole
  · next s heq =>
    intro h
    refine ⟨str.takeWhile isSpace, ['+'], ?_, hspaces, ⟨rfl, .inr (.inl rfl), h, hdigits s⟩, hstop s⟩
    rw [append_assoc, ← hcut, singleton_append, ← heq]
    exact hwhole
  · intro h
    refine ⟨str.takeWhile isSpace, [], ?_, hspaces, ⟨rfl, .inl rfl, h, hdigits _⟩, hstop _⟩
    rw [nil_append, ← hcut]
    exact hwhole

theorem scanned_of_decimal (ws : Str) (h : Decimal text sign ds) (hws : ∀ c ∈ ws, isSpace c = true) :
    Scanned (ws ++ text) ws sign ds [] :=
  ⟨by rw [h.text, append_nil], hws, h.text ▸ h, fun _ hc => nomatch hc⟩

/-- Nothing is left of no text, and of a numeral that ends the text. -/
theorem unconverted_eq_nil_iff :
    unconverted str = [] ↔ str = [] ∨ ∃ ws sign ds, Scanned str ws sign ds [] := by
  rw [unconverted]
  constructor
  · split
    · exact .inl
    · next hds =>
      intro hrest
      obtain ⟨ws, sign, h⟩ := exists_scanned hds
      exact .inr ⟨ws, sign, _, hrest ▸ h⟩
  · rintro (rfl | ⟨ws, sign, ds, h⟩)
    · rfl
    · rw [scanNumeral_of_scanned h, if_neg h.decimal.ne_nil]

theorem minus_mem_iff (h : Scanned str ws sign ds []) : '-' ∈ str ↔ sign = ['-'] := by
  obtain ⟨htext, hspaces, ⟨_, hsign, _, hdigits⟩, _⟩ := h
  have hws : '-' ∉ ws := fun hmem => absurd (hspaces '-' hmem) (by decide)
  have hds : '-' ∉ ds := fun hmem => absurd (hdigits '-' hmem) (by decide)
  rw [htext, append_nil, mem_append, mem_append]
  obtain rfl | rfl | rfl := hsign
  · simp [hws, hds]
  · simp [hws, hds]
  · simp [hws, hds]

theorem stringToUnsignedLongLong_eq_some_iff {n : Nat} :
    stringToUnsignedLongLong str = some n ↔ str = [] ∧ n = 0 ∨ ∃ ws sign ds,
      Scanned str ws sign ds [] ∧ sign ≠ ['-'] ∧ natValue ds = n ∧ n < 2 ^ 64 := by
  constructor
  · intro h
    rw [stringToUnsignedLongLong] at h
    split at h
    · cases h
    · next hclean =>
      obtain ⟨hminus, hrest⟩ := not_or.mp hclean
      split at h
      · next hlt =>
        cases h
        cases unconverted_eq_nil_iff.mp (not_not.mp hrest) with
        | inl hnil =>
          subst hnil
          exact .inl ⟨rfl, rfl⟩
        | inr hscan =>
          obtain ⟨ws, sign, ds, hscan⟩ := hscan
          rw [scanNumeral_of_scanned hscan] at hlt ⊢
          exact .inr ⟨ws, sign, ds, hscan, (minus_mem_iff hscan).not.mp hminus, rfl, hlt⟩
      · cases h
  · rintro (⟨rfl, rfl⟩ | ⟨ws, sign, ds, hscan, hsign, rfl, hlt⟩)
    · rfl
    · have hclean : ¬ ('-' ∈ str ∨ unconverted str ≠ []) := by
        rintro (hminus | hrest)
        · exact hsign ((minus_mem_iff hscan).mp hminus)
        · exact hrest (unconverted_eq_nil_iff.mpr (.inr ⟨ws, sign, ds, hscan⟩))
      rw [stringToUnsignedLongLong, if_neg hclean, scanNumeral_of_scanned hscan, if_pos hlt]

/-- An unsigned number of 32 bits is one of 64 bits that is small enough. -/
theorem stringToUnsigned_eq :
    stringToUnsigned str = (stringToUnsignedLongLong str).filter (· < 2 ^ 32) := by
  rw [stringToUnsigned, stringToUnsignedLongLong]
  split
  · rfl
  · split
    · next hlt =>
      rw [if_pos (by omega), Option.filter_some, if_pos (decide_eq_true hlt)]
    · next hge =>
      split
      · rw [Option.filter_some, if_neg (by simpa using hge)]
      · rfl

theorem stringToLongLong_eq_some_iff {n : Int} :
    stringToLongLong str = some n ↔ str ≠ largestNegative ∧ (str = [] ∧ n = 0 ∨ ∃ ws sign ds,
      Scanned str ws sign ds [] ∧ signed sign (natValue ds) = n ∧ -2 ^ 63 ≤ n ∧ n < 2 ^ 63) := by
  have hvalue : ∀ {ws sign ds : Str}, Scanned str ws sign ds [] →
      numeralValue (scanNumeral str) = signed sign (natValue ds) := by
    intro ws sign ds hscan
    rw [scanNumeral_of_scanned hscan, signed, numeralValue]
    simp
  constructor
  · intro h
    rw [stringToLongLong] at h
    split at h
    · cases h
    · next hmin =>
      split at h
      · cases h
      · next hrest =>
        split at h
        · next hrange =>
          refine ⟨hmin, ?_⟩
          cases h
          cases unconverted_eq_nil_iff.mp (not_not.mp hrest) with
          | inl hnil =>
            subst hnil
            exact .inl ⟨rfl, rfl⟩
          | inr hscan =>
            obtain ⟨ws, sign, ds, hscan⟩ := hscan
            exact .inr ⟨ws, sign, ds, hscan, (hvalue hscan).symm, hrange⟩
        · cases h
  · rintro ⟨hmin, ⟨rfl, rfl⟩ | ⟨ws, sign, ds, hscan, rfl, hrange⟩⟩
    · rfl
    · have hrest : ¬ unconverted str ≠ [] :=
        not_not.mpr (unconverted_eq_nil_iff.mpr (.inr ⟨ws, sign, ds, hscan⟩))
      rw [stringToLongLong, if_neg hmin, if_neg hrest, hvalue hscan, if_pos hrange]

/-- An `int` is read at the start of the text, whatever is behind it. -/
theorem stringToInteger_of_scanned (h : Scanned str ws sign ds rest)
    (hlow : -2 ^ 31 ≤ signed sign (natValue ds)) (hhigh : signed sign (natValue ds) < 2 ^ 31) :
    stringToInteger str = some (signed sign (natValue ds)) := by
  have hvalue : (if decide (sign = ['-']) = true then -(natValue ds : Int) else natValue ds) =
      signed sign (natValue ds) := by simp [signed]
  have hclamp : ReportingInterval.clampIntmax (signed sign (natValue ds)) =
      signed sign (natValue ds) := by
    rw [ReportingInterval.clampIntmax]
    omega
  rw [stringToInteger, scanNumeral_of_scanned h]
  dsimp only
  rw [if_neg h.decimal.ne_nil, hvalue, hclamp, ReportingInterval.toInt_toUnsigned hlow hhigh]

theorem stringToInteger_eq_none_iff : stringToInteger str = none ↔ (scanNumeral str).digits = [] := by
  rw [stringToInteger]
  dsimp only
  split
  · next h => simp [h]
  · next h => simp [h]

end Scanning

/-! ## Values and their texts -/

section Values

variable {type : ValueType} {text ws sign ds : Str} {n m : Int} {v : Value}

theorem natValue_append (s t : Str) :
    natValue (s ++ t) = 10 ^ t.length * natValue s + natValue t := by
  rw [natValue, Nat.ofDigitChars_append, Nat.ofDigitChars_eq_ofDigitChars_zero]
  rfl

theorem represents_number (h : Represents type text (.number n)) :
    ∃ sign ds, Scanned text [] sign ds [] ∧ (sign = ['-'] → (bounds type).1 < 0) ∧
      signed sign (natValue ds) = n ∧ (bounds type).1 ≤ n ∧ n < (bounds type).2 := by
  obtain ⟨sign, ds, hdecimal, hrest⟩ := h
  exact ⟨sign, ds, scanned_of_decimal [] hdecimal (by simp), hrest⟩

/-- A text stands for one number. -/
theorem represents_unique (h : Represents type text (.number n))
    (h' : Represents type text (.number m)) : n = m := by
  obtain ⟨sign, ds, hscan, _, rfl, _⟩ := represents_number h
  obtain ⟨sign', ds', hscan', _, rfl, _⟩ := represents_number h'
  have hsame := (scanNumeral_of_scanned hscan).symm.trans (scanNumeral_of_scanned hscan')
  obtain ⟨hsign, hds, _⟩ := ReportingInterval.Numeral.mk.inj hsame
  rw [decide_eq_decide] at hsign
  rw [hds, signed, signed]
  exact if_congr hsign rfl rfl

theorem number_of_represents (hbool : type ≠ .bool) (htime : type ≠ .dateTime)
    (h : Represents type text v) : ∃ n, v = .number n := by
  cases v with
  | number n => exact ⟨n, rfl⟩
  | flag b => exact (hbool h.1).elim
  | time t => exact (htime h.1).elim

theorem largestNegative_value (h : Scanned largestNegative ws sign ds []) :
    signed sign (natValue ds) = -2 ^ 63 := by
  have hscan : scanNumeral largestNegative = ⟨true, "9223372036854775808".toList, []⟩ := by rfl
  rw [scanNumeral_of_scanned h] at hscan
  obtain ⟨hsign, hds, _⟩ := ReportingInterval.Numeral.mk.inj hscan
  rw [hds, of_decide_eq_true hsign]
  rfl

/-- A text that stands for a number is converted to it, but for the one number left out. -/
theorem convert_number (leap : Nat) (h : Represents type text (.number n))
    (hmin : ¬ (type = .long ∧ n = -2 ^ 63)) : initSetRequest leap type text = some (.number n) := by
  obtain ⟨sign, ds, hscan, hsign, hvalue, hlow, hhigh⟩ := represents_number h
  cases type with
  | dateTime | bool =>
    simp only [bounds] at hlow hhigh
    omega
  | int =>
    rw [initSetRequest, stringToInteger_of_scanned hscan (hvalue ▸ hlow) (hvalue ▸ hhigh), hvalue]
    rfl
  | uint =>
    have hplus : sign ≠ ['-'] := fun heq => absurd (hsign heq) (by decide)
    rw [signed, if_neg hplus] at hvalue
    simp only [bounds] at hhigh
    have hlt : natValue ds < 2 ^ 32 := by omega
    have hull := stringToUnsignedLongLong_eq_some_iff.mpr
      (.inr ⟨[], sign, ds, hscan, hplus, rfl, by omega⟩)
    rw [initSetRequest, stringToUnsigned_eq, hull, Option.filter_some,
      if_pos (decide_eq_true hlt), ← hvalue]
    rfl
  | ulong =>
    have hplus : sign ≠ ['-'] := fun heq => absurd (hsign heq) (by decide)
    rw [signed, if_neg hplus] at hvalue
    simp only [bounds] at hhigh
    have hull := stringToUnsignedLongLong_eq_some_iff.mpr
      (.inr ⟨[], sign, ds, hscan, hplus, rfl, by omega⟩)
    rw [initSetRequest, hull, ← hvalue]
    rfl
  | long =>
    have htext : text ≠ largestNegative := by
      rintro rfl
      exact hmin ⟨rfl, hvalue ▸ largestNegative_value hscan⟩
    have hll := stringToLongLong_eq_some_iff.mpr
      ⟨htext, .inr ⟨[], sign, ds, hscan, hvalue, hlow, hhigh⟩⟩
    rw [initSetRequest, hll]
    rfl

/-- The text printed for a number stands for it. -/
theorem represents_intDigits (hlow : (bounds type).1 ≤ n) (hhigh : n < (bounds type).2) :
    Represents type (intDigits n) (.number n) := by
  cases n with
  | ofNat k =>
    refine ⟨[], natDigits k, ⟨rfl, .inl rfl, natDigits_ne_nil k, natDigits_digits k⟩,
      (fun h => nomatch h), ?_, hlow, hhigh⟩
    rw [natValue_natDigits]
    rfl
  | negSucc k =>
    refine ⟨['-'], natDigits (k + 1), ⟨rfl, .inr (.inr rfl), natDigits_ne_nil _,
      natDigits_digits _⟩, (fun _ => ?_), ?_, hlow, hhigh⟩
    · have hneg := Int.negSucc_lt_zero k
      omega
    · rw [natValue_natDigits]
      rfl

theorem intDigits_short (hlow : (bounds type).1 ≤ n) (hhigh : n < (bounds type).2) :
    (intDigits n).length < maxDmShortValueLen := by
  have hbuf : maxDmShortValueLen = 256 := rfl
  have hlarge : n.natAbs < 10 ^ 20 := by
    cases type <;> simp only [bounds] at hlow hhigh <;> omega
  cases n with
  | ofNat k =>
    have hlen := (natDigits_length_le_iff (n := k) (by decide : 0 < 20)).mpr hlarge
    show (natDigits k).length < _
    omega
  | negSucc k =>
    have hlen := (natDigits_length_le_iff (n := k + 1) (by decide : 0 < 20)).mpr hlarge
    show ('-' :: natDigits (k + 1)).length < _
    rw [length_cons]
    omega

theorem getValue_short (h : text.length < maxDmShortValueLen) :
    getValue leap type text = initSetRequest leap type text := by
  have hclip : clip maxDmShortValueLen text = text := take_of_length_le (by omega)
  cases type with
  | ulong | long => rfl
  | dateTime | bool | int | uint => rw [getValue, hclip] <;> simp

/-- The getters read a number back that fits in their buffer, and no other one but zero. -/
theorem getValue_number_iff (htype : type = .int ∨ type = .uint)
    (h : Represents type text (.number n)) :
    getValue leap type text = some (.number n) ↔ text.length < maxDmShortValueLen ∨ n = 0 := by
  have hbuf : maxDmShortValueLen = 256 := rfl
  have hlong : ¬ (type = .long ∧ n = -2 ^ 63) := by rintro ⟨rfl, _⟩; simp at htype
  by_cases hshort : text.length < maxDmShortValueLen
  · rw [getValue_short hshort, convert_number leap h hlong]
    exact iff_of_true rfl (.inl hshort)
  · obtain ⟨sign, ds, ⟨htext, hsigns, hne, hdigits⟩, hsign, hvalue, hlow, hhigh⟩ := h
    have hroom : maxDmShortValueLen - 1 = 255 := rfl
    have hsignlen : sign.length ≤ 1 := by obtain rfl | rfl | rfl := hsigns <;> decide
    have hlen : text.length = sign.length + ds.length := by rw [htext, length_append]
    have hclip : clip maxDmShortValueLen text = sign ++ ds.take (255 - sign.length) := by
      rw [clip, hroom, htext, take_append, take_of_length_le (by omega)]
    -- what is cut off has at least one digit
    have hcut := natValue_append (ds.take (255 - sign.length)) (ds.drop (255 - sign.length))
    rw [take_append_drop] at hcut
    have hrest : 1 ≤ (ds.drop (255 - sign.length)).length := by
      rw [length_drop]
      omega
    have hpow : 10 * natValue (ds.take (255 - sign.length)) ≤
        10 ^ (ds.drop (255 - sign.length)).length * natValue (ds.take (255 - sign.length)) :=
      Nat.mul_le_mul_right _ (Nat.le_self_pow (by omega) 10)
    have hdecimal : Decimal (clip maxDmShortValueLen text) sign (ds.take (255 - sign.length)) := by
      refine ⟨hclip, hsigns, ?_, fun c hc => hdigits c (mem_of_mem_take hc)⟩
      intro hnil
      have hzero := congrArg List.length hnil
      rw [length_take, length_nil] at hzero
      omega
    have hkept : Represents type (clip maxDmShortValueLen text)
        (.number (signed sign (natValue (ds.take (255 - sign.length))))) := by
      refine ⟨sign, _, hdecimal, hsign, rfl, ?_⟩
      rw [← hvalue] at hlow hhigh
      by_cases hminus : sign = ['-']
      · have hneg := hsign hminus
        simp only [signed, if_pos hminus] at hlow hhigh ⊢
        obtain rfl | rfl := htype <;> simp only [bounds] at hneg hlow hhigh ⊢ <;> omega
      · simp only [signed, if_neg hminus] at hlow hhigh ⊢
        obtain rfl | rfl := htype <;> simp only [bounds] at hlow hhigh ⊢ <;> omega
    have hread : getValue leap type text =
        some (.number (signed sign (natValue (ds.take (255 - sign.length))))) := by
      rw [← convert_number leap hkept (by rintro ⟨rfl, _⟩; simp at htype)]
      obtain rfl | rfl := htype <;> rfl
    rw [hread, Option.some.injEq, Value.number.injEq, ← hvalue, signed, signed]
    constructor
    · intro heq
      right
      split at heq <;> split <;> omega
    · intro hzero
      replace hzero := hzero.resolve_left hshort
      split at hzero <;> split <;> omega

/-! ### Dates and flags -/

theorem stringToBool_eq (s : Str) : stringToBool s =
    if s.map Char.toLower = "true".toList ∨ s = "1".toList then some true
    else if s.map Char.toLower = "false".toList ∨ s = "0".toList then some false
    else none := rfl

variable {b : Bool} {t : Int}

theorem flag_short (h : Represents .bool text (.flag b)) : text.length < maxDmShortValueLen := by
  have hlower : (text.map Char.toLower).length = text.length := length_map ..
  have hwords : (text.map Char.toLower = "true".toList ∨ text = "1".toList) ∨
      (text.map Char.toLower = "false".toList ∨ text = "0".toList) := by
    cases b with
    | true => exact .inl h.2
    | false => exact .inr h.2
  rcases hwords with (hword | hone) | hword | hone
  · rw [← hlower, hword]; decide
  · rw [hone]; decide
  · rw [← hlower, hword]; decide
  · rw [hone]; decide

theorem convert_flag (leap : Nat) (h : Represents .bool text (.flag b)) :
    initSetRequest leap .bool text = some (.flag b) := by
  obtain ⟨_, h⟩ := h
  rw [initSetRequest, stringToBool_eq]
  cases b with
  | true =>
    rw [if_pos rfl] at h
    rw [if_pos h]
    rfl
  | false =>
    rw [if_neg Bool.false_ne_true] at h
    have htrue : ¬ (text.map Char.toLower = "true".toList ∨ text = "1".toList) := by
      rintro (hword | hone)
      · cases h with
        | inl hother => rw [hword] at hother; cases hother
        | inr hother => rw [hother] at hword; exact absurd hword (by decide)
      · cases h with
        | inl hother => rw [hone] at hother; exact absurd hother (by decide)
        | inr hother => rw [hone] at hother; cases hother
    rw [if_neg htrue, if_pos h]
    rfl

theorem represents_flag (h : initSetRequest leap .bool text = some (.flag b)) :
    Represents .bool text (.flag b) := by
  refine ⟨rfl, ?_⟩
  rw [initSetRequest, stringToBool] at h
  split at h
  · next htrue =>
    cases h
    exact htrue
  · split at h
    · next hfalse =>
      cases h
      exact hfalse
    · cases h

theorem isoText_ne_unknown {tm : Tm} (h : Valid tm) (hyear : tm.year ≤ 2037) :
    isoText tm ≠ unknownTimeStr := by
  intro heq
  have hread := strptime_isoText 1 h (by omega)
  have hother : strptime 1 unknownTimeStr = some (⟨1, 1, 1, 0, 0, 0⟩, ['Z']) := by rfl
  have hepoch := h.year
  rw [heq, hother] at hread
  cases hread
  exact absurd hepoch (by decide)

theorem time_short (h : Represents .dateTime text (.time t)) :
    text.length < maxDmShortValueLen := by
  have hbuf : maxDmShortValueLen = 256 := rfl
  obtain ⟨_, ⟨rfl, rfl⟩ | ⟨tm, hvalid, hyear, rfl, rfl⟩⟩ := h
  · decide
  · rw [isoText_length hvalid (by omega)]
    omega

theorem convert_time (leap : Nat) (h : Represents .dateTime text (.time t)) :
    initSetRequest leap .dateTime text = some (.time t) := by
  obtain ⟨_, ⟨rfl, rfl⟩ | ⟨tm, hvalid, hyear, rfl, rfl⟩⟩ := h
  · rfl
  · have hrange : ¬ (tm.year < 1970 ∨ 2037 < tm.year) := by
      have hepoch : 1970 ≤ tm.year := hvalid.year
      omega
    rw [initSetRequest, iso8601ToUnixTime, if_neg (isoText_ne_unknown hvalid hyear),
      strptime_isoText leap hvalid (by omega)]
    dsimp only
    rw [if_neg hrange]
    rfl

theorem represents_time (h : Represents .dateTime text (.time t)) :
    iso8601FromUnixTime t = text := by
  obtain ⟨_, ⟨rfl, rfl⟩ | ⟨tm, hvalid, _, rfl, rfl⟩⟩ := h
  · exact if_pos rfl
  · have hknown : ¬ ((timegm tm : Nat) : Int) = unknownTime := by
      rw [unknownTime]
      omega
    rw [iso8601FromUnixTime, if_neg hknown, Int.toNat_natCast, gmtime_timegm hvalid]

/-! ### Texts that are dealt with as they should be -/

/-- A text that stands for a value is converted to it, but for the one number left out. -/
theorem convert_represented (leap : Nat) (h : Represents type text v)
    (hmin : ¬ (type = .long ∧ v = .number (-2 ^ 63))) : initSetRequest leap type text = some v := by
  cases v with
  | number n => exact convert_number leap h fun ⟨htype, hn⟩ => hmin ⟨htype, congrArg _ hn⟩
  | flag b =>
    obtain rfl := h.1
    exact convert_flag leap h
  | time t =>
    obtain rfl := h.1
    exact convert_time leap h

/-- The text that is printed for a value stands for it, and is short. -/
theorem represents_serialized (h : Represents type text v) :
    Represents type (serializeNativeValue v) v ∧
      (serializeNativeValue v).length < maxDmShortValueLen := by
  cases v with
  | number n =>
    obtain ⟨_, _, _, _, _, hlow, hhigh⟩ := h
    exact ⟨represents_intDigits hlow hhigh, intDigits_short hlow hhigh⟩
  | flag b =>
    obtain rfl := h.1
    have hown : Represents .bool (boolToString b) (.flag b) := by
      cases b with
      | true => exact ⟨rfl, .inl rfl⟩
      | false => exact ⟨rfl, .inl rfl⟩
    exact ⟨hown, flag_short hown⟩
  | time t =>
    obtain rfl := h.1
    rw [serializeNativeValue, represents_time h]
    exact ⟨h, time_short h⟩

theorem right_of_represents (h : Represents type text v)
    (hmin : ¬ (type = .long ∧ v = .number (-2 ^ 63))) (hget : getValue leap type text = some v) :
    Right leap type text := by
  have hconv := convert_represented leap h hmin
  obtain ⟨hprint, hshort⟩ := represents_serialized h
  have hagain := convert_represented leap hprint hmin
  refine ⟨iff_of_true (by rw [hconv]; rfl) ⟨v, h⟩, fun v' hv' => ?_, fun v' hv' => ?_⟩
  · obtain rfl := Option.some.inj (hconv.symm.trans hv')
    exact ⟨h, hget⟩
  · obtain rfl := Option.some.inj (hconv.symm.trans hv')
    exact ⟨hagain, (getValue_short hshort).trans hagain⟩

theorem right_of_refused (hno : ∀ v, ¬ Represents type text v)
    (hnone : initSetRequest leap type text = none) : Right leap type text := by
  refine ⟨iff_of_false (by rw [hnone]; exact Bool.false_ne_true) fun ⟨v, hv⟩ => hno v hv, ?_, ?_⟩
  · intro v hv
    rw [hnone] at hv
    cases hv
  · intro v hv
    rw [hnone] at hv
    cases hv

/-- A text that is dealt with right stands for the value it is converted to, or for none. -/
theorem right_cases (h : Right leap type text) :
    (∃ v, Represents type text v ∧ initSetRequest leap type text = some v ∧
      getValue leap type text = some v) ∨
      (∀ v, ¬ Represents type text v) ∧ initSetRequest leap type text = none := by
  cases hconv : initSetRequest leap type text with
  | none =>
    right
    refine ⟨fun v hv => ?_, rfl⟩
    have hsome := h.accepts.mpr ⟨v, hv⟩
    rw [hconv] at hsome
    cases hsome
  | some v =>
    obtain ⟨hrep, hget⟩ := h.value v hconv
    exact .inl ⟨v, hrep, rfl, hget⟩

/-! ### The types -/

theorem right_bool_iff : Right leap .bool text ↔ ¬ Misread leap .bool text := by
  refine iff_of_true ?_ not_false
  cases hconv : initSetRequest leap .bool text with
  | none =>
    refine right_of_refused (fun v hv => ?_) hconv
    rw [convert_represented leap hv (by simp)] at hconv
    cases hconv
  | some v =>
    have hflag : ∃ b, v = .flag b := by
      rw [initSetRequest, Option.map_eq_some_iff] at hconv
      obtain ⟨b, _, rfl⟩ := hconv
      exact ⟨b, rfl⟩
    obtain ⟨b, rfl⟩ := hflag
    have hrep := represents_flag hconv
    exact right_of_represents hrep (by simp) ((getValue_short (flag_short hrep)).trans hconv)

theorem right_dateTime_iff : Right leap .dateTime text ↔ ¬ Misread leap .dateTime text := by
  have hread : ∀ {tm rest}, text ≠ unknownTimeStr → strptime leap text = some (tm, rest) →
      1970 ≤ tm.year → tm.year ≤ 2037 → ∃ v, initSetRequest leap .dateTime text = some v := by
    intro tm rest hne htm hlow hhigh
    rw [initSetRequest, iso8601ToUnixTime, if_neg hne, htm]
    dsimp only
    rw [if_neg (by omega)]
    exact ⟨_, rfl⟩
  constructor
  · rintro h ⟨hne, hno, tm, rest, htm, hlow, hhigh⟩
    obtain ⟨v, hv⟩ := hread hne htm hlow hhigh
    exact hno v (h.value v hv).1
  · intro h
    by_cases hrep : ∃ v, Represents .dateTime text v
    · obtain ⟨v, hv⟩ := hrep
      have htime : ∃ t, v = .time t := by
        cases v with
        | time t => exact ⟨t, rfl⟩
        | flag b => cases hv.1
        | number n =>
          obtain ⟨_, _, _, _, _, hlow, hhigh⟩ := hv
          simp only [bounds] at hlow hhigh
          omega
      obtain ⟨t, rfl⟩ := htime
      have hconv := convert_time leap hv
      have hshort := time_short hv
      exact right_of_represents hv (by simp) ((getValue_short hshort).trans hconv)
    · have hno : ∀ v, ¬ Represents .dateTime text v := fun v hv => hrep ⟨v, hv⟩
      apply right_of_refused hno
      by_contra hsome
      obtain ⟨v, hv⟩ := Option.ne_none_iff_exists'.mp hsome
      have hne : text ≠ unknownTimeStr := fun heq => hno (.time unknownTime) ⟨rfl, .inl ⟨heq, rfl⟩⟩
      rw [initSetRequest, iso8601ToUnixTime, if_neg hne] at hv
      cases htm : strptime leap text with
      | none => rw [htm] at hv; cases hv
      | some r =>
        rw [htm] at hv
        dsimp only at hv
        split at hv
        · cases hv
        · next hrange => exact h ⟨hne, hno, r.1, r.2, htm, by omega, by omega⟩

theorem right_int_iff : Right leap .int text ↔ ¬ Misread leap .int text := by
  have hconv : initSetRequest leap .int text = none ↔ (scanNumeral text).digits = [] := by
    rw [initSetRequest, Option.map_eq_none_iff, stringToInteger_eq_none_iff]
  constructor
  · intro h hmis
    cases right_cases h with
    | inl hvalue =>
      obtain ⟨v, hrep, _, hget⟩ := hvalue
      cases hmis with
      | inl hno => exact hno.2 v hrep
      | inr hlong =>
        obtain ⟨hlen, n, hne, hn⟩ := hlong
        obtain ⟨m, rfl⟩ := number_of_represents (by simp) (by simp) hrep
        obtain rfl := represents_unique hrep hn
        have hor := (getValue_number_iff (.inl rfl) hrep).mp hget
        omega
    | inr hnone =>
      cases hmis with
      | inl hdigits => exact hdigits.1 (hconv.mp hnone.2)
      | inr hlong =>
        obtain ⟨_, n, _, hn⟩ := hlong
        exact hnone.1 _ hn
  · intro h
    obtain ⟨hread, hlong⟩ := not_or.mp h
    by_cases hrep : ∃ v, Represents .int text v
    · obtain ⟨v, hv⟩ := hrep
      obtain ⟨n, rfl⟩ := number_of_represents (by simp) (by simp) hv
      apply right_of_represents hv (by simp)
      rw [getValue_number_iff (.inl rfl) hv]
      by_contra hor
      exact hlong ⟨by omega, n, by omega, hv⟩
    · have hno : ∀ v, ¬ Represents .int text v := fun v hv => hrep ⟨v, hv⟩
      apply right_of_refused hno
      rw [hconv]
      by_contra hdigits
      exact hread ⟨hdigits, hno⟩

theorem convert_unsigned (htype : type = .uint ∨ type = .ulong) :
    initSetRequest leap type text = some v ↔ ∃ n : Nat, stringToUnsignedLongLong text = some n ∧
      (n : Int) < (bounds type).2 ∧ v = .number n := by
  obtain rfl | rfl := htype
  · rw [initSetRequest, stringToUnsigned_eq, Option.map_eq_some_iff]
    constructor
    · rintro ⟨n, hn, rfl⟩
      obtain ⟨hread, hlt⟩ := Option.filter_eq_some_iff.mp hn
      have hsmall := of_decide_eq_true hlt
      exact ⟨n, hread, by simp only [bounds]; omega, rfl⟩
    · rintro ⟨n, hread, hlt, rfl⟩
      simp only [bounds] at hlt
      exact ⟨n, Option.filter_eq_some_iff.mpr ⟨hread, decide_eq_true (by omega)⟩, rfl⟩
  · rw [initSetRequest, Option.map_eq_some_iff]
    constructor
    · rintro ⟨n, hread, rfl⟩
      refine ⟨n, hread, ?_, rfl⟩
      simp only [bounds]
      obtain ⟨_, rfl⟩ | ⟨_, _, _, _, _, _, hlt⟩ := stringToUnsignedLongLong_eq_some_iff.mp hread
      · decide
      · omega
    · rintro ⟨n, hread, _, rfl⟩
      exact ⟨n, hread, rfl⟩

/-- What the unsigned conversions accept: no text, or a number behind white space. -/
theorem convert_unsigned_iff (htype : type = .uint ∨ type = .ulong) :
    initSetRequest leap type text = some v ↔ text = [] ∧ v = .number 0 ∨
      ∃ ws t, (∀ c ∈ ws, isSpace c = true) ∧ text = ws ++ t ∧ Represents type t v := by
  have hlow : (bounds type).1 = 0 := by obtain rfl | rfl := htype <;> rfl
  rw [convert_unsigned htype]
  constructor
  · rintro ⟨n, hread, hlt, rfl⟩
    obtain ⟨htext, rfl⟩ | ⟨ws, sign, ds, hscan, hsign, rfl, _⟩ :=
      stringToUnsignedLongLong_eq_some_iff.mp hread
    · exact .inl ⟨htext, rfl⟩
    · have htext := hscan.text
      rw [append_nil] at htext
      refine .inr ⟨ws, sign ++ ds, hscan.spaces, htext, sign, ds, hscan.decimal,
        fun hminus => (hsign hminus).elim, if_neg hsign, ?_, hlt⟩
      rw [hlow]
      omega
  · rintro (⟨rfl, rfl⟩ | ⟨ws, t, hws, rfl, hrep⟩)
    · exact ⟨0, rfl, by obtain rfl | rfl := htype <;> decide, rfl⟩
    · obtain ⟨n, rfl⟩ := number_of_represents (by obtain rfl | rfl := htype <;> simp)
        (by obtain rfl | rfl := htype <;> simp) hrep
      obtain ⟨sign, ds, hdecimal, hminus, rfl, _, hhigh⟩ := hrep
      have hsign : sign ≠ ['-'] := fun heq => by
        have hneg := hminus heq
        omega
      have hlarge : (bounds type).2 ≤ 2 ^ 64 := by obtain rfl | rfl := htype <;> decide
      rw [signed, if_neg hsign] at hhigh ⊢
      exact ⟨natValue ds, stringToUnsignedLongLong_eq_some_iff.mpr (.inr ⟨ws, sign, ds,
        scanned_of_decimal ws hdecimal hws, hsign, rfl, by omega⟩), hhigh, rfl⟩

theorem convert_long_iff :
    initSetRequest leap .long text = some v ↔ text ≠ largestNegative ∧ (text = [] ∧ v = .number 0 ∨
      ∃ ws t, (∀ c ∈ ws, isSpace c = true) ∧ text = ws ++ t ∧ Represents .long t v) := by
  rw [initSetRequest, Option.map_eq_some_iff]
  constructor
  · rintro ⟨n, hread, rfl⟩
    obtain ⟨hne, ⟨htext, rfl⟩ | ⟨ws, sign, ds, hscan, rfl, hlow, hhigh⟩⟩ :=
      stringToLongLong_eq_some_iff.mp hread
    · exact ⟨hne, .inl ⟨htext, rfl⟩⟩
    · have htext := hscan.text
      rw [append_nil] at htext
      exact ⟨hne, .inr ⟨ws, sign ++ ds, hscan.spaces, htext, sign, ds, hscan.decimal,
        fun _ => by decide, rfl, hlow, hhigh⟩⟩
  · rintro ⟨hne, ⟨rfl, rfl⟩ | ⟨ws, t, hws, rfl, hrep⟩⟩
    · exact ⟨0, stringToLongLong_eq_some_iff.mpr ⟨hne, .inl ⟨rfl, rfl⟩⟩, rfl⟩
    · obtain ⟨n, rfl⟩ := number_of_represents (by simp) (by simp) hrep
      obtain ⟨sign, ds, hdecimal, _, rfl, hlow, hhigh⟩ := hrep
      exact ⟨_, stringToLongLong_eq_some_iff.mpr ⟨hne, .inr ⟨ws, sign, ds,
        scanned_of_decimal ws hdecimal hws, rfl, hlow, hhigh⟩⟩, rfl⟩

/-- No number is written behind white space. -/
theorem not_indented (h : Represents type text (.number n)) : ¬ Indented type text := by
  rintro ⟨ws, t, v, hne, hws, htext, _⟩
  obtain ⟨sign, ds, hscan, _⟩ := represents_number h
  have hdecimal := hscan.decimal
  have hwhole := hscan.text
  rw [nil_append, append_nil] at hwhole
  cases ws with
  | nil => exact hne rfl
  | cons c ws =>
    have hc := hws c mem_cons_self
    rw [htext, cons_append] at hwhole
    obtain hsign | hsign | hsign := hdecimal.sign
    · have hmem : c ∈ ds := by
        rw [hsign, nil_append] at hwhole
        rw [← hwhole]
        exact mem_cons_self
      rw [ReportingInterval.isSpace_of_isDigit (hdecimal.digits c hmem)] at hc
      cases hc
    · rw [hsign] at hwhole
      rw [(List.cons.inj hwhole).1] at hc
      exact absurd hc (by decide)
    · rw [hsign] at hwhole
      rw [(List.cons.inj hwhole).1] at hc
      exact absurd hc (by decide)

/-- A number that is accepted but not written as one is behind white space, or not there. -/
theorem nil_or_indented {ws t : Str} (hno : ∀ v, ¬ Represents type text v)
    (hws : ∀ c ∈ ws, isSpace c = true) (htext : text = ws ++ t) (hrep : Represents type t v) :
    Indented type text := by
  refine ⟨ws, t, v, fun hnil => ?_, hws, htext, hrep⟩
  rw [hnil, nil_append] at htext
  exact hno v (htext ▸ hrep)

theorem not_represents_nil (h : Represents type [] (.number n)) : False := by
  obtain ⟨sign, ds, hdecimal, _⟩ := h
  exact hdecimal.ne_nil (List.append_eq_nil_iff.mp hdecimal.text.symm).2

theorem represents_largestNegative : Represents .long largestNegative (.number (-2 ^ 63)) := by
  have hdigits : ("9223372036854775808".toList).all Char.isDigit = true := by rfl
  have hvalue : natValue "9223372036854775808".toList = 2 ^ 63 := by rfl
  refine ⟨['-'], "9223372036854775808".toList, ⟨rfl, .inr (.inr rfl), by simp,
    List.all_eq_true.mp hdigits⟩, fun _ => by decide, ?_, by decide, by decide⟩
  rw [hvalue]
  rfl

theorem serialize_largestNegative : intDigits (-2 ^ 63) = largestNegative := by rfl

/-- A type of numbers that takes no text, and a number behind white space, for a number, and no
other text that stands for none. -/
theorem right_number_iff (hbool : type ≠ .bool) (htime : type ≠ .dateTime)
    (hrefuse : (∀ v, ¬ Represents type text v) →
      (initSetRequest leap type text = none ↔ ¬ (text = [] ∨ Indented type text))) :
    Right leap type text ↔ ¬ (text = [] ∨ Indented type text) ∧
      ∀ n, Represents type text (.number n) →
        ¬ (type = .long ∧ n = -2 ^ 63) ∧ getValue leap type text = some (.number n) := by
  constructor
  · intro h
    cases right_cases h with
    | inl hvalue =>
      obtain ⟨v, hrep, hconv, hget⟩ := hvalue
      obtain ⟨m, rfl⟩ := number_of_represents hbool htime hrep
      constructor
      · rintro (rfl | hind)
        · exact not_represents_nil hrep
        · exact not_indented hrep hind
      · intro n hn
        obtain rfl := represents_unique hrep hn
        refine ⟨?_, hget⟩
        rintro ⟨rfl, rfl⟩
        -- the text of this number is refused
        have hagain := (h.reread _ hconv).1
        rw [serializeNativeValue, serialize_largestNegative, convert_long_iff] at hagain
        exact hagain.1 rfl
    | inr hnone =>
      exact ⟨(hrefuse hnone.1).mp hnone.2, fun n hn => (hnone.1 _ hn).elim⟩
  · rintro ⟨hother, hnumber⟩
    by_cases hrep : ∃ v, Represents type text v
    · obtain ⟨v, hv⟩ := hrep
      obtain ⟨n, rfl⟩ := number_of_represents hbool htime hv
      obtain ⟨hmin, hget⟩ := hnumber n hv
      exact right_of_represents hv (fun ⟨htype, hn⟩ => hmin ⟨htype, Value.number.inj hn⟩) hget
    · have hno : ∀ v, ¬ Represents type text v := fun v hv => hrep ⟨v, hv⟩
      exact right_of_refused hno ((hrefuse hno).mpr hother)

theorem refused_iff {accepts : Prop} (hconv : ∀ v, initSetRequest leap type text = some v ↔
      accepts ∧ (text = [] ∧ v = .number 0 ∨
        ∃ ws t, (∀ c ∈ ws, isSpace c = true) ∧ text = ws ++ t ∧ Represents type t v))
    (haccepts : accepts) (hno : ∀ v, ¬ Represents type text v) :
    initSetRequest leap type text = none ↔ ¬ (text = [] ∨ Indented type text) := by
  constructor
  · rintro hnone (hnil | ⟨ws, t, v, _, hws, htext, hrep⟩)
    · have hsome := (hconv (.number 0)).mpr ⟨haccepts, .inl ⟨hnil, rfl⟩⟩
      rw [hnone] at hsome
      cases hsome
    · have hsome := (hconv v).mpr ⟨haccepts, .inr ⟨ws, t, hws, htext, hrep⟩⟩
      rw [hnone] at hsome
      cases hsome
  · intro hother
    by_contra hsome
    obtain ⟨v, hv⟩ := Option.ne_none_iff_exists'.mp hsome
    obtain ⟨_, ⟨hnil, _⟩ | ⟨ws, t, hws, htext, hrep⟩⟩ := (hconv v).mp hv
    · exact hother (.inl hnil)
    · exact hother (.inr (nil_or_indented hno hws htext hrep))

theorem refused_unsigned (htype : type = .uint ∨ type = .ulong)
    (hno : ∀ v, ¬ Represents type text v) :
    initSetRequest leap type text = none ↔ ¬ (text = [] ∨ Indented type text) :=
  refused_iff (fun _ => (convert_unsigned_iff htype).trans (Iff.of_eq (true_and _)).symm) trivial hno

theorem refused_long (hno : ∀ v, ¬ Represents .long text v) :
    initSetRequest leap .long text = none ↔ ¬ (text = [] ∨ Indented .long text) :=
  refused_iff (fun _ => convert_long_iff)
    (fun htext => hno _ (htext ▸ represents_largestNegative)) hno

theorem right_uint_iff : Right leap .uint text ↔ ¬ Misread leap .uint text := by
  rw [right_number_iff (by simp) (by simp) (refused_unsigned (.inl rfl)), Misread, ← or_assoc,
    not_or (q := Overlong .uint text)]
  refine and_congr_right fun _ => ?_
  constructor
  · rintro h ⟨hlen, n, hne, hn⟩
    have hor := (getValue_number_iff (.inr rfl) hn).mp (h n hn).2
    omega
  · intro h n hn
    refine ⟨by simp, (getValue_number_iff (.inr rfl) hn).mpr ?_⟩
    by_contra hor
    exact h ⟨by omega, n, by omega, hn⟩

theorem right_ulong_iff : Right leap .ulong text ↔ ¬ Misread leap .ulong text := by
  rw [right_number_iff (by simp) (by simp) (refused_unsigned (.inr rfl)), Misread]
  constructor
  · exact And.left
  · exact fun h => ⟨h, fun n hn => ⟨by simp, convert_number leap hn (by simp)⟩⟩

theorem right_long_iff : Right leap .long text ↔ ¬ Misread leap .long text := by
  rw [right_number_iff (by simp) (by simp) refused_long, Misread, ← or_assoc,
    not_or (q := Represents .long text (.number (-2 ^ 63)))]
  refine and_congr_right fun _ => ?_
  constructor
  · exact fun h hmin => (h _ hmin).1 ⟨rfl, rfl⟩
  · intro h n hn
    have hne : ¬ (ValueType.long = .long ∧ n = -2 ^ 63) := by
      rintro ⟨_, rfl⟩
      exact h hn
    exact ⟨hne, convert_number leap hn hne⟩

end Values

/-- Which texts a type deals with as it should. -/
theorem right_iff_not_misread (leap : Nat) (type : ValueType) (text : Str) :
    Right leap type text ↔ ¬ Misread leap type text := by
  cases type with
  | dateTime => exact right_dateTime_iff
  | bool => exact right_bool_iff
  | int => exact right_int_iff
  | uint => exact right_uint_iff
  | ulong => exact right_ulong_iff
  | long => exact right_long_iff

/-- Text behind a number is not looked at. -/
theorem int_with_unit :
    (∀ leap, initSetRequest leap .int "12 apples".toList = some (.number 12)) ∧
      ∀ leap, ¬ ∀ (type : ValueType) (text : Str), Right leap type text := by
  have haccepted : ∀ leap, initSetRequest leap .int "12 apples".toList = some (.number 12) :=
    fun _ => rfl
  refine ⟨haccepted, fun leap h => ?_⟩
  obtain ⟨sign, ds, hdecimal, _⟩ := ((h .int "12 apples".toList).value _ (haccepted leap)).1
  have hmem : ' ' ∈ sign ++ ds := by
    rw [← hdecimal.text]
    decide
  cases List.mem_append.mp hmem with
  | inl hsign => obtain rfl | rfl | rfl := hdecimal.sign <;> revert hsign <;> decide
  | inr hds => exact absurd (hdecimal.digits ' ' hds) (by decide)

end ValueTexts
