import Mathlib.Data.List.TakeWhile
import SdtTr369.BulkData
import SdtTr369.Numerals

/-!
# Reporting intervals of bulk data profiles

The text of `ReportingInterval` on its way into the timer of a profile: the validator
reads an `unsigned`, the profile holds an `int`, the wait is computed in a `time_t` of
`w` bits and given back through an `unsigned`. Arithmetic wraps around.
-/

namespace ReportingInterval

open UspTypes DecimalText Numerals BulkData List Option

/-! ## Words -/

/-- A number stored in a signed word of `w` bits. -/
def wrap (w : Nat) (n : Int) : Int := n.bmod (2 ^ w)

/-- The first number that a signed word of `w` bits does not hold. -/
def half (w : Nat) : Int := 2 ^ (w - 1)

theorem two_half {w : Nat} (hw : 32 ≤ w) : ((2 ^ w : Nat) : Int) = 2 * half w := by
  obtain ⟨k, rfl⟩ : ∃ k, w = k + 1 := ⟨w - 1, by omega⟩
  simp only [half, Nat.add_sub_cancel]
  push_cast
  rw [pow_succ, mul_comm]

theorem half_ge {w : Nat} (hw : 32 ≤ w) : 2 ^ 31 ≤ half w := by
  have h : (2 : Nat) ^ 31 ≤ 2 ^ (w - 1) := Nat.pow_le_pow_right (by decide) (by omega)
  simp only [half]
  exact_mod_cast h

variable {n : Int} {ds str : Str}

theorem wrap_eq {w : Nat} (hw : 32 ≤ w) (hle : -half w ≤ n) (hlt : n < half w) : wrap w n = n := by
  have htwo := two_half hw
  apply Int.bmod_eq_of_le <;> omega

theorem wrap_above {w : Nat} (hw : 32 ≤ w) (hle : half w ≤ n) (hlt : n < 3 * half w) :
    wrap w n = n - 2 * half w := by
  have hsub : wrap w n = wrap w (n - 2 * half w) := by
    rw [← two_half hw, wrap, wrap, Int.sub_bmod_right]
  rw [hsub, wrap_eq hw] <;> omega

theorem wrap_below {w : Nat} (hw : 32 ≤ w) (hle : -3 * half w ≤ n) (hlt : n < -half w) :
    wrap w n = n + 2 * half w := by
  have hadd : wrap w n = wrap w (n + 2 * half w) := by
    rw [← two_half hw, wrap, wrap, Int.add_bmod_right]
  rw [hadd, wrap_eq hw] <;> omega

/-! ## The wait -/

/-- `bulkdata_calc_waittime_to_next_reporting_interval`, unless it divides by zero. -/
def calcWaittime (w : Nat) (interval curTime timeReference : Int) : Option Nat :=
  if interval = 0 then none
  else
    let waitTime := wrap w (interval - (wrap w (curTime - timeReference)).tmod interval)
    some (toUnsigned (if interval < waitTime then wrap w (waitTime - interval) else waitTime))

/-- `wait_time` of `bulkdata_start_profile`. -/
def startWait (w : Nat) (interval curTime timeReference : Int) : Option Int :=
  (calcWaittime w interval curTime timeReference).map fun n => toInt n

theorem toUnsigned_cast (n : Int) : (toUnsigned n : Int) = n % 2 ^ 32 := by
  simp only [toUnsigned]
  omega

theorem toInt_toUnsigned (hle : -2 ^ 31 ≤ n) (hlt : n < 2 ^ 31) : toInt (toUnsigned n) = n := by
  have hcast := toUnsigned_cast n
  unfold toInt
  by_cases h : toUnsigned n < 2 ^ 31
  · rw [if_pos h]
    omega
  · rw [if_neg h]
    omega

/-- A number below the range of an `int` comes back above zero. -/
theorem toInt_toUnsigned_below (hle : -2 ^ 32 ≤ n) (hlt : n < -2 ^ 31) :
    toInt (toUnsigned n) = n + 2 ^ 32 := by
  have hcast := toUnsigned_cast n
  have h : toUnsigned n < 2 ^ 31 := by omega
  rw [toInt, if_pos h]
  omega

theorem toInt_small {u : Nat} (hu : u < 2 ^ 31) : toInt u = u := if_pos hu

theorem toInt_large {u : Nat} (hu : ¬u < 2 ^ 31) : toInt u = -(2 ^ 32 - u) := by
  rw [toInt, if_neg hu]
  omega

/-- The wait when no step leaves the range of `time_t`. -/
theorem startWait_eq {w : Nat} (hw : 32 ≤ w) {cur ref d i r : Int} (hd : wrap w (cur - ref) = d)
    (hi : i ≠ 0) (hr : d.tmod i = r) (hle : -half w ≤ i - r) (hlt : i - r < half w)
    (hneg : -half w ≤ -r) (hpos : -r < half w) :
    startWait w i cur ref = some (toInt (toUnsigned (if r < 0 then -r else i - r))) := by
  have hdown : i - r - i = -r := by omega
  have htest : i < i - r ↔ r < 0 := by omega
  simp only [startWait, calcWaittime, if_neg hi, hd, hr, wrap_eq hw hle hlt, hdown, htest,
    wrap_eq hw hneg hpos, map_some]

/-- A wait in the interval `v` that ends on a point of the time grid of `v`. -/
def OnSchedule (v : Nat) (cur ref wait : Int) : Prop :=
  1 ≤ wait ∧ wait ≤ v ∧ (v : Int) ∣ cur + wait - ref

/-- The code keeps the schedule of `v` with the number `u`. In `d` the difference of the
times is stored. A number from 2^31 on is taken for the negative of `m`, and the wait is on
schedule by chance only. -/
def KeepsSchedule (w u v : Nat) (cur ref : Int) : Prop :=
  let d := wrap w (cur - ref)
  let m : Int := 2 ^ 32 - u
  if u < 2 ^ 31 then
    0 < u ∧ (0 ≤ d ∨ u + -d % u < half w) ∧ (v : Int) ∣ cur - ref - d + u * (d / u + 1)
  else if 0 ≤ d then
    2 ^ 31 < m + d % m ∧ m + d % m ≤ half w ∧ (v : Int) ∣ cur - ref - d + (m * (d / m) + u)
  else 0 < -d % m ∧ (v : Int) ∣ cur - ref - d - m * (-d / m)

theorem half_cases {w : Nat} (hw : 32 ≤ w) : half w = 2 ^ 31 ∨ 2 ^ 32 ≤ half w := by
  rcases Nat.lt_or_ge 32 w with h | h
  · have hpow : (2 : Nat) ^ 32 ≤ 2 ^ (w - 1) := Nat.pow_le_pow_right (by decide) (by omega)
    right
    simp only [half]
    exact_mod_cast hpow
  · obtain rfl : w = 32 := by omega
    exact .inl rfl

section Cases

variable {w u v : Nat} {cur ref : Int}

/-- The remainder of C, for a difference before the reference. -/
theorem tmod_of_neg {d : Int} (hd : d < 0) (m : Int) : d.tmod m = -(-d % m) := by
  rw [← Int.tmod_eq_emod_of_nonneg (by omega), Int.neg_tmod, Int.neg_neg]

theorem onSchedule_of_eq {wait k : Int} (hk : cur + wait - ref = k) (hone : 1 ≤ wait)
    (hle : wait ≤ v) : OnSchedule v cur ref wait ↔ (v : Int) ∣ k := by
  rw [OnSchedule, hk]
  exact ⟨fun h => h.2.2, fun h => ⟨hone, hle, h⟩⟩

theorem not_onSchedule {wait : Int} (h : wait < 1) : ¬OnSchedule v cur ref wait :=
  fun hs => absurd hs.1 (by omega)

theorem neg_emod_cases (d : Int) {m : Int} (hm : 0 < m) :
    (-d % m = 0 ∧ d % m = 0) ∨ (0 < -d % m ∧ d % m = m - -d % m) := by
  have hs := Int.emod_nonneg (-d) (b := m) (by omega)
  have ht := Int.emod_nonneg d (b := m) (by omega)
  have hs' := Int.emod_lt_of_pos (-d) hm
  have ht' := Int.emod_lt_of_pos d hm
  have hsum : (-d % m + d % m) % m = 0 := by
    rw [← Int.add_emod, Int.add_left_neg, Int.zero_emod]
  obtain ⟨k, hk⟩ := Int.dvd_of_emod_eq_zero hsum
  -- the sum of the two remainders is a multiple of `m` below `2 * m`
  have hk0 : 0 ≤ k := by
    by_contra hneg
    have hle : m * k ≤ m * (-1) := Int.mul_le_mul_of_nonneg_left (by omega) (by omega)
    omega
  have hk2 : k < 2 := by
    by_contra hbig
    have hge : m * 2 ≤ m * k := Int.mul_le_mul_of_nonneg_left (by omega) (by omega)
    omega
  obtain rfl | rfl : k = 0 ∨ k = 1 := by omega
  · left
    omega
  · right
    omega

section

variable {d m : Int} (hw : 32 ≤ w) (hd : wrap w (cur - ref) = d)
include hw hd

/-- The number fits in an `int`, the reference is not after now. -/
theorem startWait_after (hpos : 0 < u) (hu : u < 2 ^ 31) (hsign : 0 ≤ d) :
    startWait w (toInt u) cur ref = some (u - d % u) := by
  have hhalf := half_ge hw
  have hr := Int.tmod_eq_emod_of_nonneg (b := u) hsign
  have hnonneg := Int.emod_nonneg d (b := u) (by omega)
  have hlt := Int.emod_lt_of_pos d (b := u) (by omega)
  rw [toInt_small hu, startWait_eq hw hd (by omega) hr (by omega) (by omega) (by omega) (by omega),
    if_neg (by omega), toInt_toUnsigned (by omega) (by omega)]

theorem startWait_before (hpos : 0 < u) (hu : u < 2 ^ 31) (hsign : d < 0)
    (hsum : u + -d % u < half w) : startWait w (toInt u) cur ref = some (u - d % u) := by
  have hhalf := half_ge hw
  have hr := tmod_of_neg hsign u
  have hnonneg := Int.emod_nonneg (-d) (b := u) (by omega)
  have hlt := Int.emod_lt_of_pos (-d) (b := u) (by omega)
  rw [toInt_small hu, startWait_eq hw hd (by omega) hr (by omega) (by omega) (by omega) (by omega)]
  rcases neg_emod_cases d (m := u) (by omega) with ⟨hs, ht⟩ | ⟨hs, ht⟩
  · rw [if_neg (by omega), toInt_toUnsigned (by omega) (by omega), hs, ht, Int.neg_zero]
  · rw [if_pos (by omega), toInt_toUnsigned (by omega) (by omega), ht]
    congr 1
    omega

theorem startWait_before_overflow (hpos : 0 < u) (hu : u < 2 ^ 31) (hsign : d < 0)
    (hsum : half w ≤ u + -d % u) :
    ∃ wait, startWait w (toInt u) cur ref = some wait ∧ wait < 1 := by
  have hlt := Int.emod_lt_of_pos (-d) (b := u) (by omega)
  rcases half_cases hw with hhalf | hhalf
  · have hwrap : wrap w (u - d.tmod u) = u + -d % u - 2 * half w := by
      rw [tmod_of_neg hsign, Int.sub_neg, wrap_above hw hsum (by omega)]
    refine ⟨u + -d % u - 2 * half w, ?_, by omega⟩
    simp only [toInt_small hu, startWait, calcWaittime, hd, hwrap]
    rw [if_neg (by omega), if_neg (by omega), map_some, toInt_toUnsigned (by omega) (by omega)]
  · omega

variable (hu : ¬u < 2 ^ 31) (hv : u < 2 ^ 32) (hm : 2 ^ 32 - (u : Int) = m)
include hu hv hm

theorem startWait_negative_after (hsign : 0 ≤ d) (hsum : m + d % m ≤ half w)
    (hbig : 2 ^ 31 < m + d % m) : startWait w (toInt u) cur ref = some (u - d % m) := by
  have hhalf := half_ge hw
  have hr : d.tmod (-m) = d % m := by rw [Int.tmod_neg, Int.tmod_eq_emod_of_nonneg hsign]
  have hnonneg := Int.emod_nonneg d (b := m) (by omega)
  have hlt := Int.emod_lt_of_pos d (b := m) (by omega)
  rw [toInt_large hu, hm, startWait_eq hw hd (by omega) hr (by omega) (by omega) (by omega)
    (by omega), if_neg (by omega), toInt_toUnsigned_below (by omega) (by omega)]
  congr 1
  omega

theorem startWait_negative_after_fails (hsign : 0 ≤ d)
    (hout : ¬(2 ^ 31 < m + d % m ∧ m + d % m ≤ half w)) :
    ∃ wait, startWait w (toInt u) cur ref = some wait ∧ wait < 1 := by
  have hhalf := half_ge hw
  have hr : d.tmod (-m) = d % m := by rw [Int.tmod_neg, Int.tmod_eq_emod_of_nonneg hsign]
  have hnonneg := Int.emod_nonneg d (b := m) (by omega)
  have hlt := Int.emod_lt_of_pos d (b := m) (by omega)
  by_cases hsum : m + d % m ≤ half w
  · -- a negative `int`
    refine ⟨-m - d % m, ?_, by omega⟩
    rw [toInt_large hu, hm, startWait_eq hw hd (by omega) hr (by omega) (by omega) (by omega)
      (by omega), if_neg (by omega), toInt_toUnsigned (by omega) (by omega)]
  · -- the difference wraps to a large number, from which the interval is taken once more
    have hdown : wrap w (-m - d % m) = -m - d % m + 2 * half w :=
      wrap_below hw (by omega) (by omega)
    have hagain : wrap w (-m - d % m + 2 * half w - -m) = -(d % m) := by
      rw [wrap_above hw (by omega) (by omega)]
      omega
    refine ⟨-(d % m), ?_, by omega⟩
    simp only [toInt_large hu, hm, startWait, calcWaittime, hd, hr, hdown]
    rw [if_neg (by omega), if_pos (by omega), hagain, map_some,
      toInt_toUnsigned (by omega) (by omega)]

theorem startWait_negative_before (hsign : d < 0) :
    startWait w (toInt u) cur ref = some (if 0 < -d % m then -d % m else -m) := by
  have hhalf := half_ge hw
  have hr : d.tmod (-m) = -(-d % m) := by rw [Int.tmod_neg, tmod_of_neg hsign]
  have hnonneg := Int.emod_nonneg (-d) (b := m) (by omega)
  have hlt := Int.emod_lt_of_pos (-d) (b := m) (by omega)
  rw [toInt_large hu, hm, startWait_eq hw hd (by omega) hr (by omega) (by omega) (by omega)
    (by omega)]
  by_cases hs : 0 < -d % m
  · rw [if_pos (by omega), if_pos hs, toInt_toUnsigned (by omega) (by omega), Int.neg_neg]
  · rw [if_neg (by omega), if_neg hs, toInt_toUnsigned (by omega) (by omega)]
    congr 1
    omega

end

/-- The number `u` of the profile is the interval `v`, or what is left of its numeral. -/
theorem onSchedule_iff (hw : 32 ≤ w) (huv : u ≤ v) (hv : v < 2 ^ 32) :
    (∃ wait, startWait w (toInt u) cur ref = some wait ∧ OnSchedule v cur ref wait) ↔
      KeepsSchedule w u v cur ref := by
  obtain ⟨d, hd⟩ : ∃ d, wrap w (cur - ref) = d := ⟨_, rfl⟩
  have hdiv := Int.mul_ediv_add_emod d u
  simp only [KeepsSchedule, hd]
  by_cases hu : u < 2 ^ 31
  · rw [if_pos hu]
    by_cases hpos : 0 < u
    · have hnonneg := Int.emod_nonneg d (b := u) (by omega)
      have hlt := Int.emod_lt_of_pos d (b := u) (by omega)
      by_cases hsum : 0 ≤ d ∨ u + -d % u < half w
      · have hwait : startWait w (toInt u) cur ref = some (u - d % u) := by
          rcases Int.lt_or_le d 0 with hsign | hsign
          · exact startWait_before hw hd hpos hu hsign (hsum.resolve_left (by omega))
          · exact startWait_after hw hd hpos hu hsign
        have hend : cur + (u - d % u) - ref = cur - ref - d + u * (d / u + 1) := by
          rw [Int.mul_add, Int.mul_one]
          omega
        simp only [hwait, Option.some.injEq, exists_eq_left', hpos, hsum, true_and]
        exact onSchedule_of_eq hend (by omega) (by omega)
      · obtain ⟨wait, hwait, hneg⟩ := startWait_before_overflow hw hd hpos hu (by omega)
          (Int.not_lt.mp fun h => hsum (.inr h))
        simp only [hwait, Option.some.injEq, exists_eq_left', hsum, false_and, and_false, iff_false]
        exact not_onSchedule hneg
    · obtain rfl : u = 0 := by omega
      simp [startWait, calcWaittime, toInt_small hu]
  · rw [if_neg hu]
    obtain ⟨m, hm⟩ : ∃ m : Int, 2 ^ 32 - (u : Int) = m := ⟨_, rfl⟩
    rw [hm]
    have hdivm := Int.mul_ediv_add_emod d m
    have hdivn := Int.mul_ediv_add_emod (-d) m
    have hlt := Int.emod_lt_of_pos d (b := m) (by omega)
    have hltn := Int.emod_lt_of_pos (-d) (b := m) (by omega)
    by_cases hsign : 0 ≤ d
    · rw [if_pos hsign]
      by_cases hin : 2 ^ 31 < m + d % m ∧ m + d % m ≤ half w
      · have hwait := startWait_negative_after hw hd hu (by omega) hm hsign hin.2 hin.1
        simp only [hwait, Option.some.injEq, exists_eq_left', hin, true_and]
        exact onSchedule_of_eq (by omega) (by omega) (by omega)
      · obtain ⟨wait, hwait, hneg⟩ :=
          startWait_negative_after_fails hw hd hu (by omega) hm hsign hin
        simp only [hwait, Option.some.injEq, exists_eq_left', ← and_assoc, hin, false_and, iff_false]
        exact not_onSchedule hneg
    · rw [if_neg hsign]
      have hwait := startWait_negative_before hw hd hu (by omega) hm (Int.not_le.mp hsign)
      by_cases hs : 0 < -d % m
      · simp only [hwait, if_true, Option.some.injEq, exists_eq_left', hs, true_and]
        exact onSchedule_of_eq (by omega) (by omega) (by omega)
      · simp only [hwait, if_false, Option.some.injEq, exists_eq_left', hs, false_and, iff_false]
        exact not_onSchedule (by omega)

end Cases

/-! ## Numerals -/

/-- `isspace`. -/
def isSpace (c : Char) : Bool := c = ' ' || (9 ≤ c.toNat && c.toNat ≤ 13)

/-- What a conversion of C finds in a text. -/
structure Numeral where
  negative : Bool
  digits : Str
  rest : Str

/-- The numeral after the white space. -/
def scanNumeral (str : Str) : Numeral :=
  match str.dropWhile isSpace with
  | '-' :: s => ⟨true, s.takeWhile Char.isDigit, s.dropWhile Char.isDigit⟩
  | '+' :: s => ⟨false, s.takeWhile Char.isDigit, s.dropWhile Char.isDigit⟩
  | s => ⟨false, s.takeWhile Char.isDigit, s.dropWhile Char.isDigit⟩

/-- `*endptr` after `strtoull`, which is the whole text when there are no digits. -/
def unconverted (str : Str) : Str :=
  if (scanNumeral str).digits = [] then str else (scanNumeral str).rest

/-- `TEXT_UTILS_StringToUnsigned`. -/
def stringToUnsigned (str : Str) : Option Nat :=
  if '-' ∈ str ∨ unconverted str ≠ [] then none
  else if natValue (scanNumeral str).digits < 2 ^ 32 then some (natValue (scanNumeral str).digits)
  else none

/-- `BULKDATA_MINIMUM_REPORTING_INTERVAL`. -/
def minimumReportingInterval : Nat := 1

/-- A text that `Validate_BulkDataReportingInterval` admits, with its number. -/
def validateBulkDataReportingInterval (str : Str) : Option Nat :=
  (stringToUnsigned str).filter fun v => minimumReportingInterval ≤ v ∧ v < 2 ^ 32

/-- The `intmax_t` nearest to a number. -/
def clampIntmax (n : Int) : Int := max (-2 ^ 63) (min n (2 ^ 63 - 1))

/-- `TEXT_UTILS_StringToInteger`. C leaves open what `sscanf` stores of a number that an
`int` does not hold; the library of the platform stores its low word. -/
def stringToInteger (str : Str) : Option Int :=
  let s := scanNumeral str
  if s.digits = [] then none
  else
    let n : Int := natValue s.digits
    some (toInt (toUnsigned (clampIntmax (if s.negative then -n else n))))

/-- The ways in which `reporting_interval` of a profile gets its value. -/
inductive Loading where
  | boot
  | runTime
  deriving DecidableEq, Repr

/-- What a way of loading keeps of a text: `DM_ACCESS_GetInteger` has a buffer of
`MAX_DM_SHORT_VALUE_LEN`. -/
def Loading.kept : Loading → Str → Str
  | .boot, str => str.take (maxDmShortValueLen - 1)
  | .runTime, str => str

/-- `reporting_interval`, loaded by `ProcessBulkDataProfileAdded` or taken from the union
of values by `NotifyChange_BulkDataReportingInterval`. -/
def reportingInterval (l : Loading) (str : Str) : Option Int :=
  match l with
  | .boot => stringToInteger (l.kept str)
  | .runTime => (stringToUnsigned str).map fun n => toInt n

theorem isSpace_of_isDigit {c : Char} (h : c.isDigit = true) : isSpace c = false := by
  simp only [Char.isDigit, Bool.and_eq_true, decide_eq_true_eq] at h
  have hle : 48 ≤ c.toNat := h.1
  have hne : c ≠ ' ' := by
    rintro rfl
    exact absurd hle (by decide)
  simp only [isSpace, hne, decide_false, Bool.false_or, Bool.and_eq_false_iff, decide_eq_false_iff_not]
  omega

/-- A text of white space, an optional sign `+` and digits. -/
structure Splits (str ws sign ds : Str) : Prop where
  text : str = ws ++ (sign ++ ds)
  spaces : ∀ c ∈ ws, isSpace c = true
  sign : sign = [] ∨ sign = ['+']
  digits : ∀ c ∈ ds, c.isDigit = true

theorem takeWhile_digits (h : ∀ c ∈ ds, c.isDigit = true) : ds.takeWhile Char.isDigit = ds := by
  rw [takeWhile_eq_self_iff]
  exact h

theorem dropWhile_digits (h : ∀ c ∈ ds, c.isDigit = true) : ds.dropWhile Char.isDigit = [] := by
  rw [dropWhile_eq_nil_iff]
  exact h

theorem scanNumeral_of_splits {ws sign : Str} (h : Splits str ws sign ds) :
    scanNumeral str = ⟨false, ds, []⟩ := by
  have hskip : str.dropWhile isSpace = sign ++ ds := by
    rw [h.text, dropWhile_append_of_pos h.spaces]
    rcases h.sign with hsign | hsign
    · rw [hsign]
      cases ds with
      | nil => rfl
      | cons c ds =>
        exact dropWhile_cons_of_neg (by simp [isSpace_of_isDigit (h.digits c mem_cons_self)])
    · rw [hsign]
      exact dropWhile_cons_of_neg (by decide)
  rw [scanNumeral, hskip]
  rcases h.sign with hsign | hsign
  · rw [hsign]
    cases ds with
    | nil => rfl
    | cons c ds =>
      have hc := h.digits c mem_cons_self
      have hminus : c ≠ '-' := by
        rintro rfl
        exact absurd hc (by decide)
      have hplus : c ≠ '+' := by
        rintro rfl
        exact absurd hc (by decide)
      rw [nil_append]
      split
      · rename_i heq
        exact absurd (List.cons.inj heq).1 hminus
      · rename_i heq
        exact absurd (List.cons.inj heq).1 hplus
      · rw [takeWhile_digits h.digits, dropWhile_digits h.digits]
  · rw [hsign, cons_append, nil_append]
    simp only [takeWhile_digits h.digits, dropWhile_digits h.digits]

/-- What is read before the rest splits in this way. -/
theorem scanNumeral_splits (hminus : '-' ∉ str) :
    ∃ ws sign, Splits (ws ++ (sign ++ (scanNumeral str).digits)) ws sign (scanNumeral str).digits ∧
      str = ws ++ (sign ++ ((scanNumeral str).digits ++ (scanNumeral str).rest)) := by
  have hspaces : ∀ c ∈ str.takeWhile isSpace, isSpace c = true := fun c => mem_takeWhile_imp
  have hwhole : str = str.takeWhile isSpace ++ str.dropWhile isSpace :=
    List.takeWhile_append_dropWhile.symm
  unfold scanNumeral
  split
  · rename_i s heq
    exact absurd (heq ▸ mem_cons_self) fun hmem =>
      hminus ((dropWhile_suffix isSpace).subset hmem)
  · rename_i s heq
    refine ⟨str.takeWhile isSpace, ['+'], ⟨rfl, hspaces, .inr rfl, fun c => mem_takeWhile_imp⟩, ?_⟩
    rw [takeWhile_append_dropWhile, singleton_append, ← heq]
    exact hwhole
  · refine ⟨str.takeWhile isSpace, [], ⟨rfl, hspaces, .inl rfl, fun c => mem_takeWhile_imp⟩, ?_⟩
    rw [takeWhile_append_dropWhile, nil_append]
    exact hwhole

theorem splits_of_validate {v : Nat} (h : validateBulkDataReportingInterval str = some v) :
    ∃ ws sign ds, Splits str ws sign ds ∧ natValue ds = v ∧ 1 ≤ v ∧ v < 2 ^ 32 := by
  obtain ⟨hread, hfilter⟩ := filter_eq_some_iff.mp h
  have hrange := of_decide_eq_true hfilter
  unfold stringToUnsigned at hread
  split at hread
  · cases hread
  · rename_i hclean
    simp only [not_or, not_not] at hclean
    split at hread
    · obtain rfl := Option.some.inj hread
      obtain ⟨ws, sign, hsplits, hstr⟩ := scanNumeral_splits hclean.1
      -- without digits the number would be zero
      have hdigits : (scanNumeral str).digits ≠ [] := by
        intro hnil
        rw [hnil] at hrange
        exact absurd hrange.1 (by decide)
      have hrest : (scanNumeral str).rest = [] := by
        rw [← hclean.2, unconverted, if_neg hdigits]
      rw [hrest, append_nil] at hstr
      exact ⟨ws, sign, _, ⟨hstr, hsplits.spaces, hsplits.sign, hsplits.digits⟩, rfl, hrange⟩
    · cases hread

theorem Splits.take {ws sign : Str} (h : Splits str ws sign ds) (n : Nat) :
    Splits (str.take n) (ws.take n) (sign.take (n - ws.length))
      (ds.take (n - ws.length - sign.length)) := by
  refine ⟨?_, fun c hc => h.spaces c (mem_of_mem_take hc), ?_,
    fun c hc => h.digits c (mem_of_mem_take hc)⟩
  · rw [h.text, take_append, take_append]
  · rcases h.sign with hsign | hsign
    · left
      rw [hsign, take_nil]
    · rw [hsign]
      cases n - ws.length with
      | zero => exact .inl rfl
      | succ k => exact .inr (by rw [take_succ_cons, take_nil])

theorem natValue_take_le (ds : Str) (k : Nat) : natValue (ds.take k) ≤ natValue ds := by
  have hparts : natValue ds = Nat.ofDigitChars 10 (ds.drop k) (natValue (ds.take k)) := by
    conv_lhs => rw [← take_append_drop k ds]
    exact foldl_append
  rw [hparts]
  exact ofDigitChars_ge _ _

/-- The number that is left of the interval of a text. -/
def keptNumber (l : Loading) (str : Str) : Nat := natValue (scanNumeral (l.kept str)).digits

theorem keptNumber_le {v : Nat} (h : validateBulkDataReportingInterval str = some v) (l : Loading) :
    keptNumber l str ≤ v := by
  obtain ⟨ws, sign, ds, hsplits, rfl, -⟩ := splits_of_validate h
  cases l with
  | boot =>
    have hkept := scanNumeral_of_splits (hsplits.take (maxDmShortValueLen - 1))
    rw [keptNumber, Loading.kept, hkept]
    exact natValue_take_le _ _
  | runTime => rw [keptNumber, Loading.kept, scanNumeral_of_splits hsplits]

theorem keptNumber_runTime {v : Nat} (h : validateBulkDataReportingInterval str = some v) :
    keptNumber .runTime str = v := by
  obtain ⟨ws, sign, ds, hsplits, rfl, -⟩ := splits_of_validate h
  rw [keptNumber, Loading.kept, scanNumeral_of_splits hsplits]

theorem clampIntmax_small {n : Nat} (h : n < 2 ^ 32) : clampIntmax n = n := by
  simp only [clampIntmax]
  omega

theorem toUnsigned_natCast {n : Nat} (h : n < 2 ^ 32) : toUnsigned n = n := by
  simp only [toUnsigned]
  omega

/-- The `int` of the profile is the kept number in 32 bits, if any digit is kept. -/
theorem reportingInterval_eq {v : Nat} (h : validateBulkDataReportingInterval str = some v)
    (l : Loading) :
    reportingInterval l str = some (toInt (keptNumber l str)) ∨
      (reportingInterval l str = none ∧ keptNumber l str = 0) := by
  obtain ⟨ws, sign, ds, hsplits, hv, hrange⟩ := splits_of_validate h
  have hle := keptNumber_le h l
  cases l with
  | runTime =>
    left
    rw [keptNumber_runTime h, reportingInterval, (filter_eq_some_iff.mp h).1, map_some]
  | boot =>
    have hkept := scanNumeral_of_splits (hsplits.take (maxDmShortValueLen - 1))
    simp only [keptNumber, Loading.kept, hkept] at hle ⊢
    simp only [reportingInterval, stringToInteger, Loading.kept, hkept]
    split
    · rename_i hnil
      rw [hnil]
      exact .inr ⟨rfl, rfl⟩
    · left
      rw [if_neg Bool.false_ne_true, clampIntmax_small (by omega), toUnsigned_natCast (by omega)]

/-- The interval of a text that the validator admits, in force after a way of loading, gives
a wait on the schedule. -/
def WaitsOnSchedule (w : Nat) (l : Loading) (str : Str) (v : Nat) (cur ref : Int) : Prop :=
  ∃ i wait, reportingInterval l str = some i ∧ startWait w i cur ref = some wait ∧
    OnSchedule v cur ref wait

theorem waitsOnSchedule_iff {w : Nat} (hw : 32 ≤ w) (l : Loading) {str : Str} {v : Nat}
    (h : validateBulkDataReportingInterval str = some v) (cur ref : Int) :
    WaitsOnSchedule w l str v cur ref ↔ KeepsSchedule w (keptNumber l str) v cur ref := by
  obtain ⟨-, -, -, -, -, -, hlt⟩ := splits_of_validate h
  rw [← onSchedule_iff hw (keptNumber_le h l) hlt]
  rcases reportingInterval_eq h l with hint | ⟨hnone, hzero⟩
  · simp only [WaitsOnSchedule, hint, Option.some.injEq]
    exact ⟨fun ⟨_, wait, rfl, hwait⟩ => ⟨wait, hwait⟩, fun ⟨wait, hwait⟩ => ⟨_, wait, rfl, hwait⟩⟩
  · simp [WaitsOnSchedule, hnone, hzero, startWait, calcWaittime, toInt_small]

instance (w u v : Nat) (cur ref : Int) : Decidable (KeepsSchedule w u v cur ref) := by
  unfold KeepsSchedule
  infer_instance

theorem waitsOnSchedule_five_minutes :
    WaitsOnSchedule 32 .boot ['3', '0', '0'] 300 1700000000 1700000123 ∧
      WaitsOnSchedule 32 .runTime ['3', '0', '0'] 300 1700000000 1700000123 :=
  ⟨(waitsOnSchedule_iff (by decide) .boot (by decide) 1700000000 1700000123).mpr (by decide),
    (waitsOnSchedule_iff (by decide) .runTime (by decide) 1700000000 1700000123).mpr (by decide)⟩

/-- `3000000000`. -/
def threeBillion : Str := ['3', '0', '0', '0', '0', '0', '0', '0', '0', '0']

/-- With the epoch as the time reference, the timer is set to a time long ago. -/
theorem large_interval_waits_backwards :
    validateBulkDataReportingInterval threeBillion = some 3000000000 ∧
      (∀ l, reportingInterval l threeBillion = some (-1294967296)) ∧
      startWait 32 (-1294967296) 1700000000 0 = some (-1700000000) ∧
      ∀ l, ¬WaitsOnSchedule 32 l threeBillion 3000000000 1700000000 0 := by
  have hint : ∀ l, reportingInterval l threeBillion = some (-1294967296) := by
    intro l
    cases l <;> decide
  have hwait : startWait 32 (-1294967296) 1700000000 0 = some (-1700000000) := by decide
  refine ⟨by decide, hint, hwait, ?_⟩
  rintro l ⟨i, wait, hi, hw, hon⟩
  obtain rfl : i = -1294967296 := Option.some.inj (hi.symm.trans (hint l))
  obtain rfl : wait = -1700000000 := Option.some.inj (hw.symm.trans hwait)
  exact absurd hon.1 (by decide)

end ReportingInterval
