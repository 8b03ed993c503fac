import Mathlib.Algebra.Order.Floor.Semiring
import Mathlib.Data.Rat.Floor
import Mathlib.Tactic.NormNum
import Mathlib.Tactic.Positivity
import SdtTr369.PeriodicNotif

/-!
# Retry wait times

`RETRY_WAIT_Calculate` chooses a number between two powers of the interval multiplier. The
arithmetic of `double` is read over the rationals; a conversion to `unsigned` of a number
that no `unsigned` holds has no value.
-/

namespace RetryWait

open UspTypes BulkData PeriodicNotif Option

/-! ## The code -/

/-- `Validate_ControllerRetryMinimumWaitInterval`. -/
def validateControllerRetryMinimumWaitInterval (valUint : Nat) : Except Err Unit :=
  validateRangeUnsigned 1 65535 valUint

/-- `Validate_ControllerRetryIntervalMultiplier`. -/
def validateControllerRetryIntervalMultiplier (valUint : Nat) : Except Err Unit :=
  validateRangeUnsigned 1000 65535 valUint

/-- The conversion of a `double` to an `unsigned`. -/
def truncated (x : ℚ) : Option Nat := if -1 < x ∧ x < 2 ^ 32 then some ⌊x⌋₊ else none

/-- `retry_count` after its two corrections. -/
def limited (retryCount : Nat) : Nat :=
  let retryCount := if retryCount > 10 then 10 else retryCount
  if retryCount ≤ 0 then 1 else retryCount

/-- `RETRY_WAIT_Calculate`, with the number that `rand_r` gives. -/
def retryWaitCalculate (retryCount : Nat) (m k : ℚ) (randomValue : Int) : Option Nat := do
  let minSeconds ← truncated (m * (k / 1000) ^ (limited retryCount - 1))
  let maxSeconds ← truncated (m * (k / 1000) ^ limited retryCount)
  let maxSeconds := if maxSeconds < minSeconds then minSeconds else maxSeconds
  let range := maxSeconds - minSeconds
  some (if range > 0 then minSeconds + toUnsigned randomValue % range else minSeconds)

/-! ## What is asked of it -/

/-- A wait between the two powers, rounded down. -/
structure WaitRight (c m k wait : Nat) : Prop where
  above : ⌊(m : ℚ) * (k / 1000) ^ (c - 1)⌋₊ ≤ wait
  below : wait ≤ ⌊(m : ℚ) * (k / 1000) ^ c⌋₊
  positive : 0 < wait

section Waits

variable {retryCount m k : Nat}

theorem validateRange_iff {minValue maxValue valUint : Nat} :
    validateRangeUnsigned minValue maxValue valUint = .ok () ↔
      minValue ≤ valUint ∧ valUint ≤ maxValue := by
  rw [validateRangeUnsigned]
  split
  · simp only [reduceCtorEq, false_iff]
    omega
  · simp only [true_iff]
    omega

theorem limited_eq (h : 1 ≤ retryCount) : limited retryCount = min retryCount 10 := by
  simp only [limited]
  split <;> split <;> omega

theorem truncated_eq {x : ℚ} (hx : 0 ≤ x) (hlt : x < 2 ^ 32) : truncated x = some ⌊x⌋₊ :=
  if_pos ⟨by linarith, hlt⟩

theorem truncated_eq_none {x : ℚ} (hge : 2 ^ 32 ≤ x) : truncated x = none :=
  if_neg fun h => absurd h.2 (by linarith)

/-- The bound on the larger power, without fractions. -/
theorem power_lt_iff (c : Nat) :
    (m : ℚ) * (k / 1000) ^ c < 2 ^ 32 ↔ m * k ^ c < 2 ^ 32 * 1000 ^ c := by
  have hpos : (0 : ℚ) < 1000 ^ c := by positivity
  rw [div_pow, ← mul_div_assoc, div_lt_iff₀ hpos]
  exact_mod_cast Iff.rfl

/-- With a multiplier from 1000 on the waits grow. -/
theorem power_mono (hk : 1000 ≤ k) {b c : Nat} (hbc : b ≤ c) :
    (m : ℚ) * (k / 1000) ^ b ≤ m * (k / 1000) ^ c := by
  have hone : (1 : ℚ) ≤ k / 1000 := by
    rw [le_div_iff₀ (by norm_num), one_mul]
    exact_mod_cast hk
  exact mul_le_mul_of_nonneg_left (pow_le_pow_right₀ hone hbc) (Nat.cast_nonneg m)

/-- A number of the range from the smaller power on. -/
theorem chosen_between {lo hi : Nat} (hle : lo ≤ hi) (n : Nat) :
    lo ≤ (if hi - lo > 0 then lo + n % (hi - lo) else lo) ∧
      (if hi - lo > 0 then lo + n % (hi - lo) else lo) ≤ hi := by
  split
  · have := Nat.mod_lt n (by omega : 0 < hi - lo)
    omega
  · omega

theorem retryWaitCalculate_eq (hk : 1000 ≤ k) (h : 1 ≤ retryCount)
    (hlt : (m : ℚ) * (k / 1000) ^ min retryCount 10 < 2 ^ 32) (randomValue : Int) :
    retryWaitCalculate retryCount m k randomValue =
      let lo := ⌊(m : ℚ) * (k / 1000) ^ (min retryCount 10 - 1)⌋₊
      let hi := ⌊(m : ℚ) * (k / 1000) ^ min retryCount 10⌋₊
      some (if hi - lo > 0 then lo + toUnsigned randomValue % (hi - lo) else lo) := by
  have hmono := power_mono (m := m) hk (Nat.sub_le (min retryCount 10) 1)
  have hfloor := Nat.floor_le_floor hmono
  simp only [retryWaitCalculate, limited_eq h, truncated_eq (by positivity) hlt,
    truncated_eq (by positivity) (lt_of_le_of_lt hmono hlt), bind_eq_bind, bind_some,
    if_neg (Nat.not_lt.mpr hfloor)]

end Waits

theorem retryWait_right_iff {retryCount m k : Nat} (hcount : 1 ≤ retryCount)
    (hm : validateControllerRetryMinimumWaitInterval m = .ok ())
    (hk : validateControllerRetryIntervalMultiplier k = .ok ()) :
    (∀ randomValue, ∃ wait, retryWaitCalculate retryCount m k randomValue = some wait ∧
      WaitRight (min retryCount 10) m k wait) ↔
      m * k ^ min retryCount 10 < 2 ^ 32 * 1000 ^ min retryCount 10 := by
  obtain ⟨hm, -⟩ := validateRange_iff.mp hm
  obtain ⟨hk, -⟩ := validateRange_iff.mp hk
  rw [← power_lt_iff]
  constructor
  · intro h
    by_contra hge
    obtain ⟨wait, hwait, -⟩ := h 0
    have hnone := truncated_eq_none (le_of_not_gt hge)
    simp only [retryWaitCalculate, limited_eq hcount, hnone, bind_eq_bind,
      Option.bind_none, bind_fun_none, reduceCtorEq] at hwait
  · intro hlt randomValue
    have hmono := power_mono (m := m) hk (Nat.sub_le (min retryCount 10) 1)
    have hone : 1 ≤ ⌊(m : ℚ) * (k / 1000) ^ (min retryCount 10 - 1)⌋₊ := by
      have hstart := power_mono (m := m) hk (Nat.zero_le (min retryCount 10 - 1))
      rw [pow_zero, mul_one] at hstart
      exact Nat.le_floor (le_trans (by exact_mod_cast hm) hstart)
    obtain ⟨habove, hbelow⟩ :=
      chosen_between (Nat.floor_le_floor hmono) (toUnsigned randomValue)
    exact ⟨_, retryWaitCalculate_eq hk hcount hlt randomValue, habove, hbelow, by omega⟩

/-- The usual interval and multiplier, at the cap of the retry count. -/
theorem retryWait_right_usual :
    ∃ wait, retryWaitCalculate 12 (5 : Nat) (2000 : Nat) 41 = some wait ∧
      WaitRight 10 5 2000 wait :=
  (retryWait_right_iff (by decide) rfl rfl).mpr (by decide) 41

/-- The largest multiplier, at the sixth attempt. -/
theorem large_multiplier_overflows :
    validateControllerRetryMinimumWaitInterval 5 = .ok () ∧
      validateControllerRetryIntervalMultiplier 65535 = .ok () ∧
      ∀ randomValue, retryWaitCalculate 6 (5 : Nat) (65535 : Nat) randomValue = none := by
  refine ⟨rfl, rfl, fun randomValue => ?_⟩
  have hmax : truncated ((5 : Nat) * ((65535 : Nat) / 1000) ^ 6) = none :=
    truncated_eq_none (by norm_num)
  have hlimited : limited 6 = 6 := rfl
  simp only [retryWaitCalculate, hlimited, hmax, bind_eq_bind, Option.bind_none,
    bind_fun_none]

end RetryWait
