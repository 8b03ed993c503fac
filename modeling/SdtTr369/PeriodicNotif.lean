import SdtTr369.ReportingInterval

/-!
# Periodic notifications

`CalcNextPeriodicTime` gets the interval of a controller through an `int`, and its times
are numbers of a `time_t` of `w` bits. A step that leaves the range of `time_t` has no
value in C, nor has it here.
-/

namespace PeriodicNotif

open UspTypes BulkData ReportingInterval Option

/-! ## The code -/

/-- `DM_ACCESS_ValidateRange_Unsigned`. -/
def validateRangeUnsigned (minValue maxValue valUint : Nat) : Except Err Unit :=
  if valUint < minValue ∨ valUint > maxValue then .error .invalidValue else .ok ()

/-- `Validate_PeriodicNotifInterval`. -/
def validatePeriodicNotifInterval (valUint : Nat) : Except Err Unit :=
  validateRangeUnsigned 1 (2 ^ 32 - 1) valUint

/-- A number that a `time_t` of `w` bits holds. -/
def IsTime (w : Nat) (n : Int) : Prop := -half w ≤ n ∧ n < half w

instance (w : Nat) (n : Int) : Decidable (IsTime w n) := inferInstanceAs (Decidable (_ ∧ _))

/-- A number computed in a `time_t`. -/
def timeT (w : Nat) (n : Int) : Option Int := if IsTime w n then some n else none

/-- `%`, which has a value where the quotient has one. -/
def remainder (w : Nat) (n m : Int) : Option Int :=
  if m = 0 then none else (timeT w (n.tdiv m)).map fun _ => n.tmod m

/-- `CalcNextPeriodicTime`. -/
def calcNextPeriodicTime (w : Nat) (curTime periodicBase periodicInterval : Int) : Option Int := do
  let diff ←
    if periodicBase ≤ curTime then do
      let offset ← remainder w (← timeT w (curTime - periodicBase)) periodicInterval
      timeT w (periodicInterval - offset)
    else remainder w (← timeT w (periodicBase - curTime)) periodicInterval
  timeT w (curTime + if diff = 0 then periodicInterval else diff)

/-! ## What is asked of it -/

/-- A time after now, at most one interval away, on the grid of the base time. -/
structure NextOnGrid (interval : Nat) (curTime periodicBase next : Int) : Prop where
  after : curTime < next
  soon : next ≤ curTime + interval
  onGrid : (interval : Int) ∣ next - periodicBase

/-- The interval is not taken for a negative number and the time after now on the grid is a
`time_t`. With the base time ahead, an interval from 2^31 on can still do: the two
remainders agree. -/
def KeepsPeriod (w interval : Nat) (curTime periodicBase : Int) : Prop :=
  if periodicBase ≤ curTime then
    let d := curTime - periodicBase
    interval < 2 ^ 31 ∧ d < half w ∧ periodicBase + interval * (d / interval + 1) < half w
  else
    let d := periodicBase - curTime
    d < half w ∧
      (interval < 2 ^ 31 ∨ 0 < d % (2 ^ 32 - interval) ∧ d % (2 ^ 32 - interval) = d % interval)

/-! ## The two branches -/

section Branches

variable {w : Nat} {cur base p : Int}

theorem validated_iff {valUint : Nat} :
    validatePeriodicNotifInterval valUint = .ok () ↔ 1 ≤ valUint ∧ valUint < 2 ^ 32 := by
  rw [validatePeriodicNotifInterval, validateRangeUnsigned]
  split
  · simp only [reduceCtorEq, false_iff]
    omega
  · simp only [true_iff]
    omega

theorem timeT_eq {n : Int} (h : IsTime w n) : timeT w n = some n := if_pos h

theorem timeT_eq_some {n next : Int} : timeT w n = some next ↔ IsTime w n ∧ n = next := by
  simp [timeT]

theorem remainder_eq {n : Int} (hn : 0 ≤ n) (htime : IsTime w n) (hp : p ≠ 0) :
    remainder w n p = some (n.tmod p) := by
  have habs := Int.natAbs_tdiv_le_natAbs n p
  have hquot : IsTime w (n.tdiv p) := by
    obtain ⟨hle, hlt⟩ := htime
    exact ⟨by omega, by omega⟩
  rw [remainder, if_neg hp, timeT_eq hquot, map_some]

/-- The base time is not after now. -/
theorem calc_after (hle : base ≤ cur) (htime : IsTime w (cur - base)) (hp : p ≠ 0) :
    calcNextPeriodicTime w cur base p = (timeT w (p - (cur - base).tmod p)).bind fun diff =>
      timeT w (cur + if diff = 0 then p else diff) := by
  simp only [calcNextPeriodicTime, if_pos hle, timeT_eq htime, bind_eq_bind,
    bind_some, remainder_eq (Int.sub_nonneg_of_le hle) htime hp]

/-- The base time is after now. -/
theorem calc_before (hlt : cur < base) (htime : IsTime w (base - cur)) (hp : p ≠ 0) :
    calcNextPeriodicTime w cur base p =
      timeT w (cur + if (base - cur).tmod p = 0 then p else (base - cur).tmod p) := by
  simp only [calcNextPeriodicTime, if_neg (Int.not_le.mpr hlt), timeT_eq htime,
    bind_eq_bind, bind_some, remainder_eq (by omega) htime hp]

/-- A difference that no `time_t` holds. -/
theorem calc_far (hfar : if base ≤ cur then ¬ IsTime w (cur - base) else ¬ IsTime w (base - cur)) :
    calcNextPeriodicTime w cur base p = none := by
  split at hfar
  · rename_i hle
    simp [calcNextPeriodicTime, hle, timeT, hfar]
  · rename_i hlt
    simp [calcNextPeriodicTime, hlt, timeT, hfar]

end Branches

/-! ## The condition -/

section Condition

variable {w u : Nat} {cur base : Int}

theorem nextOnGrid_iff {next : Int} (hafter : cur < next) (hsoon : next ≤ cur + u) :
    NextOnGrid u cur base next ↔ (u : Int) ∣ next - base :=
  ⟨fun h => h.onGrid, fun h => ⟨hafter, hsoon, h⟩⟩

theorem timeT_next {n : Int} (hn : -half w ≤ n) :
    (∃ next, timeT w n = some next ∧ NextOnGrid u cur base next) ↔
      n < half w ∧ NextOnGrid u cur base n := by
  simp only [timeT_eq_some, IsTime, hn, true_and]
  constructor
  · rintro ⟨_, ⟨hlt, rfl⟩, hgrid⟩
    exact ⟨hlt, hgrid⟩
  · rintro ⟨hlt, hgrid⟩
    exact ⟨n, ⟨hlt, rfl⟩, hgrid⟩

theorem emod_le_self {d m : Int} (hd : 0 ≤ d) (hm : 0 < m) : d % m ≤ d := by
  have hdiv := Int.mul_ediv_add_emod d m
  have hquot := Int.mul_nonneg (Int.le_of_lt hm) (Int.ediv_nonneg hd (Int.le_of_lt hm))
  omega

/-- The interval is a positive `int`, the base time is not after now. -/
theorem next_after (hw : 32 ≤ w) (hpos : 0 < u) (hu : u < 2 ^ 31) (hcur : IsTime w cur)
    (hle : base ≤ cur) (hd : cur - base < half w) :
    (∃ next, calcNextPeriodicTime w cur base u = some next ∧ NextOnGrid u cur base next) ↔
      base + u * ((cur - base) / u + 1) < half w := by
  obtain ⟨hcur, -⟩ := hcur
  have hhalf := half_ge hw
  have hdiv := Int.mul_ediv_add_emod (cur - base) u
  have hnonneg := Int.emod_nonneg (cur - base) (b := u) (by omega)
  have hlt := Int.emod_lt_of_pos (cur - base) (b := u) (by omega)
  have hdiff : IsTime w (u - (cur - base) % u) := ⟨by omega, by omega⟩
  have hend : base + u * ((cur - base) / u + 1) = cur + (u - (cur - base) % u) := by
    rw [Int.mul_add, Int.mul_one]
    omega
  have hgrid : NextOnGrid u cur base (cur + (u - (cur - base) % u)) := by
    refine ⟨by omega, by omega, ?_⟩
    rw [← hend, Int.add_comm, Int.add_sub_cancel]
    exact Int.dvd_mul_right ..
  rw [calc_after hle ⟨by omega, hd⟩ (by omega), Int.tmod_eq_emod_of_nonneg (by omega),
    timeT_eq hdiff, bind_some, if_neg (by omega), timeT_next (by omega), hend]
  exact and_iff_left hgrid

/-- The interval is a positive `int`, the base time is after now. -/
theorem next_before (hpos : 0 < u) (hcur : IsTime w cur) (hbase : IsTime w base)
    (hlt : cur < base) (hd : base - cur < half w) :
    ∃ next, calcNextPeriodicTime w cur base u = some next ∧ NextOnGrid u cur base next := by
  obtain ⟨hcur, -⟩ := hcur
  obtain ⟨-, hbase⟩ := hbase
  have hdiv := Int.mul_ediv_add_emod (base - cur) u
  have hnonneg := Int.emod_nonneg (base - cur) (b := u) (by omega)
  have hmod := Int.emod_lt_of_pos (base - cur) (b := u) (by omega)
  have hself := emod_le_self (d := base - cur) (m := u) (by omega) (by omega)
  rw [calc_before hlt ⟨by omega, hd⟩ (by omega), Int.tmod_eq_emod_of_nonneg (by omega)]
  by_cases hzero : (base - cur) % u = 0
  · -- the base time is a whole number of intervals ahead
    have hge : (u : Int) ≤ base - cur :=
      Int.le_of_dvd (by omega) (Int.dvd_of_emod_eq_zero hzero)
    rw [if_pos hzero, timeT_next (by omega)]
    refine ⟨by omega, by omega, by omega, ?_⟩
    have hsub : cur + u - base = u - (base - cur) := by omega
    rw [hsub]
    exact Int.dvd_sub (Int.dvd_refl _) (Int.dvd_of_emod_eq_zero hzero)
  · rw [if_neg hzero, timeT_next (by omega)]
    refine ⟨by omega, by omega, by omega, ?_⟩
    have hsub : cur + (base - cur) % u - base = -(u * ((base - cur) / u)) := by omega
    rw [hsub]
    exact Int.dvd_neg.mpr (Int.dvd_mul_right ..)

/-- The interval is taken for a negative number, the base time is not after now. -/
theorem negative_after (hu : ¬u < 2 ^ 31) (hv : u < 2 ^ 32) (hle : base ≤ cur) :
    ¬∃ next, calcNextPeriodicTime w cur base (toInt u) = some next ∧
      NextOnGrid u cur base next := by
  rintro ⟨next, hcalc, hgrid⟩
  by_cases htime : IsTime w (cur - base)
  · have hnonneg := Int.tmod_nonneg (toInt u) (a := cur - base) (by omega)
    rw [toInt_large hu] at hcalc hnonneg
    rw [calc_after hle htime (by omega), bind_eq_some_iff] at hcalc
    obtain ⟨diff, hdiff, hnext⟩ := hcalc
    obtain ⟨-, rfl⟩ := timeT_eq_some.mp hdiff
    obtain ⟨-, rfl⟩ := timeT_eq_some.mp hnext
    have hafter := hgrid.after
    rw [if_neg (by omega)] at hafter
    omega
  · rw [calc_far (by rwa [if_pos hle])] at hcalc
    cases hcalc

/-- The interval is taken for a negative number, the base time is after now. -/
theorem negative_before (hu : ¬u < 2 ^ 31) (hv : u < 2 ^ 32) (hcur : IsTime w cur)
    (hbase : IsTime w base) (hlt : cur < base) (hd : base - cur < half w) :
    (∃ next, calcNextPeriodicTime w cur base (toInt u) = some next ∧
      NextOnGrid u cur base next) ↔ 0 < (base - cur) % (2 ^ 32 - u) ∧
        (base - cur) % (2 ^ 32 - u) = (base - cur) % u := by
  obtain ⟨hcur, -⟩ := hcur
  obtain ⟨-, hbase⟩ := hbase
  have hnonneg := Int.emod_nonneg (base - cur) (b := 2 ^ 32 - u) (by omega)
  have hmod := Int.emod_lt_of_pos (base - cur) (b := 2 ^ 32 - u) (by omega)
  have hself := emod_le_self (d := base - cur) (m := 2 ^ 32 - u) (by omega) (by omega)
  rw [toInt_large hu, calc_before hlt ⟨by omega, hd⟩ (by omega), Int.tmod_neg,
    Int.tmod_eq_emod_of_nonneg (by omega)]
  by_cases hzero : (base - cur) % (2 ^ 32 - u) = 0
  · rw [if_pos hzero, hzero]
    simp only [Int.lt_irrefl, false_and, iff_false]
    rintro ⟨next, hnext, hgrid⟩
    obtain ⟨-, rfl⟩ := timeT_eq_some.mp hnext
    have hafter := hgrid.after
    omega
  · rw [if_neg hzero, timeT_next (by omega), nextOnGrid_iff (by omega) (by omega)]
    -- the two remainders agree when the end of the wait is on the grid
    have hsub : cur + (base - cur) % (2 ^ 32 - u) - base =
        (base - cur) % (2 ^ 32 - u) - (base - cur) := by omega
    have hsmall : (base - cur) % (2 ^ 32 - u) % u = (base - cur) % (2 ^ 32 - u) :=
      Int.emod_eq_of_lt hnonneg (by omega)
    rw [hsub, Int.dvd_iff_emod_eq_zero, ← Int.emod_eq_emod_iff_emod_sub_eq_zero, hsmall]
    omega

end Condition

theorem nextPeriodicTime_iff {w u : Nat} (hw : 32 ≤ w)
    (hu : validatePeriodicNotifInterval u = .ok ()) {cur base : Int} (hcur : IsTime w cur)
    (hbase : IsTime w base) :
    (∃ next, calcNextPeriodicTime w cur base (toInt u) = some next ∧
      NextOnGrid u cur base next) ↔ KeepsPeriod w u cur base := by
  obtain ⟨hpos, hv⟩ := validated_iff.mp hu
  have hhalf := half_ge hw
  simp only [KeepsPeriod]
  by_cases hle : base ≤ cur
  · rw [if_pos hle]
    by_cases hsmall : u < 2 ^ 31
    · by_cases hd : cur - base < half w
      · rw [toInt_small hsmall, next_after hw hpos hsmall hcur hle hd]
        simp only [hsmall, hd, true_and]
      · rw [calc_far (by rw [if_pos hle]; exact fun h => hd h.2)]
        simp [hd]
    · simp only [hsmall, false_and, iff_false]
      exact negative_after hsmall hv hle
  · rw [if_neg hle]
    by_cases hd : base - cur < half w
    · by_cases hsmall : u < 2 ^ 31
      · rw [toInt_small hsmall]
        simp only [hd, hsmall, true_or, and_self, iff_true]
        exact next_before hpos hcur hbase (by omega) hd
      · rw [negative_before hsmall hv hcur hbase (by omega) hd]
        simp only [hd, hsmall, false_or, true_and]
    · rw [calc_far (by rw [if_neg hle]; exact fun h => hd h.2)]
      simp [hd]

/-- A daily notification. -/
theorem nextPeriodicTime_daily :
    ∃ next, calcNextPeriodicTime 32 1700000000 0 (toInt 86400) = some next ∧
      NextOnGrid 86400 1700000000 0 next :=
  (nextPeriodicTime_iff (u := 86400) (by decide) rfl (by decide) (by decide)).mpr
    (by unfold KeepsPeriod; decide)

/-- The next time of a long interval is a time of the past. -/
theorem long_interval_ends_before_now :
    validatePeriodicNotifInterval 3000000000 = .ok () ∧
      calcNextPeriodicTime 32 1700000000 0 (toInt 3000000000) = some 0 ∧
      calcNextPeriodicTime 64 1700000000 0 (toInt 3000000000) = some 0 ∧
      ¬NextOnGrid 3000000000 1700000000 0 0 :=
  ⟨rfl, by decide, by decide, fun h => absurd h.after (by decide)⟩

end PeriodicNotif
