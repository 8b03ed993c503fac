import Mathlib.Data.List.GetD
import SdtTr369.Numerals

/-!
# Dates and times of day

Broken-down times in UTC from 1970 on, counted in seconds and back, printed as
`YYYY-MM-DDThh:mm:ssZ`, and read as `strptime` reads them: a number may have fewer digits than it
has places, and what is behind the seconds is left over.
-/

namespace DateTimes

open DecimalText Numerals List Option

abbrev Text := List Char

/-- `struct tm`, with the year itself and months from 1 on. -/
structure Tm where
  year : Nat
  month : Nat
  day : Nat
  hour : Nat
  minute : Nat
  second : Nat
  deriving DecidableEq, Repr

def isLeap (y : Nat) : Bool := y % 4 = 0 && (y % 100 ≠ 0 || y % 400 = 0)

def yearLength (y : Nat) : Nat := if isLeap y then 366 else 365

def monthLengths (y : Nat) : List Nat :=
  [31, if isLeap y then 29 else 28, 31, 30, 31, 30, 31, 31, 30, 31, 30, 31]

/-- The days of `n` years from `y` on. -/
def daysOver : Nat → Nat → Nat
  | _, 0 => 0
  | y, n + 1 => yearLength y + daysOver (y + 1) n

def epoch : Nat := 1970

/-- The days from the epoch. A day behind the last one of its month is one of the next month. -/
def days (t : Tm) : Nat :=
  daysOver epoch (t.year - epoch) + (((monthLengths t.year).take (t.month - 1)).sum + (t.day - 1))

/-- `timegm`, for years from the epoch on. -/
def timegm (t : Tm) : Nat := ((days t * 24 + t.hour) * 60 + t.minute) * 60 + t.second

/-- The year of a day, and the day in it. The fuel is a number of years that is large enough. -/
def splitYears : Nat → Nat → Nat → Nat × Nat
  | 0, d, y => (y, d)
  | fuel + 1, d, y => if d < yearLength y then (y, d) else splitYears fuel (d - yearLength y) (y + 1)

def splitMonths : List Nat → Nat → Nat → Nat × Nat
  | [], d, m => (m, d)
  | len :: lens, d, m => if d < len then (m, d) else splitMonths lens (d - len) (m + 1)

/-- `gmtime_r` -/
def gmtime (v : Nat) : Tm :=
  let d := v / 86400
  let y := splitYears d d epoch
  let m := splitMonths (monthLengths y.1) y.2 1
  ⟨y.1, m.1, m.2 + 1, v / 3600 % 24, v / 60 % 60, v % 60⟩

/-- A time of the calendar. -/
structure Valid (t : Tm) : Prop where
  year : epoch ≤ t.year
  month : 1 ≤ t.month ∧ t.month ≤ 12
  day : 1 ≤ t.day ∧ t.day ≤ (monthLengths t.year).getD (t.month - 1) 0
  hour : t.hour < 24
  minute : t.minute < 60
  second : t.second < 60

/-! ## Seconds -/

theorem daysOver_ge (y n : Nat) : n ≤ daysOver y n := by
  induction n generalizing y with
  | zero => exact Nat.zero_le _
  | succ n ih =>
    have hrest := ih (y + 1)
    have hyear : 1 ≤ yearLength y := by rw [yearLength]; split <;> omega
    rw [daysOver]
    omega

theorem splitYears_daysOver {fuel n r y : Nat} (hfuel : n ≤ fuel) (hr : r < yearLength (y + n)) :
    splitYears fuel (daysOver y n + r) y = (y + n, r) := by
  induction n generalizing fuel y with
  | zero =>
    rw [Nat.add_zero] at hr ⊢
    rw [daysOver, Nat.zero_add]
    cases fuel with
    | zero => rfl
    | succ fuel => rw [splitYears, if_pos hr]
  | succ n ih =>
    cases fuel with
    | zero => omega
    | succ fuel =>
      have hnext : y + 1 + n = y + (n + 1) := by omega
      have hdays : daysOver y (n + 1) + r - yearLength y = daysOver (y + 1) n + r := by
        rw [daysOver]
        omega
      have hge : ¬ daysOver y (n + 1) + r < yearLength y := by
        rw [daysOver]
        omega
      rw [splitYears, if_neg hge, hdays, ih (by omega) (by rwa [hnext]), hnext]

theorem splitMonths_sum (front back : List Nat) {len r : Nat} (m : Nat) (hr : r < len) :
    splitMonths (front ++ len :: back) (front.sum + r) m = (m + front.length, r) := by
  induction front generalizing m with
  | nil => rw [nil_append, splitMonths, sum_nil, Nat.zero_add, if_pos hr]; rfl
  | cons l front ih =>
    have hge : ¬ (l :: front).sum + r < l := by
      rw [sum_cons]
      omega
    have hrest : (l :: front).sum + r - l = front.sum + r := by
      rw [sum_cons]
      omega
    rw [cons_append, splitMonths, if_neg hge, hrest, ih, length_cons]
    congr 1
    omega

theorem monthLengths_length (y : Nat) : (monthLengths y).length = 12 := rfl

theorem monthLengths_sum (y : Nat) : (monthLengths y).sum = yearLength y := by
  rw [monthLengths, yearLength]
  split <;> rfl

/-- The days of a year in front of a month, and those of the month. -/
theorem monthLengths_split {y k : Nat} (hk : k < 12) :
    monthLengths y = (monthLengths y).take k ++ (monthLengths y).getD k 0 ::
      (monthLengths y).drop (k + 1) := by
  have hlen : k < (monthLengths y).length := hk
  rw [getD_eq_getElem _ _ hlen, getElem_cons_drop, take_append_drop]

section Calendar

variable {t : Tm}

/-- The day in its year, from 0 on. -/
def yearDay (t : Tm) : Nat := ((monthLengths t.year).take (t.month - 1)).sum + (t.day - 1)

theorem days_eq (t : Tm) : days t = daysOver epoch (t.year - epoch) + yearDay t := by
  rw [days, yearDay]

theorem yearDay_lt (h : Valid t) : yearDay t < yearLength t.year := by
  have hday := h.day
  have hmonth := h.month
  have hsplit := congrArg List.sum (monthLengths_split (y := t.year) (k := t.month - 1) (by omega))
  rw [monthLengths_sum, sum_append, sum_cons] at hsplit
  rw [yearDay]
  omega

theorem splitYears_days (h : Valid t) : splitYears (days t) (days t) epoch = (t.year, yearDay t) := by
  have hyear := h.year
  have hback : epoch + (t.year - epoch) = t.year := Nat.add_sub_cancel' hyear
  have hfuel : t.year - epoch ≤ days t := by
    rw [days_eq]
    exact Nat.le_add_right_of_le (daysOver_ge epoch (t.year - epoch))
  have hlt : yearDay t < yearLength (epoch + (t.year - epoch)) := by
    rw [hback]
    exact yearDay_lt h
  have hyears := splitYears_daysOver hfuel hlt
  rw [← days_eq, hback] at hyears
  exact hyears

theorem splitMonths_yearDay (h : Valid t) :
    splitMonths (monthLengths t.year) (yearDay t) 1 = (t.month, t.day - 1) := by
  have hday := h.day
  have hmonth := h.month
  have hsplit := monthLengths_split (y := t.year) (k := t.month - 1) (by omega)
  have hlen : ((monthLengths t.year).take (t.month - 1)).length = t.month - 1 := by
    rw [length_take, monthLengths_length]
    omega
  have hnumber : 1 + (t.month - 1) = t.month := by omega
  have hlt : t.day - 1 < (monthLengths t.year).getD (t.month - 1) 0 := by omega
  have hmonths := splitMonths_sum ((monthLengths t.year).take (t.month - 1))
    ((monthLengths t.year).drop (t.month - 1 + 1)) 1 hlt
  rw [← hsplit, hlen, hnumber] at hmonths
  exact hmonths

/-- A time of the calendar comes back from its seconds. -/
theorem gmtime_timegm (h : Valid t) : gmtime (timegm t) = t := by
  have hhour := h.hour
  have hminute := h.minute
  have hsecond := h.second
  have hday := h.day
  have hdays : timegm t / 86400 = days t := by
    rw [timegm]
    omega
  have hh : timegm t / 3600 % 24 = t.hour := by
    rw [timegm]
    omega
  have hm : timegm t / 60 % 60 = t.minute := by
    rw [timegm]
    omega
  have hs : timegm t % 60 = t.second := by
    rw [timegm]
    omega
  have hd : t.day - 1 + 1 = t.day := by omega
  rw [gmtime, hdays, splitYears_days h, splitMonths_yearDay h, hh, hm, hs, hd]

end Calendar

/-! ## Texts -/

/-- A number with zeros in front of it, up to a width. -/
def pad (width n : Nat) : Text :=
  List.replicate (width - (natDigits n).length) '0' ++ natDigits n

/-- `strftime` with `%FT%TZ`, for years with four digits. -/
def isoText (t : Tm) : Text :=
  pad 4 t.year ++ '-' :: (pad 2 t.month ++ '-' :: (pad 2 t.day ++ 'T' ::
    (pad 2 t.hour ++ ':' :: (pad 2 t.minute ++ ':' :: (pad 2 t.second ++ ['Z'])))))

/-- Up to `width` digits, as long as the number can stay within its limit. -/
def readDigits (limit : Nat) : Nat → Nat → Text → Nat × Text
  | width + 1, n, c :: s =>
    if n * 10 ≤ limit ∧ c.isDigit = true then readDigits limit width (10 * n + digit c) s
    else (n, c :: s)
  | _, n, s => (n, s)

/-- A numeric conversion of `strptime`. -/
def convNum (low high width : Nat) (s : Text) : Option (Nat × Text) :=
  if s.head?.any Char.isDigit = true then
    let r := readDigits high width 0 s
    if low ≤ r.1 ∧ r.1 ≤ high then some r else none
  else none

/-- Another character of the format. -/
def literal (c : Char) (s : Text) : Option Text := if s.head? = some c then some s.tail else none

/-- `strptime` with `%Y-%m-%dT%H:%M:%S`, and the characters behind the seconds. A minute may end
with `leap` more seconds: one after POSIX, two in the GNU library. -/
def strptime (leap : Nat) (s : Text) : Option (Tm × Text) := do
  let (year, s) ← convNum 0 9999 4 s
  let s ← literal '-' s
  let (month, s) ← convNum 1 12 2 s
  let s ← literal '-' s
  let (day, s) ← convNum 1 31 2 s
  let s ← literal 'T' s
  let (hour, s) ← convNum 0 23 2 s
  let s ← literal ':' s
  let (minute, s) ← convNum 0 59 2 s
  let s ← literal ':' s
  let (second, s) ← convNum 0 (59 + leap) 2 s
  pure (⟨year, month, day, hour, minute, second⟩, s)

section Reading

variable {limit low high width n : Nat} {ds rest : Text}

theorem readDigits_append (rest : Text) (hds : ∀ c ∈ ds, c.isDigit = true)
    (h : Nat.ofDigitChars 10 ds n ≤ limit) :
    readDigits limit ds.length n (ds ++ rest) = (Nat.ofDigitChars 10 ds n, rest) := by
  induction ds generalizing n with
  | nil => cases rest <;> rfl
  | cons c ds ih =>
    obtain ⟨hc, hds⟩ := List.forall_mem_cons.mp hds
    rw [Nat.ofDigitChars_cons, ← digit] at h ⊢
    have hge := ofDigitChars_ge ds (10 * n + digit c)
    rw [length_cons, cons_append, readDigits, if_pos ⟨by omega, hc⟩, ih hds h]

theorem pad_digits (width n : Nat) : ∀ c ∈ pad width n, c.isDigit = true := by
  intro c hc
  cases List.mem_append.mp hc with
  | inl hzero =>
    rw [eq_of_mem_replicate hzero]
    decide
  | inr hmem => exact isDigit_of_mem_natDigits hmem

theorem pad_length (hpos : 0 < width) (h : n < 10 ^ width) : (pad width n).length = width := by
  have hle := (natDigits_length_le_iff hpos).mpr h
  rw [pad, length_append, length_replicate]
  omega

theorem natValue_zeros (k : Nat) (s : Text) : natValue (List.replicate k '0' ++ s) = natValue s := by
  induction k with
  | zero => rfl
  | succ k ih =>
    have hzero : digit '0' = 0 := rfl
    rw [replicate_succ, cons_append, natValue_cons, ih, hzero, Nat.mul_zero, Nat.zero_add]

theorem natValue_pad (width n : Nat) : natValue (pad width n) = n := by
  rw [pad, natValue_zeros, natValue_natDigits]

/-- A padded number is read. -/
theorem convNum_pad (hpos : 0 < width) (hwidth : n < 10 ^ width) (hlow : low ≤ n) (hhigh : n ≤ high)
    (rest : Text) : convNum low high width (pad width n ++ rest) = some (n, rest) := by
  have hlen := pad_length hpos hwidth
  have hvalue : Nat.ofDigitChars 10 (pad width n) 0 = n := natValue_pad width n
  have hread := readDigits_append rest (pad_digits width n) (Nat.le_trans (Nat.le_of_eq hvalue) hhigh)
  rw [hlen, hvalue] at hread
  have hhead : (pad width n ++ rest).head?.any Char.isDigit = true := by
    cases hpad : pad width n with
    | nil =>
      rw [hpad] at hlen
      exact absurd hlen.symm (Nat.pos_iff_ne_zero.mp hpos)
    | cons c s =>
      have hc := pad_digits width n c (by rw [hpad]; exact mem_cons_self)
      simpa using hc
  rw [convNum, if_pos hhead, hread]
  exact if_pos ⟨hlow, hhigh⟩

theorem literal_cons (c : Char) (s : Text) : literal c (c :: s) = some s := if_pos rfl

end Reading

theorem monthLengths_le (y k : Nat) : (monthLengths y).getD k 0 ≤ 31 := by
  rw [monthLengths]
  rcases k with _ | _ | _ | _ | _ | _ | _ | _ | _ | _ | _ | _ | k <;> simp
  split <;> omega

/-- A printed time is read, and the designator is left over. -/
theorem strptime_isoText {t : Tm} (leap : Nat) (h : Valid t) (hyear : t.year ≤ 9999) :
    strptime leap (isoText t) = some (t, ['Z']) := by
  have hday := h.day
  have hmonth := h.month
  have hhour := h.hour
  have hminute := h.minute
  have hsecond := h.second
  have hmax := monthLengths_le t.year (t.month - 1)
  rw [strptime, isoText]
  -- the year, the month, the day, the hour and the minute, each with what stands behind it
  iterate 5
    rw [convNum_pad (by decide) (by omega) (by omega) (by omega)]
    simp only [bind_eq_bind, bind_some, literal_cons]
  rw [convNum_pad (by decide) (by omega) (by omega) (by omega)]
  rfl

theorem isoText_length {t : Tm} (h : Valid t) (hyear : t.year ≤ 9999) :
    (isoText t).length = 20 := by
  have hday := h.day
  have hmonth := h.month
  have hhour := h.hour
  have hminute := h.minute
  have hsecond := h.second
  have hmax := monthLengths_le t.year (t.month - 1)
  simp only [isoText, length_append, length_cons, length_nil]
  rw [pad_length (by decide) (by omega), pad_length (by decide) (by omega),
    pad_length (by decide) (by omega), pad_length (by decide) (by omega),
    pad_length (by decide) (by omega), pad_length (by decide) (by omega)]

end DateTimes
