import Mathlib.Algebra.Ring.Nat
import SdtTr369.DecimalText

/-!
# Numerals without leading zeros

The value of a text of digits place by place, and the texts that a number is printed as.
-/

namespace Numerals

open DecimalText

variable {c : Char} {s : List Char}

theorem isDigit_iff : c.isDigit = true ↔ 48 ≤ c.toNat ∧ c.toNat ≤ 57 := by
  simp only [Char.isDigit, Bool.and_eq_true, decide_eq_true_eq]
  rfl

/-- The value of a digit. -/
def digit (c : Char) : Nat := c.toNat - '0'.toNat

theorem digit_eq (c : Char) : digit c = c.toNat - 48 := rfl

theorem digit_le (h : c.isDigit = true) : digit c ≤ 9 := by
  have hrange := isDigit_iff.mp h
  rw [digit_eq]
  omega

theorem digit_inj {d : Char} (hc : c.isDigit = true) (hd : d.isDigit = true)
    (h : digit c = digit d) : c = d := by
  have hrange := isDigit_iff.mp hc
  have hrange' := isDigit_iff.mp hd
  rw [digit_eq, digit_eq] at h
  exact Char.toNat_inj.mp (by omega)

theorem natValue_cons (c : Char) (s : List Char) :
    natValue (c :: s) = 10 ^ s.length * digit c + natValue s := by
  rw [natValue, Nat.ofDigitChars_cons, Nat.ofDigitChars_eq_ofDigitChars_zero]
  simp [natValue, digit]

theorem ofDigitChars_ge (s : List Char) (n : Nat) : n ≤ Nat.ofDigitChars 10 s n := by
  induction s generalizing n with
  | nil => exact Nat.le_refl n
  | cons c s ih =>
    have hrest := ih (10 * n + (c.toNat - '0'.toNat))
    rw [Nat.ofDigitChars_cons]
    omega

theorem natValue_lt (h : ∀ c ∈ s, c.isDigit = true) : natValue s < 10 ^ s.length := by
  induction s with
  | nil => simp [natValue]
  | cons c s ih =>
    obtain ⟨hc, hs⟩ := List.forall_mem_cons.mp h
    have hrest := ih hs
    have hmul : 10 ^ s.length * digit c ≤ 10 ^ s.length * 9 :=
      Nat.mul_le_mul_left _ (digit_le hc)
    rw [natValue_cons, List.length_cons, Nat.pow_succ]
    omega

/-- The first digit of two texts of the same length decides, where it differs. -/
theorem digit_lt_of_natValue {d : Char} {t : List Char} (ht : ∀ c ∈ t, c.isDigit = true)
    (hne : digit c ≠ digit d) (hlen : s.length = t.length)
    (h : natValue (c :: s) ≤ natValue (d :: t)) : digit c < digit d := by
  rw [natValue_cons, natValue_cons, hlen] at h
  by_contra hge
  have hval := natValue_lt ht
  have hmul : 10 ^ t.length * (digit d + 1) ≤ 10 ^ t.length * digit c :=
    Nat.mul_le_mul_left _ (by omega)
  rw [Nat.mul_succ] at hmul
  omega

theorem natValue_inj {t : List Char} (hs : ∀ c ∈ s, c.isDigit = true)
    (ht : ∀ c ∈ t, c.isDigit = true) (hlen : s.length = t.length) (h : natValue s = natValue t) :
    s = t := by
  induction s generalizing t with
  | nil => exact (List.length_eq_zero_iff.mp hlen.symm).symm
  | cons c s ih =>
    cases t with
    | nil => cases hlen
    | cons d t =>
      obtain ⟨hc, hs'⟩ := List.forall_mem_cons.mp hs
      obtain ⟨hd, ht'⟩ := List.forall_mem_cons.mp ht
      have hlen' : s.length = t.length := Nat.succ.inj hlen
      have hdigit : digit c = digit d := by
        by_contra hne
        have hlt := digit_lt_of_natValue ht' hne hlen' (Nat.le_of_eq h)
        have hgt := digit_lt_of_natValue hs' (Ne.symm hne) hlen'.symm (Nat.le_of_eq h.symm)
        omega
      obtain rfl := digit_inj hc hd hdigit
      rw [natValue_cons, natValue_cons, hlen'] at h
      rw [ih hs' ht' hlen' (by omega)]

/-- A number as it is printed. -/
structure IsNumeral (s : List Char) : Prop where
  ne_nil : s ≠ []
  digits : ∀ c ∈ s, c.isDigit = true
  leading : ∀ rest, s = '0' :: rest → rest = []

theorem natDigits_digits (n : Nat) : ∀ c ∈ natDigits n, c.isDigit = true :=
  fun _ => isDigit_of_mem_natDigits

theorem natDigits_length_le_iff {n k : Nat} (h : 0 < k) :
    (natDigits n).length ≤ k ↔ n < 10 ^ k := Nat.length_toDigits_le_iff (by decide) h

/-- A text whose first digit is not zero is as long as the numeral of its value. -/
theorem natDigits_natValue_length (hc : c.isDigit = true) (hs : ∀ c ∈ s, c.isDigit = true)
    (hne : c ≠ '0') : (natDigits (natValue (c :: s))).length = s.length + 1 := by
  have hlow : 10 ^ s.length ≤ natValue (c :: s) := by
    have hrange := isDigit_iff.mp hc
    have hzero : c.toNat ≠ 48 := fun heq => hne (Char.toNat_inj.mp heq)
    have hpos : 1 ≤ digit c := by
      rw [digit_eq]
      omega
    have hmul : 10 ^ s.length * 1 ≤ 10 ^ s.length * digit c := Nat.mul_le_mul_left _ hpos
    rw [natValue_cons]
    omega
  have hhigh : natValue (c :: s) < 10 ^ (s.length + 1) :=
    natValue_lt (List.forall_mem_cons.mpr ⟨hc, hs⟩)
  have hle := (natDigits_length_le_iff (Nat.succ_pos s.length)).mpr hhigh
  by_contra hlen
  have hshort : (natDigits (natValue (c :: s))).length ≤ s.length := by omega
  have hpos : 0 < s.length :=
    Nat.lt_of_lt_of_le (List.length_pos_of_ne_nil (natDigits_ne_nil _)) hshort
  have hlt := (natDigits_length_le_iff hpos).mp hshort
  omega

theorem natDigits_natValue (h : IsNumeral s) : natDigits (natValue s) = s := by
  cases s with
  | nil => exact absurd rfl h.ne_nil
  | cons c s =>
    obtain ⟨hc, hs⟩ := List.forall_mem_cons.mp h.digits
    by_cases hzero : c = '0'
    · subst hzero
      obtain rfl := h.leading s rfl
      decide
    · refine natValue_inj (natDigits_digits _) h.digits ?_ (natValue_natDigits _)
      exact natDigits_natValue_length hc hs hzero

theorem natDigits_isNumeral (n : Nat) : IsNumeral (natDigits n) := by
  refine ⟨natDigits_ne_nil n, natDigits_digits n, fun rest heq => ?_⟩
  have hdigits := natDigits_digits n
  rw [heq] at hdigits
  have hrest := (List.forall_mem_cons.mp hdigits).2
  by_contra hne
  have hpos : 0 < rest.length := List.length_pos_of_ne_nil hne
  have hvalue : n = natValue rest := by
    have hval := natValue_natDigits n
    rw [heq, natValue_cons] at hval
    have hdigit : digit '0' = 0 := rfl
    rw [hdigit] at hval
    omega
  have hshort := (natDigits_length_le_iff hpos).mpr (hvalue ▸ natValue_lt hrest)
  rw [heq, List.length_cons] at hshort
  omega

theorem natValue_pos_iff (h : IsNumeral s) : 0 < natValue s ↔ s ≠ ['0'] := by
  constructor
  · rintro hpos rfl
    exact absurd hpos (by decide)
  · intro hne
    by_contra hzero
    have hval : natValue s = 0 := by omega
    have hs := natDigits_natValue h
    rw [hval] at hs
    exact hne hs.symm

end Numerals
