import Mathlib.Data.List.Basic
import Mathlib.Data.Int.Basic

/-!
# Decimal numerals

Printing and reading numbers in base ten, over any text. Reading in 32-bit
words agrees with reading in the naturals up to the word size, so that a number
below the word size is read back as it was printed.
-/

namespace DecimalText

/-- The numeral of a natural number. -/
def natDigits (n : Nat) : List Char := Nat.toDigits 10 n

/-- The numeral of an integer, with a sign in front of a negative one. -/
def intDigits : Int → List Char
  | .ofNat n => natDigits n
  | .negSucc n => '-' :: natDigits (n + 1)

variable (n : Nat)

@[simp] theorem intDigits_natCast : intDigits (n : Int) = natDigits n := rfl

theorem natDigits_ne_nil : natDigits n ≠ [] := Nat.toDigits_ne_nil

theorem isDigit_of_mem_natDigits {n : Nat} {c : Char} (h : c ∈ natDigits n) : c.isDigit = true :=
  Nat.isDigit_of_mem_toDigits (by decide) (by decide) h

theorem natDigits_all : (natDigits n).all Char.isDigit = true :=
  List.all_eq_true.mpr fun _ h => isDigit_of_mem_natDigits h

theorem intDigits_ne_nil (n : Int) : intDigits n ≠ [] := by
  cases n with
  | ofNat n => exact natDigits_ne_nil n
  | negSucc n => exact List.cons_ne_nil _ _

/-- The value of a numeral read in the naturals. -/
def natValue (s : List Char) : Nat := Nat.ofDigitChars 10 s 0

theorem natValue_natDigits : natValue (natDigits n) = n :=
  Nat.ofDigitChars_toDigits (by decide) (by decide)

theorem natDigits_inj {m n : Nat} (h : natDigits m = natDigits n) : m = n := by
  rw [← natValue_natDigits m, h, natValue_natDigits]

theorem intDigits_inj {m n : Int} (h : intDigits m = intDigits n) : m = n := by
  have hsign : ∀ k : Nat, '-' ∉ natDigits k := fun k hk =>
    absurd (isDigit_of_mem_natDigits hk) (by decide)
  cases m with
  | ofNat m =>
    cases n with
    | ofNat n => exact congrArg Int.ofNat (natDigits_inj h)
    | negSucc n =>
      have hm : natDigits m = '-' :: natDigits (n + 1) := h
      exact absurd (hm ▸ List.mem_cons_self) (hsign m)
  | negSucc m =>
    cases n with
    | ofNat n =>
      have hn : '-' :: natDigits (m + 1) = natDigits n := h
      exact absurd (hn ▸ List.mem_cons_self) (hsign n)
    | negSucc n =>
      have hmn : natDigits (m + 1) = natDigits (n + 1) := List.tail_eq_of_cons_eq h
      exact congrArg Int.negSucc (Nat.succ.inj (natDigits_inj hmn))

theorem dot_not_mem_intDigits (n : Int) : '.' ∉ intDigits n := by
  intro h
  cases n with
  | ofNat n => exact absurd (isDigit_of_mem_natDigits h) (by decide)
  | negSucc n =>
    rcases List.mem_cons.mp h with h | h
    · cases h
    · exact absurd (isDigit_of_mem_natDigits h) (by decide)

/-- One digit more, in 32-bit words. -/
def pushDigit (n : UInt32) (c : Char) : UInt32 := 10 * n + (UInt32.ofNat c.toNat - 48)

def wordValue (s : List Char) : UInt32 := s.foldl pushDigit 0

theorem pushDigit_ofNat {c : Char} (hc : c.isDigit = true) (n : Nat) :
    pushDigit (UInt32.ofNat n) c = UInt32.ofNat (10 * n + (c.toNat - '0'.toNat)) := by
  have hle : 48 ≤ c.toNat := by
    simp only [Char.isDigit, Bool.and_eq_true, decide_eq_true_eq] at hc
    exact hc.1
  have hlt : c.toNat ≤ 57 := by
    simp only [Char.isDigit, Bool.and_eq_true, decide_eq_true_eq] at hc
    exact hc.2
  have hzero : '0'.toNat = 48 := by decide
  rw [hzero]
  apply UInt32.toNat_inj.mp
  simp only [pushDigit, UInt32.toNat_add, UInt32.toNat_mul, UInt32.toNat_sub, UInt32.toNat_ofNat']
  simp only [UInt32.reduceToNat]
  omega

theorem foldl_pushDigit {s : List Char} (hs : s.all Char.isDigit = true) (n : Nat) :
    s.foldl pushDigit (UInt32.ofNat n) = UInt32.ofNat (Nat.ofDigitChars 10 s n) := by
  induction s generalizing n with
  | nil => rfl
  | cons c s ih =>
    simp only [List.all_cons, Bool.and_eq_true] at hs
    rw [List.foldl_cons, pushDigit_ofNat hs.1, ih hs.2]
    rfl

/-- Reading in words is reading in the naturals modulo the word size. -/
theorem wordValue_eq {s : List Char} (hs : s.all Char.isDigit = true) :
    wordValue s = UInt32.ofNat (natValue s) := foldl_pushDigit hs 0

theorem wordValue_natDigits : wordValue (natDigits n) = UInt32.ofNat n := by
  rw [wordValue_eq (natDigits_all n), natValue_natDigits]

def wordSize : Nat := 4294967296

/-- The numbers that a signed word holds without change stay below this. -/
def signedLimit : Nat := 2147483648

/-- A word stored in a signed cell of the same width. -/
def signedWord (n : UInt32) : Int := Int.bmod n.toNat wordSize

theorem signedWord_ofNat : signedWord (UInt32.ofNat n) = Int.bmod n wordSize := by
  have hmod : (UInt32.ofNat n).toNat = n % wordSize := UInt32.toNat_ofNat'
  rw [signedWord, hmod]
  push_cast
  exact Int.emod_bmod _ _

theorem signedWord_of_lt {n : Nat} (h : n < signedLimit) :
    signedWord (UInt32.ofNat n) = n := by
  rw [signedWord_ofNat]
  refine Int.bmod_eq_of_le ?_ ?_ <;> simp only [signedLimit, wordSize] at * <;> omega

/-- Two numerals that differ by the word size are read as the same number. -/
theorem signedWord_wrap :
    signedWord (UInt32.ofNat (n + wordSize)) = signedWord (UInt32.ofNat n) := by
  rw [signedWord_ofNat, signedWord_ofNat]
  push_cast
  exact Int.add_bmod_right _ _

theorem signedWord_lt (n : UInt32) : signedWord n < signedLimit := by
  have h := Int.bmod_lt (x := (n.toNat : Int)) (m := wordSize) (by decide)
  simp only [signedWord, signedLimit, wordSize] at *
  omega

end DecimalText
