import SdtTr369.DecimalText
import SdtTr369.UspTypes

/-!
# Numbers in the texts of Java

`Integer.parseInt`, `Long.parseLong` and the digits of regular expressions. A digit is any
decimal digit of Unicode, for the parsers only in the basic plane: they look at one `char`
at a time.
-/

namespace JavaText

open UspTypes DecimalText

/-- The zeros of the decimal digits in the basic plane. Nine digits follow each. -/
def zeros : List Nat :=
  [0x30, 0x660, 0x6F0, 0x7C0, 0x966, 0x9E6, 0xA66, 0xAE6, 0xB66, 0xBE6, 0xC66, 0xCE6, 0xD66, 0xDE6,
    0xE50, 0xED0, 0xF20, 0x1040, 0x1090, 0x17E0, 0x1810, 0x1946, 0x19D0, 0x1A80, 0x1A90, 0x1B50,
    0x1BB0, 0x1C40, 0x1C50, 0xA620, 0xA8D0, 0xA900, 0xA9D0, 0xA9F0, 0xAA50, 0xABF0, 0xFF10]

/-- The zeros of those outside of it. -/
def farZeros : List Nat :=
  [0x104A0, 0x10D30, 0x11066, 0x110F0, 0x11136, 0x111D0, 0x112F0, 0x11450, 0x114D0, 0x11650,
    0x116C0, 0x11730, 0x118E0, 0x11950, 0x11C50, 0x11D50, 0x11DA0, 0x11F50, 0x16A60, 0x16AC0,
    0x16B50, 0x1D7CE, 0x1D7D8, 0x1D7E2, 0x1D7EC, 0x1D7F6, 0x1E140, 0x1E2F0, 0x1E4F0, 0x1E950,
    0x1FBF0]

def isDigitFrom (c : Char) (z : Nat) : Bool := z ≤ c.toNat && c.toNat < z + 10

/-- `Character.digit` in base ten. -/
def digit (c : Char) : Option Nat := (zeros.find? (isDigitFrom c)).map (c.toNat - ·)

/-- `\\d` of a regular expression. -/
def isDecimal (c : Char) : Bool := (zeros ++ farZeros).any (isDigitFrom c)

def parseDigits (digits : Str) : Option Nat :=
  if digits = [] then none else digits.foldlM (fun n c => (digit c).map (10 * n + ·)) 0

/-- A number with an optional sign, below the limit or the negated limit itself. -/
def parseNumber (limit : Nat) (value : Str) : Option Int :=
  if value.head? = some '-' then
    (parseDigits value.tail).bind fun n => if n ≤ limit then some (-(n : Int)) else none
  else
    (parseDigits (if value.head? = some '+' then value.tail else value)).bind fun n =>
      if n < limit then some (n : Int) else none

/-- `Integer.parseInt`. -/
def parseInt : Str → Option Int := parseNumber 2147483648

def longLimit : Nat := 9223372036854775808

/-- `Long.parseLong`. -/
def parseLong : Str → Option Int := parseNumber longLimit

variable {c : Char} {n : Nat}

theorem isDigitFrom_zero (h : c.isDigit = true) : isDigitFrom c 0x30 = true := by
  have hrange : 48 ≤ c.toNat ∧ c.toNat ≤ 57 := by
    simpa [Char.isDigit, UInt32.le_iff_toNat_le] using h
  simp only [isDigitFrom, Bool.and_eq_true, decide_eq_true_eq]
  omega

theorem digit_of_isDigit (h : c.isDigit = true) : digit c = some (c.toNat - '0'.toNat) := by
  rw [digit, zeros, List.find?_cons_of_pos (isDigitFrom_zero h)]
  rfl

theorem isDecimal_of_isDigit (h : c.isDigit = true) : isDecimal c = true :=
  List.any_eq_true.mpr ⟨0x30, by simp [zeros], isDigitFrom_zero h⟩

/-- The digits of ASCII have the value of the numeral. -/
theorem foldlM_digits {digits : Str} (h : ∀ c ∈ digits, c.isDigit = true) (n : Nat) :
    digits.foldlM (fun n c => (digit c).map (10 * n + ·)) n = some (Nat.ofDigitChars 10 digits n) := by
  induction digits generalizing n with
  | nil => rfl
  | cons c digits ih =>
    rw [List.foldlM_cons, digit_of_isDigit (h c List.mem_cons_self)]
    exact ih (fun d hd => h d (List.mem_cons_of_mem c hd)) _

theorem parseDigits_natDigits (n : Nat) : parseDigits (natDigits n) = some n := by
  rw [parseDigits, if_neg (natDigits_ne_nil n), foldlM_digits fun c => isDigit_of_mem_natDigits]
  exact congrArg some (natValue_natDigits n)

theorem head_natDigits (h : (natDigits n).head? = some c) : c.isDigit = true :=
  isDigit_of_mem_natDigits (List.mem_of_mem_head? h)

/-- A printed number is parsed. -/
theorem parseNumber_natDigits {limit : Nat} (h : n < limit) :
    parseNumber limit (natDigits n) = some (n : Int) := by
  have hminus : (natDigits n).head? ≠ some '-' := fun hhead => by cases head_natDigits hhead
  have hplus : (natDigits n).head? ≠ some '+' := fun hhead => by cases head_natDigits hhead
  rw [parseNumber, if_neg hminus, if_neg hplus, parseDigits_natDigits, Option.bind_some, if_pos h]

theorem parseLong_natDigits (h : n < longLimit) : parseLong (natDigits n) = some (n : Int) :=
  parseNumber_natDigits h

end JavaText
