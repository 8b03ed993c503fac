import Mathlib.Algebra.Ring.Nat
import SdtTr369.Loops
import SdtTr369.PercentEscapes

/-!
# Percent encoding

`TEXT_UTILS_PercentEncodeString` writes into a buffer of a given length and stops in front of the
first character that does not fit. `TEXT_UTILS_PercentDecodeString` works inside the buffer it
reads, with one cursor behind the other.
-/

namespace PercentTexts

open Loops PercentEscapes List

/-- The bytes of a C string, its terminator left out. -/
abbrev Text := List UInt8

/-- `IS_ALPHA`. -/
def isAlpha (c : UInt8) : Bool := (97 ≤ c && c ≤ 122) || (65 ≤ c && c ≤ 90)

/-- `IS_NUMERIC`, and `isdigit` in the C locale. -/
def isNumeric (c : UInt8) : Bool := 48 ≤ c && c ≤ 57

/-! ## The encoder -/

/-- `TEXT_UTILS_ValueToHexDigit`; the flag is `USE_LOWERCASE_HEX_DIGITS`. -/
def valueToHexDigit (lowercase : Bool) (nibble : UInt8) : UInt8 :=
  if nibble ≤ 9 then nibble + 48
  else if nibble ≤ 15 then nibble - 10 + (if lowercase then 97 else 65)
  else 88

def percent : UInt8 := 37

def isAlphaNumeric (c : UInt8) : Bool := isAlpha c || isNumeric c

/-- A character that is written as it is. -/
def isPlain (safeChars : Text) (c : UInt8) : Bool := isAlphaNumeric c || safeChars.contains c

/-- What is written for a character. -/
def encoded (safeChars : Text) (lowercase : Bool) (c : UInt8) : Text :=
  if isPlain safeChars c then [c]
  else [percent, valueToHexDigit lowercase (c / 16), valueToHexDigit lowercase (c % 16)]

/-- The loop of `TEXT_UTILS_PercentEncodeString`, with the room that is left. -/
def encodeWithin (safeChars : Text) (lowercase : Bool) : Nat → Text → Text
  | _, [] => []
  | dstLen, c :: src =>
    if dstLen < (encoded safeChars lowercase c).length then []
    else encoded safeChars lowercase c ++
      encodeWithin safeChars lowercase (dstLen - (encoded safeChars lowercase c).length) src

/-- `TEXT_UTILS_PercentEncodeString`. A length of zero ends the process. -/
def percentEncodeString (safeChars : Text) (lowercase : Bool) (src : Text) (dstLen : Nat) :
    Option Text :=
  if dstLen = 0 then none else some (encodeWithin safeChars lowercase (dstLen - 1) src)

/-! ## The decoder -/

/-- `TEXT_UTILS_HexDigitToValue` -/
def hexDigitToValue (c : UInt8) : Option UInt8 :=
  (hexValue c.toNat).map UInt8.ofNat

/-- The buffer, and the two cursors. -/
structure Decoding where
  buf : Text
  src : Nat
  dest : Nat
  deriving DecidableEq, Repr

inductive Outcome
  | decoded (buf : Text)
  /-- A cell that was not read yet is written, or one behind the buffer is read. -/
  | astray
  deriving DecidableEq, Repr

/-- A cell is written where the character at `src` was read, or in front of it. -/
def Decoding.write (s : Decoding) (c : UInt8) (consumed : Nat) : Turn Decoding Outcome :=
  if s.dest ≤ s.src then .again ⟨s.buf.set s.dest c, s.src + consumed, s.dest + 1⟩
  else .done .astray

/-- What becomes of a `%`. The second character behind it is not looked at when the text ends
with the first. -/
def Decoding.percentTurn (s : Decoding) : Turn Decoding Outcome :=
  match s.buf[s.src + 1]? with
  | none => .done .astray
  | some first =>
    if first = 0 then s.write percent 1
    else
      match s.buf[s.src + 2]? with
      | none => .done .astray
      | some second =>
        if second = 0 then s.write percent 1
        else
          match hexDigitToValue first, hexDigitToValue second with
          | some digit1, some digit2 => s.write (16 * digit1 + digit2) 3
          | _, _ => s.write percent 1

/-- A turn of the loop of `TEXT_UTILS_PercentDecodeString`, and what follows the last one. -/
def turn (s : Decoding) : Turn Decoding Outcome :=
  match s.buf[s.src]? with
  | none => .done .astray
  | some c =>
    if c = 0 then
      if s.dest ≤ s.src then .done (.decoded (s.buf.set s.dest 0)) else .done .astray
    else if c = percent then s.percentTurn
    else s.write c 1

/-- What two characters behind a `%` stand for. -/
def escapedByte (first second : UInt8) : Option (Option UInt8) :=
  match hexDigitToValue first, hexDigitToValue second with
  | some digit1, some digit2 => some (some (16 * digit1 + digit2))
  | _, _ => none

/-- A `%` in front of two digits is replaced with them, from left to right. -/
def decode : Text → Text := unescape percent escapedByte

/-! ## Texts of the encoder -/

/-- Characters that need no escape, and escapes. -/
inductive WellFormed (safeChars : Text) : Text → Prop
  | nil : WellFormed safeChars []
  | plain {c : UInt8} {text : Text} (hc : isAlphaNumeric c = true ∨ c ∈ safeChars)
    (h : WellFormed safeChars text) : WellFormed safeChars (c :: text)
  | escape {first second : UInt8} {text : Text} (hfirst : (hexDigitToValue first).isSome = true)
    (hsecond : (hexDigitToValue second).isSome = true) (h : WellFormed safeChars text) :
    WellFormed safeChars (percent :: first :: second :: text)

/-- The room that a character needs. -/
def cells (safeChars : Text) (c : UInt8) : Nat := if isPlain safeChars c then 1 else 3

/-- The start of a text for which there is room. -/
def fitting (safeChars : Text) : Nat → Text → Text
  | _, [] => []
  | room, c :: src =>
    if room < cells safeChars c then []
    else c :: fitting safeChars (room - cells safeChars c) src

section Encoder

variable {safeChars : Text} {lowercase : Bool} {c : UInt8} {text rest : Text} {n : Nat}

theorem isPlain_iff : isPlain safeChars c = true ↔ isAlphaNumeric c = true ∨ c ∈ safeChars := by
  rw [isPlain, Bool.or_eq_true, contains_iff_mem]

theorem hexDigit_value (lowercase : Bool) (nibble : UInt8) (h : nibble < 16) :
    hexDigitToValue (valueToHexDigit lowercase nibble) = some nibble := by
  have hall : ∀ lowercase : Bool, ∀ k : Fin 16,
      hexDigitToValue (valueToHexDigit lowercase (UInt8.ofNat k)) = some (UInt8.ofNat k) := by
    decide
  have hval := hall lowercase ⟨nibble.toNat, h⟩
  rwa [show UInt8.ofNat (⟨nibble.toNat, h⟩ : Fin 16) = nibble from UInt8.ofNat_toNat] at hval

theorem nibbles_lt (c : UInt8) : c / 16 < 16 ∧ c % 16 < 16 := by
  have hc := c.toNat_lt
  constructor
  · rw [UInt8.lt_iff_toNat_lt, UInt8.toNat_div]
    show c.toNat / 16 < 16
    omega
  · rw [UInt8.lt_iff_toNat_lt, UInt8.toNat_mod]
    show c.toNat % 16 < 16
    omega

theorem nibbles_join (c : UInt8) : 16 * (c / 16) + c % 16 = c := by
  have hc := c.toNat_lt
  apply UInt8.toNat_inj.mp
  rw [UInt8.toNat_add, UInt8.toNat_mul, UInt8.toNat_div, UInt8.toNat_mod]
  show (16 * (c.toNat / 16) % 256 + c.toNat % 16) % 256 = c.toNat
  omega

theorem decode_percent {first second digit1 digit2 : UInt8} (h1 : hexDigitToValue first = some digit1)
    (h2 : hexDigitToValue second = some digit2) :
    decode (percent :: first :: second :: text) = (16 * digit1 + digit2) :: decode text :=
  unescape_escape (by rw [escapedByte, h1, h2])

theorem decode_other (h : c ≠ percent) : decode (c :: text) = c :: decode text := unescape_other h

theorem encoded_length (c : UInt8) :
    (encoded safeChars lowercase c).length = cells safeChars c := by
  unfold encoded cells
  split <;> rfl

theorem encoded_plain (h : isPlain safeChars c = true) : encoded safeChars lowercase c = [c] :=
  if_pos h

theorem encoded_escape (h : isPlain safeChars c = false) : encoded safeChars lowercase c =
    [percent, valueToHexDigit lowercase (c / 16), valueToHexDigit lowercase (c % 16)] := by
  rw [encoded, h]
  rfl

/-- What is written for a character is read as this character. -/
theorem decode_encoded (hsafe : percent ∉ safeChars) (c : UInt8) (rest : Text) :
    decode (encoded safeChars lowercase c ++ rest) = c :: decode rest := by
  cases hplain : isPlain safeChars c with
  | true =>
    have hne : c ≠ percent := by
      rintro rfl
      exact (isPlain_iff.mp hplain).elim (by decide) hsafe
    rw [encoded_plain hplain, singleton_append, decode_other hne]
  | false =>
    obtain ⟨hhigh, hlow⟩ := nibbles_lt c
    rw [encoded_escape hplain, cons_append, cons_append, cons_append,
      nil_append, decode_percent (hexDigit_value lowercase _ hhigh)
        (hexDigit_value lowercase _ hlow), nibbles_join]

theorem decode_flatMap (hsafe : percent ∉ safeChars) (src : Text) :
    decode (src.flatMap (encoded safeChars lowercase)) = src := by
  induction src with
  | nil => rfl
  | cons c src ih => rw [flatMap_cons, decode_encoded hsafe, ih]

theorem wellFormed_flatMap (src : Text) :
    WellFormed safeChars (src.flatMap (encoded safeChars lowercase)) := by
  induction src with
  | nil => exact .nil
  | cons c src ih =>
    rw [flatMap_cons]
    cases hplain : isPlain safeChars c with
    | true =>
      rw [encoded_plain hplain]
      exact .plain (isPlain_iff.mp hplain) ih
    | false =>
      obtain ⟨hhigh, hlow⟩ := nibbles_lt c
      rw [encoded_escape hplain]
      exact .escape (by rw [hexDigit_value lowercase _ hhigh]; rfl)
        (by rw [hexDigit_value lowercase _ hlow]; rfl) ih

theorem fitting_isPrefix (n : Nat) (src : Text) : fitting safeChars n src <+: src := by
  induction src generalizing n with
  | nil => exact prefix_rfl
  | cons c src ih =>
    rw [fitting]
    split
    · exact nil_prefix
    · exact List.cons_prefix_cons.mpr ⟨rfl, ih _⟩

/-- The encoder stops in front of the first character that does not fit. -/
theorem encodeWithin_eq (n : Nat) (src : Text) : encodeWithin safeChars lowercase n src =
    (fitting safeChars n src).flatMap (encoded safeChars lowercase) := by
  induction src generalizing n with
  | nil => rfl
  | cons c src ih =>
    rw [encodeWithin, fitting, encoded_length]
    split
    · rfl
    · rw [ih, flatMap_cons]

theorem encodeWithin_length (n : Nat) (src : Text) :
    (encodeWithin safeChars lowercase n src).length ≤ n := by
  induction src generalizing n with
  | nil => exact Nat.zero_le n
  | cons c src ih =>
    rw [encodeWithin]
    split
    · exact Nat.zero_le n
    · have hrest := ih (n - (encoded safeChars lowercase c).length)
      rw [length_append]
      omega

theorem flatMap_encoded_length (src : Text) : (src.flatMap (encoded safeChars lowercase)).length =
    (src.map (cells safeChars)).sum := by
  rw [length_flatMap, map_congr_left fun c _ => encoded_length c]

/-- Where everything fits, nothing is left out. -/
theorem fitting_eq {src : Text} (h : (src.map (cells safeChars)).sum ≤ n) :
    fitting safeChars n src = src := by
  induction src generalizing n with
  | nil => rfl
  | cons c src ih =>
    rw [map_cons, sum_cons] at h
    rw [fitting, if_neg (by omega), ih (by omega)]

end Encoder

/-! ## The decoder in its buffer -/

section Decoder

variable {orig done text rest : Text} {src : Nat} {c : UInt8} {outcome : Outcome}

/-- The buffer after some cells were written, and the cursors. -/
def midway (orig done : Text) (src : Nat) : Decoding := ⟨done ++ orig.drop done.length, src, done.length⟩

@[simp] theorem midway_src : (midway orig done src).src = src := rfl

@[simp] theorem midway_dest : (midway orig done src).dest = done.length := rfl

/-- The cells from the first cursor on are as they were. -/
theorem midway_read (hle : done.length ≤ src) (horig : orig.drop src = text ++ 0 :: rest) (k : Nat) :
    (midway orig done src).buf[src + k]? = (text ++ 0 :: rest)[k]? := by
  have hcell : done.length + (src + k - done.length) = src + k := by omega
  rw [← horig, getElem?_drop, midway, getElem?_append_right (by omega),
    getElem?_drop, hcell]

theorem midway_set (src : Nat) (hlt : done.length < orig.length) (c : UInt8) :
    (midway orig done src).buf.set done.length c =
      done ++ [c] ++ orig.drop (done ++ [c]).length := by
  rw [midway, set_append_right _ _ (Nat.le_refl _), Nat.sub_self,
    drop_eq_getElem_cons hlt, set_cons_zero, length_append, length_singleton,
    append_assoc]
  rfl

theorem midway_write (hle : done.length ≤ src) (hlt : src < orig.length) (c : UInt8) (k : Nat) :
    (midway orig done src).write c k = .again (midway orig (done ++ [c]) (src + k)) := by
  have hset := midway_set src (Nat.lt_of_le_of_lt hle hlt) c
  rw [Decoding.write, midway_dest, midway_src, if_pos hle, hset, midway, length_append,
    length_singleton]

theorem src_lt (horig : orig.drop src = text ++ 0 :: rest) : src < orig.length := by
  have hlen := congrArg List.length horig
  rw [length_drop, length_append, length_cons] at hlen
  omega

/-- A turn writes one character for the one or three that it reads. -/
theorem turn_again {k : Nat} {x : UInt8} (hle : done.length ≤ src)
    (horig : orig.drop src = text ++ 0 :: rest)
    (hturn : turn (midway orig done src) = (midway orig done src).write x k) :
    Ends turn (midway orig done src) outcome ↔
      Ends turn (midway orig (done ++ [x]) (src + k)) outcome := by
  apply ends_of_again
  rw [hturn, midway_write hle (src_lt horig)]

theorem turn_char (hle : done.length ≤ src) (horig : orig.drop src = c :: text ++ 0 :: rest)
    (hnul : c ≠ 0) : turn (midway orig done src) =
      if c = percent then (midway orig done src).percentTurn
      else (midway orig done src).write c 1 := by
  have hread := midway_read hle horig 0
  rw [Nat.add_zero] at hread
  rw [turn, midway_src, hread]
  exact if_neg hnul

/-- A `%` at the end, or with one character behind it, stays. -/
theorem percentTurn_short (hle : done.length ≤ src) (horig : orig.drop src = c :: text ++ 0 :: rest)
    (hshort : text.length ≤ 1) (hnul : 0 ∉ text) :
    (midway orig done src).percentTurn = (midway orig done src).write percent 1 := by
  have hread := midway_read hle horig
  cases text with
  | nil =>
    rw [Decoding.percentTurn, midway_src, hread 1]
    rfl
  | cons first text =>
    obtain rfl : text = [] := List.length_eq_zero_iff.mp (by
      rw [length_cons] at hshort
      omega)
    have hfirst : first ≠ 0 := fun heq => hnul (heq ▸ mem_cons_self)
    rw [Decoding.percentTurn, midway_src, hread 1, hread 2]
    show (if first = 0 then _ else _) = _
    rw [if_neg hfirst]
    rfl

theorem percentTurn_pair {first second : UInt8} (hle : done.length ≤ src)
    (horig : orig.drop src = c :: first :: second :: text ++ 0 :: rest) (hfirst : first ≠ 0)
    (hsecond : second ≠ 0) : (midway orig done src).percentTurn =
      match escapedByte first second with
      | some (some d) => (midway orig done src).write d 3
      | _ => (midway orig done src).write percent 1 := by
  have hread := midway_read hle horig
  rw [Decoding.percentTurn, midway_src, hread 1, hread 2]
  show (if first = 0 then _ else if second = 0 then _ else _) = _
  rw [if_neg hfirst, if_neg hsecond, escapedByte]
  split <;> rfl

/-- No escape ends the text of the buffer. -/
theorem escapedByte_ne_end (first second : UInt8) : escapedByte first second ≠ some none := by
  unfold escapedByte
  split <;> simp

/-- A turn at a `%` that is no escape, and at any other character, copies it. -/
theorem ends_copy (hle : done.length ≤ src) (horig : orig.drop src = c :: text ++ 0 :: rest)
    (hturn : turn (midway orig done src) = (midway orig done src).write c 1)
    (ih : ∀ {done : Text} {src : Nat}, done.length ≤ src → orig.drop src = text ++ 0 :: rest →
      Ends turn (midway orig done src)
        (.decoded (done ++ decode text ++ 0 :: orig.drop ((done ++ decode text).length + 1)))) :
    Ends turn (midway orig done src) (.decoded (done ++ c :: decode text ++
      0 :: orig.drop ((done ++ c :: decode text).length + 1))) := by
  have hmore : orig.drop (src + 1) = text ++ 0 :: rest := by
    rw [← drop_drop, horig]
    rfl
  have hlen : (done ++ [c]).length ≤ src + 1 := by
    rw [length_append, length_singleton]
    omega
  have hends := ih hlen hmore
  rw [append_assoc done, singleton_append] at hends
  exact (turn_again hle horig hturn).mpr hends

theorem turn_other (hle : done.length ≤ src) (horig : orig.drop src = c :: text ++ 0 :: rest)
    (hnul : c ≠ 0) (hother : c ≠ percent) :
    turn (midway orig done src) = (midway orig done src).write c 1 := by
  rw [turn_char hle horig hnul, if_neg hother]

theorem turn_percent (hle : done.length ≤ src)
    (horig : orig.drop src = percent :: text ++ 0 :: rest) :
    turn (midway orig done src) = (midway orig done src).percentTurn := by
  rw [turn_char hle horig (by decide), if_pos rfl]

/-- A character with at most one behind it is copied. -/
theorem turn_short (hle : done.length ≤ src) (horig : orig.drop src = c :: text ++ 0 :: rest)
    (hshort : text.length ≤ 1) (hnul : 0 ∉ c :: text) :
    turn (midway orig done src) = (midway orig done src).write c 1 := by
  obtain ⟨hc, htext⟩ := not_or.mp (List.mem_cons.not.mp hnul)
  by_cases hpercent : c = percent
  · subst hpercent
    rw [turn_percent hle horig, percentTurn_short hle horig hshort htext]
  · exact turn_other hle horig (Ne.symm hc) hpercent

/-- The decoder ends with the decoded text, and its terminator, in front of cells that it did not
write. -/
theorem ends_midway (hle : done.length ≤ src) (horig : orig.drop src = text ++ 0 :: rest)
    (hnul : 0 ∉ text) :
    Ends turn (midway orig done src)
      (.decoded (done ++ decode text ++ 0 :: orig.drop ((done ++ decode text).length + 1))) := by
  have hnil : ∀ {done : Text} {src : Nat}, done.length ≤ src → orig.drop src = 0 :: rest →
      Ends turn (midway orig done src)
        (.decoded (done ++ decode [] ++ 0 :: orig.drop ((done ++ decode []).length + 1))) := by
    intro done src hle horig
    replace horig : orig.drop src = [] ++ 0 :: rest := horig
    have hread := midway_read hle horig 0
    have hset := midway_set src (Nat.lt_of_le_of_lt hle (src_lt horig)) 0
    rw [Nat.add_zero] at hread
    apply Ends.done
    rw [turn, midway_src, hread]
    show (if done.length ≤ src then Turn.done (Outcome.decoded
      ((midway orig done src).buf.set done.length 0)) else _) = _
    rw [if_pos hle, hset, decode, unescape_nil, append_nil, append_assoc, length_append]
    rfl
  induction text using unescape.induct percent escapedByte
    generalizing done src with
  | case1 first second text d hescape ih =>
    obtain ⟨-, hnul⟩ := not_or.mp (List.mem_cons.not.mp hnul)
    obtain ⟨hfirst0, hnul⟩ := not_or.mp (List.mem_cons.not.mp hnul)
    obtain ⟨hsecond0, hnul⟩ := not_or.mp (List.mem_cons.not.mp hnul)
    have hturn : turn (midway orig done src) = (midway orig done src).write d 3 := by
      rw [turn_percent hle horig,
        percentTurn_pair hle horig (Ne.symm hfirst0) (Ne.symm hsecond0), hescape]
    have hmore : orig.drop (src + 3) = text ++ 0 :: rest := by
      rw [← drop_drop, horig]
      rfl
    have hlen : (done ++ [d]).length ≤ src + 3 := by
      rw [length_append, length_singleton]
      omega
    have hends := ih hlen hmore hnul
    rw [append_assoc done, singleton_append] at hends
    rw [decode, unescape_escape hescape]
    exact (turn_again hle horig hturn).mpr hends
  | case2 first second text hescape => exact absurd hescape (escapedByte_ne_end first second)
  | case3 first second text hescape ih =>
    obtain ⟨-, hnul⟩ := not_or.mp (List.mem_cons.not.mp hnul)
    obtain ⟨hfirst0, hnul'⟩ := not_or.mp (List.mem_cons.not.mp hnul)
    obtain ⟨hsecond0, -⟩ := not_or.mp (List.mem_cons.not.mp hnul')
    have hturn : turn (midway orig done src) = (midway orig done src).write percent 1 := by
      rw [turn_percent hle horig,
        percentTurn_pair hle horig (Ne.symm hfirst0) (Ne.symm hsecond0), hescape]
    rw [decode, unescape_malformed hescape]
    exact ends_copy hle horig hturn fun hle horig => ih hle horig hnul
  | case4 c first second text hother ih =>
    obtain ⟨hc, hnul⟩ := not_or.mp (List.mem_cons.not.mp hnul)
    rw [decode_other hother]
    exact ends_copy hle horig (turn_other hle horig (Ne.symm hc) hother)
      fun hle horig => ih hle horig hnul
  | case5 text hshort =>
    match text, hshort, hnul with
    | [], _, _ => exact hnil hle horig
    | [c], _, hnul =>
      rw [decode, unescape_singleton]
      exact ends_copy hle horig (turn_short hle horig (Nat.zero_le 1) hnul) hnil
    | [c, d], _, hnul =>
      rw [decode, unescape_pair]
      refine ends_copy hle horig (turn_short hle horig (Nat.le_refl 1) hnul) ?_
      intro done src hle horig
      have hd : 0 ∉ [d] := fun hmem => hnul (mem_cons_of_mem c hmem)
      exact ends_copy hle horig (turn_short hle horig (Nat.zero_le 1) hd) hnil
    | c :: first :: second :: text, hshort, _ => exact (hshort c first second text rfl).elim

/-- The decoder ends on every text, and stays behind what it has read. -/
theorem ends_decoded (hnul : 0 ∉ text) (rest : Text) :
    Ends turn ⟨text ++ 0 :: rest, 0, 0⟩
      (.decoded (decode text ++ 0 :: (text ++ 0 :: rest).drop ((decode text).length + 1))) := by
  have hle : ([] : Text).length ≤ 0 := Nat.le_refl 0
  have hends := ends_midway hle (drop_zero (l := text ++ 0 :: rest)) hnul
  exact hends

end Decoder

section RoundTrip

variable {safeChars : Text} {lowercase : Bool}

theorem valueToHexDigit_ne_zero (lowercase : Bool) (nibble : UInt8) (h : nibble < 16) :
    valueToHexDigit lowercase nibble ≠ 0 := by
  intro heq
  have hvalue := hexDigit_value lowercase nibble h
  rw [heq] at hvalue
  cases hvalue

theorem nul_not_mem_encoded {c : UInt8} (h : c ≠ 0) : 0 ∉ encoded safeChars lowercase c := by
  obtain ⟨hhigh, hlow⟩ := nibbles_lt c
  cases hplain : isPlain safeChars c with
  | true =>
    rw [encoded_plain hplain, mem_singleton]
    exact Ne.symm h
  | false =>
    rw [encoded_escape hplain, mem_cons, mem_cons, mem_singleton]
    rintro (heq | heq | heq)
    · cases heq
    · exact valueToHexDigit_ne_zero lowercase _ hhigh heq.symm
    · exact valueToHexDigit_ne_zero lowercase _ hlow heq.symm

theorem nul_not_mem_flatMap (safeChars : Text) (lowercase : Bool) {src : Text} (h : 0 ∉ src) :
    0 ∉ src.flatMap (encoded safeChars lowercase) := by
  intro hmem
  obtain ⟨c, hc, hin⟩ := List.mem_flatMap.mp hmem
  exact nul_not_mem_encoded (fun heq => h (heq ▸ hc)) hin

/-- The encoder stays in its buffer and writes plain characters and escapes. The decoder, which
replaces each `%` in front of two digits and nothing else, takes them back to the text that was
encoded, or to the start of it that fitted. -/
theorem decode_of_encode {dstLen : Nat} {src text : Text} (hsafe : percent ∉ safeChars)
    (hroom : 0 < dstLen) (hsrc : 0 ∉ src) (htext : 0 ∉ text) :
    (∃ out front, percentEncodeString safeChars lowercase src dstLen = some out ∧
      out.length < dstLen ∧ WellFormed safeChars out ∧ front <+: src ∧
      ((src.flatMap (encoded safeChars lowercase)).length < dstLen → front = src) ∧
      ∀ rest, Ends turn ⟨out ++ 0 :: rest, 0, 0⟩
        (.decoded (front ++ 0 :: (out ++ 0 :: rest).drop (front.length + 1)))) ∧
    ∀ rest, Ends turn ⟨text ++ 0 :: rest, 0, 0⟩
      (.decoded (decode text ++ 0 :: (text ++ 0 :: rest).drop ((decode text).length + 1))) := by
  refine ⟨?_, ends_decoded htext⟩
  have hfront : fitting safeChars (dstLen - 1) src <+: src := fitting_isPrefix (dstLen - 1) src
  have hlen : (encodeWithin safeChars lowercase (dstLen - 1) src).length ≤ dstLen - 1 :=
    encodeWithin_length (dstLen - 1) src
  have hout : percentEncodeString safeChars lowercase src dstLen =
      some ((fitting safeChars (dstLen - 1) src).flatMap (encoded safeChars lowercase)) := by
    rw [percentEncodeString, if_neg (Nat.ne_of_gt hroom), encodeWithin_eq]
  have hnul : 0 ∉ fitting safeChars (dstLen - 1) src := fun hmem => hsrc (hfront.subset hmem)
  rw [encodeWithin_eq] at hlen
  refine ⟨_, _, hout, by omega, wellFormed_flatMap _, hfront, fun hfits => fitting_eq ?_,
    fun rest => ?_⟩
  · rw [flatMap_encoded_length] at hfits
    omega
  have hends := ends_decoded (nul_not_mem_flatMap safeChars lowercase hnul) rest
  rwa [decode_flatMap hsafe] at hends

/-- `é%` in a buffer of eight characters, which has room for its first two escapes only, and the
text `%4G%`. -/
theorem decode_of_encode_cut :
    (∃ out front, percentEncodeString [] true [195, 169, 37] 8 = some out ∧ out.length < 8 ∧
      WellFormed [] out ∧ front <+: [195, 169, 37] ∧
      ((([195, 169, 37] : Text).flatMap (encoded [] true)).length < 8 → front = [195, 169, 37]) ∧
      ∀ rest, Ends turn ⟨out ++ 0 :: rest, 0, 0⟩
        (.decoded (front ++ 0 :: (out ++ 0 :: rest).drop (front.length + 1)))) ∧
    ∀ rest, Ends turn ⟨([37, 52, 71, 37] : Text) ++ 0 :: rest, 0, 0⟩
      (.decoded (decode [37, 52, 71, 37] ++ 0 :: (([37, 52, 71, 37] : Text) ++ 0 :: rest).drop
        ((decode [37, 52, 71, 37]).length + 1))) :=
  decode_of_encode (by decide) (by decide) (by decide) (by decide)

example : percentEncodeString [] true [195, 169, 37] 8 = some [37, 99, 51, 37, 97, 57] := by decide

end RoundTrip

end PercentTexts
