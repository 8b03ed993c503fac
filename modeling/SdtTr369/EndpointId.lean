import SdtTr369.PercentTexts
import SdtTr369.UspTypes
import Mathlib.Data.List.TakeWhile

/-!
# The default endpoint id

`GetDefaultEndpointID` and `ExtractDigitsFromSerialNumber` of `device_local_agent.c`. The
serial number is escaped first and its digits are taken afterwards, so that the digits of the
escapes are among them.
-/

namespace EndpointId

open UspTypes PercentTexts List

/-- `SAFE_CHARS`: "-._". -/
def safeChars : Text := [45, 46, 95]

/-- What one character becomes with the safe characters of `GetDefaultEndpointID` and
`USE_UPPERCASE_HEX_DIGITS`. -/
def escaped : UInt8 → Text := encoded safeChars false

/-- `TEXT_UTILS_PercentEncodeString` into a buffer of `GetDefaultEndpointID`. -/
def percentEncoded (src : Text) : Text :=
  encodeWithin safeChars false (maxDmShortValueLen - 1) src

/-- The buffer is not empty, so that the encoder does not end the process. -/
theorem percentEncodeString_eq (src : Text) :
    percentEncodeString safeChars false src maxDmShortValueLen = some (percentEncoded src) := rfl

def digits (text : Text) : Text := text.filter isNumeric

/-- `ExtractDigitsFromSerialNumber`. -/
def extractDigitsFromSerialNumber (input : Text) (outputSize : Nat) : Text :=
  if (digits input).length < outputSize - 1 then
    List.replicate (outputSize - 1 - (digits input).length) 48 ++ digits input
  else (digits input).drop ((digits input).length - (outputSize - 1))

/-- The digits that `GetDefaultEndpointID` appends. -/
def serialNumberShort (serial : Text) : Text :=
  extractDigitsFromSerialNumber (percentEncoded serial) 13

/-- `GetDefaultEndpointID`; `hook` is `get_agent_endpoint_id_cb`, given the size of the
buffer. The id is `os::`, the OUI, `-` and the digits, as far as the buffer takes them. -/
def getDefaultEndpointID (hook : Option (Nat → Option Text)) (len : Nat) (oui serial : Text) :
    Except Err Text :=
  match hook with
  | some getAgentEndpointId =>
    match getAgentEndpointId len with
    | none => .error .internalError
    | some buf => .ok buf
  | none =>
    .ok (([111, 115, 58, 58] ++ percentEncoded oui ++ [45] ++ serialNumberShort serial).take
      (len - 1))

/-- A digit of a text, counted from its end; a zero before its first digit. -/
def digitFromEnd (text : Text) (i : Nat) : UInt8 := (digits text).reverse.getD i 48

/-- The last twelve digits of a text, with zeros on the left where there are fewer. -/
def lastTwelve (text : Text) : Text := (List.range 12).reverse.map (digitFromEnd text)

/-- The endpoint id that a device is meant to have. -/
def intendedId (oui serial : Text) : Text :=
  [111, 115, 58, 58] ++ oui.flatMap escaped ++ [45] ++ lastTwelve serial

/-- The escape of the character has a decimal digit. -/
def addsDigit (c : UInt8) : Bool := !isPlain safeChars c && (c / 16 ≤ 9 || c % 16 ≤ 9)

/-- The characters behind the last one whose escape has a digit. -/
def behindEscapes (text : Text) : Text := (text.reverse.takeWhile (!addsDigit ·)).reverse

/-- The start of the serial number for which there is room in its buffer. -/
def kept (serial : Text) : Text := fitting safeChars (maxDmShortValueLen - 1) serial

/-- The last twelve digits of the serial number are behind every escape that has a digit, or
there is none, and there are no digits for which there is no room. -/
def Undisturbed (serial : Text) : Prop :=
  (∀ c ∈ serial.drop (kept serial).length, isNumeric c = false) ∧
    ((∀ c ∈ kept serial, addsDigit c = false) ∨ 12 ≤ (digits (behindEscapes (kept serial))).length)

instance (serial : Text) : Decidable (Undisturbed serial) :=
  inferInstanceAs (Decidable (_ ∧ (_ ∨ _)))

/-- The escaped OUI fits in its buffer, and the whole id in the buffer for it. -/
def Roomy (len : Nat) (oui : Text) : Prop :=
  (oui.map (cells safeChars)).sum < maxDmShortValueLen ∧ (oui.map (cells safeChars)).sum + 17 < len

instance (len : Nat) (oui : Text) : Decidable (Roomy len oui) :=
  inferInstanceAs (Decidable (_ ∧ _))

/-- Every text that `GetDefaultEndpointID` writes fits in its buffer. -/
structure WithinBuffers (len : Nat) (oui serial : Text) : Prop where
  ouiEncoded : (percentEncoded oui).length < maxDmShortValueLen
  serialNumberEncoded : (percentEncoded serial).length < maxDmShortValueLen
  inputDigit : (digits (percentEncoded serial)).length < (percentEncoded serial).length + 1
  short : (serialNumberShort serial).length < 13
  buf : ∀ id, getDefaultEndpointID none len oui serial = .ok id → id.length < len

theorem percentEncoded_length (text : Text) : (percentEncoded text).length < maxDmShortValueLen :=
  Nat.lt_succ_of_le (encodeWithin_length 255 text)

theorem escaped_length (text : Text) :
    (text.flatMap escaped).length = (text.map (cells safeChars)).sum :=
  flatMap_encoded_length text

theorem percentEncoded_eq {oui : Text} (h : (oui.map (cells safeChars)).sum < maxDmShortValueLen) :
    percentEncoded oui = oui.flatMap escaped := by
  have hfits : (oui.map (cells safeChars)).sum ≤ maxDmShortValueLen - 1 := Nat.le_of_lt_succ h
  rw [percentEncoded, encodeWithin_eq, fitting_eq hfits]
  rfl

section Digits

variable {text other serial oui : Text} {len : Nat}

theorem lastTwelve_length (text : Text) : (lastTwelve text).length = 12 := by
  rw [lastTwelve, length_map, length_reverse, length_range]

theorem lastTwelve_congr (h : ∀ i < 12, digitFromEnd text i = digitFromEnd other i) :
    lastTwelve text = lastTwelve other := by
  rw [lastTwelve, lastTwelve, map_inj_left]
  intro i hi
  exact h i (List.mem_range.mp (List.mem_reverse.mp hi))

theorem lastTwelve_getElem (text : Text) (i : Nat) (h : i < (lastTwelve text).length) :
    (lastTwelve text)[i] = digitFromEnd text (11 - i) := by
  simp only [lastTwelve, getElem_map, getElem_reverse, getElem_range,
    length_range]

theorem digitFromEnd_of_lt {i : Nat} (h : i < (digits text).length) :
    digitFromEnd text i = (digits text)[(digits text).length - 1 - i] := by
  rw [digitFromEnd, getD_eq_getElem?_getD, getElem?_reverse h,
    getElem?_eq_getElem (by omega), Option.getD_some]

theorem digitFromEnd_of_le {i : Nat} (h : (digits text).length ≤ i) :
    digitFromEnd text i = 48 := by
  have hnone : (digits text).reverse[i]? = none := by
    rw [List.getElem?_eq_none_iff, length_reverse]
    exact h
  rw [digitFromEnd, getD_eq_getElem?_getD, hnone, Option.getD_none]

/-- The two formats of `ExtractDigitsFromSerialNumber` agree on what they print. -/
theorem extractDigits_eq (text : Text) : extractDigitsFromSerialNumber text 13 = lastTwelve text := by
  have hlength : (extractDigitsFromSerialNumber text 13).length = 12 := by
    rw [extractDigitsFromSerialNumber]
    split
    · rw [length_append, length_replicate]
      omega
    · rw [length_drop]
      omega
  apply ext_getElem
  · rw [hlength, lastTwelve_length]
  · intro i hi hi'
    rw [lastTwelve_getElem]
    rw [hlength] at hi
    by_cases hfew : (digits text).length < 12
    · simp only [extractDigitsFromSerialNumber, if_pos hfew, getElem_append,
        length_replicate, getElem_replicate]
      split
      · rw [digitFromEnd_of_le (by omega)]
      · rw [digitFromEnd_of_lt (by omega)]
        congr 1
        omega
    · simp only [extractDigitsFromSerialNumber, if_neg hfew, getElem_drop]
      rw [digitFromEnd_of_lt (by omega)]
      congr 1
      omega

theorem serialNumberShort_eq (serial : Text) :
    serialNumberShort serial = lastTwelve ((kept serial).flatMap escaped) := by
  rw [serialNumberShort, extractDigits_eq, percentEncoded, encodeWithin_eq]
  rfl

theorem serialNumberShort_length (serial : Text) : (serialNumberShort serial).length = 12 := by
  rw [serialNumberShort_eq, lastTwelve_length]

/-- Only the digits count. -/
theorem lastTwelve_of_digits (h : digits text = digits other) : lastTwelve text = lastTwelve other :=
  lastTwelve_congr fun i _ => by rw [digitFromEnd, digitFromEnd, h]

/-- The last twelve of a text are among those of its end. -/
theorem lastTwelve_append (front : Text) (h : 12 ≤ (digits text).length) :
    lastTwelve (front ++ text) = lastTwelve text := by
  apply lastTwelve_congr
  intro i hi
  have hlt : i < (digits text).reverse.length := by
    rw [length_reverse]
    omega
  have happend : (digits (front ++ text)).reverse = (digits text).reverse ++ (digits front).reverse := by
    rw [digits, filter_append, reverse_append]
    rfl
  rw [digitFromEnd, digitFromEnd, happend, getD_eq_getElem?_getD,
    getElem?_append_left hlt, getD_eq_getElem?_getD]

/-- The digits of an escape are letters where the nibbles are above nine. -/
theorem valueToHexDigit_letter {nibble : UInt8} (h : ¬ nibble ≤ 9) (hlt : nibble < 16) :
    isNumeric (valueToHexDigit false nibble) = false := by
  have hall : ∀ k : Fin 16, ¬ UInt8.ofNat k ≤ 9 →
      isNumeric (valueToHexDigit false (UInt8.ofNat k)) = false := by
    decide
  have hval := hall ⟨nibble.toNat, hlt⟩
  rw [show UInt8.ofNat (⟨nibble.toNat, hlt⟩ : Fin 16) = nibble from UInt8.ofNat_toNat] at hval
  exact hval h

theorem digits_escaped {c : UInt8} (h : addsDigit c = false) : digits (escaped c) = digits [c] := by
  cases hplain : isPlain safeChars c with
  | true => rw [escaped, encoded_plain hplain]
  | false =>
    obtain ⟨hhigh, hlow⟩ := nibbles_lt c
    simp only [addsDigit, hplain, Bool.not_false, Bool.true_and, Bool.or_eq_false_iff,
      decide_eq_false_iff_not] at h
    have hc : isNumeric c = false := by
      simp only [isPlain, isAlphaNumeric, Bool.or_eq_false_iff] at hplain
      exact hplain.1.2
    rw [escaped, encoded_escape hplain, digits, digits]
    simp [valueToHexDigit_letter h.1 hhigh, valueToHexDigit_letter h.2 hlow, hc,
      show isNumeric percent = false from rfl]

theorem digits_flatMap (h : ∀ c ∈ text, addsDigit c = false) :
    digits (text.flatMap escaped) = digits text := by
  induction text with
  | nil => rfl
  | cons c text ih =>
    have hc := digits_escaped (h c mem_cons_self)
    have hrest := ih fun d hd => h d (mem_cons_of_mem c hd)
    rw [digits] at hc hrest ⊢
    rw [flatMap_cons, filter_append, hc, hrest, digits, digits, ← filter_append]
    rfl

/-- An undisturbed serial number keeps its last digits. -/
theorem short_of_undisturbed (h : Undisturbed serial) :
    serialNumberShort serial = lastTwelve serial := by
  obtain ⟨hlost, hkept⟩ := h
  have htake : serial.take (kept serial).length = kept serial :=
    (List.prefix_iff_eq_take.mp (fitting_isPrefix _ serial)).symm
  have hdigits : digits serial = digits (kept serial) := by
    have hnone : digits (serial.drop (kept serial).length) = [] :=
      List.filter_eq_nil_iff.mpr fun c hc => by simp [hlost c hc]
    calc digits serial
        = digits (serial.take (kept serial).length ++ serial.drop (kept serial).length) := by
          rw [take_append_drop]
      _ = digits (kept serial) ++ digits (serial.drop (kept serial).length) := by
          rw [digits, filter_append, htake]
          rfl
      _ = digits (kept serial) := by rw [hnone, append_nil]
  rw [serialNumberShort_eq, lastTwelve_of_digits hdigits]
  rcases hkept with hnone | hmany
  · exact lastTwelve_of_digits (digits_flatMap hnone)
  · have hplain : ∀ c ∈ behindEscapes (kept serial), addsDigit c = false := by
      intro c hc
      simpa using mem_takeWhile_imp (List.mem_reverse.mp hc)
    have hsplit : kept serial =
        ((kept serial).reverse.dropWhile (!addsDigit ·)).reverse ++ behindEscapes (kept serial) := by
      rw [behindEscapes, ← reverse_append, takeWhile_append_dropWhile, reverse_reverse]
    have hescaped := digits_flatMap hplain
    rw [hsplit, flatMap_append, lastTwelve_append _ (by rwa [hescaped]),
      lastTwelve_append _ hmany]
    exact lastTwelve_of_digits hescaped

end Digits

section Ids

variable {oui serial : Text} {len : Nat}

theorem withinBuffers (hlen : 0 < len) (oui serial : Text) : WithinBuffers len oui serial := by
  constructor
  · exact percentEncoded_length oui
  · exact percentEncoded_length serial
  · exact Nat.lt_succ_of_le (length_filter_le _ _)
  · rw [serialNumberShort_length]
    omega
  · intro id hid
    cases hid
    rw [length_take]
    omega

theorem intendedId_length (oui serial : Text) :
    (intendedId oui serial).length = (oui.map (cells safeChars)).sum + 17 := by
  simp only [intendedId, length_append, escaped_length, lastTwelve_length, length_cons, length_nil]
  omega

/-- An id that is the intended one was cut nowhere. -/
theorem roomy_of_intended
    (h : getDefaultEndpointID none len oui serial = .ok (intendedId oui serial)) :
    Roomy len oui := by
  have hid := congrArg List.length (Except.ok.inj h)
  have hencoded := percentEncoded_length oui
  rw [intendedId_length, length_take] at hid
  simp only [length_append, serialNumberShort_length, length_cons, length_nil] at hid
  constructor
  · omega
  · omega

theorem id_of_roomy (h : Roomy len oui) (serial : Text) :
    getDefaultEndpointID none len oui serial =
      .ok ([111, 115, 58, 58] ++ oui.flatMap escaped ++ [45] ++ serialNumberShort serial) := by
  have hroom := h.2
  rw [getDefaultEndpointID, percentEncoded_eq h.1, take_of_length_le]
  simp only [length_append, escaped_length, serialNumberShort_length, length_cons, length_nil]
  omega

end Ids

/-- For an undisturbed serial number, the id is the intended one exactly when the OUI has room.
Two such devices of one OUI share an id only if their digits agree. The buffers suffice for every
OUI and every serial number. -/
theorem default_id_iff (len : Nat) (hlen : 0 < len) :
    (∀ oui serial : Text, WithinBuffers len oui serial) ∧
      (∀ oui serial : Text, Undisturbed serial →
        (getDefaultEndpointID none len oui serial = .ok (intendedId oui serial) ↔ Roomy len oui)) ∧
      ∀ oui serial other : Text, Roomy len oui → Undisturbed serial → Undisturbed other →
        getDefaultEndpointID none len oui serial = getDefaultEndpointID none len oui other →
        lastTwelve serial = lastTwelve other := by
  refine ⟨withinBuffers hlen, ?_, ?_⟩
  · intro oui serial hserial
    refine ⟨roomy_of_intended, fun h => ?_⟩
    rw [id_of_roomy h, intendedId, short_of_undisturbed hserial]
  · intro oui serial other hroomy hserial hother hsame
    rw [id_of_roomy hroomy, id_of_roomy hroomy, Except.ok.injEq,
      append_cancel_left_eq] at hsame
    rw [← short_of_undisturbed hserial, hsame, short_of_undisturbed hother]

/-- The OUI "0019C7" and the serial number "SN 0123456789AB123", whose space is escaped. -/
theorem default_id_iff_plain :
    getDefaultEndpointID none 256 [48, 48, 49, 57, 67, 55]
        [83, 78, 32, 48, 49, 50, 51, 52, 53, 54, 55, 56, 57, 65, 66, 49, 50, 51] =
      .ok (intendedId [48, 48, 49, 57, 67, 55]
        [83, 78, 32, 48, 49, 50, 51, 52, 53, 54, 55, 56, 57, 65, 66, 49, 50, 51]) :=
  ((default_id_iff 256 (by decide)).2.1 _ _ (by decide +kernel)).mpr (by decide)

/-- The serial numbers "AB 1" and "AB201" have different digits, and the devices share an id:
the space is escaped as "%20". -/
theorem space_adds_digits :
    getDefaultEndpointID none 256 [48, 48, 49, 57, 67, 55] [65, 66, 32, 49] ≠
        .ok (intendedId [48, 48, 49, 57, 67, 55] [65, 66, 32, 49]) ∧
      getDefaultEndpointID none 256 [48, 48, 49, 57, 67, 55] [65, 66, 32, 49] =
        getDefaultEndpointID none 256 [48, 48, 49, 57, 67, 55] [65, 66, 50, 48, 49] ∧
      lastTwelve [65, 66, 32, 49] ≠ lastTwelve [65, 66, 50, 48, 49] := by
  decide

end EndpointId
