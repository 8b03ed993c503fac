import SdtTr369.CBuffers
import SdtTr369.HexText
import SdtTr369.UspTypes

/-!
# Serial numbers of certificates

`ParseCert_SerialNumber` pads the text of `BN_bn2hex` in a buffer of 128 cells and then takes as
many characters out of it as the text had. What OpenSSL answers is a parameter. An access outside
the buffer or the result leaves no outcome.
-/

namespace SerialNumbers

open UspTypes CBuffers HexText List

/-- The calls to OpenSSL. `NULL` is no answer. -/
structure OpenSsl (Cert : Type) where
  /-- `X509_get_serialNumber` -/
  getSerialNumber : Cert → Option Int
  /-- `ASN1_INTEGER_to_BN` -/
  integerToBn : Int → Option Int
  /-- `BN_bn2hex` -/
  bn2hex : Int → Option Text
  /-- Whether `OPENSSL_malloc` finds the room. -/
  malloc : Nat → Bool

/-- The size of `octet_buf`. -/
def octetBufLen : Nat := 128

def leadingZeros (numNibbles : Nat) : Nat :=
  if numNibbles < 4 then 4 - numNibbles else if numNibbles % 2 = 1 then 1 else 0

def numOctets (serialNumber : Text) : Nat :=
  (serialNumber.length + leadingZeros serialNumber.length) / 2

/-- `octet_buf` after `memset` and `strncpy`, on whatever was in its cells. -/
def octetBuf (stack : Nat → Char) (serialNumber : Text) : Buffer :=
  let zeros := leadingZeros serialNumber.length
  let buf := List.replicate 4 '0' ++ ((List.range octetBufLen).map stack).drop 4
  buf.take zeros ++ fillString (buf.drop zeros) serialNumber

/-- The loop over the octets, from octet `i` on, with the cells in front of `p` and those from
`q` on. A result of `size` cells takes the terminator as well. -/
def formatOctets (size : Nat) : Nat → Nat → Text → Buffer → Option Text
  | 0, _, p, _ => if p.length < size then some p else none
  | n + 1, i, p, a :: b :: q =>
    let p := if i ≠ 0 then p ++ [':'] else p
    if (p ++ [a, b]).length ≤ size then formatOctets size n (i + 1) (p ++ [a, b]) q else none
  | _ + 1, _, _, _ => none

variable {Cert : Type}

/-- `ParseCert_SerialNumber` -/
def parseCertSerialNumber (ssl : OpenSsl Cert) (stack : Nat → Char) (cert : Cert) :
    Option (Except Err (Option Text)) :=
  match ssl.getSerialNumber cert with
  | none => some (.error .internalError)
  | some asn1Number =>
    match ssl.integerToBn asn1Number with
    | none => some (.error .internalError)
    | some bigNum =>
      match ssl.bn2hex bigNum with
      -- the code is USP_ERR_OK here, and no text is returned
      | none => some (.ok none)
      | some serialNumber =>
        let size := numOctets serialNumber * 3
        if ssl.malloc size = false then some (.error .internalError)
        else (formatOctets size (numOctets serialNumber) 0 [] (octetBuf stack serialNumber)).map
          fun text => .ok (some text)

/-! ## The text of a number -/

/-- What `BN_bn2hex` is documented to return: the digits with a sign in front of them. A leading
zero makes whole octets. -/
structure IsHexOf (v : Int) (nibbles : List Nat) (text : Text) : Prop where
  text : text = (if v < 0 then ['-'] else []) ++ nibbles.map hexChar
  lt : ∀ n ∈ nibbles, n < 16
  value : number 16 nibbles = v.natAbs
  ne_nil : nibbles ≠ []
  leading : ∀ rest, nibbles = 0 :: rest → rest = [] ∨ rest.length % 2 = 1 ∧ rest.head? ≠ some 0

/-- OpenSSL reads the serial number, and prints it. -/
structure Serves (ssl : OpenSsl Cert) (cert : Cert) (v : Int) (text : Text) : Prop where
  serial : ssl.getSerialNumber cert = some v
  number : ssl.integerToBn v = some v
  hex : ssl.bn2hex v = some text
  isHex : ∃ nibbles, IsHexOf v nibbles text

/-- All accesses are inside, and a text that is returned is that of at least two octets, which
are those of the number and have no further zero in front of them. A number with a sign is at
least to have a text of octets. -/
def Right (v : Int) (out : Option (Except Err (Option Text))) : Prop :=
  out ≠ none ∧ ∀ r, out = some (.ok r) → ∃ os, r = some (octetText os) ∧ 2 ≤ os.length ∧
    (∀ o ∈ os, o < 256) ∧
      (0 ≤ v → (number 256 os : Int) = v ∧ (2 < os.length → os.head? ≠ some 0))

/-! ## The loop -/

section Loop

variable {size n i : Nat} {p d rest : Text}

theorem formatOctets_behind (hd : d.length = 2 * n) (hi : i ≠ 0) (hsize : p.length + 3 * n < size) :
    formatOctets size n i p (d ++ rest) = some (p ++ (pairs d).flatMap (':' :: ·)) := by
  induction n generalizing i p d with
  | zero =>
    obtain rfl := List.length_eq_zero_iff.mp hd
    simp [formatOctets, pairs]
    omega
  | succ n ih =>
    obtain ⟨a, b, d, rfl⟩ : ∃ a b d', d = a :: b :: d' := by
      cases d with
      | nil => simp at hd
      | cons a d =>
        cases d with
        | nil => simp at hd; omega
        | cons b d => exact ⟨a, b, d, rfl⟩
    rw [length_cons, length_cons] at hd
    have hroom : (p ++ [':'] ++ [a, b]).length = p.length + 3 := by simp
    rw [cons_append, cons_append, formatOctets]
    simp only [if_pos hi]
    rw [if_pos (by omega), ih (by omega) (Nat.succ_ne_zero i) (by omega), pairs,
      flatMap_cons]
    simp

theorem formatOctets_eq (hd : d.length = 2 * n) (hn : 0 < n) :
    formatOctets (n * 3) n 0 [] (d ++ rest) = some ([':'].intercalate (pairs d)) := by
  obtain ⟨k, rfl⟩ : ∃ k, n = k + 1 := ⟨n - 1, by omega⟩
  cases d with
  | nil => simp at hd
  | cons a d =>
    cases d with
    | nil => simp at hd; omega
    | cons b d =>
      rw [length_cons, length_cons] at hd
      have hlen : ([a, b] : Text).length = 2 := rfl
      rw [cons_append, cons_append, formatOctets, pairs,
        intercalate_cons_flatMap]
      simp only [ne_eq, not_true_eq_false, if_false, nil_append]
      rw [if_pos (by omega), formatOctets_behind (by omega) (by decide) (by omega)]
      rfl

/-- A buffer that is too short is read behind its end. -/
theorem formatOctets_short {q : Buffer} (h : q.length < 2 * n) :
    formatOctets size n i p q = none := by
  induction n generalizing i p q with
  | zero => omega
  | succ n ih =>
    cases q with
    | nil => rfl
    | cons a q =>
      cases q with
      | nil => rfl
      | cons b q =>
        rw [length_cons, length_cons] at h
        rw [formatOctets, ih (by omega)]
        exact ite_self none

end Loop

/-! ## The buffer -/

section Padding

variable {text : Text}

theorem leadingZeros_le (n : Nat) : leadingZeros n ≤ 4 := by
  rw [leadingZeros]
  split
  · omega
  · split <;> omega

/-- More than two octets come with one zero at most. -/
theorem leadingZeros_le_one (n : Nat) (h : 4 < n + leadingZeros n) : leadingZeros n ≤ 1 := by
  rw [leadingZeros] at h ⊢
  split
  · next hshort =>
    rw [if_pos hshort] at h
    omega
  · split <;> omega

theorem padded_even (n : Nat) : (n + leadingZeros n) % 2 = 0 := by
  rw [leadingZeros]
  split
  · omega
  · split <;> omega

theorem padded_ge (n : Nat) : 4 ≤ n + leadingZeros n := by
  rw [leadingZeros]
  split
  · omega
  · split <;> omega

theorem numOctets_eq (text : Text) :
    text.length + leadingZeros text.length = 2 * numOctets text := by
  have heven := padded_even text.length
  rw [numOctets]
  omega

theorem octetBuf_length (stack : Nat → Char) (text : Text) :
    (octetBuf stack text).length = octetBufLen := by
  have hzeros := leadingZeros_le text.length
  simp [octetBuf, fillString, octetBufLen]
  omega

/-- The padded text is at the start of the buffer, where it fits. -/
theorem octetBuf_eq (stack : Nat → Char)
    (h : text.length + leadingZeros text.length ≤ octetBufLen) :
    ∃ rest, octetBuf stack text =
      (List.replicate (leadingZeros text.length) '0' ++ text) ++ rest := by
  have hzeros := leadingZeros_le text.length
  have hlen : octetBufLen = 128 := rfl
  obtain ⟨k, hk⟩ : ∃ k, 4 = leadingZeros text.length + k := Nat.exists_eq_add_of_le hzeros
  have hset : ∀ rest : Buffer, List.replicate 4 '0' ++ rest =
      List.replicate (leadingZeros text.length) '0' ++ (List.replicate k '0' ++ rest) := by
    intro rest
    rw [← append_assoc, replicate_append_replicate, ← hk]
  have htake : ∀ rest : Buffer,
      (List.replicate (leadingZeros text.length) '0' ++ rest).take (leadingZeros text.length) =
        List.replicate (leadingZeros text.length) '0' := fun rest => by simp
  have hdrop : ∀ rest : Buffer,
      (List.replicate (leadingZeros text.length) '0' ++ rest).drop (leadingZeros text.length) =
        rest := fun rest => by simp
  have hfill : ∀ buf : Buffer, text.length ≤ buf.length → fillString buf text =
      text ++ List.replicate (buf.length - text.length) nul := by
    intro buf hbuf
    rw [fillString, take_of_length_le hbuf]
  rw [octetBuf]
  simp only [hset, htake, hdrop]
  rw [hfill]
  · exact ⟨_, (append_assoc ..).symm⟩
  · simp
    omega

end Padding

/-! ## The octets -/

section Octets

variable {v : Int} {nibbles : List Nat} {text : Text}

theorem isHexOf_text (h : IsHexOf v nibbles text) (hv : 0 ≤ v) : text = nibbles.map hexChar := by
  rw [h.text, if_neg (by omega), nil_append]

/-- All digits but two count. -/
theorem isHexOf_ge (h : IsHexOf v nibbles text) {n : Nat} (hlen : 2 * n < nibbles.length)
    (hn : 0 < n) : 16 ^ (2 * n) ≤ v.natAbs := by
  have hmono : ∀ m, 2 * n ≤ m → 16 ^ (2 * n) ≤ 16 ^ m := fun m hm =>
    Nat.pow_le_pow_right (by decide) hm
  rw [← h.value]
  cases nibbles with
  | nil => exact (h.ne_nil rfl).elim
  | cons d rest =>
    rw [length_cons] at hlen
    by_cases hd : d = 0
    · subst hd
      have hlead := h.leading rest rfl
      cases rest with
      | nil => simp at hlen; omega
      | cons e rest =>
        obtain ⟨hodd, hhead⟩ := hlead.resolve_left (cons_ne_nil e rest)
        rw [length_cons] at hlen hodd
        have he : 0 < e := Nat.pos_of_ne_zero fun hzero => hhead (congrArg some hzero)
        have hge := @number_ge 16 e rest he
        have hzeros := number_zeros 16 1 (e :: rest)
        rw [show 0 :: e :: rest = List.replicate 1 0 ++ e :: rest from rfl, hzeros]
        exact (hmono _ (by omega)).trans hge
    · exact (hmono _ (by omega)).trans (number_ge rest (Nat.pos_of_ne_zero hd))

/-- Small numbers have at most 128 digits with their padding, and large ones more. -/
theorem padded_fits_iff (h : IsHexOf v nibbles text) (hv : 0 ≤ v) :
    text.length + leadingZeros text.length ≤ octetBufLen ↔ v < 2 ^ 512 := by
  have hlen : text.length = nibbles.length := by rw [isHexOf_text h hv, length_map]
  have heven := padded_even text.length
  have hbuf : octetBufLen = 128 := rfl
  have hpow : (16 : Nat) ^ 128 = 2 ^ 512 := by decide +kernel
  constructor
  · intro hle
    have hlt := number_lt (by decide) h.lt
    have hmono : 16 ^ nibbles.length ≤ 16 ^ 128 := Nat.pow_le_pow_right (by decide) (by omega)
    rw [h.value] at hlt
    omega
  · intro hlt
    by_contra hmore
    have hfew := leadingZeros_le text.length
    have hone := leadingZeros_le_one text.length (by omega)
    have hge := isHexOf_ge h (n := 64) (by omega) (by decide)
    omega

theorem octets_padded (h : IsHexOf v nibbles text) (hv : 0 ≤ v) :
    ∃ os, [':'].intercalate (pairs (List.replicate (leadingZeros text.length) '0' ++ text)) =
        octetText os ∧ 2 ≤ os.length ∧ (∀ o ∈ os, o < 256) ∧
      (number 256 os : Int) = v ∧ (2 < os.length → os.head? ≠ some 0) := by
  have htext := isHexOf_text h hv
  have hlen : text.length = nibbles.length := by rw [htext, length_map]
  have heven := padded_even text.length
  have hmin := padded_ge text.length
  let padded := List.replicate (leadingZeros text.length) 0 ++ nibbles
  have hpadded : List.replicate (leadingZeros text.length) '0' ++ text = padded.map hexChar := by
    rw [map_append, map_replicate, ← htext]
    rfl
  have hlt : ∀ n ∈ padded, n < 16 := by
    intro n hn
    cases List.mem_append.mp hn with
    | inl hzero =>
      rw [eq_of_mem_replicate hzero]
      decide
    | inr hmem => exact h.lt n hmem
  have hlength : padded.length = leadingZeros text.length + text.length := by
    rw [length_append, length_replicate, hlen]
  have hoctets := octets_length padded
  have hvalue : number 256 (octets padded) = v.natAbs := by
    rw [number_octets (by omega), number_zeros, h.value]
  refine ⟨octets padded, ?_, by omega, octets_lt hlt, by omega, fun hmore => ?_⟩
  · rw [hpadded, pairs_hexChar hlt, octetText]
  · -- a zero in front would leave too few octets for the digits
    intro hhead
    obtain ⟨os, hos⟩ : ∃ os, octets padded = 0 :: os := by
      cases hcut : octets padded with
      | nil => rw [hcut] at hhead; cases hhead
      | cons o os =>
        rw [hcut] at hhead
        cases hhead
        exact ⟨os, rfl⟩
    have hall := octets_lt hlt
    rw [hos] at hvalue hall hmore hoctets
    rw [length_cons] at hmore hoctets
    have hsmall := number_lt (by decide) (List.forall_mem_cons.mp hall).2
    have hone := leadingZeros_le_one text.length (by omega)
    have hge := isHexOf_ge h (n := os.length) (by omega) (by omega)
    have hpow : 16 ^ (2 * os.length) = 256 ^ os.length := Nat.pow_mul 16 2 os.length
    rw [number_cons] at hvalue
    omega

end Octets

variable {ssl : OpenSsl Cert} {cert : Cert}

/-- Where the padded text fits, it is the pairs of its digits that are returned. -/
theorem parseCertSerialNumber_fits {v : Int} {text : Text} (h : Serves ssl cert v text)
    (stack : Nat → Char) (hroom : ssl.malloc (numOctets text * 3) = true)
    (hfits : text.length + leadingZeros text.length ≤ octetBufLen) :
    parseCertSerialNumber ssl stack cert = some (.ok (some ([':'].intercalate
      (pairs (List.replicate (leadingZeros text.length) '0' ++ text))))) := by
  have hnum := numOctets_eq text
  have hmin := padded_ge text.length
  obtain ⟨rest, hbuf⟩ := octetBuf_eq stack hfits
  rw [parseCertSerialNumber, h.serial]
  dsimp only
  rw [h.number]
  dsimp only
  rw [h.hex]
  dsimp only
  rw [hroom, hbuf, formatOctets_eq _ (by omega)]
  · rfl
  · rw [length_append, length_replicate]
    omega

theorem parseCertSerialNumber_long {v : Int} {text : Text} (h : Serves ssl cert v text)
    (stack : Nat → Char) (hroom : ssl.malloc (numOctets text * 3) = true)
    (hlong : octetBufLen < text.length + leadingZeros text.length) :
    parseCertSerialNumber ssl stack cert = none := by
  have hnum := numOctets_eq text
  rw [parseCertSerialNumber, h.serial]
  dsimp only
  rw [h.number]
  dsimp only
  rw [h.hex]
  dsimp only
  rw [hroom, formatOctets_short]
  · rfl
  · rw [octetBuf_length]
    omega

theorem parseCertSerialNumber_full {v : Int} {text : Text} (h : Serves ssl cert v text)
    (stack : Nat → Char) (hroom : ssl.malloc (numOctets text * 3) = false) :
    parseCertSerialNumber ssl stack cert = some (.error .internalError) := by
  rw [parseCertSerialNumber, h.serial]
  dsimp only
  rw [h.number]
  dsimp only
  rw [h.hex]
  exact if_pos hroom

/-- A sign is copied as if it was a digit. -/
theorem sign_mem_padded {v : Int} {nibbles : List Nat} {text : Text} (h : IsHexOf v nibbles text)
    (hv : v < 0) :
    '-' ∈ [':'].intercalate (pairs (List.replicate (leadingZeros text.length) '0' ++ text)) := by
  have heven := padded_even text.length
  have hmem : '-' ∈ List.replicate (leadingZeros text.length) '0' ++ text := by
    rw [mem_append, h.text, if_pos hv]
    exact .inr mem_cons_self
  rw [mem_intercalate (by decide)]
  exact mem_pairs (by rw [length_append, length_replicate]; omega) hmem

theorem parseCertSerialNumber_right_iff {ssl : OpenSsl Cert} {cert : Cert} {v : Int} {text : Text}
    (h : Serves ssl cert v text) (stack : Nat → Char) :
    Right v (parseCertSerialNumber ssl stack cert) ↔
      ssl.malloc (numOctets text * 3) = false ∨ 0 ≤ v ∧ v < 2 ^ 512 := by
  obtain ⟨nibbles, hhex⟩ := h.isHex
  cases hroom : ssl.malloc (numOctets text * 3) with
  | false =>
    rw [parseCertSerialNumber_full h stack hroom]
    exact iff_of_true ⟨by simp, by simp⟩ (.inl rfl)
  | true =>
    constructor
    · intro ⟨hinside, hoctets⟩
      right
      have hfits : text.length + leadingZeros text.length ≤ octetBufLen := by
        by_contra hlong
        exact hinside (parseCertSerialNumber_long h stack hroom (by omega))
      obtain ⟨os, hos, _, hlt, _⟩ := hoctets _ (parseCertSerialNumber_fits h stack hroom hfits)
      have hv : 0 ≤ v := by
        by_contra hneg
        have hsign := sign_mem_padded hhex (by omega)
        rw [Option.some.inj hos] at hsign
        exact sign_not_mem_octetText hlt hsign
      exact ⟨hv, (padded_fits_iff hhex hv).mp hfits⟩
    · intro hcond
      have hv := hcond.resolve_left Bool.noConfusion
      have hfits := (padded_fits_iff hhex hv.1).mpr hv.2
      obtain ⟨os, hos, htwo, hlt, hvalue, hhead⟩ := octets_padded hhex hv.1
      rw [parseCertSerialNumber_fits h stack hroom hfits, hos]
      constructor
      · exact Option.some_ne_none _
      · intro r hr
        cases hr
        exact ⟨os, rfl, htwo, hlt, fun _ => ⟨hvalue, hhead⟩⟩

/-- What OpenSSL answers for one certificate. -/
def oneSerial (v : Int) (text : Text) : OpenSsl Unit where
  getSerialNumber _ := some v
  integerToBn n := some n
  bn2hex n := if n = v then some text else none
  malloc _ := true

theorem serves_oneSerial {v : Int} {nibbles : List Nat} {text : Text} (h : IsHexOf v nibbles text) :
    Serves (oneSerial v text) () v text where
  serial := rfl
  number := rfl
  hex := if_pos rfl
  isHex := ⟨nibbles, h⟩

theorem isHexOf_300 : IsHexOf 300 [0, 1, 2, 12] "012C".toList where
  text := by decide
  lt := by decide
  value := by decide
  ne_nil := by decide
  leading := by
    rintro rest ⟨⟩
    exact .inr (by decide)

theorem parseCertSerialNumber_right_iff_300 :
    Right 300 (parseCertSerialNumber (oneSerial 300 "012C".toList) (fun _ => '?') ()) ↔
      (oneSerial 300 "012C".toList).malloc (numOctets "012C".toList * 3) = false ∨
        0 ≤ (300 : Int) ∧ (300 : Int) < 2 ^ 512 :=
  parseCertSerialNumber_right_iff (serves_oneSerial isHexOf_300) _

theorem isHexOf_minus_one : IsHexOf (-1) [0, 1] "-01".toList where
  text := by decide
  lt := by decide
  value := by decide
  ne_nil := by decide
  leading := by
    rintro rest ⟨⟩
    exact .inr (by decide)

/-- The serial number -1 becomes `0-:01`. -/
theorem parseCertSerialNumber_negative :
    Serves (oneSerial (-1) "-01".toList) () (-1) "-01".toList ∧
      parseCertSerialNumber (oneSerial (-1) "-01".toList) (fun _ => '?') () =
        some (.ok (some "0-:01".toList)) ∧
      ¬ Right (-1) (parseCertSerialNumber (oneSerial (-1) "-01".toList) (fun _ => '?') ()) := by
  have hrun : parseCertSerialNumber (oneSerial (-1) "-01".toList) (fun _ => '?') () =
      some (.ok (some "0-:01".toList)) := by decide +kernel
  refine ⟨serves_oneSerial isHexOf_minus_one, hrun, fun hright => ?_⟩
  obtain ⟨os, hos, _, hlt, _⟩ := hright.2 _ hrun
  have hsign : '-' ∈ octetText os := by
    rw [← Option.some.inj hos]
    decide
  exact sign_not_mem_octetText hlt hsign

end SerialNumbers
