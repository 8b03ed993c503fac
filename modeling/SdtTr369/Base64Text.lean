import Mathlib.Data.List.Basic
import Mathlib.Data.List.TakeWhile

/-!
# Base64 texts

The alphabet of base64, what groups of four characters give when padding is read as zero
bits, and the value that a text encodes, its padding taken into account.
-/

namespace Base64Text

open List

/-- The six bits of a character; padding stands for zero bits. -/
def sextet (c : Char) : Option Nat :=
  if 65 ≤ c.toNat ∧ c.toNat ≤ 90 then some (c.toNat - 65)
  else if 97 ≤ c.toNat ∧ c.toNat ≤ 122 then some (c.toNat - 97 + 26)
  else if 48 ≤ c.toNat ∧ c.toNat ≤ 57 then some (c.toNat - 48 + 52)
  else if c = '+' then some 62
  else if c = '/' then some 63
  else if c = '=' then some 0
  else none

/-- The three bytes of four sextets. -/
def threeBytes (a b c d : Nat) : List UInt8 :=
  [UInt8.ofNat (a * 4 + b / 16), UInt8.ofNat (b % 16 * 16 + c / 4), UInt8.ofNat (c % 4 * 64 + d)]

def groupBytes : List Nat → List UInt8
  | a :: b :: c :: d :: rest => threeBytes a b c d ++ groupBytes rest
  | _ => []

def sextets (text : List Char) : List Nat := text.map fun c => (sextet c).getD 0

/-- Groups of four characters of the alphabet. -/
def Grouped (text : List Char) : Prop :=
  text.length % 4 = 0 ∧ ∀ c ∈ text, (sextet c).isSome = true

instance (text : List Char) : Decidable (Grouped text) :=
  have : Decidable (∀ c ∈ text, (sextet c).isSome = true) := List.decidableBAll _ text
  inferInstanceAs (Decidable (_ ∧ _))

/-- Each group of four characters gives three bytes. -/
def decodeGroups (text : List Char) : Option (List UInt8) :=
  if Grouped text then some (groupBytes (sextets text)) else none

/-- The padding characters at the end of a text. -/
def padding (text : List Char) : Nat := (text.reverse.takeWhile (· = '=')).length

/-- At most two padding characters, and only at the end. -/
def Padded (text : List Char) : Prop :=
  text.count '=' ≤ 2 ∧ text.count '=' = padding text

instance (text : List Char) : Decidable (Padded text) :=
  inferInstanceAs (Decidable (_ ∧ _))

/-- The binary value that a text encodes. -/
def encodedValue (text : List Char) : Option (List UInt8) :=
  if Padded text then
    (decodeGroups text).map fun out => out.take (out.length - padding text)
  else none

section Groups

variable {text other : List Char} {x y : List Nat} {out value : List UInt8}

theorem sextet_lt {c : Char} {n : Nat} (h : sextet c = some n) : n < 64 := by
  simp only [sextet] at h
  grind

theorem sextets_lt (text : List Char) : ∀ n ∈ sextets text, n < 64 := by
  intro n hn
  obtain ⟨c, -, rfl⟩ := List.mem_map.mp hn
  cases hc : sextet c with
  | none => exact Nat.zero_lt_succ 63
  | some m => exact sextet_lt hc

theorem threeBytes_inj {a b c d a' b' c' d' : Nat} (ha : a < 64) (hb : b < 64) (hc : c < 64)
    (hd : d < 64) (ha' : a' < 64) (hb' : b' < 64) (hc' : c' < 64) (hd' : d' < 64)
    (h : threeBytes a b c d = threeBytes a' b' c' d') : a = a' ∧ b = b' ∧ c = c' ∧ d = d' := by
  have hbyte : ∀ m n : Nat, m < 256 → n < 256 → UInt8.ofNat m = UInt8.ofNat n → m = n := by
    intro m n hm hn hmn
    have hmod := congrArg UInt8.toNat hmn
    rw [UInt8.toNat_ofNat', UInt8.toNat_ofNat'] at hmod
    omega
  injection h with h1 h
  injection h with h2 h
  injection h with h3 _
  have e1 := hbyte _ _ (by omega) (by omega) h1
  have e2 := hbyte _ _ (by omega) (by omega) h2
  have e3 := hbyte _ _ (by omega) (by omega) h3
  omega

theorem groupBytes_length (x : List Nat) : (groupBytes x).length = x.length / 4 * 3 := by
  induction x using groupBytes.induct with
  | case1 a b c d rest ih =>
    simp only [groupBytes, threeBytes, length_append, length_cons, length_nil, ih]
    omega
  | case2 x hx =>
    match x with
    | [] => rfl
    | [_] | [_, _] | [_, _, _] => simp [groupBytes]
    | a :: b :: c :: d :: rest => exact absurd rfl (hx a b c d rest)

/-- Whole groups can be told from their bytes. -/
theorem groupBytes_inj (hx : ∀ n ∈ x, n < 64) (hy : ∀ n ∈ y, n < 64) (hlx : x.length % 4 = 0)
    (hly : y.length % 4 = 0) (h : groupBytes x = groupBytes y) : x = y := by
  have hlength : x.length = y.length := by
    have hbytes := congrArg List.length h
    rw [groupBytes_length, groupBytes_length] at hbytes
    omega
  induction x using groupBytes.induct generalizing y with
  | case1 a b c d rest ih =>
    match y with
    | [] | [_] | [_, _] | [_, _, _] =>
      simp only [length_cons, length_nil] at hlength
      omega
    | a' :: b' :: c' :: d' :: rest' =>
      simp only [groupBytes] at h
      obtain ⟨hthree, hrest⟩ := append_inj h rfl
      simp only [forall_mem_cons] at hx hy
      obtain ⟨rfl, rfl, rfl, rfl⟩ := threeBytes_inj hx.1 hx.2.1 hx.2.2.1 hx.2.2.2.1 hy.1 hy.2.1
        hy.2.2.1 hy.2.2.2.1 hthree
      simp only [length_cons] at hlx hly hlength
      have heq : rest = rest' :=
        ih hx.2.2.2.2 hy.2.2.2.2 (by omega) (by omega) hrest (by omega)
      rw [heq]
  | case2 x hfew =>
    match x with
    | [] => exact (List.length_eq_zero_iff.mp hlength.symm).symm
    | [_] | [_, _] | [_, _, _] => simp only [length_cons, length_nil] at hlx; omega
    | a :: b :: c :: d :: rest => exact absurd rfl (hfew a b c d rest)

theorem decodeGroups_eq_some :
    decodeGroups text = some out ↔ Grouped text ∧ out = groupBytes (sextets text) := by
  simp only [decodeGroups]
  split
  · next h =>
    rw [Option.some.injEq]
    constructor
    · intro heq
      exact ⟨h, heq.symm⟩
    · intro heq
      exact heq.2.symm
  · next h =>
    constructor
    · intro heq
      cases heq
    · intro heq
      exact absurd heq.1 h

theorem sextets_length (text : List Char) : (sextets text).length = text.length :=
  length_map _

theorem decodeGroups_length (h : decodeGroups text = some out) :
    out.length = text.length / 4 * 3 := by
  rw [(decodeGroups_eq_some.mp h).2, groupBytes_length, sextets_length]

/-- Two texts decode to the same bytes exactly when their characters stand for the same bits. -/
theorem decodeGroups_eq_iff (htext : Grouped text) (hother : Grouped other) :
    decodeGroups text = decodeGroups other ↔ sextets text = sextets other := by
  simp only [decodeGroups, if_pos htext, if_pos hother, Option.some.injEq]
  constructor
  · intro h
    apply groupBytes_inj (sextets_lt text) (sextets_lt other) _ _ h
    · rw [sextets_length]
      exact htext.1
    · rw [sextets_length]
      exact hother.1
  · intro h
    rw [h]

theorem padding_le_length (text : List Char) : padding text ≤ text.length := by
  rw [padding, ← text.length_reverse]
  exact (List.takeWhile_prefix _).length_le

theorem encodedValue_eq_some :
    encodedValue text = some value ↔ Padded text ∧ Grouped text ∧
      value = (groupBytes (sextets text)).take ((groupBytes (sextets text)).length - padding text) := by
  simp only [encodedValue]
  split
  · next hpadded =>
    rw [Option.map_eq_some_iff]
    constructor
    · intro h
      obtain ⟨out, hout, rfl⟩ := h
      obtain ⟨hgrouped, rfl⟩ := decodeGroups_eq_some.mp hout
      exact ⟨hpadded, hgrouped, rfl⟩
    · intro h
      exact ⟨_, decodeGroups_eq_some.mpr ⟨h.2.1, rfl⟩, h.2.2.symm⟩
  · next hpadded =>
    constructor
    · intro h
      cases h
    · intro h
      exact absurd h.1 hpadded

/-- A value has as many bytes fewer as there is padding. -/
theorem encodedValue_length (h : encodedValue text = some value) :
    value.length + padding text = text.length / 4 * 3 := by
  obtain ⟨hpadded, hgrouped, rfl⟩ := encodedValue_eq_some.mp h
  have hle := padding_le_length text
  have hfew := hpadded.1
  have hcount := hpadded.2
  have hfour := hgrouped.1
  rw [length_take, groupBytes_length, sextets_length]
  omega

end Groups

end Base64Text
