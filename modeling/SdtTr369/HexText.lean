import Mathlib.Data.Nat.Digits.Lemmas

/-!
# Octets in hexadecimal

Numbers given by their digits from the left, in a base, and the octets that pairs of hexadecimal
digits stand for.
-/

namespace HexText

open List

def hexChar (n : Nat) : Char := (Nat.digitChar n).toUpper

/-- The value of digits, the first of them being the highest. -/
def number (base : Nat) (ds : List Nat) : Nat := Nat.ofDigits base ds.reverse

theorem number_cons (base d : Nat) (ds : List Nat) :
    number base (d :: ds) = base ^ ds.length * d + number base ds := by
  rw [number, reverse_cons, Nat.ofDigits_append, Nat.ofDigits_singleton, length_reverse,
    Nat.add_comm]
  rfl

theorem number_lt {base : Nat} {ds : List Nat} (hbase : 1 < base) (h : ∀ d ∈ ds, d < base) :
    number base ds < base ^ ds.length := by
  have hlt := Nat.ofDigits_lt_base_pow_length hbase
    (show ∀ d ∈ ds.reverse, d < base from fun d hd => h d (List.mem_reverse.mp hd))
  rwa [length_reverse] at hlt

theorem number_zeros (base n : Nat) (ds : List Nat) :
    number base (List.replicate n 0 ++ ds) = number base ds := by
  induction n with
  | zero => rfl
  | succ n ih => rw [replicate_succ, cons_append, number_cons, ih]; simp

/-- A first digit that is not zero makes the number large. -/
theorem number_ge {base d : Nat} (ds : List Nat) (h : 0 < d) :
    base ^ ds.length ≤ number base (d :: ds) := by
  have hmul : base ^ ds.length * 1 ≤ base ^ ds.length * d := Nat.mul_le_mul_left _ h
  rw [number_cons]
  omega

/-- The octets of an even number of hexadecimal digits. -/
def octets : List Nat → List Nat
  | a :: b :: ns => (16 * a + b) :: octets ns
  | _ => []

theorem octets_length (ns : List Nat) : (octets ns).length = ns.length / 2 := by
  induction ns using octets.induct with
  | case1 a b ns ih =>
    rw [octets, length_cons, ih, length_cons, length_cons]
    omega
  | case2 ns hno =>
    cases ns with
    | nil => rfl
    | cons a ns =>
      cases ns with
      | nil => simp [octets]
      | cons b ns => exact (hno a b ns rfl).elim

variable {ns : List Nat}

theorem number_octets (h : ns.length % 2 = 0) : number 256 (octets ns) = number 16 ns := by
  induction ns using octets.induct with
  | case1 a b ns ih =>
    rw [length_cons, length_cons] at h
    obtain ⟨k, hk⟩ : ∃ k, ns.length = 2 * k := ⟨ns.length / 2, by omega⟩
    have hlen : (octets ns).length = k := by
      rw [octets_length, hk]
      omega
    have hpow : 256 ^ k = 16 ^ (2 * k) := by rw [Nat.pow_mul]
    rw [octets, number_cons, number_cons, number_cons, ih (by omega), length_cons, hlen, hk,
      hpow, Nat.pow_succ]
    ring
  | case2 ns hno =>
    cases ns with
    | nil => rfl
    | cons a ns =>
      cases ns with
      | nil => cases h
      | cons b ns => exact (hno a b ns rfl).elim

theorem octets_lt (h : ∀ n ∈ ns, n < 16) : ∀ o ∈ octets ns, o < 256 := by
  induction ns using octets.induct with
  | case1 a b ns ih =>
    obtain ⟨ha, hrest⟩ := List.forall_mem_cons.mp h
    obtain ⟨hb, hns⟩ := List.forall_mem_cons.mp hrest
    rw [octets, forall_mem_cons]
    exact ⟨by omega, ih hns⟩
  | case2 ns hno =>
    rw [octets]
    · simp
    · exact hno

/-- An octet as two digits. -/
def octetChars (o : Nat) : List Char := [hexChar (o / 16), hexChar (o % 16)]

/-- Octets with a colon between them. -/
def octetText (os : List Nat) : List Char := [':'].intercalate (os.map octetChars)

/-- The characters of a text two by two. -/
def pairs : List Char → List (List Char)
  | a :: b :: s => [a, b] :: pairs s
  | _ => []

theorem pairs_hexChar (h : ∀ n ∈ ns, n < 16) :
    pairs (ns.map hexChar) = (octets ns).map octetChars := by
  induction ns using octets.induct with
  | case1 a b ns ih =>
    obtain ⟨ha, hrest⟩ := List.forall_mem_cons.mp h
    obtain ⟨hb, hns⟩ := List.forall_mem_cons.mp hrest
    have hhigh : (16 * a + b) / 16 = a := by omega
    have hlow : (16 * a + b) % 16 = b := by omega
    rw [map_cons, map_cons, pairs, octets, map_cons, octetChars, hhigh, hlow, ih hns]
  | case2 ns hno =>
    cases ns with
    | nil => rfl
    | cons a ns =>
      cases ns with
      | nil => rfl
      | cons b ns => exact (hno a b ns rfl).elim

theorem mem_pairs {s : List Char} {c : Char} (h : s.length % 2 = 0) (hc : c ∈ s) :
    ∃ p ∈ pairs s, c ∈ p := by
  induction s using pairs.induct with
  | case1 a b s ih =>
    rw [length_cons, length_cons] at h
    rw [pairs]
    by_cases hfirst : c ∈ [a, b]
    · exact ⟨[a, b], mem_cons_self, hfirst⟩
    · have hrest : c ∈ s := by
        have hmem : c ∈ [a, b] ++ s := hc
        exact (List.mem_append.mp hmem).resolve_left hfirst
      obtain ⟨p, hp, hcp⟩ := ih (by omega) hrest
      exact ⟨p, mem_cons_of_mem _ hp, hcp⟩
  | case2 s hno =>
    cases s with
    | nil => cases hc
    | cons a s =>
      cases s with
      | nil => cases h
      | cons b s => exact (hno a b s rfl).elim

theorem hexChar_ne (n : Nat) (h : n < 16) : hexChar n ≠ '-' := by
  have hall : ∀ k : Fin 16, hexChar k ≠ '-' := by decide
  exact hall ⟨n, h⟩

theorem intercalate_cons_flatMap {α : Type} (sep x : List α) (xs : List (List α)) :
    sep.intercalate (x :: xs) = x ++ xs.flatMap (sep ++ ·) := by
  induction xs generalizing x with
  | nil => simp
  | cons y ys ih => rw [intercalate_cons_cons, ih, flatMap_cons]; simp

theorem mem_intercalate {c d : Char} {ts : List (List Char)} (hcd : c ≠ d) :
    c ∈ [d].intercalate ts ↔ ∃ t ∈ ts, c ∈ t := by
  induction ts with
  | nil => simp
  | cons t ts ih =>
    cases ts with
    | nil => simp
    | cons t' ts =>
      rw [intercalate_cons_cons, mem_append, mem_append, ih, mem_singleton]
      simp [hcd]

/-- There is no sign in the text of octets. -/
theorem sign_not_mem_octetText {os : List Nat} (h : ∀ o ∈ os, o < 256) : '-' ∉ octetText os := by
  rw [octetText, mem_intercalate (by decide)]
  rintro ⟨t, ht, hmem⟩
  obtain ⟨o, ho, rfl⟩ := List.mem_map.mp ht
  have hlt := h o ho
  rw [octetChars, mem_pair] at hmem
  cases hmem with
  | inl heq => exact hexChar_ne (o / 16) (by omega) heq.symm
  | inr heq => exact hexChar_ne (o % 16) (by omega) heq.symm

end HexText
