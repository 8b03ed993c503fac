import Mathlib.Data.List.Lex
import Mathlib.Data.List.Sort
import Mathlib.Data.Prod.Lex
import SdtTr369.CBuffers
import SdtTr369.Numerals
import SdtTr369.UspTypes

/-!
# Natural string order

`NaturalStrCmp`, which `STR_VECTOR_Sort` hands to `qsort`. The comparison looks for the first
difference, and then at the digits that follow there. It is the lexicographic order of what stands
at each place: the number of digits from there on, and the character.
-/

namespace NaturalOrder

open UspTypes DecimalText Numerals CBuffers List

/-- A `char` as an `int`. Whether it has a sign depends on the platform. -/
def charInt (signed : Bool) (c : Char) : Int :=
  if signed = true ∧ 128 ≤ c.toNat ∧ c.toNat < 256 then c.toNat - 256 else c.toNat

/-- `TEXT_UTILS_CountConsecutiveDigits` -/
def countConsecutiveDigits (p : Str) : Int := (p.takeWhile isNumeric).length

/-- The character that a pointer is at. -/
def charAt (p : Str) : Char := p.headD nul

/-- `NaturalStrCmp` -/
def naturalStrCmp (signed : Bool) : Str → Str → Int
  | c1 :: s1, c2 :: s2 =>
    if c1 = c2 then naturalStrCmp signed s1 s2
    else
      let delta := countConsecutiveDigits (c1 :: s1) - countConsecutiveDigits (c2 :: s2)
      if delta ≠ 0 then delta else charInt signed c1 - charInt signed c2
  | s1, s2 => charInt signed (charAt s1) - charInt signed (charAt s2)

/-! ## Characters -/

section Characters

variable {signed : Bool} {c d : Char}

theorem charInt_inj (h : charInt signed c = charInt signed d) : c = d := by
  have hnat : c.toNat = d.toNat := by
    simp only [charInt] at h
    split at h <;> split at h <;> omega
  exact Char.toNat_inj.mp hnat

theorem charInt_nul : charInt signed nul = 0 := by cases signed <;> rfl

theorem charInt_ne_zero (h : c ≠ nul) : charInt signed c ≠ 0 := fun hzero =>
  h (charInt_inj (hzero.trans charInt_nul.symm))

theorem charInt_digit (h : isNumeric c = true) : charInt signed c = c.toNat := by
  have hrange := isDigit_iff.mp h
  exact if_neg (by omega)

theorem countConsecutiveDigits_cons (s : Str) : countConsecutiveDigits (c :: s) =
    if isNumeric c then 1 + countConsecutiveDigits s else 0 := by
  simp only [countConsecutiveDigits, takeWhile_cons]
  split
  · rw [length_cons]
    omega
  · rfl

theorem countConsecutiveDigits_nonneg (s : Str) : 0 ≤ countConsecutiveDigits s :=
  Int.natCast_nonneg _

end Characters

/-! ## The order -/

abbrev Key := Int ×ₗ Int

/-- What stands at a place. -/
def key (signed : Bool) (s : Str) : Key :=
  toLex (countConsecutiveDigits s, charInt signed (charAt s))

/-- The keys of all places up to the terminator. -/
def keys (signed : Bool) : Str → List Key
  | [] => [key signed []]
  | c :: s => key signed (c :: s) :: keys signed s

section Order

variable {signed : Bool}

theorem keys_eq (s : Str) : ∃ rest, keys signed s = key signed s :: rest := by
  cases s with
  | nil => exact ⟨[], rfl⟩
  | cons c s => exact ⟨keys signed s, rfl⟩

theorem key_lt_iff (s t : Str) : key signed s < key signed t ↔
    countConsecutiveDigits s < countConsecutiveDigits t ∨
      countConsecutiveDigits s = countConsecutiveDigits t ∧
        charInt signed (charAt s) < charInt signed (charAt t) := Prod.Lex.toLex_lt_toLex

theorem keys_lt_of_key {s t : Str} (h : key signed s < key signed t) :
    keys signed s < keys signed t := by
  obtain ⟨rest, hs⟩ : ∃ rest, keys signed s = key signed s :: rest := keys_eq s
  obtain ⟨rest', ht⟩ : ∃ rest', keys signed t = key signed t :: rest' := keys_eq t
  rw [hs, ht]
  exact List.cons_lt_cons_iff.mpr (.inl h)

theorem key_ne {s t : Str} (h : charAt s ≠ charAt t) : key signed s ≠ key signed t := fun heq =>
  h (charInt_inj (congrArg (fun k : Key => (ofLex k).2) heq))

theorem keys_lt_iff_of_ne {s t : Str} (h : charAt s ≠ charAt t) :
    keys signed s < keys signed t ↔ key signed s < key signed t := by
  constructor
  · intro hlt
    have hne : key signed s ≠ key signed t := key_ne h
    cases lt_or_gt_of_ne hne with
    | inl hkey => exact hkey
    | inr hkey => exact absurd hlt (lt_asymm (keys_lt_of_key hkey))
  · exact keys_lt_of_key

/-- Behind the same character the keys are in the order that they have there. -/
theorem keys_cons_lt_iff (c : Char) (s t : Str) :
    keys signed (c :: s) < keys signed (c :: t) ↔ keys signed s < keys signed t := by
  have hcount : ∀ u, countConsecutiveDigits (c :: u) =
      if isNumeric c then 1 + countConsecutiveDigits u else 0 := countConsecutiveDigits_cons
  rw [keys, keys, cons_lt_cons_iff, key_lt_iff]
  by_cases hc : isNumeric c = true
  · obtain hlt | heq | hgt := lt_trichotomy (countConsecutiveDigits s) (countConsecutiveDigits t)
    · have hkeys : keys signed s < keys signed t :=
        keys_lt_of_key ((key_lt_iff s t).mpr (.inl hlt))
      have hfirst : countConsecutiveDigits (c :: s) < countConsecutiveDigits (c :: t) := by
        rw [hcount, hcount, if_pos hc, if_pos hc]
        omega
      exact iff_of_true (.inl (.inl hfirst)) hkeys
    · have hsame : countConsecutiveDigits (c :: s) = countConsecutiveDigits (c :: t) := by
        rw [hcount, hcount, heq]
      simp [key, hsame, charAt]
    · have hkeys : keys signed t < keys signed s :=
        keys_lt_of_key ((key_lt_iff t s).mpr (.inl hgt))
      have hfirst : countConsecutiveDigits (c :: t) < countConsecutiveDigits (c :: s) := by
        rw [hcount, hcount, if_pos hc, if_pos hc]
        omega
      refine iff_of_false ?_ (lt_asymm hkeys)
      rintro ((hlt | ⟨heq, -⟩) | ⟨heq, -⟩)
      · omega
      · omega
      · have := congrArg (fun k : Key => (ofLex k).1) heq
        exact absurd this hfirst.ne'
  · have hsame : countConsecutiveDigits (c :: s) = countConsecutiveDigits (c :: t) := by
      rw [hcount, hcount, if_neg hc, if_neg hc]
    simp [key, hsame, charAt]

/-- At the first difference the comparison is that of the keys there. -/
theorem naturalStrCmp_of_ne {s t : Str} (h : charAt s ≠ charAt t) :
    naturalStrCmp signed s t < 0 ↔ key signed s < key signed t := by
  have hnil : countConsecutiveDigits [] = 0 := rfl
  have hpos : ∀ {c u}, countConsecutiveDigits (c :: u) ≠ 0 → 0 < charInt signed c := by
    intro c u hne
    rw [countConsecutiveDigits_cons] at hne
    by_cases hc : isNumeric c = true
    · rw [charInt_digit hc]
      have := isDigit_iff.mp hc
      omega
    · exact absurd (if_neg hc) hne
  rw [key_lt_iff]
  cases s with
  | nil =>
    cases t with
    | nil => exact absurd rfl h
    | cons d t =>
      have hcount := countConsecutiveDigits_nonneg (d :: t)
      have hd := @hpos d t
      have hcmp : naturalStrCmp signed [] (d :: t) = charInt signed nul - charInt signed d := rfl
      have hfirst : charAt [] = nul := rfl
      have hsecond : charAt (d :: t) = d := rfl
      rw [hcmp, hfirst, hsecond, charInt_nul, hnil]
      omega
  | cons c s =>
    cases t with
    | nil =>
      have hcount := countConsecutiveDigits_nonneg (c :: s)
      have hc := @hpos c s
      have hcmp : naturalStrCmp signed (c :: s) [] = charInt signed c - charInt signed nul := rfl
      have hfirst : charAt (c :: s) = c := rfl
      have hsecond : charAt [] = nul := rfl
      rw [hcmp, hfirst, hsecond, charInt_nul, hnil]
      omega
    | cons d t =>
      have hne : c ≠ d := h
      have hfirst : charAt (c :: s) = c := rfl
      have hsecond : charAt (d :: t) = d := rfl
      rw [naturalStrCmp, if_neg hne, hfirst, hsecond]
      dsimp only
      split <;> omega

/-- The comparison decides the order of the keys. -/
theorem naturalStrCmp_neg_iff {s t : Str} (hs : nul ∉ s) (ht : nul ∉ t) :
    naturalStrCmp signed s t < 0 ↔ keys signed s < keys signed t := by
  induction s generalizing t with
  | nil =>
    cases t with
    | nil => simp [naturalStrCmp]
    | cons d t =>
      have hne : charAt [] ≠ charAt (d :: t) := by
        rintro (rfl : nul = d)
        exact ht mem_cons_self
      rw [naturalStrCmp_of_ne hne, keys_lt_iff_of_ne hne]
  | cons c s ih =>
    by_cases hne : charAt (c :: s) = charAt t
    · cases t with
      | nil =>
        obtain rfl : c = nul := hne
        exact absurd mem_cons_self hs
      | cons d t =>
        obtain rfl : c = d := hne
        have hs' : nul ∉ s := fun hmem => hs (mem_cons_of_mem _ hmem)
        have ht' : nul ∉ t := fun hmem => ht (mem_cons_of_mem _ hmem)
        rw [naturalStrCmp, if_pos rfl, ih hs' ht', keys_cons_lt_iff]
    · rw [naturalStrCmp_of_ne hne, keys_lt_iff_of_ne hne]

theorem naturalStrCmp_swap (s t : Str) : naturalStrCmp signed t s = -naturalStrCmp signed s t := by
  induction s generalizing t with
  | nil =>
    cases t with
    | nil => simp [naturalStrCmp]
    | cons d t => exact (Int.neg_sub _ _).symm
  | cons c s ih =>
    cases t with
    | nil => exact (Int.neg_sub _ _).symm
    | cons d t =>
      by_cases h : c = d
      · rw [naturalStrCmp, naturalStrCmp, if_pos h, if_pos h.symm, ih]
      · rw [naturalStrCmp, naturalStrCmp, if_neg h, if_neg (Ne.symm h)]
        dsimp only
        split <;> split <;> omega

theorem naturalStrCmp_eq_zero {s t : Str} (hs : nul ∉ s) (ht : nul ∉ t) :
    naturalStrCmp signed s t = 0 ↔ s = t := by
  induction s generalizing t with
  | nil =>
    cases t with
    | nil => simp [naturalStrCmp]
    | cons d t =>
      have hd : charInt signed d ≠ 0 := charInt_ne_zero fun heq => ht (heq ▸ mem_cons_self)
      have hcmp : naturalStrCmp signed [] (d :: t) = charInt signed nul - charInt signed d := rfl
      rw [hcmp, charInt_nul]
      exact iff_of_false (by omega) (by simp)
  | cons c s ih =>
    cases t with
    | nil =>
      have hc : charInt signed c ≠ 0 := charInt_ne_zero fun heq => hs (heq ▸ mem_cons_self)
      have hcmp : naturalStrCmp signed (c :: s) [] = charInt signed c - charInt signed nul := rfl
      rw [hcmp, charInt_nul]
      exact iff_of_false (by omega) (by simp)
    | cons d t =>
      by_cases h : c = d
      · have hs' : nul ∉ s := fun hmem => hs (mem_cons_of_mem _ hmem)
        have ht' : nul ∉ t := fun hmem => ht (mem_cons_of_mem _ hmem)
        rw [naturalStrCmp, if_pos h, ih hs' ht', h, cons_inj_right]
      · have hne : charInt signed c ≠ charInt signed d := fun heq => h (charInt_inj heq)
        rw [naturalStrCmp, if_neg h]
        refine iff_of_false ?_ fun heq => h (List.cons.inj heq).1
        dsimp only
        split <;> omega

/-! ## Numbers -/

theorem countConsecutiveDigits_append {a r : Str} (ha : ∀ c ∈ a, isNumeric c = true)
    (hr : isNumeric (charAt r) = false) : countConsecutiveDigits (a ++ r) = a.length := by
  have hnone : r.takeWhile isNumeric = [] := by
    cases r with
    | nil => rfl
    | cons c r => exact takeWhile_cons_of_neg (by simpa [charAt] using hr)
  rw [countConsecutiveDigits, takeWhile_append_of_pos ha, hnone, append_nil]

theorem naturalStrCmp_append (front s t : Str) :
    naturalStrCmp signed (front ++ s) (front ++ t) = naturalStrCmp signed s t := by
  induction front with
  | nil => rfl
  | cons c front ih => rw [cons_append, cons_append, naturalStrCmp, if_pos rfl, ih]

/-- Runs of as many digits are in the order of their values. -/
theorem naturalStrCmp_digits {a b r r' : Str} (ha : ∀ c ∈ a, isNumeric c = true)
    (hb : ∀ c ∈ b, isNumeric c = true) (hr : isNumeric (charAt r) = false)
    (hr' : isNumeric (charAt r') = false) (hlen : a.length = b.length)
    (hlt : natValue a < natValue b) : naturalStrCmp signed (a ++ r) (b ++ r') < 0 := by
  induction a generalizing b with
  | nil =>
    obtain rfl := List.length_eq_zero_iff.mp hlen.symm
    exact absurd hlt (lt_irrefl _)
  | cons c a ih =>
    cases b with
    | nil => cases hlen
    | cons d b =>
      obtain ⟨hc, ha'⟩ := List.forall_mem_cons.mp ha
      obtain ⟨hd, hb'⟩ := List.forall_mem_cons.mp hb
      have hlen' : a.length = b.length := Nat.succ.inj hlen
      by_cases h : c = d
      · subst h
        rw [natValue_cons, natValue_cons, hlen'] at hlt
        rw [cons_append, cons_append, naturalStrCmp, if_pos rfl]
        exact ih ha' hb' hlen' (by omega)
      · have hcounts : countConsecutiveDigits (c :: (a ++ r)) =
            countConsecutiveDigits (d :: (b ++ r')) := by
          rw [← cons_append, ← cons_append, countConsecutiveDigits_append ha hr,
            countConsecutiveDigits_append hb hr', hlen]
        have hdigits : digit c < digit d :=
          digit_lt_of_natValue hb' (fun heq => h (digit_inj hc hd heq)) hlen' hlt.le
        rw [cons_append, cons_append, naturalStrCmp, if_neg h]
        simp only [hcounts, Int.sub_self, ne_eq, not_true_eq_false, if_false, charInt_digit hc,
          charInt_digit hd]
        rw [digit_eq, digit_eq] at hdigits
        omega

theorem naturalStrCmp_of_count {s t : Str} (hs : nul ∉ s) (ht : nul ∉ t)
    (h : countConsecutiveDigits s < countConsecutiveDigits t) : naturalStrCmp signed s t < 0 :=
  (naturalStrCmp_neg_iff hs ht).mpr (keys_lt_of_key ((key_lt_iff s t).mpr (.inl h)))

/-- Behind `front` stands a number, and no further digit. -/
def NumberAt (front : Str) (n : Nat) (s : Str) : Prop :=
  ∃ behind, s = front ++ (natDigits n ++ behind) ∧ isNumeric (charAt behind) = false

theorem naturalStrCmp_numbers {front : Str} {n m : Nat} {s t : CString}
    (hs : NumberAt front n s) (ht : NumberAt front m t) (h : n < m) :
    naturalStrCmp signed s t < 0 := by
  obtain ⟨behind, hs, hbehind⟩ := hs
  obtain ⟨behind', ht, hbehind'⟩ := ht
  have hnul : nul ∉ natDigits n ++ behind := fun hmem =>
    s.property (hs ▸ mem_append_right _ hmem)
  have hnul' : nul ∉ natDigits m ++ behind' := fun hmem =>
    t.property (ht ▸ mem_append_right _ hmem)
  have hdigits : ∀ k, ∀ c ∈ natDigits k, isNumeric c = true := natDigits_digits
  have hpos : 0 < (natDigits m).length := length_pos_of_ne_nil (natDigits_ne_nil m)
  have hmlt : m < 10 ^ (natDigits m).length :=
    (natDigits_length_le_iff hpos).mp (le_refl _)
  have hlen : (natDigits n).length ≤ (natDigits m).length :=
    (natDigits_length_le_iff hpos).mpr (h.trans hmlt)
  rw [hs, ht, naturalStrCmp_append]
  cases hlen.lt_or_eq with
  | inl hshort =>
    refine naturalStrCmp_of_count hnul hnul' ?_
    rw [countConsecutiveDigits_append (hdigits n) hbehind,
      countConsecutiveDigits_append (hdigits m) hbehind']
    exact_mod_cast hshort
  | inr hsame =>
    refine naturalStrCmp_digits (hdigits n) (hdigits m) hbehind hbehind' hsame ?_
    rwa [natValue_natDigits, natValue_natDigits]

end Order

/-! ## Sorting -/

section Sorting

variable (signed : Bool)

/-- What `qsort` leaves: the same entries, none in front of one that it compares greater than. -/
structure QSorts (cmp : Str → Str → Int) (sv out : List CString) : Prop where
  perm : out.Perm sv
  pairwise : out.Pairwise fun s t : CString => cmp s t ≤ 0

/-- `STR_VECTOR_Sort` -/
def strVectorSort (sv : List CString) : List CString :=
  sv.mergeSort fun s t => decide (naturalStrCmp signed s t ≤ 0)

/-- No path stands behind one with a greater number in the same place. -/
def InstanceOrder (out : List CString) : Prop :=
  out.Pairwise fun s t : CString => ∀ front n m, NumberAt front n s → NumberAt front m t → n ≤ m

/-- The comparison is a strict total order, that of the numbers where two strings differ in
numbers, and the order of a sorted vector is the only one. -/
structure Orders : Prop where
  zero : ∀ s t : CString, naturalStrCmp signed s t = 0 ↔ s = t
  antisymm : ∀ s t : CString, naturalStrCmp signed s t < 0 ↔ 0 < naturalStrCmp signed t s
  trans : ∀ s t u : CString, naturalStrCmp signed s t < 0 → naturalStrCmp signed t u < 0 →
    naturalStrCmp signed s u < 0
  numbers : ∀ front n m (s t : CString), NumberAt front n s → NumberAt front m t → n ≠ m →
    (naturalStrCmp signed s t < 0 ↔ n < m)
  sorts : ∀ sv, QSorts (naturalStrCmp signed) sv (strVectorSort signed sv)
  instances : ∀ sv out, QSorts (naturalStrCmp signed) sv out → InstanceOrder out
  unique : ∀ sv sv' out out', QSorts (naturalStrCmp signed) sv out →
    QSorts (naturalStrCmp signed) sv' out' → sv.Perm sv' → out = out'

variable {signed} {s t u : CString}

theorem cmp_zero : naturalStrCmp signed s t = 0 ↔ s = t :=
  (naturalStrCmp_eq_zero s.property t.property).trans Subtype.ext_iff.symm

theorem cmp_antisymm : naturalStrCmp signed s t < 0 ↔ 0 < naturalStrCmp signed t s := by
  rw [naturalStrCmp_swap s.val t.val]
  omega

theorem cmp_trans (h : naturalStrCmp signed s t < 0) (h' : naturalStrCmp signed t u < 0) :
    naturalStrCmp signed s u < 0 := by
  rw [naturalStrCmp_neg_iff s.property t.property] at h
  rw [naturalStrCmp_neg_iff t.property u.property] at h'
  exact (naturalStrCmp_neg_iff s.property u.property).mpr (h.trans h')

theorem cmp_le_trans (h : naturalStrCmp signed s t ≤ 0) (h' : naturalStrCmp signed t u ≤ 0) :
    naturalStrCmp signed s u ≤ 0 := by
  cases h.lt_or_eq with
  | inl hlt =>
    cases h'.lt_or_eq with
    | inl hlt' => exact (cmp_trans hlt hlt').le
    | inr heq => rwa [← cmp_zero.mp heq]
  | inr heq => rwa [cmp_zero.mp heq]

theorem cmp_numbers {front : Str} {n m : Nat} (hs : NumberAt front n s) (ht : NumberAt front m t)
    (hne : n ≠ m) : naturalStrCmp signed s t < 0 ↔ n < m := by
  constructor
  · intro hlt
    by_contra hge
    have hgt : naturalStrCmp signed t s < 0 := naturalStrCmp_numbers ht hs (by omega)
    rw [cmp_antisymm] at hlt
    omega
  · exact naturalStrCmp_numbers hs ht

theorem strVectorSort_sorts (sv : List CString) :
    QSorts (naturalStrCmp signed) sv (strVectorSort signed sv) := by
  constructor
  · exact mergeSort_perm _ _
  · have htotal : ∀ s t : CString, (decide (naturalStrCmp signed s t ≤ 0) ||
        decide (naturalStrCmp signed t s ≤ 0)) = true := by
      intro s t
      have hswap : naturalStrCmp signed t s = -naturalStrCmp signed s t := naturalStrCmp_swap _ _
      rw [Bool.or_eq_true, decide_eq_true_eq, decide_eq_true_eq]
      omega
    have htrans : ∀ s t u : CString, decide (naturalStrCmp signed s t ≤ 0) = true →
        decide (naturalStrCmp signed t u ≤ 0) = true →
        decide (naturalStrCmp signed s u ≤ 0) = true := fun s t u h h' =>
      decide_eq_true (cmp_le_trans (of_decide_eq_true h) (of_decide_eq_true h'))
    have hsorted := pairwise_mergeSort htrans htotal sv
    exact hsorted.imp of_decide_eq_true

theorem instanceOrder_of_sorts {sv out : List CString}
    (h : QSorts (naturalStrCmp signed) sv out) : InstanceOrder out := by
  refine h.pairwise.imp fun {s t} hle front n m hs ht => ?_
  by_contra hgt
  have hlt : naturalStrCmp signed t s < 0 := naturalStrCmp_numbers ht hs (by omega)
  rw [cmp_antisymm] at hlt
  omega

theorem sorts_unique {sv sv' out out' : List CString} (h : QSorts (naturalStrCmp signed) sv out)
    (h' : QSorts (naturalStrCmp signed) sv' out') (hperm : sv.Perm sv') : out = out' := by
  refine List.Perm.eq_of_pairwise ?_ h.pairwise h'.pairwise
    ((h.perm.trans hperm).trans h'.perm.symm)
  intro s t _ _ hst hts
  have hswap : naturalStrCmp signed t s = -naturalStrCmp signed s t := naturalStrCmp_swap _ _
  have hzero : naturalStrCmp signed s t = 0 := by omega
  exact cmp_zero.mp hzero

end Sorting

/-- Whether or not `char` has a sign. -/
theorem naturalStrCmp_orders (signed : Bool) : Orders signed := by
  constructor
  · exact fun s t => cmp_zero
  · exact fun s t => cmp_antisymm
  · exact fun s t u => cmp_trans
  · exact fun front n m s t => cmp_numbers
  · exact strVectorSort_sorts
  · exact fun sv out => instanceOrder_of_sorts
  · exact fun sv sv' out out' => sorts_unique

end NaturalOrder
