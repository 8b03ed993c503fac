import SdtTr369.Numerals
import SdtTr369.PathText

/-!
# Instance strings

`DM_PRIV_ParseInstanceString` with the array it stores into and the `int` it counts in. A number
that does not fit an `int`, and a store behind the array, leave no outcome. The loop takes the
groups between the dots one after the other; an empty group is a zero, and is left out at the end.
-/

namespace InstanceStrings

open UspTypes DecimalText Numerals PathCodec PathText List

/-- `INT_MAX` -/
def intMax : Nat := 2147483647

/-- The loop of `ParseInstanceInteger`. An outcome without a number is `NULL`. -/
def parseInteger (value : Nat) : Str → Option (Option (Nat × Str))
  | [] => some (some (value, []))
  | c :: p =>
    if c = '.' then some (some (value, p))
    else if c.isDigit = false then some none
    else if value * 10 + digit c ≤ intMax then parseInteger (value * 10 + digit c) p
    else none

variable {value v : Nat} {g : Str} {gs : List Str}

theorem parseInteger_length {c : Char} {s rest : Str}
    (h : parseInteger value (c :: s) = some (some (v, rest))) : rest.length ≤ s.length := by
  induction s generalizing value c with
  | nil =>
    simp only [parseInteger] at h
    split at h
    · simp_all
    · split at h
      · cases h
      · split at h <;> simp_all
  | cons d s ih =>
    rw [parseInteger] at h
    split at h
    · simp_all
    · split at h
      · cases h
      · split at h
        · exact Nat.le_succ_of_le (ih h)
        · cases h

/-- The loop of `DM_PRIV_ParseInstanceString` with the numbers stored so far. -/
def parseLoop (inst : List Nat) : Str → Option (Except Err (List Nat))
  | [] => some (.ok inst)
  | c :: s =>
    match _h : parseInteger 0 (c :: s) with
    | none => none
    | some none => some (.error .internalError)
    | some (some (v, rest)) =>
      if inst.length < maxDmInstanceOrder then parseLoop (inst ++ [v]) rest else none
termination_by s => s.length
decreasing_by
  exact Nat.lt_succ_of_le (parseInteger_length _h)

/-- `DM_PRIV_ParseInstanceString` -/
def parseInstances (instances : Str) : Option (Except Err (List Nat)) := parseLoop [] instances

/-! ## Groups -/

/-- A group that is read as a number. -/
structure Reads (group : Str) : Prop where
  digits : ∀ c ∈ group, c.isDigit = true
  fits : natValue group ≤ intMax

/-- A group with a character that is no digit, and that is come to. -/
def Stops (group : Str) : Prop :=
  ∃ front c behind, group = front ++ c :: behind ∧ Reads front ∧ c.isDigit = false

/-- What the loop of `ParseInstanceInteger` makes of a group. -/
def readGroup (value : Nat) : Str → Option (Option Nat)
  | [] => some (some value)
  | c :: g =>
    if c.isDigit = false then some none
    else if value * 10 + digit c ≤ intMax then readGroup (value * 10 + digit c) g
    else none

theorem parseInteger_group (value : Nat) {t : Str} (hg : '.' ∉ g)
    (ht : t = [] ∨ ∃ t', t = '.' :: t') :
    parseInteger value (g ++ t) = (readGroup value g).map (Option.map (·, t.tail)) := by
  induction g generalizing value with
  | nil => rcases ht with rfl | ⟨t', rfl⟩ <;> simp [parseInteger, readGroup]
  | cons c g ih =>
    obtain ⟨hc, hg'⟩ := not_or.mp (List.mem_cons.not.mp hg)
    rw [cons_append, parseInteger, readGroup, if_neg (Ne.symm hc)]
    by_cases hdigit : c.isDigit = false
    · rw [if_pos hdigit, if_pos hdigit]
      rfl
    · rw [if_neg hdigit, if_neg hdigit]
      split
      · exact ih _ hg'
      · rfl

theorem ofDigitChars_digit (value : Nat) (c : Char) (g : Str) :
    Nat.ofDigitChars 10 (c :: g) value = Nat.ofDigitChars 10 g (value * 10 + digit c) := by
  rw [Nat.ofDigitChars_cons, Nat.mul_comm]
  rfl

theorem readGroup_some_iff (hvalue : value ≤ intMax) :
    readGroup value g = some (some v) ↔
      (∀ c ∈ g, c.isDigit = true) ∧ Nat.ofDigitChars 10 g value ≤ intMax ∧
        Nat.ofDigitChars 10 g value = v := by
  induction g generalizing value with
  | nil => simp [readGroup, hvalue]
  | cons c g ih =>
    rw [readGroup, ofDigitChars_digit, forall_mem_cons]
    by_cases hdigit : c.isDigit = true
    · rw [if_neg (by simp [hdigit])]
      by_cases hfits : value * 10 + digit c ≤ intMax
      · rw [if_pos hfits, ih hfits]
        simp [hdigit]
      · have hge := ofDigitChars_ge g (value * 10 + digit c)
        rw [if_neg hfits]
        refine iff_of_false (by simp) ?_
        rintro ⟨-, hle, -⟩
        omega
    · simp [hdigit]

theorem readGroup_none_iff (hvalue : value ≤ intMax) :
    readGroup value g = some none ↔
      ∃ front c behind, g = front ++ c :: behind ∧ (∀ c ∈ front, c.isDigit = true) ∧
        Nat.ofDigitChars 10 front value ≤ intMax ∧ c.isDigit = false := by
  induction g generalizing value with
  | nil => simp [readGroup]
  | cons c g ih =>
    rw [readGroup]
    by_cases hdigit : c.isDigit = false
    · rw [if_pos hdigit]
      exact iff_of_true rfl ⟨[], c, g, rfl, by simp, hvalue, hdigit⟩
    · rw [if_neg hdigit]
      have hc : c.isDigit = true := by simpa using hdigit
      constructor
      · intro h
        split at h
        · rename_i hfits
          obtain ⟨front, d, behind, rfl, hfront, hle, hd⟩ := (ih hfits).mp h
          exact ⟨c :: front, d, behind, rfl, List.forall_mem_cons.mpr ⟨hc, hfront⟩,
            by rwa [ofDigitChars_digit], hd⟩
        · cases h
      · rintro ⟨front, d, behind, heq, hfront, hle, hd⟩
        cases front with
        | nil =>
          obtain ⟨rfl, rfl⟩ := List.cons.inj heq
          exact absurd hd hdigit
        | cons e front =>
          obtain ⟨rfl, rfl⟩ := List.cons.inj heq
          rw [ofDigitChars_digit] at hle
          have hfits : value * 10 + digit c ≤ intMax := (ofDigitChars_ge front _).trans hle
          rw [if_pos hfits]
          exact (ih hfits).mpr
            ⟨front, d, behind, rfl, (List.forall_mem_cons.mp hfront).2, hle, hd⟩

theorem reads_iff : readGroup 0 g = some (some v) ↔ Reads g ∧ natValue g = v := by
  rw [readGroup_some_iff (Nat.zero_le _)]
  exact ⟨fun ⟨hdigits, hle, heq⟩ => ⟨⟨hdigits, hle⟩, heq⟩, fun ⟨h, heq⟩ => ⟨h.1, h.2, heq⟩⟩

theorem stops_iff : readGroup 0 g = some none ↔ Stops g := by
  rw [readGroup_none_iff (Nat.zero_le _)]
  constructor
  · rintro ⟨front, c, behind, heq, hdigits, hle, hc⟩
    exact ⟨front, c, behind, heq, ⟨hdigits, hle⟩, hc⟩
  · rintro ⟨front, c, behind, heq, hfront, hc⟩
    exact ⟨front, c, behind, heq, hfront.digits, hfront.fits, hc⟩

/-! ## The loop over the groups -/

/-- The loop of `DM_PRIV_ParseInstanceString` over the groups of the string. -/
def loopGroups (inst : List Nat) : List Str → Option (Except Err (List Nat))
  | [] => some (.ok inst)
  | g :: gs =>
    if g = [] ∧ gs = [] then some (.ok inst)
    else match readGroup 0 g with
      | none => none
      | some none => some (.error .internalError)
      | some (some v) =>
        if inst.length < maxDmInstanceOrder then loopGroups (inst ++ [v]) gs else none

variable (inst : List Nat) (s : Str) {out : List Nat}

/-- A turn of the loop takes a group. -/
theorem parseLoop_group {t : Str} (hg : '.' ∉ g) (ht : t = [] ∨ ∃ t', t = '.' :: t')
    (hne : g ++ t ≠ []) :
    parseLoop inst (g ++ t) = match readGroup 0 g with
      | none => none
      | some none => some (.error .internalError)
      | some (some v) =>
        if inst.length < maxDmInstanceOrder then parseLoop (inst ++ [v]) t.tail else none := by
  have hread := parseInteger_group 0 hg ht
  cases hs : g ++ t with
  | nil => exact absurd hs hne
  | cons c s =>
    rw [hs] at hread
    rw [parseLoop]
    split
    · rename_i hnone
      rw [hnone] at hread
      cases hgroup : readGroup 0 g with
      | none => rfl
      | some o => cases o <;> rw [hgroup] at hread <;> cases hread
    · rename_i hnull
      rw [hnull] at hread
      cases hgroup : readGroup 0 g with
      | none => rw [hgroup] at hread; cases hread
      | some o =>
        cases o with
        | none => rfl
        | some v => rw [hgroup] at hread; cases hread
    · rename_i v rest hsome
      rw [hsome] at hread
      cases hgroup : readGroup 0 g with
      | none => rw [hgroup] at hread; cases hread
      | some o =>
        cases o with
        | none => rw [hgroup] at hread; cases hread
        | some v' =>
          rw [hgroup] at hread
          obtain ⟨rfl, rfl⟩ := Prod.mk.inj (Option.some.inj (Option.some.inj hread))
          rfl

theorem parseLoop_eq : parseLoop inst s = loopGroups inst (segments s) := by
  induction hn : s.length using Nat.strong_induction_on generalizing inst s with
  | _ n ih =>
    obtain ⟨g, t, rfl, hg, ht⟩ := cut_first s
    by_cases hnil : g ++ t = []
    · obtain ⟨rfl, rfl⟩ := List.append_eq_nil_iff.mp hnil
      simp [segments_single, parseLoop, loopGroups]
    · rw [parseLoop_group inst hg ht hnil]
      obtain rfl | ⟨t', rfl⟩ := ht
      · have hgne : g ≠ [] := by simpa using hnil
        simp [segments_single hg, parseLoop, loopGroups, hgne]
      · have hlen : t'.length < n := by
          rw [length_append, length_cons] at hn
          omega
        have hrest := fun inst => ih t'.length hlen inst t' rfl
        rw [segments_nodot hg, loopGroups, if_neg (by simp [segments_ne_nil])]
        simp only [tail_cons, hrest]

/-- The groups that are stored. -/
def stored : List Str → List Str
  | [] => []
  | g :: gs => if g = [] ∧ gs = [] then [] else g :: stored gs

theorem loopGroups_ok_iff {inst : List Nat} (hinst : inst.length ≤ maxDmInstanceOrder) :
    loopGroups inst gs = some (.ok out) ↔ (∀ g ∈ stored gs, Reads g) ∧
      inst.length + (stored gs).length ≤ maxDmInstanceOrder ∧
        inst ++ (stored gs).map natValue = out := by
  induction gs generalizing inst with
  | nil => simp [loopGroups, stored, hinst]
  | cons g gs ih =>
    rw [loopGroups, stored]
    by_cases hlast : g = [] ∧ gs = []
    · rw [if_pos hlast, if_pos hlast]
      simp [hinst]
    · rw [if_neg hlast, if_neg hlast, forall_mem_cons, length_cons, map_cons]
      cases hgroup : readGroup 0 g with
      | none =>
        refine iff_of_false (by simp) ?_
        rintro ⟨⟨hg, -⟩, -⟩
        cases hgroup.symm.trans (reads_iff.mpr ⟨hg, rfl⟩)
      | some o =>
        cases o with
        | none =>
          refine iff_of_false (by simp) ?_
          rintro ⟨⟨hg, -⟩, -⟩
          cases hgroup.symm.trans (reads_iff.mpr ⟨hg, rfl⟩)
        | some v =>
          obtain ⟨hreads, hv⟩ := reads_iff.mp hgroup
          dsimp only
          by_cases hroom : inst.length < maxDmInstanceOrder
          · rw [if_pos hroom, ih (by rw [length_append, length_singleton]; omega), ← hv]
            simp only [hreads, true_and, length_append, length_singleton,
              append_assoc, singleton_append, Nat.add_assoc, Nat.add_comm 1]
          · rw [if_neg hroom]
            refine iff_of_false (by simp) ?_
            rintro ⟨-, hlen, -⟩
            omega

/-- A group stops the loop, and all groups in front of it are read and have room. -/
def StopsLoop (stored : Nat) (gs : List Str) : Prop :=
  ∃ front g behind, gs = front ++ g :: behind ∧ (∀ g ∈ front, Reads g) ∧
    stored + front.length ≤ maxDmInstanceOrder ∧ Stops g

theorem stops_ne_nil (h : Stops g) : g ≠ [] := by
  rintro rfl
  obtain ⟨front, c, behind, heq, -⟩ := h
  simp at heq

theorem stopsLoop_cons {n : Nat} (hn : n ≤ maxDmInstanceOrder) :
    StopsLoop n (g :: gs) ↔
      Stops g ∨ Reads g ∧ n + 1 ≤ maxDmInstanceOrder ∧ StopsLoop (n + 1) gs := by
  constructor
  · rintro ⟨front, bad, behind, heq, hfront, hlen, hbad⟩
    cases front with
    | nil =>
      obtain ⟨rfl, -⟩ := List.cons.inj heq
      exact .inl hbad
    | cons g' front =>
      obtain ⟨rfl, rfl⟩ := List.cons.inj heq
      obtain ⟨hg, hrest⟩ := List.forall_mem_cons.mp hfront
      rw [length_cons] at hlen
      exact .inr ⟨hg, by omega, front, bad, behind, rfl, hrest, by omega, hbad⟩
  · rintro (hbad | ⟨hg, -, front, bad, behind, rfl, hfront, hlen, hbad⟩)
    · exact ⟨[], g, gs, rfl, by simp, by simpa using hn, hbad⟩
    · exact ⟨g :: front, bad, behind, rfl, List.forall_mem_cons.mpr ⟨hg, hfront⟩,
        by rw [length_cons]; omega, hbad⟩

theorem loopGroups_error_iff {inst : List Nat} (hinst : inst.length ≤ maxDmInstanceOrder) :
    (∃ e, loopGroups inst gs = some (.error e)) ↔ StopsLoop inst.length gs := by
  induction gs generalizing inst with
  | nil =>
    refine iff_of_false (by simp [loopGroups]) ?_
    rintro ⟨front, g, behind, heq, -⟩
    simp at heq
  | cons g gs ih =>
    rw [loopGroups, stopsLoop_cons hinst]
    by_cases hlast : g = [] ∧ gs = []
    · rw [if_pos hlast]
      refine iff_of_false (by simp) ?_
      rintro (hbad | ⟨-, -, front, bad, behind, heq, -⟩)
      · exact stops_ne_nil hbad hlast.1
      · rw [hlast.2] at heq
        simp at heq
    · rw [if_neg hlast]
      cases hgroup : readGroup 0 g with
      | none =>
        refine iff_of_false (by simp) ?_
        rintro (hbad | ⟨hg, -⟩)
        · cases hgroup.symm.trans (stops_iff.mpr hbad)
        · cases hgroup.symm.trans (reads_iff.mpr ⟨hg, rfl⟩)
      | some o =>
        cases o with
        | none => exact iff_of_true ⟨_, rfl⟩ (.inl (stops_iff.mp hgroup))
        | some v =>
          obtain ⟨hreads, -⟩ := reads_iff.mp hgroup
          have hnot : ¬Stops g := fun hbad => by
            cases hgroup.symm.trans (stops_iff.mpr hbad)
          dsimp only
          by_cases hroom : inst.length < maxDmInstanceOrder
          · have hlen : (inst ++ [v]).length = inst.length + 1 := by simp
            rw [if_pos hroom, ih (by omega), hlen]
            have hle : inst.length + 1 ≤ maxDmInstanceOrder := hroom
            simp only [hnot, hreads, hle, false_or, true_and]
          · rw [if_neg hroom]
            refine iff_of_false (by simp) ?_
            rintro (hbad | ⟨-, hle, -⟩)
            · exact hnot hbad
            · omega

/-! ## The promise -/

/-- The call returns an error, or at most as many positive numbers as the array takes, and the
string is formed from them again. Either way it has stored and counted inside its bounds. -/
def KeepsPromise (s : Str) : Prop :=
  (∃ e, parseInstances s = some (.error e)) ∨
    ∃ out, parseInstances s = some (.ok out) ∧ out.length ≤ maxDmInstanceOrder ∧
      (∀ n ∈ out, 0 < n) ∧ formInstanceString (out.map Nat.cast) = s

/-- A group as a positive `int` is printed. -/
structure PositiveInt (group : Str) : Prop where
  numeral : IsNumeral group
  positive : group ≠ ['0']
  fits : natValue group ≤ intMax

/-- The string is empty, or at most as many positive numbers as the array takes, with a dot
between them. -/
def Canonical (s : Str) : Prop :=
  s = [] ∨ (segments s).length ≤ maxDmInstanceOrder ∧ ∀ g ∈ segments s, PositiveInt g

theorem parseInstances_eq : parseInstances s = loopGroups [] (segments s) :=
  parseLoop_eq [] s

theorem stored_eq (h : ∀ g ∈ gs, g ≠ []) : stored gs = gs := by
  induction gs with
  | nil => rfl
  | cons g gs ih =>
    obtain ⟨hg, hgs⟩ := List.forall_mem_cons.mp h
    rw [stored, if_neg fun hlast => hg hlast.1, ih hgs]

theorem formInstanceString_natValue (h : ∀ g ∈ gs, IsNumeral g) :
    formInstanceString ((gs.map natValue).map Nat.cast) = ['.'].intercalate gs := by
  rw [formInstanceString, map_map, map_map]
  refine congrArg _ ((map_congr_left fun g hg => ?_).trans gs.map_id)
  exact natDigits_natValue (h g hg)

theorem segments_formInstanceString (h : out ≠ []) :
    segments (formInstanceString (out.map Nat.cast)) = out.map natDigits := by
  rw [formInstanceString, map_map]
  refine segments_join ?_ (by simpa using h)
  intro g hg
  obtain ⟨n, -, rfl⟩ := List.mem_map.mp hg
  exact dot_not_mem_intDigits n

theorem parsed_iff :
    (∃ out, parseInstances s = some (.ok out) ∧ out.length ≤ maxDmInstanceOrder ∧
      (∀ n ∈ out, 0 < n) ∧ formInstanceString (out.map Nat.cast) = s) ↔ Canonical s := by
  constructor
  · rintro ⟨out, hparse, hlen, hpos, hform⟩
    rw [parseInstances_eq, loopGroups_ok_iff (Nat.zero_le _)] at hparse
    obtain ⟨hreads, -, hout⟩ := hparse
    by_cases hnil : out = []
    · subst hnil
      exact .inl hform.symm
    · have hsegments : segments s = out.map natDigits := by
        rw [← hform, segments_formInstanceString hnil]
      have hne : ∀ g ∈ segments s, g ≠ [] := by
        rw [hsegments, forall_mem_map]
        exact fun n _ => natDigits_ne_nil n
      rw [stored_eq hne] at hreads
      refine .inr ⟨by rwa [hsegments, length_map], fun g hg => ?_⟩
      have hfits := (hreads g hg).fits
      rw [hsegments] at hg
      obtain ⟨n, hn, rfl⟩ := List.mem_map.mp hg
      have hpositive := hpos n hn
      have hnumeral := natDigits_isNumeral n
      refine ⟨hnumeral, (natValue_pos_iff hnumeral).mp ?_, hfits⟩
      rwa [natValue_natDigits]
  · rintro (rfl | ⟨hlen, hgroups⟩)
    · exact ⟨[], by simp [parseInstances, parseLoop], Nat.zero_le _, by simp, rfl⟩
    · have hstored : stored (segments s) = segments s :=
        stored_eq fun g hg => (hgroups g hg).numeral.ne_nil
      refine ⟨(segments s).map natValue, ?_, by rwa [length_map], ?_, ?_⟩
      · rw [parseInstances_eq, loopGroups_ok_iff (Nat.zero_le _), hstored]
        refine ⟨fun g hg => ⟨(hgroups g hg).numeral.digits, (hgroups g hg).fits⟩, ?_, rfl⟩
        simpa using hlen
      · rw [forall_mem_map]
        intro g hg
        exact (natValue_pos_iff (hgroups g hg).numeral).mpr (hgroups g hg).positive
      · rw [formInstanceString_natValue fun g hg => (hgroups g hg).numeral]
        exact joinSegments_segments s

/-- The promise is kept for the strings that are formed from instance numbers, and for those
with a wrong character behind groups that can all be stored, and only for these. -/
theorem parseInstanceString_keeps_iff (s : Str) :
    KeepsPromise s ↔ Canonical s ∨ StopsLoop 0 (segments s) := by
  have herror : (∃ e, parseInstances s = some (.error e)) ↔ StopsLoop 0 (segments s) := by
    rw [parseInstances_eq]
    exact loopGroups_error_iff (Nat.zero_le _)
  rw [KeepsPromise, herror, parsed_iff, or_comm]

/-- Seven numbers are stored behind the array, a number counts over the largest `int`, and an
empty group is a zero. -/
theorem parseInstanceString_breaks :
    ¬KeepsPromise "1.1.1.1.1.1.1".toList ∧ ¬KeepsPromise "2147483648".toList ∧
      ¬KeepsPromise "1..2".toList := by
  have hseven : parseInstances "1.1.1.1.1.1.1".toList = none := by
    rw [parseInstances_eq]
    decide +kernel
  have hlarge : parseInstances "2147483648".toList = none := by
    rw [parseInstances_eq]
    decide +kernel
  have hempty : parseInstances "1..2".toList = some (.ok [1, 0, 2]) := by
    rw [parseInstances_eq]
    decide +kernel
  refine ⟨?_, ?_, ?_⟩
  · rw [KeepsPromise, hseven]
    simp
  · rw [KeepsPromise, hlarge]
    simp
  · rw [KeepsPromise, hempty]
    simp

end InstanceStrings
