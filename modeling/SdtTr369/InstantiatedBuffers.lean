import SdtTr369.Loops
import SdtTr369.PathText

/-!
# Instantiated paths in their buffer

The loop of `DM_PRIV_FormInstantiatedPath` turn by turn. A character is copied only while there
is room for it and the terminator, and without room the loop takes the same turn for ever; a
number is cut to the room that is left, and its terminator then takes the last cell.
-/

namespace InstantiatedBuffers

open UspTypes DecimalText PathCodec PathText Loops List

inductive Outcome where
  | ok (path : Str)
  | error (e : Err)
  | overrun
  deriving DecidableEq, Repr

/-- `USP_SNPRINTF`: the cells that are written, and the length that is returned. -/
def uspSnprintf (size : Nat) (text : Str) : Str × Nat :=
  if size = 0 then ([], 0)
  else (text.take (size - 1) ++ [Char.ofNat 0], min text.length size)

/-- `src`, the numbers from `i` on, the cells in front of `dest`, and `len`. -/
structure Copying where
  src : Str
  inst : List Int
  written : Str
  len : Nat
  deriving DecidableEq, Repr

/-- A turn of the loop over a buffer of `size` cells, and what follows the last one. -/
def turn (size : Nat) (s : Copying) : Turn Copying Outcome :=
  match s.src with
  | [] =>
    if s.inst ≠ [] then .done (.error .internalError)
    else if s.written.length < size then .done (.ok s.written)
    else .done .overrun
  | '{' :: 'i' :: '}' :: src =>
    match s.inst with
    | [] => .done (.error .internalError)
    | n :: inst =>
      let printed := uspSnprintf s.len (intDigits n)
      if s.written.length + printed.1.length ≤ size then
        .again ⟨src, inst, s.written ++ printed.1.take printed.2, s.len - printed.2⟩
      else .done .overrun
  | c :: src =>
    if 1 < s.len then
      if s.written.length < size then .again ⟨src, s.inst, s.written ++ [c], s.len - 1⟩
      else .done .overrun
    else .again s

/-- `DM_PRIV_FormInstantiatedPath` comes to the outcome. Its first write needs a cell. -/
def FormsPath (schemaPath : Str) (inst : List Int) (len : Nat) (outcome : Outcome) : Prop :=
  if len = 0 then outcome = .overrun else Ends (turn len) ⟨schemaPath, inst, [], len⟩ outcome

/-! ## The turns -/

section Printed

variable (size : Nat) (text : Str)

theorem uspSnprintf_count : (uspSnprintf size text).2 = min text.length size := by
  unfold uspSnprintf
  split
  · next h => rw [h, Nat.min_zero]
  · rfl

theorem uspSnprintf_length : (uspSnprintf size text).1.length ≤ size := by
  unfold uspSnprintf
  split
  · exact Nat.zero_le _
  · simp
    omega

theorem uspSnprintf_taken_length :
    ((uspSnprintf size text).1.take (uspSnprintf size text).2).length = min text.length size := by
  unfold uspSnprintf
  split
  · next h => simp [h]
  · simp
    omega

theorem uspSnprintf_fits (h : text.length < size) :
    (uspSnprintf size text).1.take (uspSnprintf size text).2 = text := by
  have hpos : size ≠ 0 := by omega
  have hmin : min text.length size = text.length := by omega
  have hwhole : text.take (size - 1) = text := take_of_length_le (by omega)
  simp only [uspSnprintf, if_neg hpos, hmin, hwhole, take_left]

end Printed

variable {size len : Nat} {src written : Str} {inst : List Int}

theorem turn_placeholder (src : Str) (n : Int) (inst : List Int) (h : written.length + len = size) :
    turn size ⟨'{' :: 'i' :: '}' :: src, n :: inst, written, len⟩ =
      .again ⟨src, inst, written ++
        (uspSnprintf len (intDigits n)).1.take (uspSnprintf len (intDigits n)).2,
        len - (intDigits n).length⟩ := by
  have hinside : written.length + (uspSnprintf len (intDigits n)).1.length ≤ size := by
    have := uspSnprintf_length len (intDigits n)
    omega
  have hlen : len - (uspSnprintf len (intDigits n)).2 = len - (intDigits n).length := by
    rw [uspSnprintf_count]
    omega
  simp only [turn, if_pos hinside, hlen]

theorem turn_plain (inst : List Int) {c : Char} (hno : ∀ rest, c = '{' → src = 'i' :: '}' :: rest → False)
    (h : written.length + len = size) :
    turn size ⟨c :: src, inst, written, len⟩ =
      .again (if 1 < len then ⟨src, inst, written ++ [c], len - 1⟩
        else ⟨c :: src, inst, written, len⟩) := by
  unfold turn
  split
  · next heq => cases heq
  · next heq =>
    obtain ⟨hc, hsrc⟩ := List.cons.inj heq
    exact (hno _ hc hsrc).elim
  · next heq =>
    obtain ⟨rfl, rfl⟩ := List.cons.inj heq
    by_cases hlen : 1 < len
    · have hinside : written.length < size := by omega
      simp only [if_pos hlen, if_pos hinside]
    · simp only [if_neg hlen]

/-! ## The loop and its recursive form -/

section Mapped

variable {f : Str → Str} {r : Option (Except Err Str)}

theorem mapped_eq_error {e : Err} :
    r.map (Except.map f) = some (.error e) ↔ r = some (.error e) := by
  rcases r with _ | (_ | _) <;> simp [Except.map]

theorem mapped_eq_ok {text : Str} :
    r.map (Except.map f) = some (.ok text) ↔ ∃ rest, r = some (.ok rest) ∧ f rest = text := by
  rcases r with _ | (_ | _) <;> simp [Except.map]

end Mapped

theorem instantiateLoop_ok {text : Str} (h : instantiateLoop src inst len = some (.ok text)) :
    instantiate src inst = .ok text ∧ text.length < len := by
  induction src, inst using instantiate.induct generalizing len text with
  | case1 =>
    rw [instantiateLoop] at h
    split at h
    · cases h
    · cases h
      exact ⟨rfl, by simp; omega⟩
  | case2 => cases h
  | case3 => cases h
  | case4 src n inst ih =>
    rw [instantiateLoop, mapped_eq_ok] at h
    obtain ⟨rest, hrest, rfl⟩ := h
    obtain ⟨htext, hlt⟩ := ih hrest
    rw [instantiate, htext, length_append]
    exact ⟨rfl, by omega⟩
  | case5 c src inst hno ih =>
    rw [instantiateLoop.eq_5 _ _ _ _ hno] at h
    split at h
    · obtain ⟨rest, hrest, rfl⟩ := mapped_eq_ok.mp h
      obtain ⟨htext, hlt⟩ := ih hrest
      rw [instantiate.eq_5 _ _ _ hno, htext, length_cons]
      exact ⟨rfl, by omega⟩
    · cases h

/-- The loop comes to what its recursive form gives, and else it spins or overruns the buffer. -/
theorem loop_ends (src : Str) (inst : List Int) (h : written.length + len = size) :
    (∀ e, Ends (turn size) ⟨src, inst, written, len⟩ (.error e) ↔
      instantiateLoop src inst len = some (.error e)) ∧
    ∀ path, Ends (turn size) ⟨src, inst, written, len⟩ (.ok path) ↔
      ∃ text, path = written ++ text ∧ instantiateLoop src inst len = some (.ok text) := by
  induction src, inst using instantiate.induct generalizing len written with
  | case1 =>
    by_cases hlen : len = 0
    · have hdone : turn size ⟨[], [], written, len⟩ = .done .overrun :=
        if_neg (show ¬written.length < size by omega)
      simp only [ends_of_done hdone, instantiateLoop, if_pos hlen]
      simp
    · have hdone : turn size ⟨[], [], written, len⟩ = .done (.ok written) :=
        if_pos (show written.length < size by omega)
      simp [ends_of_done hdone, instantiateLoop, hlen]
  | case2 n inst =>
    have hdone : turn size ⟨[], n :: inst, written, len⟩ = .done (.error .internalError) := rfl
    simp [ends_of_done hdone, instantiateLoop, eq_comm]
  | case3 src =>
    have hdone : turn size ⟨'{' :: 'i' :: '}' :: src, [], written, len⟩ =
      .done (.error .internalError) := rfl
    simp [ends_of_done hdone, instantiateLoop, eq_comm]
  | case4 src n inst ih =>
    have hagain := turn_placeholder src n inst h
    have htaken := uspSnprintf_taken_length len (intDigits n)
    have hfits := uspSnprintf_fits len (intDigits n)
    generalize (uspSnprintf len (intDigits n)).1.take (uspSnprintf len (intDigits n)).2 =
      cells at hagain htaken hfits
    obtain ⟨herror, hok⟩ := @ih (len - (intDigits n).length) (written ++ cells)
      (by rw [length_append, htaken]; omega)
    simp only [ends_of_again hagain, herror, hok]
    refine ⟨fun e => ?_, fun path => ?_⟩
    · rw [instantiateLoop, mapped_eq_error]
    · rw [instantiateLoop]
      simp only [mapped_eq_ok]
      constructor
      · rintro ⟨text, rfl, htext⟩
        have hlt := (instantiateLoop_ok htext).2
        rw [hfits (by omega), append_assoc]
        exact ⟨_, rfl, text, htext, rfl⟩
      · rintro ⟨_, rfl, text, htext, rfl⟩
        have hlt := (instantiateLoop_ok htext).2
        rw [hfits (by omega), ← append_assoc]
        exact ⟨text, rfl, htext⟩
  | case5 c src inst hno ih =>
    have hagain := turn_plain inst hno h
    by_cases hlen : 1 < len
    · rw [if_pos hlen] at hagain
      obtain ⟨herror, hok⟩ := @ih (len - 1) (written ++ [c])
        (by rw [length_append, length_singleton]; omega)
      simp only [ends_of_again hagain, herror, hok, instantiateLoop.eq_5 _ _ _ _ hno, if_pos hlen,
        mapped_eq_error, mapped_eq_ok]
      refine ⟨fun e => trivial, fun path => ?_⟩
      constructor
      · rintro ⟨text, rfl, htext⟩
        exact ⟨c :: text, append_assoc .., text, htext, rfl⟩
      · rintro ⟨_, rfl, text, htext, rfl⟩
        exact ⟨text, (append_assoc written [c] text).symm, htext⟩
    · rw [if_neg hlen] at hagain
      simp [not_ends_of_spin hagain, instantiateLoop.eq_5 _ _ _ _ hno, hlen]

/-! ## What fits -/

inductive Piece where
  | placeholder
  | plain (c : Char)
  deriving DecidableEq, Repr

/-- The schema path as it is read from the left. -/
def pieces : Str → List Piece
  | [] => []
  | '{' :: 'i' :: '}' :: src => .placeholder :: pieces src
  | c :: src => .plain c :: pieces src

/-- The text of the pieces, up to a placeholder without a number. -/
def filled : List Piece → List Int → Str
  | [], _ => []
  | .plain c :: ps, inst => c :: filled ps inst
  | .placeholder :: ps, n :: inst => intDigits n ++ filled ps inst
  | .placeholder :: _, [] => []

/-- Every character that is reached has a cell with another one behind it, and a path with as
many numbers as placeholders is shorter than the buffer. -/
structure FitsBuffer (ps : List Piece) (inst : List Int) (len : Nat) : Prop where
  plain : ∀ before c after, ps = before ++ .plain c :: after →
    before.count .placeholder ≤ inst.length → (filled before inst).length + 1 < len
  whole : ps.count .placeholder = inst.length → (filled ps inst).length < len

section Fits

variable {ps : List Piece}

theorem fits_nil : FitsBuffer [] inst len ↔ inst ≠ [] ∨ 0 < len := by
  constructor
  · rintro ⟨-, hwhole⟩
    cases inst with
    | nil => exact .inr (hwhole rfl)
    | cons => exact .inl (cons_ne_nil _ _)
  · intro h
    refine ⟨fun before c after heq => by simp at heq, fun hcount => ?_⟩
    exact h.resolve_left fun hne => hne (List.length_eq_zero_iff.mp hcount.symm)

theorem fits_plain {c : Char} :
    FitsBuffer (.plain c :: ps) inst len ↔ 1 < len ∧ FitsBuffer ps inst (len - 1) := by
  constructor
  · rintro ⟨hplain, hwhole⟩
    have hlen : 1 < len := hplain [] c ps rfl (Nat.zero_le _)
    refine ⟨hlen, fun before d after heq hcount => ?_, fun hcount => ?_⟩
    · have := hplain (.plain c :: before) d after (by rw [heq]; rfl) (by simpa using hcount)
      simp only [filled, length_cons] at this
      omega
    · have := hwhole (by simpa using hcount)
      simp only [filled, length_cons] at this
      omega
  · rintro ⟨hlen, hplain, hwhole⟩
    refine ⟨fun before d after heq hcount => ?_, fun hcount => ?_⟩
    · cases before with
      | nil => exact hlen
      | cons p before =>
        obtain ⟨rfl, rfl⟩ := List.cons.inj heq
        have := hplain before d after rfl (by simpa using hcount)
        simp only [filled, length_cons]
        omega
    · have := hwhole (by simpa using hcount)
      simp only [filled, length_cons]
      omega

theorem fits_placeholder {n : Int} :
    FitsBuffer (.placeholder :: ps) (n :: inst) len ↔
      FitsBuffer ps inst (len - (intDigits n).length) := by
  constructor
  · rintro ⟨hplain, hwhole⟩
    refine ⟨fun before d after heq hcount => ?_, fun hcount => ?_⟩
    · have := hplain (.placeholder :: before) d after (by rw [heq]; rfl) (by simpa using hcount)
      simp only [filled, length_append] at this
      omega
    · have := hwhole (by simpa using hcount)
      simp only [filled, length_append] at this
      omega
  · rintro ⟨hplain, hwhole⟩
    refine ⟨fun before d after heq hcount => ?_, fun hcount => ?_⟩
    · cases before with
      | nil => cases heq
      | cons p before =>
        obtain ⟨rfl, rfl⟩ := List.cons.inj heq
        have := hplain before d after rfl (by simpa using hcount)
        simp only [filled, length_append]
        omega
    · have := hwhole (by simpa using hcount)
      simp only [filled, length_append]
      omega

/-- Nothing is written behind a placeholder without a number. -/
theorem fits_unnumbered : FitsBuffer (.placeholder :: ps) [] len := by
  refine ⟨fun before d after heq hcount => ?_, fun hcount => by simp at hcount⟩
  cases before with
  | nil => cases heq
  | cons p before =>
    obtain ⟨rfl, rfl⟩ := List.cons.inj heq
    simp at hcount

end Fits

theorem instantiateLoop_isSome :
    (instantiateLoop src inst len).isSome ↔ FitsBuffer (pieces src) inst len := by
  induction src, inst using instantiate.induct generalizing len with
  | case1 =>
    rw [instantiateLoop, pieces, fits_nil]
    split <;> simp [*]
    omega
  | case2 => simp [instantiateLoop, pieces, fits_nil]
  | case3 src => simp [instantiateLoop, pieces, fits_unnumbered]
  | case4 src n inst ih => rw [instantiateLoop, Option.isSome_map, ih, pieces, fits_placeholder]
  | case5 c src inst hno ih =>
    rw [instantiateLoop.eq_5 _ _ _ _ hno, pieces.eq_3 _ _ hno, fits_plain, ← ih]
    split <;> simp [*]

/-! ## The promise -/

/-- The call ends with the complete path or with an error, and all writes are inside. -/
def KeepsPromise (schemaPath : Str) (inst : List Int) (len : Nat) : Prop :=
  ∃ outcome, FormsPath schemaPath inst len outcome ∧
    ((∃ e, outcome = .error e) ∨ ∃ path, instantiate schemaPath inst = .ok path ∧ outcome = .ok path)

theorem keepsPromise_iff_isSome (schemaPath : Str) (inst : List Int) (h : 1 ≤ len) :
    KeepsPromise schemaPath inst len ↔ (formInstantiatedPath schemaPath inst len).isSome := by
  obtain ⟨herror, hok⟩ := loop_ends schemaPath inst
    (show ([] : Str).length + len = len from Nat.zero_add len)
  simp only [KeepsPromise, FormsPath, if_neg (show len ≠ 0 by omega), formInstantiatedPath]
  constructor
  · rintro ⟨_, hforms, ⟨e, rfl⟩ | ⟨path, -, rfl⟩⟩
    · rw [(herror e).mp hforms]
      rfl
    · obtain ⟨text, -, htext⟩ := (hok path).mp hforms
      rw [htext]
      rfl
  · intro hsome
    obtain ⟨r, hr⟩ := Option.isSome_iff_exists.mp hsome
    cases r with
    | error e => exact ⟨.error e, (herror e).mpr hr, .inl ⟨e, rfl⟩⟩
    | ok text =>
      exact ⟨.ok text, (hok text).mpr ⟨text, rfl, hr⟩,
        .inr ⟨text, (instantiateLoop_ok hr).1, rfl⟩⟩

/-- The call keeps its promise when all that is reached fits, and only then. -/
theorem formInstantiatedPath_keeps_iff (schemaPath : Str) (inst : List Int) (len : Nat)
    (h : 1 ≤ len) :
    KeepsPromise schemaPath inst len ↔ FitsBuffer (pieces schemaPath) inst len := by
  rw [keepsPromise_iff_isSome schemaPath inst h, formInstantiatedPath, instantiateLoop_isSome]

theorem formInstantiatedPath_keeps_port :
    KeepsPromise "Device.Port.{i}.Name".toList [12] 256 ↔
      FitsBuffer (pieces "Device.Port.{i}.Name".toList) [12] 256 :=
  formInstantiatedPath_keeps_iff _ _ _ (by decide)

/-- A path shorter than the buffer, before the number is put in. -/
def longPath (tail : Str) : Str :=
  "Device.".toList ++ List.replicate 240 'P' ++ ".{i}".toList ++ tail

/-- The loop behind the number. -/
def cutCopying (tail : Str) : Copying :=
  ⟨tail, [], "Device.".toList ++ List.replicate 240 'P' ++ ".2147483".toList ++ [Char.ofNat 0], 0⟩

theorem longPath_after (tail : Str) (h : tail = ".Q".toList ∨ tail = []) :
    after (turn 256) 249 ⟨longPath tail, [2147483647], [], 256⟩ = some (cutCopying tail) := by
  rcases h with rfl | rfl <;> decide +kernel

/-- The number fills the buffer. With a name behind it the loop spins, and without one the
terminator is written behind the last cell. -/
theorem long_number_breaks_promise :
    (∀ outcome, ¬FormsPath (longPath ".Q".toList) [2147483647] 256 outcome) ∧
    FormsPath (longPath []) [2147483647] 256 .overrun := by
  constructor
  · intro outcome hforms
    have hends := (ends_of_after (longPath_after _ (.inl rfl))).mp hforms
    have hspin : turn 256 (cutCopying ".Q".toList) = .again (cutCopying ".Q".toList) := rfl
    exact not_ends_of_spin hspin hends
  · have hlast : turn 256 (cutCopying []) = .done .overrun := by decide +kernel
    exact (ends_of_after (longPath_after _ (.inr rfl))).mpr (.done hlast)

end InstantiatedBuffers
