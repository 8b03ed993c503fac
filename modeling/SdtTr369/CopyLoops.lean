import SdtTr369.CBuffers

/-!
# Copying into a buffer

`TEXT_UTILS_ReplaceCharInString` and `TEXT_UTILS_StripChars` store cell by cell into a buffer,
and test the length that is left only where they do. What they copy of a character is its piece
of the result; a piece that is not copied whole is not begun.
-/

namespace CopyLoops

open CBuffers List

/-- `memcpy` into the cells from `i` on. -/
def writeAt (buf : Buffer) (i : Nat) (text : Text) : Option Buffer :=
  (write (buf.drop i) text).map (buf.take i ++ ·)

section Replace

variable (matchChar : Char) (replacement : Text)

/-- The loop of `TEXT_UTILS_ReplaceCharInString` with the place of `dst` and `dst_len`. -/
def replaceLoop : Text → Nat → Int → Buffer → Option (Buffer × Nat)
  | [], i, _, dst => some (dst, i)
  | c :: src, i, dstLen, dst =>
    if c = matchChar then
      if replacement.length > dstLen then some (dst, i)
      else (writeAt dst i replacement).bind fun dst =>
        if dstLen - replacement.length = 0 then some (dst, i + replacement.length)
        else replaceLoop src (i + replacement.length) (dstLen - replacement.length) dst
    else (poke dst i c).bind fun dst =>
      if dstLen - 1 = 0 then some (dst, i + 1) else replaceLoop src (i + 1) (dstLen - 1) dst

/-- `TEXT_UTILS_ReplaceCharInString` -/
def replaceCharInString (src : Text) (dst : Buffer) (dstLen : Int) : Option Buffer :=
  (replaceLoop matchChar replacement src 0 (dstLen - 1) dst).bind fun r => poke r.1 r.2 nul

/-- What becomes of a character of the source. -/
def replacedBy (c : Char) : Text := if c = matchChar then replacement else [c]

def replaced (src : Text) : Text := src.flatMap (replacedBy matchChar replacement)

end Replace

section Strip

variable (stripChars : Text)

/-- The loop of `TEXT_UTILS_StripChars`. -/
def stripLoop : Text → Nat → Int → Buffer → Option (Buffer × Nat)
  | [], i, _, dest => some (dest, i)
  | c :: src, i, destLen, dest =>
    if c ∉ stripChars then
      (poke dest i c).bind fun dest =>
        if destLen - 1 = 1 then some (dest, i + 1) else stripLoop src (i + 1) (destLen - 1) dest
    else stripLoop src i destLen dest

/-- `TEXT_UTILS_StripChars` -/
def stripCharsFrom (src : Text) (dest : Buffer) (destLen : Int) : Option Buffer :=
  (stripLoop stripChars src 0 destLen dest).bind fun r => poke r.1 r.2 nul

def stripped (src : Text) : Text := src.filter (· ∉ stripChars)

end Strip

/-! ## What a loop leaves -/

/-- The loop has stopped behind a text, with a cell left for the terminator. The text is a prefix
of the result, and the result itself where that fits. -/
def Leaves (front : Buffer) (room : Nat) (full : Text) (r : Option (Buffer × Nat)) : Prop :=
  ∃ text cell rest, r = some (front ++ text ++ cell :: rest, front.length + text.length) ∧
    text.length + rest.length = room ∧ text <+: full ∧ (full.length ≤ room → text = full)

variable {cells : Buffer}

section Leaves

variable {front : Buffer} {room : Nat} {full text : Text} {r : Option (Buffer × Nat)}

theorem leaves_here (h : cells.length = room + 1) (hfull : full.length ≤ room → full = []) :
    Leaves front room full (some (front ++ cells, front.length)) := by
  cases cells with
  | nil => simp at h
  | cons cell rest =>
    refine ⟨[], cell, rest, by simp, ?_, nil_prefix, fun hle => (hfull hle).symm⟩
    simpa using h

/-- Behind a piece that was copied. -/
theorem Leaves.behind (h : Leaves (front ++ text) room full r) :
    Leaves front (text.length + room) (text ++ full) r := by
  obtain ⟨more, cell, rest, hr, hroom, hstart, hwhole⟩ := h
  refine ⟨text ++ more, cell, rest, ?_, ?_, (prefix_append_right_inj text).mpr hstart, ?_⟩
  · rw [hr]
    simp [Nat.add_assoc]
  · rw [length_append]
    omega
  · intro hle
    rw [length_append] at hle
    rw [hwhole (by omega)]

/-- A piece is copied, and the loop goes on while there is room. -/
theorem leaves_piece (piece : Text) {rest : Buffer} (hrest : rest.length = room + 1)
    (hnext : 0 < room → Leaves (front ++ piece) room full r) :
    Leaves front (piece.length + room) (piece ++ full)
      (if room = 0 then some (front ++ piece ++ rest, front.length + piece.length) else r) := by
  refine Leaves.behind ?_
  by_cases hroom : room = 0
  · rw [if_pos hroom, ← length_append]
    exact leaves_here hrest fun hle => List.length_eq_zero_iff.mp (by omega)
  · rw [if_neg hroom]
    exact hnext (by omega)

/-- The string that is left in the buffer. -/
def Holds (size : Nat) (full : Text) (out : Option Buffer) : Prop :=
  ∃ buf text, out = some buf ∧ buf.length = size ∧ readString buf = some text ∧
    text <+: full ∧ (full.length < size → text = full)

theorem Leaves.holds (h : Leaves [] room full r) (hnul : nul ∉ full) :
    Holds (room + 1) full (r.bind fun r => poke r.1 r.2 nul) := by
  obtain ⟨text, cell, rest, rfl, hroom, hstart, hwhole⟩ := h
  refine ⟨text ++ nul :: rest, text, ?_, ?_, ?_, hstart, fun hlt => hwhole (by omega)⟩
  · rw [Option.bind_some]
    simpa using poke_append text rest cell nul
  · rw [length_append, length_cons]
    omega
  · exact readString_terminated fun hmem => hnul (hstart.subset hmem)

end Leaves

theorem writeAt_append (front : Buffer) {old text : Text} (rest : Buffer)
    (h : old.length = text.length) :
    writeAt (front ++ (old ++ rest)) front.length text = some (front ++ text ++ rest) := by
  rw [writeAt, drop_left, take_left, write, if_pos (by simp [h])]
  simp [← h]

/-! ## The loops -/

section Loops

variable (matchChar : Char) (replacement stripChars : Text)

theorem replaceLoop_leaves (src : Text) (front : Buffer) {room : Nat}
    (hcells : cells.length = room + 1) (hroom : 0 < room) :
    Leaves front room (replaced matchChar replacement src)
      (replaceLoop matchChar replacement src front.length room (front ++ cells)) := by
  induction src generalizing front cells room with
  | nil => exact leaves_here hcells fun _ => rfl
  | cons c src ih =>
    have hpieces : replaced matchChar replacement (c :: src) =
        replacedBy matchChar replacement c ++ replaced matchChar replacement src :=
      flatMap_cons
    rw [replaceLoop, hpieces, replacedBy]
    by_cases hmatch : c = matchChar
    · rw [if_pos hmatch, if_pos hmatch]
      by_cases hlong : (replacement.length : Int) > room
      · rw [if_pos hlong]
        refine leaves_here hcells fun hle => ?_
        rw [length_append] at hle
        omega
      · rw [if_neg hlong]
        obtain ⟨left, rfl⟩ : ∃ left, room = replacement.length + left :=
          Nat.exists_eq_add_of_le (by omega)
        obtain ⟨old, rest, rfl, hold⟩ : ∃ old rest, cells = old ++ rest ∧
            old.length = replacement.length :=
          ⟨_, _, (take_append_drop replacement.length cells).symm, by simp [hcells]; omega⟩
        have hrest : rest.length = left + 1 := by
          rw [length_append] at hcells
          omega
        have hleft : ((replacement.length + left : Nat) : Int) - replacement.length = left := by omega
        have hnext := leaves_piece replacement hrest
          fun hpos => ih (front ++ replacement) hrest hpos
        rw [length_append] at hnext
        rw [writeAt_append front rest hold, Option.bind_some, hleft]
        simpa using hnext
    · rw [if_neg hmatch, if_neg hmatch]
      obtain ⟨left, rfl⟩ : ∃ left, room = 1 + left := Nat.exists_eq_add_of_le hroom
      cases cells with
      | nil => simp at hcells
      | cons old rest =>
        have hrest : rest.length = left + 1 := by
          rw [length_cons] at hcells
          omega
        have hleft : ((1 + left : Nat) : Int) - 1 = left := by omega
        have hnext := leaves_piece [c] hrest fun hpos => ih (front ++ [c]) hrest hpos
        rw [length_append] at hnext
        rw [poke_append, Option.bind_some, hleft]
        simpa using hnext

theorem stripLoop_leaves (src : Text) (front : Buffer) {room : Nat}
    (hcells : cells.length = room + 1) (hroom : 0 < room) :
    Leaves front room (stripped stripChars src)
      (stripLoop stripChars src front.length (room + 1) (front ++ cells)) := by
  induction src generalizing front cells room with
  | nil => exact leaves_here hcells fun _ => rfl
  | cons c src ih =>
    rw [stripLoop, stripped]
    by_cases hkept : c ∉ stripChars
    · rw [if_pos hkept, filter_cons_of_pos (by simpa using hkept), ← stripped]
      obtain ⟨left, rfl⟩ : ∃ left, room = 1 + left := Nat.exists_eq_add_of_le hroom
      cases cells with
      | nil => simp at hcells
      | cons old rest =>
        have hrest : rest.length = left + 1 := by
          rw [length_cons] at hcells
          omega
        have hleft : ((1 + left : Nat) : Int) + 1 - 1 = left + 1 := by omega
        have hlast : (left : Int) + 1 = 1 ↔ left = 0 := by omega
        have hnext := leaves_piece [c] hrest fun hpos => ih (front ++ [c]) hrest hpos
        rw [length_append] at hnext
        rw [poke_append, Option.bind_some, hleft]
        simpa [hlast] using hnext
    · rw [if_neg hkept, filter_cons_of_neg (by simpa using hkept), ← stripped]
      exact ih front hcells hroom

end Loops

theorem nul_not_mem_replaced {matchChar : Char} {replacement src : Text} (hsrc : nul ∉ src)
    (hreplacement : nul ∉ replacement) : nul ∉ replaced matchChar replacement src := by
  rw [replaced, mem_flatMap]
  rintro ⟨c, hc, hmem⟩
  rw [replacedBy] at hmem
  split at hmem
  · exact hreplacement hmem
  · rw [mem_singleton] at hmem
    exact hsrc (hmem ▸ hc)

/-- Both functions keep inside a buffer of at least two cells, terminate what they leave there,
and leave the whole result where it fits and a prefix of it elsewhere. -/
theorem copies_inside (src replacement stripChars : CString) (matchChar : Char) (dst : Buffer)
    (h : 2 ≤ dst.length) :
    Holds dst.length (replaced matchChar replacement src)
        (replaceCharInString matchChar replacement src dst dst.length) ∧
      Holds dst.length (stripped stripChars src) (stripCharsFrom stripChars src dst dst.length) := by
  obtain ⟨room, hroom⟩ : ∃ room, dst.length = room + 1 := ⟨dst.length - 1, by omega⟩
  have hpos : 0 < room := by omega
  have hdstLen : ((room + 1 : Nat) : Int) - 1 = room := by omega
  have hreplaced := replaceLoop_leaves matchChar replacement src [] hroom hpos
  have hstripped := stripLoop_leaves stripChars src [] hroom hpos
  have hnul : nul ∉ stripped stripChars src := fun hmem => src.property (List.mem_filter.mp hmem).1
  rw [hroom]
  constructor
  · rw [replaceCharInString, hdstLen]
    exact hreplaced.holds (nul_not_mem_replaced src.property replacement.property)
  · exact hstripped.holds hnul

/-- An escaped topic that fits its buffer, and a text that is cut in front of an escape. -/
theorem copies_inside_topic :
    Holds 8 (replaced '/' "%2F".toList "a/b".toList)
        (replaceCharInString '/' "%2F".toList "a/b".toList (List.replicate 8 'x') 8) ∧
      Holds 8 (stripped "\"".toList "a/b".toList)
        (stripCharsFrom "\"".toList "a/b".toList (List.replicate 8 'x') 8) :=
  copies_inside ⟨"a/b".toList, by decide⟩ ⟨"%2F".toList, by decide⟩ ⟨"\"".toList, by decide⟩ '/'
    (List.replicate 8 'x') (by decide)

example : replaceCharInString '/' "%2F".toList "a/b/c".toList (List.replicate 7 'x') 7 =
    some ("a%2Fb".toList ++ [nul, 'x']) := by decide

end CopyLoops
