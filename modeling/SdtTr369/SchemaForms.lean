import SdtTr369.Loops
import SdtTr369.PathText

/-!
# The schema form of a path

The loop of `TEXT_UTILS_PathToSchemaForm` reads a path as single characters and as instance
numbers with the dot in front of them (`tokens`). It looks at the room that is left only behind a
single character, so that a run of numbers is written whether or not there is room for it.
-/

namespace SchemaForms

open UspTypes SchemaInvariant PathText Loops List

/-- `INSTANCE_SEPARATOR` -/
def instanceSeparator : Str := ['.', '{', 'i', '}']

/-- An `int` where it is compared with a `size_t`. -/
def asSize (len : Int) : Int := len % 4294967296

/-- `c` with the rest of `path`, the cells in front of `buf`, and `len`. -/
structure Converting where
  path : Str
  written : Str
  len : Int
  deriving DecidableEq, Repr

/-- A turn of the loop. The text that it ends with is followed by a terminator. -/
def turn (s : Converting) : Turn Converting Str :=
  match s.path with
  | [] => .done s.written
  | c :: path =>
    let digits := path.takeWhile isNumeric
    let behind := path.dropWhile isNumeric
    if c = '.' ∧ digits ≠ [] ∧ (behind.head? = some '.' ∨ behind = []) then
      .again ⟨behind, s.written ++ instanceSeparator, s.len - instanceSeparator.length⟩
    else if asSize (s.len - 1) < instanceSeparator.length + 1 then .done (s.written ++ [c])
    else .again ⟨path, s.written ++ [c], s.len - 1⟩

/-- `TEXT_UTILS_PathToSchemaForm` leaves the text in a buffer of `len` cells, or has run over its
end with it. -/
def Converts (path : Str) (len : Int) (text : Str) : Prop := Ends turn ⟨path, [], len⟩ text

/-! ## What is read -/

inductive Token where
  | number
  | plain (c : Char)
  deriving DecidableEq, Repr

def IsInstance (segment : Str) : Prop := segment ≠ [] ∧ segment.all isNumeric = true

instance (segment : Str) : Decidable (IsInstance segment) := inferInstanceAs (Decidable (_ ∧ _))

def segmentTokens (segment : Str) : List Token :=
  if IsInstance segment then [.number] else .plain '.' :: segment.map .plain

/-- The tokens of a path: its first segment as it stands, and the others with their dots. -/
def tokens (path : Str) : List Token :=
  (firstSegment path).map .plain ++ (segments path).tail.flatMap segmentTokens

def Token.text : Token → Str
  | .number => instanceSeparator
  | .plain c => [c]

def textOf (ts : List Token) : Str := ts.flatMap Token.text

/-- What the loop writes of the tokens. -/
def copied : List Token → Int → Str
  | [], _ => []
  | .number :: ts, len => instanceSeparator ++ copied ts (len - instanceSeparator.length)
  | .plain c :: ts, len =>
    c :: if asSize (len - 1) < instanceSeparator.length + 1 then [] else copied ts (len - 1)

variable {s t : Str} {c : Char} (path : Str)

theorem tokens_cut (hs : '.' ∉ s) (ht : t = [] ∨ ∃ t', t = '.' :: t') :
    tokens (s ++ t) = s.map .plain ++ tokens t := by
  rcases ht with rfl | ⟨t', rfl⟩
  · simp [tokens, firstSegment, segments_single hs, segments_single]
  · simp [tokens, firstSegment, segments_nodot hs]

theorem tokens_dot (hs : '.' ∉ s) (ht : t = [] ∨ ∃ t', t = '.' :: t') :
    tokens ('.' :: (s ++ t)) = segmentTokens s ++ tokens t := by
  have hempty : tokens ('.' :: (s ++ t)) = (segments (s ++ t)).flatMap segmentTokens := by
    simp [tokens, firstSegment]
  rw [hempty]
  rcases ht with rfl | ⟨t', rfl⟩
  · simp [segments_single hs, tokens, firstSegment, segments_single]
  · simp [segments_nodot hs, tokens, firstSegment]

theorem tokens_plain (hc : c ≠ '.') (path : Str) :
    tokens (c :: path) = .plain c :: tokens path := by
  obtain ⟨s, t, rfl, hs, ht⟩ := cut_first path
  have hs' : '.' ∉ c :: s := by simp [hs, Ne.symm hc]
  rw [← cons_append, tokens_cut hs' ht, tokens_cut hs ht]
  rfl

theorem instance_iff (hs : '.' ∉ s) (ht : t = [] ∨ ∃ t', t = '.' :: t') :
    ((s ++ t).takeWhile isNumeric ≠ [] ∧
      (((s ++ t).dropWhile isNumeric).head? = some '.' ∨ (s ++ t).dropWhile isNumeric = [])) ↔
      IsInstance s := by
  obtain ⟨hall, hnot⟩ := takeNumeric hs ht
  by_cases hnum : s.all isNumeric = true
  · obtain ⟨htake, hdrop⟩ := hall hnum
    rw [htake, hdrop, IsInstance]
    rcases ht with rfl | ⟨t', rfl⟩ <;> simp [hnum]
  · obtain ⟨hne, hhead⟩ := hnot (by simpa using hnum)
    constructor
    · rintro ⟨-, hend⟩
      exact (hend.elim hhead hne).elim
    · rintro ⟨-, hall'⟩
      exact absurd hall' hnum

theorem turn_number (hs : '.' ∉ s) (ht : t = [] ∨ ∃ t', t = '.' :: t') (hinst : IsInstance s)
    (written : Str) (len : Int) :
    turn ⟨'.' :: (s ++ t), written, len⟩ =
      .again ⟨t, written ++ instanceSeparator, len - instanceSeparator.length⟩ := by
  have hdrop := ((takeNumeric hs ht).1 hinst.2).2
  exact (if_pos ⟨rfl, (instance_iff hs ht).mpr hinst⟩).trans (by rw [hdrop])

theorem turn_plain (hs : '.' ∉ s) (ht : t = [] ∨ ∃ t', t = '.' :: t')
    (hc : ¬(c = '.' ∧ IsInstance s)) (written : Str) (len : Int) :
    turn ⟨c :: (s ++ t), written, len⟩ =
      if asSize (len - 1) < instanceSeparator.length + 1 then .done (written ++ [c])
      else .again ⟨s ++ t, written ++ [c], len - 1⟩ :=
  if_neg fun h => hc ⟨h.1, (instance_iff hs ht).mp h.2⟩

/-- The loop writes the tokens of the path. -/
theorem ends_iff (written : Str) (len : Int) (text : Str) :
    Ends turn ⟨path, written, len⟩ text ↔ text = written ++ copied (tokens path) len := by
  induction hn : path.length using Nat.strong_induction_on generalizing path written len with
  | _ n ih =>
    cases path with
    | nil =>
      have hdone : turn ⟨[], written, len⟩ = .done written := rfl
      rw [ends_of_done hdone, tokens]
      simp [firstSegment, segments_single, copied]
    | cons c path =>
      obtain ⟨s, t, rfl, hs, ht⟩ := cut_first path
      rw [length_cons, length_append] at hn
      by_cases hc : c = '.' ∧ IsInstance s
      · obtain ⟨rfl, hinst⟩ := hc
        rw [ends_of_again (turn_number hs ht hinst written len), ih t.length (by omega) _ _ _ rfl,
          tokens_dot hs ht, segmentTokens, if_pos hinst, append_assoc]
        rfl
      · have htokens : tokens (c :: (s ++ t)) = .plain c :: tokens (s ++ t) := by
          by_cases hdot : c = '.'
          · subst hdot
            have hinst : ¬IsInstance s := fun h => hc ⟨rfl, h⟩
            rw [tokens_dot hs ht, tokens_cut hs ht, segmentTokens, if_neg hinst, cons_append]
          · exact tokens_plain hdot _
        have hturn := turn_plain hs ht hc written len
        rw [htokens, copied]
        by_cases hfull : asSize (len - 1) < instanceSeparator.length + 1
        · rw [if_pos hfull] at hturn ⊢
          exact ends_of_done hturn
        · rw [if_neg hfull] at hturn ⊢
          rw [ends_of_again hturn, ih _ (by rw [length_append]; omega) _ _ _ rfl,
            append_assoc, singleton_append]

theorem converts_iff (len : Int) (text : Str) :
    Converts path len text ↔ text = copied (tokens path) len := ends_iff path [] len text

/-! ## The room for the text -/

theorem asSize_small {len : Int} (h : 0 ≤ len) (hlt : len < 4294967296) : asSize len = len :=
  Int.emod_eq_of_lt h hlt

/-- The loop stands in front of the tokens, and looks at the room once it has written a single
character. Each run of numbers that it comes to leaves room for what ends the run. -/
def FitsFrom (ts : List Token) (len : Int) : Prop :=
  ∀ before k after, ts = before ++ List.replicate k .number ++ after →
    (before = [] ∨ (textOf before).length + 5 ≤ len) →
    (textOf before).length + 4 * k + (if after = [] then 0 else 1) + 1 ≤ len

section Fits

variable {ts : List Token} {len : Int}

theorem fitsFrom_nil : FitsFrom [] len ↔ 1 ≤ len := by
  constructor
  · intro h
    simpa [textOf] using h [] 0 [] rfl (.inl rfl)
  · intro h before k after heq _
    obtain ⟨hfront, rfl⟩ := List.append_eq_nil_iff.mp heq.symm
    obtain ⟨rfl, hrun⟩ := List.append_eq_nil_iff.mp hfront
    obtain rfl : k = 0 := by simpa using hrun
    simpa [textOf] using h

theorem textOf_cons (t : Token) : textOf (t :: ts) = t.text ++ textOf ts := flatMap_cons

@[simp] theorem length_number : (textOf (.number :: ts)).length = 4 + (textOf ts).length := by
  rw [textOf_cons, length_append]
  rfl

@[simp] theorem length_plain (c : Char) :
    (textOf (.plain c :: ts)).length = 1 + (textOf ts).length := by
  rw [textOf_cons, length_append]
  rfl

theorem fitsFrom_number : FitsFrom (.number :: ts) len ↔ FitsFrom ts (len - 4) := by
  constructor
  · intro h before k after heq hbefore
    rcases hbefore with rfl | hroom
    · have := h [] (k + 1) after (by rw [heq]; rfl) (.inl rfl)
      omega
    · have hroom' : ((textOf (.number :: before)).length : Int) + 5 ≤ len := by
        rw [length_number]
        omega
      have := h (.number :: before) k after (by rw [heq]; rfl) (.inr hroom')
      rw [length_number] at this
      omega
  · intro h before k after heq hbefore
    cases before with
    | nil =>
      cases k with
      | zero =>
        have hbound := h [] 0 ts rfl (.inl rfl)
        split <;> omega
      | succ k =>
        obtain rfl := (List.cons.inj heq).2
        have := h [] k after rfl (.inl rfl)
        omega
    | cons t before =>
      obtain ⟨rfl, rfl⟩ := List.cons.inj heq
      rcases hbefore with hnil | hroom
      · cases hnil
      · rw [length_number] at hroom ⊢
        have := h before k after rfl (.inr (by omega))
        omega

theorem fitsFrom_plain :
    FitsFrom (.plain c :: ts) len ↔ 2 ≤ len ∧ (6 ≤ len → FitsFrom ts (len - 1)) := by
  constructor
  · intro h
    have hlen : 2 ≤ len := by simpa [textOf] using h [] 0 (.plain c :: ts) rfl (.inl rfl)
    refine ⟨hlen, fun hsix before k after heq hbefore => ?_⟩
    have hroom : ((textOf (.plain c :: before)).length : Int) + 5 ≤ len := by
      rw [length_plain]
      rcases hbefore with rfl | hroom
      · simp [textOf]
        omega
      · omega
    have := h (.plain c :: before) k after (by rw [heq]; rfl) (.inr hroom)
    rw [length_plain] at this
    omega
  · rintro ⟨hlen, h⟩ before k after heq hbefore
    cases before with
    | nil =>
      cases k with
      | zero =>
        obtain rfl : .plain c :: ts = after := heq
        simpa [textOf] using hlen
      | succ k => cases heq
    | cons t before =>
      obtain ⟨rfl, rfl⟩ := List.cons.inj heq
      rcases hbefore with hnil | hroom
      · cases hnil
      · rw [length_plain] at hroom ⊢
        have := h (by omega) before k after rfl (.inr (by omega))
        omega

theorem copied_fits (hlt : len < 4294967296) :
    (copied ts len).length + 1 ≤ len ↔ FitsFrom ts len := by
  induction ts generalizing len with
  | nil => rw [fitsFrom_nil, copied]; simp
  | cons t ts ih =>
    cases t with
    | number =>
      rw [fitsFrom_number, ← ih (by omega), copied]
      simp [instanceSeparator]
      omega
    | plain c =>
      rw [fitsFrom_plain, copied, length_cons]
      by_cases hlen : 2 ≤ len
      · have hsep : (instanceSeparator.length : Int) + 1 = 5 := rfl
        rw [asSize_small (by omega) (by omega), hsep]
        by_cases hfull : len - 1 < 5
        · rw [if_pos hfull]
          have hsix : ¬6 ≤ len := by omega
          simp [hlen, hsix]
        · rw [if_neg hfull, ← ih (by omega)]
          omega
      · omega

/-- Behind every single character with more to come, five cells are left. -/
def Uncut (ts : List Token) (len : Int) : Prop :=
  ∀ before c after, ts = before ++ .plain c :: after → after ≠ [] →
    ((textOf before).length : Int) + 6 ≤ len

theorem uncut_number : Uncut (.number :: ts) len ↔ Uncut ts (len - 4) := by
  constructor
  · intro h before c after heq hafter
    have := h (.number :: before) c after (by rw [heq]; rfl) hafter
    rw [length_number] at this
    omega
  · intro h before c after heq hafter
    cases before with
    | nil => cases heq
    | cons t before =>
      obtain ⟨rfl, rfl⟩ := List.cons.inj heq
      have := h before c after rfl hafter
      rw [length_number]
      omega

theorem uncut_plain : Uncut (.plain c :: ts) len ↔ (ts ≠ [] → 6 ≤ len) ∧ Uncut ts (len - 1) := by
  constructor
  · refine fun h => ⟨fun hts => by simpa [textOf] using h [] c ts rfl hts, ?_⟩
    intro before d after heq hafter
    have := h (.plain c :: before) d after (by rw [heq]; rfl) hafter
    rw [length_plain] at this
    omega
  · rintro ⟨hlen, h⟩ before d after heq hafter
    cases before with
    | nil =>
      obtain ⟨-, rfl⟩ := List.cons.inj heq
      simpa [textOf] using hlen hafter
    | cons t before =>
      obtain ⟨rfl, rfl⟩ := List.cons.inj heq
      have := h before d after rfl hafter
      rw [length_plain]
      omega

theorem uncut_of_length (h : ((textOf ts).length : Int) + 6 ≤ len) : Uncut ts len := by
  intro before c after heq _
  rw [heq, textOf, flatMap_append, length_append] at h
  rw [textOf]
  omega

theorem copied_whole (h : Uncut ts len) (hlt : len < 4294967296) : copied ts len = textOf ts := by
  induction ts generalizing len with
  | nil => rfl
  | cons t ts ih =>
    cases t with
    | number =>
      rw [copied, textOf_cons, ih (by simpa [instanceSeparator] using uncut_number.mp h)
        (by simp [instanceSeparator]; omega)]
      rfl
    | plain c =>
      obtain ⟨hroom, hrest⟩ := uncut_plain.mp h
      rw [copied, textOf_cons]
      by_cases hts : ts = []
      · rw [hts, copied, ite_self]
        rfl
      · have hsep : (instanceSeparator.length : Int) + 1 = 5 := rfl
        have hlen := hroom hts
        rw [asSize_small (by omega) (by omega), hsep, if_neg (by omega), ih hrest (by omega)]
        rfl

theorem copied_prefix (ts : List Token) (len : Int) : copied ts len <+: textOf ts := by
  induction ts generalizing len with
  | nil => exact prefix_rfl
  | cons t ts ih =>
    rw [textOf_cons]
    cases t with
    | number => exact (prefix_append_right_inj _).mpr (ih _)
    | plain c =>
      rw [copied]
      refine List.cons_prefix_cons.mpr ⟨rfl, ?_⟩
      split
      · exact nil_prefix
      · exact ih _

/-- A text that is cut fills all but four cells. -/
theorem copied_cut (hlt : len < 4294967296) (hfits : FitsFrom ts len) (h : ¬Uncut ts len) :
    len ≤ (copied ts len).length + 4 := by
  induction ts generalizing len with
  | nil => exact absurd (fun before c after heq => by simp at heq) h
  | cons t ts ih =>
    cases t with
    | number =>
      rw [uncut_number] at h
      rw [fitsFrom_number] at hfits
      have hrest := ih (by omega) hfits h
      have hsep : (instanceSeparator.length : Int) = 4 := rfl
      rw [copied, length_append, Int.natCast_add, hsep]
      omega
    | plain c =>
      obtain ⟨hlen, hrest⟩ := fitsFrom_plain.mp hfits
      have hsep : (instanceSeparator.length : Int) + 1 = 5 := rfl
      rw [copied, asSize_small (by omega) (by omega), hsep, length_cons]
      split
      · omega
      · have hcut : ¬Uncut ts (len - 1) := fun huncut =>
          h (uncut_plain.mpr ⟨fun _ => by omega, huncut⟩)
        have := ih (by omega) (hrest (by omega)) hcut
        omega

end Fits

/-! ## The full result -/

def generalised (segment : Str) : Str := if IsInstance segment then multiSeparator else segment

/-- The path with each segment after the first that is a number replaced by `{i}`. -/
def schemaForm (path : Str) : Str :=
  joinSegments (firstSegment path :: (segments path).tail.map generalised)

theorem joinSegments_eq (s : Str) (segs : List Str) :
    joinSegments (s :: segs) = s ++ segs.flatMap ('.' :: ·) := by
  induction segs generalizing s with
  | nil => simp [joinSegments]
  | cons t segs ih =>
    rw [joinSegments_cons (cons_ne_nil _ _), ih, flatMap_cons, cons_append]

theorem textOf_plain (s : Str) : textOf (s.map .plain) = s := by
  induction s with
  | nil => rfl
  | cons c s ih =>
    rw [map_cons, textOf_cons, ih]
    rfl

theorem textOf_segment (s : Str) : textOf (segmentTokens s) = '.' :: generalised s := by
  rw [segmentTokens, generalised]
  split
  · rfl
  · rw [textOf_cons, textOf_plain]
    rfl

theorem textOf_tokens : textOf (tokens path) = schemaForm path := by
  rw [schemaForm, joinSegments_eq, tokens, textOf, flatMap_append]
  refine congrArg₂ (· ++ ·) (textOf_plain _) ?_
  rw [flatMap_assoc, flatMap_map]
  exact flatMap_congr fun s _ => textOf_segment s

theorem generalised_nodot (h : '.' ∉ s) : '.' ∉ generalised s := by
  rw [generalised]
  split
  · decide
  · exact h

theorem generalised_idem (s : Str) : generalised (generalised s) = generalised s := by
  by_cases h : IsInstance s
  · rw [generalised, generalised, if_pos h]
    decide
  · rw [generalised, generalised, if_neg h, if_neg h]

theorem schemaForm_idem : schemaForm (schemaForm path) = schemaForm path := by
  have hdots := dot_not_mem_segment path
  obtain ⟨s, segs, hsegs⟩ := exists_cons_of_ne_nil (segments_ne_nil path)
  have hform : segments (schemaForm path) = s :: segs.map generalised := by
    rw [schemaForm, firstSegment, hsegs]
    refine segments_join ?_ (cons_ne_nil _ _)
    rw [forall_mem_cons, forall_mem_map]
    rw [← segments, hsegs, forall_mem_cons] at hdots
    exact ⟨hdots.1, fun t ht => generalised_nodot (hdots.2 t ht)⟩
  have hidem : generalised ∘ generalised = generalised := funext generalised_idem
  rw [schemaForm, firstSegment, hform, schemaForm, firstSegment, hsegs, tail_cons,
    tail_cons, map_map, hidem, headD_cons, headD_cons]

/-! ## The promise -/

/-- The text and its terminator are written inside the buffer, the full result is written where
there is room for it, and a full result is converted to itself. -/
structure KeepsPromise (path : Str) (len : Int) : Prop where
  inside : ∀ text, Converts path len text → (text.length : Int) + 1 ≤ len
  whole : ((schemaForm path).length : Int) + 6 ≤ len → Converts path len (schemaForm path)
  fixed : ((schemaForm path).length : Int) + 6 ≤ len →
    Converts (schemaForm path) len (schemaForm path)

/-- Wherever five cells are left in front of a run of numbers, they hold the separators for the
run, one more character where the path goes on, and the terminator. -/
def RunsFit (path : Str) (len : Int) : Prop :=
  ∀ before k after, tokens path = before ++ List.replicate k .number ++ after →
    (textOf before).length + 5 ≤ len →
    (textOf before).length + 4 * k + (if after = [] then 0 else 1) + 1 ≤ len

theorem runsFit_iff {path : Str} {len : Int} (h : 6 ≤ len) :
    RunsFit path len ↔ FitsFrom (tokens path) len := by
  constructor
  · intro hruns before k after heq hbefore
    refine hruns before k after heq ?_
    rcases hbefore with rfl | hroom
    · simp [textOf]
      omega
    · exact hroom
  · intro hfits before k after heq hroom
    exact hfits before k after heq (.inr hroom)

theorem converts_whole {path : Str} {len : Int}
    (h : ((schemaForm path).length : Int) + 6 ≤ len) (hint : len < 2147483648) :
    Converts path len (schemaForm path) := by
  have huncut : Uncut (tokens path) len := uncut_of_length (by rwa [textOf_tokens])
  rw [converts_iff, copied_whole huncut (by omega), textOf_tokens]

/-- For every `int` that the caller may give as the length. -/
theorem pathToSchemaForm_keeps_iff (path : Str) (len : Int) (h : 6 ≤ len)
    (hint : len < 2147483648) : KeepsPromise path len ↔ RunsFit path len := by
  rw [runsFit_iff h, ← copied_fits (by omega)]
  constructor
  · intro hkeeps
    exact hkeeps.inside _ ((converts_iff _ _ _).mpr rfl)
  · intro hinside
    refine ⟨fun text htext => ?_, fun hroom => converts_whole hroom hint, fun hroom => ?_⟩
    · rw [(converts_iff _ _ _).mp htext]
      exact hinside
    · have hform : ((schemaForm (schemaForm path)).length : Int) + 6 ≤ len := by
        rwa [schemaForm_idem]
      have hagain := converts_whole hform hint
      rwa [schemaForm_idem] at hagain

theorem pathToSchemaForm_keeps_ssid :
    KeepsPromise "WiFi.SSID.1.Enable".toList 256 ↔ RunsFit "WiFi.SSID.1.Enable".toList 256 :=
  pathToSchemaForm_keeps_iff _ _ (by decide) (by decide)

/-- A name with 64 instance numbers one after the other. -/
def numbersPath : Str := 'A' :: (List.replicate 64 ['.', '1']).flatten

/-- The last separator is written over the end of a buffer of 256 cells. -/
theorem numbers_run_over : ¬KeepsPromise numbersPath 256 := by
  intro h
  have hlen : (copied (tokens numbersPath) 256).length = 257 := by decide +kernel
  have := h.inside _ ((converts_iff _ _ _).mpr rfl)
  omega

end SchemaForms
