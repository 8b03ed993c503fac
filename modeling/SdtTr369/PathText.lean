import SdtTr369.PathCodec
import SdtTr369.SchemaInvariant

/-!
# The segments of a path

The character loop of `DM_PRIV_CalcHashFromPath` is a fold over the non-empty
segments after the first (`hashLoop_eq`). Extra dots are therefore invisible to
it. The text that `DM_PRIV_FormInstantiatedPath` writes is the schema path with
its placeholder segments replaced by numerals.
-/

namespace PathText

open UspTypes TextUtils Schema SchemaInvariant DecimalText PathCodec List

def segments (path : Str) : List Str := path.splitOn '.'

def firstSegment (path : Str) : Str := (segments path).headD []

def nonEmpty (segs : List Str) : List Str := segs.filter (· ≠ [])

def laterSegments (path : Str) : List Str := nonEmpty (segments path).tail

variable {s t p : Str} (path : Str) (hash : UInt32) {segs : List Str}

theorem segments_nodot (hs : '.' ∉ s) : segments (s ++ '.' :: t) = s :: segments t :=
  splitOn_append_cons_self_of_not_mem hs t

theorem segments_single (hs : '.' ∉ s) : segments s = [s] := splitOn_eq_singleton hs

@[simp] theorem segments_dot (t : Str) : segments ('.' :: t) = [] :: segments t :=
  segments_nodot (s := []) (by simp)

theorem segments_append_dot (s t : Str) : segments (s ++ '.' :: t) = segments s ++ segments t :=
  splitOn_append_cons_self s t

@[simp] theorem laterSegments_nil : laterSegments [] = [] := rfl

@[simp] theorem laterSegments_dot (t : Str) : laterSegments ('.' :: t) = nonEmpty (segments t) := by
  rw [laterSegments, segments_dot, tail_cons]

/-- Every text is its first segment with either nothing or a dot after it. -/
theorem cut_first : ∃ s t, path = s ++ t ∧ '.' ∉ s ∧ (t = [] ∨ ∃ t', t = '.' :: t') := by
  induction path with
  | nil => exact ⟨[], [], rfl, by simp, .inl rfl⟩
  | cons c path ih =>
    by_cases hc : c = '.'
    · subst hc
      exact ⟨[], '.' :: path, rfl, by simp, .inr ⟨path, rfl⟩⟩
    · obtain ⟨s, t, rfl, hs, ht⟩ := ih
      exact ⟨c :: s, t, rfl, by simp [hs, Ne.symm hc], ht⟩

theorem firstSegment_nodot (hs : '.' ∉ s) (ht : t = [] ∨ ∃ t', t = '.' :: t') :
    firstSegment (s ++ t) = s ∧ laterSegments (s ++ t) = laterSegments t := by
  rcases ht with rfl | ⟨t', rfl⟩
  · rw [append_nil, firstSegment, laterSegments, segments_single hs]
    exact ⟨rfl, rfl⟩
  · rw [firstSegment, laterSegments, segments_nodot hs, laterSegments_dot]
    exact ⟨rfl, rfl⟩

theorem nonEmpty_dropDots :
    nonEmpty (segments (path.dropWhile (· = '.'))) = nonEmpty (segments path) := by
  induction path with
  | nil => rfl
  | cons c path ih =>
    by_cases hc : c = '.'
    · subst hc
      simpa [nonEmpty] using ih
    · simp [hc]

theorem firstSegment_cons {c : Char} (hc : c ≠ '.') (path : Str) :
    firstSegment (c :: path) = c :: firstSegment path ∧
      laterSegments (c :: path) = laterSegments path := by
  obtain ⟨s, t, rfl, hs, ht⟩ := cut_first path
  have hs' : '.' ∉ c :: s := by simp [hs, Ne.symm hc]
  have h := firstSegment_nodot hs ht
  have h' := firstSegment_nodot hs' ht
  rw [cons_append] at h'
  rw [h.1, h.2]
  exact h'

/-- `ADD_TO_HASH` over a segment, wildcards read as placeholders. -/
def addWildcards (hash : UInt32) (s : Str) : UInt32 :=
  s.foldl (fun h c => if c = '*' then addAllToHash h multiSeparator else addToHash h c) hash

@[simp] theorem addWildcards_nil : addWildcards hash [] = hash := rfl

theorem addWildcards_cons (c : Char) (s : Str) :
    addWildcards hash (c :: s) =
      addWildcards (if c = '*' then addAllToHash hash multiSeparator else addToHash hash c) s := by
  rw [addWildcards, foldl_cons]
  rfl

/-- What one segment after the first does to the hash and the numbers. -/
def hashSegment (acc : UInt32 × List Int) (s : Str) : Except Err (UInt32 × List Int) :=
  if s.all isNumeric then
    if acc.2.length = maxDmInstanceOrder then .error .internalError
    else .ok (addSeparator acc.1, acc.2 ++ [signedWord (wordValue s)])
  else .ok (addWildcards (addToHash acc.1 '.') s, acc.2)

def hashSegments (acc : UInt32 × List Int) (segs : List Str) : Except Err (UInt32 × List Int) :=
  segs.foldlM hashSegment acc

variable (acc : UInt32 × List Int) (inst : List Int) {nums : List Nat}

@[simp] theorem hashSegments_nil : hashSegments acc [] = .ok acc := rfl

theorem hashSegments_cons (s : Str) (segs : List Str) :
    hashSegments acc (s :: segs) = (hashSegment acc s).bind fun a => hashSegments a segs := rfl

/-- The digits in front of a text and the segment they belong to. -/
theorem takeNumeric (hs : '.' ∉ s) (ht : t = [] ∨ ∃ t', t = '.' :: t') :
    (s.all isNumeric = true → (s ++ t).takeWhile isNumeric = s ∧
      (s ++ t).dropWhile isNumeric = t) ∧
    (s.all isNumeric = false → (s ++ t).dropWhile isNumeric ≠ [] ∧
      ((s ++ t).dropWhile isNumeric).head? ≠ some '.') := by
  have hdot : isNumeric '.' = false := by decide
  induction s with
  | nil => rcases ht with rfl | ⟨t', rfl⟩ <;> simp [hdot]
  | cons c s ih =>
    obtain ⟨ih₁, ih₂⟩ := ih (fun h => hs (mem_cons_of_mem _ h))
    have hc : c ≠ '.' := fun h => hs (h ▸ mem_cons_self)
    by_cases hn : isNumeric c = true
    · have hall : (c :: s).all isNumeric = s.all isNumeric := by rw [all_cons, hn, Bool.true_and]
      rw [hall, cons_append, takeWhile_cons_of_pos hn, dropWhile_cons_of_pos hn]
      exact ⟨fun h => ⟨congrArg (c :: ·) (ih₁ h).1, (ih₁ h).2⟩, ih₂⟩
    · simp [hn, hc]

theorem nonEmpty_cut (hs : '.' ∉ s) (hne : s ≠ []) (ht : t = [] ∨ ∃ t', t = '.' :: t') :
    nonEmpty (segments (s ++ t)) = s :: laterSegments t := by
  rcases ht with rfl | ⟨t', rfl⟩
  · rw [append_nil, segments_single hs]
    simp [nonEmpty, hne]
  · rw [segments_nodot hs, laterSegments_dot]
    simp [nonEmpty, hne]

/-- What follows a run of dots, when something follows. -/
theorem cut_afterDots (hq : p.dropWhile (· = '.') ≠ []) :
    ∃ s t, p.dropWhile (· = '.') = s ++ t ∧ s ≠ [] ∧ '.' ∉ s ∧ (t = [] ∨ ∃ t', t = '.' :: t') := by
  obtain ⟨s, t, hst, hs, ht⟩ := cut_first (p.dropWhile (· = '.'))
  refine ⟨s, t, hst, ?_, hs, ht⟩
  rintro rfl
  rcases ht with rfl | ⟨t', rfl⟩
  · exact hq hst
  · have hhead := head_dropWhile_not (fun c : Char => decide (c = '.')) hq
    simp [hst] at hhead

/-- The dot branch of the loop, with the segment behind the dots at hand. -/
theorem hashLoop_dot (hq : p.dropWhile (· = '.') = s ++ t) (hne : s ≠ []) (hs : '.' ∉ s)
    (ht : t = [] ∨ ∃ t', t = '.' :: t') :
    hashLoop hash inst ('.' :: p) =
      if s.all isNumeric then
        if inst.length = maxDmInstanceOrder then .error .internalError
        else hashLoop (addSeparator hash) (inst ++ [signedWord (wordValue s)]) t
      else hashLoop (addToHash hash '.') inst (s ++ t) := by
  have htail : t = [] ∨ t.head? = some '.' := by
    rcases ht with rfl | ⟨t', rfl⟩
    · exact .inl rfl
    · exact .inr rfl
  obtain ⟨hnum, hother⟩ := takeNumeric hs ht
  rw [hashLoop, if_pos rfl]
  simp only [hq]
  rw [if_neg (by simp [hne])]
  by_cases hall : s.all isNumeric = true
  · obtain ⟨htake, hdrop⟩ := hnum hall
    rw [htake, hdrop, if_pos ⟨hne, htail⟩, if_pos hall]
  · obtain ⟨h₁, h₂⟩ := hother (by simpa using hall)
    rw [if_neg (fun h => h.2.elim h₁ h₂), if_neg hall]

/-- The character loop is the fold over the segments. -/
theorem hashLoop_eq (path : Str) :
    hashLoop hash inst path =
      hashSegments (addWildcards hash (firstSegment path), inst) (laterSegments path) := by
  have hfirst : ∀ p, firstSegment ('.' :: p) = [] := fun p => by simp [firstSegment]
  induction hn : path.length using Nat.strong_induction_on generalizing hash inst path with
  | _ n ih =>
    subst hn
    cases path with
    | nil => rw [hashLoop]; rfl
    | cons c p =>
      by_cases hc : c = '.'
      · subst hc
        by_cases hq : p.dropWhile (· = '.') = []
        · rw [hashLoop, if_pos rfl, if_pos hq, hfirst, laterSegments_dot, ← nonEmpty_dropDots, hq]
          rfl
        · obtain ⟨s, t, hst, hne, hs, ht⟩ := cut_afterDots hq
          have hlen : (s ++ t).length ≤ p.length := hst ▸ (dropWhile_suffix _).length_le
          have hlater : laterSegments ('.' :: p) = s :: laterSegments t := by
            rw [laterSegments_dot, ← nonEmpty_dropDots, hst, nonEmpty_cut hs hne ht]
          have hft : firstSegment t = [] := by
            rcases ht with rfl | ⟨t', rfl⟩
            · rfl
            · exact hfirst t'
          rw [hashLoop_dot hash inst hst hne hs ht, hlater, hfirst, addWildcards_nil,
            hashSegments_cons, hashSegment]
          by_cases hall : s.all isNumeric = true
          · rw [if_pos hall, if_pos hall]
            by_cases hfull : inst.length = maxDmInstanceOrder
            · rw [if_pos hfull, if_pos hfull]
              rfl
            · rw [if_neg hfull, if_neg hfull, ih _ (by simp at hlen ⊢; omega) _ _ t rfl, hft,
                addWildcards_nil, Except.bind]
          · rw [if_neg hall, if_neg hall, ih _ (Nat.lt_succ_of_le hlen) _ _ _ rfl,
              (firstSegment_nodot hs ht).1, (firstSegment_nodot hs ht).2]
            rfl
      · obtain ⟨h₁, h₂⟩ := firstSegment_cons hc p
        rw [hashLoop, if_neg hc, h₁, h₂]
        by_cases hstar : c = '*'
        · subst hstar
          rw [if_pos rfl, ih _ (Nat.lt_succ_self _) _ _ p rfl, addWildcards_cons, if_pos rfl]
        · rw [if_neg hstar, ih _ (Nat.lt_succ_self _) _ _ p rfl, addWildcards_cons, if_neg hstar]

theorem calcHashFromPath_eq :
    calcHashFromPath path =
      hashSegments (addWildcards offsetBasis (firstSegment path), []) (laterSegments path) :=
  hashLoop_eq _ _ _

/-! ## Extra dots -/

/-- `q` is `p` with further trailing or repeated dots. -/
inductive DotVariant (p : Str) : Str → Prop where
  | refl : DotVariant p p
  | trailing {q : Str} : DotVariant p q → DotVariant p (q ++ ['.'])
  | repeated {a b : Str} : DotVariant p (a ++ '.' :: b) → DotVariant p (a ++ '.' :: '.' :: b)

theorem segments_ne_nil : segments path ≠ [] := splitOn_ne_nil _ _

/-- The calculated hash and the instance numbers do not depend on extra dots. -/
theorem calcHashFromPath_dotVariant {q : Str} (h : DotVariant p q) :
    calcHashFromPath q = calcHashFromPath p := by
  have hsame : firstSegment q = firstSegment p ∧ laterSegments q = laterSegments p := by
    induction h with
    | refl => exact ⟨rfl, rfl⟩
    | @trailing q _ ih =>
      obtain ⟨f, fs, hf⟩ := exists_cons_of_ne_nil (segments_ne_nil q)
      rw [← ih.1, ← ih.2]
      simp [firstSegment, laterSegments, segments_append_dot, hf, segments_single, nonEmpty]
    | @repeated a b _ ih =>
      obtain ⟨f, fs, hf⟩ := exists_cons_of_ne_nil (segments_ne_nil a)
      rw [← ih.1, ← ih.2]
      simp [firstSegment, laterSegments, segments_append_dot, hf, nonEmpty]
  rw [calcHashFromPath_eq, calcHashFromPath_eq, hsame.1, hsame.2]

theorem getQualifiedNode_withTrailingDot (S : DmTree) (path : Str) :
    getQualifiedNode S (withTrailingDot path) = getQualifiedNode S path := by
  unfold withTrailingDot
  split
  · rfl
  · unfold getQualifiedNode getNodeFromPath
    rw [calcHashFromPath_dotVariant (.trailing .refl)]

/-! ## Schema paths with numerals in them -/

/-- A name that the hash loop and the copying loop read as it stands. -/
structure CleanName (s : Str) : Prop where
  ok : NameOk s
  noWildcard : '*' ∉ s
  noPlaceholder : ¬ multiSeparator <:+: s

def joinSegments (segs : List Str) : Str := ['.'].intercalate segs

@[simp] theorem joinSegments_segments : joinSegments (segments path) = path :=
  intercalate_splitOn _

theorem joinSegments_cons (h : segs ≠ []) :
    joinSegments (s :: segs) = s ++ '.' :: joinSegments segs := by
  rw [joinSegments, intercalate_cons_of_ne_nil h]
  simp [joinSegments]

theorem segments_join (hdot : ∀ s ∈ segs, '.' ∉ s) (hne : segs ≠ []) :
    segments (joinSegments segs) = segs := splitOn_intercalate _ hdot hne

/-- The placeholder segments replaced by numerals, from left to right. -/
def fillSegments : List Str → List Str → List Str
  | [], _ => []
  | s :: segs, [] => s :: segs
  | s :: segs, n :: ns =>
    if s = multiSeparator then n :: fillSegments segs ns else s :: fillSegments segs (n :: ns)

def instantiatedText (path : Str) (numerals : List Str) : Str :=
  joinSegments (fillSegments (segments path) numerals)

theorem fillSegments_ne_nil (h : segs ≠ []) (ns : List Str) : fillSegments segs ns ≠ [] := by
  cases segs with
  | nil => exact absurd rfl h
  | cons s segs =>
    cases ns with
    | nil => simp [fillSegments]
    | cons n ns =>
      rw [fillSegments]
      split <;> simp

theorem mem_fillSegments {ns : List Str} (h : s ∈ fillSegments segs ns) : s ∈ segs ∨ s ∈ ns := by
  induction segs generalizing ns with
  | nil => simp [fillSegments] at h
  | cons t segs ih =>
    cases ns with
    | nil => exact .inl h
    | cons n ns =>
      rw [fillSegments] at h
      split at h
      · rcases List.mem_cons.mp h with rfl | h
        · exact .inr mem_cons_self
        · exact (ih h).imp (mem_cons_of_mem _) (mem_cons_of_mem _)
      · rcases List.mem_cons.mp h with rfl | h
        · exact .inl mem_cons_self
        · exact (ih h).imp (mem_cons_of_mem _) id

/-- The copying loop on a buffer without an end. -/
def instantiate : Str → List Int → Except Err Str
  | [], [] => .ok []
  | [], _ :: _ => .error .internalError
  | '{' :: 'i' :: '}' :: src, inst =>
    match inst with
    | [] => .error .internalError
    | n :: inst => (instantiate src inst).map (intDigits n ++ ·)
  | c :: src, inst => (instantiate src inst).map (c :: ·)

/-- In a buffer of `len` cells the loop does the same as long as the text and
its terminator fit, and else it does not finish. -/
theorem instantiateLoop_eq {src text : Str} {inst : List Int} {len : Nat}
    (h : instantiate src inst = .ok text) :
    instantiateLoop src inst len = if text.length < len then some (.ok text) else none := by
  induction src, inst using instantiate.induct generalizing text len with
  | case1 =>
    cases h
    rw [instantiateLoop]
    cases len <;> simp
  | case2 n ns => cases h
  | case3 src => simp [instantiate] at h
  | case4 src n ns ih =>
    rw [instantiate] at h
    cases hrec : instantiate src ns with
    | error e => simp [hrec, Except.map] at h
    | ok t =>
      simp only [hrec, Except.map, Except.ok.injEq] at h
      subst h
      rw [instantiateLoop]
      simp only [ih hrec, length_append]
      by_cases hfit : t.length < len - (intDigits n).length
      · rw [if_pos hfit, if_pos (by omega)]
        rfl
      · rw [if_neg hfit, if_neg (by omega)]
        rfl
  | case5 c src inst hno ih =>
    rw [instantiate.eq_5 _ _ _ hno] at h
    cases hrec : instantiate src inst with
    | error e => simp [hrec, Except.map] at h
    | ok t =>
      simp only [hrec, Except.map, Except.ok.injEq] at h
      subst h
      rw [instantiateLoop.eq_5 _ _ _ _ hno]
      simp only [ih hrec, length_cons]
      by_cases hlen : 1 < len
      · rw [if_pos hlen]
        by_cases hfit : t.length < len - 1
        · rw [if_pos hfit, if_pos (by omega)]
          rfl
        · rw [if_neg hfit, if_neg (by omega)]
          rfl
      · rw [if_neg hlen, if_neg (by omega)]

/-- A segment without a placeholder in it is copied. -/
theorem instantiate_name {rest : Str} (hs : ¬ multiSeparator <:+: s)
    (hrest : rest = [] ∨ ∃ r, rest = '.' :: r) (inst : List Int) :
    instantiate (s ++ rest) inst = (instantiate rest inst).map (s ++ ·) := by
  induction s with
  | nil =>
    rw [nil_append]
    cases instantiate rest inst <;> rfl
  | cons c s ih =>
    have hs' : ¬ multiSeparator <:+: s := fun h => hs (h.trans (suffix_cons c s).isInfix)
    have hno : ∀ src, c = '{' → s ++ rest = 'i' :: '}' :: src → False := by
      rintro src rfl hsrc
      cases s with
      | nil => rcases hrest with rfl | ⟨r, rfl⟩ <;> simp at hsrc
      | cons a s =>
        simp only [cons_append, List.cons.injEq] at hsrc
        obtain ⟨rfl, hsrc⟩ := hsrc
        cases s with
        | nil => rcases hrest with rfl | ⟨r, rfl⟩ <;> simp at hsrc
        | cons b s =>
          simp only [cons_append, List.cons.injEq] at hsrc
          obtain ⟨rfl, -⟩ := hsrc
          exact hs ⟨[], s, rfl⟩
    rw [cons_append, instantiate.eq_5 _ _ _ hno, ih hs']
    cases instantiate rest inst <;> rfl

/-- Clean segments, the placeholders among them. -/
def CleanSegments (segs : List Str) : Prop := ∀ s ∈ segs, s = multiSeparator ∨ CleanName s

@[simp] theorem fillSegments_nil (segs : List Str) : fillSegments segs [] = segs := by
  cases segs <;> rfl

theorem fillSegments_name (hs : s ≠ multiSeparator) (segs ns : List Str) :
    fillSegments (s :: segs) ns = s :: fillSegments segs ns := by
  cases ns with
  | nil => simp [fillSegments]
  | cons n ns => rw [fillSegments, if_neg hs]

theorem CleanName.ne_multi (h : CleanName s) : s ≠ multiSeparator := by
  rintro rfl
  exact absurd h.ok.2.2 (by decide)

theorem instantiate_multi (rest : Str) (n : Int) (inst : List Int) :
    instantiate (multiSeparator ++ rest) (n :: inst) =
      (instantiate rest inst).map (intDigits n ++ ·) := rfl

theorem instantiate_dot (rest : Str) (inst : List Int) :
    instantiate ('.' :: rest) inst = (instantiate rest inst).map ('.' :: ·) := by
  rw [instantiate.eq_5 _ _ _ (fun src h => absurd h (by decide))]

theorem instantiate_segments {inst : List Int} (hclean : CleanSegments segs) (hne : segs ≠ [])
    (hcount : segs.count multiSeparator = inst.length) :
    instantiate (joinSegments segs) inst =
      .ok (joinSegments (fillSegments segs (inst.map intDigits))) := by
  induction segs generalizing inst with
  | nil => exact absurd rfl hne
  | cons s segs ih =>
    have hclean' : CleanSegments segs := fun t ht => hclean t (mem_cons_of_mem _ ht)
    have htail : ∀ {inst' : List Int}, segs ≠ [] → segs.count multiSeparator = inst'.length →
        instantiate ('.' :: joinSegments segs) inst' =
          .ok ('.' :: joinSegments (fillSegments segs (inst'.map intDigits))) := by
      intro inst' hne' hcount'
      rw [instantiate_dot, ih hclean' hne' hcount']
      rfl
    rcases hclean s mem_cons_self with rfl | hs
    · obtain ⟨n, inst, rfl⟩ : ∃ n ns, inst = n :: ns := by
        cases inst with
        | nil => simp at hcount
        | cons n ns => exact ⟨n, ns, rfl⟩
      have hcount' : segs.count multiSeparator = inst.length := by simpa using hcount
      rw [map_cons, fillSegments, if_pos rfl]
      by_cases hempty : segs = []
      · subst hempty
        obtain rfl : inst = [] := eq_nil_of_length_eq_zero hcount'.symm
        simpa [joinSegments, instantiate, Except.map, fillSegments] using
          instantiate_multi [] n []
      · rw [joinSegments_cons hempty, joinSegments_cons (fillSegments_ne_nil hempty _),
          instantiate_multi, htail hempty hcount']
        rfl
    · have hcount' : segs.count multiSeparator = inst.length := by
        rwa [count_cons_of_ne hs.ne_multi] at hcount
      rw [fillSegments_name hs.ne_multi]
      by_cases hempty : segs = []
      · subst hempty
        obtain rfl : inst = [] := eq_nil_of_length_eq_zero hcount'.symm
        simpa [joinSegments, instantiate, Except.map] using
          instantiate_name hs.noPlaceholder (.inl rfl) []
      · rw [joinSegments_cons hempty, joinSegments_cons (fillSegments_ne_nil hempty _),
          instantiate_name hs.noPlaceholder (.inr ⟨_, rfl⟩), htail hempty hcount']
        rfl

/-- What `DM_PRIV_FormInstantiatedPath` does with a clean schema path and as
many numbers as it has placeholders. -/
theorem formInstantiatedPath_eq {path : Str} {inst : List Int}
    (hclean : CleanSegments (segments path)) (hcount : placeholders path = inst.length)
    (len : Nat) :
    formInstantiatedPath path inst len =
      if (instantiatedText path (inst.map intDigits)).length < len then
        some (.ok (instantiatedText path (inst.map intDigits))) else none := by
  have h := instantiate_segments hclean (segments_ne_nil path) hcount
  rw [joinSegments_segments] at h
  exact instantiateLoop_eq h

/-! ## Reading such a text back -/

theorem addWildcards_clean (hs : '*' ∉ s) (hash : UInt32) :
    addWildcards hash s = addAllToHash hash s := by
  induction s generalizing hash with
  | nil => rw [addWildcards_nil, addAllToHash_nil]
  | cons c s ih =>
    have hc : c ≠ '*' := fun h => hs (h ▸ mem_cons_self)
    rw [addWildcards_cons, if_neg hc, addAllToHash_cons,
      ih (fun h => hs (mem_cons_of_mem _ h))]

theorem not_all_numeric (hs : NameOk s) : s.all isNumeric = false := by
  cases s with
  | nil => exact absurd rfl hs.1
  | cons c s =>
    have hc : isNumeric c = false := by
      have := hs.2.2
      simp only [isInstanceSegment, Bool.or_eq_false_iff] at this
      exact this.2
    simp [hc]

theorem addAllToHash_join (s : Str) (segs : List Str) :
    addAllToHash hash (joinSegments (s :: segs)) =
      segs.foldl (fun h t => addAllToHash h ('.' :: t)) (addAllToHash hash s) := by
  induction segs generalizing hash s with
  | nil => simp [joinSegments]
  | cons t segs ih =>
    rw [joinSegments_cons (cons_ne_nil _ _), addAllToHash_append, addAllToHash_cons, ih]
    rfl

/-- The numeral of a natural number is read as that number in a signed word. -/
def readBack (n : Nat) : Int := signedWord (UInt32.ofNat n)

theorem hashSegments_fill {hash : UInt32} {inst : List Int} (hclean : CleanSegments segs)
    (hcount : segs.count multiSeparator = nums.length)
    (hroom : inst.length + nums.length ≤ maxDmInstanceOrder) :
    hashSegments (hash, inst) (fillSegments segs (nums.map natDigits)) =
      .ok (segs.foldl (fun h t => addAllToHash h ('.' :: t)) hash, inst ++ nums.map readBack) := by
  induction segs generalizing nums hash inst with
  | nil =>
    obtain rfl : nums = [] := eq_nil_of_length_eq_zero hcount.symm
    simp [fillSegments]
  | cons s segs ih =>
    have hclean' : CleanSegments segs := fun t ht => hclean t (mem_cons_of_mem _ ht)
    rcases hclean s mem_cons_self with rfl | hs
    · obtain ⟨n, nums, rfl⟩ : ∃ n ns, nums = n :: ns := by
        cases nums with
        | nil => simp at hcount
        | cons n ns => exact ⟨n, ns, rfl⟩
      have hcount' : segs.count multiSeparator = nums.length := by simpa using hcount
      rw [length_cons] at hroom
      rw [map_cons, fillSegments, if_pos rfl, hashSegments_cons, hashSegment,
        if_pos (show (natDigits n).all isNumeric = true from natDigits_all n),
        if_neg (by simp only; omega), Except.bind,
        ih hclean' hcount' (by simp only [length_append, length_singleton]; omega),
        wordValue_natDigits]
      simp only [foldl_cons, addSeparator, map_cons, readBack, append_assoc,
        singleton_append]
    · have hcount' : segs.count multiSeparator = nums.length := by
        rwa [count_cons_of_ne hs.ne_multi] at hcount
      have hnum : ¬ s.all isNumeric = true := by rw [not_all_numeric hs.ok]; decide
      rw [fillSegments_name hs.ne_multi, hashSegments_cons, hashSegment, if_neg hnum,
        Except.bind, ih hclean' hcount' hroom, addWildcards_clean hs.noWildcard]
      rfl

theorem nonEmpty_of_all (h : ∀ s ∈ segs, s ≠ []) : nonEmpty segs = segs := by
  simpa [nonEmpty] using h

/-- Reading back a schema path whose placeholders were replaced by numerals. -/
theorem calcHashFromPath_text {path : Str} (hclean : CleanSegments (segments path))
    (hfirst : firstSegment path ≠ multiSeparator) (hcount : placeholders path = nums.length)
    (hroom : nums.length ≤ maxDmInstanceOrder) :
    calcHashFromPath (instantiatedText path (nums.map natDigits)) =
      .ok (calcHash path, nums.map readBack) := by
  obtain ⟨f, fs, hf⟩ := exists_cons_of_ne_nil (segments_ne_nil path)
  have hfirst' : f ≠ multiSeparator := by simpa [firstSegment, hf] using hfirst
  have hfname : CleanName f :=
    (hclean f (by simp [hf])).resolve_left hfirst'
  have hfs : CleanSegments fs := fun t ht => hclean t (by simp [hf, ht])
  have hcount' : fs.count multiSeparator = nums.length := by
    rw [← hcount, placeholders, show path.splitOn '.' = f :: fs from hf,
      count_cons_of_ne hfirst']
  have hfill : fillSegments (segments path) (nums.map natDigits) =
      f :: fillSegments fs (nums.map natDigits) := by rw [hf, fillSegments_name hfirst']
  have hmem : ∀ s ∈ f :: fillSegments fs (nums.map natDigits), '.' ∉ s ∧ s ≠ [] := by
    have hname : ∀ s, CleanName s → '.' ∉ s ∧ s ≠ [] := fun s hs => ⟨hs.ok.2.1, hs.ok.1⟩
    intro s hs
    rcases List.mem_cons.mp hs with rfl | hs
    · exact hname s hfname
    · rcases mem_fillSegments hs with hs | hs
      · rcases hfs s hs with rfl | hs
        · decide
        · exact hname s hs
      · obtain ⟨n, -, rfl⟩ := List.mem_map.mp hs
        exact ⟨fun h => absurd (isDigit_of_mem_natDigits h) (by decide), natDigits_ne_nil n⟩
  have hsegs : segments (instantiatedText path (nums.map natDigits)) =
      f :: fillSegments fs (nums.map natDigits) := by
    rw [instantiatedText, hfill, segments_join (fun s hs => (hmem s hs).1) (by simp)]
  have hlater : laterSegments (instantiatedText path (nums.map natDigits)) =
      fillSegments fs (nums.map natDigits) := by
    rw [laterSegments, hsegs, tail_cons]
    exact nonEmpty_of_all fun s hs => (hmem s (mem_cons_of_mem _ hs)).2
  have hhead : firstSegment (instantiatedText path (nums.map natDigits)) = f := by
    rw [firstSegment, hsegs]
    rfl
  have hhash : calcHash path = fs.foldl (fun h t => addAllToHash h ('.' :: t))
      (addAllToHash offsetBasis f) := by
    rw [← addAllToHash_join, ← hf, joinSegments_segments]
    rfl
  rw [calcHashFromPath_eq, hlater, hhead, addWildcards_clean hfname.noWildcard,
    hashSegments_fill hfs hcount' (by simpa using hroom), hhash]
  rfl

end PathText
