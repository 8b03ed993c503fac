import SdtTr369.InstanceTree

/-!
# Which paths are looked up rightly

A path is hashed as its schema text, in which every number is a placeholder. An
`Ordinary` path fits its buffers, has numbers that an instance can have, and
shares its hashes with no other path. Such a path is found exactly at the node
with its schema text (`lookup_path`, `locate`).
-/

namespace PathLookup

open UspTypes TextUtils Schema SchemaInvariant DecimalText PathCodec PathText PathRoundTrip List
open InstanceTree

/-! ## Schema texts -/

def schemaSegment (s : Str) : Str := if s.all isNumeric then multiSeparator else s

def schemaText (path : Str) : Str :=
  joinSegments (firstSegment path :: (laterSegments path).map schemaSegment)

/-- The numbers of the segments that are numerals. -/
def segmentNumbers (segs : List Str) : List Int :=
  (segs.filter fun s => s.all isNumeric).map fun s => signedWord (wordValue s)

def pathNumbers (path : Str) : List Int := segmentNumbers (laterSegments path)

theorem segmentNumbers_cons (s : Str) (segs : List Str) : segmentNumbers (s :: segs) =
    if s.all isNumeric then signedWord (wordValue s) :: segmentNumbers segs
    else segmentNumbers segs := by
  unfold segmentNumbers
  rw [filter_cons]
  split <;> rfl

theorem segmentNumbers_append (l l' : List Str) :
    segmentNumbers (l ++ l') = segmentNumbers l ++ segmentNumbers l' := by
  simp [segmentNumbers]

variable {segs : List Str}

theorem mem_joinSegments {s : Str} {c : Char} (hs : s ∈ segs) (hc : c ∈ s) :
    c ∈ joinSegments segs := by
  induction segs with
  | nil => cases hs
  | cons t segs ih =>
    by_cases hsegs : segs = []
    · subst hsegs
      obtain rfl := List.mem_singleton.mp hs
      simpa [joinSegments] using hc
    · rw [joinSegments_cons hsegs, mem_append, mem_cons]
      rcases List.mem_cons.mp hs with rfl | hs
      · exact .inl hc
      · exact .inr (.inr (ih hs))

theorem mem_of_segment {path s : Str} {c : Char} (hs : s ∈ segments path) (hc : c ∈ s) :
    c ∈ path := joinSegments_segments path ▸ mem_joinSegments hs hc

theorem firstSegment_mem (path : Str) : firstSegment path ∈ segments path := by
  obtain ⟨f, fs, hf⟩ := exists_cons_of_ne_nil (segments_ne_nil path)
  simp [firstSegment, hf]

theorem mem_laterSegments {path s : Str} (h : s ∈ laterSegments path) : s ∈ segments path :=
  mem_of_mem_tail (List.mem_filter.mp h).1

theorem hashSegments_schema (hstar : ∀ s ∈ segs, '*' ∉ s) (hash : UInt32) {inst : List Int}
    (hinst : inst.length ≤ maxDmInstanceOrder) :
    hashSegments (hash, inst) segs =
      if inst.length + (segmentNumbers segs).length ≤ maxDmInstanceOrder then
        .ok ((segs.map schemaSegment).foldl (fun h t => addAllToHash h ('.' :: t)) hash,
          inst ++ segmentNumbers segs)
      else .error .internalError := by
  induction segs generalizing hash inst with
  | nil => simp [segmentNumbers, hinst]
  | cons s segs ih =>
    have ih := fun hash inst hinst =>
      @ih (fun t ht => hstar t (mem_cons_of_mem _ ht)) hash inst hinst
    rw [hashSegments_cons, hashSegment, segmentNumbers_cons, map_cons, foldl_cons,
      schemaSegment]
    by_cases hnum : s.all isNumeric = true
    · rw [if_pos hnum, if_pos hnum, if_pos hnum]
      by_cases hfull : inst.length = maxDmInstanceOrder
      · rw [if_pos hfull, if_neg (by simp only [length_cons]; omega), Except.bind]
      · have hroom : (inst ++ [signedWord (wordValue s)]).length ≤ maxDmInstanceOrder := by
          rw [length_append, length_singleton]
          omega
        rw [if_neg hfull, Except.bind, ih _ _ hroom]
        simp only [length_append, length_cons, length_nil, append_assoc,
          cons_append, nil_append, Nat.add_assoc, Nat.add_comm 1, addSeparator]
    · rw [if_neg hnum, if_neg hnum, if_neg hnum, Except.bind, ih _ _ hinst,
        addWildcards_clean (hstar s mem_cons_self)]
      rfl

/-- A path without wildcards is hashed as its schema text. -/
theorem calcHashFromPath_schema {path : Str} (hstar : '*' ∉ path) :
    calcHashFromPath path =
      if (pathNumbers path).length ≤ maxDmInstanceOrder then
        .ok (calcHash (schemaText path), pathNumbers path)
      else .error .internalError := by
  have hfirst : '*' ∉ firstSegment path := fun h =>
    hstar (mem_of_segment (firstSegment_mem path) h)
  rw [calcHashFromPath_eq, hashSegments_schema
    (fun s hs hc => hstar (mem_of_segment (mem_laterSegments hs) hc)) _ (Nat.zero_le _),
    addWildcards_clean hfirst, schemaText, calcHash, addAllToHash_join, pathNumbers,
    length_nil, Nat.zero_add, nil_append]

theorem calcHash_separator (text : Str) :
    addSeparator (calcHash text) = calcHash (text ++ '.' :: multiSeparator) := by
  rw [calcHash, calcHash, addAllToHash_append]
  rfl

theorem joinSegments_snoc (h : segs ≠ []) (s : Str) :
    joinSegments (segs ++ [s]) = joinSegments segs ++ '.' :: s := by
  induction segs with
  | nil => exact absurd rfl h
  | cons t segs ih =>
    by_cases hsegs : segs = []
    · subst hsegs
      simp [joinSegments]
    · rw [cons_append, joinSegments_cons (by simp), joinSegments_cons hsegs, ih hsegs]
      simp

section Extend

variable {path s : Str} (hdot : '.' ∉ s) (hne : s ≠ [])

include hdot hne

theorem segments_snoc (path : Str) : firstSegment (path ++ '.' :: s) = firstSegment path ∧
    laterSegments (path ++ '.' :: s) = laterSegments path ++ [s] := by
  obtain ⟨f, fs, hf⟩ := exists_cons_of_ne_nil (segments_ne_nil path)
  simp only [firstSegment, laterSegments, segments_append_dot, segments_single hdot, hf,
    cons_append, headD_cons, tail_cons, nonEmpty, filter_append]
  simp [hne]

theorem schemaText_snoc :
    schemaText (path ++ '.' :: s) = schemaText path ++ '.' :: schemaSegment s := by
  obtain ⟨hfirst, hlater⟩ := segments_snoc hdot hne path
  rw [schemaText, schemaText, hfirst, hlater, map_append, map_singleton,
    ← cons_append, joinSegments_snoc (by simp)]

theorem pathNumbers_snoc : pathNumbers (path ++ '.' :: s) =
    pathNumbers path ++ if s.all isNumeric then [signedWord (wordValue s)] else [] := by
  rw [pathNumbers, (segments_snoc hdot hne _).2, segmentNumbers_append, segmentNumbers_cons]
  rfl

end Extend

theorem placeholders_schemaText {path : Str} (h : multiSeparator ∉ segments path) :
    placeholders (schemaText path) = (pathNumbers path).length := by
  have hlater : ∀ segs : List Str, multiSeparator ∉ segs →
      (segs.map schemaSegment).count multiSeparator = (segmentNumbers segs).length := by
    intro segs
    induction segs with
    | nil => simp [segmentNumbers]
    | cons s segs ih =>
      intro hs
      have ih := ih fun hmem => hs (mem_cons_of_mem _ hmem)
      have hsne : s ≠ multiSeparator := fun heq => hs (heq ▸ mem_cons_self)
      rw [map_cons, segmentNumbers_cons, schemaSegment]
      by_cases hnum : s.all isNumeric = true
      · rw [if_pos hnum, if_pos hnum, count_cons_self, length_cons, ih]
      · rw [if_neg hnum, if_neg hnum, count_cons_of_ne hsne, ih]
  have hdots : ∀ s ∈ firstSegment path :: (laterSegments path).map schemaSegment, '.' ∉ s := by
    have hseg : ∀ s ∈ segments path, '.' ∉ s := dot_not_mem_segment path
    intro s hs
    rcases List.mem_cons.mp hs with rfl | hs
    · exact hseg _ (firstSegment_mem path)
    · obtain ⟨t, ht, rfl⟩ := List.mem_map.mp hs
      unfold schemaSegment
      split
      · decide
      · exact hseg t (mem_laterSegments ht)
  have hsplit := segments_join hdots (cons_ne_nil _ _)
  have hfirst : firstSegment path ≠ multiSeparator := fun heq =>
    h (heq ▸ firstSegment_mem path)
  rw [placeholders, schemaText, show (joinSegments _).splitOn '.' = _ from hsplit,
    count_cons_of_ne hfirst, hlater _ fun hmem => h (mem_laterSegments hmem), pathNumbers]

/-! ## Ordinary paths -/

/-- No node has the hash of this text but one with this path. -/
def OwnHash (S : DmTree) (text : Str) : Prop :=
  ∀ id < S.nodes.length, (S.node id).hash = calcHash text → (S.node id).path = text

/-- A path that no limit of the source touches: it fits the buffers, its
numbers fit an instance number, it is written without placeholders, and neither
it nor the path of an object on the way has the hash of another path. -/
structure Ordinary (S : DmTree) (path : Str) : Prop where
  short : path.length < maxDmPath - 1
  noWildcard : '*' ∉ path
  noPlaceholder : multiSeparator ∉ segments path
  numbers : ∀ n : Int, intDigits n ∈ segments path → 0 ≤ n ∧ n < signedLimit
  hashes : ∀ root, (root = path ∨ ∃ r, path = root ++ '.' :: r) →
    OwnHash S (schemaText root) ∧ OwnHash S (schemaText root ++ '.' :: multiSeparator)

theorem Ordinary.root {S : DmTree} {root r : Str} (h : Ordinary S (root ++ '.' :: r)) :
    Ordinary S root where
  short := by
    have := h.short
    rw [length_append] at this
    omega
  noWildcard hc := h.noWildcard (mem_append_left _ hc)
  noPlaceholder hs := h.noPlaceholder (by
    rw [segments_append_dot]
    exact mem_append_left _ hs)
  numbers n hn := h.numbers n (by
    rw [segments_append_dot]
    exact mem_append_left _ hn)
  hashes root' hroot := by
    refine h.hashes root' (.inr ?_)
    rcases hroot with rfl | ⟨r', rfl⟩
    · exact ⟨r, rfl⟩
    · exact ⟨r' ++ '.' :: r, by simp⟩

/-- The dot and the placeholder behind the schema text of an object that has no number. -/
def openPlaceholder (isQualified : Bool) : Str :=
  if isQualified then [] else '.' :: multiSeparator

section Lookup

variable {limit : Nat} {S : DmTree}

theorem last_segment {x y s s' : Str} (hs : '.' ∉ s) (hs' : '.' ∉ s')
    (h : x ++ '.' :: s = y ++ '.' :: s') : x = y ∧ s = s' := by
  have hsegs := congrArg segments h
  rw [segments_append_dot, segments_append_dot, segments_single hs, segments_single hs'] at hsegs
  have heq : s = s' := List.singleton_inj.mp (append_inj' hsegs rfl).2
  subst heq
  exact ⟨append_cancel_right h, rfl⟩

variable {id : NodeId}

theorem linked_cases (hS : SchemaOk limit S) (hid : id < S.nodes.length) :
    (id = 0 ∨ id = 1) ∨ ∃ p < S.nodes.length, id ∈ (S.node p).childNodes := by
  by_cases h2 : 2 ≤ id
  · exact .inr (hS.linked id hid h2)
  · exact .inl (Nat.le_one_iff_eq_zero_or_eq_one.mp (Nat.le_of_lt_succ (Nat.not_le.mp h2)))

/-- A node whose path has more than one segment has a parent. -/
theorem exists_parent (hS : SchemaOk limit S) (hid : id < S.nodes.length)
    (hdot : '.' ∈ (S.node id).path) : ∃ p < S.nodes.length, id ∈ (S.node p).childNodes := by
  rcases linked_cases hS hid with (rfl | rfl) | h
  · rw [hS.root_paths.1] at hdot
    exact absurd hdot (by decide)
  · rw [hS.root_paths.2] at hdot
    exact absurd hdot (by decide)
  · exact h

/-- A table has no sibling with its name and no numbers. -/
theorem no_plain_table (hS : SchemaOk limit S) {id' : NodeId} (hid : id < S.nodes.length)
    (hid' : id' < S.nodes.length) (hm : (S.node id).type = .objectMultiInstance) {text : Str}
    (hpath : (S.node id).path = text ++ '.' :: multiSeparator) : (S.node id').path ≠ text := by
  intro hpath'
  obtain ⟨p, hp, hc⟩ := exists_parent hS hid (by rw [hpath]; simp)
  have htext : text = (S.node p).path ++ '.' :: (S.node id).name := by
    rw [hS.child_path p hp id hc, separator, if_pos hm] at hpath
    exact (append_cancel_right hpath).symm
  have hname := hS.child_name p hp id hc
  obtain ⟨p', hp', hc'⟩ := exists_parent hS hid' (by rw [hpath', htext]; simp)
  have hname' := hS.child_name p' hp' id' hc'
  rw [hS.child_path p' hp' id' hc', htext, separator] at hpath'
  split at hpath'
  · have h := (last_segment (by decide) hname.2.1 hpath').2
    rw [← h] at hname
    exact absurd hname.2.2 (by decide)
  · rename_i hm'
    rw [append_nil] at hpath'
    obtain ⟨hpp, hnn⟩ := last_segment hname'.2.1 hname.2.1 hpath'
    obtain rfl := path_inj hS hp' hp hpp
    have := inj_on_of_nodup_map (hS.sibling_names _ hp') hc' hc hnn
    exact hm' (this ▸ hm)

theorem zipNodes_append (t : DmInstances) (r : List NodeId) :
    zipNodes (t.map Prod.fst ++ r) (instances t) = t := by
  induction t with
  | nil => cases r <;> rfl
  | cons x t ih => exact congrArg (x :: ·) ih

variable (hS : SchemaOk maxDmInstanceOrder S) {path : Str} (hpath : Ordinary S path)

include hS hpath

/-- Where an ordinary path leads has its schema text. -/
theorem lookup_path {node : NodeId} {inst : DmInstances} {isQualified : Bool}
    (h : getQualifiedNode S path = some (node, inst, isQualified)) :
    (S.node node).path = schemaText path ++ openPlaceholder isQualified ∧
      instances inst = pathNumbers path := by
  unfold getQualifiedNode at h
  split at h
  · cases h
  · rename_i id inst' hget
    obtain ⟨hash, hcalc, hfind, -⟩ := getNodeFromPath_some hget
    have hlt := findPathNode_lt hS hfind
    rw [calcHashFromPath_schema hpath.noWildcard] at hcalc
    split at hcalc
    · simp only [Except.ok.injEq, Prod.mk.injEq] at hcalc
      obtain ⟨rfl, hnums⟩ := hcalc
      obtain ⟨l, hl⟩ := exists_treePath hS id hlt
      have horder : (S.node id).order = placeholders (S.node id).path := by
        rw [hS.order_eq id hlt, hl.placeholders_eq hS]
      have hlen : inst'.length = placeholders (schemaText path) := by
        rw [placeholders_schemaText hpath.noPlaceholder, hnums]
        simp [instances]
      obtain ⟨hown, hown'⟩ := hpath.hashes path (.inl rfl)
      have hwhich : (S.node id).path = schemaText path ∨
          (S.node id).path = schemaText path ++ '.' :: multiSeparator := by
        unfold findPathNode at hfind
        split at hfind
        · rename_i hfound
          cases hfind
          exact .inl (hown id hlt ((findNodeFromHash_some hS).mp hfound).2)
        · rw [calcHash_separator] at hfind
          exact .inr (hown' id hlt ((findNodeFromHash_some hS).mp hfind).2)
      rcases hwhich with hplain | hopen
      · rw [if_pos (by rw [horder, hplain, hlen])] at h
        cases h
        exact ⟨by rw [hplain, openPlaceholder, if_pos rfl, append_nil], hnums.symm⟩
      · have hplus : (S.node id).order = inst'.length + 1 := by
          rw [horder, hopen, hlen, placeholders, placeholders, splitOn_append_cons_self,
            count_append]
          rfl
        rw [if_neg (by omega)] at h
        split at h
        · cases h
        · rw [if_pos hplus.symm] at h
          cases h
          exact ⟨by rw [hopen]; rfl, hnums.symm⟩
    · cases hcalc

/-- An ordinary path with the schema text of a node is found at that node. -/
theorem locate {node : NodeId} {inst : DmInstances} {isQualified : Bool}
    (hlt : node < S.nodes.length)
    (htext : (S.node node).path = schemaText path ++ openPlaceholder isQualified)
    (hnums : instances inst = pathNumbers path)
    (hnodes : inst.map Prod.fst ++ (if isQualified then [] else [node]) =
      (S.node node).instanceNodes)
    (htable : isQualified = false → (S.node node).type = .objectMultiInstance) :
    getQualifiedNode S path = some (node, inst, isQualified) := by
  have horder := hS.order_eq node hlt
  have hlen : (pathNumbers path).length = inst.length := by rw [← hnums]; simp [instances]
  have hfew : (pathNumbers path).length ≤ maxDmInstanceOrder := by
    have := hS.order_le node hlt
    rw [horder, ← hnodes, length_append, length_map] at this
    omega
  have hfind : findPathNode S (calcHash (schemaText path)) = some node := by
    unfold findPathNode
    cases isQualified with
    | true =>
      rw [openPlaceholder, if_pos rfl, append_nil] at htext
      rw [← htext, find_own_path hS hlt]
    | false =>
      have htext : (S.node node).path = schemaText path ++ '.' :: multiSeparator := htext
      have hnone : findNodeFromHash S (calcHash (schemaText path)) = none := by
        rw [findNodeFromHash_none hS]
        intro id hid hhash
        exact no_plain_table hS hlt hid (htable rfl) htext
          ((hpath.hashes path (.inl rfl)).1 id hid hhash)
      rw [hnone, calcHash_separator, ← htext]
      exact find_own_path hS hlt
  have hget : getNodeFromPath S path = some (node, inst) := by
    unfold getNodeFromPath
    rw [calcHashFromPath_schema hpath.noWildcard, if_pos hfew]
    simp only [hfind, ← hnodes, ← hnums, zipNodes_append]
  unfold getQualifiedNode
  rw [hget]
  have hnodesLen := congrArg List.length hnodes
  rw [length_append, length_map, ← horder] at hnodesLen
  cases isQualified with
  | true =>
    simp only [if_true, length_nil, Nat.add_zero] at hnodesLen
    simp only [hnodesLen, if_true]
  | false =>
    simp only [Bool.false_eq_true, if_false, length_singleton] at hnodesLen
    have hne : inst.length ≠ (S.node node).order := by omega
    simp only [if_neg hne, htable rfl, ne_eq, not_true_eq_false, if_false, hnodesLen, if_true]

end Lookup

/-! ## One name or number more -/

section Steps

variable {S : DmTree} (hS : SchemaOk maxDmInstanceOrder S) {path : Str} {node child : NodeId}
  {inst : DmInstances}

include hS

section

variable (hget : getQualifiedNode S path = some (node, inst, true))
include hget

/-- A name behind the path of an object. -/
theorem name_step (hpath : Ordinary S path) (hc : child ∈ (S.node node).childNodes) :
    child < S.nodes.length ∧ (S.node child).instanceNodes =
      extendInst (inst.map Prod.fst) (S.node child).type child ∧
    (S.node child).path = schemaText (path ++ '.' :: (S.node child).name) ++
      separator (S.node child).type ∧
    instances inst = pathNumbers (path ++ '.' :: (S.node child).name) := by
  obtain ⟨hlt, hnodes, -⟩ := getQualifiedNode_spec hS hget
  obtain ⟨htext, hnums⟩ := lookup_path hS hpath hget
  have hok := hS.child_name node hlt child hc
  rw [schemaText_snoc hok.2.1 hok.1, pathNumbers_snoc hok.2.1 hok.1, schemaSegment,
    not_all_numeric hok, hnodes rfl, hS.child_inst node hlt child hc,
    hS.child_path node hlt child hc, htext]
  exact ⟨(hS.child_bounds node hlt child hc).2, rfl, by simp [openPlaceholder], by simpa using hnums⟩

theorem lookup_child (hpath : Ordinary S (path ++ '.' :: (S.node child).name))
    (hc : child ∈ (S.node node).childNodes) (htype : (S.node child).type ≠ .objectMultiInstance) :
    getQualifiedNode S (path ++ '.' :: (S.node child).name) = some (child, inst, true) := by
  obtain ⟨hlt, hnodes, htext, hnums⟩ := name_step hS hget hpath.root hc
  refine locate hS hpath hlt ?_ hnums ?_ nofun
  · rw [htext, separator, if_neg htype]
    rfl
  · rw [hnodes, extendInst, if_neg htype]
    exact append_nil _

theorem lookup_table (hpath : Ordinary S (path ++ '.' :: (S.node child).name))
    (hc : child ∈ (S.node node).childNodes) (htype : (S.node child).type = .objectMultiInstance) :
    getQualifiedNode S (path ++ '.' :: (S.node child).name) = some (child, inst, false) := by
  obtain ⟨hlt, hnodes, htext, hnums⟩ := name_step hS hget hpath.root hc
  refine locate hS hpath hlt ?_ hnums ?_ fun _ => htype
  · rw [htext, separator, if_pos htype]
    rfl
  · rw [hnodes, extendInst, if_pos htype]
    rfl

end

theorem lookup_number {n : Int} (hget : getQualifiedNode S path = some (node, inst, false))
    (hpath : Ordinary S (path ++ '.' :: intDigits n)) :
    getQualifiedNode S (path ++ '.' :: intDigits n) = some (node, inst ++ [(node, n)], true) := by
  obtain ⟨hlt, -, htable⟩ := getQualifiedNode_spec hS hget
  obtain ⟨htext, hnums⟩ := lookup_path hS hpath.root hget
  have hmem : intDigits n ∈ segments (path ++ '.' :: intDigits n) := by
    rw [segments_append_dot, segments_single (dot_not_mem_intDigits n)]
    simp
  obtain ⟨hpos, hsmall⟩ := hpath.numbers n hmem
  obtain ⟨k, rfl⟩ := Int.eq_ofNat_of_zero_le hpos
  have hnumeric : (intDigits (k : Int)).all isNumeric = true := natDigits_all k
  have hback : signedWord (wordValue (intDigits (k : Int))) = k := by
    rw [intDigits_natCast, wordValue_natDigits]
    exact readBack_of_lt (by omega)
  have hdot := dot_not_mem_intDigits (k : Int)
  have hne := intDigits_ne_nil (k : Int)
  refine locate hS hpath hlt ?_ ?_ ?_ nofun
  · rw [htext, schemaText_snoc hdot hne, schemaSegment, if_pos hnumeric]
    simp [openPlaceholder]
  · rw [pathNumbers_snoc hdot hne, if_pos hnumeric, hback, ← hnums]
    simp [instances]
  · rw [← (htable rfl).2]
    simp

end Steps

end PathLookup
