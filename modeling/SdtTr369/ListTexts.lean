import SdtTr369.CBuffers
import SdtTr369.DataModelRead
import SdtTr369.ExprVector
import SdtTr369.HexText
import SdtTr369.InstantiatedBuffers

/-!
# Lists as texts

`TEXT_UTILS_ListToString` puts a comma and a blank between two items, and `TEXT_UTILS_SplitString`
cuts at a separator outside the quoted parts of a text. A quote without a partner ends the search
for separators, so that nothing behind it is cut.
-/

namespace ListTexts

open UspTypes CBuffers ExprVector List
open InstantiatedBuffers (uspSnprintf)
open DataModelRead (maxDmValueLen)

/-! ## The two functions -/

/-- One text is printed behind the cells that are there, into the room that is left. -/
def printItem (s : Buffer × Nat) (text : Str) : Buffer × Nat :=
  let printed := uspSnprintf s.2 text
  (s.1 ++ printed.1.take printed.2, s.2 - printed.2)

/-- The loop of `TEXT_UTILS_ListToString` behind the first item. -/
def printItems (s : Buffer × Nat) (items : List Str) : Buffer × Nat :=
  items.foldl (fun s item => printItem (printItem s [',', ' ']) item) s

/-- `TEXT_UTILS_ListToString`, as the text that is left in a buffer of `len` cells. -/
def listToString (items : List Str) (len : Nat) : Option Str :=
  if len = 0 then none
  else
    let s :=
      match items with
      | [] => ([], len)
      | item :: items => printItems (printItem ([], len) item) items
    -- the last terminator is in the first of the cells that are left
    readString (s.1 ++ List.replicate s.2 nul)

/-- The loop of `TEXT_UTILS_SplitString`. An empty separator is not found. -/
def addPieces (separator s : Str) : List Str :=
  if _hsep : separator = [] then [trimBuffer s].filter (· ≠ [])
  else
    match _h : splitAtSeparator separator s with
    | none => [trimBuffer s].filter (· ≠ [])
    | some (piece, rest) => [trimBuffer piece].filter (· ≠ []) ++ addPieces separator rest
termination_by s.length
decreasing_by
  exact splitAtSeparator_length _hsep _h

/-- `TEXT_UTILS_SplitString` -/
def splitString (str separator : Str) : List Str :=
  if str = [] then [] else addPieces separator (clip maxDmValueLen str)

/-! ## Where a text is cut -/

/-- The point behind `before` is in no quoted part of `before ++ after`. Whether a quote without a
partner is `ordinary` text is left open; otherwise all behind it is quoted. -/
inductive Outside (ordinary : Bool) : Str → Str → Prop
  | start (after : Str) : Outside ordinary [] after
  | plain {c : Char} {before after : Str} (hc : isQuote c = false)
    (h : Outside ordinary before after) : Outside ordinary (c :: before) after
  | quoted {q : Char} {inside before after : Str} (hq : isQuote q = true) (hinside : q ∉ inside)
    (h : Outside ordinary before after) : Outside ordinary (q :: inside ++ q :: before) after
  | unpaired {q : Char} {before after : Str} (hordinary : ordinary = true) (hq : isQuote q = true)
    (hno : q ∉ before ++ after) (h : Outside ordinary before after) :
    Outside ordinary (q :: before) after

/-- A separator between the two texts is outside the quoted parts. One that begins with a quote
never is. -/
structure Begins (ordinary : Bool) (separator before after : Str) : Prop where
  outside : Outside ordinary before (separator ++ after)
  head : ∀ c, separator.head? = some c → isQuote c = false

/-- The pieces of a text, cut at the first separator outside the quoted parts, and behind it at
the next. -/
inductive Cuts (ordinary : Bool) (separator : Str) : Str → List Str → Prop
  | last {text : Str}
    (h : ∀ before after, text = before ++ separator ++ after →
      ¬ Begins ordinary separator before after) : Cuts ordinary separator text [text]
  | cut {before after : Str} {pieces : List Str} (hbegins : Begins ordinary separator before after)
    (hfirst : ∀ before' after', before ++ separator ++ after = before' ++ separator ++ after' →
      Begins ordinary separator before' after' → before.length ≤ before'.length)
    (h : Cuts ordinary separator after pieces) :
    Cuts ordinary separator (before ++ separator ++ after) (before :: pieces)

variable {text : Str} {pieces : List Str}

section Cutting

variable {ordinary : Bool} {separator s : Str}

theorem cuts_ne_nil (h : Cuts ordinary separator text pieces) : pieces ≠ [] := by
  cases h with
  | last _ => exact cons_ne_nil _ _
  | cut _ _ _ => exact cons_ne_nil _ _

/-- Nothing but separators is between the pieces. -/
theorem join_cuts (h : Cuts ordinary separator text pieces) :
    separator.intercalate pieces = text := by
  induction h with
  | last _ => exact intercalate_singleton
  | @cut before after pieces _ _ h ih =>
    cases pieces with
    | nil => exact (cuts_ne_nil h rfl).elim
    | cons piece pieces => rw [intercalate_cons_cons, ih]

/-- A text is cut in one way only. -/
theorem cuts_unique {pieces' : List Str} (h : Cuts ordinary separator text pieces)
    (h' : Cuts ordinary separator text pieces') : pieces' = pieces := by
  induction h generalizing pieces' with
  | @last text hlast =>
    generalize htext : text = s at h'
    cases h' with
    | last _ => rfl
    | cut hbegins _ _ => exact (hlast _ _ htext hbegins).elim
  | @cut before after pieces hbegins hfirst h ih =>
    generalize htext : before ++ separator ++ after = s at h'
    cases h' with
    | last hlast => exact (hlast before after htext.symm hbegins).elim
    | @cut before' after' pieces' hbegins' hfirst' h' =>
      have hle := hfirst before' after' htext hbegins'
      have hge := hfirst' before after htext.symm hbegins
      have hfront : before ++ separator = before' ++ separator ∧ after = after' := by
        apply append_inj htext
        rw [length_append, length_append]
        omega
      have hpieces : pieces' = pieces := ih (hfront.2 ▸ h')
      rw [append_cancel_right hfront.1, hpieces]

theorem stop_at {q : Char} {front : Str} (h : q ∉ front) (back : Str) :
    (front ++ q :: back).takeWhile (· ≠ q) = front ∧
      (front ++ q :: back).dropWhile (· ≠ q) = q :: back := by
  have hfront : ∀ c ∈ front, decide (c ≠ q) = true := fun c hc =>
    decide_eq_true fun heq => h (heq ▸ hc)
  rw [takeWhile_append_of_pos hfront, dropWhile_append_of_pos hfront]
  simp

/-- A quoted part is passed over. -/
theorem splitAtSeparator_quoted {q : Char} {inside : Str} (rest : Str) (hq : isQuote q = true)
    (hinside : q ∉ inside) :
    splitAtSeparator separator (q :: inside ++ q :: rest) =
      (splitAtSeparator separator rest).map fun r => (q :: inside ++ q :: r.1, r.2) := by
  obtain ⟨htake, hdrop⟩ := stop_at hinside rest
  rw [cons_append, splitAtSeparator, if_pos hq]
  split
  · next hnil =>
    rw [hdrop] at hnil
    cases hnil
  · next quote after hcons =>
    rw [hdrop] at hcons
    cases hcons
    rw [htake]

theorem splitAtSeparator_found {c : Char} (hc : isQuote c = false)
    (h : separator.isPrefixOf (c :: s) = true) :
    splitAtSeparator separator (c :: s) = some ([], (c :: s).drop separator.length) := by
  rw [splitAtSeparator, hc, if_neg Bool.false_ne_true, if_pos h]

theorem splitAtSeparator_plain {c : Char} (hc : isQuote c = false)
    (h : separator.isPrefixOf (c :: s) = false) :
    splitAtSeparator separator (c :: s) =
      (splitAtSeparator separator s).map fun r => (c :: r.1, r.2) := by
  rw [splitAtSeparator, hc, if_neg Bool.false_ne_true, h, if_neg Bool.false_ne_true]

/-- The separator found is outside the quoted parts. -/
theorem splitAtSeparator_sound {before after : Str} (hne : separator ≠ [])
    (h : splitAtSeparator separator s = some (before, after)) :
    s = before ++ separator ++ after ∧ Begins false separator before after := by
  fun_induction splitAtSeparator separator s generalizing before after with
  | case1 => cases h
  | case2 c s hq hd => cases h
  | case3 c s hq quote rest hd ih =>
    obtain ⟨⟨front, back⟩, hr, heq⟩ := Option.map_eq_some_iff.mp h
    cases heq
    obtain ⟨hrest, hbegins⟩ := ih hr
    have hquote : quote = c := by
      have hhead := head?_dropWhile_not (fun d : Char => decide (d ≠ c)) s
      rw [hd] at hhead
      simpa using hhead
    have hinside : c ∉ s.takeWhile (· ≠ c) := fun hmem => by
      simpa using mem_takeWhile_imp hmem
    have hs : s = s.takeWhile (· ≠ c) ++ quote :: rest := by
      rw [← hd, takeWhile_append_dropWhile]
    subst hquote
    constructor
    · rw [hrest] at hs
      rw [append_assoc, append_assoc, cons_append, cons_append,
        ← append_assoc front, ← hs]
    · exact ⟨.quoted hq hinside hbegins.outside, hbegins.head⟩
  | case4 c s hq hp =>
    cases h
    obtain ⟨rest, hrest⟩ := List.isPrefixOf_iff_prefix.mp hp
    rw [← hrest, drop_left]
    refine ⟨rfl, .start _, fun d hd => ?_⟩
    cases separator with
    | nil => cases hd
    | cons e separator =>
      cases hd
      rw [cons_append] at hrest
      rw [(List.cons.inj hrest).1]
      exact Bool.eq_false_iff.mpr hq
  | case5 c s hq hp ih =>
    obtain ⟨⟨front, back⟩, hr, heq⟩ := Option.map_eq_some_iff.mp h
    cases heq
    obtain ⟨hrest, hbegins⟩ := ih hr
    constructor
    · rw [hrest]
      rfl
    · exact ⟨.plain (Bool.eq_false_iff.mpr hq) hbegins.outside, hbegins.head⟩

/-- A separator outside the quoted parts is found, or one in front of it. -/
theorem splitAtSeparator_complete {before after : Str} (hne : separator ≠ [])
    (h : Begins false separator before after) :
    ∃ r, splitAtSeparator separator (before ++ separator ++ after) = some r ∧
      r.1.length ≤ before.length := by
  obtain ⟨houtside, hhead⟩ := h
  generalize hrest : separator ++ after = rest at houtside
  rw [append_assoc, hrest]
  induction houtside with
  | start _ =>
    cases separator with
    | nil => exact (hne rfl).elim
    | cons c separator =>
      rw [nil_append, ← hrest, cons_append, splitAtSeparator_found (hhead c rfl)]
      · exact ⟨_, rfl, Nat.le_refl _⟩
      · exact List.isPrefixOf_iff_prefix.mpr (prefix_append _ _)
  | @plain c before rest hc _ ih =>
    obtain ⟨r, hr, hle⟩ := ih hrest
    rw [cons_append]
    cases hp : separator.isPrefixOf (c :: (before ++ rest)) with
    | true => exact ⟨_, splitAtSeparator_found hc hp, Nat.zero_le _⟩
    | false =>
      rw [splitAtSeparator_plain hc hp, hr]
      exact ⟨_, rfl, Nat.succ_le_succ hle⟩
  | @quoted q inside before rest hq hinside _ ih =>
    obtain ⟨r, hr, hle⟩ := ih hrest
    have hwhole : q :: inside ++ q :: before ++ rest = q :: inside ++ q :: (before ++ rest) := by
      simp
    rw [hwhole, splitAtSeparator_quoted _ hq hinside, hr]
    refine ⟨_, rfl, ?_⟩
    simp only [length_append, length_cons]
    omega
  | unpaired hordinary _ _ _ _ => cases hordinary

/-- The pieces are those between the separators, without blanks around them. -/
theorem addPieces_cuts (hne : separator ≠ []) (s : Str) :
    ∃ pieces, Cuts false separator s pieces ∧
      addPieces separator s = (pieces.map trimBuffer).filter (· ≠ []) := by
  fun_induction addPieces separator s with
  | case1 s hsep => exact (hne hsep).elim
  | case2 s hsep hnone =>
    refine ⟨[s], .last fun before after hs hbegins => ?_, rfl⟩
    obtain ⟨r, hr, _⟩ := splitAtSeparator_complete hne hbegins
    rw [← hs, hnone] at hr
    cases hr
  | case3 s hsep piece rest hsome ih =>
    obtain ⟨pieces, hcuts, heq⟩ := ih
    obtain ⟨hs, hbegins⟩ := splitAtSeparator_sound hne hsome
    have hfirst : ∀ before' after', piece ++ separator ++ rest = before' ++ separator ++ after' →
        Begins false separator before' after' → piece.length ≤ before'.length := by
      intro before' after' hsame hbegins'
      obtain ⟨r, hr, hle⟩ := splitAtSeparator_complete hne hbegins'
      rw [← hsame, ← hs, hsome] at hr
      cases hr
      exact hle
    refine ⟨piece :: pieces, hs ▸ .cut hbegins hfirst hcuts, ?_⟩
    rw [heq, map_cons, ← filter_append]
    rfl

end Cutting

/-! ## Blanks -/

/-- A text without the blanks around it. -/
structure Trimmed (piece text : Str) : Prop where
  around : ∃ front back, piece = front ++ text ++ back ∧ (∀ c ∈ front, isBlank c = true) ∧
    ∀ c ∈ back, isBlank c = true
  head : ∀ c, text.head? = some c → isBlank c = false
  last : ∀ c, text.getLast? = some c → isBlank c = false

theorem trimBuffer_trimmed (piece : Str) : Trimmed piece (trimBuffer piece) := by
  have hfront := takeWhile_append_dropWhile (p := isBlank) (l := piece)
  have hback := takeWhile_append_dropWhile (p := isBlank)
    (l := (piece.dropWhile isBlank).reverse)
  have hrest : piece.dropWhile isBlank =
      trimBuffer piece ++ ((piece.dropWhile isBlank).reverse.takeWhile isBlank).reverse := by
    rw [trimBuffer, ← reverse_append, hback, reverse_reverse]
  have hhead : ∀ c, (piece.dropWhile isBlank).head? = some c → isBlank c = false := by
    intro c hc
    have hnot := head?_dropWhile_not isBlank piece
    rw [hc] at hnot
    exact hnot
  constructor
  · refine ⟨piece.takeWhile isBlank, ((piece.dropWhile isBlank).reverse.takeWhile isBlank).reverse,
      ?_, fun c hc => mem_takeWhile_imp hc, fun c hc => ?_⟩
    · rw [append_assoc, ← hrest, hfront]
    · exact mem_takeWhile_imp (List.mem_reverse.mp hc)
  · intro c hc
    apply hhead
    rw [hrest, head?_append, hc]
    rfl
  · intro c hc
    have hnot := head?_dropWhile_not isBlank (piece.dropWhile isBlank).reverse
    rw [trimBuffer, getLast?_reverse] at hc
    rw [hc] at hnot
    exact hnot

/-- Only one text is left when the blanks are gone. -/
theorem trimBuffer_eq (front back : Str) (hfront : ∀ c ∈ front, isBlank c = true)
    (hback : ∀ c ∈ back, isBlank c = true) (hne : text ≠ [])
    (hhead : ∀ c, text.head? = some c → isBlank c = false)
    (hlast : ∀ c, text.getLast? = some c → isBlank c = false) :
    trimBuffer (front ++ text ++ back) = text := by
  have hdrop : ∀ l : Str, l ≠ [] → (∀ c, l.head? = some c → isBlank c = false) →
      l.dropWhile isBlank = l := by
    intro l hl hc
    cases l with
    | nil => exact (hl rfl).elim
    | cons c l => rw [dropWhile_cons, hc c rfl]; rfl
  have hreverse : ∀ c, text.reverse.head? = some c → isBlank c = false := fun c hc =>
    hlast c (by rwa [head?_reverse] at hc)
  have hstart : (text ++ back).dropWhile isBlank = text ++ back := by
    apply hdrop
    · simp [hne]
    · intro c hc
      rw [head?_append_of_ne_nil _ hne] at hc
      exact hhead c hc
  rw [trimBuffer, append_assoc, dropWhile_append_of_pos hfront, hstart,
    reverse_append, dropWhile_append_of_pos fun c hc => hback c (List.mem_reverse.mp hc),
    hdrop _ (by simpa using hne) hreverse, reverse_reverse]

/-! ## From a list to a text and back -/

/-- An item of a list: a text without commas, quotes and blanks around it. -/
structure ListItem (item : Str) : Prop where
  ne_nil : item ≠ []
  comma : ',' ∉ item
  quotes : ∀ c ∈ item, isQuote c = false
  terminator : nul ∉ item
  head : ∀ c, item.head? = some c → isBlank c = false
  last : ∀ c, item.getLast? = some c → isBlank c = false

/-- The items with a comma and a blank between them. -/
def listText (items : List Str) : Str := [',', ' '].intercalate items

theorem listText_cons (item : Str) (items : List Str) :
    listText (item :: items) = item ++ items.flatMap ([',', ' '] ++ ·) :=
  HexText.intercalate_cons_flatMap _ _ _

section Items

variable {front item : Str} {items : List Str}

theorem splitAtSeparator_comma (rest : Str) (hcomma : ',' ∉ front)
    (hquotes : ∀ c ∈ front, isQuote c = false) :
    splitAtSeparator [','] (front ++ ',' :: rest) = some (front, rest) := by
  induction front with
  | nil => exact splitAtSeparator_found (by decide) (by simp [List.isPrefixOf])
  | cons c front ih =>
    obtain ⟨hc, hfront⟩ := not_or.mp (List.mem_cons.not.mp hcomma)
    obtain ⟨hquote, hquotes⟩ := List.forall_mem_cons.mp hquotes
    rw [cons_append, splitAtSeparator_plain hquote (by simp [List.isPrefixOf, hc]),
      ih hfront hquotes]
    rfl

theorem splitAtSeparator_no_comma (hcomma : ',' ∉ item) (hquotes : ∀ c ∈ item, isQuote c = false) :
    splitAtSeparator [','] item = none := by
  induction item with
  | nil => exact splitAtSeparator.eq_1 _
  | cons c item ih =>
    obtain ⟨hc, hitem⟩ := not_or.mp (List.mem_cons.not.mp hcomma)
    obtain ⟨hquote, hquotes⟩ := List.forall_mem_cons.mp hquotes
    rw [splitAtSeparator_plain hquote (by simp [List.isPrefixOf, hc]), ih hitem hquotes]
    rfl

theorem trimBuffer_item (h : ListItem item) (hblank : ∀ c ∈ front, isBlank c = true) :
    trimBuffer (front ++ item) = item := by
  have htrim := trimBuffer_eq front [] hblank (by simp) h.ne_nil h.head h.last
  rwa [append_nil] at htrim

/-- An item behind blanks is a piece of its own. -/
theorem item_piece (h : ListItem item) (hblank : ∀ c ∈ front, isBlank c = true) :
    ',' ∉ front ++ item ∧ (∀ c ∈ front ++ item, isQuote c = false) ∧
      [trimBuffer (front ++ item)].filter (· ≠ []) = [item] := by
  have hblanks : ∀ c, isBlank c = true → c ≠ ',' ∧ isQuote c = false := by
    intro c hc
    simp only [isBlank, Bool.or_eq_true, decide_eq_true_eq] at hc
    obtain rfl | rfl := hc <;> decide
  refine ⟨fun hmem => ?_, fun c hc => ?_, ?_⟩
  · cases List.mem_append.mp hmem with
    | inl hfront => exact (hblanks ',' (hblank ',' hfront)).1 rfl
    | inr hitem => exact h.comma hitem
  · cases List.mem_append.mp hc with
    | inl hfront => exact (hblanks c (hblank c hfront)).2
    | inr hitem => exact h.quotes c hitem
  · rw [trimBuffer_item h hblank]
    simp [h.ne_nil]

/-- The pieces of a list's text are its items. -/
theorem addPieces_items (front : Str) (hitem : ListItem item) (hitems : ∀ i ∈ items, ListItem i)
    (hblank : ∀ c ∈ front, isBlank c = true) :
    addPieces [','] (front ++ item ++ items.flatMap ([',', ' '] ++ ·)) = item :: items := by
  induction items generalizing front item with
  | nil =>
    obtain ⟨hcomma, hquotes, htrim⟩ := item_piece hitem hblank
    rw [flatMap_nil, append_nil, addPieces, dif_neg (by decide)]
    split
    · exact htrim
    · next hsome =>
      rw [splitAtSeparator_no_comma hcomma hquotes] at hsome
      cases hsome
  | cons next items ih =>
    obtain ⟨hcomma, hquotes, htrim⟩ := item_piece hitem hblank
    obtain ⟨hnext, hitems⟩ := List.forall_mem_cons.mp hitems
    have hsplit := splitAtSeparator_comma
      ([' '] ++ next ++ items.flatMap ([',', ' '] ++ ·)) hcomma hquotes
    have hrest := ih [' '] hnext hitems (by simp [isBlank])
    have hwhole : front ++ item ++ (next :: items).flatMap ([',', ' '] ++ ·) =
        front ++ item ++ ',' :: ([' '] ++ next ++ items.flatMap ([',', ' '] ++ ·)) := by simp
    rw [hwhole, addPieces, dif_neg (by decide)]
    split
    · next hno =>
      rw [hsplit] at hno
      cases hno
    · next piece rest hsome =>
      rw [hsplit] at hsome
      cases hsome
      rw [htrim, hrest]
      rfl

/-! ### The loop of the printing -/

theorem printItem_fits {cells : Buffer} {room : Nat} (h : text.length < room) :
    printItem (cells, room) text = (cells ++ text, room - text.length) := by
  have hcount : (uspSnprintf room text).2 = text.length := by
    rw [InstantiatedBuffers.uspSnprintf_count]
    omega
  have htaken := InstantiatedBuffers.uspSnprintf_fits room text h
  rw [printItem]
  dsimp only
  rw [htaken, hcount]

theorem printItems_fits {cells : Buffer} {room : Nat}
    (h : (items.flatMap ([',', ' '] ++ ·)).length < room) :
    printItems (cells, room) items =
      (cells ++ items.flatMap ([',', ' '] ++ ·),
        room - (items.flatMap ([',', ' '] ++ ·)).length) := by
  induction items generalizing cells room with
  | nil => simp [printItems]
  | cons item items ih =>
    have hcomma : ([',', ' '] : Str).length = 2 := rfl
    rw [flatMap_cons, length_append, length_append, hcomma] at h
    have hfirst : printItem (cells, room) [',', ' '] = (cells ++ [',', ' '], room - 2) :=
      printItem_fits (by omega)
    have hsecond : printItem (cells ++ [',', ' '], room - 2) item =
        (cells ++ [',', ' '] ++ item, room - 2 - item.length) := printItem_fits (by omega)
    rw [printItems, foldl_cons, hfirst, hsecond, ← printItems, ih (by omega),
      flatMap_cons, length_append, length_append, hcomma]
    simp only [append_assoc, Prod.mk.injEq, true_and]
    omega

theorem nul_not_mem_listText (hitems : ∀ i ∈ items, ListItem i) : nul ∉ listText items := by
  cases items with
  | nil => exact not_mem_nil
  | cons item items =>
    obtain ⟨hitem, hitems⟩ := List.forall_mem_cons.mp hitems
    rw [listText_cons, mem_append, mem_flatMap]
    rintro (hmem | ⟨i, hi, hmem⟩)
    · exact hitem.terminator hmem
    · cases List.mem_append.mp hmem with
      | inl hcomma => exact absurd hcomma (by decide)
      | inr hin => exact (hitems i hi).terminator hin

/-- A list whose text fits is printed as its text. -/
theorem listToString_fits {len : Nat} (hitems : ∀ i ∈ items, ListItem i)
    (h : (listText items).length < len) : listToString items len = some (listText items) := by
  have hnul : nul ∉ listText items := nul_not_mem_listText hitems
  have hread : readString (listText items ++ List.replicate (len - (listText items).length) nul) =
      some (listText items) := by
    obtain ⟨n, hn⟩ : ∃ n, len - (listText items).length = n + 1 :=
      ⟨_, (Nat.succ_pred (by omega)).symm⟩
    rw [hn, replicate_succ]
    exact readString_terminated hnul
  rw [← hread]
  cases items with
  | nil =>
    rw [listToString, if_neg (by omega)]
    rfl
  | cons item items =>
    rw [listText_cons, length_append] at h ⊢
    rw [listToString, if_neg (by omega)]
    have hrest : (items.flatMap ([',', ' '] ++ ·)).length < len - item.length := by omega
    dsimp only
    rw [printItem_fits (by omega), printItems_fits hrest, nil_append, Nat.sub_sub]

end Items

/-- A list whose text fits is split into its items again. -/
theorem splitString_listText {items : List Str} (hitems : ∀ i ∈ items, ListItem i)
    (h : (listText items).length < maxDmValueLen) : splitString (listText items) [','] = items := by
  cases items with
  | nil => rfl
  | cons item items =>
    obtain ⟨hitem, hitems⟩ := List.forall_mem_cons.mp hitems
    have hne : listText (item :: items) ≠ [] := fun hnil => by
      rw [listText_cons, append_eq_nil_iff] at hnil
      exact hitem.ne_nil hnil.1
    have hclip : clip maxDmValueLen (listText (item :: items)) = listText (item :: items) :=
      take_of_length_le (by omega)
    rw [splitString, if_neg hne, hclip, listText_cons]
    exact addPieces_items [] hitem hitems (by simp)

/-- The pieces that are cut out of a text are what is left of it when separators, the blanks
around pieces and blank pieces are gone. -/
structure Splits (ordinary : Bool) (text separator : Str) (pieces items : List Str) : Prop where
  cuts : Cuts ordinary separator text pieces
  unique : ∀ pieces', Cuts ordinary separator text pieces' → pieces' = pieces
  whole : separator.intercalate pieces = text
  items : items = (pieces.map trimBuffer).filter (· ≠ [])
  trimmed : ∀ piece ∈ pieces, Trimmed piece (trimBuffer piece)

theorem splits_of_cuts {ordinary : Bool} {separator : Str} {items : List Str}
    (h : Cuts ordinary separator text pieces)
    (hitems : items = (pieces.map trimBuffer).filter (· ≠ [])) :
    Splits ordinary text separator pieces items :=
  ⟨h, fun _ h' => cuts_unique h h', join_cuts h, hitems, fun piece _ => trimBuffer_trimmed piece⟩

theorem splitString_splits {separator : Str} (h : text.length < maxDmValueLen)
    (hne : separator ≠ []) :
    ∃ pieces, Splits false text separator pieces (splitString text separator) := by
  have hclip : clip maxDmValueLen text = text := take_of_length_le (by omega)
  obtain ⟨pieces, hcuts, heq⟩ := addPieces_cuts hne text
  refine ⟨pieces, splits_of_cuts hcuts ?_⟩
  rw [← heq, splitString, hclip]
  split
  · next hnil =>
    rw [hnil, addPieces, dif_neg hne]
    split
    · rfl
    · next hsome =>
      rw [splitAtSeparator] at hsome
      cases hsome
  · rfl

/-- Lists are read back, and any text is cut at the separators outside its quoted parts, where
nothing is cut behind a quote without a partner. -/
theorem list_round_trip_and_cuts :
    (∀ (items : List Str) (len : Nat), (∀ i ∈ items, ListItem i) →
      (listText items).length < len → (listText items).length < maxDmValueLen →
      ∃ text, listToString items len = some text ∧ splitString text [','] = items) ∧
    ∀ text separator : Str, text.length < maxDmValueLen → separator ≠ [] →
      ∃ pieces, Splits false text separator pieces (splitString text separator) :=
  ⟨fun _ _ hitems hlen hmax => ⟨_, listToString_fits hitems hlen, splitString_listText hitems hmax⟩,
    fun _ _ => splitString_splits⟩

/-- With an ordinary quote in it, this text would be cut. -/
theorem splitString_unpaired :
    splitString "it's,b".toList [','] = ["it's,b".toList] ∧
      ¬ ∀ text separator : Str, text.length < maxDmValueLen → separator ≠ [] →
        ∃ pieces, Splits true text separator pieces (splitString text separator) := by
  have hkept : splitString "it's,b".toList [','] = ["it's,b".toList] := by decide +kernel
  refine ⟨hkept, fun h => ?_⟩
  obtain ⟨pieces, hsplits⟩ := h "it's,b".toList [','] (by decide) (by decide)
  have hcuts : Cuts true [','] ("it's".toList ++ [','] ++ "b".toList)
      ["it's".toList, "b".toList] := by
    have hcomma : ∀ c, [','].head? = some c → isQuote c = false := by
      rintro c ⟨⟩
      rfl
    refine .cut ⟨?_, hcomma⟩ ?_ (.last ?_)
    · exact .plain (by decide) (.plain (by decide) (.unpaired rfl (by decide) (by decide)
        (.plain (by decide) (.start _))))
    · intro before after hsame hbegins
      by_contra hlt
      have hcommas : ∀ n < 4, (("it's".toList ++ [','] ++ "b".toList).drop n).head? ≠ some ',' := by
        decide
      apply hcommas before.length (by simpa using hlt)
      rw [hsame, append_assoc, drop_left]
      rfl
    · intro before after hsame _
      have hmem : ',' ∈ "b".toList := by rw [hsame]; simp
      exact absurd hmem (by decide)
  have hother := hsplits.unique _ hcuts
  have hitems := hsplits.items
  rw [hkept, ← hother] at hitems
  revert hitems
  decide

end ListTexts
