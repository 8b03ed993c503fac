import SdtTr369.CopyLoops
import SdtTr369.TrimBuffers

/-!
# The texts of search expressions

`EXPR_VECTOR_SplitExpressions` cuts its text at the separators outside the quoted parts, and
`ParseExprComponent` cuts each component at an operator, on the cells of the component. The
operators are looked for one after the other, each in the whole component.
-/

namespace ExpressionTexts

open UspTypes ExprVector CBuffers TrimBuffers PercentEscapes List
open CopyLoops (writeAt)
open DataModelRead (maxDmValueLen)

/-! ## One component -/

/-- `expr_op_2_str` -/
def opText : ExprOp → Str
  | .equal => ['=', '=']
  | .notEqual => ['!', '=']
  | .lessThanOrEqual => ['<', '=']
  | .greaterThanOrEqual => ['>', '=']
  | .lessThan => ['<']
  | .greaterThan => ['>']
  | .equals => ['=']

/-- What `ParseExprComponent` returns: the operator, and the cells that the strings begin at. -/
structure Parts where
  param : Nat
  op : ExprOp
  value : Nat
  deriving DecidableEq, Repr

/-- A quote at the cell and one at the end of `len` characters are stripped. -/
def stripAt (q : Char) (len : Nat) (buf : Buffer) (i : Nat) : Option (Buffer × Nat) :=
  (buf[i]?).bind fun first =>
    if first = q then
      (buf[i + (len - 1)]?).bind fun last =>
        if last = q then (poke buf (i + (len - 1)) nul).map (·, i + 1) else some (buf, i)
    else some (buf, i)

/-- Both kinds of quotes are stripped with the length that the constant had at first. -/
def stripQuotesAt (isCliParser : Bool) (len : Nat) (buf : Buffer) (i : Nat) :
    Option (Buffer × Nat) :=
  (stripAt '"' len buf i).bind fun r =>
    if isCliParser then stripAt '\'' len r.1 r.2 else some r

/-- `TEXT_UTILS_PercentDecodeString` writes over the string, which does not become longer. -/
def decodeAt (buf : Buffer) (i : Nat) : Option Buffer :=
  (stringAt buf i).bind fun s => writeAt buf i (percentDecodeString s ++ [nul])

/-- `ParseExprComponent` behind the two calls of `TEXT_UTILS_TrimBuffer`. -/
def finishComponent (isCliParser : Bool) (op : ExprOp) (buf : Buffer) (param const : Nat) :
    Option (Buffer × Except Err Parts) :=
  (stringAt buf param).bind fun exprParam =>
    (stringAt buf const).bind fun exprConst =>
      if exprParam = [] ∨ exprConst = [] then some (buf, .error .invalidPathSyntax)
      else
        (stripQuotesAt isCliParser exprConst.length buf const).bind fun r =>
          (stringAt r.1 r.2).bind fun stripped =>
            if exprParam.any isIllegalInParam then some (r.1, .error .invalidPathSyntax)
            else if '"' ∈ stripped then some (r.1, .error .invalidPathSyntax)
            else (decodeAt r.1 r.2).map (·, .ok ⟨param, op, r.2⟩)

/-- `ParseExprComponent` -/
def parseComponent (isCliParser : Bool) (buf : Buffer) : Option (Buffer × Except Err Parts) :=
  (stringAt buf 0).bind fun s =>
    match splitOnOperator s operatorTexts with
    | none => some (buf, .error .invalidPathSyntax)
    | some (before, op, _) =>
      (poke buf before.length nul).bind fun buf =>
        (trimAt buf 0).bind fun param =>
          (trimAt param.1 (before.length + (opText op).length)).bind fun const =>
            finishComponent isCliParser op const.1 param.2 const.2

/-! ## All components -/

/-- A component, and the two strings that `EXPR_VECTOR_Add` copies. -/
def readComponent (isCliParser : Bool) (text : Str) : Option (Except Err ExprComp) :=
  (parseComponent isCliParser (text ++ [nul])).bind fun r =>
    match r.2 with
    | .error e => some (.error e)
    | .ok parts =>
      (stringAt r.1 parts.param).bind fun param =>
        (stringAt r.1 parts.value).map fun value => .ok ⟨param, parts.op, value⟩

/-- The loop of `EXPR_VECTOR_SplitExpressions`. -/
def readComponents (validOps : List ExprOp) (isCliParser : Bool) :
    List Str → Option (Except Err (List ExprComp))
  | [] => some (.ok [])
  | text :: texts =>
    (readComponent isCliParser text).bind fun r =>
      match r with
      | .error e => some (.error e)
      | .ok comp =>
        if comp.op ∉ validOps then some (.error .invalidPathSyntax)
        else (readComponents validOps isCliParser texts).map fun r => r.map (comp :: ·)

/-- `EXPR_VECTOR_SplitExpressions` -/
def splitExpressions (str separator : Str) (validOps : List ExprOp) (isCliParser : Bool) :
    Option (Except Err (List ExprComp)) :=
  readComponents validOps isCliParser (ListTexts.splitString str separator)

/-! ## A component as a text -/

/-- The constant without its quotes; a single one counts as both. -/
def stripQuotes (isCliParser : Bool) (const : Str) : Str :=
  if const.head? = some '"' ∧ const.getLast? = some '"' then const.tail.dropLast
  else if isCliParser = true ∧ const.head? = some '\'' ∧ const.getLast? = some '\'' then
    const.tail.dropLast
  else const

/-- The checks of the two strings around an operator. -/
def checked (isCliParser : Bool) (op : ExprOp) (param const : Str) : Except Err ExprComp :=
  if param = [] ∨ const = [] then .error .invalidPathSyntax
  else if param.any isIllegalInParam then .error .invalidPathSyntax
  else if '"' ∈ stripQuotes isCliParser const then .error .invalidPathSyntax
  else .ok ⟨param, op, percentDecodeString (stripQuotes isCliParser const)⟩

/-- What a component says. -/
def component (isCliParser : Bool) (text : Str) : Except Err ExprComp :=
  match splitOnOperator text operatorTexts with
  | none => .error .invalidPathSyntax
  | some (before, op, after) => checked isCliParser op (trimBuffer before) (trimBuffer after)

/-- A single quote, which is stripped as if it were two. -/
def OneQuote (isCliParser : Bool) (const : Str) : Prop :=
  const = ['"'] ∨ isCliParser = true ∧ const = ['\'']

/-- The constant of the component is a single quote. -/
def LoneQuote (isCliParser : Bool) (text : Str) : Prop :=
  ∃ before op after, splitOnOperator text operatorTexts = some (before, op, after) ∧
    OneQuote isCliParser (trimBuffer after)

/-- The strings that are left in the cells are those of the component. They end at the limit, and
the value begins in front of it unless the constant was one quote. -/
structure Finds (limit : Nat) (lone : Prop) (cells : Buffer) (parts : Parts) (comp : ExprComp) :
    Prop where
  op : parts.op = comp.op
  param : stringAt cells parts.param = some comp.param
  value : stringAt cells parts.value = some comp.value
  paramEnd : parts.param + comp.param.length < limit
  valueEnd : parts.value + comp.value.length ≤ limit
  valueStart : parts.value < limit ↔ ¬ lone

/-- The outcome on the cells is the one for the text. -/
inductive Agrees (limit : Nat) (lone : Prop) :
    Option (Buffer × Except Err Parts) → Except Err ExprComp → Prop
  | error {cells : Buffer} {e : Err} : Agrees limit lone (some (cells, .error e)) (.error e)
  | ok {cells : Buffer} {parts : Parts} {comp : ExprComp} (h : Finds limit lone cells parts comp) :
    Agrees limit lone (some (cells, .ok parts)) (.ok comp)

/-! ## Strings in their cells -/

section Strip

variable {front rest const s : Str} {q : Char} {len : Nat} {isCliParser : Bool}

/-- Nothing is stripped when the character in front is no quote. -/
theorem stripAt_first (h : ∀ c, (s ++ [nul]).head? = some c → c ≠ q) :
    stripAt q len (front ++ s ++ nul :: rest) front.length =
      some (front ++ s ++ nul :: rest, front.length) := by
  have hfirst : ∃ c, (front ++ s ++ nul :: rest)[front.length]? = some c ∧ c ≠ q := by
    cases s with
    | nil => exact ⟨nul, by simp, h nul rfl⟩
    | cons c s => exact ⟨c, by simp, h c rfl⟩
  obtain ⟨c, hc, hne⟩ := hfirst
  rw [stripAt, hc, Option.bind_some, if_neg hne]

/-- A cell behind the string is a terminator. -/
theorem stripAt_stale (hq : q ≠ nul)
    (hlast : (front ++ s ++ nul :: rest)[front.length + (len - 1)]? = some nul) :
    stripAt q len (front ++ s ++ nul :: rest) front.length =
      some (front ++ s ++ nul :: rest, front.length) := by
  obtain ⟨c, hc⟩ : ∃ c, (front ++ s ++ nul :: rest)[front.length]? = some c := by
    cases s with
    | nil => exact ⟨nul, by simp⟩
    | cons c s => exact ⟨c, by simp⟩
  rw [stripAt, hc, Option.bind_some]
  split
  · rw [hlast, Option.bind_some, if_neg (Ne.symm hq)]
  · rfl

/-- Of a single quote nothing is left, and of a quoted text what is between the quotes. -/
theorem stripAt_eq (hne : const ≠ []) :
    stripAt q const.length (front ++ const ++ nul :: rest) front.length =
      if const.head? = some q ∧ const.getLast? = some q then
        some (front ++ const.dropLast ++ nul :: nul :: rest, front.length + 1)
      else some (front ++ const ++ nul :: rest, front.length) := by
  have hfirst : (front ++ const ++ nul :: rest)[front.length]? = const.head? := by
    rw [append_assoc, getElem?_append_right (Nat.le_refl _), Nat.sub_self,
      ← head?_eq_getElem?, head?_append_of_ne_nil _ hne]
  obtain ⟨init, last, rfl⟩ := (eq_nil_or_concat' const).resolve_left hne
  have hcell : front.length + ((init ++ [last]).length - 1) = (front ++ init).length := by
    simp
  have hlast : (front ++ (init ++ [last]) ++ nul :: rest)[(front ++ init).length]? =
      some last := by
    rw [← append_assoc front, append_assoc (front ++ init), singleton_append]
    exact getElem?_append_right (Nat.le_refl _) |>.trans (by simp)
  have hpoke : poke (front ++ (init ++ [last]) ++ nul :: rest) (front ++ init).length nul =
      some (front ++ init ++ nul :: nul :: rest) := by
    rw [← append_assoc front, append_assoc (front ++ init), singleton_append,
      poke_append]
  rw [stripAt, hfirst, hcell, hlast, hpoke, dropLast_concat, getLast?_concat]
  obtain ⟨c, cs, hc⟩ := exists_cons_of_ne_nil hne
  rw [hc, head?_cons, Option.bind_some]
  by_cases hcq : c = q
  · by_cases hlq : last = q
    · simp [hcq, hlq]
    · simp [hcq, hlq]
  · simp [hcq]

/-- The cells when a quote at each end is stripped. -/
theorem stripped_cells (front rest : Str) (hhead : const.head? = some q)
    (hlast : const.getLast? = some q) : ∃ front' rest',
      front ++ const.dropLast ++ nul :: nul :: rest =
        front' ++ const.tail.dropLast ++ nul :: rest' ∧
      front <+: front' ∧ front'.length = front.length + 1 ∧
      (const = [q] ∧ const.tail.dropLast = [] ∨
        rest' = nul :: rest ∧ const.length = const.tail.dropLast.length + 2) := by
  cases const with
  | nil => cases hhead
  | cons c inner =>
    obtain rfl : c = q := Option.some.inj hhead
    rcases eq_nil_or_concat' inner with rfl | ⟨inner, d, rfl⟩
    · exact ⟨front ++ [nul], rest, by simp, prefix_append _ _, by simp, .inl ⟨rfl, rfl⟩⟩
    · refine ⟨front ++ [c], nul :: rest, ?_, prefix_append _ _, by simp, .inr ⟨rfl, by simp⟩⟩
      rw [← cons_append, dropLast_concat, cons_append, tail_cons,
        dropLast_concat]
      simp

theorem stripped_bounds {n k inner : Nat} (hstart : k = n + 1)
    (h : const = [q] ∧ inner = 0 ∨ const.length = inner + 2) :
    k + inner ≤ n + const.length ∧ (k < n + const.length ↔ const ≠ [q]) := by
  obtain ⟨rfl, rfl⟩ | hlen := h
  · simp [hstart]
  · have hother : const ≠ [q] := fun heq => by
      rw [heq] at hlen
      simp at hlen
    simp only [hother, ne_eq, not_false_eq_true, iff_true]
    omega

/-- The string that is left begins behind the quote in front. It begins inside the constant unless
this was a single quote. -/
theorem stripQuotesAt_eq (isCliParser : Bool) (front rest : Str) (hne : const ≠ []) :
    ∃ front' rest', stripQuotesAt isCliParser const.length (front ++ const ++ nul :: rest)
        front.length =
        some (front' ++ stripQuotes isCliParser const ++ nul :: rest', front'.length) ∧
      front <+: front' ∧
      front'.length + (stripQuotes isCliParser const).length ≤ front.length + const.length ∧
      (front'.length < front.length + const.length ↔ ¬ OneQuote isCliParser const) := by
  have hpos : 0 < const.length := length_pos_of_ne_nil hne
  rw [stripQuotesAt, stripAt_eq hne, stripQuotes, OneQuote]
  by_cases hmarks : const.head? = some '"' ∧ const.getLast? = some '"'
  · obtain ⟨front', rest', hcells, hfront, hfrontLen, hcase⟩ :=
      stripped_cells front rest hmarks.1 hmarks.2
    have hother : const ≠ ['\''] := fun heq => by simp [heq] at hmarks
    obtain ⟨hbound, hiff⟩ := stripped_bounds hfrontLen
      (hcase.imp (And.imp_right (congrArg List.length)) And.right)
    rw [if_pos hmarks, if_pos hmarks, Option.bind_some, hcells, ← hfrontLen]
    refine ⟨front', rest', ?_, hfront, hbound, by simp [hiff, hother]⟩
    cases isCliParser with
    | false => rfl
    | true =>
      rw [if_pos rfl]
      obtain hone | ⟨rfl, htwo⟩ := hcase
      · rw [hone.2]
        exact stripAt_first (by simp [nul])
      · -- the length of before reaches to the second terminator
        apply stripAt_stale (by decide)
        rw [htwo]
        simp [Nat.add_comm]
  · have hother : const ≠ ['"'] := fun heq => by simp [heq] at hmarks
    rw [if_neg hmarks, if_neg hmarks, Option.bind_some]
    by_cases hquotes : isCliParser = true ∧ const.head? = some '\'' ∧ const.getLast? = some '\''
    · obtain ⟨rfl, hquotes⟩ := hquotes
      obtain ⟨front', rest', hcells, hfront, hfrontLen, hcase⟩ :=
        stripped_cells front rest hquotes.1 hquotes.2
      obtain ⟨hbound, hiff⟩ := stripped_bounds hfrontLen
        (hcase.imp (And.imp_right (congrArg List.length)) And.right)
      rw [if_pos rfl, stripAt_eq hne, if_pos hquotes, if_pos ⟨rfl, hquotes⟩, hcells, ← hfrontLen]
      exact ⟨front', rest', rfl, hfront, hbound, by simp [hiff, hother]⟩
    · rw [if_neg hquotes]
      refine ⟨front, rest, ?_, prefix_rfl, Nat.le_refl _, ?_⟩
      · cases isCliParser with
        | false => rfl
        | true =>
          rw [if_pos rfl, stripAt_eq hne, if_neg (fun h => hquotes ⟨rfl, h⟩)]
      · have hlone : ¬ (isCliParser = true ∧ const = ['\'']) := fun h =>
          hquotes ⟨h.1, by rw [h.2]; exact ⟨rfl, rfl⟩⟩
        simp [hother, hlone, hpos]

end Strip

section Cells

variable {text lead param mid const rest : Str} {op : ExprOp} {isCliParser : Bool}

theorem percentDecodeString_length_le (s : Str) : (percentDecodeString s).length ≤ s.length :=
  unescape_length_le s

/-- No escape stands for the terminator. -/
theorem escapedChar_ne_nul (d1 d2 : Char) : escapedChar d1 d2 ≠ some (some nul) := by
  intro h
  unfold escapedChar at h
  split at h
  · next digit1 digit2 h1 h2 =>
    split at h
    · cases h
    next hzero =>
    simp only [Option.some.injEq] at h
    have hdigit1 := hexValue_lt h1
    have hdigit2 := hexValue_lt h2
    have hvalid : (16 * digit1 + digit2).isValidChar := .inl (by omega)
    have hnat := congrArg Char.toNat h
    rw [Char.ofNat, dif_pos hvalid] at hnat
    exact hzero hnat
  · cases h

theorem nul_not_mem_percentDecodeString {s : Str} (h : nul ∉ s) : nul ∉ percentDecodeString s :=
  not_mem_unescape escapedChar_ne_nul h

theorem decodeAt_eq (front rest : Str) {s : Str} (h : nul ∉ s) : ∃ rest',
    decodeAt (front ++ s ++ nul :: rest) front.length =
      some (front ++ percentDecodeString s ++ nul :: rest') := by
  have hlen := percentDecodeString_length_le s
  have hcells : front ++ s ++ nul :: rest =
      front ++ ((s ++ nul :: rest).take ((percentDecodeString s).length + 1) ++
        (s ++ nul :: rest).drop ((percentDecodeString s).length + 1)) := by
    rw [take_append_drop, append_assoc]
  have hold : ((s ++ nul :: rest).take ((percentDecodeString s).length + 1)).length =
      (percentDecodeString s ++ [nul]).length := by
    simp only [length_take, length_append, length_cons, length_nil]
    omega
  refine ⟨(s ++ nul :: rest).drop ((percentDecodeString s).length + 1), ?_⟩
  rw [decodeAt, stringAt_append front h, Option.bind_some, hcells,
    CopyLoops.writeAt_append front _ hold]
  simp

/-- The checks of the two trimmed strings, and what is returned when they pass. -/
theorem finishComponent_agrees (isCliParser : Bool) (op : ExprOp) (lead mid rest : Str)
    (hparam : nul ∉ param) (hconst : nul ∉ const) :
    Agrees ((lead ++ param ++ nul :: mid).length + const.length) (OneQuote isCliParser const)
      (finishComponent isCliParser op (lead ++ param ++ nul :: mid ++ const ++ nul :: rest)
        lead.length (lead ++ param ++ nul :: mid).length)
      (checked isCliParser op param const) := by
  have hreadParam : ∀ cells, stringAt (lead ++ param ++ nul :: cells) lead.length = some param :=
    fun cells => stringAt_append lead hparam
  have hreadConst : stringAt (lead ++ param ++ nul :: mid ++ const ++ nul :: rest)
      (lead ++ param ++ nul :: mid).length = some const := stringAt_append _ hconst
  have hread : stringAt (lead ++ param ++ nul :: mid ++ const ++ nul :: rest) lead.length =
      some param := by
    have hmore := hreadParam (mid ++ const ++ nul :: rest)
    simpa using hmore
  rw [finishComponent, hread, Option.bind_some, hreadConst, Option.bind_some, checked]
  split
  · exact .error
  · next hempty =>
    obtain ⟨hparamNe, hconstNe⟩ := not_or.mp hempty
    obtain ⟨front', rest', hstrip, ⟨more, rfl⟩, hbound, hiff⟩ :=
      stripQuotesAt_eq isCliParser (lead ++ param ++ nul :: mid) rest hconstNe
    have hstripped : nul ∉ stripQuotes isCliParser const := by
      rw [stripQuotes]
      split
      · exact fun hmem => hconst (mem_of_mem_tail (mem_of_mem_dropLast hmem))
      · split
        · exact fun hmem => hconst (mem_of_mem_tail (mem_of_mem_dropLast hmem))
        · exact hconst
    have hreadStripped : stringAt (lead ++ param ++ nul :: mid ++ more ++
        stripQuotes isCliParser const ++ nul :: rest') (lead ++ param ++ nul :: mid ++ more).length =
        some (stripQuotes isCliParser const) := stringAt_append _ hstripped
    rw [hstrip, Option.bind_some, hreadStripped, Option.bind_some]
    split
    · exact .error
    · split
      · exact .error
      · obtain ⟨rest'', hdecode⟩ :=
          decodeAt_eq (lead ++ param ++ nul :: mid ++ more) rest' hstripped
        have hlen := percentDecodeString_length_le (stripQuotes isCliParser const)
        rw [hdecode, Option.map_some]
        refine .ok ⟨rfl, ?_, stringAt_append _ (nul_not_mem_percentDecodeString hstripped), ?_, ?_,
          hiff⟩
        · have hmore := hreadParam
            (mid ++ more ++ percentDecodeString (stripQuotes isCliParser const) ++ nul :: rest'')
          simpa using hmore
        · simp only [length_append, length_cons]
          omega
        · exact Nat.le_trans (Nat.add_le_add_left hlen _) hbound

end Cells

section Component

variable {text before after : Str} {op : ExprOp} {isCliParser : Bool}

theorem splitOnOperator_found {ops : List (Str × ExprOp)}
    (h : splitOnOperator text ops = some (before, op, after)) :
    ∃ t, (t, op) ∈ ops ∧ splitAtText t text = some (before, after) := by
  induction ops with
  | nil => cases h
  | cons first ops ih =>
    obtain ⟨t, o⟩ := first
    rw [splitOnOperator] at h
    split at h
    · next hcut =>
      cases h
      exact ⟨t, mem_cons_self, hcut⟩
    · obtain ⟨t', hmem, hcut⟩ := ih h
      exact ⟨t', mem_cons_of_mem _ hmem, hcut⟩

theorem opText_of_mem {t : Str} (h : (t, op) ∈ operatorTexts) : t = opText op ∧ t ≠ [] := by
  simp only [operatorTexts, mem_cons, Prod.mk.injEq, not_mem_nil, or_false] at h
  obtain ⟨rfl, rfl⟩ | ⟨rfl, rfl⟩ | ⟨rfl, rfl⟩ | ⟨rfl, rfl⟩ | ⟨rfl, rfl⟩ | ⟨rfl, rfl⟩ | ⟨rfl, rfl⟩ := h <;>
    exact ⟨rfl, cons_ne_nil _ _⟩

/-- The operator is between the two strings. -/
theorem splitOnOperator_parts (h : splitOnOperator text operatorTexts = some (before, op, after)) :
    text = before ++ (opText op ++ after) := by
  obtain ⟨t, hmem, hcut⟩ := splitOnOperator_found h
  obtain ⟨rfl, hne⟩ := opText_of_mem hmem
  exact (splitAtText_parts hne hcut).1

/-- `ParseExprComponent` stays in the cells of its component. -/
theorem parseComponent_agrees (isCliParser : Bool) (h : nul ∉ text) :
    ∃ limit ≤ text.length, ((∀ c, text.getLast? = some c → isBlank c = false) → limit = text.length) ∧
      Agrees limit (LoneQuote isCliParser text) (parseComponent isCliParser (text ++ [nul]))
        (component isCliParser text) := by
  have hread : stringAt (text ++ [nul]) 0 = some text := stringAt_append [] h
  rw [parseComponent, hread, Option.bind_some, component]
  cases hsplit : splitOnOperator text operatorTexts with
  | none => exact ⟨text.length, Nat.le_refl _, fun _ => rfl, .error⟩
  | some r =>
    obtain ⟨before, op, after⟩ := r
    obtain rfl := splitOnOperator_parts hsplit
    obtain ⟨o, os, hop⟩ : ∃ o os, opText op = o :: os := by cases op <;> exact ⟨_, _, rfl⟩
    have hlone : LoneQuote isCliParser (before ++ (opText op ++ after)) ↔
        OneQuote isCliParser (trimBuffer after) := by
      constructor
      · rintro ⟨before', op', after', hsplit', hone⟩
        obtain ⟨rfl, rfl, rfl⟩ : before = before' ∧ op = op' ∧ after = after' := by
          simpa using hsplit.symm.trans hsplit'
        exact hone
      · exact fun hone => ⟨before, op, after, hsplit, hone⟩
    have hbefore : nul ∉ before := fun hmem => h (mem_append_left _ hmem)
    have hafter : nul ∉ after := fun hmem =>
      h (mem_append_right _ (mem_append_right _ hmem))
    obtain ⟨lead, trail, hparam, -, -, htrimParam⟩ := trimAt_eq hbefore
    obtain ⟨gap, tail, hconst, -, htailBlank, htrimConst⟩ := trimAt_eq hafter
    have hparamNul : nul ∉ trimBuffer before := fun hmem => hbefore (by rw [hparam]; simp [hmem])
    have hconstNul : nul ∉ trimBuffer after := fun hmem => hafter (by rw [hconst]; simp [hmem])
    have hfinish := finishComponent_agrees isCliParser op lead ((trail ++ nul :: os).tail ++ gap)
      (tail ++ [nul]).tail hparamNul hconstNul
    have hlength : (lead ++ trimBuffer before ++ nul :: ((trail ++ nul :: os).tail ++ gap)).length =
        before.length + (opText op).length + gap.length := by
      have hlen := congrArg List.length hparam
      rw [hop]
      simp only [length_append, length_cons, length_tail] at hlen ⊢
      omega
    have hend := congrArg List.length hconst
    simp only [length_append] at hend
    refine ⟨(lead ++ trimBuffer before ++ nul :: ((trail ++ nul :: os).tail ++ gap)).length +
      (trimBuffer after).length, ?_, fun hlast => ?_, ?_⟩
    · rw [hlength]
      simp only [length_append]
      omega
    · have htail : tail = [] := by
        rcases eq_nil_or_concat' tail with hnil | ⟨init, c, hinit⟩
        · exact hnil
        · have hc : isBlank c = false := hlast c (by
            rw [hconst, hinit, ← append_assoc, ← append_assoc, ← append_assoc]
            exact getLast?_concat)
          rw [htailBlank c (by rw [hinit]; simp)] at hc
          cases hc
      rw [htail] at hend
      rw [hlength]
      simp only [length_append, length_nil] at hend ⊢
      omega
    · -- the terminator over the operator, and those of the two trims
      have hpoke : poke (before ++ (opText op ++ after) ++ [nul]) before.length nul =
          some (before ++ nul :: (os ++ after ++ [nul])) := by
        have hcells := poke_append before (os ++ after ++ [nul]) o nul
        rw [hop]
        simpa using hcells
      have hfirst : trimAt (before ++ nul :: (os ++ after ++ [nul])) 0 =
          some (lead ++ trimBuffer before ++ nul :: (trail ++ nul :: os).tail ++ after ++ [nul],
            lead.length) := by
        have htrim := htrimParam [] (os ++ after ++ [nul])
        have htail : (trail ++ nul :: (os ++ after ++ [nul])).tail =
            (trail ++ nul :: os).tail ++ after ++ [nul] := by
          cases trail <;> simp
        rw [htail] at htrim
        simpa using htrim
      have hplace : before.length + (opText op).length =
          (lead ++ trimBuffer before ++ nul :: (trail ++ nul :: os).tail).length := by
        simp only [length_append, length_cons] at hlength ⊢
        omega
      have hsecond := htrimConst (lead ++ trimBuffer before ++ nul :: (trail ++ nul :: os).tail) []
      have hcells : lead ++ trimBuffer before ++ nul :: (trail ++ nul :: os).tail ++ gap =
          lead ++ trimBuffer before ++ nul :: ((trail ++ nul :: os).tail ++ gap) := by
        rw [append_assoc, cons_append]
      rw [hcells] at hsecond
      dsimp only
      rw [hpoke, Option.bind_some, hfirst, Option.bind_some, hplace, hsecond, Option.bind_some,
        propext hlone]
      exact hfinish

theorem readComponent_eq (isCliParser : Bool) (h : nul ∉ text) :
    readComponent isCliParser text = some (component isCliParser text) := by
  obtain ⟨limit, -, -, hagrees⟩ := parseComponent_agrees isCliParser h
  rw [readComponent]
  generalize parseComponent isCliParser (text ++ [nul]) = r at hagrees
  generalize component isCliParser text = r' at hagrees
  cases hagrees with
  | error => rfl
  | ok hfinds =>
    rw [Option.bind_some]
    dsimp only
    rw [hfinds.param, Option.bind_some, hfinds.value, Option.map_some, hfinds.op]

/-- The string at the cell is one of the text, and begins in front of its terminator. -/
def StringInside (text : Str) (cells : Buffer) (i : Nat) : Prop :=
  ∃ s, stringAt cells i = some s ∧ i < text.length ∧ i + s.length ≤ text.length

/-- Both strings are inside the text unless the constant is one quote. -/
theorem inside_iff {cells : Buffer} {parts : Parts} (h : nul ∉ text)
    (hlast : ∀ c, text.getLast? = some c → isBlank c = false)
    (hparse : parseComponent isCliParser (text ++ [nul]) = some (cells, .ok parts)) :
    StringInside text cells parts.param ∧ StringInside text cells parts.value ↔
      ¬ LoneQuote isCliParser text := by
  obtain ⟨limit, -, hlimit, hagrees⟩ := parseComponent_agrees isCliParser h
  rw [hlimit hlast, hparse] at hagrees
  generalize component isCliParser text = r at hagrees
  cases hagrees with
  | ok hfinds =>
    have hvalue : StringInside text cells parts.value ↔ parts.value < text.length := by
      constructor
      · rintro ⟨_, _, hlt, _⟩
        exact hlt
      · exact fun hlt => ⟨_, hfinds.value, hlt, hfinds.valueEnd⟩
    have hparam : StringInside text cells parts.param :=
      ⟨_, hfinds.param, Nat.lt_of_le_of_lt (Nat.le_add_right _ _) hfinds.paramEnd,
        Nat.le_of_lt hfinds.paramEnd⟩
    rw [hvalue, hfinds.valueStart, and_iff_right hparam]

end Component

/-! ## Expressions as texts -/

/-- The operators that are looked for in front of this one. -/
def earlierTexts (op : ExprOp) : List Str :=
  (operatorTexts.takeWhile fun o => decide (o.2 ≠ op)).map Prod.fst

/-- No operator that is looked for in front of this one occurs. -/
def Unmistaken (op : ExprOp) (s : Str) : Prop := ∀ t ∈ earlierTexts op, ¬ t <:+: s

/-- A character of a parameter path. -/
def isPathChar (c : Char) : Bool :=
  !(isBlank c || isQuote c || decide (c ∈ ['=', '!', '<', '>', '&', nul]))

def encodeChar (c : Char) : Str :=
  if c = '%' then ['%', '2', '5'] else if c = '"' then ['%', '2', '2'] else [c]

def encodeConst (value : Str) : Str := value.flatMap encodeChar

/-- An expression with its constant in speech marks. -/
def exprText (e : ExprComp) : Str :=
  e.param ++ (opText e.op ++ '"' :: (encodeConst e.value ++ ['"']))

def exprsText (es : List ExprComp) : Str := andSeparator.intercalate (es.map exprText)

/-- An expression of a list for which these operators are valid. -/
structure Valid (validOps : List ExprOp) (e : ExprComp) : Prop where
  param_ne_nil : e.param ≠ []
  param : ∀ c ∈ e.param, isPathChar c = true
  op : e.op ∈ validOps
  value : nul ∉ e.value

section Infixes

variable {α : Type} {c : α} {a b p s t : List α}

theorem prefix_cut (hc : c ∉ t) (h : t <+: a ++ c :: b) : t <+: a := by
  by_cases hlen : t.length ≤ a.length
  · exact prefix_of_prefix_length_le h (prefix_append _ _) hlen
  · have hfront : a ++ [c] <+: t := by
      refine prefix_of_prefix_length_le ⟨b, by simp⟩ h ?_
      rw [length_append, length_singleton]
      omega
    exact (hc (hfront.subset (by simp))).elim

/-- A text without the character is on one side of it. -/
theorem infix_cut (hc : c ∉ t) (h : t <:+: a ++ c :: b) : t <:+: a ∨ t <:+: b := by
  induction a with
  | nil =>
    cases List.infix_cons_iff.mp h with
    | inl hfront => exact .inl (prefix_cut hc hfront).isInfix
    | inr hin => exact .inr hin
  | cons d a ih =>
    cases List.infix_cons_iff.mp h with
    | inl hfront => exact .inl (prefix_cut hc hfront).isInfix
    | inr hin => exact (ih hin).imp_left infix_cons

/-- A text without characters of the front is behind it. -/
theorem infix_behind (hne : t ≠ []) (hp : ∀ c ∈ t, c ∉ p) (h : t <:+: p ++ s) : t <:+: s := by
  induction p with
  | nil => exact h
  | cons d p ih =>
    refine ih (fun c hc hmem => hp c hc (mem_cons_of_mem d hmem)) ?_
    cases List.infix_cons_iff.mp h with
    | inl hfront =>
      cases t with
      | nil => exact (hne rfl).elim
      | cons c t =>
        obtain ⟨rfl, _⟩ := List.cons_prefix_cons.mp hfront
        exact (hp c mem_cons_self mem_cons_self).elim
    | inr hin => exact hin

end Infixes

section Operators

variable {param k before after text : Str} {op op' : ExprOp} {isCliParser : Bool} {e : ExprComp}
  {ops rest : List (Str × ExprOp)}

theorem splitOnOperator_skip (h : ∀ o ∈ ops, splitAtText o.1 text = none) :
    splitOnOperator text (ops ++ rest) = splitOnOperator text rest := by
  induction ops with
  | nil => rfl
  | cons o ops ih =>
    obtain ⟨ho, hops⟩ := List.forall_mem_cons.mp h
    rw [cons_append, splitOnOperator, ho]
    exact ih hops

/-- The first operator that is found decides. -/
theorem splitOnOperator_stop (rest : List (Str × ExprOp))
    (h : ∃ o ∈ ops, splitAtText o.1 text ≠ none) :
    ∃ before o after, o ∈ ops ∧
      splitOnOperator text (ops ++ rest) = some (before, o.2, after) := by
  induction ops with
  | nil => simp at h
  | cons o ops ih =>
    rw [cons_append, splitOnOperator]
    cases ho : splitAtText o.1 text with
    | some r => exact ⟨r.1, o, r.2, mem_cons_self, rfl⟩
    | none =>
      obtain ⟨o', hmem, hfound⟩ := h
      cases List.mem_cons.mp hmem with
      | inl heq => exact (hfound (heq ▸ ho)).elim
      | inr hmem =>
        obtain ⟨before, o'', after, hmem'', heq⟩ := ih ⟨o', hmem, hfound⟩
        exact ⟨before, o'', after, mem_cons_of_mem _ hmem'', heq⟩

theorem operatorTexts_split (op : ExprOp) : ∃ later,
    operatorTexts = operatorTexts.takeWhile (fun o => decide (o.2 ≠ op)) ++
      (opText op, op) :: later := by
  cases op <;> exact ⟨_, rfl⟩

theorem earlier_ne {o : Str × ExprOp}
    (h : o ∈ operatorTexts.takeWhile (fun o => decide (o.2 ≠ op))) : o.2 ≠ op := by
  simpa using mem_takeWhile_imp h

theorem mem_operatorTexts {o : Str × ExprOp}
    (h : o ∈ operatorTexts.takeWhile (fun o => decide (o.2 ≠ op))) : o ∈ operatorTexts :=
  (List.takeWhile_prefix _).subset h

theorem opText_chars {c : Char} (op : ExprOp) (h : c ∈ opText op) :
    isPathChar c = false ∧ c ≠ '"' ∧ isQuote c = false ∧ c ≠ '&' ∧ isBlank c = false := by
  cases op <;>
    simp only [opText, mem_cons, not_mem_nil, or_false] at h <;>
    obtain rfl | rfl := h <;> decide

theorem earlier_not_within (op : ExprOp) : Unmistaken op (opText op) := by
  cases op <;> rw [Unmistaken] <;> decide

/-- An earlier operator that occurs in an expression occurs behind the speech mark. -/
theorem earlier_infix {t : Str} (ht : t ∈ earlierTexts op)
    (hparam : ∀ c ∈ param, isPathChar c = true) :
    t <:+: param ++ (opText op ++ '"' :: k) ↔ t <:+: k := by
  obtain ⟨o, ho, rfl⟩ := List.mem_map.mp ht
  obtain ⟨htext, hne⟩ := opText_of_mem (mem_operatorTexts ho)
  constructor
  · intro h
    have hbehind := infix_behind hne (fun c hc hmem => by
      rw [htext] at hc
      have hpath := hparam c hmem
      rw [(opText_chars _ hc).1] at hpath
      cases hpath) h
    refine (infix_cut (fun hmem => ?_) hbehind).resolve_left ?_
    · rw [htext] at hmem
      exact (opText_chars _ hmem).2.1 rfl
    · exact earlier_not_within op o.1 ht
  · exact fun h => h.trans ((suffix_cons _ _).trans
      ((suffix_append _ _).trans (suffix_append _ _))).isInfix

theorem opText_ne_nil (op : ExprOp) : opText op ≠ [] := by
  cases op <;> exact cons_ne_nil _ _

theorem splitAtText_own (hparam : ∀ c ∈ param, isPathChar c = true) :
    splitAtText (opText op) (param ++ (opText op ++ '"' :: k)) = some (param, '"' :: k) := by
  refine splitAtText_append (fun h => ?_) (opText_ne_nil op) _
  have hbehind := infix_behind (opText_ne_nil op) (fun c hc hmem => by
    have hpath := hparam c hmem
    rw [(opText_chars _ hc).1] at hpath
    cases hpath) h
  have hlen := hbehind.length_le
  have hpos := length_pos_of_ne_nil (opText_ne_nil op)
  rw [length_dropLast] at hlen
  omega

/-- The operator found is the one of the expression exactly when none that is looked for earlier
occurs in the constant. -/
theorem splitOnOperator_text (op : ExprOp) (k : Str)
    (hparam : ∀ c ∈ param, isPathChar c = true) :
    (Unmistaken op k → splitOnOperator (param ++ (opText op ++ '"' :: k)) operatorTexts =
      some (param, op, '"' :: k)) ∧
    (¬ Unmistaken op k → ∃ before op' after, op' ≠ op ∧
      splitOnOperator (param ++ (opText op ++ '"' :: k)) operatorTexts =
        some (before, op', after)) := by
  obtain ⟨later, hsplit⟩ := operatorTexts_split op
  have hnone : ∀ o ∈ operatorTexts.takeWhile (fun o => decide (o.2 ≠ op)),
      splitAtText o.1 (param ++ (opText op ++ '"' :: k)) = none ↔ ¬ o.1 <:+: k := by
    intro o ho
    rw [splitAtText_eq_none_iff (opText_of_mem (mem_operatorTexts ho)).2,
      earlier_infix (mem_map_of_mem ho) hparam]
  constructor
  · intro hclean
    rw [hsplit, splitOnOperator_skip fun o ho =>
      (hnone o ho).mpr (hclean o.1 (mem_map_of_mem ho)), splitOnOperator,
      splitAtText_own hparam]
  · intro hmistaken
    obtain ⟨t, ht, hin⟩ : ∃ t ∈ earlierTexts op, t <:+: k := by
      simpa [Unmistaken] using hmistaken
    obtain ⟨o, ho, rfl⟩ := List.mem_map.mp ht
    obtain ⟨before, o', after, ho', hfound⟩ := splitOnOperator_stop
      ((opText op, op) :: later) ⟨o, ho, fun h => (hnone o ho).mp h hin⟩
    exact ⟨before, o'.2, after, earlier_ne ho', by rw [hsplit]; exact hfound⟩

theorem checked_eq_ok {const : Str} (h : checked isCliParser op param const = .ok e) :
    e.param = param ∧ e.op = op ∧ const ≠ [] ∧ '"' ∉ stripQuotes isCliParser const ∧
      e.value = percentDecodeString (stripQuotes isCliParser const) := by
  rw [checked] at h
  split at h
  · cases h
  · next hne =>
    split at h
    · cases h
    · split at h
      · cases h
      · next hquote =>
        cases h
        exact ⟨rfl, rfl, fun hnil => hne (.inr hnil), hquote, rfl⟩

theorem not_blank_of_path {c : Char} (h : isPathChar c = true) : isBlank c = false := by
  cases hc : isBlank c with
  | true => simp [isPathChar, hc] at h
  | false => rfl

theorem trimBuffer_solid (h : ∀ c ∈ text, isBlank c = false) : trimBuffer text = text := by
  by_cases hne : text = []
  · rw [hne]
    rfl
  · have htrim := ListTexts.trimBuffer_eq [] [] (by simp) (by simp) hne
      (fun c hc => h c (mem_of_mem_head? hc)) (fun c hc => h c (mem_of_mem_getLast? hc))
    rwa [nil_append, append_nil] at htrim

theorem trimBuffer_of_path (hparam : ∀ c ∈ param, isPathChar c = true) :
    trimBuffer param = param :=
  trimBuffer_solid fun c hc => not_blank_of_path (hparam c hc)

/-- An expression is read as itself when its operator is found and its constant is. -/
theorem component_text (hparam : ∀ c ∈ e.param, isPathChar c = true) :
    component isCliParser (e.param ++ (opText e.op ++ '"' :: k)) = .ok e ↔
      Unmistaken e.op k ∧ checked isCliParser e.op e.param (trimBuffer ('"' :: k)) = .ok e := by
  obtain ⟨hfound, hmistaken⟩ := splitOnOperator_text e.op k hparam
  rw [component]
  by_cases hclean : Unmistaken e.op k
  · rw [hfound hclean, and_iff_right hclean]
    dsimp only
    rw [trimBuffer_of_path hparam]
  · obtain ⟨before, op', after, hne, hother⟩ := hmistaken hclean
    rw [hother]
    constructor
    · exact fun h => (hne (checked_eq_ok h).2.1.symm).elim
    · exact fun h => (hclean h.1).elim

end Operators

section Constants

variable {value s rest : Str} {isCliParser : Bool} {e : ExprComp} {validOps : List ExprOp}

theorem not_mark_mem_encodeConst (value : Str) : '"' ∉ encodeConst value := by
  intro h
  obtain ⟨c, _, hin⟩ := List.mem_flatMap.mp h
  rw [encodeChar] at hin
  split at hin
  · simp at hin
  · split at hin
    · simp at hin
    · next hmark => exact hmark (List.mem_singleton.mp hin).symm

theorem nul_not_mem_encodeConst (h : nul ∉ value) : nul ∉ encodeConst value := by
  intro hmem
  obtain ⟨c, hc, hin⟩ := List.mem_flatMap.mp hmem
  rw [encodeChar] at hin
  split at hin
  · simp [nul] at hin
  · split at hin
    · simp [nul] at hin
    · exact h (List.mem_singleton.mp hin ▸ hc)

theorem percentDecodeString_encodeChar (c : Char) (rest : Str) :
    percentDecodeString (encodeChar c ++ rest) = c :: percentDecodeString rest := by
  rw [encodeChar]
  split
  · next hc =>
    rw [hc]
    rfl
  · next hpercent =>
    split
    · next hc =>
      rw [hc]
      rfl
    · exact percentDecodeString_other hpercent rest

theorem percentDecodeString_encodeConst (value : Str) :
    percentDecodeString (encodeConst value) = value := by
  induction value with
  | nil => rfl
  | cons c value ih =>
    rw [encodeConst, flatMap_cons, percentDecodeString_encodeChar]
    exact congrArg (c :: ·) ih

theorem encodeConst_eq_nil_iff : encodeConst value = [] ↔ value = [] := by
  constructor
  · intro h
    rw [← percentDecodeString_encodeConst value, h]
    rfl
  · rintro rfl
    rfl

theorem trimBuffer_quoted (s : Str) : trimBuffer ('"' :: (s ++ ['"'])) = '"' :: (s ++ ['"']) := by
  have htrim := ListTexts.trimBuffer_eq [] [] (by simp) (by simp)
    (cons_ne_nil '"' (s ++ ['"'])) (fun c hc => by cases hc; rfl) (fun c hc => by
      rw [← cons_append, getLast?_concat] at hc
      cases hc
      rfl)
  rwa [nil_append, append_nil] at htrim

theorem stripQuotes_quoted (isCliParser : Bool) (s : Str) :
    stripQuotes isCliParser ('"' :: (s ++ ['"'])) = s := by
  rw [stripQuotes, if_pos ⟨rfl, by rw [← cons_append, getLast?_concat]⟩, tail_cons,
    dropLast_concat]

theorem stripQuotes_mark (isCliParser : Bool) : stripQuotes isCliParser ['"'] = [] := by
  rw [stripQuotes, if_pos ⟨rfl, rfl⟩]
  rfl

theorem legal_param (h : Valid validOps e) : ¬ e.param.any isIllegalInParam = true := by
  rw [any_eq_true]
  rintro ⟨c, hc, hillegal⟩
  have hpath := h.param c hc
  simp only [isPathChar, isIllegalInParam, Bool.not_eq_true', Bool.or_eq_false_iff,
    Bool.or_eq_true] at hpath hillegal
  simp [hpath] at hillegal

/-- The constant of an expression is read as the value. -/
theorem checked_exprText (h : Valid validOps e) :
    checked isCliParser e.op e.param (trimBuffer ('"' :: (encodeConst e.value ++ ['"']))) =
      .ok e := by
  rw [trimBuffer_quoted, checked, if_neg (by simp [h.param_ne_nil]), if_neg (legal_param h),
    stripQuotes_quoted, if_neg (not_mark_mem_encodeConst _), percentDecodeString_encodeConst]

theorem component_exprText (h : Valid validOps e) :
    component isCliParser (exprText e) = .ok e ↔ Unmistaken e.op (encodeConst e.value) := by
  rw [exprText, component_text h.param, and_iff_left (checked_exprText h)]
  constructor
  · exact fun hclean t ht hin => hclean t ht (hin.trans (prefix_append _ _).isInfix)
  · intro hclean t ht hin
    obtain ⟨o, ho, rfl⟩ := List.mem_map.mp ht
    obtain ⟨htext, hne⟩ := opText_of_mem (mem_operatorTexts ho)
    have hmark : '"' ∉ o.1 := fun hmem => (opText_chars o.2 (htext ▸ hmem)).2.1 rfl
    cases infix_cut hmark hin with
    | inl hconst => exact hclean o.1 ht hconst
    | inr hnil => exact hne (List.infix_nil.mp hnil)

theorem nul_not_mem_exprText (h : Valid validOps e) : nul ∉ exprText e := by
  have hparam : nul ∉ e.param := fun hmem => by
    have hpath := h.param nul hmem
    simp [isPathChar] at hpath
  have hop : nul ∉ opText e.op := fun hmem => by
    cases hcase : e.op <;> rw [hcase] at hmem <;> revert hmem <;> decide
  have hmark : nul ≠ '"' := by decide
  simp [exprText, hparam, hop, hmark, nul_not_mem_encodeConst h.value]

end Constants

/-! ## The list and its text -/

section Lists

variable {front s text : Str} {isCliParser : Bool} {e : ExprComp} {es : List ExprComp}
  {validOps : List ExprOp}

/-- No separator ends in front of this text. -/
theorem splitAtSeparator_front (s : Str) (h : ∀ c ∈ front, isQuote c = false ∧ c ≠ '&') :
    splitAtSeparator andSeparator (front ++ s) =
      (splitAtSeparator andSeparator s).map fun r => (front ++ r.1, r.2) := by
  induction front with
  | nil => simp
  | cons c front ih =>
    obtain ⟨⟨hquote, hamp⟩, hfront⟩ := List.forall_mem_cons.mp h
    have hno : andSeparator.isPrefixOf (c :: (front ++ s)) = false := by
      simp [andSeparator, List.isPrefixOf, Ne.symm hamp]
    rw [cons_append, ListTexts.splitAtSeparator_plain hquote hno, ih hfront, Option.map_map]
    rfl

theorem front_chars (h : Valid validOps e) :
    ∀ c ∈ e.param ++ opText e.op, isQuote c = false ∧ c ≠ '&' := by
  intro c hc
  cases List.mem_append.mp hc with
  | inl hparam =>
    have hpath := h.param c hparam
    simp only [isPathChar, Bool.not_eq_true', Bool.or_eq_false_iff, decide_eq_false_iff_not,
      mem_cons, not_or] at hpath
    exact ⟨hpath.1.2, hpath.2.2.2.2.2.1⟩
  | inr hop => exact ⟨(opText_chars _ hop).2.2.1, (opText_chars _ hop).2.2.2.1⟩

/-- A speech mark without a partner ends the search. -/
theorem splitAtSeparator_open (separator : Str) (h : '"' ∉ s) :
    splitAtSeparator separator ('"' :: s) = none := by
  have hall : s.dropWhile (· ≠ '"') = [] :=
    List.dropWhile_eq_nil_iff.mpr fun c hc => decide_eq_true fun heq => h (heq ▸ hc)
  rw [splitAtSeparator, if_pos (by decide)]
  split
  · rfl
  · next hcons =>
    rw [hall] at hcons
    cases hcons

/-- The search goes on behind an expression. -/
theorem splitAtSeparator_exprText (h : Valid validOps e) (s : Str) :
    splitAtSeparator andSeparator (exprText e ++ s) =
      (splitAtSeparator andSeparator s).map fun r => (exprText e ++ r.1, r.2) := by
  have hquoted : splitAtSeparator andSeparator ('"' :: encodeConst e.value ++ '"' :: s) =
      (splitAtSeparator andSeparator s).map fun r => ('"' :: encodeConst e.value ++ '"' :: r.1, r.2) :=
    ListTexts.splitAtSeparator_quoted s (by decide) (not_mark_mem_encodeConst e.value)
  have hwhole : exprText e ++ s =
      e.param ++ opText e.op ++ ('"' :: encodeConst e.value ++ '"' :: s) := by
    simp [exprText]
  rw [hwhole, splitAtSeparator_front _ (front_chars h), hquoted, Option.map_map]
  congr 1
  funext r
  simp [exprText]

theorem splitAtSeparator_none (h : Valid validOps e) :
    splitAtSeparator andSeparator (exprText e) = none := by
  have hnone := splitAtSeparator_exprText h []
  rwa [append_nil, splitAtSeparator.eq_1, Option.map_none] at hnone

theorem splitAtSeparator_some (h : Valid validOps e) (s : Str) :
    splitAtSeparator andSeparator (exprText e ++ (andSeparator ++ s)) = some (exprText e, s) := by
  have hfound : splitAtSeparator andSeparator (andSeparator ++ s) = some ([], s) :=
    ListTexts.splitAtSeparator_found (by decide)
      (List.isPrefixOf_iff_prefix.mpr (prefix_append andSeparator s))
  rw [splitAtSeparator_exprText h, hfound, Option.map_some, append_nil]

theorem addPieces_last (h : splitAtSeparator andSeparator s = none) :
    ListTexts.addPieces andSeparator s = [trimBuffer s].filter (· ≠ []) := by
  rw [ListTexts.addPieces, dif_neg (by decide)]
  split
  · rfl
  · next hsome =>
    rw [h] at hsome
    cases hsome

theorem addPieces_cut {piece : Str} (h : splitAtSeparator andSeparator text = some (piece, s)) :
    ListTexts.addPieces andSeparator text =
      [trimBuffer piece].filter (· ≠ []) ++ ListTexts.addPieces andSeparator s := by
  rw [ListTexts.addPieces, dif_neg (by decide)]
  split
  · next hnone =>
    rw [h] at hnone
    cases hnone
  · next hsome =>
    rw [h] at hsome
    cases hsome
    rfl

theorem trimBuffer_expr {k back : Str} (h : Valid validOps e)
    (hlast : ∀ c, ('"' :: k).getLast? = some c → isBlank c = false)
    (hback : ∀ c ∈ back, isBlank c = true) :
    trimBuffer (e.param ++ (opText e.op ++ '"' :: k) ++ back) =
      e.param ++ (opText e.op ++ '"' :: k) := by
  have hhead : ∀ c, (e.param ++ (opText e.op ++ '"' :: k)).head? = some c → isBlank c = false := by
    intro c hc
    rw [head?_append_of_ne_nil _ h.param_ne_nil] at hc
    exact not_blank_of_path (h.param c (mem_of_mem_head? hc))
  have hend : ∀ c, (e.param ++ (opText e.op ++ '"' :: k)).getLast? = some c → isBlank c = false := by
    intro c hc
    rw [getLast?_append_of_ne_nil _ (by simp),
      getLast?_append_of_ne_nil _ (cons_ne_nil _ _)] at hc
    exact hlast c hc
  have htrim := ListTexts.trimBuffer_eq [] back (by simp) hback (by simp) hhead hend
  rwa [nil_append] at htrim

theorem trimBuffer_exprText (h : Valid validOps e) : trimBuffer (exprText e) = exprText e := by
  have hlast : ∀ c, ('"' :: (encodeConst e.value ++ ['"'])).getLast? = some c →
      isBlank c = false := by
    intro c hc
    rw [← cons_append, getLast?_concat] at hc
    cases hc
    rfl
  have htrim := trimBuffer_expr h hlast (forall_mem_nil _)
  rwa [append_nil] at htrim

theorem exprText_ne_nil (e : ExprComp) : exprText e ≠ [] := by simp [exprText]

theorem exprsText_single (e : ExprComp) : exprsText [e] = exprText e := intercalate_singleton

theorem exprsText_cons (e : ExprComp) (hne : es ≠ []) :
    exprsText (e :: es) = exprText e ++ (andSeparator ++ exprsText es) := by
  cases es with
  | nil => exact (hne rfl).elim
  | cons e' es =>
    rw [exprsText, map_cons, map_cons, intercalate_cons_cons, append_assoc]
    rfl

/-- Each expression is a piece of its own. -/
theorem addPieces_exprsText (hne : es ≠ []) (h : ∀ e ∈ es, Valid validOps e) :
    ListTexts.addPieces andSeparator (exprsText es) = es.map exprText := by
  induction es with
  | nil => exact (hne rfl).elim
  | cons e es ih =>
    obtain ⟨he, hes⟩ := List.forall_mem_cons.mp h
    have hpiece : [trimBuffer (exprText e)].filter (· ≠ []) = [exprText e] := by
      rw [trimBuffer_exprText he]
      simp [exprText_ne_nil]
    by_cases hnil : es = []
    · subst hnil
      rw [exprsText_single, addPieces_last (splitAtSeparator_none he), hpiece]
      rfl
    · rw [exprsText_cons e hnil, addPieces_cut (splitAtSeparator_some he _), hpiece, ih hnil hes]
      rfl

theorem readComponents_cons {texts : List Str} (h : Valid validOps e) (hnul : nul ∉ text) :
    readComponents validOps isCliParser (text :: texts) = some (.ok (e :: es)) ↔
      component isCliParser text = .ok e ∧
        readComponents validOps isCliParser texts = some (.ok es) := by
  rw [readComponents, readComponent_eq isCliParser hnul, Option.bind_some]
  cases hcomp : component isCliParser text with
  | error err => simp
  | ok comp =>
    dsimp only
    by_cases heq : comp = e
    · subst heq
      rw [if_neg (not_not.mpr h.op)]
      cases readComponents validOps isCliParser texts with
      | none => simp
      | some r => cases r <;> simp [Except.map]
    · have hother : Except.ok comp ≠ (Except.ok e : Except Err ExprComp) := fun h =>
        heq (Except.ok.inj h)
      simp only [hother, false_and, iff_false]
      split
      · simp
      · cases readComponents validOps isCliParser texts with
        | none => simp
        | some r => cases r <;> simp [Except.map, heq]

/-- As many expressions are read as there are components. -/
theorem readComponents_length {texts : List Str}
    (h : readComponents validOps isCliParser texts = some (.ok es)) : es.length = texts.length := by
  induction texts generalizing es with
  | nil =>
    cases h
    rfl
  | cons text texts ih =>
    rw [readComponents] at h
    obtain ⟨r, hr, h⟩ := Option.bind_eq_some_iff.mp h
    cases r with
    | error e => cases h
    | ok comp =>
      dsimp only at h
      split at h
      · cases h
      · obtain ⟨r, hrest, h⟩ := Option.map_eq_some_iff.mp h
        cases r with
        | error e => cases h
        | ok comps =>
          cases h
          rw [length_cons, length_cons, ih hrest]

theorem readComponents_exprsText (h : ∀ e ∈ es, Valid validOps e) :
    readComponents validOps isCliParser (es.map exprText) = some (.ok es) ↔
      ∀ e ∈ es, Unmistaken e.op (encodeConst e.value) := by
  induction es with
  | nil => simp [readComponents]
  | cons e es ih =>
    obtain ⟨he, hes⟩ := List.forall_mem_cons.mp h
    rw [map_cons, readComponents_cons he (nul_not_mem_exprText he), component_exprText he,
      ih hes, forall_mem_cons]

end Lists

/-! ## Texts that are cut off -/

section Clipped

variable {piece s text : Str} {isCliParser : Bool} {e : ExprComp} {es : List ExprComp}
  {validOps : List ExprOp}

theorem prefix_append_cases {a b : Str} (h : text <+: a ++ b) :
    text <+: a ∨ ∃ s, s <+: b ∧ text = a ++ s := by
  by_cases hlen : text.length ≤ a.length
  · exact .inl (prefix_of_prefix_length_le h (prefix_append a b) hlen)
  · obtain ⟨s, rfl⟩ :=
      prefix_of_prefix_length_le (prefix_append a b) h (Nat.le_of_not_le hlen)
    exact .inr ⟨s, (prefix_append_right_inj a).mp h, rfl⟩

/-- Where an expression, or the first half of the separator behind it, is cut off. -/
theorem cut_cases (h : text <+: exprText e ++ ['&']) :
    text <+: e.param ++ opText e.op ∨
      (∃ s, s <+: encodeConst e.value ∧ text = e.param ++ (opText e.op ++ '"' :: s)) ∨
      ∃ s, s <+: ['&'] ∧ text = exprText e ++ s := by
  have hwhole : exprText e ++ ['&'] =
      e.param ++ opText e.op ++ ('"' :: (encodeConst e.value ++ ('"' :: ['&']))) := by
    simp [exprText]
  rw [hwhole] at h
  rcases prefix_append_cases h with hfront | ⟨s, hs, rfl⟩
  · exact .inl hfront
  · cases s with
    | nil => exact .inl (by rw [append_nil])
    | cons c s =>
      obtain ⟨rfl, hs'⟩ := List.cons_prefix_cons.mp hs
      rcases prefix_append_cases hs' with hconst | ⟨t, ht, rfl⟩
      · exact .inr (.inl ⟨s, hconst, by rw [append_assoc]⟩)
      · cases t with
        | nil => exact .inr (.inl ⟨encodeConst e.value, prefix_rfl, by simp⟩)
        | cons c t =>
          obtain ⟨rfl, ht'⟩ := List.cons_prefix_cons.mp ht
          exact .inr (.inr ⟨t, ht', by simp [exprText]⟩)

/-- No separator is found in what is left. -/
theorem splitAtSeparator_cut (h : Valid validOps e) (hcut : text <+: exprText e ++ ['&']) :
    splitAtSeparator andSeparator text = none := by
  have hnil : splitAtSeparator andSeparator [] = none := splitAtSeparator.eq_1 _
  rcases cut_cases hcut with hfront | ⟨s, hs, rfl⟩ | ⟨s, hs, rfl⟩
  · have hnone := splitAtSeparator_front [] fun c hc => front_chars h c (hfront.subset hc)
    rwa [append_nil, hnil, Option.map_none] at hnone
  · have hmark : '"' ∉ s := fun hmem => not_mark_mem_encodeConst _ (hs.subset hmem)
    rw [← append_assoc, splitAtSeparator_front _ (front_chars h),
      splitAtSeparator_open _ hmark, Option.map_none]
  · have hnone : splitAtSeparator andSeparator s = none := by
      cases s with
      | nil => exact hnil
      | cons c s =>
        obtain ⟨rfl, hs'⟩ := List.cons_prefix_cons.mp hs
        rw [List.prefix_nil.mp hs', ListTexts.splitAtSeparator_plain (by decide) (by decide), hnil]
        rfl
    rw [splitAtSeparator_exprText h, hnone, Option.map_none]

/-- Blanks at the end of a constant that is cut off are trimmed. -/
theorem exists_trimmed (s : Str) : ∃ core back, s = core ++ back ∧ (∀ c ∈ back, isBlank c = true) ∧
    ∀ c, ('"' :: core).getLast? = some c → isBlank c = false := by
  induction s using List.reverseRecOn with
  | nil => exact ⟨[], [], rfl, by simp, fun c hc => by cases hc; rfl⟩
  | append_singleton s c ih =>
    cases hc : isBlank c with
    | true =>
      obtain ⟨core, back, rfl, hback, hlast⟩ := ih
      refine ⟨core, back ++ [c], by rw [append_assoc], fun d hd => ?_, hlast⟩
      cases List.mem_append.mp hd with
      | inl hd => exact hback d hd
      | inr hd => rw [List.mem_singleton.mp hd, hc]
    | false =>
      refine ⟨s ++ [c], [], by rw [append_nil], by simp, fun d hd => ?_⟩
      rw [← cons_append, getLast?_concat] at hd
      rw [← Option.some.inj hd, hc]

/-- A constant without its last speech mark is read when it is the first speech mark only, which
stands for no text. -/
theorem component_open (isCliParser : Bool) (h : Valid validOps e)
    (hs : s <+: encodeConst e.value) :
    ∃ piece, trimBuffer (e.param ++ (opText e.op ++ '"' :: s)) = piece ∧ piece ≠ [] ∧ nul ∉ piece ∧
      (component isCliParser piece = .ok e ↔ e.value = []) := by
  obtain ⟨core, back, rfl, hback, hlast⟩ := exists_trimmed s
  have hmark : '"' ∉ core := fun hmem =>
    not_mark_mem_encodeConst _ (hs.subset (mem_append_left _ hmem))
  have htrim : trimBuffer ('"' :: core) = '"' :: core := by
    have hends := ListTexts.trimBuffer_eq [] [] (by simp) (by simp) (cons_ne_nil '"' core)
      (fun c hc => by cases hc; rfl) hlast
    rwa [nil_append, append_nil] at hends
  have hpiece : trimBuffer (e.param ++ (opText e.op ++ '"' :: (core ++ back))) =
      e.param ++ (opText e.op ++ '"' :: core) := by
    have hends := trimBuffer_expr h hlast hback
    simpa using hends
  refine ⟨_, hpiece, by simp, ?_, ?_⟩
  · have hnul := nul_not_mem_exprText h
    intro hmem
    apply hnul
    rw [exprText]
    simp only [mem_append, mem_cons] at hmem ⊢
    obtain hmem | hmem | hmem | hmem := hmem
    · exact .inl hmem
    · exact .inr (.inl hmem)
    · exact .inr (.inr (.inl hmem))
    · exact .inr (.inr (.inr (.inl (hs.subset (mem_append_left _ hmem)))))
  · rw [component_text h.param, htrim]
    constructor
    · rintro ⟨-, hchecked⟩
      obtain ⟨-, -, -, hquote, hvalue⟩ := checked_eq_ok hchecked
      cases core with
      | nil =>
        rw [hvalue, stripQuotes_mark]
        rfl
      | cons c core =>
        have hend : ('"' :: c :: core).getLast? ≠ some '"' := fun hend => by
          rw [getLast?_cons_cons] at hend
          exact hmark (mem_of_mem_getLast? hend)
        rw [stripQuotes, if_neg (fun hstrip => hend hstrip.2), if_neg (by simp)] at hquote
        exact (hquote mem_cons_self).elim
    · intro hvalue
      rw [encodeConst_eq_nil_iff.mpr hvalue, prefix_nil, append_eq_nil_iff] at hs
      obtain ⟨rfl, rfl⟩ := hs
      constructor
      · intro t ht hin
        obtain ⟨o, ho, rfl⟩ := List.mem_map.mp ht
        exact (opText_of_mem (mem_operatorTexts ho)).2 (List.infix_nil.mp hin)
      · rw [checked, if_neg (by simp [h.param_ne_nil]), if_neg (legal_param h), stripQuotes_mark,
          if_neg not_mem_nil]
        show Except.ok (ExprComp.mk e.param e.op []) = _
        rw [← hvalue]

/-- Without an operator and something behind it nothing is read. -/
theorem component_front (h : text <+: e.param ++ opText e.op)
    (hblank : ∀ c ∈ text, isBlank c = false) : component isCliParser text ≠ .ok e := by
  intro hok
  rw [component] at hok
  cases hsplit : splitOnOperator text operatorTexts with
  | none =>
    rw [hsplit] at hok
    cases hok
  | some r =>
    obtain ⟨before, op, after⟩ := r
    rw [hsplit] at hok
    obtain ⟨hparam, hop, hne, -, -⟩ := checked_eq_ok hok
    obtain rfl := splitOnOperator_parts hsplit
    rw [trimBuffer_solid fun c hc => hblank c (mem_append_left _ hc)] at hparam
    have hlen := h.length_le
    rw [hparam, hop] at hlen
    simp only [length_append] at hlen
    obtain rfl : after = [] := List.length_eq_zero_iff.mp (by omega)
    exact hne rfl

/-- One expression that is cut off. -/
theorem readComponents_cut (h : Valid validOps e) (hcut : text <+: exprText e)
    (hshort : text.length < (exprText e).length) :
    readComponents validOps isCliParser (ListTexts.addPieces andSeparator text) =
      some (.ok [e]) ↔ exprText e = text ++ ['"'] ∧ e.value = [] := by
  have hcut' : text <+: exprText e ++ ['&'] := hcut.trans (prefix_append _ _)
  have hlength : (exprText e).length =
      e.param.length + (opText e.op).length + (encodeConst e.value).length + 2 := by
    simp only [exprText, length_append, length_cons, length_nil]
    omega
  rw [addPieces_last (splitAtSeparator_cut h hcut')]
  rcases cut_cases hcut' with hfront | ⟨s, hs, rfl⟩ | ⟨s, hs, rfl⟩
  · have hblank : ∀ c ∈ text, isBlank c = false := by
      intro c hc
      cases List.mem_append.mp (hfront.subset hc) with
      | inl hparam => exact not_blank_of_path (h.param c hparam)
      | inr hop => exact (opText_chars _ hop).2.2.2.2
    have hnul : nul ∉ text := fun hmem => nul_not_mem_exprText h (hcut.subset hmem)
    have hfrontLen := hfront.length_le
    rw [length_append] at hfrontLen
    rw [trimBuffer_solid hblank]
    constructor
    · intro hread
      by_cases hnil : text = []
      · rw [hnil] at hread
        cases hread
      · rw [filter_cons_of_pos (by simpa using hnil), readComponents_cons h hnul] at hread
        exact (component_front hfront hblank hread.1).elim
    · rintro ⟨heq, -⟩
      have hlen := congrArg List.length heq
      rw [length_append, length_singleton] at hlen
      omega
  · obtain ⟨piece, hpiece, hne, hnul, hiff⟩ := component_open isCliParser h hs
    have hnothing : readComponents validOps isCliParser [] = some (.ok []) := rfl
    rw [hpiece, filter_cons_of_pos (by simpa using hne), filter_nil,
      readComponents_cons h hnul, hiff, and_iff_left hnothing]
    constructor
    · intro hvalue
      refine ⟨?_, hvalue⟩
      have henc := encodeConst_eq_nil_iff.mpr hvalue
      rw [henc, prefix_nil] at hs
      simp [exprText, henc, hs]
    · exact And.right
  · rw [length_append] at hshort
    omega

theorem exprsText_ne_nil (hne : es ≠ []) : exprsText es ≠ [] := by
  cases es with
  | nil => exact (hne rfl).elim
  | cons e es =>
    by_cases hes : es = []
    · rw [hes, exprsText_single]
      exact exprText_ne_nil e
    · rw [exprsText_cons e hes]
      simp [exprText_ne_nil]

/-- A text that is cut off at its end is read as the list when only the last speech mark is
missing, and the last constant is no text. -/
theorem readComponents_clipped (hne : es ≠ []) (h : ∀ e ∈ es, Valid validOps e)
    (hcut : text <+: exprsText es) (hshort : text.length < (exprsText es).length) :
    readComponents validOps isCliParser (ListTexts.addPieces andSeparator text) = some (.ok es) ↔
      (∀ e ∈ es, Unmistaken e.op (encodeConst e.value)) ∧ exprsText es = text ++ ['"'] ∧
        ∀ e, es.getLast? = some e → e.value = [] := by
  induction es generalizing text with
  | nil => exact (hne rfl).elim
  | cons e es ih =>
    obtain ⟨he, hes⟩ := List.forall_mem_cons.mp h
    by_cases hnil : es = []
    · subst hnil
      rw [exprsText_single] at hcut hshort ⊢
      rw [readComponents_cut he hcut hshort]
      have hclean : e.value = [] → Unmistaken e.op (encodeConst e.value) := by
        intro hvalue t ht hin
        obtain ⟨o, ho, rfl⟩ := List.mem_map.mp ht
        rw [encodeConst_eq_nil_iff.mpr hvalue, infix_nil] at hin
        exact (opText_of_mem (mem_operatorTexts ho)).2 hin
      simp only [mem_singleton, forall_eq, getLast?_singleton, Option.some.injEq,
        forall_eq']
      exact ⟨fun ⟨heq, hvalue⟩ => ⟨hclean hvalue, heq, hvalue⟩, And.right⟩
    · have hpos := length_pos_of_ne_nil (exprsText_ne_nil hnil)
      have hlength : (exprText e ++ (andSeparator ++ exprsText es)).length =
          (exprText e).length + 2 + (exprsText es).length := by
        simp only [length_append, andSeparator, length_cons, length_nil]
        omega
      rw [exprsText_cons e hnil] at hcut hshort ⊢
      by_cases hlong : text.length ≤ (exprText e).length + 1
      · -- the text ends in front of the second expression
        have hcut' : text <+: exprText e ++ ['&'] :=
          prefix_of_prefix_length_le hcut
            ((prefix_append_right_inj _).mpr ⟨'&' :: exprsText es, rfl⟩) (by simpa using hlong)
        constructor
        · intro hread
          have hcount := readComponents_length hread
          rw [addPieces_last (splitAtSeparator_cut he hcut')] at hcount
          have hone : ([trimBuffer text].filter (· ≠ [])).length ≤ 1 := length_filter_le _ _
          have hmany := length_pos_of_ne_nil hnil
          rw [length_cons] at hcount
          omega
        · rintro ⟨-, heq, -⟩
          have hlen := congrArg List.length heq
          rw [hlength, length_append, length_singleton] at hlen
          omega
      · obtain ⟨rest, rfl⟩ : ∃ rest, text = exprText e ++ (andSeparator ++ rest) := by
          have hfront : exprText e ++ andSeparator <+: text :=
            prefix_of_prefix_length_le ⟨exprsText es, by rw [append_assoc]⟩ hcut (by
              simp only [length_append, andSeparator, length_cons, length_nil]
              omega)
          obtain ⟨rest, hrest⟩ := hfront
          exact ⟨rest, by rw [← hrest, append_assoc]⟩
        have hrest : rest <+: exprsText es := by
          rwa [prefix_append_right_inj, prefix_append_right_inj] at hcut
        have hrestShort : rest.length < (exprsText es).length := by
          simp only [length_append] at hshort
          omega
        have hpiece : [trimBuffer (exprText e)].filter (· ≠ []) = [exprText e] := by
          rw [trimBuffer_exprText he]
          simp [exprText_ne_nil]
        have hends : exprText e ++ (andSeparator ++ exprsText es) =
            exprText e ++ (andSeparator ++ rest) ++ ['"'] ↔ exprsText es = rest ++ ['"'] := by
          simp
        have hlast : (e :: es).getLast? = es.getLast? := by
          cases es with
          | nil => exact (hnil rfl).elim
          | cons e' es => exact getLast?_cons_cons
        rw [addPieces_cut (splitAtSeparator_some he rest), hpiece, singleton_append,
          readComponents_cons he (nul_not_mem_exprText he), component_exprText he,
          ih hnil hes hrest hrestShort, hends, hlast, forall_mem_cons, and_assoc]

theorem exprsText_concat (hne : es ≠ []) : ∃ init, exprsText es = init ++ ['"'] := by
  induction es with
  | nil => exact (hne rfl).elim
  | cons e es ih =>
    by_cases hnil : es = []
    · rw [hnil, exprsText_single, exprText]
      exact ⟨e.param ++ (opText e.op ++ '"' :: encodeConst e.value), by simp⟩
    · obtain ⟨init, hinit⟩ := ih hnil
      rw [exprsText_cons e hnil, hinit]
      exact ⟨exprText e ++ (andSeparator ++ init), by simp⟩

/-- The texts that the buffer takes, but for the closing speech mark of an empty constant. -/
def Fits (es : List ExprComp) : Prop :=
  (exprsText es).length < maxDmValueLen ∨
    (exprsText es).length = maxDmValueLen ∧ ∀ e, es.getLast? = some e → e.value = []

theorem splitExpressions_exprsText (isCliParser : Bool) (hne : es ≠ [])
    (h : ∀ e ∈ es, Valid validOps e) :
    splitExpressions (exprsText es) andSeparator validOps isCliParser = some (.ok es) ↔
      (∀ e ∈ es, Unmistaken e.op (encodeConst e.value)) ∧ Fits es := by
  have hpos : 0 < maxDmValueLen := by decide
  rw [splitExpressions, ListTexts.splitString, if_neg (exprsText_ne_nil hne), clip, Fits]
  by_cases hfits : (exprsText es).length < maxDmValueLen
  · rw [take_of_length_le (by omega), addPieces_exprsText hne h, readComponents_exprsText h,
      and_iff_left (.inl hfits)]
  · have hlen : ((exprsText es).take (maxDmValueLen - 1)).length = maxDmValueLen - 1 := by
      rw [length_take]
      omega
    have hend : exprsText es = (exprsText es).take (maxDmValueLen - 1) ++ ['"'] ↔
        (exprsText es).length = maxDmValueLen := by
      constructor
      · intro heq
        have hlength := congrArg List.length heq
        rw [length_append, hlen, length_singleton] at hlength
        omega
      · intro hlength
        obtain ⟨init, hinit⟩ := exprsText_concat hne
        rw [hinit, length_append, length_singleton] at hlength
        rw [hinit, take_left' (by omega)]
    rw [readComponents_clipped hne h (List.take_prefix _ _) (by omega), hend,
      or_iff_right hfits]

end Clipped

/-! ## Every text -/

section Inside

variable {piece text separator : Str}

/-- The components are trimmed parts of the text. -/
theorem mem_addPieces (separator : Str) (hmem : piece ∈ ListTexts.addPieces separator text) :
    ∃ part, piece = trimBuffer part ∧ ∀ c ∈ part, c ∈ text := by
  have hlast : ∀ s : Str, piece ∈ [trimBuffer s].filter (· ≠ []) → piece = trimBuffer s := by
    intro s hs
    exact List.mem_singleton.mp (List.mem_filter.mp hs).1
  fun_induction ListTexts.addPieces separator text with
  | case1 s hsep => exact ⟨s, hlast s hmem, fun c hc => hc⟩
  | case2 s hsep hnone => exact ⟨s, hlast s hmem, fun c hc => hc⟩
  | case3 s hsep front rest hsome ih =>
    obtain ⟨rfl, _⟩ := ListTexts.splitAtSeparator_sound hsep hsome
    cases List.mem_append.mp hmem with
    | inl hfront => exact ⟨front, hlast front hfront, fun c hc => by simp [hc]⟩
    | inr hrest =>
      obtain ⟨part, hpart, hin⟩ := ih hrest
      exact ⟨part, hpart, fun c hc => by simp [hin c hc]⟩

theorem mem_splitString (hmem : piece ∈ ListTexts.splitString text separator) :
    ∃ part, piece = trimBuffer part ∧ ∀ c ∈ part, c ∈ text := by
  rw [ListTexts.splitString] at hmem
  split at hmem
  · cases hmem
  · obtain ⟨part, hpart, hin⟩ := mem_addPieces separator hmem
    exact ⟨part, hpart, fun c hc => mem_of_mem_take (hin c hc)⟩

theorem splitString_piece (hnul : nul ∉ text)
    (hmem : piece ∈ ListTexts.splitString text separator) :
    nul ∉ piece ∧ ∀ c, piece.getLast? = some c → isBlank c = false := by
  obtain ⟨part, rfl, hin⟩ := mem_splitString hmem
  have htrimmed := ListTexts.trimBuffer_trimmed part
  obtain ⟨front, back, hpart, -, -⟩ := htrimmed.around
  refine ⟨fun hc => hnul (hin nul ?_), htrimmed.last⟩
  rw [hpart]
  simp [hc]

/-- A list of expressions is read back from its text exactly when each operator is found in front
of its constant and the text fits in the buffer. The strings of a component are inside it exactly
when its constant is not a single quote. -/
theorem splitExpressions_right_iff {es : List ExprComp} {validOps : List ExprOp}
    (isCliParser : Bool) (hne : es ≠ []) (h : ∀ e ∈ es, Valid validOps e) (hnul : nul ∉ text)
    (hmem : piece ∈ ListTexts.splitString text separator) :
    (splitExpressions (exprsText es) andSeparator validOps isCliParser = some (.ok es) ↔
      (∀ e ∈ es, Unmistaken e.op (encodeConst e.value)) ∧ Fits es) ∧
    ∃ cells r, parseComponent isCliParser (piece ++ [nul]) = some (cells, r) ∧
      ∀ parts, r = .ok parts →
        (StringInside piece cells parts.param ∧ StringInside piece cells parts.value ↔
          ¬ LoneQuote isCliParser piece) := by
  obtain ⟨hpiece, hlast⟩ := splitString_piece hnul hmem
  refine ⟨splitExpressions_exprsText isCliParser hne h, ?_⟩
  obtain ⟨limit, -, -, hagrees⟩ := parseComponent_agrees isCliParser hpiece
  generalize hparse : parseComponent isCliParser (piece ++ [nul]) = r at hagrees
  generalize component isCliParser piece = r' at hagrees
  cases hagrees with
  | error => exact ⟨_, _, rfl, fun _ hok => nomatch hok⟩
  | ok hfinds =>
    refine ⟨_, _, rfl, fun parts hok => ?_⟩
    cases hok
    exact inside_iff hpiece hlast hparse

/-- `Name!="a==b"`: the operator `==` is looked for first. -/
def unequal : ExprComp := ⟨"Name".toList, .notEqual, "a==b".toList⟩

/-- `Name=="` -/
def halfQuoted : Str := "Name==\"".toList

theorem unequal_valid : Valid [.equal, .notEqual] unequal := by
  constructor
  case param => exact List.all_eq_true.mp rfl
  all_goals decide

theorem halfQuoted_piece : halfQuoted ∈ ListTexts.splitString halfQuoted andSeparator := by
  have hnone : splitAtSeparator andSeparator halfQuoted = none := by
    have hfront : ∀ c ∈ "Name==".toList, isQuote c = false ∧ c ≠ '&' := by
      simp [isQuote]
    have hsplit := splitAtSeparator_front ['"'] hfront
    rwa [splitAtSeparator_open _ not_mem_nil] at hsplit
  have hclip : clip maxDmValueLen halfQuoted = halfQuoted := by decide
  have htrim : trimBuffer halfQuoted = halfQuoted := by decide
  rw [ListTexts.splitString, if_neg (by decide), hclip, addPieces_last hnone, htrim]
  decide

theorem splitExpressions_right_iff_unequal :
    (splitExpressions (exprsText [unequal]) andSeparator [.equal, .notEqual] false =
        some (.ok [unequal]) ↔
      (∀ e ∈ [unequal], Unmistaken e.op (encodeConst e.value)) ∧ Fits [unequal]) ∧
    ∃ cells r, parseComponent false (halfQuoted ++ [nul]) = some (cells, r) ∧
      ∀ parts, r = .ok parts →
        (StringInside halfQuoted cells parts.param ∧ StringInside halfQuoted cells parts.value ↔
          ¬ LoneQuote false halfQuoted) :=
  splitExpressions_right_iff false (cons_ne_nil _ _)
    (fun e he => List.mem_singleton.mp he ▸ unequal_valid) (by decide) halfQuoted_piece

/-- The expression is not read back, and the value of the component begins at its terminator. -/
theorem unequal_mistaken :
    splitExpressions (exprsText [unequal]) andSeparator [.equal, .notEqual] false ≠
        some (.ok [unequal]) ∧
      halfQuoted ∈ ListTexts.splitString halfQuoted andSeparator ∧
      (parseComponent false (halfQuoted ++ [nul])).map Prod.snd =
        some (.ok ⟨0, .equal, halfQuoted.length⟩) := by
  refine ⟨fun hread => ?_, halfQuoted_piece, by decide⟩
  rw [splitExpressions_exprsText false (cons_ne_nil _ _)
    (fun e he => List.mem_singleton.mp he ▸ unequal_valid)] at hread
  have hclean := hread.1 unequal (mem_singleton_self _) ['=', '='] (by decide)
  exact hclean (by decide)

end Inside

end ExpressionTexts
