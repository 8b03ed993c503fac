import SdtTr369.PercentEscapes
import SdtTr369.UspTypes

/-!
# Search expressions

The components of a search expression as `EXPR_VECTOR_SplitExpressions` parses
them, and the comparisons of `DM_ACCESS`. Numbers are compared as long doubles
and date-times as what `strptime` reads; these belong to the platform and are a
parameter (`ValueRules`).
-/

namespace ExprVector

open UspTypes PercentEscapes List

/-- `expr_op_t`. -/
inductive ExprOp where
  | equal
  | notEqual
  | lessThanOrEqual
  | greaterThanOrEqual
  | lessThan
  | greaterThan
  | equals
  deriving DecidableEq, Repr

/-- `expr_comp_t`. -/
structure ExprComp where
  param : Str
  op : ExprOp
  value : Str
  deriving DecidableEq, Repr

/-! ## Splitting -/

def isQuote (c : Char) : Bool := c = '"' || c = '\''

/-- `TEXT_UTILS_StrStr` as the text in front of the separator found and the text
behind it. Quoted substrings are skipped, and an unpaired quote ends the search. -/
def splitAtSeparator (separator : Str) : Str → Option (Str × Str)
  | [] => none
  | c :: s =>
    if isQuote c then
      match _h : s.dropWhile (· ≠ c) with
      | [] => none
      | quote :: after =>
        (splitAtSeparator separator after).map fun r =>
          (c :: s.takeWhile (· ≠ c) ++ quote :: r.1, r.2)
    else if separator.isPrefixOf (c :: s) then some ([], (c :: s).drop separator.length)
    else (splitAtSeparator separator s).map fun r => (c :: r.1, r.2)
termination_by s => s.length
decreasing_by
  · have hlen := (dropWhile_suffix (fun x : Char => decide (x ≠ c)) (l := s)).length_le
    rw [_h] at hlen
    exact Nat.lt_succ_of_lt hlen
  · exact Nat.lt_succ_self _

theorem splitAtSeparator_length {separator s : Str} {r : Str × Str} (hne : separator ≠ [])
    (h : splitAtSeparator separator s = some r) : r.2.length < s.length := by
  fun_induction splitAtSeparator separator s generalizing r with
  | case1 => cases h
  | case2 c s hq hd => cases h
  | case3 c s hq quote after hd ih =>
    have hlen := (dropWhile_suffix (fun x : Char => decide (x ≠ c)) (l := s)).length_le
    rw [hd, length_cons] at hlen
    obtain ⟨r', hr', rfl⟩ := Option.map_eq_some_iff.mp h
    have := ih hr'
    simp only [length_cons]
    omega
  | case4 c s hq hp =>
    cases h
    have hpos := length_pos_of_ne_nil hne
    simp only [length_drop, length_cons]
    omega
  | case5 c s hq hp ih =>
    obtain ⟨r', hr', rfl⟩ := Option.map_eq_some_iff.mp h
    have := ih hr'
    simp only [length_cons]
    omega

def isBlank (c : Char) : Bool := c = ' ' || c = '\t'

/-- `TEXT_UTILS_TrimBuffer`. -/
def trimBuffer (s : Str) : Str :=
  ((s.dropWhile isBlank).reverse.dropWhile isBlank).reverse

/-- The separator of the components of a search expression. -/
def andSeparator : Str := ['&', '&']

/-- `TEXT_UTILS_SplitString` with `andSeparator`, without the buffer size: a
search key is shorter than its buffer. -/
def splitString (s : Str) : List Str :=
  match _h : splitAtSeparator andSeparator s with
  | none => [trimBuffer s].filter (· ≠ [])
  | some (piece, rest) => [trimBuffer piece].filter (· ≠ []) ++ splitString rest
termination_by s.length
decreasing_by
  exact splitAtSeparator_length (by decide) _h

/-! ## One component -/

/-- The text around the first occurrence of `op`. -/
def splitAtText (op : Str) : Str → Option (Str × Str)
  | [] => none
  | c :: s =>
    if op.isPrefixOf (c :: s) then some ([], (c :: s).drop op.length)
    else (splitAtText op s).map fun r => (c :: r.1, r.2)

section Cutting

variable {op s u v : Str}

theorem splitAtText_append (hcut : ¬op <:+: u ++ op.dropLast) (hop : op ≠ []) (v : Str) :
    splitAtText op (u ++ (op ++ v)) = some (u, v) := by
  induction u with
  | nil =>
    obtain ⟨c, op', rfl⟩ := exists_cons_of_ne_nil hop
    rw [nil_append, cons_append, splitAtText, if_pos]
    · rw [← cons_append, drop_left]
    · rw [List.isPrefixOf_iff_prefix, ← cons_append]
      exact prefix_append _ v
  | cons c u ih =>
    -- An occurrence at the front would lie before the last character of the separator.
    have hfront : ¬op <+: c :: (u ++ (op ++ v)) := by
      intro hin
      have hfirst : c :: u ++ op.dropLast <+: c :: (u ++ (op ++ v)) := by
        refine ⟨[op.getLast hop] ++ v, ?_⟩
        rw [cons_append, cons_append, append_assoc, ← append_assoc op.dropLast,
          dropLast_append_getLast]
      refine hcut (prefix_of_prefix_length_le hin hfirst ?_).isInfix
      · rw [length_append, length_cons, length_dropLast]
        omega
    have htail : ¬op <:+: u ++ op.dropLast := fun hin => hcut (infix_cons hin)
    rw [cons_append, splitAtText, if_neg (by rwa [List.isPrefixOf_iff_prefix]), ih htail]
    rfl

theorem splitAtText_parts (hop : op ≠ []) (h : splitAtText op s = some (u, v)) :
    s = u ++ (op ++ v) ∧ ¬op <:+: u ++ op.dropLast := by
  induction s generalizing u with
  | nil => simp [splitAtText] at h
  | cons c s ih =>
    rw [splitAtText] at h
    split at h
    · rename_i hfront
      cases h
      rw [List.isPrefixOf_iff_prefix] at hfront
      refine ⟨(List.prefix_iff_eq_append.mp hfront).symm, fun hin => ?_⟩
      have hlength := hin.length_le
      have hpos := length_pos_of_ne_nil hop
      rw [nil_append, length_dropLast] at hlength
      omega
    · rename_i hfront
      obtain ⟨⟨u', v'⟩, hsplit, heq⟩ := Option.map_eq_some_iff.mp h
      cases heq
      obtain ⟨rfl, hcut⟩ := ih hsplit
      refine ⟨rfl, fun hin => ?_⟩
      rw [cons_append] at hin
      rcases List.infix_cons_iff.mp hin with hin | hin
      · refine hfront (List.isPrefixOf_iff_prefix.mpr (hin.trans ?_))
        refine (prefix_cons_inj c).mpr ((prefix_append_right_inj u').mpr ?_)
        exact (List.dropLast_prefix op).trans (prefix_append op v')
      · exact hcut hin

theorem splitAtText_eq_none_iff (hop : op ≠ []) : splitAtText op s = none ↔ ¬op <:+: s := by
  induction s with
  | nil => simp [splitAtText, hop]
  | cons c s ih =>
    rw [splitAtText, infix_cons_iff, not_or]
    split
    · next hfront => simp [List.isPrefixOf_iff_prefix.mp hfront]
    · next hfront =>
      rw [Option.map_eq_none_iff, ih]
      exact (and_iff_right fun hin => hfront (List.isPrefixOf_iff_prefix.mpr hin)).symm

end Cutting

/-- The operators in the order in which `SplitOnOperator` looks for them. -/
def operatorTexts : List (Str × ExprOp) :=
  [(['=', '='], .equal), (['!', '='], .notEqual), (['<', '='], .lessThanOrEqual),
    (['>', '='], .greaterThanOrEqual), (['<'], .lessThan), (['>'], .greaterThan),
    (['='], .equals)]

/-- `SplitOnOperator`. -/
def splitOnOperator (buf : Str) : List (Str × ExprOp) → Option (Str × ExprOp × Str)
  | [] => none
  | (text, op) :: rest =>
    match splitAtText text buf with
    | some (before, after) => some (before, op, after)
    | none => splitOnOperator buf rest

/-- `TEXT_UTILS_HexDigitToValue`. -/
def hexDigitToValue (c : Char) : Option Nat := hexValue c.toNat

/-- What two characters behind a `%` stand for. A terminator ends the text. -/
def escapedChar (d1 d2 : Char) : Option (Option Char) :=
  match hexDigitToValue d1, hexDigitToValue d2 with
  | some digit1, some digit2 =>
    if 16 * digit1 + digit2 = 0 then some none else some (some (Char.ofNat (16 * digit1 + digit2)))
  | _, _ => none

/-- `TEXT_UTILS_PercentDecodeString`, up to the terminator that an escape may give. -/
def percentDecodeString : Str → Str := unescape '%' escapedChar

theorem percentDecodeString_other {c : Char} (hc : c ≠ '%') (s : Str) :
    percentDecodeString (c :: s) = c :: percentDecodeString s :=
  unescape_other hc

def isIllegalInParam (c : Char) : Bool := isBlank c || isQuote c

/-- The constant without its speech marks; a single one counts as both. -/
def stripSpeechMarks (exprConst : Str) : Str :=
  if exprConst.head? = some '"' ∧ exprConst.getLast? = some '"' then exprConst.tail.dropLast
  else exprConst

/-- `ParseExprComponent` for expressions of USP messages. -/
def parseExprComponent (buf : Str) : Except Err ExprComp :=
  match splitOnOperator buf operatorTexts with
  | none => .error .invalidPathSyntax
  | some (before, op, after) =>
    let exprParam := trimBuffer before
    let exprConst := stripSpeechMarks (trimBuffer after)
    if exprParam = [] ∨ trimBuffer after = [] then .error .invalidPathSyntax
    else if exprParam.any isIllegalInParam then .error .invalidPathSyntax
    else if '"' ∈ exprConst then .error .invalidPathSyntax
    else .ok ⟨exprParam, op, percentDecodeString exprConst⟩

/-- The loop of `EXPR_VECTOR_SplitExpressions`, for the `valid_ops` of a search:
all operators but the last. -/
def parseComponents : List Str → Except Err (List ExprComp)
  | [] => .ok []
  | text :: rest =>
    match parseExprComponent text with
    | .error e => .error e
    | .ok comp =>
      if comp.op = .equals then .error .invalidPathSyntax
      else (parseComponents rest).map (comp :: ·)

/-- `EXPR_VECTOR_SplitExpressions`. -/
def splitExpressions (str : Str) : Except Err (List ExprComp) := parseComponents (splitString str)

/-! ## Comparisons -/

/-- What `sscanf` with one conversion finds: no number, nothing but white space,
or a number. -/
inductive ScanResult (N : Type) where
  | noMatch
  | endOfInput
  | value (n : N)

/-- The arithmetic of the platform. `unset` is what a variable holds that was
never written. -/
structure ValueRules (N : Type) where
  scan : Str → ScanResult N
  unset : N
  eq : N → N → Bool
  lt : N → N → Bool
  le : N → N → Bool
  unixTime : Str → Option Int

/-- `DM_ACCESS_CompareString`. A comparison with the operator `=` ends the process. -/
def compareString (lhs : Str) (op : ExprOp) (rhs : Str) : Option (Except Err Bool) :=
  match op with
  | .equal => some (.ok (lhs = rhs))
  | .notEqual => some (.ok (lhs ≠ rhs))
  | .lessThanOrEqual | .greaterThanOrEqual | .lessThan | .greaterThan =>
    some (.error .invalidPathSyntax)
  | .equals => none

section Numbers

variable {N : Type} (R : ValueRules N)

/-- The test `num_converted == 0` of `DM_ACCESS_CompareNumber`, which the value
-1 for an empty text passes. -/
def readNumber (s : Str) : Option N :=
  match R.scan s with
  | .noMatch => none
  | .endOfInput => some R.unset
  | .value n => some n

/-- `DM_ACCESS_CompareNumber`. -/
def compareNumber (lhs : Str) (op : ExprOp) (rhs : Str) : Option (Except Err Bool) :=
  match readNumber R lhs, readNumber R rhs with
  | none, _ => some (.error .internalError)
  | some _, none => some (.error .invalidPathSyntax)
  | some l, some r =>
    match op with
    | .equal => some (.ok (R.eq l r))
    | .notEqual => some (.ok (!R.eq l r))
    | .lessThanOrEqual => some (.ok (R.le l r))
    | .greaterThanOrEqual => some (.ok (R.le r l))
    | .lessThan => some (.ok (R.lt l r))
    | .greaterThan => some (.ok (R.lt r l))
    | .equals => none

/-- `TEXT_UTILS_StringToBool`. -/
def stringToBool (s : Str) : Option Bool :=
  if s.map Char.toLower = ['t', 'r', 'u', 'e'] ∨ s = ['1'] then some true
  else if s.map Char.toLower = ['f', 'a', 'l', 's', 'e'] ∨ s = ['0'] then some false
  else none

/-- `DM_ACCESS_CompareBool`. -/
def compareBool (lhs : Str) (op : ExprOp) (rhs : Str) : Option (Except Err Bool) :=
  match stringToBool lhs, stringToBool rhs with
  | none, _ => some (.error .internalError)
  | some _, none => some (.error .invalidPathSyntax)
  | some l, some r =>
    match op with
    | .equal => some (.ok (l = r))
    | .notEqual => some (.ok (l ≠ r))
    | .lessThanOrEqual | .greaterThanOrEqual | .lessThan | .greaterThan =>
      some (.error .invalidPathSyntax)
    | .equals => none

/-- `DM_ACCESS_CompareDateTime`. -/
def compareDateTime (lhs : Str) (op : ExprOp) (rhs : Str) : Option (Except Err Bool) :=
  match R.unixTime lhs, R.unixTime rhs with
  | none, _ => some (.error .internalError)
  | some _, none => some (.error .invalidPathSyntax)
  | some l, some r =>
    match op with
    | .equal => some (.ok (l = r))
    | .notEqual => some (.ok (l ≠ r))
    | .lessThanOrEqual => some (.ok (l ≤ r))
    | .greaterThanOrEqual => some (.ok (r ≤ l))
    | .lessThan => some (.ok (l < r))
    | .greaterThan => some (.ok (r < l))
    | .equals => none

/-- The comparison that `DoUniqueKeysMatch` chooses by the type of a parameter. -/
def compareValue (type : ParamType) : Str → ExprOp → Str → Option (Except Err Bool) :=
  match type with
  | .int | .uint | .ulong | .long | .decimal => compareNumber R
  | .bool => compareBool
  | .dateTime => compareDateTime R
  | .string | .base64 | .hexBin => compareString

end Numbers

end ExprVector
