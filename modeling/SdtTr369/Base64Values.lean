import SdtTr369.Base64Text
import SdtTr369.ControllerChallenge

/-!
# Values in base64

`DM_ACCESS_ValidateBase64` accepts what `TEXT_UTILS_Base64StringToBinary` decodes, the database
keeps it, and the Value of a Challenge is read back and compared with the answer of a
controller, both decoded. `EVP_DecodeBlock` is assumed to do what its documentation says.
-/

namespace Base64Values

open UspTypes EffectProgram Base64Text List Option
open Agent (World Key obfuscatedCopy databaseSetParameterValue)
open DataModelRead (cString databaseGetParameterValue maxDmValueLen)
open ControllerChallenge (Library Answers ChallengeEntry Expected base64StringToBinary opened
  challengeResponse lockedOut judgeResponse readEntry)

/-- `TEXT_UTILS_StripChars` with the characters of `TEXT_UTILS_Base64StringToBinary`. -/
def stripChars (str : Str) : Str := str.filter fun c => c ∉ ['\n', '\r', '\t', ' ']

/-- The longest text that the assertion lets through. -/
def maxStrippedLen : Nat := 5461

/-- A text in reverse, the end marks taken off as long as more than three characters are left. -/
def trimRev : Str → Str
  | [] => []
  | c :: rest => if c = '-' ∧ 3 ≤ rest.length then trimRev rest else c :: rest

/-- The text without the end marks at its end. -/
def trimEof (text : Str) : Str := (trimRev text.reverse).reverse

/-- `EVP_DecodeBlock` takes the end marks off and decodes each group of four characters to
three bytes. -/
structure DecodesBlocks (L : Library) : Prop where
  groups : ∀ text, L.decodeBlock (stripChars text) = decodeGroups (trimEof (stripChars text))

section Properties

variable (L : Library)

/-- `DM_ACCESS_ValidateBase64` accepts a text. -/
def Accepts (text : Str) : Prop := ∃ out, base64StringToBinary L text = some (some out)

/-- The assertion holds, and the buffer is long enough. -/
structure Contained (text : Str) : Prop where
  asserted : base64StringToBinary L text ≠ none
  bounded : ∀ out, base64StringToBinary L text = some (some out) → 
    out.length < maxDmValueLen

/-- `obfuscated_value` of `DATABASE_SetParameterValue`, of `MAX_DM_SHORT_VALUE_LEN`. -/
def obfuscatedValueLen : Nat := 256

/-- A value that was set is accepted when it is read back, and its obfuscated copy is within
its buffer. -/
structure ReadsBack (W : World) (key : Key) (obfuscated : Bool) (value : Str) (a : Agent.State) :
    Prop where
  copied : obfuscated = true → value.length ≤ obfuscatedValueLen
  decodes : ∀ a' a'' read, databaseSetParameterValue W key value obfuscated a = some (.ok (), a') →
    databaseGetParameterValue W key maxDmValueLen obfuscated a' =
      some (.ok read, a'') → ∃ text, read = some text ∧ Accepts L text

/-- Texts that decode to the same bytes encode the same value. -/
def Distinguished (text other : Str) : Prop :=
  base64StringToBinary L text = base64StringToBinary L other →
    ∃ value, encodedValue (stripChars text) = some value ∧
      encodedValue (stripChars other) = some value

/-- A secure value is kept whole; of another one, at least the first 4095 characters are a
multiple of four, blanks and end marks aside. -/
def Kept (obfuscated : Bool) (value : Str) : Prop :=
  if obfuscated then value.length ≤ obfuscatedValueLen
  else value.length < maxDmValueLen ∨
    (trimEof (stripChars (value.take (maxDmValueLen - 1)))).length % 4 = 0

/-- There are no end marks, and no padding but at the end. -/
def Proper (text : Str) : Prop := '-' ∉ stripChars text ∧ Padded (stripChars text)

/-- What the characters of a text stand for. -/
def bitsOf (text : Str) : List Nat := sextets (trimEof (stripChars text))

end Properties

section EndMarks

variable {text body p : Str}

theorem trimRev_of_not_mem (h : '-' ∉ text) : trimRev text = text := by
  cases text with
  | nil => rfl
  | cons c rest =>
    rw [trimRev, if_neg]
    intro hmark
    apply h
    rw [hmark.1]
    exact mem_cons_self

theorem trimEof_of_not_mem (h : '-' ∉ text) : trimEof text = text := by
  rw [trimEof, trimRev_of_not_mem, reverse_reverse]
  rw [mem_reverse]
  exact h

theorem trimRev_replicate (n : Nat) (hbody : '-' ∉ body) (hlength : 3 ≤ body.length) :
    trimRev (List.replicate n '-' ++ body) = body := by
  induction n with
  | zero => exact trimRev_of_not_mem hbody
  | succ n ih =>
    rw [replicate_succ, cons_append, trimRev, if_pos, ih]
    constructor
    · rfl
    · rw [length_append]
      omega

theorem trimEof_append (n : Nat) (hbody : '-' ∉ body) (hlength : 3 ≤ body.length) :
    trimEof (body ++ List.replicate n '-') = body := by
  rw [trimEof, reverse_append, reverse_replicate, trimRev_replicate, reverse_reverse]
  · rw [mem_reverse]
    exact hbody
  · rw [length_reverse]
    exact hlength

/-- Only end marks are taken off, and three characters are left of a text that had any. -/
theorem trimRev_split (text : Str) : ∃ n, text = List.replicate n '-' ++ trimRev text ∧
    (0 < n → 3 ≤ (trimRev text).length) := by
  induction text with
  | nil => exact ⟨0, rfl, fun h => absurd h (Nat.lt_irrefl 0)⟩
  | cons c rest ih =>
    rw [trimRev]
    split
    · next hmark =>
      obtain ⟨n, hrest, hleft⟩ := ih
      refine ⟨n + 1, ?_, ?_⟩
      · rw [replicate_succ, cons_append, ← hrest, hmark.1]
      · intro _
        cases n with
        | zero =>
          rw [replicate_zero, nil_append] at hrest
          rw [← hrest]
          exact hmark.2
        | succ n => exact hleft (Nat.zero_lt_succ n)
    · exact ⟨0, rfl, fun h => absurd h (Nat.lt_irrefl 0)⟩

theorem trimEof_split (text : Str) : ∃ n, text = trimEof text ++ List.replicate n '-' ∧
    (0 < n → 3 ≤ (trimEof text).length) := by
  obtain ⟨n, hsplit, hleft⟩ := trimRev_split text.reverse
  refine ⟨n, ?_, ?_⟩
  · have hreverse := congrArg List.reverse hsplit
    rw [reverse_reverse, reverse_append, reverse_replicate] at hreverse
    exact hreverse
  · intro hn
    rw [trimEof, length_reverse]
    exact hleft hn

theorem not_mem_of_grouped (h : Grouped text) : '-' ∉ text := by
  intro hmark
  have hsome := h.2 '-' hmark
  revert hsome
  decide

/-- What is left of the beginning of a decodable text is in the alphabet. -/
theorem mem_of_trimEof (h : Grouped (trimEof text)) (hp : p <+: text) :
    ∀ c ∈ trimEof p, c ∈ trimEof text := by
  have hbody := not_mem_of_grouped h
  obtain ⟨n, hsplit, hleft⟩ := trimEof_split text
  have htake := List.prefix_iff_eq_take.mp hp
  rw [hsplit, take_append] at htake
  by_cases hshort : p.length ≤ (trimEof text).length
  · rw [Nat.sub_eq_zero_of_le hshort, take_zero, append_nil] at htake
    intro c hc
    have hsub : ∀ d ∈ p, d ∈ trimEof text := by
      rw [htake]
      intro d hd
      exact mem_of_mem_take hd
    rw [trimEof_of_not_mem (fun hmark => hbody (hsub _ hmark))] at hc
    exact hsub c hc
  · rw [take_of_length_le (Nat.le_of_not_le hshort), take_replicate] at htake
    have hn : 0 < n := by
      have hlength := hp.length_le
      rw [hsplit, length_append, length_replicate] at hlength
      omega
    intro c hc
    rw [htake, trimEof_append _ hbody (hleft hn)] at hc
    exact hc

end EndMarks

section Acceptance

variable {L : Library} {text other value : Str}

theorem base64StringToBinary_eq (hL : DecodesBlocks L) (text : Str) :
    base64StringToBinary L text =
      if (stripChars text).length ≤ maxStrippedLen then
        some (decodeGroups (trimEof (stripChars text)))
      else none := by
  have hdef : base64StringToBinary L text =
      if (stripChars text).length * 3 / 4 < ControllerChallenge.maxDmValueLen then
        some (L.decodeBlock (stripChars text)) else none := rfl
  have hroom : (stripChars text).length * 3 / 4 < ControllerChallenge.maxDmValueLen ↔
      (stripChars text).length ≤ maxStrippedLen := by
    simp only [maxStrippedLen, ControllerChallenge.maxDmValueLen]
    omega
  rw [hdef, hL.groups]
  by_cases hshort : (stripChars text).length ≤ maxStrippedLen
  · rw [if_pos (hroom.mpr hshort), if_pos hshort]
  · rw [if_neg (fun h => hshort (hroom.mp h)), if_neg hshort]

theorem decodes_iff (hL : DecodesBlocks L) {out : List UInt8} :
    base64StringToBinary L text = some (some out) ↔
      (stripChars text).length ≤ maxStrippedLen ∧
        decodeGroups (trimEof (stripChars text)) = some out := by
  rw [base64StringToBinary_eq hL]
  split
  · next h =>
    rw [Option.some.injEq]
    exact ⟨fun hout => ⟨h, hout⟩, fun hout => hout.2⟩
  · next h =>
    constructor
    · intro hout
      cases hout
    · intro hout
      exact absurd hout.1 h

theorem accepts_iff (hL : DecodesBlocks L) :
    Accepts L text ↔
      (stripChars text).length ≤ maxStrippedLen ∧ Grouped (trimEof (stripChars text)) := by
  constructor
  · intro h
    obtain ⟨out, hout⟩ := h
    obtain ⟨hlength, hgroups⟩ := (decodes_iff hL).mp hout
    exact ⟨hlength, (decodeGroups_eq_some.mp hgroups).1⟩
  · intro h
    exact ⟨_, (decodes_iff hL).mpr ⟨h.1, decodeGroups_eq_some.mpr ⟨h.2, rfl⟩⟩⟩

theorem trimEof_length (text : Str) : (trimEof text).length ≤ text.length := by
  obtain ⟨n, hsplit, -⟩ := trimEof_split text
  have hlength := congrArg List.length hsplit
  rw [length_append] at hlength
  omega

/-- The assertion holds, and is enough for the buffer, up to 5461 characters. -/
theorem contained_iff (hL : DecodesBlocks L) :
    Contained L text ↔ (stripChars text).length ≤ maxStrippedLen := by
  constructor
  · intro h
    apply Classical.byContradiction
    intro hlong
    apply h.asserted
    rw [base64StringToBinary_eq hL, if_neg hlong]
  · intro h
    constructor
    · rw [base64StringToBinary_eq hL, if_pos h]
      exact some_ne_none _
    · intro out hout
      have hbytes := decodeGroups_length ((decodes_iff hL).mp hout).2
      have htrim := trimEof_length (stripChars text)
      simp only [maxStrippedLen] at h
      simp only [maxDmValueLen]
      omega

theorem sextet_ascii {c : Char} (h : (sextet c).isSome = true) : 0 < c.toNat ∧ c.toNat < 128 := by
  by_cases hplus : c = '+'
  · rw [hplus]
    decide
  · by_cases hslash : c = '/'
    · rw [hslash]
      decide
    · by_cases hpad : c = '='
      · rw [hpad]
        decide
      · simp only [sextet] at h
        grind

/-- An accepted text has only ASCII characters. -/
theorem accepted_ascii (hL : DecodesBlocks L) (h : Accepts L value) :
    ∀ c ∈ value, 0 < c.toNat ∧ c.toNat < 128 := by
  intro c hc
  by_cases hblank : c ∈ ['\n', '\r', '\t', ' ']
  · have hall : ∀ d ∈ ['\n', '\r', '\t', ' '], 0 < d.toNat ∧ d.toNat < 128 :=
      @of_decide_eq_true _ (List.decidableBAll _ _) rfl
    exact hall c hblank
  · have hstripped : c ∈ stripChars value := List.mem_filter.mpr ⟨hc, decide_eq_true hblank⟩
    obtain ⟨n, hsplit, -⟩ := trimEof_split (stripChars value)
    rw [hsplit, mem_append] at hstripped
    cases hstripped with
    | inl hin => exact sextet_ascii (((accepts_iff hL).mp h).2.2 c hin)
    | inr hmark =>
      rw [eq_of_mem_replicate hmark]
      decide

/-- The beginning of an accepted text is accepted when it is a multiple of four characters,
blanks and end marks aside. -/
theorem accepts_take_iff (hL : DecodesBlocks L) (h : Accepts L value) (n : Nat) :
    Accepts L (value.take n) ↔ (trimEof (stripChars (value.take n))).length % 4 = 0 := by
  have haccepted := (accepts_iff hL).mp h
  have hprefix : stripChars (value.take n) <+: stripChars value :=
    (List.take_prefix n value).filter _
  rw [accepts_iff hL]
  constructor
  · intro htake
    exact htake.2.1
  · intro hfour
    refine ⟨Nat.le_trans hprefix.length_le haccepted.1, hfour, ?_⟩
    intro c hc
    exact haccepted.2.2 c (mem_of_trimEof haccepted.2 hprefix c hc)

end Acceptance

section Database

variable {L : Library} {W : World} {key : Key} {obfuscated : Bool} {value : Str}
  {a a' a'' : Agent.State}

theorem key_ascii (i : Nat) :
    (Agent.passwordObfuscationKey.getD (i % Agent.passwordObfuscationKey.length)
      (Char.ofNat 0)).toNat < 128 := by
  have hall : ∀ c ∈ Agent.passwordObfuscationKey, c.toNat < 128 :=
    @of_decide_eq_true _ (List.decidableBAll _ _) rfl
  rw [getD_eq_getElem?_getD]
  cases hget : Agent.passwordObfuscationKey[i % Agent.passwordObfuscationKey.length]? with
  | none => decide
  | some c => exact hall c (mem_of_getElem? hget)

theorem toNat_ofNat_ascii {n : Nat} (h : n < 128) : (Char.ofNat n).toNat = n := by
  have hvalid : n.isValidChar := .inl (by omega)
  rw [Char.ofNat, dif_pos hvalid]
  rfl

/-- The obfuscation undoes itself. -/
theorem obfuscatedCopy_twice (h : ∀ c ∈ value, c.toNat < 128) :
    obfuscatedCopy (obfuscatedCopy value) = value := by
  apply ext_getElem
  · simp only [obfuscatedCopy, length_map, length_zipIdx]
  · intro i hi hi'
    simp only [obfuscatedCopy, getElem_map, getElem_zipIdx, Nat.zero_add]
    have hc := h value[i] (getElem_mem hi')
    have hkey := key_ascii i
    rw [toNat_ofNat_ascii (Nat.xor_lt_two_pow (n := 7) hc hkey), Nat.xor_assoc, Nat.xor_self,
      Nat.xor_zero, Char.ofNat_toNat]

theorem get_set (db : Agent.Database) (key : Key) (value : Str) :
    (db.set key value).get key = some value := by
  have hnone : (db.rows.filter fun row => row.1 ≠ key).lookup key = none := by
    rw [lookup_eq_none_iff]
    intro row hrow
    have hne := of_decide_eq_true (List.mem_filter.mp hrow).2
    exact bne_iff_ne.mpr (Ne.symm hne)
  simp only [Agent.Database.get, Agent.Database.set, lookup_append, hnone, none_or,
    lookup_cons, beq_self_eq_true]

theorem lookup_filter_ne {key' : Key} (hne : key' ≠ key) (rows : List (Key × Str)) :
    (rows.filter fun row => row.1 ≠ key).lookup key' = rows.lookup key' := by
  induction rows with
  | nil => rfl
  | cons row rows ih =>
    by_cases hrow : row.1 = key
    · have hother : (key' == row.1) = false := by
        rw [hrow]
        exact beq_false_of_ne hne
      rw [filter_cons_of_neg (by simpa using hrow), ih, lookup_cons, hother]
    · rw [filter_cons_of_pos (by simpa using hrow), lookup_cons, lookup_cons, ih]

/-- A write leaves the other rows. -/
theorem get_set_other (db : Agent.Database) {key' : Key} (hne : key' ≠ key) (value : Str) :
    (db.set key value).get key' = db.get key' := by
  have hlast : [(key, value)].lookup key' = none := by
    rw [lookup_cons, beq_false_of_ne hne]
    rfl
  simp only [Agent.Database.get, Agent.Database.set, lookup_append, lookup_filter_ne hne, hlast,
    or_none]

theorem set_get (W : World) (key : Key) (value : Str) (obfuscated : Bool) (a : Agent.State) :
    Wp True (databaseSetParameterValue W key value obfuscated) a
      (fun _ a' => a'.db.get key = some (if obfuscated then obfuscatedCopy value else value))
      (fun _ _ => True) := by
  simp only [databaseSetParameterValue, wp_bind, Agent.wp_call]
  split
  · trivial
  · exact get_set a.db key _

theorem get_read (W : World) (key : Key) (bufLen : Nat) (obfuscated : Bool) (a : Agent.State) :
    Wp True (databaseGetParameterValue W key bufLen obfuscated) a
      (fun read _ => read = (a.db.get key).map fun value =>
        if obfuscated then cString (obfuscatedCopy (value.take (bufLen - 1)))
        else cString (value.take (bufLen - 1)))
      (fun _ _ => True) := by
  simp only [databaseGetParameterValue, wp_bind, Agent.wp_call]
  split
  · trivial
  · rfl

/-- What is read after a set. -/
def readText (obfuscated : Bool) (value : Str) : Str :=
  if obfuscated then cString (obfuscatedCopy ((obfuscatedCopy value).take (maxDmValueLen - 1)))
  else cString (value.take (maxDmValueLen - 1))

theorem read_of_set {read : Option Str}
    (hset : databaseSetParameterValue W key value obfuscated a = some (.ok (), a'))
    (hget : databaseGetParameterValue W key maxDmValueLen obfuscated a' = some (.ok read, a'')) :
    read = some (readText obfuscated value) := by
  have hstored := set_get W key value obfuscated a
  have hread := get_read W key maxDmValueLen obfuscated a'
  simp only [Wp, hset] at hstored
  simp only [Wp, hget, hstored, map_some] at hread
  rw [hread, readText]
  cases obfuscated <;> rfl

theorem cString_of_ascii (h : ∀ c ∈ value, 0 < c.toNat) : cString value = value := by
  rw [cString, takeWhile_eq_self_iff]
  intro c hc
  have hpos := h c hc
  apply decide_eq_true
  intro hzero
  rw [hzero] at hpos
  revert hpos
  decide

theorem readText_plain (hL : DecodesBlocks L) (h : Accepts L value) :
    readText false value = value.take (maxDmValueLen - 1) := by
  rw [readText, if_neg Bool.false_ne_true, cString_of_ascii]
  intro c hc
  exact (accepted_ascii hL h c (mem_of_mem_take hc)).1

theorem readText_secure (hL : DecodesBlocks L) (h : Accepts L value)
    (hlength : value.length ≤ obfuscatedValueLen) : readText true value = value := by
  have hascii := accepted_ascii hL h
  have hcopy : (obfuscatedCopy value).length ≤ maxDmValueLen - 1 := by
    simp only [obfuscatedCopy, length_map, length_zipIdx]
    simp only [obfuscatedValueLen] at hlength
    simp only [maxDmValueLen]
    omega
  rw [readText, if_pos rfl, take_of_length_le hcopy,
    obfuscatedCopy_twice (fun c hc => (hascii c hc).2),
    cString_of_ascii (fun c hc => (hascii c hc).1)]

/-- An accepted value reads back exactly when it is kept. -/
theorem readsBack_iff (hL : DecodesBlocks L) (h : Accepts L value) (obfuscated : Bool) :
    (∀ W key a, ReadsBack L W key obfuscated value a) ↔ Kept obfuscated value := by
  cases obfuscated with
  | true =>
    simp only [Kept, if_pos]
    constructor
    · intro hreads
      exact (hreads Agent.quietWorld (0, []) Agent.initialState).copied rfl
    · intro hlength W key a
      constructor
      · intro _
        exact hlength
      · intro a' a'' read hset hget
        refine ⟨_, read_of_set hset hget, ?_⟩
        rw [readText_secure hL h hlength]
        exact h
  | false =>
    have htext := readText_plain hL h
    simp only [Kept, if_neg Bool.false_ne_true]
    constructor
    · intro hreads
      by_cases hlength : value.length < maxDmValueLen
      · exact .inl hlength
      · have hset : databaseSetParameterValue Agent.quietWorld (0, []) value false
            Agent.initialState = some (.ok (), _) := rfl
        obtain ⟨text, hread, haccepts⟩ :=
          (hreads Agent.quietWorld (0, []) Agent.initialState).decodes _ _ _ hset rfl
        have hsame := (hread.symm.trans (read_of_set hset rfl)).symm
        rw [Option.some.injEq, htext] at hsame
        rw [← hsame] at haccepts
        exact .inr ((accepts_take_iff hL h _).mp haccepts)
    · intro hkept W key a
      constructor
      · intro hsecure
        cases hsecure
      · intro a' a'' read hset hget
        refine ⟨_, read_of_set hset hget, ?_⟩
        rw [htext]
        cases hkept with
        | inl hlength =>
          rw [take_of_length_le (Nat.le_sub_one_of_lt hlength)]
          exact h
        | inr hfour => exact (accepts_take_iff hL h _).mpr hfour

end Database

section Pairs

variable {L : Library} {text other : Str}

theorem proper_of_value {value : List UInt8}
    (h : encodedValue (stripChars text) = some value) : Proper text := by
  obtain ⟨hpadded, hgrouped, -⟩ := encodedValue_eq_some.mp h
  exact ⟨not_mem_of_grouped hgrouped, hpadded⟩

theorem bitsOf_proper (h : Proper text) : bitsOf text = sextets (stripChars text) := by
  rw [bitsOf, trimEof_of_not_mem h.1]

/-- Accepted texts decode alike exactly when they stand for the same bits. -/
theorem decode_eq_iff (hL : DecodesBlocks L) (htext : Accepts L text) (hother : Accepts L other) :
    base64StringToBinary L text = base64StringToBinary L other ↔ bitsOf text = bitsOf other := by
  have haccepted := (accepts_iff hL).mp htext
  have haccepted' := (accepts_iff hL).mp hother
  rw [base64StringToBinary_eq hL, base64StringToBinary_eq hL, if_pos haccepted.1,
    if_pos haccepted'.1, Option.some.injEq, decodeGroups_eq_iff haccepted.2 haccepted'.2, bitsOf,
    bitsOf]

/-- The values of texts that decode alike are told by their padding. -/
theorem distinguished_iff (hL : DecodesBlocks L) (htext : Accepts L text)
    (hother : Accepts L other) :
    Distinguished L text other ↔ bitsOf text = bitsOf other →
      Proper text ∧ Proper other ∧
        padding (stripChars text) = padding (stripChars other) := by
  rw [Distinguished, decode_eq_iff hL htext hother]
  constructor
  · intro h hbits
    obtain ⟨value, hvalue, hvalue'⟩ := h hbits
    have hproper := proper_of_value hvalue
    have hproper' := proper_of_value hvalue'
    rw [bitsOf_proper hproper, bitsOf_proper hproper'] at hbits
    have hlength := congrArg List.length hbits
    rw [sextets_length, sextets_length] at hlength
    have hpad := encodedValue_length hvalue
    have hpad' := encodedValue_length hvalue'
    rw [hlength] at hpad
    refine ⟨hproper, hproper', ?_⟩
    omega
  · intro h hbits
    obtain ⟨hproper, hproper', hpad⟩ := h hbits
    have hgrouped := ((accepts_iff hL).mp htext).2
    have hgrouped' := ((accepts_iff hL).mp hother).2
    rw [trimEof_of_not_mem hproper.1] at hgrouped
    rw [trimEof_of_not_mem hproper'.1] at hgrouped'
    rw [bitsOf_proper hproper, bitsOf_proper hproper'] at hbits
    refine ⟨_, encodedValue_eq_some.mpr ⟨hproper.2, hgrouped, rfl⟩,
      encodedValue_eq_some.mpr ⟨hproper'.2, hgrouped', ?_⟩⟩
    rw [hbits, hpad]

end Pairs

section Challenges

variable {L : Library} {A : Answers} {s : ControllerChallenge.State} {entry : ChallengeEntry}
  {endpointId challengeId inputValue : Str} {k i : Nat} {expected : Expected}

/-- A response gets as far as its Value: the challenge is open and not locked. -/
def Awaited (L : Library) (A : Answers) (endpointId challengeId : Str)
    (s : ControllerChallenge.State) : Prop :=
  ∃ k i entry expected, opened L A endpointId challengeId s = some (k, i, entry, expected) ∧
    lockedOut A.now expected i s = .ok false

theorem readEntry_ne_error (h : Accepts L entry.value) (stop : ControllerChallenge.Stop) :
    readEntry L A entry ≠ .error stop := by
  obtain ⟨out, hout⟩ := h
  intro hstop
  unfold readEntry at hstop
  rw [hout] at hstop
  grind

theorem entry_of_reference {ref : Str} (h : s.validateReference L ref = some (i, entry)) :
    s.entries i = some entry := by
  obtain ⟨j, -, hentry⟩ := bind_eq_some_iff.mp h
  obtain ⟨found, hfound, heq⟩ := map_eq_some_iff.mp hentry
  cases heq
  exact hfound

theorem lockedOut_ne_assertion {now : Int} :
    lockedOut now expected i s ≠ .error .assertion := by
  unfold lockedOut
  split
  · split
    · intro h
      cases h
    · intro h
      cases h
  · intro h
    cases h

/-- A response that is not checked fails no assertion. -/
theorem unopened_ne_assertion (hrows : ∀ i entry, s.entries i = some entry → Accepts L entry.value)
    (h : opened L A endpointId challengeId s = none) :
    challengeResponse L A endpointId challengeId inputValue s ≠ .error .assertion := by
  unfold opened at h
  unfold challengeResponse
  split at h
  · intro hstop
    cases hstop
  · split at h
    · intro hstop
      cases hstop
    · next href =>
      have hread := readEntry_ne_error (A := A) (hrows _ _ (entry_of_reference href))
      split at h
      · cases h
      · next hnot =>
        split
        · next hstop => exact absurd hstop (hread _)
        · intro hstop
          cases hstop
        · next hok => exact absurd hok (hnot _)

/-- A checked response fails an assertion only over the length of its Value. -/
theorem judgeResponse_assertion_iff :
    judgeResponse L A endpointId inputValue expected k i entry s = .error .assertion ↔
      lockedOut A.now expected i s = .ok false ∧ base64StringToBinary L inputValue = none := by
  unfold judgeResponse
  cases hlocked : lockedOut A.now expected i s with
  | error stop =>
    have hnot : stop ≠ .assertion := by
      intro heq
      rw [heq] at hlocked
      exact lockedOut_ne_assertion hlocked
    simp [hnot]
  | ok locked =>
    cases locked with
    | true => simp
    | false =>
      cases hvalue : base64StringToBinary L inputValue with
      | none => simp
      | some response =>
        simp only [ControllerChallenge.grantRole, ControllerChallenge.countWrong]
        grind

theorem assertion_iff (hL : DecodesBlocks L)
    (hrows : ∀ i entry, s.entries i = some entry → Accepts L entry.value) :
    challengeResponse L A endpointId challengeId inputValue s = .error .assertion ↔
      Awaited L A endpointId challengeId s ∧ maxStrippedLen < (stripChars inputValue).length := by
  have htoolong : base64StringToBinary L inputValue = none ↔
      maxStrippedLen < (stripChars inputValue).length := by
    rw [base64StringToBinary_eq hL, ← Nat.not_le]
    split
    · next hshort =>
      constructor
      · intro hnone
        cases hnone
      · intro hlong
        exact absurd hshort hlong
    · next hlong =>
      constructor
      · intro _
        exact hlong
      · intro _
        rfl
  cases hopened : opened L A endpointId challengeId s with
  | none =>
    constructor
    · intro hstop
      exact absurd hstop (unopened_ne_assertion hrows hopened)
    · intro h
      obtain ⟨⟨k, i, entry, expected, hsome, -⟩, -⟩ := h
      rw [hopened] at hsome
      cases hsome
  | some found =>
    obtain ⟨k, i, entry, expected⟩ := found
    rw [ControllerChallenge.challengeResponse_opened hopened, judgeResponse_assertion_iff, htoolong]
    constructor
    · intro h
      exact ⟨⟨k, i, entry, expected, hopened, h.1⟩, h.2⟩
    · intro h
      obtain ⟨⟨k', i', entry', expected', hsome, hfree⟩, hlong⟩ := h
      rw [hopened, Option.some.injEq, Prod.mk.injEq, Prod.mk.injEq, Prod.mk.injEq] at hsome
      obtain ⟨-, rfl, -, rfl⟩ := hsome
      exact ⟨hfree, hlong⟩

end Challenges

/-- A text is converted without a failed assertion, and within the buffer, exactly up to 5461
characters; so is the Value of a response. An accepted value is accepted when it is read back
exactly when it is kept. And texts that decode alike encode one value exactly when they agree
in their padding. -/
theorem base64_values_iff (L : Library) (hL : DecodesBlocks L) :
    (∀ text, Contained L text ↔ (stripChars text).length ≤ maxStrippedLen) ∧
      (∀ A s endpointId challengeId inputValue,
        (∀ i entry, s.entries i = some entry → Accepts L entry.value) →
        (challengeResponse L A endpointId challengeId inputValue s ≠ .error .assertion ↔
          (Awaited L A endpointId challengeId s →
            (stripChars inputValue).length ≤ maxStrippedLen))) ∧
      (∀ value obfuscated, Accepts L value →
        ((∀ W key a, ReadsBack L W key obfuscated value a) ↔ Kept obfuscated value)) ∧
      ∀ text other, Accepts L text → Accepts L other →
        (Distinguished L text other ↔ (bitsOf text = bitsOf other →
          Proper text ∧ Proper other ∧
            padding (stripChars text) = padding (stripChars other))) := by
  refine ⟨fun text => contained_iff hL, ?_, fun value obfuscated h => readsBack_iff hL h obfuscated,
    fun text other => distinguished_iff hL⟩
  intro A s endpointId challengeId inputValue hrows
  rw [Ne, assertion_iff hL hrows, not_and, Nat.not_lt]

/-- The library as it is documented, with one Challenge row. -/
def library : Library := ⟨fun _ => some 1, fun text => decodeGroups (trimEof text)⟩

theorem library_decodes : DecodesBlocks library := ⟨fun _ => rfl⟩

def secretEntry : ChallengeEntry :=
  ⟨[], true, "c2VjcmV0".toList, [], [], [], some 3, 0⟩

/-- An active challenge that refers to the row. -/
def challenged : ControllerChallenge.State :=
  (ControllerChallenge.start [(1, secretEntry)] []).setChallenge 0
    (some ⟨"proto::acs".toList, "id".toList, 0, 0, []⟩)

theorem secret_accepted : Accepts library secretEntry.value :=
  (accepts_iff library_decodes).mpr (by decide)

theorem challenged_accepted (i : Nat) (entry : ChallengeEntry)
    (h : challenged.entries i = some entry) : Accepts library entry.value := by
  have hlookup : List.lookup i [(1, secretEntry)] = some entry := h
  rw [lookup_cons] at hlookup
  split at hlookup
  · cases hlookup
    exact secret_accepted
  · cases hlookup

/-- The value of a secure parameter is read back. -/
theorem base64_values_iff_secret :
    ReadsBack library Agent.quietWorld ((7, "1".toList) : Key) true secretEntry.value
      Agent.initialState :=
  ((base64_values_iff library library_decodes).2.2.1 _ true secret_accepted).mpr
    (show secretEntry.value.length ≤ obfuscatedValueLen by decide) _ _ _

/-- A Value of 5464 characters stops the agent, and "AA==" decodes as "AAAA" does. -/
theorem long_answer_stops :
    challengeResponse library ⟨0, 0, [], fun _ => none, true⟩ "proto::acs".toList "id".toList
        (List.replicate 5464 'A') challenged = .error .assertion ∧
      Accepts library "AA==".toList ∧ Accepts library "AAAA".toList ∧
        ¬ Distinguished library "AA==".toList "AAAA".toList := by
  refine ⟨?_, ?_, ?_, ?_⟩
  · have hlength : maxStrippedLen < (stripChars (List.replicate 5464 'A')).length := by
      rw [stripChars, filter_replicate_of_pos (by decide), length_replicate]
      decide
    have hawaited : Awaited library ⟨0, 0, [], fun _ => none, true⟩ "proto::acs".toList
        "id".toList challenged := ⟨0, 1, secretEntry, _, rfl, rfl⟩
    exact (assertion_iff library_decodes challenged_accepted).mpr ⟨hawaited, hlength⟩
  · exact (accepts_iff library_decodes).mpr (by decide)
  · exact (accepts_iff library_decodes).mpr (by decide)
  · intro h
    obtain ⟨value, hvalue, hvalue'⟩ := h (by decide)
    have hdiffer : encodedValue (stripChars "AA==".toList) ≠
        encodedValue (stripChars "AAAA".toList) := by decide
    exact hdiffer (hvalue.trans hvalue'.symm)

end Base64Values
