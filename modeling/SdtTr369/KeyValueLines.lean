import SdtTr369.TrimBuffers

/-!
# Lines of a parameter file

`TEXT_UTILS_KeyValueFromString` on the cells of a line and its terminator. The key and the value
are returned as the cells they begin at, and all cuts are terminators written into the line.
-/

namespace KeyValueLines

open UspTypes ExprVector CBuffers TrimBuffers List Option

inductive Outcome
  | rejected
  /-- Nothing on the line, or a comment. -/
  | empty
  | pair (key value : Nat)
  deriving DecidableEq, Repr

/-- The line is cut at the first such character. -/
def truncateAt (c : Char) (buf : Buffer) : Option Buffer :=
  (stringAt buf 0).bind fun s =>
    if c ∈ s then poke buf (s.takeWhile (· ≠ c)).length nul else some buf

/-- The checks of the value at the cell `p`, and what is written for the pair. -/
def valueAt (buf : Buffer) (key keyEnd p : Nat) : Option (Buffer × Outcome) :=
  (stringAt buf p).bind fun value =>
    if value = [] then some (buf, .rejected)
    else if value.head? = some '"' ∧ value.getLast? ≠ some '"' then some (buf, .rejected)
    else if value.head? ≠ some '"' ∧ value.getLast? = some '"' then some (buf, .rejected)
    else if value.head? = some '"' then
      (poke buf (p + (value.length - 1)) nul).bind fun buf =>
        (poke buf keyEnd nul).map (·, .pair key (p + 1))
    else (poke buf keyEnd nul).map (·, .pair key p)

/-- `TEXT_UTILS_KeyValueFromString`, from the blanks in front of the key on. -/
def keyValueAt (buf : Buffer) : Option (Buffer × Outcome) :=
  (stringAt buf 0).bind fun s =>
    let key := (s.takeWhile isBlank).length
    (stringAt buf key).bind fun s =>
      let keyLen := (s.takeWhile (!isBlank ·)).length
      if keyLen = 0 then some (buf, .empty)
      else (trimAt buf (key + keyLen)).bind fun r => valueAt r.1 key (key + keyLen) r.2

/-- `TEXT_UTILS_KeyValueFromString` -/
def keyValueFromString (buf : Buffer) : Option (Buffer × Outcome) :=
  if buf.head? = some '#' then some (buf, .empty)
  else (truncateAt '\n' buf).bind fun buf => (truncateAt '\r' buf).bind keyValueAt

/-! ## What is on a line -/

/-- The line in front of its end. -/
def lineText (line : Str) : Str := (line.takeWhile (· ≠ '\n')).takeWhile (· ≠ '\r')

/-- A key without blanks, and behind a gap a value without blanks around it. -/
structure Layout (text before key gap value after : Str) : Prop where
  whole : text = before ++ key ++ (gap ++ value ++ after)
  key_ne_nil : key ≠ []
  apart : value ≠ [] → gap ≠ []
  solid : ∀ c ∈ key, isBlank c = false
  blanks : ∀ c, c ∈ before ∨ c ∈ gap ∨ c ∈ after → isBlank c = true
  head : ∀ c, value.head? = some c → isBlank c = false
  last : ∀ c, value.getLast? = some c → isBlank c = false

/-- A string of the cells that ends inside the line. -/
structure Inside (line : Str) (cells : Buffer) (i : Nat) (text : Str) : Prop where
  read : stringAt cells i = some text
  bound : i + text.length ≤ line.length

/-- The outcome for a line, and the strings that are left in its cells. A single quote counts as
both. -/
inductive Reads (line : Str) (cells : Buffer) : Outcome → Prop
  | comment (h : line.head? = some '#') : Reads line cells .empty
  | blank (h : ∀ c ∈ lineText line, isBlank c = true) : Reads line cells .empty
  | noValue {before key gap after : Str} (h : Layout (lineText line) before key gap [] after) :
    Reads line cells .rejected
  | halfQuoted {before key gap value after : Str}
    (h : Layout (lineText line) before key gap value after)
    (hquotes : ¬ (value.head? = some '"' ↔ value.getLast? = some '"')) : Reads line cells .rejected
  | plain {before key gap value after : Str} {k v : Nat}
    (h : Layout (lineText line) before key gap value after) (hne : value ≠ [])
    (hhead : value.head? ≠ some '"') (hlast : value.getLast? ≠ some '"')
    (hkey : Inside line cells k key) (hvalue : Inside line cells v value) :
    Reads line cells (.pair k v)
  | quoted {before key gap value after : Str} {k v : Nat}
    (h : Layout (lineText line) before key gap ('"' :: value ++ ['"']) after)
    (hkey : Inside line cells k key) (hvalue : Inside line cells v value) :
    Reads line cells (.pair k v)
  | loneQuote {before key gap after : Str} {k v : Nat}
    (h : Layout (lineText line) before key gap ['"'] after)
    (hkey : Inside line cells k key) (hvalue : Inside line cells v []) :
    Reads line cells (.pair k v)

/-! ## The cuts -/

section Cuts

variable {text : Str}

theorem truncateAt_eq (c : Char) (h : nul ∉ text) (junk : Buffer) : ∃ junk' : Buffer,
    (text.takeWhile (· ≠ c)).length + junk'.length = text.length + junk.length ∧
    ∀ suf, truncateAt c (text ++ nul :: (junk ++ suf)) =
      some (text.takeWhile (· ≠ c) ++ nul :: (junk' ++ suf)) := by
  have hread : ∀ suf, stringAt (text ++ nul :: (junk ++ suf)) 0 = some text := fun suf =>
    stringAt_append [] h
  by_cases hc : c ∈ text
  · obtain ⟨front, more, htext, hfront⟩ := eq_append_cons_of_mem hc
    have htake : text.takeWhile (· ≠ c) = front := by rw [htext, (ListTexts.stop_at hfront more).1]
    refine ⟨more ++ nul :: junk, ?_, fun suf => ?_⟩
    · rw [htake, htext]
      simp only [length_append, length_cons]
      omega
    · rw [truncateAt, hread, bind_some, if_pos hc, htake, htext, append_assoc,
        cons_append, poke_append]
      simp
  · have htake : text.takeWhile (· ≠ c) = text :=
      List.takeWhile_eq_self_iff.mpr fun d hd => decide_eq_true fun heq => hc (heq ▸ hd)
    refine ⟨junk, by rw [htake], fun suf => ?_⟩
    rw [truncateAt, hread, bind_some, if_neg hc, htake]

end Cuts

/-! ## The pair -/

section Pair

variable {line before key gap value after : Str}

theorem inside_of_append {front rest : Str} (hnul : nul ∉ value)
    (hbound : front.length + value.length ≤ line.length) :
    Inside line (front ++ value ++ nul :: rest) front.length value :=
  ⟨stringAt_append front hnul, hbound⟩

/-- The value is checked, and a terminator is written behind the key and over the last quote. -/
theorem valueAt_reads (h : Layout (lineText line) before key gap value after)
    (hnul : nul ∉ lineText line) (hbound : (lineText line).length ≤ line.length) (tail : Str) :
    ∃ cells outcome, cells.length = (before ++ key ++ gap ++ value).length + 1 + tail.length ∧
      (∀ suf, valueAt (before ++ key ++ gap ++ value ++ nul :: (tail ++ suf)) before.length
        (before ++ key).length (before ++ key ++ gap).length = some (cells ++ suf, outcome)) ∧
      Reads line cells outcome := by
  have hmem : ∀ c, c ∈ key ∨ c ∈ value → c ∈ lineText line := by
    intro c hc
    rw [h.whole]
    simp only [mem_append]
    tauto
  have hkeynul : nul ∉ key := fun hc => hnul (hmem _ (.inl hc))
  have hvaluenul : nul ∉ value := fun hc => hnul (hmem _ (.inr hc))
  have hlen := congrArg List.length h.whole
  simp only [length_append] at hlen
  have hread : ∀ suf, stringAt (before ++ key ++ gap ++ value ++ nul :: (tail ++ suf))
      (before ++ key ++ gap).length = some value := fun suf => stringAt_append _ hvaluenul
  -- a rejected line is left as it is
  have hkept : ∀ outcome : Outcome, Reads line (before ++ key ++ gap ++ value ++ nul :: tail) outcome →
      (∀ suf, valueAt (before ++ key ++ gap ++ value ++ nul :: (tail ++ suf)) before.length
        (before ++ key).length (before ++ key ++ gap).length =
          some (before ++ key ++ gap ++ value ++ nul :: (tail ++ suf), outcome)) →
      ∃ cells outcome, cells.length = (before ++ key ++ gap ++ value).length + 1 + tail.length ∧
        (∀ suf, valueAt (before ++ key ++ gap ++ value ++ nul :: (tail ++ suf)) before.length
          (before ++ key).length (before ++ key ++ gap).length = some (cells ++ suf, outcome)) ∧
        Reads line cells outcome := by
    intro outcome hreads hvalue
    refine ⟨_, outcome, ?_, fun suf => ?_, hreads⟩
    · simp only [length_append, length_cons]
      omega
    · rw [hvalue suf]
      simp
  by_cases hnil : value = []
  · subst hnil
    exact hkept .rejected (.noValue h) fun suf => by
      rw [valueAt, hread, bind_some, if_pos rfl]
  obtain ⟨b, gap, rfl⟩ := exists_cons_of_ne_nil (h.apart hnil)
  -- the terminator behind the key is written over the first blank of the gap
  have hkeyEnd : ∀ rest, poke (before ++ key ++ b :: gap ++ rest) (before ++ key).length nul =
      some (before ++ key ++ nul :: (gap ++ rest)) := by
    intro rest
    rw [append_assoc (before ++ key), cons_append, poke_append]
  have hkeyInside : ∀ rest, Inside line (before ++ key ++ nul :: rest) before.length key :=
    fun rest => inside_of_append hkeynul (by omega)
  have hplace : (before ++ key ++ b :: gap).length = (before ++ key ++ nul :: gap).length := by
    simp only [length_append, length_cons]
  by_cases hhead : value.head? = some '"'
  · by_cases hlast : value.getLast? = some '"'
    · obtain ⟨more, rfl⟩ : ∃ more, value = '"' :: more := by
        cases value with
        | nil => exact (hnil rfl).elim
        | cons c more => exact ⟨more, by rw [Option.some.inj hhead]⟩
      have hopen : ∀ suf, valueAt (before ++ key ++ b :: gap ++ '"' :: more ++ nul :: (tail ++ suf))
          before.length (before ++ key).length (before ++ key ++ b :: gap).length =
          (poke (before ++ key ++ b :: gap ++ '"' :: more ++ nul :: (tail ++ suf))
            ((before ++ key ++ b :: gap).length + more.length) nul).bind fun buf =>
              (poke buf (before ++ key).length nul).map
                (·, .pair before.length ((before ++ key ++ b :: gap).length + 1)) := by
        intro suf
        rw [valueAt, hread, bind_some, if_neg hnil, if_neg (by simp [hlast]),
          if_neg (by simp), if_pos hhead]
        rfl
      rcases eq_nil_or_concat' more with rfl | ⟨value, c, rfl⟩
      · refine ⟨before ++ key ++ nul :: (gap ++ nul :: nul :: tail),
          .pair before.length ((before ++ key ++ b :: gap).length + 1), ?_, fun suf => ?_,
          .loneQuote h (hkeyInside _) ⟨?_, ?_⟩⟩
        · simp only [length_append, length_cons, length_nil]
          omega
        · rw [hopen, length_nil, Nat.add_zero, append_assoc _ ['"'], singleton_append,
            poke_append, bind_some, hkeyEnd]
          simp
        · have hempty : stringAt (before ++ key ++ nul :: gap ++ [nul] ++ [] ++ nul :: tail)
              (before ++ key ++ nul :: gap ++ [nul]).length = some [] :=
            stringAt_append _ not_mem_nil
          rw [hplace, ← hempty]
          simp [Nat.add_assoc]
        · simp only [length_append, length_cons, length_nil] at hlen ⊢
          omega
      · obtain rfl : c = '"' := by
          rw [← cons_append, getLast?_concat] at hlast
          exact Option.some.inj hlast
        have hvalue' : nul ∉ value := fun hc => hvaluenul (by simp [hc])
        have hclose : ∀ rest, poke (before ++ key ++ b :: gap ++ '"' :: (value ++ ['"']) ++ rest)
            ((before ++ key ++ b :: gap).length + (value ++ ['"']).length) nul =
            some (before ++ key ++ b :: gap ++ ('"' :: value ++ nul :: rest)) := by
          intro rest
          have hcell : (before ++ key ++ b :: gap).length + (value ++ ['"']).length =
              (before ++ key ++ b :: gap ++ '"' :: value).length := by
            simp only [length_append, length_cons, length_nil]
          have hpoke := poke_append (before ++ key ++ b :: gap ++ '"' :: value) rest '"' nul
          rw [hcell]
          simpa using hpoke
        refine ⟨before ++ key ++ nul :: (gap ++ ('"' :: value ++ nul :: nul :: tail)),
          .pair before.length ((before ++ key ++ b :: gap).length + 1), ?_, fun suf => ?_,
          .quoted h (hkeyInside _) ⟨?_, ?_⟩⟩
        · simp only [length_append, length_cons, length_nil]
          omega
        · rw [hopen, hclose, bind_some, hkeyEnd]
          simp
        · have hstring : stringAt (before ++ key ++ nul :: gap ++ ['"'] ++ value ++ nul :: nul :: tail)
              (before ++ key ++ nul :: gap ++ ['"']).length = some value :=
            stringAt_append _ hvalue'
          rw [hplace, ← hstring]
          simp [Nat.add_assoc]
        · simp only [length_append, length_cons, length_nil] at hlen ⊢
          omega
    · exact hkept .rejected (.halfQuoted h (by simp [hhead, hlast])) fun suf => by
        rw [valueAt, hread, bind_some, if_neg hnil, if_pos ⟨hhead, hlast⟩]
  · by_cases hlast : value.getLast? = some '"'
    · exact hkept .rejected (.halfQuoted h (by simp [hhead, hlast])) fun suf => by
        rw [valueAt, hread, bind_some, if_neg hnil, if_neg (by simp [hhead]),
          if_pos ⟨hhead, hlast⟩]
    · refine ⟨before ++ key ++ nul :: (gap ++ value ++ nul :: tail),
        .pair before.length (before ++ key ++ b :: gap).length, ?_, fun suf => ?_,
        .plain h hnil hhead hlast (hkeyInside _) ?_⟩
      · simp only [length_append, length_cons]
        omega
      · rw [valueAt, hread, bind_some, if_neg hnil, if_neg (by simp [hhead]),
          if_neg (by simp [hlast]), if_neg hhead, append_assoc _ value, hkeyEnd]
        simp
      · have hinside : Inside line (before ++ key ++ nul :: gap ++ value ++ nul :: tail)
            (before ++ key ++ nul :: gap).length value := by
          apply inside_of_append hvaluenul
          simp only [length_append, length_cons] at hlen ⊢
          omega
        rw [hplace]
        simpa using hinside

theorem keyValueAt_reads (junk : Buffer) (hnul : nul ∉ lineText line)
    (hlen : (lineText line).length + junk.length = line.length) :
    ∃ cells outcome, cells.length = line.length + 1 ∧
      (∀ suf, keyValueAt (lineText line ++ nul :: (junk ++ suf)) = some (cells ++ suf, outcome)) ∧
      Reads line cells outcome := by
  obtain ⟨text, htext⟩ : ∃ text, text = lineText line := ⟨_, rfl⟩
  rw [← htext] at hnul hlen ⊢
  obtain ⟨body, hbody⟩ : ∃ body, body = text.dropWhile isBlank := ⟨_, rfl⟩
  have hsplit : text = text.takeWhile isBlank ++ body := by
    rw [hbody, takeWhile_append_dropWhile]
  have hbodynul : nul ∉ body := fun hc => hnul (by rw [hsplit]; exact mem_append_right _ hc)
  have hread : ∀ suf, stringAt (text ++ nul :: (junk ++ suf)) 0 = some text := fun suf =>
    stringAt_append [] hnul
  have hbodyRead : ∀ suf, stringAt (text ++ nul :: (junk ++ suf)) (text.takeWhile isBlank).length =
      some body := by
    intro suf
    have hstring : stringAt (text.takeWhile isBlank ++ body ++ nul :: (junk ++ suf))
        (text.takeWhile isBlank).length = some body := stringAt_append _ hbodynul
    rwa [← hsplit] at hstring
  have hhead : ∀ c, body.head? = some c → isBlank c = false := by
    intro c hc
    have hnot := head?_dropWhile_not isBlank text
    rw [← hbody, hc] at hnot
    exact hnot
  by_cases hkey : body.takeWhile (!isBlank ·) = []
  · have hnil : body = [] := by
      cases body with
      | nil => rfl
      | cons c body => simp [hhead c rfl] at hkey
    refine ⟨text ++ nul :: junk, .empty, ?_, fun suf => ?_, .blank ?_⟩
    · rw [length_append, length_cons]
      omega
    · rw [keyValueAt, hread, bind_some]
      dsimp only
      rw [hbodyRead, bind_some, if_pos (by rw [hkey]; rfl)]
      simp
    · rw [← htext]
      exact fun c hc => List.dropWhile_eq_nil_iff.mp (hbody ▸ hnil) c hc
  · obtain ⟨rest, hrest⟩ : ∃ rest, rest = body.dropWhile (!isBlank ·) := ⟨_, rfl⟩
    have hparts : body = body.takeWhile (!isBlank ·) ++ rest := by
      rw [hrest, takeWhile_append_dropWhile]
    have hrestnul : nul ∉ rest := fun hc =>
      hbodynul (by rw [hparts]; exact mem_append_right _ hc)
    obtain ⟨lead, trail, hlead, hleadBlank, htrailBlank, htrim⟩ := trimAt_eq hrestnul
    have htrimmed := ListTexts.trimBuffer_trimmed rest
    have hlay : Layout (lineText line) (text.takeWhile isBlank) (body.takeWhile (!isBlank ·)) lead
        (trimBuffer rest) trail := by
      refine ⟨?_, hkey, fun hne hnil => ?_, fun c hc => ?_, fun c hc => ?_, htrimmed.head,
        htrimmed.last⟩
      · rw [← htext, ← hlead, append_assoc, ← hparts, ← hsplit]
      · -- the text behind the key begins with a blank
        obtain ⟨c, core, hcore⟩ := exists_cons_of_ne_nil hne
        have hblank := head?_dropWhile_not (fun c => !isBlank c) body
        have hfirst : isBlank c = false := htrimmed.head c (by rw [hcore]; rfl)
        rw [← hrest, hlead, hnil, hcore, nil_append, cons_append] at hblank
        simp [hfirst] at hblank
      · simpa using mem_takeWhile_imp hc
      · obtain hc | hc | hc := hc
        · exact mem_takeWhile_imp hc
        · exact hleadBlank c hc
        · exact htrailBlank c hc
    have hlength := congrArg List.length hlay.whole
    rw [← htext] at hlength
    obtain ⟨cells, outcome, hcells, hvalue, hreads⟩ :=
      valueAt_reads hlay (htext ▸ hnul) (by rw [← htext]; omega) (trail ++ nul :: junk).tail
    refine ⟨cells, outcome, ?_, fun suf => ?_, hreads⟩
    · rw [hcells, length_tail]
      simp only [length_append, length_cons] at hlength ⊢
      omega
    · have hbuf : text ++ nul :: (junk ++ suf) =
          text.takeWhile isBlank ++ body.takeWhile (!isBlank ·) ++ rest ++ nul :: (junk ++ suf) := by
        rw [append_assoc (text.takeWhile isBlank), ← hparts, ← hsplit]
      have htail : (trail ++ nul :: (junk ++ suf)).tail = (trail ++ nul :: junk).tail ++ suf := by
        cases trail <;> simp
      rw [keyValueAt, hread, bind_some]
      dsimp only
      rw [hbodyRead, bind_some, if_neg (by simpa using hkey), hbuf, ← length_append,
        htrim, bind_some, htail]
      exact hvalue suf

/-- Every line is rejected, or has nothing on it, or gives the strings of its key and its value.
The cells behind the terminator of the line decide nothing, and stay as they are. -/
theorem keyValueFromString_reads (h : nul ∉ line) :
    ∃ cells outcome, cells.length = line.length + 1 ∧
      (∀ suf, keyValueFromString (line ++ nul :: suf) = some (cells ++ suf, outcome)) ∧
      Reads line cells outcome := by
  by_cases hcomment : line.head? = some '#'
  · refine ⟨line ++ [nul], .empty, by simp, fun suf => ?_, .comment hcomment⟩
    rw [keyValueFromString, if_pos (by rw [head?_append, hcomment]; rfl)]
    simp
  · have hhead : ∀ suf, (line ++ nul :: suf).head? ≠ some '#' := by
      intro suf
      cases line with
      | nil => exact fun heq => absurd (Option.some.inj heq) (by decide)
      | cons c line => exact hcomment
    have hcut : nul ∉ line.takeWhile (· ≠ '\n') := fun hc => h ((List.takeWhile_prefix _).subset hc)
    have htext : nul ∉ lineText line := fun hc => hcut ((List.takeWhile_prefix _).subset hc)
    obtain ⟨junk₁, hlen₁, hcut₁⟩ := truncateAt_eq '\n' h []
    obtain ⟨junk₂, hlen₂, hcut₂⟩ := truncateAt_eq '\r' hcut junk₁
    obtain ⟨cells, outcome, hcells, hkey, hreads⟩ := keyValueAt_reads junk₂ htext (by
      rw [lineText, hlen₂, hlen₁]
      rfl)
    refine ⟨cells, outcome, hcells, fun suf => ?_, hreads⟩
    have hfirst := hcut₁ suf
    rw [nil_append] at hfirst
    rw [keyValueFromString, if_neg (hhead suf), hfirst, bind_some, hcut₂, bind_some]
    exact hkey suf

/-- `key "a b"` and a line end. -/
theorem keyValueFromString_reads_quoted :
    ∃ cells outcome, cells.length = "key \"a b\"\n".toList.length + 1 ∧
      (∀ suf, keyValueFromString ("key \"a b\"\n".toList ++ nul :: suf) =
        some (cells ++ suf, outcome)) ∧ Reads "key \"a b\"\n".toList cells outcome :=
  keyValueFromString_reads (by decide)

example : (keyValueFromString "key \"\x00".toList).map Prod.snd = some (.pair 0 5) := by decide

end Pair

end KeyValueLines
