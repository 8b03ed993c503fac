import SdtTr369.CBuffers
import SdtTr369.ExprVector

/-!
# Reply topics of MQTT v3

The agent publishes to a topic that ends in its own topic, with the slashes escaped. The
other end takes the text after the first qualifier and decodes every escape in it.
-/

namespace MqttTopics

open UspTypes ExprVector CBuffers PercentEscapes List

/-! ## The code -/

/-- `MAX_TOPIC_LEN`. -/
def maxTopicLen : Nat := 128

/-- `REPLY_TO_QUALIFIER`. -/
def replyToQualifier : Str := ['/', 'r', 'e', 'p', 'l', 'y', '-', 't', 'o', '=']

/-- The loop of `TEXT_UTILS_ReplaceCharInString`, with `dst_len` characters of room. -/
def replaceLoop (matchChar : Char) (replacement : Str) : Str → Int → Str
  | [], _ => []
  | c :: src, dstLen =>
    if c = matchChar then
      if replacement.length > dstLen then []
      else replacement ++
        if dstLen - replacement.length = 0 then []
        else replaceLoop matchChar replacement src (dstLen - replacement.length)
    else c :: if dstLen - 1 = 0 then [] else replaceLoop matchChar replacement src (dstLen - 1)

/-- `TEXT_UTILS_ReplaceCharInString`. -/
def replaceCharInString (src : Str) (matchChar : Char) (replacement : Str) (dstLen : Nat) : Str :=
  replaceLoop matchChar replacement src (dstLen - 1)

/-- The topic of a v3 message in `Publish`. -/
def publishTopic (topic responseTopic : Str) : Str :=
  let escapedAgentTopic := replaceCharInString responseTopic '/' ['%', '2', 'F'] maxTopicLen
  clip (2 * maxTopicLen + 10) (topic ++ replyToQualifier ++ escapedAgentTopic)

/-- `FindReplyToTopic`. -/
def findReplyToTopic (publishTopic : Str) (len : Nat) : Option Str :=
  match splitAtText replyToQualifier publishTopic with
  | none => none
  | some (_, p) =>
    let buf := percentDecodeString (clip len p)
    if buf = [] then none else some buf

/-! ## Escaping -/

section Escaping

variable {m : Char} {rep src : Str}

/-- The text with all replacements. -/
def replaced (m : Char) (rep src : Str) : Str := src.flatMap fun c => if c = m then rep else [c]

/-- What the buffer holds is the beginning of the text with all replacements. -/
theorem replaceLoop_isPrefix (src : Str) (room : Int) :
    replaceLoop m rep src room <+: replaced m rep src := by
  induction src generalizing room with
  | nil => exact prefix_rfl
  | cons c src ih =>
    simp only [replaceLoop, replaced, flatMap_cons]
    split
    · split
      · exact nil_prefix
      · refine (prefix_append_right_inj _).mpr ?_
        split
        · exact nil_prefix
        · exact ih _
    · rw [singleton_append]
      refine (prefix_cons_inj c).mpr ?_
      split
      · exact nil_prefix
      · exact ih _

/-- A text that fits is not cut. -/
theorem replaceLoop_fits (src : Str) {room : Int} (h : (replaced m rep src).length ≤ room) :
    replaceLoop m rep src room = replaced m rep src := by
  induction src generalizing room with
  | nil => rfl
  | cons c src ih =>
    simp only [replaced, flatMap_cons, length_append] at h ih ⊢
    simp only [replaceLoop]
    split
    · rename_i hc
      rw [if_pos hc] at h
      rw [if_neg (by omega)]
      congr 1
      split
      · symm
        apply eq_nil_of_length_eq_zero
        omega
      · exact ih (by omega)
    · rename_i hc
      rw [if_neg hc, length_singleton] at h
      rw [singleton_append]
      congr 1
      split
      · symm
        apply eq_nil_of_length_eq_zero
        omega
      · exact ih (by omega)

end Escaping

/-! ## Decoding -/

section Decoding

/-- An agent topic with its slashes escaped. -/
def escaped (s : Str) : Str := replaced '/' ['%', '2', 'F'] s

/-- No two hexadecimal digits behind a percent sign. -/
def Plain (s : Str) : Prop :=
  ∀ d1 d2, ['%', d1, d2] <:+: s → hexDigitToValue d1 = none ∨ hexDigitToValue d2 = none

variable {c d1 d2 : Char} {s : Str}

theorem escaped_slash (s : Str) : escaped ('/' :: s) = '%' :: '2' :: 'F' :: escaped s := rfl

theorem escaped_cons (hc : c ≠ '/') (s : Str) : escaped (c :: s) = c :: escaped s := by
  rw [escaped, replaced, flatMap_cons, if_neg hc]
  rfl

/-- The text is not that of an escape behind its percent sign. -/
def NoDigits (s : Str) : Prop :=
  ∀ d1 d2, [d1, d2] <+: s → hexDigitToValue d1 = none ∨ hexDigitToValue d2 = none

/-- A percent sign stays, or it is taken with two digits behind it. -/
theorem decode_percent (s : Str) :
    (percentDecodeString ('%' :: s) = '%' :: percentDecodeString s ∧ NoDigits s) ∨
      ∃ d1 d2 s', s = d1 :: d2 :: s' ∧ (hexDigitToValue d1).isSome ∧ (hexDigitToValue d2).isSome ∧
        (percentDecodeString ('%' :: s) = [] ∨
          ∃ c, percentDecodeString ('%' :: s) = c :: percentDecodeString s') := by
  match s with
  | [] => exact .inl ⟨rfl, fun d1 d2 h => absurd h.length_le (by simp)⟩
  | [c] =>
    refine .inl ⟨?_, fun d1 d2 h => absurd h.length_le (by simp)⟩
    simp [percentDecodeString]
  | d1 :: d2 :: s =>
    have hdigits : NoDigits (d1 :: d2 :: s) ↔
        hexDigitToValue d1 = none ∨ hexDigitToValue d2 = none := by
      refine ⟨fun h => h d1 d2 (prefix_append [d1, d2] s), fun h e1 e2 he => ?_⟩
      simp only [cons_prefix_cons, nil_prefix, and_true] at he
      rwa [he.1, he.2]
    rw [hdigits]
    cases h1 : hexDigitToValue d1 with
    | none => exact .inl ⟨unescape_malformed (by simp [escapedChar, h1]), .inl rfl⟩
    | some n1 =>
      cases h2 : hexDigitToValue d2 with
      | none => exact .inl ⟨unescape_malformed (by simp [escapedChar, h1, h2]), .inr rfl⟩
      | some n2 =>
        refine .inr ⟨d1, d2, s, rfl, by rw [h1]; rfl, by rw [h2]; rfl, ?_⟩
        by_cases hzero : 16 * n1 + n2 = 0
        · exact .inl (unescape_end (by simp [escapedChar, h1, h2, hzero]))
        · exact .inr ⟨_, unescape_escape (by rw [escapedChar, h1, h2]; exact if_neg hzero)⟩

theorem hexDigit_ne_percent (h : (hexDigitToValue c).isSome) : c ≠ '%' := by
  rintro rfl
  revert h
  decide

theorem plain_percent_iff : Plain ('%' :: s) ↔ NoDigits s ∧ Plain s := by
  constructor
  · intro h
    refine ⟨fun d1 d2 hd => ?_, fun d1 d2 hd => h d1 d2 (infix_cons hd)⟩
    exact h d1 d2 ((prefix_cons_inj '%').mpr hd).isInfix
  · rintro ⟨hdigits, hplain⟩ d1 d2 hd
    rcases List.infix_cons_iff.mp hd with hd | hd
    · exact hdigits d1 d2 ((prefix_cons_inj '%').mp hd)
    · exact hplain d1 d2 hd

theorem plain_cons_iff (hc : c ≠ '%') : Plain (c :: s) ↔ Plain s := by
  refine ⟨fun h d1 d2 hd => h d1 d2 (infix_cons hd), fun h d1 d2 hd => ?_⟩
  rcases List.infix_cons_iff.mp hd with hd | hd
  · exact absurd (List.cons_prefix_cons.mp hd).1.symm hc
  · exact h d1 d2 hd

/-- A character of the escaped text that is no percent sign comes from the text. -/
theorem cons_isPrefix_escaped {p : Str} (h : c :: p <+: escaped s) (hc : c ≠ '%') :
    ∃ s', s = c :: s' ∧ p <+: escaped s' := by
  cases s with
  | nil => exact absurd (List.prefix_nil.mp h) (cons_ne_nil _ _)
  | cons d s =>
    by_cases hd : d = '/'
    · subst hd
      rw [escaped_slash] at h
      exact absurd (List.cons_prefix_cons.mp h).1 hc
    · rw [escaped_cons hd] at h
      obtain ⟨rfl, hp⟩ := List.cons_prefix_cons.mp h
      exact ⟨s, rfl, hp⟩

/-- A beginning of an escaped slash, cut in the middle or whole. -/
theorem isPrefix_slash {p : Str} (h : p <+: escaped ('/' :: s)) :
    p = [] ∨ p = ['%'] ∨ p = ['%', '2'] ∨ ∃ p', p = '%' :: '2' :: 'F' :: p' ∧ p' <+: escaped s := by
  rw [escaped_slash] at h
  match p with
  | [] => exact .inl rfl
  | [a] =>
    simp only [cons_prefix_cons, nil_prefix, and_true] at h
    exact .inr (.inl (by rw [h]))
  | [a, b] =>
    simp only [cons_prefix_cons, nil_prefix, and_true] at h
    exact .inr (.inr (.inl (by rw [h.1, h.2])))
  | a :: b :: d :: p' =>
    simp only [cons_prefix_cons] at h
    obtain ⟨ha, hb, hd, hp'⟩ := h
    exact .inr (.inr (.inr ⟨p', by rw [ha, hb, hd], hp'⟩))

/-- The escape of a slash. -/
theorem decode_slash (s : Str) :
    percentDecodeString ('%' :: '2' :: 'F' :: s) = '/' :: percentDecodeString s := rfl

/-- What was decoded is at most one character longer than the text. -/
theorem decode_length (s p : Str) (h : p <+: escaped s) :
    (percentDecodeString p).length ≤ s.length + 1 := by
  match s, p, h with
  | _, [], _ => simp [percentDecodeString]
  | [], c :: p, h => exact absurd (List.prefix_nil.mp h) (cons_ne_nil _ _)
  | d :: s, c :: p, h =>
    rw [length_cons]
    by_cases hd : d = '/'
    · subst hd
      rcases isPrefix_slash h with h | h | h | ⟨p', h, hp'⟩
      · cases h
      · rw [h]
        simp [percentDecodeString]
      · rw [h]
        simp [percentDecodeString]
      · have := decode_length s p' hp'
        rw [h, decode_slash, length_cons]
        omega
    · rw [escaped_cons hd] at h
      obtain ⟨rfl, hp⟩ := List.cons_prefix_cons.mp h
      by_cases hc : c = '%'
      · subst hc
        rcases decode_percent p with ⟨heq, -⟩ | ⟨d1, d2, p', rfl, h1, h2, heq⟩
        · have := decode_length s p hp
          rw [heq, length_cons]
          omega
        · obtain ⟨s₁, rfl, hp₁⟩ := cons_isPrefix_escaped hp (hexDigit_ne_percent h1)
          obtain ⟨s₂, rfl, hp₂⟩ := cons_isPrefix_escaped hp₁ (hexDigit_ne_percent h2)
          have := decode_length s₂ p' hp₂
          rcases heq with heq | ⟨e, heq⟩
          · rw [heq]
            exact Nat.zero_le _
          · rw [heq]
            simp only [length_cons]
            omega
      · have := decode_length s p hp
        rw [percentDecodeString_other hc, length_cons]
        omega
termination_by s.length

/-- Escaping slashes brings no digits behind a percent sign. -/
theorem noDigits_of_escaped (h : NoDigits (escaped s)) : NoDigits s := by
  rintro d1 d2 ⟨s', rfl⟩
  by_cases h1 : d1 = '/'
  · subst h1
    exact .inl (by decide)
  by_cases h2 : d2 = '/'
  · subst h2
    exact .inr (by decide)
  refine h d1 d2 ?_
  rw [cons_append, singleton_append, escaped_cons h1, escaped_cons h2]
  exact prefix_append [d1, d2] _

/-- The text comes back when nothing was cut and it has no escapes of its own. -/
theorem decode_eq_iff (s p : Str) (h : p <+: escaped s) :
    percentDecodeString p = s ↔ p = escaped s ∧ Plain s := by
  induction s generalizing p with
  | nil =>
    have hp : p = [] := List.prefix_nil.mp h
    subst hp
    refine iff_of_true rfl ⟨rfl, fun d1 d2 hd => absurd hd.length_le (by simp)⟩
  | cons c s ih =>
    by_cases hslash : c = '/'
    · subst hslash
      rw [plain_cons_iff (by decide), escaped_slash]
      rcases isPrefix_slash h with rfl | rfl | rfl | ⟨p', rfl, hp'⟩
      · simp [percentDecodeString]
      · simp [percentDecodeString]
      · simp [percentDecodeString]
      · rw [decode_slash]
        simp only [List.cons.injEq, true_and]
        exact ih p' hp'
    · rw [escaped_cons hslash] at h ⊢
      cases p with
      | nil => simp [percentDecodeString]
      | cons d p =>
        obtain ⟨rfl, hp⟩ := List.cons_prefix_cons.mp h
        by_cases hc : d = '%'
        · subst hc
          rw [plain_percent_iff]
          rcases decode_percent p with ⟨heq, hdigits⟩ | ⟨d1, d2, p', rfl, h1, h2, heq⟩
          · rw [heq, List.cons.injEq, List.cons.injEq, eq_self, true_and, true_and, ih p hp]
            refine and_congr_right fun hwhole => ?_
            exact (and_iff_right (noDigits_of_escaped (hwhole ▸ hdigits))).symm
          · obtain ⟨s₁, rfl, hp₁⟩ := cons_isPrefix_escaped hp (hexDigit_ne_percent h1)
            obtain ⟨s₂, rfl, hp₂⟩ := cons_isPrefix_escaped hp₁ (hexDigit_ne_percent h2)
            -- the two digits are lost, and at most one character is won
            have hlength := decode_length s₂ p' hp₂
            refine iff_of_false (fun hback => ?_) fun ⟨_, hdigits, _⟩ => ?_
            · rcases heq with heq | ⟨e, heq⟩
              · rw [heq] at hback
                cases hback
              · rw [heq, List.cons.injEq] at hback
                rw [hback.2, length_cons, length_cons] at hlength
                omega
            · rcases hdigits d1 d2 (prefix_append [d1, d2] s₂) with hnone | hnone
              · rw [hnone] at h1
                cases h1
              · rw [hnone] at h2
                cases h2
        · rw [percentDecodeString_other hc, plain_cons_iff hc]
          simp only [List.cons.injEq, true_and]
          exact ih p hp

end Decoding

/-! ## The qualifier -/

section Qualifier

variable {topic : Str}

/-- No qualifier begins inside a text that has none, whatever of a qualifier follows. -/
theorem no_qualifier_inside {c : Char} (h : ¬replyToQualifier <:+: c :: topic) (rest : Str)
    (hrest : ∀ d, rest.head? = some d → d = '/') : ¬replyToQualifier <+: c :: topic ++ rest := by
  intro hfound
  rcases prefix_or_prefix_of_prefix hfound (prefix_append _ _) with hin | hin
  · exact h hin.isInfix
  · obtain ⟨more, hmore⟩ := hin
    cases more with
    | nil => exact h ⟨[], [], by rw [← hmore]; simp⟩
    | cons d more =>
      -- the part of the qualifier that follows would begin with its slash
      rw [← hmore] at hfound
      have hd : rest.head? = some d := by
        obtain ⟨after, hafter⟩ := (prefix_append_right_inj _).mp hfound
        rw [← hafter]
        rfl
      have htail : d ∈ replyToQualifier.tail := by
        rw [← hmore]
        simp
      rw [hrest d hd] at htail
      exact absurd htail (by decide)

theorem splitAtText_topic (h : ¬replyToQualifier <:+: topic) (rest : Str) :
    splitAtText replyToQualifier (topic ++ (replyToQualifier ++ rest)) = some (topic, rest) := by
  induction topic with
  | nil => rfl
  | cons c topic ih =>
    have hnot := no_qualifier_inside h (replyToQualifier ++ rest)
      fun d hd => (Option.some.inj hd).symm
    have htopic : ¬replyToQualifier <:+: topic := fun hin => h (infix_cons hin)
    rw [cons_append] at hnot ⊢
    rw [splitAtText, if_neg (by rwa [List.isPrefixOf_iff_prefix]), ih htopic]
    rfl

theorem splitAtText_cut (h : ¬replyToQualifier <:+: topic) {part : Str}
    (hpart : part <+: replyToQualifier) (hcut : part.length < replyToQualifier.length) :
    splitAtText replyToQualifier (topic ++ part) = none := by
  have hshort : ∀ s : Str, s.length < replyToQualifier.length →
      splitAtText replyToQualifier s = none := by
    intro s hs
    induction s with
    | nil => rfl
    | cons c s ih =>
      have hnot : ¬replyToQualifier <+: c :: s := fun hin => by
        have := hin.length_le
        omega
      rw [splitAtText, if_neg (by rwa [List.isPrefixOf_iff_prefix]),
        ih (Nat.lt_of_succ_lt hs)]
      rfl
  induction topic with
  | nil => exact hshort part hcut
  | cons c topic ih =>
    have hnot := no_qualifier_inside h part fun d hd => by
      obtain ⟨more, hmore⟩ := hpart
      cases part with
      | nil => cases hd
      | cons e part =>
        cases hd
        exact (List.cons.inj hmore).1
    have htopic : ¬replyToQualifier <:+: topic := fun hin => h (infix_cons hin)
    rw [cons_append] at hnot ⊢
    rw [splitAtText, if_neg (by rwa [List.isPrefixOf_iff_prefix]), ih htopic]
    rfl

end Qualifier

/-! ## The round trip -/

/-- The topics fit the buffers and the agent's topic has no escapes of its own. -/
structure TopicsFit (topic responseTopic : Str) : Prop where
  unqualified : ¬replyToQualifier <:+: topic
  escaped : (escaped responseTopic).length < maxTopicLen
  whole : topic.length + replyToQualifier.length + (MqttTopics.escaped responseTopic).length <
    2 * maxTopicLen + 10
  plain : Plain responseTopic

section RoundTrip

variable {topic responseTopic : Str}

/-- What `FindReplyToTopic` makes of a part of the escaped topic. -/
theorem found_part (hne : responseTopic ≠ []) {p : Str} (hp : p <+: escaped responseTopic) :
    (if percentDecodeString p = [] then none else some (percentDecodeString p)) =
      some responseTopic ↔ p = escaped responseTopic ∧ Plain responseTopic := by
  rw [← decode_eq_iff _ _ hp]
  split
  · rename_i hnil
    rw [hnil]
    exact iff_of_false (by simp) fun h => hne h.symm
  · exact Option.some_inj

/-- Two cuts of the escaped topic leave it whole when it fits. -/
theorem whole_iff (k : Nat) :
    clip maxTopicLen ((replaceCharInString responseTopic '/' ['%', '2', 'F'] maxTopicLen).take k) =
      escaped responseTopic ↔ (escaped responseTopic).length < maxTopicLen ∧
        (escaped responseTopic).length ≤ k := by
  constructor
  · intro h
    have hlength := congrArg List.length h
    rw [clip, length_take, length_take] at hlength
    simp only [maxTopicLen] at hlength ⊢
    omega
  · rintro ⟨hlt, hle⟩
    have hesc : replaceCharInString responseTopic '/' ['%', '2', 'F'] maxTopicLen =
        escaped responseTopic :=
      replaceLoop_fits responseTopic (by
        simp only [maxTopicLen, escaped] at hlt ⊢
        omega)
    rw [hesc, clip, take_of_length_le hle, take_of_length_le (by omega)]

/-- The text behind the qualifier, with what is cut off. -/
theorem found_iff (hunqualified : ¬replyToQualifier <:+: topic) (hne : responseTopic ≠ []) :
    findReplyToTopic (publishTopic topic responseTopic) maxTopicLen = some responseTopic ↔
      TopicsFit topic responseTopic := by
  have hfit : TopicsFit topic responseTopic ↔ (escaped responseTopic).length < maxTopicLen ∧
      topic.length + replyToQualifier.length + (escaped responseTopic).length <
        2 * maxTopicLen + 10 ∧ Plain responseTopic :=
    ⟨fun h => ⟨h.escaped, h.whole, h.plain⟩, fun h => ⟨hunqualified, h.1, h.2.1, h.2.2⟩⟩
  have hesc : replaceCharInString responseTopic '/' ['%', '2', 'F'] maxTopicLen <+:
      escaped responseTopic := replaceLoop_isPrefix responseTopic _
  rw [hfit, findReplyToTopic, publishTopic, clip, append_assoc, take_append,
    take_append]
  by_cases hroom : topic.length + replyToQualifier.length ≤ 2 * maxTopicLen + 9
  · rw [take_of_length_le (by omega), take_of_length_le (l := replyToQualifier) (by omega),
      splitAtText_topic hunqualified]
    have hpart : ∀ k, clip maxTopicLen ((replaceCharInString responseTopic '/' ['%', '2', 'F']
        maxTopicLen).take k) <+: escaped responseTopic :=
      fun k => (List.take_prefix ..).trans ((List.take_prefix ..).trans hesc)
    simp only
    rw [found_part hne (hpart _), whole_iff, and_assoc]
    refine and_congr_right fun _ => and_congr_left fun _ => ?_
    omega
  · -- the qualifier itself is cut
    have hcut : splitAtText replyToQualifier (topic.take (2 * maxTopicLen + 10 - 1) ++
        (replyToQualifier.take (2 * maxTopicLen + 10 - 1 - topic.length) ++
          (replaceCharInString responseTopic '/' ['%', '2', 'F'] maxTopicLen).take
            (2 * maxTopicLen + 10 - 1 - topic.length - replyToQualifier.length))) = none := by
      have hzero : 2 * maxTopicLen + 10 - 1 - topic.length - replyToQualifier.length = 0 := by omega
      rw [hzero, take_zero, append_nil]
      refine splitAtText_cut (fun hin => hunqualified (hin.trans (List.take_prefix ..).isInfix))
        (List.take_prefix ..) ?_
      have hten : replyToQualifier.length = 10 := rfl
      rw [length_take]
      omega
    rw [hcut]
    refine iff_of_false (by simp) fun h => ?_
    have := h.2.1
    omega

end RoundTrip

/-- Whatever the topics, the condition is enough, and without a qualifier in the topic of
the controller it is needed. -/
theorem reply_topic_found {topic responseTopic : Str} (hne : responseTopic ≠ []) :
    (TopicsFit topic responseTopic →
      findReplyToTopic (publishTopic topic responseTopic) maxTopicLen = some responseTopic) ∧
    (¬replyToQualifier <:+: topic →
      findReplyToTopic (publishTopic topic responseTopic) maxTopicLen = some responseTopic →
        TopicsFit topic responseTopic) :=
  ⟨fun h => (found_iff h.unqualified hne).mpr h, fun h => (found_iff h hne).mp⟩

/-- Two plain topics. -/
theorem reply_topic_found_plain :
    findReplyToTopic (publishTopic "usp/controller".toList "usp/agent".toList) maxTopicLen =
      some "usp/agent".toList := by
  refine (reply_topic_found (by decide)).1 ⟨by decide, by decide, by decide, fun d1 d2 h => ?_⟩
  have hmem : '%' ∈ "usp/agent".toList := h.subset mem_cons_self
  exact absurd hmem (by decide)

/-- An escape in the agent's topic, a qualifier in the topic of the controller. -/
theorem reply_topic_lost :
    findReplyToTopic (publishTopic "usp/controller".toList "usp/%41".toList) maxTopicLen =
        some "usp/A".toList ∧
      findReplyToTopic (publishTopic "usp/reply-to=x".toList "usp/agent".toList) maxTopicLen =
        some "x/reply-to=usp/agent".toList := by
  decide

end MqttTopics
