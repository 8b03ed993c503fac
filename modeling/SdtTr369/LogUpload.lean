import SdtTr369.RunHistory
import SdtTr369.UspTypes
import Mathlib.Data.List.Perm.Basic

/-!
# Uploading the log stream

`getRealtimeLog` of `LogManager.java` appends what it reads to a buffer, and at most once in an
interval hands a task to a thread pool. The task takes the text of the buffer, and `uploadLog` of
`HttpsUtils.java` cuts as many characters off the buffer and sends the text. The steps of the
reader, the timer and the tasks come in any order.
-/

namespace LogUpload

open UspTypes RunHistory List Option

/-- A text taken from the buffer, and how many characters had been removed by then. -/
structure Piece where
  start : Nat
  content : Str
  deriving DecidableEq, Repr

/-- Where a running task stands. -/
inductive Task where
  | fresh
  | taken (piece : Piece)
  | sending (piece : Piece)
  deriving DecidableEq, Repr

/-- Where the loop of `getRealtimeLog` stands. -/
inductive Reader where
  | loopHead
  | inRead
  | appended
  | armed
  | cleared
  deriving DecidableEq, Repr

/-- The buffer `sb` with `condition`, the delayed messages of the handler, the reader and the
thread pool. The last fields are history: what was appended and how much of it removed, what the
tasks cut off, and what was handed to the network. -/
structure State where
  sb : Str
  condition : Bool
  messages : Nat
  reader : Reader
  reading : Bool
  workers : Nat
  waiting : Nat
  running : List Task
  shutdown : Bool
  appended : Str
  removed : Nat
  cuts : List Piece
  handed : List Piece
  deriving DecidableEq, Repr

def corePoolSize : Nat := 4
def maximumPoolSize : Nat := 8
def queueCapacity : Nat := 20

/-- A stream that begins, with what an earlier one has left in the buffer. -/
def begun (condition : Bool) (left : Str) : State where
  sb := left
  condition := condition
  messages := 0
  reader := .loopHead
  reading := true
  workers := 0
  waiting := 0
  running := []
  shutdown := false
  appended := left
  removed := 0
  cuts := []
  handed := []

/-- `execute` of the pool: a new thread up to the core size, else the queue, else a new thread up
to the maximum; else the oldest task in the queue makes room. -/
def State.execute (s : State) : State :=
  if s.shutdown then s
  else if s.workers < corePoolSize then
    { s with workers := s.workers + 1, running := s.running ++ [.fresh] }
  else if s.waiting < queueCapacity then { s with waiting := s.waiting + 1 }
  else if s.workers < maximumPoolSize then
    { s with workers := s.workers + 1, running := s.running ++ [.fresh] }
  else s

/-- The steps. A task fails when its request cannot be built; the stream is stopped by a failed
upload or by the controller. -/
inductive Event where
  | loop
  | append (chunk : Str)
  | test
  | clear
  | submit
  | fire
  | pick
  | retire
  | take (i : Nat)
  | fail (i : Nat)
  | cut (i : Nat)
  | send (i : Nat)
  | stop
  deriving DecidableEq, Repr

def step : Event → State → Option State
  | .loop, s =>
    if s.reader = .loopHead ∧ s.reading then some { s with reader := .inRead } else none
  | .append chunk, s =>
    if s.reader = .inRead then
      some { s with reader := .appended, sb := s.sb ++ chunk, appended := s.appended ++ chunk }
    else none
  | .test, s =>
    if s.reader = .appended then
      some (if s.condition then { s with reader := .armed, messages := s.messages + 1 }
        else { s with reader := .loopHead })
    else none
  | .clear, s =>
    if s.reader = .armed then some { s with reader := .cleared, condition := false } else none
  | .submit, s =>
    if s.reader = .cleared then some { s.execute with reader := .loopHead } else none
  | .fire, s =>
    if 0 < s.messages then some { s with messages := 0, condition := true } else none
  | .pick, s =>
    if 0 < s.waiting ∧ s.running.length < s.workers then
      some { s with waiting := s.waiting - 1, running := s.running ++ [.fresh] }
    else none
  | .retire, s =>
    if s.running.length < s.workers ∧ corePoolSize < s.workers then
      some { s with workers := s.workers - 1 }
    else none
  | .take i, s =>
    match s.running[i]? with
    | some .fresh => some { s with running := s.running.set i (.taken ⟨s.removed, s.sb⟩) }
    | _ => none
  | .fail i, s =>
    match s.running[i]? with
    | some (.taken _) => some { s with running := s.running.eraseIdx i }
    | _ => none
  | .cut i, s =>
    match s.running[i]? with
    | some (.taken piece) => some { s with
        running := s.running.set i (.sending piece)
        sb := s.sb.drop piece.content.length
        removed := s.removed + min piece.content.length s.sb.length
        cuts := s.cuts ++ [piece] }
    | _ => none
  | .send i, s =>
    match s.running[i]? with
    | some (.sending piece) => some { s with
        running := s.running.eraseIdx i
        handed := s.handed ++ [piece] }
    | _ => none
  | .stop, s => some { s with reading := false, shutdown := true, waiting := 0 }

/-- The piece holds the character at a position of what was read. -/
def Piece.Holds (piece : Piece) (k : Nat) : Prop :=
  piece.start ≤ k ∧ k < piece.start + piece.content.length

/-- The piece that a task is about to send. -/
def Task.sends : Task → Option Piece
  | .sending piece => some piece
  | _ => none

/-- No character is in two uploads, the uploads in the order they were cut off are what was
removed, and each is handed to the network or about to be. -/
structure Faithful (s : State) : Prop where
  once : s.cuts.Pairwise fun a b => ∀ k, a.Holds k → ¬ b.Holds k
  ordered : s.cuts.flatMap Piece.content = s.appended.take s.removed
  sent : (s.handed ++ s.running.filterMap Task.sends).Perm s.cuts

/-- A task cuts off nothing, or nothing was cut off since it took its text. -/
def Undisturbed (s : State) : Event → Prop
  | .cut i => ∀ piece, s.running[i]? = some (.taken piece) →
      piece.content = [] ∨ piece.start = s.removed
  | _ => True

/-- What holds as long as no cut is disturbed. -/
structure Sound (s : State) : Prop extends Faithful s where
  buffer : s.sb = s.appended.drop s.removed
  removed_le : s.removed ≤ s.appended.length
  taken : ∀ piece, .taken piece ∈ s.running → piece.start ≤ s.removed ∧
    piece.content <+: s.appended.drop piece.start
  below : ∀ piece ∈ s.cuts, ∀ k, piece.Holds k → k < s.removed
  covered : ∀ k < s.removed, ∃ piece ∈ s.cuts, piece.Holds k

section Lists

variable {α β : Type} {f : α → Option β} {l : List α} {x y : α} {b : β} {i : Nat}

/-- A list at one of its positions. -/
theorem split_at (h : l[i]? = some x) : ∃ front back, l = front ++ x :: back ∧
    (∀ y, l.set i y = front ++ y :: back) ∧ l.eraseIdx i = front ++ back := by
  obtain ⟨hi, hx⟩ := List.getElem?_eq_some_iff.mp h
  refine ⟨l.take i, l.drop (i + 1), ?_, ?_, ?_⟩
  · rw [← hx, ← drop_eq_getElem_cons hi, take_append_drop]
  · intro y
    rw [set_eq_take_append_cons_drop, if_pos hi]
  · rw [eraseIdx_eq_take_drop_succ]

theorem filterMap_set_perm (h : l[i]? = some x) (hx : f x = none) (hy : f y = some b) :
    ((l.set i y).filterMap f).Perm (b :: l.filterMap f) := by
  obtain ⟨front, back, hl, hset, -⟩ := split_at h
  rw [hset, hl, filterMap_append, filterMap_append, filterMap_cons_some hy,
    filterMap_cons_none hx]
  exact perm_middle

theorem filterMap_set_none (h : l[i]? = some x) (hx : f x = none) (hy : f y = none) :
    (l.set i y).filterMap f = l.filterMap f := by
  obtain ⟨front, back, hl, hset, -⟩ := split_at h
  rw [hset, hl, filterMap_append, filterMap_append, filterMap_cons_none hy,
    filterMap_cons_none hx]

theorem filterMap_eraseIdx_none (h : l[i]? = some x) (hx : f x = none) :
    (l.eraseIdx i).filterMap f = l.filterMap f := by
  obtain ⟨front, back, hl, -, herase⟩ := split_at h
  rw [herase, hl, filterMap_append, filterMap_append, filterMap_cons_none hx]

theorem filterMap_eraseIdx_perm (h : l[i]? = some x) (hx : f x = some b) :
    (b :: (l.eraseIdx i).filterMap f).Perm (l.filterMap f) := by
  obtain ⟨front, back, hl, -, herase⟩ := split_at h
  rw [herase, hl, filterMap_append, filterMap_append, filterMap_cons_some hx]
  exact List.perm_middle.symm

theorem mem_of_mem_set (h : x ∈ l.set i y) : x ∈ l ∨ x = y := mem_or_eq_of_mem_set h

end Lists

section Steps

variable {s s' : State} {event : Event} {piece : Piece} {i : Nat}

theorem begun_sound (condition : Bool) (left : Str) : Sound (begun condition left) where
  once := List.Pairwise.nil
  ordered := rfl
  sent := List.Perm.nil
  buffer := rfl
  removed_le := Nat.zero_le _
  taken := fun _ h => by cases h
  below := fun _ h => by cases h
  covered := fun k h => absurd h (Nat.not_lt_zero k)

/-- The texts are the same, and no task has taken or is about to send another one. -/
structure SameTexts (s s' : State) : Prop where
  sb : s'.sb = s.sb
  appended : s'.appended = s.appended
  removed : s'.removed = s.removed
  cuts : s'.cuts = s.cuts
  handed : s'.handed = s.handed
  taken : ∀ piece, .taken piece ∈ s'.running → .taken piece ∈ s.running
  sends : s'.running.filterMap Task.sends = s.running.filterMap Task.sends

theorem SameTexts.sound (h : SameTexts s s') (hs : Sound s) : Sound s' where
  once := by rw [h.cuts]; exact hs.once
  ordered := by rw [h.cuts, h.appended, h.removed]; exact hs.ordered
  sent := by rw [h.handed, h.sends, h.cuts]; exact hs.sent
  buffer := by rw [h.sb, h.appended, h.removed]; exact hs.buffer
  removed_le := by rw [h.appended, h.removed]; exact hs.removed_le
  taken := by
    intro piece hpiece
    rw [h.appended, h.removed]
    exact hs.taken piece (h.taken piece hpiece)
  below := by rw [h.cuts, h.removed]; exact hs.below
  covered := by rw [h.cuts, h.removed]; exact hs.covered

/-- A step that leaves the texts and the tasks alone. -/
theorem sameTexts_of_eq (hsb : s'.sb = s.sb) (happended : s'.appended = s.appended)
    (hremoved : s'.removed = s.removed) (hcuts : s'.cuts = s.cuts) (hhanded : s'.handed = s.handed)
    (hrunning : s'.running = s.running) : SameTexts s s' :=
  ⟨hsb, happended, hremoved, hcuts, hhanded, fun piece h => by rw [← hrunning]; exact h,
    by rw [hrunning]⟩

/-- A task more that has not begun. -/
theorem sameTexts_of_fresh (hsb : s'.sb = s.sb) (happended : s'.appended = s.appended)
    (hremoved : s'.removed = s.removed) (hcuts : s'.cuts = s.cuts) (hhanded : s'.handed = s.handed)
    (hrunning : s'.running = s.running ++ [.fresh]) : SameTexts s s' := by
  refine ⟨hsb, happended, hremoved, hcuts, hhanded, ?_, ?_⟩
  · intro piece hpiece
    rw [hrunning, mem_append, mem_singleton] at hpiece
    cases hpiece with
    | inl hold => exact hold
    | inr hnew => cases hnew
  · rw [hrunning, filterMap_append]
    exact append_nil _

theorem sound_of_eq (hs : Sound s) (hsb : s'.sb = s.sb) (happended : s'.appended = s.appended)
    (hremoved : s'.removed = s.removed) (hcuts : s'.cuts = s.cuts) (hhanded : s'.handed = s.handed)
    (hrunning : s'.running = s.running) : Sound s' :=
  (sameTexts_of_eq hsb happended hremoved hcuts hhanded hrunning).sound hs

theorem execute_sameTexts (s : State) : SameTexts s s.execute := by
  rw [State.execute]
  split
  · exact sameTexts_of_eq rfl rfl rfl rfl rfl rfl
  · split
    · exact sameTexts_of_fresh rfl rfl rfl rfl rfl rfl
    · split
      · exact sameTexts_of_eq rfl rfl rfl rfl rfl rfl
      · split
        · exact sameTexts_of_fresh rfl rfl rfl rfl rfl rfl
        · exact sameTexts_of_eq rfl rfl rfl rfl rfl rfl

/-- What is appended is behind everything that was taken. -/
theorem append_sound (hs : Sound s) (reader : Reader) (chunk : Str) :
    Sound { s with reader := reader, sb := s.sb ++ chunk, appended := s.appended ++ chunk } where
  once := hs.once
  ordered := by
    rw [take_append_of_le_length hs.removed_le]
    exact hs.ordered
  sent := hs.sent
  buffer := by rw [hs.buffer, drop_append_of_le_length hs.removed_le]
  removed_le := by
    rw [length_append]
    exact Nat.le_add_right_of_le hs.removed_le
  taken := by
    intro piece hpiece
    obtain ⟨hstart, hcontent⟩ := hs.taken piece hpiece
    refine ⟨hstart, ?_⟩
    rw [drop_append_of_le_length (Nat.le_trans hstart hs.removed_le)]
    exact hcontent.trans (prefix_append _ _)
  below := hs.below
  covered := hs.covered

/-- A task takes the text of the buffer. -/
theorem take_sound (hs : Sound s) (hfresh : s.running[i]? = some .fresh) :
    Sound { s with running := s.running.set i (.taken ⟨s.removed, s.sb⟩) } where
  once := hs.once
  ordered := hs.ordered
  sent := by
    rw [filterMap_set_none hfresh rfl rfl]
    exact hs.sent
  buffer := hs.buffer
  removed_le := hs.removed_le
  taken := by
    intro piece hpiece
    cases mem_of_mem_set hpiece with
    | inl hold => exact hs.taken piece hold
    | inr hnew =>
      cases hnew
      refine ⟨Nat.le_refl _, ?_⟩
      rw [← hs.buffer]
  below := hs.below
  covered := hs.covered

/-- A task takes its text along when it fails; nothing was removed. -/
theorem fail_sound (hs : Sound s) (htaken : s.running[i]? = some (.taken piece)) :
    Sound { s with running := s.running.eraseIdx i } := by
  have hsame : SameTexts s { s with running := s.running.eraseIdx i } :=
    ⟨rfl, rfl, rfl, rfl, rfl, fun _ h => mem_of_mem_eraseIdx h,
      filterMap_eraseIdx_none htaken rfl⟩
  exact hsame.sound hs

theorem send_sound (hs : Sound s) (hsending : s.running[i]? = some (.sending piece)) :
    Sound { s with running := s.running.eraseIdx i, handed := s.handed ++ [piece] } where
  once := hs.once
  ordered := hs.ordered
  sent := by
    have hrest := filterMap_eraseIdx_perm hsending (f := Task.sends) rfl
    rw [append_assoc, singleton_append]
    exact (hrest.append_left s.handed).trans hs.sent
  buffer := hs.buffer
  removed_le := hs.removed_le
  taken := fun p h => hs.taken p (mem_of_mem_eraseIdx h)
  below := hs.below
  covered := hs.covered

/-- The state after a cut. -/
def cutOff (s : State) (i : Nat) (piece : Piece) : State :=
  { s with
    running := s.running.set i (.sending piece)
    sb := s.sb.drop piece.content.length
    removed := s.removed + min piece.content.length s.sb.length
    cuts := s.cuts ++ [piece] }

theorem cutOff_sent (hs : Faithful s) (htaken : s.running[i]? = some (.taken piece)) :
    ((cutOff s i piece).handed ++ (cutOff s i piece).running.filterMap Task.sends).Perm
      (cutOff s i piece).cuts := by
  have hset := filterMap_set_perm (f := Task.sends) (y := .sending piece) htaken rfl rfl
  have hmiddle := (hset.append_left s.handed).trans perm_middle
  exact hmiddle.trans ((hs.sent.cons piece).trans (perm_append_singleton piece s.cuts).symm)

/-- A text that is still at the front of the buffer is removed as a whole. -/
theorem cutOff_removed (hs : Sound s) (hmem : .taken piece ∈ s.running)
    (hc : piece.content = [] ∨ piece.start = s.removed) :
    (cutOff s i piece).removed = s.removed + piece.content.length ∧
      (piece.content ≠ [] → piece.content <+: s.sb) := by
  obtain ⟨-, hcontent⟩ := hs.taken piece hmem
  cases hc with
  | inl hempty =>
    rw [cutOff, hempty]
    exact ⟨by simp, fun h => absurd rfl h⟩
  | inr hstart =>
    rw [hstart, ← hs.buffer] at hcontent
    refine ⟨?_, fun _ => hcontent⟩
    rw [cutOff, Nat.min_eq_left hcontent.length_le]

/-- A piece with a character begins where nothing was removed yet. -/
theorem start_of_holds (hc : piece.content = [] ∨ piece.start = s.removed) {k : Nat}
    (hk : piece.Holds k) : piece.start = s.removed := by
  cases hc with
  | inl hempty =>
    obtain ⟨hlow, hhigh⟩ := hk
    rw [hempty, length_nil] at hhigh
    omega
  | inr hstart => exact hstart

theorem cutOff_sound (hs : Sound s) (htaken : s.running[i]? = some (.taken piece))
    (hc : piece.content = [] ∨ piece.start = s.removed) : Sound (cutOff s i piece) := by
  have hmem := mem_of_getElem? htaken
  obtain ⟨hremoved, hpre⟩ := cutOff_removed (i := i) hs hmem hc
  constructor
  · constructor
    · apply List.pairwise_append.mpr
      refine ⟨hs.once, pairwise_singleton _ _, ?_⟩
      intro a ha b hb k hak hbk
      rw [List.mem_singleton.mp hb] at hbk
      have hbelow := hs.below a ha k hak
      have hstart := start_of_holds hc hbk
      have hlow := hbk.1
      omega
    · have hcuts : (cutOff s i piece).cuts.flatMap Piece.content =
          s.appended.take s.removed ++ piece.content := by
        rw [cutOff, flatMap_append, hs.ordered, flatMap_singleton]
      rw [hcuts, hremoved, cutOff, take_add, ← hs.buffer]
      by_cases hempty : piece.content = []
      · rw [hempty]
        rfl
      · rw [List.prefix_iff_eq_take.mp (hpre hempty), length_take,
          Nat.min_eq_left (hpre hempty).length_le]
    · exact cutOff_sent hs.toFaithful htaken
  · rw [hremoved]
    rw [cutOff, hs.buffer, drop_drop]
  · rw [hremoved]
    by_cases hempty : piece.content = []
    · rw [hempty]
      exact hs.removed_le
    · have hlength := (hpre hempty).length_le
      have hle := hs.removed_le
      rw [hs.buffer, length_drop] at hlength
      rw [cutOff]
      simp only
      omega
  · intro p hp
    rw [hremoved]
    cases mem_of_mem_set hp with
    | inl hold =>
      obtain ⟨hstart, hcontent⟩ := hs.taken p hold
      exact ⟨Nat.le_add_right_of_le hstart, hcontent⟩
    | inr hnew => cases hnew
  · intro p hp k hk
    rw [hremoved]
    cases List.mem_append.mp hp with
    | inl hold =>
      have hbelow := hs.below p hold k hk
      omega
    | inr hnew =>
      rw [List.mem_singleton.mp hnew] at hk
      have hstart := start_of_holds hc hk
      have hhigh := hk.2
      omega
  · intro k hk
    rw [hremoved] at hk
    by_cases hold : k < s.removed
    · obtain ⟨p, hp, hholds⟩ := hs.covered k hold
      exact ⟨p, mem_append_left _ hp, hholds⟩
    · refine ⟨piece, mem_append_right _ (mem_singleton_self _), ?_⟩
      have hstart : piece.start = s.removed := by
        cases hc with
        | inl hempty =>
          rw [hempty, length_nil] at hk
          omega
        | inr hstart => exact hstart
      constructor
      · omega
      · omega

/-- A disturbed cut takes a character a second time. -/
theorem undisturbed_of_faithful (hs : Sound s) (htaken : s.running[i]? = some (.taken piece))
    (h : Faithful (cutOff s i piece)) : piece.content = [] ∨ piece.start = s.removed := by
  by_contra hnot
  rw [not_or] at hnot
  have hstart := (hs.taken piece (mem_of_getElem? htaken)).1
  obtain ⟨a, ha, hholds⟩ := hs.covered piece.start (Nat.lt_of_le_of_ne hstart hnot.2)
  have hlength := List.length_pos_iff.mpr hnot.1
  apply (List.pairwise_append.mp h.once).2.2 a ha piece (mem_singleton_self _) piece.start hholds
  constructor
  · exact Nat.le_refl _
  · omega

/-- Every step keeps the state sound when no cut is disturbed. -/
theorem step_sound (hs : Sound s) (h : step event s = some s') (hc : Undisturbed s event) :
    Sound s' := by
  cases event with
  | loop | clear | fire | retire =>
    simp only [step, ite_none_right_eq_some, Option.some.injEq] at h
    obtain ⟨-, rfl⟩ := h
    exact sound_of_eq hs rfl rfl rfl rfl rfl rfl
  | append chunk =>
    simp only [step, ite_none_right_eq_some, Option.some.injEq] at h
    obtain ⟨-, rfl⟩ := h
    exact append_sound hs .appended chunk
  | test =>
    simp only [step, ite_none_right_eq_some, Option.some.injEq] at h
    obtain ⟨-, rfl⟩ := h
    split
    · exact sound_of_eq hs rfl rfl rfl rfl rfl rfl
    · exact sound_of_eq hs rfl rfl rfl rfl rfl rfl
  | submit =>
    simp only [step, ite_none_right_eq_some, Option.some.injEq] at h
    obtain ⟨-, rfl⟩ := h
    have hexecute := (execute_sameTexts s).sound hs
    exact sound_of_eq hexecute rfl rfl rfl rfl rfl rfl
  | pick =>
    simp only [step, ite_none_right_eq_some, Option.some.injEq] at h
    obtain ⟨-, rfl⟩ := h
    have hfresh : SameTexts s { s with waiting := s.waiting - 1, running := s.running ++ [.fresh] } :=
      sameTexts_of_fresh rfl rfl rfl rfl rfl rfl
    exact hfresh.sound hs
  | take i =>
    simp only [step] at h
    split at h
    · next hfresh =>
      cases h
      exact take_sound hs hfresh
    · cases h
  | fail i =>
    simp only [step] at h
    split at h
    · next htaken =>
      cases h
      exact fail_sound hs htaken
    · cases h
  | cut i =>
    simp only [step] at h
    split at h
    · next htaken =>
      cases h
      exact cutOff_sound hs htaken (hc _ htaken)
    · cases h
  | send i =>
    simp only [step] at h
    split at h
    · next hsending =>
      cases h
      exact send_sound hs hsending
    · cases h
  | stop =>
    simp only [step, Option.some.injEq] at h
    rw [← h]
    exact sound_of_eq hs rfl rfl rfl rfl rfl rfl

/-- A step after which the texts are right was not disturbed. -/
theorem undisturbed_of_step (hs : Sound s)
    (h : ∀ s', step event s = some s' → Faithful s') : Undisturbed s event := by
  cases event with
  | cut i =>
    intro piece htaken
    apply undisturbed_of_faithful hs htaken
    apply h
    simp only [step, htaken]
    rfl
  | _ => trivial

end Steps

/-- In every state that a stream reaches no character is in two uploads, none is removed without
being in one, and they are in reading order, exactly when no cut of the run is disturbed. -/
theorem uploads_faithful_iff (condition : Bool) (left : Str) (events : List Event) :
    (∀ before after s, events = before ++ after → run step before (begun condition left) = some s →
        Faithful s) ↔
      RunMeets step Undisturbed events (begun condition left) := by
  have hruns : ∀ (events : List Event) (s : State), Sound s →
      ((∀ before after s', events = before ++ after → run step before s = some s' → Faithful s') ↔
        RunMeets step Undisturbed events s) := by
    intro events
    induction events with
    | nil =>
      intro s hs
      refine iff_of_true ?_ trivial
      rintro before after s' hsplit hrun
      rw [(List.append_eq_nil_iff.mp hsplit.symm).1] at hrun
      cases hrun
      exact hs.toFaithful
    | cons event events ih =>
      intro s hs
      constructor
      · intro h
        have hstep : ∀ s', step event s = some s' → Faithful s' := by
          intro s' hs'
          apply h [event] events s' rfl
          rw [run_cons, hs']
          rfl
        have hc := undisturbed_of_step hs hstep
        refine ⟨hc, ?_⟩
        intro s' hs'
        rw [← ih s' (step_sound hs hs' hc)]
        intro before after s'' hsplit hrun
        apply h (event :: before) after s''
        · rw [hsplit, cons_append]
        · rw [run_cons, hs']
          exact hrun
      · intro h before after s'' hsplit hrun
        cases before with
        | nil =>
          cases hrun
          exact hs.toFaithful
        | cons first before =>
          rw [cons_append, List.cons.injEq] at hsplit
          obtain ⟨rfl, hsplit⟩ := hsplit
          rw [run_cons, bind_eq_some_iff] at hrun
          obtain ⟨s', hs', hrun⟩ := hrun
          exact (ih s' (step_sound hs hs' h.1)).mpr (h.2 s' hs') before after s'' hsplit hrun
  exact hruns events _ (begun_sound condition left)

/-- Two tasks take the same text before either has cut it off. -/
def overlapping : List Event :=
  [.loop, .append "ab".toList, .test, .clear, .submit, .fire, .loop, .append "c".toList, .test,
    .clear, .submit, .take 0, .take 1, .loop, .append "def".toList, .test, .cut 0, .cut 1,
    .send 0, .send 0]

/-- The text is sent twice, and what was read after it is removed and never sent. -/
theorem overlapping_loses :
    ∃ s, run step overlapping (begun true []) = some s ∧ s.sb = [] ∧
      s.appended = "abcdef".toList ∧
      s.handed.map Piece.content = ["abc".toList, "abc".toList] ∧ ¬ Faithful s := by
  refine ⟨_, rfl, rfl, rfl, rfl, ?_⟩
  intro h
  have hordered := h.ordered
  revert hordered
  decide

end LogUpload
