import Mathlib.Data.List.Nodup
import SdtTr369.SubsRetry

/-!
# What the retry vector holds

An entry goes its own way: it is there from the turn in which it was sent until
a turn that ends it. A later notification of the same subscription about the
same path ends it whatever it is about, and the timer ends it when the next
retry would come too late (`outstanding_iff`).
-/

namespace RetryRuns

open UspTypes DecimalText RunHistory SubsRetry List

/-- The notification for which a turn asks for a response. -/
def sent (H : Host) (s : State) : RetryStep → Option Notification
  | .notify sub path content =>
    if sub.notificationRetry then
      (findEndpointIdByInstance s.controllers sub.contInstance).map fun destEndpoint =>
        let req := createNotify H s (.subs sub.notifyType) sub.subscriptionId true content
        ⟨sub.inst, req.msgId, sub.subscriptionId, destEndpoint, path, req, retryExpiryTime H s sub⟩
    else none
  | .onBoardRequest contInstance content =>
    (findEndpointIdByInstance s.controllers contInstance).map fun destEndpoint =>
      let req := createNotify H s .onBoardRequest [] true content
      ⟨onBoardRequestSubsInstance, req.msgId, [], destEndpoint, [], req, endOfTime⟩
  | _ => none

/-- The timer finds that the time is over, or would be at the next retry. -/
def GivenUp (H : Host) (s : State) (n : Notification) : Prop :=
  ∃ sr call, (sr, call) ∈ s.subsRetry.zipIdx 1 ∧ sr.notification = n ∧
    (n.retryExpiryTime ≤ H.time s.turn 0 ∨
      sr.nextRetryTime ≤ H.time s.turn 0 ∧
        n.retryExpiryTime ≤ (nextRetry H s.turn call sr).nextRetryTime)

/-- The later notification takes the place of the other. -/
def supersedes (m n : Notification) : Prop :=
  m.inst = n.inst ∧ m.differentiator = n.differentiator

/-- The turn ends the retrying of `n`. -/
def Ends (H : Host) (s : State) (n : Notification) : RetryStep → Prop
  | .response msgId _ => msgId = n.msgId
  | .subsDeleted inst => inst = n.inst
  | .timer => GivenUp H s n
  | step => ∃ m, sent H s step = some m ∧ supersedes m n

/-- The notifications that wait for a response. -/
def waiting (s : State) : List Notification := s.subsRetry.map fun sr => sr.notification

/-! ## Message ids -/

/-- The text in which `messageId` counts a message. -/
def idText (kind : MessageKind) (isoTime : Str) (count : Nat) : Str :=
  kind.text ++ '-' :: isoTime ++ '-' :: intDigits (signedWord (UInt32.ofNat count))

theorem signedWord_inj {m n : Nat} (hm : m < 2 ^ 32) (hn : n < 2 ^ 32)
    (h : signedWord (UInt32.ofNat m) = signedWord (UInt32.ofNat n)) : m = n := by
  rw [signedWord_ofNat, signedWord_ofNat] at h
  have h := congrArg (· % (wordSize : Int)) h
  simp only [Int.bmod_emod, wordSize] at h
  omega

theorem natDigits_length {n : Nat} (h : n < 10 ^ 10) : (natDigits n).length ≤ 10 :=
  (Nat.length_toDigits_le_iff (by decide) (by decide)).mpr h

theorem signedDigits_length (n : UInt32) : (intDigits (signedWord n)).length ≤ 11 := by
  have hlow : -(2 ^ 32 : Int) ≤ signedWord n := by
    have := Int.le_bmod (x := n.toNat) (m := wordSize) (by decide)
    unfold signedWord
    simp only [wordSize] at *
    omega
  have hhigh := signedWord_lt n
  unfold signedLimit at hhigh
  cases hsign : signedWord n with
  | ofNat k =>
    rw [hsign, Int.ofNat_eq_natCast] at hhigh
    have := natDigits_length (n := k) (by omega)
    simp only [intDigits]
    omega
  | negSucc k =>
    rw [hsign] at hlow
    have := natDigits_length (n := k + 1) (by omega)
    simp only [intDigits, length_cons]
    omega

theorem idText_length {kind : MessageKind} {isoTime : Str} (hiso : isoTime.length = 20)
    (count : Nat) : (idText kind isoTime count).length ≤ maxNotifyMsgId - 1 := by
  have htext : kind.text.length ≤ 17 := by
    cases kind with
    | subs t => cases t <;> decide
    | onBoardRequest => decide
  have hdigits := signedDigits_length (UInt32.ofNat count)
  have htotal : ∀ a b, a ≤ 17 → b ≤ 11 → a + (20 + 1) + (b + 1) ≤ maxNotifyMsgId - 1 := by
    intro a b ha hb
    rw [maxNotifyMsgId]
    omega
  rw [idText, length_append, length_append, length_cons, length_cons, hiso]
  generalize intDigits (signedWord (UInt32.ofNat count)) = digits at hdigits ⊢
  exact htotal _ _ htext hdigits

theorem dash_not_mem_text (k : MessageKind) : '-' ∉ k.text := by
  cases k with
  | subs t => cases t <;> decide
  | onBoardRequest => decide

theorem text_inj {k k' : MessageKind} {r r' : Str}
    (h : k.text ++ '-' :: r = k'.text ++ '-' :: r') : k = k' := by
  have hdash : ∀ k : MessageKind, ∀ r : Str,
      (k.text ++ '-' :: r).takeWhile (· ≠ '-') = k.text := by
    intro k r
    rw [takeWhile_append_of_pos]
    · simp
    · intro c hc
      exact decide_eq_true fun heq => dash_not_mem_text k (heq ▸ hc)
  have htext : k.text = k'.text := by rw [← hdash k r, h, hdash]
  revert htext
  cases k with
  | subs t => cases k' with
    | subs t' => cases t <;> cases t' <;> decide
    | onBoardRequest => cases t <;> decide
  | onBoardRequest => cases k' with
    | subs t' => cases t' <;> decide
    | onBoardRequest => decide

/-- No two counted messages have the same text. -/
theorem idText_inj {k k' : MessageKind} {t t' : Str} {m n : Nat} (ht : t.length = 20)
    (ht' : t'.length = 20) (hm : m < 2 ^ 32) (hn : n < 2 ^ 32)
    (h : idText k t m = idText k' t' n) : k = k' ∧ m = n := by
  rw [idText, idText, append_assoc, append_assoc, cons_append, cons_append] at h
  obtain rfl := text_inj h
  have h := tail_eq_of_cons_eq (append_cancel_left h)
  have h := tail_eq_of_cons_eq (append_inj h (ht.trans ht'.symm)).2
  exact ⟨rfl, signedWord_inj hm hn (intDigits_inj h)⟩

/-! ## The vector -/

section Vector

variable {sr : SubsRetryEntry} {l : List SubsRetryEntry} {n : Notification}

/-- What `FindRetryEntry` compares. -/
def retryKey (sr : SubsRetryEntry) : Nat × Str :=
  (sr.notification.inst, sr.notification.differentiator)

theorem isRetryOf_iff {old : SubsRetryEntry} :
    isRetryOf sr.notification.inst sr.notification.differentiator old = true ↔
      retryKey old = retryKey sr := by
  simp [isRetryOf, retryKey]

theorem mem_replaceRetryEntry (hkeys : (l.map retryKey).Nodup) {x : SubsRetryEntry} :
    x ∈ replaceRetryEntry sr l ↔ x = sr ∨ x ∈ l ∧ retryKey x ≠ retryKey sr := by
  induction l with
  | nil => simp [replaceRetryEntry]
  | cons old rest ih =>
    rw [map_cons, nodup_cons] at hkeys
    rw [replaceRetryEntry]
    split
    · rename_i hold
      rw [isRetryOf_iff] at hold
      -- the key of the entry replaced is nowhere else
      have hrest : ∀ y ∈ rest, retryKey y ≠ retryKey sr := fun y hy heq =>
        hkeys.1 (hold.trans heq.symm ▸ mem_map_of_mem hy)
      rw [mem_cons, mem_cons]
      constructor
      · rintro (h | h)
        · exact .inl h
        · exact .inr ⟨.inr h, hrest x h⟩
      · rintro (h | ⟨rfl | h, hne⟩)
        · exact .inl h
        · exact absurd hold hne
        · exact .inr h
    · rename_i hold
      rw [isRetryOf_iff] at hold
      rw [mem_cons, mem_cons, ih hkeys.2]
      constructor
      · rintro (rfl | h | ⟨h, hne⟩)
        · exact .inr ⟨.inl rfl, hold⟩
        · exact .inl h
        · exact .inr ⟨.inr h, hne⟩
      · rintro (h | ⟨rfl | h, hne⟩)
        · exact .inr (.inl h)
        · exact .inl rfl
        · exact .inr (.inr ⟨h, hne⟩)

variable {β : Type} {f : SubsRetryEntry → β} {call k : Nat}

/-- A value that is new to the entries is new to those that are not replaced. -/
theorem nodup_replaceRetryEntry (hl : (l.map f).Nodup)
    (hnew : ∀ x ∈ l, f x = f sr → retryKey x = retryKey sr) (hkeys : (l.map retryKey).Nodup) :
    ((replaceRetryEntry sr l).map f).Nodup := by
  induction l with
  | nil => simp [replaceRetryEntry]
  | cons old rest ih =>
    rw [map_cons, nodup_cons] at hl hkeys
    have hnewRest : ∀ x ∈ rest, f x = f sr → retryKey x = retryKey sr := fun x hx =>
      hnew x (mem_cons_of_mem old hx)
    rw [replaceRetryEntry]
    split
    · rename_i hold
      rw [isRetryOf_iff] at hold
      rw [map_cons, nodup_cons]
      refine ⟨fun hmem => ?_, hl.2⟩
      obtain ⟨x, hx, heq⟩ := List.mem_map.mp hmem
      exact hkeys.1 (hold.trans (hnewRest x hx heq).symm ▸ mem_map_of_mem hx)
    · rename_i hold
      rw [isRetryOf_iff] at hold
      rw [map_cons, nodup_cons]
      refine ⟨fun hmem => ?_, ih hl.2 hnewRest hkeys.2⟩
      obtain ⟨x, hx, heq⟩ := List.mem_map.mp hmem
      rcases (mem_replaceRetryEntry hkeys.2).mp hx with rfl | ⟨hx, -⟩
      · exact hold (hnew old mem_cons_self heq.symm)
      · exact hl.1 (heq ▸ mem_map_of_mem hx)

/-- The entries that the timer leaves are entries of before, with another schedule. -/
theorem retryEntry_notification {H : Host} {turn : Nat} {curTime : Int} {left : SubsRetryEntry}
    (h : retryEntry H turn curTime call sr = some left) : left.notification = sr.notification := by
  unfold retryEntry at h
  split at h
  · cases h
  · split at h
    · split at h
      · cases h
      · cases h
        rfl
    · cases h
      rfl

theorem retryEntry_isSome_iff {H : Host} {turn : Nat} {curTime : Int} :
    (∃ left, retryEntry H turn curTime call sr = some left) ↔
      ¬ (sr.notification.retryExpiryTime ≤ curTime ∨ sr.nextRetryTime ≤ curTime ∧
        sr.notification.retryExpiryTime ≤ (nextRetry H turn call sr).nextRetryTime) := by
  unfold retryEntry
  split
  · rename_i h
    simp [h]
  · rename_i h
    split
    · rename_i hdue
      split
      · rename_i hlate
        simp [hdue, hlate]
      · rename_i hlate
        simp [h, hlate]
    · rename_i hdue
      simp [h, hdue]

theorem mem_eraseP_of_nodup [DecidableEq β] {b : β} (hl : (l.map f).Nodup) {x : SubsRetryEntry} :
    x ∈ l.eraseP (fun y => f y = b) ↔ x ∈ l ∧ f x ≠ b := by
  induction l with
  | nil => simp
  | cons y l ih =>
    rw [map_cons, nodup_cons] at hl
    rw [eraseP_cons]
    by_cases hy : f y = b
    · rw [decide_eq_true hy, cond_true, mem_cons]
      constructor
      · intro hx
        exact ⟨.inr hx, fun heq => hl.1 (hy.trans heq.symm ▸ mem_map_of_mem hx)⟩
      · rintro ⟨rfl | hx, hne⟩
        · exact absurd hy hne
        · exact hx
    · rw [decide_eq_false hy, cond_false, mem_cons, mem_cons, ih hl.2]
      constructor
      · rintro (rfl | ⟨hx, hne⟩)
        · exact ⟨.inl rfl, hy⟩
        · exact ⟨.inr hx, hne⟩
      · rintro ⟨rfl | hx, hne⟩
        · exact .inl rfl
        · exact .inr ⟨hx, hne⟩

/-! ### The entries with the number of their call -/

theorem mem_of_zipped (h : (sr, call) ∈ l.zipIdx k) : sr ∈ l := by
  have h := mem_map_of_mem (f := Prod.fst) h
  rwa [zipIdx_map_fst] at h

theorem exists_zipped (h : sr ∈ l) : ∃ call, (sr, call) ∈ l.zipIdx k := by
  rw [← zipIdx_map_fst k l] at h
  obtain ⟨⟨sr', call⟩, hmem, rfl⟩ := List.mem_map.mp h
  exact ⟨call, hmem⟩

theorem zipped_unique (hl : (l.map f).Nodup) {call' : Nat} {sr' : SubsRetryEntry}
    (h : (sr, call) ∈ l.zipIdx k) (h' : (sr', call') ∈ l.zipIdx k) (heq : f sr = f sr') :
    sr = sr' ∧ call = call' := by
  rw [← zipIdx_map_fst k l, map_map] at hl
  exact Prod.ext_iff.mp (inj_on_of_nodup_map hl h h' heq)

theorem zipped_sublist {g : SubsRetryEntry × Nat → Option SubsRetryEntry}
    (hg : ∀ p left, g p = some left → left.notification = p.1.notification)
    (l : List SubsRetryEntry) (k : Nat) :
    (((l.zipIdx k).filterMap g).map fun sr => sr.notification).Sublist
      (l.map fun sr => sr.notification) := by
  induction l generalizing k with
  | nil => exact List.Sublist.refl _
  | cons sr l ih =>
    rw [zipIdx_cons, filterMap_cons, map_cons]
    cases hleft : g (sr, k) with
    | none => exact (ih (k + 1)).cons _
    | some left =>
      simp only
      rw [map_cons, hg _ _ hleft]
      exact (ih (k + 1)).cons_cons _

end Vector

/-! ## One turn -/

/-- Entries have different keys and different, counted message ids. -/
structure VectorOk (H : Host) (s : State) : Prop where
  keys : (s.subsRetry.map retryKey).Nodup
  ids : (s.subsRetry.map fun sr => sr.notification.msgId).Nodup
  counted : ∀ sr ∈ s.subsRetry, ∃ kind turn count,
    sr.notification.msgId = idText kind (H.isoTime turn) count ∧ count ≤ s.messageCount kind
  bounded : ∀ kind, s.messageCount kind ≤ s.turn

theorem initialState_ok (H : Host) (controllers : List (Option Controller)) :
    VectorOk H (initialState controllers) :=
  ⟨nodup_nil, nodup_nil, nofun, fun _ => le_rfl⟩

section Turn

variable {H : Host} {s s' : State}

@[simp] theorem countMessage_controllers (kind : MessageKind) :
    (countMessage s kind).controllers = s.controllers := rfl

theorem messageId_eq (hiso : ∀ turn, (H.isoTime turn).length = 20) (kind : MessageKind) :
    messageId H s kind = idText kind (H.isoTime s.turn) (s.messageCount kind + 1) :=
  take_of_length_le (idText_length (hiso _) _)

/-- The next message id is not that of an entry. -/
theorem fresh_messageId (hiso : ∀ turn, (H.isoTime turn).length = 20) (hok : VectorOk H s)
    (hturn : s.turn + 1 < 2 ^ 32) (kind : MessageKind) {sr : SubsRetryEntry}
    (hsr : sr ∈ s.subsRetry) : sr.notification.msgId ≠ messageId H s kind := by
  obtain ⟨kind', turn, count, hid, hcount⟩ := hok.counted sr hsr
  have hbound := hok.bounded kind
  have hbound' := hok.bounded kind'
  rw [hid, messageId_eq hiso]
  intro heq
  obtain ⟨rfl, heq⟩ := idText_inj (hiso _) (hiso _) (by omega) (by omega) heq
  omega

/-- A controller that has an endpoint id is enabled. -/
theorem getSubsRetryParams_ne_none {controllers : List (Option Controller)} {inst : Nat}
    {endpointId : Str} (h : findEndpointIdByInstance controllers inst = some endpointId) :
    getSubsRetryParams controllers endpointId ≠ none := by
  unfold findEndpointIdByInstance at h
  split at h
  · cases h
  · rename_i cont hcont
    split at h
    · cases h
    · rename_i henable
      cases h
      have hmem := mem_of_find?_eq_some hcont
      have hfound : findEnabledControllerByEndpointId controllers cont.endpointId ≠ none := by
        rw [findEnabledControllerByEndpointId, ne_eq, find?_eq_none]
        intro hnone
        exact hnone cont hmem (by simpa using henable)
      rw [getSubsRetryParams, ne_eq, Option.map_eq_none_iff]
      exact hfound

/-- What a turn that sends a message does to the vector. -/
structure Sending (H : Host) (kind : MessageKind) (asked : Option Notification) (s s' : State) :
    Prop where
  count : s'.messageCount = (countMessage s kind).messageCount
  turn : s'.turn = s.turn
  keeps : asked = none → s'.subsRetry = s.subsRetry
  adds : ∀ n, asked = some n → n.msgId = messageId H s kind ∧
    ∃ sr, sr.notification = n ∧ s'.subsRetry = replaceRetryEntry sr s.subsRetry

theorem subsRetryAdd_enabled {n : Notification}
    (h : getSubsRetryParams s.controllers n.destEndpoint ≠ none) :
    (∃ sr, sr.notification = n ∧ (subsRetryAdd H n s).subsRetry = replaceRetryEntry sr s.subsRetry) ∧
      (subsRetryAdd H n s).messageCount = s.messageCount ∧ (subsRetryAdd H n s).turn = s.turn := by
  unfold subsRetryAdd
  rw [if_neg fun hnone => h hnone.1]
  exact ⟨⟨_, rfl, rfl⟩, rfl, rfl⟩

theorem notify_sending (sub : Subs) (path : Str) (content : NotifyContent) :
    Sending H (.subs sub.notifyType) (sent H s (.notify sub path content)) s
      (notify H sub path content s) := by
  unfold SubsRetry.notify sendNotify
  simp only [sent, countMessage_controllers]
  cases hdest : findEndpointIdByInstance s.controllers sub.contInstance with
  | none => exact ⟨rfl, rfl, fun _ => rfl, by simp⟩
  | some dest =>
    by_cases hretry : sub.notificationRetry = true
    · simp only [hretry, if_true, Option.map_some]
      obtain ⟨hvector, hcount, hturn⟩ := subsRetryAdd_enabled (H := H)
        (n := ⟨sub.inst, _, sub.subscriptionId, dest, path, _, _⟩)
        (s := { countMessage s (.subs sub.notifyType) with queued := _ })
        (getSubsRetryParams_ne_none hdest)
      refine ⟨hcount, hturn, nofun, ?_⟩
      rintro n ⟨⟩
      exact ⟨rfl, hvector⟩
    · simp only [hretry, if_false, Bool.false_eq_true]
      exact ⟨rfl, rfl, fun _ => rfl, nofun⟩

theorem onBoardRequest_sending (contInstance : Nat) (content : NotifyContent) :
    Sending H .onBoardRequest (sent H s (.onBoardRequest contInstance content)) s
      (onBoardRequest H contInstance content s) := by
  unfold onBoardRequest sendOnBoardRequestNotify
  simp only [sent, countMessage_controllers]
  cases hdest : findEndpointIdByInstance s.controllers contInstance with
  | none => exact ⟨rfl, rfl, fun _ => rfl, by simp⟩
  | some dest =>
    simp only [Option.map_some]
    obtain ⟨hvector, hcount, hturn⟩ := subsRetryAdd_enabled (H := H)
      (n := ⟨onBoardRequestSubsInstance, _, [], dest, [], _, _⟩)
      (s := { countMessage s .onBoardRequest with queued := _ })
      (getSubsRetryParams_ne_none hdest)
    refine ⟨hcount, hturn, nofun, ?_⟩
    rintro n ⟨⟩
    exact ⟨rfl, hvector⟩

theorem mem_waiting {n : Notification} :
    n ∈ waiting s ↔ ∃ sr ∈ s.subsRetry, sr.notification = n :=
  mem_map

/-- Entries that were there before stay counted. -/
theorem VectorOk.sublist (hok : VectorOk H s)
    (hsub : (waiting s').Sublist (waiting s)) (hcount : s'.messageCount = s.messageCount)
    (hturn : s.turn ≤ s'.turn) : VectorOk H s' where
  keys := by
    have hkeys := hok.keys
    have hmap : ∀ s : State, s.subsRetry.map retryKey =
        (waiting s).map fun n => (n.inst, n.differentiator) := fun s => by
      rw [waiting, map_map]
      rfl
    rw [hmap] at hkeys ⊢
    exact hkeys.sublist (hsub.map _)
  ids := by
    have hids := hok.ids
    have hmap : ∀ s : State, (s.subsRetry.map fun sr => sr.notification.msgId) =
        (waiting s).map Notification.msgId := fun s => by
      rw [waiting, map_map]
      rfl
    rw [hmap] at hids ⊢
    exact hids.sublist (hsub.map _)
  counted sr hsr := by
    obtain ⟨old, hold, heq⟩ := mem_waiting.mp (hsub.subset (mem_map_of_mem hsr))
    rw [hcount, ← heq]
    exact hok.counted old hold
  bounded kind := by
    rw [hcount]
    exact (hok.bounded kind).trans hturn

/-- A turn that sends a message adds it, and ends what it supersedes. -/
theorem Sending.waiting {kind : MessageKind} {asked : Option Notification}
    (hiso : ∀ turn, (H.isoTime turn).length = 20) (hok : VectorOk H s)
    (hturn : s.turn + 1 < 2 ^ 32) (h : Sending H kind asked s s') :
    VectorOk H { s' with turn := s'.turn + 1 } ∧ ∀ n, n ∈ waiting s' ↔
      asked = some n ∨ n ∈ waiting s ∧ ¬ ∃ m, asked = some m ∧ supersedes m n := by
  have hbounded : ∀ k, s'.messageCount k ≤ s'.turn + 1 := fun k => by
    have := hok.bounded k
    rw [h.count, h.turn, countMessage]
    simp only
    split <;> omega
  have hgrown : ∀ k, s.messageCount k ≤ s'.messageCount k := fun k => by
    rw [h.count, countMessage]
    simp only
    split <;> omega
  cases hasked : asked with
  | none =>
    have hsame := h.keeps hasked
    refine ⟨⟨?_, ?_, fun sr hsr => ?_, hbounded⟩, fun n => ?_⟩
    · exact hsame ▸ hok.keys
    · exact hsame ▸ hok.ids
    · obtain ⟨k, turn, count, hid, hcount⟩ := hok.counted sr (hsame ▸ hsr)
      exact ⟨k, turn, count, hid, hcount.trans (hgrown k)⟩
    · rw [RetryRuns.waiting, hsame]
      simp [RetryRuns.waiting]
  | some m =>
    obtain ⟨hid, sr, rfl, hvector⟩ := h.adds m hasked
    have hfresh : ∀ x ∈ s.subsRetry, x.notification.msgId ≠ sr.notification.msgId :=
      fun x hx => hid ▸ fresh_messageId hiso hok hturn kind hx
    have hmem : ∀ {x}, x ∈ s'.subsRetry ↔ x = sr ∨ x ∈ s.subsRetry ∧ retryKey x ≠ retryKey sr := by
      intro x
      rw [hvector]
      exact mem_replaceRetryEntry hok.keys
    refine ⟨⟨?_, ?_, fun x hx => ?_, hbounded⟩, fun n => ?_⟩
    · show (s'.subsRetry.map retryKey).Nodup
      rw [hvector]
      exact nodup_replaceRetryEntry hok.keys (fun _ _ heq => heq) hok.keys
    · show (s'.subsRetry.map fun sr => sr.notification.msgId).Nodup
      rw [hvector]
      exact nodup_replaceRetryEntry hok.ids (fun x hx heq => absurd heq (hfresh x hx)) hok.keys
    · rcases hmem.mp hx with rfl | ⟨hx, -⟩
      · refine ⟨kind, s.turn, s.messageCount kind + 1, hid.trans (messageId_eq hiso kind), ?_⟩
        show s.messageCount kind + 1 ≤ s'.messageCount kind
        rw [h.count, countMessage]
        simp
      · obtain ⟨k, turn, count, hid, hcount⟩ := hok.counted x hx
        exact ⟨k, turn, count, hid, hcount.trans (hgrown k)⟩
    · rw [mem_waiting]
      constructor
      · rintro ⟨x, hx, rfl⟩
        rcases hmem.mp hx with rfl | ⟨hx, hne⟩
        · exact .inl rfl
        · refine .inr ⟨mem_map_of_mem hx, ?_⟩
          rintro ⟨m, ⟨⟩, hinst, hdiff⟩
          exact hne (Prod.ext hinst.symm hdiff.symm)
      · rintro (heq | ⟨hn, hends⟩)
        · cases heq
          exact ⟨sr, hmem.mpr (.inl rfl), rfl⟩
        · obtain ⟨x, hx, rfl⟩ := mem_waiting.mp hn
          refine ⟨x, hmem.mpr (.inr ⟨hx, fun heq => hends ⟨_, rfl, ?_⟩⟩), rfl⟩
          exact ⟨congrArg Prod.fst heq.symm, congrArg Prod.snd heq.symm⟩

/-- What the timer leaves. -/
theorem subsRetryExec_waiting (hok : VectorOk H s) (h : subsRetryExec H s = some s') :
    (waiting s').Sublist (waiting s) ∧ s'.messageCount = s.messageCount ∧ s'.turn = s.turn ∧
      ∀ n, n ∈ waiting s' ↔ n ∈ waiting s ∧ ¬ GivenUp H s n := by
  rw [subsRetryExec] at h
  dsimp only at h
  split at h
  · cases h
  cases h
  refine ⟨zipped_sublist (fun _ _ hleft => retryEntry_notification hleft) _ _, rfl, rfl,
    fun n => ?_⟩
  rw [mem_waiting]
  simp only [updateFirstRetryTime, mem_filterMap, Prod.exists]
  constructor
  · rintro ⟨left, ⟨sr, call, hmem, hleft⟩, rfl⟩
    rw [retryEntry_notification hleft]
    have hsr := mem_of_zipped hmem
    refine ⟨mem_map_of_mem hsr, ?_⟩
    rintro ⟨sr', call', hmem', heq, hover⟩
    obtain ⟨rfl, rfl⟩ := zipped_unique hok.ids hmem' hmem (congrArg Notification.msgId heq)
    exact retryEntry_isSome_iff.mp ⟨left, hleft⟩ hover
  · rintro ⟨hn, hgiven⟩
    obtain ⟨sr, hsr, rfl⟩ := mem_waiting.mp hn
    obtain ⟨call, hmem⟩ := exists_zipped (k := 1) hsr
    obtain ⟨left, hleft⟩ := retryEntry_isSome_iff.mpr fun hover =>
      hgiven ⟨sr, call, hmem, rfl, hover⟩
    exact ⟨left, ⟨sr, call, hmem, hleft⟩, retryEntry_notification hleft⟩

theorem subsRetryRemove_waiting (hok : VectorOk H s) (msgId : Str) :
    (waiting (subsRetryRemove msgId s)).Sublist (waiting s) ∧
      ∀ n, n ∈ waiting (subsRetryRemove msgId s) ↔ n ∈ waiting s ∧ msgId ≠ n.msgId := by
  unfold subsRetryRemove
  split
  · refine ⟨(eraseP_sublist).map _, fun n => ?_⟩
    simp only [mem_waiting, updateFirstRetryTime, mem_eraseP_of_nodup hok.ids]
    constructor
    · rintro ⟨sr, ⟨hsr, hne⟩, rfl⟩
      exact ⟨⟨sr, hsr, rfl⟩, fun heq => hne heq.symm⟩
    · rintro ⟨⟨sr, hsr, rfl⟩, hne⟩
      exact ⟨sr, ⟨hsr, fun heq => hne heq.symm⟩, rfl⟩
  · rename_i hnone
    refine ⟨List.Sublist.refl _, fun n => ⟨fun hn => ⟨hn, ?_⟩, And.left⟩⟩
    rintro rfl
    obtain ⟨sr, hsr, rfl⟩ := mem_waiting.mp hn
    exact hnone (List.any_eq_true.mpr ⟨sr, hsr, decide_eq_true rfl⟩)

theorem subsRetryDelete_waiting (inst : Nat) :
    (waiting (subsRetryDelete inst s)).Sublist (waiting s) ∧
      ∀ n, n ∈ waiting (subsRetryDelete inst s) ↔ n ∈ waiting s ∧ inst ≠ n.inst := by
  refine ⟨(filter_sublist).map _, fun n => ?_⟩
  simp only [mem_waiting, subsRetryDelete, updateFirstRetryTime, mem_filter, ne_eq,
    decide_not, Bool.not_eq_eq_eq_not, Bool.not_true, decide_eq_false_iff_not]
  constructor
  · rintro ⟨sr, ⟨hsr, hne⟩, rfl⟩
    exact ⟨⟨sr, hsr, rfl⟩, fun heq => hne heq.symm⟩
  · rintro ⟨⟨sr, hsr, rfl⟩, hne⟩
    exact ⟨sr, ⟨hsr, fun heq => hne heq.symm⟩, rfl⟩

/-- What waits after a turn is what is sent in it and what waited and is not ended. -/
theorem runStep_waiting (hiso : ∀ turn, (H.isoTime turn).length = 20) (hok : VectorOk H s)
    (hturn : s.turn + 1 < 2 ^ 32) {step : RetryStep} (h : runStep H step s = some s') :
    (VectorOk H s' ∧ s'.turn = s.turn + 1) ∧ ∀ n, n ∈ waiting s' ↔
      sent H s step = some n ∨ n ∈ waiting s ∧ ¬ Ends H s n step := by
  obtain ⟨s₁, hs₁, rfl⟩ := Option.map_eq_some_iff.mp h
  have hkept : ∀ {c : Notification → Prop}, (waiting s₁).Sublist (waiting s) →
      s₁.messageCount = s.messageCount → s₁.turn = s.turn →
      (∀ n, n ∈ waiting s₁ ↔ n ∈ waiting s ∧ c n) →
      (VectorOk H { s₁ with turn := s₁.turn + 1 } ∧ s₁.turn + 1 = s.turn + 1) ∧
        ∀ n, n ∈ waiting s₁ ↔ none = some n ∨ n ∈ waiting s ∧ c n := by
    intro c hsub hcount hsame hmem
    refine ⟨⟨hok.sublist hsub hcount (by simp only; omega), by omega⟩, fun n => ?_⟩
    rw [hmem]
    simp
  cases step with
  | notify sub path content =>
    cases hs₁
    have hsending := notify_sending (H := H) (s := s) sub path content
    obtain ⟨hok', hmem⟩ := hsending.waiting hiso hok hturn
    exact ⟨⟨hok', congrArg (· + 1) hsending.turn⟩, hmem⟩
  | onBoardRequest contInstance content =>
    cases hs₁
    have hsending := onBoardRequest_sending (H := H) (s := s) contInstance content
    obtain ⟨hok', hmem⟩ := hsending.waiting hiso hok hturn
    exact ⟨⟨hok', congrArg (· + 1) hsending.turn⟩, hmem⟩
  | response msgId subscriptionId =>
    cases hs₁
    obtain ⟨hsub, hmem⟩ := subsRetryRemove_waiting hok msgId
    refine hkept hsub ?_ ?_ hmem
    · unfold subsRetryRemove
      split <;> rfl
    · unfold subsRetryRemove
      split <;> rfl
  | subsDeleted inst =>
    cases hs₁
    obtain ⟨hsub, hmem⟩ := subsRetryDelete_waiting (s := s) inst
    exact hkept hsub rfl rfl hmem
  | timer =>
    obtain ⟨hsub, hcount, hsame, hmem⟩ := subsRetryExec_waiting hok hs₁
    exact hkept hsub hcount hsame hmem
  | configure controllers =>
    cases hs₁
    refine hkept (List.Sublist.refl _) rfl rfl fun n => ?_
    simp [Ends, sent, waiting]

end Turn

/-! ## Runs -/

/-- `n` was sent in a turn of the run, and no later turn ends it. -/
def Outstanding (H : Host) (controllers : List (Option Controller)) (steps : List RetryStep)
    (n : Notification) : Prop :=
  Since (runStep H) (fun s step => sent H s step = some n) (fun s step => Ends H s n step)
    (initialState controllers) steps

theorem run_outstanding {H : Host} (hiso : ∀ turn, (H.isoTime turn).length = 20)
    (controllers : List (Option Controller)) :
    ∀ steps s, run (runStep H) steps (initialState controllers) = some s →
      steps.length < 2 ^ 32 → (VectorOk H s ∧ s.turn = steps.length) ∧
        ∀ n, n ∈ waiting s ↔ Outstanding H controllers steps n := by
  refine run_induction (fun _ => ?_) fun steps s step s' hs ih hstep hlen => ?_
  · refine ⟨⟨initialState_ok H controllers, rfl⟩, fun n => ⟨nofun, fun h => ?_⟩⟩
    exact absurd h not_since_nil
  · rw [length_append, length_singleton] at hlen
    obtain ⟨⟨hok, hturn⟩, hmem⟩ := ih (by omega)
    obtain ⟨⟨hok', hturn'⟩, hmem'⟩ := runStep_waiting hiso hok (by omega) hstep
    refine ⟨⟨hok', ?_⟩, fun n => ?_⟩
    · rw [hturn', hturn, length_append, length_singleton]
    · rw [hmem', hmem, Outstanding, Outstanding, since_snoc hs]

/-- The retry vector holds what was sent and has not been ended: by a response
with its message id, by the deletion of its subscription, by the timer, or by a
later notification of the same subscription about the same path. -/
theorem outstanding_iff (H : Host) (hiso : ∀ turn, (H.isoTime turn).length = 20)
    (controllers : List (Option Controller)) (steps : List RetryStep)
    (hlen : steps.length < 2 ^ 32) (s : State)
    (hrun : run (runStep H) steps (initialState controllers) = some s) (n : Notification) :
    n ∈ waiting s ↔ Outstanding H controllers steps n :=
  (run_outstanding hiso controllers steps s hrun hlen).2 n

/-- The clock stands still, and every retry is five seconds away. -/
def stillHost : Host :=
  ⟨fun _ _ => 0, fun _ => "2024-01-01T00:00:00Z".toList, fun _ _ _ _ _ => 5, fun _ => (0, 0)⟩

def oneController : List (Option Controller) :=
  [some ⟨1, true, "self::controller".toList, 5, 2000⟩]

def eventSubs : Subs := ⟨1, 1, "events".toList, true, .event, 0⟩

/-- The event that is notified for the `count`-th time. -/
def bootNotification (count : Nat) : Notification :=
  let msgId := idText (.subs .event) (stillHost.isoTime 0) count
  ⟨1, msgId, "events".toList, "self::controller".toList, "Device.Boot!".toList,
    ⟨msgId, "events".toList, true, .event "Device.Boot!".toList []⟩, endOfTime⟩

def bootEvent : RetryStep :=
  .notify eventSubs "Device.Boot!".toList (.event "Device.Boot!".toList [])

theorem outstanding_iff_acknowledged :
    let steps := [bootEvent, .response (bootNotification 1).msgId [], bootEvent]
    let s := (run (runStep stillHost) steps (initialState oneController)).getD (initialState [])
    bootNotification 2 ∈ waiting s ↔
      Outstanding stillHost oneController steps (bootNotification 2) :=
  outstanding_iff stillHost (fun _ => rfl) oneController _ (by decide) _ rfl _

/-- The second notification of an event takes the place of the first, which
nobody has acknowledged and which never expires. -/
theorem second_event_replaces_first :
    (run (runStep stillHost) [bootEvent] (initialState oneController)).map waiting =
        some [bootNotification 1] ∧
      (run (runStep stillHost) [bootEvent, bootEvent] (initialState oneController)).map waiting =
        some [bootNotification 2] ∧
      (bootNotification 1).msgId ≠ (bootNotification 2).msgId ∧
      (bootNotification 1).retryExpiryTime = endOfTime ∧ eventSubs.notifyType = .event := by
  decide +kernel

end RetryRuns
