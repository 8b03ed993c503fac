import SdtTr369.BulkDataRuns

/-!
# Retained reports

A slot keeps the reports of its profile in the order of their collection, and never more
than its array holds. A step may discard the oldest of them, and for each step it is said
why it may. The message about a transfer bears no more than the number of the profile, so
that a success discards what has been collected since the document was handed over.
-/

namespace BulkDataReports

open BulkData BdcExec BulkDataRuns RunHistory List Option

/-! ## The reports of one slot -/

/-- The `m` oldest reports go, and at most one is appended, whose serial number is above
`n` and at most `n'`. -/
def ReportsMove (n n' m : Nat) (before after : List Report) : Prop :=
  after = before.drop m ∨ ∃ r, after = before.drop m ++ [r] ∧
    (before.drop m).length ≤ maxRetainedFailedReports ∧ n < r.serial ∧ r.serial ≤ n'

/-- The reports of a slot, of which the last has a serial number of at most `n`. -/
structure Collected (n : Nat) (reports : List Report) : Prop where
  bound : reports.length ≤ maxRetainedFailedReports + 1
  ordered : reports.Pairwise (·.serial < ·.serial)
  serials : ∀ r ∈ reports, r.serial ≤ n

variable {n n' m : Nat} {before after : List Report} {r : Report}

theorem ReportsMove.refl (n n' : Nat) (reports : List Report) :
    ReportsMove n n' 0 reports reports := .inl rfl

theorem ReportsMove.clear (n n' : Nat) (reports : List Report) :
    ReportsMove n n' reports.length reports [] := .inl List.drop_length.symm

theorem ReportsMove.mem (h : ReportsMove n n' m before after) (hr : r ∈ after) :
    r ∈ before ∨ n < r.serial := by
  rcases h with rfl | ⟨r', rfl, -, hn, -⟩
  · exact .inl (mem_of_mem_drop hr)
  · rcases List.mem_append.mp hr with hr | hr
    · exact .inl (mem_of_mem_drop hr)
    · cases List.mem_singleton.mp hr
      exact .inr hn

/-- A report that is lost is one of the oldest. -/
theorem ReportsMove.lost (h : ReportsMove n n' m before after) (hr : r ∈ before)
    (hlost : r ∉ after) : r ∈ before.take m := by
  rw [← take_append_drop m before, mem_append] at hr
  apply hr.resolve_right
  intro hdrop
  rcases h with rfl | ⟨r', rfl, -⟩
  · exact hlost hdrop
  · exact hlost (mem_append_left _ hdrop)

theorem Collected.nil (n : Nat) : Collected n [] :=
  ⟨by simp, List.Pairwise.nil, by simp⟩

theorem Collected.move (hle : n ≤ n') (h : Collected n before)
    (hmove : ReportsMove n n' m before after) : Collected n' after := by
  have hkept : Collected n' (before.drop m) := by
    refine ⟨?_, h.ordered.sublist (drop_sublist ..), fun r hr => ?_⟩
    · exact (drop_sublist ..).length_le.trans h.bound
    · exact (h.serials r (mem_of_mem_drop hr)).trans hle
  rcases hmove with rfl | ⟨r, rfl, hlen, hlow, hhigh⟩
  · exact hkept
  · refine ⟨by simpa using hlen, List.pairwise_append.mpr ⟨hkept.ordered, by simp, ?_⟩, ?_⟩
    · intro r' hr' r'' hr''
      cases List.mem_singleton.mp hr''
      exact (h.serials r' (mem_of_mem_drop hr')).trans_lt hlow
    · intro r' hr'
      rcases List.mem_append.mp hr' with hr' | hr'
      · exact hkept.serials r' hr'
      · cases List.mem_singleton.mp hr'
        exact hhigh

/-! ## What a firing does to the reports -/

variable {A : Answers} {globalEnable : Bool} {serial : Nat} {s : Serviced} {bp : Profile}
  {ctrl : ProfileCtrlParams} {doc : Document}

theorem numRetained_le (l : RetainedFailedReports) : numRetained l ≤ maxRetainedFailedReports := by
  have hhigh := l.property.2
  unfold numRetained
  split <;> omega

/-- The reports that exceed the limit of the profile when a new one is appended. -/
def excess (ctrl : ProfileCtrlParams) (bp : Profile) : Nat :=
  bp.reports.length - numRetained ctrl.numRetainedFailedReports

theorem appendReport_profile (ctrl : ProfileCtrlParams) (serial : Nat) (bp : Profile) :
    (appendReport A ctrl serial bp).2.profileId = bp.profileId ∧
      (appendReport A ctrl serial bp).2.isEnabled = bp.isEnabled := by
  simp only [appendReport, dropOldestRetainedReports]
  split
  · exact ⟨rfl, rfl⟩
  · cases A.reportMap <;> simp only <;> split <;> exact ⟨rfl, rfl⟩

theorem appendReport_move (ctrl : ProfileCtrlParams) (bp : Profile) (hlow : n < serial)
    (hhigh : serial ≤ n') :
    ∃ m, ReportsMove n n' m bp.reports (appendReport A ctrl serial bp).2.reports ∧
      m ≤ excess ctrl bp := by
  have hkeep := numRetained_le ctrl.numRetainedFailedReports
  unfold appendReport
  split
  · exact ⟨0, ReportsMove.refl .., Nat.zero_le _⟩
  · refine ⟨excess ctrl bp, ?_, le_rfl⟩
    have hdrop : (if numRetained ctrl.numRetainedFailedReports < bp.reports.length then
        dropOldestRetainedReports bp (numRetained ctrl.numRetainedFailedReports)
        else bp).reports = bp.reports.drop (excess ctrl bp) := by
      split
      · rfl
      · have hzero : excess ctrl bp = 0 := by
          unfold excess
          omega
        rw [hzero, drop_zero]
    cases A.reportMap with
    | none => exact .inl hdrop
    | some map =>
      refine .inr ⟨⟨serial, A.now, map⟩, by simp only [hdrop], ?_, hlow, hhigh⟩
      simp only [length_drop, excess]
      omega

/-- The document is made of what the slot has retained. -/
structure MadeOf (serial : Nat) (bp : Profile) (doc : Document) : Prop where
  serial : doc.serial = serial
  profileId : doc.profileId = bp.profileId
  reports : doc.reports = bp.reports

theorem scheduleSendingHttpReport_some (h : scheduleSendingHttpReport A ctrl serial bp = some doc) :
    MadeOf serial bp doc := by
  unfold scheduleSendingHttpReport at h
  split at h
  · cases h
  · split at h
    · cases h
    · split at h
      · cases h
        exact ⟨rfl, rfl, rfl⟩
      · cases h

/-- What `bulkdata_process_profile` may leave of a slot, with the document that it has
handed over. -/
structure Processed (A : Answers) (n n' serial : Nat) (bp bp' : Profile) (docs : Option Document) :
    Prop where
  profileId : bp'.profileId = bp.profileId
  isEnabled : bp'.isEnabled = bp.isEnabled
  move : ∃ m, ReportsMove n n' m bp.reports bp'.reports ∧
    (m = 0 ∨ A.protocol = some .uspEvent ∨
      ∃ ctrl, A.protocol = some .http ∧ A.ctrlParams = some ctrl ∧ m ≤ excess ctrl bp)
  document : ∀ doc ∈ docs, A.protocol = some .http ∧ MadeOf serial bp' doc

theorem processProfileHttp_processed (hproto : A.protocol = some .http) (hlow : n < serial)
    (hhigh : serial ≤ n') :
    Processed A n n' serial s.profile (processProfileHttp A globalEnable serial s).1.profile
      (processProfileHttp A globalEnable serial s).2 := by
  unfold processProfileHttp
  split
  · exact ⟨rfl, rfl, ⟨0, ReportsMove.refl .., .inl rfl⟩, by simp⟩
  · next ctrl hctrl =>
    obtain ⟨hid, henabled⟩ := appendReport_profile (A := A) ctrl serial s.profile
    obtain ⟨m, hmove, hm⟩ := appendReport_move (A := A) ctrl s.profile hlow hhigh
    have hreason : m = 0 ∨ A.protocol = some .uspEvent ∨ ∃ ctrl, A.protocol = some .http ∧
        A.ctrlParams = some ctrl ∧ m ≤ excess ctrl s.profile :=
      .inr (.inr ⟨ctrl, hproto, hctrl, hm⟩)
    split
    · next bp happ =>
      simp only [happ] at hid henabled hmove
      exact ⟨hid, henabled, ⟨m, hmove, hreason⟩, by simp⟩
    · next bp happ =>
      simp only [happ] at hid henabled hmove
      split
      · exact ⟨hid, henabled, ⟨m, hmove, hreason⟩, by simp⟩
      · split
        · next doc hdoc =>
          refine ⟨hid, henabled, ⟨m, hmove, hreason⟩, fun doc' hdoc' => ?_⟩
          cases hdoc'
          exact ⟨hproto, scheduleSendingHttpReport_some hdoc⟩
        · refine ⟨?_, ?_, ⟨m, ?_, hreason⟩, by simp⟩
          all_goals simp [notifyTransferResult, hid, henabled, hmove]

theorem processProfileUspEvent_processed (hproto : A.protocol = some .uspEvent) (hlow : n < serial)
    (hhigh : serial ≤ n') :
    Processed A n n' serial s.profile (processProfileUspEvent A globalEnable serial s).profile none := by
  have hclear : ReportsMove n n' s.profile.reports.length s.profile.reports [] := .clear ..
  unfold processProfileUspEvent
  split
  · exact ⟨by simp, by simp, ⟨0, by simp [ReportsMove.refl], .inl rfl⟩, by simp⟩
  · split
    · exact ⟨rfl, rfl, ⟨0, ReportsMove.refl .., .inl rfl⟩, by simp⟩
    · split
      · exact ⟨rfl, rfl, ⟨_, hclear, .inr (.inl hproto)⟩, by simp⟩
      · next map _ =>
        split
        · refine ⟨rfl, rfl, ⟨s.profile.reports.length, .inr ⟨⟨serial, A.now, map⟩, ?_⟩,
            .inr (.inl hproto)⟩, by simp⟩
          simp [hlow, hhigh]
        · refine ⟨by simp [clearRetainedReports], by simp [clearRetainedReports],
            ⟨s.profile.reports.length, ?_, .inr (.inl hproto)⟩, by simp⟩
          rw [resyncProfile_reports]
          exact hclear

theorem processProfile_processed (globalEnable : Bool) (s : Serviced) (hlow : n < serial)
    (hhigh : serial ≤ n') :
    Processed A n n' serial s.profile (processProfile A globalEnable serial s).1.profile
      (processProfile A globalEnable serial s).2 := by
  unfold processProfile
  split
  · exact ⟨rfl, rfl, ⟨0, ReportsMove.refl .., .inl rfl⟩, by simp⟩
  · next hproto => exact processProfileHttp_processed hproto hlow hhigh
  · next hproto => exact processProfileUspEvent_processed hproto hlow hhigh

/-! ## What a step does to the reports -/

variable {b b' : Bulk} {op : Op} {k : Nat} {bp' : Profile}

/-- Why a step discards the `m` oldest reports of a slot. -/
def Cause (b : Bulk) (bp : Profile) (m : Nat) : Op → Prop
  | .deleted instance_ => bp.profileId = instance_
  | .changeGlobalEnable _ value => value = false
  | .changeProfileEnable _ instance_ value => bp.profileId = instance_ ∧ value = false
  | .fire A id => bp.profileId = id ∧ (A.protocol = some .uspEvent ∨
      ∃ ctrl, A.protocol = some .http ∧ A.ctrlParams = some ctrl ∧ m ≤ excess ctrl bp)
  | .result _ => ∃ doc, (doc, true) ∈ b.results.head? ∧ doc.profileId = bp.profileId
  | _ => False

/-- What a step does to a slot, unless it fills it. -/
structure SlotStep (b : Bulk) (n' : Nat) (bp bp' : Profile) (op : Op) : Prop where
  profileId : bp'.profileId = bp.profileId ∨
    op = .deleted bp.profileId ∧ bp'.profileId = invalid
  move : ∃ m, ReportsMove b.fired n' m bp.reports bp'.reports ∧ (m = 0 ∨ Cause b bp m op)

/-- A free slot is filled with the profile of a new instance. -/
structure Filled (b : Bulk) (k : Nat) (bp bp' : Profile) : Prop where
  free : findFreeProfile b.profiles = some k
  profileId : bp.profileId = invalid
  reports : bp'.reports = []
  fresh : 0 < bp'.profileId → ∀ bq ∈ b.profiles, bq.profileId ≠ bp'.profileId

theorem SlotStep.refl (b : Bulk) (n' : Nat) (bp : Profile) (op : Op) : SlotStep b n' bp bp op :=
  ⟨.inl rfl, 0, ReportsMove.refl .., .inl rfl⟩

/-- Work on the slot that has been found keeps all others as they are. -/
theorem service_slot {id : Int} {f : Serviced → Serviced} {P : Profile → Profile → Prop}
    (hrefl : P bp bp)
    (hf : findProfile id b.profiles = some k → bp.profileId = id → P bp (f ⟨bp, b.timers⟩).profile)
    (hk : b.profiles[k]? = some bp) :
    ∃ bp', (b.service (findProfile id b.profiles) f).profiles[k]? = some bp' ∧ P bp bp' := by
  rcases service_found b id f with ⟨-, hsame⟩ | ⟨j, bq, hj, hjq, hid, hset⟩
  · exact ⟨bp, by rw [hsame, hk], hrefl⟩
  · rw [hset]
    by_cases hjk : j = k
    · subst hjk
      rw [hk, Option.some.injEq] at hjq
      subst hjq
      have hlt := (List.getElem?_eq_some_iff.mp hk).1
      exact ⟨_, getElem?_set_self hlt, hf hj hid⟩
    · exact ⟨bp, by rw [getElem?_set_ne hjk, hk], hrefl⟩

theorem processBulkDataProfileAdded_profile (A : Answers) (globalEnable : Bool) (instance_ : Int)
    (row : ProfileRow) (timers : List SyncTimer.Timer) :
    (processBulkDataProfileAdded A globalEnable instance_ row timers).profile.reports = [] ∧
      ((processBulkDataProfileAdded A globalEnable instance_ row timers).profile.profileId ≤ 0 ∨
        (processBulkDataProfileAdded A globalEnable instance_ row timers).profile.profileId =
          instance_) := by
  have hload : (loadProfile row clearedProfile).2.reports = [] ∧
      (loadProfile row clearedProfile).2.profileId = 0 := by
    unfold loadProfile
    repeat' split
    all_goals exact ⟨rfl, rfl⟩
  unfold processBulkDataProfileAdded
  split
  · next bp hbp =>
    simp only [hbp] at hload
    exact ⟨hload.1, .inl (Int.le_of_eq hload.2)⟩
  · next bp hbp =>
    simp only [hbp] at hload
    dsimp only
    split
    · split
      · next s' hs' =>
        have hprofile := startProfile_profile (A := A)
          (s := ⟨{ bp with profileId := instance_, isWorking := true }, timers⟩)
        rw [hs'] at hprofile
        exact ⟨by rw [hprofile]; exact hload.1, .inr (by rw [hprofile])⟩
      · next s' hs' =>
        have hprofile := startProfile_profile (A := A)
          (s := ⟨{ bp with profileId := instance_, isWorking := true }, timers⟩)
        rw [hs'] at hprofile
        exact ⟨by rw [hprofile]; exact hload.1, .inl (by simp [invalid])⟩
    · exact ⟨hload.1, .inr rfl⟩

theorem startOrStopAll_slot (A : Answers) (value : Bool) :
    ∀ (profiles : List Profile) (timers : List SyncTimer.Timer) (k : Nat) (bp : Profile),
      profiles[k]? = some bp → ∃ bp', (startOrStopAll A value profiles timers).1[k]? = some bp' ∧
        (bp' = bp ∨ value = false ∧ bp' = clearRetainedReports bp) := by
  intro profiles
  induction profiles with
  | nil => simp
  | cons bq profiles ih =>
    intro timers k bp hk
    unfold startOrStopAll
    split
    · cases k with
      | zero => exact ⟨bp, hk, .inl rfl⟩
      | succ k => exact ih timers k bp hk
    · have hhead : ∀ (ok : Bool) (s : Serviced),
          (if value then startProfile A ⟨bq, timers⟩ else stopProfile ⟨bq, timers⟩) = (ok, s) →
          s.profile = bq ∨ value = false ∧ s.profile = clearRetainedReports bq := by
        intro ok s hs
        have hprofile := congrArg (·.2.profile) hs
        cases value with
        | true => exact .inl (by simpa using hprofile.symm)
        | false => exact .inr ⟨rfl, by simpa using hprofile.symm⟩
      split
      · next s hs =>
        cases k with
        | zero =>
          cases hk
          exact ⟨s.profile, rfl, hhead _ s hs⟩
        | succ k => exact ih s.timers k bp hk
      · next s hs =>
        cases k with
        | zero =>
          cases hk
          exact ⟨s.profile, rfl, hhead _ s hs⟩
        | succ k => exact ⟨bp, hk, .inl rfl⟩

theorem notifyChangeParam_profile (globalEnable : Bool) (s : Serviced) (change : ParamChange) :
    (notifyChangeParam A globalEnable change s).profile.profileId = s.profile.profileId ∧
      (notifyChangeParam A globalEnable change s).profile.isEnabled = s.profile.isEnabled ∧
      (notifyChangeParam A globalEnable change s).profile.reports = s.profile.reports := by
  cases change <;> simp [notifyChangeParam]

theorem notifyChangeProfileEnable_profile (globalEnable : Bool) (s : Serviced) (value : Bool) :
    (notifyChangeProfileEnable A globalEnable value s).profile.profileId = s.profile.profileId ∧
      (notifyChangeProfileEnable A globalEnable value s).profile.isEnabled = value ∧
      ((notifyChangeProfileEnable A globalEnable value s).profile.reports = s.profile.reports ∨
        value = false ∧ (notifyChangeProfileEnable A globalEnable value s).profile.reports = []) := by
  unfold notifyChangeProfileEnable
  split
  · next hsame => exact ⟨rfl, hsame.symm, .inl rfl⟩
  · split
    · exact ⟨rfl, rfl, .inl rfl⟩
    · cases value with
      | true => simp
      | false => simp [clearRetainedReports]

/-- What one step does to a slot. -/
theorem slot_step (h : step op b = some b') (hk : b.profiles[k]? = some bp) :
    ∃ bp', b'.profiles[k]? = some bp' ∧ (SlotStep b b'.fired bp bp' op ∨ Filled b k bp bp') := by
  have hrefl : SlotStep b b'.fired bp bp op ∨ Filled b k bp bp := .inl (SlotStep.refl ..)
  cases op with
  | added A instance_ row =>
    simp only [step, ite_none_left_eq_some, Option.some.injEq, not_or, not_exists,
      not_and] at h
    obtain ⟨⟨-, hnew⟩, rfl⟩ := h
    refine service_slot (P := fun bp bp' => SlotStep b _ bp bp' _ ∨ Filled b k bp bp') hrefl
      (fun hfree hid => .inr ?_) hk
    obtain ⟨hreports, hprofileId⟩ := processBulkDataProfileAdded_profile A b.globalEnable instance_
      row b.timers
    refine ⟨hfree, hid, hreports, fun hpos bq hbq => ?_⟩
    rcases hprofileId with hle | heq
    · exact absurd hpos (Int.not_lt.mpr hle)
    · rw [heq]
      exact hnew bq hbq
  | deleted instance_ =>
    simp only [step, ite_none_left_eq_some, Option.some.injEq] at h
    obtain ⟨-, rfl⟩ := h
    refine service_slot (P := fun bp bp' => SlotStep b _ bp bp' _ ∨ Filled b k bp bp') hrefl
      (fun _ hid => .inl ?_) hk
    refine ⟨.inr ⟨by rw [hid], rfl⟩, ?_⟩
    unfold processBulkDataProfileDeleted
    dsimp only
    split
    · refine ⟨bp.reports.length, ?_, .inr hid⟩
      rw [stopProfile_profile]
      exact ReportsMove.clear ..
    · exact ⟨0, ReportsMove.refl .., .inl rfl⟩
  | changeGlobalEnable A value =>
    simp only [step] at h
    split at h
    · cases h
      exact ⟨bp, hk, hrefl⟩
    · cases h
      obtain ⟨bp', hk', hbp'⟩ := startOrStopAll_slot A value b.profiles b.timers k bp hk
      refine ⟨bp', hk', .inl ?_⟩
      rcases hbp' with rfl | ⟨hvalue, rfl⟩
      · exact SlotStep.refl ..
      · exact ⟨.inl rfl, _, ReportsMove.clear .., .inr hvalue⟩
  | changeProfileEnable A instance_ value =>
    simp only [step, ite_none_left_eq_some, Option.some.injEq] at h
    obtain ⟨-, rfl⟩ := h
    refine service_slot (P := fun bp bp' => SlotStep b _ bp bp' _ ∨ Filled b k bp bp') hrefl
      (fun _ hid => .inl ?_) hk
    obtain ⟨hprofileId, -, hreports⟩ := notifyChangeProfileEnable_profile (A := A) b.globalEnable
      ⟨bp, b.timers⟩ value
    refine ⟨.inl hprofileId, ?_⟩
    rcases hreports with hsame | ⟨hvalue, hclear⟩
    · exact ⟨0, .inl hsame, .inl rfl⟩
    · refine ⟨bp.reports.length, ?_, .inr ⟨hid, hvalue⟩⟩
      rw [hclear]
      exact ReportsMove.clear ..
  | changeParam A instance_ change =>
    simp only [step, ite_none_left_eq_some, Option.some.injEq] at h
    obtain ⟨-, rfl⟩ := h
    refine service_slot (P := fun bp bp' => SlotStep b _ bp bp' _ ∨ Filled b k bp bp') hrefl
      (fun _ hid => .inl ?_) hk
    obtain ⟨hprofileId, -, hreports⟩ := notifyChangeParam_profile (A := A) b.globalEnable
      ⟨bp, b.timers⟩ change
    exact ⟨.inl hprofileId, 0, .inl hreports, .inl rfl⟩
  | fire A id =>
    simp only [step, ite_none_left_eq_some, map_eq_some_iff] at h
    obtain ⟨-, timers, -, rfl⟩ := h
    refine service_slot (b := { b with timers := timers, fired := b.fired + 1 })
      (P := fun bp bp' => SlotStep b _ bp bp' _ ∨ Filled b k bp bp') hrefl
      (fun _ hid => .inl ?_) hk
    have hprocessed := processProfile_processed (A := A) b.globalEnable ⟨bp, timers⟩
      (Nat.lt_succ_self b.fired) (Nat.le_refl (b.fired + 1))
    rw [process_fired]
    refine ⟨.inl hprocessed.profileId, ?_⟩
    obtain ⟨m, hmove, hm⟩ := hprocessed.move
    exact ⟨m, hmove, hm.imp_right fun hreason => ⟨hid, hreason⟩⟩
  | result A =>
    simp only [step] at h
    split at h
    · cases h
    · next doc success results hresults =>
      cases h
      refine service_slot (b := { b with results := results, notified := b.notified ++ [doc] })
        (P := fun bp bp' => SlotStep b _ bp bp' _ ∨ Filled b k bp bp') hrefl
        (fun _ hid => .inl ?_) hk
      refine ⟨.inl (by simp [notifyTransferResult]), ?_⟩
      cases success with
      | true =>
        refine ⟨bp.reports.length, ?_, .inr ⟨doc, by simp [hresults], hid.symm⟩⟩
        simp [notifyTransferResult, ReportsMove.clear]
      | false => exact ⟨0, by simp [notifyTransferResult, ReportsMove.refl], .inl rfl⟩
  | receive R =>
    cases h
    exact ⟨bp, hk, hrefl⟩
  | complete j success sent =>
    obtain ⟨⟨doc, thread⟩, -, rfl⟩ := map_eq_some_iff.mp h
    exact ⟨bp, hk, hrefl⟩

theorem length_step (h : step op b = some b') : b'.profiles.length = b.profiles.length := by
  have hservice : ∀ (b : Bulk) (slot : Option Nat) (f : Serviced → Serviced),
      (b.service slot f).profiles.length = b.profiles.length := by
    intro b slot f
    unfold Bulk.service
    split
    · rfl
    · split
      · rfl
      · exact length_set
  have hall : ∀ (A : Answers) (value : Bool) (profiles : List Profile)
      (timers : List SyncTimer.Timer),
      (startOrStopAll A value profiles timers).1.length = profiles.length := by
    intro A value profiles
    induction profiles with
    | nil => exact fun _ => rfl
    | cons bp profiles ih =>
      intro timers
      unfold startOrStopAll
      split
      · exact congrArg (· + 1) (ih timers)
      · split
        · exact congrArg (· + 1) (ih _)
        · rfl
  cases op <;> simp only [step, ite_none_left_eq_some, Option.some.injEq,
    map_eq_some_iff] at h
  case changeGlobalEnable A value =>
    split at h
    · cases h
      rfl
    · cases h
      exact hall ..
  case result A =>
    split at h
    · cases h
    · cases h
      exact hservice ..
  case fire A id =>
    obtain ⟨-, timers, -, rfl⟩ := h
    exact hservice ..
  case receive R =>
    cases h
    rfl
  case complete j success sent =>
    obtain ⟨⟨doc, thread⟩, -, rfl⟩ := h
    rfl
  all_goals
    obtain ⟨-, rfl⟩ := h
    exact hservice ..

/-- A slot after a step comes from the same slot before. -/
theorem slot_from (h : step op b = some b') (hk : b'.profiles[k]? = some bp') :
    ∃ bp, b.profiles[k]? = some bp ∧ (SlotStep b b'.fired bp bp' op ∨ Filled b k bp bp') := by
  have hlt : k < b.profiles.length := by
    rw [← length_step h]
    exact (List.getElem?_eq_some_iff.mp hk).1
  obtain ⟨bp'', hk'', hslot⟩ := slot_step h (getElem?_eq_getElem hlt)
  rw [hk, Option.some.injEq] at hk''
  exact ⟨b.profiles[k], getElem?_eq_getElem hlt, hk'' ▸ hslot⟩

/-! ## What holds in every run -/

/-- A document that was handed over holds what its profile has retained of the time before. -/
structure Recorded (fired : Nat) (profiles : List Profile) (doc : Document) : Prop where
  profileId : 0 < doc.profileId
  serial : doc.serial ≤ fired
  older : ∀ r ∈ doc.reports, r.serial ≤ doc.serial
  retained : ∀ bp ∈ profiles, bp.profileId = doc.profileId →
    ∀ r ∈ bp.reports, r.serial ≤ doc.serial → r ∈ doc.reports

structure Sound (b : Bulk) : Prop where
  distinct : ∀ (j k : Nat) (bp bq : Profile), b.profiles[j]? = some bp → b.profiles[k]? = some bq →
    0 < bp.profileId → bp.profileId = bq.profileId → j = k
  collected : ∀ bp ∈ b.profiles, Collected b.fired bp.reports
  recorded : ∀ doc ∈ b.posted, Recorded b.fired b.profiles doc
  outstanding : b.outstanding ⊆ b.posted
  succeeded : b.succeeded ⊆ b.posted

theorem sound_init (globalEnable : Bool) : Sound (Bulk.init globalEnable) := by
  have hfree : ∀ bp ∈ (Bulk.init globalEnable).profiles,
      bp = { clearedProfile with profileId := invalid } := fun bp hbp => eq_of_mem_replicate hbp
  refine ⟨?_, fun bp hbp => ?_, ?_, ?_, ?_⟩
  · intro j k bp bq hj _ hpos
    rw [hfree bp (mem_of_getElem? hj)] at hpos
    exact absurd hpos (by decide)
  · rw [hfree bp hbp]
    exact Collected.nil _
  · intro doc hdoc
    cases hdoc
  · exact nil_subset _
  · exact nil_subset _

theorem fired_step (h : step op b = some b') : b.fired ≤ b'.fired := by
  cases op <;> simp only [step, ite_none_left_eq_some, Option.some.injEq,
    map_eq_some_iff] at h
  case changeGlobalEnable A value =>
    split at h <;> cases h <;> exact le_rfl
  case result A =>
    split at h
    · cases h
    · cases h
      simp
  case fire A id =>
    obtain ⟨-, timers, -, rfl⟩ := h
    simp
  case receive R =>
    cases h
    exact le_rfl
  case complete j success sent =>
    obtain ⟨⟨doc, thread⟩, -, rfl⟩ := h
    exact le_rfl
  all_goals
    obtain ⟨-, rfl⟩ := h
    simp

theorem distinct_step (h : step op b = some b') (hsound : Sound b) :
    ∀ (j k : Nat) (bp bq : Profile), b'.profiles[j]? = some bp → b'.profiles[k]? = some bq →
      0 < bp.profileId → bp.profileId = bq.profileId → j = k := by
  intro j k bp' bq' hj' hk' hpos hsame
  obtain ⟨bp, hj, hbp⟩ := slot_from h hj'
  obtain ⟨bq, hk, hbq⟩ := slot_from h hk'
  have hkept : ∀ {bp bp' : Profile}, SlotStep b b'.fired bp bp' op → 0 < bp'.profileId →
      bp'.profileId = bp.profileId := by
    intro bp bp' hstep hpos
    rcases hstep.profileId with hid | ⟨-, hinvalid⟩
    · exact hid
    · rw [hinvalid] at hpos
      exact absurd hpos (by decide)
  rcases hbp with hbp | hbp <;> rcases hbq with hbq | hbq
  · have hid := hkept hbp hpos
    exact hsound.distinct j k bp bq hj hk (hid ▸ hpos)
      (hid.symm.trans (hsame.trans (hkept hbq (hsame ▸ hpos))))
  · have hid := (hkept hbp hpos).symm.trans hsame
    exact absurd hid (hbq.fresh (hsame ▸ hpos) bp (mem_of_getElem? hj))
  · have hid := (hkept hbq (hsame ▸ hpos)).symm.trans hsame.symm
    exact absurd hid (hbp.fresh hpos bq (mem_of_getElem? hk))
  · exact Option.some.inj (hbp.free.symm.trans hbq.free)

theorem collected_step (h : step op b = some b') (hsound : Sound b) :
    ∀ bp ∈ b'.profiles, Collected b'.fired bp.reports := by
  intro bp' hbp'
  obtain ⟨k, hk'⟩ := mem_iff_getElem?.mp hbp'
  obtain ⟨bp, hk, hstep | hfilled⟩ := slot_from h hk'
  · obtain ⟨m, hmove, -⟩ := hstep.move
    exact (hsound.collected bp (mem_of_getElem? hk)).move (fired_step h) hmove
  · rw [hfilled.reports]
    exact Collected.nil _

/-- A document that was handed over before a step. -/
theorem recorded_step (h : step op b = some b') (hdoc : Recorded b.fired b.profiles doc) :
    Recorded b'.fired b'.profiles doc := by
  refine ⟨hdoc.profileId, hdoc.serial.trans (fired_step h), hdoc.older, ?_⟩
  intro bp' hbp' hid r hr hserial
  obtain ⟨k, hk'⟩ := mem_iff_getElem?.mp hbp'
  obtain ⟨bp, hk, hstep | hfilled⟩ := slot_from h hk'
  · rcases hstep.profileId with hsame | ⟨-, hinvalid⟩
    · obtain ⟨m, hmove, -⟩ := hstep.move
      rcases hmove.mem hr with hbefore | hnew
      · exact hdoc.retained bp (mem_of_getElem? hk) (hsame ▸ hid) r hbefore hserial
      · exact absurd (hserial.trans hdoc.serial) hnew.not_ge
    · rw [hinvalid] at hid
      exact absurd (hid ▸ hdoc.profileId) (by decide)
  · rw [hfilled.reports] at hr
    cases hr

/-- A document that the last firing has handed over. -/
structure Issued (b : Bulk) (doc : Document) : Prop where
  profileId : 0 < doc.profileId
  serial : doc.serial = b.fired
  slot : ∃ (k : Nat) (bp : Profile), b.profiles[k]? = some bp ∧ bp.profileId = doc.profileId ∧
    doc.reports = bp.reports

theorem issued_handedOver {id : Int} (hid : ¬ (id ≤ 0 ∧ A.protocol.isSome)) (hfired : 0 < b.fired)
    (hdoc : doc ∈ b.handedOver A id) : Issued (b.process A id) doc := by
  rcases service_found b id (fun s => (processProfile A b.globalEnable b.fired s).1) with
    ⟨hnone, -⟩ | ⟨k, bp, hfind, hk, hbp, hset⟩
  · simp [Bulk.handedOver, hnone] at hdoc
  · simp only [Bulk.handedOver, hfind, bind_some, hk, mem_toList] at hdoc
    have hprocessed := processProfile_processed (A := A) (n := 0) b.globalEnable
      ⟨bp, b.timers⟩ hfired (Nat.le_refl b.fired)
    obtain ⟨hproto, hmade⟩ := hprocessed.document doc hdoc
    have hprofileId : doc.profileId = id := by
      rw [hmade.profileId, hprocessed.profileId, hbp]
    refine ⟨?_, by rw [hmade.serial, process_fired], k, _, ?_, hmade.profileId.symm, hmade.reports⟩
    · rw [hprofileId]
      by_contra hle
      exact hid ⟨Int.not_lt.mp hle, by simp [hproto]⟩
    · have hprofiles : (b.process A id).profiles =
          b.profiles.set k (processProfile A b.globalEnable b.fired ⟨bp, b.timers⟩).1.profile :=
        congrArg Bulk.profiles hset
      rw [hprofiles]
      exact getElem?_set_self (List.getElem?_eq_some_iff.mp hk).1

/-- What a step does to the documents. -/
structure LedgerStep (b b' : Bulk) : Prop where
  posted : ∀ doc ∈ b'.posted, doc ∈ b.posted ∨ Issued b' doc
  kept : b.posted ⊆ b'.posted
  outstanding : ∀ doc ∈ b'.outstanding, doc ∈ b.outstanding ∨ doc ∈ b'.posted
  succeeded : ∀ doc ∈ b'.succeeded, doc ∈ b.succeeded ∨ doc ∈ b.outstanding

theorem ledger_step (h : step op b = some b') : LedgerStep b b' := by
  have hquiet : ∀ b' : Bulk, b'.posted = b.posted → b'.outstanding ⊆ b.outstanding →
      b'.succeeded = b.succeeded → LedgerStep b b' := by
    intro b' hposted houtstanding hsucceeded
    refine ⟨?_, ?_, fun doc hdoc => .inl (houtstanding hdoc), ?_⟩
    · rw [hposted]
      exact fun doc hdoc => .inl hdoc
    · rw [hposted]
      exact List.Subset.refl _
    · rw [hsucceeded]
      exact fun doc hdoc => .inl hdoc
  have hservice : ∀ (slot : Option Nat) (f : Serviced → Serviced), LedgerStep b (b.service slot f) :=
    fun slot f => hquiet _ (by simp) (by simp) (by simp)
  cases op <;> simp only [step, ite_none_left_eq_some, Option.some.injEq,
    map_eq_some_iff] at h
  case changeGlobalEnable A value =>
    split at h <;> cases h <;> exact hquiet _ rfl (List.Subset.refl _) rfl
  case result A =>
    split at h
    · cases h
    · next doc success results hresults =>
      cases h
      refine hquiet _ (by simp) ?_ (by simp)
      rw [service_outstanding]
      simp only [Bulk.outstanding, hresults, map_cons]
      exact List.append_subset.mpr ⟨fun doc' hdoc' => by simp_all, subset_append_right _ _⟩
  case fire A id =>
    obtain ⟨hid, timers, -, rfl⟩ := h
    refine ⟨fun doc hdoc => ?_, ?_, fun doc hdoc => ?_, ?_⟩
    · rw [process_posted, mem_append] at hdoc
      exact hdoc.imp_right fun hnew => issued_handedOver hid (Nat.succ_pos _) hnew
    · rw [process_posted]
      exact subset_append_left _ _
    · rw [process_outstanding, mem_append] at hdoc
      refine hdoc.imp_right fun hnew => ?_
      rw [process_posted]
      exact mem_append_right _ hnew
    · intro doc hdoc
      simp only [Bulk.process, service_succeeded] at hdoc
      exact .inl hdoc
  case receive R =>
    cases h
    refine hquiet _ rfl ?_ rfl
    exact List.append_subset.mpr ⟨subset_append_left _ _,
      List.Subset.trans (held_received_subset R b.thread) (subset_append_right _ _)⟩
  case complete j success sent =>
    obtain ⟨⟨doc, thread⟩, hcomplete, rfl⟩ := h
    have hheld := held_completed hcomplete
    have hdone : doc ∈ b.outstanding :=
      mem_append_right _ (hheld.symm.subset mem_cons_self)
    refine ⟨fun doc' hdoc' => .inl hdoc', List.Subset.refl _, fun doc' hdoc' => .inl ?_,
      fun doc' hdoc' => ?_⟩
    · simp only [Bulk.outstanding, map_append, append_assoc, mem_append] at hdoc'
      rcases hdoc' with hqueued | hsent | hrest
      · exact mem_append_left _ hqueued
      · cases sent with
        | true =>
          cases List.mem_singleton.mp hsent
          exact hdone
        | false => cases hsent
      · exact mem_append_right _ (hheld.symm.subset (mem_cons_of_mem _ hrest))
    · rcases List.mem_append.mp hdoc' with hbefore | hnew
      · exact .inl hbefore
      · cases success with
        | true =>
          cases List.mem_singleton.mp hnew
          exact .inr hdone
        | false => cases hnew
  all_goals
    obtain ⟨-, rfl⟩ := h
    exact hservice ..

theorem sound_step (hsound : Sound b) (h : step op b = some b') : Sound b' := by
  have hledger := ledger_step h
  have hdistinct := distinct_step h hsound
  have hcollected := collected_step h hsound
  refine ⟨hdistinct, hcollected, fun doc hdoc => ?_, fun doc hdoc => ?_, fun doc hdoc => ?_⟩
  · rcases hledger.posted doc hdoc with hbefore | hnew
    · exact recorded_step h (hsound.recorded doc hbefore)
    · obtain ⟨k, bp, hk, hid, hreports⟩ := hnew.slot
      refine ⟨hnew.profileId, hnew.serial.le, ?_, ?_⟩
      · rw [hreports, hnew.serial]
        exact (hcollected bp (mem_of_getElem? hk)).serials
      · intro bq hbq hsame r hr _
        obtain ⟨j, hj⟩ := mem_iff_getElem?.mp hbq
        obtain rfl := hdistinct j k bq bp hj hk (hsame ▸ hnew.profileId) (hsame.trans hid.symm)
        rw [hk, Option.some.injEq] at hj
        rw [hreports, hj]
        exact hr
  · rcases hledger.outstanding doc hdoc with hbefore | hnew
    · exact hledger.kept (hsound.outstanding hbefore)
    · exact hnew
  · rcases hledger.succeeded doc hdoc with hbefore | hdone
    · exact hledger.kept (hsound.succeeded hbefore)
    · exact hledger.kept (hsound.outstanding hdone)

/-! ## Discarded reports -/

/-- Why a step may discard a report of a slot: it was in a document of its profile whose
transfer has succeeded, it exceeds the limit of its profile, or the profile is stopped or
sends USP events. -/
def Discardable (b : Bulk) (bp : Profile) (r : Report) (op : Op) : Prop :=
  (∃ doc ∈ b.succeeded, doc.profileId = bp.profileId ∧ r ∈ doc.reports) ∨
    match op with
    | .deleted instance_ => bp.profileId = instance_
    | .changeGlobalEnable _ value => value = false
    | .changeProfileEnable _ instance_ value => bp.profileId = instance_ ∧ value = false
    | .fire A id => bp.profileId = id ∧ (A.protocol = some .uspEvent ∨
        ∃ ctrl, A.protocol = some .http ∧ A.ctrlParams = some ctrl ∧
          r ∈ bp.reports.take (excess ctrl bp))
    | _ => False

/-- Every report that a step discards may be discarded. -/
def DiscardsRight (b : Bulk) (op : Op) : Prop :=
  ∀ b', step op b = some b' → ∀ (k : Nat) (bp : Profile), b.profiles[k]? = some bp →
    bp.profileId ≠ invalid → ∀ r ∈ bp.reports,
      (∃ bp', b'.profiles[k]? = some bp' ∧ bp'.profileId = bp.profileId ∧ r ∈ bp'.reports) ∨
        Discardable b bp r op

/-- When the profile is notified of a success, it has retained no report that was collected
after each of its documents whose transfer has succeeded was handed over. -/
def NothingNewer (b : Bulk) : Op → Prop
  | .result _ => ∀ e ∈ b.results.head?, e.2 = true → ∀ bp ∈ b.profiles,
      bp.profileId = e.1.profileId → ∀ r ∈ bp.reports,
        ∃ doc ∈ b.succeeded, doc.profileId = bp.profileId ∧ r.serial ≤ doc.serial
  | _ => True

instance (b : Bulk) (op : Op) : Decidable (NothingNewer b op) := by
  cases op <;> unfold NothingNewer <;> infer_instance

/-- What a success leaves of the slot of its profile. -/
theorem result_clears {results : List (Document × Bool)} (hsound : Sound b)
    (hresults : b.results = (doc, true) :: results) (hk : b.profiles[k]? = some bp)
    (hid : bp.profileId = doc.profileId) (hpos : 0 < bp.profileId)
    (h : step (.result A) b = some b') : ∀ bp', b'.profiles[k]? = some bp' → bp'.reports = [] := by
  intro bp' hk'
  simp only [step, hresults, Option.some.injEq] at h
  subst h
  rcases service_found b doc.profileId (notifyTransferResult A b.globalEnable true) with
    ⟨hnone, -⟩ | ⟨j, bq, hj, hjq, hidq, -⟩
  · exact absurd hid (findProfile_eq_none.mp hnone bp (mem_of_getElem? hk))
  · obtain rfl := hsound.distinct k j bp bq hk hjq hpos (hid.trans hidq.symm)
    rw [hj, service_some (b := { b with results := results, notified := b.notified ++ [doc] }) hjq,
      getElem?_set_self (List.getElem?_eq_some_iff.mp hjq).1, Option.some.injEq] at hk'
    subst hk'
    simp [notifyTransferResult]

theorem discardable_of_cause {m : Nat} (hsound : Sound b) (hcondition : NothingNewer b op)
    (hk : b.profiles[k]? = some bp) (hr : r ∈ bp.reports.take m) (hcause : Cause b bp m op) :
    Discardable b bp r op := by
  cases op with
  | fire A id =>
    obtain ⟨hid, hcause⟩ := hcause
    refine .inr ⟨hid, hcause.imp_right ?_⟩
    rintro ⟨ctrl, hproto, hctrl, hm⟩
    exact ⟨ctrl, hproto, hctrl, (take_sublist_take_left hm).subset hr⟩
  | result A =>
    obtain ⟨doc, hdoc, hid⟩ := hcause
    have hbp := mem_of_getElem? hk
    have hretained := mem_of_mem_take hr
    obtain ⟨done, hdone, hsame, hserial⟩ := hcondition (doc, true) hdoc rfl bp hbp hid.symm r hretained
    have hrecorded := hsound.recorded done (hsound.succeeded hdone)
    exact .inl ⟨done, hdone, hsame, hrecorded.retained bp hbp hsame.symm r hretained hserial⟩
  | deleted instance_ => exact .inr hcause
  | changeGlobalEnable A value => exact .inr hcause
  | changeProfileEnable A instance_ value => exact .inr hcause
  | added A instance_ row => cases hcause
  | changeParam A instance_ change => cases hcause
  | receive R => cases hcause
  | complete j success sent => cases hcause

/-- One step discards no other reports than it may if and only if the profile it is a
success for has retained nothing newer. -/
theorem discardsRight_iff (hsound : Sound b) : DiscardsRight b op ↔ NothingNewer b op := by
  constructor
  · intro h
    cases op with
    | result A =>
      rintro ⟨doc, success⟩ hhead rfl bp hbp hid r hr
      obtain ⟨results, hresults⟩ := List.head?_eq_some_iff.mp hhead
      obtain ⟨k, hk⟩ := mem_iff_getElem?.mp hbp
      have hposted : doc ∈ b.posted :=
        hsound.outstanding (mem_append_left _ (by simp [hresults]))
      have hpos : 0 < bp.profileId := by
        rw [hid]
        exact (hsound.recorded doc hposted).profileId
      have hvalid : bp.profileId ≠ invalid := by
        intro hinvalid
        rw [hinvalid] at hpos
        exact absurd hpos (by decide)
      obtain ⟨b', hstep⟩ : ∃ b', step (.result A) b = some b' := by
        simp [step, hresults]
      rcases h b' hstep k bp hk hvalid r hr with ⟨bp', hk', -, hr'⟩ | ⟨done, hdone, hsame, hmem⟩ | hfalse
      · rw [result_clears hsound hresults hk hid hpos hstep bp' hk'] at hr'
        cases hr'
      · exact ⟨done, hdone, hsame, (hsound.recorded done (hsound.succeeded hdone)).older r hmem⟩
      · exact hfalse.elim
    | _ => trivial
  · intro hcondition b' hstep k bp hk hvalid r hr
    obtain ⟨bp', hk', hslot | hfilled⟩ := slot_step hstep hk
    · rcases hslot.profileId with hsame | ⟨rfl, -⟩
      · by_cases hr' : r ∈ bp'.reports
        · exact .inl ⟨bp', hk', hsame, hr'⟩
        · obtain ⟨m, hmove, hm⟩ := hslot.move
          have hlost := hmove.lost hr hr'
          rcases hm with rfl | hcause
          · rw [take_zero] at hlost
            cases hlost
          · exact .inr (discardable_of_cause hsound hcondition hk hlost hcause)
      · exact .inr (.inr rfl)
    · exact absurd hfilled.profileId hvalid

theorem sound_run {globalEnable : Bool} {steps : List Op}
    (hrun : run step steps (Bulk.init globalEnable) = some b) : Sound b :=
  run_keeps (C := fun _ _ => True) (fun _ _ _ hsound _ hstep => sound_step hsound hstep)
    (sound_init globalEnable) (runMeets_of_forall fun _ _ => trivial) hrun

theorem runMeets_discardsRight (globalEnable : Bool) (steps : List Op) :
    RunMeets step DiscardsRight steps (Bulk.init globalEnable) ↔
      RunMeets step NothingNewer steps (Bulk.init globalEnable) :=
  runMeets_congr (C := DiscardsRight) (D := NothingNewer) (fun _ _ hsound => discardsRight_iff hsound)
    (fun _ _ _ hsound _ hstep => sound_step hsound hstep) (sound_init globalEnable)

/-- In every run the slots have room for their reports and keep them in the order of
collection; and no report is discarded that may not be if and only if at each success the
profile has retained nothing newer. -/
theorem reports_discarded_right_iff (globalEnable : Bool) (steps : List Op) :
    (∀ b, run step steps (Bulk.init globalEnable) = some b → ∀ bp ∈ b.profiles,
      bp.reports.length ≤ maxRetainedFailedReports + 1 ∧
        bp.reports.Pairwise (·.serial < ·.serial)) ∧
      (RunMeets step DiscardsRight steps (Bulk.init globalEnable) ↔
        RunMeets step NothingNewer steps (Bulk.init globalEnable)) := by
  refine ⟨fun b hrun bp hbp => ?_, runMeets_discardsRight globalEnable steps⟩
  have hcollected := (sound_run hrun).collected bp hbp
  exact ⟨hcollected.bound, hcollected.ordered⟩

/-- While the first report is sent, a changed parameter lets the profile fire again. The
first transfer succeeds, and the second fails. -/
def firedAgain : List Op :=
  firstReport ++ [.changeParam (httpAnswers 61) 1 (.reportingInterval 1), .fire (httpAnswers 62) 1,
    received, .complete 1 false true, .complete 0 true true, .result (httpAnswers 63),
    .result (httpAnswers 64)]

/-- The success of the first transfer discards the second report. -/
theorem second_report_discarded :
    ¬ RunMeets step DiscardsRight firedAgain (Bulk.init true) := by
  rw [runMeets_discardsRight]
  decide

end BulkDataReports
