import SdtTr369.BulkDataReports

/-!
# The timers of the profiles

A profile that is on has one timer, which is armed unless the profile waits for a
transfer result, and no other timer is registered. This holds as long as nothing fails
where the code gives up without loading the timer again or sending a result.
-/

namespace BulkDataTimers

open BulkData BdcExec BulkDataRuns BulkDataReports SyncTimer RunHistory List

/-! ## The timer of one slot -/

variable {A : Answers} {globalEnable : Bool} {s s' : Serviced} {bp : Profile} {serial : Nat}
  {timers timers' : List Timer}

/-- The timer of a profile is registered just if the profile is on. -/
def Fits (globalEnable : Bool) (s : Serviced) : Prop :=
  Registered s.profile.profileId s.timers ↔ globalEnable = true ∧ s.profile.isEnabled = true

/-- The profile may be serviced, and its timer still fits. -/
structure Timed (globalEnable : Bool) (s s' : Serviced) : Prop where
  frame : Frame s.profile.profileId s.timers s'.timers
  profileId : s'.profile.profileId = s.profile.profileId
  isEnabled : s'.profile.isEnabled = s.profile.isEnabled
  fits : Fits globalEnable s'

theorem Timed.same (hnodup : (s.timers.map (·.id)).Nodup)
    (hfits : Fits globalEnable s)
    (hid : bp.profileId = s.profile.profileId) (henabled : bp.isEnabled = s.profile.isEnabled) :
    Timed globalEnable s ⟨bp, s.timers⟩ := by
  refine ⟨Frame.refl _ hnodup, hid, henabled, ?_⟩
  rw [Fits, hid, henabled]
  exact hfits

/-- A profile that is on is loaded by a resync. -/
theorem resyncProfile_timed (bp : Profile) (hnodup : (s.timers.map (·.id)).Nodup)
    (hfits : Fits globalEnable s)
    (hid : bp.profileId = s.profile.profileId) (henabled : bp.isEnabled = s.profile.isEnabled) :
    Timed globalEnable s (resyncProfile A globalEnable ⟨bp, s.timers⟩).2 ∧
      (globalEnable = true → s.profile.isEnabled = true →
        Armed s.profile.profileId (resyncProfile A globalEnable ⟨bp, s.timers⟩).2.timers) := by
  have hsend : (calcWaittimeToNextSend A bp).2.profileId = s.profile.profileId ∧
      (calcWaittimeToNextSend A bp).2.isEnabled = s.profile.isEnabled := by
    rcases calcWaittimeToNextSend_profile A bp with h | h <;> rw [h] <;> exact ⟨hid, henabled⟩
  obtain ⟨hsendId, hsendEnabled⟩ := hsend
  unfold resyncProfile
  dsimp only
  by_cases hoff : globalEnable = false ∨ (calcWaittimeToNextSend A bp).2.isEnabled = false
  · rw [if_pos hoff]
    refine ⟨Timed.same hnodup hfits hsendId hsendEnabled, fun hglobal hon => ?_⟩
    rw [hsendEnabled, hglobal, hon] at hoff
    simp at hoff
  · rw [if_neg hoff]
    rw [hsendEnabled, not_or, Bool.not_eq_false, Bool.not_eq_false] at hoff
    have hregistered := hfits.mpr hoff
    obtain ⟨timers, htimers, hframe, harmed⟩ := reload_registered hnodup hregistered
      (A.now + toInt (calcWaittimeToNextSend A bp).1)
    rw [hsendId, htimers]
    refine ⟨⟨hframe, hsendId, hsendEnabled, ?_⟩, fun _ _ => harmed⟩
    simp only [Serviced.setTimers, Fits, hsendId, hsendEnabled]
    exact iff_of_true harmed.registered hoff

/-- Nothing fails that keeps a firing from loading the timer again or handing over a
document. -/
def Rearms (A : Answers) (bp : Profile) : Prop :=
  match A.protocol with
  | none => False
  | some .http => A.ctrlParams.isSome ∧ (bp.retryCount ≠ 0 ∨ A.reportMap.isSome) ∧ A.jsonReport
  | some .uspEvent => A.notificationsEnabled →
      A.reportTimestamp ∧ A.reportMap.isSome ∧ A.jsonReport

instance (A : Answers) (bp : Profile) : Decidable (Rearms A bp) := by
  unfold Rearms
  split <;> infer_instance

/-- What a firing does to the timer. -/
structure ProcessTimed (A : Answers) (globalEnable : Bool) (s s' : Serviced)
    (docs : Option Document) : Prop where
  timed : Timed globalEnable s s'
  rearmed : Rearms A s.profile → globalEnable = true → s.profile.isEnabled = true →
    Armed s.profile.profileId s'.timers ∨ docs.isSome

theorem appendReport_fst (ctrl : ProfileCtrlParams) (serial : Nat) (bp : Profile) :
    (appendReport A ctrl serial bp).1 = true ↔ bp.retryCount ≠ 0 ∨ A.reportMap.isSome := by
  unfold appendReport
  split
  · next h => simp [h]
  · next h => cases A.reportMap <;> simp [h]

theorem processProfileHttp_timed (hproto : A.protocol = some .http)
    (hnodup : (s.timers.map (·.id)).Nodup) (hfits : Fits globalEnable s) :
    ProcessTimed A globalEnable s (processProfileHttp A globalEnable serial s).1
      (processProfileHttp A globalEnable serial s).2 := by
  have hrearms : Rearms A s.profile →
      A.ctrlParams.isSome ∧ (s.profile.retryCount ≠ 0 ∨ A.reportMap.isSome) ∧ A.jsonReport := by
    simp [Rearms, hproto]
  unfold processProfileHttp
  split
  · next hctrl =>
    refine ⟨Timed.same hnodup hfits rfl rfl, fun h => ?_⟩
    simp [hctrl] at hrearms
    exact (hrearms h).elim
  · next ctrl hctrl =>
    obtain ⟨hid, henabled⟩ := appendReport_profile (A := A) ctrl serial s.profile
    have happended := appendReport_fst (A := A) ctrl serial s.profile
    split
    · next bp happ =>
      simp only [happ] at hid henabled happended
      refine ⟨Timed.same hnodup hfits hid henabled, fun h => ?_⟩
      exact absurd (happended.mpr (hrearms h).2.1) (by simp)
    · next bp happ =>
      simp only [happ] at hid henabled
      split
      · next hjson =>
        refine ⟨Timed.same hnodup hfits hid henabled, fun h => ?_⟩
        exact absurd (hrearms h).2.2 (by simp [hjson])
      · split
        · exact ⟨Timed.same hnodup hfits hid henabled, fun _ _ _ => .inr rfl⟩
        · obtain ⟨htimed, harmed⟩ := resyncProfile_timed (A := A) (takeTransferResult false bp)
            hnodup hfits (by simp [hid]) (by simp [henabled])
          exact ⟨htimed, fun _ hglobal hon => .inl (harmed hglobal hon)⟩

theorem processProfileUspEvent_timed (hproto : A.protocol = some .uspEvent)
    (hnodup : (s.timers.map (·.id)).Nodup) (hfits : Fits globalEnable s) :
    ProcessTimed A globalEnable s (processProfileUspEvent A globalEnable serial s) none := by
  have hresync : ∀ bp : Profile, bp.profileId = s.profile.profileId →
      bp.isEnabled = s.profile.isEnabled →
      ProcessTimed A globalEnable s (resyncProfile A globalEnable ⟨bp, s.timers⟩).2 none := by
    intro bp hid henabled
    obtain ⟨htimed, harmed⟩ := resyncProfile_timed (A := A) _ hnodup hfits hid henabled
    exact ⟨htimed, fun _ hglobal hon => .inl (harmed hglobal hon)⟩
  have hrearms : Rearms A s.profile → A.notificationsEnabled →
      A.reportTimestamp ∧ A.reportMap.isSome ∧ A.jsonReport := by
    simp [Rearms, hproto]
  unfold processProfileUspEvent
  split
  · exact hresync s.profile rfl rfl
  · next hnotify =>
    rw [Bool.not_eq_false] at hnotify
    split
    · next hstamp =>
      refine ⟨Timed.same hnodup hfits rfl rfl, fun h => ?_⟩
      exact absurd (hrearms h hnotify).1 (by simp [hstamp])
    · split
      · next hmap =>
        refine ⟨Timed.same hnodup hfits rfl rfl, fun h => ?_⟩
        exact absurd (hrearms h hnotify).2.1 (by simp [hmap])
      · dsimp only
        split
        · next hjson =>
          refine ⟨Timed.same hnodup hfits rfl rfl, fun h => ?_⟩
          exact absurd (hrearms h hnotify).2.2 (by simp [hjson])
        · exact hresync _ rfl rfl

theorem processProfile_timed (serial : Nat) (hnodup : (s.timers.map (·.id)).Nodup)
    (hfits : Fits globalEnable s) :
    ProcessTimed A globalEnable s (processProfile A globalEnable serial s).1
      (processProfile A globalEnable serial s).2 := by
  unfold processProfile
  split
  · next hproto =>
    refine ⟨Timed.same hnodup hfits rfl rfl, fun h => ?_⟩
    simp [Rearms, hproto] at h
  · next hproto => exact processProfileHttp_timed hproto hnodup hfits
  · next hproto => exact processProfileUspEvent_timed hproto hnodup hfits

/-! ## The timers of all slots -/

variable {b b' : Bulk} {k : Nat} {bp' : Profile} {id : Int} {op : Op}

/-- The slot is that of an enabled profile. -/
def On (bp : Profile) (id : Int) : Prop := bp.profileId = id ∧ id ≠ invalid ∧ bp.isEnabled = true

def onIds (b : Bulk) (id : Int) : Prop := b.globalEnable = true ∧ ∃ bp ∈ b.profiles, On bp id

/-- A transfer result is to come. -/
def waiting (b : Bulk) (id : Int) : Prop := ∃ doc ∈ b.outstanding, doc.profileId = id

structure Kept (b : Bulk) : Prop where
  positive : ∀ bp ∈ b.profiles, ∀ id, On bp id → 0 < id
  serves : Serves (onIds b) (waiting b) b.timers

theorem On.id_eq (h : On bp id) : bp.profileId = id := h.1

theorem not_on_invalid (h : bp.profileId = invalid) : ¬ On bp id := by
  rintro ⟨hid, hvalid, -⟩
  exact hvalid (hid.symm.trans h)

/-- Work on one slot, when no other slot has its id. -/
structure Worked (b b' : Bulk) (k : Nat) (bp bp' : Profile) (id : Int) : Prop where
  slot : b.profiles[k]? = some bp
  alone : ∀ (j : Nat) (bq : Profile), b.profiles[j]? = some bq → bq.profileId = id → j = k
  before : bp.profileId = id ∨ bp.profileId = invalid
  after : ∀ j, On bp' j → j = id
  globalEnable : b'.globalEnable = b.globalEnable
  profiles : b'.profiles = b.profiles.set k bp'

section

variable (h : Worked b b' k bp bp' id)
include h

theorem Worked.mem_iff {bq : Profile} :
    bq ∈ b'.profiles ↔ bq = bp' ∨ ∃ j, j ≠ k ∧ b.profiles[j]? = some bq := by
  have hlt := (List.getElem?_eq_some_iff.mp h.slot).1
  rw [h.profiles, mem_iff_getElem?]
  constructor
  · rintro ⟨j, hj⟩
    by_cases hjk : k = j
    · rw [hjk, getElem?_set_self (hjk ▸ hlt), Option.some.injEq] at hj
      exact .inl hj.symm
    · rw [getElem?_set_ne hjk] at hj
      exact .inr ⟨j, Ne.symm hjk, hj⟩
  · rintro (rfl | ⟨j, hjk, hj⟩)
    · exact ⟨k, getElem?_set_self hlt⟩
    · exact ⟨j, by rw [getElem?_set_ne hjk.symm, hj]⟩

theorem Worked.on_self : onIds b' id ↔ b.globalEnable = true ∧ On bp' id := by
  rw [onIds, h.globalEnable]
  refine and_congr_right fun _ => ⟨?_, fun hon => ⟨bp', h.mem_iff.mpr (.inl rfl), hon⟩⟩
  rintro ⟨bq, hbq, hon⟩
  rcases h.mem_iff.mp hbq with rfl | ⟨j, hjk, hj⟩
  · exact hon
  · exact absurd (h.alone j bq hj hon.id_eq) hjk

theorem Worked.on_other {i : Int} (hi : i ≠ id) : onIds b' i ↔ onIds b i := by
  rw [onIds, onIds, h.globalEnable]
  refine and_congr_right fun _ => ⟨?_, ?_⟩
  · rintro ⟨bq, hbq, hon⟩
    rcases h.mem_iff.mp hbq with rfl | ⟨j, -, hj⟩
    · exact absurd (h.after i hon) hi
    · exact ⟨bq, mem_of_getElem? hj, hon⟩
  · rintro ⟨bq, hbq, hon⟩
    obtain ⟨j, hj⟩ := mem_iff_getElem?.mp hbq
    refine ⟨bq, h.mem_iff.mpr (.inr ⟨j, ?_, hj⟩), hon⟩
    rintro rfl
    rw [h.slot, Option.some.injEq] at hj
    subst hj
    rcases h.before with hid | hinvalid
    · exact hi (hon.id_eq.symm.trans hid)
    · exact not_on_invalid hinvalid hon

theorem Worked.on_before : onIds b id ↔ b.globalEnable = true ∧ On bp id := by
  refine and_congr_right fun _ => ⟨?_, fun hon => ⟨bp, mem_of_getElem? h.slot, hon⟩⟩
  rintro ⟨bq, hbq, hon⟩
  obtain ⟨j, hj⟩ := mem_iff_getElem?.mp hbq
  obtain rfl := h.alone j bq hj hon.id_eq
  rw [h.slot, Option.some.injEq] at hj
  exact hj ▸ hon

/-- The timers of the other profiles are not touched. -/
theorem Worked.kept (hkept : Kept b) (hpos : 0 < id) (hframe : Frame id b.timers b'.timers)
    (hregistered : Registered id b'.timers ↔ b.globalEnable = true ∧ On bp' id)
    (hserved : b.globalEnable = true → On bp' id → Armed id b'.timers ∨ waiting b' id)
    (hwaiting : ∀ j, j ≠ id → waiting b j → waiting b' j) : Kept b' := by
  refine ⟨fun bq hbq i hon => ?_, ?_⟩
  · rcases h.mem_iff.mp hbq with rfl | ⟨j, -, hj⟩
    · exact (h.after i hon) ▸ hpos
    · exact hkept.positive bq (mem_of_getElem? hj) i hon
  · exact hkept.serves.change hframe (fun j hj => h.on_other hj) hwaiting
      (hregistered.trans h.on_self.symm) fun hon =>
        hserved (h.on_self.mp hon).1 (h.on_self.mp hon).2

end

theorem invalid_not_pos : ¬ (0 : Int) < invalid := by decide

theorem ne_invalid (h : 0 < id) : id ≠ invalid := by
  rintro rfl
  exact invalid_not_pos h

/-- The slot of a profile that has been found. -/
theorem worked_found (b' : Bulk) (hsound : Sound b) (hk : b.profiles[k]? = some bp)
    (hid : bp.profileId = id)
    (hpos : 0 < id) (hafter : ∀ j, On bp' j → j = id) (hglobal : b'.globalEnable = b.globalEnable)
    (hprofiles : b'.profiles = b.profiles.set k bp') : Worked b b' k bp bp' id := by
  refine ⟨hk, fun j bq hj hjd => ?_, .inl hid, hafter, hglobal, hprofiles⟩
  exact hsound.distinct j k bq bp hj hk (hjd ▸ hpos) (hjd.trans hid.symm)

/-- The timer of a profile that has been found. -/
theorem Kept.fits (hkept : Kept b) (hsound : Sound b) (hk : b.profiles[k]? = some bp)
    (hpos : 0 < bp.profileId) : Fits b.globalEnable ⟨bp, b.timers⟩ := by
  have hworked := worked_found { b with profiles := b.profiles.set k bp } hsound hk rfl hpos
    (fun j hon => hon.id_eq.symm) rfl rfl
  rw [Fits, hkept.serves.registered, hworked.on_before, On]
  simp [ne_invalid hpos]

/-- What work on a slot may leave of it and of the timers. -/
structure Tended (b : Bulk) (id : Int) (waits : Prop) (s' : Serviced) : Prop where
  frame : Frame id b.timers s'.timers
  after : ∀ j, On s'.profile j → j = id
  registered : Registered id s'.timers ↔ b.globalEnable = true ∧ On s'.profile id
  served : b.globalEnable = true → On s'.profile id → Armed id s'.timers ∨ waits

theorem on_iff_isEnabled (hid : bp.profileId = id) (hpos : 0 < id) :
    On bp id ↔ bp.isEnabled = true := by
  simp [On, hid, ne_invalid hpos]

theorem Tended.of_fits {waits : Prop} (hpos : 0 < id) (hframe : Frame id b.timers s'.timers)
    (hid : s'.profile.profileId = id) (hfits : Fits b.globalEnable s')
    (hserved : b.globalEnable = true → s'.profile.isEnabled = true →
      Armed id s'.timers ∨ waits) : Tended b id waits s' := by
  have hon := on_iff_isEnabled hid hpos
  rw [Fits, hid] at hfits
  exact ⟨hframe, fun j hj => hj.id_eq.symm.trans hid, by rw [hfits, hon],
    fun hglobal h => hserved hglobal (hon.mp h)⟩

/-- The slot that was found is worked on, and one transfer result may have been taken. -/
theorem kept_service {f : Serviced → Serviced} (b' : Bulk) (hkept : Kept b) (hsound : Sound b)
    (hpos : 0 < id)
    (hglobal : b'.globalEnable = b.globalEnable) (hprofiles : b'.profiles = b.profiles)
    (htimers : b'.timers = b.timers) (hwaiting : ∀ j, j ≠ id → waiting b j → waiting b' j)
    (hf : ∀ bp, bp.profileId = id → Fits b.globalEnable ⟨bp, b.timers⟩ →
      Tended b id (waiting b' id) (f ⟨bp, b.timers⟩)) :
    Kept (b'.service (findProfile id b'.profiles) f) := by
  rcases service_found b' id f with ⟨hnone, hsame⟩ | ⟨k, bp, -, hk, hid, hset⟩
  · rw [hsame]
    rw [findProfile_eq_none, hprofiles] at hnone
    have hon : ∀ j, onIds b' j ↔ onIds b j := fun j => by rw [onIds, onIds, hglobal, hprofiles]
    have hoff : ¬ onIds b id := by
      rintro ⟨-, bp, hbp, hbpon⟩
      exact hnone bp hbp hbpon.id_eq
    refine ⟨by rw [hprofiles]; exact hkept.positive, ?_⟩
    rw [htimers]
    exact hkept.serves.change (Frame.refl id hkept.serves.nodup) (fun j _ => hon j) hwaiting
      ((hkept.serves.registered id).trans (hon id).symm) fun h => absurd ((hon id).mp h) hoff
  · rw [hset]
    rw [hprofiles] at hk
    have htended := hf bp hid (hkept.fits hsound hk (hid ▸ hpos))
    have hworked : Worked b { b' with
        profiles := b'.profiles.set k (f ⟨bp, b'.timers⟩).profile
        timers := (f ⟨bp, b'.timers⟩).timers } k bp (f ⟨bp, b.timers⟩).profile id :=
      worked_found _ hsound hk hid hpos htended.after hglobal (by rw [hprofiles, htimers])
    rw [htimers] at hworked ⊢
    exact hworked.kept hkept hpos htended.frame htended.registered htended.served hwaiting

/-- A profile that is not yet on is started. -/
theorem startProfile_starts (bp : Profile) (hserves : Serves (onIds b) (waiting b) b.timers)
    (hoff : ¬ onIds b id)
    (hid : bp.profileId = id) :
    ∃ timers', startProfile A ⟨bp, b.timers⟩ = (true, ⟨bp, timers'⟩) ∧
      Frame id b.timers timers' ∧ Armed id timers' := by
  obtain ⟨timers', htimers', hframe, harmed⟩ := hserves.add hoff
    (A.now + toInt (calcWaittimeToNextReportingInterval A bp.reportingInterval bp.timeReference))
  refine ⟨timers', ?_, hframe, harmed⟩
  simp only [startProfile, hid, htimers', Serviced.setTimers]

/-- A profile that is on is stopped. -/
theorem stopProfile_stops (bp : Profile) (hserves : Serves (onIds b) (waiting b) b.timers)
    (hon : onIds b id)
    (hid : bp.profileId = id) :
    ∃ timers', stopProfile ⟨bp, b.timers⟩ = (true, ⟨clearRetainedReports bp, timers'⟩) ∧
      Frame id b.timers timers' ∧ ¬ Registered id timers' := by
  obtain ⟨timers', htimers', hframe, hgone⟩ := hserves.remove hon
  refine ⟨timers', ?_, hframe, hgone⟩
  have hid' : (clearRetainedReports bp).profileId = id := hid
  simp only [stopProfile, hid', htimers', Serviced.setTimers]

variable {instance_ : Int}

theorem kept_deleted (hkept : Kept b) (hsound : Sound b)
    (h : step (.deleted instance_) b = some b') : Kept b' := by
  simp only [step, Option.ite_none_left_eq_some, Option.some.injEq] at h
  obtain ⟨hinstance, rfl⟩ := h
  have hpos := Int.not_le.mp hinstance
  refine kept_service b hkept hsound hpos rfl rfl rfl (fun _ _ h => h) fun bp hid hfits => ?_
  have hnotOn : ∀ j, ¬ On { bp with profileId := invalid } j := fun j => not_on_invalid rfl
  rw [Fits, hid] at hfits
  unfold processBulkDataProfileDeleted
  by_cases hon : b.globalEnable = true ∧ bp.isEnabled = true
  · obtain ⟨timers', hstop, hframe, hgone⟩ := stopProfile_stops bp hkept.serves
      ((hkept.serves.registered instance_).mp (hfits.mpr hon)) hid
    rw [if_pos hon, hstop]
    exact ⟨hframe, fun j hj => absurd hj (not_on_invalid rfl),
      iff_of_false hgone fun h => not_on_invalid rfl h.2, fun _ h => absurd h (not_on_invalid rfl)⟩
  · rw [if_neg hon]
    exact ⟨Frame.refl _ hkept.serves.nodup, fun j hj => absurd hj (hnotOn j),
      iff_of_false (fun h => hon (hfits.mp h)) fun h => hnotOn _ h.2, fun _ h => absurd h (hnotOn _)⟩

theorem kept_changeParam {change : ParamChange} (hkept : Kept b) (hsound : Sound b)
    (h : step (.changeParam A instance_ change) b = some b') : Kept b' := by
  simp only [step, Option.ite_none_left_eq_some, Option.some.injEq, not_or] at h
  obtain ⟨⟨hinstance, -⟩, rfl⟩ := h
  have hpos := Int.not_le.mp hinstance
  refine kept_service b hkept hsound hpos rfl rfl rfl (fun _ _ h => h) fun bp hid hfits => ?_
  have hresync : ∀ bp' : Profile, bp'.profileId = bp.profileId → bp'.isEnabled = bp.isEnabled →
      Tended b instance_ (waiting b instance_) (resyncProfile A b.globalEnable ⟨bp', b.timers⟩).2 := by
    intro bp' hid' henabled'
    obtain ⟨htimed, harmed⟩ := resyncProfile_timed (A := A) (s := ⟨bp, b.timers⟩) _
      hkept.serves.nodup hfits hid' henabled'
    exact Tended.of_fits hpos (hid ▸ htimed.frame) (htimed.profileId.trans hid) htimed.fits
      fun hglobal hon => .inl (hid ▸ harmed hglobal (htimed.isEnabled.symm.trans hon))
  have hkeep : ∀ bp' : Profile, bp'.profileId = bp.profileId → bp'.isEnabled = bp.isEnabled →
      Tended b instance_ (waiting b instance_) ⟨bp', b.timers⟩ := by
    intro bp' hid' henabled'
    have htimed := Timed.same (s := ⟨bp, b.timers⟩) hkept.serves.nodup hfits hid' henabled'
    refine Tended.of_fits hpos (hid ▸ htimed.frame) (htimed.profileId.trans hid) htimed.fits ?_
    intro hglobal hon
    apply hkept.serves.served
    rw [← hkept.serves.registered, ← hid]
    exact hfits.mpr ⟨hglobal, henabled'.symm.trans hon⟩
  cases change with
  | reportingInterval value => exact hresync _ rfl rfl
  | timeReference value => exact hresync _ rfl rfl
  | retryEnable value => exact hkeep _ rfl rfl
  | retryMinimumWaitInterval value => exact hresync _ rfl rfl
  | retryIntervalMultiplier value => exact hresync _ rfl rfl
  | url => exact hkeep _ rfl rfl

/-- Nothing is done to the timers, and the profile is as much on as it was. -/
theorem Tended.same (hkept : Kept b) (hpos : 0 < id) (hid : bp.profileId = id)
    (hfits : Fits b.globalEnable ⟨bp, b.timers⟩) : Tended b id (waiting b id) ⟨bp, b.timers⟩ := by
  refine Tended.of_fits hpos (Frame.refl _ hkept.serves.nodup) hid hfits fun hglobal hon => ?_
  apply hkept.serves.served
  rw [← hkept.serves.registered, ← hid]
  exact hfits.mpr ⟨hglobal, hon⟩

theorem kept_changeProfileEnable {value : Bool} (hkept : Kept b) (hsound : Sound b)
    (h : step (.changeProfileEnable A instance_ value) b = some b') : Kept b' := by
  simp only [step, Option.ite_none_left_eq_some, Option.some.injEq, not_or] at h
  obtain ⟨⟨hinstance, -⟩, rfl⟩ := h
  have hpos := Int.not_le.mp hinstance
  refine kept_service b hkept hsound hpos rfl rfl rfl (fun _ _ h => h) fun bp hid hfits => ?_
  have hregistered := hkept.serves.registered instance_
  have hbefore : Registered instance_ b.timers ↔ b.globalEnable = true ∧ bp.isEnabled = true :=
    hid ▸ hfits
  unfold notifyChangeProfileEnable
  by_cases hsame : value = bp.isEnabled
  · rw [if_pos hsame]
    exact Tended.same hkept hpos hid hfits
  · rw [if_neg hsame]
    dsimp only
    by_cases hglobal : b.globalEnable = false
    · rw [if_pos hglobal]
      refine Tended.same hkept hpos hid ?_
      rw [hglobal] at hbefore
      rw [Fits, hid, hglobal]
      exact hbefore.trans (by simp)
    · rw [if_neg hglobal]
      rw [Bool.not_eq_false] at hglobal
      cases value with
      | true =>
        have hoff : ¬ onIds b instance_ := fun hon =>
          hsame (hbefore.mp (hregistered.mpr hon)).2.symm
        obtain ⟨timers', hstart, hframe, harmed⟩ := startProfile_starts (A := A)
          { bp with isEnabled := true } hkept.serves hoff hid
        rw [if_pos rfl, hstart]
        refine Tended.of_fits hpos hframe hid ?_ fun _ _ => .inl harmed
        rw [Fits]
        exact iff_of_true (hid ▸ harmed.registered) ⟨hglobal, rfl⟩
      | false =>
        have hon : onIds b instance_ :=
          hregistered.mp (hbefore.mpr ⟨hglobal, by simpa using Ne.symm hsame⟩)
        obtain ⟨timers', hstop, hframe, hgone⟩ := stopProfile_stops
          { bp with isEnabled := false } hkept.serves hon hid
        rw [if_neg (by decide), hstop]
        have hoff : ¬ On (clearRetainedReports { bp with isEnabled := false }) instance_ :=
          fun h => Bool.false_ne_true h.2.2
        exact ⟨hframe, fun j hj => absurd hj.2.2 Bool.false_ne_true,
          iff_of_false hgone fun h => hoff h.2, fun _ h => absurd h hoff⟩

/-- A row whose parameters can be read, or that is not of an enabled profile. -/
def Readable (row : ProfileRow) : Prop :=
  row.enable = some true → (loadProfile row clearedProfile).1 = true

instance (row : ProfileRow) : Decidable (Readable row) :=
  inferInstanceAs (Decidable (_ → _))

theorem loadProfile_fails {row : ProfileRow} (hrow : Readable row)
    (h : loadProfile row clearedProfile = (false, bp)) : bp.isEnabled = false := by
  rw [Readable, h] at hrow
  unfold loadProfile at h
  cases henable : row.enable with
  | none =>
    simp only [henable, Prod.mk.injEq, true_and] at h
    rw [← h]
    rfl
  | some enable =>
    have hfalse : enable = false := by
      cases enable with
      | true => exact absurd (hrow henable) Bool.false_ne_true
      | false => rfl
    simp only [henable, hfalse] at h
    repeat' split at h
    all_goals
      cases h
      try rfl

theorem kept_added {row : ProfileRow} (hkept : Kept b) (hrow : Readable row)
    (h : step (.added A instance_ row) b = some b') : Kept b' := by
  simp only [step, Option.ite_none_left_eq_some, Option.some.injEq, not_or, not_exists, not_and] at h
  obtain ⟨⟨hinstance, hnew⟩, rfl⟩ := h
  have hpos := Int.not_le.mp hinstance
  have hoff : ¬ onIds b instance_ := by
    intro hids
    obtain ⟨_, bp, hbp, hon⟩ := hids
    exact hnew bp hbp hon.id_eq
  have hunregistered : ¬ Registered instance_ b.timers :=
    fun h => hoff ((hkept.serves.registered _).mp h)
  rcases service_found b invalid (fun s =>
      processBulkDataProfileAdded A b.globalEnable instance_ row s.timers) with
    ⟨-, hsame⟩ | ⟨k, bp, -, hk, hid, hset⟩
  · rw [findFreeProfile, hsame]
    exact hkept
  · rw [findFreeProfile, hset]
    have htended : Tended b instance_ (waiting b instance_)
        (processBulkDataProfileAdded A b.globalEnable instance_ row b.timers) := by
      unfold processBulkDataProfileAdded
      split
      · next bp' hload =>
        have hnotOn : ∀ j, ¬ On bp' j := fun j hj => by
          have hdisabled := loadProfile_fails hrow hload
          rw [hj.2.2] at hdisabled
          cases hdisabled
        exact ⟨Frame.refl _ hkept.serves.nodup, fun j hj => absurd hj (hnotOn j),
          iff_of_false hunregistered fun h => hnotOn _ h.2, fun _ h => absurd h (hnotOn _)⟩
      · next bp' hload =>
        dsimp only
        split
        · next hon =>
          obtain ⟨timers', hstart, hframe, harmed⟩ := startProfile_starts (A := A)
            { bp' with profileId := instance_, isWorking := true } hkept.serves hoff rfl
          rw [hstart]
          refine Tended.of_fits hpos hframe rfl ?_ fun _ _ => .inl harmed
          exact iff_of_true harmed.registered ⟨hon.2, hon.1⟩
        · next hon =>
          refine Tended.same hkept hpos rfl ?_
          exact iff_of_false hunregistered fun h => hon ⟨h.2, h.1⟩
    have hworked : Worked b { b with
        profiles := b.profiles.set k
          (processBulkDataProfileAdded A b.globalEnable instance_ row b.timers).profile
        timers := (processBulkDataProfileAdded A b.globalEnable instance_ row b.timers).timers } k bp
        (processBulkDataProfileAdded A b.globalEnable instance_ row b.timers).profile instance_ :=
      ⟨hk, fun j bq hj hjd => absurd hjd (hnew bq (mem_of_getElem? hj)), .inr hid,
        htended.after, rfl, rfl⟩
    exact hworked.kept hkept hpos htended.frame htended.registered htended.served fun _ _ h => h

/-! ## The global enable -/

variable {profiles : List Profile} {on : Int → Prop} {waits : Int → Prop}

/-- No two profiles that are on have one id. -/
def Apart (profiles : List Profile) : Prop :=
  profiles.Pairwise fun bp bq => ∀ j, On bp j → ¬ On bq j

theorem on_of_kept (h : ¬ (bp.profileId = invalid ∨ bp.isEnabled = false)) :
    ∀ j, On bp j ↔ j = bp.profileId := by
  rw [not_or, Bool.not_eq_false] at h
  intro j
  constructor
  · exact fun hon => hon.id_eq.symm
  · rintro rfl
    exact ⟨rfl, h.1, h.2⟩

theorem not_on_of_skipped (h : bp.profileId = invalid ∨ bp.isEnabled = false) (j : Int) :
    ¬ On bp j := by
  rcases h with hinvalid | hdisabled
  · exact not_on_invalid hinvalid
  · rintro ⟨-, -, henabled⟩
    rw [hdisabled] at henabled
    cases henabled

/-- Each profile that is enabled gets its timer. -/
theorem startAll_serves (A : Answers) :
    ∀ (profiles : List Profile) (timers : List Timer) (on : Int → Prop),
      Serves on waits timers → Apart profiles → (∀ bp ∈ profiles, ∀ j, On bp j → ¬ on j) →
      (startOrStopAll A true profiles timers).1 = profiles ∧
        Serves (fun j => on j ∨ ∃ bp ∈ profiles, On bp j) waits
          (startOrStopAll A true profiles timers).2 := by
  intro profiles
  induction profiles with
  | nil =>
    intro timers on hserves _ _
    exact ⟨rfl, hserves.congr (by simp) fun _ h => h⟩
  | cons bp profiles ih =>
    intro timers on hserves hapart hnew
    obtain ⟨hhead, htail⟩ := List.pairwise_cons.mp hapart
    unfold startOrStopAll
    by_cases hskip : bp.profileId = invalid ∨ bp.isEnabled = false
    · rw [if_pos hskip]
      obtain ⟨hsame, hrest⟩ := ih timers on hserves htail
        fun bq hbq => hnew bq (mem_cons_of_mem _ hbq)
      refine ⟨congrArg (bp :: ·) hsame, hrest.congr (fun j => ?_) fun _ h => h⟩
      simp [not_on_of_skipped hskip j]
    · rw [if_neg hskip]
      have hon := on_of_kept hskip
      obtain ⟨timers', hadd, hframe, harmed⟩ := hserves.add
        (hnew bp mem_cons_self bp.profileId ((hon _).mpr rfl))
        (A.now + toInt (calcWaittimeToNextReportingInterval A bp.reportingInterval bp.timeReference))
      have hserves' : Serves (fun j => on j ∨ On bp j) waits timers' :=
        hserves.change hframe (fun j hj => by simp [hon, hj]) (fun _ _ h => h)
          (iff_of_true harmed.registered (.inr ((hon _).mpr rfl))) fun _ => .inl harmed
      obtain ⟨hsame, hrest⟩ := ih timers' _ hserves' htail fun bq hbq j hj hor => by
        rcases hor with hold | hbp
        · exact hnew bq (mem_cons_of_mem _ hbq) j hj hold
        · exact hhead bq hbq j hbp hj
      simp only [if_true, startProfile, hadd, Serviced.setTimers]
      refine ⟨congrArg (bp :: ·) hsame, hrest.congr (fun j => ?_) fun _ h => h⟩
      simp [or_assoc]

/-- Each profile that is enabled loses its timer. -/
theorem stopAll_serves (A : Answers) :
    ∀ (profiles : List Profile) (timers : List Timer),
      Serves (fun j => ∃ bp ∈ profiles, On bp j) waits timers → Apart profiles →
      Serves (fun _ => False) waits (startOrStopAll A false profiles timers).2 := by
  intro profiles
  induction profiles with
  | nil =>
    intro timers hserves _
    exact hserves.congr (by simp) fun _ h => h
  | cons bp profiles ih =>
    intro timers hserves hapart
    obtain ⟨hhead, htail⟩ := List.pairwise_cons.mp hapart
    unfold startOrStopAll
    by_cases hskip : bp.profileId = invalid ∨ bp.isEnabled = false
    · rw [if_pos hskip]
      refine ih timers (hserves.congr (fun j => ?_) fun _ h => h) htail
      simp [not_on_of_skipped hskip j]
    · rw [if_neg hskip]
      have hon := on_of_kept hskip
      obtain ⟨timers', hremove, hframe, hgone⟩ := hserves.remove
        ⟨bp, mem_cons_self, (hon _).mpr rfl⟩
      have hoff : ¬ ∃ bq ∈ profiles, On bq bp.profileId := by
        rintro ⟨bq, hbq, hbqon⟩
        exact hhead bq hbq _ ((hon _).mpr rfl) hbqon
      have hserves' : Serves (fun j => ∃ bq ∈ profiles, On bq j) waits timers' :=
        hserves.change hframe (fun j hj => by simp [hon, hj]) (fun _ _ h => h)
          (iff_of_false hgone hoff) fun h => absurd h hoff
      have hid : (clearRetainedReports bp).profileId = bp.profileId := rfl
      simp only [Bool.false_eq_true, if_false, stopProfile, hid, hremove, Serviced.setTimers]
      exact ih timers' hserves' htail

theorem apart_of_kept (hkept : Kept b) (hsound : Sound b) : Apart b.profiles := by
  rw [Apart, pairwise_iff_getElem]
  intro j k hj hk hlt i hbp hbq
  refine absurd (hsound.distinct j k _ _ (getElem?_eq_getElem hj) (getElem?_eq_getElem hk)
    ?_ (hbp.id_eq.trans hbq.id_eq.symm)) hlt.ne
  rw [hbp.id_eq]
  exact hkept.positive _ (getElem_mem hj) i hbp

theorem kept_changeGlobalEnable {value : Bool} (hkept : Kept b) (hsound : Sound b)
    (h : step (.changeGlobalEnable A value) b = some b') : Kept b' := by
  simp only [step] at h
  split at h
  · cases h
    exact hkept
  · next hchanged =>
    cases h
    have hapart := apart_of_kept hkept hsound
    cases value with
    | true =>
      have hglobal : b.globalEnable = false := by simpa using Ne.symm hchanged
      have hnone : Serves (fun _ => False) (waiting b) b.timers :=
        hkept.serves.congr (by simp [onIds, hglobal]) fun _ h => h
      obtain ⟨hsame, hserves⟩ := startAll_serves A b.profiles b.timers _ hnone hapart
        fun _ _ _ _ h => h
      refine ⟨fun bp hbp => hkept.positive bp (hsame ▸ hbp), hserves.congr (fun j => ?_) fun _ h => h⟩
      simp only [onIds, hsame, true_and, false_or]
    | false =>
      have hglobal : b.globalEnable = true := by simpa using Ne.symm hchanged
      have hall : Serves (fun j => ∃ bp ∈ b.profiles, On bp j) (waiting b) b.timers :=
        hkept.serves.congr (by simp [onIds, hglobal]) fun _ h => h
      refine ⟨fun bp' hbp' j hon => ?_, (stopAll_serves A b.profiles b.timers hall hapart).congr
        (by simp [onIds]) fun _ h => h⟩
      obtain ⟨k, hk'⟩ := mem_iff_getElem?.mp hbp'
      obtain ⟨hlt', -⟩ := List.getElem?_eq_some_iff.mp hk'
      have hlength := @length_step b _ (.changeGlobalEnable A false)
        (by simp only [step]; rw [if_neg hchanged])
      obtain ⟨bp'', hk'', hcases⟩ := startOrStopAll_slot A false b.profiles b.timers k _
        (getElem?_eq_getElem (hlength ▸ hlt'))
      rw [hk', Option.some.injEq] at hk''
      subst hk''
      rcases hcases with rfl | ⟨-, rfl⟩
      · exact hkept.positive _ (getElem_mem _) j hon
      · exact hkept.positive _ (getElem_mem _) j hon

/-! ## Firings and transfer results -/

theorem waiting_process (b : Bulk) (A : Answers) (id j : Int) (h : waiting b j) :
    waiting (b.process A id) j := by
  obtain ⟨doc, hdoc, hj⟩ := h
  exact ⟨doc, by rw [process_outstanding]; exact mem_append_left _ hdoc, hj⟩

theorem kept_fire (hkept : Kept b) (hsound : Sound b)
    (hrearms : ∀ bp ∈ b.profiles, bp.profileId = id → Rearms A bp ∨ waiting b id)
    (h : step (.fire A id) b = some b') : Kept b' := by
  simp only [step, Option.ite_none_left_eq_some, Option.map_eq_some_iff] at h
  obtain ⟨-, timers, hfire, rfl⟩ := h
  have hfired := fire_some hfire
  have hframe := fire_frame hkept.serves.nodup hfire
  obtain ⟨-, bq, hbq, hbqon⟩ := (hkept.serves.registered id).mp hfired.registered
  have hpos := hkept.positive bq hbq id hbqon
  let b₁ : Bulk := { b with timers := timers, fired := b.fired + 1 }
  rcases service_found b₁ id (fun s => (processProfile A b₁.globalEnable b₁.fired s).1) with
    ⟨hnone, -⟩ | ⟨k, bp, hfind, hk, hid, hset⟩
  · exact absurd hbqon.id_eq (findProfile_eq_none.mp hnone bq hbq)
  · have hfits : Fits b₁.globalEnable ⟨bp, timers⟩ :=
      (registered_congr hfired.ids bp.profileId).trans (hkept.fits hsound hk (hid ▸ hpos))
    have hprocess := processProfile_timed (A := A) b₁.fired hframe.nodup hfits
    have hprocessed := processProfile_processed (A := A) (n := 0) b.globalEnable
      ⟨bp, timers⟩ (Nat.succ_pos b.fired) (Nat.le_refl (b.fired + 1))
    have hdocs : b₁.handedOver A id =
        (processProfile A b.globalEnable (b.fired + 1) ⟨bp, timers⟩).2.toList := by
      simp only [Bulk.handedOver, hfind, Option.bind_some, hk]
      rfl
    have htended : Tended b id (waiting (b₁.process A id) id)
        (processProfile A b.globalEnable (b.fired + 1) ⟨bp, timers⟩).1 := by
      refine Tended.of_fits hpos (hframe.trans (hid ▸ hprocess.timed.frame))
        (hprocess.timed.profileId.trans hid) hprocess.timed.fits fun hglobal hon => ?_
      rcases hrearms bp (mem_of_getElem? hk) hid with hgood | hwaiting
      · refine (hprocess.rearmed hgood hglobal (hprocess.timed.isEnabled.symm.trans hon)).imp
          (fun harmed => hid ▸ harmed) fun hdoc => ?_
        obtain ⟨doc, hdoc⟩ := Option.isSome_iff_exists.mp hdoc
        refine ⟨doc, ?_, ?_⟩
        · rw [process_outstanding, hdocs]
          exact mem_append_right _ (Option.mem_toList.mpr hdoc)
        · rw [(hprocessed.document doc hdoc).2.profileId, hprocessed.profileId, hid]
      · exact .inr (waiting_process b₁ A id id hwaiting)
    have htimers : (b₁.process A id).timers =
        (processProfile A b.globalEnable (b.fired + 1) ⟨bp, timers⟩).1.timers :=
      congrArg Bulk.timers hset
    have hglobal : (b₁.process A id).globalEnable = b.globalEnable :=
      service_globalEnable b₁ _ _
    have hworked : Worked b (b₁.process A id) k bp
        (processProfile A b.globalEnable (b.fired + 1) ⟨bp, timers⟩).1.profile id :=
      worked_found _ hsound hk hid hpos htended.after hglobal (congrArg Bulk.profiles hset)
    exact hworked.kept hkept hpos (htimers ▸ htended.frame) (htimers ▸ htended.registered)
      (htimers ▸ htended.served) fun j _ hwaiting => waiting_process b₁ A id j hwaiting

theorem kept_result (hkept : Kept b) (hsound : Sound b) (h : step (.result A) b = some b') :
    Kept b' := by
  simp only [step] at h
  split at h
  · cases h
  · next doc success results hresults =>
    cases h
    have hposted : doc ∈ b.posted :=
      hsound.outstanding (mem_append_left _ (by simp [hresults]))
    have hpos := (hsound.recorded doc hposted).profileId
    refine kept_service { b with results := results, notified := b.notified ++ [doc] } hkept hsound
      hpos rfl rfl rfl ?_ fun bp hid hfits => ?_
    · rintro j hj ⟨doc', hdoc', hid⟩
      simp only [Bulk.outstanding, hresults, map_cons, cons_append, mem_cons] at hdoc'
      rcases hdoc' with rfl | hrest
      · exact absurd hid.symm hj
      · exact ⟨doc', hrest, hid⟩
    · obtain ⟨htimed, harmed⟩ := resyncProfile_timed (A := A) (s := ⟨bp, b.timers⟩)
        (takeTransferResult success bp) hkept.serves.nodup hfits (by simp) (by simp)
      exact Tended.of_fits hpos (hid ▸ htimed.frame) (htimed.profileId.trans hid) htimed.fits
        fun hglobal hon => .inl (hid ▸ harmed hglobal (htimed.isEnabled.symm.trans hon))

/-- The profiles and timers are left alone, and no document goes. -/
theorem kept_of_outstanding (hkept : Kept b) (hglobal : b'.globalEnable = b.globalEnable)
    (hprofiles : b'.profiles = b.profiles) (htimers : b'.timers = b.timers)
    (houtstanding : b.outstanding ⊆ b'.outstanding) : Kept b' := by
  refine ⟨by rw [hprofiles]; exact hkept.positive, ?_⟩
  rw [htimers]
  refine hkept.serves.congr (fun j => by rw [onIds, onIds, hglobal, hprofiles]) ?_
  rintro j ⟨doc, hdoc, hid⟩
  exact ⟨doc, houtstanding hdoc, hid⟩

/-! ## What is handed over gets one result -/

/-- Every document that was handed over either got its result or waits for it. -/
def Accounted (b : Bulk) : Prop :=
  b.posted.Pairwise (·.serial < ·.serial) ∧ b.posted.Perm (b.notified ++ b.outstanding)

/-- No failure that the code does not get over. -/
def NoFailure (b : Bulk) : Op → Prop
  | .added _ _ row => Readable row
  | .fire A id => ∀ bp ∈ b.profiles, bp.profileId = id → Rearms A bp ∨ waiting b id
  | .receive R => b.thread.messages = [] ∨ ¬ GivesUp R b.thread
  | .complete _ _ sent => sent = true
  | _ => True

instance (b : Bulk) (id : Int) : Decidable (waiting b id) :=
  inferInstanceAs (Decidable (∃ doc ∈ b.outstanding, doc.profileId = id))

instance (b : Bulk) : (op : Op) → Decidable (NoFailure b op)
  | .added _ _ row => inferInstanceAs (Decidable (Readable row))
  | .fire A id => inferInstanceAs
      (Decidable (∀ bp ∈ b.profiles, bp.profileId = id → Rearms A bp ∨ waiting b id))
  | .receive R => inferInstanceAs (Decidable (b.thread.messages = [] ∨ ¬ GivesUp R b.thread))
  | .complete _ _ sent => inferInstanceAs (Decidable (sent = true))
  | .deleted _ | .changeGlobalEnable .. | .changeProfileEnable .. => .isTrue trivial
  | .changeParam .. | .result _ => .isTrue trivial

theorem received_perm {R : ReceiveAnswers} (h : b.thread.messages = [] ∨ ¬ GivesUp R b.thread) :
    (held (processBdcMessageQueueSocketActivity R b.thread)).Perm (held b.thread) := by
  rcases h with hempty | hgood
  · rw [processBdcMessageQueueSocketActivity, hempty]
  · exact held_received hgood

theorem completed_perm {doc : Document} {thread : BdcThread} {success : Bool} {j : Nat}
    (h : handleBdcTransferComplete j b.thread = some (doc, thread)) :
    (((b.results ++ [(doc, success)]).map (·.1)) ++ held thread).Perm b.outstanding := by
  rw [map_append, append_assoc]
  exact (held_completed h).symm.append_left _

theorem kept_step (hkept : Kept b) (hsound : Sound b) (hgood : NoFailure b op)
    (h : step op b = some b') : Kept b' := by
  cases op with
  | added A instance_ row => exact kept_added hkept hgood h
  | deleted instance_ => exact kept_deleted hkept hsound h
  | changeGlobalEnable A value => exact kept_changeGlobalEnable hkept hsound h
  | changeProfileEnable A instance_ value => exact kept_changeProfileEnable hkept hsound h
  | changeParam A instance_ change => exact kept_changeParam hkept hsound h
  | fire A id => exact kept_fire hkept hsound hgood h
  | result A => exact kept_result hkept hsound h
  | receive R =>
    cases h
    exact kept_of_outstanding hkept rfl rfl rfl ((received_perm hgood).symm.append_left _).subset
  | complete j success sent =>
    obtain ⟨⟨doc, thread⟩, hcomplete, rfl⟩ := Option.map_eq_some_iff.mp h
    have hsent : sent = true := hgood
    subst hsent
    exact kept_of_outstanding hkept rfl rfl rfl (completed_perm hcomplete).symm.subset

/-- A firing hands over one document at most. -/
theorem handedOver_cases (b : Bulk) (A : Answers) (id : Int) (hfired : 0 < b.fired) :
    b.handedOver A id = [] ∨ ∃ doc, b.handedOver A id = [doc] ∧ doc.serial = b.fired := by
  unfold Bulk.handedOver
  split
  · exact .inl rfl
  · next bp _ =>
    have hprocessed := processProfile_processed (A := A) (n := 0) b.globalEnable
      ⟨bp, b.timers⟩ hfired (Nat.le_refl b.fired)
    cases hdoc : (processProfile A b.globalEnable b.fired ⟨bp, b.timers⟩).2 with
    | none => exact .inl rfl
    | some doc => exact .inr ⟨doc, rfl, (hprocessed.document doc hdoc).2.serial⟩

theorem accounted_step (haccounted : Accounted b) (hsound : Sound b) (hgood : NoFailure b op)
    (h : step op b = some b') : Accounted b' := by
  obtain ⟨hordered, hperm⟩ := haccounted
  have hquiet : ∀ slot f, Accounted (b.service slot f) := by
    intro slot f
    simpa [Accounted] using ⟨hordered, hperm⟩
  cases op <;> simp only [step, Option.ite_none_left_eq_some, Option.some.injEq,
    Option.map_eq_some_iff] at h
  case changeGlobalEnable A value =>
    split at h <;> cases h <;> exact ⟨hordered, hperm⟩
  case result A =>
    split at h
    · cases h
    · next doc success results hresults =>
      cases h
      refine ⟨by simpa using hordered, ?_⟩
      simp only [service_posted, service_notified, service_outstanding]
      simpa [Bulk.outstanding, hresults] using hperm
  case fire A id =>
    obtain ⟨-, timers, -, rfl⟩ := h
    refine ⟨?_, ?_⟩
    · rw [process_posted]
      rcases handedOver_cases { b with timers := timers, fired := b.fired + 1 } A id
        (Nat.succ_pos _) with hnone | ⟨doc, hdoc, hserial⟩
      · rw [hnone, append_nil]
        exact hordered
      · rw [hdoc]
        refine List.pairwise_append.mpr ⟨hordered, pairwise_singleton _ _, ?_⟩
        intro doc₀ hdoc₀ doc' hdoc'
        cases List.mem_singleton.mp hdoc'
        rw [hserial]
        exact Nat.lt_succ_of_le (hsound.recorded doc₀ hdoc₀).serial
    · rw [process_posted, process_outstanding, ← append_assoc]
      have hnotified : ({ b with timers := timers, fired := b.fired + 1 }.process A id).notified =
          b.notified := service_notified ..
      rw [hnotified]
      exact hperm.append_right _
  case receive R =>
    cases h
    exact ⟨hordered, hperm.trans (((received_perm hgood).symm.append_left _).append_left _)⟩
  case complete j success sent =>
    obtain ⟨⟨doc, thread⟩, hcomplete, rfl⟩ := h
    have hsent : sent = true := hgood
    subst hsent
    exact ⟨hordered, hperm.trans ((completed_perm hcomplete).symm.append_left _)⟩
  all_goals
    obtain ⟨-, rfl⟩ := h
    exact hquiet ..

/-- Every profile that is on reports again, no other timer is registered, and every document
that was handed over has had its one result or waits for it. -/
structure Reporting (b : Bulk) : Prop where
  served : ∀ bp ∈ b.profiles, bp.profileId ≠ invalid → bp.isEnabled = true →
    b.globalEnable = true → Armed bp.profileId b.timers ∨ waiting b bp.profileId
  others : ∀ id, Registered id b.timers → b.globalEnable = true ∧ id ≠ invalid ∧
    ∃ bp ∈ b.profiles, bp.profileId = id ∧ bp.isEnabled = true
  distinct : b.posted.Nodup
  results : b.posted.Perm (b.notified ++ b.outstanding)

theorem kept_init (globalEnable : Bool) : Kept (Bulk.init globalEnable) := by
  have hoff : ∀ bp ∈ (Bulk.init globalEnable).profiles, ∀ id, ¬ On bp id := fun bp hbp id => by
    rw [show bp = { clearedProfile with profileId := invalid } from eq_of_mem_replicate hbp]
    exact not_on_invalid rfl
  refine ⟨fun bp hbp id hon => absurd hon (hoff bp hbp id), ⟨nodup_nil, fun j => ?_, ?_⟩⟩
  · exact iff_of_false (by simp [Registered, Bulk.init]) fun ⟨_, bp, hbp, hon⟩ => hoff bp hbp j hon
  · rintro j ⟨-, bp, hbp, hon⟩
    exact absurd hon (hoff bp hbp j)

theorem reporting_of_kept (hkept : Kept b) (haccounted : Accounted b) : Reporting b := by
  refine ⟨fun bp hbp hvalid hon hglobal => ?_, fun id hid => ?_, ?_, haccounted.2⟩
  · exact hkept.serves.served _ ⟨hglobal, bp, hbp, rfl, hvalid, hon⟩
  · obtain ⟨hglobal, bp, hbp, hbpid, hvalid, henabled⟩ := (hkept.serves.registered id).mp hid
    exact ⟨hglobal, hvalid, bp, hbp, hbpid, henabled⟩
  · exact haccounted.1.imp fun hlt hsame => absurd (hsame ▸ hlt) (Nat.lt_irrefl _)

/-- The protocol of the profile cannot be read when its timer fires. -/
def unreadableProtocol : List Op :=
  [.added (httpAnswers 0) 1 enabledRow, .fire { httpAnswers 60 with protocol := none } 1]

end BulkDataTimers
