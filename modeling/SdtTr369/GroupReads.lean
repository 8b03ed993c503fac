import SdtTr369.QuietReads

/-!
# What a group get vector is filled with

Reading the values of a vector of parameters gives every entry the outcome of its own
parameter: that of the call for its path when it is alone, and otherwise what the callback
of its group has answered for its path. The entries keep their places.
-/

namespace GroupReads

open UspTypes Schema SchemaInvariant EffectProgram Agent List
open DataModelRead HeldInstances QuietReads

section Own

variable (S : DmTree) (W : World)

/-- What the callback of a group has answered for the path. -/
def groupOutcome (answer : Except Err (Str → Option Str)) (path : Str) : Except Err Str :=
  match answer with
  | .error _ => .error .internalError
  | .ok values => match values path with
    | none => .error .internalError
    | some value => .ok value

/-- What reading the parameter of the entry comes to in the state. -/
def ownOutcome (gge : GroupGetEntry) (a : State) : Option (Except Err Str) :=
  match gge.groupId with
  | none => (getParameterValue S W gge.path maxDmValueLen {}).result a
  | some _ => some (groupOutcome (W.groupGet a.calls) gge.path)

/-- The entry with the outcome of its own parameter, in a state that reading comes to. -/
def ReadsOwn (a : State) (gge got : GroupGetEntry) : Prop :=
  ∃ b out, Quiet S a b ∧ ownOutcome S W gge b = some out ∧ got = { gge with outcome := some out }

/-- The entry, read when its group is one of these. -/
structure Filled (a : State) (groups : List (Option Nat)) (gge got : GroupGetEntry) : Prop where
  own : gge.groupId ∈ groups → ReadsOwn S W a gge got
  kept : gge.groupId ∉ groups → got = gge

end Own

section Reads

variable {S : DmTree} {W : World} {a a' : State} {gge got last : GroupGetEntry}

theorem ReadsOwn.before (hq : Quiet S a a') (h : ReadsOwn S W a' gge got) :
    ReadsOwn S W a gge got := by
  obtain ⟨b, out, hb, hout, hgot⟩ := h
  exact ⟨b, out, hq.trans hb, hout, hgot⟩

variable {groups groups' : List (Option Nat)} {ggv gots : List GroupGetEntry}

theorem Filled.before (hq : Quiet S a a') (h : Filled S W a' groups gge got) :
    Filled S W a groups gge got :=
  ⟨fun hg => (h.own hg).before hq, h.kept⟩

theorem Filled.trans (h : Filled S W a groups gge got) (h' : Filled S W a groups' got last) :
    Filled S W a (groups ++ groups') gge last := by
  have hread : ReadsOwn S W a gge got → ReadsOwn S W a gge last := by
    rintro ⟨b, out, hb, hout, rfl⟩
    by_cases hg : gge.groupId ∈ groups'
    · obtain ⟨c, out', hc, hout', rfl⟩ := h'.own hg
      exact ⟨c, out', hc, hout', rfl⟩
    · rw [h'.kept hg]
      exact ⟨b, out, hb, hout, rfl⟩
  constructor
  · intro hg
    by_cases hfirst : gge.groupId ∈ groups
    · exact hread (h.own hfirst)
    · obtain rfl := h.kept hfirst
      exact h'.own ((List.mem_append.mp hg).resolve_left hfirst)
  · intro hg
    rw [mem_append, not_or] at hg
    obtain rfl := h.kept hg.1
    exact h'.kept hg.2

theorem filled_trans {lasts : List GroupGetEntry}
    (h : List.Forall₂ (Filled S W a groups) ggv gots)
    (h' : List.Forall₂ (Filled S W a groups') gots lasts) :
    List.Forall₂ (Filled S W a (groups ++ groups')) ggv lasts := by
  induction h generalizing lasts with
  | nil =>
    cases h'
    exact .nil
  | cons hfirst _ ih =>
    cases h' with
    | cons hfirst' hrest' => exact .cons (hfirst.trans hfirst') (ih hrest')

theorem fillGroup_filled (group : Nat) (gge : GroupGetEntry) :
    Filled S W a [some group] gge (fillGroup group (W.groupGet a.calls) gge) := by
  unfold fillGroup
  constructor
  · intro hg
    rw [mem_singleton] at hg
    refine ⟨a, groupOutcome (W.groupGet a.calls) gge.path, Quiet.refl S a, ?_, ?_⟩
    · rw [ownOutcome, hg]
    · rw [if_neg (not_not.mpr hg)]
      unfold groupOutcome
      cases W.groupGet a.calls with
      | error e => rfl
      | ok values =>
        dsimp only
        cases values gge.path <;> rfl
  · intro hg
    rw [mem_singleton] at hg
    rw [if_pos hg]

theorem getParameterGroup_fills (ggv : List GroupGetEntry) (group : Nat) (a : State) :
    Wp True (getParameterGroup W ggv group) a
      (fun gots a' => Quiet S a a' ∧ List.Forall₂ (Filled S W a [some group]) ggv gots)
      (fun _ _ => False) := by
  unfold getParameterGroup
  split
  · rw [wp_bind, wp_call, wp_pure]
    refine ⟨quiet_calls S a _, ?_⟩
    rw [forall₂_map_right_iff, forall₂_same]
    exact fun gge _ => fillGroup_filled group gge
  · rename_i hnone
    rw [wp_pure]
    refine ⟨Quiet.refl S a, ?_⟩
    rw [forall₂_same]
    refine fun gge hgge => ⟨fun hg => absurd ?_ hnone, fun _ => rfl⟩
    rw [mem_singleton] at hg
    exact List.any_eq_true.mpr ⟨gge, hgge, by simpa using hg⟩

theorem getGroups_fills (groups : List Nat) (ggv : List GroupGetEntry) (a : State) :
    Wp True (getGroups W groups ggv) a
      (fun gots _ => List.Forall₂ (Filled S W a (groups.map some)) ggv gots)
      (fun _ _ => False) := by
  induction groups generalizing ggv a with
  | nil =>
    rw [getGroups, wp_pure, forall₂_same]
    exact fun gge _ => ⟨nofun, fun _ => rfl⟩
  | cons group groups ih =>
    rw [getGroups, wp_bind]
    have hfirst := getParameterGroup_fills (S := S) (W := W) ggv group a
    refine hfirst.mono (fun gots a' h => ?_) fun _ _ h => h
    refine (ih gots a').mono (fun lasts _ h' => ?_) fun _ _ h => h
    exact filled_trans h.2 (h'.imp fun _ _ hfilled => hfilled.before h.1)

theorem getUngrouped_fills {limit : Nat} (hS : SchemaOk limit S) (ggv : List GroupGetEntry)
    (a : State) : Wp True (getUngrouped S W ggv) a
      (fun gots a' => Quiet S a a' ∧ List.Forall₂ (Filled S W a [none]) ggv gots)
      (fun _ _ => False) := by
  induction ggv generalizing a with
  | nil => exact ⟨Quiet.refl S a, .nil⟩
  | cons gge ggv ih =>
    have hrest : ∀ got a', Quiet S a a' → Filled S W a [none] gge got →
        Wp True (getUngrouped S W ggv) a' (fun gots a'' => Quiet S a a'' ∧
          List.Forall₂ (Filled S W a [none]) (gge :: ggv) (got :: gots)) fun _ _ => False := by
      intro got a' hq hgot
      refine (ih a').mono (fun gots a'' h => ?_) fun _ _ h => h
      exact ⟨hq.trans h.1, .cons hgot (h.2.imp fun _ _ hfilled => hfilled.before hq)⟩
    rw [getUngrouped]
    split
    · rename_i hnone
      rw [Option.isNone_iff_eq_none] at hnone
      simp only [wp_bind, wp_attempt, wp_pure]
      have hown : ∀ out a', getParameterValue S W gge.path maxDmValueLen {} a = some (out, a') →
          Filled S W a [none] gge { gge with outcome := some out } := by
        intro out a' hrun
        refine ⟨fun _ => ⟨a, out, Quiet.refl S a, ?_, rfl⟩, fun hg => absurd ?_ hg⟩
        · rw [ownOutcome, hnone]
          exact (Prog.result_after hrun).1
        · rw [hnone]
          exact mem_singleton_self _
      have hread := Wp.and_run (getParameterValue_within (W := W) hS gge.path maxDmValueLen {} a)
      exact hread.mono (fun value a' h => hrest _ a' h.1 (hown _ a' h.2))
        fun e a' h => hrest _ a' h.1 (hown _ a' h.2)
    · rename_i hgroup
      simp only [wp_bind, wp_pure]
      refine hrest gge a (Quiet.refl S a) ⟨fun hg => absurd ?_ hgroup, fun _ => rfl⟩
      rw [mem_singleton] at hg
      rw [hg]
      rfl

/-- Every entry of one of the groups, or of none, is read. -/
theorem groupGetValues_own {limit : Nat} (hS : SchemaOk limit S)
    (hgroups : ∀ gge ∈ ggv, ∀ group, gge.groupId = some group → group < maxVendorParamGroups)
    (a : State) : Wp True (groupGetValues S W ggv) a
      (fun gots _ => List.Forall₂ (ReadsOwn S W a) ggv gots) (fun _ _ => False) := by
  rw [groupGetValues, wp_bind]
  refine (getUngrouped_fills hS ggv a).mono (fun gots a' h => ?_) fun _ _ h => h
  have hgrouped := getGroups_fills (S := S) (W := W) (List.range maxVendorParamGroups) gots a'
  refine hgrouped.mono (fun lasts _ h' => ?_) fun _ _ h => h
  have hfilled := filled_trans h.2 (h'.imp fun _ _ hfilled => hfilled.before h.1)
  refine List.forall₂_iff_get.mpr ⟨hfilled.length_eq, fun i hi hi' => ?_⟩
  refine (hfilled.get hi hi').own ?_
  cases hgroup : (ggv.get ⟨i, hi⟩).groupId with
  | none => simp
  | some group =>
    have hlt := hgroups _ (get_mem ggv ⟨i, hi⟩) group hgroup
    simp [hlt]

/-- The entries that have been read are those of the same paths, and have outcomes. -/
theorem own_reads (h : List.Forall₂ (ReadsOwn S W a) ggv gots) :
    gots.map GroupGetEntry.path = ggv.map GroupGetEntry.path ∧
      ∀ got ∈ gots, got.outcome.isSome = true := by
  induction h with
  | nil => exact ⟨rfl, nofun⟩
  | @cons gge got ggv gots hfirst _ ih =>
    obtain ⟨b, out, -, -, rfl⟩ := hfirst
    exact ⟨by rw [map_cons, map_cons, ih.1], List.forall_mem_cons.mpr ⟨rfl, ih.2⟩⟩

end Reads

end GroupReads
