import SdtTr369.ResolverFrames

/-!
# The walk below an object

A partial path is answered by a walk over everything below its object. `Walks`
says which parameters, operations and events lie there and what their paths
are. The walk of the source adds exactly these, each of them once
(`getChildParams_adds`), whether or not a path is in the vector already.
-/

namespace ObjectWalk

open UspTypes Schema SchemaInvariant DecimalText PathCodec PathText EffectProgram Agent
open List
open DataModel DataModelRead InstanceTree HeldInstances PathResolver ResolverFrames

/-- The node `leaf` with the instances `t` lies at most `depth` names below the
object `node` with the instances `inst`; their paths are `p` and `path`. -/
inductive Walks (S : DmTree) (known : DmInstances → Prop) :
    Nat → Str → NodeId → DmInstances → NodeId → DmInstances → Str → Prop where
  | leaf {depth : Nat} {path : Str} {node child : NodeId} {inst : DmInstances} :
      child ∈ (S.node node).childNodes → isObject (S.node child).type = false →
      Walks S known (depth + 1) path node inst child inst (appendName path (S.node child).name)
  | object {depth : Nat} {path p : Str} {node child leaf : NodeId} {inst t : DmInstances} :
      child ∈ (S.node node).childNodes → (S.node child).type = .objectSingleInstance →
      Walks S known depth (appendName path (S.node child).name) child inst leaf t p →
      Walks S known (depth + 1) path node inst leaf t p
  | table {depth : Nat} {path p : Str} {node child leaf : NodeId} {inst t : DmInstances} {n : Int} :
      child ∈ (S.node node).childNodes → (S.node child).type = .objectMultiInstance →
      known (inst ++ [(child, n)]) →
      Walks S known depth (appendName (appendName path (S.node child).name) (intDigits n)) child
        (inst ++ [(child, n)]) leaf t p →
      Walks S known (depth + 1) path node inst leaf t p

/-- What lies at or below a child whose path is `path`. -/
def Enters (S : DmTree) (known : DmInstances → Prop) (depth : Nat) (path : Str) (child : NodeId)
    (inst : DmInstances) (leaf : NodeId) (t : DmInstances) (p : Str) : Prop :=
  match (S.node child).type with
  | .objectSingleInstance => Walks S known depth path child inst leaf t p
  | .objectMultiInstance => ∃ n, known (inst ++ [(child, n)]) ∧
      Walks S known depth (appendName path (intDigits n)) child (inst ++ [(child, n)]) leaf t p
  | _ => leaf = child ∧ t = inst ∧ p = path

section Relation

variable {S : DmTree} {known : DmInstances → Prop} {depth : Nat} {path p : Str}
  {node leaf : NodeId} {inst t : DmInstances}

theorem not_walks_zero : ¬ Walks S known 0 path node inst leaf t p := nofun

theorem walks_succ : Walks S known (depth + 1) path node inst leaf t p ↔
    ∃ child ∈ (S.node node).childNodes,
      Enters S known depth (appendName path (S.node child).name) child inst leaf t p := by
  constructor
  · intro h
    cases h with
    | leaf hc htype =>
      refine ⟨_, hc, ?_⟩
      unfold Enters
      split
      · simp_all [isObject]
      · simp_all [isObject]
      · exact ⟨rfl, rfl, rfl⟩
    | object hc htype h =>
      refine ⟨_, hc, ?_⟩
      simp only [Enters, htype]
      exact h
    | table hc htype hn h =>
      refine ⟨_, hc, ?_⟩
      simp only [Enters, htype]
      exact ⟨_, hn, h⟩
  · rintro ⟨child, hc, h⟩
    unfold Enters at h
    split at h
    · exact .object hc (by assumption) h
    · obtain ⟨n, hn, h⟩ := h
      exact .table hc (by assumption) hn h
    · obtain ⟨rfl, rfl, rfl⟩ := h
      refine .leaf hc ?_
      cases htype : (S.node leaf).type <;> simp_all [isObject]

theorem appendName_short {name : Str} (h : (appendName path name).length < maxDmPath - 1) :
    appendName path name = path ++ '.' :: name := by
  rw [appendName, length_take] at h
  exact take_of_length_le (by omega)

theorem Walks.isPrefix (h : Walks S known depth path node inst leaf t p) : inst <+: t := by
  induction h with
  | leaf _ _ => exact prefix_rfl
  | object _ _ _ ih => exact ih
  | table _ _ _ _ ih => exact (prefix_append _ _).trans ih

/-- Nothing, or a dot and more. -/
def IsTail (r : Str) : Prop := r = [] ∨ ∃ r', r = '.' :: r'

variable {r r' : Str}

theorem IsTail.append (h : IsTail r) (h' : IsTail r') : IsTail (r ++ r') := by
  rcases h with rfl | ⟨q, rfl⟩
  · exact h'
  · exact .inr ⟨_, rfl⟩

theorem separator_tail (type : NodeType) : IsTail (separator type) := by
  unfold separator
  split
  · exact .inr ⟨_, rfl⟩
  · exact .inl rfl

/-- The name behind a path can be read off when it has no dot. -/
theorem name_eq {path s s' : Str} (hs : '.' ∉ s) (hs' : '.' ∉ s') (hr : IsTail r)
    (hr' : IsTail r') (h : path ++ '.' :: s ++ r = path ++ '.' :: s' ++ r') : s = s' := by
  rw [append_assoc, append_assoc] at h
  have h : s ++ r = s' ++ r' := tail_eq_of_cons_eq (append_cancel_left h)
  rw [← (firstSegment_nodot hs hr).1, h, (firstSegment_nodot hs' hr').1]

section Subtrees

variable {limit : Nat} (hS : SchemaOk limit S)

include hS

/-- What continues the schema path of a child continues that of the object. -/
theorem tail_of_child {child : NodeId} (hlt : node < S.nodes.length)
    (hc : child ∈ (S.node node).childNodes) {q : Str} (hq : q = (S.node child).path ++ r) :
    ∃ r', IsTail r' ∧ q = (S.node node).path ++ r' := by
  rw [hS.child_path node hlt child hc] at hq
  exact ⟨'.' :: ((S.node child).name ++ (separator (S.node child).type ++ r)), .inr ⟨_, rfl⟩,
    by simp [hq]⟩

/-- The schema path of what a walk reaches continues that of the object. -/
theorem Walks.schemaPath (h : Walks S known depth path node inst leaf t p)
    (hlt : node < S.nodes.length) : ∃ r, IsTail r ∧ (S.node leaf).path = (S.node node).path ++ r := by
  induction h with
  | leaf hc _ => exact tail_of_child hS hlt hc (append_nil _).symm
  | object hc _ _ ih =>
    obtain ⟨r, -, hr⟩ := ih (hS.child_bounds _ hlt _ hc).2
    exact tail_of_child hS hlt hc hr
  | table hc _ _ _ ih =>
    obtain ⟨r, -, hr⟩ := ih (hS.child_bounds _ hlt _ hc).2
    exact tail_of_child hS hlt hc hr

theorem Enters.schemaPath {child : NodeId}
    (h : Enters S known depth path child inst leaf t p) (hlt : child < S.nodes.length) :
    ∃ r, IsTail r ∧ (S.node leaf).path = (S.node child).path ++ r := by
  unfold Enters at h
  split at h
  · exact h.schemaPath hS hlt
  · obtain ⟨n, -, h⟩ := h
    exact h.schemaPath hS hlt
  · obtain ⟨rfl, -, -⟩ := h
    exact ⟨[], .inl rfl, (append_nil _).symm⟩

/-- Two children with the same schema path below them are one. -/
theorem child_of_schemaPath {c d : NodeId} (hlt : node < S.nodes.length)
    (hc : c ∈ (S.node node).childNodes) (hd : d ∈ (S.node node).childNodes) {q : Str}
    (hr : IsTail r) (hr' : IsTail r') (hq : q = (S.node c).path ++ r)
    (hq' : q = (S.node d).path ++ r') : c = d := by
  have hname : (S.node c).name = (S.node d).name := by
    rw [hS.child_path node hlt c hc, append_assoc] at hq
    rw [hS.child_path node hlt d hd, append_assoc] at hq'
    exact name_eq (hS.child_name node hlt c hc).2.1 (hS.child_name node hlt d hd).2.1
      ((separator_tail _).append hr) ((separator_tail _).append hr') (hq.symm.trans hq')
  exact inj_on_of_nodup_map (hS.sibling_names node hlt) hc hd hname

end Subtrees

end Relation

/-! ## Programs that add paths -/

/-- Something that a walk has found. -/
structure Found where
  node : NodeId
  inst : DmInstances
  path : Str

/-- The paths of different things of `Φ` were added. What `Φ` holds of is asked of
the data model as any later refresh leaves it. -/
def Added (S : DmTree) (Φ : State → Found → Prop) (s s' : RState) : Prop :=
  Quiet S s.agent s'.agent ∧ ∃ L : List Found, s'.sv = s.sv ++ L.map Found.path ∧ L.Nodup ∧
    ∀ a, Quiet S s'.agent a → ∀ e ∈ L, Φ a e

/-- The paths of all things of `Φ` were added. -/
def AddedAll (S : DmTree) (Φ : State → Found → Prop) (s s' : RState) : Prop :=
  Quiet S s.agent s'.agent ∧ ∃ L : List Found, s'.sv = s.sv ++ L.map Found.path ∧ L.Nodup ∧
    ∀ a, Quiet S s'.agent a → ∀ e, e ∈ L ↔ Φ a e

def Adds (S : DmTree) (Φ : State → Found → Prop) (m : ROp Unit) : Prop :=
  ∀ s, StateOk S s.agent →
    Wp True m s (fun _ s' => AddedAll S Φ s s') (fun _ s' => Added S Φ s s')

section Adds

variable {S : DmTree} {Φ Ψ : State → Found → Prop} {s s' s'' : RState}

theorem Added.refl (S : DmTree) (Φ : State → Found → Prop) (s : RState) : Added S Φ s s :=
  ⟨Quiet.refl S s.agent, [], by simp, nodup_nil, by simp⟩

theorem AddedAll.nothing (hΦ : ∀ a e, ¬ Φ a e) (s : RState) : AddedAll S Φ s s :=
  ⟨Quiet.refl S s.agent, [], by simp, nodup_nil, fun a _ e => by simp [hΦ a e]⟩

theorem AddedAll.added (h : AddedAll S Φ s s') : Added S Φ s s' := by
  obtain ⟨hq, L, hL, hnodup, hΦ⟩ := h
  exact ⟨hq, L, hL, hnodup, fun a ha e => (hΦ a ha e).mp⟩

/-- A run that adds things of `Φ`, whatever its outcome. -/
theorem Adds.added {m : ROp Unit} {r : Except Fault Unit} (h : Adds S Φ m)
    (hok : StateOk S s.agent) (hrun : m s = some (r, s')) : Added S Φ s s' :=
  keeps_of_run ((h s hok).mono (fun _ _ h => AddedAll.added h) fun _ _ h => h) hrun

variable {a : State}

/-- Quiet steps in front of an addition. -/
theorem Added.after (hq : Quiet S s.agent a) (himp : ∀ b, Quiet S a b → ∀ e, Φ b e → Ψ b e)
    (h : Added S Φ { s with agent := a } s') : Added S Ψ s s' := by
  obtain ⟨hq', L, hL, hnodup, hΦ⟩ := h
  exact ⟨hq.trans hq', L, hL, hnodup, fun b hb e he => himp b (Quiet.trans hq' hb) e (hΦ b hb e he)⟩

theorem AddedAll.after (hq : Quiet S s.agent a) (hiff : ∀ b, Quiet S a b → ∀ e, Φ b e ↔ Ψ b e)
    (h : AddedAll S Φ { s with agent := a } s') : AddedAll S Ψ s s' := by
  obtain ⟨hq', L, hL, hnodup, hΦ⟩ := h
  exact ⟨hq.trans hq', L, hL, hnodup, fun b hb e =>
    (hΦ b hb e).trans (hiff b (Quiet.trans hq' hb) e)⟩

theorem Adds.congr {m : ROp Unit} (h : Adds S Φ m) (hiff : ∀ a e, Φ a e ↔ Ψ a e) :
    Adds S Ψ m := fun s hok =>
  (h s hok).mono (fun _ _ h => h.after (Quiet.refl S _) fun b _ e => hiff b e)
    fun _ _ h => h.after (Quiet.refl S _) fun b _ e => (hiff b e).mp

/-- What is added one after the other and does not overlap. -/
theorem AddedAll.then_added (h : AddedAll S Φ s s') (h' : Added S Ψ s' s'')
    (hapart : ∀ a e, Φ a e → ¬ Ψ a e) : Added S (fun a e => Φ a e ∨ Ψ a e) s s'' := by
  obtain ⟨hq, L, hL, hnodup, hΦ⟩ := h
  obtain ⟨hq', L', hL', hnodup', hΨ⟩ := h'
  refine ⟨hq.trans hq', L ++ L', ?_, ?_, fun a ha e he => ?_⟩
  · rw [hL', hL, map_append, append_assoc]
  · refine List.nodup_append.mpr ⟨hnodup, hnodup', ?_⟩
    rintro e he e' he' rfl
    exact hapart s''.agent e ((hΦ _ hq' e).mp he) (hΨ _ (Quiet.refl S _) e he')
  · rcases List.mem_append.mp he with he | he
    · exact .inl ((hΦ a (hq'.trans ha) e).mp he)
    · exact .inr (hΨ a ha e he)

theorem AddedAll.then_all (h : AddedAll S Φ s s') (h' : AddedAll S Ψ s' s'')
    (hapart : ∀ a e, Φ a e → ¬ Ψ a e) : AddedAll S (fun a e => Φ a e ∨ Ψ a e) s s'' := by
  obtain ⟨hq, L, hL, hnodup, hΦ⟩ := h
  obtain ⟨hq', L', hL', hnodup', hΨ⟩ := h'
  refine ⟨hq.trans hq', L ++ L', ?_, ?_, fun a ha e => ?_⟩
  · rw [hL', hL, map_append, append_assoc]
  · refine List.nodup_append.mpr ⟨hnodup, hnodup', ?_⟩
    rintro e he e' he' rfl
    exact hapart s''.agent e ((hΦ _ hq' e).mp he) ((hΨ _ (Quiet.refl S _) e).mp he')
  · rw [mem_append, hΦ a (hq'.trans ha), hΨ a ha]

theorem adds_forEach {β : Type} {Φ : β → State → Found → Prop} {f : β → ROp Unit} (xs : List β)
    (h : ∀ x ∈ xs, Adds S (Φ x) (f x))
    (hapart : xs.Pairwise fun x y => ∀ a e, Φ x a e → ¬ Φ y a e) :
    Adds S (fun a e => ∃ x ∈ xs, Φ x a e) (.forEach xs f) := by
  induction xs with
  | nil => exact fun s _ => AddedAll.nothing (by simp) s
  | cons x xs ih =>
    obtain ⟨hx, hrest⟩ := List.pairwise_cons.mp hapart
    have ih := ih (fun y hy => h y (mem_cons_of_mem _ hy)) hrest
    have hdisjoint : ∀ a e, Φ x a e → ¬ ∃ y ∈ xs, Φ y a e := by
      rintro a e he ⟨y, hy, he'⟩
      exact hx y hy a e he he'
    have hiff : ∀ a e, (Φ x a e ∨ ∃ y ∈ xs, Φ y a e) ↔ ∃ y ∈ x :: xs, Φ y a e := by simp
    refine Adds.congr (fun s hok => ?_) hiff
    rw [Prog.forEach, wp_bind]
    refine (h x mem_cons_self s hok).mono (fun _ s' hs' => ?_) fun _ s' hs' =>
      hs'.after (Quiet.refl S _) fun _ _ _ => .inl
    exact (ih s' (hs'.1.ok hok)).mono (fun _ s'' hs'' => hs'.then_all hs'' hdisjoint)
      fun _ s'' hs'' => hs'.then_added hs'' hdisjoint

/-- The paths of an addition, as a set. -/
theorem Added.sound (h : Added S Φ s s') (ha : Quiet S s'.agent a) {p : Str} (hp : p ∈ s'.sv) :
    p ∈ s.sv ∨ ∃ e, Φ a e ∧ e.path = p := by
  obtain ⟨-, L, hL, -, hΦ⟩ := h
  rw [hL, mem_append, mem_map] at hp
  refine hp.imp_right ?_
  rintro ⟨e, he, rfl⟩
  exact ⟨e, hΦ a ha e he, rfl⟩

/-- Nothing of `Φ` is listed already or shares its path. -/
def Apart (Φ : State → Found → Prop) (a : State) (sv : List Str) : Prop :=
  ∀ e, Φ a e → e.path ∉ sv ∧ ∀ e', Φ a e' → e'.path = e.path → e' = e

theorem nodup_paths {sv : List Str} (hs : sv.Nodup) {L : List Found} (hL : L.Nodup)
    (hapart : ∀ e ∈ L, e.path ∉ sv ∧ ∀ e' ∈ L, e'.path = e.path → e' = e) :
    (sv ++ L.map Found.path).Nodup := by
  refine List.nodup_append.mpr ⟨hs, List.Nodup.map_on (fun e he e' he' heq => ?_) hL, ?_⟩
  · exact (hapart e' he').2 e he heq
  · rintro p hp q hq rfl
    obtain ⟨e, he, rfl⟩ := List.mem_map.mp hq
    exact (hapart e he).1 hp

theorem Added.nodup (h : Added S Φ s s') (hs : s.sv.Nodup) (ha : Quiet S s'.agent a)
    (hapart : Apart Φ a s.sv) : s'.sv.Nodup := by
  obtain ⟨-, L, hL, hnodup, hΦ⟩ := h
  have hΦ := hΦ a ha
  rw [hL]
  exact nodup_paths hs hnodup fun e he =>
    ⟨(hapart e (hΦ e he)).1, fun e' he' => (hapart e (hΦ e he)).2 e' (hΦ e' he')⟩

theorem AddedAll.apart (h : AddedAll S Φ s s') (hs : s'.sv.Nodup) (ha : Quiet S s'.agent a) :
    Apart Φ a s.sv := by
  obtain ⟨-, L, hL, hnodup, hΦ⟩ := h
  have hΦ := hΦ a ha
  rw [hL, nodup_append] at hs
  intro e he
  refine ⟨fun hmem => hs.2.2 _ hmem _ (mem_map_of_mem ((hΦ e).mpr he)) rfl, fun e' he' heq => ?_⟩
  exact inj_on_of_nodup_map hs.2.1 ((hΦ e').mpr he') ((hΦ e).mpr he) heq

end Adds

/-! ## The walk of the source -/

/-- What a walk is to add. -/
def WalkFinds (S : DmTree) (P : PermissionTable) (rq : Request) (depth : Nat) (path : Str)
    (node : NodeId) (inst : DmInstances) (a : State) (e : Found) : Prop :=
  rq.wantsPaths = true ∧ Walks S (Known a) depth path node inst e.node e.inst e.path ∧
    checkChild rq.op (S.node e.node).type (getPermissions P e.node rq.role) = .ok true

section Walk

variable {S : DmTree} {P : PermissionTable} {W : World} {rq : Request}
  (hS : SchemaOk maxDmInstanceOrder S)

theorem addChildFound_adds (path : Str) (groupId : Option Nat) (child : NodeId)
    (inst : DmInstances) :
    Adds S (fun _ e => rq.wantsPaths = true ∧ e.node = child ∧ e.inst = inst ∧ e.path = path)
      (addChildFound rq path groupId) := by
  intro s hok
  rw [addChildFound, wp_update]
  by_cases hwants : rq.wantsPaths = true
  · refine ⟨Quiet.refl S _, [⟨child, inst, path⟩], by simp [hwants], nodup_singleton _,
      fun a _ e => ?_⟩
    rw [mem_singleton]
    constructor
    · rintro rfl
      exact ⟨hwants, rfl, rfl, rfl⟩
    · rintro ⟨-, rfl, rfl, rfl⟩
      rfl
  · exact ⟨Quiet.refl S _, [], by simp [hwants], nodup_nil, fun a _ e => by simp [hwants]⟩

include hS

theorem getTableParams_adds {walk : Str → NodeId → DmInstances → ROp Unit} {depth : Nat}
    {path : Str} {node : NodeId} {inst : DmInstances} (htable : IsTableOf S node inst)
    (hwalk : ∀ n, Adds S
      (WalkFinds S P rq depth (appendName path (intDigits n)) node (inst ++ [(node, n)]))
      (walk (appendName path (intDigits n)) node (inst ++ [(node, n)]))) :
    Adds S (fun a e => ∃ n, Known a (inst ++ [(node, n)]) ∧
      WalkFinds S P rq depth (appendName path (intDigits n)) node (inst ++ [(node, n)]) a e)
      (getTableParams S W walk depth path node inst) := by
  intro s hok
  unfold getTableParams
  split
  · rename_i hdepth
    subst hdepth
    exact AddedAll.nothing (fun a e ⟨n, _, _, h, _⟩ => not_walks_zero h) s
  · rw [wp_bind, wp_onAgent]
    refine (instVectorGetInstances_spec hS hok htable).mono (fun iv a h => ?_) fun e a h =>
      (Added.refl S _ { s with agent := a }).after h fun _ _ _ h => h
    obtain ⟨hq, hset, hnodup, hiv⟩ := h
    have hiff : ∀ b, Quiet S a b → ∀ e,
        (∃ n ∈ iv, WalkFinds S P rq depth (appendName path (intDigits n)) node
          (inst ++ [(node, n)]) b e) ↔
        ∃ n, Known b (inst ++ [(node, n)]) ∧ WalkFinds S P rq depth
          (appendName path (intDigits n)) node (inst ++ [(node, n)]) b e := by
      intro b hb e
      refine exists_congr fun n => and_congr_left fun _ => ?_
      rw [hiv n, hb.known_iff (by simp) (topNodeOf_eq n ▸ hset)]
    -- the tuple of what is found ends the prefix with one number only
    have hapart : iv.Pairwise fun m n => ∀ b e,
        WalkFinds S P rq depth (appendName path (intDigits m)) node (inst ++ [(node, m)]) b e →
        ¬ WalkFinds S P rq depth (appendName path (intDigits n)) node (inst ++ [(node, n)]) b e := by
      refine hnodup.imp fun {m n} hne b e hm hn => ?_
      have hpre := prefix_of_prefix_length_le hm.2.1.isPrefix hn.2.1.isPrefix (by simp)
      simpa [hne] using hpre.eq_of_length (by simp)
    exact (adds_forEach iv (fun n _ => hwalk n) hapart { s with agent := a } (hq.ok hok)).mono
      (fun _ _ h => h.after hq hiff) fun _ _ h => h.after hq fun b hb e => (hiff b hb e).mp

theorem getChildParams_adds (depth : Nat) (path : Str) (node : NodeId) (inst : DmInstances)
    (hlt : node < S.nodes.length) (hnodes : inst.map Prod.fst = (S.node node).instanceNodes) :
    Adds S (WalkFinds S P rq depth path node inst)
      (getChildParams S P W rq depth path node inst) := by
  induction depth generalizing path node inst with
  | zero => exact fun s _ => AddedAll.nothing (fun a e ⟨_, h, _⟩ => not_walks_zero h) s
  | succ depth ih =>
    rw [getChildParams]
    refine Adds.congr (adds_forEach _ (fun child hc => (?_ : Adds S (fun a e =>
      rq.wantsPaths = true ∧
        Enters S (Known a) depth (appendName path (S.node child).name) child inst
          e.node e.inst e.path ∧
        checkChild rq.op (S.node e.node).type (getPermissions P e.node rq.role) = .ok true) _))
      ?_) fun a e => ?_
    · obtain ⟨-, hclt⟩ := hS.child_bounds node hlt child hc
      split
      · rename_i htype
        have hsame : inst.map Prod.fst = (S.node child).instanceNodes := by
          rw [instanceNodes_other hS hlt hc (by simp [htype]), hnodes]
        simp only [Enters, htype]
        exact ih _ child inst hclt hsame
      · rename_i htype
        have htable := IsTableOf.of_child hS hlt hnodes hc htype
        simp only [Enters, htype]
        refine Adds.congr (getTableParams_adds hS htable fun n => ih _ child _ hclt
          (htable.instance n).nodes) fun a e => ?_
        constructor
        · rintro ⟨n, hn, hw, h, hcheck⟩
          exact ⟨hw, ⟨n, hn, h⟩, hcheck⟩
        · rintro ⟨hw, ⟨n, hn, h⟩, hcheck⟩
          exact ⟨n, hn, hw, h, hcheck⟩
      · rename_i type hsingle hmulti
        have henters : ∀ a leaf t p, Enters S (Known a) depth
            (appendName path (S.node child).name) child inst leaf t p ↔
            leaf = child ∧ t = inst ∧ p = appendName path (S.node child).name := by
          intro a leaf t p
          unfold Enters
          split
          · exact absurd (by assumption) hsingle
          · exact absurd (by assumption) hmulti
          · rfl
        simp only [henters]
        split
        · exact fun s _ => Added.refl S _ s
        · rename_i addToVector hcheck
          cases addToVector with
          | true =>
            refine Adds.congr (addChildFound_adds _ _ child inst) fun a e => ?_
            constructor
            · rintro ⟨hw, hnode, hinst, hpath⟩
              exact ⟨hw, ⟨hnode, hinst, hpath⟩, by rw [hnode]; exact hcheck⟩
            · rintro ⟨hw, ⟨hnode, hinst, hpath⟩, -⟩
              exact ⟨hw, hnode, hinst, hpath⟩
          | false =>
            refine fun s _ => AddedAll.nothing ?_ s
            rintro a e ⟨-, ⟨hnode, -, -⟩, hcheck'⟩
            rw [hnode, hcheck] at hcheck'
            cases hcheck'
    · refine List.Pairwise.imp_of_mem (fun {c d} hc hd hne a e hce hde => hne ?_)
        (childNodes_nodup hS hlt)
      obtain ⟨r, hr, hq⟩ := hce.2.1.schemaPath hS (hS.child_bounds node hlt c hc).2
      obtain ⟨r', hr', hq'⟩ := hde.2.1.schemaPath hS (hS.child_bounds node hlt d hd).2
      exact child_of_schemaPath hS hlt hc hd hr hr' hq hq'
    · simp only [WalkFinds, walks_succ]
      constructor
      · rintro ⟨child, hc, hw, h, hcheck⟩
        exact ⟨hw, ⟨child, hc, h⟩, hcheck⟩
      · rintro ⟨hw, ⟨child, hc, h⟩, hcheck⟩
        exact ⟨child, hc, hw, h, hcheck⟩

/-- What lies below the object of a partial path. -/
def PartialFinds (S : DmTree) (P : PermissionTable) (rq : Request) (path : Str) (a : State)
    (e : Found) : Prop :=
  match getQualifiedNode S path with
  | none => False
  | some (node, inst, isQualified) =>
    isObject (S.node node).type = true ∧ (inst = [] ∨ Known a inst) ∧
      if isQualified then WalkFinds S P rq rq.depth path node inst a e
      else ∃ n, Known a (inst ++ [(node, n)]) ∧ WalkFinds S P rq rq.depth
        (appendName path (intDigits n)) node (inst ++ [(node, n)]) a e

theorem resolvePartialPath_adds (path : Str) :
    Adds S (PartialFinds S P rq path) (resolvePartialPath S P W rq path) := by
  intro s hok
  unfold resolvePartialPath
  cases hget : getQualifiedNode S path with
  | none => exact Added.refl S _ s
  | some found =>
    obtain ⟨node, inst, isQualified⟩ := found
    obtain ⟨hlt, hnodes, htable⟩ := getQualifiedNode_spec hS hget
    simp only
    split
    · exact Added.refl S _ s
    · rename_i hobject
      have hobject : isObject (S.node node).type = true := by simpa using hobject
      rw [wp_bind, wp_onAgent]
      refine (instVectorIsExist_spec hS hok fun _ _ => trivial).mono (fun b a h => ?_)
        fun _ a hq => (Added.refl S _ { s with agent := a }).after hq fun _ _ _ h => h
      obtain ⟨hq, hset, hexist⟩ := h
      have hlater : ∀ b, Quiet S a b → ((inst = [] ∨ Known b inst) ↔ inst = [] ∨ Known a inst) := by
        intro b hb
        by_cases hne : inst = []
        · simp [hne]
        · rw [hb.known_iff hne (hset hne)]
      split
      · rename_i hb
        have hfinds : ∀ b, Quiet S a b → ∀ e,
            (if isQualified then WalkFinds S P rq rq.depth path node inst b e
              else ∃ n, Known b (inst ++ [(node, n)]) ∧ WalkFinds S P rq rq.depth
                (appendName path (intDigits n)) node (inst ++ [(node, n)]) b e) ↔
            PartialFinds S P rq path b e := by
          intro b' hb' e
          unfold PartialFinds
          rw [hget]
          exact ⟨fun h => ⟨hobject, (hlater b' hb').mpr (hexist.mp hb), h⟩, fun h => h.2.2⟩
        cases isQualified with
        | true =>
          simp only [if_true] at hfinds ⊢
          exact (getChildParams_adds hS rq.depth path node inst hlt (hnodes rfl)
            { s with agent := a } (hq.ok hok)).mono (fun _ _ h => h.after hq hfinds)
            fun _ _ h => h.after hq fun b hb e => (hfinds b hb e).mp
        | false =>
          simp only [Bool.false_eq_true, if_false] at hfinds ⊢
          have htab : IsTableOf S node inst := ⟨hlt, (htable rfl).1, (htable rfl).2⟩
          exact (getTableParams_adds hS htab (fun n => getChildParams_adds hS rq.depth _ node _
            hlt (htab.instance n).nodes) { s with agent := a } (hq.ok hok)).mono
            (fun _ _ h => h.after hq hfinds) fun _ _ h => h.after hq fun b hb e => (hfinds b hb e).mp
      · rename_i hb
        refine (AddedAll.nothing (Φ := fun _ _ => False) (fun _ _ h => h)
          { s with agent := a }).after hq fun b' hb' e => ?_
        rw [iff_comm, iff_false]
        unfold PartialFinds
        rw [hget]
        exact fun h => hb (hexist.mpr ((hlater b' hb').mp h.2.1))

end Walk

end ObjectWalk
