import SdtTr369.FoundPaths

/-!
# The vectors of resolved paths

The vector of group ids goes along with the vector of paths, whichever part of
the resolver extends them. Most ends of an expression look whether a path is in
the vector already; the walk below a partial path and the listing of all
instances do not, and a path is listed twice exactly when one of these comes
upon it a second time (`resolved_vectors`).
-/

namespace ResolvedVectors

open UspTypes Schema SchemaInvariant PathCodec PathRoundTrip EffectProgram List
open Agent InstVector DataModelRead ExprVector InstanceTree HeldInstances QuietReads
open PathResolver ResolverFrames ObjectWalk ResolvedEnds ResolvedPaths FoundPaths

/-! ## Group ids -/

/-- Each group id is that of the node which its path names. -/
def GroupsMatch (S : DmTree) (sv : List Str) (gv : List (Option Nat)) : Prop :=
  List.Forall₂ (fun path groupId => ∃ node inst isQualified,
    Names S path node inst isQualified ∧ groupId = groupOf S node) sv gv

theorem GroupsMatch.snoc {S : DmTree} {sv : List Str} {gv : List (Option Nat)}
    (h : GroupsMatch S sv gv) {path : Str} {groupId : Option Nat} {node : NodeId}
    {inst : DmInstances} {isQualified : Bool} (hnames : Names S path node inst isQualified)
    (hgroup : groupId = groupOf S node) : GroupsMatch S (sv ++ [path]) (gv ++ [groupId]) :=
  rel_append h (List.Forall₂.cons ⟨node, inst, isQualified, hnames, hgroup⟩ .nil)

def KeepsGroups (S : DmTree) (s s' : RState) : Prop :=
  GroupsMatch S s.sv s.gv → GroupsMatch S s'.sv s'.gv

theorem keepsGroups_frame (S : DmTree) : ResolverFrame S (KeepsGroups S) where
  refl _ := id
  trans h h' := h' ∘ h
  quiet _ _ _ := id

section Groups

variable {S : DmTree} {P : PermissionTable} {W : World} {rq : Request}

/-- The group id is that of the node, whatever becomes of the flags. -/
theorem getPathProperties_group (path : Str) (role : Option CombinedRole) (a : State) :
    Wp True (getPathProperties S P W path role) a
      (fun properties _ => match getQualifiedNode S path with
        | none => properties.flags.existsInSchema = false
        | some (node, _, _) => properties.groupId = groupOf S node)
      (fun _ _ => True) := by
  unfold getPathProperties
  cases hget : getQualifiedNode S path with
  | none => exact rfl
  | some found =>
    obtain ⟨node, inst, isQualified⟩ := found
    refine (wp_bind _ _ _ _ _).mpr ?_
    exact (wp_true _ a).mono (fun _ _ _ => rfl) fun _ _ _ => trivial

theorem addPathFound_groups (hgroups : rq.wantsGroups = true)
    (hop : allowsGroups rq.op = true) (path : Str) :
    Within (KeepsGroups S) (addPathFound S P W rq path) := by
  intro s
  rw [Keeps, addPathFound, wp_bind, wp_onAgent]
  refine (getPathProperties_group path rq.role s.agent).mono (fun properties a h => ?_)
    fun _ _ _ => id
  split
  · exact id
  · rename_i addToVector hchecks
    have hne : ¬ ((rq.op = .subsAdd ∨ rq.op = .subsDel) ∧
        properties.flags.isObjectInstance = false) := by
      rintro ⟨hop' | hop', -⟩ <;> rw [hop'] at hop <;> cases hop
    have hne' : rq.op ≠ .instances := fun hop' => by rw [hop'] at hop; cases hop
    split
    · exact id
    · rename_i hadd
      rw [addOnce, wp_update]
      have hadd : addToVector = true := by
        simp only [not_or, Bool.not_eq_false] at hadd
        exact hadd.1
      subst hadd
      cases hget : getQualifiedNode S path with
      | none =>
        rw [hget] at h
        have hschema := (checkPathProperties_ok hchecks).2.2.2.2
        rw [h] at hschema
        cases hschema
      | some found =>
        obtain ⟨node, inst, isQualified⟩ := found
        rw [hget] at h
        intro hmatch
        split
        · exact hmatch
        · exact hmatch.snoc (.lookup hget) h

theorem checkChild_param {op : ResolveOp} {type : NodeType} {permissions : Permit → Bool}
    (hop : allowsGroups op = true) (h : checkChild op type permissions = .ok true) :
    isParam type = true := by
  cases op <;> cases type <;> simp_all [checkChild, isParam, allowsGroups]

theorem addChildFound_groups (hpaths : rq.wantsPaths = true) (hgroups : rq.wantsGroups = true)
    {path : Str} {child : NodeId} {inst : DmInstances} (hnames : Names S path child inst true)
    (hparam : isParam (S.node child).type = true) :
    Within (KeepsGroups S) (addChildFound rq path (S.node child).registered.groupId) := by
  refine within_update fun s hmatch => ?_
  simp only [hpaths, hgroups, if_true]
  exact hmatch.snoc hnames (if_pos hparam).symm

variable (hS : SchemaOk maxDmInstanceOrder S)

include hS

section

variable (hpaths : rq.wantsPaths = true) (hgroups : rq.wantsGroups = true)
include hpaths hgroups

theorem getChildParams_groups (hop : allowsGroups rq.op = true) (depth : Nat) (path : Str)
    (node : NodeId) (inst : DmInstances) (hnames : Names S path node inst true) :
    Within (KeepsGroups S) (getChildParams S P W rq depth path node inst) := by
  have hR := keepsGroups_frame S
  induction depth generalizing path node inst with
  | zero => exact within_pure hR.toIsFrame _
  | succ depth ih =>
    refine within_forEach hR.toIsFrame fun child hc => ?_
    dsimp only
    split
    · rename_i htype
      exact ih _ _ _ (.child hnames hc (by simp [htype]))
    · rename_i htype
      exact getTableParams_within hS hR _ _ _ _ fun n => ih _ _ _ (.number (.table hnames hc htype))
    · rename_i type hsingle hmulti
      split
      · exact failWith_within hR _
      · rename_i addToVector hcheck
        split
        · rename_i hadd
          refine addChildFound_groups hpaths hgroups (.child hnames hc hmulti) ?_
          exact checkChild_param hop (hadd ▸ hcheck)
        · exact within_pure hR.toIsFrame _

theorem resolvePartialPath_groups (hop : allowsGroups rq.op = true) (path : Str) :
    Within (KeepsGroups S) (resolvePartialPath S P W rq path) := by
  have hR := keepsGroups_frame S
  unfold resolvePartialPath
  split
  · exact failWith_within hR _
  · rename_i node inst isQualified hget
    split
    · exact failWith_within hR _
    · refine within_bind hR.toIsFrame (onAgent_within hR (instVectorIsExist_within hS _))
        fun b => ?_
      split
      · split
        · rename_i hqual
          exact getChildParams_groups hS hpaths hgroups hop _ _ _ _ (.lookup (hqual ▸ hget))
        · rename_i hqual
          refine getTableParams_within hS hR _ _ _ _ fun n =>
            getChildParams_groups hS hpaths hgroups hop _ _ _ _ (.number (.lookup ?_))
          rw [hget, Bool.eq_false_iff.mpr hqual]
      · exact within_pure hR.toIsFrame _

/-- A resolution keeps the group ids along with the paths. -/
theorem resolvePath_groups {N : Type} {V : ValueRules N} (fuel : Nat) (path : Str) :
    Within (KeepsGroups S) (resolvePath S P W V fuel rq path) := by
  have hR := keepsGroups_frame S
  by_cases hop : allowsGroups rq.op = true
  · exact resolvePath_within hS hR (finishPath_within hS hR
      (addPathFound_groups hgroups hop)
      fun _ => resolvePartialPath_groups hS hpaths hgroups hop) fuel path
  · cases fuel with
    | zero => exact within_fail hR.toIsFrame _
    | succ fuel =>
      intro s
      rw [resolvePath, Keeps, wp_bind, wp_require, if_neg (by simpa [hgroups] using hop)]
      trivial

end

end Groups

/-! ## The listing of all instances -/

/-- The tuple is of an instance of a table below the object, or nested in one. -/
def LiesBelow (S : DmTree) : Nat → NodeId → DmInstances → DmInstances → Prop
  | 0, _, _, _ => False
  | fuel + 1, node, inst, t =>
    if (S.node node).type = .objectMultiInstance then ∃ n, inst ++ [(node, n)] <+: t
    else ∃ child ∈ (S.node node).childNodes, LiesBelow S fuel child inst t

/-- The path of the tuple is listed to the role. -/
def NamedInstance (S : DmTree) (P : PermissionTable) (role : Option CombinedRole) (e : Found) :
    Prop :=
  (∃ n, e.inst.getLast? = some (e.node, n)) ∧ getPermissions P e.node role .getInst = true ∧
    formInstantiatedPath (S.node e.node).path (instances e.inst) maxDmPath = some (.ok e.path)

/-- What a listing of all instances is to add. -/
def InstanceFinds (S : DmTree) (P : PermissionTable) (rq : Request) (path : Str) (a : State)
    (e : Found) : Prop :=
  Held a e.inst ∧ NamedInstance S P rq.role e ∧
    match getQualifiedNode S path with
    | none => False
    | some (node, inst, isQualified) =>
      if (S.node node).type = .objectMultiInstance ∧ isQualified then inst <+: e.inst
      else LiesBelow S S.nodes.length node inst e.inst

section Listing

variable {S : DmTree} {P : PermissionTable} {W : World} {rq : Request}
  {role : Option CombinedRole}

theorem addObjectInstanceIfPermitted_adds (oi : DmInstances) :
    Adds S (fun _ e => e.inst = oi ∧ NamedInstance S P role e)
      (addObjectInstanceIfPermitted S P role oi) := by
  intro s _
  unfold addObjectInstanceIfPermitted
  cases hlast : oi.getLast? with
  | none =>
    refine AddedAll.nothing ?_ s
    rintro a e ⟨rfl, ⟨n, hn⟩, -⟩
    rw [hlast] at hn
    cases hn
  | some entry =>
    obtain ⟨node, n⟩ := entry
    have hnode : ∀ e : Found, e.inst = oi → NamedInstance S P role e → e.node = node := by
      rintro e rfl ⟨⟨m, hm⟩, -⟩
      rw [hlast] at hm
      cases hm
      rfl
    simp only
    split
    · rename_i hperm
      refine AddedAll.nothing ?_ s
      rintro a e ⟨he, hnamed⟩
      have hpermitted := hnamed.2.1
      rw [hnode e he hnamed, hperm] at hpermitted
      cases hpermitted
    · rename_i hperm
      split
      · trivial
      · rename_i err hform
        refine AddedAll.nothing ?_ s
        rintro a e ⟨he, hnamed⟩
        have hpath := hnamed.2.2
        rw [hnode e he hnamed, he, hform] at hpath
        cases hpath
      · rename_i path hform
        rw [addPath, wp_update]
        refine ⟨Quiet.refl S _, [⟨node, oi, path⟩], rfl, nodup_singleton _, fun a _ e => ?_⟩
        rw [mem_singleton]
        constructor
        · rintro rfl
          exact ⟨rfl, ⟨n, hlast⟩, by simpa using hperm, hform⟩
        · rintro ⟨he, hnamed⟩
          have hpath := hnamed.2.2
          have hn := hnode e he hnamed
          rw [hn, he, hform] at hpath
          cases hpath
          cases e
          cases hn
          cases he
          rfl

/-- The entries of the vector of a table, once it has been refreshed. -/
theorem listTable_adds (hS : SchemaOk maxDmInstanceOrder S) {top : NodeId}
    {select : DmInstances → Bool} (Ψ : DmInstances → Prop)
    (hΨ : ∀ t, Ψ t ↔ topNode t = top ∧ select t = true) :
    Adds S (fun a e => Held a e.inst ∧ NamedInstance S P role e ∧ Ψ e.inst) (do
      onAgent (refreshInstVector S W top)
      let div ← .read fun s => s.agent.instVector top
      .forEach (div.filter select) (addObjectInstanceIfPermitted S P role)) := by
  intro s hok
  rw [wp_bind, wp_onAgent]
  refine (refreshInstVector_quiet hS top).mono (fun _ a h => ?_) fun e a h =>
    (Added.refl S _ { s with agent := a }).after h fun _ _ _ h => h
  obtain ⟨hq, hset⟩ := h
  rw [wp_bind, wp_read]
  have hok' : StateOk S a := hq.ok hok
  have hmem : ∀ b, Quiet S a b → ∀ t,
      t ∈ (a.instVector top).filter select ↔ Held b t ∧ Ψ t := by
    intro b hb t
    rw [mem_filter, hΨ]
    constructor
    · rintro ⟨ht, hselect⟩
      have htop := (hok'.held top t ht).1
      refine ⟨(hb.held_iff (htop ▸ hset)).mpr ?_, htop, hselect⟩
      rw [Held, htop]
      exact ht
    · rintro ⟨ht, htop, hselect⟩
      have hheld := (hb.held_iff (htop ▸ hset)).mp ht
      rw [Held, htop] at hheld
      exact ⟨hheld, hselect⟩
  have hiff : ∀ b, Quiet S a b → ∀ e,
      (∃ t ∈ (a.instVector top).filter select, e.inst = t ∧ NamedInstance S P role e) ↔
        Held b e.inst ∧ NamedInstance S P role e ∧ Ψ e.inst := by
    intro b hb e
    constructor
    · rintro ⟨t, ht, rfl, hnamed⟩
      obtain ⟨hheld, hbelow⟩ := (hmem b hb _).mp ht
      exact ⟨hheld, hnamed, hbelow⟩
    · rintro ⟨hheld, hnamed, hbelow⟩
      exact ⟨e.inst, (hmem b hb _).mpr ⟨hheld, hbelow⟩, rfl, hnamed⟩
  refine (adds_forEach _ (fun t _ => addObjectInstanceIfPermitted_adds t) ?_
    { s with agent := a } hok').mono (fun _ _ h => h.after hq hiff)
    fun _ _ h => h.after hq fun b hb e => (hiff b hb e).mp
  refine ((hok'.nodup top).filter select).imp fun hne b e h h' => hne ?_
  rw [← h.1, h'.1]

variable (hS : SchemaOk maxDmInstanceOrder S)

include hS

/-- What lies below an object is nested in an instance of a table below it. -/
theorem LiesBelow.table {fuel : Nat} {node : NodeId} {inst t : DmInstances}
    (h : LiesBelow S fuel node inst t) (hlt : node < S.nodes.length) :
    ∃ table n r, inst ++ [(table, n)] <+: t ∧ IsTail r ∧
      (S.node table).path = (S.node node).path ++ r := by
  induction fuel generalizing node with
  | zero => exact h.elim
  | succ fuel ih =>
    unfold LiesBelow at h
    split at h
    · obtain ⟨n, hn⟩ := h
      exact ⟨node, n, [], hn, .inl rfl, (append_nil _).symm⟩
    · obtain ⟨child, hc, h⟩ := h
      obtain ⟨table, n, r, hpre, -, hpath⟩ := ih h (hS.child_bounds node hlt child hc).2
      obtain ⟨r', hr', hpath'⟩ := tail_of_child hS hlt hc hpath
      exact ⟨table, n, r', hpre, hr', hpath'⟩

theorem LiesBelow.child_eq {fuel : Nat} {node c d : NodeId} {inst t : DmInstances}
    (hlt : node < S.nodes.length) (hc : c ∈ (S.node node).childNodes)
    (hd : d ∈ (S.node node).childNodes) (h : LiesBelow S fuel c inst t)
    (h' : LiesBelow S fuel d inst t) : c = d := by
  obtain ⟨table, n, r, hpre, hr, hpath⟩ := h.table hS (hS.child_bounds node hlt c hc).2
  obtain ⟨table', n', r', hpre', hr', hpath'⟩ := h'.table hS (hS.child_bounds node hlt d hd).2
  have heq := (prefix_of_prefix_length_le hpre hpre' (by simp)).eq_of_length (by simp)
  have hentry : (table, n) = (table', n') := by simpa using heq
  cases hentry
  exact child_of_schemaPath hS hlt hc hd hr hr' hpath hpath'

theorem getAllInstancePathsRecursive_adds (fuel : Nat) (node : NodeId) (inst : DmInstances)
    (hlt : node < S.nodes.length) :
    Adds S (fun a e => Held a e.inst ∧ NamedInstance S P role e ∧
      LiesBelow S fuel node inst e.inst)
      (getAllInstancePathsRecursive S P W role fuel node inst) := by
  induction fuel generalizing node with
  | zero => exact fun s _ => AddedAll.nothing (fun _ _ h => h.2.2.elim) s
  | succ fuel ih =>
    unfold getAllInstancePathsRecursive LiesBelow
    split
    · intro s hok
      rw [getAllInstancePathsUnqualified, wp_bind, wp_onAgent, requireTable, wp_bind, wp_require]
      split
      · rw [wp_requireTop]
        split
        · refine listTable_adds hS (fun t => ∃ n, inst ++ [(node, n)] <+: t) (fun t => ?_) s hok
          simp only [Option.isSome_iff_exists, numberBelow_iff]
          constructor
          · rintro ⟨n, hn⟩
            exact ⟨by rw [topNodeOf_eq n, topNode_of_isPrefix hn (by simp)], n, hn⟩
          · exact And.right
        · trivial
      · trivial
    · have hchild := adds_forEach (S.node node).childNodes (fun child hc =>
        ih child (hS.child_bounds node hlt child hc).2) ?_
      · refine hchild.congr fun a e => ?_
        constructor
        · rintro ⟨child, hc, hheld, hnamed, hbelow⟩
          exact ⟨hheld, hnamed, child, hc, hbelow⟩
        · rintro ⟨hheld, hnamed, child, hc, hbelow⟩
          exact ⟨child, hc, hheld, hnamed, hbelow⟩
      · refine List.Pairwise.imp_of_mem (fun {c d} hc hd hne a e hce hde => hne ?_)
          (childNodes_nodup hS hlt)
        exact LiesBelow.child_eq hS hlt hc hd hce.2.2 hde.2.2

theorem getAllInstancePaths_adds (path : Str) :
    Adds S (InstanceFinds S P rq path) (getAllInstancePaths S P W path rq.role) := by
  intro s hok
  unfold getAllInstancePaths InstanceFinds
  cases hget : getQualifiedNode S path with
  | none => exact Added.refl S _ s
  | some found =>
    obtain ⟨node, inst, isQualified⟩ := found
    simp only [wp_bind, wp_require]
    split
    · split
      · rw [getAllInstancePathsQualified, wp_bind, wp_require]
        split
        · rename_i hlen
          rw [wp_bind, wp_onAgent, wp_requireTop]
          have hne : inst ≠ [] := by
            rintro rfl
            simp at hlen
          split
          · refine listTable_adds hS (fun t => inst <+: t) (fun t => ?_) s hok
            rw [List.isPrefixOf_iff_prefix]
            exact ⟨fun h => ⟨(topNode_of_isPrefix h hne).symm, h⟩, And.right⟩
          · trivial
        · trivial
      · exact getAllInstancePathsRecursive_adds hS _ node inst
          (getQualifiedNode_spec hS hget).1 s hok
    · trivial

end Listing

/-! ## The ends of an expression -/

/-- What an end adds without a look at the vector. -/
def EndFinds (S : DmTree) (P : PermissionTable) (rq : Request) (text : Str) (a : State)
    (e : Found) : Prop :=
  if text.getLast? = some '.' ∧ answersPartial rq.op = true then
    PartialFinds S P rq text.dropLast a e
  else rq.op = .instances ∧ rq.getAllInstances = true ∧ rq.wantsPaths = true ∧
    InstanceFinds S P rq (if text.getLast? = some '.' then text.dropLast else text) a e

/-- The end adds what it finds without a look at the vector. -/
def AddsBlindly (rq : Request) (text : Str) : Prop :=
  answersPartial rq.op = true ∧ text.getLast? = some '.' ∨
    rq.op = .instances ∧ rq.getAllInstances = true ∧ rq.wantsPaths = true

/-- The paths that an end puts into the vector. -/
def EndLists (S : DmTree) (P : PermissionTable) (W : World) (rq : Request) (y : End) (a : State)
    (p : Str) : Prop :=
  (∃ e, EndFinds S P rq y.1 a e ∧ e.path = p) ∨
    answersPartial rq.op = true ∧ y.1.getLast? ≠ some '.' ∧ p = y.1 ∧ IsAdded S P W rq y

/-- In the data model `a` no end that adds without a look at the vector comes upon a path of `sv`
or of an earlier end, or upon one path twice. -/
structure EndsApart (S : DmTree) (P : PermissionTable) (W : World) (rq : Request)
    (sv : List Str) (a : State) (ends : List End) : Prop where
  fresh : ∀ y ∈ ends, Apart (EndFinds S P rq y.1) a sv
  apart : ends.Pairwise fun x y => ∀ e, EndFinds S P rq y.1 a e → ¬ EndLists S P W rq x a e.path

/-- Paths are put behind those in the vector. -/
def Extends (S : DmTree) (s s' : RState) : Prop :=
  Quiet S s.agent s'.agent ∧ (StateOk S s.agent → s.sv <+: s'.sv)

/-- No path is put there twice. -/
def KeepsOnce (S : DmTree) (s s' : RState) : Prop :=
  Quiet S s.agent s'.agent ∧ (StateOk S s.agent → s.sv.Nodup → s'.sv.Nodup)

theorem extends_frame (S : DmTree) : ResolverFrame S (Extends S) where
  refl s := ⟨Quiet.refl S s.agent, fun _ => prefix_rfl⟩
  trans h h' := ⟨h.1.trans h'.1, fun hok => (h.2 hok).trans (h'.2 (h.1.ok hok))⟩
  quiet _ _ hq := ⟨hq, fun _ => prefix_rfl⟩

theorem keepsOnce_frame (S : DmTree) : ResolverFrame S (KeepsOnce S) where
  refl s := ⟨Quiet.refl S s.agent, fun _ => id⟩
  trans h h' := ⟨h.1.trans h'.1, fun hok => h'.2 (h.1.ok hok) ∘ h.2 hok⟩
  quiet _ _ hq := ⟨hq, fun _ => id⟩

/-- Both at once, which is what the ends do that look at the vector. -/
def AddsOnce (S : DmTree) (s s' : RState) : Prop := Extends S s s' ∧ KeepsOnce S s s'

theorem addsOnce_frame (S : DmTree) : ResolverFrame S (AddsOnce S) where
  refl s := ⟨(extends_frame S).refl s, (keepsOnce_frame S).refl s⟩
  trans h h' := ⟨(extends_frame S).trans h.1 h'.1, (keepsOnce_frame S).trans h.2 h'.2⟩
  quiet s a hq := ⟨(extends_frame S).quiet s a hq, (keepsOnce_frame S).quiet s a hq⟩

section Ends

variable {S : DmTree} {P : PermissionTable} {W : World} {rq : Request}

theorem addsOnce_new {s s' : RState} (path : Str) (hagent : s'.agent = s.agent)
    (hsv : path ∉ s.sv → s'.sv = s.sv ++ [path]) (hsame : path ∈ s.sv → s'.sv = s.sv) :
    AddsOnce S s s' := by
  have hq : Quiet S s.agent s'.agent := hagent ▸ Quiet.refl S s.agent
  by_cases hmem : path ∈ s.sv
  · have hsv := hsame hmem
    exact ⟨⟨hq, fun _ => hsv ▸ prefix_rfl⟩, hq, fun _ h => hsv ▸ h⟩
  · have hsv := hsv hmem
    refine ⟨⟨hq, fun _ => hsv ▸ prefix_append _ _⟩, hq, fun _ h => ?_⟩
    rw [hsv, ← concat_eq_append]
    exact h.concat hmem

theorem addIfNotExist_once (path : Str) : Within (AddsOnce S) (addIfNotExist path) := by
  refine within_update fun s => addsOnce_new path ?_ ?_ ?_
  · split <;> rfl
  · intro hmem
    rw [if_neg hmem]
  · intro hmem
    rw [if_pos hmem]

theorem addOnce_once (path : Str) (groupId : Option Nat) :
    Within (AddsOnce S) (addOnce rq path groupId) := by
  refine within_update fun s => addsOnce_new path ?_ ?_ ?_
  · split <;> rfl
  · intro hmem
    rw [if_neg hmem]
  · intro hmem
    rw [if_pos hmem]

theorem adds_within {Φ : State → Found → Prop} {m : ROp Unit} (h : Adds S Φ m)
    (hq : Within (AgentQuiet S) m) : Within (Extends S) m := by
  have hextends : ∀ s s', Added S Φ s s' → s.sv <+: s'.sv := by
    rintro s s' ⟨-, L, hL, -⟩
    exact ⟨_, hL.symm⟩
  intro s
  by_cases hok : StateOk S s.agent
  · exact (h s hok).mono (fun _ s' h => ⟨h.1, fun _ => hextends s s' h.added⟩)
      fun _ s' h => ⟨h.1, fun _ => hextends s s' h⟩
  · exact keeps_mono (hq s) fun _ h => ⟨h, fun hok' => absurd hok' hok⟩

theorem checkPathProperties_instances {properties : PathProperties} {addToVector : Bool}
    (h : checkPathProperties .instances properties = .ok addToVector) : addToVector = true := by
  unfold checkPathProperties at h
  split at h
  · cases h
  · simp only [bind, Except.bind] at h
    split at h
    · cases h
    · split at h
      · cases h
      · simp only [checkPermission, permitAsked, checkInstances, if_true] at h
        split at h
        · cases h
          rfl
        · cases h

variable (hS : SchemaOk maxDmInstanceOrder S)

include hS

theorem addPathFound_once
    (hone : ¬ (rq.op = .instances ∧ rq.getAllInstances = true ∧ rq.wantsPaths = true))
    (path : Str) : Within (AddsOnce S) (addPathFound S P W rq path) :=
  addPathFound_within hS (addsOnce_frame S) addIfNotExist_once addOnce_once path
    fun hop hall hwants => absurd ⟨hop, hall, hwants⟩ hone

theorem addPathFound_all (hop : rq.op = .instances) (hall : rq.getAllInstances = true)
    (hwants : rq.wantsPaths = true) (path : Str) :
    Adds S (InstanceFinds S P rq path) (addPathFound S P W rq path) := by
  intro s hok
  rw [addPathFound, wp_bind, wp_onAgent]
  refine Wp.mono (getPathProperties_within hS P path rq.role s.agent) (fun properties a hq => ?_)
    fun _ a hq => (Added.refl S _ { s with agent := a }).after hq fun _ _ _ h => h
  rw [hop]
  split
  · exact (Added.refl S _ { s with agent := a }).after hq fun _ _ _ h => h
  · rename_i addToVector hchecks
    obtain rfl := checkPathProperties_instances hchecks
    rw [if_neg (by simp [hwants]), if_neg (by simp), if_pos rfl, if_pos hall]
    exact (getAllInstancePaths_adds hS path { s with agent := a } (hq.ok hok)).mono
      (fun _ _ h => h.after hq fun _ _ _ => Iff.rfl) fun _ _ h => h.after hq fun _ _ _ => id

omit hS in
/-- What is found at an end that looks at the vector is not counted. -/
theorem EndFinds.blind {text : Str} {a : State} {e : Found} (h : EndFinds S P rq text a e) :
    AddsBlindly rq text := by
  unfold EndFinds at h
  split at h
  · rename_i hwalk
    exact .inl ⟨hwalk.2, hwalk.1⟩
  · exact .inr ⟨h.1, h.2.1, h.2.2.1⟩

/-- An end that does not look at the vector adds all that it finds. -/
theorem finishPath_blind {text : Str} (h : AddsBlindly rq text) :
    Adds S (EndFinds S P rq text) (finishPath S P W rq text) := by
  rcases h with ⟨hop, hdot⟩ | ⟨hop, hgetAll, hwants⟩
  · have hfinds : EndFinds S P rq text = PartialFinds S P rq text.dropLast := by
      funext a e
      rw [EndFinds, if_pos ⟨hdot, hop⟩]
    rw [hfinds, finishPath_partially hop hdot]
    exact resolvePartialPath_adds hS _
  · have hfinish : finishPath S P W rq text = addPathFound S P W rq
        (if text.getLast? = some '.' then text.dropLast else text) := by
      rw [finishPath, hop]
      split
      · rfl
      · rename_i hdot
        rw [if_pos (Decidable.not_not.mp hdot)]
    rw [hfinish]
    refine (addPathFound_all hS hop hgetAll hwants _).congr fun a e => ?_
    have hnot : ¬ (text.getLast? = some '.' ∧ answersPartial rq.op = true) := by
      simp [hop, answersPartial]
    rw [EndFinds, if_neg hnot]
    exact ⟨fun h => ⟨hop, hgetAll, hwants, h⟩, fun h => h.2.2.2⟩

theorem finishPath_once {text : Str} (h : ¬ AddsBlindly rq text) :
    Within (AddsOnce S) (finishPath S P W rq text) := by
  have honce := addPathFound_once (P := P) (W := W) hS fun hall => h (.inr hall)
  by_cases hop : answersPartial rq.op = true
  · rw [finishPath, if_pos fun hdot => h (.inl ⟨hop, hdot⟩)]
    exact honce _
  · exact finishPath_within hS (addsOnce_frame S) honce (fun h => absurd h hop) text

theorem finishPath_extends (text : Str) : Within (Extends S) (finishPath S P W rq text) := by
  by_cases h : AddsBlindly rq text
  · exact adds_within (finishPath_blind hS h) (finishPath_agentQuiet hS text)
  · exact (finishPath_once hS h).mono fun _ _ h => h.1

section Run

variable {text : Str} {t t' : RState} {a : State} {r : Except Fault Unit}
  (hok : StateOk S t.agent) (hrun : finishPath S P W rq text t = some (r, t'))
  (ha : Quiet S t'.agent a)

include hok hrun ha

/-- Where any end adds without a look at the vector, an end adds what it lists. -/
theorem finishPath_lists {text' : Str} (hany : AddsBlindly rq text') :
    (∀ p ∈ t'.sv, p ∈ t.sv ∨ EndLists S P W rq (text, t) a p) ∧
      (r = .ok () → ∀ p, EndLists S P W rq (text, t) a p → p ∈ t'.sv) := by
  by_cases hblind : AddsBlindly rq text
  · have hadds := finishPath_blind (P := P) (W := W) hS hblind
    refine ⟨fun p hp => ((hadds.added hok hrun).sound ha hp).imp_right .inl, ?_⟩
    rintro rfl p (⟨e', he', rfl⟩ | ⟨hop, hdot, -⟩)
    · obtain ⟨-, L, hL, -, hΦ⟩ := ((hadds t hok).of_run hrun).1 () rfl
      rw [hL]
      exact mem_append_right _ (mem_map_of_mem ((hΦ a ha e').mpr he'))
    · rcases hblind with ⟨-, hdot'⟩ | ⟨hop', -⟩
      · exact absurd hdot' hdot
      · rw [hop'] at hop
        cases hop
  · obtain ⟨hop, -⟩ := hany.resolve_right fun hall => hblind (.inr hall)
    have hdot : text.getLast? ≠ some '.' := fun hdot => hblind (.inl ⟨hop, hdot⟩)
    rw [finishPath, if_pos hdot] at hrun
    obtain ⟨hlisted, hadded⟩ := addPathFound_lists hS hop hrun
    refine ⟨fun p hp => (hlisted p hp).imp_right fun h => .inr ⟨hop, hdot, h.1, h.2⟩, ?_⟩
    rintro hr p (⟨e', he', rfl⟩ | ⟨-, -, rfl, h⟩)
    · exact absurd he'.blind hblind
    · exact hadded hr h

theorem finishPath_nodup (hnodup : t.sv.Nodup) (hapart : Apart (EndFinds S P rq text) a t.sv) :
    t'.sv.Nodup := by
  by_cases hblind : AddsBlindly rq text
  · exact ((finishPath_blind hS hblind).added hok hrun).nodup hnodup ha hapart
  · exact ((finishPath_once hS hblind).of_run hrun).2.2 hok hnodup

theorem finishPath_apart (hr : r = .ok ()) (hnodup : t'.sv.Nodup) :
    Apart (EndFinds S P rq text) a t.sv := by
  subst hr
  by_cases hblind : AddsBlindly rq text
  · exact (((finishPath_blind hS hblind t hok).of_run hrun).1 () rfl).apart hnodup ha
  · exact fun e he => absurd he.blind hblind

end Run

/-! ## All ends of a run -/

variable {well : Prop} {s s' : RState} {ends : List End} {a : State}
  (hpass : Passes S P W rq well s ends s') (hok : StateOk S s.agent) (ha : Quiet S s'.agent a)

include hpass hok

theorem passes_extends : Extends S s s' := by
  have hR := extends_frame S
  induction hpass with
  | reads hread =>
    obtain ⟨a, hq, rfl⟩ := hread
    exact hR.quiet _ a hq
  | step hread hfinish _ _ ih =>
    obtain ⟨a, hq, rfl⟩ := hread
    have hstep := (finishPath_extends hS _).of_run hfinish
    exact hR.trans (hR.trans (hR.quiet _ a hq) hstep) (ih (hstep.1.ok (hq.ok hok)))

include ha

/-- Ends apart keep the vector free of duplicates. -/
theorem passes_nodup (hnodup : s.sv.Nodup) (hapart : EndsApart S P W rq s.sv a ends) :
    s'.sv.Nodup := by
  induction hpass with
  | reads hread =>
    obtain ⟨b, -, rfl⟩ := hread
    exact hnodup
  | @step s t t' s' text r ends hread hfinish _ hrest ih =>
    obtain ⟨b, hq, rfl⟩ := hread
    obtain ⟨hfresh, hpairs⟩ := hapart
    obtain ⟨hfirst, hfresh⟩ := List.forall_mem_cons.mp hfresh
    obtain ⟨hhead, hpairs⟩ := List.pairwise_cons.mp hpairs
    have hok' : StateOk S t'.agent := ((finishPath_agentQuiet hS _).of_run hfinish).ok (hq.ok hok)
    have hat : Quiet S t'.agent a := (passes_extends hS hrest hok').1.trans ha
    refine ih hok' ha (finishPath_nodup hS (hq.ok hok) hfinish hat hnodup hfirst)
      ⟨fun y hy e he => ⟨fun hmem => ?_, (hfresh y hy e he).2⟩, hpairs⟩
    rcases (finishPath_lists hS (hq.ok hok) hfinish hat he.blind).1 _ hmem with hold | hlists
    · exact (hfresh y hy e he).1 hold
    · exact hhead y hy e he hlists

/-- The paths in the vector are those that the ends list. -/
theorem passes_lists {text' : Str} (hany : AddsBlindly rq text') :
    (∀ p ∈ s'.sv, p ∈ s.sv ∨ ∃ y ∈ ends, EndLists S P W rq y a p) ∧
      (well → ∀ y ∈ ends, ∀ p, EndLists S P W rq y a p → p ∈ s'.sv) := by
  induction hpass with
  | reads hread =>
    obtain ⟨b, -, rfl⟩ := hread
    exact ⟨fun p hp => .inl hp, nofun⟩
  | @step s t t' s' text r ends hread hfinish hr hrest ih =>
    obtain ⟨b, hq, rfl⟩ := hread
    have hok' : StateOk S t'.agent := ((finishPath_agentQuiet hS _).of_run hfinish).ok (hq.ok hok)
    obtain ⟨hquiet, hgrows⟩ := passes_extends hS hrest hok'
    obtain ⟨hfirst, hadded⟩ :=
      finishPath_lists hS (hq.ok hok) hfinish (hquiet.trans ha) hany
    obtain ⟨hlisted, hall⟩ := ih hok' ha
    refine ⟨fun p hp => ?_, fun hwell => List.forall_mem_cons.mpr ⟨fun p hp => ?_, hall hwell⟩⟩
    · rcases hlisted p hp with hmem | ⟨y, hy, hlists⟩
      · exact (hfirst p hmem).imp_right fun h => ⟨_, mem_cons_self, h⟩
      · exact .inr ⟨y, mem_cons_of_mem _ hy, hlists⟩
    · exact (hgrows hok').subset (hadded (hr hwell) p hp)

/-- Without an error only ends apart do. -/
theorem passes_apart (hwell : well) (hnodup : s'.sv.Nodup) : EndsApart S P W rq s.sv a ends := by
  induction hpass with
  | reads _ => exact ⟨nofun, .nil⟩
  | @step s t t' s' text r ends hread hfinish hr hrest ih =>
    obtain ⟨b, hq, rfl⟩ := hread
    have hextends := (finishPath_extends hS _).of_run hfinish
    have hok' : StateOk S t'.agent := hextends.1.ok (hq.ok hok)
    obtain ⟨hquiet, hgrows⟩ := passes_extends hS hrest hok'
    have hat : Quiet S t'.agent a := hquiet.trans ha
    have hfirst := finishPath_apart hS (hq.ok hok) hfinish hat (hr hwell)
      (hnodup.sublist (hgrows hok').sublist)
    obtain ⟨hfresh, hpairs⟩ := ih hok' ha hnodup
    refine ⟨List.forall_mem_cons.mpr ⟨hfirst, fun y hy e he => ?_⟩,
      List.pairwise_cons.mpr ⟨fun y hy e he hlists => ?_, hpairs⟩⟩
    · obtain ⟨hnot, honly⟩ := hfresh y hy e he
      exact ⟨fun hmem => hnot ((hextends.2 (hq.ok hok)).subset hmem), honly⟩
    · refine (hfresh y hy e he).1 ?_
      exact (finishPath_lists hS (hq.ok hok) hfinish hat he.blind).2 (hr hwell) _ hlists

end Ends

/-- The group ids go with the paths, and a path is listed twice exactly when an end that does
not look at the vector comes upon a listed path. -/
theorem resolved_vectors {N : Type} (rs : List Registration) (hrs : ∀ r ∈ rs, WithinArrays r)
    (P : PermissionTable) (W : World) (V : ValueRules N) (fuel : Nat) (rq : Request) (path : Str)
    (s s' : RState) (r : Except Fault Unit)
    (hok : StateOk (registerAll initialTree rs) s.agent) (hnodup : s.sv.Nodup)
    (hgroups : GroupsMatch (registerAll initialTree rs) s.sv s.gv)
    (hrun : resolvePath (registerAll initialTree rs) P W V fuel rq path s = some (r, s')) :
    (rq.wantsPaths = true → rq.wantsGroups = true →
      GroupsMatch (registerAll initialTree rs) s'.sv s'.gv) ∧
    ∃ ends, Passes (registerAll initialTree rs) P W rq (r = .ok ()) s ends s' ∧
      (∀ y ∈ ends, ComesTo (registerAll initialTree rs) P W V rq path s y) ∧
      (r = .ok () → ∀ y, ComesTo (registerAll initialTree rs) P W V rq path s y → y ∈ ends) ∧
      (EndsApart (registerAll initialTree rs) P W rq s.sv s'.agent ends → s'.sv.Nodup) ∧
      (r = .ok () →
        (s'.sv.Nodup ↔ EndsApart (registerAll initialTree rs) P W rq s.sv s'.agent ends)) := by
  have hS := registered_ok hrs
  obtain ⟨ends, hpass, hsound, hall⟩ := resolvePath_visits hS hrun
  have hsame := Quiet.refl (registerAll initialTree rs) s'.agent
  refine ⟨fun hpaths hwants => ?_, ends, hpass, hsound, hall, ?_, fun hr => ⟨?_, ?_⟩⟩
  · exact (resolvePath_groups hS hpaths hwants fuel path).of_run hrun hgroups
  · exact passes_nodup hS hpass hok hsame hnodup
  · exact passes_apart hS hpass hok hsame hr
  · exact passes_nodup hS hpass hok hsame hnodup

theorem resolved_vectors_nested :
    let S := registerAll initialTree nestedTables
    let rq := { getRequest with wantsGroups := true }
    let path := "Device.A.".toList
    let s : RState := ⟨nestedInstances, [], []⟩
    let s' := (resolvePath S readers readyWorld wholeNumbers 1 rq path).after s
    s'.sv = ["Device.A.1.B.4.P".toList] ∧ GroupsMatch S s'.sv s'.gv ∧
      ∃ ends, (∀ y, y ∈ ends ↔ ComesTo S readers readyWorld wholeNumbers rq path s y) ∧
        (s'.sv.Nodup ↔ EndsApart S readers readyWorld rq [] s'.agent ends) := by
  intro S rq path s s'
  have hrun : resolvePath S readers readyWorld wholeNumbers 1 rq path s = some (.ok (), s') :=
    Prog.run_eq (by decide +kernel)
  obtain ⟨hgroups, ends, -, hsound, hall, -, hiff⟩ := resolved_vectors nestedTables
    nestedTables_within readers readyWorld wholeNumbers 1 rq path s s' (.ok ()) nestedInstances_ok
    nodup_nil .nil hrun
  exact ⟨by decide +kernel, hgroups rfl rfl, ends, fun y => ⟨hsound y, hall rfl y⟩, hiff rfl⟩

/-- Two references to one object, followed by a partial path. -/
theorem two_references_list_twice :
    let S := registerAll initialTree referenceTable
    let m := resolvePath S readers readyWorld wholeNumbers 1 getRequest "Device.A.*.Ref+.".toList
    let s : RState := ⟨referenceState "Device.A.1".toList, [], []⟩
    m.result s = some (.ok ()) ∧
      (m.after s).sv = ["Device.A.1.Ref".toList, "Device.A.1.Ref".toList] ∧
      ¬ (m.after s).sv.Nodup := by
  decide +kernel

end ResolvedVectors
