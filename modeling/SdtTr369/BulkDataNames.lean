import SdtTr369.AltNames
import SdtTr369.FoundPaths

/-!
# The names of parameters in bulk data reports

The paths that a parameter reference resolves to are spelled like the reference, with
instance numbers for its operators and, behind a partial path, the names and numbers down
to a parameter. So every one of them has its own name in the report.
-/

namespace BulkDataNames

open UspTypes Schema SchemaInvariant DecimalText PathText EffectProgram Agent
open List
open DataModelRead ExprVector InstanceTree HeldInstances PathResolver
open ResolverFrames ResolverFuel ReferenceChains ObjectWalk ResolvedEnds ResolvedPaths FoundPaths
open AltNames PathRoundTrip

/-! ## The expression -/

section Expression

variable {N : Type} {S : DmTree} {P : PermissionTable} {W : World} {V : ValueRules N}

theorem mem_intDigits {n : Int} {c : Char} (hc : c ∈ intDigits n) : c = '-' ∨ c.isDigit = true := by
  cases n with
  | ofNat n => exact .inr (isDigit_of_mem_natDigits hc)
  | negSucc n => exact (List.mem_cons.mp hc).imp_right isDigit_of_mem_natDigits

theorem isNumber_intDigits (n : Int) : IsNumber (intDigits n) := by
  refine ⟨intDigits_ne_nil n, fun c hc => ⟨?_, ?_, ?_⟩⟩
  · rintro rfl
    exact dot_not_mem_intDigits n hc
  · rintro rfl
    exact absurd (mem_intDigits hc) (by decide)
  · rintro rfl
    exact absurd (mem_intDigits hc) (by decide)

/-- The ends of a reference are spelled like it. -/
theorem endsAt_spells {rq : Request} (hop : rq.op = .getBulkData) {task : Task} {y : End}
    (h : EndsAt S P W V rq task y) : ∀ t u s, task = .expansion rq t u s → Reference u →
      ∃ r ns, y.1 = t ++ r ∧ Spells u r ns := by
  induction h using Relation.ReflTransGen.head_induction_on with
  | refl =>
    rintro t u s heq -
    cases heq
    exact ⟨[], [], (append_nil _).symm, .done⟩
  | head hstep _ ih =>
    rintro t u s rfl href
    cases hstep with
    | literal hstar hplus hopen _ =>
      cases href with
      | literal _ _ href =>
        obtain ⟨r, ns, hy, hr⟩ := ih _ _ _ rfl href
        exact ⟨_, ns, by rw [hy, append_assoc]; rfl, .literal hstar hopen hr⟩
      | wildcard => exact absurd rfl hstar
      | search => exact absurd rfl hopen
    | wildcard _ _ _ hlen =>
      cases href with
      | literal hstar _ _ => exact absurd rfl hstar
      | wildcard hu href =>
        obtain ⟨r, ns, hy, hr⟩ := ih _ _ _ rfl href
        rw [numbered_short hlen, append_assoc] at hy
        exact ⟨_, _, hy, .wildcard hu (isNumber_intDigits _) hr⟩
    | reference hvalue _ _ =>
      rw [referenceValue, if_pos hop] at hvalue
      cases hvalue
    | search hclosed _ _ _ _ _ _ _ hlen =>
      cases href with
      | literal _ hopen _ => exact absurd rfl hopen
      | search hclosed' hu href =>
        cases hclosed.symm.trans hclosed'
        obtain ⟨r, ns, hy, hr⟩ := ih _ _ _ rfl href
        rw [numbered_short hlen, append_assoc] at hy
        exact ⟨_, _, hy, .search hclosed hu (isNumber_intDigits _) hr⟩

end Expression

/-! ## Segments in a text -/

theorem not_dots_cons {c : Char} {l : Str} :
    ¬['.', '.'] <:+: c :: l ↔ (c = '.' → l.head? ≠ some '.') ∧ ¬['.', '.'] <:+: l := by
  rw [infix_cons_iff, not_or]
  refine and_congr_left fun _ => ?_
  cases l with
  | nil => simp
  | cons d l => simp [eq_comm]

theorem not_dots_append {seg l : Str} (hseg : '.' ∉ seg) (hl : ¬['.', '.'] <:+: l) :
    ¬['.', '.'] <:+: seg ++ l := by
  induction seg with
  | nil => exact hl
  | cons c seg ih =>
    rw [mem_cons, not_or] at hseg
    exact not_dots_cons.mpr ⟨fun hc => absurd hc.symm hseg.1, ih hseg.2⟩

variable {segs segs' : List Str} {p : Str}

theorem not_dots_join (hsegs : ∀ seg ∈ segs, seg ≠ [] ∧ '.' ∉ seg) :
    ¬['.', '.'] <:+: segs.flatMap ('.' :: ·) := by
  induction segs with
  | nil => decide
  | cons seg segs ih =>
    obtain ⟨hne, hseg⟩ := hsegs seg mem_cons_self
    rw [flatMap_cons, cons_append]
    refine not_dots_cons.mpr ⟨fun _ hhead => ?_,
      not_dots_append hseg (ih fun x hx => hsegs x (mem_cons_of_mem _ hx))⟩
    cases seg with
    | nil => exact hne rfl
    | cons c seg => exact hseg (Option.some.inj hhead ▸ mem_cons_self)

/-- What continues a text of segments by more segments continues the segments. -/
theorem segments_prefix {x : Str} (hsegs : ∀ seg ∈ segs, '.' ∉ seg)
    (hsegs' : ∀ seg ∈ segs', '.' ∉ seg)
    (h : segs'.flatMap ('.' :: ·) = segs.flatMap ('.' :: ·) ++ '.' :: x) :
    ∃ more, segs' = segs ++ more ∧ more ≠ [] := by
  induction segs generalizing segs' with
  | nil =>
    refine ⟨segs', rfl, ?_⟩
    rintro rfl
    cases h
  | cons seg segs ih =>
    cases segs' with
    | nil => cases h
    | cons seg' segs' =>
      rw [flatMap_cons, flatMap_cons, append_assoc] at h
      obtain rfl : seg' = seg := @name_eq _ _ [] _ _ (hsegs' seg' mem_cons_self)
        (hsegs seg mem_cons_self) (isTail_flatMap _)
        ((isTail_flatMap _).append (.inr ⟨x, rfl⟩)) h
      obtain ⟨more, rfl, hmore⟩ := ih (fun t ht => hsegs t (mem_cons_of_mem _ ht))
        (fun t ht => hsegs' t (mem_cons_of_mem _ ht)) (append_cancel_left h)
      exact ⟨more, rfl, hmore⟩

/-- Texts of buffers that differ by a dot at the end. -/
theorem goesOn_dot {path : Str} (hsegs : ∀ seg ∈ segs, '.' ∉ seg)
    (hsegs' : ∀ seg ∈ segs', '.' ∉ seg) (h : goesOn path segs' = goesOn path segs ++ ['.']) :
    ∃ more, segs' = segs ++ more ∧ more ≠ [] := by
  have hlen : (goesOn path segs).length < maxDmPath - 1 := by
    have hle := length_take_le (maxDmPath - 1) (path ++ segs'.flatMap ('.' :: ·))
    have heq := congrArg List.length h
    rw [length_append, length_singleton] at heq
    rw [goesOn] at heq
    omega
  have hwhole : goesOn path segs = path ++ segs.flatMap ('.' :: ·) := by
    rw [goesOn, length_take] at hlen
    exact take_of_length_le (by omega)
  obtain ⟨x, hx⟩ : goesOn path segs' <+: path ++ segs'.flatMap ('.' :: ·) := take_prefix _ _
  rw [h, hwhole, append_assoc, append_assoc] at hx
  exact segments_prefix hsegs hsegs' (append_cancel_left hx).symm

/-! ## What is beyond the reference -/

section Beyond

variable {S : DmTree} {limit : Nat} (hS : SchemaOk limit S)

include hS

omit hS in
/-- A walk goes on behind the dot of a partial path. -/
theorem goesOn_beyond {text : Str} (hdot : text.getLast? = some '.')
    (hlen : text.length ≤ maxDmPath - 1) (hne : segs ≠ [])
    (hsegs : ∀ seg ∈ segs, seg ≠ [] ∧ '.' ∉ seg) :
    ∃ rest, goesOn text.dropLast segs = text ++ rest ∧ rest.head? ≠ some '.' ∧
      ¬['.', '.'] <:+: rest := by
  obtain ⟨front, rfl⟩ := List.getLast?_eq_some_iff.mp hdot
  cases segs with
  | nil => exact absurd rfl hne
  | cons seg segs =>
    have hdots := not_dots_join hsegs
    rw [flatMap_cons, cons_append] at hdots
    obtain ⟨hhead, hdots⟩ := not_dots_cons.mp hdots
    have htake : ∀ k, (seg ++ segs.flatMap ('.' :: ·)).take k <:+: seg ++ segs.flatMap ('.' :: ·) :=
      fun k => (List.take_prefix _ _).isInfix
    refine ⟨(seg ++ segs.flatMap ('.' :: ·)).take (maxDmPath - 1 - (front ++ ['.']).length), ?_, ?_,
      fun h => hdots (h.trans (htake _))⟩
    · rw [goesOn, dropLast_concat, flatMap_cons, ← singleton_append,
        append_assoc, ← append_assoc front, take_append, take_of_length_le hlen]
    · intro h
      rw [head?_take] at h
      split at h
      · cases h
      · exact hhead rfl h

variable {r : Str}

/-- What is found at an end is beyond the reference. -/
theorem finds_beyond {spec : Str} {ns : List Str} (h : Finds S r p) (hspells : Spells spec r ns)
    (hlen : r.length ≤ maxDmPath - 1) : ∃ rest, p = r ++ rest ∧ Beyond spec rest := by
  unfold Finds at h
  split at h
  · rename_i hdot
    obtain ⟨node, inst, isQualified, segs, hget, hbelow, rfl⟩ := h
    have hlt := (getQualifiedNode_spec hS hget).1
    obtain ⟨rest, hrest, -, hdots⟩ := goesOn_beyond hdot hlen hbelow.ne_nil (hbelow.plain hS hlt)
    exact ⟨rest, hrest, .inr (.inr (hspells.ends_in_dot hdot)), hdots⟩
  · exact ⟨[], by rw [h, append_nil], .inr (.inl (.inl rfl)), by decide⟩

/-- No two paths at one end differ just by a dot. -/
theorem finds_no_dot {p' : Str} (h : Finds S r p) (h' : Finds S r p') : p' ≠ p ++ ['.'] := by
  intro heq
  unfold Finds at h h'
  split at h
  · rename_i hdot
    rw [if_pos hdot] at h'
    obtain ⟨node, inst, isQualified, segs, hget, hbelow, rfl⟩ := h
    obtain ⟨node', inst', isQualified', segs', hget', hbelow', rfl⟩ := h'
    cases hget.symm.trans hget'
    have hlt := (getQualifiedNode_spec hS hget).1
    obtain ⟨more, rfl, hmore⟩ := goesOn_dot (fun seg hseg => (hbelow.plain hS hlt seg hseg).2)
      (fun seg hseg => (hbelow'.plain hS hlt seg hseg).2) heq
    exact hmore (hbelow.unique hS hlt hbelow')
  · rename_i hdot
    rw [if_neg hdot] at h'
    rw [h, h'] at heq
    exact absurd (congrArg List.length heq) (by simp)

/-- Paths of one end are told apart by what is between the dots around their ends. -/
theorem finds_inj {rest rest' : Str} (hlen : r.length ≤ maxDmPath - 1) (h : Finds S r (r ++ rest))
    (h' : Finds S r (r ++ rest')) (htrim : trimmed rest = trimmed rest') : rest = rest' := by
  have hleading : ∀ {rest : Str}, Finds S r (r ++ rest) → leading rest = rest := by
    intro rest hfinds
    refine if_neg fun hhead => ?_
    unfold Finds at hfinds
    split at hfinds
    · rename_i hdot
      obtain ⟨node, inst, isQualified, segs, hget, hbelow, hpath⟩ := hfinds
      have hlt := (getQualifiedNode_spec hS hget).1
      obtain ⟨rest', hrest, hne, -⟩ := goesOn_beyond hdot hlen hbelow.ne_nil (hbelow.plain hS hlt)
      rw [hrest] at hpath
      exact hne (append_cancel_left hpath ▸ hhead)
    · rw [List.append_right_eq_self.mp hfinds] at hhead
      cases hhead
  have hno := finds_no_dot hS h h'
  have hno' := finds_no_dot hS h' h
  rw [trimmed, trimmed, hleading h, hleading h'] at htrim
  rcases dropDelimiter_cases rest with hrest | hrest
  · rcases dropDelimiter_cases rest' with hrest' | hrest'
    · rw [← hrest, htrim, hrest']
    · rw [← htrim, hrest] at hrest'
      exact absurd (by rw [hrest', append_assoc]) hno
  · rcases dropDelimiter_cases rest' with hrest' | hrest'
    · rw [htrim, hrest'] at hrest
      exact absurd (by rw [hrest, append_assoc]) hno'
    · rw [hrest, htrim, ← hrest']

end Beyond

/-! ## The names of a reference -/

/-- A path of a reference: the reference with numbers for its operators, and what is beyond. -/
structure PathOf (spec r rest : Str) (ns : List Str) (p : Str) : Prop where
  path : p = r ++ rest
  spells : Spells spec r ns
  beyond : Beyond spec rest

theorem resolvedPaths_finds {N : Type} {S : DmTree} {P : PermissionTable} {W : World}
    {V : ValueRules N} {rq : Request} {fuel : Nat} {spec : Str} {a a' : State} {paths : List Str}
    (hS : SchemaOk maxDmInstanceOrder S) (hop : rq.op = .getBulkData) (href : Reference spec)
    (hlen : spec.length < maxDmPath) (hok : StateOk S a)
    (hrun : resolvedPaths S P W rq V fuel spec a = some (.ok paths, a')) (hp : p ∈ paths) :
    spec ≠ [] ∧ ∃ r ns, Spells spec r ns ∧ r.length ≤ maxDmPath - 1 ∧ Finds S r p := by
  have hreturn : ∀ s', resolveDevicePath S P W rq V fuel spec ⟨a, [], []⟩ = some (.ok (), s') →
      p ∈ s'.sv → spec ≠ [] ∧ ∃ r ns, Spells spec r ns ∧ r.length ≤ maxDmPath - 1 ∧ Finds S r p := by
    intro s' hdevice hmem
    obtain ⟨hstarts, hresolve⟩ := resolveDevicePath_ok hdevice
    have hne : spec ≠ [] := by
      rintro rfl
      exact absurd hstarts (by decide)
    have hwalks : answersPartial rq.op = true := by rw [hop]; rfl
    obtain ⟨y, ⟨-, hends⟩, hlength, hfinds⟩ :=
      (resolvePath_finds hS hwalks hok hresolve hmem).resolve_left not_mem_nil
    rw [take_of_length_le (by omega)] at hends
    obtain ⟨r, ns, hr, hspells⟩ := endsAt_spells hop hends _ _ _ rfl href
    rw [nil_append] at hr
    rw [hr] at hfinds hlength
    exact ⟨hne, r, ns, hspells, hlength, hfinds⟩
  unfold resolvedPaths at hrun
  split at hrun
  · cases hrun
  · cases hrun
  · cases hrun
  · rename_i s' hdevice
    cases hrun
    exact hreturn s' hdevice hp

/-- Every path that a reference resolves to is named by the alternative name, the instance
numbers at the operators and what is beyond the reference, with single dots, unless the
buffer has not three cells more than the name has characters; and different paths are named
differently. -/
theorem names_of_reference {N : Type} (rs : List Registration) (hrs : ∀ r ∈ rs, WithinArrays r)
    (P : PermissionTable) (W : World) (V : ValueRules N) (fuel : Nat) (rq : Request)
    (hop : rq.op = .getBulkData) (spec : Str) (href : Reference spec)
    (hlen : spec.length < maxDmPath) (a a' : State) (paths : List Str)
    (hok : StateOk (registerAll initialTree rs) a)
    (hrun : resolvedPaths (registerAll initialTree rs) P W rq V fuel spec a = some (.ok paths, a'))
    (altName : Str) (halt : altName ≠ []) (bufLen : Nat) :
    (∀ p ∈ paths, ∃ r rest ns, PathOf spec r rest ns p ∧
      ((reduceToAltName spec p altName bufLen = some (.error .internalError) ∧
          bufLen ≤ (['.'].intercalate (nameParts altName ns rest)).length + 2) ∨
        reduceToAltName spec p altName bufLen =
          some (.ok (['.'].intercalate (nameParts altName ns rest))))) ∧
    ∀ p ∈ paths, ∀ p' ∈ paths, ∀ name, reduceToAltName spec p altName bufLen = some (.ok name) →
      reduceToAltName spec p' altName bufLen = some (.ok name) → p = p' := by
  have hS := registered_ok hrs
  have hname : ∀ p ∈ paths, ∃ r rest ns, PathOf spec r rest ns p ∧ r.length ≤ maxDmPath - 1 ∧
      Finds (registerAll initialTree rs) r p ∧
      ((reduceToAltName spec p altName bufLen = some (.error .internalError) ∧
          bufLen ≤ (['.'].intercalate (nameParts altName ns rest)).length + 2) ∨
        reduceToAltName spec p altName bufLen =
          some (.ok (['.'].intercalate (nameParts altName ns rest)))) := by
    intro p hp
    obtain ⟨hne, r, ns, hspells, hlength, hfinds⟩ := resolvedPaths_finds hS hop href hlen hok hrun hp
    obtain ⟨rest, rfl, hbeyond⟩ := finds_beyond hS hfinds hspells hlength
    have hpath : r ++ rest ≠ [] := fun hnil =>
      hne (hspells.of_nil (List.append_eq_nil_iff.mp hnil).1).1
    exact ⟨r, rest, ns, ⟨rfl, hspells, hbeyond⟩, hlength, hfinds,
      reduceToAltName_spells hspells hbeyond hpath halt⟩
  refine ⟨fun p hp => ?_, fun p hp p' hp' name hok₁ hok₂ => ?_⟩
  · obtain ⟨r, rest, ns, hpath, -, -, hresult⟩ := hname p hp
    exact ⟨r, rest, ns, hpath, hresult⟩
  · obtain ⟨r, rest, ns, hpath, hlength, hfinds, hresult⟩ := hname p hp
    obtain ⟨r', rest', ns', hpath', hlength', hfinds', hresult'⟩ := hname p' hp'
    rw [hok₁] at hresult
    rw [hok₂] at hresult'
    have hsame := (hresult.resolve_left fun h => nomatch h.1).symm.trans
      (hresult'.resolve_left fun h => nomatch h.1)
    obtain ⟨rfl, htrim⟩ := nameParts_inj hpath.spells hpath'.spells
      (Except.ok.inj (Option.some.inj hsame))
    rw [hpath.path] at hfinds ⊢
    rw [hpath'.path] at hfinds' ⊢
    rw [finds_inj hS hlength hfinds hfinds' htrim]

theorem Reference.plain {t s : Str} (ht : ∀ c ∈ t, c ≠ '*' ∧ c ≠ '[') (hs : Reference s) :
    Reference (t ++ s) := by
  induction t with
  | nil => exact hs
  | cons c t ih =>
    obtain ⟨hstar, hopen⟩ := ht c mem_cons_self
    exact .literal hstar hopen (ih fun d hd => ht d (mem_cons_of_mem _ hd))

/-- The request of `bulkdata_expand_param_ref`. -/
def bulkRequest : Request :=
  { op := .getBulkData, depth := fullDepth, role := some ⟨0, 1⟩, wantsGroups := true }

/-- A partial path with a wildcard. -/
def wildcardSpec : Str := "Device.A.*.".toList

theorem names_of_reference_nested :
    (∃ a', resolvedPaths (registerAll initialTree nestedTables) readers readyWorld bulkRequest
      wholeNumbers 1 wildcardSpec nestedInstances = some (.ok ["Device.A.1.B.4.P".toList], a')) ∧
    ∃ r rest ns, PathOf wildcardSpec r rest ns "Device.A.1.B.4.P".toList ∧
      ['.'].intercalate (nameParts "alt".toList ns rest) = "alt.1.B.4.P".toList ∧
      reduceToAltName wildcardSpec "Device.A.1.B.4.P".toList "alt".toList 256 =
        some (.ok (['.'].intercalate (nameParts "alt".toList ns rest))) := by
  have hrun : ∃ a', resolvedPaths (registerAll initialTree nestedTables) readers readyWorld
      bulkRequest wholeNumbers 1 wildcardSpec nestedInstances =
      some (.ok ["Device.A.1.B.4.P".toList], a') := ⟨_, Prog.run_eq (by decide +kernel)⟩
  obtain ⟨a', ha'⟩ := hrun
  have href : Reference wildcardSpec := Reference.plain (t := "Device.A.".toList) (by simp)
    (.wildcard (.inr ⟨[], rfl⟩) (.literal (by decide) (by decide) .done))
  have hname : reduceToAltName wildcardSpec "Device.A.1.B.4.P".toList "alt".toList 256 =
      some (.ok "alt.1.B.4.P".toList) := by decide
  obtain ⟨r, rest, ns, hpath, hresult⟩ := (names_of_reference nestedTables nestedTables_within
    readers readyWorld wholeNumbers 1 bulkRequest rfl wildcardSpec href (by decide) nestedInstances
    a' _ nestedInstances_ok ha' "alt".toList (by decide) 256).1 _ mem_cons_self
  have hok := hresult.resolve_left fun h => nomatch hname.symm.trans h.1
  rw [hname] at hok
  refine ⟨⟨a', ha'⟩, r, rest, ns, hpath, (Except.ok.inj (Option.some.inj hok)).symm, ?_⟩
  rw [hname, hok]

end BulkDataNames
