import Mathlib.Data.List.Induction
import Mathlib.Data.List.Nodup
import Mathlib.Logic.Function.Basic

/-!
# Doubly linked lists

The operations of `dllist.c` as they store into the headers of the lists and the links of the
items. An item that is in no list may hold any links. A segment of a list is described from both
of its ends, so that an operation changes it only where it is cut.
-/

namespace DlList

open List Option

/-- The headers `κ` and the items `ν`, `NULL` being no item. -/
structure Memory (κ ν : Type) where
  head : κ → Option ν
  tail : κ → Option ν
  next : ν → Option ν
  prev : ν → Option ν

variable {κ ν : Type}

/-! ## Segments -/

/-- Following the links from `p` visits these items, and ends with `NULL`. -/
inductive Follows (link : ν → Option ν) : Option ν → List ν → Prop where
  | nil : Follows link none []
  | cons {x : ν} {xs : List ν} (h : Follows link (link x) xs) : Follows link (some x) (x :: xs)

/-- The items are linked one after the other, between `p` and `q`. -/
def Segment (m : Memory κ ν) : Option ν → List ν → Option ν → Prop
  | _, [], _ => True
  | p, x :: xs, q => m.prev x = p ∧ m.next x = xs.head?.or q ∧ Segment m (some x) xs q

section Segments

variable {m : Memory κ ν} {x : ν} {xs ys : List ν} {p q r : Option ν}

theorem segment_nil : Segment m p [] q := trivial

theorem segment_cons : Segment m p (x :: xs) q ↔
    m.prev x = p ∧ m.next x = xs.head?.or q ∧ Segment m (some x) xs q := Iff.rfl

theorem segment_append : Segment m p (xs ++ ys) q ↔
    Segment m p xs (ys.head?.or q) ∧ Segment m (xs.getLast?.or p) ys q := by
  induction xs generalizing p with
  | nil => simp [segment_nil]
  | cons x xs ih =>
    have hlast : (x :: xs).getLast?.or p = xs.getLast?.or (some x) := by
      rw [getLast?_cons]
      cases xs.getLast? <;> rfl
    rw [cons_append, segment_cons, segment_cons, ih, hlast, head?_append, Option.or_assoc]
    simp only [and_assoc]

theorem segment_concat : Segment m p (xs ++ [x]) q ↔
    Segment m p xs (some x) ∧ m.prev x = xs.getLast?.or p ∧ m.next x = q := by
  rw [segment_append, segment_cons]
  simp [segment_nil]

theorem Segment.congr {m' : Memory κ ν} (h : Segment m p xs q)
    (hsame : ∀ x ∈ xs, m'.next x = m.next x ∧ m'.prev x = m.prev x) : Segment m' p xs q := by
  induction xs generalizing p with
  | nil => exact segment_nil
  | cons x xs ih =>
    obtain ⟨hprev, hnext, hrest⟩ := h
    obtain ⟨hx, hxs⟩ := List.forall_mem_cons.mp hsame
    exact ⟨hx.2.trans hprev, hx.1.trans hnext, ih hrest hxs⟩

theorem Segment.follows_next (h : Segment m p xs none) : Follows m.next xs.head? xs := by
  induction xs generalizing p with
  | nil => exact .nil
  | cons x xs ih =>
    obtain ⟨-, hnext, hrest⟩ := h
    rw [or_none] at hnext
    exact .cons (hnext ▸ ih hrest)

theorem Segment.follows_prev (h : Segment m none xs q) : Follows m.prev xs.getLast? xs.reverse := by
  induction xs using List.reverseRecOn generalizing q with
  | nil => exact .nil
  | append_singleton xs x ih =>
    obtain ⟨hrest, hprev, -⟩ := segment_concat.mp h
    rw [or_none] at hprev
    rw [getLast?_concat, reverse_concat]
    exact .cons (hprev ▸ ih hrest)

end Segments

/-! ## Stores -/

section Headers

variable [DecidableEq κ] (m : Memory κ ν) (list : κ) (p : Option ν)

def Memory.setHead : Memory κ ν := { m with head := Function.update m.head list p }

def Memory.setTail : Memory κ ν := { m with tail := Function.update m.tail list p }

@[simp] theorem setHead_head : (m.setHead list p).head = Function.update m.head list p := rfl
@[simp] theorem setHead_tail : (m.setHead list p).tail = m.tail := rfl
@[simp] theorem setHead_next : (m.setHead list p).next = m.next := rfl
@[simp] theorem setHead_prev : (m.setHead list p).prev = m.prev := rfl
@[simp] theorem setTail_head : (m.setTail list p).head = m.head := rfl
@[simp] theorem setTail_tail : (m.setTail list p).tail = Function.update m.tail list p := rfl
@[simp] theorem setTail_next : (m.setTail list p).next = m.next := rfl
@[simp] theorem setTail_prev : (m.setTail list p).prev = m.prev := rfl

variable {m list p} {q r : Option ν} {xs : List ν}

@[simp] theorem segment_setHead : Segment (m.setHead list r) p xs q ↔ Segment m p xs q := by
  induction xs generalizing p with
  | nil => rfl
  | cons x xs ih => simp [segment_cons, ih]

@[simp] theorem segment_setTail : Segment (m.setTail list r) p xs q ↔ Segment m p xs q := by
  induction xs generalizing p with
  | nil => rfl
  | cons x xs ih => simp [segment_cons, ih]

end Headers

section Links

variable [DecidableEq ν] (m : Memory κ ν) (item : ν) (p : Option ν)

def Memory.setNext : Memory κ ν := { m with next := Function.update m.next item p }

def Memory.setPrev : Memory κ ν := { m with prev := Function.update m.prev item p }

@[simp] theorem setNext_head : (m.setNext item p).head = m.head := rfl
@[simp] theorem setNext_tail : (m.setNext item p).tail = m.tail := rfl
@[simp] theorem setNext_next : (m.setNext item p).next = Function.update m.next item p := rfl
@[simp] theorem setNext_prev : (m.setNext item p).prev = m.prev := rfl
@[simp] theorem setPrev_head : (m.setPrev item p).head = m.head := rfl
@[simp] theorem setPrev_tail : (m.setPrev item p).tail = m.tail := rfl
@[simp] theorem setPrev_next : (m.setPrev item p).next = m.next := rfl
@[simp] theorem setPrev_prev : (m.setPrev item p).prev = Function.update m.prev item p := rfl

variable {m p} {x : ν} {q r : Option ν} {xs : List ν}

theorem segment_setNext (h : x ∉ xs) : Segment (m.setNext x r) p xs q ↔ Segment m p xs q := by
  induction xs generalizing p with
  | nil => rfl
  | cons y ys ih =>
    obtain ⟨hy, hys⟩ := not_or.mp (List.mem_cons.not.mp h)
    simp [segment_cons, ih hys, Function.update_of_ne (Ne.symm hy)]

theorem segment_setPrev (h : x ∉ xs) : Segment (m.setPrev x r) p xs q ↔ Segment m p xs q := by
  induction xs generalizing p with
  | nil => rfl
  | cons y ys ih =>
    obtain ⟨hy, hys⟩ := not_or.mp (List.mem_cons.not.mp h)
    simp [segment_cons, ih hys, Function.update_of_ne (Ne.symm hy)]

/-- The last link of a segment is turned to another item. -/
theorem Segment.setNext_last (h : Segment m p (xs ++ [x]) q) (hx : x ∉ xs) :
    Segment (m.setNext x r) p (xs ++ [x]) r := by
  rw [segment_concat] at h ⊢
  rw [segment_setNext hx]
  simp [h.1, h.2.1]

theorem Segment.setPrev_first (h : Segment m p (x :: xs) q) (hx : x ∉ xs) :
    Segment (m.setPrev x r) r (x :: xs) q := by
  rw [segment_cons] at h ⊢
  rw [segment_setPrev hx]
  simp [h.2.1, h.2.2]

end Links

variable [DecidableEq κ] [DecidableEq ν]

/-! ## The operations. An assertion that fails leaves no memory. -/

/-- `DLLIST_LinkToHead` -/
def linkToHead (list : κ) (item : ν) (m : Memory κ ν) : Option (Memory κ ν) :=
  match m.head list with
  | none =>
    if m.tail list = none then
      some ((((m.setTail list item).setNext item none).setHead list item).setPrev item none)
    else none
  | some headItem =>
    some ((((m.setPrev headItem item).setNext item headItem).setHead list item).setPrev item none)

/-- `DLLIST_LinkToTail` -/
def linkToTail (list : κ) (item : ν) (m : Memory κ ν) : Option (Memory κ ν) :=
  match m.tail list with
  | none =>
    if m.head list = none then
      some ((((m.setHead list item).setPrev item none).setTail list item).setNext item none)
    else none
  | some tailItem =>
    some ((((m.setNext tailItem item).setPrev item tailItem).setTail list item).setNext item none)

/-- The first half of `DLLIST_Unlink`: what is in front of the item. -/
def unlinkFront (list : κ) (item : ν) (m : Memory κ ν) : Memory κ ν :=
  match m.prev item with
  | none => m.setHead list (m.next item)
  | some p => m.setNext p (m.next item)

/-- The second half: what is behind it. -/
def unlinkBack (list : κ) (item : ν) (m : Memory κ ν) : Memory κ ν :=
  match m.next item with
  | none => m.setTail list (m.prev item)
  | some n => m.setPrev n (m.prev item)

/-- `DLLIST_Unlink` -/
def unlink (list : κ) (item : ν) (m : Memory κ ν) : Memory κ ν :=
  ((unlinkBack list item (unlinkFront list item m)).setNext item none).setPrev item none

/-- The link of `DLLIST_InsertLinkBefore` that leads to the item. -/
def insertFront (itemBefore : Option ν) (list : κ) (item : ν) (m : Memory κ ν) : Memory κ ν :=
  match itemBefore with
  | some b => m.setNext b item
  | none => m.setHead list item

/-- `DLLIST_InsertLinkBefore` -/
def insertLinkBefore (itemAfter : ν) (list : κ) (item : ν) (m : Memory κ ν) : Memory κ ν :=
  let itemBefore := m.prev itemAfter
  (((insertFront itemBefore list item m).setNext item itemAfter).setPrev itemAfter item).setPrev
    item itemBefore

/-- `DLLIST_MoveLink` -/
def moveLink (dest src : κ) (item : ν) (m : Memory κ ν) : Option (Memory κ ν) :=
  linkToTail dest item (unlink src item m)

inductive Op (κ ν : Type) where
  | linkToHead (list : κ) (item : ν)
  | linkToTail (list : κ) (item : ν)
  | insertLinkBefore (itemAfter : ν) (list : κ) (item : ν)
  | unlink (list : κ) (item : ν)
  | moveLink (dest src : κ) (item : ν)
  deriving DecidableEq, Repr

def Op.run : Op κ ν → Memory κ ν → Option (Memory κ ν)
  | .linkToHead list item, m => DlList.linkToHead list item m
  | .linkToTail list item, m => DlList.linkToTail list item m
  | .insertLinkBefore itemAfter list item, m =>
    some (DlList.insertLinkBefore itemAfter list item m)
  | .unlink list item, m => some (DlList.unlink list item m)
  | .moveLink dest src item, m => DlList.moveLink dest src item m

def runAll : List (Op κ ν) → Memory κ ν → Option (Memory κ ν)
  | [], m => some m
  | op :: ops, m => (op.run m).bind (runAll ops)

/-- Every header after `DLLIST_Init`, with whatever is in the links. -/
def start (next prev : ν → Option ν) : Memory κ ν := ⟨fun _ => none, fun _ => none, next, prev⟩

/-! ## The lists that the operations denote -/

abbrev Lists (κ ν : Type) := κ → List ν

/-- The item in front of the first `itemAfter`. -/
def insertBefore (itemAfter item : ν) : List ν → List ν
  | [] => []
  | x :: xs => if x = itemAfter then item :: x :: xs else x :: insertBefore itemAfter item xs

def Op.denote : Op κ ν → Lists κ ν → Lists κ ν
  | .linkToHead list item, L => Function.update L list (item :: L list)
  | .linkToTail list item, L => Function.update L list (L list ++ [item])
  | .insertLinkBefore itemAfter list item, L =>
    Function.update L list (insertBefore itemAfter item (L list))
  | .unlink list item, L => Function.update L list ((L list).erase item)
  | .moveLink dest src item, L =>
    let L := Function.update L src ((L src).erase item)
    Function.update L dest (L dest ++ [item])

def denoteAll (ops : List (Op κ ν)) (L : Lists κ ν) : Lists κ ν :=
  ops.foldl (fun L op => op.denote L) L

/-- An item that is added is in no list, and one that is removed or inserted before is in the
list that is named. -/
def Op.Allowed : Op κ ν → Lists κ ν → Prop
  | .linkToHead _ item, L | .linkToTail _ item, L => ∀ list, item ∉ L list
  | .insertLinkBefore itemAfter list item, L => itemAfter ∈ L list ∧ ∀ list, item ∉ L list
  | .unlink list item, L => item ∈ L list
  | .moveLink _ src item, L => item ∈ L src

def AllAllowed : List (Op κ ν) → Lists κ ν → Prop
  | [], _ => True
  | op :: ops, L => op.Allowed L ∧ AllAllowed ops (op.denote L)

/-! ## Memories and the lists in them -/

/-- Each header and its links hold the list, and no item is in a list twice or in two lists. -/
structure Represents (m : Memory κ ν) (L : Lists κ ν) : Prop where
  head : ∀ list, m.head list = (L list).head?
  tail : ∀ list, m.tail list = (L list).getLast?
  links : ∀ list, Segment m none (L list) none
  nodup : ∀ list, (L list).Nodup
  apart : ∀ list list' x, x ∈ L list → x ∈ L list' → list = list'

/-- What an operation on a list stores. The links of other items are left alone. -/
structure Rewires (list : κ) (item : ν) (old new : List ν) (m m' : Memory κ ν) : Prop where
  head : m'.head = Function.update m.head list new.head?
  tail : m'.tail = Function.update m.tail list new.getLast?
  links : Segment m' none new none
  frame : ∀ x, x ∉ old → x ≠ item → m'.next x = m.next x ∧ m'.prev x = m.prev x

variable {front : List ν} {itemAfter : ν}

section Operations

variable {m : Memory κ ν} {L : Lists κ ν} {list : κ} {item : ν}

omit [DecidableEq ν] in
theorem Represents.rewired {m' : Memory κ ν} {new : List ν} (h : Represents m L)
    (hstep : Rewires list item (L list) new m m') (hnodup : new.Nodup)
    (hnew : ∀ x ∈ new, x = item ∨ x ∈ L list) (hitem : ∀ other ≠ list, item ∉ L other) :
    Represents m' (Function.update L list new) := by
  have haside : ∀ other ≠ list, ∀ x ∈ L other, x ∉ L list ∧ x ≠ item := by
    intro other hother x hx
    constructor
    · intro hmem
      exact hother (h.apart _ _ x hx hmem)
    · rintro rfl
      exact hitem other hother hx
  have hnewAside : ∀ other ≠ list, ∀ x ∈ new, x ∉ L other := by
    intro other hother x hx hmem
    obtain ⟨hlist, hne⟩ := haside other hother x hmem
    cases hnew x hx with
    | inl heq => exact hne heq
    | inr hin => exact hlist hin
  constructor
  · intro other
    rw [hstep.head]
    by_cases hother : other = list
    · subst hother; simp
    · simp [hother, h.head]
  · intro other
    rw [hstep.tail]
    by_cases hother : other = list
    · subst hother; simp
    · simp [hother, h.tail]
  · intro other
    by_cases hother : other = list
    · subst hother; simpa using hstep.links
    · rw [Function.update_of_ne hother]
      refine (h.links other).congr fun x hx => ?_
      obtain ⟨hlist, hne⟩ := haside other hother x hx
      exact hstep.frame x hlist hne
  · intro other
    by_cases hother : other = list
    · subst hother; simpa using hnodup
    · simpa [hother] using h.nodup other
  · intro l l' x hl hl'
    by_cases hlist : l = list <;> by_cases hlist' : l' = list
    · rw [hlist, hlist']
    · subst hlist
      rw [Function.update_self] at hl
      rw [Function.update_of_ne hlist'] at hl'
      exact absurd hl' (hnewAside l' hlist' x hl)
    · subst hlist'
      rw [Function.update_self] at hl'
      rw [Function.update_of_ne hlist] at hl
      exact absurd hl (hnewAside l hlist x hl')
    · rw [Function.update_of_ne hlist] at hl
      rw [Function.update_of_ne hlist'] at hl'
      exact h.apart l l' x hl hl'

theorem linkToHead_rewires (h : Represents m L) (hitem : item ∉ L list) :
    ∃ m', linkToHead list item m = some m' ∧
      Rewires list item (L list) (item :: L list) m m' := by
  have hlinks := h.links list
  have hnodup := h.nodup list
  have hhead := h.head list
  have htail := h.tail list
  cases hlist : L list with
  | nil =>
    rw [hlist] at hhead htail
    refine ⟨_, by rw [linkToHead, hhead, htail]; rfl, ?_⟩
    constructor
    · simp
    · simp
    · simp [segment_cons, segment_nil]
    · intro x _ hx
      simp [hx]
  | cons y ys =>
    rw [hlist] at hhead htail hlinks hnodup hitem
    obtain ⟨hy, hys⟩ := not_or.mp (List.mem_cons.not.mp hitem)
    have hyys := (List.nodup_cons.mp hnodup).1
    refine ⟨_, by rw [linkToHead, hhead]; rfl, ?_⟩
    constructor
    · simp
    · simp [← htail]
    · rw [segment_cons, segment_setPrev hitem, segment_setHead, segment_setNext hitem]
      exact ⟨by simp, by simp, hlinks.setPrev_first hyys⟩
    · intro x hx hne
      obtain ⟨hxy, -⟩ := not_or.mp (List.mem_cons.not.mp hx)
      simp [hne, hxy]

theorem linkToTail_rewires (h : Represents m L) (hitem : item ∉ L list) :
    ∃ m', linkToTail list item m = some m' ∧
      Rewires list item (L list) (L list ++ [item]) m m' := by
  have hlinks := h.links list
  have hnodup := h.nodup list
  have hhead := h.head list
  have htail := h.tail list
  obtain hlist | ⟨ys, y, hlist⟩ := eq_nil_or_concat' (L list)
  · rw [hlist] at hhead htail ⊢
    refine ⟨_, by rw [linkToTail, hhead, htail]; rfl, ?_⟩
    constructor
    · simp
    · simp
    · simp [segment_cons, segment_nil]
    · intro x _ hx
      simp [hx]
  · rw [hlist] at hhead htail hlinks hnodup hitem ⊢
    rw [getLast?_concat] at htail
    have hne : item ≠ y := by
      rintro rfl
      exact hitem mem_concat_self
    have hyys : y ∉ ys := fun hmem =>
      disjoint_of_nodup_append hnodup hmem (mem_singleton_self y)
    have hfirst : m.head list = (ys ++ [y] ++ [item]).head? := by
      rw [hhead]
      cases ys <;> rfl
    refine ⟨_, by rw [linkToTail, htail], ?_⟩
    constructor
    · rw [← hfirst]
      simp
    · simp
    · rw [segment_concat, segment_setNext hitem, segment_setTail, segment_setPrev hitem]
      exact ⟨hlinks.setNext_last hyys, by simp, by simp⟩
    · intro x hx hxne
      have hxy : x ≠ y := by
        rintro rfl
        exact hx mem_concat_self
      simp [hxne, hxy]

variable {back : List ν}

omit [DecidableEq κ] [DecidableEq ν] in
/-- The links of an item are its neighbours. -/
theorem Represents.neighbours (h : Represents m L) (hlist : L list = front ++ item :: back) :
    m.prev item = front.getLast? ∧ m.next item = back.head? := by
  have hlinks := h.links list
  rw [hlist, segment_append, segment_cons] at hlinks
  obtain ⟨-, hprev, hnext, -⟩ := hlinks
  simpa using And.intro hprev hnext

/-- What `unlinkFront` leaves of a list that is cut at the item. -/
structure FrontCut (list : κ) (item : ν) (front back : List ν) (m m' : Memory κ ν) : Prop where
  head : m'.head = Function.update m.head list (front ++ back).head?
  tail : m'.tail = m.tail
  prev : m'.prev = m.prev
  next : m'.next item = back.head?
  inFront : Segment m' none front back.head?
  behind : Segment m' (some item) back none
  frame : ∀ x, x ∉ front → m'.next x = m.next x

section

variable (h : Represents m L) (hlist : L list = front ++ item :: back)
include h hlist

theorem unlinkFront_cuts : FrontCut list item front back m (unlinkFront list item m) := by
  obtain ⟨hprev, hnext⟩ := h.neighbours hlist
  have hlinks := h.links list
  have hnodup := h.nodup list
  have hhead := h.head list
  rw [hlist] at hlinks hnodup hhead
  obtain ⟨hfront, -, -, hback⟩ := segment_append.mp hlinks
  obtain hnil | ⟨us, b, rfl⟩ := eq_nil_or_concat' front
  · subst hnil
    have hcut : unlinkFront list item m = m.setHead list (m.next item) := by
      simp [unlinkFront, hprev]
    rw [hcut]
    constructor <;> simp [hnext, hback, segment_nil]
  · rw [getLast?_concat] at hprev
    have hcut : unlinkFront list item m = m.setNext b (m.next item) := by simp [unlinkFront, hprev]
    obtain ⟨hus, hrest, hapart⟩ := List.nodup_append.mp hnodup
    have hbus : b ∉ us := fun hmem =>
      disjoint_of_nodup_append hus hmem (mem_singleton_self b)
    have hbitem : b ≠ item := hapart b mem_concat_self item mem_cons_self
    have hbback : b ∉ back := fun hmem =>
      hapart b mem_concat_self b (mem_cons_of_mem _ hmem) rfl
    have hfirst : m.head list = (us ++ [b] ++ back).head? := by
      rw [hhead]
      cases us <;> rfl
    rw [hcut, hnext]
    constructor
    · rw [← hfirst]
      simp
    · rfl
    · rfl
    · simp [Ne.symm hbitem, hnext]
    · exact hfront.setNext_last hbus
    · rwa [segment_setNext hbback]
    · intro x hx
      have hxb : x ≠ b := by
        rintro rfl
        exact hx mem_concat_self
      simp [hxb]

/-- What `unlinkBack` leaves of a list whose front has been cut. -/
structure BackCut (list : κ) (item : ν) (front back : List ν) (m m' : Memory κ ν) : Prop where
  head : m'.head = m.head
  tail : m'.tail = Function.update m.tail list (front ++ back).getLast?
  next : m'.next = m.next
  inFront : Segment m' none front back.head?
  behind : Segment m' front.getLast? back none
  frame : ∀ x, x ∉ back → m'.prev x = m.prev x

theorem unlinkBack_cuts {m' : Memory κ ν} (hcut : FrontCut list item front back m m') :
    BackCut list item front back m' (unlinkBack list item m') := by
  have hprev := (h.neighbours hlist).1
  have hnodup := h.nodup list
  have htail := h.tail list
  rw [hlist] at hnodup htail
  rw [← hcut.prev] at hprev
  rw [← hcut.tail] at htail
  obtain ⟨-, hrest, hapart⟩ := List.nodup_append.mp hnodup
  have hnext := hcut.next
  have hfront := hcut.inFront
  have hback := hcut.behind
  cases back with
  | nil =>
    have hlast : unlinkBack list item m' = m'.setTail list (m'.prev item) := by
      simp [unlinkBack, hnext]
    rw [hlast, hprev]
    constructor <;> simp [segment_nil]
    simpa using hfront
  | cons n back =>
    have hstep : unlinkBack list item m' = m'.setPrev n (m'.prev item) := by
      simp [unlinkBack, hnext]
    have hnfront : n ∉ front := fun hmem =>
      hapart n hmem n (mem_cons_of_mem _ mem_cons_self) rfl
    have hnback : n ∉ back := (List.nodup_cons.mp (List.nodup_cons.mp hrest).2).1
    have hsame : m'.tail list = (front ++ n :: back).getLast? := by
      rw [htail]
      simp [getLast?_append]
    rw [hstep, hprev]
    constructor
    · rfl
    · rw [← hsame]
      simp
    · rfl
    · rwa [segment_setPrev hnfront]
    · exact hback.setPrev_first hnback
    · intro x hx
      obtain ⟨hxn, -⟩ := not_or.mp (List.mem_cons.not.mp hx)
      simp [hxn]

theorem unlink_rewires : Rewires list item (L list) (front ++ back) m (unlink list item m) := by
  have hfirst := unlinkFront_cuts h hlist
  have hsecond := unlinkBack_cuts h hlist hfirst
  have hnodup := h.nodup list
  rw [hlist] at hnodup ⊢
  obtain ⟨-, hrest, hapart⟩ := List.nodup_append.mp hnodup
  have hifront : item ∉ front := fun hmem => hapart item hmem item mem_cons_self rfl
  have hiback : item ∉ back := (List.nodup_cons.mp hrest).1
  rw [unlink]
  constructor
  · rw [setPrev_head, setNext_head, hsecond.head, hfirst.head]
  · rw [setPrev_tail, setNext_tail, hsecond.tail, hfirst.tail]
  · rw [segment_append, segment_setPrev hifront, segment_setPrev hiback, segment_setNext hifront,
      segment_setNext hiback, or_none, or_none]
    exact ⟨hsecond.inFront, hsecond.behind⟩
  · intro x hx hne
    obtain ⟨hxfront, hxback⟩ := not_or.mp (List.mem_append.not.mp hx)
    have hxback' : x ∉ back := fun hmem => hxback (mem_cons_of_mem _ hmem)
    simp [hne, hsecond.next, hsecond.frame x hxback', hfirst.prev, hfirst.frame x hxfront]

end

/-- What `insertFront` leaves of a list that is opened behind `front`. -/
structure Opened (list : κ) (item : ν) (front behind : List ν) (m m' : Memory κ ν) : Prop where
  head : m'.head = Function.update m.head list (front ++ item :: behind).head?
  tail : m'.tail = m.tail
  prev : m'.prev = m.prev
  inFront : Segment m' none front (some item)
  behind : Segment m' front.getLast? behind none
  frame : ∀ x, x ∉ front → m'.next x = m.next x

theorem insertFront_opens {behind : List ν} (h : Represents m L)
    (hlist : L list = front ++ behind) :
    Opened list item front behind m (insertFront front.getLast? list item m) := by
  have hlinks := h.links list
  have hnodup := h.nodup list
  have hhead := h.head list
  rw [hlist] at hlinks hnodup hhead
  obtain ⟨hfront, hbehind⟩ := segment_append.mp hlinks
  rw [or_none] at hbehind
  obtain hnil | ⟨us, b, rfl⟩ := eq_nil_or_concat' front
  · subst hnil
    constructor
    · simp [insertFront]
    · rfl
    · rfl
    · exact segment_nil
    · simpa [insertFront] using hbehind
    · intro x _
      rfl
  · obtain ⟨hus, -, hapart⟩ := List.nodup_append.mp hnodup
    have hbus : b ∉ us := fun hmem =>
      disjoint_of_nodup_append hus hmem (mem_singleton_self b)
    have hbbehind : b ∉ behind := fun hmem => hapart b mem_concat_self b hmem rfl
    have hopen : insertFront (us ++ [b]).getLast? list item m = m.setNext b item := by
      simp [insertFront]
    have hfirst : m.head list = (us ++ [b] ++ item :: behind).head? := by
      rw [hhead]
      cases us <;> rfl
    rw [hopen]
    constructor
    · rw [← hfirst]
      simp
    · rfl
    · rfl
    · exact hfront.setNext_last hbus
    · rwa [segment_setNext hbbehind]
    · intro x hx
      have hxb : x ≠ b := by
        rintro rfl
        exact hx mem_concat_self
      simp [hxb]

theorem insertLinkBefore_rewires (h : Represents m L)
    (hlist : L list = front ++ itemAfter :: back) (hitem : item ∉ L list) :
    Rewires list item (L list) (front ++ item :: itemAfter :: back) m
      (insertLinkBefore itemAfter list item m) := by
  have hprev := (h.neighbours hlist).1
  have hopen : Opened list item front (itemAfter :: back) m
      (insertFront front.getLast? list item m) := insertFront_opens h hlist
  have hnodup := h.nodup list
  have htail := h.tail list
  rw [hlist] at hnodup htail hitem ⊢
  obtain ⟨-, hrest, hapart⟩ := List.nodup_append.mp hnodup
  obtain ⟨hifront, hibehind⟩ := not_or.mp (List.mem_append.not.mp hitem)
  have hafter : itemAfter ∉ front := fun hmem => hapart _ hmem _ mem_cons_self rfl
  have hback : itemAfter ∉ back := (List.nodup_cons.mp hrest).1
  have hne : item ≠ itemAfter := fun heq => hibehind (heq ▸ mem_cons_self)
  have hlast : m.tail list = (front ++ item :: itemAfter :: back).getLast? := by
    rw [htail]
    simp [getLast?_append]
  rw [insertLinkBefore, hprev]
  constructor
  · exact hopen.head
  · rw [← hlast]
    simpa using hopen.tail
  · rw [segment_append, segment_cons, segment_setPrev hifront, segment_setPrev hafter,
      segment_setNext hifront, segment_setPrev hibehind]
    refine ⟨hopen.inFront, by simp, by simp, ?_⟩
    have hbehind := (segment_setNext (r := some itemAfter) hibehind).mpr hopen.behind
    exact hbehind.setPrev_first hback
  · intro x hx hxne
    obtain ⟨hxfront, hxbehind⟩ := not_or.mp (List.mem_append.not.mp hx)
    obtain ⟨hxafter, -⟩ := not_or.mp (List.mem_cons.not.mp hxbehind)
    simp [hxne, hxafter, hopen.prev, hopen.frame x hxfront]

end Operations

/-! ## What one operation does -/

def Clear (m : Memory κ ν) (x : ν) : Prop := m.next x = none ∧ m.prev x = none

/-- An item that is in no list afterwards has lost its links, or was in no list before and has
the links it had. -/
def Settles (m m' : Memory κ ν) (L L' : Lists κ ν) : Prop :=
  ∀ x, (∀ list, x ∉ L' list) → ((∃ list, x ∈ L list) → Clear m' x) ∧
    ((∀ list, x ∉ L list) → m'.next x = m.next x ∧ m'.prev x = m.prev x)

section Steps

variable {m m' : Memory κ ν} {L : Lists κ ν} {list : κ} {item : ν}

omit [DecidableEq ν] in
/-- An operation that adds an item does not touch those in no list. -/
theorem Rewires.settles {new : List ν} (hstep : Rewires list item (L list) new m m')
    (hnew : item ∈ new) (hold : L list ⊆ new) : Settles m m' L (Function.update L list new) := by
  intro x hx
  have hxnew : x ∉ new := by simpa using hx list
  constructor
  · rintro ⟨other, hother⟩
    by_cases heq : other = list
    · subst heq
      exact absurd (hold hother) hxnew
    · have hother' := hx other
      rw [Function.update_of_ne heq] at hother'
      exact absurd hother hother'
  · intro hout
    refine hstep.frame x (hout list) ?_
    rintro rfl
    exact hxnew hnew

theorem linkToHead_step (h : Represents m L) (hitem : ∀ list, item ∉ L list) :
    ∃ m', linkToHead list item m = some m' ∧
      Represents m' (Function.update L list (item :: L list)) ∧
      Settles m m' L (Function.update L list (item :: L list)) := by
  obtain ⟨m', hrun, hstep⟩ := linkToHead_rewires h (hitem list)
  refine ⟨m', hrun, ?_, hstep.settles mem_cons_self (subset_cons_self _ _)⟩
  refine h.rewired hstep (List.nodup_cons.mpr ⟨hitem list, h.nodup list⟩) ?_ fun other _ => hitem other
  intro x hx
  exact List.mem_cons.mp hx

theorem linkToTail_step (h : Represents m L) (hitem : ∀ list, item ∉ L list) :
    ∃ m', linkToTail list item m = some m' ∧
      Represents m' (Function.update L list (L list ++ [item])) ∧
      Settles m m' L (Function.update L list (L list ++ [item])) := by
  obtain ⟨m', hrun, hstep⟩ := linkToTail_rewires h (hitem list)
  refine ⟨m', hrun, ?_, hstep.settles mem_concat_self (subset_append_left _ _)⟩
  refine h.rewired hstep ?_ ?_ fun other _ => hitem other
  · exact List.nodup_append.mpr ⟨h.nodup list, nodup_singleton item, fun x hx y hy heq =>
      hitem list (List.mem_singleton.mp hy ▸ heq ▸ hx)⟩
  · intro x hx
    rw [mem_append, mem_singleton] at hx
    exact hx.symm

theorem insertBefore_append (back : List ν) (h : itemAfter ∉ front) :
    insertBefore itemAfter item (front ++ itemAfter :: back) =
      front ++ item :: itemAfter :: back := by
  induction front with
  | nil => simp [insertBefore]
  | cons y front ih =>
    obtain ⟨hy, hfront⟩ := not_or.mp (List.mem_cons.not.mp h)
    simp [insertBefore, Ne.symm hy, ih hfront]

theorem insertLinkBefore_step (h : Represents m L) (hafter : itemAfter ∈ L list)
    (hitem : ∀ list, item ∉ L list) :
    Represents (insertLinkBefore itemAfter list item m)
        (Function.update L list (insertBefore itemAfter item (L list))) ∧
      Settles m (insertLinkBefore itemAfter list item m) L
        (Function.update L list (insertBefore itemAfter item (L list))) := by
  obtain ⟨front, back, hlist⟩ := append_of_mem hafter
  have hstep := insertLinkBefore_rewires h hlist (hitem list)
  have hnodup := h.nodup list
  have hout := hitem list
  rw [hlist] at hnodup hout
  have hfront : itemAfter ∉ front := fun hmem =>
    (List.nodup_append.mp hnodup).2.2 _ hmem _ mem_cons_self rfl
  have hnew : insertBefore itemAfter item (L list) = front ++ item :: itemAfter :: back := by
    rw [hlist, insertBefore_append back hfront]
  have hperm : (front ++ item :: itemAfter :: back).Perm (item :: L list) := by
    rw [hlist]
    exact perm_middle
  rw [hnew]
  constructor
  · refine h.rewired hstep ?_ ?_ fun other _ => hitem other
    · exact hperm.nodup_iff.mpr (List.nodup_cons.mpr ⟨hitem list, h.nodup list⟩)
    · intro x hx
      exact List.mem_cons.mp (hperm.mem_iff.mp hx)
  · refine hstep.settles (hperm.mem_iff.mpr mem_cons_self) fun x hx => ?_
    exact hperm.mem_iff.mpr (mem_cons_of_mem _ hx)

theorem unlink_step (h : Represents m L) (hitem : item ∈ L list) :
    Represents (unlink list item m) (Function.update L list ((L list).erase item)) ∧
      Settles m (unlink list item m) L (Function.update L list ((L list).erase item)) := by
  obtain ⟨front, back, hlist⟩ := append_of_mem hitem
  have hstep := unlink_rewires h hlist
  have hnodup := h.nodup list
  have hmem : ∀ x, x ∈ (L list).erase item ↔ x ≠ item ∧ x ∈ L list := fun x =>
    hnodup.mem_erase_iff
  have hnew : (L list).erase item = front ++ back := by
    rw [hlist] at hnodup ⊢
    have hfront : item ∉ front := fun hmem =>
      (List.nodup_append.mp hnodup).2.2 _ hmem _ mem_cons_self rfl
    rw [erase_append_right _ hfront, erase_cons_head]
  rw [← hnew] at hstep
  constructor
  · refine h.rewired hstep (hnodup.erase item) ?_ ?_
    · intro x hx
      exact .inr ((hmem x).mp hx).2
    · intro other hother hin
      exact hother (h.apart _ _ item hin hitem)
  · intro x hx
    have hxlist : x ∉ (L list).erase item := by simpa using hx list
    constructor
    · rintro ⟨other, hin⟩
      by_cases hne : x = item
      · subst hne
        constructor <;> simp [unlink]
      · by_cases hother : other = list
        · subst hother
          exact absurd ((hmem x).mpr ⟨hne, hin⟩) hxlist
        · have hout := hx other
          rw [Function.update_of_ne hother] at hout
          exact absurd hin hout
    · intro hout
      refine hstep.frame x (hout list) ?_
      rintro rfl
      exact hout list hitem

theorem moveLink_step {dest src : κ} (h : Represents m L) (hitem : item ∈ L src) :
    ∃ m', moveLink dest src item m = some m' ∧
      Represents m' ((Op.moveLink dest src item).denote L) ∧
      Settles m m' L ((Op.moveLink dest src item).denote L) := by
  obtain ⟨hunlinked, hsettled⟩ := unlink_step h hitem
  have hout : ∀ list, item ∉ Function.update L src ((L src).erase item) list := by
    intro list
    by_cases hlist : list = src
    · subst hlist
      simpa using (h.nodup list).not_mem_erase
    · rw [Function.update_of_ne hlist]
      exact fun hin => hlist (h.apart _ _ item hin hitem)
  obtain ⟨m', hrun, hrep, hset⟩ := @linkToTail_step _ _ _ _ _ _ dest item hunlinked hout
  refine ⟨m', hrun, hrep, fun x hx => ?_⟩
  have hbefore : ∀ list, x ∉ Function.update L src ((L src).erase item) list := by
    intro list hin
    by_cases hlist : list = dest
    · subst hlist
      refine hx list ?_
      rw [Op.denote, Function.update_self]
      exact mem_append_left _ hin
    · refine hx list ?_
      rwa [Op.denote, Function.update_of_ne hlist]
  obtain ⟨hnext, hprev⟩ := (hset x hx).2 hbefore
  obtain ⟨hclear, hsame⟩ := hsettled x hbefore
  constructor
  · intro hin
    exact ⟨hnext.trans (hclear hin).1, hprev.trans (hclear hin).2⟩
  · intro hout
    exact ⟨hnext.trans (hsame hout).1, hprev.trans (hsame hout).2⟩

theorem op_step {op : Op κ ν} (h : Represents m L) (hallowed : op.Allowed L) :
    ∃ m', op.run m = some m' ∧ Represents m' (op.denote L) ∧ Settles m m' L (op.denote L) := by
  cases op with
  | linkToHead list item => exact linkToHead_step h hallowed
  | linkToTail list item => exact linkToTail_step h hallowed
  | insertLinkBefore itemAfter list item =>
    exact ⟨_, rfl, insertLinkBefore_step h hallowed.1 hallowed.2⟩
  | unlink list item => exact ⟨_, rfl, unlink_step h hallowed⟩
  | moveLink dest src item => exact moveLink_step h hallowed

end Steps

/-! ## Runs -/

/-- The memory shows the lists: they are visited from both ends, and a header is empty at both
ends or at none. -/
structure Shows (m : Memory κ ν) (L : Lists κ ν) : Prop where
  next : ∀ list, Follows m.next (m.head list) (L list)
  prev : ∀ list, Follows m.prev (m.tail list) (L list).reverse
  empty : ∀ list, m.head list = none ↔ m.tail list = none

section Runs

variable {m : Memory κ ν} {L : Lists κ ν} {ops : List (Op κ ν)}

omit [DecidableEq κ] [DecidableEq ν] in
theorem Represents.shows (h : Represents m L) : Shows m L := by
  constructor
  · intro list
    rw [h.head]
    exact (h.links list).follows_next
  · intro list
    rw [h.tail]
    exact (h.links list).follows_prev
  · intro list
    rw [h.head, h.tail, head?_eq_none_iff, getLast?_eq_none_iff]

omit [DecidableEq κ] [DecidableEq ν] in
theorem start_represents (next prev : ν → Option ν) :
    Represents (start next prev : Memory κ ν) fun _ => [] := by
  constructor <;> intros <;> first | rfl | simp_all [segment_nil]

/-- The items that were unlinked before the run are clear when they are in no list. -/
theorem run_represents {unlinked : ν → Prop} (h : Represents m L)
    (hclear : ∀ x, unlinked x → (∀ list, x ∉ L list) → Clear m x) (hops : AllAllowed ops L) :
    ∃ m', runAll ops m = some m' ∧ Represents m' (denoteAll ops L) ∧
      ∀ x, (unlinked x ∨ ∃ list, .unlink list x ∈ ops) →
        (∀ list, x ∉ denoteAll ops L list) → Clear m' x := by
  induction ops generalizing m L unlinked with
  | nil => exact ⟨m, rfl, h, fun x hx => hclear x (hx.resolve_right (by simp))⟩
  | cons op ops ih =>
    obtain ⟨hallowed, hrest⟩ := hops
    obtain ⟨m₁, hrun, hrep, hset⟩ := op_step h hallowed
    have hclear₁ : ∀ x, (unlinked x ∨ ∃ list, op = .unlink list x) →
        (∀ list, x ∉ op.denote L list) → Clear m₁ x := by
      intro x hx hout
      obtain ⟨hleft, hsame⟩ := hset x hout
      by_cases hin : ∃ list, x ∈ L list
      · exact hleft hin
      · simp only [not_exists] at hin
        cases hx with
        | inl hx =>
          obtain ⟨hnext, hprev⟩ := hsame hin
          exact ⟨hnext.trans (hclear x hx hin).1, hprev.trans (hclear x hx hin).2⟩
        | inr hx =>
          obtain ⟨list, rfl⟩ := hx
          exact absurd hallowed (hin list)
    obtain ⟨m', hruns, hreps, hclears⟩ := ih hrep hclear₁ hrest
    refine ⟨m', by rw [runAll, hrun]; exact hruns, hreps, fun x hx hout => hclears x ?_ hout⟩
    obtain hbefore | ⟨list, hmem⟩ := hx
    · exact .inl (.inl hbefore)
    · cases List.mem_cons.mp hmem with
      | inl heq => exact .inl (.inr ⟨list, heq.symm⟩)
      | inr hin => exact .inr ⟨list, hin⟩

/-- Every run of allowed operations ends, with no assertion failing, in a memory that shows the
lists that the operations denote. An item that was unlinked and is in no list has no links. -/
theorem runs_show_lists (next prev : ν → Option ν) (ops : List (Op κ ν))
    (h : AllAllowed ops fun _ => []) :
    ∃ m, runAll ops (start next prev) = some m ∧ Shows m (denoteAll ops fun _ => []) ∧
      ∀ list x, .unlink list x ∈ ops → (∀ list, x ∉ denoteAll ops (fun _ => []) list) →
        Clear m x := by
  obtain ⟨m, hrun, hrep, hclear⟩ :=
    run_represents (start_represents next prev) (fun _ (hx : False) _ => hx.elim) h
  exact ⟨m, hrun, hrep.shows, fun list x hx => hclear x (.inr ⟨list, hx⟩)⟩

/-- Two lists, the second filled by a move out of the middle of the first, which then loses its
first item. -/
def movedOps : List (Op Bool Nat) :=
  [.linkToTail false 1, .linkToTail false 2, .linkToHead false 3, .moveLink true false 1,
    .insertLinkBefore 1 true 4, .unlink false 3, .moveLink true true 4]

theorem runs_show_lists_moved :
    ∃ m, runAll movedOps (start (fun _ => some 7) fun _ => none) = some m ∧
      Shows m (denoteAll movedOps fun _ => []) ∧
      ∀ list x, .unlink list x ∈ movedOps →
        (∀ list, x ∉ denoteAll movedOps (fun _ => []) list) → Clear m x :=
  runs_show_lists _ _ _ (by simp [movedOps, AllAllowed, Op.Allowed, Op.denote, insertBefore])

example : denoteAll movedOps (fun _ => []) false = [2] ∧
    denoteAll movedOps (fun _ => []) true = [1, 4] := by decide

end Runs

end DlList
