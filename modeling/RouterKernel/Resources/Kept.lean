import RouterKernel.Foundation.Chains
import RouterKernel.Resources.Tree
import Mathlib.Logic.Relation

/-!
Contract: what holds of the resource trees between two operations.

Owns:
- `Kept`, the invariant, over the lists of children that the links spell out;
- `Placed` and `TakenOut`, the two changes an operation makes, and that both keep it;
- the place of a resource relative to any other of its tree.
-/

namespace RouterKernel.Resources

open RouterKernel.Foundation

/-! ## Fields -/

namespace Heap

section Fields

variable (heap : Heap) (r x : Ptr) (value : Option Ptr)

@[simp] theorem setParent_apply :
    heap.setParent r value x =
      { heap x with parent := if x = r then value else (heap x).parent } := by
  unfold setParent Function.update; split <;> simp_all

@[simp] theorem setSibling_apply :
    heap.setSibling r value x =
      { heap x with sibling := if x = r then value else (heap x).sibling } := by
  unfold setSibling Function.update; split <;> simp_all

@[simp] theorem setChild_apply :
    heap.setChild r value x = { heap x with child := if x = r then value else (heap x).child } := by
  unfold setChild Function.update; split <;> simp_all

end Fields

def next (heap : Heap) (x : Ptr) : Option Ptr := (heap x).sibling

end Heap

/-! ## The invariant -/

variable {heap heap' : Heap} {kids : Ptr → List Ptr} {parent new old : Ptr}
  {front run back : List Ptr}

/-- The links spell out the children `kids` of every resource, parent pointers agree with
them, children are sorted, apart, non-empty and inside their parent, and no resource is
below itself. -/
structure Kept (heap : Heap) (kids : Ptr → List Ptr) : Prop where
  linked : ∀ r, Chain heap.next (heap r).child (kids r)
  parents : ∀ r c, c ∈ kids r ↔ (heap c).parent = some r
  ordered : ∀ r, (kids r).Pairwise fun a b => (heap a).stop < (heap b).start
  nested : ∀ r c, c ∈ kids r →
    (heap r).start ≤ (heap c).start ∧ (heap c).start ≤ (heap c).stop ∧ (heap c).stop ≤ (heap r).stop
  founded : ∃ height : Ptr → Nat, ∀ r c, c ∈ kids r → height c < height r

def Loose (heap : Heap) (r : Ptr) : Prop := (heap r).parent = none ∧ (heap r).child = none

section

variable (kept : Kept heap kids)

include kept

theorem Kept.nodup (r : Ptr) : (kids r).Nodup := by
  refine (kept.ordered r).imp_of_mem ?_
  rintro a b listed - before rfl
  have := (kept.nested r a listed).2.1
  bv_omega

theorem Kept.parent_unique {r s c : Ptr} (left : c ∈ kids r) (right : c ∈ kids s) : r = s := by
  rw [kept.parents] at left right
  rw [left] at right
  injection right

theorem Kept.not_own_child (r : Ptr) : r ∉ kids r := by
  obtain ⟨height, lower⟩ := kept.founded
  exact fun listed => lt_irrefl _ (lower r r listed)

theorem Kept.ofRanges
    (links : ∀ x, (heap' x).parent = (heap x).parent ∧ (heap' x).sibling = (heap x).sibling ∧
      (heap' x).child = (heap x).child)
    (ordered : ∀ r, (kids r).Pairwise fun a b => (heap' a).stop < (heap' b).start)
    (nested : ∀ r c, c ∈ kids r →
      (heap' r).start ≤ (heap' c).start ∧ (heap' c).start ≤ (heap' c).stop ∧
        (heap' c).stop ≤ (heap' r).stop) :
    Kept heap' kids where
  linked r := by
    rw [(links r).2.2]
    exact (kept.linked r).congr fun x _ => (links x).2.1
  parents r c := by
    rw [(links c).1]
    exact kept.parents r c
  ordered := ordered
  nested := nested
  founded := kept.founded

theorem Kept.not_mem_of_loose (loose : (heap new).parent = none) (r : Ptr) : new ∉ kids r := by
  intro listed
  rw [kept.parents, loose] at listed
  cases listed

theorem Kept.kids_of_loose (childless : (heap new).child = none) : kids new = [] := by
  have chain := kept.linked new
  rw [childless] at chain
  exact List.head?_eq_none_iff.mp chain.start_eq.symm

end

/-! ## A new resource in its place -/

/-- The children after `new` has taken the place of `run` below `parent`. -/
def placedKids (kids : Ptr → List Ptr) (parent new : Ptr) (front run back : List Ptr) :
    Ptr → List Ptr :=
  Function.update (Function.update kids new run) parent (front ++ new :: back)

/-- The fields after `new` has taken the place of `run` below `parent`. -/
structure Placed (heap : Heap) (parent new : Ptr) (front run back : List Ptr) (heap' : Heap) :
    Prop where
  start : ∀ x, (heap' x).start = (heap x).start
  stop : ∀ x, (heap' x).stop = (heap x).stop
  parents : ∀ x, (heap' x).parent = if x = new then some parent else if x ∈ run then some new
    else (heap x).parent
  siblings : ∀ x, (heap' x).sibling = if x = new then back.head? else if run.getLast? = some x
      then none
    else if front.getLast? = some x then some new else (heap x).sibling
  children : ∀ x, (heap' x).child =
    if x = new then run.head? else if x = parent ∧ front = [] then some new else (heap x).child

/-- Where `new` belongs below `parent`. -/
structure Fitting (heap : Heap) (kids : Ptr → List Ptr) (parent new : Ptr)
    (front run back : List Ptr) : Prop where
  loose : Loose heap new
  other : new ≠ parent
  split : kids parent = front ++ (run ++ back)
  start : (heap parent).start ≤ (heap new).start
  proper : (heap new).start ≤ (heap new).stop
  stop : (heap new).stop ≤ (heap parent).stop
  before : ∀ x ∈ front, (heap x).stop < (heap new).start
  inside : ∀ x ∈ run, (heap new).start ≤ (heap x).start ∧ (heap x).stop ≤ (heap new).stop
  after : ∀ x ∈ back, (heap new).stop < (heap x).start

section Placing

variable (kept : Kept heap kids) (fitting : Fitting heap kids parent new front run back)
  (placement : Placed heap parent new front run back heap')

include kept fitting in
theorem split_nodup : front.Nodup ∧ run.Nodup ∧ (∀ x ∈ front, x ∉ run ∧ x ∉ back) ∧ ∀ x ∈ run,
    x ∉ back := by
  have distinct := kept.nodup parent
  rw [fitting.split, List.nodup_append, List.nodup_append] at distinct
  obtain ⟨frontOnce, ⟨runOnce, -, runBack⟩, frontRest⟩ := distinct
  refine ⟨frontOnce, runOnce, fun x listed => ?_, fun x listed within =>
    runBack x listed x within rfl⟩
  constructor
  · exact fun within => frontRest x listed x (List.mem_append_left _ within) rfl
  · exact fun within => frontRest x listed x (List.mem_append_right _ within) rfl

include kept fitting placement in
theorem Placed.linked (r : Ptr) :
    Chain heap'.next (heap' r).child (placedKids kids parent new front run back r) := by
  obtain ⟨frontOnce, runOnce, frontApart, runApart⟩ := split_nodup kept fitting
  have absent := kept.not_mem_of_loose fitting.loose.1 parent
  rw [fitting.split, List.mem_append, List.mem_append, not_or, not_or] at absent
  have whole := kept.linked parent
  rw [fitting.split] at whole
  obtain ⟨first, walkedFront, rest⟩ := segment_append.mp whole
  obtain ⟨second, walkedRun, walkedBack⟩ := segment_append.mp rest
  by_cases isParent : r = parent
  · subst isParent
    rw [placedKids, Function.update_self, placement.children, if_neg (Ne.symm fitting.other)]
    -- the children before the new one, whose last link is redirected
    have redirected : Segment heap'.next (if front = [] then some new else (heap r).child) front
        (some new) := by
      refine walkedFront.redirect frontOnce ?_ ?_
      · intro x listed notLast
        rw [Heap.next, placement.siblings, if_neg (ne_of_mem_of_not_mem listed absent.1),
          if_neg (fun last => (frontApart x listed).1 (List.mem_of_getLast? last)), if_neg notLast]
        rfl
      · intro x last
        have listed := List.mem_of_getLast? last
        rw [Heap.next, placement.siblings, if_neg (ne_of_mem_of_not_mem listed absent.1),
          if_neg (fun lastRun => (frontApart x listed).1 (List.mem_of_getLast? lastRun)),
            if_pos last]
    have backSame : Segment heap'.next back.head? back none := by
      rw [← Segment.start_eq walkedBack]
      refine walkedBack.congr fun x listed => ?_
      rw [Heap.next, placement.siblings, if_neg (ne_of_mem_of_not_mem listed absent.2.2),
        if_neg (fun last => runApart x (List.mem_of_getLast? last) listed),
        if_neg (fun last => (frontApart x (List.mem_of_getLast? last)).2 listed)]
      rfl
    have start : (if r = r ∧ front = [] then some new else (heap r).child) =
        if front = [] then some new else (heap r).child := by simp
    rw [start]
    refine segment_append.mpr ⟨some new, redirected, rfl, ?_⟩
    rw [Heap.next, placement.siblings, if_pos rfl]
    exact backSame
  by_cases isNew : r = new
  · subst isNew
    rw [placedKids, Function.update_of_ne isParent, Function.update_self, placement.children,
      if_pos rfl]
    have redirected : Segment heap'.next (if run = [] then none else first) run none := by
      refine walkedRun.redirect runOnce ?_ ?_
      · intro x listed notLast
        rw [Heap.next, placement.siblings, if_neg (ne_of_mem_of_not_mem listed absent.2.1),
            if_neg notLast,
          if_neg (fun last => (frontApart x (List.mem_of_getLast? last)).1 listed)]
        rfl
      · intro x last
        have listed := List.mem_of_getLast? last
        rw [Heap.next, placement.siblings, if_neg (ne_of_mem_of_not_mem listed absent.2.1),
          if_pos last]
    rw [← Segment.start_eq redirected]
    exact redirected
  · rw [placedKids, Function.update_of_ne isParent, Function.update_of_ne isNew, placement.children,
      if_neg isNew, if_neg (fun both => isParent both.1)]
    refine (kept.linked r).congr fun x listed => ?_
    have elsewhere : x ∉ kids parent := fun within => isParent (kept.parent_unique listed within)
    rw [fitting.split, List.mem_append, List.mem_append, not_or, not_or] at elsewhere
    rw [Heap.next, placement.siblings,
        if_neg (ne_of_mem_of_not_mem listed (kept.not_mem_of_loose fitting.loose.1 r)),
      if_neg (fun last => elsewhere.2.1 (List.mem_of_getLast? last)),
      if_neg (fun last => elsewhere.1 (List.mem_of_getLast? last))]
    rfl

include kept fitting in
theorem mem_placedKids {r c : Ptr} (listed : c ∈ placedKids kids parent new front run back r) :
    (r = parent ∧ c = new) ∨ (r = new ∧ c ∈ run) ∨ (c ∈ kids r ∧ c ≠ new ∧ c ∉ run) := by
  have absent := kept.not_mem_of_loose fitting.loose.1
  obtain ⟨-, -, frontApart, runApart⟩ := split_nodup kept fitting
  by_cases isParent : r = parent
  · subst isParent
    rw [placedKids, Function.update_self, List.mem_append, List.mem_cons] at listed
    have within (here : c ∈ front ∨ c ∈ back) : c ∈ kids r := by
      rw [fitting.split, List.mem_append, List.mem_append]
      exact here.imp_right Or.inr
    have known (here : c ∈ kids r) : c ≠ new := fun same => absent r (same ▸ here)
    rcases listed with inFront | rfl | inBack
    · exact .inr (.inr ⟨within (.inl inFront), known (within (.inl inFront)),
        (frontApart c inFront).1⟩)
    · exact .inl ⟨rfl, rfl⟩
    · exact .inr (.inr ⟨within (.inr inBack), known (within (.inr inBack)), fun inRun =>
        runApart c inRun inBack⟩)
  by_cases isNew : r = new
  · subst isNew
    rw [placedKids, Function.update_of_ne isParent, Function.update_self] at listed
    exact .inr (.inl ⟨rfl, listed⟩)
  · rw [placedKids, Function.update_of_ne isParent, Function.update_of_ne isNew] at listed
    refine .inr (.inr ⟨listed, fun same => absent r (same ▸ listed), fun inRun => ?_⟩)
    have below : c ∈ kids parent := by
      rw [fitting.split]
      simp [inRun]
    exact isParent (kept.parent_unique listed below)

include fitting in
theorem run_mem {c : Ptr} (listed : c ∈ run) : c ∈ kids parent := by
  rw [fitting.split]
  simp [listed]

include kept fitting placement in
theorem Placed.parents_iff (r c : Ptr) :
    c ∈ placedKids kids parent new front run back r ↔ (heap' c).parent = some r := by
  have absent := kept.not_mem_of_loose fitting.loose.1 parent
  rw [placement.parents]
  constructor
  · intro listed
    rcases mem_placedKids kept fitting listed with ⟨rfl, rfl⟩ | ⟨rfl, inRun⟩ |
      ⟨within, notNew, notRun⟩
    · rw [if_pos rfl]
    · rw [if_neg (ne_of_mem_of_not_mem (run_mem fitting inRun) absent), if_pos inRun]
    · rw [if_neg notNew, if_neg notRun]
      exact (kept.parents r c).mp within
  · intro here
    by_cases isNew : c = new
    · subst isNew
      rw [if_pos rfl] at here
      injection here with same
      subst same
      rw [placedKids, Function.update_self]
      simp
    rw [if_neg isNew] at here
    by_cases inRun : c ∈ run
    · rw [if_pos inRun] at here
      injection here with same
      subst same
      rw [placedKids, Function.update_of_ne fitting.other, Function.update_self]
      exact inRun
    rw [if_neg inRun, ← kept.parents] at here
    by_cases isParent : r = parent
    · subst isParent
      rw [fitting.split, List.mem_append, List.mem_append] at here
      rw [placedKids, Function.update_self]
      rcases here with inFront | inRun' | inBack
      · simp [inFront]
      · exact absurd inRun' inRun
      · simp [inBack]
    · rw [placedKids, Function.update_of_ne isParent]
      by_cases other : r = new
      · subst other
        rw [kept.kids_of_loose fitting.loose.2] at here
        cases here
      · rw [Function.update_of_ne other]
        exact here

include kept fitting in
theorem placedKids_ordered (r : Ptr) :
    (placedKids kids parent new front run back r).Pairwise fun a b =>
    (heap a).stop < (heap b).start := by
  have whole := kept.ordered parent
  rw [fitting.split, List.pairwise_append, List.pairwise_append] at whole
  obtain ⟨frontSorted, ⟨runSorted, backSorted, -⟩, across⟩ := whole
  by_cases isParent : r = parent
  · subst isParent
    rw [placedKids, Function.update_self, List.pairwise_append, List.pairwise_cons]
    refine ⟨frontSorted, ⟨fitting.after, backSorted⟩, fun a inFront b inRest => ?_⟩
    rcases List.mem_cons.mp inRest with rfl | inBack
    · exact fitting.before a inFront
    · exact across a inFront b (List.mem_append_right _ inBack)
  by_cases isNew : r = new
  · subst isNew
    rw [placedKids, Function.update_of_ne isParent, Function.update_self]
    exact runSorted
  · rw [placedKids, Function.update_of_ne isParent, Function.update_of_ne isNew]
    exact kept.ordered r

include kept fitting placement in
theorem Kept.placed : Kept heap' (placedKids kids parent new front run back) where
  linked := placement.linked kept fitting
  parents := placement.parents_iff kept fitting
  ordered r := by
    simp only [placement.start, placement.stop]
    exact placedKids_ordered kept fitting r
  nested r c listed := by
    simp only [placement.start, placement.stop]
    rcases mem_placedKids kept fitting listed with ⟨rfl, rfl⟩ | ⟨rfl, inRun⟩ | ⟨within, -, -⟩
    · exact ⟨fitting.start, fitting.proper, fitting.stop⟩
    · exact ⟨(fitting.inside c inRun).1, (kept.nested parent c (run_mem fitting inRun)).2.1,
        (fitting.inside c inRun).2⟩
    · exact kept.nested r c within
  founded := by
    obtain ⟨height, lower⟩ := kept.founded
    -- room for the new resource directly below its parent
    refine ⟨fun x => if x = new then 2 * height parent + 1 else 2 * height x + 2, fun r c listed =>
      ?_⟩
    have absent := kept.not_mem_of_loose fitting.loose.1 parent
    rcases mem_placedKids kept fitting listed with ⟨rfl, rfl⟩ | ⟨rfl, inRun⟩ | ⟨within, notNew, -⟩
    · simp [Ne.symm fitting.other]
    · have below := run_mem fitting inRun
      have := lower _ _ below
      have notNew : c ≠ r := fun same => absent (same ▸ below)
      simp only [if_neg notNew, if_true]
      omega
    · have := lower _ _ within
      have isOther : r ≠ new := by
        rintro rfl
        rw [kept.kids_of_loose fitting.loose.2] at within
        cases within
      simp only [if_neg notNew, if_neg isOther]
      omega

end Placing

/-! ## A resource taken out -/

/-- The fields after `old` has been taken out below `parent`. -/
structure TakenOut (heap : Heap) (parent old : Ptr) (front back : List Ptr) (heap' : Heap) :
    Prop where
  start : ∀ x, (heap' x).start = (heap x).start
  stop : ∀ x, (heap' x).stop = (heap x).stop
  parents : ∀ x, (heap' x).parent = if x = old then none else (heap x).parent
  siblings : ∀ x, (heap' x).sibling = if front.getLast? = some x then back.head?
    else (heap x).sibling
  children : ∀ x, (heap' x).child = if x = parent ∧ front = [] then back.head? else (heap x).child

theorem TakenOut.linked (kept : Kept heap kids) (split : kids parent = front ++ old :: back)
    (taken : TakenOut heap parent old front back heap') (r : Ptr) :
    Chain heap'.next (heap' r).child (Function.update kids parent (front ++ back) r) := by
  have distinct := kept.nodup parent
  rw [split, List.nodup_append] at distinct
  obtain ⟨frontOnce, -, apart⟩ := distinct
  have whole := kept.linked parent
  rw [split] at whole
  obtain ⟨first, walkedFront, -, walkedBack⟩ := segment_append.mp whole
  by_cases isParent : r = parent
  · subst isParent
    rw [Function.update_self, taken.children]
    have redirected : Segment heap'.next (if front = [] then back.head? else (heap r).child) front
        back.head? := by
      refine walkedFront.redirect frontOnce ?_ ?_
      · intro x _ notLast
        rw [Heap.next, taken.siblings, if_neg notLast]
        rfl
      · intro x last
        rw [Heap.next, taken.siblings, if_pos last]
    have start : (if r = r ∧ front = [] then back.head? else (heap r).child) =
        if front = [] then back.head? else (heap r).child := by simp
    rw [start]
    refine segment_append.mpr ⟨back.head?, redirected, ?_⟩
    rw [← Segment.start_eq walkedBack]
    refine walkedBack.congr fun x listed => ?_
    rw [Heap.next, taken.siblings,
      if_neg (fun last =>
        apart x (List.mem_of_getLast? last) x (List.mem_cons_of_mem _ listed) rfl)]
    rfl
  · rw [Function.update_of_ne isParent, taken.children, if_neg (fun both => isParent both.1)]
    refine (kept.linked r).congr fun x listed => ?_
    have notLast : front.getLast? ≠ some x := by
      intro last
      have within : x ∈ kids parent := by
        rw [split]
        exact List.mem_append_left _ (List.mem_of_getLast? last)
      exact isParent (kept.parent_unique listed within)
    rw [Heap.next, taken.siblings, if_neg notLast]
    rfl

theorem mem_takenOut (kept : Kept heap kids) (split : kids parent = front ++ old :: back)
    (r c : Ptr) :
    c ∈ Function.update kids parent (front ++ back) r ↔ c ∈ kids r ∧ c ≠ old := by
  have distinct := kept.nodup parent
  rw [split, List.nodup_append, List.nodup_cons] at distinct
  obtain ⟨-, ⟨notBack, -⟩, apart⟩ := distinct
  by_cases isParent : r = parent
  · subst isParent
    rw [Function.update_self, split, List.mem_append, List.mem_append, List.mem_cons]
    constructor
    · rintro (inFront | inBack)
      · exact ⟨.inl inFront, fun same => apart c inFront old List.mem_cons_self same⟩
      · exact ⟨.inr (.inr inBack), fun same => notBack (same ▸ inBack)⟩
    · rintro ⟨inFront | same | inBack, different⟩
      · exact .inl inFront
      · exact absurd same different
      · exact .inr inBack
  · rw [Function.update_of_ne isParent]
    refine ⟨fun listed => ⟨listed, ?_⟩, fun both => both.1⟩
    rintro rfl
    have within : c ∈ kids parent := by
      rw [split]
      simp
    exact isParent (kept.parent_unique listed within)

theorem Kept.takenOut (kept : Kept heap kids) (split : kids parent = front ++ old :: back)
    (taken : TakenOut heap parent old front back heap') :
    Kept heap' (Function.update kids parent (front ++ back)) where
  linked := taken.linked kept split
  parents r c := by
    rw [mem_takenOut kept split, kept.parents, taken.parents]
    split_ifs with isOld
    · simp [isOld]
    · simp [isOld]
  ordered r := by
    simp only [taken.start, taken.stop]
    by_cases isParent : r = parent
    · subst isParent
      rw [Function.update_self]
      have whole := kept.ordered r
      rw [split] at whole
      exact whole.sublist ((List.sublist_cons_self old back).append_left front)
    · rw [Function.update_of_ne isParent]
      exact kept.ordered r
  nested r c listed := by
    simp only [taken.start, taken.stop]
    exact kept.nested r c ((mem_takenOut kept split r c).mp listed).1
  founded := by
    obtain ⟨height, lower⟩ := kept.founded
    exact ⟨height, fun r c listed => lower r c ((mem_takenOut kept split r c).mp listed).1⟩

/-! ## Above, below and apart -/

/-- `x` is `top` or below it. -/
def Under (heap : Heap) (top x : Ptr) : Prop :=
  Relation.ReflTransGen (fun r c => (heap c).parent = some r) top x

/-- The range of `inner` lies in that of `outer`. -/
def Within (inner outer : Resource) : Prop := outer.start ≤ inner.start ∧ inner.stop ≤ outer.stop

def Apart (left right : Resource) : Prop := left.stop < right.start ∨ right.stop < left.start

def Overlap (left right : Resource) : Prop :=
  ¬ Apart left right ∧ ¬ Within left right ∧ ¬ Within right left

instance (left right : Resource) : Decidable (Within left right) :=
  inferInstanceAs (Decidable (_ ∧ _))
instance (left right : Resource) : Decidable (Apart left right) :=
  inferInstanceAs (Decidable (_ ∨ _))
instance (left right : Resource) : Decidable (Overlap left right) :=
  inferInstanceAs (Decidable (_ ∧ _))

theorem Apart.symm {left right : Resource} (apart : Apart left right) : Apart right left :=
  Or.symm apart

theorem Apart.within {left right inner : Resource} (apart : Apart left right)
    (within : Within inner left) : Apart inner right := by
  unfold Apart Within at *
  bv_omega

theorem Within.trans {inner middle outer : Resource} (first : Within inner middle)
    (second : Within middle outer) : Within inner outer := by
  unfold Within at *
  bv_omega

theorem Kept.child_within (kept : Kept heap kids) {r c : Ptr} (child : c ∈ kids r) :
    Within (heap c) (heap r) :=
  ⟨(kept.nested r c child).1, (kept.nested r c child).2.2⟩

theorem Kept.siblings_apart (kept : Kept heap kids) {r a b : Ptr} (left : a ∈ kids r)
    (right : b ∈ kids r) (different : a ≠ b) : Apart (heap a) (heap b) := by
  have symmetric : Std.Symm fun a b => Apart (heap a) (heap b) := ⟨fun _ _ apart => apart.symm⟩
  have pairwise : (kids r).Pairwise fun a b => Apart (heap a) (heap b) :=
    (kept.ordered r).imp fun before => .inl before
  exact pairwise.forall left right different

theorem Kept.under_within (kept : Kept heap kids) {top x : Ptr} (under : Under heap top x) :
    Within (heap x) (heap top) := by
  induction under with
  | refl => exact ⟨by bv_omega, by bv_omega⟩
  | tail _ below ih =>
    rw [← kept.parents] at below
    exact (kept.child_within below).trans ih

theorem Apart.under {top x : Ptr} {other : Resource} (apart : Apart (heap top) other)
    (kept : Kept heap kids) (under : Under heap top x) :
    Apart (heap x) other := by
  induction under with
  | refl => exact apart
  | tail _ below ih =>
    rw [← kept.parents] at below
    exact ih.within (kept.child_within below)

theorem under_cases {top x : Ptr} (under : Under heap top x) :
    x = top ∨ ∃ c, (heap c).parent = some top ∧ Under heap c x :=
  (Relation.ReflTransGen.cases_head under).imp Eq.symm id

theorem Kept.under_or_apart (kept : Kept heap kids) {top x y : Ptr} (left : Under heap top x)
    (right : Under heap top y) : Under heap x y ∨ Under heap y x ∨ Apart (heap x) (heap y) := by
  induction left with
  | refl => exact .inl right
  | @tail p x above below ih =>
    have child := (kept.parents _ _).mpr below
    rcases ih with under | under | apart
    · rcases under_cases under with rfl | ⟨c, cChild, cUnder⟩
      · exact .inr (.inl (Relation.ReflTransGen.single below))
      · by_cases same : c = x
        · exact .inl (same ▸ cUnder)
        · have sibling := (kept.parents _ _).mpr cChild
          have apart := kept.siblings_apart sibling child same
          exact .inr (.inr (apart.under kept cUnder).symm)
    · exact .inr (.inl (under.tail below))
    · exact .inr (.inr (apart.within (kept.child_within child)))

end RouterKernel.Resources
