import RouterKernel.Resources.Allocation

/-!
Contract: `adjust_resource`, which changes the range of a resource in its place.

Owns:
- when a resource of a kept tree has room for another range;
- that `adjust_resource` looks for exactly that, and when the range it stores is the one asked for.
-/

namespace RouterKernel.Resources

open RouterKernel.Foundation

/-! ## The code -/

/-- A turn of the loop over the children: is one of them outside the new range? -/
def childTurn (heap : Heap) (start stop : U32) (tmp : Option Ptr) :
    Except Fault (Outcome (Option Ptr) Bool) :=
  match tmp with
  | none => .ok (.halted false)
  | some tmp =>
    if (heap tmp).start < start ∨ (heap tmp).stop > stop then .ok (.halted true)
    else .ok (.running (heap tmp).sibling)

/-- `res->sibling && (res->sibling->start <= end)`. -/
def meetsSibling (heap : Heap) (res : Ptr) (stop : U32) : Bool :=
  match (heap res).sibling with
  | none => false
  | some sibling => (heap sibling).start ≤ stop

/-- `start <= tmp->end` for the resource before `res`, if there is one. -/
def meetsPrevious (heap : Heap) (parent res : Ptr) (start : U32) (fuel : Nat) :
    Attempt Fault Bool :=
  if (heap parent).child = some res then pure false
  else do
    let tmp ← loop (fun _ next => (liftM (precedeTurn heap res next) : Attempt Fault _)) fuel
      (heap parent).child
    pure (decide (start ≤ (heap tmp).stop))

def adjustResource (heap : Heap) (res : Ptr) (start size : U32) (fuel : Nat) :
    Attempt Fault (Except Errno Unit × Heap) :=
  match (heap res).parent with
  | none => throw (.wildPointer 0)
  | some parent =>
    let stop := start + size - 1
    if start < (heap parent).start ∨ stop > (heap parent).stop then pure (.error .EBUSY, heap)
    else do
      let outside ← loop (fun _ tmp => (liftM (childTurn heap start stop tmp) : Attempt Fault _))
          fuel
        (heap res).child
      if outside then pure (.error .EBUSY, heap)
      else if meetsSibling heap res stop then pure (.error .EBUSY, heap)
      else do
        let meets ← meetsPrevious heap parent res start fuel
        if meets then pure (.error .EBUSY, heap)
        else pure (.ok (), (heap.setStart res start).setStop res stop)

/-! ## Room for another range -/

variable {heap : Heap} {kids : Ptr → List Ptr} {parent res : Ptr} {start stop size : U32}

/-- Between its parent, its children and its neighbours `res` has room for the range. -/
structure Room (heap : Heap) (kids : Ptr → List Ptr) (parent res : Ptr) (start stop : U32) :
    Prop where
  low : (heap parent).start ≤ start
  high : stop ≤ (heap parent).stop
  inside : ∀ c ∈ kids res, start ≤ (heap c).start ∧ (heap c).stop ≤ stop
  before : ∀ x ∈ kids parent, (heap x).stop < (heap res).start → (heap x).stop < start
  after : ∀ x ∈ kids parent, (heap res).stop < (heap x).start → stop < (heap x).start

theorem Kept.reranged (kept : Kept heap kids) (child : res ∈ kids parent)
    (room : Room heap kids parent res start stop) (proper : start ≤ stop) :
    Kept (ranged heap res start stop) kids := by
  have same {x : Ptr} (other : x ≠ res) : ranged heap res start stop x = heap x :=
    ranged_of_ne other start stop
  refine kept.ofRanges (ranged_links heap res start stop) (fun r => ?_) fun r c listed => ?_
  · refine (kept.ordered r).imp_of_mem fun {a b} left right follows => ?_
    by_cases isLeft : a = res
    · subst isLeft
      have other : b ≠ a := by
        rintro rfl
        have := (kept.nested r b left).2.1
        bv_omega
      rw [ranged_self, same other]
      exact room.after b (kept.parent_unique left child ▸ right) follows
    · rw [same isLeft]
      by_cases isRight : b = res
      · subst isRight
        rw [ranged_self]
        exact room.before a (kept.parent_unique right child ▸ left) follows
      · rw [same isRight]
        exact follows
  · by_cases isChild : c = res
    · subst isChild
      obtain rfl := kept.parent_unique listed child
      have other : r ≠ c := by
        rintro rfl
        exact kept.not_own_child r listed
      rw [ranged_self, same other]
      exact ⟨room.low, proper, room.high⟩
    · rw [same isChild]
      by_cases isParent : r = res
      · subst isParent
        rw [ranged_self]
        exact ⟨(room.inside c listed).1, (kept.nested r c listed).2.1, (room.inside c listed).2⟩
      · rw [same isParent]
        exact kept.nested r c listed

/-! ## The checks -/

theorem childLoop_returns (listed : List Ptr) {first : Option Ptr}
    (chain : Chain heap.next first listed) :
    Returns (fun fuel =>
        loop (fun _ tmp => (liftM (childTurn heap start stop tmp) : Attempt Fault _)) fuel first)
      fun outside => outside = false ↔ ∀ c ∈ listed, start ≤ (heap c).start ∧
        (heap c).stop ≤ stop := by
  induction listed generalizing first with
  | nil =>
    obtain rfl : first = none := chain
    have stops : childTurn heap start stop none = .ok (.halted false) := rfl
    exact Returns.loop_halted stops (by simp)
  | cons tmp rest ih =>
    obtain ⟨rfl, chain⟩ := chain
    by_cases outside : (heap tmp).start < start ∨ (heap tmp).stop > stop
    · have stops : childTurn heap start stop (some tmp) = .ok (.halted true) := if_pos outside
      refine Returns.loop_halted stops ?_
      simp only [Bool.true_eq_false, List.mem_cons, forall_eq_or_imp, false_iff, not_and]
      bv_omega
    · have goes : childTurn heap start stop (some tmp) = .ok (.running (heap tmp).sibling) :=
        if_neg outside
      refine Returns.loop_running goes ((ih chain).mono fun answer exactly => ?_)
      have inside : start ≤ (heap tmp).start ∧ (heap tmp).stop ≤ stop := by bv_omega
      simp only [exactly, List.mem_cons, forall_eq_or_imp, inside, true_and]

section Checks

variable {front back : List Ptr} (kept : Kept heap kids)
  (split : kids parent = front ++ res :: back)

include kept split in
theorem Kept.siblings_iff (x : Ptr) :
    (x ∈ front ↔ x ∈ kids parent ∧ (heap x).stop < (heap res).start) ∧
      (x ∈ back ↔ x ∈ kids parent ∧ (heap res).stop < (heap x).start) := by
  have sorted := kept.ordered parent
  have proper {x : Ptr} (listed : x ∈ kids parent) := (kept.nested parent x listed).2.1
  rw [split, List.pairwise_append, List.pairwise_cons] at sorted
  have own := proper (show res ∈ kids parent by rw [split]; simp)
  by_cases listed : x ∈ kids parent
  swap
  · have absent := listed
    rw [split, List.mem_append, List.mem_cons, not_or, not_or] at absent
    simp [listed, absent]
  have ranges := proper listed
  rw [split, List.mem_append, List.mem_cons] at listed
  have earlier (inFront : x ∈ front) := sorted.2.2 x inFront res List.mem_cons_self
  have later (inBack : x ∈ back) := sorted.2.1.1 x inBack
  rw [split, List.mem_append, List.mem_cons]
  refine ⟨⟨fun here => ⟨listed, earlier here⟩, fun here => ?_⟩, fun here => ⟨listed, later here⟩,
    fun here => ?_⟩
  · rcases listed with inFront | rfl | inBack
    · exact inFront
    · bv_omega
    · have := later inBack
      bv_omega
  · rcases listed with inFront | rfl | inBack
    · have := earlier inFront
      bv_omega
    · bv_omega
    · exact inBack

include kept split in
theorem meetsSibling_false_iff : meetsSibling heap res stop = false ↔
      ∀ x ∈ kids parent, (heap res).stop < (heap x).start → stop < (heap x).start := by
  have behind : (∀ x ∈ kids parent, (heap res).stop < (heap x).start → stop < (heap x).start) ↔
      ∀ x ∈ back, stop < (heap x).start := by
    simp only [(kept.siblings_iff split _).2, and_imp]
  have splitBack : kids parent = (front ++ [res]) ++ back := by
    rw [split, List.append_assoc, List.singleton_append]
  have sibling : (heap res).sibling = back.head? :=
    kept.sibling_eq (show kids parent = front ++ ([] ++ res :: back) from split)
  rw [behind, meetsSibling, sibling]
  cases back with
  | nil => simp
  | cons next rest =>
    simp only [List.head?_cons, decide_eq_false_iff_not, BitVec.not_le]
    refine ⟨fun apart => kept.after_of_head splitBack fun x first => ?_, fun all =>
      all next List.mem_cons_self⟩
    injection first with same
    exact same ▸ apart

include kept split in
theorem meetsPrevious_returns : Returns (meetsPrevious heap parent res start) fun meets =>
      meets = false ↔ ∀ x ∈ kids parent, (heap x).stop < (heap res).start →
        (heap x).stop < start := by
  have ahead : (∀ x ∈ kids parent, (heap x).stop < (heap res).start → (heap x).stop < start) ↔
      ∀ x ∈ front, (heap x).stop < start := by
    simp only [(kept.siblings_iff split _).1, and_imp]
  have chain := kept.linked parent
  have sorted := kept.ordered parent
  have distinct := kept.nodup parent
  rw [split] at chain sorted distinct
  obtain ⟨middle, walked, rfl, -⟩ := segment_append.mp chain
  have absent : res ∉ front := fun listed =>
    (List.nodup_append.mp distinct).2.2 res listed res List.mem_cons_self rfl
  rw [ahead]
  unfold meetsPrevious
  rcases List.eq_nil_or_concat front with rfl | ⟨earlier, last, rfl⟩
  · have first : (heap parent).child = some res := walked
    simp only [if_pos first]
    exact Returns.pure (by simp)
  · rw [List.concat_eq_append] at walked absent sorted split chain ⊢
    have notFirst : (heap parent).child ≠ some res := by
      intro first
      have begun := Segment.start_eq chain
      rw [first, List.head?_append_of_ne_nil _ (by simp)] at begun
      exact absent (List.mem_of_head? begun.symm)
    simp only [if_neg notFirst]
    refine Returns.bind (precedeLoop_returns _ (by simp) walked absent) ?_
    intro tmp isLast
    rw [List.getLast?_concat] at isLast
    injection isLast with same
    subst same
    refine Returns.pure ?_
    rw [decide_eq_false_iff_not, BitVec.not_le]
    refine ⟨fun apart x listed => ?_, fun all => all last (by simp)⟩
    rcases List.mem_append.mp listed with listed | listed
    · have follows := (List.pairwise_append.mp (List.pairwise_append.mp sorted).1).2.2 x listed last
        List.mem_cons_self
      have := (kept.nested parent last (by rw [split]; simp)).2.1
      bv_omega
    · exact List.mem_singleton.mp listed ▸ apart

end Checks

/-- `adjust_resource` stores the range exactly when there is room for it. -/
theorem adjustResource_returns (kept : Kept heap kids) (below : (heap res).parent = some parent) :
    Returns (adjustResource heap res start size) fun result =>
      Room heap kids parent res start (start + size - 1) ∧
          result = (.ok (), ranged heap res start (start + size - 1)) ∨
        ¬ Room heap kids parent res start (start + size - 1) ∧ result = (.error .EBUSY, heap) := by
  obtain ⟨front, back, split⟩ := List.append_of_mem ((kept.parents _ _).mpr below)
  unfold adjustResource
  simp only [below]
  by_cases parts : start < (heap parent).start ∨ start + size - 1 > (heap parent).stop
  · simp only [if_pos parts]
    refine Returns.pure (.inr ⟨fun room => ?_, rfl⟩)
    have := room.low
    have := room.high
    bv_omega
  simp only [if_neg parts]
  refine Returns.bind (childLoop_returns (kids res) (kept.linked res)) ?_
  intro outside contained
  cases outside with
  | true =>
    exact Returns.pure
      (.inr ⟨fun room => Bool.noConfusion (contained.mpr room.inside), rfl⟩)
  | false =>
    have next : meetsSibling heap res (start + size - 1) = false ↔ _ :=
      meetsSibling_false_iff kept split
    simp only [Bool.false_eq_true, if_false]
    cases meets : meetsSibling heap res (start + size - 1) with
    | true =>
      rw [meets] at next
      exact Returns.pure (.inr ⟨fun room => Bool.noConfusion (next.mpr room.after), rfl⟩)
    | false =>
      simp only [Bool.false_eq_true, if_false]
      refine Returns.bind (meetsPrevious_returns kept split) ?_
      intro overlaps previous
      cases overlaps with
      | true =>
        exact Returns.pure
          (.inr ⟨fun room => Bool.noConfusion (previous.mpr room.before), rfl⟩)
      | false =>
        refine Returns.pure
          (.inl ⟨⟨by bv_omega, by bv_omega, contained.mp rfl, previous.mp rfl, next.mp meets⟩, ?_⟩)
        rw [setRange_eq]

/-- What a caller of `adjust_resource` relies on. -/
def Adjusted (heap : Heap) (res : Ptr) (start size : U32) (result : Except Errno Unit × Heap) :
    Prop :=
  (result.1 = .ok () → (result.2 res).start = start ∧ (result.2 res).stop.toNat + 1 =
      start.toNat + size.toNat ∧
    ∃ kids, Kept result.2 kids) ∧
  (result.1 ≠ .ok () → result.2 = heap)

theorem adjusted_proper (kept : Kept heap kids) (below : (heap res).parent = some parent)
    (returns : Returns (adjustResource heap res start size) (Adjusted heap res start size))
    (room : Room heap kids parent res start (start + size - 1)) :
    1 ≤ size.toNat ∧ start.toNat + size.toNat ≤ 2 ^ 32 := by
  have stored : Returns (adjustResource heap res start size)
      (· = (.ok (), ranged heap res start (start + size - 1))) := by
    refine (adjustResource_returns kept below).mono fun result outcome => ?_
    rcases outcome with ⟨-, same⟩ | ⟨full, -⟩
    · exact same
    · exact absurd room full
  obtain ⟨-, sized, kids', kept'⟩ := (returns.post_of_eq stored).1 rfl
  have child : res ∈ kids' parent := by
    rw [kept'.parents, (ranged_links heap res _ _ res).1]
    exact below
  have proper := (kept'.nested parent res child).2.1
  dsimp only at sized proper
  rw [ranged_self] at sized proper
  dsimp only at sized proper
  bv_omega

/-- The range stored is the one asked for, in a kept tree, unless there is room for a range whose
end has wrapped around. -/
theorem adjustResource_adjusts_iff (kept : Kept heap kids)
    (below : (heap res).parent = some parent) :
    Returns (adjustResource heap res start size) (Adjusted heap res start size) ↔
      (Room heap kids parent res start (start + size - 1) → 1 ≤ size.toNat ∧
        start.toNat + size.toNat ≤ 2 ^ 32) := by
  refine ⟨adjusted_proper kept below, fun proper =>
    (adjustResource_returns kept below).mono fun result outcome => ?_⟩
  rcases outcome with ⟨room, rfl⟩ | ⟨full, rfl⟩
  · have bounds := proper room
    have sized : (start + size - 1).toNat + 1 = start.toNat + size.toNat := by bv_omega
    refine ⟨fun _ => ?_, fun failed => absurd rfl failed⟩
    dsimp only
    rw [ranged_self]
    exact ⟨rfl, sized, kids, kept.reranged ((kept.parents _ _).mpr below) room (by bv_omega)⟩
  · refine ⟨fun done => ?_, fun _ => rfl⟩
    cases done

theorem adjustResource_adjusts_iff_moved :
    Returns (adjustResource taken 1 100 50) (Adjusted taken 1 100 50) :=
  (adjustResource_adjusts_iff taken_kept rfl).mpr fun _ => by decide

/-- A size of zero is stored as an end before the start. -/
theorem empty_range_stored : ¬ Returns (adjustResource taken 1 100 0) (Adjusted taken 1 100 0) := by
  have room : Room taken takenKids 0 1 100 (100 + 0 - 1) := by
    refine ⟨by decide, by decide, fun c listed => absurd listed List.not_mem_nil,
      fun x listed => ?_, fun x listed => ?_⟩
    · rw [List.mem_singleton.mp listed]
      decide
    · rw [List.mem_singleton.mp listed]
      decide
  exact fun returns => absurd (adjusted_proper taken_kept rfl returns room) (by decide)

end RouterKernel.Resources
