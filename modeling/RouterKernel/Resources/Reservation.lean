import RouterKernel.Resources.Allocation

/-!
Contract: ranges reserved around what is there already.

Owns:
- `reserve_region_with_split`;
- that it ends and covers its range exactly when the range is inside the root.

Does not own: the request that every piece is tried with.

A resource that has been freed keeps its place in the heap, detached and without children.
-/

namespace RouterKernel.Resources

open RouterKernel.Foundation

/-! ## The code -/

/-- The heap, the calls of `kzalloc` so far, and whether one of them has failed. -/
structure Reserving where
  heap : Heap
  calls : Nat
  short : Bool

/-- The body of `__reserve_region_with_split`, with what it calls for the pieces. -/
def reserveStep (kzalloc : Nat → Heap → Option Ptr) (root : Ptr) (fuel : Nat)
    (again : Reserving → U32 → U32 → Attempt Fault Reserving) (state : Reserving)
    (start stop : U32) :
    Attempt Fault Reserving :=
  match kzalloc state.calls state.heap with
  | none => pure ⟨state.heap, state.calls + 1, true⟩
  | some res => do
    let (conflict, heap) ← requestResourceConflict (ranged state.heap res start stop) root res fuel
    let state : Reserving := ⟨heap, state.calls + 1, state.short⟩
    match conflict with
    | none => pure state
    | some conflict =>
      if (heap conflict).start ≤ start ∧ stop ≤ (heap conflict).stop then pure state
      else do
        let state ← (if start < (heap conflict).start
            then again state start ((heap conflict).start - 1)
          else pure state : Attempt Fault Reserving)
        if (state.heap conflict).stop < stop then again state ((state.heap conflict).stop + 1) stop
        else pure state

/-- `__reserve_region_with_split`, to a depth of calls. -/
def reserveFrom (kzalloc : Nat → Heap → Option Ptr) (root : Ptr) (fuel : Nat) :
    (depth : Nat) → Reserving → U32 → U32 → Attempt Fault Reserving
  | 0, _, _, _ => ExceptT.mk none
  | depth + 1, state, start, stop =>
    reserveStep kzalloc root fuel (reserveFrom kzalloc root fuel depth) state start stop

def reserveRegionWithSplit (kzalloc : Nat → Heap → Option Ptr) (heap : Heap) (root : Ptr)
    (start stop : U32)
    (fuel : Nat) : Attempt Fault Reserving :=
  reserveFrom kzalloc root fuel fuel ⟨heap, 0, false⟩ start stop

/-! ## Inside the root -/

/-- An allocator hands out detached resources. -/
def Allocator (kzalloc : Nat → Heap → Option Ptr) (root : Ptr) : Prop :=
  ∀ calls heap res, kzalloc calls heap = some res → Loose heap res ∧ res ≠ root

/-- The resources in use are as they were, but for the children of the root. -/
def Unchanged (root : Ptr) (heap heap' : Heap) : Prop :=
  ∀ x, x = root ∨ ¬ Loose heap x → (heap' x).start = (heap x).start ∧
      (heap' x).stop = (heap x).stop ∧
    (heap' x).parent = (heap x).parent ∧ (x ≠ root → (heap' x).child = (heap x).child)

/-- The trees are kept, and without a failed allocation all addresses are covered. -/
structure Reserved (root : Ptr) (state : Reserving) (start stop : U32) (after : Reserving) :
    Prop where
  kept : ∃ kids, Kept after.heap kids
  unchanged : Unchanged root state.heap after.heap
  covered : after.short = false → state.short = false ∧ ∀ address, start ≤ address →
      address ≤ stop →
    ∃ c, (after.heap c).parent = some root ∧ (after.heap c).start ≤ address ∧
      address ≤ (after.heap c).stop

variable {heap heap' heap'' : Heap} {kids : Ptr → List Ptr} {root res c : Ptr} {start stop : U32}
  {kzalloc : Nat → Heap → Option Ptr}

theorem Unchanged.refl (root : Ptr) (heap : Heap) : Unchanged root heap heap :=
  fun _ _ => ⟨rfl, rfl, rfl, fun _ => rfl⟩

theorem Unchanged.trans (first : Unchanged root heap heap') (second : Unchanged root heap' heap'') :
    Unchanged root heap heap'' := by
  intro x used
  obtain ⟨starts, stops, parents, children⟩ := first x used
  have still : x = root ∨ ¬ Loose heap' x := by
    by_cases top : x = root
    · exact .inl top
    · rw [Loose, parents, children top]
      exact used
  obtain ⟨starts', stops', parents', children'⟩ := second x still
  exact ⟨starts'.trans starts, stops'.trans stops, parents'.trans parents,
    fun other => (children' other).trans (children other)⟩

section Fresh

variable (loose : Loose heap res) (other : res ≠ root)

include loose other

theorem ne_of_used {x : Ptr} (used : x = root ∨ ¬ Loose heap x) : x ≠ res := by
  rintro rfl
  exact used.elim other fun inUse => inUse loose

theorem unchanged_ranged (start stop : U32) : Unchanged root heap (ranged heap res start stop) := by
  intro x used
  rw [ranged_of_ne (ne_of_used loose other used)]
  exact Unchanged.refl root heap x used

theorem unchanged_placed {front back : List Ptr}
    (placed : Placed heap root res front [] back heap') :
    Unchanged root heap heap' := by
  intro x used
  have differs := ne_of_used loose other used
  refine ⟨placed.start x, placed.stop x, ?_, fun below => ?_⟩
  · rw [placed.parents, if_neg differs, if_neg List.not_mem_nil]
  · rw [placed.children, if_neg differs, if_neg fun top => below top.1]

end Fresh

theorem Unchanged.child (unchanged : Unchanged root heap heap')
    (below : (heap c).parent = some root) :
    (heap' c).parent = some root ∧ (heap' c).start = (heap c).start ∧
    (heap' c).stop = (heap c).stop := by
  have used : ¬ Loose heap c := fun loose => by simp [loose.1] at below
  obtain ⟨starts, stops, parents, -⟩ := unchanged c (.inr used)
  exact ⟨parents.trans below, starts, stops⟩

/-- The call for a piece of the range, or none. -/
theorem piece_returns (root : Ptr) {again : Nat → Reserving → U32 → U32 → Attempt Fault Reserving}
    (state : Reserving)
    (kept : ∃ kids, Kept state.heap kids) (here : Prop) [Decidable here]
    (returns : here →
      Returns (fun fuel => again fuel state start stop) (Reserved root state start stop)) :
    Returns (fun fuel => if here then again fuel state start stop else pure state) fun after =>
      (∃ kids, Kept after.heap kids) ∧ Unchanged root state.heap after.heap ∧
        (after.short = false → state.short = false) ∧
          (here → Reserved root state start stop after) := by
  by_cases goes : here
  · simp only [if_pos goes]
    exact (returns goes).mono fun after reserved =>
      ⟨reserved.kept, reserved.unchanged, fun full => (reserved.covered full).1, fun _ => reserved⟩
  · simp only [if_neg goes]
    exact Returns.pure ⟨kept, .refl _ _, id, fun wrong => absurd wrong goes⟩

variable {state : Reserving}

/-- One call inside the root, given those for shorter ranges. -/
theorem reserveStep_returns (allocator : Allocator kzalloc root)
    (again : Nat → Reserving → U32 → U32 → Attempt Fault Reserving)
    (kept : ∃ kids, Kept state.heap kids)
    (proper : start ≤ stop)
    (inside : (state.heap root).start ≤ start ∧ stop ≤ (state.heap root).stop)
    (shorter : ∀ (piece : Reserving) (low high : U32), (∃ kids, Kept piece.heap kids) → low ≤ high →
      start ≤ low → high ≤ stop → high.toNat - low.toNat < stop.toNat - start.toNat →
      Unchanged root state.heap piece.heap →
      Returns (fun fuel => again fuel piece low high) (Reserved root piece low high)) :
    Returns (fun fuel => reserveStep kzalloc root fuel (again fuel) state start stop)
      (Reserved root state start stop) := by
  obtain ⟨kids, kept⟩ := kept
  unfold reserveStep
  cases alloc : kzalloc state.calls state.heap with
  | none => exact Returns.pure ⟨⟨kids, kept⟩, .refl _ _, fun full => by cases full⟩
  | some res =>
    obtain ⟨loose, other⟩ := allocator _ _ _ alloc
    have keptRanged := kept.withRange loose start stop
    have looseRanged := ranged_loose loose start stop
    have same := unchanged_ranged loose other start stop
    have rootRange : ranged state.heap res start stop root = state.heap root :=
      ranged_of_ne (Ne.symm other) start stop
    refine Returns.bind (requestResourceConflict_returns keptRanged looseRanged other) ?_
    rintro ⟨conflict, heap⟩ requested
    cases requested with
    | placed fitting placed =>
      refine Returns.pure ⟨⟨_, keptRanged.placed fitting placed⟩,
        same.trans (unchanged_placed looseRanged other placed), fun full =>
          ⟨full, fun address low high => ?_⟩⟩
      exact ⟨res, by rw [placed.parents, if_pos rfl], by rwa [placed.start, ranged_self],
        by rwa [placed.stop, ranged_self]⟩
    | unfit unfit =>
      refine absurd ?_ unfit
      rw [Fits, rootRange, ranged_self]
      exact ⟨inside.1, proper, inside.2⟩
    | @meets front tmp back fits split before touches =>
      have below := (keptRanged.parents root tmp).mp (by simp [split])
      have nested := (keptRanged.nested root tmp (by simp [split])).2.1
      rw [Apart, ranged_self, not_or, BitVec.not_lt, BitVec.not_lt] at touches
      obtain ⟨meetsLow, meetsHigh⟩ := touches
      dsimp only at meetsLow meetsHigh ⊢
      generalize ranged state.heap res start stop = heap at *
      by_cases whole : (heap tmp).start ≤ start ∧ stop ≤ (heap tmp).stop
      · simp only [if_pos whole]
        exact Returns.pure ⟨⟨kids, keptRanged⟩, same, fun full => ⟨full, fun address low high =>
          ⟨tmp, below, BitVec.le_trans whole.1 low, BitVec.le_trans high whole.2⟩⟩⟩
      simp only [if_neg whole]
      refine Returns.bind (piece_returns root ⟨heap, state.calls + 1, state.short⟩ ⟨kids,
          keptRanged⟩ (start < (heap tmp).start)
        fun goes => ?_) ?_
      · exact shorter _ _ _ ⟨kids, keptRanged⟩ (by bv_omega) (by bv_omega) (by bv_omega)
          (by bv_omega) same
      rintro middle ⟨keptMiddle, first, someFirst, lower⟩
      obtain ⟨belowMiddle, starts, stops⟩ := first.child below
      refine (piece_returns root middle keptMiddle ((middle.heap tmp).stop < stop) fun goes =>
        ?_).mono ?_
      · exact shorter _ _ _ keptMiddle (by bv_omega) (by bv_omega) (by bv_omega) (by bv_omega)
          (same.trans first)
      rintro after ⟨keptAfter, second, someSecond, upper⟩
      refine ⟨keptAfter, (same.trans first).trans second,
        fun full => ⟨someFirst (someSecond full), fun address low high => ?_⟩⟩
      -- an address is before the conflicting child, behind it or in it
      by_cases left : address < (heap tmp).start
      · obtain ⟨c, child, from_, upTo⟩ :=
          ((lower (by bv_omega)).covered (someSecond full)).2 address low (by bv_omega)
        obtain ⟨child', starts', stops'⟩ := second.child child
        exact ⟨c, child', starts' ▸ from_, stops' ▸ upTo⟩
      by_cases right : (middle.heap tmp).stop < address
      · exact ((upper (by bv_omega)).covered full).2 address (by bv_omega) high
      · obtain ⟨child', starts', stops'⟩ := second.child belowMiddle
        refine ⟨tmp, child', ?_, ?_⟩
        · rw [starts', starts]
          exact BitVec.not_lt.mp left
        · rw [stops']
          exact BitVec.not_lt.mp right

/-- The whole recursion: with every call the ranges get shorter. -/
theorem reserveFrom_returns (allocator : Allocator kzalloc root) (length skipped : Nat)
    {start stop : U32}
    (short : stop.toNat - start.toNat < length) (kept : ∃ kids, Kept state.heap kids)
    (proper : start ≤ stop)
    (inside : (state.heap root).start ≤ start ∧ stop ≤ (state.heap root).stop) :
    Returns (fun fuel => reserveFrom kzalloc root fuel (fuel - skipped) state start stop)
      (Reserved root state start stop) := by
  induction length generalizing skipped state start stop with
  | zero => omega
  | succ length ih =>
    have step := reserveStep_returns allocator
      (fun fuel => reserveFrom kzalloc root fuel (fuel - (skipped + 1))) kept proper inside
      fun piece low high keptPiece order lower upper less unchanged => by
        obtain ⟨starts, stops, -⟩ := unchanged root (.inl rfl)
        refine ih (skipped + 1) (by omega) keptPiece order ?_
        rw [starts, stops]
        exact ⟨BitVec.le_trans inside.1 lower, BitVec.le_trans upper inside.2⟩
    obtain ⟨fuel, result, returned, reserved⟩ := step
    refine ⟨max fuel (skipped + 1), result, fun more enough => ?_, reserved⟩
    have depth : more - skipped = more - (skipped + 1) + 1 := by omega
    simp only [depth, reserveFrom]
    exact returned more (by omega)

/-! ## Outside the root -/

def allocOne (res : Ptr) (_ : Nat) (heap : Heap) : Option Ptr :=
  if (heap res).parent = none ∧ (heap res).child = none then some res else none

theorem allocOne_allocator (other : res ≠ root) : Allocator (allocOne res) root := by
  intro calls heap handed alloc
  rw [allocOne] at alloc
  split_ifs at alloc with free
  cases alloc
  exact ⟨free, other⟩

/-- A range that is not inside the root conflicts with the root itself, and so does one of the
pieces that are tried next. -/
theorem reserveFrom_never (fuel depth : Nat) {start stop : U32} (loose : Loose state.heap res)
    (other : res ≠ root)
    (proper : start ≤ stop)
    (outside : start < (state.heap root).start ∨ (state.heap root).stop < stop) :
    reserveFrom (allocOne res) root fuel depth state start stop = ExceptT.mk none := by
  induction depth generalizing state start stop with
  | zero => rfl
  | succ depth ih =>
    have rootRange : ranged state.heap res start stop root = state.heap root :=
      ranged_of_ne (Ne.symm other) start stop
    have conflicts : requestResourceConflict (ranged state.heap res start stop) root res fuel =
        pure (some root, ranged state.heap res start stop) := by
      rw [requestResourceConflict, rootRange, ranged_self]
      split_ifs <;> first | rfl | (exfalso; simp only at *; bv_omega)
    have looseRanged := ranged_loose loose start stop
    have alloc : allocOne res state.calls state.heap = some res := if_pos loose
    have partly : ¬ ((state.heap root).start ≤ start ∧ stop ≤ (state.heap root).stop) := by bv_omega
    rw [reserveFrom, reserveStep, alloc]
    simp only [conflicts, pure_bind, rootRange, if_neg partly]
    by_cases low : start < (state.heap root).start
    · have still : start < (ranged state.heap res start stop root).start := by rwa [rootRange]
      rw [if_pos low, ih looseRanged (by bv_omega) (.inl still)]
      rfl
    · have high := outside.resolve_left low
      have still : (ranged state.heap res start stop root).stop < stop := by rwa [rootRange]
      rw [if_neg low, pure_bind]
      simp only [rootRange, if_pos high]
      exact ih looseRanged (by bv_omega) (.inr still)

theorem reserveRegion_never (loose : Loose heap res) (other : res ≠ root) (proper : start ≤ stop)
    (outside : start < (heap root).start ∨ (heap root).stop < stop) (post : Reserving → Prop) :
    ¬ Returns (reserveRegionWithSplit (allocOne res) heap root start stop) post := by
  rintro ⟨fuel, result, returned, -⟩
  have ran := returned fuel le_rfl
  rw [reserveRegionWithSplit, reserveFrom_never fuel fuel loose other proper outside] at ran
  cases ran

/-- Whatever the allocator does, the function ends with the range covered, as far as there was
memory: exactly for the ranges inside the root. -/
theorem reserveRegionWithSplit_covers_iff (kept : Kept heap kids) (proper : start ≤ stop)
    (loose : Loose heap res)
    (other : res ≠ root) :
    (∀ kzalloc, Allocator kzalloc root →
        Returns (reserveRegionWithSplit kzalloc heap root start stop)
      (Reserved root ⟨heap, 0, false⟩ start stop)) ↔
    (heap root).start ≤ start ∧ stop ≤ (heap root).stop := by
  constructor
  · intro returns
    by_contra outside
    exact reserveRegion_never loose other proper (by bv_omega) _
      (returns _ (allocOne_allocator other))
  · intro inside kzalloc allocator
    exact reserveFrom_returns allocator _ 0 (Nat.lt_succ_self _) ⟨kids, kept⟩ proper inside

theorem reserveRegionWithSplit_covers_iff_split :
    Returns (reserveRegionWithSplit (allocOne 2) taken 0 100 299)
      (Reserved 0 ⟨taken, 0, false⟩ 100 299) :=
  (reserveRegionWithSplit_covers_iff taken_kept (show (100 : U32) ≤ 299 by decide)
      (show Loose taken 2 from ⟨rfl, rfl⟩)
    (by decide)).mpr ⟨by decide, by decide⟩ _ (allocOne_allocator (by decide))

/-- One address behind the end of the root is tried again and again. -/
theorem behind_root_never_returns : Allocator (allocOne 2) 0 ∧
      ¬ Returns (reserveRegionWithSplit (allocOne 2) taken 0 100 0x10000) (fun _ => True) :=
  ⟨allocOne_allocator (by decide),
      reserveRegion_never (show Loose taken 2 from ⟨rfl, rfl⟩) (by decide) (by decide)
    (.inr (by decide)) _⟩

end RouterKernel.Resources
