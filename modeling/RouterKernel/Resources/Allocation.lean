import RouterKernel.Foundation.Dyadic
import RouterKernel.Resources.Insertion

/-!
Contract: allocation in the resource trees of `kernel/resource.c`.

Owns:
- `__find_resource`, the search for a gap, and `reallocate_resource` and
  `allocate_resource` on top of it;
- that a search goes through the gaps from the lowest on and misses no place;
- that an allocation succeeds exactly when there is a place, and takes the lowest.

`arch_remove_reservations` does nothing on this machine.  The pointer `alignf_data` is part
of the function `alignf`.
-/

namespace RouterKernel.Resources

open RouterKernel.Foundation

/-! ## Model -/

/-- `struct resource_constraint`. -/
structure Constraint where
  min : U32
  max : U32
  align : U32
  alignf : Resource → U32 → U32 → U32

def simpleAlignResource (avail : Resource) (_size _align : U32) : U32 := avail.start

def resourceClip (res : Resource) (min max : U32) : Resource :=
  let res := if res.start < min then { res with start := min } else res
  if res.stop > max then { res with stop := max } else res

def resourceContains (res1 res2 : Resource) : Bool :=
  res1.start ≤ res2.start && res1.stop ≥ res2.stop

/-- The range in the clipped gap `tmp`, if it holds one. -/
def offer (new tmp : Resource) (size : U32) (constraint : Constraint) : Option Resource :=
  let avail := { new with start := alignUp tmp.start constraint.align, stop := tmp.stop }
  if avail.start ≥ tmp.start then
    let start := constraint.alignf avail size constraint.align
    let alloc := { new with start, stop := start + size - 1 }
    if resourceContains avail alloc then some alloc else none
  else none

/-- The code behind the label `next`. -/
def findNext (heap : Heap) (root : Ptr) (old : Option Ptr) (tmp : Resource) :
    Option Ptr → Outcome (Resource × Option Ptr) (Except Errno Resource)
  | none => .halted (.error .EBUSY)
  | some this =>
    if (heap this).stop = (heap root).stop then .halted (.error .EBUSY)
    else
      let tmp := if some this ≠ old then { tmp with start := (heap this).stop + 1 } else tmp
      .running (tmp, (heap this).sibling)

/-- The end of the gap before `this`. -/
def gapStop (heap : Heap) (root : Ptr) (old : Option Ptr) : Option Ptr → U32
  | none => (heap root).stop
  | some this => if some this = old then (heap this).stop else (heap this).start - 1

def findTurn (heap : Heap) (root : Ptr) (old : Option Ptr) (new : Resource) (size : U32)
    (constraint : Constraint) (state : Resource × Option Ptr) :
    Outcome (Resource × Option Ptr) (Except Errno Resource) :=
  let (tmp, this) := state
  let tmp := { tmp with stop := gapStop heap root old this }
  if tmp.stop < tmp.start then findNext heap root old tmp this
  else
    let tmp := resourceClip tmp constraint.min constraint.max
    match offer new tmp size constraint with
    | some alloc => .halted (.ok { new with start := alloc.start, stop := alloc.stop })
    | none => findNext heap root old tmp this

/-- The gap the search begins with; a child that begins where `root` does is skipped. -/
def findStart (heap : Heap) (root : Ptr) (old : Option Ptr) (new : Resource) :
    Resource × Option Ptr :=
  let tmp := { new with start := (heap root).start }
  match (heap root).child with
  | none => (tmp, none)
  | some this =>
    if (heap this).start = (heap root).start then
      ({ tmp with start := if some this = old then (heap this).start else (heap this).stop + 1 },
        (heap this).sibling)
    else (tmp, some this)

/-- `__find_resource`: the resource `new` with its range filled in. -/
def findResource (heap : Heap) (root : Ptr) (old : Option Ptr) (new : Resource) (size : U32)
    (constraint : Constraint) (fuel : Nat) : Attempt Fault (Except Errno Resource) :=
  loop (fun _ state =>
    (liftM (.ok (findTurn heap root old new size constraint state) : Except Fault _) :
      Attempt Fault _))
    fuel (findStart heap root old new)

def reallocateResource (heap : Heap) (root old : Ptr) (newsize : U32) (constraint : Constraint)
    (fuel : Nat) : Attempt Fault (Except Errno Unit × Heap) := do
  match ← findResource heap root (some old) (heap old) newsize constraint fuel with
  | .error err => pure (.error err, heap)
  | .ok new =>
    if resourceContains new (heap old) then
      pure (.ok (), (heap.setStart old new.start).setStop old new.stop)
    else if (heap old).child.isSome then pure (.error .EBUSY, heap)
    else if resourceContains (heap old) new then
      pure (.ok (), (heap.setStart old new.start).setStop old new.stop)
    else
      let (_, heap) ← releaseResource heap old fuel
      let (conflict, heap) ← requestResourceConflict (Function.update heap old new) root old fuel
      if conflict.isSome then throw .bug else pure (.ok (), heap)

def allocateResource (heap : Heap) (root new : Ptr) (size min max align : U32)
    (alignf : Option (Resource → U32 → U32 → U32)) (fuel : Nat) :
    Attempt Fault (Except Errno Unit × Heap) := do
  let constraint := { min, max, align, alignf := alignf.getD simpleAlignResource : Constraint }
  if (heap new).parent.isSome then reallocateResource heap root new size constraint fuel
  else
    match ← findResource heap root none (heap new) size constraint fuel with
    | .error err => pure (.error err, heap)
    | .ok found =>
      let heap := (heap.setStart new found.start).setStop new found.stop
      let (conflict, heap) ← requestResourceConflict heap root new fuel
      pure (if conflict.isSome then .error .EBUSY else .ok (), heap)

/-! ## Places -/

/-- The `size` addresses from `place` on are aligned, inside `root` and the limits, and
apart from every child of `root`. -/
structure Spot (heap : Heap) (kids : Ptr → List Ptr) (root : Ptr) (size min max align : U32)
    (place : Nat) : Prop where
  aligned : align.toNat ∣ place
  inside : (heap root).start.toNat ≤ place ∧ place + size.toNat - 1 ≤ (heap root).stop.toNat
  allowed : min.toNat ≤ place ∧ place + size.toNat - 1 ≤ max.toNat
  apart : ∀ c ∈ kids root, (heap c).stop.toNat < place ∨ place + size.toNat - 1 <
    (heap c).start.toNat

variable {heap : Heap} {kids : Ptr → List Ptr} {root new : Ptr} {size min max align : U32}
  {fresh tmp alloc : Resource} {front back : List Ptr} {order : Nat}

theorem Spot.small {place : Nat} (spot : Spot heap kids root size min max align place) :
    place + size.toNat - 1 < 2 ^ 32 :=
  Nat.lt_of_le_of_lt spot.inside.2 (heap root).stop.isLt

theorem resourceClip_bounds (tmp : Resource) (min max : U32) :
    (tmp.start.toNat ≤ (resourceClip tmp min max).start.toNat ∧
        min.toNat ≤ (resourceClip tmp min max).start.toNat ∧
      ∀ place, tmp.start.toNat ≤ place → min.toNat ≤ place →
        (resourceClip tmp min max).start.toNat ≤ place) ∧
    (resourceClip tmp min max).stop.toNat ≤ tmp.stop.toNat ∧ (resourceClip tmp min max).stop.toNat ≤
        max.toNat ∧
      ∀ place, place ≤ tmp.stop.toNat → place ≤ max.toNat →
        place ≤ (resourceClip tmp min max).stop.toNat := by
  unfold resourceClip
  by_cases low : tmp.start < min <;> by_cases high :
      tmp.stop > max <;> simp only [low, high, if_true, if_false] <;>
    refine ⟨⟨?_, ?_, fun place first second => ?_⟩, ?_, ?_, fun place first second =>
      ?_⟩ <;> bv_omega

/-! ## The range offered by a gap -/

section Offers

variable (power : align.toNat = 2 ^ order)

include power in
theorem offer_some
    (offered : offer fresh tmp size ⟨min, max, align, simpleAlignResource⟩ = some alloc) :
    alloc.stop = alloc.start + size - 1 ∧ align.toNat ∣ alloc.start.toNat ∧
      tmp.start ≤ alloc.start ∧ alloc.stop ≤ tmp.stop ∧
      ∀ place, align.toNat ∣ place → tmp.start.toNat ≤ place → alloc.start.toNat ≤ place := by
  unfold offer simpleAlignResource resourceContains at offered
  dsimp only at offered
  split_ifs at offered with rounded contains
  injection offered with same
  subst same
  rw [Bool.and_eq_true, decide_eq_true_iff, decide_eq_true_iff] at contains
  refine ⟨rfl, alignUp_aligned tmp.start power, rounded, contains.2, fun place aligned above => ?_⟩
  have least := alignUp_least tmp.start power aligned above
  rw [if_pos rounded] at least
  exact least

include power in
theorem offer_none (positive : 0 < size.toNat)
    (refused : offer fresh tmp size ⟨min, max, align, simpleAlignResource⟩ = none)
    {place : Nat} (aligned : align.toNat ∣ place) (above : tmp.start.toNat ≤ place)
    (small : place + size.toNat - 1 < 2 ^ 32) : tmp.stop.toNat < place + size.toNat - 1 := by
  have least := alignUp_least tmp.start power aligned above
  unfold offer simpleAlignResource resourceContains at refused
  dsimp only at refused
  split_ifs at refused with rounded contains
  · rw [if_pos rounded] at least
    rw [Bool.and_eq_true, decide_eq_true_iff, decide_eq_true_iff, not_and] at contains
    have short := contains (BitVec.le_refl _)
    bv_omega
  · rw [if_neg rounded] at least
    omega

end Offers

/-! ## The search -/

/-- A search that has the children `front` behind it and goes on at the address `low`. -/
structure Searching (heap : Heap) (kids : Ptr → List Ptr) (root : Ptr)
    (size min max align low : U32)
    (front back : List Ptr) : Prop where
  split : kids root = front ++ back
  lowest : ∀ place, Spot heap kids root size min max align place → low.toNat ≤ place
  inside : (heap root).start.toNat ≤ low.toNat
  behind : ∀ x ∈ front, (heap x).stop.toNat < low.toNat
  ahead : ∀ x ∈ back, 0 < (heap x).start.toNat

/-- Every place lies behind `this`; behind the last child there is none. -/
def Beyond (heap : Heap) (kids : Ptr → List Ptr) (root : Ptr) (size min max align : U32) :
    Option Ptr → Prop
  | none => ∀ place, ¬ Spot heap kids root size min max align place
  | some this => ∀ place, Spot heap kids root size min max align place → (heap this).stop.toNat <
    place

/-- What a search has found: a range of the right form, which is the lowest place unless
there is no place at all. -/
structure Found (heap : Heap) (kids : Ptr → List Ptr) (root : Ptr) (size min max align : U32)
    (found : Resource) : Prop where
  sized : found.stop = found.start + size - 1
  aligned : align.toNat ∣ found.start.toNat
  low : min ≤ found.start
  high : found.stop ≤ max
  lowest : (∀ place, ¬ Spot heap kids root size min max align place) ∨
    IsLeast {place | Spot heap kids root size min max align place} found.start.toNat

def Searched (heap : Heap) (kids : Ptr → List Ptr) (root : Ptr) (size min max align : U32) :
    Except Errno Resource → Prop
  | .ok found => Found heap kids root size min max align found
  | .error err => err = .EBUSY ∧ ∀ place, ¬ Spot heap kids root size min max align place

section Search

variable (kept : Kept heap kids) (power : align.toNat = 2 ^ order) (positive : 0 < size.toNat)

include kept in
theorem gapStop_before (split : kids root = front ++ back)
    (ahead : ∀ x ∈ back, 0 < (heap x).start.toNat) :
    (∀ x ∈ back, (gapStop heap root none back.head?).toNat < (heap x).start.toNat) ∧
      (gapStop heap root none back.head?).toNat ≤ (heap root).stop.toNat ∧
      ∀ x, back.head? = some x → (heap x).start.toNat ≤ (gapStop heap root none back.head?).toNat +
        1 := by
  cases back with
  | nil => exact ⟨by simp, le_rfl, by simp⟩
  | cons this rest =>
    have nested := kept.nested root this (by rw [split]; simp)
    have first := ahead this List.mem_cons_self
    have stop : (gapStop heap root none (this :: rest).head?).toNat =
        (heap this).start.toNat - 1 := by
      rw [List.head?_cons, gapStop, if_neg (by simp)]
      bv_omega
    have limit : ∀ x, (this :: rest).head? = some x → (heap this).start - 1 < (heap x).start := by
      intro x here
      injection here with same
      subst same
      bv_omega
    have all := kept.after_of_head split limit
    rw [stop]
    refine ⟨fun x listed => ?_, ?_, fun x here => ?_⟩
    · have := all x listed
      bv_omega
    · bv_omega
    · injection here with same
      subst same
      omega

include kept power positive in
theorem Searching.beyond (fresh : Resource)
    (searching : Searching heap kids root size min max align tmp.start front back)
    (barren : tmp.stop = gapStop heap root none back.head? ∧ (tmp.stop < tmp.start ∨
      offer fresh (resourceClip tmp min max) size ⟨min, max, align, simpleAlignResource⟩ = none)) :
    Beyond heap kids root size min max align back.head? := by
  obtain ⟨before, inside, next⟩ := gapStop_before kept searching.split searching.ahead
  obtain ⟨⟨-, -, startLeast⟩, -, -, stopLeast⟩ := resourceClip_bounds tmp min max
  -- every place ends behind the gap
  have past : ∀ place, Spot heap kids root size min max align place →
      (gapStop heap root none back.head?).toNat < place + size.toNat - 1 := by
    intro place spot
    have low := searching.lowest place spot
    rw [← barren.1]
    rcases barren.2 with empty | refused
    · bv_omega
    · have short := offer_none power positive refused spot.aligned
        (startLeast place low spot.allowed.1) spot.small
      by_contra reaches
      have := stopLeast (place + size.toNat - 1) (by omega) spot.allowed.2
      omega
  cases back with
  | nil =>
    intro place spot
    have := past place spot
    have := spot.inside.2
    rw [List.head?_nil, gapStop] at *
    omega
  | cons child rest =>
    intro place spot
    have ends := past place spot
    have := next child rfl
    rcases spot.apart child (by rw [searching.split]; simp) with apart | apart
    · exact apart
    · omega

include kept positive in
theorem findNext_searched
    (searching : Searching heap kids root size min max align tmp.start front back)
    (beyond : Beyond heap kids root size min max align back.head?) (clipped : Resource) :
    match findNext heap root none clipped back.head? with
    | .halted result => Searched heap kids root size min max align result
    | .running (tmp, this) => ∃ first rest, back = first :: rest ∧ this = rest.head? ∧
        Searching heap kids root size min max align tmp.start (front ++ [first]) rest := by
  cases back with
  | nil => exact ⟨rfl, beyond⟩
  | cons this rest =>
    have nested := kept.nested root this (by rw [searching.split]; simp)
    have chain := kept.linked root
    rw [searching.split] at chain
    obtain ⟨middle, -, -, chain⟩ := segment_append.mp chain
    rw [List.head?_cons, findNext]
    by_cases final : (heap this).stop = (heap root).stop
    · rw [if_pos final]
      refine ⟨rfl, fun place spot => ?_⟩
      have after : (heap this).stop.toNat < place := beyond place spot
      have := spot.inside.2
      rw [final] at after
      omega
    · rw [if_neg final]
      dsimp only
      rw [if_pos (by simp)]
      have raised : ((heap this).stop + 1).toNat = (heap this).stop.toNat + 1 := by bv_omega
      refine ⟨this, rest, rfl, Segment.start_eq chain, ?_, ?_, ?_, ?_, ?_⟩
      · rw [searching.split, List.append_assoc, List.singleton_append]
      · intro place spot
        rw [raised]
        exact beyond place spot
      · rw [raised]
        bv_omega
      · intro x listed
        rw [raised]
        rcases List.mem_append.mp listed with listed | listed
        · have sorted := kept.ordered root
          rw [searching.split, List.pairwise_append] at sorted
          have := sorted.2.2 x listed this List.mem_cons_self
          bv_omega
        · rw [List.mem_singleton.mp listed]
          exact Nat.lt_succ_self _
      · exact (List.forall_mem_cons.mp searching.ahead).2

include power in
theorem offer_found
    (offered : offer fresh (resourceClip tmp min max) size ⟨min, max, align, simpleAlignResource⟩ =
      some alloc)
    (lowest : (∀ place, ¬ Spot heap kids root size min max align place) ∨
      IsLeast {place | Spot heap kids root size min max align place} alloc.start.toNat) :
    Searched heap kids root size min max align
      (.ok { fresh with start := alloc.start, stop := alloc.stop }) := by
  obtain ⟨sized, aligned, above, below, -⟩ := offer_some power offered
  obtain ⟨⟨-, low, -⟩, -, high, -⟩ := resourceClip_bounds tmp min max
  exact ⟨sized, aligned, by bv_omega, by bv_omega, lowest⟩

include kept power positive in
/-- The first gap that offers a range offers the lowest place, or a range that wraps
around, and then there is no place. -/
theorem Searching.lowest_of_offer
    (searching : Searching heap kids root size min max align tmp.start front back)
    (stop : tmp.stop = gapStop heap root none back.head?)
    (offered : offer fresh (resourceClip tmp min max) size ⟨min, max, align, simpleAlignResource⟩ =
      some alloc) :
    (∀ place, ¬ Spot heap kids root size min max align place) ∨
      IsLeast {place | Spot heap kids root size min max align place} alloc.start.toNat := by
  obtain ⟨sized, aligned, above, below, least⟩ := offer_some power offered
  obtain ⟨⟨startAbove, low, startLeast⟩, stopBelow, high, -⟩ := resourceClip_bounds tmp min max
  obtain ⟨before, inside, -⟩ := gapStop_before kept searching.split searching.ahead
  have lowest : ∀ place, Spot heap kids root size min max align place → alloc.start.toNat ≤ place :=
    fun place spot => least place spot.aligned
      (startLeast place (searching.lowest place spot) spot.allowed.1)
  by_cases small : alloc.start.toNat + size.toNat - 1 < 2 ^ 32
  · right
    have ends : alloc.stop.toNat = alloc.start.toNat + size.toNat - 1 := by bv_omega
    rw [← stop] at before inside
    have rootBelow := searching.inside
    refine ⟨⟨aligned, ⟨by bv_omega, by bv_omega⟩, ⟨by bv_omega, by bv_omega⟩, fun c listed => ?_⟩,
      lowest⟩
    rw [searching.split, List.mem_append] at listed
    rcases listed with listed | listed
    · left
      have := searching.behind c listed
      bv_omega
    · right
      have := before c listed
      bv_omega
  · left
    intro place spot
    have := lowest place spot
    have := spot.small
    omega

include kept power positive in
theorem findTurn_searched (fresh : Resource)
    (searching : Searching heap kids root size min max align tmp.start front back) :
    match findTurn heap root none fresh size ⟨min, max, align, simpleAlignResource⟩ (tmp,
      back.head?) with
    | .halted result => Searched heap kids root size min max align result
    | .running (tmp, this) => ∃ first rest, back = first :: rest ∧ this = rest.head? ∧
        Searching heap kids root size min max align tmp.start (front ++ [first]) rest := by
  unfold findTurn
  dsimp only
  set gap : Resource := { tmp with stop := gapStop heap root none back.head? }
  have searching : Searching heap kids root size min max align gap.start front back := searching
  by_cases empty : gap.stop < gap.start
  · rw [if_pos empty]
    exact findNext_searched kept positive searching
      (searching.beyond kept power positive fresh ⟨rfl, .inl empty⟩) gap
  · rw [if_neg empty]
    cases offered :
      offer fresh (resourceClip gap min max) size ⟨min, max, align, simpleAlignResource⟩ with
    | some alloc =>
      exact offer_found power offered (searching.lowest_of_offer kept power positive rfl offered)
    | none =>
      exact findNext_searched kept positive searching
        (searching.beyond kept power positive fresh ⟨rfl, .inr offered⟩) (resourceClip gap min max)

include kept power positive in
theorem findLoop_returns (fresh : Resource)
    (searching : Searching heap kids root size min max align tmp.start front back) :
    Returns (fun fuel => loop (fun _ state => (liftM (.ok (findTurn heap root none fresh size
        ⟨min, max, align, simpleAlignResource⟩ state) : Except Fault _) : Attempt Fault _))
      fuel (tmp, back.head?)) (Searched heap kids root size min max align) := by
  -- the children still ahead bound the number of turns
  induction back generalizing front tmp with
  | nil =>
    have turn := findTurn_searched kept power positive fresh searching
    cases outcome : findTurn heap root none fresh size ⟨min, max, align, simpleAlignResource⟩
        (tmp, [].head?) with
    | halted result =>
      rw [outcome] at turn
      exact Returns.loop_halted (congrArg Except.ok outcome) turn
    | running state =>
      rw [outcome] at turn
      obtain ⟨first, rest, none, -⟩ := turn
      cases none
  | cons first rest ih =>
    have turn := findTurn_searched kept power positive fresh searching
    cases outcome : findTurn heap root none fresh size ⟨min, max, align, simpleAlignResource⟩
        (tmp, (first :: rest).head?) with
    | halted result =>
      rw [outcome] at turn
      exact Returns.loop_halted (congrArg Except.ok outcome) turn
    | running state =>
      rw [outcome] at turn
      obtain ⟨next, this⟩ := state
      obtain ⟨_, _, same, rfl, further⟩ := turn
      cases same
      exact Returns.loop_running (congrArg Except.ok outcome) (ih further)

include power in
/-- Without any place, a search behind the last child ends at once. -/
theorem findFull_returns (fresh tmp : Resource)
    (full : ∀ place, ¬ Spot heap kids root size min max align place) :
    Returns (fun fuel => loop (fun _ state => (liftM (.ok (findTurn heap root none fresh size
        ⟨min, max, align, simpleAlignResource⟩ state) : Except Fault _) : Attempt Fault _))
      fuel (tmp, none)) (Searched heap kids root size min max align) := by
  have turn : ∃ result, findTurn heap root none fresh size ⟨min, max, align, simpleAlignResource⟩
      (tmp, none) = .halted result ∧ Searched heap kids root size min max align result := by
    unfold findTurn
    dsimp only
    split_ifs with empty
    · exact ⟨_, rfl, rfl, full⟩
    · split
      next alloc offered => exact ⟨_, rfl, offer_found power offered (.inl full)⟩
      next refused => exact ⟨_, rfl, rfl, full⟩
  obtain ⟨result, outcome, searched⟩ := turn
  exact Returns.loop_halted (congrArg Except.ok outcome) searched

include kept power positive in
theorem findResource_returns (fresh : Resource) :
    Returns (findResource heap root none fresh size ⟨min, max, align, simpleAlignResource⟩)
      (Searched heap kids root size min max align) := by
  unfold findResource
  have chain := kept.linked root
  cases listed : kids root with
  | nil =>
    rw [listed] at chain
    have start : findStart heap root none fresh =
        ({ fresh with start := (heap root).start }, [].head?) := by
      rw [findStart, chain]
      rfl
    have searching : Searching heap kids root size min max align (heap root).start [] [] :=
      ⟨listed, fun place spot => spot.inside.1, le_rfl, by simp, by simp⟩
    rw [start]
    exact findLoop_returns kept power positive fresh searching
  | cons first rest =>
    rw [listed] at chain
    have nested := kept.nested root first (by rw [listed]; simp)
    have sorted := kept.ordered root
    rw [listed, List.pairwise_cons] at sorted
    have sibling : (heap first).sibling = rest.head? := Segment.start_eq chain.2
    by_cases skipped : (heap first).start = (heap root).start
    · have start : findStart heap root none fresh = ({ fresh with start := (heap first).stop + 1 },
        rest.head?) := by
        rw [findStart, chain.1]
        dsimp only
        rw [if_pos skipped, if_neg (by simp), sibling]
      have behind : ∀ place, Spot heap kids root size min max align place →
          (heap first).stop.toNat < place := by
        intro place spot
        have := spot.inside.1
        rcases spot.apart first (by rw [listed]; simp) with apart | apart
        · exact apart
        · rw [skipped] at apart
          omega
      rw [start]
      by_cases wraps : (heap first).stop.toNat + 1 < 2 ^ 32
      · have raised : ((heap first).stop + 1).toNat = (heap first).stop.toNat + 1 := by bv_omega
        have searching : Searching heap kids root size min max align ((heap first).stop + 1)
            [first] rest := by
          refine ⟨listed, fun place spot => ?_, ?_, fun x within => ?_, fun x within => ?_⟩
          · rw [raised]
            exact behind place spot
          · rw [raised]
            bv_omega
          · rw [List.mem_singleton.mp within, raised]
            exact Nat.lt_succ_self _
          · have := sorted.1 x within
            bv_omega
        exact findLoop_returns kept power positive fresh searching
      · -- the first child reaches to the last address, so no child follows it
        have last : rest = [] := by
          cases rest with
          | nil => rfl
          | cons second others =>
            have := sorted.1 second List.mem_cons_self
            bv_omega
        rw [last]
        apply findFull_returns power
        intro place spot
        have := behind place spot
        have := spot.small
        omega
    · have start : findStart heap root none fresh =
          ({ fresh with start := (heap root).start }, (first :: rest).head?) := by
        rw [findStart, chain.1]
        dsimp only
        rw [if_neg skipped]
        rfl
      have above : 0 < (heap first).start.toNat := by bv_omega
      have searching :
          Searching heap kids root size min max align (heap root).start [] (first :: rest) := by
        refine ⟨listed, fun place spot => spot.inside.1, le_rfl, by simp, fun x within => ?_⟩
        rcases List.mem_cons.mp within with rfl | within
        · exact above
        · have := sorted.1 x within
          bv_omega
      rw [start]
      exact findLoop_returns kept power positive fresh searching

end Search

/-! ## Allocations -/

/-- `new` has been given the `size` addresses from `place` on and linked in among the
children of `root`, which keep their order; nothing else has changed. -/
structure Installed (heap : Heap) (kids : Ptr → List Ptr) (root new : Ptr) (size : U32)
    (place : Nat)
    (heap' : Heap) : Prop where
  start : (heap' new).start.toNat = place
  stop : (heap' new).stop.toNat = place + size.toNat - 1
  parent : (heap' new).parent = some root
  listed : ∃ front back, kids root = front ++ back ∧
      Chain heap'.next (heap' root).child (front ++ new :: back) ∧
    (∀ x ∈ front, (heap x).stop.toNat < place) ∧
    ∀ x ∈ back, place + size.toNat - 1 < (heap x).start.toNat
  ranges : ∀ x, x ≠ new → (heap' x).start = (heap x).start ∧ (heap' x).stop = (heap x).stop
  parents : ∀ x, x ≠ new → (heap' x).parent = (heap x).parent
  children : ∀ x, x ≠ root → (heap' x).child = (heap x).child
  kept : Loose heap new → ∃ kids', Kept heap' kids'

section Allocating

variable {found : Resource} (kept : Kept heap kids) (detached : (heap new).parent = none)
  (other : new ≠ root) (positive : 0 < size.toNat)

include positive in
/-- A range of the right form is a place exactly when the request for it succeeds. -/
theorem Found.spot_iff (found : Found heap kids root size min max align fresh) :
    Spot heap kids root size min max align fresh.start.toNat ↔
      ((heap root).start ≤ fresh.start ∧ fresh.start ≤ fresh.stop ∧ fresh.stop ≤ (heap root).stop) ∧
        ∀ c ∈ kids root, (heap c).stop < fresh.start ∨ fresh.stop < (heap c).start := by
  have sized := found.sized
  have low := found.low
  have high := found.high
  constructor
  · intro spot
    have small := spot.small
    have inside := spot.inside
    have ends : fresh.stop.toNat = fresh.start.toNat + size.toNat - 1 := by bv_omega
    refine ⟨by bv_omega, fun c listed => ?_⟩
    rcases spot.apart c listed with apart | apart
    · exact .inl apart
    · rw [← ends] at apart
      exact .inr apart
  · rintro ⟨fits, apart⟩
    have ends : fresh.stop.toNat = fresh.start.toNat + size.toNat - 1 := by bv_omega
    refine ⟨found.aligned, ⟨by bv_omega, by bv_omega⟩, ⟨by bv_omega, by bv_omega⟩, fun c listed =>
      ?_⟩
    rw [← ends]
    exact apart c listed

theorem Found.full (found : Found heap kids root size min max align fresh)
    (missed : ¬ Spot heap kids root size min max align fresh.start.toNat) :
    ∀ place, ¬ Spot heap kids root size min max align place := by
  rcases found.lowest with full | least
  · exact full
  · exact absurd least.1 missed

include other in
theorem fits_ranged (start stop : U32) : Fits (ranged heap new start stop) root new ↔
    (heap root).start ≤ start ∧ start ≤ stop ∧ stop ≤ (heap root).stop := by
  unfold Fits
  rw [ranged_self, ranged_of_ne (Ne.symm other)]

include kept detached in
theorem Kept.ranged_listed {x : Ptr} (listed : x ∈ kids root) (start stop : U32) :
    ranged heap new start stop x = heap x :=
  ranged_of_ne (ne_of_mem_of_not_mem listed (kept.not_mem_of_loose detached root)) start stop

include kept detached other in
theorem Kept.ranged_chain (start stop : U32) :
    Chain (ranged heap new start stop).next (ranged heap new start stop root).child
      (kids root) := by
  rw [ranged_of_ne (Ne.symm other)]
  refine (kept.linked root).congr fun x listed => ?_
  rw [Heap.next, kept.ranged_listed detached listed]
  rfl

include kept detached other positive in
theorem linkIn_installed (found : Found heap kids root size min max align fresh)
    (spot : Spot heap kids root size min max align fresh.start.toNat)
    (split : kids root = front ++ back)
    (before : ∀ x ∈ front, (heap x).stop < fresh.start)
    (after : ∀ x ∈ back, fresh.stop < (heap x).start) :
    Installed heap kids root new size fresh.start.toNat
      (linkIn (ranged heap new fresh.start fresh.stop) root new (linkAt root front)) := by
  have chain := kept.ranged_chain detached other fresh.start fresh.stop
  have absent := kept.not_mem_of_loose detached root
  have distinct := kept.nodup root
  have small := spot.small
  have ends : fresh.stop.toNat = fresh.start.toNat + size.toNat - 1 := by
    have := found.sized
    bv_omega
  rw [split] at chain absent distinct
  have fields :=
    linkIn_fields (fun listed => absent (List.mem_append_left _ listed)) (read_linkAt chain)
  constructor
  · rw [(fields new).1]
    simp [ranged]
  · rw [(fields new).2.1]
    simp [ranged, ends]
  · rw [(fields new).2.2.1, if_pos rfl]
  · refine ⟨front, back, split, linkIn_chain chain distinct absent, before, fun x listed => ?_⟩
    rw [← ends]
    exact after x listed
  · intro x different
    rw [(fields x).1, (fields x).2.1, ranged_of_ne different]
    exact ⟨rfl, rfl⟩
  · intro x different
    rw [(fields x).2.2.1, if_neg different, ranged_of_ne different]
  · intro x notRoot
    rw [(fields x).2.2.2.2, if_neg (fun both => notRoot both.1), (ranged_links heap new _ _ x).2.2]
  · intro loose
    have keptRanged := kept.withRange loose fresh.start fresh.stop
    obtain ⟨fits, -⟩ := (found.spot_iff positive).mp spot
    have same {x : Ptr} (listed : x ∈ front ++ back) :
        ranged heap new fresh.start fresh.stop x = heap x :=
      ranged_of_ne (ne_of_mem_of_not_mem listed absent) _ _
    have fitting :
        Fitting (ranged heap new fresh.start fresh.stop) kids root new front [] back := by
      obtain ⟨low, proper, high⟩ := (fits_ranged other fresh.start fresh.stop).mpr fits
      refine ⟨ranged_loose loose _ _, other, split, low, proper, high, ?_, by simp, ?_⟩
      · intro x listed
        rw [ranged_self, same (List.mem_append_left _ listed)]
        exact before x listed
      · intro x listed
        rw [ranged_self, same (List.mem_append_right _ listed)]
        exact after x listed
    have placed := linkIn_placed (ranged_loose loose fresh.start fresh.stop).2 other
      (fun listed => absent (List.mem_append_left _ listed)) (read_linkAt chain)
    exact ⟨_, keptRanged.placed fitting placed⟩

include kept detached other positive in
/-- The request for the range that a search has found. -/
theorem Found.requested (found : Found heap kids root size min max align fresh)
    {result : Option Ptr × Heap}
    (scanned : if Fits (ranged heap new fresh.start fresh.stop) root new then
        Scanned (ranged heap new fresh.start fresh.stop) (kids root) root new result
      else result = (some root, ranged heap new fresh.start fresh.stop)) :
    (result.1 = none ∧ Spot heap kids root size min max align fresh.start.toNat ∧
        Installed heap kids root new size fresh.start.toNat result.2) ∨
      (∃ conflict, result = (some conflict, ranged heap new fresh.start fresh.stop)) ∧
        ¬ Spot heap kids root size min max align fresh.start.toNat := by
  have fitting : Fits (ranged heap new fresh.start fresh.stop) root new ↔ _ :=
    fits_ranged other fresh.start fresh.stop
  have same {x : Ptr} (listed : x ∈ kids root) :=
    kept.ranged_listed detached listed fresh.start fresh.stop
  split_ifs at scanned with fits
  · cases scanned with
    | slot split before head =>
      rename_i front back
      have beforeHere : ∀ x ∈ front, (heap x).stop < fresh.start := by
        intro x listed
        have below := before x listed
        rw [ranged_self, same (by rw [split]; exact List.mem_append_left _ listed)] at below
        exact below
      have afterHere : ∀ x ∈ back, fresh.stop < (heap x).start := by
        refine kept.after_of_head split fun x first => ?_
        have above := head x first
        have listed : x ∈ kids root := by
          rw [split]
          exact List.mem_append_right _ (List.mem_of_head? first)
        rw [ranged_self, same listed] at above
        exact above
      have spot : Spot heap kids root size min max align fresh.start.toNat := by
        refine (found.spot_iff positive).mpr ⟨fitting.mp fits, fun c listed => ?_⟩
        rw [split, List.mem_append] at listed
        exact listed.imp (beforeHere c) (afterHere c)
      exact .inl ⟨rfl, spot,
        linkIn_installed kept detached other positive found spot split beforeHere afterHere⟩
    | meets split before touches =>
      rename_i front tmp back
      refine .inr ⟨⟨tmp, rfl⟩, fun spot => touches ?_⟩
      have listed : tmp ∈ kids root := by
        rw [split]
        simp
      rw [ranged_self, same listed]
      exact ((found.spot_iff positive).mp spot).2 tmp listed
  · refine .inr ⟨⟨root, scanned⟩, fun spot => fits (fitting.mpr ?_)⟩
    exact ((found.spot_iff positive).mp spot).1

end Allocating

/-- With the default alignment function an allocation of a detached resource succeeds
exactly when there is a place for it, and then takes the lowest; otherwise it fails with
`EBUSY`, and at most the range of the detached resource itself has been written. -/
theorem allocateResource_lowest (kept : Kept heap kids) (detached : (heap new).parent = none)
    (other : new ≠ root) (positive : 1 ≤ size.toNat) (power : align.toNat = 2 ^ order) :
    Returns (allocateResource heap root new size min max align none) fun result =>
      (result.1 = .ok () ↔ ∃ place, Spot heap kids root size min max align place) ∧
      (result.1 = .ok () → ∃ place,
          IsLeast {place | Spot heap kids root size min max align place} place ∧
        Installed heap kids root new size place result.2) ∧
      (result.1 ≠ .ok () → result.1 = .error .EBUSY ∧ ∃ start stop,
        result.2 = ranged heap new start stop) := by
  unfold allocateResource
  simp only [detached, Option.isSome_none, Bool.false_eq_true, if_false, Option.getD_none]
  apply Returns.bind (findResource_returns kept power positive (heap new))
  intro answer searched
  cases answer with
  | error err =>
    obtain ⟨rfl, full⟩ := searched
    refine Returns.pure ⟨?_, fun done => absurd done (by simp), fun _ =>
      ⟨rfl, (heap new).start, (heap new).stop, ?_⟩⟩
    · simp [full]
    · simp [ranged]
  | ok fresh =>
    have found : Found heap kids root size min max align fresh := searched
    dsimp only
    rw [setRange_eq]
    apply Returns.bind (requestResourceConflict_scanned
      (kept.ranged_chain detached other fresh.start fresh.stop))
    intro result scanned
    rcases found.requested kept detached other positive scanned with
      ⟨free, spot, installed⟩ | ⟨⟨conflict, rfl⟩, missed⟩
    · rw [free]
      have least : IsLeast {place | Spot heap kids root size min max align place}
          fresh.start.toNat := by
        rcases found.lowest with full | least
        · exact absurd spot (full _)
        · exact least
      refine Returns.pure ⟨⟨fun _ => ⟨_, spot⟩, fun _ => rfl⟩, fun _ => ⟨_, least, installed⟩, ?_⟩
      intro failed
      exact absurd rfl failed
    · refine Returns.pure ⟨?_, fun done => absurd done (by simp), fun _ =>
        ⟨rfl, fresh.start, fresh.stop, rfl⟩⟩
      have full := found.full missed
      simp [full]

/-- A root of 65536 addresses whose first 200 are taken. -/
def taken : Heap
  | 0 => ⟨0, 0xffff, none, none, some 1⟩
  | 1 => ⟨0, 199, some 0, none, none⟩
  | _ => ⟨0, 0, none, none, none⟩

def takenKids : Ptr → List Ptr
  | 0 => [1]
  | _ => []

theorem taken_kept : Kept taken takenKids where
  linked r := by
    match r with
    | 0 => exact ⟨rfl, rfl⟩
    | 1 => rfl
    | _ + 2 => rfl
  parents r c := by
    match r, c with
    | 0, 0 => decide
    | 0, 1 => decide
    | 0, c + 2 => simp [takenKids, taken]
    | r + 1, 0 => simp [takenKids, taken]
    | r + 1, 1 => simp [takenKids, taken]
    | r + 1, c + 2 => simp [takenKids, taken]
  ordered r := by
    match r with
    | 0 => exact List.pairwise_singleton _ _
    | _ + 1 => exact List.Pairwise.nil
  nested r c listed := by
    match r with
    | 0 =>
      rw [List.mem_singleton.mp listed]
      decide
    | _ + 1 => cases listed
  founded := by
    refine ⟨fun r => 1 - r, fun r c listed => ?_⟩
    match r with
    | 0 =>
      rw [List.mem_singleton.mp listed]
      decide
    | _ + 1 => cases listed

theorem allocateResource_lowest_behindTaken :
    Returns (allocateResource taken 0 2 16 0 0xffff 256 none) fun result =>
      result.1 = .ok () ∧ ∃ place,
          IsLeast {place | Spot taken takenKids 0 16 0 0xffff 256 place} place ∧
        Installed taken takenKids 0 2 16 place result.2 := by
  have spot : Spot taken takenKids 0 16 0 0xffff 256 256 := by
    refine ⟨by decide, by decide, by decide, fun c listed => ?_⟩
    rw [List.mem_singleton.mp listed]
    decide
  have power : (256 : U32).toNat = 2 ^ 8 := by decide
  refine (allocateResource_lowest taken_kept rfl (by decide) (by decide) power).mono ?_
  rintro result ⟨exactly, lowest, -⟩
  have done := exactly.mpr ⟨256, spot⟩
  exact ⟨done, lowest done⟩

end RouterKernel.Resources
