import Mathlib.Tactic

/-!
Contract: binary heaps in arrays, and arrays whose front is rearranged.

Owns:
- `Rearranged`, an array whose first `n` elements were permuted;
- `IsHeap`, no child above its parent, from a position on;
- `Sifting`, a heap but for one position, and how a sift moves that position down.

The array is the function from its indices; `key` gives the order.
-/

namespace RouterKernel.Foundation

variable {α : Type} {n : Nat} {before array after : Nat → α}

/-! ## Rearranging -/

/-- The first `n` elements are permuted, the others stay. -/
def Rearranged (n : Nat) (before after : Nat → α) : Prop :=
  ∃ move : Equiv.Perm Nat, (∀ i, n ≤ i → move i = i) ∧ after = before ∘ move

theorem Rearranged.refl (n : Nat) (array : Nat → α) : Rearranged n array array :=
  ⟨Equiv.refl Nat, fun _ _ => rfl, rfl⟩

theorem Rearranged.trans (first : Rearranged n before array) (second : Rearranged n array after) :
    Rearranged n before after := by
  obtain ⟨move, fixes, rfl⟩ := first
  obtain ⟨next, fixesNext, rfl⟩ := second
  refine ⟨next.trans move, fun i outside => ?_, rfl⟩
  rw [Equiv.trans_apply, fixesNext i outside, fixes i outside]

theorem Rearranged.mono {m : Nat} (rearranged : Rearranged n before after) (bounded : n ≤ m) :
    Rearranged m before after := by
  obtain ⟨move, fixes, same⟩ := rearranged
  exact ⟨move, fun i outside => fixes i (bounded.trans outside), same⟩

theorem rearranged_swap (array : Nat → α) {i j : Nat} (inside : i < n) (insideOther : j < n) :
    Rearranged n array (Function.update (Function.update array i (array j)) j (array i)) := by
  refine ⟨Equiv.swap i j, fun k outside => Equiv.swap_apply_of_ne_of_ne (by omega) (by omega), ?_⟩
  funext k
  by_cases second : k = j
  · rw [second, Function.update_self, Function.comp_apply, Equiv.swap_apply_right]
  rw [Function.update_of_ne second]
  by_cases first : k = i
  · rw [first, Function.update_self, Function.comp_apply, Equiv.swap_apply_left]
  · rw [Function.update_of_ne first, Function.comp_apply, Equiv.swap_apply_of_ne_of_ne first second]

theorem Rearranged.outside (rearranged : Rearranged n before after) {i : Nat} (bound : n ≤ i) :
    after i = before i := by
  obtain ⟨move, fixes, rfl⟩ := rearranged
  rw [Function.comp_apply, fixes i bound]

theorem fixing_lt_iff {move : Equiv.Perm Nat} (fixes : ∀ i, n ≤ i → move i = i) (i : Nat) :
    move i < n ↔ i < n := by
  constructor
  · intro inside
    by_contra bound
    exact bound (fixes i (not_lt.mp bound) ▸ inside)
  · intro inside
    by_contra bound
    have same : move i = i := move.injective (fixes (move i) (not_lt.mp bound))
    exact bound (same.symm ▸ inside)

theorem Rearranged.source (rearranged : Rearranged n before after) {i : Nat} (inside : i < n) :
    ∃ j < n, after i = before j := by
  obtain ⟨move, fixes, rfl⟩ := rearranged
  exact ⟨move i, (fixing_lt_iff fixes i).mpr inside, rfl⟩

theorem Rearranged.filterMap_perm {β : Type} (rearranged : Rearranged n before after)
    (pick : α → Option β) :
    ((List.range n).filterMap fun i => pick (after i)).Perm ((List.range n).filterMap fun i =>
      pick (before i)) := by
  obtain ⟨move, fixes, rfl⟩ := rearranged
  have moved : ((List.range n).map move).Perm (List.range n) := by
    refine (List.perm_ext_iff_of_nodup (List.nodup_range.map move.injective) List.nodup_range).mpr
      ?_
    intro i
    rw [List.mem_map, List.mem_range]
    constructor
    · rintro ⟨j, listed, rfl⟩
      exact (fixing_lt_iff fixes j).mpr (List.mem_range.mp listed)
    · intro inside
      refine ⟨move.symm i, List.mem_range.mpr ((fixing_lt_iff fixes _).mp ?_),
        move.apply_symm_apply i⟩
      rw [move.apply_symm_apply]
      exact inside
  have picked := moved.filterMap fun i => pick (before i)
  rw [List.filterMap_map] at picked
  exact picked

/-! ## Heaps -/

variable {key : α → Nat} {low root : Nat}

def IsChild (parent child : Nat) : Prop := child = parent * 2 + 1 ∨ child = parent * 2 + 2

/-- From `low` on no child is above its parent. -/
def IsHeap (key : α → Nat) (array : Nat → α) (low n : Nat) : Prop :=
  ∀ parent child, low ≤ parent → child < n → IsChild parent child →
    key (array child) ≤ key (array parent)

/-- A heap but for one position, which is not above its parent's other relations. -/
structure Sifting (key : α → Nat) (array : Nat → α) (low n root : Nat) : Prop where
  others : ∀ parent child, low ≤ parent → child < n → IsChild parent child → parent ≠ root →
    key (array child) ≤ key (array parent)
  grand : ∀ parent child, low ≤ parent → IsChild parent root → IsChild root child → child < n →
    key (array child) ≤ key (array parent)

theorem IsHeap.sifting (heap : IsHeap key array (low + 1) n) : Sifting key array low n low := by
  refine ⟨fun parent child above inside isChild differs =>
    heap parent child (by omega) inside isChild, ?_⟩
  intro parent child above isChild
  rw [IsChild] at isChild
  omega

theorem Sifting.finish (sifting : Sifting key array low n root)
    (settled : ∀ child < n, IsChild root child → key (array child) ≤ key (array root)) :
      IsHeap key array low n := by
  intro parent child above inside isChild
  by_cases here : parent = root
  · subst here
    exact settled child inside isChild
  · exact sifting.others parent child above inside isChild here

theorem Sifting.leaf (sifting : Sifting key array low n root) (childless : n ≤ root * 2 + 1) :
    IsHeap key array low n := by
  refine sifting.finish fun child inside isChild => ?_
  rw [IsChild] at isChild
  omega

/-- The position changes places with its greatest child. -/
theorem Sifting.move (sifting : Sifting key array low n root) (above : low ≤ root) {child : Nat}
    (inside : child < n)
    (isChild : IsChild root child)
    (greatest : ∀ other < n, IsChild root other → key (array other) ≤ key (array child))
    (less : key (array root) ≤ key (array child)) :
    Sifting key (Function.update (Function.update array root (array child)) child (array root)) low
      n child := by
  have below : root < child := by
    rw [IsChild] at isChild
    omega
  set after := Function.update (Function.update array root (array child)) child (array root)
    with afterDef
  have atChild : after child = array root := Function.update_self child _ _
  have atRoot : after root = array child := by
    rw [afterDef, Function.update_of_ne (Nat.ne_of_lt below), Function.update_self]
  have atOther (i : Nat) (notRoot : i ≠ root) (notChild : i ≠ child) : after i = array i := by
    rw [afterDef, Function.update_of_ne notChild, Function.update_of_ne notRoot]
  constructor
  · intro parent other aboveParent insideOther isOther differs
    by_cases isRoot : parent = root
    · subst isRoot
      rw [atRoot]
      by_cases same : other = child
      · rw [same, atChild]
        exact less
      · have notParent : other ≠ parent := by
          rw [IsChild] at isOther
          omega
        rw [atOther other notParent same]
        exact greatest other insideOther isOther
    · rw [atOther parent isRoot differs]
      by_cases otherRoot : other = root
      · rw [otherRoot, atRoot]
        exact sifting.grand parent child aboveParent (otherRoot ▸ isOther) isChild inside
      · have notChild : other ≠ child := by
          rw [IsChild] at isOther isChild
          omega
        rw [atOther other otherRoot notChild]
        exact sifting.others parent other aboveParent insideOther isOther isRoot
  · intro parent other aboveParent isParent isOther insideOther
    have isRoot : parent = root := by
      rw [IsChild] at isParent isChild
      omega
    have notRoot : other ≠ root := by
      rw [IsChild] at isOther
      omega
    have notChild : other ≠ child := by
      rw [IsChild] at isOther
      omega
    rw [isRoot, atRoot, atOther other notRoot notChild]
    exact sifting.others child other (by omega) insideOther isOther (by omega)

theorem IsHeap.le_root (heap : IsHeap key array 0 n) {i : Nat} (inside : i < n) :
    key (array i) ≤ key (array 0) := by
  induction i using Nat.strong_induction_on with
  | _ i ih =>
    by_cases top : i = 0
    · rw [top]
    · have isChild : IsChild ((i - 1) / 2) i := by
        rw [IsChild]
        omega
      exact (heap _ i (Nat.zero_le _) inside isChild).trans (ih ((i - 1) / 2) (by omega) (by omega))

end RouterKernel.Foundation
