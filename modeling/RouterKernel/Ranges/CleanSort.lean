import RouterKernel.Foundation.Heaps
import RouterKernel.Ranges.Subtract

/-!
Contract: cleaning and sorting the arrays of ranges of `kernel/range.c`.

Owns:
- `sort` of `lib/sort.c`, for any elements and any comparison;
- `cmp_range` and `clean_sort_range`;
- what `sort` does for a comparison that agrees with an order;
- what is left in the array, and when it is in order.

Does not own: the heap order itself (`Foundation.Heaps`).

`sort` counts in bytes; the indices here are those of the elements.
-/

namespace RouterKernel.Ranges

open RouterKernel.Foundation

/-! ## `sort` -/

section Sorting

variable {α : Type}

/-- `swap_func`. -/
def swapAt (base : Nat → α) (i j : Nat) : Nat → α :=
  Function.update (Function.update base i (base j)) j (base i)

/-- The inner loop of `sort` on the first `n` elements, from `r` on.  It goes down by at least one
each time, so `n` turns are enough. -/
def siftDown (cmp : α → α → Int) : (turns : Nat) → (Nat → α) → (r n : Nat) → Nat → α
  | 0, base, _, _ => base
  | turns + 1, base, r, n =>
    if r * 2 + 1 < n then
      let c := r * 2 + 1
      let c := if c < n - 1 ∧ cmp (base c) (base (c + 1)) < 0 then c + 1 else c
      if cmp (base r) (base c) ≥ 0 then base else siftDown cmp turns (swapAt base r c) c n
    else base

/-- The loop that makes a heap, for the positions below `i`. -/
def heapify (cmp : α → α → Int) (n : Nat) : (i : Nat) → (Nat → α) → Nat → α
  | 0, base => base
  | i + 1, base => heapify cmp n i (siftDown cmp n base i n)

/-- The loop that takes the elements out of the heap, from `i` down. -/
def extract (cmp : α → α → Int) : (i : Nat) → (Nat → α) → Nat → α
  | 0, base => base
  | i + 1, base => extract cmp i (siftDown cmp (i + 1) (swapAt base 0 (i + 1)) 0 (i + 1))

def sort (cmp : α → α → Int) (base : Nat → α) (num : Nat) : Nat → α :=
  extract cmp (num - 1) (heapify cmp num (num / 2) base)

variable {cmp : α → α → Int} {base : Nat → α} {n : Nat}

/-- The child that an element is compared with. -/
def greaterChild (cmp : α → α → Int) (base : Nat → α) (r n : Nat) : Nat :=
  if r * 2 + 1 < n - 1 ∧ cmp (base (r * 2 + 1)) (base (r * 2 + 1 + 1)) < 0 then r * 2 + 1 + 1
    else r * 2 + 1

theorem siftDown_succ (turns : Nat) (base : Nat → α) (r n : Nat) :
    siftDown cmp (turns + 1) base r n =
      if r * 2 + 1 < n then
        if cmp (base r) (base (greaterChild cmp base r n)) ≥ 0 then base
        else siftDown cmp turns (swapAt base r (greaterChild cmp base r n))
          (greaterChild cmp base r n) n
      else base :=
  rfl

variable {r i : Nat}

theorem isChild_greaterChild (inner : r * 2 + 1 < n) :
    IsChild r (greaterChild cmp base r n) ∧ greaterChild cmp base r n < n := by
  rw [greaterChild]
  split
  · exact ⟨Or.inr rfl, by omega⟩
  · exact ⟨Or.inl rfl, inner⟩

theorem rearranged_siftDown (turns : Nat) (base : Nat → α) (r n : Nat) :
    Rearranged n base (siftDown cmp turns base r n) := by
  induction turns generalizing base r with
  | zero => exact Rearranged.refl n base
  | succ turns ih =>
    rw [siftDown_succ]
    by_cases inner : r * 2 + 1 < n
    · rw [if_pos inner]
      split
      · exact Rearranged.refl n base
      · exact (rearranged_swap base (by omega) (isChild_greaterChild inner).2).trans (ih _ _)
    · rw [if_neg inner]
      exact Rearranged.refl n base

theorem rearranged_heapify (i : Nat) (base : Nat → α) :
    Rearranged n base (heapify cmp n i base) := by
  induction i generalizing base with
  | zero => exact Rearranged.refl n base
  | succ i ih => exact (rearranged_siftDown n base i n).trans (ih _)

theorem rearranged_extract (i : Nat) (base : Nat → α) :
    Rearranged (i + 1) base (extract cmp i base) := by
  induction i generalizing base with
  | zero => exact Rearranged.refl 1 base
  | succ i ih =>
    have sifted : Rearranged (i + 1) _ (siftDown cmp (i + 1) (swapAt base 0 (i + 1)) 0 (i + 1)) :=
      rearranged_siftDown (i + 1) (swapAt base 0 (i + 1)) 0 (i + 1)
    exact (rearranged_swap base (by omega) (by omega)).trans
      ((sifted.mono (by omega)).trans ((ih _).mono (by omega)))

/-- `sort` permutes the elements, whatever the comparison. -/
theorem rearranged_sort (base : Nat → α) (num : Nat) : Rearranged num base (sort cmp base num) := by
  rw [sort]
  cases num with
  | zero => exact Rearranged.refl 0 base
  | succ num => exact (rearranged_heapify _ base).trans (rearranged_extract num _)

/-- The comparison agrees with the order of the keys on the elements. -/
def Agrees (cmp : α → α → Int) (key : α → Nat) (base : Nat → α) (n : Nat) : Prop :=
  ∀ i < n, ∀ j < n, cmp (base i) (base j) < 0 ↔ key (base i) < key (base j)

variable {key : α → Nat}

theorem Agrees.rearranged {after : Nat → α} (agrees : Agrees cmp key base n)
    (rearranged : Rearranged n base after) :
    Agrees cmp key after n := by
  intro i inside j insideOther
  obtain ⟨k, insideK, sameK⟩ := rearranged.source inside
  obtain ⟨m, insideM, sameM⟩ := rearranged.source insideOther
  rw [sameK, sameM]
  exact agrees k insideK m insideM

theorem greaterChild_greatest (agrees : Agrees cmp key base n) (inner : r * 2 + 1 < n) :
    ∀ other < n, IsChild r other → key (base other) ≤ key (base (greaterChild cmp base r n)) := by
  rw [greaterChild]
  by_cases second : r * 2 + 1 < n - 1 ∧ cmp (base (r * 2 + 1)) (base (r * 2 + 1 + 1)) < 0
  · rw [if_pos second]
    have greater := (agrees _ inner _ (by omega)).mp second.2
    rintro other inside (rfl | rfl)
    · exact greater.le
    · exact le_refl _
  · rw [if_neg second]
    rintro other inside (rfl | rfl)
    · exact le_refl _
    · have notLess : ¬ key (base (r * 2 + 1)) < key (base (r * 2 + 2)) := fun less =>
        second ⟨by omega, (agrees _ inner _ inside).mpr less⟩
      exact not_lt.mp notLess

theorem isHeap_siftDown {low turns : Nat} (agrees : Agrees cmp key base n)
    (sifting : Sifting key base low n r)
    (above : low ≤ r) (enough : n ≤ r + turns) :
    IsHeap key (siftDown cmp turns base r n) low n := by
  induction turns generalizing base r with
  | zero => exact sifting.leaf (by omega)
  | succ turns ih =>
    rw [siftDown_succ]
    by_cases inner : r * 2 + 1 < n
    · rw [if_pos inner]
      obtain ⟨isChild, inside⟩ := isChild_greaterChild inner
      have greatest := greaterChild_greatest agrees inner
      set c := greaterChild cmp base r n
      have compared := agrees r (by omega) c inside
      by_cases settled : cmp (base r) (base c) ≥ 0
      · rw [if_pos settled]
        have notLess : ¬ key (base r) < key (base c) :=
          fun less => absurd (compared.mpr less) (not_lt.mpr settled)
        exact sifting.finish fun other insideOther isOther =>
          (greatest other insideOther isOther).trans (not_lt.mp notLess)
      · rw [if_neg settled]
        have below : r < c := by
          rw [IsChild] at isChild
          omega
        exact ih (agrees.rearranged (rearranged_swap base (by omega) inside))
          (sifting.move above inside isChild greatest (compared.mp (not_le.mp settled)).le)
            (by omega) (by omega)
    · rw [if_neg inner]
      exact sifting.leaf (not_lt.mp inner)

theorem isHeap_heapify (agrees : Agrees cmp key base n) (heap : IsHeap key base i n) :
    IsHeap key (heapify cmp n i base) 0 n := by
  induction i generalizing base with
  | zero => exact heap
  | succ i ih =>
    rw [heapify]
    exact ih (agrees.rearranged (rearranged_siftDown n base i n))
      (isHeap_siftDown agrees heap.sifting (le_refl i) (by omega))

/-- The first `i + 1` elements are a heap, and the others are in order and above them. -/
structure Extracting (key : α → Nat) (base : Nat → α) (n i : Nat) : Prop where
  heap : IsHeap key base 0 (i + 1)
  above : ∀ k ≤ i, ∀ m, i < m → m < n → key (base k) ≤ key (base m)
  ordered : ∀ k m, i < k → k ≤ m → m < n → key (base k) ≤ key (base m)

theorem Extracting.turn (agrees : Agrees cmp key base n) (inside : i + 1 < n)
    (state : Extracting key base n (i + 1)) :
    Extracting key (siftDown cmp (i + 1) (swapAt base 0 (i + 1)) 0 (i + 1)) n i := by
  set swapped := swapAt base 0 (i + 1) with swappedDef
  have atTop : swapped (i + 1) = base 0 := Function.update_self _ _ _
  have atOther (k : Nat) (positive : k ≠ 0) (below : k ≠ i + 1) : swapped k = base k := by
    rw [swappedDef, swapAt, Function.update_of_ne below, Function.update_of_ne positive]
  have rearranged : Rearranged (i + 1) swapped (siftDown cmp (i + 1) swapped 0 (i + 1)) :=
    rearranged_siftDown (i + 1) swapped 0 (i + 1)
  have swapSource (k : Nat) (bounded : k ≤ i) : ∃ m ≤ i + 1, swapped k = base m := by
    by_cases top : k = 0
    · refine ⟨i + 1, le_refl _, ?_⟩
      rw [top, swappedDef, swapAt, Function.update_of_ne (Nat.succ_ne_zero i).symm,
        Function.update_self]
    · exact ⟨k, by omega, atOther k top (by omega)⟩
  have source (k : Nat) (bounded : k ≤ i) : ∃ m ≤ i + 1, siftDown cmp (i + 1) swapped 0 (i + 1) k =
      base m := by
    obtain ⟨j, insideJ, same⟩ := rearranged.source (Nat.lt_succ_of_le bounded)
    rw [same]
    exact swapSource j (Nat.le_of_lt_succ insideJ)
  refine ⟨?_, ?_, ?_⟩
  · refine isHeap_siftDown ?_ ?_ (le_refl 0) (by omega)
    · intro k insideK m insideM
      have whole := agrees.rearranged (rearranged_swap base (show 0 < n by omega) inside)
      exact whole k (by omega) m (by omega)
    · refine ⟨fun parent child _ insideChild isChild differs => ?_, fun parent child _ isParent =>
        ?_⟩
      · have child0 : child ≠ 0 := by
          rw [IsChild] at isChild
          omega
        have parentInside : parent < child := by
          rw [IsChild] at isChild
          omega
        rw [atOther child child0 (by omega), atOther parent differs (by omega)]
        exact state.heap parent child (Nat.zero_le _) (by omega) isChild
      · rw [IsChild] at isParent
        omega
  · intro k bounded m beyond insideM
    obtain ⟨j, boundedJ, same⟩ := source k bounded
    rw [same, rearranged.outside (by omega)]
    by_cases first : m = i + 1
    · rw [first, atTop]
      exact state.heap.le_root (by omega)
    · rw [atOther m (by omega) first]
      exact state.above j boundedJ m (by omega) insideM
  · intro k m beyond order insideM
    rw [rearranged.outside (by omega), rearranged.outside (by omega)]
    by_cases first : k = i + 1
    · rw [first, atTop]
      by_cases same : m = i + 1
      · rw [same, atTop]
      · rw [atOther m (by omega) same]
        exact state.above 0 (Nat.zero_le _) m (by omega) insideM
    · rw [atOther k (by omega) first, atOther m (by omega) (by omega)]
      exact state.ordered k m (by omega) order insideM

theorem ordered_extract (agrees : Agrees cmp key base n) (inside : i < n)
    (state : Extracting key base n i)
    (k m : Nat) (order : k ≤ m) (bound : m < n) :
    key (extract cmp i base k) ≤ key (extract cmp i base m) := by
  induction i generalizing base with
  | zero =>
    rw [extract]
    by_cases positive : 0 < k
    · exact state.ordered k m positive order bound
    by_cases same : m = 0
    · rw [same, show k = 0 by omega]
    · exact state.above k (by omega) m (by omega) bound
  | succ i ih =>
    rw [extract]
    have rearranged : Rearranged n base (siftDown cmp (i + 1) (swapAt base 0 (i + 1)) 0 (i + 1)) :=
      (rearranged_swap base (by omega) inside).trans ((rearranged_siftDown _ _ _ _).mono (by omega))
    exact ih (agrees.rearranged rearranged) (by omega) (state.turn agrees inside)

/-- `sort` with a comparison that agrees with an order puts the elements in that order. -/
theorem sort_ordered {num : Nat} (agrees : Agrees cmp key base num) (k m : Nat) (order : k ≤ m)
    (bound : m < num) :
    key (sort cmp base num k) ≤ key (sort cmp base num m) := by
  have heap : IsHeap key (heapify cmp num (num / 2) base) 0 num := by
    refine isHeap_heapify agrees fun parent child above inside isChild => ?_
    rw [IsChild] at isChild
    omega
  have whole : num - 1 + 1 = num := by omega
  refine ordered_extract (agrees.rearranged (rearranged_heapify _ base)) (by omega) ⟨?_, ?_,
    ?_⟩ k m order bound
  · rw [whole]
    exact heap
  · intro _ _ m beyond inside
    omega
  · intro k m beyond _ inside
    omega

/-- `sort` sorts by every comparison that agrees with a linear order of some keys.  The number of
elements below one is a key of the kind that the heap is ordered by. -/
theorem sort_sorts {β : Type} [LinearOrder β] (key : α → β) {num : Nat}
    (agrees : ∀ i < num, ∀ j < num, cmp (base i) (base j) < 0 ↔ key (base i) < key (base j)) :
    Rearranged num base (sort cmp base num) ∧
      ∀ k m, k ≤ m → m < num → key (sort cmp base num k) ≤ key (sort cmp base num m) := by
  let below (x : α) : Finset Nat := (Finset.range num).filter fun i => key (base i) < key x
  let rank (x : α) : Nat := (below x).card
  have mono {x y : α} (le : key x ≤ key y) : below x ⊆ below y :=
    Finset.monotone_filter_right _ fun _ _ less => less.trans_le le
  have ranked {i : Nat} (inside : i < num) (x : α) :
      key (base i) < key x ↔ rank (base i) < rank x := by
    constructor
    · intro less
      apply Finset.card_lt_card
      apply (Finset.ssubset_iff_of_subset (mono less.le)).mpr
      exact ⟨i, by simp [below, inside, less], by simp [below]⟩
    · intro less
      by_contra above
      exact absurd less (not_lt.mpr (Finset.card_le_card (mono (not_lt.mp above))))
  have agree : Agrees cmp rank base num :=
    fun i inside j bound => (agrees i inside j bound).trans (ranked inside _)
  have rearranged : Rearranged num base (sort cmp base num) := rearranged_sort base num
  refine ⟨rearranged, fun k m order bound => ?_⟩
  have ordered := sort_ordered agree k m order bound
  obtain ⟨j, inside, same⟩ := rearranged.source bound
  rw [same] at ordered ⊢
  exact not_lt.mp (mt (ranked inside _).mp (not_lt.mpr ordered))

theorem sort_sorts_falling :
    sort (fun a b : Int => a - b) (fun i => 7 - i) 9 3 ≤ sort
      (fun a b : Int => a - b) (fun i => 7 - i) 9 5 :=
  (sort_sorts (fun a => a) fun _ _ _ _ => sub_neg).2 3 5 (by decide) (by decide)

end Sorting

/-! ## `clean_sort_range` -/

/-- `cmp_range`: the 64-bit difference, returned as an `int`. -/
def cmpRange (r1 r2 : Range) : Int := ((r1.start - r2.start).setWidth 32).toInt

/-- The search for the last used entry above `i`, from `j` down; `none` where `j` arrives at `i`. -/
def lastUsed (range : Nat → Range) (i : Nat) : (j : Nat) → Option Nat
  | 0 => none
  | j + 1 =>
    if j + 1 ≤ i then none
    else if (range (j + 1)).stop ≠ 0 then some (j + 1) else lastUsed range i j

/-- The loop that moves used entries to the front. -/
def compact : (turns : Nat) → (Nat → Range) → (i k : Nat) → Nat → Range
  | 0, range, _, _ => range
  | turns + 1, range, i, k =>
    if i < k then
      if (range i).stop ≠ 0 then compact turns range (i + 1) k
      else
        match lastUsed range i k with
        | none => range
        | some k => compact turns (Function.update (Function.update range i (range k)) k ⟨0, 0⟩)
          (i + 1) (k - 1)
    else range

/-- `clean_sort_range`: the number of used entries and the array. -/
def cleanSortRange (range : Nat → Range) (az : Nat) : Nat × (Nat → Range) :=
  let range := compact az range 0 (az - 1)
  let nrRange := spareFrom range az 0
  (nrRange, sort cmpRange range nrRange)

def usedEntry (r : Range) : Option Range := if r.stop = 0 then none else some r

def used (range : Nat → Range) (az : Nat) : List Range := (List.range az).filterMap fun i =>
    usedEntry (range i)

theorem lastUsed_spec (range : Nat → Range) (i j : Nat) :
    (∀ k, lastUsed range i j = some k → i < k ∧ k ≤ j ∧ (range k).stop ≠ 0) ∧
      ∀ m, i < m → m ≤ j → (∀ k, lastUsed range i j = some k → k < m) → (range m).stop = 0 := by
  induction j with
  | zero => exact ⟨fun k found => (by cases found), fun m above bounded => by omega⟩
  | succ j ih =>
    rw [lastUsed]
    by_cases ended : j + 1 ≤ i
    · rw [if_pos ended]
      exact ⟨fun k found => (by cases found), fun m above bounded => by omega⟩
    rw [if_neg ended]
    by_cases inUse : (range (j + 1)).stop ≠ 0
    · rw [if_pos inUse]
      refine ⟨fun k found => ?_, fun m above bounded beyond => ?_⟩
      · cases found
        exact ⟨by omega, le_refl _, inUse⟩
      · have less := beyond _ rfl
        omega
    · rw [if_neg inUse]
      refine ⟨fun k found => ?_, fun m above bounded beyond => ?_⟩
      · obtain ⟨low, high, useK⟩ := ih.1 k found
        exact ⟨low, by omega, useK⟩
      · by_cases top : m = j + 1
        · rw [top]
          exact not_not.mp inUse
        · exact ih.2 m above (by omega) beyond

/-- The loop has passed used entries only, and above `k` there are none. -/
structure Compacting (range : Nat → Range) (az i k : Nat) : Prop where
  front : ∀ m < i, m < az → (range m).stop ≠ 0
  back : ∀ m, k < m → m < az → (range m).stop = 0

def Compact (range : Nat → Range) (az : Nat) : Prop :=
  ∀ m k, m < k → k < az → (range k).stop ≠ 0 → (range m).stop ≠ 0

variable {range : Nat → Range} {az i k : Nat}

theorem Compacting.compact (state : Compacting range az i k)
    (empty : ∀ m, i < m → m ≤ k → m < az → (range m).stop = 0) : Compact range az := by
  intro m j order bound useJ
  have notBeyond : ¬ k < j := fun beyond => useJ (state.back j beyond bound)
  have notBehind : ¬ i < j := fun behind => useJ (empty j behind (by omega) bound)
  exact state.front m (by omega) (by omega)

def moveEntry (range : Nat → Range) (i j : Nat) : Nat → Range :=
  Function.update (Function.update range i (range j)) j ⟨0, 0⟩

theorem used_moveEntry {j : Nat} (inside : i < az) (insideJ : j < az)
    (empty : (range i).stop = 0) : (used (moveEntry range i j) az).Perm (used range az) := by
  have swapped := (rearranged_swap range inside insideJ).filterMap_perm usedEntry
  refine List.Perm.trans (List.Perm.of_eq (List.filterMap_congr fun m _ => ?_)) swapped
  rw [moveEntry]
  by_cases here : m = j
  · rw [here, Function.update_self, Function.update_self, usedEntry, usedEntry, if_pos rfl,
      if_pos empty]
  · rw [Function.update_of_ne here, Function.update_of_ne here]

theorem Compacting.move {j : Nat} (state : Compacting range az i k) (above : i < j)
    (inUse : (range j).stop ≠ 0)
    (empty : ∀ m, j < m → m ≤ k → (range m).stop = 0) :
    Compacting (moveEntry range i j) az (i + 1) (j - 1) := by
  constructor
  · intro m below bound
    rw [moveEntry, Function.update_of_ne (by omega)]
    by_cases here : m = i
    · rw [here, Function.update_self]
      exact inUse
    · rw [Function.update_of_ne here]
      exact state.front m (by omega) bound
  · intro m beyond bound
    rw [moveEntry]
    by_cases here : m = j
    · rw [here, Function.update_self]
    · rw [Function.update_of_ne here, Function.update_of_ne (by omega)]
      by_cases old : k < m
      · exact state.back m old bound
      · exact empty m (by omega) (by omega)

theorem compact_spec {turns : Nat} (state : Compacting range az i k) (inside : i < k → k < az)
    (enough : k ≤ i + turns) :
    Compact (compact turns range i k) az ∧
      (used (compact turns range i k) az).Perm (used range az) := by
  induction turns generalizing range i k with
  | zero => exact ⟨state.compact fun m above bounded => by omega, List.Perm.refl _⟩
  | succ turns ih =>
    rw [compact]
    by_cases more : i < k
    swap
    · rw [if_neg more]
      exact ⟨state.compact fun m above bounded => by omega, List.Perm.refl _⟩
    rw [if_pos more]
    have bound := inside more
    by_cases inUse : (range i).stop ≠ 0
    · rw [if_pos inUse]
      refine ih ⟨fun m below bound => ?_, state.back⟩ (fun _ => bound) (by omega)
      by_cases here : m = i
      · exact here ▸ inUse
      · exact state.front m (by omega) bound
    · rw [if_neg inUse]
      obtain ⟨found, empties⟩ := lastUsed_spec range i k
      cases last : lastUsed range i k with
      | none =>
        refine ⟨state.compact fun m above bounded _ => empties m above bounded fun j same => ?_,
          List.Perm.refl _⟩
        rw [last] at same
        cases same
      | some j =>
        obtain ⟨above, bounded, useJ⟩ := found j last
        have next := state.move above useJ fun m beyond boundedM =>
            empties m (by omega) boundedM fun other same => by
          rw [last, Option.some.injEq] at same
          omega
        obtain ⟨packed, permuted⟩ := ih next (fun _ => by omega) (by omega)
        exact ⟨packed, permuted.trans (used_moveEntry (by omega) (by omega) (not_not.mp inUse))⟩

theorem spareFrom_used (range : Nat → Range) (count i : Nat) :
    spareFrom range count i ≤ i + count ∧ ∀ k, i ≤ k → k < spareFrom range count i →
      (range k).stop ≠ 0 := by
  induction count generalizing i with
  | zero =>
    rw [spareFrom]
    exact ⟨le_refl _, fun k low high => by omega⟩
  | succ count ih =>
    rw [spareFrom]
    by_cases empty : (range i).stop = 0
    · rw [if_pos empty]
      exact ⟨by omega, fun k low high => by omega⟩
    · rw [if_neg empty]
      obtain ⟨bounded, inUse⟩ := ih (i + 1)
      refine ⟨by omega, fun k low high => ?_⟩
      by_cases here : k = i
      · exact here ▸ empty
      · exact inUse k (by omega) high

theorem used_of_front {n : Nat} (bounded : n ≤ az) (front : ∀ k < n, (range k).stop ≠ 0)
    (back : ∀ k, n ≤ k → k < az → (range k).stop = 0) :
      used range az = (List.range n).map range := by
  obtain ⟨rest, rfl⟩ := Nat.exists_eq_add_of_le bounded
  rw [used, List.range_add, List.filterMap_append]
  have first : ((List.range n).filterMap fun i => usedEntry (range i)) =
      (List.range n).map range := by
    rw [← List.filterMap_eq_map]
    refine List.filterMap_congr fun k listed => ?_
    rw [usedEntry, if_neg (front k (List.mem_range.mp listed))]
    rfl
  have second : (((List.range rest).map (n + ·)).filterMap fun i => usedEntry (range i)) = [] := by
    refine List.filterMap_eq_nil_iff.mpr fun k listed => ?_
    obtain ⟨m, listedM, rfl⟩ := List.mem_map.mp listed
    rw [usedEntry, if_pos (back _ (by omega) (by have := List.mem_range.mp listedM; omega))]
  rw [first, second, List.append_nil]

/-- What `clean_sort_range` leaves: the used entries, all in front, and in the order of their
starts if `cmp_range` gives the right sign on every two of them. -/
theorem cleanSortRange_cleans (range : Nat → Range) (az : Nat) :
    (cleanSortRange range az).1 = (used range az).length ∧
      ((List.range (cleanSortRange range az).1).map (cleanSortRange range az).2).Perm
        (used range az) ∧
      (∀ i, (cleanSortRange range az).1 ≤ i → i < az → ((cleanSortRange range az).2 i).stop = 0) ∧
      ((∀ r1 ∈ used range az, ∀ r2 ∈ used range az, cmpRange r1 r2 < 0 ↔ r1.start < r2.start) →
        ((List.range (cleanSortRange range az).1).map (cleanSortRange range az).2).Pairwise
          fun r1 r2 => r1.start ≤ r2.start) := by
  have start : Compacting range az 0 (az - 1) :=
    ⟨fun m below => absurd below (Nat.not_lt_zero m), fun m beyond bound => by omega⟩
  obtain ⟨packed, permuted⟩ : Compact (compact az range 0 (az - 1)) az ∧
      (used (compact az range 0 (az - 1)) az).Perm (used range az) :=
    compact_spec start (fun more => by omega) (by omega)
  set packedRange := compact az range 0 (az - 1)
  set n := spareFrom packedRange az 0 with nDef
  have result : cleanSortRange range az = (n, sort cmpRange packedRange n) := rfl
  obtain ⟨bounded, front⟩ := spareFrom_used packedRange az 0
  rw [← nDef, Nat.zero_add] at bounded
  have back (k : Nat) (beyond : n ≤ k) (bound : k < az) : (packedRange k).stop = 0 := by
    by_contra inUse
    have empty := (spareFrom_spec packedRange az 0).1 (by omega)
    by_cases same : k = n
    · exact inUse (same ▸ empty)
    · exact packed n k (by omega) bound inUse empty
  have listed := used_of_front bounded (fun k below => front k (Nat.zero_le k) below) back
  have rearranged : Rearranged n packedRange (sort cmpRange packedRange n) :=
    rearranged_sort packedRange n
  have sorted : ((List.range n).map (sort cmpRange packedRange n)).Perm (used range az) := by
    have moved : ((List.range n).map (sort cmpRange packedRange n)).Perm
        ((List.range n).map packedRange) := by
      rw [← List.filterMap_eq_map, ← List.filterMap_eq_map]
      exact rearranged.filterMap_perm some
    exact moved.trans (listed ▸ permuted)
  rw [result]
  refine ⟨?_, sorted, ?_, ?_⟩
  · rw [← sorted.length_eq, List.length_map, List.length_range]
  · intro i beyond bound
    exact (congrArg Range.stop (rearranged.outside beyond)).trans (back i beyond bound)
  · intro signs
    have member (k : Nat) (inside : k < n) : packedRange k ∈ used range az := by
      refine permuted.mem_iff.mp ?_
      rw [listed]
      exact List.mem_map_of_mem (List.mem_range.mpr inside)
    have agrees : Agrees cmpRange (fun r => r.start.toNat) packedRange n :=
      fun i inside j insideJ =>
      signs _ (member i inside) _ (member j insideJ)
    rw [List.pairwise_map]
    refine (List.pairwise_lt_range).imp_of_mem fun {i j} _ listedJ less => ?_
    exact sort_ordered agrees i j less.le (List.mem_range.mp listedJ)

/-- Two starts that differ by `2 ^ 32` are equal for `cmp_range` and come out in the wrong order. -/
theorem cleanSortRange_reverses :
    let range : Nat → Range := fun i => if i = 0 then ⟨0, 1⟩ else ⟨0x100000000, 0x100000001⟩
    (List.range 2).map (cleanSortRange range 2).2 = [⟨0x100000000, 0x100000001⟩, ⟨0, 1⟩] := by
  decide

end RouterKernel.Ranges
