import RouterKernel.MemoryBlocks.FreeRanges

/-!
Contract: the queries of mm/memblock.c about single addresses.

Owns:
- `memblock_search`, `memblock_is_memory` and `memblock_is_reserved`;
- that they agree with the iteration over the free ranges.
-/

namespace RouterKernel.MemoryBlocks

/-- The loop of `memblock_search`, which tests `left < right` behind its body. -/
def searchLoop (regions : List MemblockRegion) (addr left right : Nat) : Option Nat :=
  let mid := (right + left) / 2
  if addr < (regionAt regions mid).base then if left < mid then searchLoop regions addr left mid
    else none
  else if (regionAt regions mid).rend ≤ addr then
    if mid + 1 < right then searchLoop regions addr (mid + 1) right else none
  else some mid
termination_by right - left

def memblockSearch (regions : List MemblockRegion) (addr : Nat) : Option Nat :=
  searchLoop regions addr 0 regions.length

def memblockIsReserved (memblock : Memblock) (addr : Nat) : Bool :=
  (memblockSearch memblock.reserved addr).isSome

def memblockIsMemory (memblock : Memblock) (addr : Nat) : Bool :=
  (memblockSearch memblock.memory addr).isSome

variable {regions : List MemblockRegion} {addr left right k : Nat}

theorem searchLoop_found (found : searchLoop regions addr left right = some k) :
    (regionAt regions k).base ≤ addr ∧ addr < (regionAt regions k).rend := by
  fun_induction searchLoop regions addr left right with
  | case1 _ _ _ _ _ ih => exact ih found
  | case2 => cases found
  | case3 _ _ _ _ _ _ ih => exact ih found
  | case4 => cases found
  | case5 left right mid low high =>
    obtain rfl : mid = k := Option.some.inj found
    exact ⟨not_lt.mp low, not_le.mp high⟩

theorem searchLoop_complete (live : Live regions) (inside : right ≤ regions.length) (low : left ≤ k)
    (high : k < right)
    (holds : (regionAt regions k).Holds addr) :
    (searchLoop regions addr left right).isSome = true := by
  obtain ⟨begins, ends⟩ := holds
  have place (mid : Nat) (bound : mid < regions.length) :
      k < mid ∧ addr < (regionAt regions mid).base ∨
      (regionAt regions mid).base ≤ addr ∧
        (k = mid ∧ addr < (regionAt regions mid).rend ∨ mid < k ∧ (regionAt regions mid).rend ≤
          addr) := by
    rw [live.rend_eq (regionAt_mem bound)]
    rcases lt_trichotomy k mid with less | rfl | later
    · have := pairwise_regionAt live.apart less bound
      omega
    · omega
    · have := pairwise_regionAt live.apart later (by omega)
      omega
  fun_induction searchLoop regions addr left right with
  | case1 left right mid below more ih =>
    have := place mid (by omega)
    exact ih (by omega) low (by omega)
  | case2 left right mid below none =>
    have := place mid (by omega)
    omega
  | case3 left right mid _ above more ih =>
    have := place mid (by omega)
    exact ih inside (by omega) high
  | case4 left right mid _ above none =>
    have := place mid (by omega)
    omega
  | case5 => rfl

theorem memblockSearch_isSome_iff (kept : Placeholder regions ∨ Live regions) (addr : Nat) :
    (memblockSearch regions addr).isSome = true ↔ ∃ rgn ∈ regions, rgn.Holds addr := by
  constructor
  · intro some
    obtain ⟨k, found⟩ := Option.isSome_iff_exists.mp some
    obtain ⟨low, high⟩ := searchLoop_found found
    by_cases inside : k < regions.length
    · have listed := regionAt_mem inside
      refine ⟨_, listed, low, ?_⟩
      rcases kept with ⟨nid, rfl⟩ | live
      · rw [List.mem_singleton.mp listed] at high ⊢
        exact high
      · rwa [live.rend_eq listed] at high
    · rw [regionAt, List.getD_eq_getElem?_getD, List.getElem?_eq_none (not_lt.mp inside),
        Option.getD_none] at high
      exact absurd high (Nat.not_lt_zero addr)
  · rintro ⟨rgn, listed, holds⟩
    rcases kept with ⟨nid, rfl⟩ | live
    · rw [List.mem_singleton.mp listed] at holds
      exact absurd holds.2 (Nat.not_lt_zero addr)
    · obtain ⟨k, bound, rfl⟩ := exists_regionAt listed
      exact searchLoop_complete live le_rfl (Nat.zero_le k) bound holds

/-- The iteration over the free ranges passes exactly the addresses that the two queries tell to be
memory and not reserved. -/
theorem freeRanges_agree_queries {memblock : Memblock} (wellFormed : WellFormed memblock)
    {fuel : Nat}
    (enough : memblock.memory.length + memblock.reserved.length + 1 < fuel) :
    ∃ ranges, forEachFreeMemRange memblock MAX_NUMNODES fuel = some ranges ∧ ∀ addr,
      (∃ range ∈ ranges, range.start ≤ addr ∧ addr < range.stop) ↔
        memblockIsMemory memblock addr = true ∧ memblockIsReserved memblock addr = false := by
  obtain ⟨ranges, visited, -, free⟩ := freeRanges_visited wellFormed MAX_NUMNODES enough
  refine ⟨ranges, visited, fun addr => ?_⟩
  have reserved := memblockSearch_isSome_iff (wellFormed.reserved.imp_right And.left) addr
  rw [free.covers, memblockIsMemory, memblockSearch_isSome_iff wellFormed.memory,
      memblockIsReserved,
    ← Bool.not_eq_true, reserved]
  simp [selected]

theorem freeRanges_agree_queries_twoBanks : ∃ ranges, forEachFreeMemRange twoBanks MAX_NUMNODES 6 =
    some ranges ∧ ∀ addr,
    (∃ range ∈ ranges, range.start ≤ addr ∧ addr < range.stop) ↔
      memblockIsMemory twoBanks addr = true ∧ memblockIsReserved twoBanks addr = false :=
  freeRanges_agree_queries twoBanks_wellFormed (by decide)

end RouterKernel.MemoryBlocks
