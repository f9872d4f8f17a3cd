import RouterKernel.Foundation.Dyadic
import RouterKernel.Foundation.Words
import RouterKernel.MemoryBlocks.FreeRanges

/-!
Contract: boot-time allocation from the free ranges of mm/memblock.c.

Owns:
- `memblock_find_in_range_node`, the search from the highest free range down;
- `memblock_alloc_base_nid`, which rounds the size up and reserves what was found;
- that the search finds the highest suitable address, and when an allocation keeps off the
  reserved regions.

Does not own: `memblock_reserve`, apart from its result.
-/

namespace RouterKernel.MemoryBlocks

open RouterKernel.Foundation

def PAGE_SIZE : Nat := 4096

def MEMBLOCK_ALLOC_ACCESSIBLE : Nat := 0

def clamp (val lo hi : Nat) : Nat :=
  let val := if val < lo then lo else val
  if hi < val then hi else val

def roundUp (x y : U32) : U32 := ((x - 1) ||| (y - 1)) + 1

def roundDown (x y : U32) : U32 := x &&& ~~~(y - 1)

/-- The body of the loop of `memblock_find_in_range_node`. -/
def candidate (start stop size : Nat) (align : U32) (range : FreeRange) : Option Nat :=
  let thisStart := clamp range.start start stop
  let thisEnd := clamp range.stop start stop
  if thisEnd < size then none
  else
    let cand := (roundDown (BitVec.ofNat 32 (thisEnd - size)) align).toNat
    if thisStart ≤ cand then some cand else none

/-- An iteration that returns from its body, or 0 behind its end. -/
def searched (next : Nat → Option (Nat × Option FreeRange)) (body : FreeRange → Option Nat) :
    (calls : Nat) → (idx : Nat) → Option Nat
  | 0, _ => none
  | calls + 1, idx => do
    let (idx, range) ← next idx
    if idx = ULLONG_MAX then some 0
    else
      match range.bind body with
      | some found => some found
      | none => searched next body calls idx

def endOf (memblock : Memblock) (stop : Nat) : Nat :=
  if stop = MEMBLOCK_ALLOC_ACCESSIBLE then memblock.currentLimit else stop

def memblockFindInRangeNode (memblock : Memblock) (start stop size align : U32) (nid : Int)
    (fuel : Nat) : Option Nat :=
  let stop := endOf memblock stop.toNat
  let start := max start.toNat PAGE_SIZE
  let stop := max start stop
  searched (nextFreeMemRangeRev memblock nid fuel)
    (candidate start stop size.toNat align) fuel ULLONG_MAX

/-- `memblock_alloc_base_nid`, with what `memblock_reserve` returns. -/
def memblockAllocBaseNid (memblock : Memblock) (memblockReserve : Nat → Nat → Int)
    (size align maxAddr : U32) (nid : Int)
    (fuel : Nat) : Option Nat := do
  let size := roundUp size align
  let found ← memblockFindInRangeNode memblock 0 maxAddr size align nid fuel
  if found ≠ 0 ∧ memblockReserve found size.toNat = 0 then some found else some 0

/-! ## Areas -/

/-- Addresses inside one region of the node, none of them reserved. -/
def FreeArea (memblock : Memblock) (nid : Int) (a size : Nat) : Prop :=
  ∃ m ∈ memblock.memory, selected nid m = true ∧ m.base ≤ a ∧ a + size ≤ m.base + m.size ∧
    ∀ rgn ∈ memblock.reserved, ∀ address, a ≤ address → address < a + size → ¬ rgn.Holds address

structure Suitable (memblock : Memblock) (nid : Int) (start stop size align a : Nat) : Prop where
  aligned : align ∣ a
  low : max start PAGE_SIZE ≤ a
  high : a + size ≤ stop
  free : FreeArea memblock nid a size

structure Highest (suitable : Nat → Prop) (found : Nat) : Prop where
  zero_iff : found = 0 ↔ ∀ a, ¬ suitable a
  suits : found ≠ 0 → suitable found
  highest : ∀ a, suitable a → a ≤ found

section Areas

variable {memblock : Memblock} {nid : Int} {ranges : List FreeRange}

theorem WellFormed.same_region (wellFormed : WellFormed memblock) {m m' : MemblockRegion}
    (listed : m ∈ memblock.memory)
    (listed' : m' ∈ memblock.memory) {address : Nat} (holds : m.Holds address)
    (holds' : m'.Holds address) : m = m' := by
  rcases wellFormed.memory with ⟨node, same⟩ | live
  · rw [same, List.mem_singleton] at listed listed'
    rw [listed, listed']
  obtain ⟨i, inside, rfl⟩ := exists_regionAt listed
  obtain ⟨j, inside', rfl⟩ := exists_regionAt listed'
  obtain ⟨low, high⟩ := holds
  obtain ⟨low', high'⟩ := holds'
  rcases Nat.lt_trichotomy i j with before | rfl | behind
  · have apart := pairwise_regionAt live.apart before inside'
    omega
  · rfl
  · have apart := pairwise_regionAt live.apart behind inside
    omega

theorem FreeRanges.area_iff (wellFormed : WellFormed memblock)
    (free : FreeRanges memblock nid ranges) {a size : Nat}
    (positive : 0 < size) :
    FreeArea memblock nid a size ↔ ∃ range ∈ ranges, range.start ≤ a ∧ a + size ≤ range.stop := by
  constructor
  · rintro ⟨m, listed, chosen, base, fits, clear⟩
    have holds : m.Holds a := ⟨base, by omega⟩
    obtain ⟨range, listedRange, low, high⟩ := (free.covers a).mpr
      ⟨⟨m, listed, chosen, holds⟩, fun rgn reserved => clear rgn reserved a le_rfl (by omega)⟩
    refine ⟨range, listedRange, low, ?_⟩
    by_contra short
    -- the range would end before its region, at a reserved address
    obtain ⟨own, listedOwn, -, -, lowOwn, highOwn, -, ends⟩ := free.maximal range listedRange
    have same : own = m := wellFormed.same_region listedOwn listed ⟨by omega, by omega⟩ holds
    obtain ⟨rgn, reserved, blocked⟩ := ends (by rw [same]; omega)
    exact clear rgn reserved range.stop (by omega) (by omega) blocked
  · rintro ⟨range, listedRange, low, high⟩
    obtain ⟨m, listed, chosen, -, lowOwn, highOwn, -⟩ := free.maximal range listedRange
    refine ⟨m, listed, chosen, by omega, by omega, fun rgn reserved address above below => ?_⟩
    exact ((free.covers address).mp ⟨range, listedRange, by omega, by omega⟩).2 rgn reserved

theorem FreeArea.shorter {a size less : Nat} (area : FreeArea memblock nid a size)
    (fits : less ≤ size) :
    FreeArea memblock nid a less := by
  obtain ⟨m, listed, chosen, base, inside, clear⟩ := area
  exact ⟨m, listed, chosen, base,
    by omega, fun rgn reserved address above below => clear rgn reserved address above (by omega)⟩

theorem FreeRanges.stop_lt (wellFormed : WellFormed memblock)
    (free : FreeRanges memblock nid ranges) {range : FreeRange}
    (listed : range ∈ ranges) : range.stop < 2 ^ 32 := by
  obtain ⟨m, listedM, -, -, low, high, -⟩ := free.maximal range listed
  have filled := free.filled range listed
  rcases wellFormed.memory with ⟨node, same⟩ | live
  · rw [same, List.mem_singleton] at listedM
    subst listedM
    simp only at low high
    omega
  · have bounded := live.bounded m listedM
    rw [PHYS_ADDR_MAX] at bounded
    omega

end Areas

/-! ## Rounding -/

section Rounding

variable {x y : U32} {order : Nat}

theorem roundDown_toNat (power : y.toNat = 2 ^ order) :
    (roundDown x y).toNat = x.toNat / y.toNat * y.toNat := by
  rw [roundDown, and_not_pred x power, power]

theorem le_roundUp (power : y.toNat = 2 ^ order) (positive : 0 < x.toNat)
    (fits : x.toNat + y.toNat ≤ 2 ^ 32) :
    x.toNat ≤ (roundUp x y).toNat := by
  have apart : ((x - 1) &&& ~~~(y - 1)) &&& (y - 1) = 0 := by
    rw [BitVec.and_assoc, BitVec.and_comm (~~~(y - 1)), BitVec.and_not_self]
    exact BitVec.and_zero
  have split : (x - 1) ||| (y - 1) = ((x - 1) &&& ~~~(y - 1)) + (y - 1) := by
    rw [BitVec.add_eq_or_of_and_eq_zero _ _ apart]
    ext i inside
    simp only [BitVec.getElem_or, BitVec.getElem_and, BitVec.getElem_not]
    cases (x - 1)[i] <;> cases (y - 1)[i] <;> rfl
  have rounded : roundUp x y = ((x - 1) &&& ~~~(y - 1)) + y := by
    rw [roundUp, split, BitVec.add_assoc, BitVec.sub_add_cancel]
  have pred : (x - 1).toNat = x.toNat - 1 := by
    have one : (1 : U32).toNat = 1 := rfl
    rw [BitVec.toNat_sub, one]
    omega
  have quotient := Nat.div_add_mod (x.toNat - 1) (2 ^ order)
  rw [rounded, BitVec.toNat_add, and_not_pred (x - 1) power, pred, Nat.mul_comm _ (2 ^ order)]
  rw [power] at fits ⊢
  rw [Nat.mod_eq_of_lt (by omega)]
  omega

end Rounding

/-! ## The search -/

section Search

variable {start stop size : Nat} {align : U32} {order : Nat}

theorem clamp_eq (val : Nat) {lo hi : Nat} (order : lo ≤ hi) :
    clamp val lo hi = max lo (min val hi) := by
  rw [clamp]
  split <;> split <;> omega

def Fits (start stop size : Nat) (align : U32) (range : FreeRange) (a : Nat) : Prop :=
  align.toNat ∣ a ∧ start ≤ a ∧ a + size ≤ stop ∧ range.start ≤ a ∧ a + size ≤ range.stop

theorem candidate_highest (range : FreeRange) (power : align.toNat = 2 ^ order)
    (positive : 0 < size) (below : start ≤ stop)
    (small : start < 2 ^ 32 ∧ range.stop < 2 ^ 32) (filled : range.start < range.stop) :
    match candidate start stop size align range with
    | none => ∀ a, ¬ Fits start stop size align range a
    | some cand => Fits start stop size align range cand ∧ ∀ a, Fits start stop size align range a →
      a ≤ cand := by
  have thisStart := clamp_eq range.start below
  have thisEnd := clamp_eq range.stop below
  rw [candidate, thisStart, thisEnd]
  set e := max start (min range.stop stop)
  have bound : e - size < 2 ^ 32 := by omega
  have rounded : (roundDown (BitVec.ofNat 32 (e - size)) align).toNat =
      (e - size) / align.toNat * align.toNat := by
    rw [roundDown_toNat power, BitVec.toNat_ofNat, Nat.mod_eq_of_lt bound]
  have lower := Nat.div_mul_le_self (e - size) align.toNat
  -- whatever fits ends at the clamped end or before it, and is not above the rounded address
  have ends (a : Nat) (fits : Fits start stop size align range a) :
      size ≤ e ∧ a ≤ (e - size) / align.toNat * align.toNat := by
    obtain ⟨⟨count, rfl⟩, low, high, -, inside⟩ := fits
    refine ⟨by omega, ?_⟩
    have room : align.toNat * count ≤ e - size := by omega
    have positiveAlign : 0 < align.toNat := power ▸ Nat.two_pow_pos order
    rw [Nat.mul_comm align.toNat]
    exact Nat.mul_le_mul_right _ ((Nat.le_div_iff_mul_le positiveAlign).mpr (by rwa [Nat.mul_comm]))
  simp only
  by_cases short : e < size
  · rw [if_pos short]
    intro a fits
    exact absurd (ends a fits).1 (not_le.mpr short)
  rw [if_neg short, rounded]
  by_cases inside : max start (min range.start stop) ≤ (e - size) / align.toNat * align.toNat
  · rw [if_pos inside]
    exact ⟨⟨Nat.dvd_mul_left _ _, by omega, by omega, by omega, by omega⟩, fun a fits =>
      (ends a fits).2⟩
  · rw [if_neg inside]
    intro a fits
    have upper := (ends a fits).2
    obtain ⟨-, low, high, lowRange, -⟩ := fits
    omega

theorem searched_of_visited {next : Nat → Option (Nat × Option FreeRange)}
    (body : FreeRange → Option Nat) {calls idx : Nat}
    {ranges : List FreeRange} (visits : visited next calls idx = some ranges) :
    searched next body calls idx = some ((ranges.findSome? body).getD 0) := by
  induction calls generalizing idx ranges with
  | zero => cases visits
  | succ calls ih =>
    rw [visited] at visits
    rw [searched]
    cases called : next idx with
    | none =>
      rw [called] at visits
      cases visits
    | some result =>
      obtain ⟨idx', range⟩ := result
      rw [called] at visits
      simp only [Option.bind_eq_bind, Option.bind_some] at visits ⊢
      by_cases ended : idx' = ULLONG_MAX
      · rw [if_pos ended] at visits ⊢
        cases visits
        rfl
      · rw [if_neg ended] at visits ⊢
        cases later : visited next calls idx' with
        | none =>
          rw [later] at visits
          cases visits
        | some rest =>
          rw [later] at visits
          cases visits
          rw [ih later, List.findSome?_append]
          cases range with
          | none => rfl
          | some range =>
            simp only [Option.bind_some, Option.toList_some, List.findSome?_cons,
              List.findSome?_nil]
            cases body range <;> rfl

end Search

section Allocation

variable {memblock : Memblock} {nid : Int} {ranges : List FreeRange} {start stop size : Nat}
  {align : U32} {order : Nat}

/-- From the highest range down, the first candidate is the highest of all. -/
theorem findSome_highest (power : align.toNat = 2 ^ order) (positive : 0 < size)
    (below : start ≤ stop)
    (small : start < 2 ^ 32) (ascending : ranges.Pairwise fun left right => left.stop ≤ right.start)
    (proper : ∀ range ∈ ranges, range.start < range.stop ∧ range.stop < 2 ^ 32) :
    match ranges.reverse.findSome? (candidate start stop size align) with
    | none => ∀ a, ¬ ∃ range ∈ ranges, Fits start stop size align range a
    | some cand => (∃ range ∈ ranges, Fits start stop size align range cand) ∧
        ∀ a, (∃ range ∈ ranges, Fits start stop size align range a) → a ≤ cand := by
  have highest (range : FreeRange) (listed : range ∈ ranges) :=
    candidate_highest range power positive below ⟨small, (proper range listed).2⟩
      (proper range listed).1
  cases found : ranges.reverse.findSome? (candidate start stop size align) with
  | none =>
    rintro a ⟨range, listed, fits⟩
    have missed := List.findSome?_eq_none_iff.mp found range (List.mem_reverse.mpr listed)
    have none := highest range listed
    rw [missed] at none
    exact none a fits
  | some cand =>
    obtain ⟨above, range, under, split, taken, missed⟩ := List.findSome?_eq_some_iff.mp found
    have listed : range ∈ ranges := by
      rw [← List.mem_reverse, split]
      exact List.mem_append_right above List.mem_cons_self
    have best := highest range listed
    rw [taken] at best
    refine ⟨⟨range, listed, best.1⟩, ?_⟩
    rintro a ⟨other, listedOther, fits⟩
    rw [← List.mem_reverse, split, List.mem_append, List.mem_cons] at listedOther
    rcases listedOther with higher | rfl | lower
    · -- a higher range would have been taken
      have listedHigher : other ∈ ranges := by
        rw [← List.mem_reverse, split]
        exact List.mem_append_left _ higher
      have none := highest other listedHigher
      rw [missed other higher] at none
      exact absurd fits (none a)
    · exact best.2 a fits
    · have descending := List.pairwise_reverse.mpr ascending
      rw [split, List.pairwise_append, List.pairwise_cons] at descending
      have before := descending.2.1.1 other lower
      obtain ⟨-, -, -, lowCand, -⟩ := best.1
      obtain ⟨-, -, -, -, highA⟩ := fits
      omega

theorem memblockFindInRangeNode_highest (wellFormed : WellFormed memblock) (nid : Int)
    (start stop size align : U32)
    (positive : 0 < size.toNat) (power : align.toNat = 2 ^ order) {fuel : Nat}
    (enough : memblock.memory.length + memblock.reserved.length + 1 < fuel) :
    ∃ found, memblockFindInRangeNode memblock start stop size align nid fuel = some found ∧
      Highest (Suitable memblock nid start.toNat (endOf memblock stop.toNat) size.toNat align.toNat)
        found := by
  obtain ⟨ranges, -, visits, free⟩ := freeRanges_visited wellFormed nid enough
  set first := max start.toNat PAGE_SIZE with firstDef
  set last := endOf memblock stop.toNat
  have small : first < 2 ^ 32 := by
    have bound := start.isLt
    rw [PAGE_SIZE] at firstDef
    omega
  -- what fits into a range is what suits
  have suits (a : Nat) : Suitable memblock nid start.toNat last size.toNat align.toNat a ↔
      ∃ range ∈ ranges, Fits first (max first last) size.toNat align range a := by
    constructor
    · rintro ⟨aligned, low, high, area⟩
      obtain ⟨range, listed, begins, ends⟩ := (free.area_iff wellFormed positive).mp area
      exact ⟨range, listed, aligned, low, by omega, begins, ends⟩
    · rintro ⟨range, listed, aligned, low, high, begins, ends⟩
      exact ⟨aligned, low,
        by omega, (free.area_iff wellFormed positive).mpr ⟨range, listed, begins, ends⟩⟩
  refine ⟨_, searched_of_visited _ visits, ?_⟩
  have best := findSome_highest power positive (le_max_left first last) small free.ascending
    fun range listed => ⟨free.filled range listed, free.stop_lt wellFormed listed⟩
  cases found : ranges.reverse.findSome? (candidate first (max first last) size.toNat align) with
  | none =>
    rw [found] at best
    have nowhere (a : Nat) : ¬ Suitable memblock nid start.toNat last size.toNat align.toNat a :=
      fun suitable => best a ((suits a).mp suitable)
    exact ⟨⟨fun _ => nowhere, fun _ => rfl⟩, fun nonzero => absurd rfl nonzero, fun a suitable =>
      absurd suitable (nowhere a)⟩
  | some cand =>
    rw [found] at best
    have suitable := (suits cand).mpr best.1
    have nonzero : cand ≠ 0 := by
      have low := suitable.low
      rw [PAGE_SIZE] at low
      omega
    exact ⟨⟨fun zero => absurd zero nonzero, fun nowhere => absurd suitable (nowhere cand)⟩,
        fun _ => suitable,
      fun a other => best.2 a ((suits a).mp other)⟩

theorem memblockFindInRangeNode_dvd (wellFormed : WellFormed memblock) (stop size : U32)
    (power : align.toNat = 2 ^ order) {fuel found : Nat}
    (enough : memblock.memory.length + memblock.reserved.length + 1 < fuel)
    (finds : memblockFindInRangeNode memblock 0 stop size align nid fuel = some found) :
      align.toNat ∣ found := by
  obtain ⟨ranges, -, visits, -⟩ := freeRanges_visited wellFormed nid enough
  rw [memblockFindInRangeNode, searched_of_visited _ visits] at finds
  rw [← Option.some.inj finds]
  cases taken : ranges.reverse.findSome? _ with
  | none => exact dvd_zero _
  | some cand =>
    obtain ⟨range, -, candidate⟩ := List.exists_of_findSome?_eq_some taken
    unfold MemoryBlocks.candidate at candidate
    dsimp only at candidate
    split_ifs at candidate
    rw [Option.getD_some, ← Option.some.inj candidate, roundDown_toNat power]
    exact Nat.dvd_mul_left _ _

theorem memblockAllocBaseNid_free (wellFormed : WellFormed memblock)
    (memblockReserve : Nat → Nat → Int)
    {size maxAddr : U32} (positive : 0 < size.toNat) (power : align.toNat = 2 ^ order) {fuel : Nat}
    (enough : memblock.memory.length + memblock.reserved.length + 1 < fuel)
    (fits : size.toNat + align.toNat ≤ 2 ^ 32) :
    ∃ found, memblockAllocBaseNid memblock memblockReserve size align maxAddr nid fuel =
        some found ∧
      (found ≠ 0 → FreeArea memblock nid found size.toNat) := by
  have larger := le_roundUp power positive fits
  obtain ⟨found, finds, highest⟩ :=
    memblockFindInRangeNode_highest wellFormed nid 0 maxAddr (roundUp size align) align
      (by omega) power enough
  rw [memblockAllocBaseNid]
  simp only [finds, Option.bind_eq_bind, Option.bind_some]
  by_cases kept : found ≠ 0 ∧ memblockReserve found (roundUp size align).toNat = 0
  · rw [if_pos kept]
    exact ⟨found, rfl, fun nonzero => (highest.suits nonzero).free.shorter larger⟩
  · rw [if_neg kept]
    exact ⟨0, rfl, fun nonzero => absurd rfl nonzero⟩

/-- A size that wraps around has no room in the memory behind the first multiple of the
alignment. -/
theorem WellFormed.no_area (wellFormed : WellFormed memblock) {a : Nat} (aligned : align.toNat ∣ a)
    (nonzero : a ≠ 0)
    (wraps : 2 ^ 32 < size + align.toNat) : ¬ FreeArea memblock nid a size := by
  rintro ⟨m, listed, -, -, ends, -⟩
  have low := Nat.le_of_dvd (Nat.pos_of_ne_zero nonzero) aligned
  have bounded : m.base + m.size ≤ PHYS_ADDR_MAX := by
    rcases wellFormed.memory with ⟨nid, only⟩ | live
    · rw [only, List.mem_singleton] at listed
      rw [listed]
      exact Nat.zero_le _
    · exact live.bounded m listed
  rw [PHYS_ADDR_MAX] at bounded
  omega

/-- Over well-formed arrays, for a size that is not 0 and an alignment that is a power of two, the
search ends with the highest suitable address below the end that is meant, or with 0 if there is
none.  An allocation is free memory for the size asked for as long as rounding the size up does
not wrap around, and no address that is handed out for a larger size is. -/
theorem memblock_allocates (memblock : Memblock) (wellFormed : WellFormed memblock) (nid : Int)
    (start stop size align : U32) (positive : 0 < size.toNat) (order : Nat)
    (power : align.toNat = 2 ^ order) (fuel : Nat)
    (enough : memblock.memory.length + memblock.reserved.length + 1 < fuel) :
    (∃ found, memblockFindInRangeNode memblock start stop size align nid fuel = some found ∧
      Highest (Suitable memblock nid start.toNat (endOf memblock stop.toNat) size.toNat align.toNat)
        found) ∧
    (∀ memblockReserve maxAddr, size.toNat + align.toNat ≤ 2 ^ 32 →
      ∃ found, memblockAllocBaseNid memblock memblockReserve size align maxAddr nid fuel =
          some found ∧
        (found ≠ 0 → FreeArea memblock nid found size.toNat)) ∧
    ∀ memblockReserve maxAddr found, 2 ^ 32 < size.toNat + align.toNat →
      memblockAllocBaseNid memblock memblockReserve size align maxAddr nid fuel = some found →
          found ≠ 0 →
        ¬ FreeArea memblock nid found size.toNat := by
  refine ⟨memblockFindInRangeNode_highest wellFormed nid start stop size align positive power
    enough, ?_, ?_⟩
  · intro memblockReserve maxAddr fits
    exact memblockAllocBaseNid_free wellFormed memblockReserve positive power enough fits
  · intro memblockReserve maxAddr found wraps returned nonzero
    refine wellFormed.no_area ?_ nonzero wraps
    obtain ⟨place, finds, given⟩ := Option.bind_eq_some_iff.mp returned
    split_ifs at given
    · rw [← Option.some.inj given]
      exact memblockFindInRangeNode_dvd wellFormed _ _ power enough finds
    · exact absurd (Option.some.inj given).symm nonzero

def twoPages : Memblock := ⟨[⟨0x8000, 0x2000, 0⟩], [⟨0x9000, 0x1000, 1⟩], 0xffffffff⟩

theorem twoPages_wellFormed : WellFormed twoPages :=
  ⟨Or.inr ⟨by decide, by decide, by decide⟩, Or.inr ⟨⟨by decide, by decide, by decide⟩, by decide⟩,
    by decide⟩

theorem memblock_allocates_twoPages : WellFormed twoPages ∧
    ((∃ found, memblockFindInRangeNode twoPages 0 0 0x800 0x1000 0 4 = some found ∧
      Highest (Suitable twoPages 0 0 (endOf twoPages 0) 0x800 0x1000) found) ∧
    (∀ memblockReserve maxAddr, 0x800 + 0x1000 ≤ 2 ^ 32 →
      ∃ found, memblockAllocBaseNid twoPages memblockReserve 0x800 0x1000 maxAddr 0 4 = some found ∧
        (found ≠ 0 → FreeArea twoPages 0 found 0x800)) ∧
    ∀ memblockReserve maxAddr found, 2 ^ 32 < 0x800 + 0x1000 →
      memblockAllocBaseNid twoPages memblockReserve 0x800 0x1000 maxAddr 0 4 = some found →
          found ≠ 0 →
        ¬ FreeArea twoPages 0 found 0x800) :=
  ⟨twoPages_wellFormed,
    memblock_allocates twoPages twoPages_wellFormed 0 0 0 0x800 0x1000 (by decide) 12 rfl 4
      (by decide)⟩

/-- A size that is rounded up to 0: the search for no bytes finds the end of the free page,
reserving no bytes succeeds, and the reserved page is handed out. -/
theorem rounded_size_wraps : (roundUp 0xfffff001 0x1000).toNat = 0 ∧
    memblockAllocBaseNid twoPages (fun _ size =>
      if size = 0 then 0 else -12) 0xfffff001 0x1000 0 0 4 = some 0x9000 ∧
    ∃ rgn ∈ twoPages.reserved, rgn.Holds 0x9000 :=
  ⟨by decide, by decide, ⟨0x9000, 0x1000, 1⟩, by decide, by decide, by decide⟩

end Allocation

end RouterKernel.MemoryBlocks
