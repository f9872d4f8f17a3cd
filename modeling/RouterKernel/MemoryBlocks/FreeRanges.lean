import RouterKernel.Foundation.Machine
import RouterKernel.Foundation.Sweep

/-!
Contract: the free ranges of the boot-time memory map of mm/memblock.c.

Owns:
- the arrays of memory and of reserved regions, and when they are well formed;
- `__next_free_mem_range` and `__next_free_mem_range_rev`, with both indices in one `u64`;
- the iterations `for_each_free_mem_range` and `for_each_free_mem_range_reverse`;
- that both visit exactly the free ranges, in opposite orders.

A region list is the used part of an array.  An index of 64 bits is a natural number; `mi` is
its low half and `ri` its high half.
-/

namespace RouterKernel.MemoryBlocks

open RouterKernel.Foundation

/-- `1 << NODES_SHIFT`. -/
def MAX_NUMNODES : Int := 1

def ULLONG_MAX : Nat := 2 ^ 64 - 1

/-- `(phys_addr_t)ULLONG_MAX`. -/
def PHYS_ADDR_MAX : Nat := 2 ^ 32 - 1

structure MemblockRegion where
  base : Nat
  size : Nat
  nid : Int
deriving DecidableEq, Repr

/-- `rgn->base + rgn->size`, in the 32-bit type `phys_addr_t`. -/
def MemblockRegion.rend (rgn : MemblockRegion) : Nat := (rgn.base + rgn.size) % 2 ^ 32

structure Memblock where
  memory : List MemblockRegion
  reserved : List MemblockRegion
  currentLimit : Nat
deriving DecidableEq, Repr

def regionAt (regions : List MemblockRegion) (index : Nat) : MemblockRegion :=
  regions.getD index ⟨0, 0, MAX_NUMNODES⟩

/-- The area before a reserved region begins behind the one in front of it. -/
def gapStart (rsv : List MemblockRegion) (ri : Nat) : Nat :=
  if ri = 0 then 0 else (regionAt rsv (ri - 1)).rend

def gapEnd (rsv : List MemblockRegion) (ri : Nat) : Nat :=
  if ri < rsv.length then (regionAt rsv ri).base else PHYS_ADDR_MAX

def selected (nid : Int) (m : MemblockRegion) : Bool := nid = MAX_NUMNODES ∨ nid = m.nid

/-- `out_start`, `out_end` and `out_nid`. -/
structure FreeRange where
  start : Nat
  stop : Nat
  nid : Int
deriving DecidableEq, Repr

/-- One turn of the two loops of `__next_free_mem_range`, with `mi` and `ri`.  They end without a
range, or with one and the indices for the next call. -/
def freeTurn (memblock : Memblock) (nid : Int) :
    Nat × Nat → Outcome (Nat × Nat) (Option (FreeRange × Nat × Nat))
  | (mi, ri) =>
    if mi < memblock.memory.length then
      let m := regionAt memblock.memory mi
      if selected nid m = false then .running (mi + 1, ri)
      else if ri < memblock.reserved.length + 1 then
        let rStart := gapStart memblock.reserved ri
        let rEnd := gapEnd memblock.reserved ri
        if m.rend ≤ rStart then .running (mi + 1, ri)
        else if m.base < rEnd then
          .halted (some (⟨max m.base rStart, min m.rend rEnd, m.nid⟩,
            if m.rend ≤ rEnd then (mi + 1, ri) else (mi, ri + 1)))
        else .running (mi, ri + 1)
      else .running (mi + 1, ri)
    else .halted none

/-- The same for `__next_free_mem_range_rev`. -/
def freeTurnRev (memblock : Memblock) (nid : Int) :
    Int × Int → Outcome (Int × Int) (Option (FreeRange × Int × Int))
  | (mi, ri) =>
    if 0 ≤ mi then
      let m := regionAt memblock.memory mi.toNat
      if selected nid m = false then .running (mi - 1, ri)
      else if 0 ≤ ri then
        let rStart := gapStart memblock.reserved ri.toNat
        let rEnd := gapEnd memblock.reserved ri.toNat
        if rEnd ≤ m.base then .running (mi - 1, ri)
        else if rStart < m.rend then
          .halted (some (⟨max m.base rStart, min m.rend rEnd, m.nid⟩,
            if rStart ≤ m.base then (mi - 1, ri) else (mi, ri - 1)))
        else .running (mi, ri - 1)
      else .running (mi - 1, ri)
    else .halted none

/-- `(u32)mi | (u64)ri << 32`. -/
def packIdx (mi ri : Int) : Nat := (mi % 2 ^ 32).toNat + (ri % 2 ^ 32).toNat * 2 ^ 32

/-- A half of the index as an `int`. -/
def int32 (half : Nat) : Int := if half < 2 ^ 31 then half else (half : Int) - 2 ^ 32

/-- `__next_free_mem_range`: the new index and the range, if the loops end in so many turns. -/
def nextFreeMemRange (memblock : Memblock) (nid : Int) (turns idx : Nat) :
    Option (Nat × Option FreeRange) :=
  match runFor (freeTurn memblock nid) turns (idx % 2 ^ 32, idx / 2 ^ 32) with
  | .running _ => none
  | .halted none => some (ULLONG_MAX, none)
  | .halted (some (range, mi, ri)) => some (packIdx mi ri, some range)

def nextFreeMemRangeRev (memblock : Memblock) (nid : Int) (turns idx : Nat) :
    Option (Nat × Option FreeRange) :=
  let start :=
    if idx = ULLONG_MAX then ((memblock.memory.length : Int) - 1, (memblock.reserved.length : Int))
    else (int32 (idx % 2 ^ 32), int32 (idx / 2 ^ 32))
  match runFor (freeTurnRev memblock nid) turns start with
  | .running _ => none
  | .halted none => some (ULLONG_MAX, none)
  | .halted (some (range, mi, ri)) => some (packIdx mi ri, some range)

/-- The ranges of an iteration that goes on until the index is `ULLONG_MAX`, if it ends in so many
calls. -/
def visited (next : Nat → Option (Nat × Option FreeRange)) :
    (calls : Nat) → (idx : Nat) → Option (List FreeRange)
  | 0, _ => none
  | calls + 1, idx => do
    let (idx, range) ← next idx
    if idx = ULLONG_MAX then some []
    else do
      let later ← visited next calls idx
      some (range.toList ++ later)

def forEachFreeMemRange (memblock : Memblock) (nid : Int) (fuel : Nat) : Option (List FreeRange) :=
  visited (nextFreeMemRange memblock nid fuel) fuel 0

def forEachFreeMemRangeReverse (memblock : Memblock) (nid : Int) (fuel : Nat) :
    Option (List FreeRange) :=
  visited (nextFreeMemRangeRev memblock nid fuel) fuel ULLONG_MAX

/-! ## Walks

Both functions walk along a list of ranges that their indices stand for. -/

section Walk

variable {σ : Type} {turn : σ → Outcome σ (Option (FreeRange × σ))} {view : FreeRange → Span Int}
  {content : σ → List (Span Int)} {valid ready : σ → Prop} {measure : σ → Nat}

/-- A turn keeps the ranges that are left, or finds that there are none, or takes the first and
leaves a state from which a call can go on. -/
def Walked (view : FreeRange → Span Int) (content : σ → List (Span Int)) (valid ready : σ → Prop)
    (measure : σ → Nat)
    (s : σ) : Outcome σ (Option (FreeRange × σ)) → Prop
  | .running next => valid next ∧ content s = content next ∧ measure next < measure s
  | .halted none => content s = []
  | .halted (some (range, next)) => ready next ∧ content s = view range :: content next ∧
    measure next < measure s

def Walks (turn : σ → Outcome σ (Option (FreeRange × σ))) (view : FreeRange → Span Int)
    (content : σ → List (Span Int)) (valid ready : σ → Prop) (measure : σ → Nat) : Prop :=
  ∀ s, valid s → Walked view content valid ready measure s (turn s)

variable {s : σ}

/-- The turn that compares the first region with the first gap and passes the one that ends
first. -/
theorem walked_sweep {byRegion byGap : σ} (m : Span Int) (g : Span Unit) (ms : List (Span Int))
    (gs : List (Span Unit)) {range : FreeRange} {passed meets ends : Prop} [Decidable passed]
    [Decidable meets]
    [Decidable ends] (here : content s = sweep (m :: ms) (g :: gs))
    (nextRegion : content byRegion = sweep ms (g :: gs))
    (nextGap : content byGap = sweep (m :: ms) gs)
    (part : m.inter g = view range) (before : m.hi ≤ g.lo ↔ passed) (below : m.lo < g.hi ↔ meets)
    (first : m.hi ≤ g.hi ↔ ends) (validRegion : valid byRegion ∧ measure byRegion < measure s)
    (validGap : valid byGap ∧ measure byGap < measure s) (readyRegion : ready byRegion)
    (readyGap : ¬ ends → ready byGap) :
    Walked view content valid ready measure s
      (if passed then .running byRegion
      else if meets then .halted (some (range, if ends then byRegion else byGap))
        else .running byGap) := by
  rw [sweep, part] at here
  by_cases isPassed : passed
  · rw [if_pos (before.mpr isPassed)] at here
    rw [if_pos isPassed]
    exact ⟨validRegion.1, here.trans nextRegion.symm, validRegion.2⟩
  rw [if_neg (mt before.mp isPassed)] at here
  rw [if_neg isPassed]
  by_cases common : meets
  · rw [if_pos (below.mpr common)] at here
    rw [if_pos common]
    by_cases isFirst : ends
    · rw [if_pos (first.mpr isFirst)] at here
      rw [if_pos isFirst]
      exact ⟨readyRegion, by rw [here, nextRegion], validRegion.2⟩
    · rw [if_neg (mt first.mp isFirst)] at here
      rw [if_neg isFirst]
      exact ⟨readyGap isFirst, by rw [here, nextGap], validGap.2⟩
  · rw [if_neg (mt below.mp common)] at here
    rw [if_neg common]
    exact ⟨validGap.1, here.trans nextGap.symm, validGap.2⟩

theorem Walks.runs (walks : Walks turn view content valid ready measure) (start : valid s)
    {turns : Nat}
    (enough : measure s < turns) :
    (runFor turn turns s = .halted none ∧ content s = []) ∨
      ∃ range next, runFor turn turns s = .halted (some (range, next)) ∧ ready next ∧
        content s = view range :: content next ∧ measure next < measure s := by
  induction turns generalizing s with
  | zero => exact absurd enough (Nat.not_lt_zero _)
  | succ turns ih =>
    have walked := walks s start
    rw [runFor]
    cases turned : turn s with
    | running next =>
      rw [turned] at walked
      obtain ⟨validNext, same, less⟩ := walked
      rw [same]
      rcases ih validNext (by omega) with ⟨ended, empty⟩ |
        ⟨range, later, found, readyLater, first, lower⟩
      · exact Or.inl ⟨ended, empty⟩
      · exact Or.inr ⟨range, later, found, readyLater, first, by omega⟩
    | halted result =>
      rw [turned] at walked
      cases result with
      | none => exact Or.inl ⟨rfl, walked⟩
      | some found => exact Or.inr ⟨found.1, found.2, rfl, walked⟩

/-- Calls that start from the index of a state. -/
def Calls (turn : σ → Outcome σ (Option (FreeRange × σ))) (turns : Nat) (pack : σ → Nat)
    (next : Nat → Option (Nat × Option FreeRange)) (idx : Nat) (s : σ) : Prop :=
  next idx =
    match runFor turn turns s with
    | .running _ => none
    | .halted none => some (ULLONG_MAX, none)
    | .halted (some (range, later)) => some (pack later, some range)

theorem Walks.visits (walks : Walks turn view content valid ready measure)
    (fit : ∀ s, ready s → valid s)
    {pack : σ → Nat} {turns : Nat} {next : Nat → Option (Nat × Option FreeRange)}
    (packed : ∀ s, ready s → pack s ≠ ULLONG_MAX)
    (resumes : ∀ s, ready s → Calls turn turns pack next (pack s) s)
    (start : valid s) {idx : Nat} (first : Calls turn turns pack next idx s)
    (enough : measure s < turns)
    {calls : Nat} (often : measure s < calls) :
    ∃ ranges, visited next calls idx = some ranges ∧ ranges.map view = content s := by
  induction calls generalizing s idx with
  | zero => exact absurd often (Nat.not_lt_zero _)
  | succ calls ih =>
    rw [visited, first]
    rcases walks.runs start enough with ⟨ended, empty⟩ |
      ⟨range, later, found, readyLater, front, less⟩
    · rw [ended]
      exact ⟨[], rfl, empty.symm⟩
    · rw [found]
      obtain ⟨ranges, visits, same⟩ :=
        ih (fit later readyLater) (resumes later readyLater) (by omega) (by omega)
      refine ⟨range :: ranges, ?_, by rw [List.map_cons, same, front]⟩
      simp only [Option.bind_eq_bind, Option.bind_some, if_neg (packed later readyLater), visits,
        Option.toList_some]
      rfl

end Walk

/-! ## The ranges that the indices stand for -/

def MemblockRegion.span (rgn : MemblockRegion) : Span Int := ⟨rgn.base, rgn.rend, rgn.nid⟩

def FreeRange.span (range : FreeRange) : Span Int := ⟨range.start, range.stop, range.nid⟩

def gapSpan (rsv : List MemblockRegion) (ri : Nat) : Span Unit :=
  ⟨gapStart rsv ri, gapEnd rsv ri, ()⟩

def gaps (rsv : List MemblockRegion) : List (Span Unit) :=
  (List.range (rsv.length + 1)).map (gapSpan rsv)

def nodeSpans (nid : Int) (regions : List MemblockRegion) : List (Span Int) :=
  (regions.filter (selected nid)).map MemblockRegion.span

variable {i : Nat}

theorem drop_eq_regionAt {regions : List MemblockRegion} (inside : i < regions.length) :
    regions.drop i = regionAt regions i :: regions.drop (i + 1) := by
  rw [List.drop_eq_getElem_cons inside, regionAt, List.getD_eq_getElem?_getD,
    List.getElem?_eq_getElem inside]
  rfl

theorem take_eq_regionAt {regions : List MemblockRegion} (inside : i < regions.length) :
    regions.take (i + 1) = regions.take i ++ [regionAt regions i] := by
  rw [List.take_add_one, List.getElem?_eq_getElem inside, regionAt, List.getD_eq_getElem?_getD,
    List.getElem?_eq_getElem inside]
  rfl

theorem drop_gaps {rsv : List MemblockRegion} {ri : Nat} (inside : ri < rsv.length + 1) :
    (gaps rsv).drop ri = gapSpan rsv ri :: (gaps rsv).drop (ri + 1) := by
  have listed : ri < (gaps rsv).length := by
    rw [gaps, List.length_map, List.length_range]; exact inside
  rw [List.drop_eq_getElem_cons listed]
  congr 1
  simp [gaps]

theorem take_gaps {rsv : List MemblockRegion} {ri : Nat} (inside : ri < rsv.length + 1) :
    (gaps rsv).take (ri + 1) = (gaps rsv).take ri ++ [gapSpan rsv ri] := by
  have listed : ri < (gaps rsv).length := by
    rw [gaps, List.length_map, List.length_range]; exact inside
  rw [List.take_add_one, List.getElem?_eq_getElem listed, Option.toList_some]
  congr 2
  simp [gaps]

theorem nodeSpans_cons (nid : Int) (m : MemblockRegion) (regions : List MemblockRegion) :
    nodeSpans nid (m :: regions) = if selected nid m = false then nodeSpans nid regions
      else m.span :: nodeSpans nid regions := by
  rw [nodeSpans, List.filter_cons]
  cases selected nid m <;> rfl

theorem mirrored_concat {τ : Type} (spans : List (Span τ)) (last : Span τ) :
    mirrored (spans ++ [last]) = last.mirror :: mirrored spans := by
  rw [mirrored, List.reverse_append, List.reverse_singleton, List.singleton_append, List.map_cons]
  rfl

theorem mirrored_nodeSpans_concat (nid : Int) (regions : List MemblockRegion) (m : MemblockRegion) :
    mirrored (nodeSpans nid (regions ++ [m])) = if selected nid m = false
        then mirrored (nodeSpans nid regions)
      else m.span.mirror :: mirrored (nodeSpans nid regions) := by
  rw [nodeSpans, List.filter_append, List.map_append, List.filter_cons, List.filter_nil]
  cases selected nid m
  · rw [if_neg Bool.false_ne_true, List.map_nil, List.append_nil]
    rfl
  · exact mirrored_concat _ _

section Turns

variable (memblock : Memblock) (nid : Int)

def contentFrom : Nat × Nat → List (Span Int)
  | (mi, ri) => sweep (nodeSpans nid (memblock.memory.drop mi)) ((gaps memblock.reserved).drop ri)

def contentTo : Int × Int → List (Span Int)
  | (mi, ri) => sweep (mirrored (nodeSpans nid (memblock.memory.take (mi + 1).toNat)))
      (mirrored ((gaps memblock.reserved).take (ri + 1).toNat))

/-- The indices point into the arrays or just behind them. -/
def Pointing : Nat × Nat → Prop
  | (mi, ri) => mi ≤ memblock.memory.length ∧ ri ≤ memblock.reserved.length + 1

def PointingRev : Int × Int → Prop
  | (mi, ri) => -1 ≤ mi ∧ mi < memblock.memory.length ∧ -1 ≤ ri ∧ ri ≤ memblock.reserved.length

theorem walks_freeTurn :
    Walks (freeTurn memblock nid) FreeRange.span (contentFrom memblock nid) (Pointing memblock)
        (Pointing memblock)
      fun s => memblock.memory.length - s.1 + (memblock.reserved.length + 1 - s.2) := by
  rintro ⟨mi, ri⟩ ⟨boundM, boundR⟩
  rw [freeTurn]
  by_cases insideM : mi < memblock.memory.length
  swap
  · rw [if_neg insideM, Walked, contentFrom, List.drop_eq_nil_of_le (not_lt.mp insideM)]
    exact sweep.eq_1 _
  rw [if_pos insideM]
  have region := drop_eq_regionAt insideM
  set m := regionAt memblock.memory mi
  by_cases other : selected nid m = false
  · rw [if_pos other]
    refine ⟨⟨by omega, boundR⟩, ?_, by simp only; omega⟩
    rw [contentFrom, contentFrom, region, nodeSpans_cons, if_pos other]
  rw [if_neg other]
  by_cases insideR : ri < memblock.reserved.length + 1
  swap
  · have noGap : (gaps memblock.reserved).drop ri = [] := by
      refine List.drop_eq_nil_of_le ?_
      rw [gaps, List.length_map, List.length_range]
      omega
    rw [if_neg insideR]
    refine ⟨⟨by omega, boundR⟩, ?_, by simp only; omega⟩
    rw [contentFrom, contentFrom, noGap, sweep_nil_right, sweep_nil_right]
  rw [if_pos insideR]
  have gap := drop_gaps insideR
  -- both lists begin with the region and the gap that are compared
  refine walked_sweep m.span (gapSpan memblock.reserved ri)
      (nodeSpans nid (memblock.memory.drop (mi + 1)))
    ((gaps memblock.reserved).drop (ri + 1))
    ?_ ?_ ?_ ?_ Int.ofNat_le Int.ofNat_lt Int.ofNat_le
    ⟨⟨by omega, boundR⟩, by simp only; omega⟩ ⟨⟨boundM, by omega⟩, by simp only; omega⟩
    ⟨by omega, boundR⟩ fun _ => ⟨boundM, by omega⟩
  · rw [contentFrom, region, nodeSpans_cons, if_neg other, gap]
  · rw [contentFrom, gap]
  · rw [contentFrom, region, nodeSpans_cons, if_neg other]
  · simp [Span.inter, MemblockRegion.span, gapSpan, FreeRange.span]

theorem walks_freeTurnRev :
    Walks (freeTurnRev memblock nid) (fun range => range.span.mirror) (contentTo memblock nid)
        (PointingRev memblock)
      (fun s => PointingRev memblock s ∧ 0 ≤ s.2) fun s => (s.1 + 1).toNat + (s.2 + 1).toNat := by
  rintro ⟨mi, ri⟩ ⟨lowM, boundM, lowR, boundR⟩
  rw [freeTurnRev]
  by_cases insideM : 0 ≤ mi
  swap
  · have none : (mi + 1).toNat = 0 := by omega
    rw [if_neg insideM, Walked, contentTo, none, List.take_zero]
    exact sweep.eq_1 _
  rw [if_pos insideM]
  obtain ⟨i, rfl⟩ := Int.eq_ofNat_of_zero_le insideM
  have region := take_eq_regionAt (show i < memblock.memory.length by omega)
  rw [Int.toNat_natCast]
  have count : ((i : Int) + 1).toNat = i + 1 := by omega
  have fewer : ((i : Int) - 1 + 1).toNat = i := by omega
  set m := regionAt memblock.memory i
  by_cases other : selected nid m = false
  · rw [if_pos other]
    refine ⟨⟨by omega, by omega, lowR, boundR⟩, ?_, by simp only; omega⟩
    rw [contentTo, contentTo, count, fewer, region, mirrored_nodeSpans_concat, if_pos other]
  rw [if_neg other]
  by_cases insideR : 0 ≤ ri
  swap
  · have none : (ri + 1).toNat = 0 := by omega
    rw [if_neg insideR]
    refine ⟨⟨by omega, by omega, lowR, boundR⟩, ?_, by simp only; omega⟩
    rw [contentTo, contentTo, none, List.take_zero]
    exact (sweep_nil_right _).trans (sweep_nil_right _).symm
  rw [if_pos insideR]
  obtain ⟨r, rfl⟩ := Int.eq_ofNat_of_zero_le insideR
  rw [Int.toNat_natCast]
  have gap := take_gaps (show r < memblock.reserved.length + 1 by omega)
  have countR : ((r : Int) + 1).toNat = r + 1 := by omega
  have fewerR : ((r : Int) - 1 + 1).toNat = r := by omega
  -- seen from the end, both lists begin with the region and the gap that are compared
  refine walked_sweep m.span.mirror (gapSpan memblock.reserved r).mirror
    (mirrored (nodeSpans nid (memblock.memory.take i))) (mirrored ((gaps memblock.reserved).take r))
    ?_ ?_ ?_ ?_ ?_ ?_ ?_ ⟨⟨by omega, by omega, lowR, boundR⟩, by simp only; omega⟩
    ⟨⟨lowM, boundM, by omega, by omega⟩, by simp only; omega⟩ ⟨⟨by omega, by omega, lowR, boundR⟩,
      insideR⟩ ?_
  · rw [contentTo, count, countR, region, mirrored_nodeSpans_concat, if_neg other, gap,
      mirrored_concat]
  · rw [contentTo, fewer, countR, gap, mirrored_concat]
  · rw [contentTo, count, fewerR, region, mirrored_nodeSpans_concat, if_neg other]
  · rw [Span.mirror_inter]
    simp [Span.inter, MemblockRegion.span, gapSpan, FreeRange.span]
  · simp [Span.mirror, MemblockRegion.span, gapSpan]
  · simp [Span.mirror, MemblockRegion.span, gapSpan]
  · simp [Span.mirror, MemblockRegion.span, gapSpan]
  · -- the first gap begins at 0, so that the index stays one of a gap
    intro later
    have notFirst : r ≠ 0 := by
      rintro rfl
      exact later (Nat.zero_le _)
    exact ⟨⟨lowM, boundM, by omega, by omega⟩, by simp only; omega⟩

end Turns

/-! ## Well-formed arrays -/

def MemblockRegion.Holds (rgn : MemblockRegion) (address : Nat) : Prop :=
  rgn.base ≤ address ∧ address < rgn.base + rgn.size

/-- Regions that are not empty, below the last address and one behind the other. -/
structure Live (regions : List MemblockRegion) : Prop where
  filled : ∀ rgn ∈ regions, 0 < rgn.size
  bounded : ∀ rgn ∈ regions, rgn.base + rgn.size ≤ PHYS_ADDR_MAX
  apart : regions.Pairwise fun left right => left.base + left.size ≤ right.base

/-- The single entry of an array without regions. -/
def Placeholder (regions : List MemblockRegion) : Prop := ∃ nid, regions = [⟨0, 0, nid⟩]

/-- Both arrays as the calls of mm/memblock.c keep them.  Reservations have no node, so that
neighbours which touch are merged; and the arrays are smaller than the memory they lie in. -/
structure WellFormed (memblock : Memblock) : Prop where
  memory : Placeholder memblock.memory ∨ Live memblock.memory
  reserved : Placeholder memblock.reserved ∨
    (Live memblock.reserved ∧ memblock.reserved.Pairwise fun left right => left.base + left.size ≠
      right.base)
  few : memblock.memory.length < 2 ^ 31 ∧ memblock.reserved.length + 1 < 2 ^ 31

section Arrays

variable {regions rsv : List MemblockRegion} {memblock : Memblock}

variable {rgn : MemblockRegion}

theorem rend_of_bounded (bounded : rgn.base + rgn.size ≤ PHYS_ADDR_MAX) :
    rgn.rend = rgn.base + rgn.size := by
  rw [PHYS_ADDR_MAX] at bounded
  exact Nat.mod_eq_of_lt (by omega)

theorem Live.rend_eq (live : Live regions) (listed : rgn ∈ regions) :
    rgn.rend = rgn.base + rgn.size :=
  rend_of_bounded (live.bounded rgn listed)

theorem regionAt_mem {index : Nat} (inside : index < regions.length) :
    regionAt regions index ∈ regions := by
  rw [regionAt, List.getD_eq_getElem?_getD, List.getElem?_eq_getElem inside, Option.getD_some]
  exact List.getElem_mem inside

theorem exists_regionAt (listed : rgn ∈ regions) :
    ∃ index < regions.length, regionAt regions index = rgn := by
  obtain ⟨index, inside, same⟩ := List.getElem_of_mem listed
  refine ⟨index, inside, ?_⟩
  rw [regionAt, List.getD_eq_getElem?_getD, List.getElem?_eq_getElem inside, Option.getD_some, same]

theorem pairwise_regionAt {relation : MemblockRegion → MemblockRegion → Prop}
    (pairwise : regions.Pairwise relation) {j : Nat} (order : i < j)
    (inside : j < regions.length) : relation (regionAt regions i) (regionAt regions j) := by
  have related := List.pairwise_iff_getElem.mp pairwise i j (by omega) inside order
  rwa [regionAt, regionAt, List.getD_eq_getElem?_getD,
      List.getElem?_eq_getElem (show i < regions.length by omega),
    Option.getD_some, List.getD_eq_getElem?_getD, List.getElem?_eq_getElem inside, Option.getD_some]

/-- What the areas between reservations need: ends in place, and room between neighbours. -/
structure Separate (rsv : List MemblockRegion) : Prop where
  rend : ∀ i < rsv.length, (regionAt rsv i).rend = (regionAt rsv i).base + (regionAt rsv i).size
  bounded : ∀ i < rsv.length, (regionAt rsv i).rend ≤ PHYS_ADDR_MAX
  apart : ∀ i j, i < j → j < rsv.length → (regionAt rsv i).rend < (regionAt rsv j).base
  filled : ∀ i < rsv.length, 0 < (regionAt rsv i).rend → 0 < (regionAt rsv i).size

theorem WellFormed.separate (wellFormed : WellFormed memblock) : Separate memblock.reserved := by
  rcases wellFormed.reserved with ⟨nid, same⟩ | ⟨live, differs⟩
  · have only (i : Nat) (inside : i < memblock.reserved.length) :
      regionAt memblock.reserved i = ⟨0, 0, nid⟩ := by
      rw [same, List.length_singleton, Nat.lt_one_iff] at inside
      rw [same, inside]
      rfl
    refine ⟨?_, ?_, ?_, ?_⟩
    · intro i inside
      rw [only i inside]
      rfl
    · intro i inside
      rw [only i inside]
      exact Nat.zero_le _
    · intro i j order inside
      rw [same, List.length_singleton] at inside
      omega
    · intro i inside positive
      rw [only i inside] at positive
      exact absurd positive (lt_irrefl 0)
  · refine ⟨fun i inside => live.rend_eq (regionAt_mem inside), fun i inside => ?_,
      fun i j order inside => ?_,
      fun i inside _ => live.filled _ (regionAt_mem inside)⟩
    · rw [live.rend_eq (regionAt_mem inside)]
      exact live.bounded _ (regionAt_mem inside)
    · have below := pairwise_regionAt live.apart order inside
      have unequal := pairwise_regionAt differs order inside
      rw [live.rend_eq (regionAt_mem (show i < memblock.reserved.length by omega))]
      omega

theorem Separate.gap_le (separate : Separate rsv) {j : Nat} (order : i < j)
    (inside : j ≤ rsv.length) :
    gapEnd rsv i ≤ gapStart rsv j := by
  rw [gapEnd, if_pos (by omega), gapStart, if_neg (by omega)]
  have bounds := separate.rend (j - 1) (by omega)
  by_cases same : i = j - 1
  · rw [same]
    omega
  · have apart := separate.apart i (j - 1) (by omega) (by omega)
    have own := separate.rend i (by omega)
    omega

theorem Separate.gap_proper (separate : Separate rsv) {ri : Nat} (inside : ri ≤ rsv.length) :
    gapStart rsv ri ≤ gapEnd rsv ri := by
  rw [gapStart, gapEnd]
  by_cases first : ri = 0
  · rw [if_pos first]
    exact Nat.zero_le _
  rw [if_neg first]
  by_cases last : ri < rsv.length
  · rw [if_pos last]
    exact (separate.apart (ri - 1) ri (by omega) last).le
  · rw [if_neg last]
    exact separate.bounded (ri - 1) (by omega)

theorem mem_gaps {gap : Span Unit} : gap ∈ gaps rsv ↔ ∃ ri ≤ rsv.length, gapSpan rsv ri = gap := by
  simp [gaps]

theorem Separate.exists_gap_iff (separate : Separate rsv) {address : Nat}
    (small : address < PHYS_ADDR_MAX) :
    (∃ ri ≤ rsv.length, gapStart rsv ri ≤ address ∧ address < gapEnd rsv ri) ↔ ∀ rgn ∈ rsv,
      ¬ rgn.Holds address := by
  constructor
  · rintro ⟨ri, inside, low, high⟩ rgn listed ⟨base, stop⟩
    obtain ⟨k, insideK, rfl⟩ := exists_regionAt listed
    have own := separate.rend k insideK
    by_cases before : k < ri
    · -- the region ends where the gap begins, or earlier
      rw [gapStart, if_neg (by omega)] at low
      by_cases same : k = ri - 1
      · rw [← same] at low
        omega
      · have apart := separate.apart k (ri - 1) (by omega) (by omega)
        have last := separate.rend (ri - 1) (by omega)
        omega
    · rw [gapEnd, if_pos (by omega)] at high
      by_cases same : k = ri
      · rw [← same] at high
        omega
      · have apart := separate.apart ri k (by omega) insideK
        have first := separate.rend ri (by omega)
        omega
  · intro free
    -- the gap before the first region that begins behind the address
    have found : ∃ ri, ri = rsv.length ∨ address < (regionAt rsv ri).base :=
      ⟨rsv.length, Or.inl rfl⟩
    classical
    have spec := Nat.find_spec found
    have least (k : Nat) (below : k < Nat.find found) := Nat.find_min found below
    set ri := Nat.find found
    have inside : ri ≤ rsv.length := Nat.find_min' found (Or.inl rfl)
    refine ⟨ri, inside, ?_, ?_⟩
    · rw [gapStart]
      by_cases first : ri = 0
      · rw [if_pos first]
        exact Nat.zero_le _
      · rw [if_neg first]
        have previous := least (ri - 1) (by omega)
        push Not at previous
        have clear := free _ (regionAt_mem (show ri - 1 < rsv.length by omega))
        have own := separate.rend (ri - 1) (by omega)
        rw [MemblockRegion.Holds] at clear
        omega
    · rw [gapEnd]
      by_cases last : ri < rsv.length
      · rw [if_pos last]
        exact spec.resolve_left (Nat.ne_of_lt last)
      · rw [if_neg last]
        exact small

theorem mem_nodeSpans {nid : Int} {span : Span Int} :
    span ∈ nodeSpans nid regions ↔ ∃ m ∈ regions, selected nid m = true ∧ m.span = span := by
  rw [nodeSpans, List.mem_map]
  simp only [List.mem_filter, and_assoc]

theorem WellFormed.sweepable (wellFormed : WellFormed memblock) (live : Live memblock.memory)
    (nid : Int) :
    Sweepable (nodeSpans nid memblock.memory) (gaps memblock.reserved) := by
  have separate := wellFormed.separate
  refine ⟨?_, ?_, ?_, ?_, ?_⟩
  · rw [Ascending, nodeSpans, List.pairwise_map]
    refine List.Pairwise.filter _ (List.Pairwise.imp_of_mem (fun listed _ order => ?_) live.apart)
    refine Int.ofNat_le.mpr ?_
    rwa [live.rend_eq listed]
  · rw [Ascending, gaps, List.pairwise_map]
    refine List.Pairwise.imp_of_mem (fun _ listed order => ?_) List.pairwise_lt_range
    have bound := List.mem_range.mp listed
    exact Int.ofNat_le.mpr (separate.gap_le order (by omega))
  · intro span listed
    obtain ⟨m, listedM, -, rfl⟩ := mem_nodeSpans.mp listed
    have filled := live.filled m listedM
    rw [MemblockRegion.span, live.rend_eq listedM]
    simp only
    omega
  · intro gap listed
    obtain ⟨ri, inside, rfl⟩ := mem_gaps.mp listed
    exact Int.ofNat_le.mpr (separate.gap_proper inside)
  · intro span listed gap listedGap low high
    obtain ⟨m, listedM, -, rfl⟩ := mem_nodeSpans.mp listed
    obtain ⟨ri, inside, rfl⟩ := mem_gaps.mp listedGap
    have bounded := live.bounded m listedM
    rw [MemblockRegion.span, live.rend_eq listedM] at high
    simp only [MemblockRegion.span, gapSpan] at low high ⊢
    rw [gapStart, gapEnd] at *
    by_cases first : ri = 0
    · rw [if_pos first] at high ⊢
      omega
    rw [if_neg first] at high ⊢
    by_cases last : ri < memblock.reserved.length
    · rw [if_pos last] at low ⊢
      exact_mod_cast separate.apart (ri - 1) ri (by omega) last
    · rw [if_neg last] at low ⊢
      omega

theorem sweep_zero {τ ρ : Type} (label : τ) {gs : List (Span ρ)}
    (outside : ∀ g ∈ gs, g.hi ≤ 0 ∨ 0 ≤ g.lo) :
    sweep [⟨0, 0, label⟩] gs = [] := by
  induction gs with
  | nil => exact sweep_nil_right _
  | cons g gs ih =>
    have later := ih (List.forall_mem_cons.mp outside).2
    rw [sweep]
    by_cases passed : (0 : ℤ) ≤ g.lo
    · rw [if_pos passed]
      exact sweep.eq_1 _
    · have below : ¬ (0 : ℤ) < g.hi :=
        not_lt.mpr ((outside g List.mem_cons_self).resolve_right passed)
      rw [if_neg passed, if_neg below, later]

theorem Placeholder.nothing (empty : Placeholder regions) (nid : Int) :
    sweep (nodeSpans nid regions) (gaps rsv) = [] ∧
      sweep (mirrored (nodeSpans nid regions)) (mirrored (gaps rsv)) = [] := by
  obtain ⟨node, rfl⟩ := empty
  have lowest (g : Span Unit) (listed : g ∈ gaps rsv) : 0 ≤ g.lo := by
    obtain ⟨ri, -, rfl⟩ := mem_gaps.mp listed
    exact Int.natCast_nonneg _
  have highest (g : Span Unit) (listed : g ∈ mirrored (gaps rsv)) : g.hi ≤ 0 := by
    have image := lowest _ (mem_mirrored.mp listed)
    rw [Span.mirror] at image
    simpa using image
  rw [nodeSpans_cons]
  split
  · exact ⟨sweep.eq_1 _, sweep.eq_1 _⟩
  · exact ⟨sweep_zero node fun g listed => Or.inr (lowest g listed),
      sweep_zero node fun g listed => Or.inl (highest g listed)⟩

end Arrays

/-! ## The free ranges -/

/-- Exactly the free ranges of a node: in ascending order, not empty, with all addresses of its
memory that are not reserved, each as long as its region allows. -/
structure FreeRanges (memblock : Memblock) (nid : Int) (ranges : List FreeRange) : Prop where
  ascending : ranges.Pairwise fun left right => left.stop ≤ right.start
  filled : ∀ range ∈ ranges, range.start < range.stop
  covers : ∀ address, (∃ range ∈ ranges, range.start ≤ address ∧ address < range.stop) ↔
    (∃ m ∈ memblock.memory, selected nid m = true ∧ m.Holds address) ∧ ∀ rgn ∈ memblock.reserved,
      ¬ rgn.Holds address
  maximal : ∀ range ∈ ranges, ∃ m ∈ memblock.memory, selected nid m = true ∧ range.nid = m.nid ∧
    m.base ≤ range.start ∧ range.stop ≤ m.base + m.size ∧
    (m.base < range.start → ∃ rgn ∈ memblock.reserved, rgn.Holds (range.start - 1)) ∧
    (range.stop < m.base + m.size → ∃ rgn ∈ memblock.reserved, rgn.Holds range.stop)

theorem span_injective : Function.Injective FreeRange.span := by
  rintro ⟨start, stop, nid⟩ ⟨start', stop', nid'⟩ same
  simpa [FreeRange.span] using same

section Exact

variable {memblock : Memblock} {nid : Int} {ranges : List FreeRange}

/-- The range is the common part of a region of the node and of a gap. -/
structure Cut (memblock : Memblock) (nid : Int) (range : FreeRange) (m : MemblockRegion)
    (ri : Nat) : Prop where
  listed : m ∈ memblock.memory
  chosen : selected nid m = true
  gap : ri ≤ memblock.reserved.length
  start : range.start = max m.base (gapStart memblock.reserved ri)
  stop : range.stop = min (m.base + m.size) (gapEnd memblock.reserved ri)
  node : range.nid = m.nid
  filled : range.start < range.stop

theorem mem_iff_cut (wellFormed : WellFormed memblock) (live : Live memblock.memory)
    (swept : ranges.map FreeRange.span =
      sweep (nodeSpans nid memblock.memory) (gaps memblock.reserved))
    (range : FreeRange) : range ∈ ranges ↔ ∃ m ri, Cut memblock nid range m ri := by
  have listed : range ∈ ranges ↔ range.span ∈ ranges.map FreeRange.span :=
    (List.mem_map_of_injective span_injective).symm
  rw [listed, swept, mem_sweep (wellFormed.sweepable live nid), Common]
  constructor
  · rintro ⟨span, listedSpan, gap, listedGap, meets, same⟩
    obtain ⟨m, listedM, chosen, rfl⟩ := mem_nodeSpans.mp listedSpan
    obtain ⟨ri, inside, rfl⟩ := mem_gaps.mp listedGap
    rw [Span.Meets, ← same] at meets
    simp only [FreeRange.span, Span.inter, MemblockRegion.span, gapSpan, Span.mk.injEq,
      live.rend_eq listedM] at same
    exact ⟨m, ri, listedM, chosen, inside,
        by exact_mod_cast same.1, by exact_mod_cast same.2.1, same.2.2,
      Int.ofNat_lt.mp meets⟩
  · rintro ⟨m, ri, cut⟩
    have same : range.span = m.span.inter (gapSpan memblock.reserved ri) := by
      simp [FreeRange.span, Span.inter, MemblockRegion.span, gapSpan, live.rend_eq cut.listed,
        cut.start, cut.stop, cut.node]
    refine ⟨m.span, mem_nodeSpans.mpr ⟨m, cut.listed, cut.chosen, rfl⟩, _,
      mem_gaps.mpr ⟨ri, cut.gap, rfl⟩, ?_, same⟩
    rw [Span.Meets, ← same]
    exact Int.ofNat_lt.mpr cut.filled

section Cuts

variable {range : FreeRange} {m : MemblockRegion} {ri : Nat}

theorem Cut.start_reserved (cut : Cut memblock nid range m ri)
    (separate : Separate memblock.reserved)
    (later : m.base < range.start) : ∃ rgn ∈ memblock.reserved, rgn.Holds (range.start - 1) := by
  have begins : range.start = gapStart memblock.reserved ri := by
    have start := cut.start
    omega
  have positive : 0 < gapStart memblock.reserved ri := by omega
  have notFirst : ri ≠ 0 := by
    rintro rfl
    exact absurd positive (lt_irrefl 0)
  have gap := cut.gap
  rw [gapStart, if_neg notFirst] at begins positive
  have own := separate.rend (ri - 1) (by omega)
  have size := separate.filled (ri - 1) (by omega) positive
  exact ⟨_, regionAt_mem (show ri - 1 < memblock.reserved.length by omega), by omega, by omega⟩

theorem Cut.stop_reserved (cut : Cut memblock nid range m ri)
    (separate : Separate memblock.reserved)
    (bounded : m.base + m.size ≤ PHYS_ADDR_MAX) (earlier : range.stop < m.base + m.size) :
    ∃ rgn ∈ memblock.reserved, rgn.Holds range.stop := by
  have ends : range.stop = gapEnd memblock.reserved ri := by
    have stop := cut.stop
    omega
  have notLast : ri < memblock.reserved.length := by
    by_contra last
    rw [gapEnd, if_neg last] at ends
    omega
  rw [gapEnd, if_pos notLast] at ends
  have own := separate.rend ri notLast
  have filled := cut.filled
  have size := separate.filled ri notLast (by omega)
  exact ⟨_, regionAt_mem notLast, by omega, by omega⟩

end Cuts

theorem freeRanges_of_sweep (wellFormed : WellFormed memblock) (live : Live memblock.memory)
    (swept : ranges.map FreeRange.span =
      sweep (nodeSpans nid memblock.memory) (gaps memblock.reserved)) :
    FreeRanges memblock nid ranges := by
  have cuts := mem_iff_cut wellFormed live swept
  have separate := wellFormed.separate
  refine ⟨?_, ?_, ?_, ?_⟩
  · have ascending := ascending_sweep (wellFormed.sweepable live nid)
    rw [← swept, Ascending, List.pairwise_map] at ascending
    exact ascending.imp fun order => Int.ofNat_le.mp order
  · intro range listed
    obtain ⟨m, ri, cut⟩ := (cuts range).mp listed
    exact cut.filled
  · intro address
    constructor
    · rintro ⟨range, listed, low, high⟩
      obtain ⟨m, ri, cut⟩ := (cuts range).mp listed
      have bounded := live.bounded m cut.listed
      rw [cut.start] at low
      rw [cut.stop] at high
      refine ⟨⟨m, cut.listed, cut.chosen, by omega, by omega⟩, ?_⟩
      exact (separate.exists_gap_iff (by omega)).mp ⟨ri, cut.gap, by omega, by omega⟩
    · rintro ⟨⟨m, listed, chosen, base, stop⟩, free⟩
      have bounded := live.bounded m listed
      obtain ⟨ri, inside, low, high⟩ := (separate.exists_gap_iff (by omega)).mpr free
      have begins := max_le base low
      have ends := lt_min stop high
      exact ⟨⟨_, _, m.nid⟩, (cuts _).mpr ⟨m, ri, listed, chosen, inside, rfl, rfl, rfl,
        begins.trans_lt ends⟩, begins, ends⟩
  · intro range listed
    obtain ⟨m, ri, cut⟩ := (cuts range).mp listed
    have start := cut.start
    have stop := cut.stop
    exact ⟨m, cut.listed, cut.chosen, cut.node, by omega, by omega, cut.start_reserved separate,
      cut.stop_reserved separate (live.bounded m cut.listed)⟩

theorem freeRanges_placeholder (empty : Placeholder memblock.memory) :
    FreeRanges memblock nid [] := by
  obtain ⟨node, same⟩ := empty
  refine ⟨List.Pairwise.nil, fun range listed => (by cases listed), fun address => ?_,
    fun range listed => (by cases listed)⟩
  constructor
  · rintro ⟨range, listed, -⟩
    cases listed
  · rintro ⟨⟨m, listed, -, base, stop⟩, -⟩
    rw [same, List.mem_singleton] at listed
    subst listed
    exact absurd stop (Nat.not_lt_zero address)

end Exact

/-! ## Both iterations -/

section Iterations

variable {memblock : Memblock}

theorem packIdx_natCast {mi ri : Nat} (smallM : mi < 2 ^ 32) (smallR : ri < 2 ^ 32) :
    packIdx mi ri = mi + ri * 2 ^ 32 := by
  rw [packIdx]
  omega

theorem int32_pack {index : Int} (low : -1 ≤ index) (high : index < 2 ^ 31) :
    int32 (index % 2 ^ 32).toNat = index := by
  rw [int32]
  split <;> omega

section Visits

variable (wellFormed : WellFormed memblock) (nid : Int) {fuel : Nat}
  (enough : memblock.memory.length + memblock.reserved.length + 1 < fuel)

include wellFormed enough

theorem visited_forward : ∃ ranges, forEachFreeMemRange memblock nid fuel = some ranges ∧
      ranges.map FreeRange.span =
        sweep (nodeSpans nid memblock.memory) (gaps memblock.reserved) := by
  obtain ⟨fewM, fewR⟩ := wellFormed.few
  have unpacked (s : Nat × Nat) (valid : Pointing memblock s) :
      packIdx s.1 s.2 ≠ ULLONG_MAX ∧ packIdx s.1 s.2 % 2 ^ 32 = s.1 ∧ packIdx s.1 s.2 / 2 ^ 32 =
        s.2 := by
    obtain ⟨boundM, boundR⟩ := valid
    rw [packIdx_natCast (by omega) (by omega), ULLONG_MAX]
    omega
  have calls (idx : Nat) (s : Nat × Nat) (low : idx % 2 ^ 32 = s.1) (high : idx / 2 ^ 32 = s.2) :
      Calls (freeTurn memblock nid) fuel (fun s => packIdx s.1 s.2)
        (nextFreeMemRange memblock nid fuel) idx s := by
    rw [Calls, nextFreeMemRange, low, high]
    rcases runFor (freeTurn memblock nid) fuel s with _ | (_ | _) <;> rfl
  exact (walks_freeTurn memblock nid).visits (fun _ valid => valid) (fun s valid =>
      (unpacked s valid).1)
    (fun s valid => calls _ s (unpacked s valid).2.1 (unpacked s valid).2.2)
    (show Pointing memblock (0, 0) from ⟨Nat.zero_le _, Nat.zero_le _⟩) (calls 0 (0, 0) rfl rfl)
    (by simp only; omega) (by simp only; omega)

theorem visited_reverse : ∃ ranges, forEachFreeMemRangeReverse memblock nid fuel = some ranges ∧
      ranges.map (fun range => range.span.mirror) =
        sweep (mirrored (nodeSpans nid memblock.memory)) (mirrored (gaps memblock.reserved)) := by
  obtain ⟨fewM, fewR⟩ := wellFormed.few
  have unpacked (s : Int × Int) (valid : PointingRev memblock s) (positive : 0 ≤ s.2) :
      packIdx s.1 s.2 ≠ ULLONG_MAX ∧ packIdx s.1 s.2 % 2 ^ 32 = (s.1 % 2 ^ 32).toNat ∧
        packIdx s.1 s.2 / 2 ^ 32 = (s.2 % 2 ^ 32).toNat := by
    obtain ⟨lowM, boundM, lowR, boundR⟩ := valid
    rw [packIdx, ULLONG_MAX]
    omega
  have same (start : Int × Int) (idx : Nat)
      (starts : (if idx = ULLONG_MAX
          then ((memblock.memory.length : Int) - 1, (memblock.reserved.length : Int))
        else (int32 (idx % 2 ^ 32), int32 (idx / 2 ^ 32))) = start) :
      Calls (freeTurnRev memblock nid) fuel (fun s => packIdx s.1 s.2)
        (nextFreeMemRangeRev memblock nid fuel) idx start := by
    rw [Calls, nextFreeMemRangeRev, starts]
    rcases runFor (freeTurnRev memblock nid) fuel start with _ | (_ | _) <;> rfl
  have resumes (s : Int × Int) (valid : PointingRev memblock s) (positive : 0 ≤ s.2) :
      Calls (freeTurnRev memblock nid) fuel (fun s => packIdx s.1 s.2)
          (nextFreeMemRangeRev memblock nid fuel)
        (packIdx s.1 s.2) s := by
    obtain ⟨notEnd, low, high⟩ := unpacked s valid positive
    obtain ⟨lowM, boundM, lowR, boundR⟩ := valid
    refine same s _ ?_
    rw [if_neg notEnd, low, high, int32_pack lowM (by omega), int32_pack lowR (by omega)]
  obtain ⟨ranges, visits, content⟩ :=
    (walks_freeTurnRev memblock nid).visits (fun _ valid => valid.1)
    (fun s valid => (unpacked s valid.1 valid.2).1) (fun s valid => resumes s valid.1 valid.2)
    (show PointingRev memblock ((memblock.memory.length : Int) - 1,
        (memblock.reserved.length : Int)) from
      ⟨by omega, by omega, by omega, le_rfl⟩)
    (same _ ULLONG_MAX (if_pos rfl)) (show _ < fuel by simp only; omega)
    (show _ < fuel by simp only; omega)
  refine ⟨ranges, visits, content.trans ?_⟩
  have wholeM : ((memblock.memory.length : Int) - 1 + 1).toNat = memblock.memory.length := by omega
  have wholeR : ((memblock.reserved.length : Int) + 1).toNat = memblock.reserved.length + 1 := by
    omega
  have all : (gaps memblock.reserved).length ≤ memblock.reserved.length + 1 := by simp [gaps]
  rw [contentTo, wholeM, wholeR, List.take_length, List.take_of_length_le all]

theorem freeRanges_visited : ∃ ranges, forEachFreeMemRange memblock nid fuel = some ranges ∧
      forEachFreeMemRangeReverse memblock nid fuel = some ranges.reverse ∧
        FreeRanges memblock nid ranges := by
  obtain ⟨ranges, forward, swept⟩ := visited_forward wellFormed nid enough
  obtain ⟨backwards, reverse, sweptBack⟩ := visited_reverse wellFormed nid enough
  refine ⟨ranges, forward, ?_, ?_⟩
  · have opposite :
      sweep (mirrored (nodeSpans nid memblock.memory)) (mirrored (gaps memblock.reserved)) =
        mirrored (sweep (nodeSpans nid memblock.memory) (gaps memblock.reserved)) := by
      rcases wellFormed.memory with empty | live
      · rw [(empty.nothing nid).1, (empty.nothing nid).2]
        rfl
      · exact sweep_mirrored (wellFormed.sweepable live nid)
    rw [opposite, ← swept, mirrored, ← List.map_reverse, List.map_map] at sweptBack
    rw [reverse]
    congr 1
    exact List.map_injective_iff.mpr (Span.mirror_injective.comp span_injective) sweptBack
  · rcases wellFormed.memory with empty | live
    · rw [(empty.nothing nid).1, List.map_eq_nil_iff] at swept
      rw [swept]
      exact freeRanges_placeholder empty
    · exact freeRanges_of_sweep wellFormed live swept

end Visits

/-- Over well-formed arrays the iteration `for_each_free_mem_range` ends and visits exactly the
free ranges of the node in ascending order; `for_each_free_mem_range_reverse` visits the same
ones in the opposite order. -/
theorem forEachFreeMemRange_exact (memblock : Memblock) (wellFormed : WellFormed memblock)
    (nid : Int) (fuel : Nat)
    (enough : memblock.memory.length + memblock.reserved.length + 1 < fuel) :
    ∃ ranges, forEachFreeMemRange memblock nid fuel = some ranges ∧
      forEachFreeMemRangeReverse memblock nid fuel = some ranges.reverse ∧
        FreeRanges memblock nid ranges :=
  freeRanges_visited wellFormed nid enough

/-- Two regions of memory, with a reservation inside the first and one across the end of the
second. -/
def twoBanks : Memblock :=
  ⟨[⟨0x8000, 0x1000, 0⟩, ⟨0xa000, 0x1000, 0⟩], [⟨0x8400, 0x100, 1⟩, ⟨0xa800, 0x4000, 1⟩],
    0xffffffff⟩

theorem twoBanks_wellFormed : WellFormed twoBanks :=
  ⟨Or.inr ⟨by decide, by decide, by decide⟩, Or.inr ⟨⟨by decide, by decide, by decide⟩, by decide⟩,
    by decide⟩

theorem forEachFreeMemRange_exact_twoBanks :
    WellFormed twoBanks ∧ ∃ ranges, forEachFreeMemRange twoBanks MAX_NUMNODES 6 = some ranges ∧
      forEachFreeMemRangeReverse twoBanks MAX_NUMNODES 6 = some ranges.reverse ∧
        FreeRanges twoBanks MAX_NUMNODES ranges :=
  ⟨twoBanks_wellFormed, forEachFreeMemRange_exact twoBanks twoBanks_wellFormed MAX_NUMNODES 6
    (by decide)⟩

example : forEachFreeMemRange twoBanks MAX_NUMNODES 6 =
    some [⟨0x8000, 0x8400, 0⟩, ⟨0x8500, 0x9000, 0⟩, ⟨0xa000, 0xa800, 0⟩] := by decide

end Iterations

end RouterKernel.MemoryBlocks
