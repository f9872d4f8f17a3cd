import RouterKernel.Bitmaps.Shift
import RouterKernel.Foundation.Dyadic
import RouterKernel.Foundation.Machine

/-!
Contract: runs of bits in the bitmaps of `lib/bitmap.c`.

Owns:
- `bitmap_set` and `bitmap_clear`, and that they change exactly their bits up to `INT_MAX`;
- `bitmap_find_next_zero_area`, and that it finds the first aligned area.

Bit numbers and counts of bits are not negative.
-/

namespace RouterKernel.Bitmaps

open RouterKernel.Foundation

/-! ## The code -/

/-- `BITMAP_FIRST_WORD_MASK`. -/
def firstWordMask (start : Nat) : U32 := ~~~0#32 <<< (start % 32)

/-- `BITMAP_LAST_WORD_MASK` of an `int`.  A negative rest shifts the bit out of the word: the
processor shifts by the last byte of it. -/
def lastWordMask (nbits : Int) : U32 :=
  if nbits.tmod 32 < 0 then 0 - 1
  else if nbits.tmod 32 ≠ 0 then (1#32 <<< (nbits.tmod 32).toNat) - 1
  else ~~~0#32

/-- The loop that `bitmap_set` and `bitmap_clear` share, at most so many times: `nr` bits are left,
`bits` of them in the word `p`. -/
def writeFrom (write : U32 → U32 → U32) (size : Int) : (count p nr bits : Nat) → U32 → Bitmap →
    Bitmap
  | 0, _, _, _, _, map => map
  | count + 1, p, nr, bits, mask, map =>
    if bits ≤ nr then writeFrom write size count (p + 1) (nr - bits) 32 (~~~0#32)
      (map.modify p (write · mask))
    else if nr ≠ 0 then map.modify p (write · (mask &&& lastWordMask size))
    else map

/-- The sum `start + nr` is an `int` and wraps around. -/
def writeBits (write : U32 → U32 → U32) (map : Bitmap) (start nr : Nat) : Bitmap :=
  writeFrom write (((start + nr : Nat) : Int).bmod (2 ^ 32)) (nr + 1) (start / 32) nr
    (32 - start % 32) (firstWordMask start) map

def bitmapSet : Bitmap → (start nr : Nat) → Bitmap := writeBits fun word mask => word ||| mask

def bitmapClear : Bitmap → (start nr : Nat) → Bitmap := writeBits fun word mask => word &&& ~~~mask

/-- `find_next_zero_bit`, the loop of `find_next_bit` over the complements of the words. -/
def findNextZeroBit (map : Bitmap) (size offset : Nat) : Nat :=
  findNextBit (map.map (~~~·)) size offset

def alignMask (word mask : U32) : U32 := (word + mask) &&& ~~~mask

/-- From one `again` to the next. -/
def areaTurn (map : Bitmap) (size nr mask start : U32) : Outcome U32 U32 :=
  let index := alignMask (BitVec.ofNat 32 (findNextZeroBit map size.toNat start.toNat)) mask
  let stop := index + nr
  if stop > size then .halted stop
  else
    let i := findNextBit map stop.toNat index.toNat
    if i < stop.toNat then .running (BitVec.ofNat 32 (i + 1)) else .halted index

def bitmapFindNextZeroArea (map : Bitmap) (size start nr mask : U32) (fuel : Nat) :
    Outcome U32 U32 :=
  runFor (areaTurn map size nr mask) fuel start

/-! ## Setting and clearing -/

section Write

variable {map : Bitmap}

theorem testBit_modify {p : Nat} (stored : p < map.length) (f : U32 → U32) (other : Nat) :
    testBit (map.modify p f) other =
      if other / 32 = p then (f (map.getD p 0)).getLsbD (other % 32) else testBit map other := by
  simp only [testBit, List.getD_eq_getElem?_getD, List.getElem?_modify]
  by_cases here : other / 32 = p
  · simp [here, stored]
  · simp [here, Ne.symm here]

theorem getLsbD_firstWordMask (start : Nat) {bit : Nat} (inside : bit < 32) :
    (firstWordMask start).getLsbD bit = decide (start % 32 ≤ bit) := by
  have low : bit - start % 32 < 32 := by omega
  rw [firstWordMask, BitVec.getLsbD_shiftLeft, BitVec.getLsbD_not, BitVec.getLsbD_zero]
  simp only [inside, low, decide_true, Bool.true_and, Bool.and_true, Bool.not_false, ← decide_not,
    Nat.not_lt]

theorem getLsbD_lastWordMask (nbits : Nat) {bit : Nat} (inside : bit < 32) :
    (lastWordMask nbits).getLsbD bit = decide (nbits % 32 = 0 ∨ bit < nbits % 32) := by
  have rest : (nbits : Int).tmod 32 = (nbits % 32 : Nat) := rfl
  rw [lastWordMask, rest, if_neg (Int.not_lt.mpr (Int.natCast_nonneg _)), Int.toNat_natCast]
  by_cases whole : nbits % 32 = 0
  · rw [if_neg (by simp [whole]), BitVec.getLsbD_not, BitVec.getLsbD_zero]
    simp [whole, inside]
  · rw [if_pos (Int.natCast_ne_zero.mpr whole), getLsbD_lowMask (Nat.mod_lt nbits (by decide))]
    simp [whole]

/-- With a write that makes the bits of the mask `value`, all bits of the run become it. -/
theorem writeFrom_bits {write : U32 → U32 → U32} {value : Bool}
    (writes : ∀ word mask bit, bit < 32 →
      (write word mask).getLsbD bit = if mask.getLsbD bit then value else word.getLsbD bit)
    (count : Nat) {start nr : Nat} (enough : nr < count) (room : start + nr ≤ 32 * map.length)
    (other : Nat) :
    testBit (writeFrom write ((start + nr : Nat) : Int) count (start / 32) nr (32 - start % 32)
        (firstWordMask start) map) other =
      if start ≤ other ∧ other < start + nr then value else testBit map other := by
  have small : other % 32 < 32 := Nat.mod_lt _ (by decide)
  induction count generalizing start nr map with
  | zero => omega
  | succ count ih =>
    rw [writeFrom]
    by_cases whole : 32 - start % 32 ≤ nr
    · -- the rest begins with a word
      have word : (start + (32 - start % 32)) / 32 = start / 32 + 1 := by omega
      have place : (start + (32 - start % 32)) % 32 = 0 := by omega
      have left : start + (32 - start % 32) + (nr - (32 - start % 32)) = start + nr := by omega
      have stored : start + (32 - start % 32) + (nr - (32 - start % 32)) ≤
          32 * (map.modify (start / 32) (write · (firstWordMask start))).length := by
        rw [List.length_modify, left]
        exact room
      have next := ih (by omega) stored
      rw [left, word, firstWordMask, place] at next
      rw [if_pos whole]
      refine next.trans ?_
      rw [testBit_modify (by omega), writes _ _ _ small, getLsbD_firstWordMask _ small]
      simp only [decide_eq_true_eq, testBit]
      split_ifs <;> first | rfl | omega | simp_all
    · rw [if_neg whole]
      by_cases some : nr = 0
      · rw [if_neg (not_not_intro some), if_neg (by omega)]
      rw [if_pos some, testBit_modify (by omega), writes _ _ _ small, BitVec.getLsbD_and,
        getLsbD_firstWordMask _ small, getLsbD_lastWordMask _ small]
      simp only [Bool.and_eq_true, decide_eq_true_eq, testBit]
      split_ifs <;> first | rfl | omega | simp_all

theorem getLsbD_set (word mask : U32) (bit : Nat) :
    (word ||| mask).getLsbD bit = if mask.getLsbD bit then true else word.getLsbD bit := by
  rw [BitVec.getLsbD_or]
  cases mask.getLsbD bit <;> simp

theorem getLsbD_clear (word mask : U32) {bit : Nat} (inside : bit < 32) :
    (word &&& ~~~mask).getLsbD bit = if mask.getLsbD bit then false else word.getLsbD bit := by
  rw [BitVec.getLsbD_and, BitVec.getLsbD_not, decide_eq_true inside]
  cases mask.getLsbD bit <;> simp

end Write

/-! ## Areas -/

structure Area (map : Bitmap) (size nr order index : Nat) : Prop where
  aligned : 2 ^ order ∣ index
  inside : index + nr ≤ size
  zero : ∀ bit, index ≤ bit → bit < index + nr → testBit map bit = false

/-- The first area from `start` on, or a value above the size. -/
def FirstArea (map : Bitmap) (size nr order start result : Nat) : Prop :=
  IsLeast (Set.ofPred fun index => start ≤ index ∧ Area map size nr order index) result ∨
    size < result ∧ ∀ index, start ≤ index → ¬ Area map size nr order index

theorem alignMask_spec {word mask : U32} {order : Nat} (power : mask.toNat + 1 = 2 ^ order)
    (room : word.toNat + mask.toNat + 1 < 2 ^ 32) :
    ∃ index, alignMask word mask = index ∧ 2 ^ order ∣ index.toNat ∧ word.toNat ≤ index.toNat ∧
      index.toNat ≤ word.toNat + mask.toNat ∧ ∀ n, 2 ^ order ∣ n → word.toNat ≤ n →
        index.toNat ≤ n := by
  have next : (mask + 1).toNat = mask.toNat + 1 := by bv_omega
  have rounded := and_not_pred (word + mask) (next.trans power)
  rw [BitVec.add_sub_cancel, BitVec.toNat_add, Nat.mod_eq_of_lt (by omega), ← alignMask] at rounded
  have above := Nat.lt_div_mul_add (Nat.two_pow_pos order) (a := word.toNat + mask.toNat)
  refine ⟨_, rfl, rounded ▸ Nat.dvd_mul_left _ _, by omega, rounded ▸ Nat.div_mul_le_self _ _, ?_⟩
  rintro _ ⟨count, rfl⟩ behind
  rw [rounded, Nat.mul_comm]
  refine Nat.mul_le_mul_left _ (Nat.le_of_lt_succ (Nat.div_lt_of_lt_mul ?_))
  rw [Nat.mul_succ]
  omega

section Search

variable {map : Bitmap} {size nr mask : U32} {order : Nat} (stored : size.toNat ≤ 32 * map.length)

include stored

/-- No zero bit is passed, and only behind the end the search goes back. -/
theorem findNextZeroBit_spec (start : Nat) :
    ∃ hole, findNextZeroBit map size.toNat start = hole ∧ hole ≤ size.toNat ∧
        (start ≤ hole ∨ hole = size.toNat) ∧
      ∀ bit, start ≤ bit → bit < size.toNat → testBit map bit = false → hole ≤ bit := by
  refine ⟨_, rfl, ?_⟩
  rw [findNextZeroBit]
  by_cases inside : start ≤ size.toNat
  · have next := findNextBit_spec (map.map (~~~·)) inside
    refine ⟨next.bound, .inl next.behind, fun bit behind below zero => next.le_of_set behind ?_⟩
    have word : bit / 32 < map.length := by omega
    rw [testBit, List.getD_eq_getElem?_getD, List.getElem?_eq_getElem word] at zero
    rw [testBit, List.getD_eq_getElem?_getD, List.getElem?_map, List.getElem?_eq_getElem word]
    simp_all [Nat.mod_lt]
  · rw [findNextBit, if_pos (by omega)]
    exact ⟨le_rfl, .inr rfl, fun bit behind below => by omega⟩

variable (some : 0 < nr.toNat) (power : mask.toNat + 1 = 2 ^ order)
  (room : size.toNat + nr.toNat + mask.toNat < 2 ^ 32)

include some power room

theorem areaTurn_cases (start : U32) : (∃ result, areaTurn map size nr mask start = .halted result ∧
      FirstArea map size.toNat nr.toNat order start.toNat result.toNat) ∨
    ∃ next, areaTurn map size nr mask start = .running next ∧ start.toNat < next.toNat ∧
        next.toNat ≤ size.toNat ∧
      ∀ index, start.toNat ≤ index → Area map size.toNat nr.toNat order index →
        next.toNat ≤ index := by
  obtain ⟨hole, found, bound, behind, least⟩ := findNextZeroBit_spec stored start.toNat
  have value : (BitVec.ofNat 32 hole).toNat = hole := Nat.mod_eq_of_lt (by omega)
  have short : (BitVec.ofNat 32 hole).toNat + mask.toNat + 1 < 2 ^ 32 := by omega
  obtain ⟨index, rounded, aligned, above, below, first⟩ := alignMask_spec power short
  rw [value] at above below first
  rw [areaTurn, found, rounded]
  have stop : (index + nr).toNat = index.toNat + nr.toNat := by
    rw [BitVec.toNat_add]
    exact Nat.mod_eq_of_lt (by omega)
  have lower (other : Nat) (after : start.toNat ≤ other)
      (area : Area map size.toNat nr.toNat order other) :
      index.toNat ≤ other := by
    have inside := area.inside
    exact first other area.aligned
      (least other after (by omega) (area.zero other le_rfl (by omega)))
  dsimp only
  by_cases passes : index + nr > size
  · have beyond : size.toNat < (index + nr).toNat := passes
    refine .inl ⟨index + nr, if_pos passes, .inr ⟨beyond, fun other after area => ?_⟩⟩
    have := lower other after area
    have := area.inside
    omega
  rw [if_neg passes]
  have fits : (index + nr).toNat ≤ size.toNat := BitVec.not_lt.mp passes
  have next := findNextBit_spec map (show index.toNat ≤ (index + nr).toNat by omega)
  generalize findNextBit map (index + nr).toNat index.toNat = i at *
  have low := next.behind
  by_cases blocked : i < (index + nr).toNat
  · have value : (BitVec.ofNat 32 (i + 1)).toNat = i + 1 := Nat.mod_eq_of_lt (by omega)
    refine .inr ⟨BitVec.ofNat 32 (i + 1), if_pos blocked,
      by omega, by omega, fun other after area => ?_⟩
    -- an area that begins before the set bit goes over it
    by_contra earlier
    have := lower other after area
    have clear := area.zero i (by omega) (by omega)
    rw [next.found blocked] at clear
    cases clear
  · refine .inl ⟨index,
      if_neg blocked, .inl ⟨⟨by omega, aligned, by omega, fun bit begins ends => ?_⟩, ?_⟩⟩
    · exact next.clear bit begins (by omega)
    · rintro other ⟨after, area⟩
      exact lower other after area

theorem bitmapFindNextZeroArea_first (fuel : Nat) (start : U32)
    (enough : size.toNat - start.toNat < fuel) :
    ∃ result, bitmapFindNextZeroArea map size start nr mask fuel = .halted result ∧
      FirstArea map size.toNat nr.toNat order start.toNat result.toNat := by
  induction fuel generalizing start with
  | zero => omega
  | succ fuel ih =>
    rw [bitmapFindNextZeroArea, runFor]
    rcases areaTurn_cases stored some power room start with ⟨result, stops, first⟩ |
      ⟨next, goes, later, inside, skips⟩
    · rw [stops]
      exact ⟨result, rfl, first⟩
    · rw [goes]
      obtain ⟨result, runs, first⟩ := ih next (by omega)
      refine ⟨result, runs, ?_⟩
      have same (index : Nat) : next.toNat ≤ index ∧ Area map size.toNat nr.toNat order index ↔
          start.toNat ≤ index ∧ Area map size.toNat nr.toNat order index :=
        ⟨fun found => ⟨by omega, found.2⟩, fun found => ⟨skips index found.1 found.2, found.2⟩⟩
      rcases first with least | ⟨beyond, none⟩
      · exact .inl (by simpa only [same] using least)
      · exact .inr ⟨beyond, fun index after area => none index (skips index after area) area⟩

end Search

/-- The search ends with the first aligned area of zeros or a value above the size, and setting
and clearing change exactly their bits. -/
theorem bitmapAreas_exact (map : Bitmap) {size nr mask : U32} {order : Nat}
    (stored : size.toNat ≤ 32 * map.length)
    (some : 0 < nr.toNat) (power : mask.toNat + 1 = 2 ^ order)
    (room : size.toNat + nr.toNat + mask.toNat < 2 ^ 32)
    (start : U32) {first count : Nat} (inside : first + count ≤ 32 * map.length)
    (small : first + count < 2 ^ 31) :
    (∀ fuel, size.toNat - start.toNat < fuel →
      ∃ result, bitmapFindNextZeroArea map size start nr mask fuel = .halted result ∧
        FirstArea map size.toNat nr.toNat order start.toNat result.toNat) ∧
    ∀ bit, testBit (bitmapSet map first count) bit =
        (if first ≤ bit ∧ bit < first + count then true else testBit map bit) ∧
      testBit (bitmapClear map first count) bit =
        if first ≤ bit ∧ bit < first + count then false else testBit map bit := by
  have exact : ((first + count : Nat) : Int).bmod (2 ^ 32) = (first + count : Nat) :=
    Int.bmod_eq_of_le (by omega) (by omega)
  refine ⟨fun fuel enough => bitmapFindNextZeroArea_first stored some power room fuel start enough,
    fun bit => ?_⟩
  rw [bitmapSet, bitmapClear, writeBits, writeBits, exact]
  exact ⟨writeFrom_bits (fun word mask bit _ => getLsbD_set word mask bit) _
      (Nat.lt_succ_self count) inside bit,
    writeFrom_bits (fun word mask _ small => getLsbD_clear word mask small) _
      (Nat.lt_succ_self count) inside bit⟩

/-- The area from bit 4 on is blocked by that bit. -/
theorem bitmapAreas_exact_blocked :
    (∃ result, bitmapFindNextZeroArea [16] 12 1 3 3 12 = .halted result ∧
        FirstArea [16] 12 3 2 1 result.toNat) ∧
      testBit (bitmapSet [16] 5 3) 6 = true := by
  have holds := bitmapAreas_exact [16] (show (12#32).toNat ≤ 32 * 1 by decide)
      (show 0 < (3#32).toNat by decide)
    (show (3#32).toNat + 1 = 2 ^ 2 by decide) (by decide) 1 (show 5 + 3 ≤ 32 * 1 by decide)
    (by decide)
  exact ⟨holds.1 12 (by decide), (holds.2 6).1⟩

/-- From `INT_MAX` on the sum is negative, and two bits set all bits of the second word. -/
theorem testBit_bitmapSet_intMax {map : Bitmap} (long : 2 ^ 26 < map.length) {bit : Nat}
    (second : bit / 32 = 2 ^ 26) :
    testBit (bitmapSet map 2147483647 2) bit = true := by
  have size : ((2147483647 + 2 : Nat) : Int).bmod (2 ^ 32) = -2147483647 := by decide
  have mask : ~~~0#32 &&& lastWordMask (-2147483647) = ~~~0#32 := by decide
  have word : 2147483647 / 32 + 1 = 2 ^ 26 := by norm_num
  rw [bitmapSet, writeBits, size, writeFrom, if_pos (by decide), writeFrom, if_neg (by decide),
      if_pos (by decide), mask,
    word, testBit_modify (by rwa [List.length_modify]), if_pos second, BitVec.getLsbD_or,
      BitVec.getLsbD_not]
  simp [Nat.mod_lt bit (show 0 < 32 by decide)]

theorem bitmapSet_wraps :
    testBit (List.replicate (2 ^ 26 + 1) 0) 2147483650 = false ∧
      testBit (bitmapSet (List.replicate (2 ^ 26 + 1) 0) 2147483647 2) 2147483650 = true := by
  constructor
  · rw [testBit, List.getD_eq_getElem?_getD, List.getElem?_replicate]
    split <;> rfl
  · exact testBit_bitmapSet_intMax (by rw [List.length_replicate]; norm_num) (by norm_num)

end RouterKernel.Bitmaps
