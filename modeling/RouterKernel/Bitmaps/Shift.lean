import RouterKernel.Bitmaps.Words

/-!
Contract: shifting the bitmaps of `lib/bitmap.c`.

Owns:
- `__bitmap_shift_right` and `__bitmap_shift_left`, for separate arrays and in place;
- what both do to every bit, whatever the unused bits of the source are.

Arrays are functions of their indices.  A shift by the whole width, which C leaves undefined, is
only ever made of the word zero.
-/

namespace RouterKernel.Bitmaps

open RouterKernel.Foundation

/-! ## The code -/

/-- The last word of a bitmap without its unused bits: `left && index == lim - 1`. -/
def maskLast (lim left index : Nat) (word : U32) : U32 :=
  if left ≠ 0 ∧ index = lim - 1 then word &&& ((1#32 <<< left) - 1) else word

/-- The word that `__bitmap_shift_right` stores at `k`. -/
def shiftedRight (src : Nat → U32) (lim left off rem k : Nat) : U32 :=
  let upper := if rem = 0 ∨ lim ≤ off + k + 1 then 0#32
    else maskLast lim left (off + k + 1) (src (off + k + 1))
  let lower := maskLast lim left (off + k) (src (off + k))
  maskLast lim left k (upper <<< (32 - rem) ||| lower >>> rem)

/-- The loop of `__bitmap_shift_right` from `k` on.  In place the source is the destination. -/
def shiftRightFrom (inPlace : Bool) (src : Nat → U32) (lim left off rem : Nat) :
    (count k : Nat) → (Nat → U32) → Nat → U32
  | 0, _, dst => dst
  | count + 1, k, dst =>
    let word := shiftedRight (if inPlace then dst else src) lim left off rem k
    shiftRightFrom inPlace src lim left off rem count (k + 1) (Function.update dst k word)

/-- `memset` of so many words to zero. -/
def zeroWords (dst : Nat → U32) (first count : Nat) (index : Nat) : U32 :=
  if first ≤ index ∧ index < first + count then 0 else dst index

def bitmapShiftRight (inPlace : Bool) (dst src : Nat → U32) (shift bits : Nat) : Nat → U32 :=
  let lim := bitsToLongs bits
  let off := shift / 32
  let dst := shiftRightFrom inPlace src lim (bits % 32) off (shift % 32) (lim - off) 0 dst
  if off ≠ 0 then zeroWords dst (lim - off) off else dst

/-- The word that `__bitmap_shift_left` stores at `k + off`. -/
def shiftedLeft (src : Nat → U32) (lim left off rem k : Nat) : U32 :=
  let lower := if rem ≠ 0 ∧ 0 < k then src (k - 1) else 0#32
  let upper := maskLast lim left k (src k)
  maskLast lim left (k + off) (lower >>> (32 - rem) ||| upper <<< rem)

/-- The loop of `__bitmap_shift_left` for the indices below `k`, downwards. -/
def shiftLeftFrom (inPlace : Bool) (src : Nat → U32) (lim left off rem : Nat) :
    (k : Nat) → (Nat → U32) → Nat → U32
  | 0, dst => dst
  | k + 1, dst =>
    let word := shiftedLeft (if inPlace then dst else src) lim left off rem k
    shiftLeftFrom inPlace src lim left off rem k (Function.update dst (k + off) word)

def bitmapShiftLeft (inPlace : Bool) (dst src : Nat → U32) (shift bits : Nat) : Nat → U32 :=
  let lim := bitsToLongs bits
  let off := shift / 32
  let dst := shiftLeftFrom inPlace src lim (bits % 32) off (shift % 32) (lim - off) dst
  if off ≠ 0 then zeroWords dst 0 off else dst

/-! ## Words -/

def bitAt (words : Nat → U32) (bit : Nat) : Bool := (words (bit / 32)).getLsbD (bit % 32)

theorem getLsbD_lowMask {left : Nat} (small : left < 32) (bit : Nat) :
    ((1#32 <<< left) - 1).getLsbD bit = decide (bit < left) := by
  have value : ((1#32 <<< left) - 1).toNat = 2 ^ left - 1 := by
    have power : 2 ^ left < 2 ^ 32 := Nat.pow_lt_pow_right (by decide) small
    have positive : 0 < 2 ^ left := Nat.two_pow_pos left
    have one : (1 : U32).toNat = 1 := rfl
    rw [BitVec.toNat_sub, BitVec.toNat_shiftLeft, Nat.shiftLeft_eq, show (1#32).toNat = 1 from rfl,
        one, Nat.one_mul,
      Nat.mod_eq_of_lt power]
    omega
  rw [BitVec.getLsbD, value, Nat.testBit_two_pow_sub_one]

section Bits

variable {bits : Nat}

theorem getLsbD_maskLast {index bit : Nat} (listed : index < bitsToLongs bits) (inside : bit < 32)
    (word : U32) :
    (maskLast (bitsToLongs bits) (bits % 32) index word).getLsbD bit =
      (decide (32 * index + bit < bits) && word.getLsbD bit) := by
  have small : bits % 32 < 32 := Nat.mod_lt _ (by decide)
  rw [bitsToLongs] at listed ⊢
  rw [maskLast]
  by_cases last : bits % 32 ≠ 0 ∧ index = (bits + 31) / 32 - 1
  · have same : 32 * index + bit < bits ↔ bit < bits % 32 := by omega
    rw [if_pos last, BitVec.getLsbD_and, getLsbD_lowMask small, Bool.and_comm,
      decide_eq_decide.mpr same]
  · have below : 32 * index + bit < bits := by omega
    rw [if_neg last, decide_eq_true below, Bool.true_and]

theorem bitAt_of_word (words : Nat → U32) {index bit : Nat} (inside : bit < 32) :
    bitAt words (32 * index + bit) = (words index).getLsbD bit := by
  have word : (32 * index + bit) / 32 = index := by omega
  have place : (32 * index + bit) % 32 = bit := by omega
  rw [bitAt, word, place]

theorem getLsbD_shiftedRight (src : Nat → U32) (shift : Nat) {k bit : Nat}
    (listed : k + shift / 32 < bitsToLongs bits)
    (inside : bit < 32) :
    (shiftedRight src (bitsToLongs bits) (bits % 32) (shift / 32) (shift % 32) k).getLsbD bit =
      (decide (32 * k + bit + shift < bits) && bitAt src (32 * k + bit + shift)) := by
  rw [shiftedRight]
  rw [getLsbD_maskLast (by omega) inside, BitVec.getLsbD_or, BitVec.getLsbD_shiftLeft,
    BitVec.getLsbD_ushiftRight]
  by_cases carry : bit + shift % 32 < 32
  · -- the bit comes from the word at the same distance
    have place : 32 * k + bit + shift = 32 * (shift / 32 + k) + (shift % 32 + bit) := by omega
    have low : bit < 32 - shift % 32 := by omega
    rw [decide_eq_true low, place, bitAt_of_word src (by omega),
      getLsbD_maskLast (show shift / 32 + k < bitsToLongs bits by omega) (show shift % 32 + bit <
        32 by omega)]
    by_cases stored : 32 * (shift / 32 + k) + (shift % 32 + bit) < bits
    · have own : 32 * k + bit < bits := by omega
      simp [stored, own]
    · simp [stored]
  · -- the bit comes from the word above, if there is one
    have place : 32 * k + bit + shift = 32 * (shift / 32 + k + 1) + (bit - (32 - shift % 32)) := by
      omega
    have high : ¬ bit < 32 - shift % 32 := by omega
    rw [decide_eq_false high, BitVec.getLsbD_of_ge _ _ (show 32 ≤ shift % 32 + bit by omega), place,
      bitAt_of_word src (by omega)]
    by_cases ended : shift % 32 = 0 ∨ bitsToLongs bits ≤ shift / 32 + k + 1
    · have beyond : ¬ 32 * (shift / 32 + k + 1) + (bit - (32 - shift % 32)) < bits := by
        rw [bitsToLongs] at ended
        omega
      simp [ended, beyond]
    · rw [if_neg ended, getLsbD_maskLast (show shift / 32 + k + 1 < bitsToLongs bits by omega)
        (show bit - (32 - shift % 32) < 32 by omega)]
      by_cases stored : 32 * (shift / 32 + k + 1) + (bit - (32 - shift % 32)) < bits
      · have own : 32 * k + bit < bits := by omega
        simp [stored, own, inside]
      · simp [stored]

theorem getLsbD_shiftedLeft (src : Nat → U32) (shift : Nat) {k bit : Nat}
    (listed : k + shift / 32 < bitsToLongs bits)
    (inside : bit < 32) :
    (shiftedLeft src (bitsToLongs bits) (bits % 32) (shift / 32) (shift % 32) k).getLsbD bit =
      (decide (shift ≤ 32 * (k + shift / 32) + bit ∧ 32 * (k + shift / 32) + bit < bits) &&
        bitAt src (32 * (k + shift / 32) + bit - shift)) := by
  rw [shiftedLeft]
  rw [getLsbD_maskLast listed inside, BitVec.getLsbD_or, BitVec.getLsbD_shiftLeft,
    BitVec.getLsbD_ushiftRight]
  by_cases stored : 32 * (k + shift / 32) + bit < bits
  swap
  · simp [stored]
  by_cases carry : bit < shift % 32
  · -- the bit comes from the word below, if there is one
    by_cases first : k = 0
    · simp [first, carry]
      omega
    · have place : 32 * (k + shift / 32) + bit - shift = 32 * (k - 1) + (32 - shift % 32 + bit) :=
        by omega
      have above : shift ≤ 32 * (k + shift / 32) + bit := by omega
      have lowerRead : shift % 32 ≠ 0 ∧ 0 < k := by omega
      rw [if_pos lowerRead, place, bitAt_of_word src (by omega)]
      simp [stored, above, carry]
  · have place : 32 * (k + shift / 32) + bit - shift = 32 * k + (bit - shift % 32) := by omega
    have above : shift ≤ 32 * (k + shift / 32) + bit := by omega
    have own : 32 * k + (bit - shift % 32) < bits := by omega
    have gone : (if shift % 32 ≠ 0 ∧ 0 < k then src (k - 1) else 0#32).getLsbD
        (32 - shift % 32 + bit) = false :=
      BitVec.getLsbD_of_ge _ _ (by omega)
    rw [gone, getLsbD_maskLast (by omega) (show bit - shift % 32 < 32 by omega), place,
      bitAt_of_word src (by omega)]
    simp [stored, above, own, carry, inside]

end Bits

/-! ## Loops -/

section Loops

variable {src : Nat → U32} {inPlace : Bool} {lim left off rem : Nat}

theorem shiftedRight_congr {other : Nat → U32} {k : Nat}
    (same : ∀ index, k ≤ index → other index = src index) :
    shiftedRight other lim left off rem k = shiftedRight src lim left off rem k := by
  rw [shiftedRight, shiftedRight, same (off + k) (by omega), same (off + k + 1) (by omega)]

theorem shiftedLeft_congr {other : Nat → U32} {k : Nat}
    (same : ∀ index ≤ k, other index = src index) :
    shiftedLeft other lim left off rem k = shiftedLeft src lim left off rem k := by
  rw [shiftedLeft, shiftedLeft, same k (le_refl k), same (k - 1) (Nat.sub_le k 1)]

/-- The loop stores the shifted words; in place it has not yet overwritten what it reads. -/
theorem shiftRightFrom_apply {dst : Nat → U32} {k : Nat}
    (fresh : inPlace = true → ∀ index, k ≤ index → dst index = src index)
    (count index : Nat) :
    shiftRightFrom inPlace src lim left off rem count k dst index =
      if k ≤ index ∧ index < k + count then shiftedRight src lim left off rem index
        else dst index := by
  induction count generalizing dst k with
  | zero => rw [shiftRightFrom, if_neg (by omega)]
  | succ count ih =>
    have word : shiftedRight (if inPlace then dst else src) lim left off rem k =
        shiftedRight src lim left off rem k := by
      refine shiftedRight_congr fun other behind => ?_
      cases inPlace with
      | false => rfl
      | true => exact fresh rfl other behind
    rw [shiftRightFrom]
    rw [word, ih]
    · by_cases here : index = k
      · subst here
        rw [if_neg (by omega), if_pos (by omega), Function.update_self]
      · rw [Function.update_of_ne here]
        have same : (k + 1 ≤ index ∧ index < k + 1 + count) ↔
          (k ≤ index ∧ index < k + (count + 1)) := by omega
        simp only [same]
    · intro place other behind
      rw [Function.update_of_ne (by omega)]
      exact fresh place other (by omega)

theorem shiftLeftFrom_apply {dst : Nat → U32} (k : Nat)
    (fresh : inPlace = true → ∀ index < k, dst index = src index)
    (index : Nat) :
    shiftLeftFrom inPlace src lim left off rem k dst index =
      if off ≤ index ∧ index < k + off then shiftedLeft src lim left off rem (index - off)
        else dst index := by
  induction k generalizing dst with
  | zero => rw [shiftLeftFrom, if_neg (by omega)]
  | succ k ih =>
    have word : shiftedLeft (if inPlace then dst else src) lim left off rem k =
        shiftedLeft src lim left off rem k := by
      refine shiftedLeft_congr fun other before => ?_
      cases inPlace with
      | false => rfl
      | true => exact fresh rfl other (by omega)
    rw [shiftLeftFrom]
    rw [word, ih]
    · by_cases here : index = k + off
      · subst here
        rw [if_neg (by omega), if_pos (by omega), Function.update_self, Nat.add_sub_cancel]
      · rw [Function.update_of_ne here]
        have same : (off ≤ index ∧ index < k + off) ↔ (off ≤ index ∧ index < k + 1 + off) := by
          omega
        simp only [same]
    · intro place other before
      rw [Function.update_of_ne (by omega)]
      exact fresh place other (by omega)

end Loops

section Shifts

variable {src dst : Nat → U32} {inPlace : Bool} {shift bits index : Nat}

/-- The words of the bitmap shifted right: behind the last shifted word there are zeros. -/
theorem bitmapShiftRight_word (place : inPlace = true → dst = src)
    (stored : index < bitsToLongs bits) :
    bitmapShiftRight inPlace dst src shift bits index = if index + shift / 32 < bitsToLongs bits
        then
        shiftedRight src (bitsToLongs bits) (bits % 32) (shift / 32) (shift % 32) index
      else 0#32 := by
  have fresh : inPlace = true → ∀ index, 0 ≤ index → dst index = src index :=
    fun same index _ => congrFun (place same) index
  rw [bitmapShiftRight]
  by_cases reached : index + shift / 32 < bitsToLongs bits
  · rw [if_pos reached]
    split
    · rw [zeroWords, if_neg (by omega), shiftRightFrom_apply fresh, if_pos (by omega)]
    · rw [shiftRightFrom_apply fresh, if_pos (by omega)]
  · rw [if_neg reached, if_pos (by omega), zeroWords, if_pos (by omega)]
    rfl

theorem bitmapShiftLeft_word (place : inPlace = true → dst = src)
    (stored : index < bitsToLongs bits) :
    bitmapShiftLeft inPlace dst src shift bits index = if shift / 32 ≤ index then
        shiftedLeft src (bitsToLongs bits) (bits % 32) (shift / 32) (shift % 32)
          (index - shift / 32)
      else 0#32 := by
  have fresh : inPlace = true → ∀ index < bitsToLongs bits - shift / 32, dst index = src index :=
    fun same index _ => congrFun (place same) index
  rw [bitmapShiftLeft]
  by_cases reached : shift / 32 ≤ index
  · rw [if_pos reached]
    split
    · rw [zeroWords, if_neg (by omega), shiftLeftFrom_apply _ fresh, if_pos (by omega)]
    · rw [shiftLeftFrom_apply _ fresh, if_pos (by omega)]
  · rw [if_neg reached, if_pos (by omega), zeroWords, if_pos (by omega)]
    rfl

end Shifts

/-- The shifts move every bit by `shift`, bring in zeros, and clear the unused bits; the source may
be the destination. -/
theorem bitmapShift_bits {shift bits : Nat} (within : shift < bits) (src : Nat → U32)
    {dst : Nat → U32} {inPlace : Bool}
    (place : inPlace = true → dst = src) {bit : Nat} (stored : bit < 32 * bitsToLongs bits) :
    bitAt (bitmapShiftRight inPlace dst src shift bits) bit =
        (decide (bit + shift < bits) && bitAt src (bit + shift)) ∧
      bitAt (bitmapShiftLeft inPlace dst src shift bits) bit =
        (decide (shift ≤ bit ∧ bit < bits) && bitAt src (bit - shift)) := by
  have words : 32 * (bitsToLongs bits - 1) < bits ∧ bits ≤ 32 * bitsToLongs bits ∧
      shift / 32 < bitsToLongs bits := by
    rw [bitsToLongs]
    omega
  have inside : bit % 32 < 32 := Nat.mod_lt _ (by decide)
  have split : 32 * (bit / 32) + bit % 32 = bit := Nat.div_add_mod bit 32
  constructor
  · rw [bitAt, bitmapShiftRight_word place (by omega)]
    by_cases reached : bit / 32 + shift / 32 < bitsToLongs bits
    · rw [if_pos reached, getLsbD_shiftedRight src shift reached inside, split]
    · have beyond : ¬ bit + shift < bits := by omega
      rw [if_neg reached, decide_eq_false beyond]
      simp
  · rw [bitAt, bitmapShiftLeft_word place (by omega)]
    by_cases reached : shift / 32 ≤ bit / 32
    · have back : bit / 32 - shift / 32 + shift / 32 = bit / 32 := Nat.sub_add_cancel reached
      rw [if_pos reached, getLsbD_shiftedLeft src shift (by omega) inside, back, split]
    · have before : ¬ (shift ≤ bit ∧ bit < bits) := by omega
      rw [if_neg reached, decide_eq_false before]
      simp

/-- Forty bits, all set, shifted in place by 33. -/
theorem bitmapShift_bits_forty :
    bitAt (bitmapShiftRight true (fun _ => 0xffffffff) (fun _ => 0xffffffff) 33 40) 6 = true ∧
      bitAt (bitmapShiftRight true (fun _ => 0xffffffff) (fun _ => 0xffffffff) 33 40) 7 =
        false := by
  have within : 33 < 40 := by decide
  have moved (bit : Nat) (stored : bit < 32 * bitsToLongs 40) :=
    (bitmapShift_bits within (fun _ => 0xffffffff) (fun _ : true = true => rfl) stored).1
  exact ⟨(moved 6 (by decide)).trans (by decide), (moved 7 (by decide)).trans (by decide)⟩

end RouterKernel.Bitmaps
