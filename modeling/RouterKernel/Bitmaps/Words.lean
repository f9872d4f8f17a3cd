import RouterKernel.Foundation.WordBitmap

/-!
Contract: the bitmaps of `lib/bitmap.c` as arrays of words.

Owns:
- testing and setting single bits, and ranges of them;
- `find_next_bit`;
- the errors of the two parsers.
-/

namespace RouterKernel.Bitmaps

open RouterKernel.Foundation

/-- `unsigned long *`, with as many words as `BITS_TO_LONGS` says. -/
abbrev Bitmap := List U32

def bitsToLongs (bits : Nat) : Nat := (bits + 31) / 32

def bitmapZero (bits : Nat) : Bitmap := List.replicate (bitsToLongs bits) 0

def testBit (mask : Bitmap) (bit : Nat) : Bool :=
  (mask.getD (bit / 32) 0).getLsbD (bit % 32)

def setBit (mask : Bitmap) (bit : Nat) : Bitmap :=
  mask.modify (bit / 32) (· ||| (1#32 <<< (bit % 32)))

/-- `count` times `set_bit(a, maskp); a++`. -/
def setBits (mask : Bitmap) (first : Nat) : Nat → Bitmap
  | 0 => mask
  | count + 1 => setBits (setBit mask first) (first + 1) count

/-- The character that separates ranges and chunks. -/
def COMMA : U8 := 44

inductive Errno where
  | EFAULT
  | EINVAL
  | ERANGE
  | EOVERFLOW
deriving DecidableEq, Repr

/-! ## Bits -/

theorem length_setBit (mask : Bitmap) (bit : Nat) : (setBit mask bit).length = mask.length :=
  List.length_modify _ _ _

variable {mask : Bitmap} {bit : Nat}

theorem testBit_setBit (inside : bit / 32 < mask.length) (other : Nat) :
    testBit (setBit mask bit) other = (decide (other = bit) || testBit mask other) := by
  have stored : bit < 32 * mask.length := by omega
  have same : setBit mask bit = Bitmap.insert mask bit := by
    rw [setBit, List.modify_eq_set_getElem?]
    simp [Bitmap.insert, inside]
  rw [same]
  exact Bitmap.test_insert stored other

theorem testBit_setBits {first count : Nat}
    (inside : ∀ bit, first ≤ bit → bit < first + count → bit / 32 < mask.length) (other : Nat) :
    testBit (setBits mask first count) other =
      (decide (first ≤ other ∧ other < first + count) || testBit mask other) := by
  induction count generalizing mask first with
  | zero =>
    have outside : ¬ (first ≤ other ∧ other < first + 0) := by omega
    rw [setBits, decide_eq_false outside, Bool.false_or]
  | succ count ih =>
    have later (bit : Nat) (low : first + 1 ≤ bit) (high : bit < first + 1 + count) :
        bit / 32 < (setBit mask first).length := by
      rw [length_setBit]
      exact inside bit (by omega) (by omega)
    rw [setBits, ih later, testBit_setBit (inside first (by omega) (by omega)), ← Bool.or_assoc]
    congr 1
    rw [Bool.eq_iff_iff]
    simp only [Bool.or_eq_true, decide_eq_true_eq]
    omega

theorem length_setBits (mask : Bitmap) (first count : Nat) :
    (setBits mask first count).length = mask.length := by
  induction count generalizing mask first with
  | zero => rfl
  | succ count ih => rw [setBits, ih, length_setBit]

theorem testBit_bitmapZero (bits bit : Nat) : testBit (bitmapZero bits) bit = false := by
  rw [testBit, bitmapZero, List.getD_eq_getElem?_getD, List.getElem?_replicate]
  split <;> simp

theorem word_inside {bits : Nat} (inside : bit < bits) : bit / 32 < bitsToLongs bits := by
  rw [bitsToLongs]
  omega

/-! ## Searching -/

def scanBits (mask : Bitmap) : Nat → Nat → Nat
  | 0, position => position
  | count + 1, position =>
    if testBit mask position then position else scanBits mask count (position + 1)

def findNextBit (mask : Bitmap) (size offset : Nat) : Nat :=
  if size ≤ offset then size else scanBits mask (size - offset) offset

/-- `position` is the first set bit from `offset` on, or the end. -/
structure NextBit (mask : Bitmap) (size offset position : Nat) : Prop where
  behind : offset ≤ position
  bound : position ≤ size
  found : position < size → testBit mask position = true
  clear : ∀ bit, offset ≤ bit → bit < position → testBit mask bit = false

theorem NextBit.le_of_set {size offset position : Nat} (next : NextBit mask size offset position)
    (behind : offset ≤ bit) (set : testBit mask bit = true) : position ≤ bit := by
  by_contra passed
  rw [next.clear bit behind (by omega)] at set
  cases set

theorem scanBits_spec (mask : Bitmap) (count position : Nat) :
    NextBit mask (position + count) position (scanBits mask count position) := by
  induction count generalizing position with
  | zero =>
    exact ⟨le_refl _, le_refl _, fun less => absurd less (lt_irrefl _), fun bit low high => by
      rw [scanBits] at high
      omega⟩
  | succ count ih =>
    rw [scanBits]
    by_cases set : testBit mask position = true
    · rw [if_pos set]
      exact ⟨le_refl _, by omega, fun _ => set, fun bit low high => by omega⟩
    · rw [if_neg set]
      obtain ⟨behind, bound, found, clear⟩ := ih (position + 1)
      refine ⟨by omega, by omega, fun less => found (by omega), ?_⟩
      intro bit low high
      by_cases here : bit = position
      · exact here ▸ Bool.eq_false_of_not_eq_true set
      · exact clear bit (by omega) high

theorem findNextBit_spec (mask : Bitmap) {size offset : Nat} (inside : offset ≤ size) :
    NextBit mask size offset (findNextBit mask size offset) := by
  rw [findNextBit]
  by_cases ended : size ≤ offset
  · rw [if_pos ended]
    exact ⟨inside, le_refl _, fun less => absurd less (lt_irrefl _), fun bit low high => by omega⟩
  · rw [if_neg ended]
    have spec := scanBits_spec mask (size - offset) offset
    rwa [Nat.add_sub_cancel' inside] at spec

end RouterKernel.Bitmaps
