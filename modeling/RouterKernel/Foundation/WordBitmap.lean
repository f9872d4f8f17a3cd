import RouterKernel.Foundation.Words

/-!
Contract: sets of bit numbers stored in a list of machine words.

Owns:
- the checked word accesses of C array code (`testAt`, `setAt`, `clearAt`,
  `zeroWords`);
- their pure counterparts and the law of each one: which bit numbers it
  changes and which it leaves alone.

Does not own: how a client maps its own keys to bit numbers.
-/

namespace RouterKernel.Foundation

variable {w : Nat}

/-- Bit `n` of the map lives in word `n / w` at position `n % w`. -/
abbrev Bitmap (w : Nat) := List (BitVec w)

namespace Bitmap

def test (bmp : Bitmap w) (n : Nat) : Bool :=
  (bmp.getD (n / w) 0#w).getLsbD (n % w)

def loadWord (bmp : Bitmap w) (nr : Nat) : Except Fault (BitVec w) :=
  match bmp[nr]? with
  | some word => .ok word
  | none => .error (.outOfBounds nr)

def storeWord (bmp : Bitmap w) (nr : Nat) (word : BitVec w) : Except Fault (Bitmap w) :=
  if nr < bmp.length then .ok (List.set bmp nr word)
  else .error (.outOfBounds nr)

/-- `bmp[nr] & (1U << bit)` -/
def testAt (bmp : Bitmap w) (nr bit : Nat) : Except Fault Bool := do
  let word ← loadWord bmp nr
  return word &&& (1#w <<< bit) != 0#w

/-- `bmp[nr] |= (1U << bit)` -/
def setAt (bmp : Bitmap w) (nr bit : Nat) : Except Fault (Bitmap w) := do
  let word ← loadWord bmp nr
  storeWord bmp nr (word ||| (1#w <<< bit))

/-- `bmp[nr] &= ~(1U << bit)` -/
def clearAt (bmp : Bitmap w) (nr bit : Nat) : Except Fault (Bitmap w) := do
  let word ← loadWord bmp nr
  storeWord bmp nr (word &&& ~~~(1#w <<< bit))

/-- `for (i = 0; i < count; i++) bmp[i] = 0` -/
def zeroWords (bmp : Bitmap w) (count : Nat) : Except Fault (Bitmap w) :=
  (List.range count).foldlM (fun current nr => storeWord current nr 0#w) bmp

/-! ## Pure counterparts -/

def insert (bmp : Bitmap w) (n : Nat) : Bitmap w :=
  List.set bmp (n / w) (bmp.getD (n / w) 0#w ||| (1#w <<< (n % w)))

def erase (bmp : Bitmap w) (n : Nat) : Bitmap w :=
  List.set bmp (n / w) (bmp.getD (n / w) 0#w &&& ~~~(1#w <<< (n % w)))

def zeroPrefix (bmp : Bitmap w) (count : Nat) : Bitmap w :=
  List.replicate count 0#w ++ bmp.drop count

@[simp] theorem length_insert (bmp : Bitmap w) (n : Nat) : (insert bmp n).length = bmp.length := by
  simp [insert]

@[simp] theorem length_erase (bmp : Bitmap w) (n : Nat) : (erase bmp n).length = bmp.length := by
  simp [erase]

variable {count n : Nat} {bmp : Bitmap w}

theorem length_zeroPrefix (bmp : Bitmap w) (fits : count ≤ bmp.length) :
    (zeroPrefix bmp count).length = bmp.length := by
  simp [zeroPrefix]
  omega

private theorem loadWord_ok {nr : Nat} (inside : nr < bmp.length) :
    loadWord bmp nr = .ok (bmp.getD nr 0#w) := by
  simp [loadWord, List.getElem?_eq_getElem inside]

private theorem word_of_lt (stored : n < w * bmp.length) : n / w < bmp.length :=
  Nat.div_lt_of_lt_mul stored

private theorem width_pos_of_stored (stored : n < w * bmp.length) : 0 < w := by
  rcases Nat.eq_zero_or_pos w with rfl | positive
  · simp at stored
  · exact positive

theorem and_bit_ne_zero (word : BitVec w) (position : Nat) (inside : position < w) :
    (word &&& (1#w <<< position) != 0#w) = word.getLsbD position := by
  rw [← BitVec.twoPow_eq, BitVec.and_twoPow]
  have nonzero : BitVec.twoPow w position ≠ 0#w := by
    intro zero
    have atBit := congrArg (fun value => value.getLsbD position) zero
    simp [inside] at atBit
  cases bit : word.getLsbD position with
  | true => simpa using nonzero
  | false => simp

private theorem mod_eq_iff_of_div_eq {m : Nat} (sameWord : n / w = m / w) :
    m % w = n % w ↔ m = n := by
  constructor
  · intro equal
    rw [← Nat.div_add_mod m w, ← Nat.div_add_mod n w, sameWord, equal]
  · rintro rfl
    rfl

section

variable (stored : n < w * bmp.length)

include stored

theorem testAt_ok : testAt bmp (n / w) (n % w) = .ok (test bmp n) := by
  simp only [testAt, loadWord_ok (word_of_lt stored), bind, Except.bind, pure, Except.pure]
  rw [and_bit_ne_zero _ _ (Nat.mod_lt n (width_pos_of_stored stored)), test]

theorem setAt_ok : setAt bmp (n / w) (n % w) = .ok (insert bmp n) := by
  simp [setAt, loadWord_ok (word_of_lt stored), storeWord, word_of_lt stored, insert, bind,
    Except.bind]

theorem clearAt_ok : clearAt bmp (n / w) (n % w) = .ok (erase bmp n) := by
  simp [clearAt, loadWord_ok (word_of_lt stored), storeWord, word_of_lt stored, erase, bind,
    Except.bind]

private theorem test_set (word : BitVec w) (m : Nat) :
    test (bmp.set (n / w) word) m = if n / w = m / w then word.getLsbD (m % w) else test bmp m := by
  simp only [test, List.getD_eq_getElem?_getD, List.getElem?_set, word_of_lt stored, if_true]
  split_ifs <;> rfl

theorem test_insert (m : Nat) : test (insert bmp n) m = (decide (m = n) || test bmp m) := by
  have position := Nat.mod_lt m (width_pos_of_stored stored)
  rw [insert, test_set stored]
  split_ifs with sameWord
  · rw [BitVec.getLsbD_or, ← BitVec.twoPow_eq]
    simp [test, sameWord, position, ← mod_eq_iff_of_div_eq sameWord, eq_comm, Bool.or_comm]
  · simp [show m ≠ n by rintro rfl; exact sameWord rfl]

theorem test_erase (m : Nat) : test (erase bmp n) m = (decide (m ≠ n) && test bmp m) := by
  have position := Nat.mod_lt m (width_pos_of_stored stored)
  rw [erase, test_set stored]
  split_ifs with sameWord
  · rw [BitVec.getLsbD_and, BitVec.getLsbD_not, ← BitVec.twoPow_eq]
    simp [test, sameWord, position, ← mod_eq_iff_of_div_eq sameWord, eq_comm, Bool.and_comm]
  · simp [show m ≠ n by rintro rfl; exact sameWord rfl]

end

/-! ## Zeroing whole words -/

private theorem storeWord_zeroPrefix (inside : count < bmp.length) :
    storeWord (zeroPrefix bmp count) count 0#w = .ok (zeroPrefix bmp (count + 1)) := by
  have stored : count < (zeroPrefix bmp count).length := by
    rw [length_zeroPrefix bmp inside.le]
    exact inside
  rw [storeWord, if_pos stored]
  congr 1
  rw [zeroPrefix, zeroPrefix, List.set_append_right _ _ (by simp), List.replicate_succ',
    List.drop_eq_getElem_cons inside]
  simp only [List.length_replicate, Nat.sub_self, List.set_cons_zero, List.append_assoc,
    List.singleton_append]

theorem zeroWords_ok (bmp : Bitmap w) (fits : count ≤ bmp.length) :
    zeroWords bmp count = .ok (zeroPrefix bmp count) := by
  induction count with
  | zero => simp [zeroWords, zeroPrefix, pure, Except.pure]
  | succ count ih =>
    have previous := ih (by omega)
    rw [zeroWords] at previous ⊢
    rw [List.range_succ, List.foldlM_append, previous]
    simp [bind, Except.bind, pure, Except.pure,
      storeWord_zeroPrefix (show count < bmp.length by omega)]

theorem test_zeroPrefix (bmp : Bitmap w) {m : Nat} (zeroed : m / w < count) :
    test (zeroPrefix bmp count) m = false := by
  simp [test, zeroPrefix, List.getElem?_append_left, zeroed]

@[simp] theorem test_replicate_zero (count m : Nat) :
    test (List.replicate count 0#w) m = false := by
  simp only [test, List.getD_eq_getElem?_getD, List.getElem?_replicate]
  split <;> simp

end Bitmap

end RouterKernel.Foundation
