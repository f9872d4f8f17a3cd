import RouterKernel.Foundation.Words
import RouterKernel.Foundation.XorSums

/-!
Contract: the software error correction code of `drivers/mtd/nand/nand_ecc.c`.

Owns:
- `__nand_calculate_ecc` with its unrolled loop and its tables;
- `__nand_correct_data`;
- that the loop computes the row parities, as sums over the words of a block.

Memory is little endian and the code bytes are not in the order of the Smart Media Card
specification, as this kernel is configured.  A block is the memory at `buf`.
-/

namespace RouterKernel.Ecc

open RouterKernel.Foundation

/-! ## Model -/

def invparity : List U8 :=
  [1, 0, 0, 1, 0, 1, 1, 0, 0, 1, 1, 0, 1, 0, 0, 1, 0, 1, 1, 0, 1, 0, 0, 1, 1, 0, 0, 1, 0, 1, 1, 0,
   0, 1, 1, 0, 1, 0, 0, 1, 1, 0, 0, 1, 0, 1, 1, 0,
   1, 0, 0, 1, 0, 1, 1, 0, 0, 1, 1, 0, 1, 0, 0, 1,
   0, 1, 1, 0, 1, 0, 0, 1, 1, 0, 0, 1, 0, 1, 1, 0,
   1, 0, 0, 1, 0, 1, 1, 0, 0, 1, 1, 0, 1, 0, 0, 1,
   1, 0, 0, 1, 0, 1, 1, 0, 0, 1, 1, 0, 1, 0, 0, 1,
   0, 1, 1, 0, 1, 0, 0, 1, 1, 0, 0, 1, 0, 1, 1, 0,
   0, 1, 1, 0, 1, 0, 0, 1, 1, 0, 0, 1, 0, 1, 1, 0,
   1, 0, 0, 1, 0, 1, 1, 0, 0, 1, 1, 0, 1, 0, 0, 1,
   1, 0, 0, 1, 0, 1, 1, 0, 0, 1, 1, 0, 1, 0, 0, 1,
   0, 1, 1, 0, 1, 0, 0, 1, 1, 0, 0, 1, 0, 1, 1, 0,
   1, 0, 0, 1, 0, 1, 1, 0, 0, 1, 1, 0, 1, 0, 0, 1,
   0, 1, 1, 0, 1, 0, 0, 1, 1, 0, 0, 1, 0, 1, 1, 0,
   0, 1, 1, 0, 1, 0, 0, 1, 1, 0, 0, 1, 0, 1, 1, 0,
   1, 0, 0, 1, 0, 1, 1, 0, 0, 1, 1, 0, 1, 0, 0, 1]

def bitsperbyte : List U8 :=
  [0, 1, 1, 2, 1, 2, 2, 3, 1, 2, 2, 3, 2, 3, 3, 4, 1, 2, 2, 3, 2, 3, 3, 4, 2, 3, 3, 4, 3, 4, 4, 5,
   1, 2, 2, 3, 2, 3, 3, 4, 2, 3, 3, 4, 3, 4, 4, 5,
   2, 3, 3, 4, 3, 4, 4, 5, 3, 4, 4, 5, 4, 5, 5, 6,
   1, 2, 2, 3, 2, 3, 3, 4, 2, 3, 3, 4, 3, 4, 4, 5,
   2, 3, 3, 4, 3, 4, 4, 5, 3, 4, 4, 5, 4, 5, 5, 6,
   2, 3, 3, 4, 3, 4, 4, 5, 3, 4, 4, 5, 4, 5, 5, 6,
   3, 4, 4, 5, 4, 5, 5, 6, 4, 5, 5, 6, 5, 6, 6, 7,
   1, 2, 2, 3, 2, 3, 3, 4, 2, 3, 3, 4, 3, 4, 4, 5,
   2, 3, 3, 4, 3, 4, 4, 5, 3, 4, 4, 5, 4, 5, 5, 6,
   2, 3, 3, 4, 3, 4, 4, 5, 3, 4, 4, 5, 4, 5, 5, 6,
   3, 4, 4, 5, 4, 5, 5, 6, 4, 5, 5, 6, 5, 6, 6, 7,
   2, 3, 3, 4, 3, 4, 4, 5, 3, 4, 4, 5, 4, 5, 5, 6,
   3, 4, 4, 5, 4, 5, 5, 6, 4, 5, 5, 6, 5, 6, 6, 7,
   3, 4, 4, 5, 4, 5, 5, 6, 4, 5, 5, 6, 5, 6, 6, 7,
   4, 5, 5, 6, 5, 6, 6, 7, 5, 6, 6, 7, 6, 7, 7, 8]

def addressbits : List U8 :=
  [0x00, 0x00, 0x01, 0x01, 0x00, 0x00, 0x01, 0x01, 0x02, 0x02, 0x03, 0x03, 0x02, 0x02, 0x03, 0x03,
   0x00, 0x00, 0x01, 0x01, 0x00, 0x00, 0x01, 0x01, 0x02, 0x02, 0x03, 0x03, 0x02, 0x02, 0x03, 0x03,
   0x04, 0x04, 0x05, 0x05, 0x04, 0x04, 0x05, 0x05, 0x06, 0x06, 0x07, 0x07, 0x06, 0x06, 0x07, 0x07,
   0x04, 0x04, 0x05, 0x05, 0x04, 0x04, 0x05, 0x05, 0x06, 0x06, 0x07, 0x07, 0x06, 0x06, 0x07, 0x07,
   0x00, 0x00, 0x01, 0x01, 0x00, 0x00, 0x01, 0x01, 0x02, 0x02, 0x03, 0x03, 0x02, 0x02, 0x03, 0x03,
   0x00, 0x00, 0x01, 0x01, 0x00, 0x00, 0x01, 0x01, 0x02, 0x02, 0x03, 0x03, 0x02, 0x02, 0x03, 0x03,
   0x04, 0x04, 0x05, 0x05, 0x04, 0x04, 0x05, 0x05, 0x06, 0x06, 0x07, 0x07, 0x06, 0x06, 0x07, 0x07,
   0x04, 0x04, 0x05, 0x05, 0x04, 0x04, 0x05, 0x05, 0x06, 0x06, 0x07, 0x07, 0x06, 0x06, 0x07, 0x07,
   0x08, 0x08, 0x09, 0x09, 0x08, 0x08, 0x09, 0x09, 0x0a, 0x0a, 0x0b, 0x0b, 0x0a, 0x0a, 0x0b, 0x0b,
   0x08, 0x08, 0x09, 0x09, 0x08, 0x08, 0x09, 0x09, 0x0a, 0x0a, 0x0b, 0x0b, 0x0a, 0x0a, 0x0b, 0x0b,
   0x0c, 0x0c, 0x0d, 0x0d, 0x0c, 0x0c, 0x0d, 0x0d, 0x0e, 0x0e, 0x0f, 0x0f, 0x0e, 0x0e, 0x0f, 0x0f,
   0x0c, 0x0c, 0x0d, 0x0d, 0x0c, 0x0c, 0x0d, 0x0d, 0x0e, 0x0e, 0x0f, 0x0f, 0x0e, 0x0e, 0x0f, 0x0f,
   0x08, 0x08, 0x09, 0x09, 0x08, 0x08, 0x09, 0x09, 0x0a, 0x0a, 0x0b, 0x0b, 0x0a, 0x0a, 0x0b, 0x0b,
   0x08, 0x08, 0x09, 0x09, 0x08, 0x08, 0x09, 0x09, 0x0a, 0x0a, 0x0b, 0x0b, 0x0a, 0x0a, 0x0b, 0x0b,
   0x0c, 0x0c, 0x0d, 0x0d, 0x0c, 0x0c, 0x0d, 0x0d, 0x0e, 0x0e, 0x0f, 0x0f, 0x0e, 0x0e, 0x0f, 0x0f,
   0x0c, 0x0c, 0x0d, 0x0d, 0x0c, 0x0c, 0x0d, 0x0d, 0x0e, 0x0e, 0x0f, 0x0f, 0x0e, 0x0e, 0x0f, 0x0f]

abbrev Block := Nat → U8

/-- `bp[w]`. -/
def wordAt (buf : Block) (w : Nat) : U32 :=
  buf (4 * w + 3) ++ buf (4 * w + 2) ++ buf (4 * w + 1) ++ buf (4 * w)

structure Sums where
  par : U32
  rp4 : U32
  rp6 : U32
  rp8 : U32
  rp10 : U32
  rp12 : U32
  rp14 : U32
  rp16 : U32

/-- The body of the loop; `cur k` is the word that the `k`th `*bp++` of the turn reads. -/
def eccTurn (eccsizeMult : Nat) (i : Nat) (cur : Nat → U32) (s : Sums) : Sums :=
  let tmppar := cur 0
  let rp4 := s.rp4 ^^^ cur 0
  let tmppar := tmppar ^^^ cur 1
  let rp6 := s.rp6 ^^^ tmppar
  let tmppar := tmppar ^^^ cur 2
  let rp4 := rp4 ^^^ cur 2
  let tmppar := tmppar ^^^ cur 3
  let rp8 := s.rp8 ^^^ tmppar
  let tmppar := tmppar ^^^ cur 4
  let rp4 := rp4 ^^^ cur 4
  let rp6 := rp6 ^^^ cur 4
  let tmppar := tmppar ^^^ cur 5
  let rp6 := rp6 ^^^ cur 5
  let tmppar := tmppar ^^^ cur 6
  let rp4 := rp4 ^^^ cur 6
  let tmppar := tmppar ^^^ cur 7
  let rp10 := s.rp10 ^^^ tmppar
  let tmppar := tmppar ^^^ cur 8
  let rp4 := rp4 ^^^ cur 8
  let rp6 := rp6 ^^^ cur 8
  let rp8 := rp8 ^^^ cur 8
  let tmppar := tmppar ^^^ cur 9
  let rp6 := rp6 ^^^ cur 9
  let rp8 := rp8 ^^^ cur 9
  let tmppar := tmppar ^^^ cur 10
  let rp4 := rp4 ^^^ cur 10
  let rp8 := rp8 ^^^ cur 10
  let tmppar := tmppar ^^^ cur 11
  let rp8 := rp8 ^^^ cur 11
  let tmppar := tmppar ^^^ cur 12
  let rp4 := rp4 ^^^ cur 12
  let rp6 := rp6 ^^^ cur 12
  let tmppar := tmppar ^^^ cur 13
  let rp6 := rp6 ^^^ cur 13
  let tmppar := tmppar ^^^ cur 14
  let rp4 := rp4 ^^^ cur 14
  let tmppar := tmppar ^^^ cur 15
  { par := s.par ^^^ tmppar
    rp4, rp6, rp8, rp10
    rp12 := if i &&& 0x1 = 0 then s.rp12 ^^^ tmppar else s.rp12
    rp14 := if i &&& 0x2 = 0 then s.rp14 ^^^ tmppar else s.rp14
    rp16 := if eccsizeMult = 2 ∧ i &&& 0x4 = 0 then s.rp16 ^^^ tmppar else s.rp16 }

/-- The loop: `count` turns over the words of `buf`. -/
def eccLoop (buf : Block) (eccsizeMult : Nat) : Nat → Sums
  | 0 => ⟨0, 0, 0, 0, 0, 0, 0, 0⟩
  | i + 1 => eccTurn eccsizeMult i (fun k => wordAt buf (16 * i + k)) (eccLoop buf eccsizeMult i)

/-- `x ^= (x >> 16); x ^= (x >> 8); x &= 0xff`. -/
def foldWord (x : U32) : U32 :=
  let x := x ^^^ (x >>> 16)
  let x := x ^^^ (x >>> 8)
  x &&& 0xff

/-- The parities of single bytes: `rp0` to `rp17`, and `par`. -/
structure Rows where
  rp0 : U32
  rp1 : U32
  rp2 : U32
  rp3 : U32
  rp4 : U32
  rp5 : U32
  rp6 : U32
  rp7 : U32
  rp8 : U32
  rp9 : U32
  rp10 : U32
  rp11 : U32
  rp12 : U32
  rp13 : U32
  rp14 : U32
  rp15 : U32
  rp16 : U32
  rp17 : U32
  par : U32

/-- The code between the loop and the code bytes; `rp16` and `rp17` are used only for blocks
of 512 bytes. -/
def eccRows (s : Sums) : Rows :=
  let rp4 := foldWord s.rp4
  let rp6 := foldWord s.rp6
  let rp8 := foldWord s.rp8
  let rp10 := foldWord s.rp10
  let rp12 := foldWord s.rp12
  let rp14 := foldWord s.rp14
  let rp16 := foldWord s.rp16
  let rp3 := s.par >>> 16
  let rp3 := (rp3 ^^^ (rp3 >>> 8)) &&& 0xff
  let rp2 := s.par &&& 0xffff
  let rp2 := (rp2 ^^^ (rp2 >>> 8)) &&& 0xff
  let par := s.par ^^^ (s.par >>> 16)
  let rp1 := (par >>> 8) &&& 0xff
  let rp0 := par &&& 0xff
  let par := (par ^^^ (par >>> 8)) &&& 0xff
  { rp0, rp1, rp2, rp3, rp4, rp6, rp8, rp10, rp12, rp14, rp16, par
    rp5 := (par ^^^ rp4) &&& 0xff
    rp7 := (par ^^^ rp6) &&& 0xff
    rp9 := (par ^^^ rp8) &&& 0xff
    rp11 := (par ^^^ rp10) &&& 0xff
    rp13 := (par ^^^ rp12) &&& 0xff
    rp15 := (par ^^^ rp14) &&& 0xff
    rp17 := (par ^^^ rp16) &&& 0xff }

def inverse (x : U32) : U8 := invparity.getD x.toNat 0

structure Code where
  code0 : U8
  code1 : U8
  code2 : U8
deriving DecidableEq, Repr

def eccCode (eccsizeMult : Nat) (r : Rows) : Code where
  code1 :=
    inverse r.rp7 <<< 7 ||| inverse r.rp6 <<< 6 ||| inverse r.rp5 <<< 5 ||| inverse r.rp4 <<< 4 |||
      inverse r.rp3 <<< 3 ||| inverse r.rp2 <<< 2 ||| inverse r.rp1 <<< 1 ||| inverse r.rp0
  code0 :=
    inverse r.rp15 <<< 7 ||| inverse r.rp14 <<< 6 ||| inverse r.rp13 <<< 5 |||
        inverse r.rp12 <<< 4 |||
      inverse r.rp11 <<< 3 ||| inverse r.rp10 <<< 2 ||| inverse r.rp9 <<< 1 ||| inverse r.rp8
  code2 :=
    if eccsizeMult = 1 then
      inverse (r.par &&& 0xf0) <<< 7 ||| inverse (r.par &&& 0x0f) <<< 6 |||
          inverse (r.par &&& 0xcc) <<< 5 |||
        inverse (r.par &&& 0x33) <<< 4 ||| inverse (r.par &&& 0xaa) <<< 3 |||
          inverse (r.par &&& 0x55) <<< 2 ||| 3
    else
      inverse (r.par &&& 0xf0) <<< 7 ||| inverse (r.par &&& 0x0f) <<< 6 |||
          inverse (r.par &&& 0xcc) <<< 5 |||
        inverse (r.par &&& 0x33) <<< 4 ||| inverse (r.par &&& 0xaa) <<< 3 |||
          inverse (r.par &&& 0x55) <<< 2 |||
        inverse r.rp17 <<< 1 ||| inverse r.rp16 <<< 0

def nandCalculateEcc (buf : Block) (eccsize : Nat) : Code :=
  let eccsizeMult := eccsize >>> 8
  eccCode eccsizeMult (eccRows (eccLoop buf eccsizeMult (eccsizeMult <<< 2)))

/-- Whether the pairs of bits that the mask selects have one bit each. -/
def paired (b mask : U8) : Bool := (b ^^^ (b >>> 1)) &&& mask == mask

/-- `__nand_correct_data`: the value returned and the block. -/
def nandCorrectData (buf : Block) (readEcc calcEcc : Code) (eccsize : Nat) : Int × Block :=
  let eccsizeMult := eccsize >>> 8
  let b0 := readEcc.code1 ^^^ calcEcc.code1
  let b1 := readEcc.code0 ^^^ calcEcc.code0
  let b2 := readEcc.code2 ^^^ calcEcc.code2
  if b0 ||| b1 ||| b2 = 0 then (0, buf)
  else if paired b0 0x55 && paired b1 0x55 &&
      ((eccsizeMult == 1 && paired b2 0x54) || (eccsizeMult == 2 && paired b2 0x55)) then
    let low := (addressbits.getD b1.toNat 0).toNat * 2 ^ 4 + (addressbits.getD b0.toNat 0).toNat
    let byteAddr :=
      if eccsizeMult = 1 then low else (addressbits.getD (b2 &&& 0x3).toNat 0).toNat * 2 ^ 8 + low
    let bitAddr := addressbits.getD (b2 >>> 2).toNat 0
    (1, Function.update buf byteAddr (buf byteAddr ^^^ (1#8 <<< bitAddr.toNat)))
  else if (bitsperbyte.getD b0.toNat 0).toNat + (bitsperbyte.getD b1.toNat 0).toNat +
      (bitsperbyte.getD b2.toNat 0).toNat = 1 then (1, buf)
  else (-1, buf)

/-! ## Row parities -/

def rowSum (buf : Block) (selected : Nat → Prop) [DecidablePred selected] (count : Nat) : U32 :=
  xorSum (fun w => if selected w then wordAt buf w else 0) count

/-- Whether bit `k` of a number is 0. -/
def Clear (k n : Nat) : Prop := n / 2 ^ k % 2 = 0

instance (k : Nat) : DecidablePred (Clear k) := fun _ => inferInstanceAs (Decidable (_ = _))

/-- The row parities of a block of `count` words. -/
def rowSums (buf : Block) (eccsizeMult count : Nat) : Sums where
  par := rowSum buf (fun _ => True) count
  rp4 := rowSum buf (Clear 0) count
  rp6 := rowSum buf (Clear 1) count
  rp8 := rowSum buf (Clear 2) count
  rp10 := rowSum buf (Clear 3) count
  rp12 := rowSum buf (Clear 4) count
  rp14 := rowSum buf (Clear 5) count
  rp16 := rowSum buf (fun w => eccsizeMult = 2 ∧ Clear 6 w) count

theorem rowSum_turn (buf : Block) (selected : Nat → Prop) [DecidablePred selected] (i : Nat) :
    rowSum buf selected (16 * (i + 1)) = rowSum buf selected (16 * i) ^^^
      xorSum (fun k => if selected (16 * i + k) then wordAt buf (16 * i + k) else 0) 16 :=
  xorSum_add _ (16 * i) 16

theorem and_two_pow_eq_zero (i k : Nat) : i &&& 2 ^ k = 0 ↔ Clear k i := by
  unfold Clear
  constructor
  · intro masked
    have bit : (i &&& 2 ^ k).testBit k = false := by rw [masked, Nat.zero_testBit]
    rw [Nat.testBit_and, Nat.testBit_two_pow_self, Bool.and_true, Nat.testBit_eq_decide_div_mod_eq]
      at bit
    have := of_decide_eq_false bit
    omega
  · intro clear
    apply Nat.eq_of_testBit_eq
    intro j
    rw [Nat.testBit_and, Nat.zero_testBit]
    by_cases here : j = k
    · subst here
      rw [Nat.testBit_eq_decide_div_mod_eq, decide_eq_false (by omega), Bool.false_and]
    · rw [Nat.testBit_two_pow_of_ne (Ne.symm here), Bool.and_false]

/-- The sums over the sixteen words of a turn, as the unrolled body forms them. -/
theorem turn_sums (cur : Nat → U32) :
    xorSum cur 16 =
        cur 0 ^^^ cur 1 ^^^ cur 2 ^^^ cur 3 ^^^ cur 4 ^^^ cur 5 ^^^ cur 6 ^^^ cur 7 ^^^ cur 8 ^^^
      cur 9 ^^^ cur 10 ^^^ cur 11 ^^^ cur 12 ^^^ cur 13 ^^^ cur 14 ^^^ cur 15 ∧
    xorSum (fun k => if Clear 0 k then cur k else 0) 16 =
        cur 0 ^^^ cur 2 ^^^ cur 4 ^^^ cur 6 ^^^ cur 8 ^^^
      cur 10 ^^^ cur 12 ^^^ cur 14 ∧
    xorSum (fun k => if Clear 1 k then cur k else 0) 16 =
        cur 0 ^^^ cur 1 ^^^ cur 4 ^^^ cur 5 ^^^ cur 8 ^^^
      cur 9 ^^^ cur 12 ^^^ cur 13 ∧
    xorSum (fun k => if Clear 2 k then cur k else 0) 16 =
        cur 0 ^^^ cur 1 ^^^ cur 2 ^^^ cur 3 ^^^ cur 8 ^^^
      cur 9 ^^^ cur 10 ^^^ cur 11 ∧
    xorSum (fun k => if Clear 3 k then cur k else 0) 16 =
        cur 0 ^^^ cur 1 ^^^ cur 2 ^^^ cur 3 ^^^ cur 4 ^^^
      cur 5 ^^^ cur 6 ^^^ cur 7 := by
  simp [xorSum, Clear]

theorem clear_turn (i k : Nat) : (Clear 0 (16 * i + k) ↔ Clear 0 k) ∧
    (Clear 1 (16 * i + k) ↔ Clear 1 k) ∧
    (Clear 2 (16 * i + k) ↔ Clear 2 k) ∧ (Clear 3 (16 * i + k) ↔ Clear 3 k) ∧
    (k < 16 → (Clear 4 (16 * i + k) ↔ Clear 0 i) ∧ (Clear 5 (16 * i + k) ↔ Clear 1 i) ∧
      (Clear 6 (16 * i + k) ↔ Clear 2 i)) := by
  unfold Clear
  omega

theorem xorSum_selected (selected : Prop) [Decidable selected] (cur : Nat → U32) (n : Nat) :
    xorSum (fun k => if selected then cur k else 0) n = if selected then xorSum cur n else 0 := by
  split_ifs
  · rfl
  · exact xorSum_zero fun _ _ => rfl

theorem eccTurn_eq (eccsizeMult i : Nat) (cur : Nat → U32) (s : Sums) :
    eccTurn eccsizeMult i cur s =
    { par := s.par ^^^ xorSum cur 16
      rp4 := s.rp4 ^^^ xorSum (fun k => if Clear 0 k then cur k else 0) 16
      rp6 := s.rp6 ^^^ xorSum (fun k => if Clear 1 k then cur k else 0) 16
      rp8 := s.rp8 ^^^ xorSum (fun k => if Clear 2 k then cur k else 0) 16
      rp10 := s.rp10 ^^^ xorSum (fun k => if Clear 3 k then cur k else 0) 16
      rp12 := s.rp12 ^^^ if Clear 0 i then xorSum cur 16 else 0
      rp14 := s.rp14 ^^^ if Clear 1 i then xorSum cur 16 else 0
      rp16 := s.rp16 ^^^ if eccsizeMult = 2 ∧ Clear 2 i then xorSum cur 16 else 0 } := by
  obtain ⟨whole, zero, one, two, three⟩ := turn_sums cur
  rw [whole, zero, one, two, three]
  unfold eccTurn
  have first : i &&& 0x1 = 0 ↔ Clear 0 i := and_two_pow_eq_zero i 0
  have second : i &&& 0x2 = 0 ↔ Clear 1 i := and_two_pow_eq_zero i 1
  have third : i &&& 0x4 = 0 ↔ Clear 2 i := and_two_pow_eq_zero i 2
  simp only [first, second, third, Sums.mk.injEq, BitVec.xor_assoc, true_and]
  refine ⟨?_, ?_, ?_⟩
  · split_ifs
    · rfl
    · exact BitVec.xor_zero.symm
  · split_ifs
    · rfl
    · exact BitVec.xor_zero.symm
  · split_ifs
    · rfl
    · exact BitVec.xor_zero.symm

theorem eccTurn_rowSums (buf : Block) (eccsizeMult i : Nat) :
    eccTurn eccsizeMult i (fun k => wordAt buf (16 * i + k)) (rowSums buf eccsizeMult (16 * i)) =
      rowSums buf eccsizeMult (16 * (i + 1)) := by
  have turns (k : Nat) := clear_turn i k
  rw [eccTurn_eq]
  unfold rowSums
  simp only [rowSum_turn, (turns _).1, (turns _).2.1, (turns _).2.2.1, (turns _).2.2.2.1, if_true,
    Sums.mk.injEq, true_and]
  refine ⟨?_, ?_, ?_⟩ <;> rw [← xorSum_selected] <;> congr 1 <;> apply xorSum_congr <;> intro k
    small
  · simp only [((turns k).2.2.2.2 small).1]
  · simp only [((turns k).2.2.2.2 small).2.1]
  · simp only [((turns k).2.2.2.2 small).2.2]

theorem eccLoop_eq (buf : Block) (eccsizeMult count : Nat) :
    eccLoop buf eccsizeMult count = rowSums buf eccsizeMult (16 * count) := by
  induction count with
  | zero => rfl
  | succ i ih => rw [eccLoop, ih, eccTurn_rowSums]

end RouterKernel.Ecc
