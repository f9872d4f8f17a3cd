import RouterKernel.Ecc.Code

/-!
Contract: what a flipped bit changes in the code of `drivers/mtd/nand/nand_ecc.c`.

Owns:
- the syndrome, the parities that the code bytes have inverted, which is linear in the sums;
- the syndrome of one flipped bit, which spells the address of the bit in pairs.

Does not own: the parities of a block, which are in `Ecc.Code`, nor what the correction makes of a
syndrome, which is in `Ecc.Correction`.
-/

namespace RouterKernel.Ecc

open RouterKernel.Foundation

/-! ## The syndrome -/

def Sums.xor (s t : Sums) : Sums :=
  ⟨s.par ^^^ t.par, s.rp4 ^^^ t.rp4, s.rp6 ^^^ t.rp6, s.rp8 ^^^ t.rp8, s.rp10 ^^^ t.rp10,
      s.rp12 ^^^ t.rp12,
    s.rp14 ^^^ t.rp14, s.rp16 ^^^ t.rp16⟩

def Code.xor (x y : Code) : Code := ⟨x.code0 ^^^ y.code0, x.code1 ^^^ y.code1, x.code2 ^^^ y.code2⟩

def odd (x : U32) : Bool := parity (x.setWidth 8)

def packed (p0 p1 p2 p3 p4 p5 p6 p7 : Bool) : U8 :=
  BitVec.ofBoolListLE [p0, p1, p2, p3, p4, p5, p6, p7]

/-- The parities that the code bytes have inverted. -/
def syndrome (eccsizeMult : Nat) (s : Sums) : Code :=
  let r := eccRows s
  { code1 := packed (odd r.rp0) (odd r.rp1) (odd r.rp2) (odd r.rp3) (odd r.rp4) (odd r.rp5)
      (odd r.rp6) (odd r.rp7)
    code0 := packed (odd r.rp8) (odd r.rp9) (odd r.rp10) (odd r.rp11) (odd r.rp12) (odd r.rp13)
        (odd r.rp14)
      (odd r.rp15)
    code2 := packed (eccsizeMult ≠ 1 && odd r.rp16) (eccsizeMult ≠ 1 && odd r.rp17)
        (odd (r.par &&& 0x55))
      (odd (r.par &&& 0xaa)) (odd (r.par &&& 0x33)) (odd (r.par &&& 0xcc)) (odd (r.par &&& 0x0f))
      (odd (r.par &&& 0xf0)) }

theorem invparity_eq : ∀ x : U8, invparity.getD x.toNat 0 = if parity x then 0 else 1 := by decide

theorem inverse_eq {x : U32} (small : x &&& 0xff = x) : inverse x = if odd x then 0 else 1 := by
  have low : x.toNat = (x.setWidth 8).toNat := by
    conv_lhs => rw [← small, BitVec.toNat_and]
    rw [BitVec.toNat_setWidth]
    exact Nat.and_two_pow_sub_one_eq_mod x.toNat 8
  rw [inverse, low, invparity_eq]
  rfl

theorem pack_inverse : ∀ p0 p1 p2 p3 p4 p5 p6 p7 : Bool,
    (if p7 then 0 else 1 : U8) <<< 7 ||| (if p6 then 0 else 1 : U8) <<< 6 |||
    (if p5 then 0 else 1 : U8) <<< 5 |||
      (if p4 then 0 else 1 : U8) <<< 4 ||| (if p3 then 0 else 1 : U8) <<< 3 |||
        (if p2 then 0 else 1 : U8) <<< 2 |||
      (if p1 then 0 else 1 : U8) <<< 1 ||| (if p0 then 0 else 1 : U8) =
        ~~~packed p0 p1 p2 p3 p4 p5 p6 p7 := by
  decide +kernel

theorem packed_xor (p0 p1 p2 p3 p4 p5 p6 p7 q0 q1 q2 q3 q4 q5 q6 q7 : Bool) :
    packed (p0 ^^ q0) (p1 ^^ q1) (p2 ^^ q2) (p3 ^^ q3) (p4 ^^ q4) (p5 ^^ q5) (p6 ^^ q6) (p7 ^^ q7) =
      packed p0 p1 p2 p3 p4 p5 p6 p7 ^^^ packed q0 q1 q2 q3 q4 q5 q6 q7 := by
  apply BitVec.eq_of_getLsbD_eq
  intro i inside
  unfold packed
  rw [BitVec.getLsbD_xor, BitVec.getLsbD_ofBoolListLE, BitVec.getLsbD_ofBoolListLE,
    BitVec.getLsbD_ofBoolListLE]
  interval_cases i <;> rfl

theorem odd_xor (x y : U32) : odd (x ^^^ y) = (odd x ^^ odd y) := by
  rw [odd, BitVec.setWidth_xor, parity_xor]
  rfl

theorem shift_xor (x y : U32) (n : Nat) :
    (x ^^^ y) ^^^ (x ^^^ y) >>> n = (x ^^^ x >>> n) ^^^ (y ^^^ y >>> n) := by
  rw [BitVec.ushiftRight_xor_distrib, xor_swap]

theorem foldWord_xor (x y : U32) : foldWord (x ^^^ y) = foldWord x ^^^ foldWord y := by
  unfold foldWord
  dsimp only
  rw [shift_xor x y 16, shift_xor, xor_and]

theorem inverse_row {x : U32} (y : U32) (row : x = y &&& 0xff) :
    inverse x = if odd x then 0 else 1 := by
  apply inverse_eq
  rw [row, BitVec.and_assoc, BitVec.and_self]

theorem inverse_column (x : U32) {mask : U32} (low : mask &&& 0xff = mask) :
    inverse (x &&& mask) = if odd (x &&& mask) then 0 else 1 := by
  apply inverse_eq
  rw [BitVec.and_assoc, low]

theorem eccCode_eq (eccsizeMult : Nat) (s : Sums) : eccCode eccsizeMult (eccRows s) =
    ⟨~~~(syndrome eccsizeMult s).code0, ~~~(syndrome eccsizeMult s).code1,
      ~~~(syndrome eccsizeMult s).code2⟩ := by
  have row0 := inverse_row (x := (eccRows s).rp0) _ rfl
  have row1 := inverse_row (x := (eccRows s).rp1) _ rfl
  have row2 := inverse_row (x := (eccRows s).rp2) _ rfl
  have row3 := inverse_row (x := (eccRows s).rp3) _ rfl
  have row4 := inverse_row (x := (eccRows s).rp4) _ rfl
  have row5 := inverse_row (x := (eccRows s).rp5) _ rfl
  have row6 := inverse_row (x := (eccRows s).rp6) _ rfl
  have row7 := inverse_row (x := (eccRows s).rp7) _ rfl
  have row8 := inverse_row (x := (eccRows s).rp8) _ rfl
  have row9 := inverse_row (x := (eccRows s).rp9) _ rfl
  have row10 := inverse_row (x := (eccRows s).rp10) _ rfl
  have row11 := inverse_row (x := (eccRows s).rp11) _ rfl
  have row12 := inverse_row (x := (eccRows s).rp12) _ rfl
  have row13 := inverse_row (x := (eccRows s).rp13) _ rfl
  have row14 := inverse_row (x := (eccRows s).rp14) _ rfl
  have row15 := inverse_row (x := (eccRows s).rp15) _ rfl
  have row16 := inverse_row (x := (eccRows s).rp16) _ rfl
  have row17 := inverse_row (x := (eccRows s).rp17) _ rfl
  unfold syndrome eccCode
  dsimp only
  rw [← pack_inverse, ← pack_inverse, ← pack_inverse, row0, row1, row2, row3, row4, row5, row6,
      row7, row8, row9,
    row10, row11, row12, row13, row14, row15, row16, row17,
    inverse_column _ (by decide : (0xf0 : U32) &&& 0xff = 0xf0),
    inverse_column _ (by decide : (0x0f : U32) &&& 0xff = 0x0f),
    inverse_column _ (by decide : (0xcc : U32) &&& 0xff = 0xcc),
    inverse_column _ (by decide : (0x33 : U32) &&& 0xff = 0x33),
    inverse_column _ (by decide : (0xaa : U32) &&& 0xff = 0xaa),
    inverse_column _ (by decide : (0x55 : U32) &&& 0xff = 0x55)]
  by_cases small : eccsizeMult = 1
  · simp only [small, if_true, ne_eq, not_true_eq_false, decide_false, Bool.false_and,
      Bool.false_eq_true, if_false,
      BitVec.or_assoc]
    rfl
  · simp only [small, if_false, ne_eq, not_false_eq_true, decide_true, Bool.true_and,
      BitVec.shiftLeft_zero]

/-! ## Linearity -/

def Rows.xor (r q : Rows) : Rows where
  rp0 := r.rp0 ^^^ q.rp0
  rp1 := r.rp1 ^^^ q.rp1
  rp2 := r.rp2 ^^^ q.rp2
  rp3 := r.rp3 ^^^ q.rp3
  rp4 := r.rp4 ^^^ q.rp4
  rp5 := r.rp5 ^^^ q.rp5
  rp6 := r.rp6 ^^^ q.rp6
  rp7 := r.rp7 ^^^ q.rp7
  rp8 := r.rp8 ^^^ q.rp8
  rp9 := r.rp9 ^^^ q.rp9
  rp10 := r.rp10 ^^^ q.rp10
  rp11 := r.rp11 ^^^ q.rp11
  rp12 := r.rp12 ^^^ q.rp12
  rp13 := r.rp13 ^^^ q.rp13
  rp14 := r.rp14 ^^^ q.rp14
  rp15 := r.rp15 ^^^ q.rp15
  rp16 := r.rp16 ^^^ q.rp16
  rp17 := r.rp17 ^^^ q.rp17
  par := r.par ^^^ q.par

theorem join_xor (p q x y : U32) :
    ((p ^^^ q) ^^^ (x ^^^ y)) &&& 0xff = ((p ^^^ x) &&& 0xff) ^^^ ((q ^^^ y) &&& 0xff) := by
  rw [xor_swap, xor_and]

theorem eccRows_xor (s t : Sums) : eccRows (s.xor t) = (eccRows s).xor (eccRows t) := by
  have whole : foldWord (s.par ^^^ t.par) = foldWord s.par ^^^ foldWord t.par :=
    foldWord_xor s.par t.par
  unfold foldWord at whole
  unfold eccRows Sums.xor Rows.xor
  dsimp only at whole ⊢
  rw [whole]
  simp only [foldWord_xor, join_xor, Rows.mk.injEq, and_true]
  refine ⟨?_, ?_, ?_, ?_⟩
  · rw [shift_xor, xor_and]
  · rw [shift_xor, BitVec.ushiftRight_xor_distrib, xor_and]
  · rw [xor_and _ _ 0xffff, shift_xor, xor_and]
  · rw [BitVec.ushiftRight_xor_distrib, shift_xor, xor_and]

theorem syndrome_xor (eccsizeMult : Nat) (s t : Sums) :
    syndrome eccsizeMult (s.xor t) = (syndrome eccsizeMult s).xor (syndrome eccsizeMult t) := by
  have selected (p q : Bool) : (decide (eccsizeMult ≠ 1) && (p ^^ q)) =
      ((decide (eccsizeMult ≠ 1) && p) ^^ (decide (eccsizeMult ≠ 1) && q)) := by
    cases decide (eccsizeMult ≠ 1) <;> simp
  unfold syndrome Code.xor
  rw [eccRows_xor]
  unfold Rows.xor
  simp only [xor_and, odd_xor, selected, packed_xor]

/-! ## One flipped bit -/

def flipData (buf : Block) (address bit : Nat) : Block :=
  Function.update buf address (buf address ^^^ (1#8 <<< bit))

theorem flipData_flipData (buf : Block) (address bit : Nat) :
    flipData (flipData buf address bit) address bit = buf := by
  unfold flipData
  rw [Function.update_self, BitVec.xor_assoc, BitVec.xor_self, BitVec.xor_zero,
      Function.update_idem,
    Function.update_eq_self]

theorem flipData_apply (buf : Block) (address bit n : Nat) :
    flipData buf address bit n = buf n ^^^ if n = address then 1#8 <<< bit else 0#8 := by
  unfold flipData
  by_cases here : n = address
  · rw [here, Function.update_self, if_pos rfl]
  · rw [Function.update_of_ne here, if_neg here, BitVec.xor_zero]

def flipped (address bit : Nat) : U32 := 1#32 <<< (8 * (address % 4) + bit)

/-- Where the bits of a byte are in its word. -/
theorem flipped_bytes (lane : Fin 4) (bit : Fin 8) :
    ((if lane.val = 3 then 1#8 <<< bit.val else 0#8) ++ (if lane.val = 2 then 1#8 <<< bit.val
        else 0#8) ++
      (if lane.val = 1 then 1#8 <<< bit.val else 0#8) ++ (if lane.val = 0 then 1#8 <<< bit.val
        else 0#8) : U32) =
      1#32 <<< (8 * lane.val + bit.val) := by
  decide +revert

theorem bytes_xor (a b c d e f g h : U8) :
    ((a ^^^ e) ++ (b ^^^ f) ++ (c ^^^ g) ++ (d ^^^ h) : U32) =
    (a ++ b ++ c ++ d : U32) ^^^ (e ++ f ++ g ++ h : U32) := by
  have joined : (a ++ b ++ c ++ d) ^^^ (e ++ f ++ g ++ h) =
      (a ^^^ e) ++ (b ^^^ f) ++ (c ^^^ g) ++ (d ^^^ h) := by
    rw [BitVec.xor_append, BitVec.xor_append, BitVec.xor_append]
  exact joined.symm

theorem wordAt_flipData (buf : Block) (address : Nat) (bit : Fin 8) (w : Nat) :
    wordAt (flipData buf address bit) w =
      wordAt buf w ^^^ if w = address / 4 then flipped address bit else 0 := by
  have bytes : wordAt (flipData buf address bit) w = wordAt buf w ^^^
      ((if 4 * w + 3 = address then 1#8 <<< bit.val else 0#8) ++
        (if 4 * w + 2 = address then 1#8 <<< bit.val else 0#8) ++
        (if 4 * w + 1 = address then 1#8 <<< bit.val else 0#8) ++
        (if 4 * w = address then 1#8 <<< bit.val else 0#8)) := by
    unfold wordAt
    simp only [flipData_apply, bytes_xor]
  rw [bytes]
  congr 1
  by_cases here : w = address / 4
  · have lane := flipped_bytes ⟨address % 4, by omega⟩ bit
    rw [if_pos here, flipped, ← lane]
    have third : 4 * w + 3 = address ↔ address % 4 = 3 := by omega
    have second : 4 * w + 2 = address ↔ address % 4 = 2 := by omega
    have first : 4 * w + 1 = address ↔ address % 4 = 1 := by omega
    have zeroth : 4 * w = address ↔ address % 4 = 0 := by omega
    simp only [third, second, first, zeroth]
  · have third : 4 * w + 3 ≠ address := by omega
    have second : 4 * w + 2 ≠ address := by omega
    have first : 4 * w + 1 ≠ address := by omega
    have zeroth : 4 * w ≠ address := by omega
    rw [if_neg here, if_neg third, if_neg second, if_neg first, if_neg zeroth]
    rfl

/-- The sum over selected words changes by the bit, if its word is selected. -/
theorem rowSum_flipData (buf : Block) (selected : Nat → Prop) [DecidablePred selected]
    {count address : Nat}
    (bit : Fin 8) (inside : address / 4 < count) :
    rowSum (flipData buf address bit) selected count =
      rowSum buf selected count ^^^ if selected (address / 4) then flipped address bit else 0 := by
  have split (w : Nat) : (if selected w then wordAt (flipData buf address bit) w else 0) =
      (if selected w then wordAt buf w else 0) ^^^
        if selected w then (if w = address / 4 then flipped address bit else 0) else 0 := by
    by_cases chosen : selected w
    · rw [if_pos chosen, if_pos chosen, if_pos chosen, wordAt_flipData]
    · rw [if_neg chosen, if_neg chosen, if_neg chosen]
      rfl
  unfold rowSum
  rw [xorSum_congr fun w _ => split w, xorSum_xor]
  congr 1
  rw [xorSum_single inside]
  · rw [if_pos rfl]
  · intro w _ other
    rw [if_neg other, ite_self]

def flippedSums (eccsizeMult address bit : Nat) : Sums where
  par := flipped address bit
  rp4 := if Clear 0 (address / 4) then flipped address bit else 0
  rp6 := if Clear 1 (address / 4) then flipped address bit else 0
  rp8 := if Clear 2 (address / 4) then flipped address bit else 0
  rp10 := if Clear 3 (address / 4) then flipped address bit else 0
  rp12 := if Clear 4 (address / 4) then flipped address bit else 0
  rp14 := if Clear 5 (address / 4) then flipped address bit else 0
  rp16 := if eccsizeMult = 2 ∧ Clear 6 (address / 4) then flipped address bit else 0

theorem rowSums_flipData (buf : Block) (eccsizeMult : Nat) {count address : Nat} (bit : Fin 8)
    (inside : address / 4 < count) :
    rowSums (flipData buf address bit) eccsizeMult count =
      (rowSums buf eccsizeMult count).xor (flippedSums eccsizeMult address bit) := by
  unfold rowSums Sums.xor flippedSums
  simp only [rowSum_flipData buf _ bit inside, if_true]

/-! ## The syndrome of one flipped bit -/

/-- A number of four bits in pairs: each bit is preceded by its inverse. -/
def pairs (n : Nat) : U8 :=
  packed (Clear 0 n) (¬Clear 0 n) (Clear 1 n) (¬Clear 1 n) (Clear 2 n) (¬Clear 2 n) (Clear 3 n)
    (¬Clear 3 n)

/-- The number of a bit in pairs, over the pair of the half of the block. -/
def column (large upper : Bool) (bit : Nat) : U8 :=
  packed (large && !upper) (large && upper) (Clear 0 bit) (¬Clear 0 bit) (Clear 1 bit)
      (¬Clear 1 bit)
    (Clear 2 bit) (¬Clear 2 bit)

/-- The syndrome of one flipped bit. -/
def position (eccsizeMult address bit : Nat) : Code where
  code0 := pairs (address / 16)
  code1 := pairs address
  code2 := column (eccsizeMult = 2) (¬Clear 8 address) bit

theorem odd_and_ff (x : U32) : odd (x &&& 0xff) = odd x := by
  have low : (x &&& 0xff).setWidth 8 = x.setWidth 8 := by
    rw [BitVec.setWidth_and]
    exact BitVec.and_allOnes
  rw [odd, low, odd]

theorem flipped_parities (lane : Fin 4) (bit : Fin 8) (word : U32)
    (single : word = 1#32 <<< (8 * lane.val + bit.val)) :
    odd (foldWord word) = true ∧
    odd (word ^^^ word >>> 16) = decide (Clear 0 lane) ∧
    odd ((word ^^^ word >>> 16) >>> 8) = decide (¬Clear 0 lane) ∧
    odd (word &&& 0xffff ^^^ (word &&& 0xffff) >>> 8) = decide (Clear 1 lane) ∧
    odd (word >>> 16 ^^^ word >>> 16 >>> 8) = decide (¬Clear 1 lane) ∧
    odd (foldWord word &&& 0x55) = decide (Clear 0 bit) ∧
    odd (foldWord word &&& 0xaa) = decide (¬Clear 0 bit) ∧
    odd (foldWord word &&& 0x33) = decide (Clear 1 bit) ∧
    odd (foldWord word &&& 0xcc) = decide (¬Clear 1 bit) ∧
    odd (foldWord word &&& 0x0f) = decide (Clear 2 bit) ∧
    odd (foldWord word &&& 0xf0) = decide (¬Clear 2 bit) := by
  subst single
  decide +revert

/-- A row has the parity of its selection, and the row that is left of all has the other one. -/
theorem odd_rows {word : U32} (row : U32) {selected bitClear : Prop} [Decidable selected]
    [Decidable bitClear]
    (whole : odd (foldWord word) = true) (chosen : row = if selected then word else 0)
    (same : selected ↔ bitClear) :
    odd (foldWord row) = decide bitClear ∧ odd ((foldWord word ^^^ foldWord row) &&& 0xff) =
      decide ¬bitClear := by
  rw [odd_and_ff, odd_xor, whole, chosen]
  by_cases here : bitClear
  · rw [if_pos (same.mpr here), whole, decide_eq_true here, decide_eq_false (not_not_intro here)]
    decide
  · rw [if_neg (mt same.mp here), decide_eq_false here, decide_eq_true here]
    decide

/-- The bits of an address in its word, and in its row of sixteen bytes. -/
theorem clear_address (address : Nat) :
    (Clear 0 (address % 4) ↔ Clear 0 address) ∧ (Clear 1 (address % 4) ↔ Clear 1 address) ∧
    (Clear 0 (address / 4) ↔ Clear 2 address) ∧ (Clear 1 (address / 4) ↔ Clear 3 address) ∧
    (Clear 2 (address / 4) ↔ Clear 0 (address / 16)) ∧
    (Clear 3 (address / 4) ↔ Clear 1 (address / 16)) ∧
    (Clear 4 (address / 4) ↔ Clear 2 (address / 16)) ∧
    (Clear 5 (address / 4) ↔ Clear 3 (address / 16)) ∧
    (Clear 6 (address / 4) ↔ Clear 8 address) := by
  unfold Clear
  omega

/-- The syndrome of one flipped bit spells its address. -/
theorem syndrome_flipped {eccsizeMult : Nat} (size : eccsizeMult = 1 ∨ eccsizeMult = 2)
    (address : Nat) (bit : Fin 8) :
    syndrome eccsizeMult (flippedSums eccsizeMult address bit) =
      position eccsizeMult address bit := by
  obtain ⟨bit0, bit1, bit2, bit3, bit4, bit5, bit6, bit7, bit8⟩ := clear_address address
  obtain ⟨whole, row0, row1, row2, row3, column0, column1, column2, column3, column4, column5⟩ :=
    flipped_parities ⟨address % 4, by omega⟩ bit (flipped address bit) rfl
  obtain ⟨row4, row5⟩ := odd_rows (flippedSums eccsizeMult address bit).rp4 whole rfl bit2
  obtain ⟨row6, row7⟩ := odd_rows (flippedSums eccsizeMult address bit).rp6 whole rfl bit3
  obtain ⟨row8, row9⟩ := odd_rows (flippedSums eccsizeMult address bit).rp8 whole rfl bit4
  obtain ⟨row10, row11⟩ := odd_rows (flippedSums eccsizeMult address bit).rp10 whole rfl bit5
  obtain ⟨row12, row13⟩ := odd_rows (flippedSums eccsizeMult address bit).rp12 whole rfl bit6
  obtain ⟨row14, row15⟩ := odd_rows (flippedSums eccsizeMult address bit).rp14 whole rfl bit7
  obtain ⟨row16, row17⟩ := odd_rows (flippedSums eccsizeMult address bit).rp16 whole rfl
    (and_congr_right fun _ => bit8)
  rw [← odd_and_ff] at row0 row1 row2 row3
  simp only [bit0, bit1] at row0 row1 row2 row3
  unfold syndrome position pairs column
  rw [Code.mk.injEq]
  refine ⟨?_, ?_, ?_⟩
  · rw [← row8, ← row9, ← row10, ← row11, ← row12, ← row13, ← row14, ← row15]
    rfl
  · rw [← row0, ← row1, ← row2, ← row3, ← row4, ← row5, ← row6, ← row7]
    rfl
  · have low : (decide (eccsizeMult ≠ 1) &&
      odd (eccRows (flippedSums eccsizeMult address bit)).rp16) =
        (decide (eccsizeMult = 2) && !decide ¬Clear 8 address) ∧
        (decide (eccsizeMult ≠ 1) && odd (eccRows (flippedSums eccsizeMult address bit)).rp17) =
        (decide (eccsizeMult = 2) && decide ¬Clear 8 address) := by
      rw [show odd (eccRows (flippedSums eccsizeMult address bit)).rp16 = _ from row16,
        show odd (eccRows (flippedSums eccsizeMult address bit)).rp17 = _ from row17]
      cases size with
      | inl small => simp [small]
      | inr large => simp [large]
    rw [← column0, ← column1, ← column2, ← column3, ← column4, ← column5, ← low.1, ← low.2]
    rfl

end RouterKernel.Ecc
