import RouterKernel.Ecc.Syndrome

/-!
Contract: which errors `__nand_correct_data` of `drivers/mtd/nand/nand_ecc.c` corrects.

Owns:
- the outcome of the correction as a function of the difference of the two codes;
- the flips of bits of the block and of its stored code, and the mark each leaves in that
  difference;
- that single errors are corrected and that double errors are never miscorrected.

Does not own: the syndrome of a flipped bit, which is in `Ecc.Syndrome`.
-/

namespace RouterKernel.Ecc

open RouterKernel.Foundation

/-! ## Decoding a syndrome -/

def Code.zero : Code := ⟨0, 0, 0⟩

def Code.weight (gap : Code) : Nat :=
  (bitsperbyte.getD gap.code1.toNat 0).toNat + (bitsperbyte.getD gap.code0.toNat 0).toNat +
    (bitsperbyte.getD gap.code2.toNat 0).toNat

/-- Whether the syndrome spells the address of a bit. -/
def Code.addressed (eccsizeMult : Nat) (gap : Code) : Bool :=
  paired gap.code1 0x55 && paired gap.code0 0x55 &&
    ((eccsizeMult == 1 && paired gap.code2 0x54) || (eccsizeMult == 2 && paired gap.code2 0x55))

def Code.byteAddr (eccsizeMult : Nat) (gap : Code) : Nat :=
  let low := (addressbits.getD gap.code0.toNat 0).toNat * 2 ^ 4 +
    (addressbits.getD gap.code1.toNat 0).toNat
  if eccsizeMult = 1 then low else (addressbits.getD (gap.code2 &&& 0x3).toNat 0).toNat * 2 ^ 8 +
    low

def Code.bitAddr (gap : Code) : Nat := (addressbits.getD (gap.code2 >>> 2).toNat 0).toNat

/-- What the correction does depends on the difference of the codes only. -/
theorem nandCorrectData_eq (buf : Block) (readEcc calcEcc : Code) (eccsize : Nat) :
    nandCorrectData buf readEcc calcEcc eccsize = if readEcc.xor calcEcc = Code.zero
        then ((0 : Int), buf)
      else if (readEcc.xor calcEcc).addressed (eccsize >>> 8) then
        (1, flipData buf ((readEcc.xor calcEcc).byteAddr (eccsize >>> 8))
          (readEcc.xor calcEcc).bitAddr)
      else if (readEcc.xor calcEcc).weight = 1 then (1, buf)
      else (-1, buf) := by
  have none : (readEcc.code1 ^^^ calcEcc.code1) ||| (readEcc.code0 ^^^ calcEcc.code0) |||
      (readEcc.code2 ^^^ calcEcc.code2) = 0 ↔ readEcc.xor calcEcc = Code.zero := by
    unfold Code.xor Code.zero
    rw [Code.mk.injEq, BitVec.ofNat_eq_ofNat, BitVec.or_eq_zero_iff, BitVec.or_eq_zero_iff]
    tauto
  unfold nandCorrectData
  simp only [none]
  rfl

/-! ## Errors in a block and its stored code -/

/-- A bit of a block of `eccsize` bytes, or one of the 24 bits of its stored code. -/
inductive Flip (eccsize : Nat) where
  | data (address : Fin eccsize) (bit : Fin 8)
  | stored (byte : Fin 3) (bit : Fin 8)
deriving DecidableEq

def single (byte : Fin 3) (bit : Fin 8) : Code where
  code0 := if byte = 0 then 1#8 <<< bit.val else 0
  code1 := if byte = 1 then 1#8 <<< bit.val else 0
  code2 := if byte = 2 then 1#8 <<< bit.val else 0

def Flip.apply {eccsize : Nat} : Flip eccsize → Block × Code → Block × Code
  | .data address bit, (buf, ecc) => (flipData buf address bit, ecc)
  | .stored byte bit, (buf, ecc) => (buf, ecc.xor (single byte bit))

/-- What a flipped bit adds to the difference of the codes. -/
def Flip.mark {eccsize : Nat} (eccsizeMult : Nat) : Flip eccsize → Code
  | .data address bit => position eccsizeMult address bit
  | .stored byte bit => single byte bit

def gap (eccsize : Nat) (page : Block × Code) : Code := page.2.xor (nandCalculateEcc page.1 eccsize)

section Sized

variable {eccsize eccsizeMult : Nat} (sized : eccsize = 256 * eccsizeMult)
  (size : eccsizeMult = 1 ∨ eccsizeMult = 2)

include sized

theorem shifted_size : eccsize >>> 8 = eccsizeMult := by
  rw [Nat.shiftRight_eq_div_pow]
  omega

theorem nandCalculateEcc_eq (buf : Block) : nandCalculateEcc buf eccsize =
    ⟨~~~(syndrome eccsizeMult (rowSums buf eccsizeMult (64 * eccsizeMult))).code0,
      ~~~(syndrome eccsizeMult (rowSums buf eccsizeMult (64 * eccsizeMult))).code1,
      ~~~(syndrome eccsizeMult (rowSums buf eccsizeMult (64 * eccsizeMult))).code2⟩ := by
  have words : 16 * eccsizeMult <<< 2 = 64 * eccsizeMult := by
    rw [Nat.shiftLeft_eq]
    omega
  unfold nandCalculateEcc
  rw [shifted_size sized]
  dsimp only
  rw [eccLoop_eq, words]
  exact eccCode_eq eccsizeMult _

include size

theorem nandCalculateEcc_flipData (buf : Block) (address : Fin eccsize) (bit : Fin 8) :
    nandCalculateEcc (flipData buf address bit) eccsize =
      (nandCalculateEcc buf eccsize).xor (position eccsizeMult address bit) := by
  have inside : address.val / 4 < 64 * eccsizeMult := by
    have := address.isLt
    omega
  have complement (x y : U8) : ~~~(x ^^^ y) = ~~~x ^^^ y := by
    rw [BitVec.not_xor_left]
  rw [nandCalculateEcc_eq sized, nandCalculateEcc_eq sized,
      rowSums_flipData buf eccsizeMult bit inside,
    syndrome_xor, syndrome_flipped size]
  unfold Code.xor
  rw [complement, complement, complement]

theorem gap_apply (flip : Flip eccsize) (page : Block × Code) :
    gap eccsize (flip.apply page) = (gap eccsize page).xor (flip.mark eccsizeMult) := by
  have assoc (x y z : Code) : (x.xor y).xor z = x.xor (y.xor z) := by
    simp only [Code.xor, BitVec.xor_assoc]
  cases flip with
  | data address bit =>
    change page.2.xor (nandCalculateEcc (flipData page.1 address bit) eccsize) = _
    rw [nandCalculateEcc_flipData sized size, ← assoc]
    rfl
  | stored byte bit =>
    have comm (x y : Code) : x.xor y = y.xor x := by
      simp only [Code.xor, BitVec.xor_comm]
    change (page.2.xor (single byte bit)).xor (nandCalculateEcc page.1 eccsize) = _
    rw [assoc, comm (single byte bit), ← assoc]
    rfl

end Sized

theorem gap_fresh (buf : Block) (eccsize : Nat) :
    gap eccsize (buf, nandCalculateEcc buf eccsize) = Code.zero := by
  simp [gap, Code.xor, Code.zero]

theorem zero_xor (code : Code) : Code.zero.xor code = code := by
  simp [Code.xor, Code.zero]

/-! ## Marks -/

theorem pairs_mod (n : Nat) : pairs n = pairs (n % 16) := by
  have bits : (Clear 0 (n % 16) ↔ Clear 0 n) ∧ (Clear 1 (n % 16) ↔ Clear 1 n) ∧
      (Clear 2 (n % 16) ↔ Clear 2 n) ∧
      (Clear 3 (n % 16) ↔ Clear 3 n) := by
    unfold Clear
    omega
  unfold pairs
  simp only [bits]

def bitCount (b : U8) : Nat := (bitsperbyte.getD b.toNat 0).toNat

theorem pairs_decodes (n : Fin 16) :
    paired (pairs n) 0x55 = true ∧ (addressbits.getD (pairs n).toNat 0).toNat = n ∧
      bitCount (pairs n) = 4 := by
  decide +revert

theorem pairs_broken (n : Fin 16) (bit : Fin 8) :
    paired (pairs n ^^^ (1#8 <<< bit.val)) 0x55 = false ∧
      3 ≤ bitCount (pairs n ^^^ (1#8 <<< bit.val)) := by
  decide +revert

theorem pairs_differ (n m : Fin 16) :
    paired (pairs n ^^^ pairs m) 0x55 = false ∧ bitCount (pairs n ^^^ pairs m) % 2 = 0 ∧
      (pairs n ^^^ pairs m = 0 → n = m) := by
  decide +revert

theorem column_decodes (large upper : Bool) (bit : Fin 8) :
    (large = false → paired (column large upper bit) 0x54 = true) ∧
    (large = true → paired (column large upper bit) 0x55 = true ∧
      (addressbits.getD (column large upper bit &&& 0x3).toNat 0).toNat = upper.toNat) ∧
    (addressbits.getD (column large upper bit >>> 2).toNat 0).toNat = bit := by
  decide +revert

/-- A flipped bit of the third code byte breaks a pair, unless it is one of the two bits that blocks
of 256 bytes do not use. -/
theorem column_broken (large upper : Bool) (bit other : Fin 8) :
    (large = true → paired (column large upper bit ^^^ (1#8 <<< other.val)) 0x55 = false) ∧
    (large = false → 2 ≤ other.val → paired (column large upper bit ^^^ (1#8 <<< other.val)) 0x54 =
      false) ∧
    (large = false → other.val < 2 → paired (column large upper bit ^^^ (1#8 <<< other.val)) 0x54 =
        true ∧
      (addressbits.getD ((column large upper bit ^^^ (1#8 <<< other.val)) >>> 2).toNat 0).toNat =
        bit) := by
  decide +revert

theorem column_differ (large upper upper' : Bool) (bit bit' : Fin 8) :
    bitCount (column large upper bit ^^^ column large upper' bit') % 2 = 0 ∧
      (column large upper bit ^^^ column large upper' bit' = 0 → bit = bit' ∧
        (large = true → upper = upper')) := by
  decide +revert

theorem single_decodes (byte : Fin 3) (bit : Fin 8) (large : Bool) :
    single byte bit ≠ Code.zero ∧ (single byte bit).addressed (if large then 2 else 1) = false ∧
      (single byte bit).weight = 1 := by
  decide +revert

theorem single_differ (byte byte' : Fin 3) (bit bit' : Fin 8) (large : Bool) :
    (byte, bit) ≠ (byte', bit') → (single byte bit).xor (single byte' bit') ≠ Code.zero ∧
      ((single byte bit).xor (single byte' bit')).addressed (if large then 2 else 1) = false ∧
      ((single byte bit).xor (single byte' bit')).weight = 2 := by
  decide +revert

theorem weight_eq (code : Code) :
    code.weight = bitCount code.code1 + bitCount code.code0 + bitCount code.code2 := rfl

theorem ne_zero_of_weight {code : Code} (some : 0 < code.weight) : code ≠ Code.zero := by
  intro zero
  rw [zero] at some
  exact absurd some (by decide)

theorem row_stored (n : Nat) (hit : Prop) [Decidable hit] (bit : Fin 8) :
    3 ≤ bitCount (pairs n ^^^ if hit then 1#8 <<< bit.val else 0) ∧
      (paired (pairs n ^^^ if hit then 1#8 <<< bit.val else 0) 0x55 = true → ¬hit) := by
  by_cases here : hit
  · have broken := pairs_broken ⟨n % 16, by omega⟩ bit
    simp only [← pairs_mod] at broken
    rw [if_pos here, broken.1]
    exact ⟨broken.2, fun paired => absurd paired Bool.false_ne_true⟩
  · have whole := pairs_decodes ⟨n % 16, by omega⟩
    simp only [← pairs_mod] at whole
    rw [if_neg here, BitVec.ofNat_eq_ofNat, BitVec.xor_zero, whole.2.2]
    exact ⟨by omega, fun _ => here⟩

section Sized

variable {eccsizeMult : Nat} (size : eccsizeMult = 1 ∨ eccsizeMult = 2)

include size

theorem addressed_iff (code : Code) : code.addressed eccsizeMult = true ↔
    paired code.code1 0x55 = true ∧ paired code.code0 0x55 = true ∧
      (eccsizeMult = 1 → paired code.code2 0x54 = true) ∧
        (eccsizeMult = 2 → paired code.code2 0x55 = true) := by
  unfold Code.addressed
  cases size with
  | inl one =>
    subst one
    simp [and_assoc]
  | inr two =>
    subst two
    simp [and_assoc]

theorem position_decodes (address : Nat) (inside : address < 256 * eccsizeMult) (bit : Fin 8) :
    position eccsizeMult address bit ≠ Code.zero ∧
        (position eccsizeMult address bit).addressed eccsizeMult = true ∧
      (position eccsizeMult address bit).byteAddr eccsizeMult = address ∧
      (position eccsizeMult address bit).bitAddr = bit := by
  obtain ⟨low, lowAddress, lowCount⟩ := pairs_decodes ⟨address % 16, by omega⟩
  obtain ⟨high, highAddress, highCount⟩ := pairs_decodes ⟨address / 16 % 16, by omega⟩
  obtain ⟨small, large, bitAddress⟩ := column_decodes (eccsizeMult = 2) (¬Clear 8 address) bit
  simp only [← pairs_mod] at low lowAddress lowCount high highAddress highCount
  refine ⟨?_, ?_, ?_, bitAddress⟩
  · apply ne_zero_of_weight
    rw [weight_eq, position, lowCount]
    omega
  · rw [addressed_iff size]
    refine ⟨low, high, ?_, ?_⟩
    · intro one
      exact small (by simp [one])
    · intro two
      exact (large (by simp [two])).1
  · unfold Code.byteAddr position
    dsimp only
    rw [lowAddress, highAddress]
    cases size with
    | inl one =>
      rw [if_pos one]
      omega
    | inr two =>
      have half : (decide ¬Clear 8 address).toNat = address / 256 := by
        by_cases lower : Clear 8 address
        · rw [decide_eq_false (not_not_intro lower), Bool.toNat_false]
          unfold Clear at lower
          omega
        · rw [decide_eq_true lower, Bool.toNat_true]
          unfold Clear at lower
          omega
      rw [if_neg (by omega), (large (by simp [two])).2, half]
      omega

/-- The marks of a bit of the block and of a bit of the code: either a pair is broken, or the
address is still there. -/
theorem position_stored (address : Nat) (inside : address < 256 * eccsizeMult) (bit : Fin 8)
    (byte : Fin 3)
    (other : Fin 8) (mark : Code)
    (sum : mark = (position eccsizeMult address bit).xor (single byte other)) :
    3 ≤ mark.weight ∧ (mark.addressed eccsizeMult = true →
      mark.byteAddr eccsizeMult = address ∧ mark.bitAddr = bit) := by
  obtain ⟨count, low⟩ := row_stored address (byte = 1) other
  obtain ⟨_, high⟩ := row_stored (address / 16) (byte = 0) other
  obtain ⟨large, used, unused⟩ := column_broken (eccsizeMult = 2) (¬Clear 8 address) bit other
  subst sum
  constructor
  · rw [weight_eq]
    exact le_trans count (by rw [Nat.add_assoc]; exact Nat.le_add_right _ _)
  · intro addressed
    rw [addressed_iff size] at addressed
    obtain ⟨lowPaired, highPaired, small, big⟩ := addressed
    have first := low lowPaired
    have zeroth := high highPaired
    have second : byte = 2 := by omega
    subst second
    have one : eccsizeMult = 1 := by
      cases size with
      | inl one => exact one
      | inr two => exact absurd ((big two).symm.trans (large (by simp [two]))) (by decide)
    have free : other.val < 2 := by
      by_contra high
      exact absurd ((small one).symm.trans (used (by simp [one]) (by omega))) (by decide)
    have whole := position_decodes size address inside bit
    have kept : ((position eccsizeMult address bit).xor (single 2 other)).code0 =
        pairs (address / 16) ∧
        ((position eccsizeMult address bit).xor (single 2 other)).code1 = pairs address :=
      ⟨BitVec.xor_zero, BitVec.xor_zero⟩
    have spelled := whole.2.2.1
    refine ⟨?_, (unused (by simp [one]) free).2⟩
    unfold Code.byteAddr at spelled ⊢
    rw [if_pos one] at spelled ⊢
    rw [kept.1, kept.2]
    exact spelled

theorem position_differ {address address' : Nat} (inside : address < 256 * eccsizeMult)
    (inside' : address' < 256 * eccsizeMult) {bit bit' : Fin 8}
    (distinct : (address, bit) ≠ (address', bit'))
    (mark : Code) (sum : mark =
      (position eccsizeMult address bit).xor (position eccsizeMult address' bit')) :
    mark ≠ Code.zero ∧ mark.addressed eccsizeMult = false ∧ mark.weight % 2 = 0 := by
  obtain ⟨low, lowEven, lowSame⟩ := pairs_differ ⟨address % 16, by omega⟩ ⟨address' % 16, by omega⟩
  obtain ⟨high, highEven, highSame⟩ :=
    pairs_differ ⟨address / 16 % 16, by omega⟩ ⟨address' / 16 % 16, by omega⟩
  obtain ⟨columnEven, columnSame⟩ :=
    column_differ (eccsizeMult = 2) (¬Clear 8 address) (¬Clear 8 address') bit bit'
  simp only [← pairs_mod] at low lowEven lowSame high highEven highSame
  subst sum
  refine ⟨?_, ?_, ?_⟩
  · intro zero
    unfold Code.xor Code.zero position at zero
    rw [Code.mk.injEq] at zero
    have rows := Fin.mk.inj_iff.mp (highSame zero.1)
    have lanes := Fin.mk.inj_iff.mp (lowSame zero.2.1)
    obtain ⟨sameBit, sameHalf⟩ := columnSame zero.2.2
    apply distinct
    rw [sameBit]
    congr 1
    cases size with
    | inl one => omega
    | inr two =>
      have halves := sameHalf (by simp [two])
      rw [decide_eq_decide] at halves
      unfold Clear at halves
      omega
  · unfold Code.addressed Code.xor position
    rw [low]
    rfl
  · rw [weight_eq]
    unfold Code.xor position
    dsimp only
    omega

end Sized

/-! ## Correction -/

/-- A page as it is read, and what the correction makes of it. -/
def correct (eccsize : Nat) (page : Block × Code) : Int × Block :=
  nandCorrectData page.1 page.2 (nandCalculateEcc page.1 eccsize) eccsize

section Outcomes

variable {eccsize eccsizeMult : Nat} (sized : eccsize = 256 * eccsizeMult) {page : Block × Code}
  {mark : Code}
  (marked : gap eccsize page = mark) (some : mark ≠ Code.zero)

include sized marked some

theorem correct_eq : correct eccsize page =
    if mark.addressed eccsizeMult then (1, flipData page.1 (mark.byteAddr eccsizeMult) mark.bitAddr)
    else if mark.weight = 1 then (1, page.1)
    else (-1, page.1) := by
  have difference : page.2.xor (nandCalculateEcc page.1 eccsize) = mark := marked
  rw [correct, nandCorrectData_eq, shifted_size sized, difference, if_neg some]

theorem correct_addressed (addressed : mark.addressed eccsizeMult = true) :
    correct eccsize page = (1, flipData page.1 (mark.byteAddr eccsizeMult) mark.bitAddr) := by
  rw [correct_eq sized marked some, if_pos addressed]

theorem correct_stored (unaddressed : mark.addressed eccsizeMult = false) (one : mark.weight = 1) :
    correct eccsize page = (1, page.1) := by
  rw [correct_eq sized marked some, if_neg (Bool.eq_false_iff.mp unaddressed), if_pos one]

theorem correct_failed (unaddressed : mark.addressed eccsizeMult = false) (more : mark.weight ≠ 1) :
    correct eccsize page = (-1, page.1) := by
  rw [correct_eq sized marked some, if_neg (Bool.eq_false_iff.mp unaddressed), if_neg more]

end Outcomes

theorem size_cases {eccsize : Nat} (size : eccsize = 256 ∨ eccsize = 512) :
    ∃ large : Bool, eccsize = 256 * (if large then 2 else 1) := by
  cases size with
  | inl small => exact ⟨false, small⟩
  | inr big => exact ⟨true, big⟩

theorem mult_cases (large : Bool) : (if large then 2 else 1 : Nat) = 1 ∨
    (if large then 2 else 1 : Nat) = 2 := by
  cases large
  · exact Or.inl rfl
  · exact Or.inr rfl

/-- Every error of one bit is corrected: in the block, which is restored, or in the stored code,
when the block is left as it is. -/
theorem nandCorrectData_single {eccsize : Nat} (size : eccsize = 256 ∨ eccsize = 512)
    (buf : Block) :
    let ecc := nandCalculateEcc buf eccsize
    nandCorrectData buf ecc (nandCalculateEcc buf eccsize) eccsize = (0, buf) ∧
    (∀ (address : Fin eccsize) (bit : Fin 8),
      let read := flipData buf address bit
      nandCorrectData read ecc (nandCalculateEcc read eccsize) eccsize = (1, buf)) ∧
    ∀ (byte : Fin 3) (bit : Fin 8),
      nandCorrectData buf (ecc.xor (single byte bit)) (nandCalculateEcc buf eccsize) eccsize =
        (1, buf) := by
  obtain ⟨large, sized⟩ := size_cases size
  have mult := mult_cases large
  have marked (flip : Flip eccsize) :
      gap eccsize (flip.apply (buf, nandCalculateEcc buf eccsize)) =
        flip.mark (if large then 2 else 1) := by
    rw [gap_apply sized mult, gap_fresh, zero_xor]
  refine ⟨?_, ?_, ?_⟩
  · rw [nandCorrectData_eq]
    exact if_pos (gap_fresh buf eccsize)
  · intro address bit
    have mark : gap eccsize (flipData buf address bit, nandCalculateEcc buf eccsize) =
        position (if large then 2 else 1) address bit := marked (.data address bit)
    obtain ⟨some, addressed, byteAddr, bitAddr⟩ :=
      position_decodes mult address (sized ▸ address.isLt) bit
    have corrected := correct_addressed sized mark some addressed
    rw [byteAddr, bitAddr, flipData_flipData] at corrected
    exact corrected
  · intro byte bit
    have mark : gap eccsize (buf, (nandCalculateEcc buf eccsize).xor (single byte bit)) =
        single byte bit :=
      marked (.stored byte bit)
    obtain ⟨some, unaddressed, one⟩ := single_decodes byte bit large
    have corrected := correct_stored sized mark some unaddressed one
    exact corrected

theorem nandCorrectData_single_zeros :
    nandCorrectData (flipData (fun _ => 0) 7 3) (nandCalculateEcc (fun _ => 0) 256)
      (nandCalculateEcc (flipData (fun _ => 0) 7 3) 256) 256 = (1, fun _ => 0) :=
  (nandCorrectData_single (Or.inl rfl) fun _ => 0).2.1 7 3

theorem correct_mixed {eccsize : Nat} (large : Bool)
    (sized : eccsize = 256 * (if large then 2 else 1))
    (buf : Block) (address : Fin eccsize) (bit : Fin 8) (byte : Fin 3) (other : Fin 8) :
    let read := (flipData buf address bit, (nandCalculateEcc buf eccsize).xor (single byte other))
    correct eccsize read = (-1, read.1) ∨ correct eccsize read = (1, buf) := by
  intro read
  have mult := mult_cases large
  have marked : gap eccsize read = (position (if large then 2 else 1) address bit).xor
      (single byte other) := by
    have one := gap_apply sized mult (.data address bit) (buf, nandCalculateEcc buf eccsize)
    have both := gap_apply sized mult (.stored byte other)
      ((Flip.data address bit).apply (buf, nandCalculateEcc buf eccsize))
    rw [one, gap_fresh, zero_xor] at both
    exact both
  obtain ⟨weight, decodes⟩ :=
    position_stored mult address (sized ▸ address.isLt) bit byte other _ rfl
  have some : (position (if large then 2 else 1) address bit).xor (single byte other) ≠ Code.zero :=
    ne_zero_of_weight (by omega)
  by_cases addressed :
      ((position (if large then 2 else 1) address bit).xor (single byte other)).addressed
      (if large then 2 else 1) = true
  · have corrected := correct_addressed sized marked some addressed
    rw [(decodes addressed).1, (decodes addressed).2, flipData_flipData] at corrected
    exact Or.inr corrected
  · apply Or.inl
    exact correct_failed sized marked some (Bool.eq_false_iff.mpr addressed) (by omega)

/-- No error of two bits is miscorrected: it is reported, or the block is the original one. -/
theorem nandCorrectData_double {eccsize : Nat} (size : eccsize = 256 ∨ eccsize = 512) (buf : Block)
    (first second : Flip eccsize) (distinct : first ≠ second) :
    let read := second.apply (first.apply (buf, nandCalculateEcc buf eccsize))
    let result := nandCorrectData read.1 read.2 (nandCalculateEcc read.1 eccsize) eccsize
    result = (-1, read.1) ∨ result.2 = buf := by
  intro read result
  obtain ⟨large, sized⟩ := size_cases size
  have mult := mult_cases large
  have marked : gap eccsize read =
      (first.mark (if large then 2 else 1)).xor (second.mark (if large then 2 else 1)) := by
    rw [gap_apply sized mult, gap_apply sized mult, gap_fresh, zero_xor]
  cases first with
  | data address bit =>
    cases second with
    | data address' bit' =>
      have different : (address.val, bit) ≠ (address'.val, bit') := by
        intro same
        rw [Prod.mk.injEq, Fin.val_inj] at same
        exact distinct (by rw [same.1, same.2])
      have mark : gap eccsize read = (position (if large then 2 else 1) address bit).xor
          (position (if large then 2 else 1) address' bit') := marked
      obtain ⟨some, unaddressed, even⟩ := position_differ mult (sized ▸ address.isLt)
        (sized ▸ address'.isLt) different _ rfl
      exact Or.inl (correct_failed sized mark some unaddressed (by omega))
    | stored byte other =>
      exact (correct_mixed large sized buf address bit byte other).imp_right (congrArg Prod.snd)
  | stored byte other =>
    cases second with
    | data address bit =>
      exact (correct_mixed large sized buf address bit byte other).imp_right (congrArg Prod.snd)
    | stored byte' other' =>
      have different : (byte, other) ≠ (byte', other') := by
        intro same
        rw [Prod.mk.injEq] at same
        exact distinct (by rw [same.1, same.2])
      have mark : gap eccsize read = (single byte other).xor (single byte' other') := marked
      obtain ⟨some, unaddressed, two⟩ := single_differ byte byte' other other' large different
      exact Or.inl (correct_failed sized mark some unaddressed (by omega))

theorem nandCorrectData_double_zeros :
    let read := (flipData (fun _ => 0) 300 1, (nandCalculateEcc (fun _ => 0) 512).xor (single 2 0))
    let result := nandCorrectData read.1 read.2 (nandCalculateEcc read.1 512) 512
    result = (-1, read.1) ∨ result.2 = fun _ => 0 :=
  nandCorrectData_double (Or.inr rfl) (fun _ => 0) (.data 300 1) (.stored 2 0) (by simp)

end RouterKernel.Ecc
