import RouterKernel.Foundation.Checked
import RouterKernel.Foundation.Fueled

/-!
Contract: division of a 64-bit word by a 32-bit word.

Owns:
- `__div64_32`, shift-and-subtract division with its two loops;
- `do_div` and `div_u64`, which call it for dividends of more than 32 bits;
- their exactness for every divisor but zero.
-/

namespace RouterKernel.Division

open RouterKernel.Foundation

/-! ## The code -/

/-- `while ((int64_t)b > 0 && b < rem)` -/
def scaleTurn (rem : U64) : U64 × U64 → Outcome (U64 × U64) (U64 × U64)
  | (b, d) => if 0 < b.toInt ∧ b < rem then .running (b + b, d + d) else .halted (b, d)

structure Steps where
  rem : U64
  b : U64
  res : U64
  d : U64
deriving DecidableEq

/-- One turn of `do … while (d)`. -/
def subtractTurn (s : Steps) : Outcome Steps (U64 × U64) :=
  let s := if s.b ≤ s.rem then { s with rem := s.rem - s.b, res := s.res + s.d } else s
  let s := { s with b := s.b >>> 1, d := s.d >>> 1 }
  if s.d = 0 then .halted (s.res, s.rem) else .running s

/-- The quotient's high word, and what remains to be divided. -/
def reduceHigh (rem : U64) (base : U32) : Except Fault (U64 × U64) := do
  let high : U32 := (rem >>> 32).setWidth 32
  if base ≤ high then do
    let high ← udiv high base
    .ok (high.setWidth 64 <<< 32, rem - ((high * base).setWidth 64 <<< 32))
  else .ok (0, rem)

/-- The quotient, which the source stores through its argument, and the remainder. -/
def div6432 (fuel : Nat) (n : U64) (base : U32) : Attempt Fault (U64 × U32) := do
  let (res, rem) ← liftM (reduceHigh n base)
  let (b, d) ← loop (fun _ s => pure (scaleTurn rem s)) fuel (base.setWidth 64, 1)
  let (res, rem) ← loop (fun _ s => pure (subtractTurn s)) fuel { rem, b, res, d }
  pure (res, rem.setWidth 32)

def doDiv (fuel : Nat) (n : U64) (base : U32) : Attempt Fault (U64 × U32) :=
  if n >>> 32 = 0 then do
    let rem ← liftM (umod (n.setWidth 32) base)
    let quot ← liftM (udiv (n.setWidth 32) base)
    pure (quot.setWidth 64, rem)
  else div6432 fuel n base

def divU64 (fuel : Nat) (dividend : U64) (divisor : U32) : Attempt Fault U64 := do
  let (quot, _) ← doDiv fuel dividend divisor
  pure quot

/-! ## Scaling -/

/-- The divisor has been scaled by a power of two, which is in `d`. -/
def Scaled (base : Nat) (b d : U64) : Prop := ∃ i, b.toNat = base * 2 ^ i ∧ d.toNat = 2 ^ i

theorem toInt_pos_iff (b : U64) : 0 < b.toInt ↔ 0 < b.toNat ∧ b.toNat < 2 ^ 63 := by
  rw [BitVec.toInt_eq_toNat_cond]
  split_ifs <;> omega

theorem scale_spec {base : Nat} (positive : 0 < base) (rem : U64) {b d : U64}
    (scaled : Scaled base b d) :
    Returns (fun fuel =>
        (loop (fun _ s => pure (scaleTurn rem s)) fuel (b, d) : Attempt Fault (U64 × U64)))
      fun s => Scaled base s.1 s.2 ∧ rem.toNat < 2 * s.1.toNat := by
  apply Returns.loop (fun s : U64 × U64 => Scaled base s.1 s.2) fun s => 2 ^ 64 - s.1.toNat
  · rintro ⟨b, d⟩ ⟨i, isB, isD⟩
    have bPositive : 0 < b.toNat := by
      rw [isB]
      positivity
    have remSmall := rem.isLt
    apply Returns.pure
    dsimp only [scaleTurn] at isB isD ⊢
    by_cases more : 0 < b.toInt ∧ b < rem
    · rw [if_pos more]
      obtain ⟨small, -⟩ := more
      rw [toInt_pos_iff] at small
      have doubled : (b + b).toNat = 2 * b.toNat := by
        rw [BitVec.toNat_add]
        omega
      have power : 2 ^ i ≤ base * 2 ^ i := Nat.le_mul_of_pos_left _ positive
      have doubledD : (d + d).toNat = 2 * d.toNat := by
        rw [BitVec.toNat_add]
        omega
      refine ⟨⟨i + 1, ?_, ?_⟩, ?_⟩
      · rw [doubled, isB, pow_succ]
        ring
      · rw [doubledD, isD, pow_succ]
        ring
      · change 2 ^ 64 - (b + b).toNat < 2 ^ 64 - b.toNat
        omega
    · rw [if_neg more]
      refine ⟨⟨i, isB, isD⟩, ?_⟩
      change rem.toNat < 2 * b.toNat
      rw [toInt_pos_iff, BitVec.lt_def] at more
      omega
  · exact scaled

/-! ## Subtracting -/

/-- What is left to divide is small against the scaled divisor. -/
structure Dividing (n base : Nat) (s : Steps) : Prop where
  scaled : Scaled base s.b s.d
  small : s.rem.toNat < 2 * s.b.toNat
  parts : n = s.res.toNat * base + s.rem.toNat

theorem Dividing.res_small {n base : Nat} {s : Steps} (dividing : Dividing n base s)
    (positive : 0 < base)
    (bound : n < 2 ^ 64) {extra : Nat} (fits : extra * base ≤ s.rem.toNat) :
    s.res.toNat + extra < 2 ^ 64 := by
  have parts := dividing.parts
  have grown : s.res.toNat + extra ≤ (s.res.toNat + extra) * base :=
    Nat.le_mul_of_pos_right _ positive
  rw [Nat.add_mul] at grown
  omega

theorem subtract_spec {n base : Nat} (positive : 0 < base) (bound : n < 2 ^ 64) {s : Steps}
    (start : Dividing n base s) :
    Returns (fun fuel =>
        (loop (fun _ s => pure (subtractTurn s)) fuel s : Attempt Fault (U64 × U64)))
      fun result => result.1.toNat = n / base ∧ result.2.toNat = n % base := by
  apply Returns.loop (Dividing n base) fun s => s.d.toNat
  · intro s dividing
    obtain ⟨i, isB, isD⟩ := dividing.scaled
    -- After the conditional subtraction what is left is below the scaled divisor.
    obtain ⟨s', computed, sameB, sameD, small, parts⟩ : ∃ s' : Steps,
        (if s.b ≤ s.rem then { s with rem := s.rem - s.b, res := s.res + s.d } else s) = s' ∧
            s'.b = s.b ∧
          s'.d = s.d ∧ s'.rem.toNat < s.b.toNat ∧ n = s'.res.toNat * base + s'.rem.toNat := by
      have small := dividing.small
      have parts := dividing.parts
      by_cases fits : s.b ≤ s.rem
      · refine ⟨_, if_pos fits, rfl, rfl, ?_, ?_⟩
        · rw [BitVec.le_def] at fits
          change (s.rem - s.b).toNat < s.b.toNat
          rw [BitVec.toNat_sub_of_le (BitVec.le_def.mpr fits)]
          omega
        · have noWrap : (s.res + s.d).toNat = s.res.toNat + 2 ^ i := by
            rw [BitVec.toNat_add, isD, Nat.mod_eq_of_lt]
            apply dividing.res_small positive bound
            rw [mul_comm, ← isB]
            exact BitVec.le_def.mp fits
          change n = (s.res + s.d).toNat * base + (s.rem - s.b).toNat
          rw [noWrap, BitVec.toNat_sub_of_le fits, Nat.add_mul, mul_comm (2 ^ i) base, ← isB]
          have := BitVec.le_def.mp fits
          omega
      · refine ⟨_, if_neg fits, rfl, rfl, ?_, parts⟩
        rw [BitVec.le_def] at fits
        omega
    apply Returns.pure
    dsimp only [subtractTurn]
    rw [computed, sameB, sameD]
    have halvedB : (s.b >>> 1).toNat = s.b.toNat / 2 := by
      rw [BitVec.toNat_ushiftRight, Nat.shiftRight_one]
    have halvedD : (s.d >>> 1).toNat = s.d.toNat / 2 := by
      rw [BitVec.toNat_ushiftRight, Nat.shiftRight_one]
    cases i with
    | zero =>
      have last : s.d >>> 1 = 0 := by
        apply BitVec.eq_of_toNat_eq
        rw [halvedD, isD]
        rfl
      rw [if_pos last]
      rw [isB, pow_zero, mul_one] at small
      change s'.res.toNat = n / base ∧ s'.rem.toNat = n % base
      rw [parts]
      constructor
      · rw [Nat.mul_comm, Nat.mul_add_div positive, Nat.div_eq_of_lt small, Nat.add_zero]
      · rw [Nat.mul_comm, Nat.mul_add_mod, Nat.mod_eq_of_lt small]
    | succ i =>
      rw [pow_succ] at isB isD
      have power := Nat.two_pow_pos i
      have goesOn : s.d >>> 1 ≠ 0 := by
        intro zero
        have := congrArg BitVec.toNat zero
        rw [halvedD, isD] at this
        change _ = 0 at this
        omega
      rw [if_neg goesOn]
      refine ⟨⟨⟨i, ?_, ?_⟩, ?_, parts⟩, ?_⟩
      · change (s.b >>> 1).toNat = _
        rw [halvedB, isB, ← mul_assoc, Nat.mul_div_cancel _ (by decide)]
      · change (s.d >>> 1).toNat = _
        rw [halvedD, isD, Nat.mul_div_cancel _ (by decide)]
      · change s'.rem.toNat < 2 * (s.b >>> 1).toNat
        rw [halvedB]
        rw [isB, ← mul_assoc] at small ⊢
        omega
      · change (s.d >>> 1).toNat < s.d.toNat
        rw [halvedD, isD]
        omega
  · exact start

/-! ## The quotient -/

theorem shiftHigh_toNat (word : U32) : (word.setWidth 64 <<< 32).toNat = word.toNat * 2 ^ 32 := by
  have small := word.isLt
  rw [BitVec.toNat_shiftLeft, BitVec.toNat_setWidth, Nat.shiftLeft_eq]
  omega

theorem toNat_pos {w : Nat} {word : BitVec w} (nonzero : word ≠ 0) : 0 < word.toNat := by
  apply Nat.pos_of_ne_zero
  intro zero
  exact nonzero (BitVec.eq_of_toNat_eq (by rw [zero]; rfl))

theorem reduceHigh_spec (n : U64) {base : U32} (nonzero : base ≠ 0) :
    ∃ res rem, reduceHigh n base = .ok (res, rem) ∧
      n.toNat = res.toNat * base.toNat + rem.toNat := by
  have bound := n.isLt
  have isHigh : ((n >>> 32).setWidth 32).toNat = n.toNat / 2 ^ 32 := by
    rw [BitVec.toNat_setWidth, BitVec.toNat_ushiftRight, Nat.shiftRight_eq_div_pow]
    omega
  unfold reduceHigh
  dsimp only
  by_cases large : base ≤ (n >>> 32).setWidth 32
  · rw [if_pos large, udiv_ok nonzero, bind_ok]
    refine ⟨_, _, rfl, ?_⟩
    have quotient : ((n >>> 32).setWidth 32 / base).toNat = n.toNat / 2 ^ 32 / base.toNat := by
      rw [BitVec.toNat_udiv, isHigh]
    have below := Nat.div_mul_le_self (n.toNat / 2 ^ 32) base.toNat
    have product : ((n >>> 32).setWidth 32 / base * base).toNat =
        n.toNat / 2 ^ 32 / base.toNat * base.toNat := by
      rw [BitVec.toNat_mul, quotient, Nat.mod_eq_of_lt (by omega)]
    have taken : (((n >>> 32).setWidth 32 / base * base).setWidth 64 <<< 32).toNat =
        n.toNat / 2 ^ 32 / base.toNat * base.toNat * 2 ^ 32 := by
      rw [shiftHigh_toNat, product]
    have fits : ((n >>> 32).setWidth 32 / base * base).setWidth 64 <<< 32 ≤ n := by
      rw [BitVec.le_def, taken]
      omega
    rw [BitVec.toNat_sub_of_le fits, taken, shiftHigh_toNat, quotient, Nat.mul_right_comm]
    have := BitVec.le_def.mp fits
    rw [taken] at this
    omega
  · rw [if_neg large]
    refine ⟨_, _, rfl, ?_⟩
    rw [show ((0 : U64).toNat) = 0 from rfl, Nat.zero_mul, Nat.zero_add]

theorem div6432_spec (n : U64) {base : U32} (nonzero : base ≠ 0) :
    Returns (fun fuel => div6432 fuel n base) fun result =>
      result.1.toNat = n.toNat / base.toNat ∧ result.2.toNat = n.toNat % base.toNat := by
  have positive := toNat_pos nonzero
  obtain ⟨res, rem, reduced, parts⟩ := reduceHigh_spec n nonzero
  apply Returns.step reduced
  have scaled : Scaled base.toNat (base.setWidth 64) 1 := by
    refine ⟨0, ?_, rfl⟩
    rw [BitVec.toNat_setWidth, pow_zero, mul_one]
    omega
  refine Returns.bind (scale_spec positive rem scaled) ?_
  rintro ⟨b, d⟩ ⟨scaledThen, small⟩
  have start : Dividing n.toNat base.toNat { rem, b, res, d } := ⟨scaledThen, small, parts⟩
  refine Returns.bind (subtract_spec positive n.isLt start) ?_
  rintro ⟨quot, left⟩ ⟨isQuot, isLeft⟩
  apply Returns.pure
  refine ⟨isQuot, ?_⟩
  dsimp only at isLeft ⊢
  rw [BitVec.toNat_setWidth, isLeft, Nat.mod_eq_of_lt]
  exact lt_trans (Nat.mod_lt _ positive) base.isLt

theorem divU64_spec (dividend : U64) {divisor : U32} (nonzero : divisor ≠ 0) :
    Returns (fun fuel => divU64 fuel dividend divisor) fun quot =>
      quot.toNat = dividend.toNat / divisor.toNat := by
  have whole : Returns (fun fuel => doDiv fuel dividend divisor) fun result =>
      result.1.toNat = dividend.toNat / divisor.toNat := by
    unfold doDiv
    by_cases short : dividend >>> 32 = 0
    · simp only [if_pos short]
      apply Returns.step (umod_ok nonzero)
      apply Returns.step (udiv_ok nonzero)
      apply Returns.pure
      have high := congrArg BitVec.toNat short
      rw [BitVec.toNat_ushiftRight, Nat.shiftRight_eq_div_pow] at high
      change _ = 0 at high
      have small : dividend.toNat < 2 ^ 32 := by omega
      have quotient : (dividend.setWidth 32 / divisor).toNat = dividend.toNat / divisor.toNat := by
        rw [BitVec.toNat_udiv, BitVec.toNat_setWidth, Nat.mod_eq_of_lt small]
      change ((dividend.setWidth 32 / divisor).setWidth 64).toNat = _
      rw [BitVec.toNat_setWidth, quotient, Nat.mod_eq_of_lt (by omega)]
    · simp only [if_neg short]
      exact (div6432_spec dividend nonzero).mono fun _ both => both.1
  refine Returns.bind whole ?_
  rintro ⟨quot, left⟩ isQuot
  exact Returns.pure isQuot

end RouterKernel.Division
