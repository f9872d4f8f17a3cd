import RouterKernel.Bonding.Headers

/-!
Contract: how close the credits of two links come to the ratio of their rates.

Owns:
- the credit of the faster link as a rounded quotient, while the product fits in 32 bits;
- the weights for which it follows the ratio, and rates for which it does not.

Does not own: how many headers a packet takes with these credits.
-/

namespace RouterKernel.Bonding

open Foundation

/-- The credit of the faster link in proportion to that of the slower one. -/
def exactCredit (maxWt minWt : U32) : ℚ := 512 * maxWt.toNat / minWt.toNat

theorem near_exactCredit_iff {maxWt minWt : U32} (used : minWt ≠ 0) (credit : Int) :
    |(credit : ℚ) - exactCredit maxWt minWt| < 1 ↔
      |credit * minWt.toNat - 512 * maxWt.toNat| < minWt.toNat := by
  have some : (0 : ℚ) < minWt.toNat := by
    rw [Nat.cast_pos, Nat.pos_iff_ne_zero]
    exact fun zero => used (BitVec.eq_of_toNat_eq zero)
  have scaled : ((credit * minWt.toNat - 512 * maxWt.toNat : Int) : ℚ) =
      ((credit : ℚ) - exactCredit maxWt minWt) * minWt.toNat := by
    unfold exactCredit
    push_cast
    field_simp
  rw [← Int.cast_lt (R := ℚ), Int.cast_abs, scaled, abs_mul, abs_of_pos some, Int.cast_natCast,
    mul_lt_iff_lt_one_left some]

section Weights

variable {maxWt minWt : U32} (used : minWt ≠ 0) (order : minWt ≤ maxWt)
  (bytes : maxWt.toNat < 2 ^ 29)

theorem fasterCredit_cases :
    let product := 512 * maxWt.toNat % 2 ^ 32
    (fasterCredit maxWt minWt).toNat = product / minWt.toNat ∨
      (fasterCredit maxWt minWt).toNat = (product / minWt.toNat + 1) % 2 ^ 32 ∧
        product % minWt.toNat ≠ 0 := by
  intro product
  have multiplied : (maxWt * XTMRT_PTM_BOND_TX_DEF_CREDIT).toNat = product := by
    rw [BitVec.toNat_mul, show XTMRT_PTM_BOND_TX_DEF_CREDIT.toNat = 512 from rfl, Nat.mul_comm]
  have quot : (maxWt * XTMRT_PTM_BOND_TX_DEF_CREDIT / minWt).toNat = product / minWt.toNat := by
    rw [BitVec.toNat_udiv, multiplied]
  have mod : (maxWt * XTMRT_PTM_BOND_TX_DEF_CREDIT % minWt).toNat = product % minWt.toNat := by
    rw [BitVec.toNat_umod, multiplied]
  unfold fasterCredit
  dsimp only
  split_ifs with large
  · right
    refine ⟨?_, ?_⟩
    · rw [BitVec.toNat_add, quot, show (1 : U32).toNat = 1 from rfl]
    · intro none
      have nothing : maxWt * XTMRT_PTM_BOND_TX_DEF_CREDIT % minWt = 0 :=
        BitVec.eq_of_toNat_eq (mod.trans none)
      rw [nothing] at large
      have zero : (0 : U32) * 10 / minWt = 0 := by
        apply BitVec.eq_of_toNat_eq
        rw [BitVec.toNat_udiv]
        exact Nat.zero_div _
      rw [zero] at large
      exact absurd large (by decide)
  · exact Or.inl quot

include used

include order bytes

/-- While the exact credit fits in 31 bits, the computed one is next to it exactly if the product of
the larger weight and the credit of the slower link fits in 32 bits. -/
theorem fasterCredit_near_iff (fits : exactCredit maxWt minWt < 2 ^ 31) :
    (0 < (fasterCredit maxWt minWt).toInt ∧
      |((fasterCredit maxWt minWt).toInt : ℚ) - exactCredit maxWt minWt| < 1) ↔
        maxWt.toNat < 2 ^ 23 := by
  have some : 0 < minWt.toNat := Nat.pos_of_ne_zero fun zero => used (BitVec.eq_of_toNat_eq zero)
  have less : minWt.toNat ≤ maxWt.toNat := order
  have short : 512 * maxWt.toNat < 2 ^ 31 * minWt.toNat := by
    unfold exactCredit at fits
    rw [div_lt_iff₀ (Nat.cast_pos.mpr some)] at fits
    exact_mod_cast fits
  rw [near_exactCredit_iff used]
  have cases := @fasterCredit_cases maxWt minWt
  have value := BitVec.toInt_eq_toNat_cond (fasterCredit maxWt minWt)
  have limit := (fasterCredit maxWt minWt).isLt
  generalize (fasterCredit maxWt minWt).toInt = credit at value
  generalize (fasterCredit maxWt minWt).toNat = bits at value cases limit
  dsimp only at cases
  have division := Nat.div_add_mod (512 * maxWt.toNat % 2 ^ 32) minWt.toNat
  have remainder := Nat.mod_lt (512 * maxWt.toNat % 2 ^ 32) some
  constructor
  · -- the product has lost a multiple of 2^32, and 2^32 is more than twice the smaller weight
    rintro ⟨_, near⟩
    by_contra fast
    generalize 512 * maxWt.toNat % 2 ^ 32 / minWt.toNat = quot at division cases
    have bound : credit ≤ quot + 1 := by omega
    have product : credit * minWt.toNat ≤ (quot + 1) * minWt.toNat :=
      mul_le_mul_of_nonneg_right bound (Int.natCast_nonneg _)
    rw [abs_lt] at near
    have spread : ((quot : Int) + 1) * minWt.toNat = (minWt.toNat * quot : Nat) + minWt.toNat := by
      push_cast
      ring
    omega
  · intro slow
    have kept : 512 * maxWt.toNat % 2 ^ 32 = 512 * maxWt.toNat := Nat.mod_eq_of_lt (by omega)
    rw [kept] at division remainder cases
    have positive : 512 ≤ 512 * maxWt.toNat / minWt.toNat := by
      rw [Nat.le_div_iff_mul_le some]
      omega
    have below : 512 * maxWt.toNat / minWt.toNat < 2 ^ 31 := by
      rw [Nat.div_lt_iff_lt_mul some]
      exact short
    have third : 3 ≤ minWt.toNat → 512 * maxWt.toNat / minWt.toNat ≤ 512 * maxWt.toNat / 3 :=
      fun large => Nat.div_le_div_left large (by decide)
    have even : minWt.toNat = 2 → 512 * maxWt.toNat % minWt.toNat = 0 := by
      intro two
      rw [two]
      omega
    have whole : minWt.toNat = 1 → 512 * maxWt.toNat % minWt.toNat = 0 := by
      intro one
      rw [one]
      omega
    generalize 512 * maxWt.toNat / minWt.toNat = quot at division cases positive below third
    have spread : ((quot : Int) + 1) * minWt.toNat = (minWt.toNat * quot : Nat) + minWt.toNat := by
      push_cast
      ring
    have exact : (quot : Int) * minWt.toNat = (minWt.toNat * quot : Nat) := by
      push_cast
      ring
    rw [abs_lt]
    rcases cases with floor | ⟨ceiling, left⟩
    · have same : credit = quot := by omega
      rw [same, exact]
      omega
    · have same : credit = quot + 1 := by omega
      rw [same, spread]
      omega

end Weights

/-- Two links in use: the slower one is configured with the credit of a full fragment, and the
credit of the faster one is positive and next to its exact value, exactly if the weight of the
faster one is below 2^23 bytes per second. -/
theorem calculateLinkParameters_ratio_iff (before : BondInfo) {rates : Fin MAX_BOND_PORTS → U32}
    {portMask : U32}
    (enabled : ∀ port : Fin MAX_BOND_PORTS, (portMask >>> (port : Nat)) &&& 1 ≠ 0)
    (used : ∀ port, rates port / 8 ≠ 0) (fast slow : Fin MAX_BOND_PORTS) (different : fast ≠ slow)
    (order : rates slow / 8 ≤ rates fast / 8)
    (fits : exactCredit (rates fast / 8) (rates slow / 8) < 2 ^ 31) :
    let info := calculateLinkParameters before rates portMask
    ((info.ilConfLinkUsCredit slow).toInt = 512 ∧ 0 < (info.ilConfLinkUsCredit fast).toInt ∧
      |((info.ilConfLinkUsCredit fast).toInt : ℚ) - exactCredit (rates fast / 8) (rates slow / 8)| <
        1) ↔
      (rates fast / 8).toNat < 2 ^ 23 := by
  intro info
  have weight (port : Fin MAX_BOND_PORTS) : confWtOf rates portMask port = rates port / 8 := by
    apply if_pos
    refine ⟨fun none => used port ?_, enabled port⟩
    rw [none]
    rfl
  have light (port : Fin MAX_BOND_PORTS) : (rates port / 8).toNat < 2 ^ 29 := by
    have := (rates port).isLt
    rw [BitVec.toNat_udiv, show (8 : U32).toNat = 8 from rfl]
    omega
  obtain ⟨max, min, all, larger, same⟩ := calculateLinkParameters_eq before rates portMask
  rw [weight, weight] at larger
  have credits :
      info.ilConfLinkUsCredit = Function.update (fun _ => XTMRT_PTM_BOND_TX_DEF_CREDIT) max
      (fasterCredit (rates max / 8) (rates min / 8)) := by
    rw [← weight, ← weight]
    unfold info
    rw [same]
    unfold linksOf distribute
    rw [if_pos (weight max ▸ used max), if_pos (weight min ▸ used min)]
  have full : XTMRT_PTM_BOND_TX_DEF_CREDIT.toInt = 512 := rfl
  rw [credits]
  rcases all fast with rfl | rfl
  · have here : slow = min := (all slow).resolve_left (Ne.symm different)
    subst here
    rw [Function.update_self, Function.update_of_ne (Ne.symm different), full]
    simp only [true_and]
    exact fasterCredit_near_iff (used slow) larger (light fast) fits
  · -- the weights are the same, and the other link counts as the faster one
    have there : slow = max := (all slow).resolve_right (Ne.symm different)
    subst there
    have equal : rates slow / 8 = rates fast / 8 := BitVec.le_antisymm order larger
    rw [equal] at fits ⊢
    have one : exactCredit (rates fast / 8) (rates fast / 8) = 512 := by
      have some : ((rates fast / 8).toNat : ℚ) ≠ 0 :=
        Nat.cast_ne_zero.mpr fun zero => used fast (BitVec.eq_of_toNat_eq zero)
      unfold exactCredit
      rw [mul_div_assoc, div_self some, mul_one]
    rw [Function.update_self, Function.update_of_ne different, full,
      ← fasterCredit_near_iff (used fast) (BitVec.le_refl _) (light fast) fits, one]
    have close (credit : Int) : |(credit : ℚ) - 512| < 1 ↔ credit = 512 := by
      rw [show (credit : ℚ) - 512 = ((credit - 512 : Int) : ℚ) by push_cast; rfl, ← Int.cast_abs,
        ← Int.cast_one, Int.cast_lt, abs_lt]
      omega
    rw [close, close]
    omega

/-- Two links of 10 and 3 Mbit/s. -/
theorem calculateLinkParameters_ratio_iff_slow :
    let rates : Fin MAX_BOND_PORTS → U32 := ![10000000, 3000000]
    let info := calculateLinkParameters blankInfo rates 3
    (info.ilConfLinkUsCredit 1).toInt = 512 ∧ 0 < (info.ilConfLinkUsCredit 0).toInt ∧
      |((info.ilConfLinkUsCredit 0).toInt : ℚ) - exactCredit (rates 0 / 8) (rates 1 / 8)| < 1 := by
  intro rates info
  have first : (rates 0 / 8).toNat = 1250000 := by decide
  have second : (rates 1 / 8).toNat = 375000 := by decide
  have fits : exactCredit (rates 0 / 8) (rates 1 / 8) < 2 ^ 31 := by
    unfold exactCredit
    rw [first, second]
    norm_num
  exact (calculateLinkParameters_ratio_iff blankInfo (by decide) (by decide) 0 1 (by decide)
      (by decide)
    fits).mpr (by rw [first]; decide)

/-- For two links of 100 Mbit/s the product wraps around, and the first one gets less credit than a
fragment takes. -/
theorem wrapped_product_loses_credit :
    let info := calculateLinkParameters blankInfo ![100000000, 100000000] 3
    exactCredit 12500000 12500000 = 512 ∧ (info.ilConfLinkUsCredit 1).toInt = 512 ∧
      (info.ilConfLinkUsCredit 0).toInt = 168 := by
  refine ⟨?_, by decide, by decide⟩
  change 512 * ((12500000 : Nat) : ℚ) / ((12500000 : Nat) : ℚ) = 512
  norm_num

end RouterKernel.Bonding
