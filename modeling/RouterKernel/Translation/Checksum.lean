import RouterKernel.Foundation.OnesComplement
import RouterKernel.Translation.Tuple

/-!
Contract: the checksum functions that rewriting a packet uses.

Owns:
- `csum_partial`, `csum_fold` and the sums over IP headers and pseudo headers, as
  the ARM code adds them up;
- the updates for a replaced word;
- what these do to the class of a sum.
-/

namespace RouterKernel.Translation

open Foundation

/-- `adcs`, on the sum and the carry flag. -/
def adcs (state : U32 × Bool) (word : U32) : U32 × Bool :=
  let total := state.1.toNat + word.toNat + state.2.toNat
  (BitVec.ofNat 32 total, decide (2 ^ 32 ≤ total))

/-- `csum_partial` over whole words; the last `adc` collects the carry. -/
def csumPartial (words : List U32) (sum : U32) : U32 :=
  let (sum, carry) := words.foldl adcs (sum, false)
  sum + if carry then 1 else 0

def csumFold (sum : U32) : U16 := ((~~~(sum + sum.rotateRight 16)) >>> 16).setWidth 16

def csumUnfold (sum : U16) : U32 := sum.setWidth 32

def ipFastCsum (words : List U32) : U16 := csumFold (csumPartial words 0)

def csumTcpudpNofold (saddr daddr : U32) (len proto : U16) (sum : U32) : U32 :=
  csumPartial [daddr, saddr, len.setWidth 32 <<< 8, (htons proto).setWidth 32] sum

def csumTcpudpMagic (saddr daddr : U32) (len proto : U16) (sum : U32) : U16 :=
  csumFold (csumTcpudpNofold saddr daddr len proto sum)

def CSUM_MANGLED_0 : U16 := 0xffff

def csumReplace4 (sum : U16) (old new : U32) : U16 :=
  csumFold (csumPartial [~~~old, new] (~~~csumUnfold sum))

/-- The values of `skb->ip_summed`. -/
inductive IpSummed where
  | checksumNone
  | checksumUnnecessary
  | checksumComplete
  | checksumPartial
deriving DecidableEq, Repr

/-- `inet_proto_csum_replace4`, with the new checksum and the new `skb->csum`. -/
def inetProtoCsumReplace4 (ipSummed : IpSummed) (sum : U16) (csum : U32) (old new : U32)
    (pseudohdr : Bool) : U16 × U32 :=
  if ipSummed ≠ .checksumPartial then
    (csumFold (csumPartial [~~~old, new] (~~~csumUnfold sum)), if ipSummed = .checksumComplete ∧
        pseudohdr = true then
        ~~~csumPartial [~~~old, new] (~~~csum)
      else csum)
  else if pseudohdr then (~~~csumFold (csumPartial [~~~old, new] (csumUnfold sum)), csum)
  else (sum, csum)

def inetProtoCsumReplace2 (ipSummed : IpSummed) (sum : U16) (csum : U32) (old new : U16)
    (pseudohdr : Bool) : U16 × U32 :=
  inetProtoCsumReplace4 ipSummed sum csum (old.setWidth 32) (new.setWidth 32) pseudohdr

/-! ## Sums -/

/-- Carrying on to the next addition is the same as putting the carry back in at
once. -/
theorem foldl_adcs_eq (words : List U32) (sum : U32) (carry : Bool) (start : U32)
    (value : start.toNat = sum.toNat + carry.toNat) :
    ((words.foldl adcs (sum, carry)).1.toNat + (words.foldl adcs (sum, carry)).2.toNat) =
      (onesSum words start).toNat := by
  induction words generalizing sum carry start with
  | nil => exact value.symm
  | cons word rest ih =>
    have wordSmall := word.isLt
    have total : sum.toNat + word.toNat + carry.toNat = start.toNat + word.toNat := by omega
    rw [List.foldl_cons, onesSum, List.foldl_cons, ← onesSum]
    apply ih
    rw [toNat_endAround, total, BitVec.toNat_ofNat]
    by_cases carries : 2 ^ 32 ≤ start.toNat + word.toNat
    · rw [decide_eq_true carries, Bool.toNat_true]
      omega
    · rw [decide_eq_false carries, Bool.toNat_false]
      omega

theorem csumPartial_eq_onesSum (words : List U32) (sum : U32) :
    csumPartial words sum = onesSum words sum := by
  have value := foldl_adcs_eq words sum false sum rfl
  have small := (onesSum words sum).isLt
  apply BitVec.eq_of_toNat_eq
  rw [← value] at small ⊢
  unfold csumPartial
  cases carry : (words.foldl adcs (sum, false)).2 with
  | false =>
    rw [carry] at small
    simp [carry]
  | true =>
    rw [carry, Bool.toNat_true] at small
    simp only [carry, if_true, Bool.toNat_true, BitVec.toNat_add]
    exact Nat.mod_eq_of_lt small

theorem csumFold_eq (sum : U32) : csumFold sum = ~~~foldHalves sum := by
  apply BitVec.eq_of_getLsbD_eq
  intro index inside
  simp only [csumFold, foldHalves, BitVec.getLsbD_setWidth, BitVec.getLsbD_ushiftRight,
    BitVec.getLsbD_not]
  have high : 16 + index < 32 := by omega
  simp [inside, high]

theorem residue_csumPartial (words : List U32) (sum : U32) :
    residue (csumPartial words sum) = residue sum + (words.map residue).sum := by
  rw [csumPartial_eq_onesSum, residue_onesSum]

theorem residue_csumFold (sum : U32) : residue (csumFold sum) = -residue sum := by
  rw [csumFold_eq, residue_not16, residue_foldHalves]

theorem csumFold_csumPartial_eq_zero_iff (words : List U32) (sum : U32) :
    csumFold (csumPartial words sum) = 0 ↔
      ¬ (sum = 0 ∧ ∀ word ∈ words, word = 0) ∧ residue sum + (words.map residue).sum = 0 := by
  rw [csumFold_eq, not_foldHalves_eq_zero_iff, residue_csumPartial, csumPartial_eq_onesSum, ne_eq,
    onesSum_eq_zero_iff]

/-! ## Replaced words -/

theorem residue_csumReplace4 (sum : U16) (old new : U32) :
    residue (csumReplace4 sum old new) = residue sum + residue old - residue new := by
  rw [csumReplace4, residue_csumFold, residue_csumPartial, residue_not, csumUnfold,
    residue_setWidth]
  simp only [List.map_cons, List.map_nil, List.sum_cons, List.sum_nil, residue_not]
  ring

section Replace

variable {ipSummed : IpSummed} {sum : U16} {csum old new : U32} {pseudohdr : Bool}

theorem residue_replace4_fst (full : ipSummed ≠ .checksumPartial) :
    residue (inetProtoCsumReplace4 ipSummed sum csum old new pseudohdr).1 =
      residue sum + residue old - residue new := by
  rw [inetProtoCsumReplace4, if_pos full]
  exact residue_csumReplace4 sum old new

theorem residue_replace4_snd (complete : ipSummed = .checksumComplete) :
    residue (inetProtoCsumReplace4 ipSummed sum csum old new true).2 =
      residue csum + residue old - residue new := by
  subst complete
  simp only [inetProtoCsumReplace4, ne_eq, reduceCtorEq, not_false_eq_true, if_true, and_self,
    residue_not, residue_csumPartial, List.map_cons, List.map_nil, List.sum_cons, List.sum_nil]
  ring

theorem replace4_snd_of_not_pseudohdr : (inetProtoCsumReplace4 ipSummed sum csum old new false).2 =
    csum := by
  cases ipSummed <;> rfl

/-- With the sum left to the device, a word of the pseudo header is replaced in the
uncomplemented sum. -/
theorem residue_replace4_unfinished :
    residue (inetProtoCsumReplace4 .checksumPartial sum csum old new true).1 =
      residue sum - residue old + residue new := by
  simp only [inetProtoCsumReplace4, ne_eq, not_true_eq_false, if_false, if_true, residue_not16,
    residue_csumFold, residue_csumPartial, csumUnfold, residue_setWidth, List.map_cons,
    List.map_nil, List.sum_cons, List.sum_nil, residue_not]
  ring

theorem replace4_unfinished_ne_zero (nonzero : sum ≠ 0) :
    (inetProtoCsumReplace4 .checksumPartial sum csum old new true).1 ≠ 0 := by
  simp only [inetProtoCsumReplace4, ne_eq, not_true_eq_false, if_false, if_true, csumFold_eq,
    BitVec.not_not, foldHalves_eq_zero_iff, csumPartial_eq_onesSum, onesSum_eq_zero_iff, not_and]
  intro zero
  refine absurd ?_ nonzero
  have bits := congrArg BitVec.toNat zero
  rw [csumUnfold, BitVec.toNat_setWidth, Nat.mod_eq_of_lt (by have := sum.isLt; omega)] at bits
  exact BitVec.eq_of_toNat_eq bits

end Replace

end RouterKernel.Translation
