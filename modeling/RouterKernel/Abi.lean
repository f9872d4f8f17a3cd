import RouterKernel.Foundation.Words

/-!
Contract: what the parts of the kernel share of its headers.

Owns:
- numbers of errors, of protocols and of TCP options;
- the byte order of the network, on a little-endian machine.
-/

namespace RouterKernel

open Foundation

def EAGAIN : Int := 11
def ENOMEM : Int := 12
def EINVAL : Int := 22

def IPPROTO_IGMP : U8 := 2
def IPPROTO_TCP : U8 := 6
def IPPROTO_UDP : U8 := 17

def TCPOPT_EOL : Nat := 0
def TCPOPT_NOP : Nat := 1
def TCPOPT_SACK : Nat := 5
def TCPOLEN_SACK_PERBLOCK : Nat := 8

/-! ## Byte order -/

/-- `ntohs` on a little-endian machine. -/
def ntohs (word : U16) : U16 := word.extractLsb' 0 8 ++ word.extractLsb' 8 8

/-- `htons`, the same exchange of bytes. -/
def htons (word : U16) : U16 := ntohs word

theorem toNat_ntohs (word : U16) :
    (ntohs word).toNat = word.toNat % 256 * 256 + word.toNat / 256 := by
  have small : word.toNat / 256 < 2 ^ 8 := by
    have := word.isLt
    omega
  rw [ntohs, BitVec.toNat_append, BitVec.extractLsb'_toNat, BitVec.extractLsb'_toNat,
    Nat.shiftRight_zero, Nat.shiftRight_eq_div_pow, Nat.mod_eq_of_lt small,
    ← Nat.shiftLeft_add_eq_or_of_lt small, Nat.shiftLeft_eq]

@[simp] theorem ntohs_ntohs (word : U16) : ntohs (ntohs word) = word := by
  apply BitVec.eq_of_toNat_eq
  have small := word.isLt
  rw [toNat_ntohs, toNat_ntohs]
  omega

@[simp] theorem ntohs_htons (word : U16) : ntohs (htons word) = word := ntohs_ntohs word

/-- `ntohl` on a little-endian machine, and `htonl`. -/
def ntohl (word : U32) : U32 :=
  word.extractLsb' 0 8 ++ word.extractLsb' 8 8 ++ word.extractLsb' 16 8 ++ word.extractLsb' 24 8

def htonl (word : U32) : U32 := ntohl word

theorem ntohl_append (b0 b1 b2 b3 : U8) : ntohl (b3 ++ b2 ++ b1 ++ b0) = b0 ++ b1 ++ b2 ++ b3 := by
  have first : (b3 ++ b2 ++ b1 ++ b0).extractLsb' 0 8 = b0 := BitVec.extractLsb'_append_eq_right
  have second : (b3 ++ b2 ++ b1 ++ b0).extractLsb' 8 8 = b1 := by
    rw [BitVec.extractLsb'_append_eq_of_le (by decide)]
    exact BitVec.extractLsb'_append_eq_right
  have third : (b3 ++ b2 ++ b1 ++ b0).extractLsb' 16 8 = b2 := by
    rw [BitVec.extractLsb'_append_eq_of_le (by decide),
      BitVec.extractLsb'_append_eq_of_le (by decide)]
    exact BitVec.extractLsb'_append_eq_right
  have fourth : (b3 ++ b2 ++ b1 ++ b0).extractLsb' 24 8 = b3 := by
    rw [BitVec.extractLsb'_append_eq_of_le (by decide),
        BitVec.extractLsb'_append_eq_of_le (by decide),
      BitVec.extractLsb'_append_eq_of_le (by decide)]
    exact BitVec.extractLsb'_eq_self
  rw [ntohl, first, second, third, fourth]

@[simp] theorem ntohl_htonl (word : U32) : ntohl (htonl word) = word := by
  rw [htonl, ntohl.eq_1 word, ntohl_append]
  apply BitVec.eq_of_getLsbD_eq
  intro index inside
  simp only [BitVec.getLsbD_append, BitVec.getLsbD_extractLsb']
  split_ifs <;> simp <;> grind

end RouterKernel
