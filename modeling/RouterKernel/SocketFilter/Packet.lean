import RouterKernel.SocketFilter.Instruction

/-!
Contract: the packet as the filter interpreter reads it.

Owns:
- `SkBuff`, the fields of `struct sk_buff` that `sk_run_filter` touches;
- `load_pointer` with its linear, paged and negative-offset arms;
- the netlink attribute walk of `lib/nlattr.c` behind the two `NLATTR` loads.

Addresses are 32-bit words and memory gives every address a byte, as on the
target; whether an access stays inside the packet is therefore a statement
about the addresses used, not a fault of the model.
-/

namespace RouterKernel.SocketFilter

open Foundation

/-- The fields of `struct net_device` that a filter can load. -/
structure NetDevice where
  ifindex : U32
  type : U16
deriving DecidableEq, Repr

/-- `struct sk_buff` with the memory it points into.  `paged` holds the bytes of
the page fragments and of the buffers on the fragment list, in the order in
which `skb_copy_bits` walks them. -/
structure SkBuff where
  memory : U32 → U8
  head : U32
  data : U32
  tail : U32
  networkHeader : U32
  macHeader : U32
  len : U32
  dataLen : U32
  paged : List (List U8)
  protocol : U16
  pktType : BitVec 3
  dev : Option NetDevice
  mark : U32
  queueMapping : U16
  rxhash : U32
  /-- `raw_smp_processor_id()` while the filter runs. -/
  cpu : U32
  dataLen_le : dataLen ≤ len
  len_int : len.toNat < 2 ^ 31

namespace SkBuff

variable (skb : SkBuff)

/-- `skb_headlen`. -/
def headlen : U32 := skb.len - skb.dataLen

/-- `skb_is_nonlinear`. -/
def isNonlinear : Bool := skb.dataLen != 0

/-- `count` bytes of memory from an address on. -/
def bytesAt (address : U32) (count : Nat) : List U8 :=
  (List.range count).map fun index => skb.memory (address + BitVec.ofNat 32 index)

end SkBuff

/-- A linear packet of four bytes at address `0x1000`. -/
def smallPacket : SkBuff where
  memory := fun address => if address = 0x1000 then 0x45 else 0
  head := 0x0f00
  data := 0x1000
  tail := 0x1004
  networkHeader := 0x1000
  macHeader := 0x0ff2
  len := 4
  dataLen := 0
  paged := []
  protocol := 0x0008
  pktType := 0
  dev := none
  mark := 0
  queueMapping := 0
  rxhash := 0
  cpu := 0
  dataLen_le := by decide
  len_int := by decide

/-- The loops of `skb_copy_bits` over what follows the linear part: `start` is
where the next piece begins, `len` what is still to copy. -/
def copyPieces : List (List U8) → (start offset : Int) → (len : Nat) → Option (List U8)
  | [], _, _, len => if len = 0 then some [] else none
  | piece :: rest, start, offset, len =>
    let stop := start + piece.length
    if 0 < stop - offset then
      let copy := min (stop - offset).toNat len
      let bytes := (piece.drop (offset - start).toNat).take copy
      if len - copy = 0 then some bytes
      else (copyPieces rest stop (offset + copy) (len - copy)).map (bytes ++ ·)
    else copyPieces rest stop offset len

/-- `skb_copy_bits`; `none` is `-EFAULT`. -/
def skbCopyBits (skb : SkBuff) (offset : U32) (len : Nat) : Option (List U8) :=
  if skb.len.toInt - len < offset.toInt then none
  else
    let copy := skb.headlen.toInt - offset.toInt
    if 0 < copy then
      let linear := min copy.toNat len
      let bytes := skb.bytesAt (skb.data + offset) linear
      if len - linear = 0 then some bytes
      else
        (copyPieces skb.paged skb.headlen.toInt (offset.toInt + linear) (len - linear)).map
          (bytes ++ ·)
    else copyPieces skb.paged skb.headlen.toInt offset.toInt len

/-- `skb_header_pointer`, as the bytes behind the pointer it returns. -/
def skbHeaderPointer (skb : SkBuff) (offset : U32) (len : Nat) : Option (List U8) :=
  if (len : Int) ≤ skb.headlen.toInt - offset.toInt then
    some (skb.bytesAt (skb.data + offset) len)
  else skbCopyBits skb offset len

/-- The pointer `bpf_internal_load_pointer_neg_helper` computes before it tests
it; `NULL` is 0. -/
def negHelperPointer (skb : SkBuff) (k : U32) : U32 :=
  if SKF_NET_OFF.toInt ≤ k.toInt then skb.networkHeader + k - SKF_NET_OFF
  else if SKF_LL_OFF.toInt ≤ k.toInt then skb.macHeader + k - SKF_LL_OFF
  else 0

def bpfInternalLoadPointerNegHelper (skb : SkBuff) (k : U32) (size : Nat) : Option (List U8) :=
  let ptr := negHelperPointer skb k
  if skb.head ≤ ptr ∧ ptr + BitVec.ofNat 32 size ≤ skb.tail then some (skb.bytesAt ptr size)
  else none

def loadPointer (skb : SkBuff) (k : U32) (size : Nat) : Option (List U8) :=
  if 0 ≤ k.toInt then skbHeaderPointer skb k size
  else bpfInternalLoadPointerNegHelper skb k size

/-- `get_unaligned_be16`, `get_unaligned_be32` and the single byte. -/
def bigEndian (bytes : List U8) : U32 :=
  bytes.foldl (fun value byte => (value <<< 8) ||| byte.setWidth 32) 0

/-! ## Netlink attributes -/

/-- A 16-bit field in the byte order of the target. -/
def readU16 (memory : U32 → U8) (address : U32) : Nat :=
  (memory address).toNat + 256 * (memory (address + 1)).toNat

/-- `nla->nla_len`. -/
def nlaLenField (memory : U32 → U8) (nla : U32) : Nat :=
  readU16 memory nla

/-- `nla_type`: the two flag bits are masked off. -/
def nlaType (memory : U32 → U8) (nla : U32) : Nat :=
  readU16 memory (nla + 2) % 2 ^ 14

/-- `NLA_HDRLEN`, which is also `sizeof(struct nlattr)`. -/
def NLA_HDRLEN : Nat := 4

def nlaAlign (len : Nat) : Nat := (len + 3) / 4 * 4

def nlaOk (memory : U32 → U8) (nla : U32) (remaining : Int) : Bool :=
  decide ((NLA_HDRLEN : Int) ≤ remaining) && decide (NLA_HDRLEN ≤ nlaLenField memory nla) &&
    decide ((nlaLenField memory nla : Int) ≤ remaining)

theorem nlaOk_iff {memory : U32 → U8} {nla : U32} {remaining : Int} :
    nlaOk memory nla remaining = true ↔
      4 ≤ remaining ∧ 4 ≤ nlaLenField memory nla ∧ (nlaLenField memory nla : Int) ≤ remaining := by
  simp only [nlaOk, Bool.and_eq_true, decide_eq_true_eq, and_assoc]
  exact Iff.rfl

/-- `nla_find`: the address of the first attribute of the given type. -/
def nlaFind (memory : U32 → U8) (nla : U32) (remaining : Int) (attrtype : U32) : Option U32 :=
  if _fits : nlaOk memory nla remaining = true then
    if nlaType memory nla = attrtype.toNat then some nla
    else
      nlaFind memory (nla + BitVec.ofNat 32 (nlaAlign (nlaLenField memory nla)))
        (remaining - nlaAlign (nlaLenField memory nla)) attrtype
  else none
termination_by remaining.toNat
decreasing_by
  have sizes := nlaOk_iff.mp _fits
  unfold nlaAlign
  omega

def nlaFindNested (memory : U32 → U8) (nla : U32) (attrtype : U32) : Option U32 :=
  nlaFind memory (nla + BitVec.ofNat 32 NLA_HDRLEN)
    ((nlaLenField memory nla : Int) - NLA_HDRLEN) attrtype

def attributeOffset (skb : SkBuff) (found : Option U32) : U32 :=
  match found with
  | some nla => nla - skb.data
  | none => 0

/-- The body of `BPF_S_ANC_NLATTR`; `none` is the early `return 0`. -/
def ancNlattr (skb : SkBuff) (a x : U32) : Option U32 :=
  if skb.isNonlinear then none
  else if skb.len - BitVec.ofNat 32 NLA_HDRLEN < a then none
  else
    some (attributeOffset skb
      (nlaFind skb.memory (skb.data + a) (skb.len - a).toInt x))

/-- The body of `BPF_S_ANC_NLATTR_NEST`. -/
def ancNlattrNest (skb : SkBuff) (a x : U32) : Option U32 :=
  if skb.isNonlinear then none
  else if skb.len - BitVec.ofNat 32 NLA_HDRLEN < a then none
  else if (a - skb.len).toNat < nlaLenField skb.memory (skb.data + a) then none
  else some (attributeOffset skb (nlaFindNested skb.memory (skb.data + a) x))

end RouterKernel.SocketFilter
