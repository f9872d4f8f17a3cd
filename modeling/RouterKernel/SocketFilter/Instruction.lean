import RouterKernel.Abi

/-!
Contract: the instructions of `include/linux/filter.h` and the table by which
`sk_chk_filter` turns user codes into kernel codes.

Owns:
- `SockFilter`, one block of a program;
- the user code fields `BPF_*` and the kernel codes `BPF_S_*`;
- `codes`, the translation table.

Does not own: the checks on an instruction or its meaning.
-/

namespace RouterKernel.SocketFilter

open Foundation

structure SockFilter where
  code : U16
  jt : U8
  jf : U8
  k : U32
deriving DecidableEq, Repr

/-! ## User codes -/

def BPF_LD : U16 := 0x00
def BPF_LDX : U16 := 0x01
def BPF_ST : U16 := 0x02
def BPF_STX : U16 := 0x03
def BPF_ALU : U16 := 0x04
def BPF_JMP : U16 := 0x05
def BPF_RET : U16 := 0x06
def BPF_MISC : U16 := 0x07

def BPF_W : U16 := 0x00
def BPF_H : U16 := 0x08
def BPF_B : U16 := 0x10

def BPF_IMM : U16 := 0x00
def BPF_ABS : U16 := 0x20
def BPF_IND : U16 := 0x40
def BPF_MEM : U16 := 0x60
def BPF_LEN : U16 := 0x80
def BPF_MSH : U16 := 0xa0

def BPF_ADD : U16 := 0x00
def BPF_SUB : U16 := 0x10
def BPF_MUL : U16 := 0x20
def BPF_DIV : U16 := 0x30
def BPF_OR : U16 := 0x40
def BPF_AND : U16 := 0x50
def BPF_LSH : U16 := 0x60
def BPF_RSH : U16 := 0x70
def BPF_NEG : U16 := 0x80

def BPF_JA : U16 := 0x00
def BPF_JEQ : U16 := 0x10
def BPF_JGT : U16 := 0x20
def BPF_JGE : U16 := 0x30
def BPF_JSET : U16 := 0x40

def BPF_K : U16 := 0x00
def BPF_X : U16 := 0x08
def BPF_A : U16 := 0x10

def BPF_TAX : U16 := 0x00
def BPF_TXA : U16 := 0x80

def BPF_MAXINSNS : Nat := 4096
def BPF_MEMWORDS : Nat := 16

/-! ## Ancillary data and negative offsets

The C constants are negative; as operands they are 32-bit words. -/

def SKF_AD_OFF : U32 := -0x1000
def SKF_AD_PROTOCOL : U32 := 0
def SKF_AD_PKTTYPE : U32 := 4
def SKF_AD_IFINDEX : U32 := 8
def SKF_AD_NLATTR : U32 := 12
def SKF_AD_NLATTR_NEST : U32 := 16
def SKF_AD_MARK : U32 := 20
def SKF_AD_QUEUE : U32 := 24
def SKF_AD_HATYPE : U32 := 28
def SKF_AD_RXHASH : U32 := 32
def SKF_AD_CPU : U32 := 36
def SKF_NET_OFF : U32 := -0x100000
def SKF_LL_OFF : U32 := -0x200000

/-! ## Kernel codes -/

/-- The enumeration `BPF_S_*`, in its order; the first one is 1. -/
inductive BpfS where
  | retK
  | retA
  | aluAddK
  | aluAddX
  | aluSubK
  | aluSubX
  | aluMulK
  | aluMulX
  | aluDivX
  | aluAndK
  | aluAndX
  | aluOrK
  | aluOrX
  | aluLshK
  | aluLshX
  | aluRshK
  | aluRshX
  | aluNeg
  | ldWAbs
  | ldHAbs
  | ldBAbs
  | ldWLen
  | ldWInd
  | ldHInd
  | ldBInd
  | ldImm
  | ldxWLen
  | ldxBMsh
  | ldxImm
  | miscTax
  | miscTxa
  | aluDivK
  | ldMem
  | ldxMem
  | st
  | stx
  | jmpJa
  | jmpJeqK
  | jmpJeqX
  | jmpJgeK
  | jmpJgeX
  | jmpJgtK
  | jmpJgtX
  | jmpJsetK
  | jmpJsetX
  | ancProtocol
  | ancPkttype
  | ancIfindex
  | ancNlattr
  | ancNlattrNest
  | ancMark
  | ancQueue
  | ancHatype
  | ancRxhash
  | ancCpu
deriving DecidableEq, Repr

namespace BpfS

def all : List BpfS :=
  [.retK, .retA, .aluAddK, .aluAddX, .aluSubK, .aluSubX, .aluMulK, .aluMulX, .aluDivX,
    .aluAndK, .aluAndX, .aluOrK, .aluOrX, .aluLshK, .aluLshX, .aluRshK, .aluRshX, .aluNeg,
    .ldWAbs, .ldHAbs, .ldBAbs, .ldWLen, .ldWInd, .ldHInd, .ldBInd, .ldImm, .ldxWLen,
    .ldxBMsh, .ldxImm, .miscTax, .miscTxa, .aluDivK, .ldMem, .ldxMem, .st, .stx, .jmpJa,
    .jmpJeqK, .jmpJeqX, .jmpJgeK, .jmpJgeX, .jmpJgtK, .jmpJgtX, .jmpJsetK, .jmpJsetX,
    .ancProtocol, .ancPkttype, .ancIfindex, .ancNlattr, .ancNlattrNest, .ancMark,
    .ancQueue, .ancHatype, .ancRxhash, .ancCpu]

def value (code : BpfS) : U16 :=
  BitVec.ofNat 16 (all.idxOf code + 1)

/-- The `case` label a value selects; `none` is the `default` label. -/
def ofValue (value : U16) : Option BpfS :=
  if value = 0 then none else all[value.toNat - 1]?

theorem ofValue_value (code : BpfS) : ofValue code.value = some code := by
  cases code <;> decide

def isConditional : BpfS → Bool
  | .jmpJeqK | .jmpJeqX | .jmpJgeK | .jmpJgeX | .jmpJgtK | .jmpJgtX | .jmpJsetX
  | .jmpJsetK => true
  | _ => false

def isStore : BpfS → Bool
  | .st | .stx => true
  | _ => false

def isLoad : BpfS → Bool
  | .ldMem | .ldxMem => true
  | _ => false

/-- The four codes whose operand indexes the scratch memory. -/
def isMemory (code : BpfS) : Bool :=
  code.isStore || code.isLoad

def isRet : BpfS → Bool
  | .retK | .retA => true
  | _ => false

/-- The loads from a fixed offset, which may name ancillary data. -/
def isAbsolute : BpfS → Bool
  | .ldWAbs | .ldHAbs | .ldBAbs => true
  | _ => false

/-! The classes exclude each other. -/

theorem no_jump_of_memory (code : BpfS) : code.isMemory = true →
    code ≠ .jmpJa ∧ code.isConditional = false ∧ code.isRet = false := by
  cases code <;> decide

theorem no_load_of_store (code : BpfS) : code.isStore = true → code.isLoad = false := by
  cases code <;> decide

theorem no_jumpAlways_of_conditional (code : BpfS) : code.isConditional = true → code ≠ .jmpJa := by
  cases code <;> decide

end BpfS

/-- The entries of the array `codes` in `sk_chk_filter` that are not 0. -/
def codesTable : List (U16 × BpfS) :=
  [(BPF_ALU ||| BPF_ADD ||| BPF_K, .aluAddK), (BPF_ALU ||| BPF_ADD ||| BPF_X, .aluAddX),
    (BPF_ALU ||| BPF_SUB ||| BPF_K, .aluSubK),
    (BPF_ALU ||| BPF_SUB ||| BPF_X, .aluSubX),
    (BPF_ALU ||| BPF_MUL ||| BPF_K, .aluMulK),
    (BPF_ALU ||| BPF_MUL ||| BPF_X, .aluMulX),
    (BPF_ALU ||| BPF_DIV ||| BPF_X, .aluDivX),
    (BPF_ALU ||| BPF_AND ||| BPF_K, .aluAndK),
    (BPF_ALU ||| BPF_AND ||| BPF_X, .aluAndX),
    (BPF_ALU ||| BPF_OR ||| BPF_K, .aluOrK),
    (BPF_ALU ||| BPF_OR ||| BPF_X, .aluOrX),
    (BPF_ALU ||| BPF_LSH ||| BPF_K, .aluLshK),
    (BPF_ALU ||| BPF_LSH ||| BPF_X, .aluLshX),
    (BPF_ALU ||| BPF_RSH ||| BPF_K, .aluRshK),
    (BPF_ALU ||| BPF_RSH ||| BPF_X, .aluRshX),
    (BPF_ALU ||| BPF_NEG, .aluNeg),
    (BPF_LD ||| BPF_W ||| BPF_ABS, .ldWAbs),
    (BPF_LD ||| BPF_H ||| BPF_ABS, .ldHAbs),
    (BPF_LD ||| BPF_B ||| BPF_ABS, .ldBAbs),
    (BPF_LD ||| BPF_W ||| BPF_LEN, .ldWLen),
    (BPF_LD ||| BPF_W ||| BPF_IND, .ldWInd),
    (BPF_LD ||| BPF_H ||| BPF_IND, .ldHInd),
    (BPF_LD ||| BPF_B ||| BPF_IND, .ldBInd),
    (BPF_LD ||| BPF_IMM, .ldImm),
    (BPF_LDX ||| BPF_W ||| BPF_LEN, .ldxWLen),
    (BPF_LDX ||| BPF_B ||| BPF_MSH, .ldxBMsh),
    (BPF_LDX ||| BPF_IMM, .ldxImm),
    (BPF_MISC ||| BPF_TAX, .miscTax),
    (BPF_MISC ||| BPF_TXA, .miscTxa),
    (BPF_RET ||| BPF_K, .retK),
    (BPF_RET ||| BPF_A, .retA),
    (BPF_ALU ||| BPF_DIV ||| BPF_K, .aluDivK),
    (BPF_LD ||| BPF_MEM, .ldMem),
    (BPF_LDX ||| BPF_MEM, .ldxMem),
    (BPF_ST, .st),
    (BPF_STX, .stx),
    (BPF_JMP ||| BPF_JA, .jmpJa),
    (BPF_JMP ||| BPF_JEQ ||| BPF_K, .jmpJeqK),
    (BPF_JMP ||| BPF_JEQ ||| BPF_X, .jmpJeqX),
    (BPF_JMP ||| BPF_JGE ||| BPF_K, .jmpJgeK),
    (BPF_JMP ||| BPF_JGE ||| BPF_X, .jmpJgeX),
    (BPF_JMP ||| BPF_JGT ||| BPF_K, .jmpJgtK),
    (BPF_JMP ||| BPF_JGT ||| BPF_X, .jmpJgtX),
    (BPF_JMP ||| BPF_JSET ||| BPF_K, .jmpJsetK),
    (BPF_JMP ||| BPF_JSET ||| BPF_X, .jmpJsetX)]

/-- `ARRAY_SIZE(codes)`: the largest index is `BPF_LDX|BPF_B|BPF_MSH`. -/
def codesSize : Nat := 0xb2

/-- `codes[code]`; `none` is the value 0. -/
def codes (code : U16) : Option BpfS :=
  codesTable.lookup code

end RouterKernel.SocketFilter
