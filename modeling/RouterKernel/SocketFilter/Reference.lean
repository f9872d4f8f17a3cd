import RouterKernel.SocketFilter.Interpreter

/-!
Contract: the reference meaning of user instructions, before any rewrite.

Owns:
- the instruction set as the fields of a user code describe it;
- `decode`, which reads those fields;
- `meaning`, in which division by a constant is division;
- `referenceRun`, the machine over user instructions.

Does not own: the kernel codes, the table `codes` or reciprocals.

Packet access, scratch memory and the program counter are those of the
interpreter; what is stated independently is which operation each user code
denotes.
-/

namespace RouterKernel.SocketFilter.Reference

open Foundation

inductive Width where
  | word
  | half
  | byte
deriving DecidableEq, Repr

def Width.bytes : Width → Nat
  | .word => 4
  | .half => 2
  | .byte => 1

inductive Source where
  | constant
  | index
deriving DecidableEq, Repr

inductive Operation where
  | add
  | sub
  | mul
  | div
  | or
  | and
  | lsh
  | rsh
deriving DecidableEq, Repr

inductive Comparison where
  | eq
  | gt
  | ge
  | set
deriving DecidableEq, Repr

inductive Mode where
  | immediate
  | absolute (width : Width)
  | indirect (width : Width)
  | scratch
  | length
deriving DecidableEq, Repr

inductive Instruction where
  | load (mode : Mode)
  | loadIndexImmediate
  | loadIndexScratch
  | loadIndexLength
  /-- Four times the low nibble of a packet byte. -/
  | loadIndexHeaderLength
  | store
  | storeIndex
  | arithmetic (operation : Operation) (source : Source)
  | negate
  | jump
  | branch (comparison : Comparison) (source : Source)
  | returnConstant
  | returnAccumulator
  | accumulatorToIndex
  | indexToAccumulator
deriving DecidableEq, Repr

/-! ## Decoding by fields -/

/-- `BPF_CLASS`. -/
def classOf (code : U16) : U16 := code &&& 0x07

/-- `BPF_SIZE`. -/
def sizeOf (code : U16) : Option Width :=
  if code &&& 0x18 = BPF_W then some .word
  else if code &&& 0x18 = BPF_H then some .half
  else if code &&& 0x18 = BPF_B then some .byte
  else none

/-- `BPF_SRC`. -/
def sourceOf (code : U16) : Source :=
  if code &&& 0x08 = BPF_K then .constant else .index

/-- `BPF_OP` of an arithmetic instruction with two operands. -/
def operationOf (code : U16) : Option Operation :=
  let field := code &&& 0xf0
  if field = BPF_ADD then some .add
  else if field = BPF_SUB then some .sub
  else if field = BPF_MUL then some .mul
  else if field = BPF_DIV then some .div
  else if field = BPF_OR then some .or
  else if field = BPF_AND then some .and
  else if field = BPF_LSH then some .lsh
  else if field = BPF_RSH then some .rsh
  else none

/-- `BPF_OP` of a conditional jump. -/
def comparisonOf (code : U16) : Option Comparison :=
  let field := code &&& 0xf0
  if field = BPF_JEQ then some .eq
  else if field = BPF_JGT then some .gt
  else if field = BPF_JGE then some .ge
  else if field = BPF_JSET then some .set
  else none

/-- The class `BPF_LD`. -/
def decodeLoad (code : U16) : Option Instruction :=
  let mode := code &&& 0xe0
  if mode = BPF_ABS then (sizeOf code).map fun width => .load (.absolute width)
  else if mode = BPF_IND then (sizeOf code).map fun width => .load (.indirect width)
  else if code &&& 0x18 ≠ BPF_W then none
  else if mode = BPF_IMM then some (.load .immediate)
  else if mode = BPF_MEM then some (.load .scratch)
  else if mode = BPF_LEN then some (.load .length)
  else none

/-- The class `BPF_LDX`. -/
def decodeLoadIndex (code : U16) : Option Instruction :=
  let mode := code &&& 0xe0
  if mode = BPF_MSH ∧ code &&& 0x18 = BPF_B then some .loadIndexHeaderLength
  else if code &&& 0x18 ≠ BPF_W then none
  else if mode = BPF_IMM then some .loadIndexImmediate
  else if mode = BPF_MEM then some .loadIndexScratch
  else if mode = BPF_LEN then some .loadIndexLength
  else none

/-- The class `BPF_ALU`. -/
def decodeArithmetic (code : U16) : Option Instruction :=
  if code &&& 0xf0 = BPF_NEG then some .negate
  else (operationOf code).map fun operation => .arithmetic operation (sourceOf code)

/-- The class `BPF_JMP`. -/
def decodeJump (code : U16) : Option Instruction :=
  if code &&& 0xf0 = BPF_JA then some .jump
  else (comparisonOf code).map fun comparison => .branch comparison (sourceOf code)

/-- The class `BPF_RET`. -/
def decodeReturn (code : U16) : Option Instruction :=
  if code &&& 0x18 = BPF_K then some .returnConstant
  else if code &&& 0x18 = BPF_A then some .returnAccumulator
  else none

/-- The class `BPF_MISC`. -/
def decodeMisc (code : U16) : Option Instruction :=
  if code &&& 0xf8 = BPF_TAX then some .accumulatorToIndex
  else if code &&& 0xf8 = BPF_TXA then some .indexToAccumulator
  else none

def decode (code : U16) : Option Instruction :=
  let group := classOf code
  if group = BPF_LD then decodeLoad code
  else if group = BPF_LDX then decodeLoadIndex code
  else if group = BPF_ST then some .store
  else if group = BPF_STX then some .storeIndex
  else if group = BPF_ALU then decodeArithmetic code
  else if group = BPF_JMP then decodeJump code
  else if group = BPF_RET then decodeReturn code
  else decodeMisc code

/-! ## Meaning -/

/-- Arithmetic on 32-bit words; `none` is division by zero. -/
def Operation.value (a operand : U32) : Operation → Option U32
  | .add => some (a + operand)
  | .sub => some (a - operand)
  | .mul => some (a * operand)
  | .div => if operand = 0 then none else some (BitVec.ofNat 32 (a.toNat / operand.toNat))
  | .or => some (a ||| operand)
  | .and => some (a &&& operand)
  | .lsh => some (shiftLeft a operand)
  | .rsh => some (shiftRight a operand)

def Comparison.holds (a operand : U32) : Comparison → Bool
  | .eq => decide (a = operand)
  | .gt => decide (operand < a)
  | .ge => decide (operand ≤ a)
  | .set => a &&& operand != 0

/-- Ancillary data: the packet's own fields, at offsets from `SKF_AD_OFF` on.
The outer option says whether the offset names a field, the inner one whether
the packet has it. -/
def ancillaryValue (skb : SkBuff) (a x : U32) (offset : U32) : Option (Option U32) :=
  if offset = SKF_AD_OFF + SKF_AD_PROTOCOL then some (some ((ntohs skb.protocol).setWidth 32))
  else if offset = SKF_AD_OFF + SKF_AD_PKTTYPE then some (some (skb.pktType.setWidth 32))
  else if offset = SKF_AD_OFF + SKF_AD_IFINDEX then some (skb.dev.map (·.ifindex))
  else if offset = SKF_AD_OFF + SKF_AD_NLATTR then some (ancNlattr skb a x)
  else if offset = SKF_AD_OFF + SKF_AD_NLATTR_NEST then some (ancNlattrNest skb a x)
  else if offset = SKF_AD_OFF + SKF_AD_MARK then some (some skb.mark)
  else if offset = SKF_AD_OFF + SKF_AD_QUEUE then some (some (skb.queueMapping.setWidth 32))
  else if offset = SKF_AD_OFF + SKF_AD_HATYPE then
    some (skb.dev.map (·.type.setWidth 32))
  else if offset = SKF_AD_OFF + SKF_AD_RXHASH then some (some skb.rxhash)
  else if offset = SKF_AD_OFF + SKF_AD_CPU then some (some skb.cpu)
  else none

/-- The value at a fixed offset: ancillary data where the offset names some,
the packet otherwise. -/
def absoluteValue (skb : SkBuff) (a x : U32) (offset : U32) (width : Width) : Option U32 :=
  match ancillaryValue skb a x offset with
  | some field => field
  | none => loadPacket skb offset width.bytes

def Source.operand (k x : U32) : Source → U32
  | .constant => k
  | .index => x

/-- The meaning of an instruction with operand fields `jt`, `jf` and `k`. -/
def meaning (skb : SkBuff) (insn : SockFilter) (a x : U32) : Instruction → Effect
  | .load .immediate => .set insn.k x
  | .load (.absolute width) => .setA x (absoluteValue skb a x insn.k width)
  | .load (.indirect width) => .setA x (loadPacket skb (x + insn.k) width.bytes)
  | .load .scratch => .loadA
  | .load .length => .set skb.len x
  | .loadIndexImmediate => .set a insn.k
  | .loadIndexScratch => .loadX
  | .loadIndexLength => .set a skb.len
  | .loadIndexHeaderLength =>
    .setX a ((loadPacket skb insn.k 1).map fun byte : U32 => (byte &&& 0xf) <<< 2)
  | .store => .store a
  | .storeIndex => .store x
  | .arithmetic operation source => .setA x (operation.value a (source.operand insn.k x))
  | .negate => .set (-a) x
  | .jump => .jump insn.k.toNat
  | .branch comparison source =>
    .branch insn (comparison.holds a (source.operand insn.k x))
  | .returnConstant => .ret insn.k
  | .returnAccumulator => .ret a
  | .accumulatorToIndex => .set a a
  | .indexToAccumulator => .set x x

def referenceStep (skb : SkBuff) (program : List SockFilter) (machine : Machine) :
    Outcome Machine Verdict :=
  match program[machine.pc]? with
  | none => .halted (.fault (.outOfBounds machine.pc))
  | some insn =>
    match decode insn.code with
    | none => .halted (.unknownCode insn)
    | some instruction =>
      machine.apply insn (meaning skb insn machine.a machine.x instruction)

def referenceRun (skb : SkBuff) (program : List SockFilter) (mem : Scratch) (turns : Nat) :
    Outcome Machine Verdict :=
  runFor (referenceStep skb program) turns (entryState mem)

end RouterKernel.SocketFilter.Reference
