import RouterKernel.Foundation.Machine
import RouterKernel.SocketFilter.Packet

/-!
Contract: `sk_run_filter`.

Owns:
- `effect`, the arm of the interpreter's switch for each kernel code;
- `step`, one turn of its loop, with instruction fetch and scratch memory;
- `skRunFilter`, the loop.

Does not own: the checks that a program passed before it runs.

Fetching outside the program and indexing outside `mem[]` are faults here.
-/

namespace RouterKernel.SocketFilter

open Foundation

def reciprocalDivide (a r : U32) : U32 :=
  BitVec.ofNat 32 (a.toNat * r.toNat / 2 ^ 32)

/-- A shift amount in a register: the target takes its low byte, and amounts of
32 and more shift everything out. -/
def shiftLeft (a amount : U32) : U32 :=
  a <<< (amount.toNat % 256)

def shiftRight (a amount : U32) : U32 :=
  a >>> (amount.toNat % 256)

/-- What an instruction does, apart from fetching and from `mem[]`. -/
inductive Effect where
  /-- New values of `A` and `X`, then `continue`. -/
  | set (a x : U32)
  /-- `fentry += offset`, then `continue`. -/
  | jump (offset : Nat)
  /-- `A = mem[K]`. -/
  | loadA
  /-- `X = mem[K]`. -/
  | loadX
  /-- `mem[K] = value`. -/
  | store (value : U32)
  | ret (value : U32)
deriving DecidableEq, Repr

/-- Load into `A`, or `return 0`. -/
def Effect.setA (x : U32) : Option U32 → Effect
  | some a => .set a x
  | none => .ret 0

/-- Load into `X`, or `return 0`. -/
def Effect.setX (a : U32) : Option U32 → Effect
  | some x => .set a x
  | none => .ret 0

/-- Take `jt` or `jf`. -/
def Effect.branch (insn : SockFilter) (condition : Bool) : Effect :=
  .jump (if condition then insn.jt.toNat else insn.jf.toNat)

/-- The loads behind the labels `load_w`, `load_h` and `load_b`. -/
def loadPacket (skb : SkBuff) (k : U32) (size : Nat) : Option U32 :=
  (loadPointer skb k size).map bigEndian

/-- The switch of `sk_run_filter`. -/
def effect (skb : SkBuff) (insn : SockFilter) (a x : U32) : BpfS → Effect
  | .aluAddX => .set (a + x) x
  | .aluAddK => .set (a + insn.k) x
  | .aluSubX => .set (a - x) x
  | .aluSubK => .set (a - insn.k) x
  | .aluMulX => .set (a * x) x
  | .aluMulK => .set (a * insn.k) x
  | .aluDivX => if x = 0 then .ret 0 else .set (a / x) x
  | .aluDivK => .set (reciprocalDivide a insn.k) x
  | .aluAndX => .set (a &&& x) x
  | .aluAndK => .set (a &&& insn.k) x
  | .aluOrX => .set (a ||| x) x
  | .aluOrK => .set (a ||| insn.k) x
  | .aluLshX => .set (shiftLeft a x) x
  | .aluLshK => .set (shiftLeft a insn.k) x
  | .aluRshX => .set (shiftRight a x) x
  | .aluRshK => .set (shiftRight a insn.k) x
  | .aluNeg => .set (-a) x
  | .jmpJa => .jump insn.k.toNat
  | .jmpJgtK => .branch insn (decide (insn.k < a))
  | .jmpJgeK => .branch insn (decide (insn.k ≤ a))
  | .jmpJeqK => .branch insn (a == insn.k)
  | .jmpJsetK => .branch insn (a &&& insn.k != 0)
  | .jmpJgtX => .branch insn (decide (x < a))
  | .jmpJgeX => .branch insn (decide (x ≤ a))
  | .jmpJeqX => .branch insn (a == x)
  | .jmpJsetX => .branch insn (a &&& x != 0)
  | .ldWAbs => .setA x (loadPacket skb insn.k 4)
  | .ldHAbs => .setA x (loadPacket skb insn.k 2)
  | .ldBAbs => .setA x (loadPacket skb insn.k 1)
  | .ldWLen => .set skb.len x
  | .ldxWLen => .set a skb.len
  | .ldWInd => .setA x (loadPacket skb (x + insn.k) 4)
  | .ldHInd => .setA x (loadPacket skb (x + insn.k) 2)
  | .ldBInd => .setA x (loadPacket skb (x + insn.k) 1)
  | .ldxBMsh => .setX a ((loadPacket skb insn.k 1).map fun byte : U32 => (byte &&& 0xf) <<< 2)
  | .ldImm => .set insn.k x
  | .ldxImm => .set a insn.k
  | .ldMem => .loadA
  | .ldxMem => .loadX
  | .miscTax => .set a a
  | .miscTxa => .set x x
  | .retK => .ret insn.k
  | .retA => .ret a
  | .st => .store a
  | .stx => .store x
  | .ancProtocol => .set ((ntohs skb.protocol).setWidth 32) x
  | .ancPkttype => .set (skb.pktType.setWidth 32) x
  | .ancIfindex => .setA x (skb.dev.map (·.ifindex))
  | .ancMark => .set skb.mark x
  | .ancQueue => .set (skb.queueMapping.setWidth 32) x
  | .ancHatype => .setA x (skb.dev.map (·.type.setWidth 32))
  | .ancRxhash => .set skb.rxhash x
  | .ancCpu => .set skb.cpu x
  | .ancNlattr => .setA x (ancNlattr skb a x)
  | .ancNlattrNest => .setA x (ancNlattrNest skb a x)

/-- The scratch store `mem[BPF_MEMWORDS]`. -/
abbrev Scratch := Fin BPF_MEMWORDS → U32

/-- The local variables of `sk_run_filter`; `pc` is `fentry` as an index. -/
structure Machine where
  pc : Nat
  a : U32
  x : U32
  mem : Scratch

inductive Verdict where
  | returned (value : U32)
  /-- The `default` arm, which warns and returns 0. -/
  | unknownCode (insn : SockFilter)
  | fault (fault : Fault)
deriving DecidableEq, Repr

/-- Carry out an effect: the scratch access with its index `K`, and `fentry++`. -/
def Machine.apply (machine : Machine) (insn : SockFilter) : Effect → Outcome Machine Verdict
  | .set a x => .running { machine with pc := machine.pc + 1, a := a, x := x }
  | .jump offset => .running { machine with pc := machine.pc + offset + 1 }
  | .loadA =>
    if inside : insn.k.toNat < BPF_MEMWORDS then
      .running { machine with pc := machine.pc + 1, a := machine.mem ⟨insn.k.toNat, inside⟩ }
    else .halted (.fault (.outOfBounds insn.k.toNat))
  | .loadX =>
    if inside : insn.k.toNat < BPF_MEMWORDS then
      .running { machine with pc := machine.pc + 1, x := machine.mem ⟨insn.k.toNat, inside⟩ }
    else .halted (.fault (.outOfBounds insn.k.toNat))
  | .store value =>
    if inside : insn.k.toNat < BPF_MEMWORDS then
      .running { machine with
        pc := machine.pc + 1
        mem := Function.update machine.mem ⟨insn.k.toNat, inside⟩ value }
    else .halted (.fault (.outOfBounds insn.k.toNat))
  | .ret value => .halted (.returned value)

def step (skb : SkBuff) (program : List SockFilter) (machine : Machine) : Outcome Machine Verdict :=
  match program[machine.pc]? with
  | none => .halted (.fault (.outOfBounds machine.pc))
  | some insn =>
    match BpfS.ofValue insn.code with
    | none => .halted (.unknownCode insn)
    | some code => machine.apply insn (effect skb insn machine.a machine.x code)

/-- The state on entry: `mem[]` is whatever the stack held. -/
def entryState (mem : Scratch) : Machine :=
  { pc := 0, a := 0, x := 0, mem := mem }

/-- `sk_run_filter`, up to a number of turns of its loop. -/
def skRunFilter (skb : SkBuff) (program : List SockFilter) (mem : Scratch) (turns : Nat) :
    Outcome Machine Verdict :=
  runFor (step skb program) turns (entryState mem)

end RouterKernel.SocketFilter
