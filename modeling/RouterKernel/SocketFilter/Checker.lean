import RouterKernel.SocketFilter.Instruction

/-!
Contract: `sk_chk_filter`, which checks a program and rewrites it in place.

Owns:
- the check and the rewrite of one instruction;
- `check_load_and_stores`, the pass over the scratch memory masks;
- `skChkFilter`, the whole check with the program it leaves behind.

Does not own: what an accepted program does when it runs.

`masks[]` accesses outside the array are faults here.
-/

namespace RouterKernel.SocketFilter

open Foundation

/-- `reciprocal_value`; `do_div` divides the 64-bit value. -/
def reciprocalValue (k : U32) : U32 :=
  BitVec.ofNat 32 ((2 ^ 32 + (k - 1).toNat) / k.toNat)

/-- The `ANCILLARY` cases, each with the code it stores. -/
def ancillaryTable : List (U32 × BpfS) :=
  [(SKF_AD_OFF + SKF_AD_PROTOCOL, .ancProtocol), (SKF_AD_OFF + SKF_AD_PKTTYPE, .ancPkttype),
    (SKF_AD_OFF + SKF_AD_IFINDEX, .ancIfindex),
    (SKF_AD_OFF + SKF_AD_NLATTR, .ancNlattr),
    (SKF_AD_OFF + SKF_AD_NLATTR_NEST, .ancNlattrNest),
    (SKF_AD_OFF + SKF_AD_MARK, .ancMark),
    (SKF_AD_OFF + SKF_AD_QUEUE, .ancQueue),
    (SKF_AD_OFF + SKF_AD_HATYPE, .ancHatype),
    (SKF_AD_OFF + SKF_AD_RXHASH, .ancRxhash),
    (SKF_AD_OFF + SKF_AD_CPU, .ancCpu)]

/-- `switch (ftest->k)`: the load of an ancillary offset becomes its own code. -/
def ancillary (k : U32) (code : BpfS) : BpfS :=
  (ancillaryTable.lookup k).getD code

/-- The inner switch: the special checks on an instruction with its table code.
The result is the code and the operand to store back. -/
def chkCode (flen pc : Nat) (insn : SockFilter) (code : BpfS) : Option (BpfS × U32) :=
  if code = .aluDivK then
    if insn.k = 0 then none else some (code, reciprocalValue insn.k)
  else if code.isMemory then
    if BPF_MEMWORDS ≤ insn.k.toNat then none else some (code, insn.k)
  else if code = .jmpJa then
    if flen - pc - 1 ≤ insn.k.toNat then none else some (code, insn.k)
  else if code.isConditional then
    if flen ≤ pc + insn.jt.toNat + 1 ∨ flen ≤ pc + insn.jf.toNat + 1 then none
    else some (code, insn.k)
  else if code.isAbsolute then some (ancillary insn.k code, insn.k)
  else some (code, insn.k)

/-- One turn of the first loop of `sk_chk_filter`; `none` is `-EINVAL`. -/
def chkInsn (flen pc : Nat) (insn : SockFilter) : Option SockFilter :=
  if codesSize ≤ insn.code.toNat then none
  else
    match codes insn.code with
    | none => none
    | some tableCode =>
      match chkCode flen pc insn tableCode with
      | none => none
      | some (code, k) => some { insn with code := code.value, k := k }

/-- The first loop, with the instructions as it leaves them. -/
def chkInsns (flen : Nat) : (pc : Nat) → List SockFilter → Int × List SockFilter
  | _, [] => (0, [])
  | pc, insn :: rest =>
    match chkInsn flen pc insn with
    | none => (-EINVAL, insn :: rest)
    | some checked =>
      let (err, remaining) := chkInsns flen (pc + 1) rest
      (err, checked :: remaining)

/-- `masks[index] &= memvalid`. -/
def maskTarget (masks : List U16) (index : Nat) (memvalid : U16) : Except Fault (List U16) :=
  match masks[index]? with
  | none => .error (.outOfBounds index)
  | some mask => .ok (masks.set index (mask &&& memvalid))

/-- `1 << k` as it is used with the 16-bit masks. -/
def cellBit (k : U32) : U16 := 1#16 <<< k.toNat

/-- The switch of `check_load_and_stores`: the new `memvalid` and `masks`, or
`none` for `-EINVAL`. -/
def checkCode (pc : Nat) (insn : SockFilter) (memvalid : U16) (masks : List U16)
    (code : BpfS) : Except Fault (Option (U16 × List U16)) :=
  if code.isStore then .ok (some (memvalid ||| cellBit insn.k, masks))
  else if code.isLoad then
    if memvalid &&& cellBit insn.k = 0 then .ok none else .ok (some (memvalid, masks))
  else if code = .jmpJa then do
    let masks ← maskTarget masks (pc + 1 + insn.k.toNat) memvalid
    return some (~~~0, masks)
  else if code.isConditional then do
    let masks ← maskTarget masks (pc + 1 + insn.jt.toNat) memvalid
    let masks ← maskTarget masks (pc + 1 + insn.jf.toNat) memvalid
    return some (~~~0, masks)
  else .ok (some (memvalid, masks))

/-- The body of the loop of `check_load_and_stores`; codes that the switch does
not name change nothing. -/
def checkCell (pc : Nat) (insn : SockFilter) (memvalid : U16) (masks : List U16) :
    Except Fault (Option (U16 × List U16)) :=
  match BpfS.ofValue insn.code with
  | some code => checkCode pc insn memvalid masks code
  | none => .ok (some (memvalid, masks))

/-- The loop of `check_load_and_stores`. -/
def checkCells : (pc : Nat) → List SockFilter → (memvalid : U16) → (masks : List U16) →
    Except Fault Int
  | _, [], _, _ => .ok 0
  | pc, insn :: rest, memvalid, masks =>
    match masks[pc]? with
    | none => .error (.outOfBounds pc)
    | some mask =>
      match checkCell pc insn (memvalid &&& mask) masks with
      | .error fault => .error fault
      | .ok none => .ok (-EINVAL)
      | .ok (some (memvalid, masks)) => checkCells (pc + 1) rest memvalid masks

/-- `check_load_and_stores`; `allocated` says whether `kmalloc` succeeds. -/
def checkLoadAndStores (allocated : Bool) (filter : List SockFilter) : Except Fault Int :=
  if allocated then
    checkCells 0 filter 0 (List.replicate filter.length 0xffff)
  else .ok (-ENOMEM)

def endsWithRet (filter : List SockFilter) : Bool :=
  match filter.getLast? with
  | none => false
  | some insn =>
    match BpfS.ofValue insn.code with
    | some code => code.isRet
    | none => false

/-- `sk_chk_filter`: the result and the program as it was rewritten. -/
def skChkFilter (allocated : Bool) (filter : List SockFilter) :
    Except Fault (Int × List SockFilter) :=
  if filter.length = 0 ∨ BPF_MAXINSNS < filter.length then .ok (-EINVAL, filter)
  else
    let (err, rewritten) := chkInsns filter.length 0 filter
    if err ≠ 0 then .ok (err, rewritten)
    else if endsWithRet rewritten then do
      let ret ← checkLoadAndStores allocated rewritten
      return (ret, rewritten)
    else .ok (-EINVAL, rewritten)

end RouterKernel.SocketFilter
