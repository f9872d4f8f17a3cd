import RouterKernel.Foundation.WordBitmap
import RouterKernel.SocketFilter.Checker

/-!
Contract: what acceptance by `sk_chk_filter` says about the rewritten program.

Owns:
- `Successor`, the edges of the control-flow graph;
- `Verified`, the facts that acceptance establishes: every instruction is known
  and within bounds, the last one returns, and there is an entry mask for every
  position that each edge respects;
- `skChkFilter_verified`, acceptance implies them;
- `skChkFilter_total`, the check itself stays inside `masks[]` on every program.
-/

namespace RouterKernel.SocketFilter

open Foundation

/-! ## One instruction -/

/-- The bounds that the special checks establish for an instruction. -/
structure InsnOk (flen pc : Nat) (insn : SockFilter) (code : BpfS) : Prop where
  cell : code.isMemory = true → insn.k.toNat < BPF_MEMWORDS
  always : code = .jmpJa → pc + insn.k.toNat + 1 < flen
  conditional : code.isConditional = true → pc + insn.jt.toNat + 1 < flen ∧ pc + insn.jf.toNat + 1 <
    flen

def BpfS.isPlain (code : BpfS) : Bool :=
  !code.isMemory && code != .jmpJa && !code.isConditional

variable {pc flen : Nat} {insn : SockFilter} {code : BpfS} {k : U32}
  {filter rewritten : List SockFilter}
  {masks : List U16}

private theorem insnOk_plain (plain : code.isPlain = true) : InsnOk flen pc insn code := by
  simp only [BpfS.isPlain, Bool.and_eq_true, Bool.not_eq_true', bne_iff_ne] at plain
  obtain ⟨⟨noMemory, noJump⟩, noBranch⟩ := plain
  exact ⟨fun memory => by simp [noMemory] at memory, fun jump => absurd jump noJump,
    fun branch => by simp [noBranch] at branch⟩

theorem mem_of_lookup {κ υ : Type} [DecidableEq κ] {table : List (κ × υ)} {key : κ} {value : υ}
    (found : table.lookup key = some value) : (key, value) ∈ table := by
  obtain ⟨before, after, rfl, _⟩ := List.lookup_eq_some_iff.mp found
  simp

private theorem ancillary_plain (plain : code.isPlain = true) (k : U32) :
    (ancillary k code).isPlain = true := by
  unfold ancillary
  cases found : ancillaryTable.lookup k with
  | none => exact plain
  | some special =>
    have entries : ∀ entry ∈ ancillaryTable, entry.2.isPlain = true := by decide
    exact entries (k, special) (mem_of_lookup found)

private theorem chkCode_ok {tableCode : BpfS} {stored : U16}
    (passed : chkCode flen pc insn tableCode = some (code, k)) :
    InsnOk flen pc { insn with code := stored, k := k } code := by
  unfold chkCode at passed
  split_ifs at passed with divide _ memory cell always far conditional near absolute
  all_goals
    rw [Option.some.injEq, Prod.mk.injEq] at passed
    obtain ⟨rfl, rfl⟩ := passed
  · exact insnOk_plain (by rw [divide]; rfl)
  · obtain ⟨noJump, noBranch, _⟩ := BpfS.no_jump_of_memory tableCode memory
    refine ⟨fun _ => Nat.lt_of_not_le cell, ?_, ?_⟩
    · intro jump
      exact absurd jump noJump
    · intro branch
      simp [noBranch] at branch
  · refine ⟨?_, ?_, ?_⟩
    · intro access
      exact absurd access memory
    · intro _
      simp only
      omega
    · intro branch
      exact absurd always (BpfS.no_jumpAlways_of_conditional tableCode branch)
  · refine ⟨?_, ?_, ?_⟩
    · intro access
      exact absurd access memory
    · intro jump
      exact absurd jump always
    · intro _
      simp only
      omega
  · have plain : tableCode.isPlain = true := by
      simp [BpfS.isPlain, memory, always, conditional]
    exact insnOk_plain (ancillary_plain plain _)
  · exact insnOk_plain (by simp [BpfS.isPlain, memory, always, conditional])

theorem chkInsn_inv {checked : SockFilter} (passed : chkInsn flen pc insn = some checked) :
    ∃ tableCode code k, codes insn.code = some tableCode ∧ chkCode flen pc insn tableCode =
        some (code, k) ∧
      checked = { insn with code := code.value, k := k } := by
  unfold chkInsn at passed
  split_ifs at passed
  cases table : codes insn.code with
  | none => simp [table] at passed
  | some tableCode =>
    cases special : chkCode flen pc insn tableCode with
    | none => simp [table, special] at passed
    | some result =>
      simp only [table, special, Option.some.injEq] at passed
      exact ⟨tableCode, result.1, result.2, rfl, special, passed.symm⟩

theorem chkInsn_ok {checked : SockFilter} (passed : chkInsn flen pc insn = some checked) :
    ∃ code, BpfS.ofValue checked.code = some code ∧ InsnOk flen pc checked code := by
  obtain ⟨tableCode, code, k, _, special, rfl⟩ := chkInsn_inv passed
  exact ⟨code, BpfS.ofValue_value code, chkCode_ok special⟩

/-! ## The first loop -/

/-- The loop succeeds only when every instruction passes, and rewrites each in
its place. -/
theorem chkInsns_ok (passed : chkInsns flen pc filter = (0, rewritten)) :
    rewritten.length = filter.length ∧
      ∀ index insn, filter[index]? = some insn → ∃ checked, rewritten[index]? = some checked ∧
          chkInsn flen (pc + index) insn = some checked := by
  induction filter generalizing pc rewritten with
  | nil =>
    simp only [chkInsns, Prod.mk.injEq, true_and] at passed
    subst passed
    simp
  | cons head tail ih =>
    cases first : chkInsn flen pc head with
    | none => simp [chkInsns, first, EINVAL] at passed
    | some checked =>
      simp only [chkInsns, first, Prod.mk.injEq] at passed
      obtain ⟨noError, rfl⟩ := passed
      have remaining : chkInsns flen (pc + 1) tail = (0, (chkInsns flen (pc + 1) tail).2) :=
        Prod.ext noError rfl
      obtain ⟨sameLength, each⟩ := ih remaining
      refine ⟨by simp [sameLength], ?_⟩
      intro index insn fetched
      cases index with
      | zero =>
        simp only [List.getElem?_cons_zero, Option.some.injEq] at fetched
        subst fetched
        exact ⟨checked, rfl, first⟩
      | succ index =>
        rw [List.getElem?_cons_succ] at fetched ⊢
        rw [Nat.add_comm index 1, ← Nat.add_assoc]
        exact each index insn fetched

/-! ## The pass over the masks -/

def Successor (pc : Nat) (insn : SockFilter) (code : BpfS) (target : Nat) : Prop :=
  if code = .jmpJa then target = pc + insn.k.toNat + 1
  else if code.isConditional then
    target = pc + insn.jt.toNat + 1 ∨ target = pc + insn.jf.toNat + 1
  else code.isRet = false ∧ target = pc + 1

theorem Successor.forward {target : Nat} (edge : Successor pc insn code target) : pc < target := by
  unfold Successor at edge
  split_ifs at edge <;> omega

def Within (mask other : U16) : Prop :=
  ∀ cell, mask.getLsbD cell = true → other.getLsbD cell = true

theorem within_and_left (mask other : U16) : Within (mask &&& other) mask := by
  intro cell member
  rw [BitVec.getLsbD_and, Bool.and_eq_true] at member
  exact member.1

theorem within_and_right (mask other : U16) : Within (mask &&& other) other := by
  intro cell member
  rw [BitVec.getLsbD_and, Bool.and_eq_true] at member
  exact member.2

def Shrinks (masks after : List U16) : Prop :=
  ∀ (target : Nat) (mask : U16), masks[target]? = some mask →
    ∃ smaller, after[target]? = some smaller ∧ Within smaller mask

theorem Shrinks.refl (masks : List U16) : Shrinks masks masks :=
  fun _ mask found => ⟨mask, found, fun _ member => member⟩

theorem Shrinks.trans {first second third : List U16} (early : Shrinks first second)
    (late : Shrinks second third) : Shrinks first third := by
  intro target mask found
  obtain ⟨middle, middleFound, middleWithin⟩ := early target mask found
  obtain ⟨last, lastFound, lastWithin⟩ := late target middle middleFound
  exact ⟨last, lastFound, fun cell member => middleWithin cell (lastWithin cell member)⟩

theorem maskTarget_inv {after : List U16} {index : Nat} {memvalid : U16}
    (stored : maskTarget masks index memvalid = .ok after) :
    Shrinks masks after ∧ ∃ mask, after[index]? = some mask ∧ Within mask memvalid := by
  unfold maskTarget at stored
  cases found : masks[index]? with
  | none => simp [found] at stored
  | some mask =>
    simp only [found, Except.ok.injEq] at stored
    subst stored
    have inside : index < masks.length := (List.getElem?_eq_some_iff.mp found).1
    refine ⟨?_, mask &&& memvalid, by simp [inside], within_and_right mask memvalid⟩
    intro target other otherFound
    by_cases same : index = target
    · subst same
      rw [found, Option.some.injEq] at otherFound
      subst otherFound
      exact ⟨mask &&& memvalid, by simp [inside], within_and_left mask memvalid⟩
    · exact ⟨other, by rw [List.getElem?_set_ne same]; exact otherFound, fun _ member => member⟩

private theorem cellBit_getLsbD {cell : Nat} (set : (cellBit k).getLsbD cell = true) :
    cell = k.toNat := by
  simp only [cellBit, BitVec.getLsbD_shiftLeft, BitVec.getLsbD_one, Bool.and_eq_true,
    Bool.not_eq_true', decide_eq_true_eq, decide_eq_false_iff_not] at set
  omega

private theorem getLsbD_of_and_cellBit {mask : U16} (set : mask &&& cellBit k ≠ 0) :
    mask.getLsbD k.toNat = true := by
  by_cases inside : k.toNat < 16
  · rw [← Bitmap.and_bit_ne_zero mask k.toNat inside, bne_iff_ne]
    exact set
  · exfalso
    apply set
    rw [cellBit, BitVec.shiftLeft_eq_zero (by omega)]
    simp

/-- What the instruction at `pc` demands of the entry masks, and what it passes
on along each of its edges. -/
def Flows (pc : Nat) (insn : SockFilter) (code : BpfS) (entry : Nat → U16) : Prop :=
  (code.isLoad = true → (entry pc).getLsbD insn.k.toNat = true) ∧
    ∀ target, Successor pc insn code target → ∀ cell, (entry target).getLsbD cell = true →
      (entry pc).getLsbD cell = true ∨ (code.isStore = true ∧ cell = insn.k.toNat)

/-- The two ways in which the pass hands the valid cells to a successor: in
`memvalid` to the next position, or through the mask of a jump target. -/
structure Passes (pc : Nat) (insn : SockFilter) (code : BpfS) (valid after : U16)
    (masks : List U16) : Prop where
  load : code.isLoad = true → valid.getLsbD insn.k.toNat = true
  edge : ∀ target, Successor pc insn code target →
      (target = pc + 1 ∧ ∀ cell, after.getLsbD cell = true →
      valid.getLsbD cell = true ∨ (code.isStore = true ∧ cell = insn.k.toNat)) ∨
    ∃ mask, masks[target]? = some mask ∧ Within mask valid

private theorem successor_next {target : Nat} (noJump : code ≠ .jmpJa)
    (noBranch : code.isConditional = false)
    (edge : Successor pc insn code target) : target = pc + 1 := by
  unfold Successor at edge
  rw [if_neg noJump, if_neg (by simp [noBranch])] at edge
  exact edge.2

theorem checkCode_passes {valid after : U16} {masksAfter : List U16}
    (passed : checkCode pc insn valid masks code = .ok (some (after, masksAfter))) :
    Shrinks masks masksAfter ∧ Passes pc insn code valid after masksAfter := by
  unfold checkCode at passed
  split_ifs at passed with store load empty always conditional
  · simp only [Except.ok.injEq, Option.some.injEq, Prod.mk.injEq] at passed
    obtain ⟨rfl, rfl⟩ := passed
    have memory : code.isMemory = true := by simp [BpfS.isMemory, store]
    obtain ⟨noJump, noBranch, _⟩ := BpfS.no_jump_of_memory code memory
    refine ⟨Shrinks.refl masks, ?_, ?_⟩
    · intro load
      simp [BpfS.no_load_of_store code store] at load
    · intro target edge
      refine Or.inl ⟨successor_next noJump noBranch edge, ?_⟩
      intro cell member
      rw [BitVec.getLsbD_or, Bool.or_eq_true] at member
      exact member.imp id fun set => ⟨store, cellBit_getLsbD set⟩
  · cases passed
  · simp only [Except.ok.injEq, Option.some.injEq, Prod.mk.injEq] at passed
    obtain ⟨rfl, rfl⟩ := passed
    have memory : code.isMemory = true := by simp [BpfS.isMemory, load]
    obtain ⟨noJump, noBranch, _⟩ := BpfS.no_jump_of_memory code memory
    refine ⟨Shrinks.refl masks, fun _ => getLsbD_of_and_cellBit empty, ?_⟩
    intro target edge
    exact Or.inl ⟨successor_next noJump noBranch edge, fun _ member => Or.inl member⟩
  · cases first : maskTarget masks (pc + 1 + insn.k.toNat) valid with
    | error fault => simp [first, bind, Except.bind] at passed
    | ok stored =>
      simp only [first, bind, Except.bind, pure, Except.pure, Except.ok.injEq,
        Option.some.injEq, Prod.mk.injEq] at passed
      obtain ⟨_, rfl⟩ := passed
      obtain ⟨shrinks, reached⟩ := maskTarget_inv first
      refine ⟨shrinks, fun isLoad => absurd isLoad load, ?_⟩
      intro target edge
      rw [Successor, if_pos always] at edge
      have sameTarget : target = pc + 1 + insn.k.toNat := by omega
      exact Or.inr (sameTarget ▸ reached)
  · cases first : maskTarget masks (pc + 1 + insn.jt.toNat) valid with
    | error fault => simp [first, bind, Except.bind] at passed
    | ok middle =>
      cases second : maskTarget middle (pc + 1 + insn.jf.toNat) valid with
      | error fault => simp [first, second, bind, Except.bind] at passed
      | ok stored =>
        simp only [first, second, bind, Except.bind, pure, Except.pure, Except.ok.injEq,
          Option.some.injEq, Prod.mk.injEq] at passed
        obtain ⟨_, rfl⟩ := passed
        obtain ⟨early, mask, found, within⟩ := maskTarget_inv first
        obtain ⟨late, reached⟩ := maskTarget_inv second
        refine ⟨early.trans late, fun isLoad => absurd isLoad load, ?_⟩
        intro target edge
        rw [Successor, if_neg always, if_pos conditional] at edge
        rcases edge with onTrue | onFalse
        · have sameTarget : target = pc + 1 + insn.jt.toNat := by omega
          obtain ⟨smaller, smallerFound, smallerWithin⟩ := late _ mask found
          exact Or.inr ⟨smaller, sameTarget ▸ smallerFound, fun cell member =>
            within cell (smallerWithin cell member)⟩
        · have sameTarget : target = pc + 1 + insn.jf.toNat := by omega
          exact Or.inr (sameTarget ▸ reached)
  · simp only [Except.ok.injEq, Option.some.injEq, Prod.mk.injEq] at passed
    obtain ⟨rfl, rfl⟩ := passed
    refine ⟨Shrinks.refl masks, fun isLoad => absurd isLoad load, ?_⟩
    intro target edge
    exact Or.inl ⟨successor_next always (by simpa using conditional) edge, fun _ member =>
      Or.inl member⟩

private theorem checkCell_shrinks {valid after : U16} {masksAfter : List U16}
    (passed : checkCell pc insn valid masks = .ok (some (after, masksAfter))) :
    Shrinks masks masksAfter := by
  unfold checkCell at passed
  cases decoded : BpfS.ofValue insn.code with
  | none =>
    simp only [decoded, Except.ok.injEq, Option.some.injEq, Prod.mk.injEq] at passed
    exact passed.2 ▸ Shrinks.refl masks
  | some code =>
    rw [decoded] at passed
    exact (checkCode_passes passed).1

/-- One pass yields entry masks for all positions.  The induction is on the
instructions still to visit: the masks of later positions only shrink, so what
the rest of the pass finds at a target is below what this instruction put there. -/
theorem checkCells_entry {rest : List SockFilter} {memvalid : U16}
    (passed : checkCells pc rest memvalid masks = .ok 0) :
    ∃ entry : Nat → U16, Within (entry pc) memvalid ∧
      (∀ (target : Nat) (mask : U16), pc ≤ target → masks[target]? = some mask →
        Within (entry target) mask) ∧
      ∀ (index : Nat) (insn : SockFilter) (code : BpfS), rest[index]? = some insn →
        BpfS.ofValue insn.code = some code → Flows (pc + index) insn code entry := by
  induction rest generalizing pc memvalid masks with
  | nil =>
    refine ⟨fun _ => 0, ?_, ?_, ?_⟩
    · intro cell member
      simp at member
    · intro target mask _ _ cell member
      simp at member
    · intro index insn code fetched
      simp at fetched
  | cons head tail ih =>
    unfold checkCells at passed
    cases found : masks[pc]? with
    | none => simp [found] at passed
    | some mask =>
    cases checked : checkCell pc head (memvalid &&& mask) masks with
    | error fault => simp [found, checked] at passed
    | ok result =>
    cases result with
    | none => simp [found, checked, EINVAL] at passed
    | some result =>
    obtain ⟨after, masksAfter⟩ := result
    simp only [found, checked] at passed
    obtain ⟨entry, first, later, flows⟩ := ih passed
    have shrinks : Shrinks masks masksAfter := checkCell_shrinks checked
    refine ⟨Function.update entry pc (memvalid &&& mask), ?_, ?_, ?_⟩
    · rw [Function.update_self]
      exact within_and_left memvalid mask
    · intro target other reached otherFound
      by_cases here : target = pc
      · subst here
        rw [found, Option.some.injEq] at otherFound
        subst otherFound
        rw [Function.update_self]
        exact within_and_right memvalid mask
      · rw [Function.update_of_ne here]
        obtain ⟨smaller, smallerFound, within⟩ := shrinks target other otherFound
        intro cell member
        exact within cell (later target smaller (by omega) smallerFound cell member)
    · intro index insn code fetched decoded
      cases index with
      | zero =>
        simp only [List.getElem?_cons_zero, Option.some.injEq] at fetched
        subst fetched
        simp only [checkCell, decoded] at checked
        obtain ⟨_, passes⟩ := checkCode_passes checked
        refine ⟨?_, ?_⟩
        · intro load
          rw [Nat.add_zero, Function.update_self]
          exact passes.load load
        · intro target edge cell member
          rw [Nat.add_zero] at edge ⊢
          have forward := edge.forward
          rw [Function.update_of_ne (by omega)] at member
          rw [Function.update_self]
          rcases passes.edge target edge with ⟨rfl, carried⟩ | ⟨other, otherFound, within⟩
          · exact carried cell (first cell member)
          · exact Or.inl (within cell
              (later target other (by omega) otherFound cell member))
      | succ index =>
        rw [List.getElem?_cons_succ] at fetched
        have place : pc + (index + 1) = pc + 1 + index := by omega
        obtain ⟨loads, edges⟩ := flows index insn code fetched decoded
        rw [← place] at loads edges
        refine ⟨?_, ?_⟩
        · intro load
          rw [Function.update_of_ne (by omega)]
          exact loads load
        · intro target edge cell member
          have forward := edge.forward
          rw [Function.update_of_ne (by omega)] at member ⊢
          exact edges target edge cell member

/-! ## Acceptance -/

structure Verified (program : List SockFilter) (entry : Nat → U16) : Prop where
  /-- Every instruction is known and within bounds. -/
  known : ∀ (pc : Nat) (insn : SockFilter), program[pc]? = some insn →
    ∃ code, BpfS.ofValue insn.code = some code ∧ InsnOk program.length pc insn code
  /-- The last instruction returns. -/
  returns : ∃ insn code, program[program.length - 1]? = some insn ∧
    BpfS.ofValue insn.code = some code ∧ code.isRet = true
  nonempty : 0 < program.length
  /-- No cell is valid on entry. -/
  start : ∀ cell, (entry 0).getLsbD cell = false
  flows : ∀ (pc : Nat) (insn : SockFilter) (code : BpfS), program[pc]? = some insn →
    BpfS.ofValue insn.code = some code → Flows pc insn code entry

private theorem endsWithRet_inv (ends : endsWithRet filter = true) :
    0 < filter.length ∧ ∃ insn code, filter[filter.length - 1]? = some insn ∧
      BpfS.ofValue insn.code = some code ∧ code.isRet = true := by
  unfold endsWithRet at ends
  rw [List.getLast?_eq_getElem?] at ends
  cases found : filter[filter.length - 1]? with
  | none => simp [found] at ends
  | some insn =>
    cases decoded : BpfS.ofValue insn.code with
    | none => simp [found, decoded] at ends
    | some code =>
      simp only [found, decoded] at ends
      have inside := (List.getElem?_eq_some_iff.mp found).1
      exact ⟨by omega, insn, code, rfl, decoded, ends⟩

theorem skChkFilter_inv {allocated : Bool}
    (accepted : skChkFilter allocated filter = .ok (0, rewritten)) :
    chkInsns filter.length 0 filter = (0, rewritten) ∧ endsWithRet rewritten = true ∧
      checkCells 0 rewritten 0 (List.replicate rewritten.length 0xffff) = .ok 0 := by
  unfold skChkFilter at accepted
  dsimp only at accepted
  split_ifs at accepted with size err ends
  · simp [EINVAL] at accepted
  · simp only [Except.ok.injEq, Prod.mk.injEq] at accepted
    exact absurd accepted.1 err
  · cases masks : checkLoadAndStores allocated (chkInsns filter.length 0 filter).2 with
    | error fault => simp [masks, bind, Except.bind] at accepted
    | ok ret =>
      simp only [masks, bind, Except.bind, pure, Except.pure, Except.ok.injEq, Prod.mk.injEq]
        at accepted
      obtain ⟨rfl, rfl⟩ := accepted
      refine ⟨Prod.ext (by simpa using err) rfl, ends, ?_⟩
      unfold checkLoadAndStores at masks
      split_ifs at masks
      · exact masks
      · simp [ENOMEM] at masks
  · simp [EINVAL] at accepted

theorem skChkFilter_verified {allocated : Bool}
    (accepted : skChkFilter allocated filter = .ok (0, rewritten)) :
    ∃ entry, Verified rewritten entry := by
  obtain ⟨checked, ends, masks⟩ := skChkFilter_inv accepted
  obtain ⟨sameLength, each⟩ := chkInsns_ok checked
  obtain ⟨nonempty, last⟩ := endsWithRet_inv ends
  obtain ⟨entry, start, _, flows⟩ := checkCells_entry masks
  refine ⟨entry, ?_, last, nonempty, ?_, ?_⟩
  · intro pc insn fetched
    have inside : pc < filter.length := by
      rw [← sameLength]
      exact (List.getElem?_eq_some_iff.mp fetched).1
    obtain ⟨other, otherFetched, passed⟩ := each pc filter[pc] (List.getElem?_eq_getElem inside)
    rw [fetched, Option.some.injEq] at otherFetched
    subst otherFetched
    rw [Nat.zero_add] at passed
    rw [sameLength]
    exact chkInsn_ok passed
  · intro cell
    by_contra member
    have inMask := start cell (by simpa using member)
    simp at inMask
  · intro pc insn code fetched decoded
    have here := flows pc insn code fetched decoded
    rwa [Nat.zero_add] at here

/-! ## The check does not fault -/

private theorem maskTarget_total {index : Nat} (inside : index < masks.length) (memvalid : U16) :
    ∃ after, maskTarget masks index memvalid = .ok after ∧ after.length = masks.length := by
  refine ⟨masks.set index (masks[index] &&& memvalid), ?_, by simp⟩
  rw [maskTarget, List.getElem?_eq_getElem inside]

private theorem checkCode_total (bounded : InsnOk masks.length pc insn code) (memvalid : U16) :
    ∃ result, checkCode pc insn memvalid masks code = .ok result ∧
      ∀ after masksAfter, result = some (after, masksAfter) → masksAfter.length = masks.length := by
  unfold checkCode
  split_ifs with store load empty always conditional
  · exact ⟨_, rfl, by rintro _ _ ⟨⟩; rfl⟩
  · exact ⟨_, rfl, by rintro _ _ ⟨⟩⟩
  · exact ⟨_, rfl, by rintro _ _ ⟨⟩; rfl⟩
  · have target := bounded.always always
    obtain ⟨after, stored, sameLength⟩ := maskTarget_total
      (show pc + 1 + insn.k.toNat < masks.length by omega) memvalid
    simp only [stored, bind, Except.bind, pure, Except.pure]
    exact ⟨_, rfl, by rintro _ _ ⟨⟩; exact sameLength⟩
  · have targets := bounded.conditional conditional
    obtain ⟨middle, first, middleLength⟩ := maskTarget_total
      (show pc + 1 + insn.jt.toNat < masks.length by omega) memvalid
    obtain ⟨after, second, afterLength⟩ := maskTarget_total
      (show pc + 1 + insn.jf.toNat < middle.length by omega) memvalid
    simp only [first, second, bind, Except.bind, pure, Except.pure]
    exact ⟨_, rfl, by rintro _ _ ⟨⟩; omega⟩
  · exact ⟨_, rfl, by rintro _ _ ⟨⟩; rfl⟩

private theorem checkCells_total {rest : List SockFilter} (size : pc + rest.length = masks.length)
    (bounded : ∀ (index : Nat) (insn : SockFilter), rest[index]? = some insn →
      ∃ code, BpfS.ofValue insn.code = some code ∧ InsnOk masks.length (pc + index) insn code)
        (memvalid : U16) :
    ∃ ret, checkCells pc rest memvalid masks = .ok ret := by
  induction rest generalizing pc memvalid masks with
  | nil => exact ⟨0, rfl⟩
  | cons head tail ih =>
    rw [List.length_cons] at size
    have inside : pc < masks.length := by omega
    obtain ⟨code, decoded, headBounded⟩ := bounded 0 head rfl
    obtain ⟨result, passed, sameLength⟩ := checkCode_total headBounded (memvalid &&& masks[pc])
    rw [checkCells, List.getElem?_eq_getElem inside]
    simp only [checkCell, decoded]
    rw [Nat.add_zero] at passed
    rw [passed]
    cases result with
    | none => exact ⟨_, rfl⟩
    | some result =>
      obtain ⟨after, masksAfter⟩ := result
      have length := sameLength after masksAfter rfl
      apply ih (by omega)
      intro index insn fetched
      obtain ⟨next, nextDecoded, nextBounded⟩ := bounded (index + 1) insn fetched
      refine ⟨next, nextDecoded, ?_⟩
      rw [length, show pc + 1 + index = pc + (index + 1) by omega]
      exact nextBounded

/-- `sk_chk_filter` returns on every program, without a fault. -/
theorem skChkFilter_total (allocated : Bool) (filter : List SockFilter) :
    ∃ result, skChkFilter allocated filter = .ok result := by
  unfold skChkFilter
  dsimp only
  split_ifs with size err ends
  · exact ⟨_, rfl⟩
  · exact ⟨_, rfl⟩
  · have checked : chkInsns filter.length 0 filter = (0, (chkInsns filter.length 0 filter).2) :=
      Prod.ext (by simpa using err) rfl
    obtain ⟨sameLength, each⟩ := chkInsns_ok checked
    cases allocated with
    | false => exact ⟨_, rfl⟩
    | true =>
      have total : ∃ ret, checkCells 0 (chkInsns filter.length 0 filter).2 0
          (List.replicate (chkInsns filter.length 0 filter).2.length 0xffff) = .ok ret := by
        apply checkCells_total
        · simp
        · intro index insn fetched
          have inside : index < filter.length := by
            rw [← sameLength]
            exact (List.getElem?_eq_some_iff.mp fetched).1
          obtain ⟨other, otherFetched, passed⟩ :=
            each index filter[index] (List.getElem?_eq_getElem inside)
          rw [fetched, Option.some.injEq] at otherFetched
          subst otherFetched
          rw [List.length_replicate, sameLength]
          exact chkInsn_ok passed
      obtain ⟨ret, passed⟩ := total
      refine ⟨(ret, (chkInsns filter.length 0 filter).2), ?_⟩
      rw [checkLoadAndStores, if_pos rfl, passed]
      rfl
  · exact ⟨_, rfl⟩

end RouterKernel.SocketFilter
