import RouterKernel.SocketFilter.Interpreter
import RouterKernel.SocketFilter.Verified

/-!
Contract: an accepted program is safe to run on every packet.

Owns:
- `step_cases`, what one turn of the loop can do at a verified position;
- `SafeRun`, safety of a whole run: it returns within as many turns as there are
  instructions, never leaves the program or `mem[]`, never meets an unknown
  code, and reads no cell that the same run has not written;
- independence of the result from the initial `mem[]`.
-/

namespace RouterKernel.SocketFilter

open Foundation

/-! ## One turn -/

def Effect.Shape (insn : SockFilter) (code : BpfS) : Effect → Prop
  | .set _ _ => code.isPlain = true ∧ code.isRet = false
  | .jump offset => (code = .jmpJa ∧ offset = insn.k.toNat) ∨
      (code.isConditional = true ∧ (offset = insn.jt.toNat ∨ offset = insn.jf.toNat))
  | .loadA | .loadX => code.isLoad = true
  | .store _ => code.isStore = true
  | .ret value => code.isRet = true ∨ value = 0

variable {code : BpfS} {insn : SockFilter} {pc : Nat}

private theorem shape_setA (plain : code.isPlain = true) (goesOn : code.isRet = false) (x : U32)
    (loaded : Option U32) :
    (Effect.setA x loaded).Shape insn code := by
  cases loaded with
  | none => exact Or.inr rfl
  | some value => exact ⟨plain, goesOn⟩

private theorem shape_setX (plain : code.isPlain = true) (goesOn : code.isRet = false) (a : U32)
    (loaded : Option U32) :
    (Effect.setX a loaded).Shape insn code := by
  cases loaded with
  | none => exact Or.inr rfl
  | some value => exact ⟨plain, goesOn⟩

private theorem shape_branch (conditional : code.isConditional = true) (condition : Bool) :
    (Effect.branch insn condition).Shape insn code := by
  cases condition with
  | false => exact Or.inr ⟨conditional, Or.inr rfl⟩
  | true => exact Or.inr ⟨conditional, Or.inl rfl⟩

theorem effect_shape (skb : SkBuff) (insn : SockFilter) (a x : U32) (code : BpfS) :
    (effect skb insn a x code).Shape insn code := by
  cases code
  case aluDivX =>
    by_cases zero : x = 0
    · rw [show effect skb insn a x .aluDivX = .ret 0 from if_pos zero]
      exact Or.inr rfl
    · rw [show effect skb insn a x .aluDivX = .set (a / x) x from if_neg zero]
      exact ⟨rfl, rfl⟩
  case jmpJa => exact Or.inl ⟨rfl, rfl⟩
  case retK | retA => exact Or.inl rfl
  case ldMem | ldxMem | st | stx => exact rfl
  case jmpJgtK | jmpJgeK | jmpJeqK | jmpJsetK | jmpJgtX | jmpJgeX | jmpJeqX | jmpJsetX =>
    exact shape_branch rfl _
  case ldxBMsh => exact shape_setX rfl rfl _ _
  case ldWAbs | ldHAbs | ldBAbs | ldWInd | ldHInd | ldBInd | ancIfindex | ancHatype
      | ancNlattr | ancNlattrNest =>
    exact shape_setA rfl rfl _ _
  all_goals exact ⟨rfl, rfl⟩

private theorem successor_of_plain (plain : code.isPlain = true) (goesOn : code.isRet = false) :
    Successor pc insn code (pc + 1) := by
  simp only [BpfS.isPlain, Bool.and_eq_true, Bool.not_eq_true', bne_iff_ne] at plain
  rw [Successor, if_neg plain.1.2, if_neg (by simp [plain.2])]
  exact ⟨goesOn, rfl⟩

private theorem successor_of_memory (memory : code.isMemory = true) :
    Successor pc insn code (pc + 1) := by
  obtain ⟨noJump, noBranch, goesOn⟩ := BpfS.no_jump_of_memory code memory
  rw [Successor, if_neg noJump, if_neg (by simp [noBranch])]
  exact ⟨goesOn, rfl⟩

private theorem successor_of_jump {offset : Nat} (shape : (Effect.jump offset).Shape insn code) :
    Successor pc insn code (pc + offset + 1) := by
  rcases shape with ⟨always, rfl⟩ | ⟨conditional, taken⟩
  · rw [Successor, if_pos always]
  · rw [Successor, if_neg (BpfS.no_jumpAlways_of_conditional code conditional), if_pos conditional]
    rcases taken with rfl | rfl
    · exact Or.inl rfl
    · exact Or.inr rfl

private theorem isMemory_of_load (load : code.isLoad = true) : code.isMemory = true := by
  simp [BpfS.isMemory, load]

private theorem isMemory_of_store (store : code.isStore = true) : code.isMemory = true := by
  simp [BpfS.isMemory, store]

/-- Within bounds, an effect returns or goes along an edge. -/
theorem apply_cases {flen : Nat} {machine : Machine} {result : Effect}
    (bounded : InsnOk flen machine.pc insn code)
    (shape : result.Shape insn code) :
    (∃ value, machine.apply insn result = .halted (.returned value) ∧
      (code.isRet = true ∨ value = 0)) ∨
    ∃ next, machine.apply insn result = .running next ∧ Successor machine.pc insn code next.pc := by
  cases result with
  | set a x => exact Or.inr ⟨_, rfl, successor_of_plain shape.1 shape.2⟩
  | jump offset => exact Or.inr ⟨_, rfl, successor_of_jump shape⟩
  | loadA | loadX =>
    have memory := isMemory_of_load shape
    exact Or.inr ⟨_, dif_pos (bounded.cell memory), successor_of_memory memory⟩
  | store value =>
    have memory := isMemory_of_store shape
    exact Or.inr ⟨_, dif_pos (bounded.cell memory), successor_of_memory memory⟩
  | ret value => exact Or.inl ⟨value, rfl, shape⟩

section Turn

variable {program : List SockFilter} {entry : Nat → U16}

theorem Verified.successor_inside (verified : Verified program entry) {target : Nat}
    (fetched : program[pc]? = some insn) (decoded : BpfS.ofValue insn.code = some code)
    (edge : Successor pc insn code target) :
    target < program.length := by
  have inside := (List.getElem?_eq_some_iff.mp fetched).1
  obtain ⟨other, otherDecoded, bounded⟩ := verified.known pc insn fetched
  rw [decoded, Option.some.injEq] at otherDecoded
  subst otherDecoded
  unfold Successor at edge
  split_ifs at edge with always conditional
  · have := bounded.always always
    omega
  · have := bounded.conditional conditional
    omega
  · obtain ⟨goesOn, rfl⟩ := edge
    by_contra outside
    have last : pc = program.length - 1 := by omega
    obtain ⟨final, finalCode, finalFetched, finalDecoded, returns⟩ := verified.returns
    rw [← last, fetched, Option.some.injEq] at finalFetched
    subst finalFetched
    rw [decoded, Option.some.injEq] at finalDecoded
    subst finalDecoded
    simp [goesOn] at returns

theorem Verified.fetch (verified : Verified program entry) (inside : pc < program.length) :
    ∃ insn code, program[pc]? = some insn ∧ BpfS.ofValue insn.code = some code ∧
      InsnOk program.length pc insn code := by
  have fetched := List.getElem?_eq_getElem inside
  obtain ⟨code, decoded, bounded⟩ := verified.known pc _ fetched
  exact ⟨_, code, fetched, decoded, bounded⟩

theorem step_eq_apply {skb : SkBuff} {machine : Machine}
    (fetched : program[machine.pc]? = some insn)
    (decoded : BpfS.ofValue insn.code = some code) :
    step skb program machine = machine.apply insn (effect skb insn machine.a machine.x code) := by
  simp only [step, fetched, decoded]

/-- Everything one turn can do at a verified position. -/
theorem Verified.step_cases (verified : Verified program entry) (skb : SkBuff)
    {machine : Machine} (inside : machine.pc < program.length) :
    ∃ insn code, program[machine.pc]? = some insn ∧ BpfS.ofValue insn.code = some code ∧
      ((∃ value, step skb program machine = .halted (.returned value) ∧
        (code.isRet = true ∨ value = 0)) ∨
      ∃ next, step skb program machine = .running next ∧
        Successor machine.pc insn code next.pc ∧ next.pc < program.length) := by
  obtain ⟨insn, code, fetched, decoded, bounded⟩ := verified.fetch inside
  refine ⟨insn, code, fetched, decoded, ?_⟩
  rw [step_eq_apply fetched decoded]
  rcases apply_cases bounded (effect_shape skb insn machine.a machine.x code) with
    returned | ⟨next, goesOn, edge⟩
  · exact Or.inl returned
  · exact Or.inr ⟨next, goesOn, edge, verified.successor_inside fetched decoded edge⟩

theorem Verified.step_forward (verified : Verified program entry) {skb : SkBuff}
    {machine next : Machine} (inside : machine.pc < program.length)
    (goesOn : step skb program machine = .running next) :
    next.pc < program.length ∧ machine.pc < next.pc := by
  obtain ⟨insn, code, _, _, ⟨value, returned, _⟩ | ⟨other, running, edge, otherInside⟩⟩ :=
    verified.step_cases skb inside
  · rw [goesOn] at returned
    cases returned
  · rw [goesOn, Outcome.running.injEq] at running
    subst running
    exact ⟨otherInside, edge.forward⟩

end Turn

/-! ## Whole runs -/

section Runs

variable {program : List SockFilter} {entry : Nat → U16} {skb : SkBuff} {mem : Scratch}

theorem Verified.run_inside (verified : Verified program entry) {turns : Nat}
    {machine : Machine} (reached : skRunFilter skb program mem turns = .running machine) :
    machine.pc < program.length := by
  refine runFor_induction (fun _ state => state.pc < program.length) verified.nonempty ?_
    reached
  intro _ state after _ inside goesOn
  exact (verified.step_forward inside goesOn).1

theorem Verified.run_halts (verified : Verified program entry) (skb : SkBuff) (mem : Scratch) :
    ∃ verdict, skRunFilter skb program mem program.length = .halted verdict := by
  have nonempty := verified.nonempty
  obtain ⟨verdict, halted⟩ := runFor_halts (fun state => state.pc < program.length)
    (fun state => program.length - 1 - state.pc)
    (fun state next inside goesOn => by
      obtain ⟨nextInside, forward⟩ := verified.step_forward inside goesOn
      exact ⟨nextInside, by omega⟩)
    (entryState mem) nonempty
  refine ⟨verdict, runFor_halted_of_le halted ?_⟩
  simp only [entryState]
  omega

/-- At a turn, the run writes a cell of `mem[]`. -/
def WritesAt (skb : SkBuff) (program : List SockFilter) (mem : Scratch) (turn cell : Nat) : Prop :=
  ∃ machine insn code, skRunFilter skb program mem turn = .running machine ∧
    program[machine.pc]? = some insn ∧ BpfS.ofValue insn.code = some code ∧
    code.isStore = true ∧ cell = insn.k.toNat

/-- The cells of the entry mask have been written by the time the run gets
there. -/
theorem Verified.run_written (verified : Verified program entry) {turns : Nat}
    {machine : Machine} (reached : skRunFilter skb program mem turns = .running machine)
    {cell : Nat} (member : (entry machine.pc).getLsbD cell = true) :
    ∃ earlier, earlier < turns ∧ WritesAt skb program mem earlier cell := by
  refine runFor_induction
    (fun turn state => ∀ cell, (entry state.pc).getLsbD cell = true →
      ∃ earlier, earlier < turn ∧ WritesAt skb program mem earlier cell)
    ?_ ?_ reached cell member
  · intro cell valid
    simp [entryState, verified.start] at valid
  · intro turn state after stateReached written goesOn cell valid
    obtain ⟨insn, code, fetched, decoded, ⟨value, returned, _⟩ | ⟨next, running, edge, _⟩⟩ :=
      verified.step_cases skb (verified.run_inside stateReached)
    · rw [goesOn] at returned
      cases returned
    · rw [goesOn, Outcome.running.injEq] at running
      subst running
      rcases (verified.flows _ insn code fetched decoded).2 _ edge cell valid with
        before | ⟨store, rfl⟩
      · obtain ⟨earlier, below, writes⟩ := written cell before
        exact ⟨earlier, by omega, writes⟩
      · exact ⟨turn, by omega, state, insn, code, stateReached, fetched, decoded, store, rfl⟩

end Runs

/-! ## Independence of the initial scratch memory -/

/-- Two machines at one position that agree on the registers and on the cells
of the entry mask. -/
structure Agree (program : List SockFilter) (entry : Nat → U16) (machine other : Machine) :
    Prop where
  inside : machine.pc < program.length
  pc : machine.pc = other.pc
  a : machine.a = other.a
  x : machine.x = other.x
  mem : ∀ cell : Fin BPF_MEMWORDS, (entry machine.pc).getLsbD cell = true →
    machine.mem cell = other.mem cell

section Independence

variable {program : List SockFilter} {entry : Nat → U16} {machine other : Machine}

private theorem isStore_of_plain (plain : code.isPlain = true) : code.isStore = false := by
  cases store : code.isStore with
  | false => rfl
  | true => simp [BpfS.isPlain, isMemory_of_store store] at plain

private theorem isStore_of_jump {offset : Nat}
    (shape : (Effect.jump offset).Shape insn code) : code.isStore = false := by
  cases store : code.isStore with
  | false => rfl
  | true =>
    obtain ⟨noJump, noBranch, _⟩ := BpfS.no_jump_of_memory code (isMemory_of_store store)
    rcases shape with ⟨always, _⟩ | ⟨conditional, _⟩
    · exact absurd always noJump
    · simp [noBranch] at conditional

private theorem isStore_of_load (load : code.isLoad = true) : code.isStore = false := by
  cases store : code.isStore with
  | false => rfl
  | true => simp [BpfS.no_load_of_store code store] at load

/-- Agreement after an instruction that leaves `mem[]` alone. -/
private theorem Agree.follow (verified : Verified program entry)
    (agree : Agree program entry machine other)
    (fetched : program[machine.pc]? = some insn) (decoded : BpfS.ofValue insn.code = some code)
    (noStore : code.isStore = false) {target : Nat} (edge : Successor machine.pc insn code target)
    (a x : U32) :
    Agree program entry { machine with pc := target, a := a, x := x }
      { other with pc := target, a := a, x := x } where
  inside := verified.successor_inside fetched decoded edge
  pc := rfl
  a := rfl
  x := rfl
  mem := by
    intro cell valid
    rcases (verified.flows _ insn code fetched decoded).2 target edge cell valid with
      before | ⟨store, _⟩
    · exact agree.mem cell before
    · simp [noStore] at store

theorem Agree.step (verified : Verified program entry) (skb : SkBuff)
    (agree : Agree program entry machine other) :
    (step skb program machine).Related (Agree program entry) Eq (step skb program other) := by
  obtain ⟨insn, code, fetched, decoded, bounded⟩ := verified.fetch agree.inside
  have otherFetched : program[other.pc]? = some insn := agree.pc ▸ fetched
  rw [step_eq_apply fetched decoded, step_eq_apply otherFetched decoded, ← agree.a, ← agree.x]
  have shape := effect_shape skb insn machine.a machine.x code
  generalize effect skb insn machine.a machine.x code = result at shape
  cases result with
  | set a x =>
    simp only [Machine.apply, ← agree.pc]
    exact agree.follow verified fetched decoded (isStore_of_plain shape.1)
      (successor_of_plain shape.1 shape.2) a x
  | jump offset =>
    simp only [Machine.apply, ← agree.pc, Outcome.Related]
    have followed := agree.follow verified fetched decoded (isStore_of_jump shape)
      (successor_of_jump shape) machine.a machine.x
    simpa only [agree.a, agree.x] using followed
  | loadA =>
    have memory := isMemory_of_load shape
    have cell := bounded.cell memory
    have valid := (verified.flows _ insn code fetched decoded).1 shape
    simp only [Machine.apply, dif_pos cell, ← agree.pc, ← agree.mem ⟨_, cell⟩ valid, ← agree.x,
      Outcome.Related]
    exact agree.follow verified fetched decoded (isStore_of_load shape)
      (successor_of_memory memory) _ machine.x
  | loadX =>
    have memory := isMemory_of_load shape
    have cell := bounded.cell memory
    have valid := (verified.flows _ insn code fetched decoded).1 shape
    simp only [Machine.apply, dif_pos cell, ← agree.pc, ← agree.mem ⟨_, cell⟩ valid, ← agree.a,
      Outcome.Related]
    exact agree.follow verified fetched decoded (isStore_of_load shape)
      (successor_of_memory memory) machine.a _
  | store value =>
    have memory := isMemory_of_store shape
    have edge : Successor machine.pc insn code (machine.pc + 1) := successor_of_memory memory
    simp only [Machine.apply, dif_pos (bounded.cell memory), ← agree.pc, Outcome.Related]
    refine ⟨verified.successor_inside fetched decoded edge, rfl, agree.a, agree.x, ?_⟩
    intro cell valid
    by_cases written : cell = ⟨insn.k.toNat, bounded.cell memory⟩
    · simp only [written, Function.update_self]
    · simp only [Function.update_of_ne written]
      rcases (verified.flows _ insn code fetched decoded).2 _ edge cell valid with
        before | ⟨_, same⟩
      · exact agree.mem cell before
      · exact absurd (Fin.ext same) written
  | ret value => rfl

/-- Runs from any two scratch memories agree. -/
theorem Verified.run_agrees (verified : Verified program entry) (skb : SkBuff)
    (mem otherMem : Scratch) (turns : Nat) :
    (skRunFilter skb program mem turns).Related (Agree program entry) Eq
      (skRunFilter skb program otherMem turns) := by
  refine runFor_related _ _ (fun _ _ agree => agree.step verified skb) ?_ turns
  refine ⟨verified.nonempty, rfl, rfl, rfl, ?_⟩
  intro cell valid
  simp [entryState, verified.start] at valid

end Independence

/-! ## Safety of accepted programs -/

structure SafeRun (skb : SkBuff) (program : List SockFilter) (mem : Scratch) : Prop where
  /-- The run returns within as many turns as there are instructions, at a
  `RET` or at an early `return 0`. -/
  returns : ∃ last machine insn code value, last < program.length ∧
    skRunFilter skb program mem last = .running machine ∧
    program[machine.pc]? = some insn ∧ BpfS.ofValue insn.code = some code ∧
    (code.isRet = true ∨ value = 0) ∧
    ∀ turns, last < turns → skRunFilter skb program mem turns = .halted (.returned value)
  pcInside : ∀ turns machine, skRunFilter skb program mem turns = .running machine →
    machine.pc < program.length
  noUnknownCode : ∀ turns insn, skRunFilter skb program mem turns ≠ .halted (.unknownCode insn)
  noFault : ∀ turns fault, skRunFilter skb program mem turns ≠ .halted (.fault fault)
  cellInside : ∀ turns machine insn code, skRunFilter skb program mem turns = .running machine →
    program[machine.pc]? = some insn → BpfS.ofValue insn.code = some code →
    code.isMemory = true → insn.k.toNat < BPF_MEMWORDS
  writtenBefore : ∀ turns machine insn code, skRunFilter skb program mem turns = .running machine →
    program[machine.pc]? = some insn → BpfS.ofValue insn.code = some code →
    code.isLoad = true →
    ∃ earlier, earlier < turns ∧ WritesAt skb program mem earlier insn.k.toNat

section Safety

variable {program : List SockFilter} {entry : Nat → U16} {skb : SkBuff} {mem : Scratch}

/-- However a run ends, its last turn returned. -/
theorem Verified.run_returns (verified : Verified program entry) {turns : Nat}
    {verdict : Verdict} (halted : skRunFilter skb program mem turns = .halted verdict) :
    ∃ last machine insn code value, last < turns ∧
        skRunFilter skb program mem last = .running machine ∧
      program[machine.pc]? = some insn ∧ BpfS.ofValue insn.code = some code ∧
      (code.isRet = true ∨ value = 0) ∧ verdict = .returned value ∧
      skRunFilter skb program mem (last + 1) = .halted verdict := by
  obtain ⟨last, machine, below, reached, stops⟩ := runFor_halted_inv halted
  obtain ⟨insn, code, fetched, decoded, ⟨value, returned, how⟩ | ⟨next, running, _⟩⟩ :=
    verified.step_cases skb (verified.run_inside reached)
  · rw [stops, Outcome.halted.injEq] at returned
    refine ⟨last, machine, insn, code, value, below, reached, fetched, decoded, how, returned, ?_⟩
    rw [skRunFilter, runFor_succ, reached]
    exact stops
  · rw [stops] at running
    cases running

theorem Verified.safeRun (verified : Verified program entry) (skb : SkBuff) (mem : Scratch) :
    SafeRun skb program mem where
  returns := by
    obtain ⟨verdict, halted⟩ := verified.run_halts skb mem
    obtain ⟨last, machine, insn, code, value, below, reached, fetched, decoded, how, rfl, done⟩ :=
      verified.run_returns halted
    exact ⟨last, machine, insn, code, value, below, reached, fetched, decoded, how,
      fun turns later => runFor_halted_of_le done later⟩
  pcInside := fun _ _ reached => verified.run_inside reached
  noUnknownCode := by
    intro turns insn halted
    obtain ⟨_, _, _, _, _, _, _, _, _, _, same, _⟩ := verified.run_returns halted
    cases same
  noFault := by
    intro turns fault halted
    obtain ⟨_, _, _, _, _, _, _, _, _, _, same, _⟩ := verified.run_returns halted
    cases same
  cellInside := by
    intro turns machine insn code _ fetched decoded memory
    obtain ⟨other, otherDecoded, bounded⟩ := verified.known _ insn fetched
    rw [decoded, Option.some.injEq] at otherDecoded
    subst otherDecoded
    exact bounded.cell memory
  writtenBefore := by
    intro turns machine insn code reached fetched decoded load
    exact verified.run_written reached ((verified.flows _ insn code fetched decoded).1 load)

end Safety

/-- Socket filter soundness: a program that `sk_chk_filter` accepts runs safely
on every packet, and what it returns does not depend on the initial `mem[]`. -/
theorem accepted_filter_safe (allocated : Bool) (filter rewritten : List SockFilter)
    (accepted : skChkFilter allocated filter = .ok (0, rewritten)) (skb : SkBuff) :
    rewritten.length = filter.length ∧ (∀ mem, SafeRun skb rewritten mem) ∧
      ∃ value, ∀ mem turns, filter.length ≤ turns →
        skRunFilter skb rewritten mem turns = .halted (.returned value) := by
  obtain ⟨entry, verified⟩ := skChkFilter_verified accepted
  have sameLength := (chkInsns_ok (skChkFilter_inv accepted).1).1
  refine ⟨sameLength, verified.safeRun skb, ?_⟩
  obtain ⟨last, _, _, _, value, below, _, _, _, _, done⟩ :=
    (verified.safeRun skb fun _ => 0).returns
  refine ⟨value, ?_⟩
  intro mem turns enough
  have related := verified.run_agrees skb (fun _ => 0) mem turns
  rw [done turns (by omega)] at related
  cases result : skRunFilter skb rewritten mem turns with
  | running machine =>
    rw [result] at related
    exact related.elim
  | halted verdict =>
    rw [result] at related
    rw [← (show Verdict.returned value = verdict from related)]

/-- `ldb [0]; st M[3]; jeq #0x45, 0, 1; ld M[3]; ret a`. -/
def scratchFilter : List SockFilter :=
  [⟨BPF_LD ||| BPF_B ||| BPF_ABS, 0, 0, 0⟩, ⟨BPF_ST, 0, 0, 3⟩,
    ⟨BPF_JMP ||| BPF_JEQ ||| BPF_K, 0, 1, 0x45⟩, ⟨BPF_LD ||| BPF_MEM, 0, 0, 3⟩,
    ⟨BPF_RET ||| BPF_A, 0, 0, 0⟩]

def scratchFilterRewritten : List SockFilter :=
  [⟨BpfS.ldBAbs.value, 0, 0, 0⟩, ⟨BpfS.st.value, 0, 0, 3⟩, ⟨BpfS.jmpJeqK.value, 0, 1, 0x45⟩,
    ⟨BpfS.ldMem.value, 0, 0, 3⟩, ⟨BpfS.retA.value, 0, 0, 0⟩]

theorem accepted_filter_safe_scratch :
    skChkFilter true scratchFilter = .ok (0, scratchFilterRewritten) ∧
      (∀ mem, SafeRun smallPacket scratchFilterRewritten mem) ∧
      ∃ value, ∀ mem turns, 5 ≤ turns → skRunFilter smallPacket scratchFilterRewritten mem turns =
          .halted (.returned value) :=
  have accepted : skChkFilter true scratchFilter = .ok (0, scratchFilterRewritten) := by decide
  ⟨accepted, (accepted_filter_safe true scratchFilter scratchFilterRewritten accepted
    smallPacket).2⟩

end RouterKernel.SocketFilter
