import RouterKernel.SocketFilter.Reference
import RouterKernel.SocketFilter.Verified

/-!
Contract: the rewrite done by `sk_chk_filter` against the reference meaning.

Owns:
- `ReciprocalExact`, the exact condition under which the reciprocal gives the
  quotient;
- agreement of every other instruction with its reference meaning;
- the refinement theorem for runs whose divisions meet the condition, and the
  filter that shows the condition to be necessary.
-/

namespace RouterKernel.SocketFilter

open Foundation Reference

/-! ## Reciprocals -/

/-- The excess of the rounded reciprocal: `reciprocal_value(k) * k - 2^32`. -/
def reciprocalExcess (k : U32) : Nat :=
  (k.toNat - 2 ^ 32 % k.toNat) % k.toNat

/-- The dividends for which the reciprocal gives the quotient.  The reciprocal
of 1 does not fit a word and is stored as 0; for the others the excess, scaled
by the dividend, must not carry the product past the next multiple. -/
def ReciprocalExact (a k : U32) : Prop :=
  if k = 1 then a = 0
  else a.toNat * reciprocalExcess k < (k.toNat - a.toNat % k.toNat) * 2 ^ 32

instance (a k : U32) : Decidable (ReciprocalExact a k) := by
  unfold ReciprocalExact
  infer_instance

private theorem roundedReciprocal_mul {divisor : Nat} (positive : 0 < divisor) :
    (2 ^ 32 + (divisor - 1)) / divisor * divisor =
      2 ^ 32 + (divisor - 2 ^ 32 % divisor) % divisor := by
  have split := Nat.div_add_mod (2 ^ 32) divisor
  have below := Nat.mod_lt (2 ^ 32) positive
  generalize 2 ^ 32 % divisor = rest at *
  generalize 2 ^ 32 / divisor = quotient at *
  rw [← split]
  rcases Nat.eq_zero_or_pos rest with rfl | restPos
  · rw [Nat.sub_zero, Nat.mod_self, Nat.add_zero,
      Nat.mul_add_div positive, Nat.div_eq_of_lt (by omega), Nat.add_zero, Nat.mul_comm]
  · have regroup :
      divisor * quotient + rest + (divisor - 1) = divisor * (quotient + 1) + (rest - 1) := by
      rw [Nat.mul_add]
      omega
    rw [regroup, Nat.mul_add_div positive, Nat.div_eq_of_lt (by omega), Nat.add_zero,
      Nat.mod_eq_of_lt (by omega), Nat.mul_comm, Nat.mul_add]
    omega

/-- Multiplying by a reciprocal with a given excess gives the quotient exactly
when the scaled excess stays below the next multiple. -/
private theorem reciprocal_quotient_iff {dividend divisor reciprocal excess scale : Nat}
    (positive : 0 < divisor) (scalePos : 0 < scale)
    (rounded : reciprocal * divisor = scale + excess) :
    dividend * reciprocal / scale = dividend / divisor ↔
      dividend * excess < (divisor - dividend % divisor) * scale := by
  have split := Nat.div_add_mod dividend divisor
  have below := Nat.mod_lt dividend positive
  generalize dividend / divisor = quotient at *
  generalize dividend % divisor = rest at *
  have scaled : divisor * (dividend * reciprocal) = dividend * scale + dividend * excess := by
    rw [← Nat.mul_add, ← rounded]
    ring
  have lower : quotient * scale ≤ dividend * reciprocal := by
    apply Nat.le_of_mul_le_mul_left _ positive
    rw [scaled]
    calc divisor * (quotient * scale) = divisor * quotient * scale := by ring
      _ ≤ dividend * scale := Nat.mul_le_mul_right scale (by omega)
      _ ≤ dividend * scale + dividend * excess := Nat.le_add_right _ _
  have next : divisor * ((quotient + 1) * scale) = dividend * scale + (divisor - rest) * scale := by
    rw [← Nat.add_mul]
    have : dividend + (divisor - rest) = divisor * (quotient + 1) := by
      rw [Nat.mul_add]
      omega
    rw [this]
    ring
  have upper : dividend * reciprocal < (quotient + 1) * scale ↔
      dividend * excess < (divisor - rest) * scale := by
    rw [← Nat.mul_lt_mul_left positive, scaled, next]
    omega
  rw [Nat.div_eq_iff scalePos, ← upper]
  have bound : (quotient + 1) * scale = quotient * scale + scale := by ring
  omega

variable {k : U32} {tableCode : BpfS}

theorem reciprocalDivide_iff (nonzero : k ≠ 0) (a : U32) :
    reciprocalDivide a (reciprocalValue k) = BitVec.ofNat 32 (a.toNat / k.toNat) ↔
      ReciprocalExact a k := by
  have positive : 0 < k.toNat := by
    apply Nat.pos_of_ne_zero
    intro zero
    exact nonzero (BitVec.eq_of_toNat_eq (by simpa using zero))
  have predecessor : (k - 1).toNat = k.toNat - 1 := by bv_omega
  unfold ReciprocalExact
  by_cases one : k = 1
  · subst one
    rw [if_pos rfl]
    have zero : reciprocalValue 1 = 0 := by decide
    have left : reciprocalDivide a 0 = 0 := by simp [reciprocalDivide]
    have right : BitVec.ofNat 32 (a.toNat / (1 : U32).toNat) = a := by
      rw [show (1 : U32).toNat = 1 from rfl, Nat.div_one, BitVec.ofNat_toNat, BitVec.setWidth_eq]
    rw [zero, left, right]
    exact eq_comm
  · rw [if_neg one]
    have big : 2 ≤ k.toNat := by
      by_contra small
      exact one (BitVec.eq_of_toNat_eq (by simp; omega))
    have rounded := roundedReciprocal_mul positive
    have fits : (2 ^ 32 + (k.toNat - 1)) / k.toNat < 2 ^ 32 := by
      rw [Nat.div_lt_iff_lt_mul positive]
      omega
    have value : (reciprocalValue k).toNat = (2 ^ 32 + (k.toNat - 1)) / k.toNat := by
      rw [reciprocalValue, predecessor, BitVec.toNat_ofNat, Nat.mod_eq_of_lt fits]
    rw [← value] at rounded
    have product : a.toNat * (reciprocalValue k).toNat / 2 ^ 32 < 2 ^ 32 := by
      rw [Nat.div_lt_iff_lt_mul (by norm_num)]
      exact Nat.mul_lt_mul'' a.isLt (reciprocalValue k).isLt
    have quotient : a.toNat / k.toNat < 2 ^ 32 :=
      lt_of_le_of_lt (Nat.div_le_self _ _) a.isLt
    rw [reciprocalExcess, ← reciprocal_quotient_iff positive (by norm_num) rounded,
      reciprocalDivide, ← BitVec.toNat_inj, BitVec.toNat_ofNat, BitVec.toNat_ofNat,
      Nat.mod_eq_of_lt product, Nat.mod_eq_of_lt quotient]

/-! ## One instruction -/

/-- The instruction that a kernel code from the table carries out. -/
def denotes : BpfS → Option Instruction
  | .retK => some .returnConstant
  | .retA => some .returnAccumulator
  | .aluAddK => some (.arithmetic .add .constant)
  | .aluAddX => some (.arithmetic .add .index)
  | .aluSubK => some (.arithmetic .sub .constant)
  | .aluSubX => some (.arithmetic .sub .index)
  | .aluMulK => some (.arithmetic .mul .constant)
  | .aluMulX => some (.arithmetic .mul .index)
  | .aluDivK => some (.arithmetic .div .constant)
  | .aluDivX => some (.arithmetic .div .index)
  | .aluAndK => some (.arithmetic .and .constant)
  | .aluAndX => some (.arithmetic .and .index)
  | .aluOrK => some (.arithmetic .or .constant)
  | .aluOrX => some (.arithmetic .or .index)
  | .aluLshK => some (.arithmetic .lsh .constant)
  | .aluLshX => some (.arithmetic .lsh .index)
  | .aluRshK => some (.arithmetic .rsh .constant)
  | .aluRshX => some (.arithmetic .rsh .index)
  | .aluNeg => some .negate
  | .ldWAbs => some (.load (.absolute .word))
  | .ldHAbs => some (.load (.absolute .half))
  | .ldBAbs => some (.load (.absolute .byte))
  | .ldWLen => some (.load .length)
  | .ldWInd => some (.load (.indirect .word))
  | .ldHInd => some (.load (.indirect .half))
  | .ldBInd => some (.load (.indirect .byte))
  | .ldImm => some (.load .immediate)
  | .ldMem => some (.load .scratch)
  | .ldxWLen => some .loadIndexLength
  | .ldxBMsh => some .loadIndexHeaderLength
  | .ldxImm => some .loadIndexImmediate
  | .ldxMem => some .loadIndexScratch
  | .miscTax => some .accumulatorToIndex
  | .miscTxa => some .indexToAccumulator
  | .st => some .store
  | .stx => some .storeIndex
  | .jmpJa => some .jump
  | .jmpJeqK => some (.branch .eq .constant)
  | .jmpJeqX => some (.branch .eq .index)
  | .jmpJgeK => some (.branch .ge .constant)
  | .jmpJgeX => some (.branch .ge .index)
  | .jmpJgtK => some (.branch .gt .constant)
  | .jmpJgtX => some (.branch .gt .index)
  | .jmpJsetK => some (.branch .set .constant)
  | .jmpJsetX => some (.branch .set .index)
  | _ => none

/-- The table `codes` agrees with the fields of the user codes. -/
theorem codes_denotes {code : U16} (table : codes code = some tableCode) :
    decode code = denotes tableCode := by
  have entries : ∀ entry ∈ codesTable, decode entry.1 = denotes entry.2 := by decide
  exact entries (code, tableCode) (mem_of_lookup table)

section Instruction

variable (skb : SkBuff) (insn : SockFilter) (a x : U32)

/-- What an ancillary code loads. -/
private def ancillaryField : BpfS → Option U32
  | .ancProtocol => some ((ntohs skb.protocol).setWidth 32)
  | .ancPkttype => some (skb.pktType.setWidth 32)
  | .ancIfindex => skb.dev.map (·.ifindex)
  | .ancNlattr => ancNlattr skb a x
  | .ancNlattrNest => ancNlattrNest skb a x
  | .ancMark => some skb.mark
  | .ancQueue => some (skb.queueMapping.setWidth 32)
  | .ancHatype => skb.dev.map (·.type.setWidth 32)
  | .ancRxhash => some skb.rxhash
  | .ancCpu => some skb.cpu
  | _ => none

private theorem effect_ancillary : ∀ entry ∈ ancillaryTable,
      effect skb insn a x entry.2 = .setA x (ancillaryField skb a x entry.2) := by
  intro entry member
  simp only [ancillaryTable, List.mem_cons, List.not_mem_nil, or_false] at member
  rcases member with rfl | rfl | rfl | rfl | rfl | rfl | rfl | rfl | rfl | rfl <;> rfl

private theorem lookup_cons_ite {κ υ : Type} [DecidableEq κ] (key entryKey : κ) (value : υ)
    (table : List (κ × υ)) :
    ((entryKey, value) :: table).lookup key = if key = entryKey then some value
      else table.lookup key := by
  by_cases same : key = entryKey
  · simp [same]
  · have different : (key == entryKey) = false := by simpa using same
    rw [List.lookup_cons, different, if_neg same]

private theorem ancillaryValue_eq (offset : U32) : ancillaryValue skb a x offset =
      (ancillaryTable.lookup offset).map (ancillaryField skb a x) := by
  simp only [ancillaryTable, lookup_cons_ite, List.lookup_nil,
    apply_ite (Option.map (ancillaryField skb a x)), Option.map_some, Option.map_none]
  rfl

variable {code : BpfS}

/-- Loads from a fixed offset, with the ancillary rewrite. -/
private theorem effect_absolute {width : Width}
    (load : effect skb insn a x code = .setA x (loadPacket skb insn.k width.bytes)) :
    effect skb insn a x (ancillary insn.k code) = .setA x (absoluteValue skb a x insn.k width) := by
  rw [absoluteValue, ancillaryValue_eq, ancillary]
  cases found : ancillaryTable.lookup insn.k with
  | none => exact load
  | some special => exact effect_ancillary skb insn a x (insn.k, special) (mem_of_lookup found)

/-- Codes that the check stores unchanged carry out what they denote. -/
private theorem effect_eq_meaning {instruction : Instruction}
    (denoted : denotes code = some instruction)
    (notDivK : code ≠ .aluDivK) (notAbsolute : code.isAbsolute = false) :
    effect skb insn a x code = meaning skb insn a x instruction := by
  cases code
  case aluDivK => exact absurd rfl notDivK
  case ldWAbs | ldHAbs | ldBAbs => cases notAbsolute
  case aluDivX =>
    obtain rfl : _ = instruction := Option.some.inj denoted
    change (if x = 0 then Effect.ret 0 else Effect.set (a / x) x) =
      Effect.setA x (if x = 0 then none else some (BitVec.ofNat 32 (a.toNat / x.toNat)))
    by_cases zero : x = 0
    · rw [if_pos zero, if_pos zero, Effect.setA]
    · rw [if_neg zero, if_neg zero, Effect.setA, BitVec.udiv_def]
  all_goals first
    | (obtain rfl : _ = instruction := Option.some.inj denoted
       rfl)
    | cases denoted

private theorem effect_code (stored : U16) (code : BpfS) :
    effect skb { insn with code := stored } a x code = effect skb insn a x code := by
  cases code <;> rfl

private theorem apply_code (machine : Machine) (stored : U16) (result : Effect) :
    machine.apply { insn with code := stored } result = machine.apply insn result := by
  cases result <;> rfl

private theorem denotes_some {code : U16}
    (table : codes code = some tableCode) :
      ∃ instruction, denotes tableCode = some instruction := by
  have entries : ∀ entry ∈ codesTable, (denotes entry.2).isSome = true := by decide
  exact Option.isSome_iff_exists.mp (entries (code, tableCode) (mem_of_lookup table))

private theorem code_of_divK {code : U16} (table : codes code = some .aluDivK) :
    code = BPF_ALU ||| BPF_DIV ||| BPF_K := by
  have entries : ∀ entry ∈ codesTable, entry.2 = .aluDivK → entry.1 = BPF_ALU ||| BPF_DIV |||
    BPF_K := by decide
  exact entries (code, .aluDivK) (mem_of_lookup table) rfl

private theorem divK_refines (nonzero : insn.k ≠ 0) (exact : ReciprocalExact a insn.k)
    (stored : U16) (machine : Machine) :
    machine.apply { insn with code := stored, k := reciprocalValue insn.k }
        (effect skb { insn with code := stored, k := reciprocalValue insn.k } a x .aluDivK) =
      machine.apply insn (meaning skb insn a x (.arithmetic .div .constant)) := by
  have quotient := (reciprocalDivide_iff nonzero a).mpr exact
  change machine.apply _ (Effect.set (reciprocalDivide a (reciprocalValue insn.k)) x) =
    machine.apply insn (Effect.setA x
      (if insn.k = 0 then none else some (BitVec.ofNat 32 (a.toNat / insn.k.toNat))))
  rw [if_neg nonzero, quotient]
  rfl

private theorem stored_refines {instruction : Instruction}
    (denoted : denotes tableCode = some instruction)
    (notDivK : tableCode ≠ .aluDivK) :
    effect skb insn a x
        (if tableCode.isAbsolute then ancillary insn.k tableCode else tableCode) =
      meaning skb insn a x instruction := by
  cases absolute : tableCode.isAbsolute with
  | false =>
    rw [if_neg (by decide)]
    exact effect_eq_meaning skb insn a x denoted notDivK absolute
  | true =>
    rw [if_pos rfl]
    cases tableCode
    case ldWAbs | ldHAbs | ldBAbs =>
      obtain rfl : _ = instruction := Option.some.inj denoted
      exact effect_absolute skb insn a x rfl
    all_goals cases absolute

/-- The cases of the special checks, as far as the rewrite goes. -/
private theorem chkCode_stored {flen pc : Nat}
    (special : chkCode flen pc insn tableCode = some (code, k)) :
    (tableCode = .aluDivK ∧ insn.k ≠ 0 ∧ code = .aluDivK ∧ k = reciprocalValue insn.k) ∨
    (tableCode ≠ .aluDivK ∧ k = insn.k ∧
      code = if tableCode.isAbsolute then ancillary insn.k tableCode else tableCode) := by
  have noAbsolute : tableCode.isAbsolute = true → tableCode.isPlain = true := by
    cases tableCode <;> decide
  unfold chkCode at special
  split_ifs at special with divide nonzero memory cell always far conditional near absolute
  all_goals
    rw [Option.some.injEq, Prod.mk.injEq] at special
    obtain ⟨rfl, rfl⟩ := special
  · exact Or.inl ⟨divide, nonzero, divide, rfl⟩
  · refine Or.inr ⟨divide, rfl, ?_⟩
    rw [if_neg]
    intro absolute
    have plain := noAbsolute absolute
    simp [BpfS.isPlain, memory] at plain
  · refine Or.inr ⟨divide, rfl, ?_⟩
    rw [if_neg]
    intro absolute
    have plain := noAbsolute absolute
    simp [BpfS.isPlain, always] at plain
  · refine Or.inr ⟨divide, rfl, ?_⟩
    rw [if_neg]
    intro absolute
    have plain := noAbsolute absolute
    simp [BpfS.isPlain, conditional] at plain
  · exact Or.inr ⟨divide, rfl, (if_pos absolute).symm⟩
  · exact Or.inr ⟨divide, rfl, (if_neg absolute).symm⟩

/-- A checked instruction does what the user instruction means, provided that a
division by a constant meets the condition of reciprocals. -/
theorem chkInsn_refines {flen pc : Nat} {checked : SockFilter}
    (passed : chkInsn flen pc insn = some checked)
    (decoded : BpfS.ofValue checked.code = some code)
    (exact : insn.code = BPF_ALU ||| BPF_DIV ||| BPF_K → ReciprocalExact a insn.k) :
    ∃ instruction, decode insn.code = some instruction ∧ ∀ machine : Machine,
      machine.apply checked (effect skb checked a x code) =
        machine.apply insn (meaning skb insn a x instruction) := by
  obtain ⟨tableCode, stored, k, table, special, rfl⟩ := chkInsn_inv passed
  rw [BpfS.ofValue_value, Option.some.injEq] at decoded
  subst decoded
  obtain ⟨instruction, denoted⟩ := denotes_some table
  refine ⟨instruction, (codes_denotes table).trans denoted, ?_⟩
  intro machine
  rcases chkCode_stored insn special with ⟨rfl, nonzero, rfl, rfl⟩ | ⟨notDivK, rfl, rfl⟩
  · obtain rfl : _ = instruction := Option.some.inj denoted
    exact divK_refines skb insn a x nonzero (exact (code_of_divK table)) _ machine
  · rw [apply_code, effect_code, stored_refines skb insn a x denoted notDivK]

end Instruction

/-! ## Whole runs -/

/-- Every division by a constant that the reference run carries out before a
turn meets the condition of reciprocals. -/
def DivisionsExact (skb : SkBuff) (filter : List SockFilter) (mem : Scratch) (turns : Nat) : Prop :=
  ∀ earlier machine insn, earlier < turns → referenceRun skb filter mem earlier = .running machine →
    filter[machine.pc]? = some insn → insn.code = BPF_ALU ||| BPF_DIV ||| BPF_K →
    ReciprocalExact machine.a insn.k

/-- The rewritten program and the reference take the same step. -/
theorem step_refines {allocated : Bool} {filter rewritten : List SockFilter}
    (accepted : skChkFilter allocated filter = .ok (0, rewritten)) (skb : SkBuff)
    {machine : Machine}
    (exact : ∀ insn, filter[machine.pc]? = some insn →
      insn.code = BPF_ALU ||| BPF_DIV ||| BPF_K → ReciprocalExact machine.a insn.k) :
    step skb rewritten machine = referenceStep skb filter machine := by
  obtain ⟨sameLength, each⟩ := chkInsns_ok (skChkFilter_inv accepted).1
  unfold step referenceStep
  cases fetched : filter[machine.pc]? with
  | none =>
    have outside : rewritten[machine.pc]? = none := by
      rw [List.getElem?_eq_none_iff, sameLength]
      exact List.getElem?_eq_none_iff.mp fetched
    simp only [outside]
  | some insn =>
    obtain ⟨checked, checkedFetched, passed⟩ := each machine.pc insn fetched
    obtain ⟨code, decoded, _⟩ := chkInsn_ok passed
    obtain ⟨instruction, meant, same⟩ := chkInsn_refines skb insn machine.a machine.x passed
      decoded (exact insn fetched)
    simp only [checkedFetched, decoded, meant]
    exact same machine

/-- `ld #a; div #k; ret a`. -/
def divideFilter (a k : U32) : List SockFilter :=
  [⟨BPF_LD ||| BPF_IMM, 0, 0, a⟩, ⟨BPF_ALU ||| BPF_DIV ||| BPF_K, 0, 0, k⟩,
    ⟨BPF_RET ||| BPF_A, 0, 0, 0⟩]

def divideFilterRewritten (a k : U32) : List SockFilter :=
  [⟨BpfS.ldImm.value, 0, 0, a⟩, ⟨BpfS.aluDivK.value, 0, 0, reciprocalValue k⟩,
    ⟨BpfS.retA.value, 0, 0, 0⟩]

theorem divideFilter_accepted (nonzero : k ≠ 0) (a : U32) :
    skChkFilter true (divideFilter a k) = .ok (0, divideFilterRewritten a k) := by
  have load : chkInsn 3 0 ⟨BPF_LD ||| BPF_IMM, 0, 0, a⟩ = some ⟨BpfS.ldImm.value, 0, 0, a⟩ := rfl
  have divide : chkInsn 3 1 ⟨BPF_ALU ||| BPF_DIV ||| BPF_K, 0, 0, k⟩ =
      some ⟨BpfS.aluDivK.value, 0, 0, reciprocalValue k⟩ := by
    have special : chkCode 3 1 ⟨BPF_ALU ||| BPF_DIV ||| BPF_K, 0, 0, k⟩ .aluDivK =
        some (.aluDivK, reciprocalValue k) := by
      rw [chkCode, if_pos rfl, if_neg nonzero]
    have table : codes (BPF_ALU ||| BPF_DIV ||| BPF_K) = some .aluDivK := rfl
    simp only [chkInsn, table, special]
    rfl
  have checked : chkInsns 3 0 (divideFilter a k) = (0, divideFilterRewritten a k) := by
    simp only [divideFilter, chkInsns, load, divide]
    rfl
  have size : ¬ ((divideFilter a k).length = 0 ∨ BPF_MAXINSNS < (divideFilter a k).length) := by
    simp [divideFilter, BPF_MAXINSNS]
  rw [skChkFilter, if_neg size, show (divideFilter a k).length = 3 from rfl]
  simp only [checked]
  rfl

private theorem divideFilter_run (a k : U32) (skb : SkBuff) (mem : Scratch) :
    skRunFilter skb (divideFilterRewritten a k) mem 3 =
      .halted (.returned (reciprocalDivide a (reciprocalValue k))) := rfl

private theorem divideFilter_reference (nonzero : k ≠ 0) (a : U32) (skb : SkBuff) (mem : Scratch) :
    referenceRun skb (divideFilter a k) mem 3 = .halted
      (.returned (BitVec.ofNat 32 (a.toNat / k.toNat))) := by
  have quotient : Operation.div.value a k = some (BitVec.ofNat 32 (a.toNat / k.toNat)) :=
    if_neg nonzero
  have loads : referenceStep skb (divideFilter a k) (entryState mem) =
      .running { pc := 1, a := a, x := 0, mem := mem } := by
    have decoded : decode (BPF_LD ||| BPF_IMM) = some (.load .immediate) := by decide
    simp only [referenceStep, divideFilter, entryState, List.getElem?_cons_zero, decoded, meaning]
    rfl
  have divides : referenceStep skb (divideFilter a k) { pc := 1, a := a, x := 0, mem := mem } =
      .running { pc := 2, a := BitVec.ofNat 32 (a.toNat / k.toNat), x := 0, mem := mem } := by
    have decoded : decode (BPF_ALU ||| BPF_DIV ||| BPF_K) = some (.arithmetic .div .constant) := by
      decide
    simp only [referenceStep, divideFilter, List.getElem?_cons_succ, List.getElem?_cons_zero,
      decoded, meaning, Source.operand, quotient]
    rfl
  rw [referenceRun, runFor, loads]
  simp only
  rw [runFor, divides]
  rfl

/-- The rewrite preserves the meaning of every run whose divisions by constants
meet the condition of reciprocals; and for each dividend and divisor that do
not, it changes the value that a three-instruction filter returns. -/
theorem rewrite_preserves_meaning (skb : SkBuff) (mem : Scratch) (turns : Nat) :
    (∀ (allocated : Bool) (filter rewritten : List SockFilter),
      skChkFilter allocated filter = .ok (0, rewritten) → DivisionsExact skb filter mem turns →
        skRunFilter skb rewritten mem turns = referenceRun skb filter mem turns) ∧
    ∀ a k : U32, k ≠ 0 → ∃ rewritten, skChkFilter true (divideFilter a k) = .ok (0, rewritten) ∧
        (3 ≤ turns →
        (skRunFilter skb rewritten mem turns = referenceRun skb (divideFilter a k) mem turns ↔
          ReciprocalExact a k)) := by
  refine ⟨?_, ?_⟩
  · intro allocated filter rewritten accepted exact
    apply runFor_congr
    intro earlier below machine reached
    exact step_refines accepted skb fun insn fetched divides =>
      exact earlier machine insn below reached fetched divides
  · intro a k nonzero
    refine ⟨_, divideFilter_accepted nonzero a, ?_⟩
    intro enough
    have rewrittenRun : skRunFilter skb (divideFilterRewritten a k) mem turns = _ :=
      runFor_halted_of_le (divideFilter_run a k skb mem) enough
    have userRun : referenceRun skb (divideFilter a k) mem turns = _ :=
      runFor_halted_of_le (divideFilter_reference nonzero a skb mem) enough
    rw [rewrittenRun, userRun, Outcome.halted.injEq, Verdict.returned.injEq]
    exact reciprocalDivide_iff nonzero a

theorem rewrite_preserves_meaning_hundred_by_seven :
    skRunFilter smallPacket (divideFilterRewritten 100 7) (fun _ => 0) 3 =
      referenceRun smallPacket (divideFilter 100 7) (fun _ => 0) 3 := by
  apply (rewrite_preserves_meaning smallPacket (fun _ => 0) 3).1 true _ _
    (divideFilter_accepted (by decide) 100)
  intro earlier machine insn below reached fetched divides
  have onlyDivision : earlier = 1 → ReciprocalExact machine.a insn.k := by
    rintro rfl
    cases reached
    cases fetched
    decide
  interval_cases earlier
  · cases reached
    cases fetched
    cases divides
  · exact onlyDivision rfl
  · cases reached
    cases fetched
    cases divides

/-- Division by 1: the reciprocal is stored as 0, so the filter `ld #5; div #1;
ret a` is accepted and returns 0 on every packet instead of 5. -/
theorem divide_by_one_returns_zero :
    skChkFilter true (divideFilter 5 1) = .ok (0, divideFilterRewritten 5 1) ∧
      skRunFilter smallPacket (divideFilterRewritten 5 1) (fun _ => 0) 3 = .halted (.returned 0) ∧
      referenceRun smallPacket (divideFilter 5 1) (fun _ => 0) 3 = .halted (.returned 5) :=
  ⟨divideFilter_accepted (by decide) 5, rfl, rfl⟩

end RouterKernel.SocketFilter
