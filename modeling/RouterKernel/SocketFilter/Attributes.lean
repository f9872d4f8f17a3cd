import RouterKernel.SocketFilter.Packet

/-!
Contract: what the two `NLATTR` loads inspect.

Owns:
- the ranges of memory that `nla_find` inspects, beside the attribute it finds;
- the packets and accumulators for which they are inside the packet.

Does not own: the attribute walk itself, which is in `SocketFilter.Packet`.
-/

namespace RouterKernel.SocketFilter

open Foundation

abbrev Extent := U32 × Nat

/-- `nla_find`, with what it inspects: the header of each attribute that `nla_ok` looks at, and the
whole of each attribute that it accepts. -/
def nlaWalk (memory : U32 → U8) (nla : U32) (remaining : Int) (attrtype : U32) :
    List Extent × Option U32 :=
  if (NLA_HDRLEN : Int) ≤ remaining then
    let header : Extent := (nla, NLA_HDRLEN)
    if _fits : nlaOk memory nla remaining = true then
      let whole : Extent := (nla, nlaLenField memory nla)
      if nlaType memory nla = attrtype.toNat then ([header, whole], some nla)
      else
        let (later, found) :=
          nlaWalk memory (nla + BitVec.ofNat 32 (nlaAlign (nlaLenField memory nla)))
          (remaining - nlaAlign (nlaLenField memory nla)) attrtype
        (header :: whole :: later, found)
    else ([header], none)
  else ([], none)
termination_by remaining.toNat
decreasing_by
  have sizes := nlaOk_iff.mp _fits
  unfold nlaAlign
  omega

/-- The walk finds what `nla_find` finds. -/
theorem nlaWalk_snd (memory : U32 → U8) (nla : U32) (remaining : Int) (attrtype : U32) :
    (nlaWalk memory nla remaining attrtype).2 = nlaFind memory nla remaining attrtype := by
  fun_induction nlaWalk memory nla remaining attrtype with
  | case1 nla remaining room header fits whole same =>
    rw [nlaFind, dif_pos fits, if_pos same]
  | case2 nla remaining room header fits whole other later found walked ih =>
    rw [walked] at ih
    rw [nlaFind, dif_pos fits, if_neg other]
    exact ih
  | case3 nla remaining room header misfit => rw [nlaFind, dif_neg misfit]
  | case4 nla remaining short =>
    have misfit : ¬nlaOk memory nla remaining = true := fun fits => short (nlaOk_iff.mp fits).1
    rw [nlaFind, dif_neg misfit]

def InPacket (skb : SkBuff) (extent : Extent) : Prop :=
  (extent.1 - skb.data).toNat + extent.2 ≤ skb.len.toNat

instance (skb : SkBuff) (extent : Extent) : Decidable (InPacket skb extent) :=
  inferInstanceAs (Decidable (_ ≤ _))

theorem inPacket_of_offset {skb : SkBuff} {address : U32} {offset size : Nat}
    (start : address = skb.data + BitVec.ofNat 32 offset) (inside : offset + size ≤ skb.len.toNat) :
    InPacket skb (address, size) := by
  have small := skb.len_int
  have cancelled : (skb.data + BitVec.ofNat 32 offset - skb.data).toNat = offset := by
    rw [BitVec.add_comm, BitVec.add_sub_cancel, BitVec.toNat_ofNat]
    omega
  unfold InPacket
  rw [start, cancelled]
  exact inside

/-- A walk whose remaining bytes are in the packet stays in the packet. -/
theorem nlaWalk_inPacket {skb : SkBuff} (attrtype : U32) (nla : U32) (remaining : Int)
    (offset : Nat)
    (start : nla = skb.data + BitVec.ofNat 32 offset)
    (inside : offset + remaining ≤ skb.len.toNat) :
    ∀ extent ∈ (nlaWalk skb.memory nla remaining attrtype).1, InPacket skb extent := by
  fun_induction nlaWalk skb.memory nla remaining attrtype generalizing offset with
  | case1 nla remaining room header fits whole same =>
    have sizes := nlaOk_iff.mp fits
    have headerWithin : InPacket skb header :=
      inPacket_of_offset start (by change offset + 4 ≤ _; omega)
    have wholeWithin : InPacket skb whole := inPacket_of_offset start (by omega)
    simp only [List.mem_cons, List.not_mem_nil, or_false, forall_eq_or_imp, forall_eq]
    exact ⟨headerWithin, wholeWithin⟩
  | case2 nla remaining room header fits whole other later found walked ih =>
    have sizes := nlaOk_iff.mp fits
    have headerWithin : InPacket skb header :=
      inPacket_of_offset start (by change offset + 4 ≤ _; omega)
    have wholeWithin : InPacket skb whole := inPacket_of_offset start (by omega)
    simp only [List.mem_cons, forall_eq_or_imp]
    refine ⟨headerWithin, wholeWithin, ?_⟩
    have rest := ih (offset + nlaAlign (nlaLenField skb.memory nla)) ?_ ?_
    · rw [walked] at rest
      exact rest
    · rw [start, BitVec.ofNat_add, BitVec.add_assoc]
    · push_cast
      omega
  | case3 nla remaining room header misfit =>
    have room : (4 : Int) ≤ remaining := room
    have headerWithin : InPacket skb header :=
      inPacket_of_offset start (by change offset + 4 ≤ _; omega)
    simpa using headerWithin
  | case4 nla remaining short => simp

/-! ## The two loads -/

/-- What `BPF_S_ANC_NLATTR` inspects if its guard lets it enter the scan. -/
def ancNlattrInspects (skb : SkBuff) (a x : U32) : List Extent :=
  if (ancNlattr skb a x).isSome then (nlaWalk skb.memory (skb.data + a) (skb.len - a).toInt x).1
  else []

/-- What `BPF_S_ANC_NLATTR_NEST` inspects: behind the guard that the two loads share the length
field of the attribute, then the attribute and those nested in it. -/
def ancNlattrNestInspects (skb : SkBuff) (a x : U32) : List Extent :=
  if (ancNlattr skb a x).isSome then
    (skb.data + a, NLA_HDRLEN) :: if (ancNlattrNest skb a x).isSome then
        (skb.data + a, nlaLenField skb.memory (skb.data + a)) ::
          (nlaWalk skb.memory (skb.data + a + BitVec.ofNat 32 NLA_HDRLEN)
            ((nlaLenField skb.memory (skb.data + a) : Int) - NLA_HDRLEN) x).1
      else []
  else []

/-- The plain load inspects the packet only, and enters its scan only at a header in the packet. -/
structure PlainInside (skb : SkBuff) (a x : U32) : Prop where
  inspects : ∀ extent ∈ ancNlattrInspects skb a x, InPacket skb extent
  header : (ancNlattr skb a x).isSome → a.toNat + 4 ≤ skb.len.toNat

/-- The nested load inspects the packet only, and enters its scan only at an attribute in the
packet. -/
structure NestedInside (skb : SkBuff) (a x : U32) : Prop where
  inspects : ∀ extent ∈ ancNlattrNestInspects skb a x, InPacket skb extent
  content : (ancNlattrNest skb a x).isSome →
    a.toNat + 4 ≤ skb.len.toNat ∧ a.toNat + nlaLenField skb.memory (skb.data + a) ≤ skb.len.toNat

theorem nlaLenField_lt (memory : U32 → U8) (nla : U32) : nlaLenField memory nla < 65536 := by
  unfold nlaLenField readU16
  have low := (memory nla).isLt
  have high := (memory (nla + 1)).isLt
  omega

/-- The packets and accumulators for which `A > skb->len - sizeof(struct nlattr)` is meant: the
packet has room for a header, or the accumulator is even above what the difference wraps to. -/
def Guarded (skb : SkBuff) (a : U32) : Prop :=
  4 ≤ skb.len.toNat ∨ 2 ^ 32 + skb.len.toNat < a.toNat + 4

theorem refused_iff (skb : SkBuff) (a : U32) :
    skb.len - BitVec.ofNat 32 NLA_HDRLEN < a ↔ Guarded skb a ∧ ¬a.toNat + 4 ≤ skb.len.toNat := by
  have small := skb.len_int
  have wrapped :
      (skb.len - BitVec.ofNat 32 NLA_HDRLEN).toNat = (2 ^ 32 - 4 + skb.len.toNat) % 2 ^ 32 :=
    BitVec.toNat_sub ..
  rw [BitVec.lt_def, wrapped, Guarded]
  omega

theorem ancNlattr_isSome_of_nest {skb : SkBuff} {a x : U32}
    (nested : (ancNlattrNest skb a x).isSome) :
    (ancNlattr skb a x).isSome := by
  unfold ancNlattrNest at nested
  unfold ancNlattr
  split_ifs at nested ⊢ <;> simp_all

section Loads

variable {skb : SkBuff} (linear : skb.isNonlinear = false) (a x : U32)

include linear

/-- The guard lets an accumulator pass that has room for a header, and in a short packet nearly
all. -/
theorem ancNlattr_isSome_iff :
    (ancNlattr skb a x).isSome ↔ (Guarded skb a → a.toNat + 4 ≤ skb.len.toNat) := by
  rw [ancNlattr, if_neg (by rw [linear]; exact Bool.false_ne_true)]
  by_cases refused : skb.len - BitVec.ofNat 32 NLA_HDRLEN < a
  · have := (refused_iff skb a).mp refused
    simp [refused, this]
  · have := mt (refused_iff skb a).mpr refused
    simp [refused]
    tauto

/-- The second guard of the nested load lets every accumulator pass that has room for a header. -/
theorem ancNlattrNest_isSome (room : a.toNat + 4 ≤ skb.len.toNat) :
    (ancNlattrNest skb a x).isSome := by
  have small := skb.len_int
  have short := nlaLenField_lt skb.memory (skb.data + a)
  have first : ¬skb.len - BitVec.ofNat 32 NLA_HDRLEN < a :=
    fun refused => ((refused_iff skb a).mp refused).2 room
  have second : ¬(a - skb.len).toNat < nlaLenField skb.memory (skb.data + a) := by
    have : (a - skb.len).toNat = 2 ^ 32 - skb.len.toNat + a.toNat := by
      rw [BitVec.toNat_sub]
      omega
    omega
  rw [ancNlattrNest, if_neg (by rw [linear]; exact Bool.false_ne_true), if_neg first, if_neg second]
  rfl

theorem plainInside_iff : PlainInside skb a x ↔ Guarded skb a := by
  have small := skb.len_int
  have position : skb.data + a = skb.data + BitVec.ofNat 32 a.toNat := by
    rw [BitVec.ofNat_toNat, BitVec.setWidth_eq]
  constructor
  · intro inside
    by_contra unguarded
    have header :=
      inside.header ((ancNlattr_isSome_iff linear a x).mpr fun guarded => absurd guarded unguarded)
    exact unguarded (Or.inl (by omega))
  · intro guarded
    have entered : (ancNlattr skb a x).isSome → a.toNat + 4 ≤ skb.len.toNat := fun scanned =>
      (ancNlattr_isSome_iff linear a x).mp scanned guarded
    refine ⟨?_, entered⟩
    unfold ancNlattrInspects
    split_ifs with scanned
    · have room := entered scanned
      apply nlaWalk_inPacket x _ _ a.toNat position
      have rest : (skb.len - a).toInt = skb.len.toNat - a.toNat := by
        rw [BitVec.toInt_eq_toNat_cond, BitVec.toNat_sub]
        omega
      omega
    · simp

theorem nestedInside_iff : NestedInside skb a x ↔ Guarded skb a ∧
    (a.toNat + 4 ≤ skb.len.toNat → nlaLenField skb.memory (skb.data + a) ≤
      skb.len.toNat - a.toNat) := by
  have small := skb.len_int
  have position : skb.data + a = skb.data + BitVec.ofNat 32 a.toNat := by
    rw [BitVec.ofNat_toNat, BitVec.setWidth_eq]
  constructor
  · intro inside
    refine ⟨?_, fun room => ?_⟩
    · by_contra unguarded
      have header := inside.inspects (skb.data + a, NLA_HDRLEN) (by
        rw [ancNlattrNestInspects,
          if_pos ((ancNlattr_isSome_iff linear a x).mpr fun guarded => absurd guarded unguarded)]
        exact List.mem_cons_self)
      have : (skb.data + a - skb.data).toNat + 4 ≤ skb.len.toNat := header
      exact unguarded (Or.inl (by omega))
    · have content := (inside.content (ancNlattrNest_isSome linear a x room)).2
      omega
  · rintro ⟨guarded, claimed⟩
    have content : (ancNlattr skb a x).isSome → a.toNat + 4 ≤ skb.len.toNat ∧
        a.toNat + nlaLenField skb.memory (skb.data + a) ≤ skb.len.toNat := by
      intro scanned
      have room := (ancNlattr_isSome_iff linear a x).mp scanned guarded
      have := claimed room
      omega
    refine ⟨?_, fun scanned => content (ancNlattr_isSome_of_nest scanned)⟩
    unfold ancNlattrNestInspects
    split_ifs with scanned nested
    · obtain ⟨header, whole⟩ := content scanned
      simp only [List.mem_cons, forall_eq_or_imp]
      refine ⟨inPacket_of_offset position header, inPacket_of_offset position whole, ?_⟩
      apply nlaWalk_inPacket x _ _ (a.toNat + 4)
      · rw [BitVec.ofNat_add, ← BitVec.add_assoc, ← position]
        rfl
      · change ((a.toNat + 4 : Nat) : Int) +
          ((nlaLenField skb.memory (skb.data + a) : Int) - (4 : Nat)) ≤ _
        omega
    · rintro extent member
      rw [List.mem_singleton.mp member]
      exact inPacket_of_offset position (content scanned).1
    · simp

/-- On a linear packet the plain load inspects only the packet exactly if the guard is as it is
meant; the nested load needs also that the attribute does not claim more than the rest of the
packet. -/
theorem inspectsInside_iff : (PlainInside skb a x ↔ Guarded skb a) ∧
    (NestedInside skb a x ↔ Guarded skb a ∧
      (a.toNat + 4 ≤ skb.len.toNat → nlaLenField skb.memory (skb.data + a) ≤
        skb.len.toNat - a.toNat)) :=
  ⟨plainInside_iff linear a x, nestedInside_iff linear a x⟩

end Loads

def attributePacket : SkBuff :=
  { smallPacket with memory := fun address => if address = 0x1000 then 4 else 0 }

theorem inspectsInside_iff_attribute : PlainInside attributePacket 0 1 ∧
    NestedInside attributePacket 0 1 :=
  have inside := inspectsInside_iff (show attributePacket.isNonlinear = false from rfl) 0 1
  ⟨inside.1.mpr (Or.inl (by decide)), inside.2.mpr ⟨Or.inl (by decide), by decide⟩⟩

/-- The nested load scans the 69 bytes that an attribute in a packet of four bytes claims to have;
and with an empty packet the guard lets every accumulator up to 2^32 - 4 pass. -/
theorem nested_scan_leaves_packet : smallPacket.isNonlinear = false ∧
      ((0x1000, 69) : Extent) ∈ ancNlattrNestInspects smallPacket 0 1 ∧
        ¬InPacket smallPacket (0x1000, 69) ∧
      ¬({ smallPacket with len := 0, dataLen_le := by decide, len_int := by decide } : SkBuff).len -
        BitVec.ofNat 32 NLA_HDRLEN < 0xFFFFFFFC := by
  refine ⟨rfl, ?_, by decide, by decide⟩
  have nested :=
    ancNlattrNest_isSome (show smallPacket.isNonlinear = false from rfl) 0 1 (by decide)
  rw [ancNlattrNestInspects, if_pos (ancNlattr_isSome_of_nest nested), if_pos nested]
  exact List.mem_cons_of_mem _ List.mem_cons_self

end RouterKernel.SocketFilter
