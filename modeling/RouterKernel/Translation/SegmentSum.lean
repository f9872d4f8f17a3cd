import RouterKernel.Foundation.ByteGrid
import RouterKernel.Translation.Sequence

/-!
Contract: the TCP checksum of segments whose numbers are adjusted.

Owns:
- a whole TCP packet and the validity of its checksum;
- what `sack_adjust` changes in the sum of the options and in the checksum;
- the segments whose checksum stays valid under `nf_nat_seq_adjust`.

Does not own: the adjusted numbers themselves, which are in `Translation.Sequence`.
-/

namespace RouterKernel.Translation

open Foundation

/-! ## Packets -/

/-- A TCP packet: the part of the header that is adjusted, and the rest.  The word `flags` has
`doff` in its bits 4 to 7, and the options are the bytes of the header that it counts behind the
first twenty. -/
structure TcpPacket where
  segment : Segment
  saddr : U32
  daddr : U32
  ports : U32
  flags : U32
  urgPtr : U16
  payload : List U8
  doff : 4 * (flags.extractLsb' 4 4).toNat = 20 + segment.options.length

/-- What the checksum covers besides the pseudo header. -/
def TcpPacket.words (packet : TcpPacket) : List U32 :=
  [packet.ports, packet.segment.seq, packet.segment.ackSeq, packet.flags,
      packet.urgPtr ++ packet.segment.check] ++
    wordsOf packet.segment.options ++ wordsOf packet.payload

def TcpPacket.len (packet : TcpPacket) : U16 :=
  BitVec.ofNat 16 (20 + packet.segment.options.length + packet.payload.length)

def tcpProto : U16 := IPPROTO_TCP.setWidth 16

def TcpPacket.Valid (packet : TcpPacket) : Prop :=
  csumTcpudpMagic packet.saddr packet.daddr packet.len tcpProto (csumPartial packet.words 0) = 0

instance (packet : TcpPacket) : Decidable packet.Valid := inferInstanceAs (Decidable (_ = _))

/-- The sum of what `nf_nat_seq_adjust` does not touch. -/
def TcpPacket.fixedSum (packet : TcpPacket) : ZMod 65535 :=
  residue packet.daddr + residue packet.saddr + residue (packet.len.setWidth 32 <<< 8) +
    residue ((htons tcpProto).setWidth 32) + residue packet.ports + residue packet.flags +
    residue packet.urgPtr + gridSum false packet.payload

def Segment.sum (segment : Segment) : ZMod 65535 :=
  residue segment.seq + residue segment.ackSeq + residue segment.check +
    gridSum false segment.options

theorem TcpPacket.valid_iff (packet : TcpPacket) :
    packet.Valid ↔ packet.fixedSum + packet.segment.sum = 0 := by
  have nonzero : ¬(csumPartial packet.words 0 = 0 ∧
      ∀ word ∈ [packet.daddr, packet.saddr, packet.len.setWidth 32 <<< 8,
        (htons tcpProto).setWidth 32], word = 0) := by
    rintro ⟨-, zeros⟩
    exact absurd (zeros ((htons tcpProto).setWidth 32) (by simp)) (by decide)
  unfold TcpPacket.Valid csumTcpudpMagic csumTcpudpNofold
  rw [csumFold_csumPartial_eq_zero_iff, and_iff_right nonzero, residue_csumPartial]
  unfold TcpPacket.words TcpPacket.fixedSum Segment.sum
  simp only [List.map_append, List.map_cons, List.map_nil, List.sum_append, List.sum_cons,
      List.sum_nil, sum_wordsOf,
    residue_append, residue_zero]
  refine iff_of_eq (congrArg (· = 0) ?_)
  ring

/-! ## Selective acknowledgements -/

/-- What the offset of a SACK edge counts for in the sum: `- offset`, with the carry of the edge if
it goes below 0 or beyond `2 ^ 32`, and with the bytes in network order. -/
def edgeShift (natseq : NatSeq) (edge : U32) : ZMod 65535 :=
  let offset := (natseq.ackOffset (ntohl edge)).toInt
  ((256 * -(offset + ((ntohl edge).toNat - offset) / 2 ^ 32) : Int) : ZMod 65535)

/-- The edges of the blocks of one SACK option. -/
def sackChange (natseq : NatSeq) : List U8 → ZMod 65535
  | b0 :: b1 :: b2 :: b3 :: e0 :: e1 :: e2 :: e3 :: rest =>
    edgeShift natseq (wordOfBytes b0 b1 b2 b3) + edgeShift natseq (wordOfBytes e0 e1 e2 e3) +
      sackChange natseq rest
  | _ => 0

def optionChange (natseq : NatSeq) (kind size : U8) (block : List U8) : ZMod 65535 :=
  if kind.toNat = TCPOPT_SACK ∧ 2 + TCPOLEN_SACK_PERBLOCK ≤ size.toNat ∧
      (size.toNat - 2) % TCPOLEN_SACK_PERBLOCK = 0 then sackChange natseq block
  else 0

/-- The edges of all SACK options, weighted by the place the option is at. -/
def sackShift (natseq : NatSeq) (weight : Bool → ZMod 65535) (odd : Bool) (options : List U8) :
    ZMod 65535 :=
  match options with
  | [] => 0
  | kind :: rest =>
    if kind.toNat = TCPOPT_EOL then 0
    else if kind.toNat = TCPOPT_NOP then sackShift natseq weight (!odd) rest
    else
      match rest with
      | [] => 0
      | size :: body =>
        if body.length + 2 < size.toNat ∨ size.toNat < 2 then 0
        else
          weight odd * optionChange natseq kind size (body.take (size.toNat - 2)) +
            sackShift natseq weight (placeAfter odd size.toNat) (body.drop (size.toNat - 2))
termination_by options.length
decreasing_by
  · simp
  · simp only [List.length_cons, List.length_drop]
    omega

section Shift

variable {natseq : NatSeq} {weight : Bool → ZMod 65535} {odd : Bool} {kind size : U8}
  {body : List U8}

theorem sackShift_eol (eol : kind.toNat = TCPOPT_EOL) :
    sackShift natseq weight odd (kind :: body) = 0 := by
  rw [sackShift.eq_def]
  exact if_pos eol

theorem sackShift_nop (notEol : kind.toNat ≠ TCPOPT_EOL) (nop : kind.toNat = TCPOPT_NOP) :
    sackShift natseq weight odd (kind :: body) = sackShift natseq weight (!odd) body := by
  rw [sackShift.eq_def]
  exact (if_neg notEol).trans (if_pos nop)

theorem sackShift_single (notEol : kind.toNat ≠ TCPOPT_EOL) (notNop : kind.toNat ≠ TCPOPT_NOP) :
    sackShift natseq weight odd [kind] = 0 := by
  rw [sackShift.eq_def]
  exact (if_neg notEol).trans (if_neg notNop)

theorem sackShift_cut (notEol : kind.toNat ≠ TCPOPT_EOL) (notNop : kind.toNat ≠ TCPOPT_NOP)
    (cut : body.length + 2 < size.toNat ∨ size.toNat < 2) :
    sackShift natseq weight odd (kind :: size :: body) = 0 := by
  rw [sackShift.eq_def]
  exact (if_neg notEol).trans ((if_neg notNop).trans (if_pos cut))

theorem sackShift_option (notEol : kind.toNat ≠ TCPOPT_EOL) (notNop : kind.toNat ≠ TCPOPT_NOP)
    (whole : ¬(body.length + 2 < size.toNat ∨ size.toNat < 2)) :
    sackShift natseq weight odd (kind :: size :: body) =
      weight odd * optionChange natseq kind size (body.take (size.toNat - 2)) +
        sackShift natseq weight (placeAfter odd size.toNat) (body.drop (size.toNat - 2)) := by
  rw [sackShift.eq_def]
  exact (if_neg notEol).trans ((if_neg notNop).trans (if_neg whole))

theorem sackShift_sub (natseq : NatSeq) (first second : Bool → ZMod 65535) (odd : Bool)
    (options : List U8) :
    sackShift natseq first odd options - sackShift natseq second odd options =
      sackShift natseq (fun odd => first odd - second odd) odd options := by
  fun_induction sackShift natseq first odd options with
  | case1 odd => rw [sackShift, sackShift, sub_zero]
  | case2 odd kind rest eol => rw [sackShift_eol eol, sackShift_eol eol, sub_zero]
  | case3 odd kind rest notEol nop ih =>
    rw [sackShift_nop notEol nop, sackShift_nop notEol nop]
    exact ih
  | case4 odd kind notEol notNop =>
    rw [sackShift_single notEol notNop, sackShift_single notEol notNop, sub_zero]
  | case5 odd kind notEol notNop size body cut =>
    rw [sackShift_cut notEol notNop cut, sackShift_cut notEol notNop cut, sub_zero]
  | case6 odd kind notEol notNop size body whole ih =>
    rw [sackShift_option notEol notNop whole, sackShift_option notEol notNop whole, ← ih]
    ring

end Shift

theorem bytesOfWord_append (word : U32) :
    word.extractLsb' 24 8 ++ word.extractLsb' 16 8 ++ word.extractLsb' 8 8 ++ word.extractLsb' 0 8 =
      word := by
  have small := word.isLt
  apply BitVec.eq_of_toNat_eq
  rw [toNat_append_eq, toNat_append_eq, toNat_append_eq]
  simp only [BitVec.extractLsb'_toNat, Nat.shiftRight_eq_div_pow]
  omega

theorem residue_ntohl (word : U32) : residue (ntohl word) = 256 * residue word := by
  have twice : (256 * 256 : ZMod 65535) = 1 := rfl
  rw [← bytesOfWord_append word, ntohl_append, residue_word, residue_word]
  simp only [gridSum, gridWeight, Bool.not_true, Bool.not_false, if_true, Bool.false_eq_true,
    if_false]
  linear_combination (-residue (word.extractLsb' 8 8) - residue (word.extractLsb' 24 8)) * twice

theorem toNat_sub_signExtend (number : U32) (offset : BitVec 16) :
    ((number - offset.signExtend 32).toNat : Int) =
      number.toNat - offset.toInt - 2 ^ 32 * ((number.toNat - offset.toInt) / 2 ^ 32) := by
  have small := number.isLt
  have extended : (offset.signExtend 32).toNat = (offset.toInt % (2 ^ 32 : Nat)).toNat :=
    BitVec.toNat_ofInt _
  have low : -(2 ^ 15) ≤ offset.toInt := offset.le_toInt
  have high : offset.toInt < 2 ^ 15 := offset.toInt_lt
  rw [BitVec.toNat_sub, extended]
  omega

theorem residue_newAck (natseq : NatSeq) (edge : U32) :
    residue (natseq.newAck edge) = residue edge + edgeShift natseq edge := by
  have wire : residue edge = 256 * residue (ntohl edge) := by
    have twice : (256 * 256 : ZMod 65535) = 1 := rfl
    rw [residue_ntohl, ← mul_assoc, twice, one_mul]
  have carry : (((2 ^ 32 : Int)) : ZMod 65535) = 1 := rfl
  have cast := congrArg (Int.cast : Int → ZMod 65535)
    (toNat_sub_signExtend (ntohl edge) (natseq.ackOffset (ntohl edge)))
  rw [Int.cast_sub, Int.cast_sub, Int.cast_mul, carry, one_mul, Int.cast_natCast, Int.cast_natCast]
    at cast
  have order : ((256 : Int) : ZMod 65535) = 256 := rfl
  rw [NatSeq.newAck, htonl, residue_ntohl, wire, residue, residue, cast, edgeShift, Int.cast_mul,
    order, Int.cast_neg, Int.cast_add]
  ring

theorem sackChange_short {natseq : NatSeq} {bytes : List U8}
    (short : ∀ (b0 b1 b2 b3 e0 e1 e2 e3 : U8) (rest : List U8),
      bytes = b0 :: b1 :: b2 :: b3 :: e0 :: e1 :: e2 :: e3 :: rest → False) :
        sackChange natseq bytes = 0 := by
  unfold sackChange
  split
  · exact absurd rfl (fun same => short _ _ _ _ _ _ _ _ _ same)
  · rfl

section Adjust

variable (natseq : NatSeq)

theorem gridSum_bytesOfWord (odd : Bool) (word : U32) :
    gridSum odd (bytesOfWord word) = gridWeight odd * residue word := by
  rw [bytesOfWord, gridSum_word, bytesOfWord_append]

theorem sackAdjust_length (bytes : List U8) (segment : Segment) :
    (sackAdjust natseq bytes segment).1.length = bytes.length := by
  fun_induction sackAdjust natseq bytes segment with
  | case1 b0 b1 b2 b3 e0 e1 e2 e3 rest before start finish replaced more last adjusted ih =>
    rw [adjusted] at ih
    simp [bytesOfWord, ih]
  | case2 => rfl

theorem sackAdjust_gridSum (odd : Bool) (bytes : List U8) (segment : Segment) :
    gridSum odd (sackAdjust natseq bytes segment).1 =
      gridSum odd bytes + gridWeight odd * sackChange natseq bytes := by
  fun_induction sackAdjust natseq bytes segment with
  | case1 b0 b1 b2 b3 e0 e1 e2 e3 rest before start finish replaced more last adjusted ih =>
    rw [adjusted] at ih
    change gridSum odd (bytesOfWord (natseq.newAck start) ++ bytesOfWord (natseq.newAck finish) ++
        more) =
      gridSum odd ([b0, b1, b2, b3] ++ ([e0, e1, e2, e3] ++ rest)) + gridWeight odd *
        (edgeShift natseq start + edgeShift natseq finish + sackChange natseq rest)
    have whole (word : U32) : (bytesOfWord word).length % 2 = 0 := by simp [bytesOfWord]
    have four (c0 c1 c2 c3 : U8) : [c0, c1, c2, c3].length % 2 = 0 := by simp
    rw [List.append_assoc, gridSum_append_even odd _ (whole _), gridSum_append_even odd _ (whole _),
      gridSum_append_even odd _ (four b0 b1 b2 b3), gridSum_append_even odd _ (four e0 e1 e2 e3),
      gridSum_bytesOfWord, gridSum_bytesOfWord, residue_newAck, residue_newAck, gridSum_word,
        gridSum_word, ih]
    change _ = gridWeight odd * residue start +
      (gridWeight odd * residue finish + gridSum odd rest) + _
    ring
  | case2 bytes before short => rw [sackChange_short short, mul_zero, add_zero]

variable {segment : Segment}

theorem Segment.residue_replaceWord (full : segment.ipSummed ≠ .checksumPartial) (old new : U32) :
    residue (segment.replaceWord old new).check =
      residue segment.check - (residue new - residue old) := by
  have replaced : residue (segment.replaceWord old new).check =
      residue segment.check + residue old - residue new :=
    residue_replace4_fst full
  rw [replaced]
  ring

theorem sackAdjust_check (bytes : List U8) (segment : Segment)
    (full : segment.ipSummed ≠ .checksumPartial) :
    residue (sackAdjust natseq bytes segment).2.check =
        residue segment.check - sackChange natseq bytes ∧
      (sackAdjust natseq bytes segment).2.ipSummed = segment.ipSummed := by
  fun_induction sackAdjust natseq bytes segment with
  | case1 b0 b1 b2 b3 e0 e1 e2 e3 rest before start finish replaced more last adjusted ih =>
    have later := ih full
    rw [adjusted] at later
    refine ⟨?_, later.2⟩
    change residue last.check = residue before.check -
        (edgeShift natseq start + edgeShift natseq finish + sackChange natseq rest)
    have first : residue (before.replaceWord start (natseq.newAck start)).check = _ :=
      Segment.residue_replaceWord full start (natseq.newAck start)
    have second : residue replaced.check =
        residue (before.replaceWord start (natseq.newAck start)).check -
          (residue (natseq.newAck finish) - residue finish) :=
      @Segment.residue_replaceWord (before.replaceWord start (natseq.newAck start)) full finish _
    rw [later.1, second, first, residue_newAck, residue_newAck]
    ring
  | case2 bytes before short => exact ⟨by rw [sackChange_short short, sub_zero], rfl⟩

theorem adjusted_option_length {kind size : U8} {block newBlock : List U8} {middle : Segment}
    (adjusted : (if _ : kind.toNat = TCPOPT_SACK ∧ 2 + TCPOLEN_SACK_PERBLOCK ≤ size.toNat ∧
      (size.toNat - 2) % TCPOLEN_SACK_PERBLOCK = 0 then sackAdjust natseq block segment
      else (block, segment)) = (newBlock, middle)) : newBlock.length = block.length := by
  split_ifs at adjusted
  · have lengths := sackAdjust_length natseq block segment
    rw [adjusted] at lengths
    exact lengths
  · obtain ⟨rfl, rfl⟩ := Prod.mk.inj adjusted
    rfl

theorem sackWalk_length (options : List U8) (segment : Segment) :
    (sackWalk natseq options segment).2.1.length = options.length := by
  fun_induction sackWalk natseq options segment with
  | case1 segment => rfl
  | case2 segment kind rest eol => rfl
  | case3 segment kind rest notEol nop done walkedRest last walked ih =>
    rw [walked] at ih
    exact congrArg (· + 1) ih
  | case4 segment kind notEol notNop => rfl
  | case5 segment kind notEol notNop size body cut => rfl
  | case6 segment kind notEol notNop size body whole block newBlock middle adjusted done walkedRest
      last walked
      ih =>
    have lengths := adjusted_option_length natseq adjusted
    rw [walked] at ih
    simp only [List.length_cons, List.length_append, List.length_drop] at ih ⊢
    rw [lengths, List.length_take]
    omega

/-- What the walk does to one option and to the checksum. -/
theorem adjusted_option_sums (odd : Bool) {kind size : U8} {block newBlock : List U8}
    {middle : Segment}
    (full : segment.ipSummed ≠ .checksumPartial)
    (adjusted : (if _ : kind.toNat = TCPOPT_SACK ∧ 2 + TCPOLEN_SACK_PERBLOCK ≤ size.toNat ∧
      (size.toNat - 2) % TCPOLEN_SACK_PERBLOCK = 0 then sackAdjust natseq block segment
      else (block, segment)) = (newBlock, middle)) :
    middle.ipSummed = segment.ipSummed ∧
      gridSum odd newBlock =
        gridSum odd block + gridWeight odd * optionChange natseq kind size block ∧
      residue middle.check = residue segment.check - 1 * optionChange natseq kind size block := by
  unfold optionChange
  by_cases sack : kind.toNat = TCPOPT_SACK ∧ 2 + TCPOLEN_SACK_PERBLOCK ≤ size.toNat ∧
      (size.toNat - 2) % TCPOLEN_SACK_PERBLOCK = 0
  · rw [dif_pos sack] at adjusted
    have sums := sackAdjust_gridSum natseq odd block segment
    have checks := sackAdjust_check natseq block segment full
    rw [adjusted] at sums checks
    rw [if_pos sack, one_mul]
    exact ⟨checks.2, sums, checks.1⟩
  · rw [dif_neg sack] at adjusted
    obtain ⟨rfl, rfl⟩ := Prod.mk.inj adjusted
    rw [if_neg sack, mul_zero, mul_zero, add_zero, sub_zero]
    exact ⟨rfl, rfl, rfl⟩

/-- What the walk over the options does to them and to the checksum. -/
theorem sackWalk_sums (odd : Bool) (options : List U8) (segment : Segment)
    (full : segment.ipSummed ≠ .checksumPartial) :
    gridSum odd (sackWalk natseq options segment).2.1 =
        gridSum odd options + sackShift natseq gridWeight odd options ∧
      residue (sackWalk natseq options segment).2.2.check =
        residue segment.check - sackShift natseq (fun _ => 1) odd options := by
  fun_induction sackWalk natseq options segment generalizing odd with
  | case1 segment => exact ⟨by rw [sackShift, add_zero], by rw [sackShift, sub_zero]⟩
  | case2 segment kind rest eol =>
    exact ⟨by rw [sackShift_eol eol, add_zero], by rw [sackShift_eol eol, sub_zero]⟩
  | case3 segment kind rest notEol nop done walkedRest last walked ih =>
    have later := ih (!odd) full
    rw [walked] at later
    refine ⟨?_, ?_⟩
    · change gridWeight odd * _ + gridSum (!odd) walkedRest =
        gridWeight odd * _ + gridSum (!odd) rest + _
      rw [later.1, sackShift_nop notEol nop, add_assoc]
    · rw [sackShift_nop notEol nop]
      exact later.2
  | case4 segment kind notEol notNop =>
    rw [sackShift_single notEol notNop, sackShift_single notEol notNop, add_zero, sub_zero]
    exact ⟨rfl, rfl⟩
  | case5 segment kind notEol notNop size body cut =>
    rw [sackShift_cut notEol notNop cut, sackShift_cut notEol notNop cut, add_zero, sub_zero]
    exact ⟨rfl, rfl⟩
  | case6 segment kind notEol notNop size body whole block newBlock middle adjusted done walkedRest
      last walked
      ih =>
    have blockSize : block.length = size.toNat - 2 := by
      rw [List.length_take]
      omega
    have lengths := adjusted_option_length natseq adjusted
    obtain ⟨summed, sums, checks⟩ := adjusted_option_sums natseq odd full adjusted
    obtain ⟨restSums, restChecks⟩ :=
      ih (placeAfter odd size.toNat) (summed ▸ full)
    rw [walked] at restSums restChecks
    have split : body = block ++ body.drop (size.toNat - 2) := (List.take_append_drop _ body).symm
    have place : placeAfter odd block.length = placeAfter odd size.toNat := by
      rw [blockSize]
      unfold placeAfter
      congr 2
      apply propext
      omega
    refine ⟨?_, ?_⟩
    · have old : gridSum odd (kind :: size :: body) =
          gridWeight odd * residue kind + (gridWeight (!odd) * residue size +
            (gridSum odd block + gridSum (placeAfter odd size.toNat)
              (body.drop (size.toNat - 2)))) := by
        rw [gridSum, gridSum, Bool.not_not, ← place, ← gridSum_append, ← split]
      rw [old, sackShift_option notEol notNop whole]
      simp only [List.cons_append, gridSum, Bool.not_not]
      rw [gridSum_append, lengths, place, sums, restSums]
      ring
    · rw [sackShift_option notEol notNop whole, restChecks, checks]
      ring

end Adjust

/-! ## Whole packets -/

/-- The segment of `nf_nat_seq_adjust` when it turns to the options. -/
def Segment.renumber (nat : Dir → NatSeq) (dir : Dir) (segment : Segment) : Segment :=
  let newseq := htonl (ntohl segment.seq + ((nat dir).seqOffset (ntohl segment.seq)).signExtend 32)
  let newack := (nat dir.other).newAck segment.ackSeq
  { (segment.replaceWord segment.seq newseq).replaceWord segment.ackSeq newack with
    seq := newseq, ackSeq := newack }

/-- `nf_nat_seq_adjust`, with what becomes of the checksum.  If the second `skb_make_writable` moves
the header, `tcph` stays behind: what `sack_adjust` writes to `tcph->check` is not in the packet. -/
def nfNatSeqAdjustAt (moved : Bool) (writable : Bool × Bool) (nat : Dir → NatSeq) (dir : Dir)
    (segment : Segment) :
    Bool × Segment :=
  let (done, adjusted) := nfNatSeqAdjust writable nat dir segment
  (done, if moved then { adjusted with check := (segment.renumber nat dir).check } else adjusted)

section Packet

variable {nat : Dir → NatSeq} {dir : Dir} {writable : Bool × Bool} (moved : Bool)

variable {segment : Segment}

theorem nfNatSeqAdjust_done (done : (nfNatSeqAdjust writable nat dir segment).1 = true) :
    nfNatSeqAdjust writable nat dir segment =
      nfNatSackAdjust true nat dir (segment.renumber nat dir) := by
  unfold nfNatSeqAdjust at done ⊢
  cases first : writable.1 with
  | false => simp [first] at done
  | true =>
    cases second : writable.2 with
    | false => simp [first, second, nfNatSackAdjust] at done
    | true => rfl

theorem nfNatSackAdjust_length (makes : Bool) (segment : Segment) :
    (nfNatSackAdjust makes nat dir segment).2.options.length = segment.options.length := by
  cases makes with
  | false => rfl
  | true => exact sackWalk_length (nat dir.other) segment.options segment

theorem nfNatSeqAdjustAt_length (segment : Segment) :
    (nfNatSeqAdjustAt moved writable nat dir segment).2.options.length =
      segment.options.length := by
  have adjusted : (nfNatSeqAdjust writable nat dir segment).2.options.length =
      segment.options.length := by
    unfold nfNatSeqAdjust
    split
    · rfl
    · exact nfNatSackAdjust_length writable.2 _
  cases moved with
  | false => exact adjusted
  | true => exact adjusted

theorem Segment.renumber_sum (full : segment.ipSummed ≠ .checksumPartial) :
    (segment.renumber nat dir).sum = segment.sum := by
  have first := Segment.residue_replaceWord full segment.seq (segment.renumber nat dir).seq
  have second := @Segment.residue_replaceWord
      (segment.replaceWord segment.seq (segment.renumber nat dir).seq) full
    segment.ackSeq (segment.renumber nat dir).ackSeq
  have check : residue (segment.renumber nat dir).check = _ := second
  have options : (segment.renumber nat dir).options = segment.options := rfl
  rw [Segment.sum, Segment.sum, check, first, options]
  ring

theorem nfNatSeqAdjustAt_sum (full : segment.ipSummed ≠ .checksumPartial)
    (done : (nfNatSeqAdjustAt moved writable nat dir segment).1 = true) :
    (nfNatSeqAdjustAt moved writable nat dir segment).2.sum =
      segment.sum + sackShift (nat dir.other) (fun odd => gridWeight odd - if moved then 0
          else 1) false
        segment.options := by
  have adjusted : nfNatSeqAdjust writable nat dir segment = _ := nfNatSeqAdjust_done done
  have numbers := sackWalk_keeps (nat dir.other) segment.options (segment.renumber nat dir)
  obtain ⟨options, check⟩ :=
    sackWalk_sums (nat dir.other) false segment.options (segment.renumber nat dir) full
  have renumbered := @Segment.renumber_sum nat dir segment full
  -- the sum before the checksum takes its share of the changes
  have words : residue (nfNatSackAdjust true nat dir (segment.renumber nat dir)).2.seq +
      residue (nfNatSackAdjust true nat dir (segment.renumber nat dir)).2.ackSeq +
      residue (segment.renumber nat dir).check +
      gridSum false (nfNatSackAdjust true nat dir (segment.renumber nat dir)).2.options =
        segment.sum + sackShift (nat dir.other) gridWeight false segment.options := by
    have seq : (nfNatSackAdjust true nat dir (segment.renumber nat dir)).2.seq = _ := numbers.1
    have ackSeq : (nfNatSackAdjust true nat dir (segment.renumber nat dir)).2.ackSeq = _ :=
      numbers.2
    have shifted : gridSum false
      (nfNatSackAdjust true nat dir (segment.renumber nat dir)).2.options = _ := options
    rw [seq, ackSeq, shifted, ← renumbered]
    change _ = residue (segment.renumber nat dir).seq + residue (segment.renumber nat dir).ackSeq +
      residue (segment.renumber nat dir).check + gridSum false segment.options + _
    ring
  rw [← sackShift_sub, ← add_sub_assoc, ← words]
  unfold nfNatSeqAdjustAt
  rw [adjusted]
  cases moved with
  | false =>
    have share : residue (nfNatSackAdjust true nat dir (segment.renumber nat dir)).2.check = _ :=
      check
    change (nfNatSackAdjust true nat dir (segment.renumber nat dir)).2.sum = _
    rw [Segment.sum, share]
    simp only [Bool.false_eq_true, if_false]
    ring
  | true =>
    have none := sackShift_sub (nat dir.other) (fun _ => 1) (fun _ => 1) false segment.options
    simp only [sub_self] at none
    simp only [if_true]
    rw [← none, sub_zero]
    rfl

end Packet

/-- A packet after `nf_nat_seq_adjust`. -/
def TcpPacket.seqAdjusted (packet : TcpPacket) (moved : Bool) (writable : Bool × Bool)
    (nat : Dir → NatSeq)
    (dir : Dir) : TcpPacket :=
  { packet with
    segment := (nfNatSeqAdjustAt moved writable nat dir packet.segment).2
    doff := by
      rw [nfNatSeqAdjustAt_length]
      exact packet.doff }

theorem TcpPacket.seqAdjusted_sum {packet : TcpPacket}
    (full : packet.segment.ipSummed ≠ .checksumPartial)
    {moved : Bool} {writable : Bool × Bool} {nat : Dir → NatSeq} {dir : Dir}
    (done : (nfNatSeqAdjustAt moved writable nat dir packet.segment).1 = true) :
    (packet.seqAdjusted moved writable nat dir).fixedSum +
    (packet.seqAdjusted moved writable nat dir).segment.sum =
      packet.fixedSum + packet.segment.sum +
        sackShift (nat dir.other) (fun odd => gridWeight odd - if moved then 0 else 1) false
          packet.segment.options := by
  have len : (packet.seqAdjusted moved writable nat dir).len = packet.len := by
    unfold TcpPacket.len TcpPacket.seqAdjusted
    dsimp only
    rw [nfNatSeqAdjustAt_length]
  have fixed : (packet.seqAdjusted moved writable nat dir).fixedSum = packet.fixedSum := by
    unfold TcpPacket.fixedSum
    rw [len]
    rfl
  have sum : (packet.seqAdjusted moved writable nat dir).segment.sum = _ :=
    nfNatSeqAdjustAt_sum moved full done
  rw [fixed, sum, add_assoc]

def oneAhead : Dir → NatSeq := fun _ => ⟨0, 1, 1⟩

/-- An empty segment with one SACK block, whose option is at an even place. -/
def evenSack : TcpPacket where
  segment := ⟨0, 0, 0xC379, [1, 1, 5, 10, 0, 0, 0, 5, 0, 0, 0, 6], .checksumNone, 0⟩
  saddr := 0
  daddr := 0
  ports := 0
  flags := 0x80
  urgPtr := 0
  payload := []
  doff := by decide

def oddSack : TcpPacket :=
  { evenSack with
    segment := ⟨0, 0, 0xD469, [1, 5, 10, 0, 0, 0, 5, 0, 0, 0, 6, 0], .checksumNone, 0⟩
    doff := by decide }

theorem evenSack_done :
    (nfNatSeqAdjustAt false (true, true) oneAhead .original evenSack.segment).1 = true := by
  have walked (segment : Segment) :
      (sackWalk (oneAhead .reply) [1, 1, 5, 10, 0, 0, 0, 5, 0, 0, 0, 6] segment).1 = true := by
    simp [sackWalk, TCPOPT_EOL, TCPOPT_NOP]
  exact walked _

theorem oddSack_done : (nfNatSeqAdjustAt false (true, true) oneAhead .original oddSack.segment).1 =
    true := by
  have walked (segment : Segment) :
      (sackWalk (oneAhead .reply) [1, 5, 10, 0, 0, 0, 5, 0, 0, 0, 6, 0] segment).1 = true := by
    simp [sackWalk, TCPOPT_EOL, TCPOPT_NOP]
  exact walked _

end RouterKernel.Translation
