import RouterKernel.Foundation.SerialOrder
import RouterKernel.Translation.Setup
import RouterKernel.Translation.Checksum

/-!
Contract: the TCP sequence numbers of connections whose payload is rewritten.

Owns:
- `adjust_tcp_sequence` and the calls that lead to it when a payload is replaced;
- `nf_nat_seq_adjust` with the translation of selective acknowledgements;
- histories of replacements, and what the offsets should be after them;
- when the offsets are exact and acknowledgements translate back.
-/

namespace RouterKernel.Translation

open Foundation

/-! ## Offsets -/

/-- `struct nf_nat_seq`. -/
structure NatSeq where
  correctionPos : U32
  offsetBefore : BitVec 16
  offsetAfter : BitVec 16
deriving DecidableEq, Repr

def NatSeq.zero : NatSeq := ⟨0, 0, 0⟩

def before (seq1 seq2 : U32) : Bool := precedes seq1 seq2

def after (seq2 seq1 : U32) : Bool := before seq1 seq2

/-- `adjust_tcp_sequence`, on the record of the direction. -/
def adjustTcpSequence (seq sizediff : U32) (thisWay : NatSeq) : NatSeq :=
  -- "we don't handle more than one adjustment in the window, but do deal with
  -- common case of a retransmit"
  if thisWay.offsetBefore = thisWay.offsetAfter ∨ before thisWay.correctionPos seq = true then
    { correctionPos := seq
      offsetBefore := thisWay.offsetAfter
      offsetAfter := (thisWay.offsetAfter.signExtend 32 + sizediff).setWidth 16 }
  else thisWay

/-- `nf_nat_set_seq_adjust`, for a sequence number in network byte order. -/
def nfNatSetSeqAdjust (seq : U32) (off : BitVec 16) (thisWay : NatSeq) : NatSeq :=
  if off = 0 then thisWay else adjustTcpSequence (ntohl seq) (off.signExtend 32) thisWay

/-- What `__nf_nat_mangle_tcp_packet` does to the offsets: the difference of the
lengths is passed on as an `s16`. -/
def nfNatMangleTcpPacket (seq matchLen repLen : U32) (thisWay : NatSeq) : NatSeq :=
  if repLen ≠ matchLen then nfNatSetSeqAdjust seq ((repLen - matchLen).setWidth 16) thisWay
  else thisWay

/-- The offset of a sequence number of this direction. -/
def NatSeq.seqOffset (thisWay : NatSeq) (seq : U32) : BitVec 16 :=
  if after seq thisWay.correctionPos then thisWay.offsetAfter else thisWay.offsetBefore

/-- The offset of an acknowledgement of this direction, which comes in translated. -/
def NatSeq.ackOffset (otherWay : NatSeq) (ack : U32) : BitVec 16 :=
  if after (ack - otherWay.offsetBefore.signExtend 32) otherWay.correctionPos then
    otherWay.offsetAfter
  else otherWay.offsetBefore

/-- An acknowledgement in network byte order, translated back. -/
def NatSeq.newAck (otherWay : NatSeq) (ack : U32) : U32 :=
  htonl (ntohl ack - (otherWay.ackOffset (ntohl ack)).signExtend 32)

/-! ## Segments -/

/-- A TCP header with its options, the checksum state of its packet along with it. -/
structure Segment where
  seq : U32
  ackSeq : U32
  check : U16
  options : List U8
  ipSummed : IpSummed
  csum : U32
deriving DecidableEq, Repr

/-- `inet_proto_csum_replace4` for a word of the header. -/
def Segment.replaceWord (segment : Segment) (old new : U32) : Segment :=
  let (check, csum) :=
    inetProtoCsumReplace4 segment.ipSummed segment.check segment.csum old new false
  { segment with check, csum }

/-- The word at an address, and the bytes of a word. -/
def wordOfBytes (b0 b1 b2 b3 : U8) : U32 := b3 ++ b2 ++ b1 ++ b0

def bytesOfWord (word : U32) : List U8 :=
  [word.extractLsb' 0 8, word.extractLsb' 8 8, word.extractLsb' 16 8, word.extractLsb' 24 8]

/-- `sack_adjust`, over the blocks of one option.  The bytes come back apart from the
segment, whose checksum they change. -/
def sackAdjust (natseq : NatSeq) : List U8 → Segment → List U8 × Segment
  | b0 :: b1 :: b2 :: b3 :: e0 :: e1 :: e2 :: e3 :: rest, segment =>
    let start := wordOfBytes b0 b1 b2 b3
    let finish := wordOfBytes e0 e1 e2 e3
    let segment := (segment.replaceWord start (natseq.newAck start)).replaceWord finish
      (natseq.newAck finish)
    let (rest, segment) := sackAdjust natseq rest segment
    (bytesOfWord (natseq.newAck start) ++ bytesOfWord (natseq.newAck finish) ++ rest, segment)
  | bytes, segment => (bytes, segment)

/-- The loop of `nf_nat_sack_adjust`, with the options that are left. -/
def sackWalk (natseq : NatSeq) (options : List U8) (segment : Segment) : Bool × List U8 × Segment :=
  match options with
  | [] => (true, [], segment)
  | kind :: rest =>
    if kind.toNat = TCPOPT_EOL then (true, kind :: rest, segment)
    else if kind.toNat = TCPOPT_NOP then
      let (done, rest, segment) := sackWalk natseq rest segment
      (done, kind :: rest, segment)
    else
      match rest with
      -- no partial options
      | [] => (false, [kind], segment)
      | size :: body =>
        if body.length + 2 < size.toNat ∨ size.toNat < 2 then
          (false, kind :: size :: body, segment)
        else
          let block := body.take (size.toNat - 2)
          let (block, segment) :=
            if kind.toNat = TCPOPT_SACK ∧ 2 + TCPOLEN_SACK_PERBLOCK ≤ size.toNat ∧
                (size.toNat - 2) % TCPOLEN_SACK_PERBLOCK = 0 then
              sackAdjust natseq block segment
            else (block, segment)
          let (done, rest, segment) := sackWalk natseq (body.drop (size.toNat - 2)) segment
          (done, kind :: size :: block ++ rest, segment)
termination_by options.length
decreasing_by
  · simp
  · simp only [List.length_cons, List.length_drop]
    omega

def nfNatSackAdjust (writable : Bool) (nat : Dir → NatSeq) (dir : Dir) (segment : Segment) :
    Bool × Segment :=
  if !writable then (false, segment)
  else
    let (done, options, segment) := sackWalk (nat dir.other) segment.options segment
    (done, { segment with options })

/-- `nf_nat_seq_adjust`.  `writable` gives the results of the two calls of
`skb_make_writable`. -/
def nfNatSeqAdjust (writable : Bool × Bool) (nat : Dir → NatSeq) (dir : Dir) (segment : Segment) :
    Bool × Segment :=
  if !writable.1 then (false, segment)
  else
    let seqoff := (nat dir).seqOffset (ntohl segment.seq)
    let newseq := htonl (ntohl segment.seq + seqoff.signExtend 32)
    let newack := (nat dir.other).newAck segment.ackSeq
    let segment := (segment.replaceWord segment.seq newseq).replaceWord segment.ackSeq newack
    nfNatSackAdjust writable.2 nat dir { segment with seq := newseq, ackSeq := newack }

/-! ## Histories of replacements -/

/-- The replacement of `matchLen` bytes by `repLen` in the segment at a sequence
number, in network byte order. -/
structure Replacement where
  seq : U32
  matchLen : U32
  repLen : U32
deriving DecidableEq, Repr

def Replacement.pos (replacement : Replacement) : U32 := ntohl replacement.seq

def Replacement.sizediff (replacement : Replacement) : Int :=
  (replacement.repLen.toNat : Int) - replacement.matchLen.toNat

def NatSeq.mangle (thisWay : NatSeq) (replacement : Replacement) : NatSeq :=
  nfNatMangleTcpPacket replacement.seq replacement.matchLen replacement.repLen thisWay

def tracked (history : List Replacement) : NatSeq := history.foldl NatSeq.mangle .zero

/-- Each replacement is at a later position than the one before, or in a
retransmission of that segment. -/
def Ordered (history : List Replacement) : Prop :=
  history.IsChain fun earlier later =>
    later.pos = earlier.pos ∨ before earlier.pos later.pos = true

instance (history : List Replacement) : Decidable (Ordered history) :=
  inferInstanceAs (Decidable (List.IsChain _ history))

/-- Keep a replacement unless it is in a retransmission. -/
def keepDistinct (kept : List Replacement) (replacement : Replacement) : List Replacement :=
  if kept.getLast?.map Replacement.pos = some replacement.pos then kept else kept ++ [replacement]

def distinct (history : List Replacement) : List Replacement := history.foldl keepDistinct []

/-- The sum of the size differences, and the sum without the last. -/
def total (history : List Replacement) : Int := ((distinct history).map Replacement.sizediff).sum

def previous (history : List Replacement) : Int :=
  ((distinct history).dropLast.map Replacement.sizediff).sum

def lastPos (history : List Replacement) : U32 :=
  ((distinct history).getLast?.map Replacement.pos).getD 0

structure Exact (history : List Replacement) : Prop where
  correctionPos : (tracked history).correctionPos = lastPos history
  offsetBefore : (tracked history).offsetBefore.toInt = previous history
  offsetAfter : (tracked history).offsetAfter.toInt = total history

/-- The sum fits into an `int16_t`. -/
def Fits (history : List Replacement) : Prop := -2 ^ 15 ≤ total history ∧ total history < 2 ^ 15

/-- A sequence number that goes out in this direction comes back as the
acknowledgement of the other. -/
def RoundTrips (nat : Dir → NatSeq) (dir : Dir) (seq : U32) : Prop :=
  ∀ out back : Segment, ntohl out.seq = seq →
      back.ackSeq = (nfNatSeqAdjust (true, true) nat dir out).2.seq →
    ntohl (nfNatSeqAdjust (true, true) nat dir.other back).2.ackSeq = seq

/-! ## The offsets of a history -/

theorem distinct_append (history : List Replacement) (replacement : Replacement) :
    distinct (history ++ [replacement]) = keepDistinct (distinct history) replacement := by
  rw [distinct, List.foldl_append]
  rfl

theorem tracked_append (history : List Replacement) (replacement : Replacement) :
    tracked (history ++ [replacement]) = (tracked history).mangle replacement := by
  rw [tracked, List.foldl_append]
  rfl

theorem distinct_getLast (history : List Replacement) :
    (distinct history).getLast?.map Replacement.pos = history.getLast?.map Replacement.pos := by
  induction history using List.reverseRecOn with
  | nil => rfl
  | append_singleton history replacement _ =>
    rw [distinct_append, keepDistinct]
    split_ifs with again
    · rw [again, List.getLast?_append]
      rfl
    · simp

private theorem setWidth_signExtend (offset : BitVec 16) :
    (offset.signExtend 32).setWidth 16 = offset := by
  apply BitVec.eq_of_getLsbD_eq
  intro index inside
  have within : index < 32 := by omega
  rw [BitVec.getLsbD_setWidth, BitVec.getLsbD_signExtend]
  simp [inside, within]

theorem setWidth_lengths (replacement : Replacement) :
    (replacement.repLen - replacement.matchLen).setWidth 16 =
      BitVec.ofInt 16 replacement.sizediff := by
  apply BitVec.eq_of_toNat_eq
  rw [BitVec.toNat_setWidth, BitVec.toNat_sub, BitVec.toNat_ofInt, Replacement.sizediff]
  have second := replacement.matchLen.isLt
  omega

theorem toInt_recorded (replacement : Replacement) (offset : BitVec 16) {sum : Int}
    (value : offset.toInt + replacement.sizediff = sum) (low : -2 ^ 15 ≤ sum)
    (high : sum < 2 ^ 15) :
    ((offset.signExtend 32 + (BitVec.ofInt 16 replacement.sizediff).signExtend 32).setWidth
      16).toInt = sum := by
  rw [BitVec.setWidth_add _ _ (by decide), setWidth_signExtend, setWidth_signExtend,
    BitVec.toInt_add, BitVec.toInt_ofInt, Int.add_bmod_bmod, value]
  exact Int.bmod_eq_of_le_mul_two (by omega) (by omega)

variable {replacement : Replacement} {history : List Replacement}

theorem ofInt_sizediff_ne_zero (changes : replacement.sizediff ≠ 0)
    (low : -2 ^ 16 < replacement.sizediff)
    (high : replacement.sizediff < 2 ^ 16) :
    BitVec.ofInt 16 replacement.sizediff ≠ 0 := by
  intro zero
  have value := congrArg BitVec.toNat zero
  rw [BitVec.toNat_ofInt] at value
  change _ = 0 at value
  omega

theorem mangle_eq (thisWay : NatSeq) (changes : replacement.sizediff ≠ 0) :
    thisWay.mangle replacement =
      if BitVec.ofInt 16 replacement.sizediff = 0 then thisWay
      else adjustTcpSequence replacement.pos
        ((BitVec.ofInt 16 replacement.sizediff).signExtend 32) thisWay := by
  have different : replacement.repLen ≠ replacement.matchLen := by
    intro same
    rw [Replacement.sizediff, same, Int.sub_self] at changes
    exact changes rfl
  rw [NatSeq.mangle, nfNatMangleTcpPacket, if_pos different, nfNatSetSeqAdjust, setWidth_lengths]
  rfl

/-- A retransmission of the segment that was mangled last changes nothing, since its
offsets differ. -/
theorem mangle_retransmission {thisWay : NatSeq} (changes : replacement.sizediff ≠ 0)
    (again : thisWay.correctionPos = replacement.pos)
    (apart : thisWay.offsetBefore ≠ thisWay.offsetAfter) :
    thisWay.mangle replacement = thisWay := by
  rw [mangle_eq thisWay changes]
  split_ifs
  · rfl
  · rw [adjustTcpSequence, if_neg]
    rintro (same | later)
    · exact apart same
    · rw [again, before, not_precedes_self] at later
      cases later

theorem mangle_later {thisWay : NatSeq} {sum : Int} (changes : replacement.sizediff ≠ 0)
    (later : thisWay.offsetBefore = thisWay.offsetAfter ∨
      before thisWay.correctionPos replacement.pos = true)
    (value : thisWay.offsetAfter.toInt + replacement.sizediff = sum) (low : -2 ^ 15 ≤ sum)
    (high : sum < 2 ^ 15) :
    (thisWay.mangle replacement).correctionPos = replacement.pos ∧
      (thisWay.mangle replacement).offsetBefore = thisWay.offsetAfter ∧
      (thisWay.mangle replacement).offsetAfter.toInt = sum := by
  have above : thisWay.offsetAfter.toInt < 2 ^ 15 := BitVec.toInt_lt
  have below : -2 ^ 15 ≤ thisWay.offsetAfter.toInt := BitVec.le_toInt thisWay.offsetAfter
  have nonzero := ofInt_sizediff_ne_zero changes (by omega) (by omega)
  rw [mangle_eq thisWay changes, if_neg nonzero, adjustTcpSequence, if_pos later]
  exact ⟨rfl, rfl, toInt_recorded replacement thisWay.offsetAfter value low high⟩

/-! ## Exact offsets -/

def Apart (history : List Replacement) : Prop := history ≠ [] → previous history ≠ total history

theorem distinct_append_later
    (later : (distinct history).getLast?.map Replacement.pos ≠ some replacement.pos) :
    distinct (history ++ [replacement]) = distinct history ++ [replacement] := by
  rw [distinct_append, keepDistinct, if_neg later]

theorem Exact.append (exact : Exact history) (apart : Apart history)
    (ordered : Ordered (history ++ [replacement]))
    (changes : replacement.sizediff ≠ 0) (fits : Fits (history ++ [replacement])) :
    Exact (history ++ [replacement]) ∧ Apart (history ++ [replacement]) := by
  by_cases again : (distinct history).getLast?.map Replacement.pos = some replacement.pos
  · have same : distinct (history ++ [replacement]) = distinct history := by
      rw [distinct_append, keepDistinct, if_pos again]
    have nonempty : history ≠ [] := by
      rintro rfl
      cases again
    have pos : (tracked history).correctionPos = replacement.pos := by
      rw [exact.correctionPos, lastPos, again]
      rfl
    have offsets : (tracked history).offsetBefore ≠ (tracked history).offsetAfter := by
      intro equal
      apply apart nonempty
      rw [← exact.offsetBefore, ← exact.offsetAfter, equal]
    have kept : tracked (history ++ [replacement]) = tracked history := by
      rw [tracked_append, mangle_retransmission changes pos offsets]
    refine ⟨⟨?_, ?_, ?_⟩, fun _ => ?_⟩
    · rw [kept, lastPos, same]
      exact exact.correctionPos
    · rw [kept, previous, same]
      exact exact.offsetBefore
    · rw [kept, total, same]
      exact exact.offsetAfter
    · rw [previous, total, same]
      exact apart nonempty
  · have longer := distinct_append_later again
    have sum : total (history ++ [replacement]) = total history + replacement.sizediff := by
      rw [total, total, longer]
      simp
    have sumBefore : previous (history ++ [replacement]) = total history := by
      rw [previous, total, longer, List.dropLast_concat]
    have later : (tracked history).offsetBefore = (tracked history).offsetAfter ∨
        before (tracked history).correctionPos replacement.pos = true := by
      cases latest : history.getLast? with
      | none =>
        left
        rw [List.getLast?_eq_none_iff] at latest
        rw [latest]
        rfl
      | some last =>
        right
        have position := distinct_getLast history
        rw [latest, Option.map_some] at position
        have next := (List.isChain_append.mp ordered).2.2 last latest replacement rfl
        rw [exact.correctionPos, lastPos, position]
        rcases next with equal | next
        · rw [position, ← equal] at again
          exact absurd rfl again
        · exact next
    have value : (tracked history).offsetAfter.toInt + replacement.sizediff =
        total (history ++ [replacement]) := by
      rw [exact.offsetAfter, sum]
    obtain ⟨pos, offsetBefore, offsetAfter⟩ := mangle_later changes later value fits.1 fits.2
    refine ⟨⟨?_, ?_, ?_⟩, fun _ => ?_⟩
    · rw [tracked_append, pos, lastPos, longer, List.getLast?_concat]
      rfl
    · rw [tracked_append, offsetBefore, exact.offsetAfter, sumBefore]
    · rw [tracked_append, offsetAfter]
    · rw [sumBefore, sum]
      omega

theorem exact_of_fits (ordered : Ordered history)
    (changes : ∀ replacement ∈ history, replacement.sizediff ≠ 0)
    (fits : ∀ earlier, earlier <+: history → Fits earlier) : Exact history ∧ Apart history := by
  induction history using List.reverseRecOn with
  | nil => exact ⟨⟨rfl, rfl, rfl⟩, fun nonempty => absurd rfl nonempty⟩
  | append_singleton history replacement ih =>
    obtain ⟨exact, apart⟩ := ih (List.isChain_append.mp ordered).1
      (fun other member => changes other (List.mem_append_left _ member))
      (fun earlier within => fits earlier (within.trans (List.prefix_append _ _)))
    exact exact.append apart ordered (changes replacement (by simp)) (fits _ List.prefix_rfl)

theorem exact_iff_fits (ordered : Ordered history)
    (changes : ∀ replacement ∈ history, replacement.sizediff ≠ 0) :
    (∀ earlier, earlier <+: history → Exact earlier) ↔ ∀ earlier, earlier <+: history →
      Fits earlier := by
  constructor
  · intro exact earlier within
    have value := (exact earlier within).offsetAfter
    have above : (tracked earlier).offsetAfter.toInt < 2 ^ 15 := BitVec.toInt_lt
    have below : -2 ^ 15 ≤ (tracked earlier).offsetAfter.toInt := BitVec.le_toInt _
    rw [value] at above below
    exact ⟨below, above⟩
  · rintro fits earlier ⟨rest, rfl⟩
    have ordered := (List.isChain_append.mp ordered).1
    have changes := fun other member => changes other (List.mem_append_left rest member)
    have fits : ∀ first, first <+: earlier → Fits first := fun first within =>
      fits first (within.trans (List.prefix_append earlier rest))
    exact (exact_of_fits ordered changes fits).1

/-! ## There and back -/

theorem sackAdjust_keeps (natseq : NatSeq) (bytes : List U8) (segment : Segment) :
    (sackAdjust natseq bytes segment).2.seq = segment.seq ∧
      (sackAdjust natseq bytes segment).2.ackSeq = segment.ackSeq := by
  fun_induction sackAdjust natseq bytes segment with
  | case1 b0 b1 b2 b3 e0 e1 e2 e3 rest before start finish replaced more last adjusted
      ih =>
    rw [adjusted] at ih
    exact ih
  | case2 => exact ⟨rfl, rfl⟩

theorem sackWalk_keeps (natseq : NatSeq) (options : List U8) (segment : Segment) :
    (sackWalk natseq options segment).2.2.seq = segment.seq ∧
      (sackWalk natseq options segment).2.2.ackSeq = segment.ackSeq := by
  fun_induction sackWalk natseq options segment with
  | case1 => exact ⟨rfl, rfl⟩
  | case2 => exact ⟨rfl, rfl⟩
  | case3 =>
    rename_i walked ih
    rw [walked] at ih
    exact ih
  | case4 => exact ⟨rfl, rfl⟩
  | case5 => exact ⟨rfl, rfl⟩
  | case6 =>
    rename_i before kind _ _ size body _ block _ middle adjusted _ _ _ walked ih
    have kept : middle.seq = before.seq ∧ middle.ackSeq = before.ackSeq := by
      split_ifs at adjusted
      · have option := sackAdjust_keeps natseq block before
        rw [adjusted] at option
        exact option
      · obtain ⟨_, rfl⟩ := Prod.mk.inj adjusted
        exact ⟨rfl, rfl⟩
    rw [walked] at ih
    exact ⟨ih.1.trans kept.1, ih.2.trans kept.2⟩

theorem nfNatSeqAdjust_keeps (nat : Dir → NatSeq) (dir : Dir) (segment : Segment) :
    (nfNatSeqAdjust (true, true) nat dir segment).2.seq = htonl (ntohl segment.seq +
          ((nat dir).seqOffset (ntohl segment.seq)).signExtend 32) ∧
      (nfNatSeqAdjust (true, true) nat dir segment).2.ackSeq =
        (nat dir.other).newAck segment.ackSeq :=
  sackWalk_keeps (nat dir.other) _ _

theorem roundTrips_iff_newAck (nat : Dir → NatSeq) (dir : Dir) (seq : U32) :
    RoundTrips nat dir seq ↔
      let there := seq + ((nat dir).seqOffset seq).signExtend 32
      there - ((nat dir).ackOffset there).signExtend 32 = seq := by
  constructor
  · intro roundTrips
    let plain : Segment := ⟨htonl seq, 0, 0, [], .checksumNone, 0⟩
    have result := roundTrips plain
      { plain with ackSeq := (nfNatSeqAdjust (true, true) nat dir plain).2.seq }
      (ntohl_htonl seq) rfl
    rw [(nfNatSeqAdjust_keeps nat dir.other _).2, Dir.other_other] at result
    dsimp only at result
    rw [(nfNatSeqAdjust_keeps nat dir plain).1] at result
    simpa [NatSeq.newAck, plain] using result
  · intro value out back starts returns
    rw [(nfNatSeqAdjust_keeps nat dir.other back).2, Dir.other_other, returns,
      (nfNatSeqAdjust_keeps nat dir out).1, starts, NatSeq.newAck, ntohl_htonl, ntohl_htonl]
    exact value

/-- The offset added and the offset taken off are the same just if both numbers lie
on the same side of the correction. -/
theorem roundTrips_iff (nat : Dir → NatSeq) (dir : Dir) (seq : U32) : RoundTrips nat dir seq ↔
      (after seq (nat dir).correctionPos = true →
        after (seq + ((nat dir).offsetAfter.signExtend 32 - (nat dir).offsetBefore.signExtend 32))
          (nat dir).correctionPos = true) := by
  rw [roundTrips_iff_newAck]
  generalize nat dir = thisWay
  dsimp only
  by_cases beyond : after seq thisWay.correctionPos = true
  · have out : thisWay.seqOffset seq = thisWay.offsetAfter := if_pos beyond
    rw [out, NatSeq.ackOffset, ← add_sub_assoc]
    constructor
    · intro returns _
      by_contra short
      rw [if_neg short] at returns
      rw [returns] at short
      exact short beyond
    · intro far
      rw [if_pos (far beyond), add_sub_cancel_right]
  · have out : thisWay.seqOffset seq = thisWay.offsetBefore := if_neg beyond
    rw [out, NatSeq.ackOffset, add_sub_cancel_right, if_neg beyond, add_sub_cancel_right]
    exact ⟨fun _ far => absurd far beyond, fun _ => rfl⟩

theorem after_iff (seq pos : U32) : after seq pos = true ↔ 0 < (seq - pos).toNat ∧
    (seq - pos).toNat ≤ 2 ^ 31 :=
  precedes_iff pos seq

/-- The sequence numbers at or before the correction, and those at or after the end
of the last replaced segment, if that is not empty after it is rewritten. -/
def Settled (history : List Replacement) (len : U16) (seq : U32) : Prop :=
  after seq (tracked history).correctionPos = false ∨
      (before seq (lastPos history + len.setWidth 32) = false ∧
      1 ≤ (len.toNat : Int) + (total history - previous history))

instance (history : List Replacement) (len : U16) (seq : U32) :
    Decidable (Settled history len seq) :=
  inferInstanceAs (Decidable (_ ∨ _))

/-- A number beyond the rewritten segment stays beyond the correction unless it
leaves the half of the range that lies ahead. -/
theorem after_translated_iff (exact : Exact history) {len : U16} {seq : U32}
    (settled : Settled history len seq)
    (beyond : after seq (tracked history).correctionPos = true) :
    after (seq + ((tracked history).offsetAfter.signExtend 32 -
        (tracked history).offsetBefore.signExtend 32)) (tracked history).correctionPos = true ↔
      ((seq - (tracked history).correctionPos).toNat : Int) + (total history - previous history) ≤
        2 ^ 31 := by
  rcases settled with short | ⟨outside, nonempty⟩
  · rw [short] at beyond
    cases beyond
  rw [← exact.correctionPos] at outside
  rw [← exact.offsetBefore, ← exact.offsetAfter] at nonempty ⊢
  generalize tracked history = thisWay at *
  have shift : seq + (thisWay.offsetAfter.signExtend 32 - thisWay.offsetBefore.signExtend 32) -
      thisWay.correctionPos =
          (seq - thisWay.correctionPos) + (BitVec.ofInt 32 thisWay.offsetAfter.toInt -
          BitVec.ofInt 32 thisWay.offsetBefore.toInt) := by
    rw [BitVec.signExtend, BitVec.signExtend]
    ring
  have distance : seq - (thisWay.correctionPos + len.setWidth 32) =
      (seq - thisWay.correctionPos) - len.setWidth 32 := by ring
  rw [before, precedes, ← BitVec.msb_eq_toInt, BitVec.msb_eq_decide, decide_eq_false_iff_not,
    distance] at outside
  rw [after_iff] at beyond
  rw [after_iff, shift]
  generalize seq - thisWay.correctionPos = ahead at *
  rw [BitVec.toNat_sub, BitVec.toNat_setWidth] at outside
  rw [BitVec.toNat_add, BitVec.toNat_sub, BitVec.toNat_ofInt, BitVec.toNat_ofInt]
  have afterHigh : thisWay.offsetAfter.toInt < 2 ^ 15 := BitVec.toInt_lt
  have afterLow : -2 ^ 15 ≤ thisWay.offsetAfter.toInt := BitVec.le_toInt _
  have beforeHigh : thisWay.offsetBefore.toInt < 2 ^ 15 := BitVec.toInt_lt
  have beforeLow : -2 ^ 15 ≤ thisWay.offsetBefore.toInt := BitVec.le_toInt _
  omega

/-- The tracking is exact, and a settled sequence number translates there and back,
just if every sum fits and the number does not leave the half of the range ahead of
the last correction. -/
theorem natSeq_tracks_iff {history : List Replacement} (ordered : Ordered history)
    (changes : ∀ replacement ∈ history, replacement.sizediff ≠ 0) {nat : Dir → NatSeq} {dir : Dir}
    (records : nat dir = tracked history) {len : U16} {seq : U32}
    (settled : Settled history len seq) :
    ((∀ earlier, earlier <+: history → Exact earlier) ∧ RoundTrips nat dir seq) ↔
      (∀ earlier, earlier <+: history → Fits earlier) ∧
          (after seq (tracked history).correctionPos = true →
          ((seq - (tracked history).correctionPos).toNat : Int) +
            (total history - previous history) ≤ 2 ^ 31) := by
  rw [← exact_iff_fits ordered changes]
  apply and_congr_right
  intro exact
  rw [roundTrips_iff, records]
  exact forall_congr' fun beyond =>
    after_translated_iff (exact history List.prefix_rfl) settled beyond

/-- Two segments that are mangled, the second of them again when it is
retransmitted. -/
def portCommands : List Replacement :=
  [⟨htonl 1000, 10, 17⟩, ⟨htonl 2000, 20, 15⟩, ⟨htonl 2000, 20, 15⟩]

theorem natSeq_tracks_portCommands : ((∀ earlier, earlier <+: portCommands → Exact earlier) ∧
        RoundTrips (fun _ => tracked portCommands) .original 2100) ↔
      (∀ earlier, earlier <+: portCommands → Fits earlier) ∧
          (after 2100 (tracked portCommands).correctionPos = true →
          (((2100 : U32) - (tracked portCommands).correctionPos).toNat : Int) +
            (total portCommands - previous portCommands) ≤ 2 ^ 31) :=
  natSeq_tracks_iff (by decide) (by decide) rfl
    (show Settled portCommands 100 2100 by decide)

/-- Two replacements of ten bytes by 20010 leave an offset of -25536 instead of 40000.
With a single one of four bytes by five, the sequence number half the range ahead
comes back as the next one. -/
theorem offsets_overflow :
    let long : List Replacement := [⟨htonl 1000, 10, 20010⟩, ⟨htonl 2000, 10, 20010⟩]
    let short : List Replacement := [⟨htonl 1000, 4, 5⟩]
    (Ordered long ∧ (∀ replacement ∈ long, replacement.sizediff ≠ 0) ∧ total long = 40000 ∧
        (tracked long).offsetAfter.toInt = -25536) ∧
      Settled short 4 (1000 + 2 ^ 31) ∧ Exact short ∧
      ¬ RoundTrips (fun _ => tracked short) .original (1000 + 2 ^ 31) := by
  refine ⟨⟨by decide, by decide, by decide, by decide⟩,
    by decide, ⟨by decide, by decide, by decide⟩, ?_⟩
  rw [roundTrips_iff]
  decide

end RouterKernel.Translation
