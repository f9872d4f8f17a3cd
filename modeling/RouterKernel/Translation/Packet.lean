import RouterKernel.Translation.Checksum
import RouterKernel.Translation.Setup

/-!
Contract: `nf_nat_packet`, which rewrites the packets of a connection.

Owns:
- packets with their IP header, their TCP or UDP segment and their checksum state;
- when the checksums of a packet are valid;
- `manip_pkt` with the functions of the two protocols;
- that both directions of a connection are translated into each other.

Does not own: how the tuples of a connection are chosen.
-/

namespace RouterKernel.Translation

open Foundation

/-! ## Packets -/

/-- `struct iphdr` without the protocol, which the segment tells. -/
structure IpHeader where
  first : U32
  second : U32
  ttl : U8
  check : U16
  saddr : U32
  daddr : U32
  options : List U32
  version : first.extractLsb' 4 4 = 4

/-- A TCP or UDP segment, as words in the order of memory.  A TCP header can be cut
off behind its first eight bytes. -/
inductive Transport where
  | tcp (source dest : U16) (seq ackSeq flags : U32) (check urgPtr : U16) (rest : List U32)
  | tcpFront (source dest : U16) (seq : U32) (rest : List U32)
  | udp (source dest len check : U16) (rest : List U32)

def Transport.protonum : Transport → U8
  | .tcp .. => IPPROTO_TCP
  | .tcpFront .. => IPPROTO_TCP
  | .udp .. => IPPROTO_UDP

def Transport.port : Transport → ManipType → U16
  | .tcp source dest .., maniptype => match maniptype with | .src => source | .dst => dest
  | .tcpFront source dest .., maniptype => match maniptype with | .src => source | .dst => dest
  | .udp source dest .., maniptype => match maniptype with | .src => source | .dst => dest

/-- `*portptr = newport`. -/
def Transport.setPort : Transport → ManipType → U16 → Transport
  | .tcp source dest seq ackSeq flags check urgPtr rest, maniptype, port =>
    match maniptype with
    | .src => .tcp port dest seq ackSeq flags check urgPtr rest
    | .dst => .tcp source port seq ackSeq flags check urgPtr rest
  | .tcpFront source dest seq rest, maniptype, port =>
    match maniptype with
    | .src => .tcpFront port dest seq rest
    | .dst => .tcpFront source port seq rest
  | .udp source dest len check rest, maniptype, port =>
    match maniptype with
    | .src => .udp port dest len check rest
    | .dst => .udp source port len check rest

def Transport.words : Transport → List U32
  | .tcp source dest seq ackSeq flags check urgPtr rest =>
    [dest ++ source, seq, ackSeq, flags, urgPtr ++ check] ++ rest
  | .tcpFront source dest seq rest => [dest ++ source, seq] ++ rest
  | .udp source dest len check rest => [dest ++ source, check ++ len] ++ rest

/-- The segment without what NAT rewrites. -/
def Transport.frozen : Transport → Transport
  | .tcp _ _ seq ackSeq flags _ urgPtr rest => .tcp 0 0 seq ackSeq flags 0 urgPtr rest
  | .tcpFront _ _ seq rest => .tcpFront 0 0 seq rest
  | .udp _ _ len _ rest => .udp 0 0 len 0 rest

/-- `struct sk_buff`.  `len` is the length of the segment. -/
structure Packet where
  ip : IpHeader
  transport : Transport
  len : U16
  ipSummed : IpSummed
  csum : U32

/-- Everything that NAT is not to change. -/
def Packet.frozen (packet : Packet) : Packet :=
  { packet with
    ip := { packet.ip with check := 0, saddr := 0, daddr := 0 }
    transport := packet.transport.frozen
    csum := 0 }

def Packet.half (packet : Packet) : ManipType → Endpoint
  | .src => ⟨packet.ip.saddr, packet.transport.port .src⟩
  | .dst => ⟨packet.ip.daddr, packet.transport.port .dst⟩

/-- `nf_ct_get_tuple`. -/
def Packet.tuple (packet : Packet) : Tuple where
  src := packet.half .src
  dst := packet.half .dst
  protonum := packet.transport.protonum
  dir := .original

/-! ## Valid checksums -/

def IpHeader.words (ip : IpHeader) (protocol : U8) : List U32 :=
  [ip.first, ip.second, ip.check ++ (protocol ++ ip.ttl), ip.saddr, ip.daddr] ++ ip.options

def Packet.ipValid (packet : Packet) : Prop :=
  ipFastCsum (packet.ip.words packet.transport.protonum) = 0

/-- The checksum of a segment.  The device finishes a sum that is left to it and
begins with the pseudo header; a sum that the device took must verify as well. -/
def ChecksumValid (packet : Packet) (check : U16) : Prop :=
  let magic := csumTcpudpMagic packet.ip.saddr packet.ip.daddr packet.len
    (packet.transport.protonum.setWidth 16)
  match packet.ipSummed with
  | .checksumPartial => check = ~~~magic 0
  | .checksumComplete => magic (csumPartial packet.transport.words 0) = 0 ∧ magic packet.csum = 0
  | _ => magic (csumPartial packet.transport.words 0) = 0

/-- A UDP checksum of zero stands for none. -/
def Packet.transportValid (packet : Packet) : Prop :=
  match packet.transport with
  | .tcp _ _ _ _ _ check _ _ => ChecksumValid packet check
  | .tcpFront .. => True
  | .udp _ _ _ check _ =>
    (packet.ipSummed ≠ .checksumPartial ∧ check = 0) ∨ ChecksumValid packet check

/-! ## Rewriting -/

/-- The two updates that `tcp_manip_pkt` and `udp_manip_pkt` make. -/
def replaceChecksums (ipSummed : IpSummed) (check : U16) (csum : U32) (old new : Endpoint) :
    U16 × U32 :=
  let (check, csum) := inetProtoCsumReplace4 ipSummed check csum old.ip new.ip true
  inetProtoCsumReplace2 ipSummed check csum old.all new.all false

/-- `tcp_manip_pkt` or `udp_manip_pkt`: a packet of the connection has the
connection's protocol. -/
def protoManipPkt (writable : Bool) (packet : Packet) (target : Tuple) (maniptype : ManipType) :
    Option Packet :=
  let old := packet.half maniptype
  let new := target.half maniptype
  if !writable then none
  else
    match packet.transport with
    | .tcp source dest seq ackSeq flags check urgPtr rest =>
      let (check, csum) := replaceChecksums packet.ipSummed check packet.csum old new
      some { packet with
        transport := (Transport.tcp source dest seq ackSeq flags check urgPtr rest).setPort
          maniptype new.all
        csum }
    | .tcpFront source dest seq rest =>
      some { packet with
        transport := (Transport.tcpFront source dest seq rest).setPort maniptype new.all }
    | .udp source dest len check rest =>
      let (check, csum) :=
        if check ≠ 0 ∨ packet.ipSummed = .checksumPartial then
          let (check, csum) := replaceChecksums packet.ipSummed check packet.csum old new
          (if check = 0 then CSUM_MANGLED_0 else check, csum)
        else (check, packet.csum)
      some { packet with
        transport := (Transport.udp source dest len check rest).setPort maniptype new.all
        csum }

/-- The end of `manip_pkt`. -/
def IpHeader.setAddress (ip : IpHeader) (maniptype : ManipType) (address : U32) : IpHeader :=
  match maniptype with
  | .src => { ip with check := csumReplace4 ip.check ip.saddr address, saddr := address }
  | .dst => { ip with check := csumReplace4 ip.check ip.daddr address, daddr := address }

/-- `manip_pkt`.  `writable` gives the results of the two calls of
`skb_make_writable`. -/
def manipPkt (writable : Bool × Bool) (packet : Packet) (target : Tuple) (maniptype : ManipType) :
    Option Packet :=
  if !writable.1 then none
  else
    match protoManipPkt writable.2 packet target maniptype with
    | none => none
    | some packet =>
      some { packet with ip := packet.ip.setAddress maniptype (target.half maniptype).ip }

/-- The hooks of `enum nf_inet_hooks`. -/
inductive Hook where
  | preRouting
  | localIn
  | forward
  | localOut
  | postRouting
deriving DecidableEq, Repr

def hook2Manip : Hook → ManipType
  | .postRouting => .src
  | .localIn => .src
  | _ => .dst

inductive Verdict where
  | accept
  | drop
deriving DecidableEq, Repr

/-- The status bit for a manipulation: "invert if this is reply dir". -/
def statusbit (dir : Dir) (mtype : ManipType) : U32 :=
  if dir = .reply then natBit mtype ^^^ IPS_NAT_MASK else natBit mtype

def nfNatPacket (writable : Bool × Bool) (ct : Conn) (dir : Dir) (hooknum : Hook)
    (packet : Packet) : Verdict × Packet :=
  let mtype := hook2Manip hooknum
  if ct.status &&& statusbit dir mtype ≠ 0 then
    -- We are aiming to look like inverse of other direction.
    match manipPkt writable packet (nfCtInvertTuple (ct.tuple dir.other)) mtype with
    | none => (.drop, packet)
    | some packet => (.accept, packet)
  else (.accept, packet)

/-! ## Checksums of rewritten packets -/

theorem Packet.ipValid_iff (packet : Packet) :
    packet.ipValid ↔ residue packet.ip.first + residue packet.ip.second +
        residue (packet.transport.protonum ++ packet.ip.ttl) +
        (packet.ip.options.map residue).sum +
        (residue packet.ip.check + residue packet.ip.saddr + residue packet.ip.daddr) = 0 := by
  have nonzero : packet.ip.first ≠ 0 := by
    intro zero
    have version := packet.ip.version
    rw [zero] at version
    cases version
  rw [Packet.ipValid, ipFastCsum, csumFold_csumPartial_eq_zero_iff]
  have notAll : ¬ ((0 : U32) = 0 ∧ ∀ word ∈ packet.ip.words packet.transport.protonum,
      word = 0) := by
    rintro ⟨_, all⟩
    exact nonzero (all _ List.mem_cons_self)
  have halves : residue (packet.ip.check ++ (packet.transport.protonum ++ packet.ip.ttl)) =
      residue packet.ip.check + residue (packet.transport.protonum ++ packet.ip.ttl) :=
    residue_append _ _
  rw [and_iff_right notAll]
  simp only [IpHeader.words, List.map_append, List.map_cons, List.map_nil, List.sum_append,
    List.sum_cons, List.sum_nil, residue_zero, halves]
  apply Eq.congr_left
  ring

variable {len proto check result : U16} {saddr daddr : U32} {old new : Endpoint}
  {before after : Packet}
  {writable : Bool × Bool} {ct : Conn} {dir : Dir}

/-- The pseudo header has a protocol. -/
theorem csumTcpudpMagic_eq_zero_iff {sum : U32} (nonzero : (htons proto).setWidth 32 ≠ (0 : U32)) :
    csumTcpudpMagic saddr daddr len proto sum = 0 ↔
      residue sum + (residue saddr + residue daddr) + (residue (len.setWidth 32 <<< 8 : U32) +
        residue ((htons proto).setWidth 32)) = 0 := by
  rw [csumTcpudpMagic, csumTcpudpNofold, csumFold_csumPartial_eq_zero_iff]
  have notAll : ¬ (sum = 0 ∧
      ∀ word ∈ [daddr, saddr, len.setWidth 32 <<< 8, (htons proto).setWidth 32], word = 0) := by
    rintro ⟨_, all⟩
    exact nonzero (all _ (by simp))
  rw [and_iff_right notAll]
  simp only [List.map_cons, List.map_nil, List.sum_cons, List.sum_nil]
  apply Eq.congr_left
  ring

theorem Transport.proto_ne_zero (transport : Transport) :
    (htons (transport.protonum.setWidth 16)).setWidth 32 ≠ (0 : U32) := by
  cases transport <;>
  · simp only [Transport.protonum]
    decide

theorem replaceChecksums_fst {ipSummed : IpSummed} {csum : U32}
    (full : ipSummed ≠ .checksumPartial) :
    residue (replaceChecksums ipSummed check csum old new).1 =
      residue check + residue old.ip - residue new.ip + residue old.all - residue new.all := by
  dsimp only [replaceChecksums, inetProtoCsumReplace2]
  rw [residue_replace4_fst full, residue_replace4_fst full, residue_setWidth, residue_setWidth]

theorem replaceChecksums_snd {csum : U32} :
    residue (replaceChecksums .checksumComplete check csum old new).2 =
      residue csum + residue old.ip - residue new.ip := by
  dsimp only [replaceChecksums, inetProtoCsumReplace2]
  rw [replace4_snd_of_not_pseudohdr]
  exact residue_replace4_snd rfl

theorem replaceChecksums_unfinished {csum : U32} :
    (replaceChecksums .checksumPartial check csum old new).1 =
      (inetProtoCsumReplace4 .checksumPartial check csum old.ip new.ip true).1 := rfl

/-- A packet in which one endpoint has been replaced, and the checksum fields with
it. -/
structure Replaced (old new : Endpoint) (before after : Packet) (check result : U16) : Prop where
  protonum : after.transport.protonum = before.transport.protonum
  ipSummed : after.ipSummed = before.ipSummed
  len : after.len = before.len
  addresses : residue after.ip.saddr + residue after.ip.daddr =
    residue before.ip.saddr + residue before.ip.daddr - residue old.ip + residue new.ip
  words : (after.transport.words.map residue).sum = (before.transport.words.map residue).sum -
    residue old.all + residue new.all - residue check + residue result
  csum : after.csum = (replaceChecksums before.ipSummed check before.csum old new).2
  value : residue result = residue (replaceChecksums before.ipSummed check before.csum old new).1
  unfinished : before.ipSummed = .checksumPartial →
    result = (replaceChecksums before.ipSummed check before.csum old new).1

theorem Replaced.segment (replaced : Replaced old new before after check result)
    (full : before.ipSummed ≠ .checksumPartial)
    (valid : csumTcpudpMagic before.ip.saddr before.ip.daddr before.len
      (before.transport.protonum.setWidth 16) (csumPartial before.transport.words 0) = 0) :
    csumTcpudpMagic after.ip.saddr after.ip.daddr after.len
      (after.transport.protonum.setWidth 16) (csumPartial after.transport.words 0) = 0 := by
  have updated := replaced.value
  rw [replaceChecksums_fst full] at updated
  rw [csumTcpudpMagic_eq_zero_iff before.transport.proto_ne_zero, residue_csumPartial] at valid
  rw [csumTcpudpMagic_eq_zero_iff after.transport.proto_ne_zero, residue_csumPartial,
    replaced.addresses, replaced.words, updated, replaced.protonum, replaced.len, ← valid]
  ring

theorem Replaced.hardware (replaced : Replaced old new before after check result)
    (complete : before.ipSummed = .checksumComplete)
    (valid : csumTcpudpMagic before.ip.saddr before.ip.daddr before.len
      (before.transport.protonum.setWidth 16) before.csum = 0) :
    csumTcpudpMagic after.ip.saddr after.ip.daddr after.len
      (after.transport.protonum.setWidth 16) after.csum = 0 := by
  rw [csumTcpudpMagic_eq_zero_iff before.transport.proto_ne_zero] at valid
  rw [csumTcpudpMagic_eq_zero_iff after.transport.proto_ne_zero, replaced.addresses, replaced.csum,
    complete, replaceChecksums_snd, replaced.protonum, replaced.len, ← valid]
  ring

theorem not_csumTcpudpMagic_ne_zero (nonzero : (htons proto).setWidth 32 ≠ (0 : U32)) :
    ~~~csumTcpudpMagic saddr daddr len proto 0 ≠ 0 := by
  rw [csumTcpudpMagic, csumTcpudpNofold, csumFold_eq, BitVec.not_not, ne_eq,
    foldHalves_eq_zero_iff, csumPartial_eq_onesSum, onesSum_eq_zero_iff]
  rintro ⟨_, all⟩
  exact nonzero (all _ (by simp))

theorem residue_not_csumTcpudpMagic : residue (~~~csumTcpudpMagic saddr daddr len proto 0) =
      residue saddr + residue daddr + (residue (len.setWidth 32 <<< 8 : U32) +
        residue ((htons proto).setWidth 32 : U32)) := by
  rw [residue_not16, csumTcpudpMagic, residue_csumFold, csumTcpudpNofold, residue_csumPartial]
  simp only [List.map_cons, List.map_nil, List.sum_cons, List.sum_nil, residue_zero]
  ring

theorem Replaced.pseudoHeader (replaced : Replaced old new before after check result)
    (left : before.ipSummed = .checksumPartial)
    (valid : check = ~~~csumTcpudpMagic before.ip.saddr before.ip.daddr before.len
      (before.transport.protonum.setWidth 16) 0) :
    result = ~~~csumTcpudpMagic after.ip.saddr after.ip.daddr after.len
      (after.transport.protonum.setWidth 16) 0 := by
  have nonzero : check ≠ 0 := by
    rw [valid]
    exact not_csumTcpudpMagic_ne_zero before.transport.proto_ne_zero
  have same := replaced.unfinished left
  rw [left, replaceChecksums_unfinished] at same
  apply eq_of_residue_eq
  · rw [same]
    exact replace4_unfinished_ne_zero nonzero
  · exact not_csumTcpudpMagic_ne_zero after.transport.proto_ne_zero
  · rw [same, residue_replace4_unfinished, residue_not_csumTcpudpMagic, replaced.addresses,
      replaced.protonum, replaced.len, valid, residue_not_csumTcpudpMagic]
    ring

theorem Replaced.valid (replaced : Replaced old new before after check result)
    (valid : ChecksumValid before check) : ChecksumValid after result := by
  unfold ChecksumValid at valid ⊢
  rw [replaced.ipSummed]
  cases summed : before.ipSummed with
  | checksumNone | checksumUnnecessary =>
    rw [summed] at valid
    exact replaced.segment (by rw [summed]; decide) valid
  | checksumComplete =>
    rw [summed] at valid
    exact ⟨replaced.segment (by rw [summed]; decide) valid.1, replaced.hardware summed valid.2⟩
  | checksumPartial =>
    rw [summed] at valid
    exact replaced.pseudoHeader summed valid

/-! ## What `manip_pkt` does -/

/-- One half of the packet is the target's, nothing else has changed, and valid
checksums are still valid. -/
structure Rewritten (target : Tuple) (maniptype : ManipType) (before after : Packet) : Prop where
  here : after.half maniptype = target.half maniptype
  there : ∀ other, other ≠ maniptype → after.half other = before.half other
  protonum : after.transport.protonum = before.transport.protonum
  frozen : after.frozen = before.frozen
  ipValid : before.ipValid → after.ipValid
  transportValid : before.transportValid → after.transportValid

def IpHeader.address (ip : IpHeader) : ManipType → U32
  | .src => ip.saddr
  | .dst => ip.daddr

theorem IpHeader.residue_setAddress (ip : IpHeader) (maniptype : ManipType) (address : U32) :
    residue (ip.setAddress maniptype address).saddr + residue
        (ip.setAddress maniptype address).daddr =
      residue ip.saddr + residue ip.daddr - residue (ip.address maniptype) + residue address := by
  cases maniptype <;>
  · dsimp only [IpHeader.setAddress, IpHeader.address]
    ring

theorem IpHeader.residue_check_setAddress (ip : IpHeader) (maniptype : ManipType) (address : U32) :
    residue (ip.setAddress maniptype address).check =
      residue ip.check + residue (ip.address maniptype) - residue address := by
  cases maniptype <;> exact residue_csumReplace4 _ _ _

theorem Packet.ipValid_of_setAddress {packet : Packet} {maniptype : ManipType} {address : U32}
    (header : after.ip = packet.ip.setAddress maniptype address)
    (protonum : after.transport.protonum = packet.transport.protonum) (valid : packet.ipValid) :
    after.ipValid := by
  have first : after.ip.first = packet.ip.first := by
    rw [header]
    cases maniptype <;> rfl
  have second : after.ip.second = packet.ip.second := by
    rw [header]
    cases maniptype <;> rfl
  have ttl : after.ip.ttl = packet.ip.ttl := by
    rw [header]
    cases maniptype <;> rfl
  have options : after.ip.options = packet.ip.options := by
    rw [header]
    cases maniptype <;> rfl
  rw [Packet.ipValid_iff] at valid ⊢
  rw [first, second, ttl, options, protonum, add_assoc (residue after.ip.check), header,
    IpHeader.residue_check_setAddress, IpHeader.residue_setAddress, ← valid]
  ring

theorem Transport.residue_setPort (transport : Transport) (maniptype : ManipType) (port : U16) :
    ((transport.setPort maniptype port).words.map residue).sum =
      (transport.words.map residue).sum - residue (transport.port maniptype) + residue port := by
  cases transport <;> cases maniptype <;>
  · dsimp only [Transport.setPort, Transport.words, Transport.port]
    simp only [List.cons_append, List.map_cons, List.sum_cons, residue_append]
    ring

/-- The packet that `manip_pkt` returns, for a segment with a new checksum. -/
def Packet.withHalf (packet : Packet) (transport : Transport) (csum : U32) (half : Endpoint)
    (maniptype : ManipType) : Packet :=
  { packet with
    ip := packet.ip.setAddress maniptype half.ip
    transport := transport.setPort maniptype half.all
    csum }

section WithHalf

variable {packet : Packet} {transport : Transport} {csum : U32} {half : Endpoint}
  {maniptype : ManipType}

theorem Packet.protonum_withHalf (protonum : transport.protonum = packet.transport.protonum) :
    (packet.withHalf transport csum half maniptype).transport.protonum =
      packet.transport.protonum := by
  rw [← protonum]
  cases transport <;> cases maniptype <;> rfl

theorem Packet.half_withHalf : (packet.withHalf transport csum half maniptype).half maniptype =
    half := by
  cases transport <;> cases maniptype <;> rfl

theorem Packet.half_withHalf_of_ne {other : ManipType} (different : other ≠ maniptype)
    (ports : transport.port = packet.transport.port) :
    (packet.withHalf transport csum half maniptype).half other = packet.half other := by
  have port : (transport.setPort maniptype half.all).port other = packet.transport.port other := by
    rw [← ports]
    cases transport <;> cases maniptype <;> cases other <;> first | rfl | exact absurd rfl different
  cases maniptype <;> cases other <;> first | exact absurd rfl different |
    exact congrArg (Endpoint.mk _) port

theorem Packet.frozen_withHalf (same : transport.frozen = packet.transport.frozen) :
    (packet.withHalf transport csum half maniptype).frozen = packet.frozen := by
  have segment : (transport.setPort maniptype half.all).frozen = packet.transport.frozen := by
    rw [← same]
    cases transport <;> cases maniptype <;> rfl
  unfold Packet.frozen Packet.withHalf
  dsimp only
  rw [segment]
  cases maniptype <;> rfl

variable {old : Transport} (segment : packet.transport = old)
  (protonum : transport.protonum = old.protonum)
  (ports : transport.port = old.port)

include segment protonum ports

theorem Packet.withHalf_rewritten {target : Tuple} (same : transport.frozen = old.frozen)
    (valid : packet.transportValid →
      (packet.withHalf transport csum (target.half maniptype) maniptype).transportValid) :
    Rewritten target maniptype packet
      (packet.withHalf transport csum (target.half maniptype) maniptype) := by
  subst segment
  exact {
    here := Packet.half_withHalf
    there := fun _ different => Packet.half_withHalf_of_ne different ports
    protonum := Packet.protonum_withHalf protonum
    frozen := Packet.frozen_withHalf same
    ipValid := Packet.ipValid_of_setAddress rfl (Packet.protonum_withHalf protonum)
    transportValid := valid }

theorem Packet.withHalf_replaced
    (words : (transport.words.map residue).sum = (old.words.map residue).sum - residue check +
      residue result)
    (value : residue result =
      residue (replaceChecksums packet.ipSummed check packet.csum (packet.half maniptype) half).1)
    (unfinished : packet.ipSummed = .checksumPartial →
      result = (replaceChecksums packet.ipSummed check packet.csum
        (packet.half maniptype) half).1) :
    Replaced (packet.half maniptype) half packet
      (packet.withHalf transport
        (replaceChecksums packet.ipSummed check packet.csum (packet.half maniptype) half).2 half
        maniptype)
      check result where
  protonum := Packet.protonum_withHalf (segment ▸ protonum)
  ipSummed := rfl
  len := rfl
  addresses := by
    have address : (packet.half maniptype).ip = packet.ip.address maniptype := by
      cases maniptype <;> rfl
    rw [address]
    exact IpHeader.residue_setAddress packet.ip maniptype half.ip
  words := by
    have port : (packet.half maniptype).all = transport.port maniptype := by
      rw [ports, ← segment]
      cases maniptype <;> rfl
    rw [port, Packet.withHalf, Transport.residue_setPort, words, segment]
    ring
  csum := rfl
  value := value
  unfinished := unfinished

end WithHalf

/-- A UDP checksum that comes out as zero is sent as all ones, which is the same
class; the sum over a pseudo header never comes out as zero. -/
theorem residue_mangled (check : U16) : residue (if check = 0 then CSUM_MANGLED_0 else check) =
    residue check := by
  split_ifs with zero
  · rw [zero]
    decide
  · rfl

theorem udp_transportValid {packet : Packet} {source dest : U16} {rest : List U32} (half : Endpoint)
    (maniptype : ManipType) (segment : packet.transport = .udp source dest len check rest)
    (summed : check ≠ 0 ∨ packet.ipSummed = .checksumPartial) (valid : packet.transportValid) :
    let sums := replaceChecksums packet.ipSummed check packet.csum (packet.half maniptype) half
    let result := if sums.1 = 0 then CSUM_MANGLED_0 else sums.1
    (packet.withHalf (.udp source dest len result rest) sums.2 half maniptype).transportValid := by
  intro sums result
  have before : ChecksumValid packet check := by
    rw [Packet.transportValid, segment] at valid
    rcases valid with ⟨full, none⟩ | valid
    · exact absurd summed (not_or.mpr ⟨not_not.mpr none, full⟩)
    · exact valid
  have replaced : Replaced (packet.half maniptype) half packet
      (packet.withHalf (.udp source dest len result rest) sums.2 half maniptype) check result := by
    refine Packet.withHalf_replaced segment rfl rfl ?_ ?_ ?_
    · simp only [Transport.words, List.cons_append, List.map_cons, List.sum_cons, residue_append]
      ring
    · exact residue_mangled _
    · intro left
      apply if_neg
      have nonzero : check ≠ 0 := by
        rw [ChecksumValid, left] at before
        rw [before]
        exact not_csumTcpudpMagic_ne_zero packet.transport.proto_ne_zero
      dsimp only [sums]
      rw [left, replaceChecksums_unfinished]
      exact replace4_unfinished_ne_zero nonzero
  have after := replaced.valid before
  cases maniptype <;> exact Or.inr after

theorem tcp_transportValid {packet : Packet} {source dest : U16} {seq ackSeq flags : U32}
    {urgPtr : U16}
    {rest : List U32} (half : Endpoint) (maniptype : ManipType)
    (segment : packet.transport = .tcp source dest seq ackSeq flags check urgPtr rest)
    (valid : packet.transportValid) :
    let sums := replaceChecksums packet.ipSummed check packet.csum (packet.half maniptype) half
    (packet.withHalf (.tcp source dest seq ackSeq flags sums.1 urgPtr rest) sums.2 half
      maniptype).transportValid := by
  intro sums
  have before : ChecksumValid packet check := by
    rw [Packet.transportValid, segment] at valid
    exact valid
  have replaced : Replaced (packet.half maniptype) half packet
      (packet.withHalf (.tcp source dest seq ackSeq flags sums.1 urgPtr rest) sums.2 half maniptype)
      check sums.1 := by
    refine Packet.withHalf_replaced segment rfl rfl ?_ ?_ ?_
    · simp only [Transport.words, List.cons_append, List.map_cons, List.sum_cons, residue_append]
      ring
    · rfl
    · exact fun _ => rfl
  have after := replaced.valid before
  cases maniptype <;> exact after

/-- The two calls of `skb_make_writable` succeed, or nothing is returned. -/
theorem manipPkt_eq {packet : Packet} {target : Tuple} {maniptype : ManipType}
    (ran : manipPkt writable packet target maniptype = some after) :
    ∃ manipulated, protoManipPkt true packet target maniptype = some manipulated ∧
      after = { manipulated with
        ip := manipulated.ip.setAddress maniptype (target.half maniptype).ip } := by
  rcases writable with ⟨front, whole⟩
  cases front
  · cases ran
  cases whole
  · cases ran
  cases returned : protoManipPkt true packet target maniptype with
  | none =>
    rw [manipPkt, returned] at ran
    cases ran
  | some manipulated =>
    rw [manipPkt, returned] at ran
    exact ⟨manipulated, rfl, (Option.some.inj ran).symm⟩

theorem manipPkt_rewritten {packet : Packet} {target : Tuple} {maniptype : ManipType}
    (ran : manipPkt writable packet target maniptype = some after) :
    Rewritten target maniptype packet after := by
  obtain ⟨manipulated, proto, rfl⟩ := manipPkt_eq ran
  unfold protoManipPkt at proto
  cases segment : packet.transport with
  | tcp source dest seq ackSeq flags check urgPtr rest =>
    rw [segment] at proto
    obtain rfl := Option.some.inj proto
    have valid := tcp_transportValid (target.half maniptype) maniptype segment
    refine Packet.withHalf_rewritten segment ?_ ?_ ?_ valid <;> rfl
  | tcpFront source dest seq rest =>
    rw [segment] at proto
    obtain rfl := Option.some.inj proto
    have valid : packet.transportValid → (packet.withHalf (.tcpFront source dest seq rest)
        packet.csum (target.half maniptype) maniptype).transportValid := by
      intro _
      cases maniptype <;> exact trivial
    refine Packet.withHalf_rewritten segment ?_ ?_ ?_ valid <;> rfl
  | udp source dest len check rest =>
    rw [segment] at proto
    dsimp only at proto
    by_cases summed : check ≠ 0 ∨ packet.ipSummed = .checksumPartial
    · rw [if_pos summed] at proto
      obtain rfl := Option.some.inj proto
      have valid := udp_transportValid (target.half maniptype) maniptype segment summed
      refine Packet.withHalf_rewritten segment ?_ ?_ ?_ valid <;> rfl
    · rw [if_neg summed] at proto
      obtain rfl := Option.some.inj proto
      obtain ⟨none, full⟩ := not_or.mp summed
      have valid : packet.transportValid → (packet.withHalf (.udp source dest len check rest)
          packet.csum (target.half maniptype) maniptype).transportValid := by
        intro _
        cases maniptype <;> exact Or.inl ⟨full, not_not.mp none⟩
      refine Packet.withHalf_rewritten segment ?_ ?_ ?_ valid <;> rfl

/-! ## Both directions of a connection -/

theorem Consistent.unset (consistent : Consistent ct) {maniptype : ManipType}
    (unset : ct.status &&& statusbit dir maniptype = 0) :
    (nfCtInvertTuple (ct.tuple dir.other)).half maniptype = (ct.tuple dir).half maniptype := by
  cases dir with
  | original =>
    have unset : ct.status &&& natBit maniptype = 0 := unset
    exact consistent.half maniptype unset
  | reply =>
    -- In the reply direction the source is what the original direction has as destination.
    cases maniptype with
    | src =>
      have unset : ct.status &&& natBit .dst = 0 := unset
      exact (consistent.half .dst unset).symm
    | dst =>
      have unset : ct.status &&& natBit .src = 0 := unset
      exact (consistent.half .src unset).symm

/-- What one call of `nf_nat_packet` makes of a packet it accepts. -/
theorem nfNatPacket_spec {hooknum : Hook} {packet : Packet}
    (ran : nfNatPacket writable ct dir hooknum packet = (.accept, after)) :
    (ct.status &&& statusbit dir (hook2Manip hooknum) = 0 ∧ after = packet) ∨
      Rewritten (nfCtInvertTuple (ct.tuple dir.other)) (hook2Manip hooknum) packet after := by
  unfold nfNatPacket at ran
  dsimp only at ran
  split_ifs at ran with set
  · cases returned : manipPkt writable packet (nfCtInvertTuple (ct.tuple dir.other))
        (hook2Manip hooknum) with
    | none =>
      rw [returned] at ran
      cases ran
    | some manipulated =>
      rw [returned] at ran
      obtain ⟨_, rfl⟩ := Prod.mk.inj ran
      exact Or.inr (manipPkt_rewritten returned)
  · obtain ⟨_, rfl⟩ := Prod.mk.inj ran
    exact Or.inl ⟨not_not.mp set, rfl⟩

/-- A packet on its way from one tuple to another: some halves are rewritten
already. -/
structure Underway (ct : Conn) (dir : Dir) (start : Packet) (done : ManipType → Prop)
    (packet : Packet) : Prop where
  rewritten : ∀ maniptype, done maniptype →
    packet.half maniptype = (nfCtInvertTuple (ct.tuple dir.other)).half maniptype
  waiting : ∀ maniptype, ¬ done maniptype → packet.half maniptype = (ct.tuple dir).half maniptype
  protonum : packet.transport.protonum = start.transport.protonum
  frozen : packet.frozen = start.frozen
  ipValid : start.ipValid → packet.ipValid
  transportValid : start.transportValid → packet.transportValid

theorem Underway.nfNatPacket {start packet : Packet} {done : ManipType → Prop} {hooknum : Hook}
    (consistent : Consistent ct) (underway : Underway ct dir start done packet)
    (waiting : ¬ done (hook2Manip hooknum))
    (ran : Translation.nfNatPacket writable ct dir hooknum packet = (.accept, after)) :
    Underway ct dir start (fun maniptype => done maniptype ∨ maniptype = hook2Manip hooknum)
      after := by
  rcases nfNatPacket_spec ran with ⟨unset, rfl⟩ | rewritten
  · have same := consistent.unset unset
    refine ⟨?_, ?_, underway.protonum, underway.frozen, underway.ipValid, underway.transportValid⟩
    · rintro maniptype (already | rfl)
      · exact underway.rewritten maniptype already
      · rw [same]
        exact underway.waiting _ waiting
    · intro maniptype notDone
      exact underway.waiting maniptype (fun already => notDone (Or.inl already))
  · constructor
    · rintro maniptype (already | rfl)
      · have different : maniptype ≠ hook2Manip hooknum := by
          rintro rfl
          exact waiting already
        rw [rewritten.there maniptype different]
        exact underway.rewritten maniptype already
      · exact rewritten.here
    · intro maniptype notDone
      rw [rewritten.there maniptype (fun same => notDone (Or.inr same))]
      exact underway.waiting maniptype (fun already => notDone (Or.inl already))
    · rw [rewritten.protonum, underway.protonum]
    · rw [rewritten.frozen, underway.frozen]
    · exact fun valid => rewritten.ipValid (underway.ipValid valid)
    · exact fun valid => rewritten.transportValid (underway.transportValid valid)

theorem manipPkt_isSome (packet : Packet) (target : Tuple) (maniptype : ManipType) :
    manipPkt (true, true) packet target maniptype ≠ none := by
  unfold manipPkt protoManipPkt
  cases packet.transport <;> intro none <;> cases none

theorem nfNatPacket_accepts (ct : Conn) (dir : Dir) (hooknum : Hook) (packet : Packet) :
    (nfNatPacket (true, true) ct dir hooknum packet).1 = .accept := by
  unfold nfNatPacket
  dsimp only
  split_ifs with set
  · have some := manipPkt_isSome packet (nfCtInvertTuple (ct.tuple dir.other)) (hook2Manip hooknum)
    split
    · contradiction
    · rfl
  · rfl

/-- The packet looks like the inverse of the other direction, and is otherwise the
same. -/
structure Translated (ct : Conn) (dir : Dir) (before after : Packet) : Prop where
  tuple : nfCtTupleEqual after.tuple (nfCtInvertTuple (ct.tuple dir.other)) = true
  frozen : after.frozen = before.frozen
  ipValid : before.ipValid → after.ipValid
  transportValid : before.transportValid → after.transportValid

/-- On a connection that set-up has run for, the hook for the destination and then
the hook for the source translate the packets of both directions. -/
theorem nfNatPacket_translates {ct : Conn} {dir : Dir} {dstHook srcHook : Hook} {packet : Packet}
    (configured : Configured ct) (dstManip : hook2Manip dstHook = .dst)
    (srcManip : hook2Manip srcHook = .src)
    (belongs : nfCtTupleEqual packet.tuple (ct.tuple dir) = true) (writable later : Bool × Bool) :
    let first := nfNatPacket writable ct dir dstHook packet
    let second := nfNatPacket later ct dir srcHook first.2
    (writable = (true, true) → first.1 = .accept) ∧ (later = (true, true) → second.1 = .accept) ∧
      (first.1 = .accept → second.1 = .accept → Translated ct dir packet second.2) := by
  intro first second
  refine ⟨?_, ?_, ?_⟩
  · rintro rfl
    exact nfNatPacket_accepts ct dir dstHook packet
  · rintro rfl
    exact nfNatPacket_accepts ct dir srcHook first.2
  · intro firstAccepts secondAccepts
    have consistent := configured.consistent
    simp only [nfCtTupleEqual, Bool.and_eq_true, beq_iff_eq] at belongs
    obtain ⟨⟨source, destination⟩, protonum⟩ := belongs
    have start : Underway ct dir packet (fun _ => False) packet := by
      refine ⟨fun _ => False.elim, ?_, rfl, rfl, id, id⟩
      intro maniptype _
      cases maniptype
      · exact source
      · exact destination
    have middle := start.nfNatPacket consistent not_false (Prod.ext firstAccepts rfl)
    have waiting : ¬ (False ∨ hook2Manip srcHook = hook2Manip dstHook) := by
      rw [dstManip, srcManip]
      simp
    have final := middle.nfNatPacket consistent waiting (Prod.ext secondAccepts rfl)
    refine ⟨?_, final.frozen, final.ipValid, final.transportValid⟩
    simp only [nfCtTupleEqual, Bool.and_eq_true, beq_iff_eq]
    refine ⟨⟨final.rewritten .src (Or.inr srcManip.symm),
      final.rewritten .dst (Or.inl (Or.inr dstManip.symm))⟩, ?_⟩
    have other : (ct.tuple dir.other).protonum = (ct.tuple dir).protonum := by
      cases dir
      · exact consistent.protonum
      · exact consistent.protonum.symm
    exact final.protonum.trans (protonum.trans other.symm)

/-- A new connection from 10.0.0.2 to a name server. -/
def queryConn : Conn where
  original := ⟨⟨0x0200000a, htons 1234⟩, ⟨0x08080808, htons 53⟩, IPPROTO_UDP, .original⟩
  reply := ⟨⟨0x08080808, htons 53⟩, ⟨0x0200000a, htons 1234⟩, IPPROTO_UDP, .reply⟩
  status := 0
  zone := 0

def masquerade : Range where
  flags := NF_NAT_RANGE_MAP_IPS
  minIp := 0x010200c0
  maxIp := 0x010200c0
  min := 0
  max := 0

def quietNet : Net where
  taken := []
  bySource := fun _ => []
  jhash2words := fun _ _ _ => 0
  ephemeral := fun _ _ _ => 0

def masqueradedConn : Conn :=
  { queryConn with
    reply := ⟨⟨0x08080808, htons 53⟩, ⟨0x010200c0, htons 1234⟩, IPPROTO_UDP, .reply⟩
    status := IPS_SRC_NAT ||| IPS_SRC_NAT_DONE }

def answerPacket : Packet where
  ip := ⟨0x24000045, 0, 64, 0, 0x08080808, 0x010200c0, [], by decide⟩
  transport := .udp (htons 53) (htons 1234) (htons 16) 0 [1, 2]
  len := 16
  ipSummed := .checksumNone
  csum := 0

theorem masqueradedConn_configured : Configured masqueradedConn := by
  have fresh : Configured queryConn := Configured.fresh queryConn.original 0 0 (by decide)
  have ran : nfNatSetupInfo quietNet true ⟨0, 0⟩ queryConn masquerade .src 0 =
    pure (masqueradedConn, ⟨0, 0⟩) := rfl
  exact fresh.setup ran

theorem nfNatPacket_translates_answer :
    let first := nfNatPacket (true, true) masqueradedConn .reply .preRouting answerPacket
    let second := nfNatPacket (true, true) masqueradedConn .reply .postRouting first.2
    ((true, true) = (true, true) → first.1 = .accept) ∧
    ((true, true) = (true, true) → second.1 = .accept) ∧
      (first.1 = .accept → second.1 = .accept →
        Translated masqueradedConn .reply answerPacket second.2) :=
  nfNatPacket_translates masqueradedConn_configured rfl rfl (by decide) (true, true) (true, true)

end RouterKernel.Translation
