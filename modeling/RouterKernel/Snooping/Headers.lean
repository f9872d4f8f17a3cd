import RouterKernel.Foundation.ByteMemory
import RouterKernel.Snooping.Forward

/-!
Contract: where the bridge finds the IP and IGMP headers in the bytes of a frame.

Owns:
- `br_igmp_get_ip_igmp_hdrs` on bytes, for frames with and without an 802.1Q tag;
- that it finds what forwarding takes for the headers of the frame;
- the frames for which a tag does not change what is found.

Does not own: the device's own handling of tags, and the length of the frame, which the function
does not look at: a byte past the end reads as zero here.
-/

namespace RouterKernel.Snooping.Wire

open Foundation

def ETH_P_IP : U16 := 0x0800
def ETH_P_PPP_SES : U16 := 0x8864
def ETH_P_8021Q : U16 := 0x8100
def PPP_IP : U16 := 0x21
def PPPOE_SES_HLEN : Nat := 8
def VLAN_HLEN : Nat := 4

/-- What the function stores through its pointers: offsets of headers in the frame, and `*lanppp`
unless `lanppp` is NULL. -/
structure IgmpHdrs where
  pipmcast : Option Nat
  pigmp : Option Nat
  lanppp : Option Nat
deriving DecidableEq, Repr

section Frame

variable (frame : Bytes)

def isMulticastEtherAddr : Bool := byteAt frame 0 &&& 1 != 0

def isBroadcastEtherAddr : Bool :=
  (byteAt frame 0 &&& byteAt frame 1 &&& byteAt frame 2 &&& byteAt frame 3 &&& byteAt frame 4 &&&
    byteAt frame 5) == 0xff

/-- The network header follows the Ethernet header, also when a tag follows that. -/
def networkHeader : Nat := 14

/-- The pointers `pip` and `pppoe` after the dispatch on the protocol; the `pppoe` of the tagged
branch is a variable of its own, which shadows the other one. -/
def locate : Option Nat × Option Nat :=
  if peek frame 2 12 = (htons ETH_P_IP).toNat then (some networkHeader, none)
  else if peek frame 2 12 = (htons ETH_P_PPP_SES).toNat then
    if peek frame 2 (networkHeader + 6) = (htons PPP_IP).toNat then
      (some (networkHeader + PPPOE_SES_HLEN), some networkHeader)
    else (none, some networkHeader)
  else if peek frame 2 12 = (htons ETH_P_8021Q).toNat then
    if peek frame 2 16 = (htons ETH_P_IP).toNat then (some (networkHeader + VLAN_HLEN), none)
    else if peek frame 2 16 = (htons ETH_P_PPP_SES).toNat then
      if peek frame 2 (networkHeader + VLAN_HLEN + 6) = PPP_IP.toNat then
        (some (networkHeader + VLAN_HLEN + PPPOE_SES_HLEN), none)
      else (none, none)
    else (none, none)
  else (none, none)

/-- `(char *)pip + (pip->ihl << 2)`. -/
def afterIp (pip : Nat) : Nat := pip + (byteAt frame pip &&& 0xf).toNat * 4

def ipHeaderAt (pip : Nat) : IpHeader where
  saddr := BitVec.ofNat 32 (peek frame 4 (pip + 12))
  daddr := BitVec.ofNat 32 (peek frame 4 (pip + 16))
  protocol := byteAt frame (pip + 9)
  udpDest := BitVec.ofNat 16 (peek frame 2 (pip + 22))
  igmpType := byteAt frame (afterIp frame pip)

def multicastIp (pip : Nat) : Bool :=
  (ipHeaderAt frame pip).daddr &&& htonl 0xF0000000 == htonl 0xE0000000

def igmpHeader (pip : Nat) : Option Nat :=
  if (ipHeaderAt frame pip).protocol = IPPROTO_IGMP then some (afterIp frame pip) else none

def brIgmpGetIpIgmpHdrs (lanppp : Option Nat) : IgmpHdrs :=
  match locate frame with
  | (none, _) => ⟨none, none, lanppp⟩
  | (some pip, some _) =>
    -- MAC will be unicast so check IP
    if multicastIp frame pip then ⟨some pip, igmpHeader frame pip, lanppp.map fun _ => 1⟩
    else ⟨none, none, lanppp⟩
  | (some pip, none) =>
    if isMulticastEtherAddr frame && !isBroadcastEtherAddr frame then
      ⟨some pip, igmpHeader frame pip, lanppp.map fun _ => 0⟩
    else ⟨none, none, lanppp⟩

def framing : Framing :=
  if peek frame 2 12 = (htons ETH_P_IP).toNat then .ip
  else if peek frame 2 12 = (htons ETH_P_PPP_SES).toNat then .pppSes
  else if peek frame 2 12 = (htons ETH_P_8021Q).toNat then
    if peek frame 2 16 = (htons ETH_P_IP).toNat then .vlanIp
    else if peek frame 2 16 = (htons ETH_P_PPP_SES).toNat then .vlanPppSes
    else .other
  else .other

/-- The frame as forwarding sees it: whether a session carries IP is what the branch for it
compares. -/
def frameOf (id : Nat) (dev : Device) : Frame where
  id := id
  dev := dev
  framing := framing frame
  pppIp :=
    if framing frame = .pppSes then peek frame 2 (networkHeader + 6) == (htons PPP_IP).toNat
    else peek frame 2 (networkHeader + VLAN_HLEN + 6) == PPP_IP.toNat
  destMulticast := isMulticastEtherAddr frame
  destBroadcast := isBroadcastEtherAddr frame
  ip := ipHeaderAt frame ((locate frame).1.getD 0)

def tagged (tci : U16) : Bytes :=
  frame.take 12 ++ [0x81, 0x00, tci.extractLsb' 8 8, tci.extractLsb' 0 8] ++ frame.drop 12

end Frame

def IgmpHdrs.moved (hdrs : IgmpHdrs) : IgmpHdrs :=
  { hdrs with pipmcast := hdrs.pipmcast.map (· + 4), pigmp := hdrs.pigmp.map (· + 4) }

/-- What forwarding notes of the pointers: whether there are headers, and a PPPoE header. -/
def noted (framing : Framing) (pppIp : Bool) : Option Bool :=
  match framing with
  | .ip => some false
  | .pppSes => if pppIp then some true else none
  | .vlanIp => some false
  | .vlanPppSes => if pppIp then some false else none
  | .other => none

theorem forward_hdrs_eq (frame : Frame) : frame.headers =
      (noted frame.framing frame.pppIp).bind fun pppoe =>
        if (if pppoe then frame.ip.daddr &&& htonl 0xF0000000 == htonl 0xE0000000
            else frame.destMulticast && !frame.destBroadcast) then
          some (frame.ip, if frame.ip.protocol = IPPROTO_IGMP then some frame.ip.igmpType else none)
        else none := by
  unfold Frame.headers noted
  cases frame.framing with
  | ip => rfl
  | pppSes => cases frame.pppIp <;> rfl
  | vlanIp => rfl
  | vlanPppSes => cases frame.pppIp <;> rfl
  | other => rfl

theorem noted_frameOf (frame : Bytes) (id : Nat) (dev : Device) :
    noted (frameOf frame id dev).framing (frameOf frame id dev).pppIp =
      (locate frame).1.map fun _ => (locate frame).2.isSome := by
  dsimp only [frameOf]
  unfold locate framing
  by_cases ip : peek frame 2 12 = (htons ETH_P_IP).toNat
  · rw [if_pos ip, if_pos ip]
    rfl
  · rw [if_neg ip, if_neg ip]
    by_cases session : peek frame 2 12 = (htons ETH_P_PPP_SES).toNat
    · rw [if_pos session, if_pos session, if_pos rfl]
      by_cases carries : peek frame 2 (networkHeader + 6) = (htons PPP_IP).toNat
      · rw [if_pos carries, beq_iff_eq.mpr carries]
        rfl
      · rw [if_neg carries, beq_eq_false_iff_ne.mpr carries]
        rfl
    · rw [if_neg session, if_neg session]
      by_cases tag : peek frame 2 12 = (htons ETH_P_8021Q).toNat
      · rw [if_pos tag, if_pos tag]
        by_cases inner : peek frame 2 16 = (htons ETH_P_IP).toNat
        · rw [if_pos inner, if_pos inner]
          rfl
        · rw [if_neg inner, if_neg inner]
          by_cases innerSession : peek frame 2 16 = (htons ETH_P_PPP_SES).toNat
          · rw [if_pos innerSession, if_pos innerSession, if_neg (by decide)]
            by_cases carries : peek frame 2 (networkHeader + VLAN_HLEN + 6) = PPP_IP.toNat
            · rw [if_pos carries, beq_iff_eq.mpr carries]
              rfl
            · rw [if_neg carries, beq_eq_false_iff_ne.mpr carries]
              rfl
          · rw [if_neg innerSession, if_neg innerSession]
            rfl
      · rw [if_neg tag, if_neg tag]
        rfl

section Tag

variable {frame : Bytes} (tci : U16)

section

variable (long : 12 ≤ frame.length)

include long

theorem byteAt_tagged_before {offset : Nat} (before : offset < 12) :
    byteAt (tagged frame tci) offset = byteAt frame offset := by
  simp only [byteAt, tagged, List.getD_eq_getElem?_getD, List.append_assoc]
  rw [List.getElem?_append_left (by simp; omega), List.getElem?_take_of_lt before]

theorem byteAt_tagged_after {offset : Nat} (after : 12 ≤ offset) :
    byteAt (tagged frame tci) (offset + 4) = byteAt frame offset := by
  simp only [byteAt, tagged, List.getD_eq_getElem?_getD]
  have size : (frame.take 12 ++ [0x81, 0x00, tci.extractLsb' 8 8, tci.extractLsb' 0 8]).length =
      16 := by
    simp
    omega
  rw [List.getElem?_append_right (by omega), size, List.getElem?_drop]
  congr 3
  omega

theorem peek_tagged_after (width : Nat) {offset : Nat} (after : 12 ≤ offset) :
    peek (tagged frame tci) width (offset + 4) = peek frame width offset := by
  induction width generalizing offset with
  | zero => rfl
  | succ width ih =>
    have rest : peek (tagged frame tci) width (offset + 1 + 4) = peek frame width (offset + 1) :=
      ih (by omega)
    rw [peek, peek, byteAt_tagged_after tci long after, ← rest]

theorem peek_tagged_proto : peek (tagged frame tci) 2 12 = (htons ETH_P_8021Q).toNat := by
  have size : (frame.take 12).length = 12 := by
    simp
    omega
  have first : byteAt (tagged frame tci) 12 = 0x81 := by
    simp only [byteAt, tagged, List.getD_eq_getElem?_getD, List.append_assoc]
    rw [List.getElem?_append_right (by omega), size]
    rfl
  have second : byteAt (tagged frame tci) 13 = 0x00 := by
    simp only [byteAt, tagged, List.getD_eq_getElem?_getD, List.append_assoc]
    rw [List.getElem?_append_right (by omega), size]
    rfl
  rw [peek, peek, peek, first, second]
  rfl

/-- The dispatch on a tagged frame, in terms of the frame without the tag. -/
theorem locate_tagged : locate (tagged frame tci) = if peek frame 2 12 = (htons ETH_P_IP).toNat
    then (some 18, none)
      else if peek frame 2 12 = (htons ETH_P_PPP_SES).toNat then
        if peek frame 2 20 = PPP_IP.toNat then (some 26, none) else (none, none)
      else (none, none) := by
  have proto := peek_tagged_proto tci long
  have inner : peek (tagged frame tci) 2 16 = peek frame 2 12 :=
    peek_tagged_after tci long 2 (le_refl 12)
  have protocol : peek (tagged frame tci) 2 (networkHeader + VLAN_HLEN + 6) = peek frame 2 20 :=
    peek_tagged_after tci long 2 (by decide)
  rw [locate, proto, inner, protocol, if_neg (by decide), if_neg (by decide), if_pos rfl]
  rfl

theorem igmpHeader_tagged {pip : Nat} (after : 12 ≤ pip) :
    igmpHeader (tagged frame tci) (pip + 4) = (igmpHeader frame pip).map (· + 4) := by
  have protocol :
      (ipHeaderAt (tagged frame tci) (pip + 4)).protocol = (ipHeaderAt frame pip).protocol :=
    byteAt_tagged_after tci long (Nat.le_add_right_of_le after)
  have header : afterIp (tagged frame tci) (pip + 4) = afterIp frame pip + 4 := by
    rw [afterIp, afterIp, byteAt_tagged_after tci long after, Nat.add_right_comm]
  rw [igmpHeader, igmpHeader, protocol, header]
  split
  · rfl
  · rfl

theorem etherAddr_tagged : isMulticastEtherAddr (tagged frame tci) = isMulticastEtherAddr frame ∧
      isBroadcastEtherAddr (tagged frame tci) = isBroadcastEtherAddr frame := by
  have same {offset : Nat} (before : offset < 12) := byteAt_tagged_before tci long before
  rw [isMulticastEtherAddr, isMulticastEtherAddr, isBroadcastEtherAddr, isBroadcastEtherAddr,
      same (by decide),
    same (by decide), same (by decide), same (by decide), same (by decide), same (by decide)]
  exact ⟨rfl, rfl⟩

end

end Tag

def groupEtherAddr (frame : Bytes) : Bool :=
  isMulticastEtherAddr frame && !isBroadcastEtherAddr frame

/-- A tag moves what is found in a frame that carries IPv4, or a PPPoE session, by four bytes and
changes nothing else just if the frame carries IPv4, or neither path finds anything in the session:
the one without a tag looks for PPP_IP in network order and an IP multicast address, the one with a
tag for PPP_IP in host order and a multicast Ethernet address. -/
theorem tag_moves_headers_iff {frame : Bytes} (tci : U16) (lanppp : Option Nat)
    (carries : peek frame 2 12 = (htons ETH_P_IP).toNat ∨
      peek frame 2 12 = (htons ETH_P_PPP_SES).toNat) :
    brIgmpGetIpIgmpHdrs (tagged frame tci) lanppp = (brIgmpGetIpIgmpHdrs frame lanppp).moved ↔
      peek frame 2 12 = (htons ETH_P_IP).toNat ∨
          ¬(peek frame 2 20 = (htons PPP_IP).toNat ∧ multicastIp frame 22 = true) ∧
          ¬(peek frame 2 20 = PPP_IP.toNat ∧ groupEtherAddr frame = true) := by
  have long : 12 ≤ frame.length := by
    by_contra short
    have missing (offset : Nat) (past : 12 ≤ offset) : byteAt frame offset = 0 := by
      rw [byteAt, List.getD_eq_getElem?_getD, List.getElem?_eq_none (by omega)]
      rfl
    rw [peek, peek, peek, missing 12 (le_refl 12), missing 13 (by decide)] at carries
    revert carries
    decide
  obtain ⟨multicast, broadcast⟩ := etherAddr_tagged tci long
  rw [brIgmpGetIpIgmpHdrs, brIgmpGetIpIgmpHdrs, locate_tagged tci long, locate, multicast,
    broadcast]
  rcases carries with ip | session
  · have igmp : igmpHeader (tagged frame tci) 18 = (igmpHeader frame 14).map (· + 4) :=
      igmpHeader_tagged tci long (by decide)
    rw [if_pos ip, if_pos ip]
    dsimp only [networkHeader]
    refine iff_of_true ?_ (Or.inl ip)
    rw [igmp]
    split
    · rfl
    · rfl
  · have other : ¬peek frame 2 12 = (htons ETH_P_IP).toNat := by
      rw [session]
      decide
    rw [if_neg other, if_pos session, if_neg other, if_pos session, or_iff_right other]
    change _ = IgmpHdrs.moved (match (if peek frame 2 20 = (htons PPP_IP).toNat
        then (some 22, some 14) else (none, some 14)) with
      | (none, _) => _ | (some pip, some _) => _ | (some pip, none) => _) ↔ _
    by_cases network : peek frame 2 20 = (htons PPP_IP).toNat
    · have host : ¬peek frame 2 20 = PPP_IP.toNat := by
        rw [network]
        decide
      rw [if_neg host, if_pos network]
      dsimp only
      by_cases group : multicastIp frame 22 = true
      · rw [if_pos group]
        refine iff_of_false ?_ (fun neither => neither.1 ⟨network, group⟩)
        intro same
        have found := congrArg IgmpHdrs.pipmcast same
        cases found
      · rw [if_neg group]
        exact iff_of_true rfl ⟨fun both => group both.2, fun both => host both.1⟩
    · rw [if_neg network]
      by_cases host : peek frame 2 20 = PPP_IP.toNat
      · rw [if_pos host]
        dsimp only
        by_cases group : (isMulticastEtherAddr frame && !isBroadcastEtherAddr frame) = true
        · rw [if_pos group]
          refine iff_of_false ?_ (fun neither => neither.2 ⟨host, group⟩)
          intro same
          have found := congrArg IgmpHdrs.pipmcast same
          cases found
        · rw [if_neg group]
          exact iff_of_true rfl ⟨fun both => network both.1, fun both => group both.2⟩
      · rw [if_neg host]
        exact iff_of_true rfl ⟨fun both => network both.1, fun both => host both.1⟩

/-- An IPv4 header of 24 bytes, for IGMP, to 224.0.0.22. -/
def igmpReport : Bytes :=
  [0x46, 0xc0, 0, 40, 0, 0, 0x40, 0, 1, 2, 0, 0, 192, 168, 1, 2, 224, 0, 0, 22, 0x94, 4, 0, 0]

def igmpFrame : Bytes := [0x01, 0x00, 0x5e, 0, 0, 0x16, 2, 0, 0, 0, 0, 1, 0x08, 0x00] ++ igmpReport

def pppoeFrame : Bytes :=
  [0, 0x11, 0x22, 0x33, 0x44, 0x55, 2, 0, 0, 0, 0, 1, 0x88, 0x64, 0x11, 0, 0, 1, 0, 42, 0x00,
    0x21] ++ igmpReport

theorem tag_moves_headers_iff_igmp :
    brIgmpGetIpIgmpHdrs (tagged igmpFrame 5) (some 7) =
      (brIgmpGetIpIgmpHdrs igmpFrame (some 7)).moved :=
  (tag_moves_headers_iff 5 (some 7) (Or.inl (by decide))).mpr (Or.inl (by decide))

/-- The IGMP report in a PPPoE session is found, and with a tag it is not. -/
theorem tag_hides_pppoe_report : peek pppoeFrame 2 12 = (htons ETH_P_PPP_SES).toNat ∧
      brIgmpGetIpIgmpHdrs pppoeFrame (some 7) = ⟨some 22, some 46, some 1⟩ ∧
      brIgmpGetIpIgmpHdrs (tagged pppoeFrame 5) (some 7) = ⟨none, none, some 7⟩ := by
  decide

end RouterKernel.Snooping.Wire
