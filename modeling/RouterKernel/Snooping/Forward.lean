import RouterKernel.Snooping.Database

/-!
Contract: how a bridge forwards multicast packets by its snooping database.

Owns:
- the packets and the part of the bridge that forwarding looks at;
- `br_igmp_mc_forward` with its early exits;
- when each call leaves the ports unmarked and reports what it has sent.

Does not own: how the database comes about.  What `br_forward` and `br_deliver` do
with the copy they are handed is theirs.
-/

namespace RouterKernel.Snooping

open Foundation

/-! ## Packets and bridges -/

/-- `struct net_device`; `wan` is the flag `IFF_WANDEV`. -/
structure Device where
  id : Nat
  wan : Bool
deriving DecidableEq, Repr

/-- `struct iphdr`.  `udpDest` is where a UDP header behind a header without options
has its destination port. -/
structure IpHeader where
  saddr : U32
  daddr : U32
  protocol : U8
  udpDest : U16
  igmpType : U8
deriving DecidableEq, Repr

inductive Framing where
  | ip
  | pppSes
  | vlanIp
  | vlanPppSes
  | other
deriving DecidableEq, Repr

/-- `struct sk_buff`, by what its bytes say.  `pppIp` says that a PPP session carries IP; the flags
of the Ethernet destination are those of `is_multicast_ether_addr` and
`is_broadcast_ether_addr`. -/
structure Frame where
  id : Nat
  dev : Device
  framing : Framing
  pppIp : Bool
  destMulticast : Bool
  destBroadcast : Bool
  ip : IpHeader
deriving DecidableEq, Repr

def IGMP_HOST_MEMBERSHIP_QUERY : U8 := 0x11

/-- The IP header of a multicast packet, and the type of the IGMP message if it carries one: what
`br_igmp_get_ip_igmp_hdrs`, which `Snooping.Wire` has on the bytes, finds in a frame. -/
def Frame.headers (frame : Frame) : Option (IpHeader × Option U8) :=
  let pppoe :=
    match frame.framing with
    | .ip => some false
    | .pppSes => if frame.pppIp then some true else none
    | .vlanIp => some false
    -- The PPPoE header behind a VLAN tag is not noted.
    | .vlanPppSes => if frame.pppIp then some false else none
    | .other => none
  match pppoe with
  | none => none
  | some pppoe =>
    let multicast :=
      -- MAC will be unicast so check IP
      if pppoe then frame.ip.daddr &&& htonl 0xF0000000 == htonl 0xE0000000
      else frame.destMulticast && !frame.destBroadcast
    if multicast then
      some (frame.ip, if frame.ip.protocol = IPPROTO_IGMP then some frame.ip.igmpType else none)
    else none

abbrev MCPD_MAX_DELAYED_SKB_COUNT : Nat := 64
def MCPD_NETLINK_SKB_TIMEOUT_MS : U32 := 2000
def SNOOPING_BLOCKING_MODE : U32 := 2
def MCPD_IF_TYPE_BRIDGED : U8 := 1
def MCPD_IF_TYPE_ROUTED : U8 := 2

/-- `struct net_bridge`.  The ports of the entries are ports of the bridge. -/
structure Bridge where
  dev : Nat
  portList : List Nat
  dirty : Nat → Bool
  mcHash : McHash
  igmpProxy : U32
  igmpSnooping : U32
  delayedSkb : Fin MCPD_MAX_DELAYED_SKB_COUNT → Option (Nat × U32)
  listed : ∀ index, ∀ entry ∈ mcHash index, entry.dst ∈ portList

/-- What a call meets: the time, `is_multicast_switching_mode_host_control`, whether
the device is a port, what `mcpd_process_skb` returns, and by port whether
`skb_clone` has memory. -/
structure ForwardEnv where
  jiffies : U32
  hostControl : Bool
  isPort : Bool
  mcpd : Int
  clone : Nat → Bool

/-- A copy handed to a port, by `br_forward` or by `br_deliver`. -/
structure Copy where
  port : Nat
  forward : Bool
deriving DecidableEq, Repr

/-! ## Forwarding -/

inductive Decision where
  | skip
  | send
  | block
deriving DecidableEq, Repr

/-- The tests on an entry in the loop of `br_igmp_mc_forward`. -/
def mcDecision (bridgeDev : Nat) (dev : Device) (ip : IpHeader) (isRouted : Bool) (dst : McEntry) :
    Decision :=
  if dst.txGrp ≠ ip.daddr then .skip
  -- routed packet will have bridge as dev - cannot match to mc_fdb
  else if isRouted && dst.type != MCPD_IF_TYPE_ROUTED then .skip
  else if !isRouted && (dst.type != MCPD_IF_TYPE_BRIDGED ||
      dst.fromDev != if dev.wan then dev.id else bridgeDev) then .skip
  else
    match dst.filtMode with
    | .mcastInclude => if ip.saddr = dst.src then .send else .skip
    | .mcastExclude => if dst.src = 0 ∨ ip.saddr ≠ dst.src then .send else .block

/-- "If this is the excluded port, drop it now". -/
def portExcluded (ip : IpHeader) (dst : McEntry) : Bool :=
  dst.excludePort != -1 && ip.protocol == IPPROTO_UDP && ip.udpDest.setWidth 32 == dst.excludePort

inductive Exit where
  | done
  | excluded
  | noClone
deriving DecidableEq, Repr

structure LoopState where
  dirty : Nat → Bool
  handed : List Copy
  status : Int

/-- The loop of `br_igmp_mc_forward` over a chain. -/
def forwardLoop (decision : McEntry → Decision) (excluded : McEntry → Bool) (clone : Nat → Bool)
    (forward : Bool) : List McEntry → LoopState → Exit × LoopState
  | [], state => (.done, state)
  | dst :: rest, state =>
    match decision dst with
    | .skip => forwardLoop decision excluded clone forward rest state
    | .block => forwardLoop decision excluded clone forward rest { state with status := 1 }
    | .send =>
      if excluded dst then (.excluded, state)
      else if state.dirty dst.dst then
        forwardLoop decision excluded clone forward rest { state with status := 1 }
      else if !clone dst.dst then (.noClone, state)
      else
        forwardLoop decision excluded clone forward rest
          { dirty := Function.update state.dirty dst.dst true
            handed := state.handed ++ [⟨dst.dst, forward⟩]
            status := 1 }

/-- The result of a call; `freed` says that the packet itself is gone. -/
structure Forwarded where
  status : Int
  bridge : Bridge
  handed : List Copy
  freed : Bool

/-- An IGMP packet: those from the WAN are not passed to the daemon. -/
def processIgmp (br : Bridge) (frame : Frame) (env : ForwardEnv) (type : U8) : Forwarded :=
  if frame.dev.wan then
    if type ≠ IGMP_HOST_MEMBERSHIP_QUERY then ⟨1, br, [], true⟩ else ⟨0, br, [], false⟩
  else if env.isPort then
    let delayedSkb :=
      if env.mcpd = 1 then
        match (List.finRange MCPD_MAX_DELAYED_SKB_COUNT).find? fun index =>
            (br.delayedSkb index).isNone with
        | none => br.delayedSkb
        | some index => Function.update br.delayedSkb index
            (some (frame.id, env.jiffies + MCPD_NETLINK_SKB_TIMEOUT_MS))
      else br.delayedSkb
    ⟨env.mcpd, { br with delayedSkb }, [], false⟩
  else ⟨0, br, [], false⟩

/-- What `br_igmp_mc_forward` does with a packet before it looks at the database. -/
inductive Route where
  | ordinary
  | igmp (type : U8)
  | lookup (ip : IpHeader)
deriving DecidableEq, Repr

def mcRoute (br : Bridge) (frame : Frame) (env : ForwardEnv) : Route :=
  match frame.headers with
  | none => .ordinary
  | some (ip, igmp) =>
    match igmp with
    | some type =>
      if br.igmpProxy ≠ 0 ∨ br.igmpSnooping ≠ 0 ∨ env.hostControl = true then .igmp type
      else if brIgmpControlFilter frame.destBroadcast ip.daddr then .lookup ip
      else .ordinary
    | none =>
      if brIgmpControlFilter frame.destBroadcast ip.daddr then .lookup ip else .ordinary

/-- What `br_igmp_mc_forward` does when the loop is over. -/
def endForward (br : Bridge) : Exit × LoopState → Forwarded
  | (.excluded, state) => ⟨1, { br with dirty := state.dirty }, state.handed, true⟩
  | (.noClone, state) => ⟨0, { br with dirty := state.dirty }, state.handed, false⟩
  | (.done, state) =>
    if state.status ≠ 0 then
      let dirty := fun port => if port ∈ br.portList then false else state.dirty port
      ⟨state.status, { br with dirty }, state.handed, true⟩
    else ⟨state.status, { br with dirty := state.dirty }, state.handed, false⟩

def brIgmpMcForward (hash : U32 → Fin BR_IGMP_HASH_SIZE) (br : Bridge) (frame : Frame)
    (env : ForwardEnv) (forward isRouted : Bool) : Forwarded :=
  match mcRoute br frame env with
  | .ordinary => ⟨0, br, [], false⟩
  | .igmp type => processIgmp br frame env type
  | .lookup ip =>
    -- drop traffic by default when snooping is enabled in blocking mode
    let status := if br.igmpSnooping = SNOOPING_BLOCKING_MODE then 1 else 0
    endForward br <|
      forwardLoop (mcDecision br.dev frame.dev ip isRouted) (portExcluded ip) env.clone forward
        (br.mcHash (hash ip.daddr)) ⟨br.dirty, [], status⟩

/-! ## The loop -/

section Loop

variable {decision : McEntry → Decision} {excluded : McEntry → Bool} {clone : Nat → Bool}
  {forward : Bool} {ports : List Nat}

/-- The marks on the ports tell which of them have been handed a copy. -/
structure Marked (clone : Nat → Bool) (ports : List Nat) (state : LoopState) : Prop where
  marks : ∀ port ∈ ports, state.dirty port = true ↔ port ∈ state.handed.map Copy.port
  listed : ∀ copy ∈ state.handed, copy.port ∈ ports
  cloned : ∀ copy ∈ state.handed, clone copy.port = true
  once : (state.handed.map Copy.port).Nodup
  status : state.handed ≠ [] → state.status = 1

variable {state : LoopState} {chain : List McEntry}

theorem Marked.pass (marked : Marked clone ports state) :
    Marked clone ports { state with status := 1 } where
  marks := marked.marks
  listed := marked.listed
  cloned := marked.cloned
  once := marked.once
  status := fun _ => rfl

theorem Marked.hand (marked : Marked clone ports state) (forward : Bool) {port : Nat}
    (known : port ∈ ports)
    (clean : state.dirty port = false) (copied : clone port = true) :
    Marked clone ports
      { dirty := Function.update state.dirty port true
        handed := state.handed ++ [⟨port, forward⟩]
        status := 1 } := by
  have fresh : port ∉ state.handed.map Copy.port := by
    rw [← marked.marks port known, clean]
    decide
  constructor
  · intro other member
    by_cases same : other = port
    · simp [same]
    · dsimp only
      rw [Function.update_of_ne same, marked.marks other member]
      simp [same]
  · intro copy member
    rcases List.mem_append.mp member with earlier | new
    · exact marked.listed copy earlier
    · rw [List.mem_singleton.mp new]
      exact known
  · intro copy member
    rcases List.mem_append.mp member with earlier | new
    · exact marked.cloned copy earlier
    · rw [List.mem_singleton.mp new]
      exact copied
  · rw [List.map_append]
    exact List.Nodup.append marked.once (List.nodup_singleton _) (by simpa using fresh)
  · exact fun _ => rfl

theorem forwardLoop_marked (listed : ∀ dst ∈ chain, dst.dst ∈ ports)
    (marked : Marked clone ports state) :
    Marked clone ports (forwardLoop decision excluded clone forward chain state).2 := by
  induction chain generalizing state with
  | nil => exact marked
  | cons dst rest ih =>
    obtain ⟨here, later⟩ := List.forall_mem_cons.mp listed
    unfold forwardLoop
    cases decision dst with
    | skip => exact ih later marked
    | block => exact ih later marked.pass
    | send =>
      dsimp only
      split_ifs with isExcluded dirty failed
      · exact marked
      · exact ih later marked.pass
      · exact marked
      · apply ih later
        apply marked.hand forward here
        · simpa using dirty
        · simpa using failed

/-- The entries that send, and those of them at which the loop would be left. -/
def Leaves (excluded : McEntry → Bool) (clone : Nat → Bool) (dst : McEntry) : Prop :=
  excluded dst = true ∨ clone dst.dst = false

/-- Once a copy has been handed over, the loop runs to its end just if no later entry
makes it leave. -/
theorem forwardLoop_done_iff (listed : ∀ dst ∈ chain, dst.dst ∈ ports)
    (marked : Marked clone ports state) :
    (forwardLoop decision excluded clone forward chain state).1 = .done ↔
      ∀ dst ∈ chain, decision dst = .send → ¬ Leaves excluded clone dst := by
  induction chain generalizing state with
  | nil => simp [forwardLoop]
  | cons dst rest ih =>
    obtain ⟨here, later⟩ := List.forall_mem_cons.mp listed
    rw [List.forall_mem_cons]
    unfold forwardLoop
    cases verdict : decision dst with
    | skip =>
      dsimp only
      rw [ih later marked]
      simp
    | block =>
      dsimp only
      rw [ih later marked.pass]
      simp
    | send =>
      dsimp only
      split_ifs with isExcluded dirty failed
      · simp [Leaves, isExcluded]
      · have copied : clone dst.dst = true := by
          obtain ⟨copy, member, port⟩ := List.mem_map.mp ((marked.marks _ here).mp dirty)
          rw [← port]
          exact marked.cloned copy member
        rw [ih later marked.pass]
        simp [Leaves, isExcluded, copied]
      · simp only [Bool.not_eq_true'] at failed
        simp [Leaves, failed]
      · simp only [Bool.not_eq_true', Bool.not_eq_false] at failed
        rw [ih later
          (marked.hand forward here (by simpa using dirty) failed)]
        simp [Leaves, isExcluded, failed]

theorem forwardLoop_handed (some : state.handed ≠ []) :
    (forwardLoop decision excluded clone forward chain state).2.handed ≠ [] := by
  induction chain generalizing state with
  | nil => exact some
  | cons dst rest ih =>
    unfold forwardLoop
    cases decision dst with
    | skip => exact ih some
    | block => exact ih some
    | send =>
      dsimp only
      split_ifs
      · exact some
      · exact ih some
      · exact some
      · exact ih (by simp)

/-- Only the first entry that sends may make the loop leave. -/
def OnlyFirstLeaves (decision : McEntry → Decision) (excluded : McEntry → Bool)
    (clone : Nat → Bool) (chain : List McEntry) : Prop :=
  match chain.filter fun dst => decision dst == .send with
  | [] => True
  | first :: later => Leaves excluded clone first ∨ ∀ dst ∈ later, ¬ Leaves excluded clone dst

theorem forwardLoop_unmarked_iff (listed : ∀ dst ∈ chain, dst.dst ∈ ports)
    (marked : Marked clone ports state)
    (none : state.handed = []) :
    ((forwardLoop decision excluded clone forward chain state).1 = .done ∨
        (forwardLoop decision excluded clone forward chain state).2.handed = []) ↔
      OnlyFirstLeaves decision excluded clone chain := by
  induction chain generalizing state with
  | nil => simp [forwardLoop, OnlyFirstLeaves]
  | cons dst rest ih =>
    obtain ⟨here, later⟩ := List.forall_mem_cons.mp listed
    unfold forwardLoop
    cases verdict : decision dst with
    | skip =>
      rw [ih later marked none]
      simp [OnlyFirstLeaves, verdict]
    | block =>
      rw [ih later marked.pass none]
      simp [OnlyFirstLeaves, verdict]
    | send =>
      dsimp only
      split_ifs with isExcluded dirty failed
      · simp [OnlyFirstLeaves, verdict, Leaves, isExcluded, none]
      · have handed := (marked.marks _ here).mp dirty
        rw [none] at handed
        cases handed
      · simp only [Bool.not_eq_true'] at failed
        simp [OnlyFirstLeaves, verdict, Leaves, failed, none]
      · simp only [Bool.not_eq_true', Bool.not_eq_false] at failed
        have next := marked.hand forward here (by simpa using dirty) failed
        have stays : (forwardLoop decision excluded clone forward rest
            { dirty := Function.update state.dirty dst.dst true
              handed := state.handed ++ [⟨dst.dst, forward⟩]
              status := 1 }).2.handed ≠ [] := forwardLoop_handed (by simp)
        rw [or_iff_left stays, forwardLoop_done_iff later next]
        simp [OnlyFirstLeaves, verdict, Leaves, isExcluded, failed]

end Loop

/-! ## A whole call -/

/-- The marks are gone, no port has been handed two copies, and a packet left to the
ordinary path has not been sent. -/
structure Tidy (br : Bridge) (result : Forwarded) : Prop where
  clean : ∀ port ∈ br.portList, result.bridge.dirty port = false
  once : (result.handed.map Copy.port).Nodup
  honest : result.status = 0 → result.handed = []

/-- If the call looks at the database, only the first entry that sends may be one for
an excluded port, or one for which there is no memory. -/
def Undisturbed (hash : U32 → Fin BR_IGMP_HASH_SIZE) (br : Bridge) (frame : Frame)
    (env : ForwardEnv) (isRouted : Bool) : Prop :=
  ∀ ip, mcRoute br frame env = .lookup ip →
    OnlyFirstLeaves (mcDecision br.dev frame.dev ip isRouted) (portExcluded ip) env.clone
      (br.mcHash (hash ip.daddr))

theorem processIgmp_tidy {br : Bridge} (clean : ∀ port ∈ br.portList, br.dirty port = false)
    (frame : Frame) (env : ForwardEnv) (type : U8) : Tidy br (processIgmp br frame env type) := by
  unfold processIgmp
  split_ifs <;> exact ⟨clean, List.nodup_nil, fun _ => rfl⟩

/-- With no port marked at the start, ports are marked at the end of the loop just if
copies have been handed over. -/
theorem Marked.clean_iff {clone : Nat → Bool} {ports : List Nat} {state : LoopState}
    (marked : Marked clone ports state) :
    (∀ port ∈ ports, state.dirty port = false) ↔ state.handed = [] := by
  constructor
  · intro clean
    rw [List.eq_nil_iff_forall_not_mem]
    intro copy member
    have listed := marked.listed copy member
    have dirty := (marked.marks _ listed).mpr (List.mem_map_of_mem member)
    rw [clean _ listed] at dirty
    cases dirty
  · intro none port listed
    rw [← Bool.not_eq_true, marked.marks port listed, none]
    simp

theorem endForward_tidy_iff {clone : Nat → Bool} {br : Bridge} {ended : Exit × LoopState}
    (marked : Marked clone br.portList ended.2) :
    Tidy br (endForward br ended) ↔ ended.1 = .done ∨ ended.2.handed = [] := by
  obtain ⟨exit, state⟩ := ended
  cases exit with
  | excluded | noClone =>
    refine ⟨fun tidy => Or.inr (marked.clean_iff.mp tidy.clean), ?_⟩
    rintro (impossible | none)
    · cases impossible
    · exact ⟨marked.clean_iff.mpr none, marked.once, fun _ => none⟩
  | done =>
    refine ⟨fun _ => Or.inl rfl, fun _ => ?_⟩
    rw [endForward]
    split_ifs with sent
    · refine ⟨fun port listed => if_pos listed, marked.once, fun zero => absurd zero sent⟩
    · have none : state.handed = [] := by
        by_contra some
        exact sent (by rw [marked.status some]; decide)
      exact ⟨marked.clean_iff.mpr none, marked.once, fun _ => none⟩

/-- A call leaves the ports unmarked and is honest about what it has sent just if it
is not left in the middle. -/
theorem brIgmpMcForward_tidy_iff (hash : U32 → Fin BR_IGMP_HASH_SIZE) {br : Bridge}
    (clean : ∀ port ∈ br.portList, br.dirty port = false) (frame : Frame) (env : ForwardEnv)
    (forward isRouted : Bool) :
    Tidy br (brIgmpMcForward hash br frame env forward isRouted) ↔
      Undisturbed hash br frame env isRouted := by
  unfold Undisturbed brIgmpMcForward
  cases route : mcRoute br frame env with
  | ordinary =>
    refine iff_of_true ⟨clean, List.nodup_nil, fun _ => rfl⟩ ?_
    rintro ip ⟨⟩
  | igmp type =>
    refine iff_of_true (processIgmp_tidy clean frame env type) ?_
    rintro ip ⟨⟩
  | lookup ip =>
    have start : Marked env.clone br.portList
        ⟨br.dirty, [], if br.igmpSnooping = SNOOPING_BLOCKING_MODE then 1 else 0⟩ := by
      refine ⟨?_, by simp, by simp, List.nodup_nil, fun some => absurd rfl some⟩
      intro port listed
      simp [clean port listed]
    have listed := br.listed (hash ip.daddr)
    dsimp only
    rw [endForward_tidy_iff (forwardLoop_marked listed start),
      forwardLoop_unmarked_iff listed start rfl]
    constructor
    · rintro only other ⟨⟩
      exact only
    · intro only
      exact only ip rfl

def streamEntry (port : Nat) : McEntry where
  dst := port
  txGrp := 0x050607ef
  src := 0
  filtMode := .mcastExclude
  type := MCPD_IF_TYPE_ROUTED
  excludePort := -1
  fromDev := 9

def streamBridge : Bridge where
  dev := 1
  portList := [2, 3]
  dirty := fun _ => false
  mcHash := fun _ => [streamEntry 2, streamEntry 3]
  igmpProxy := 0
  igmpSnooping := 1
  delayedSkb := fun _ => none
  listed := fun _ => by decide

def streamFrame : Frame where
  id := 7
  dev := ⟨1, false⟩
  framing := .ip
  pppIp := false
  destMulticast := true
  destBroadcast := false
  ip := ⟨0x01020304, 0x050607ef, IPPROTO_UDP, 0, 0⟩

def streamEnv (clone : Nat → Bool) : ForwardEnv where
  jiffies := 0
  hostControl := false
  isPort := false
  mcpd := 0
  clone := clone

theorem brIgmpMcForward_tidy_stream : Tidy streamBridge
        (brIgmpMcForward (fun _ => 0) streamBridge streamFrame (streamEnv fun _ => true) false
          true) ↔
      Undisturbed (fun _ => 0) streamBridge streamFrame (streamEnv fun _ => true) true :=
  brIgmpMcForward_tidy_iff (fun _ => 0) (by decide) streamFrame (streamEnv fun _ => true) false true

/-- With memory for the first copy only, the call returns 0 although port 2 has been
handed a copy, and leaves the mark on that port. -/
theorem failed_clone_leaves_mark :
    let result := brIgmpMcForward (fun _ => 0) streamBridge streamFrame
      (streamEnv fun port => port == 2) false true
    (∀ port ∈ streamBridge.portList, streamBridge.dirty port = false) ∧
      result.status = 0 ∧ result.handed = [⟨2, false⟩] ∧ result.bridge.dirty 2 = true := by
  decide

end RouterKernel.Snooping
