import RouterKernel.Translation.PortSearch

/-!
Contract: `nf_nat_setup_info`, which decides what a connection is translated to.

Owns:
- connections with their two tuples and the status bits of NAT;
- `get_unique_tuple` with its three stages;
- `Configured`, the connections on which set-up has run, and `Consistent`, what
  the status bits of such a connection say about its tuples.

Does not own: packets.  TCP and UDP are the protocols; the helpers that
`nf_conntrack_alter_reply` may assign are not modelled.
-/

namespace RouterKernel.Translation

open Foundation

def IPS_SRC_NAT : U32 := 1 <<< 4
def IPS_DST_NAT : U32 := 1 <<< 5
def IPS_NAT_MASK : U32 := IPS_DST_NAT ||| IPS_SRC_NAT
def IPS_SRC_NAT_DONE : U32 := 1 <<< 7
def IPS_DST_NAT_DONE : U32 := 1 <<< 8

/-- `struct nf_conn`, as far as NAT reads it. -/
structure Conn where
  original : Tuple
  reply : Tuple
  status : U32
  zone : U16
deriving DecidableEq, Repr

/-- `ct->tuplehash[dir].tuple`. -/
def Conn.tuple (ct : Conn) : Dir → Tuple
  | .original => ct.original
  | .reply => ct.reply

/-- What set-up finds in the kernel: the tuples of the other connections of the
zone, the connections by source in the bucket of a tuple, and the hash and random
functions. -/
structure Net where
  taken : List Tuple
  bySource : Tuple → List Conn
  jhash2words : U32 → U32 → U32 → U32
  ephemeral : U32 → U32 → U16 → U32

/-- `tcp_port_rover` and `udp_port_rover`. -/
structure Rovers where
  tcp : U16
  udp : U16
deriving DecidableEq, Repr

/-! ## The choice of a tuple -/

def nfNatProtoInRange (tuple : Tuple) (maniptype : ManipType) (min max : U16) : Bool :=
  let port := (tuple.half maniptype).all
  decide (ntohs min ≤ ntohs port) && decide (ntohs port ≤ ntohs max)

def inRange (tuple : Tuple) (range : Range) : Bool :=
  if range.has NF_NAT_RANGE_MAP_IPS && (decide (ntohl tuple.src.ip < ntohl range.minIp) ||
        decide (ntohl range.maxIp < ntohl tuple.src.ip)) then false
  else !range.has NF_NAT_RANGE_PROTO_SPECIFIED || nfNatProtoInRange tuple .src range.min range.max

def sameSrc (ct : Conn) (tuple : Tuple) : Bool :=
  ct.original.protonum == tuple.protonum && ct.original.src == tuple.src

/-- `find_appropriate_src`.  The destination is copied with its protocol and
direction. -/
def findAppropriateSrc (chain : List Conn) (zone : U16) (tuple : Tuple) (range : Range) :
    Option Tuple :=
  match chain with
  | [] => none
  | ct :: rest =>
    let result := { tuple with src := (nfCtInvertTuple ct.reply).src }
    if sameSrc ct tuple && ct.zone == zone && inRange result range then some result
    else findAppropriateSrc rest zone tuple range

/-- The address that `find_best_ips_proto` chooses. -/
def bestIp (net : Net) (zone : U16) (tuple : Tuple) (range : Range) : U32 :=
  if range.minIp = range.maxIp then range.minIp
  else
    let minip := ntohl range.minIp
    let maxip := ntohl range.maxIp
    let j := net.jhash2words tuple.src.ip
      (if range.has NF_NAT_RANGE_PERSISTENT then 0 else tuple.dst.ip ^^^ zone.setWidth 32) 0
    let j : U64 := (j.setWidth 64 * (maxip - minip + 1).setWidth 64) >>> 32
    htonl (minip + j.setWidth 32)

def findBestIpsProto (net : Net) (zone : U16) (tuple : Tuple) (range : Range)
    (maniptype : ManipType) : Tuple :=
  if range.has NF_NAT_RANGE_MAP_IPS then
    tuple.setHalf { tuple.half maniptype with ip := bestIp net zone tuple range } maniptype
  else tuple

/-- `proto->unique_tuple`, with the rover of the protocol. -/
def uniqueTuple (net : Net) (rovers : Rovers) (range : Range) (maniptype : ManipType)
    (tuple : Tuple) (fuel : Nat) : Attempt Fault (Tuple × Rovers) :=
  if tuple.protonum = IPPROTO_TCP then do
    let (tuple, tcp) ←
      nfNatProtoUniqueTuple net.ephemeral net.taken range maniptype tuple rovers.tcp fuel
    return (tuple, { rovers with tcp })
  else do
    let (tuple, udp) ←
      nfNatProtoUniqueTuple net.ephemeral net.taken range maniptype tuple rovers.udp fuel
    return (tuple, { rovers with udp })

/-- Stage 1 of `get_unique_tuple`: the tuple as it is, or the current mapping of its
source. -/
def currentMapping (net : Net) (zone : U16) (tuple : Tuple) (range : Range)
    (maniptype : ManipType) : Option Tuple :=
  if maniptype = .src ∧ range.has NF_NAT_RANGE_PROTO_RANDOM = false then
    if inRange tuple range then
      if nfNatUsedTuple net.taken tuple then none else some tuple
    else
      match findAppropriateSrc (net.bySource tuple) zone tuple range with
      | none => none
      | some found => if nfNatUsedTuple net.taken found then none else some found
  else none

/-- "Only bother mapping if it's not already in range and unique". -/
def goodEnough (net : Net) (tuple : Tuple) (range : Range) (maniptype : ManipType) : Bool :=
  if range.has NF_NAT_RANGE_PROTO_RANDOM then false
  else if range.has NF_NAT_RANGE_PROTO_SPECIFIED then
    nfNatProtoInRange tuple maniptype range.min range.max &&
      (range.min == range.max || !nfNatUsedTuple net.taken tuple)
  else !nfNatUsedTuple net.taken tuple

def getUniqueTuple (net : Net) (rovers : Rovers) (zone : U16) (origTuple : Tuple) (range : Range)
    (maniptype : ManipType) (fuel : Nat) : Attempt Fault (Tuple × Rovers) :=
  match currentMapping net zone origTuple range maniptype with
  | some found => pure (found, rovers)
  | none =>
    let tuple := findBestIpsProto net zone origTuple range maniptype
    if goodEnough net tuple range maniptype then pure (tuple, rovers)
    else uniqueTuple net rovers range maniptype tuple fuel

/-! ## Set-up -/

/-- The status bit that records a manipulation, and the one that records that the
set-up is done. -/
def natBit : ManipType → U32
  | .src => IPS_SRC_NAT
  | .dst => IPS_DST_NAT

def doneBit : ManipType → U32
  | .src => IPS_SRC_NAT_DONE
  | .dst => IPS_DST_NAT_DONE

def nfNatInitialized (ct : Conn) (maniptype : ManipType) : Bool :=
  ct.status &&& doneBit maniptype != 0

/-- `nf_nat_setup_info`.  `extended` says whether the connection has, or gets, room
for NAT. -/
def nfNatSetupInfo (net : Net) (extended : Bool) (rovers : Rovers) (ct : Conn) (range : Range)
    (maniptype : ManipType) (fuel : Nat) : Attempt Fault (Conn × Rovers) := do
  if !extended then return (ct, rovers)
  if nfNatInitialized ct maniptype then throw .bug
  let currTuple := nfCtInvertTuple ct.reply
  let (newTuple, rovers) ← getUniqueTuple net rovers ct.zone currTuple range maniptype fuel
  let ct :=
    if nfCtTupleEqual newTuple currTuple then ct
    else
      { ct with
        reply := nfCtInvertTuple newTuple
        status := ct.status ||| natBit maniptype }
  return ({ ct with status := ct.status ||| doneBit maniptype }, rovers)

/-- The connections on which set-up has run any number of times, whatever it found
in the kernel.  A second run for the same manipulation is a `BUG`. -/
inductive Configured : Conn → Prop where
  | fresh (original : Tuple) (status : U32) (zone : U16) (untouched : status &&& IPS_NAT_MASK = 0) :
      Configured ⟨original, nfCtInvertTuple original, status, zone⟩
  | setup {ct after : Conn} {net : Net} {extended : Bool} {rovers later : Rovers} {range : Range}
      {maniptype : ManipType} {fuel : Nat} (before : Configured ct)
      (ran : nfNatSetupInfo net extended rovers ct range maniptype fuel = pure (after, later)) :
      Configured after

/-! ## What set-up changes -/

def OnlyHalf (maniptype : ManipType) (before after : Tuple) : Prop :=
  after = before.setHalf (after.half maniptype) maniptype

theorem OnlyHalf.refl (maniptype : ManipType) (tuple : Tuple) : OnlyHalf maniptype tuple tuple := by
  cases maniptype <;> rfl

variable {maniptype : ManipType} {range : Range} {tuple after : Tuple} {zone : U16} {net : Net}
  {fuel : Nat}
  {rovers later : Rovers} {ct : Conn}

theorem OnlyHalf.trans {first second third : Tuple} (left : OnlyHalf maniptype first second)
    (right : OnlyHalf maniptype second third) :
    OnlyHalf maniptype first third := by
  rw [OnlyHalf] at left right
  rw [OnlyHalf, right, left]
  cases maniptype <;> rfl

theorem onlyHalf_setHalf (maniptype : ManipType) (tuple : Tuple) (half : Endpoint) :
    OnlyHalf maniptype tuple (tuple.setHalf half maniptype) := by
  cases maniptype <;> rfl

theorem onlyHalf_setPort (maniptype : ManipType) (tuple : Tuple) (port : U16) :
    OnlyHalf maniptype tuple (tuple.setPort maniptype port) :=
  onlyHalf_setHalf maniptype tuple _

theorem findAppropriateSrc_onlyHalf {chain : List Conn} {found : Tuple}
    (finds : findAppropriateSrc chain zone tuple range = some found) :
    OnlyHalf .src tuple found := by
  induction chain with
  | nil => cases finds
  | cons ct rest ih =>
    simp only [findAppropriateSrc] at finds
    split_ifs at finds
    · injection finds with same
      subst same
      rfl
    · exact ih finds

theorem currentMapping_onlyHalf {found : Tuple}
    (maps : currentMapping net zone tuple range maniptype = some found) :
    OnlyHalf maniptype tuple found := by
  unfold currentMapping at maps
  split_ifs at maps with source within used
  · injection maps with same
    subst same
    exact OnlyHalf.refl maniptype tuple
  · split at maps
    · cases maps
    · rename_i other finds
      split_ifs at maps
      injection maps with same
      subst same
      rw [source.1]
      exact findAppropriateSrc_onlyHalf finds

theorem findBestIpsProto_onlyHalf (net : Net) (zone : U16) (tuple : Tuple) (range : Range)
    (maniptype : ManipType) :
    OnlyHalf maniptype tuple (findBestIpsProto net zone tuple range maniptype) := by
  unfold findBestIpsProto
  split_ifs
  · exact onlyHalf_setHalf maniptype tuple _
  · exact OnlyHalf.refl maniptype tuple

theorem probeStep_onlyHalf {table : List Tuple} {min rangeSize : U32} {state : ProbeState}
    {outcome : Outcome ProbeState (Tuple × U16)}
    (computed : (liftM (probeStep table maniptype min rangeSize state) :
      Attempt Fault (Outcome ProbeState (Tuple × U16))) = pure outcome) :
    OnlyHalf maniptype state.tuple
      (match outcome with
        | .running next => next.tuple
        | .halted result => result.1) := by
  unfold probeStep umod at computed
  split_ifs at computed
  · cases computed
  · dsimp only [bind, Except.bind] at computed
    split_ifs at computed <;>
    · have same := pure_inj (ε := Fault) computed
      subst same
      exact onlyHalf_setPort maniptype state.tuple _

/-- Whatever the range, a search that ends has changed the port only. -/
theorem nfNatProtoUniqueTuple_onlyHalf {ephemeral : U32 → U32 → U16 → U32} {table : List Tuple}
    {rover next : U16}
    (returned : nfNatProtoUniqueTuple ephemeral table range maniptype tuple rover fuel =
      pure (after, next)) :
    OnlyHalf maniptype tuple after := by
  unfold nfNatProtoUniqueTuple at returned
  split at returned
  · obtain ⟨rfl, _⟩ := Prod.mk.inj (pure_inj returned)
    exact OnlyHalf.refl maniptype _
  · obtain ⟨⟨found, off⟩, looped, rest⟩ := bind_eq_pure returned
    obtain ⟨rfl, _⟩ := Prod.mk.inj (pure_inj rest)
    apply loop_post (fun state : ProbeState => OnlyHalf maniptype tuple state.tuple)
      (fun result : Tuple × U16 => OnlyHalf maniptype tuple result.1) _ _ _ looped
    · intro _ state next kept goes
      exact kept.trans (probeStep_onlyHalf goes)
    · intro _ state result kept ends
      exact kept.trans (probeStep_onlyHalf ends)
    · exact OnlyHalf.refl maniptype tuple

theorem uniqueTuple_onlyHalf
    (returned : uniqueTuple net rovers range maniptype tuple fuel = pure (after, later)) :
    OnlyHalf maniptype tuple after := by
  unfold uniqueTuple at returned
  split_ifs at returned
  all_goals
    obtain ⟨⟨found, rover⟩, searched, rest⟩ := bind_eq_pure returned
    obtain ⟨rfl, _⟩ := Prod.mk.inj (pure_inj rest)
    exact nfNatProtoUniqueTuple_onlyHalf searched

theorem getUniqueTuple_onlyHalf
    (returned : getUniqueTuple net rovers zone tuple range maniptype fuel = pure (after, later)) :
    OnlyHalf maniptype tuple after := by
  unfold getUniqueTuple at returned
  split at returned
  · rename_i found maps
    obtain ⟨rfl, _⟩ := Prod.mk.inj (pure_inj returned)
    exact currentMapping_onlyHalf maps
  · have best := findBestIpsProto_onlyHalf net zone tuple range maniptype
    dsimp only at returned
    split_ifs at returned
    · obtain ⟨rfl, _⟩ := Prod.mk.inj (pure_inj returned)
      exact best
    · exact best.trans (uniqueTuple_onlyHalf returned)

/-! ## What the status bits say -/

/-- A half whose status bit is not set is the same in the original tuple and in the
inverse of the reply tuple. -/
structure Consistent (ct : Conn) : Prop where
  protonum : ct.reply.protonum = ct.original.protonum
  half : ∀ maniptype, ct.status &&& natBit maniptype = 0 →
    (nfCtInvertTuple ct.reply).half maniptype = ct.original.half maniptype

private theorem and_or_eq_zero {left right bit : U32} (zero : (left ||| right) &&& bit = 0) :
    left &&& bit = 0 ∧ right &&& bit = 0 := by
  constructor <;>
  · apply BitVec.eq_of_getLsbD_eq
    intro index inside
    have bits := congrArg (fun word => word.getLsbD index) zero
    simp only [BitVec.getLsbD_and, BitVec.getLsbD_or] at bits ⊢
    revert bits
    cases left.getLsbD index <;> cases right.getLsbD index <;> cases bit.getLsbD index <;> simp

theorem Consistent.done (consistent : Consistent ct) (maniptype : ManipType) :
    Consistent { ct with status := ct.status ||| doneBit maniptype } :=
  ⟨consistent.protonum, fun other unset => consistent.half other (and_or_eq_zero unset).1⟩

theorem Consistent.alter (consistent : Consistent ct) {newTuple : Tuple}
    (changed : OnlyHalf maniptype (nfCtInvertTuple ct.reply) newTuple) :
    Consistent
      { ct with
        reply := nfCtInvertTuple newTuple
        status := ct.status ||| natBit maniptype } := by
  constructor
  · rw [changed]
    cases maniptype <;> exact consistent.protonum
  · intro other unset
    obtain ⟨before, here⟩ := and_or_eq_zero unset
    have different : maniptype ≠ other := by
      rintro rfl
      revert here
      cases maniptype <;> decide
    have kept : newTuple.half other = (nfCtInvertTuple ct.reply).half other := by
      rw [changed]
      cases maniptype <;> cases other <;> first | rfl | exact absurd rfl different
    dsimp only
    rw [nfCtInvertTuple_invert, kept]
    exact consistent.half other before

theorem nfNatSetupInfo_consistent {extended : Bool} {after : Conn}
    (ran : nfNatSetupInfo net extended rovers ct range maniptype fuel = pure (after, later))
    (consistent : Consistent ct) : Consistent after := by
  unfold nfNatSetupInfo at ran
  split_ifs at ran
  · obtain ⟨rfl, _⟩ := Prod.mk.inj (pure_inj ran)
    exact consistent
  · cases ran
  · obtain ⟨⟨newTuple, rovers⟩, chosen, rest⟩ := bind_eq_pure ran
    obtain ⟨rfl, _⟩ := Prod.mk.inj (pure_inj rest)
    apply Consistent.done
    split_ifs
    · exact consistent
    · exact consistent.alter (getUniqueTuple_onlyHalf chosen)

theorem Configured.consistent (configured : Configured ct) : Consistent ct := by
  induction configured with
  | fresh original status zone untouched =>
    refine ⟨rfl, fun maniptype _ => ?_⟩
    rw [nfCtInvertTuple_invert]
  | setup _ ran ih => exact nfNatSetupInfo_consistent ran ih

end RouterKernel.Translation
