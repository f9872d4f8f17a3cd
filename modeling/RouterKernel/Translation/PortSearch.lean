import RouterKernel.Foundation.CyclicProbe
import RouterKernel.Foundation.Fueled
import RouterKernel.Translation.Tuple

/-!
Contract: `nf_nat_proto_unique_tuple`, the search for a port that makes a tuple
unique.

Owns:
- `struct nf_nat_ipv4_range` and the choice of the port range;
- the probe loop with its 16-bit counter;
- when the search finds a free port that exists, for every table of connections.

Does not own: the choice of addresses, or the set-up of a connection.
-/

namespace RouterKernel.Translation

open Foundation

def NF_NAT_RANGE_MAP_IPS : U32 := 1
def NF_NAT_RANGE_PROTO_SPECIFIED : U32 := 2
def NF_NAT_RANGE_PROTO_RANDOM : U32 := 4
def NF_NAT_RANGE_PERSISTENT : U32 := 8

/-- `struct nf_nat_ipv4_range`, in network byte order. -/
structure Range where
  flags : U32
  minIp : U32
  maxIp : U32
  min : U16
  max : U16
deriving DecidableEq, Repr

def Range.has (range : Range) (flag : U32) : Bool := range.flags &&& flag != 0

/-- `min` and `range_size`; nothing if "it's dst rewrite, can't change port". -/
def portRange (range : Range) (maniptype : ManipType) (tuple : Tuple) : Option (U32 × U32) :=
  if !range.has NF_NAT_RANGE_PROTO_SPECIFIED then
    if maniptype = .dst then none
    else
      let port := ntohs (tuple.half maniptype).all
      if port < 1024 then
        -- Loose convention: >> 512 is credential passing
        if port < 512 then some (1, 511 - 1 + 1) else some (600, 1023 - 600 + 1)
      else some (1024, 65535 - 1024 + 1)
  else
    let min := (ntohs range.min).setWidth 32
    some (min, (ntohs range.max).setWidth 32 - min + 1)

structure ProbeState where
  tuple : Tuple
  off : U16
  i : U32
deriving DecidableEq, Repr

/-- One probe.  The last one is not looked up. -/
def probeStep (table : List Tuple) (maniptype : ManipType) (min rangeSize : U32)
    (state : ProbeState) : Except Fault (Outcome ProbeState (Tuple × U16)) := do
  let rest ← umod (state.off.setWidth 32) rangeSize
  let tuple := state.tuple.setPort maniptype (htons ((min + rest).setWidth 16))
  let i := state.i + 1
  if i ≠ rangeSize ∧ nfNatUsedTuple table tuple = true then
    return .running { tuple, off := state.off + 1, i }
  else return .halted (tuple, state.off)

/-- `nf_nat_proto_unique_tuple`, with the tuple and the rover it leaves.
`ephemeral` is `secure_ipv4_port_ephemeral`. -/
def nfNatProtoUniqueTuple (ephemeral : U32 → U32 → U16 → U32) (table : List Tuple) (range : Range)
    (maniptype : ManipType) (tuple : Tuple) (rover : U16) (fuel : Nat) :
    Attempt Fault (Tuple × U16) :=
  match portRange range maniptype tuple with
  | none => pure (tuple, rover)
  | some (min, rangeSize) => do
    let off :=
      if range.has NF_NAT_RANGE_PROTO_RANDOM then
        (ephemeral tuple.src.ip tuple.dst.ip
          (if maniptype = .src then tuple.dst.all else tuple.src.all)).setWidth 16
      else rover
    let (tuple, off) ←
      loop (fun _ state => liftM (probeStep table maniptype min rangeSize state)) fuel
        { tuple, off, i := 0 }
    return (tuple, if range.has NF_NAT_RANGE_PROTO_RANDOM then rover else off)

/-! ## The ports of a range -/

private theorem toNat_one : (1 : U32).toNat = 1 := rfl

/-- The ports that the search may choose: `size` ports from `min` on. -/
structure Ports where
  min : Nat
  size : Nat
  positive : 0 < size
  fits : min + size ≤ 2 ^ 16

/-- The tuple with the port at a place of the range. -/
def Ports.at (ports : Ports) (maniptype : ManipType) (tuple : Tuple) (place : Nat) : Tuple :=
  tuple.setPort maniptype (htons (BitVec.ofNat 16 (ports.min + place)))

def Searches (range : Range) (maniptype : ManipType) (tuple : Tuple) (ports : Ports) : Prop :=
  portRange range maniptype tuple = some (BitVec.ofNat 32 ports.min, BitVec.ofNat 32 ports.size)

variable {range : Range}

/-- "(or no range, for a source rewrite)". -/
theorem searches_of_unspecified (tuple : Tuple)
    (unspecified : range.has NF_NAT_RANGE_PROTO_SPECIFIED = false) :
    ∃ ports, Searches range .src tuple ports := by
  simp only [Searches, portRange, unspecified, Bool.not_false, if_true, reduceCtorEq, if_false]
  split_ifs
  · exact ⟨⟨1, 511, by decide, by decide⟩, rfl⟩
  · exact ⟨⟨600, 424, by decide, by decide⟩, rfl⟩
  · exact ⟨⟨1024, 64512, by decide, by decide⟩, rfl⟩

theorem searches_of_specified (maniptype : ManipType) (tuple : Tuple)
    (specified : range.has NF_NAT_RANGE_PROTO_SPECIFIED = true)
    (ordered : ntohs range.min ≤ ntohs range.max) :
    ∃ ports : Ports, Searches range maniptype tuple ports ∧ ports.min = (ntohs range.min).toNat ∧
      ports.min + ports.size = (ntohs range.max).toNat + 1 := by
  have low : (ntohs range.min).toNat ≤ (ntohs range.max).toNat := ordered
  refine ⟨⟨(ntohs range.min).toNat, (ntohs range.max).toNat - (ntohs range.min).toNat + 1,
    by omega, by omega⟩, ?_, rfl, by dsimp only; omega⟩
  simp only [Searches, portRange, specified, Bool.not_true, Bool.false_eq_true, if_false,
    Option.some.injEq, Prod.mk.injEq]
  constructor <;> apply BitVec.eq_of_toNat_eq
  · simp only [BitVec.toNat_setWidth, BitVec.toNat_ofNat]
  · simp only [BitVec.toNat_add, BitVec.toNat_sub, BitVec.toNat_setWidth, BitVec.toNat_ofNat,
      toNat_one]
    omega

/-! ## The search -/

section Search

variable {table : List Tuple} {maniptype : ManipType} {tuple : Tuple} {ports : Ports} {rover : U16}

def Ports.probe (ports : Ports) (rover : U16) (count : Nat) : Nat :=
  probeAt (2 ^ 16) ports.size rover.toNat count

theorem Ports.probe_lt (ports : Ports) (rover : U16) (count : Nat) :
    ports.probe rover count < ports.size :=
  probeAt_lt ports.positive

/-- The loop in front of its probe number `count`: the tuple is that of an
earlier probe, and all earlier probes were in use. -/
structure Probing (table : List Tuple) (maniptype : ManipType) (tuple : Tuple) (ports : Ports)
    (rover : U16) (count : Nat) (state : ProbeState) : Prop where
  same : ∀ port, state.tuple.setPort maniptype port = tuple.setPort maniptype port
  off : state.off = rover + BitVec.ofNat 16 count
  i : state.i = BitVec.ofNat 32 count
  below : count < ports.size
  used : ∀ earlier, earlier < count →
    nfNatUsedTuple table (ports.at maniptype tuple (ports.probe rover earlier)) = true

theorem probeStep_eq {count : Nat} {state : ProbeState}
    (probing : Probing table maniptype tuple ports rover count state) :
    probeStep table maniptype (BitVec.ofNat 32 ports.min) (BitVec.ofNat 32 ports.size) state =
      .ok (if count + 1 ≠ ports.size ∧
          nfNatUsedTuple table (ports.at maniptype tuple (ports.probe rover count)) = true then
        .running { tuple := ports.at maniptype tuple (ports.probe rover count)
                   off := rover + BitVec.ofNat 16 (count + 1), i := BitVec.ofNat 32 (count + 1) }
      else .halted (ports.at maniptype tuple (ports.probe rover count),
        rover + BitVec.ofNat 16 count)) := by
  have positive := ports.positive
  have fits := ports.fits
  have below := probing.below
  have nonzero : BitVec.ofNat 32 ports.size ≠ 0 := by
    intro zero
    have bits : ports.size % 2 ^ 32 = 0 := congrArg BitVec.toNat zero
    omega
  have port : (BitVec.ofNat 32 ports.min + state.off.setWidth 32 %
      BitVec.ofNat 32 ports.size).setWidth 16 =
        BitVec.ofNat 16 (ports.min + ports.probe rover count) := by
    apply BitVec.eq_of_toNat_eq
    have size : ports.size % 2 ^ 32 = ports.size := Nat.mod_eq_of_lt (by omega)
    have counter : (rover.toNat + count % 2 ^ 16) % 2 ^ 16 = (rover.toNat + count) % 2 ^ 16 :=
      Nat.add_mod_mod _ _ _
    have small : (rover.toNat + count) % 2 ^ 16 < 2 ^ 32 := by omega
    rw [probing.off]
    simp only [BitVec.toNat_setWidth, BitVec.toNat_add, BitVec.toNat_umod, BitVec.toNat_ofNat,
      size, counter, Nat.mod_eq_of_lt small, Ports.probe, probeAt]
    omega
  have counted : BitVec.ofNat 32 count + 1 ≠ BitVec.ofNat 32 ports.size ↔
      count + 1 ≠ ports.size := by
    rw [not_iff_not, ← BitVec.toNat_inj]
    simp only [BitVec.toNat_add, BitVec.toNat_ofNat, toNat_one]
    omega
  have placed : state.tuple.setPort maniptype
      (htons (BitVec.ofNat 16 (ports.min + ports.probe rover count))) =
        ports.at maniptype tuple (ports.probe rover count) := probing.same _
  have next : state.off + 1 = rover + BitVec.ofNat 16 (count + 1) := by
    rw [probing.off, BitVec.add_assoc, BitVec.ofNat_add]
    rfl
  have index : BitVec.ofNat 32 (count + 1) = BitVec.ofNat 32 count + 1 := BitVec.ofNat_add _ _
  rw [probeStep, umod_ok nonzero]
  change (if _ then _ else _ : Except Fault _) = _
  rw [port, placed, probing.i, index, next, probing.off]
  simp only [counted]
  split_ifs <;> rfl

/-- A probe is the last one that is made: it was not in use, or nothing is left
to try. -/
structure Settles (table : List Tuple) (maniptype : ManipType) (tuple : Tuple) (ports : Ports)
    (rover : U16) (count : Nat) : Prop where
  below : count < ports.size
  used : ∀ earlier, earlier < count →
    nfNatUsedTuple table (ports.at maniptype tuple (ports.probe rover earlier)) = true
  last : nfNatUsedTuple table (ports.at maniptype tuple (ports.probe rover count)) = true →
    count + 1 = ports.size

theorem probes_halt {count : Nat} {state : ProbeState}
    (probing : Probing table maniptype tuple ports rover count state) :
    ∃ final, Settles table maniptype tuple ports rover final ∧
      runFor (turn fun state => (liftM (probeStep table maniptype (BitVec.ofNat 32 ports.min)
          (BitVec.ofNat 32 ports.size) state) : Attempt Fault _)) (ports.size - count) state =
        .halted (pure (ports.at maniptype tuple (ports.probe rover final),
          rover + BitVec.ofNat 16 final)) := by
  have below := probing.below
  generalize left : ports.size - count = remaining
  induction remaining generalizing count state with
  | zero => omega
  | succ remaining ih =>
    have step := probeStep_eq probing
    by_cases taken : count + 1 ≠ ports.size ∧
        nfNatUsedTuple table (ports.at maniptype tuple (ports.probe rover count)) = true
    · rw [if_pos taken] at step
      rw [runFor, turn_lift_running step]
      have next : Probing table maniptype tuple ports rover (count + 1)
          { tuple := ports.at maniptype tuple (ports.probe rover count)
            off := rover + BitVec.ofNat 16 (count + 1), i := BitVec.ofNat 32 (count + 1) } :=
        { same := fun port => Tuple.setPort_setPort _ _ _ _
          off := rfl
          i := rfl
          below := by omega
          used := by
            intro earlier before
            rcases Nat.lt_succ_iff_lt_or_eq.mp before with before | rfl
            · exact probing.used earlier before
            · exact taken.2 }
      exact ih next (by omega) (by omega)
    · rw [if_neg taken] at step
      rw [runFor, turn_lift_halted step]
      refine ⟨count, ⟨below, probing.used, ?_⟩, rfl⟩
      intro inUse
      by_contra more
      exact taken ⟨more, inUse⟩

/-- The search ends after at most `ports.size` probes. -/
theorem probeLoop_eq (table : List Tuple) (maniptype : ManipType) (tuple : Tuple) (ports : Ports)
    (rover : U16) :
    ∃ count, Settles table maniptype tuple ports rover count ∧ ∀ fuel, ports.size ≤ fuel →
        loop (fun _ state => liftM (probeStep table maniptype (BitVec.ofNat 32 ports.min)
            (BitVec.ofNat 32 ports.size) state)) fuel { tuple, off := rover, i := 0 } =
          (pure (ports.at maniptype tuple (ports.probe rover count),
            rover + BitVec.ofNat 16 count) : Attempt Fault (Tuple × U16)) := by
  have start : Probing table maniptype tuple ports rover 0 { tuple, off := rover, i := 0 } :=
    { same := fun _ => rfl
      off := (BitVec.add_zero rover).symm
      i := rfl
      below := ports.positive
      used := fun earlier before => absurd before (Nat.not_lt_zero earlier) }
  obtain ⟨count, settles, halts⟩ := probes_halt start
  refine ⟨count, settles, ?_⟩
  intro fuel enough
  rw [loop, runFor_halted_of_le halts (by omega)]

end Search

/-! ## What the search leaves -/

/-- The tuple that is left has a port of the range and is otherwise unchanged. -/
def Leaves (ports : Ports) (maniptype : ManipType) (tuple after : Tuple) : Prop :=
  ∃ place < ports.size, after = ports.at maniptype tuple place

/-- The search finds a free port if there is one. -/
def Completes (table : List Tuple) (ports : Ports) (maniptype : ManipType) (tuple after : Tuple) :
    Prop :=
  (∃ place < ports.size, nfNatUsedTuple table (ports.at maniptype tuple place) = false) →
    nfNatUsedTuple table after = false

section Complete

variable {table : List Tuple} {maniptype : ManipType} {tuple : Tuple} {ports : Ports} {rover : U16}

theorem Settles.completes {count : Nat} (settles : Settles table maniptype tuple ports rover count)
    (covers : ∀ place < ports.size, ∃ probe < ports.size, ports.probe rover probe = place) :
    Completes table ports maniptype tuple
      (ports.at maniptype tuple (ports.probe rover count)) := by
  rintro ⟨place, inside, free⟩
  by_contra inUse
  rw [Bool.not_eq_false] at inUse
  -- The last probe was made, so all probes were in use, among them the free place.
  obtain ⟨probe, made, rfl⟩ := covers place inside
  have last := settles.last inUse
  rcases Nat.lt_or_ge probe count with earlier | later
  · rw [settles.used probe earlier] at free
    cases free
  · obtain rfl : probe = count := by omega
    rw [inUse] at free
    cases free

theorem Ports.at_injective {left right : Nat} (leftInside : left < ports.size)
    (rightInside : right < ports.size)
    (same : ports.at maniptype tuple left = ports.at maniptype tuple right) : left = right := by
  have fits := ports.fits
  have halves := congrArg (fun tuple => ntohs (tuple.half maniptype).all) same
  simp only [Ports.at, Tuple.half_setPort, ntohs_htons] at halves
  have bits := congrArg BitVec.toNat halves
  simp only [BitVec.toNat_ofNat] at bits
  omega

/-- The connections that leave one place of the range free. -/
def takenBut (ports : Ports) (maniptype : ManipType) (tuple : Tuple) (place : Nat) : List Tuple :=
  ((List.range ports.size).filter (· ≠ place)).map fun other =>
    nfCtInvertTuple (ports.at maniptype tuple other)

theorem nfCtTupleEqual_iff {left right : Tuple} (same : left.dir = right.dir) :
    nfCtTupleEqual left right = true ↔ left = right := by
  obtain ⟨src, dst, protonum, dir⟩ := left
  obtain ⟨src', dst', protonum', dir'⟩ := right
  simp only [nfCtTupleEqual, Bool.and_eq_true, beq_iff_eq, Tuple.mk.injEq]
  constructor
  · rintro ⟨⟨rfl, rfl⟩, rfl⟩
    exact ⟨rfl, rfl, rfl, same⟩
  · rintro ⟨rfl, rfl, rfl, _⟩
    exact ⟨⟨rfl, rfl⟩, rfl⟩

theorem Ports.at_dir (ports : Ports) (maniptype : ManipType) (tuple : Tuple) (place : Nat) :
    (ports.at maniptype tuple place).dir = tuple.dir := by
  cases maniptype <;> rfl

theorem used_takenBut {place other : Nat} (inside : other < ports.size) :
    nfNatUsedTuple (takenBut ports maniptype tuple place) (ports.at maniptype tuple other) = true ↔
      other ≠ place := by
  simp only [nfNatUsedTuple, nfConntrackTupleTaken, takenBut, List.any_eq_true, List.mem_map,
    List.mem_filter, List.mem_range, decide_eq_true_eq]
  constructor
  · rintro ⟨_, ⟨found, ⟨foundInside, different⟩, rfl⟩, same⟩
    rw [nfCtTupleEqual_iff (by simp only [nfCtInvertTuple, Ports.at_dir])] at same
    have tuples := congrArg nfCtInvertTuple same
    rw [nfCtInvertTuple_invert, nfCtInvertTuple_invert] at tuples
    exact Ports.at_injective inside foundInside tuples ▸ different
  · intro different
    exact ⟨_, ⟨other, ⟨inside, different⟩, rfl⟩, (nfCtTupleEqual_iff rfl).mpr rfl⟩

end Complete

/-- The ranges that the search is meant for: in order, or none for a source
rewrite. -/
def Searchable (range : Range) (maniptype : ManipType) : Prop :=
  if range.has NF_NAT_RANGE_PROTO_SPECIFIED then ntohs range.min ≤ ntohs range.max
  else maniptype = .src

instance (range : Range) (maniptype : ManipType) : Decidable (Searchable range maniptype) :=
  inferInstanceAs (Decidable (ite _ _ _))

theorem Searchable.searches {maniptype : ManipType} (searchable : Searchable range maniptype)
    (tuple : Tuple) :
    ∃ ports, Searches range maniptype tuple ports ∧ (range.has NF_NAT_RANGE_PROTO_SPECIFIED = true →
        ports.min = (ntohs range.min).toNat ∧ ports.min + ports.size =
          (ntohs range.max).toNat + 1) := by
  unfold Searchable at searchable
  split_ifs at searchable with specified
  · obtain ⟨ports, searches, bounds⟩ :=
      searches_of_specified maniptype tuple specified searchable
    exact ⟨ports, searches, fun _ => bounds⟩
  · subst searchable
    rw [Bool.not_eq_true] at specified
    obtain ⟨ports, searches⟩ := searches_of_unspecified tuple specified
    refine ⟨ports, searches, fun contrary => ?_⟩
    rw [specified] at contrary
    cases contrary

theorem nfNatProtoUniqueTuple_settles (ephemeral : U32 → U32 → U16 → U32) (table : List Tuple)
    {maniptype : ManipType} {tuple : Tuple} (rover : U16) {ports : Ports}
    (searches : Searches range maniptype tuple ports)
    (sequential : range.has NF_NAT_RANGE_PROTO_RANDOM = false) :
    ∃ count, Settles table maniptype tuple ports rover count ∧ ∀ fuel, ports.size ≤ fuel →
        nfNatProtoUniqueTuple ephemeral table range maniptype tuple rover fuel =
          pure (ports.at maniptype tuple (ports.probe rover count),
            rover + BitVec.ofNat 16 count) := by
  obtain ⟨count, settles, loops⟩ := probeLoop_eq table maniptype tuple ports rover
  refine ⟨count, settles, ?_⟩
  intro fuel enough
  rw [nfNatProtoUniqueTuple, searches]
  simp only [sequential, Bool.false_eq_true, if_false]
  rw [loops fuel enough]
  rfl

/-- Without a random start the search ends after at most `range_size` probes, with
a port of the range and nothing else changed.  It finds a free port of the range
for every table of connections exactly if its 16-bit counter does not wrap on the
way, or the size of the range divides `2 ^ 16`. -/
theorem nfNatProtoUniqueTuple_complete_iff (ephemeral : U32 → U32 → U16 → U32) (range : Range)
    (maniptype : ManipType) (tuple : Tuple) (rover : U16)
    (searchable : Searchable range maniptype)
    (sequential : range.has NF_NAT_RANGE_PROTO_RANDOM = false) :
    ∃ ports, Searches range maniptype tuple ports ∧ (range.has NF_NAT_RANGE_PROTO_SPECIFIED = true →
        ports.min = (ntohs range.min).toNat ∧ ports.min + ports.size =
          (ntohs range.max).toNat + 1) ∧
      (∀ table, ∃ after next, Leaves ports maniptype tuple after ∧ ∀ fuel, ports.size ≤ fuel →
          nfNatProtoUniqueTuple ephemeral table range maniptype tuple rover fuel =
            pure (after, next)) ∧
      ((∀ table after next fuel, ports.size ≤ fuel →
          nfNatProtoUniqueTuple ephemeral table range maniptype tuple rover fuel =
            pure (after, next) →
          Completes table ports maniptype tuple after) ↔
        ports.size ∣ 2 ^ 16 ∨ rover.toNat + ports.size ≤ 2 ^ 16) := by
  obtain ⟨ports, searches, bounds⟩ := searchable.searches tuple
  refine ⟨ports, searches, bounds, ?_, ?_⟩
  · intro table
    obtain ⟨count, settles, returned⟩ :=
      nfNatProtoUniqueTuple_settles ephemeral table rover searches sequential
    exact ⟨_, _, ⟨_, ports.probe_lt rover count, rfl⟩, returned⟩
  have fits := ports.fits
  rw [← probes_cover_iff (show ports.size ≤ 2 ^ 16 by omega) rover.isLt]
  constructor
  · intro complete place inside
    by_contra missed
    obtain ⟨count, settles, returned⟩ := nfNatProtoUniqueTuple_settles ephemeral
      (takenBut ports maniptype tuple place) rover searches sequential
    have found := complete _ _ _ _ le_rfl (returned _ le_rfl)
    have free : nfNatUsedTuple (takenBut ports maniptype tuple place)
        (ports.at maniptype tuple place) = false := by
      rw [← Bool.not_eq_true, used_takenBut inside]
      exact not_not.mpr rfl
    have left := found ⟨place, inside, free⟩
    rw [← Bool.not_eq_true, used_takenBut (ports.probe_lt rover count), not_not] at left
    exact missed ⟨count, settles.below, left⟩
  · intro covers table after next fuel enough returned
    obtain ⟨count, settles, computed⟩ :=
      nfNatProtoUniqueTuple_settles ephemeral table rover searches sequential
    rw [computed fuel enough] at returned
    injection returned with returned
    injection returned with returned
    obtain ⟨rfl, _⟩ := Prod.mk.inj returned
    exact settles.completes covers

/-- A source rewrite to the ports 1000 to 1002. -/
def threePorts : Range where
  flags := NF_NAT_RANGE_PROTO_SPECIFIED
  minIp := 0
  maxIp := 0
  min := htons 1000
  max := htons 1002

def plainTuple : Tuple where
  src := ⟨1, htons 5000⟩
  dst := ⟨2, htons 80⟩
  protonum := 6
  dir := .original

theorem nfNatProtoUniqueTuple_complete_threePorts :
    ∃ ports, Searches threePorts .src plainTuple ports ∧
      (threePorts.has NF_NAT_RANGE_PROTO_SPECIFIED = true →
          ports.min = (ntohs threePorts.min).toNat ∧
          ports.min + ports.size = (ntohs threePorts.max).toNat + 1) ∧
      (∀ table, ∃ after next, Leaves ports .src plainTuple after ∧ ∀ fuel, ports.size ≤ fuel →
          nfNatProtoUniqueTuple (fun _ _ _ => 0) table threePorts .src plainTuple 7 fuel =
            pure (after, next)) ∧
      ((∀ table after next fuel, ports.size ≤ fuel →
          nfNatProtoUniqueTuple (fun _ _ _ => 0) table threePorts .src plainTuple 7 fuel =
            pure (after, next) →
          Completes table ports .src plainTuple after) ↔
        ports.size ∣ 2 ^ 16 ∨ (7 : U16).toNat + ports.size ≤ 2 ^ 16) :=
  nfNatProtoUniqueTuple_complete_iff (fun _ _ _ => 0) threePorts .src plainTuple 7
    (by decide) (by decide)

/-- With the rover at its largest value the ports 1000, 1000 and 1001 are probed:
if those two are taken, the search leaves 1001 although 1002 is free. -/
theorem rover_wrap_misses_free_port :
    let table := [plainTuple.setPort .src (htons 1000), plainTuple.setPort .src (htons 1001)].map
      nfCtInvertTuple
    (∀ fuel, nfNatProtoUniqueTuple (fun _ _ _ => 0) table threePorts .src plainTuple 65535
        (fuel + 3) = pure (plainTuple.setPort .src (htons 1001), 1)) ∧
      nfNatUsedTuple table (plainTuple.setPort .src (htons 1001)) = true ∧
      nfNatUsedTuple table (plainTuple.setPort .src (htons 1002)) = false := by
  refine ⟨fun fuel => ?_, by decide, by decide⟩
  rfl

end RouterKernel.Translation
