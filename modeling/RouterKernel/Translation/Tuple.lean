import RouterKernel.Abi

/-!
Contract: the tuples that identify connections, for the IPv4 protocols with
ports.

Owns:
- `Tuple`, its two halves, and `nf_ct_invert_tuple`;
- which tuples are taken by other connections.
-/

namespace RouterKernel.Translation

open Foundation

/-! ## Tuples -/

structure Endpoint where
  ip : U32
  all : U16
deriving DecidableEq, Repr

/-- `enum ip_conntrack_dir`. -/
inductive Dir where
  | original
  | reply
deriving DecidableEq, Repr

/-- The C operator `!` on a direction. -/
def Dir.other : Dir → Dir
  | .original => .reply
  | .reply => .original

@[simp] theorem Dir.other_other (dir : Dir) : dir.other.other = dir := by
  cases dir <;> rfl

/-- `struct nf_conntrack_tuple`. -/
structure Tuple where
  src : Endpoint
  dst : Endpoint
  protonum : U8
  dir : Dir
deriving DecidableEq, Repr

/-- `enum nf_nat_manip_type`. -/
inductive ManipType where
  | src
  | dst
deriving DecidableEq, Repr

def Tuple.half (tuple : Tuple) : ManipType → Endpoint
  | .src => tuple.src
  | .dst => tuple.dst

def Tuple.setHalf (tuple : Tuple) (half : Endpoint) : ManipType → Tuple
  | .src => { tuple with src := half }
  | .dst => { tuple with dst := half }

/-- Write through `portptr`. -/
def Tuple.setPort (tuple : Tuple) (maniptype : ManipType) (port : U16) : Tuple :=
  tuple.setHalf { tuple.half maniptype with all := port } maniptype

@[simp] theorem Tuple.half_setPort (tuple : Tuple) (maniptype : ManipType) (port : U16) :
    (tuple.setPort maniptype port).half maniptype = { tuple.half maniptype with all := port } := by
  cases maniptype <;> rfl

@[simp] theorem Tuple.setPort_setPort (tuple : Tuple) (maniptype : ManipType) (first second : U16) :
    (tuple.setPort maniptype first).setPort maniptype second = tuple.setPort maniptype second := by
  cases maniptype <;> rfl

/-- `nf_ct_invert_tuple` with `ipv4_invert_tuple` and `tcp_invert_tuple` or
`udp_invert_tuple`. -/
def nfCtInvertTuple (tuple : Tuple) : Tuple where
  src := tuple.dst
  dst := tuple.src
  protonum := tuple.protonum
  dir := tuple.dir.other

@[simp] theorem nfCtInvertTuple_invert (tuple : Tuple) :
    nfCtInvertTuple (nfCtInvertTuple tuple) = tuple := by
  simp [nfCtInvertTuple]

/-- `nf_ct_tuple_equal`, which does not look at the direction. -/
def nfCtTupleEqual (left right : Tuple) : Bool :=
  left.src == right.src && left.dst == right.dst && left.protonum == right.protonum

/-- `nf_conntrack_tuple_taken`, by the tuples of the other connections in the zone. -/
def nfConntrackTupleTaken (table : List Tuple) (tuple : Tuple) : Bool :=
  table.any (nfCtTupleEqual tuple)

def nfNatUsedTuple (table : List Tuple) (tuple : Tuple) : Bool :=
  nfConntrackTupleTaken table (nfCtInvertTuple tuple)

end RouterKernel.Translation
