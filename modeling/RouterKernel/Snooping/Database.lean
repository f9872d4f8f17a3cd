import RouterKernel.Translation.Setup

/-!
Contract: the database of IGMP snooping in a bridge.

Owns:
- the entries of `mc_hash` with their lists of reporters;
- `br_igmp_control_filter`.

Does not own: how entries come and go, or forwarding.
-/

namespace RouterKernel.Snooping

open Foundation

/-! ## Entries -/

/-- `MCAST_INCLUDE` and `MCAST_EXCLUDE`. -/
inductive FiltMode where
  | mcastInclude
  | mcastExclude
deriving DecidableEq, Repr

/-- `struct net_bridge_mc_fdb_entry`, as far as it is read.  Ports and devices are known by their
addresses. -/
structure McEntry where
  dst : Nat
  txGrp : U32
  src : U32
  filtMode : FiltMode
  type : U8
  excludePort : U32
  fromDev : Nat
deriving DecidableEq, Repr

abbrev BR_IGMP_HASH_SIZE : Nat := 256

/-- `br->mc_hash`, from the head of each chain on. -/
abbrev McHash := Fin BR_IGMP_HASH_SIZE → List McEntry

/-- `br_igmp_control_filter`, where `broadcast` tells of the Ethernet destination, if
that is given. -/
def brIgmpControlFilter (broadcast : Bool) (destIp : U32) : Bool :=
  !(broadcast || destIp &&& htonl 0xFFFFFF00 == htonl 0xE0000000 ||
    destIp == htonl 0xEFFFFFFA || destIp == htonl 0xE000FF87)

end RouterKernel.Snooping
