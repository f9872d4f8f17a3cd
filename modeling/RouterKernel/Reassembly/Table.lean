import RouterKernel.Reassembly.Faithful
import RouterKernel.Reassembly.Ipv6

/-!
Contract: the life of fragment queues, `net/ipv4/inet_fragment.c` with its three
users: IPv4, local IPv6 and IPv6 connection tracking.

Owns:
- lookup, creation, release, destruction and eviction of queues;
- `ip_defrag` with the two limits, `ipv6_frag_rcv`, `nf_ct_frag6_gather` and the
  timer handlers;
- `fragStep`, one event of the whole system.

A queue holds references for its timer, its place in the hash table and each
running handler.  Freeing a queue that is still hashed, armed or in use by a
handler is a fault.  Memory accounting and the order of the LRU list only decide
when and which queues the evictor takes, so an event names them.
-/

namespace RouterKernel.Reassembly

open Foundation

/-- The three `struct inet_frags`. -/
inductive Family where
  | ipv4
  | ipv6
  | conntrack6
deriving DecidableEq, Repr

/-- What `match` compares. -/
inductive Key where
  | ipv4 (id : U16) (saddr daddr : U32) (protocol : U8) (user : U32)
  | ipv6 (id user : U32) (saddr daddr : BitVec 128)
  | conntrack6 (id user : U32) (saddr daddr : BitVec 128)
deriving DecidableEq, Repr

def Key.family : Key → Family
  | .ipv4 .. => .ipv4
  | .ipv6 .. => .ipv6
  | .conntrack6 .. => .conntrack6

/-- A queue in memory.  `firing` counts the timer handlers that have been started
and not finished; an IPv6 queue does not use the IPv4 fields of `ipq`. -/
structure Entry where
  key : Key
  ipq : Ipq
  firing : Nat
deriving DecidableEq, Repr

/-- All queues in memory, hashed or not, those that have been freed, each as it
was then, and `ip_frag_total_count`. -/
structure FragState where
  total : Int
  entries : List Entry
  freed : List Entry
deriving DecidableEq, Repr

def FragState.initial : FragState := ⟨0, [], []⟩

/-- `sysctl_ipfrag_count_max`, `sysctl_ipfrag_count_per_ip_max` and
`sysctl_ipfrag_max_dist`. -/
structure Limits where
  countMax : Int
  countPerIpMax : Int
  maxDist : U32
deriving DecidableEq, Repr

/-! ## Release -/

/-- `inet_frag_destroy`: each fragment freed is taken off the counter, whatever
the family. -/
def inetFragDestroy (state : FragState) (index : Nat) (entry : Entry) : Except Fault FragState :=
  let q := entry.ipq.q
  if !q.complete || q.timerPending || decide (0 < entry.firing) then .error (.useAfterFree index)
  else
    .ok {
      total := state.total - q.fragments.length
      entries := state.entries.eraseIdx index
      freed := entry :: state.freed }

/-- `inet_frag_put` on the queue at `index`, whose present content is `entry`. -/
def inetFragPut (state : FragState) (index : Nat) (entry : Entry) : Except Fault FragState :=
  let released : Entry := { entry with ipq := { entry.ipq with
    q := { entry.ipq.q with refcnt := entry.ipq.q.refcnt - 1 } } }
  if released.ipq.q.refcnt = 0 then inetFragDestroy state index released
  else .ok { state with entries := state.entries.set index released }

/-- One turn of `inet_frag_evictor`; the LRU list holds the hashed queues of one
family. -/
def evictOne (family : Family) (state : FragState) (index : Nat) : Except Fault FragState :=
  match state.entries[index]? with
  | none => .ok state
  | some entry =>
    if entry.key.family ≠ family ∨ entry.ipq.q.complete = true then .ok state
    else
      inetFragPut state index { entry with ipq := { entry.ipq with
        q := inetFragKill { entry.ipq.q with refcnt := entry.ipq.q.refcnt + 1 } } }

/-- `inet_frag_evictor` on the named queues. -/
def inetFragEvictor (family : Family) (state : FragState) (indices : List Nat) :
    Except Fault FragState :=
  indices.foldlM (evictOne family) state

/-! ## Lookup -/

/-- `inet_frag_find`: a hashed queue that matches, with one more reference, or a
new one.  `fresh` is what the allocation and the constructor give.  The caller
works on the entry it gets, which has its reference; the table gets that entry
back with the caller's `inetFragPut` and until then shows the queue without. -/
def inetFragFind (state : FragState) (key : Key) (fresh : Option Ipq) :
    Option (Nat × Entry × FragState) :=
  match state.entries.findIdx? fun entry => decide (entry.key = key) && !entry.ipq.q.complete with
  | some index =>
    match state.entries[index]? with
    | none => none
    | some entry =>
      some (index, { entry with ipq := { entry.ipq with
        q := { entry.ipq.q with refcnt := entry.ipq.q.refcnt + 1 } } }, state)
  | none =>
    match fresh with
    | none => none
    | some ipq =>
      let stored : Entry := ⟨key, { ipq with q := { ipq.q with refcnt := ipq.q.refcnt - 1 } }, 0⟩
      some (state.entries.length, ⟨key, ipq, 0⟩,
        { state with entries := state.entries ++ [stored] })

/-! ## Arrivals -/

/-- An IPv4 fragment arrives: what the evictor takes first, the key, whether a
queue and a peer could be allocated, and the call of `ip_frag_queue`. -/
structure Arrival4 where
  evict : List Nat
  id : U16
  saddr : U32
  daddr : U32
  protocol : U8
  user : U32
  allocates : Bool
  peerFound : Bool
  call : Call
deriving DecidableEq, Repr

def Arrival4.key (arrival : Arrival4) : Key :=
  .ipv4 arrival.id arrival.saddr arrival.daddr arrival.protocol arrival.user

/-- `inet_frag_alloc` with `ip4_frag_init`. -/
def Arrival4.fresh (limits : Limits) (arrival : Arrival4) : Option Ipq :=
  if arrival.allocates then
    some (newQueue arrival.call.skb.tos (limits.maxDist != 0 && arrival.peerFound) 0).ipq
  else none

/-- `ip_defrag` once a queue is found. -/
def ipDefragQueue (limits : Limits) (arrival : Arrival4) (index : Nat) (entry : Entry)
    (state : FragState) : Except Fault (Int × FragState) :=
  if limits.countPerIpMax ≤ entry.ipq.q.count then
    match inetFragPut state index entry with
    | .error fault => .error fault
    | .ok after => .ok (-ENOMEM, after)
  else
    match ipFragQueue limits.maxDist ⟨entry.ipq, state.total⟩ arrival.call with
    | .error fault => .error fault
    | .ok (result, counted) =>
      match inetFragPut { state with total := counted.total } index
          { entry with ipq := counted.ipq } with
      | .error fault => .error fault
      | .ok after => .ok (result.ret, after)

def ipDefrag (limits : Limits) (state : FragState) (arrival : Arrival4) :
    Except Fault (Int × FragState) :=
  match inetFragEvictor .ipv4 state arrival.evict with
  | .error fault => .error fault
  | .ok state =>
    if limits.countMax ≤ state.total then .ok (-ENOMEM, state)
    else
      match inetFragFind state arrival.key (arrival.fresh limits) with
      | none => .ok (-ENOMEM, state)
      | some (index, entry, state) => ipDefragQueue limits arrival index entry state

/-- An IPv6 fragment arrives.  `prepared` says that its headers could be found
and pulled and, in connection tracking, the buffer cloned. -/
structure Arrival6 where
  evict : List Nat
  id : U32
  user : U32
  saddr : BitVec 128
  daddr : BitVec 128
  prepared : Bool
  allocates : Bool
  call : Call6
deriving DecidableEq, Repr

def IP6_DEFRAG_LOCAL_DELIVER : U32 := 0

/-- `inet_frag_alloc` with `ip6_frag_init`. -/
def Arrival6.fresh (arrival : Arrival6) : Option Ipq :=
  if arrival.allocates then some ⟨InetFragQueue.fresh, 0, 0, false⟩ else none

/-- Eviction, lookup and queueing, which `ipv6_frag_rcv` and
`nf_ct_frag6_gather` do alike. -/
def queueFragment6 (family : Family) (adoptsHead : Bool) (key : Key) (state : FragState)
    (arrival : Arrival6) : Except Fault (Verdict6 × FragState) :=
  match inetFragEvictor family state arrival.evict with
  | .error fault => .error fault
  | .ok state =>
    match inetFragFind state key arrival.fresh with
    | none => .ok (.refused, state)
    | some (index, entry, state) =>
      match ip6FragQueue adoptsHead entry.ipq.q arrival.call with
      | .error fault => .error fault
      | .ok (verdict, q) =>
        match inetFragPut state index { entry with ipq := { entry.ipq with q := q } } with
        | .error fault => .error fault
        | .ok after => .ok (verdict, after)

/-- `ipv6_frag_rcv`: 1 for a whole datagram, -1 otherwise. -/
def ipv6FragRcv (state : FragState) (arrival : Arrival6) : Except Fault (Int × FragState) :=
  if arrival.call.skb.payloadLen = 0 ∨ arrival.prepared = false then .ok (-1, state)
  else if arrival.call.skb.fragOff &&& 0xFFF9#16 = 0 then .ok (1, state)
  else
    match queueFragment6 .ipv6 true
        (.ipv6 arrival.id IP6_DEFRAG_LOCAL_DELIVER arrival.saddr arrival.daddr) state arrival with
    | .error fault => .error fault
    | .ok (.reassembled _ _, after) => .ok (1, after)
    | .ok (_, after) => .ok (-1, after)

/-- `nf_ct_frag6_gather`, which gives back a buffer and no number. -/
def nfCtFrag6Gather (state : FragState) (arrival : Arrival6) : Except Fault FragState :=
  if arrival.call.skb.payloadLen = 0 ∨ arrival.prepared = false then .ok state
  else
    match queueFragment6 .conntrack6 false
        (.conntrack6 arrival.id arrival.user arrival.saddr arrival.daddr) state arrival with
    | .error fault => .error fault
    | .ok (_, after) => .ok after

/-! ## Timers -/

/-- A pending timer fires: its handler starts and takes over its reference. -/
def timerFires (state : FragState) (index : Nat) : FragState :=
  match state.entries[index]? with
  | none => state
  | some entry =>
    if entry.ipq.q.timerPending then
      { state with entries := state.entries.set index { entry with
        ipq := { entry.ipq with q := { entry.ipq.q with timerPending := false } }
        firing := entry.firing + 1 } }
    else state

/-- `ip_expire`, `ip6_frag_expire` and `nf_ct_frag6_expire` as far as the queue
is concerned. -/
def fragExpire (state : FragState) (index : Nat) : Except Fault FragState :=
  match state.entries[index]? with
  | none => .ok state
  | some entry =>
    if entry.firing = 0 then .ok state
    else
      inetFragPut state index { entry with
        ipq := { entry.ipq with
          q := if entry.ipq.q.complete then entry.ipq.q else inetFragKill entry.ipq.q }
        firing := entry.firing - 1 }

/-! ## The system -/

inductive FragEvent where
  | ipv4 (arrival : Arrival4)
  | ipv6 (arrival : Arrival6)
  | conntrack6 (arrival : Arrival6)
  | timerFires (index : Nat)
  | expire (index : Nat)
  | evict (family : Family) (indices : List Nat)
deriving DecidableEq, Repr

/-- One event, with the number that its function returns if it returns one. -/
def fragStep (limits : Limits) (state : FragState) :
    FragEvent → Except Fault (Option Int × FragState)
  | .ipv4 arrival => (ipDefrag limits state arrival).map (Prod.map some id)
  | .ipv6 arrival => (ipv6FragRcv state arrival).map (Prod.map some id)
  | .conntrack6 arrival => (nfCtFrag6Gather state arrival).map (none, ·)
  | .timerFires index => .ok (none, timerFires state index)
  | .expire index => (fragExpire state index).map (none, ·)
  | .evict family indices => (inetFragEvictor family state indices).map (none, ·)

end RouterKernel.Reassembly
