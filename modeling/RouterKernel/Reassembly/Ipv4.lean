import RouterKernel.Reassembly.Queue

/-!
Contract: `ip_frag_queue`, `ip_frag_reinit` and `ip_frag_reasm` of
`net/ipv4/ip_fragment.c`.

Owns:
- `Ipq`, a queue with the IPv4 fields, and the global fragment counter;
- the treatment of overlaps: trimming against the predecessor, eating heads of
  successors, dropping what is covered;
- reassembly with all its failures.

Does not own: lookup, limits, timers and destruction of queues.

Checksum state, device bookkeeping and the attack log lines have no influence
on the queue and are left out.
-/

namespace RouterKernel.Reassembly

open Foundation

/-- `struct ipq` as far as queueing reads it. -/
structure Ipq where
  q : InetFragQueue
  ecn : U8
  rid : U32
  hasPeer : Bool
deriving DecidableEq, Repr

/-- A queue together with `ip_frag_total_count`. -/
structure Counted where
  ipq : Ipq
  total : Int
deriving DecidableEq, Repr

/-- An arriving fragment, after the checks of the IP receive path: `fragOff` in
host order, the header length in bytes and the bytes after the header. -/
structure Skb where
  fragOff : U16
  ihl : Nat
  tos : U8
  payload : List U8
  /-- `IPSKB_FRAG_COMPLETE` in the control block. -/
  fragComplete : Bool
deriving DecidableEq, Repr

def IP_MF : U16 := 0x2000
def IP_OFFSET : U16 := 0x1fff

namespace Skb

def offset (skb : Skb) : Nat := (skb.fragOff &&& IP_OFFSET).toNat * 8

def more (skb : Skb) : Bool := skb.fragOff &&& IP_MF != 0

/-- `end`, rounded down to a multiple of 8 when more fragments follow. -/
def stop (skb : Skb) : Nat :=
  if skb.more then (skb.offset + skb.payload.length) / 8 * 8
  else skb.offset + skb.payload.length

end Skb

/-- What the allocator and the state of shared buffers decide during a call: a
field that is false makes that operation fail. -/
structure Resources where
  pullHeader : Bool
  trim : Bool
  pullOverlap : Bool
  pullNext : Bool
  clone : Bool
  headCloned : Bool
  expandHead : Bool
  headHasFragList : Bool
  allocSplit : Bool
deriving DecidableEq, Repr

/-- One call of `ip_frag_queue`: the fragment, the value that
`atomic_inc_return(&peer->rid)` gives, and the resources. -/
structure Call where
  skb : Skb
  peerRid : U32
  resources : Resources
deriving DecidableEq, Repr

structure Datagram where
  payload : List U8
  ihl : Nat
  totLen : Nat
  tos : U8
deriving DecidableEq, Repr

/-- The result of a call; `entered` is the queue on which `ip_frag_reasm` was
called, if it was. -/
structure QueueResult where
  ret : Int
  entered : Option InetFragQueue
  datagram : Option Datagram
deriving DecidableEq, Repr

def QueueResult.failed (err : Int) : QueueResult := ⟨err, none, none⟩

/-! ## Explicit congestion notification -/

def ip4FragEcn (tos : U8) : U8 := 1#8 <<< (tos &&& 3).toNat

/-- `ip4_frag_ecn_table`; the index bits are NOT_ECT, ECT_1, ECT_0 and CE. -/
def ip4FragEcnTable (ecn : U8) : U8 :=
  if ecn = 0x0c ∨ ecn = 0x0a ∨ ecn = 0x0e then 3
  else if ecn = 0x09 ∨ ecn = 0x05 ∨ ecn = 0x03 ∨ ecn = 0x07 ∨ ecn = 0x0d ∨ ecn = 0x0b ∨
    ecn = 0x0f then 0xff
  else 0

/-! ## Starting over -/

/-- `ip_frag_too_far`, with the queue it leaves behind. -/
def ipFragTooFar (maxDist : U32) (peerRid : U32) (qp : Ipq) : Bool × Ipq :=
  if !qp.hasPeer || maxDist == 0 then (false, qp)
  else
    (!qp.q.fragments.isEmpty && decide (maxDist < peerRid - qp.rid), { qp with rid := peerRid })

/-- `ip_frag_reinit`.  `mod_timer` arms the timer in any case and says whether it
was pending. -/
def ipFragReinit (state : Counted) : Int × Counted :=
  let q := state.ipq.q
  if q.timerPending then
    (0,
      { ipq := { state.ipq with
          q := { q with
            fragments := []
            fragmentsTail := none
            len := 0
            meat := 0
            firstIn := false
            lastIn := false
            complete := false
            count := q.count - q.fragments.length }
          ecn := 0 }
        total := state.total - q.fragments.length })
  else
    (-ETIMEDOUT,
      { state with ipq := { state.ipq with
          q := { q with timerPending := true, refcnt := q.refcnt + 1 } } })

/-- The distance test at the head of `ip_frag_queue`; a non-zero first component
is the error after which the queue is killed. -/
def checkDistance (maxDist : U32) (call : Call) (state : Counted) : Int × Counted :=
  if call.skb.fragComplete then (0, state)
  else
    let (tooFar, ipq) := ipFragTooFar maxDist call.peerRid state.ipq
    if tooFar then ipFragReinit { state with ipq := ipq } else (0, { state with ipq := ipq })

/-! ## Overlaps -/

/-- The overlap with the predecessor: the new offset and data, or an error. -/
def trimHead (pullOverlap : Bool) (before : List Fragment) (offset stop : Nat)
    (data : List U8) : Except Int (Nat × List U8) :=
  match before.getLast? with
  | none => .ok (offset, data)
  | some prev =>
    if offset < prev.stop then
      if stop ≤ prev.stop then .error (-EINVAL)
      else if !pullOverlap then .error (-ENOMEM)
      else .ok (prev.stop, data.drop (prev.stop - offset))
    else .ok (offset, data)

/-- What the loop over the successors leaves: the remaining list, what it took
off `meat`, how many fragments it freed, and whether every pull succeeded. -/
structure Eaten where
  after : List Fragment
  meat : Nat
  removed : Nat
  pulled : Bool
deriving DecidableEq, Repr

/-- The loop over the successors that begin before `stop`. -/
def eatOverlap (pullNext : Bool) (stop : Nat) : List Fragment → Eaten
  | [] => ⟨[], 0, 0, true⟩
  | next :: rest =>
    if next.offset < stop then
      let overlap := stop - next.offset
      if overlap < next.len then
        if pullNext then
          ⟨{ next with offset := next.offset + overlap, data := next.data.drop overlap } :: rest,
            overlap, 0, true⟩
        else ⟨next :: rest, 0, 0, false⟩
      else
        let eaten := eatOverlap pullNext stop rest
        { eaten with meat := next.len + eaten.meat, removed := eaten.removed + 1 }
    else ⟨next :: rest, 0, 0, true⟩

/-! ## Reassembly -/

/-- The failures of `ip_frag_reasm` after the head is in place. -/
def reasmError (resources : Resources) (totLen : Nat) : Option Int :=
  if 65535 < totLen then some (-E2BIG)
  else if resources.headCloned && !resources.expandHead then some (-ENOMEM)
  else if resources.headHasFragList && !resources.allocSplit then some (-ENOMEM)
  else none

def ipFragReasm (resources : Resources) (state : Counted) (before : List Fragment)
    (skb : Fragment) (after : List Fragment) : QueueResult × Counted :=
  let entered := state.ipq.q
  let killed := inetFragKill entered
  let ecn := ip4FragEcnTable state.ipq.ecn
  if ecn = 0xff then
    (⟨-EINVAL, some entered, none⟩, { state with ipq := { state.ipq with q := killed } })
  else if !before.isEmpty && !resources.clone then
    (⟨-ENOMEM, some entered, none⟩, { state with ipq := { state.ipq with q := killed } })
  else
    let q := adoptHead killed before skb after
    let head := q.fragments.head?.getD skb
    let totLen := head.ihl + q.len
    match reasmError resources totLen with
    | some err => (⟨err, some entered, none⟩, { state with ipq := { state.ipq with q := q } })
    | none =>
      (⟨0, some entered,
          some ⟨q.fragments.flatMap Fragment.data, head.ihl, totLen, head.tos ||| ecn⟩⟩,
        { ipq := { state.ipq with
            q := { q with fragments := [], fragmentsTail := none, count := 0 } }
          total := state.total - q.count })

/-! ## Queueing -/

/-- Insertion of the fragment between what is before and after it, and the test
for completeness. -/
def insertFragment (call : Call) (state : Counted) (before after : List Fragment)
    (offset : Nat) (data : List U8) : QueueResult × Counted :=
  let skb : Fragment :=
    ⟨state.ipq.q.nextAddress, offset, data, call.skb.ihl, call.skb.tos⟩
  let linked := link state.ipq.q before skb after
  let state : Counted :=
    { ipq := { state.ipq with
        q := { linked with count := linked.count + 1 }
        ecn := state.ipq.ecn ||| ip4FragEcn call.skb.tos }
      total := state.total + 1 }
  if state.ipq.q.ready then ipFragReasm call.resources state before skb after
  else (QueueResult.failed (-EINPROGRESS), state)

/-- Overlap elimination and insertion. -/
def placeFragment (call : Call) (state : Counted) (before after : List Fragment) :
    QueueResult × Counted :=
  let skb := call.skb
  match trimHead call.resources.pullOverlap before skb.offset skb.stop
      (skb.payload.take (skb.stop - skb.offset)) with
  | .error err => (QueueResult.failed err, state)
  | .ok (offset, data) =>
    let eaten := eatOverlap call.resources.pullNext skb.stop after
    let q := state.ipq.q
    let state : Counted :=
      { ipq := { state.ipq with
          q := { q with
            fragments := before ++ eaten.after
            meat := q.meat - eaten.meat
            count := q.count - eaten.removed } }
        total := state.total - eaten.removed }
    if eaten.pulled then insertFragment call state before eaten.after offset data
    else (QueueResult.failed (-ENOMEM), state)

/-- `ip_frag_queue` after the distance test. -/
def acceptFragment (call : Call) (state : Counted) : Except Fault (QueueResult × Counted) :=
  let skb := call.skb
  match noteEnd skb.more skb.stop state.ipq.q with
  | none => .ok (QueueResult.failed (-EINVAL), state)
  | some q =>
    let state : Counted := { state with ipq := { state.ipq with q := q } }
    if skb.stop = skb.offset then .ok (QueueResult.failed (-EINVAL), state)
    else if !call.resources.pullHeader then .ok (QueueResult.failed (-ENOMEM), state)
    else if skb.stop - skb.offset < skb.payload.length ∧ call.resources.trim = false then
      .ok (QueueResult.failed (-ENOMEM), state)
    else
      match locate q skb.offset with
      | .error fault => .error fault
      | .ok (before, after) => .ok (placeFragment call state before after)

def ipFragQueue (maxDist : U32) (state : Counted) (call : Call) :
    Except Fault (QueueResult × Counted) :=
  if state.ipq.q.complete then .ok (QueueResult.failed (-ENOENT), state)
  else
    let (err, state) := checkDistance maxDist call state
    if err ≠ 0 then
      .ok (QueueResult.failed err,
        { state with ipq := { state.ipq with q := inetFragKill state.ipq.q } })
    else acceptFragment call state

end RouterKernel.Reassembly
