import RouterKernel.Foundation.Intervals
import RouterKernel.Abi

/-!
Contract: the fragment queue of `include/net/inet_frag.h` and the parts of
queueing that the protocols share.

Owns:
- `Fragment` and `InetFragQueue`;
- `inet_frag_kill`;
- the end-of-datagram bookkeeping, the search for the place of a fragment and
  its insertion, which the IPv4 and IPv6 code spell out alike.

Does not own: what a protocol does about overlaps, or reassembly.

Fragments have addresses, because `fragments_tail` is a pointer: following it
to a fragment that is no longer on the list is a fault.
-/

namespace RouterKernel.Reassembly

open Foundation

def ENOENT : Int := 2
def E2BIG : Int := 7
def ETIMEDOUT : Int := 110
def EINPROGRESS : Int := 115

/-- A queued `sk_buff`: its data without the IP header, the offset in its control
block, and the fields of its own header that reassembly reads. -/
structure Fragment where
  address : Nat
  offset : Nat
  data : List U8
  ihl : Nat
  tos : U8
deriving DecidableEq, Repr

namespace Fragment

def len (fragment : Fragment) : Nat := fragment.data.length

def stop (fragment : Fragment) : Nat := fragment.offset + fragment.len

end Fragment

/-- `struct inet_frag_queue`.  The three flags are the bits of `last_in`;
`nextAddress` is an address at which no `sk_buff` lives. -/
structure InetFragQueue where
  refcnt : Int
  timerPending : Bool
  fragments : List Fragment
  fragmentsTail : Option Nat
  len : Nat
  meat : Int
  firstIn : Bool
  lastIn : Bool
  complete : Bool
  count : Int
  nextAddress : Nat
deriving DecidableEq, Repr

/-- A queue as `inet_frag_alloc` and `inet_frag_intern` leave it: one reference
for the caller, one for the timer and one for the hash table. -/
def InetFragQueue.fresh : InetFragQueue where
  refcnt := 3
  timerPending := true
  fragments := []
  fragmentsTail := none
  len := 0
  meat := 0
  firstIn := false
  lastIn := false
  complete := false
  count := 0
  nextAddress := 0

/-- `inet_frag_kill`: a pending timer and a place in the hash table each held a
reference. -/
def inetFragKill (q : InetFragQueue) : InetFragQueue :=
  { q with
    refcnt := q.refcnt - (if q.timerPending then 1 else 0) - (if q.complete then 0 else 1)
    timerPending := false
    complete := true }

/-- The final-fragment test and the update of `last_in` and `len`; `none` means
that the segment is corrupted. -/
def noteEnd (more : Bool) (stop : Nat) (q : InetFragQueue) : Option InetFragQueue :=
  if more then
    if q.len < stop then
      if q.lastIn then none else some { q with len := stop }
    else some q
  else if stop < q.len ∨ (q.lastIn = true ∧ stop ≠ q.len) then none
  else some { q with lastIn := true, len := stop }

def through (address : Nat) : List Fragment → List Fragment
  | [] => []
  | fragment :: rest =>
    if fragment.address = address then [fragment] else fragment :: through address rest

/-- The search for `prev` and `next`: what comes before and after the place of a
fragment with the given offset. -/
def locate (q : InetFragQueue) (offset : Nat) : Except Fault (List Fragment × List Fragment) :=
  match q.fragmentsTail with
  | none => .ok ([], [])
  | some tail =>
    match q.fragments.find? (fun fragment => fragment.address == tail) with
    | none => .error (.useAfterFree tail)
    | some prev =>
      if prev.offset < offset then .ok (through tail q.fragments, [])
      else
        .ok (q.fragments.takeWhile (fun fragment => decide (fragment.offset < offset)),
          q.fragments.dropWhile (fun fragment => decide (fragment.offset < offset)))

/-- Insertion between `prev` and `next`. -/
def link (q : InetFragQueue) (before : List Fragment) (skb : Fragment) (after : List Fragment) :
    InetFragQueue :=
  { q with
    fragments := before ++ skb :: after
    fragmentsTail := if after.isEmpty then some skb.address else q.fragmentsTail
    meat := q.meat + skb.len
    firstIn := q.firstIn || decide (skb.offset = 0)
    nextAddress := q.nextAddress + 1 }

/-- "Make the one we just received the head": the received buffer takes over the
content of the first fragment, and a clone takes its place. -/
def adoptHead (q : InetFragQueue) (before : List Fragment) (skb : Fragment)
    (after : List Fragment) : InetFragQueue :=
  match before with
  | [] => q
  | first :: middle =>
    { q with
      fragments := { first with address := skb.address } ::
        (middle ++ { skb with address := q.nextAddress } :: after)
      fragmentsTail := if after.isEmpty then some q.nextAddress else q.fragmentsTail
      nextAddress := q.nextAddress + 1 }

variable {q : InetFragQueue} {before after : List Fragment} {skb : Fragment}

@[simp] theorem adoptHead_len : (adoptHead q before skb after).len = q.len := by
  cases before <;> rfl

@[simp] theorem adoptHead_meat : (adoptHead q before skb after).meat = q.meat := by
  cases before <;> rfl

@[simp] theorem adoptHead_count : (adoptHead q before skb after).count = q.count := by
  cases before <;> rfl

@[simp] theorem adoptHead_complete : (adoptHead q before skb after).complete = q.complete := by
  cases before <;> rfl

/-- `last_in == (FIRST_IN | LAST_IN) && meat == len`. -/
def InetFragQueue.ready (q : InetFragQueue) : Bool :=
  q.firstIn && q.lastIn && !q.complete && decide (q.meat = q.len)

end RouterKernel.Reassembly
