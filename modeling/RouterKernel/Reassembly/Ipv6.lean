import RouterKernel.Reassembly.Sound

/-!
Contract: `ip6_frag_queue` with `ip6_frag_reasm` of `net/ipv6/reassembly.c`, and
`nf_ct_frag6_queue` with `nf_ct_frag6_reasm` of connection tracking.

Owns:
- one model of both, which differ in whether the received buffer becomes the
  head of the datagram and so needs a clone;
- `Reachable`, which keeps the list searchable from call to call.

Does not own: the fragment counters, which this code does not touch.

The length in the IPv6 header need not agree with the buffer: a raw socket can
send any header through connection tracking.
-/

namespace RouterKernel.Reassembly

open Foundation

/-- An arriving fragment: `frag_off` in host order, `payload_len` of the IPv6
header, the bytes between the IPv6 header and the end of the fragment header,
and the bytes of the buffer after it. -/
structure Skb6 where
  fragOff : U16
  payloadLen : U16
  headers : Nat
  payload : List U8
deriving DecidableEq, Repr

def IP6_MF : U16 := 0x0001
def IPV6_MAXPLEN : Int := 65535

/-- `sizeof(struct frag_hdr)`. -/
def fragHdrSize : Int := 8

namespace Skb6

def offset (skb : Skb6) : Nat := (skb.fragOff &&& ~~~7#16).toNat

def more (skb : Skb6) : Bool := skb.fragOff &&& IP6_MF != 0

/-- The signed `end`. -/
def stop (skb : Skb6) : Int := skb.offset + ((skb.payloadLen.toNat : Int) - skb.headers)

/-- The data after `pskb_trim_rcsum`, which takes `end - offset` as unsigned. -/
def trimmed (skb : Skb6) : List U8 :=
  if skb.stop < skb.offset then skb.payload
  else skb.payload.take (skb.stop - skb.offset).toNat

end Skb6

/-- What the allocator and the state of shared buffers decide during a call. -/
structure Resources6 where
  pullHeader : Bool
  trim : Bool
  clone : Bool
  headCloned : Bool
  expandHead : Bool
  headHasFragList : Bool
  allocSplit : Bool
deriving DecidableEq, Repr

structure Call6 where
  skb : Skb6
  resources : Resources6
deriving DecidableEq, Repr

/-- What became of the fragment: not queued, queued (reassembly may have failed),
or the datagram is out. -/
inductive Verdict6 where
  | refused
  | held
  | reassembled (payloadLen : Int) (payload : List U8)
deriving DecidableEq, Repr

def overlaps6 (before after : List Fragment) (offset : Nat) (stop : Int) : Bool :=
  (match before.getLast? with
    | none => false
    | some prev => decide (offset < prev.stop)) ||
  (match after.head? with
    | none => false
    | some next => decide ((next.offset : Int) < stop))

/-- `ip6_frag_reasm`, which first makes the received buffer the head, and
`nf_ct_frag6_reasm`, which does not. -/
def ip6FragReasm (adoptsHead : Bool) (resources : Resources6) (q : InetFragQueue)
    (before : List Fragment) (skb : Fragment) (after : List Fragment) :
    Verdict6 × InetFragQueue :=
  let killed := inetFragKill q
  if adoptsHead && !before.isEmpty && !resources.clone then (.held, killed)
  else
    let q := if adoptsHead then adoptHead killed before skb after else killed
    let head := q.fragments.head?.getD skb
    let payloadLen := (head.ihl : Int) + q.len - fragHdrSize
    if IPV6_MAXPLEN < payloadLen then (.held, q)
    else if resources.headCloned && !resources.expandHead then (.held, q)
    else if resources.headHasFragList && !resources.allocSplit then (.held, q)
    else
      (.reassembled payloadLen (q.fragments.flatMap Fragment.data),
        { q with fragments := [], fragmentsTail := none })

def placeFragment6 (adoptsHead : Bool) (call : Call6) (q : InetFragQueue)
    (before after : List Fragment) : Verdict6 × InetFragQueue :=
  if overlaps6 before after call.skb.offset call.skb.stop then (.refused, inetFragKill q)
  else
    let skb : Fragment :=
      ⟨q.nextAddress, call.skb.offset, call.skb.trimmed, call.skb.headers, 0⟩
    let linked := link q before skb after
    if linked.ready then ip6FragReasm adoptsHead call.resources linked before skb after
    else (.held, linked)

/-- Queueing after the bookkeeping of the end of the datagram. -/
def acceptFragment6 (adoptsHead : Bool) (call : Call6) (q : InetFragQueue) :
    Except Fault (Verdict6 × InetFragQueue) :=
  let skb := call.skb
  if skb.stop = skb.offset then .ok (.refused, q)
  else if !call.resources.pullHeader then .ok (.refused, q)
  else if skb.trimmed.length < skb.payload.length ∧ call.resources.trim = false then
    .ok (.refused, q)
  else
    match locate q skb.offset with
    | .error fault => .error fault
    | .ok (before, after) => .ok (placeFragment6 adoptsHead call q before after)

/-- `ip6_frag_queue`, and `nf_ct_frag6_queue` with the test for completeness in
`nf_ct_frag6_gather`. -/
def ip6FragQueue (adoptsHead : Bool) (q : InetFragQueue) (call : Call6) :
    Except Fault (Verdict6 × InetFragQueue) :=
  let skb := call.skb
  if q.complete then .ok (.refused, q)
  else if skb.stop < 0 ∨ IPV6_MAXPLEN < skb.stop then .ok (.refused, q)
  else if skb.more && skb.stop % 8 != 0 then .ok (.refused, q)
  else
    match noteEnd skb.more skb.stop.toNat q with
    | none => .ok (.refused, q)
    | some q => acceptFragment6 adoptsHead call q

/-! ## The list stays searchable -/

/-- A queue on which nothing will be searched any more, or whose tail is found. -/
def Reachable (q : InetFragQueue) : Prop :=
  q.complete = true ∨ (Addressed q ∧ q.fragmentsTail = q.fragments.getLast?.map Fragment.address)

@[simp] theorem ip6FragReasm_complete (adoptsHead : Bool) (resources : Resources6)
    (q : InetFragQueue) (before : List Fragment) (skb : Fragment) (after : List Fragment) :
    (ip6FragReasm adoptsHead resources q before skb after).2.complete = true := by
  unfold ip6FragReasm
  dsimp only
  split_ifs <;> simp [inetFragKill]

theorem placeFragment6_reachable {q : InetFragQueue} (addressed : Addressed q)
    (tail : q.fragmentsTail = q.fragments.getLast?.map Fragment.address) (adoptsHead : Bool)
    (call : Call6) {before after : List Fragment} (fragments : before ++ after = q.fragments) :
    Reachable (placeFragment6 adoptsHead call q before after).2 := by
  unfold placeFragment6
  dsimp only
  split_ifs
  · exact Or.inl rfl
  · exact Or.inl (ip6FragReasm_complete _ _ _ _ _ _)
  · exact Or.inr ⟨addressed.link _ fragments.symm rfl,
      link_tail _ fun nonempty => tail_of_append tail fragments.symm nonempty⟩

/-- One call does not fault and keeps the list searchable. -/
theorem ip6FragQueue_reachable {q : InetFragQueue} (reachable : Reachable q) (adoptsHead : Bool)
    (call : Call6) :
    ∃ verdict after, ip6FragQueue adoptsHead q call = .ok (verdict, after) ∧ Reachable after := by
  unfold ip6FragQueue
  dsimp only
  split_ifs with complete outside misaligned
  · exact ⟨_, _, rfl, reachable⟩
  · exact ⟨_, _, rfl, reachable⟩
  · exact ⟨_, _, rfl, reachable⟩
  obtain ⟨addressed, tail⟩ := reachable.resolve_left complete
  cases noted : noteEnd call.skb.more call.skb.stop.toNat q with
  | none => exact ⟨_, _, rfl, Or.inr ⟨addressed, tail⟩⟩
  | some next =>
    obtain ⟨_, _, same⟩ := noteEnd_inv noted
    have nextAddressed : Addressed next := by
      rw [same]
      exact ⟨addressed.fresh, addressed.distinct⟩
    have nextTail : next.fragmentsTail = next.fragments.getLast?.map Fragment.address := by
      rw [same]
      exact tail
    dsimp only [acceptFragment6]
    split_ifs
    · exact ⟨_, _, rfl, Or.inr ⟨nextAddressed, nextTail⟩⟩
    · exact ⟨_, _, rfl, Or.inr ⟨nextAddressed, nextTail⟩⟩
    · exact ⟨_, _, rfl, Or.inr ⟨nextAddressed, nextTail⟩⟩
    obtain ⟨before, after, located, fragments⟩ :=
      nextAddressed.locate nextTail call.skb.offset
    rw [located]
    exact ⟨_, _, rfl, placeFragment6_reachable nextAddressed nextTail adoptsHead call fragments⟩

end RouterKernel.Reassembly
