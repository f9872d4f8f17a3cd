import RouterKernel.Foundation.TokenBucket
import RouterKernel.Foundation.Words

/-!
Contract: the rate limit for ICMP messages of `net/ipv4/inetpeer.c`.

Owns:
- `inet_peer_xrlim_allow` and sequences of its calls at given times;
- the number of messages that it allows between any two calls.

Does not own: how peers are found and kept.
-/

namespace RouterKernel.Peers

open Foundation

/-- The fields of `struct inet_peer` that the rate limit uses. -/
structure InetPeer where
  rateTokens : U32
  rateLast : U32
  deriving DecidableEq, Repr

def XRLIM_BURST_FACTOR : U32 := 6

/-- The tokens that a call finds, with those added since the last call. -/
def InetPeer.tokensAt (peer : InetPeer) (timeout now : U32) : U32 :=
  let token := peer.rateTokens + (now - peer.rateLast)
  if token > XRLIM_BURST_FACTOR * timeout then XRLIM_BURST_FACTOR * timeout else token

/-- The function `inet_peer_xrlim_allow`; `timeout` is an `int` that is compared as `unsigned
long`. -/
def inetPeerXrlimAllow (peer : Option InetPeer) (timeout jiffies : U32) : Bool × Option InetPeer :=
  match peer with
  | none => (true, none)
  | some peer =>
    let token := peer.tokensAt timeout jiffies
    if token ≥ timeout then (true, some ⟨token - timeout, jiffies⟩)
      else (false, some ⟨token, jiffies⟩)

/-- The peer before call `k`, when call `k` is made `times k` ticks after jiffies was 0. -/
def peerBefore (peer : Option InetPeer) (timeout : U32) (times : Nat → Nat) : Nat → Option InetPeer
  | 0 => peer
  | k + 1 => (inetPeerXrlimAllow (peerBefore peer timeout times k) timeout
    (BitVec.ofNat 32 (times k))).2

/-- What call `k` returns. -/
def allows (peer : Option InetPeer) (timeout : U32) (times : Nat → Nat) (k : Nat) : Bool :=
  (inetPeerXrlimAllow (peerBefore peer timeout times k) timeout (BitVec.ofNat 32 (times k))).1

def tokensOf (peer : Option InetPeer) : Nat := peer.elim 0 fun peer => peer.rateTokens.toNat

section Bound

variable (peer : InetPeer) (timeout now : U32)

theorem tokensAt_le_burst : (peer.tokensAt timeout now).toNat ≤ 6 * timeout.toNat := by
  have clamp : (XRLIM_BURST_FACTOR * timeout).toNat ≤ 6 * timeout.toNat := by
    rw [BitVec.toNat_mul]
    exact Nat.mod_le _ _
  unfold InetPeer.tokensAt
  dsimp only
  split
  · exact clamp
  · rename_i within
    exact le_trans (Nat.le_of_not_lt within) clamp

/-- Wrapping can only lose tokens. -/
theorem tokensAt_le_refilled :
    (peer.tokensAt timeout now).toNat ≤ peer.rateTokens.toNat + (now - peer.rateLast).toNat := by
  have sum : (peer.rateTokens + (now - peer.rateLast)).toNat ≤
      peer.rateTokens.toNat + (now - peer.rateLast).toNat := by
    rw [BitVec.toNat_add]
    exact Nat.mod_le _ _
  unfold InetPeer.tokensAt
  dsimp only
  split
  · rename_i above
    exact le_trans (Nat.le_of_lt above) sum
  · exact sum

/-- A call leaves what it found, less the price of a message that it allows. -/
theorem inetPeerXrlimAllow_spec :
    ∃ allowed left, inetPeerXrlimAllow (some peer) timeout now = (allowed, some left) ∧
        left.rateLast = now ∧
      left.rateTokens.toNat + (if allowed then timeout.toNat else 0) =
        (peer.tokensAt timeout now).toNat := by
  unfold inetPeerXrlimAllow
  dsimp only
  by_cases enough : peer.tokensAt timeout now ≥ timeout
  · have enoughNat : timeout.toNat ≤ (peer.tokensAt timeout now).toNat := enough
    refine ⟨true, ⟨peer.tokensAt timeout now - timeout, now⟩, if_pos enough, rfl, ?_⟩
    rw [if_pos rfl, BitVec.toNat_sub_of_le enoughNat]
    omega
  · exact ⟨false, ⟨peer.tokensAt timeout now, now⟩, if_neg enough, rfl, by simp⟩

end Bound

/-- Jiffies wrap around, so that what they say has passed is at most the time itself. -/
theorem elapsed_le {earlier later : Nat} (ordered : earlier ≤ later) :
    (BitVec.ofNat 32 later - BitVec.ofNat 32 earlier).toNat ≤ later - earlier := by
  have exactly :
      BitVec.ofNat 32 later - BitVec.ofNat 32 earlier = BitVec.ofNat 32 (later - earlier) := by
    bv_omega
  rw [exactly, BitVec.toNat_ofNat]
  exact Nat.mod_le _ _

section Calls

variable (peer : InetPeer) (timeout : U32) (times : Nat → Nat)

theorem peerBefore_spec (k : Nat) : ∃ before, peerBefore (some peer) timeout times k = some before ∧
      ∀ earlier, k = earlier + 1 → before.rateLast = BitVec.ofNat 32 (times earlier) := by
  induction k with
  | zero => exact ⟨peer, rfl, fun _ impossible => absurd impossible (Nat.succ_ne_zero _).symm⟩
  | succ k ih =>
    obtain ⟨before, found, _⟩ := ih
    obtain ⟨allowed, left, result, last, _⟩ :=
      inetPeerXrlimAllow_spec before timeout (BitVec.ofNat 32 (times k))
    refine ⟨left, ?_, ?_⟩
    · rw [peerBefore, found, result]
    · intro earlier same
      rw [last, Nat.succ.inj same]

theorem tokensOf_call {k : Nat} {before : InetPeer}
    (found : peerBefore (some peer) timeout times k = some before) :
    tokensOf (peerBefore (some peer) timeout times (k + 1)) + price timeout.toNat
        (allows (some peer) timeout times) k =
      (before.tokensAt timeout (BitVec.ofNat 32 (times k))).toNat := by
  obtain ⟨allowed, left, result, _, books⟩ :=
    inetPeerXrlimAllow_spec before timeout (BitVec.ofNat 32 (times k))
  rw [peerBefore, price, allows, found, result]
  exact books

theorem allows_bucket (ordered : Monotone times) :
    Bucket (XRLIM_BURST_FACTOR.toNat * timeout.toNat) timeout.toNat
      (fun k => tokensOf (peerBefore (some peer) timeout times (k + 1))) times
      (allows (some peer) timeout times) where
  capped k := by
    obtain ⟨before, found, _⟩ := peerBefore_spec peer timeout times k
    rw [tokensOf_call peer timeout times found]
    exact tokensAt_le_burst before timeout _
  refilled k := by
    obtain ⟨before, found, last⟩ := peerBefore_spec peer timeout times (k + 1)
    have refilled := tokensAt_le_refilled before timeout (BitVec.ofNat 32 (times (k + 1)))
    have elapsed := elapsed_le (ordered (Nat.le_succ k))
    rw [last k rfl] at refilled
    rw [tokensOf_call peer timeout times found, found]
    exact refilled.trans (Nat.add_le_add_left elapsed _)

end Calls

/-- Between a call and a call `T` ticks later at most `6 + T / timeout` messages are allowed. -/
theorem allowed_le_burst (peer : InetPeer) {timeout : U32} (positive : 0 < timeout.toInt)
    {times : Nat → Nat}
    (ordered : Monotone times) {first last : Nat} (le : first ≤ last) :
    (granted (allows (some peer) timeout times) first last).card ≤
      XRLIM_BURST_FACTOR.toNat + (times last - times first) / timeout.toNat := by
  have nonzero : 0 < timeout.toNat := by
    rcases Nat.eq_zero_or_pos timeout.toNat with zero | positive
    · rw [BitVec.eq_of_toNat_eq (y := 0#32) zero] at positive
      exact absurd positive (by decide)
    · exact positive
  exact (allows_bucket peer timeout times ordered).card_le nonzero ordered le

/-- A peer with nothing left, asked at every tick with a timeout of one tick. -/
theorem allowed_le_burst_every_tick :
    0 < (1 : U32).toInt ∧ (granted (allows (some ⟨0, 0⟩) 1 id) 3 10).card ≤
      XRLIM_BURST_FACTOR.toNat + (10 - 3) / 1 :=
  ⟨by decide, allowed_le_burst ⟨0, 0⟩ (by decide) monotone_id (by decide)⟩

end RouterKernel.Peers
