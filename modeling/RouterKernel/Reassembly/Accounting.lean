import RouterKernel.Reassembly.Table

/-!
Contract: what `ip_frag_total_count` counts.

Owns:
- `held`, the references of a queue beyond its timer and its place in the hash
  table, and its preservation by queueing;
- `Ledger`, the invariant of all queues and the counter;
- the count along every run: exact as long as no IPv6 queue is destroyed with
  fragments on it, and off by exactly those fragments otherwise.
-/

namespace RouterKernel.Reassembly

open Foundation

/-! ## References -/

/-- The references of a queue beyond those of its timer and the hash table. -/
def InetFragQueue.held (q : InetFragQueue) : Int :=
  q.refcnt - (if q.timerPending then 1 else 0) - (if q.complete then 0 else 1)

@[simp] theorem inetFragKill_held (q : InetFragQueue) : (inetFragKill q).held = q.held := by
  simp [inetFragKill, InetFragQueue.held]

@[simp] theorem link_held (q : InetFragQueue) (before : List Fragment) (skb : Fragment)
    (after : List Fragment) : (link q before skb after).held = q.held := rfl

@[simp] theorem adoptHead_held (q : InetFragQueue) (before : List Fragment) (skb : Fragment)
    (after : List Fragment) : (adoptHead q before skb after).held = q.held := by
  cases before <;> rfl

variable {q : InetFragQueue} {call : Call} {entry : Entry} {entries : List Entry}

theorem noteEnd_held {more : Bool} {stop : Nat} {after : InetFragQueue}
    (noted : noteEnd more stop q = some after) : after.held = q.held := by
  obtain ⟨_, _, same⟩ := noteEnd_inv noted
  rw [same]
  rfl

theorem ipFragReasm_held (resources : Resources) (state : Counted) (before : List Fragment)
    (skb : Fragment) (after : List Fragment) :
    (ipFragReasm resources state before skb after).2.ipq.q.held = state.ipq.q.held := by
  unfold ipFragReasm
  dsimp only
  split_ifs
  · exact inetFragKill_held state.ipq.q
  · exact inetFragKill_held state.ipq.q
  · split
    · simp
    · change (adoptHead (inetFragKill state.ipq.q) before skb after).held = _
      simp

theorem insertFragment_held (call : Call) (state : Counted) (before after : List Fragment)
    (offset : Nat) (data : List U8) :
    (insertFragment call state before after offset data).2.ipq.q.held = state.ipq.q.held := by
  unfold insertFragment
  dsimp only
  split_ifs
  · rw [ipFragReasm_held]
    rfl
  · rfl

theorem placeFragment_held (call : Call) (state : Counted) (before after : List Fragment) :
    (placeFragment call state before after).2.ipq.q.held = state.ipq.q.held := by
  unfold placeFragment
  dsimp only
  split
  · rfl
  · split_ifs
    · rw [insertFragment_held]
      rfl
    · rfl

theorem acceptFragment_held {state after : Counted} {result : QueueResult}
    (accepted : acceptFragment call state = .ok (result, after)) :
    after.ipq.q.held = state.ipq.q.held := by
  unfold acceptFragment at accepted
  dsimp only at accepted
  cases noted : noteEnd call.skb.more call.skb.stop state.ipq.q with
  | none =>
    simp only [noted] at accepted
    cases accepted
    rfl
  | some q =>
    have same := noteEnd_held noted
    simp only [noted] at accepted
    split_ifs at accepted
    · cases accepted
      exact same
    · cases accepted
      exact same
    · cases accepted
      exact same
    · cases located : locate q call.skb.offset with
      | error fault => simp [located] at accepted
      | ok parts =>
        simp only [located, Except.ok.injEq] at accepted
        have placed := placeFragment_held call
          { state with ipq := { state.ipq with q := q } } parts.1 parts.2
        rw [accepted] at placed
        exact placed.trans same

theorem checkDistance_held {maxDist : U32} {state : Counted}
    (hashed : state.ipq.q.complete = false) :
    (checkDistance maxDist call state).2.ipq.q.held = state.ipq.q.held := by
  have sameQueue : (ipFragTooFar maxDist call.peerRid state.ipq).2.q = state.ipq.q := by
    unfold ipFragTooFar
    split_ifs <;> rfl
  unfold checkDistance
  dsimp only
  split_ifs
  · rfl
  · unfold ipFragReinit
    dsimp only
    rw [sameQueue]
    split_ifs with pending
    · simp [InetFragQueue.held, hashed]
    · simp [InetFragQueue.held, hashed, pending]
  · simp only [sameQueue]

theorem ipFragQueue_held {maxDist : U32} {state after : Counted} {result : QueueResult}
    (queued : ipFragQueue maxDist state call = .ok (result, after)) :
    after.ipq.q.held = state.ipq.q.held := by
  unfold ipFragQueue at queued
  dsimp only at queued
  split_ifs at queued with complete failed
  · cases queued
    rfl
  · cases queued
    simp only [inetFragKill_held]
    exact checkDistance_held (by simpa using complete)
  · rw [acceptFragment_held queued]
    exact checkDistance_held (by simpa using complete)

theorem ip6FragReasm_held (adoptsHead : Bool) (resources : Resources6) (q : InetFragQueue)
    (before : List Fragment) (skb : Fragment) (after : List Fragment) :
    (ip6FragReasm adoptsHead resources q before skb after).2.held = q.held := by
  have headHeld : (if adoptsHead = true then adoptHead (inetFragKill q) before skb after
      else inetFragKill q).held = q.held := by
    split_ifs <;> simp
  unfold ip6FragReasm
  dsimp only
  split_ifs at headHeld ⊢ <;> first | exact inetFragKill_held q | exact headHeld

theorem placeFragment6_held (adoptsHead : Bool) (call : Call6) (q : InetFragQueue)
    (before after : List Fragment) :
    (placeFragment6 adoptsHead call q before after).2.held = q.held := by
  unfold placeFragment6
  dsimp only
  split_ifs
  · exact inetFragKill_held q
  · rw [ip6FragReasm_held, link_held]
  · rfl

theorem ip6FragQueue_held {adoptsHead : Bool} {call : Call6} {after : InetFragQueue}
    {verdict : Verdict6}
    (queued : ip6FragQueue adoptsHead q call = .ok (verdict, after)) :
    after.held = q.held := by
  unfold ip6FragQueue at queued
  dsimp only at queued
  split_ifs at queued
  · cases queued
    rfl
  · cases queued
    rfl
  · cases queued
    rfl
  · cases noted : noteEnd call.skb.more call.skb.stop.toNat q with
    | none =>
      simp only [noted] at queued
      cases queued
      rfl
    | some next =>
      have same := noteEnd_held noted
      simp only [noted, acceptFragment6] at queued
      split_ifs at queued
      · cases queued
        exact same
      · cases queued
        exact same
      · cases queued
        exact same
      · cases located : locate next call.skb.offset with
        | error fault => simp [located] at queued
        | ok parts =>
          simp only [located, Except.ok.injEq] at queued
          have placed := placeFragment6_held adoptsHead call next parts.1 parts.2
          rw [queued] at placed
          exact placed.trans same

/-! ## The invariant -/

/-- What every queue in memory satisfies, apart from references. -/
def Entry.Usable (entry : Entry) : Prop :=
  if entry.key.family = .ipv4 then
    (Sound (fun _ _ => True) entry.ipq.q ∨
      (entry.ipq.q.complete = true ∧ entry.ipq.q.fragments = [])) ∧
    entry.ipq.q.count = entry.ipq.q.fragments.length
  else Reachable entry.ipq.q

def Entry.weight (entry : Entry) : Nat :=
  if entry.key.family = .ipv4 then entry.ipq.q.fragments.length else 0

def queuedFragments (entries : List Entry) : Nat := (entries.map Entry.weight).sum

/-- The fragments that were taken off the IPv4 counter with an IPv6 queue. -/
def Entry.stray (entry : Entry) : Nat :=
  if entry.key.family = .ipv4 then 0 else entry.ipq.q.fragments.length

def strayFragments (freed : List Entry) : Nat := (freed.map Entry.stray).sum

/-- Every queue is usable and referenced by its timer, the hash table and its
handlers only; the counter is short of the queued fragments by the stray ones;
and while it is not, they keep to the limit. -/
structure Ledger (limit : Nat) (state : FragState) : Prop where
  usable : ∀ entry ∈ state.entries, entry.Usable
  references : ∀ entry ∈ state.entries, entry.ipq.q.held = entry.firing
  balanced : state.total + strayFragments state.freed = queuedFragments state.entries
  bounded : strayFragments state.freed = 0 → queuedFragments state.entries ≤ limit

/-- References, timer and the hash table do not matter to usability, except that
a killed queue stays killed. -/
theorem Entry.Usable.requeue (usable : entry.Usable) (firing : Nat)
    (same : q = { entry.ipq.q with
      refcnt := q.refcnt
      timerPending := q.timerPending
      complete := q.complete }) (stays : entry.ipq.q.complete = true → q.complete = true) :
    Entry.Usable { entry with ipq := { entry.ipq with q := q }, firing := firing } := by
  have fragments : q.fragments = entry.ipq.q.fragments := by rw [same]
  have count : q.count = entry.ipq.q.count := by rw [same]
  unfold Entry.Usable at usable ⊢
  dsimp only
  split_ifs at usable ⊢
  · constructor
    · rcases usable.1 with sound | done
      · left
        rw [same]
        exact sound.of_list rfl
      · exact Or.inr ⟨stays done.1, fragments.trans done.2⟩
    · rw [count, fragments]
      exact usable.2
  · refine usable.imp stays fun parts => ?_
    rw [same]
    exact ⟨⟨parts.1.fresh, parts.1.distinct⟩, parts.2⟩

theorem Entry.weight_add_stray (entry : Entry) :
    entry.weight + entry.stray = entry.ipq.q.fragments.length := by
  unfold Entry.weight Entry.stray
  split_ifs <;> simp

theorem queuedFragments_eraseIdx {index : Nat} {old : Entry} (found : entries[index]? = some old) :
    queuedFragments (entries.eraseIdx index) + old.weight = queuedFragments entries := by
  obtain ⟨inside, rfl⟩ := List.getElem?_eq_some_iff.mp found
  have moved := ((List.getElem_cons_eraseIdx_perm inside).map Entry.weight).sum_eq
  rwa [List.map_cons, List.sum_cons, Nat.add_comm] at moved

theorem queuedFragments_set {index : Nat} {old : Entry} (new : Entry)
    (found : entries[index]? = some old) :
    queuedFragments (entries.set index new) + old.weight =
      queuedFragments entries + new.weight := by
  obtain ⟨inside, -⟩ := List.getElem?_eq_some_iff.mp found
  have moved := ((List.set_perm_cons_eraseIdx inside new).map Entry.weight).sum_eq
  have erased := queuedFragments_eraseIdx found
  unfold queuedFragments at erased ⊢
  rw [moved, List.map_cons, List.sum_cons]
  omega

section Ledger

variable {limit : Nat} {state : FragState} {index : Nat} {old new : Entry}

section

variable (ledger : Ledger limit state)

include ledger

theorem Ledger.set {total : Int} (found : state.entries[index]? = some old) (usable : new.Usable)
    (references : new.ipq.q.held = new.firing)
    (balanced : total - new.weight = state.total - old.weight)
    (bounded : strayFragments state.freed = 0 →
      queuedFragments state.entries + new.weight ≤ limit + old.weight) :
    Ledger limit ⟨total, state.entries.set index new, state.freed⟩ where
  usable := by
    intro entry member
    rcases List.mem_or_eq_of_mem_set member with present | rfl
    · exact ledger.usable entry present
    · exact usable
  references := by
    intro entry member
    rcases List.mem_or_eq_of_mem_set member with present | rfl
    · exact ledger.references entry present
    · exact references
  balanced := by
    have sum := queuedFragments_set new found
    have before := ledger.balanced
    dsimp only
    omega
  bounded := by
    intro exact0
    have sum := queuedFragments_set new found
    have bound := bounded exact0
    dsimp only
    omega

/-- A queue is freed; if it is an IPv6 one, its fragments go astray. -/
theorem Ledger.erase {total : Int} (found : state.entries[index]? = some old)
    (balanced : total - new.weight = state.total - old.weight)
    (bounded : strayFragments state.freed = 0 →
      queuedFragments state.entries + new.weight ≤ limit + old.weight) :
    Ledger limit ⟨total - new.ipq.q.fragments.length, state.entries.eraseIdx index,
      new :: state.freed⟩ := by
  have sum := queuedFragments_eraseIdx found
  have parts := new.weight_add_stray
  have astray : strayFragments (new :: state.freed) = new.stray + strayFragments state.freed := rfl
  have before := ledger.balanced
  refine ⟨?_, ?_, ?_, ?_⟩
  · intro entry member
    exact ledger.usable entry (List.mem_of_mem_eraseIdx member)
  · intro entry member
    exact ledger.references entry (List.mem_of_mem_eraseIdx member)
  · dsimp only
    omega
  · intro exact0
    dsimp only at exact0 ⊢
    have bound := bounded (by omega)
    omega

/-- `inet_frag_put` on a queue on which the caller holds a reference.  If it was
the last one, nothing else refers to the queue. -/
theorem Ledger.put (total : Int) (new : Entry) (found : state.entries[index]? = some old)
    (usable : new.Usable)
    (references : new.ipq.q.held = new.firing + 1)
    (balanced : total - new.weight = state.total - old.weight)
    (bounded : strayFragments state.freed = 0 →
      queuedFragments state.entries + new.weight ≤ limit + old.weight) :
    ∃ after, inetFragPut { state with total := total } index new = .ok after ∧
      Ledger limit after := by
  unfold inetFragPut
  dsimp only
  split_ifs with last
  · have unreferenced : ¬(!new.ipq.q.complete || new.ipq.q.timerPending ||
        decide (0 < new.firing)) = true := by
      unfold InetFragQueue.held at references
      cases complete : new.ipq.q.complete <;> cases pending : new.ipq.q.timerPending <;>
        simp [complete, pending] at references ⊢ <;> omega
    exact ⟨_, if_neg unreferenced, ledger.erase found balanced bounded⟩
  · refine ⟨_, rfl, ledger.set found ?_ ?_ ?_ ?_⟩
    · exact usable.requeue new.firing rfl id
    · unfold InetFragQueue.held at references ⊢
      dsimp only
      omega
    · exact balanced
    · exact bounded

/-- The caller's release of a queue it changed nothing on but references, timer
and place in the hash table. -/
theorem Ledger.release (found : state.entries[index]? = some old) {firing : Nat}
    (same : q = { old.ipq.q with
      refcnt := q.refcnt
      timerPending := q.timerPending
      complete := q.complete }) (stays : old.ipq.q.complete = true → q.complete = true)
    (references : q.held = firing + 1) :
    ∃ after,
      inetFragPut state index { old with ipq := { old.ipq with q := q }, firing := firing } =
        .ok after ∧ Ledger limit after := by
  have usable := ledger.usable old (List.mem_of_getElem? found)
  have weight : Entry.weight { old with ipq := { old.ipq with q := q }, firing := firing } =
      old.weight := by
    unfold Entry.weight
    rw [same]
  refine ledger.put state.total _ found (usable.requeue firing same stays) references ?_ ?_
  · rw [weight]
  · intro exact0
    rw [weight]
    exact Nat.add_le_add_right (ledger.bounded exact0) _

theorem Ledger.evictOne (family : Family) (index : Nat) :
    ∃ after, evictOne family state index = .ok after ∧ Ledger limit after := by
  unfold Reassembly.evictOne
  cases found : state.entries[index]? with
  | none => exact ⟨state, rfl, ledger⟩
  | some entry =>
    dsimp only
    split_ifs with skipped
    · exact ⟨state, rfl, ledger⟩
    · have references := ledger.references entry (List.mem_of_getElem? found)
      refine ledger.release found rfl (fun _ => rfl) ?_
      rw [inetFragKill_held]
      unfold InetFragQueue.held at references ⊢
      dsimp only
      omega

theorem Ledger.evictor (family : Family) (indices : List Nat) :
    ∃ after, inetFragEvictor family state indices = .ok after ∧ Ledger limit after := by
  unfold inetFragEvictor
  induction indices generalizing state with
  | nil => exact ⟨state, rfl, ledger⟩
  | cons index rest ih =>
    obtain ⟨next, evicted, nextLedger⟩ := ledger.evictOne family index
    rw [List.foldlM_cons, evicted]
    exact ih nextLedger

end

/-- What lookup gives: a queue that is in the table, with a reference for the
caller. -/
structure Found (limit : Nat) (state : FragState) (key : Key) (index : Nat)
    (entry : Entry) (after : FragState) (old : Entry) : Prop where
  ledger : Ledger limit after
  stored : after.entries[index]? = some old
  key : entry.key = key
  usable : entry.Usable
  references : entry.ipq.q.held = entry.firing + 1
  weight : entry.weight = old.weight
  total : after.total = state.total

theorem Ledger.find (ledger : Ledger limit state) {key : Key} {fresh : Option Ipq}
    (unused : ∀ ipq, fresh = some ipq → ipq.q = InetFragQueue.fresh) {after : FragState}
    (lookup : inetFragFind state key fresh = some (index, entry, after)) :
    ∃ old, Found limit state key index entry after old := by
  unfold inetFragFind at lookup
  cases position : state.entries.findIdx? fun entry =>
      decide (entry.key = key) && !entry.ipq.q.complete with
  | some place =>
    simp only [position] at lookup
    cases found : state.entries[place]? with
    | none => simp [found] at lookup
    | some old =>
      simp only [found, Option.some.injEq, Prod.mk.injEq] at lookup
      obtain ⟨rfl, rfl, rfl⟩ := lookup
      have member := List.mem_of_getElem? found
      have references := ledger.references old member
      obtain ⟨_, holds, _⟩ := List.findIdx?_eq_some_iff_getElem.mp position
      obtain ⟨_, same⟩ := List.getElem?_eq_some_iff.mp found
      rw [same] at holds
      simp only [Bool.and_eq_true, decide_eq_true_eq] at holds
      refine ⟨old, ledger, found, holds.1, (ledger.usable old member).requeue old.firing rfl id, ?_,
        rfl, rfl⟩
      unfold InetFragQueue.held at references ⊢
      dsimp only
      omega
  | none =>
    simp only [position] at lookup
    cases fresh with
    | none => simp at lookup
    | some ipq =>
      simp only [Option.some.injEq, Prod.mk.injEq] at lookup
      obtain ⟨rfl, rfl, rfl⟩ := lookup
      have queue := unused ipq rfl
      have usable : Entry.Usable ⟨key, ipq, 0⟩ := by
        unfold Entry.Usable
        rw [queue]
        split_ifs
        · exact ⟨Or.inl (sound_of_empty _ rfl rfl rfl), rfl⟩
        · exact Or.inr ⟨⟨by simp [InetFragQueue.fresh], by simp [InetFragQueue.fresh]⟩, rfl⟩
      have weightless : Entry.weight
          ⟨key, { ipq with q := { ipq.q with refcnt := ipq.q.refcnt - 1 } }, 0⟩ = 0 := by
        unfold Entry.weight
        rw [queue]
        split_ifs <;> rfl
      have sum : queuedFragments (state.entries ++
          [⟨key, { ipq with q := { ipq.q with refcnt := ipq.q.refcnt - 1 } }, 0⟩]) =
          queuedFragments state.entries := by
        simp [queuedFragments, weightless]
      refine ⟨⟨key, { ipq with q := { ipq.q with refcnt := ipq.q.refcnt - 1 } }, 0⟩,
        ⟨?_, ?_, ?_, ?_⟩, ?_, rfl, usable, ?_, rfl, rfl⟩
      · intro other member
        rcases List.mem_append.mp member with present | added
        · exact ledger.usable other present
        · rw [List.mem_singleton.mp added]
          exact usable.requeue 0 rfl id
      · intro other member
        rcases List.mem_append.mp member with present | added
        · exact ledger.references other present
        · rw [List.mem_singleton.mp added, queue]
          rfl
      · rw [sum]
        exact ledger.balanced
      · rw [sum]
        exact ledger.bounded
      · simp
      · rw [queue]
        rfl

/-! ## Arrivals -/

/-- `ip_frag_queue` on a queue of the table adds at most one fragment, and counts
it. -/
theorem Entry.Usable.queue4 (usable : entry.Usable) (family : entry.key.family = .ipv4)
    (maxDist : U32)
    (total : Int) (call : Call) :
    ∃ result after, ipFragQueue maxDist ⟨entry.ipq, total⟩ call = .ok (result, after) ∧
      Entry.Usable { entry with ipq := after.ipq } ∧
      after.total - after.ipq.q.fragments.length = total - entry.ipq.q.fragments.length ∧
      after.ipq.q.fragments.length ≤ entry.ipq.q.fragments.length + 1 := by
  unfold Entry.Usable at usable ⊢
  simp only [family, if_true] at usable ⊢
  obtain ⟨sound | done, counted⟩ := usable
  · have alive : Alive (fun _ _ => True) ⟨entry.ipq, total⟩ := ⟨sound, counted⟩
    obtain ⟨result, after, queued, spec⟩ := alive.queue maxDist call fun _ _ _ => trivial
    refine ⟨result, after, queued, ⟨?_, spec.counted⟩, spec.slack, spec.bound⟩
    by_cases pending : result.datagram = none
    · exact Or.inl (spec.sound pending)
    · exact Or.inr (spec.done pending)
  · have finished : Done ⟨entry.ipq, total⟩ := done
    exact ⟨_, _, finished.queue maxDist call, ⟨Or.inr done, counted⟩, rfl, Nat.le_succ _⟩

variable {limits : Limits}

theorem Ledger.defragQueue {arrival : Arrival4} {before : FragState}
    (found : Found limits.countMax.toNat before arrival.key index entry state old)
    (below : state.total < limits.countMax) :
    ∃ ret after, ipDefragQueue limits arrival index entry state = .ok (ret, after) ∧
      Ledger limits.countMax.toNat after := by
  have ledger := found.ledger
  have family : entry.key.family = .ipv4 := by
    rw [found.key]
    rfl
  unfold ipDefragQueue
  split_ifs
  · obtain ⟨after, put, afterLedger⟩ := ledger.put state.total entry found.stored
      found.usable found.references (by rw [found.weight])
      (fun exact0 => by
        rw [found.weight]
        exact Nat.add_le_add_right (ledger.bounded exact0) _)
    simp only [put]
    exact ⟨_, _, rfl, afterLedger⟩
  · obtain ⟨result, counted, queued, usable, slack, growth⟩ :=
      found.usable.queue4 family limits.maxDist state.total arrival.call
    have references : counted.ipq.q.held = entry.firing + 1 := by
      rw [ipFragQueue_held queued, found.references]
    have weightBefore : entry.weight = entry.ipq.q.fragments.length := by
      rw [Entry.weight, if_pos family]
    have weightAfter :
        Entry.weight { entry with ipq := counted.ipq } = counted.ipq.q.fragments.length := by
      rw [Entry.weight, if_pos family]
    have weightOld := found.weight
    obtain ⟨after, put, afterLedger⟩ := ledger.put counted.total
      { entry with ipq := counted.ipq } found.stored usable references
      (by rw [weightAfter]; omega)
      (fun exact0 => by
        have balanced := ledger.balanced
        rw [weightAfter]
        omega)
    simp only [queued, put]
    exact ⟨_, _, rfl, afterLedger⟩

theorem Ledger.defrag (ledger : Ledger limits.countMax.toNat state) (arrival : Arrival4) :
    ∃ ret after, ipDefrag limits state arrival = .ok (ret, after) ∧
      Ledger limits.countMax.toNat after := by
  obtain ⟨next, run, nextLedger⟩ := ledger.evictor .ipv4 arrival.evict
  simp only [ipDefrag, run]
  split_ifs with full
  · exact ⟨_, _, rfl, nextLedger⟩
  · cases lookup : inetFragFind next arrival.key (arrival.fresh limits) with
    | none => exact ⟨_, _, rfl, nextLedger⟩
    | some result =>
      obtain ⟨index, entry, table⟩ := result
      have unused : ∀ ipq, arrival.fresh limits = some ipq → ipq.q = InetFragQueue.fresh := by
        intro ipq allocated
        unfold Arrival4.fresh at allocated
        split_ifs at allocated
        rw [← Option.some.inj allocated]
        rfl
      obtain ⟨old, found⟩ := nextLedger.find unused lookup
      exact Ledger.defragQueue found (by rw [found.total]; omega)

theorem Ledger.queueFragment6 (ledger : Ledger limit state) (family : Family)
    (adoptsHead : Bool) (key : Key) (notIpv4 : key.family ≠ .ipv4) (arrival : Arrival6) :
    ∃ verdict after, queueFragment6 family adoptsHead key state arrival = .ok (verdict, after) ∧
      Ledger limit after := by
  obtain ⟨next, run, nextLedger⟩ := ledger.evictor family arrival.evict
  simp only [Reassembly.queueFragment6, run]
  cases lookup : inetFragFind next key arrival.fresh with
  | none => exact ⟨_, _, rfl, nextLedger⟩
  | some result =>
    obtain ⟨index, entry, table⟩ := result
    have unused : ∀ ipq, arrival.fresh = some ipq → ipq.q = InetFragQueue.fresh := by
      intro ipq allocated
      unfold Arrival6.fresh at allocated
      split_ifs at allocated
      rw [← Option.some.inj allocated]
    obtain ⟨old, found⟩ := nextLedger.find unused lookup
    have usable := found.usable
    unfold Entry.Usable at usable
    rw [found.key, if_neg notIpv4] at usable
    obtain ⟨verdict, q, queued, reachable⟩ :=
      ip6FragQueue_reachable usable adoptsHead arrival.call
    have weightless : ∀ ipq, Entry.weight { entry with ipq := ipq } = 0 := by
      intro ipq
      rw [Entry.weight, found.key, if_neg notIpv4]
    have weightOld : old.weight = 0 := found.weight ▸ weightless entry.ipq
    obtain ⟨after, put, afterLedger⟩ := found.ledger.put table.total
      { entry with ipq := { entry.ipq with q := q } } found.stored
      (by
        unfold Entry.Usable
        rw [found.key, if_neg notIpv4]
        exact reachable)
      (by rw [ip6FragQueue_held queued, found.references])
      (by rw [weightless, weightOld])
      (fun exact0 => by
        rw [weightless, weightOld]
        exact found.ledger.bounded exact0)
    simp only [queued, put]
    exact ⟨_, _, rfl, afterLedger⟩

/-! ## Every event -/

theorem Ledger.timerFires (ledger : Ledger limit state) (index : Nat) :
    Ledger limit (timerFires state index) := by
  unfold Reassembly.timerFires
  cases found : state.entries[index]? with
  | none => exact ledger
  | some entry =>
    dsimp only
    split_ifs with pending
    · have member := List.mem_of_getElem? found
      have references := ledger.references entry member
      refine ledger.set found ((ledger.usable entry member).requeue (entry.firing + 1) rfl id)
        ?_ rfl fun exact0 => Nat.add_le_add_right (ledger.bounded exact0) _
      unfold InetFragQueue.held at references ⊢
      simp only [pending, if_true, Bool.false_eq_true, if_false] at references ⊢
      push_cast
      omega
    · exact ledger

theorem Ledger.expire (ledger : Ledger limit state) (index : Nat) :
    ∃ after, fragExpire state index = .ok after ∧ Ledger limit after := by
  unfold fragExpire
  cases found : state.entries[index]? with
  | none => exact ⟨state, rfl, ledger⟩
  | some entry =>
    dsimp only
    split_ifs with idle complete
    · exact ⟨state, rfl, ledger⟩
    all_goals
      have references := ledger.references entry (List.mem_of_getElem? found)
    · refine ledger.release found rfl id ?_
      omega
    · refine ledger.release found rfl (fun _ => rfl) ?_
      rw [inetFragKill_held]
      omega

theorem Ledger.fragRcv (ledger : Ledger limit state) (arrival : Arrival6) :
    ∃ ret after, ipv6FragRcv state arrival = .ok (ret, after) ∧ Ledger limit after := by
  unfold ipv6FragRcv
  split_ifs
  · exact ⟨_, _, rfl, ledger⟩
  · exact ⟨_, _, rfl, ledger⟩
  · obtain ⟨verdict, after, queued, afterLedger⟩ := ledger.queueFragment6 .ipv6 true
      (.ipv6 arrival.id IP6_DEFRAG_LOCAL_DELIVER arrival.saddr arrival.daddr)
      (by simp [Key.family]) arrival
    rw [queued]
    cases verdict <;> exact ⟨_, _, rfl, afterLedger⟩

theorem Ledger.gather (ledger : Ledger limit state) (arrival : Arrival6) :
    ∃ after, nfCtFrag6Gather state arrival = .ok after ∧ Ledger limit after := by
  unfold nfCtFrag6Gather
  split_ifs
  · exact ⟨_, rfl, ledger⟩
  · obtain ⟨verdict, after, queued, afterLedger⟩ := ledger.queueFragment6 .conntrack6 false
      (.conntrack6 arrival.id arrival.user arrival.saddr arrival.daddr)
      (by simp [Key.family]) arrival
    rw [queued]
    exact ⟨_, rfl, afterLedger⟩

theorem fragStep_ledger (ledger : Ledger limits.countMax.toNat state) (event : FragEvent) :
    ∃ ret after, fragStep limits state event = .ok (ret, after) ∧
      Ledger limits.countMax.toNat after := by
  cases event with
  | ipv4 arrival =>
    obtain ⟨ret, after, ran, afterLedger⟩ := ledger.defrag arrival
    exact ⟨some ret, after, by rw [fragStep, ran]; rfl, afterLedger⟩
  | ipv6 arrival =>
    obtain ⟨ret, after, ran, afterLedger⟩ := ledger.fragRcv arrival
    exact ⟨some ret, after, by rw [fragStep, ran]; rfl, afterLedger⟩
  | conntrack6 arrival =>
    obtain ⟨after, ran, afterLedger⟩ := ledger.gather arrival
    exact ⟨none, after, by rw [fragStep, ran]; rfl, afterLedger⟩
  | timerFires index => exact ⟨none, _, rfl, ledger.timerFires index⟩
  | expire index =>
    obtain ⟨after, ran, afterLedger⟩ := ledger.expire index
    exact ⟨none, after, by rw [fragStep, ran]; rfl, afterLedger⟩
  | evict family indices =>
    obtain ⟨after, ran, afterLedger⟩ := ledger.evictor family indices
    exact ⟨none, after, by rw [fragStep, ran]; rfl, afterLedger⟩

theorem runFrag_ledger (events : List FragEvent) {state : FragState}
    (ledger : Ledger limits.countMax.toNat state) :
    ∃ rets final, runAll (fragStep limits) state events = .ok (rets, final) ∧
      Ledger limits.countMax.toNat final := by
  induction events generalizing state with
  | nil => exact ⟨[], state, rfl, ledger⟩
  | cons event rest ih =>
    obtain ⟨ret, next, stepOk, nextLedger⟩ := fragStep_ledger ledger event
    obtain ⟨rets, final, runOk, finalLedger⟩ := ih nextLedger
    exact ⟨ret :: rets, final, by simp only [runAll, stepOk, runOk], finalLedger⟩

end Ledger

/-- The sum of `q.count` over the IPv4 queues. -/
def countSum (entries : List Entry) : Int :=
  ((entries.filter fun entry => decide (entry.key.family = .ipv4)).map
    fun entry => entry.ipq.q.count).sum

/-- In a usable table each IPv4 queue counts its own list. -/
theorem countSum_eq (usable : ∀ entry ∈ entries, entry.Usable) :
    countSum entries = queuedFragments entries := by
  unfold countSum queuedFragments
  induction entries with
  | nil => rfl
  | cons entry rest ih =>
    have tail := ih (List.forall_mem_cons.mp usable).2
    have head := usable entry List.mem_cons_self
    unfold Entry.Usable at head
    by_cases family : entry.key.family = .ipv4
    · rw [if_pos family] at head
      simp only [List.filter_cons, family, decide_true, if_true, List.map_cons, List.sum_cons,
        head.2, Entry.weight, Nat.cast_add] at tail ⊢
      omega
    · simp only [List.filter_cons, family, decide_false, Bool.false_eq_true, if_false,
        List.map_cons, List.sum_cons, Entry.weight, Nat.zero_add] at tail ⊢
      exact tail

/-- No IPv6 queue has been destroyed with fragments on it. -/
def FragState.Separate (state : FragState) : Prop :=
  ∀ entry ∈ state.freed, entry.key.family ≠ .ipv4 → entry.ipq.q.fragments = []

theorem strayFragments_eq_zero_iff (state : FragState) :
    strayFragments state.freed = 0 ↔ state.Separate := by
  simp [strayFragments, Entry.stray, FragState.Separate, List.sum_eq_zero_iff]

/-- What the router's fragment limit counts.  In every run no queue is freed that
something still refers to, each IPv4 queue counts its own list, and the global
counter is right exactly as long as no IPv6 queue has been destroyed with
fragments on it.  Until then it is not negative and the limit holds. -/
theorem fragment_count_exact_iff (limits : Limits) (events : List FragEvent) : ∃ rets final,
      runAll (fragStep limits) FragState.initial events = .ok (rets, final) ∧
      (∀ entry ∈ final.entries, entry.key.family = .ipv4 →
        entry.ipq.q.count = entry.ipq.q.fragments.length) ∧
      (final.total = countSum final.entries ↔ final.Separate) ∧
      (final.Separate → 0 ≤ final.total ∧ countSum final.entries ≤ max limits.countMax 0) := by
  have start : Ledger limits.countMax.toNat FragState.initial :=
    ⟨by simp [FragState.initial], by simp [FragState.initial], rfl, fun _ => Nat.zero_le _⟩
  obtain ⟨rets, final, run, ledger⟩ := runFrag_ledger events start
  have counted := countSum_eq ledger.usable
  have balanced := ledger.balanced
  refine ⟨rets, final, run, ?_, ?_, ?_⟩
  · intro entry member family
    have usable := ledger.usable entry member
    rw [Entry.Usable, if_pos family] at usable
    exact usable.2
  · rw [← strayFragments_eq_zero_iff]
    omega
  · intro separate
    have none_stray := (strayFragments_eq_zero_iff final).mpr separate
    have bounded := ledger.bounded none_stray
    omega

/-! ## One IPv6 fragment -/

/-- Eight bytes of a larger IPv6 datagram, for this host. -/
def loneFragment6 : Arrival6 where
  evict := []
  id := 1
  user := 0
  saddr := 1
  daddr := 2
  prepared := true
  allocates := true
  call := ⟨⟨0x0001, 16, 8, [1, 2, 3, 4, 5, 6, 7, 8]⟩, ⟨true, true, true, false, true, false, true⟩⟩

/-- An IPv6 fragment arrives and times out: nothing is queued, and the counter of
IPv4 fragments is -1. -/
theorem ipv6_timeout_makes_count_negative :
    ∃ rets freed, runAll (fragStep ⟨100, 100, 64⟩) FragState.initial
      [.ipv6 loneFragment6, .timerFires 0, .expire 0] = .ok (rets, ⟨-1, [], freed⟩) :=
  ⟨_, _, rfl⟩

end RouterKernel.Reassembly
