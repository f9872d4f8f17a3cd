import RouterKernel.Foundation.Run
import RouterKernel.Reassembly.Ipv4
import RouterKernel.Reassembly.Sound

/-!
Contract: IPv4 reassembly puts every byte where a received fragment had it.

Owns:
- what each stage of `ip_frag_queue` does to a sound queue;
- `CallSpec`, the specification of one call, and `ipFragQueue_spec`;
- faithfulness along every life of a queue, with timeouts, reinitialisations and
  failing allocations.
-/

namespace RouterKernel.Reassembly

open Foundation

/-! ## Overlap elimination -/

section Overlap

variable {carries : Nat → U8 → Prop}

theorem trimHead_inv {pullOverlap : Bool} {before : List Fragment} {offset stop newOffset : Nat}
    {data newData : List U8} (below : offset < stop)
    (trimmed : trimHead pullOverlap before offset stop data = .ok (newOffset, newData)) :
    offset ≤ newOffset ∧ newOffset < stop ∧ stopOf Fragment.offset Fragment.len 0 before ≤
        newOffset ∧
      newData = data.drop (newOffset - offset) := by
  unfold trimHead at trimmed
  rw [stopOf_getLast?]
  cases last : before.getLast? with
  | none =>
    simp only [last, Except.ok.injEq, Prod.mk.injEq] at trimmed
    obtain ⟨rfl, rfl⟩ := trimmed
    exact ⟨le_rfl, below, Nat.zero_le _, by simp⟩
  | some prev =>
    simp only [last] at trimmed
    have stopEq : prev.stop = prev.offset + prev.len := rfl
    split_ifs at trimmed with overlaps swallowed failed
    · simp only [Except.ok.injEq, Prod.mk.injEq] at trimmed
      obtain ⟨rfl, rfl⟩ := trimmed
      exact ⟨overlaps.le, by omega, by simp only; omega, rfl⟩
    · simp only [Except.ok.injEq, Prod.mk.injEq] at trimmed
      obtain ⟨rfl, rfl⟩ := trimmed
      exact ⟨le_rfl, below, by simp only; omega, by simp⟩

/-- A fragment that is what is left of another after losing bytes at its head. -/
def Remains (fragment whole : Fragment) : Prop :=
  ∃ eaten, fragment.offset = whole.offset + eaten ∧ fragment.data = whole.data.drop eaten

theorem Remains.refl (fragment : Fragment) : Remains fragment fragment :=
  ⟨0, by simp, by simp⟩

/-- Everything the loop over the successors does to the list. -/
structure EatSpec (stop : Nat) (after : List Fragment) (eaten : Eaten) : Prop where
  spaced : ∀ low high, Spaced Fragment.offset Fragment.len low after high →
    Spaced Fragment.offset Fragment.len low eaten.after high ∧ (eaten.pulled = true → stop ≤ high →
        Spaced Fragment.offset Fragment.len stop eaten.after high)
  meat : totalSize Fragment.len eaten.after + eaten.meat = totalSize Fragment.len after
  removed : eaten.after.length + eaten.removed = after.length
  addresses : (eaten.after.map Fragment.address).Sublist (after.map Fragment.address)
  remains : ∀ fragment ∈ eaten.after, ∃ whole ∈ after, Remains fragment whole
  last : eaten.after ≠ [] → eaten.after.getLast?.map Fragment.address =
    after.getLast?.map Fragment.address
  failed : eaten.pulled = false → eaten.after ≠ []

theorem eatOverlap_spec (pullNext : Bool) (stop : Nat) (after : List Fragment) :
    EatSpec stop after (eatOverlap pullNext stop after) := by
  induction after with
  | nil =>
    refine ⟨?_, rfl, rfl, List.Sublist.refl _,
      by simp [eatOverlap], by simp [eatOverlap], by simp [eatOverlap]⟩
    intro low high spaced
    exact ⟨spaced, fun _ below => below⟩
  | cons next rest ih =>
    unfold eatOverlap
    by_cases overlaps : next.offset < stop
    · rw [if_pos overlaps]
      dsimp only
      by_cases partly : stop - next.offset < next.len
      · rw [if_pos partly]
        cases pullNext with
        | true =>
          rw [if_pos rfl]
          have kept : ({ next with
              offset := next.offset + (stop - next.offset)
              data := next.data.drop (stop - next.offset) } : Fragment).len =
              next.len - (stop - next.offset) := by
            simp [Fragment.len]
          refine ⟨?_, ?_, rfl, List.Sublist.refl _, ?_, ?_, by simp⟩
          · intro low high spaced
            obtain ⟨first, positive, later⟩ := spaced
            have sameStop : next.offset + (stop - next.offset) +
                (next.len - (stop - next.offset)) = next.offset + next.len := by omega
            simp only [Spaced, kept, sameStop]
            exact ⟨⟨by omega, by omega, later⟩, fun _ _ => ⟨by omega, by omega, later⟩⟩
          · rw [totalSize_cons, totalSize_cons, kept]
            dsimp only
            omega
          · intro fragment member
            rcases List.mem_cons.mp member with rfl | later
            · exact ⟨next, by simp, stop - next.offset, rfl, rfl⟩
            · exact ⟨fragment, by simp [later], Remains.refl fragment⟩
          · intro _
            cases rest <;> simp
        | false =>
          rw [if_neg (by decide)]
          refine ⟨?_, by simp, rfl, List.Sublist.refl _, ?_, fun _ => rfl, by simp⟩
          · intro low high spaced
            exact ⟨spaced, by simp⟩
          · intro fragment member
            exact ⟨fragment, member, Remains.refl fragment⟩
      · rw [if_neg partly]
        obtain ⟨spacedRest, meat, removed, addresses, remains, last, failed⟩ :=
          ih
        refine ⟨?_, ?_, ?_, ?_, ?_, ?_, failed⟩
        · intro low high spaced
          obtain ⟨first, positive, later⟩ := spaced
          obtain ⟨kept, cleared⟩ := spacedRest _ high later
          exact ⟨kept.low_mono (by omega), cleared⟩
        · rw [totalSize_cons]
          simp only
          omega
        · simp only [List.length_cons]
          omega
        · exact addresses.cons _
        · intro fragment member
          obtain ⟨whole, present, remainsOf⟩ := remains fragment member
          exact ⟨whole, by simp [present], remainsOf⟩
        · intro nonempty
          rw [last nonempty]
          cases rest with
          | nil => simp [eatOverlap] at nonempty
          | cons second others => simp [List.getLast?_cons]
    · rw [if_neg overlaps]
      refine ⟨?_, by simp, rfl, List.Sublist.refl _, ?_, fun _ => rfl, by simp⟩
      · intro low high spaced
        exact ⟨spaced, fun _ _ => ⟨by omega, spaced.2⟩⟩
      · intro fragment member
        exact ⟨fragment, member, Remains.refl fragment⟩

/-- The list after the loop, before the new fragment is in. -/
theorem Listed.eat {q : InetFragQueue} (listed : Listed carries q)
    {before after : List Fragment} (fragments : q.fragments = before ++ after) {stop : Nat}
    {eaten : Eaten} (spec : EatSpec stop after eaten) (count : Int) :
    Listed carries
      { q with
        fragments := before ++ eaten.after, meat := q.meat - eaten.meat, count := count } where
  spaced := by
    have spaced := listed.spaced
    rw [fragments, spaced_append] at spaced
    exact spaced_append.mpr ⟨spaced.1, (spec.spaced _ _ spaced.2).1⟩
  meat := by
    have meat := listed.meat
    have total := spec.meat
    rw [fragments, totalSize_append] at meat
    simp only [totalSize_append, meat]
    push_cast
    omega
  fresh := by
    intro fragment member
    have fresh := listed.fresh
    rw [fragments] at fresh
    rcases List.mem_append.mp member with early | late
    · exact fresh fragment (by simp [early])
    · have inMap := spec.addresses.subset (List.mem_map_of_mem late)
      obtain ⟨whole, present, same⟩ := List.mem_map.mp inMap
      rw [← same]
      exact fresh whole (by simp [present])
  distinct := by
    have distinct := listed.distinct
    rw [fragments, List.map_append] at distinct
    simp only [List.map_append]
    exact distinct.sublist ((List.Sublist.refl _).append spec.addresses)
  carried := by
    intro fragment member index byte found
    have carried := listed.carried
    rw [fragments] at carried
    rcases List.mem_append.mp member with early | late
    · exact carried fragment (by simp [early]) index byte found
    · obtain ⟨whole, present, eatenBytes, offset, data⟩ := spec.remains fragment late
      rw [data, List.getElem?_drop] at found
      have original := carried whole (by simp [present]) (eatenBytes + index) byte found
      rwa [offset, Nat.add_assoc]

end Overlap

/-! ## One call -/

/-- The byte that a fragment carries for an offset of the datagram. -/
def Skb.Carries (skb : Skb) (offset : Nat) (byte : U8) : Prop :=
  skb.offset ≤ offset ∧ skb.payload[offset - skb.offset]? = some byte

/-- A queue that is open to fragments, counted right.  `slack` is what the global
counter holds beyond this queue's own fragments; `bound` limits their number. -/
structure Open (carries : Nat → U8 → Prop) (slack : Int) (bound : Nat) (state : Counted) :
    Prop where
  sound : Sound carries state.ipq.q
  counted : state.ipq.q.count = state.ipq.q.fragments.length
  slack : state.total - state.ipq.q.fragments.length = slack
  bound : state.ipq.q.fragments.length ≤ bound

/-- The specification of a call: the counters stay right; unless a datagram comes
out, the queue stays sound; reassembly is entered only on ranges that tile the
datagram; and each byte of a datagram was carried for its offset. -/
structure CallSpec (carries : Nat → U8 → Prop) (slack : Int) (bound : Nat)
    (result : QueueResult) (after : Counted) : Prop where
  counted : after.ipq.q.count = after.ipq.q.fragments.length
  slack : after.total - after.ipq.q.fragments.length = slack
  bound : after.ipq.q.fragments.length ≤ bound + 1
  sound : result.datagram = none → Sound carries after.ipq.q
  done : result.datagram ≠ none → after.ipq.q.complete = true ∧ after.ipq.q.fragments = []
  entered : ∀ q, result.entered = some q → Tiles Fragment.offset Fragment.len 0 q.fragments q.len
  payload : ∀ datagram, result.datagram = some datagram → datagram.payload.length =
      after.ipq.q.len ∧
      ∀ (offset : Nat) (byte : U8), datagram.payload[offset]? = some byte → carries offset byte

section Stages

variable {carries : Nat → U8 → Prop} {slack : Int} {bound : Nat} {state : Counted}

theorem Open.weaken (isOpen : Open carries slack bound state) :
    Open carries slack (bound + 1) state :=
  { isOpen with bound := Nat.le_succ_of_le isOpen.bound }

theorem Open.failed (isOpen : Open carries slack (bound + 1) state) (err : Int) :
    CallSpec carries slack bound (QueueResult.failed err) state where
  counted := isOpen.counted
  slack := isOpen.slack
  bound := isOpen.bound
  sound := fun _ => isOpen.sound
  done := fun datagram => absurd rfl datagram
  entered := by simp [QueueResult.failed]
  payload := by simp [QueueResult.failed]

variable {before after : List Fragment} {skb : Fragment} {q : InetFragQueue}

/-- The received buffer becoming the head changes addresses only. -/
theorem adoptHead_content (fragments : q.fragments = before ++ skb :: after) :
    (adoptHead q before skb after).fragments.map
        (fun fragment => (fragment.offset, fragment.data)) =
      q.fragments.map (fun fragment => (fragment.offset, fragment.data)) := by
  cases before with
  | nil => rfl
  | cons first middle => simp [adoptHead, fragments]

private theorem sizes_of_content {left right : List Fragment}
    (content : left.map (fun fragment => (fragment.offset, fragment.data)) =
      right.map (fun fragment => (fragment.offset, fragment.data))) :
    left.map (fun fragment => (fragment.offset, fragment.len)) =
      right.map (fun fragment => (fragment.offset, fragment.len)) := by
  have mapped := congrArg (List.map fun pair : Nat × List U8 => (pair.1, pair.2.length)) content
  simpa [List.map_map, Function.comp_def, Fragment.len] using mapped

private theorem data_of_content {left right : List Fragment}
    (content : left.map (fun fragment => (fragment.offset, fragment.data)) =
      right.map (fun fragment => (fragment.offset, fragment.data))) :
    left.flatMap Fragment.data = right.flatMap Fragment.data := by
  have mapped := congrArg (List.flatMap fun pair : Nat × List U8 => pair.2) content
  simpa [List.flatMap_map] using mapped

theorem Addressed.adoptHead (addressed : Addressed q)
    (fragments : q.fragments = before ++ skb :: after) :
    Addressed (adoptHead q before skb after) := by
  cases before with
  | nil => exact addressed
  | cons first middle =>
    have fresh := addressed.fresh
    rw [fragments] at fresh
    constructor
    · intro fragment member
      simp only [Reassembly.adoptHead, List.mem_cons, List.mem_append] at member ⊢
      rcases member with rfl | early | rfl | late
      · exact Nat.lt_succ_of_lt (fresh skb (by simp))
      · exact Nat.lt_succ_of_lt (fresh fragment (by simp [early]))
      · exact Nat.lt_succ_self _
      · exact Nat.lt_succ_of_lt (fresh fragment (by simp [late]))
    · have old := addressed.distinct
      rw [fragments, (List.perm_middle.map Fragment.address).nodup_iff, List.cons_append,
        List.map_cons, List.map_cons, List.nodup_cons, List.nodup_cons] at old
      obtain ⟨skbUnused, _, others⟩ := old
      have cloneUnused : q.nextAddress ∉ (middle ++ after).map Fragment.address := by
        intro member
        obtain ⟨fragment, present, same⟩ := List.mem_map.mp member
        have := fresh fragment (by
          rcases List.mem_append.mp present with early | late
          · simp [early]
          · simp [late])
        omega
      have skbFresh := fresh skb (by simp)
      simp only [Reassembly.adoptHead, List.map_cons, List.nodup_cons,
        (List.perm_middle.map Fragment.address).nodup_iff,
        (List.perm_middle.map Fragment.address).mem_iff]
      refine ⟨?_, cloneUnused, others⟩
      rw [List.mem_cons, not_or]
      exact ⟨by omega, fun member => skbUnused (List.mem_cons_of_mem _ member)⟩

theorem Sound.adoptHead (sound : Sound carries q)
    (fragments : q.fragments = before ++ skb :: after) :
    Sound carries (adoptHead q before skb after) := by
  have content := adoptHead_content fragments
  have sizes := sizes_of_content content
  cases before with
  | nil => exact sound
  | cons first middle =>
    refine ⟨⟨sound.toAddressed.adoptHead fragments, ?_, ?_, ?_⟩, ?_⟩
    · exact sound.spaced.congr sizes
    · have sum := congrArg (fun pairs : List (Nat × Nat) => (pairs.map Prod.snd).sum) sizes
      simp only [List.map_map] at sum
      rw [adoptHead_meat, sound.meat]
      exact_mod_cast sum.symm
    · intro fragment member index byte found
      have pair := List.mem_map_of_mem (f := fun fragment : Fragment =>
        (fragment.offset, fragment.data)) member
      rw [content] at pair
      obtain ⟨whole, present, same⟩ := List.mem_map.mp pair
      obtain ⟨sameOffset, sameData⟩ := Prod.mk.inj same
      rw [← sameOffset]
      exact sound.carried whole present index byte (sameData ▸ found)
    · have tail := sound.tail
      rw [fragments] at tail
      cases after with
      | nil => simp [Reassembly.adoptHead, List.getLast?_cons]
      | cons next rest =>
        simp only [Reassembly.adoptHead, List.isEmpty_cons, Bool.false_eq_true, if_false, tail]
        simp [List.getLast?_append, List.getLast?_cons]

theorem Open.reasm (isOpen : Open carries slack (bound + 1) state)
    (fragments : state.ipq.q.fragments = before ++ skb :: after) (ready : state.ipq.q.ready = true)
    (resources : Resources) :
    CallSpec carries slack bound (ipFragReasm resources state before skb after).1
      (ipFragReasm resources state before skb after).2 := by
  have tiles := isOpen.sound.tiles ready
  have killed := isOpen.sound.kill
  have killedFragments : (inetFragKill state.ipq.q).fragments = before ++ skb :: after := fragments
  have adopted := killed.adoptHead killedFragments
  have content : (adoptHead (inetFragKill state.ipq.q) before skb after).fragments.map
      (fun fragment => (fragment.offset, fragment.data)) =
      state.ipq.q.fragments.map (fun fragment => (fragment.offset, fragment.data)) :=
    adoptHead_content killedFragments
  have sameLength := congrArg List.length content
  simp only [List.length_map] at sameLength
  unfold ipFragReasm
  dsimp only
  split_ifs with invalid noClone
  · exact ⟨isOpen.counted, isOpen.slack, isOpen.bound, fun _ => killed,
      fun datagram => absurd rfl datagram, fun q same => by cases same; exact tiles, by simp⟩
  · exact ⟨isOpen.counted, isOpen.slack, isOpen.bound, fun _ => killed,
      fun datagram => absurd rfl datagram, fun q same => by cases same; exact tiles, by simp⟩
  · have counted : (adoptHead (inetFragKill state.ipq.q) before skb after).count =
        (adoptHead (inetFragKill state.ipq.q) before skb after).fragments.length := by
      rw [adoptHead_count, sameLength]
      exact isOpen.counted
    generalize reasmError resources _ = err
    cases err with
    | some err =>
      refine ⟨counted, ?_, ?_, fun _ => adopted, fun datagram => absurd rfl datagram,
        fun q same => by cases same; exact tiles, by simp⟩
      · simp only [sameLength]
        exact isOpen.slack
      · simp only [sameLength]
        exact isOpen.bound
    | none =>
      refine ⟨rfl, ?_, by simp, by simp, ?_, fun q same => by cases same; exact tiles, ?_⟩
      · have slackEq := isOpen.slack
        simp only [counted, sameLength, List.length_nil]
        push_cast
        omega
      · intro _
        exact ⟨by rw [adoptHead_complete]; rfl, rfl⟩
      · intro datagram same
        cases same
        simp only [data_of_content content, adoptHead_len]
        refine ⟨?_, ?_⟩
        · rw [List.length_flatMap]
          exact (Nat.zero_add _).symm.trans tiles.total
        · intro offset byte found
          obtain ⟨fragment, member, reached, here⟩ :=
            tiles.content Fragment.data (fun _ => rfl) found
          have carried := isOpen.sound.carried fragment member _ byte here
          rwa [Nat.zero_add, Nat.add_sub_cancel' (by omega)] at carried

theorem insertFragment_spec {offset : Nat} {data : List U8} (call : Call)
    (listed : Listed carries state.ipq.q)
    (fragments : state.ipq.q.fragments = before ++ after)
    (tail : after ≠ [] → state.ipq.q.fragmentsTail = after.getLast?.map Fragment.address)
    (counted : state.ipq.q.count = state.ipq.q.fragments.length)
    (slackEq : state.total - state.ipq.q.fragments.length = slack)
    (bounded : state.ipq.q.fragments.length ≤ bound)
    (nonempty : 0 < data.length) (starts : stopOf Fragment.offset Fragment.len 0 before ≤ offset)
    (ends : Spaced Fragment.offset Fragment.len (offset + data.length) after state.ipq.q.len)
    (carried : ∀ (index : Nat) (byte : U8), data[index]? = some byte →
      carries (offset + index) byte) :
    CallSpec carries slack bound (insertFragment call state before after offset data).1
      (insertFragment call state before after offset data).2 := by
  have linked := listed.link
    ⟨state.ipq.q.nextAddress, offset, data, call.skb.ihl, call.skb.tos⟩
    fragments tail rfl nonempty starts ends carried
  unfold insertFragment
  dsimp only
  generalize skbEq :
    (⟨state.ipq.q.nextAddress, offset, data, call.skb.ihl, call.skb.tos⟩ : Fragment) = skb at linked
  have isOpen : Open carries slack (bound + 1)
      { ipq := { state.ipq with
          q := { link state.ipq.q before skb after with
            count := (link state.ipq.q before skb after).count + 1 }
          ecn := state.ipq.ecn ||| ip4FragEcn call.skb.tos }
        total := state.total + 1 } := by
    rw [fragments, List.length_append] at counted slackEq bounded
    refine ⟨linked.of_list rfl, ?_, ?_, ?_⟩
    · simp only [link, counted, List.length_append, List.length_cons]
      push_cast
      ring
    · simp only [link, List.length_append, List.length_cons]
      push_cast at slackEq ⊢
      omega
    · simp only [link, List.length_append, List.length_cons]
      omega
  split_ifs with ready
  · exact isOpen.reasm rfl ready call.resources
  · exact isOpen.failed _

def Skb.Covered (skb : Skb) (carries : Nat → U8 → Prop) : Prop :=
  ∀ offset byte, skb.Carries offset byte → carries offset byte

private theorem carried_of_trimmed {skb : Skb} {newOffset : Nat} (later : skb.offset ≤ newOffset)
    (covers : skb.Covered carries)
    {index : Nat} {byte : U8}
    (found : ((skb.payload.take (skb.stop - skb.offset)).drop (newOffset - skb.offset))[index]? =
      some byte) :
    carries (newOffset + index) byte := by
  apply covers
  rw [List.getElem?_drop, List.getElem?_take] at found
  split_ifs at found
  refine ⟨by omega, ?_⟩
  rw [show newOffset + index - skb.offset = newOffset - skb.offset + index by omega]
  exact found

private theorem Skb.stop_le (skb : Skb) : skb.stop ≤ skb.offset + skb.payload.length := by
  unfold Skb.stop
  split_ifs
  · omega
  · exact le_rfl

private theorem Skb.offset_le_stop (skb : Skb) : skb.offset ≤ skb.stop := by
  unfold Skb.stop Skb.offset
  split_ifs <;> omega

section

variable (isOpen : Open carries slack bound state)

include isOpen

/-- Overlap elimination and insertion on an open queue. -/
theorem Open.place (call : Call) (fragments : before ++ after = state.ipq.q.fragments)
    (inside : call.skb.offset < call.skb.stop) (within : call.skb.stop ≤ state.ipq.q.len)
    (covers : call.skb.Covered carries) :
    CallSpec carries slack bound (placeFragment call state before after).1
      (placeFragment call state before after).2 := by
  unfold placeFragment
  dsimp only
  cases trimmed : trimHead call.resources.pullOverlap before call.skb.offset call.skb.stop
      (call.skb.payload.take (call.skb.stop - call.skb.offset)) with
  | error err => exact isOpen.weaken.failed err
  | ok result =>
    obtain ⟨newOffset, newData⟩ := result
    obtain ⟨later, below, starts, rfl⟩ := trimHead_inv inside trimmed
    have spec := eatOverlap_spec call.resources.pullNext call.skb.stop after
    generalize eatOverlap call.resources.pullNext call.skb.stop after = eaten at spec
    have listed := isOpen.sound.toListed.eat fragments.symm spec
      (state.ipq.q.count - eaten.removed)
    have tail := isOpen.sound.tail
    have spaced := isOpen.sound.spaced
    have counted := isOpen.counted
    have slackEq := isOpen.slack
    have bounded := isOpen.bound
    have removed := spec.removed
    rw [← fragments, List.length_append] at counted slackEq bounded
    rw [← fragments] at tail spaced
    have tailOf : eaten.after ≠ [] → state.ipq.q.fragmentsTail =
        eaten.after.getLast?.map Fragment.address := by
      intro nonempty
      have afterNonempty : after ≠ [] := by
        rintro rfl
        have := spec.addresses
        simp at this
        exact nonempty this
      rw [spec.last nonempty, tail, List.getLast?_append,
        List.getLast?_eq_some_getLast afterNonempty]
      rfl
    have newCounted :
        state.ipq.q.count - eaten.removed = ((before ++ eaten.after).length : Int) := by
      rw [List.length_append]
      push_cast
      omega
    have newSlack : state.total - eaten.removed - ((before ++ eaten.after).length : Int) =
        slack := by
      rw [List.length_append]
      push_cast at slackEq ⊢
      omega
    have newBound : (before ++ eaten.after).length ≤ bound := by
      rw [List.length_append]
      omega
    dsimp only
    split_ifs with pulled
    · have payloadLength := call.skb.stop_le
      have length : ((call.skb.payload.take (call.skb.stop - call.skb.offset)).drop
          (newOffset - call.skb.offset)).length = call.skb.stop - newOffset := by
        rw [List.length_drop, List.length_take]
        omega
      have ends := (spec.spaced _ _ (spaced_append.mp spaced).2).2 pulled within
      apply insertFragment_spec
      · exact listed
      · rfl
      · exact tailOf
      · exact newCounted
      · exact newSlack
      · exact newBound
      · omega
      · exact starts
      · rw [length, show newOffset + (call.skb.stop - newOffset) = call.skb.stop by omega]
        exact ends
      · intro index byte found
        exact carried_of_trimmed later covers found
    · have nonempty := spec.failed (by simpa using pulled)
      refine Open.failed (Open.weaken ⟨⟨listed, ?_⟩, newCounted, newSlack, newBound⟩) _
      simp only
      rw [tailOf nonempty, List.getLast?_append, List.getLast?_eq_some_getLast nonempty]
      rfl

theorem Open.accept (call : Call) (covers : call.skb.Covered carries) :
    ∃ result after, acceptFragment call state = .ok (result, after) ∧
      CallSpec carries slack bound result after := by
  unfold acceptFragment
  dsimp only
  cases noted : noteEnd call.skb.more call.skb.stop state.ipq.q with
  | none => exact ⟨_, _, rfl, isOpen.weaken.failed _⟩
  | some q =>
    obtain ⟨_, within, same⟩ := noteEnd_inv noted
    have sound := isOpen.sound.noteEnd noted
    have sameList : q.fragments = state.ipq.q.fragments := by rw [same]
    have sameCount : q.count = state.ipq.q.count := by rw [same]
    have updated : Open carries slack bound
        { state with ipq := { state.ipq with q := q } } := by
      refine ⟨sound, ?_, ?_, ?_⟩
      · simp only [sameList, sameCount]
        exact isOpen.counted
      · simp only [sameList]
        exact isOpen.slack
      · simp only [sameList]
        exact isOpen.bound
    dsimp only
    split_ifs with empty noPull noTrim
    · exact ⟨_, _, rfl, updated.weaken.failed _⟩
    · exact ⟨_, _, rfl, updated.weaken.failed _⟩
    · exact ⟨_, _, rfl, updated.weaken.failed _⟩
    · obtain ⟨before, after, located, fragments⟩ :=
        sound.toAddressed.locate sound.tail call.skb.offset
      rw [located]
      have below := call.skb.offset_le_stop
      exact ⟨_, _, rfl, updated.place call fragments (by omega) within covers⟩

theorem Open.reinit : Open carries slack bound (ipFragReinit state).2 := by
  have counted := isOpen.counted
  have slackEq := isOpen.slack
  unfold ipFragReinit
  dsimp only
  split_ifs
  · refine ⟨sound_of_empty carries rfl rfl rfl, ?_, ?_, Nat.zero_le bound⟩
    · simp only [counted, List.length_nil]
      omega
    · simp only [List.length_nil]
      omega
  · exact ⟨isOpen.sound.of_list rfl, counted, slackEq, isOpen.bound⟩

theorem Open.checkDistance (maxDist : U32)
    (call : Call) : Open carries slack bound (checkDistance maxDist call state).2 := by
  have renumbered : Open carries slack bound
      { state with ipq := (ipFragTooFar maxDist call.peerRid state.ipq).2 } := by
    unfold ipFragTooFar
    split_ifs
    · exact isOpen
    · exact ⟨isOpen.sound, isOpen.counted, isOpen.slack, isOpen.bound⟩
  unfold Reassembly.checkDistance
  dsimp only
  split_ifs
  · exact isOpen
  · exact renumbered.reinit
  · exact renumbered

theorem Open.queue (maxDist : U32) (call : Call) (covers : call.skb.Covered carries) :
    ∃ result after, ipFragQueue maxDist state call = .ok (result, after) ∧
      CallSpec carries slack bound result after := by
  have checked := isOpen.checkDistance maxDist call
  unfold ipFragQueue
  dsimp only
  split_ifs with complete failed
  · exact ⟨_, _, rfl, isOpen.weaken.failed _⟩
  · have killed : Open carries slack bound
        { (Reassembly.checkDistance maxDist call state).2 with
          ipq := { (Reassembly.checkDistance maxDist call state).2.ipq with
            q := inetFragKill (Reassembly.checkDistance maxDist call state).2.ipq.q } } :=
      ⟨checked.sound.kill, checked.counted, checked.slack, checked.bound⟩
    exact ⟨_, _, rfl, killed.weaken.failed _⟩
  · exact checked.accept call covers

end

end Stages

/-! ## The life of a queue -/

/-- What happens to a queue: a fragment arrives, its timer fires, or it is killed
by its timer's handler or by the evictor. -/
inductive QueueEvent where
  | fragment (call : Call)
  | timerFires
  | kill
deriving DecidableEq, Repr

def queueStep (maxDist : U32) (state : Counted) :
    QueueEvent → Except Fault (Option QueueResult × Counted)
  | .fragment call =>
    match ipFragQueue maxDist state call with
    | .error fault => .error fault
    | .ok (result, after) => .ok (some result, after)
  | .timerFires =>
    .ok (none, { state with ipq := { state.ipq with
      q := { state.ipq.q with timerPending := false } } })
  | .kill =>
    .ok (none, { state with ipq := { state.ipq with q := inetFragKill state.ipq.q } })

/-- A queue as `ip_find` creates it for a first fragment. -/
def newQueue (tos : U8) (hasPeer : Bool) (total : Int) : Counted :=
  ⟨⟨InetFragQueue.fresh, ip4FragEcn tos, 0, hasPeer⟩, total⟩

def Pending (output : Option QueueResult) : Prop :=
  ∀ result, output = some result → result.datagram = none

section Life

variable {carries : Nat → U8 → Prop}

def Alive (carries : Nat → U8 → Prop) (state : Counted) : Prop :=
  Sound carries state.ipq.q ∧ state.ipq.q.count = state.ipq.q.fragments.length

def Done (state : Counted) : Prop :=
  state.ipq.q.complete = true ∧ state.ipq.q.fragments = []

variable {state : Counted}

theorem Alive.isOpen (alive : Alive carries state) :
    Open carries (state.total - state.ipq.q.fragments.length) state.ipq.q.fragments.length
      state :=
  ⟨alive.1, alive.2, rfl, le_rfl⟩

theorem Alive.queue (alive : Alive carries state) (maxDist : U32) (call : Call)
    (covers : call.skb.Covered carries) :
    ∃ result after, ipFragQueue maxDist state call = .ok (result, after) ∧
      CallSpec carries (state.total - state.ipq.q.fragments.length)
        state.ipq.q.fragments.length result after :=
  alive.isOpen.queue maxDist call covers

theorem Done.queue (done : Done state) (maxDist : U32) (call : Call) :
    ipFragQueue maxDist state call = .ok (QueueResult.failed (-ENOENT), state) := by
  rw [ipFragQueue, if_pos done.1]

/-- One event keeps a queue alive unless its datagram comes out, and a finished
queue finished. -/
theorem queueStep_spec (maxDist : U32) (event : QueueEvent)
    (covers : ∀ call, event = .fragment call → call.skb.Covered carries)
    (valid : Alive carries state ∨ Done state) :
    ∃ output after, queueStep maxDist state event = .ok (output, after) ∧
        (Alive carries after ∨ Done after) ∧
      (Alive carries state → Pending output → Alive carries after) := by
  cases event with
  | fragment call =>
    rcases valid with alive | done
    · obtain ⟨result, after, queued, spec⟩ := alive.queue maxDist call (covers call rfl)
      refine ⟨some result, after, by simp only [queueStep, queued], ?_, ?_⟩
      · by_cases pending : result.datagram = none
        · exact Or.inl ⟨spec.sound pending, spec.counted⟩
        · exact Or.inr (spec.done pending)
      · intro _ pending
        exact ⟨spec.sound (pending result rfl), spec.counted⟩
    · refine ⟨some (QueueResult.failed (-ENOENT)), state,
        by simp only [queueStep, done.queue], Or.inr done, fun alive _ => alive⟩
  | timerFires =>
    refine ⟨none, _, rfl, ?_, fun alive _ => ⟨alive.1.of_list rfl, alive.2⟩⟩
    exact valid.imp (fun alive => ⟨alive.1.of_list rfl, alive.2⟩) id
  | kill =>
    refine ⟨none, _, rfl, ?_, fun alive _ => ⟨alive.1.kill, alive.2⟩⟩
    exact valid.imp (fun alive => ⟨alive.1.kill, alive.2⟩) fun done => ⟨rfl, done.2⟩

theorem runQueue_spec (maxDist : U32) (events : List QueueEvent)
    (covers : ∀ call, .fragment call ∈ events → call.skb.Covered carries)
    (valid : Alive carries state ∨ Done state) :
    ∃ outputs final, runAll (queueStep maxDist) state events = .ok (outputs, final) ∧
      (Alive carries final ∨ Done final) ∧
      (Alive carries state → (∀ output ∈ outputs, Pending output) → Alive carries final) := by
  induction events generalizing state with
  | nil => exact ⟨[], state, rfl, valid, fun alive _ => alive⟩
  | cons event rest ih =>
    obtain ⟨output, next, stepOk, nextValid, nextAlive⟩ :=
      queueStep_spec maxDist event
        (fun call same => covers call (same ▸ List.mem_cons_self)) valid
    obtain ⟨outputs, final, runOk, finalValid, finalAlive⟩ :=
      ih (fun call member => covers call (List.mem_cons_of_mem _ member))
        nextValid
    refine ⟨output :: outputs, final, by simp only [runAll, stepOk, runOk], finalValid, ?_⟩
    intro alive pending
    exact finalAlive (nextAlive alive (pending output List.mem_cons_self))
      fun other member => pending other (List.mem_cons_of_mem _ member)

end Life

structure WellFormed (q : InetFragQueue) : Prop where
  disjoint : q.fragments.Pairwise
    (fun left right => left.offset + left.data.length ≤ right.offset)
  nonempty : ∀ fragment ∈ q.fragments, fragment.data ≠ []
  within : ∀ fragment ∈ q.fragments, fragment.offset + fragment.data.length ≤ q.len
  meat : q.meat = ((q.fragments.map fun fragment => fragment.data.length).sum : Nat)
  tail : q.fragmentsTail = q.fragments.getLast?.map Fragment.address

theorem Sound.wellFormed {carries : Nat → U8 → Prop} {q : InetFragQueue} (sound : Sound carries q) :
    WellFormed q := by
  obtain ⟨_, ordered, each⟩ := spaced_iff.mp sound.spaced
  refine ⟨ordered, ?_, fun fragment member => (each fragment member).2.2, sound.meat, sound.tail⟩
  intro fragment member empty
  have positive := (each fragment member).2.1
  simp [Fragment.len, empty] at positive

/-- Some fragment among the events carried the byte for the offset. -/
def Received (events : List QueueEvent) (offset : Nat) (byte : U8) : Prop :=
  ∃ call, .fragment call ∈ events ∧ call.skb.Carries offset byte

/-- Reassembly is faithful: along every life of a queue, whatever the fragments
and whichever allocations fail, each call of `ip_frag_queue` up to the one that
yields the datagram leaves the list well formed; `ip_frag_reasm` is entered only
on ranges that tile the datagram; and each byte of the datagram was carried for
its offset by a received fragment. -/
theorem ipFragQueue_faithful (maxDist : U32) (tos : U8) (hasPeer : Bool) (total : Int)
    (events : List QueueEvent) (call : Call) :
    ∃ outputs before result after,
      runAll (queueStep maxDist) (newQueue tos hasPeer total) events = .ok (outputs, before) ∧
      ipFragQueue maxDist before call = .ok (result, after) ∧
      ((∀ output ∈ outputs, Pending output) → Pending (some result) → WellFormed after.ipq.q) ∧
      (∀ q, result.entered = some q → Tiles Fragment.offset Fragment.len 0 q.fragments q.len) ∧
      ∀ datagram, result.datagram = some datagram → datagram.payload.length = after.ipq.q.len ∧
          ∀ (offset : Nat) (byte : U8), datagram.payload[offset]? = some byte →
            Received (events ++ [.fragment call]) offset byte := by
  have covers : ∀ other, QueueEvent.fragment other ∈ events ++ [.fragment call] →
      ∀ offset byte, other.skb.Carries offset byte →
        Received (events ++ [.fragment call]) offset byte :=
    fun other member offset byte carries => ⟨other, member, carries⟩
  have start : Alive (Received (events ++ [.fragment call])) (newQueue tos hasPeer total) :=
    ⟨sound_of_empty _ rfl rfl rfl, rfl⟩
  obtain ⟨outputs, before, runOk, valid, stays⟩ := runQueue_spec maxDist events
    (fun other member => covers other (by simp [member])) (Or.inl start)
  rcases valid with alive | done
  · obtain ⟨result, after, queued, spec⟩ :=
      alive.queue maxDist call (covers call (by simp))
    exact ⟨outputs, before, result, after, runOk, queued,
      fun _ pending => (spec.sound (pending result rfl)).wellFormed, spec.entered, spec.payload⟩
  · refine ⟨outputs, before, _, before, runOk, done.queue maxDist call, ?_, ?_, ?_⟩
    · intro pending _
      exact (stays start pending).1.wellFormed
    · simp [QueueResult.failed]
    · simp [QueueResult.failed]

/-! ## A datagram in two fragments -/

def plentiful : Resources where
  pullHeader := true
  trim := true
  pullOverlap := true
  pullNext := true
  clone := true
  headCloned := false
  expandHead := true
  headHasFragList := false
  allocSplit := true

def firstHalf : Call :=
  ⟨⟨0x2000, 20, 0, [1, 2, 3, 4, 5, 6, 7, 8], false⟩, 0, plentiful⟩

def secondHalf : Call :=
  ⟨⟨0x0001, 20, 0, [9, 10, 11, 12, 13, 14, 15, 16], false⟩, 0, plentiful⟩

/-- The call that completes a datagram hands the fragments over and leaves an
empty list, but not `meat`: it still counts sixteen bytes. -/
theorem meat_survives_reassembly : ∃ outputs before result after,
      runAll (queueStep 64) (newQueue 0 false 0) [.fragment firstHalf] = .ok (outputs, before) ∧
      ipFragQueue 64 before secondHalf = .ok (result, after) ∧
      after.ipq.q.fragments = [] ∧ after.ipq.q.meat = 16 ∧ ¬ WellFormed after.ipq.q := by
  refine ⟨_, _, _, _, rfl, rfl, rfl, rfl, ?_⟩
  intro wellFormed
  have meat := wellFormed.meat
  revert meat
  decide

end RouterKernel.Reassembly
