import RouterKernel.Reassembly.Queue

/-!
Contract: the invariant of a fragment list and the shared queue operations.

Owns:
- `Sound`, a list of disjoint non-empty ranges in order, within `len`, counted by
  `meat`, with `fragments_tail` at its end and every byte accounted for;
- preservation by the end-of-datagram bookkeeping, search and insertion.
-/

namespace RouterKernel.Reassembly

open Foundation

structure Addressed (q : InetFragQueue) : Prop where
  fresh : ∀ fragment ∈ q.fragments, fragment.address < q.nextAddress
  distinct : (q.fragments.map Fragment.address).Nodup

/-- The invariant of the fragment list apart from `fragments_tail`.
`carries offset byte` says that some received fragment carried this byte for
this offset. -/
structure Listed (carries : Nat → U8 → Prop) (q : InetFragQueue) : Prop extends
    Addressed q where
  spaced : Spaced Fragment.offset Fragment.len 0 q.fragments q.len
  meat : q.meat = totalSize Fragment.len q.fragments
  carried : ∀ fragment ∈ q.fragments, ∀ (index : Nat) (byte : U8),
    fragment.data[index]? = some byte → carries (fragment.offset + index) byte

/-- The invariant of a queue that accepts fragments. -/
structure Sound (carries : Nat → U8 → Prop) (q : InetFragQueue) : Prop extends
    Listed carries q where
  tail : q.fragmentsTail = q.fragments.getLast?.map Fragment.address

theorem sound_of_empty (carries : Nat → U8 → Prop) {q : InetFragQueue}
    (fragments : q.fragments = []) (tail : q.fragmentsTail = none) (meat : q.meat = 0) :
    Sound carries q where
  spaced := by
    rw [fragments]
    exact Nat.zero_le q.len
  meat := by
    rw [fragments, meat]
    rfl
  tail := by
    rw [fragments, tail]
    rfl
  fresh := by simp [fragments]
  distinct := by simp [fragments]
  carried := by simp [fragments]

section Sound

variable {carries : Nat → U8 → Prop} {q : InetFragQueue}

/-- The reference count, the timer, the flags and the counter are not part of the
invariant. -/
theorem Sound.of_list {other : InetFragQueue} (sound : Sound carries q)
    (same : other = { q with
      refcnt := other.refcnt
      timerPending := other.timerPending
      firstIn := other.firstIn
      lastIn := other.lastIn
      complete := other.complete
      count := other.count }) : Sound carries other := by
  rw [same]
  exact ⟨⟨⟨sound.fresh, sound.distinct⟩, sound.spaced, sound.meat, sound.carried⟩, sound.tail⟩

theorem Sound.kill (sound : Sound carries q) : Sound carries (inetFragKill q) :=
  sound.of_list rfl

/-! ## The end of the datagram -/

/-- What a successful `noteEnd` does: the length only grows, up to at least the
end of the new fragment, and nothing else of the list changes. -/
theorem noteEnd_inv {more : Bool} {stop : Nat} {after : InetFragQueue}
    (noted : noteEnd more stop q = some after) :
    q.len ≤ after.len ∧ stop ≤ after.len ∧
      after = { q with lastIn := after.lastIn, len := after.len } := by
  unfold noteEnd at noted
  split_ifs at noted with isMore longer last bad
  · obtain rfl := Option.some.inj noted
    exact ⟨longer.le, le_rfl, rfl⟩
  · obtain rfl := Option.some.inj noted
    exact ⟨le_rfl, by omega, rfl⟩
  · obtain rfl := Option.some.inj noted
    push Not at bad
    exact ⟨bad.1, le_rfl, rfl⟩

theorem Sound.noteEnd (sound : Sound carries q) {more : Bool} {stop : Nat}
    {after : InetFragQueue} (noted : noteEnd more stop q = some after) :
    Sound carries after := by
  obtain ⟨longer, _, same⟩ := noteEnd_inv noted
  rw [same]
  exact { sound with spaced := sound.spaced.high_mono longer }

/-! ## Search -/

private theorem find_last {fragments : List Fragment} {last : Fragment}
    (distinct : ((fragments ++ [last]).map Fragment.address).Nodup) :
    (fragments ++ [last]).find? (fun fragment => fragment.address == last.address) = some last := by
  rw [List.map_append, List.nodup_append] at distinct
  rw [List.find?_append]
  have absent : fragments.find? (fun fragment => fragment.address == last.address) = none := by
    rw [List.find?_eq_none]
    intro fragment member same
    have inMap : fragment.address ∈ fragments.map Fragment.address :=
      List.mem_map_of_mem member
    exact distinct.2.2 fragment.address inMap last.address (by simp) (by simpa using same)
  simp [absent]

private theorem through_last {fragments : List Fragment} {last : Fragment}
    (distinct : ((fragments ++ [last]).map Fragment.address).Nodup) :
    through last.address (fragments ++ [last]) = fragments ++ [last] := by
  induction fragments with
  | nil => simp [through]
  | cons fragment rest ih =>
    rw [List.cons_append, List.map_cons, List.nodup_cons] at distinct
    have different : fragment.address ≠ last.address := by
      intro same
      apply distinct.1
      rw [same]
      exact List.mem_map_of_mem (by simp)
    rw [List.cons_append, through, if_neg different, ih distinct.2]

theorem Addressed.locate (addressed : Addressed q)
    (tail : q.fragmentsTail = q.fragments.getLast?.map Fragment.address) (offset : Nat) :
    ∃ before after, locate q offset = .ok (before, after) ∧ before ++ after = q.fragments := by
  have distinct := addressed.distinct
  unfold Reassembly.locate
  generalize q.fragments = fragments at *
  cases fragments using List.reverseRecOn with
  | nil =>
    simp only [List.getLast?_nil, Option.map_none] at tail
    exact ⟨[], [], by rw [tail], rfl⟩
  | append_singleton fragments last =>
    simp only [List.getLast?_append, List.getLast?_singleton, Option.some_or, Option.map_some]
      at tail
    simp only [tail, find_last distinct, through_last distinct]
    by_cases past : last.offset < offset
    · exact ⟨_, [], by rw [if_pos past], by simp⟩
    · exact ⟨_, _, by rw [if_neg past], List.takeWhile_append_dropWhile⟩

/-! ## Insertion -/

variable {before after : List Fragment}

theorem Addressed.link (addressed : Addressed q) (skb : Fragment)
    (fragments : q.fragments = before ++ after)
    (address : skb.address = q.nextAddress) :
    Addressed (link q before skb after) where
  fresh := by
    intro fragment member
    have fresh := addressed.fresh
    rw [fragments] at fresh
    simp only [Reassembly.link, List.mem_append, List.mem_cons] at member
    rcases member with early | rfl | late
    · exact Nat.lt_succ_of_lt (fresh fragment (by simp [early]))
    · simp [Reassembly.link, address]
    · exact Nat.lt_succ_of_lt (fresh fragment (by simp [late]))
  distinct := by
    have distinct := addressed.distinct
    have fresh := addressed.fresh
    rw [fragments] at distinct fresh
    have unused : skb.address ∉ (before ++ after).map Fragment.address := by
      intro member
      obtain ⟨fragment, present, same⟩ := List.mem_map.mp member
      have := fresh fragment present
      omega
    have reordered : (before ++ skb :: after).Perm (skb :: (before ++ after)) :=
      List.perm_middle
    have renamed := reordered.map Fragment.address
    simp only [Reassembly.link]
    rw [renamed.nodup_iff, List.map_cons, List.nodup_cons]
    exact ⟨unused, distinct⟩

/-- Insertion moves `fragments_tail` only at the end of the list, so it need only
be right when something follows. -/
theorem link_tail (skb : Fragment)
    (tail : after ≠ [] → q.fragmentsTail = after.getLast?.map Fragment.address) :
    (link q before skb after).fragmentsTail =
    (link q before skb after).fragments.getLast?.map Fragment.address := by
  cases after with
  | nil => simp [link]
  | cons next rest =>
    simp only [link, List.isEmpty_cons, Bool.false_eq_true, if_false,
      tail (List.cons_ne_nil next rest)]
    simp [List.getLast?_append, List.getLast?_cons]

theorem tail_of_append (tail : q.fragmentsTail = q.fragments.getLast?.map Fragment.address)
    (fragments : q.fragments = before ++ after) (nonempty : after ≠ []) :
    q.fragmentsTail = after.getLast?.map Fragment.address := by
  rw [tail, fragments, List.getLast?_append, List.getLast?_eq_some_getLast nonempty]
  rfl

/-- Insertion into a gap: the fragments before end where the new one may begin,
those after begin at or past its end. -/
theorem Listed.link (listed : Listed carries q) (skb : Fragment)
    (fragments : q.fragments = before ++ after)
    (tail : after ≠ [] → q.fragmentsTail = after.getLast?.map Fragment.address)
    (address : skb.address = q.nextAddress) (nonempty : 0 < skb.len)
    (starts : stopOf Fragment.offset Fragment.len 0 before ≤ skb.offset)
    (ends : Spaced Fragment.offset Fragment.len skb.stop after q.len)
    (carried : ∀ (index : Nat) (byte : U8), skb.data[index]? = some byte →
      carries (skb.offset + index) byte) :
    Sound carries (link q before skb after) where
  toAddressed := listed.toAddressed.link skb fragments address
  spaced := by
    have spaced := listed.spaced
    rw [fragments, spaced_append] at spaced
    exact spaced_append.mpr ⟨spaced.1, starts, nonempty, ends⟩
  meat := by
    have meat := listed.meat
    rw [fragments, totalSize_append] at meat
    simp only [Reassembly.link, totalSize_append, totalSize_cons, meat]
    push_cast
    ring
  tail := link_tail skb tail
  carried := by
    intro fragment member
    have old := listed.carried
    rw [fragments] at old
    simp only [Reassembly.link, List.mem_append, List.mem_cons] at member
    rcases member with early | rfl | late
    · exact old fragment (by simp [early])
    · exact carried
    · exact old fragment (by simp [late])

/-- A full queue: what was received tiles the datagram. -/
theorem Listed.tiles (listed : Listed carries q) (ready : q.ready = true) :
    Tiles Fragment.offset Fragment.len 0 q.fragments q.len := by
  simp only [InetFragQueue.ready, Bool.and_eq_true, decide_eq_true_eq] at ready
  have full := ready.2
  rw [listed.meat] at full
  exact listed.spaced.tiles (by omega)

end Sound

end RouterKernel.Reassembly
