import RouterKernel.Timers.Placement

/-!
Contract: every timer is taken at exactly its tick.

Owns:
- `Tracked`, what holds of one timer from its addition on: it waits on a list that
  is right for its due tick, or that tick is over and it is on no list of the wheel;
- that every event keeps it, and so every sequence of events;
- the tick at which a timer is moved to the work list.
-/

namespace RouterKernel.Timers

open RouterKernel.Foundation

/-- The turns of the loop before the one that is to take a timer: up to the tick
`expires`, or none when `expires` has passed. -/
def delay (timerJiffies expires : U32) : Nat :=
  if 0 ≤ (expires - timerJiffies).toInt then (expires - timerJiffies).toNat else 0

inductive Tracked (name due : Nat) (expires : U32) : Nat → State → Prop
  | waiting {tick : Nat} {state : State} {bucket : Bucket} (placed : Placed tick due expires bucket)
      (listed : state.base.only name = single (BitVec.ofNat 32 tick) bucket ⟨name, expires⟩)
      (absent : ∀ timer ∈ state.workList, timer.name ≠ name) :
      Tracked name due expires tick state
  | gone {tick : Nat} {state : State} (past : due < tick)
      (unlisted : state.base.only name = empty (BitVec.ofNat 32 tick)) :
      Tracked name due expires tick state

theorem ofNat_toNat_self (value : U32) : BitVec.ofNat 32 value.toNat = value := by
  rw [BitVec.ofNat_toNat, BitVec.setWidth_eq]

section Tracking

variable {name due tick : Nat} {expires : U32} {state next : State} {event : Event}

theorem Placed.le {bucket : Bucket} (placed : Placed tick due expires bucket) : tick ≤ due := by
  cases bucket with
  | tv1 slot => exact placed.2.1
  | tv n slot => exact le_trans placed.2.2.2.1 (opening_le n due)

theorem Tracked.timerJiffies (tracked : Tracked name due expires tick state) :
    state.base.timerJiffies = BitVec.ofNat 32 tick := by
  cases tracked with
  | waiting placed listed absent =>
    exact congrArg Base.timerJiffies listed
  | gone past unlisted => exact congrArg Base.timerJiffies unlisted

theorem only_eq_empty_iff : state.base.only name = empty state.base.timerJiffies ↔
      ∀ bucket, ∀ timer ∈ state.base.lists bucket, timer.name ≠ name := by
  constructor
  · intro unlisted bucket timer listed ours
    have nil : (state.base.only name).lists bucket = [] := by rw [unlisted]; rfl
    rw [only_lists, List.filter_eq_nil_iff] at nil
    exact nil timer listed (by simpa using ours)
  · intro absent
    have nil (bucket : Bucket) : (state.base.lists bucket).filter (·.name = name) = [] := by
      rw [List.filter_eq_nil_iff]
      intro timer listed
      simpa using absent bucket timer listed
    exact congrArg (Base.mk state.base.timerJiffies) (funext nil)

theorem only_detachTimer (other : Nat) : (detachTimer state other).base.only name =
      if other = name then empty state.base.timerJiffies else state.base.only name := by
  have filtered (bucket : Bucket) : ((detachTimer state other).base.only name).lists bucket =
      ((state.base.lists bucket).filter (·.name ≠ other)).filter (·.name = name) := rfl
  have same : ((detachTimer state other).base.only name).lists =
      (if other = name then empty state.base.timerJiffies else state.base.only name).lists := by
    funext bucket
    rw [filtered, List.filter_filter]
    by_cases ours : other = name
    · rw [if_pos ours]
      subst ours
      refine List.filter_eq_nil_iff.mpr ?_
      intro timer _
      simp
    · rw [if_neg ours, only_lists]
      refine List.filter_congr ?_
      intro timer _
      by_cases named : timer.name = name
      · simp [named, Ne.symm ours]
      · simp [named]
  by_cases ours : other = name
  · rw [if_pos ours] at same ⊢
    exact congrArg (Base.mk state.base.timerJiffies) same
  · rw [if_neg ours] at same ⊢
    exact congrArg (Base.mk state.base.timerJiffies) same

theorem Tracked.detach (tracked : Tracked name due expires tick state) {other : Nat}
    (kept : other = name → due < tick) :
    Tracked name due expires tick (detachTimer state other) := by
  cases tracked with
  | waiting placed listed absent =>
    have differs : other ≠ name := fun ours => by
      have late := kept ours
      have early := placed.le
      omega
    refine .waiting placed ?_ ?_
    · rw [only_detachTimer, if_neg differs, listed]
    · intro timer listed
      exact absent timer (List.mem_filter.mp listed).1
  | gone past unlisted =>
    refine .gone past ?_
    rw [only_detachTimer, unlisted]
    have jiffies : state.base.timerJiffies = BitVec.ofNat 32 tick :=
      congrArg Base.timerJiffies unlisted
    rw [jiffies, ite_self]

theorem iteration_empty (tick : Nat) :
    (iteration (empty (BitVec.ofNat 32 tick))).base = empty (BitVec.ofNat 32 (tick + 1)) ∧
      (iteration (empty (BitVec.ofNat 32 tick))).workList = [] := by
  have cascaded (jiffies : U32) : cascadeAll (empty jiffies) = empty jiffies := by
    have one (n index : Nat) : cascade (empty jiffies) n index = empty jiffies :=
      set_same (.tv n index)
    have all (n more : Nat) : cascadeFrom (empty jiffies) n more = empty jiffies := by
      induction more generalizing n with
      | zero => rfl
      | succ more ih =>
        rw [cascadeFrom, one, ih, ite_self]
    rw [cascadeAll, all, ite_self]
  rw [iteration, cascaded]
  refine ⟨?_, rfl⟩
  have advanced : advance (empty (BitVec.ofNat 32 tick)) = empty (BitVec.ofNat 32 (tick + 1)) :=
    congrArg empty (ofNat_succ tick)
  rw [advanced]
  exact set_same _

theorem Tracked.iteration (tracked : Tracked name due expires tick state) :
    Tracked name due expires (tick + 1) (iteration state.base) ∧
      ((Timers.iteration state.base).workList.map Timer.name).count name = if tick = due then 1
        else 0 := by
  have counted (timers : List Timer)
      (filtered : (Timers.iteration state.base).workList.filter (·.name = name) = timers) :
      ((Timers.iteration state.base).workList.map Timer.name).count name = timers.length := by
    rw [← filtered, List.count, List.countP_map, List.countP_eq_length_filter]
    congr 2
  cases tracked with
  | waiting placed listed absent =>
    have base := only_iteration state.base name
    have workList := workList_iteration state.base name
    rw [listed] at base workList
    rcases iteration_single name placed with
      ⟨dueNow, taken, emptied⟩ | ⟨later, untaken, bucket, nextPlaced, nextListed⟩
    · rw [emptied] at base
      rw [taken] at workList
      refine ⟨.gone (by omega) base, ?_⟩
      rw [counted _ workList, if_pos dueNow.symm]
      rfl
    · rw [nextListed] at base
      rw [untaken] at workList
      refine ⟨.waiting nextPlaced base ?_, ?_⟩
      · intro timer listed
        simpa using List.filter_eq_nil_iff.mp workList timer listed
      · rw [counted _ workList, if_neg (by omega)]
        rfl
  | gone past unlisted =>
    have base := only_iteration state.base name
    have workList := workList_iteration state.base name
    rw [unlisted, (iteration_empty tick).1] at base
    rw [unlisted, (iteration_empty tick).2] at workList
    refine ⟨.gone (by omega) base, ?_⟩
    rw [counted _ workList, if_neg (by omega)]
    rfl

theorem tracked_add (position : state.base.timerJiffies = BitVec.ofNat 32 tick)
    (adds : Step state (.add ⟨name, expires⟩) next) :
    Tracked name (tick + delay state.base.timerJiffies expires) expires tick next := by
  cases adds with
  | add detached =>
    have unlisted : state.base.only name = empty state.base.timerJiffies := by
      rw [only_eq_empty_iff]
      intro bucket timer listed ours
      exact detached (Or.inl ⟨bucket, timer, listed, ours⟩)
    have listed : (internalAddTimer state.base ⟨name, expires⟩).only name =
        single (BitVec.ofNat 32 tick) (bucketFor state.base.timerJiffies expires)
          ⟨name, expires⟩ := by
      rw [only_internalAddTimer, if_pos rfl, unlisted, ← position]
      exact internalAddTimer_empty _ _
    have absent : ∀ timer ∈ state.workList, timer.name ≠ name := by
      intro timer listed ours
      exact detached (Or.inr ⟨timer, listed, ours⟩)
    refine .waiting ?_ listed absent
    by_cases forward : 0 ≤ (expires - state.base.timerJiffies).toInt
    · rw [delay, if_pos forward]
      have near : (expires - state.base.timerJiffies).toNat < 2 ^ 31 := by
        rw [BitVec.toInt_eq_toNat_cond] at forward
        split at forward <;> omega
      have dueEq : BitVec.ofNat 32 (tick + (expires - state.base.timerJiffies).toNat) =
          expires := by
        rw [BitVec.ofNat_add, ← position, ofNat_toNat_self, BitVec.add_comm, BitVec.sub_add_cancel]
      have placed := (bucketFor_placed
        (Nat.le_add_right tick (expires - state.base.timerJiffies).toNat) (by omega)).1
      rw [dueEq, ← position] at placed
      exact placed
    · rw [delay, if_neg forward]
      have late : (expires - BitVec.ofNat 32 tick).toInt < 0 := by
        rw [← position]
        omega
      rw [position, bucketFor_late late]
      exact ⟨rfl, by omega, by omega⟩

/-- Every event keeps the timer tracked, unless it detaches the timer before its tick
or adds it again. -/
theorem Tracked.step (tracked : Tracked name due expires tick state)
    (steps : Step state event next) (kept : event = .detach name → due < tick)
    (once : ∀ other, event ≠ .add ⟨name, other⟩) :
    Tracked name due expires (tick + iterations [event]) next := by
  cases steps with
  | @add timer detached =>
    have differs : timer.name ≠ name := by
      rintro rfl
      exact once timer.expires rfl
    have only : (internalAddTimer state.base timer).only name = state.base.only name := by
      rw [only_internalAddTimer, if_neg differs]
    cases tracked with
    | waiting placed listed absent => exact .waiting placed (only.trans listed) absent
    | gone past unlisted => exact .gone past (only.trans unlisted)
  | @detach other => exact tracked.detach (fun ours => kept (congrArg Event.detach ours))
  | iterate drained reached => exact tracked.iteration.1
  | @expire timer rest first =>
    refine tracked.detach ?_
    intro ours
    cases tracked with
    | waiting placed listed absent =>
      exact absurd ours (absent timer (by rw [first]; exact List.mem_cons_self))
    | gone past unlisted => exact past

end Tracking

theorem iterations_append (first second : List Event) :
    iterations (first ++ second) = iterations first + iterations second :=
  List.countP_append

/-- The run lemma: a timer stays tracked along every sequence of events. -/
theorem Tracked.run {name due tick : Nat} {expires : U32} {state final : State}
    {events : List Event} (runs : Run state events final)
    (tracked : Tracked name due expires tick state)
    (kept : ∀ earlier, earlier ++ [.detach name] <+: events → due < tick + iterations earlier)
    (once : ∀ other, .add ⟨name, other⟩ ∉ events) :
    Tracked name due expires (tick + iterations events) final := by
  induction runs with
  | nil => exact tracked
  | @snoc middle final event events before last ih =>
    have earlierTracked := ih
      (fun earlier detached => kept earlier (detached.trans (List.prefix_append _ _)))
      (fun other added => once other (List.mem_append_left _ added))
    rw [iterations_append, ← Nat.add_assoc]
    refine earlierTracked.step last ?_ ?_
    · rintro rfl
      exact kept events (List.prefix_refl _)
    · rintro other rfl
      exact once other (List.mem_append_right _ List.mem_cons_self)

/-- A timer added with `expires` while the base is at tick `timer_jiffies`, neither
detached before its tick nor added again, is put on the work list by the turn of the
loop that comes after exactly `delay` turns, and by no other; that turn is the one for
the tick `expires`, or the first one when `expires` has passed. -/
theorem timer_fires_on_tick {state added before after : State} {name : Nat} {expires now : U32}
    {events : List Event} (adds : Step state (.add ⟨name, expires⟩) added)
    (follows : Run added events before)
    (kept : ∀ earlier, earlier ++ [.detach name] <+: events →
      delay state.base.timerJiffies expires < iterations earlier)
    (once : ∀ other, .add ⟨name, other⟩ ∉ events)
    (turns : Step before (.iterate now) after) :
    (after.workList.map Timer.name).count name =
        (if iterations events = delay state.base.timerJiffies expires then 1 else 0) ∧
      before.base.timerJiffies = state.base.timerJiffies + BitVec.ofNat 32 (iterations events) ∧
      (iterations events = delay state.base.timerJiffies expires → before.base.timerJiffies =
          if 0 ≤ (expires - state.base.timerJiffies).toInt then expires
          else state.base.timerJiffies) := by
  have tracked := (tracked_add (ofNat_toNat_self state.base.timerJiffies).symm adds).run follows
    (fun earlier detached => by have later := kept earlier detached; omega) once
  have tick : before.base.timerJiffies =
      state.base.timerJiffies + BitVec.ofNat 32 (iterations events) := by
    rw [tracked.timerJiffies, BitVec.ofNat_add, ofNat_toNat_self]
  refine ⟨?_, tick, ?_⟩
  · cases turns with
    | iterate drained reached =>
      rw [tracked.iteration.2]
      simp only [Nat.add_left_cancel_iff]
  · intro dueNow
    rw [tick, dueNow, delay]
    split
    · rw [ofNat_toNat_self, BitVec.add_comm, BitVec.sub_add_cancel]
    · exact BitVec.add_zero _

/-- A timer due one tick after the counter wraps. -/
theorem timer_fires_on_tick_wrapping :
    ((iteration (iteration (internalAddTimer (empty 0xffffffff) ⟨7, 0⟩)).base).workList.map
      Timer.name).count 7 = 1 := by
  have detached : ¬ (⟨empty 0xffffffff, []⟩ : State).Pending 7 := by
    rintro (⟨bucket, timer, listed, -⟩ | ⟨timer, listed, -⟩)
    · cases listed
    · cases listed
  have adds : Step ⟨empty 0xffffffff, []⟩ (.add ⟨7, 0⟩)
      ⟨internalAddTimer (empty 0xffffffff) ⟨7, 0⟩, []⟩ := .add detached
  have first : Step ⟨internalAddTimer (empty 0xffffffff) ⟨7, 0⟩, []⟩ (.iterate 0)
      (iteration (internalAddTimer (empty 0xffffffff) ⟨7, 0⟩)) := .iterate rfl (by decide)
  have second : Step (iteration (internalAddTimer (empty 0xffffffff) ⟨7, 0⟩)) (.iterate 0)
      (iteration (iteration (internalAddTimer (empty 0xffffffff) ⟨7, 0⟩)).base) :=
    .iterate rfl (by decide)
  have kept : ∀ earlier, earlier ++ [Event.detach 7] <+: [] ++ [.iterate 0] →
      delay 0xffffffff 0 < iterations earlier := by
    intro earlier detached
    have member : Event.detach 7 ∈ [] ++ [.iterate 0] := detached.subset (by simp)
    simp at member
  exact (timer_fires_on_tick adds (.snoc .nil first) kept (by simp) second).1

end RouterKernel.Timers
