import RouterKernel.Timers.Wheel

/-!
Contract: where the wheel keeps one timer.

Owns:
- the wheel restricted to one timer, and that every operation commutes with the
  restriction;
- `Placed`: which lists a timer that is due at a given tick may be on;
- what `internal_add_timer`, the cascades and one turn of the loop do to the place.

Ticks are counted without wrapping here; `timer_jiffies` is the count modulo `2 ^ 32`.
-/

namespace RouterKernel.Timers

open RouterKernel.Foundation

/-! ## One timer at a time -/

/-- The wheel as if no other timer existed. -/
def Base.only (base : Base) (name : Nat) : Base :=
  { base with lists := fun bucket => (base.lists bucket).filter (·.name = name) }

def single (jiffies : U32) (bucket : Bucket) (timer : Timer) : Base :=
  { timerJiffies := jiffies, lists := Function.update (fun _ => []) bucket [timer] }

def empty (jiffies : U32) : Base :=
  { timerJiffies := jiffies, lists := fun _ => [] }

variable {base : Base} {name : Nat}

theorem only_lists (bucket : Bucket) :
    (base.only name).lists bucket = (base.lists bucket).filter (·.name = name) := rfl

theorem only_set (bucket : Bucket) (timers : List Timer) : (base.set bucket timers).only name =
      (base.only name).set bucket (timers.filter (·.name = name)) := by
  have same (other : Bucket) :
      (Function.update base.lists bucket timers other).filter (·.name = name) =
        Function.update (base.only name).lists bucket (timers.filter (·.name = name)) other := by
    by_cases here : other = bucket
    · subst here
      rw [Function.update_self, Function.update_self]
    · rw [Function.update_of_ne here, Function.update_of_ne here, only_lists]
  exact congrArg (Base.mk base.timerJiffies) (funext same)

theorem set_same (bucket : Bucket) : base.set bucket (base.lists bucket) = base := by
  rw [Base.set, Function.update_eq_self]

theorem only_internalAddTimer (timer : Timer) : (internalAddTimer base timer).only name =
      if timer.name = name then internalAddTimer (base.only name) timer else base.only name := by
  rw [internalAddTimer, only_set, List.filter_append, ← only_lists]
  by_cases ours : timer.name = name
  · rw [if_pos ours, List.filter_singleton, decide_eq_true ours]
    rfl
  · rw [if_neg ours, List.filter_singleton, decide_eq_false ours]
    simp only [cond_false, List.append_nil]
    exact set_same _

theorem only_foldl (timers : List Timer) : (timers.foldl internalAddTimer base).only name =
      (timers.filter (·.name = name)).foldl internalAddTimer (base.only name) := by
  induction timers generalizing base with
  | nil => rfl
  | cons timer rest ih =>
    rw [List.foldl_cons, ih, only_internalAddTimer]
    by_cases ours : timer.name = name
    · rw [if_pos ours, List.filter_cons_of_pos (by simpa using ours), List.foldl_cons]
    · rw [if_neg ours, List.filter_cons_of_neg (by simpa using ours)]

theorem only_cascade (n index : Nat) :
    (cascade base n index).only name = cascade (base.only name) n index := by
  rw [cascade, only_foldl, only_set, ← only_lists]
  rfl

theorem only_cascadeFrom (n more : Nat) :
    (cascadeFrom base n more).only name = cascadeFrom (base.only name) n more := by
  induction more generalizing base n with
  | zero => rfl
  | succ more ih =>
    have index : (base.only name).index n = base.index n := rfl
    simp only [cascadeFrom, index]
    split
    · rw [ih, only_cascade]
    · rw [only_cascade]

theorem only_cascadeAll : (cascadeAll base).only name = cascadeAll (base.only name) := by
  have index : (base.only name).rootIndex = base.rootIndex := rfl
  rw [cascadeAll, cascadeAll, index]
  split
  · exact only_cascadeFrom 0 4
  · rfl

theorem only_iteration (base : Base) (name : Nat) :
    (iteration base).base.only name = (iteration (base.only name)).base := by
  have advanced : (advance (cascadeAll base)).only name = advance ((cascadeAll base).only name) :=
    rfl
  rw [iteration, iteration, only_set, advanced, only_cascadeAll]
  rfl

theorem workList_iteration (base : Base) (name : Nat) :
    (iteration base).workList.filter (·.name = name) = (iteration (base.only name)).workList := by
  rw [iteration, iteration, ← only_cascadeAll]
  rfl

theorem internalAddTimer_empty (jiffies : U32) (timer : Timer) :
    internalAddTimer (empty jiffies) timer =
      single jiffies (bucketFor jiffies timer.expires) timer := rfl

theorem single_lists (jiffies : U32) (bucket other : Bucket) (timer : Timer) :
    (single jiffies bucket timer).lists other = if other = bucket then [timer] else [] := by
  exact Function.update_apply (fun _ => []) bucket [timer] other

theorem single_set (jiffies : U32) (bucket : Bucket) (timer : Timer) :
    (single jiffies bucket timer).set bucket [] = empty jiffies := by
  rw [single, Base.set, Function.update_idem, Function.update_eq_self]
  rfl

theorem cascade_single (jiffies : U32) (bucket : Bucket) (timer : Timer) (n index : Nat) :
    cascade (single jiffies bucket timer) n index =
      if bucket = .tv n index then single jiffies (bucketFor jiffies timer.expires) timer
      else single jiffies bucket timer := by
  rw [cascade, single_lists]
  by_cases here : bucket = .tv n index
  · subst here
    rw [if_pos rfl, if_pos rfl, single_set]
    rfl
  · have unlisted : (single jiffies bucket timer).lists (.tv n index) = [] := by
      rw [single_lists, if_neg (Ne.symm here)]
    rw [if_neg (Ne.symm here), if_neg here, List.foldl_nil, ← unlisted, set_same]

/-! ## Places -/

/-- The ticks that share a list of the array of `INDEX(n)`. -/
def span (n : Nat) : Nat := 2 ^ (TVR_BITS + n * TVN_BITS)

/-- The first tick of a timer's list in the array of `INDEX(n)`: the one at which the
list is cascaded. -/
def opening (n due : Nat) : Nat := due / span n * span n

/-- At tick `tick` a timer due at `due` may be on this list. -/
def Placed (tick due : Nat) (expires : U32) : Bucket → Prop
  | .tv1 slot => slot = due % 256 ∧ tick ≤ due ∧ due < tick + 256
  | .tv n slot => n < 4 ∧ slot = due / span n % 64 ∧ expires = BitVec.ofNat 32 due ∧
      tick ≤ opening n due ∧ opening n due < tick + 64 * span n

/-- No cascade of this tick is owed to a timer on this list. -/
def Settled (tick due : Nat) (bucket : Bucket) : Prop :=
  ∀ n slot, bucket = .tv n slot → tick < opening n due

theorem span_pos (n : Nat) : 0 < span n := Nat.two_pow_pos _

theorem span_succ (n : Nat) : span (n + 1) = span n * 64 := by
  rw [span, span, show TVR_BITS + (n + 1) * TVN_BITS = TVR_BITS + n * TVN_BITS + 6 by
    simp only [TVR_BITS, TVN_BITS]
    omega, Nat.pow_add]

theorem span_dvd {n m : Nat} (below : n ≤ m) : span n ∣ span m :=
  Nat.pow_dvd_pow 2 (by simp only [TVN_BITS]; omega)

theorem span_dvd_opening (n due : Nat) : span n ∣ opening n due := Nat.dvd_mul_left _ _

theorem opening_le (n due : Nat) : opening n due ≤ due := Nat.div_mul_le_self _ _

theorem lt_opening_add (n due : Nat) : due < opening n due + span n := by
  have parts := Nat.div_add_mod due (span n)
  have small := Nat.mod_lt due (span_pos n)
  have same : span n * (due / span n) = opening n due := Nat.mul_comm _ _
  omega

theorem toNat_slot (tick : Nat) : (BitVec.ofNat 32 tick &&& TVR_MASK).toNat = tick % 256 := by
  rw [BitVec.toNat_and, BitVec.toNat_ofNat, show TVR_MASK.toNat = 2 ^ 8 - 1 from rfl,
    Nat.and_two_pow_sub_one_eq_mod]
  omega

theorem slotAt_ofNat {n : Nat} (small : n < 4) (tick : Nat) :
    slotAt (BitVec.ofNat 32 tick) n = tick / span n % 64 := by
  rw [slotAt, BitVec.toNat_and, BitVec.toNat_ushiftRight, BitVec.toNat_ofNat,
    show TVN_MASK.toNat = 2 ^ 6 - 1 from rfl, Nat.and_two_pow_sub_one_eq_mod,
    Nat.shiftRight_eq_div_pow, span]
  -- the counter has at least six bits above the shift
  have split : 2 ^ 32 = 2 ^ (TVR_BITS + n * TVN_BITS) * (2 ^ 6 * 2 ^ (18 - n * 6)) := by
    rw [← Nat.pow_add, ← Nat.pow_add]
    congr 1
    simp only [TVR_BITS, TVN_BITS]
    omega
  rw [split, Nat.mod_mul_right_div_self, Nat.mod_mul_right_mod]
  rfl

/-! ## Adding -/

theorem toNat_sub_tick {tick due : Nat} (later : tick ≤ due) (near : due < tick + 2 ^ 31) :
    (BitVec.ofNat 32 due - BitVec.ofNat 32 tick).toNat = due - tick := by
  rw [BitVec.toNat_sub, BitVec.toNat_ofNat, BitVec.toNat_ofNat]
  omega

/-- A list of the array of `INDEX(n)` is chosen for a timer at least one list ahead and
at most one lap. -/
theorem placed_tv {tick due n : Nat} (small : n < 4) (least : span n ≤ due - tick)
    (most : due - tick < 64 * span n) :
    Placed tick due (BitVec.ofNat 32 due) (.tv n (slotAt (BitVec.ofNat 32 due) n)) := by
  have low := opening_le n due
  have high := lt_opening_add n due
  have positive := span_pos n
  refine ⟨small, slotAt_ofNat small due, rfl, ?_, ?_⟩
  · omega
  · omega

/-- Where `internal_add_timer` puts a timer that is not late. -/
theorem bucketFor_placed {tick due : Nat} (later : tick ≤ due) (near : due < tick + 2 ^ 31) :
    Placed tick due (BitVec.ofNat 32 due)
        (bucketFor (BitVec.ofNat 32 tick) (BitVec.ofNat 32 due)) ∧
      ∀ n slot, bucketFor (BitVec.ofNat 32 tick) (BitVec.ofNat 32 due) = .tv n slot →
        span n ≤ due - tick := by
  have idx := toNat_sub_tick later near
  have forward : ¬ (BitVec.ofNat 32 due - BitVec.ofNat 32 tick).toInt < 0 := by
    rw [BitVec.toInt_eq_toNat_cond, idx]
    split <;> omega
  have unclamped : ¬ 0xffffffff < due - tick := by omega
  have chosen (n : Nat) (small : n < 4) (least : span n ≤ due - tick)
      (most : due - tick < 64 * span n) :
      Placed tick due (BitVec.ofNat 32 due) (.tv n (slotAt (BitVec.ofNat 32 due) n)) ∧
        ∀ m slot, Bucket.tv n (slotAt (BitVec.ofNat 32 due) n) = .tv m slot →
          span m ≤ due - tick := by
    refine ⟨placed_tv small least most, ?_⟩
    intro m slot same
    injection same with same
    exact same ▸ least
  simp only [bucketFor, idx, forward, unclamped, if_false]
  split
  · rename_i first
    refine ⟨⟨toNat_slot due, later, ?_⟩, ?_⟩
    · simp only [TVR_BITS] at first
      omega
    · intro n slot same
      cases same
  · rename_i first
    split
    · rename_i second
      exact chosen 0 (by decide) (by simp [span, TVR_BITS, TVN_BITS] at first ⊢; omega)
        (by simp [span, TVR_BITS, TVN_BITS] at second ⊢; omega)
    · rename_i second
      split
      · rename_i third
        exact chosen 1 (by decide) (by simp [span, TVR_BITS, TVN_BITS] at second ⊢; omega)
          (by simp [span, TVR_BITS, TVN_BITS] at third ⊢; omega)
      · rename_i third
        split
        · rename_i fourth
          exact chosen 2 (by decide) (by simp [span, TVR_BITS, TVN_BITS] at third ⊢; omega)
            (by simp [span, TVR_BITS, TVN_BITS] at fourth ⊢; omega)
        · rename_i fourth
          exact chosen 3 (by decide) (by simp [span, TVR_BITS, TVN_BITS] at fourth ⊢; omega)
            (by simp [span, TVR_BITS, TVN_BITS]; omega)

/-- Where `internal_add_timer` puts a timer that is late: on the list of this tick. -/
theorem bucketFor_late {tick : Nat} {expires : U32}
    (late : (expires - BitVec.ofNat 32 tick).toInt < 0) :
    bucketFor (BitVec.ofNat 32 tick) expires = .tv1 (tick % 256) := by
  have large : 2 ^ 31 ≤ (expires - BitVec.ofNat 32 tick).toNat := by
    rw [BitVec.toInt_eq_toNat_cond] at late
    split at late <;> omega
  have beyond (width : Nat) (narrow : width ≤ 31) :
      ¬ (expires - BitVec.ofNat 32 tick).toNat < 2 ^ width := by
    have bound : 2 ^ width ≤ 2 ^ 31 := Nat.pow_le_pow_right (by decide) narrow
    omega
  simp only [bucketFor]
  rw [if_neg (beyond _ (by decide)), if_neg (beyond _ (by decide)), if_neg (beyond _ (by decide)),
    if_neg (beyond _ (by decide)), if_pos late, toNat_slot]

/-! ## Cascading -/

section Cascading

variable {tick due : Nat} {expires : U32}

theorem opening_eq_of_slot {n : Nat} (aligned : span n ∣ tick)
    (placed : Placed tick due expires (.tv n (tick / span n % 64))) : opening n due = tick := by
  obtain ⟨-, slotEq, -, low, high⟩ := placed
  obtain ⟨turns, rfl⟩ := aligned
  rw [Nat.mul_div_cancel_left _ (span_pos n)] at slotEq
  have lower : turns ≤ due / span n := by
    have product : span n * turns ≤ span n * (due / span n) := by
      rw [Nat.mul_comm (span n) (due / span n)]
      exact low
    exact Nat.le_of_mul_le_mul_left product (span_pos n)
  have upper : due / span n < turns + 64 := by
    have product : span n * (due / span n) < span n * (turns + 64) := by
      rw [Nat.mul_comm (span n) (due / span n), Nat.mul_add, Nat.mul_comm (span n) 64]
      exact high
    exact Nat.lt_of_mul_lt_mul_left product
  have same : due / span n = turns := by omega
  rw [opening, same, Nat.mul_comm]

theorem slot_of_opening_eq {n slot : Nat} (placed : Placed tick due expires (.tv n slot))
    (opens : opening n due = tick) : slot = tick / span n % 64 := by
  rw [placed.2.1, ← opens, opening, Nat.mul_div_cancel _ (span_pos n)]

theorem lt_opening_of_not_dvd {n m slot : Nat} (unaligned : ¬ span n ∣ tick) (above : n ≤ m)
    (placed : Placed tick due expires (.tv m slot)) : tick < opening m due := by
  have differs : opening m due ≠ tick := by
    intro opens
    exact unaligned (opens ▸ (span_dvd above).trans (span_dvd_opening m due))
  have low := placed.2.2.2.1
  omega

/-- A timer whose list opens now is put on a list that does not. -/
theorem bucketFor_settled {n : Nat} (small : n < 4) (opens : opening n due = tick) :
    Placed tick due (BitVec.ofNat 32 due)
        (bucketFor (BitVec.ofNat 32 tick) (BitVec.ofNat 32 due)) ∧
      Settled tick due (bucketFor (BitVec.ofNat 32 tick) (BitVec.ofNat 32 due)) := by
  have low := opening_le n due
  have high := lt_opening_add n due
  have bound : span n ≤ span 3 := Nat.le_of_dvd (span_pos 3) (span_dvd (by omega))
  have top : span 3 = 2 ^ 26 := rfl
  have later : tick ≤ due := by omega
  obtain ⟨placed, least⟩ := bucketFor_placed later (by omega)
  refine ⟨placed, ?_⟩
  intro m slot chosen
  have ahead := least m slot chosen
  have next := lt_opening_add m due
  omega

/-- The cascades of one tick, from the array of `INDEX(n)` on, leave the timer on a list
that is not owed a cascade. -/
theorem cascadeFrom_single {name : Nat} {n more : Nat} (total : n + more = 4)
    (aligned : span n ∣ tick) {bucket : Bucket} (placed : Placed tick due expires bucket)
    (early : ∀ m slot, bucket = .tv m slot → m < n → tick < opening m due) :
    ∃ next, cascadeFrom (single (BitVec.ofNat 32 tick) bucket ⟨name, expires⟩) n more =
        single (BitVec.ofNat 32 tick) next ⟨name, expires⟩ ∧
      Placed tick due expires next ∧ Settled tick due next := by
  induction more generalizing n bucket with
  | zero =>
    refine ⟨bucket, rfl, placed, ?_⟩
    rintro m slot rfl
    exact early m slot rfl (by have small := placed.1; omega)
  | succ more ih =>
    have small : n < 4 := by omega
    have index : (single (BitVec.ofNat 32 tick) bucket ⟨name, expires⟩).index n =
        tick / span n % 64 := slotAt_ofNat small tick
    simp only [cascadeFrom, index, cascade_single]
    -- what is on a list after this array's cascade is owed none of the arrays up to here
    obtain ⟨middle, middleEq, middlePlaced, middleEarly⟩ :
        ∃ middle, (if bucket = .tv n (tick / span n % 64) then
            single (BitVec.ofNat 32 tick) (bucketFor (BitVec.ofNat 32 tick) expires) ⟨name, expires⟩
          else single (BitVec.ofNat 32 tick) bucket ⟨name, expires⟩) =
          single (BitVec.ofNat 32 tick) middle ⟨name, expires⟩ ∧
        Placed tick due expires middle ∧
        ∀ m slot, middle = .tv m slot → m < n + 1 → tick < opening m due := by
      by_cases here : bucket = .tv n (tick / span n % 64)
      · subst here
        obtain ⟨nextPlaced, settled⟩ :=
          bucketFor_settled small (opening_eq_of_slot aligned placed)
        rw [if_pos rfl]
        rw [← placed.2.2.1] at nextPlaced settled
        exact ⟨_, rfl, nextPlaced, fun m slot chosen _ => settled m slot chosen⟩
      · refine ⟨bucket, if_neg here, placed, ?_⟩
        rintro m slot rfl below
        by_cases same : m = n
        · subst same
          have low := placed.2.2.2.1
          have differs : opening m due ≠ tick := fun opens =>
            here (congrArg (Bucket.tv m) (slot_of_opening_eq placed opens))
          omega
        · exact early m slot rfl (by omega)
    rw [middleEq]
    by_cases wraps : tick / span n % 64 = 0
    · rw [if_pos wraps]
      refine ih (by omega) ?_ middlePlaced middleEarly
      rw [span_succ]
      obtain ⟨turns, rfl⟩ := aligned
      rw [Nat.mul_div_cancel_left _ (span_pos n)] at wraps
      exact Nat.mul_dvd_mul_left _ (Nat.dvd_of_mod_eq_zero wraps)
    · rw [if_neg wraps]
      refine ⟨middle, rfl, middlePlaced, ?_⟩
      rintro m slot rfl
      by_cases below : m < n + 1
      · exact middleEarly m slot rfl below
      · refine lt_opening_of_not_dvd ?_ (by omega : n + 1 ≤ m) middlePlaced
        rw [span_succ]
        intro divides
        obtain ⟨turns, rfl⟩ := divides
        rw [Nat.mul_assoc, Nat.mul_div_cancel_left _ (span_pos n), Nat.mul_mod_right] at wraps
        exact wraps rfl

end Cascading

/-! ## One turn of the loop -/

theorem ofNat_succ (tick : Nat) : BitVec.ofNat 32 tick + 1 = BitVec.ofNat 32 (tick + 1) := by
  rw [BitVec.ofNat_add]
  rfl

theorem cascadeAll_single {tick due : Nat} {expires : U32} {name : Nat} {bucket : Bucket}
    (placed : Placed tick due expires bucket) :
    ∃ next, cascadeAll (single (BitVec.ofNat 32 tick) bucket ⟨name, expires⟩) =
        single (BitVec.ofNat 32 tick) next ⟨name, expires⟩ ∧
      Placed tick due expires next ∧ Settled tick due next := by
  have index : (single (BitVec.ofNat 32 tick) bucket ⟨name, expires⟩).rootIndex = tick % 256 :=
    toNat_slot tick
  rw [cascadeAll, index]
  by_cases border : tick % 256 = 0
  · rw [if_pos border]
    exact cascadeFrom_single rfl (Nat.dvd_of_mod_eq_zero border) placed
      (fun m slot _ below => absurd below (Nat.not_lt_zero m))
  · rw [if_neg border]
    refine ⟨bucket, rfl, placed, ?_⟩
    rintro m slot rfl
    have unaligned : ¬ span 0 ∣ tick := fun divides => border (Nat.mod_eq_zero_of_dvd divides)
    exact lt_opening_of_not_dvd unaligned (Nat.zero_le m) placed

/-- The turn of the loop for tick `tick` takes a timer due then, and no other. -/
theorem iteration_single {tick due : Nat} {expires : U32} (name : Nat) {bucket : Bucket}
    (placed : Placed tick due expires bucket) :
    (due = tick ∧ (iteration (single (BitVec.ofNat 32 tick) bucket ⟨name, expires⟩)).workList =
        [⟨name, expires⟩] ∧
        (iteration (single (BitVec.ofNat 32 tick) bucket ⟨name, expires⟩)).base =
          empty (BitVec.ofNat 32 (tick + 1))) ∨
      (tick < due ∧ (iteration (single (BitVec.ofNat 32 tick) bucket ⟨name, expires⟩)).workList =
          [] ∧
        ∃ next, Placed (tick + 1) due expires next ∧
          (iteration (single (BitVec.ofNat 32 tick) bucket ⟨name, expires⟩)).base =
            single (BitVec.ofNat 32 (tick + 1)) next ⟨name, expires⟩) := by
  obtain ⟨next, cascadedEq, nextPlaced, settled⟩ : ∃ next,
      cascadeAll (single (BitVec.ofNat 32 tick) bucket ⟨name, expires⟩) =
        single (BitVec.ofNat 32 tick) next ⟨name, expires⟩ ∧
      Placed tick due expires next ∧ Settled tick due next := cascadeAll_single placed
  have index : (single (BitVec.ofNat 32 tick) bucket ⟨name, expires⟩).rootIndex = tick % 256 :=
    toNat_slot tick
  have advanced : advance (single (BitVec.ofNat 32 tick) next ⟨name, expires⟩) =
      single (BitVec.ofNat 32 (tick + 1)) next ⟨name, expires⟩ :=
    congrArg (fun jiffies => single jiffies next ⟨name, expires⟩) (ofNat_succ tick)
  simp only [iteration, cascadedEq, index, advanced, single_lists]
  by_cases here : Bucket.tv1 (tick % 256) = next
  · subst here
    obtain ⟨slotEq, low, high⟩ := nextPlaced
    refine Or.inl ⟨by omega, if_pos rfl, single_set _ _ _⟩
  · refine Or.inr ?_
    have unlisted : (single (BitVec.ofNat 32 (tick + 1)) next ⟨name, expires⟩).lists
        (.tv1 (tick % 256)) = [] := by
      rw [single_lists, if_neg here]
    have later : tick < due ∧ Placed (tick + 1) due expires next := by
      cases next with
      | tv1 slot =>
        obtain ⟨slotEq, low, high⟩ := nextPlaced
        have differs : due ≠ tick := by
          rintro rfl
          exact here (congrArg Bucket.tv1 slotEq.symm)
        exact ⟨by omega, slotEq, by omega, by omega⟩
      | tv n slot =>
        obtain ⟨small, slotEq, expiresEq, low, high⟩ := nextPlaced
        have opensLater := settled n slot rfl
        have reached := opening_le n due
        exact ⟨by omega, small, slotEq, expiresEq, by omega, by omega⟩
    refine ⟨later.1, if_neg here, next, later.2, ?_⟩
    rw [← unlisted, set_same]

end RouterKernel.Timers
