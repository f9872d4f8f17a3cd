import RouterKernel.Ids.Runs

/-!
Contract: `idr_for_each` and `idr_get_next`, which walk over a tree with an explicit stack.

Owns:
- the walk that the two functions share, with its stack `pa`, which may be popped when it is empty;
- the walk skips nothing as long as no pointer behind a hole stands further left than where it
  starts;
- what the two functions return.

Does not own: callbacks that change the tree.

After each step the walk climbs while `n < fls(id)`, that is to the first layer from the left end
of the tree that covers the id, and goes down from there.
-/

namespace RouterKernel.Ids

open RouterKernel.Foundation

variable {α β : Type}

inductive Ref (α : Type)
  | null
  | layer (place : Nat × Nat)
  | user (ptr : α)
  | wild

/-- The pointer `idp->top`. -/
def topRef (s : Idr α) : Ref α := s.top.elim .null fun layer => .layer (layer, 0)

/-- The pointer `p->ary[m]`. -/
def aryAt (s : Idr α) : Nat × Nat → Nat → Ref α
  | (0, q), m => (s.slot (32 * q + m)).elim .null .user
  | (l + 1, q), m => if (s.layerAt l (32 * q + m)).isSome then .layer (l, 32 * q + m) else .null

/-- The inner loop on the way down, where `n = IDR_BITS * k`. -/
def down (s : Idr α) (id : Int) : (k : Nat) → Ref α → List (Ref α) →
    Except Fault (Nat × Ref α × List (Ref α))
  | 0, p, pa => .ok (0, p, pa)
  | k + 1, .null, pa => .ok (k + 1, .null, pa)
  | k + 1, .layer place, pa =>
    if pa.length ≥ MAX_LEVEL then .error (.outOfBounds pa.length)
    else down s id k (aryAt s place (digit id k)) (.layer place :: pa)
  | _ + 1, .user _, _ => .error (.wildPointer 0)
  | _ + 1, .wild, _ => .error (.wildPointer 0)

def fls (id : Int) : Nat := if id = 0 then 0 else Nat.log2 (id % 2 ^ 32).toNat + 1

/-- The inner loop on the way up; the flag says that `pa` was popped below its first element. -/
def up (id : Int) : (turns k : Nat) → Ref α → List (Ref α) → Bool →
    Nat × Ref α × List (Ref α) × Bool
  | 0, k, p, pa, below => (k, p, pa, below)
  | turns + 1, k, p, pa, below =>
    if 5 * k < fls id then
      match pa with
      | [] => up id turns (k + 1) .wild [] true
      | p :: pa => up id turns (k + 1) p pa below
    else (k, p, pa, below)

/-- The variables of the walk, and the calls of the visitor so far. -/
structure Walk (α : Type) where
  id : Int
  k : Nat
  p : Ref α
  pa : List (Ref α)
  below : Bool
  calls : List (Int × α)

structure Walked (α β : Type) where
  stopped : Option β
  calls : List (Int × α)
  below : Bool
  deriving DecidableEq

/-- Go on after `k` layers of ids. -/
def goOn (id : Int) (k : Nat) (p : Ref α) (pa : List (Ref α)) (below : Bool)
    (calls : List (Int × α)) : Walk α :=
  let next := int (id + 32 ^ k)
  let at' := up next MAX_LEVEL k p pa below
  ⟨next, at'.1, at'.2.1, at'.2.2.1, at'.2.2.2, calls⟩

/-- One turn of the outer loop.  The visitor stops the walk with a result or lets it go on. -/
def walkTurn (s : Idr α) (visit : Int → α → Option β) (max : Int) (w : Walk α) :
    Except Fault (Outcome (Walk α) (Walked α β)) :=
  if w.id < max then
    match down s w.id w.k w.p w.pa with
    | .error fault => .error fault
    | .ok (k, .user ptr, pa) =>
      match visit w.id ptr with
      | some result => .ok (.halted ⟨some result, w.calls ++ [(w.id, ptr)], w.below⟩)
      | none => .ok (.running (goOn w.id k (.user ptr) pa w.below (w.calls ++ [(w.id, ptr)])))
    | .ok (k, .null, pa) => .ok (.running (goOn w.id k .null pa w.below w.calls))
    | .ok (_, .layer _, _) => .error (.wildPointer 0)
    | .ok (_, .wild, _) => .error (.wildPointer 0)
  else .ok (.halted ⟨none, w.calls, w.below⟩)

def walk (s : Idr α) (visit : Int → α → Option β) (layers : Nat) (id : Int) (fuel : Nat) :
    Attempt Fault (Walked α β) :=
  loop (fun _ w => (liftM (walkTurn s visit (32 ^ layers) w) :
      Attempt Fault (Outcome (Walk α) (Walked α β)))) fuel
    ⟨id, layers, topRef s, [], false, []⟩

/-- `idr_for_each`: what it returns, with its calls and whether it has popped `pa` when it was
empty. -/
def idrForEach (s : Idr α) (fn : Int → α → Int) (fuel : Nat) : Attempt Fault (Walked α Int) :=
  walk s (fun id ptr => if fn id ptr = 0 then none else some (fn id ptr)) s.layers 0 fuel

/-- `idr_get_next`: the pointer, and the id that is stored in `*nextidp`. -/
def idrGetNext (s : Idr α) (nextid : Int) (fuel : Nat) : Attempt Fault (Option (Int × α)) :=
  match s.top with
  | none => pure none
  | some layer => do
    let walked ← walk s (fun id ptr => some (id, ptr)) (layer + 1) nextid fuel
    return walked.stopped

/-! ## Down and up -/

section Moves

variable {s : Idr α}

/-- The pointer to what `k` layers of ids have above the id `j`. -/
def refAt (s : Idr α) : (k j : Nat) → Ref α
  | 0, j => (s.slot j).elim .null .user
  | k + 1, j => if (s.layerAt k (j / 32 ^ (k + 1))).isSome then .layer (k, j / 32 ^ (k + 1))
    else .null

/-- The stack on the way to `j`. -/
def trail (j k layers : Nat) : List (Ref α) := (wayUp j k layers).map .layer

theorem trail_cons {j k layers : Nat} (low : k < layers) :
    trail (α := α) j k layers = .layer (k, j / 32 ^ (k + 1)) :: trail j (k + 1) layers := by
  rw [trail, wayUp_cons low, List.map_cons]
  rfl

theorem length_trail (j k layers : Nat) : (trail (α := α) j k layers).length = layers - k := by
  simp [trail, wayUp]

theorem aryAt_eq (s : Idr α) (k j : Nat) :
    aryAt s (k, j / 32 ^ (k + 1)) (digit j k) = refAt s k j := by
  rw [digit_natCast]
  cases k with
  | zero => rw [aryAt, ← div_pow_eq, refAt, pow_zero, Nat.div_one]
  | succ k => rw [aryAt, ← div_pow_eq, refAt]

theorem down_spec (s : Idr α) (j : Nat) {k layers : Nat} (low : k ≤ layers) (few : layers ≤ 6) :
    ∃ k' ≤ k, down s j k (refAt s k j) (trail j k layers) = .ok (k', refAt s k' j,
        trail j k' layers) ∧
      (k' = 0 ∨ refAt s k' j = .null) ∧ ∀ i, k' ≤ i → i < k →
        (s.layerAt i (j / 32 ^ (i + 1))).isSome = true := by
  induction k with
  | zero =>
    refine ⟨0, le_rfl, by rw [down], Or.inl rfl, fun i _ below => absurd below (Nat.not_lt_zero i)⟩
  | succ k ih =>
    by_cases exists' : (s.layerAt k (j / 32 ^ (k + 1))).isSome = true
    · obtain ⟨k', le, computed, ends, present⟩ := ih (Nat.le_of_succ_le low)
      refine ⟨k', le.trans (Nat.le_succ k), ?_, ends, fun i above below => ?_⟩
      · have short : ¬ (trail (α := α) j (k + 1) layers).length ≥ MAX_LEVEL := by
          rw [length_trail]
          simp only [MAX_LEVEL]
          omega
        rw [refAt, if_pos exists', down, if_neg short, aryAt_eq, ← trail_cons low, computed]
      · rcases Nat.lt_or_eq_of_le (Nat.le_of_lt_succ below) with lower | same
        · exact present i above lower
        · exact same ▸ exists'
    · have hole : refAt s (k + 1) j = .null := by rw [refAt, if_neg exists']
      refine ⟨k + 1, le_rfl, by rw [hole, down], Or.inr hole, fun i above below => ?_⟩
      omega

theorem lt_fls_iff {id k : Nat} (positive : 0 < id) (low : id < 2 ^ 31) :
    5 * k < fls id ↔ 32 ^ k ≤ id := by
  have word : ((id : Int) % 2 ^ 32).toNat = id := by omega
  rw [fls, if_neg (by omega), word, Nat.lt_succ_iff, Nat.le_log2 (by omega), Nat.pow_mul]

theorem up_done {id k : Nat} (positive : 0 < id) (low : id < 2 ^ 31) (covered : id < 32 ^ k)
    (turns : Nat) (p : Ref α)
    (pa : List (Ref α)) (below : Bool) : up id turns k p pa below = (k, p, pa, below) := by
  cases turns with
  | zero => rw [up]
  | succ turns =>
    unfold up
    rw [if_neg]
    rw [lt_fls_iff positive low]
    omega

theorem up_below (id : Int) (turns k : Nat) (p : Ref α) :
    (up id turns k p [] true).2.2.2 = true := by
  induction turns generalizing k p with
  | zero => rfl
  | succ turns ih =>
    rw [up]
    split
    · exact ih _ _
    · rfl

/-- The way up ends at the first layer from the left that covers the id, or below the stack. -/
theorem up_spec (j : Nat) {next turns k layers : Nat} (p : Ref α) (below : Bool) (low : k ≤ layers)
    (few : layers ≤ 6)
    (enough : 7 ≤ k + turns) (bound : next < 2 ^ 31) (start : 32 ^ k ≤ next) :
    (next < 32 ^ layers → ∃ k', k < k' ∧ k' ≤ layers ∧ next < 32 ^ k' ∧
      up next turns k p (trail j k layers) below =
        (k', .layer (k' - 1, j / 32 ^ k'), trail j k' layers, below)) ∧
    (32 ^ layers ≤ next → (up next turns k p (trail j k layers) below).2.2.2 = true) := by
  have positive : 0 < next := lt_of_lt_of_le (by positivity) start
  induction turns generalizing k p with
  | zero => omega
  | succ turns ih =>
    unfold up
    rw [if_pos ((lt_fls_iff positive bound).mpr start)]
    rcases Nat.lt_or_eq_of_le low with lower | rfl
    · rw [trail_cons lower]
      dsimp only
      rcases Nat.lt_or_ge next (32 ^ (k + 1)) with covered | more
      · rw [up_done positive bound covered]
        refine ⟨fun _ => ⟨k + 1, Nat.lt_succ_self k, lower, covered, rfl⟩, fun beyond => ?_⟩
        have less := Nat.pow_le_pow_right (show 0 < 32 by norm_num) lower
        omega
      · obtain ⟨inside, outside⟩ := ih (.layer (k, j / 32 ^ (k + 1))) lower (by omega) more
        refine ⟨fun within => ?_, outside⟩
        obtain ⟨k', above, le, covered, computed⟩ := inside within
        exact ⟨k', Nat.lt_of_succ_lt above, le, covered, computed⟩
    · have empty : trail (α := α) j k k = [] :=
        List.eq_nil_of_length_eq_zero (by rw [length_trail, Nat.sub_self])
      rw [empty]
      exact ⟨fun within => absurd start (Nat.not_le.mpr within), fun _ => up_below _ _ _ _⟩

end Moves

/-! ## The ids that are passed -/

section Entries

variable {s : Idr α}

/-- The ids from `low` up to `high` with their pointers, in ascending order. -/
def entries (s : Idr α) (low high : Nat) : List (Int × α) :=
  (List.range' low (high - low)).filterMap fun id => (s.slot id).map fun ptr => ((id : Int), ptr)

theorem entries_append {low middle high : Nat} (first : low ≤ middle) (second : middle ≤ high) :
    entries s low high = entries s low middle ++ entries s middle high := by
  have size : high - low = middle - low + (high - middle) := by omega
  rw [entries, entries, entries, ← List.filterMap_append, size, ← List.range'_append_1,
    Nat.add_sub_cancel' first]

theorem entries_of_empty {low high : Nat} (empty : ∀ id, low ≤ id → id < high → s.slot id = none) :
    entries s low high = [] := by
  rw [entries, List.filterMap_eq_nil_iff]
  intro id listed
  obtain ⟨from', below⟩ := List.mem_range'_1.mp listed
  rw [empty id from' (by omega), Option.map_none]

theorem entries_succ {id : Nat} {ptr : α} (held : s.slot id = some ptr) :
    entries s id (id + 1) = [((id : Int), ptr)] := by
  rw [entries, Nat.add_sub_cancel_left]
  simp [held]

theorem mem_entries {low high : Nat} {entry : Int × α} :
    entry ∈ entries s low high ↔ ∃ id : Nat, entry.1 = id ∧ low ≤ id ∧ id < high ∧
      s.slot id = some entry.2 := by
  simp only [entries, List.mem_filterMap, List.mem_range'_1, Option.map_eq_some_iff]
  constructor
  · rintro ⟨id, ⟨from', below⟩, ptr, held, rfl⟩
    exact ⟨id, rfl, from', by omega, held⟩
  · rintro ⟨id, same, from', below, held⟩
    exact ⟨id, ⟨from', by omega⟩, entry.2, held, Prod.ext same.symm rfl⟩

end Entries

/-! ## The walk -/

/-- No hole with the id `j` makes the walk skip the next pointer: a hole is passed by its size, and
the pointer is not further left in its own place of this size than `j` is in the hole. -/
def Unskipped (s : Idr α) (j : Nat) : Prop :=
  ∀ a, j ≤ a → s.slot a ≠ none → (∀ id, j ≤ id → id < a → s.slot id = none) →
    ∀ i < s.layers, s.layerAt i (j / 32 ^ (i + 1)) = none → j % 32 ^ (i + 1) ≤ a % 32 ^ (i + 1)

section Steps

variable {s : Idr α} {ids : Finset Nat} {j k : Nat}

/-- The walk passes no pointers with a hole. -/
theorem Unskipped.slot_of_hole (unskipped : Unskipped s j) (sound : Sound s ids)
    (low : k < s.layers)
    (hole : s.layerAt k (j / 32 ^ (k + 1)) = none) {id : Nat} (from' : j ≤ id)
    (below : id < j + 32 ^ (k + 1)) :
    s.slot id = none := by
  by_contra pointer
  -- the first of the pointers that are passed
  have some' : ∃ a, j ≤ a ∧ s.slot a ≠ none := ⟨id, from', pointer⟩
  obtain ⟨behind, held⟩ := Nat.find_spec some'
  have least := Nat.find_min' some' ⟨from', pointer⟩
  have order := unskipped _ behind held
    (fun other low less => not_not.mp fun kept => Nat.find_min some' less ⟨low, kept⟩) k low hole
  have apart : Nat.find some' / 32 ^ (k + 1) ≠ j / 32 ^ (k + 1) := fun same =>
    Books.notMem_of_absent sound low (same.symm ▸ hole) (Books.slots sound _ held)
  have size : 0 < 32 ^ (k + 1) := by positivity
  have divided := Nat.div_add_mod j (32 ^ (k + 1))
  have dividedFound := Nat.div_add_mod (Nat.find some') (32 ^ (k + 1))
  have later : j / 32 ^ (k + 1) + 1 ≤ Nat.find some' / 32 ^ (k + 1) :=
    Nat.lt_of_le_of_ne (Nat.div_le_div_right behind) (Ne.symm apart)
  have product := Nat.mul_le_mul_left (32 ^ (k + 1)) later
  rw [Nat.mul_add, Nat.mul_one] at product
  omega

theorem mod_step {b c j : Nat} (positive : 0 < b) (other : (j + b) / (b * c) ≠ j / (b * c)) :
    (j + b) % (b * c) = j % b := by
  have divided : (j + b) / b = j / b + 1 := Nat.add_div_right j positive
  rw [← Nat.div_div_eq_div_mul, ← Nat.div_div_eq_div_mul, divided, Nat.succ_div] at other
  have divides : c ∣ j / b + 1 := by
    by_contra indivisible
    rw [if_neg indivisible] at other
    exact other rfl
  rw [Nat.mod_mul, divided, Nat.mod_eq_zero_of_dvd divides, Nat.mul_zero, Nat.add_zero,
    Nat.add_mod_right]

/-- A step from where all layers from level `k` on are there. -/
theorem unskipped_step
    (path : ∀ i, k ≤ i → i < s.layers → (s.layerAt i (j / 32 ^ (i + 1))).isSome = true)
    (rests : ∀ a, j + 32 ^ k ≤ a → s.slot a ≠ none →
        (∀ id, j + 32 ^ k ≤ id → id < a → s.slot id = none) →
      ∀ i < k, j % 32 ^ (i + 1) ≤ a % 32 ^ (i + 1)) : Unskipped s (j + 32 ^ k) := by
  intro a behind held between i low hole
  rcases Nat.lt_or_ge i k with smaller | larger
  · -- Smaller places are passed as a whole.
    obtain ⟨count, same⟩ : 32 ^ (i + 1) ∣ 32 ^ k := pow_dvd_pow 32 smaller
    have rest := rests a behind held between i smaller
    rwa [same, Nat.add_mul_mod_self_left]
  · -- The step ends in another place of this level, as far from its beginning as it began.
    obtain ⟨more, isMore⟩ := Nat.exists_eq_add_of_le (show k ≤ i + 1 by omega)
    have other : (j + 32 ^ k) / 32 ^ (i + 1) ≠ j / 32 ^ (i + 1) := by
      intro same
      have exists' := path i larger low
      rw [← same, hole] at exists'
      cases exists'
    rw [isMore, Nat.pow_add] at other ⊢
    rw [mod_step (by positivity) other]
    have inner : a % 32 ^ k ≤ a % (32 ^ k * 32 ^ more) := by
      rw [← Nat.mod_mul_right_mod a (32 ^ k) (32 ^ more)]
      exact Nat.mod_le _ _
    refine le_trans ?_ inner
    cases k with
    | zero => simp [Nat.mod_one]
    | succ k => exact rests a behind held between k (Nat.lt_succ_self k)

end Steps

/-- The walk stands before the id `j`: it has called the visitor for all entries from the start up
to it, and none of them has stopped it. -/
structure Standing (s : Idr α) (visit : Int → α → Option β) (start : Nat) (w : Walk α) (j : Nat) :
    Prop where
  id : w.id = j
  low : start ≤ j
  unskipped : Unskipped s j
  calls : w.calls = entries s start j
  quiet : ∀ entry ∈ w.calls, visit entry.1 entry.2 = none
  inside : j < 32 ^ s.layers → ∃ k ≤ s.layers, j < 32 ^ k ∧ w.k = k ∧ w.p = refAt s k j ∧
      w.pa = trail j k s.layers ∧
    w.below = false ∧ ∀ i, k ≤ i + 1 → i < s.layers → (s.layerAt i 0).isSome = true
  outside : 32 ^ s.layers ≤ j → start < 32 ^ s.layers → w.below = true

/-- A walk from `start` on: it was stopped by the visitor at an entry, or has called it for all. -/
def Visited (s : Idr α) (visit : Int → α → Option β) (start : Nat) (r : Walked α β) : Prop :=
  (∃ (j : Nat) (ptr : α) (result : β), start ≤ j ∧ s.slot j = some ptr ∧ visit j ptr = some result ∧
    r.stopped = some result ∧ r.below = false ∧ r.calls = entries s start j ++ [((j : Int), ptr)] ∧
    (∀ entry ∈ entries s start j, visit entry.1 entry.2 = none) ∧ Unskipped s (j + 1)) ∨
  (r.stopped = none ∧ (start < 32 ^ s.layers → r.below = true) ∧
      r.calls = entries s start (max start (32 ^ s.layers)) ∧
    ∀ entry ∈ r.calls, visit entry.1 entry.2 = none)

section Steps

variable {s : Idr α} {ids : Finset Nat} {visit : Int → α → Option β} {start j : Nat} {w : Walk α}

theorem entries_capacity (sound : Sound s ids) {high : Nat} (low : start ≤ high)
    (beyond : 32 ^ s.layers ≤ high) :
    entries s start high = entries s start (max start (32 ^ s.layers)) := by
  rw [entries_append (le_max_left _ _) (max_le low beyond)]
  have rest : entries s (max start (32 ^ s.layers)) high = [] := by
    refine entries_of_empty fun id from' _ => ?_
    by_contra pointer
    have inside := Books.lt_capacity sound (Books.slots sound id pointer)
    have bound := (le_max_right _ _).trans from'
    omega
  rw [rest, List.append_nil]

/-- Going on behind what was passed. -/
theorem Standing.goOn (standing : Standing s visit start w j) (sound : Sound s ids) {k : Nat}
    (high : k ≤ s.layers)
    (within : j < 32 ^ s.layers)
    (path : ∀ i, k ≤ i → i < s.layers → (s.layerAt i (j / 32 ^ (i + 1))).isSome = true)
    (unskipped : Unskipped s (j + 32 ^ k)) (p : Ref α) {calls : List (Int × α)}
    (called : calls = entries s start (j + 32 ^ k))
    (quiet : ∀ entry ∈ calls, visit entry.1 entry.2 = none) (below : w.below = false) :
    Standing s visit start (goOn w.id k p (trail j k s.layers) w.below calls) (j + 32 ^ k) := by
  have few := sound.layers_le
  have capacity := capacity_le sound
  have powers := Nat.pow_le_pow_right (show 0 < 32 by norm_num) high
  have next : int (w.id + 32 ^ k) = ((j + 32 ^ k : Nat) : Int) := by
    have exact' : w.id + 32 ^ k = ((j + 32 ^ k : Nat) : Int) := by
      rw [standing.id]
      push_cast
      rfl
    rw [exact', int_natCast (by omega)]
  obtain ⟨inside, outside⟩ :=
    up_spec j p w.below high few (Nat.le_add_left MAX_LEVEL k) (show j + 32 ^ k < 2 ^ 31 by omega)
    (Nat.le_add_left _ _)
  have moved : Ids.goOn w.id k p (trail j k s.layers) w.below calls =
      let at' := up (j + 32 ^ k : Nat) MAX_LEVEL k p (trail j k s.layers) w.below
      ⟨(j + 32 ^ k : Nat), at'.1, at'.2.1, at'.2.2.1, at'.2.2.2, calls⟩ := by
    rw [Ids.goOn, next]
  rw [moved]
  refine ⟨rfl, standing.low.trans (Nat.le_add_right _ _), unskipped, called, quiet, fun less => ?_,
    ?_⟩
  · obtain ⟨k', above, le, covered, computed⟩ := inside less
    have zero : ∀ i, k' ≤ i + 1 → j / 32 ^ (i + 1) = 0 := fun i more =>
      Nat.div_eq_of_lt ((Nat.le_add_right j _).trans_lt
        (covered.trans_le (Nat.pow_le_pow_right (by norm_num) more)))
    have zeroNext : ∀ i, k' ≤ i + 1 → (j + 32 ^ k) / 32 ^ (i + 1) = 0 := fun i more =>
      Nat.div_eq_of_lt (covered.trans_le (Nat.pow_le_pow_right (by norm_num) more))
    have left' : ∀ i, k' ≤ i + 1 → i < s.layers → (s.layerAt i 0).isSome = true := by
      intro i more top
      have exists' := path i (by omega) top
      rwa [zero i more] at exists'
    refine ⟨k', le, covered, ?_⟩
    dsimp only
    rw [computed]
    refine ⟨rfl, ?_, ?_, below, left'⟩
    · obtain ⟨l, rfl⟩ := Nat.exists_eq_add_of_lt (Nat.zero_lt_of_lt above)
      rw [Nat.zero_add] at *
      rw [refAt, zeroNext l le_rfl, if_pos (left' l le_rfl le), zero l le_rfl]
      rfl
    · rw [trail, trail, wayUp, wayUp]
      refine congrArg (List.map Ref.layer) (List.map_congr_left fun i listed => ?_)
      have from' := (List.mem_range'_1.mp listed).1
      rw [zero i (by omega), zeroNext i (by omega)]
  · exact fun beyond _ => outside beyond

def ahead (s : Idr α) (w : Walk α) : Nat := 32 ^ s.layers - w.id.toNat

theorem Standing.ahead_lt {w' : Walk α} {k : Nat} (standing : Standing s visit start w j)
    (next : Standing s visit start w' (j + 32 ^ k)) (within : j < 32 ^ s.layers) :
      ahead s w' < ahead s w := by
  have positive : 0 < 32 ^ k := by positivity
  rw [ahead, ahead, standing.id, next.id, Int.toNat_natCast, Int.toNat_natCast]
  omega

theorem Standing.turn (standing : Standing s visit start w j) (sound : Sound s ids) :
    ∃ outcome, walkTurn s visit (32 ^ s.layers) w = .ok outcome ∧
      Turned (fun next => ∃ j, Standing s visit start next j) (ahead s) (Visited s visit start)
        (ahead s w) outcome := by
  unfold walkTurn
  by_cases within : j < 32 ^ s.layers
  · obtain ⟨k, high, covered, level, pointer, stack, below, left'⟩ := standing.inside within
    obtain ⟨k', lower, computed, ends, present⟩ := down_spec s j high sound.layers_le
    have went : down s w.id w.k w.p w.pa = .ok (k', refAt s k' j, trail j k' s.layers) := by
      rw [standing.id, level, pointer, stack, computed]
    have path : ∀ i, k' ≤ i → i < s.layers → (s.layerAt i (j / 32 ^ (i + 1))).isSome = true := by
      intro i from' top
      rcases Nat.lt_or_ge i k with inner | outer
      · exact present i from' inner
      · rw [Nat.div_eq_of_lt
          (covered.trans_le (Nat.pow_le_pow_right (by norm_num) (Nat.le_succ_of_le outer)))]
        exact left' i (by omega) top
    rw [if_pos (by rw [standing.id]; exact_mod_cast within), went]
    cases k' with
    | zero =>
      have unskipped : Unskipped s (j + 1) := unskipped_step path fun _ _ _ _ i below =>
        absurd below (Nat.not_lt_zero i)
      have all := entries_append (s := s) standing.low (Nat.le_succ j)
      cases held : s.slot j with
      | none =>
        have passed : entries s j (j + 1) = [] := entries_of_empty fun id from' above => by
          rwa [show id = j by omega]
        rw [passed, List.append_nil] at all
        have value : refAt s 0 j = .null := by rw [refAt, held, Option.elim_none]
        rw [value]
        have next := standing.goOn sound (Nat.zero_le _) within path unskipped .null
            (standing.calls.trans all.symm)
          standing.quiet below
        exact ⟨_, rfl, ⟨_, next⟩, standing.ahead_lt next within⟩
      | some ptr =>
        rw [entries_succ held] at all
        have value : refAt s 0 j = .user ptr := by rw [refAt, held, Option.elim_some]
        rw [value]
        dsimp only
        cases answer : visit w.id ptr with
        | none =>
          have called : w.calls ++ [(w.id, ptr)] = entries s start (j + 1) := by
            rw [all, standing.calls, standing.id]
          have quiet : ∀ entry ∈ w.calls ++ [(w.id, ptr)], visit entry.1 entry.2 = none := by
            intro entry listed
            rcases List.mem_append.mp listed with before | here
            · exact standing.quiet entry before
            · rw [List.mem_singleton.mp here]
              exact answer
          have next := standing.goOn sound (Nat.zero_le _) within path unskipped
            (.user ptr) called quiet below
          exact ⟨_, rfl, ⟨_, next⟩, standing.ahead_lt next within⟩
        | some result =>
          rw [standing.id] at answer
          exact ⟨_, rfl, Or.inl ⟨j, ptr, result, standing.low, held, answer, rfl, below,
            by rw [standing.calls, standing.id], standing.calls ▸ standing.quiet, unskipped⟩⟩
    | succ l =>
      have value : refAt s (l + 1) j = .null := ends.resolve_left (Nat.succ_ne_zero l)
      have hole : s.layerAt l (j / 32 ^ (l + 1)) = none := by
        by_contra exists'
        rw [refAt, if_pos (Option.isSome_iff_ne_none.mpr exists')] at value
        cases value
      have top : l < s.layers := by omega
      have none (id : Nat) (from' : j ≤ id) (above : id < j + 32 ^ (l + 1)) : s.slot id = none :=
        standing.unskipped.slot_of_hole sound top hole from' above
      have unskipped : Unskipped s (j + 32 ^ (l + 1)) := by
        refine unskipped_step path fun a behind held between i below => ?_
        refine standing.unskipped a ((Nat.le_add_right _ _).trans behind) held (fun id from' less =>
          ?_) i (by omega) ?_
        · rcases Nat.lt_or_ge id (j + 32 ^ (l + 1)) with near | far
          · exact none id from' near
          · exact between id far less
        · -- what is below a missing layer is missing
          by_contra exists'
          have parent := Books.ancestor sound (Option.isSome_iff_ne_none.mpr exists')
            (show i ≤ l by omega) top
          rw [Nat.div_div_eq_div_mul, ← Nat.pow_add, show i + 1 + (l - i) = l + 1 by omega, hole]
            at parent
          cases parent
      rw [value]
      have called : w.calls = entries s start (j + 32 ^ (l + 1)) := by
        have passed : entries s j (j + 32 ^ (l + 1)) = [] := entries_of_empty none
        rw [standing.calls, entries_append standing.low (Nat.le_add_right j (32 ^ (l + 1))), passed,
          List.append_nil]
      have next := standing.goOn sound (lower.trans high) within path unskipped .null called
        standing.quiet below
      exact ⟨_, rfl, ⟨_, next⟩, standing.ahead_lt next within⟩
  · have beyond := Nat.le_of_not_lt within
    refine ⟨_, if_neg (by rw [standing.id]; exact_mod_cast within),
      Or.inr ⟨rfl, standing.outside beyond, ?_, standing.quiet⟩⟩
    rw [standing.calls]
    exact entries_capacity sound standing.low beyond

theorem topRef_eq (sound : Sound s ids) (within : start < 32 ^ s.layers) :
    topRef s = refAt s s.layers start := by
  rcases Books.top sound with ⟨top, layers⟩ | ⟨h, top, layers, _, exists'⟩
  · rw [topRef, top, layers, refAt]
    have none : s.slot start = none := by
      by_contra pointer
      have positive := Books.layers_pos sound (Books.slots sound start pointer)
      omega
    rw [none]
    rfl
  · rw [layers] at within
    rw [topRef, top, layers, refAt, Nat.div_eq_of_lt within, if_pos exists']
    rfl

theorem walk_returns (sound : Sound s ids) (visit : Int → α → Option β)
    (unskipped : Unskipped s start) :
    Returns (walk s visit s.layers start) (Visited s visit start) := by
  refine Returns.loop (fun w => ∃ j, Standing s visit start w j) (ahead s) ?_ ⟨start, ?_⟩
  · rintro w ⟨j, standing⟩
    obtain ⟨outcome, computed, turned⟩ := standing.turn sound
    exact Returns.lift computed turned
  · have none : entries s start start = [] := entries_of_empty fun id from' above => by omega
    refine ⟨rfl, le_rfl, unskipped, none.symm, fun entry listed => (List.not_mem_nil listed).elim,
      fun within => ?_, ?_⟩
    · have empty : trail (α := α) start s.layers s.layers = [] :=
        List.eq_nil_of_length_eq_zero (by rw [length_trail, Nat.sub_self])
      refine ⟨s.layers, le_rfl, within, rfl, topRef_eq sound within, empty.symm, rfl,
        fun i above below => ?_⟩
      rw [show i = s.layers - 1 by omega]
      exact sound.topLayer (by omega)
    · intro beyond within
      omega

end Steps

/-! ## `idr_for_each` -/

/-- The registered pointers with their ids, in ascending order. -/
def Lists (t : Table α) (registered : List (Int × α)) : Prop :=
  registered.Pairwise (fun first second => first.1 < second.1) ∧
    ∀ entry, entry ∈ registered ↔ 0 ≤ entry.1 ∧ t.ptr entry.1.toNat = some entry.2

/-- `fn` was called for all that is registered, or up to the first call that did not return zero. -/
def InOrder (registered : List (Int × α)) (fn : Int → α → Int) (r : Walked α Int) : Prop :=
  (r.stopped = none ∧ r.calls = registered ∧ ∀ entry ∈ registered, fn entry.1 entry.2 = 0) ∨
    ∃ before last rest, registered = before ++ last :: rest ∧ r.calls = before ++ [last] ∧
      (∀ entry ∈ before, fn entry.1 entry.2 = 0) ∧ fn last.1 last.2 ≠ 0 ∧
        r.stopped = some (fn last.1 last.2)

section Results

variable {s : Idr α} {t : Table α}

theorem unskipped_zero (s : Idr α) : Unskipped s 0 := fun _ _ _ _ _ _ _ => by
  rw [Nat.zero_mod]
  exact Nat.zero_le _

theorem pairwise_entries (s : Idr α) (low high : Nat) :
    (entries s low high).Pairwise fun first second => first.1 < second.1 := by
  rw [entries, List.pairwise_filterMap]
  refine (List.pairwise_lt_range' 1 (by norm_num)).imp fun less => ?_
  intro first isFirst second isSecond
  obtain ⟨_, _, rfl⟩ := Option.map_eq_some_iff.mp isFirst
  obtain ⟨_, _, rfl⟩ := Option.map_eq_some_iff.mp isSecond
  exact Int.ofNat_lt.mpr less

theorem lists_entries (reachable : Reachable s t) : Lists t (entries s 0 (32 ^ s.layers)) := by
  obtain ⟨sound, slots⟩ := reachable.sound
  refine ⟨pairwise_entries s _ _, fun entry => ?_⟩
  rw [mem_entries]
  constructor
  · rintro ⟨id, same, _, _, held⟩
    rw [same, Int.toNat_natCast, ← slots]
    exact ⟨Int.natCast_nonneg id, held⟩
  · rintro ⟨positive, held⟩
    rw [← slots] at held
    have inside := Books.lt_capacity sound (Books.mem_of_slot sound held)
    exact ⟨entry.1.toNat, (Int.toNat_of_nonneg positive).symm, Nat.zero_le _, inside, held⟩

theorem visit_eq_none {fn : Int → α → Int} {entry : Int × α}
    (goesOn : (if fn entry.1 entry.2 = 0 then none else some (fn entry.1 entry.2)) = none) :
      fn entry.1 entry.2 = 0 := by
  by_contra stops
  rw [if_neg stops] at goesOn
  cases goesOn

/-- What `idr_for_each` does, and when it pops `pa`. -/
theorem idrForEach_returns (reachable : Reachable s t) (fn : Int → α → Int) :
    Returns (idrForEach s fn) fun r => InOrder (entries s 0 (32 ^ s.layers)) fn r ∧
      (r.below = false ↔ r.stopped ≠ none) := by
  obtain ⟨sound, _⟩ := reachable.sound
  refine (walk_returns sound _ (unskipped_zero s)).mono fun r visited => ?_
  rcases visited with ⟨j, ptr, error, low, held, stops, stopped, below, calls, quiet, _⟩ |
    ⟨stopped, below, calls, quiet⟩
  · have inside := Books.lt_capacity sound (Books.mem_of_slot sound held)
    have stops : (if fn j ptr = 0 then none else some (fn j ptr)) = some error := stops
    have nonzero : fn j ptr ≠ 0 := by
      intro zero
      rw [if_pos zero] at stops
      cases stops
    rw [if_neg nonzero] at stops
    refine ⟨Or.inr ⟨entries s 0 j, (j, ptr), entries s (j + 1) (32 ^ s.layers), ?_, calls,
      fun entry listed => visit_eq_none (quiet entry listed), nonzero, stopped.trans stops.symm⟩,
        ?_⟩
    · rw [entries_append (Nat.zero_le j) inside.le, entries_append (Nat.le_succ j) inside,
        entries_succ held,
        List.singleton_append]
    · simp [below, stopped]
  · rw [Nat.zero_max] at calls
    refine ⟨Or.inl ⟨stopped, calls, fun entry listed =>
      visit_eq_none (quiet entry (calls ▸ listed))⟩, ?_⟩
    rw [stopped, below (by positivity)]
    simp

/-- `idr_for_each` calls `fn` for the registered pointers in ascending order of their ids up to the
first that does not return zero, and pops its stack below the first element unless there is one. -/
theorem idrForEach_iff (reachable : Reachable s t) (fn : Int → α → Int) :
    Returns (idrForEach s fn) (fun r => ∃ registered, Lists t registered ∧
        InOrder registered fn r) ∧
      (Returns (idrForEach s fn) (fun r => r.below = false) ↔ ∃ (id : Nat) (ptr : α),
        t.ptr id = some ptr ∧ fn id ptr ≠ 0) := by
  obtain ⟨fuel, r, returned, inOrder, below⟩ := idrForEach_returns reachable fn
  have lists := lists_entries reachable
  refine ⟨⟨fuel, r, returned, _, lists, inOrder⟩, fun clean => ?_, fun stops =>
    ⟨fuel, r, returned, below.mpr ?_⟩⟩
  · have stopped := below.mp (clean.post_of_eq ⟨fuel, r, returned, rfl⟩)
    rcases inOrder with ⟨none, _, _⟩ | ⟨before, last, rest, all, _, _, nonzero, _⟩
    · exact absurd none stopped
    · obtain ⟨positive, held⟩ :=
        (lists.2 last).mp (all ▸ List.mem_append_right before List.mem_cons_self)
      refine ⟨last.1.toNat, last.2, held, ?_⟩
      rwa [Int.toNat_of_nonneg positive]
  · obtain ⟨id, ptr, held, nonzero⟩ := stops
    rcases inOrder with ⟨_, _, zero⟩ | ⟨_, _, _, _, _, _, _, stopped⟩
    · exact absurd (zero (id, ptr) ((lists.2 _).mpr ⟨Int.natCast_nonneg id, held⟩)) nonzero
    · rw [stopped]
      exact Option.some_ne_none _

end Results

/-- The walk over the ids 1 and 40 is stopped at the second. -/
theorem idrForEach_iff_sample :
    Returns (idrForEach sample fun _ ptr => if ptr = 9 then 5 else 0) (fun r =>
        ∃ registered, Lists sampleTable registered ∧
          InOrder registered (fun _ ptr => if ptr = 9 then 5 else 0) r) ∧
      Returns (idrForEach sample fun _ ptr => if ptr = 9 then 5 else 0) fun r =>
        r.below = false := by
  have each := idrForEach_iff reachable_sample fun _ ptr => if ptr = 9 then 5 else 0
  exact ⟨each.1, each.2.mpr ⟨40, 9, rfl, by decide⟩⟩

/-- A walk over a tree with the id 0 calls `fn` for it and pops its stack when it is empty. -/
theorem idrForEach_pops_below :
    (do let result ← idrGetNewAbove (idrPreGet Idr.init 14) (some ()) 0 20
        idrForEach result.2 (fun _ _ => 0) 40) = pure ⟨none, [(0, ())], true⟩ := by
  rfl

/-! ## `idr_get_next` -/

/-- Iterate with `idr_get_next`, from each id that it stores to the next number. -/
def iterate (s : Idr α) (nextid : Int) (fuel : Nat) : Attempt Fault (List (Int × α)) :=
  loop (fun fuel state => do
    let next ← idrGetNext s state.1 fuel
    match next with
    | none => return .halted state.2
    | some entry => return .running (int (entry.1 + 1), state.2 ++ [entry])) fuel (nextid, [])

/-- The first pointer from the id `j` on. -/
def Next (s : Idr α) (j : Nat) (next : Option (Int × α)) : Prop :=
  (next = none ∧ ∀ i, j ≤ i → s.slot i = none) ∨
    ∃ (id : Nat) (ptr : α), next = some ((id : Int), ptr) ∧ j ≤ id ∧ s.slot id = some ptr ∧
      (∀ i, j ≤ i → i < id → s.slot i = none) ∧ Unskipped s (id + 1)

section Next

variable {s : Idr α} {t : Table α} {ids : Finset Nat} {start : Nat}

theorem slot_of_entries {low high : Nat} (none : ∀ entry, entry ∉ entries s low high) {i : Nat}
    (from' : low ≤ i)
    (below : i < high) : s.slot i = .none := by
  by_contra pointer
  obtain ⟨ptr, held⟩ := Option.ne_none_iff_exists'.mp pointer
  exact none ((i : Int), ptr) (mem_entries.mpr ⟨i, rfl, from', below, held⟩)

theorem idrGetNext_returns (sound : Sound s ids) (unskipped : Unskipped s start) :
    Returns (idrGetNext s start) (Next s start) := by
  unfold idrGetNext
  rcases Books.top sound with ⟨top, layers⟩ | ⟨h, top, layers, _, _⟩
  · rw [top]
    refine Returns.pure (Or.inl ⟨rfl, fun i _ => ?_⟩)
    by_contra pointer
    have positive := Books.layers_pos sound (Books.slots sound i pointer)
    omega
  · rw [top]
    dsimp only
    rw [← layers]
    refine Returns.bind (walk_returns sound _ unskipped) fun walked visited => Returns.pure ?_
    rcases visited with ⟨j, ptr, result, low, held, stops, stopped, _, _, quiet, next⟩ |
      ⟨stopped, _, calls, quiet⟩
    · have none : ∀ entry, entry ∉ entries s start j :=
        fun entry listed => Option.some_ne_none _ (quiet entry listed)
      exact Or.inr ⟨j, ptr, stopped.trans stops.symm, low, held, fun i from' below =>
        slot_of_entries none from' below, next⟩
    · refine Or.inl ⟨stopped, fun i from' => ?_⟩
      have none : ∀ entry, entry ∉ entries s start (max start (32 ^ s.layers)) :=
        fun entry listed => Option.some_ne_none _ (quiet entry (calls ▸ listed))
      by_contra pointer
      have inside := Books.lt_capacity sound (Books.slots sound i pointer)
      exact pointer (slot_of_entries none from' (lt_max_of_lt_right inside))

theorem iterate_returns (sound : Sound s ids) (unskipped : Unskipped s start) :
    Returns (iterate s start) (· = entries s start (max start (32 ^ s.layers))) := by
  have capacity := capacity_le sound
  refine Returns.loop (fun state => ∃ j : Nat, state.1 = (j : Int) ∧ start ≤ j ∧ Unskipped s j ∧
      state.2 = entries s start j)
    (fun state => 32 ^ s.layers - state.1.toNat) ?_ ?_
  · rintro ⟨nextid, visited⟩ ⟨j, same, low, unskippedHere, listed⟩
    have same : nextid = j := same
    have listed : visited = entries s start j := listed
    subst same listed
    refine Returns.bind (idrGetNext_returns sound unskippedHere) fun next found => ?_
    rcases found with ⟨rfl, none⟩ | ⟨id, ptr, rfl, from', held, between, further⟩
    · refine Returns.pure ?_
      have rest : ∀ high, entries s j high = [] := fun high => entries_of_empty fun i above _ =>
        none i above
      show entries s start j = _
      rcases Nat.le_total j (max start (32 ^ s.layers)) with inside | beyond
      · rw [entries_append low inside, rest, List.append_nil]
      · exact entries_capacity sound low ((le_max_right _ _).trans beyond)
    · have inside := Books.lt_capacity sound (Books.mem_of_slot sound held)
      have exact' : int ((id : Int) + 1) = ((id + 1 : Nat) : Int) :=
        int_natCast (n := id + 1) (by omega)
      dsimp only
      rw [exact']
      refine Returns.pure ⟨⟨id + 1, rfl, by omega, further, ?_⟩, ?_⟩
      · show entries s start j ++ [((id : Int), ptr)] = _
        rw [entries_append (low.trans from') (Nat.le_succ id), entries_append low from',
            entries_of_empty between,
          List.append_nil, entries_succ held]
      · show 32 ^ s.layers - ((id + 1 : Nat) : Int).toNat < 32 ^ s.layers - (j : Int).toNat
        rw [Int.toNat_natCast, Int.toNat_natCast]
        omega
  · exact ⟨start, rfl, le_rfl, unskipped, (entries_of_empty fun i above below => by omega).symm⟩

/-- From an id before which no hole makes it skip the next pointer, `idr_get_next` returns the
entry with the least allocated id, and iterating goes through all of them. -/
theorem idrGetNext_least (reachable : Reachable s t)
    (stored : ∀ id ∈ t.ids, start ≤ id → t.ptr id ≠ none)
    (unskipped : Unskipped s start) :
    Returns (idrGetNext s start) (fun next =>
      (next = none ∧ ∀ id ∈ t.ids, id < start) ∨
        ∃ (id : Nat) (ptr : α), next = some ((id : Int), ptr) ∧
            IsLeast {i | i ∈ t.ids ∧ start ≤ i} id ∧
          t.ptr id = some ptr ∧ Unskipped s (id + 1)) ∧
      Returns (iterate s start) fun visited =>
        visited.Pairwise (fun first second => first.1 < second.1) ∧
          ∀ entry, entry ∈ visited ↔ (start : Int) ≤ entry.1 ∧ t.ptr entry.1.toNat =
            some entry.2 := by
  obtain ⟨sound, slots⟩ := reachable.sound
  constructor
  · refine (idrGetNext_returns sound unskipped).mono fun next found => ?_
    rcases found with ⟨none, empty⟩ | ⟨id, ptr, isNext, from', held, between, further⟩
    · refine Or.inl ⟨none, fun id member => ?_⟩
      by_contra beyond
      have behind := Nat.le_of_not_lt beyond
      exact stored id member behind (slots ▸ empty id behind)
    · have member : id ∈ t.ids := Books.mem_of_slot sound held
      refine Or.inr ⟨id, ptr, isNext, ⟨⟨member, from'⟩, fun i both => ?_⟩, slots ▸ held, further⟩
      by_contra earlier
      exact stored i both.1 both.2 (slots ▸ between i both.2 (Nat.lt_of_not_le earlier))
  · refine (iterate_returns sound unskipped).mono fun visited all => ?_
    subst all
    refine ⟨pairwise_entries s _ _, fun entry => ?_⟩
    rw [mem_entries, ← slots]
    constructor
    · rintro ⟨id, same, low, _, held⟩
      rw [same, Int.toNat_natCast]
      exact ⟨by exact_mod_cast low, held⟩
    · rintro ⟨low, held⟩
      have positive : 0 ≤ entry.1 := (Int.natCast_nonneg start).trans low
      have inside := Books.lt_capacity sound (Books.mem_of_slot sound held)
      exact ⟨entry.1.toNat, (Int.toNat_of_nonneg positive).symm,
        by omega, lt_max_of_lt_right inside, held⟩

end Next

/-- The entries 1 and 40 are found from 1 on. -/
theorem idrGetNext_least_sample : Unskipped sample 1 ∧
      Returns (idrGetNext sample (1 : Nat)) (fun next =>
        (next = none ∧ ∀ id ∈ sampleTable.ids, id < 1) ∨
          ∃ (id : Nat) (ptr : Nat), next = some ((id : Int), ptr) ∧
              IsLeast {i | i ∈ sampleTable.ids ∧ 1 ≤ i} id ∧
            sampleTable.ptr id = some ptr ∧ Unskipped sample (id + 1)) ∧
      Returns (iterate sample (1 : Nat)) fun visited =>
        visited.Pairwise (fun first second => first.1 < second.1) ∧
          ∀ entry, entry ∈ visited ↔ ((1 : Nat) : Int) ≤ entry.1 ∧ sampleTable.ptr entry.1.toNat =
            some entry.2 := by
  have unskipped : Unskipped sample 1 := by
    intro a _ _ _ i low hole
    have exists' := Books.path reachable_sample.sound.1 (show 1 ∈ sampleTable.ids by decide) low
    rw [hole] at exists'
    cases exists'
  exact ⟨unskipped, idrGetNext_least reachable_sample (by decide) unskipped⟩

/-- With the id 992 allocated only, there is nothing from 961 on for `idr_get_next`. -/
theorem idrGetNext_skips_entry :
    (do let result ← idrGetNewAbove (idrPreGet Idr.init 14) (some ()) 992 20
        let next ← idrGetNext result.2 961 40
        return (result.1, next, idrFind result.2 992)) = (pure (.got 992, none, some ()) :
          Attempt Fault _) := by
  rfl

end RouterKernel.Ids
