import RouterKernel.Ids.Tree

/-!
Contract: the invariant of the trees of lib/idr.c.

Owns:
- `Books`, what bitmaps and counts of the layers have to do with the allocated ids, up to bits
  that are still to be set and counts that are still to be changed;
- how the books change when one layer does;
- a layer is full exactly if all of its ids are allocated.

Does not own: the operations (`Ids.Allocation`, `Ids.Removal`).
-/

namespace RouterKernel.Ids

open RouterKernel.Foundation

variable {α : Type}

/-! ## Bitmaps -/

variable {m n : Nat} {bitmap : U32}

theorem getLsbD_bit (inside : m < 32) (other : Nat) :
    (1#32 <<< m).getLsbD other = decide (other = m) := by
  rw [BitVec.getLsbD_shiftLeft, BitVec.getLsbD_one]
  by_cases same : other = m
  · simp [same, inside]
  · rw [decide_eq_false same]
    simp
    omega

theorem getLsbD_setBit (inside : m < 32) (other : Nat) :
    (setBit bitmap m).getLsbD other = (bitmap.getLsbD other || decide (other = m)) := by
  rw [setBit, BitVec.getLsbD_or, getLsbD_bit inside]

theorem getLsbD_clearBit (inside : m < 32) (other : Nat) :
    (clearBit bitmap m).getLsbD other = (bitmap.getLsbD other && !decide (other = m)) := by
  rw [clearBit, BitVec.getLsbD_and, BitVec.getLsbD_not, getLsbD_bit inside]
  by_cases bound : other < 32
  · rw [decide_eq_true bound, Bool.true_and]
  · rw [BitVec.getLsbD_of_ge bitmap other (Nat.le_of_not_lt bound), Bool.false_and, Bool.false_and]

theorem eq_full_iff (bitmap : U32) : bitmap = IDR_FULL ↔ ∀ m < 32, bitmap.getLsbD m = true := by
  constructor
  · rintro rfl m inside
    rw [IDR_FULL, BitVec.getLsbD_allOnes, decide_eq_true inside]
  · intro all
    apply BitVec.eq_of_getLsbD_eq
    intro m inside
    rw [all m inside, IDR_FULL, BitVec.getLsbD_allOnes, decide_eq_true inside]

theorem nextZero_some (found : nextZero bitmap n = some m) :
    n ≤ m ∧ m < 32 ∧ bitmap.getLsbD m = false ∧ ∀ k, n ≤ k → k < m → bitmap.getLsbD k = true := by
  obtain ⟨holds, listed, before⟩ := List.find?_range_eq_some.mp found
  simp only [Bool.and_eq_true, decide_eq_true_eq, Bool.not_eq_true'] at holds
  refine ⟨holds.1, List.mem_range.mp listed, holds.2, fun k low high => ?_⟩
  have skipped := before k high
  simpa [low] using skipped

theorem nextZero_none (none : nextZero bitmap n = none) :
    ∀ k, n ≤ k → k < 32 → bitmap.getLsbD k = true := by
  intro k low high
  have skipped := List.find?_eq_none.mp none k (List.mem_range.mpr high)
  simpa [low] using skipped

/-! ## Places -/

theorem div_pow_eq (j l : Nat) : j / 32 ^ l = 32 * (j / 32 ^ (l + 1)) + j / 32 ^ l % 32 := by
  rw [Nat.pow_succ, ← Nat.div_div_eq_div_mul]
  omega

theorem digit_natCast (j l : Nat) : digit (j : Int) l = j / 32 ^ l % 32 := by
  rw [digit]
  exact_mod_cast Int.toNat_natCast _

theorem int_natCast (small : n < 2 ^ 31) : int n = n := by
  rw [int, Int.bmod_eq_of_le_mul_two (by omega) (by omega)]

/-! ## The books -/

/-- What slot number `c` of the layers `l` leads to is full: an allocated id, or a full layer. -/
def filled (s : Idr α) (ids : Finset Nat) : Nat → Nat → Prop
  | 0, id => id ∈ ids
  | l + 1, q => ∃ layer, s.layerAt l q = some layer ∧ layer.bitmap = IDR_FULL

/-- Slot number `c` of the layers `l` leads to something. -/
def present (s : Idr α) (ids : Finset Nat) : Nat → Nat → Bool
  | 0, id => decide (id ∈ ids)
  | l + 1, q => (s.layerAt l q).isSome

/-- The slots of a layer that lead to something. -/
def children (s : Idr α) (ids : Finset Nat) (l q : Nat) : Finset Nat :=
  (Finset.range 32).filter fun m => present s ids l (32 * q + m) = true

/-- The layers and the allocated ids.  `late` are slots that are full without their bits being
set, and `owed` is what a count is off. -/
structure Books (s : Idr α) (ids : Finset Nat) (late : Nat → Nat → Prop) (owed : Nat → Nat → Int) :
    Prop where
  top : (s.top = none ∧ s.layers = 0) ∨
    ∃ h, s.top = some h ∧ s.layers = h + 1 ∧ h < MAX_LEVEL - 1 ∧ (s.layerAt h 0).isSome = true
  inside : ∀ l q, (s.layerAt l q).isSome = true → l < s.layers ∧ q < 32 ^ (s.layers - 1 - l)
  parent : ∀ l q, (s.layerAt l q).isSome = true → l + 1 < s.layers →
    (s.layerAt (l + 1) (q / 32)).isSome = true
  full : ∀ l q layer, s.layerAt l q = some layer → ∀ m < 32,
    (layer.bitmap.getLsbD m = true ↔ filled s ids l (32 * q + m) ∧ ¬ late l (32 * q + m))
  count : ∀ l q layer, s.layerAt l q = some layer →
    layer.count = (children s ids l q).card + owed l q
  leaf : ∀ id ∈ ids, (s.layerAt 0 (id / 32)).isSome = true
  slots : ∀ id, s.slot id ≠ none → id ∈ ids

/-- The tree of a set of allocated ids. -/
def Sound (s : Idr α) (ids : Finset Nat) : Prop := Books s ids (fun _ _ => False) fun _ _ => 0

section Frame

variable {s : Idr α} {ids : Finset Nat} {late late' : Nat → Nat → Prop}
  {owed owed' : Nat → Nat → Int} {l q : Nat}

theorem layerAt_setLayer_self (s : Idr α) (l q : Nat) (layer : Option Layer) :
    (s.setLayer l q layer).layerAt l q = layer := if_pos ⟨rfl, rfl⟩

theorem layerAt_setLayer_of_ne {l' q' : Nat} (s : Idr α) (layer : Option Layer)
    (apart : ¬ (l' = l ∧ q' = q)) :
    (s.setLayer l q layer).layerAt l' q' = s.layerAt l' q' := if_neg apart

theorem layerAt_setLayer_cases {k r : Nat} {new : Option Layer} {other : Layer}
    (read : (s.setLayer l q new).layerAt k r = some other) :
    k = l ∧ r = q ∧ new = some other ∨ ¬ (k = l ∧ r = q) ∧ s.layerAt k r = some other := by
  by_cases here : k = l ∧ r = q
  · rw [here.1, here.2, layerAt_setLayer_self] at read
    exact .inl ⟨here.1, here.2, read⟩
  · rw [layerAt_setLayer_of_ne s _ here] at read
    exact .inr ⟨here, read⟩

theorem setLayer_twice (s : Idr α) (l q : Nat) (layer layer' : Option Layer) :
    (s.setLayer l q layer).setLayer l q layer' = s.setLayer l q layer' := by
  unfold Idr.setLayer
  congr 1
  funext k r
  dsimp only
  split_ifs <;> rfl

theorem setLayer_of_eq {layer : Option Layer} (found : s.layerAt l q = layer) :
    s.setLayer l q layer = s := by
  have same : (s.setLayer l q layer).layerAt = s.layerAt := by
    funext k r
    by_cases here : k = l ∧ r = q
    · rw [here.1, here.2, layerAt_setLayer_self, found]
    · rw [layerAt_setLayer_of_ne _ _ here]
  exact congrArg (fun layerAt => (⟨s.top, s.layers, layerAt, s.slot, s.idFreeCnt⟩ : Idr α)) same

variable {layer layer' : Layer}

theorem isSome_setLayer (found : s.layerAt l q = some layer) (l' q' : Nat) :
    ((s.setLayer l q (some layer')).layerAt l' q').isSome = (s.layerAt l' q').isSome := by
  by_cases here : l' = l ∧ q' = q
  · rw [here.1, here.2, layerAt_setLayer_self, found]
    rfl
  · rw [layerAt_setLayer_of_ne s _ here]

theorem present_setLayer (found : s.layerAt l q = some layer) (k c : Nat) :
    present (s.setLayer l q (some layer')) ids k c = present s ids k c := by
  cases k with
  | zero => rfl
  | succ k => exact isSome_setLayer found k c

theorem filled_setLayer_of_ne {layer : Option Layer} {k c : Nat} (apart : ¬ (k = l + 1 ∧ c = q)) :
    filled (s.setLayer l q layer) ids k c ↔ filled s ids k c := by
  cases k with
  | zero => exact Iff.rfl
  | succ k =>
    have different : ¬ (k = l ∧ c = q) := fun same => apart ⟨by rw [same.1], same.2⟩
    rw [filled, filled, layerAt_setLayer_of_ne s layer different]

theorem filled_setLayer_self : filled (s.setLayer l q (some layer)) ids (l + 1) q ↔
    layer.bitmap = IDR_FULL := by
  rw [filled, layerAt_setLayer_self]
  constructor
  · rintro ⟨same, read, full⟩
    cases read
    exact full
  · exact fun full => ⟨layer, rfl, full⟩

theorem Books.setLayer (books : Books s ids late owed) (found : s.layerAt l q = some layer)
    (bits : ∀ m < 32,
      (layer'.bitmap.getLsbD m = true ↔ filled s ids l (32 * q + m) ∧ ¬ late' l (32 * q + m)))
    (count : layer'.count = (children s ids l q).card + owed' l q)
    (above : layer'.bitmap = IDR_FULL ∧ ¬ late' (l + 1) q ↔ layer.bitmap = IDR_FULL ∧
      ¬ late (l + 1) q)
    (elsewhere : ∀ k c, ¬ (k = l ∧ c / 32 = q) → ¬ (k = l + 1 ∧ c = q) → (late' k c ↔ late k c))
    (owes : ∀ k r, ¬ (k = l ∧ r = q) → owed' k r = owed k r) :
    Books (s.setLayer l q (some layer')) ids late' owed' where
  top := by
    rcases books.top with none | ⟨h, top, layers, low, exists'⟩
    · exact Or.inl none
    · refine Or.inr ⟨h, top, layers, low, ?_⟩
      rw [isSome_setLayer found]
      exact exists'
  inside k r exists' := by
    rw [isSome_setLayer found] at exists'
    exact books.inside k r exists'
  parent k r exists' below := by
    rw [isSome_setLayer found] at exists' ⊢
    exact books.parent k r exists' below
  full k r other read m low := by
    rcases layerAt_setLayer_cases read with ⟨rfl, rfl, ⟨⟩⟩ | ⟨here, read⟩
    · rw [bits m low, filled_setLayer_of_ne (by omega)]
    · rw [books.full k r other read m low]
      by_cases up : k = l + 1 ∧ 32 * r + m = q
      · obtain ⟨rfl, same⟩ := up
        rw [same, filled_setLayer_self, above, filled]
        constructor
        · rintro ⟨⟨layer'', read, full⟩, soon⟩
          rw [found] at read
          cases read
          exact ⟨full, soon⟩
        · rintro ⟨full, soon⟩
          exact ⟨⟨layer, found, full⟩, soon⟩
      · rw [filled_setLayer_of_ne up, elsewhere k _ (fun same => here ⟨same.1, by omega⟩) up]
  count k r other read := by
    have same : children (s.setLayer l q (some layer')) ids k r = children s ids k r := by
      unfold children
      simp only [present_setLayer found]
    rw [same]
    rcases layerAt_setLayer_cases read with ⟨rfl, rfl, ⟨⟩⟩ | ⟨here, read⟩
    · exact count
    · rw [books.count k r other read, owes k r here]
  leaf id member := by
    rw [isSome_setLayer found]
    exact books.leaf id member
  slots := books.slots

theorem Books.congr_late (books : Books s ids late owed)
    (same : ∀ k c, k < s.layers → (late' k c ↔ late k c)) :
    Books s ids late' owed := by
  refine ⟨books.top, books.inside, books.parent, ?_, books.count, books.leaf, books.slots⟩
  intro k r layer read m inside
  have below := (books.inside k r (by rw [read]; rfl)).1
  rw [books.full k r layer read m inside, same k _ below]

end Frame

section Ranges

variable {s : Idr α} {ids : Finset Nat} {late : Nat → Nat → Prop} {owed : Nat → Nat → Int}
  {l q : Nat}

variable {k id : Nat}

section

variable (books : Books s ids late owed)

include books

theorem Books.ancestor (exists' : (s.layerAt l q).isSome = true) (low : l ≤ k)
    (high : k < s.layers) : (s.layerAt k (q / 32 ^ (k - l))).isSome = true := by
  induction k, low using Nat.le_induction with
  | base => simpa using exists'
  | succ k low ih =>
    have below := ih (by omega)
    have up := books.parent k _ below high
    rw [Nat.div_div_eq_div_mul, ← Nat.pow_succ, ← Nat.succ_sub low] at up
    exact up

theorem Books.path (member : id ∈ ids) (high : k < s.layers) :
    (s.layerAt k (id / 32 ^ (k + 1))).isSome = true := by
  have up := books.ancestor (books.leaf id member) (Nat.zero_le k) high
  rw [Nat.div_div_eq_div_mul, Nat.sub_zero, ← Nat.pow_succ'] at up
  exact up

theorem Books.notMem_of_absent (high : k < s.layers)
    (absent : s.layerAt k (id / 32 ^ (k + 1)) = none) : id ∉ ids := by
  intro member
  have path := books.path member high
  rw [absent] at path
  cases path

theorem Books.layers_pos (member : id ∈ ids) : 0 < s.layers :=
  (books.inside 0 _ (books.leaf id member)).1

theorem Books.mem_of_slot {ptr : α} (held : s.slot id = some ptr) : id ∈ ids :=
  books.slots id (by rw [held]; exact Option.some_ne_none ptr)

theorem Books.lt_capacity (member : id ∈ ids) : id < 32 ^ s.layers := by
  obtain ⟨positive, bound⟩ := books.inside 0 _ (books.leaf id member)
  rw [Nat.sub_zero, Nat.div_lt_iff_lt_mul (by norm_num), ← Nat.pow_succ, Nat.succ_eq_add_one,
    Nat.sub_add_cancel positive] at bound
  exact bound

end

theorem Sound.filled_iff (sound : Sound s ids) {l c : Nat} (high : l ≤ s.layers) :
    filled s ids l c ↔ ∀ id, id / 32 ^ l = c → id ∈ ids := by
  induction l generalizing c with
  | zero => simp [filled]
  | succ l ih =>
    have below := fun c => ih (c := c) (Nat.le_of_succ_le high)
    constructor
    · rintro ⟨layer, found, full⟩ id inRange
      have bit := (eq_full_iff layer.bitmap).mp full (id / 32 ^ l % 32) (Nat.mod_lt _ (by norm_num))
      have inside := ((Books.full sound l c layer found _ (Nat.mod_lt _ (by norm_num))).mp bit).1
      refine (below _).mp inside id ?_
      have above : id / 32 ^ l / 32 = c := by rw [Nat.div_div_eq_div_mul, ← Nat.pow_succ, inRange]
      omega
    · intro all
      have first : c * 32 ^ (l + 1) ∈ ids := all _ (Nat.mul_div_cancel c (by positivity))
      have exists' := Books.path sound first high
      rw [Nat.mul_div_cancel c (by positivity)] at exists'
      obtain ⟨layer, found⟩ := Option.isSome_iff_exists.mp exists'
      refine ⟨layer, found, (eq_full_iff _).mpr fun m inside => ?_⟩
      refine (Books.full sound l c layer found m inside).mpr ⟨(below _).mpr fun id inRange => ?_,
        id⟩
      refine all id ?_
      rw [Nat.pow_succ, ← Nat.div_div_eq_div_mul, inRange]
      omega

theorem Sound.bits_held (sound : Sound s ids) {layer : Layer} (found : s.layerAt l q = some layer)
    (bits : ∀ k, n ≤ k → k < m → layer.bitmap.getLsbD k = true) (bound : m ≤ 32)
    (low : (32 * q + n) * 32 ^ l ≤ id)
    (high : id < (32 * q + m) * 32 ^ l) : id ∈ ids := by
  have covered := (Books.inside sound l q (by rw [found]; rfl)).1
  have lower : 32 * q + n ≤ id / 32 ^ l := (Nat.le_div_iff_mul_le (by positivity)).mpr low
  have upper : id / 32 ^ l < 32 * q + m := (Nat.div_lt_iff_lt_mul (by positivity)).mpr high
  have bit := bits (id / 32 ^ l - 32 * q) (by omega) (by omega)
  have inside := ((Books.full sound l q layer found _ (by omega)).mp bit).1
  exact (sound.filled_iff covered.le).mp inside id (by omega)

end Ranges

section Growth

variable {s : Idr α} {ids : Finset Nat} {l q : Nat}

variable {k h : Nat} {layer : Layer}

theorem present_setLayer_of_ne {layer : Option Layer} {c : Nat} (apart : ¬ (k = l + 1 ∧ c = q)) :
    present (s.setLayer l q layer) ids k c = present s ids k c := by
  cases k with
  | zero => rfl
  | succ k =>
    have different : ¬ (k = l ∧ c = q) := fun same => apart ⟨by rw [same.1], same.2⟩
    rw [present, present, layerAt_setLayer_of_ne s layer different]

theorem children_setLayer_of_ne {layer : Option Layer} {r : Nat}
    (apart : ¬ (k = l + 1 ∧ r = q / 32)) :
    children (s.setLayer l q layer) ids k r = children s ids k r := by
  unfold children
  refine Finset.filter_congr fun m inRange => ?_
  have bound := Finset.mem_range.mp inRange
  rw [present_setLayer_of_ne fun same => apart ⟨same.1, by omega⟩]

theorem card_children_add (absent : s.layerAt l q = none) (layer : Layer) :
    (children (s.setLayer l q (some layer)) ids (l + 1) (q / 32)).card =
    (children s ids (l + 1) (q / 32)).card + 1 := by
  have new : children (s.setLayer l q (some layer)) ids (l + 1) (q / 32) =
      insert (q % 32) (children s ids (l + 1) (q / 32)) := by
    ext m
    simp only [children, Finset.mem_filter, Finset.mem_insert, Finset.mem_range]
    by_cases here : 32 * (q / 32) + m = q
    · have same : m = q % 32 := by omega
      have low : m < 32 := by omega
      rw [here, present, layerAt_setLayer_self]
      exact ⟨fun _ => Or.inl same, fun _ => ⟨low, rfl⟩⟩
    · rw [present_setLayer_of_ne fun same => here same.2]
      constructor
      · exact Or.inr
      · rintro (same | held)
        · omega
        · exact held
  have out : q % 32 ∉ children s ids (l + 1) (q / 32) := by
    simp only [children, Finset.mem_filter, not_and]
    intro _
    have here : 32 * (q / 32) + q % 32 = q := by omega
    simp [present, here, absent]
  rw [new, Finset.card_insert_of_notMem out]

theorem Sound.children_empty (sound : Sound s ids) (absent : s.layerAt l q = none)
    (high : l < s.layers) :
    children s ids l q = ∅ := by
  rw [children, Finset.filter_eq_empty_iff]
  intro m inRange present'
  have bound := Finset.mem_range.mp inRange
  have up : (32 * q + m) / 32 = q := by omega
  cases l with
  | zero =>
    have held : 32 * q + m ∈ ids := by simpa [present] using present'
    have leaf := Books.leaf sound _ held
    rw [up, absent] at leaf
    cases leaf
  | succ l =>
    have parent := Books.parent sound l _ present' high
    rw [up, absent] at parent
    cases parent

theorem present_of_filled {c : Nat} (full : filled s ids k c) : present s ids k c = true := by
  cases k with
  | zero => exact decide_eq_true full
  | succ k =>
    obtain ⟨layer, found, _⟩ := full
    rw [present, found]
    rfl

theorem not_filled_of_children (none : children s ids l q = ∅) (inside : m < 32) :
    ¬ filled s ids l (32 * q + m) := by
  intro full
  have member : m ∈ children s ids l q :=
    Finset.mem_filter.mpr ⟨Finset.mem_range.mpr inside, present_of_filled full⟩
  rw [none] at member
  cases member

theorem Sound.addLayer (sound : Sound s ids) (absent : s.layerAt l q = none)
    (high : l + 1 < s.layers)
    (parent : (s.layerAt (l + 1) (q / 32)).isSome = true) :
    Books (s.setLayer l q (some ⟨0, 0⟩)) ids (fun _ _ => False)
      fun k r => if k = l + 1 ∧ r = q / 32 then -1 else 0 where
  top := by
    rcases Books.top sound with none | ⟨h, top, layers, low, exists'⟩
    · exact Or.inl none
    · refine Or.inr ⟨h, top, layers, low, ?_⟩
      rwa [layerAt_setLayer_of_ne s _ (by omega)]
  inside k r exists' := by
    by_cases here : k = l ∧ r = q
    · obtain ⟨rfl, rfl⟩ := here
      have above := (Books.inside sound _ _ parent).2
      refine ⟨Nat.lt_of_succ_lt high, ?_⟩
      have split : s.layers - 1 - k = s.layers - 1 - (k + 1) + 1 := by omega
      have power : 32 ^ (s.layers - 1 - k) = 32 ^ (s.layers - 1 - (k + 1)) * 32 := by
        rw [split, Nat.pow_succ]
      show r < 32 ^ (s.layers - 1 - k)
      omega
    · rw [layerAt_setLayer_of_ne s _ here] at exists'
      exact Books.inside sound k r exists'
  parent k r exists' below := by
    by_cases here : k = l ∧ r = q
    · obtain ⟨rfl, rfl⟩ := here
      rwa [layerAt_setLayer_of_ne s _ (by omega)]
    · rw [layerAt_setLayer_of_ne s _ here] at exists'
      have up := Books.parent sound k r exists' below
      rwa [layerAt_setLayer_of_ne s _]
      rintro ⟨rfl, same⟩
      rw [same, absent] at up
      cases up
  full k r layer read m inside := by
    rcases layerAt_setLayer_cases read with ⟨rfl, rfl, ⟨⟩⟩ | ⟨here, read⟩
    · have empty :=
        not_filled_of_children (sound.children_empty absent (Nat.lt_of_succ_lt high)) inside
      rw [filled_setLayer_of_ne (by omega)]
      simp [empty]
    · rw [Books.full sound k r layer read m inside]
      by_cases up : k = l + 1 ∧ 32 * r + m = q
      · obtain ⟨rfl, same⟩ := up
        rw [same, filled_setLayer_self, filled, absent]
        simp [IDR_FULL]
      · rw [filled_setLayer_of_ne up]
  count k r layer read := by
    rcases layerAt_setLayer_cases read with ⟨rfl, rfl, ⟨⟩⟩ | ⟨here, read⟩
    · rw [children_setLayer_of_ne (by omega), sound.children_empty absent (Nat.lt_of_succ_lt high)]
      simp
    · rw [Books.count sound k r layer read]
      by_cases up : k = l + 1 ∧ r = q / 32
      · obtain ⟨rfl, rfl⟩ := up
        rw [card_children_add absent, if_pos ⟨rfl, rfl⟩]
        push_cast
        ring
      · rw [children_setLayer_of_ne up, if_neg up]
  leaf id member := by
    have exists' := Books.leaf sound id member
    rwa [layerAt_setLayer_of_ne s _]
    rintro ⟨rfl, same⟩
    rw [same, absent] at exists'
    cases exists'
  slots id pointer := Books.slots sound id (show s.slot id ≠ none from pointer)

theorem Sound.newLayer (sound : Sound s ids) (found : s.layerAt (l + 1) (q / 32) = some layer)
    (absent : s.layerAt l q = none) (high : l + 1 < s.layers) :
    Sound ((s.setLayer l q (some ⟨0, 0⟩)).setLayer (l + 1) (q / 32)
      (some ⟨layer.bitmap, layer.count + 1⟩)) ids := by
  have added := sound.addLayer absent high (by rw [found]; rfl)
  have read : (s.setLayer l q (some ⟨0, 0⟩)).layerAt (l + 1) (q / 32) = some layer := by
    rw [layerAt_setLayer_of_ne s _ (by omega), found]
  refine added.setLayer read (fun m inside => added.full _ _ layer read m inside) ?_ Iff.rfl
    (fun _ _ _ _ => Iff.rfl) ?_
  · have count := added.count _ _ layer read
    rw [if_pos ⟨rfl, rfl⟩] at count
    show layer.count + 1 = _
    omega
  · intro k r other
    rw [if_neg other]

theorem Books.setFree {late : Nat → Nat → Prop} {owed : Nat → Nat → Int}
    (books : Books s ids late owed)
    (idFreeCnt : Nat) : Books (s.setFree idFreeCnt) ids late owed :=
  ⟨books.top, books.inside, books.parent, books.full, books.count, books.leaf, books.slots⟩

theorem Sound.single (top : s.top = some h) (layers : s.layers = h + 1) (low : h < MAX_LEVEL - 1)
    (here : s.layerAt h 0 = some ⟨0, 0⟩)
    (alone : ∀ k r, (s.layerAt k r).isSome = true → k = h ∧ r = 0)
    (slots : ∀ id, s.slot id = none) : Sound s ∅ where
  top := Or.inr ⟨h, top, layers, low, by rw [here]; rfl⟩
  inside k r exists' := by
    obtain ⟨rfl, rfl⟩ := alone k r exists'
    rw [layers]
    exact ⟨Nat.lt_succ_self k, by positivity⟩
  parent k r exists' below := by
    obtain ⟨rfl, rfl⟩ := alone k r exists'
    omega
  full k r layer read m inside := by
    obtain ⟨rfl, rfl⟩ := alone k r (by rw [read]; rfl)
    rw [here] at read
    cases read
    have empty : ¬ filled s ∅ k (32 * 0 + m) := by
      intro full
      cases k with
      | zero => cases full
      | succ k =>
        obtain ⟨layer, found, _⟩ := full
        have same := (alone k _ (by rw [found]; rfl)).1
        omega
    simpa using empty
  count k r layer read := by
    obtain ⟨rfl, rfl⟩ := alone k r (by rw [read]; rfl)
    rw [here] at read
    cases read
    have empty : children s ∅ k 0 = ∅ := by
      rw [children, Finset.filter_eq_empty_iff]
      intro m _ present'
      cases k with
      | zero => simp [present] at present'
      | succ k =>
        have same := (alone k _ present').1
        omega
    rw [empty]
    rfl
  leaf id member := by cases member
  slots id pointer := absurd (slots id) pointer

theorem Books.alone {late : Nat → Nat → Prop} {owed : Nat → Nat → Int}
    (books : Books s ids late owed)
    (layers : s.layers = h + 1) (none : children s ids h 0 = ∅) :
    ids = ∅ ∧ ∀ k r, (s.layerAt k r).isSome = true → k = h ∧ r = 0 := by
  have childless : ∀ m < 32, present s ids h m = false := by
    intro m inside
    have out := Finset.filter_eq_empty_iff.mp none (Finset.mem_range.mpr inside)
    rw [Nat.mul_zero, Nat.zero_add] at out
    exact Bool.eq_false_iff.mpr out
  have only : ∀ k r, (s.layerAt k r).isSome = true → k = h ∧ r = 0 := by
    intro k r exists'
    obtain ⟨low, bound⟩ := books.inside k r exists'
    rcases Nat.lt_or_ge k h with below | above
    · obtain ⟨h, rfl⟩ := Nat.exists_eq_add_of_lt below
      have child := books.ancestor exists' (Nat.le_add_right k h) (by omega)
      have inside := (books.inside _ _ child).2
      have one : s.layers - 1 - (k + h) = 1 := by omega
      rw [one, pow_one] at inside
      have out := childless _ inside
      rw [present, child] at out
      cases out
    · have same : k = h := by omega
      have zero : s.layers - 1 - k = 0 := by omega
      rw [zero, pow_zero] at bound
      exact ⟨same, by omega⟩
  refine ⟨Finset.eq_empty_of_forall_notMem fun id member => ?_, only⟩
  obtain ⟨same, first⟩ := only 0 _ (books.leaf id member)
  subst same
  have out := childless id (by omega)
  rw [present, decide_eq_true member] at out
  cases out

theorem Sound.layer_eq (sound : Sound s ids) (here : s.layerAt l q = some layer)
    (empty : layer.count = 0) :
    layer = ⟨0, 0⟩ ∧ children s ids l q = ∅ := by
  have none : children s ids l q = ∅ := by
    have count := Books.count sound l q layer here
    rw [empty, add_zero] at count
    exact Finset.card_eq_zero.mp (by exact_mod_cast count.symm)
  have bits : layer.bitmap = 0 := by
    apply BitVec.eq_of_getLsbD_eq
    intro m inside
    have bit := (Books.full sound l q layer here m inside).not.mpr fun both =>
      not_filled_of_children none inside both.1
    rw [Bool.eq_false_iff.mpr bit]
    simp
  refine ⟨?_, none⟩
  cases layer
  simp only [Layer.mk.injEq] at *
  exact ⟨bits, empty⟩

theorem Sound.raise (sound : Sound s ids) (layers : s.layers = h + 1) (low : h + 1 < MAX_LEVEL - 1)
    (here : s.layerAt h 0 = some layer)
    (bits : ∀ m, bitmap.getLsbD m = true ↔ m = 0 ∧ layer.bitmap = IDR_FULL) :
    Sound ((s.setLayer (h + 1) 0 (some ⟨bitmap, 1⟩)).setTop (some (h + 1)) (h + 2)) ids := by
  have old : ∀ k r, (s.layerAt k r).isSome = true → k ≤ h ∧ (k = h → r = 0) := by
    intro k r exists'
    obtain ⟨inside, bound⟩ := Books.inside sound k r exists'
    refine ⟨by omega, ?_⟩
    rintro rfl
    have zero : s.layers - 1 - k = 0 := by omega
    rw [zero, pow_zero] at bound
    omega
  have read : ∀ k r, k ≤ h → (s.setLayer (h + 1) 0 (some ⟨bitmap, 1⟩)).layerAt k r =
      s.layerAt k r :=
    fun k r below => layerAt_setLayer_of_ne s _ (by omega)
  have cases' : ∀ k r, ((s.setLayer (h + 1) 0 (some ⟨bitmap, 1⟩)).layerAt k r).isSome = true →
      (k = h + 1 ∧ r = 0) ∨ (s.layerAt k r).isSome = true := by
    intro k r exists'
    by_cases new : k = h + 1 ∧ r = 0
    · exact Or.inl new
    · rw [layerAt_setLayer_of_ne s _ new] at exists'
      exact Or.inr exists'
  constructor
  · exact Or.inr ⟨h + 1, rfl, rfl, low, by rw [Idr.setTop, layerAt_setLayer_self]; rfl⟩
  · intro k r exists'
    show k < h + 2 ∧ r < 32 ^ (h + 1 - k)
    rcases cases' k r exists' with ⟨rfl, rfl⟩ | exists'
    · exact ⟨by omega, by positivity⟩
    · obtain ⟨inside, bound⟩ := Books.inside sound k r exists'
      refine ⟨by omega, bound.trans_le (Nat.pow_le_pow_right (by norm_num) (by omega))⟩
  · intro k r exists' below
    have below : k + 1 < h + 2 := below
    show ((s.setLayer (h + 1) 0 (some ⟨bitmap, 1⟩)).layerAt (k + 1) (r / 32)).isSome = true
    rcases cases' k r exists' with ⟨rfl, rfl⟩ | exists'
    · omega
    · rcases Nat.lt_or_ge k h with lower | same
      · rw [read _ _ lower]
        exact Books.parent sound k r exists' (by omega)
      · have same : k = h := by omega
        rw [same, (old k r exists').2 same, layerAt_setLayer_self]
        rfl
  · intro k r other found m inside
    show _ ↔ filled (s.setLayer (h + 1) 0 (some ⟨bitmap, 1⟩)) ids k (32 * r + m) ∧ _
    by_cases new : k = h + 1 ∧ r = 0
    · obtain ⟨rfl, rfl⟩ := new
      rw [Idr.setTop, layerAt_setLayer_self] at found
      cases found
      rw [bits m, Nat.mul_zero, Nat.zero_add, filled_setLayer_of_ne (by omega), filled]
      constructor
      · rintro ⟨rfl, full⟩
        exact ⟨⟨layer, here, full⟩, id⟩
      · rintro ⟨⟨other, found, full⟩, _⟩
        obtain rfl := (old h m (by rw [found]; rfl)).2 rfl
        rw [here] at found
        cases found
        exact ⟨rfl, full⟩
    · rw [Idr.setTop, layerAt_setLayer_of_ne s _ new] at found
      have below := (old k r (by rw [found]; rfl)).1
      rw [filled_setLayer_of_ne (by omega)]
      exact Books.full sound k r other found m inside
  · intro k r other found
    show other.count = (children (s.setLayer (h + 1) 0 (some ⟨bitmap, 1⟩)) ids k r).card + 0
    by_cases new : k = h + 1 ∧ r = 0
    · obtain ⟨rfl, rfl⟩ := new
      rw [Idr.setTop, layerAt_setLayer_self] at found
      cases found
      have one : children (s.setLayer (h + 1) 0 (some ⟨bitmap, 1⟩)) ids (h + 1) 0 = {0} := by
        ext m
        simp only [children, Finset.mem_filter, Finset.mem_range, Finset.mem_singleton,
            Nat.mul_zero, Nat.zero_add,
          present, read h m le_rfl]
        constructor
        · exact fun both => (old h m both.2).2 rfl
        · rintro rfl
          exact ⟨by norm_num, by rw [here]; rfl⟩
      rw [one]
      rfl
    · rw [Idr.setTop, layerAt_setLayer_of_ne s _ new] at found
      have below := (old k r (by rw [found]; rfl)).1
      rw [children_setLayer_of_ne (by omega)]
      exact Books.count sound k r other found
  · intro id member
    show ((s.setLayer (h + 1) 0 (some ⟨bitmap, 1⟩)).layerAt 0 (id / 32)).isSome = true
    rw [read _ _ (Nat.zero_le h)]
    exact Books.leaf sound id member
  · exact fun id pointer => Books.slots sound id (show s.slot id ≠ none from pointer)

end Growth

end RouterKernel.Ids
