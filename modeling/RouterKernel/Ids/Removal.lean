import RouterKernel.Ids.Books

/-!
Contract: what `idr_find`, `idr_replace` and `idr_remove` do to the allocated ids.

Owns:
- `idr_find` and `idr_replace` use the slot of the id;
- `sub_remove` clears bits on the way to an id that may not be allocated, and takes the layers
  away that get empty;
- `idr_remove` frees the id that its argument has the low digits of.

Does not own: runs of the operations (`Ids.Runs`).
-/

namespace RouterKernel.Ids

variable {α : Type} {s : Idr α} {ids : Finset Nat}

/-! ## Looking up -/

theorem findFrom_eq (sound : Sound s ids) (id : Nat) {l : Nat} (low : l < s.layers) :
    findFrom s id l (id / 32 ^ (l + 1)) = s.slot id := by
  have missing : ∀ {k}, k < s.layers → s.layerAt k (id / 32 ^ (k + 1)) = none →
      s.slot id = none := by
    intro k below absent
    by_contra pointer
    exact Books.notMem_of_absent sound below absent (Books.slots sound id pointer)
  induction l with
  | zero =>
    unfold findFrom
    split
    · rename_i absent
      exact (missing low absent).symm
    · rw [zero_add, pow_one, Nat.div_add_mod]
  | succ l ih =>
    unfold findFrom
    split
    · rename_i absent
      exact (missing low absent).symm
    · rw [digit_natCast, ← div_pow_eq]
      exact ih (Nat.lt_of_succ_lt low)

theorem Sound.idrFind_eq (sound : Sound s ids) (id : Int) : idrFind s id = s.slot (maskId id) := by
  unfold idrFind
  rcases Books.top sound with ⟨top, layers⟩ | ⟨h, top, layers, _, _⟩
  · rw [top]
    by_contra pointer
    have positive := Books.layers_pos sound (Books.slots sound _ (Ne.symm pointer))
    omega
  · rw [top]
    dsimp only
    split
    · rename_i beyond
      by_contra pointer
      have inside := Books.lt_capacity sound (Books.slots sound _ (Ne.symm pointer))
      rw [layers] at inside
      omega
    · rename_i within
      have found := findFrom_eq sound (maskId id) (show h < s.layers by omega)
      rwa [Nat.div_eq_of_lt (Nat.lt_of_not_le within)] at found

theorem replaceFrom_eq (sound : Sound s ids) (ptr : Option α) (id : Nat) {l : Nat}
    (low : l < s.layers) :
    replaceFrom s ptr id l (id / 32 ^ (l + 1)) = if id ∈ ids
      then (.old (s.slot id), s.setSlot id ptr) else (.enoent, s) := by
  induction l with
  | zero =>
    unfold replaceFrom
    split
    · rename_i absent
      rw [if_neg (Books.notMem_of_absent sound low absent)]
    · rename_i leaf found
      have bit := Books.full sound 0 _ leaf found (id % 32) (Nat.mod_lt _ (by norm_num))
      rw [zero_add, pow_one, Nat.div_add_mod] at *
      simp only [filled, not_false_eq_true, and_true] at bit
      exact if_congr bit rfl rfl
  | succ l ih =>
    unfold replaceFrom
    split
    · rename_i absent
      rw [if_neg (Books.notMem_of_absent sound low absent)]
    · rw [digit_natCast, ← div_pow_eq]
      exact ih (Nat.lt_of_succ_lt low)

/-- `idr_replace` writes the slot of an allocated id and no other. -/
theorem Sound.idrReplace_spec (sound : Sound s ids) (ptr : Option α) (id : Int) :
    (maskId id ∈ ids → idrReplace s ptr id =
        (.old (s.slot (maskId id)), s.setSlot (maskId id) ptr)) ∧
      (maskId id ∉ ids → (idrReplace s ptr id).2 = s) := by
  unfold idrReplace
  rcases Books.top sound with ⟨top, layers⟩ | ⟨h, top, layers, _, _⟩
  · rw [top]
    refine ⟨fun member => ?_, fun _ => rfl⟩
    have positive := Books.layers_pos sound member
    omega
  · rw [top]
    dsimp only
    split
    · rename_i beyond
      refine ⟨fun member => ?_, fun _ => rfl⟩
      have inside := Books.lt_capacity sound member
      rw [layers] at inside
      omega
    · rename_i within
      have replaced := replaceFrom_eq sound ptr (maskId id) (show h < s.layers by omega)
      rw [Nat.div_eq_of_lt (Nat.lt_of_not_le within)] at replaced
      rw [replaced]
      exact ⟨fun member => if_pos member, fun free => by rw [if_neg free]⟩

theorem Sound.setSlot (sound : Sound s ids) {id : Nat} (member : id ∈ ids) (ptr : Option α) :
    Sound (s.setSlot id ptr) ids := by
  refine ⟨Books.top (s := s) sound, Books.inside (s := s) sound, Books.parent (s := s) sound,
      Books.full (s := s) sound,
    Books.count (s := s) sound, Books.leaf (s := s) sound, ?_⟩
  intro other pointer
  by_cases same : other = id
  · exact same ▸ member
  · have old : Function.update s.slot id ptr other ≠ none := pointer
    rw [Function.update_of_ne same] at old
    exact Books.slots sound other old

/-! ## Clearing bits -/

/-- The bits on the way to an id, from level `l` on. -/
def onWay (id l : Nat) : Nat → Nat → Prop := fun k c => l ≤ k ∧ c = id / 32 ^ k

section Clearing

variable {id l : Nat}

theorem Books.clearBit (books : Books s ids (onWay id (l + 1)) fun _ _ => 0) {layer : Layer}
    (found : s.layerAt l (id / 32 ^ (l + 1)) = some layer) :
    Books (s.setLayer l (id / 32 ^ (l + 1))
        (some ⟨Ids.clearBit layer.bitmap (id / 32 ^ l % 32), layer.count⟩)) ids
      (onWay id l) fun _ _ => 0 := by
  have place := div_pow_eq id l
  have inside : id / 32 ^ l % 32 < 32 := Nat.mod_lt _ (by norm_num)
  refine books.setLayer found ?_ (books.count l _ layer found) ?_ ?_ fun _ _ _ => rfl
  · intro m low
    rw [getLsbD_clearBit inside, Bool.and_eq_true, Bool.not_eq_true', decide_eq_false_iff_not,
      books.full l _ layer found m low]
    constructor
    · rintro ⟨⟨full, _⟩, other⟩
      exact ⟨full, fun late => other (by have := late.2; omega)⟩
    · rintro ⟨full, early⟩
      exact ⟨⟨full, fun late => absurd late.1 (Nat.not_succ_le_self l)⟩, fun same =>
        early ⟨le_rfl, by omega⟩⟩
  · -- The bit above is cleared already, so that this layer need not be full.
    have late : onWay id (l + 1) (l + 1) (id / 32 ^ (l + 1)) := ⟨le_rfl, rfl⟩
    have late' : onWay id l (l + 1) (id / 32 ^ (l + 1)) := ⟨Nat.le_succ l, rfl⟩
    simp [late, late']
  · intro k c apart _
    constructor
    · rintro ⟨low, same⟩
      refine ⟨?_, same⟩
      by_contra higher
      have level : k = l := by omega
      subst level
      exact apart ⟨rfl, by rw [same]; omega⟩
    · rintro ⟨low, same⟩
      exact ⟨Nat.le_of_succ_le low, same⟩

theorem Books.not_filled (books : Books s ids (onWay id l) fun _ _ => 0) {k : Nat} (low : l ≤ k) :
    ¬ filled s ids (k + 1) (id / 32 ^ (k + 1)) := by
  rintro ⟨layer, found, full⟩
  have inside : id / 32 ^ k % 32 < 32 := Nat.mod_lt _ (by norm_num)
  have bit := (books.full k _ layer found _ inside).mp ((eq_full_iff _).mp full _ inside)
  rw [← div_pow_eq] at bit
  exact bit.2 ⟨low, rfl⟩

theorem Books.sound_of_not_filled (books : Books s ids (onWay id l) fun _ _ => 0)
    (missing : ¬ filled s ids l (id / 32 ^ l)) : Sound s ids := by
  refine ⟨books.top, books.inside, books.parent, ?_, books.count, books.leaf, books.slots⟩
  intro k r layer read m inside
  rw [books.full k r layer read m inside]
  refine and_congr_right fun full => ⟨fun _ => not_false, fun _ late => ?_⟩
  obtain ⟨low, same⟩ := late
  rw [same] at full
  rcases Nat.eq_or_lt_of_le low with rfl | more
  · exact missing full
  · obtain ⟨k, rfl⟩ := Nat.exists_eq_add_of_lt more
    exact books.not_filled (Nat.le_add_right l k) full

theorem card_children_erase (member : id ∈ ids) :
    (children s ids 0 (id / 32)).card = (children s (ids.erase id) 0 (id / 32)).card + 1 := by
  have old : children s ids 0 (id / 32) =
      insert (id % 32) (children s (ids.erase id) 0 (id / 32)) := by
    ext m
    simp only [children, present, Finset.mem_filter, Finset.mem_range, Finset.mem_insert,
      Finset.mem_erase, decide_eq_true_eq]
    constructor
    · rintro ⟨low, held⟩
      by_cases same : m = id % 32
      · exact Or.inl same
      · exact Or.inr ⟨low, by omega, held⟩
    · rintro (same | ⟨low, _, held⟩)
      · refine ⟨by omega, ?_⟩
        rw [same, Nat.div_add_mod]
        exact member
      · exact ⟨low, held⟩
  have out : id % 32 ∉ children s (ids.erase id) 0 (id / 32) := by
    simp only [children, present, Finset.mem_filter, decide_eq_true_eq, not_and]
    rw [Nat.div_add_mod]
    exact fun _ => Finset.notMem_erase id ids
  rw [old, Finset.card_insert_of_notMem out]

theorem children_erase_of_ne {k r : Nat} (apart : ¬ (k = 0 ∧ r = id / 32)) :
    children s (ids.erase id) k r = children s ids k r := by
  unfold children
  refine Finset.filter_congr fun m inRange => ?_
  have low := Finset.mem_range.mp inRange
  cases k with
  | zero =>
    have other : 32 * r + m ≠ id := fun same => apart ⟨rfl, by omega⟩
    simp [present, other]
  | succ k => rfl

/-- What a count is off at one layer. -/
def owes (l q : Nat) : Nat → Nat → Int := fun k r => if k = l ∧ r = q then 1 else 0

/-- The id is gone; the count of its leaf does not know of it. -/
theorem Books.erase (books : Books s ids (onWay id 0) fun _ _ => 0) (member : id ∈ ids) :
    Books (s.setSlot id none) (ids.erase id) (fun _ _ => False) (owes 0 (id / 32)) where
  top := Books.top (s := s) books
  inside := Books.inside (s := s) books
  parent := Books.parent (s := s) books
  full k r layer read m inside := by
    rw [books.full k r layer read m inside]
    cases k with
    | zero =>
      simp only [filled, onWay, Finset.mem_erase, pow_zero, Nat.div_one, not_false_eq_true,
        and_true, le_refl, true_and]
      exact And.comm
    | succ k =>
      refine and_congr_right fun full => ⟨fun _ => not_false, fun _ late => ?_⟩
      rw [late.2] at full
      exact books.not_filled (Nat.zero_le k) full
  count k r layer read := by
    rw [books.count k r layer read]
    by_cases here : k = 0 ∧ r = id / 32
    · obtain ⟨rfl, rfl⟩ := here
      rw [card_children_erase member, owes, if_pos ⟨rfl, rfl⟩]
      push_cast
      rw [add_zero]
      rfl
    · rw [owes, if_neg here, ← children_erase_of_ne here]
      rfl
  leaf other held := books.leaf other (Finset.mem_of_mem_erase held)
  slots other pointer := by
    by_cases same : other = id
    · have none : Function.update s.slot id none other ≠ none := pointer
      rw [same, Function.update_self] at none
      exact absurd rfl none
    · have old : Function.update s.slot id none other ≠ none := pointer
      rw [Function.update_of_ne same] at old
      exact Finset.mem_erase.mpr ⟨same, books.slots other old⟩

end Clearing

/-! ## Empty layers -/

section Emptying

variable {l q : Nat}

theorem card_children_remove {layer : Layer} (found : s.layerAt l q = some layer) :
    (children s ids (l + 1) (q / 32)).card =
    (children (s.setLayer l q none) ids (l + 1) (q / 32)).card + 1 := by
  have again : (s.setLayer l q none).setLayer l q (some layer) = s := by
    rw [setLayer_twice, setLayer_of_eq found]
  rw [← card_children_add (layerAt_setLayer_self s l q none) layer, again]

/-- A layer without children is taken out, of which the count above does not know. -/
theorem Books.dropLayer (books : Books s ids (fun _ _ => False) (owes l q)) {layer : Layer}
    (found : s.layerAt l q = some layer) (empty : children s ids l q = ∅)
    (below : l + 1 < s.layers) :
    Books (s.setLayer l q none) ids (fun _ _ => False) (owes (l + 1) (q / 32)) where
  top := by
    rcases books.top with ⟨_, layers⟩ | ⟨h, top, layers, low, exists'⟩
    · omega
    · refine Or.inr ⟨h, top, layers, low, ?_⟩
      rwa [layerAt_setLayer_of_ne s _ (by omega)]
  inside k r exists' := by
    by_cases here : k = l ∧ r = q
    · rw [here.1, here.2, layerAt_setLayer_self] at exists'
      cases exists'
    · rw [layerAt_setLayer_of_ne s _ here] at exists'
      exact books.inside k r exists'
  parent k r exists' high := by
    by_cases here : k = l ∧ r = q
    · rw [here.1, here.2, layerAt_setLayer_self] at exists'
      cases exists'
    · rw [layerAt_setLayer_of_ne s _ here] at exists'
      have up := books.parent k r exists' high
      rwa [layerAt_setLayer_of_ne s _]
      rintro ⟨rfl, rfl⟩
      have child : r % 32 ∈ children s ids (k + 1) (r / 32) := by
        refine Finset.mem_filter.mpr ⟨Finset.mem_range.mpr (Nat.mod_lt _ (by norm_num)), ?_⟩
        rw [Nat.div_add_mod]
        exact exists'
      rw [empty] at child
      cases child
  full k r other read m inside := by
    obtain ⟨here, read⟩ := (layerAt_setLayer_cases read).resolve_left (by simp)
    rw [books.full k r other read m inside]
    by_cases up : k = l + 1 ∧ 32 * r + m = q
    · obtain ⟨rfl, same⟩ := up
      rw [same, filled, filled, layerAt_setLayer_self, found]
      have bit := (books.full l q layer found 0 (by norm_num)).not.mpr fun both =>
        not_filled_of_children empty (by norm_num) both.1
      constructor
      · rintro ⟨⟨full', read, full⟩, _⟩
        cases read
        exact absurd ((eq_full_iff _).mp full 0 (by norm_num)) bit
      · rintro ⟨⟨full', read, _⟩, _⟩
        cases read
    · rw [filled_setLayer_of_ne up]
  count k r other read := by
    obtain ⟨here, read⟩ := (layerAt_setLayer_cases read).resolve_left (by simp)
    rw [books.count k r other read, owes, if_neg here]
    by_cases up : k = l + 1 ∧ r = q / 32
    · obtain ⟨rfl, rfl⟩ := up
      rw [card_children_remove found, owes, if_pos ⟨rfl, rfl⟩]
      push_cast
      ring
    · rw [owes, if_neg up, children_setLayer_of_ne up]
  leaf id member := by
    have leaf := books.leaf id member
    rwa [layerAt_setLayer_of_ne s _]
    rintro ⟨rfl, rfl⟩
    have child : id % 32 ∈ children s ids 0 (id / 32) := by
      refine Finset.mem_filter.mpr ⟨Finset.mem_range.mpr (Nat.mod_lt _ (by norm_num)), ?_⟩
      rw [Nat.div_add_mod]
      exact decide_eq_true member
    rw [empty] at child
    cases child
  slots id pointer := books.slots id (show s.slot id ≠ none from pointer)

theorem Sound.empty (nothing : ∀ k r, s.layerAt k r = none) (slots : ∀ id, s.slot id = none) :
    Sound (s.setTop none 0) ∅ where
  top := Or.inl ⟨rfl, rfl⟩
  inside k r exists' := by
    have exists' : (s.layerAt k r).isSome = true := exists'
    rw [nothing] at exists'
    cases exists'
  parent k r exists' _ := by
    have exists' : (s.layerAt k r).isSome = true := exists'
    rw [nothing] at exists'
    cases exists'
  full k r layer read := by
    have read : s.layerAt k r = some layer := read
    rw [nothing] at read
    cases read
  count k r layer read := by
    have read : s.layerAt k r = some layer := read
    rw [nothing] at read
    cases read
  leaf id member := by cases member
  slots id pointer := absurd (slots id) pointer

/-- The layers above an id, from level `l` on. -/
def wayUp (id l layers : Nat) : List (Nat × Nat) := (List.range' l (layers - l)).map fun k =>
    (k, id / 32 ^ (k + 1))

theorem wayUp_cons {id l layers : Nat} (low : l < layers) :
    wayUp id l layers = (l, id / 32 ^ (l + 1)) :: wayUp id (l + 1) layers := by
  have size : layers - l = layers - (l + 1) + 1 := by omega
  rw [wayUp, size, List.range'_succ, List.map_cons]
  rfl

theorem dropCounts_spec {id turns : Nat} (bound : s.layers = l + turns) (positive : 0 < turns)
    (books : Books s ids (fun _ _ => False) (owes l (id / 32 ^ (l + 1))))
    (inside : id < 32 ^ s.layers)
    (exists' : (s.layerAt l (id / 32 ^ (l + 1))).isSome = true) :
    Sound (dropCounts (wayUp id l s.layers) s) ids ∧ (dropCounts (wayUp id l s.layers) s).slot =
      s.slot := by
  induction turns generalizing l s with
  | zero => exact absurd positive (Nat.lt_irrefl 0)
  | succ turns ih =>
    obtain ⟨p, found⟩ := Option.isSome_iff_exists.mp exists'
    have count := books.count l _ p found
    rw [owes, if_pos ⟨rfl, rfl⟩] at count
    rw [wayUp_cons (by omega)]
    unfold dropCounts
    rw [found]
    dsimp only
    split
    · rename_i zero
      have none : children s ids l (id / 32 ^ (l + 1)) = ∅ := Finset.card_eq_zero.mp (by omega)
      rcases Nat.eq_zero_or_pos turns with rfl | more
      · -- The top is empty.
        have top : id / 32 ^ (l + 1) = 0 := Nat.div_eq_of_lt (by rwa [← bound])
        rw [top] at none ⊢
        obtain ⟨rfl, only⟩ := books.alone bound none
        have last : wayUp id (l + 1) s.layers = [] := by
          rw [wayUp, bound, Nat.sub_self]
          rfl
        rw [last, dropCounts]
        refine ⟨Sound.empty ?_ ?_, rfl⟩
        · intro k r
          by_cases here : k = l ∧ r = 0
          · rw [here.1, here.2, layerAt_setLayer_self]
          · rw [layerAt_setLayer_of_ne s _ here]
            by_contra other
            exact here (only k r (Option.isSome_iff_ne_none.mpr other))
        · intro id
          by_contra pointer
          have held := books.slots id pointer
          cases held
      · have dropped := books.dropLayer found none (by omega)
        have up := books.parent l _ exists' (by omega)
        rw [Nat.div_div_eq_div_mul, ← Nat.pow_succ] at dropped up
        refine ih (s := s.setLayer l (id / 32 ^ (l + 1)) Option.none) (l :=
          l + 1) ?_ more dropped inside ?_
        · show s.layers = _
          omega
        · rwa [layerAt_setLayer_of_ne s _ (by omega)]
    · refine ⟨books.setLayer found (fun m low => books.full l _ p found m low) ?_ Iff.rfl
        (fun _ _ _ _ => Iff.rfl) ?_, rfl⟩
      · dsimp only
        omega
      · intro k r other
        rw [owes, if_neg other]

end Emptying

/-! ## `sub_remove` and `idr_remove` -/

section Remove

theorem digit_mod (id : Nat) {layers k : Nat} (low : k < layers) :
    id % 32 ^ layers / 32 ^ k % 32 = id / 32 ^ k % 32 := by
  obtain ⟨more, rfl⟩ := Nat.exists_eq_add_of_lt low
  rw [Nat.add_assoc, Nat.pow_add, Nat.mod_mul_right_div_self]
  exact Nat.mod_mod_of_dvd _ (Dvd.intro_left (32 ^ more) (Nat.pow_succ 32 more).symm)

theorem erase_of_free (sound : Sound s ids) {id : Nat} (free : id ∉ ids) :
    Sound s (ids.erase id) ∧ s.slot = Function.update s.slot id none := by
  rw [Finset.erase_eq_of_notMem free]
  refine ⟨sound, (Function.update_eq_self_iff.mpr ?_).symm⟩
  by_contra pointer
  exact free (Books.slots sound id (Ne.symm pointer))

/-- `sub_remove` from a layer on, with the bits above it cleared. -/
theorem subRemove_spec {id given l : Nat} {s : Idr α} (aliased : id = given % 32 ^ s.layers)
    (books : Books s ids (onWay id (l + 1)) fun _ _ => 0) (low : l < s.layers) :
    Sound (subRemove given l (id / 32 ^ (l + 1)) (wayUp id (l + 1) s.layers) s) (ids.erase id) ∧
      (subRemove given l (id / 32 ^ (l + 1)) (wayUp id (l + 1) s.layers) s).slot =
        Function.update s.slot id none := by
  have bound : id < 32 ^ s.layers := aliased ▸ Nat.mod_lt _ (by positivity)
  have missing : s.layerAt l (id / 32 ^ (l + 1)) = none →
      Sound s (ids.erase id) ∧ s.slot = Function.update s.slot id none := by
    intro absent
    refine erase_of_free (books.sound_of_not_filled ?_) ?_
    · rintro ⟨layer, found, _⟩
      rw [absent] at found
      cases found
    · exact books.notMem_of_absent low absent
  have digits := digit_mod given low
  rw [← aliased] at digits
  induction l generalizing s with
  | zero =>
    unfold subRemove
    split
    · rename_i absent
      exact missing absent
    · rename_i leaf found
      rw [pow_zero, Nat.div_one, Nat.div_one] at digits
      have inside : id % 32 < 32 := Nat.mod_lt _ (by norm_num)
      have bit := books.full 0 _ leaf found (id % 32) inside
      rw [← digits, show 32 * (id / 32 ^ (0 + 1)) + id % 32 =
        id by rw [zero_add, pow_one, Nat.div_add_mod]] at *
      split
      · rename_i set
        have member : id ∈ ids := (bit.mp set).1
        have cleared := books.clearBit found
        rw [pow_zero, Nat.div_one] at cleared
        have erased := cleared.erase member
        rw [← wayUp_cons low]
        refine dropCounts_spec (s := (s.setLayer 0 _ (some ⟨_, leaf.count⟩)).setSlot id none) (l :=
            0)
          (Nat.zero_add _).symm low ?_ bound ?_
        · rwa [zero_add, pow_one] at *
        · exact congrArg Option.isSome (layerAt_setLayer_self s 0 _ _)
      · rename_i unset
        refine erase_of_free (books.sound_of_not_filled ?_) ?_
        · rintro ⟨full', read, full⟩
          rw [found] at read
          cases read
          exact unset ((eq_full_iff _).mp full _ inside)
        · exact fun member => unset (bit.mpr ⟨member, fun late => absurd late.1 (by norm_num)⟩)
  | succ l ih =>
    unfold subRemove
    split
    · rename_i absent
      exact missing absent
    · rename_i p found
      rw [digit_natCast, ← digits, ← div_pow_eq, ← wayUp_cons low]
      have cleared := books.clearBit found
      have lower : l < s.layers := Nat.lt_of_succ_lt low
      refine ih (s := s.setLayer (l + 1) _ (some ⟨_, p.count⟩)) aliased cleared lower bound ?_
        (aliased ▸ digit_mod given lower)
      intro absent
      refine erase_of_free (cleared.sound_of_not_filled ?_) ?_
      · rintro ⟨layer, read, _⟩
        rw [absent] at read
        cases read
      · exact cleared.notMem_of_absent lower absent

theorem Sound.lower (sound : Sound s ids) {l : Nat} {p : Layer} (top : s.top = some (l + 1))
    (found : s.layerAt (l + 1) 0 = some p) (one : p.count = 1)
    (first : (s.layerAt l 0).isSome = true) :
    Sound ((s.setLayer (l + 1) 0 none).setTop (some l) (s.layers - 1)) ids := by
  obtain ⟨layers, high⟩ : s.layers = l + 2 ∧ l + 1 < MAX_LEVEL - 1 := by
    rcases Books.top sound with ⟨none, _⟩ | ⟨h, isTop, layers, high, _⟩
    · rw [top] at none
      cases none
    · rw [top] at isTop
      cases isTop
      exact ⟨layers, high⟩
  have only : ∀ m < 32, (s.layerAt l m).isSome = true → m = 0 := by
    have count := Books.count sound (l + 1) 0 p found
    rw [one, add_zero] at count
    have card : (children s ids (l + 1) 0).card = 1 := by exact_mod_cast count.symm
    obtain ⟨single, isSingle⟩ := Finset.card_eq_one.mp card
    have listed : ∀ m < 32, (s.layerAt l m).isSome = true → m = single := by
      intro m low exists'
      have member : m ∈ children s ids (l + 1) 0 := by
        refine Finset.mem_filter.mpr ⟨Finset.mem_range.mpr low, ?_⟩
        rwa [Nat.mul_zero, Nat.zero_add]
      rw [isSingle] at member
      exact Finset.mem_singleton.mp member
    intro m low exists'
    rw [listed m low exists', ← listed 0 (by norm_num) first]
  have old : ∀ k r, ((s.setLayer (l + 1) 0 none).layerAt k r).isSome = true →
      (s.layerAt k r).isSome = true ∧ k ≤ l ∧ r < 32 ^ (l - k) := by
    intro k r exists'
    by_cases here : k = l + 1 ∧ r = 0
    · rw [here.1, here.2, layerAt_setLayer_self] at exists'
      cases exists'
    · rw [layerAt_setLayer_of_ne s _ here] at exists'
      obtain ⟨below, bound⟩ := Books.inside sound k r exists'
      have low : k ≤ l := by
        by_contra more
        have level : k = l + 1 := by omega
        have zero : s.layers - 1 - k = 0 := by omega
        rw [zero, pow_zero] at bound
        exact here ⟨level, by omega⟩
      refine ⟨exists', low, ?_⟩
      have up := Books.ancestor sound exists' low (by omega)
      have inside := (Books.inside sound _ _ up).2
      rw [show s.layers - 1 - l = 1 by omega, pow_one] at inside
      exact Nat.lt_of_div_eq_zero (by positivity) (only _ inside up)
  constructor
  · refine Or.inr ⟨l, rfl, ?_, by omega, ?_⟩
    · show s.layers - 1 = l + 1
      omega
    · show ((s.setLayer (l + 1) 0 none).layerAt l 0).isSome = true
      rwa [layerAt_setLayer_of_ne s _ (by omega)]
  · intro k r exists'
    obtain ⟨_, low, bound⟩ := old k r exists'
    show k < s.layers - 1 ∧ r < 32 ^ (s.layers - 1 - 1 - k)
    rw [show s.layers - 1 - 1 - k = l - k by omega]
    exact ⟨by omega, bound⟩
  · intro k r exists' below
    obtain ⟨exists', _, _⟩ := old k r exists'
    have below : k + 1 < s.layers - 1 := below
    have up := Books.parent sound k r exists' (by omega)
    show ((s.setLayer (l + 1) 0 none).layerAt (k + 1) (r / 32)).isSome = true
    rwa [layerAt_setLayer_of_ne s _ (by omega)]
  · intro k r layer read m inside
    obtain ⟨_, low, _⟩ := old k r (Option.isSome_iff_exists.mpr ⟨layer, read⟩)
    have read : (s.setLayer (l + 1) 0 none).layerAt k r = some layer := read
    rw [layerAt_setLayer_of_ne s _ (by omega)] at read
    rw [Books.full sound k r layer read m inside]
    exact and_congr_left' (filled_setLayer_of_ne (by omega)).symm
  · intro k r layer read
    obtain ⟨_, low, _⟩ := old k r (Option.isSome_iff_exists.mpr ⟨layer, read⟩)
    have read : (s.setLayer (l + 1) 0 none).layerAt k r = some layer := read
    rw [layerAt_setLayer_of_ne s _ (by omega)] at read
    have same : children (s.setLayer (l + 1) 0 none) ids k r = children s ids k r :=
      children_setLayer_of_ne (by omega)
    rw [Books.count sound k r layer read, ← same]
    rfl
  · intro id member
    have leaf := Books.leaf sound id member
    show ((s.setLayer (l + 1) 0 none).layerAt 0 (id / 32)).isSome = true
    rwa [layerAt_setLayer_of_ne s _ (by omega)]
  · exact fun id pointer => Books.slots sound id (show s.slot id ≠ none from pointer)

theorem shrink_spec (sound : Sound s ids) : Sound (shrink s) ids ∧ (shrink s).slot = s.slot := by
  unfold shrink
  split
  · rename_i l isTop
    split
    · rename_i p found
      split
      · rename_i shrinks
        exact ⟨sound.lower isTop found shrinks.1 shrinks.2.2, rfl⟩
      · exact ⟨sound, rfl⟩
    · exact ⟨sound, rfl⟩
  · exact ⟨sound, rfl⟩

/-- The id that `sub_remove` goes to. -/
def target (s : Idr α) (id : Int) : Nat := maskId id % 32 ^ s.layers

/-- `idr_remove` frees the id that the tree takes its argument for. -/
theorem idrRemove_spec (sound : Sound s ids) (id : Int) :
    Sound (idrRemove s id) (ids.erase (target s id)) ∧
      (idrRemove s id).slot = Function.update s.slot (target s id) none := by
  have removed : ∀ {removed : Idr α}, Sound removed (ids.erase (target s id)) ∧
      removed.slot = Function.update s.slot (target s id) none →
      Sound ((shrink removed).setFree (min (shrink removed).idFreeCnt (IDR_FREE_MAX - 1)))
        (ids.erase (target s id)) ∧
      ((shrink removed).setFree (min (shrink removed).idFreeCnt (IDR_FREE_MAX - 1))).slot =
        Function.update s.slot (target s id) none := by
    rintro removed ⟨soundR, slots⟩
    obtain ⟨shrunk, same⟩ := shrink_spec soundR
    exact ⟨shrunk.setFree _, same.trans slots⟩
  unfold idrRemove
  refine removed ?_
  rcases Books.top sound with ⟨top, layers⟩ | ⟨h, top, layers, _, _⟩
  · rw [top]
    refine erase_of_free sound fun member => ?_
    have positive := Books.layers_pos sound member
    omega
  · rw [top]
    dsimp only
    have start : Books s ids (onWay (target s id) (s.layers - 1 + 1)) fun _ _ => 0 :=
      Books.congr_late sound fun k c below => ⟨fun late => by have := late.1; omega, False.elim⟩
    have aliased : target s id = maskId id % 32 ^ s.layers := rfl
    have inside : target s id < 32 ^ s.layers := Nat.mod_lt _ (by positivity)
    have result := subRemove_spec aliased start (by omega)
    have last : wayUp (target s id) (s.layers - 1 + 1) s.layers = [] := by
      rw [wayUp, show s.layers - (s.layers - 1 + 1) = 0 by omega]
      rfl
    rw [last, Nat.sub_add_cancel (by omega), Nat.div_eq_of_lt inside] at result
    exact result

end Remove

end RouterKernel.Ids
