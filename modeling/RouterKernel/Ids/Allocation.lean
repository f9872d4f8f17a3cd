import RouterKernel.Ids.Books

/-!
Contract: `idr_get_new_above` allocates the least free id from the start on.

Owns:
- the growth of a tree keeps its books;
- the invariant of the search in `sub_alloc`, which ends at the least free id or at the end of the
  tree;
- installing a pointer and marking layers full keeps the books, with one id more.

Does not own: starts from which on no id below the capacity of the largest tree is free.
-/

namespace RouterKernel.Ids

open RouterKernel.Foundation

variable {α : Type} {s : Idr α} {ids : Finset Nat}

/-! ## Growth -/

theorem Sound.layers_le (sound : Sound s ids) : s.layers ≤ 6 := by
  rcases Books.top sound with ⟨_, layers⟩ | ⟨h, _, layers, low, _⟩
  · omega
  · have bound : h < 6 := low
    omega

theorem Sound.topLayer (sound : Sound s ids) (positive : 0 < s.layers) :
    (s.layerAt (s.layers - 1) 0).isSome = true := by
  rcases Books.top sound with ⟨_, layers⟩ | ⟨h, _, layers, _, exists'⟩
  · omega
  · rwa [layers, Nat.add_sub_cancel]

/-- A tree with `layers` layers, of which the handle does not know yet. -/
def Raised (s : Idr α) (ids : Finset Nat) (layers : Nat) : Prop :=
  Sound (s.setTop (some (layers - 1)) layers) ids

variable {l layers start : Nat} {s' : Idr α}

theorem getFromFreeList_some {q : Nat} (taken : getFromFreeList s l q = some s') :
    0 < s.idFreeCnt ∧ s' = (s.setLayer l q (some ⟨0, 0⟩)).setFree (s.idFreeCnt - 1) := by
  unfold getFromFreeList at taken
  split at taken
  · cases taken
  · rename_i more
    exact ⟨Nat.pos_of_ne_zero more, (Option.some.inj taken).symm⟩

theorem getFromFreeList_none {q : Nat} (empty : getFromFreeList s l q = none) :
    s.idFreeCnt = 0 := by
  unfold getFromFreeList at empty
  split at empty
  · assumption
  · cases empty

theorem getLsbD_first (full : Prop) [Decidable full] (m : Nat) :
    (if full then setBit 0 0 else (0 : U32)).getLsbD m = true ↔ m = 0 ∧ full := by
  split
  · rename_i holds
    rw [getLsbD_setBit (by norm_num)]
    simp [holds]
  · rename_i fails
    simp [fails]

/-- A tree that covers the id, as far as trees do, at the price of a layer of the reserve for each
layer more; or the reserve was too small. -/
def Grown (id : Nat) (s : Idr α) (ids : Finset Nat) (layers : Nat) : Option (Idr α) → Prop
  | none => s.idFreeCnt + layers < 6
  | some s' => Sound s' ids ∧ (id < 32 ^ s'.layers ∨ s'.layers = 6) ∧ 1 ≤ s'.layers ∧
      s'.slot = s.slot ∧
      s.idFreeCnt + layers ≤ s'.idFreeCnt + s'.layers

theorem Grown.mono {id layers' : Nat} {s : Idr α} {result : Option (Idr α)}
    (grown : Grown id s' ids layers' result) (slots : s'.slot = s.slot)
    (stock : s.idFreeCnt + layers ≤ s'.idFreeCnt + layers') : Grown id s ids layers result := by
  cases result with
  | none => exact stock.trans_lt grown
  | some last =>
    obtain ⟨sound, covered, first, same, less⟩ := grown
    exact ⟨sound, covered, first, same.trans slots, stock.trans less⟩

theorem grow_spec (id : Nat) {turns : Nat} {s : Idr α} (raised : Raised s ids layers)
    (first : 1 ≤ layers)
    (low : layers ≤ 6) (enough : 6 ≤ layers + turns) :
      Grown id s ids layers (grow id turns layers s) := by
  induction turns generalizing layers s with
  | zero => exact ⟨raised, Or.inr (by simp only [Idr.setTop]; omega), first, rfl, le_rfl⟩
  | succ turns ih =>
    obtain ⟨h, rfl⟩ := Nat.exists_eq_add_of_le' first
    unfold grow
    split
    · rename_i more
      have room : h + 1 < MAX_LEVEL - 1 := more.1
      have room' : h + 1 < 6 := room
      obtain ⟨p, here⟩ := Option.isSome_iff_exists.mp (Sound.topLayer raised (Nat.succ_pos h))
      rw [show s.layerAt (h + 1 - 1) 0 = some p from here]
      dsimp only
      split
      · rename_i empty
        obtain ⟨rfl, childless⟩ := Sound.layer_eq raised here empty
        obtain ⟨rfl, alone⟩ := Books.alone raised rfl childless
        refine (ih (s := (s.setLayer h 0 none).setLayer (h + 1) 0 (some ⟨0, 0⟩)) ?_
            (Nat.succ_pos _) room'
          (by omega)).mono rfl (Nat.le_succ _)
        refine Sound.single rfl rfl room (if_pos ⟨rfl, rfl⟩) ?_ ?_
        · intro k r exists'
          by_cases new : k = h + 1 ∧ r = 0
          · exact new
          · have old : (((s.setLayer h 0 none).setLayer (h + 1) 0 (some ⟨0, 0⟩)).layerAt k
              r).isSome = true := exists'
            rw [layerAt_setLayer_of_ne _ _ new] at old
            by_cases moved : k = h ∧ r = 0
            · rw [moved.1, moved.2, layerAt_setLayer_self] at old
              cases old
            · rw [layerAt_setLayer_of_ne _ _ moved] at old
              exact absurd (alone k r old) moved
        · intro id
          by_contra pointer
          have held := Books.slots raised id (show s.slot id ≠ none from pointer)
          cases held
      · split
        · rename_i out
          have none := getFromFreeList_none out
          show s.idFreeCnt + (h + 1) < 6
          omega
        · rename_i s₁ taken
          obtain ⟨stock, rfl⟩ := getFromFreeList_some taken
          have next := Sound.raise raised rfl room here (getLsbD_first (p.bitmap = IDR_FULL))
          have twice := setLayer_twice (s.setFree (s.idFreeCnt - 1)) (h + 1) 0 (some ⟨0, 0⟩)
            (some ⟨if p.bitmap = IDR_FULL then setBit 0 0 else 0, 1⟩)
          refine (ih (twice ▸ next.setFree (s.idFreeCnt - 1)) (Nat.succ_pos _) room'
            (by omega)).mono rfl ?_
          show s.idFreeCnt + (h + 1) ≤ s.idFreeCnt - 1 + (h + 2)
          omega
    · rename_i covered
      refine ⟨raised, ?_, first, rfl, le_rfl⟩
      show id < 32 ^ (h + 1) ∨ h + 1 = 6
      have bound : ¬ (h + 1 < 6 ∧ (id : Int) ≥ 32 ^ (h + 1)) := covered
      rcases Nat.lt_or_ge (h + 1) 6 with small | large
      · left
        have less : (id : Int) < 32 ^ (h + 1) := by
          by_contra more
          exact bound ⟨small, not_lt.mp more⟩
        exact_mod_cast less
      · exact Or.inr (by omega)

theorem buildUp_spec (id : Nat) (sound : Sound s ids) : Grown id s ids s.layers (buildUp s id) := by
  unfold buildUp
  rcases Books.top sound with ⟨top, layers⟩ | ⟨h, top, layers, high, exists'⟩
  · rw [top]
    have nothing : ∀ k r, s.layerAt k r = none := by
      intro k r
      by_contra exists'
      have inside := (Books.inside sound k r (Option.isSome_iff_ne_none.mpr exists')).1
      omega
    obtain rfl : ids = ∅ := by
      refine Finset.eq_empty_of_forall_notMem fun id member => ?_
      have positive := Books.layers_pos sound member
      omega
    dsimp only
    split
    · rename_i out
      have none := getFromFreeList_none out
      show s.idFreeCnt + s.layers < 6
      omega
    · rename_i s₁ taken
      obtain ⟨stock, rfl⟩ := getFromFreeList_some taken
      have raised : Raised ((s.setLayer 0 0 (some ⟨0, 0⟩)).setFree (s.idFreeCnt - 1))
          (∅ : Finset Nat) 1 := by
        refine Sound.single rfl rfl (by decide) rfl ?_ ?_
        · intro k r exists'
          by_contra other
          have old : ((s.setLayer 0 0 (some ⟨0, 0⟩)).layerAt k r).isSome = true := exists'
          rw [layerAt_setLayer_of_ne _ _ other, nothing] at old
          cases old
        · intro id
          by_contra pointer
          have held := Books.slots sound id (show s.slot id ≠ none from pointer)
          cases held
      refine (grow_spec id raised le_rfl (by norm_num) (by decide)).mono rfl ?_
      show s.idFreeCnt + s.layers ≤ s.idFreeCnt - 1 + 1
      omega
  · rw [top]
    have raised : Raised s ids s.layers := by
      have same : s.setTop (some (s.layers - 1)) s.layers = s := by
        rw [layers, Nat.add_sub_cancel, ← top, ← layers, Idr.setTop]
      exact same.symm ▸ sound
    have bound : h < 6 := high
    exact grow_spec id raised (by omega) (by omega) (by simp only [MAX_LEVEL]; omega)

/-! ## Places -/

theorem div_pow_of_le {j j' k : Nat} (same : j / 32 ^ l = j' / 32 ^ l) (above : l ≤ k) :
    j / 32 ^ k = j' / 32 ^ k := by
  obtain ⟨more, rfl⟩ := Nat.exists_eq_add_of_le above
  rw [Nat.pow_add, ← Nat.div_div_eq_div_mul, ← Nat.div_div_eq_div_mul, same]

theorem place_le {j : Nat} (inside : j < 32 ^ layers) (low : l ≤ layers) :
    (j / 32 ^ l + 1) * 32 ^ l ≤ 32 ^ layers := by
  obtain ⟨more, rfl⟩ := Nat.exists_eq_add_of_le low
  rw [Nat.pow_add] at inside ⊢
  rw [Nat.mul_comm]
  exact Nat.mul_le_mul_left _ ((Nat.div_lt_iff_lt_mul (by positivity)).mpr (by rwa [Nat.mul_comm]))

/-! ## The search -/

/-- The variables of `sub_alloc` when it has come to the id `j`: all ids from the start up to it are
allocated, and `p` and `pa` are the layers above it.  Once it has taken layers from the reserve it
goes straight down. -/
structure Seeks (s : Idr α) (ids : Finset Nat) (start : Nat) (a : Alloc α) (j : Nat) : Prop where
  sound : Sound a.idr ids
  layers : a.idr.layers = s.layers
  slots : a.idr.slot = s.slot
  id : a.id = j
  low : start ≤ j
  high : j < 32 ^ s.layers
  held : ∀ i, start ≤ i → i < j → i ∈ ids
  level : a.l < s.layers
  here : a.p = j / 32 ^ (a.l + 1)
  exists' : (a.idr.layerAt a.l a.p).isSome = true
  path : ∀ k, a.l < k → k < s.layers → a.pa k = some (j / 32 ^ (k + 1))
  ends : a.pa s.layers = none
  stock : a.idr.idFreeCnt = s.idFreeCnt ∨
    a.idr.layerAt a.l a.p = some ⟨0, 0⟩ ∧ s.idFreeCnt + a.l + 1 ≤ a.idr.idFreeCnt + s.layers

/-- A free id and the layers above it. -/
structure Spot (s : Idr α) (ids : Finset Nat) (start : Nat) (s' : Idr α) (pa : Nat → Option Nat)
    (j : Nat) : Prop where
  sound : Sound s' ids
  layers : s'.layers = s.layers
  slots : s'.slot = s.slot
  low : start ≤ j
  high : j < 32 ^ s.layers
  held : ∀ i, start ≤ i → i < j → i ∈ ids
  free : j ∉ ids
  leaf : (s'.layerAt 0 (j / 32)).isSome = true
  path : ∀ k, k < s.layers → pa k = some (j / 32 ^ (k + 1))
  ends : pa s.layers = none

/-- What `sub_alloc` has found. -/
def Slots (s : Idr α) (ids : Finset Nat) (start : Nat) : Slotted α → Prop
  | .found s' id pa => ∃ j : Nat, id = j ∧ Spot s ids start s' pa j
  | .needToGrow s' id => Sound s' ids ∧ s'.slot = s.slot ∧ s'.layers = s.layers ∧
      s'.idFreeCnt = s.idFreeCnt ∧
      id = (32 ^ s.layers : Nat) ∧ ∀ i, start ≤ i → i < 32 ^ s.layers → i ∈ ids
  | .noMoreSpace _ => False
  | .noLayer s' => Sound s' ids ∧ s'.slot = s.slot ∧ s.idFreeCnt < s.layers

/-- How far the search is from its end. -/
def remaining (s : Idr α) (a : Alloc α) : Nat := (32 ^ s.layers - a.id.toNat) * 8 + a.l

abbrev Sought (s : Idr α) (ids : Finset Nat) (start : Nat) (a : Alloc α) :
    Outcome (Alloc α) (Slotted α) → Prop :=
  Turned (fun next => ∃ j, Seeks s ids start next j) (remaining s) (Slots s ids start)
    (remaining s a)

section Search

variable {start : Nat} {a : Alloc α} {j : Nat}

theorem capacity_le (sound : Sound s ids) : 32 ^ s.layers ≤ 2 ^ 30 := by
  calc 32 ^ s.layers ≤ 32 ^ 6 := Nat.pow_le_pow_right (by norm_num) sound.layers_le
    _ = 2 ^ 30 := by norm_num

theorem remaining_lt {a b : Alloc α} {i j : Nat} (before : a.id = i) (after : b.id = j)
    (inside : j < 32 ^ s.layers)
    (level : b.l < 8) (later : i < j ∨ i = j ∧ b.l < a.l) : remaining s b < remaining s a := by
  rw [remaining, remaining, before, after, Int.toNat_natCast, Int.toNat_natCast]
  omega

theorem Seeks.restart {pa : Nat → Option Nat} (sound : Sound s' ids) (layers : s'.layers = s.layers)
    (slots : s'.slot = s.slot) (stock : s'.idFreeCnt = s.idFreeCnt) (low : start ≤ j)
    (high : j < 32 ^ s.layers)
    (positive : 0 < s.layers)
    (held : ∀ i, start ≤ i → i < j → i ∈ ids) : Seeks s ids start (restart s' j pa) j := by
  refine ⟨sound, layers, slots, rfl, low, high, held, ?_, ?_,
    sound.topLayer (layers.symm ▸ positive), ?_, ?_, Or.inl stock⟩
  · simp only [Ids.restart, layers]
    omega
  · simp only [Ids.restart, layers]
    rw [Nat.sub_add_cancel positive, Nat.div_eq_of_lt high]
  · intro k above below
    simp only [Ids.restart, layers] at above
    omega
  · simp only [Ids.restart, layers]
    exact Function.update_self _ _ _

variable {layer : Layer}

section

variable (seeks : Seeks s ids start a j)

include seeks

section

variable (found : a.idr.layerAt a.l a.p = some layer)

include found

theorem Seeks.held_layer (none : nextZero layer.bitmap (j / 32 ^ a.l % 32) = none) {i : Nat}
    (low : start ≤ i)
    (high : i < (j / 32 ^ (a.l + 1) + 1) * 32 ^ (a.l + 1)) : i ∈ ids := by
  rcases Nat.lt_or_ge i j with before | after
  · exact seeks.held i low before
  · refine seeks.sound.bits_held found (nextZero_none none) le_rfl ?_ ?_
    · rw [seeks.here, ← div_pow_eq]
      exact (Nat.div_mul_le_self j _).trans after
    · rw [seeks.here]
      rw [Nat.pow_succ] at high ⊢
      linarith

theorem Seeks.stock_eq (none : nextZero layer.bitmap (j / 32 ^ a.l % 32) = none) :
    a.idr.idFreeCnt = s.idFreeCnt := by
  refine seeks.stock.resolve_right fun fresh => ?_
  rw [fresh.1] at found
  cases found
  have set := nextZero_none none _ le_rfl (Nat.mod_lt _ (by norm_num))
  simp at set

theorem Seeks.climb (none : nextZero layer.bitmap (j / 32 ^ a.l % 32) = none) :
    ∃ outcome, climb a = .ok outcome ∧ Sought s ids start a outcome := by
  have capacity := capacity_le seeks.sound
  rw [seeks.layers] at capacity
  have level := seeks.level
  have layersLe := seeks.sound.layers_le
  rw [seeks.layers] at layersLe
  have stock := seeks.stock_eq found none
  -- The next id is the end of the layer.
  obtain ⟨next, isNext⟩ : ∃ next, next = (j / 32 ^ (a.l + 1) + 1) * 32 ^ (a.l + 1) := ⟨_, rfl⟩
  have bound : next ≤ 32 ^ s.layers := isNext ▸ place_le seeks.high level
  have split := Nat.div_add_mod j (32 ^ (a.l + 1))
  have nextEq : next = j - j % 32 ^ (a.l + 1) + 32 ^ (a.l + 1) := by
    rw [isNext, Nat.add_mul, Nat.one_mul, Nat.mul_comm]
    omega
  have later : j < next := by omega
  have heldNext : ∀ i, start ≤ i → i < next → i ∈ ids :=
    fun i low high => seeks.held_layer found none low (isNext ▸ high)
  have computed : int (a.id - a.id % 32 ^ (a.l + 1) + 32 ^ (a.l + 1)) = (next : Int) := by
    have exact' : a.id - a.id % 32 ^ (a.l + 1) + 32 ^ (a.l + 1) = (next : Int) := by
      rw [seeks.id, nextEq]
      push_cast [Nat.mod_le j (32 ^ (a.l + 1))]
      ring
    rw [exact', int_natCast (by omega)]
  unfold Ids.climb
  simp only [computed, seeks.layers]
  by_cases done : 32 ^ s.layers ≤ next
  · refine ⟨_, if_pos (by exact_mod_cast done), seeks.sound, seeks.slots, seeks.layers, stock, ?_,
      fun i low high => ?_⟩
    · exact_mod_cast le_antisymm bound done
    · exact heldNext i low (high.trans_le done)
  · rw [if_neg (by exact_mod_cast done)]
    have high : next < 32 ^ s.layers := Nat.lt_of_not_le done
    have higher : a.l + 1 < s.layers := by
      by_contra top
      have same : a.l + 1 = s.layers := by omega
      have zero : j / 32 ^ (a.l + 1) = 0 := Nat.div_eq_of_lt (same ▸ seeks.high)
      rw [zero, same] at isNext
      omega
    rw [seeks.path (a.l + 1) (Nat.lt_succ_self _) higher]
    dsimp only
    by_cases near : j / 32 ^ (a.l + 2) = next / 32 ^ (a.l + 2)
    · refine ⟨_, if_pos (by rw [seeks.id]; exact_mod_cast near), ⟨next, ?_⟩, ?_⟩
      · have up := Books.parent seeks.sound a.l a.p seeks.exists' (seeks.layers.symm ▸ higher)
        rw [seeks.here, Nat.div_div_eq_div_mul, ← Nat.pow_succ] at up
        refine ⟨seeks.sound, seeks.layers, seeks.slots, rfl,
            by have := seeks.low; omega, high, heldNext, higher, near, up,
          ?_, seeks.ends, Or.inl stock⟩
        intro k above below
        have above : a.l + 1 < k := above
        rw [seeks.path k (Nat.lt_of_succ_lt above) below,
          div_pow_of_le near (show a.l + 2 ≤ k + 1 by omega)]
      · exact remaining_lt seeks.id rfl high (by dsimp only; omega) (Or.inl later)
    · refine ⟨_, if_neg (by rw [seeks.id]; exact_mod_cast near), ⟨next, ?_⟩, ?_⟩
      · exact Seeks.restart seeks.sound seeks.layers seeks.slots stock
          (by have := seeks.low; omega) high (by omega) heldNext
      · refine remaining_lt seeks.id rfl high ?_ (Or.inl later)
        simp only [Ids.restart, seeks.layers]
        omega

theorem Seeks.advance {m : Nat} (zero : nextZero layer.bitmap (j / 32 ^ a.l % 32) = some m) :
    ∃ next : Nat, (if m ≠ digit a.id a.l then (a.id / 32 ^ a.l - digit a.id a.l + m) * 32 ^ a.l
        else a.id) = (next : Int) ∧
      j ≤ next ∧ next / 32 ^ a.l = 32 * a.p + m ∧ next / 32 ^ (a.l + 1) = a.p ∧
        next < 32 ^ s.layers ∧
      ∀ i, start ≤ i → i < next → i ∈ ids := by
  obtain ⟨low, high, _, bits⟩ := nextZero_some zero
  have place := div_pow_eq j a.l
  rw [← seeks.here] at place
  rw [seeks.id, digit_natCast]
  by_cases same : m = j / 32 ^ a.l % 32
  · refine ⟨j, if_neg (not_not.mpr same), le_rfl, by omega, seeks.here.symm, seeks.high, seeks.held⟩
  · refine ⟨(32 * a.p + m) * 32 ^ a.l, ?_, ?_, ?_, ?_, ?_, ?_⟩
    · rw [if_pos same]
      have placeInt : (j : Int) / 32 ^ a.l = 32 * a.p + (j / 32 ^ a.l % 32 : Nat) := by
        exact_mod_cast place
      rw [placeInt]
      push_cast
      ring
    · have end' := Nat.lt_div_mul_add (a := j) (show 0 < 32 ^ a.l by positivity)
      have step : j / 32 ^ a.l + 1 ≤ 32 * a.p + m := by omega
      have scaled := Nat.mul_le_mul_right (32 ^ a.l) step
      rw [Nat.add_mul, Nat.one_mul] at scaled
      omega
    · exact Nat.mul_div_cancel _ (by positivity)
    · rw [Nat.pow_succ, ← Nat.div_div_eq_div_mul, Nat.mul_div_cancel _ (by positivity)]
      omega
    · have bound := place_le seeks.high (show a.l + 1 ≤ s.layers from seeks.level)
      rw [← seeks.here, Nat.pow_succ] at bound
      have step : 32 * a.p + m + 1 ≤ (a.p + 1) * 32 := by omega
      have scaled := Nat.mul_le_mul_right (32 ^ a.l) step
      have positive : 0 < 32 ^ a.l := by positivity
      calc (32 * a.p + m) * 32 ^ a.l < (32 * a.p + m + 1) * 32 ^ a.l :=
        Nat.mul_lt_mul_of_pos_right (Nat.lt_succ_self _) positive
        _ ≤ (a.p + 1) * 32 * 32 ^ a.l := scaled
        _ = (a.p + 1) * (32 ^ a.l * 32) := by ring
        _ ≤ 32 ^ s.layers := bound
    · intro i from' before
      rcases Nat.lt_or_ge i j with early | late
      · exact seeks.held i from' early
      · refine seeks.sound.bits_held found bits high.le ?_ before
        rw [← place]
        exact (Nat.div_mul_le_self j _).trans late

theorem Seeks.descend {m next : Nat} (inside : m < 32) (zero : layer.bitmap.getLsbD m = false)
    (later : j ≤ next)
    (place : next / 32 ^ a.l = 32 * a.p + m) (above : next / 32 ^ (a.l + 1) = a.p)
    (high : next < 32 ^ s.layers)
    (held : ∀ i, start ≤ i → i < next → i ∈ ids) :
      Sought s ids start a (descend a layer next m) := by
  obtain ⟨s', current, l, p, pa⟩ := a
  have same := seeks.here.symm.trans above.symm
  have pathBefore : ∀ k, l < k → k < s.layers → pa k = some (j / 32 ^ (k + 1)) := seeks.path
  have path : ∀ k, l ≤ k → k < s.layers → Function.update pa l (some p) k =
      some (next / 32 ^ (k + 1)) := by
    intro k low below
    rcases Nat.eq_or_lt_of_le low with rfl | more
    · rw [Function.update_self, above]
    · rw [Function.update_of_ne (by omega), pathBefore k more below]
      exact congrArg some (div_pow_of_le same (by simp only; omega))
  have ends : Function.update pa l (some p) s.layers = none := by
    have level : l < s.layers := seeks.level
    rw [Function.update_of_ne (by omega)]
    exact seeks.ends
  cases l with
  | zero =>
    rw [pow_zero, Nat.div_one] at place
    have free : next ∉ ids := by
      intro member
      have bit := (Books.full seeks.sound 0 p layer found m inside).mpr
        ⟨by rw [filled, ← place]; exact member, not_false⟩
      rw [zero] at bit
      cases bit
    have leaf : (s'.layerAt 0 (next / 32)).isSome = true := by
      rw [show next / 32 = p from above]
      exact Option.isSome_iff_exists.mpr ⟨layer, found⟩
    exact ⟨next, rfl, seeks.sound, seeks.layers, seeks.slots, seeks.low.trans later, high, held,
        free, leaf,
      fun k below => path k (Nat.zero_le k) below, ends⟩
  | succ l =>
    have level : l + 1 < s.layers := seeks.level
    have layersLe := seeks.sound.layers_le
    have layers : s'.layers = s.layers := seeks.layers
    have low := seeks.low.trans later
    have here : 32 * p + m = next / 32 ^ (l + 1) := place.symm
    have lower : ∀ s'' : Idr α, ∀ pa', remaining s ⟨s'', (next : Int), l, 32 * p + m, pa'⟩ <
        remaining s ⟨s', current, l + 1, p, pa⟩ :=
      fun s'' pa' => remaining_lt seeks.id rfl high (by simp only at layersLe ⊢; omega)
        (by simp only; omega)
    unfold Ids.descend
    dsimp only
    split
    · rename_i child
      have stock : s'.idFreeCnt = s.idFreeCnt := by
        refine seeks.stock.resolve_right fun fresh => ?_
        have childless := (Sound.layer_eq seeks.sound fresh.1 rfl).2
        have listed : m ∈ children s' ids (l + 1) p :=
          Finset.mem_filter.mpr ⟨Finset.mem_range.mpr inside,
            Option.isSome_iff_exists.mpr ⟨_, child⟩⟩
        rw [show children s' ids (l + 1) p = ∅ from childless] at listed
        cases listed
      exact ⟨⟨next, seeks.sound, layers, seeks.slots, rfl, low, high, held, Nat.lt_of_succ_lt level,
          here,
        Option.isSome_iff_exists.mpr ⟨_, child⟩, fun k more => path k more, ends, Or.inl stock⟩,
          lower _ _⟩
    · rename_i absent
      split
      · rename_i out
        have none := getFromFreeList_none out
        refine ⟨seeks.sound, seeks.slots, ?_⟩
        rcases seeks.stock with same | ⟨_, less⟩
        · have same : s'.idFreeCnt = s.idFreeCnt := same
          omega
        · have less : s.idFreeCnt + (l + 1) + 1 ≤ s'.idFreeCnt + s.layers := less
          omega
      · rename_i s₁ taken
        obtain ⟨positive, rfl⟩ := getFromFreeList_some taken
        have up : (32 * p + m) / 32 = p := by omega
        have created :=
          (Sound.newLayer seeks.sound (up.symm ▸ found) absent (layers.symm ▸ level)).setFree
          (s'.idFreeCnt - 1)
        rw [up] at created
        have fresh : (((s'.setLayer l (32 * p + m) (some ⟨0, 0⟩)).setFree
            (s'.idFreeCnt - 1)).setLayer (l + 1) p
            (some ⟨layer.bitmap, layer.count + 1⟩)).layerAt l (32 * p + m) = some ⟨0, 0⟩ := by
          rw [layerAt_setLayer_of_ne _ _ fun both => (Nat.lt_succ_self l).ne both.1]
          exact layerAt_setLayer_self s' l (32 * p + m) (some ⟨0, 0⟩)
        refine ⟨⟨next, created, layers, seeks.slots, rfl, low, high, held, Nat.lt_of_succ_lt level,
            here, ?_,
          fun k more => path k more, ends, Or.inr ⟨fresh, ?_⟩⟩, lower _ _⟩
        · rw [fresh]
          rfl
        · show s.idFreeCnt + l + 1 ≤ s'.idFreeCnt - 1 + s.layers
          rcases seeks.stock with same | ⟨_, less⟩
          · have same : s'.idFreeCnt = s.idFreeCnt := same
            omega
          · have less : s.idFreeCnt + (l + 1) + 1 ≤ s'.idFreeCnt + s.layers := less
            omega

end

theorem Seeks.turn : ∃ outcome, subAllocTurn a = .ok outcome ∧ Sought s ids start a outcome := by
  obtain ⟨layer, found⟩ := Option.isSome_iff_exists.mp seeks.exists'
  have capacity := capacity_le seeks.sound
  rw [seeks.layers] at capacity
  unfold subAllocTurn
  rw [found]
  dsimp only
  cases zero : nextZero layer.bitmap (digit a.id a.l) with
  | none =>
    rw [seeks.id, digit_natCast] at zero
    exact seeks.climb found zero
  | some m =>
    have first := zero
    rw [seeks.id, digit_natCast] at first
    obtain ⟨next, computed, later, place, above, high, held⟩ := seeks.advance found first
    obtain ⟨_, inside, bit, _⟩ := nextZero_some first
    refine ⟨Ids.descend a layer next m, ?_,
      seeks.descend found inside bit later place above high held⟩
    dsimp only
    rw [computed, if_neg (by omega)]

end

/-- `sub_alloc` finds the least free id of the tree, if it does not run out of layers. -/
theorem subAlloc_returns (sound : Sound s ids) (high : start < 32 ^ s.layers)
    (positive : 0 < s.layers) :
    Returns (subAlloc s start) (Slots s ids start) := by
  refine Returns.loop (fun a => ∃ j, Seeks s ids start a j) (remaining s) ?_ ?_
  · rintro a ⟨j, seeks⟩
    obtain ⟨outcome, computed, sought⟩ := seeks.turn
    exact Returns.lift computed sought
  · exact ⟨start, Seeks.restart sound rfl rfl rfl le_rfl high positive fun i low below =>
      absurd below (Nat.not_lt.mpr low)⟩

end Search

/-! ## Growing and searching -/

/-- What `idr_get_empty_slot` has found. -/
def Emptied (s : Idr α) (ids : Finset Nat) (start : Nat) : Slotted α → Prop
  | .found s' id pa => ∃ j : Nat, id = j ∧ s'.slot = s.slot ∧ Spot s' ids start s' pa j
  | .needToGrow _ _ => False
  | .noMoreSpace _ => False
  | .noLayer s' => Sound s' ids ∧ s'.slot = s.slot ∧ s.idFreeCnt < 12

/-- The variables at `build_up`. -/
def Building (s : Idr α) (ids : Finset Nat) (start : Nat) (b : Idr α × Int) : Prop :=
  Sound b.1 ids ∧ b.1.slot = s.slot ∧ s.idFreeCnt + s.layers ≤ b.1.idFreeCnt + b.1.layers ∧
    ∃ j : Nat, b.2 = j ∧ start ≤ j ∧ j < 2 ^ 30 ∧ ∀ i, start ≤ i → i < j → i ∈ ids

theorem idrGetEmptySlot_returns (sound : Sound s ids)
    (free : ∃ i, start ≤ i ∧ i < 2 ^ 30 ∧ i ∉ ids) :
    Returns (idrGetEmptySlot s start) (Emptied s ids start) := by
  obtain ⟨least, startLe, leastLt, isFree⟩ := free
  refine Returns.loop (Building s ids start) (fun b => 2 ^ 30 - b.2.toNat) ?_ ?_
  · rintro ⟨b, id⟩ ⟨soundB, slots, stock, j, same, low, high, held⟩
    have same : id = j := same
    subst same
    have stock : s.idFreeCnt + s.layers ≤ b.idFreeCnt + b.layers := stock
    have built := buildUp_spec j soundB
    unfold emptySlotTurn
    dsimp only
    cases grows : buildUp b j with
    | none =>
      rw [grows] at built
      have out : b.idFreeCnt + b.layers < 6 := built
      exact Returns.pure ⟨soundB, slots, by omega⟩
    | some grown =>
      rw [grows] at built
      obtain ⟨soundG, covers, positive, slotsG, stockG⟩ := built
      have inside : j < 32 ^ grown.layers := by
        rcases covers with less | six
        · exact less
        · rw [six]
          omega
      refine Returns.bind (subAlloc_returns soundG inside positive) ?_
      intro slotted result
      cases slotted with
      | found s' id pa =>
        obtain ⟨found, same, spot⟩ := result
        refine Returns.pure ⟨found, same, spot.slots.trans (slotsG.trans slots), ?_⟩
        refine ⟨spot.sound, rfl, rfl, low.trans spot.low, spot.layers.symm ▸ spot.high, ?_,
            spot.free, spot.leaf,
          spot.layers.symm ▸ spot.path, spot.layers.symm ▸ spot.ends⟩
        intro i from' below
        rcases Nat.lt_or_ge i j with early | late
        · exact held i from' early
        · exact spot.held i late below
      | needToGrow s' id =>
        obtain ⟨soundS, slotsS, layersS, stockS, same, all⟩ := result
        have heldAll : ∀ i, start ≤ i → i < 32 ^ grown.layers → i ∈ ids := by
          intro i from' below
          rcases Nat.lt_or_ge i j with early | late
          · exact held i from' early
          · exact all i late below
        -- The free id is not in this tree, so that a larger one is possible.
        have beyond : 32 ^ grown.layers ≤ least := by
          by_contra within
          exact isFree (heldAll least startLe (Nat.lt_of_not_le within))
        refine Returns.pure ⟨⟨soundS, slotsS.trans (slotsG.trans slots), ?_, _, same,
          by omega, by omega, heldAll⟩, ?_⟩
        · dsimp only
          omega
        · simp only [same, Int.toNat_natCast]
          omega
      | noMoreSpace s' => exact result.elim
      | noLayer s' =>
        obtain ⟨soundS, slotsS, few⟩ := result
        have layersLe := soundG.layers_le
        exact Returns.pure ⟨soundS, slotsS.trans (slotsG.trans slots), by omega⟩
  · exact ⟨sound, rfl, le_rfl, start, rfl, le_rfl,
      by omega, fun i low below => absurd below (Nat.not_lt.mpr low)⟩

/-! ## Installing -/

section Install

variable {j : Nat}

theorem card_children_insert (free : j ∉ ids) :
    (children s (insert j ids) 0 (j / 32)).card = (children s ids 0 (j / 32)).card + 1 := by
  have new : children s (insert j ids) 0 (j / 32) =
      insert (j % 32) (children s ids 0 (j / 32)) := by
    ext m
    simp only [children, present, Finset.mem_filter, Finset.mem_range, Finset.mem_insert,
      decide_eq_true_eq]
    constructor
    · rintro ⟨low, same | member⟩
      · left
        omega
      · exact Or.inr ⟨low, member⟩
    · rintro (same | ⟨low, member⟩)
      · exact ⟨by omega, Or.inl (by omega)⟩
      · exact ⟨low, Or.inr member⟩
  have out : j % 32 ∉ children s ids 0 (j / 32) := by
    simp only [children, present, Finset.mem_filter, decide_eq_true_eq, not_and]
    rw [Nat.div_add_mod]
    exact fun _ => free
  rw [new, Finset.card_insert_of_notMem out]

theorem children_insert_of_ne {k r : Nat} (apart : ¬ (k = 0 ∧ r = j / 32)) :
    children s (insert j ids) k r = children s ids k r := by
  unfold children
  refine Finset.filter_congr fun m inRange => ?_
  have low := Finset.mem_range.mp inRange
  cases k with
  | zero =>
    have other : 32 * r + m ≠ j := fun same => apart ⟨rfl, by omega⟩
    simp [present, other]
  | succ k => rfl

/-- An id more, of which neither the bit nor the count of its leaf knows. -/
theorem Sound.insert (sound : Sound s ids) (free : j ∉ ids)
    (leaf : (s.layerAt 0 (j / 32)).isSome = true)
    (ptr : Option α) :
    Books (s.setSlot j ptr) (insert j ids) (fun k c => k = 0 ∧ c = j)
      fun k r => if k = 0 ∧ r = j / 32 then -1 else 0 where
  top := Books.top (s := s) sound
  inside := Books.inside (s := s) sound
  parent := Books.parent (s := s) sound
  full k r layer read m inside := by
    rw [Books.full sound k r layer read m inside]
    cases k with
    | zero =>
      simp only [filled, Finset.mem_insert, true_and]
      constructor
      · rintro ⟨member, _⟩
        exact ⟨Or.inr member, fun same => free (same ▸ member)⟩
      · rintro ⟨same | member, other⟩
        · exact absurd same other
        · exact ⟨member, not_false⟩
    | succ k =>
      simp only [Nat.add_eq_zero_iff, one_ne_zero, and_false, false_and]
      exact Iff.rfl
  count k r layer read := by
    rw [Books.count sound k r layer read]
    by_cases here : k = 0 ∧ r = j / 32
    · obtain ⟨rfl, rfl⟩ := here
      have more := card_children_insert (s := s.setSlot j ptr) free
      rw [more, if_pos ⟨rfl, rfl⟩]
      push_cast
      have same : children (s.setSlot j ptr) ids 0 (j / 32) = children s ids 0 (j / 32) := rfl
      rw [same]
      ring
    · rw [children_insert_of_ne here, if_neg here]
      rfl
  leaf id member := by
    rcases Finset.mem_insert.mp member with rfl | member
    · exact leaf
    · exact Books.leaf sound id member
  slots id pointer := by
    by_cases same : id = j
    · exact Finset.mem_insert.mpr (Or.inl same)
    · have other : Function.update s.slot j ptr id ≠ none := pointer
      rw [Function.update_of_ne same] at other
      exact Finset.mem_insert.mpr (Or.inr (Books.slots sound id other))

/-- `idr_mark_full` sets the bits that are late. -/
theorem markFull_spec {turns : Nat} {pa : Nat → Option Nat} {s : Idr α}
    (books : Books s ids (fun k c => k = l ∧ c = j / 32 ^ l) fun _ _ => 0) (member : j ∈ ids)
    (full : filled s ids l (j / 32 ^ l)) (enough : s.layers ≤ l + turns)
    (path : ∀ k, k < s.layers → pa k = some (j / 32 ^ (k + 1))) (ends : pa s.layers = none)
    (low : l ≤ s.layers) :
    Sound (markFull pa j turns l s) ids ∧ (markFull pa j turns l s).slot = s.slot := by
  induction turns generalizing l s with
  | zero =>
    obtain rfl : l = s.layers := by omega
    exact ⟨books.congr_late fun _ _ below => ⟨False.elim, fun late => absurd late.1 below.ne⟩, rfl⟩
  | succ turns ih =>
    unfold markFull
    rcases Nat.eq_or_lt_of_le low with same | below
    · subst same
      rw [ends]
      exact ⟨books.congr_late fun _ _ below => ⟨False.elim, fun late => absurd late.1 below.ne⟩,
        rfl⟩
    · rw [path l below]
      obtain ⟨p, found⟩ := Option.isSome_iff_exists.mp (books.path member below)
      dsimp only
      rw [found]
      dsimp only
      rw [digit_natCast]
      have place := div_pow_eq j l
      have inside : j / 32 ^ l % 32 < 32 := Nat.mod_lt _ (by norm_num)
      have unset : p.bitmap.getLsbD (j / 32 ^ l % 32) = false := by
        rw [Bool.eq_false_iff, Ne, books.full l _ p found _ inside, ← place]
        exact fun both => both.2 ⟨rfl, rfl⟩
      have notFull : p.bitmap ≠ IDR_FULL := by
        intro all
        rw [(eq_full_iff _).mp all _ inside] at unset
        cases unset
      have bits : ∀ m < 32, (setBit p.bitmap (j / 32 ^ l % 32)).getLsbD m = true ↔
          filled s ids l (32 * (j / 32 ^ (l + 1)) + m) ∧ ¬ False := by
        intro m low
        rw [getLsbD_setBit inside, Bool.or_eq_true, decide_eq_true_eq, books.full l _ p found m low]
        constructor
        · rintro (⟨filled', _⟩ | rfl)
          · exact ⟨filled', not_false⟩
          · exact ⟨place ▸ full, not_false⟩
        · rintro ⟨filled', _⟩
          by_cases here : m = j / 32 ^ l % 32
          · exact Or.inr here
          · exact Or.inl ⟨filled', fun both => here (by omega)⟩
      have counted := books.count l _ p found
      split
      · rename_i marked
        refine ih (s :=
            s.setLayer l _ (some ⟨setBit p.bitmap (j / 32 ^ l % 32), p.count⟩)) ?_ ?_ ?_ path
          ends below
        · refine books.setLayer found (fun m low => ?_) counted ?_ ?_ fun _ _ _ => rfl
          · rw [bits m low]
            exact and_congr_right fun _ => not_congr ⟨False.elim, fun late => by omega⟩
          · simp [notFull]
          · intro k c apart up
            exact ⟨fun late => absurd late up, fun late =>
              absurd ⟨late.1, by rw [late.2]; omega⟩ apart⟩
        · exact filled_setLayer_self.mpr marked
        · show s.layers ≤ l + 1 + turns
          omega
      · rename_i unmarked
        refine ⟨books.setLayer found bits counted ?_ ?_ fun _ _ _ => rfl, rfl⟩
        · simp [unmarked, notFull]
        · intro k c apart _
          exact ⟨False.elim, fun late => apart ⟨late.1, by rw [late.2]; omega⟩⟩

theorem install_spec {pa : Nat → Option Nat} (spot : Spot s ids start s pa j) (ptr : Option α) :
    Sound (install s pa j ptr) (insert j ids) ∧ (install s pa j ptr).slot =
      Function.update s.slot j ptr := by
  obtain ⟨leaf, found⟩ := Option.isSome_iff_exists.mp spot.leaf
  have inside := (Books.inside spot.sound 0 _ spot.leaf).1
  have layersLe := spot.sound.layers_le
  have first : pa 0 = some (j / 32) := spot.path 0 inside
  unfold install
  rw [first]
  dsimp only
  rw [found]
  dsimp only
  rw [digit_natCast, pow_zero, Nat.div_one, Nat.div_add_mod]
  have added := spot.sound.insert spot.free spot.leaf ptr
  have read : (s.setSlot j ptr).layerAt 0 (j / 32) = some leaf := found
  have counted := added.count 0 _ leaf read
  rw [if_pos ⟨rfl, rfl⟩] at counted
  have books : Books ((s.setSlot j ptr).setLayer 0 (j / 32) (some ⟨leaf.bitmap, leaf.count + 1⟩))
      (insert j ids)
      (fun k c => k = 0 ∧ c = j) fun _ _ => 0 :=
    added.setLayer read (fun m low => added.full 0 _ leaf read m low) (by dsimp only; omega) Iff.rfl
      (fun _ _ _ _ => Iff.rfl) fun k r other => (if_neg other).symm
  refine markFull_spec (l := 0) (by simpa only [pow_zero, Nat.div_one] using books)
      (Finset.mem_insert_self j ids) ?_ ?_
    spot.path spot.ends (Nat.zero_le _)
  · rw [pow_zero, Nat.div_one]
    exact Finset.mem_insert_self j ids
  · show s.layers ≤ 0 + MAX_LEVEL
    simp only [MAX_LEVEL]
    omega

end Install

/-! ## `idr_get_new_above` -/

/-- What `idr_get_new_above` has done: it has stored the pointer under the least free id from the
start on, or the reserve of layers was small. -/
def Allocated (s : Idr α) (ids : Finset Nat) (start : Nat) (ptr : Option α) (result : Got × Idr α) :
    Prop :=
  match result.1 with
  | .got id => ∃ j : Nat, id = j ∧ start ≤ j ∧ j ∉ ids ∧ (∀ i, start ≤ i → i < j → i ∈ ids) ∧
      Sound result.2 (insert j ids) ∧ result.2.slot = Function.update s.slot j ptr
  | .eagain => Sound result.2 ids ∧ result.2.slot = s.slot ∧ s.idFreeCnt < 12
  | .enospc => False

theorem idrGetNewAbove_returns (sound : Sound s ids) (ptr : Option α)
    (free : ∃ i, start ≤ i ∧ i < 2 ^ 30 ∧ i ∉ ids) :
    Returns (idrGetNewAbove s ptr start) (Allocated s ids start ptr) := by
  unfold idrGetNewAbove
  refine Returns.bind (idrGetEmptySlot_returns sound free) ?_
  intro slotted result
  cases slotted with
  | found s' id pa =>
    obtain ⟨j, rfl, slots, spot⟩ := result
    obtain ⟨installed, stored⟩ := install_spec spot ptr
    exact Returns.pure ⟨j, rfl, spot.low, spot.free, spot.held, installed, slots ▸ stored⟩
  | needToGrow s' id => exact result.elim
  | noMoreSpace s' => exact result.elim
  | noLayer s' => exact Returns.pure result

end RouterKernel.Ids
