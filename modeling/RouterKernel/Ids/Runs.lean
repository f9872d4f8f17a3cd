import RouterKernel.Ids.Allocation
import RouterKernel.Ids.Removal

/-!
Contract: runs of the operations of lib/idr.c.

Owns:
- `Table`, the map that a caller takes an IDR for, and `Reachable`, the trees of runs in which
  every allocation finds a free id below the capacity of the largest tree;
- `idr_get_new_above` stores a pointer where `idr_find` finds it, and the trees refine the tables;
- which calls of `idr_remove` for ids that are not allocated do nothing.

The largest tree has `MAX_LEVEL - 1` layers of five bits, and so less ids than the documented
range: the ids from `2 ^ 30` on share their slots with smaller ones, and `idr_find` does not find
them.  `sub_remove` does not compare its id with the capacity either.
-/

namespace RouterKernel.Ids

open RouterKernel.Foundation

variable {α : Type}

structure Table (α : Type) where
  ids : Finset Nat
  ptr : Nat → Option α

namespace Table

/-- After `idr_get_new_above` has returned. -/
def got (t : Table α) (ptr : Option α) : Got → Table α
  | .got id => ⟨insert id.toNat t.ids, Function.update t.ptr id.toNat ptr⟩
  | .eagain => t
  | .enospc => t

/-- After `idr_replace`. -/
def replaced (t : Table α) (ptr : Option α) (id : Int) : Table α :=
  if maskId id ∈ t.ids then ⟨t.ids, Function.update t.ptr (maskId id) ptr⟩ else t

/-- After `idr_remove` of an id that the tree takes for `target`. -/
def removed (t : Table α) (target : Nat) : Table α :=
  ⟨t.ids.erase target, Function.update t.ptr target none⟩

def Holds (t : Table α) (id : Int) : Prop := 0 ≤ id ∧ id.toNat ∈ t.ids

/-- There is an id left for an allocation from `start` on. -/
def Spare (t : Table α) (start : Nat) : Prop := ∃ i, start ≤ i ∧ i < 2 ^ 30 ∧ i ∉ t.ids

end Table

/-- The trees and tables of runs whose allocations all have a spare id. -/
inductive Reachable : Idr α → Table α → Prop
  | init : Reachable Idr.init ⟨∅, fun _ => none⟩
  | preGet {s : Idr α} {t : Table α} (given : Nat) (before : Reachable s t) :
      Reachable (idrPreGet s given) t
  | getNewAbove {s s' : Idr α} {t : Table α} {start : Nat} {ptr : Option α} {result : Got}
      (before : Reachable s t) (spare : t.Spare start)
      (returned : Returns (idrGetNewAbove s ptr start) (· = (result, s'))) :
      Reachable s' (t.got ptr result)
  | replace {s : Idr α} {t : Table α} (ptr : Option α) (id : Int) (before : Reachable s t) :
      Reachable (idrReplace s ptr id).2 (t.replaced ptr id)
  | remove {s : Idr α} {t : Table α} (id : Int) (before : Reachable s t) :
      Reachable (idrRemove s id) (t.removed (target s id))

section Reached

variable {s : Idr α} {t : Table α}

theorem Sound.target_eq (sound : Sound s t.ids) {id : Nat} (member : id ∈ t.ids) :
    target s id = id := by
  have inside := Books.lt_capacity sound member
  have capacity := capacity_le sound
  have mask : maskId id = id := by
    rw [maskId]
    omega
  rw [target, mask, Nat.mod_eq_of_lt inside]

theorem Reachable.sound (reachable : Reachable s t) : Sound s t.ids ∧ s.slot = t.ptr := by
  induction reachable with
  | init => exact ⟨Sound.empty (s := Idr.init) (fun _ _ => rfl) fun _ => rfl, rfl⟩
  | preGet given _ ih => exact ⟨ih.1.setFree _, ih.2⟩
  | getNewAbove _ spare returned ih =>
    rename_i s s' t start ptr result _
    have allocated := (idrGetNewAbove_returns ih.1 ptr spare).post_of_eq returned
    cases result with
    | got id =>
      obtain ⟨j, rfl, _, _, _, sound, slots⟩ := allocated
      exact ⟨sound, slots.trans (by rw [ih.2]; rfl)⟩
    | eagain => exact ⟨allocated.1, allocated.2.1.trans ih.2⟩
    | enospc => exact allocated.elim
  | replace ptr id _ ih =>
    rename_i s t _
    obtain ⟨sound, slots⟩ := ih
    obtain ⟨there, missing⟩ := sound.idrReplace_spec ptr id
    unfold Table.replaced
    split
    · rename_i member
      rw [there member]
      exact ⟨sound.setSlot member ptr, by rw [← slots]; rfl⟩
    · rename_i free
      rw [missing free]
      exact ⟨sound, slots⟩
  | remove id _ ih =>
    rename_i s t _
    have spec := idrRemove_spec ih.1 id
    rw [ih.2] at spec
    exact spec

theorem maskId_of_lt {id : Nat} (low : id < 2 ^ 31) : maskId id = id := by
  rw [maskId]
  omega

/-- `idr_get_new_above` gives a new id that is not below the start if the reserve of layers is
filled; `idr_find` finds the pointer there and finds the same as before at the other allocated
ids. -/
theorem getNewAbove_stores (reachable : Reachable s t) (ptr : Option α) {start : Nat}
    (spare : t.Spare start) :
    Returns (idrGetNewAbove s ptr start) fun result =>
      (12 ≤ s.idFreeCnt → ∃ id, result.1 = .got id) ∧
        ∀ id, result.1 = .got id → start ≤ id ∧ ¬ t.Holds id ∧ idrFind result.2 id = ptr ∧
          ∀ other, t.Holds other → idrFind result.2 other = idrFind s other := by
  obtain ⟨sound, slots⟩ := reachable.sound
  refine (idrGetNewAbove_returns sound ptr spare).mono fun result allocated => ?_
  obtain ⟨got, s'⟩ := result
  refine ⟨fun stock => ?_, ?_⟩
  · cases got with
    | got id => exact ⟨id, rfl⟩
    | eagain => exact absurd allocated.2.2 (Nat.not_lt.mpr stock)
    | enospc => exact allocated.elim
  rintro id rfl
  obtain ⟨j, rfl, low, free, _, soundAfter, stored⟩ := allocated
  have stored : s'.slot = Function.update s.slot j ptr := stored
  have inside := (Books.lt_capacity soundAfter (Finset.mem_insert_self j t.ids)).trans_le
    (capacity_le soundAfter)
  refine ⟨by exact_mod_cast low, fun holds => free holds.2, ?_, ?_⟩
  · rw [soundAfter.idrFind_eq, maskId_of_lt (by omega), stored, Function.update_self]
  · rintro other ⟨positive, member⟩
    obtain ⟨i, rfl⟩ := Int.eq_ofNat_of_zero_le positive
    have member : i ∈ t.ids := member
    have bound := (Books.lt_capacity sound member).trans_le (capacity_le sound)
    have different : i ≠ j := fun same => free (same ▸ member)
    rw [soundAfter.idrFind_eq, sound.idrFind_eq, maskId_of_lt (by omega), stored,
      Function.update_of_ne different]

end Reached

/-- The last id of the largest tree. -/
theorem getNewAbove_stores_last : Table.Spare (⟨∅, fun _ => none⟩ : Table Unit) (2 ^ 30 - 1) ∧
      Returns (idrGetNewAbove (idrPreGet Idr.init 14) (some ()) (2 ^ 30 - 1 : Nat)) fun result =>
        (12 ≤ (idrPreGet Idr.init 14 : Idr Unit).idFreeCnt → ∃ id, result.1 = .got id) ∧
          ∀ id, result.1 = .got id → (2 ^ 30 - 1 : Nat) ≤ id ∧
              ¬ Table.Holds (⟨∅, fun _ => none⟩ : Table Unit) id ∧
            idrFind result.2 id = some () ∧
            ∀ other, Table.Holds (⟨∅, fun _ => none⟩ : Table Unit) other →
              idrFind result.2 other = idrFind (idrPreGet Idr.init 14) other :=
  have spare : Table.Spare (⟨∅, fun _ => none⟩ : Table Unit) (2 ^ 30 - 1) :=
    ⟨2 ^ 30 - 1, le_rfl, by norm_num, Finset.notMem_empty _⟩
  ⟨spare, getNewAbove_stores (.preGet 14 .init) (some ()) spare⟩

/-- The id `2 ^ 30` is given out, and `idr_find` does not find its pointer. -/
theorem getNewAbove_loses_pointer :
    Reachable (idrPreGet Idr.init 14) (⟨∅, fun _ => none⟩ : Table Unit) ∧
      (fun result => (result.1, idrFind result.2 (2 ^ 30))) <$>
        idrGetNewAbove (idrPreGet Idr.init 14) (some ()) (2 ^ 30) 20 = pure (.got (2 ^ 30), none) :=
  ⟨.preGet 14 .init, by rfl⟩

/-! ## A run -/

/-- The tree after a call of `idr_get_new_above` for which 20 turns are enough. -/
def allocated (s : Idr Nat) (ptr start : Nat) : Idr Nat :=
  match idrGetNewAbove s (some ptr) start 20 with
  | some (.ok result) => result.2
  | _ => s

/-- Three allocations from 0, 0 and 40 on, before the first id is removed. -/
def sampleBefore : Idr Nat := allocated (allocated (allocated (idrPreGet Idr.init 14) 7 0) 8 0) 9 40

def sample : Idr Nat := idrRemove sampleBefore 0

def sampleTable : Table Nat :=
  ((((⟨∅, fun _ => none⟩ : Table Nat).got (some 7) (.got 0)).got (some 8) (.got 1)).got (some 9)
    (.got 40)).removed 0

theorem reachable_sample : Reachable sample sampleTable := by
  have first : Reachable (allocated (idrPreGet Idr.init 14) 7 0) _ :=
    .getNewAbove (.preGet 14 .init) ⟨0, le_rfl, by norm_num, by decide⟩
      ⟨20, (.got 0, _), fun more enough =>
        by obtain ⟨more, rfl⟩ := Nat.exists_eq_add_of_le' enough; rfl, rfl⟩
  have second : Reachable (allocated (allocated (idrPreGet Idr.init 14) 7 0) 8 0) _ :=
    .getNewAbove first ⟨1, Nat.zero_le 1, by norm_num, by decide⟩
      ⟨20, (.got 1, _), fun more enough =>
        by obtain ⟨more, rfl⟩ := Nat.exists_eq_add_of_le' enough; rfl, rfl⟩
  have third : Reachable sampleBefore _ :=
    .getNewAbove second ⟨40, le_rfl, by norm_num, by decide⟩
      ⟨20, (.got 40, _), fun more enough =>
        by obtain ⟨more, rfl⟩ := Nat.exists_eq_add_of_le' enough; rfl, rfl⟩
  exact .remove 0 third

/-! ## The map -/

/-- The slots of a layer with a pointer that is not NULL. -/
def nonNull (s : Idr α) : Nat → Nat → Finset Nat
  | 0, q => (Finset.range 32).filter fun m => (s.slot (32 * q + m)).isSome
  | l + 1, q => (Finset.range 32).filter fun m => (s.layerAt l (32 * q + m)).isSome

section Refinement

variable {s : Idr α} {t : Table α}

theorem nonNull_eq_children {ids : Finset Nat} (sound : Sound s ids)
    (stored : ∀ id ∈ ids, s.slot id ≠ none)
    (l q : Nat) : nonNull s l q = children s ids l q := by
  cases l with
  | zero =>
    refine Finset.filter_congr fun m _ => ?_
    rw [present, decide_eq_true_eq, Option.isSome_iff_ne_none]
    exact ⟨Books.slots sound _, stored _⟩
  | succ l => rfl

/-- The tree of a run is that of its table: the counts are those of the slots that are not NULL,
unless the table has NULL pointers; an allocated id is removed as what it is; `idr_find` finds the
pointers of the table; and `idr_get_new_above` gives out the least free id if the reserve of layers
is filled. -/
theorem reachable_refines (reachable : Reachable s t) :
    Sound s t.ids ∧
      ((∀ id ∈ t.ids, t.ptr id ≠ none) →
        ∀ l q layer, s.layerAt l q = some layer → layer.count = (nonNull s l q).card) ∧
      (∀ id ∈ t.ids, target s (id : Nat) = id ∧ idrFind s (id : Nat) = t.ptr id) ∧
      (∀ id : Nat, id < 2 ^ 31 → id ∉ t.ids → idrFind s id = none) ∧
      ∀ ptr start, t.Spare start → 12 ≤ s.idFreeCnt →
          Returns (idrGetNewAbove s ptr start) fun result =>
          ∃ id : Nat, IsLeast {i | start ≤ i ∧ i ∉ t.ids} id ∧ result.1 = .got id := by
  obtain ⟨sound, slots⟩ := reachable.sound
  refine ⟨sound, fun stored l q layer found => ?_, fun id member => ⟨sound.target_eq member, ?_⟩,
      fun id low free => ?_,
    fun ptr start spare stock => ?_⟩
  · rw [← slots] at stored
    rw [Books.count sound l q layer found, nonNull_eq_children sound stored, add_zero]
  · have inside := (Books.lt_capacity sound member).trans_le (capacity_le sound)
    rw [sound.idrFind_eq, maskId_of_lt (by omega), slots]
  · rw [sound.idrFind_eq, maskId_of_lt low]
    by_contra pointer
    exact free (Books.slots sound id pointer)
  · refine (idrGetNewAbove_returns sound ptr spare).mono fun result allocated => ?_
    obtain ⟨got, s'⟩ := result
    cases got with
    | got id =>
      obtain ⟨j, rfl, from', free, held, _⟩ := allocated
      refine ⟨j, ⟨⟨from', free⟩, fun i both => ?_⟩, rfl⟩
      by_contra earlier
      exact both.2 (held i both.1 (Nat.lt_of_not_le earlier))
    | eagain => exact absurd allocated.2.2 (Nat.not_lt.mpr stock)
    | enospc => exact allocated.elim

end Refinement

/-- The tree of three allocations and a removal. -/
theorem reachable_refines_sample : sampleTable.ids = {1, 40} ∧ Sound sample sampleTable.ids ∧
      ((∀ id ∈ sampleTable.ids, sampleTable.ptr id ≠ none) →
        ∀ l q layer, sample.layerAt l q = some layer → layer.count = (nonNull sample l q).card) ∧
      (∀ id ∈ sampleTable.ids, target sample (id : Nat) = id ∧ idrFind sample (id : Nat) =
        sampleTable.ptr id) ∧
      (∀ id : Nat, id < 2 ^ 31 → id ∉ sampleTable.ids → idrFind sample id = none) ∧
      ∀ ptr start, sampleTable.Spare start → 12 ≤ sample.idFreeCnt →
        Returns (idrGetNewAbove sample ptr start) fun result =>
          ∃ id : Nat, IsLeast {i | start ≤ i ∧ i ∉ sampleTable.ids} id ∧ result.1 = .got id :=
  ⟨by decide, reachable_refines reachable_sample⟩

/-- The second allocation from `2 ^ 30 - 1` on gives out `2 ^ 30` and stores the pointer for id
0. -/
theorem second_allocation_aliases :
    (do let first ← idrGetNewAbove (idrPreGet Idr.init 14) (some 1) (2 ^ 30 - 1) 20
        let second ← idrGetNewAbove first.2 (some 2) (2 ^ 30 - 1) 20
        return (first.1, second.1, idrFind second.2 (2 ^ 30), idrFind second.2 0)) =
      (pure (.got (2 ^ 30 - 1), .got (2 ^ 30), none, some 2) :
        Attempt Fault (Got × Got × Option Nat × Option Nat)) := by
  rfl

/-! ## Removing what is not there -/

/-- The top layer has its first child only. -/
def Superfluous (s : Idr α) : Prop :=
  ∃ l p, s.top = some (l + 1) ∧ s.layerAt (l + 1) 0 = some p ∧ p.count = 1 ∧
    (s.layerAt l 0).isSome = true

section Unallocated

variable {s : Idr α} {t : Table α}

theorem clearBit_of_clear {bitmap : U32} {m : Nat} (inside : m < 32)
    (clear : bitmap.getLsbD m = false) :
    clearBit bitmap m = bitmap := by
  refine BitVec.eq_of_getLsbD_eq fun other _ => ?_
  rw [getLsbD_clearBit inside]
  by_cases same : other = m
  · rw [same, clear, Bool.false_and]
  · rw [decide_eq_false same, Bool.not_false, Bool.and_true]

/-- On the way to an id that is not allocated no bit is set, so that none is cleared. -/
theorem subRemove_of_free {ids : Finset Nat} (sound : Sound s ids) {id given l : Nat}
    (aliased : id = given % 32 ^ s.layers) (free : id ∉ ids) (low : l < s.layers)
    (path : List (Nat × Nat)) :
    subRemove given l (id / 32 ^ (l + 1)) path s = s := by
  have clear {l : Nat} {layer : Layer} (low : l < s.layers)
      (found : s.layerAt l (id / 32 ^ (l + 1)) = some layer) :
      layer.bitmap.getLsbD (given / 32 ^ l % 32) = false := by
    rw [← digit_mod given low, ← aliased, ← Bool.not_eq_true]
    intro set
    have full := ((Books.full sound l _ layer found _ (Nat.mod_lt _ (by norm_num))).mp set).1
    rw [← div_pow_eq] at full
    exact free ((sound.filled_iff low.le).mp full id rfl)
  induction l generalizing path with
  | zero =>
    unfold subRemove
    split
    · rfl
    · rename_i leaf found
      have unset := clear low found
      rw [pow_zero, Nat.div_one] at unset
      rw [unset, if_neg Bool.false_ne_true]
  | succ l ih =>
    unfold subRemove
    split
    · rfl
    · rename_i p found
      have place : 32 * (id / 32 ^ (l + 1 + 1)) + digit given (l + 1) = id / 32 ^ (l + 1) := by
        rw [digit_natCast, ← digit_mod given low, ← aliased, ← div_pow_eq]
      have unset := clear low found
      rw [← digit_natCast] at unset
      rw [clearBit_of_clear (digit_natCast given (l + 1) ▸ Nat.mod_lt _ (by norm_num)) unset,
        show (⟨p.bitmap, p.count⟩ : Layer) = p from rfl, setLayer_of_eq found, place]
      exact ih (Nat.lt_of_succ_lt low) _

theorem shrink_eq_self (needed : ¬ Superfluous s) : shrink s = s := by
  unfold shrink
  split
  · rename_i l top
    split
    · rename_i p found
      exact if_neg fun sole => needed ⟨l, p, top, found, sole.1, sole.2.2⟩
    · rfl
  · rfl

theorem shrink_layers {ids : Finset Nat} (sound : Sound s ids) (superfluous : Superfluous s) :
    (shrink s).layers < s.layers := by
  obtain ⟨l, p, top, found, one, child⟩ := superfluous
  have layers : s.layers = l + 2 := by
    rcases Books.top sound with ⟨none, _⟩ | ⟨h, same, layers, _, _⟩
    · cases top.symm.trans none
    · rw [layers, ← Option.some.inj (top.symm.trans same)]
  have shrunk : shrink s = (s.setLayer (l + 1) 0 none).setTop (some l) (s.layers - 1) := by
    unfold shrink
    rw [top]
    dsimp only
    rw [found]
    exact if_pos ⟨one, by omega, child⟩
  rw [shrunk]
  exact Nat.sub_one_lt (by omega)

theorem idrRemove_of_free {ids : Finset Nat} (sound : Sound s ids) {id : Int}
    (free : target s id ∉ ids) :
    idrRemove s id = (shrink s).setFree (min (shrink s).idFreeCnt (IDR_FREE_MAX - 1)) := by
  unfold idrRemove
  rcases Books.top sound with ⟨top, _⟩ | ⟨h, top, layers, _, _⟩
  · rw [top]
  · have inside : target s id < 32 ^ s.layers := Nat.mod_lt _ (by positivity)
    have kept := subRemove_of_free sound (show target s id = maskId id % 32 ^ s.layers
        from rfl) free
      (show s.layers - 1 < s.layers by omega) []
    rw [Nat.sub_add_cancel (by omega), Nat.div_eq_of_lt inside] at kept
    rw [top]
    dsimp only
    rw [kept]

end Unallocated

end RouterKernel.Ids
