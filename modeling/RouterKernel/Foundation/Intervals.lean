import Mathlib.Tactic

/-!
Contract: lists of half-open ranges of natural numbers.

Owns:
- `Spaced`, non-empty ranges in order, without overlap, between two bounds;
- `Tiles`, ranges that follow each other without a gap;
- the counting law: spaced ranges whose sizes add up to the whole tile it;
- the content law: the blocks of tiling ranges, one after the other, put each
  element at its own position.

The ranges are any type with a start and a size.
-/

namespace RouterKernel.Foundation

variable {τ α : Type} (start size : τ → Nat)

/-- Non-empty ranges in order, disjoint, from `low` on and up to `high`. -/
def Spaced : (low : Nat) → List τ → (high : Nat) → Prop
  | low, [], high => low ≤ high
  | low, range :: rest, high =>
    low ≤ start range ∧ 0 < size range ∧ Spaced (start range + size range) rest high

/-- Ranges that cover everything from `low` to `high` one after the other. -/
def Tiles : (low : Nat) → List τ → (high : Nat) → Prop
  | low, [], high => low = high
  | low, range :: rest, high =>
    start range = low ∧ Tiles (start range + size range) rest high

def totalSize (ranges : List τ) : Nat := (ranges.map size).sum

/-- Where the last range ends, or `low` when there is none. -/
def stopOf : (low : Nat) → List τ → Nat
  | low, [] => low
  | _, range :: rest => stopOf (start range + size range) rest

@[simp] theorem totalSize_cons (range : τ) (rest : List τ) :
    totalSize size (range :: rest) = size range + totalSize size rest := by
  simp [totalSize]

@[simp] theorem totalSize_append (left right : List τ) :
    totalSize size (left ++ right) = totalSize size left + totalSize size right := by
  simp [totalSize]

variable {start size} {low high : Nat} {ranges left right : List τ}

theorem Spaced.low_mono {lower : Nat} (spaced : Spaced start size low ranges high)
    (below : lower ≤ low) : Spaced start size lower ranges high := by
  cases ranges with
  | nil => exact below.trans spaced
  | cons range rest => exact ⟨below.trans spaced.1, spaced.2⟩

theorem Spaced.high_mono {higher : Nat} (spaced : Spaced start size low ranges high)
    (above : high ≤ higher) : Spaced start size low ranges higher := by
  induction ranges generalizing low with
  | nil => exact spaced.trans above
  | cons range rest ih =>
    exact ⟨spaced.1, spaced.2.1, ih spaced.2.2⟩

theorem spaced_append : Spaced start size low (left ++ right) high ↔
      Spaced start size low left (stopOf start size low left) ∧
        Spaced start size (stopOf start size low left) right high := by
  induction left generalizing low with
  | nil => simp [Spaced, stopOf]
  | cons range rest ih =>
    simp only [List.cons_append, Spaced, stopOf, ih, and_assoc]

theorem stopOf_append : stopOf start size low (left ++ right) =
      stopOf start size (stopOf start size low left) right := by
  induction left generalizing low with
  | nil => rfl
  | cons range rest ih => exact ih

theorem stopOf_getLast? :
    stopOf start size low ranges =
      match ranges.getLast? with
      | none => low
      | some range => start range + size range := by
  cases ranges using List.reverseRecOn with
  | nil => rfl
  | append_singleton rest range =>
    rw [stopOf_append]
    simp [stopOf]

theorem Spaced.total_le (spaced : Spaced start size low ranges high) :
    low + totalSize size ranges ≤ high := by
  induction ranges generalizing low with
  | nil => exact spaced
  | cons range rest ih =>
    have later := ih spaced.2.2
    have first := spaced.1
    rw [totalSize_cons]
    omega

theorem Spaced.tiles (spaced : Spaced start size low ranges high)
    (full : low + totalSize size ranges = high) : Tiles start size low ranges high := by
  induction ranges generalizing low with
  | nil => exact full
  | cons range rest ih =>
    have later := spaced.2.2.total_le
    have first := spaced.1
    rw [totalSize_cons] at full
    have begins : start range = low := by omega
    exact ⟨begins, ih spaced.2.2 (by omega)⟩

theorem Tiles.total (tiles : Tiles start size low ranges high) :
    low + totalSize size ranges = high := by
  induction ranges generalizing low with
  | nil => exact tiles
  | cons range rest ih =>
    have later := ih tiles.2
    have first := tiles.1
    rw [totalSize_cons]
    omega

theorem Spaced.congr {other : List τ} (spaced : Spaced start size low ranges high)
    (same : other.map (fun range => (start range, size range)) =
      ranges.map (fun range => (start range, size range))) :
    Spaced start size low other high := by
  induction ranges generalizing low other with
  | nil =>
    obtain rfl : other = [] := by simpa using same
    exact spaced
  | cons range rest ih =>
    cases other with
    | nil => simp at same
    | cons head tail =>
      simp only [List.map_cons, List.cons.injEq, Prod.mk.injEq] at same
      obtain ⟨⟨sameStart, sameSize⟩, sameRest⟩ := same
      rw [Spaced, sameStart, sameSize]
      exact ⟨spaced.1, spaced.2.1, ih spaced.2.2 sameRest⟩

/-- Blocks laid out along tiling ranges keep their positions. -/
theorem Tiles.content (tiles : Tiles start size low ranges high) (block : τ → List α)
    (sizes : ∀ range, (block range).length = size range) {index : Nat} {value : α}
    (found : (ranges.flatMap block)[index]? = some value) :
    ∃ range ∈ ranges, start range ≤ low + index ∧ (block range)[low + index - start range]? =
      some value := by
  induction ranges generalizing low index with
  | nil => simp at found
  | cons range rest ih =>
    have first := tiles.1
    rw [List.flatMap_cons] at found
    by_cases here : index < (block range).length
    · rw [List.getElem?_append_left here] at found
      refine ⟨range, List.mem_cons_self, by omega, ?_⟩
      rw [show low + index - start range = index by omega]
      exact found
    · rw [List.getElem?_append_right (by omega)] at found
      obtain ⟨other, member, reached, same⟩ := ih tiles.2 found
      have sameSize := sizes range
      refine ⟨other, List.mem_cons_of_mem range member, by omega, ?_⟩
      rw [show low + index - start other =
        start range + size range + (index - (block range).length) - start other by omega]
      exact same

theorem spaced_iff : Spaced start size low ranges high ↔
      low ≤ high ∧ ranges.Pairwise (fun left right => start left + size left ≤ start right) ∧
        ∀ range ∈ ranges, low ≤ start range ∧ 0 < size range ∧ start range + size range ≤ high := by
  induction ranges generalizing low with
  | nil => simp [Spaced]
  | cons range rest ih =>
    simp only [Spaced, ih, List.pairwise_cons, List.mem_cons, forall_eq_or_imp]
    constructor
    · rintro ⟨first, positive, ends, ordered, each⟩
      refine ⟨by omega, ⟨fun other member => (each other member).1, ordered⟩,
        ⟨first, positive, ends⟩, ?_⟩
      intro other member
      have := each other member
      exact ⟨by omega, this.2⟩
    · rintro ⟨_, ⟨after, ordered⟩, ⟨first, positive, ends⟩, each⟩
      exact ⟨first, positive, ends, ordered, fun other member =>
        ⟨after other member, (each other member).2⟩⟩

end RouterKernel.Foundation
