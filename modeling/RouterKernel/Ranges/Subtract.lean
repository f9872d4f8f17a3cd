import RouterKernel.Foundation.Words

/-!
Contract: subtracting from the arrays of ranges of `kernel/range.c`.

Owns:
- `struct range`, half open, with `end = 0` for an empty slot;
- `subtract_range`, with its search for a spare slot;
- that it subtracts exactly the given addresses.

An array is the function from its indices.
-/

namespace RouterKernel.Ranges

open RouterKernel.Foundation

/-- `struct range`; `end` is called `stop`. -/
structure Range where
  start : U64
  stop : U64
deriving DecidableEq, Repr

/-- `for (i = 0; i < az; i++) if (range[i].end == 0) break;`, from `i` on. -/
def spareFrom (range : Nat → Range) : (count i : Nat) → Nat
  | 0, i => i
  | count + 1, i => if (range i).stop = 0 then i else spareFrom range count (i + 1)

/-- One turn of the loop of `subtract_range`. -/
def subtractTurn (start stop : U64) (az : Nat) (range : Nat → Range) (j : Nat) : Nat → Range :=
  let r := range j
  if r.stop = 0 then range
  else if start ≤ r.start ∧ r.stop ≤ stop then Function.update range j ⟨0, 0⟩
  else if start ≤ r.start ∧ stop < r.stop ∧
    r.start < stop then Function.update range j ⟨stop, r.stop⟩
  else if r.start < start ∧ r.stop ≤ stop ∧
    start < r.stop then Function.update range j ⟨r.start, start⟩
  else if r.start < start ∧ stop < r.stop then
    let i := spareFrom range az 0
    let range := if i < az then Function.update range i ⟨stop, r.stop⟩ else range
    Function.update range j ⟨(range j).start, start⟩
  else range

def subtractRange (range : Nat → Range) (az : Nat) (start stop : U64) : Nat → Range :=
  if stop ≤ start then range else (List.range az).foldl (subtractTurn start stop az) range

/-! ## Ranges as sets of addresses -/

def Range.Holds (r : Range) (address : Nat) : Prop :=
  r.start.toNat ≤ address ∧ address < r.stop.toNat

/-- An entry that is not an empty slot has an address. -/
def Range.Sane (r : Range) : Prop := r.stop ≠ 0 → r.start < r.stop

def Covered (range : Nat → Range) (az address : Nat) : Prop := ∃ i < az, (range i).Holds address

def Apart (range : Nat → Range) (az : Nat) : Prop :=
  ∀ i < az, ∀ k < az, i ≠ k → ∀ address, (range i).Holds address → ¬ (range k).Holds address

theorem spareFrom_spec (range : Nat → Range) (count i : Nat) :
    (spareFrom range count i < i + count → (range (spareFrom range count i)).stop = 0) ∧
      ((∃ k, i ≤ k ∧ k < i + count ∧ (range k).stop = 0) → spareFrom range count i <
        i + count) := by
  induction count generalizing i with
  | zero =>
    refine ⟨fun less => absurd less (lt_irrefl i), ?_⟩
    rintro ⟨k, low, high, -⟩
    omega
  | succ count ih =>
    rw [spareFrom]
    by_cases empty : (range i).stop = 0
    · rw [if_pos empty]
      exact ⟨fun _ => empty, fun _ => by omega⟩
    · rw [if_neg empty]
      obtain ⟨found, exists_⟩ := ih (i + 1)
      refine ⟨fun less => found (by omega), ?_⟩
      rintro ⟨k, low, high, spare⟩
      have differs : k ≠ i := fun same => empty (same ▸ spare)
      have less := exists_ ⟨k, by omega, by omega, spare⟩
      omega

/-! ## One turn -/

section Turn

variable {start stop : U64} {az j : Nat} {range before : Nat → Range}

def Gap (start stop : U64) (address : Nat) : Prop := start.toNat ≤ address ∧ address < stop.toNat

/-- What is left of an entry, in its own slot. -/
structure Trimmed (start stop : U64) (r left : Range) : Prop where
  holds : ∀ address, left.Holds address ↔ r.Holds address ∧ ¬ Gap start stop address
  sane : r.Sane → left.Sane
  empty : r.stop = 0 → left.stop = 0

/-- A turn trims its entry, or splits it, with the upper part in a spare slot. -/
theorem subtractTurn_cases (range : Nat → Range) (az j : Nat) :
    (∃ left, Trimmed start stop (range j) left ∧ subtractTurn start stop az range j =
        Function.update range j left) ∨
      ((range j).stop ≠ 0 ∧ (range j).start < start ∧ stop < (range j).stop ∧
        (spareFrom range az 0 < az → spareFrom range az 0 ≠ j → subtractTurn start stop az range j =
          Function.update (Function.update range (spareFrom range az 0) ⟨stop, (range j).stop⟩) j
            ⟨(range j).start, start⟩)) := by
  have kept (apart : ∀ address, (range j).Holds address → ¬ Gap start stop address) :
      Trimmed start stop (range j) (range j) :=
    ⟨fun address => ⟨fun held => ⟨held, apart address held⟩, And.left⟩, id, id⟩
  rw [subtractTurn]
  simp only [BitVec.le_def, BitVec.lt_def]
  by_cases empty : (range j).stop = 0
  · refine Or.inl ⟨range j, kept ?_, by rw [if_pos empty, Function.update_eq_self]⟩
    intro address held
    rw [Range.Holds, empty] at held
    exact absurd held.2 (Nat.not_lt_zero address)
  rw [if_neg empty]
  by_cases inside : start.toNat ≤ (range j).start.toNat ∧ (range j).stop.toNat ≤ stop.toNat
  · refine Or.inl ⟨⟨0, 0⟩, ⟨?_, fun _ nonzero => absurd rfl nonzero, fun _ => rfl⟩, if_pos inside⟩
    intro address
    simp only [Range.Holds, Gap, BitVec.ofNat_eq_ofNat, BitVec.toNat_ofNat, Nat.zero_mod]
    omega
  rw [if_neg inside]
  by_cases lower : start.toNat ≤ (range j).start.toNat ∧ stop.toNat < (range j).stop.toNat ∧
      (range j).start.toNat < stop.toNat
  · refine Or.inl ⟨⟨stop, (range j).stop⟩,
      ⟨?_, fun _ _ => lower.2.1, fun zero => absurd zero empty⟩, if_pos lower⟩
    intro address
    simp only [Range.Holds, Gap]
    omega
  rw [if_neg lower]
  by_cases upper : (range j).start.toNat < start.toNat ∧ (range j).stop.toNat ≤ stop.toNat ∧
      start.toNat < (range j).stop.toNat
  · refine Or.inl ⟨⟨(range j).start, start⟩,
      ⟨?_, fun _ _ => upper.1, fun zero => absurd zero empty⟩, if_pos upper⟩
    intro address
    simp only [Range.Holds, Gap]
    omega
  rw [if_neg upper]
  by_cases around : (range j).start.toNat < start.toNat ∧ stop.toNat < (range j).stop.toNat
  · refine Or.inr ⟨empty, around.1, around.2, fun found differs => ?_⟩
    rw [if_pos around, if_pos found, Function.update_of_ne (Ne.symm differs)]
  · refine Or.inl ⟨range j, kept ?_, by rw [if_neg around, Function.update_eq_self]⟩
    intro address
    simp only [Range.Holds, Gap]
    omega

/-- The state of the loop: outside the gap nothing has changed, the entries passed avoid the gap,
and while an entry may still have to be split there is a slot for it. -/
structure Subtracted (start stop : U64) (az : Nat) (before : Nat → Range) (j : Nat)
    (range : Nat → Range) : Prop where
  outside : ∀ address, ¬ Gap start stop address →
    (Covered range az address ↔ Covered before az address)
  avoided : ∀ i < j, i < az → ∀ address, (range i).Holds address → ¬ Gap start stop address
  apart : Apart range az
  room : (∃ i < az, (range i).stop = 0) ∨ ∀ i < az, ∀ address, (range i).Holds address →
    ¬ Gap start stop address
  sane : (∀ i < az, (before i).Sane) → ∀ i < az, (range i).Sane

theorem Apart.shrink {range after : Nat → Range} (apart : Apart range az)
    (within : ∀ i < az, ∀ address, (after i).Holds address → (range i).Holds address) :
      Apart after az :=
  fun i inside k insideK differs address held heldK =>
    apart i inside k insideK differs address (within i inside address held)
      (within k insideK address heldK)

theorem Subtracted.trim (state : Subtracted start stop az before j range) {left : Range}
    (trimmed : Trimmed start stop (range j) left) :
    Subtracted start stop az before (j + 1) (Function.update range j left) := by
  have holds (i address : Nat) : (Function.update range j left i).Holds address ↔
      (range i).Holds address ∧ (i = j → ¬ Gap start stop address) := by
    by_cases here : i = j
    · subst here
      rw [Function.update_self, trimmed.holds]
      simp
    · rw [Function.update_of_ne here]
      simp [here]
  refine ⟨?_, ?_, ?_, ?_, ?_⟩
  · intro address clear
    rw [← state.outside address clear]
    simp only [Covered, holds]
    simp [clear]
  · intro i below inside address held
    obtain ⟨heldBefore, clear⟩ := (holds i address).mp held
    by_cases here : i = j
    · exact clear here
    · exact state.avoided i (by omega) inside address heldBefore
  · exact state.apart.shrink fun i _ address held => ((holds i address).mp held).1
  · rcases state.room with ⟨i, inside, empty⟩ | clear
    · refine Or.inl ⟨i, inside, ?_⟩
      by_cases here : i = j
      · subst here
        rw [Function.update_self]
        exact trimmed.empty empty
      · rw [Function.update_of_ne here]
        exact empty
    · exact Or.inr fun i inside address held => clear i inside address ((holds i address).mp held).1
  · intro saneBefore i inside
    by_cases here : i = j
    · subst here
      rw [Function.update_self]
      exact trimmed.sane (state.sane saneBefore i inside)
    · rw [Function.update_of_ne here]
      exact state.sane saneBefore i inside

section Split

variable {i : Nat}

/-- The slot that a part of the entries after a split comes from. -/
def origin (i j k : Nat) : Nat := if k = i then j else k

/-- The entries with the upper part of one of them in the slot `i`. -/
def splitAt (start stop : U64) (range : Nat → Range) (i j : Nat) : Nat → Range :=
  Function.update (Function.update range i ⟨stop, (range j).stop⟩) j ⟨(range j).start, start⟩

theorem splitAt_holds (proper : start < stop) (low : (range j).start < start)
    (high : stop < (range j).stop)
    (differs : i ≠ j) (k address : Nat) :
    (splitAt start stop range i j k).Holds address ↔ (range (origin i j k)).Holds address ∧
      (k = i → stop.toNat ≤ address) ∧ (k = j → address < start.toNat) := by
  simp only [BitVec.lt_def] at proper low high
  rw [splitAt, origin]
  by_cases isJ : k = j
  · rw [isJ, Function.update_self, if_neg differs.symm]
    simp only [Range.Holds, differs.symm, false_implies, true_implies, true_and]
    omega
  rw [Function.update_of_ne isJ]
  by_cases isI : k = i
  · rw [isI, Function.update_self, if_pos rfl]
    simp only [Range.Holds, differs, false_implies, true_implies, and_true]
    omega
  · rw [Function.update_of_ne isI, if_neg isI]
    simp [isI, isJ]

theorem Apart.splitAt (apart : Apart range az) (proper : start < stop) (inside : j < az)
    (low : (range j).start < start) (high : stop < (range j).stop) (differs : i ≠ j) :
    Apart (splitAt start stop range i j) az := by
  intro k insideK m insideM apartIndices address heldK heldM
  obtain ⟨first, upperK, lowerK⟩ := (splitAt_holds proper low high differs k address).mp heldK
  obtain ⟨second, upperM, lowerM⟩ := (splitAt_holds proper low high differs m address).mp heldM
  have order : start.toNat < stop.toNat := proper
  by_cases same : origin i j k = origin i j m
  · have both : (k = i ∧ m = j) ∨ (k = j ∧ m = i) := by
      rw [origin, origin] at same
      by_cases kI : k = i <;> by_cases mI : m = i <;> simp [kI, mI] at same ⊢ <;> omega
    rcases both with ⟨isI, isJ⟩ | ⟨isJ, isI⟩
    · have above := upperK isI
      have below := lowerM isJ
      omega
    · have above := upperM isI
      have below := lowerK isJ
      omega
  · have bounded (index : Nat) (insideIndex : index < az) : origin i j index < az := by
      rw [origin]
      split <;> assumption
    exact apart _ (bounded k insideK) _ (bounded m insideM) same address first second

theorem Subtracted.split (state : Subtracted start stop az before j range) (proper : start < stop)
    (inside : j < az)
    (low : (range j).start < start) (high : stop < (range j).stop) (spareInside : i < az)
    (spare : (range i).stop = 0) (differs : i ≠ j) :
    Subtracted start stop az before (j + 1) (splitAt start stop range i j) := by
  have holds := splitAt_holds proper low high differs
  have lowNat : (range j).start.toNat < start.toNat := low
  have highNat : stop.toNat < (range j).stop.toNat := high
  -- the entry that is split holds the whole gap, so no other entry touches it
  have clear (k : Nat) (insideK : k < az) (address : Nat)
      (held : (splitAt start stop range i j k).Holds address) :
      ¬ Gap start stop address := by
    rintro ⟨lowGap, highGap⟩
    obtain ⟨part, upper, lower⟩ := (holds k address).mp held
    by_cases isJ : k = j
    · exact absurd lowGap (not_le.mpr (lower isJ))
    by_cases isI : k = i
    · exact absurd highGap (not_lt.mpr (upper isI))
    · rw [origin, if_neg isI] at part
      exact state.apart k insideK j inside isJ address part ⟨by omega, by omega⟩
  refine ⟨?_, fun k _ insideK => clear k insideK,
    state.apart.splitAt proper inside low high differs, Or.inr clear, ?_⟩
  · intro address outsideGap
    rw [← state.outside address outsideGap]
    constructor
    · rintro ⟨k, insideK, held⟩
      refine ⟨origin i j k, ?_, ((holds k address).mp held).1⟩
      rw [origin]
      split <;> assumption
    · rintro ⟨k, insideK, held⟩
      have isI : k ≠ i := by
        rintro rfl
        rw [Range.Holds, spare] at held
        exact Nat.not_lt_zero address held.2
      by_cases above : k = j ∧ stop.toNat ≤ address
      · refine ⟨i, spareInside,
          (holds i address).mpr ⟨?_, fun _ => above.2, fun isJ => absurd isJ differs⟩⟩
        rwa [origin, if_pos rfl, ← above.1]
      · refine ⟨k, insideK, (holds k address).mpr ⟨?_, fun same => absurd same isI, fun isJ => ?_⟩⟩
        · rwa [origin, if_neg isI]
        · rw [Gap] at outsideGap
          omega
  · intro saneBefore k insideK
    rw [splitAt]
    by_cases isJ : k = j
    · rw [isJ, Function.update_self]
      exact fun _ => low
    rw [Function.update_of_ne isJ]
    by_cases isI : k = i
    · rw [isI, Function.update_self]
      exact fun _ => high
    · rw [Function.update_of_ne isI]
      exact state.sane saneBefore k insideK

end Split

theorem Subtracted.turn (proper : start < stop) (inside : j < az)
    (state : Subtracted start stop az before j range) :
    Subtracted start stop az before (j + 1) (subtractTurn start stop az range j) := by
  rcases subtractTurn_cases range az j with ⟨left, trimmed, turned⟩ | ⟨used, low, high, splits⟩
  · rw [turned]
    exact state.trim trimmed
  · have order : start.toNat < stop.toNat := proper
    have lowNat : (range j).start.toNat < start.toNat := low
    have highNat : stop.toNat < (range j).stop.toNat := high
    -- the entry meets the gap, so the room is an empty slot
    have empty : ∃ i, 0 ≤ i ∧ i < 0 + az ∧ (range i).stop = 0 := by
      rcases state.room with ⟨i, insideI, empty⟩ | clear
      · exact ⟨i, Nat.zero_le i, by omega, empty⟩
      · exact absurd ⟨le_refl _, order⟩ (clear j inside start.toNat ⟨by omega, by omega⟩)
    obtain ⟨found, exists_⟩ := spareFrom_spec range az 0
    have spareInside := exists_ empty
    have spare := found spareInside
    rw [Nat.zero_add] at spareInside
    have differs : spareFrom range az 0 ≠ j := fun same => used (same ▸ spare)
    rw [splits spareInside differs]
    exact state.split proper inside low high spareInside spare differs

end Turn

/-- `subtract_range` leaves exactly the addresses outside the given range, in disjoint entries. -/
theorem subtractRange_difference {range : Nat → Range} {az : Nat} {start stop : U64}
    (proper : start < stop)
    (apart : Apart range az) (spare : ∃ i < az, (range i).stop = 0) :
    (∀ address, Covered (subtractRange range az start stop) az address ↔
        Covered range az address ∧ ¬ (start.toNat ≤ address ∧ address < stop.toNat)) ∧
      Apart (subtractRange range az start stop) az ∧
      ((∀ i < az, (range i).stop ≠ 0 → (range i).start < (range i).stop) →
        ∀ i < az, (subtractRange range az start stop i).stop ≠ 0 →
          (subtractRange range az start stop i).start <
            (subtractRange range az start stop i).stop) := by
  have run (count : Nat) (bounded : count ≤ az) :
      Subtracted start stop az range count
        ((List.range count).foldl (subtractTurn start stop az) range) := by
    induction count with
    | zero =>
      exact ⟨fun _ _ => Iff.rfl, fun i below => absurd below (Nat.not_lt_zero i), apart,
        Or.inl spare, id⟩
    | succ count ih =>
      rw [List.range_succ, List.foldl_append, List.foldl_cons, List.foldl_nil]
      exact (ih (Nat.le_of_succ_le bounded)).turn proper bounded
  have final := run az le_rfl
  have notReversed : ¬ stop ≤ start := BitVec.not_le.mpr proper
  rw [subtractRange, if_neg notReversed]
  refine ⟨?_, final.apart, final.sane⟩
  intro address
  constructor
  · rintro ⟨i, inside, held⟩
    have clear := final.avoided i inside inside address held
    exact ⟨(final.outside address clear).mp ⟨i, inside, held⟩, clear⟩
  · rintro ⟨covered, clear⟩
    exact (final.outside address clear).mpr covered

/-- A range is split around the middle, into the slot before it. -/
theorem subtractRange_difference_split :
    Covered (subtractRange (fun i => if i = 1 then ⟨10, 40⟩ else ⟨0, 0⟩) 2 20 30) 2 35 ∧
      ¬ Covered (subtractRange (fun i => if i = 1 then ⟨10, 40⟩ else ⟨0, 0⟩) 2 20 30) 2 25 := by
  have apart : Apart (fun i => if i = 1 then ⟨10, 40⟩ else ⟨0, 0⟩) 2 := by
    intro i inside k insideK differs address
    have cases : (i = 0 ∧ k = 1) ∨ (i = 1 ∧ k = 0) := by omega
    rcases cases with ⟨rfl, rfl⟩ | ⟨rfl, rfl⟩ <;> simp [Range.Holds]
  have proper : (20 : U64) < 30 := by decide
  have difference := (subtractRange_difference proper apart ⟨0, by decide, by decide⟩).1
  refine ⟨(difference 35).mpr ⟨⟨1, by decide, ⟨by decide, by decide⟩⟩, by decide⟩, fun covered =>
    ?_⟩
  exact ((difference 25).mp covered).2 (by decide)

end RouterKernel.Ranges
