import RouterKernel.Foundation.Alignments
import RouterKernel.Foundation.Machine
import RouterKernel.Strings.Ctype

/-!
Contract: the text search of `lib/ts_bm.c`.

Owns:
- `bm_init` with `compute_prefix_tbl` and `subpattern`;
- `bm_find` over a sequence of blocks, with the position that it keeps between blocks;
- the two tables as bounds on the next occurrence;
- what it finds in one block, and what in a later one.

Does not own: the rules for alignments (`Foundation.Alignments`) or matches across blocks.

Positions in a block are natural numbers: the block and the pattern lie in the memory of the
32-bit machine, below the sizes at which the `int` that holds them would overflow.
-/

namespace RouterKernel.TextSearch

open RouterKernel.Foundation
open RouterKernel.Strings

/-! ## The code -/

def UINT_MAX : U32 := 0xffffffff

/-- `icase ? toupper(c) : c`. -/
def fold (icase : Bool) (c : U8) : U8 :=
  if icase then toupper c else c

/-- `struct ts_bm` and the flag of its `struct ts_config`. -/
structure TsBm where
  icase : Bool
  pattern : List U8
  badShift : U8 → Nat
  goodShift : Nat → Nat

def symbolAt (cells : List U8) (index : Nat) : U8 := cells.getD index 0

/-- `subpattern`; `x` and `y` are `i + g - 1` and `j + g - 1` throughout. -/
def subpattern (pattern : List U8) (i : Nat) (j : Int) : (g : Nat) → Bool
  | 0 => false
  | g + 1 =>
    if symbolAt pattern (i + g) = symbolAt pattern (j + g).toNat then
      if j + g - 1 < 0 then true
      else if g = 0 then symbolAt pattern (i - 1) ≠ symbolAt pattern (j - 1).toNat
      else subpattern pattern i j g
    else false

/-- The bad shift array after `count` turns of its loop. -/
def badShifts (pattern : List U8) (icase : Bool) : (count : Nat) → U8 → Nat
  | 0 => fun _ => pattern.length
  | i + 1 =>
    let table := Function.update (badShifts pattern icase i) (symbolAt pattern i)
      (pattern.length - 1 - i)
    if icase then Function.update table (tolower (symbolAt pattern i)) (pattern.length - 1 - i)
      else table

/-- The loop over `j` for one entry of the good shift array, with `count` values left. -/
def goodShiftFrom (pattern : List U8) (i g : Nat) : (count : Nat) → (j : Int) → Nat
  | 0, _ => pattern.length
  | count + 1, j =>
    if subpattern pattern i j g then (pattern.length - j - g).toNat
      else goodShiftFrom pattern i g count (j - 1)

/-- The good shift array; `j` goes from `i - 1` down to `1 - g`, with `i = patlen - g`. -/
def goodShifts (pattern : List U8) (g : Nat) : Nat :=
  if g = 0 then 1
  else
    let i := pattern.length - g
    goodShiftFrom pattern i g (i + g - 1) (i - 1)

def bmInit (pattern : List U8) (icase : Bool) : TsBm :=
  let folded := pattern.map (fold icase)
  { icase, pattern := folded, badShift := badShifts folded icase (folded.length - 1),
    goodShift := goodShifts folded }

theorem bmInit_length (pattern : List U8) (icase : Bool) :
    (bmInit pattern icase).pattern.length = pattern.length :=
  List.length_map _

/-- The comparison from the end on: the first `i` with another symbol, of `count` left. -/
def mismatchFrom (bm : TsBm) (text : List U8) (shift : Nat) : (count i : Nat) → Option Nat
  | 0, _ => none
  | count + 1, i =>
    if fold bm.icase (symbolAt text (shift - i)) ≠ symbolAt bm.pattern (bm.pattern.length - 1 - i)
      then some i
    else mismatchFrom bm text shift count (i + 1)

/-- One turn of `while (shift < text_len)`: go on, or leave the loop with a position that was
found, if any, and `shift`. -/
def shiftTurn (bm : TsBm) (text : List U8) (shift : Nat) : Outcome Nat (Option Nat × Nat) :=
  if shift < text.length then
    match mismatchFrom bm text shift bm.pattern.length 0 with
    | none => .halted (some (shift - (bm.pattern.length - 1)), shift)
    | some i => .running
      (max (shift - i + bm.badShift (symbolAt text (shift - i))) (shift + bm.goodShift i))
  else .halted (none, shift)

/-- The loop of `bm_find` over the blocks, each searched in less than `fuel` turns. -/
def bmFindFrom (bm : TsBm) (fuel : Nat) : List (List U8) → (consumed : U32) → (shift : Nat) →
    Option U32
  | [], _, _ => some UINT_MAX
  | text :: blocks, consumed, shift =>
    if text.length = 0 then some UINT_MAX
    else
      match runFor (shiftTurn bm text) fuel shift with
      | .running _ => none
      | .halted (some position, _) => some (consumed + BitVec.ofNat 32 position)
      | .halted (none, shift) =>
        bmFindFrom bm fuel blocks (consumed + BitVec.ofNat 32 text.length) shift

def bmFind (bm : TsBm) (blocks : List (List U8)) (offset : U32) (fuel : Nat) : Option U32 :=
  bmFindFrom bm fuel blocks offset (bm.pattern.length - 1)

/-! ## The tables -/

section Tables

variable {pattern : List U8} {icase : Bool}

theorem badShifts_le (count : Nat) (c : U8) : badShifts pattern icase count c ≤ pattern.length := by
  induction count with
  | zero => exact le_refl _
  | succ count ih =>
    simp only [badShifts]
    split <;> simp only [Function.update_apply] <;> split_ifs <;> omega

variable {count g i : Nat} {j : Int}

theorem badShifts_le_distance {k : Nat} (below : k < count) {c : U8}
    (stands : symbolAt pattern k = c ∨ (icase = true ∧ tolower (symbolAt pattern k) = c)) :
    badShifts pattern icase count c ≤ pattern.length - 1 - k := by
  induction count with
  | zero => exact absurd below (Nat.not_lt_zero k)
  | succ count ih =>
    have later : pattern.length - 1 - count ≤ pattern.length - 1 - k := by omega
    by_cases last : k = count
    · subst last
      rcases stands with same | ⟨folds, same⟩
      · simp only [badShifts]
        split <;> simp only [Function.update_apply] <;> split_ifs <;>
          first | omega | exact absurd same.symm ‹_›
      · simp only [badShifts, folds, if_true, Function.update_apply, same]
        omega
    · have earlier := ih (by omega)
      simp only [badShifts]
      split <;> simp only [Function.update_apply] <;> split_ifs <;> omega

/-- `subpattern` holds where the end of the pattern reoccurs. -/
theorem subpattern_of_reoccurs (positive : 0 < g) (reaches : 0 ≤ j + g - 1)
    (same : ∀ k < g, 0 ≤ j + k → symbolAt pattern (i + k) = symbolAt pattern (j + k).toNat)
    (before : 1 ≤ j → symbolAt pattern (i - 1) ≠ symbolAt pattern (j - 1).toNat) :
    subpattern pattern i j g = true := by
  induction g with
  | zero => exact absurd positive (lt_irrefl 0)
  | succ g ih =>
    rw [subpattern, if_pos (same g (Nat.lt_succ_self g) (by omega))]
    by_cases ended : j + g - 1 < 0
    · rw [if_pos ended]
    rw [if_neg ended]
    by_cases whole : g = 0
    · rw [if_pos whole]
      exact decide_eq_true (before (by omega))
    · rw [if_neg whole]
      exact ih (Nat.pos_of_ne_zero whole) (by omega) fun k below => same k (Nat.lt_succ_of_lt below)

theorem goodShiftFrom_le {found : Int} (low : j - count < found) (high : found ≤ j)
    (holds : subpattern pattern i found g = true) :
    goodShiftFrom pattern i g count j ≤ (pattern.length - found - g).toNat := by
  induction count generalizing j with
  | zero => omega
  | succ count ih =>
    rw [goodShiftFrom]
    by_cases here : subpattern pattern i j g = true
    · rw [if_pos here]
      omega
    · rw [if_neg here]
      have differs : found ≠ j := fun same => here (same ▸ holds)
      exact ih (by omega) (by omega)

theorem goodShiftFrom_pos (nonempty : 0 < pattern.length) (high : j + g < pattern.length) :
    0 < goodShiftFrom pattern i g count j := by
  induction count generalizing j with
  | zero => exact nonempty
  | succ count ih =>
    rw [goodShiftFrom]
    split
    · omega
    · exact ih (by omega)

theorem goodShiftFrom_le_length (low : 1 ≤ j - count + g + 1) :
    goodShiftFrom pattern i g count j ≤ pattern.length := by
  induction count generalizing j with
  | zero => exact le_refl _
  | succ count ih =>
    rw [goodShiftFrom]
    split
    · omega
    · exact ih (by omega)

theorem goodShifts_pos (nonempty : 0 < pattern.length) (inside : g < pattern.length) :
    0 < goodShifts pattern g := by
  rw [goodShifts]
  split
  · exact Nat.one_pos
  · exact goodShiftFrom_pos nonempty (by omega)

theorem goodShifts_le_length (inside : g < pattern.length) :
    goodShifts pattern g ≤ pattern.length := by
  rw [goodShifts]
  split
  · omega
  · exact goodShiftFrom_le_length (by omega)

theorem goodShifts_le {s : Nat} (inside : g < pattern.length) (positive : 0 < s)
    (reoccurs : Reoccurs (symbolAt pattern) pattern.length g s) : goodShifts pattern g ≤ s := by
  rw [goodShifts]
  by_cases none : g = 0
  · rw [if_pos none]
    exact positive
  rw [if_neg none]
  by_cases far : pattern.length ≤ s
  · exact (goodShiftFrom_le_length (by omega)).trans far
  have holds : subpattern pattern (pattern.length - g) ((pattern.length - g : Nat) - s : Int) g =
      true := by
    refine subpattern_of_reoccurs (Nat.pos_of_ne_zero none) (by omega) (fun k below reaches => ?_)
      (fun one => ?_)
    · have same := reoccurs.1 (g - 1 - k) (by omega) (by omega)
      rwa [show pattern.length - 1 - (g - 1 - k) = pattern.length - g + k by omega,
        show pattern.length - g + k - s = ((pattern.length - g : Nat) - s + k : Int).toNat by
          omega] at same
    · have differs := reoccurs.2 (by omega)
      rwa [show pattern.length - 1 - g = pattern.length - g - 1 by omega,
        show pattern.length - g - 1 - s = ((pattern.length - g : Nat) - s - 1 : Int).toNat by
          omega] at differs
  refine (goodShiftFrom_le (by omega) (by omega) holds).trans ?_
  omega

end Tables

/-! ## One block -/

section Block

variable {pattern : List U8} {icase : Bool} {text : List U8}

/-- The text as `bm_find` compares it. -/
def viewed (icase : Bool) (text : List U8) (index : Nat) : U8 := fold icase (symbolAt text index)

/-- The folded pattern ends at `e` in the folded text. -/
def EndsAt (bm : TsBm) (text : List U8) (e : Nat) : Prop :=
  Aligned (symbolAt bm.pattern) (viewed bm.icase text) bm.pattern.length e ∧ e < text.length

theorem mismatchFrom_spec (bm : TsBm) (text : List U8) (shift count i : Nat) :
    (mismatchFrom bm text shift count i = none ∧
        ∀ k, i ≤ k → k < i + count → viewed bm.icase text (shift - k) =
          symbolAt bm.pattern (bm.pattern.length - 1 - k)) ∨
      ∃ g, mismatchFrom bm text shift count i = some g ∧ i ≤ g ∧ g < i + count ∧
        (∀ k, i ≤ k → k < g → viewed bm.icase text (shift - k) =
          symbolAt bm.pattern (bm.pattern.length - 1 - k)) ∧
        viewed bm.icase text (shift - g) ≠ symbolAt bm.pattern (bm.pattern.length - 1 - g) := by
  induction count generalizing i with
  | zero => exact Or.inl ⟨rfl, fun k low high => by omega⟩
  | succ count ih =>
    rw [mismatchFrom]
    by_cases differs :
      fold bm.icase (symbolAt text (shift - i)) ≠ symbolAt bm.pattern (bm.pattern.length - 1 - i)
    · rw [if_pos differs]
      exact Or.inr ⟨i, rfl, le_refl i, by omega, fun k low high => by omega, differs⟩
    rw [if_neg differs]
    have here : viewed bm.icase text (shift - i) =
      symbolAt bm.pattern (bm.pattern.length - 1 - i) := not_not.mp differs
    rcases ih (i + 1) with ⟨none, same⟩ | ⟨g, found, low, high, same, other⟩
    · refine Or.inl ⟨none, fun k lowK highK => ?_⟩
      by_cases first : k = i
      · exact first ▸ here
      · exact same k (by omega) (by omega)
    · refine Or.inr ⟨g, found, by omega, by omega, fun k lowK highK => ?_, other⟩
      by_cases first : k = i
      · exact first ▸ here
      · exact same k (by omega) highK

/-- A symbol of the text that the bad shift array knows: the array is asked with the symbol as it
is, and has entries for those of the pattern and their lower case. -/
def Known (bm : TsBm) (c : U8) : Prop :=
  ∀ k < bm.pattern.length - 1, symbolAt bm.pattern k = fold bm.icase c →
    symbolAt bm.pattern k = c ∨ (bm.icase = true ∧ tolower (symbolAt bm.pattern k) = c)

/-- The bad shift array knows the symbols of an occurrence, but for the last. -/
def KnownAt (bm : TsBm) (text : List U8) (position : Nat) : Prop :=
  ∀ i, position ≤ i → i < position + (bm.pattern.length - 1) → Known bm (symbolAt text i)

/-- The search does not skip an end of the pattern if it stands there or knows the symbols
before. -/
def Unskipped (bm : TsBm) (text : List U8) (shift e : Nat) : Prop :=
  e = shift ∨ KnownAt bm text (e - (bm.pattern.length - 1))

/-- One turn: the pattern ends here, or the next place where it can end is not skipped. -/
theorem shiftTurn_cases (nonempty : pattern ≠ []) (icase : Bool) {shift : Nat}
    (room : pattern.length ≤ shift + 1)
    (inside : shift < text.length) :
    (EndsAt (bmInit pattern icase) text shift ∧
        shiftTurn (bmInit pattern icase) text shift = .halted (some (shift - (pattern.length - 1)),
          shift)) ∨
      ∃ next, shiftTurn (bmInit pattern icase) text shift = .running next ∧ shift < next ∧
          next ≤ shift + pattern.length ∧
        ∀ e, shift ≤ e → e < next → Unskipped (bmInit pattern icase) text shift e →
          ¬ EndsAt (bmInit pattern icase) text e := by
  set bm := bmInit pattern icase with bmDef
  have length : bm.pattern.length = pattern.length := bmInit_length pattern icase
  have positive := List.length_pos_iff.mpr nonempty
  rw [shiftTurn, if_pos inside]
  rcases mismatchFrom_spec bm text shift bm.pattern.length 0 with ⟨none, same⟩ |
    ⟨g, found, -, high, same, differs⟩
  · refine Or.inl ⟨⟨⟨by omega, fun i below => same i (Nat.zero_le i) (by omega)⟩, inside⟩, ?_⟩
    rw [none, length]
  · right
    rw [Nat.zero_add] at high
    have fails : Fails (symbolAt bm.pattern) (viewed bm.icase text) bm.pattern.length shift g :=
      ⟨high, by omega, fun i below => same i (Nat.zero_le i) below, differs⟩
    have advances : 0 < bm.goodShift g := goodShifts_pos (show 0 < bm.pattern.length by omega) high
    have bounded : bm.badShift (symbolAt text (shift - g)) ≤ bm.pattern.length := badShifts_le _ _
    have boundedGood : bm.goodShift g ≤ bm.pattern.length := goodShifts_le_length high
    refine ⟨_, by rw [found], lt_max_of_lt_right (Nat.lt_add_of_pos_right advances), by omega,
      fun e low before known ends => ?_⟩
    obtain ⟨aligned, insideE⟩ := ends
    by_cases here : e = shift
    · exact fails.not_aligned (here ▸ aligned)
    replace known := known.resolve_left here
    obtain ⟨s, rfl⟩ := Nat.exists_eq_add_of_le low
    rcases lt_max_iff.mp before with bad | good
    · -- the symbol that differed
      have covers : shift + s - (shift - g) < bm.pattern.length := by omega
      have stands := aligned.symbol (by omega) covers
      have entry := known (shift - g) (by omega) (by omega)
          (bm.pattern.length - 1 - (shift + s - (shift - g)))
        (by omega) stands.symm
      have shifted : bm.badShift (symbolAt text (shift - g)) ≤
          bm.pattern.length - 1 - (bm.pattern.length - 1 - (shift + s - (shift - g))) :=
        badShifts_le_distance (by rw [bmDef, bmInit]; simp only [List.length_map]; omega) entry
      omega
    · -- the part that matched
      have shorter : bm.goodShift g ≤ s := goodShifts_le high (by omega) (fails.reoccurs aligned)
      omega

/-- The loop over a block, from `shift` on. -/
structure ScannedBlock (bm : TsBm) (text : List U8) (shift : Nat) (found : Option Nat)
    (left : Nat) : Prop where
  bound : left = shift ∨ shift < left ∧ shift < text.length ∧ left < text.length + bm.pattern.length
  match_ : ∀ position, found = some position → EndsAt bm text (position + (bm.pattern.length - 1)) ∧
    shift ≤ position + (bm.pattern.length - 1) ∧
      ∀ e, shift ≤ e → Unskipped bm text shift e → EndsAt bm text e →
        position + (bm.pattern.length - 1) ≤ e
  none : found = none → text.length ≤ left ∧ ∀ e, shift ≤ e → Unskipped bm text shift e →
    ¬ EndsAt bm text e

theorem runFor_shiftTurn (nonempty : pattern ≠ []) (icase : Bool) {shift fuel : Nat}
    (room : pattern.length ≤ shift + 1)
    (enough : text.length - shift < fuel) :
    ∃ found left, runFor (shiftTurn (bmInit pattern icase) text) fuel shift = .halted (found,
        left) ∧
      ScannedBlock (bmInit pattern icase) text shift found left := by
  have length := bmInit_length pattern icase
  induction fuel generalizing shift with
  | zero => exact absurd enough (Nat.not_lt_zero _)
  | succ fuel ih =>
    rw [runFor]
    by_cases inside : shift < text.length
    · rcases shiftTurn_cases nonempty icase room inside with ⟨ends, stops⟩ |
        ⟨next, goes, more, most, skips⟩
      · rw [stops]
        refine ⟨_, _, rfl, Or.inl rfl, ?_, fun found => (by cases found)⟩
        rintro position same
        injection same with same
        have place : position + ((bmInit pattern icase).pattern.length - 1) = shift := by omega
        rw [place]
        exact ⟨ends, le_refl _, fun e low _ _ => low⟩
      · rw [goes]
        obtain ⟨found, left, runs, scanned⟩ :=
          ih (show pattern.length ≤ next + 1 by omega) (by omega)
        have later (e : Nat) (known : Unskipped (bmInit pattern icase) text shift e)
            (behind : next ≤ e) :
            Unskipped (bmInit pattern icase) text next e :=
          known.elim (fun here => by omega) Or.inr
        refine ⟨found, left, runs,
          by have := scanned.bound; omega, fun position same => ?_, fun same => ?_⟩
        · obtain ⟨ends, behind, least⟩ := scanned.match_ position same
          refine ⟨ends, by omega, fun e low known endsE => ?_⟩
          by_cases skipped : e < next
          · exact absurd endsE (skips e low skipped known)
          · exact least e (not_lt.mp skipped) (later e known (not_lt.mp skipped)) endsE
        · obtain ⟨passed, absent⟩ := scanned.none same
          refine ⟨passed, fun e low known endsE => ?_⟩
          by_cases skipped : e < next
          · exact skips e low skipped known endsE
          · exact absent e (not_lt.mp skipped) (later e known (not_lt.mp skipped)) endsE
    · have stops : shiftTurn (bmInit pattern icase) text shift = .halted (none, shift) :=
        if_neg inside
      rw [stops]
      exact ⟨_, _, rfl, Or.inl rfl, fun position found => (by cases found),
        fun _ => ⟨not_lt.mp inside, fun e low _ ends => by have := ends.2; omega⟩⟩

def OccursAt (icase : Bool) (pattern text : List U8) (position : Nat) : Prop :=
  pattern.map (fold icase) <+: (text.map (fold icase)).drop position

instance (icase : Bool) (pattern text : List U8) (position : Nat) :
    Decidable (OccursAt icase pattern text position) :=
  inferInstanceAs (Decidable (_ <+: _))

theorem endsAt_iff_occursAt (nonempty : pattern ≠ []) (icase : Bool) (text : List U8)
    (position : Nat) :
    EndsAt (bmInit pattern icase) text (position + (pattern.length - 1)) ↔
      OccursAt icase pattern text position := by
  have length := bmInit_length pattern icase
  have positive := List.length_pos_iff.mpr nonempty
  have folded : (bmInit pattern icase).pattern = pattern.map (fold icase) := rfl
  have entry (index : Nat) (inside : index < text.length) :
      (text.map (fold icase))[index]? = some (viewed icase text index) := by
    rw [List.getElem?_map, List.getElem?_eq_getElem inside, viewed, symbolAt,
        List.getD_eq_getElem?_getD,
      List.getElem?_eq_getElem inside]
    rfl
  rw [EndsAt, Aligned, OccursAt, List.prefix_iff_getElem?, length, folded]
  simp only [List.length_map, List.getElem?_drop]
  constructor
  · rintro ⟨⟨-, same⟩, inside⟩ k below
    have here : viewed icase text _ = _ := same (pattern.length - 1 - k) (by omega)
    rw [show position + (pattern.length - 1) - (pattern.length - 1 - k) = position + k by omega,
      show pattern.length - 1 - (pattern.length - 1 - k) = k by omega] at here
    rw [entry _ (by omega), here, symbolAt, List.getD_eq_getElem?_getD,
      List.getElem?_eq_getElem (by rw [List.length_map]; exact below), Option.getD_some]
  · intro same
    have last := same (pattern.length - 1) (by omega)
    have inside : position + (pattern.length - 1) < text.length := by
      by_contra outside
      rw [List.getElem?_eq_none (by rw [List.length_map]; omega)] at last
      cases last
    refine ⟨⟨by omega, fun i below => ?_⟩, inside⟩
    have here := same (pattern.length - 1 - i) (by omega)
    rw [entry _ (by omega), Option.some.injEq] at here
    rw [show position + (pattern.length - 1) - i = position + (pattern.length - 1 - i) by omega]
    refine here.trans ?_
    rw [symbolAt, List.getD_eq_getElem?_getD,
        List.getElem?_eq_getElem (by rw [List.length_map]; omega),
      Option.getD_some]

theorem knownAt_exact (pattern text : List U8) (position : Nat) :
    KnownAt (bmInit pattern false) text position :=
  fun _ _ _ _ _ same => Or.inl same

theorem unskipped_of_known {position : Nat}
    (known : position = 0 ∨ KnownAt (bmInit pattern icase) text position) :
    Unskipped (bmInit pattern icase) text (pattern.length - 1)
      (position + (pattern.length - 1)) := by
  refine known.imp (fun start => by omega) fun known => ?_
  rw [bmInit_length, Nat.add_sub_cancel]
  exact known

end Block

/-- `bm_find` in a single block finds the first occurrence if this is at the start or the bad shift
array knows its symbols, and says that there is none if there is none. -/
theorem bmFind_contiguous {pattern text : List U8} (nonempty : pattern ≠ []) (icase : Bool)
    {fuel : Nat}
    (enough : text.length < fuel) :
    (∀ position, OccursAt icase pattern text position →
        (∀ earlier < position, ¬ OccursAt icase pattern text earlier) →
        (position = 0 ∨ KnownAt (bmInit pattern icase) text position) →
          bmFind (bmInit pattern icase) [text] 0 fuel = some (BitVec.ofNat 32 position)) ∧
      ((∀ position, ¬ OccursAt icase pattern text position) →
        bmFind (bmInit pattern icase) [text] 0 fuel = some UINT_MAX) := by
  have length := bmInit_length pattern icase
  have positive := List.length_pos_iff.mpr nonempty
  rw [bmFind, bmFindFrom, length]
  by_cases empty : text.length = 0
  · rw [if_pos empty]
    refine ⟨fun position occurs => ?_, fun _ => rfl⟩
    have ends := ((endsAt_iff_occursAt nonempty icase text position).mpr occurs).2
    omega
  rw [if_neg empty]
  obtain ⟨found, left, runs, scanned⟩ := runFor_shiftTurn nonempty icase
    (show pattern.length ≤ pattern.length - 1 + 1 by omega)
    (show text.length - (pattern.length - 1) < fuel by omega)
  rw [runs]
  cases found with
  | none =>
    refine ⟨fun position occurs _ known => ?_, fun _ => rfl⟩
    have absent :=
      (scanned.none rfl).2 (position + (pattern.length - 1)) (by omega) (unskipped_of_known known)
    exact absurd ((endsAt_iff_occursAt nonempty icase text position).mpr occurs) absent
  | some first =>
    obtain ⟨ends, -, least⟩ := scanned.match_ first rfl
    rw [length] at ends least
    have occursFirst := (endsAt_iff_occursAt nonempty icase text first).mp ends
    refine ⟨fun position occurs none known => ?_, fun none => absurd occursFirst (none first)⟩
    have below := least _ (by omega) (unskipped_of_known known)
      ((endsAt_iff_occursAt nonempty icase text position).mpr occurs)
    have same : first = position :=
      le_antisymm (by omega) (not_lt.mp fun less => none first less occursFirst)
    simp only [same, BitVec.ofNat_eq_ofNat, BitVec.zero_add]

/-- An occurrence behind another symbol. -/
theorem bmFind_contiguous_behind : bmFind (bmInit [97, 98] false) [[120, 97, 98]] 0 4 = some 1 := by
  have occurs : OccursAt false [97, 98] [120, 97, 98] 1 := by decide
  refine (bmFind_contiguous (by decide) false (by decide)).1 1 occurs ?_
    (Or.inr (knownAt_exact _ _ _))
  intro earlier below
  have zero : earlier = 0 := by omega
  subst zero
  decide

/-- The bytes 255 and 223 are equal for `toupper`, but the bad shift array has no entry for 255. -/
theorem folded_byte_hides_occurrence :
    OccursAt true [255, 65] [88, 255, 97] 1 ∧ bmFind (bmInit [255, 65] true) [[88, 255, 97]] 0 4 =
      some UINT_MAX := by
  decide

/-! ## Several blocks -/

section Blocks

variable {pattern : List U8} {icase : Bool}

def totalLength (blocks : List (List U8)) : Nat := (blocks.map List.length).sum

theorem totalLength_cons (text : List U8) (blocks : List (List U8)) :
    totalLength (text :: blocks) = text.length + totalLength blocks := by
  rw [totalLength, List.map_cons, List.sum_cons]
  rfl

variable {fuel shift : Nat}

/-- Blocks without an occurrence are passed.  The search goes on behind the longest of them, and not
more than the pattern's length behind those that it has looked into. -/
theorem bmFindFrom_append (nonempty : pattern ≠ []) {before : List (List U8)}
    (blocks : List (List U8))
    (filled : ∀ text ∈ before, text ≠ [])
    (absent : ∀ text ∈ before, ∀ position, ¬ OccursAt icase pattern text position)
    (enough : ∀ text ∈ before, text.length < fuel) (consumed : U32)
    (room : pattern.length ≤ shift + 1) :
    ∃ entry, bmFindFrom (bmInit pattern icase) fuel (before ++ blocks) consumed shift =
        bmFindFrom (bmInit pattern icase) fuel blocks
          (consumed + BitVec.ofNat 32 (totalLength before)) entry ∧
      shift ≤ entry ∧ (∀ text ∈ before, text.length ≤ entry) ∧
      ∀ limit, shift ≤ limit →
        (∀ text ∈ before, text.length < pattern.length ∨ text.length + pattern.length ≤ limit + 1) →
          entry ≤ limit := by
  induction before generalizing consumed shift with
  | nil =>
    have none : consumed + BitVec.ofNat 32 (totalLength []) = consumed := BitVec.add_zero consumed
    rw [none]
    exact ⟨shift, rfl, le_rfl, fun _ listed => (by cases listed), fun _ low _ => low⟩
  | cons text before ih =>
    have more : text.length ≠ 0 :=
      fun zero => filled text List.mem_cons_self (List.length_eq_zero_iff.mp zero)
    have fits := enough text List.mem_cons_self
    obtain ⟨found, left, runs, scanned⟩ := runFor_shiftTurn nonempty icase room
      (show text.length - shift < fuel by omega)
    have missed : found = none := by
      cases found with
      | none => rfl
      | some position =>
        have ends := (scanned.match_ position rfl).1
        rw [bmInit_length] at ends
        exact absurd ((endsAt_iff_occursAt nonempty icase text position).mp ends)
          (absent text List.mem_cons_self position)
    subst missed
    have bound := scanned.bound
    rw [bmInit_length] at bound
    have passedText := (scanned.none rfl).1
    obtain ⟨entry, passed, low, behind, most⟩ := ih (List.forall_mem_cons.mp filled).2
      (List.forall_mem_cons.mp absent).2
      (List.forall_mem_cons.mp enough).2
      (consumed + BitVec.ofNat 32 text.length) (show pattern.length ≤ left + 1 by omega)
    rw [List.cons_append, bmFindFrom, if_neg more, runs]
    refine ⟨entry, passed.trans ?_,
      by omega, List.forall_mem_cons.mpr ⟨by omega, behind⟩, fun limit below few => ?_⟩
    · rw [totalLength_cons, BitVec.ofNat_add, BitVec.add_assoc]
    · obtain ⟨here, later⟩ := List.forall_mem_cons.mp few
      exact most limit (by omega) later

/-- Whatever is found lies behind what was consumed. -/
theorem bmFindFrom_behind (nonempty : pattern ≠ []) {blocks : List (List U8)}
    (enough : ∀ text ∈ blocks, text.length < fuel) {consumed : U32}
    (room : pattern.length ≤ shift + 1)
    (small : consumed.toNat + totalLength blocks < 2 ^ 32) :
    ∃ result, bmFindFrom (bmInit pattern icase) fuel blocks consumed shift = some result ∧
      (result = UINT_MAX ∨ consumed.toNat ≤ result.toNat) := by
  induction blocks generalizing consumed shift with
  | nil => exact ⟨UINT_MAX, rfl, Or.inl rfl⟩
  | cons text blocks ih =>
    rw [totalLength_cons] at small
    rw [bmFindFrom]
    by_cases empty : text.length = 0
    · rw [if_pos empty]
      exact ⟨UINT_MAX, rfl, Or.inl rfl⟩
    rw [if_neg empty]
    have fits := enough text List.mem_cons_self
    obtain ⟨found, left, runs, scanned⟩ := runFor_shiftTurn nonempty icase room
      (show text.length - shift < fuel by omega)
    have bound := scanned.bound
    rw [runs]
    cases found with
    | some position =>
      have inside := (scanned.match_ position rfl).1.2
      refine ⟨_, rfl, Or.inr ?_⟩
      rw [BitVec.toNat_add, BitVec.toNat_ofNat]
      omega
    | none =>
      have sum : (consumed + BitVec.ofNat 32 text.length).toNat = consumed.toNat + text.length := by
        rw [BitVec.toNat_add, BitVec.toNat_ofNat]
        omega
      obtain ⟨result, returns, behind⟩ := ih (List.forall_mem_cons.mp enough).2
        (show pattern.length ≤ left + 1 by omega)
        (show (consumed + BitVec.ofNat 32 text.length).toNat + totalLength blocks < 2 ^ 32 by omega)
      refine ⟨result, returns, behind.imp_right fun less => ?_⟩
      omega

/-- The first occurrence in a block is found just when the search enters the block early enough. -/
theorem bmFindFrom_entered_iff (nonempty : pattern ≠ []) {text : List U8} {after : List (List U8)}
    {position : Nat}
    (occurs : OccursAt icase pattern text position)
    (first : ∀ earlier < position, ¬ OccursAt icase pattern text earlier)
    (known : position = 0 ∨ KnownAt (bmInit pattern icase) text position) {consumed : U32}
    {entry : Nat}
    (room : pattern.length ≤ entry + 1)
    (small : consumed.toNat + (text.length + totalLength after) < 2 ^ 32)
    (enough : ∀ block ∈ text :: after, block.length < fuel) :
    bmFindFrom (bmInit pattern icase) fuel (text :: after) consumed entry =
        some (consumed + BitVec.ofNat 32 position) ↔
      entry ≤ position + (pattern.length - 1) := by
  have length := bmInit_length pattern icase
  have ends := (endsAt_iff_occursAt nonempty icase text position).mpr occurs
  have inside := ends.2
  have fits := enough text List.mem_cons_self
  obtain ⟨found, left, runs, scanned⟩ :=
    runFor_shiftTurn nonempty icase room (show text.length - entry < fuel by omega)
  have unskipped (reached : entry ≤ position + (pattern.length - 1)) :
      Unskipped (bmInit pattern icase) text entry (position + (pattern.length - 1)) := by
    refine known.imp (fun start => by omega) fun known => ?_
    rw [length, Nat.add_sub_cancel]
    exact known
  have sum (amount : Nat) (bounded : amount ≤ text.length) :
      (consumed + BitVec.ofNat 32 amount).toNat = consumed.toNat + amount := by
    rw [BitVec.toNat_add, BitVec.toNat_ofNat]
    omega
  rw [bmFindFrom, if_neg (by omega), runs]
  cases found with
  | some other =>
    obtain ⟨endsOther, behind, least⟩ := scanned.match_ other rfl
    rw [length] at endsOther behind least
    have insideOther := endsOther.2
    constructor
    · intro same
      injection same with same
      have numbers := congrArg BitVec.toNat same
      rw [sum other (by omega), sum position (by omega)] at numbers
      omega
    · intro reached
      have below := least _ reached (unskipped reached) ends
      have occursOther := (endsAt_iff_occursAt nonempty icase text other).mp endsOther
      have equal : other = position :=
        le_antisymm (by omega) (not_lt.mp fun less => first other less occursOther)
      rw [equal]
  | none =>
    have bound := scanned.bound
    have textSum := sum text.length le_rfl
    obtain ⟨passedText, missed⟩ := scanned.none rfl
    constructor
    · -- whatever is found in a later block lies behind this one
      intro same
      obtain ⟨result, returns, behind⟩ := bmFindFrom_behind nonempty
        (List.forall_mem_cons.mp enough).2 (show pattern.length ≤ left + 1 by omega)
        (show (consumed + BitVec.ofNat 32 text.length).toNat + totalLength after < 2 ^ 32 by omega)
      simp only at same
      rw [returns, Option.some.injEq] at same
      have expected := sum position (by omega)
      rw [← same] at expected
      rcases behind with last | less
      · rw [last, show UINT_MAX.toNat = 2 ^ 32 - 1 from rfl] at expected
        omega
      · omega
    · intro reached
      exact absurd ends (missed _ reached (unskipped reached))

end Blocks

/-- The first occurrence inside a block is found if every block before is shorter than the pattern
or not longer than what stands before the occurrence in its block; a block before that covers the
occurrence hides it. -/
theorem bmFind_fragmented {pattern : List U8} (nonempty : pattern ≠ []) (icase : Bool)
    {before after : List (List U8)} {text : List U8} {position : Nat}
    (filled : ∀ block ∈ before, block ≠ [])
    (absent : ∀ block ∈ before, ∀ position, ¬ OccursAt icase pattern block position)
    (occurs : OccursAt icase pattern text position)
    (first : ∀ earlier < position, ¬ OccursAt icase pattern text earlier)
    (known : position = 0 ∨ KnownAt (bmInit pattern icase) text position) {offset : U32}
    (small : offset.toNat + totalLength (before ++ text :: after) < 2 ^ 32) {fuel : Nat}
    (enough : ∀ block ∈ before ++ text :: after, block.length < fuel) :
    ((∀ block ∈ before, block.length < pattern.length ∨ block.length ≤ position) →
        bmFind (bmInit pattern icase) (before ++ text :: after) offset fuel =
          some (offset + BitVec.ofNat 32 (totalLength before + position))) ∧
      ((∃ block ∈ before, position + pattern.length ≤ block.length) →
        bmFind (bmInit pattern icase) (before ++ text :: after) offset fuel ≠
          some (offset + BitVec.ofNat 32 (totalLength before + position))) := by
  have length := bmInit_length pattern icase
  have positive := List.length_pos_iff.mpr nonempty
  have sum : totalLength (before ++ text :: after) =
      totalLength before + (text.length + totalLength after) := by
    rw [totalLength, List.map_append, List.sum_append, ← totalLength, ← totalLength,
      totalLength_cons]
  obtain ⟨entry, passed, low, behind, most⟩ :=
    bmFindFrom_append nonempty (text :: after) filled absent
    (fun block listed => enough block (List.mem_append_left _ listed)) offset
    (show pattern.length ≤ pattern.length - 1 + 1 by omega)
  have consumed : (offset + BitVec.ofNat 32 (totalLength before)).toNat =
      offset.toNat + totalLength before := by
    rw [BitVec.toNat_add, BitVec.toNat_ofNat]
    omega
  have entered := bmFindFrom_entered_iff nonempty occurs first known
    (show pattern.length ≤ entry + 1 by omega) (by rw [consumed]; omega)
    fun block listed => enough block (List.mem_append_right before listed)
  rw [bmFind, length, passed, BitVec.ofNat_add, ← BitVec.add_assoc, Ne, entered]
  constructor
  · intro few
    refine most _ (by omega) fun block listed => (few block listed).imp_right fun fits => ?_
    omega
  · rintro ⟨block, listed, covers⟩
    have := behind block listed
    omega

/-- A block shorter than the pattern in front of the occurrence. -/
theorem bmFind_fragmented_short : bmFind (bmInit [97, 98] false) [[120], [97, 98]] 0 4 =
    some 1 := by
  have occurs : OccursAt false [97, 98] [97, 98] 0 := by decide
  have absent : ∀ block ∈ [[120]], ∀ position, ¬ OccursAt false [97, 98] block position := by
    intro block listed position found
    have long := found.length_le
    rw [List.mem_singleton.mp listed] at long
    simp at long
    omega
  have found : (∀ block ∈ ([[120]] : List (List U8)), block.length < 2 ∨ block.length ≤ 0) →
      bmFind (bmInit [97, 98] false) ([[120]] ++ [97, 98] :: []) 0 4 =
        some (0 + BitVec.ofNat 32 (totalLength [[120]] + 0)) :=
    (@bmFind_fragmented [97, 98] (by decide) false [[120]] [] [97, 98] 0 (by decide) absent occurs
      (fun earlier below => absurd below (Nat.not_lt_zero earlier)) (Or.inl rfl) 0 (by decide) 4
        (by decide)).1
  exact found (by decide)

/-- A block of the pattern's length hides an occurrence at the start of the next one. -/
theorem first_block_hides_second :
    OccursAt false [97, 98] [97, 98] 0 ∧ bmFind (bmInit [97, 98] false) [[120, 120], [97, 98]] 0 4 =
      some UINT_MAX := by
  decide

end RouterKernel.TextSearch
