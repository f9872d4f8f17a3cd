import Mathlib.Tactic

/-!
Contract: the common parts of two ascending lists of intervals, found by going along both.

Owns:
- `Span`, a half-open interval, and the intersection of two;
- `sweep`, which always passes the interval that ends first;
- that it finds every common part once, in ascending order;
- that going along the mirror images from the other end finds the same.
-/

namespace RouterKernel.Foundation

structure Span (τ : Type) where
  lo : ℤ
  hi : ℤ
  label : τ
deriving DecidableEq, Repr

variable {τ ρ : Type}

namespace Span

def inter (left : Span τ) (right : Span ρ) : Span τ :=
  ⟨max left.lo right.lo, min left.hi right.hi, left.label⟩

/-- The two have an element in common. -/
def Meets (left : Span τ) (right : Span ρ) : Prop := (left.inter right).lo < (left.inter right).hi

def mirror (span : Span τ) : Span τ := ⟨-span.hi, -span.lo, span.label⟩

theorem meets_iff {left : Span τ} {right : Span ρ} :
    left.Meets right ↔ left.lo < left.hi ∧ right.lo < right.hi ∧ left.lo < right.hi ∧
      right.lo < left.hi := by
  rw [Meets, inter, max_lt_iff, lt_min_iff, lt_min_iff]
  tauto

@[simp] theorem mirror_mirror (span : Span τ) : span.mirror.mirror = span := by
  simp [mirror]

theorem mirror_injective : Function.Injective (mirror : Span τ → Span τ) :=
  Function.LeftInverse.injective mirror_mirror

theorem mirror_inter (left : Span τ) (right : Span ρ) :
    left.mirror.inter right.mirror = (left.inter right).mirror := by
  simp [inter, mirror, max_neg_neg, min_neg_neg]

theorem mirror_meets {left : Span τ} {right : Span ρ} :
    left.mirror.Meets right.mirror ↔ left.Meets right := by
  rw [Meets, mirror_inter, Meets, mirror, neg_lt_neg_iff]

end Span

/-- Each interval ends before the next one begins. -/
def Ascending (spans : List (Span τ)) : Prop := spans.Pairwise fun left right => left.hi ≤ right.lo

/-- The common parts of the intervals of two lists, labelled by the first. -/
def sweep : List (Span τ) → List (Span ρ) → List (Span τ)
  | [], _ => []
  | _ :: _, [] => []
  | m :: ms, g :: gs =>
    if m.hi ≤ g.lo then sweep ms (g :: gs)
    else if m.lo < g.hi then
      if m.hi ≤ g.hi then m.inter g :: sweep ms (g :: gs) else m.inter g :: sweep (m :: ms) gs
    else sweep (m :: ms) gs
termination_by ms gs => ms.length + gs.length

@[simp] theorem sweep_nil_right (ms : List (Span τ)) : sweep ms ([] : List (Span ρ)) = [] := by
  cases ms <;> rw [sweep]

/-- Two lists that can be swept: ascending, the first one without empty intervals, and those of
the second one never empty inside one of the first. -/
structure Sweepable (ms : List (Span τ)) (gs : List (Span ρ)) : Prop where
  left : Ascending ms
  right : Ascending gs
  filled : ∀ m ∈ ms, m.lo < m.hi
  proper : ∀ g ∈ gs, g.lo ≤ g.hi
  open_ : ∀ m ∈ ms, ∀ g ∈ gs, m.lo < g.hi → g.lo < m.hi → g.lo < g.hi

section Swept

variable {ms : List (Span τ)} {gs : List (Span ρ)} {m : Span τ} {g : Span ρ}

theorem Sweepable.tail_left (sweepable : Sweepable (m :: ms) gs) : Sweepable ms gs :=
  ⟨(List.pairwise_cons.mp sweepable.left).2, sweepable.right,
    (List.forall_mem_cons.mp sweepable.filled).2, sweepable.proper,
    (List.forall_mem_cons.mp sweepable.open_).2⟩

theorem Sweepable.tail_right (sweepable : Sweepable ms (g :: gs)) : Sweepable ms gs :=
  ⟨sweepable.left, (List.pairwise_cons.mp sweepable.right).2, sweepable.filled,
    (List.forall_mem_cons.mp sweepable.proper).2,
    fun m listedM other listed => sweepable.open_ m listedM other (List.mem_cons_of_mem g listed)⟩

/-- An interval is a common part. -/
def Common (ms : List (Span τ)) (gs : List (Span ρ)) (part : Span τ) : Prop :=
  ∃ m ∈ ms, ∃ g ∈ gs, m.Meets g ∧ part = m.inter g

theorem common_cons_left {part : Span τ} :
    Common (m :: ms) gs part ↔ (∃ g ∈ gs, m.Meets g ∧ part = m.inter g) ∨ Common ms gs part := by
  simp [Common]

theorem common_cons_right {part : Span τ} :
    Common ms (g :: gs) part ↔ (∃ m ∈ ms, m.Meets g ∧ part = m.inter g) ∨ Common ms gs part := by
  simp only [Common, List.mem_cons, exists_eq_or_imp, ← exists_or, ← and_or_left]

theorem Sweepable.behind_right (sweepable : Sweepable ms (g :: gs)) :
    ∀ other ∈ gs, g.hi ≤ other.lo :=
  (List.pairwise_cons.mp sweepable.right).1

theorem Sweepable.behind_left (sweepable : Sweepable (m :: ms) gs) :
    ∀ other ∈ ms, m.hi ≤ other.lo :=
  (List.pairwise_cons.mp sweepable.left).1

theorem mem_sweep (sweepable : Sweepable ms gs) (part : Span τ) :
    part ∈ sweep ms gs ↔ Common ms gs part := by
  induction ms, gs using sweep.induct with
  | case1 gs => simp [sweep, Common]
  | case2 m ms => simp [Common]
  | case3 m ms g gs passed ih =>
    have proper := sweepable.proper g List.mem_cons_self
    rw [sweep, if_pos passed, ih sweepable.tail_left, common_cons_left]
    refine ⟨Or.inr, fun common => common.resolve_left ?_⟩
    rintro ⟨other, listed, meets, -⟩
    rw [Span.meets_iff] at meets
    rcases List.mem_cons.mp listed with rfl | later
    · omega
    · have behind := sweepable.behind_right other later
      omega
  | case4 m ms g gs here meetsLo ended ih =>
    rw [sweep, if_neg here, if_pos meetsLo, if_pos ended, List.mem_cons, ih sweepable.tail_left,
      common_cons_left]
    have meets : m.Meets g := Span.meets_iff.mpr ⟨sweepable.filled m List.mem_cons_self,
      sweepable.open_ m List.mem_cons_self g List.mem_cons_self meetsLo (not_le.mp here), meetsLo,
        not_le.mp here⟩
    refine or_congr_left ⟨fun same => ⟨g, List.mem_cons_self, meets, same⟩, ?_⟩
    rintro ⟨other, listed, meetsOther, same⟩
    rcases List.mem_cons.mp listed with rfl | later
    · exact same
    · have behind := sweepable.behind_right other later
      rw [Span.meets_iff] at meetsOther
      omega
  | case5 m ms g gs here meetsLo goesOn ih =>
    rw [sweep, if_neg here, if_pos meetsLo, if_neg goesOn, List.mem_cons, ih sweepable.tail_right,
      common_cons_right]
    have meets : m.Meets g := Span.meets_iff.mpr ⟨sweepable.filled m List.mem_cons_self,
      sweepable.open_ m List.mem_cons_self g List.mem_cons_self meetsLo (not_le.mp here), meetsLo,
        not_le.mp here⟩
    refine or_congr_left ⟨fun same => ⟨m, List.mem_cons_self, meets, same⟩, ?_⟩
    rintro ⟨other, listed, meetsOther, same⟩
    rcases List.mem_cons.mp listed with rfl | later
    · exact same
    · have behind := sweepable.behind_left other later
      rw [Span.meets_iff] at meetsOther
      omega
  | case6 m ms g gs here below ih =>
    rw [sweep, if_neg here, if_neg below, ih sweepable.tail_right, common_cons_right]
    refine ⟨Or.inr, fun common => common.resolve_left ?_⟩
    rintro ⟨other, listed, meets, -⟩
    rw [Span.meets_iff] at meets
    have filled := sweepable.filled m List.mem_cons_self
    rcases List.mem_cons.mp listed with rfl | later
    · omega
    · have behind := sweepable.behind_left other later
      omega

theorem ascending_sweep (sweepable : Sweepable ms gs) : Ascending (sweep ms gs) := by
  induction ms, gs using sweep.induct with
  | case1 gs => simp [sweep, Ascending]
  | case2 m ms => simp [Ascending]
  | case3 m ms g gs passed ih =>
    rw [sweep, if_pos passed]
    exact ih sweepable.tail_left
  | case4 m ms g gs here meetsLo ended ih =>
    rw [sweep, if_neg here, if_pos meetsLo, if_pos ended]
    refine List.pairwise_cons.mpr ⟨fun part listed => ?_, ih sweepable.tail_left⟩
    obtain ⟨other, later, gap, -, -, rfl⟩ := (mem_sweep sweepable.tail_left part).mp listed
    exact (min_le_left _ _).trans ((sweepable.behind_left other later).trans (le_max_left _ _))
  | case5 m ms g gs here meetsLo goesOn ih =>
    rw [sweep, if_neg here, if_pos meetsLo, if_neg goesOn]
    refine List.pairwise_cons.mpr ⟨fun part listed => ?_, ih sweepable.tail_right⟩
    obtain ⟨other, -, gap, later, -, rfl⟩ := (mem_sweep sweepable.tail_right part).mp listed
    exact (min_le_right _ _).trans ((sweepable.behind_right gap later).trans (le_max_right _ _))
  | case6 m ms g gs here below ih =>
    rw [sweep, if_neg here, if_neg below]
    exact ih sweepable.tail_right

/-! ## From the other end -/

/-- A list seen from the other end. -/
def mirrored (spans : List (Span τ)) : List (Span τ) := spans.reverse.map Span.mirror

theorem mem_mirrored {spans : List (Span τ)} {span : Span τ} :
    span ∈ mirrored spans ↔ span.mirror ∈ spans := by
  rw [mirrored, List.mem_map]
  constructor
  · rintro ⟨other, listed, rfl⟩
    rw [Span.mirror_mirror]
    exact List.mem_reverse.mp listed
  · exact fun listed => ⟨span.mirror, List.mem_reverse.mpr listed, Span.mirror_mirror span⟩

theorem ascending_mirrored {spans : List (Span τ)} (ascending : Ascending spans) :
    Ascending (mirrored spans) := by
  rw [Ascending, mirrored, List.pairwise_map, List.pairwise_reverse]
  exact ascending.imp fun order => neg_le_neg order

theorem Sweepable.mirrored (sweepable : Sweepable ms gs) :
    Sweepable (mirrored ms) (mirrored gs) := by
  refine ⟨ascending_mirrored sweepable.left, ascending_mirrored sweepable.right, ?_, ?_, ?_⟩
  · intro m listed
    have filled := sweepable.filled _ (mem_mirrored.mp listed)
    simp only [Span.mirror] at filled
    omega
  · intro g listed
    have proper := sweepable.proper _ (mem_mirrored.mp listed)
    simp only [Span.mirror] at proper
    omega
  · intro m listedM g listedG low high
    have inside := sweepable.open_ _ (mem_mirrored.mp listedM) _ (mem_mirrored.mp listedG)
    simp only [Span.mirror] at inside
    omega

theorem ascending_ext {left right : List (Span τ)} (ascendingLeft : Ascending left)
    (ascendingRight : Ascending right)
    (filled : ∀ span ∈ left, span.lo < span.hi) (same : ∀ span, span ∈ left ↔ span ∈ right) :
      left = right := by
  have strict {spans : List (Span τ)} (ascending : Ascending spans) (nonempty : ∀ span ∈ spans,
      span.lo < span.hi) :
      spans.Pairwise fun a b => a.lo < b.lo :=
    List.Pairwise.imp_of_mem (fun listed _ order => (nonempty _ listed).trans_le order) ascending
  have strictLeft := strict ascendingLeft filled
  have strictRight := strict ascendingRight fun span listed => filled span ((same span).mpr listed)
  have nodup {spans : List (Span τ)} (pairwise : spans.Pairwise fun a b => a.lo < b.lo) :
      spans.Nodup :=
    List.Pairwise.imp (fun less equal => less.ne (congrArg Span.lo equal)) pairwise
  have permuted := (List.perm_ext_iff_of_nodup (nodup strictLeft) (nodup strictRight)).mpr same
  exact permuted.eq_of_pairwise (fun a b _ _ first second =>
    absurd first (lt_asymm second)) strictLeft strictRight

/-- The sweep from the other end finds the same parts in the opposite order. -/
theorem sweep_mirrored (sweepable : Sweepable ms gs) :
    sweep (mirrored ms) (mirrored gs) = mirrored (sweep ms gs) := by
  refine ascending_ext (ascending_sweep sweepable.mirrored)
    (ascending_mirrored (ascending_sweep sweepable)) ?_ ?_
  · intro part listed
    obtain ⟨m, -, g, -, meets, rfl⟩ := (mem_sweep sweepable.mirrored part).mp listed
    exact meets
  · intro part
    rw [mem_sweep sweepable.mirrored, mem_mirrored, mem_sweep sweepable]
    constructor
    · rintro ⟨m, listedM, g, listedG, meets, rfl⟩
      refine ⟨m.mirror, mem_mirrored.mp listedM, g.mirror, mem_mirrored.mp listedG,
        Span.mirror_meets.mpr meets, ?_⟩
      rw [Span.mirror_inter]
    · rintro ⟨m, listedM, g, listedG, meets, same⟩
      refine ⟨m.mirror, mem_mirrored.mpr (by rwa [Span.mirror_mirror]), g.mirror,
        mem_mirrored.mpr (by rwa [Span.mirror_mirror]), Span.mirror_meets.mpr meets, ?_⟩
      rw [Span.mirror_inter, ← same, Span.mirror_mirror]

end Swept

end RouterKernel.Foundation
