import RouterKernel.Resources.Insertion

/-!
Contract: the resource trees over any sequence of operations.

Owns:
- the operations and when a caller may use them;
- `Reached`, the heaps that sequences of operations lead to;
- that every reached heap is kept, and what each operation does there.
-/

namespace RouterKernel.Resources

open RouterKernel.Foundation

/-- What a caller does: fill in the range of a resource of its own, and the functions of
`kernel/resource.c`. -/
inductive Op where
  | describe (new : Ptr) (start stop : U32)
  | request (root new : Ptr)
  | insert (root new : Ptr)
  | expandToFit (root new : Ptr)
  | release (old : Ptr)
deriving DecidableEq, Repr

def step (heap : Heap) : Op → Nat → Attempt Fault (Except Errno Unit × Heap)
  | .describe new start stop, _ => pure (.ok (), ranged heap new start stop)
  | .request root new, fuel => requestResource heap root new fuel
  | .insert root new, fuel => insertResource heap root new fuel
  | .expandToFit root new, fuel => do
    let heap ← insertResourceExpandToFit heap root new fuel
    pure (.ok (), heap)
  | .release old, fuel => releaseResource heap old fuel

/-- New resources are detached and childless, released ones are attached. -/
def Allowed (heap : Heap) : Op → Prop
  | .describe new _ _ => Loose heap new
  | .request root new => Loose heap new ∧ new ≠ root
  | .insert root new => Loose heap new ∧ new ≠ root
  | .expandToFit root new => Loose heap new ∧ new ≠ root
  | .release old => ∃ parent, (heap old).parent = some parent

inductive Reached : Heap → Prop
  | start {heap} (loose : ∀ r, Loose heap r) : Reached heap
  | step {heap op ret heap'} (reached : Reached heap) (allowed : Allowed heap op)
      (ran : Returns (step heap op) (· = (ret, heap'))) : Reached heap'

/-- The outcome of an operation.  A request or insertion that fails changes nothing, and
an insertion succeeds exactly when the range fits in the root and overlaps none of the
tree partially. -/
def Effect (heap : Heap) : Op → Except Errno Unit × Heap → Prop
  | .describe new start stop, result => result = (.ok (), ranged heap new start stop)
  | .request root new, result =>
    (result.1 = .ok () ∧ (result.2 new).parent = some root) ∨ result = (.error .EBUSY, heap)
  | .insert root new, result =>
    ((result.1 = .ok () ∧ (result.2 new).parent ≠ none) ∨ result = (.error .EBUSY, heap)) ∧ ∀ top,
        Under heap top root →
        (result.1 = .ok () ↔ Fits heap root new ∧ ∀ x, Under heap top x →
          ¬ Overlap (heap x) (heap new))
  | .expandToFit _ new, result =>
    (result.2 new).parent ≠ none ∨ ∀ x, x ≠ new → result.2 x = heap x
  | .release old, result => result.1 = .ok () ∧ (result.2 old).parent = none

variable {heap : Heap} {kids : Ptr → List Ptr} {root new : Ptr}

/-- The postcondition of every operation: its effect, and a kept heap. -/
def StepPost (heap : Heap) (op : Op) (result : Except Errno Unit × Heap) : Prop :=
  Effect heap op result ∧ ∃ kids, Kept result.2 kids

theorem request_returns (kept : Kept heap kids) (loose : Loose heap new) (other : new ≠ root) :
    Returns (step heap (.request root new)) (StepPost heap (.request root new)) := by
  refine Returns.bind (requestResourceConflict_returns kept loose other) ?_
  rintro ⟨conflict, after⟩ requested
  cases requested with
  | placed fitting placed =>
    exact Returns.pure ⟨.inl ⟨rfl, by rw [placed.parents, if_pos rfl]⟩, _,
      kept.placed fitting placed⟩
  | meets fits split before touches | unfit unfit => exact Returns.pure ⟨.inr rfl, kids, kept⟩

theorem insert_returns (kept : Kept heap kids) (loose : Loose heap new) (other : new ≠ root) :
    Returns (step heap (.insert root new)) (StepPost heap (.insert root new)) := by
  refine Returns.bind (insertResourceConflict_returns kept loose other) ?_
  rintro ⟨conflict, after⟩ inserted
  have exactly (top : Ptr) (above : Under heap top root) := inserted.none_iff kept above
  cases inserted with
  | placed under fitting placed =>
    have attached : (after new).parent ≠ none := by
      rw [placed.parents, if_pos rfl]
      exact Option.some_ne_none _
    refine Returns.pure ⟨⟨.inl ⟨rfl, attached⟩, fun top above => ?_⟩, _, kept.placed fitting placed⟩
    exact ⟨fun _ => (exactly top above).mp rfl, fun _ => rfl⟩
  | unfit unfit =>
    refine Returns.pure ⟨⟨.inr rfl, fun top above => ?_⟩, kids, kept⟩
    constructor
    · intro ok
      cases ok
    · intro fits
      exact absurd fits.1 unfit
  | overlap under child overlap =>
    refine Returns.pure ⟨⟨.inr rfl, fun top above => ?_⟩, kids, kept⟩
    constructor
    · intro ok
      cases ok
    · intro free
      cases (exactly top above).mpr free

theorem expandToFit_returns (kept : Kept heap kids) (loose : Loose heap new) (other : new ≠ root) :
    Returns (step heap (.expandToFit root new)) (StepPost heap (.expandToFit root new)) := by
  refine Returns.bind (insertResourceExpandToFit_returns kept loose other) ?_
  rintro after ⟨start, stop, inserted | rfl⟩
  · cases inserted with
    | placed under fitting placed =>
      have attached : (after new).parent ≠ none := by
        rw [placed.parents, if_pos rfl]
        exact Option.some_ne_none _
      exact Returns.pure ⟨.inl attached, _, (kept.withRange loose start stop).placed fitting placed⟩
  · exact Returns.pure ⟨.inr fun x different => ranged_of_ne different start stop, kids,
      kept.withRange loose start stop⟩

theorem step_returns (kept : Kept heap kids) {op : Op} (allowed : Allowed heap op) :
    Returns (step heap op) (StepPost heap op) := by
  cases op with
  | describe new start stop => exact Returns.pure ⟨rfl, kids, kept.withRange allowed start stop⟩
  | request root new => exact request_returns kept allowed.1 allowed.2
  | insert root new => exact insert_returns kept allowed.1 allowed.2
  | expandToFit root new => exact expandToFit_returns kept allowed.1 allowed.2
  | release old =>
    obtain ⟨parent, below⟩ := allowed
    refine (releaseResource_returns kept below).mono ?_
    rintro result ⟨done, detached, keeps⟩
    exact ⟨⟨done, detached⟩, keeps⟩

theorem kept_of_loose (loose : ∀ r, Loose heap r) : Kept heap fun _ => [] where
  linked r := (loose r).2
  parents r c := by simp [(loose c).1]
  ordered _ := List.Pairwise.nil
  nested _ _ listed := by cases listed
  founded := ⟨fun _ => 0, fun _ _ listed => by cases listed⟩

theorem Reached.kept (reached : Reached heap) : ∃ kids, Kept heap kids := by
  induction reached with
  | start loose => exact ⟨_, kept_of_loose loose⟩
  | step _ allowed ran ih =>
    obtain ⟨kids, kept⟩ := ih
    exact ((step_returns kept allowed).post_of_eq ran).2

/-- After any sequence of operations the trees are kept, and every operation returns with
its effect. -/
theorem resources_kept (reached : Reached heap) : (∃ kids, Kept heap kids) ∧
      ∀ op, Allowed heap op → Returns (step heap op) (Effect heap op) := by
  obtain ⟨kids, kept⟩ := reached.kept
  refine ⟨⟨kids, kept⟩, fun op allowed => ?_⟩
  exact (step_returns kept allowed).mono fun _ post => post.1

/-- A root, and resources for the ranges 16–31 and 8–63. -/
def threeRanges : Heap
  | 0 => ⟨0, 255, none, none, none⟩
  | 1 => ⟨16, 31, none, none, none⟩
  | 2 => ⟨8, 63, none, none, none⟩
  | _ => ⟨0, 0, none, none, none⟩

theorem threeRanges_loose (r : Ptr) : Loose threeRanges r := by
  unfold Loose threeRanges
  split <;> exact ⟨rfl, rfl⟩

def oneRequested : Heap := linkIn threeRanges 0 1 (.child 0)

theorem oneRequested_reached : Reached oneRequested := by
  have allowed : Allowed threeRanges (.request 0 1) := ⟨threeRanges_loose 1, by decide⟩
  have stops : requestTurn threeRanges 0 1 (.child 0) = .ok (.halted (none, oneRequested)) := rfl
  have looped : Returns (requestResourceConflict threeRanges 0 1) (· = (none, oneRequested)) :=
    Returns.loop_halted stops rfl
  have ran : Returns (step threeRanges (.request 0 1)) (· = (.ok (), oneRequested)) := by
    refine Returns.bind looped ?_
    rintro _ rfl
    exact Returns.pure rfl
  exact .step (.start threeRanges_loose) allowed ran

theorem resources_kept_oneRequested : Allowed oneRequested (.insert 0 2) ∧
      Returns (step oneRequested (.insert 0 2)) (Effect oneRequested (.insert 0 2)) := by
  have allowed : Allowed oneRequested (.insert 0 2) := ⟨⟨rfl, rfl⟩, by decide⟩
  exact ⟨allowed, (resources_kept oneRequested_reached).2 (.insert 0 2) allowed⟩

end RouterKernel.Resources
