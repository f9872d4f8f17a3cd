import Mathlib.Tactic

/-!
Contract: linked chains in a store.

Owns:
- `Segment`, the nodes visited from one pointer to another;
- how segments split, join and depend on the links of their nodes only;
- the redirection of a segment's last link.
-/

namespace RouterKernel.Foundation

variable {ι : Type} {next next' : ι → Option ι} {start stop middle : Option ι}

/-- Following `next` from `start` visits the nodes of the list and arrives at `stop`. -/
def Segment (next : ι → Option ι) : Option ι → List ι → Option ι → Prop
  | start, [], stop => start = stop
  | start, node :: rest, stop => start = some node ∧ Segment next (next node) rest stop

/-- A segment that ends with the null pointer. -/
abbrev Chain (next : ι → Option ι) (start : Option ι) (nodes : List ι) : Prop :=
  Segment next start nodes none

theorem segment_append {front back : List ι} : Segment next start (front ++ back) stop ↔
      ∃ middle, Segment next start front middle ∧ Segment next middle back stop := by
  induction front generalizing start with
  | nil => simp [Segment]
  | cons node rest ih => simp [Segment, ih, and_assoc]

theorem segment_snoc {front : List ι} {last : ι} : Segment next start (front ++ [last]) stop ↔
      Segment next start front (some last) ∧ next last = stop := by
  rw [segment_append]
  constructor
  · rintro ⟨middle, walked, reached, arrived⟩
    exact ⟨reached ▸ walked, arrived⟩
  · rintro ⟨walked, arrived⟩
    exact ⟨some last, walked, rfl, arrived⟩

variable {nodes : List ι}

theorem Segment.congr (segment : Segment next start nodes stop)
    (agree : ∀ node ∈ nodes, next' node = next node) : Segment next' start nodes stop := by
  induction nodes generalizing start with
  | nil => exact segment
  | cons node rest ih =>
    refine ⟨segment.1, ?_⟩
    rw [agree node List.mem_cons_self]
    exact ih segment.2 (List.forall_mem_cons.mp agree).2

theorem Segment.start_eq (chain : Chain next start nodes) : start = nodes.head? := by
  cases nodes with
  | nil => exact chain
  | cons node rest => exact chain.1

/-- The last link of a segment set to another pointer; an empty segment has none, and its
start is changed instead. -/
theorem Segment.redirect (segment : Segment next start nodes middle) (distinct : nodes.Nodup)
    (agree : ∀ node ∈ nodes, nodes.getLast? ≠ some node → next' node = next node)
    (last : ∀ node, nodes.getLast? = some node → next' node = stop) :
    Segment next' (if nodes = [] then stop else start) nodes stop := by
  rcases List.eq_nil_or_concat nodes with rfl | ⟨front, final, rfl⟩
  · rfl
  · rw [List.concat_eq_append] at segment distinct agree last ⊢
    rw [if_neg (by simp), segment_snoc]
    constructor
    · refine (segment_snoc.mp segment).1.congr fun node listed => ?_
      apply agree node (List.mem_append_left _ listed)
      rw [List.getLast?_concat]
      intro same
      injection same with same
      subst same
      exact (List.nodup_append.mp distinct).2.2 final listed final List.mem_cons_self rfl
    · exact last final List.getLast?_concat

end RouterKernel.Foundation
