import RouterKernel.Foundation.Run

/-!
Contract: what an anti-replay window is for, in terms of sets of numbers.

Owns:
- the window itself: the highest number recorded and the set of all of them;
- which number a window of a given width admits, and the receive step;
- `ReplayFree`, the property of a history of decisions that no number is
  admitted twice and that every fresh number inside or above the window is
  admitted;
- the theorem that every run of the receive step has it.

Does not own: any representation of the set.
-/

namespace RouterKernel.Foundation

/-- The highest number recorded so far (0 when there is none) and all of the
recorded numbers. -/
structure Window where
  top : Nat
  seen : Finset Nat
deriving DecidableEq

namespace Window

def empty : Window := ⟨0, ∅⟩

def record (window : Window) (number : Nat) : Window :=
  ⟨max window.top number, insert number window.seen⟩

/-- A number is admitted when it is above the window, or inside and not yet
recorded.  Zero is never a valid number. -/
def Admits (width : Nat) (window : Window) (number : Nat) : Prop :=
  number ≠ 0 ∧ (window.top < number ∨ window.top < number + width ∧ number ∉ window.seen)

instance (width : Nat) (window : Window) (number : Nat) :
    Decidable (Admits width window number) := by
  unfold Admits
  infer_instance

def receive (width : Nat) (window : Window) (number : Nat) : Bool × Window :=
  if window.Admits width number then (true, window.record number) else (false, window)

/-- The top is an upper bound of what was recorded. -/
def Bounded (window : Window) : Prop :=
  ∀ number ∈ window.seen, number ≤ window.top

theorem bounded_empty : Bounded empty := by
  intro number member
  simp [empty] at member

variable {window : Window} {width number : Nat}

theorem bounded_record (bounded : window.Bounded) (number : Nat) :
    (window.record number).Bounded := by
  intro other member
  simp only [record, Finset.mem_insert] at member ⊢
  rcases member with rfl | old
  · exact le_max_right _ _
  · exact (bounded other old).trans (le_max_left _ _)

theorem bounded_receive (bounded : window.Bounded) (number : Nat) :
    (window.receive width number).2.Bounded := by
  unfold receive
  split
  · exact bounded_record bounded number
  · exact bounded

theorem admits_iff_fresh (positive : number ≠ 0) (below : number ≤ window.top)
    (near : window.top < number + width) :
    window.Admits width number ↔ number ∉ window.seen := by
  constructor
  · rintro ⟨_, above | ⟨_, fresh⟩⟩
    · exact absurd below (not_le.mpr above)
    · exact fresh
  · intro fresh
    exact ⟨positive, Or.inr ⟨near, fresh⟩⟩

theorem mem_record_above (bounded : window.Bounded) {other : Nat} (above : window.top < other) :
    other ∈ (window.record number).seen ↔ other = number := by
  have absent : other ∉ window.seen :=
    fun member => absurd (bounded other member) (not_le.mpr above)
  simp only [record, Finset.mem_insert, absent, or_false]

theorem not_mem_of_admits (bounded : window.Bounded)
    (admitted : window.Admits width number) : number ∉ window.seen := by
  rcases admitted.2 with above | ⟨_, fresh⟩
  · intro member
    exact absurd (bounded number member) (by omega)
  · exact fresh

end Window

/-! ## Histories of decisions -/

/-- The numbers a history of (number, decision) pairs has admitted. -/
def admitted (history : List (Nat × Bool)) : List Nat :=
  (history.filter Prod.snd).map Prod.fst

/-- The highest number admitted so far, 0 when there is none. -/
def highest (history : List (Nat × Bool)) : Nat :=
  (admitted history).foldl max 0

/-- At every point of the history: a number admitted there was not admitted
before, and a nonzero number above `highest - width` that was not admitted
before is admitted. -/
def ReplayFree (width : Nat) (history : List (Nat × Bool)) : Prop :=
  ∀ before number decision after, history = before ++ (number, decision) :: after →
    (decision = true → number ∉ admitted before) ∧
    (number ≠ 0 → highest before < number + width → number ∉ admitted before → decision = true)

theorem admitted_append (first second : List (Nat × Bool)) :
    admitted (first ++ second) = admitted first ++ admitted second := by
  simp [admitted]

theorem admitted_cons (entry : Nat × Bool) (history : List (Nat × Bool)) :
    admitted (entry :: history) = admitted [entry] ++ admitted history :=
  admitted_append [entry] history

variable {width : Nat} {history : List (Nat × Bool)}

theorem ReplayFree.concat (soFar : ReplayFree width history) {number : Nat} {decision : Bool}
    (fresh : decision = true → number ∉ admitted history)
    (complete : number ≠ 0 → highest history < number + width → number ∉ admitted history →
      decision = true) :
    ReplayFree width (history ++ [(number, decision)]) := by
  intro before other otherDecision after split
  rcases List.eq_nil_or_concat after with rfl | ⟨inner, last, rfl⟩
  · obtain ⟨rfl, lastEq⟩ := List.append_inj' split rfl
    simp only [List.cons.injEq, Prod.mk.injEq, and_true] at lastEq
    obtain ⟨rfl, rfl⟩ := lastEq
    exact ⟨fresh, complete⟩
  · have reassociated :
      history ++ [(number, decision)] = (before ++ (other, otherDecision) :: inner) ++ [last] := by
      simpa using split
    exact soFar before other otherDecision inner (List.append_inj' reassociated rfl).1

/-- `window` holds exactly what `history` has admitted. -/
structure Window.Records (window : Window) (history : List (Nat × Bool)) : Prop where
  top : window.top = highest history
  seen : ∀ number, number ∈ window.seen ↔ number ∈ admitted history

namespace Window

theorem records_empty : Records empty [] where
  top := rfl
  seen := by simp [empty, admitted]

private theorem highest_append (history : List (Nat × Bool)) (number : Nat) (decision : Bool) :
    highest (history ++ [(number, decision)]) = if decision then max (highest history) number
      else highest history := by
  cases decision <;> simp [highest, admitted]

theorem records_receive {window : Window} (records : window.Records history) (number : Nat) :
    (window.receive width number).2.Records
      (history ++ [(number, (window.receive width number).1)]) := by
  unfold receive
  split
  · refine ⟨?_, ?_⟩
    · rw [highest_append, if_pos rfl, ← records.top]
      rfl
    · intro other
      rw [admitted_append, List.mem_append, ← records.seen]
      simp [record, admitted, or_comm]
  · refine ⟨?_, ?_⟩
    · rw [highest_append]
      exact records.top
    · intro other
      rw [admitted_append, List.mem_append, ← records.seen]
      simp [admitted]

theorem receive_seen (width : Nat) (window : Window) (number : Nat) :
    (window.receive width number).2.seen =
      window.seen ∪ (admitted [(number, (window.receive width number).1)]).toFinset := by
  unfold receive
  split
  · ext other
    simp [record, admitted]
  · simp [admitted]

/-- Every decision of a run extends a replay-free history to a replay-free
history. -/
theorem replayFree_runTotal {window : Window} (bounded : window.Bounded)
    (records : window.Records history)
    (soFar : ReplayFree width history) (numbers : List Nat) :
    ReplayFree width
      (history ++ numbers.zip (runTotal (receive width) window numbers).1) := by
  induction numbers generalizing window history with
  | nil => simpa [runTotal] using soFar
  | cons number rest ih =>
    have extended : ReplayFree width
        (history ++ [(number, (window.receive width number).1)]) := by
      apply soFar.concat
      · intro accepted
        unfold receive at accepted
        split at accepted
        · rw [← records.seen]
          exact not_mem_of_admits bounded ‹_›
        · cases accepted
      · intro nonzero inside fresh
        rw [← records.seen] at fresh
        rw [← records.top] at inside
        rw [receive, if_pos ⟨nonzero, Or.inr ⟨inside, fresh⟩⟩]
    have tail := ih (bounded_receive bounded number)
      (records_receive records number) extended
    simpa [runTotal, List.append_assoc] using tail

theorem replayFree_from_empty (width : Nat) (numbers : List Nat) :
    ReplayFree width (numbers.zip (runTotal (receive width) empty numbers).1) := by
  have vacuous : ReplayFree width [] := by
    intro before number decision after split
    simp at split
  simpa using replayFree_runTotal bounded_empty records_empty vacuous numbers

end Window

end RouterKernel.Foundation
