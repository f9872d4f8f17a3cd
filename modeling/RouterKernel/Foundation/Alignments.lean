import Mathlib.Tactic

/-!
Contract: a pattern laid against a text and compared from its end.

Owns:
- `Aligned`, the pattern ends at a position of the text;
- `Reoccurs`, how the pattern has to repeat itself for a later alignment to be possible;
- the two rules for the next alignment: from the part that matched and from the symbol that
  did not.

Pattern and text are functions of their indices; `size` is the length of the pattern.
-/

namespace RouterKernel.Foundation

variable {α : Type} {pattern text : Nat → α} {size e g s : Nat}

/-- The pattern ends at `e`. -/
def Aligned (pattern text : Nat → α) (size e : Nat) : Prop :=
  size ≤ e + 1 ∧ ∀ i < size, text (e - i) = pattern (size - 1 - i)

/-- The comparison at `e` fails behind `g` symbols that match. -/
structure Fails (pattern text : Nat → α) (size e g : Nat) : Prop where
  inside : g < size
  room : size ≤ e + 1
  matched : ∀ i < g, text (e - i) = pattern (size - 1 - i)
  differs : text (e - g) ≠ pattern (size - 1 - g)

/-- The last `g` symbols of the pattern stand `s` places earlier as well, as far as the pattern
goes, and there behind another symbol. -/
def Reoccurs (pattern : Nat → α) (size g s : Nat) : Prop :=
  (∀ k < g, s + k < size → pattern (size - 1 - k) = pattern (size - 1 - k - s)) ∧
    (s + g < size → pattern (size - 1 - g) ≠ pattern (size - 1 - g - s))

theorem Fails.not_aligned (fails : Fails pattern text size e g) : ¬ Aligned pattern text size e :=
  fun aligned => fails.differs (aligned.2 g fails.inside)

theorem Fails.reoccurs (fails : Fails pattern text size e g)
    (aligned : Aligned pattern text size (e + s)) :
    Reoccurs pattern size g s := by
  have room := fails.room
  have later (k : Nat) (inside : s + k < size) : text (e - k) = pattern (size - 1 - k - s) := by
    have same := aligned.2 (s + k) inside
    rwa [show e + s - (s + k) = e - k by omega, show size - 1 - (s + k) = size - 1 - k - s by omega]
      at same
  refine ⟨fun k below inside => ?_, fun inside same => ?_⟩
  · rw [← fails.matched k below]
    exact later k inside
  · exact fails.differs ((later g inside).trans same.symm)

theorem Aligned.symbol {position later : Nat} (aligned : Aligned pattern text size later)
    (behind : position ≤ later)
    (covers : later - position < size) :
      text position = pattern (size - 1 - (later - position)) := by
  have same := aligned.2 (later - position) covers
  rwa [show later - (later - position) = position by omega] at same

end RouterKernel.Foundation
