import Mathlib.Tactic

/-!
Contract: a counter that wraps at one modulus, read modulo another.

Owns:
- `probeAt`, the places such a counter points to one after the other;
- that `size` probes reach every place exactly if the counter does not wrap on
  the way or the size divides the modulus at which it wraps.
-/

namespace RouterKernel.Foundation

/-- The place that a counter modulo `wrap` points to after `count` steps, in a
range of `size` places. -/
def probeAt (wrap size start count : Nat) : Nat := (start + count) % wrap % size

variable {wrap size start count target : Nat}

theorem probeAt_lt (positive : 0 < size) : probeAt wrap size start count < size :=
  Nat.mod_lt _ positive

theorem probeAt_eq_of_dvd (divides : size ∣ wrap) :
    probeAt wrap size start count = (start + count) % size :=
  Nat.mod_mod_of_dvd _ divides

theorem probeAt_eq_of_lt (below : start + count < wrap) :
    probeAt wrap size start count = (start + count) % size := by
  rw [probeAt, Nat.mod_eq_of_lt below]

theorem probeAt_wrapped (wraps : wrap ≤ start + count) (once : start + count < wrap + size)
    (fits : size ≤ wrap) : probeAt wrap size start count = start + count - wrap := by
  have outer : start + count - wrap < wrap := by omega
  have inner : start + count - wrap < size := by omega
  rw [probeAt, Nat.mod_eq_sub_mod wraps, Nat.mod_eq_of_lt outer, Nat.mod_eq_of_lt inner]

theorem exists_add_mod_eq (start : Nat) (inside : target < size) :
    ∃ count < size, (start + count) % size = target := by
  have positive : 0 < size := by omega
  refine ⟨(target + (size - start % size)) % size, Nat.mod_lt _ positive, ?_⟩
  have below := Nat.mod_lt start positive
  have split := Nat.div_add_mod start size
  rw [Nat.add_mod_mod]
  have shifted : start + (target + (size - start % size)) = target + size * (start / size + 1) := by
    rw [Nat.mul_add, Nat.mul_one]
    omega
  rw [shifted, Nat.add_mul_mod_self_left, Nat.mod_eq_of_lt inside]

theorem sub_mod_eq {back : Nat} (fits : size ≤ wrap) (short : back ≤ size) (positive : 0 < back) :
    (wrap - back) % size = if back ≤ wrap % size then wrap % size - back
      else size + wrap % size - back := by
  have below := Nat.mod_lt wrap (show 0 < size by omega)
  have split := Nat.div_add_mod wrap size
  split_ifs with within
  · have place : wrap - back = wrap % size - back + size * (wrap / size) := by omega
    rw [place, Nat.add_mul_mod_self_left, Nat.mod_eq_of_lt (by omega)]
  · obtain ⟨times, quotient⟩ := Nat.exists_eq_add_of_le' (Nat.div_pos fits (by omega))
    rw [quotient, Nat.mul_add, Nat.mul_one] at split
    have place : wrap - back = size + wrap % size - back + size * times := by omega
    rw [place, Nat.add_mul_mod_self_left, Nat.mod_eq_of_lt (by omega)]

theorem exists_missed (fits : size ≤ wrap) (below : start < wrap) (wraps : wrap < start + size)
    (uneven : ¬ size ∣ wrap) :
    ∃ target < size, ∀ count < size, probeAt wrap size start count ≠ target := by
  have small := Nat.mod_lt wrap (show 0 < size by omega)
  -- The `wrap - start` probes before the wrap end at the remainder, those behind it
  -- begin at zero: the gap is the last place that neither comes to.
  refine ⟨size - 1 - (wrap - start - wrap % size), by omega, ?_⟩
  intro count inside
  by_cases early : start + count < wrap
  · have place : start + count = wrap - (wrap - start - count) := by omega
    rw [probeAt_eq_of_lt early, place, sub_mod_eq fits (by omega) (by omega)]
    split_ifs <;> omega
  · rw [probeAt_wrapped (by omega) (by omega) fits]
    omega

theorem probes_cover_iff (fits : size ≤ wrap) (below : start < wrap) :
    (∀ target < size, ∃ count < size, probeAt wrap size start count = target) ↔ size ∣ wrap ∨
      start + size ≤ wrap := by
  constructor
  · intro covers
    by_contra neither
    rw [not_or, not_le] at neither
    obtain ⟨target, inside, missed⟩ := exists_missed fits below neither.2 neither.1
    obtain ⟨count, probed, hits⟩ := covers target inside
    exact missed count probed hits
  · intro either target inside
    obtain ⟨count, probed, hits⟩ := exists_add_mod_eq start inside
    refine ⟨count, probed, ?_⟩
    rcases either with divides | straight
    · rw [probeAt_eq_of_dvd divides, hits]
    · rw [probeAt_eq_of_lt (by omega), hits]

end RouterKernel.Foundation
