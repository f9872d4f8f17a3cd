import Mathlib.Data.List.Rotate

/-!
Contract: buffers that are used as rings.

Owns:
- `copyOut` and `copyIn`, which cut a copy in two at the end of the buffer;
- the view of the buffer from an offset, which is the buffer rotated, and what both copies
  are in that view.

Does not own: counters, or where the offsets come from.
-/

namespace RouterKernel.Foundation.Ring

variable {α : Type} {data src : List α} {off len : Nat}

/-- Read around the end of the buffer. -/
def copyOut (data : List α) (off len : Nat) : List α :=
  let l := min len (data.length - off)
  (data.drop off).take l ++ data.take (len - l)

def overwrite (data : List α) (off : Nat) (src : List α) : List α :=
  data.take off ++ src ++ data.drop (off + src.length)

/-- Write around the end of the buffer. -/
def copyIn (data : List α) (off : Nat) (src : List α) : List α :=
  let l := min src.length (data.length - off)
  overwrite (overwrite data off (src.take l)) 0 (src.drop l)

theorem length_overwrite (fits : off + src.length ≤ data.length) :
    (overwrite data off src).length = data.length := by
  unfold overwrite
  simp only [List.length_append, List.length_take, List.length_drop]
  omega

theorem copyOut_eq (inside : off ≤ data.length) (fits : len ≤ data.length) :
    copyOut data off len = (data.rotate off).take len := by
  unfold copyOut
  dsimp only
  rw [List.rotate_eq_drop_append_take inside, List.take_append, List.length_drop]
  have first : (data.drop off).take (min len (data.length - off)) = (data.drop off).take len := by
    rw [← List.length_drop, List.take_eq_take_iff]
    simp
  have second : data.take (len - min len (data.length - off)) =
      (data.take off).take (len - (data.length - off)) := by
    rw [List.take_take]
    congr 1
    omega
  rw [first, second]

theorem length_copyIn (inside : off ≤ data.length) (fits : src.length ≤ data.length) :
    (copyIn data off src).length = data.length := by
  have first : (overwrite data off (src.take (min src.length (data.length - off)))).length =
      data.length := by
    apply length_overwrite
    rw [List.length_take]
    omega
  unfold copyIn
  dsimp only
  rw [length_overwrite, first]
  rw [first, List.length_drop]
  omega

theorem copyIn_rotate (inside : off ≤ data.length) (fits : src.length ≤ data.length) :
    (copyIn data off src).rotate off = src ++ (data.rotate off).drop src.length := by
  rw [List.rotate_eq_drop_append_take (by rw [length_copyIn inside fits]; exact inside),
    List.rotate_eq_drop_append_take inside]
  obtain ⟨front, back, rfl, rfl⟩ : ∃ front back, data = front ++ back ∧ off = front.length :=
    ⟨data.take off, data.drop off, (List.take_append_drop off data).symm,
      by rw [List.length_take]; omega⟩
  unfold copyIn overwrite
  dsimp only
  rw [List.length_append, Nat.add_sub_cancel_left, List.drop_left, List.take_left]
  rcases Nat.le_total src.length back.length with whole | cut
  · -- The copy ends before the end of the buffer.
    rw [Nat.min_eq_left whole, List.take_length, List.drop_length,
      List.drop_append_of_le_length whole]
    simp
  · obtain ⟨first, second, rfl, isLength⟩ : ∃ first second, src = first ++ second ∧
      first.length = back.length :=
      ⟨src.take back.length, src.drop back.length, (List.take_append_drop _ src).symm,
        by rw [List.length_take]; omega⟩
    rw [List.length_append, List.length_append] at fits
    have short : second.length ≤ front.length := by omega
    have wrapped : (second ++ front.drop second.length).length = front.length := by
      rw [List.length_append, List.length_drop]
      omega
    rw [Nat.min_eq_right cut, ← isLength, List.take_left, List.drop_left, List.length_append,
        isLength,
      ← List.length_append, List.drop_length, List.append_nil, List.take_zero, List.nil_append,
        Nat.zero_add,
      List.drop_append_of_le_length short, ← List.append_assoc]
    have dropped : (second ++ front.drop second.length ++ first).drop front.length = first := by
      rw [← wrapped, List.drop_left]
    have taken : (second ++ front.drop second.length ++ first).take front.length =
        second ++ front.drop second.length := by
      rw [← wrapped, List.take_left]
    have rest : (back ++ front).drop (back.length + second.length) = front.drop second.length := by
      rw [List.drop_append]
      simp
    rw [dropped, taken, rest, List.append_assoc]

/-- Writing behind what is read: in the view from where reading starts, the new part
follows the old one. -/
theorem copyIn_view {start used : Nat} (room : used + src.length ≤ data.length)
    (inside : off ≤ data.length)
    (isOff : off = (start + used) % data.length) :
    ((copyIn data off src).rotate start).take (used + src.length) =
    (data.rotate start).take used ++ src := by
  have fits : src.length ≤ data.length := by omega
  have sameLength := length_copyIn inside fits
  have written := copyIn_rotate inside fits
  generalize copyIn data off src = after at sameLength written ⊢
  -- The view from the write offset is the one from the read offset, turned on by `used`.
  have turned : data.rotate off = (data.rotate start).rotate used := by
    rw [List.rotate_rotate, isOff, List.rotate_mod]
  have turnedAfter : after.rotate off = (after.rotate start).rotate used := by
    rw [List.rotate_rotate, isOff, ← sameLength, List.rotate_mod]
  have usedLength : ((data.rotate start).take used).length = used := by
    rw [List.length_take, List.length_rotate]
    omega
  have whole : after.rotate start =
      (data.rotate start).take used ++ (src ++ (data.rotate start).drop (used + src.length)) := by
    apply List.rotate_injective used
    beta_reduce
    have moved := List.rotate_append_length_eq ((data.rotate start).take used)
      (src ++ (data.rotate start).drop (used + src.length))
    rw [usedLength] at moved
    rw [← turnedAfter, written, turned, moved]
    rw [List.rotate_eq_drop_append_take (by rw [List.length_rotate]; omega),
        List.drop_append_of_le_length,
      List.drop_drop, List.append_assoc]
    rw [List.length_drop, List.length_rotate]
    omega
  rw [whole, ← List.append_assoc]
  apply List.take_left'
  rw [List.length_append, usedLength]

end RouterKernel.Foundation.Ring
