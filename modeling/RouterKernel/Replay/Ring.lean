import RouterKernel.Foundation.SlidingWindow
import RouterKernel.Replay.Model

/-!
Contract: the ring of bits behind the bitmap and the extended window.

Owns:
- `slot`, the bit number that stands for a sequence number;
- `RingRepresents`, the relation between a ring and the set of numbers it
  stands for, with the effect of a forward jump and of a late packet on it;
- the values of the ring helpers of the model in terms of `slot`.

The ring formulas only agree with `slot` when the width divides `2 ^ 32`, since
the code reduces 32-bit sums; every lemma that needs this says so.
-/

namespace RouterKernel.Replay

open RouterKernel.Foundation

/-- The bit number of sequence number `number`: `(number - 1) mod width`, with
number 0 at the last position. -/
def slot (width number : Nat) : Nat := (number + (width - 1)) % width

theorem slot_lt {width : Nat} (positive : 0 < width) (number : Nat) : slot width number < width :=
  Nat.mod_lt _ positive

theorem slot_ne {width low high : Nat} (ordered : low < high) (close : high < low + width) :
    slot width low ≠ slot width high := by
  intro equal
  have congruent : low + (width - 1) ≡ high + (width - 1) [MOD width] := equal
  have sameResidue : low ≡ high [MOD width] := Nat.ModEq.add_right_cancel' _ congruent
  have divides := (Nat.modEq_iff_dvd' ordered.le).mp sameResidue
  have := Nat.le_of_dvd (by omega) divides
  omega

theorem slot_eq_iff {width first second : Nat} (close : first < second + width)
    (close' : second < first + width) :
    slot width first = slot width second ↔ first = second := by
  constructor
  · intro equal
    rcases lt_trichotomy first second with less | same | greater
    · exact absurd equal (slot_ne less close')
    · exact same
    · exact absurd equal.symm (slot_ne greater close)
  · rintro rfl
    rfl

theorem slot_add {width : Nat} (base step : Nat) :
    (slot width base + step) % width = slot width (base + step) := by
  simp only [slot, Nat.mod_add_mod]
  congr 1
  omega

variable {diff : Nat} {bitnr : U32}

theorem slot_sub {width top : Nat} (positive : 0 < width) (behind : diff ≤ top)
    (close : diff < width) :
    slot width (top - diff) = if diff ≤ slot width top then slot width top - diff
      else width - (diff - slot width top) := by
  have below := slot_lt positive top
  have forward : (slot width (top - diff) + diff) % width = slot width top := by
    rw [slot_add, Nat.sub_add_cancel behind]
  have belowDiff := slot_lt positive (top - diff)
  split
  · by_cases small : slot width (top - diff) + diff < width
    · rw [Nat.mod_eq_of_lt small] at forward
      omega
    · rw [Nat.mod_eq_sub_mod (by omega), Nat.mod_eq_of_lt (by omega)] at forward
      omega
  · by_cases small : slot width (top - diff) + diff < width
    · rw [Nat.mod_eq_of_lt small] at forward
      omega
    · rw [Nat.mod_eq_sub_mod (by omega), Nat.mod_eq_of_lt (by omega)] at forward
      omega

/-! ## The representation relation -/

/-- Every number of the window `(top - width, top]` has its bit set exactly when
it was recorded. -/
structure RingRepresents (width : Nat) (bmp : Bitmap 32) (window : Window) : Prop where
  positive : 0 < width
  fits : width ≤ 32 * bmp.length
  bits : ∀ number, number ≤ window.top → window.top < number + width →
    (bmp.test (slot width number) = true ↔ number ∈ window.seen)

/-- Clear the bits of `top + 1, ..., top + count`. -/
def eraseAbove (width top : Nat) : Nat → Bitmap 32 → Bitmap 32
  | 0, bmp => bmp
  | count + 1, bmp => (eraseAbove width top count bmp).erase (slot width (top + (count + 1)))

@[simp] theorem length_eraseAbove (width top count : Nat) (bmp : Bitmap 32) :
    (eraseAbove width top count bmp).length = bmp.length := by
  induction count with
  | zero => rfl
  | succ count ih =>
    rw [eraseAbove, Bitmap.length_erase, ih]

section Representation

variable {width : Nat} {bmp : Bitmap 32} {window : Window}

theorem slot_stored (positive : 0 < width) (fits : width ≤ 32 * bmp.length)
    (number : Nat) : slot width number < 32 * bmp.length :=
  (slot_lt positive number).trans_le fits

/-- Bits of numbers at or below the top survive; bits of skipped numbers do
not. -/
theorem test_eraseAbove (positive : 0 < width) (fits : width ≤ 32 * bmp.length)
    {top number : Nat} (total : Nat) (small : total < width) (close : top + total < number + width)
    (far : number ≤ top + total) {count : Nat} (upTo : count ≤ total) :
    (eraseAbove width top count bmp).test (slot width number) =
      (bmp.test (slot width number) && !decide (top < number ∧ number ≤ top + count)) := by
  induction count with
  | zero =>
    have outside : ¬ (top < number ∧ number ≤ top + 0) := by omega
    rw [decide_eq_false outside]
    simp [eraseAbove]
  | succ count ih =>
    have stored : slot width (top + (count + 1)) <
        32 * (eraseAbove width top count bmp).length := by
      rw [length_eraseAbove]
      exact slot_stored positive fits _
    rw [eraseAbove, Bitmap.test_erase stored, ih (by omega)]
    have sameBit : slot width number = slot width (top + (count + 1)) ↔
        number = top + (count + 1) :=
      slot_eq_iff (by omega) (by omega)
    by_cases last : number = top + (count + 1)
    · subst last
      simp
    · have sameRange : (top < number ∧ number ≤ top + count) ↔
        (top < number ∧ number ≤ top + (count + 1)) := by
        omega
      simp [sameBit, last, sameRange]

/-- The top moves on: a ring with the right bits below it, and the bit of the new top. -/
private theorem represents_top (positive : 0 < width) (fits : width ≤ 32 * bmp.length)
    (bits : ∀ number, number < window.top + diff → window.top + diff < number + width →
      (bmp.test (slot width number) = true ↔ number ∈ window.seen)) :
    RingRepresents width (bmp.insert (slot width (window.top + diff)))
      (window.record (window.top + diff)) where
  positive := positive
  fits := by simpa using fits
  bits := by
    intro number low close
    have newTop : (window.record (window.top + diff)).top = window.top + diff := by
      simp [Window.record]
    rw [newTop] at low close
    have sameBit : slot width number = slot width (window.top + diff) ↔
        number = window.top + diff :=
      slot_eq_iff (by omega) (by omega)
    rw [Bitmap.test_insert (slot_stored positive fits _)]
    simp only [Window.record, Finset.mem_insert, sameBit]
    by_cases last : number = window.top + diff
    · simp [last]
    · simp [last, bits number (by omega) close]

/-- A jump by less than the width: the skipped bits are cleared, then the bit of
the new top is set. -/
theorem RingRepresents.slide (represents : RingRepresents width bmp window)
    (bounded : window.Bounded)
    (forward : 0 < diff) (short : diff < width) :
    RingRepresents width
      ((eraseAbove width window.top (diff - 1) bmp).insert (slot width (window.top + diff)))
      (window.record (window.top + diff)) := by
  have fits : width ≤ 32 * (eraseAbove width window.top (diff - 1) bmp).length := by
    simpa using represents.fits
  refine represents_top represents.positive fits fun number low close => ?_
  rw [test_eraseAbove represents.positive represents.fits (diff - 1) (by omega) (by omega)
    (by omega) le_rfl]
  by_cases skipped : window.top < number
  · have absent : number ∉ window.seen := fun member => absurd (bounded number member) (by omega)
    have inRange : window.top < number ∧ number ≤ window.top + (diff - 1) := by omega
    simp [absent, inRange]
  · have old := represents.bits number (by omega) (by omega)
    simp [skipped, old]

/-- A jump by the width or more: every word of the ring is zeroed first. -/
theorem RingRepresents.restart (represents : RingRepresents width bmp window)
    (bounded : window.Bounded)
    (long : width ≤ diff) :
    RingRepresents width
      ((bmp.zeroPrefix ((width - 1) / 32 + 1)).insert (slot width (window.top + diff)))
      (window.record (window.top + diff)) := by
  have positive := represents.positive
  have stored := represents.fits
  have words : (width - 1) / 32 + 1 ≤ bmp.length := by omega
  have fits : width ≤ 32 * (bmp.zeroPrefix ((width - 1) / 32 + 1)).length := by
    rwa [Bitmap.length_zeroPrefix bmp words]
  refine represents_top positive fits fun number low close => ?_
  have zeroed : slot width number / 32 < (width - 1) / 32 + 1 := by
    have := slot_lt positive number
    omega
  have absent : number ∉ window.seen := fun member => absurd (bounded number member) (by omega)
  simp [Bitmap.test_zeroPrefix bmp zeroed, absent]

/-- A late packet inside the window: its bit is set and the top stays. -/
theorem RingRepresents.fill (represents : RingRepresents width bmp window)
    {number : Nat} (low : number ≤ window.top) (close : window.top < number + width) :
    RingRepresents width (bmp.insert (slot width number)) (window.record number) where
  positive := represents.positive
  fits := by simpa using represents.fits
  bits := by
    intro other otherLow otherClose
    have sameTop : (window.record number).top = window.top := by
      simp [Window.record, low]
    rw [sameTop] at otherLow otherClose
    have sameBit : slot width other = slot width number ↔ other = number :=
      slot_eq_iff (by omega) (by omega)
    rw [Bitmap.test_insert (slot_stored represents.positive represents.fits _)]
    simp [Window.record, sameBit, represents.bits other otherLow otherClose]

end Representation

/-! ## Values of the ring helpers -/

private theorem bitnr_word (bitnr : U32) : (bitnr >>> 5).toNat = bitnr.toNat / 32 := by
  simp [BitVec.toNat_ushiftRight, Nat.shiftRight_eq_div_pow]

private theorem bitnr_position (bitnr : U32) : (bitnr &&& 0x1F).toNat = bitnr.toNat % 32 := by
  rw [BitVec.toNat_and]
  exact Nat.and_two_pow_sub_one_eq_mod bitnr.toNat 5

theorem testBitnr_ok {bmp : Bitmap 32} (stored : bitnr.toNat < 32 * bmp.length) :
    testBitnr bmp bitnr = .ok (bmp.test bitnr.toNat) := by
  rw [testBitnr, bitnr_word, bitnr_position, Bitmap.testAt_ok stored]

theorem setBitnr_ok {bmp : Bitmap 32} (stored : bitnr.toNat < 32 * bmp.length) :
    setBitnr bmp bitnr = .ok (bmp.insert bitnr.toNat) := by
  rw [setBitnr, bitnr_word, bitnr_position, Bitmap.setAt_ok stored]

theorem clearBitnr_ok {bmp : Bitmap 32} (stored : bitnr.toNat < 32 * bmp.length) :
    clearBitnr bmp bitnr = .ok (bmp.erase bitnr.toNat) := by
  rw [clearBitnr, bitnr_word, bitnr_position, Bitmap.clearAt_ok stored]

section Helpers

variable {replayWindow pos : U32} {top : Nat} {bmp : Bitmap 32}

private theorem replayWindow_ne_zero (positive : 0 < replayWindow.toNat) : replayWindow ≠ 0 := by
  rintro rfl
  simp at positive

theorem ringPosition_toNat {seq : U32} (top : Nat) (divides : replayWindow.toNat ∣ 2 ^ 32)
    (low : seq.toNat = top % 2 ^ 32) :
    ((seq - 1) % replayWindow).toNat = slot replayWindow.toNat top := by
  have positive : 0 < replayWindow.toNat := Nat.pos_of_dvd_of_pos divides (by norm_num)
  obtain ⟨turns, turnsEq⟩ := divides
  rw [BitVec.toNat_umod, BitVec.toNat_sub, low]
  have wide : 2 ^ 32 - (1#32).toNat + top % 2 ^ 32 =
      top % 2 ^ 32 + (replayWindow.toNat - 1) + replayWindow.toNat * (turns - 1) := by
    have turnsPos : 0 < turns := by
      rcases Nat.eq_zero_or_pos turns with rfl | positiveTurns
      · simp at turnsEq
      · exact positiveTurns
    have product : replayWindow.toNat * (turns - 1) + replayWindow.toNat = 2 ^ 32 := by
      rw [turnsEq, ← Nat.mul_succ]
      congr 1
      omega
    simp only [BitVec.toNat_ofNat]
    omega
  have dividesAgain : replayWindow.toNat ∣ 2 ^ 32 := ⟨turns, turnsEq⟩
  change (2 ^ 32 - (1#32).toNat + top % 2 ^ 32) % 2 ^ 32 % replayWindow.toNat = _
  rw [Nat.mod_mod_of_dvd _ dividesAgain, wide, Nat.add_mul_mod_self_left, slot, Nat.add_mod,
    Nat.mod_mod_of_dvd _ dividesAgain, ← Nat.add_mod]

theorem ringBitnr_ok (positive : 0 < replayWindow.toNat)
    (position : pos.toNat = slot replayWindow.toNat top) (diff : U32)
    (behind : diff.toNat ≤ top) (close : diff < replayWindow) :
    ∃ bitnr, ringBitnr pos diff replayWindow = .ok bitnr ∧
      bitnr.toNat = slot replayWindow.toNat (top - diff.toNat) := by
  have closeNat : diff.toNat < replayWindow.toNat := close
  have value := slot_sub positive behind closeNat
  have below := slot_lt positive top
  rw [← position] at value below
  unfold ringBitnr
  by_cases within : diff ≤ pos
  · have withinNat : diff.toNat ≤ pos.toNat := within
    rw [if_pos within, umod_ok (replayWindow_ne_zero positive)]
    refine ⟨_, rfl, ?_⟩
    rw [if_pos withinNat] at value
    rw [value, BitVec.toNat_umod, BitVec.toNat_sub_of_le within, Nat.mod_eq_of_lt]
    omega
  · have outsideNat : ¬ diff.toNat ≤ pos.toNat := within
    rw [if_neg within]
    refine ⟨_, rfl, ?_⟩
    rw [if_neg outsideNat] at value
    rw [value]
    bv_omega

/-- The bit of a number behind the top is stored, in the slot of the number. -/
theorem RingRepresents.ringBitnr {window : Window} {number : Nat} {diff : U32}
    (represents : RingRepresents replayWindow.toNat bmp window)
    (position : pos.toNat = slot replayWindow.toNat window.top)
    (distance : number + diff.toNat = window.top) (close : diff < replayWindow) :
    ∃ bitnr, Replay.ringBitnr pos diff replayWindow = .ok bitnr ∧
      bitnr.toNat = slot replayWindow.toNat number ∧ bitnr.toNat < 32 * bmp.length := by
  have behind : diff.toNat ≤ window.top := by omega
  have exactly : window.top - diff.toNat = number := by omega
  obtain ⟨bitnr, bitnrOk, bitnrNat⟩ := ringBitnr_ok represents.positive position diff behind close
  rw [exactly] at bitnrNat
  refine ⟨bitnr, bitnrOk, bitnrNat, ?_⟩
  rw [bitnrNat]
  exact slot_stored represents.positive represents.fits number

/-- Reducing a 32-bit sum of ring positions loses nothing when the width divides
`2 ^ 32`. -/
theorem ringAdvance_toNat (divides : replayWindow.toNat ∣ 2 ^ 32)
    (position : pos.toNat = slot replayWindow.toNat top) (step : U32) :
    ((pos + step) % replayWindow).toNat = slot replayWindow.toNat (top + step.toNat) := by
  rw [BitVec.toNat_umod, BitVec.toNat_add, Nat.mod_mod_of_dvd _ divides, position, slot_add]

theorem clearSkipped_ok (divides : replayWindow.toNat ∣ 2 ^ 32)
    (fits : replayWindow.toNat ≤ 32 * bmp.length)
    (position : pos.toNat = slot replayWindow.toNat top) (diff : U32) :
    clearSkipped replayWindow pos diff bmp = .ok
      (eraseAbove replayWindow.toNat top (diff.toNat - 1) bmp) := by
  have positive : 0 < replayWindow.toNat := Nat.pos_of_dvd_of_pos divides (by norm_num)
  have short : diff.toNat - 1 < 2 ^ 32 := by omega
  unfold clearSkipped
  generalize diff.toNat - 1 = count at short
  induction count with
  | zero => rfl
  | succ count ih =>
    rw [List.range'_1_concat, List.foldlM_append, ih (by omega)]
    have stepNat : (BitVec.ofNat 32 (1 + count)).toNat = 1 + count := by
      simp [BitVec.toNat_ofNat]
      omega
    have bit := ringAdvance_toNat divides position (BitVec.ofNat 32 (1 + count))
    have stored : ((pos + BitVec.ofNat 32 (1 + count)) % replayWindow).toNat <
        32 * (eraseAbove replayWindow.toNat top count bmp).length := by
      rw [bit, length_eraseAbove]
      exact slot_stored positive fits _
    simp only [List.foldlM_cons, List.foldlM_nil, bind, Except.bind, pure, Except.pure,
      umod_ok (replayWindow_ne_zero positive), clearBitnr_ok stored]
    rw [bit, stepNat, eraseAbove, Nat.add_comm 1 count]

/-- Both arms of a forward jump, as one statement about the bits. -/
theorem slideForward_represents {window : Window} (divides : replayWindow.toNat ∣ 2 ^ 32)
    (represents : RingRepresents replayWindow.toNat bmp window) (bounded : window.Bounded)
    (position : pos.toNat = slot replayWindow.toNat window.top) (diff : U32)
    (forward : 0 < diff.toNat) :
    ∃ bitnr cleared final, slideForward replayWindow pos diff bmp = .ok (bitnr, cleared) ∧
      setBitnr cleared bitnr = .ok final ∧
      RingRepresents replayWindow.toNat final (window.record (window.top + diff.toNat)) := by
  have positive := represents.positive
  have fits := represents.fits
  have bit := ringAdvance_toNat divides position diff
  unfold slideForward
  by_cases short : diff < replayWindow
  · have shortNat : diff.toNat < replayWindow.toNat := short
    have stored : ((pos + diff) % replayWindow).toNat <
        32 * (eraseAbove replayWindow.toNat window.top (diff.toNat - 1) bmp).length := by
      rw [bit, length_eraseAbove]
      exact slot_stored positive fits _
    refine ⟨(pos + diff) % replayWindow, _, _, ?_, setBitnr_ok stored, ?_⟩
    · simp only [if_pos short, clearSkipped_ok divides fits position, bind, Except.bind,
        umod_ok (replayWindow_ne_zero positive), pure, Except.pure]
    · rw [bit]
      exact represents.slide bounded forward shortNat
  · have longNat : replayWindow.toNat ≤ diff.toNat := by
      have : ¬ diff.toNat < replayWindow.toNat := short
      omega
    have wordCount : ((replayWindow - 1) >>> 5).toNat.succ = (replayWindow.toNat - 1) / 32 + 1 := by
      rw [bitnr_word, BitVec.toNat_sub_of_le (by bv_omega)]
      rfl
    have words : (replayWindow.toNat - 1) / 32 + 1 ≤ bmp.length := by omega
    have stored : ((pos + diff) % replayWindow).toNat <
        32 * (bmp.zeroPrefix ((replayWindow.toNat - 1) / 32 + 1)).length := by
      rw [bit, Bitmap.length_zeroPrefix bmp words]
      exact slot_stored positive fits _
    refine ⟨(pos + diff) % replayWindow, _, _, ?_, setBitnr_ok stored, ?_⟩
    · simp only [if_neg short, wordCount, Bitmap.zeroWords_ok bmp words, bind, Except.bind,
        umod_ok (replayWindow_ne_zero positive), pure, Except.pure]
    · rw [bit]
      exact represents.restart bounded longNat

end Helpers

end RouterKernel.Replay
