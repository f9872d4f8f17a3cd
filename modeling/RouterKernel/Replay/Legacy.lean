import RouterKernel.Replay.Bmp

/-!
Contract: the legacy window follows the same abstract window as the bitmap
window, so the two tables agree.

Owns:
- `LegacyFollows`, which reads bit `i` of the word as "the number `i` below the
  top was recorded", and its preservation by one packet;
- the agreement of the legacy and the bitmap table, packet by packet, for the
  widths both can hold.
-/

namespace RouterKernel.Replay

open RouterKernel.Foundation

/-- The legacy state stands for the abstract window: bit `i` is the number
`top - i`. -/
structure LegacyFollows (replayWindow : U8) (state : XfrmReplayState × XfrmStats)
    (window : Window) : Prop where
  positive : 0 < replayWindow.toNat
  narrow : replayWindow.toNat ≤ 32
  top : window.top = state.1.seq.toNat
  bounded : window.Bounded
  bits : ∀ i, i < replayWindow.toNat → i ≤ window.top →
    (state.1.bitmap.getLsbD i = true ↔ window.top - i ∈ window.seen)

section Step

variable {replayWindow : U8} {state : XfrmReplayState × XfrmStats} {window : Window}

section

variable (follows : LegacyFollows replayWindow state window)

include follows

private theorem LegacyFollows.window_ne_zero : replayWindow ≠ 0 := by
  have positive := follows.positive
  rintro rfl
  simp at positive

theorem LegacyFollows.check (seq : U32) : (xfrmReplayCheck replayWindow state.1 state.2 seq).1 = 0 ↔
      window.Admits replayWindow.toNat seq.toNat := by
  have narrow := follows.narrow
  unfold xfrmReplayCheck
  rw [if_neg follows.window_ne_zero]
  by_cases zero : seq = 0
  · simp [EINVAL, zero, Window.Admits]
  have seqPos : seq.toNat ≠ 0 := by
    intro toZero
    exact zero (BitVec.eq_of_toNat_eq toZero)
  rw [if_neg zero]
  by_cases above : state.1.seq < seq
  · have aboveNat : state.1.seq.toNat < seq.toNat := above
    simp [above, Window.Admits, seqPos, follows.top, aboveNat]
  have belowNat : seq.toNat ≤ state.1.seq.toNat := not_lt.mp above
  have diffNat : (state.1.seq - seq).toNat = state.1.seq.toNat - seq.toNat :=
    BitVec.toNat_sub_of_le belowNat
  rw [if_neg above]
  simp only [diffNat, min_eq_left narrow]
  by_cases old : replayWindow.toNat ≤ state.1.seq.toNat - seq.toNat
  · rw [if_pos old]
    simp only [EINVAL, Window.Admits, follows.top]
    omega
  have bit := follows.bits (state.1.seq.toNat - seq.toNat) (by omega)
    (by rw [follows.top]; omega)
  have number : window.top - (state.1.seq.toNat - seq.toNat) = seq.toNat := by
    rw [follows.top]
    omega
  rw [number] at bit
  rw [if_neg old,
    Window.admits_iff_fresh seqPos (by rw [follows.top]; omega) (by rw [follows.top]; omega), ← bit]
  have masked := Bitmap.and_bit_ne_zero state.1.bitmap
    (state.1.seq.toNat - seq.toNat) (by omega)
  simp only [BitVec.ofNat_eq_ofNat, masked]
  cases state.1.bitmap.getLsbD (state.1.seq.toNat - seq.toNat) <;> simp [EINVAL]

private theorem LegacyFollows.advance_above {seq : U32} (above : state.1.seq < seq)
    (stats : XfrmStats) :
    LegacyFollows replayWindow (xfrmReplayAdvance replayWindow state.1 seq, stats)
      (window.record seq.toNat) := by
  have aboveNat : state.1.seq.toNat < seq.toNat := above
  have narrow := follows.narrow
  have diffNat : (seq - state.1.seq).toNat = seq.toNat - state.1.seq.toNat :=
    BitVec.toNat_sub_of_le aboveNat.le
  have newTop : (window.record seq.toNat).top = seq.toNat := by
    simp only [Window.record, follows.top]
    omega
  have newestOnly (i : Nat) (skipped : i < seq.toNat - state.1.seq.toNat) :
      seq.toNat - i ∈ (window.record seq.toNat).seen ↔ i = 0 := by
    rw [Window.mem_record_above follows.bounded (by rw [follows.top]; omega)]
    omega
  unfold xfrmReplayAdvance
  rw [if_neg follows.window_ne_zero, if_pos above]
  simp only [diffNat]
  by_cases short : seq.toNat - state.1.seq.toNat < replayWindow.toNat
  · rw [if_pos short]
    refine ⟨follows.positive, narrow, newTop, Window.bounded_record follows.bounded _, ?_⟩
    intro i inside low
    rw [newTop] at low ⊢
    by_cases skipped : i < seq.toNat - state.1.seq.toNat
    · rw [newestOnly i skipped]
      simp [BitVec.getLsbD_shiftLeft, skipped]
    · have old := follows.bits (i - (seq.toNat - state.1.seq.toNat)) (by omega)
        (by rw [follows.top]; omega)
      have number : window.top - (i - (seq.toNat - state.1.seq.toNat)) = seq.toNat - i := by
        rw [follows.top]
        omega
      rw [number] at old
      have different : seq.toNat - i ≠ seq.toNat := by omega
      have notFirst : i ≠ 0 := by omega
      have shifted : ((state.1.bitmap <<< (seq.toNat - state.1.seq.toNat)) ||| 1).getLsbD i =
          state.1.bitmap.getLsbD (i - (seq.toNat - state.1.seq.toNat)) := by
        rw [BitVec.getLsbD_or, BitVec.getLsbD_shiftLeft]
        simp [skipped, notFirst, show i < 32 by omega]
      rw [shifted, old]
      simp [Window.record, different]
  · rw [if_neg short]
    refine ⟨follows.positive, narrow, newTop, Window.bounded_record follows.bounded _, ?_⟩
    intro i inside low
    rw [newTop] at low ⊢
    rw [newestOnly i (by omega)]
    simp

private theorem LegacyFollows.advance_below {seq : U32} (below : ¬ state.1.seq < seq)
    (stats : XfrmStats) :
    LegacyFollows replayWindow (xfrmReplayAdvance replayWindow state.1 seq, stats)
      (window.record seq.toNat) := by
  have belowNat : seq.toNat ≤ state.1.seq.toNat := not_lt.mp below
  have narrow := follows.narrow
  have diffNat : (state.1.seq - seq).toNat = state.1.seq.toNat - seq.toNat :=
    BitVec.toNat_sub_of_le belowNat
  have sameTop : (window.record seq.toNat).top = window.top := by
    simp only [Window.record, follows.top]
    omega
  unfold xfrmReplayAdvance
  rw [if_neg follows.window_ne_zero, if_neg below]
  refine ⟨follows.positive, narrow, sameTop.trans follows.top,
    Window.bounded_record follows.bounded _, ?_⟩
  intro i inside low
  rw [sameTop] at low ⊢
  have old := follows.bits i inside low
  have sameBit : i = state.1.seq.toNat - seq.toNat ↔ window.top - i = seq.toNat := by
    rw [follows.top] at low ⊢
    omega
  simp only [diffNat, BitVec.getLsbD_or, Bool.or_eq_true, old, Window.record, Finset.mem_insert,
    ← sameBit]
  have setBit : (1#32 <<< (state.1.seq.toNat - seq.toNat)).getLsbD i = true ↔
      i = state.1.seq.toNat - seq.toNat := by
    rw [← BitVec.twoPow_eq, BitVec.getLsbD_twoPow]
    simp only [Bool.and_eq_true, decide_eq_true_eq]
    omega
  rw [setBit, or_comm]

theorem LegacyFollows.advance (seq : U32) (stats : XfrmStats) :
    LegacyFollows replayWindow (xfrmReplayAdvance replayWindow state.1 seq, stats)
      (window.record seq.toNat) := by
  by_cases above : state.1.seq < seq
  · exact follows.advance_above above stats
  · exact follows.advance_below above stats

/-- One packet: the decision is that of the abstract window and the relation is
kept. -/
theorem LegacyFollows.receive (seq : U32) : (receiveLegacy replayWindow state seq).1 =
        (window.receive replayWindow.toNat seq.toNat).1 ∧
      LegacyFollows replayWindow (receiveLegacy replayWindow state seq).2
        (window.receive replayWindow.toNat seq.toNat).2 := by
  have decides := follows.check seq
  unfold receiveLegacy
  by_cases admits : window.Admits replayWindow.toNat seq.toNat
  · have accepted := decides.mpr admits
    simpa [accepted, Window.receive, admits] using
      follows.advance seq (xfrmReplayCheck replayWindow state.1 state.2 seq).2
  · have refused : ¬ (xfrmReplayCheck replayWindow state.1 state.2 seq).1 = 0 := fun accepted =>
      admits (decides.mp accepted)
    simpa [refused, Window.receive, admits] using
      ({ follows with } : LegacyFollows replayWindow
        (state.1, (xfrmReplayCheck replayWindow state.1 state.2 seq).2) window)

end

end Step

/-! ## Agreement of the two tables -/

def freshLegacy : XfrmReplayState := ⟨0, 0⟩

theorem legacyFollows_fresh {replayWindow : U8} (positive : 0 < replayWindow.toNat)
    (narrow : replayWindow.toNat ≤ 32) (stats : XfrmStats) :
    LegacyFollows replayWindow (freshLegacy, stats) Window.empty where
  positive := positive
  narrow := narrow
  top := rfl
  bounded := Window.bounded_empty
  bits := by
    intro i _ _
    simp [freshLegacy, Window.empty]

theorem runLegacy_follows {replayWindow : U8} (positive : 0 < replayWindow.toNat)
    (narrow : replayWindow.toNat ≤ 32) (stats : XfrmStats) (packets : List U32) :
    (runTotal (receiveLegacy replayWindow) (freshLegacy, stats) packets).1 =
        (runTotal (Window.receive replayWindow.toNat) Window.empty
          (packets.map BitVec.toNat)).1 ∧
      LegacyFollows replayWindow
        (runTotal (receiveLegacy replayWindow) (freshLegacy, stats) packets).2
        (runTotal (Window.receive replayWindow.toNat) Window.empty
          (packets.map BitVec.toNat)).2 := by
  rw [← runTotal_map]
  exact runTotal_simulates (LegacyFollows replayWindow)
    (fun state window seq follows => follows.receive seq)
    (legacyFollows_fresh positive narrow stats) packets

/-- After every sequence of packets the two tables have taken the same decisions
and hold the same top, for every power of two that the legacy word can hold. -/
theorem legacy_agrees_with_bmp (replayWindow : U8) (bmpLen exponent : Nat)
    (power : replayWindow.toNat = 2 ^ exponent) (narrow : replayWindow.toNat ≤ 32)
    (fits : replayWindow.toNat ≤ 32 * bmpLen) (stats bmpStats : XfrmStats)
    (packets : List U32) :
    ∃ decisions legacyFinal bmpFinal,
        runTotal (receiveLegacy replayWindow) (freshLegacy, stats) packets =
        (decisions, legacyFinal) ∧
      runAll receiveBmp (freshBmp (replayWindow.setWidth 32) bmpLen, bmpStats) packets = .ok
        (decisions, bmpFinal) ∧
      legacyFinal.1.seq = bmpFinal.1.seq := by
  have wide : (replayWindow.setWidth 32).toNat = replayWindow.toNat := by
    simp [BitVec.toNat_setWidth]
    omega
  have positive : 0 < replayWindow.toNat := power ▸ Nat.two_pow_pos exponent
  have divides : (replayWindow.setWidth 32).toNat ∣ 2 ^ 32 := by
    have small : 2 ^ exponent ≤ 2 ^ 5 := power ▸ narrow
    rw [wide, power]
    exact pow_dvd_pow 2 (by have := (Nat.pow_le_pow_iff_right (by norm_num)).mp small; omega)
  obtain ⟨legacyDecisions, legacyFollows⟩ := runLegacy_follows positive narrow stats packets
  obtain ⟨bmpFinal, bmpRun, bmpFollows⟩ :=
    runBmp_follows divides (by rw [wide]; exact fits) bmpStats packets
  rw [wide] at bmpRun bmpFollows
  refine ⟨_, _, bmpFinal, Prod.ext legacyDecisions rfl, bmpRun, ?_⟩
  apply BitVec.eq_of_toNat_eq
  rw [← legacyFollows.top, ← bmpFollows.top]

theorem legacy_agrees_with_bmp_sixteen : ((16 : U8).toNat = 2 ^ 4 ∧ (16 : U8).toNat ≤ 32) ∧
      ∃ decisions legacyFinal bmpFinal,
          runTotal (receiveLegacy 16) (freshLegacy, ⟨0, 0⟩) [3, 20, 3, 20, 7] =
          (decisions, legacyFinal) ∧
        runAll receiveBmp (freshBmp ((16 : U8).setWidth 32) 1, ⟨0, 0⟩) [3, 20, 3, 20, 7] = .ok
          (decisions, bmpFinal) ∧
        legacyFinal.1.seq = bmpFinal.1.seq :=
  ⟨by decide, legacy_agrees_with_bmp 16 1 4 (by decide) (by decide) (by decide) ⟨0, 0⟩ ⟨0, 0⟩
    [3, 20, 3, 20, 7]⟩

end RouterKernel.Replay
