import RouterKernel.Replay.Ring

/-!
Contract: the bitmap window follows the abstract window, for exactly the widths
that divide `2 ^ 32`.

Owns:
- `BmpFollows`, the relation between `xfrm_replay_state_esn` and the abstract
  window, and its preservation by one packet;
- the width condition: replay protection from the fresh state holds for a
  width if and only if the width is a power of two.

The condition comes from the fresh state.  There `seq` is 0, so `seq - 1` is
`2 ^ 32 - 1` and the ring position is `(2 ^ 32 - 1) mod replay_window`; the
first bit lands where the next call looks for it only if the width divides
`2 ^ 32`.
-/

namespace RouterKernel.Replay

open RouterKernel.Foundation

/-- The bitmap state stands for the abstract window of the same width. -/
structure BmpFollows (width : Nat) (state : XfrmReplayStateEsn × XfrmStats)
    (window : Window) : Prop where
  sameWidth : state.1.replayWindow.toNat = width
  divides : width ∣ 2 ^ 32
  top : window.top = state.1.seq.toNat
  bounded : window.Bounded
  ring : RingRepresents width state.1.bmp window

section Step

variable {width : Nat} {state : XfrmReplayStateEsn × XfrmStats} {window : Window}

section

variable (follows : BmpFollows width state window)

include follows

private theorem BmpFollows.window_ne_zero : state.1.replayWindow ≠ 0 := by
  have positive := follows.ring.positive
  rw [← follows.sameWidth] at positive
  intro zero
  rw [zero] at positive
  simp at positive

private theorem BmpFollows.position : ((state.1.seq - 1) % state.1.replayWindow).toNat =
      slot state.1.replayWindow.toNat window.top := by
  apply ringPosition_toNat
  · rw [follows.sameWidth]
    exact follows.divides
  · rw [follows.top, Nat.mod_eq_of_lt state.1.seq.isLt]

theorem BmpFollows.check (seq : U32) :
    ∃ code stats, xfrmReplayCheckBmp state.1 state.2 seq = .ok (code, stats) ∧
      (code = 0 ↔ window.Admits width seq.toNat) := by
  have widthEq := follows.sameWidth
  have divides := follows.divides
  subst widthEq
  unfold xfrmReplayCheckBmp
  rw [if_neg follows.window_ne_zero]
  by_cases zero : seq = 0
  · rw [if_pos zero]
    refine ⟨_, _, rfl, ?_⟩
    simp [EINVAL, zero, Window.Admits]
  have seqPos : seq.toNat ≠ 0 := by
    intro toZero
    exact zero (BitVec.eq_of_toNat_eq toZero)
  rw [if_neg zero]
  by_cases above : state.1.seq < seq
  · have aboveNat : state.1.seq.toNat < seq.toNat := above
    rw [if_pos above]
    refine ⟨_, _, rfl, ?_⟩
    simp [Window.Admits, seqPos, follows.top, aboveNat]
  have belowNat : seq.toNat ≤ state.1.seq.toNat := not_lt.mp above
  have diffNat : (state.1.seq - seq).toNat = state.1.seq.toNat - seq.toNat :=
    BitVec.toNat_sub_of_le belowNat
  rw [if_neg above]
  by_cases old : state.1.replayWindow ≤ state.1.seq - seq
  · have oldNat : state.1.replayWindow.toNat ≤ (state.1.seq - seq).toNat := old
    rw [if_pos old]
    refine ⟨_, _, rfl, ?_⟩
    simp only [EINVAL, Window.Admits, follows.top]
    omega
  have closeNat : (state.1.seq - seq).toNat < state.1.replayWindow.toNat := by
    have : ¬ state.1.replayWindow.toNat ≤ (state.1.seq - seq).toNat := old
    omega
  have distance : seq.toNat + (state.1.seq - seq).toNat = window.top := by
    rw [follows.top]
    omega
  obtain ⟨bitnr, bitnrOk, bitnrNat, stored⟩ :=
    follows.ring.ringBitnr follows.position distance closeNat
  have bit := follows.ring.bits seq.toNat (by rw [follows.top]; omega)
    (by rw [follows.top]; omega)
  rw [if_neg old]
  simp only [bind, Except.bind, pure, Except.pure, umod_ok follows.window_ne_zero, bitnrOk,
    testBitnr_ok stored, bitnrNat]
  rw [Window.admits_iff_fresh seqPos (by omega) (by omega), ← bit]
  cases state.1.bmp.test (slot state.1.replayWindow.toNat seq.toNat) with
  | true => exact ⟨_, _, rfl, by simp [EINVAL]⟩
  | false => exact ⟨_, _, rfl, by simp⟩

theorem BmpFollows.advance {seq : U32} (admits : window.Admits width seq.toNat)
    (stats : XfrmStats) :
    ∃ esn, xfrmReplayAdvanceBmp state.1 seq = .ok esn ∧
      BmpFollows width (esn, stats) (window.record seq.toNat) := by
  have widthEq := follows.sameWidth
  have divides := follows.divides
  subst widthEq
  have position := follows.position
  unfold xfrmReplayAdvanceBmp
  simp only [umod_ok follows.window_ne_zero, bind, Except.bind, if_neg follows.window_ne_zero]
  by_cases above : state.1.seq < seq
  · have aboveNat : state.1.seq.toNat < seq.toNat := above
    have diffNat : (seq - state.1.seq).toNat = seq.toNat - state.1.seq.toNat :=
      BitVec.toNat_sub_of_le aboveNat.le
    obtain ⟨bitnr, cleared, final, slideOk, setOk, represents⟩ :=
      slideForward_represents divides follows.ring follows.bounded position
        (seq - state.1.seq) (by omega)
    have newTop : window.top + (seq - state.1.seq).toNat = seq.toNat := by
      rw [follows.top]
      omega
    rw [newTop] at represents
    simp only [if_pos above, slideOk, setOk, pure, Except.pure]
    refine ⟨_, rfl, ⟨rfl, divides, ?_, Window.bounded_record follows.bounded _, represents⟩⟩
    simp only [Window.record, follows.top]
    omega
  · have belowNat : seq.toNat ≤ state.1.seq.toNat := not_lt.mp above
    have diffNat : (state.1.seq - seq).toNat = state.1.seq.toNat - seq.toNat :=
      BitVec.toNat_sub_of_le belowNat
    have close : window.top < seq.toNat + state.1.replayWindow.toNat := by
      rcases admits.2 with aboveTop | ⟨close, _⟩
      · rw [follows.top] at aboveTop
        omega
      · exact close
    have closeBv : state.1.seq - seq < state.1.replayWindow := by
      have : (state.1.seq - seq).toNat < state.1.replayWindow.toNat := by
        rw [follows.top] at close
        omega
      exact this
    have distance : seq.toNat + (state.1.seq - seq).toNat = window.top := by
      rw [follows.top]
      omega
    obtain ⟨bitnr, bitnrOk, bitnrNat, stored⟩ :=
      follows.ring.ringBitnr follows.position distance closeBv
    simp only [if_neg above, bitnrOk, setBitnr_ok stored, bitnrNat, pure, Except.pure]
    refine ⟨_, rfl, ⟨rfl, divides, ?_, Window.bounded_record follows.bounded _, ?_⟩⟩
    · simp only [Window.record, follows.top]
      omega
    · exact follows.ring.fill (by rw [follows.top]; omega) close

/-- One packet: the decision is that of the abstract window and the relation is
kept. -/
theorem BmpFollows.receive (seq : U32) :
    ∃ next, receiveBmp state seq = .ok ((window.receive width seq.toNat).1, next) ∧
      BmpFollows width next (window.receive width seq.toNat).2 := by
  obtain ⟨code, stats, checkOk, decides⟩ := follows.check seq
  unfold receiveBmp
  simp only [checkOk, bind, Except.bind]
  by_cases accepted : code = 0
  · have admits := decides.mp accepted
    obtain ⟨esn, advanceOk, advanced⟩ := follows.advance admits stats
    refine ⟨(esn, stats), ?_, ?_⟩
    · simp [accepted, advanceOk, Window.receive, admits, pure, Except.pure]
    · simpa [Window.receive, admits] using advanced
  · have refused : ¬ window.Admits width seq.toNat := fun admits =>
      accepted (decides.mpr admits)
    refine ⟨(state.1, stats), ?_, ?_⟩
    · simp [accepted, Window.receive, refused, pure, Except.pure]
    · simpa [Window.receive, refused] using
        ({ follows with } : BmpFollows width (state.1, stats) window)

end

end Step

/-! ## Runs from the fresh state -/

/-- The state installed with a new association: `seq` is 0 and no bit is set. -/
def freshBmp (replayWindow : U32) (bmpLen : Nat) : XfrmReplayStateEsn where
  seq := 0
  seqHi := 0
  replayWindow := replayWindow
  bmp := List.replicate bmpLen 0#32

theorem bmpFollows_fresh {replayWindow : U32} {bmpLen : Nat} (divides : replayWindow.toNat ∣ 2 ^ 32)
    (fits : replayWindow.toNat ≤ 32 * bmpLen) (stats : XfrmStats) :
    BmpFollows replayWindow.toNat (freshBmp replayWindow bmpLen, stats) Window.empty where
  sameWidth := rfl
  divides := divides
  top := rfl
  bounded := Window.bounded_empty
  ring :=
    { positive := Nat.pos_of_dvd_of_pos divides (by norm_num)
      fits := by simpa [freshBmp] using fits
      bits := by
        intro number _ _
        simp [freshBmp, Window.empty] }

/-- Every run of the bitmap window, when the width divides `2 ^ 32`. -/
theorem runBmp_follows {replayWindow : U32} {bmpLen : Nat}
    (divides : replayWindow.toNat ∣ 2 ^ 32) (fits : replayWindow.toNat ≤ 32 * bmpLen)
    (stats : XfrmStats) (packets : List U32) :
    ∃ final, runAll receiveBmp (freshBmp replayWindow bmpLen, stats) packets =
        .ok ((runTotal (Window.receive replayWindow.toNat) Window.empty
          (packets.map BitVec.toNat)).1, final) ∧
      BmpFollows replayWindow.toNat final
        (runTotal (Window.receive replayWindow.toNat) Window.empty
          (packets.map BitVec.toNat)).2 := by
  have simulation := runAll_simulates receiveBmp
    (fun window (seq : U32) => window.receive replayWindow.toNat seq.toNat)
    (BmpFollows replayWindow.toNat)
    (fun state window seq follows => follows.receive seq)
    (bmpFollows_fresh divides fits stats) packets
  rw [runTotal_map] at simulation
  exact simulation

/-- Replay protection for one width: whatever arrives, the run does not fault
and its history is replay free. -/
def BmpProtects (replayWindow : U32) (bmpLen : Nat) : Prop :=
  ∀ (stats : XfrmStats) (packets : List U32), ∃ decisions final,
    runAll receiveBmp (freshBmp replayWindow bmpLen, stats) packets = .ok (decisions, final) ∧
    ReplayFree replayWindow.toNat ((packets.map BitVec.toNat).zip decisions)

theorem bmpProtects_of_dvd {replayWindow : U32} {bmpLen : Nat}
    (divides : replayWindow.toNat ∣ 2 ^ 32) (fits : replayWindow.toNat ≤ 32 * bmpLen) :
    BmpProtects replayWindow bmpLen := by
  intro stats packets
  obtain ⟨final, runOk, _⟩ := runBmp_follows divides fits stats packets
  exact ⟨_, final, runOk, Window.replayFree_from_empty _ _⟩

/-! ## Widths that do not divide `2 ^ 32` -/

section Misplaced

variable {replayWindow : U32} {bmpLen : Nat}

/-- The ring position computed in the fresh state. -/
private def firstPosition (replayWindow : U32) : Nat := (2 ^ 32 - 1) % replayWindow.toNat

section

variable (positive : 0 < replayWindow.toNat)

include positive

private theorem firstPosition_succ_lt (misfit : ¬ replayWindow.toNat ∣ 2 ^ 32) :
    firstPosition replayWindow + 1 < replayWindow.toNat := by
  have below : firstPosition replayWindow < replayWindow.toNat := Nat.mod_lt _ positive
  rcases Nat.lt_or_ge (firstPosition replayWindow + 1) replayWindow.toNat with less | atLeast
  · exact less
  · exfalso
    apply misfit
    have last : (2 ^ 32 - 1) % replayWindow.toNat + 1 = replayWindow.toNat := by
      unfold firstPosition at below atLeast
      omega
    have split := Nat.div_add_mod (2 ^ 32 - 1) replayWindow.toNat
    refine ⟨(2 ^ 32 - 1) / replayWindow.toNat + 1, ?_⟩
    rw [Nat.mul_add, Nat.mul_one]
    omega

/-- The state after packet 1: its bit was put one place after the first
position, which is not bit 0. -/
private def afterFirst (replayWindow : U32) (bmpLen : Nat) : XfrmReplayStateEsn where
  seq := 1
  seqHi := 0
  replayWindow := replayWindow
  bmp := Bitmap.insert (List.replicate bmpLen 0#32) (firstPosition replayWindow + 1)

section

variable (fits : replayWindow.toNat ≤ 32 * bmpLen)

include fits

private theorem advance_first (misfit : ¬ replayWindow.toNat ∣ 2 ^ 32) :
    xfrmReplayAdvanceBmp (freshBmp replayWindow bmpLen) 1 = .ok
      (afterFirst replayWindow bmpLen) := by
  have nonzero : replayWindow ≠ 0 := by
    rintro rfl
    simp at positive
  have inside := firstPosition_succ_lt positive misfit
  have position : ((0 - 1 : U32) % replayWindow).toNat = firstPosition replayWindow := by
    rw [BitVec.toNat_umod]
    rfl
  have wide : (1 - 0 : U32) < replayWindow := by
    have : (1 - 0 : U32).toNat < replayWindow.toNat := by
      change 1 < replayWindow.toNat
      omega
    exact this
  have bit : (((0 - 1 : U32) % replayWindow + (1 - 0)) % replayWindow).toNat =
      firstPosition replayWindow + 1 := by
    have bound := replayWindow.isLt
    rw [BitVec.toNat_umod, BitVec.toNat_add, position]
    change (firstPosition replayWindow + 1) % 2 ^ 32 % replayWindow.toNat = _
    rw [Nat.mod_eq_of_lt (a := firstPosition replayWindow + 1) (by omega), Nat.mod_eq_of_lt inside]
  have stored : (((0 - 1 : U32) % replayWindow + (1 - 0)) % replayWindow).toNat <
      32 * (List.replicate bmpLen 0#32).length := by
    rw [bit, List.length_replicate]
    omega
  have nothingSkipped : clearSkipped replayWindow ((0 - 1 : U32) % replayWindow) (1 - 0)
      (List.replicate bmpLen 0#32) = .ok (List.replicate bmpLen 0#32) := rfl
  have later : (0 : U32) < 1 := by decide
  simp only [xfrmReplayAdvanceBmp, freshBmp, umod_ok nonzero, bind, Except.bind, if_neg nonzero,
    if_pos later, slideForward, if_pos wide, nothingSkipped, pure, Except.pure,
    setBitnr_ok stored, bit, afterFirst]

private theorem receive_first (misfit : ¬ replayWindow.toNat ∣ 2 ^ 32) (stats : XfrmStats) :
    receiveBmp (freshBmp replayWindow bmpLen, stats) 1 = .ok (true, afterFirst replayWindow bmpLen,
      stats) := by
  have nonzero : replayWindow ≠ 0 := by
    rintro rfl
    simp at positive
  have checkOk : xfrmReplayCheckBmp (freshBmp replayWindow bmpLen) stats 1 = .ok (0, stats) := by
    simp [xfrmReplayCheckBmp, freshBmp]
  simp only [receiveBmp, checkOk, advance_first positive fits misfit, bind, Except.bind, pure,
    Except.pure, if_true]

/-- The replayed packet 1 is looked up at bit 0, which is still clear. -/
private theorem receive_first_again (misfit : ¬ replayWindow.toNat ∣ 2 ^ 32) (stats : XfrmStats) :
    ∃ next, receiveBmp (afterFirst replayWindow bmpLen, stats) 1 = .ok (true, next) := by
  have nonzero : replayWindow ≠ 0 := by
    rintro rfl
    simp at positive
  have inside := firstPosition_succ_lt positive misfit
  have newestBit : (1 - 1 : U32) % replayWindow = 0 := by simp
  have storedFirst : firstPosition replayWindow + 1 < 32 * (List.replicate bmpLen 0#32).length := by
    rw [List.length_replicate]
    omega
  have clear : testBitnr (Bitmap.insert (List.replicate bmpLen 0#32)
      (firstPosition replayWindow + 1)) 0 = .ok false := by
    rw [testBitnr_ok (by simp; omega), Bitmap.test_insert storedFirst]
    simp
  have young : ¬ replayWindow ≤ 1 - 1 := by
    have : ¬ replayWindow.toNat ≤ 0 := by omega
    exact this
  have sameBit : ringBitnr 0 (1 - 1) replayWindow = .ok 0 := by
    rw [ringBitnr, if_pos (by decide), umod_ok nonzero]
    simp
  have notLater : ¬ (1 : U32) < 1 := by decide
  have checkOk : xfrmReplayCheckBmp (afterFirst replayWindow bmpLen) stats 1 = .ok (0, stats) := by
    unfold xfrmReplayCheckBmp afterFirst
    rw [if_neg nonzero, if_neg (by decide), if_neg notLater, if_neg young]
    simp only [umod_ok nonzero, newestBit, sameBit, clear, bind, Except.bind, pure, Except.pure]
    rfl
  have storedNewest : (0 : U32).toNat < 32 * (Bitmap.insert (List.replicate bmpLen 0#32)
        (firstPosition replayWindow + 1)).length := by
    simp
    omega
  have advanceOk : ∃ next, xfrmReplayAdvanceBmp (afterFirst replayWindow bmpLen) 1 = .ok next := by
    unfold xfrmReplayAdvanceBmp afterFirst
    simp only [umod_ok nonzero, newestBit, bind, Except.bind, if_neg nonzero, if_neg notLater,
      sameBit, setBitnr_ok storedNewest, pure, Except.pure]
    exact ⟨_, rfl⟩
  obtain ⟨next, advanceEq⟩ := advanceOk
  refine ⟨(next, stats), ?_⟩
  simp only [receiveBmp, checkOk, advanceEq, bind, Except.bind, pure, Except.pure, if_true]

/-- The packets 1, 1 are both accepted. -/
theorem not_bmpProtects_of_not_dvd (misfit : ¬ replayWindow.toNat ∣ 2 ^ 32) :
    ¬ BmpProtects replayWindow bmpLen := by
  intro protects
  obtain ⟨decisions, final, runOk, replayFree⟩ := protects ⟨0, 0⟩ [1, 1]
  obtain ⟨next, again⟩ := receive_first_again positive fits misfit ⟨0, 0⟩
  have both : decisions = [true, true] := by
    simp only [runAll, receive_first positive fits misfit, again, Except.ok.injEq, Prod.mk.injEq]
      at runOk
    exact runOk.1.symm
  subst both
  have twice := (replayFree [(1, true)] 1 true [] rfl).1 rfl
  simp [admitted] at twice

end

end

end Misplaced

/-! ## The width condition -/

/-- Replay protection from the fresh state holds exactly for the widths that
are powers of two. -/
theorem bmpProtects_iff_power_of_two (replayWindow : U32) (bmpLen : Nat)
    (positive : 1 ≤ replayWindow.toNat) (fits : replayWindow.toNat ≤ 32 * bmpLen) :
    BmpProtects replayWindow bmpLen ↔ ∃ exponent, replayWindow.toNat = 2 ^ exponent := by
  constructor
  · intro protects
    by_contra notPower
    apply not_bmpProtects_of_not_dvd positive fits ?_ protects
    intro divides
    obtain ⟨exponent, _, power⟩ := (Nat.dvd_prime_pow Nat.prime_two).mp divides
    exact notPower ⟨exponent, power⟩
  · rintro ⟨exponent, power⟩
    apply bmpProtects_of_dvd _ fits
    have small : 2 ^ exponent < 2 ^ 32 := power ▸ replayWindow.isLt
    rw [power]
    exact pow_dvd_pow 2 (Nat.pow_lt_pow_iff_right (by norm_num) |>.mp small).le

theorem bmpProtects_sixty_four : (∃ exponent, (64 : U32).toNat = 2 ^ exponent) ∧ BmpProtects 64 2 :=
  ⟨⟨6, rfl⟩, (bmpProtects_iff_power_of_two 64 2 (by decide) (by decide)).mpr ⟨6, rfl⟩⟩

/-- A window of width 3 accepts packet 1 twice. -/
theorem bmpWindow_three_accepts_replay : (1 ≤ (3 : U32).toNat ∧ (3 : U32).toNat ≤ 32 * 1) ∧
      (∃ final, runAll receiveBmp (freshBmp 3 1, ⟨0, 0⟩) [1, 1] = .ok ([true, true], final)) ∧
      ¬ BmpProtects 3 1 := by
  refine ⟨by decide, ⟨_, rfl⟩, ?_⟩
  intro protects
  obtain ⟨decisions, final, runOk, replayFree⟩ := protects ⟨0, 0⟩ [1, 1]
  have both : decisions = [true, true] := by
    have computed : runAll receiveBmp (freshBmp 3 1, ⟨0, 0⟩) [1, 1] =
        .ok ([true, true], ({ seq := 1, seqHi := 0, replayWindow := 3, bmp := [3] }, ⟨0, 0⟩)) := by
      decide
    rw [computed] at runOk
    injection runOk with pairEq
    exact (congrArg Prod.fst pairEq).symm
  subst both
  have twice := (replayFree [(1, true)] 1 true [] rfl).1 rfl
  simp [admitted] at twice

end RouterKernel.Replay
