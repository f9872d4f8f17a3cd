import RouterKernel.Replay.Ring
import RouterKernel.Foundation.Checked

/-!
Contract: divisions and bitmap accesses of the replay windows.

Owns:
- that the checks of all tables, and the advance of the extended window, never divide by zero and
  never leave the bitmap, whatever the number of the packet;
- the numbers for which the advance of the bitmap window does.
-/

namespace RouterKernel.Replay

open RouterKernel.Foundation

variable {replayWindow : U32} {bmp : Bitmap 32}

/-! ## Ring positions -/

theorem setBitnr_safe (fits : replayWindow.toNat ≤ 32 * bmp.length) {bitnr : U32}
    (inside : bitnr < replayWindow) :
    ∃ after, setBitnr bmp bitnr = .ok after :=
  ⟨_, setBitnr_ok (lt_of_lt_of_le inside fits)⟩

theorem setBitnr_safe_iff (bitnr : U32) :
    (∃ after, setBitnr bmp bitnr = .ok after) ↔ bitnr.toNat < 32 * bmp.length := by
  have word : (bitnr >>> 5).toNat = bitnr.toNat / 32 := by
    rw [BitVec.toNat_ushiftRight, Nat.shiftRight_eq_div_pow]
  constructor
  · rintro ⟨after, written⟩
    by_contra outside
    have missing : bmp[(bitnr >>> 5).toNat]? = none := List.getElem?_eq_none (by omega)
    unfold setBitnr Bitmap.setAt Bitmap.loadWord at written
    rw [missing] at written
    cases written
  · intro inside
    exact ⟨_, setBitnr_ok inside⟩

section Ring

variable (some : replayWindow ≠ 0)

include some

theorem umod_lt (value : U32) : ∃ rest, umod value replayWindow = .ok rest ∧
    rest < replayWindow := by
  refine ⟨value % replayWindow, umod_ok some, ?_⟩
  exact BitVec.umod_lt value (by bv_omega)

theorem ringBitnr_lt {pos diff : U32} (inside : pos < replayWindow) (close : diff < replayWindow) :
    ∃ bitnr, ringBitnr pos diff replayWindow = .ok bitnr ∧ bitnr < replayWindow := by
  unfold ringBitnr
  by_cases behind : diff ≤ pos
  · rw [if_pos behind]
    exact umod_lt some (pos - diff)
  · rw [if_neg behind]
    refine ⟨_, rfl, ?_⟩
    bv_omega

theorem clearSkipped_safe (pos diff : U32) (fits : replayWindow.toNat ≤ 32 * bmp.length) :
    ∃ after, clearSkipped replayWindow pos diff bmp = .ok after ∧ after.length = bmp.length := by
  unfold clearSkipped
  generalize List.range' 1 (diff.toNat - 1) = steps
  induction steps generalizing bmp with
  | nil => exact ⟨bmp, rfl, rfl⟩
  | cons step steps ih =>
    obtain ⟨bitnr, taken, inside⟩ := umod_lt some (pos + BitVec.ofNat 32 step)
    have cleared : clearBitnr bmp bitnr = .ok (bmp.erase bitnr.toNat) :=
      clearBitnr_ok (lt_of_lt_of_le inside fits)
    have kept : (bmp.erase bitnr.toNat).length = bmp.length := Bitmap.length_erase _ _
    obtain ⟨after, rest, length⟩ := ih (kept.symm ▸ fits)
    refine ⟨after, ?_, length.trans kept⟩
    rw [List.foldlM_cons, taken, bind_ok, cleared, bind_ok]
    exact rest

theorem slideForward_safe (pos diff : U32) (fits : replayWindow.toNat ≤ 32 * bmp.length) :
    ∃ bitnr after, slideForward replayWindow pos diff bmp = .ok (bitnr, after) ∧
        bitnr < replayWindow ∧
      after.length = bmp.length := by
  obtain ⟨bitnr, taken, inside⟩ := umod_lt some (pos + diff)
  have positive : replayWindow.toNat ≠ 0 := fun zero => some (BitVec.eq_of_toNat_eq zero)
  unfold slideForward
  by_cases short : diff < replayWindow
  · obtain ⟨after, cleared, length⟩ := clearSkipped_safe some pos diff fits
    refine ⟨bitnr, after, ?_, inside, length⟩
    rw [if_pos short, cleared, bind_ok, taken]
    rfl
  · have words : ((replayWindow - 1) >>> 5).toNat.succ ≤ bmp.length := by
      have last : (replayWindow - 1).toNat = replayWindow.toNat - 1 := by bv_omega
      rw [BitVec.toNat_ushiftRight, Nat.shiftRight_eq_div_pow, last]
      omega
    refine ⟨bitnr, _, ?_, inside, Bitmap.length_zeroPrefix bmp words⟩
    rw [if_neg short, Bitmap.zeroWords_ok bmp words, bind_ok, taken]
    rfl

end Ring

/-! ## The four functions -/

section Calls

variable {esn : XfrmReplayStateEsn} (fits : esn.replayWindow.toNat ≤ 32 * esn.bmp.length)

include fits

theorem testRing_safe (some : esn.replayWindow ≠ 0) {diff : U32} (close : diff < esn.replayWindow) :
    ∃ pos bitnr replayed, umod (esn.seq - 1) esn.replayWindow = .ok pos ∧
      ringBitnr pos diff esn.replayWindow = .ok bitnr ∧ testBitnr esn.bmp bitnr = .ok replayed := by
  obtain ⟨pos, taken, inside⟩ := umod_lt some (esn.seq - 1)
  obtain ⟨bitnr, found, stored⟩ := ringBitnr_lt some inside close
  exact ⟨pos, bitnr, _, taken, found, testBitnr_ok (lt_of_lt_of_le stored fits)⟩

theorem xfrmReplayCheckBmp_safe (stats : XfrmStats) (seq : U32) :
    ∃ result, xfrmReplayCheckBmp esn stats seq = .ok result := by
  unfold xfrmReplayCheckBmp
  dsimp only
  split_ifs with empty zero above outside
  · exact ⟨_, rfl⟩
  · exact ⟨_, rfl⟩
  · exact ⟨_, rfl⟩
  · exact ⟨_, rfl⟩
  · obtain ⟨pos, bitnr, replayed, taken, found, tested⟩ :=
      testRing_safe fits empty (BitVec.not_le.mp outside)
    rw [taken, bind_ok, found, bind_ok, tested, bind_ok]
    cases replayed
    · exact ⟨_, rfl⟩
    · exact ⟨_, rfl⟩

theorem xfrmReplayCheckEsn_safe (stats : XfrmStats) (seq : U32) :
    ∃ result, xfrmReplayCheckEsn esn stats seq = .ok result := by
  unfold xfrmReplayCheckEsn
  split_ifs with empty zero
  · exact ⟨_, rfl⟩
  · exact ⟨_, rfl⟩
  · cases esnDiff esn seq with
    | none => exact ⟨_, rfl⟩
    | some diff =>
      dsimp only
      split_ifs with outside
      · exact ⟨_, rfl⟩
      · obtain ⟨pos, bitnr, replayed, taken, found, tested⟩ :=
          testRing_safe fits empty (BitVec.not_le.mp outside)
        rw [taken, bind_ok, found, bind_ok, tested, bind_ok]
        cases replayed
        · exact ⟨_, rfl⟩
        · exact ⟨_, rfl⟩

/-- A number that is more than a window below the place of the top wraps around, and is recorded
only if it wraps back into the bitmap. -/
theorem recordBehind_safe_iff (some : esn.replayWindow ≠ 0) {pos diff : U32}
    (inside : pos < esn.replayWindow) :
    (∃ after, (do
        let bitnr ← ringBitnr pos diff esn.replayWindow
        let bmp ← setBitnr esn.bmp bitnr
        return { esn with bmp := bmp } : Except Fault XfrmReplayStateEsn) = .ok after) ↔
      (diff.toNat ≤ pos.toNat + esn.replayWindow.toNat ∨
        2 ^ 32 + pos.toNat + esn.replayWindow.toNat < 32 * esn.bmp.length + diff.toNat) := by
  by_cases behind : diff ≤ pos
  · have close : diff < esn.replayWindow := by bv_omega
    obtain ⟨bitnr, found, stored⟩ := ringBitnr_lt some inside close
    obtain ⟨after, written⟩ := setBitnr_safe fits stored
    rw [found, bind_ok, written, bind_ok]
    exact ⟨fun _ => Or.inl (by bv_omega), fun _ => ⟨_, rfl⟩⟩
  · have found : ringBitnr pos diff esn.replayWindow = .ok (esn.replayWindow - (diff - pos)) :=
      if_neg behind
    have stored : (esn.replayWindow - (diff - pos)).toNat < 32 * esn.bmp.length ↔
        diff.toNat ≤ pos.toNat + esn.replayWindow.toNat ∨
          2 ^ 32 + pos.toNat + esn.replayWindow.toNat < 32 * esn.bmp.length + diff.toNat := by
      have := diff.isLt
      bv_omega
    rw [found, bind_ok, ← stored, ← setBitnr_safe_iff]
    constructor
    · rintro ⟨after, ran⟩
      obtain ⟨bmp, written, _⟩ := exists_of_bind_ok ran
      exact ⟨bmp, written⟩
    · rintro ⟨bmp, written⟩
      rw [written, bind_ok]
      exact ⟨_, rfl⟩

/-- The numbers for which the advance of the bitmap window is safe: those above the top, those at
most a window below the place of the top in the ring, and the last ones before `2 ^ 32` below it. -/
def AdvanceStored (esn : XfrmReplayStateEsn) (seq : U32) : Prop :=
  let pos := ((esn.seq - 1) % esn.replayWindow).toNat
  let diff := esn.seq.toNat - seq.toNat
  esn.replayWindow ≠ 0 ∧ (esn.seq < seq ∨ diff ≤ pos + esn.replayWindow.toNat ∨
    2 ^ 32 + pos + esn.replayWindow.toNat < 32 * esn.bmp.length + diff)

theorem xfrmReplayAdvanceBmp_safe_iff (seq : U32) :
    (∃ after, xfrmReplayAdvanceBmp esn seq = .ok after) ↔ AdvanceStored esn seq := by
  unfold xfrmReplayAdvanceBmp AdvanceStored
  by_cases empty : esn.replayWindow = 0
  · have fault : umod (esn.seq - 1) esn.replayWindow = .error .divideByZero := if_pos empty
    rw [fault]
    constructor
    · rintro ⟨after, ran⟩
      cases ran
    · intro stored
      exact absurd empty stored.1
  · obtain ⟨pos, taken, inside⟩ := umod_lt empty (esn.seq - 1)
    have same : pos = (esn.seq - 1) % esn.replayWindow := by
      rw [umod_ok empty] at taken
      exact (Except.ok.inj taken).symm
    rw [taken, bind_ok, if_neg empty, ← same]
    simp only [ne_eq, empty, not_false_eq_true, true_and]
    by_cases above : esn.seq < seq
    · obtain ⟨bitnr, after, slid, stored, length⟩ :=
        slideForward_safe empty pos (seq - esn.seq) fits
      obtain ⟨final, written⟩ := setBitnr_safe (show esn.replayWindow.toNat ≤ 32 * after.length
        from length.symm ▸ fits) stored
      rw [if_pos above, slid, bind_ok]
      dsimp only
      rw [written, bind_ok]
      exact ⟨fun _ => Or.inl above, fun _ => ⟨_, rfl⟩⟩
    · have diff : (esn.seq - seq).toNat = esn.seq.toNat - seq.toNat := by bv_omega
      rw [if_neg above, recordBehind_safe_iff fits empty inside, diff]
      simp only [above, false_or]

omit fits in
/-- The extended window takes a number that is not above its top to be less than a window below
it. -/
theorem xfrmReplaySeqhi_close {flags : U8} (extended : flags &&& XFRM_STATE_ESN ≠ 0)
    (some : esn.replayWindow ≠ 0) {seq : U32}
    (behind : ¬((xfrmReplaySeqhi flags esn seq - esn.seqHi).toInt = 0 ∧ esn.seq < seq ∨
      0 < (xfrmReplaySeqhi flags esn seq - esn.seqHi).toInt)) :
    esn.seq - seq < esn.replayWindow := by
  have up : (esn.seqHi + 1 - esn.seqHi).toInt = 1 := by
    rw [show esn.seqHi + 1 - esn.seqHi = 1 by bv_omega]
    decide
  have level : (esn.seqHi - esn.seqHi).toInt = 0 := by
    rw [BitVec.sub_self]
    decide
  unfold xfrmReplaySeqhi at behind
  rw [if_neg extended] at behind
  dsimp only at behind
  split_ifs at behind with whole low high
  · exact absurd (Or.inr (by rw [up]; decide)) behind
  · rw [level] at behind
    simp only [true_and, lt_self_iff_false, or_false] at behind
    bv_omega
  · bv_omega
  · rw [level] at behind
    simp only [true_and, lt_self_iff_false, or_false] at behind
    bv_omega

theorem xfrmReplayAdvanceEsn_safe {flags : U8} (extended : flags &&& XFRM_STATE_ESN ≠ 0)
    (seq : U32) :
    ∃ after, xfrmReplayAdvanceEsn flags esn seq = .ok after := by
  unfold xfrmReplayAdvanceEsn
  by_cases empty : esn.replayWindow = 0
  · exact ⟨esn, if_pos empty⟩
  · obtain ⟨pos, taken, inside⟩ := umod_lt empty (esn.seq - 1)
    rw [if_neg empty, taken, bind_ok]
    dsimp only
    by_cases above : (xfrmReplaySeqhi flags esn seq - esn.seqHi).toInt = 0 ∧ esn.seq < seq ∨
        0 < (xfrmReplaySeqhi flags esn seq - esn.seqHi).toInt
    · rw [if_pos above]
      obtain ⟨bitnr, after, slid, stored, length⟩ := slideForward_safe empty pos
        (if (xfrmReplaySeqhi flags esn seq - esn.seqHi).toInt = 0 then seq - esn.seq
          else ~~~esn.seq + seq + 1) fits
      obtain ⟨final, written⟩ :=
        setBitnr_safe (show esn.replayWindow.toNat ≤ 32 * after.length from length.symm ▸
          fits) stored
      rw [slid, bind_ok]
      dsimp only
      rw [written, bind_ok]
      exact ⟨_, rfl⟩
    · rw [if_neg above]
      obtain ⟨bitnr, found, stored⟩ :=
        ringBitnr_lt empty inside (xfrmReplaySeqhi_close extended empty above)
      obtain ⟨final, written⟩ := setBitnr_safe fits stored
      rw [found, bind_ok, written, bind_ok]
      exact ⟨_, rfl⟩

end Calls

/-! ## The tables -/

/-- No call of the check or the advance of a table divides by zero or leaves the bitmap.  The legacy
window has neither a division nor a bitmap, and `xfrm_replay_seqhi` has none either. -/
def CallsSafe (flags : U8) (replayEsn : Option XfrmReplayStateEsn) (stats : XfrmStats) (seq : U32) :
    XfrmReplay → Prop
  | .legacy => True
  | .bmp => ∀ esn, replayEsn = some esn →
      (∃ result, xfrmReplayCheckBmp esn stats seq = .ok result) ∧ ∃ after,
        xfrmReplayAdvanceBmp esn seq = .ok after
  | .esn => ∀ esn, replayEsn = some esn →
      (∃ result, xfrmReplayCheckEsn esn stats seq = .ok result) ∧
        ∃ after, xfrmReplayAdvanceEsn flags esn seq = .ok after

/-- The window of an accepted state fits in its bitmap, and the extended table is for extended
states. -/
theorem xfrmInitReplay_accepted {flags : U8} {esn : XfrmReplayStateEsn} {table : XfrmReplay}
    (accepted : xfrmInitReplay flags (some esn) = .ok table) :
    esn.replayWindow.toNat ≤ 32 * esn.bmp.length ∧
      (table = .esn → flags &&& XFRM_STATE_ESN ≠ 0) := by
  unfold xfrmInitReplay at accepted
  dsimp only at accepted
  split_ifs at accepted with long empty extended
  all_goals
    have fits : esn.replayWindow.toNat ≤ 32 * esn.bmp.length := by
      have small := BitVec.not_lt.mp long
      rw [BitVec.le_def, BitVec.toNat_ofNat] at small
      have := Nat.mod_le (esn.bmp.length * 4 * 8) (2 ^ 32)
      omega
    cases accepted
  · exact ⟨fits, fun _ => extended⟩
  · exact ⟨fits, fun same => XfrmReplay.noConfusion same⟩

/-- In every state that `xfrm_init_replay` accepts, all calls are safe for a packet exactly if,
where the bitmap window is in use, it is not empty and the number does not wrap around out of the
bitmap. -/
theorem replay_callsSafe_iff {flags : U8} {replayEsn : Option XfrmReplayStateEsn}
    {table : XfrmReplay}
    (accepted : xfrmInitReplay flags replayEsn = .ok table) (stats : XfrmStats) (seq : U32) :
    CallsSafe flags replayEsn stats seq table ↔ ∀ esn, replayEsn = some esn → table = .bmp →
      AdvanceStored esn seq := by
  cases table with
  | legacy =>
    simp only [CallsSafe, true_iff]
    intro esn _ other
    cases other
  | bmp =>
    constructor
    · intro safe esn present _
      subst present
      have fits := (xfrmInitReplay_accepted accepted).1
      exact (xfrmReplayAdvanceBmp_safe_iff fits seq).mp (safe esn rfl).2
    · intro stored esn present
      have inRange := stored esn present rfl
      subst present
      have fits := (xfrmInitReplay_accepted accepted).1
      exact ⟨xfrmReplayCheckBmp_safe fits stats seq,
        (xfrmReplayAdvanceBmp_safe_iff fits seq).mpr inRange⟩
  | esn =>
    constructor
    · intro _ esn _ other
      cases other
    · intro _ esn present
      subst present
      obtain ⟨fits, extended⟩ := xfrmInitReplay_accepted accepted
      exact ⟨xfrmReplayCheckEsn_safe fits stats seq,
        xfrmReplayAdvanceEsn_safe fits (extended rfl) seq⟩

theorem replay_callsSafe_iff_above : CallsSafe 0 (some ⟨5, 0, 32, [0]⟩) ⟨0, 0⟩ 7 .bmp :=
  (@replay_callsSafe_iff 0 (some ⟨5, 0, 32, [0]⟩) .bmp rfl ⟨0, 0⟩ 7).mpr fun esn present _ => by
    cases present
    exact ⟨by decide, Or.inl (by decide)⟩

/-- An empty window is accepted with the bitmap table, and its advance divides by zero; and the
advance of a window of 32 numbers leaves its bitmap for a number 99 below the top. -/
theorem empty_window_divides_by_zero : xfrmInitReplay 0 (some ⟨0, 0, 0, []⟩) = .ok .bmp ∧
      xfrmReplayAdvanceBmp ⟨0, 0, 0, []⟩ 1 = .error .divideByZero ∧
      xfrmInitReplay 0 (some ⟨100, 0, 32, [0]⟩) = .ok .bmp ∧
      xfrmReplayAdvanceBmp ⟨100, 0, 32, [0]⟩ 1 = .error (.outOfBounds 134217726) := by
  decide

end RouterKernel.Replay
