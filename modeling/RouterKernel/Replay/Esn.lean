import RouterKernel.Replay.Ring

/-!
Contract: the extended window keeps exactly the accepted 64-bit numbers of its
window, as long as the 64-bit number space is not exhausted.

Owns:
- `EsnFollows`, the relation between the state and the set of accepted 64-bit
  numbers;
- the agreement of `xfrm_replay_seqhi`, `xfrm_replay_check_esn` and
  `xfrm_replay_advance_esn` on which subspace a packet belongs to;
- whole runs, across any number of wraps of the low half;
- the state in which the high half itself wraps, where the relation is lost.
-/

namespace RouterKernel.Replay

open RouterKernel.Foundation

/-- `seq_hi:seq` as one number. -/
def esnTop (esn : XfrmReplayStateEsn) : Nat := esn.seqHi.toNat * 2 ^ 32 + esn.seq.toNat

/-- The packet would need high half `2 ^ 32`: the window is inside the last
subspace and the packet is below its bottom. -/
def EsnExhausted (esn : XfrmReplayStateEsn) (seq : U32) : Prop :=
  esn.seqHi.toNat = 2 ^ 32 - 1 ∧ esn.replayWindow - 1 ≤ esn.seq ∧
    seq < esn.seq - esn.replayWindow + 1

instance (esn : XfrmReplayStateEsn) (seq : U32) : Decidable (EsnExhausted esn seq) := by
  unfold EsnExhausted
  infer_instance

/-- The extended state stands for the set of accepted numbers: `seq_hi:seq` is
the highest of them and the ring holds those of the window. -/
structure EsnFollows (width : Nat) (state : XfrmReplayStateEsn × XfrmStats)
    (window : Window) : Prop where
  sameWidth : state.1.replayWindow.toNat = width
  divides : width ∣ 2 ^ 32
  top : window.top = esnTop state.1
  grown : width ≤ window.top
  bounded : window.Bounded
  topSeen : window.top ∈ window.seen
  ring : RingRepresents width state.1.bmp window

/-- Where a packet's 64-bit number lies relative to the top, and what the check
computes for it: either it is above the top by less than `2 ^ 32` and the check
accepts at once, or it is inside the window and `esnDiff` is its distance. -/
def EsnPlaced (esn : XfrmReplayStateEsn) (seq : U32) : Prop :=
    (esnTop esn < esnNumber esn seq ∧ esnNumber esn seq < esnTop esn + 2 ^ 32 ∧
      esnDiff esn seq = none) ∨
    (esnNumber esn seq ≤ esnTop esn ∧ esnTop esn < esnNumber esn seq + esn.replayWindow.toNat ∧
      ∃ diff, esnDiff esn seq = some diff ∧ diff.toNat = esnTop esn - esnNumber esn seq)

section Number

variable {esn : XfrmReplayStateEsn} {seq : U32}

private theorem esnDiff_wrapped (seq top : U32) : ~~~seq + top + 1 = top - seq := by
  bv_omega

/-- Case A of the source, the window inside one subspace. -/
private theorem esnNumber_same_subspace (positive : 0 < esn.replayWindow.toNat)
    (same : esn.replayWindow.toNat - 1 ≤ esn.seq.toNat) (room : ¬ EsnExhausted esn seq) :
      EsnPlaced esn seq := by
  have isEsn : ¬ XFRM_STATE_ESN &&& XFRM_STATE_ESN = 0 := by decide
  have hiBound := esn.seqHi.isLt
  have sameBv : esn.replayWindow - 1 ≤ esn.seq := by bv_omega
  have bottom : (esn.seq - esn.replayWindow + 1).toNat =
    esn.seq.toNat + 1 - esn.replayWindow.toNat := by bv_omega
  unfold EsnPlaced esnNumber esnTop xfrmReplaySeqhi esnDiff EsnExhausted at *
  rw [if_neg isEsn, if_pos sameBv, if_pos sameBv]
  by_cases below : seq < esn.seq - esn.replayWindow + 1
  · have belowNat : seq.toNat < esn.seq.toNat + 1 - esn.replayWindow.toNat := by
      rw [← bottom]
      exact below
    have hiNat : (esn.seqHi + 1).toNat = esn.seqHi.toNat + 1 := by
      have : esn.seqHi.toNat ≠ 2 ^ 32 - 1 := fun last => room ⟨last, sameBv, below⟩
      bv_omega
    rw [if_pos below, if_pos (Or.inr below), hiNat]
    refine Or.inl ⟨?_, ?_, rfl⟩ <;> omega
  · have aboveNat : esn.seq.toNat + 1 - esn.replayWindow.toNat ≤ seq.toNat := by
      rw [← bottom]
      exact Nat.le_of_not_lt below
    rw [if_neg below]
    by_cases above : esn.seq < seq
    · have : esn.seq.toNat < seq.toNat := above
      rw [if_pos (Or.inl above)]
      refine Or.inl ⟨?_, ?_, rfl⟩ <;> have := seq.isLt <;> omega
    · have : seq.toNat ≤ esn.seq.toNat := Nat.le_of_not_lt above
      rw [if_neg (not_or.mpr ⟨above, below⟩)]
      refine Or.inr ⟨by omega, by omega, _, rfl, ?_⟩
      rw [BitVec.toNat_sub_of_le this]
      omega

/-- Case B of the source, the window spanning two subspaces. -/
private theorem esnNumber_two_subspaces (grown : esn.replayWindow.toNat ≤ esnTop esn)
    (spans : esn.seq.toNat < esn.replayWindow.toNat - 1) : EsnPlaced esn seq := by
  have isEsn : ¬ XFRM_STATE_ESN &&& XFRM_STATE_ESN = 0 := by decide
  have hiBound := esn.seqHi.isLt
  have spansBv : ¬ esn.replayWindow - 1 ≤ esn.seq := by bv_omega
  have bottom : (esn.seq - esn.replayWindow + 1).toNat =
      2 ^ 32 + esn.seq.toNat + 1 - esn.replayWindow.toNat := by bv_omega
  have windowBound := esn.replayWindow.isLt
  unfold EsnPlaced esnNumber esnTop xfrmReplaySeqhi esnDiff at *
  rw [if_neg isEsn, if_neg spansBv, if_neg spansBv]
  by_cases high : esn.seq - esn.replayWindow + 1 ≤ seq
  · have highNat : 2 ^ 32 + esn.seq.toNat + 1 - esn.replayWindow.toNat ≤ seq.toNat := by
      rw [← bottom]
      exact high
    have seqBound := seq.isLt
    -- The window spans two subspaces, so there is a subspace below this one.
    have hiNat : (esn.seqHi - 1).toNat = esn.seqHi.toNat - 1 := by bv_omega
    have hiPos : 0 < esn.seqHi.toNat := by omega
    rw [if_pos high, if_neg (fun between => absurd high (Nat.not_le_of_lt between.2)),
      if_pos high, hiNat, esnDiff_wrapped]
    refine Or.inr ⟨by omega, by omega, _, rfl, ?_⟩
    bv_omega
  · have lowNat : seq.toNat < 2 ^ 32 + esn.seq.toNat + 1 - esn.replayWindow.toNat := by
      rw [← bottom]
      exact Nat.lt_of_not_le high
    rw [if_neg high]
    by_cases above : esn.seq < seq
    · have : esn.seq.toNat < seq.toNat := above
      rw [if_pos ⟨above, Nat.lt_of_not_le high⟩]
      refine Or.inl ⟨by omega, by have := seq.isLt; omega, rfl⟩
    · have : seq.toNat ≤ esn.seq.toNat := Nat.le_of_not_lt above
      rw [if_neg (fun between => above between.1), if_neg high]
      refine Or.inr ⟨by omega, by omega, _, rfl, ?_⟩
      rw [BitVec.toNat_sub_of_le this]
      omega

theorem esnNumber_cases (positive : 0 < esn.replayWindow.toNat)
    (grown : esn.replayWindow.toNat ≤ esnTop esn) (room : ¬ EsnExhausted esn seq) :
      EsnPlaced esn seq := by
  rcases Nat.lt_or_ge esn.seq.toNat (esn.replayWindow.toNat - 1) with spans | same
  · exact esnNumber_two_subspaces grown spans
  · exact esnNumber_same_subspace positive same room

/-- The high half chosen for the packet against the current one, as the code compares them. -/
private abbrev esnWrap (esn : XfrmReplayStateEsn) (seq : U32) : Int :=
  (xfrmReplaySeqhi XFRM_STATE_ESN esn seq - esn.seqHi).toInt

/-- A number above the top is ahead, in the subspace that the code goes on with. -/
private theorem esnWrap_above (above : esnTop esn < esnNumber esn seq)
    (near : esnNumber esn seq < esnTop esn + 2 ^ 32) :
    (esnWrap esn seq = 0 ∧ esn.seq < seq ∨ 0 < esnWrap esn seq) ∧
      (if 0 < esnWrap esn seq then esn.seqHi + 1 else esn.seqHi) =
        xfrmReplaySeqhi XFRM_STATE_ESN esn seq := by
  unfold esnTop esnNumber at *
  unfold esnWrap
  have hiBound := (xfrmReplaySeqhi XFRM_STATE_ESN esn seq).isLt
  generalize xfrmReplaySeqhi XFRM_STATE_ESN esn seq = seqHi at *
  rcases Nat.lt_or_ge esn.seqHi.toNat seqHi.toNat with next | same
  · have successor : seqHi = esn.seqHi + 1 := by bv_omega
    have one : seqHi - esn.seqHi = 1 := by bv_omega
    rw [one]
    exact ⟨.inr (by decide), (if_pos (by decide)).trans successor.symm⟩
  · obtain rfl : seqHi = esn.seqHi := by bv_omega
    have later : esn.seq < seq := by bv_omega
    simp [later]

private theorem esnWrap_below (below : esnNumber esn seq ≤ esnTop esn)
    (near : esnTop esn < esnNumber esn seq + 2 ^ 32) :
    ¬ (esnWrap esn seq = 0 ∧ esn.seq < seq ∨ 0 < esnWrap esn seq) := by
  unfold esnTop esnNumber at *
  unfold esnWrap
  have hiBound := (xfrmReplaySeqhi XFRM_STATE_ESN esn seq).isLt
  generalize xfrmReplaySeqhi XFRM_STATE_ESN esn seq = seqHi at *
  rcases Nat.lt_or_ge seqHi.toNat esn.seqHi.toNat with previous | same
  · have minus : seqHi - esn.seqHi = -1 := by bv_omega
    have negative : (-1 : U32).toInt = -1 := by decide
    rw [minus, negative]
    omega
  · obtain rfl : seqHi = esn.seqHi := by bv_omega
    have notLater : ¬ esn.seq < seq := by bv_omega
    simp [notLater]

end Number

section Step

variable {width : Nat} {state : XfrmReplayStateEsn × XfrmStats} {window : Window}

private theorem EsnFollows.window_ne_zero (follows : EsnFollows width state window) :
    state.1.replayWindow ≠ 0 := by
  have positive := follows.ring.positive
  rw [← follows.sameWidth] at positive
  intro zero
  rw [zero] at positive
  simp at positive

private theorem EsnFollows.position (follows : EsnFollows width state window) :
    ((state.1.seq - 1) % state.1.replayWindow).toNat =
      slot state.1.replayWindow.toNat window.top := by
  apply ringPosition_toNat
  · rw [follows.sameWidth]
    exact follows.divides
  · rw [follows.top, esnTop]
    have := state.1.seq.isLt
    omega

variable {seq : U32}

section

variable (follows : EsnFollows width state window)

include follows

theorem EsnFollows.check (room : ¬ EsnExhausted state.1 seq) :
    ∃ code stats, xfrmReplayCheckEsn state.1 state.2 seq = .ok (code, stats) ∧
      (code = 0 ↔ window.Admits width (esnNumber state.1 seq)) := by
  have position := follows.position
  have top := follows.top
  have grown := follows.grown
  have positive := follows.ring.positive
  have widthEq := follows.sameWidth
  subst widthEq
  rw [top] at grown
  have notFirst : ¬ (seq = 0 ∧ state.1.seqHi = 0 ∧ state.1.seq < state.1.replayWindow - 1) := by
    rintro ⟨_, hiZero, low⟩
    rw [esnTop, hiZero] at grown
    bv_omega
  unfold xfrmReplayCheckEsn
  rw [if_neg follows.window_ne_zero, if_neg notFirst]
  rcases esnNumber_cases positive grown room with
    ⟨above, _, noDiff⟩ | ⟨below, near, diff, someDiff, diffNat⟩
  · rw [noDiff]
    refine ⟨_, _, rfl, ?_⟩
    simp only [true_iff]
    exact ⟨by omega, Or.inl (by rw [top]; exact above)⟩
  · have closeNat : diff.toNat < state.1.replayWindow.toNat := by omega
    have distance : esnNumber state.1 seq + diff.toNat = window.top := by
      rw [top]
      omega
    obtain ⟨bitnr, bitnrOk, bitnrNat, stored⟩ :=
      follows.ring.ringBitnr position distance closeNat
    have bit := follows.ring.bits (esnNumber state.1 seq) (by rw [top]; exact below)
      (by rw [top]; exact near)
    have young : ¬ state.1.replayWindow ≤ diff := Nat.not_le_of_lt closeNat
    rw [someDiff]
    simp only [if_neg young, bind, Except.bind, pure, Except.pure,
      umod_ok follows.window_ne_zero, bitnrOk, testBitnr_ok stored, bitnrNat]
    rw [Window.admits_iff_fresh (by omega) (by omega) (by omega), ← bit]
    cases state.1.bmp.test (slot state.1.replayWindow.toNat (esnNumber state.1 seq)) with
    | true => exact ⟨_, _, rfl, by simp [EINVAL]⟩
    | false => exact ⟨_, _, rfl, by simp⟩

private theorem EsnFollows.advance_above (above : esnTop state.1 < esnNumber state.1 seq)
    (near : esnNumber state.1 seq < esnTop state.1 + 2 ^ 32) (stats : XfrmStats) :
    ∃ esn, xfrmReplayAdvanceEsn XFRM_STATE_ESN state.1 seq = .ok esn ∧
      EsnFollows width (esn, stats) (window.record (esnNumber state.1 seq)) := by
  have position := follows.position
  have top := follows.top
  have widthEq := follows.sameWidth
  subst widthEq
  have grown := follows.grown
  obtain ⟨forward, newNumber⟩ := esnWrap_above above near
  obtain ⟨diff, diffEq, diffNat⟩ : ∃ diff,
      (if esnWrap state.1 seq = 0 then seq - state.1.seq else ~~~state.1.seq + seq + 1) = diff ∧
      diff.toNat = esnNumber state.1 seq - esnTop state.1 := by
    refine ⟨seq - state.1.seq, by rw [esnDiff_wrapped, ite_self], ?_⟩
    unfold esnNumber esnTop at *
    bv_omega
  obtain ⟨bitnr, cleared, final, slideOk, setOk, represents⟩ :=
    slideForward_represents follows.divides follows.ring follows.bounded position
      diff (by omega)
  have newTop : window.top + diff.toNat = esnNumber state.1 seq := by
    rw [top]
    omega
  rw [newTop] at represents
  have recordTop : (window.record (esnNumber state.1 seq)).top = esnNumber state.1 seq := by
    simp only [Window.record, top]
    omega
  unfold xfrmReplayAdvanceEsn
  rw [if_neg follows.window_ne_zero]
  simp only [umod_ok follows.window_ne_zero, bind, Except.bind, if_pos forward, diffEq, slideOk,
    setOk, pure, Except.pure, newNumber]
  refine ⟨_, rfl, ⟨rfl, follows.divides, recordTop, ?_, Window.bounded_record follows.bounded _, ?_,
    represents⟩⟩
  · rw [recordTop]
    omega
  · rw [recordTop]
    simp [Window.record]

private theorem EsnFollows.advance_inside (below : esnNumber state.1 seq ≤ esnTop state.1)
    (near : esnTop state.1 < esnNumber state.1 seq + width) (stats : XfrmStats) :
    ∃ esn, xfrmReplayAdvanceEsn XFRM_STATE_ESN state.1 seq = .ok esn ∧
      EsnFollows width (esn, stats) (window.record (esnNumber state.1 seq)) := by
  have position := follows.position
  have top := follows.top
  have widthEq := follows.sameWidth
  subst widthEq
  have windowBound := state.1.replayWindow.isLt
  have backward := esnWrap_below below (by omega)
  have diffNat : (state.1.seq - seq).toNat = esnTop state.1 - esnNumber state.1 seq := by
    unfold esnNumber esnTop at *
    bv_omega
  have closeBv : state.1.seq - seq < state.1.replayWindow := by
    have : (state.1.seq - seq).toNat < state.1.replayWindow.toNat := by omega
    exact this
  have distance : esnNumber state.1 seq + (state.1.seq - seq).toNat = window.top := by
    rw [top]
    omega
  obtain ⟨bitnr, bitnrOk, bitnrNat, stored⟩ :=
    follows.ring.ringBitnr position distance closeBv
  have sameTop : (window.record (esnNumber state.1 seq)).top = window.top := by
    rw [Window.record, top]
    exact max_eq_left below
  unfold xfrmReplayAdvanceEsn
  rw [if_neg follows.window_ne_zero]
  simp only [umod_ok follows.window_ne_zero, bind, Except.bind, if_neg backward, bitnrOk,
    setBitnr_ok stored, bitnrNat, pure, Except.pure]
  refine ⟨_, rfl,
    ⟨rfl, follows.divides, sameTop.trans top, ?_, Window.bounded_record follows.bounded _, ?_, ?_⟩⟩
  · rw [sameTop]
    exact follows.grown
  · rw [sameTop]
    exact Finset.mem_insert_of_mem follows.topSeen
  · exact follows.ring.fill (by rw [top]; exact below) (by rw [top]; exact near)

/-- One packet: the decision is that of the abstract window on the packet's
64-bit number, and the relation is kept. -/
theorem EsnFollows.receive (room : ¬ EsnExhausted state.1 seq) : ∃ next, receiveEsn state seq =
        .ok ((esnNumber state.1 seq, (window.receive width (esnNumber state.1 seq)).1), next) ∧
      EsnFollows width next (window.receive width (esnNumber state.1 seq)).2 := by
  obtain ⟨code, stats, checkOk, decides⟩ := follows.check room
  have advanceOk : ∃ esn, xfrmReplayAdvanceEsn XFRM_STATE_ESN state.1 seq = .ok esn ∧
      EsnFollows width (esn, stats) (window.record (esnNumber state.1 seq)) := by
    have positive := follows.ring.positive
    have grown := follows.grown
    rw [follows.top, ← follows.sameWidth] at grown
    rw [← follows.sameWidth] at positive
    rcases esnNumber_cases positive grown room with ⟨above, near, _⟩ | ⟨below, near, _⟩
    · exact follows.advance_above above near stats
    · rw [follows.sameWidth] at near
      exact follows.advance_inside below near stats
  obtain ⟨esn, advanceEq, advanced⟩ := advanceOk
  unfold receiveEsn
  simp only [checkOk, bind, Except.bind]
  by_cases accepted : code = 0
  · have admits := decides.mp accepted
    refine ⟨(esn, stats), ?_, ?_⟩
    · simp [accepted, advanceEq, Window.receive, admits, pure, Except.pure]
    · simpa [Window.receive, admits] using advanced
  · have refused : ¬ window.Admits width (esnNumber state.1 seq) := fun admits =>
      accepted (decides.mpr admits)
    refine ⟨(state.1, stats), ?_, ?_⟩
    · simp [accepted, Window.receive, refused, pure, Except.pure]
    · simpa [Window.receive, refused] using
        ({ follows with } : EsnFollows width (state.1, stats) window)

end

end Step

/-! ## Runs -/

/-- No packet of the run arrives in a state where the 64-bit number space is
exhausted for it. -/
def EsnRoom (state : XfrmReplayStateEsn × XfrmStats) (packets : List U32) : Prop :=
  ∀ before seq after, packets = before ++ seq :: after → ∀ history reached,
    runAll receiveEsn state before = .ok (history, reached) → ¬ EsnExhausted reached.1 seq

variable {state : XfrmReplayStateEsn × XfrmStats} {seq : U32} {rest : List U32}

private theorem EsnRoom.head (room : EsnRoom state (seq :: rest)) : ¬ EsnExhausted state.1 seq :=
  room [] seq rest rfl [] state rfl

private theorem EsnRoom.tail {next : XfrmReplayStateEsn × XfrmStats} {output : Nat × Bool}
    (room : EsnRoom state (seq :: rest))
    (stepOk : receiveEsn state seq = .ok (output, next)) : EsnRoom next rest := by
  intro before other after split history reached runOk
  apply room (seq :: before) other after (by rw [split]; rfl) (output :: history) reached
  simp only [runAll, stepOk, runOk]

theorem EsnRoom.nil (state : XfrmReplayStateEsn × XfrmStats) : EsnRoom state [] := by
  intro before seq after split
  simp at split

theorem EsnRoom.cons (output : Nat × Bool) (next : XfrmReplayStateEsn × XfrmStats)
    (here : ¬ EsnExhausted state.1 seq) (stepOk : receiveEsn state seq = .ok (output, next))
    (later : EsnRoom next rest) :
    EsnRoom state (seq :: rest) := by
  intro before other after split history reached runOk
  cases before with
  | nil =>
    obtain ⟨rfl, _⟩ := List.cons.inj split
    simp only [runAll, Except.ok.injEq, Prod.mk.injEq] at runOk
    rw [← runOk.2]
    exact here
  | cons first before =>
    obtain ⟨rfl, tailEq⟩ := List.cons.inj split
    simp only [runAll, stepOk] at runOk
    cases restRun : runAll receiveEsn next before with
    | error fault =>
      rw [restRun] at runOk
      cases runOk
    | ok value =>
      obtain ⟨laterHistory, laterReached⟩ := value
      rw [restRun] at runOk
      simp only [Except.ok.injEq, Prod.mk.injEq] at runOk
      rw [← runOk.2]
      exact later before other after tailEq laterHistory laterReached restRun

/-- What a run from a given set of accepted numbers has to satisfy: the final
state stands for exactly the accepted numbers, and no number was accepted after
it had been accepted before. -/
structure EsnFaithful (width : Nat) (initial : Finset Nat) (history : List (Nat × Bool))
    (final : XfrmReplayStateEsn × XfrmStats) : Prop where
  top : esnTop final.1 ∈ initial ∪ (admitted history).toFinset
  highest : ∀ number ∈ initial ∪ (admitted history).toFinset, number ≤ esnTop final.1
  ring : ∀ number, number ≤ esnTop final.1 → esnTop final.1 < number + width →
    (final.1.bmp.test (slot width number) = true ↔ number ∈ initial ∪ (admitted history).toFinset)
  once : ∀ before number after, history = before ++ (number, true) :: after →
    number ∉ initial ∪ (admitted before).toFinset

theorem EsnFollows.run {width : Nat} {window : Window} (follows : EsnFollows width state window)
    {packets : List U32} (room : EsnRoom state packets) :
    ∃ history final, runAll receiveEsn state packets = .ok (history, final) ∧
      EsnFollows width final ⟨esnTop final.1, window.seen ∪ (admitted history).toFinset⟩ ∧
      ∀ before number after, history = before ++ (number, true) :: after →
        number ∉ window.seen ∪ (admitted before).toFinset := by
  induction packets generalizing state window with
  | nil =>
    refine ⟨[], state, rfl, ?_, ?_⟩
    · have same : (⟨esnTop state.1, window.seen ∪ (admitted []).toFinset⟩ : Window) = window := by
        rw [← follows.top]
        simp [admitted]
      rw [same]
      exact follows
    · intro before number after split
      simp at split
  | cons seq rest ih =>
    obtain ⟨next, stepOk, nextFollows⟩ := follows.receive room.head
    obtain ⟨history, final, runOk, finalFollows, once⟩ :=
      ih nextFollows (room.tail stepOk)
    have grownSeen : (window.receive width (esnNumber state.1 seq)).2.seen ∪
        (admitted history).toFinset =
        window.seen ∪ (admitted ((esnNumber state.1 seq,
          (window.receive width (esnNumber state.1 seq)).1) :: history)).toFinset := by
      rw [Window.receive_seen, admitted_cons _ history, List.toFinset_append, Finset.union_assoc]
    rw [grownSeen] at finalFollows
    refine ⟨_, final, by simp only [runAll, stepOk, runOk], finalFollows, ?_⟩
    intro before number after split
    cases before with
    | nil =>
      obtain ⟨headEq, _⟩ := List.cons.inj split
      obtain ⟨numberEq, accepted⟩ := Prod.mk.inj headEq
      subst numberEq
      have admits : window.Admits width (esnNumber state.1 seq) := by
        by_contra refused
        simp [Window.receive, refused] at accepted
      simpa [admitted] using Window.not_mem_of_admits follows.bounded admits
    | cons first before =>
      obtain ⟨headEq, tailEq⟩ := List.cons.inj split
      subst headEq
      have fresh := once before number after tailEq
      rwa [Window.receive_seen, Finset.union_assoc, ← List.toFinset_append,
        ← admitted_cons _ before] at fresh

/-- Across any number of wraps of the low half: a run that starts from a
faithful state with `width ≤ top` does not fault and ends in a faithful state,
provided no packet of it finds the 64-bit number space exhausted. -/
theorem esnWindow_faithful (state : XfrmReplayStateEsn × XfrmStats) (exponent : Nat)
    (power : state.1.replayWindow.toNat = 2 ^ exponent)
    (fits : state.1.replayWindow.toNat ≤ 32 * state.1.bmp.length)
    (grown : state.1.replayWindow.toNat ≤ esnTop state.1) (initial : Finset Nat)
    (start : EsnFaithful state.1.replayWindow.toNat initial [] state) (packets : List U32)
    (room : EsnRoom state packets) :
    ∃ history final, runAll receiveEsn state packets = .ok (history, final) ∧
      EsnFaithful state.1.replayWindow.toNat initial history final := by
  have small : 2 ^ exponent < 2 ^ 32 := power ▸ state.1.replayWindow.isLt
  have divides : state.1.replayWindow.toNat ∣ 2 ^ 32 := by
    rw [power]
    exact pow_dvd_pow 2 (Nat.pow_lt_pow_iff_right (by norm_num) |>.mp small).le
  have follows : EsnFollows state.1.replayWindow.toNat state ⟨esnTop state.1, initial⟩ :=
    { sameWidth := rfl
      divides := divides
      top := rfl
      grown := grown
      bounded := fun number member => start.highest number (by simp [member])
      topSeen := by simpa [admitted] using start.top
      ring :=
        { positive := power ▸ Nat.two_pow_pos exponent
          fits := fits
          bits := fun number low near => by simpa [admitted] using start.ring number low near } }
  obtain ⟨history, final, runOk, finalFollows, once⟩ := follows.run room
  exact ⟨history, final, runOk, finalFollows.topSeen, finalFollows.bounded, finalFollows.ring.bits,
    once⟩

/-- A single accepted number, at the top, is a faithful state. -/
theorem esnFaithful_singleton {width : Nat} (bits : ∀ distance < width, distance ≤ esnTop state.1 →
      (state.1.bmp.test (slot width (esnTop state.1 - distance)) = true ↔ distance = 0)) :
    EsnFaithful width {esnTop state.1} [] state where
  top := by simp [admitted]
  highest := by simp [admitted]
  ring := by
    intro number low near
    have bit := bits (esnTop state.1 - number) (by omega) (by omega)
    rw [Nat.sub_sub_self low] at bit
    rw [bit]
    simp only [admitted, List.filter_nil, List.map_nil, List.toFinset_nil, Finset.union_empty,
      Finset.mem_singleton]
    omega
  once := by
    intro before number after split
    simp at split

/-- Two below a wrap of the low half, with a window of four. -/
def esnBeforeWrap : XfrmReplayStateEsn × XfrmStats :=
  ({ seq := 0xFFFFFFFE, seqHi := 0, replayWindow := 4, bmp := [2] }, ⟨0, 0⟩)

theorem esnWindow_faithful_across_wrap : ∃ history final,
      runAll receiveEsn esnBeforeWrap [0, 0xFFFFFFFF, 0] = .ok (history, final) ∧
      EsnFaithful 4 {esnTop esnBeforeWrap.1} history final := by
  refine esnWindow_faithful esnBeforeWrap 2 (by decide) (by decide) (by decide) _
    (esnFaithful_singleton (by decide)) [0, 0xFFFFFFFF, 0] ?_
  refine EsnRoom.cons (2 ^ 32, true)
    ({ seq := 0, seqHi := 1, replayWindow := 4, bmp := [10] }, ⟨0, 0⟩)
    (by decide) (by decide) ?_
  refine EsnRoom.cons (2 ^ 32 - 1, true)
    ({ seq := 0, seqHi := 1, replayWindow := 4, bmp := [14] }, ⟨0, 0⟩)
    (by decide) (by decide) ?_
  refine EsnRoom.cons (2 ^ 32, false)
    ({ seq := 0, seqHi := 1, replayWindow := 4, bmp := [14] }, ⟨0, 1⟩)
    (by decide) (by decide) ?_
  exact EsnRoom.nil _

/-- Inside the last subspace, with a window of 32. -/
def esnLastSubspace : XfrmReplayStateEsn × XfrmStats :=
  ({ seq := 100, seqHi := 0xFFFFFFFF, replayWindow := 32, bmp := [8] }, ⟨0, 0⟩)

/-- Packet 1 is then given high half 0: the top falls from the last subspace to
1, below a number that was accepted before. -/
theorem esnWindow_top_falls_at_exhaustion : (esnLastSubspace.1.replayWindow.toNat = 2 ^ 5 ∧
      esnLastSubspace.1.replayWindow.toNat ≤ 32 * esnLastSubspace.1.bmp.length ∧
      esnLastSubspace.1.replayWindow.toNat ≤ esnTop esnLastSubspace.1 ∧
      EsnFaithful 32 {esnTop esnLastSubspace.1} [] esnLastSubspace) ∧
    ¬ ∃ history final, runAll receiveEsn esnLastSubspace [1] = .ok (history, final) ∧
      EsnFaithful 32 {esnTop esnLastSubspace.1} history final := by
  refine ⟨⟨by decide, by decide, by decide, esnFaithful_singleton (by decide)⟩, ?_⟩
  rintro ⟨history, final, runOk, faithful⟩
  have computed : runAll receiveEsn esnLastSubspace [1] = .ok ([(1, true)],
        ({ seq := 1, seqHi := 0, replayWindow := 32, bmp := [1] }, ⟨0, 0⟩)) := by
    decide
  rw [computed] at runOk
  injection runOk with pairEq
  obtain ⟨rfl, rfl⟩ := Prod.mk.inj pairEq
  have tooHigh := faithful.highest (esnTop esnLastSubspace.1) (by simp)
  revert tooHigh
  decide

end RouterKernel.Replay
