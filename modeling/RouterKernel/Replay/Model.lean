import RouterKernel.Abi
import RouterKernel.Foundation.WordBitmap

/-!
Contract: the receive half of `net/xfrm/xfrm_replay.c`.

Owns:
- the legacy window (`xfrm_replay_check`, `xfrm_replay_advance`), one word that
  shifts with the highest sequence number;
- the bitmap window (`xfrm_replay_check_bmp`, `xfrm_replay_advance_bmp`), a ring
  addressed by `(seq - 1) mod replay_window`;
- the extended window (`xfrm_replay_seqhi`, `xfrm_replay_check_esn`,
  `xfrm_replay_advance_esn`), the same ring over 64-bit numbers of which only
  the low half is on the wire;
- `xfrm_init_replay`, and the check-then-advance step of `xfrm_input`.

Does not own: the output counters, the audit log, and the notify timers, none
of which feeds back into a decision.  Sequence numbers are in host order.
-/

namespace RouterKernel.Replay

open RouterKernel.Foundation

/-- The two counters of `struct xfrm_stats` that the checks bump. -/
structure XfrmStats where
  replayWindow : U32
  replay : U32
deriving DecidableEq, Repr

structure XfrmReplayState where
  seq : U32
  bitmap : U32
deriving DecidableEq, Repr

/-- `struct xfrm_replay_state_esn`; `bmp_len` is the length of `bmp`. -/
structure XfrmReplayStateEsn where
  seq : U32
  seqHi : U32
  replayWindow : U32
  bmp : Bitmap 32
deriving DecidableEq, Repr

/-! ## Legacy window -/

def xfrmReplayCheck (replayWindow : U8) (replay : XfrmReplayState) (stats : XfrmStats) (seq : U32) :
    Int × XfrmStats :=
  if replayWindow = 0 then (0, stats)
  else if seq = 0 then (-EINVAL, stats)
  else if replay.seq < seq then (0, stats)
  else
    let diff := replay.seq - seq
    if min replayWindow.toNat 32 ≤ diff.toNat then
      (-EINVAL, { stats with replayWindow := stats.replayWindow + 1 })
    else if replay.bitmap &&& (1#32 <<< diff.toNat) != 0 then
      (-EINVAL, { stats with replay := stats.replay + 1 })
    else (0, stats)

def xfrmReplayAdvance (replayWindow : U8) (replay : XfrmReplayState) (seq : U32) :
    XfrmReplayState :=
  if replayWindow = 0 then replay
  else if replay.seq < seq then
    let diff := seq - replay.seq
    if diff.toNat < replayWindow.toNat then
      { seq := seq, bitmap := (replay.bitmap <<< diff.toNat) ||| 1 }
    else { seq := seq, bitmap := 1 }
  else
    let diff := replay.seq - seq
    { replay with bitmap := replay.bitmap ||| (1#32 <<< diff.toNat) }

/-! ## Ring positions shared by the bitmap windows -/

/-- The bit number `diff` places behind ring position `pos`. -/
def ringBitnr (pos diff replayWindow : U32) : Except Fault U32 :=
  if diff ≤ pos then umod (pos - diff) replayWindow
  else .ok (replayWindow - (diff - pos))

/-- `bmp[bitnr >> 5] & (1U << (bitnr & 0x1F))` -/
def testBitnr (bmp : Bitmap 32) (bitnr : U32) : Except Fault Bool :=
  bmp.testAt (bitnr >>> 5).toNat (bitnr &&& 0x1F).toNat

/-- `bmp[bitnr >> 5] |= (1U << (bitnr & 0x1F))` -/
def setBitnr (bmp : Bitmap 32) (bitnr : U32) : Except Fault (Bitmap 32) :=
  bmp.setAt (bitnr >>> 5).toNat (bitnr &&& 0x1F).toNat

/-- `bmp[bitnr >> 5] &= ~(1U << (bitnr & 0x1F))` -/
def clearBitnr (bmp : Bitmap 32) (bitnr : U32) : Except Fault (Bitmap 32) :=
  bmp.clearAt (bitnr >>> 5).toNat (bitnr &&& 0x1F).toNat

/-- The loop `for (i = 1; i < diff; i++)` that clears the bits the window slides
over. -/
def clearSkipped (replayWindow pos diff : U32) (bmp : Bitmap 32) : Except Fault (Bitmap 32) :=
  (List.range' 1 (diff.toNat - 1)).foldlM
    (fun current i => do
      let bitnr ← umod (pos + BitVec.ofNat 32 i) replayWindow
      clearBitnr current bitnr)
    bmp

/-- The common head of the two advance functions for a forward jump by `diff`:
clear what is skipped and name the bit of the new top. -/
def slideForward (replayWindow pos diff : U32) (bmp : Bitmap 32) :
    Except Fault (U32 × Bitmap 32) := do
  let cleared ←
    if diff < replayWindow then clearSkipped replayWindow pos diff bmp
    else bmp.zeroWords ((replayWindow - 1) >>> 5).toNat.succ
  let bitnr ← umod (pos + diff) replayWindow
  return (bitnr, cleared)

/-! ## Bitmap window -/

def xfrmReplayCheckBmp (esn : XfrmReplayStateEsn) (stats : XfrmStats) (seq : U32) :
    Except Fault (Int × XfrmStats) :=
  let diff := esn.seq - seq
  if esn.replayWindow = 0 then .ok (0, stats)
  else if seq = 0 then .ok (-EINVAL, stats)
  else if esn.seq < seq then .ok (0, stats)
  else if esn.replayWindow ≤ diff then
    .ok (-EINVAL, { stats with replayWindow := stats.replayWindow + 1 })
  else do
    let pos ← umod (esn.seq - 1) esn.replayWindow
    let bitnr ← ringBitnr pos diff esn.replayWindow
    let replayed ← testBitnr esn.bmp bitnr
    if replayed then return (-EINVAL, { stats with replay := stats.replay + 1 })
    else return (0, stats)

/-- The remainder is taken before the test for an empty window, as in the
source. -/
def xfrmReplayAdvanceBmp (esn : XfrmReplayStateEsn) (seq : U32) :
    Except Fault XfrmReplayStateEsn := do
  let pos ← umod (esn.seq - 1) esn.replayWindow
  if esn.replayWindow = 0 then return esn
  else if esn.seq < seq then do
    let (bitnr, bmp) ← slideForward esn.replayWindow pos (seq - esn.seq) esn.bmp
    let bmp ← setBitnr bmp bitnr
    return { esn with seq := seq, bmp := bmp }
  else do
    let bitnr ← ringBitnr pos (esn.seq - seq) esn.replayWindow
    let bmp ← setBitnr esn.bmp bitnr
    return { esn with bmp := bmp }

/-! ## Extended window -/

def XFRM_STATE_ESN : U8 := 128

def xfrmReplaySeqhi (flags : U8) (esn : XfrmReplayStateEsn) (seq : U32) : U32 :=
  if flags &&& XFRM_STATE_ESN = 0 then 0
  else
    let bottom := esn.seq - esn.replayWindow + 1
    if esn.replayWindow - 1 ≤ esn.seq then
      -- A. same subspace
      if seq < bottom then esn.seqHi + 1 else esn.seqHi
    else
      -- B. window spans two subspaces
      if bottom ≤ seq then esn.seqHi - 1 else esn.seqHi

/-- The branches of `xfrm_replay_check_esn` that return before the bitmap is
consulted: `none` means the number is above the window and is accepted. -/
def esnDiff (esn : XfrmReplayStateEsn) (seq : U32) : Option U32 :=
  let wsize := esn.replayWindow
  let top := esn.seq
  let bottom := top - wsize + 1
  if wsize - 1 ≤ top then
    if top < seq ∨ seq < bottom then none else some (top - seq)
  else if top < seq ∧ seq < bottom then none
  else if bottom ≤ seq then some (~~~seq + top + 1)
  else some (top - seq)

def xfrmReplayCheckEsn (esn : XfrmReplayStateEsn) (stats : XfrmStats) (seq : U32) :
    Except Fault (Int × XfrmStats) :=
  if esn.replayWindow = 0 then .ok (0, stats)
  else if seq = 0 ∧ esn.seqHi = 0 ∧ esn.seq < esn.replayWindow - 1 then
    .ok (-EINVAL, stats)
  else
    match esnDiff esn seq with
    | none => .ok (0, stats)
    | some diff =>
      if esn.replayWindow ≤ diff then
        .ok (-EINVAL, { stats with replayWindow := stats.replayWindow + 1 })
      else do
        let pos ← umod (esn.seq - 1) esn.replayWindow
        let bitnr ← ringBitnr pos diff esn.replayWindow
        let replayed ← testBitnr esn.bmp bitnr
        if replayed then return (-EINVAL, { stats with replay := stats.replay + 1 })
        else return (0, stats)

def xfrmReplayAdvanceEsn (flags : U8) (esn : XfrmReplayStateEsn) (seq : U32) :
    Except Fault XfrmReplayStateEsn :=
  if esn.replayWindow = 0 then .ok esn
  else do
    let pos ← umod (esn.seq - 1) esn.replayWindow
    let seqHi := xfrmReplaySeqhi flags esn seq
    let wrap := (seqHi - esn.seqHi).toInt
    if (wrap = 0 ∧ esn.seq < seq) ∨ 0 < wrap then do
      let diff := if wrap = 0 then seq - esn.seq else ~~~esn.seq + seq + 1
      let (bitnr, bmp) ← slideForward esn.replayWindow pos diff esn.bmp
      let bmp ← setBitnr bmp bitnr
      return { esn with
        seq := seq
        seqHi := if 0 < wrap then esn.seqHi + 1 else esn.seqHi
        bmp := bmp }
    else do
      let bitnr ← ringBitnr pos (esn.seq - seq) esn.replayWindow
      let bmp ← setBitnr esn.bmp bitnr
      return { esn with bmp := bmp }

/-! ## Choice of the window and the receive step -/

/-- The three `struct xfrm_replay` tables. -/
inductive XfrmReplay where
  | legacy
  | bmp
  | esn
deriving DecidableEq, Repr

/-- `xfrm_init_replay`: the table installed in `x->repl`, or the error. -/
def xfrmInitReplay (flags : U8) (replayEsn : Option XfrmReplayStateEsn) : Except Int XfrmReplay :=
  match replayEsn with
  | none => .ok .legacy
  | some esn =>
    if BitVec.ofNat 32 (esn.bmp.length * 4 * 8) < esn.replayWindow then .error (-EINVAL)
    else if flags &&& XFRM_STATE_ESN ≠ 0 ∧ esn.replayWindow = 0 then .error (-EINVAL)
    else if flags &&& XFRM_STATE_ESN ≠ 0 then .ok .esn
    else .ok .bmp

/-- One packet through the legacy table: check, and advance when the check
returns 0. -/
def receiveLegacy (replayWindow : U8) (state : XfrmReplayState × XfrmStats) (seq : U32) :
    Bool × XfrmReplayState × XfrmStats :=
  let (code, stats) := xfrmReplayCheck replayWindow state.1 state.2 seq
  if code = 0 then (true, xfrmReplayAdvance replayWindow state.1 seq, stats)
  else (false, state.1, stats)

def receiveBmp (state : XfrmReplayStateEsn × XfrmStats) (seq : U32) :
    Except Fault (Bool × XfrmReplayStateEsn × XfrmStats) := do
  let (code, stats) ← xfrmReplayCheckBmp state.1 state.2 seq
  if code = 0 then do
    let esn ← xfrmReplayAdvanceBmp state.1 seq
    return (true, esn, stats)
  else return (false, state.1, stats)

/-- The 64-bit number of a packet, evaluated in the state at its arrival. -/
def esnNumber (esn : XfrmReplayStateEsn) (seq : U32) : Nat :=
  (xfrmReplaySeqhi XFRM_STATE_ESN esn seq).toNat * 2 ^ 32 + seq.toNat

/-- One packet through the extended table, with the packet's 64-bit number. -/
def receiveEsn (state : XfrmReplayStateEsn × XfrmStats) (seq : U32) :
    Except Fault ((Nat × Bool) × XfrmReplayStateEsn × XfrmStats) := do
  let number := esnNumber state.1 seq
  let (code, stats) ← xfrmReplayCheckEsn state.1 state.2 seq
  if code = 0 then do
    let esn ← xfrmReplayAdvanceEsn XFRM_STATE_ESN state.1 seq
    return ((number, true), esn, stats)
  else return ((number, false), state.1, stats)

end RouterKernel.Replay
