import RouterKernel.Foundation.Fueled
import RouterKernel.Foundation.Words

/-!
Contract: the fragmentation of packets over two bonded PTM links.

Owns:
- `XtmRtPtmBondInfo`, with the weights and credits of the links, and
  `bcmxtmrt_ptmbond_calculate_link_parameters`, which sets them;
- `getPtmFragmentLen`, the length of the next fragment;
- `constructPtmBondHdr`, with its loop over ports in its loop over fragments;
- the cases of the length of a fragment.

Does not own: what the headers amount to.  `int` values are words, read with sign
where the source does; their arithmetic wraps.
-/

namespace RouterKernel.Bonding

open Foundation

/-! ## Links -/

abbrev MAX_BOND_PORTS : Nat := 2

instance neZeroMaxBondPorts : NeZero MAX_BOND_PORTS := ⟨by decide⟩
abbrev MAX_WT_PORT_DIST : Nat := 2

def ETH_FCS_LEN : U32 := 4
def XTMRT_PTM_CRC_SIZE : U32 := 2
def XTMRT_PTM_BOND_FRAG_HDR_SIZE : U32 := 2
def XTMRT_PTM_BOND_FRAG_HDR_EOP : BitVec 1 := 1
def XTMRT_PTM_BOND_HDR_NON_EOP : BitVec 1 := 0
def XTMRT_PTM_BOND_MAX_FRAG_PER_PKT : Nat := 8
def XTMRT_PTM_BOND_TX_MAX_FRAGMENT_SIZE : U32 := 508
def XTMRT_PTM_BOND_TX_MIN_FRAGMENT_SIZE : U32 := 96
def XTMRT_PTM_BOND_TX_DEF_CREDIT : U32 :=
  XTMRT_PTM_BOND_TX_MAX_FRAGMENT_SIZE + XTMRT_PTM_BOND_FRAG_HDR_SIZE + XTMRT_PTM_CRC_SIZE

/-- `XtmRtPtmTxBondHeader`. -/
structure BondHeader where
  fragSize : BitVec 12
  pktEop : BitVec 1
  portSel : BitVec 1
deriving DecidableEq, Repr

/-- `XtmRtPtmBondInfo`. -/
structure BondInfo where
  portMask : U16
  totalWtPortDist : U16
  ulCurrWtPortDistRunIndex : U16
  u16ConfWtPortDist : Fin MAX_WT_PORT_DIST → U16
  ulLinkUsWt : Fin MAX_BOND_PORTS → U32
  ilLinkUsCredit : Fin MAX_BOND_PORTS → U32
  ulConfLinkUsWt : Fin MAX_BOND_PORTS → U32
  ilConfLinkUsCredit : Fin MAX_BOND_PORTS → U32

/-- The credit of the faster of two links in use. -/
def fasterCredit (maxWt minWt : U32) : U32 :=
  let quot := maxWt * XTMRT_PTM_BOND_TX_DEF_CREDIT / minWt
  let mod := maxWt * XTMRT_PTM_BOND_TX_DEF_CREDIT % minWt
  let mod := mod * 10 / minWt
  if (5 : U32).slt mod then quot + 1 else quot

/-- `ulConfLinkUsWt`, in bytes per second. -/
def confWtOf (rates : Fin MAX_BOND_PORTS → U32) (portMask : U32) (i : Fin MAX_BOND_PORTS) : U32 :=
  if rates i ≠ 0 ∧ (portMask >>> (i : Nat)) &&& 1 ≠ 0 then rates i / 8 else 0

/-- `totalWtPortDist`, `u16ConfWtPortDist` and `ilConfLinkUsCredit`, for the port with the
larger weight and the other one. -/
def distribute (dist : Fin MAX_WT_PORT_DIST → U16) (confWt : Fin MAX_BOND_PORTS → U32)
    (max min : Fin MAX_BOND_PORTS) :
    U16 × (Fin MAX_WT_PORT_DIST → U16) × (Fin MAX_BOND_PORTS → U32) :=
  if confWt max ≠ 0 then
    if confWt min ≠ 0 then
      (2, Function.update (Function.update dist min (BitVec.ofNat 16 min)) max
          (BitVec.ofNat 16 max),
        Function.update (fun _ => XTMRT_PTM_BOND_TX_DEF_CREDIT) max
          (fasterCredit (confWt max) (confWt min)))
    else
      (1, Function.update dist 0 (BitVec.ofNat 16 max),
        Function.update (fun _ => 0) max XTMRT_PTM_BOND_TX_DEF_CREDIT)
  else if confWt min ≠ 0 then
    (1, Function.update dist 0 (BitVec.ofNat 16 min),
      Function.update (fun _ => 0) min XTMRT_PTM_BOND_TX_DEF_CREDIT)
  else
    (0, Function.update dist 0 0xFF, fun _ => 0)

/-- `bcmxtmrt_ptmbond_calculate_link_parameters`. -/
def calculateLinkParameters (info : BondInfo) (rates : Fin MAX_BOND_PORTS → U32) (portMask : U32) :
    BondInfo :=
  let confWt := confWtOf rates portMask
  let (max, min) : Fin MAX_BOND_PORTS × Fin MAX_BOND_PORTS :=
    if confWt 1 ≤ confWt 0 then (0, 1) else (1, 0)
  let (total, dist, credit) := distribute info.u16ConfWtPortDist confWt max min
  { portMask := portMask.setWidth 16
    totalWtPortDist := total
    ulCurrWtPortDistRunIndex := 0
    u16ConfWtPortDist := dist
    ulLinkUsWt := confWt
    ilLinkUsCredit := credit
    ulConfLinkUsWt := confWt
    ilConfLinkUsCredit := credit }

/-! ## Fragments -/

/-- The credit that one fragment may use, and the rest of it. -/
def availCredit (credit : U32) : U32 × U32 :=
  if XTMRT_PTM_BOND_TX_MIN_FRAGMENT_SIZE.sle credit then
    if XTMRT_PTM_BOND_TX_MAX_FRAGMENT_SIZE.slt credit then
      (XTMRT_PTM_BOND_TX_MAX_FRAGMENT_SIZE, credit - XTMRT_PTM_BOND_TX_MAX_FRAGMENT_SIZE)
    else (credit, 0)
  else (XTMRT_PTM_BOND_TX_MIN_FRAGMENT_SIZE, credit - XTMRT_PTM_BOND_TX_MIN_FRAGMENT_SIZE)

/-- As much as the credit allows, unless not enough is left for another fragment. -/
def splitLen (origLen availCredit : U32) : U32 :=
  if origLen ≤ availCredit then origLen
  else
    let leftOver := origLen - availCredit
    if leftOver.slt XTMRT_PTM_BOND_TX_MIN_FRAGMENT_SIZE then
      let fragmentLen := availCredit - (XTMRT_PTM_BOND_TX_MIN_FRAGMENT_SIZE + leftOver)
      if fragmentLen.slt XTMRT_PTM_BOND_TX_MIN_FRAGMENT_SIZE then origLen else fragmentLen
    else availCredit

/-- `getPtmFragmentLen`: the length, and the credit that is left. -/
def getPtmFragmentLen (origLen credit : U32) : U32 × U32 :=
  let (availCredit, credit) := availCredit credit
  let fragmentLen := splitLen origLen availCredit
  let credit := credit + (availCredit - fragmentLen)
  -- all but the last fragment are a multiple of 4 bytes
  if fragmentLen ≠ origLen then (fragmentLen &&& ~~~3, credit + (fragmentLen &&& 3))
  else (fragmentLen, credit)

def BondInfo.setLink (info : BondInfo) (port : Fin MAX_BOND_PORTS) (wt credit : U32) : BondInfo :=
  { info with
    ulLinkUsWt := Function.update info.ulLinkUsWt port wt
    ilLinkUsCredit := Function.update info.ilLinkUsCredit port credit }

def BondInfo.service (info : BondInfo) (port : Fin MAX_BOND_PORTS) (len : U32) :
    BondInfo × Option (U32 × BondHeader) :=
  let (fragLen, credit) := getPtmFragmentLen len (info.ilLinkUsCredit port)
  let fragLenWithOvh := fragLen + (XTMRT_PTM_BOND_FRAG_HDR_SIZE + XTMRT_PTM_CRC_SIZE)
  let wt := info.ulLinkUsWt port
  if fragLenWithOvh ≤ wt then
    (info.setLink port (wt - fragLenWithOvh)
        (credit - (XTMRT_PTM_BOND_FRAG_HDR_SIZE + XTMRT_PTM_CRC_SIZE)),
      some (fragLen, ⟨fragLenWithOvh.setWidth 12, XTMRT_PTM_BOND_HDR_NON_EOP, BitVec.ofNat 1 port⟩))
  else (info.setLink port 0 (credit + (fragLenWithOvh + wt)), none)

def BondInfo.advance (info : BondInfo) : BondInfo :=
  { info with
    ulCurrWtPortDistRunIndex :=
      if info.totalWtPortDist.toNat ≤ info.ulCurrWtPortDistRunIndex.toNat + 1 then 0
      else info.ulCurrWtPortDistRunIndex + 1 }

/-- After a fragment the port stays the current one while it has credit. -/
def BondInfo.settle (info : BondInfo) (port : Fin MAX_BOND_PORTS) : BondInfo :=
  if (0 : U32).slt (info.ilLinkUsCredit port) then info
  else
    (info.setLink port (info.ulLinkUsWt port)
      (info.ilLinkUsCredit port + info.ilConfLinkUsCredit port)).advance

def BondInfo.reload (info : BondInfo) : BondInfo :=
  { info with
    ulLinkUsWt := info.ulConfLinkUsWt
    ilLinkUsCredit := info.ilConfLinkUsCredit }

/-- What comes of one fragment's search for a port: the fragment is sent, or the
function returns 0. -/
inductive Served where
  | sent (info : BondInfo) (fragLen : U32) (header : BondHeader)
  | gaveUp (info : BondInfo)

/-- No port was selected: reload the weights once they are used up, but not twice. -/
def retry (info : BondInfo) (reloadCount : Nat) : Outcome (BondInfo × Nat) Served :=
  if info.portMask = 0 then .halted (.gaveUp info)
  else if info.ulLinkUsWt 0 = 0 ∧ info.ulLinkUsWt 1 = 0 then
    if 2 ≤ reloadCount + 1 then .halted (.gaveUp info.reload)
    else .running (info.reload, reloadCount + 1)
  else .running (info, reloadCount)

/-- `pu16ConfWtPortDist[*pulCurrWtPortDistRunIndex]`, as a `UINT8`. -/
def BondInfo.portCount (info : BondInfo) : Except Fault U8 :=
  if bound : info.ulCurrWtPortDistRunIndex.toNat < MAX_WT_PORT_DIST then
    .ok ((info.u16ConfWtPortDist ⟨_, bound⟩).setWidth 8)
  else .error (.outOfBounds info.ulCurrWtPortDistRunIndex.toNat)

def BondInfo.enabled (info : BondInfo) (portCount : Nat) : Bool :=
  (info.portMask >>> portCount) &&& 1 != 0

def portTurn (len : U32) (state : BondInfo × Nat) :
    Except Fault (Outcome (BondInfo × Nat) Served) := do
  let (info, reloadCount) := state
  let portCount ← info.portCount
  if info.enabled portCount.toNat then
    if bound : portCount.toNat < MAX_BOND_PORTS then
      match info.service ⟨_, bound⟩ len with
      | (info, some (fragLen, header)) =>
        pure (.halted (.sent (info.settle ⟨_, bound⟩) fragLen header))
      | (info, none) => pure (retry info.advance reloadCount)
    else throw (.outOfBounds portCount.toNat)
  else pure (retry info.advance reloadCount)

def serve (fuel : Nat) (info : BondInfo) (len : U32) : Attempt Fault Served :=
  loop (fun _ state => liftM (portTurn len state)) fuel (info, 0)

/-- The variables of `constructPtmBondHdr`. -/
structure Fragmenting where
  info : BondInfo
  hdr : Nat → BondHeader
  fragNo : Nat
  len : U32

/-- The value that `constructPtmBondHdr` returns, and what it leaves. -/
structure BondResult where
  ret : Nat
  info : BondInfo
  hdr : Nat → BondHeader
  fragNo : Nat

/-- The fragment has its header, or the function returns 0. -/
def Fragmenting.next (state : Fragmenting) : Served → Outcome Fragmenting BondResult
  | .gaveUp info => .halted ⟨0, info, state.hdr, state.fragNo⟩
  | .sent info fragLen header =>
    .running ⟨info, Function.update state.hdr state.fragNo header, state.fragNo + 1,
      state.len - fragLen⟩

def fragmentTurn (fuel : Nat) (state : Fragmenting) :
    Attempt Fault (Outcome Fragmenting BondResult) :=
  if state.len = 0 then
    -- `pPtmHeader` is the last header, the first one if there is none
    let last := state.fragNo - 1
    let hdr := Function.update state.hdr last
      { state.hdr last with pktEop := XTMRT_PTM_BOND_FRAG_HDR_EOP }
    pure (.halted ⟨state.fragNo, state.info, hdr, state.fragNo⟩)
  else do
    let served ← serve fuel state.info state.len
    pure (state.next served)

def constructPtmBondHdr (fuel : Nat) (info : BondInfo) (hdr : Nat → BondHeader) (len : U32) :
    Attempt Fault BondResult :=
  loop fragmentTurn fuel ⟨info, hdr, 0, len + ETH_FCS_LEN⟩

/-- The links after a sequence of packets, each with the array its headers are put
in. -/
def sendPackets (fuel : Nat) (info : BondInfo) : List ((Nat → BondHeader) × U32) →
    Attempt Fault BondInfo
  | [] => pure info
  | (hdr, len) :: rest => do
    let result ← constructPtmBondHdr fuel info hdr len
    sendPackets fuel result.info rest

/-! ## The length of a fragment -/

theorem and_three_toNat (word : U32) : (word &&& 3).toNat = word.toNat % 4 :=
  Nat.and_two_pow_sub_one_eq_mod word.toNat 2

theorem and_not_three_add (word : U32) : (word &&& ~~~3) + (word &&& 3) = word := by
  rw [BitVec.add_eq_or_of_and_eq_zero]
  · rw [← BitVec.and_or_distrib_left, BitVec.or_comm, BitVec.or_not_self, BitVec.and_allOnes]
  · have apart : (word &&& ~~~3) &&& (word &&& 3) = (word &&& word) &&& (~~~3 &&& 3) := by
      ac_rfl
    rw [apart, show (~~~3 &&& 3 : U32) = 0 by decide]
    exact BitVec.and_zero

theorem and_not_three_toNat (word : U32) : (word &&& ~~~3).toNat = word.toNat - word.toNat % 4 := by
  have whole := congrArg BitVec.toNat (and_not_three_add word)
  have low := and_three_toNat word
  rw [BitVec.toNat_add, low] at whole
  omega

theorem getPtmFragmentLen_credit (len credit : U32) :
    (getPtmFragmentLen len credit).2 = credit - (getPtmFragmentLen len credit).1 := by
  have avail : (availCredit credit).2 = credit - (availCredit credit).1 := by
    unfold availCredit
    split_ifs
    · rfl
    · exact (BitVec.sub_self credit).symm
    · rfl
  unfold getPtmFragmentLen
  dsimp only
  rw [avail]
  generalize splitLen len (availCredit credit).1 = fragmentLen
  split_ifs
  · have whole := and_not_three_add fragmentLen
    bv_omega
  · bv_omega

def available (credit : Int) : Nat := (max 96 (min 508 credit)).toNat

theorem availCredit_toNat (credit : U32) :
    (availCredit credit).1.toNat = available credit.toInt := by
  unfold availCredit available
  have least : XTMRT_PTM_BOND_TX_MIN_FRAGMENT_SIZE.toInt = 96 := rfl
  have most : XTMRT_PTM_BOND_TX_MAX_FRAGMENT_SIZE.toInt = 508 := rfl
  split_ifs with above beyond
  · rw [BitVec.slt_iff_toInt_lt, most] at beyond
    change 508 = _
    omega
  · rw [BitVec.sle_iff_toInt_le, least] at above
    rw [BitVec.slt_iff_toInt_lt, most] at beyond
    have positive := BitVec.toInt_eq_toNat_cond credit
    dsimp only
    omega
  · rw [BitVec.sle_iff_toInt_le, least] at above
    change 96 = _
    omega

theorem available_bounds (credit : Int) : 96 ≤ available credit ∧ available credit ≤ 508 := by
  unfold available
  omega

/-- How a fragment is cut from so many bytes.  The last case is one of lengths that
wrap around as an `int`: such a fragment is longer than any weight allows, or leaves
a length of the same kind. -/
inductive Cut (len avail : Nat) : Nat → Prop
  | whole (fits : len ≤ avail) : Cut len avail len
  | joined (more : avail < len) (little : len < avail + 96)
      (short : avail < 192 + (len - avail)) : Cut len avail len
  | shared (more : avail < len) (little : len < avail + 96)
      (long : 192 + (len - avail) ≤ avail) :
      Cut len avail (2 * avail - 96 - len - (2 * avail - 96 - len) % 4)
  | full (much : avail + 96 ≤ len) (near : len < avail + 2 ^ 31) : Cut len avail (avail - avail % 4)
  | wrapped (frag : Nat) (far : avail + 2 ^ 31 ≤ len)
      (lost : 2 ^ 29 ≤ (frag + 4) % 2 ^ 32 ∨ 0 < frag ∧ frag + (2 ^ 32 - 2 ^ 30) ≤ len) :
      Cut len avail frag

theorem slt_least_iff (word : U32) : word.slt XTMRT_PTM_BOND_TX_MIN_FRAGMENT_SIZE = true ↔
      word.toNat < 96 ∨ 2 ^ 31 ≤ word.toNat := by
  have least : XTMRT_PTM_BOND_TX_MIN_FRAGMENT_SIZE.toInt = 96 := rfl
  have value := BitVec.toInt_eq_toNat_cond word
  have bound := word.isLt
  rw [BitVec.slt_iff_toInt_lt, least]
  omega

theorem getPtmFragmentLen_cut (len credit : U32) :
    Cut len.toNat (available credit.toInt) (getPtmFragmentLen len credit).1.toNat := by
  have bounds := available_bounds credit.toInt
  have lenBound := len.isLt
  rw [← availCredit_toNat] at bounds ⊢
  unfold getPtmFragmentLen
  dsimp only
  generalize (availCredit credit).1 = avail at bounds ⊢
  by_cases fits : len ≤ avail
  · have here : splitLen len avail = len := if_pos fits
    rw [here, if_neg (by simp)]
    exact Cut.whole fits
  · have more : avail.toNat < len.toNat := by
      rw [BitVec.le_def] at fits
      omega
    have leftOver : (len - avail).toNat = len.toNat - avail.toNat := by bv_omega
    by_cases little : (len - avail).slt XTMRT_PTM_BOND_TX_MIN_FRAGMENT_SIZE = true
    · have value : (avail - (XTMRT_PTM_BOND_TX_MIN_FRAGMENT_SIZE + (len - avail))).toNat =
          (2 ^ 32 + 2 * avail.toNat - 96 - len.toNat) % 2 ^ 32 := by
        have least : XTMRT_PTM_BOND_TX_MIN_FRAGMENT_SIZE.toNat = 96 := rfl
        rw [BitVec.toNat_sub, BitVec.toNat_add, leftOver, least]
        omega
      by_cases short : (avail - (XTMRT_PTM_BOND_TX_MIN_FRAGMENT_SIZE + (len - avail))).slt
          XTMRT_PTM_BOND_TX_MIN_FRAGMENT_SIZE = true
      · have here : splitLen len avail = len := by
          rw [splitLen, if_neg fits]
          dsimp only
          rw [if_pos little, if_pos short]
        rw [here, if_neg (by simp)]
        rw [slt_least_iff, leftOver] at little
        rw [slt_least_iff, value] at short
        rcases little with little | far
        · exact Cut.joined more (by omega) (by omega)
        · exact Cut.wrapped len.toNat (by omega) (Or.inl (by omega))
      · have here : splitLen len avail =
          avail - (XTMRT_PTM_BOND_TX_MIN_FRAGMENT_SIZE + (len - avail)) := by
          rw [splitLen, if_neg fits]
          dsimp only
          rw [if_pos little, if_neg short]
        rw [slt_least_iff, leftOver] at little
        rw [slt_least_iff, value] at short
        have different : splitLen len avail ≠ len := by
          intro same
          rw [here] at same
          rw [same] at value
          omega
        rw [if_pos different, here, and_not_three_toNat, value]
        rcases little with little | far
        · rw [show (2 ^ 32 + 2 * avail.toNat - 96 - len.toNat) % 2 ^ 32 =
            2 * avail.toNat - 96 - len.toNat by omega]
          exact Cut.shared more (by omega) (by omega)
        · exact Cut.wrapped _ (by omega) (by omega)
    · have here : splitLen len avail = avail := by
        rw [splitLen, if_neg fits]
        dsimp only
        rw [if_neg little]
      have different : splitLen len avail ≠ len := by
        intro same
        rw [here] at same
        rw [same] at more
        exact lt_irrefl _ more
      rw [if_pos different, here, and_not_three_toNat]
      rw [slt_least_iff, leftOver] at little
      exact Cut.full (by omega) (by omega)

end RouterKernel.Bonding
