import RouterKernel.Bonding.Fragment

/-!
Contract: the headers of a packet's fragments.

Owns:
- `Wired`, how the links are set up, kept by every function;
- `serve_returns`, the rule for the loop over ports: it ends, with a fragment on an
  enabled port or with no weight left;
- `WellFormed`, what the headers of a packet should amount to, and that they do for
  every packet after every sequence of packets.
-/

namespace RouterKernel.Bonding

open Foundation

/-! ## How the links are set up -/

/-- The ports of the distribution, according to its length. -/
inductive Wiring (info : BondInfo) : Prop
  | unused (total : info.totalWtPortDist = 0) (index : info.ulCurrWtPortDistRunIndex = 0)
      (dist : info.u16ConfWtPortDist 0 = 0xFF)
      (idle : ∀ port, info.ulConfLinkUsWt port = 0 ∧ info.ulLinkUsWt port = 0)
  | single (port : Fin MAX_BOND_PORTS) (total : info.totalWtPortDist = 1)
      (index : info.ulCurrWtPortDistRunIndex = 0)
      (dist : info.u16ConfWtPortDist 0 = BitVec.ofNat 16 port)
      (active : info.enabled port = true)
      (idle : ∀ other, other ≠ port → info.ulConfLinkUsWt other = 0 ∧ info.ulLinkUsWt other = 0)
  | both (total : info.totalWtPortDist = 2) (index : info.ulCurrWtPortDistRunIndex.toNat < 2)
      (dist : ∀ port, info.u16ConfWtPortDist port = BitVec.ofNat 16 port)
      (active : ∀ port : Fin MAX_BOND_PORTS, info.enabled port = true)

/-- Weights are bytes per second, an eighth of a word. -/
structure Wired (info : BondInfo) : Prop where
  wiring : Wiring info
  conf : ∀ port, (info.ulConfLinkUsWt port).toNat < 2 ^ 29
  wt : ∀ port, (info.ulLinkUsWt port).toNat < 2 ^ 29

structure At (info : BondInfo) (port : Fin MAX_BOND_PORTS) : Prop where
  count : info.portCount = .ok (BitVec.ofNat 8 port)
  active : info.enabled port = true

variable {info : BondInfo} {port : Fin MAX_BOND_PORTS} {portMask : U32} {state : Fragmenting}

theorem portCount_eq {slot : Fin MAX_WT_PORT_DIST}
    (index : info.ulCurrWtPortDistRunIndex.toNat = slot) :
    info.portCount = .ok ((info.u16ConfWtPortDist slot).setWidth 8) := by
  have bound : info.ulCurrWtPortDistRunIndex.toNat < MAX_WT_PORT_DIST := index ▸ slot.isLt
  rw [BondInfo.portCount, dif_pos bound]
  congr 3
  exact Fin.ext index

theorem setWidth_port (port : Fin MAX_BOND_PORTS) :
    (BitVec.ofNat 16 port).setWidth 8 = BitVec.ofNat 8 port := by
  fin_cases port
  all_goals rfl

theorem ofNat_port_inj {other : Fin MAX_BOND_PORTS}
    (same : BitVec.ofNat 8 port = BitVec.ofNat 8 other) : port = other := by
  revert port other
  decide

theorem ofNat_port_ne (port : Fin MAX_BOND_PORTS) : BitVec.ofNat 8 port ≠ 0xFF := by
  revert port
  decide

theorem portCount_of_index_zero (index : info.ulCurrWtPortDistRunIndex = 0) :
    info.portCount = .ok ((info.u16ConfWtPortDist 0).setWidth 8) :=
  portCount_eq (by rw [index]; rfl)

theorem At.dist_ne (running : At info port)
    (index : info.ulCurrWtPortDistRunIndex = 0) : info.u16ConfWtPortDist 0 ≠ 0xFF := by
  intro dist
  have count := running.count
  rw [portCount_of_index_zero index, dist] at count
  exact ofNat_port_ne port (Except.ok.inj count).symm

theorem At.eq_single {other : Fin MAX_BOND_PORTS} (running : At info port)
    (index : info.ulCurrWtPortDistRunIndex = 0)
    (dist : info.u16ConfWtPortDist 0 = BitVec.ofNat 16 other) : other = port := by
  have count := running.count
  rw [portCount_of_index_zero index, dist, setWidth_port] at count
  exact ofNat_port_inj (Except.ok.inj count)

theorem Wired.current (wired : Wired info) :
    (info.portCount = .ok 0xFF ∧ info.enabled 0xFF = false ∧
      (∀ port, info.ulLinkUsWt port = 0) ∧ info.advance = info) ∨ ∃ port, At info port := by
  cases wired.wiring with
  | unused total index dist idle =>
    left
    refine ⟨?_, ?_, fun port => (idle port).2, ?_⟩
    · rw [portCount_of_index_zero index, dist]
      rfl
    · have shifted : info.portMask >>> 0xFF = 0 := by
        apply BitVec.eq_of_toNat_eq
        rw [BitVec.toNat_ushiftRight, Nat.shiftRight_eq_div_pow]
        have bound := info.portMask.isLt
        exact Nat.div_eq_of_lt (lt_trans bound (by norm_num))
      rw [BondInfo.enabled, shifted]
      rfl
    · rw [BondInfo.advance, total, index]
      cases info
      simp_all
  | single port total index dist active idle =>
    right
    exact ⟨port, by rw [portCount_of_index_zero index, dist, setWidth_port], active⟩
  | both total index dist active =>
    right
    refine ⟨⟨info.ulCurrWtPortDistRunIndex.toNat, index⟩, ?_, active _⟩
    have count : info.portCount = _ := portCount_eq (Fin.val_mk index).symm
    rw [count, dist, setWidth_port]

theorem Wired.setLink (wired : Wired info) (running : At info port) {wt : U32}
    (less : wt.toNat ≤ (info.ulLinkUsWt port).toNat) (credit : U32) :
      Wired (info.setLink port wt credit) := by
  have kept : ∀ other, other ≠ port → (info.setLink port wt credit).ulLinkUsWt other =
      info.ulLinkUsWt other :=
    fun other different => Function.update_of_ne different ..
  have here : (info.setLink port wt credit).ulLinkUsWt port = wt := Function.update_self ..
  refine ⟨?_, wired.conf, fun other => ?_⟩
  · cases wired.wiring with
    | unused total index dist idle =>
      exact absurd dist (running.dist_ne index)
    | single other total index dist active idle =>
      obtain rfl := running.eq_single index dist
      refine .single other total index dist active fun third different => ?_
      rw [kept third different]
      exact idle third different
    | both total index dist active => exact .both total index dist active
  · by_cases same : other = port
    · subst same
      rw [here]
      exact lt_of_le_of_lt less (wired.wt other)
    · rw [kept other same]
      exact wired.wt other

theorem Wired.reload (wired : Wired info) : Wired info.reload := by
  refine ⟨?_, wired.conf, wired.conf⟩
  cases wired.wiring with
  | unused total index dist idle =>
    exact .unused total index dist fun port => ⟨(idle port).1, (idle port).1⟩
  | single port total index dist active idle =>
    exact .single port total index dist active fun other different =>
      ⟨(idle other different).1, (idle other different).1⟩
  | both total index dist active => exact .both total index dist active

theorem Wired.advance (wired : Wired info) : Wired info.advance := by
  refine ⟨?_, wired.conf, wired.wt⟩
  cases wired.wiring with
  | unused total index dist idle =>
    refine .unused total ?_ dist idle
    rw [BondInfo.advance, total, index]
    rfl
  | single port total index dist active idle =>
    refine .single port total ?_ dist active idle
    rw [BondInfo.advance, total, index]
    rfl
  | both total index dist active =>
    refine .both total ?_ dist active
    rw [BondInfo.advance, total]
    dsimp only
    split_ifs with last
    · decide
    · change ¬ 2 ≤ _ at last
      bv_omega

theorem Wired.settle (wired : Wired info) (running : At info port) : Wired (info.settle port) := by
  unfold BondInfo.settle
  split_ifs
  · exact wired
  · exact (wired.setLink running le_rfl _).advance

/-! ## One fragment -/

def sentHeader (port : Fin MAX_BOND_PORTS) (fragLen : U32) : BondHeader where
  fragSize := (fragLen + 4).setWidth 12
  pktEop := XTMRT_PTM_BOND_HDR_NON_EOP
  portSel := BitVec.ofNat 1 port

theorem service_eq (info : BondInfo) (port : Fin MAX_BOND_PORTS) (len : U32) :
    info.service port len =
      let fragLen := (getPtmFragmentLen len (info.ilLinkUsCredit port)).1
      if fragLen + 4 ≤ info.ulLinkUsWt port then
        (info.setLink port (info.ulLinkUsWt port - (fragLen + 4))
            (info.ilLinkUsCredit port - fragLen - 4),
          some (fragLen, sentHeader port fragLen))
      else
        (info.setLink port 0
          (info.ilLinkUsCredit port - fragLen + (fragLen + 4 + info.ulLinkUsWt port)), none) := by
  unfold BondInfo.service
  dsimp only
  rw [getPtmFragmentLen_credit]
  rfl

/-- A predicate on the links that waiting for a port keeps. -/
structure Patient (keeps : BondInfo → Prop) : Prop where
  wired : ∀ {info}, keeps info → Wired info
  waits : ∀ {info port credit}, keeps info → At info port →
    keeps (info.setLink port 0 credit).advance
  reloads : ∀ {info}, keeps info → keeps info.reload

def ServedWith (len : U32) (keeps : BondInfo → Prop) : Served → Prop
  | .sent after fragLen header =>
    ∃ info port, keeps info ∧ At info port ∧
        fragLen = (getPtmFragmentLen len (info.ilLinkUsCredit port)).1 ∧
      fragLen + 4 ≤ info.ulLinkUsWt port ∧ header = sentHeader port fragLen ∧
      after = (info.setLink port (info.ulLinkUsWt port - (fragLen + 4))
        (info.ilLinkUsCredit port - fragLen - 4)).settle port
  | .gaveUp after =>
    keeps after ∧ (after.portMask = 0 ∨ after.ilLinkUsCredit = after.ilConfLinkUsCredit)

def BondInfo.loaded (info : BondInfo) (port : Fin MAX_BOND_PORTS) : Nat :=
  if info.ulLinkUsWt port = 0 then 0 else 2

/-- How long the loop over ports may go on: each port is tried before a reload, and
there is one reload. -/
def waiting (state : BondInfo × Nat) : Nat :=
  let (info, reloadCount) := state
  6 * (2 - reloadCount) + (info.loaded 0 + info.loaded 1) + if ∃ port : Fin MAX_BOND_PORTS,
      info.ulCurrWtPortDistRunIndex.toNat = port ∧ info.ulLinkUsWt port = 0 then 1 else 0

theorem waiting_bounds (info : BondInfo) (reloadCount : Nat) :
    6 * (2 - reloadCount) ≤ waiting (info, reloadCount) ∧
      waiting (info, reloadCount) ≤ 6 * (2 - reloadCount) + 5 := by
  unfold waiting BondInfo.loaded
  dsimp only
  split_ifs
  all_goals omega

theorem At.index (running : At info port) (index : info.ulCurrWtPortDistRunIndex.toNat < 2)
    (dist : ∀ port, info.u16ConfWtPortDist port = BitVec.ofNat 16 port) :
    info.ulCurrWtPortDistRunIndex.toNat = port := by
  have count : info.portCount = _ := portCount_eq (Fin.val_mk index).symm
  rw [dist, setWidth_port] at count
  have same := ofNat_port_inj (Except.ok.inj (count.symm.trans running.count))
  rw [← same]

theorem waiting_lt (wired : Wired info) (running : At info port) (credit : U32) (reloadCount : Nat)
    (loaded : ¬ ((info.setLink port 0 credit).ulLinkUsWt 0 = 0 ∧
      (info.setLink port 0 credit).ulLinkUsWt 1 = 0)) :
    waiting ((info.setLink port 0 credit).advance, reloadCount) < waiting (info, reloadCount) := by
  have kept : ∀ other, other ≠ port → (info.setLink port 0 credit).ulLinkUsWt other =
      info.ulLinkUsWt other :=
    fun other different => Function.update_of_ne different ..
  have here : (info.setLink port 0 credit).ulLinkUsWt port = 0 := Function.update_self ..
  cases wired.wiring with
  | unused total index dist idle =>
    exact absurd dist (running.dist_ne index)
  | single other total index dist active idle =>
    obtain rfl := running.eq_single index dist
    have spent : ∀ third, (info.setLink other 0 credit).ulLinkUsWt third = 0 := by
      intro third
      by_cases same : third = other
      · rw [same, here]
      · rw [kept third same]
        exact (idle third same).2
    exact absurd ⟨spent 0, spent 1⟩ loaded
  | both total index dist active =>
    have place := running.index index dist
    have next : (info.setLink port 0 credit).advance.ulCurrWtPortDistRunIndex.toNat = 1 -
        (port : Nat) := by
      unfold BondInfo.advance BondInfo.setLink
      dsimp only
      rw [total, place, show (2 : U16).toNat = 2 from rfl]
      split_ifs with last
      · rw [show (0 : U16).toNat = 0 from rfl]
        omega
      · rw [BitVec.toNat_add, place, show (1 : U16).toNat = 1 from rfl]
        omega
    obtain ⟨other, different, value, all, sum⟩ : ∃ other : Fin MAX_BOND_PORTS,
        other ≠ port ∧ (other : Nat) = 1 - port ∧ (∀ third, third = port ∨ third = other) ∧
        ∀ info : BondInfo, info.loaded 0 + info.loaded 1 =
          info.loaded port + info.loaded other := by
      fin_cases port
      · exact ⟨1, by decide, rfl, by decide, fun _ => rfl⟩
      · exact ⟨0, by decide, rfl, by decide, fun _ => Nat.add_comm ..⟩
    have stays : info.ulLinkUsWt other ≠ 0 := by
      intro zero
      apply loaded
      have spent : ∀ third, third = port ∨ third = other →
          (info.setLink port 0 credit).ulLinkUsWt third = 0 := by
        rintro third (rfl | rfl)
        · exact here
        · rw [kept third different, zero]
      exact ⟨spent 0 (all 0), spent 1 (all 1)⟩
    have moves : ¬ ∃ third : Fin MAX_BOND_PORTS,
        (info.setLink port 0 credit).advance.ulCurrWtPortDistRunIndex.toNat = third ∧
          (info.setLink port 0 credit).advance.ulLinkUsWt third = 0 := by
      rintro ⟨third, same, zero⟩
      rw [next, ← value] at same
      rw [← Fin.ext same] at zero
      exact stays ((kept other different).symm.trans zero)
    unfold waiting
    dsimp only
    rw [if_neg moves, sum, sum]
    have spent : (info.setLink port 0 credit).advance.loaded port = 0 := if_pos here
    have same : (info.setLink port 0 credit).advance.loaded other = 2 :=
      if_neg (fun zero => stays ((kept other different).symm.trans zero))
    have before : info.loaded other = 2 := if_neg stays
    rw [spent, same, before]
    by_cases zero : info.ulLinkUsWt port = 0
    · rw [if_pos ⟨port, place, zero⟩]
      omega
    · have more : info.loaded port = 2 := if_neg zero
      rw [more]
      omega

section Serve

variable {keeps : BondInfo → Prop} {len : U32}

theorem retry_turned (patient : Patient keeps) (kept : keeps info) {reloadCount before : Nat}
    (once : reloadCount < 2) (least : 6 * (2 - reloadCount) ≤ before)
    (less : ¬ (info.ulLinkUsWt 0 = 0 ∧ info.ulLinkUsWt 1 = 0) → waiting (info, reloadCount) <
      before) :
    Turned (fun state => keeps state.1 ∧ state.2 < 2) waiting (ServedWith len keeps) before
      (retry info reloadCount) := by
  unfold retry
  split_ifs with masked spent again
  · exact ⟨kept, Or.inl masked⟩
  · exact ⟨patient.reloads kept, Or.inr rfl⟩
  · have bounds := waiting_bounds info.reload (reloadCount + 1)
    exact ⟨⟨patient.reloads kept, by omega⟩, by omega⟩
  · exact ⟨⟨kept, once⟩, less spent⟩

theorem portTurn_turned (patient : Patient keeps) (kept : keeps info) {reloadCount : Nat}
    (once : reloadCount < 2) :
    ∃ outcome, portTurn len (info, reloadCount) = .ok outcome ∧
      Turned (fun state => keeps state.1 ∧ state.2 < 2) waiting (ServedWith len keeps)
        (waiting (info, reloadCount)) outcome := by
  have wired := patient.wired kept
  have least := (waiting_bounds info reloadCount).1
  rcases wired.current with ⟨count, disabled, idle, same⟩ | ⟨port, running⟩
  · refine ⟨retry info reloadCount, ?_, retry_turned patient kept once least ?_⟩
    · unfold portTurn
      dsimp only
      rw [count]
      change (if info.enabled 255 = true then _ else _) = _
      rw [disabled, same]
      rfl
    · exact fun loaded => absurd ⟨idle 0, idle 1⟩ loaded
  · have value : (BitVec.ofNat 8 (port : Nat)).toNat = port := by
      have bound : (port : Nat) < 2 := port.isLt
      rw [BitVec.toNat_ofNat]
      omega
    have bound : (BitVec.ofNat 8 (port : Nat)).toNat < MAX_BOND_PORTS := by
      rw [value]
      exact port.isLt
    have same : (⟨_, bound⟩ : Fin MAX_BOND_PORTS) = port := Fin.ext value
    have turn {after : BondInfo} {answer : Option (U32 × BondHeader)}
        (served : info.service port len = (after, answer)) :
        portTurn len (info, reloadCount) = .ok
            (answer.elim (retry after.advance reloadCount) fun sent =>
            .halted (.sent (after.settle port) sent.1 sent.2)) := by
      unfold portTurn
      dsimp only
      rw [running.count]
      change (if info.enabled (BitVec.ofNat 8 (port : Nat)).toNat = true then _ else _) = _
      rw [if_pos (by rw [value]; exact running.active), dif_pos bound, same, served]
      cases answer with
      | none => rfl
      | some sent => rfl
    have served := service_eq info port len
    dsimp only at served
    by_cases fits : (getPtmFragmentLen len (info.ilLinkUsCredit port)).1 + 4 ≤ info.ulLinkUsWt port
    · rw [if_pos fits] at served
      exact ⟨_, turn served, info, port, kept, running, rfl, fits, rfl, rfl⟩
    · rw [if_neg fits] at served
      refine ⟨_, turn served, retry_turned patient (patient.waits kept running) once least ?_⟩
      exact waiting_lt wired running _ reloadCount

theorem serve_returns (patient : Patient keeps) (kept : keeps info) :
    Returns (fun fuel => serve fuel info len) (ServedWith len keeps) := by
  refine Returns.loop (fun state : BondInfo × Nat => keeps state.1 ∧ state.2 < 2) waiting ?_
    ⟨kept, Nat.zero_lt_two⟩
  rintro ⟨info, reloadCount⟩ ⟨kept, once⟩
  obtain ⟨outcome, computed, turned⟩ := portTurn_turned patient kept once
  exact Returns.lift computed turned

end Serve

/-! ## Whole packets -/

/-- `FragSize - 4`. -/
def BondHeader.payload (header : BondHeader) : Nat := header.fragSize.toNat - 4

/-- What the headers of a packet should amount to. -/
structure WellFormed (hdr : Nat → BondHeader) (count total : Nat) (portMask : U32) : Prop where
  sum : ∑ index ∈ Finset.range count, (hdr index).payload = total
  small : ∀ index < count, (hdr index).payload ≤ 508
  aligned : ∀ index, index + 1 < count → 4 ∣ (hdr index).payload
  large : 64 ≤ total → ∀ index < count, 64 ≤ (hdr index).payload
  ports : ∀ index < count, portMask.getLsbD (hdr index).portSel.toNat = true
  eop : ∀ index < count, (hdr index).pktEop = XTMRT_PTM_BOND_FRAG_HDR_EOP ↔ index + 1 = count

/-- A part of the packet has its headers. -/
structure Fragmented (portMask : U32) (total : Nat) (state : Fragmenting) : Prop where
  sum : ∑ index ∈ Finset.range state.fragNo, (state.hdr index).payload + state.len.toNat = total
  small : ∀ index < state.fragNo, (state.hdr index).payload ≤ 508
  aligned : ∀ index < state.fragNo, index + 1 < state.fragNo ∨ state.len ≠ 0 →
    4 ∣ (state.hdr index).payload
  large : 64 ≤ total → ∀ index < state.fragNo, 64 ≤ (state.hdr index).payload
  rest : 64 ≤ total → state.len ≠ 0 → 64 ≤ state.len.toNat
  ports : ∀ index < state.fragNo, portMask.getLsbD (state.hdr index).portSel.toNat = true
  eop : ∀ index < state.fragNo, (state.hdr index).pktEop = XTMRT_PTM_BOND_HDR_NON_EOP

structure Linked (portMask : U32) (info : BondInfo) : Prop where
  wired : Wired info
  mask : info.portMask = portMask.setWidth 16

theorem linked_patient (portMask : U32) : Patient (Linked portMask) where
  wired linked := linked.wired
  waits linked running := ⟨(linked.wired.setLink running (Nat.zero_le _) _).advance, linked.mask⟩
  reloads linked := ⟨linked.wired.reload, linked.mask⟩

theorem settle_portMask (info : BondInfo) (port : Fin MAX_BOND_PORTS) :
    (info.settle port).portMask = info.portMask := by
  unfold BondInfo.settle
  split_ifs
  · rfl
  · rfl

theorem setLink_at (running : At info port) (wt credit : U32) :
    At (info.setLink port wt credit) port :=
  ⟨running.count, running.active⟩

theorem shift_and_one_ne_zero {w : Nat} (word : BitVec (w + 1)) (n : Nat) :
    (word >>> n) &&& 1#(w + 1) ≠ 0#(w + 1) ↔ word.getLsbD n = true := by
  rw [BitVec.and_one_eq_setWidth_ofBool_getLsbD, BitVec.getLsbD_ushiftRight, Nat.add_zero n]
  cases word.getLsbD n
  · simp
  · simp

theorem enabled_eq (info : BondInfo) (port : Nat) :
    info.enabled port = info.portMask.getLsbD port := by
  rw [Bool.eq_iff_iff, BondInfo.enabled, bne_iff_ne]
  exact shift_and_one_ne_zero info.portMask port

theorem Linked.sent (linked : Linked portMask info) (running : At info port) {need : U32}
    (fits : need ≤ info.ulLinkUsWt port) (credit : U32) :
    Linked portMask ((info.setLink port (info.ulLinkUsWt port - need) credit).settle port) := by
  have less : (info.ulLinkUsWt port - need).toNat ≤ (info.ulLinkUsWt port).toNat := by
    bv_omega
  refine ⟨(linked.wired.setLink running less credit).settle (setLink_at running _ _), ?_⟩
  rw [settle_portMask]
  exact linked.mask

theorem Cut.proper {len avail frag : Nat} (cut : Cut len avail frag) (least : 96 ≤ avail)
    (most : avail ≤ 508) (near : len < avail + 2 ^ 31) :
    frag = len ∧ len ≤ 508 ∨ 96 ≤ frag ∧ frag ≤ 508 ∧ 4 ∣ frag ∧ frag + 96 ≤ len := by
  cases cut with
  | whole fits => exact Or.inl ⟨rfl, by omega⟩
  | joined more little short => exact Or.inl ⟨rfl, by omega⟩
  | shared more little long | full much near =>
    exact Or.inr ⟨by omega, by omega, by omega, by omega⟩
  | wrapped _ far _ => omega

theorem Cut.far {len avail frag : Nat} (cut : Cut len avail frag)
    (far : avail + 2 ^ 31 ≤ len) (fits : (frag + 4) % 2 ^ 32 < 2 ^ 29) :
    0 < frag ∧ frag + (2 ^ 32 - 2 ^ 30) ≤ len := by
  cases cut with
  | whole fits => omega
  | joined more little short => omega
  | shared more little long => omega
  | full much near => omega
  | wrapped _ _ lost =>
    rcases lost with large | left
    · omega
    · exact left

theorem sentHeader_payload (port : Fin MAX_BOND_PORTS) {fragLen : U32}
    (small : fragLen.toNat ≤ 508) : (sentHeader port fragLen).payload = fragLen.toNat := by
  unfold BondHeader.payload sentHeader
  rw [BitVec.toNat_setWidth, BitVec.toNat_add, show (4 : U32).toNat = 4 from rfl]
  omega

theorem Fragmented.extend {total : Nat} (before : Fragmented portMask total state) {fragLen : U32}
    (more : state.len ≠ 0)
    (proper : fragLen.toNat = state.len.toNat ∧ state.len.toNat ≤ 508 ∨
      96 ≤ fragLen.toNat ∧ fragLen.toNat ≤ 508 ∧ 4 ∣ fragLen.toNat ∧
        fragLen.toNat + 96 ≤ state.len.toNat) (active : portMask.getLsbD port = true) (info :
          BondInfo) :
    Fragmented portMask total ⟨info,
        Function.update state.hdr state.fragNo (sentHeader port fragLen), state.fragNo + 1,
      state.len - fragLen⟩ := by
  have small : fragLen.toNat ≤ 508 := by omega
  have left : (state.len - fragLen).toNat = state.len.toNat - fragLen.toNat := by bv_omega
  have some : state.len.toNat ≠ 0 := by
    intro zero
    exact more (BitVec.eq_of_toNat_eq zero)
  have new : Function.update state.hdr state.fragNo (sentHeader port fragLen) state.fragNo =
      sentHeader port fragLen := Function.update_self ..
  have old : ∀ index < state.fragNo,
      Function.update state.hdr state.fragNo (sentHeader port fragLen) index = state.hdr index :=
    fun index earlier => Function.update_of_ne (Nat.ne_of_lt earlier) ..
  -- what holds of the earlier headers and of the new one holds of all
  have all : ∀ holds : Nat → BondHeader → Prop,
      (∀ index < state.fragNo, holds index (state.hdr index)) →
      holds state.fragNo (sentHeader port fragLen) →
      ∀ index < state.fragNo + 1, holds index
        (Function.update state.hdr state.fragNo (sentHeader port fragLen) index) := by
    intro holds earlier last index bound
    rcases Nat.lt_succ_iff_lt_or_eq.mp bound with before | rfl
    · rw [old index before]
      exact earlier index before
    · rw [new]
      exact last
  have payload := sentHeader_payload port small
  constructor
  · dsimp only
    rw [Finset.sum_range_succ, new, payload, left]
    have sums : ∀ index ∈ Finset.range state.fragNo,
        (Function.update state.hdr state.fragNo (sentHeader port fragLen) index).payload =
          (state.hdr index).payload := by
      intro index member
      rw [old index (Finset.mem_range.mp member)]
    rw [Finset.sum_congr rfl sums]
    have sum := before.sum
    omega
  · refine all (fun _ header => header.payload ≤ 508) before.small ?_
    rw [payload]
    exact small
  · refine all (fun index header => index + 1 < state.fragNo + 1 ∨ state.len - fragLen ≠ 0 →
      4 ∣ header.payload) ?_ ?_
    · exact fun index earlier _ => before.aligned index earlier (Or.inr more)
    · rintro (last | rest)
      · omega
      · rw [payload]
        rcases proper with ⟨same, _⟩ | ⟨_, _, aligned, _⟩
        · refine absurd (BitVec.eq_of_toNat_eq ?_) rest
          rw [left, same, Nat.sub_self]
          rfl
        · exact aligned
  · intro large
    refine all (fun _ header => 64 ≤ header.payload) (before.large large) ?_
    have rest := before.rest large more
    rw [payload]
    omega
  · intro large rest
    have positive : (state.len - fragLen).toNat ≠ 0 := by
      intro zero
      exact rest (BitVec.eq_of_toNat_eq zero)
    dsimp only
    omega
  · refine all (fun _ header => portMask.getLsbD header.portSel.toNat = true) before.ports ?_
    have value : (BitVec.ofNat 1 (port : Nat)).toNat = port := by
      have bound : (port : Nat) < 2 := port.isLt
      rw [BitVec.toNat_ofNat]
      omega
    dsimp only [sentHeader]
    rw [value]
    exact active
  · exact all (fun _ header => header.pktEop = XTMRT_PTM_BOND_HDR_NON_EOP) before.eop rfl

theorem Fragmented.finish {total : Nat} (before : Fragmented portMask total state)
    (done : state.len = 0)
    {count : Nat} (some : state.fragNo = count + 1) :
    WellFormed
      (Function.update state.hdr count
        { state.hdr count with pktEop := XTMRT_PTM_BOND_FRAG_HDR_EOP })
      state.fragNo total portMask := by
  have marked : ∀ index, ∃ pktEop, Function.update state.hdr count
      { state.hdr count with pktEop := XTMRT_PTM_BOND_FRAG_HDR_EOP } index =
        { state.hdr index with pktEop } := by
    intro index
    by_cases last : index = count
    · exact ⟨_, by rw [last, Function.update_self]⟩
    · exact ⟨(state.hdr index).pktEop, by rw [Function.update_of_ne last]⟩
  have payload : ∀ index, (Function.update state.hdr count
      { state.hdr count with pktEop := XTMRT_PTM_BOND_FRAG_HDR_EOP } index).payload =
        (state.hdr index).payload := by
    intro index
    obtain ⟨pktEop, same⟩ := marked index
    rw [same]
    rfl
  constructor
  · rw [Finset.sum_congr rfl fun index _ => payload index]
    have sum := before.sum
    rw [done] at sum
    exact sum
  · intro index bound
    rw [payload]
    exact before.small index bound
  · intro index bound
    rw [payload]
    exact before.aligned index (Nat.lt_of_succ_lt bound) (Or.inl bound)
  · intro large index bound
    rw [payload]
    exact before.large large index bound
  · intro index bound
    obtain ⟨pktEop, same⟩ := marked index
    rw [same]
    exact before.ports index bound
  · intro index bound
    by_cases last : index = count
    · rw [last, Function.update_self]
      exact iff_of_true rfl some.symm
    · rw [Function.update_of_ne last, before.eop index bound]
      exact iff_of_false (by decide) (by omega)

/-- A length that wraps around, from which nothing comes any more. -/
def Doomed (len : U32) : Prop := 2 ^ 32 - 2 ^ 30 ≤ len.toNat

theorem not_doomed_zero : ¬ Doomed 0 := by
  unfold Doomed
  decide

theorem sent_cases {len credit wt : U32} (more : len ≠ 0) (bound : wt.toNat < 2 ^ 29)
    (fits : (getPtmFragmentLen len credit).1 + 4 ≤ wt) :
    let fragLen := (getPtmFragmentLen len credit).1
    (len - fragLen).toNat < len.toNat ∧
    (Doomed (len - fragLen) ∧ available credit.toInt + 2 ^ 31 ≤ len.toNat ∨
        len.toNat < available credit.toInt + 2 ^ 31) := by
  intro fragLen
  have cut : Cut len.toNat (available credit.toInt) fragLen.toNat :=
    getPtmFragmentLen_cut len credit
  have avail := available_bounds credit.toInt
  have some : len.toNat ≠ 0 := fun zero => more (BitVec.eq_of_toNat_eq zero)
  have sub : fragLen.toNat ≤ len.toNat → (len - fragLen).toNat = len.toNat - fragLen.toNat := by
    intro less
    bv_omega
  by_cases near : len.toNat < available credit.toInt + 2 ^ 31
  · have proper := cut.proper avail.1 avail.2 near
    have left := sub (by omega)
    exact ⟨by omega, Or.inr near⟩
  · have need : (fragLen.toNat + 4) % 2 ^ 32 < 2 ^ 29 := by
      refine lt_of_le_of_lt ?_ bound
      have value := BitVec.le_def.mp fits
      rwa [BitVec.toNat_add] at value
    obtain ⟨positive, rest⟩ := cut.far (by omega) need
    have left := sub (by omega)
    refine ⟨by omega, Or.inl ⟨?_, by omega⟩⟩
    unfold Doomed
    omega

def Fragmenting.send (state : Fragmenting) (info : BondInfo) (port : Fin MAX_BOND_PORTS)
    (fragLen : U32) : Fragmenting where
  info := (info.setLink port (info.ulLinkUsWt port - (fragLen + 4))
    (info.ilLinkUsCredit port - fragLen - 4)).settle port
  hdr := Function.update state.hdr state.fragNo (sentHeader port fragLen)
  fragNo := state.fragNo + 1
  len := state.len - fragLen

def Fragmenting.finish (state : Fragmenting) : BondResult where
  ret := state.fragNo
  info := state.info
  hdr := Function.update state.hdr (state.fragNo - 1)
    { state.hdr (state.fragNo - 1) with pktEop := XTMRT_PTM_BOND_FRAG_HDR_EOP }
  fragNo := state.fragNo

/-- The rule for the loop over fragments, with a predicate on the links that holds while
a fragment waits for its port. -/
theorem fragments_return (invariant : Fragmenting → Prop) (keeps : Fragmenting → BondInfo → Prop)
    {post : BondResult → Prop}
    (patient : ∀ state, invariant state → Patient (keeps state) ∧ keeps state state.info)
    (sends : ∀ state info port, invariant state → state.len ≠ 0 → keeps state info → At info port →
      (getPtmFragmentLen state.len (info.ilLinkUsCredit port)).1 + 4 ≤ info.ulLinkUsWt port →
      invariant (state.send info port
        (getPtmFragmentLen state.len (info.ilLinkUsCredit port)).1))
    (ends : ∀ state, invariant state → state.len = 0 → post state.finish)
    (stops : ∀ state info, invariant state → keeps state info →
      info.portMask = 0 ∨ info.ilLinkUsCredit = info.ilConfLinkUsCredit →
      post ⟨0, info, state.hdr, state.fragNo⟩) (start : invariant state) :
    Returns (fun fuel => loop fragmentTurn fuel state) post := by
  refine Returns.loop invariant (fun state => state.len.toNat) ?_ start
  intro state kept
  by_cases done : state.len = 0
  · have turn : (fun fuel => fragmentTurn fuel state) = fun _ => pure (.halted state.finish) := by
      funext fuel
      rw [fragmentTurn, if_pos done]
      rfl
    rw [turn]
    exact Returns.pure (ends state kept done)
  · have turn : (fun fuel => fragmentTurn fuel state) = fun fuel =>
        serve fuel state.info state.len >>= fun served => pure (state.next served) := by
      funext fuel
      rw [fragmentTurn, if_neg done]
    rw [turn]
    refine Returns.bind (serve_returns (patient state kept).1 (patient state kept).2) ?_
    rintro (⟨after, fragLen, header⟩ | ⟨after⟩) served
    · obtain ⟨info, port, waited, running, rfl, fits, rfl, rfl⟩ := served
      refine Returns.pure ⟨sends state info port kept done waited running fits, ?_⟩
      exact (sent_cases done (((patient state kept).1.wired waited).wt port) fits).1
    · exact Returns.pure (stops state after kept served.1 served.2)

theorem constructPtmBondHdr_returns (linked : Linked portMask info) (hdr : Nat → BondHeader)
    (len : U32) :
    Returns (fun fuel => constructPtmBondHdr fuel info hdr len) fun result =>
      Linked portMask result.info ∧ (0 < result.ret →
          WellFormed result.hdr result.ret (len + ETH_FCS_LEN).toNat portMask) := by
  refine fragments_return
    (fun state => Linked portMask state.info ∧
      (Doomed state.len ∨ Fragmented portMask (len + ETH_FCS_LEN).toNat state))
    (fun _ => Linked portMask) ?_ ?_ ?_ ?_ ?_
  · exact fun state kept => ⟨linked_patient portMask, kept.1⟩
  · intro state info port kept more linked running fits
    have cases := sent_cases more (linked.wired.wt port) fits
    refine ⟨linked.sent running fits _, ?_⟩
    rcases cases.2 with ⟨doomed, _⟩ | near
    · exact Or.inl doomed
    · right
      have avail := available_bounds (info.ilLinkUsCredit port).toInt
      have fragmented := kept.2.resolve_left (by unfold Doomed; omega)
      have proper := (getPtmFragmentLen_cut state.len (info.ilLinkUsCredit port)).proper
        avail.1 avail.2 near
      refine fragmented.extend more proper ?_ _
      have active := running.active
      rw [enabled_eq, linked.mask, BitVec.getLsbD_setWidth, Bool.and_eq_true] at active
      exact active.2
  · intro state kept done
    refine ⟨kept.1, fun positive => ?_⟩
    have fragmented := kept.2.resolve_left (done ▸ not_doomed_zero)
    exact fragmented.finish done (Nat.succ_pred_eq_of_pos positive).symm
  · intro state info kept linked _
    exact ⟨linked, fun positive => absurd positive (lt_irrefl 0)⟩
  · refine ⟨linked, Or.inr ?_⟩
    have none : ∀ {holds : Nat → Prop}, ∀ index < 0, holds index :=
      fun index bound => absurd bound (Nat.not_lt_zero index)
    exact ⟨Nat.zero_add _, none, none, fun _ => none, fun large _ => large, none, none⟩

/-! ## Setting up the links -/

theorem confWtOf_lt (rates : Fin MAX_BOND_PORTS → U32) (portMask : U32)
    (port : Fin MAX_BOND_PORTS) : (confWtOf rates portMask port).toNat < 2 ^ 29 := by
  have bound := (rates port).isLt
  unfold confWtOf
  split_ifs
  · rw [BitVec.toNat_udiv, show (8 : U32).toNat = 8 from rfl]
    omega
  · decide

theorem getLsbD_of_confWtOf {rates : Fin MAX_BOND_PORTS → U32}
    (used : confWtOf rates portMask port ≠ 0) :
    portMask.getLsbD port = true := by
  unfold confWtOf at used
  split_ifs at used with active
  · exact (shift_and_one_ne_zero portMask port).mp active.2
  · exact absurd rfl used

/-- The links as they are set, for either order of the ports. -/
def linksOf (dist : Fin MAX_WT_PORT_DIST → U16) (confWt : Fin MAX_BOND_PORTS → U32)
    (portMask : U32) (max min : Fin MAX_BOND_PORTS) : BondInfo :=
  let (total, dist, credit) := distribute dist confWt max min
  ⟨portMask.setWidth 16, total, 0, dist, confWt, credit, confWt, credit⟩

theorem linksOf_wiring {dist : Fin MAX_WT_PORT_DIST → U16} {confWt : Fin MAX_BOND_PORTS → U32}
    (used : ∀ port, confWt port ≠ 0 → portMask.getLsbD port = true) {max min : Fin MAX_BOND_PORTS}
    (all : ∀ port, port = max ∨ port = min) :
    Wiring (linksOf dist confWt portMask max min) := by
  have active : ∀ (port : Fin MAX_BOND_PORTS) (info : BondInfo),
      info.portMask = portMask.setWidth 16 → confWt port ≠ 0 → info.enabled port = true := by
    intro port info mask nonzero
    have bound : (port : Nat) < 2 := port.isLt
    rw [enabled_eq, mask, BitVec.getLsbD_setWidth, used port nonzero, Bool.and_true]
    exact decide_eq_true (by omega)
  have first : ∀ port : U16, Function.update dist 0 port 0 = port :=
    fun port => Function.update_self 0 port dist
  unfold linksOf distribute
  split_ifs with maxUsed minUsed other
  · refine .both rfl Nat.zero_lt_two (fun port => ?_) fun port => ?_
    · dsimp only
      by_cases larger : port = max
      · rw [larger, Function.update_self]
      · rw [Function.update_of_ne larger, (all port).resolve_left larger, Function.update_self]
    · rcases all port with rfl | rfl
      · exact active _ _ rfl maxUsed
      · exact active _ _ rfl minUsed
  · rw [not_not] at minUsed
    refine .single max rfl rfl (first _) (active _ _ rfl maxUsed) ?_
    intro other different
    rw [(all other).resolve_left different]
    exact ⟨minUsed, minUsed⟩
  · rw [not_not] at maxUsed
    refine .single min rfl rfl (first _) (active _ _ rfl other) ?_
    intro other different
    rw [(all other).resolve_right different]
    exact ⟨maxUsed, maxUsed⟩
  · rw [not_not] at maxUsed other
    refine .unused rfl rfl (first _) fun port => ?_
    rcases all port with rfl | rfl
    · exact ⟨maxUsed, maxUsed⟩
    · exact ⟨other, other⟩

theorem calculateLinkParameters_eq (info : BondInfo) (rates : Fin MAX_BOND_PORTS → U32)
    (portMask : U32) : ∃ max min : Fin MAX_BOND_PORTS, (∀ port, port = max ∨ port = min) ∧
      confWtOf rates portMask min ≤ confWtOf rates portMask max ∧
      calculateLinkParameters info rates portMask =
        linksOf info.u16ConfWtPortDist (confWtOf rates portMask) portMask max min := by
  by_cases order : confWtOf rates portMask 1 ≤ confWtOf rates portMask 0
  · refine ⟨0, 1, by decide, order, ?_⟩
    rw [calculateLinkParameters, if_pos order]
    rfl
  · refine ⟨1, 0, by decide, BitVec.le_of_lt (BitVec.not_le.mp order), ?_⟩
    rw [calculateLinkParameters, if_neg order]
    rfl

theorem calculateLinkParameters_linked (info : BondInfo) (rates : Fin MAX_BOND_PORTS → U32)
    (portMask : U32) : Linked portMask (calculateLinkParameters info rates portMask) := by
  obtain ⟨max, min, all, _, same⟩ := calculateLinkParameters_eq info rates portMask
  rw [same]
  have used : ∀ port, confWtOf rates portMask port ≠ 0 → portMask.getLsbD port = true :=
    fun port => getLsbD_of_confWtOf
  exact ⟨⟨linksOf_wiring used all, confWtOf_lt rates portMask, confWtOf_lt rates portMask⟩, rfl⟩

theorem sendPackets_linked (linked : Linked portMask info)
    (packets : List ((Nat → BondHeader) × U32)) :
    Returns (fun fuel => sendPackets fuel info packets) (Linked portMask) := by
  induction packets generalizing info with
  | nil => exact Returns.pure linked
  | cons packet rest ih =>
    exact Returns.bind (constructPtmBondHdr_returns linked packet.1 packet.2)
      fun result kept => ih kept.1

/-- After any setting of the links and any sequence of packets: `constructPtmBondHdr`
returns, and if it returns a number of headers, these are well formed, for every length
that the check sequence does not wrap around. -/
theorem constructPtmBondHdr_wellFormed (before : BondInfo) (rates : Fin MAX_BOND_PORTS → U32)
    (portMask : U32) (history : List ((Nat → BondHeader) × U32)) (hdr : Nat → BondHeader)
    (len : U32) (fits : len.toNat + 4 < 2 ^ 32) :
    Returns
      (fun fuel => do
        let info ← sendPackets fuel (calculateLinkParameters before rates portMask) history
        constructPtmBondHdr fuel info hdr len)
      fun result => 0 < result.ret → WellFormed result.hdr result.ret (len.toNat + 4) portMask := by
  have total : (len + ETH_FCS_LEN).toNat = len.toNat + 4 := by
    rw [BitVec.toNat_add, show ETH_FCS_LEN.toNat = 4 from rfl]
    omega
  refine Returns.bind
    (sendPackets_linked (calculateLinkParameters_linked before rates portMask) history) ?_
  intro info linked
  rw [← total]
  exact (constructPtmBondHdr_returns linked hdr len).mono fun result returned => returned.2

def blankHeader : BondHeader := ⟨0, 0, 0⟩

def blankInfo : BondInfo where
  portMask := 0
  totalWtPortDist := 0
  ulCurrWtPortDistRunIndex := 0
  u16ConfWtPortDist := fun _ => 0
  ulLinkUsWt := fun _ => 0
  ilLinkUsCredit := fun _ => 0
  ulConfLinkUsWt := fun _ => 0
  ilConfLinkUsCredit := fun _ => 0

/-- A frame of 1514 bytes over two links of 8 Mbit/s, after one of 64 bytes. -/
theorem constructPtmBondHdr_wellFormed_frame : (1514 : U32).toNat + 4 < 2 ^ 32 ∧
    Returns (fun fuel => do
          let info ← sendPackets fuel (calculateLinkParameters blankInfo (fun _ => 8000000) 3)
            [(fun _ => blankHeader, 64)]
          constructPtmBondHdr fuel info (fun _ => blankHeader) 1514)
        fun result => 0 < result.ret →
          WellFormed result.hdr result.ret ((1514 : U32).toNat + 4) 3 :=
  ⟨by decide, constructPtmBondHdr_wellFormed blankInfo (fun _ => 8000000) 3
    [(fun _ => blankHeader, 64)] (fun _ => blankHeader) 1514 (by decide)⟩

/-- The check sequence wraps the length around: a packet of `2 ^ 32 - 1` bytes goes out as
one fragment of three. -/
theorem wrapped_length_sends_three :
    ∃ result, constructPtmBondHdr 3 (calculateLinkParameters blankInfo (fun _ => 8000000) 3)
        (fun _ => blankHeader) 0xFFFFFFFF = pure result ∧
      result.ret = 1 ∧ (result.hdr 0).payload = 3 ∧
      ¬ WellFormed result.hdr result.ret ((0xFFFFFFFF : U32).toNat + 4) 3 := by
  refine ⟨_, rfl, rfl, by decide, fun formed => ?_⟩
  have sum := formed.sum
  revert sum
  decide

end RouterKernel.Bonding
