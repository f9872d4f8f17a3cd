import RouterKernel.Bonding.Headers

/-!
Contract: how many headers a packet takes.

Owns:
- `reserve`, a bound on the number of fragments from the credit of the current port,
  which each fragment lowers;
- `Stocked`, the credits that the ports have between packets if the configured ones
  are large enough;
- the bound on the headers of a packet, after every sequence of packets, and rates for
  which it fails.
-/

namespace RouterKernel.Bonding

open Foundation

/-! ## The reserve -/

/-- One fragment takes it all. -/
def Single (credit : Int) (len : Nat) : Prop :=
  len ≤ available credit ∨ len < available credit + 96 ∧
    available credit < 192 + (len - available credit)

instance (credit : Int) (len : Nat) : Decidable (Single credit len) := by
  unfold Single
  infer_instance

/-- A bound on the number of fragments.  A port that is new to the packet has a credit
of at least 318; with less, a fragment may be short, but the next port's is not. -/
def reserve (credit : Int) (len : Nat) : Nat :=
  if len = 0 then 0
  else if len ≤ 318 ∧ Single credit len then 1
  else if 318 ≤ credit then
    if len < 410 then 2 else (len + 225) / 302 + 1
  else if len ≤ 289 then 2
  else (len + 129) / 302 + 2

theorem reserve_zero (credit : Int) : reserve credit 0 = 0 := rfl

theorem reserve_le (credit : Int) (len : Nat) : reserve credit len ≤ (len + 129) / 302 + 2 := by
  unfold reserve
  split_ifs
  all_goals omega

theorem available_eq (credit : Int) : (available credit : Int) = max 96 (min 508 credit) := by
  unfold available
  omega

variable {len frag : Nat} {credit next : Int} {port other : Fin MAX_BOND_PORTS}

theorem single_of_rested (rested : 318 ≤ credit) (short : len ≤ 318) : Single credit len := by
  have avail := available_eq credit
  left
  omega

theorem reserve_of_rested (rested : 318 ≤ credit) (some : len ≠ 0) : reserve credit len =
      if len ≤ 318 then 1 else if len < 410 then 2 else (len + 225) / 302 + 1 := by
  unfold reserve
  rw [if_neg some, if_pos rested]
  by_cases short : len ≤ 318
  · rw [if_pos ⟨short, single_of_rested rested short⟩, if_pos short]
  · rw [if_neg (fun both => short both.1), if_neg short]

theorem reserve_pos (credit : Int) (some : len ≠ 0) : 1 ≤ reserve credit len := by
  unfold reserve
  rw [if_neg some]
  split_ifs
  all_goals omega

theorem reserve_of_single (some : len ≠ 0) (short : len ≤ 318)
    (single : Single credit len) : reserve credit len = 1 := by
  unfold reserve
  rw [if_neg some, if_pos ⟨short, single⟩]

theorem reserve_le_two (credit : Int) (short : len ≤ 289) : reserve credit len ≤ 2 := by
  unfold reserve
  split_ifs
  all_goals omega

theorem reserve_le_of_rested (rested : 318 ≤ credit) (other : Int) (len : Nat) :
    reserve credit len ≤ reserve other len := by
  by_cases some : len = 0
  · rw [some, reserve_zero, reserve_zero]
  · rw [reserve_of_rested rested some]
    unfold reserve
    rw [if_neg some]
    split_ifs
    all_goals omega

/-- What is left of a packet that is cut in two even parts fits in two fragments, and
in one unless there was a reserve for three. -/
theorem reserve_shared {rest : Nat} (more : available credit < len)
    (little : len < available credit + 96)
    (long : 192 + (len - available credit) ≤ available credit)
    (cut : frag = 2 * available credit - 96 - len - (2 * available credit - 96 - len) % 4)
    (left : rest = len - frag) (after : 318 ≤ next ∨ next = credit - frag - 4) :
    reserve next rest + 1 ≤ reserve credit len := by
  have avail := available_eq credit
  have nextAvail := available_eq next
  have rest_le := reserve_le_two next (show rest ≤ 289 by omega)
  have several : ¬ Single credit len := by
    rintro (fits | ⟨_, short⟩)
    · omega
    · omega
  by_cases large : 3 ≤ reserve credit len
  · omega
  · have two : reserve credit len = 2 ∧ (318 ≤ credit ∧ len < 410 ∨ len ≤ 289) := by
      unfold reserve at large ⊢
      rw [if_neg (by omega), if_neg (fun both => several both.2)] at large ⊢
      split_ifs at large ⊢
      all_goals omega
    have single : Single next rest := by
      unfold Single
      omega
    rw [reserve_of_single (by omega) (by omega) single, two.1]

/-- A full fragment is at least as long as the credit of a new port, or as short as a
credit may be, and then a new port follows. -/
theorem reserve_full {rest : Nat} (much : available credit + 96 ≤ len)
    (cut : frag = available credit - available credit % 4) (left : rest = len - frag)
    (after : 318 ≤ next ∨ next = credit - frag - 4 ∧ 0 < next) :
    reserve next rest + 1 ≤ reserve credit len := by
  have avail := available_eq credit
  have several : ¬ Single credit len := by
    rintro (fits | ⟨little, _⟩)
    · omega
    · omega
  have before : reserve credit len = if 318 ≤ credit then (len + 225) / 302 + 1
      else if len ≤ 289 then 2 else (len + 129) / 302 + 2 := by
    unfold reserve
    rw [if_neg (by omega), if_neg (fun both => several both.2)]
    split_ifs
    all_goals omega
  rw [before]
  by_cases beyond : 508 < credit
  · have bound := reserve_le next rest
    rw [if_pos (by omega)]
    omega
  · have rested : 318 ≤ next := by omega
    rw [reserve_of_rested rested (by omega)]
    split_ifs
    all_goals omega

/-- A fragment lowers the reserve, whether the port keeps some credit or another one
takes over. -/
theorem reserve_cut (cut : Cut len (available credit) frag) (near : len < available credit + 2 ^ 31)
    (some : len ≠ 0) (after : 318 ≤ next ∨ next = credit - frag - 4 ∧ 0 < next) :
    reserve next (len - frag) + 1 ≤ reserve credit len := by
  cases cut with
  | whole fits | joined more little short =>
    rw [Nat.sub_self, reserve_zero]
    exact reserve_pos credit some
  | shared more little long =>
    exact reserve_shared more little long rfl rfl (after.imp_right And.left)
  | full much near => exact reserve_full much rfl rfl after
  | wrapped _ far _ => omega

theorem credit_after_cut (positive : 1 ≤ credit) (cut : Cut len (available credit) frag)
    (near : len < available credit + 2 ^ 31) :
    -194 ≤ credit - frag - 4 := by
  have avail := available_eq credit
  cases cut with
  | whole fits => omega
  | joined more little short => omega
  | shared more little long => omega
  | full much near => omega
  | wrapped _ far _ => omega

/-! ## The credits of the ports -/

def Credited (info : BondInfo) : Prop :=
  ∀ port, info.ulConfLinkUsWt port ≠ 0 → 512 ≤ (info.ilConfLinkUsCredit port).toInt

/-- Only links in use have weight. -/
structure Funded (portMask : U32) (info : BondInfo) : Prop where
  linked : Linked portMask info
  credited : Credited info
  backed : ∀ port, info.ulLinkUsWt port ≠ 0 → info.ulConfLinkUsWt port ≠ 0

/-- A port that has weight has credit, and that of a new port unless it is the current
one. -/
structure Stocked (info : BondInfo) : Prop where
  positive : ∀ port, info.ulLinkUsWt port ≠ 0 → 1 ≤ (info.ilLinkUsCredit port).toInt
  rested : ∀ port, info.ulLinkUsWt port ≠ 0 → ¬ At info port →
    318 ≤ (info.ilLinkUsCredit port).toInt

theorem stocked_of_rested {info : BondInfo}
    (rested : ∀ port, info.ulLinkUsWt port ≠ 0 → 318 ≤ (info.ilLinkUsCredit port).toInt) :
    Stocked info :=
  ⟨fun port weighs => by have := rested port weighs; omega, fun port weighs _ => rested port weighs⟩

theorem At.unique {info : BondInfo} (running : At info port) (second : At info other) :
    other = port :=
  ofNat_port_inj (Except.ok.inj (second.count.symm.trans running.count))

theorem setLink_wt_self (info : BondInfo) (port : Fin MAX_BOND_PORTS) (wt credit : U32) :
    (info.setLink port wt credit).ulLinkUsWt port = wt := Function.update_self ..

theorem setLink_wt_of_ne (info : BondInfo) (wt credit : U32) (different : other ≠ port) :
    (info.setLink port wt credit).ulLinkUsWt other = info.ulLinkUsWt other :=
  Function.update_of_ne different ..

theorem setLink_credit_self (info : BondInfo) (port : Fin MAX_BOND_PORTS) (wt credit : U32) :
    (info.setLink port wt credit).ilLinkUsCredit port = credit := Function.update_self ..

theorem setLink_credit_of_ne (info : BondInfo) (wt credit : U32) (different : other ≠ port) :
    (info.setLink port wt credit).ilLinkUsCredit other = info.ilLinkUsCredit other :=
  Function.update_of_ne different ..

theorem advance_credit (info : BondInfo) : info.advance.ilLinkUsCredit = info.ilLinkUsCredit := rfl

theorem setLink_setLink (info : BondInfo) (port : Fin MAX_BOND_PORTS)
    (wt credit wt' credit' : U32) :
    (info.setLink port wt credit).setLink port wt' credit' = info.setLink port wt' credit' := by
  unfold BondInfo.setLink
  dsimp only
  rw [Function.update_idem, Function.update_idem]

theorem Funded.setLink {portMask : U32} {info : BondInfo} (funded : Funded portMask info)
    (running : At info port)
    {wt : U32} (less : wt.toNat ≤ (info.ulLinkUsWt port).toNat) (credit : U32) :
    Funded portMask (info.setLink port wt credit) := by
  refine ⟨⟨funded.linked.wired.setLink running less credit, funded.linked.mask⟩, funded.credited,
    ?_⟩
  intro other weighs
  by_cases same : other = port
  · subst same
    apply funded.backed
    intro zero
    rw [setLink_wt_self] at weighs
    apply weighs
    apply BitVec.eq_of_toNat_eq
    rw [zero] at less
    exact Nat.le_zero.mp less
  · rw [setLink_wt_of_ne info wt credit same] at weighs
    exact funded.backed other weighs

theorem Funded.advance {portMask : U32} {info : BondInfo} (funded : Funded portMask info) :
    Funded portMask info.advance :=
  ⟨⟨funded.linked.wired.advance, funded.linked.mask⟩, funded.credited, funded.backed⟩

theorem Funded.settle {portMask : U32} {info : BondInfo} (funded : Funded portMask info)
    (running : At info port) : Funded portMask (info.settle port) := by
  unfold BondInfo.settle
  split_ifs
  · exact funded
  · exact (funded.setLink running le_rfl _).advance

theorem Funded.reload {portMask : U32} {info : BondInfo} (funded : Funded portMask info) :
    Funded portMask info.reload :=
  ⟨⟨funded.linked.wired.reload, funded.linked.mask⟩, funded.credited, fun _ weighs => weighs⟩

theorem funded_patient (portMask : U32) : Patient (Funded portMask) where
  wired funded := funded.linked.wired
  waits funded running := (funded.setLink running (Nat.zero_le _) _).advance
  reloads funded := funded.reload

/-- A function that gives up leaves no port with weight, or all with their configured
credit. -/
theorem Funded.stocked_of_gaveUp {portMask : U32} {info : BondInfo} (funded : Funded portMask info)
    (gaveUp : info.portMask = 0 ∨ info.ilLinkUsCredit = info.ilConfLinkUsCredit) :
    Stocked info := by
  apply stocked_of_rested
  intro port weighs
  rcases gaveUp with masked | reloaded
  · have disabled : ∀ port, info.enabled port = false := by
      intro port
      rw [enabled_eq, masked]
      exact BitVec.getLsbD_zero
    cases funded.linked.wired.wiring with
    | unused total index dist idle => exact absurd (idle port).2 weighs
    | single other total index dist active idle =>
      rw [disabled] at active
      cases active
    | both total index dist active =>
      have impossible := active 0
      rw [disabled] at impossible
      cases impossible
  · rw [reloaded]
    have enough := funded.credited port (funded.backed port weighs)
    omega

/-! ## Whole packets -/

/-- The headers so far, with the reserve for what is left, are within a limit, and nothing
is written behind them. -/
structure Allowed (portMask : U32) (limit : Nat) (hdr : Nat → BondHeader) (state : Fragmenting)
    (info : BondInfo) : Prop where
  funded : Funded portMask info
  stocked : Stocked info
  small : ¬ Doomed state.len
  fresh : state.fragNo + reserve 318 state.len.toNat ≤ limit
  current : ∀ port, At info port → info.ulLinkUsWt port ≠ 0 →
    state.fragNo + reserve (info.ilLinkUsCredit port).toInt state.len.toNat ≤ limit
  kept : ∀ index, state.fragNo ≤ index → state.hdr index = hdr index

section Packets

variable {portMask : U32} {limit : Nat} {hdr : Nat → BondHeader} {state : Fragmenting}
  {info : BondInfo}

/-- Where all ports have the credit of a new one, the reserve for a new one is enough. -/
theorem allowed_of_rested (funded : Funded portMask info)
    (rested : ∀ port, info.ulLinkUsWt port ≠ 0 → 318 ≤ (info.ilLinkUsCredit port).toInt)
    (small : ¬ Doomed state.len) (fresh : state.fragNo + reserve 318 state.len.toNat ≤ limit)
    (kept : ∀ index, state.fragNo ≤ index → state.hdr index = hdr index) :
    Allowed portMask limit hdr state info := by
  refine ⟨funded, stocked_of_rested rested, small, fresh, fun port _ weighs => ?_, kept⟩
  have less := reserve_le_of_rested (rested port weighs) 318 state.len.toNat
  omega

theorem allowed_patient : Patient (Allowed portMask limit hdr state) where
  wired allowed := allowed.funded.linked.wired
  waits := by
    intro info port credit allowed running
    refine allowed_of_rested ((funded_patient portMask).waits allowed.funded running) ?_
      allowed.small allowed.fresh allowed.kept
    intro other weighs
    have different : other ≠ port := by
      rintro rfl
      exact weighs (setLink_wt_self info other 0 credit)
    have waits := allowed.stocked.rested other
    rw [← setLink_wt_of_ne info 0 credit different, ← setLink_credit_of_ne info 0 credit different]
      at waits
    exact waits weighs fun second => different (running.unique second)
  reloads := by
    intro info allowed
    refine allowed_of_rested allowed.funded.reload ?_ allowed.small allowed.fresh allowed.kept
    intro port weighs
    have enough := allowed.funded.credited port weighs
    change 318 ≤ (info.ilConfLinkUsCredit port).toInt
    omega

theorem toInt_after_cut {credit frag : U32} (positive : 1 ≤ credit.toInt)
    (short : frag.toNat ≤ 1000) :
    (credit - frag - 4).toInt = credit.toInt - frag.toNat - 4 := by
  have before := BitVec.toInt_eq_toNat_cond credit
  have after := BitVec.toInt_eq_toNat_cond (credit - frag - 4)
  have value : (credit - frag - 4).toNat = (credit.toNat + (2 ^ 32 - frag.toNat - 4)) % 2 ^ 32 := by
    bv_omega
  omega

theorem toInt_topped_up {credit conf : U32} (spent : credit.toInt ≤ 0) (some : -194 ≤ credit.toInt)
    (enough : 512 ≤ conf.toInt) : 318 ≤ (credit + conf).toInt := by
  have first := BitVec.toInt_eq_toNat_cond credit
  have second := BitVec.toInt_eq_toNat_cond conf
  have third := BitVec.toInt_eq_toNat_cond (credit + conf)
  have value := BitVec.toNat_add credit conf
  omega

theorem send_info_of_credit {fragLen : U32}
    (stays : (0 : U32).slt (info.ilLinkUsCredit port - fragLen - 4) = true) :
    (state.send info port fragLen).info =
      info.setLink port (info.ulLinkUsWt port - (fragLen + 4))
        (info.ilLinkUsCredit port - fragLen - 4) := by
  unfold Fragmenting.send BondInfo.settle
  dsimp only
  rw [setLink_credit_self, if_pos stays]

theorem send_info_of_spent {fragLen : U32}
    (spent : ¬ (0 : U32).slt (info.ilLinkUsCredit port - fragLen - 4) = true) :
    (state.send info port fragLen).info = (info.setLink port (info.ulLinkUsWt port - (fragLen + 4))
        (info.ilLinkUsCredit port - fragLen - 4 + info.ilConfLinkUsCredit port)).advance := by
  unfold Fragmenting.send BondInfo.settle
  dsimp only
  rw [setLink_credit_self, if_neg spent, setLink_wt_self, setLink_setLink]
  rfl

theorem Stocked.others_rested (stocked : Stocked info) (running : At info port) (wt credit : U32)
    (different : other ≠ port) (weighs : (info.setLink port wt credit).ulLinkUsWt other ≠ 0) :
    318 ≤ ((info.setLink port wt credit).ilLinkUsCredit other).toInt := by
  rw [setLink_wt_of_ne info wt credit different] at weighs
  rw [setLink_credit_of_ne info wt credit different]
  exact stocked.rested other weighs fun second => different (running.unique second)

theorem Allowed.send (allowed : Allowed portMask limit hdr state info) (more : state.len ≠ 0)
    (running : At info port)
    (fits : (getPtmFragmentLen state.len (info.ilLinkUsCredit port)).1 + 4 ≤ info.ulLinkUsWt port) :
    let after := state.send info port (getPtmFragmentLen state.len (info.ilLinkUsCredit port)).1
    Allowed portMask limit hdr after after.info := by
  have wired := allowed.funded.linked.wired
  have lower := sent_cases more (wired.wt port) fits
  have cut := getPtmFragmentLen_cut state.len (info.ilLinkUsCredit port)
  generalize (getPtmFragmentLen state.len (info.ilLinkUsCredit port)).1 = fragLen
    at fits lower cut ⊢
  have avail := available_bounds (info.ilLinkUsCredit port).toInt
  have near : state.len.toNat < available (info.ilLinkUsCredit port).toInt + 2 ^ 31 := by
    refine lower.2.resolve_left fun far => allowed.small ?_
    have rest := far.1
    unfold Doomed at rest ⊢
    omega
  have some : state.len.toNat ≠ 0 := fun zero => more (BitVec.eq_of_toNat_eq zero)
  have proper := cut.proper avail.1 avail.2 near
  have left : (state.len - fragLen).toNat = state.len.toNat - fragLen.toNat := by bv_omega
  have weighs : info.ulLinkUsWt port ≠ 0 := by
    intro zero
    rw [zero] at fits
    bv_omega
  have positive := allowed.stocked.positive port weighs
  have value := toInt_after_cut positive (show fragLen.toNat ≤ 1000 by omega)
  have least := credit_after_cut positive cut near
  have less : (info.ulLinkUsWt port - (fragLen + 4)).toNat ≤ (info.ulLinkUsWt port).toNat := by
    bv_omega
  have funded := allowed.funded.setLink running less (info.ilLinkUsCredit port - fragLen - 4)
  have limited := allowed.current port running weighs
  have small : ¬ Doomed (state.len - fragLen) := by
    unfold Doomed
    omega
  have kept : ∀ index, state.fragNo + 1 ≤ index →
      Function.update state.hdr state.fragNo (sentHeader port fragLen) index = hdr index := by
    intro index later
    rw [Function.update_of_ne (by omega)]
    exact allowed.kept index (by omega)
  have fresh : state.fragNo + 1 + reserve 318 (state.len - fragLen).toNat ≤ limit := by
    have step := reserve_cut cut near some (Or.inl (le_refl 318))
    rw [left]
    omega
  intro after
  by_cases stays : (0 : U32).slt (info.ilLinkUsCredit port - fragLen - 4) = true
  · have more : 0 < (info.ilLinkUsCredit port - fragLen - 4).toInt :=
      BitVec.slt_iff_toInt_lt.mp stays
    rw [send_info_of_credit stays]
    refine ⟨funded, ⟨fun other weighs => ?_, fun other weighs away => ?_⟩, small, fresh, ?_, kept⟩
    · by_cases same : other = port
      · rw [same, setLink_credit_self]
        exact more
      · have rested := allowed.stocked.others_rested running _ _ same weighs
        omega
    · exact allowed.stocked.others_rested running _ _ (fun same =>
        away (same ▸ setLink_at running _ _)) weighs
    · intro other second _
      have same : other = port := running.unique ⟨second.count, second.active⟩
      have step := reserve_cut cut near some (Or.inr ⟨value, more⟩)
      rw [same, setLink_credit_self]
      change state.fragNo + 1 + reserve _ (state.len - fragLen).toNat ≤ limit
      rw [left]
      omega
  · have spent : (info.ilLinkUsCredit port - fragLen - 4).toInt ≤ 0 := by
      rw [BitVec.slt_iff_toInt_lt] at stays
      exact not_lt.mp stays
    have rested := toInt_topped_up spent (value ▸ least)
      (allowed.funded.credited port (allowed.funded.backed port weighs))
    rw [send_info_of_spent stays]
    refine allowed_of_rested (allowed.funded.setLink running less _).advance ?_ small fresh kept
    intro other weighs
    by_cases same : other = port
    · subst same
      rw [advance_credit, setLink_credit_self]
      exact rested
    · exact allowed.stocked.others_rested running _ _ same weighs

theorem constructPtmBondHdr_allowed (funded : Funded portMask info) (stocked : Stocked info)
    (hdr : Nat → BondHeader) {len : U32} (small : ¬ Doomed (len + ETH_FCS_LEN)) :
    Returns (fun fuel => constructPtmBondHdr fuel info hdr len) fun result =>
      Funded portMask result.info ∧ Stocked result.info ∧
          result.fragNo ≤ ((len + ETH_FCS_LEN).toNat + 129) / 302 + 2 ∧
        ∀ index, max 1 result.fragNo ≤ index → result.hdr index = hdr index := by
  refine fragments_return
    (fun state => Allowed portMask (((len + ETH_FCS_LEN).toNat + 129) / 302 + 2) hdr state
      state.info)
    (fun state => Allowed portMask (((len + ETH_FCS_LEN).toNat + 129) / 302 + 2) hdr state)
    (fun state allowed => ⟨allowed_patient, allowed⟩)
    (fun state info port _ more allowed running fits => allowed.send more running fits) ?_ ?_ ?_
  · intro state allowed done
    refine ⟨allowed.funded, allowed.stocked, le_trans (Nat.le_add_right _ _) allowed.fresh, ?_⟩
    intro index later
    change max 1 state.fragNo ≤ index at later
    change Function.update _ _ _ _ = _
    rw [Function.update_of_ne (by omega)]
    exact allowed.kept index (by omega)
  · intro state after _ allowed gaveUp
    refine ⟨allowed.funded, allowed.funded.stocked_of_gaveUp gaveUp,
      le_trans (Nat.le_add_right _ _) allowed.fresh, fun index later => ?_⟩
    exact allowed.kept index (le_trans (le_max_right _ _) later)
  · refine ⟨funded, stocked, small, ?_, fun port _ _ => ?_, fun _ _ => rfl⟩
    · rw [Nat.zero_add]
      exact reserve_le _ _
    · rw [Nat.zero_add]
      exact reserve_le _ _

/-- A length that wraps leaves the credits as they were configured. -/
theorem constructPtmBondHdr_stocked (funded : Funded portMask info) (hdr : Nat → BondHeader)
    {len : U32} (doomed : Doomed (len + ETH_FCS_LEN)) :
    Returns (fun fuel => constructPtmBondHdr fuel info hdr len) fun result =>
      Funded portMask result.info ∧ Stocked result.info := by
  refine fragments_return (fun state => Funded portMask state.info ∧ Doomed state.len)
    (fun _ => Funded portMask) (fun state kept => ⟨funded_patient portMask, kept.1⟩) ?_ ?_ ?_
    ⟨funded, doomed⟩
  · intro state info port kept more funded running fits
    have lower := sent_cases more (funded.linked.wired.wt port) fits
    have avail := available_bounds (info.ilLinkUsCredit port).toInt
    have large := kept.2
    unfold Doomed at large
    have less : (info.ulLinkUsWt port -
        ((getPtmFragmentLen state.len (info.ilLinkUsCredit port)).1 + 4)).toNat ≤
          (info.ulLinkUsWt port).toNat := by
      bv_omega
    refine ⟨(funded.setLink running less _).settle (setLink_at running _ _), ?_⟩
    rcases lower.2 with ⟨doomed, _⟩ | near
    · exact doomed
    · omega
  · intro state kept done
    exact absurd kept.2 (done ▸ not_doomed_zero)
  · intro state after _ funded gaveUp
    exact ⟨funded, funded.stocked_of_gaveUp gaveUp⟩

theorem sendPackets_stocked (funded : Funded portMask info) (stocked : Stocked info)
    (packets : List ((Nat → BondHeader) × U32)) :
    Returns (fun fuel => sendPackets fuel info packets) fun after =>
      Funded portMask after ∧ Stocked after := by
  induction packets generalizing info with
  | nil => exact Returns.pure ⟨funded, stocked⟩
  | cons packet rest ih =>
    have returns : Returns (fun fuel => constructPtmBondHdr fuel info packet.1 packet.2)
        fun result => Funded portMask result.info ∧ Stocked result.info := by
      by_cases doomed : Doomed (packet.2 + ETH_FCS_LEN)
      · exact constructPtmBondHdr_stocked funded packet.1 doomed
      · exact (constructPtmBondHdr_allowed funded stocked packet.1 doomed).mono
          fun _ returned => ⟨returned.1, returned.2.1⟩
    exact Returns.bind returns fun result kept => ih kept.1 kept.2

end Packets

/-! ## Rates that give enough credit -/

theorem fasterCredit_ge {maxWt minWt : U32} (used : minWt ≠ 0) (order : minWt ≤ maxWt)
    (slow : maxWt.toNat < 2 ^ 22) : 512 ≤ (fasterCredit maxWt minWt).toInt := by
  have some : minWt.toNat ≠ 0 := fun zero => used (BitVec.eq_of_toNat_eq zero)
  have less : minWt.toNat ≤ maxWt.toNat := order
  have product : (maxWt * XTMRT_PTM_BOND_TX_DEF_CREDIT).toNat = maxWt.toNat * 512 := by
    rw [BitVec.toNat_mul, show XTMRT_PTM_BOND_TX_DEF_CREDIT.toNat = 512 from rfl]
    omega
  have quot : (maxWt * XTMRT_PTM_BOND_TX_DEF_CREDIT / minWt).toNat =
      maxWt.toNat * 512 / minWt.toNat := by
    rw [BitVec.toNat_udiv, product]
  have least : 512 ≤ maxWt.toNat * 512 / minWt.toNat := by
    rw [Nat.le_div_iff_mul_le (Nat.pos_of_ne_zero some)]
    omega
  have most : maxWt.toNat * 512 / minWt.toNat ≤ maxWt.toNat * 512 := Nat.div_le_self _ _
  have value := BitVec.toInt_eq_toNat_cond (fasterCredit maxWt minWt)
  have cases : (fasterCredit maxWt minWt).toNat = maxWt.toNat * 512 / minWt.toNat ∨
      (fasterCredit maxWt minWt).toNat = maxWt.toNat * 512 / minWt.toNat + 1 := by
    unfold fasterCredit
    dsimp only
    split_ifs
    · right
      rw [BitVec.toNat_add, quot, show (1 : U32).toNat = 1 from rfl]
      omega
    · exact Or.inl quot
  omega

theorem calculateLinkParameters_credited (before : BondInfo) {rates : Fin MAX_BOND_PORTS → U32}
    (portMask : U32) (slow : ∀ port, (rates port).toNat < 2 ^ 25) :
    Credited (calculateLinkParameters before rates portMask) := by
  obtain ⟨max, min, all, order, same⟩ := calculateLinkParameters_eq before rates portMask
  have light : ∀ port, (confWtOf rates portMask port).toNat < 2 ^ 22 := by
    intro port
    have bound := slow port
    unfold confWtOf
    split_ifs
    · rw [BitVec.toNat_udiv, show (8 : U32).toNat = 8 from rfl]
      omega
    · decide
  rw [same]
  generalize confWtOf rates portMask = confWt at order light
  have full : 512 ≤ XTMRT_PTM_BOND_TX_DEF_CREDIT.toInt := by decide
  intro port used
  change confWt port ≠ 0 at used
  unfold linksOf distribute
  split_ifs with maxUsed minUsed other
  · dsimp only
    by_cases larger : port = max
    · rw [larger, Function.update_self]
      exact fasterCredit_ge minUsed order (light max)
    · rw [Function.update_of_ne larger]
      exact full
  · have here : port = max := (all port).resolve_right fun equal =>
      used (equal ▸ not_not.mp minUsed)
    dsimp only
    rw [here, Function.update_self]
    exact full
  · have here : port = min := (all port).resolve_left fun equal => used (equal ▸ not_not.mp maxUsed)
    dsimp only
    rw [here, Function.update_self]
    exact full
  · rcases all port with rfl | rfl
    · exact absurd used maxUsed
    · exact absurd used other

/-! ## The bound -/

def PTM_MAX_TX_FRAME_LEN : Nat := 1980

/-- If each link in use is configured with the credit of a full fragment: after any
sequence of packets, a packet that may be sent takes at most eight headers, and nothing
behind them is written. -/
theorem constructPtmBondHdr_fits (before : BondInfo) (rates : Fin MAX_BOND_PORTS → U32)
    (portMask : U32) (credited : Credited (calculateLinkParameters before rates portMask))
    (history : List ((Nat → BondHeader) × U32)) (hdr : Nat → BondHeader) (len : U32)
    (short : len.toNat ≤ PTM_MAX_TX_FRAME_LEN) :
    Returns
      (fun fuel => do
        let info ← sendPackets fuel (calculateLinkParameters before rates portMask) history
        constructPtmBondHdr fuel info hdr len)
      fun result => result.fragNo ≤ XTMRT_PTM_BOND_MAX_FRAG_PER_PKT ∧
        ∀ index, XTMRT_PTM_BOND_MAX_FRAG_PER_PKT ≤ index → result.hdr index = hdr index := by
  have bound : len.toNat ≤ 1980 := short
  have total : (len + ETH_FCS_LEN).toNat = len.toNat + 4 := by
    rw [BitVec.toNat_add, show ETH_FCS_LEN.toNat = 4 from rfl]
    omega
  have small : ¬ Doomed (len + ETH_FCS_LEN) := by
    unfold Doomed
    omega
  obtain ⟨max, min, _, _, same⟩ := calculateLinkParameters_eq before rates portMask
  have funded : Funded portMask (calculateLinkParameters before rates portMask) := by
    refine ⟨calculateLinkParameters_linked before rates portMask, credited, ?_⟩
    rw [same]
    exact fun _ weighs => weighs
  have stocked : Stocked (calculateLinkParameters before rates portMask) := by
    apply funded.stocked_of_gaveUp
    right
    rw [same]
    rfl
  refine Returns.bind (sendPackets_stocked funded stocked history) ?_
  intro info kept
  refine (constructPtmBondHdr_allowed kept.1 kept.2 hdr small).mono ?_
  rintro result ⟨_, _, few, unchanged⟩
  have eight : result.fragNo ≤ 8 := by omega
  refine ⟨eight, fun index later => unchanged index ?_⟩
  change 8 ≤ index at later
  omega

/-- Two links of 8 and 2 Mbit/s, after a packet of 64 bytes. -/
theorem constructPtmBondHdr_fits_frame :
    Credited (calculateLinkParameters blankInfo ![8000000, 2000000] 3) ∧ Returns
        (fun fuel => do
          let info ← sendPackets fuel (calculateLinkParameters blankInfo ![8000000, 2000000] 3)
            [(fun _ => blankHeader, 64)]
          constructPtmBondHdr fuel info (fun _ => blankHeader) 1980)
        fun result => result.fragNo ≤ XTMRT_PTM_BOND_MAX_FRAG_PER_PKT ∧
          ∀ index, XTMRT_PTM_BOND_MAX_FRAG_PER_PKT ≤ index → result.hdr index = blankHeader := by
  have credited : Credited (calculateLinkParameters blankInfo ![8000000, 2000000] 3) :=
    calculateLinkParameters_credited blankInfo 3 (by decide)
  exact ⟨credited, constructPtmBondHdr_fits blankInfo ![8000000, 2000000] 3 credited
    [(fun _ => blankHeader, 64)] (fun _ => blankHeader) 1980 (by decide)⟩

/-- The weight of a link of 67108864 bit/s, times 512, wraps around to no credit at all:
each fragment has the least length, and a packet takes twenty headers. -/
theorem overflow_takes_twenty_headers :
    ∃ result, constructPtmBondHdr 60 (calculateLinkParameters blankInfo ![67108864, 8] 3)
        (fun _ => blankHeader) 1980 = pure result ∧
      result.ret = 20 ∧ result.fragNo = 20 ∧ (result.hdr 19).payload = 160 := by
  refine ⟨_, rfl, ?_, ?_, ?_⟩
  all_goals decide

end RouterKernel.Bonding
