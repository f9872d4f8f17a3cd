import RouterKernel.Tracking.Esp
import Mathlib.Data.Sym.Sym2

/-!
Contract: how far the ESP table keeps the traffic of different hosts apart.

Owns:
- `Kept`, what one event should leave of the table;
- `Separate`, the condition on the entries that the searches hit, under which it
  does;
- `NoSharedTspi`, that packets between different hosts get different temporary SPIs
  as long as their entries live;
- the equivalence of these along every run.
-/

namespace RouterKernel.Tracking

open Foundation

/-! ## Sessions -/

def EspEntry.pair (entry : EspEntry) : Sym2 U32 := s(entry.lIp, entry.rIp)

def EspPacket.pair (packet : EspPacket) : Sym2 U32 := s(packet.src, packet.dst)

def EspEntry.OfPair (entry : EspEntry) (packet : EspPacket) : Prop :=
  entry.inuse = true ∧ entry.pair = packet.pair

def OthersKept (packet : EspPacket) (table after : EspTable) : Prop :=
  ∀ idx, (table idx).inuse = true → (table idx).pair ≠ packet.pair →
    (after idx).lSpi = (table idx).lSpi ∧ (after idx).rSpi = (table idx).rSpi

def Kept (table : EspTable) : EspEvent → Prop
  | .packet packet =>
    (∀ idx, espAssigned table packet = some idx →
      ((espPktToTuple table packet).2 idx).OfPair packet) ∧
    OthersKept packet table (espPktToTuple table packet).2
  | .create packet ct => OthersKept packet table (espNew table packet ct).2
  | .destroy _ => True

/-- The searches only hit entries of the packet's own hosts; a new connection may
also hit others, but not to change their SPIs. -/
def Separate (table : EspTable) : EspEvent → Prop
  | .packet packet =>
    ∀ spi idx, packet.spi = some spi → (firstEntry table (EspEntry.hasSpi spi) = some idx ∨
        firstEntry table (EspEntry.hasSpi spi) = none ∧
          firstEntry table (EspEntry.hasIp packet.src) = some idx) →
      (table idx).OfPair packet
  | .create packet _ =>
    ∀ spi idx, packet.spi = some spi → firstEntry table (EspEntry.hasSpi spi) = some idx →
      (table idx).inuse = true → (table idx).lSpi = spi → (table idx).rIp = 0 →
      (table idx).rSpi = spi ∨ (table idx).pair = packet.pair
  | .destroy _ => True

/-- Two packets that get the same temporary SPI while the entry of the first stays in
use are between the same hosts. -/
def NoSharedTspi (events : List EspEvent) : Prop :=
  ∀ first between rest earlier later early late tspi,
    events = first ++ .packet earlier :: (between ++ .packet later :: rest) →
    espAssigned (espReach first) earlier = some early →
    espAssigned (espReach (first ++ .packet earlier :: between)) later = some late →
    (espPktToTuple (espReach first) earlier).1 = some tspi →
    (espPktToTuple (espReach (first ++ .packet earlier :: between)) later).1 = some tspi →
    (∀ part, part <+: between → (espReach (first ++ .packet earlier :: part) early).inuse = true) →
    earlier.pair = later.pair

/-! ## One event -/

@[simp] theorem EspEntry.bySpi_pair (entry : EspEntry) (spi srcIP : U32) :
    (entry.bySpi spi srcIP).pair = entry.pair := by
  unfold EspEntry.bySpi
  split_ifs <;> rfl

@[simp] theorem EspEntry.bySpi_inuse (entry : EspEntry) (spi srcIP : U32) :
    (entry.bySpi spi srcIP).inuse = entry.inuse := by
  unfold EspEntry.bySpi
  split_ifs <;> rfl

@[simp] theorem EspEntry.bySpi_lSpi (entry : EspEntry) (spi srcIP : U32) :
    (entry.bySpi spi srcIP).lSpi = entry.lSpi := by
  unfold EspEntry.bySpi
  split_ifs <;> rfl

@[simp] theorem EspEntry.bySpi_tspi (entry : EspEntry) (spi srcIP : U32) :
    (entry.bySpi spi srcIP).tspi = entry.tspi := by
  unfold EspEntry.bySpi
  split_ifs <;> rfl

@[simp] theorem EspEntry.byIp_inuse (entry : EspEntry) (packet : EspPacket) (spi : U32) :
    (entry.byIp packet spi).inuse = entry.inuse := by
  unfold EspEntry.byIp
  split_ifs <;> rfl

@[simp] theorem EspEntry.byIp_tspi (entry : EspEntry) (packet : EspPacket) (spi : U32) :
    (entry.byIp packet spi).tspi = entry.tspi := by
  unfold EspEntry.byIp
  split_ifs <;> rfl

variable {packet : EspPacket} {entry : EspEntry} {spi : U32} {table : EspTable}
  {idx : Fin MAX_PORTS}
  {event : EspEvent}

theorem EspEntry.byIp_pair (same : entry.pair = packet.pair) :
    (entry.byIp packet spi).pair = packet.pair := by
  unfold EspEntry.byIp
  split_ifs with lan moved
  · have source : packet.src = entry.lIp := by
      simp only [EspEntry.fromLan, Bool.and_eq_true, beq_iff_eq] at lan
      exact lan.1
    simp [EspEntry.pair, EspPacket.pair, source]
  · exact same
  · exact same

theorem EspEntry.byIp_spi (entry : EspEntry) (packet : EspPacket) (spi : U32) :
    (entry.byIp packet spi).lSpi = spi ∨ (entry.byIp packet spi).rSpi = spi := by
  unfold EspEntry.byIp
  split_ifs
  · exact Or.inl rfl
  · exact Or.inl rfl
  · exact Or.inr rfl

theorem EspEntry.not_hasSpi (unknown : entry.hasSpi spi = false) :
    entry.lSpi ≠ spi ∧ entry.rSpi ≠ spi := by
  simp only [EspEntry.hasSpi, Bool.or_eq_false_iff, beq_eq_false_iff_ne] at unknown
  exact ⟨unknown.1.symm, unknown.2.symm⟩

/-- Whatever is written to an entry of the packet's hosts, or to a free one, is no
loss to others. -/
theorem othersKept_update (own : (table idx).inuse = true → (table idx).pair = packet.pair)
    (entry : EspEntry) :
    OthersKept packet table (Function.update table idx entry) := by
  intro other inuse foreign
  have different : other ≠ idx := by
    rintro rfl
    exact foreign (own inuse)
  rw [Function.update_of_ne different]
  exact ⟨rfl, rfl⟩

theorem EspFound.ofPair (found : EspFound table packet spi idx entry)
    (header : packet.spi = some spi)
    (separate : Separate table (.packet packet)) :
    entry.OfPair packet ∧ ((table idx).inuse = true → (table idx).pair = packet.pair) := by
  cases found with
  | bySpi found =>
    obtain ⟨inuse, pair⟩ := separate spi idx header (Or.inl found)
    exact ⟨⟨by simpa using inuse, by simpa using pair⟩, fun _ => pair⟩
  | byIp unknown found =>
    obtain ⟨inuse, pair⟩ := separate spi idx header (Or.inr ⟨unknown, found⟩)
    exact ⟨⟨by simpa using inuse, EspEntry.byIp_pair pair⟩, fun _ => pair⟩
  | fresh unknown silent first =>
    refine ⟨⟨rfl, rfl⟩, fun inuse => ?_⟩
    have free := firstEntry_some first
    rw [inuse] at free
    cases free

theorem kept_of_separate (separate : Separate table event) : Kept table event := by
  cases event with
  | packet packet =>
    constructor
    · intro idx assigned
      obtain ⟨spi, entry, header, found, result⟩ := espPktToTuple_assigned assigned
      rw [result]
      dsimp only
      rw [Function.update_self]
      exact (found.ofPair header separate).1
    · cases assigned : espAssigned table packet with
      | none =>
        rw [espPktToTuple_unassigned assigned]
        exact fun _ _ _ => ⟨rfl, rfl⟩
      | some idx =>
        obtain ⟨spi, entry, header, found, result⟩ := espPktToTuple_assigned assigned
        rw [result]
        exact othersKept_update (found.ofPair header separate).2 _
  | create packet ct =>
    change OthersKept packet table (espNew table packet ct).2
    rcases espNew_cases table packet ct with same | ⟨spi, idx, header, found⟩
    · rw [same]
      exact fun _ _ _ => ⟨rfl, rfl⟩
    · rw [espNew_found ct header found]
      intro other inuse foreign
      by_cases here : other = idx
      · subst here
        rw [Function.update_self]
        refine ⟨EspEntry.bySpi_lSpi _ _ _, ?_⟩
        change ((table other).bySpi spi 0).rSpi = _
        unfold EspEntry.bySpi
        split_ifs with rewrites
        · rcases separate spi other header found inuse rewrites.1.symm rewrites.2.symm with
            known | pair
          · exact known.symm
          · exact absurd pair foreign
        · rfl
      · rw [Function.update_of_ne here]
        exact ⟨rfl, rfl⟩
  | destroy ct => trivial

/-- An entry that one of the searches hits is the one assigned. -/
theorem espAssigned_of_hit (header : packet.spi = some spi)
    (hit : firstEntry table (EspEntry.hasSpi spi) = some idx ∨
      firstEntry table (EspEntry.hasSpi spi) = none ∧ firstEntry table (EspEntry.hasIp packet.src) =
        some idx) :
    espAssigned table packet = some idx := by
  rw [espAssigned, header, Option.bind_some, espEntryFor, searchEspEntryBySpi]
  rcases hit with found | ⟨unknown, found⟩
  · rw [found]
    rfl
  · rw [unknown, Option.map_none, searchEspEntryByIp, found]
    rfl

theorem separate_of_kept (kept : Kept table event) : Separate table event := by
  cases event with
  | packet packet =>
    intro spi idx header hit
    have assigned := espAssigned_of_hit header hit
    have own := kept.1 idx assigned
    have others := kept.2 idx
    obtain ⟨spi', entry, header', found, result⟩ := espPktToTuple_assigned assigned
    obtain rfl : spi' = spi := Option.some.inj (header'.symm.trans header)
    rw [result] at own others
    dsimp only at own others
    rw [Function.update_self] at own others
    cases found with
    | bySpi found =>
      have pair : ((table idx).bySpi spi' packet.src).pair = packet.pair := own.2
      rw [EspEntry.bySpi_pair] at pair
      exact ⟨by simpa using own.1, pair⟩
    | byIp unknown found =>
      have inuse : (table idx).inuse = true := by simpa using own.1
      refine ⟨inuse, ?_⟩
      -- The entry of other hosts would have got the new SPI.
      by_contra foreign
      obtain ⟨sameL, sameR⟩ := others inuse foreign
      obtain ⟨notL, notR⟩ := EspEntry.not_hasSpi (firstEntry_none unknown idx)
      rcases (table idx).byIp_spi packet spi' with gotL | gotR
      · exact notL (sameL.symm.trans gotL)
      · exact notR (sameR.symm.trans gotR)
    | fresh unknown silent first =>
      rcases hit with found | ⟨_, found⟩
      · rw [unknown] at found
        cases found
      · rw [silent] at found
        cases found
  | create packet ct =>
    intro spi idx header found inuse left right
    by_contra neither
    obtain ⟨changes, foreign⟩ := not_or.mp neither
    have others := (kept idx inuse foreign).2
    rw [espNew_found ct header found, Function.update_self] at others
    have rewritten : ((table idx).bySpi spi 0).rSpi = spi := by
      rw [EspEntry.bySpi, if_pos ⟨left.symm, right.symm⟩]
    exact changes (others.symm.trans rewritten)
  | destroy ct => trivial

/-! ## Runs -/

def Numbered (table : EspTable) : Prop :=
  ∀ idx, (table idx).inuse = true → (table idx).tspi = BitVec.ofNat 16 (idx + TEMP_SPI_START)

theorem Numbered.update (numbered : Numbered table)
    (here : entry.inuse = true → entry.tspi = BitVec.ofNat 16 (idx + TEMP_SPI_START)) :
    Numbered (Function.update table idx entry) := by
  intro other inuse
  by_cases same : other = idx
  · subst same
    rw [Function.update_self] at inuse ⊢
    exact here inuse
  · rw [Function.update_of_ne same] at inuse ⊢
    exact numbered other inuse

theorem EspFound.numbered (found : EspFound table packet spi idx entry) (numbered : Numbered table)
    (inuse : entry.inuse = true) :
    entry.tspi = BitVec.ofNat 16 (idx + TEMP_SPI_START) := by
  cases found with
  | bySpi _ =>
    rw [EspEntry.bySpi_inuse] at inuse
    rw [EspEntry.bySpi_tspi, numbered idx inuse]
  | byIp _ _ =>
    rw [EspEntry.byIp_inuse] at inuse
    rw [EspEntry.byIp_tspi, numbered idx inuse]
  | fresh _ _ _ => rfl

theorem Numbered.step (numbered : Numbered table) (event : EspEvent) :
    Numbered (espStep table event) := by
  cases event with
  | packet packet =>
    cases assigned : espAssigned table packet with
    | none =>
      rw [espStep, espPktToTuple_unassigned assigned]
      exact numbered
    | some idx =>
      obtain ⟨spi, entry, _, found, result⟩ := espPktToTuple_assigned assigned
      rw [espStep, result]
      exact numbered.update (found.numbered numbered)
  | create packet ct =>
    rcases espNew_cases table packet ct with same | ⟨spi, idx, header, found⟩
    · rw [espStep, same]
      exact numbered
    · rw [espStep, espNew_found ct header found]
      apply numbered.update
      intro inuse
      have inuse : (table idx).inuse = true := by simpa using inuse
      simpa using numbered idx inuse
  | destroy ct =>
    unfold espStep espDestroy
    dsimp only
    split
    · exact numbered
    · exact numbered.update (fun inuse => by cases inuse)

theorem espReach_numbered (events : List EspEvent) : Numbered (espReach events) := by
  induction events using List.reverseRecOn with
  | nil =>
    intro idx inuse
    cases inuse
  | append_singleton events event ih =>
    rw [espReach_append]
    exact ih.step event

theorem Separate.pair_kept (separate : Separate table event) (before : (table idx).inuse = true)
    (after : (espStep table event idx).inuse = true) :
    (espStep table event idx).pair = (table idx).pair := by
  cases event with
  | packet packet =>
    cases assigned : espAssigned table packet with
    | none => rw [espStep, espPktToTuple_unassigned assigned]
    | some place =>
      obtain ⟨spi, entry, header, found, result⟩ := espPktToTuple_assigned assigned
      rw [espStep, result]
      dsimp only
      by_cases here : idx = place
      · subst here
        obtain ⟨own, pair⟩ := found.ofPair header separate
        rw [Function.update_self, pair before]
        exact own.2
      · rw [Function.update_of_ne here]
  | create packet ct =>
    rcases espNew_cases table packet ct with same | ⟨spi, place, header, found⟩
    · rw [espStep, same]
    · rw [espStep, espNew_found ct header found]
      by_cases here : idx = place
      · subst here
        rw [Function.update_self]
        exact EspEntry.bySpi_pair _ _ _
      · rw [Function.update_of_ne here]
  | destroy ct =>
    change (espDestroy table ct idx).inuse = true at after
    change (espDestroy table ct idx).pair = _
    unfold espDestroy at after ⊢
    cases found : searchEspEntryByCt table ct with
    | none => rfl
    | some place =>
      rw [found] at after
      dsimp only at after ⊢
      by_cases here : idx = place
      · subst here
        rw [Function.update_self] at after
        cases after
      · rw [Function.update_of_ne here]

theorem pair_kept_along {first between : List EspEvent}
    (separate : ∀ part event, part ++ [event] <+: between →
      Separate (espReach (first ++ part)) event)
    (inuse : ∀ part, part <+: between → (espReach (first ++ part) idx).inuse = true) :
    (espReach (first ++ between) idx).pair = (espReach first idx).pair := by
  induction between using List.reverseRecOn with
  | nil => rw [List.append_nil]
  | append_singleton between event ih =>
    have before := inuse between (List.prefix_append _ _)
    have after := inuse (between ++ [event]) List.prefix_rfl
    have here := separate between event List.prefix_rfl
    rw [← List.append_assoc, espReach_append] at after ⊢
    have earlier : (espReach (first ++ between) idx).pair = (espReach first idx).pair :=
      ih
        (fun part next within => separate part next (within.trans (List.prefix_append _ _)))
        (fun part within => inuse part (within.trans (List.prefix_append _ _)))
    rw [← earlier]
    exact here.pair_kept before after

theorem ofNat_tspi_inj {first second : Fin MAX_PORTS}
    (same : BitVec.ofNat 16 (first + TEMP_SPI_START) = BitVec.ofNat 16 (second + TEMP_SPI_START)) :
    first = second := by
  revert first second
  decide

/-- A packet that is assigned to an entry gets the number of its place. -/
theorem tspi_of_assigned {events : List EspEvent} {tspi : U16}
    (separate : Separate (espReach events) (.packet packet))
    (assigned : espAssigned (espReach events) packet = some idx)
    (got : (espPktToTuple (espReach events) packet).1 = some tspi) :
    tspi = BitVec.ofNat 16 (idx + TEMP_SPI_START) := by
  obtain ⟨spi, entry, header, found, result⟩ := espPktToTuple_assigned assigned
  rw [result] at got
  obtain rfl := Option.some.inj got
  exact found.numbered (espReach_numbered events) (found.ofPair header separate).1.1

theorem noSharedTspi_of_separate {events : List EspEvent}
    (separate : ∀ part event, part ++ [event] <+: events → Separate (espReach part) event) :
    NoSharedTspi events := by
  intro first between rest earlier later early late tspi split earlyIs lateIs earlyGot lateGot lives
  subst split
  have earlySeparate : Separate (espReach first) (.packet earlier) := by
    apply separate
    exact ⟨between ++ .packet later :: rest, by simp⟩
  have lateSeparate :
      Separate (espReach (first ++ .packet earlier :: between)) (.packet later) := by
    apply separate
    exact ⟨rest, by simp⟩
  have same : early = late := by
    apply ofNat_tspi_inj
    rw [← tspi_of_assigned earlySeparate earlyIs earlyGot,
      ← tspi_of_assigned lateSeparate lateIs lateGot]
  subst same
  have start := (kept_of_separate earlySeparate).1 early earlyIs
  have final := (kept_of_separate lateSeparate).1 early lateIs
  have afterFirst :
      espReach (first ++ [.packet earlier]) = (espPktToTuple (espReach first) earlier).2 := by
    rw [espReach_append]
    rfl
  have kept : (espReach ((first ++ [.packet earlier]) ++ between) early).pair =
      (espReach (first ++ [.packet earlier]) early).pair := by
    apply pair_kept_along
    · intro part event within
      apply separate
      obtain ⟨more, rfl⟩ := within
      exact ⟨more ++ .packet later :: rest, by simp⟩
    · intro part within
      rw [List.append_assoc]
      exact lives part within
  rw [afterFirst, List.append_assoc] at kept
  have last := lateSeparate.pair_kept (lives between List.prefix_rfl) final.1
  calc
    earlier.pair = ((espPktToTuple (espReach first) earlier).2 early).pair := start.2.symm
    _ = (espReach (first ++ .packet earlier :: between) early).pair := kept.symm
    _ = later.pair := last.symm.trans final.2

/-- The table keeps the traffic of different hosts apart along a run just if each
event meets the condition. -/
theorem esp_sessions_apart_iff (events : List EspEvent) :
    ((∀ part event, part ++ [event] <+: events → Kept (espReach part) event) ∧
        NoSharedTspi events) ↔
      ∀ part event, part ++ [event] <+: events → Separate (espReach part) event := by
  constructor
  · rintro ⟨kept, _⟩ part event within
    exact separate_of_kept (kept part event within)
  · intro separate
    refine ⟨fun part event within => kept_of_separate (separate part event within), ?_⟩
    exact noSharedTspi_of_separate separate

/-- Two pairs of hosts that choose the same SPI share an entry, and with it the
temporary SPI.  A third packet, from the first host to another one, rewrites the
SPI that the entry has for the first pair. -/
theorem same_spi_shares_entry :
    let lan : EspPacket := ⟨0x0201a8c0, 0x01020304, some 0x1000⟩
    let other : EspPacket := ⟨0x0301a8c0, 0x05060708, some 0x1000⟩
    let moved : EspPacket := ⟨0x0201a8c0, 0x05060708, some 0x2000⟩
    lan.pair ≠ other.pair ∧ espAssigned (espReach []) lan = some 0 ∧
      espAssigned (espReach [.packet lan]) other = some 0 ∧
      ((espReach [.packet lan, .packet other]) 0).pair = lan.pair ∧
      (espPktToTuple (espReach []) lan).1 = some 1500 ∧
      (espPktToTuple (espReach [.packet lan]) other).1 = some 1500 ∧
      ((espReach [.packet lan]) 0).lSpi = 0x1000 ∧
      ((espReach [.packet lan, .packet moved]) 0).lSpi = 0x2000 := by
  decide

end RouterKernel.Tracking
