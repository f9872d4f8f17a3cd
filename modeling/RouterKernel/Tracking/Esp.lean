import RouterKernel.Foundation.Words

/-!
Contract: the table behind the connection tracking of ESP.

Owns:
- the entries of `esp_table` and the three searches over it;
- `esp_pkt_to_tuple`, `esp_new` and `esp_destroy`;
- runs of these from the empty table.

Does not own: which packets the table keeps apart.  `esp_packet` only refreshes the
timeout of a connection.
-/

namespace RouterKernel.Tracking

open Foundation

/-! ## The table -/

abbrev MAX_PORTS : Nat := 8
def TEMP_SPI_START : Nat := 1500

/-- `struct _esp_table`.  A connection is known by its address. -/
structure EspEntry where
  lSpi : U32
  rSpi : U32
  lIp : U32
  rIp : U32
  tspi : U16
  ct : Option Nat
  pktRcvd : U32
  inuse : Bool
deriving DecidableEq, Repr

/-- An entry after `memset`. -/
def EspEntry.zero : EspEntry := ⟨0, 0, 0, 0, 0, none, 0, false⟩

abbrev EspTable := Fin MAX_PORTS → EspEntry

/-- The entry at which one of the loops over the table returns. -/
def firstEntry (table : EspTable) (wanted : EspEntry → Bool) : Option (Fin MAX_PORTS) :=
  (List.finRange MAX_PORTS).find? fun idx => wanted (table idx)

variable {table : EspTable} {idx : Fin MAX_PORTS}

theorem firstEntry_some {wanted : EspEntry → Bool}
    (found : firstEntry table wanted = some idx) : wanted (table idx) = true := by
  have holds := List.find?_some (p := fun idx => wanted (table idx)) found
  exact holds

theorem firstEntry_none {wanted : EspEntry → Bool} (missing : firstEntry table wanted = none)
    (idx : Fin MAX_PORTS) :
    wanted (table idx) = false := by
  have all := List.find?_eq_none.mp missing idx (List.mem_finRange idx)
  rwa [Bool.not_eq_true] at all

/-- An ESP packet; `spi` is missing if its header cannot be read. -/
structure EspPacket where
  src : U32
  dst : U32
  spi : Option U32
deriving DecidableEq, Repr

/-! ## Searches -/

def EspEntry.hasSpi (spi : U32) (entry : EspEntry) : Bool := spi == entry.lSpi || spi == entry.rSpi

/-- What `search_esp_entry_by_spi` leaves of the entry it finds. -/
def EspEntry.bySpi (entry : EspEntry) (spi srcIP : U32) : EspEntry :=
  -- l_spi and r_spi may be the same
  if spi = entry.lSpi ∧ srcIP = entry.rIp then { entry with rSpi := spi } else entry

def searchEspEntryBySpi (table : EspTable) (spi srcIP : U32) : Option (Fin MAX_PORTS × EspTable) :=
  (firstEntry table (EspEntry.hasSpi spi)).map fun idx =>
    (idx, Function.update table idx ((table idx).bySpi spi srcIP))

/-- The source is the entry's local host, which has an address of the LAN. -/
def EspEntry.fromLan (entry : EspEntry) (srcIP : U32) : Bool :=
  srcIP == entry.lIp && srcIP.extractLsb' 0 8 == 192

def EspEntry.hasIp (srcIP : U32) (entry : EspEntry) : Bool :=
  entry.fromLan srcIP || (srcIP == entry.rIp && entry.rSpi == 0)

/-- What `search_esp_entry_by_ip` leaves of the entry it finds. -/
def EspEntry.byIp (entry : EspEntry) (packet : EspPacket) (spi : U32) : EspEntry :=
  if entry.fromLan packet.src then
    -- This is a new connection of the same LAN host
    if packet.dst ≠ entry.rIp then { entry with lSpi := spi, rIp := packet.dst, rSpi := 0 }
    else { entry with lSpi := spi }
  else { entry with rSpi := spi }

def searchEspEntryByIp (table : EspTable) (packet : EspPacket) (spi : U32) :
    Option (Fin MAX_PORTS × EspTable) :=
  (firstEntry table (EspEntry.hasIp packet.src)).map fun idx =>
    (idx, Function.update table idx ((table idx).byIp packet spi))

def searchEspEntryByCt (table : EspTable) (ct : Nat) : Option (Fin MAX_PORTS) :=
  firstEntry table fun entry => entry.inuse && entry.ct == some ct

def allocEspEntry (table : EspTable) : Option (Fin MAX_PORTS × EspTable) :=
  (firstEntry table fun entry => !entry.inuse).map fun idx =>
    (idx, Function.update table idx
      { EspEntry.zero with tspi := BitVec.ofNat 16 (idx + TEMP_SPI_START), inuse := true })

/-! ## Packets and connections -/

/-- The entry that `esp_pkt_to_tuple` assigns a packet to. -/
def espEntryFor (table : EspTable) (packet : EspPacket) (spi : U32) :
    Option (Fin MAX_PORTS × EspTable) :=
  match searchEspEntryBySpi table spi packet.src with
  | some found => some found
  | none =>
    match searchEspEntryByIp table packet spi with
    | some found => some found
    | none =>
      (allocEspEntry table).map fun (idx, table) =>
        (idx, Function.update table idx
          { table idx with lSpi := spi, lIp := packet.src, rIp := packet.dst })

/-- `esp_pkt_to_tuple`, with the SPI that goes into both halves of the tuple;
nothing if it returns false. -/
def espPktToTuple (table : EspTable) (packet : EspPacket) : Option U16 × EspTable :=
  match packet.spi with
  | none => (some 0, table)
  | some spi =>
    match espEntryFor table packet spi with
    | none => (none, table)
    | some (idx, table) =>
      (some (table idx).tspi,
        Function.update table idx { table idx with pktRcvd := (table idx).pktRcvd + 1 })

def espNew (table : EspTable) (packet : EspPacket) (ct : Nat) : Bool × EspTable :=
  match packet.spi with
  | none => (false, table)
  | some spi =>
    match searchEspEntryBySpi table spi 0 with
    | none => (false, table)
    | some (idx, table) => (true, Function.update table idx { table idx with ct := some ct })

def espDestroy (table : EspTable) (ct : Nat) : EspTable :=
  match searchEspEntryByCt table ct with
  | none => table
  | some idx => Function.update table idx .zero

inductive EspEvent where
  | packet (packet : EspPacket)
  | create (packet : EspPacket) (ct : Nat)
  | destroy (ct : Nat)
deriving DecidableEq, Repr

def espStep (table : EspTable) : EspEvent → EspTable
  | .packet packet => (espPktToTuple table packet).2
  | .create packet ct => (espNew table packet ct).2
  | .destroy ct => espDestroy table ct

def espReach (events : List EspEvent) : EspTable := events.foldl espStep fun _ => .zero

theorem espReach_append (first second : List EspEvent) :
    espReach (first ++ second) = second.foldl espStep (espReach first) := by
  rw [espReach, List.foldl_append]
  rfl

def espAssigned (table : EspTable) (packet : EspPacket) : Option (Fin MAX_PORTS) :=
  packet.spi.bind fun spi => (espEntryFor table packet spi).map Prod.fst

/-! ## What a packet can do -/

/-- An entry that `esp_pkt_to_tuple` has just allocated. -/
def EspEntry.fresh (idx : Fin MAX_PORTS) (packet : EspPacket) (spi : U32) : EspEntry :=
  { EspEntry.zero with
    tspi := BitVec.ofNat 16 (idx + TEMP_SPI_START)
    inuse := true
    lSpi := spi
    lIp := packet.src
    rIp := packet.dst }

/-- How an entry was found for a packet, and what was written to it. -/
inductive EspFound (table : EspTable) (packet : EspPacket) (spi : U32) (idx : Fin MAX_PORTS) :
    EspEntry → Prop where
  | bySpi (found : firstEntry table (EspEntry.hasSpi spi) = some idx) :
      EspFound table packet spi idx ((table idx).bySpi spi packet.src)
  | byIp (unknown : firstEntry table (EspEntry.hasSpi spi) = none)
      (found : firstEntry table (EspEntry.hasIp packet.src) = some idx) :
      EspFound table packet spi idx ((table idx).byIp packet spi)
  | fresh (unknown : firstEntry table (EspEntry.hasSpi spi) = none)
      (silent : firstEntry table (EspEntry.hasIp packet.src) = none)
      (first : firstEntry table (fun entry => !entry.inuse) = some idx) :
      EspFound table packet spi idx (EspEntry.fresh idx packet spi)

variable {packet : EspPacket}

theorem espEntryFor_found {after : EspTable} {spi : U32}
    (returned : espEntryFor table packet spi = some (idx, after)) :
    ∃ entry, after = Function.update table idx entry ∧ EspFound table packet spi idx entry := by
  unfold espEntryFor searchEspEntryBySpi searchEspEntryByIp allocEspEntry at returned
  cases spiFound : firstEntry table (EspEntry.hasSpi spi) with
  | some place =>
    rw [spiFound] at returned
    obtain ⟨rfl, rfl⟩ := Prod.mk.inj (Option.some.inj returned)
    exact ⟨_, rfl, .bySpi spiFound⟩
  | none =>
    rw [spiFound] at returned
    cases ipFound : firstEntry table (EspEntry.hasIp packet.src) with
    | some place =>
      rw [ipFound] at returned
      obtain ⟨rfl, rfl⟩ := Prod.mk.inj (Option.some.inj returned)
      exact ⟨_, rfl, .byIp spiFound ipFound⟩
    | none =>
      rw [ipFound] at returned
      cases freeFound : firstEntry table (fun entry => !entry.inuse) with
      | none =>
        rw [freeFound] at returned
        cases returned
      | some place =>
        rw [freeFound] at returned
        obtain ⟨rfl, rfl⟩ := Prod.mk.inj (Option.some.inj returned)
        refine ⟨EspEntry.fresh place packet spi, ?_, .fresh spiFound ipFound freeFound⟩
        rw [Function.update_self, Function.update_idem]
        rfl

theorem espPktToTuple_assigned (assigned : espAssigned table packet = some idx) :
    ∃ spi entry, packet.spi = some spi ∧ EspFound table packet spi idx entry ∧
      espPktToTuple table packet = (some entry.tspi,
        Function.update table idx { entry with pktRcvd := entry.pktRcvd + 1 }) := by
  unfold espAssigned at assigned
  unfold espPktToTuple
  cases header : packet.spi with
  | none =>
    rw [header] at assigned
    cases assigned
  | some spi =>
    rw [header] at assigned
    change (espEntryFor table packet spi).map Prod.fst = some idx at assigned
    cases returned : espEntryFor table packet spi with
    | none =>
      rw [returned] at assigned
      cases assigned
    | some result =>
      rw [returned] at assigned
      obtain rfl := Option.some.inj assigned
      obtain ⟨entry, after, found⟩ := espEntryFor_found returned
      refine ⟨spi, entry, rfl, found, ?_⟩
      dsimp only
      rw [returned]
      dsimp only
      rw [after, Function.update_self, Function.update_idem]

theorem espPktToTuple_unassigned
    (unassigned : espAssigned table packet = none) : (espPktToTuple table packet).2 = table := by
  unfold espAssigned at unassigned
  unfold espPktToTuple
  cases header : packet.spi with
  | none => rfl
  | some spi =>
    rw [header] at unassigned
    change (espEntryFor table packet spi).map Prod.fst = none at unassigned
    rw [Option.map_eq_none_iff] at unassigned
    dsimp only
    rw [unassigned]

theorem espNew_found {spi : U32} (ct : Nat) (header : packet.spi = some spi)
    (found : firstEntry table (EspEntry.hasSpi spi) = some idx) :
    (espNew table packet ct).2 =
      Function.update table idx { (table idx).bySpi spi 0 with ct := some ct } := by
  unfold espNew searchEspEntryBySpi
  rw [header]
  dsimp only
  rw [found]
  dsimp only [Option.map_some]
  rw [Function.update_self, Function.update_idem]

theorem espNew_cases (table : EspTable) (packet : EspPacket) (ct : Nat) :
    (espNew table packet ct).2 = table ∨
      ∃ spi idx, packet.spi = some spi ∧ firstEntry table (EspEntry.hasSpi spi) = some idx := by
  unfold espNew searchEspEntryBySpi
  cases header : packet.spi with
  | none => exact Or.inl rfl
  | some spi =>
    dsimp only
    cases found : firstEntry table (EspEntry.hasSpi spi) with
    | none => exact Or.inl rfl
    | some idx => exact Or.inr ⟨spi, idx, rfl, found⟩

end RouterKernel.Tracking
