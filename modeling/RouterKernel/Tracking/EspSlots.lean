import RouterKernel.Tracking.EspSessions

/-!
Contract: what becomes of the entries of `esp_table`.

Owns:
- `resolve_normal_ct` for ESP: the tuple, the search for its connection, the creation of one;
- runs of packets, confirmations and destructions from the empty table;
- the runs in which every entry in use has a connection that exists.

Does not own: how connections are hashed, and what else is done with a connection.
-/

namespace RouterKernel.Tracking

open Foundation

/-! ## Connections -/

/-- The parts of a `struct nf_conntrack_tuple` that differ between ESP tuples. -/
structure EspTuple where
  src : U32
  dst : U32
  srcSpi : U16
  dstSpi : U16
deriving DecidableEq, Repr

/-- `nf_ct_invert_tuple` with `esp_invert_tuple`, which exchanges the hosts and not the SPIs. -/
def EspTuple.invert (tuple : EspTuple) : EspTuple :=
  { tuple with src := tuple.dst, dst := tuple.src }

/-- An ESP connection, known by its address.  It is found by its tuples once it is confirmed. -/
structure EspConn where
  name : Nat
  original : EspTuple
  reply : EspTuple
  confirmed : Bool
deriving DecidableEq, Repr

structure EspSystem where
  table : EspTable
  conns : List EspConn

/-- `__nf_conntrack_find_get`. -/
def findConn (conns : List EspConn) (tuple : EspTuple) : Option EspConn :=
  conns.find? fun ct => ct.confirmed && (ct.original == tuple || ct.reply == tuple)

def espTuple (packet : EspPacket) (spi : U16) : EspTuple := ⟨packet.src, packet.dst, spi, spi⟩

/-- `init_conntrack`; `alloc` is the connection that `__nf_conntrack_alloc` returns, missing if that
or a step before it fails. -/
def initConntrack (system : EspSystem) (packet : EspPacket) (tuple : EspTuple)
    (alloc : Option Nat) : EspSystem :=
  match alloc with
  | none => system
  | some ct =>
    match espNew system.table packet ct with
    -- the connection is freed again
    | (false, table) => { system with table := table }
    | (true, table) => { table := table, conns := ⟨ct, tuple, tuple.invert, false⟩ :: system.conns }

def resolveNormalCt (system : EspSystem) (packet : EspPacket) (alloc : Option Nat) : EspSystem :=
  match espPktToTuple system.table packet with
  | (none, table) => { system with table := table }
  | (some spi, table) =>
    match findConn system.conns (espTuple packet spi) with
    | some _ => { system with table := table }
    | none => initConntrack { system with table := table } packet (espTuple packet spi) alloc

/-- What happens to the table and the connections: a packet; the confirmation of a connection, whose
reply tuple NAT may have changed; the end of a connection. -/
inductive SlotEvent where
  | packet (packet : EspPacket) (alloc : Option Nat)
  | confirm (name : Nat) (reply : EspTuple)
  | destroy (name : Nat)
deriving DecidableEq, Repr

def slotStep (system : EspSystem) : SlotEvent → EspSystem
  | .packet packet alloc => resolveNormalCt system packet alloc
  | .confirm name reply =>
    { system with
      conns := system.conns.map fun ct =>
        if ct.name = name then { ct with reply := reply, confirmed := true } else ct }
  | .destroy name =>
    { table := espDestroy system.table name, conns := system.conns.filter (·.name ≠ name) }

/-- A connection that is allocated is none of those that exist. -/
def Possible (system : EspSystem) : SlotEvent → Prop
  | .packet _ (some name) => ∀ ct ∈ system.conns, ct.name ≠ name
  | .packet _ none => True
  | .confirm _ _ => True
  | .destroy name => ∃ ct ∈ system.conns, ct.name = name

def slotReach (events : List SlotEvent) : EspSystem := events.foldl slotStep ⟨fun _ => .zero, []⟩

theorem slotReach_snoc (events : List SlotEvent) (event : SlotEvent) :
    slotReach (events ++ [event]) = slotStep (slotReach events) event := by
  rw [slotReach, List.foldl_append]
  rfl

/-- Every entry in use has a connection that exists; with no connection left, every entry is free
and the next session gets one. -/
structure SlotsKept (system : EspSystem) : Prop where
  owned : ∀ idx, (system.table idx).inuse = true → ∃ ct ∈ system.conns, (system.table idx).ct =
    some ct.name
  freed : system.conns = [] → (∀ idx, (system.table idx).inuse = false) ∧
    (allocEspEntry system.table).isSome

/-- The packet is the first of a session: the table has neither its SPI nor its host, and the entry
is the first free one. -/
structure EspTakes (table : EspTable) (packet : EspPacket) (idx : Fin MAX_PORTS) : Prop where
  unknown : ∃ spi, packet.spi = some spi ∧ firstEntry table (EspEntry.hasSpi spi) = none
  silent : firstEntry table (EspEntry.hasIp packet.src) = none
  first : firstEntry table (fun entry => !entry.inuse) = some idx

/-- No connection of the packet's hosts has the temporary SPI of the entry, and one is allocated. -/
def EspStarts (system : EspSystem) (packet : EspPacket) (idx : Fin MAX_PORTS) (alloc : Option Nat) :
    Prop :=
  findConn system.conns (espTuple packet (BitVec.ofNat 16 (idx + TEMP_SPI_START))) = none ∧
    alloc.isSome

/-- A packet that takes an entry also starts a connection. -/
def Attended (system : EspSystem) : SlotEvent → Prop
  | .packet packet alloc => ∀ idx, EspTakes system.table packet idx →
    EspStarts system packet idx alloc
  | .confirm _ _ => True
  | .destroy _ => True

/-! ## The entry of a packet -/

section Packets

variable {table : EspTable} {packet : EspPacket} {spi : U32} {idx : Fin MAX_PORTS}
  {entry : EspEntry}

theorem firstEntry_update {wanted : EspEntry → Bool} (holds : wanted entry = true)
    (first : firstEntry table wanted = some idx ∨ firstEntry table wanted = none) :
    firstEntry (Function.update table idx entry) wanted = some idx := by
  have here : wanted (Function.update table idx entry idx) = true := by
    rw [Function.update_self]
    exact holds
  obtain ⟨before, after, places, unwanted⟩ :
      ∃ before after, List.finRange MAX_PORTS = before ++ idx :: after ∧
      ∀ other ∈ before, wanted (table other) = false ∧ other ≠ idx := by
    rcases first with found | missing
    · obtain ⟨hit, before, after, places, misses⟩ := List.find?_eq_some_iff_append.mp found
      refine ⟨before, after, places, ?_⟩
      intro other earlier
      have miss : wanted (table other) = false := by simpa using misses other earlier
      refine ⟨miss, ?_⟩
      rintro rfl
      rw [miss] at hit
      cases hit
    · obtain ⟨before, after, places, absent⟩ := List.eq_append_cons_of_mem (List.mem_finRange idx)
      exact ⟨before, after, places, fun other earlier =>
        ⟨firstEntry_none missing other, fun same => absent (same ▸ earlier)⟩⟩
  refine List.find?_eq_some_iff_append.mpr ⟨here, before, after, places, ?_⟩
  intro other earlier
  rw [Function.update_of_ne (unwanted other earlier).2, (unwanted other earlier).1]
  rfl

section

variable (found : EspFound table packet spi idx entry)

include found

theorem EspFound.hasSpi : entry.hasSpi spi = true := by
  cases found with
  | bySpi found =>
    have holds := firstEntry_some found
    unfold EspEntry.bySpi
    split_ifs
    · simp [EspEntry.hasSpi]
    · exact holds
  | byIp unknown found =>
    have given := (table idx).byIp_spi packet spi
    simp only [EspEntry.hasSpi, Bool.or_eq_true, beq_iff_eq]
    exact given.imp Eq.symm Eq.symm
  | fresh unknown silent first => simp [EspEntry.hasSpi, EspEntry.fresh]

theorem EspFound.firstEntry_update (count : U32) :
    firstEntry (Function.update table idx { entry with pktRcvd := count }) (EspEntry.hasSpi spi) =
      some idx := by
  have holds : EspEntry.hasSpi spi { entry with pktRcvd := count } = true := found.hasSpi
  apply Tracking.firstEntry_update holds
  cases found with
  | bySpi found => exact Or.inl found
  | byIp unknown found => exact Or.inr unknown
  | fresh unknown silent first => exact Or.inr unknown

theorem EspFound.kept (used : (table idx).inuse = true) :
    entry.inuse = true ∧ entry.ct = (table idx).ct := by
  cases found with
  | bySpi found =>
    unfold EspEntry.bySpi
    split_ifs <;> exact ⟨used, rfl⟩
  | byIp unknown found =>
    unfold EspEntry.byIp
    split_ifs <;> exact ⟨used, rfl⟩
  | fresh unknown silent first =>
    have free := firstEntry_some first
    rw [used] at free
    cases free

theorem EspFound.takes (header : packet.spi = some spi) (free : (table idx).inuse = false)
    (used : entry.inuse = true) : EspTakes table packet idx := by
  cases found with
  | bySpi found =>
    rw [EspEntry.bySpi_inuse, free] at used
    cases used
  | byIp unknown found =>
    rw [EspEntry.byIp_inuse, free] at used
    cases used
  | fresh unknown silent first => exact ⟨⟨spi, header, unknown⟩, silent, first⟩

theorem EspFound.eq_fresh (header : packet.spi = some spi) {place : Fin MAX_PORTS}
    (takes : EspTakes table packet place) :
      idx = place ∧ entry = EspEntry.fresh place packet spi := by
  obtain ⟨⟨other, same, missing⟩, quiet, free⟩ := takes
  obtain rfl := Option.some.inj (header.symm.trans same)
  cases found with
  | bySpi found => cases missing.symm.trans found
  | byIp unknown found => cases quiet.symm.trans found
  | fresh unknown silent first =>
    obtain rfl := Option.some.inj (free.symm.trans first)
    exact ⟨rfl, rfl⟩

end

theorem EspTakes.assigned (takes : EspTakes table packet idx) :
    espAssigned table packet = some idx := by
  obtain ⟨⟨spi, header, unknown⟩, silent, first⟩ := takes
  simp [espAssigned, espEntryFor, searchEspEntryBySpi, searchEspEntryByIp, allocEspEntry, header,
      unknown,
    silent, first]

end Packets

/-! ## One event -/

/-- What `resolve_normal_ct` does to the system. -/
inductive Resolved (system : EspSystem) (packet : EspPacket) (alloc : Option Nat) : EspSystem → Prop
  | unassigned (unassigned : espAssigned system.table packet = none) :
    Resolved system packet alloc system
  | joined {spi : U32} {idx : Fin MAX_PORTS} {entry : EspEntry}
      (header : packet.spi = some spi) (found : EspFound system.table packet spi idx entry)
      (without : ∀ place, EspTakes system.table packet place →
        ¬EspStarts system packet place alloc) :
      Resolved system packet alloc
        { system with
          table := Function.update system.table idx { entry with pktRcvd := entry.pktRcvd + 1 } }
  | created {spi : U32} {idx : Fin MAX_PORTS} {entry : EspEntry} {ct : EspConn}
      (found : EspFound system.table packet spi idx entry) (allocated : alloc = some ct.name)
      (starts : ∀ place, EspTakes system.table packet place → EspStarts system packet place alloc) :
      Resolved system packet alloc
        { table := Function.update system.table idx
            { ({ entry with pktRcvd := entry.pktRcvd + 1 } : EspEntry).bySpi spi 0 with
              ct := some ct.name }
          conns := ct :: system.conns }

theorem espNew_created {table : EspTable} {packet : EspPacket} {spi : U32} {idx : Fin MAX_PORTS}
    (ct : Nat)
    (header : packet.spi = some spi) (found : firstEntry table (EspEntry.hasSpi spi) = some idx) :
    espNew table packet ct =
      (true, Function.update table idx { (table idx).bySpi spi 0 with ct := some ct }) := by
  have written := espNew_found ct header found
  have returned : (espNew table packet ct).1 = true := by
    unfold espNew searchEspEntryBySpi
    rw [header]
    dsimp only
    rw [found]
    rfl
  exact Prod.ext returned written

variable {system : EspSystem} {event : SlotEvent}

theorem resolveNormalCt_unassigned {packet : EspPacket} (alloc : Option Nat)
    (unassigned : espAssigned system.table packet = none) :
      resolveNormalCt system packet alloc = system := by
  unfold resolveNormalCt espPktToTuple
  cases header : packet.spi with
  | none =>
    -- a packet without a header has a tuple, and `esp_new` refuses it
    dsimp only
    cases findConn system.conns (espTuple packet 0) with
    | some ct => rfl
    | none =>
      cases alloc with
      | none => rfl
      | some name =>
        rw [initConntrack, espNew, header]
  | some spi =>
    have full : espEntryFor system.table packet spi = none := by
      rw [espAssigned, header, Option.bind_some, Option.map_eq_none_iff] at unassigned
      exact unassigned
    dsimp only
    rw [full]

theorem resolveNormalCt_resolved (system : EspSystem) (packet : EspPacket) (alloc : Option Nat) :
    Resolved system packet alloc (resolveNormalCt system packet alloc) := by
  cases assigned : espAssigned system.table packet with
  | none =>
    rw [resolveNormalCt_unassigned alloc assigned]
    exact .unassigned assigned
  | some idx =>
    obtain ⟨spi, entry, header, found, result⟩ := espPktToTuple_assigned assigned
    unfold resolveNormalCt
    rw [result]
    dsimp only
    cases matched : findConn system.conns (espTuple packet entry.tspi) with
    | some ct =>
      refine .joined header found fun place takes => ?_
      obtain ⟨rfl, rfl⟩ := found.eq_fresh header takes
      rintro ⟨missing, -⟩
      cases matched.symm.trans missing
    | none =>
      cases alloc with
      | none => exact .joined header found fun _ _ created => by cases created.2
      | some name =>
        have place := found.firstEntry_update (entry.pktRcvd + 1)
        dsimp only [initConntrack]
        rw [espNew_created name header place, Function.update_self, Function.update_idem]
        refine @Resolved.created system packet (some name) spi idx entry
          ⟨name, espTuple packet entry.tspi, (espTuple packet entry.tspi).invert, false⟩ found rfl
          fun place takes => ⟨?_, rfl⟩
        obtain ⟨rfl, rfl⟩ := found.eq_fresh header takes
        exact matched

/-- Every entry in use has a connection that exists, and no two have the same. -/
structure SlotsOwned (system : EspSystem) : Prop where
  owned : ∀ idx, (system.table idx).inuse = true → ∃ ct ∈ system.conns, (system.table idx).ct =
    some ct.name
  apart : ∀ first second, (system.table first).inuse = true → (system.table second).inuse = true →
    (system.table first).ct = (system.table second).ct → first = second

theorem SlotsOwned.kept (slots : SlotsOwned system) : SlotsKept system := by
  refine ⟨slots.owned, ?_⟩
  intro none
  have free (idx : Fin MAX_PORTS) : (system.table idx).inuse = false := by
    rw [← Bool.not_eq_true]
    intro used
    obtain ⟨ct, listed, -⟩ := slots.owned idx used
    rw [none] at listed
    cases listed
  refine ⟨free, ?_⟩
  rw [allocEspEntry, Option.isSome_map, firstEntry, List.find?_isSome]
  exact ⟨0, List.mem_finRange 0, by rw [free 0]; rfl⟩

/-- An entry in use is written, and its connection is kept or is one that no other entry has. -/
theorem SlotsOwned.update (slots : SlotsOwned system) {idx : Fin MAX_PORTS} {entry : EspEntry}
    {conns : List EspConn} (more : ∀ ct ∈ system.conns, ct ∈ conns)
    (here : entry.inuse = true → ∃ ct ∈ conns, entry.ct = some ct.name ∧
      ∀ other, other ≠ idx → (system.table other).inuse = true → (system.table other).ct ≠
        some ct.name) :
    SlotsOwned ⟨Function.update system.table idx entry, conns⟩ := by
  constructor
  · intro place used
    by_cases same : place = idx
    · subst same
      simp only [Function.update_self] at used ⊢
      obtain ⟨ct, listed, mine, -⟩ := here used
      exact ⟨ct, listed, mine⟩
    · simp only [Function.update_of_ne same] at used ⊢
      obtain ⟨ct, listed, mine⟩ := slots.owned place used
      exact ⟨ct, more ct listed, mine⟩
  · intro first second usedFirst usedSecond shared
    by_cases sameFirst : first = idx
    · by_cases sameSecond : second = idx
      · exact sameFirst.trans sameSecond.symm
      · subst sameFirst
        simp only [Function.update_self, Function.update_of_ne sameSecond]
          at usedFirst usedSecond shared
        obtain ⟨ct, -, mine, alone⟩ := here usedFirst
        exact absurd (shared.symm.trans mine) (alone second sameSecond usedSecond)
    · by_cases sameSecond : second = idx
      · subst sameSecond
        simp only [Function.update_self, Function.update_of_ne sameFirst]
          at usedFirst usedSecond shared
        obtain ⟨ct, -, mine, alone⟩ := here usedSecond
        exact absurd (shared.trans mine) (alone first sameFirst usedFirst)
      · simp only [Function.update_of_ne sameFirst, Function.update_of_ne sameSecond]
          at usedFirst usedSecond shared
        exact slots.apart first second usedFirst usedSecond shared

theorem SlotsOwned.destroy (slots : SlotsOwned system) (name : Nat) :
    SlotsOwned ⟨espDestroy system.table name, system.conns.filter (·.name ≠ name)⟩ := by
  -- no entry in use still has the connection
  have unowned : ∀ idx, (espDestroy system.table name idx).inuse = true →
      (system.table idx).inuse = true ∧ espDestroy system.table name idx = system.table idx ∧
        (system.table idx).ct ≠ some name := by
    intro idx used
    cases search : searchEspEntryByCt system.table name with
    | none =>
      have misses := firstEntry_none search idx
      rw [espDestroy, search] at used ⊢
      refine ⟨used, rfl, ?_⟩
      intro mine
      simp [used, mine] at misses
    | some place =>
      have hit := firstEntry_some search
      rw [Bool.and_eq_true, beq_iff_eq] at hit
      have differs : idx ≠ place := by
        rintro rfl
        rw [espDestroy, search] at used
        simp [EspEntry.zero] at used
      rw [espDestroy, search] at used ⊢
      simp only [Function.update_of_ne differs] at used ⊢
      refine ⟨used, trivial, ?_⟩
      intro mine
      exact differs (slots.apart idx place used hit.1 (mine.trans hit.2.symm))
  constructor
  · intro idx used
    obtain ⟨before, same, other⟩ := unowned idx used
    obtain ⟨ct, listed, mine⟩ := slots.owned idx before
    refine ⟨ct, List.mem_filter.mpr ⟨listed, ?_⟩, ?_⟩
    · rw [decide_eq_true_eq]
      rintro rfl
      exact other mine
    · rw [← mine]
      exact congrArg EspEntry.ct same
  · intro first second usedFirst usedSecond shared
    obtain ⟨beforeFirst, sameFirst, -⟩ := unowned first usedFirst
    obtain ⟨beforeSecond, sameSecond, -⟩ := unowned second usedSecond
    simp only [sameFirst, sameSecond] at shared
    exact slots.apart first second beforeFirst beforeSecond shared

theorem SlotsOwned.step (slots : SlotsOwned system) (possible : Possible system event)
    (attended : Attended system event) :
    SlotsOwned (slotStep system event) := by
  cases event with
  | packet packet alloc =>
    have resolved := resolveNormalCt_resolved system packet alloc
    change SlotsOwned (resolveNormalCt system packet alloc)
    generalize resolveNormalCt system packet alloc = after at resolved
    cases resolved with
    | unassigned unassigned => exact slots
    | @joined spi idx entry header found without =>
      apply slots.update (fun ct listed => listed)
      intro used
      by_cases before : (system.table idx).inuse = true
      · have kept := found.kept before
        obtain ⟨ct, listed, mine⟩ := slots.owned idx before
        refine ⟨ct, listed, kept.2.trans mine, ?_⟩
        intro other differs otherUsed shared
        exact differs (slots.apart other idx otherUsed before (shared.trans mine.symm))
      · have takes := found.takes header (by simpa using before) used
        exact absurd (attended idx takes) (without idx takes)
    | @created spi idx entry ct found allocated starts =>
      apply slots.update (fun other listed => List.mem_cons_of_mem ct listed)
      intro used
      refine ⟨ct, List.mem_cons_self, rfl, ?_⟩
      intro other differs otherUsed shared
      obtain ⟨owner, listed, mine⟩ := slots.owned other otherUsed
      have unused : ∀ ct' ∈ system.conns, ct'.name ≠ ct.name := by
        rw [allocated] at possible
        exact possible
      exact unused owner listed (Option.some.inj (mine.symm.trans shared))
  | confirm name reply =>
    refine ⟨?_, slots.apart⟩
    intro idx used
    obtain ⟨ct, listed, mine⟩ := slots.owned idx used
    refine ⟨_, List.mem_map_of_mem listed, mine.trans ?_⟩
    split_ifs <;> rfl
  | destroy name => exact slots.destroy name

/-! ## Runs -/

theorem split_of_prefix {events part : List SlotEvent} (within : part ++ [event] <+: events) :
    ∃ place : Fin events.length, part = events.take place ∧ event = events.get place := by
  obtain ⟨rest, rfl⟩ := within
  refine ⟨⟨part.length, by simp⟩, ?_, ?_⟩
  · simp
  · simp

theorem slotsOwned_reach {events : List SlotEvent}
    (possible : ∀ part event, part ++ [event] <+: events → Possible (slotReach part) event)
    (attended : ∀ part event, part ++ [event] <+: events → Attended (slotReach part) event) :
    SlotsOwned (slotReach events) := by
  induction events using List.reverseRecOn with
  | nil =>
    constructor
    · intro idx used
      cases used
    · intro first second used
      cases used
  | append_singleton events event ih =>
    rw [slotReach_snoc]
    have before := ih
      (fun part earlier within => possible part earlier (within.trans (List.prefix_append _ _)))
      (fun part earlier within => attended part earlier (within.trans (List.prefix_append _ _)))
    exact before.step (possible events event List.prefix_rfl)
      (attended events event List.prefix_rfl)

theorem attended_of_kept (kept : SlotsKept (slotStep system event)) : Attended system event := by
  cases event with
  | packet packet alloc =>
    intro place takes
    by_contra dropped
    have resolved := resolveNormalCt_resolved system packet alloc
    change SlotsKept (resolveNormalCt system packet alloc) at kept
    generalize resolveNormalCt system packet alloc = after at resolved kept
    cases resolved with
    | unassigned unassigned => cases unassigned.symm.trans takes.assigned
    | @joined spi idx entry header found without =>
      obtain ⟨rfl, rfl⟩ := found.eq_fresh header takes
      obtain ⟨ct, -, mine⟩ := kept.owned idx (by simp only [Function.update_self]; rfl)
      simp only [Function.update_self] at mine
      cases mine
    | created found allocated starts => exact dropped (starts place takes)
  | confirm name reply => trivial
  | destroy name => trivial

end RouterKernel.Tracking
