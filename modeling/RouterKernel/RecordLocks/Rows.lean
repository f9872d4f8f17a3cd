import RouterKernel.RecordLocks.Moves

/-!
Contract: the locks of one owner while `__posix_lock_file` works on them.

Owns:
- `Row`, the shape of an owner's locks: ascending, disjoint, merged where possible;
- `HoldsAt`, which bytes an owner has locked and how, and `Overwritten`, the same once a
  request is in force;
- `Placed`, where a request stands among the locks, and what each kind of move keeps of it;
- the rows that trimming and inserting lead to.

Does not own: the list of the whole inode (`RecordLocks.ByteMap`).
-/

namespace RouterKernel.RecordLocks

/-- A range as `fcntl` builds it. -/
structure Proper (fl : FileLock) : Prop where
  nonneg : 0 ≤ fl.flStart
  order : fl.flStart ≤ fl.flEnd
  bounded : fl.flEnd ≤ OFFSET_MAX

structure Held (owner : Nat) (fl : FileLock) : Prop where
  posix : fl.kind = .posix
  owned : fl.flOwner = owner
  locks : fl.flType ≠ .unlck
  proper : Proper fl

def Covers (fl : FileLock) (byte : Int) : Prop := fl.flStart ≤ byte ∧ byte ≤ fl.flEnd

/-- One lock ends in front of another, and does not touch it if it is of the same type. -/
def Before (first second : FileLock) : Prop :=
  first.flEnd < second.flStart ∧ (first.flType = second.flType → first.flEnd + 1 < second.flStart)

structure Row (owner : Nat) (locks : List FileLock) : Prop where
  held : ∀ fl ∈ locks, Held owner fl
  apart : locks.Pairwise Before

def HoldsAt (locks : List FileLock) (byte : Int) (type : LockType) : Prop :=
  ∃ fl ∈ locks, Covers fl byte ∧ fl.flType = type

/-- A byte is locked once the request is in force. -/
def Overwritten (request : FileLock) (locks : List FileLock) (byte : Int) (type : LockType) :
    Prop :=
  (Covers request byte ∧ request.flType ≠ .unlck ∧ type = request.flType) ∨
    (¬Covers request byte ∧ HoldsAt locks byte type)

section Basics

variable {fl first second : FileLock} {left right locks : List FileLock} {byte : Int}
  {type : LockType}

@[simp] theorem holdsAt_nil : HoldsAt [] byte type ↔ False := by
  simp [HoldsAt]

@[simp] theorem holdsAt_cons :
    HoldsAt (fl :: locks) byte type ↔ (Covers fl byte ∧ fl.flType = type) ∨
      HoldsAt locks byte type := by
  simp [HoldsAt]

@[simp] theorem holdsAt_append :
    HoldsAt (left ++ right) byte type ↔ HoldsAt left byte type ∨ HoldsAt right byte type := by
  simp [HoldsAt, or_and_right, exists_or]

theorem loff_of_range {value : Int} (low : -1 ≤ value) (high : value ≤ OFFSET_MAX) :
    loff value = value := by
  rw [OFFSET_MAX] at high
  exact Int.bmod_eq_of_le (by omega) (by omega)

theorem Proper.loff_pred (proper : Proper fl) : loff (fl.flStart - 1) = fl.flStart - 1 := by
  have := proper.nonneg
  have := proper.order
  have := proper.bounded
  exact loff_of_range (by omega) (by omega)

theorem Before.of_lt (order : first.flEnd < second.flStart)
    (differ : first.flType ≠ second.flType) :
    Before first second :=
  ⟨order, fun same => absurd same differ⟩

theorem Before.of_gap (gap : first.flEnd + 1 < second.flStart) : Before first second :=
  ⟨by omega, fun _ => gap⟩

end Basics

/-- A lock of another type that begins in front of the request and ends in it. -/
structure Cut (fl request : FileLock) : Prop where
  differ : fl.flType ≠ request.flType
  begins : fl.flStart < request.flStart
  reaches : request.flStart ≤ fl.flEnd
  ends : fl.flEnd ≤ request.flEnd

/-- Where the request stands: behind the locks in `front`, over the end of those in `lefts`, and
not yet compared with those in `rest`.  What is locked once it is in force is `map`. -/
structure Placed (owner : Nat) (map : Int → LockType → Prop) (request : FileLock)
    (front lefts rest : List FileLock) : Prop where
  row : Row owner (front ++ lefts ++ rest)
  proper : Proper request
  front_before : ∀ fl ∈ front, Before fl request
  cut : ∀ fl ∈ lefts, Cut fl request
  map_iff : ∀ byte type, Overwritten request (front ++ lefts ++ rest) byte type ↔ map byte type

namespace Placed

variable {owner : Nat} {map : Int → LockType → Prop} {request fl : FileLock}
  {front lefts rest : List FileLock}

section

variable (placed : Placed owner map request front lefts (fl :: rest))

include placed

theorem head_held : Held owner fl :=
  placed.row.held fl (by simp)

theorem head_before : ∀ later ∈ rest, Before fl later := by
  have apart := placed.row.apart
  rw [List.pairwise_append] at apart
  exact (List.pairwise_cons.mp apart.2.1).1

theorem front_before_head : ∀ earlier ∈ front ++ lefts, Before earlier fl := fun earlier member =>
  (List.pairwise_append.mp placed.row.apart).2.2 earlier member fl List.mem_cons_self

end

theorem start_lt_of_cut (placed : Placed owner map request front lefts rest) (some : lefts ≠ []) :
    ∀ later ∈ rest, request.flStart < later.flStart := by
  intro later member
  obtain ⟨left, others, rfl⟩ := List.exists_cons_of_ne_nil some
  have cut := placed.cut left List.mem_cons_self
  have before := (List.pairwise_append.mp placed.row.apart).2.2 left (by simp) later member
  exact lt_of_le_of_lt cut.reaches before.1

theorem skip (placed : Placed owner map request front [] (fl :: rest))
    (before : Before fl request) :
    Placed owner map request (front ++ [fl]) [] rest := by
  have same : front ++ [fl] ++ [] ++ rest = front ++ [] ++ fl :: rest := by simp
  refine ⟨same ▸ placed.row, placed.proper, ?_, by simp, same ▸ placed.map_iff⟩
  exact List.forall_mem_append.mpr ⟨placed.front_before, List.forall_mem_singleton.mpr before⟩

theorem below (placed : Placed owner map request front [] (fl :: rest)) (cut : Cut fl request) :
    Placed owner map request front [fl] rest := by
  have same : front ++ [fl] ++ rest = front ++ [] ++ fl :: rest := by simp
  exact ⟨same ▸ placed.row, placed.proper, placed.front_before, List.forall_mem_singleton.mpr cut,
    same ▸ placed.map_iff⟩

section

variable (placed : Placed owner map request front lefts (fl :: rest))

include placed

theorem row_tail : Row owner (front ++ lefts ++ rest) := by
  have part : (front ++ lefts ++ rest).Sublist (front ++ lefts ++ fl :: rest) :=
    (List.Sublist.refl _).append (List.sublist_cons_self fl rest)
  exact ⟨fun other member => placed.row.held other (part.subset member),
    placed.row.apart.sublist part⟩

theorem inside (begins : request.flStart ≤ fl.flStart) (ends : fl.flEnd ≤ request.flEnd) :
    Placed owner map request front lefts rest := by
  refine ⟨placed.row_tail, placed.proper, placed.front_before, placed.cut, fun byte type => ?_⟩
  rw [← placed.map_iff, Overwritten, Overwritten]
  refine or_congr_right (and_congr_right fun out => ?_)
  have away : ¬Covers fl byte := fun covers => out ⟨begins.trans covers.1, covers.2.trans ends⟩
  simp [away]

theorem merge {merged : FileLock} (same : request.flType = fl.flType)
    (reaches : request.flStart - 1 ≤ fl.flEnd)
    (begins : fl.flStart - 1 ≤ request.flEnd) (typeEq : merged.flType = request.flType)
    (startEq : merged.flStart = min request.flStart fl.flStart)
    (endEq : merged.flEnd = max request.flEnd fl.flEnd) :
    Placed owner map merged front lefts rest := by
  have proper := placed.proper
  have held := placed.head_held
  have order := proper.order
  have flOrder := held.proper.order
  refine ⟨placed.row_tail, ⟨?_, ?_, ?_⟩, ?_, ?_, fun byte type => ?_⟩
  · have := proper.nonneg
    have := held.proper.nonneg
    omega
  · omega
  · have := proper.bounded
    have := held.proper.bounded
    omega
  · intro earlier member
    have toRequest := placed.front_before earlier member
    have toLock := placed.front_before_head earlier (List.mem_append_left _ member)
    refine ⟨?_, fun sameType => ?_⟩
    · have := toRequest.1
      have := toLock.1
      omega
    · have := toRequest.2 (sameType.trans typeEq)
      have := toLock.2 ((sameType.trans typeEq).trans same)
      omega
  · intro left member
    have cut := placed.cut left member
    have toLock := (placed.front_before_head left (List.mem_append_right _ member)).1
    have := cut.begins
    have := cut.reaches
    have := cut.ends
    exact ⟨typeEq ▸ cut.differ, by omega, by omega, by omega⟩
  · -- a byte of the union is in the request or in the lock, since they touch
    rw [← placed.map_iff, Overwritten, Overwritten, typeEq]
    have union : Covers merged byte ↔ Covers request byte ∨ Covers fl byte := by
      rw [Covers, Covers, Covers, startEq, endEq]
      omega
    have locks := held.locks
    by_cases inRequest : Covers request byte
    · simp [inRequest, union]
    by_cases inLock : Covers fl byte
    · have others : ¬HoldsAt (front ++ lefts ++ rest) byte type := by
        rintro ⟨other, member, covers, _⟩
        rw [Covers] at covers inLock
        rcases List.mem_append.mp member with earlier | later
        · have := (placed.front_before_head other earlier).1
          omega
        · have := (placed.head_before other later).1
          omega
      simp only [holdsAt_append, not_or] at others
      simp only [union, inRequest, inLock, holdsAt_append, holdsAt_cons, others, not_true,
          not_false_iff,
        true_and, false_and, or_false, false_or, or_true, and_false, ← same]
      rw [same]
      constructor
      · rintro ⟨_, rfl⟩
        rfl
      · intro is
        exact ⟨locks, is.symm⟩
    · simp [union, inRequest, inLock]

end

end Placed

/-! ## The row that results -/

def trimEnd (request fl : FileLock) : FileLock :=
  ⟨fl.id, fl.kind, fl.flOwner, fl.flType, fl.flStart, request.flStart - 1⟩

def trimStart (request fl : FileLock) : FileLock :=
  ⟨fl.id, fl.kind, fl.flOwner, fl.flType, request.flEnd + 1, fl.flEnd⟩

/-- The locks that stand for the request in the list: none for an unlock, else one. -/
structure Stands (owner : Nat) (request : FileLock) (mid : List FileLock) : Prop where
  held : ∀ fl ∈ mid, Held owner fl
  like : ∀ fl ∈ mid, fl.flType = request.flType ∧ fl.flStart = request.flStart ∧
    fl.flEnd = request.flEnd
  single : mid.Pairwise Before
  holds : ∀ byte type, HoldsAt mid byte type ↔ Covers request byte ∧ request.flType ≠ .unlck ∧
    type = request.flType

theorem stands_unlock {owner : Nat} {request : FileLock} (unlock : request.flType = .unlck) :
    Stands owner request [] :=
  ⟨by simp, by simp, List.Pairwise.nil, by simp [unlock]⟩

theorem stands_lock {owner : Nat} {request fl : FileLock} (held : Held owner fl)
    (typeEq : fl.flType = request.flType) (startEq : fl.flStart = request.flStart)
    (endEq : fl.flEnd = request.flEnd) : Stands owner request [fl] := by
  refine ⟨List.forall_mem_singleton.mpr held,
      List.forall_mem_singleton.mpr ⟨typeEq, startEq, endEq⟩,
    List.pairwise_singleton _ _, fun byte type => ?_⟩
  have locks : request.flType ≠ .unlck := typeEq ▸ held.locks
  simp only [holdsAt_cons, holdsAt_nil, or_false, Covers, startEq, endEq, typeEq, locks, ne_eq,
    not_false_iff, true_and]
  exact and_congr_right fun _ => eq_comm

/-- A row around a request: locks in front of it, at most a piece on each side that touches it
and is of another type, and locks behind it. -/
theorem row_assemble {owner : Nat} {request : FileLock} {front lows mid highs tail : List FileLock}
    (frontRow : Row owner (front ++ lows)) (tailRow : Row owner (highs ++ tail))
    (proper : Proper request)
    (stands : Stands owner request mid) (frontBefore : ∀ fl ∈ front, Before fl request)
    (lowEnds : ∀ fl ∈ lows, fl.flEnd = request.flStart - 1 ∧ fl.flType ≠ request.flType)
    (highBegins : ∀ fl ∈ highs, fl.flStart = request.flEnd + 1 ∧ fl.flType ≠ request.flType)
    (tailBehind : ∀ fl ∈ tail, Before request fl) :
    Row owner (front ++ lows ++ mid ++ (highs ++ tail)) := by
  have order := proper.order
  refine ⟨List.forall_mem_append.mpr ⟨List.forall_mem_append.mpr ⟨frontRow.held, stands.held⟩,
      tailRow.held⟩,
    List.pairwise_append.mpr ⟨List.pairwise_append.mpr ⟨frontRow.apart, stands.single, ?_⟩,
      tailRow.apart, ?_⟩⟩
  · intro first member second inMid
    obtain ⟨typeEq, startEq, _⟩ := stands.like second inMid
    rcases List.mem_append.mp member with inFront | inLow
    · have before := frontBefore first inFront
      rw [Before, startEq, typeEq]
      exact before
    · obtain ⟨endEq, differ⟩ := lowEnds first inLow
      exact .of_lt (by omega) (typeEq ▸ differ)
  · -- whatever ends below the request's end, against what begins above it
    have behind : ∀ second ∈ highs ++ tail, request.flEnd < second.flStart := by
      refine List.forall_mem_append.mpr ⟨fun second inHigh => ?_, fun second inTail =>
        (tailBehind second inTail).1⟩
      have := (highBegins second inHigh).1
      omega
    refine List.forall_mem_append.mpr ⟨List.forall_mem_append.mpr ⟨?_, ?_⟩, ?_⟩
    · intro first inFront second member
      have := (frontBefore first inFront).1
      have := behind second member
      exact .of_gap (by omega)
    · intro first inLow second member
      have := (lowEnds first inLow).1
      have := behind second member
      exact .of_gap (by omega)
    · intro first inMid second member
      obtain ⟨typeEq, _, endEq⟩ := stands.like first inMid
      rcases List.mem_append.mp member with inHigh | inTail
      · have high := highBegins second inHigh
        exact .of_lt (by omega) (typeEq ▸ high.2.symm)
      · have before := tailBehind second inTail
        rw [Before, endEq, typeEq]
        exact before

/-- The row of an owner, with what it locks. -/
structure Settled (owner : Nat) (map : Int → LockType → Prop) (locks : List FileLock) : Prop where
  row : Row owner locks
  map_iff : ∀ byte type, HoldsAt locks byte type ↔ map byte type

namespace Placed

variable {owner : Nat} {map : Int → LockType → Prop} {request fl : FileLock}
  {front lefts rest mid : List FileLock}

section

variable (placed : Placed owner map request front lefts rest)

include placed

theorem held_trimEnd (held : Held owner fl)
    (begins : fl.flStart < request.flStart) : Held owner (trimEnd request fl) := by
  have := held.proper.nonneg
  have := placed.proper.order
  have := placed.proper.bounded
  exact ⟨held.posix, held.owned, held.locks, ‹_›,
    by simp only [trimEnd]; omega, by simp only [trimEnd]; omega⟩

theorem held_trimStart (held : Held owner fl)
    (reaches : request.flEnd < fl.flEnd) : Held owner (trimStart request fl) := by
  have := placed.proper.nonneg
  have := placed.proper.order
  exact ⟨held.posix, held.owned, held.locks,
      by simp only [trimStart]; omega, by simp only [trimStart]; omega,
    held.proper.bounded⟩

theorem front_row : Row owner (front ++ lefts.map (trimEnd request)) := by
  obtain ⟨apart, _, _⟩ := List.pairwise_append.mp placed.row.apart
  obtain ⟨apartFront, apartLefts, between⟩ := List.pairwise_append.mp apart
  refine ⟨List.forall_mem_append.mpr ⟨fun fl member => placed.row.held fl (by simp [member]), ?_⟩,
    List.pairwise_append.mpr ⟨apartFront, List.pairwise_map.mpr ?_, ?_⟩⟩
  · refine List.forall_mem_map.mpr fun fl member => ?_
    exact placed.held_trimEnd (placed.row.held fl (by simp [member])) (placed.cut fl member).begins
  · -- two locks cannot both be cut by the request
    refine apartLefts.imp_of_mem fun {first second} inFirst inSecond before => ?_
    have := (placed.cut first inFirst).reaches
    have := (placed.cut second inSecond).begins
    have := before.1
    omega
  · intro first inFront
    refine List.forall_mem_map.mpr fun left member => ?_
    exact between first inFront left member

theorem low_ends : ∀ fl ∈ lefts.map (trimEnd request), fl.flEnd = request.flStart - 1 ∧
    fl.flType ≠ request.flType :=
  List.forall_mem_map.mpr fun left member => ⟨rfl, (placed.cut left member).differ⟩

theorem holdsAt_front (byte : Int) (type : LockType) :
    HoldsAt (front ++ lefts.map (trimEnd request)) byte type ↔
      ¬Covers request byte ∧ HoldsAt (front ++ lefts) byte type := by
  rw [holdsAt_append, holdsAt_append, and_or_left]
  refine or_congr ?_ ?_
  · constructor
    · rintro ⟨fl, member, covers, is⟩
      refine ⟨fun inRequest => ?_, fl, member, covers, is⟩
      have := (placed.front_before fl member).1
      rw [Covers] at covers inRequest
      omega
    · exact fun held => held.2
  · constructor
    · rintro ⟨piece, member, covers, is⟩
      obtain ⟨left, inLefts, rfl⟩ := List.mem_map.mp member
      have := (placed.cut left inLefts).reaches
      simp only [Covers, trimEnd] at covers
      refine ⟨fun inRequest => ?_, left, inLefts, ⟨covers.1, by omega⟩, is⟩
      rw [Covers] at inRequest
      omega
    · rintro ⟨out, left, inLefts, covers, is⟩
      refine ⟨trimEnd request left, List.mem_map_of_mem inLefts, ?_, is⟩
      have := (placed.cut left inLefts).ends
      simp only [Covers, trimEnd] at covers out ⊢
      omega

theorem settled_beyond (beyond : ∀ fl ∈ rest, Before request fl)
    (stands : Stands owner request mid) :
    Settled owner map (front ++ lefts.map (trimEnd request) ++ mid ++ rest) := by
  have tailRow : Row owner ([] ++ rest) :=
    ⟨fun fl member => placed.row.held fl (by simp [List.nil_append] at member; simp [member]),
      (List.pairwise_append.mp placed.row.apart).2.1⟩
  refine ⟨row_assemble placed.front_row tailRow placed.proper stands placed.front_before
      placed.low_ends
    (by simp) beyond, fun byte type => ?_⟩
  rw [← placed.map_iff, Overwritten, holdsAt_append, holdsAt_append, placed.holdsAt_front,
    stands.holds]
  have tail : HoldsAt rest byte type → ¬Covers request byte := by
    rintro ⟨fl, member, covers, _⟩ inRequest
    have := (beyond fl member).1
    rw [Covers] at covers inRequest
    omega
  have whole : HoldsAt (front ++ lefts ++ rest) byte type ↔
      HoldsAt (front ++ lefts) byte type ∨ HoldsAt rest byte type := holdsAt_append
  rw [whole]
  by_cases inRequest : Covers request byte
  · have none : ¬HoldsAt rest byte type := fun held => tail held inRequest
    simp only [inRequest, none, not_true, false_and, false_or, or_false]
  · simp only [inRequest, not_false_iff, true_and, false_and, or_false, false_or]

end

section

variable (placed : Placed owner map request front lefts (fl :: rest))

include placed

/-- What is locked behind the request by a lock that reaches behind it, and by later ones. -/
theorem holdsAt_tail (begins : fl.flStart ≤ request.flEnd) (reaches : request.flEnd < fl.flEnd)
    (byte : Int)
    (type : LockType) :
    HoldsAt (trimStart request fl :: rest) byte type ↔ request.flEnd < byte ∧
      HoldsAt (fl :: rest) byte type := by
  rw [holdsAt_cons, holdsAt_cons, and_or_left]
  refine or_congr ?_ ?_
  · simp only [Covers, trimStart]
    constructor
    · rintro ⟨covers, is⟩
      exact ⟨by omega, by omega, is⟩
    · rintro ⟨above, covers, is⟩
      exact ⟨by omega, is⟩
  · constructor
    · rintro ⟨other, member, covers, is⟩
      have := (placed.head_before other member).1
      refine ⟨?_, other, member, covers, is⟩
      rw [Covers] at covers
      omega
    · exact fun held => held.2

theorem tail_row (reaches : request.flEnd < fl.flEnd) :
    Row owner ([trimStart request fl] ++ rest) := by
  have apart := (List.pairwise_append.mp placed.row.apart).2.1
  rw [List.singleton_append]
  refine ⟨List.forall_mem_cons.mpr ⟨placed.held_trimStart placed.head_held reaches,
    fun other member => placed.row.held other (by simp [member])⟩,
      List.pairwise_cons.mpr ⟨?_, apart.of_cons⟩⟩
  exact fun other member => placed.head_before other member

theorem tail_behind (reaches : request.flEnd < fl.flEnd) :
    ∀ other ∈ rest, Before request other := by
  intro other member
  have := (placed.head_before other member).1
  exact .of_gap (by omega)

theorem settled_reach (differ : request.flType ≠ fl.flType) (begins : fl.flStart ≤ request.flEnd)
    (reaches : request.flEnd < fl.flEnd) (inside : request.flStart ≤ fl.flStart)
    (stands : Stands owner request mid) :
    Settled owner map (front ++ lefts.map (trimEnd request) ++ mid ++ trimStart request fl ::
      rest) := by
  refine ⟨row_assemble placed.front_row
      (placed.tail_row reaches) placed.proper stands placed.front_before
    placed.low_ends (List.forall_mem_singleton.mpr ⟨rfl, differ.symm⟩) (placed.tail_behind reaches),
    fun byte type => ?_⟩
  rw [← placed.map_iff, Overwritten, holdsAt_append, holdsAt_append, placed.holdsAt_front,
      stands.holds,
    placed.holdsAt_tail begins reaches]
  have whole : HoldsAt (front ++ lefts ++ fl :: rest) byte type ↔
      HoldsAt (front ++ lefts) byte type ∨ HoldsAt (fl :: rest) byte type := holdsAt_append
  have tail : HoldsAt (fl :: rest) byte type → (request.flEnd < byte ↔ ¬Covers request byte) := by
    rintro ⟨other, member, covers, _⟩
    have low : request.flStart ≤ other.flStart := by
      rcases List.mem_cons.mp member with same | later
      · rw [same]
        exact inside
      · have := (placed.head_before other later).1
        omega
    rw [Covers] at covers ⊢
    omega
  rw [whole]
  by_cases inRequest : Covers request byte
  · have none : ¬(request.flEnd < byte ∧ HoldsAt (fl :: rest) byte type) :=
      fun held => (tail held.2).mp held.1 inRequest
    simp only [inRequest, none, not_true, false_and, false_or, or_false]
  · have both : request.flEnd < byte ∧ HoldsAt (fl :: rest) byte type ↔
      HoldsAt (fl :: rest) byte type :=
      and_iff_right_of_imp fun held => (tail held).mpr inRequest
    simp only [inRequest, both, not_false_iff, true_and, false_and, or_false, false_or]

end

theorem settled_split (placed : Placed owner map request front [] (fl :: rest))
    (differ : request.flType ≠ fl.flType) (begins : fl.flStart < request.flStart)
    (reaches : request.flEnd < fl.flEnd) (stands : Stands owner request mid) (id : Nat) :
    Settled owner map
      (front ++ [trimEnd request (copyLock id fl)] ++ mid ++ trimStart request fl :: rest) := by
  have order := placed.proper.order
  have frontRow : Row owner (front ++ [trimEnd request (copyLock id fl)]) := by
    have held := placed.head_held
    have copied : Held owner (copyLock id fl) :=
      ⟨held.posix, held.owned, held.locks, held.proper.nonneg,
      held.proper.order, held.proper.bounded⟩
    refine ⟨List.forall_mem_append.mpr ⟨fun other member =>
        placed.row.held other (by simp [member]),
      List.forall_mem_singleton.mpr (placed.held_trimEnd copied begins)⟩,
        List.pairwise_append.mpr ⟨?_, ?_, ?_⟩⟩
    · have apart := (List.pairwise_append.mp placed.row.apart).1
      rwa [List.append_nil] at apart
    · exact List.pairwise_singleton _ _
    · intro first inFront
      exact List.forall_mem_singleton.mpr (placed.front_before_head first (by simp [inFront]))
  refine ⟨row_assemble frontRow (placed.tail_row reaches) placed.proper stands placed.front_before
    (List.forall_mem_singleton.mpr ⟨rfl, differ.symm⟩)
    (List.forall_mem_singleton.mpr ⟨rfl, differ.symm⟩)
    (placed.tail_behind reaches), fun byte type => ?_⟩
  rw [← placed.map_iff, Overwritten, holdsAt_append, holdsAt_append, holdsAt_append, stands.holds,
    placed.holdsAt_tail (by omega) reaches, holdsAt_append, List.append_nil, holdsAt_cons,
      holdsAt_cons,
    holdsAt_nil, or_false]
  have frontOut : HoldsAt front byte type → ¬Covers request byte := by
    rintro ⟨other, member, covers, _⟩ inRequest
    have := (placed.front_before other member).1
    rw [Covers] at covers inRequest
    omega
  have tailOut : HoldsAt rest byte type → request.flEnd < byte ∧ ¬Covers request byte := by
    rintro ⟨other, member, covers, _⟩
    have := (placed.head_before other member).1
    rw [Covers] at covers ⊢
    omega
  have pieces : (Covers (trimEnd request (copyLock id fl)) byte ∨
      (request.flEnd < byte ∧ Covers fl byte)) ↔
      (¬Covers request byte ∧ Covers fl byte) := by
    simp only [Covers, trimEnd, copyLock]
    omega
  have types : (trimEnd request (copyLock id fl)).flType = fl.flType := rfl
  rw [types]
  by_cases inRequest : Covers request byte
  · -- neither piece nor another lock lies in the request
    have noFront : ¬HoldsAt front byte type := fun held => frontOut held inRequest
    have noRest : ¬HoldsAt rest byte type := fun held => (tailOut held).2 inRequest
    have noPiece := not_or.mp (mt pieces.mp fun both => both.1 inRequest)
    have noTail : ¬(request.flEnd < byte ∧ (Covers fl byte ∧ fl.flType = type)) :=
      fun held => noPiece.2 ⟨held.1, held.2.1⟩
    simp only [inRequest, noFront, noRest, noPiece.1, noTail, not_true, false_and, false_or,
      or_false]
  · have rest_iff : request.flEnd < byte ∧ HoldsAt rest byte type ↔ HoldsAt rest byte type :=
      and_iff_right_of_imp fun held => (tailOut held).1
    have lock_iff : Covers (trimEnd request (copyLock id fl)) byte ∧ fl.flType = type ∨
        request.flEnd < byte ∧ Covers fl byte ∧ fl.flType = type ↔ Covers fl byte ∧
          fl.flType = type := by
      rw [← and_assoc, ← or_and_right, pieces, and_iff_right inRequest]
    simp only [inRequest, not_false_iff, true_and, false_and, or_false, false_or, and_or_left,
      rest_iff]
    rw [or_assoc, ← @or_assoc (Covers (trimEnd request (copyLock id fl)) byte ∧ fl.flType = type),
      lock_iff]

end Placed

end RouterKernel.RecordLocks
