import RouterKernel.RecordLocks.OwnerRun

/-!
Contract: `__posix_lock_file` keeps, for each owner, a map from bytes to lock types.

Owns:
- `Arranged`, the order of an inode's list: leases and flock locks, then one row for each
  owner; `typeAt`, the map of an owner; `Compatible`, that owners do not exclude each other;
- `Reached`, the states that calls lead to, and that they keep `Sound`;
- `posixLockFile_byteMap`: a call that returns 0 overwrites the map of its owner with the
  request and leaves all others.

Does not own: the waiters (`RecordLocks.Waiters`).
-/

namespace RouterKernel.RecordLocks

open RouterKernel.Foundation

/-! ## The list of an inode -/

def mine (owner : Nat) (fl : FileLock) : Bool :=
  decide (fl.kind = .posix) && decide (fl.flOwner = owner)

variable {fl request : FileLock} {groups : List (Nat × List FileLock)} {newFl newFl2 : Option Nat}
  {state : FileLocks} {inode : Nat}

theorem Held.mine {owner : Nat} (held : Held owner fl) : mine owner fl = true := by
  simp [RecordLocks.mine, held.posix, held.owned]

theorem Held.not_mine {owner other : Nat} (held : Held owner fl) (differ : owner ≠ other) :
    RecordLocks.mine other fl = false := by
  simp [RecordLocks.mine, held.owned, differ]

def flat (groups : List (Nat × List FileLock)) : List FileLock := (groups.map Prod.snd).flatten

/-- Locks of other kinds in front, then a row for each owner. -/
structure Grouped (others : List FileLock) (groups : List (Nat × List FileLock)) : Prop where
  others_kind : ∀ fl ∈ others, fl.kind ≠ .posix
  owners : (groups.map Prod.fst).Nodup
  rows : ∀ group ∈ groups, group.2 ≠ [] ∧ Row group.1 group.2

def Arranged (locks : List FileLock) : Prop :=
  ∃ others groups, locks = others ++ flat groups ∧ Grouped others groups

/-- How an owner has locked a byte. -/
def typeAt (locks : List FileLock) (owner : Nat) (byte : Int) : Option LockType :=
  (locks.find? fun fl => mine owner fl && decide (fl.flStart ≤ byte ∧ byte ≤ fl.flEnd)).map
    FileLock.flType

/-- Owners that have locked the same byte have only read locks there. -/
def Compatible (locks : List FileLock) : Prop :=
  ∀ first ∈ locks, ∀ second ∈ locks, first.kind = .posix → second.kind = .posix →
    first.flOwner ≠ second.flOwner → first.flStart ≤ second.flEnd → second.flStart ≤ first.flEnd →
      first.flType ≠ .wrlck ∧ second.flType ≠ .wrlck

theorem Grouped.others_not_mine {others : List FileLock} (grouped : Grouped others groups)
    (owner : Nat) : ∀ fl ∈ others, mine owner fl = false := by
  intro fl member
  simp [mine, grouped.others_kind fl member]

theorem held_of_flat {owner : Nat} (rows : ∀ group ∈ groups, group.2 ≠ [] ∧ Row group.1 group.2)
    (differ : owner ∉ groups.map Prod.fst) :
    ∀ fl ∈ flat groups, ∃ other, other ≠ owner ∧ Held other fl := by
  intro fl member
  obtain ⟨locks, inGroups, inLocks⟩ := List.mem_flatten.mp member
  obtain ⟨group, inGroup, rfl⟩ := List.mem_map.mp inGroups
  refine ⟨group.1, fun same => differ ?_, (rows group inGroup).2.held fl inLocks⟩
  exact same ▸ List.mem_map_of_mem inGroup

theorem not_mine_of_flat {owner : Nat} (rows : ∀ group ∈ groups, group.2 ≠ [] ∧ Row group.1 group.2)
    (differ : owner ∉ groups.map Prod.fst) :
    ∀ fl ∈ flat groups, mine owner fl = false := by
  intro fl member
  obtain ⟨other, differs, held⟩ := held_of_flat rows differ fl member
  exact held.not_mine differs

structure Around (locks : List FileLock) (owner : Nat) (skipped own back : List FileLock) :
    Prop where
  whole : locks = skipped ++ own ++ back
  row : Row owner own
  skipped_not_mine : ∀ fl ∈ skipped, mine owner fl = false
  back_foreign : ∀ fl ∈ back, fl.flOwner ≠ owner
  first_own : own = [] → back = []
  frame : ∀ next, Row owner next → Arranged (skipped ++ next ++ back)

theorem around_of_group {others own : List FileLock} {owner : Nat}
    {before after : List (Nat × List FileLock)}
    (grouped : Grouped others (before ++ (owner, own) :: after)) :
    Around (others ++ flat (before ++ (owner, own) :: after)) owner (others ++ flat before) own
      (flat after) := by
  have rows := grouped.rows
  obtain ⟨rowsBefore, rowsOwn, rowsAfter⟩ : (∀ group ∈ before, group.2 ≠ [] ∧ Row group.1 group.2) ∧
      (own ≠ [] ∧ Row owner own) ∧ ∀ group ∈ after, group.2 ≠ [] ∧ Row group.1 group.2 := by
    rw [List.forall_mem_append, List.forall_mem_cons] at rows
    exact rows
  have owners := grouped.owners
  rw [List.map_append, List.map_cons, List.nodup_middle, List.nodup_cons, List.mem_append, not_or]
    at owners
  obtain ⟨⟨notBefore, notAfter⟩, ownersRest⟩ := owners
  refine ⟨by simp [flat], rowsOwn.2, ?_, ?_, fun none => absurd none rowsOwn.1, fun next row => ?_⟩
  · exact List.forall_mem_append.mpr ⟨grouped.others_not_mine owner,
      not_mine_of_flat rowsBefore notBefore⟩
  · intro fl member
    obtain ⟨other, differs, held⟩ := held_of_flat rowsAfter notAfter fl member
    exact held.owned ▸ differs
  · by_cases none : next = []
    · refine ⟨others, before ++ after, by simp [flat, none], grouped.others_kind, ?_, ?_⟩
      · rw [List.map_append]
        exact ownersRest
      · exact List.forall_mem_append.mpr ⟨rowsBefore, rowsAfter⟩
    · refine ⟨others, before ++ (owner, next) :: after, by simp [flat], grouped.others_kind, ?_, ?_⟩
      · rw [List.map_append, List.map_cons, List.nodup_middle, List.nodup_cons, List.mem_append,
          not_or]
        exact ⟨⟨notBefore, notAfter⟩, ownersRest⟩
      · exact List.forall_mem_append.mpr ⟨rowsBefore,
          List.forall_mem_cons.mpr ⟨⟨none, row⟩, rowsAfter⟩⟩

theorem around_of_none {others : List FileLock} {owner : Nat} (grouped : Grouped others groups)
    (absent : owner ∉ groups.map Prod.fst) :
    Around (others ++ flat groups) owner (others ++ flat groups) [] [] := by
  refine ⟨by simp, ⟨by simp, List.Pairwise.nil⟩, ?_, by simp, fun _ => rfl, fun next row => ?_⟩
  · exact List.forall_mem_append.mpr ⟨grouped.others_not_mine owner,
      not_mine_of_flat grouped.rows absent⟩
  · by_cases none : next = []
    · exact ⟨others, groups, by simp [none], grouped⟩
    · refine ⟨others, groups ++ [(owner, next)], by simp [flat], grouped.others_kind, ?_, ?_⟩
      · rw [List.map_append, List.map_singleton, List.nodup_append]
        refine ⟨grouped.owners, List.nodup_singleton _, fun first member second inLast => ?_⟩
        rw [List.mem_singleton.mp inLast]
        rintro rfl
        exact absent member
      · exact List.forall_mem_append.mpr ⟨grouped.rows, List.forall_mem_singleton.mpr ⟨none, row⟩⟩

theorem Arranged.proper {locks : List FileLock} (arranged : Arranged locks) :
    ∀ fl ∈ locks, fl.kind = .posix → Proper fl := by
  obtain ⟨others, groups, rfl, grouped⟩ := arranged
  refine List.forall_mem_append.mpr ⟨fun fl member posix =>
    absurd posix (grouped.others_kind fl member), ?_⟩
  intro fl member _
  obtain ⟨locks, inGroups, inLocks⟩ := List.mem_flatten.mp member
  obtain ⟨group, inGroup, rfl⟩ := List.mem_map.mp inGroups
  exact ((grouped.rows group inGroup).2.held fl inLocks).proper

theorem Arranged.around {locks : List FileLock} (arranged : Arranged locks) (owner : Nat) :
    ∃ skipped own back, Around locks owner skipped own back := by
  obtain ⟨others, groups, rfl, grouped⟩ := arranged
  by_cases present : owner ∈ groups.map Prod.fst
  · obtain ⟨⟨found, own⟩, member, rfl⟩ := List.mem_map.mp present
    obtain ⟨before, after, rfl⟩ := List.append_of_mem member
    exact ⟨_, own, _, around_of_group grouped⟩
  · exact ⟨_, [], [], around_of_none grouped present⟩

namespace Around

variable {locks skipped own back next : List FileLock} {owner : Nat}

theorem back_not_mine (around : Around locks owner skipped own back) :
    ∀ fl ∈ back, mine owner fl = false := by
  intro fl member
  simp [mine, around.back_foreign fl member]

theorem skipOthers_eq {request : FileLock}
    (around : Around locks request.flOwner skipped own back) :
    skipOthers request locks = (skipped, own ++ back) := by
  have test : (fun fl : FileLock => decide (fl.kind ≠ .posix) || !posixSameOwner request fl) =
      fun fl => !mine request.flOwner fl := by
    funext fl
    simp [mine, posixSameOwner, eq_comm]
  rw [skipOthers, test, List.span_eq_takeWhile_dropWhile, around.whole, List.append_assoc]
  have front : ∀ fl ∈ skipped, (!mine request.flOwner fl) = true := by
    intro fl member
    simp [around.skipped_not_mine fl member]
  rw [List.takeWhile_append_of_pos front, List.dropWhile_append_of_pos front]
  rcases owns : own with _ | ⟨first, more⟩
  · rw [around.first_own owns]
    simp
  · have held : Held request.flOwner first := around.row.held first (by simp [owns])
    simp [held.mine]

end Around

/-! ## The maps -/

/-- The map of an owner with the request in force. -/
def overwrite (request : FileLock) (map : Nat → Int → Option LockType) (owner : Nat) (byte : Int) :
    Option LockType :=
  if owner = request.flOwner ∧ request.flStart ≤ byte ∧ byte ≤ request.flEnd then
    if request.flType = .unlck then none else some request.flType
  else map owner byte

theorem typeAt_row {owner : Nat} {own : List FileLock} (row : Row owner own) (byte : Int)
    (type : LockType) :
    typeAt own owner byte = some type ↔ HoldsAt own byte type := by
  induction own with
  | nil => simp [typeAt]
  | cons fl rest ih =>
    have rowRest : Row owner rest :=
      ⟨(List.forall_mem_cons.mp row.held).2, row.apart.of_cons⟩
    have isMine := (row.held fl List.mem_cons_self).mine
    rw [holdsAt_cons, ← ih rowRest, typeAt, List.find?_cons, isMine]
    by_cases covers : fl.flStart ≤ byte ∧ byte ≤ fl.flEnd
    · have away : ¬HoldsAt rest byte type := by
        rintro ⟨other, member, inOther, _⟩
        have := (List.rel_of_pairwise_cons row.apart member).1
        rw [Covers] at inOther
        omega
      rw [← ih rowRest] at away
      simp [covers, Covers, away]
    · simp [covers, Covers, typeAt]

theorem find?_eq_none_of_not_mine {locks : List FileLock} {owner : Nat} (byte : Int)
    (away : ∀ fl ∈ locks, mine owner fl = false) :
    locks.find? (fun fl => mine owner fl && decide (fl.flStart ≤ byte ∧ byte ≤ fl.flEnd)) =
      none := by
  rw [List.find?_eq_none]
  intro fl member
  simp [away fl member]

namespace Around

variable {locks skipped own back next : List FileLock} {owner : Nat}

theorem typeAt_own (around : Around locks owner skipped own back) (byte : Int) :
    typeAt (skipped ++ next ++ back) owner byte = typeAt next owner byte := by
  rw [typeAt, List.find?_append, List.find?_append,
      find?_eq_none_of_not_mine byte around.skipped_not_mine,
    find?_eq_none_of_not_mine byte around.back_not_mine, Option.none_or, Option.or_none, typeAt]

theorem typeAt_other (around : Around locks owner skipped own back) (row : Row owner next)
    {other : Nat}
    (differ : owner ≠ other) (byte : Int) :
    typeAt (skipped ++ next ++ back) other byte = typeAt locks other byte := by
  have none : ∀ {row : List FileLock}, Row owner row →
      row.find? (fun fl => mine other fl && decide (fl.flStart ≤ byte ∧ byte ≤ fl.flEnd)) = none :=
    fun row => find?_eq_none_of_not_mine byte fun fl member => (row.held fl member).not_mine differ
  rw [around.whole, typeAt, typeAt]
  simp only [List.find?_append, none row, none around.row]

variable {request : FileLock}

section

variable (around : Around locks request.flOwner skipped own back)

include around

/-- The map of every owner once the request is in force. -/
theorem typeAt_overwrite (settled : Settled request.flOwner (Overwritten request own) next)
    (owner : Nat) (byte : Int) :
    typeAt (skipped ++ next ++ back) owner byte = overwrite request (typeAt locks) owner byte := by
  rw [overwrite]
  by_cases same : owner = request.flOwner
  · subst same
    ext type
    have before : typeAt locks request.flOwner byte = typeAt own request.flOwner byte := by
      conv_lhs => rw [around.whole]
      exact around.typeAt_own byte
    rw [around.typeAt_own, typeAt_row settled.row, settled.map_iff, Overwritten, before]
    by_cases covers : request.flStart ≤ byte ∧ byte ≤ request.flEnd
    · by_cases unlock : request.flType = .unlck
      · simp [Covers, covers, unlock]
      · simp [Covers, covers, unlock, eq_comm]
    · simp only [Covers, covers, false_and, not_false_iff, true_and, false_or, and_false, if_false]
      exact (typeAt_row around.row byte type).symm
  · rw [if_neg fun both => same both.1]
    exact around.typeAt_other settled.row (Ne.symm same) byte

/-- A lock of the new row does not exclude one of another owner: where both lie, the owner had
such a lock before, or the request did not conflict. -/
theorem compatible_across {other : FileLock}
    (settled : Settled request.flOwner (Overwritten request own) next)
    (arranged : Arranged locks) (before : Compatible locks)
    (free : firstConflict request locks = none)
    (inNext : fl ∈ next) (inLocks : other ∈ locks) (posix : other.kind = .posix)
    (differ : request.flOwner ≠ other.flOwner) (low : fl.flStart ≤ other.flEnd)
    (high : other.flStart ≤ fl.flEnd) :
    fl.flType ≠ .wrlck ∧ other.flType ≠ .wrlck := by
  have order := (settled.row.held fl inNext).proper.order
  have otherOrder := (arranged.proper other inLocks posix).order
  obtain ⟨byte, byteEq⟩ : ∃ byte, byte = max fl.flStart other.flStart := ⟨_, rfl⟩
  have inFl : Covers fl byte := by
    rw [Covers]
    omega
  rcases (settled.map_iff byte fl.flType).mp ⟨fl, inNext, inFl, rfl⟩ with
    ⟨inRequest, locks, typeEq⟩ | ⟨_, old, inOwn, inOld, typeEq⟩
  · rw [firstConflict, if_pos locks, List.find?_eq_none] at free
    have apart := free other inLocks
    have overlap : locksOverlap request other = true := by
      rw [Covers] at inRequest
      simp only [locksOverlap, Bool.and_eq_true, decide_eq_true_eq]
      omega
    simp only [posix, posixLocksConflict, posixSameOwner, differ, overlap, locksConflict,
        decide_true,
      Bool.true_and, decide_false, ne_eq, not_true, Bool.false_eq_true, or_self, if_false,
        Bool.not_true] at apart
    rw [typeEq]
    constructor
    · intro write
      simp [write] at apart
    · intro write
      simp [write] at apart
  · rw [← typeEq]
    have held := around.row.held old inOwn
    have inOldLocks : old ∈ _ :=
      around.whole ▸ List.mem_append_left back (List.mem_append_right skipped inOwn)
    rw [Covers] at inOld
    exact before old inOldLocks other inLocks held.posix posix (held.owned ▸ differ) (by omega)
      (by omega)

theorem compatible (settled : Settled request.flOwner (Overwritten request own) next)
    (arranged : Arranged locks)
    (before : Compatible locks) (free : firstConflict request locks = none) :
    Compatible (skipped ++ next ++ back) := by
  have sides : ∀ fl, fl ∈ skipped ++ next ++ back → fl ∈ next ∨ fl ∈ locks := by
    intro fl member
    rw [around.whole]
    simp only [List.mem_append] at member ⊢
    tauto
  intro first inFirst second inSecond posixFirst posixSecond differ low high
  rcases sides first inFirst with newFirst | oldFirst
  · have owned := (settled.row.held first newFirst).owned
    rcases sides second inSecond with newSecond | oldSecond
    · exact absurd (owned.trans (settled.row.held second newSecond).owned.symm) differ
    · exact around.compatible_across settled arranged before free newFirst oldSecond posixSecond
        (owned ▸ differ) low high
  · rcases sides second inSecond with newSecond | oldSecond
    · have owned := (settled.row.held second newSecond).owned
      exact (around.compatible_across settled arranged before free newSecond oldFirst posixFirst
        (owned ▸ differ.symm) high low).symm
    · exact before first oldFirst second oldSecond posixFirst posixSecond differ low high

end

end Around

/-! ## Calls -/

structure Sound (locks : List FileLock) : Prop where
  distinct : (ids locks).Nodup
  arranged : Arranged locks
  compatible : Compatible locks

/-- What a caller owes: a POSIX request with a range as `fcntl` builds it, and objects from
the allocator that are not in the list. -/
def Allowed (state : FileLocks) : LockOp → Prop
  | .lock inode request _ newFl newFl2 =>
    request.kind = .posix ∧ Proper request ∧ Fresh (state.files inode) newFl newFl2
  | .deleteBlock _ => True
  | .others inode locks => (∀ fl ∈ locks, fl.kind ≠ .posix) ∧
      (ids (locks ++ (state.files inode).filter fun fl => fl.kind = .posix)).Nodup

def FileLocks.init : FileLocks := ⟨fun _ => [], [], []⟩

inductive Reached : FileLocks → Prop
  | init : Reached FileLocks.init
  | call {state next : FileLocks} {op : LockOp} {answer : Answer} (reached : Reached state)
      (allowed : Allowed state op) (ran : step state op = .ok (answer, next)) : Reached next

theorem sound_nil : Sound [] :=
  ⟨List.nodup_nil, ⟨[], [], rfl, by simp, List.nodup_nil, by simp⟩, by simp [Compatible]⟩

/-- What the loop starts from for a request. -/
def groundOf (request : FileLock) (skipped own back : List FileLock) : Ground :=
  ⟨request.flOwner, Overwritten request own, skipped, own, back⟩

theorem scanned_start {locks skipped own back : List FileLock} {waiting : Waiting}
    (around : Around locks request.flOwner skipped own back) (posix : request.kind = .posix)
    (proper : Proper request) :
    Scanned (groundOf request skipped own back)
      (⟨skipped, request, false, none, none, waiting⟩, own ++ back) := by
  refine ⟨[], [], own, rfl,
      ⟨by simp [groundOf, Scan.entry], ⟨around.row, proper, by simp, by simp, ?_⟩, posix, rfl,
    rfl, rfl, by simp, fun _ => rfl, fun _ _ => rfl, ?_⟩⟩
  · exact fun _ _ => Iff.rfl
  · simp [groundOf, Ground.locks]

theorem Fresh.some_of {locks : List FileLock} (fresh : Fresh locks newFl newFl2) (needed : Bool) :
    Fresh locks (if needed then newFl else none) (if needed then newFl2 else none) := by
  cases needed
  · simp [Fresh]
  · exact fresh

/-- What the loop of a call and the rest of it leave. -/
theorem lockOwner_finished {flags : Flags} {skipped own back : List FileLock}
    (around : Around (state.files inode) request.flOwner skipped own back)
    (distinct : (ids (state.files inode)).Nodup)
    (allowed : Allowed state (.lock inode request flags newFl newFl2)) :
    Finished (groundOf request skipped own back)
        (lockOwner state inode request flags newFl newFl2).1
      (lockOwner state inode request flags newFl newFl2).2.1 := by
  obtain ⟨posix, proper, fresh⟩ := allowed
  have locks : (groundOf request skipped own back).locks = state.files inode := around.whole.symm
  have fits : (groundOf request skipped own back).Fits :=
    ⟨locks.symm ▸ distinct, around.back_foreign⟩
  obtain ⟨last, chain, stop⟩ :=
    scan_moves ⟨skipped, request, false, none, none, state.waiting⟩ (own ++ back)
  have scanned := (scanned_start around posix proper).moves fits chain
  rw [lockOwner, around.skipOthers_eq]
  exact finish_finished fits scanned stop (locks ▸ fresh.some_of _) flags

/-- What a call does to the list of its inode. -/
theorem lockOwner_spec {flags : Flags} (sound : Sound (state.files inode))
    (allowed : Allowed state (.lock inode request flags newFl newFl2))
    (free : firstConflict request (state.files inode) = none) :
    Sound (lockOwner state inode request flags newFl newFl2).2.1 ∧
      ((lockOwner state inode request flags newFl newFl2).1 ≠ 0 →
        (lockOwner state inode request flags newFl newFl2).2.1 = state.files inode) ∧
      ((lockOwner state inode request flags newFl newFl2).1 = 0 → ∀ owner byte,
        typeAt (lockOwner state inode request flags newFl newFl2).2.1 owner byte =
          overwrite request (typeAt (state.files inode)) owner byte) := by
  obtain ⟨skipped, own, back, around⟩ := sound.arranged.around request.flOwner
  obtain ⟨next, locksEq, distinct, ⟨fails, same⟩ | ⟨done, settled⟩⟩ :=
    lockOwner_finished around sound.distinct allowed
  · have unchanged : (lockOwner state inode request flags newFl newFl2).2.1 =
      state.files inode := by
      rw [locksEq, same, around.whole]
      rfl
    exact ⟨unchanged ▸ sound, fun _ => unchanged, fun done => absurd done fails⟩
  · refine ⟨⟨distinct, ?_, ?_⟩, fun fails => absurd done fails, fun _ owner byte => ?_⟩
    · rw [locksEq]
      exact around.frame next settled.row
    · rw [locksEq]
      exact around.compatible settled sound.arranged sound.compatible free
    · rw [locksEq]
      exact around.typeAt_overwrite settled owner byte

theorem Sound.others {locks others : List FileLock} (sound : Sound locks)
    (kinds : ∀ fl ∈ others, fl.kind ≠ .posix)
    (distinct : (ids (others ++ locks.filter fun fl => fl.kind = .posix)).Nodup) :
    Sound (others ++ locks.filter fun fl => fl.kind = .posix) := by
  obtain ⟨old, groups, rfl, grouped⟩ := sound.arranged
  have filtered : ((old ++ flat groups).filter fun fl => fl.kind = .posix) = flat groups := by
    have none : (old.filter fun fl => fl.kind = .posix) = [] := by
      rw [List.filter_eq_nil_iff]
      intro fl member
      simp [grouped.others_kind fl member]
    have all : ((flat groups).filter fun fl => fl.kind = .posix) = flat groups := by
      rw [List.filter_eq_self]
      intro fl member
      obtain ⟨locks, inGroups, inLocks⟩ := List.mem_flatten.mp member
      obtain ⟨group, inGroup, rfl⟩ := List.mem_map.mp inGroups
      simp [((grouped.rows group inGroup).2.held fl inLocks).posix]
    rw [List.filter_append, none, all, List.nil_append]
  refine ⟨distinct, ⟨others, groups, by rw [filtered], kinds, grouped.owners, grouped.rows⟩, ?_⟩
  have posixOld : ∀ fl ∈ others ++ (old ++ flat groups).filter (fun fl => fl.kind = .posix),
      fl.kind = .posix →
      fl ∈ old ++ flat groups := by
    intro fl member posix
    rcases List.mem_append.mp member with inOthers | inFilter
    · exact absurd posix (kinds fl inOthers)
    · exact List.mem_of_mem_filter inFilter
  intro first inFirst second inSecond posixFirst posixSecond
  exact sound.compatible first (posixOld first inFirst posixFirst) second
      (posixOld second inSecond posixSecond)
    posixFirst posixSecond

theorem withFile_files {locks : List FileLock} {waiting : Waiting} {property : List FileLock → Prop}
    (before : ∀ inode, property (state.files inode)) (after : property locks) :
    ∀ other, property ((state.withFile inode locks waiting).files other) := by
  intro other
  by_cases same : other = inode
  · subst same
    simpa [FileLocks.withFile] using after
  · simpa [FileLocks.withFile, Function.update_of_ne same] using before other

theorem sound_step {next : FileLocks} {op : LockOp} {answer : Answer}
    (sound : ∀ inode, Sound (state.files inode))
    (allowed : Allowed state op)
    (ran : step state op = .ok (answer, next)) : ∀ inode, Sound (next.files inode) := by
  cases op with
  | lock inode request flags newFl newFl2 =>
    have called := posixLockFile_called ran
    cases called with
    | refused => exact sound
    | queued => exact sound
    | tested => exact sound
    | done free => exact withFile_files sound (lockOwner_spec (sound inode) allowed free).1
  | deleteBlock waiter =>
    cases ran
    exact sound
  | others inode locks =>
    cases ran
    exact withFile_files sound ((sound inode).others allowed.1 allowed.2)

theorem Reached.sound (reached : Reached state) : ∀ inode, Sound (state.files inode) := by
  induction reached with
  | init => exact fun _ => sound_nil
  | call _ allowed ran ih => exact sound_step ih allowed ran

/-- **POSIX record locks implement a byte map for each owner**: in every state that calls lead
to, the lists are arranged and no owner's write lock overlaps another owner's lock; a call that
returns 0 overwrites the map of its owner with the request, and leaves the other maps and the
other inodes; and a call that fails changes no list. -/
theorem posixLockFile_byteMap {state : FileLocks} (reached : Reached state) :
    (∀ inode, Arranged (state.files inode) ∧ Compatible (state.files inode)) ∧
      ∀ inode request flags newFl newFl2 answer next,
          Allowed state (.lock inode request flags newFl newFl2) →
        posixLockFile state inode request flags newFl newFl2 = .ok (answer, next) →
        flags.flAccess = false →
        (answer.error = 0 → Arranged (next.files inode) ∧ Compatible (next.files inode) ∧
            (∀ owner byte, typeAt (next.files inode) owner byte =
              overwrite request (typeAt (state.files inode)) owner byte) ∧
            ∀ other, other ≠ inode → next.files other = state.files other) ∧
          (answer.error ≠ 0 → next.files = state.files) := by
  have sound := reached.sound
  refine ⟨fun inode => ⟨(sound inode).arranged, (sound inode).compatible⟩, ?_⟩
  intro inode request flags newFl newFl2 answer next allowed ran locks
  have called := posixLockFile_called ran
  cases called with
  | refused fails => exact ⟨fun none => absurd none fails, fun _ => rfl⟩
  | queued =>
    have deferred : FILE_LOCK_DEFERRED ≠ 0 := by decide
    exact ⟨fun none => absurd none deferred, fun _ => rfl⟩
  | tested access => exact absurd access (by simp [locks])
  | done free =>
    obtain ⟨after, failed, done⟩ := lockOwner_spec (sound inode) allowed free
    refine ⟨fun returned => ?_, fun fails => ?_⟩
    · have file : (state.withFile inode (lockOwner state inode request flags newFl newFl2).2.1
          (lockOwner state inode request flags newFl newFl2).2.2).files inode =
            (lockOwner state inode request flags newFl newFl2).2.1 := by
        simp [FileLocks.withFile]
      rw [file]
      refine ⟨after.arranged, after.compatible, done returned, fun other differ => ?_⟩
      exact Function.update_of_ne differ _ _
    · rw [FileLocks.withFile, failed fails]
      exact Function.update_eq_self _ _

def oneLock : FileLocks := FileLocks.init.withFile 0 [⟨10, .posix, 7, .wrlck, 0, 99⟩] ⟨[], []⟩

theorem reached_oneLock : Reached oneLock := by
  have allowed : Allowed FileLocks.init
      (.lock 0 ⟨1, .posix, 7, .wrlck, 0, 99⟩ ⟨false, false, false⟩ (some 10) (some 11)) :=
    ⟨rfl, ⟨by decide, by decide, by decide⟩, by simp [Fresh, FileLocks.init]⟩
  have ran : step FileLocks.init
      (.lock 0 ⟨1, .posix, 7, .wrlck, 0, 99⟩ ⟨false, false, false⟩ (some 10) (some 11)) =
      .ok (⟨0, none⟩, oneLock) := rfl
  exact .call .init allowed ran

theorem posixLockFile_byteMap_split :
    ∃ next, posixLockFile oneLock 0 ⟨1, .posix, 7, .rdlck, 10, 19⟩ ⟨false, false, false⟩ (some 11)
        (some 12) =
        .ok (⟨0, none⟩, next) ∧
      next.files 0 = [⟨12, .posix, 7, .wrlck, 0, 9⟩, ⟨11, .posix, 7, .rdlck, 10, 19⟩,
        ⟨10, .posix, 7, .wrlck, 20, 99⟩] ∧
      ∀ owner byte, typeAt (next.files 0) owner byte =
        overwrite ⟨1, .posix, 7, .rdlck, 10, 19⟩ (typeAt (oneLock.files 0)) owner byte := by
  have allowed : Allowed oneLock
      (.lock 0 ⟨1, .posix, 7, .rdlck, 10, 19⟩ ⟨false, false, false⟩ (some 11) (some 12)) :=
    ⟨rfl, ⟨by decide, by decide, by decide⟩, by simp [Fresh, oneLock, FileLocks.withFile]⟩
  refine ⟨_, rfl, rfl, ?_⟩
  exact (((posixLockFile_byteMap reached_oneLock).2 _ _ _ _ _ _ _ allowed rfl rfl).1 rfl).2.2.1

/-- **A call that fails changes no lock**: the loop merges and replaces only what needs no new
object any more, so that each way out with an error leaves all lists, whatever the allocator
returns. -/
theorem failed_call_keeps_locks {state next : FileLocks} (reached : Reached state) {inode : Nat}
    {request : FileLock}
    {flags : Flags} {newFl newFl2 : Option Nat} {answer : Answer}
    (allowed : Allowed state (.lock inode request flags newFl newFl2))
    (ran : posixLockFile state inode request flags newFl newFl2 = .ok (answer, next))
    (fails : answer.error ≠ 0) :
    next.files = state.files := by
  have called := posixLockFile_called ran
  cases called with
  | refused => rfl
  | queued => rfl
  | tested => rfl
  | done free =>
    obtain ⟨_, unchanged, _⟩ := lockOwner_spec (reached.sound inode) allowed free
    rw [FileLocks.withFile, unchanged fails]
    exact Function.update_eq_self _ _

/-- An unlock in the middle of a lock, without the second object that it takes. -/
theorem failed_call_keeps_locks_split : ∃ next,
    posixLockFile oneLock 0 ⟨1, .posix, 7, .unlck, 10, 19⟩ ⟨false, false, false⟩ (some 11) none =
        .ok (⟨-ENOLCK, none⟩, next) ∧ next.files = oneLock.files := by
  have allowed : Allowed oneLock
      (.lock 0 ⟨1, .posix, 7, .unlck, 10, 19⟩ ⟨false, false, false⟩ (some 11) none) :=
    ⟨rfl, ⟨by decide, by decide, by decide⟩, by simp [Fresh, oneLock, FileLocks.withFile]⟩
  exact ⟨_, rfl, failed_call_keeps_locks reached_oneLock allowed rfl enolck_ne_zero⟩

end RouterKernel.RecordLocks
