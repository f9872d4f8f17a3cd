import RouterKernel.RecordLocks.ByteMap

/-!
Contract: no waiter for a POSIX lock is forgotten.

Owns:
- `Grown`, what a lock may do without waking its waiters;
- `Guarded`, that the blocker of each waiter is in the list and conflicts, and that every turn
  of the loop and every trim keeps it;
- `Handed`, that a waiter which leaves the list is woken;
- `waiters_guarded`: both hold along every run, and no call follows a stale pointer;
- `posixTestLock`, what a caller learns without waiting.

Does not own: which lock a woken request meets when it is tried again.
-/

namespace RouterKernel.RecordLocks

open RouterKernel.Foundation

structure Grown (old new : FileLock) : Prop where
  id : new.id = old.id
  kind : new.kind = old.kind
  owner : new.flOwner = old.flOwner
  type : new.flType = old.flType
  low : new.flStart ≤ old.flStart
  high : old.flEnd ≤ new.flEnd

theorem Grown.refl (fl : FileLock) : Grown fl fl := ⟨rfl, rfl, rfl, rfl, le_refl _, le_refl _⟩

theorem grown_hull (fl other : FileLock) : Grown fl (hull fl other) := by
  refine ⟨rfl, rfl, rfl, rfl, ?_, ?_⟩
  · simp only [hull]
    split <;> omega
  · simp only [hull]
    split <;> omega

theorem posixLocksConflict_iff {caller sys : FileLock} : posixLocksConflict caller sys = true ↔
      sys.kind = .posix ∧ caller.flOwner ≠ sys.flOwner ∧
          (sys.flStart ≤ caller.flEnd ∧ caller.flStart ≤ sys.flEnd) ∧
        (sys.flType = .wrlck ∨ caller.flType = .wrlck) := by
  simp only [posixLocksConflict, posixSameOwner, locksOverlap, locksConflict]
  by_cases posix : sys.kind = .posix <;> by_cases same : caller.flOwner = sys.flOwner <;>
    by_cases low : sys.flStart ≤ caller.flEnd <;> by_cases high : caller.flStart ≤ sys.flEnd <;>
      simp [posix, same, low, high]

variable {request : FileLock} {inode : Nat} {locks rest : List FileLock} {waiting start : Waiting}
  {current : Scan × List FileLock} {s : Scan} {state : FileLocks}

theorem Grown.conflict {old new : FileLock} (grown : Grown old new)
    (conflict : posixLocksConflict request old = true) : posixLocksConflict request new = true := by
  rw [posixLocksConflict_iff] at conflict ⊢
  rw [grown.kind, grown.owner, grown.type]
  have := grown.low
  have := grown.high
  exact ⟨conflict.1, conflict.2.1, ⟨by omega, by omega⟩, conflict.2.2.2⟩

/-! ## Waiters along a call -/

/-- Each waiter's blocker is in the list of its inode and conflicts with it. -/
def Guarded (inode : Nat) (locks : List FileLock) (waiting : Waiting) : Prop :=
  ∀ waiter ∈ waiting.blocked, waiter.inode = inode →
    ∃ fl ∈ locks, fl.id = waiter.blocker ∧ posixLocksConflict waiter.request fl = true

/-- No waiter leaves without being woken. -/
def Handed (old new : Waiting) : Prop :=
  (∀ waiter ∈ new.blocked, waiter ∈ old.blocked) ∧ ∃ newly, new.woken = old.woken ++ newly ∧
      ∀ waiter ∈ old.blocked, waiter ∉ new.blocked → waiter.request.id ∈ newly

theorem Handed.refl (waiting : Waiting) : Handed waiting waiting :=
  ⟨fun _ member => member, [], by simp, fun _ member away => absurd member away⟩

theorem Handed.trans {first second third : Waiting} (one : Handed first second)
    (two : Handed second third) :
    Handed first third := by
  obtain ⟨subOne, newlyOne, wokenOne, leftOne⟩ := one
  obtain ⟨subTwo, newlyTwo, wokenTwo, leftTwo⟩ := two
  refine ⟨fun waiter member => subOne waiter (subTwo waiter member), newlyOne ++ newlyTwo, ?_, ?_⟩
  · rw [wokenTwo, wokenOne, List.append_assoc]
  · intro waiter member away
    rw [List.mem_append]
    by_cases still : waiter ∈ second.blocked
    · exact .inr (leftTwo waiter still away)
    · exact .inl (leftOne waiter member still)

theorem handed_wake (blocker : Nat) (waiting : Waiting) :
    Handed waiting (locksWakeUpBlocks blocker waiting) := by
  refine ⟨fun waiter member => List.mem_of_mem_filter member, _, rfl, fun waiter member away => ?_⟩
  have blocked : waiter.blocker = blocker := by
    by_contra differ
    exact away (List.mem_filter.mpr ⟨member, by simpa using differ⟩)
  refine List.mem_map_of_mem (List.mem_reverse.mpr (List.mem_filter.mpr ⟨member, ?_⟩))
  simpa using blocked

theorem Guarded.grow {next : List FileLock} (guarded : Guarded inode locks waiting)
    (grows : ∀ fl ∈ locks, ∃ new ∈ next, Grown fl new) :
    Guarded inode next waiting := by
  intro waiter member here
  obtain ⟨fl, inLocks, isBlocker, conflict⟩ := guarded waiter member here
  obtain ⟨new, inNext, grown⟩ := grows fl inLocks
  exact ⟨new, inNext, grown.id.trans isBlocker, grown.conflict conflict⟩

/-- The waiters of one lock are woken: it may change in any way or go. -/
theorem Guarded.wake {blocker : Nat} {next : List FileLock} (guarded : Guarded inode locks waiting)
    (grows : ∀ fl ∈ locks, fl.id ≠ blocker → ∃ new ∈ next, Grown fl new) :
    Guarded inode next (locksWakeUpBlocks blocker waiting) := by
  intro waiter member here
  obtain ⟨stays, differ⟩ := List.mem_filter.mp member
  obtain ⟨fl, inLocks, isBlocker, conflict⟩ := guarded waiter stays here
  obtain ⟨new, inNext, grown⟩ := grows fl inLocks (by simpa [isBlocker] using differ)
  exact ⟨new, inNext, grown.id.trans isBlocker, grown.conflict conflict⟩

/-- The waiters and the whole list at a turn of the loop. -/
def Watched (inode : Nat) (start : Waiting) (current : Scan × List FileLock) : Prop :=
  Guarded inode (current.1.passed ++ current.2) current.1.waiting ∧ Handed start current.1.waiting

/-- **One turn** forgets no waiter. -/
theorem Watched.move {g : Ground} {next : Scan × List FileLock} (fits : g.Fits)
    (scanned : Scanned g current)
    (watched : Watched inode start current) (moves : Move current next) :
      Watched inode start next := by
  obtain ⟨guarded, handed⟩ := watched
  cases moves with
  | @skipSame s fl rest | @skipOther s fl rest =>
    refine ⟨guarded.grow fun old member => ⟨old, ?_, .refl old⟩, handed⟩
    simpa [Scan.pass] using member
  | @below s fl rest =>
    refine ⟨guarded.grow fun old member => ⟨old, ?_, .refl old⟩, handed⟩
    simpa [Scan.pass, Scan.overlap] using member
  | @extend s fl rest =>
    refine ⟨guarded.grow fun old member => ?_, handed⟩
    simp only [List.mem_append, List.mem_cons] at member
    rcases member with passed | rfl | later
    · exact ⟨old, by simp [Scan.extend, passed], .refl old⟩
    · exact ⟨hull old s.request, by simp [Scan.extend], grown_hull old s.request⟩
    · exact ⟨old, by simp [later], .refl old⟩
  | @delete s fl rest =>
    refine ⟨guarded.wake fun old member differ => ⟨old, ?_, .refl old⟩,
      handed.trans (handed_wake _ _)⟩
    simp only [List.mem_append, List.mem_cons] at member
    rcases member with passed | rfl | later
    · simp [Scan.delete, Scan.overlap, passed]
    · exact absurd rfl differ
    · simp [later]
  | @replace s fl rest =>
    refine ⟨guarded.wake fun old member differ => ⟨old, ?_, .refl old⟩,
      handed.trans (handed_wake _ _)⟩
    simp only [List.mem_append, List.mem_cons] at member
    rcases member with passed | rfl | later
    · simp [Scan.replace, Scan.overlap, passed]
    · exact absurd rfl differ
    · simp [later]
  | @absorb s fl tail own same reaches begins added =>
    -- the request is in the list, where it is the only lock with its address
    obtain ⟨front, lefts, rest, ahead, along⟩ := scanned
    obtain ⟨others, rfl, rfl⟩ := along.head_own fits own ahead
    have locks : s.request.flType ≠ .unlck := same ▸ along.placed.head_held.locks
    have passed := along.passed
    rw [Scan.entry_added added locks] at passed
    have distinct : (ids (g.skipped ++ front ++ lefts ++ [s.request])).Nodup := by
      have all := along.distinct fits
      rw [ids_append, passed] at all
      exact (List.nodup_append.mp all).1
    have after : (s.absorb fl).passed = g.skipped ++ front ++ lefts ++ [hull s.request fl] := by
      rw [show (s.absorb fl).passed = replaceLock (hull s.request fl) s.passed from rfl, passed]
      exact replaceLock_at distinct rfl
    refine ⟨guarded.wake fun old member differ => ?_, handed.trans (handed_wake _ _)⟩
    dsimp only at member ⊢
    rw [passed] at member
    rw [after]
    simp only [List.mem_append, List.mem_cons, List.not_mem_nil, or_false] at member
    rcases member with (before | rfl) | rfl | later
    · exact ⟨old, by simp only [List.mem_append]; exact .inl (.inl before), .refl old⟩
    · exact ⟨hull s.request fl, by simp, grown_hull _ _⟩
    · exact absurd rfl differ
    · exact ⟨old, by simp only [List.mem_append]; exact .inr later, .refl old⟩

theorem Watched.moves {g : Ground} {last : Scan × List FileLock} (fits : g.Fits)
    (scanned : Scanned g current)
    (watched : Watched inode start current)
    (chain : Relation.ReflTransGen Move current last) : Watched inode start last := by
  induction chain with
  | refl => exact watched
  | tail before moves ih =>
    exact ih.move fits (scanned.moves fits before) moves

/-- The turn that ends the loop changes neither the list nor the waiters. -/
theorem Watched.stop {last : Scan × List FileLock} (watched : Watched inode start current)
    (stop : Stop current last) : Watched inode start last := by
  cases stop with
  | none => exact watched
  | foreign => exact watched
  | beyondSame => exact watched
  | beyondOther => exact watched
  | reach => exact watched

/-! ## Behind the loop -/

theorem Guarded.replaceLock (lock : FileLock) (guarded : Guarded inode locks waiting) :
    Guarded inode (replaceLock lock locks) (locksWakeUpBlocks lock.id waiting) :=
  guarded.wake fun fl member differ => ⟨fl, List.mem_map.mpr ⟨fl, member, if_neg differ⟩, .refl fl⟩

theorem guarded_trim {left right : Option FileLock} (guarded : Guarded inode locks waiting)
    (handed : Handed start waiting) :
    Guarded inode
        (trimLeft request left (trimRight request right locks waiting).1
          (trimRight request right locks waiting).2).1
        (trimLeft request left (trimRight request right locks waiting).1
          (trimRight request right locks waiting).2).2 ∧
      Handed start
        (trimLeft request left (trimRight request right locks waiting).1
          (trimRight request right locks waiting).2).2 := by
  have afterRight : Guarded inode (trimRight request right locks waiting).1
      (trimRight request right locks waiting).2 ∧
      Handed start (trimRight request right locks waiting).2 := by
    cases right with
    | none => exact ⟨guarded, handed⟩
    | some fl => exact ⟨guarded.replaceLock _, handed.trans (handed_wake _ _)⟩
  generalize trimRight request right locks waiting = trimmed at afterRight ⊢
  cases left with
  | none => exact afterRight
  | some fl => exact ⟨afterRight.1.replaceLock _, afterRight.2.trans (handed_wake _ _)⟩

theorem watched_settle (watched : Watched inode start (s, rest)) (newFl2 : Option Nat) :
    Guarded inode (settle s rest newFl2).1 (settle s rest newFl2).2 ∧
      Handed start (settle s rest newFl2).2 := by
  rw [settle.eq_def]
  split
  rename_i left ahead split
  have more : ∀ fl ∈ rest, fl ∈ ahead := by
    intro fl member
    split at split
    · cases split
      exact List.mem_cons_of_mem _ member
    · cases split
      exact member
  have guarded : Guarded inode (s.passed ++ ahead) s.waiting := by
    refine watched.1.grow fun fl member => ⟨fl, ?_, .refl fl⟩
    rcases List.mem_append.mp member with passed | later
    · exact List.mem_append_left _ passed
    · exact List.mem_append_right _ (more fl later)
  exact guarded_trim guarded watched.2

theorem watched_insert (watched : Watched inode start (s, rest))
    (fl : FileLock) : Watched inode start (s, fl :: rest) := by
  refine ⟨watched.1.grow fun old member => ⟨old, ?_, .refl old⟩, watched.2⟩
  simp only [List.mem_append, List.mem_cons] at member ⊢
  tauto

theorem watched_finish (watched : Watched inode start (s, rest)) (flags : Flags)
    (newFl newFl2 : Option Nat) :
    Guarded inode (finish s rest flags newFl newFl2).2.1 (finish s rest flags newFl newFl2).2.2 ∧
      Handed start (finish s rest flags newFl newFl2).2.2 := by
  have ending := finish_ending s rest flags newFl newFl2
  generalize finish s rest flags newFl newFl2 = result at ending ⊢
  cases ending with
  | noSecond => exact watched
  | noFirst => exact watched
  | nothing => exact watched
  | inPlace => exact watched_settle watched newFl2
  | inserted => exact watched_settle (watched_insert watched _) newFl2

/-- What the loop of a call and the rest of it do to the waiters. -/
theorem lockOwner_guarded {flags : Flags} {newFl newFl2 : Option Nat}
    (sound : Sound (state.files inode))
    (guarded : Guarded inode (state.files inode) state.waiting)
    (allowed : Allowed state (.lock inode request flags newFl newFl2)) :
    Guarded inode (lockOwner state inode request flags newFl newFl2).2.1
        (lockOwner state inode request flags newFl newFl2).2.2 ∧
      Handed state.waiting (lockOwner state inode request flags newFl newFl2).2.2 := by
  obtain ⟨skipped, own, back, around⟩ := sound.arranged.around request.flOwner
  have locks : (groundOf request skipped own back).locks = state.files inode := around.whole.symm
  have fits : (groundOf request skipped own back).Fits :=
    ⟨locks.symm ▸ sound.distinct, around.back_foreign⟩
  obtain ⟨last, chain, stop⟩ :=
    scan_moves ⟨skipped, request, false, none, none, state.waiting⟩ (own ++ back)
  have start : Watched inode state.waiting
      (⟨skipped, request, false, none, none, state.waiting⟩, own ++ back) := by
    refine ⟨?_, .refl _⟩
    rw [around.whole, List.append_assoc] at guarded
    exact guarded
  have watched := (start.moves fits (scanned_start around allowed.1 allowed.2.1) chain).stop stop
  rw [lockOwner, around.skipOthers_eq]
  exact watched_finish watched flags _ _

/-! ## Calls -/

def Watching (state : FileLocks) : Prop :=
  ∀ waiter ∈ state.waiting.blocked, ∃ fl ∈ state.files waiter.inode, fl.id = waiter.blocker ∧
    posixLocksConflict waiter.request fl = true

theorem watching_iff :
    Watching state ↔ ∀ inode, Guarded inode (state.files inode) state.waiting := by
  constructor
  · rintro watching inode waiter member rfl
    exact watching waiter member
  · intro guarded waiter member
    exact guarded waiter.inode waiter member rfl

theorem Watching.withFile (watching : Watching state)
    (fewer : ∀ waiter ∈ waiting.blocked, waiter ∈ state.waiting.blocked)
    (guarded : Guarded inode locks waiting) : Watching (state.withFile inode locks waiting) := by
  intro waiter member
  by_cases here : waiter.inode = inode
  · have file : (state.withFile inode locks waiting).files waiter.inode = locks := by
      simp [FileLocks.withFile, here]
    rw [file]
    exact guarded waiter member here
  · have file : (state.withFile inode locks waiting).files waiter.inode =
      state.files waiter.inode := by
      simp [FileLocks.withFile, Function.update_of_ne here]
    rw [file]
    exact watching waiter (fewer waiter member)

theorem conflict_of_firstConflict {fl : FileLock} (found : firstConflict request locks = some fl) :
    fl ∈ locks ∧ posixLocksConflict request fl = true := by
  rw [firstConflict] at found
  split at found
  · have both := List.find?_some found
    rw [Bool.and_eq_true] at both
    exact ⟨List.mem_of_find?_eq_some found, both.2⟩
  · cases found

/-- **One call** forgets no waiter. -/
theorem watching_step {next : FileLocks} {op : LockOp} {answer : Answer}
    (sound : ∀ inode, Sound (state.files inode)) (watching : Watching state)
    (allowed : Allowed state op)
    (ran : step state op = .ok (answer, next)) : Watching next := by
  cases op with
  | lock inode request flags newFl newFl2 =>
    have called := posixLockFile_called ran
    cases called with
    | refused => exact watching
    | tested => exact watching
    | @queued fl conflict =>
      intro waiter member
      rcases List.mem_cons.mp member with rfl | old
      · obtain ⟨inLocks, conflicts⟩ := conflict_of_firstConflict conflict
        exact ⟨fl, inLocks, rfl, conflicts⟩
      · exact watching waiter old
    | done free access =>
      have after := lockOwner_guarded (sound inode) (watching_iff.mp watching inode) allowed
      exact watching.withFile after.2.1 after.1
  | deleteBlock id =>
    cases ran
    exact fun waiter member => watching waiter (List.mem_of_mem_filter member)
  | others inode locks =>
    cases ran
    refine watching.withFile (fun _ member => member) ?_
    -- a waiter's blocker is a POSIX lock, and these stay
    intro waiter member here
    obtain ⟨fl, inLocks, isBlocker, conflict⟩ := watching_iff.mp watching inode waiter member here
    have posix := (posixLocksConflict_iff.mp conflict).1
    exact ⟨fl, List.mem_append_right _ (List.mem_filter.mpr ⟨inLocks, by simpa using posix⟩),
      isBlocker, conflict⟩

theorem Reached.watching (reached : Reached state) : Watching state := by
  induction reached with
  | init => exact fun waiter member => absurd member (by simp [FileLocks.init])
  | call before allowed ran ih => exact watching_step before.sound ih allowed ran

/-- Who leaves the list of waiters in a call is woken by it, or taken off on its own account. -/
theorem woken_step {next : FileLocks} {op : LockOp} {answer : Answer}
    (sound : ∀ inode, Sound (state.files inode))
    (watching : Watching state) (allowed : Allowed state op)
    (ran : step state op = .ok (answer, next)) :
    ∃ newly, next.waiting.woken = state.waiting.woken ++ newly ∧
      ∀ waiter ∈ state.waiting.blocked, waiter ∉ next.waiting.blocked →
        waiter.request.id ∈ newly ∨ op = .deleteBlock waiter.request.id := by
  cases op with
  | lock inode request flags newFl newFl2 =>
    have called := posixLockFile_called ran
    cases called with
    | refused | tested => exact ⟨[], by simp, fun _ member away => absurd member away⟩
    | queued =>
      exact ⟨[],
        by simp, fun _ member away => absurd (List.mem_cons_of_mem _ member) away⟩
    | done free access =>
      obtain ⟨_, _, newly, woken, left⟩ :=
        lockOwner_guarded (sound inode) (watching_iff.mp watching inode) allowed
      exact ⟨newly, woken, fun waiter member away => .inl (left waiter member away)⟩
  | deleteBlock id =>
    cases ran
    refine ⟨[], by simp [locksDeleteBlock], fun waiter member away => .inr ?_⟩
    have same : waiter.request.id = id := by
      by_contra differ
      exact away (List.mem_filter.mpr ⟨member, by simpa using differ⟩)
    rw [same]
  | others inode locks =>
    cases ran
    exact ⟨[], by simp [FileLocks.withFile], fun _ member away => absurd member away⟩

/-- `fl_next` of a waiter leads to the lock in the list. -/
theorem Watching.blockerOf {waiter : Waiter} (watching : Watching state)
    (sound : ∀ inode, Sound (state.files inode)) (member : waiter ∈ state.waiting.blocked) :
    ∃ fl, state.blockerOf waiter = .ok fl ∧ fl ∈ state.files waiter.inode ∧
      posixLocksConflict waiter.request fl = true := by
  obtain ⟨fl, inLocks, isBlocker, conflict⟩ := watching waiter member
  have found : ((state.files waiter.inode).find? fun fl => fl.id = waiter.blocker).isSome =
      true := by
    rw [List.find?_isSome]
    exact ⟨fl, inLocks, by simpa using isBlocker⟩
  obtain ⟨first, firstEq⟩ := Option.isSome_iff_exists.mp found
  have firstIs : first.id = waiter.blocker := by simpa using List.find?_some firstEq
  have same : first = fl :=
    List.inj_on_of_nodup_map (sound waiter.inode).distinct
        (List.mem_of_find?_eq_some firstEq) inLocks
      (firstIs.trans isBlocker.symm)
  refine ⟨fl, ?_, inLocks, conflict⟩
  rw [FileLocks.blockerOf, firstEq, same]

theorem whatOwnerIsWaitingFor_ok (watching : Watching state)
    (sound : ∀ inode, Sound (state.files inode))
    (block : FileLock) :
    ∃ found, whatOwnerIsWaitingFor state block = .ok found := by
  rw [whatOwnerIsWaitingFor]
  split
  · exact ⟨none, rfl⟩
  · rename_i waiter search
    obtain ⟨fl, okEq, _⟩ := watching.blockerOf sound (List.mem_of_find?_eq_some search)
    exact ⟨some fl, by rw [okEq]; rfl⟩

theorem deadlockFrom_ok (watching : Watching state) (sound : ∀ inode, Sound (state.files inode))
    (caller : FileLock) (turns : Nat) (block : FileLock) :
    ∃ dead, deadlockFrom state caller turns block = .ok dead := by
  induction turns generalizing block with
  | zero =>
    obtain ⟨found, okEq⟩ := whatOwnerIsWaitingFor_ok watching sound block
    rw [deadlockFrom, okEq]
    cases found with
    | none => exact ⟨false, rfl⟩
    | some fl => exact ⟨false, rfl⟩
  | succ turns ih =>
    obtain ⟨found, okEq⟩ := whatOwnerIsWaitingFor_ok watching sound block
    rw [deadlockFrom, okEq]
    cases found with
    | none => exact ⟨false, rfl⟩
    | some fl =>
      by_cases same : posixSameOwner caller fl = true
      · exact ⟨true, if_pos same⟩
      · obtain ⟨dead, deadEq⟩ := ih fl
        exact ⟨dead, (if_neg same).trans deadEq⟩

theorem posixLockFile_ok {flags : Flags} {newFl newFl2 : Option Nat} (watching : Watching state)
    (sound : ∀ inode, Sound (state.files inode))
    (idle : ∀ waiter ∈ state.waiting.blocked, waiter.request.id ≠ request.id) :
    ∃ result, posixLockFile state inode request flags newFl newFl2 = .ok result := by
  rw [posixLockFile.eq_def]
  rcases conflict : firstConflict request (state.files inode) with _ | fl
  · by_cases access : flags.flAccess = true
    · exact ⟨_, if_pos access⟩
    · exact ⟨_, if_neg access⟩
  · by_cases sleeps : flags.flSleep = true
    swap
    · exact ⟨_, if_pos (by simpa using sleeps)⟩
    obtain ⟨dead, deadEq⟩ := deadlockFrom_ok watching sound request (MAX_DEADLK_ITERATIONS + 1) fl
    have free : locksInsertBlock state inode fl request =
        .ok ⟨state.files, ⟨request, inode, fl.id⟩ :: state.waiting.blocked,
          state.waiting.woken⟩ := by
      rw [locksInsertBlock, if_neg]
      simpa using idle
    simp only [sleeps, posixLocksDeadlock, deadEq, free, Bool.not_true, Bool.false_eq_true,
      if_false]
    cases dead
    · exact ⟨_, rfl⟩
    · exact ⟨_, rfl⟩

/-- **No waiter for a POSIX lock is stuck**: in every state that calls lead to, `fl_next` of each
waiter leads to a POSIX lock in the list of its inode, of another owner, that overlaps its
request, and one of the two is a write lock; a call that takes a waiter off wakes it, unless it
is the waiter's own `locks_delete_block`; and no call fails on a stale pointer. -/
theorem waiters_guarded {state : FileLocks} (reached : Reached state) :
    (∀ waiter ∈ state.waiting.blocked, ∃ fl, state.blockerOf waiter = .ok fl ∧
        fl ∈ state.files waiter.inode ∧
        fl.kind = .posix ∧ waiter.request.flOwner ≠ fl.flOwner ∧
        (fl.flStart ≤ waiter.request.flEnd ∧ waiter.request.flStart ≤ fl.flEnd) ∧
        (fl.flType = .wrlck ∨ waiter.request.flType = .wrlck)) ∧
      (∀ op answer next, Allowed state op → step state op = .ok (answer, next) →
        ∃ newly, next.waiting.woken = state.waiting.woken ++ newly ∧
          ∀ waiter ∈ state.waiting.blocked, waiter ∉ next.waiting.blocked →
            waiter.request.id ∈ newly ∨ op = .deleteBlock waiter.request.id) ∧
      ∀ inode request flags newFl newFl2,
          (∀ waiter ∈ state.waiting.blocked, waiter.request.id ≠ request.id) →
          ∃ result, posixLockFile state inode request flags newFl newFl2 = .ok result := by
  have sound := reached.sound
  have watching := reached.watching
  refine ⟨fun waiter member => ?_, fun op answer next allowed ran =>
      woken_step sound watching allowed ran,
    fun inode request flags newFl newFl2 idle => posixLockFile_ok watching sound idle⟩
  obtain ⟨fl, found, inLocks, conflict⟩ := watching.blockerOf sound member
  exact ⟨fl, found, inLocks, posixLocksConflict_iff.mp conflict⟩

def oneWaiter : FileLocks :=
  ⟨oneLock.files, [⟨⟨2, .posix, 8, .rdlck, 50, 59⟩, 0, 10⟩], []⟩

theorem reached_oneWaiter : Reached oneWaiter := by
  have allowed : Allowed oneLock
      (.lock 0 ⟨2, .posix, 8, .rdlck, 50, 59⟩ ⟨false, true, false⟩ (some 11) (some 12)) :=
    ⟨rfl, ⟨by decide, by decide, by decide⟩, by simp [Fresh, oneLock, FileLocks.withFile]⟩
  have ran : step oneLock (.lock 0 ⟨2, .posix, 8, .rdlck, 50, 59⟩ ⟨false, true, false⟩ (some 11)
      (some 12)) =
      .ok (⟨FILE_LOCK_DEFERRED, some ⟨10, .posix, 7, .wrlck, 0, 99⟩⟩, oneWaiter) := by
    have dead : posixLocksDeadlock oneLock ⟨2, .posix, 8, .rdlck, 50, 59⟩ ⟨10, .posix, 7, .wrlck, 0,
        99⟩ =
        .ok false := by
      rw [posixLocksDeadlock, deadlockFrom]
      rfl
    have conflict : firstConflict ⟨2, .posix, 8, .rdlck, 50, 59⟩ (oneLock.files 0) =
        some ⟨10, .posix, 7, .wrlck, 0, 99⟩ := rfl
    rw [step, posixLockFile.eq_def]
    simp only [conflict, dead]
    rfl
  exact .call reached_oneLock allowed ran

/-- The owner of the write lock gives bytes 50 to 59 back, and the reader is woken. -/
theorem waiters_guarded_unlock :
    ∃ next, step oneWaiter (.lock 0 ⟨1, .posix, 7, .unlck, 50, 59⟩ ⟨false, false, false⟩ (some 11)
        (some 12)) =
        .ok (⟨0, none⟩, next) ∧ next.waiting.blocked = [] ∧
      ∃ newly, next.waiting.woken = oneWaiter.waiting.woken ++ newly ∧
        ∀ waiter ∈ oneWaiter.waiting.blocked, waiter ∉ next.waiting.blocked →
            waiter.request.id ∈ newly ∨
            LockOp.lock 0 ⟨1, .posix, 7, .unlck, 50, 59⟩ ⟨false, false, false⟩ (some 11) (some 12) =
              .deleteBlock waiter.request.id := by
  have allowed : Allowed oneWaiter
      (.lock 0 ⟨1, .posix, 7, .unlck, 50, 59⟩ ⟨false, false, false⟩ (some 11) (some 12)) :=
    ⟨rfl, ⟨by decide, by decide, by decide⟩,
      by simp [Fresh, oneWaiter, oneLock, FileLocks.withFile]⟩
  refine ⟨_, rfl, rfl, ?_⟩
  exact (waiters_guarded reached_oneWaiter).2.1 _ _ _ allowed rfl

/-! ## Asking for a lock -/

/-- The answer of `posix_test_lock` replaces the caller's object. -/
def posixTestLock (fl : FileLock) (locks : List FileLock) : FileLock :=
  match locks.find? fun cfl => cfl.kind = .posix && posixLocksConflict fl cfl with
  | some cfl => copyLock fl.id cfl
  | none => { fl with flType := .unlck }

theorem typeAt_of_mem (arranged : Arranged locks) {fl : FileLock} (member : fl ∈ locks)
    (posix : fl.kind = .posix) :
    fl.flType ≠ .unlck ∧ ∀ byte, Covers fl byte → typeAt locks fl.flOwner byte =
      some fl.flType := by
  obtain ⟨skipped, own, back, around⟩ := arranged.around fl.flOwner
  have inOwn : fl ∈ own := by
    rw [around.whole, List.append_assoc, List.mem_append, List.mem_append] at member
    rcases member with skip | own | foreign
    · exact absurd (around.skipped_not_mine fl skip) (by simp [mine, posix])
    · exact own
    · exact absurd rfl (around.back_foreign fl foreign)
  refine ⟨(around.row.held fl inOwn).locks, fun byte covers => ?_⟩
  rw [around.whole, around.typeAt_own, typeAt_row around.row]
  exact ⟨fl, inOwn, covers, rfl⟩

/-- **`F_GETLK` reads the byte maps**: in every state that calls lead to, `posix_test_lock`
answers `F_UNLCK` exactly when no other owner has locked a byte of the range against the
request; any other answer is a lock that another owner holds and that meets the range. -/
theorem posixTestLock_byteMap (reached : Reached state) (inode : Nat) (request : FileLock)
    (proper : Proper request) :
    let locks := state.files inode
    let answer := posixTestLock request locks
    (answer.flType = .unlck ↔ ∀ owner byte type, owner ≠ request.flOwner → Covers request byte →
        typeAt locks owner byte = some type → ¬ (type = .wrlck ∨ request.flType = .wrlck)) ∧
      (answer.flType ≠ .unlck → answer.flOwner ≠ request.flOwner ∧
          (∃ byte, Covers request byte ∧ Covers answer byte) ∧
        ∀ byte, Covers answer byte → typeAt locks answer.flOwner byte = some answer.flType) := by
  have arranged := (reached.sound inode).arranged
  intro locks answer
  simp only [answer, posixTestLock]
  cases found : locks.find? fun cfl => cfl.kind = .posix && posixLocksConflict request cfl with
  | none =>
    refine ⟨⟨fun _ owner byte type differ inside locked write => ?_, fun _ => rfl⟩, fun locks =>
      absurd rfl locks⟩
    obtain ⟨fl, first, rfl⟩ := Option.map_eq_some_iff.mp locked
    have holds := List.find?_some first
    have apart := List.find?_eq_none.mp found fl (List.mem_of_find?_eq_some first)
    simp only [mine, Bool.and_eq_true, decide_eq_true_eq] at holds apart
    obtain ⟨⟨posix, rfl⟩, low, high⟩ := holds
    rw [Covers] at inside
    exact apart ⟨posix, posixLocksConflict_iff.mpr ⟨posix, differ.symm, ⟨by omega, by omega⟩,
      write⟩⟩
  | some fl =>
    have member := List.mem_of_find?_eq_some found
    have conflict := List.find?_some found
    simp only [Bool.and_eq_true, posixLocksConflict_iff] at conflict
    obtain ⟨_, posix, differ, ⟨low, high⟩, write⟩ := conflict
    obtain ⟨held, shown⟩ := typeAt_of_mem arranged member posix
    have order := (arranged.proper fl member posix).order
    have requested := proper.order
    obtain ⟨byte, inRequest, inFl⟩ : ∃ byte, Covers request byte ∧ Covers fl byte := by
      refine ⟨max request.flStart fl.flStart, ?_, ?_⟩ <;> rw [Covers] <;> omega
    refine ⟨⟨fun none => absurd none held, fun free => ?_⟩, fun _ =>
      ⟨differ.symm, ⟨byte, inRequest, inFl⟩, shown⟩⟩
    exact absurd write (free fl.flOwner byte fl.flType differ.symm inRequest (shown byte inFl))

theorem posixTestLock_byteMap_write : typeAt (oneLock.files 0) 7 99 = some .wrlck :=
  ((posixTestLock_byteMap reached_oneLock 0 ⟨3, .posix, 8, .rdlck, 50, 50⟩
    ⟨by decide, by decide, by decide⟩).2 (by decide)).2.2 99 ⟨by decide, by decide⟩

end RouterKernel.RecordLocks
