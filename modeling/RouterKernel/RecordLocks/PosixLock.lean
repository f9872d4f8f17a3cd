import RouterKernel.Abi

/-!
Contract: POSIX record locks of fs/locks.c.

Owns:
- `FileLock`, a lock object, the lists of locks of all inodes and the waiters;
- `posixLocksConflict` and `posixLocksDeadlock`;
- `scan`, the loop of `__posix_lock_file` over the locks of one owner, and `finish`, what
  comes behind it;
- `posixLockFile`, `locksDeleteBlock`, and `step`, one call.

Does not own: what the calls do to the maps of the owners (`RecordLocks.ByteMap`) and to the
waiters (`RecordLocks.Waiters`).

A lock object is known by its address `id`.  `request` points to the caller's object at first
and to a lock of the list later.  The model keeps the object that it points to, and when that
object is in the list, its entry there follows each change.
-/

namespace RouterKernel.RecordLocks

open RouterKernel.Foundation

def ENOENT : Int := 2
def EDEADLK : Int := 35
def ENOLCK : Int := 37
def FILE_LOCK_DEFERRED : Int := 1

def OFFSET_MAX : Int := 2 ^ 63 - 1

/-- The value of an expression of the 64-bit type `loff_t`. -/
def loff (value : Int) : Int := value.bmod (2 ^ 64)

inductive LockType
  | rdlck
  | wrlck
  | unlck
  deriving DecidableEq, Repr

/-- `FL_POSIX`, `FL_FLOCK` and `FL_LEASE`. -/
inductive LockKind
  | posix
  | flock
  | lease
  deriving DecidableEq, Repr

structure FileLock where
  id : Nat
  kind : LockKind
  flOwner : Nat
  flType : LockType
  flStart : Int
  flEnd : Int
  deriving DecidableEq, Repr

/-- A request on `blocked_list`, with the lock that its `fl_next` points to. -/
structure Waiter where
  request : FileLock
  inode : Nat
  blocker : Nat
  deriving DecidableEq, Repr

/-- `blocked_list`, newest first, and the requests woken so far. -/
structure Waiting where
  blocked : List Waiter
  woken : List Nat
  deriving DecidableEq, Repr

structure FileLocks where
  files : Nat → List FileLock
  waiting : Waiting

/-- `locks_wake_up_blocks`: the waiters of a blocker in the order in which they blocked. -/
def locksWakeUpBlocks (blocker : Nat) (waiting : Waiting) : Waiting :=
  ⟨waiting.blocked.filter fun waiter => waiter.blocker ≠ blocker,
    waiting.woken ++ ((waiting.blocked.filter fun waiter => waiter.blocker = blocker).reverse.map
      fun waiter => waiter.request.id)⟩

def locksOverlap (fl1 fl2 : FileLock) : Bool :=
  decide (fl1.flEnd ≥ fl2.flStart) && decide (fl2.flEnd ≥ fl1.flStart)

def posixSameOwner (fl1 fl2 : FileLock) : Bool := fl1.flOwner = fl2.flOwner

def locksConflict (caller sys : FileLock) : Bool :=
  if sys.flType = .wrlck then true else if caller.flType = .wrlck then true else false

def posixLocksConflict (caller sys : FileLock) : Bool :=
  if sys.kind ≠ .posix ∨ posixSameOwner caller sys then false
  else if !locksOverlap caller sys then false
  else locksConflict caller sys

/-! ## Deadlock detection -/

def MAX_DEADLK_ITERATIONS : Nat := 10

/-- The lock that a waiter's `fl_next` points to. -/
def FileLocks.blockerOf (state : FileLocks) (waiter : Waiter) : Except Fault FileLock :=
  match (state.files waiter.inode).find? fun fl => fl.id = waiter.blocker with
  | none => .error (.useAfterFree waiter.blocker)
  | some fl => .ok fl

def whatOwnerIsWaitingFor (state : FileLocks) (block : FileLock) : Except Fault (Option FileLock) :=
  match state.waiting.blocked.find? fun waiter => posixSameOwner waiter.request block with
  | none => .ok none
  | some waiter => do
    let fl ← state.blockerOf waiter
    return some fl

/-- The loop of `posix_locks_deadlock`, with the turns it has left. -/
def deadlockFrom (state : FileLocks) (caller : FileLock) :
    (turns : Nat) → FileLock → Except Fault Bool
  | turns, block => do
    match ← whatOwnerIsWaitingFor state block with
    | none => return false
    | some block =>
      match turns with
      | 0 => return false
      | turns + 1 =>
        if posixSameOwner caller block then return true else deadlockFrom state caller turns block

def posixLocksDeadlock (state : FileLocks) (caller block : FileLock) : Except Fault Bool :=
  deadlockFrom state caller (MAX_DEADLK_ITERATIONS + 1) block

/-! ## The locks of one owner -/

/-- The variables of the loop: the locks in front of `before`, and those of the source. -/
structure Scan where
  passed : List FileLock
  request : FileLock
  added : Bool
  left : Option FileLock
  right : Option FileLock
  waiting : Waiting

/-- The object at an address has changed. -/
def replaceLock (lock : FileLock) (locks : List FileLock) : List FileLock :=
  locks.map fun fl => if fl.id = lock.id then lock else fl

/-- The smallest range that holds those of two locks of one type, in the object of the first. -/
def hull (fl other : FileLock) : FileLock :=
  ⟨fl.id, fl.kind, fl.flOwner, fl.flType, if fl.flStart > other.flStart then other.flStart
      else fl.flStart,
    if fl.flEnd < other.flEnd then other.flEnd else fl.flEnd⟩

namespace Scan

/-- `before = &fl->fl_next`. -/
def pass (s : Scan) (fl : FileLock) : Scan :=
  ⟨s.passed ++ [fl], s.request, s.added, s.left, s.right, s.waiting⟩

/-- `locks_delete_lock(before)`. -/
def delete (s : Scan) (fl : FileLock) : Scan :=
  ⟨s.passed, s.request, s.added, s.left, s.right, locksWakeUpBlocks fl.id s.waiting⟩

/-- A lock of the same type grows to take the request in, and becomes the request. -/
def extend (s : Scan) (fl : FileLock) : Scan :=
  ⟨s.passed ++ [hull fl s.request], hull fl s.request, true, s.left, s.right, s.waiting⟩

/-- The request, which is in the list, grows to take another lock in, which is deleted. -/
def absorb (s : Scan) (fl : FileLock) : Scan :=
  ⟨replaceLock (hull s.request fl) s.passed, hull s.request fl, s.added, s.left, s.right,
    locksWakeUpBlocks fl.id s.waiting⟩

/-- A lock of another type takes the request's range and type, and becomes the request. -/
def replace (s : Scan) (fl : FileLock) : Scan :=
  let changed : FileLock :=
    ⟨fl.id, fl.kind, fl.flOwner, s.request.flType, s.request.flStart, s.request.flEnd⟩
  ⟨s.passed ++ [changed], changed, true, s.left, s.right, locksWakeUpBlocks fl.id s.waiting⟩

/-- A lock of another type overlaps: an unlock counts as done, and what lies below the request
is remembered. -/
def overlap (s : Scan) (fl : FileLock) : Scan :=
  ⟨s.passed, s.request, if s.request.flType = .unlck then true else s.added,
    if fl.flStart < s.request.flStart then some fl else s.left, s.right, s.waiting⟩

/-- A lock that reaches behind the request. -/
def reach (s : Scan) (fl : FileLock) : Scan :=
  ⟨s.passed, s.request, s.added, s.left, some fl, s.waiting⟩

end Scan

/-- The loop over the locks of the request's owner, with the locks from `before` on. -/
def scan : Scan → List FileLock → Scan × List FileLock
  | s, [] => (s, [])
  | s, fl :: rest =>
    if !posixSameOwner s.request fl then (s, fl :: rest)
    else if s.request.flType = fl.flType then
      if fl.flEnd < loff (s.request.flStart - 1) then scan (s.pass fl) rest
      else if loff (fl.flStart - 1) > s.request.flEnd then (s, fl :: rest)
      else if s.added then scan (s.absorb fl) rest
      else scan (s.extend fl) rest
    else
      if fl.flEnd < s.request.flStart then scan (s.pass fl) rest
      else if fl.flStart > s.request.flEnd then (s, fl :: rest)
      else if fl.flEnd > s.request.flEnd then ((s.overlap fl).reach fl, fl :: rest)
      else if fl.flStart ≥ s.request.flStart then
        if (s.overlap fl).added then scan ((s.overlap fl).delete fl) rest
        else scan ((s.overlap fl).replace fl) rest
      else scan ((s.overlap fl).pass fl) rest

structure Flags where
  flAccess : Bool
  flSleep : Bool
  flExists : Bool
  deriving DecidableEq, Repr

def copyLock (id : Nat) (lock : FileLock) : FileLock :=
  ⟨id, lock.kind, lock.flOwner, lock.flType, lock.flStart, lock.flEnd⟩

def trimRight (request : FileLock) (right : Option FileLock) (locks : List FileLock)
    (waiting : Waiting) : List FileLock × Waiting :=
  match right with
  | none => (locks, waiting)
  | some fl =>
    (replaceLock ⟨fl.id, fl.kind, fl.flOwner, fl.flType, loff (request.flEnd + 1), fl.flEnd⟩ locks,
      locksWakeUpBlocks fl.id waiting)

def trimLeft (request : FileLock) (left : Option FileLock) (locks : List FileLock)
    (waiting : Waiting) : List FileLock × Waiting :=
  match left with
  | none => (locks, waiting)
  | some fl =>
    (replaceLock ⟨fl.id, fl.kind, fl.flOwner, fl.flType, fl.flStart,
        loff (request.flStart - 1)⟩ locks,
      locksWakeUpBlocks fl.id waiting)

/-- One lock is broken in two: `left == right`. -/
def Scan.splits (s : Scan) : Bool :=
  match s.left, s.right with
  | some left, some right => left.id = right.id
  | _, _ => false

/-- Insert the second new lock if one lock is broken in two, and trim. -/
def settle (s : Scan) (rest : List FileLock) (newFl2 : Option Nat) : List FileLock × Waiting :=
  let (left, rest) :=
    match s.splits, s.right, newFl2 with
    | true, some right, some id => (some (copyLock id right), copyLock id right :: rest)
    | _, _, _ => (s.left, rest)
  let (locks, waiting) := trimRight s.request s.right (s.passed ++ rest) s.waiting
  trimLeft s.request left locks waiting

/-- What follows the loop: the value returned, the list and the waiters. -/
def finish (s : Scan) (rest : List FileLock) (flags : Flags) (newFl newFl2 : Option Nat) :
    Int × List FileLock × Waiting :=
  if s.splits && newFl2.isNone then (-ENOLCK, s.passed ++ rest, s.waiting)
  else if s.added then (0, settle s rest newFl2)
  else if s.request.flType = .unlck then
    (if flags.flExists then -ENOENT else 0, s.passed ++ rest, s.waiting)
  else
    match newFl with
    | none => (-ENOLCK, s.passed ++ rest, s.waiting)
    | some id => (0, settle s (copyLock id s.request :: rest) newFl2)

/-! ## Calls -/

/-- What a call returns, with the lock copied into `conflock`. -/
structure Answer where
  error : Int
  conflock : Option FileLock
  deriving DecidableEq, Repr

def FileLocks.withFile (state : FileLocks) (inode : Nat) (locks : List FileLock)
    (waiting : Waiting) : FileLocks :=
  ⟨Function.update state.files inode locks, waiting⟩

def locksInsertBlock (state : FileLocks) (inode : Nat) (blocker waiter : FileLock) :
    Except Fault FileLocks :=
  if state.waiting.blocked.any fun other => other.request.id = waiter.id then .error .bug
  else .ok ⟨state.files, ⟨waiter, inode, blocker.id⟩ :: state.waiting.blocked, state.waiting.woken⟩

/-- Whether new objects are allocated in advance. -/
def needsNew (request : FileLock) (flags : Flags) : Bool :=
  !flags.flAccess && (request.flType ≠ .unlck || request.flStart ≠ 0 || request.flEnd ≠ OFFSET_MAX)

/-- The first lock of the list that the request conflicts with. -/
def firstConflict (request : FileLock) (locks : List FileLock) : Option FileLock :=
  if request.flType ≠ .unlck then
    locks.find? fun fl => fl.kind = .posix && posixLocksConflict request fl
  else none

/-- The locks that are skipped, and those from the first of the request's owner on. -/
def skipOthers (request : FileLock) (locks : List FileLock) : List FileLock × List FileLock :=
  locks.span fun fl => fl.kind ≠ .posix || !posixSameOwner request fl

/-- `__posix_lock_file`, where `newFl` and `newFl2` are what `locks_alloc_lock` returns. -/
def posixLockFile (state : FileLocks) (inode : Nat) (request : FileLock) (flags : Flags)
    (newFl newFl2 : Option Nat) : Except Fault (Answer × FileLocks) :=
  let newFl := if needsNew request flags then newFl else none
  let newFl2 := if needsNew request flags then newFl2 else none
  match firstConflict request (state.files inode) with
  | some fl =>
    if !flags.flSleep then .ok (⟨-EAGAIN, some fl⟩, state)
    else do
      let deadlock ← posixLocksDeadlock state request fl
      if deadlock then return (⟨-EDEADLK, some fl⟩, state)
      else
        let next ← locksInsertBlock state inode fl request
        return (⟨FILE_LOCK_DEFERRED, some fl⟩, next)
  | none =>
    if flags.flAccess then .ok (⟨0, none⟩, state)
    else
      let (skipped, rest) := skipOthers request (state.files inode)
      let (s, rest) := scan ⟨skipped, request, false, none, none, state.waiting⟩ rest
      let (error, locks, waiting) := finish s rest flags newFl newFl2
      .ok (⟨error, none⟩, state.withFile inode locks waiting)

def locksDeleteBlock (state : FileLocks) (waiter : Nat) : FileLocks :=
  ⟨state.files, state.waiting.blocked.filter fun other => other.request.id ≠ waiter,
    state.waiting.woken⟩

inductive LockOp
  | lock (inode : Nat) (request : FileLock) (flags : Flags) (newFl newFl2 : Option Nat)
  | deleteBlock (waiter : Nat)
  | others (inode : Nat) (locks : List FileLock)

def step (state : FileLocks) : LockOp → Except Fault (Answer × FileLocks)
  | .lock inode request flags newFl newFl2 => posixLockFile state inode request flags newFl newFl2
  | .deleteBlock waiter => .ok (⟨0, none⟩, locksDeleteBlock state waiter)
  | .others inode locks =>
    .ok (⟨0, none⟩, state.withFile inode
      (locks ++ (state.files inode).filter fun fl => fl.kind = .posix) state.waiting)

end RouterKernel.RecordLocks
