import RouterKernel.RecordLocks.PosixLock
import RouterKernel.Foundation.Checked

/-!
Contract: what the loop of `__posix_lock_file` can do.

Owns:
- `Move`, one turn that goes on, with the comparisons that lead to it;
- `Stop`, the turn that ends the loop;
- `scan_moves`: the loop is a chain of moves and a stop;
- `Ending`, what can follow the loop;
- `Called`, what a call can do.

Does not own: what a move keeps (`RecordLocks.ByteMap`, `RecordLocks.Waiters`).
-/

namespace RouterKernel.RecordLocks

open RouterKernel.Foundation

/-- A turn of the loop that goes on with the next lock. -/
inductive Move : Scan × List FileLock → Scan × List FileLock → Prop
  | skipSame {s : Scan} {fl : FileLock} {rest : List FileLock} (own : s.request.flOwner =
      fl.flOwner)
      (same : s.request.flType = fl.flType) (before : fl.flEnd < loff (s.request.flStart - 1)) :
      Move (s, fl :: rest) (s.pass fl, rest)
  | absorb {s : Scan} {fl : FileLock} {rest : List FileLock} (own : s.request.flOwner = fl.flOwner)
      (same : s.request.flType = fl.flType) (reaches : loff (s.request.flStart - 1) ≤ fl.flEnd)
      (begins : loff (fl.flStart - 1) ≤ s.request.flEnd) (added : s.added = true) :
      Move (s, fl :: rest) (s.absorb fl, rest)
  | extend {s : Scan} {fl : FileLock} {rest : List FileLock} (own : s.request.flOwner = fl.flOwner)
      (same : s.request.flType = fl.flType) (reaches : loff (s.request.flStart - 1) ≤ fl.flEnd)
      (begins : loff (fl.flStart - 1) ≤ s.request.flEnd) (fresh : s.added = false) :
      Move (s, fl :: rest) (s.extend fl, rest)
  | skipOther {s : Scan} {fl : FileLock} {rest : List FileLock} (own : s.request.flOwner =
      fl.flOwner)
      (differ : s.request.flType ≠ fl.flType) (before : fl.flEnd < s.request.flStart) :
      Move (s, fl :: rest) (s.pass fl, rest)
  | delete {s : Scan} {fl : FileLock} {rest : List FileLock} (own : s.request.flOwner = fl.flOwner)
      (differ : s.request.flType ≠ fl.flType) (inside : s.request.flStart ≤ fl.flStart)
      (ends : fl.flEnd ≤ s.request.flEnd) (overlaps : s.request.flStart ≤ fl.flEnd)
      (added : (s.overlap fl).added = true) :
      Move (s, fl :: rest) ((s.overlap fl).delete fl, rest)
  | replace {s : Scan} {fl : FileLock} {rest : List FileLock} (own : s.request.flOwner = fl.flOwner)
      (differ : s.request.flType ≠ fl.flType) (inside : s.request.flStart ≤ fl.flStart)
      (ends : fl.flEnd ≤ s.request.flEnd) (overlaps : s.request.flStart ≤ fl.flEnd)
      (fresh : (s.overlap fl).added = false) :
      Move (s, fl :: rest) ((s.overlap fl).replace fl, rest)
  | below {s : Scan} {fl : FileLock} {rest : List FileLock} (own : s.request.flOwner = fl.flOwner)
      (differ : s.request.flType ≠ fl.flType) (begins : fl.flStart < s.request.flStart)
      (overlaps : s.request.flStart ≤ fl.flEnd) (ends : fl.flEnd ≤ s.request.flEnd) :
      Move (s, fl :: rest) ((s.overlap fl).pass fl, rest)

inductive Stop : Scan × List FileLock → Scan × List FileLock → Prop
  | none (s : Scan) : Stop (s, []) (s, [])
  | foreign {s : Scan} {fl : FileLock} {rest : List FileLock} (other : s.request.flOwner ≠
      fl.flOwner) :
      Stop (s, fl :: rest) (s, fl :: rest)
  | beyondSame {s : Scan} {fl : FileLock} {rest : List FileLock} (own : s.request.flOwner =
      fl.flOwner)
      (same : s.request.flType = fl.flType) (beyond : s.request.flEnd < loff (fl.flStart - 1)) :
      Stop (s, fl :: rest) (s, fl :: rest)
  | beyondOther {s : Scan} {fl : FileLock} {rest : List FileLock} (own : s.request.flOwner =
      fl.flOwner)
      (differ : s.request.flType ≠ fl.flType) (beyond : s.request.flEnd < fl.flStart) :
      Stop (s, fl :: rest) (s, fl :: rest)
  | reach {s : Scan} {fl : FileLock} {rest : List FileLock} (own : s.request.flOwner = fl.flOwner)
      (differ : s.request.flType ≠ fl.flType) (begins : fl.flStart ≤ s.request.flEnd)
      (reaches : s.request.flEnd < fl.flEnd) (overlaps : s.request.flStart ≤ fl.flEnd) :
      Stop (s, fl :: rest) ((s.overlap fl).reach fl, fl :: rest)

theorem scan_turn (s : Scan) (fl : FileLock) (rest : List FileLock) :
    Stop (s, fl :: rest) (scan s (fl :: rest)) ∨
      ∃ next, Move (s, fl :: rest) (next, rest) ∧ scan s (fl :: rest) = scan next rest := by
  rw [scan]
  by_cases own : s.request.flOwner = fl.flOwner
  swap
  · left
    rw [if_pos (by simp [posixSameOwner, own])]
    exact .foreign own
  rw [if_neg (by simp [posixSameOwner, own])]
  by_cases same : s.request.flType = fl.flType
  · rw [if_pos same]
    by_cases before : fl.flEnd < loff (s.request.flStart - 1)
    · exact .inr ⟨_, .skipSame own same before, if_pos before⟩
    rw [if_neg before]
    by_cases beyond : loff (fl.flStart - 1) > s.request.flEnd
    · rw [if_pos beyond]
      exact .inl (.beyondSame own same beyond)
    rw [if_neg beyond]
    by_cases added : s.added = true
    · exact .inr ⟨_, .absorb own same (not_lt.mp before) (not_lt.mp beyond) added, if_pos added⟩
    · exact .inr ⟨_, .extend own same (not_lt.mp before) (not_lt.mp beyond)
        (eq_false_of_ne_true added), if_neg added⟩
  · rw [if_neg same]
    by_cases before : fl.flEnd < s.request.flStart
    · exact .inr ⟨_, .skipOther own same before, if_pos before⟩
    rw [if_neg before]
    by_cases beyond : fl.flStart > s.request.flEnd
    · rw [if_pos beyond]
      exact .inl (.beyondOther own same beyond)
    rw [if_neg beyond]
    by_cases reaches : fl.flEnd > s.request.flEnd
    · left
      rw [if_pos reaches]
      exact .reach own same (not_lt.mp beyond) reaches (not_lt.mp before)
    by_cases inside : fl.flStart ≥ s.request.flStart
    · by_cases added : (s.overlap fl).added = true
      · refine .inr ⟨_, .delete own same inside (not_lt.mp reaches) (not_lt.mp before) added, ?_⟩
        rw [if_neg reaches, if_pos inside, if_pos added]
      · refine .inr ⟨_, .replace own same inside (not_lt.mp reaches) (not_lt.mp before)
          (eq_false_of_ne_true added), ?_⟩
        rw [if_neg reaches, if_pos inside, if_neg added]
    · refine .inr ⟨_, .below own same (not_le.mp inside) (not_lt.mp before) (not_lt.mp reaches), ?_⟩
      rw [if_neg reaches, if_neg inside]

/-- **The loop** is a chain of moves and a stop. -/
theorem scan_moves (s : Scan) (rest : List FileLock) :
    ∃ last, Relation.ReflTransGen Move (s, rest) last ∧ Stop last (scan s rest) := by
  induction rest generalizing s with
  | nil => exact ⟨(s, []), .refl, .none s⟩
  | cons fl rest ih =>
    rcases scan_turn s fl rest with stops | ⟨next, moves, same⟩
    · exact ⟨_, .refl, stops⟩
    · obtain ⟨last, chain, stops⟩ := ih next
      exact ⟨last, .head moves chain, same ▸ stops⟩

inductive Ending (s : Scan) (rest : List FileLock) (newFl newFl2 : Option Nat) :
    Int × List FileLock × Waiting → Prop
  | noSecond (splits : s.splits = true) (none : newFl2 = none) :
      Ending s rest newFl newFl2 (-ENOLCK, s.passed ++ rest, s.waiting)
  | noFirst (fresh : s.added = false) (locks : s.request.flType ≠ .unlck) (none : newFl = none) :
      Ending s rest newFl newFl2 (-ENOLCK, s.passed ++ rest, s.waiting)
  | nothing {error : Int} (fresh : s.added = false) (unlock : s.request.flType = .unlck)
      (apart : s.splits = true → newFl2 ≠ none) :
      Ending s rest newFl newFl2 (error, s.passed ++ rest, s.waiting)
  | inPlace (added : s.added = true) (apart : s.splits = true → newFl2 ≠ none) :
      Ending s rest newFl newFl2 (0, settle s rest newFl2)
  | inserted {id : Nat} (fresh : s.added = false) (locks : s.request.flType ≠ .unlck)
      (new : newFl = some id)
      (apart : s.splits = true → newFl2 ≠ none) :
      Ending s rest newFl newFl2 (0, settle s (copyLock id s.request :: rest) newFl2)

theorem finish_ending (s : Scan) (rest : List FileLock) (flags : Flags)
    (newFl newFl2 : Option Nat) :
    Ending s rest newFl newFl2 (finish s rest flags newFl newFl2) := by
  rw [finish.eq_def]
  by_cases short : (s.splits && newFl2.isNone) = true
  · rw [if_pos short]
    rw [Bool.and_eq_true, Option.isNone_iff_eq_none] at short
    exact .noSecond short.1 short.2
  rw [if_neg short]
  have apart : s.splits = true → newFl2 ≠ none := by
    intro splits none
    simp [splits, none] at short
  by_cases added : s.added = true
  · rw [if_pos added]
    exact .inPlace added apart
  rw [if_neg added]
  have fresh := eq_false_of_ne_true added
  by_cases unlock : s.request.flType = .unlck
  · rw [if_pos unlock]
    exact .nothing fresh unlock apart
  rw [if_neg unlock]
  rcases new : newFl with _ | id
  · exact .noFirst fresh unlock rfl
  · exact .inserted fresh unlock rfl apart

theorem settle_apart {s : Scan} (apart : s.splits = false) (rest : List FileLock)
    (newFl2 : Option Nat) :
    settle s rest newFl2 =
        trimLeft s.request s.left (trimRight s.request s.right (s.passed ++ rest) s.waiting).1
        (trimRight s.request s.right (s.passed ++ rest) s.waiting).2 := by
  simp only [settle, apart]

theorem settle_split {s : Scan} {fl : FileLock} (left : s.left = some fl)
    (right : s.right = some fl)
    (rest : List FileLock) (id : Nat) :
    settle s rest (some id) = trimLeft s.request (some (copyLock id fl))
        (trimRight s.request (some fl) (s.passed ++ copyLock id fl :: rest) s.waiting).1
        (trimRight s.request (some fl) (s.passed ++ copyLock id fl :: rest) s.waiting).2 := by
  have splits : s.splits = true := by simp [Scan.splits, left, right]
  simp only [settle, splits, right]

def lockOwner (state : FileLocks) (inode : Nat) (request : FileLock) (flags : Flags)
    (newFl newFl2 : Option Nat) : Int × List FileLock × Waiting :=
  let skipped := skipOthers request (state.files inode)
  let last := scan ⟨skipped.1, request, false, none, none, state.waiting⟩ skipped.2
  finish last.1 last.2 flags (if needsNew request flags then newFl else none)
    (if needsNew request flags then newFl2 else none)

/-- What a call of `__posix_lock_file` can do. -/
inductive Called (state : FileLocks) (inode : Nat) (request : FileLock) (flags : Flags)
    (newFl newFl2 : Option Nat) : Answer × FileLocks → Prop
  | refused {error : Int} {fl : FileLock} (fails : error ≠ 0)
      (conflict : firstConflict request (state.files inode) = some fl) :
      Called state inode request flags newFl newFl2 (⟨error, some fl⟩, state)
  | queued {fl : FileLock} (conflict : firstConflict request (state.files inode) = some fl) :
      Called state inode request flags newFl newFl2
        (⟨FILE_LOCK_DEFERRED, some fl⟩,
          ⟨state.files, ⟨request, inode, fl.id⟩ :: state.waiting.blocked, state.waiting.woken⟩)
  | tested (access : flags.flAccess = true) :
    Called state inode request flags newFl newFl2 (⟨0, none⟩, state)
  | done (free : firstConflict request (state.files inode) = none) (access : flags.flAccess =
      false) :
      Called state inode request flags newFl newFl2
        (⟨(lockOwner state inode request flags newFl newFl2).1, none⟩,
          state.withFile inode (lockOwner state inode request flags newFl newFl2).2.1
            (lockOwner state inode request flags newFl newFl2).2.2)

theorem posixLockFile_called {state : FileLocks} {inode : Nat} {request : FileLock} {flags : Flags}
    {newFl newFl2 : Option Nat} {result : Answer × FileLocks}
    (ran : posixLockFile state inode request flags newFl newFl2 = .ok result) :
    Called state inode request flags newFl newFl2 result := by
  rw [posixLockFile.eq_def] at ran
  rcases conflict : firstConflict request (state.files inode) with _ | fl
  · simp only [conflict] at ran
    by_cases access : flags.flAccess = true
    · rw [if_pos access] at ran
      cases ran
      exact .tested access
    · rw [if_neg access] at ran
      cases ran
      exact .done conflict (eq_false_of_ne_true access)
  · simp only [conflict] at ran
    by_cases sleeps : flags.flSleep = true
    swap
    · rw [if_pos (by simpa using sleeps)] at ran
      cases ran
      exact .refused (by decide) conflict
    rw [if_neg (by simp [sleeps])] at ran
    obtain ⟨deadlock, _, ran⟩ := exists_of_bind_ok ran
    by_cases dead : deadlock = true
    · rw [if_pos dead] at ran
      cases ran
      exact .refused (by decide) conflict
    rw [if_neg dead] at ran
    obtain ⟨next, inserted, ran⟩ := exists_of_bind_ok ran
    cases ran
    rw [locksInsertBlock] at inserted
    split at inserted
    · cases inserted
    · cases inserted
      exact .queued conflict

end RouterKernel.RecordLocks
