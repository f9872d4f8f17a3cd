import RouterKernel.RecordLocks.Rows

/-!
Contract: the run of `__posix_lock_file` over the locks of the request's owner.

Owns:
- `Along`, where the loop stands: the locks passed, the request's own entry among them, and
  the locks ahead;
- `Scanned.move`, that each turn keeps it;
- `finish_spec`: an error leaves the owner's locks as they were, and success leaves a row
  with the request in force.

Does not own: the other owners (`RecordLocks.ByteMap`), the waiters (`RecordLocks.Waiters`).
-/

namespace RouterKernel.RecordLocks

def ids (locks : List FileLock) : List Nat := locks.map FileLock.id

@[simp] theorem ids_append (left right : List FileLock) :
    ids (left ++ right) = ids left ++ ids right :=
  List.map_append

@[simp] theorem ids_cons (fl : FileLock) (locks : List FileLock) :
    ids (fl :: locks) = fl.id :: ids locks := rfl

@[simp] theorem ids_nil : ids [] = [] := rfl

theorem replaceLock_of_notMem {lock : FileLock} {locks : List FileLock}
    (away : lock.id ∉ ids locks) :
    replaceLock lock locks = locks := by
  rw [replaceLock]
  refine (List.map_congr_left fun fl member => if_neg fun same => away ?_).trans
    (List.map_id' locks)
  exact same ▸ List.mem_map_of_mem member

theorem replaceLock_at {lock fl : FileLock} {left right : List FileLock}
    (distinct : (ids (left ++ fl :: right)).Nodup) (same : lock.id = fl.id) :
    replaceLock lock (left ++ fl :: right) = left ++ lock :: right := by
  rw [ids_append, ids_cons, List.nodup_append, List.nodup_cons] at distinct
  obtain ⟨_, ⟨notRight, _⟩, apart⟩ := distinct
  have keepLeft : replaceLock lock left = left :=
    replaceLock_of_notMem fun member => apart _ member _ List.mem_cons_self same
  have keepRight : replaceLock lock right = right := replaceLock_of_notMem (same ▸ notRight)
  rw [replaceLock] at keepLeft keepRight ⊢
  rw [List.map_append, List.map_cons, keepLeft, keepRight, if_pos same.symm]

/-- What the loop starts from: the locks skipped, those of the owner and those behind; and what
is to be locked in the end. -/
structure Ground where
  owner : Nat
  map : Int → LockType → Prop
  skipped : List FileLock
  own : List FileLock
  back : List FileLock

def Ground.locks (g : Ground) : List FileLock := g.skipped ++ g.own ++ g.back

structure Ground.Fits (g : Ground) : Prop where
  distinct : (ids g.locks).Nodup
  foreign : ∀ fl ∈ g.back, fl.flOwner ≠ g.owner

def Scan.entry (s : Scan) : List FileLock :=
  if s.added = true ∧ s.request.flType ≠ .unlck then [s.request] else []

theorem Scan.entry_fresh {s : Scan} (fresh : s.added = false) : s.entry = [] :=
  if_neg (by simp [fresh])

theorem Scan.entry_unlock {s : Scan} (unlock : s.request.flType = .unlck) : s.entry = [] :=
  if_neg (by simp [unlock])

theorem Scan.entry_added {s : Scan} (added : s.added = true) (locks : s.request.flType ≠ .unlck) :
    s.entry = [s.request] :=
  if_pos ⟨added, locks⟩

/-- The loop has left `front` and `lefts` and has `rest` ahead. -/
structure Along (g : Ground) (front lefts rest : List FileLock) (s : Scan) : Prop where
  passed : s.passed = g.skipped ++ front ++ lefts ++ s.entry
  placed : Placed g.owner g.map s.request front lefts rest
  posix : s.request.kind = .posix
  owned : s.request.flOwner = g.owner
  left : s.left.toList = lefts
  right : s.right = none
  later : s.added = true → ∀ fl ∈ rest, s.request.flStart < fl.flStart
  unchanged : s.added = false → front ++ lefts ++ rest = g.own
  unlock : s.added = false → s.request.flType = .unlck → lefts = []
  kept : (ids (s.passed ++ (rest ++ g.back))).Sublist (ids g.locks)

/-- Where the loop stands, with the list from `before` on. -/
def Scanned (g : Ground) (current : Scan × List FileLock) : Prop :=
  ∃ front lefts rest, current.2 = rest ++ g.back ∧ Along g front lefts rest current.1

theorem hull_range (fl other : FileLock) : (hull fl other).flStart = min fl.flStart other.flStart ∧
    (hull fl other).flEnd = max fl.flEnd other.flEnd := by
  simp only [hull]
  constructor <;> split <;> omega

namespace Along

variable {g : Ground} {front lefts rest : List FileLock} {s : Scan} {fl : FileLock}

section

variable (along : Along g front lefts (fl :: rest) s)

include along

theorem untouched (begins : fl.flStart ≤ s.request.flStart) : s.added = false ∧ lefts = [] := by
  constructor
  · by_contra added
    have := along.later (eq_true_of_ne_false added) fl List.mem_cons_self
    omega
  · by_contra some
    have := along.placed.start_lt_of_cut some fl List.mem_cons_self
    omega

theorem request_lt_later
    (begins : s.request.flStart ≤ fl.flEnd) :
      ∀ later ∈ rest, s.request.flStart < later.flStart := by
  intro later member
  have := (along.placed.head_before later member).1
  omega

theorem skip (before : Before fl s.request) : Along g (front ++ [fl]) [] rest (s.pass fl) := by
  have order := along.placed.head_held.proper.order
  obtain ⟨fresh, noLefts⟩ := along.untouched (order.trans before.1.le)
  subst noLefts
  have entry : (s.pass fl).entry = [] := Scan.entry_fresh fresh
  refine ⟨?_, along.placed.skip before, along.posix, along.owned, along.left, along.right, ?_, ?_,
    ?_, ?_⟩
  · rw [entry]
    simp [Scan.pass, along.passed, Scan.entry_fresh fresh]
  · intro added
    rw [show (s.pass fl).added = s.added from rfl, fresh] at added
    contradiction
  · intro _
    rw [← along.unchanged fresh]
    simp
  · exact fun _ _ => rfl
  · have same : (s.pass fl).passed ++ (rest ++ g.back) = s.passed ++ (fl :: rest ++ g.back) := by
      simp [Scan.pass]
    rw [same]
    exact along.kept

theorem below (cut : Cut fl s.request) : Along g front [fl] rest ((s.overlap fl).pass fl) := by
  obtain ⟨fresh, noLefts⟩ := along.untouched cut.begins.le
  subst noLefts
  have entry : ((s.overlap fl).pass fl).entry = [] := by
    by_cases unlock : s.request.flType = .unlck
    · exact Scan.entry_unlock unlock
    · exact Scan.entry_fresh (by simp [Scan.pass, Scan.overlap, unlock, fresh])
  refine ⟨?_, along.placed.below cut, along.posix, along.owned, ?_, along.right, ?_, ?_, ?_, ?_⟩
  · rw [entry]
    simp [Scan.pass, Scan.overlap, along.passed, Scan.entry_fresh fresh]
  · simp [Scan.pass, Scan.overlap, cut.begins]
  · exact fun _ => along.request_lt_later cut.reaches
  · intro _
    rw [← along.unchanged fresh]
    simp
  · intro untouched unlock
    have unlock : s.request.flType = .unlck := unlock
    simp [Scan.pass, Scan.overlap, unlock] at untouched
  · have same : ((s.overlap fl).pass fl).passed ++ (rest ++ g.back) =
      s.passed ++ (fl :: rest ++ g.back) := by
      simp [Scan.pass, Scan.overlap]
    rw [same]
    exact along.kept

theorem kept_tail : (ids (s.passed ++ (rest ++ g.back))).Sublist (ids g.locks) := by
  refine List.Sublist.trans ?_ along.kept
  simp only [ids_append, ids_cons, List.cons_append]
  exact (List.Sublist.refl _).append (List.sublist_cons_self _ _)

theorem delete (inside : s.request.flStart ≤ fl.flStart) (ends : fl.flEnd ≤ s.request.flEnd)
    (added : (s.overlap fl).added = true) :
    Along g front lefts rest ((s.overlap fl).delete fl) := by
  have order := along.placed.head_held.proper.order
  have entry : ((s.overlap fl).delete fl).entry = s.entry := by
    by_cases unlock : s.request.flType = .unlck
    · rw [Scan.entry_unlock unlock]
      exact Scan.entry_unlock unlock
    · simp [Scan.entry, Scan.overlap, Scan.delete, unlock]
  refine ⟨?_, along.placed.inside inside ends, along.posix, along.owned, ?_, along.right, ?_, ?_,
    ?_, ?_⟩
  · rw [entry]
    exact along.passed
  · simp [Scan.overlap, Scan.delete, not_lt.mpr inside, along.left]
  · exact fun _ => along.request_lt_later (inside.trans order)
  · intro untouched
    rw [show ((s.overlap fl).delete fl).added = (s.overlap fl).added from rfl, added] at untouched
    contradiction
  · intro untouched
    rw [show ((s.overlap fl).delete fl).added = (s.overlap fl).added from rfl, added] at untouched
    contradiction
  · exact along.kept_tail

theorem extend (same : s.request.flType = fl.flType) (reaches : s.request.flStart - 1 ≤ fl.flEnd)
    (begins : fl.flStart - 1 ≤ s.request.flEnd)
    (fresh : s.added = false) : Along g front lefts rest (s.extend fl) := by
  have held := along.placed.head_held
  have order := held.proper.order
  obtain ⟨startEq, endEq⟩ := hull_range fl s.request
  rw [min_comm] at startEq
  rw [max_comm] at endEq
  have entry : (s.extend fl).entry = [hull fl s.request] := Scan.entry_added rfl held.locks
  refine ⟨?_, along.placed.merge same reaches begins same.symm startEq endEq, held.posix,
      held.owned,
    along.left, along.right, ?_, ?_, ?_, ?_⟩
  · rw [entry]
    simp [Scan.extend, along.passed, Scan.entry_fresh fresh]
  · intro _ later member
    have := (along.placed.head_before later member).1
    rw [show (s.extend fl).request = hull fl s.request from rfl, startEq]
    omega
  · exact fun untouched => Bool.noConfusion untouched
  · exact fun untouched => Bool.noConfusion untouched
  · have same : ids ((s.extend fl).passed ++ (rest ++ g.back)) =
      ids (s.passed ++ (fl :: rest ++ g.back)) := by
      simp [Scan.extend, hull]
    rw [same]
    exact along.kept

theorem absorb (fits : g.Fits) (same : s.request.flType = fl.flType)
    (reaches : s.request.flStart - 1 ≤ fl.flEnd)
    (begins : fl.flStart - 1 ≤ s.request.flEnd) (added : s.added = true) :
    Along g front lefts rest (s.absorb fl) := by
  have held := along.placed.head_held
  have order := held.proper.order
  have locks : s.request.flType ≠ .unlck := same ▸ held.locks
  obtain ⟨startEq, endEq⟩ := hull_range s.request fl
  have entry : (s.absorb fl).entry = [hull s.request fl] := Scan.entry_added added locks
  have before := along.passed
  rw [Scan.entry_added added locks] at before
  have distinct : (ids (g.skipped ++ front ++ lefts ++ [s.request])).Nodup := by
    have all := fits.distinct.sublist along.kept
    rw [ids_append, before] at all
    exact (List.nodup_append.mp all).1
  have after : (s.absorb fl).passed = g.skipped ++ front ++ lefts ++ [hull s.request fl] := by
    rw [show (s.absorb fl).passed = replaceLock (hull s.request fl) s.passed from rfl, before]
    exact replaceLock_at distinct rfl
  refine ⟨?_, along.placed.merge same reaches begins rfl startEq endEq, along.posix, along.owned,
    along.left, along.right, ?_, ?_, ?_, ?_⟩
  · rw [entry, after]
  · intro _ later member
    have := (along.placed.head_before later member).1
    rw [show (s.absorb fl).request = hull s.request fl from rfl, startEq]
    omega
  · intro untouched
    rw [show (s.absorb fl).added = s.added from rfl, added] at untouched
    contradiction
  · intro untouched
    rw [show (s.absorb fl).added = s.added from rfl, added] at untouched
    contradiction
  · have same : ids ((s.absorb fl).passed ++ (rest ++ g.back)) =
      ids (s.passed ++ (rest ++ g.back)) := by
      rw [after, before]
      simp [hull]
    rw [same]
    exact along.kept_tail

theorem replace (inside : s.request.flStart ≤ fl.flStart) (ends : fl.flEnd ≤ s.request.flEnd)
    (fresh : (s.overlap fl).added = false) :
    Along g front lefts rest ((s.overlap fl).replace fl) := by
  have held := along.placed.head_held
  have order := held.proper.order
  have locks : s.request.flType ≠ .unlck := by
    intro unlock
    simp [Scan.overlap, unlock] at fresh
  have wasFresh : s.added = false := by simpa [Scan.overlap, locks] using fresh
  have placed := along.placed.inside inside ends
  have entry : ((s.overlap fl).replace fl).entry = [((s.overlap fl).replace fl).request] :=
    Scan.entry_added rfl locks
  refine ⟨?_, ?_, held.posix, held.owned, ?_, along.right, ?_, ?_, ?_, ?_⟩
  · rw [entry]
    simp [Scan.replace, Scan.overlap, along.passed, Scan.entry_fresh wasFresh]
  · exact ⟨placed.row, ⟨placed.proper.nonneg, placed.proper.order, placed.proper.bounded⟩,
      placed.front_before, fun left member =>
          ⟨(placed.cut left member).differ, (placed.cut left member).begins,
        (placed.cut left member).reaches, (placed.cut left member).ends⟩, placed.map_iff⟩
  · simp [Scan.overlap, Scan.replace, not_lt.mpr inside, along.left]
  · exact fun _ => along.request_lt_later (inside.trans order)
  · exact fun untouched => Bool.noConfusion untouched
  · exact fun untouched => Bool.noConfusion untouched
  · have same : ids (((s.overlap fl).replace fl).passed ++ (rest ++ g.back)) =
        ids (s.passed ++ (fl :: rest ++ g.back)) := by
      simp [Scan.replace, Scan.overlap]
    rw [same]
    exact along.kept

end

theorem head_own {tail : List FileLock} (along : Along g front lefts rest s) (fits : g.Fits)
    (own : s.request.flOwner = fl.flOwner) (next : fl :: tail = rest ++ g.back) :
    ∃ others, rest = fl :: others ∧ tail = others ++ g.back := by
  rcases rest with _ | ⟨head, others⟩
  · have member : fl ∈ g.back := by
      rw [List.nil_append] at next
      exact next ▸ List.mem_cons_self
    exact absurd (own.symm.trans along.owned) (fits.foreign fl member)
  · obtain ⟨rfl, rfl⟩ := List.cons.inj next
    exact ⟨others, rfl, rfl⟩

end Along

/-- **One turn** keeps where the loop stands. -/
theorem Scanned.move {g : Ground} {current next : Scan × List FileLock} (fits : g.Fits)
    (scanned : Scanned g current) (moves : Move current next) : Scanned g next := by
  obtain ⟨front, lefts, rest, ahead, along⟩ := scanned
  cases moves with
  | @skipSame s fl tail own same before =>
    obtain ⟨others, rfl, rfl⟩ := along.head_own fits own ahead
    rw [along.placed.proper.loff_pred] at before
    exact ⟨_, _, others, rfl, along.skip (.of_gap (by dsimp only at before ⊢; omega))⟩
  | @absorb s fl tail own same reaches begins added =>
    obtain ⟨others, rfl, rfl⟩ := along.head_own fits own ahead
    rw [along.placed.proper.loff_pred] at reaches
    rw [along.placed.head_held.proper.loff_pred] at begins
    exact ⟨_, _, others, rfl, along.absorb fits same reaches begins added⟩
  | @extend s fl tail own same reaches begins fresh =>
    obtain ⟨others, rfl, rfl⟩ := along.head_own fits own ahead
    rw [along.placed.proper.loff_pred] at reaches
    rw [along.placed.head_held.proper.loff_pred] at begins
    exact ⟨_, _, others, rfl, along.extend same reaches begins fresh⟩
  | @skipOther s fl tail own differ before =>
    obtain ⟨others, rfl, rfl⟩ := along.head_own fits own ahead
    exact ⟨_, _, others, rfl, along.skip (.of_lt before differ.symm)⟩
  | @delete s fl tail own differ inside ends overlaps added =>
    obtain ⟨others, rfl, rfl⟩ := along.head_own fits own ahead
    exact ⟨_, _, others, rfl, along.delete inside ends added⟩
  | @replace s fl tail own differ inside ends overlaps fresh =>
    obtain ⟨others, rfl, rfl⟩ := along.head_own fits own ahead
    exact ⟨_, _, others, rfl, along.replace inside ends fresh⟩
  | @below s fl tail own differ begins overlaps ends =>
    obtain ⟨others, rfl, rfl⟩ := along.head_own fits own ahead
    exact ⟨_, _, others, rfl, along.below ⟨differ.symm, begins, overlaps, ends⟩⟩

theorem Scanned.moves {g : Ground} {current last : Scan × List FileLock} (fits : g.Fits)
    (scanned : Scanned g current) (chain : Relation.ReflTransGen Move current last) :
      Scanned g last := by
  induction chain with
  | refl => exact scanned
  | tail _ moves ih => exact ih.move fits moves

/-! ## Behind the loop -/

section Trim

variable {request fl : FileLock} {left : Option FileLock} {low lefts high : List FileLock}
  {waiting : Waiting}

theorem trimLeft_locks (cut : left.toList = lefts) (distinct : (ids (low ++ lefts ++ high)).Nodup)
    (proper : Proper request) :
    (trimLeft request left (low ++ lefts ++ high) waiting).1 =
      low ++ lefts.map (trimEnd request) ++ high := by
  subst cut
  cases left with
  | none => simp [trimLeft]
  | some fl =>
    simp only [Option.toList_some, List.append_assoc, List.singleton_append, List.map_cons,
        List.map_nil,
      trimLeft, proper.loff_pred] at distinct ⊢
    exact replaceLock_at distinct rfl

theorem trimRight_locks (distinct : (ids (low ++ fl :: high)).Nodup) (proper : Proper request)
    (reaches : request.flEnd < fl.flEnd) (bounded : fl.flEnd ≤ OFFSET_MAX) :
    (trimRight request (some fl) (low ++ fl :: high) waiting).1 =
      low ++ trimStart request fl :: high := by
  have exact_end : loff (request.flEnd + 1) = request.flEnd + 1 := by
    have := proper.nonneg
    have := proper.order
    exact loff_of_range (by omega) (by omega)
  simp only [trimRight, exact_end]
  exact replaceLock_at distinct rfl

end Trim

/-- What a call leaves: the owner's locks as they were, or with the request in force. -/
def Finished (g : Ground) (error : Int) (locks : List FileLock) : Prop :=
  ∃ own, locks = g.skipped ++ own ++ g.back ∧ (ids locks).Nodup ∧
    ((error ≠ 0 ∧ own = g.own) ∨ (error = 0 ∧ Settled g.owner g.map own))

namespace Along

variable {g : Ground} {front lefts rest mid tail : List FileLock} {s : Scan} {fl : FileLock}

section

variable (along : Along g front lefts rest s)

include along

theorem held_request (locks : s.request.flType ≠ .unlck) : Held g.owner s.request :=
  ⟨along.posix, along.owned, locks, along.placed.proper⟩

theorem stands_entry (added : s.added = true) : Stands g.owner s.request s.entry := by
  by_cases unlock : s.request.flType = .unlck
  · rw [Scan.entry_unlock unlock]
    exact stands_unlock unlock
  · rw [Scan.entry_added added unlock]
    exact stands_lock (along.held_request unlock) rfl rfl rfl

theorem stands_copy (locks : s.request.flType ≠ .unlck) (id : Nat) :
    Stands g.owner s.request [copyLock id s.request] := by
  have held := along.held_request locks
  have proper := along.placed.proper
  exact stands_lock ⟨held.posix, held.owned, held.locks, proper.nonneg, proper.order,
    proper.bounded⟩ rfl rfl rfl

theorem passed_fresh (fresh : s.added = false) : s.passed ++ (rest ++ g.back) = g.locks := by
  rw [along.passed, Scan.entry_fresh fresh, Ground.locks, ← along.unchanged fresh]
  simp

theorem finished_error {error : Int} (fits : g.Fits) (fresh : s.added = false)
    (fails : error ≠ 0) : Finished g error (s.passed ++ (rest ++ g.back)) := by
  rw [along.passed_fresh fresh]
  exact ⟨g.own, rfl, fits.distinct, .inl ⟨fails, rfl⟩⟩

theorem finished_nothing {error : Int} (fits : g.Fits) (beyond : ∀ fl ∈ rest, Before s.request fl)
    (fresh : s.added = false)
    (unlock : s.request.flType = .unlck) : Finished g error (s.passed ++ (rest ++ g.back)) := by
  by_cases fails : error = 0
  swap
  · exact along.finished_error fits fresh fails
  rw [along.passed_fresh fresh]
  refine ⟨g.own, rfl, fits.distinct, .inr ⟨fails, ?_⟩⟩
  have settled := along.placed.settled_beyond beyond (stands_unlock unlock)
  have own := along.unchanged fresh
  rw [along.unlock fresh unlock] at settled own
  rw [← own]
  simpa using settled

theorem finished_beyond (beyond : ∀ fl ∈ rest, Before s.request fl)
    (stands : Stands g.owner s.request mid)
    (distinct : (ids (s.passed ++ tail)).Nodup)
    (whole : s.passed ++ tail = g.skipped ++ front ++ lefts ++ (mid ++ rest ++ g.back))
    (newFl2 : Option Nat) :
    Finished g 0 (settle s tail newFl2).1 := by
  have apart : s.splits = false := by simp [Scan.splits, along.right]
  rw [whole] at distinct
  have locks : (settle s tail newFl2).1 =
      g.skipped ++ front ++ lefts.map (trimEnd s.request) ++ (mid ++ rest ++ g.back) := by
    rw [settle_apart apart, along.right, trimRight, whole]
    exact trimLeft_locks along.left distinct along.placed.proper
  rw [locks]
  refine ⟨front ++ lefts.map (trimEnd s.request) ++ mid ++ rest, by simp, ?_,
    .inr ⟨rfl, along.placed.settled_beyond beyond stands⟩⟩
  simpa [ids, Function.comp_def, trimEnd] using distinct

end

theorem Scan.reach_kept {s' : Scan} (stop : s' = (s.overlap fl).reach fl) :
    s'.request = s.request ∧ s'.passed = s.passed := by
  subst stop
  exact ⟨rfl, rfl⟩

theorem splits_inside {s' : Scan} (along : Along g front lefts (fl :: rest) s) (fits : g.Fits)
    (stop : s' = (s.overlap fl).reach fl) (inside : s.request.flStart ≤ fl.flStart) :
      s'.splits = false := by
  have left : s'.left = s.left := by simp [stop, Scan.overlap, Scan.reach, not_lt.mpr inside]
  have right : s'.right = some fl := by simp [stop, Scan.reach]
  rw [Scan.splits, left, right]
  rcases remembered : s.left with _ | other
  · rfl
  · have member : other ∈ lefts := by simp [← along.left, remembered]
    have distinct := fits.distinct.sublist along.kept
    rw [ids_append, List.nodup_append] at distinct
    have inPassed : other.id ∈ ids s.passed := List.mem_map_of_mem (by simp [along.passed, member])
    have differs : other.id ≠ fl.id := distinct.2.2 _ inPassed _ (by simp)
    simp [differs]

/-- Around the request the ends of the locks are cut off. -/
theorem finished_trimmed {request : FileLock} {left : Option FileLock} {lows : List FileLock}
    (waiting : Waiting)
    (proper : Proper request) (reaches : request.flEnd < fl.flEnd) (bounded : fl.flEnd ≤ OFFSET_MAX)
    (cut : left.toList = lows)
    (distinct : (ids (g.skipped ++ front ++ lows ++ (mid ++ fl :: rest ++ g.back))).Nodup)
    (settled : Settled g.owner g.map
      (front ++ lows.map (trimEnd request) ++ mid ++ trimStart request fl :: rest)) :
    let right := trimRight request (some fl)
      (g.skipped ++ front ++ lows ++ (mid ++ fl :: rest ++ g.back)) waiting
    Finished g 0 (trimLeft request left right.1 right.2).1 := by
  have regroup : g.skipped ++ front ++ lows ++ (mid ++ fl :: rest ++ g.back) =
      (g.skipped ++ front ++ lows ++ mid) ++ fl :: (rest ++ g.back) := by simp
  have trimmed : (g.skipped ++ front ++ lows ++ mid) ++ trimStart request fl :: (rest ++ g.back) =
      g.skipped ++ front ++ lows ++ (mid ++ trimStart request fl :: rest ++ g.back) := by simp
  have sameIds :
      ids (g.skipped ++ front ++ lows ++ (mid ++ trimStart request fl :: rest ++ g.back)) =
      ids (g.skipped ++ front ++ lows ++ (mid ++ fl :: rest ++ g.back)) := by simp [trimStart]
  dsimp only
  rw [regroup, trimRight_locks (regroup ▸ distinct) proper reaches bounded, trimmed,
    trimLeft_locks cut (sameIds ▸ distinct) proper]
  refine ⟨front ++ lows.map (trimEnd request) ++ mid ++ trimStart request fl :: rest,
    by simp, ?_, .inr ⟨rfl, settled⟩⟩
  rw [← sameIds] at distinct
  simpa [ids, Function.comp_def, trimEnd] using distinct

/-- A lock begins in the request and reaches behind it. -/
theorem finished_reach {s' : Scan} (along : Along g front lefts (fl :: rest) s) (fits : g.Fits)
    (differ : s.request.flType ≠ fl.flType) (begins : fl.flStart ≤ s.request.flEnd)
    (reaches : s.request.flEnd < fl.flEnd) (inside : s.request.flStart ≤ fl.flStart)
    (stop : s' = (s.overlap fl).reach fl)
    (stands : Stands g.owner s.request mid) (distinct : (ids (s.passed ++ tail)).Nodup)
    (whole : s.passed ++ tail = g.skipped ++ front ++ lefts ++ (mid ++ fl :: rest ++ g.back))
    (newFl2 : Option Nat) : Finished g 0 (settle s' tail newFl2).1 := by
  have left : s'.left = s.left := by simp [stop, Scan.overlap, Scan.reach, not_lt.mpr inside]
  have right : s'.right = some fl := by simp [stop, Scan.reach]
  obtain ⟨request, passed⟩ := Scan.reach_kept stop
  rw [settle_apart (along.splits_inside fits stop inside), left, right, request, passed, whole]
  exact finished_trimmed _ along.placed.proper reaches along.placed.head_held.proper.bounded
      along.left (whole ▸ distinct)
    (along.placed.settled_reach differ begins reaches inside stands)

/-- One lock lies around the request. -/
theorem finished_split {s' : Scan} {id : Nat} (along : Along g front [] (fl :: rest) s)
    (differ : s.request.flType ≠ fl.flType) (begins : fl.flStart < s.request.flStart)
    (reaches : s.request.flEnd < fl.flEnd) (stop : s' = (s.overlap fl).reach fl)
    (stands : Stands g.owner s.request mid) (ahead : tail = mid ++ fl :: rest ++ g.back)
    (passed : s.passed = g.skipped ++ front) (distinct : (ids (s.passed ++ tail)).Nodup)
    (new : id ∉ ids (s.passed ++ tail)) : Finished g 0 (settle s' tail (some id)).1 := by
  have left : s'.left = some fl := by simp [stop, Scan.overlap, Scan.reach, begins]
  have right : s'.right = some fl := by simp [stop, Scan.reach]
  obtain ⟨request, passed'⟩ := Scan.reach_kept stop
  have whole : s.passed ++ copyLock id fl :: tail =
      g.skipped ++ front ++ [copyLock id fl] ++ (mid ++ fl :: rest ++ g.back) := by
        simp [passed, ahead]
  have distinctAll : (ids (s.passed ++ copyLock id fl :: tail)).Nodup := by
    rw [ids_append, ids_cons, List.nodup_middle, List.nodup_cons, ← ids_append]
    exact ⟨new, distinct⟩
  rw [settle_split left right, request, passed', whole]
  exact finished_trimmed _ along.placed.proper reaches along.placed.head_held.proper.bounded rfl
      (whole ▸ distinctAll)
    (along.placed.settled_split differ begins reaches stands id)

/-- Where the loop stops without a lock that reaches behind the request, the locks ahead lie
behind it. -/
theorem beyond_of_stop {tail : List FileLock} {s' : Scan} (along : Along g front lefts rest s)
    (fits : g.Fits)
    (stop : Stop (s, rest ++ g.back) (s', tail)) :
    (s' = s ∧ tail = rest ++ g.back ∧ ∀ fl ∈ rest, Before s.request fl) ∨
      ∃ fl others, rest = fl :: others ∧ s' = (s.overlap fl).reach fl ∧ tail = rest ++ g.back ∧
        s.request.flType ≠ fl.flType ∧ fl.flStart ≤ s.request.flEnd ∧
          s.request.flEnd < fl.flEnd := by
  generalize ahead : rest ++ g.back = list at stop
  cases stop with
  | none =>
    left
    obtain ⟨rfl, _⟩ := List.append_eq_nil_iff.mp ahead
    exact ⟨rfl, rfl, by simp⟩
  | foreign other =>
    left
    refine ⟨rfl, rfl, ?_⟩
    rcases rest with _ | ⟨head, more⟩
    · simp
    · obtain ⟨rfl, _⟩ := List.cons.inj ahead
      exact absurd (along.owned.trans along.placed.head_held.owned.symm) other
  | beyondSame own same beyond =>
    left
    obtain ⟨more, rfl, rfl⟩ := along.head_own fits own ahead.symm
    have order := along.placed.head_held.proper.order
    rw [along.placed.head_held.proper.loff_pred] at beyond
    refine ⟨rfl, rfl, List.forall_mem_cons.mpr ⟨.of_gap (by omega), fun later member => .of_gap ?_⟩⟩
    have := (along.placed.head_before later member).1
    omega
  | beyondOther own differ beyond =>
    left
    obtain ⟨more, rfl, rfl⟩ := along.head_own fits own ahead.symm
    have order := along.placed.head_held.proper.order
    refine ⟨rfl, rfl,
      List.forall_mem_cons.mpr ⟨.of_lt beyond differ, fun later member => .of_gap ?_⟩⟩
    have := (along.placed.head_before later member).1
    omega
  | reach own differ begins reaches overlaps =>
    right
    obtain ⟨more, rfl, rfl⟩ := along.head_own fits own ahead.symm
    exact ⟨_, more, rfl, rfl, rfl, differ, begins, reaches⟩

end Along

/-- A new object may be any that is not in the list. -/
def Fresh (locks : List FileLock) (newFl newFl2 : Option Nat) : Prop :=
  (∀ id ∈ newFl, id ∉ ids locks) ∧ (∀ id ∈ newFl2, id ∉ ids locks) ∧ ∀ id ∈ newFl, id ∉ newFl2

theorem enolck_ne_zero : -ENOLCK ≠ 0 := by decide

namespace Along

variable {g : Ground} {front lefts rest : List FileLock} {s s' : Scan} {fl : FileLock}
  {newFl newFl2 : Option Nat} {result : Int × List FileLock × Waiting}

section

variable (along : Along g front lefts rest s)

include along

theorem distinct (fits : g.Fits) : (ids (s.passed ++ (rest ++ g.back))).Nodup :=
  fits.distinct.sublist along.kept

theorem notMem {id : Nat} (away : id ∉ ids g.locks) : id ∉ ids (s.passed ++ (rest ++ g.back)) :=
  fun member => away (along.kept.subset member)

theorem distinct_insert {id : Nat} (fits : g.Fits) (away : id ∉ ids g.locks) :
    (ids (s.passed ++ copyLock id s.request :: (rest ++ g.back))).Nodup := by
  rw [ids_append, ids_cons, List.nodup_middle, List.nodup_cons, ← ids_append]
  exact ⟨along.notMem away, along.distinct fits⟩

theorem ended_beyond (fits : g.Fits) (fresh : Fresh g.locks newFl newFl2)
    (beyond : ∀ fl ∈ rest, Before s.request fl)
    (ending : Ending s (rest ++ g.back) newFl newFl2 result) : Finished g result.1 result.2.1 := by
  cases ending with
  | noSecond splits none => simp [Scan.splits, along.right] at splits
  | noFirst untouched locks none => exact along.finished_error fits untouched enolck_ne_zero
  | nothing untouched unlock apart => exact along.finished_nothing fits beyond untouched unlock
  | inPlace added apart =>
    refine along.finished_beyond beyond (along.stands_entry added) (along.distinct fits) ?_ newFl2
    rw [along.passed]
    simp
  | @inserted id untouched locks new apart =>
    have distinct := along.distinct_insert fits (fresh.1 id new)
    refine along.finished_beyond beyond (along.stands_copy locks id) distinct ?_ newFl2
    rw [along.passed, Scan.entry_fresh untouched]
    simp

end

theorem ended_around (along : Along g front lefts (fl :: rest) s) (fits : g.Fits)
    (fresh : Fresh g.locks newFl newFl2) (stop : s' = (s.overlap fl).reach fl)
    (differ : s.request.flType ≠ fl.flType) (reaches : s.request.flEnd < fl.flEnd)
    (around : fl.flStart < s.request.flStart)
    (ending : Ending s' (fl :: rest ++ g.back) newFl newFl2 result) :
      Finished g result.1 result.2.1 := by
  obtain ⟨untouched, rfl⟩ := along.untouched around.le
  obtain ⟨request, passed⟩ := Scan.reach_kept stop
  have passedEq : s.passed = g.skipped ++ front := by
    rw [along.passed, Scan.entry_fresh untouched]
    simp
  have splits : s'.splits = true := by
    simp [stop, Scan.splits, Scan.overlap, Scan.reach, around]
  cases ending with
  | noSecond _ none | noFirst _ locks none =>
    rw [passed]
    exact along.finished_error fits untouched enolck_ne_zero
  | nothing stillFresh unlock apart =>
    rw [request] at unlock
    simp [stop, Scan.reach, Scan.overlap, unlock] at stillFresh
  | inPlace added apart =>
    obtain ⟨id, second⟩ := Option.ne_none_iff_exists'.mp (apart splits)
    have unlock : s.request.flType = .unlck := by
      by_contra locks
      simp [stop, Scan.reach, Scan.overlap, locks, untouched] at added
    rw [second]
    exact along.finished_split differ around reaches stop (stands_unlock unlock) (by simp) passedEq
      (along.distinct fits) (along.notMem (fresh.2.1 id second))
  | @inserted id stillFresh locks new apart =>
    obtain ⟨id2, second⟩ := Option.ne_none_iff_exists'.mp (apart splits)
    rw [request] at locks ⊢
    rw [second]
    refine along.finished_split differ around reaches stop (along.stands_copy locks id)
        (by simp) passedEq
      (along.distinct_insert fits (fresh.1 id new)) ?_
    have away := along.notMem (fresh.2.1 id2 second)
    have other : id2 ≠ id := fun same => fresh.2.2 id new (same ▸ second)
    simp only [ids_append, ids_cons, copyLock, List.mem_append, List.mem_cons, not_or] at away ⊢
    exact ⟨away.1, other, away.2⟩

/-- The end of a loop that meets a lock which begins in the request and reaches behind it. -/
theorem ended_inside (along : Along g front lefts (fl :: rest) s) (fits : g.Fits)
    (fresh : Fresh g.locks newFl newFl2) (stop : s' = (s.overlap fl).reach fl)
    (differ : s.request.flType ≠ fl.flType) (begins : fl.flStart ≤ s.request.flEnd)
    (reaches : s.request.flEnd < fl.flEnd) (inside : s.request.flStart ≤ fl.flStart)
    (ending : Ending s' (fl :: rest ++ g.back) newFl newFl2 result) :
      Finished g result.1 result.2.1 := by
  obtain ⟨request, passed⟩ := Scan.reach_kept stop
  have addedEq : s.request.flType ≠ .unlck → s'.added = s.added := by
    intro locks
    simp [stop, Scan.reach, Scan.overlap, locks]
  cases ending with
  | noSecond splits none => exact absurd splits (by simp [along.splits_inside fits stop inside])
  | noFirst untouched locks none =>
    rw [request] at locks
    rw [passed]
    exact along.finished_error fits (addedEq locks ▸ untouched) enolck_ne_zero
  | nothing untouched unlock apart =>
    rw [request] at unlock
    simp [stop, Scan.reach, Scan.overlap, unlock] at untouched
  | inPlace added apart =>
    by_cases unlock : s.request.flType = .unlck
    · refine along.finished_reach fits differ begins reaches inside stop (stands_unlock unlock)
        (along.distinct fits) ?_ newFl2
      rw [along.passed, Scan.entry_unlock unlock]
      simp
    · refine along.finished_reach fits differ begins reaches inside stop
        (along.stands_entry (addedEq unlock ▸ added)) (along.distinct fits) ?_ newFl2
      rw [along.passed]
      simp
  | @inserted id untouched locks new apart =>
    rw [request] at locks ⊢
    have distinct := along.distinct_insert fits (fresh.1 id new)
    refine along.finished_reach fits differ begins reaches inside stop
        (along.stands_copy locks id) distinct
      ?_ newFl2
    rw [along.passed, Scan.entry_fresh (addedEq locks ▸ untouched)]
    simp

end Along

/-- **What follows the loop** leaves the owner's locks as they were, or a row with the request in
force. -/
theorem finish_finished {g : Ground} {last : Scan × List FileLock} {s : Scan} {tail : List FileLock}
    {newFl newFl2 : Option Nat} (fits : g.Fits) (scanned : Scanned g last)
    (stop : Stop last (s, tail)) (fresh : Fresh g.locks newFl newFl2) (flags : Flags) :
    Finished g (finish s tail flags newFl newFl2).1 (finish s tail flags newFl newFl2).2.1 := by
  obtain ⟨before, list⟩ := last
  obtain ⟨front, lefts, rest, rfl, along⟩ := scanned
  have ending := finish_ending s tail flags newFl newFl2
  rcases along.beyond_of_stop fits stop with ⟨rfl, rfl, beyond⟩ |
    ⟨fl, others, rfl, sEq, rfl, differ, begins, reaches⟩
  · exact along.ended_beyond fits fresh beyond ending
  · by_cases around : fl.flStart < before.request.flStart
    · exact along.ended_around fits fresh sEq differ reaches around ending
    · exact along.ended_inside fits fresh sEq differ begins reaches (not_lt.mp around) ending

end RouterKernel.RecordLocks
