import Mathlib.Tactic
import RouterKernel.Abi

/-!
Contract: the operations of System V semaphores in ipc/sem.c.

Owns:
- the values of a semaphore array and the adjustments in the undo structures;
- `try_atomic_semop`, with its loop over the operations and the ways back;
- which operation is the first that cannot proceed, and what is reported for it;
- that the operations take place together or not at all.

Does not own: the queues of sleeping tasks.

`un` names the undo structure of the calling task group.  It is looked at only for operations
with `SEM_UNDO`; where the source has `NULL` there is none of these.
-/

namespace RouterKernel.Semaphores

def ERANGE : Int := 34

def SEMVMX : Int := 32767
def SEMAEM : Int := SEMVMX

/-- A value of the type `short`. -/
def short (value : Int) : Int := value.bmod (2 ^ 16)

/-- `struct sembuf`, with the flags `IPC_NOWAIT` and `SEM_UNDO`. -/
structure Sembuf where
  semNum : Nat
  semOp : Int
  ipcNowait : Bool
  semUndo : Bool
  deriving DecidableEq, Repr

structure Values where
  semval : Nat → Int
  sempid : Nat → Int
  semadj : Nat → Nat → Int

/-! ## `try_atomic_semop` -/

/-- Take operations back, the last one first. -/
def undoSops : List Sembuf → (Nat → Int) → Nat → Int
  | [], semval => semval
  | sop :: done, semval =>
    undoSops done (Function.update semval sop.semNum (semval sop.semNum - sop.semOp))

def wouldBlock (sop : Sembuf) : Int := if sop.ipcNowait then -EAGAIN else 1

/-- The loop over the operations, with those done so far. -/
def trySops (semadj : Nat → Int) : (done todo : List Sembuf) → (Nat → Int) → Int × (Nat → Int)
  | _, [], semval => (0, semval)
  | done, sop :: todo, semval =>
    if sop.semOp = 0 ∧ semval sop.semNum ≠ 0 then (wouldBlock sop, undoSops done semval)
    else if semval sop.semNum + sop.semOp < 0 then (wouldBlock sop, undoSops done semval)
    else if semval sop.semNum + sop.semOp > SEMVMX then (-ERANGE, undoSops done semval)
    else if sop.semUndo = true ∧
        (semadj sop.semNum - sop.semOp < -SEMAEM - 1 ∨ semadj sop.semNum - sop.semOp > SEMAEM) then
      (-ERANGE, undoSops done semval)
    else trySops semadj (sop :: done) todo
      (Function.update semval sop.semNum (semval sop.semNum + sop.semOp))

def recordSop (un : Nat) (pid : Int) (values : Values) (sop : Sembuf) : Values where
  semval := values.semval
  sempid := Function.update values.sempid sop.semNum pid
  semadj := fun owner semnum =>
    if owner = un ∧ semnum = sop.semNum ∧ sop.semUndo = true then
      short (values.semadj owner semnum - sop.semOp)
    else values.semadj owner semnum

def tryAtomicSemop (values : Values) (sops : List Sembuf) (un : Nat) (pid : Int) : Int × Values :=
  let (result, semval) := trySops (values.semadj un) [] sops values.semval
  if result = 0 then
    (0, sops.reverse.foldl (recordSop un pid) ⟨semval, values.sempid, values.semadj⟩)
  else (result, ⟨semval, values.sempid, values.semadj⟩)

/-! ## What the operations ask for -/

def addSop (semval : Nat → Int) (sop : Sembuf) : Nat → Int :=
  Function.update semval sop.semNum (semval sop.semNum + sop.semOp)

/-- The operation waits: for the value 0, or for one that it can be subtracted from. -/
def Waits (semval : Nat → Int) (sop : Sembuf) : Prop :=
  (sop.semOp = 0 ∧ semval sop.semNum ≠ 0) ∨ semval sop.semNum + sop.semOp < 0

/-- The operation exceeds the range of the values or of the adjustments. -/
def Exceeds (semadj semval : Nat → Int) (sop : Sembuf) : Prop :=
  SEMVMX < semval sop.semNum + sop.semOp ∨
    (sop.semUndo = true ∧
      ¬ (-SEMAEM - 1 ≤ semadj sop.semNum - sop.semOp ∧ semadj sop.semNum - sop.semOp ≤ SEMAEM))

/-- The result for an operation that fails. -/
inductive Reported (semadj semval : Nat → Int) (sop : Sembuf) : Int → Prop
  | again (waits : Waits semval sop) (nowait : sop.ipcNowait = true) :
    Reported semadj semval sop (-EAGAIN)
  | sleep (waits : Waits semval sop) (wait : sop.ipcNowait = false) : Reported semadj semval sop 1
  | range (ready : ¬ Waits semval sop) (exceeds : Exceeds semadj semval sop) :
    Reported semadj semval sop (-ERANGE)

def Proceeds (semadj semval : Nat → Int) (sop : Sembuf) : Prop :=
  ¬ Waits semval sop ∧ ¬ Exceeds semadj semval sop

/-- The values after the first `k` operations. -/
def valuesAfter (semval : Nat → Int) (sops : List Sembuf) (k : Nat) : Nat → Int :=
  (sops.take k).foldl addSop semval

/-- The first `k` operations can take place one after the other. -/
def ProceedTo (semadj semval : Nat → Int) (sops : List Sembuf) (k : Nat) : Prop :=
  ∀ j < k, ∀ sop, sops[j]? = some sop → Proceeds semadj (valuesAfter semval sops j) sop

/-- The result is what is reported for the first operation that fails. -/
def FirstFailure (semadj semval : Nat → Int) (sops : List Sembuf) (result : Int) : Prop :=
  ∃ k sop, sops[k]? = some sop ∧ ProceedTo semadj semval sops k ∧
    Reported semadj (valuesAfter semval sops k) sop result

section Loop

variable {semadj semval : Nat → Int} {sop : Sembuf} {done todo : List Sembuf} {result : Int}

theorem valuesAfter_cons (k : Nat) :
    valuesAfter semval (sop :: todo) (k + 1) = valuesAfter (addSop semval sop) todo k := by
  rw [valuesAfter, List.take_succ_cons, List.foldl_cons, valuesAfter]

theorem proceedTo_cons (proceeds : Proceeds semadj semval sop) {k : Nat}
    (rest : ProceedTo semadj (addSop semval sop) todo k) :
      ProceedTo semadj semval (sop :: todo) (k + 1) := by
  intro j below other found
  cases j with
  | zero =>
    cases found
    exact proceeds
  | succ j =>
    rw [valuesAfter_cons]
    exact rest j (Nat.lt_of_succ_lt_succ below) other found

theorem FirstFailure.cons (proceeds : Proceeds semadj semval sop)
    (failure : FirstFailure semadj (addSop semval sop) todo result) :
      FirstFailure semadj semval (sop :: todo) result := by
  obtain ⟨k, other, found, before, reported⟩ := failure
  refine ⟨k + 1, other, found, proceedTo_cons proceeds before, ?_⟩
  rw [valuesAfter_cons]
  exact reported

theorem Reported.ne_zero (reported : Reported semadj semval sop result) : result ≠ 0 := by
  cases reported <;> decide

theorem reported_wouldBlock (waits : Waits semval sop) :
    Reported semadj semval sop (wouldBlock sop) := by
  cases nowait : sop.ipcNowait with
  | true =>
    rw [wouldBlock, nowait]
    exact .again waits nowait
  | false =>
    rw [wouldBlock, nowait]
    exact .sleep waits nowait

/-- One turn of the loop: the operation takes place, or the loop ends with all taken back. -/
theorem trySops_turn (semadj : Nat → Int) (done todo : List Sembuf) (semval : Nat → Int)
    (sop : Sembuf) :
    (Proceeds semadj semval sop ∧
        trySops semadj done (sop :: todo) semval =
          trySops semadj (sop :: done) todo (addSop semval sop)) ∨
      ∃ result, Reported semadj semval sop result ∧
        trySops semadj done (sop :: todo) semval = (result, undoSops done semval) := by
  rw [trySops]
  by_cases waitsForZero : sop.semOp = 0 ∧ semval sop.semNum ≠ 0
  · exact Or.inr ⟨wouldBlock sop, reported_wouldBlock (Or.inl waitsForZero), if_pos waitsForZero⟩
  rw [if_neg waitsForZero]
  by_cases negative : semval sop.semNum + sop.semOp < 0
  · exact Or.inr ⟨wouldBlock sop, reported_wouldBlock (Or.inr negative), if_pos negative⟩
  rw [if_neg negative]
  have ready : ¬ Waits semval sop := not_or.mpr ⟨waitsForZero, negative⟩
  by_cases above : semval sop.semNum + sop.semOp > SEMVMX
  · exact Or.inr ⟨-ERANGE, .range ready (Or.inl above), if_pos above⟩
  rw [if_neg above]
  by_cases adjusts : sop.semUndo = true ∧
      (semadj sop.semNum - sop.semOp < -SEMAEM - 1 ∨ semadj sop.semNum - sop.semOp > SEMAEM)
  · refine Or.inr ⟨-ERANGE, .range ready (Or.inr ⟨adjusts.1, ?_⟩), if_pos adjusts⟩
    have outside := adjusts.2
    omega
  · rw [if_neg adjusts]
    refine Or.inl ⟨⟨ready, ?_⟩, rfl⟩
    rintro (exceeds | ⟨undo, outside⟩)
    · exact above exceeds
    · exact adjusts ⟨undo, by omega⟩

theorem undoSops_addSop (done : List Sembuf) (sop : Sembuf) (semval : Nat → Int) :
    undoSops (sop :: done) (addSop semval sop) = undoSops done semval := by
  simp [undoSops, addSop]

/-- The loop comes to its end with all operations done, or fails with none of them. -/
theorem trySops_spec (semadj : Nat → Int) (done todo : List Sembuf) (semval : Nat → Int) :
    (trySops semadj done todo semval = (0, todo.foldl addSop semval) ∧
        ProceedTo semadj semval todo todo.length) ∨
      ∃ result, trySops semadj done todo semval = (result, undoSops done semval) ∧ result ≠ 0 ∧
        FirstFailure semadj semval todo result := by
  induction todo generalizing done semval with
  | nil => exact Or.inl ⟨rfl, fun j below => absurd below (Nat.not_lt_zero j)⟩
  | cons sop todo ih =>
    rcases trySops_turn semadj done todo semval sop with ⟨proceeds, goesOn⟩ |
      ⟨result, reported, fails⟩
    · rw [goesOn]
      rcases ih (sop :: done) (addSop semval sop) with ⟨ends, all⟩ |
        ⟨result, fails, nonzero, failure⟩
      · exact Or.inl ⟨ends, proceedTo_cons proceeds all⟩
      · refine Or.inr ⟨result, ?_, nonzero, failure.cons proceeds⟩
        rw [fails, undoSops_addSop]
    · refine Or.inr ⟨result, fails, reported.ne_zero, 0, sop, rfl, ?_, reported⟩
      exact fun j below => absurd below (Nat.not_lt_zero j)

theorem ProceedTo.range {sops : List Sembuf} {k : Nat} (proceeds : ProceedTo semadj semval sops k)
    (range : ∀ semnum, 0 ≤ semval semnum ∧ semval semnum ≤ SEMVMX) (semnum : Nat) :
    0 ≤ valuesAfter semval sops k semnum ∧ valuesAfter semval sops k semnum ≤ SEMVMX := by
  induction k with
  | zero => exact range semnum
  | succ k ih =>
    have before := ih fun j below => proceeds j (Nat.lt_succ_of_lt below)
    rw [valuesAfter, List.take_add_one, List.foldl_append]
    cases found : sops[k]? with
    | none => exact before
    | some sop =>
      obtain ⟨ready, within⟩ := proceeds k (Nat.lt_succ_self k) sop found
      change 0 ≤ addSop (valuesAfter semval sops k) sop semnum ∧
        addSop (valuesAfter semval sops k) sop semnum ≤ SEMVMX
      by_cases same : semnum = sop.semNum
      · rw [same, addSop, Function.update_self]
        have nonneg : ¬ valuesAfter semval sops k sop.semNum + sop.semOp < 0 :=
          fun low => ready (Or.inr low)
        have below : ¬ SEMVMX < valuesAfter semval sops k sop.semNum + sop.semOp :=
          fun high => within (Or.inl high)
        omega
      · rw [addSop, Function.update_of_ne same]
        exact before

end Loop

theorem semval_foldl_recordSop (un : Nat) (pid : Int) (sops : List Sembuf) (values : Values) :
    (sops.foldl (recordSop un pid) values).semval = values.semval := by
  induction sops generalizing values with
  | nil => rfl
  | cons sop sops ih =>
    rw [List.foldl_cons, ih]
    rfl

/-- All operations take place, each from a value that it may have, or none does and the result
is that of the first one that fails. -/
structure AllOrNothing (values : Values) (sops : List Sembuf) (un : Nat) (result : Int)
    (after : Values) : Prop where
  nothing : result ≠ 0 → after = values
  reported : result ≠ 0 → FirstFailure (values.semadj un) values.semval sops result
  all : result = 0 → after.semval = sops.foldl addSop values.semval
  between : result = 0 → ∀ k ≤ sops.length, ∀ semnum,
    0 ≤ valuesAfter values.semval sops k semnum ∧ valuesAfter values.semval sops k semnum ≤ SEMVMX
  zero : result = 0 → ∀ k sop, sops[k]? = some sop → sop.semOp = 0 →
    valuesAfter values.semval sops k sop.semNum = 0

/-- The operations of a call are all or nothing. -/
theorem tryAtomicSemop_allOrNothing {values : Values}
    (range : ∀ semnum, 0 ≤ values.semval semnum ∧ values.semval semnum ≤ SEMVMX)
    (sops : List Sembuf) (un : Nat)
    (pid : Int) :
    AllOrNothing values sops un (tryAtomicSemop values sops un pid).1
      (tryAtomicSemop values sops un pid).2 := by
  rcases trySops_spec (values.semadj un) [] sops values.semval with ⟨ends, proceeds⟩ |
    ⟨result, fails, nonzero, failure⟩
  · have succeeds : tryAtomicSemop values sops un pid =
        (0, sops.reverse.foldl (recordSop un pid) ⟨sops.foldl addSop values.semval, values.sempid,
          values.semadj⟩) := by
      rw [tryAtomicSemop, ends]
      rfl
    rw [succeeds]
    refine ⟨fun nonzero => absurd rfl nonzero, fun nonzero => absurd rfl nonzero, ?_, ?_, ?_⟩
    · intro _
      rw [semval_foldl_recordSop]
    · intro _ k bounded
      exact ProceedTo.range (fun j below => proceeds j (Nat.lt_of_lt_of_le below bounded)) range
    · intro _ k sop found zero
      have below : k < sops.length := (List.getElem?_eq_some_iff.mp found).1
      exact not_not.mp fun positive => (proceeds k below sop found).1 (Or.inl ⟨zero, positive⟩)
  · have failed : tryAtomicSemop values sops un pid = (result, values) := by
      rw [tryAtomicSemop, fails]
      exact if_neg nonzero
    rw [failed]
    exact ⟨fun _ => rfl, fun _ => failure, fun zero => absurd zero nonzero, fun zero =>
        absurd zero nonzero,
      fun zero => absurd zero nonzero⟩

/-- An operation on a semaphore that was raised before, and one that has to wait for it. -/
theorem tryAtomicSemop_allOrNothing_raised :
    (∀ semnum : Nat, (0 : Int) ≤ (fun _ => 0) semnum ∧ (0 : Int) ≤ SEMVMX) ∧
      (tryAtomicSemop ⟨fun _ => 0, fun _ => 0, fun _ _ => 0⟩ [⟨0, 2, true, true⟩,
          ⟨0, -3, true, false⟩] 0 7).2 =
        ⟨fun _ => 0, fun _ => 0, fun _ _ => 0⟩ := by
  have range : ∀ semnum : Nat, (0 : Int) ≤ (fun _ => 0) semnum ∧ (0 : Int) ≤ SEMVMX :=
    fun _ => ⟨le_rfl, by decide⟩
  exact ⟨range, (tryAtomicSemop_allOrNothing range _ 0 7).nothing (by decide)⟩

end RouterKernel.Semaphores
