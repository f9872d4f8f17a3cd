import RouterKernel.Semaphores.AtomicOps

/-!
Contract: the adjustments that `SEM_UNDO` asks for, over the calls of all tasks.

Owns:
- runs of `try_atomic_semop`, each call with the undo structure of its task group;
- the adjusting loop of `exit_sem`;
- the sum of the operations that one undo structure stands for;
- for which lists of operations the adjustment is that sum, negated.

Does not own: the tasks that `exit_sem` wakes, or `semctl`, which clears adjustments.
-/

namespace RouterKernel.Semaphores

/-- One call of `try_atomic_semop`. -/
structure Call where
  sops : List Sembuf
  un : Nat
  pid : Int
  deriving DecidableEq, Repr

def Call.result (call : Call) (values : Values) : Int :=
  (tryAtomicSemop values call.sops call.un call.pid).1

def Call.after (call : Call) (values : Values) : Values :=
  (tryAtomicSemop values call.sops call.un call.pid).2

def runCalls : Values → List Call → Values
  | values, [] => values
  | values, call :: calls => runCalls (call.after values) calls

/-- What `exit_sem` does to one semaphore. -/
def adjustSem (un : Nat) (pid : Int) (values : Values) (i : Nat) : Values :=
  if values.semadj un i = 0 then values
  else
    let semval := values.semval i + values.semadj un i
    let semval := if semval < 0 then 0 else semval
    let semval := if semval > SEMVMX then SEMVMX else semval
    ⟨Function.update values.semval i semval, Function.update values.sempid i pid, values.semadj⟩

/-- The loop of `exit_sem` that performs the adjustments registered in `un`. -/
def exitSem (values : Values) (un semNsems : Nat) (pid : Int) : Values :=
  (List.range semNsems).foldl (adjustSem un pid) values

/-! ## Sums of operations -/

def undoOps (semnum : Nat) (sops : List Sembuf) : List Sembuf :=
  sops.filter fun sop => sop.semUndo && sop.semNum == semnum

def undoSum (semnum : Nat) (sops : List Sembuf) : Int :=
  ((undoOps semnum sops).map Sembuf.semOp).sum

/-- No semaphore has two operations of the list that are to be undone. -/
def Once (sops : List Sembuf) : Prop := ∀ semnum, (undoOps semnum sops).length ≤ 1

/-- The sum of all operations done on a semaphore that the undo structure stands for. -/
def performed (un semnum : Nat) : Values → List Call → Int
  | _, [] => 0
  | values, call :: calls =>
    (if call.un = un ∧ call.result values = 0 then undoSum semnum call.sops else 0) +
      performed un semnum (call.after values) calls

def Adjustable (sum : Int) : Prop := -SEMAEM - 1 ≤ sum ∧ sum ≤ SEMAEM

theorem short_of_adjustable {sum : Int} (within : Adjustable sum) : short sum = sum := by
  obtain ⟨low, high⟩ := within
  rw [SEMAEM, SEMVMX] at low high
  exact Int.bmod_eq_of_le (by omega) (by omega)

theorem short_short_sub (left right : Int) : short (short left - right) = short (left - right) := by
  rw [short, short, short, Int.bmod_sub_bmod]

theorem undoSum_cons (semnum : Nat) (sop : Sembuf) (sops : List Sembuf) :
    undoSum semnum (sop :: sops) =
      (if sop.semUndo = true ∧ sop.semNum = semnum then sop.semOp else 0) +
        undoSum semnum sops := by
  rw [undoSum, undoOps, List.filter_cons]
  by_cases undone : sop.semUndo = true ∧ sop.semNum = semnum
  · rw [if_pos (by simp [undone.1, undone.2]), if_pos undone, List.map_cons, List.sum_cons]
    rfl
  · rw [if_neg (by simpa using undone), if_neg undone, zero_add]
    rfl

theorem undoSum_reverse (semnum : Nat) (sops : List Sembuf) :
    undoSum semnum sops.reverse = undoSum semnum sops := by
  rw [undoSum, undoOps, List.filter_reverse, List.map_reverse, List.sum_reverse]
  rfl

theorem semadj_foldl_recordSop (un semnum : Nat) (pid : Int) (sops : List Sembuf) (values : Values)
    (isShort : short (values.semadj un semnum) = values.semadj un semnum) :
    (sops.foldl (recordSop un pid) values).semadj un semnum =
      short (values.semadj un semnum - undoSum semnum sops) := by
  induction sops generalizing values with
  | nil =>
    rw [List.foldl_nil, undoSum, undoOps, List.filter_nil, List.map_nil, List.sum_nil, sub_zero]
    exact isShort.symm
  | cons sop sops ih =>
    rw [List.foldl_cons, undoSum_cons]
    by_cases undone : sop.semUndo = true ∧ sop.semNum = semnum
    · have recorded : (recordSop un pid values sop).semadj un semnum =
        short (values.semadj un semnum - sop.semOp) :=
        if_pos ⟨rfl, undone.2.symm, undone.1⟩
      have again : short ((recordSop un pid values sop).semadj un semnum) =
          (recordSop un pid values sop).semadj un semnum := by
        rw [recorded]
        simpa using short_short_sub (values.semadj un semnum - sop.semOp) 0
      rw [ih _ again, recorded, if_pos undone, short_short_sub, sub_sub]
    · have kept : (recordSop un pid values sop).semadj un semnum = values.semadj un semnum :=
        if_neg fun same => undone ⟨same.2.2, same.2.1.symm⟩
      rw [ih _ (by rw [kept, isShort]), kept, if_neg undone, zero_add]

theorem semadj_foldl_recordSop_other {un other : Nat} (differs : other ≠ un) (semnum : Nat)
    (pid : Int)
    (sops : List Sembuf) (values : Values) :
    (sops.foldl (recordSop un pid) values).semadj other semnum = values.semadj other semnum := by
  induction sops generalizing values with
  | nil => rfl
  | cons sop sops ih =>
    rw [List.foldl_cons, ih]
    exact if_neg fun same => differs same.1

/-! ## One call -/

section Calls

variable {un semnum : Nat} {values : Values}

/-- A call succeeds with all its operations possible in turn, or leaves everything as it was. -/
theorem tryAtomicSemop_cases (values : Values) (sops : List Sembuf) (un : Nat) (pid : Int) :
    (ProceedTo (values.semadj un) values.semval sops sops.length ∧
        tryAtomicSemop values sops un pid =
          (0, sops.reverse.foldl (recordSop un pid) ⟨sops.foldl addSop values.semval, values.sempid,
            values.semadj⟩)) ∨
      ∃ result, result ≠ 0 ∧ FirstFailure (values.semadj un) values.semval sops result ∧
        tryAtomicSemop values sops un pid = (result, values) := by
  rcases trySops_spec (values.semadj un) [] sops values.semval with ⟨ends, proceeds⟩ |
    ⟨result, fails, nonzero, failure⟩
  · refine Or.inl ⟨proceeds, ?_⟩
    rw [tryAtomicSemop, ends]
    rfl
  · refine Or.inr ⟨result, nonzero, failure, ?_⟩
    rw [tryAtomicSemop, fails]
    exact if_neg nonzero

theorem semadj_after (call : Call)
    (isShort : short (values.semadj un semnum) = values.semadj un semnum) :
    (call.after values).semadj un semnum = short (values.semadj un semnum -
        (if call.un = un ∧ call.result values = 0 then undoSum semnum call.sops else 0)) := by
  rw [Call.after, Call.result]
  rcases tryAtomicSemop_cases values call.sops call.un call.pid with ⟨-, succeeds⟩ |
    ⟨result, nonzero, -, fails⟩
  · rw [succeeds]
    by_cases own : call.un = un
    · rw [if_pos ⟨own, rfl⟩, own, ← undoSum_reverse]
      exact semadj_foldl_recordSop un semnum call.pid call.sops.reverse _ isShort
    · rw [if_neg fun both => own both.1, sub_zero, isShort]
      exact semadj_foldl_recordSop_other (Ne.symm own) semnum call.pid call.sops.reverse _
  · rw [fails, if_neg fun both => nonzero both.2, sub_zero]
    exact isShort.symm

/-- For operations that can take place and are undone once, the range check looks at the sum. -/
theorem adjustable_of_proceedTo {sops : List Sembuf} (once : Once sops)
    (proceeds : ProceedTo (values.semadj un) values.semval sops sops.length)
    (within : Adjustable (values.semadj un semnum)) :
    Adjustable (values.semadj un semnum - undoSum semnum sops) := by
  have few := once semnum
  match found : undoOps semnum sops with
  | [] =>
    rw [undoSum, found, List.map_nil, List.sum_nil, sub_zero]
    exact within
  | [sop] =>
    have listed : sop ∈ undoOps semnum sops := found ▸ List.mem_singleton_self sop
    obtain ⟨inList, flags⟩ := List.mem_filter.mp listed
    obtain ⟨undo, same⟩ : sop.semUndo = true ∧ sop.semNum = semnum := by simpa using flags
    obtain ⟨k, below, at_⟩ := List.getElem_of_mem inList
    have allowed := (proceeds k below sop (List.getElem?_eq_some_iff.mpr ⟨below, at_⟩)).2
    rw [undoSum, found, List.map_singleton, List.sum_singleton, ← same]
    exact not_not.mp fun outside => allowed (Or.inr ⟨undo, outside⟩)
  | _ :: _ :: _ =>
    rw [found] at few
    simp at few

/-- A list that would take the sum out of the range is refused, with the report of its first
operation that cannot take place. -/
theorem refused_of_not_adjustable {sops : List Sembuf} (once : Once sops) (pid : Int)
    (within : Adjustable (values.semadj un semnum))
    (outside : ¬ Adjustable (values.semadj un semnum - undoSum semnum sops)) :
    FirstFailure (values.semadj un) values.semval sops (tryAtomicSemop values sops un pid).1 := by
  rcases tryAtomicSemop_cases values sops un pid with ⟨proceeds, -⟩ | ⟨result, -, failure, fails⟩
  · exact absurd (adjustable_of_proceedTo once proceeds within) outside
  · rw [fails]
    exact failure

/-! ## Runs -/

/-- The adjustment follows the sum as long as every list is undone once per semaphore. -/
theorem semadj_runCalls (within : Adjustable (values.semadj un semnum)) (calls : List Call)
    (once : ∀ call ∈ calls, call.un = un → Once call.sops) :
    (runCalls values calls).semadj un semnum =
        values.semadj un semnum - performed un semnum values calls ∧
      Adjustable ((runCalls values calls).semadj un semnum) := by
  induction calls generalizing values with
  | nil =>
    rw [performed, sub_zero]
    exact ⟨rfl, within⟩
  | cons call calls ih =>
    have later : ∀ other ∈ calls, other.un = un → Once other.sops :=
      (List.forall_mem_cons.mp once).2
    -- one call: the sum that it takes off stays in the range
    have inRange : Adjustable (values.semadj un semnum -
        (if call.un = un ∧ call.result values = 0 then undoSum semnum call.sops else 0)) := by
      by_cases counts : call.un = un ∧ call.result values = 0
      · rw [if_pos counts]
        rcases tryAtomicSemop_cases values call.sops call.un call.pid with ⟨proceeds, -⟩ |
          ⟨result, nonzero, -, fails⟩
        · exact adjustable_of_proceedTo (once call List.mem_cons_self counts.1)
            (counts.1 ▸ proceeds) within
        · have returned := counts.2
          rw [Call.result, fails] at returned
          exact absurd returned nonzero
      · rw [if_neg counts, sub_zero]
        exact within
    have step : (call.after values).semadj un semnum = _ :=
      semadj_after call (short_of_adjustable within)
    rw [short_of_adjustable inRange] at step
    obtain ⟨sum, last⟩ := ih (step ▸ inRange) later
    refine ⟨?_, last⟩
    rw [runCalls, sum, step, performed, sub_sub]

end Calls

/-! ## Exit -/

theorem semadj_exitSem (values : Values) (un : Nat) (pid : Int) (order : List Nat) :
    (order.foldl (adjustSem un pid) values).semadj = values.semadj := by
  induction order generalizing values with
  | nil => rfl
  | cons i order ih =>
    rw [List.foldl_cons, ih, adjustSem]
    split <;> rfl

def clampSemval (value : Int) : Int := min (max value 0) SEMVMX

theorem semval_adjustSem (values : Values) (un : Nat) (pid : Int) (i : Nat)
    (range : 0 ≤ values.semval i ∧ values.semval i ≤ SEMVMX) :
    (adjustSem un pid values i).semval i = clampSemval (values.semval i + values.semadj un i) := by
  rw [adjustSem, clampSemval]
  split
  · rename_i none
    rw [none, add_zero]
    omega
  · simp only [Function.update_self]
    split <;> split <;> omega

theorem semval_adjustSem_other (values : Values) (un : Nat) (pid : Int) {i semnum : Nat}
    (differs : semnum ≠ i) :
    (adjustSem un pid values i).semval semnum = values.semval semnum := by
  rw [adjustSem]
  split
  · rfl
  · exact Function.update_of_ne differs _ _

theorem semval_exitSem (values : Values) (un nsems : Nat) (pid : Int)
    (range : ∀ semnum, 0 ≤ values.semval semnum ∧ values.semval semnum ≤ SEMVMX) (semnum : Nat) :
    (exitSem values un nsems pid).semval semnum =
      if semnum < nsems then clampSemval (values.semval semnum + values.semadj un semnum)
        else values.semval semnum := by
  rw [exitSem]
  induction nsems with
  | zero => rfl
  | succ nsems ih =>
    rw [List.range_succ, List.foldl_append, List.foldl_cons, List.foldl_nil]
    by_cases last : semnum = nsems
    · subst last
      rw [if_neg (lt_irrefl semnum)] at ih
      rw [if_pos (Nat.lt_succ_self semnum), semval_adjustSem _ _ _ _ (ih ▸ range semnum), ih,
        semadj_exitSem]
    · rw [semval_adjustSem_other _ _ _ last, ih]
      have same : semnum < nsems + 1 ↔ semnum < nsems := by omega
      simp only [same]

/-- The books of one undo structure after a run.  A list that would take the sum out of the range is
refused with `-ERANGE`, unless an operation before has to wait. -/
structure Booked (un : Nat) (values : Values) (calls : List Call) : Prop where
  exact : ∀ semnum, (runCalls values calls).semadj un semnum = -performed un semnum values calls
  refused : ∀ sops pid semnum, Once sops →
      ¬ Adjustable (-(performed un semnum values calls + undoSum semnum sops)) →
      FirstFailure ((runCalls values calls).semadj un) (runCalls values calls).semval sops
        (tryAtomicSemop (runCalls values calls) sops un pid).1
  undone : (∀ semnum, 0 ≤ (runCalls values calls).semval semnum ∧
      (runCalls values calls).semval semnum ≤ SEMVMX) →
    ∀ nsems pid, ∀ semnum < nsems, (exitSem (runCalls values calls) un nsems pid).semval semnum =
      clampSemval ((runCalls values calls).semval semnum - performed un semnum values calls)

/-- From clear adjustments on, with lists that have no two operations to be undone on one
semaphore, the adjustments are the negated sums and `exit_sem` takes the sums back. -/
theorem undo_booked {un : Nat} {values : Values} (clear : ∀ semnum, values.semadj un semnum = 0)
    (calls : List Call)
    (once : ∀ call ∈ calls, call.un = un → Once call.sops) : Booked un values calls := by
  have books (semnum : Nat) :
      (runCalls values calls).semadj un semnum = -performed un semnum values calls ∧
      Adjustable ((runCalls values calls).semadj un semnum) := by
    have start : Adjustable (values.semadj un semnum) := by
      rw [clear]
      exact ⟨by decide, by decide⟩
    obtain ⟨sum, within⟩ := semadj_runCalls start calls once
    rw [clear, zero_sub] at sum
    exact ⟨sum, within⟩
  refine ⟨fun semnum => (books semnum).1, ?_, ?_⟩
  · intro sops pid semnum onceHere outside
    refine refused_of_not_adjustable onceHere pid (books semnum).2 ?_
    rw [(books semnum).1, ← neg_add']
    exact outside
  · intro range nsems pid semnum inside
    rw [semval_exitSem _ _ _ _ range, if_pos inside, (books semnum).1, ← sub_eq_add_neg]

/-- A call that lowers one semaphore and raises another. -/
theorem undo_booked_pair :
    Booked 0 ⟨fun _ => 5, fun _ => 0, fun _ _ =>
      0⟩ [⟨[⟨0, -3, true, true⟩, ⟨1, 2, true, true⟩], 0, 7⟩] := by
  refine undo_booked (fun _ => rfl) _ ?_
  intro call listed _ semnum
  rw [List.mem_singleton.mp listed, undoOps, List.filter_cons, List.filter_cons, List.filter_nil]
  by_cases first : semnum = 0
  · simp [first]
  · rw [if_neg (by simpa using Ne.symm first)]
    split <;> simp

/-- Two operations of one list on one semaphore: each is checked alone, their sum is not. -/
theorem undo_sum_wraps :
    let call : Call :=
      ⟨[⟨0, 20000, true, true⟩, ⟨0, -20000, true, false⟩, ⟨0, 20000, true, true⟩], 0, 7⟩
    let values : Values := ⟨fun _ => 0, fun _ => 0, fun _ _ => 0⟩
    call.result values = 0 ∧ performed 0 0 values [call] = 40000 ∧
      (runCalls values [call]).semadj 0 0 = 25536 ∧
        (exitSem (runCalls values [call]) 0 1 7).semval 0 = SEMVMX := by
  decide

end RouterKernel.Semaphores
