import RouterKernel.Resources.Kept

/-!
Contract: what the loops of `kernel/resource.c` find and what the operations do.

Owns:
- the walk along the children of a resource, for requests and releases;
- the descent of `__insert_resource`, the run of resources it covers, and its writes;
- the outcome of each operation.
-/

namespace RouterKernel.Resources

open RouterKernel.Foundation

variable {heap : Heap} {kids : Ptr → List Ptr} {root parent new old : Ptr}
  {front run back : List Ptr}

/-! ## The link behind some children -/

/-- The link that leads to the child behind `front`. -/
def linkAt (root : Ptr) (front : List Ptr) : Link :=
  match front.getLast? with
  | none => .child root
  | some last => .sibling last

theorem linkAt_snoc (root : Ptr) (front : List Ptr) (last : Ptr) :
    linkAt root (front ++ [last]) = .sibling last := by
  rw [linkAt, List.getLast?_concat]

theorem read_linkAt (chain : Chain heap.next (heap root).child (front ++ back)) :
    heap.read (linkAt root front) = back.head? := by
  obtain ⟨middle, walked, rest⟩ := segment_append.mp chain
  rw [← Segment.start_eq rest]
  rcases List.eq_nil_or_concat front with rfl | ⟨before, last, rfl⟩
  · exact walked
  · rw [List.concat_eq_append] at walked ⊢
    rw [linkAt_snoc]
    exact (segment_snoc.mp walked).2

/-- The fields after a resource has been linked in behind `front`. -/
theorem linkIn_fields (absent : new ∉ front) (next : heap.read (linkAt root front) = back.head?)
    (x : Ptr) :
    (linkIn heap root new (linkAt root front) x).start = (heap x).start ∧
    (linkIn heap root new (linkAt root front) x).stop = (heap x).stop ∧
    (linkIn heap root new (linkAt root front) x).parent =
    (if x = new then some root else (heap x).parent) ∧
    (linkIn heap root new (linkAt root front) x).sibling =
      (if x = new then back.head? else if front.getLast? = some x then some new
        else (heap x).sibling) ∧
    (linkIn heap root new (linkAt root front) x).child =
      if x = root ∧ front = [] then some new else (heap x).child := by
  rcases List.eq_nil_or_concat front with rfl | ⟨before, last, rfl⟩
  · have here : linkAt root [] = .child root := rfl
    rw [here] at next ⊢
    simp [linkIn, Heap.write, next]
  · rw [List.concat_eq_append] at absent next ⊢
    rw [linkAt_snoc] at next ⊢
    have different : new ≠ last := fun same => absent (by simp [same])
    by_cases isNew : x = new
    · simp [linkIn, Heap.write, next, isNew, different]
    · have swapped : x = last ↔ last = x := eq_comm
      simp [linkIn, Heap.write, isNew, swapped]

theorem linkIn_placed (childless : (heap new).child = none) (other : new ≠ root)
    (absent : new ∉ front) (next : heap.read (linkAt root front) = back.head?) :
    Placed heap root new front [] back (linkIn heap root new (linkAt root front)) := by
  have fields := linkIn_fields absent next
  refine ⟨fun x => (fields x).1, fun x => (fields x).2.1, fun x => ?_, fun x => ?_, fun x => ?_⟩
  · rw [(fields x).2.2.1]
    simp
  · rw [(fields x).2.2.2.1]
    simp
  · rw [(fields x).2.2.2.2]
    by_cases isNew : x = new
    · simp [isNew, other, childless]
    · simp [isNew]

theorem linkIn_chain (chain : Chain heap.next (heap root).child (front ++ back))
    (distinct : (front ++ back).Nodup) (absent : new ∉ front ++ back) :
    Chain (linkIn heap root new (linkAt root front)).next
      (linkIn heap root new (linkAt root front) root).child (front ++ new :: back) := by
  rw [List.mem_append, not_or] at absent
  rw [List.nodup_append] at distinct
  have fields := linkIn_fields absent.1 (read_linkAt chain)
  have sibling (x : Ptr) := (fields x).2.2.2.1
  obtain ⟨middle, walked, rest⟩ := segment_append.mp chain
  have redirected : Segment (linkIn heap root new (linkAt root front)).next
      (if front = [] then some new else (heap root).child) front (some new) := by
    apply walked.redirect distinct.1
    · intro x listed notLast
      rw [Heap.next, sibling, if_neg (ne_of_mem_of_not_mem listed absent.1), if_neg notLast]
      rfl
    · intro x last
      rw [Heap.next, sibling, if_neg (ne_of_mem_of_not_mem (List.mem_of_getLast? last) absent.1),
        if_pos last]
  have backSame : Segment (linkIn heap root new (linkAt root front)).next back.head? back none := by
    rw [← Segment.start_eq rest]
    refine rest.congr fun x listed => ?_
    have notLast : front.getLast? ≠ some x :=
      fun last => distinct.2.2 x (List.mem_of_getLast? last) x listed rfl
    rw [Heap.next, sibling, if_neg (ne_of_mem_of_not_mem listed absent.2), if_neg notLast]
    rfl
  have first : (linkIn heap root new (linkAt root front) root).child =
      if front = [] then some new else (heap root).child := by
    rw [(fields root).2.2.2.2]
    simp
  rw [first]
  refine segment_append.mpr ⟨some new, redirected, rfl, ?_⟩
  rw [Heap.next, sibling, if_pos rfl]
  exact backSame

/-! ## Requests -/

/-- The new resource is a proper range inside that of `root`. -/
def Fits (heap : Heap) (root new : Ptr) : Prop :=
  (heap root).start ≤ (heap new).start ∧ (heap new).start ≤ (heap new).stop ∧
    (heap new).stop ≤ (heap root).stop

instance (heap : Heap) (root new : Ptr) : Decidable (Fits heap root new) :=
  inferInstanceAs (Decidable (_ ∧ _ ∧ _))

/-- The outcomes of `__request_resource`. -/
inductive Requested (heap : Heap) (kids : Ptr → List Ptr) (root new : Ptr) :
    Option Ptr × Heap → Prop
  | placed {front back heap'} (fitting : Fitting heap kids root new front [] back)
      (placed : Placed heap root new front [] back heap') :
        Requested heap kids root new (none, heap')
  | meets {front tmp back} (fits : Fits heap root new) (split : kids root = front ++ tmp :: back)
      (before : ∀ x ∈ front, (heap x).stop < (heap new).start)
      (touches : ¬ Apart (heap tmp) (heap new)) : Requested heap kids root new (some tmp, heap)
  | unfit (unfit : ¬ Fits heap root new) : Requested heap kids root new (some root, heap)

/-- What the loop of `__request_resource` finds along the children `listed`. -/
inductive Scanned (heap : Heap) (listed : List Ptr) (root new : Ptr) : Option Ptr × Heap → Prop
  | slot {front back : List Ptr} (split : listed = front ++ back)
      (before : ∀ x ∈ front, (heap x).stop < (heap new).start)
      (head : ∀ x, back.head? = some x → (heap new).stop < (heap x).start) :
      Scanned heap listed root new (none, linkIn heap root new (linkAt root front))
  | meets {front : List Ptr} {tmp : Ptr} {back : List Ptr} (split : listed = front ++ tmp :: back)
      (before : ∀ x ∈ front, (heap x).stop < (heap new).start)
      (touches : ¬ Apart (heap tmp) (heap new)) : Scanned heap listed root new (some tmp, heap)

theorem requestLoop_scanned {listed : List Ptr} (chain : Chain heap.next (heap root).child listed)
    (front back : List Ptr) (split : listed = front ++ back)
    (before : ∀ x ∈ front, (heap x).stop < (heap new).start) :
    Returns (fun fuel =>
        loop (fun _ p => (liftM (requestTurn heap root new p) : Attempt Fault _)) fuel
      (linkAt root front)) (Scanned heap listed root new) := by
  have next : heap.read (linkAt root front) = back.head? := by
    rw [split] at chain
    exact read_linkAt chain
  induction back generalizing front with
  | nil =>
    have stops : requestTurn heap root new (linkAt root front) =
        .ok (.halted (none, linkIn heap root new (linkAt root front))) := by
      rw [requestTurn, next]
      rfl
    exact Returns.loop_halted stops (.slot split before (by simp))
  | cons tmp rest ih =>
    have turn : requestTurn heap root new (linkAt root front) = if (heap tmp).start >
        (heap new).stop then
          .ok (.halted (none, linkIn heap root new (linkAt root front)))
        else if (heap tmp).stop < (heap new).start then .ok (.running (.sibling tmp))
        else .ok (.halted (some tmp, heap)) := by
      rw [requestTurn, next, List.head?_cons]
    by_cases behind : (heap tmp).start > (heap new).stop
    · rw [if_pos behind] at turn
      refine Returns.loop_halted turn (.slot split before ?_)
      intro x first
      injection first with same
      exact same ▸ behind
    rw [if_neg behind] at turn
    by_cases earlier : (heap tmp).stop < (heap new).start
    · rw [if_pos earlier] at turn
      refine Returns.loop_running turn ?_
      rw [← linkAt_snoc root front tmp]
      have splitNext : listed = (front ++ [tmp]) ++ rest := by
        rw [split, List.append_assoc, List.singleton_append]
      have nextRead : heap.read (linkAt root (front ++ [tmp])) = rest.head? := by
        rw [splitNext] at chain
        exact read_linkAt chain
      refine ih (front ++ [tmp]) splitNext ?_ nextRead
      intro x within
      rcases List.mem_append.mp within with within | within
      · exact before x within
      · exact List.mem_singleton.mp within ▸ earlier
    · rw [if_neg earlier] at turn
      refine Returns.loop_halted turn (.meets split before ?_)
      rintro (apart | apart)
      · exact earlier apart
      · exact behind apart

/-- `__request_resource` needs no more of the tree than the list of the children. -/
theorem requestResourceConflict_scanned {listed : List Ptr}
    (chain : Chain heap.next (heap root).child listed) :
    Returns (requestResourceConflict heap root new) fun result =>
      if Fits heap root new then Scanned heap listed root new result else result =
        (some root, heap) := by
  unfold requestResourceConflict
  by_cases improper : (heap new).stop < (heap new).start
  · have unfit : ¬ Fits heap root new := fun fits => by have := fits.2.1; bv_omega
    simp only [if_pos improper, if_neg unfit]
    exact Returns.pure rfl
  by_cases low : (heap new).start < (heap root).start
  · have unfit : ¬ Fits heap root new := fun fits => by have := fits.1; bv_omega
    simp only [if_neg improper, if_pos low, if_neg unfit]
    exact Returns.pure rfl
  by_cases high : (heap new).stop > (heap root).stop
  · have unfit : ¬ Fits heap root new := fun fits => by have := fits.2.2; bv_omega
    simp only [if_neg improper, if_neg low, if_pos high, if_neg unfit]
    exact Returns.pure rfl
  · have fits : Fits heap root new := by
      unfold Fits
      bv_omega
    simp only [if_neg improper, if_neg low, if_neg high, if_pos fits]
    exact requestLoop_scanned chain [] listed rfl (by simp)

theorem Kept.after_of_head (kept : Kept heap kids) (split : kids root = front ++ back) {limit : U32}
    (head : ∀ x, back.head? = some x → limit < (heap x).start) :
    ∀ x ∈ back, limit < (heap x).start := by
  cases back with
  | nil => simp
  | cons first rest =>
    have sorted := kept.ordered root
    rw [split, List.pairwise_append, List.pairwise_cons] at sorted
    have proper := (kept.nested root first (by rw [split]; simp)).2.1
    have here := head first rfl
    intro x listed
    rcases List.mem_cons.mp listed with rfl | later
    · exact here
    · have := sorted.2.1.1 x later
      bv_omega

section Requesting

variable (kept : Kept heap kids) (loose : Loose heap new) (other : new ≠ root)

include kept loose other in
theorem linkIn_requested (fits : Fits heap root new) (split : kids root = front ++ back)
    (before : ∀ x ∈ front, (heap x).stop < (heap new).start)
    (head : ∀ x, back.head? = some x → (heap new).stop < (heap x).start) :
    Requested heap kids root new (none, linkIn heap root new (linkAt root front)) := by
  have absent : new ∉ front := by
    intro listed
    exact kept.not_mem_of_loose loose.1 root (by rw [split]; simp [listed])
  have chain := kept.linked root
  rw [split] at chain
  refine .placed ⟨loose, other, split, fits.1, fits.2.1, fits.2.2, before, by simp, ?_⟩
    (linkIn_placed loose.2 other absent (read_linkAt chain))
  exact kept.after_of_head split head

include kept loose other in
theorem requestResourceConflict_returns :
    Returns (requestResourceConflict heap root new) (Requested heap kids root new) := by
  refine (requestResourceConflict_scanned (kept.linked root)).mono ?_
  intro result scanned
  split_ifs at scanned with fits
  · cases scanned with
    | slot split before head => exact linkIn_requested kept loose other fits split before head
    | meets split before touches => exact .meets fits split before touches
  · subst scanned
    exact .unfit fits

end Requesting

/-! ## Releases -/

theorem releaseLoop_returns (kept : Kept heap kids) (front back rest : List Ptr)
    (split : kids parent = front ++ (back ++ old :: rest)) :
    Returns (fun fuel => loop (fun _ p => (liftM (releaseTurn heap old p) : Attempt Fault _)) fuel
      (linkAt parent front)) fun result =>
        result.1 = .ok () ∧ TakenOut heap parent old (front ++ back) rest result.2 := by
  have chain := kept.linked parent
  rw [split] at chain
  have next := read_linkAt chain
  induction back generalizing front with
  | nil =>
    have stops : releaseTurn heap old (linkAt parent front) = .ok (.halted
        (.ok (), (heap.write (linkAt parent front) (heap old).sibling).setParent old none)) := by
      rw [releaseTurn, next, List.nil_append, List.head?_cons]
      exact if_pos rfl
    have following : (heap old).sibling = rest.head? := by
      obtain ⟨middle, -, -, after⟩ := segment_append.mp chain
      exact Segment.start_eq after
    refine Returns.loop_halted stops ⟨rfl, ?_⟩
    rw [following, List.append_nil]
    rcases List.eq_nil_or_concat front with rfl | ⟨before, last, rfl⟩
    · have here : linkAt parent [] = .child parent := rfl
      rw [here]
      constructor <;> intro x <;> simp [Heap.write]
    · rw [List.concat_eq_append, linkAt_snoc]
      constructor <;> intro x
      · simp [Heap.write]
      · simp [Heap.write]
      · simp [Heap.write]
      · by_cases same : x = last
        · simp [Heap.write, same]
        · simp [Heap.write, same, Ne.symm same]
      · simp [Heap.write]
  | cons tmp back ih =>
    have distinct := kept.nodup parent
    rw [split, List.nodup_append, List.cons_append, List.nodup_cons] at distinct
    have different : tmp ≠ old := fun same => distinct.2.1.1 (by simp [same])
    have goes : releaseTurn heap old (linkAt parent front) = .ok (.running (.sibling tmp)) := by
      rw [releaseTurn, next, List.cons_append, List.head?_cons]
      exact if_neg different
    refine Returns.loop_running goes ?_
    rw [← linkAt_snoc parent front tmp]
    have splitNext : kids parent = (front ++ [tmp]) ++ (back ++ old :: rest) := by
      rw [split, List.append_assoc, List.singleton_append, List.cons_append]
    have chainNext := kept.linked parent
    rw [splitNext] at chainNext
    have rest := ih (front ++ [tmp]) splitNext chainNext (read_linkAt chainNext)
    rw [List.append_assoc, List.singleton_append] at rest
    exact rest

theorem releaseResource_returns (kept : Kept heap kids) (below : (heap old).parent = some parent) :
    Returns (releaseResource heap old) fun result =>
      result.1 = .ok () ∧ (result.2 old).parent = none ∧ ∃ kids', Kept result.2 kids' := by
  obtain ⟨front, back, split⟩ := List.append_of_mem ((kept.parents _ _).mpr below)
  unfold releaseResource
  simp only [below]
  refine (releaseLoop_returns kept [] front back split).mono ?_
  rintro result ⟨done, taken⟩
  exact ⟨done, by rw [taken.parents, if_pos rfl], _, kept.takenOut split taken⟩

/-! ## Insertions: the descent -/

/-- How the descent of `__insert_resource` ends. -/
inductive Descended (heap : Heap) (kids : Ptr → List Ptr) (root new : Ptr) : Descent → Prop
  | placed {parent front back heap'} (under : Under heap root parent)
      (fitting : Fitting heap kids parent new front [] back)
      (placed : Placed heap parent new front [] back heap') :
        Descended heap kids root new (.done none heap')
  | unfit (unfit : ¬ Fits heap root new) : Descended heap kids root new (.done (some root) heap)
  | meets {parent front first back} (under : Under heap root parent) (other : new ≠ parent)
      (fits : Fits heap parent new) (split : kids parent = front ++ first :: back)
      (before : ∀ x ∈ front, (heap x).stop < (heap new).start)
      (touches : ¬ Apart (heap first) (heap new))
      (notBelow : Within (heap new) (heap first) → Within (heap first) (heap new)) :
      Descended heap kids root new (.meets heap parent first)

/-- The states of the descent: the tree is as it was, and the new resource fits in every
resource it goes below. -/
def Descending (heap : Heap) (root new : Ptr) (state : Heap × Ptr) : Prop :=
  state.1 = heap ∧ Under heap root state.2 ∧ new ≠ state.2 ∧
    (state.2 = root ∨ Fits heap state.2 new)

theorem descendTurn_returns (kept : Kept heap kids) {height : Ptr → Nat}
    (lower : ∀ r c, c ∈ kids r → height c < height r) (loose : Loose heap new) {parent : Ptr}
    (under : Under heap root parent) (other : new ≠ parent)
    (inside : parent = root ∨ Fits heap parent new) :
    Returns (fun fuel => descendTurn new fuel (heap, parent))
      (Turned (Descending heap root new) (fun state => height state.2)
        (Descended heap kids root new) (height parent)) := by
  refine Returns.bind (requestResourceConflict_returns kept loose other) ?_
  rintro ⟨result, after⟩ requested
  cases requested with
  | placed fitting placed => exact Returns.pure (.placed under fitting placed)
  | unfit unfit =>
    simp only [if_true]
    rcases inside with rfl | fits
    · exact Returns.pure (.unfit unfit)
    · exact absurd fits unfit
  | @meets front first back fits split before touches =>
    have child : first ∈ kids parent := by
      rw [split]
      simp
    have notParent : first ≠ parent := by
      rintro rfl
      exact lt_irrefl _ (lower _ _ child)
    have notNew : first ≠ new := ne_of_mem_of_not_mem child (kept.not_mem_of_loose loose.1 parent)
    simp only [if_neg notParent, if_neg notNew]
    by_cases smaller : (heap first).start > (heap new).start ∨ (heap first).stop < (heap new).stop
    · rw [if_pos smaller]
      refine Returns.pure (.meets under other fits split before touches fun within => ?_)
      unfold Within at *
      bv_omega
    rw [if_neg smaller]
    by_cases same : (heap first).start = (heap new).start ∧ (heap first).stop = (heap new).stop
    · rw [if_pos same]
      refine Returns.pure (.meets under other fits split before touches fun _ => ?_)
      unfold Within
      rw [same.1, same.2]
      exact ⟨BitVec.le_refl _, BitVec.le_refl _⟩
    · rw [if_neg same]
      refine Returns.pure ⟨⟨rfl, under.tail ((kept.parents _ _).mp child), notNew.symm, .inr ?_⟩,
        lower _ _ child⟩
      have proper := fits.2.1
      unfold Fits
      bv_omega

theorem descend_returns (kept : Kept heap kids) (loose : Loose heap new) (other : new ≠ root) :
    Returns (fun fuel => loop (descendTurn new) fuel (heap, root))
      (Descended heap kids root new) := by
  obtain ⟨height, lower⟩ := kept.founded
  have start : Descending heap root new (heap, root) :=
    ⟨rfl, Relation.ReflTransGen.refl, other, .inl rfl⟩
  refine Returns.loop (Descending heap root new) (fun state => height state.2) ?_ start
  rintro ⟨_, parent⟩ ⟨rfl, under, other, inside⟩
  exact descendTurn_returns kept lower loose under other inside

/-! ## Insertions: the run of covered resources -/

/-- The resources that go below the new one, or the first that overlaps it partially. -/
def Covered (heap : Heap) (kids : Ptr → List Ptr) (parent new : Ptr) (front : List Ptr)
    (first : Ptr) :
    Except Ptr Ptr → Prop
  | .error next => next ∈ kids parent ∧ Overlap (heap next) (heap new)
  | .ok next => ∃ run back, kids parent = front ++ (run ++ back) ∧ run.head? = some first ∧
      run.getLast? = some next ∧ (∀ x ∈ run, Within (heap x) (heap new)) ∧
      ∀ x ∈ back, (heap new).stop < (heap x).start

theorem Kept.sibling_eq (kept : Kept heap kids) {next : Ptr} {done rest : List Ptr}
    (split : kids parent = front ++ (done ++ next :: rest)) : (heap next).sibling = rest.head? := by
  have chain := kept.linked parent
  rw [split, ← List.append_assoc] at chain
  obtain ⟨middle, -, -, after⟩ := segment_append.mp chain
  exact Segment.start_eq after

section Covering

variable {first next : Ptr} {done rest : List Ptr}

theorem covered_sticksOut (split : kids parent = front ++ (done ++ next :: rest))
    (touches : ¬ Apart (heap next) (heap new))
    (notBelow : Within (heap new) (heap next) → Within (heap next) (heap new))
    (sticksOut : (heap next).start < (heap new).start ∨ (heap next).stop > (heap new).stop) :
    Covered heap kids parent new front first (.error next) := by
  have notInside : ¬ Within (heap next) (heap new) := by
    unfold Within
    bv_omega
  refine ⟨?_, touches, notInside, fun within => notInside (notBelow within)⟩
  rw [split]
  simp

theorem covered_inside (inside : ∀ x ∈ done, Within (heap x) (heap new))
    (notOut : ¬ ((heap next).start < (heap new).start ∨ (heap next).stop > (heap new).stop)) :
    ∀ x ∈ done ++ [next], Within (heap x) (heap new) := by
  intro x listed
  rcases List.mem_append.mp listed with listed | listed
  · exact inside x listed
  · rw [List.mem_singleton.mp listed, Within]
    bv_omega

theorem covered_stops (kept : Kept heap kids)
    (split : kids parent = front ++ (done ++ next :: rest))
    (begins : (done ++ [next]).head? = some first) (inside : ∀ x ∈ done, Within (heap x) (heap new))
    (notOut : ¬ ((heap next).start < (heap new).start ∨ (heap next).stop > (heap new).stop))
    (head : ∀ x, rest.head? = some x → (heap new).stop < (heap x).start) :
    Covered heap kids parent new front first (.ok next) := by
  have splitRun : kids parent = front ++ ((done ++ [next]) ++ rest) := by
    rw [split, List.append_assoc, List.singleton_append]
  have splitBack : kids parent = (front ++ (done ++ [next])) ++ rest := by
    rw [splitRun, ← List.append_assoc]
  exact ⟨done ++ [next], rest, splitRun, begins, List.getLast?_concat, covered_inside inside notOut,
    kept.after_of_head splitBack head⟩

end Covering

theorem coverLoop_returns (kept : Kept heap kids) {first next : Ptr} (rest done : List Ptr)
    (split : kids parent = front ++ (done ++ next :: rest))
    (begins : (done ++ [next]).head? = some first)
    (inside : ∀ x ∈ done, Within (heap x) (heap new))
    (touches : ¬ Apart (heap next) (heap new))
    (notBelow : Within (heap new) (heap next) → Within (heap next) (heap new)) :
    Returns (fun fuel =>
        loop (fun _ next => (liftM (coverTurn heap new next) : Attempt Fault _)) fuel
      next) (Covered heap kids parent new front first) := by
  induction rest generalizing done next with
  | nil =>
    by_cases sticksOut : (heap next).start < (heap new).start ∨ (heap next).stop > (heap new).stop
    · have turn : coverTurn heap new next = .ok (.halted (.error next)) := if_pos sticksOut
      exact Returns.loop_halted turn (covered_sticksOut split touches notBelow sticksOut)
    · have turn : coverTurn heap new next = .ok (.halted (.ok next)) := by
        rw [coverTurn, if_neg sticksOut, kept.sibling_eq split]
        rfl
      exact Returns.loop_halted turn (covered_stops kept split begins inside sticksOut (by simp))
  | cons sibling rest ih =>
    by_cases sticksOut : (heap next).start < (heap new).start ∨ (heap next).stop > (heap new).stop
    · have turn : coverTurn heap new next = .ok (.halted (.error next)) := if_pos sticksOut
      exact Returns.loop_halted turn (covered_sticksOut split touches notBelow sticksOut)
    have turn : coverTurn heap new next =
        if (heap sibling).start > (heap new).stop then .ok (.halted (.ok next))
          else .ok (.running sibling) := by
      rw [coverTurn, if_neg sticksOut, kept.sibling_eq split]
      rfl
    by_cases behind : (heap sibling).start > (heap new).stop
    · rw [if_pos behind] at turn
      refine Returns.loop_halted turn (covered_stops kept split begins inside sticksOut ?_)
      intro x head
      injection head with same
      exact same ▸ behind
    · rw [if_neg behind] at turn
      refine Returns.loop_running turn ?_
      have splitNext : kids parent = front ++ ((done ++ [next]) ++ sibling :: rest) := by
        rw [split, List.append_assoc, List.singleton_append]
      have sorted := kept.ordered parent
      rw [split, List.pairwise_append, List.pairwise_append, List.pairwise_cons] at sorted
      have follows : (heap next).stop < (heap sibling).start :=
        sorted.2.1.2.1.1 sibling List.mem_cons_self
      have nextProper := (kept.nested parent next (by rw [split]; simp)).2.1
      have siblingProper := (kept.nested parent sibling (by rw [split]; simp)).2.1
      refine ih (done ++ [next]) splitNext ?_ ?_ ?_ ?_
      · rw [List.head?_append, begins]
        rfl
      · exact covered_inside inside sticksOut
      · unfold Apart
        bv_omega
      · unfold Within
        bv_omega

/-! ## Insertions: the writes -/

theorem adoptLoop_returns (run : List Ptr) {start : Option Ptr}
    (chain : Chain heap.next start run) :
    Returns (fun fuel => loop (fun _ state => (liftM (adoptTurn new state) : Attempt Fault _)) fuel
      (heap, start)) fun after => ∀ x,
        after x = { heap x with parent := if x ∈ run then some new else (heap x).parent } := by
  induction run generalizing heap start with
  | nil =>
    obtain rfl : start = none := chain
    have stops : adoptTurn new (heap, none) = .ok (.halted heap) := rfl
    exact Returns.loop_halted stops fun x => by simp
  | cons node rest ih =>
    obtain ⟨rfl, chain⟩ := chain
    have goes : adoptTurn new (heap, some node) =
        .ok (.running (heap.setParent node (some new), (heap node).sibling)) := by
      rw [adoptTurn, Heap.setParent_apply]
    refine Returns.loop_running goes ?_
    have same : ∀ x ∈ rest, (heap.setParent node (some new)).next x = heap.next x := fun x _ => by
      rw [Heap.next, Heap.setParent_apply, Heap.next]
    refine (ih (chain.congr same)).mono fun after fields x => ?_
    rw [fields x]
    by_cases isNode : x = node
    · subst isNode
      simp [Heap.setParent]
    · simp [Heap.setParent, isNode]

theorem precedeLoop_returns {first : Ptr} (front : List Ptr) (present : front ≠ [])
    {start : Option Ptr}
    (walk : Segment heap.next start front (some first)) (absent : first ∉ front) :
    Returns (fun fuel =>
        loop (fun _ next => (liftM (precedeTurn heap first next) : Attempt Fault _))
      fuel start) fun next => front.getLast? = some next := by
  induction front generalizing start with
  | nil => exact absurd rfl present
  | cons node rest ih =>
    obtain ⟨rfl, walk⟩ := walk
    have turn : precedeTurn heap first (some node) = if (heap node).sibling = some first
        then .ok (.halted node)
        else .ok (.running (heap node).sibling) := rfl
    cases rest with
    | nil =>
      have reached : (heap node).sibling = some first := walk
      rw [if_pos reached] at turn
      exact Returns.loop_halted turn rfl
    | cons other rest =>
      have different : (heap node).sibling ≠ some first := by
        intro same
        have follows : (heap node).sibling = some other := walk.1
        rw [follows] at same
        injection same with same
        exact absent (by simp [same])
      rw [if_neg different] at turn
      refine Returns.loop_running turn ?_
      have later := ih (by simp) walk fun listed => absent (List.mem_cons_of_mem _ listed)
      rw [List.getLast?_cons_cons]
      exact later

/-- The four assignments before the loops of the last part of `__insert_resource`. -/
def opened (heap : Heap) (parent new first next : Ptr) : Heap :=
  (((heap.setParent new (some parent)).setSibling new (heap next).sibling).setChild new
    (some first)).setSibling next none

section Adopting

variable {first next : Ptr} (kept : Kept heap kids)
  (fitting : Fitting heap kids parent new front run back)
  (begins : run.head? = some first) (ends : run.getLast? = some next)

include kept fitting ends in
theorem opened_siblings (x : Ptr) : (opened heap parent new first next x).sibling =
    if x = next then none else if x = new then back.head? else (heap x).sibling := by
  have following : (heap next).sibling = back.head? := by
    obtain ⟨before, rfl⟩ := List.getLast?_eq_some_iff.mp ends
    have split : kids parent = front ++ (before ++ next :: back) := by
      rw [fitting.split, List.append_assoc, List.singleton_append]
    exact kept.sibling_eq split
  simp only [opened, Heap.setSibling_apply, Heap.setChild_apply, Heap.setParent_apply, following]

include kept fitting begins ends in
theorem opened_run : Chain (opened heap parent new first next).next (some first) run := by
  obtain ⟨-, runOnce, -, -⟩ := split_nodup kept fitting
  have absent := kept.not_mem_of_loose fitting.loose.1 parent
  have whole := kept.linked parent
  rw [fitting.split] at whole
  obtain ⟨start, -, rest⟩ := segment_append.mp whole
  have startEq : start = (run ++ back).head? := Segment.start_eq rest
  obtain ⟨stop, walked, -⟩ := segment_append.mp rest
  have present : run ≠ [] := by
    rintro rfl
    cases begins
  have redirected : Segment (opened heap parent new first next).next
      (if run = [] then none else start) run none := by
    refine walked.redirect runOnce ?_ ?_
    · intro x listed notLast
      have notNext : x ≠ next := fun same => notLast (same ▸ ends)
      rw [Heap.next, opened_siblings kept fitting ends, if_neg notNext,
        if_neg (ne_of_mem_of_not_mem (run_mem fitting listed) absent)]
      rfl
    · intro x last
      rw [ends] at last
      injection last with same
      rw [Heap.next, opened_siblings kept fitting ends, if_pos same.symm]
  rw [if_neg present, startEq, List.head?_append, begins] at redirected
  exact redirected

include kept fitting begins in
theorem front_segment : Segment heap.next (heap parent).child front (some first) := by
  have whole := kept.linked parent
  rw [fitting.split] at whole
  obtain ⟨start, walked, rest⟩ := segment_append.mp whole
  have startEq : start = (run ++ back).head? := Segment.start_eq rest
  rw [List.head?_append, begins, Option.some_or] at startEq
  exact startEq ▸ walked

include fitting in
theorem front_mem {x : Ptr} (listed : x ∈ front) : x ∈ kids parent := by
  rw [fitting.split]
  exact List.mem_append_left _ listed

include kept fitting begins ends in
theorem adopt_returns :
    Returns (adopt heap parent new first next) (Placed heap parent new front run back) := by
  obtain ⟨-, -, frontApart, -⟩ := split_nodup kept fitting
  have absent := kept.not_mem_of_loose fitting.loose.1 parent
  have inRun : next ∈ run := List.mem_of_getLast? ends
  have firstRun : first ∈ run := List.mem_of_head? begins
  have newNext : new ≠ next := (ne_of_mem_of_not_mem (run_mem fitting inRun) absent).symm
  have newRun : new ∉ run := fun listed => absent (run_mem fitting listed)
  have walked := front_segment kept fitting begins
  have siblings (x : Ptr) : (opened heap parent new first next x).sibling = _ :=
    opened_siblings kept fitting ends x
  unfold adopt
  simp only [Heap.setParent_apply]
  refine Returns.bind (adoptLoop_returns run (opened_run kept fitting begins ends)) ?_
  intro after adopted
  have fields (x : Ptr) : after x = { opened heap parent new first next x with
      parent := if x ∈ run then some new else (opened heap parent new first next x).parent } :=
        adopted x
  have child : (after parent).child = (heap parent).child := by
    rw [fields parent]
    simp [opened, Ne.symm fitting.other]
  have lastRun (x : Ptr) : run.getLast? = some x ↔ x = next := by
    rw [ends, Option.some_inj, eq_comm]
  rcases List.eq_nil_or_concat front with rfl | ⟨before, last, rfl⟩
  · have atFirst : (after parent).child = some first := child.trans walked
    simp only [if_pos atFirst]
    refine Returns.pure ⟨?_, ?_, ?_, ?_, ?_⟩ <;> intro x
    · simp [fields, opened]
    · simp [fields, opened]
    · by_cases isNew : x = new
      · simp [fields, opened, isNew, newRun]
      · simp [fields, opened, isNew]
    · by_cases isNew : x = new
      · simp [fields, siblings, isNew, newNext]
      · simp [fields, siblings, lastRun, isNew]
    · by_cases isNew : x = new
      · simp [fields, opened, isNew, fitting.other, begins]
      · simp [fields, opened, isNew]
  · rw [List.concat_eq_append] at walked frontApart fitting ⊢
    have notFirst : (after parent).child ≠ some first := by
      intro same
      rw [child] at same
      rw [same] at walked
      have begun : some first = (before ++ [last]).head? := by
        cases before with
        | nil => exact walked.1
        | cons node rest => exact walked.1
      exact (frontApart first (List.mem_of_head? begun.symm)).1 firstRun
    simp only [if_neg notFirst]
    have walkedAfter : Segment after.next (after parent).child (before ++ [last]) (some first) := by
      rw [child]
      refine walked.congr fun x listed => ?_
      have notNext : x ≠ next := (ne_of_mem_of_not_mem inRun (frontApart x listed).1).symm
      have notNew : x ≠ new := ne_of_mem_of_not_mem (front_mem fitting listed) absent
      rw [Heap.next, fields x]
      simp [siblings, notNext, notNew, Heap.next]
    refine Returns.bind (precedeLoop_returns _ (by simp) walkedAfter fun listed =>
      (frontApart first listed).1 firstRun) ?_
    intro node lastNode
    rw [List.getLast?_concat] at lastNode
    injection lastNode with same
    subst same
    have inFront : last ∈ before ++ [last] := by simp
    have newLast : new ≠ last := (ne_of_mem_of_not_mem (front_mem fitting inFront) absent).symm
    have nextLast : next ≠ last := ne_of_mem_of_not_mem inRun (frontApart last inFront).1
    refine Returns.pure ⟨?_, ?_, ?_, ?_, ?_⟩ <;> intro x
    · simp [fields, opened]
    · simp [fields, opened]
    · by_cases isNew : x = new
      · simp [fields, opened, isNew, newRun]
      · simp [fields, opened, isNew]
    · by_cases isLast : x = last
      · simp [lastRun, isLast, newLast.symm, nextLast.symm]
      by_cases isNew : x = new
      · simp [fields, siblings, isNew, newNext, newLast]
      · simp [fields, siblings, lastRun, isNew, isLast, Ne.symm isLast]
    · by_cases isNew : x = new
      · simp [fields, opened, isNew, begins]
      · simp [fields, opened, isNew]

end Adopting

/-! ## Insertions: the outcome -/

/-- The outcomes of `__insert_resource`. -/
inductive Inserted (heap : Heap) (kids : Ptr → List Ptr) (root new : Ptr) : Option Ptr × Heap → Prop
  | placed {parent front run back heap'} (under : Under heap root parent)
      (fitting : Fitting heap kids parent new front run back)
      (placed : Placed heap parent new front run back heap') :
        Inserted heap kids root new (none, heap')
  | unfit (unfit : ¬ Fits heap root new) : Inserted heap kids root new (some root, heap)
  | overlap {parent next} (under : Under heap root parent) (child : next ∈ kids parent)
      (overlap : Overlap (heap next) (heap new)) : Inserted heap kids root new (some next, heap)

theorem insertResourceConflict_returns (kept : Kept heap kids) (loose : Loose heap new)
    (other : new ≠ root) :
    Returns (insertResourceConflict heap root new) (Inserted heap kids root new) := by
  refine Returns.bind (descend_returns kept loose other) ?_
  rintro descent descended
  cases descended with
  | placed under fitting placed => exact Returns.pure (.placed under fitting placed)
  | unfit unfit => exact Returns.pure (.unfit unfit)
  | @meets parent front first back under other fits split before touches notBelow =>
    refine Returns.bind (coverLoop_returns kept back [] split rfl (by simp) touches notBelow) ?_
    rintro (next | next) covered
    · exact Returns.pure (.overlap under covered.1 covered.2)
    · obtain ⟨run, back, splitRun, begins, ends, inside, after⟩ := covered
      have fitting : Fitting heap kids parent new front run back :=
        ⟨loose, other, splitRun, fits.1, fits.2.1, fits.2.2, before, inside, after⟩
      refine Returns.bind (adopt_returns kept fitting begins ends) ?_
      intro heap' placed
      exact Returns.pure (.placed under fitting placed)

theorem Fitting.no_overlap (kept : Kept heap kids)
    (fitting : Fitting heap kids parent new front run back)
    {top x : Ptr} (above : Under heap top parent) (under : Under heap top x) :
    ¬ Overlap (heap x) (heap new) := by
  have inParent : Within (heap new) (heap parent) := ⟨fitting.start, fitting.stop⟩
  rintro ⟨notApart, notBelow, notAbove⟩
  rcases kept.under_or_apart above under with below | over_ | apart
  · rcases under_cases below with rfl | ⟨c, cChild, cUnder⟩
    · exact notAbove inParent
    · have listed := (kept.parents _ _).mpr cChild
      rw [fitting.split, List.mem_append, List.mem_append] at listed
      rcases listed with inFront | inRun | inBack
      · have apart : Apart (heap c) (heap new) := .inl (fitting.before c inFront)
        exact notApart (apart.under kept cUnder)
      · exact notBelow ((kept.under_within cUnder).trans (fitting.inside c inRun))
      · have apart : Apart (heap c) (heap new) := .inr (fitting.after c inBack)
        exact notApart (apart.under kept cUnder)
  · exact notAbove (inParent.trans (kept.under_within over_))
  · exact notApart (apart.within inParent).symm

/-- An insertion succeeds exactly when the resource fits and overlaps none of the tree
partially. -/
theorem Inserted.none_iff (kept : Kept heap kids) {result : Option Ptr × Heap}
    (inserted : Inserted heap kids root new result) {top : Ptr} (above : Under heap top root) :
    result.1 = none ↔ Fits heap root new ∧ ∀ x, Under heap top x →
      ¬ Overlap (heap x) (heap new) := by
  cases inserted with
  | placed under fitting placed =>
    have inParent : Within (heap new) (heap root) :=
      Within.trans ⟨fitting.start, fitting.stop⟩ (kept.under_within under)
    simp only [true_iff]
    exact ⟨⟨inParent.1, fitting.proper, inParent.2⟩, fun x below =>
      fitting.no_overlap kept (above.trans under) below⟩
  | unfit unfit => simp [unfit]
  | @overlap parent next under child overlap =>
    have below : Under heap top next := (above.trans under).tail ((kept.parents _ _).mp child)
    simp only [reduceCtorEq, false_iff]
    exact fun both => both.2 next below overlap

/-! ## Expansion -/

def ranged (heap : Heap) (new : Ptr) (start stop : U32) : Heap :=
  Function.update heap new { heap new with start, stop }

theorem ranged_loose (loose : Loose heap new) (start stop : U32) :
    Loose (ranged heap new start stop) new := by
  unfold Loose ranged
  rw [Function.update_self]
  exact loose

theorem ranged_of_ne {x : Ptr} (different : x ≠ new) (start stop : U32) :
    ranged heap new start stop x = heap x :=
  Function.update_of_ne different _ _

theorem ranged_self (heap : Heap) (new : Ptr) (start stop : U32) :
    ranged heap new start stop new = { heap new with start, stop } :=
  Function.update_self ..

theorem ranged_links (heap : Heap) (new : Ptr) (start stop : U32) (x : Ptr) :
    (ranged heap new start stop x).parent = (heap x).parent ∧
      (ranged heap new start stop x).sibling = (heap x).sibling ∧
      (ranged heap new start stop x).child = (heap x).child := by
  by_cases isNew : x = new
  · rw [isNew, ranged_self]
    exact ⟨rfl, rfl, rfl⟩
  · rw [ranged_of_ne isNew]
    exact ⟨rfl, rfl, rfl⟩

theorem setRange_eq (heap : Heap) (new : Ptr) (start stop : U32) :
    (heap.setStart new start).setStop new stop = ranged heap new start stop := by
  unfold Heap.setStart Heap.setStop ranged
  rw [Function.update_self, Function.update_idem]

theorem Kept.withRange (kept : Kept heap kids) (loose : Loose heap new) (start stop : U32) :
    Kept (ranged heap new start stop) kids := by
  have same {r c : Ptr} (child : c ∈ kids r) : ranged heap new start stop c = heap c ∧
      ranged heap new start stop r = heap r := by
    constructor
    · exact ranged_of_ne (ne_of_mem_of_not_mem child (kept.not_mem_of_loose loose.1 r)) start stop
    · refine ranged_of_ne ?_ start stop
      rintro rfl
      rw [kept.kids_of_loose loose.2] at child
      cases child
  refine kept.ofRanges (ranged_links heap new start stop) (fun r => ?_) fun r c child => ?_
  · refine (kept.ordered r).imp_of_mem fun left right before => ?_
    rw [(same left).1, (same right).1]
    exact before
  · rw [(same child).1, (same child).2]
    exact kept.nested r c child

theorem expand_eq (heap : Heap) {conflict : Ptr} (different : conflict ≠ new) :
    ∃ start stop, expand heap new conflict = ranged heap new start stop ∧
      start = (if (heap conflict).start < (heap new).start then (heap conflict).start
        else (heap new).start) ∧
      stop = if (heap conflict).stop > (heap new).stop then (heap conflict).stop
        else (heap new).stop := by
  refine ⟨_, _, ?_, rfl, rfl⟩
  unfold expand ranged
  by_cases low : (heap conflict).start < (heap new).start
  · by_cases high : (heap conflict).stop > (heap new).stop
    · simp [low, high, Heap.setStart, Heap.setStop, different]
    · simp [low, high, Heap.setStart, different]
  · by_cases high : (heap conflict).stop > (heap new).stop
    · simp [low, high, Heap.setStop]
    · simp [low, high]

/-- How far the range of a resource can still grow. -/
def slack (r : Resource) : Nat := r.start.toNat + (2 ^ 32 - r.stop.toNat)

theorem expand_slack {conflict : Ptr} (different : conflict ≠ new)
    (notInside : ¬ Within (heap conflict) (heap new)) :
    slack (expand heap new conflict new) < slack (heap new) := by
  obtain ⟨start, stop, same, startEq, stopEq⟩ := expand_eq heap different
  have stopBound := (heap new).stop.isLt
  have conflictBound := (heap conflict).stop.isLt
  unfold Within at notInside
  rw [same, ranged_self, slack, slack]
  simp only
  rw [startEq, stopEq]
  split_ifs <;> bv_omega

/-- What `insert_resource_expand_to_fit` does: an insertion of a range that may have
grown, which only the root can refuse. -/
def Expanded (heap : Heap) (kids : Ptr → List Ptr) (root new : Ptr) (after : Heap) : Prop :=
  ∃ start stop, Inserted (ranged heap new start stop) kids root new (none, after) ∨
    after = ranged heap new start stop

theorem expandTurn_returns (kept : Kept heap kids) (loose : Loose heap new) (other : new ≠ root)
    (start stop : U32) :
    Returns (fun fuel => expandTurn root new fuel (ranged heap new start stop))
      (Turned (fun state => ∃ start stop, state = ranged heap new start stop) (fun state =>
          slack (state new))
        (Expanded heap kids root new) (slack (ranged heap new start stop new))) := by
  have looseHere := ranged_loose loose start stop
  have keptHere := kept.withRange loose start stop
  refine Returns.bind (insertResourceConflict_returns keptHere looseHere other) ?_
  rintro ⟨conflict, after⟩ inserted
  cases inserted with
  | placed under fitting placed =>
    exact Returns.pure ⟨start, stop, .inl (.placed under fitting placed)⟩
  | unfit unfit =>
    simp only [if_true]
    exact Returns.pure ⟨start, stop, .inr rfl⟩
  | @overlap parent next under child overlap =>
    simp only
    by_cases isRoot : next = root
    · rw [if_pos isRoot]
      exact Returns.pure ⟨start, stop, .inr rfl⟩
    · rw [if_neg isRoot]
      have different : next ≠ new :=
        ne_of_mem_of_not_mem child (keptHere.not_mem_of_loose looseHere.1 parent)
      refine Returns.pure ⟨?_, expand_slack different overlap.2.1⟩
      obtain ⟨low, high, same, -, -⟩ := expand_eq (ranged heap new start stop) different
      refine ⟨low, high, ?_⟩
      rw [same, ranged, ranged, ranged, Function.update_idem, Function.update_self]

theorem insertResourceExpandToFit_returns (kept : Kept heap kids) (loose : Loose heap new)
    (other : new ≠ root) :
    Returns (insertResourceExpandToFit heap root new) (Expanded heap kids root new) := by
  unfold insertResourceExpandToFit
  have detached : ¬ (heap new).parent.isSome := by simp [loose.1]
  simp only [if_neg detached]
  refine Returns.loop (fun state => ∃ start stop, state = ranged heap new start stop)
    (fun state => slack (state new)) ?_ ⟨(heap new).start, (heap new).stop, ?_⟩
  · rintro _ ⟨start, stop, rfl⟩
    exact expandTurn_returns kept loose other start stop
  · exact (Function.update_eq_self new heap).symm

end RouterKernel.Resources
