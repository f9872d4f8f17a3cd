import RouterKernel.Foundation.Fueled
import RouterKernel.Foundation.Words

/-!
Contract: the resource trees of `kernel/resource.c`.

Owns:
- the resources with their parent, sibling and child pointers;
- `__request_resource`, `__release_resource` and `__insert_resource`, write by write;
- `request_resource`, `insert_resource`, `insert_resource_expand_to_fit` and
  `release_resource`.

Does not own: names, flags, and the lock.

A null pointer that is followed is a fault.
-/

namespace RouterKernel.Resources

open RouterKernel.Foundation

abbrev Ptr := Nat

/-- `struct resource`; `stop` is its `end`. -/
structure Resource where
  start : U32
  stop : U32
  parent : Option Ptr
  sibling : Option Ptr
  child : Option Ptr
deriving DecidableEq, Repr

abbrev Heap := Ptr → Resource

namespace Heap

def setStart (heap : Heap) (r : Ptr) (start : U32) : Heap :=
  Function.update heap r { heap r with start }

def setStop (heap : Heap) (r : Ptr) (stop : U32) : Heap :=
  Function.update heap r { heap r with stop }

def setParent (heap : Heap) (r : Ptr) (parent : Option Ptr) : Heap :=
  Function.update heap r { heap r with parent }

def setSibling (heap : Heap) (r : Ptr) (sibling : Option Ptr) : Heap :=
  Function.update heap r { heap r with sibling }

def setChild (heap : Heap) (r : Ptr) (child : Option Ptr) : Heap :=
  Function.update heap r { heap r with child }

end Heap

/-- A pointer to a pointer: `&r->child` or `&r->sibling`. -/
inductive Link where
  | child (r : Ptr)
  | sibling (r : Ptr)
deriving DecidableEq, Repr

def Heap.read (heap : Heap) : Link → Option Ptr
  | .child r => (heap r).child
  | .sibling r => (heap r).sibling

def Heap.write (heap : Heap) : Link → Option Ptr → Heap
  | .child r, value => heap.setChild r value
  | .sibling r, value => heap.setSibling r value

inductive Errno where
  | EBUSY
  | EINVAL
deriving DecidableEq, Repr

/-! ## Requests -/

/-- The assignments of `__request_resource`, with `p` the place of the new resource. -/
def linkIn (heap : Heap) (root new : Ptr) (p : Link) : Heap :=
  let heap := heap.setSibling new (heap.read p)
  let heap := heap.write p (some new)
  heap.setParent new (some root)

def requestTurn (heap : Heap) (root new : Ptr) (p : Link) :
    Except Fault (Outcome Link (Option Ptr × Heap)) :=
  match heap.read p with
  | none => .ok (.halted (none, linkIn heap root new p))
  | some tmp =>
    if (heap tmp).start > (heap new).stop then .ok (.halted (none, linkIn heap root new p))
    else if (heap tmp).stop < (heap new).start then .ok (.running (.sibling tmp))
    else .ok (.halted (some tmp, heap))

/-- `__request_resource`: the conflicting resource, if any. -/
def requestResourceConflict (heap : Heap) (root new : Ptr) (fuel : Nat) :
    Attempt Fault (Option Ptr × Heap) :=
  if (heap new).stop < (heap new).start then pure (some root, heap)
  else if (heap new).start < (heap root).start then pure (some root, heap)
  else if (heap new).stop > (heap root).stop then pure (some root, heap)
  else loop (fun _ p => (liftM (requestTurn heap root new p) : Attempt Fault _)) fuel (.child root)

def requestResource (heap : Heap) (root new : Ptr) (fuel : Nat) :
    Attempt Fault (Except Errno Unit × Heap) := do
  let (conflict, heap) ← requestResourceConflict heap root new fuel
  pure (if conflict.isSome then .error .EBUSY else .ok (), heap)

/-! ## Releases -/

def releaseTurn (heap : Heap) (old : Ptr) (p : Link) :
    Except Fault (Outcome Link (Except Errno Unit × Heap)) :=
  match heap.read p with
  | none => .ok (.halted (.error .EINVAL, heap))
  | some tmp =>
    if tmp = old then
      .ok (.halted (.ok (), (heap.write p (heap tmp).sibling).setParent old none))
    else .ok (.running (.sibling tmp))

def releaseResource (heap : Heap) (old : Ptr) (fuel : Nat) :
    Attempt Fault (Except Errno Unit × Heap) :=
  match (heap old).parent with
  | none => throw (.wildPointer 0)
  | some parent => loop (fun _ p => (liftM (releaseTurn heap old p) : Attempt Fault _)) fuel
    (.child parent)

/-! ## Insertions -/

/-- How the first loop of `__insert_resource` ends: with a result, or with a resource that
the new one does not go below. -/
inductive Descent where
  | done (conflict : Option Ptr) (heap : Heap)
  | meets (heap : Heap) (parent first : Ptr)

def descendTurn (new : Ptr) (fuel : Nat) (state : Heap × Ptr) :
    Attempt Fault (Outcome (Heap × Ptr) Descent) := do
  let (heap, parent) := state
  let (first, heap) ← requestResourceConflict heap parent new fuel
  match first with
  | none => pure (.halted (.done none heap))
  | some first =>
    if first = parent then pure (.halted (.done (some first) heap))
    else if first = new then pure (.halted (.done (some first) heap))
    else if (heap first).start > (heap new).start ∨ (heap first).stop < (heap new).stop then
      pure (.halted (.meets heap parent first))
    else if (heap first).start = (heap new).start ∧ (heap first).stop = (heap new).stop then
      pure (.halted (.meets heap parent first))
    else pure (.running (heap, first))

/-- A turn of the loop that looks for a partial overlap (`.error`) or the last resource
that goes below the new one (`.ok`). -/
def coverTurn (heap : Heap) (new next : Ptr) : Except Fault (Outcome Ptr (Except Ptr Ptr)) :=
  if (heap next).start < (heap new).start ∨ (heap next).stop > (heap new).stop then
    .ok (.halted (.error next))
  else
    match (heap next).sibling with
    | none => .ok (.halted (.ok next))
    | some sibling =>
      if (heap sibling).start > (heap new).stop then .ok (.halted (.ok next))
      else .ok (.running sibling)

/-- `for (next = first; next; next = next->sibling) next->parent = new`. -/
def adoptTurn (new : Ptr) (state : Heap × Option Ptr) :
    Except Fault (Outcome (Heap × Option Ptr) Heap) :=
  match state with
  | (heap, none) => .ok (.halted heap)
  | (heap, some next) =>
    let heap := heap.setParent next (some new)
    .ok (.running (heap, (heap next).sibling))

/-- `while (next->sibling != first) next = next->sibling`. -/
def precedeTurn (heap : Heap) (first : Ptr) (next : Option Ptr) :
    Except Fault (Outcome (Option Ptr) Ptr) :=
  match next with
  | none => .error (.wildPointer 0)
  | some next =>
    if (heap next).sibling = some first then .ok (.halted next)
    else .ok (.running (heap next).sibling)

/-- The new resource takes the place of the resources from `first` to `next`, which become
its children. -/
def adopt (heap : Heap) (parent new first next : Ptr) (fuel : Nat) : Attempt Fault Heap := do
  let heap := heap.setParent new (some parent)
  let heap := heap.setSibling new (heap next).sibling
  let heap := heap.setChild new (some first)
  let heap := heap.setSibling next none
  let heap ← loop (fun _ state => (liftM (adoptTurn new state) : Attempt Fault _)) fuel (heap,
    some first)
  if (heap parent).child = some first then pure (heap.setChild parent (some new))
  else do
    let next ← loop (fun _ next => (liftM (precedeTurn heap first next) : Attempt Fault _)) fuel
      (heap parent).child
    pure (heap.setSibling next (some new))

/-- `__insert_resource`: the conflicting resource, if any. -/
def insertResourceConflict (heap : Heap) (root new : Ptr) (fuel : Nat) :
    Attempt Fault (Option Ptr × Heap) := do
  match ← loop (descendTurn new) fuel (heap, root) with
  | .done conflict heap => pure (conflict, heap)
  | .meets heap parent first =>
    match ← loop (fun _ next => (liftM (coverTurn heap new next) : Attempt Fault _)) fuel first with
    | .error next => pure (some next, heap)
    | .ok next => do
      let heap ← adopt heap parent new first next fuel
      pure (none, heap)

def insertResource (heap : Heap) (root new : Ptr) (fuel : Nat) :
    Attempt Fault (Except Errno Unit × Heap) := do
  let (conflict, heap) ← insertResourceConflict heap root new fuel
  pure (if conflict.isSome then .error .EBUSY else .ok (), heap)

/-- The new resource made to cover the one it conflicts with. -/
def expand (heap : Heap) (new conflict : Ptr) : Heap :=
  let heap := if (heap conflict).start < (heap new).start then
      heap.setStart new (heap conflict).start else heap
  if (heap conflict).stop > (heap new).stop then heap.setStop new (heap conflict).stop else heap

def expandTurn (root new : Ptr) (fuel : Nat) (heap : Heap) : Attempt Fault (Outcome Heap Heap) := do
  let (conflict, heap) ← insertResourceConflict heap root new fuel
  match conflict with
  | none => pure (.halted heap)
  | some conflict =>
    if conflict = root then pure (.halted heap)
    else pure (.running (expand heap new conflict))

def insertResourceExpandToFit (heap : Heap) (root new : Ptr) (fuel : Nat) : Attempt Fault Heap :=
  if (heap new).parent.isSome then pure heap
  else loop (expandTurn root new) fuel heap

end RouterKernel.Resources
