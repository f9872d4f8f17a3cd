import RouterKernel.Foundation.Fueled
import RouterKernel.Foundation.Words

/-!
Contract: the trees of lib/idr.c, which map small integers to pointers, on a 32-bit kernel.

Owns:
- `Idr`, the layers of a tree and the pointers in its leaves;
- `idr_find`, `idr_replace`, `idr_get_new_above` with `sub_alloc` and the growth of the tree, and
  `idr_remove` with `sub_remove`.

Does not own: the invariant of the trees (`Ids.Books`); `idr_for_each` and `idr_get_next`
(`Ids.Walk`).

No layer has two parents, so that a layer is known by its place: its distance `l` from the leaves
and its number `q` among the layers there.  The slot `ary[m]` of the layer `(l + 1, q)` points to
the layer `(l, 32 * q + m)` if there is one and is `NULL` if there is none.  A place does not
change when the tree grows or shrinks at its top.
-/

namespace RouterKernel.Ids

open RouterKernel.Foundation

/-- The constant `MAX_LEVEL`: seven digits of five bits for the 31 bits of an id. -/
def MAX_LEVEL : Nat := 7

def IDR_FREE_MAX : Nat := MAX_LEVEL + MAX_LEVEL

def IDR_FULL : U32 := BitVec.allOnes 32

/-- The value of an expression of type `int`. -/
def int (value : Int) : Int := value.bmod (2 ^ 32)

/-- `struct idr_layer`, but for `ary` and `layer`, which are its place. -/
structure Layer where
  bitmap : U32
  count : Int
  deriving DecidableEq, Repr

/-- `struct idr`: `top` is the field `layer` of the layer at the top, `slot` has the pointers in
the leaves, and `idFreeCnt` is the length of the list of free layers, which are zeroed. -/
structure Idr (α : Type) where
  top : Option Nat
  layers : Nat
  layerAt : Nat → Nat → Option Layer
  slot : Nat → Option α
  idFreeCnt : Nat

variable {α : Type}

def Idr.init : Idr α := ⟨none, 0, fun _ _ => none, fun _ => none, 0⟩

/-- `(id >> (IDR_BITS * l)) & IDR_MASK`. -/
def digit (id : Int) (l : Nat) : Nat := (id / 32 ^ l % 32).toNat

def setBit (bitmap : U32) (m : Nat) : U32 := bitmap ||| 1#32 <<< m

def clearBit (bitmap : U32) (m : Nat) : U32 := bitmap &&& ~~~(1#32 <<< m)

/-- `find_next_bit` in the complement, from `n` on. -/
def nextZero (bitmap : U32) (n : Nat) : Option Nat :=
  (List.range 32).find? fun m => n ≤ m && !bitmap.getLsbD m

namespace Idr

def setLayer (s : Idr α) (l q : Nat) (layer : Option Layer) : Idr α :=
  ⟨s.top, s.layers, fun l' q' => if l' = l ∧ q' = q then layer else s.layerAt l' q', s.slot,
    s.idFreeCnt⟩

def setSlot (s : Idr α) (id : Nat) (ptr : Option α) : Idr α :=
  ⟨s.top, s.layers, s.layerAt, Function.update s.slot id ptr, s.idFreeCnt⟩

def setTop (s : Idr α) (top : Option Nat) (layers : Nat) : Idr α :=
  ⟨top, layers, s.layerAt, s.slot, s.idFreeCnt⟩

def setFree (s : Idr α) (idFreeCnt : Nat) : Idr α := ⟨s.top, s.layers, s.layerAt, s.slot, idFreeCnt⟩

end Idr

/-- `get_from_free_list`, for a layer at a place. -/
def getFromFreeList (s : Idr α) (l q : Nat) : Option (Idr α) :=
  if s.idFreeCnt = 0 then none else some ((s.setLayer l q (some ⟨0, 0⟩)).setFree (s.idFreeCnt - 1))

/-- `idr_pre_get`, where `given` layers can be allocated. -/
def idrPreGet (s : Idr α) (given : Nat) : Idr α :=
  s.setFree (max s.idFreeCnt (min IDR_FREE_MAX (s.idFreeCnt + given)))

/-! ## Looking up -/

/-- The loop of `idr_find` from the layer `(l, q)` on. -/
def findFrom (s : Idr α) (id : Nat) : Nat → Nat → Option α
  | 0, q => match s.layerAt 0 q with
      | none => none
      | some _ => s.slot (32 * q + id % 32)
  | l + 1, q => match s.layerAt (l + 1) q with
      | none => none
      | some _ => findFrom s id l (32 * q + digit id (l + 1))

/-- `id & MAX_ID_MASK`. -/
def maskId (id : Int) : Nat := (id % 2 ^ 31).toNat

def idrFind (s : Idr α) (id : Int) : Option α :=
  match s.top with
  | none => none
  | some layer => if maskId id ≥ 32 ^ (layer + 1) then none else findFrom s (maskId id) layer 0

/-- What `idr_replace` returns. -/
inductive Replaced (α : Type)
  | old (ptr : Option α)
  | einval
  | enoent
  deriving DecidableEq, Repr

/-- The loop of `idr_replace` from the layer `(l, q)` on. -/
def replaceFrom (s : Idr α) (ptr : Option α) (id : Nat) : Nat → Nat → Replaced α × Idr α
  | 0, q => match s.layerAt 0 q with
      | none => (.enoent, s)
      | some leaf =>
        if leaf.bitmap.getLsbD (id % 32)
          then (.old (s.slot (32 * q + id % 32)), s.setSlot (32 * q + id % 32) ptr)
        else (.enoent, s)
  | l + 1, q => match s.layerAt (l + 1) q with
      | none => (.enoent, s)
      | some _ => replaceFrom s ptr id l (32 * q + digit id (l + 1))

def idrReplace (s : Idr α) (ptr : Option α) (id : Int) : Replaced α × Idr α :=
  match s.top with
  | none => (.einval, s)
  | some layer => if maskId id ≥ 32 ^ (layer + 1) then (.einval, s)
    else replaceFrom s ptr (maskId id) layer 0

/-! ## `sub_alloc` -/

/-- The variables of `sub_alloc`: `p` is at `(l, p)`, and `pa` has the numbers of the layers
above. -/
structure Alloc (α : Type) where
  idr : Idr α
  id : Int
  l : Nat
  p : Nat
  pa : Nat → Option Nat

/-- What `sub_alloc` returns. -/
inductive Slotted (α : Type)
  | found (idr : Idr α) (id : Int) (pa : Nat → Option Nat)
  | needToGrow (idr : Idr α) (id : Int)
  | noMoreSpace (idr : Idr α)
  | noLayer (idr : Idr α)

def restart (s : Idr α) (id : Int) (pa : Nat → Option Nat) : Alloc α :=
  ⟨s, id, s.layers - 1, 0, Function.update pa s.layers none⟩

/-- Go back to the layer above, or to the top. -/
def climb (a : Alloc α) : Except Fault (Outcome (Alloc α) (Slotted α)) :=
  let id := int (a.id - a.id % 32 ^ (a.l + 1) + 32 ^ (a.l + 1))
  if id ≥ 32 ^ a.idr.layers then .ok (.halted (.needToGrow a.idr id))
  else match a.pa (a.l + 1) with
    | none => .error .bug
    | some p =>
      if a.id / 32 ^ (a.l + 2) = id / 32 ^ (a.l + 2)
        then .ok (.running ⟨a.idr, id, a.l + 1, p, a.pa⟩)
      else .ok (.running (restart a.idr id a.pa))

/-- The layer below at slot `m` of `p`, created if it is missing. -/
def descend (a : Alloc α) (layer : Layer) (id : Int) (m : Nat) : Outcome (Alloc α) (Slotted α) :=
  match a.l with
  | 0 => .halted (.found a.idr id (Function.update a.pa 0 (some a.p)))
  | l + 1 =>
    match a.idr.layerAt l (32 * a.p + m) with
    | some _ => .running ⟨a.idr, id, l, 32 * a.p + m, Function.update a.pa (l + 1) (some a.p)⟩
    | none =>
      match getFromFreeList a.idr l (32 * a.p + m) with
      | none => .halted (.noLayer a.idr)
      | some s =>
        .running ⟨s.setLayer (l + 1) a.p (some ⟨layer.bitmap, layer.count + 1⟩), id, l,
            32 * a.p + m,
          Function.update a.pa (l + 1) (some a.p)⟩

/-- One turn of the loop in `sub_alloc`. -/
def subAllocTurn (a : Alloc α) : Except Fault (Outcome (Alloc α) (Slotted α)) :=
  match a.idr.layerAt a.l a.p with
  | none => .error (.wildPointer 0)
  | some layer =>
    let n := digit a.id a.l
    match nextZero layer.bitmap n with
    | none => climb a
    | some m =>
      let id := if m ≠ n then (a.id / 32 ^ a.l - n + m) * 32 ^ a.l else a.id
      if id ≥ 2 ^ 31 ∨ id < 0 then .ok (.halted (.noMoreSpace a.idr))
        else .ok (descend a layer id m)

def subAlloc (s : Idr α) (id : Int) (fuel : Nat) : Attempt Fault (Slotted α) :=
  loop (fun _ a => (liftM (subAllocTurn a) : Attempt Fault (Outcome (Alloc α) (Slotted α)))) fuel
    (restart s id fun _ => none)

/-! ## `idr_get_new_above` -/

/-- Add layers at the top until they cover the id; `p` is the layer `(layers - 1, 0)`.  An empty
top moves up.  `none` is a failed allocation, after which the new layers are given back. -/
def grow (id : Int) : (turns layers : Nat) → Idr α → Option (Idr α)
  | 0, layers, s => some (s.setTop (some (layers - 1)) layers)
  | turns + 1, layers, s =>
    if layers < MAX_LEVEL - 1 ∧ id ≥ 32 ^ layers then
      match s.layerAt (layers - 1) 0 with
      | none => none
      | some p =>
        if p.count = 0 then
          grow id turns (layers + 1) ((s.setLayer (layers - 1) 0 none).setLayer layers 0 (some p))
        else
          match getFromFreeList s layers 0 with
          | none => none
          | some s => grow id turns (layers + 1)
              (s.setLayer layers 0 (some ⟨if p.bitmap = IDR_FULL then setBit 0 0 else 0, 1⟩))
    else some (s.setTop (some (layers - 1)) layers)

/-- The part of `idr_get_empty_slot` from `build_up` to `sub_alloc`. -/
def buildUp (s : Idr α) (id : Int) : Option (Idr α) :=
  match s.top with
  | none =>
    match getFromFreeList s 0 0 with
    | none => none
    | some s => grow id MAX_LEVEL 1 s
  | some _ => grow id MAX_LEVEL s.layers s

/-- `idr_get_empty_slot`, from `build_up` to the next `goto build_up` or the end. -/
def emptySlotTurn (fuel : Nat) (s : Idr α × Int) :
    Attempt Fault (Outcome (Idr α × Int) (Slotted α)) :=
  match buildUp s.1 s.2 with
  | none => pure (.halted (.noLayer s.1))
  | some grown => do
    let slotted ← subAlloc grown s.2 fuel
    match slotted with
    | .needToGrow s id => return .running (s, id)
    | slotted => return .halted slotted

def idrGetEmptySlot (s : Idr α) (startingId : Int) (fuel : Nat) : Attempt Fault (Slotted α) :=
  loop emptySlotTurn fuel (s, startingId)

/-- `idr_mark_full` from the layer `pa[l]` on. -/
def markFull (pa : Nat → Option Nat) (id : Int) : (turns l : Nat) → Idr α → Idr α
  | 0, _, s => s
  | turns + 1, l, s =>
    match pa l with
    | none => s
    | some q =>
      match s.layerAt l q with
      | none => s
      | some p =>
        let marked := setBit p.bitmap (digit id l)
        let s := s.setLayer l q (some ⟨marked, p.count⟩)
        if marked = IDR_FULL then markFull pa id turns (l + 1) s else s

def install (s : Idr α) (pa : Nat → Option Nat) (id : Int) (ptr : Option α) : Idr α :=
  match pa 0 with
  | none => s
  | some q =>
    match s.layerAt 0 q with
    | none => s
    | some leaf =>
      markFull pa id MAX_LEVEL 0
        ((s.setSlot (32 * q + digit id 0) ptr).setLayer 0 q (some ⟨leaf.bitmap, leaf.count + 1⟩))

/-- What `idr_get_new_above` returns. -/
inductive Got
  | got (id : Int)
  | eagain
  | enospc
  deriving DecidableEq, Repr

def idrGetNewAbove (s : Idr α) (ptr : Option α) (startingId : Int) (fuel : Nat) :
    Attempt Fault (Got × Idr α) := do
  let slotted ← idrGetEmptySlot s startingId fuel
  match slotted with
  | .found s id pa => return (.got id, install s pa id ptr)
  | .noLayer s => return (.eagain, s)
  | .noMoreSpace s => return (.enospc, s)
  | .needToGrow s _ => return (.enospc, s)

/-! ## `idr_remove` -/

/-- Take one off the count of each layer of a path, from the leaf up, while they get empty. -/
def dropCounts : List (Nat × Nat) → Idr α → Idr α
  | [], s => s.setTop none 0
  | (l, q) :: up, s =>
    match s.layerAt l q with
    | none => s
    | some p =>
      if p.count - 1 = 0 then dropCounts up (s.setLayer l q none)
      else s.setLayer l q (some ⟨p.bitmap, p.count - 1⟩)

/-- `sub_remove` from the layer `(l, q)` on, with the path down to it. -/
def subRemove (id : Nat) : (l q : Nat) → List (Nat × Nat) → Idr α → Idr α
  | 0, q, path, s =>
    match s.layerAt 0 q with
    | none => s
    | some leaf =>
      if leaf.bitmap.getLsbD (id % 32) then
        dropCounts ((0, q) :: path)
          ((s.setLayer 0 q (some ⟨clearBit leaf.bitmap (id % 32), leaf.count⟩)).setSlot
            (32 * q + id % 32) none)
      else s
  | l + 1, q, path, s =>
    match s.layerAt (l + 1) q with
    | none => s
    | some p =>
      subRemove id l (32 * q + digit id (l + 1)) ((l + 1, q) :: path)
        (s.setLayer (l + 1) q (some ⟨clearBit p.bitmap (digit id (l + 1)), p.count⟩))

/-- A top with its first slot only is not needed. -/
def shrink (s : Idr α) : Idr α :=
  match s.top with
  | some (l + 1) =>
    match s.layerAt (l + 1) 0 with
    | some p =>
      if p.count = 1 ∧ s.layers > 1 ∧ (s.layerAt l 0).isSome then
        (s.setLayer (l + 1) 0 none).setTop (some l) (s.layers - 1)
      else s
    | none => s
  | _ => s

def idrRemove (s : Idr α) (id : Int) : Idr α :=
  let removed := match s.top with
    | none => s
    | some _ => subRemove (maskId id) (s.layers - 1) 0 [] s
  let shrunk := shrink removed
  shrunk.setFree (min shrunk.idFreeCnt (IDR_FREE_MAX - 1))

end RouterKernel.Ids
