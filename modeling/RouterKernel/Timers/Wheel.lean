import RouterKernel.Foundation.Words

/-!
Contract: the timer wheel of `kernel/timer.c`.

Owns:
- one `struct tvec_base` with its five arrays of lists;
- `internal_add_timer`, `detach_timer` and `cascade`;
- one turn of the loop of `__run_timers`, split where the lock is dropped;
- the events that can follow one another on a base.

Does not own: when `jiffies` advances, or what a callback does besides adding and
detaching timers.
-/

namespace RouterKernel.Timers

open RouterKernel.Foundation

/-- A pending `struct timer_list`: which object it is, and its `expires`. -/
structure Timer where
  name : Nat
  expires : U32
deriving DecidableEq, Repr

def TVN_BITS : Nat := 6
def TVR_BITS : Nat := 8
def TVN_MASK : U32 := 63
def TVR_MASK : U32 := 255

/-- A list head of the base: an entry of `tv1`, or one of the array that `INDEX(n)`
indexes (`tv2` for 0, …, `tv5` for 3). -/
inductive Bucket where
  | tv1 (slot : Nat)
  | tv (n slot : Nat)
deriving DecidableEq, Repr

structure Base where
  timerJiffies : U32
  lists : Bucket → List Timer

/-- `(value >> (TVR_BITS + n * TVN_BITS)) & TVN_MASK`. -/
def slotAt (value : U32) (n : Nat) : Nat :=
  ((value >>> (TVR_BITS + n * TVN_BITS)) &&& TVN_MASK).toNat

/-- The list head `internal_add_timer` chooses. -/
def bucketFor (timerJiffies expires : U32) : Bucket :=
  let idx := expires - timerJiffies
  if idx.toNat < 2 ^ TVR_BITS then .tv1 (expires &&& TVR_MASK).toNat
  else if idx.toNat < 2 ^ (TVR_BITS + TVN_BITS) then .tv 0 (slotAt expires 0)
  else if idx.toNat < 2 ^ (TVR_BITS + 2 * TVN_BITS) then .tv 1 (slotAt expires 1)
  else if idx.toNat < 2 ^ (TVR_BITS + 3 * TVN_BITS) then .tv 2 (slotAt expires 2)
  else if idx.toInt < 0 then .tv1 (timerJiffies &&& TVR_MASK).toNat
  else
    -- the clamp of the source, which a 32 bit `idx` never meets
    let expires := if 0xffffffff < idx.toNat then 0xffffffff + timerJiffies else expires
    .tv 3 (slotAt expires 3)

def Base.set (base : Base) (bucket : Bucket) (timers : List Timer) : Base :=
  { base with lists := Function.update base.lists bucket timers }

def internalAddTimer (base : Base) (timer : Timer) : Base :=
  let bucket := bucketFor base.timerJiffies timer.expires
  base.set bucket (base.lists bucket ++ [timer])

/-- `cascade`: the list is taken off the array and each of its timers is added again. -/
def cascade (base : Base) (n index : Nat) : Base :=
  (base.lists (.tv n index)).foldl internalAddTimer (base.set (.tv n index) [])

/-- `INDEX(N)`. -/
def Base.index (base : Base) (n : Nat) : Nat :=
  slotAt base.timerJiffies n

/-- The calls of `cascade` behind `!index`, from the array of `INDEX(n)` on: each later
one is made only when the index of the one before is zero. -/
def cascadeFrom (base : Base) : Nat → Nat → Base
  | _, 0 => base
  | n, more + 1 =>
    let index := base.index n
    let next := cascade base n index
    if index = 0 then cascadeFrom next (n + 1) more else next

structure State where
  base : Base
  workList : List Timer

/-- `base->timer_jiffies & TVR_MASK`. -/
def Base.rootIndex (base : Base) : Nat :=
  (base.timerJiffies &&& TVR_MASK).toNat

def cascadeAll (base : Base) : Base :=
  if base.rootIndex = 0 then cascadeFrom base 0 4 else base

def advance (base : Base) : Base :=
  { base with timerJiffies := base.timerJiffies + 1 }

/-- The part of a turn of the loop of `__run_timers` before the callbacks: cascade,
advance, take the list of this tick. -/
def iteration (base : Base) : State :=
  let cascaded := cascadeAll base
  { base := (advance cascaded).set (.tv1 base.rootIndex) []
    workList := cascaded.lists (.tv1 base.rootIndex) }

/-- `detach_timer`, on whichever list the timer is. -/
def detachTimer (state : State) (name : Nat) : State :=
  { base := { state.base with
      lists := fun bucket => (state.base.lists bucket).filter (·.name ≠ name) }
    workList := state.workList.filter (·.name ≠ name) }

/-- What happens to a base under its lock.  `iterate` is a new turn of the loop of
`__run_timers` with the value of `jiffies` it reads; `expire` is the detachment of the
first timer of the work list, whose callback then runs without the lock, so that any
events may follow before the next one. -/
inductive Event where
  | add (timer : Timer)
  | detach (name : Nat)
  | iterate (jiffies : U32)
  | expire
deriving DecidableEq, Repr

/-- `timer_pending`, over every list. -/
def State.Pending (state : State) (name : Nat) : Prop :=
  (∃ bucket, ∃ timer ∈ state.base.lists bucket, timer.name = name) ∨ ∃ timer ∈ state.workList,
    timer.name = name

/-- One event.  A timer is only added while it is on no list; a turn of the loop starts
with an empty work list and with `time_after_eq(jiffies, base->timer_jiffies)`. -/
inductive Step : State → Event → State → Prop
  | add {state : State} {timer : Timer} (detached : ¬ state.Pending timer.name) :
      Step state (.add timer) { state with base := internalAddTimer state.base timer }
  | detach {state : State} {name : Nat} : Step state (.detach name) (detachTimer state name)
  | iterate {state : State} {jiffies : U32} (drained : state.workList = [])
      (reached : 0 ≤ (jiffies - state.base.timerJiffies).toInt) :
      Step state (.iterate jiffies) (iteration state.base)
  | expire {state : State} {timer : Timer} {rest : List Timer}
      (first : state.workList = timer :: rest) :
      Step state .expire (detachTimer state timer.name)

inductive Run : State → List Event → State → Prop
  | nil {state : State} : Run state [] state
  | snoc {state middle final : State} {event : Event} {events : List Event}
      (before : Run state events middle) (last : Step middle event final) :
      Run state (events ++ [event]) final

def iterations (events : List Event) : Nat :=
  events.countP fun event => match event with
    | .iterate _ => true
    | _ => false

end RouterKernel.Timers
