import Mathlib.Tactic

/-!
Contract: the machine words of the modelled C code and the faults its text can
raise.

Owns:
- the fixed-width word types;
- the faults that the models keep visible instead of giving them a value;
- the C remainder on unsigned words.

Does not own: any data structure or any function of the kernel.
-/

namespace RouterKernel.Foundation

abbrev U8 := BitVec 8
abbrev U16 := BitVec 16
abbrev U32 := BitVec 32
abbrev U64 := BitVec 64

/-- Behaviour that C leaves undefined, and `BUG`.  A model that reaches one of these
stops there, so "the code is safe" is the statement that no run returns a fault. -/
inductive Fault where
  | divideByZero
  | outOfBounds (index : Nat)
  | useAfterFree (address : Nat)
  | wildPointer (address : Nat)
  | bug
deriving DecidableEq, Repr

/-- The C operator `%` on unsigned words. -/
def umod {w : Nat} (dividend divisor : BitVec w) : Except Fault (BitVec w) :=
  if divisor = 0 then .error .divideByZero else .ok (dividend % divisor)

theorem umod_ok {w : Nat} {dividend divisor : BitVec w} (nonzero : divisor ≠ 0) :
    umod dividend divisor = .ok (dividend % divisor) := by
  rw [umod, if_neg nonzero]

/-- The C operator `/` on unsigned words. -/
def udiv {w : Nat} (dividend divisor : BitVec w) : Except Fault (BitVec w) :=
  if divisor = 0 then .error .divideByZero else .ok (dividend / divisor)

theorem udiv_ok {w : Nat} {dividend divisor : BitVec w} (nonzero : divisor ≠ 0) :
    udiv dividend divisor = .ok (dividend / divisor) := by
  rw [udiv, if_neg nonzero]

end RouterKernel.Foundation
