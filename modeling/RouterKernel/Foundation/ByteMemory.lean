import RouterKernel.Foundation.Words

/-!
Contract: byte-addressed little-endian memory.

Owns:
- `peek`, reading a word of any width;
- `load`, which faults outside the memory.
-/

namespace RouterKernel.Foundation

abbrev Bytes := List U8

def byteAt (mem : Bytes) (offset : Nat) : U8 := mem.getD offset 0

/-- The word of `width` bytes at an offset. -/
def peek (mem : Bytes) : (width offset : Nat) → Nat
  | 0, _ => 0
  | width + 1, offset => (byteAt mem offset).toNat + 256 * peek mem width (offset + 1)

def load (width : Nat) (mem : Bytes) (offset : Nat) : Except Fault Nat :=
  if offset + width ≤ mem.length then .ok (peek mem width offset) else .error (.outOfBounds offset)

variable {mem : Bytes} {width offset : Nat}

theorem load_ok (inside : offset + width ≤ mem.length) :
    load width mem offset = .ok (peek mem width offset) := if_pos inside

end RouterKernel.Foundation
