import RouterKernel.Foundation.Numerals
import RouterKernel.Strings.Ctype

/-!
Contract: what the modelled code asks of `lib/vsprintf.c`.

Owns:
- numbers as `%d` and `%0*lx` print them;
- the text that one call of `scnprintf` leaves in a buffer of a given size.

Does not own: how `vsnprintf` decodes its format or computes the digits.
-/

namespace RouterKernel.Strings

open RouterKernel.Foundation

def digitChar (digit : Nat) : U8 :=
  if digit < 10 then BitVec.ofNat 8 (48 + digit) else BitVec.ofNat 8 (87 + digit)

/-- A number in a base, padded with zeros to a width, and longer if it needs more. -/
def printNumber (base width value : Nat) : List U8 :=
  (padded base (max width (Nat.log base value + 1)) value).map digitChar

/-- `%d` of a number that is not negative. -/
def decimal (value : Nat) : List U8 := printNumber 10 0 value

/-- What `scnprintf` stores of a text: nothing when the size is negative as an `int`,
else as much as fits before the final zero. -/
def scnprintf (size : U32) (text : List U8) : List U8 :=
  if size.toInt < 0 then [] else text.take (size.toNat - 1)

theorem scnprintf_whole {size : U32} {text : List U8} (positive : 0 ≤ size.toInt)
    (fits : text.length < size.toNat) : scnprintf size text = text := by
  rw [scnprintf, if_neg (not_lt.mpr positive), List.take_of_length_le (by omega)]

theorem scnprintf_negative {size : U32} {text : List U8} (negative : size.toInt < 0) :
    scnprintf size text = [] := by
  rw [scnprintf, if_pos negative]

/-- One `len += scnprintf(buf + len, buflen - len, …)` behind the text so far. -/
def append (buflen : U32) (out text : List U8) : List U8 :=
  out ++ scnprintf (buflen - BitVec.ofNat 32 out.length) text

theorem append_whole {buflen : U32} {out text : List U8} (positive : 0 ≤ buflen.toInt)
    (fits : (out ++ text).length < buflen.toNat) : append buflen out text = out ++ text := by
  rw [List.length_append] at fits
  have small : buflen.toNat < 2 ^ 31 := by
    rw [BitVec.toInt_eq_toNat_cond] at positive
    split at positive <;> omega
  have size : (buflen - BitVec.ofNat 32 out.length).toNat = buflen.toNat - out.length := by
    rw [BitVec.toNat_sub, BitVec.toNat_ofNat]
    omega
  rw [append, scnprintf_whole]
  · rw [BitVec.toInt_eq_toNat_cond, size]
    split <;> omega
  · rw [size]
    omega

end RouterKernel.Strings
