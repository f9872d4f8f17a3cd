import RouterKernel.Foundation.Words

/-!
Contract: the character classes of `lib/ctype.c`.

Owns: the classes that the modelled parsers and searches ask for, as the table
`_ctype` gives them, and the conversions built on them.
-/

namespace RouterKernel.Strings

open RouterKernel.Foundation

/-- The entries of `_ctype` with `_S`. -/
def isspace (c : U8) : Bool :=
  (9 ≤ c ∧ c ≤ 13) ∨ c = 32 ∨ c = 160

/-- The entries of `_ctype` with `_D`. -/
def isdigit (c : U8) : Bool :=
  48 ≤ c ∧ c ≤ 57

/-- The entries of `_ctype` with `_L`. -/
def islower (c : U8) : Bool :=
  (97 ≤ c ∧ c ≤ 122) ∨ (223 ≤ c ∧ c ≤ 246) ∨ 248 ≤ c

/-- The entries of `_ctype` with `_U`. -/
def isupper (c : U8) : Bool :=
  (65 ≤ c ∧ c ≤ 90) ∨ (192 ≤ c ∧ c ≤ 214) ∨ (216 ≤ c ∧ c ≤ 222)

def toupper (c : U8) : U8 :=
  if islower c then c - 32 else c

def tolower (c : U8) : U8 :=
  if isupper c then c + 32 else c

end RouterKernel.Strings
