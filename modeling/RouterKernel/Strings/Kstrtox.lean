import Mathlib.Data.Nat.Bitwise
import RouterKernel.Foundation.Numerals
import RouterKernel.Strings.Ctype

/-!
Contract: the integer parsers of lib/kstrtox.c.

Owns:
- `_parse_integer_fixup_radix`, `_parse_integer` and `_kstrtoull`;
- the parsers for each integer type, and their `_from_user` forms;
- which signed numbers are accepted, and when the forms agree.

A text is the list of its characters; behind them a zero is read.  `*res` is written only
together with the return value 0, so a parser is a value or an error.
-/

namespace RouterKernel.Strings.Kstrtox

open RouterKernel.Foundation

inductive Errno where
  | EINVAL | ERANGE | EFAULT
deriving DecidableEq, Repr

/-- `_tolower`. -/
def lowered (c : U8) : U8 := c ||| 0x20

/-- The entries of `_ctype` with `_D` or `_X`. -/
def isxdigit (c : U8) : Bool := isdigit c ∨ (65 ≤ c ∧ c ≤ 70) ∨ (97 ≤ c ∧ c ≤ 102)

def parseIntegerFixupRadix (s : List U8) (base : Nat) : List U8 × Nat :=
  let base :=
    if base = 0 then
      if s.getD 0 0 = 48 then
        if lowered (s.getD 1 0) = 120 ∧ isxdigit (s.getD 2 0) then 16 else 8
      else 10
    else base
  if base = 16 ∧ s.getD 0 0 = 48 ∧ lowered (s.getD 1 0) = 120 then (s.drop 2, base) else (s, base)

/-- `val`, unless the loop of `_parse_integer` ends at the character. -/
def digitVal (base : Nat) (c : U8) : Option Nat :=
  let val :=
    if 48 ≤ c ∧ c ≤ 57 then some (c.toNat - 48)
    else if 97 ≤ lowered c ∧ lowered c ≤ 102 then some ((lowered c).toNat - 97 + 10)
    else none
  val.filter (· < base)

/-- The loop of `_parse_integer`. -/
def parseLoop (base : Nat) : List U8 → (res rv : Nat) → (overflow : Bool) → Nat × Nat × Bool
  | [], res, rv, overflow => (res, rv, overflow)
  | c :: s, res, rv, overflow =>
    match digitVal base c with
    | none => (res, rv, overflow)
    | some val =>
      let late : Bool := res >>> 60 ≠ 0 ∧ (2 ^ 64 - 1 - val) / base < res
      parseLoop base s ((res * base + val) % 2 ^ 64) ((rv + 1) % 2 ^ 32) (overflow || late)

def KSTRTOX_OVERFLOW : Nat := 2 ^ 31

def parseInteger (s : List U8) (base : Nat) : Nat × Nat :=
  let (res, rv, overflow) := parseLoop base s 0 0 false
  (res, if overflow then rv ||| KSTRTOX_OVERFLOW else rv)

def _kstrtoull (s : List U8) (base : Nat) : Except Errno Int :=
  let (s, base) := parseIntegerFixupRadix s base
  let (res, rv) := parseInteger s base
  if rv &&& KSTRTOX_OVERFLOW ≠ 0 then .error .ERANGE
  else if rv = 0 then .error .EINVAL
  else
    let s := s.drop rv
    let s := if s.getD 0 0 = 10 then s.drop 1 else s
    if s.getD 0 0 ≠ 0 then .error .EINVAL else .ok res

abbrev Parser := List U8 → Nat → Except Errno Int

def kstrtoull : Parser := fun s base => _kstrtoull (if s.getD 0 0 = 43 then s.drop 1 else s) base

def kstrtoll : Parser := fun s base =>
  if s.getD 0 0 = 45 then do
    let tmp ← _kstrtoull (s.drop 1) base
    if 0 ≤ (-tmp).bmod (2 ^ 64) then .error .ERANGE else .ok ((-tmp).bmod (2 ^ 64))
  else do
    let tmp ← kstrtoull s base
    if tmp.bmod (2 ^ 64) < 0 then .error .ERANGE else .ok tmp

/-- The second check of the narrower parsers, with the conversion to their type. -/
def narrowed (convert : Int → Int) (wide : Parser) : Parser := fun s base => do
  let tmp ← wide s base
  if tmp ≠ convert tmp then .error .ERANGE else .ok (convert tmp)

/-- `_kstrtoul`. -/
def kstrtoul : Parser := narrowed (· % 2 ^ 32) kstrtoull

/-- `_kstrtol`. -/
def kstrtol : Parser := narrowed (Int.bmod · (2 ^ 32)) kstrtoll

def kstrtouint : Parser := narrowed (· % 2 ^ 32) kstrtoull
def kstrtoint : Parser := narrowed (Int.bmod · (2 ^ 32)) kstrtoll
def kstrtou16 : Parser := narrowed (· % 2 ^ 16) kstrtoull
def kstrtos16 : Parser := narrowed (Int.bmod · (2 ^ 16)) kstrtoll
def kstrtou8 : Parser := narrowed (· % 2 ^ 8) kstrtoull
def kstrtos8 : Parser := narrowed (Int.bmod · (2 ^ 8)) kstrtoll

inductive Kind where
  | ull | ll | ul | l | uint | int | u16 | s16 | u8 | s8
deriving DecidableEq, Repr

/-- `sizeof`. -/
def Kind.size : Kind → Nat
  | ull | ll => 8
  | ul | l | uint | int => 4
  | u16 | s16 => 2
  | u8 | s8 => 1

def Kind.parse : Kind → Parser
  | ull => kstrtoull
  | ll => kstrtoll
  | ul => kstrtoul
  | l => kstrtol
  | uint => kstrtouint
  | int => kstrtoint
  | u16 => kstrtou16
  | s16 => kstrtos16
  | u8 => kstrtou8
  | s8 => kstrtos8

/-- `kstrto_from_user`; the user's bytes can be read or not. -/
def kstrtoFromUser (kind : Kind) (readable : Bool) : Parser := fun s base =>
  let count := min s.length (1 + kind.size * 8 + 1 + 1 - 1)
  if readable then kind.parse (s.take count) base else .error .EFAULT

/-! ## The digits -/

def leadingDigits (base : Nat) : List U8 → List Nat
  | [] => []
  | c :: s =>
    match digitVal base c with
    | none => []
    | some val => val :: leadingDigits base s

variable {base radix count value : Nat} {s text body : List U8}

/-- The flag says whether the number is too large, as long as `res` is the number or the flag is
set. -/
theorem parseLoop_eq (low : 2 ≤ base) (high : base ≤ 16) (s : List U8) (start rv : Nat) :
    parseLoop base s (start % 2 ^ 64) (rv % 2 ^ 32) (decide (2 ^ 64 ≤ start)) =
      (evaluate base start (leadingDigits base s) % 2 ^ 64,
          (rv + (leadingDigits base s).length) % 2 ^ 32,
        decide (2 ^ 64 ≤ evaluate base start (leadingDigits base s))) := by
  induction s generalizing start rv with
  | nil => rfl
  | cons c s ih =>
    cases read : digitVal base c with
    | none => simp [parseLoop, leadingDigits, read, evaluate]
    | some val =>
      have small : val < base := by
        have kept := Option.filter_eq_some_iff.mp read
        exact of_decide_eq_true kept.2
      have shifted : 2 * start ≤ start * base := by
        rw [Nat.mul_comm]
        exact Nat.mul_le_mul_left start low
      have flag : (decide (2 ^ 64 ≤ start) ||
          decide ((start % 2 ^ 64) >>> 60 ≠ 0 ∧ (2 ^ 64 - 1 - val) / base < start % 2 ^ 64)) =
          decide (2 ^ 64 ≤ start * base + val) := by
        by_cases late : 2 ^ 64 ≤ start
        · simp only [late, decide_true, Bool.true_or]
          rw [eq_comm, decide_eq_true_iff]
          omega
        · have unchanged : start % 2 ^ 64 = start := Nat.mod_eq_of_lt (by omega)
          have room : (2 ^ 64 - 1 - val) / base < start ↔ 2 ^ 64 ≤ start * base + val := by
            rw [Nat.div_lt_iff_lt_mul (by omega)]
            omega
          have most : start * base ≤ start * 16 := Nat.mul_le_mul_left start high
          rw [unchanged, decide_eq_false late, Bool.false_or, decide_eq_decide, room,
            Nat.shiftRight_eq_div_pow]
          omega
      have next := ih (start * base + val) (rv + 1)
      have product : (start % 2 ^ 64 * base + val) % 2 ^ 64 = (start * base + val) % 2 ^ 64 := by
        rw [Nat.add_mod, Nat.mod_mul_mod, ← Nat.add_mod]
      have counted : (rv % 2 ^ 32 + 1) % 2 ^ 32 = (rv + 1) % 2 ^ 32 := by omega
      have places : rv + 1 + (leadingDigits base s).length =
        rv + ((leadingDigits base s).length + 1) := by omega
      simp only [parseLoop, leadingDigits, read, flag, product, counted, next, places, evaluate,
          List.foldl_cons,
        List.length_cons]
      rfl

/-- A text begins with a digit and is, behind its prefix, `count` digits of the number `value` and
then perhaps a newline. -/
def Reads (base : Nat) (body : List U8) (count value : Nat) : Prop :=
  (digitVal 16 (body.getD 0 0)).isSome = true ∧ ∃ text radix, parseIntegerFixupRadix body base =
      (text, radix) ∧ 2 ≤ radix ∧
    radix ≤ 16 ∧ count = (leadingDigits radix text).length ∧
      value = evaluate radix 0 (leadingDigits radix text) ∧
    0 < count ∧ (text.drop count = [] ∨ text.drop count = [10])

theorem length_leadingDigits_le (s : List U8) : (leadingDigits base s).length ≤ s.length := by
  induction s with
  | nil => exact le_rfl
  | cons c s ih =>
    rw [leadingDigits]
    split
    · exact Nat.zero_le _
    · exact Nat.succ_le_succ ih

theorem flagged_iff (small : count < 2 ^ 32) (late : Prop) [Decidable late] :
    (if late then count ||| KSTRTOX_OVERFLOW else count) &&& KSTRTOX_OVERFLOW ≠ 0 ↔ late ∨
      2 ^ 31 ≤ count := by
  have bit (n : Nat) : n &&& KSTRTOX_OVERFLOW ≠ 0 ↔ n.testBit 31 = true := by
    rw [KSTRTOX_OVERFLOW, Nat.and_two_pow]
    cases n.testBit 31 <;> simp
  have own : count.testBit 31 = true ↔ 2 ^ 31 ≤ count := by
    refine ⟨Nat.ge_two_pow_of_testBit, fun large => ?_⟩
    exact Nat.testBit_of_two_pow_le_and_two_pow_add_one_gt large small
  rw [bit]
  by_cases flag : late
  · rw [if_pos flag, KSTRTOX_OVERFLOW, Nat.testBit_or, Nat.testBit_two_pow_self]
    simp [flag]
  · rw [if_neg flag, own]
    simp [flag]

theorem Reads.outcome (reads : Reads base body count value) (short : body.length < 2 ^ 32) :
    _kstrtoull body base = if 2 ^ 64 ≤ value ∨ 2 ^ 31 ≤ count then .error .ERANGE
      else .ok value := by
  obtain ⟨-, text, radix, fixed, low, high, rfl, rfl, some, ends⟩ := reads
  have shorter : text.length ≤ body.length := by
    have first : text = (parseIntegerFixupRadix body base).1 := by rw [fixed]
    rw [first, parseIntegerFixupRadix]
    split_ifs <;> simp
  have fits : (leadingDigits radix text).length < 2 ^ 32 :=
    ((length_leadingDigits_le text).trans shorter).trans_lt short
  have loop := parseLoop_eq low high text 0 0
  rw [Nat.zero_add, Nat.mod_eq_of_lt fits] at loop
  change parseLoop radix text 0 0 false = _ at loop
  simp only [_kstrtoull, fixed, parseInteger, loop, flagged_iff fits, decide_eq_true_eq]
  by_cases refused : 2 ^ 64 ≤ evaluate radix 0 (leadingDigits radix text) ∨
    2 ^ 31 ≤ (leadingDigits radix text).length
  · rw [if_pos refused, if_pos refused]
  · have whole := not_or.mp refused
    rw [if_neg refused, if_neg refused, if_neg whole.1, Nat.mod_eq_of_lt (not_le.mp whole.1),
      if_neg (by omega)]
    rcases ends with ends | ends <;> simp [ends]

theorem Reads.head_ne (reads : Reads base body count value) :
    body.getD 0 0 ≠ 43 ∧ body.getD 0 0 ≠ 45 := by
  have first := reads.1
  constructor <;> intro same <;> rw [same] at first <;> cases first

/-! ## Signed numbers -/

def Kind.signed (kind : Kind) : Bool := kind ∈ [ll, l, int, s16, s8]

def Kind.Holds (kind : Kind) (v : Int) : Prop :=
  -2 ^ (kind.size * 8 - 1) ≤ v ∧ v < 2 ^ (kind.size * 8 - 1)

instance (kind : Kind) (v : Int) : Decidable (kind.Holds v) := inferInstanceAs (Decidable (_ ∧ _))

inductive Sign where
  | none | plus | minus
deriving DecidableEq, Repr

def Sign.chars : Sign → List U8
  | none => []
  | plus => [43]
  | minus => [45]

def Sign.number (sign : Sign) (value : Nat) : Int := if sign = minus then -value else value

theorem bmod_eq_iff (kind : Kind) (v : Int) : v = v.bmod (2 ^ (kind.size * 8)) ↔ kind.Holds v := by
  cases kind <;> simp only [Kind.size, Kind.Holds, Int.bmod] <;> split_ifs <;> omega

section Signed

variable (reads : Reads base body count value) (short : body.length < 2 ^ 32) (sign : Sign)

include reads short

/-- The most negative number is accepted, and zero with a minus sign is not. -/
theorem kstrtoll_eq :
    kstrtoll (sign.chars ++ body) base =
      if Kind.ll.Holds (sign.number value) ∧ count < 2 ^ 31 ∧ ¬ (sign = .minus ∧ value = 0) then
        .ok (sign.number value)
      else .error .ERANGE := by
  have outcome := reads.outcome short
  obtain ⟨notPlus, notMinus⟩ := reads.head_ne
  have minus : kstrtoll (45 :: body) base = (_kstrtoull body base >>= fun tmp =>
      if 0 ≤ (-tmp).bmod (2 ^ 64) then .error .ERANGE else .ok ((-tmp).bmod (2 ^ 64))) := rfl
  have plus : kstrtoll (43 :: body) base = (_kstrtoull body base >>= fun tmp =>
      if tmp.bmod (2 ^ 64) < 0 then .error .ERANGE else .ok tmp) := rfl
  have none : kstrtoll body base = kstrtoll (43 :: body) base := by
    rw [plus, kstrtoll, if_neg notMinus, kstrtoull, if_neg notPlus]
  have word := bmod_eq_iff .ll (sign.number value)
  by_cases refused : 2 ^ 64 ≤ value ∨ 2 ^ 31 ≤ count
  · have failed :
      ¬ (Kind.ll.Holds (sign.number value) ∧ count < 2 ^ 31 ∧ ¬ (sign = .minus ∧ value = 0)) := by
      rintro ⟨⟨low, high⟩, few, -⟩
      simp only [Sign.number, Kind.size] at low high
      split_ifs at low high <;> omega
    rw [if_pos refused] at outcome
    rw [if_neg failed]
    cases sign <;> simp only [Sign.chars, List.nil_append, List.cons_append, none, plus, minus,
      outcome] <;> rfl
  · rw [if_neg refused] at outcome
    obtain ⟨small, few⟩ := not_or.mp refused
    cases sign <;>
      simp only [Sign.chars, List.nil_append, List.cons_append, none, plus, minus, outcome, bind,
          Except.bind,
        Kind.Holds, Kind.size, Sign.number, Int.bmod, reduceCtorEq, if_true, if_false, false_and,
          true_and,
        not_false_iff, and_true] <;>
      split_ifs <;> first | rfl | omega | (congr 1; omega)

theorem Kind.parse_eq {kind : Kind} (signed : kind.signed = true) :
    kind.parse (sign.chars ++ body) base =
      if kind.Holds (sign.number value) ∧ count < 2 ^ 31 ∧ ¬ (sign = .minus ∧ value = 0) then
        .ok (sign.number value)
      else .error .ERANGE := by
  have wide := kstrtoll_eq reads short sign
  generalize sign.number value = v at *
  have upward : kind.Holds v → Kind.ll.Holds v := by
    rintro ⟨low, high⟩
    cases kind <;> constructor <;> simp only [Kind.size] at * <;> omega
  have narrow : narrowed (Int.bmod · (2 ^ (kind.size * 8))) kstrtoll (sign.chars ++ body) base =
      if kind.Holds v ∧ count < 2 ^ 31 ∧ ¬ (sign = .minus ∧ value = 0) then .ok v
        else .error .ERANGE := by
    rw [narrowed, wide]
    by_cases fine : Kind.ll.Holds v ∧ count < 2 ^ 31 ∧ ¬ (sign = .minus ∧ value = 0)
    · rw [if_pos fine]
      change (if v ≠ v.bmod (2 ^ (kind.size * 8)) then Except.error Errno.ERANGE
        else .ok (v.bmod (2 ^ (kind.size * 8)))) = _
      by_cases held : kind.Holds v
      · have same := (bmod_eq_iff kind v).mpr held
        rw [if_neg (not_not_intro same), if_pos ⟨held, fine.2⟩, ← same]
      · rw [if_pos fun same => held ((bmod_eq_iff kind v).mp same), if_neg fun all => held all.1]
    · rw [if_neg fine, if_neg fun all => fine ⟨upward all.1, all.2⟩]
      rfl
  cases kind with
  | ll => exact wide
  | l | int | s16 | s8 => exact narrow
  | ull | ul | uint | u16 | u8 => cases signed

/-- Every number of the type is accepted, but for zero with a minus sign and for more than `2 ^ 31`
digits, whose count is taken for the flag. -/
theorem signed_exact_iff {kind : Kind} (signed : kind.signed = true) :
    (kind.Holds (sign.number value) →
        kind.parse (sign.chars ++ body) base = .ok (sign.number value)) ∧
        (¬ kind.Holds (sign.number value) → kind.parse (sign.chars ++ body) base = .error .ERANGE) ↔
      (kind.Holds (sign.number value) → count < 2 ^ 31 ∧ ¬ (sign = .minus ∧ value = 0)) := by
  rw [Kind.parse_eq reads short sign signed]
  by_cases holds : kind.Holds (sign.number value)
  · by_cases fine : count < 2 ^ 31 ∧ ¬ (sign = .minus ∧ value = 0) <;> simp [holds, fine]
  · simp [holds]

end Signed

theorem signed_exact_iff_least : Kind.s8.parse [45, 49, 50, 56] 10 = .ok (-128) := by
  have reads : Reads 10 [49, 50, 56] 3 128 :=
    ⟨rfl, [49, 50, 56], 10, rfl, by decide, by decide, rfl, rfl, by decide, .inl rfl⟩
  exact ((signed_exact_iff reads (by decide) .minus (show Kind.s8.signed = true from rfl)).mpr
      fun _ => by decide).1
    (by decide)

/-- Minus zero is zero, but it is refused. -/
theorem minus_zero_refused : Reads 10 [48] 1 0 ∧ kstrtoint [45, 48] 10 = .error .ERANGE :=
  ⟨⟨rfl, [48], 10, rfl, by decide, by decide, rfl, rfl, by decide, .inl rfl⟩, by decide⟩

/-! ## The user's bytes -/

theorem reads_padded (n : Nat) {last : U8} {value : Nat}
    (digit : last = 48 ∧ value = 0 ∨ last = 49 ∧ value = 1) :
    Reads 10 (List.replicate n 48 ++ [last]) (n + 1) value := by
  have read : digitVal 10 last = some value ∧ (digitVal 16 last).isSome = true := by
    rcases digit with ⟨rfl, rfl⟩ | ⟨rfl, rfl⟩ <;> exact ⟨rfl, rfl⟩
  have zero : digitVal 10 48 = some 0 := rfl
  have digits : leadingDigits 10 (List.replicate n 48 ++ [last]) =
      List.replicate n 0 ++ [value] := by
    induction n with
    | zero => simp [leadingDigits, read.1]
    | succ n ih => simp only [List.replicate_succ, List.cons_append, leadingDigits, zero, ih]
  have total : evaluate 10 0 (List.replicate n 0 ++ [value]) = value := by
    clear digits
    induction n with
    | zero => exact Nat.zero_add value
    | succ n ih => exact ih
  refine ⟨?_, _, 10, rfl, by decide, by decide, ?_, ?_, Nat.succ_pos n, .inl ?_⟩
  · cases n with
    | zero => exact read.2
    | succ n => rfl
  · rw [digits, List.length_append, List.length_replicate, List.length_singleton]
  · rw [digits, total]
  · exact List.drop_of_length_le (by simp)

theorem Kind.parse_small (kind : Kind) (reads : Reads base body count value)
    (short : body.length < 2 ^ 32)
    (small : value = 0 ∨ value = 1) :
    kind.parse body base = if 2 ^ 31 ≤ count then .error .ERANGE else .ok value := by
  have unsigned : kstrtoull body base = if 2 ^ 31 ≤ count then .error .ERANGE else .ok value := by
    rw [kstrtoull, if_neg reads.head_ne.1, reads.outcome short]
    exact if_congr (by omega) rfl rfl
  have signed : kstrtoll body base = if 2 ^ 31 ≤ count then .error .ERANGE else .ok value := by
    rw [kstrtoll, if_neg reads.head_ne.2, unsigned]
    rcases small with rfl | rfl <;> split_ifs <;> rfl
  cases kind <;> simp only [Kind.parse, kstrtoul, kstrtol, kstrtouint, kstrtoint, kstrtou16,
      kstrtos16, kstrtou8, kstrtos8,
    narrowed, unsigned, signed] <;> rcases small with rfl | rfl <;> split_ifs <;> rfl

/-- The forms agree on all texts of a length exactly when the buffer holds that many characters. -/
theorem kstrtoFromUser_agrees_iff (kind : Kind) {count : Nat} (short : count < 2 ^ 32) :
    (∀ s : List U8, s.length = count → 0 ∉ s → ∀ base, kstrtoFromUser kind true s base =
        kind.parse s base) ↔
      count ≤ kind.size * 8 + 2 := by
  constructor
  · intro agree
    by_contra long
    obtain ⟨n, rfl⟩ : ∃ n, count = n + 1 := ⟨count - 1, by omega⟩
    have sized : kind.size ≤ 8 := by cases kind <;> decide
    have whole := agree (List.replicate n 48 ++ [49]) (by simp) (by simp) 10
    have cut : (List.replicate n (48 : U8) ++ [49]).take
        (min (List.replicate n (48 : U8) ++ [49]).length
        (1 + kind.size * 8 + 1 + 1 - 1)) = List.replicate (kind.size * 8 + 1) 48 ++ [48] := by
      rw [List.take_append_of_le_length (by simp; omega), List.take_replicate,
        ← List.replicate_succ']
      congr 1
      simp
      omega
    rw [kstrtoFromUser, if_pos rfl, cut,
        kind.parse_small (reads_padded _ (.inl ⟨rfl, rfl⟩)) (by simp; omega) (.inl rfl),
      kind.parse_small (reads_padded n (.inr ⟨rfl, rfl⟩)) (by simpa using short) (.inr rfl),
        if_neg (by omega)] at whole
    split_ifs at whole
    cases whole
  · intro fits s length _ base
    rw [kstrtoFromUser, if_pos rfl, List.take_of_length_le (by omega)]

theorem kstrtoFromUser_agrees_iff_byte :
    kstrtoFromUser .u8 true [50, 53, 53, 10] 0 = kstrtou8 [50, 53, 53, 10] 0 :=
  (kstrtoFromUser_agrees_iff .u8 (show 4 < 2 ^ 32 by decide)).mpr (by decide) [50, 53, 53, 10] rfl
    (by decide) 0

/-- Ten zeros and a letter are accepted as a byte. -/
theorem cut_text_accepted : kstrtoFromUser .u8 true (List.replicate 10 48 ++ [122]) 10 = .ok 0 ∧
    kstrtou8 (List.replicate 10 48 ++ [122]) 10 = .error .EINVAL := by
  decide

end RouterKernel.Strings.Kstrtox
