import Mathlib.Data.List.TakeWhile
import RouterKernel.Bitmaps.Words
import RouterKernel.Strings.Printf

/-!
Contract: bitmaps as comma-separated lists of ranges.

Owns:
- `bscnl_emit`, `bitmap_scnlistprintf`, `__bitmap_parselist` and `bitmap_parselist`;
- the text of a list of ranges, and the ranges of a bitmap that the printer writes;
- the bits that a list of ranges sets.

Does not own: copying from user space, apart from its failure.
-/

namespace RouterKernel.Bitmaps

open RouterKernel.Foundation
open RouterKernel.Strings

/-! ## Printing -/

def DASH : U8 := 45
def NEWLINE : U8 := 10

def item (rbot rtop : Nat) : List U8 :=
  if rbot = rtop then decimal rbot else decimal rbot ++ DASH :: decimal rtop

def bscnlEmit (buflen : U32) (rbot rtop : Nat) (out : List U8) : List U8 :=
  let out := if 0 < out.length then append buflen out [COMMA] else out
  append buflen out (item rbot rtop)

theorem findNextBit_later (mask : Bitmap) {nmaskbits cur : Nat} (inside : cur < nmaskbits) :
    cur < findNextBit mask nmaskbits (cur + 1) :=
  (findNextBit_spec mask inside).behind

/-- The loop of `bitmap_scnlistprintf`, with what is done for a range left open. -/
def listLoop (emit : Nat → Nat → List U8 → List U8) (mask : Bitmap) (nmaskbits cur rbot : Nat)
    (out : List U8) : List U8 :=
  if inside : cur < nmaskbits then
    let next := findNextBit mask nmaskbits (cur + 1)
    have _later : cur < next := findNextBit_later mask inside
    if nmaskbits ≤ next ∨ cur + 1 < next then
      listLoop emit mask nmaskbits next next (emit rbot cur out)
    else listLoop emit mask nmaskbits next rbot out
  else out
termination_by nmaskbits - cur

/-- The string that `bitmap_scnlistprintf` leaves in a buffer. -/
def bitmapScnlistprintf (buflen : U32) (mask : Bitmap) (nmaskbits : Nat) : List U8 :=
  if buflen = 0 then []
  else
    let cur := findNextBit mask nmaskbits 0
    listLoop (bscnlEmit buflen) mask nmaskbits cur cur []

/-- The same for a buffer without end. -/
def emitAll (rbot rtop : Nat) (out : List U8) : List U8 :=
  (if 0 < out.length then out ++ [COMMA] else out) ++ item rbot rtop

def listText (mask : Bitmap) (nmaskbits : Nat) : List U8 :=
  let cur := findNextBit mask nmaskbits 0
  listLoop emitAll mask nmaskbits cur cur []

/-! ## Parsing -/

/-- The variables of `__bitmap_parselist` inside one item. -/
structure Item where
  c : U8
  totaldigits : Nat
  expDigit : Bool
  inRange : Bool
  a : U32
  b : U32
deriving DecidableEq, Repr

def Item.start (c : U8) (totaldigits : Nat) : Item :=
  { c, totaldigits, expDigit := true, inRange := false, a := 0, b := 0 }

/-- What follows the inner loop: the bounds are checked and the range is set. -/
def closeItem (nmaskbits : U32) (read : Item) (mask : Bitmap) : Option Errno × Bitmap :=
  if ¬ read.a.toNat ≤ read.b.toNat then (some .EINVAL, mask)
  else if nmaskbits.toNat ≤ read.b.toNat then (some .ERANGE, mask)
  else (none, setBits mask read.a.toNat (read.b.toNat + 1 - read.a.toNat))

/-- The rest of `__bitmap_parselist`, from inside an item on.  A character that
`__get_user` fails to copy is `none`.  The inner loop ends with the buffer, at a zero
and at a comma; the outer one goes on only behind a comma that is not the last
character. -/
def parseListFrom (nmaskbits : U32) : List (Option U8) → Item → Bitmap → Option Errno × Bitmap
  | [], read, mask => closeItem nmaskbits read mask
  | none :: _, _, mask => (some .EFAULT, mask)
  | some c :: rest, read, mask =>
    let oldC := read.c
    let read := { read with c }
    if isspace c then parseListFrom nmaskbits rest read mask
    else if read.totaldigits ≠ 0 ∧ c ≠ 0 ∧ isspace oldC then (some .EINVAL, mask)
    else if c = 0 ∨ c = COMMA then
      match closeItem nmaskbits read mask with
      | (some err, mask) => (some err, mask)
      | (none, mask) =>
        if rest ≠ [] ∧ c = COMMA then
          parseListFrom nmaskbits rest (Item.start c read.totaldigits) mask
        else (none, mask)
    else if c = DASH then
      if read.expDigit ∨ read.inRange then (some .EINVAL, mask)
      else parseListFrom nmaskbits rest { read with b := 0, inRange := true, expDigit := true } mask
    else if ¬ isdigit c then (some .EINVAL, mask)
    else
      let b := read.b * 10 + (c - 48).setWidth 32
      let a := if read.inRange then read.a else b
      parseListFrom nmaskbits rest
        { read with a, b, expDigit := false, totaldigits := read.totaldigits + 1 } mask

/-- `__bitmap_parselist`. -/
def parselist (buf : List (Option U8)) (nmaskbits : Nat) : Option Errno × Bitmap :=
  parseListFrom (BitVec.ofNat 32 nmaskbits) buf (Item.start 0 0) (bitmapZero nmaskbits)

/-- `bitmap_parselist` on a string: up to its first newline. -/
def bitmapParselist (string : List U8) (nmaskbits : Nat) : Option Errno × Bitmap :=
  parselist ((string.takeWhile (· ≠ NEWLINE)).map some) nmaskbits

/-! ## The text of a list of ranges -/

def render (ranges : List (Nat × Nat)) (out : List U8) : List U8 :=
  ranges.foldl (fun out range => emitAll range.1 range.2 out) out

theorem prefix_emitAll (rbot rtop : Nat) (out : List U8) : out <+: emitAll rbot rtop out := by
  rw [emitAll]
  split
  · rw [List.append_assoc]
    exact List.prefix_append _ _
  · exact List.prefix_append _ _

theorem listLoop_turn {emit : Nat → Nat → List U8 → List U8} {mask : Bitmap}
    {nmaskbits cur rbot : Nat}
    {out : List U8} (inside : cur < nmaskbits) :
    listLoop emit mask nmaskbits cur rbot out =
      if nmaskbits ≤ findNextBit mask nmaskbits (cur + 1) ∨
          cur + 1 < findNextBit mask nmaskbits (cur + 1) then
        listLoop emit mask nmaskbits (findNextBit mask nmaskbits (cur + 1))
            (findNextBit mask nmaskbits (cur + 1))
          (emit rbot cur out)
      else listLoop emit mask nmaskbits (findNextBit mask nmaskbits (cur + 1)) rbot out := by
  rw [listLoop, dif_pos inside]

theorem prefix_listLoop (mask : Bitmap) (nmaskbits cur rbot : Nat) (out : List U8) :
    out <+: listLoop emitAll mask nmaskbits cur rbot out := by
  induction cur, rbot, out using listLoop.induct emitAll mask nmaskbits with
  | case1 cur rbot out inside next later ends ih =>
    rw [listLoop_turn inside, if_pos ends]
    exact (prefix_emitAll rbot cur out).trans ih
  | case2 cur rbot out inside next later goes ih =>
    rw [listLoop_turn inside, if_neg goes]
    exact ih
  | case3 cur rbot out outside =>
    rw [listLoop, dif_neg outside]

theorem bscnlEmit_whole {buflen : U32} {rbot rtop : Nat} {out : List U8}
    (positive : 0 ≤ buflen.toInt) (fits : (emitAll rbot rtop out).length < buflen.toNat) :
    bscnlEmit buflen rbot rtop out = emitAll rbot rtop out := by
  rw [emitAll] at fits
  rw [bscnlEmit, emitAll]
  by_cases some : 0 < out.length
  · rw [if_pos some] at fits ⊢
    have comma : append buflen out [COMMA] = out ++ [COMMA] := by
      refine append_whole positive ?_
      rw [List.length_append] at fits
      omega
    rw [if_pos some, comma]
    exact append_whole positive fits
  · rw [if_neg some] at fits ⊢
    rw [if_neg some]
    exact append_whole positive fits

theorem listLoop_whole {buflen : U32} (positive : 0 ≤ buflen.toInt) (mask : Bitmap)
    (nmaskbits cur rbot : Nat) (out : List U8)
    (fits : (listLoop emitAll mask nmaskbits cur rbot out).length < buflen.toNat) :
    listLoop (bscnlEmit buflen) mask nmaskbits cur rbot out =
      listLoop emitAll mask nmaskbits cur rbot out := by
  induction cur, rbot, out using listLoop.induct emitAll mask nmaskbits with
  | case1 cur rbot out inside next later ends ih =>
    rw [listLoop_turn inside, if_pos ends] at fits
    rw [listLoop_turn inside, if_pos ends, listLoop_turn inside, if_pos ends]
    have fitsFirst : (emitAll rbot cur out).length < buflen.toNat :=
      lt_of_le_of_lt (prefix_listLoop mask nmaskbits next next _).length_le fits
    rw [bscnlEmit_whole positive fitsFirst]
    exact ih fits
  | case2 cur rbot out inside next later goes ih =>
    rw [listLoop_turn inside, if_neg goes] at fits
    rw [listLoop_turn inside, if_neg goes, listLoop_turn inside, if_neg goes]
    exact ih fits
  | case3 cur rbot out outside =>
    rw [listLoop, dif_neg outside, listLoop, dif_neg outside]

/-- With a size that is negative as an `int` nothing is ever printed. -/
theorem listLoop_negative {buflen : U32} (negative : buflen.toInt < 0) (mask : Bitmap)
    (nmaskbits cur rbot : Nat) : listLoop (bscnlEmit buflen) mask nmaskbits cur rbot [] = [] := by
  have emits (rbot rtop : Nat) : bscnlEmit buflen rbot rtop [] = [] := by
    rw [bscnlEmit, List.length_nil, if_neg (lt_irrefl 0), append, List.length_nil]
    have same : buflen - BitVec.ofNat 32 0 = buflen := BitVec.sub_zero buflen
    rw [same, scnprintf_negative negative, List.append_nil]
  generalize outEq : ([] : List U8) = out
  induction cur, rbot, out using listLoop.induct (bscnlEmit buflen) mask nmaskbits with
  | case1 cur rbot out inside next later ends ih =>
    subst outEq
    rw [listLoop_turn inside, if_pos ends, emits]
    rw [emits] at ih
    exact ih rfl
  | case2 cur rbot out inside next later goes ih =>
    rw [listLoop_turn inside, if_neg goes]
    exact ih outEq
  | case3 cur rbot out outside =>
    rw [listLoop, dif_neg outside]

/-! ## The ranges of a bitmap -/

def Covered (ranges : List (Nat × Nat)) (bit : Nat) : Prop :=
  ∃ range ∈ ranges, range.1 ≤ bit ∧ bit ≤ range.2

def Proper (nmaskbits : Nat) (ranges : List (Nat × Nat)) : Prop :=
  ∀ range ∈ ranges, range.1 ≤ range.2 ∧ range.2 < nmaskbits

theorem covered_cons {range : Nat × Nat} {ranges : List (Nat × Nat)} {bit : Nat} :
    Covered (range :: ranges) bit ↔ (range.1 ≤ bit ∧ bit ≤ range.2) ∨ Covered ranges bit := by
  simp [Covered]

/-- The loop appends the text of ranges that cover exactly the set bits from `rbot` on. -/
theorem listLoop_ranges (mask : Bitmap) (nmaskbits cur rbot : Nat) (out : List U8)
    (first : cur < nmaskbits → rbot ≤ cur ∧ ∀ bit, rbot ≤ bit → bit ≤ cur → testBit mask bit = true)
    (last : nmaskbits ≤ cur → rbot = cur) :
    ∃ ranges, listLoop emitAll mask nmaskbits cur rbot out = render ranges out ∧
      Proper nmaskbits ranges ∧ (cur < nmaskbits → ranges ≠ []) ∧
      ∀ bit, Covered ranges bit ↔ rbot ≤ bit ∧ bit < nmaskbits ∧ testBit mask bit = true := by
  induction cur, rbot, out using listLoop.induct emitAll mask nmaskbits with
  | case1 cur rbot out inside next later ends ih =>
    obtain ⟨low, set⟩ := first inside
    obtain ⟨behind, bound, found, clear⟩ := findNextBit_spec mask (Nat.succ_le_of_lt inside)
    obtain ⟨ranges, textEq, proper, -, covered⟩ := ih
      (fun less => ⟨le_refl _, fun bit lowBit highBit => by
        rw [le_antisymm highBit lowBit]
        exact found less⟩) (fun _ => rfl)
    refine ⟨(rbot, cur) :: ranges, ?_, ?_, fun _ => List.cons_ne_nil _ _, ?_⟩
    · rw [listLoop_turn inside, if_pos ends]
      exact textEq
    · intro range listed
      rcases List.mem_cons.mp listed with same | later
      · exact same ▸ ⟨low, inside⟩
      · exact proper range later
    · intro bit
      rw [covered_cons, covered]
      constructor
      · rintro (⟨lowBit, highBit⟩ | ⟨lowBit, highBit, set⟩)
        · exact ⟨lowBit, by omega, set bit lowBit highBit⟩
        · exact ⟨by omega, highBit, set⟩
      · rintro ⟨lowBit, highBit, set⟩
        by_cases here : bit ≤ cur
        · exact Or.inl ⟨lowBit, here⟩
        · refine Or.inr ⟨?_, highBit, set⟩
          by_contra gap
          rw [clear bit (by omega) (not_le.mp gap)] at set
          cases set
  | case2 cur rbot out inside next later goes ih =>
    obtain ⟨low, set⟩ := first inside
    obtain ⟨behind, bound, found, clear⟩ := findNextBit_spec mask (Nat.succ_le_of_lt inside)
    have step : next = cur + 1 ∧ next < nmaskbits := by omega
    obtain ⟨ranges, textEq, proper, some, covered⟩ := ih
      (fun less => ⟨by omega, fun bit lowBit highBit => by
        by_cases here : bit ≤ cur
        · exact set bit lowBit here
        · have same : bit = next := by omega
          exact same ▸ found less⟩) (fun ended => by omega)
    refine ⟨ranges, ?_, proper, fun _ => some step.2, covered⟩
    rw [listLoop_turn inside, if_neg goes]
    exact textEq
  | case3 cur rbot out outside =>
    refine ⟨[], ?_, ?_, fun inside => absurd inside outside, ?_⟩
    · rw [listLoop, dif_neg outside]
      rfl
    · intro range listed
      cases listed
    · intro bit
      have same := last (not_lt.mp outside)
      constructor
      · rintro ⟨range, listed, -⟩
        cases listed
      · rintro ⟨low, high, -⟩
        omega

/-- The full text is that of ranges which cover exactly the set bits. -/
theorem listText_ranges (mask : Bitmap) (nmaskbits : Nat) :
    ∃ ranges, listText mask nmaskbits = render ranges [] ∧ Proper nmaskbits ranges ∧
      ((∃ bit < nmaskbits, testBit mask bit = true) → ranges ≠ []) ∧
      ∀ bit, Covered ranges bit ↔ bit < nmaskbits ∧ testBit mask bit = true := by
  obtain ⟨-, bound, found, clear⟩ := findNextBit_spec mask (Nat.zero_le nmaskbits)
  obtain ⟨ranges, textEq, proper, some, covered⟩ :=
    listLoop_ranges mask nmaskbits (findNextBit mask nmaskbits 0) (findNextBit mask nmaskbits 0) []
      (fun less => ⟨le_refl _, fun bit lowBit highBit => by
        rw [le_antisymm highBit lowBit]
        exact found less⟩) (fun _ => rfl)
  refine ⟨ranges, textEq, proper, ?_, ?_⟩
  · rintro ⟨bit, inside, set⟩
    refine some ?_
    by_contra ended
    rw [clear bit (Nat.zero_le bit) (by omega)] at set
    cases set
  · intro bit
    rw [covered]
    constructor
    · exact fun all => all.2
    · rintro ⟨inside, set⟩
      refine ⟨?_, inside, set⟩
      by_contra early
      rw [clear bit (Nat.zero_le bit) (not_le.mp early)] at set
      cases set

/-! ## Reading ranges back -/

section Reading

variable (nmaskbits : U32)

def Item.digit (read : Item) (digit : Nat) : Item :=
  { c := digitChar digit, totaldigits := read.totaldigits + 1, expDigit := false,
    inRange := read.inRange,
    a := if read.inRange then read.a else read.b * 10 + BitVec.ofNat 32 digit,
    b := read.b * 10 + BitVec.ofNat 32 digit }

def Item.dash (read : Item) : Item :=
  { read with c := DASH, b := 0, inRange := true, expDigit := true }

theorem decimal_digit {digit : Nat} (small : digit < 10) :
    isspace (digitChar digit) = false ∧ digitChar digit ≠ 0 ∧ digitChar digit ≠ COMMA ∧
      digitChar digit ≠ DASH ∧ digitChar digit ≠ NEWLINE ∧ isdigit (digitChar digit) = true ∧
      (digitChar digit - 48).setWidth 32 = BitVec.ofNat 32 digit := by
  interval_cases digit <;> decide

theorem parseListFrom_digit {digit : Nat} (small : digit < 10) {read : Item}
    (unspaced : isspace read.c = false) (rest : List (Option U8)) (mask : Bitmap) :
    parseListFrom nmaskbits (some (digitChar digit) :: rest) read mask =
      parseListFrom nmaskbits rest (read.digit digit) mask := by
  obtain ⟨space, zero, comma, dash, -, digits, value⟩ := decimal_digit small
  rw [parseListFrom]
  simp only [space, zero, comma, dash, digits, unspaced, value, Bool.false_eq_true, and_false,
    false_or, if_false, not_true_eq_false, Item.digit]

/-- An item that holds the range `a` to `b` and ends in a digit. -/
structure Pending (read : Item) (range : Nat × Nat) : Prop where
  unspaced : isspace read.c = false
  lower : read.a = BitVec.ofNat 32 range.1
  upper : read.b = BitVec.ofNat 32 range.2

end Reading

def setRanges (mask : Bitmap) (ranges : List (Nat × Nat)) : Bitmap :=
  ranges.foldl (fun mask range => setBits mask range.1 (range.2 + 1 - range.1)) mask

section Ranges

variable {nmaskbits : Nat} (small : nmaskbits < 2 ^ 31)

include small in
theorem closeItem_pending {read : Item} {range : Nat × Nat} (pending : Pending read range)
    (ordered : range.1 ≤ range.2) (inside : range.2 < nmaskbits) (mask : Bitmap) :
    closeItem (BitVec.ofNat 32 nmaskbits) read mask =
      (none, setBits mask range.1 (range.2 + 1 - range.1)) := by
  have lower : read.a.toNat = range.1 := by
    rw [pending.lower, BitVec.toNat_ofNat, Nat.mod_eq_of_lt (by omega)]
  have upper : read.b.toNat = range.2 := by
    rw [pending.upper, BitVec.toNat_ofNat, Nat.mod_eq_of_lt (by omega)]
  have bits : (BitVec.ofNat 32 nmaskbits).toNat = nmaskbits := by
    rw [BitVec.toNat_ofNat, Nat.mod_eq_of_lt (by omega)]
  rw [closeItem, lower, upper, bits, if_neg (not_not.mpr ordered), if_neg (by omega)]

theorem testBit_setRanges {mask : Bitmap} (sized : mask.length = bitsToLongs nmaskbits)
    {ranges : List (Nat × Nat)} (proper : Proper nmaskbits ranges) (bit : Nat) :
    testBit (setRanges mask ranges) bit = true ↔ Covered ranges bit ∨ testBit mask bit = true := by
  induction ranges generalizing mask with
  | nil =>
    simp [setRanges, Covered]
  | cons range ranges ih =>
    obtain ⟨ordered, inside⟩ := proper range List.mem_cons_self
    have next : (setBits mask range.1 (range.2 + 1 - range.1)).length = bitsToLongs nmaskbits := by
      rw [length_setBits, sized]
    have words : ∀ other, range.1 ≤ other → other < range.1 + (range.2 + 1 - range.1) →
        other / 32 < mask.length := by
      intro other low high
      rw [sized]
      exact word_inside (by omega)
    have bits := testBit_setBits words bit
    have rest := ih next
      (List.forall_mem_cons.mp proper).2
    rw [bits, Bool.or_eq_true, decide_eq_true_eq] at rest
    have here : range.1 ≤ bit ∧ bit < range.1 + (range.2 + 1 - range.1) ↔ range.1 ≤ bit ∧
      bit ≤ range.2 := by omega
    rw [here] at rest
    rw [covered_cons]
    exact rest.trans (by tauto)

end Ranges

end RouterKernel.Bitmaps
