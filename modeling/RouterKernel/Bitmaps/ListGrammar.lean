import RouterKernel.Bitmaps.ListFormat

/-!
Contract: which strings `__bitmap_parselist` of lib/bitmap.c accepts.

Owns:
- the grammar of a list: numbers and ranges between commas, with white space around the list;
- that every string of the grammar is accepted and sets the listed bits;
- the loose lists, in which numbers may be missing and count modulo 2^32: all that is accepted.

Does not own: user addresses that cannot be read.
-/

namespace RouterKernel.Bitmaps

open RouterKernel.Foundation
open RouterKernel.Strings

/-! ## The grammar -/

/-- A row of decimal digits. -/
structure Numeral where
  digits : List Nat
  small : ∀ digit ∈ digits, digit < 10

def Numeral.text (number : Numeral) : List U8 := number.digits.map digitChar

def Numeral.value (number : Numeral) : Nat := evaluate 10 0 number.digits

/-- What stands between two commas: a number, or a range with its second number.  Only the number
in front of a dash is certain to have digits. -/
structure Entry where
  low : Numeral
  high : Option Numeral
  dashed : high ≠ none → low.digits ≠ []

def Entry.text (entry : Entry) : List U8 :=
  entry.low.text ++ (entry.high.elim [] fun high => DASH :: high.text)

def Entry.range (entry : Entry) : Nat × Nat :=
  (entry.low.value, (entry.high.getD entry.low).value)

/-- No number is missing. -/
def Entry.Written (entry : Entry) : Prop :=
  entry.low.digits ≠ [] ∧ ∀ high ∈ entry.high, high.digits ≠ []

def Spaces (text : List U8) : Prop := ∀ c ∈ text, isspace c = true

def tailText (entries : List Entry) : List U8 := entries.flatMap fun entry => COMMA :: entry.text

/-- The string is a list of these entries, with white space around it. -/
def Listed (string : List U8) (entry : Entry) (entries : List Entry) : Prop :=
  (∀ e ∈ entry :: entries, e.Written) ∧ ∃ lead trail, Spaces lead ∧ Spaces trail ∧
    string = lead ++ (entry.text ++ tailText entries ++ trail)

/-- The range of an entry as 32-bit numbers. -/
def Taken (nmaskbits : Nat) (range : Nat × Nat) : Prop :=
  range.1 % 2 ^ 32 ≤ range.2 % 2 ^ 32 ∧ range.2 % 2 ^ 32 < nmaskbits

/-- A list in which numbers may be missing and may be 2^32 or more.  In front of the first number
there may be commas, with white space between them. -/
def Loose (nmaskbits : Nat) (string : List U8) : Prop :=
  ∃ lead entry entries trail, (∀ c ∈ lead, isspace c = true ∨ c = COMMA) ∧ Spaces trail ∧
    string = lead ++ (entry.text ++ tailText entries ++ trail) ∧
    ∀ e ∈ entry :: entries, Taken nmaskbits e.range

def cstring (buffer : List U8) : List U8 := buffer.takeWhile (· ≠ 0)

theorem cstring_cons {c : U8} {rest : List U8} (nonzero : c ≠ 0) :
    cstring (c :: rest) = c :: cstring rest := by
  rw [cstring, List.takeWhile_cons, if_pos (by simpa using nonzero)]
  rfl

theorem cstring_append {text rest : List U8} (nonzero : ∀ c ∈ text, c ≠ 0) :
    cstring (text ++ rest) = text ++ cstring rest := by
  induction text with
  | nil => rfl
  | cons c text ih =>
    rw [List.cons_append, cstring_cons (nonzero c List.mem_cons_self),
      ih (List.forall_mem_cons.mp nonzero).2]
    rfl

theorem exists_behind (buffer : List U8) : ∃ behind, cstring behind = [] ∧
    buffer = cstring buffer ++ behind := by
  refine ⟨buffer.dropWhile (· ≠ 0), ?_, List.takeWhile_append_dropWhile.symm⟩
  rw [cstring, List.takeWhile_eq_nil_iff]
  intro positive
  simpa using List.dropWhile_get_zero_not (fun c : U8 => decide (c ≠ 0)) buffer positive

theorem Spaces.ne_zero {text : List U8} (blank : Spaces text) : ∀ c ∈ text, c ≠ 0 := by
  rintro c listed rfl
  exact absurd (blank 0 listed) (by decide)

theorem Numeral.ne_zero (number : Numeral) : ∀ c ∈ number.text, c ≠ 0 := by
  intro c listed
  obtain ⟨digit, member, rfl⟩ := List.mem_map.mp listed
  exact (decimal_digit (number.small digit member)).2.1

/-! ## Steps of the parser -/

section Steps

variable {n : U32} {read : Item} {mask out : Bitmap} {c : U8} {rest : List U8}

/-- `__bitmap_parselist` on characters that can all be read. -/
def parseText (n : U32) (text : List U8) (read : Item) (mask : Bitmap) : Option Errno × Bitmap :=
  parseListFrom n (text.map some) read mask

def Item.digits (read : Item) (digits : List Nat) : Item := digits.foldl Item.digit read

theorem parseText_unread (unread : read.totaldigits = 0) (space : isspace c = true) :
    parseText n (c :: rest) read mask = parseText n rest read mask := by
  rw [parseText, List.map_cons, parseListFrom]
  simp only [space, if_true]
  cases rest with
  | nil => rfl
  | cons other rest =>
    rw [parseText, List.map_cons, parseListFrom, parseListFrom]
    simp only [unread, ne_eq, not_true_eq_false, false_and, if_false]

theorem parseText_number (number : Numeral) (unspaced : isspace read.c = false) :
    parseText n (number.text ++ rest) read mask =
      parseText n rest (read.digits number.digits) mask := by
  obtain ⟨digits, small⟩ := number
  rw [Numeral.text]
  induction digits generalizing read with
  | nil => rfl
  | cons digit digits ih =>
    have headSmall := small digit List.mem_cons_self
    have next : isspace (read.digit digit).c = false := (decimal_digit headSmall).1
    rw [parseText, List.map_cons, List.cons_append, List.map_cons,
      parseListFrom_digit n headSmall unspaced]
    exact ih next (List.forall_mem_cons.mp small).2

@[simp] theorem inRange_digits (digits : List Nat) :
    (read.digits digits).inRange = read.inRange := by
  induction digits generalizing read with
  | nil => rfl
  | cons digit digits ih => exact ih

@[simp] theorem totaldigits_digits (digits : List Nat) :
    (read.digits digits).totaldigits = read.totaldigits + digits.length := by
  induction digits generalizing read with
  | nil => rfl
  | cons digit digits ih =>
    refine ih.trans ?_
    rw [List.length_cons]
    show read.totaldigits + 1 + _ = _
    omega

theorem expDigit_digits {digits : List Nat} (some_ : digits ≠ []) :
    (read.digits digits).expDigit = false := by
  induction digits generalizing read with
  | nil => exact absurd rfl some_
  | cons digit digits ih =>
    rcases eq_or_ne digits [] with rfl | more
    · rfl
    · exact ih more

/-- The range behind a number, the second number of a range if `a` is its first. -/
theorem pending_number {a start : Nat} (number : Numeral) (unspaced : isspace read.c = false)
    (lower : read.a = BitVec.ofNat 32 (if read.inRange then a else start))
    (upper : read.b = BitVec.ofNat 32 start) :
    Pending (read.digits number.digits)
      (if read.inRange then a else evaluate 10 start number.digits,
        evaluate 10 start number.digits) := by
  obtain ⟨digits, small⟩ := number
  induction digits generalizing read start with
  | nil => exact ⟨unspaced, lower, upper⟩
  | cons digit digits ih =>
    have headSmall := small digit List.mem_cons_self
    have shifted : read.b * 10 + BitVec.ofNat 32 digit = BitVec.ofNat 32 (start * 10 + digit) := by
      rw [upper, BitVec.ofNat_add, BitVec.ofNat_mul]
      rfl
    have lowerNext : (read.digit digit).a =
        BitVec.ofNat 32 (if (read.digit digit).inRange then a else start * 10 + digit) := by
      change (if read.inRange then read.a else read.b * 10 + BitVec.ofNat 32 digit) =
        BitVec.ofNat 32 (if read.inRange then a else start * 10 + digit)
      rw [lower, shifted]
      split_ifs <;> rfl
    exact ih (decimal_digit headSmall).1 lowerNext shifted (List.forall_mem_cons.mp small).2

theorem pending_start (c : U8) (td : Nat) (number : Numeral) (unspaced : isspace c = false) :
    Pending ((Item.start c td).digits number.digits) (number.value, number.value) :=
  pending_number (a := 0) number unspaced rfl rfl

theorem pending_dash {low : Nat × Nat} (pending : Pending read low) (number : Numeral) :
    Pending (read.dash.digits number.digits) (low.1, number.value) :=
  pending_number number (show isspace DASH = false by decide) pending.lower rfl

theorem parseText_dash (unspaced : isspace read.c = false) :
    parseText n (DASH :: rest) read mask =
      if read.expDigit = true ∨ read.inRange = true then (some .EINVAL, mask)
      else parseText n rest read.dash mask := by
  have facts : isspace DASH = false ∧ DASH ≠ 0 ∧ DASH ≠ COMMA := by decide
  rw [parseText, List.map_cons, parseListFrom]
  simp only [facts.1, facts.2.1, facts.2.2, unspaced, Bool.false_eq_true, and_false, or_false,
    if_false, if_true]
  rfl

theorem parseText_comma (unspaced : isspace read.c = false) :
    parseText n (COMMA :: rest) read mask =
      match closeItem n read mask with
      | (some err, mask) => (some err, mask)
      | (none, mask) =>
        if rest ≠ [] then parseText n rest (Item.start COMMA read.totaldigits) mask
        else (none, mask) := by
  have facts : isspace COMMA = false := by decide
  have closed : closeItem n { read with c := COMMA } mask = closeItem n read mask := rfl
  rw [parseText, List.map_cons, parseListFrom]
  simp only [facts, unspaced, Bool.false_eq_true, and_false, if_false, or_true, if_true, closed,
    and_true, ne_eq, List.map_eq_nil_iff]
  rfl

theorem parseText_spaces (blank : Spaces (cstring rest)) :
    parseText n rest read mask = closeItem n read mask := by
  induction rest generalizing read with
  | nil => rfl
  | cons c rest ih =>
    rw [parseText, List.map_cons, parseListFrom]
    by_cases zero : c = 0
    · subst zero
      have facts : isspace 0 = false ∧ (0 : U8) ≠ COMMA := by decide
      simp only [facts.1, facts.2, Bool.false_eq_true, if_false, ne_eq, not_true_eq_false,
          false_and, and_false,
        true_or, if_true]
      have closed : closeItem n { read with c := 0 } mask = closeItem n read mask := rfl
      rw [closed]
      rcases closeItem n read mask with ⟨_ | _, _⟩ <;> rfl
    · rw [cstring_cons zero] at blank
      simp only [blank c List.mem_cons_self, if_true]
      exact ih (List.forall_mem_cons.mp blank).2

theorem spaces_of_accepted (accepted : parseText n rest read mask = (none, out))
    (digits : read.totaldigits ≠ 0)
    (space : isspace read.c = true) : Spaces (cstring rest) := by
  induction rest generalizing read with
  | nil =>
    intro c listed
    cases listed
  | cons c rest ih =>
    by_cases zero : c = 0
    · subst zero
      intro c listed
      cases listed
    rw [parseText, List.map_cons, parseListFrom] at accepted
    by_cases blank : isspace c = true
    · simp only [blank, if_true] at accepted
      rw [cstring_cons zero]
      have later : parseText n rest { read with c } mask = (none, out) := accepted
      exact List.forall_mem_cons.mpr ⟨blank, ih later digits blank⟩
    · simp only [blank, digits, zero, space, ne_eq, not_false_eq_true, and_self, if_false, if_true,
        Bool.false_eq_true] at accepted
      exact absurd (congrArg Prod.fst accepted) (by simp)

/-- The only character an accepted string has next, if it is no digit. -/
theorem accepted_cases (unspaced : isspace read.c = false)
    (begins : read.totaldigits ≠ 0 ∨ isspace c = false)
    (nonzero : c ≠ 0) (other : isdigit c = false)
    (accepted : parseText n (c :: rest) read mask = (none, out)) :
    Spaces (cstring (c :: rest)) ∨ c = COMMA ∨ c = DASH := by
  by_cases blank : isspace c = true
  · left
    rw [cstring_cons nonzero]
    rw [parseText, List.map_cons, parseListFrom] at accepted
    simp only [blank, if_true] at accepted
    have later : parseText n rest { read with c } mask = (none, out) := accepted
    exact List.forall_mem_cons.mpr ⟨blank,
      spaces_of_accepted later (begins.resolve_right (by simp [blank])) blank⟩
  · right
    by_contra neither
    push Not at neither
    rw [parseText, List.map_cons, parseListFrom] at accepted
    simp only [blank, unspaced, nonzero, neither.1, neither.2, other, Bool.false_eq_true, and_false,
        or_self, if_false,
      not_false_eq_true, if_true] at accepted
    exact absurd (congrArg Prod.fst accepted) (by simp)

end Steps

/-! ## Accepted strings -/

section Accepted

variable {nmaskbits : Nat} {read : Item} {mask out : Bitmap} {rest : List U8} {range : Nat × Nat}

theorem closeItem_taken (small : nmaskbits < 2 ^ 31) (pending : Pending read range)
    (mask : Bitmap) :
    (closeItem (BitVec.ofNat 32 nmaskbits) read mask).1 = none ↔ Taken nmaskbits range := by
  have bits : (BitVec.ofNat 32 nmaskbits).toNat = nmaskbits := by
    rw [BitVec.toNat_ofNat, Nat.mod_eq_of_lt (by omega)]
  rw [closeItem, pending.lower, pending.upper, bits, BitVec.toNat_ofNat, BitVec.toNat_ofNat,
    Taken]
  by_cases ordered : range.1 % 2 ^ 32 ≤ range.2 % 2 ^ 32
  · rw [if_neg (not_not.mpr ordered)]
    by_cases outside : nmaskbits ≤ range.2 % 2 ^ 32
    · rw [if_pos outside]
      exact iff_of_false (by simp) fun taken => absurd taken.2 (not_lt.mpr outside)
    · rw [if_neg outside]
      exact iff_of_true rfl ⟨ordered, not_le.mp outside⟩
  · rw [if_pos ordered]
    exact iff_of_false (by simp) fun taken => ordered taken.1

theorem digitChar_of_isdigit {c : U8} (digit : isdigit c = true) :
    c.toNat - 48 < 10 ∧ digitChar (c.toNat - 48) = c := by
  have bounds : 48 ≤ c.toNat ∧ c.toNat ≤ 57 := by
    rw [isdigit, decide_eq_true_eq] at digit
    exact digit
  refine ⟨by omega, ?_⟩
  rw [digitChar, if_pos (by omega), Nat.add_sub_cancel' bounds.1]
  exact BitVec.eq_of_toNat_eq (by rw [BitVec.toNat_ofNat, Nat.mod_eq_of_lt c.isLt])

theorem exists_number (text : List U8) : ∃ (number : Numeral) (rest : List U8),
    text = number.text ++ rest ∧ ∀ c ∈ rest.head?, isdigit c = false := by
  induction text with
  | nil => exact ⟨⟨[], by simp⟩, [], rfl, by simp⟩
  | cons c text ih =>
    by_cases digit : isdigit c = true
    · obtain ⟨⟨digits, small⟩, rest, rfl, stop⟩ := ih
      obtain ⟨less, same⟩ := digitChar_of_isdigit digit
      refine ⟨⟨(c.toNat - 48) :: digits, List.forall_mem_cons.mpr ⟨less, small⟩⟩, rest, ?_, stop⟩
      show c :: _ = digitChar (c.toNat - 48) :: _
      rw [same]
      rfl
    · exact ⟨⟨[], by simp⟩, c :: text, rfl, by simpa using digit⟩

/-- An entry ends with the string, or at a comma with what is accepted behind it. -/
def Closes (n : U32) (rest : List U8) (read : Item) (mask out : Bitmap) : Prop :=
  (closeItem n read mask).1 = none ∧ (Spaces (cstring rest) ∨ ∃ later mask', rest = COMMA :: later ∧
    (later ≠ [] → parseText n later (Item.start COMMA read.totaldigits) mask' = (none, out)))

/-- What an accepted string goes on with behind a number: the end of the entry or, if this was the
first number of its entry, a dash. -/
theorem accepted_number {n : U32} (unspaced : isspace read.c = false)
    (begins : read.totaldigits ≠ 0 ∨ ∀ c ∈ rest.head?, isspace c = false)
    (stop : ∀ c ∈ rest.head?, isdigit c = false)
    (accepted : parseText n rest read mask = (none, out)) :
    Closes n rest read mask out ∨ (read.expDigit = false ∧ read.inRange = false ∧
      ∃ later, rest = DASH :: later ∧ parseText n later read.dash mask = (none, out)) := by
  have blankCase (blank : Spaces (cstring rest)) : Closes n rest read mask out :=
    ⟨by rw [← parseText_spaces blank, accepted], Or.inl blank⟩
  cases rest with
  | nil => exact Or.inl (blankCase (by simp [cstring, Spaces]))
  | cons c rest =>
    by_cases zero : c = 0
    · subst zero
      exact Or.inl (blankCase (by simp [cstring, Spaces]))
    rcases accepted_cases unspaced (begins.imp_right fun blank => blank c rfl) zero (stop c rfl)
      accepted with blank | rfl | rfl
    · exact Or.inl (blankCase blank)
    · rw [parseText_comma unspaced] at accepted
      rcases closed : closeItem n read mask with ⟨_ | err, mask'⟩
      · rw [closed] at accepted
        refine Or.inl ⟨by rw [closed], Or.inr ⟨rest, mask', rfl, fun more => ?_⟩⟩
        simpa only [if_pos more] using accepted
      · rw [closed] at accepted
        exact absurd (congrArg Prod.fst accepted) (by simp)
    · rw [parseText_dash unspaced] at accepted
      split_ifs at accepted with refused
      · exact absurd (congrArg Prod.fst accepted) (by simp)
      · push Not at refused
        exact Or.inr ⟨by simpa using refused.1, by simpa using refused.2, rest, rfl, accepted⟩

/-- The entries from here on. -/
def Follows (nmaskbits : Nat) (text : List U8) : Prop :=
  ∃ entry entries trail, Spaces trail ∧ text = Entry.text entry ++ tailText entries ++ trail ∧
    ∀ e ∈ entry :: entries, Taken nmaskbits e.range

theorem follows_of_empty (positive : 0 < nmaskbits) : Follows nmaskbits [] := by
  refine ⟨⟨⟨[], by simp⟩, none, by simp⟩, [], [], by simp [Spaces], rfl, ?_⟩
  simpa [Taken, Entry.range, Numeral.value, evaluate] using positive

/-- Behind an entry that ends there are further entries or nothing. -/
theorem follows_of_closes (small : nmaskbits < 2 ^ 31) {later : List U8} (entry : Entry)
    (text : cstring rest = entry.text ++ cstring later) (pending : Pending read entry.range)
    (closes : Closes (BitVec.ofNat 32 nmaskbits) later read mask out)
    (further : ∀ next mask', later = COMMA :: next →
      parseText (BitVec.ofNat 32 nmaskbits) next (Item.start COMMA read.totaldigits) mask' =
        (none, out) → Follows nmaskbits (cstring next)) : Follows nmaskbits (cstring rest) := by
  obtain ⟨closed, blank | ⟨next, mask', rfl, accepted⟩⟩ := closes
  all_goals have taken := (closeItem_taken small pending mask).mp closed
  · exact ⟨entry, [], cstring later, blank, by simp [text, tailText], by simpa using taken⟩
  have tail : Follows nmaskbits (cstring next) := by
    rcases eq_or_ne next [] with rfl | more
    · -- the comma is the last character: nothing is read behind it
      exact follows_of_empty (Nat.zero_lt_of_lt taken.2)
    · exact further next mask' rfl (accepted more)
  obtain ⟨second, entries, trail, blank, split, all⟩ := tail
  refine ⟨entry, second :: entries, trail, blank, ?_, List.forall_mem_cons.mpr ⟨taken, all⟩⟩
  rw [text, cstring_cons (by decide), split]
  simp [tailText]

/-- What is accepted from the beginning of an entry on is a row of entries. -/
theorem follows_of_accepted (small : nmaskbits < 2 ^ 31) (length : Nat) (rest : List U8)
    (bound : rest.length ≤ length) (c : U8) (td : Nat) (unspaced : isspace c = false)
    (begins : td ≠ 0 ∨ ∀ c ∈ rest.head?, isspace c = false ∧ c ≠ COMMA) (mask : Bitmap)
    (accepted : parseText (BitVec.ofNat 32 nmaskbits) rest (Item.start c td) mask = (none, out)) :
    Follows nmaskbits (cstring rest) := by
  -- behind each comma there is less of the text
  induction length using Nat.strong_induction_on generalizing rest c td mask with
  | _ length ih =>
  obtain ⟨low, later, rfl, stop⟩ := exists_number rest
  rw [parseText_number low unspaced] at accepted
  have pending := pending_start c td low unspaced
  have text : cstring (low.text ++ later) = low.text ++ cstring later :=
    cstring_append low.ne_zero
  have size : low.text.length = low.digits.length := List.length_map _
  rw [List.length_append, size] at bound
  have total : ((Item.start c td).digits low.digits).totaldigits = td + low.digits.length :=
    totaldigits_digits _
  have begins' : td + low.digits.length ≠ 0 ∨
      ∀ c ∈ later.head?, isspace c = false ∧ c ≠ COMMA := by
    rcases eq_or_ne low.digits [] with none | some_
    · rw [none, List.length_nil, Nat.add_zero]
      rwa [Numeral.text, none, List.map_nil, List.nil_append] at begins
    · exact Or.inl (by simp [some_])
  have next (next : List U8) (td : Nat) (more : td ≠ 0) (less : next.length < length)
      (mask' : Bitmap) :=
    ih next.length less next le_rfl COMMA td (by decide) (Or.inl more) mask'
  rcases accepted_number pending.unspaced
    (total ▸ begins'.imp_right fun both c first => (both c first).1) stop accepted
    with closes | ⟨digit, -, dashed, rfl, acceptedHigh⟩
  · refine follows_of_closes small ⟨low, none, by simp⟩ (by simpa [Entry.text] using text) pending
      closes ?_
    rintro behind mask' rfl acceptedNext
    have read := begins'.resolve_right fun both => (both COMMA rfl).2 rfl
    rw [total] at acceptedNext
    rw [List.length_cons] at bound
    exact next behind _ read (by omega) mask' acceptedNext
  · -- the second number of a range
    have some_ : low.digits ≠ [] := by
      intro none
      rw [none] at digit
      cases digit
    obtain ⟨high, later, rfl, stopHigh⟩ := exists_number dashed
    have unspacedDash : isspace ((Item.start c td).digits low.digits).dash.c = false :=
      show isspace DASH = false by decide
    rw [parseText_number high unspacedDash] at acceptedHigh
    have pending' := pending_dash pending high
    have read : (((Item.start c td).digits low.digits).dash.digits high.digits).totaldigits ≠
        0 := by
      have positive := List.length_pos_iff.mpr some_
      have dash : ((Item.start c td).digits low.digits).dash.totaldigits = _ := total
      rw [totaldigits_digits, dash]
      omega
    rcases accepted_number pending'.unspaced (Or.inl read) stopHigh acceptedHigh
      with closes | ⟨-, ranged, -⟩
    · refine follows_of_closes small ⟨low, some high, fun _ => some_⟩ ?_ pending' closes ?_
      · rw [text, cstring_cons (by decide), cstring_append high.ne_zero]
        simp [Entry.text]
      · rintro behind mask' rfl acceptedNext
        rw [List.length_cons, List.length_append, List.length_cons] at bound
        exact next behind _ read (by omega) mask' acceptedNext
    · rw [inRange_digits] at ranged
      cases ranged

end Accepted

/-! ## Strings of the grammar -/

section Grammar

variable {nmaskbits : Nat} {mask out : Bitmap} {rest lead : List U8}

theorem parseText_entry (n : U32) (entry : Entry) {c : U8} (td : Nat)
    (unspaced : isspace c = false) :
    ∃ after, Pending after entry.range ∧ ∀ rest mask,
      parseText n (entry.text ++ rest) (Item.start c td) mask = parseText n rest after mask := by
  obtain ⟨low, high, dashed⟩ := entry
  have pending := pending_start c td low unspaced
  have startUnspaced : isspace (Item.start c td).c = false := unspaced
  cases high with
  | none =>
    refine ⟨_, pending, fun rest mask => ?_⟩
    rw [Entry.text, Option.elim_none, List.append_nil]
    exact parseText_number low startUnspaced
  | some high =>
    have dashUnspaced : isspace ((Item.start c td).digits low.digits).dash.c = false :=
      show isspace DASH = false by decide
    refine ⟨_, pending_dash pending high, fun rest mask => ?_⟩
    rw [Entry.text, Option.elim_some, List.append_assoc, List.cons_append,
      parseText_number low startUnspaced, parseText_dash pending.unspaced,
      expDigit_digits (dashed (by simp)), inRange_digits, if_neg (by simp [Item.start])]
    exact parseText_number high dashUnspaced

theorem tailText_cons (entry : Entry) (entries : List Entry) (rest : List U8) :
    tailText (entry :: entries) ++ rest = COMMA :: (entry.text ++ (tailText entries ++ rest)) := by
  simp [tailText]

theorem parseText_tail (small : nmaskbits < 2 ^ 31) {read : Item} {range : Nat × Nat}
    (pending : Pending read range) (entries : List Entry) (written : ∀ e ∈ entries, e.Written)
    (proper : Proper nmaskbits (range :: entries.map Entry.range)) (blank : Spaces (cstring rest)) :
    parseText (BitVec.ofNat 32 nmaskbits) (tailText entries ++ rest) read mask =
      (none, setRanges mask (range :: entries.map Entry.range)) := by
  induction entries generalizing read range mask with
  | nil =>
    obtain ⟨ordered, inside⟩ := proper range List.mem_cons_self
    exact (parseText_spaces blank).trans (closeItem_pending small pending ordered inside mask)
  | cons entry entries ih =>
    obtain ⟨⟨ordered, inside⟩, properTail⟩ := List.forall_mem_cons.mp proper
    obtain ⟨isWritten, writtenTail⟩ := List.forall_mem_cons.mp written
    obtain ⟨after, pending', reads⟩ := parseText_entry (BitVec.ofNat 32 nmaskbits) entry
      read.totaldigits (show isspace COMMA = false by decide)
    have some_ : entry.text ++ (tailText entries ++ rest) ≠ [] := by
      simp [Entry.text, Numeral.text, isWritten.1]
    rw [tailText_cons, parseText_comma pending.unspaced,
      closeItem_pending small pending ordered inside mask]
    simp only [if_pos some_]
    rw [reads]
    exact ih pending' writtenTail properTail

/-- Entries of a loose list are accepted. -/
theorem parseText_taken (small : nmaskbits < 2 ^ 31) {read : Item} {range : Nat × Nat}
    (pending : Pending read range) (entries : List Entry) (taken : Taken nmaskbits range)
    (all : ∀ e ∈ entries, Taken nmaskbits e.range) (blank : Spaces (cstring rest)) :
    (parseText (BitVec.ofNat 32 nmaskbits) (tailText entries ++ rest) read mask).1 = none := by
  have closes := (closeItem_taken small pending mask).mpr taken
  induction entries generalizing read range mask with
  | nil =>
    rw [show tailText [] ++ rest = rest from rfl, parseText_spaces blank]
    exact closes
  | cons entry entries ih =>
    obtain ⟨first, further⟩ := List.forall_mem_cons.mp all
    obtain ⟨after, pending', reads⟩ := parseText_entry (BitVec.ofNat 32 nmaskbits) entry
      read.totaldigits (show isspace COMMA = false by decide)
    rw [tailText_cons, parseText_comma pending.unspaced]
    rcases closed : closeItem (BitVec.ofNat 32 nmaskbits) read mask with ⟨_ | err, mask'⟩
    · dsimp only
      split_ifs
      · rw [reads]
        exact ih pending' first further ((closeItem_taken small pending' mask').mpr first)
      · rfl
    · rw [closed] at closes
      cases closes

/-- In front of the first number a comma closes an entry without digits. -/
theorem parseText_leadComma (small : nmaskbits < 2 ^ 31) {c : U8} (unspaced : isspace c = false)
    (rest : List U8) (mask : Bitmap) :
    (0 < nmaskbits → ∃ mask', parseText (BitVec.ofNat 32 nmaskbits) (COMMA :: rest)
        (Item.start c 0) mask = if rest ≠ [] then
          parseText (BitVec.ofNat 32 nmaskbits) rest (Item.start COMMA 0) mask'
            else (none, mask')) ∧
      (nmaskbits = 0 → (parseText (BitVec.ofNat 32 nmaskbits) (COMMA :: rest) (Item.start c 0)
        mask).1 ≠ none) := by
  have pending : Pending (Item.start c 0) (0, 0) := ⟨unspaced, rfl, rfl⟩
  have closes := closeItem_taken small pending mask
  have taken : Taken nmaskbits (0, 0) ↔ 0 < nmaskbits := by simp [Taken]
  rw [taken] at closes
  rw [parseText_comma pending.unspaced]
  rcases closed : closeItem (BitVec.ofNat 32 nmaskbits) (Item.start c 0) mask with ⟨_ | err, mask'⟩
  · rw [closed] at closes
    exact ⟨fun _ => ⟨mask', rfl⟩, fun none => absurd (closes.mp rfl) (by omega)⟩
  · rw [closed] at closes
    exact ⟨fun positive => absurd (closes.mpr positive) (by simp), fun _ => by simp⟩

theorem parseText_lead (n : U32) (blank : Spaces lead) :
    parseText n (lead ++ rest) (Item.start 0 0) mask = parseText n rest (Item.start 0 0) mask := by
  induction lead with
  | nil => rfl
  | cons c lead ih =>
    rw [List.cons_append, parseText_unread rfl (blank c List.mem_cons_self)]
    exact ih (List.forall_mem_cons.mp blank).2

/-- What is accepted behind commas and white space in front of the first number. -/
theorem parseText_looseLead (small : nmaskbits < 2 ^ 31) (positive : 0 < nmaskbits)
    (loose : ∀ c ∈ lead, isspace c = true ∨ c = COMMA)
    (accepted : ∀ c mask, isspace c = false →
      (parseText (BitVec.ofNat 32 nmaskbits) rest (Item.start c 0) mask).1 = none)
    {c : U8} (unspaced : isspace c = false) :
    (parseText (BitVec.ofNat 32 nmaskbits) (lead ++ rest) (Item.start c 0) mask).1 = none := by
  induction lead generalizing c mask with
  | nil => exact accepted c mask unspaced
  | cons first lead ih =>
    obtain ⟨space | rfl, further⟩ := List.forall_mem_cons.mp loose
    · rw [List.cons_append, parseText_unread rfl space]
      exact ih further unspaced
    · obtain ⟨mask', computed⟩ := (parseText_leadComma small unspaced _ _).1 positive
      rw [List.cons_append, computed]
      split_ifs
      · exact ih further (by decide)
      · rfl

theorem exists_accepted_of_lead (small : nmaskbits < 2 ^ 31)
    (loose : ∀ c ∈ lead, isspace c = true ∨ c = COMMA) {c : U8} (unspaced : isspace c = false)
    (accepted : parseText (BitVec.ofNat 32 nmaskbits) (lead ++ rest) (Item.start c 0) mask =
      (none, out)) :
    (rest = [] ∧ 0 < nmaskbits) ∨ ∃ c mask, isspace c = false ∧
      parseText (BitVec.ofNat 32 nmaskbits) rest (Item.start c 0) mask = (none, out) := by
  induction lead generalizing c mask with
  | nil => exact Or.inr ⟨c, mask, unspaced, accepted⟩
  | cons first lead ih =>
    obtain ⟨space | rfl, further⟩ := List.forall_mem_cons.mp loose
    · rw [List.cons_append, parseText_unread rfl space] at accepted
      exact ih further unspaced accepted
    · obtain ⟨goesOn, refuses⟩ := parseText_leadComma small unspaced (lead ++ rest) mask
      rw [List.cons_append] at accepted
      rcases Nat.eq_zero_or_pos nmaskbits with zero | positive
      · exact absurd (congrArg Prod.fst accepted) (refuses zero)
      obtain ⟨mask', computed⟩ := goesOn positive
      rw [computed] at accepted
      split_ifs at accepted with more
      · exact ih further (by decide) accepted
      · exact Or.inl ⟨(List.append_eq_nil_iff.mp (not_not.mp more)).2, positive⟩

theorem parselist_eq (buffer : List U8) (nmaskbits : Nat) :
    parselist (buffer.map some) nmaskbits =
      parseText (BitVec.ofNat 32 nmaskbits) buffer (Item.start 0 0) (bitmapZero nmaskbits) := rfl

/-- What stands in front of the first number. -/
theorem exists_looseLead (buffer : List U8) : ∃ lead rest, buffer = lead ++ rest ∧
    (∀ c ∈ lead, isspace c = true ∨ c = COMMA) ∧
      ∀ c ∈ rest.head?, isspace c = false ∧ c ≠ COMMA := by
  let between : U8 → Bool := fun c => isspace c || c == COMMA
  refine ⟨buffer.takeWhile between, buffer.dropWhile between,
    List.takeWhile_append_dropWhile.symm, fun c listed => ?_, fun c listed => ?_⟩
  · have passed : between c = true := List.mem_takeWhile_imp listed
    simpa [between] using passed
  · have stop := List.head?_dropWhile_not between buffer
    rw [Option.mem_def.mp listed] at stop
    simpa [between] using stop

theorem loose_of_accepted (small : nmaskbits < 2 ^ 31) {buffer : List U8}
    (accepted : (parselist (buffer.map some) nmaskbits).1 = none) :
    Loose nmaskbits (cstring buffer) := by
  obtain ⟨lead, rest, rfl, loose, first⟩ := exists_looseLead buffer
  have nonzero : ∀ c ∈ lead, c ≠ 0 := by
    rintro c listed rfl
    exact absurd (loose 0 listed) (by decide)
  rw [parselist_eq] at accepted
  have follows : Follows nmaskbits (cstring rest) := by
    rcases exists_accepted_of_lead small loose (by decide) (Prod.ext accepted rfl) with
      ⟨rfl, positive⟩ | ⟨c, mask, unspaced, accepted⟩
    · exact follows_of_empty positive
    · exact follows_of_accepted small rest.length rest le_rfl c 0 unspaced (Or.inr first) mask
        accepted
  obtain ⟨entry, entries, trail, blank, text, all⟩ := follows
  exact ⟨lead, entry, entries, trail, loose, blank, by rw [cstring_append nonzero, text], all⟩

theorem accepted_of_loose (small : nmaskbits < 2 ^ 31) {buffer : List U8}
    (loose : Loose nmaskbits (cstring buffer)) :
    (parselist (buffer.map some) nmaskbits).1 = none := by
  obtain ⟨lead, entry, entries, trail, loose, blank, text, all⟩ := loose
  obtain ⟨behind, ends, whole⟩ := exists_behind buffer
  obtain ⟨first, further⟩ := List.forall_mem_cons.mp all
  have blank' : Spaces (cstring (trail ++ behind)) := by
    rwa [cstring_append blank.ne_zero, ends, List.append_nil]
  rw [parselist_eq, whole, text, List.append_assoc lead, List.append_assoc, List.append_assoc]
  refine parseText_looseLead small (Nat.zero_lt_of_lt first.2) loose ?_ (by decide)
  intro c mask unspaced
  obtain ⟨after, pending, reads⟩ := parseText_entry (BitVec.ofNat 32 nmaskbits) entry 0 unspaced
  rw [reads]
  exact parseText_taken small pending entries first further blank'

/-- Exactly the loose lists are accepted. -/
theorem parselist_loose_iff (small : nmaskbits < 2 ^ 31) (buffer : List U8) :
    (parselist (buffer.map some) nmaskbits).1 = none ↔ Loose nmaskbits (cstring buffer) :=
  ⟨loose_of_accepted small, accepted_of_loose small⟩

theorem parselist_of_listed (small : nmaskbits < 2 ^ 31) {buffer : List U8} {entry : Entry}
    {entries : List Entry} (listed : Listed (cstring buffer) entry entries)
    (proper : Proper nmaskbits ((entry :: entries).map Entry.range)) :
    ∃ mask, parselist (buffer.map some) nmaskbits = (none, mask) ∧
      ∀ bit, testBit mask bit = true ↔ Covered ((entry :: entries).map Entry.range) bit := by
  obtain ⟨written, lead, trail, blankLead, blankTrail, text⟩ := listed
  obtain ⟨behind, ends, whole⟩ := exists_behind buffer
  have blank : Spaces (cstring (trail ++ behind)) := by
    rwa [cstring_append blankTrail.ne_zero, ends, List.append_nil]
  obtain ⟨after, pending, reads⟩ := parseText_entry (BitVec.ofNat 32 nmaskbits) entry 0
    (show isspace 0 = false by decide)
  refine ⟨setRanges (bitmapZero nmaskbits) ((entry :: entries).map Entry.range), ?_, fun bit => ?_⟩
  · rw [parselist_eq, whole, text, List.append_assoc lead, List.append_assoc, List.append_assoc,
      parseText_lead _ blankLead, reads]
    exact parseText_tail small pending entries (List.forall_mem_cons.mp written).2 proper blank
  · have sized : (bitmapZero nmaskbits).length = bitsToLongs nmaskbits := List.length_replicate
    rw [testBit_setRanges sized proper, testBit_bitmapZero]
    simp

/-- The string is a list of the grammar with ordered ranges and numbers below `nmaskbits`. -/
def InGrammar (nmaskbits : Nat) (string : List U8) : Prop :=
  ∃ entry entries, Listed string entry entries ∧
    Proper nmaskbits ((entry :: entries).map Entry.range)

/-- What `__bitmap_parselist` should do on a buffer: accept just the strings of the grammar, and
set the bits that are listed. -/
structure ParsesGrammar (buffer : List U8) (nmaskbits : Nat) : Prop where
  accepts : (parselist (buffer.map some) nmaskbits).1 = none ↔ InGrammar nmaskbits (cstring buffer)
  bits : ∀ entry entries, Listed (cstring buffer) entry entries →
    Proper nmaskbits ((entry :: entries).map Entry.range) → ∀ bit,
      testBit (parselist (buffer.map some) nmaskbits).2 bit = true ↔
        Covered ((entry :: entries).map Entry.range) bit

/-- `__bitmap_parselist` is right on just the strings of the grammar and on those that are no loose
list either. -/
theorem parselist_grammar (buffer : List U8) (nmaskbits : Nat) (small : nmaskbits < 2 ^ 31) :
    ParsesGrammar buffer nmaskbits ↔
      (Loose nmaskbits (cstring buffer) → InGrammar nmaskbits (cstring buffer)) := by
  rw [← parselist_loose_iff small]
  refine ⟨fun right => right.accepts.mp, fun only =>
    ⟨⟨only, ?_⟩, fun entry entries listed proper => ?_⟩⟩
  · rintro ⟨entry, entries, listed, proper⟩
    obtain ⟨mask, computed, -⟩ := parselist_of_listed small listed proper
    rw [computed]
  · obtain ⟨mask, computed, bits⟩ := parselist_of_listed small listed proper
    rwa [computed]

/-- The list 1-2,5 behind a blank is accepted, and a letter and 1- are refused, for eight bits. -/
theorem parselist_grammar_short : ParsesGrammar [32, 49, 45, 50, 44, 53] 8 ∧
    ParsesGrammar [120] 8 ∧ ParsesGrammar [49, 45] 8 := by
  refine ⟨(parselist_grammar _ 8 (by decide)).mpr fun _ => ?_,
    (parselist_grammar _ 8 (by decide)).mpr fun loose => ?_,
    (parselist_grammar _ 8 (by decide)).mpr fun loose => ?_⟩
  · refine ⟨⟨⟨[1], by decide⟩, some ⟨[2], by decide⟩, by decide⟩,
      [⟨⟨[5], by decide⟩, none, by decide⟩],
      ⟨?_, [32], [], ?_, ?_, by decide⟩, ?_⟩
    · simp [Entry.Written]
    · simp [Spaces]
      decide
    · simp [Spaces]
    · simp [Proper, Entry.range, Numeral.value, evaluate]
  · exact absurd ((parselist_loose_iff (by decide) [120]).mpr loose) (by decide)
  · exact absurd ((parselist_loose_iff (by decide) [49, 45]).mpr loose) (by decide)

/-- The empty string is no list, but it is accepted and sets bit 0. -/
theorem empty_string_accepted :
    parselist [] 1 = (none, [1]) ∧ ¬ ∃ entry entries, Listed (cstring []) entry entries := by
  refine ⟨by decide, ?_⟩
  rintro ⟨entry, entries, written, lead, trail, -, -, text⟩
  have nonempty := (written entry List.mem_cons_self).1
  simp [cstring, Entry.text, Numeral.text, nonempty] at text

end Grammar

end RouterKernel.Bitmaps
