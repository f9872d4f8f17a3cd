import RouterKernel.Bitmaps.ListGrammar

/-!
Contract: bitmaps printed as lists and parsed again.

Owns:
- the printed text as a string of the grammar that is parsed;
- when printing and parsing give the bitmap back.
-/

namespace RouterKernel.Bitmaps

open RouterKernel.Foundation
open RouterKernel.Strings

/-! ## The printed text -/

/-- A number as `%d` prints it. -/
def decimalNumeral (value : Nat) : Numeral where
  digits := padded 10 (max 0 (Nat.log 10 value + 1)) value
  small _ listed := padded_lt (by decide) listed

theorem decimalNumeral_ne_nil (value : Nat) : (decimalNumeral value).digits ≠ [] := by
  rw [decimalNumeral, ne_eq, ← List.length_eq_zero_iff, padded_length]
  omega

theorem decimalNumeral_value (value : Nat) : (decimalNumeral value).value = value := by
  refine evaluate_padded_of_lt ?_
  rw [max_eq_right (Nat.zero_le _)]
  exact Nat.lt_pow_succ_log_self (by decide) value

def printed (range : Nat × Nat) : Entry :=
  ⟨decimalNumeral range.1, if range.1 = range.2 then none else some (decimalNumeral range.2),
    fun _ => decimalNumeral_ne_nil range.1⟩

theorem printed_written (range : Nat × Nat) : (printed range).Written := by
  refine ⟨decimalNumeral_ne_nil range.1, fun high second => ?_⟩
  rw [printed] at second
  split_ifs at second
  · cases second
  · rw [← Option.some.inj second]
    exact decimalNumeral_ne_nil range.2

theorem printed_text (range : Nat × Nat) : (printed range).text = item range.1 range.2 := by
  rw [Entry.text, printed, item]
  split
  · exact List.append_nil _
  · rfl

theorem printed_range (range : Nat × Nat) : (printed range).range = range := by
  obtain ⟨rbot, rtop⟩ := range
  rw [Entry.range, printed]
  by_cases same : rbot = rtop
  · simp [same, decimalNumeral_value]
  · simp [same, decimalNumeral_value]

theorem render_behind (ranges : List (Nat × Nat)) {out : List U8} (some_ : 0 < out.length) :
    render ranges out = out ++ tailText (ranges.map printed) := by
  induction ranges generalizing out with
  | nil => exact (List.append_nil out).symm
  | cons range ranges ih =>
    have step : emitAll range.1 range.2 out = out ++ COMMA :: (printed range).text := by
      rw [emitAll, if_pos some_, printed_text, List.append_assoc]
      rfl
    have longer : 0 < (out ++ COMMA :: (printed range).text).length := by
      rw [List.length_append]
      omega
    have next : render (range :: ranges) out = render ranges (emitAll range.1 range.2 out) := rfl
    rw [next, step, ih longer, List.map_cons, tailText, tailText, List.flatMap_cons,
      List.append_assoc]

theorem render_eq (range : Nat × Nat) (ranges : List (Nat × Nat)) :
    render (range :: ranges) [] = (printed range).text ++ tailText (ranges.map printed) := by
  have first : emitAll range.1 range.2 [] = (printed range).text := by
    rw [printed_text]
    rfl
  have some_ : 0 < (printed range).text.length := by
    have nonempty := (printed_written range).1
    rw [Entry.text, List.length_append, Numeral.text, List.length_map]
    have positive := List.length_pos_iff.mpr nonempty
    omega
  have next : render (range :: ranges) [] = render ranges (emitAll range.1 range.2 []) := rfl
  rw [next, first, render_behind ranges some_]

theorem Numeral.no_newline (number : Numeral) : ∀ c ∈ number.text, c ≠ NEWLINE := by
  intro c listed
  obtain ⟨digit, digitListed, rfl⟩ := List.mem_map.mp listed
  exact (decimal_digit (number.small digit digitListed)).2.2.2.2.1

theorem Entry.no_newline (entry : Entry) : ∀ c ∈ entry.text, c ≠ NEWLINE := by
  obtain ⟨low, high⟩ := entry
  intro c listed
  rcases List.mem_append.mp listed with first | second
  · exact low.no_newline c first
  · cases high with
    | none => cases second
    | some high =>
      rcases List.mem_cons.mp second with same | last
      · exact same ▸ by decide
      · exact high.no_newline c last

theorem render_no_newline (range : Nat × Nat) (ranges : List (Nat × Nat)) :
    (render (range :: ranges) []).takeWhile (· ≠ NEWLINE) = render (range :: ranges) [] := by
  rw [List.takeWhile_eq_self_iff, render_eq]
  intro c listed
  rw [decide_eq_true_eq]
  rcases List.mem_append.mp listed with first | later
  · exact (printed range).no_newline c first
  · obtain ⟨entry, -, inside⟩ := List.mem_flatMap.mp later
    rcases List.mem_cons.mp inside with same | text
    · exact same ▸ by decide
    · exact entry.no_newline c text

theorem parse_render {nmaskbits : Nat} (small : nmaskbits < 2 ^ 31) {ranges : List (Nat × Nat)}
    (proper : Proper nmaskbits ranges) (some : ranges ≠ []) :
    bitmapParselist (render ranges []) nmaskbits =
      (none, setRanges (bitmapZero nmaskbits) ranges) := by
  obtain ⟨range, ranges, rfl⟩ := List.exists_cons_of_ne_nil some
  have same : ((ranges.map printed).map Entry.range) = ranges := by
    rw [List.map_map]
    exact (List.map_congr_left fun range _ => printed_range range).trans (List.map_id ranges)
  obtain ⟨after, pending, reads⟩ :=
    parseText_entry (BitVec.ofNat 32 nmaskbits) (printed range) 0 (show isspace 0 = false by decide)
  rw [printed_range] at pending
  have nothing : Spaces (cstring []) := fun c listed => by cases listed
  have written : ∀ e ∈ ranges.map printed, e.Written := by
    rintro e listed
    obtain ⟨range, -, rfl⟩ := List.mem_map.mp listed
    exact printed_written range
  have tail (mask : Bitmap) :
      parseText (BitVec.ofNat 32 nmaskbits) (tailText (ranges.map printed) ++ []) after mask =
        (none, setRanges mask (range :: (ranges.map printed).map Entry.range)) :=
    parseText_tail small pending (ranges.map printed) written (by rwa [same]) nothing
  rw [List.append_nil, same] at tail
  rw [bitmapParselist, render_no_newline, render_eq]
  exact (reads _ _).trans (tail _)

/-! ## Round trip -/

def ListRoundTrips (buflen : U32) (mask : Bitmap) (nmaskbits : Nat) : Prop :=
  ∃ parsed, bitmapParselist (bitmapScnlistprintf buflen mask nmaskbits) nmaskbits = (none, parsed) ∧
    ∀ bit < nmaskbits, testBit parsed bit = testBit mask bit

/-- What is parsed from an empty text: the first bit, where there is one. -/
theorem parse_nil (nmaskbits : Nat) (small : nmaskbits < 2 ^ 31) : bitmapParselist [] nmaskbits =
      if nmaskbits = 0 then (some .ERANGE, bitmapZero nmaskbits)
      else (none, setBits (bitmapZero nmaskbits) 0 1) := by
  have bits : (BitVec.ofNat 32 nmaskbits).toNat = nmaskbits := by
    rw [BitVec.toNat_ofNat, Nat.mod_eq_of_lt (by omega)]
  have closed : bitmapParselist [] nmaskbits =
      closeItem (BitVec.ofNat 32 nmaskbits) (Item.start 0 0) (bitmapZero nmaskbits) := rfl
  have zero : (Item.start 0 0).a.toNat = 0 ∧ (Item.start 0 0).b.toNat = 0 := ⟨rfl, rfl⟩
  rw [closed, closeItem, zero.1, zero.2, bits, if_neg (not_not.mpr (le_refl 0))]
  by_cases none : nmaskbits = 0
  · rw [if_pos (by omega), if_pos none]
  · rw [if_neg (by omega), if_neg none]

/-- Nothing printed is read back as the first bit alone. -/
theorem parse_nil_bits {nmaskbits : Nat} (small : nmaskbits < 2 ^ 31) (mask : Bitmap) :
    (∃ parsed, bitmapParselist [] nmaskbits = (none, parsed) ∧
        ∀ bit < nmaskbits, testBit parsed bit = testBit mask bit) ↔
      (∃ bit < nmaskbits, testBit mask bit = true) ∧ ∀ bit < nmaskbits, testBit mask bit = true →
        bit = 0 := by
  rw [parse_nil nmaskbits small]
  by_cases none : nmaskbits = 0
  · rw [if_pos none]
    constructor
    · rintro ⟨parsed, parses, -⟩
      cases parses
    · rintro ⟨⟨bit, inside, -⟩, -⟩
      omega
  · rw [if_neg none]
    have bits (bit : Nat) :
        testBit (setBits (bitmapZero nmaskbits) 0 1) bit = decide (bit = 0) := by
      rw [testBit_setBits, testBit_bitmapZero, Bool.or_false]
      · congr 1
        rw [eq_iff_iff]
        omega
      · intro other low high
        rw [bitmapZero, List.length_replicate]
        exact word_inside (by omega)
    constructor
    · rintro ⟨parsed, parses, same⟩
      cases parses
      refine ⟨⟨0, by omega, ?_⟩, ?_⟩
      · rw [← same 0 (by omega), bits, decide_eq_true rfl]
      · intro bit inside set
        rw [← same bit inside, bits, decide_eq_true_eq] at set
        exact set
    · rintro ⟨⟨first, firstInside, firstSet⟩, only⟩
      refine ⟨_, rfl, ?_⟩
      intro bit inside
      rw [bits, Bool.eq_iff_iff, decide_eq_true_eq]
      constructor
      · rintro rfl
        exact only first firstInside firstSet ▸ firstSet
      · exact only bit inside

/-- A bitmap comes back from its list, printed into a buffer large enough for the full
text, exactly when it has a bit set and the size of the buffer is an `int`; printed with
a larger size it comes back only if its first bit is its only one. -/
theorem list_roundTrips_iff {buflen : U32} {mask : Bitmap} {nmaskbits : Nat}
    (small : nmaskbits < 2 ^ 31) (enough : (listText mask nmaskbits).length < buflen.toNat) :
    ListRoundTrips buflen mask nmaskbits ↔ (∃ bit < nmaskbits, testBit mask bit = true) ∧
        (0 ≤ buflen.toInt ∨ ∀ bit < nmaskbits, testBit mask bit = true → bit = 0) := by
  have nonzero : buflen ≠ 0 := by
    rintro rfl
    exact absurd enough (Nat.not_lt_zero _)
  rw [ListRoundTrips, bitmapScnlistprintf, if_neg nonzero]
  by_cases positive : 0 ≤ buflen.toInt
  · have whole : listLoop (bscnlEmit buflen) mask nmaskbits (findNextBit mask nmaskbits 0)
        (findNextBit mask nmaskbits 0) [] = listText mask nmaskbits :=
      listLoop_whole positive mask nmaskbits _ _ [] enough
    simp only [whole, positive, true_or, and_true]
    obtain ⟨ranges, textEq, proper, some_, covered⟩ := listText_ranges mask nmaskbits
    constructor
    · -- an empty bitmap prints nothing, and nothing is read as the first bit
      rintro ⟨parsed, parses, same⟩
      by_contra none
      have emptyRanges : ranges = [] := by
        by_contra present
        obtain ⟨range, listed⟩ := List.exists_mem_of_ne_nil ranges present
        have ordered := (proper range listed).1
        exact none ⟨range.1, (covered range.1).mp ⟨range, listed, le_refl _, ordered⟩⟩
      rw [textEq, emptyRanges] at parses
      exact none ((parse_nil_bits small mask).mp ⟨parsed, parses, same⟩).1
    · intro set
      refine ⟨_, by rw [textEq, parse_render small proper (some_ set)], ?_⟩
      intro bit inside
      have sized : (bitmapZero nmaskbits).length = bitsToLongs nmaskbits := List.length_replicate
      rw [Bool.eq_iff_iff, testBit_setRanges sized proper, covered, testBit_bitmapZero]
      simp [inside]
  · have silent : listLoop (bscnlEmit buflen) mask nmaskbits (findNextBit mask nmaskbits 0)
        (findNextBit mask nmaskbits 0) [] = [] :=
      listLoop_negative (by omega) mask nmaskbits _ _
    simp only [silent, positive, false_or]
    exact parse_nil_bits small mask

/-- Bit 1 of two, in a buffer of 16 bytes. -/
theorem list_roundTrips_iff_twoBits : ListRoundTrips 16 [0b10] 2 := by
  have first : findNextBit [0b10] 2 0 = 1 := by decide
  have second : findNextBit [0b10] 2 (1 + 1) = 2 := by decide
  have text : listText [0b10] 2 = item 1 1 := by
    rw [listText, first, listLoop, dif_pos (by decide)]
    simp only [second, le_refl, true_or, if_true]
    rw [listLoop, dif_neg (by decide)]
    rfl
  have short : (listText [0b10] 2).length < (16 : U32).toNat := by
    rw [text, item, if_pos rfl, decimal, printNumber, List.length_map, padded_length]
    norm_num
    decide
  exact (list_roundTrips_iff (by decide) short).mpr
    ⟨⟨1, by decide, by decide⟩, Or.inl (by decide)⟩

/-- The empty bitmap of one bit comes back as a full one. -/
theorem list_not_roundTrips_empty : ¬ ListRoundTrips 16 [0] 1 := by
  rintro ⟨parsed, parses, same⟩
  have text : bitmapScnlistprintf 16 [0] 1 = [] := by
    have none : findNextBit [0] 1 0 = 1 := by decide
    rw [bitmapScnlistprintf, if_neg (by decide), none, listLoop, dif_neg (by decide)]
  rw [text, parse_nil 1 (by decide), if_neg (by decide)] at parses
  injection parses with _ parsedEq
  have bit := same 0 (by decide)
  rw [← parsedEq] at bit
  revert bit
  decide

end RouterKernel.Bitmaps
