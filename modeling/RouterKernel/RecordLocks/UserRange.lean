import RouterKernel.RecordLocks.PosixLock

/-!
Contract: the two user formats of record locks in fs/locks.c, on a 32-bit kernel.

Owns:
- `flock_to_posix_lock` and `flock64_to_posix_lock`, which differ in the type of `start` and
  `end` only;
- the range that a request denotes, and the requests that both functions read as that range.

Does not own: the locks themselves (`RecordLocks.PosixLock`).
-/

namespace RouterKernel.RecordLocks

def EOVERFLOW : Int := 75

/-- The value of an expression of the 32-bit type `off_t`. -/
def offT (value : Int) : Int := value.bmod (2 ^ 32)

/-- The fields of `struct flock` and `struct flock64` that the kernel reads. -/
structure UserLock where
  lType : Int
  lWhence : Int
  lStart : Int
  lLen : Int
  deriving DecidableEq, Repr

structure UserLock.InBoth (l : UserLock) : Prop where
  start : -2 ^ 31 ≤ l.lStart ∧ l.lStart < 2 ^ 31
  len : -2 ^ 31 ≤ l.lLen ∧ l.lLen < 2 ^ 31

/-- The open file: its position `f_pos` and the size of its inode. -/
structure OpenFile where
  fPos : Int
  iSize : Int
  deriving DecidableEq, Repr

/-- Both are of the type `loff_t`. -/
structure OpenFile.Typed (filp : OpenFile) : Prop where
  pos : -2 ^ 63 ≤ filp.fPos ∧ filp.fPos < 2 ^ 63
  size : -2 ^ 63 ≤ filp.iSize ∧ filp.iSize < 2 ^ 63

/-- The fields of `struct file_lock` that a conversion sets from the request. -/
structure LockRange where
  flType : LockType
  flStart : Int
  flEnd : Int
  deriving DecidableEq, Repr

/-- What `l_whence` counts from. -/
def whenceBase (filp : OpenFile) (whence : Int) : Except Int Int :=
  if whence = 0 then .ok 0
  else if whence = 1 then .ok filp.fPos
  else if whence = 2 then .ok filp.iSize
  else .error (-EINVAL)

/-- The types `F_RDLCK`, `F_WRLCK` and `F_UNLCK`. -/
def assignType (type : Int) : Except Int LockType :=
  if type = 0 then .ok .rdlck
  else if type = 1 then .ok .wrlck
  else if type = 2 then .ok .unlck
  else .error (-EINVAL)

/-- The end of a conversion, from the test of `fl_end` on. -/
def closeRange (l : UserLock) (start stop : Int) : Except Int LockRange :=
  if stop < start then .error (-EOVERFLOW)
  else match assignType l.lType with
    | .error code => .error code
    | .ok type => .ok ⟨type, start, stop⟩

/-- A conversion that computes in a type with the values `wrap`. -/
def toPosixLock (wrap : Int → Int) (filp : OpenFile) (l : UserLock) : Except Int LockRange :=
  match whenceBase filp l.lWhence with
  | .error code => .error code
  | .ok base =>
    let start := wrap (wrap base + l.lStart)
    if start < 0 then .error (-EINVAL)
    else if l.lLen > 0 then closeRange l start (wrap (start + l.lLen - 1))
    else if l.lLen < 0 then
      let stop := wrap (start - 1)
      let start := wrap (start + l.lLen)
      if start < 0 then .error (-EINVAL) else closeRange l start stop
    else closeRange l start OFFSET_MAX

def flockToPosixLock (filp : OpenFile) (l : UserLock) : Except Int LockRange :=
  toPosixLock offT filp l

def flock64ToPosixLock (filp : OpenFile) (l : UserLock) : Except Int LockRange :=
  toPosixLock loff filp l

/-! ## What a conversion accepts -/

/-- The first and the last byte that a start and a length denote. -/
def extent (start len : Int) : Int × Int :=
  if len > 0 then (start, start + len - 1) else if len < 0 then (start + len, start - 1)
    else (start, OFFSET_MAX)

/-- A type of the values from `-half` to `half - 1`. -/
structure Wraps (wrap : Int → Int) (half : Int) : Prop where
  bounds : ∀ value, -half ≤ wrap value ∧ wrap value < half
  inside : ∀ value, -half ≤ value → value < half → wrap value = value
  above : ∀ value, half ≤ value → value < 2 * half → wrap value = value - 2 * half
  again : ∀ value other, wrap (wrap value + other) = wrap (value + other)

theorem wraps_bmod (bits : Nat) : Wraps (fun value => value.bmod (2 ^ (bits + 1))) (2 ^ bits) := by
  have size : ((2 ^ (bits + 1) : Nat) : Int) = 2 * 2 ^ bits := by
    push_cast
    ring
  have positive : 0 < 2 ^ (bits + 1) := Nat.two_pow_pos _
  constructor
  · intro value
    have low := Int.le_bmod (x := value) positive
    have high := Int.bmod_lt (x := value) positive
    omega
  · intro value low high
    exact Int.bmod_eq_of_le_mul_two (by omega) (by omega)
  · intro value low high
    have turned := Int.add_mul_bmod_self_left value (2 ^ (bits + 1)) (-1)
    rw [← turned, Int.bmod_eq_of_le_mul_two (by omega) (by omega)]
    omega
  · intro value other
    exact Int.bmod_add_bmod

theorem wraps_offT : Wraps offT (2 ^ 31) := wraps_bmod 31

theorem wraps_loff : Wraps loff (2 ^ 63) := wraps_bmod 63

/-- The start in that type and the length give a range of that type. -/
def Accepts (half start len : Int) : Prop :=
  0 ≤ start ∧ (0 < len → start + len ≤ half) ∧ (len < 0 → 0 ≤ start + len)

section Accepted

variable {wrap : Int → Int} {half : Int} {filp : OpenFile} {l : UserLock} {base : Int}
  {type : LockType}

theorem closeRange_ok (typed : assignType l.lType = .ok type) {start stop : Int}
    (ordered : start ≤ stop) :
    closeRange l start stop = .ok ⟨type, start, stop⟩ := by
  rw [closeRange, if_neg (by omega), typed]

/-- A conversion accepts the ranges of its type, and reads them as what they denote. -/
theorem toPosixLock_accepts (wraps : Wraps wrap half) (small : half ≤ 2 ^ 63)
    (counted : whenceBase filp l.lWhence = .ok base) (typed : assignType l.lType = .ok type)
    (len : -half ≤ l.lLen ∧ l.lLen < half)
    (accepts : Accepts half (wrap (base + l.lStart)) l.lLen) :
    toPosixLock wrap filp l = .ok ⟨type, (extent (wrap (base + l.lStart)) l.lLen).1,
      (extent (wrap (base + l.lStart)) l.lLen).2⟩ := by
  obtain ⟨proper, forward, backward⟩ := accepts
  have bounds := wraps.bounds (base + l.lStart)
  rw [toPosixLock, counted]
  dsimp only
  rw [wraps.again base l.lStart]
  generalize wrap (base + l.lStart) = start at *
  rw [if_neg (by omega), extent]
  by_cases positive : l.lLen > 0
  · rw [if_pos positive, if_pos positive,
      wraps.inside _ (by omega) (by have := forward positive; omega)]
    exact closeRange_ok typed (by omega)
  · rw [if_neg positive, if_neg positive]
    by_cases negative : l.lLen < 0
    · have reached := backward negative
      rw [if_pos negative, if_pos negative, wraps.inside (start - 1) (by omega) (by omega),
        wraps.inside (start + l.lLen) (by omega) (by omega), if_neg (by omega)]
      exact closeRange_ok typed (by omega)
    · rw [if_neg negative, if_neg negative]
      exact closeRange_ok typed (by unfold OFFSET_MAX; omega)

theorem toPosixLock_refuses (wraps : Wraps wrap half)
    (counted : whenceBase filp l.lWhence = .ok base)
    (len : -half ≤ l.lLen ∧ l.lLen < half)
    (refused : ¬ Accepts half (wrap (base + l.lStart)) l.lLen) :
    ∃ code, toPosixLock wrap filp l = .error code := by
  have bounds := wraps.bounds (base + l.lStart)
  rw [toPosixLock, counted]
  dsimp only
  rw [wraps.again base l.lStart]
  unfold Accepts at refused
  generalize wrap (base + l.lStart) = start at *
  by_cases below : start < 0
  · exact ⟨_, if_pos below⟩
  rw [if_neg below]
  by_cases positive : l.lLen > 0
  · have beyond : half ≤ start + l.lLen - 1 := by omega
    rw [if_pos positive, wraps.above _ beyond (by omega), closeRange, if_pos (by omega)]
    exact ⟨_, rfl⟩
  · have negative : l.lLen < 0 := by omega
    rw [if_neg positive, if_pos negative, wraps.inside (start + l.lLen) (by omega) (by omega),
      if_pos (by omega)]
    exact ⟨_, rfl⟩

theorem toPosixLock_ok_iff (wraps : Wraps wrap half) (small : half ≤ 2 ^ 63)
    (counted : whenceBase filp l.lWhence = .ok base) (typed : assignType l.lType = .ok type)
    (len : -half ≤ l.lLen ∧ l.lLen < half) (range : LockRange) :
    toPosixLock wrap filp l = .ok range ↔ Accepts half (wrap (base + l.lStart)) l.lLen ∧
      ⟨type, (extent (wrap (base + l.lStart)) l.lLen).1,
        (extent (wrap (base + l.lStart)) l.lLen).2⟩ = range := by
  by_cases accepts : Accepts half (wrap (base + l.lStart)) l.lLen
  · rw [toPosixLock_accepts wraps small counted typed len accepts, Except.ok.injEq]
    exact (and_iff_right accepts).symm
  · obtain ⟨code, refused⟩ := toPosixLock_refuses wraps counted len accepts
    rw [refused]
    constructor
    · intro ok
      cases ok
    · rintro ⟨accepted, _⟩
      exact absurd accepted accepts

end Accepted

/-! ## When both formats denote the same ranges -/

def InFile (start len : Int) : Prop :=
  0 ≤ (extent start len).1 ∧ (extent start len).1 ≤ (extent start len).2 ∧ (extent start len).2 ≤
    OFFSET_MAX

/-- Both conversions read a request as one range, and accept it if the range lies in the file. -/
structure ReadAlike (filp : OpenFile) (l : UserLock) : Prop where
  same : ∀ range, flockToPosixLock filp l = .ok range ↔ flock64ToPosixLock filp l = .ok range
  exact : (∃ range, flock64ToPosixLock filp l = .ok range) ↔ ∃ base,
      whenceBase filp l.lWhence = .ok base ∧
    InFile (base + l.lStart) l.lLen

/-- The start and the end are values of `off_t`. -/
def Short (start len : Int) : Prop := 0 ≤ start ∧ start < 2 ^ 31 ∧ (0 < len → start + len ≤ 2 ^ 31)

/-- The range leaves the file, and so does the one that `loff_t` makes of it. -/
def OutOfFile (start len : Int) : Prop :=
  (-2 ^ 63 ≤ start ∧ start < 0) ∨ (start < -2 ^ 63 ∧ 0 < len ∧ -2 ^ 63 < start + len) ∨
    (0 ≤ start ∧ (start + len < 0 ∨ 2 ^ 63 < start + len)) ∨ 2 ^ 63 < start ∨
    (start = 2 ^ 63 ∧ 0 ≤ len)

/-- The range that `off_t` makes of a start is none. -/
def ShortRefuses (start len : Int) : Prop :=
  2 ^ 31 ≤ start % 2 ^ 32 ∨ (0 < len ∧ 2 ^ 31 < start % 2 ^ 32 + len) ∨
    (len < 0 ∧ start % 2 ^ 32 + len < 0)

theorem inFile_iff (start len : Int) :
    InFile start len ↔ 0 ≤ start ∧ (0 < len → start + len ≤ 2 ^ 63) ∧
        (len < 0 → 0 ≤ start + len ∧ start ≤ 2 ^ 63) ∧
      (len = 0 → start < 2 ^ 63) := by
  unfold InFile extent OFFSET_MAX
  split
  · omega
  · split <;> omega

theorem extent_inj {start other len : Int} (same : (extent start len).1 = (extent other len).1) :
    start = other := by
  unfold extent at same
  split_ifs at same <;> simp only at same <;> omega

theorem offT_cases (value : Int) : (value % 2 ^ 32 < 2 ^ 31 ∧ offT value = value % 2 ^ 32) ∨
      (2 ^ 31 ≤ value % 2 ^ 32 ∧ offT value = value % 2 ^ 32 - 2 ^ 32) := by
  have bounds := wraps_offT.bounds value
  have same : offT value % 2 ^ 32 = value % 2 ^ 32 := Int.bmod_emod
  omega

theorem loff_cases (value : Int) (low : -2 ^ 64 ≤ value) (high : value < 2 ^ 64) :
    (-2 ^ 63 ≤ value ∧ value < 2 ^ 63 ∧ loff value = value) ∨
    (2 ^ 63 ≤ value ∧ loff value = value - 2 ^ 64) ∨
      (value < -2 ^ 63 ∧ loff value = value + 2 ^ 64) := by
  have bounds := wraps_loff.bounds value
  have same : loff value % 2 ^ 64 = value % 2 ^ 64 := Int.bmod_emod
  omega

section Arithmetic

variable {start len : Int}

theorem accepts_offT_iff : Accepts (2 ^ 31) (offT start) len ↔ ¬ ShortRefuses start len := by
  unfold Accepts ShortRefuses
  rcases offT_cases start with ⟨low, value⟩ | ⟨high, value⟩ <;> rw [value] <;> omega

theorem outOfFile_iff (sum : -2 ^ 63 - 2 ^ 31 ≤ start ∧ start < 2 ^ 63 + 2 ^ 31)
    (bounds : -2 ^ 31 ≤ len ∧ len < 2 ^ 31) :
    OutOfFile start len ↔ ¬ Accepts (2 ^ 63) (loff start) len ∧ ¬ InFile start len := by
  rw [inFile_iff]
  unfold Accepts OutOfFile
  rcases loff_cases start (by omega) (by omega) with ⟨low, high, value⟩ | ⟨high, value⟩ |
    ⟨low, value⟩
  all_goals
    rw [value]
    omega

theorem Short.exact (short : Short start len) : offT start = start ∧ loff start = start ∧
    (Accepts (2 ^ 31) start len ↔ Accepts (2 ^ 63) start len) ∧
    (Accepts (2 ^ 63) start len ↔ InFile start len) := by
  obtain ⟨low, high, reach⟩ := short
  refine ⟨wraps_offT.inside start (by omega) high, wraps_loff.inside start (by omega) (by omega),
    ?_, ?_⟩
  · unfold Accepts
    omega
  · rw [inFile_iff]
    unfold Accepts
    omega

theorem short_of_accepts (accepts : Accepts (2 ^ 31) (offT start) len)
    (same : offT start = loff start)
    (inside : InFile start len) (sum : start < 2 ^ 63 + 2 ^ 31) : Short start len := by
  rw [inFile_iff] at inside
  have bounds := wraps_offT.bounds start
  have exact : loff start = start := by
    rcases loff_cases start (by omega) (by omega) with ⟨_, _, value⟩ | ⟨high, value⟩ | ⟨low, value⟩
    · exact value
    · rw [← same] at value
      omega
    · omega
  rw [same, exact] at accepts
  obtain ⟨low, forward, _⟩ := accepts
  exact ⟨low, by omega, forward⟩

end Arithmetic

section Alike

variable {filp : OpenFile} {l : UserLock} {base : Int}

theorem whenceBase_bounds (typed : filp.Typed) (counted : whenceBase filp l.lWhence = .ok base) :
    -2 ^ 63 ≤ base ∧ base < 2 ^ 63 := by
  unfold whenceBase at counted
  split_ifs at counted with fromStart fromHere fromEnd
  · cases counted
    norm_num
  · cases counted
    exact typed.pos
  · cases counted
    exact typed.size

/-- The conversions agree if both refuse, or both accept and have found the same start. -/
theorem readAlike_iff_accepts (fits : l.InBoth) (valid : ∃ type, assignType l.lType = .ok type)
    (counted : whenceBase filp l.lWhence = .ok base) :
    ReadAlike filp l ↔
      (Accepts (2 ^ 31) (offT (base + l.lStart)) l.lLen ↔
        Accepts (2 ^ 63) (loff (base + l.lStart)) l.lLen) ∧
      (Accepts (2 ^ 63) (loff (base + l.lStart)) l.lLen → offT (base + l.lStart) =
        loff (base + l.lStart)) ∧
      (Accepts (2 ^ 63) (loff (base + l.lStart)) l.lLen ↔ InFile (base + l.lStart) l.lLen) := by
  obtain ⟨type, assigned⟩ := valid
  have wideLen : -2 ^ 63 ≤ l.lLen ∧ l.lLen < 2 ^ 63 := by
    have := fits.len
    omega
  have short := toPosixLock_ok_iff wraps_offT (by norm_num) counted assigned fits.len
  have wide := toPosixLock_ok_iff wraps_loff le_rfl counted assigned wideLen
  have inFile : (∃ from', whenceBase filp l.lWhence = .ok from' ∧
      InFile (from' + l.lStart) l.lLen) ↔
      InFile (base + l.lStart) l.lLen := by
    constructor
    · rintro ⟨from', found, inside⟩
      rw [counted] at found
      cases found
      exact inside
    · exact fun inside => ⟨base, counted, inside⟩
  constructor
  · rintro ⟨same, exact⟩
    simp only [flockToPosixLock, flock64ToPosixLock, short, wide] at same exact
    refine ⟨⟨fun accepts => ((same _).mp ⟨accepts, rfl⟩).1, fun accepts =>
      ((same _).mpr ⟨accepts, rfl⟩).1⟩, ?_, ?_⟩
    · intro accepts
      obtain ⟨_, read⟩ := (same _).mpr ⟨accepts, rfl⟩
      exact extent_inj (congrArg LockRange.flStart read)
    · rw [← inFile, ← exact]
      exact ⟨fun accepts => ⟨_, accepts, rfl⟩, fun ⟨_, accepts, _⟩ => accepts⟩
  · rintro ⟨both, start, exact⟩
    refine ⟨fun range => ?_, ?_⟩
    · simp only [flockToPosixLock, flock64ToPosixLock, short, wide, both]
      refine and_congr_right fun accepts => ?_
      rw [start accepts]
    · simp only [flock64ToPosixLock, wide, inFile, ← exact]
      exact ⟨fun ⟨_, accepts, _⟩ => accepts, fun accepts => ⟨_, accepts, rfl⟩⟩

end Alike

/-- The formats denote the same ranges for short ranges, and for ranges out of the file that
stay so in 32 bits. -/
theorem readAlike_iff {filp : OpenFile} {l : UserLock} (typed : filp.Typed) (fits : l.InBoth)
    (valid : ∃ type, assignType l.lType = .ok type) :
    ReadAlike filp l ↔ ∀ base, whenceBase filp l.lWhence = .ok base →
        Short (base + l.lStart) l.lLen ∨
        (OutOfFile (base + l.lStart) l.lLen ∧ ShortRefuses (base + l.lStart) l.lLen) := by
  cases counted : whenceBase filp l.lWhence with
  | error code =>
    constructor
    · intro _ base found
      cases found
    · intro _
      constructor
      · intro range
        simp [flockToPosixLock, flock64ToPosixLock, toPosixLock, counted]
      · simp [flock64ToPosixLock, toPosixLock, counted]
  | ok base =>
    have bounds := whenceBase_bounds typed counted
    have startBounds := fits.start
    have lenBounds := fits.len
    have sumBounds : -2 ^ 63 - 2 ^ 31 ≤ base + l.lStart ∧ base + l.lStart < 2 ^ 63 + 2 ^ 31 := by
      omega
    have alike := readAlike_iff_accepts fits valid counted
    simp only [Except.ok.injEq, forall_eq']
    rw [alike]
    generalize base + l.lStart = start at *
    constructor
    · rintro ⟨both, same, exact⟩
      by_cases accepts : Accepts (2 ^ 63) (loff start) l.lLen
      · exact Or.inl
          (short_of_accepts (both.mpr accepts) (same accepts) (exact.mp accepts) sumBounds.2)
      · refine Or.inr ⟨(outOfFile_iff sumBounds lenBounds).mpr ⟨accepts, fun inside =>
          accepts (exact.mpr inside)⟩, ?_⟩
        exact not_not.mp fun refuses => accepts (both.mp (accepts_offT_iff.mpr refuses))
    · rintro (short | ⟨outside, refuses⟩)
      · obtain ⟨offTExact, loffExact, both, exact⟩ := short.exact
        rw [offTExact, loffExact]
        exact ⟨both, fun _ => rfl, exact⟩
      · obtain ⟨wide, notInside⟩ := (outOfFile_iff sumBounds lenBounds).mp outside
        have narrow := mt accepts_offT_iff.mp (not_not.mpr refuses)
        exact ⟨iff_of_false narrow wide, fun accepts => absurd accepts wide,
          iff_of_false wide notInside⟩

/-- Sixteen bytes in front of a position, counted backwards. -/
theorem readAlike_iff_backwards : (∃ type, assignType 1 = .ok type) ∧
    ReadAlike ⟨2 ^ 20, 0⟩ ⟨1, 1, -16, -16⟩ := by
  have valid : ∃ type, assignType 1 = .ok type := ⟨.wrlck, rfl⟩
  refine ⟨valid, (readAlike_iff ⟨by norm_num, by norm_num⟩ ⟨by norm_num, by norm_num⟩ valid).mpr ?_⟩
  intro base counted
  cases counted
  exact Or.inl (by norm_num [Short])

/-- At the position of 4 GiB the narrow format locks the first byte of the file. -/
theorem narrow_format_locks_elsewhere :
    flockToPosixLock ⟨2 ^ 32, 0⟩ ⟨1, 1, 0, 1⟩ = .ok ⟨.wrlck, 0, 0⟩ ∧
      flock64ToPosixLock ⟨2 ^ 32, 0⟩ ⟨1, 1, 0, 1⟩ = .ok ⟨.wrlck, 2 ^ 32, 2 ^ 32⟩ ∧
      ¬ ReadAlike ⟨2 ^ 32, 0⟩ ⟨1, 1, 0, 1⟩ := by
  have narrow : flockToPosixLock ⟨2 ^ 32, 0⟩ ⟨1, 1, 0, 1⟩ = .ok ⟨.wrlck, 0, 0⟩ := by decide
  have wide : flock64ToPosixLock ⟨2 ^ 32, 0⟩ ⟨1, 1, 0, 1⟩ = .ok ⟨.wrlck, 2 ^ 32, 2 ^ 32⟩ := by
    decide
  refine ⟨narrow, wide, fun alike => ?_⟩
  have same := (alike.same _).mp narrow
  rw [wide] at same
  cases same

end RouterKernel.RecordLocks
