import RouterKernel.Foundation.Fueled
import RouterKernel.Foundation.Gregorian
import RouterKernel.Foundation.Words

/-!
Contract: the calendar conversions `time_to_tm` of `kernel/time/timeconv.c` and `mktime` of
`kernel/time.c`.

Owns:
- both conversions, with `long` and `time_t` of 32 bits;
- that `time_to_tm` ends with the date and the time of day of the Gregorian calendar;
- that `mktime` takes its result back.

Does not own: leap seconds, which neither function knows.
-/

namespace RouterKernel.Calendar

open RouterKernel.Foundation RouterKernel.Foundation.Gregorian

/-! ## Model -/

/-- A `long` after an operation. -/
def long (value : Int) : Int := value.bmod (2 ^ 32)

def isleap (year : Int) : Bool :=
  year.tmod 4 == 0 && (year.tmod 100 != 0 || year.tmod 400 == 0)

def mathDiv (a b : Int) : Int := a.tdiv b - if a.tmod b < 0 then 1 else 0

def leapsBetween (y1 y2 : Int) : Int :=
  let leaps1 := mathDiv (y1 - 1) 4 - mathDiv (y1 - 1) 100 + mathDiv (y1 - 1) 400
  let leaps2 := mathDiv (y2 - 1) 4 - mathDiv (y2 - 1) 100 + mathDiv (y2 - 1) 400
  leaps2 - leaps1

def monYday (leap : Bool) : List Int :=
  if leap then [0, 31, 60, 91, 121, 152, 182, 213, 244, 274, 305, 335, 366]
  else [0, 31, 59, 90, 120, 151, 181, 212, 243, 273, 304, 334, 365]

def SECS_PER_HOUR : Int := 60 * 60
def SECS_PER_DAY : Int := SECS_PER_HOUR * 24

structure Tm where
  sec : Int
  min : Int
  hour : Int
  mday : Int
  mon : Int
  year : Int
  wday : Int
  yday : Int
deriving DecidableEq, Repr

/-- The loops that bring `rem` into a day. -/
def borrowTurn (state : Int × Int) : Outcome (Int × Int) (Int × Int) :=
  let (rem, days) := state
  if rem < 0 then .running (long (rem + SECS_PER_DAY), long (days - 1)) else .halted (rem, days)

def carryTurn (state : Int × Int) : Outcome (Int × Int) (Int × Int) :=
  let (rem, days) := state
  if rem ≥ SECS_PER_DAY then .running (long (rem - SECS_PER_DAY), long (days + 1))
    else .halted (rem, days)

/-- The loop that looks for the year, with the variables `days` and `y`. -/
def yearTurn (state : Int × Int) : Outcome (Int × Int) (Int × Int) :=
  let (days, y) := state
  if days < 0 ∨ days ≥ (if isleap y then 366 else 365) then
    let yg := long (y + mathDiv days 365)
    .running (long (days - ((yg - y) * 365 + leapsBetween y yg)), yg)
  else .halted (days, y)

def lookup (ip : List Int) (y : Int) : Except Fault Int :=
  if y < 0 then .error (.outOfBounds y.natAbs)
  else
    match ip[y.toNat]? with
    | none => .error (.outOfBounds y.toNat)
    | some start => .ok start

def monthTurn (ip : List Int) (days y : Int) : Except Fault (Outcome Int (Int × Int)) := do
  let start ← lookup ip y
  pure (if days < start then .running (y - 1) else .halted (y, days - start))

def timeToTm (totalsecs offset : U32) (fuel : Nat) : Attempt Fault Tm := do
  let days := totalsecs.toInt.tdiv SECS_PER_DAY
  let rem := long (totalsecs.toInt.tmod SECS_PER_DAY + offset.toInt)
  let (rem, days) ← loop (fun _ s => pure (borrowTurn s)) fuel (rem, days)
  let (rem, days) ← loop (fun _ s => pure (carryTurn s)) fuel (rem, days)
  let hour := rem.tdiv SECS_PER_HOUR
  let rem := rem.tmod SECS_PER_HOUR
  let wday := (long (4 + days)).tmod 7
  let (yday, y) ← loop (fun _ s => pure (yearTurn s)) fuel (days, 1970)
  let (mon, rest) ← loop (fun _ y' =>
    (liftM (monthTurn (monYday (isleap y)) yday y') : Attempt Fault _)) fuel 11
  pure
    { sec := rem.tmod 60, min := rem.tdiv 60, hour, mday := rest + 1, mon, year := long (y - 1900),
      wday := if wday < 0 then wday + 7 else wday, yday }

def mktime (year0 mon0 day hour min sec : U32) : U32 :=
  let mon := mon0 - 2
  let (mon, year) := if 0 ≥ mon.toInt then (mon + 12, year0 - 1) else (mon, year0)
  ((((year / 4 - year / 100 + year / 400 + 367 * mon / 12 + day) + year * 365 - 719499) * 24 +
      hour) * 60 +
    min) * 60 + sec

/-! ## Small lemmas -/

theorem long_eq {value : Int} (low : -2 ^ 31 ≤ value) (high : value < 2 ^ 31) :
    long value = value :=
  Int.bmod_eq_of_le (by omega) (by omega)

theorem mathDiv_eq (a : Int) {b : Int} (positive : 0 < b) : mathDiv a b = a / b := by
  unfold mathDiv
  have whole := Int.mul_tdiv_add_tmod a b
  have below := Int.tmod_lt_of_pos a positive
  have above := Int.lt_tmod_of_pos a positive
  symm
  split_ifs with negative
  · rw [Int.ediv_eq_iff_of_pos positive]
    constructor <;> nlinarith
  · rw [Int.ediv_eq_iff_of_pos positive]
    constructor <;> nlinarith

theorem isleap_iff (year : Nat) : isleap year = decide (LeapYear year) := by
  rw [Bool.eq_iff_iff, decide_eq_true_iff]
  unfold isleap LeapYear
  simp only [Int.tmod_eq_emod_of_nonneg (Int.natCast_nonneg year), Bool.and_eq_true,
      Bool.or_eq_true,
    beq_iff_eq, bne_iff_ne]
  omega

theorem yearLength_eq (year : Nat) :
    (if isleap year then 366 else 365 : Int) = yearLength year := by
  rw [isleap_iff, yearLength]
  split_ifs <;> simp_all

/-! ## The loops of `time_to_tm` -/

variable {days rem : Int} {y month year day : Nat}

theorem borrow_returns {total : Int} (totalLow : -2 ^ 31 ≤ total) (totalHigh : total < 2 ^ 31)
    (sum : rem + 86400 * days = total) (low : -2 ^ 31 ≤ rem) (high : rem < 2 ^ 31) :
    Returns (fun fuel => loop (fun _ s => (pure (borrowTurn s) : Attempt Fault _)) fuel (rem, days))
      fun result => result.1 + 86400 * result.2 = total ∧ 0 ≤ result.1 ∧ result.1 < 2 ^ 31 := by
  apply Returns.loop
    (fun s => s.1 + 86400 * s.2 = total ∧ -2 ^ 31 ≤ s.1 ∧ s.1 < 2 ^ 31) (fun s => (-s.1).toNat)
  · rintro ⟨rem, days⟩ ⟨sum, low, high⟩
    refine Returns.pure ?_
    unfold borrowTurn SECS_PER_DAY SECS_PER_HOUR
    dsimp only at sum low high ⊢
    split_ifs with negative
    · rw [long_eq (by omega) (by omega), long_eq (by omega) (by omega)]
      refine ⟨⟨?_, ?_, ?_⟩, ?_⟩ <;> dsimp only <;> omega
    · exact ⟨sum, by omega, high⟩
  · exact ⟨sum, low, high⟩

theorem carry_returns {total : Int} (totalLow : -2 ^ 31 ≤ total) (totalHigh : total < 2 ^ 31)
    (sum : rem + 86400 * days = total) (low : 0 ≤ rem) (high : rem < 2 ^ 31) :
    Returns (fun fuel => loop (fun _ s => (pure (carryTurn s) : Attempt Fault _)) fuel (rem, days))
      fun result => result.1 + 86400 * result.2 = total ∧ 0 ≤ result.1 ∧ result.1 < 86400 := by
  apply Returns.loop
    (fun s => s.1 + 86400 * s.2 = total ∧ 0 ≤ s.1 ∧ s.1 < 2 ^ 31) (fun s => s.1.toNat)
  · rintro ⟨rem, days⟩ ⟨sum, low, high⟩
    refine Returns.pure ?_
    unfold carryTurn SECS_PER_DAY SECS_PER_HOUR
    dsimp only at sum low high ⊢
    split_ifs with more
    · rw [long_eq (by omega) (by omega), long_eq (by omega) (by omega)]
      refine ⟨⟨?_, ?_, ?_⟩, ?_⟩ <;> dsimp only <;> omega
    · exact ⟨sum, by omega, by dsimp only; omega⟩
  · exact ⟨sum, low, high⟩

theorem leapsBetween_eq (y1 y2 : Int) : leapsBetween y1 y2 =
    ((y2 - 1) / 4 - (y2 - 1) / 100 + (y2 - 1) / 400) -
    ((y1 - 1) / 4 - (y1 - 1) / 100 + (y1 - 1) / 400) := by
  unfold leapsBetween
  simp only [mathDiv_eq _ (show (0 : Int) < 4 by decide),
      mathDiv_eq _ (show (0 : Int) < 100 by decide),
    mathDiv_eq _ (show (0 : Int) < 400 by decide)]

/-- A day `days` days behind the begin of the year `y`. -/
structure Located (days0 days : Int) (y : Nat) : Prop where
  low : 1890 ≤ y
  high : y ≤ 2050
  same : (daysBeforeYear y : Int) + days = daysBeforeYear 1970 + days0

theorem daysBeforeYear_int (year : Nat) : (daysBeforeYear year : Int) =
    365 * year + (((year : Int) - 1) / 4 - ((year : Int) - 1) / 100 + ((year : Int) - 1) / 400) +
      1 := by
  have := daysBeforeYear_eq year
  omega

/-- A turn that goes on jumps to the year that 365 days a year would give. -/
theorem yearTurn_running {next : Nat} (outside : days < 0 ∨ days ≥ yearLength y)
    (goal : (next : Int) = y + days / 365) (goalSmall : next ≤ 2050) (low : -30000 ≤ days)
    (high : days ≤ 30000) :
    yearTurn (days, y) = .running ((daysBeforeYear y : Int) + days - daysBeforeYear next,
      next) := by
  have guess : long (y + mathDiv days 365) = next := by
    rw [mathDiv_eq _ (by decide), ← goal]
    exact long_eq (by omega) (by omega)
  unfold yearTurn
  dsimp only
  rw [yearLength_eq, if_pos outside, guess, leapsBetween_eq]
  congr 2
  rw [daysBeforeYear_int, daysBeforeYear_int, long_eq (by omega) (by omega)]
  ring

theorem yearTurn_halted (low : 0 ≤ days) (high : days < yearLength y) :
    yearTurn (days, y) = .halted (days, y) := by
  unfold yearTurn
  dsimp only
  rw [yearLength_eq, if_neg (by omega)]

def Searched (days0 : Int) (result : Int × Int) : Prop :=
  ∃ year : Nat, result.2 = year ∧ 0 ≤ result.1 ∧ result.1 < yearLength year ∧
    Located days0 result.1 year

theorem yearLength_bounds (year : Nat) : 365 ≤ yearLength year ∧ yearLength year ≤ 366 := by
  unfold yearLength
  split_ifs <;> omega

theorem daysBeforeYear_succ (year : Nat) :
    daysBeforeYear (year + 1) = daysBeforeYear year + yearLength year := rfl

theorem year_near {days0 : Int} (located : Located days0 days y) (low : -30 ≤ days)
    (high : days ≤ 400)
    (notFirst : 1900 ≤ y) (notLast : y ≤ 2040) :
    Returns (fun fuel =>
        loop (fun _ s => (liftM (.ok (yearTurn s) : Except Fault _) : Attempt Fault _))
      fuel (days, (y : Int))) (Searched days0) := by
  have length := yearLength_bounds y
  have same := located.same
  rcases lt_or_ge days 0 with negative | nonnegative
  · obtain ⟨before, rfl⟩ : ∃ before, y = before + 1 := ⟨y - 1, by omega⟩
    have beforeLength := yearLength_bounds before
    have outside : days < 0 ∨ days ≥ yearLength (before + 1) := .inl negative
    have guess : (before : Int) = (before + 1 : Nat) + days / 365 := by omega
    have turn := yearTurn_running outside guess (by omega) (by omega) (by omega)
    rw [daysBeforeYear_succ] at turn same
    refine Returns.loop_running (congrArg Except.ok turn) ?_
    refine Returns.loop_halted (congrArg Except.ok (yearTurn_halted (by omega) (by omega)))
      ⟨before, rfl, by dsimp only; omega, by dsimp only; omega, by omega, by omega, by omega⟩
  rcases lt_or_ge days (yearLength y) with inside | beyond
  · exact Returns.loop_halted (congrArg Except.ok (yearTurn_halted nonnegative inside))
      ⟨y, rfl, nonnegative, inside, located⟩
  · have afterLength := yearLength_bounds (y + 1)
    have outside : days < 0 ∨ days ≥ yearLength y := .inr beyond
    have guess : ((y + 1 : Nat) : Int) = y + days / 365 := by omega
    have turn := yearTurn_running outside guess (by omega) (by omega) (by omega)
    rw [daysBeforeYear_succ] at turn
    refine Returns.loop_running (congrArg Except.ok turn) ?_
    refine Returns.loop_halted (congrArg Except.ok (yearTurn_halted (by omega) (by omega)))
      ⟨y + 1, rfl, by dsimp only; omega, by dsimp only; omega, by omega, by omega, ?_⟩
    rw [daysBeforeYear_succ]
    omega

theorem daysBeforeYear_1970 : (daysBeforeYear 1970 : Int) = 719528 := by
  have := daysBeforeYear_eq 1970
  omega

theorem year_returns {days0 : Int} (low : -24900 ≤ days0) (high : days0 ≤ 24900) :
    Returns (fun fuel => loop (fun _ s => (pure (yearTurn s) : Attempt Fault _)) fuel (days0, 1970))
      (Searched days0) := by
  change Returns (fun fuel =>
      loop (fun _ s => (liftM (.ok (yearTurn s) : Except Fault _) : Attempt Fault _))
      fuel (days0, ((1970 : Nat) : Int))) (Searched days0)
  have length := yearLength_bounds 1970
  have start : Located days0 days0 1970 := ⟨by omega, by omega, rfl⟩
  by_cases near : -30 ≤ days0 ∧ days0 ≤ 400
  · exact year_near start near.1 near.2 (by omega) (by omega)
  · obtain ⟨next, guess⟩ : ∃ next : Nat, (next : Int) = (1970 : Nat) + days0 / 365 :=
      ⟨(1970 + days0 / 365).toNat, by omega⟩
    have outside : days0 < 0 ∨ days0 ≥ yearLength 1970 := by omega
    have turn := yearTurn_running outside guess (by omega) (by omega) (by omega)
    refine Returns.loop_running (congrArg Except.ok turn) ?_
    have nextStart := daysBeforeYear_int next
    rw [daysBeforeYear_1970]
    refine year_near ⟨by omega, by omega, ?_⟩ (by omega) (by omega) (by omega) (by omega)
    rw [daysBeforeYear_1970]
    omega

theorem lookup_month (year : Nat) (small : month ≤ 12) :
    lookup (monYday (isleap year)) month = .ok (daysBeforeMonth year month : Int) := by
  rw [isleap_iff]
  by_cases leap : LeapYear year <;> interval_cases month <;> simp [lookup, monYday, daysBeforeMonth,
    monthLength, leap]

def Placed (year : Nat) (yday : Int) (result : Int × Int) : Prop :=
  ∃ month : Nat, result.1 = month ∧ month ≤ 11 ∧ result.2 = yday - daysBeforeMonth year month ∧
    0 ≤ result.2 ∧ result.2 < monthLength year month

theorem month_returns (year : Nat) {yday : Int} (nonnegative : 0 ≤ yday) (small : month ≤ 11)
    (before : yday < daysBeforeMonth year (month + 1)) :
    Returns (fun fuel =>
        loop (fun _ y => (liftM (monthTurn (monYday (isleap year)) yday y) : Attempt Fault _))
      fuel (month : Int)) (Placed year yday) := by
  induction month with
  | zero =>
    have turn : monthTurn (monYday (isleap year)) yday (0 : Nat) = .ok (.halted (0, yday - 0)) := by
      rw [monthTurn, lookup_month year (by omega)]
      exact congrArg Except.ok (if_neg (by simp [daysBeforeMonth]; omega))
    refine Returns.loop_halted turn ⟨0, rfl, by omega, by simp [daysBeforeMonth], by omega, ?_⟩
    simpa [daysBeforeMonth] using before
  | succ month ih =>
    by_cases earlier : yday < daysBeforeMonth year (month + 1)
    · have turn : monthTurn (monYday (isleap year)) yday (month + 1 : Nat) =
          .ok (.running ((month + 1 : Nat) - 1)) := by
        rw [monthTurn, lookup_month year (by omega)]
        exact congrArg Except.ok (if_pos earlier)
      refine Returns.loop_running turn ?_
      rw [Nat.cast_succ, add_sub_cancel_right]
      exact ih (by omega) earlier
    · have turn : monthTurn (monYday (isleap year)) yday (month + 1 : Nat) =
          .ok (.halted ((month + 1 : Nat), yday - daysBeforeMonth year (month + 1))) := by
        rw [monthTurn, lookup_month year (by omega)]
        exact congrArg Except.ok (if_neg earlier)
      rw [daysBeforeMonth] at before
      refine Returns.loop_halted turn ⟨month + 1, rfl, small, rfl, by dsimp only; omega, ?_⟩
      dsimp only
      push_cast at before
      omega

/-! ## `mktime` -/

theorem ofInt_sub (x y : Int) :
    BitVec.ofInt 32 (x - y) = BitVec.ofInt 32 x - BitVec.ofInt 32 y := by
  have whole : BitVec.ofInt 32 (x - y + y) = _ := BitVec.ofInt_add (x - y) y
  rw [Int.sub_add_cancel] at whole
  rw [whole, BitVec.add_sub_cancel]

theorem ofNat_div {n k : Nat} (small : n < 2 ^ 32) (smallK : k < 2 ^ 32) :
    BitVec.ofNat 32 n / BitVec.ofNat 32 k = BitVec.ofNat 32 (n / k) := by
  apply BitVec.eq_of_toNat_eq
  rw [BitVec.toNat_udiv, BitVec.toNat_ofNat, BitVec.toNat_ofNat, BitVec.toNat_ofNat,
      Nat.mod_eq_of_lt small,
    Nat.mod_eq_of_lt smallK, Nat.mod_eq_of_lt (Nat.lt_of_le_of_lt (Nat.div_le_self n k) small)]

theorem mktime_formula {mon hour min sec : Nat} (yearSmall : year < 2 ^ 20) (monSmall : mon ≤ 12) :
    ((((BitVec.ofNat 32 year / 4 - BitVec.ofNat 32 year / 100 + BitVec.ofNat 32 year / 400 +
      367 * BitVec.ofNat 32 mon / 12 + BitVec.ofNat 32 day) + BitVec.ofNat 32 year * 365 - 719499) *
        24 +
      BitVec.ofNat 32 hour) * 60 + BitVec.ofNat 32 min) * 60 + BitVec.ofNat 32 sec =
    BitVec.ofInt 32
        (((((year / 4 : Nat) - (year / 100 : Nat) + (year / 400 : Nat) + (367 * mon / 12 : Nat) +
          day +
      year * 365 - 719499 : Int) * 24 + hour) * 60 + min) * 60 + sec) := by
  have scaled : (367 : U32) * BitVec.ofNat 32 mon = BitVec.ofNat 32 (367 * mon) :=
    (BitVec.ofNat_mul ..).symm
  have quotient : BitVec.ofNat 32 (367 * mon) / 12 = BitVec.ofNat 32 (367 * mon / 12) :=
    ofNat_div (by omega) (by decide)
  have fourth : BitVec.ofNat 32 year / 4 = BitVec.ofNat 32 (year / 4) :=
    ofNat_div (by omega) (by decide)
  have hundredth : BitVec.ofNat 32 year / 100 = BitVec.ofNat 32 (year / 100) :=
    ofNat_div (by omega) (by decide)
  have last : BitVec.ofNat 32 year / 400 = BitVec.ofNat 32 (year / 400) :=
    ofNat_div (by omega) (by decide)
  rw [scaled, quotient, fourth, hundredth, last]
  simp only [BitVec.ofInt_add, BitVec.ofInt_mul, ofInt_sub, BitVec.ofInt_natCast,
      BitVec.ofInt_ofNat,
    BitVec.ofNat_eq_ofNat]

/-- Years up to the leap day of the year before, and up to their own. -/
theorem daysBeforeYear_march (positive : 1 ≤ year) :
    (daysBeforeYear year + (year - 1) / 100 = 365 * (year - 1) + (year - 1) / 4 + (year - 1) / 400 +
      366) ∧
    daysBeforeYear year + yearLength year + year / 100 =
      365 * year + year / 4 + year / 400 + 366 := by
  have start := daysBeforeYear_eq year
  have next := daysBeforeYear_eq (year + 1)
  rw [daysBeforeYear_succ] at next
  constructor
  · clear next
    omega
  · clear start
    omega

theorem mktime_days (positive : 1 ≤ year) (small : month ≤ 11) (first : 1 ≤ day) : if month ≤ 1 then
      (((year - 1) / 4 : Nat) - ((year - 1) / 100 : Nat) + ((year - 1) / 400 : Nat) +
        (367 * (month + 11) / 12 : Nat) + day + (year - 1 : Nat) * 365 - 719499 : Int) =
        (dayNumber year month day : Int) - 719528
    else ((year / 4 : Nat) - (year / 100 : Nat) + (year / 400 : Nat) +
        (367 * (month - 1) / 12 : Nat) + day +
      year * 365 - 719499 : Int) = (dayNumber year month day : Int) - 719528 := by
  obtain ⟨early, late⟩ := daysBeforeYear_march positive
  generalize (year - 1) / 4 = a at *
  generalize (year - 1) / 100 = b at *
  generalize (year - 1) / 400 = c at *
  generalize year / 4 = a' at *
  generalize year / 100 = b' at *
  generalize year / 400 = c' at *
  unfold dayNumber
  unfold yearLength at late
  by_cases leap : LeapYear year
  · rw [if_pos leap] at late
    interval_cases month <;> simp only [daysBeforeMonth, monthLength,
      if_pos leap] <;> norm_num <;> omega
  · rw [if_neg leap] at late
    interval_cases month <;> simp only [daysBeforeMonth, monthLength,
      if_neg leap] <;> norm_num <;> omega

theorem mktime_eq (hour min sec : Nat) (positive : 1 ≤ year) (yearSmall : year < 2 ^ 20)
    (small : month ≤ 11)
    (first : 1 ≤ day) :
    mktime (BitVec.ofNat 32 year) (BitVec.ofNat 32 (month + 1)) (BitVec.ofNat 32 day)
        (BitVec.ofNat 32 hour)
      (BitVec.ofNat 32 min) (BitVec.ofNat 32 sec) =
    BitVec.ofInt 32 (((((dayNumber year month day : Int) - 719528) * 24 + hour) * 60 + min) * 60 +
      sec) := by
  have days := mktime_days positive small first
  unfold mktime
  dsimp only
  by_cases early : month ≤ 1
  · rw [if_pos early] at days
    have shifted : BitVec.ofNat 32 (month + 1) - 2 + 12 = BitVec.ofNat 32 (month + 11) := by
      interval_cases month <;> decide
    have before : BitVec.ofNat 32 year - 1 = BitVec.ofNat 32 (year - 1) := by
      obtain ⟨last, rfl⟩ := Nat.exists_eq_add_of_le' positive
      rw [BitVec.ofNat_add]
      exact BitVec.add_sub_cancel _ _
    have wraps : 0 ≥ (BitVec.ofNat 32 (month + 1) - 2).toInt := by interval_cases month <;> decide
    rw [if_pos wraps, shifted, before, mktime_formula (by omega) (by omega), days]
  · rw [if_neg early] at days
    have shifted : BitVec.ofNat 32 (month + 1) - 2 = BitVec.ofNat 32 (month - 1) := by
      interval_cases month <;> decide
    have stays : ¬ 0 ≥ (BitVec.ofNat 32 (month + 1) - 2).toInt := by interval_cases month <;> decide
    rw [if_neg stays, shifted, mktime_formula yearSmall (by omega), days]

/-! ## The conversions are inverse -/

/-- The fields are those of a date of the Gregorian calendar and of a time of day. -/
structure InRange (tm : Tm) (year month day hour min sec : Nat) : Prop where
  yearIs : tm.year + 1900 = year
  monIs : tm.mon = month
  mdayIs : tm.mday = day
  hourIs : tm.hour = hour
  minIs : tm.min = min
  secIs : tm.sec = sec
  monSmall : month ≤ 11
  mdayFirst : 1 ≤ day
  mdayLast : day ≤ monthLength year month
  hourSmall : hour ≤ 23
  minSmall : min ≤ 59
  secSmall : sec ≤ 59
  yday : tm.yday = (daysBeforeMonth year month + (day - 1) : Nat)
  wday : tm.wday = weekday year month day

theorem tmod_between (total : Int) : (0 ≤ total → 0 ≤ total.tmod 86400 ∧ total.tmod 86400 ≤ total) ∧
    (total ≤ 0 → total ≤ total.tmod 86400 ∧ total.tmod 86400 ≤ 0) := by
  constructor
  · intro nonnegative
    rw [Int.tmod_eq_emod_of_nonneg nonnegative]
    omega
  · intro nonpositive
    have opposite : total.tmod 86400 = -((-total).tmod 86400) := by rw [← Int.neg_tmod, Int.neg_neg]
    rw [opposite, Int.tmod_eq_emod_of_nonneg (by omega)]
    omega

theorem wday_eq (days : Int) : (if days.tmod 7 < 0 then days.tmod 7 + 7 else days.tmod 7) =
    days % 7 := by
  have whole := Int.mul_tdiv_add_tmod days 7
  have below := Int.tmod_lt_of_pos days (show (0 : Int) < 7 by decide)
  have above := Int.lt_tmod_of_pos days (show (0 : Int) < 7 by decide)
  split_ifs <;> omega

theorem inRange_of_found {mon rest yday : Int} (remLow : 0 ≤ rem) (remHigh : rem < 86400)
    (located : Located days yday year) (placed : Placed year yday (mon, rest)) :
    ∃ month day hour min sec : Nat, InRange
        { sec := (rem.tmod SECS_PER_HOUR).tmod 60, min := (rem.tmod SECS_PER_HOUR).tdiv 60,
          hour := rem.tdiv SECS_PER_HOUR, mday := rest + 1, mon, year := long (year - 1900),
          wday := (4 + days) % 7, yday } year month day hour min sec ∧
      (dayNumber year month day : Int) = 719528 + days ∧ (((hour : Int) * 60) + min) * 60 + sec =
        rem := by
  obtain ⟨month, monIs, monSmall, restIs, restLow, restHigh⟩ := placed
  dsimp only at monIs restIs restLow restHigh
  have same := located.same
  have small := located.high
  rw [daysBeforeYear_1970] at same
  have number : (dayNumber year month (rest.toNat + 1) : Int) = 719528 + days := by
    unfold dayNumber
    omega
  unfold SECS_PER_HOUR
  rw [Int.tmod_eq_emod_of_nonneg remLow, Int.tdiv_eq_ediv_of_nonneg remLow,
    Int.tmod_eq_emod_of_nonneg (by omega), Int.tdiv_eq_ediv_of_nonneg (by omega),
      long_eq (by omega) (by omega)]
  refine ⟨month, rest.toNat + 1, (rem / (60 * 60)).toNat, (rem % (60 * 60) / 60).toNat,
    (rem % (60 * 60) % 60).toNat, ?_, number, by omega⟩
  constructor
  case wday =>
    dsimp only
    unfold weekday
    omega
  all_goals first | omega | (dsimp only; omega)

/-- `time_to_tm` ends with a date and a time of day, and `mktime` takes them back to the
seconds. -/
theorem timeToTm_inverse (totalsecs offset : U32)
    (low : -2 ^ 31 ≤ totalsecs.toInt + offset.toInt)
    (high : totalsecs.toInt + offset.toInt < 2 ^ 31) :
    Returns (timeToTm totalsecs offset) fun tm =>
      (∃ year month day hour min sec, InRange tm year month day hour min sec) ∧
      mktime (BitVec.ofInt 32 (tm.year + 1900)) (BitVec.ofInt 32 (tm.mon + 1))
          (BitVec.ofInt 32 tm.mday)
          (BitVec.ofInt 32 tm.hour) (BitVec.ofInt 32 tm.min) (BitVec.ofInt 32 tm.sec) =
        BitVec.ofInt 32 (totalsecs.toInt + offset.toInt) := by
  have whole := Int.mul_tdiv_add_tmod totalsecs.toInt 86400
  have below := Int.tmod_lt_of_pos totalsecs.toInt (show (0 : Int) < 86400 by decide)
  have above := Int.lt_tmod_of_pos totalsecs.toInt (show (0 : Int) < 86400 by decide)
  obtain ⟨nonnegative, nonpositive⟩ := tmod_between totalsecs.toInt
  have offsetHigh : 2 * offset.toInt < 2 ^ 32 := BitVec.two_mul_toInt_lt
  have offsetLow : -2 ^ 32 ≤ 2 * offset.toInt := BitVec.le_two_mul_toInt
  have seconds : SECS_PER_DAY = 86400 := rfl
  unfold timeToTm
  simp only [seconds]
  rw [long_eq (by omega) (by omega)]
  refine Returns.bind (borrow_returns low high (by omega) (by omega) (by omega)) ?_
  rintro ⟨rem, days⟩ ⟨sum, remLow, remHigh⟩
  refine Returns.bind (carry_returns low high sum remLow remHigh) ?_
  rintro ⟨rem, days⟩ ⟨sum, remLow, remHigh⟩
  dsimp only at sum remLow remHigh
  refine Returns.bind (year_returns (by omega) (by omega)) ?_
  rintro ⟨yday, y⟩ ⟨year, rfl, ydayLow, ydayHigh, located⟩
  have before : yday < daysBeforeMonth year (11 + 1) := by
    rw [daysBeforeMonth_twelve]
    exact ydayHigh
  refine Returns.bind (month_returns year ydayLow le_rfl before) ?_
  rintro ⟨mon, rest⟩ placed
  refine Returns.pure ?_
  obtain ⟨month, day, hour, min, sec, inRange, number, clock⟩ :=
    inRange_of_found remLow remHigh located placed
  have weekdays := wday_eq (4 + days)
  simp only [long_eq (show -2 ^ 31 ≤ 4 + days by omega) (show 4 + days < 2 ^ 31 by omega), weekdays]
  refine ⟨⟨year, month, day, hour, min, sec, inRange⟩, ?_⟩
  have yearIs := inRange.yearIs
  have hourIs := inRange.hourIs
  have minIs := inRange.minIs
  have secIs := inRange.secIs
  have mdayIs := inRange.mdayIs
  have monIs : mon + 1 = (month + 1 : Nat) := by
    have := inRange.monIs
    dsimp only at this
    omega
  dsimp only at yearIs hourIs minIs secIs mdayIs
  have yearLow := located.low
  have yearHigh := located.high
  rw [yearIs, monIs, mdayIs, hourIs, minIs, secIs]
  simp only [BitVec.ofInt_natCast]
  rw [mktime_eq hour min sec (by omega) (by omega) inRange.monSmall inRange.mdayFirst, number]
  congr 1
  omega

/-- One second before the epoch, by an offset of an hour. -/
theorem timeToTm_inverse_beforeEpoch : Returns (timeToTm 3599 (BitVec.ofInt 32 (-3600))) fun tm =>
    ∃ year month day hour min sec, InRange tm year month day hour min sec :=
  (timeToTm_inverse 3599 (BitVec.ofInt 32 (-3600)) (by decide) (by decide)).mono fun _ post =>
    post.1

end RouterKernel.Calendar
