import RouterKernel.Foundation.Words

/-!
Contract: the conversions of kernel/time.c between jiffies and seconds.

Owns:
- the scaled constants of include/linux/jiffies.h for `HZ = 1000`;
- `jiffies_to_timeval`, `timeval_to_jiffies` and the same for `struct timespec`;
- what comes back from the round trips.
-/

namespace RouterKernel.Timers

def NSEC_PER_SEC : Nat := 1000000000
def NSEC_PER_USEC : Nat := 1000
def TICK_NSEC : Nat := 1000000
def SHIFT_HZ : Nat := 10

/-- `(LONG_MAX >> 1) - 1`. -/
def MAX_JIFFY_OFFSET : Nat := ((2 ^ 31 - 1) >>> 1) - 1

/-- One bit more where the leading bit of the rough cut is not set. -/
def SEC_JIFFIE_SC : Nat :=
  if (((NSEC_PER_SEC <<< 2) / TICK_NSEC) <<< (31 - SHIFT_HZ - 2)) &&& 0x80000000 = 0
    then 32 - SHIFT_HZ
  else 31 - SHIFT_HZ

def USEC_JIFFIE_SC : Nat := SEC_JIFFIE_SC + 19
def SEC_CONVERSION : Nat := ((NSEC_PER_SEC <<< SEC_JIFFIE_SC) + TICK_NSEC - 1) / TICK_NSEC
def USEC_CONVERSION : Nat := ((NSEC_PER_USEC <<< USEC_JIFFIE_SC) + TICK_NSEC - 1) / TICK_NSEC
def USEC_ROUND : Nat := (1 <<< USEC_JIFFIE_SC) - 1
def MAX_SEC_IN_JIFFIES : Nat := MAX_JIFFY_OFFSET * TICK_NSEC / NSEC_PER_SEC

/-- `struct timeval`, both members as 32-bit words. -/
structure Timeval where
  tvSec : Nat
  tvUsec : Nat
deriving DecidableEq, Repr

def jiffiesToTimeval (jiffies : Nat) : Timeval :=
  let nsec := jiffies * TICK_NSEC % 2 ^ 64
  let rem := nsec % NSEC_PER_SEC
  ⟨nsec / NSEC_PER_SEC % 2 ^ 32, rem / NSEC_PER_USEC⟩

/-- A `long` as `u64`. -/
def longToU64 (word : Nat) : Nat := if word < 2 ^ 31 then word else word + (2 ^ 64 - 2 ^ 32)

/-- The two products, scaled down. -/
def scaledJiffies (sec usec : Nat) : Nat :=
  let seconds := sec * SEC_CONVERSION % 2 ^ 64
  let rounded := (longToU64 usec * USEC_CONVERSION + USEC_ROUND) % 2 ^ 64
  (seconds + rounded / 2 ^ (USEC_JIFFIE_SC - SEC_JIFFIE_SC)) % 2 ^ 64 / 2 ^ SEC_JIFFIE_SC % 2 ^ 32

def timevalToJiffies (value : Timeval) : Nat :=
  if MAX_SEC_IN_JIFFIES ≤ value.tvSec then scaledJiffies MAX_SEC_IN_JIFFIES 0
  else scaledJiffies value.tvSec value.tvUsec

/-! ## The constants -/

theorem maxJiffyOffset_eq : MAX_JIFFY_OFFSET = 1073741822 := by decide

theorem secJiffieSc_eq : SEC_JIFFIE_SC = 22 := by decide

theorem usecJiffieSc_eq : USEC_JIFFIE_SC = 41 := by rw [USEC_JIFFIE_SC, secJiffieSc_eq]

theorem secConversion_eq : SEC_CONVERSION = 4194304000 := by
  simp [SEC_CONVERSION, secJiffieSc_eq, NSEC_PER_SEC, TICK_NSEC]

theorem usecConversion_eq : USEC_CONVERSION = 2199023256 := by
  simp [USEC_CONVERSION, usecJiffieSc_eq, NSEC_PER_USEC, TICK_NSEC]

theorem usecRound_eq : USEC_ROUND = 2199023255551 := by simp [USEC_ROUND, usecJiffieSc_eq]

theorem maxSecInJiffies_eq : MAX_SEC_IN_JIFFIES = 1073741 := by
  simp [MAX_SEC_IN_JIFFIES, maxJiffyOffset_eq, TICK_NSEC, NSEC_PER_SEC]

/-! ## The round trip -/

theorem jiffiesToTimeval_eq {jiffies : Nat} (bounded : jiffies ≤ MAX_JIFFY_OFFSET) :
    jiffiesToTimeval jiffies = ⟨jiffies / 1000, jiffies % 1000 * 1000⟩ := by
  rw [maxJiffyOffset_eq] at bounded
  have nsec : jiffies * 1000000 % 2 ^ 64 = jiffies * 1000000 := Nat.mod_eq_of_lt (by omega)
  have whole : jiffies * 1000000 / 1000000000 = jiffies / 1000 := by omega
  have small : jiffies / 1000 % 2 ^ 32 = jiffies / 1000 := Nat.mod_eq_of_lt (by omega)
  have part : jiffies * 1000000 % 1000000000 / 1000 = jiffies % 1000 * 1000 := by omega
  simp only [jiffiesToTimeval, TICK_NSEC, NSEC_PER_SEC, NSEC_PER_USEC, nsec, whole, small, part]

/-- `USEC_CONVERSION` is rounded up, so the product passes the next tick once `USEC_ROUND` is
added. -/
theorem rounded_msec {msec : Nat} (part : msec < 1000) :
    (msec * 1000 * 2199023256 + 2199023255551) / 2 ^ 19 = if msec = 0 then 4194303
      else (msec + 1) * 4194304 := by
  split_ifs <;> omega

/-- Whole ticks that are not whole seconds come out one tick late. -/
theorem scaledJiffies_eq {sec msec : Nat} (bounded : sec ≤ 1073741) (part : msec < 1000) :
    scaledJiffies sec (msec * 1000) = sec * 1000 + if msec = 0 then 0 else msec + 1 := by
  have onSecond : (sec * 4194304000 + 4194303) / 2 ^ 22 = sec * 1000 + 0 := by omega
  have offSecond : (sec * 4194304000 + (msec + 1) * 4194304) / 2 ^ 22 = sec * 1000 + (msec + 1) :=
    by omega
  have usec : longToU64 (msec * 1000) = msec * 1000 := if_pos (by omega)
  have seconds : sec * 4194304000 % 2 ^ 64 = sec * 4194304000 := Nat.mod_eq_of_lt (by omega)
  have rounded : (msec * 1000 * 2199023256 + 2199023255551) % 2 ^ 64 =
      msec * 1000 * 2199023256 + 2199023255551 :=
    Nat.mod_eq_of_lt (by omega)
  simp only [scaledJiffies, secJiffieSc_eq, usecJiffieSc_eq, secConversion_eq, usecConversion_eq,
      usecRound_eq, usec,
    seconds, rounded, Nat.reduceSub, rounded_msec part]
  have fits (ticks : Nat) (small : ticks < 2 ^ 54) :
      ticks % 2 ^ 64 / 2 ^ 22 % 2 ^ 32 = ticks / 2 ^ 22 := by
    rw [Nat.mod_eq_of_lt (show ticks < 2 ^ 64 by omega)]
    exact Nat.mod_eq_of_lt (by omega)
  split_ifs
  · exact (fits _ (by omega)).trans onSecond
  · exact (fits _ (by omega)).trans offSecond

/-- Exactly the whole seconds come back. -/
theorem timevalToJiffies_jiffiesToTimeval_iff {jiffies : Nat}
    (bounded : jiffies ≤ MAX_JIFFY_OFFSET) :
    timevalToJiffies (jiffiesToTimeval jiffies) = jiffies ↔ 1000 ∣ jiffies := by
  rw [jiffiesToTimeval_eq bounded, timevalToJiffies, maxSecInJiffies_eq]
  rw [maxJiffyOffset_eq] at bounded
  by_cases far : 1073741 ≤ jiffies / 1000
  · have capped := scaledJiffies_eq (le_refl 1073741) (show 0 < 1000 by decide)
    rw [Nat.zero_mul, if_pos rfl] at capped
    rw [if_pos far, capped]
    omega
  · have near : jiffies / 1000 ≤ 1073741 := by omega
    rw [if_neg far, scaledJiffies_eq near (Nat.mod_lt _ (by decide))]
    split_ifs <;> omega

theorem timevalToJiffies_jiffiesToTimeval_iff_minute :
    timevalToJiffies (jiffiesToTimeval 60000) = 60000 :=
  (timevalToJiffies_jiffiesToTimeval_iff (by rw [maxJiffyOffset_eq]; decide)).mpr (by decide)

theorem one_tick_comes_back_as_two : timevalToJiffies (jiffiesToTimeval 1) = 2 := by
  rw [jiffiesToTimeval_eq (by rw [maxJiffyOffset_eq]; decide), timevalToJiffies, maxSecInJiffies_eq]
  exact scaledJiffies_eq (Nat.zero_le _) (show 1 < 1000 by decide)

/-! ## `struct timespec` -/

def NSEC_JIFFIE_SC : Nat := SEC_JIFFIE_SC + 29
def NSEC_CONVERSION : Nat := ((1 <<< NSEC_JIFFIE_SC) + TICK_NSEC - 1) / TICK_NSEC

structure Timespec where
  tvSec : Nat
  tvNsec : Nat
deriving DecidableEq, Repr

def jiffiesToTimespec (jiffies : Nat) : Timespec :=
  let nsec := jiffies * TICK_NSEC % 2 ^ 64
  ⟨nsec / NSEC_PER_SEC % 2 ^ 32, nsec % NSEC_PER_SEC⟩

/-- The same two products, with nanoseconds. -/
def scaledTicks (sec nsec : Nat) : Nat :=
  let scaled := longToU64 nsec * NSEC_CONVERSION % 2 ^ 64
  (sec * SEC_CONVERSION % 2 ^ 64 + scaled / 2 ^ (NSEC_JIFFIE_SC - SEC_JIFFIE_SC)) % 2 ^ 64 /
    2 ^ SEC_JIFFIE_SC % 2 ^ 32

def timespecToJiffies (value : Timespec) : Nat :=
  if MAX_SEC_IN_JIFFIES ≤ value.tvSec then scaledTicks MAX_SEC_IN_JIFFIES 0
  else scaledTicks value.tvSec ((value.tvNsec + TICK_NSEC - 1) % 2 ^ 32)

theorem nsecConversion_eq : NSEC_CONVERSION = 2251799814 := by
  simp [NSEC_CONVERSION, NSEC_JIFFIE_SC, secJiffieSc_eq, TICK_NSEC]

/-- `NSEC_CONVERSION` is rounded up by too little to show. -/
theorem scaledTicks_eq {sec nsec : Nat} (bounded : sec ≤ 1073741) (small : nsec < 1001000000) :
    scaledTicks sec nsec = sec * 1000 + nsec / 1000000 := by
  have shift : NSEC_JIFFIE_SC - SEC_JIFFIE_SC = 29 := Nat.add_sub_cancel_left _ _
  have scaled : (sec * 4194304000 + nsec * 2251799814 / 2 ^ 29) / 2 ^ 22 =
    sec * 1000 + nsec / 1000000 := by omega
  simp only [scaledTicks, shift]
  simp only [secConversion_eq, nsecConversion_eq, secJiffieSc_eq]
  rw [longToU64, if_pos (by omega), Nat.mod_eq_of_lt (show sec * 4194304000 < 2 ^ 64 by omega),
    Nat.mod_eq_of_lt (show nsec * 2251799814 < 2 ^ 64 by omega),
      Nat.mod_eq_of_lt (show _ < 2 ^ 64 by omega), scaled]
  exact Nat.mod_eq_of_lt (by omega)

theorem timespecToJiffies_eq {sec nsec : Nat} (normal : nsec < 1000000000) :
    timespecToJiffies ⟨sec, nsec⟩ =
    if 1073741 ≤ sec then 1073741000 else sec * 1000 + (nsec + 999999) / 1000000 := by
  have rounded : (nsec + 1000000 - 1) % 2 ^ 32 = nsec + 999999 := by omega
  simp only [timespecToJiffies, maxSecInJiffies_eq, TICK_NSEC, rounded]
  by_cases far : 1073741 ≤ sec
  · rw [if_pos far, if_pos far, scaledTicks_eq le_rfl (by decide)]
  · rw [if_neg far, if_neg far, scaledTicks_eq (by omega) (by omega)]

/-- Seconds and nanoseconds are rounded up to whole ticks, and jiffies survive the round trip up to
the last second. -/
theorem timespecToJiffies_exact :
    (∀ sec < MAX_SEC_IN_JIFFIES, ∀ nsec < NSEC_PER_SEC, timespecToJiffies ⟨sec, nsec⟩ =
      (sec * NSEC_PER_SEC + nsec + TICK_NSEC - 1) / TICK_NSEC) ∧
    ∀ jiffies ≤ MAX_JIFFY_OFFSET, timespecToJiffies (jiffiesToTimespec jiffies) = jiffies ↔
      jiffies ≤ MAX_SEC_IN_JIFFIES * 1000 := by
  simp only [maxSecInJiffies_eq, maxJiffyOffset_eq, NSEC_PER_SEC, TICK_NSEC]
  constructor
  · intro sec small nsec normal
    rw [timespecToJiffies_eq normal, if_neg (by omega)]
    omega
  · intro jiffies bounded
    have whole : jiffies * 1000000 % 2 ^ 64 = jiffies * 1000000 := Nat.mod_eq_of_lt (by omega)
    simp only [jiffiesToTimespec, NSEC_PER_SEC, TICK_NSEC, whole]
    rw [timespecToJiffies_eq (Nat.mod_lt _ (by decide)),
      Nat.mod_eq_of_lt (show _ < 2 ^ 32 by omega)]
    split_ifs <;> omega

end RouterKernel.Timers
