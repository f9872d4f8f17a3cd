import RouterKernel.Foundation.ByteMemory
import RouterKernel.Foundation.Checked
import RouterKernel.Translation.Sequence
import Mathlib.Logic.Relation

/-!
Contract: the three walks over the options of a TCP header.

Owns:
- `tcp_options` and `tcp_sack` of connection tracking, and `tcp_find_option` of the TCP match;
- the positions at which each looks for an option;
- the option areas in which each reads only bytes of the area.

Does not own: how the area is taken from the packet.  The functions stop when the area is walked
through, so that they are total here.
-/

namespace RouterKernel.Tracking

open Foundation
open Translation (after)

def TCPOPT_WINDOW : Nat := 3
def TCPOPT_SACK_PERM : Nat := 4
def TCPOPT_TIMESTAMP : Nat := 8
def TCPOLEN_WINDOW : Nat := 3
def TCPOLEN_SACK_PERM : Nat := 2
def TCPOLEN_TIMESTAMP : Nat := 10
def TCPOLEN_TSTAMP_ALIGNED : Nat := 12
def TCPOLEN_SACK_BASE : Nat := 2
def IP_CT_TCP_FLAG_WINDOW_SCALE : U8 := 0x01
def IP_CT_TCP_FLAG_SACK_PERM : U8 := 0x02

/-! ## Connection tracking -/

/-- The loop that `tcp_options` and `tcp_sack` share.  `handle` gets the opcode and size of a whole
option and the position behind them; it either returns from the function (`inl`) or goes on
(`inr`). -/
def walkOptions {σ : Type} (area : Bytes) (handle : Nat → Nat → Nat → σ → Except Fault (σ ⊕ σ))
    (ptr length : Nat) (state : σ) : Except Fault σ :=
  if _done : length = 0 then .ok state
  else
    match load 1 area ptr with
    | .error fault => .error fault
    | .ok opcode =>
      if opcode = TCPOPT_EOL then .ok state
      else if opcode = TCPOPT_NOP then walkOptions area handle (ptr + 1) (length - 1) state
      else
        match load 1 area (ptr + 1) with
        | .error fault => .error fault
        | .ok opsize =>
          -- "silly options"
          if _silly : opsize < 2 then .ok state
          -- don't parse partial options
          else if opsize > length then .ok state
          else
            match handle opcode opsize (ptr + 2) state with
            | .error fault => .error fault
            | .ok (.inl state) => .ok state
            | .ok (.inr state) => walkOptions area handle (ptr + opsize) (length - opsize) state
termination_by length

/-- What `tcp_options` sets in `struct ip_ct_tcp_state`. -/
structure TcpSeen where
  tdScale : Nat
  flags : U8
deriving DecidableEq, Repr

def tcpOption (area : Bytes) (opcode opsize ptr : Nat) (state : TcpSeen) :
    Except Fault (TcpSeen ⊕ TcpSeen) :=
  if opcode = TCPOPT_SACK_PERM ∧ opsize = TCPOLEN_SACK_PERM then
    .ok (.inr { state with flags := state.flags ||| IP_CT_TCP_FLAG_SACK_PERM })
  else if opcode = TCPOPT_WINDOW ∧ opsize = TCPOLEN_WINDOW then
    -- See RFC1323
    (load 1 area ptr).map fun scale =>
      .inr ⟨min scale 14, state.flags ||| IP_CT_TCP_FLAG_WINDOW_SCALE⟩
  else .ok (.inr state)

def tcpOptions (area : Bytes) (state : TcpSeen) : Except Fault TcpSeen :=
  if area.length = 0 then .ok state
  else walkOptions area (tcpOption area) 0 area.length ⟨0, 0⟩

/-- The blocks of a SACK option, of which the right edges are read. -/
def sackBlocks (area : Bytes) (ptr count : Nat) (sack : U32) : Except Fault U32 :=
  (List.range count).foldlM (fun sack block =>
    (load 4 area (ptr + block * TCPOLEN_SACK_PERBLOCK + 4)).map fun word =>
      let tmp := htonl (BitVec.ofNat 32 word)
      if after tmp sack then tmp else sack) sack

def holdsSack (opcode opsize : Nat) : Bool :=
  opcode == TCPOPT_SACK && decide (TCPOLEN_SACK_BASE + TCPOLEN_SACK_PERBLOCK ≤ opsize) &&
    (opsize - TCPOLEN_SACK_BASE) % TCPOLEN_SACK_PERBLOCK == 0

def sackOption (area : Bytes) (opcode opsize ptr : Nat) (sack : U32) : Except Fault (U32 ⊕ U32) :=
  if holdsSack opcode opsize then
    (sackBlocks area ptr ((opsize - TCPOLEN_SACK_BASE) / TCPOLEN_SACK_PERBLOCK) sack).map .inl
  else .ok (.inr sack)

/-- Fast path for timestamp-only option. -/
def timestampOnly (area : Bytes) : Bool :=
  area.length == TCPOLEN_TSTAMP_ALIGNED &&
    BitVec.ofNat 32 (peek area 4 0) ==
        htonl (BitVec.ofNat 32 (TCPOPT_NOP * 2 ^ 24 + TCPOPT_NOP * 2 ^ 16 +
      TCPOPT_TIMESTAMP * 2 ^ 8 + TCPOLEN_TIMESTAMP))

def tcpSack (area : Bytes) (sack : U32) : Except Fault U32 :=
  if area.length = 0 then .ok sack
  else if timestampOnly area then .ok sack
  else walkOptions area (sackOption area) 0 area.length sack

/-! ## The TCP match -/

/-- The loop of `tcp_find_option`. -/
def findLoop (area : Bytes) (option : Nat) (invert : Bool) (i : Nat) : Except Fault Bool :=
  if _inside : i < area.length then
    match load 1 area i with
    | .error fault => .error fault
    | .ok op =>
      if op = option then .ok !invert
      else if op < 2 then findLoop area option invert (i + 1)
      else
        match load 1 area (i + 1) with
        | .error fault => .error fault
        | .ok size => findLoop area option invert (i + if size = 0 then 1 else size)
  else .ok invert
termination_by area.length - i
decreasing_by
  · omega
  · split <;> omega

/-- `tcp_find_option`, once it has the options. -/
def tcpFindOption (area : Bytes) (option : Nat) (invert : Bool) : Except Fault Bool :=
  if area.length = 0 then .ok invert else findLoop area option invert 0

/-! ## Where options start -/

def Onward (area : Bytes) (next : Nat → Option Nat) (position later : Nat) : Prop :=
  position < area.length ∧ next position = some later

/-- A position at which a walk from the start of the area looks for an option. -/
def StartsAt (area : Bytes) (next : Nat → Option Nat) : Nat → Prop :=
  Relation.ReflTransGen (Onward area next) 0

/-- The next option of connection tracking; `stops` are the options at which the walk ends. -/
def nextOption (area : Bytes) (stops : Nat → Nat → Bool) (position : Nat) : Option Nat :=
  let opcode := peek area 1 position
  let opsize := peek area 1 (position + 1)
  if opcode = TCPOPT_EOL then none
  else if opcode = TCPOPT_NOP then some (position + 1)
  else if position + 1 < area.length ∧ 2 ≤ opsize ∧ position + opsize ≤ area.length ∧
      stops opcode opsize = false then
    some (position + opsize)
  else none

def nextFound (area : Bytes) (option : Nat) (position : Nat) : Option Nat :=
  let op := peek area 1 position
  let size := peek area 1 (position + 1)
  if op = option then none
  else if op < 2 then some (position + 1)
  else if position + 1 < area.length then some (position + if size = 0 then 1 else size)
  else none

/-- The last byte of the area is the opcode of an option that has a length. -/
def Truncated (area : Bytes) (position : Nat) : Prop :=
  position + 1 = area.length ∧ 2 ≤ peek area 1 position

/-- What holds wherever a walk comes holds where it is and wherever it comes from the next
option. -/
theorem forall_onward_iff {area : Bytes} {next : Nat → Option Nat} {holds : Nat → Prop}
    (start : Nat) :
    (∀ position, Relation.ReflTransGen (Onward area next) start position → holds position) ↔
      holds start ∧ ∀ later, Onward area next start later →
        ∀ position, Relation.ReflTransGen (Onward area next) later position → holds position := by
  constructor
  · intro all
    exact ⟨all start .refl, fun later onward position comes => all position (.head onward comes)⟩
  · rintro ⟨here, rest⟩ position comes
    rcases Relation.ReflTransGen.cases_head comes with rfl | ⟨later, onward, comes⟩
    · exact here
    · exact rest later onward position comes

theorem load_byte {area : Bytes} {offset : Nat} (inside : offset < area.length) :
    load 1 area offset = .ok (peek area 1 offset) :=
  load_ok inside

theorem load_byte_inv {area : Bytes} {offset value : Nat}
    (loaded : load 1 area offset = .ok value) :
    offset < area.length ∧ value = peek area 1 offset := by
  unfold load at loaded
  split at loaded
  · rename_i inside
    exact ⟨inside, (Except.ok.inj loaded).symm⟩
  · cases loaded

theorem load_byte_error {area : Bytes} {offset : Nat} {fault : Fault}
    (failed : load 1 area offset = .error fault) :
    area.length ≤ offset := by
  by_contra inside
  rw [load_byte (not_le.mp inside)] at failed
  cases failed

section Walk

variable {area : Bytes} {next : Nat → Option Nat} {holds : Nat → Prop} {start : Nat}

theorem forall_onward_halted (stuck : ∀ later, ¬Onward area next start later) :
    (∀ position, Relation.ReflTransGen (Onward area next) start position → holds position) ↔
      holds start := by
  rw [forall_onward_iff, and_iff_left]
  intro later onward
  exact absurd onward (stuck later)

theorem forall_onward_moved {later : Nat} (onward : Onward area next start later)
    (here : holds start) :
    (∀ position, Relation.ReflTransGen (Onward area next) start position → holds position) ↔
      ∀ position, Relation.ReflTransGen (Onward area next) later position → holds position := by
  rw [forall_onward_iff, and_iff_right here]
  constructor
  · intro all
    exact all later onward
  · intro all other found
    obtain rfl : later = other := Option.some.inj (onward.2.symm.trans found.2)
    exact all

/-- A function that returns where the walk ends has read the area only. -/
theorem returned_iff {σ : Type} {value : σ} (ends : next start = none) (safe : holds start) :
    (∃ result, (.ok value : Except Fault σ) = .ok result) ↔
      ∀ position, Relation.ReflTransGen (Onward area next) start position → holds position := by
  refine iff_of_true ⟨value, rfl⟩ ?_
  rw [forall_onward_halted]
  · exact safe
  · rintro later ⟨-, moves⟩
    rw [ends] at moves
    cases moves

end Walk

theorem not_truncated_of_small {area : Bytes} {position : Nat} (small : peek area 1 position < 2) :
    ¬Truncated area position := fun truncated => absurd truncated.2 (not_le.mpr small)

theorem not_truncated_of_more {area : Bytes} {position : Nat} (more : position + 1 < area.length) :
    ¬Truncated area position := fun truncated => absurd truncated.1 (Nat.ne_of_lt more)

/-- A walk of connection tracking stays in the area just if no option at which it looks is
truncated, given that `handle` reads only the option it is given. -/
theorem walkOptions_ok_iff {σ : Type} {area : Bytes}
    {handle : Nat → Nat → Nat → σ → Except Fault (σ ⊕ σ)}
    {stops : Nat → Nat → Bool}
    (handles : ∀ opcode opsize position state, 2 ≤ opsize → position + opsize ≤ area.length →
      ∃ next, handle opcode opsize (position + 2) state = .ok (if stops opcode opsize
        then .inl next else .inr next))
    (ptr length : Nat) (state : σ) (fits : ptr + length = area.length) :
    (∃ result, walkOptions area handle ptr length state = .ok result) ↔
      ∀ position, Relation.ReflTransGen (Onward area (nextOption area stops)) ptr position →
        ¬Truncated area position := by
  fun_induction walkOptions area handle ptr length state with
  | case1 ptr state =>
    rw [forall_onward_halted (fun later onward => by have inside := onward.1; omega)]
    refine iff_of_true ⟨_, rfl⟩ ?_
    rintro ⟨last, -⟩
    omega
  | case2 ptr length state running fault failed =>
    have outside := load_byte_error failed
    omega
  | case3 ptr length state running loaded =>
    obtain ⟨inside, code⟩ := load_byte_inv loaded
    apply returned_iff
    · rw [nextOption, if_pos code.symm]
    · exact not_truncated_of_small (by rw [← code]; decide)
  | case4 ptr length state running loaded other ih =>
    obtain ⟨inside, code⟩ := load_byte_inv loaded
    have onward : Onward area (nextOption area stops) ptr (ptr + 1) := by
      refine ⟨inside, ?_⟩
      rw [nextOption, ← code, if_neg other, if_pos rfl]
    rw [forall_onward_moved onward]
    · exact ih (by omega)
    · exact not_truncated_of_small (by rw [← code]; decide)
  | case5 ptr length state running opcode loaded notEol notNop fault failed =>
    obtain ⟨inside, code⟩ := load_byte_inv loaded
    have outside := load_byte_error failed
    refine iff_of_false ?_ ?_
    · rintro ⟨result, returned⟩
      cases returned
    · intro all
      refine all ptr .refl ⟨by omega, ?_⟩
      rw [← code]
      unfold TCPOPT_EOL TCPOPT_NOP at *
      omega
  | case6 ptr length state running opcode loaded notEol notNop opsize sized silly
  | case7 ptr length state running opcode loaded notEol notNop opsize sized whole large =>
  obtain ⟨inside, code⟩ := load_byte_inv loaded
  obtain ⟨more, size⟩ := load_byte_inv sized
  apply returned_iff
  · rw [nextOption, ← code, ← size, if_neg notEol, if_neg notNop, if_neg (by omega)]
  · exact not_truncated_of_more more
  | case8 ptr length state running opcode loaded notEol notNop opsize sized whole fitting fault
      failed =>
    obtain ⟨next, handled⟩ := handles opcode opsize ptr state (by omega) (by omega)
    rw [failed] at handled
    cases handled
  | case9 ptr length state running opcode loaded notEol notNop opsize sized whole fitting final
      handled =>
    obtain ⟨inside, code⟩ := load_byte_inv loaded
    obtain ⟨more, size⟩ := load_byte_inv sized
    obtain ⟨next, handles⟩ := handles opcode opsize ptr state (by omega) (by omega)
    have stopped : stops opcode opsize = true := by
      by_contra goesOn
      rw [handled, if_neg goesOn] at handles
      cases handles
    apply returned_iff
    · rw [nextOption, ← code, ← size, if_neg notEol, if_neg notNop, if_neg]
      rintro ⟨-, -, -, goesOn⟩
      rw [stopped] at goesOn
      cases goesOn
    · exact not_truncated_of_more more
  | case10 ptr length state running opcode loaded notEol notNop opsize sized whole fitting
      next handled
      ih =>
    obtain ⟨inside, code⟩ := load_byte_inv loaded
    obtain ⟨more, size⟩ := load_byte_inv sized
    obtain ⟨next', handles⟩ := handles opcode opsize ptr state (by omega) (by omega)
    have goesOn : stops opcode opsize = false := by
      rw [← Bool.not_eq_true]
      intro stopped
      rw [handled, if_pos stopped] at handles
      cases handles
    have onward : Onward area (nextOption area stops) ptr (ptr + opsize) := by
      refine ⟨inside, ?_⟩
      rw [nextOption, ← code, ← size, if_neg notEol, if_neg notNop,
        if_pos ⟨more, by omega, by omega, goesOn⟩]
    rw [forall_onward_moved onward (not_truncated_of_more more)]
    exact ih (by omega)

/-! ## What is done with an option -/

theorem tcpOption_reads_option (area : Bytes) (opcode opsize position : Nat) (state : TcpSeen)
    (whole : position + opsize ≤ area.length) :
    ∃ next, tcpOption area opcode opsize (position + 2) state = .ok (.inr next) := by
  unfold tcpOption
  split
  · exact ⟨_, rfl⟩
  · split
    · rename_i window
      have size : opsize = 3 := window.2
      rw [load_byte (by omega)]
      exact ⟨_, rfl⟩
    · exact ⟨_, rfl⟩

theorem sackBlocks_reads_blocks (area : Bytes) (ptr count : Nat) (sack : U32)
    (whole : ptr + count * TCPOLEN_SACK_PERBLOCK ≤ area.length) :
    ∃ next, sackBlocks area ptr count sack = .ok next := by
  induction count with
  | zero => exact ⟨sack, rfl⟩
  | succ count ih =>
    unfold TCPOLEN_SACK_PERBLOCK at *
    obtain ⟨middle, blocks⟩ := ih (by omega)
    unfold sackBlocks at blocks ⊢
    unfold TCPOLEN_SACK_PERBLOCK at *
    rw [List.range_succ, List.foldlM_append, blocks, bind_ok, List.foldlM_cons, load_ok (by omega)]
    exact ⟨_, rfl⟩

theorem sackOption_reads_option (area : Bytes) (opcode opsize position : Nat) (sack : U32)
    (whole : position + opsize ≤ area.length) :
    ∃ next, sackOption area opcode opsize (position + 2) sack =
      .ok (if holdsSack opcode opsize then .inl next else .inr next) := by
  unfold sackOption
  split
  · rename_i holds
    simp only [holdsSack, Bool.and_eq_true, decide_eq_true_eq] at holds
    obtain ⟨next, blocks⟩ := sackBlocks_reads_blocks area (position + 2)
      ((opsize - TCPOLEN_SACK_BASE) / TCPOLEN_SACK_PERBLOCK) sack (by
        have covered := Nat.div_mul_le_self (opsize - TCPOLEN_SACK_BASE) TCPOLEN_SACK_PERBLOCK
        unfold TCPOLEN_SACK_BASE at *
        omega)
    rw [blocks]
    exact ⟨next, rfl⟩
  · exact ⟨sack, rfl⟩

/-! ## The areas that are read alone -/

/-- The search stays in the area just if no option at which it looks is truncated, but for the one
it looks for. -/
theorem findLoop_ok_iff (area : Bytes) (option : Nat) (invert : Bool) (i : Nat) :
    (∃ result, findLoop area option invert i = .ok result) ↔
      ∀ position, Relation.ReflTransGen (Onward area (nextFound area option)) i position →
        ¬(Truncated area position ∧ peek area 1 position ≠ option) := by
  fun_induction findLoop area option invert i with
  | case1 i inside fault failed =>
    have outside := load_byte_error failed
    omega
  | case2 i inside loaded =>
    obtain ⟨-, code⟩ := load_byte_inv loaded
    apply returned_iff
    · rw [nextFound, if_pos code.symm]
    · exact fun truncated => truncated.2 code.symm
  | case3 i inside op loaded other small ih =>
    obtain ⟨-, code⟩ := load_byte_inv loaded
    have onward : Onward area (nextFound area option) i (i + 1) := by
      refine ⟨inside, ?_⟩
      rw [nextFound, ← code, if_neg other, if_pos small]
    rw [forall_onward_moved onward]
    · exact ih
    · exact fun truncated => not_truncated_of_small (code ▸ small) truncated.1
  | case4 i inside op loaded other large fault failed =>
    obtain ⟨-, code⟩ := load_byte_inv loaded
    have outside := load_byte_error failed
    refine iff_of_false ?_ ?_
    · rintro ⟨result, returned⟩
      cases returned
    · intro all
      refine all i .refl ⟨⟨by omega, ?_⟩, ?_⟩
      · rw [← code]
        omega
      · rw [← code]
        exact other
  | case5 i inside op loaded other large size sized ih =>
    obtain ⟨-, code⟩ := load_byte_inv loaded
    obtain ⟨more, measured⟩ := load_byte_inv sized
    have onward : Onward area (nextFound area option) i (i + if size = 0 then 1 else size) := by
      refine ⟨inside, ?_⟩
      rw [nextFound, ← code, ← measured, if_neg other, if_neg large, if_pos more]
    rw [forall_onward_moved onward]
    · exact ih
    · exact fun truncated => not_truncated_of_more more truncated.1
  | case6 i outside =>
    rw [forall_onward_halted (fun later onward => outside onward.1)]
    refine iff_of_true ⟨_, rfl⟩ ?_
    rintro ⟨⟨last, -⟩, -⟩
    omega

/-- No option that a walk of connection tracking looks at is truncated. -/
def Whole (area : Bytes) (stops : Nat → Nat → Bool) : Prop :=
  ∀ position, StartsAt area (nextOption area stops) position → ¬Truncated area position

theorem whole_of_empty {area : Bytes} (empty : area.length = 0) (stops : Nat → Nat → Bool) :
    Whole area stops := by
  refine (forall_onward_halted ?_).mpr ?_
  · intro later onward
    have inside := onward.1
    omega
  · rintro ⟨last, -⟩
    omega

theorem tcpOptions_ok_iff (area : Bytes) (state : TcpSeen) :
    (∃ result, tcpOptions area state = .ok result) ↔ Whole area (fun _ _ => false) := by
  unfold tcpOptions
  split
  · rename_i empty
    exact iff_of_true ⟨_, rfl⟩ (whole_of_empty empty _)
  · apply walkOptions_ok_iff
    · intro opcode opsize position seen _ whole
      exact tcpOption_reads_option area opcode opsize position seen whole
    · exact Nat.zero_add _

theorem tcpSack_ok_iff (area : Bytes) (sack : U32) :
    (∃ result, tcpSack area sack = .ok result) ↔ timestampOnly area = true ∨
      Whole area holdsSack := by
  unfold tcpSack
  split
  · rename_i empty
    exact iff_of_true ⟨_, rfl⟩ (Or.inr (whole_of_empty empty _))
  · split
    · rename_i timestamp
      exact iff_of_true ⟨_, rfl⟩ (Or.inl timestamp)
    · rename_i timestamp
      rw [or_iff_right timestamp]
      apply walkOptions_ok_iff
      · intro opcode opsize position seen _ whole
        exact sackOption_reads_option area opcode opsize position seen whole
      · exact Nat.zero_add _

theorem tcpFindOption_ok_iff (area : Bytes) (option : Nat) (invert : Bool) :
    (∃ result, tcpFindOption area option invert = .ok result) ↔
      ∀ position, StartsAt area (nextFound area option) position →
        ¬(Truncated area position ∧ peek area 1 position ≠ option) := by
  have walked := findLoop_ok_iff area option invert 0
  unfold tcpFindOption
  split
  · rename_i empty
    refine iff_of_true ⟨_, rfl⟩ (walked.mp ⟨invert, ?_⟩)
    rw [findLoop, dif_neg (by omega)]
  · exact walked

/-- The three functions read only bytes of the area just if none of them comes to an option whose
length would be behind the end of the area: `tcp_options` walks through all options, `tcp_sack` to
the first SACK option unless there is only a timestamp, and `tcp_find_option` to the option it looks
for. -/
theorem tcp_options_read_area_iff (area : Bytes) (state : TcpSeen) (sack : U32) (option : Nat)
    (invert : Bool) :
    ((∃ result, tcpOptions area state = .ok result) ∧ (∃ result, tcpSack area sack = .ok result) ∧
        ∃ result, tcpFindOption area option invert = .ok result) ↔
      Whole area (fun _ _ => false) ∧ (timestampOnly area = true ∨ Whole area holdsSack) ∧
        ∀ position, StartsAt area (nextFound area option) position →
          ¬(Truncated area position ∧ peek area 1 position ≠ option) :=
  and_congr (tcpOptions_ok_iff area state)
    (and_congr (tcpSack_ok_iff area sack) (tcpFindOption_ok_iff area option invert))

/-- A kind of option in the last byte of four: each function reads the byte behind it. -/
theorem truncated_option_leaves_area :
    tcpOptions [1, 1, 1, 2] ⟨0, 0⟩ = .error (.outOfBounds 4) ∧
        tcpSack [1, 1, 1, 2] 0 = .error (.outOfBounds 4) ∧
      tcpFindOption [1, 1, 1, 2] 3 false = .error (.outOfBounds 4) := by
  refine ⟨?_, ?_, ?_⟩
  · simp [tcpOptions, walkOptions, load, peek, byteAt, TCPOPT_EOL, TCPOPT_NOP]
  · simp [tcpSack, timestampOnly, walkOptions, load, peek, byteAt, TCPOPT_EOL, TCPOPT_NOP,
      TCPOLEN_TSTAMP_ALIGNED]
  · simp [tcpFindOption, findLoop, load, peek, byteAt]

end RouterKernel.Tracking
