import RouterKernel.Foundation.Checked
import RouterKernel.Foundation.Ring

/-!
Contract: the queues of `kernel/kfifo.c`.

Owns:
- `__kfifo_in`, `__kfifo_out` and `__kfifo_out_peek` with their free-running 32-bit
  counters;
- `Holds`, what a queue of any size and element size holds;
- that every sequence of calls is a bounded queue, whatever the counters have run to.

Does not own: records, user memory and scatter lists.
-/

namespace RouterKernel.Queues

open RouterKernel.Foundation

/-! ## The code -/

structure Kfifo where
  /-- The counter `in`. -/
  inn : U32
  out : U32
  mask : U32
  esize : U32
  data : List U8
deriving DecidableEq

def kfifoUnused (fifo : Kfifo) : U32 := (fifo.mask + 1) - (fifo.inn - fifo.out)

def minU32 (left right : U32) : U32 := if left < right then left else right

/-- `memcpy(data + dst, src + skip, len)` -/
def memcpyTo (data : List U8) (dst : U32) (src : List U8) (skip len : U32) :
    Except Fault (List U8) :=
  if dst.toNat + len.toNat ≤ data.length ∧ skip.toNat + len.toNat ≤ src.length then
    .ok (Ring.overwrite data dst.toNat ((src.drop skip.toNat).take len.toNat))
  else .error (.outOfBounds dst.toNat)

/-- The bytes that `memcpy(dst, data + src, len)` copies. -/
def memcpyFrom (data : List U8) (src len : U32) : Except Fault (List U8) :=
  if src.toNat + len.toNat ≤ data.length then .ok ((data.drop src.toNat).take len.toNat)
  else .error (.outOfBounds src.toNat)

/-- Offset, size and length of a copy in bytes. -/
def scale (fifo : Kfifo) (len off : U32) : U32 × U32 × U32 :=
  let size := fifo.mask + 1
  let off := off &&& fifo.mask
  if fifo.esize ≠ 1 then (off * fifo.esize, size * fifo.esize, len * fifo.esize)
    else (off, size, len)

def kfifoCopyIn (fifo : Kfifo) (src : List U8) (len off : U32) : Except Fault Kfifo := do
  let (off, size, len) := scale fifo len off
  let l := minU32 len (size - off)
  let data ← memcpyTo fifo.data off src 0 l
  let data ← memcpyTo data 0 src l (len - l)
  .ok { fifo with data }

/-- The queue and the number of elements put in. -/
def kfifoIn (fifo : Kfifo) (buf : List U8) (len : U32) : Except Fault (Kfifo × U32) := do
  let l := kfifoUnused fifo
  let len := if l < len then l else len
  let fifo ← kfifoCopyIn fifo buf len fifo.inn
  .ok ({ fifo with inn := fifo.inn + len }, len)

/-- The bytes written to the caller's memory. -/
def kfifoCopyOut (fifo : Kfifo) (len off : U32) : Except Fault (List U8) := do
  let (off, size, len) := scale fifo len off
  let l := minU32 len (size - off)
  let first ← memcpyFrom fifo.data off l
  let second ← memcpyFrom fifo.data 0 (len - l)
  .ok (first ++ second)

def kfifoOutPeek (fifo : Kfifo) (len : U32) : Except Fault (List U8 × U32) := do
  let l := fifo.inn - fifo.out
  let len := if l < len then l else len
  let bytes ← kfifoCopyOut fifo len fifo.out
  .ok (bytes, len)

def kfifoOut (fifo : Kfifo) (len : U32) : Except Fault (Kfifo × List U8 × U32) := do
  let (bytes, len) ← kfifoOutPeek fifo len
  .ok ({ fifo with out := fifo.out + len }, bytes, len)

/-! ## What a queue holds -/

namespace Kfifo

variable (fifo : Kfifo)

def size : Nat := fifo.mask.toNat + 1

def count : Nat := (fifo.inn - fifo.out).toNat

def start : Nat := fifo.out.toNat % fifo.size * fifo.esize.toNat

def contents : List U8 := (fifo.data.rotate fifo.start).take (fifo.count * fifo.esize.toNat)

end Kfifo

variable {fifo : Kfifo}

/-- A queue of `size` elements, a power of two, in memory of that many elements. -/
structure Sound (fifo : Kfifo) : Prop where
  power : ∃ k, 1 ≤ k ∧ k < 32 ∧ fifo.size = 2 ^ k
  fits : fifo.size * fifo.esize.toNat < 2 ^ 32
  block : fifo.data.length = fifo.size * fifo.esize.toNat
  room : fifo.count ≤ fifo.size

theorem Sound.size_small (sound : Sound fifo) : fifo.size < 2 ^ 32 := by
  obtain ⟨k, -, small, isPower⟩ := sound.power
  rw [isPower]
  exact Nat.pow_lt_pow_right (by decide) small

theorem Sound.sizeWord (sound : Sound fifo) : (fifo.mask + 1).toNat = fifo.size := by
  have small := sound.size_small
  rw [BitVec.toNat_add]
  exact Nat.mod_eq_of_lt small

theorem Sound.size_dvd (sound : Sound fifo) : fifo.size ∣ 2 ^ 32 := by
  obtain ⟨k, -, small, isPower⟩ := sound.power
  rw [isPower]
  exact pow_dvd_pow 2 small.le

theorem Sound.unused (sound : Sound fifo) : (kfifoUnused fifo).toNat = fifo.size - fifo.count := by
  have fits : fifo.inn - fifo.out ≤ fifo.mask + 1 := by
    rw [BitVec.le_def, sound.sizeWord]
    exact sound.room
  rw [kfifoUnused, BitVec.toNat_sub_of_le fits, sound.sizeWord, Kfifo.count]

theorem min_toNat (left right : U32) :
    (if left < right then left else right).toNat = min left.toNat right.toNat := by
  split_ifs with less
  · rw [BitVec.lt_def] at less
    omega
  · rw [BitVec.lt_def] at less
    omega

variable {len : U32}

theorem Sound.scale (sound : Sound fifo) (off : U32) (short : len.toNat ≤ fifo.size) :
    ∃ o s l : U32, scale fifo len off = (o, s, l) ∧
        o.toNat = off.toNat % fifo.size * fifo.esize.toNat ∧
      s.toNat = fifo.size * fifo.esize.toNat ∧ l.toNat = len.toNat * fifo.esize.toNat := by
  have fits := sound.fits
  have masked : (off &&& fifo.mask).toNat = off.toNat % fifo.size := by
    obtain ⟨k, -, -, isPower⟩ := sound.power
    have isMask : fifo.mask.toNat = 2 ^ k - 1 := by
      rw [← isPower, Kfifo.size]
      omega
    rw [BitVec.toNat_and, isMask, Nat.and_two_pow_sub_one_eq_mod, isPower]
  have below : off.toNat % fifo.size * fifo.esize.toNat ≤ fifo.size * fifo.esize.toNat :=
    Nat.mul_le_mul_right _ (Nat.mod_lt _ (Nat.succ_pos _)).le
  have shorter : len.toNat * fifo.esize.toNat ≤ fifo.size * fifo.esize.toNat :=
    Nat.mul_le_mul_right _ short
  by_cases single : fifo.esize = 1
  · refine ⟨_, _, _, if_neg (not_not_intro single), ?_, ?_, ?_⟩
    · rw [masked, single]
      exact (Nat.mul_one _).symm
    · rw [sound.sizeWord, single]
      exact (Nat.mul_one _).symm
    · rw [single]
      exact (Nat.mul_one _).symm
  · refine ⟨_, _, _, if_pos single, ?_, ?_, ?_⟩
    · rw [BitVec.toNat_mul, masked, Nat.mod_eq_of_lt (by omega)]
    · rw [BitVec.toNat_mul, sound.sizeWord, Nat.mod_eq_of_lt fits]
    · rw [BitVec.toNat_mul, Nat.mod_eq_of_lt (by omega)]

/-! ## Copies -/

theorem Sound.offset_le (sound : Sound fifo) (off : U32) :
    off.toNat % fifo.size * fifo.esize.toNat ≤ fifo.data.length := by
  rw [sound.block]
  exact Nat.mul_le_mul_right _ (Nat.mod_lt _ (Nat.succ_pos _)).le

theorem minU32_toNat (left right : U32) : (minU32 left right).toNat = min left.toNat right.toNat :=
  min_toNat left right

structure Cut (fifo : Kfifo) (len off : U32) (o s l : U32) : Prop where
  scaled : scale fifo len off = (o, s, l)
  isOff : o.toNat = off.toNat % fifo.size * fifo.esize.toNat
  isLen : l.toNat = len.toNat * fifo.esize.toNat
  inside : o.toNat ≤ fifo.data.length
  fits : l.toNat ≤ fifo.data.length
  first : (minU32 l (s - o)).toNat = min l.toNat (fifo.data.length - o.toNat)
  second : (l - minU32 l (s - o)).toNat = l.toNat - min l.toNat (fifo.data.length - o.toNat)

section

variable (sound : Sound fifo)

include sound

theorem Sound.cut (off : U32) (short : len.toNat ≤ fifo.size) :
    ∃ o s l, Cut fifo len off o s l := by
  obtain ⟨o, s, l, scaled, isOff, isSize, isLen⟩ := sound.scale off short
  have inside := sound.offset_le off
  rw [← isOff] at inside
  have fits : l.toNat ≤ fifo.data.length := by
    rw [isLen, sound.block]
    exact Nat.mul_le_mul_right _ short
  have room : o ≤ s := by
    rw [BitVec.le_def, isSize, ← sound.block]
    exact inside
  have first : (minU32 l (s - o)).toNat = min l.toNat (fifo.data.length - o.toNat) := by
    rw [minU32_toNat, BitVec.toNat_sub_of_le room, isSize, sound.block]
  refine ⟨o, s, l, scaled, isOff, isLen, inside, fits, first, ?_⟩
  rw [BitVec.toNat_sub_of_le, first]
  rw [BitVec.le_def, first]
  omega

theorem kfifoCopyOut_ok (off : U32) (short : len.toNat ≤ fifo.size) : kfifoCopyOut fifo len off =
      .ok ((fifo.data.rotate (off.toNat % fifo.size * fifo.esize.toNat)).take
        (len.toNat * fifo.esize.toNat)) := by
  obtain ⟨o, s, l, cut⟩ := sound.cut off short
  have inside := cut.inside
  have fits := cut.fits
  have firstInside : o.toNat + (minU32 l (s - o)).toNat ≤ fifo.data.length := by
    rw [cut.first]
    omega
  have secondInside : (0 : U32).toNat + (l - minU32 l (s - o)).toNat ≤ fifo.data.length := by
    rw [cut.second, show (0 : U32).toNat = 0 from rfl]
    omega
  rw [← cut.isOff, ← cut.isLen, ← Ring.copyOut_eq inside fits, kfifoCopyOut, cut.scaled]
  dsimp only
  rw [memcpyFrom, if_pos firstInside, bind_ok, memcpyFrom, if_pos secondInside, bind_ok, cut.first,
    cut.second]
  rfl

theorem kfifoCopyIn_ok {buf : List U8} (off : U32) (short : len.toNat ≤ fifo.size)
    (supplied : len.toNat * fifo.esize.toNat ≤ buf.length) :
    kfifoCopyIn fifo buf len off =
      .ok { fifo with
        data := Ring.copyIn fifo.data (off.toNat % fifo.size * fifo.esize.toNat)
          (buf.take (len.toNat * fifo.esize.toNat)) } := by
  obtain ⟨o, s, l, cut⟩ := sound.cut off short
  have inside := cut.inside
  have fits := cut.fits
  rw [← cut.isLen] at supplied
  rw [← cut.isOff, ← cut.isLen]
  have taken : (buf.take l.toNat).length = l.toNat := by
    rw [List.length_take]
    omega
  have firstPart : (buf.drop (0 : U32).toNat).take (minU32 l (s - o)).toNat =
      (buf.take l.toNat).take (min l.toNat (fifo.data.length - o.toNat)) := by
    rw [cut.first, List.take_take, show (0 : U32).toNat = 0 from rfl, List.drop_zero]
    congr 1
    omega
  have secondPart : (buf.drop (minU32 l (s - o)).toNat).take (l - minU32 l (s - o)).toNat =
      (buf.take l.toNat).drop (min l.toNat (fifo.data.length - o.toNat)) := by
    rw [cut.first, cut.second, List.drop_take]
  have firstFits : o.toNat + (minU32 l (s - o)).toNat ≤ fifo.data.length ∧
      (0 : U32).toNat + (minU32 l (s - o)).toNat ≤ buf.length := by
    rw [cut.first, show (0 : U32).toNat = 0 from rfl]
    omega
  have firstLength : (Ring.overwrite fifo.data o.toNat
      ((buf.take l.toNat).take (min l.toNat (fifo.data.length - o.toNat)))).length =
        fifo.data.length := by
    apply Ring.length_overwrite
    rw [List.length_take, taken]
    omega
  have secondFits : (0 : U32).toNat + (l - minU32 l (s - o)).toNat ≤ fifo.data.length ∧
      (minU32 l (s - o)).toNat + (l - minU32 l (s - o)).toNat ≤ buf.length := by
    rw [cut.first, cut.second, show (0 : U32).toNat = 0 from rfl]
    omega
  rw [kfifoCopyIn, cut.scaled]
  dsimp only
  rw [memcpyTo, if_pos firstFits, firstPart, bind_ok, memcpyTo, firstLength, if_pos secondFits,
      secondPart, bind_ok,
    Ring.copyIn, taken]
  rfl

/-! ## Calls -/

/-- The queue and the caller's view of it after some elements were put in. -/
theorem kfifoIn_spec {buf : List U8} (supplied : len.toNat * fifo.esize.toNat ≤ buf.length) :
    ∃ fifo' put, kfifoIn fifo buf len = .ok (fifo', put) ∧
        put.toNat = min len.toNat (fifo.size - fifo.count) ∧
      Sound fifo' ∧ fifo'.size = fifo.size ∧ fifo'.esize = fifo.esize ∧
        fifo'.count = fifo.count + put.toNat ∧
      fifo'.contents = fifo.contents ++ buf.take (put.toNat * fifo.esize.toNat) := by
  obtain ⟨put, isPut, putNat⟩ : ∃ put, (if kfifoUnused fifo < len then kfifoUnused fifo else len) =
      put ∧
      put.toNat = min len.toNat (fifo.size - fifo.count) := by
    refine ⟨_, rfl, ?_⟩
    rw [min_toNat, sound.unused, Nat.min_comm]
  have room := sound.room
  have short : put.toNat ≤ fifo.size := by omega
  have suppliedPut : put.toNat * fifo.esize.toNat ≤ buf.length :=
    le_trans (Nat.mul_le_mul_right _ (by omega)) supplied
  have supply : (buf.take (put.toNat * fifo.esize.toNat)).length =
      put.toNat * fifo.esize.toNat := by
    rw [List.length_take]
    omega
  have counted : (fifo.inn + put - fifo.out).toNat = fifo.count + put.toNat := by
    have small := sound.size_small
    have regrouped : fifo.inn + put - fifo.out = fifo.inn - fifo.out + put := by
      rw [BitVec.sub_eq_add_neg, BitVec.sub_eq_add_neg, BitVec.add_assoc, BitVec.add_assoc,
        BitVec.add_comm put]
    rw [regrouped, BitVec.toNat_add]
    exact Nat.mod_eq_of_lt (by rw [← Kfifo.count]; omega)
  have usedRoom : fifo.count * fifo.esize.toNat + put.toNat * fifo.esize.toNat ≤
      fifo.data.length := by
    rw [← Nat.add_mul, sound.block]
    exact Nat.mul_le_mul_right _ (by omega)
  have offset : fifo.inn.toNat % fifo.size * fifo.esize.toNat =
      (fifo.start + fifo.count * fifo.esize.toNat) % fifo.data.length := by
    have indices :
        fifo.inn.toNat % fifo.size = (fifo.out.toNat % fifo.size + fifo.count) % fifo.size := by
      have whole : fifo.inn = fifo.out + (fifo.inn - fifo.out) := by
        rw [BitVec.sub_eq_add_neg, BitVec.add_comm, BitVec.add_assoc, BitVec.add_comm (-fifo.out),
          ← BitVec.sub_eq_add_neg, BitVec.sub_self, BitVec.add_zero]
      conv_lhs => rw [whole, BitVec.toNat_add, Nat.mod_mod_of_dvd _ sound.size_dvd]
      rw [Nat.mod_add_mod]
      rfl
    rw [sound.block, Kfifo.start, ← Nat.add_mul, Nat.mul_mod_mul_right, ← indices]
  have inside := sound.offset_le fifo.inn
  let data := Ring.copyIn fifo.data (fifo.inn.toNat % fifo.size * fifo.esize.toNat)
    (buf.take (put.toNat * fifo.esize.toNat))
  refine ⟨{ fifo with data, inn := fifo.inn + put }, put, ?_, putNat,
      ⟨sound.power, sound.fits, ?_, ?_⟩, rfl, rfl,
    counted, ?_⟩
  · rw [kfifoIn, isPut, kfifoCopyIn_ok sound fifo.inn short suppliedPut]
    rfl
  · refine Eq.trans (Ring.length_copyIn inside ?_) sound.block
    rw [supply]
    omega
  · change (fifo.inn + put - fifo.out).toNat ≤ fifo.size
    rw [counted]
    omega
  · have view := Ring.copyIn_view (by rw [supply]; exact usedRoom) inside offset
    rw [supply, ← Nat.add_mul, ← counted] at view
    exact view

theorem kfifoOutPeek_spec (len : U32) :
    ∃ taken, kfifoOutPeek fifo len = .ok (fifo.contents.take (taken.toNat * fifo.esize.toNat),
        taken) ∧
      taken.toNat = min len.toNat fifo.count := by
  obtain ⟨taken, isTaken, takenNat⟩ : ∃ taken,
      (if fifo.inn - fifo.out < len then fifo.inn - fifo.out else len) = taken ∧
        taken.toNat = min len.toNat fifo.count := by
    refine ⟨_, rfl, ?_⟩
    rw [min_toNat, Nat.min_comm]
    rfl
  have room := sound.room
  have bytes : taken.toNat * fifo.esize.toNat ≤ fifo.count * fifo.esize.toNat :=
    Nat.mul_le_mul_right _ (by omega)
  refine ⟨taken, ?_, takenNat⟩
  rw [kfifoOutPeek, isTaken, kfifoCopyOut_ok sound fifo.out (by omega), Kfifo.contents,
    List.take_take, Nat.min_eq_left bytes]
  rfl

theorem kfifoOut_spec (len : U32) :
    ∃ fifo' taken, kfifoOut fifo len = .ok (fifo',
        fifo.contents.take (taken.toNat * fifo.esize.toNat), taken) ∧
      taken.toNat = min len.toNat fifo.count ∧ Sound fifo' ∧ fifo'.size = fifo.size ∧
        fifo'.esize = fifo.esize ∧
      fifo'.count = fifo.count - taken.toNat ∧
      fifo'.contents = fifo.contents.drop (taken.toNat * fifo.esize.toNat) := by
  obtain ⟨taken, peeks, takenNat⟩ := kfifoOutPeek_spec sound len
  have room := sound.room
  have bytes : taken.toNat * fifo.esize.toNat ≤ fifo.count * fifo.esize.toNat :=
    Nat.mul_le_mul_right _ (by omega)
  have counted : (fifo.inn - (fifo.out + taken)).toNat = fifo.count - taken.toNat := by
    have regrouped : fifo.inn - (fifo.out + taken) = fifo.inn - fifo.out - taken := by
      rw [BitVec.sub_eq_add_neg, BitVec.sub_eq_add_neg, BitVec.sub_eq_add_neg, BitVec.neg_add,
          BitVec.sub_eq_add_neg,
        BitVec.add_assoc]
    have below : taken ≤ fifo.inn - fifo.out := by
      rw [BitVec.le_def, takenNat]
      exact Nat.min_le_right ..
    rw [regrouped, BitVec.toNat_sub_of_le below]
    rfl
  refine ⟨{ fifo with out := fifo.out + taken }, taken, ?_, takenNat,
    ⟨sound.power, sound.fits, sound.block, ?_⟩, rfl, rfl, counted, ?_⟩
  · rw [kfifoOut, peeks]
    rfl
  · change (fifo.inn - (fifo.out + taken)).toNat ≤ fifo.size
    omega
  · have start : (fifo.out + taken).toNat % fifo.size * fifo.esize.toNat =
        (fifo.start + taken.toNat * fifo.esize.toNat) % fifo.data.length := by
      rw [sound.block, Kfifo.start, ← Nat.add_mul, Nat.mul_mod_mul_right, Nat.mod_add_mod,
          BitVec.toNat_add,
        Nat.mod_mod_of_dvd _ sound.size_dvd]
    have within : taken.toNat * fifo.esize.toNat ≤ (fifo.data.rotate fifo.start).length := by
      rw [List.length_rotate, sound.block]
      exact le_trans bytes (Nat.mul_le_mul_right _ room)
    change (fifo.data.rotate ((fifo.out + taken).toNat % fifo.size * fifo.esize.toNat)).take
      ((fifo.inn - (fifo.out + taken)).toNat * fifo.esize.toNat) = _
    rw [start, List.rotate_mod, ← List.rotate_rotate, List.rotate_eq_drop_append_take within,
        counted, Nat.sub_mul,
      Kfifo.contents, List.drop_take, List.take_append_of_le_length]
    rw [List.length_drop, List.length_rotate, sound.block]
    exact Nat.sub_le_sub_right (Nat.mul_le_mul_right _ room) _

end

/-! ## Sequences -/

/-- The queues that sequences of calls lead to, with all the bytes put in and all the bytes
taken out.  The counters start anywhere. -/
inductive Reached (size esize : Nat) : Kfifo → List U8 → List U8 → Prop
  | start {fifo : Kfifo} (power : ∃ k, 1 ≤ k ∧ k < 32 ∧ size = 2 ^ k) (fits : size * esize < 2 ^ 32)
      (isMask : fifo.mask.toNat + 1 = size) (isEsize : fifo.esize.toNat = esize)
      (block : fifo.data.length = size * esize) (empty : fifo.inn = fifo.out) :
        Reached size esize fifo [] []
  | put {fifo fifo' : Kfifo} {putIn takenOut buf : List U8} {len done : U32}
      (reached : Reached size esize fifo putIn takenOut) (supplied : len.toNat * esize ≤ buf.length)
      (ran : kfifoIn fifo buf len = .ok (fifo', done)) :
      Reached size esize fifo' (putIn ++ buf.take (done.toNat * esize)) takenOut
  | take {fifo fifo' : Kfifo} {putIn takenOut bytes : List U8} {len done : U32}
      (reached : Reached size esize fifo putIn takenOut)
      (ran : kfifoOut fifo len = .ok (fifo', bytes, done)) :
      Reached size esize fifo' putIn (takenOut ++ bytes)

variable {size esize : Nat} {putIn takenOut : List U8}

theorem Reached.kept (reached : Reached size esize fifo putIn takenOut) :
    Sound fifo ∧ fifo.size = size ∧ fifo.esize.toNat = esize ∧
      putIn = takenOut ++ fifo.contents := by
  induction reached with
  | @start fifo power fits isMask isEsize block empty =>
    subst isMask isEsize
    have none_ : fifo.count = 0 := by
      rw [Kfifo.count, empty, BitVec.sub_self]
      rfl
    refine ⟨⟨power, fits, block, ?_⟩, rfl, rfl, ?_⟩
    · rw [none_]
      exact Nat.zero_le _
    · rw [Kfifo.contents, none_, Nat.zero_mul, List.take_zero]
      rfl
  | @put fifo fifo' putIn takenOut buf len done _ supplied ran ih =>
    obtain ⟨sound, isSize, isEsize, whole⟩ := ih
    rw [← isEsize] at supplied
    obtain ⟨after, put, computed, -, soundAfter, sameSize, sameEsize, -, contents⟩ :=
      kfifoIn_spec sound supplied
    rw [computed] at ran
    injection ran with ran
    injection ran with isAfter isPut
    subst isAfter isPut
    refine ⟨soundAfter, sameSize.trans isSize, by rw [sameEsize, isEsize], ?_⟩
    rw [contents, whole, isEsize, List.append_assoc]
  | @take fifo fifo' putIn takenOut bytes len done _ ran ih =>
    obtain ⟨sound, isSize, isEsize, whole⟩ := ih
    obtain ⟨after, taken, computed, -, soundAfter, sameSize, sameEsize, -, contents⟩ :=
      kfifoOut_spec sound len
    rw [computed] at ran
    injection ran with ran
    injection ran with isAfter ran
    injection ran with isBytes isTaken
    subst isAfter isBytes isTaken
    refine ⟨soundAfter, sameSize.trans isSize, by rw [sameEsize, isEsize], ?_⟩
    rw [contents, whole, List.append_assoc, List.take_append_drop]

/-- After any sequence of calls what was taken out and what is in the queue is what was put
in; every call transfers as many elements as it can, and taking and peeking yield the oldest
ones. -/
theorem kfifo_bounded (reached : Reached size esize fifo putIn takenOut) :
    putIn = takenOut ++ fifo.contents ∧ fifo.contents.length = fifo.count * esize ∧
        fifo.count ≤ size ∧
      (∀ buf len, len.toNat * esize ≤ buf.length →
        ∃ fifo' put, kfifoIn fifo buf len = .ok (fifo', put) ∧
            put.toNat = min len.toNat (size - fifo.count) ∧
          fifo'.count = fifo.count + put.toNat) ∧
      (∀ len, ∃ fifo' taken,
          kfifoOut fifo len = .ok (fifo', fifo.contents.take (taken.toNat * esize), taken) ∧
          taken.toNat = min len.toNat fifo.count ∧ fifo'.count = fifo.count - taken.toNat) ∧
      ∀ len, ∃ taken, kfifoOutPeek fifo len = .ok (fifo.contents.take (taken.toNat * esize),
          taken) ∧
        taken.toNat = min len.toNat fifo.count := by
  obtain ⟨sound, rfl, rfl, whole⟩ := reached.kept
  refine ⟨whole, ?_, sound.room, fun buf len supplied => ?_, fun len => ?_, kfifoOutPeek_spec sound⟩
  · rw [Kfifo.contents, List.length_take, List.length_rotate, sound.block, Nat.min_eq_left]
    exact Nat.mul_le_mul_right _ sound.room
  · obtain ⟨fifo', put, computed, isPut, -, -, -, counted, -⟩ := kfifoIn_spec sound supplied
    exact ⟨fifo', put, computed, isPut, counted⟩
  · obtain ⟨fifo', taken, computed, isTaken, -, -, -, counted, -⟩ := kfifoOut_spec sound len
    exact ⟨fifo', taken, computed, isTaken, counted⟩

/-- A queue of two elements of three bytes, whose counters are about to wrap around. -/
def nearWrap : Kfifo :=
  { inn := 0xffffffff, out := 0xffffffff, mask := 1, esize := 3, data := [0, 0, 0, 0, 0, 0] }

/-- Two elements have been put in across the wrap, and one has been taken out. -/
def behindWrap : Kfifo :=
  { inn := 1, out := 0, mask := 1, esize := 3, data := [4, 5, 6, 1, 2, 3] }

theorem behindWrap_reached : Reached 2 3 behindWrap [1, 2, 3, 4, 5, 6] [1, 2, 3] := by
  have start : Reached 2 3 nearWrap [] [] :=
    .start ⟨1, by decide, by decide, rfl⟩ (by decide) rfl rfl rfl rfl
  have full : kfifoIn nearWrap [1, 2, 3, 4, 5, 6] 2 = .ok ({ behindWrap with out := -1 }, 2) := by
    decide
  have taken : kfifoOut { behindWrap with out := -1 } 1 = .ok (behindWrap, [1, 2, 3], 1) := by
    decide
  exact .take (.put start (by decide) full) taken

/-- One more element has room, and it comes behind the one that is left. -/
theorem kfifo_bounded_nearWrap :
    [1, 2, 3, 4, 5, 6] = [1, 2, 3] ++ behindWrap.contents ∧
      ∃ fifo' put, kfifoIn behindWrap [7, 8, 9, 10, 11, 12] 2 = .ok (fifo', put) ∧ put.toNat = 1 ∧
        fifo'.count = 2 := by
  obtain ⟨whole, -, -, puts, -, -⟩ := kfifo_bounded behindWrap_reached
  obtain ⟨fifo', put, computed, isPut, counted⟩ := puts [7, 8, 9, 10, 11, 12] 2 (by decide)
  have isOne : put.toNat = 1 := isPut
  exact ⟨whole, fifo', put, computed, isOne, by rw [counted, isOne]; rfl⟩

end RouterKernel.Queues
