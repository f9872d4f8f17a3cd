import RouterKernel.Acl.Permission
import RouterKernel.Foundation.Checked

/-!
Contract: access control lists and the permission bits of file modes.

Owns:
- `posix_acl_equiv_mode`, `posix_acl_create_masq` and `posix_acl_chmod_masq`;
- what they do to the parts of a valid list;
- that lists and modes stay consistent, and that creation never widens access.

Does not own: cloning and releasing of lists.  A list that one of the functions refuses is
released by its callers, so the partly changed list is not part of an error.
-/

namespace RouterKernel.Acl

open RouterKernel.Foundation

/-! ## Model -/

def S_IRWXU : U16 := 0o700
def S_IRWXG : U16 := 0o070
def S_IRWXUGO : U16 := 0o777

/-- One entry of `posix_acl_equiv_mode`, with the variables `mode` and `not_equiv`. -/
def equivTurn (state : U16 × Bool) (pa : Entry) : Except Errno (U16 × Bool) :=
  let (mode, notEquiv) := state
  match pa.tag with
  | .userObj => .ok (mode ||| (pa.perm &&& S_IRWXO) <<< 6, notEquiv)
  | .groupObj => .ok (mode ||| (pa.perm &&& S_IRWXO) <<< 3, notEquiv)
  | .other => .ok (mode ||| pa.perm &&& S_IRWXO, notEquiv)
  | .mask => .ok (mode &&& ~~~S_IRWXG ||| (pa.perm &&& S_IRWXO) <<< 3, true)
  | .user => .ok (mode, true)
  | .group => .ok (mode, true)
  | .unknown _ => .error .EINVAL

/-- `posix_acl_equiv_mode` with `*mode_p` before and after. -/
def posixAclEquivMode (acl : List Entry) (modeP : U16) : Except Errno (Bool × U16) := do
  let (mode, notEquiv) ← acl.foldlM equivTurn (0, false)
  pure (notEquiv, modeP &&& ~~~S_IRWXUGO ||| mode)

/-- The local variables of the functions that change a list; `groupObj` and `maskObj` point
to an entry by its index. -/
structure Scan where
  mode : U16
  groupObj : Option Nat
  maskObj : Option Nat
  notEquiv : Bool
deriving DecidableEq, Repr

/-- The loop over the entries, which are changed in place. -/
def scanEntries (turn : Nat → Scan → Entry → Except Errno (Entry × Scan)) :
    Nat → Scan → List Entry → Except Errno (List Entry × Scan)
  | _, scan, [] => .ok ([], scan)
  | i, scan, pa :: rest => do
    let (pa, scan) ← turn i scan pa
    let (rest, scan) ← scanEntries turn (i + 1) scan rest
    pure (pa :: rest, scan)

def createTurn (i : Nat) (scan : Scan) (pa : Entry) : Except Errno (Entry × Scan) :=
  match pa.tag with
  | .userObj =>
    let pa := { pa with perm := pa.perm &&& (scan.mode >>> 6 ||| ~~~S_IRWXO) }
    .ok (pa, { scan with mode := scan.mode &&& (pa.perm <<< 6 ||| ~~~S_IRWXU) })
  | .user => .ok (pa, { scan with notEquiv := true })
  | .group => .ok (pa, { scan with notEquiv := true })
  | .groupObj => .ok (pa, { scan with groupObj := some i })
  | .other =>
    let pa := { pa with perm := pa.perm &&& (scan.mode ||| ~~~S_IRWXO) }
    .ok (pa, { scan with mode := scan.mode &&& (pa.perm ||| ~~~S_IRWXO) })
  | .mask => .ok (pa, { scan with maskObj := some i, notEquiv := true })
  | .unknown _ => .error .eio

/-- `e->e_perm &= (mode >> 3) | ~S_IRWXO` and the new mode, for the entry `e` with an index. -/
def restrictClass (mode : U16) (acl : List Entry) (i : Nat) : List Entry × U16 :=
  let acl := acl.modify i fun e => { e with perm := e.perm &&& (mode >>> 3 ||| ~~~S_IRWXO) }
  (acl, mode &&& ((acl[i]?.elim 0 Entry.perm) <<< 3 ||| ~~~S_IRWXG))

/-- `posix_acl_create_masq`: the value returned, the list and `*mode_p`. -/
def posixAclCreateMasq (acl : List Entry) (modeP : U16) : Except Errno (Bool × List Entry × U16) :=
  do
  let (acl, scan) ← scanEntries createTurn 0 ⟨modeP, none, none, false⟩ acl
  match scan.maskObj.or scan.groupObj with
  | none => .error .eio
  | some i =>
    let (acl, mode) := restrictClass scan.mode acl i
    pure (scan.notEquiv, acl, modeP &&& ~~~S_IRWXUGO ||| mode)

def chmodTurn (i : Nat) (scan : Scan) (pa : Entry) : Except Errno (Entry × Scan) :=
  match pa.tag with
  | .userObj => .ok ({ pa with perm := (scan.mode &&& S_IRWXU) >>> 6 }, scan)
  | .user => .ok (pa, scan)
  | .group => .ok (pa, scan)
  | .groupObj => .ok (pa, { scan with groupObj := some i })
  | .mask => .ok (pa, { scan with maskObj := some i })
  | .other => .ok ({ pa with perm := scan.mode &&& S_IRWXO }, scan)
  | .unknown _ => .error .eio

def posixAclChmodMasq (acl : List Entry) (mode : U16) : Except Errno (List Entry) := do
  let (acl, scan) ← scanEntries chmodTurn 0 ⟨mode, none, none, false⟩ acl
  match scan.maskObj.or scan.groupObj with
  | none => .error .eio
  | some i => pure (acl.modify i fun e => { e with perm := (mode &&& S_IRWXG) >>> 3 })

/-! ## Permission bits -/

def modeBits (owner group other : U16) : U16 :=
  (owner &&& S_IRWXO) <<< 6 ||| (group &&& S_IRWXO) <<< 3 ||| other &&& S_IRWXO

theorem low_bit (i : Nat) : S_IRWXO.getLsbD i = decide (i < 3) := by
  by_cases inside : i < 16
  · interval_cases i <;> decide
  · rw [BitVec.getLsbD_of_ge _ _ (by omega), decide_eq_false (by omega)]

theorem S_IRWXG_eq : S_IRWXG = S_IRWXO <<< 3 := by decide

theorem S_IRWXU_eq : S_IRWXU = S_IRWXO <<< 6 := by decide

theorem S_IRWXUGO_eq : S_IRWXUGO = S_IRWXO <<< 6 ||| S_IRWXO <<< 3 ||| S_IRWXO := by decide

theorem eq_of_classes {left right : U16} (low : ∀ i < 3, left.getLsbD i = right.getLsbD i)
    (middle : ∀ i < 3, left.getLsbD (3 + i) = right.getLsbD (3 + i))
    (high : ∀ i < 3, left.getLsbD (6 + i) = right.getLsbD (6 + i))
    (above : ∀ i < 7, left.getLsbD (9 + i) = right.getLsbD (9 + i)) : left = right := by
  apply BitVec.eq_of_getLsbD_eq
  intro i inside
  rcases lt_or_ge i 3 with small | large
  · exact low i small
  rcases lt_or_ge i 6 with small | larger
  · obtain ⟨j, rfl⟩ := Nat.exists_eq_add_of_le large
    exact middle j (by omega)
  rcases lt_or_ge i 9 with small | largest
  · obtain ⟨j, rfl⟩ := Nat.exists_eq_add_of_le larger
    exact high j (by omega)
  obtain ⟨j, rfl⟩ := Nat.exists_eq_add_of_le largest
  exact above j (by omega)

theorem modeBits_of_mode (mode : U16) :
    modeBits ((mode &&& S_IRWXU) >>> 6) ((mode &&& S_IRWXG) >>> 3) (mode &&& S_IRWXO) = mode &&&
      S_IRWXUGO := by
  rw [modeBits, S_IRWXU_eq, S_IRWXG_eq, S_IRWXUGO_eq]
  apply eq_of_classes <;> intro i small <;> simp [low_bit, small] <;> grind

theorem modeBits_masked (owner group mask other : U16) :
    ((owner &&& S_IRWXO) <<< 6 ||| (group &&& S_IRWXO) <<< 3) &&& ~~~S_IRWXG |||
    (mask &&& S_IRWXO) <<< 3 |||
      other &&& S_IRWXO = modeBits owner mask other := by
  rw [modeBits, S_IRWXG_eq]
  apply eq_of_classes <;> intro i small <;> simp [low_bit, small] <;> grind

/-! ## New permissions for the three classes -/

/-- The mask, or the owning group where there is no mask. -/
def Form.classEntry (form : Form) : Entry := form.mask.getD form.group

def Form.classIndex (form : Form) : Nat :=
  if form.mask.isSome then form.users.length + 1 + (form.groups.length + 1)
    else form.users.length + 1

def Entry.withPerm (e : Entry) (perm : U16) : Entry := { e with perm }

variable {tag : Tag} {perm : U16}

theorem Single.withPerm {e : Entry} (single : Single tag e)
    (plain : perm &&& ~~~S_IRWXO = 0) : Single tag (e.withPerm perm) :=
  ⟨single.1, plain⟩

def Form.withEnds (form : Form) (owner other : U16) (ownerPlain : owner &&& ~~~S_IRWXO = 0)
    (otherPlain : other &&& ~~~S_IRWXO = 0) : Form :=
  { form with
    owner := form.owner.withPerm owner
    other := form.other.withPerm other
    ownerSingle := form.ownerSingle.withPerm ownerPlain
    otherSingle := form.otherSingle.withPerm otherPlain }

/-- A new permission for the mask, or for the owning group where there is no mask. -/
def Form.withClass (form : Form) (perm : U16) (plain : perm &&& ~~~S_IRWXO = 0) : Form :=
  { form with
    group := if form.mask.isSome then form.group else form.group.withPerm perm
    mask := form.mask.map (·.withPerm perm)
    groupSingle := by
      split_ifs
      · exact form.groupSingle
      · exact form.groupSingle.withPerm plain
    maskSingle := by
      intro m here
      obtain ⟨before, present, rfl⟩ := Option.map_eq_some_iff.mp here
      exact (form.maskSingle before present).withPerm plain
    masked := by
      intro named
      rw [Option.isSome_map]
      exact form.masked named }

theorem modify_middle {α : Type} (front : List α) (x : α) (back : List α) (f : α → α) :
    (front ++ x :: back).modify front.length f = front ++ f x :: back := by
  induction front with
  | nil => rfl
  | cons first front ih => exact congrArg (first :: ·) ih

theorem Form.split_class (form : Form) : ∃ front back, front.length = form.classIndex ∧
    form.entries = front ++ form.classEntry :: back ∧
    ∀ perm plain, (form.withClass perm plain).entries = front ++ form.classEntry.withPerm perm ::
      back := by
  cases mask : form.mask with
  | none =>
    refine ⟨form.owner :: form.users, form.groups ++ [form.other], ?_, ?_, fun perm plain => ?_⟩
    · simp [Form.classIndex, mask]
    · simp [Form.entries, Form.classEntry, closing, mask]
    · simp [Form.entries, Form.classEntry, Form.withClass, closing, mask]
  | some m =>
    refine ⟨form.owner :: (form.users ++ form.group :: form.groups), [form.other], ?_, ?_,
      fun perm plain => ?_⟩
    · simp only [Form.classIndex, mask, Option.isSome_some, if_true, List.length_cons,
        List.length_append]
      omega
    · simp [Form.entries, Form.classEntry, closing, mask]
    · simp [Form.entries, Form.classEntry, Form.withClass, closing, mask]

/-- The entry of the class changed in place. -/
theorem Form.modify_class (form : Form) (change : Entry → U16)
    (plain : change form.classEntry &&& ~~~S_IRWXO = 0) :
    form.entries.modify form.classIndex (fun e => { e with perm := change e }) =
      (form.withClass (change form.classEntry) plain).entries := by
  obtain ⟨front, back, index, entries, changed⟩ := form.split_class
  rw [entries, ← index, modify_middle, changed]
  rfl

/-! ## The scans over a valid list -/

theorem scanEntries_cons {turn : Nat → Scan → Entry → Except Errno (Entry × Scan)} {i : Nat}
    {scan next last : Scan} {pa changed : Entry} {rest changedRest : List Entry}
    (first : turn i scan pa = .ok (changed, next))
    (later : scanEntries turn (i + 1) next rest = .ok (changedRest, last)) :
    scanEntries turn i scan (pa :: rest) = .ok (changed :: changedRest, last) := by
  rw [scanEntries, first]
  simp only [bind, Except.bind, later]
  rfl

theorem scanEntries_append {turn : Nat → Scan → Entry → Except Errno (Entry × Scan)} {i : Nat}
    {scan next last : Scan} {front changedFront back changedBack : List Entry}
    (first : scanEntries turn i scan front = .ok (changedFront, next))
    (later : scanEntries turn (i + front.length) next back = .ok (changedBack, last)) :
    scanEntries turn i scan (front ++ back) = .ok (changedFront ++ changedBack, last) := by
  induction front generalizing i scan changedFront with
  | nil =>
    cases first
    exact later
  | cons pa rest ih =>
    rw [scanEntries] at first
    obtain ⟨⟨changed, middle⟩, here, first⟩ := exists_of_bind_ok first
    obtain ⟨⟨changedRest, final⟩, there, first⟩ := exists_of_bind_ok first
    cases first
    refine scanEntries_cons here (ih there ?_)
    rw [← later, List.length_cons, Nat.add_right_comm, Nat.add_assoc]

section Scanning

variable {turn : Nat → Scan → Entry → Except Errno (Entry × Scan)}

theorem scanEntries_named
    (keeps : ∀ i scan e, e.tag = tag → ∃ flag,
      turn i scan e = .ok (e, { scan with notEquiv := flag }))
    {listed : List Entry} (tagged : ∀ e ∈ listed, e.tag = tag) (i : Nat) (scan : Scan) :
    ∃ flag, scanEntries turn i scan listed = .ok (listed, { scan with notEquiv := flag }) := by
  induction listed generalizing i scan with
  | nil => exact ⟨scan.notEquiv, rfl⟩
  | cons pa rest ih =>
    obtain ⟨flag, here⟩ := keeps i scan pa (tagged pa List.mem_cons_self)
    obtain ⟨last, there⟩ := ih
      (List.forall_mem_cons.mp tagged).2 (i + 1) { scan with notEquiv := flag }
    exact ⟨last, scanEntries_cons here there⟩

/-- What a loop does with the entries of a valid list: it changes those of the owner and of
the others, remembers the owning group and the mask, and passes over named entries. -/
structure Scans (turn : Nat → Scan → Entry → Except Errno (Entry × Scan)) (form : Form)
    (start mode final : U16) (owner other : Entry) : Prop where
  first : turn 0 ⟨start, none, none, false⟩ form.owner = .ok (owner, ⟨mode, none, none, false⟩)
  users : ∀ i scan e, e.tag = .user → ∃ flag,
    turn i scan e = .ok (e, { scan with notEquiv := flag })
  group : ∀ i scan, turn i scan form.group = .ok (form.group, { scan with groupObj := some i })
  groups : ∀ i scan e, e.tag = .group → ∃ flag,
    turn i scan e = .ok (e, { scan with notEquiv := flag })
  mask : ∀ m ∈ form.mask, ∀ i scan, ∃ flag,
    turn i scan m = .ok (m, { scan with maskObj := some i, notEquiv := flag })
  last : ∀ i groupObj maskObj flag, turn i ⟨mode, groupObj, maskObj, flag⟩ form.other =
    .ok (other, ⟨final, groupObj, maskObj, flag⟩)

variable {form : Form} {owner other : Entry} {start mode final : U16}
  (scans : Scans turn form start mode final owner other)

include scans in
theorem scan_closing (i : Nat) (groupObj : Option Nat) (flag : Bool) :
    ∃ flag', scanEntries turn i ⟨mode, groupObj, none, flag⟩ (closing form.mask form.other) =
      .ok (closing form.mask other, ⟨final, groupObj, form.mask.map fun _ => i, flag'⟩) := by
  cases present : form.mask with
  | none => exact ⟨flag, scanEntries_cons (scans.last _ _ _ _) rfl⟩
  | some m =>
    obtain ⟨flag', masked⟩ := scans.mask m present i ⟨mode, groupObj, none, flag⟩
    exact ⟨flag', scanEntries_cons masked (scanEntries_cons (scans.last _ _ _ _) rfl)⟩

include scans in
theorem scan_form : ∃ scan, scanEntries turn 0 ⟨start, none, none, false⟩ form.entries =
      .ok (owner :: (form.users ++ form.group :: (form.groups ++ closing form.mask other)), scan) ∧
    scan.mode = final ∧ scan.maskObj.or scan.groupObj = some form.classIndex := by
  obtain ⟨userFlag, userScan⟩ :=
    scanEntries_named scans.users form.usersAscend.tagged 1 ⟨mode, none, none, false⟩
  obtain ⟨groupFlag, groupScan⟩ := scanEntries_named scans.groups form.groupsAscend.tagged
    (1 + form.users.length + 1) ⟨mode, some (1 + form.users.length), none, userFlag⟩
  obtain ⟨lastFlag, lastScan⟩ := scan_closing scans (1 + form.users.length + 1 + form.groups.length)
    (some (1 + form.users.length)) groupFlag
  refine ⟨_, scanEntries_cons scans.first
      (scanEntries_append userScan (scanEntries_cons (scans.group _ _)
    (scanEntries_append groupScan lastScan))), rfl, ?_⟩
  unfold Form.classIndex
  cases form.mask with
  | none => simp [Nat.add_comm]
  | some m =>
    simp only [Option.map_some, Option.some_or, Option.isSome_some, if_true, Option.some.injEq]
    omega

end Scanning

/-! ## The three functions on a valid list -/

theorem plain_low (word : U16) : word &&& S_IRWXO &&& ~~~S_IRWXO = 0 := by
  unfold S_IRWXO
  rw [BitVec.and_assoc]
  exact BitVec.and_zero

theorem plain_and (plain : perm &&& ~~~S_IRWXO = 0) (word : U16) :
    perm &&& word &&& ~~~S_IRWXO = 0 := by
  rw [BitVec.and_assoc, BitVec.and_comm word, ← BitVec.and_assoc, plain]
  exact BitVec.zero_and

theorem plain_shifted (mode : U16) : (mode &&& S_IRWXU) >>> 6 &&& ~~~S_IRWXO = 0 ∧
    (mode &&& S_IRWXG) >>> 3 &&& ~~~S_IRWXO = 0 := by
  rw [S_IRWXU_eq, S_IRWXG_eq]
  constructor
  · apply eq_of_classes <;> intro i small <;> simp [low_bit, small] <;> omega
  · apply eq_of_classes <;> intro i small <;> simp [low_bit, small] <;> omega

def Form.chmod (form : Form) (mode : U16) : Form :=
  (form.withEnds ((mode &&& S_IRWXU) >>> 6) (mode &&& S_IRWXO) (plain_shifted mode).1
      (plain_low mode)).withClass
    ((mode &&& S_IRWXG) >>> 3) (plain_shifted mode).2

theorem chmod_scans (form : Form) (mode : U16) : Scans chmodTurn form mode mode mode
    (form.owner.withPerm ((mode &&& S_IRWXU) >>> 6)) (form.other.withPerm (mode &&& S_IRWXO)) where
  first := by simp [chmodTurn, form.ownerSingle.1, Entry.withPerm]
  users i scan e tagged := ⟨scan.notEquiv, by rw [chmodTurn, tagged]⟩
  group i scan := by rw [chmodTurn, form.groupSingle.1]
  groups i scan e tagged := ⟨scan.notEquiv, by rw [chmodTurn, tagged]⟩
  mask m present i scan := ⟨scan.notEquiv, by rw [chmodTurn, (form.maskSingle m present).1]⟩
  last i groupObj maskObj flag := by simp [chmodTurn, form.otherSingle.1, Entry.withPerm]

theorem chmod_form (form : Form) (mode : U16) :
    posixAclChmodMasq form.entries mode = .ok (form.chmod mode).entries := by
  obtain ⟨scan, scanned, -, target⟩ := scan_form (chmod_scans form mode)
  unfold posixAclChmodMasq
  rw [scanned, bind_ok]
  dsimp only
  rw [target]
  exact congrArg Except.ok (Form.modify_class
    (form.withEnds ((mode &&& S_IRWXU) >>> 6) (mode &&& S_IRWXO) (plain_shifted mode).1
      (plain_low mode))
    (fun _ => (mode &&& S_IRWXG) >>> 3) (plain_shifted mode).2)

/-- The permissions that creation leaves to the three classes, and the new mode. -/
structure Created where
  owner : U16
  other : U16
  group : U16
  mode : U16

def created (owner group other mode : U16) : Created :=
  let owner := owner &&& (mode >>> 6 ||| ~~~S_IRWXO)
  let mode := mode &&& (owner <<< 6 ||| ~~~S_IRWXU)
  let other := other &&& (mode ||| ~~~S_IRWXO)
  let mode := mode &&& (other ||| ~~~S_IRWXO)
  let group := group &&& (mode >>> 3 ||| ~~~S_IRWXO)
  ⟨owner, other, group, mode &&& (group <<< 3 ||| ~~~S_IRWXG)⟩

theorem created_bits (owner group other mode : U16) :
    (created owner group other mode).mode &&& S_IRWXUGO =
      modeBits (created owner group other mode).owner (created owner group other mode).group
        (created owner group other mode).other := by
  unfold created modeBits
  rw [S_IRWXU_eq, S_IRWXG_eq, S_IRWXUGO_eq]
  apply eq_of_classes <;> intro i small <;> simp [low_bit, small] <;> grind

theorem created_within (owner group other mode : U16) :
    (created owner group other mode).mode &&& ~~~mode = 0 := by
  unfold created
  dsimp only
  ext i inside
  simp only [BitVec.getElem_and, BitVec.getElem_not, BitVec.ofNat_eq_ofNat, BitVec.getElem_zero]
  cases mode[i] <;> simp

def Form.created (form : Form) (mode : U16) : Created :=
  Acl.created form.owner.perm form.classEntry.perm form.other.perm mode

theorem Form.created_plain (form : Form) (mode : U16) :
    (form.created mode).owner &&& ~~~S_IRWXO = 0 ∧ (form.created mode).other &&& ~~~S_IRWXO = 0 ∧
      (form.created mode).group &&& ~~~S_IRWXO = 0 := by
  have classPlain : form.classEntry.perm &&& ~~~S_IRWXO = 0 := by
    unfold Form.classEntry
    cases present : form.mask with
    | none => exact form.groupSingle.2
    | some m => exact (form.maskSingle m present).2
  exact ⟨plain_and form.ownerSingle.2 _, plain_and form.otherSingle.2 _, plain_and classPlain _⟩

def Form.create (form : Form) (mode : U16) : Form :=
  (form.withEnds (form.created mode).owner (form.created mode).other (form.created_plain mode).1
    (form.created_plain mode).2.1).withClass (form.created mode).group (form.created_plain mode).2.2

theorem create_scans (form : Form) (mode : U16) : Scans createTurn form mode
    (mode &&& ((form.created mode).owner <<< 6 ||| ~~~S_IRWXU))
    (mode &&& ((form.created mode).owner <<< 6 ||| ~~~S_IRWXU) &&&
      ((form.created mode).other ||| ~~~S_IRWXO))
    (form.owner.withPerm (form.created mode).owner)
    (form.other.withPerm (form.created mode).other) where
  first := by simp [createTurn, form.ownerSingle.1, Entry.withPerm, Form.created, created]
  users i scan e tagged := ⟨true, by rw [createTurn, tagged]⟩
  group i scan := by rw [createTurn, form.groupSingle.1]
  groups i scan e tagged := ⟨true, by rw [createTurn, tagged]⟩
  mask m present i scan := ⟨true, by rw [createTurn, (form.maskSingle m present).1]⟩
  last i groupObj maskObj flag := by
    simp [createTurn, form.otherSingle.1, Entry.withPerm, Form.created, created]

theorem Form.entries_class (form : Form) :
    form.entries[form.classIndex]? = some form.classEntry := by
  obtain ⟨front, back, index, entries, -⟩ := form.split_class
  rw [entries, ← index, List.getElem?_append_right le_rfl, Nat.sub_self]
  rfl

theorem Form.withClass_perm (form : Form) (perm : U16) (plain : perm &&& ~~~S_IRWXO = 0) :
    (form.withClass perm plain).classEntry.perm = perm := by
  cases mask : form.mask <;> simp [Form.classEntry, Form.withClass, Entry.withPerm, mask]

theorem Form.withClass_index (form : Form) (perm : U16) (plain : perm &&& ~~~S_IRWXO = 0) :
    (form.withClass perm plain).classIndex = form.classIndex := by
  cases mask : form.mask <;> simp [Form.classIndex, Form.withClass, mask]

theorem restrictClass_form (form : Form) (mode : U16)
    (plain : form.classEntry.perm &&& (mode >>> 3 ||| ~~~S_IRWXO) &&& ~~~S_IRWXO = 0) :
    restrictClass mode form.entries form.classIndex =
      ((form.withClass (form.classEntry.perm &&& (mode >>> 3 ||| ~~~S_IRWXO)) plain).entries,
        mode &&& ((form.classEntry.perm &&& (mode >>> 3 ||| ~~~S_IRWXO)) <<< 3 |||
          ~~~S_IRWXG)) := by
  have changed := form.modify_class (fun e => e.perm &&& (mode >>> 3 ||| ~~~S_IRWXO)) plain
  unfold restrictClass
  dsimp only
  rw [changed, ← form.withClass_index _ plain, Form.entries_class, Option.elim_some,
    Form.withClass_perm]

theorem create_form (form : Form) (mode : U16) : ∃ notEquiv, posixAclCreateMasq form.entries mode =
      .ok (notEquiv, (form.create mode).entries, mode &&& ~~~S_IRWXUGO |||
        (form.created mode).mode) := by
  obtain ⟨scan, scanned, final, target⟩ := scan_form (create_scans form mode)
  refine ⟨scan.notEquiv, ?_⟩
  have ended := restrictClass_form
      (form.withEnds (form.created mode).owner (form.created mode).other
    (form.created_plain mode).1 (form.created_plain mode).2.1)
    (mode &&& ((form.created mode).owner <<< 6 ||| ~~~S_IRWXU) &&&
      ((form.created mode).other ||| ~~~S_IRWXO))
    (form.created_plain mode).2.2
  unfold posixAclCreateMasq
  rw [scanned, bind_ok]
  dsimp only
  rw [target, final]
  exact congrArg (fun pair : List Entry × U16 =>
    (.ok (scan.notEquiv, pair.1, mode &&& ~~~S_IRWXUGO ||| pair.2) : Except Errno _)) ended

/-! ## Modes -/

theorem equiv_named (named : tag = .user ∨ tag = .group) {listed : List Entry}
    (tagged : ∀ e ∈ listed, e.tag = tag)
    (mode : U16) (flag : Bool) :
    ∃ flag', listed.foldlM equivTurn (mode, flag) = .ok (mode, flag') := by
  induction listed generalizing flag with
  | nil => exact ⟨flag, rfl⟩
  | cons pa rest ih =>
    have turn : equivTurn (mode, flag) pa = .ok (mode, true) := by
      rw [equivTurn, tagged pa List.mem_cons_self]
      rcases named with rfl | rfl <;> rfl
    rw [List.foldlM_cons, turn, bind_ok]
    exact ih (List.forall_mem_cons.mp tagged).2 true

theorem equiv_form (form : Form) (modeP : U16) : ∃ notEquiv, posixAclEquivMode form.entries modeP =
    .ok (notEquiv, modeP &&& ~~~S_IRWXUGO |||
      modeBits form.owner.perm form.classEntry.perm form.other.perm) := by
  have owner : equivTurn (0, false) form.owner = .ok ((form.owner.perm &&& S_IRWXO) <<< 6,
      false) := by
    rw [equivTurn, form.ownerSingle.1]
    simp
  obtain ⟨userFlag, users⟩ := equiv_named (.inl rfl) form.usersAscend.tagged
    ((form.owner.perm &&& S_IRWXO) <<< 6) false
  have group : equivTurn ((form.owner.perm &&& S_IRWXO) <<< 6, userFlag) form.group =
      .ok ((form.owner.perm &&& S_IRWXO) <<< 6 ||| (form.group.perm &&& S_IRWXO) <<< 3,
        userFlag) := by
    rw [equivTurn, form.groupSingle.1]
  obtain ⟨groupFlag, groups⟩ := equiv_named (.inr rfl) form.groupsAscend.tagged
    ((form.owner.perm &&& S_IRWXO) <<< 6 ||| (form.group.perm &&& S_IRWXO) <<< 3) userFlag
  have other (mode : U16) (flag : Bool) : equivTurn (mode, flag) form.other =
      .ok (mode ||| form.other.perm &&& S_IRWXO, flag) := by
    rw [equivTurn, form.otherSingle.1]
  have ends : ∃ flag, (closing form.mask form.other).foldlM equivTurn
      ((form.owner.perm &&& S_IRWXO) <<< 6 ||| (form.group.perm &&& S_IRWXO) <<< 3, groupFlag) =
      .ok (modeBits form.owner.perm form.classEntry.perm form.other.perm, flag) := by
    unfold closing Form.classEntry
    cases present : form.mask with
    | none =>
      refine ⟨groupFlag, ?_⟩
      rw [Option.toList_none, List.nil_append, List.foldlM_cons, other]
      rfl
    | some m =>
      refine ⟨true, ?_⟩
      rw [Option.toList_some, List.singleton_append, List.foldlM_cons, equivTurn,
        (form.maskSingle m present).1]
      dsimp only
      rw [bind_ok, List.foldlM_cons, other, modeBits_masked]
      rfl
  obtain ⟨flag, ends⟩ := ends
  refine ⟨flag, ?_⟩
  unfold posixAclEquivMode Form.entries
  rw [List.foldlM_cons, owner, bind_ok, List.foldlM_append, users, bind_ok, List.foldlM_cons, group,
      bind_ok,
    List.foldlM_append, groups, bind_ok, ends]
  rfl

/-! ## Creation never widens access -/

theorem covers_left {word : U16} {want : U32} (both : covers (perm &&& word) want = true) :
    covers perm want = true := by
  rw [covers_and, Bool.and_eq_true] at both
  exact both.1

section Narrowing

variable {inode : Inode} {subject : Subject} {want : U32} {mask mask' : Option Entry}
  {first first' other other' : Entry}

theorem groupDecision_narrow
    (masks : ∀ perm, covers (effective mask' perm) want = true → covers (effective mask perm) want =
      true)
    (firsts : covers (effective mask' first'.perm) want = true →
      covers (effective mask first.perm) want = true)
    (others : covers other'.perm want = true → covers other.perm want = true)
    (same : groupId inode first' = groupId inode first) (rest : List Entry)
    (granted : groupDecision inode subject want mask' other' false (first' :: rest) = true) :
    groupDecision inode subject want mask other false (first :: rest) = true := by
  have later : ((ofGroups inode subject rest).any fun e => covers (effective mask' e.perm) want) =
      true →
      ((ofGroups inode subject rest).any fun e => covers (effective mask e.perm) want) = true := by
    simp only [List.any_eq_true]
    rintro ⟨e, listed, passes⟩
    exact ⟨e, listed, masks e.perm passes⟩
  unfold groupDecision at granted ⊢
  by_cases member : subject.inGroup (groupId inode first)
  · have matching : ofGroups inode subject (first :: rest) = first :: ofGroups inode subject rest :=
      List.filter_cons_of_pos member
    have matching' :
        ofGroups inode subject (first' :: rest) = first' :: ofGroups inode subject rest :=
      List.filter_cons_of_pos (by rw [same]; exact member)
    rw [matching', if_neg (by simp), List.any_cons, Bool.or_eq_true] at granted
    rw [matching, if_neg (by simp), List.any_cons, Bool.or_eq_true]
    exact granted.imp firsts later
  · have matching : ofGroups inode subject (first :: rest) = ofGroups inode subject rest :=
      List.filter_cons_of_neg member
    have matching' : ofGroups inode subject (first' :: rest) = ofGroups inode subject rest :=
      List.filter_cons_of_neg (by rw [same]; exact member)
    rw [matching'] at granted
    rw [matching]
    split_ifs at granted ⊢ with none
    · exact others granted
    · exact later granted

theorem Form.create_narrow (form : Form) (mode : U16)
    (granted : (form.create mode).grants inode subject want = true) :
    form.grants inode subject want = true := by
  have owners : covers (form.create mode).owner.perm want = true → covers form.owner.perm want =
      true :=
    covers_left
  have others : covers (form.create mode).other.perm want = true → covers form.other.perm want =
      true :=
    covers_left
  have class' : covers (form.created mode).group want = true → covers form.classEntry.perm want =
      true :=
    covers_left
  have masks (perm : U16) (passes : covers (effective (form.create mode).mask perm) want = true) :
      covers (effective form.mask perm) want = true := by
    have changed : (form.create mode).mask = form.mask.map (·.withPerm (form.created mode).group) :=
      rfl
    rw [covers_effective, Bool.and_eq_true] at passes ⊢
    refine ⟨passes.1, ?_⟩
    rw [changed] at passes
    unfold Form.classEntry at class'
    cases present : form.mask with
    | none => rfl
    | some m =>
      rw [present] at passes class'
      exact class' passes.2
  have firsts : covers (effective (form.create mode).mask (form.create mode).group.perm) want =
      true →
      covers (effective form.mask form.group.perm) want = true := by
    have changed : (form.create mode).group =
      if form.mask.isSome then form.group else form.group.withPerm (form.created mode).group := rfl
    intro passes
    have passes := masks _ passes
    rw [changed, covers_effective, Bool.and_eq_true] at passes
    rw [covers_effective, Bool.and_eq_true]
    refine ⟨?_, passes.2⟩
    unfold Form.classEntry at class'
    cases present : form.mask with
    | none =>
      rw [present] at passes class'
      exact class' passes.1
    | some m =>
      rw [present] at passes
      exact passes.1
  have same : groupId inode (form.create mode).group = groupId inode form.group := by
    have changed : (form.create mode).group =
      if form.mask.isSome then form.group else form.group.withPerm (form.created mode).group := rfl
    rw [changed]
    split_ifs <;> rfl
  unfold Form.grants at granted ⊢
  split_ifs at granted ⊢ with owns
  · exact owners granted
  · have users : (form.create mode).users = form.users := rfl
    rw [users] at granted
    cases found : form.users.find? fun e => decide (e.id = subject.fsuid) with
    | some e =>
      rw [found] at granted
      exact masks e.perm granted
    | none =>
      rw [found] at granted
      exact groupDecision_narrow masks firsts others same form.groups granted

end Narrowing

/-! ## Lists and modes stay consistent -/

def Entry.isNamed (e : Entry) : Bool := e.tag = .user || e.tag = .group

theorem Form.named_entries (form : Form) :
    form.entries.filter Entry.isNamed = form.users ++ form.groups := by
  have users : form.users.filter Entry.isNamed = form.users :=
    List.filter_eq_self.mpr fun e listed => by
      simp [Entry.isNamed, form.usersAscend.tagged e listed]
  have groups : form.groups.filter Entry.isNamed = form.groups :=
    List.filter_eq_self.mpr fun e listed => by
      simp [Entry.isNamed, form.groupsAscend.tagged e listed]
  have ends : (closing form.mask form.other).filter Entry.isNamed = [] := by
    rw [List.filter_eq_nil_iff]
    intro e listed
    rcases List.mem_append.mp listed with listed | listed
    · simp [Entry.isNamed, (form.maskSingle e (Option.mem_toList.mp listed)).1]
    · simp [Entry.isNamed, List.mem_singleton.mp listed, form.otherSingle.1]
  unfold Form.entries
  rw [List.filter_cons_of_neg (by simp [Entry.isNamed, form.ownerSingle.1]), List.filter_append,
      users,
    List.filter_cons_of_neg (by simp [Entry.isNamed, form.groupSingle.1]), List.filter_append,
      groups, ends,
    List.append_nil]

theorem mode_low (mode bits : U16) : (mode &&& ~~~S_IRWXUGO ||| bits) &&& S_IRWXUGO = bits &&&
    S_IRWXUGO := by
  ext i inside
  simp only [BitVec.getElem_and, BitVec.getElem_or, BitVec.getElem_not]
  cases S_IRWXUGO[i] <;> simp

/-- For a valid list: after `posix_acl_chmod_masq` the list is valid, its named entries are
the same, and its mode is the one given; after `posix_acl_create_masq` the list is valid,
its mode is the resulting one, which is within the one asked for, and no access is granted
that the list denied before. -/
theorem modes_consistent {acl : List Entry} (valid : posixAclValid acl = .ok ()) (mode : U16) :
    (∃ changed, posixAclChmodMasq acl mode = .ok changed ∧ posixAclValid changed = .ok () ∧
      changed.filter Entry.isNamed = acl.filter Entry.isNamed ∧
      ∀ modeP, ∃ notEquiv, posixAclEquivMode changed modeP =
        .ok (notEquiv, modeP &&& ~~~S_IRWXUGO ||| mode &&& S_IRWXUGO)) ∧
    ∃ ret changed result, posixAclCreateMasq acl mode = .ok (ret, changed, result) ∧
        posixAclValid changed = .ok () ∧
      (∀ modeP, ∃ notEquiv, posixAclEquivMode changed modeP =
        .ok (notEquiv, modeP &&& ~~~S_IRWXUGO ||| result &&& S_IRWXUGO)) ∧
      result &&& S_IRWXUGO &&& ~~~mode = 0 ∧
      ∀ inode subject want, posixAclPermission inode changed subject want = .ok () →
        posixAclPermission inode acl subject want = .ok () := by
  obtain ⟨form, rfl⟩ := (valid_iff_form acl).mp valid
  constructor
  · refine ⟨_, chmod_form form mode, (valid_iff_form _).mpr ⟨_, rfl⟩, ?_, fun modeP => ?_⟩
    · rw [Form.named_entries, Form.named_entries]
      rfl
    · obtain ⟨notEquiv, equiv⟩ := equiv_form (form.chmod mode) modeP
      refine ⟨notEquiv, ?_⟩
      rw [equiv, ← modeBits_of_mode mode, Form.chmod, Form.withClass_perm]
      rfl
  · obtain ⟨ret, created⟩ := create_form form mode
    refine ⟨ret, _, _, created, (valid_iff_form _).mpr ⟨_, rfl⟩, fun modeP => ?_, ?_, ?_⟩
    · obtain ⟨notEquiv, equiv⟩ := equiv_form (form.create mode) modeP
      refine ⟨notEquiv, ?_⟩
      rw [equiv, mode_low, Form.created, created_bits, Form.create, Form.withClass_perm]
      rfl
    · rw [mode_low, BitVec.and_assoc, BitVec.and_comm S_IRWXUGO, ← BitVec.and_assoc, Form.created,
        created_within]
      exact BitVec.zero_and
    · intro inode subject want granted
      unfold posixAclPermission at granted ⊢
      rw [permission_form] at granted ⊢
      cases decision : (form.create mode).grants inode subject
          (want &&& (MAY_READ ||| MAY_WRITE ||| MAY_EXEC ||| MAY_NOT_BLOCK)) with
      | false =>
        rw [decision] at granted
        cases granted
      | true =>
        rw [form.create_narrow mode decision]
        rfl

theorem modes_consistent_shared : ∃ changed, posixAclChmodMasq sharedAcl 0o640 = .ok changed ∧
    posixAclValid changed = .ok () := by
  have shared : posixAclValid sharedAcl = .ok () := rfl
  obtain ⟨changed, ran, valid, -⟩ := (modes_consistent shared 0o640).1
  exact ⟨changed, ran, valid⟩

end RouterKernel.Acl
