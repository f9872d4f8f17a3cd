import RouterKernel.Foundation.Words

/-!
Contract: the access control lists of `fs/posix_acl.c`.

Owns:
- entries, `posix_acl_valid`, and the form of the lists it accepts.

Does not own: reference counts and allocation; an access control list is the list of its
entries.
-/

namespace RouterKernel.Acl

open RouterKernel.Foundation

/-! ## Model -/

/-- The `e_tag` of an entry. -/
inductive Tag where
  | userObj
  | user
  | groupObj
  | group
  | mask
  | other
  | unknown (value : U16)
deriving DecidableEq, Repr

/-- `struct posix_acl_entry`. -/
structure Entry where
  tag : Tag
  perm : U16
  id : U32
deriving DecidableEq, Repr

inductive Errno where
  | EACCES
  | EINVAL
  | eio
deriving DecidableEq, Repr

def ACL_UNDEFINED_ID : U32 := 0xffffffff

/-- `ACL_READ | ACL_WRITE | ACL_EXECUTE`, which is also `S_IRWXO`. -/
def S_IRWXO : U16 := 0o7

/-- The local variables of `posix_acl_valid`; the state 0 is `none`. -/
structure Validation where
  state : Option Tag
  id : U32
  needsMask : Bool
deriving DecidableEq, Repr

/-- The entries of named users and of named groups. -/
def validNamed (expected : Tag) (v : Validation) (pa : Entry) : Except Errno Validation :=
  if v.state ≠ some expected then .error .EINVAL
  else if pa.id = ACL_UNDEFINED_ID ∨ pa.id < v.id then .error .EINVAL
  else .ok { v with id := pa.id + 1, needsMask := true }

def validTurn (v : Validation) (pa : Entry) : Except Errno Validation :=
  if pa.perm &&& ~~~S_IRWXO ≠ 0 then .error .EINVAL
  else
    match pa.tag with
    | .userObj =>
      if v.state = some .userObj then .ok { v with id := 0, state := some .user }
        else .error .EINVAL
    | .user => validNamed .user v pa
    | .groupObj =>
      if v.state = some .user then .ok { v with id := 0, state := some .group } else .error .EINVAL
    | .group => validNamed .group v pa
    | .mask => if v.state ≠ some .group then .error .EINVAL else .ok { v with state := some .other }
    | .other =>
      if v.state = some .other ∨ (v.state = some .group ∧ v.needsMask = false) then
        .ok { v with state := none }
      else .error .EINVAL
    | .unknown _ => .error .EINVAL

def validFrom (v : Validation) (acl : List Entry) : Except Errno Unit := do
  let v ← acl.foldlM validTurn v
  if v.state = none then .ok () else .error .EINVAL

def posixAclValid (acl : List Entry) : Except Errno Unit := validFrom ⟨some .userObj, 0, false⟩ acl

/-! ## The form of a valid list -/

/-- Entries of one tag with rising ids, the first of them at least `low`. -/
def Ascending (tag : Tag) : Nat → List Entry → Prop
  | _, [] => True
  | low, e :: rest => e.tag = tag ∧ e.perm &&& ~~~S_IRWXO = 0 ∧ e.id ≠ ACL_UNDEFINED_ID ∧
      low ≤ e.id.toNat ∧ Ascending tag (e.id.toNat + 1) rest

def Single (tag : Tag) (e : Entry) : Prop := e.tag = tag ∧ e.perm &&& ~~~S_IRWXO = 0

/-- An access control list by its parts: the owner, named users, the owning group, named
groups, the mask that named entries need, and the others. -/
structure Form where
  owner : Entry
  users : List Entry
  group : Entry
  groups : List Entry
  mask : Option Entry
  other : Entry
  ownerSingle : Single .userObj owner
  usersAscend : Ascending .user 0 users
  groupSingle : Single .groupObj group
  groupsAscend : Ascending .group 0 groups
  maskSingle : ∀ m ∈ mask, Single .mask m
  otherSingle : Single .other other
  masked : users ≠ [] ∨ groups ≠ [] → mask.isSome

/-- The entries from the mask on. -/
def closing (mask : Option Entry) (other : Entry) : List Entry := mask.toList ++ [other]

def Form.entries (form : Form) : List Entry :=
  form.owner :: (form.users ++ form.group :: (form.groups ++ closing form.mask form.other))

theorem validFrom_cons (v : Validation) (pa : Entry) (rest : List Entry) :
    validFrom v (pa :: rest) = (validTurn v pa >>= fun v => validFrom v rest) := by
  unfold validFrom
  rw [List.foldlM_cons, bind_assoc]

theorem validFrom_cons_iff (v : Validation) (pa : Entry) (rest : List Entry) :
    validFrom v (pa :: rest) = .ok () ↔ ∃ next, validTurn v pa = .ok next ∧
      validFrom next rest = .ok () := by
  rw [validFrom_cons]
  cases turn : validTurn v pa with
  | error err => simp [bind, Except.bind]
  | ok next => simp [bind, Except.bind]

/-! ## What each state accepts -/

section Turns

variable {id : U32} {needs : Bool} {pa : Entry} {next : Validation}

/-- An entry for a named user or group. -/
def Named (tag : Tag) (low : U32) (e : Entry) : Prop :=
  e.tag = tag ∧ e.perm &&& ~~~S_IRWXO = 0 ∧ e.id ≠ ACL_UNDEFINED_ID ∧ low ≤ e.id

theorem validNamed_ok {tag : Tag} : validNamed tag ⟨some tag, id, needs⟩ pa = .ok next ↔
    (pa.id ≠ ACL_UNDEFINED_ID ∧ id ≤ pa.id) ∧ ⟨some tag, pa.id + 1, true⟩ = next := by
  unfold validNamed
  rw [if_neg (by simp)]
  split_ifs with refused
  · simp only [false_iff, not_and]
    rintro ⟨defined, above⟩
    rcases refused with undefined | below
    · exact absurd undefined defined
    · bv_omega
  · rw [not_or, BitVec.not_lt] at refused
    simp [refused]

theorem validNamed_early {tag : Tag} {state : Option Tag} (wrong : state ≠ some tag) :
    validNamed tag ⟨state, id, needs⟩ pa = .error .EINVAL :=
  if_pos wrong

theorem validTurn_done : validTurn ⟨none, id, needs⟩ pa ≠ .ok next := by
  unfold validTurn validNamed
  cases pa.tag <;> simp

theorem validTurn_other : validTurn ⟨some .other, id, needs⟩ pa = .ok next ↔
    Single .other pa ∧ ⟨none, id, needs⟩ = next := by
  unfold validTurn validNamed Single
  cases tag : pa.tag <;> by_cases perm : pa.perm &&& ~~~S_IRWXO = 0#16 <;> simp [perm]

theorem validTurn_group : validTurn ⟨some .group, id, needs⟩ pa = .ok next ↔
    (Named .group id pa ∧ ⟨some .group, pa.id + 1, true⟩ = next) ∨
    (Single .mask pa ∧ ⟨some .other, id, needs⟩ = next) ∨
    (Single .other pa ∧ needs = false ∧ ⟨none, id, needs⟩ = next) := by
  unfold validTurn Single Named
  cases tag : pa.tag <;> by_cases perm :
    pa.perm &&& ~~~S_IRWXO = 0#16 <;> simp [perm, validNamed_ok, validNamed_early]
  cases needs <;> simp

theorem validTurn_user : validTurn ⟨some .user, id, needs⟩ pa = .ok next ↔
    (Named .user id pa ∧ ⟨some .user, pa.id + 1, true⟩ = next) ∨
    (Single .groupObj pa ∧ ⟨some .group, 0, needs⟩ = next) := by
  unfold validTurn Single Named
  cases tag : pa.tag <;> by_cases perm :
    pa.perm &&& ~~~S_IRWXO = 0#16 <;> simp [perm, validNamed_ok, validNamed_early]

theorem validTurn_userObj : validTurn ⟨some .userObj, id, needs⟩ pa = .ok next ↔
    Single .userObj pa ∧ ⟨some .user, 0, needs⟩ = next := by
  unfold validTurn validNamed Single
  cases tag : pa.tag <;> by_cases perm : pa.perm &&& ~~~S_IRWXO = 0#16 <;> simp [perm]

end Turns

theorem validFrom_done (id : U32) (needs : Bool) (rest : List Entry) :
    validFrom ⟨none, id, needs⟩ rest = .ok () ↔ rest = [] := by
  cases rest with
  | nil => simp [validFrom, pure, Except.pure, bind, Except.bind]
  | cons pa rest =>
    rw [validFrom_cons_iff]
    constructor
    · rintro ⟨next, turn, -⟩
      exact absurd turn validTurn_done
    · nofun

theorem validFrom_other (id : U32) (needs : Bool) (rest : List Entry) :
    validFrom ⟨some .other, id, needs⟩ rest = .ok () ↔ ∃ other, Single .other other ∧
      rest = [other] := by
  cases rest with
  | nil => simp [validFrom, pure, Except.pure, bind, Except.bind]
  | cons pa rest =>
    rw [validFrom_cons_iff]
    constructor
    · rintro ⟨next, turn, valid⟩
      obtain ⟨single, rfl⟩ := validTurn_other.mp turn
      rw [validFrom_done] at valid
      exact ⟨pa, single, by rw [valid]⟩
    · rintro ⟨other, single, same⟩
      cases same
      exact ⟨_, validTurn_other.mpr ⟨single, rfl⟩, (validFrom_done _ _ _).mpr rfl⟩

/-- The end of a list from the named groups on. -/
def Ending (low : U32) (needs : Bool) (rest : List Entry) : Prop :=
  ∃ groups mask other, rest = groups ++ closing mask other ∧ Ascending .group low.toNat groups ∧
    (∀ m ∈ mask, Single .mask m) ∧ Single .other other ∧ (needs = true ∨ groups ≠ [] → mask.isSome)

/-- The end of a list from the named users on. -/
def Middle (low : U32) (needs : Bool) (rest : List Entry) : Prop :=
  ∃ users group ending, rest = users ++ group :: ending ∧ Ascending .user low.toNat users ∧
    Single .groupObj group ∧ Ending 0 (needs || !users.isEmpty) ending

theorem succ_of_defined {id : U32} (defined : id ≠ ACL_UNDEFINED_ID) :
    (id + 1).toNat = id.toNat + 1 := by
  unfold ACL_UNDEFINED_ID at defined
  bv_omega

variable {low : U32} {rest : List Entry}

theorem ascending_cons {tag : Tag} {e : Entry} :
    Ascending tag low.toNat (e :: rest) ↔ Named tag low e ∧
      Ascending tag (e.id + 1).toNat rest := by
  unfold Named
  constructor
  · rintro ⟨tagged, plain, defined, above, ascend⟩
    rw [succ_of_defined defined]
    exact ⟨⟨tagged, plain, defined, above⟩, ascend⟩
  · rintro ⟨⟨tagged, plain, defined, above⟩, ascend⟩
    rw [succ_of_defined defined] at ascend
    exact ⟨tagged, plain, defined, above, ascend⟩

theorem Ending.cons {needs : Bool} {pa : Entry} : Ending low needs (pa :: rest) ↔
      (Named .group low pa ∧ Ending (pa.id + 1) true rest) ∨
      (Single .mask pa ∧ ∃ other, Single .other other ∧ rest = [other]) ∨
      (Single .other pa ∧ needs = false ∧ rest = []) := by
  constructor
  · rintro ⟨groups, mask, other, same, ascend, maskSingle, otherSingle, masked⟩
    cases groups with
    | cons first groups =>
      cases same
      obtain ⟨named, ascend⟩ := ascending_cons.mp ascend
      exact .inl ⟨named, groups, mask, other, rfl, ascend, maskSingle, otherSingle, fun _ =>
        masked (.inr (by simp))⟩
    | nil =>
      cases mask with
      | some m =>
        cases same
        exact .inr (.inl ⟨maskSingle _ rfl, other, otherSingle, rfl⟩)
      | none =>
        cases same
        refine .inr (.inr ⟨otherSingle, ?_, rfl⟩)
        cases needs with
        | false => rfl
        | true => cases masked (.inl rfl)
  · rintro (⟨named, groups, mask, other, rfl, ascend, maskSingle, otherSingle, masked⟩ |
      ⟨single, other, otherSingle, rfl⟩ | ⟨single, rfl, rfl⟩)
    · exact ⟨pa :: groups, mask, other, rfl, ascending_cons.mpr ⟨named, ascend⟩, maskSingle,
        otherSingle,
        fun _ => masked (.inl rfl)⟩
    · refine ⟨[], some pa, other, rfl, trivial, ?_, otherSingle, fun _ => rfl⟩
      rintro m ⟨⟩
      exact single
    · exact ⟨[], none, pa, rfl, trivial, nofun, single, by simp⟩

theorem validFrom_group (id : U32) (needs : Bool) (rest : List Entry) :
    validFrom ⟨some .group, id, needs⟩ rest = .ok () ↔ Ending id needs rest := by
  induction rest generalizing id needs with
  | nil => simp [validFrom, pure, Except.pure, bind, Except.bind, Ending, closing]
  | cons pa rest ih =>
    rw [validFrom_cons_iff, Ending.cons]
    constructor
    · rintro ⟨next, turn, valid⟩
      rcases validTurn_group.mp turn with ⟨named, rfl⟩ | ⟨single, rfl⟩ | ⟨single, unneeded, rfl⟩
      · exact .inl ⟨named, (ih _ _).mp valid⟩
      · exact .inr (.inl ⟨single, (validFrom_other _ _ _).mp valid⟩)
      · exact .inr (.inr ⟨single, unneeded, (validFrom_done _ _ _).mp valid⟩)
    · rintro (⟨named, ending⟩ | ⟨single, ending⟩ | ⟨single, unneeded, ending⟩)
      · exact ⟨_, validTurn_group.mpr (.inl ⟨named, rfl⟩), (ih _ _).mpr ending⟩
      · exact ⟨_, validTurn_group.mpr (.inr (.inl ⟨single, rfl⟩)),
          (validFrom_other _ _ _).mpr ending⟩
      · exact ⟨_, validTurn_group.mpr (.inr (.inr ⟨single, unneeded, rfl⟩)),
          (validFrom_done _ _ _).mpr ending⟩

theorem Middle.cons {needs : Bool} {pa : Entry} : Middle low needs (pa :: rest) ↔
      (Named .user low pa ∧ Middle (pa.id + 1) true rest) ∨
        (Single .groupObj pa ∧ Ending 0 needs rest) := by
  constructor
  · rintro ⟨users, group, ending, same, ascend, single, ends⟩
    cases users with
    | nil =>
      cases same
      rw [List.isEmpty_nil, Bool.not_true, Bool.or_false] at ends
      exact .inr ⟨single, ends⟩
    | cons first users =>
      cases same
      obtain ⟨named, ascend⟩ := ascending_cons.mp ascend
      rw [List.isEmpty_cons, Bool.not_false, Bool.or_true] at ends
      exact .inl ⟨named, users, group, ending, rfl, ascend, single, ends⟩
  · rintro (⟨named, users, group, ending, rfl, ascend, single, ends⟩ | ⟨single, ends⟩)
    · refine ⟨pa :: users, group, ending, rfl, ascending_cons.mpr ⟨named, ascend⟩, single, ?_⟩
      rw [Bool.true_or] at ends
      rw [List.isEmpty_cons, Bool.not_false, Bool.or_true]
      exact ends
    · refine ⟨[], pa, rest, rfl, trivial, single, ?_⟩
      rw [List.isEmpty_nil, Bool.not_true, Bool.or_false]
      exact ends

theorem validFrom_user (id : U32) (needs : Bool) (rest : List Entry) :
    validFrom ⟨some .user, id, needs⟩ rest = .ok () ↔ Middle id needs rest := by
  induction rest generalizing id needs with
  | nil => simp [validFrom, pure, Except.pure, bind, Except.bind, Middle]
  | cons pa rest ih =>
    rw [validFrom_cons_iff, Middle.cons]
    constructor
    · rintro ⟨next, turn, valid⟩
      rcases validTurn_user.mp turn with ⟨named, rfl⟩ | ⟨single, rfl⟩
      · exact .inl ⟨named, (ih _ _).mp valid⟩
      · exact .inr ⟨single, (validFrom_group _ _ _).mp valid⟩
    · rintro (⟨named, middle⟩ | ⟨single, ending⟩)
      · exact ⟨_, validTurn_user.mpr (.inl ⟨named, rfl⟩), (ih _ _).mpr middle⟩
      · exact ⟨_, validTurn_user.mpr (.inr ⟨single, rfl⟩), (validFrom_group _ _ _).mpr ending⟩

/-- `posix_acl_valid` accepts the lists of the form of an access control list. -/
theorem valid_iff_form (acl : List Entry) : posixAclValid acl = .ok () ↔ ∃ form : Form,
    acl = form.entries := by
  unfold posixAclValid
  constructor
  · intro valid
    cases acl with
    | nil => cases valid
    | cons owner rest =>
      obtain ⟨next, turn, valid⟩ := (validFrom_cons_iff _ _ _).mp valid
      obtain ⟨ownerSingle, rfl⟩ := validTurn_userObj.mp turn
      obtain ⟨users, group, ending, rfl, usersAscend, groupSingle, groups, mask, other, rfl,
        groupsAscend, maskSingle, otherSingle, masked⟩ := (validFrom_user _ _ _).mp valid
      refine ⟨⟨owner, users, group, groups, mask, other, ownerSingle, usersAscend, groupSingle,
        groupsAscend, maskSingle, otherSingle, fun named => masked ?_⟩, rfl⟩
      simpa using named
  · rintro ⟨form, rfl⟩
    refine (validFrom_cons_iff _ _ _).mpr ⟨_, validTurn_userObj.mpr ⟨form.ownerSingle, rfl⟩, ?_⟩
    refine (validFrom_user _ _ _).mpr ⟨form.users, form.group, _, rfl, form.usersAscend,
        form.groupSingle,
      form.groups, form.mask, form.other, rfl, form.groupsAscend, form.maskSingle, form.otherSingle,
        ?_⟩
    intro named
    apply form.masked
    simpa using named

end RouterKernel.Acl
