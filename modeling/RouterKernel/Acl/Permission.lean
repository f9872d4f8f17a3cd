import RouterKernel.Acl.Entries

/-!
Contract: the access check of `fs/posix_acl.c`.

Owns:
- `posix_acl_permission`;
- its decision in terms of the parts of a valid list;
- the access check algorithm of POSIX.1e, and that the function implements it.

Does not own: the search in the sorted table of supplementary groups; `in_group_p` is
membership in the subject's set of groups.
-/

namespace RouterKernel.Acl

open RouterKernel.Foundation

/-! ## Model -/

structure Inode where
  uid : U32
  gid : U32
deriving DecidableEq, Repr

structure Subject where
  fsuid : U32
  inGroup : U32 → Bool

def MAY_EXEC : U32 := 0x1
def MAY_WRITE : U32 := 0x2
def MAY_READ : U32 := 0x4
def MAY_NOT_BLOCK : U32 := 0x80

/-- `(perm & want) == want`. -/
def covers (perm : U16) (want : U32) : Bool := perm.setWidth 32 &&& want == want

/-- The code behind the label `check_perm`. -/
def checkPerm (pa : Entry) (want : U32) : Except Errno Unit :=
  if covers pa.perm want then .ok () else .error .EACCES

/-- The code behind the label `mask`; `rest` are the entries behind `pa`. -/
def checkMask (pa : Entry) (want : U32) : List Entry → Except Errno Unit
  | [] => checkPerm pa want
  | maskObj :: rest =>
    if maskObj.tag = .mask then
      if covers (pa.perm &&& maskObj.perm) want then .ok () else .error .EACCES
    else checkMask pa want rest

def permissionFrom (inode : Inode) (subject : Subject) (want : U32) :
    Bool → List Entry → Except Errno Unit
  | _, [] => .error .eio
  | found, pa :: rest =>
    match pa.tag with
    | .userObj =>
      if inode.uid = subject.fsuid then checkPerm pa want
      else permissionFrom inode subject want found rest
    | .user =>
      if pa.id = subject.fsuid then checkMask pa want rest
      else permissionFrom inode subject want found rest
    | .groupObj =>
      if subject.inGroup inode.gid then
        if covers pa.perm want then checkMask pa want rest
        else permissionFrom inode subject want true rest
      else permissionFrom inode subject want found rest
    | .group =>
      if subject.inGroup pa.id then
        if covers pa.perm want then checkMask pa want rest
        else permissionFrom inode subject want true rest
      else permissionFrom inode subject want found rest
    | .mask => permissionFrom inode subject want found rest
    | .other => if found then .error .EACCES else checkPerm pa want
    | .unknown _ => .error .eio

def posixAclPermission (inode : Inode) (acl : List Entry) (subject : Subject) (want : U32) :
    Except Errno Unit :=
  permissionFrom inode subject (want &&& (MAY_READ ||| MAY_WRITE ||| MAY_EXEC ||| MAY_NOT_BLOCK))
    false acl

/-! ## Permissions -/

theorem covers_and (perm mask : U16) (want : U32) :
    covers (perm &&& mask) want = (covers perm want && covers mask want) := by
  unfold covers
  rw [Bool.eq_iff_iff, Bool.and_eq_true, beq_iff_eq, beq_iff_eq, beq_iff_eq, BitVec.setWidth_and]
  constructor
  · intro both
    constructor
    · rw [← both]
      ext i inside
      simp only [BitVec.getElem_and]
      cases (BitVec.setWidth 32 perm)[i] <;> cases (BitVec.setWidth 32 mask)[i] <;> simp
    · rw [← both]
      ext i inside
      simp only [BitVec.getElem_and]
      cases (BitVec.setWidth 32 perm)[i] <;> cases (BitVec.setWidth 32 mask)[i] <;> simp
  · rintro ⟨left, right⟩
    rw [BitVec.and_assoc, right, left]

/-- A permission under the mask, if there is one. -/
def effective (mask : Option Entry) (perm : U16) : U16 := mask.elim perm (perm &&& ·.perm)

theorem covers_effective (mask : Option Entry) (perm : U16) (want : U32) :
    covers (effective mask perm) want = (covers perm want && mask.all (covers ·.perm want)) := by
  cases mask with
  | none => simp [effective]
  | some m => exact covers_and perm m.perm want

def verdict (granted : Bool) : Except Errno Unit := if granted then .ok () else .error .EACCES

/-! ## The decision by the parts of a list -/

def groupId (inode : Inode) (e : Entry) : U32 := if e.tag = .groupObj then inode.gid else e.id

/-- The entries of the owning group and of named groups that match the subject. -/
def ofGroups (inode : Inode) (subject : Subject) (listed : List Entry) : List Entry :=
  listed.filter fun e => subject.inGroup (groupId inode e)

/-- The decision once no user has matched; `found` says that a group has. -/
def groupDecision (inode : Inode) (subject : Subject) (want : U32) (mask : Option Entry)
    (other : Entry)
    (found : Bool) (listed : List Entry) : Bool :=
  if found = false ∧ ofGroups inode subject listed = [] then covers other.perm want
  else (ofGroups inode subject listed).any fun e => covers (effective mask e.perm) want

def Form.grants (form : Form) (inode : Inode) (subject : Subject) (want : U32) : Bool :=
  if inode.uid = subject.fsuid then covers form.owner.perm want
  else
    match form.users.find? fun e => e.id = subject.fsuid with
    | some e => covers (effective form.mask e.perm) want
    | none => groupDecision inode subject want form.mask form.other false
      (form.group :: form.groups)

section Decision

variable {inode : Inode} {subject : Subject} {want : U32} {mask : Option Entry} {other : Entry}
  (maskTagged : ∀ m ∈ mask, m.tag = .mask) (otherTagged : other.tag = .other)

include maskTagged otherTagged in
theorem checkMask_closing (pa : Entry) {skipped : List Entry}
    (plain : ∀ e ∈ skipped, e.tag ≠ .mask) :
    checkMask pa want (skipped ++ closing mask other) =
      verdict (covers (effective mask pa.perm) want) := by
  induction skipped with
  | nil =>
    cases mask with
    | none =>
      have here : checkMask pa want [other] = checkMask pa want [] :=
        if_neg (by rw [otherTagged]; simp)
      exact here
    | some m => exact if_pos (maskTagged m rfl)
  | cons e rest ih =>
    rw [List.cons_append, checkMask, if_neg (plain e List.mem_cons_self)]
    exact ih (List.forall_mem_cons.mp plain).2

include maskTagged otherTagged in
theorem permissionFrom_closing (found : Bool) :
    permissionFrom inode subject want found (closing mask other) =
      verdict (!found && covers other.perm want) := by
  cases mask with
  | none => cases found <;> simp [closing, permissionFrom, otherTagged, verdict, checkPerm]
  | some m => cases found <;> simp [closing, permissionFrom, maskTagged m rfl, otherTagged, verdict,
    checkPerm]

theorem permissionFrom_group {pa : Entry} (tagged : pa.tag = .groupObj ∨ pa.tag = .group)
    (found : Bool)
    (rest : List Entry) :
    permissionFrom inode subject want found (pa :: rest) = if subject.inGroup (groupId inode pa)
        then
        if covers pa.perm want then checkMask pa want rest
        else permissionFrom inode subject want true rest
      else permissionFrom inode subject want found rest := by
  rcases tagged with tagged | tagged <;> simp [permissionFrom, groupId, tagged]

include maskTagged otherTagged in
theorem permissionFrom_groups {listed : List Entry}
    (tagged : ∀ e ∈ listed, e.tag = .groupObj ∨ e.tag = .group) (found : Bool) :
    permissionFrom inode subject want found (listed ++ closing mask other) =
      verdict (groupDecision inode subject want mask other found listed) := by
  induction listed generalizing found with
  | nil =>
    rw [List.nil_append, permissionFrom_closing maskTagged otherTagged]
    cases found <;> simp [groupDecision, ofGroups]
  | cons pa rest ih =>
    have taggedRest : ∀ e ∈ rest, e.tag = .groupObj ∨ e.tag = .group :=
      (List.forall_mem_cons.mp tagged).2
    have plain : ∀ e ∈ rest, e.tag ≠ .mask := by
      intro e listed
      rcases taggedRest e listed with tag | tag <;> simp [tag]
    rw [List.cons_append, permissionFrom_group (tagged pa List.mem_cons_self)]
    by_cases member : subject.inGroup (groupId inode pa)
    · rw [if_pos member]
      have matching : ofGroups inode subject (pa :: rest) = pa :: ofGroups inode subject rest :=
        List.filter_cons_of_pos member
      by_cases enough : covers pa.perm want
      · rw [if_pos enough, checkMask_closing maskTagged otherTagged pa plain]
        -- a later match passes only if the mask does, and then this entry passes too
        have later : (ofGroups inode subject rest).any (fun e =>
            covers (effective mask e.perm) want) = true →
            covers (effective mask pa.perm) want = true := by
          rw [List.any_eq_true]
          rintro ⟨e, -, passes⟩
          rw [covers_effective, Bool.and_eq_true] at passes ⊢
          exact ⟨enough, passes.2⟩
        rw [groupDecision, matching, if_neg (by simp), List.any_cons]
        cases here : covers (effective mask pa.perm) want with
        | true => rfl
        | false =>
          rw [here] at later
          rw [Bool.false_or, Bool.eq_false_iff.mpr fun passes => Bool.false_ne_true (later passes)]
      · rw [if_neg enough, ih taggedRest]
        simp [groupDecision, matching, covers_effective, enough]
    · rw [if_neg member, ih taggedRest]
      have matching : ofGroups inode subject (pa :: rest) = ofGroups inode subject rest :=
        List.filter_cons_of_neg member
      rw [groupDecision, groupDecision, matching]

include maskTagged otherTagged in
theorem permissionFrom_users {users listed : List Entry} (usersTagged : ∀ e ∈ users, e.tag = .user)
    (tagged : ∀ e ∈ listed, e.tag = .groupObj ∨ e.tag = .group) :
    permissionFrom inode subject want false (users ++ (listed ++ closing mask other)) =
      verdict (match users.find? fun e => e.id = subject.fsuid with
        | some e => covers (effective mask e.perm) want
        | none => groupDecision inode subject want mask other false listed) := by
  induction users with
  | nil => exact permissionFrom_groups maskTagged otherTagged tagged false
  | cons pa rest ih =>
    have restTagged : ∀ e ∈ rest, e.tag = .user :=
      (List.forall_mem_cons.mp usersTagged).2
    have turn : permissionFrom inode subject want false
        (pa :: (rest ++ (listed ++ closing mask other))) =
        if pa.id = subject.fsuid then checkMask pa want (rest ++ (listed ++ closing mask other))
        else permissionFrom inode subject want false (rest ++ (listed ++ closing mask other)) := by
      rw [permissionFrom, usersTagged pa List.mem_cons_self]
    rw [List.cons_append, turn]
    by_cases same : pa.id = subject.fsuid
    · have plain : ∀ e ∈ rest ++ listed, e.tag ≠ .mask := by
        intro e within
        rcases List.mem_append.mp within with within | within
        · simp [restTagged e within]
        · rcases tagged e within with tag | tag <;> simp [tag]
      rw [if_pos same, ← List.append_assoc, checkMask_closing maskTagged otherTagged pa plain,
        List.find?_cons_of_pos (by simpa using same)]
    · rw [if_neg same, ih restTagged, List.find?_cons_of_neg (by simpa using same)]

end Decision

variable {tag : Tag} {listed : List Entry} {low : Nat} {e : Entry}

theorem Ascending.tagged (ascend : Ascending tag low listed) : ∀ e ∈ listed, e.tag = tag := by
  induction listed generalizing low with
  | nil => simp
  | cons first rest ih =>
    intro e within
    rcases List.mem_cons.mp within with rfl | within
    · exact ascend.1
    · exact ih ascend.2.2.2.2 e within

theorem permission_form (form : Form) (inode : Inode) (subject : Subject) (want : U32) :
    permissionFrom inode subject want false form.entries =
      verdict (form.grants inode subject want) := by
  have maskTagged : ∀ m ∈ form.mask, m.tag = .mask := fun m here => (form.maskSingle m here).1
  have tagged : ∀ e ∈ form.group :: form.groups, e.tag = .groupObj ∨ e.tag = .group := by
    intro e within
    rcases List.mem_cons.mp within with rfl | within
    · exact .inl form.groupSingle.1
    · exact .inr (form.groupsAscend.tagged e within)
  unfold Form.entries Form.grants
  rw [permissionFrom, form.ownerSingle.1]
  dsimp only
  split_ifs
  · rfl
  · exact permissionFrom_users maskTagged form.otherSingle.1 form.usersAscend.tagged tagged

/-! ## The access check of POSIX.1e -/

def MatchesGroup (inode : Inode) (subject : Subject) (e : Entry) : Prop :=
  (e.tag = .groupObj ∧ subject.inGroup inode.gid) ∨ (e.tag = .group ∧ subject.inGroup e.id)

instance (inode : Inode) (subject : Subject) : DecidablePred (MatchesGroup inode subject) :=
  fun _ => inferInstanceAs (Decidable (_ ∨ _))

/-- Access by the entry of the owner; else by an entry for the user and the mask; else by
one of the entries for groups of the subject and the mask, if there are such entries; else
by the entry for the others. -/
def Granted (inode : Inode) (acl : List Entry) (subject : Subject) (want : U32) : Prop :=
  if subject.fsuid = inode.uid then ∃ e ∈ acl, e.tag = .userObj ∧ covers e.perm want
  else if ∃ e ∈ acl, e.tag = .user ∧ e.id = subject.fsuid then
    (∃ e ∈ acl, e.tag = .user ∧ e.id = subject.fsuid ∧ covers e.perm want) ∧
      ∃ m ∈ acl, m.tag = .mask ∧ covers m.perm want
  else if ∃ e ∈ acl, MatchesGroup inode subject e then
    ∃ e ∈ acl, MatchesGroup inode subject e ∧ covers e.perm want ∧ ∀ m ∈ acl, m.tag = .mask →
      covers m.perm want
  else ∃ e ∈ acl, e.tag = .other ∧ covers e.perm want

def Form.withTag (form : Form) : Tag → List Entry
  | .userObj => [form.owner]
  | .user => form.users
  | .groupObj => [form.group]
  | .group => form.groups
  | .mask => form.mask.toList
  | .other => [form.other]
  | .unknown _ => []

theorem Form.tag_of_mem {form : Form} (listed : e ∈ form.withTag tag) : e.tag = tag := by
  cases tag with
  | userObj => exact List.mem_singleton.mp listed ▸ form.ownerSingle.1
  | user => exact form.usersAscend.tagged e listed
  | groupObj => exact List.mem_singleton.mp listed ▸ form.groupSingle.1
  | group => exact form.groupsAscend.tagged e listed
  | mask => exact (form.maskSingle e (Option.mem_toList.mp listed)).1
  | other => exact List.mem_singleton.mp listed ▸ form.otherSingle.1
  | unknown _ => cases listed

theorem Form.mem_entries {form : Form} : e ∈ form.entries ↔ ∃ tag, e ∈ form.withTag tag := by
  unfold Form.entries closing
  simp only [List.mem_cons, List.mem_append, List.not_mem_nil, or_false]
  constructor
  · rintro (rfl | listed | rfl | listed | listed | rfl)
    · exact ⟨.userObj, List.mem_singleton.mpr rfl⟩
    · exact ⟨.user, listed⟩
    · exact ⟨.groupObj, List.mem_singleton.mpr rfl⟩
    · exact ⟨.group, listed⟩
    · exact ⟨.mask, listed⟩
    · exact ⟨.other, List.mem_singleton.mpr rfl⟩
  · rintro ⟨tag, listed⟩
    cases tag with
    | userObj => exact .inl (List.mem_singleton.mp listed)
    | user => exact .inr (.inl listed)
    | groupObj => exact .inr (.inr (.inl (List.mem_singleton.mp listed)))
    | group => exact .inr (.inr (.inr (.inl listed)))
    | mask => exact .inr (.inr (.inr (.inr (.inl listed))))
    | other => exact .inr (.inr (.inr (.inr (.inr (List.mem_singleton.mp listed)))))
    | unknown _ => cases listed

theorem Form.mem_tagged {form : Form} : e ∈ form.entries ∧ e.tag = tag ↔ e ∈ form.withTag tag := by
  rw [Form.mem_entries]
  constructor
  · rintro ⟨⟨listedTag, listed⟩, tagged⟩
    rw [← tagged, Form.tag_of_mem listed]
    exact listed
  · intro listed
    exact ⟨⟨tag, listed⟩, Form.tag_of_mem listed⟩

theorem Form.mem_matching {form : Form} {inode : Inode} {subject : Subject} :
    e ∈ form.entries ∧ MatchesGroup inode subject e ↔
      e ∈ ofGroups inode subject (form.group :: form.groups) := by
  have owning : e ∈ form.entries ∧ e.tag = .groupObj ↔ e = form.group :=
    Form.mem_tagged.trans List.mem_singleton
  have named : e ∈ form.entries ∧ e.tag = .group ↔ e ∈ form.groups := Form.mem_tagged
  unfold ofGroups MatchesGroup
  rw [List.mem_filter, List.mem_cons, ← owning, ← named, groupId]
  by_cases tagged : e.tag = .groupObj
  · simp [tagged]
  · simp [tagged, and_assoc]

theorem Ascending.above (ascend : Ascending tag low listed) : ∀ e ∈ listed, low ≤ e.id.toNat := by
  induction listed generalizing low with
  | nil => simp
  | cons first rest ih =>
    obtain ⟨-, -, -, here, ascend⟩ := ascend
    intro e within
    rcases List.mem_cons.mp within with rfl | within
    · exact here
    · have := ih ascend e within
      omega

theorem Ascending.unique (ascend : Ascending tag low listed) {left right : Entry}
    (leftListed : left ∈ listed)
    (rightListed : right ∈ listed) (same : left.id = right.id) : left = right := by
  induction listed generalizing low with
  | nil => cases leftListed
  | cons first rest ih =>
    have above := ascend.2.2.2.2.above
    rcases List.mem_cons.mp leftListed with rfl | leftLater <;>
      rcases List.mem_cons.mp rightListed with rfl | rightLater
    · rfl
    · have := above right rightLater
      rw [same] at this
      omega
    · have := above left leftLater
      rw [same] at this
      omega
    · exact ih ascend.2.2.2.2 leftLater rightLater

section Specification

variable (form : Form) (inode : Inode) (subject : Subject) (want : U32)

theorem Form.exists_tagged (tag : Tag) (property : Entry → Prop) :
    (∃ e ∈ form.entries, e.tag = tag ∧ property e) ↔ ∃ e ∈ form.withTag tag, property e := by
  simp only [← and_assoc, Form.mem_tagged]

theorem Form.forall_masks (property : Entry → Prop) :
    (∀ m ∈ form.entries, m.tag = .mask → property m) ↔ ∀ m ∈ form.mask, property m := by
  have listed (m : Entry) : m ∈ form.entries ∧ m.tag = .mask ↔ m ∈ form.mask :=
    Form.mem_tagged.trans Option.mem_toList
  simp only [← listed, and_imp]

/-- A user's entry passes under the mask exactly when it and the mask pass. -/
theorem Form.user_granted (listed : e ∈ form.users) (same : e.id = subject.fsuid) :
    covers (effective form.mask e.perm) want = true ↔
      (∃ e ∈ form.entries, e.tag = .user ∧ e.id = subject.fsuid ∧ covers e.perm want) ∧
        ∃ m ∈ form.entries, m.tag = .mask ∧ covers m.perm want := by
  rw [form.exists_tagged, form.exists_tagged, covers_effective, Bool.and_eq_true]
  obtain ⟨m, here⟩ := Option.isSome_iff_exists.mp (form.masked (.inl (List.ne_nil_of_mem listed)))
  have masks : (∃ m ∈ form.withTag .mask, covers m.perm want = true) ↔
      form.mask.all (covers ·.perm want) = true := by
    simp [Form.withTag, here]
  rw [masks]
  refine and_congr_left fun _ => ⟨fun passes => ⟨e, listed, same, passes⟩, ?_⟩
  rintro ⟨found, foundListed, foundSame, passes⟩
  rw [form.usersAscend.unique listed foundListed (same.trans foundSame.symm)]
  exact passes

/-- Some matching entry passes under the mask exactly when one passes and the mask does. -/
theorem Form.group_granted : ((ofGroups inode subject (form.group :: form.groups)).any fun e =>
        covers (effective form.mask e.perm) want) = true ↔
      ∃ e ∈ form.entries, MatchesGroup inode subject e ∧ covers e.perm want ∧
        ∀ m ∈ form.entries, m.tag = .mask → covers m.perm want := by
  rw [List.any_eq_true, form.forall_masks]
  have masks : form.mask.all (covers ·.perm want) = true ↔ ∀ m ∈ form.mask, covers m.perm want =
      true := by
    cases form.mask <;> simp
  simp only [← and_assoc, Form.mem_matching, covers_effective, Bool.and_eq_true, masks]

theorem Form.grants_iff : form.grants inode subject want = true ↔
    Granted inode form.entries subject want := by
  unfold Form.grants Granted
  by_cases owns : subject.fsuid = inode.uid
  · rw [if_pos owns.symm, if_pos owns, form.exists_tagged]
    simp [Form.withTag]
  rw [if_neg (Ne.symm owns), if_neg owns]
  have users : (∃ e ∈ form.entries, e.tag = .user ∧ e.id = subject.fsuid) ↔
      ∃ e ∈ form.users, e.id = subject.fsuid := form.exists_tagged .user _
  cases found : form.users.find? fun e => decide (e.id = subject.fsuid) with
  | some e =>
    have listed := List.mem_of_find?_eq_some found
    have same : e.id = subject.fsuid := by simpa using List.find?_some found
    rw [if_pos (users.mpr ⟨e, listed, same⟩)]
    exact form.user_granted subject want listed same
  | none =>
    have absent : ¬ ∃ e ∈ form.users, e.id = subject.fsuid := by
      rintro ⟨e, listed, same⟩
      have := List.find?_eq_none.mp found e listed
      exact this (decide_eq_true same)
    rw [if_neg (fun present => absent (users.mp present))]
    have groups : (∃ e ∈ form.entries, MatchesGroup inode subject e) ↔
        ofGroups inode subject (form.group :: form.groups) ≠ [] := by
      simp only [Form.mem_matching]
      exact ⟨fun ⟨e, listed⟩ => List.ne_nil_of_mem listed, List.exists_mem_of_ne_nil _⟩
    dsimp only
    rw [groupDecision]
    by_cases none : ofGroups inode subject (form.group :: form.groups) = []
    · rw [if_pos ⟨rfl, none⟩, if_neg (fun present => groups.mp present none), form.exists_tagged]
      simp [Form.withTag]
    · rw [if_neg (fun both => none both.2), if_pos (groups.mpr none)]
      exact form.group_granted inode subject want

end Specification

theorem and_of_clear {w : Nat} {word low mask : BitVec w} (clear : word &&& ~~~low = 0)
    (kept : low &&& mask = low) : word &&& mask = word := by
  ext i inside
  have clearBit : (word &&& ~~~low)[i] = (0 : BitVec w)[i] := by rw [clear]
  have keptBit : (low &&& mask)[i] = low[i] := by rw [kept]
  simp only [BitVec.getElem_and, BitVec.getElem_not, BitVec.ofNat_eq_ofNat, BitVec.getElem_zero]
    at clearBit keptBit ⊢
  cases bit : word[i] with
  | false => rfl
  | true =>
    rw [bit, Bool.true_and, Bool.not_eq_false'] at clearBit
    rw [clearBit, Bool.true_and] at keptBit
    rw [keptBit]
    rfl

/-- For a valid list the check never fails with `EIO`, and grants access exactly when
POSIX.1e does. -/
theorem permission_posix {acl : List Entry} (valid : posixAclValid acl = .ok ()) (inode : Inode)
    (subject : Subject) (want : U32)
    (within : want &&& ~~~(MAY_READ ||| MAY_WRITE ||| MAY_EXEC) = 0) :
    posixAclPermission inode acl subject want ≠ .error .eio ∧
      (posixAclPermission inode acl subject want = .ok () ↔ Granted inode acl subject want) := by
  obtain ⟨form, rfl⟩ := (valid_iff_form acl).mp valid
  rw [posixAclPermission, and_of_clear within (by decide), permission_form, ← form.grants_iff]
  cases form.grants inode subject want <;> simp [verdict]

/-- The owner may read and write, a named user may read, the mask allows reading. -/
def sharedAcl : List Entry :=
  [⟨.userObj, 6, 0⟩, ⟨.user, 6, 1000⟩, ⟨.groupObj, 4, 0⟩, ⟨.mask, 4, 0⟩, ⟨.other, 0, 0⟩]

theorem permission_posix_shared : posixAclValid sharedAcl = .ok () ∧
      (posixAclPermission ⟨1, 1⟩ sharedAcl ⟨1000, fun _ => false⟩ MAY_READ = .ok () ↔
        Granted ⟨1, 1⟩ sharedAcl ⟨1000, fun _ => false⟩ MAY_READ) :=
  ⟨rfl, (permission_posix rfl ⟨1, 1⟩ ⟨1000, fun _ => false⟩ MAY_READ (by decide)).2⟩

end RouterKernel.Acl
