import Libmpp.Base.GroupInvariant
import Libmpp.Lib.Machine

/-!
# The buffer service

The groups of the service, found by their ids, and the runs of the calls on them. A group
is called by who has got it until it is put, and a buffer as long as it is there. Every
group is as its invariant says in each state reached (`reachable_groupSound`), as long as

* the size of a buffer fits the 32 bits in which its destruction reads it, and
* the last reference to a buffer of a group that has been put is not dropped, unless
  another buffer stays in use (`LeavesUsed`).
-/

namespace Libmpp.Base

open List Option

/-- `MppBufferService`; the groups are those ever got, and `hash_group` holds those that are
    there. -/
structure MppBufferService where
  groupId : BitVec 32
  /-- The static variable of `service_get_group_id` -/
  overflowed : Bool
  groups : List GroupMem

namespace MppBufferService

/-- `mpp_buffer_service_init` -/
def init : MppBufferService := { groupId := 1, overflowed := false, groups := [] }

/-- The id of a group that is there -/
def idOf (srv : MppBufferService) (g : ℕ) : Option (BitVec 32) :=
  (srv.groups[g]?.bind GroupMem.group).map MppBufferGroupImpl.groupId

/-- `get_group_by_id`: the groups added last come first -/
def getGroupById (srv : MppBufferService) (id : BitVec 32) : Option ℕ :=
  (List.range srv.groups.length).reverse.find? fun g => srv.idOf g = some id

/-- The search for an id that is not in use, in so many rounds -/
def nextFreeId (srv : MppBufferService) : ℕ → BitVec 32 → Option (BitVec 32)
  | 0, _ => none
  | n + 1, id => if srv.getGroupById id = none then some id else srv.nextFreeId n (id + 1)

/-- `service_get_group_id`; with all ids in use it does not return. -/
def serviceGetGroupId (srv : MppBufferService) : Option (BitVec 32 × MppBufferService) :=
  if srv.overflowed = false ∧ srv.groupId ≠ 0 then
    some (srv.groupId, { srv with groupId := srv.groupId + 1 })
  else
    let start := if srv.overflowed then srv.groupId else 1
    (srv.nextFreeId (2 ^ 32) start).map fun id =>
      (id, { srv with groupId := id + 1, overflowed := true })

/-- `service_get_group`, when the pool and the allocators are there -/
def serviceGetGroup (srv : MppBufferService) (mode : MppBufferMode) (isMisc clearOnExit : Bool) :
    Option MppBufferService :=
  srv.serviceGetGroupId.map fun (id, srv) =>
    { srv with groups := srv.groups ++ [newGroup id mode isMisc clearOnExit] }

/-- A call on a group, by who has got it and not put it -/
def onGroup (srv : MppBufferService) (g : ℕ) (f : GroupMem → GroupMem) : Option MppBufferService :=
  match srv.groups[g]? with
  | none => none
  | some m =>
    match m.group with
    | none => none
    | some group => if group.isOrphan then none else some { srv with groups := srv.groups.set g (f m) }

/-- A call on a buffer, whose group is searched by its id -/
def onBuffer (srv : MppBufferService) (g b : ℕ) (f : Bool → GroupMem → GroupMem) :
    Option MppBufferService :=
  match srv.groups[g]? with
  | none => none
  | some m =>
    match m.buffers b with
    | none => none
    | some buffer =>
      let m' :=
        match srv.getGroupById buffer.groupId with
        | none => f false m
        | some g' => if g' = g then f true m else m.fault .otherGroup
      some { srv with groups := srv.groups.set g m' }

end MppBufferService

/-- The calls of the buffer interface -/
inductive BufferOp
  | groupGet (mode : MppBufferMode) (isMisc clearOnExit : Bool)
  | limitConfig (g : ℕ) (size : BitVec 64) (count : ℤ)
  | create (g : ℕ) (alloc taken : Bool) (size : BitVec 64)
  | getUnused (g : ℕ) (size : BitVec 64)
  | incRef (g b : ℕ)
  | put (g b : ℕ)
  | discard (g b : ℕ)
  | groupClear (g : ℕ)
  | groupPut (g : ℕ)

def bufferStep (srv : MppBufferService) : BufferOp → Option MppBufferService
  | .groupGet mode isMisc clearOnExit => srv.serviceGetGroup mode isMisc clearOnExit
  | .limitConfig g size count => srv.onGroup g (mppBufferGroupLimitConfig size count)
  | .create g alloc taken size => srv.onGroup g fun m => (mppBufferCreate alloc taken size m).2
  | .getUnused g size => srv.onGroup g fun m => (mppBufferGetUnused size m).2
  | .incRef g b => srv.onBuffer g b fun found m => (incBufferRef found b m).2
  | .put g b => srv.onBuffer g b fun found m => (mppBufferRefDec found b m).2
  | .discard g b => srv.onBuffer g b fun found m => mppBufferDiscard found b m
  | .groupClear g => srv.onGroup g mppBufferGroupReset
  | .groupPut g => srv.onGroup g putGroup

def bufferMachine : Machine MppBufferService BufferOp := .ofPartial .init bufferStep

/-! ## What should hold -/

/-- The account of a group is right, and its life is in order: what is destroyed is destroyed
    once, not while it is referenced and not touched later, and a group that has been put is
    there only as long as a reference is outstanding. -/
structure GroupSound (m : GroupMem) : Prop where
  count : ∀ group, m.group = some group → ∀ l, group.count l = (group.list l).length
  bufferCount : ∀ group, m.group = some group →
    group.bufferCount = group.count .used + group.count .unused
  usage : ∀ group, m.group = some group →
    group.usage = ((group.list .used ++ group.list .unused).map (bufferSize m.buffers)).sum
  nodup : ∀ group, m.group = some group → (group.list .used ++ group.list .unused).Nodup
  mem_used : ∀ group, m.group = some group → ∀ b, b ∈ group.list .used ↔
    ∃ buffer, m.buffers b = some buffer ∧ 0 < buffer.refCount
  mem_unused : ∀ group, m.group = some group → ∀ b, b ∈ group.list .unused ↔
    ∃ buffer, m.buffers b = some buffer ∧ buffer.refCount = 0
  once : ∀ r, m.ledger.released.count r ≤ 1
  destroyed : ∀ r, m.ledger.released.count r = 1 ↔ r ∈ m.ledger.acquired ∧ m.alive r = false
  faults : m.faults = []
  put : ∀ group, m.group = some group → group.isOrphan = true →
    ∃ b buffer, m.buffers b = some buffer ∧ 0 < buffer.refCount
  gone : m.group = none → ∀ b, m.buffers b = none

variable {gid : BitVec 32} {m : GroupMem} {group : MppBufferGroupImpl} {buffer : MppBufferImpl}
  {b g : ℕ} {srv srv' : MppBufferService}

theorem sum_lists {M : Type*} [AddCommMonoid M] (f : BufferList → M) :
    ∑ l, f l = f .used + f .unused := by
  rw [show (Finset.univ : Finset BufferList) = {.used, .unused} from rfl,
    Finset.sum_pair (by decide)]

namespace GroupInv

theorem mem_used (h : GroupInv gid m) (hg : m.group = some group) :
    b ∈ group.list .used ↔ ∃ buffer, m.buffers b = some buffer ∧ 0 < buffer.refCount := by
  rw [(h.group group hg).account.filed.mem_iff, bufferHome, map_eq_some_iff]
  refine exists_congr fun buffer => and_congr_right fun hb => ?_
  rw [← (h.buffer b buffer hb).used, MppBufferImpl.home]
  split_ifs with hused
  · exact iff_of_true rfl hused
  · exact iff_of_false (by simp) hused

theorem mem_unused (h : GroupInv gid m) (hg : m.group = some group) :
    b ∈ group.list .unused ↔ ∃ buffer, m.buffers b = some buffer ∧ buffer.refCount = 0 := by
  rw [(h.group group hg).account.filed.mem_iff, bufferHome, map_eq_some_iff]
  refine exists_congr fun buffer => and_congr_right fun hb => ?_
  have hok := h.buffer b buffer hb
  rw [MppBufferImpl.home]
  split_ifs with hused
  · exact iff_of_false (by simp) (hok.used.1 hused).ne'
  · exact iff_of_true rfl (le_antisymm (not_lt.1 fun hpos => hused (hok.used.2 hpos)) hok.nonneg)

/-- A group is as its invariant says. -/
theorem sound (h : GroupInv gid m) : GroupSound m where
  count group hg := (h.group group hg).account.count
  bufferCount group hg := by
    have hgo := h.group group hg
    rw [hgo.account.bufferCount, sum_lists, hgo.account.count, hgo.account.count]
    simp
  usage group hg := by
    rw [(h.group group hg).account.usage, sum_lists, map_append, sum_append]
  nodup group hg := by
    have hfiled := (h.group group hg).account.filed
    refine nodup_append.2 ⟨hfiled.nodup .used, hfiled.nodup .unused, fun b hb b' hb' heq => ?_⟩
    exact absurd (hfiled.eq_of_mem hb (heq ▸ hb')) (by simp)
  mem_used group hg b := h.mem_used hg
  mem_unused group hg b := h.mem_unused hg
  once r := by
    have honce := h.booked.once r
    have hbal := h.booked.balance r
    omega
  destroyed r := by
    have honce := h.booked.once r
    have hbal := h.booked.balance r
    rw [← Multiset.one_le_count_iff_mem]
    cases halive : m.alive r with
    | false =>
      rw [halive, Bool.toNat_false] at hbal
      constructor
      · intro hone
        exact ⟨by omega, rfl⟩
      · rintro ⟨hone, -⟩
        omega
    | true =>
      rw [halive, Bool.toNat_true] at hbal
      exact iff_of_false (by omega) (by simp)
  faults := h.faults
  put group hg horphan := by
    obtain ⟨b, hb⟩ := exists_mem_of_ne_nil _ ((h.group group hg).orphan horphan).2
    exact ⟨b, (h.mem_used hg).1 hb⟩
  gone := h.gone

end GroupInv

/-! ## Runs -/

/-- The ids of the groups that are there differ, and until the ids have run over they are
    below the next one. -/
structure ServiceInv (srv : MppBufferService) : Prop where
  groups : ∀ (g : ℕ) (m : GroupMem), srv.groups[g]? = some m → ∃ gid, GroupInv gid m
  distinct : ∀ g g' id, srv.idOf g = some id → srv.idOf g' = some id → g = g'
  below : srv.overflowed = false → srv.groupId ≠ 0 → ∀ g id, srv.idOf g = some id →
    id < srv.groupId

theorem idOf_eq (hm : srv.groups[g]? = some m) :
    srv.idOf g = m.group.map MppBufferGroupImpl.groupId := by
  rw [MppBufferService.idOf, hm, bind_some]

theorem idOf_set (hm : srv.groups[g]? = some m) (m' : GroupMem) (g' : ℕ) :
    ({ srv with groups := srv.groups.set g m' } : MppBufferService).idOf g' =
      if g' = g then m'.group.map MppBufferGroupImpl.groupId else srv.idOf g' := by
  have hlt : g < srv.groups.length := (List.getElem?_eq_some_iff.1 hm).1
  rw [MppBufferService.idOf, getElem?_set]
  split_ifs with h₁ h₂ h₂
  · rfl
  · exact absurd h₁.symm h₂
  · exact absurd h₂.symm h₁
  · rfl

/-- An id finds the group that has it. -/
theorem ServiceInv.getGroupById (h : ServiceInv srv) {id : BitVec 32} (hid : srv.idOf g = some id) :
    srv.getGroupById id = some g := by
  have hlt : g < srv.groups.length := by
    by_contra hnot
    rw [MppBufferService.idOf, getElem?_eq_none (not_lt.1 hnot)] at hid
    exact absurd hid (by simp)
  have hfind : (srv.getGroupById id).isSome := by
    rw [MppBufferService.getGroupById, find?_isSome]
    exact ⟨g, by simpa using hlt, by simpa using hid⟩
  obtain ⟨g', hg'⟩ := isSome_iff_exists.1 hfind
  have hid' : srv.idOf g' = some id := by simpa using find?_some hg'
  rw [hg', h.distinct g' g id hid' hid]

/-- An id that finds no group is not in use. -/
theorem idOf_ne_of_getGroupById {id : BitVec 32} (hnone : srv.getGroupById id = none) (g : ℕ) :
    srv.idOf g ≠ some id := by
  intro hid
  have hlt : g < srv.groups.length := by
    by_contra hnot
    rw [MppBufferService.idOf, getElem?_eq_none (not_lt.1 hnot)] at hid
    exact absurd hid (by simp)
  rw [MppBufferService.getGroupById, find?_eq_none] at hnone
  exact hnone g (by simpa using hlt) (by simpa using hid)

/-- A group changes as its invariant allows. -/
theorem ServiceInv.set (h : ServiceInv srv) (hm : srv.groups[g]? = some m)
    (hg : m.group = some group) {m' : GroupMem} (hinv : ∀ gid, GroupInv gid m → GroupInv gid m') :
    ServiceInv { srv with groups := srv.groups.set g m' } := by
  obtain ⟨gid, hgid⟩ := h.groups g m hm
  have hgid' := hinv gid hgid
  have hid : srv.idOf g = some gid := by
    rw [idOf_eq hm, hg, map_some, (hgid.group group hg).groupId]
  -- the ids in use do not change, but for those that go
  have hmono : ∀ g' id, ({ srv with groups := srv.groups.set g m' } : MppBufferService).idOf g' =
      some id → srv.idOf g' = some id := by
    intro g' id hg'
    rw [idOf_set hm] at hg'
    split_ifs at hg' with heq
    · obtain ⟨group', hgroup', rfl⟩ := map_eq_some_iff.1 hg'
      rw [heq, hid, (hgid'.group group' hgroup').groupId]
    · exact hg'
  exact
    { groups := fun g' m₁ hm₁ => by
        rw [getElem?_set] at hm₁
        split_ifs at hm₁ with h₁ h₂
        · exact ⟨gid, some.inj hm₁ ▸ hgid'⟩
        · exact h.groups g' m₁ hm₁
      distinct := fun g₁ g₂ id h₁ h₂ => h.distinct g₁ g₂ id (hmono g₁ id h₁) (hmono g₂ id h₂)
      below := fun ho hn g' id hg' => h.below ho hn g' id (hmono g' id hg') }

/-- A call on a group that its owner may make -/
theorem ServiceInv.onGroup (h : ServiceInv srv) {f : GroupMem → GroupMem}
    (hf : ∀ gid m group, GroupInv gid m → m.group = some group → group.isOrphan = false →
      GroupInv gid (f m)) (hst : srv.onGroup g f = some srv') : ServiceInv srv' := by
  rw [MppBufferService.onGroup] at hst
  split at hst
  · exact absurd hst (by simp)
  · rename_i m hm
    split at hst
    · exact absurd hst (by simp)
    · rename_i group hg
      split_ifs at hst with horphan
      obtain rfl := some.inj hst
      exact h.set hm hg fun gid hinv => hf gid m group hinv hg (by simpa using horphan)

/-- A call on a buffer, of which the group is found -/
theorem ServiceInv.onBuffer (h : ServiceInv srv) (f : Bool → GroupMem → GroupMem)
    (hf : ∀ gid m group buffer, srv.groups[g]? = some m → GroupInv gid m → m.group = some group →
      m.buffers b = some buffer → GroupInv gid (f true m))
    (hst : srv.onBuffer g b f = some srv') : ServiceInv srv' := by
  rw [MppBufferService.onBuffer] at hst
  split at hst
  · exact absurd hst (by simp)
  · rename_i m hm
    split at hst
    · exact absurd hst (by simp)
    · rename_i buffer hb
      obtain rfl := some.inj hst
      obtain ⟨gid, hgid⟩ := h.groups g m hm
      obtain ⟨group, hg⟩ : ∃ group, m.group = some group := by
        refine ne_none_iff_exists'.1 fun hnone => ?_
        rw [hgid.gone hnone b] at hb
        exact absurd hb (by simp)
      have hgo := hgid.group group hg
      have hid : srv.idOf g = some buffer.groupId := by
        rw [idOf_eq hm, hg, map_some, hgo.groupId, hgo.owner b buffer hb]
      simp only [h.getGroupById hid, ite_true]
      exact h.set hm hg fun gid hinv => hf gid m group buffer hm hinv hg hb

theorem newGroup_inv (gid : BitVec 32) (mode : MppBufferMode) (isMisc clearOnExit : Bool) :
    GroupInv gid (newGroup gid mode isMisc clearOnExit) where
  booked :=
    { once := fun r => by
        change Multiset.count r (0 + {none}) ≤ 1
        rw [zero_add, Multiset.count_singleton]
        split_ifs <;> simp
      balance := fun r => by
        change Multiset.count r (0 + {none}) = Multiset.count r 0 + _
        rcases r with _ | b
        · simp [GroupMem.alive, newGroup]
        · simp [GroupMem.alive, newGroup] }
  faults := rfl
  buffer b buffer hb := absurd hb (by simp [newGroup])
  group group hg := by
    obtain rfl := some.inj hg
    exact
      { groupId := rfl
        account :=
          { filed := .empty
            count := fun _ => rfl
            bufferCount := by simp
            usage := by simp }
        fresh := fun b _ => by
          change Multiset.count (some b) (0 + {none}) = 0
          simp
        owner := fun b buffer hb => absurd hb (by simp [newGroup])
        finalizing := rfl
        orphan := fun ho => absurd ho (by simp) }
  gone hnone := absurd hnone (by simp [newGroup])

/-- What the search for a free id finds is not in use. -/
theorem nextFreeId_free {n : ℕ} {id id' : BitVec 32} (hid : srv.nextFreeId n id = some id') (g : ℕ) :
    srv.idOf g ≠ some id' := by
  induction n generalizing id with
  | zero => exact absurd hid (by simp [MppBufferService.nextFreeId])
  | succ n ih =>
    rw [MppBufferService.nextFreeId] at hid
    split_ifs at hid with hnone
    · exact some.inj hid ▸ idOf_ne_of_getGroupById hnone g
    · exact ih hid

/-- The id of a new group is not in use. -/
theorem ServiceInv.serviceGetGroupId (h : ServiceInv srv) {id : BitVec 32}
    (hst : srv.serviceGetGroupId = some (id, srv')) :
    (∀ g, srv.idOf g ≠ some id) ∧ srv'.groups = srv.groups ∧
      (srv'.overflowed = false → srv'.groupId ≠ 0 →
        id < srv'.groupId ∧ ∀ g id', srv.idOf g = some id' → id' < srv'.groupId) := by
  rw [MppBufferService.serviceGetGroupId] at hst
  split at hst
  · rename_i hcount
    obtain ⟨rfl, rfl⟩ := Prod.mk.inj (some.inj hst)
    have hbelow := h.below hcount.1 hcount.2
    refine ⟨fun g hid => ?_, rfl, fun _ hne => ?_⟩
    · exact BitVec.lt_irrefl _ (hbelow g _ hid)
    · have hne' : srv.groupId + 1 ≠ 0 := hne
      have hlt : srv.groupId < srv.groupId + 1 := by
        bv_omega
      exact ⟨hlt, fun g id' hid => BitVec.lt_trans (hbelow g id' hid) hlt⟩
  · obtain ⟨id', hid', heq⟩ := map_eq_some_iff.1 hst
    obtain ⟨rfl, rfl⟩ := Prod.mk.inj heq
    exact ⟨nextFreeId_free hid', rfl, fun ho => absurd ho (by simp)⟩

theorem ServiceInv.groupGet (h : ServiceInv srv) {mode : MppBufferMode} {isMisc clearOnExit : Bool}
    (hst : srv.serviceGetGroup mode isMisc clearOnExit = some srv') : ServiceInv srv' := by
  obtain ⟨⟨id, srv₁⟩, hid, heq⟩ := map_eq_some_iff.1 hst
  obtain rfl : { srv₁ with groups := srv₁.groups ++ [newGroup id mode isMisc clearOnExit] } =
    srv' := heq
  obtain ⟨hfree, hgroups, hbelow⟩ := h.serviceGetGroupId hid
  have hidOf : ∀ g id', ({ srv₁ with groups := srv₁.groups ++
      [newGroup id mode isMisc clearOnExit] } : MppBufferService).idOf g = some id' →
      srv.idOf g = some id' ∨ g = srv.groups.length ∧ id' = id := by
    intro g id' hg
    rw [MppBufferService.idOf, hgroups] at hg
    rcases lt_trichotomy g srv.groups.length with hlt | heq | hgt
    · rw [getElem?_append_left hlt] at hg
      exact .inl hg
    · rw [heq, getElem?_concat_length] at hg
      exact .inr ⟨heq, (some.inj hg).symm⟩
    · rw [getElem?_eq_none (by simpa using hgt)] at hg
      exact absurd hg (by simp)
  exact
    { groups := fun g m hm => by
        rw [hgroups] at hm
        rcases mem_append.1 (mem_of_getElem? hm) with hmem | hmem
        · obtain ⟨g', hg'⟩ := mem_iff_getElem?.1 hmem
          exact h.groups g' m hg'
        · exact ⟨id, mem_singleton.1 hmem ▸ newGroup_inv id mode isMisc clearOnExit⟩
      distinct := fun g g' id' hg hg' => by
        rcases hidOf g id' hg with hold | ⟨hlen, hid⟩
        · rcases hidOf g' id' hg' with hold' | ⟨-, hid'⟩
          · exact h.distinct g g' id' hold hold'
          · exact absurd (hid' ▸ hold) (hfree g)
        · rcases hidOf g' id' hg' with hold' | ⟨hlen', -⟩
          · exact absurd (hid ▸ hold') (hfree g')
          · rw [hlen, hlen']
      below := fun ho hne g id' hg => by
        rcases hidOf g id' hg with hg | ⟨-, rfl⟩
        · exact (hbelow ho hne).2 g id' hg
        · exact (hbelow ho hne).1 }

/-- The calls that keep the groups as they should be: a new buffer is smaller than `2 ^ 32`
    bytes, and the last reference to a buffer of a group that has been put leaves another
    buffer in use. -/
def PutsWell (srv : MppBufferService) : BufferOp → Prop
  | .create _ _ _ size => size.toNat < 2 ^ 32
  | .put g b =>
    match srv.groups[g]? with
    | none => True
    | some m =>
      match m.group, m.buffers b with
      | some group, some buffer => LeavesUsed group b buffer
      | _, _ => True
  | _ => True

theorem serviceInv_step {op : BufferOp} (h : ServiceInv srv) (hst : bufferStep srv op = some srv')
    (hop : PutsWell srv op) : ServiceInv srv' := by
  cases op with
  | groupGet mode isMisc clearOnExit => exact h.groupGet hst
  | limitConfig g size count =>
    refine h.onGroup (fun gid m group hinv hg hown => ?_) hst
    rw [mppBufferGroupLimitConfig, hg]
    exact hinv.flags hg rfl rfl rfl rfl rfl rfl rfl fun ho => absurd (hown.symm.trans ho) (by simp)
  | create g alloc taken size =>
    exact h.onGroup (fun gid m group hinv hg _ => hinv.create hg alloc taken hop) hst
  | getUnused g size =>
    exact h.onGroup (fun gid m group hinv hg hown => hinv.getUnused hg hown size) hst
  | incRef g b =>
    exact h.onBuffer (fun found m => (incBufferRef found b m).2)
      (fun gid m group buffer _ hinv hg hb => hinv.incBufferRef hg hb) hst
  | put g b =>
    refine h.onBuffer (fun found m => (mppBufferRefDec found b m).2)
      (fun gid m group buffer hm hinv hg hb => hinv.refDec hg hb ?_) hst
    simp only [PutsWell, hm, hg, hb] at hop
    exact hop
  | discard g b =>
    exact h.onBuffer (fun found m => mppBufferDiscard found b m)
      (fun gid m group buffer _ hinv hg hb => hinv.discard hg hb true) hst
  | groupClear g =>
    exact h.onGroup (fun gid m group hinv hg hown => hinv.reset hg hown) hst
  | groupPut g =>
    exact h.onGroup (fun gid m group hinv hg hown => hinv.putGroup hg hown) hst

/-- In each state reached, every group is as it should be. -/
theorem reachable_groupSound
    (hr : (bufferMachine.guarded fun srv op _ => PutsWell srv op).Reachable srv) :
    ∀ m ∈ srv.groups, GroupSound m := by
  have hinv : ServiceInv srv := by
    refine hr.invariant (P := ServiceInv) (fun s hs => ?_) fun s op s' _ hi hst => ?_
    · obtain rfl : s = .init := hs
      exact
        { groups := fun g m hm => absurd hm (by simp [MppBufferService.init])
          distinct := fun g g' id hg => absurd hg
            (by simp [MppBufferService.idOf, MppBufferService.init])
          below := fun _ _ g id hg => absurd hg
            (by simp [MppBufferService.idOf, MppBufferService.init]) }
    · exact serviceInv_step hi hst.1 hst.2
  intro m hm
  obtain ⟨g, hg⟩ := mem_iff_getElem?.1 hm
  obtain ⟨gid, hgid⟩ := hinv.groups g m hg
  exact hgid.sound

instance (group : MppBufferGroupImpl) (b : ℕ) (buffer : MppBufferImpl) :
    Decidable (LeavesUsed group b buffer) :=
  inferInstanceAs (Decidable (group.isOrphan = true → buffer.refCount = 1 →
    group.list .used ≠ [b] ∧ ((!group.isMisc && !buffer.discard) = true ∨
      (group.without b buffer).usage ≠ 0 ∨ (group.list .unused).length ≤ 1)))

instance (srv : MppBufferService) (op : BufferOp) : Decidable (PutsWell srv op) :=
  match op with
  | .create _ _ _ size => inferInstanceAs (Decidable (size.toNat < 2 ^ 32))
  | .put g b =>
    match h : srv.groups[g]? with
    | none => isTrue (by simp [PutsWell, h])
    | some m =>
      match hg : m.group, hb : m.buffers b with
      | some group, some buffer =>
        decidable_of_iff (LeavesUsed group b buffer) (by simp [PutsWell, h, hg, hb])
      | none, _ => isTrue (by simp [PutsWell, h, hg])
      | some _, none => isTrue (by simp [PutsWell, h, hg, hb])
  | .groupGet .. | .limitConfig .. | .getUnused .. | .incRef .. | .discard .. | .groupClear ..
  | .groupPut .. => isTrue trivial

/-- Two buffers are created and one of them put and got again, before the group is put; then
    one of them goes. -/
theorem reachable_groupSound_run : ∃ srv : MppBufferService, srv.groups.length = 1 ∧
    (∀ m ∈ srv.groups, (m.group.any fun group => group.isOrphan &&
      decide (group.list .used = [0]) && decide (group.list .unused = [1])) = true) ∧
    ∀ m ∈ srv.groups, GroupSound m := by
  have hrun : ((Machine.run bufferStep (fun srv op _ => PutsWell srv op) .init
      [.groupGet .internal false false, .create 0 true true 4096, .create 0 true true 8192,
        .put 0 0, .getUnused 0 4096, .incRef 0 1, .put 0 1, .groupPut 0, .put 0 1]).any fun srv =>
      decide (srv.groups.length = 1) && srv.groups.all fun m => m.group.any fun group =>
        group.isOrphan && decide (group.list .used = [0]) && decide (group.list .unused = [1])) =
      true := by
    decide
  obtain ⟨srv, hr, hsrv⟩ := (any_eq_true _ _).1 hrun
  rw [Bool.and_eq_true, decide_eq_true_iff, List.all_eq_true] at hsrv
  exact ⟨srv, hsrv.1, hsrv.2, reachable_groupSound (Machine.Reachable.run (.init rfl) hr)⟩

/-- A group is put while its buffer is in use. When this is put, nobody can reach it or the
    group, and both are still there. -/
theorem groupPut_last :
    ¬∀ srv : MppBufferService, bufferMachine.Reachable srv → ∀ m ∈ srv.groups, GroupSound m := by
  intro hall
  have hrun : ((Machine.run bufferStep (fun _ _ _ => True) .init
      [.groupGet .internal false false, .create 0 true true 4096, .groupPut 0, .put 0 0]).any
      fun srv => srv.groups.any fun m => m.group.any fun group =>
        group.isOrphan && decide (group.list .used = [])) = true := by
    decide
  obtain ⟨srv, hr, hsrv⟩ := (any_eq_true _ _).1 hrun
  obtain ⟨m, hm, hgroup⟩ := any_eq_true.1 hsrv
  obtain ⟨group, hg, horphan⟩ := (any_eq_true _ _).1 hgroup
  rw [Bool.and_eq_true, decide_eq_true_iff] at horphan
  have hreach : ((Machine.ofPartial .init bufferStep).guarded fun _ _ _ => True).Reachable srv :=
    Machine.Reachable.run (.init rfl) hr
  have hsound := hall srv hreach.of_guarded m hm
  obtain ⟨b, hb⟩ := hsound.put group hg horphan.1
  rw [← hsound.mem_used group hg, horphan.2] at hb
  exact absurd hb not_mem_nil

end Libmpp.Base
