import Libmpp.Base.GroupAccount

/-!
# The invariant of a buffer group

What holds of a group and its buffers between the calls (`GroupInv`): the account is
right, each buffer is in the list its references say, the group and its buffers have been
created once and destroyed at most once, and nothing was touched after that. A group that
has been put and is still there has a buffer in use.

The functions of the group keep it, but for `mpp_buffer_ref_dec` when it drops the last
reference to a buffer of an orphan: another must be left in use (`LeavesUsed`).
-/

namespace Libmpp.Base

open Function List Option

variable {gid : BitVec 32} {m : GroupMem} {group group' : MppBufferGroupImpl} {buffer buffer' : MppBufferImpl}
  {b : ℕ}

/-- The group, or a buffer of it, is there. -/
def GroupMem.alive (m : GroupMem) : Option ℕ → Bool
  | none => m.group.isSome
  | some b => (m.buffers b).isSome

/-- What has been created is there, or has been destroyed, once. -/
structure Booked (m : GroupMem) : Prop where
  once : ∀ r, m.ledger.acquired.count r ≤ 1
  balance : ∀ r, m.ledger.acquired.count r =
    m.ledger.released.count r + (m.alive r).toNat

/-- A buffer is used as long as it is referenced. -/
structure BufferOk (buffer : MppBufferImpl) : Prop where
  nonneg : 0 ≤ buffer.refCount
  used : buffer.used = true ↔ 0 < buffer.refCount
  small : buffer.size.toNat < 2 ^ 32

structure GroupOk (gid : BitVec 32) (m : GroupMem) (group : MppBufferGroupImpl) : Prop where
  groupId : group.groupId = gid
  account : GroupAccount m.buffers group
  fresh : ∀ b, group.bufferId ≤ b → m.ledger.acquired.count (some b) = 0
  owner : ∀ b buffer, m.buffers b = some buffer → buffer.groupId = gid
  finalizing : group.isFinalizing = false
  orphan : group.isOrphan = true → group.clearOnExit = false ∧ group.list .used ≠ []

/-- The invariant of a group with this id -/
structure GroupInv (gid : BitVec 32) (m : GroupMem) : Prop where
  booked : Booked m
  faults : m.faults = []
  buffer : ∀ b buffer, m.buffers b = some buffer → BufferOk buffer
  group : ∀ group, m.group = some group → GroupOk gid m group
  gone : m.group = none → ∀ b, m.buffers b = none

/-! ## Changes of the memory -/

theorem alive_setBuffer (hb : m.buffers b = some buffer) (buffer' : MppBufferImpl) :
    (m.setBuffer b buffer').alive = m.alive := by
  funext r
  rcases r with _ | b'
  · rfl
  · change (update m.buffers b (some buffer') b').isSome = (m.buffers b').isSome
    rw [update_apply]
    split_ifs with h
    · rw [h, hb]
      rfl
    · rfl

theorem alive_setGroup (hg : m.group = some group) (group' : MppBufferGroupImpl) :
    (m.setGroup group').alive = m.alive := by
  funext r
  rcases r with _ | b'
  · rw [GroupMem.alive, GroupMem.alive, hg]
    rfl
  · rfl

/-- The memory without a buffer, that its group drops -/
def GroupMem.dropped (m : GroupMem) (group : MppBufferGroupImpl) (b : ℕ) (buffer : MppBufferImpl) :
    GroupMem :=
  { m with
    group := some (group.without b buffer)
    buffers := Function.update m.buffers b none
    ledger := m.ledger.release {some b} }

/-- The changes of one buffer, whether it moves or not -/
theorem forall_update {P : ℕ → MppBufferImpl → Prop} (hP : ∀ b x, m.buffers b = some x → P b x)
    (hnew : P b buffer') :
    ∀ b' x, update m.buffers b (some buffer') b' = some x → P b' x := by
  intro b' x hx
  rw [update_apply] at hx
  split_ifs at hx with h
  · rw [h, ← some.inj hx]
    exact hnew
  · exact hP b' x hx

theorem forall_update_none {P : ℕ → MppBufferImpl → Prop}
    (hP : ∀ b x, m.buffers b = some x → P b x) :
    ∀ b' x, update m.buffers b none b' = some x → P b' x := by
  intro b' x hx
  rw [update_apply] at hx
  split_ifs at hx
  exact hP b' x hx

namespace GroupInv

section Changes

variable (h : GroupInv gid m) (hg : m.group = some group)
include h hg

/-- A buffer changes where it is. -/
theorem set (hb : m.buffers b = some buffer) (hok : BufferOk buffer')
    (hhome : buffer'.home = buffer.home) (hsize : buffer'.size = buffer.size)
    (hid : buffer'.groupId = buffer.groupId) : GroupInv gid (m.setBuffer b buffer') where
  booked :=
    { once := h.booked.once
      balance := by rw [alive_setBuffer hb]; exact h.booked.balance }
  faults := h.faults
  buffer := forall_update h.buffer hok
  group g hg' := by
    have hgo := h.group g hg'
    exact
      { groupId := hgo.groupId
        account := hgo.account.set hb hhome hsize
        fresh := hgo.fresh
        owner := forall_update hgo.owner (hid.trans (hgo.owner b buffer hb))
        finalizing := hgo.finalizing
        orphan := hgo.orphan }
  gone hnone := absurd (hg.symm.trans hnone) (by simp)

/-- A buffer moves to the other list. -/
theorem move (hb : m.buffers b = some buffer) (hok : BufferOk buffer')
    (hsize : buffer'.size = buffer.size) (hid : buffer'.groupId = buffer.groupId)
    (horphan : group.isOrphan = true → (group.move b buffer.home buffer'.home).list .used ≠ []) :
    GroupInv gid ((m.setBuffer b buffer').setGroup (group.move b buffer.home buffer'.home)) where
  booked :=
    { once := h.booked.once
      balance := by
        rw [alive_setGroup (m := m.setBuffer b buffer') hg, alive_setBuffer hb]
        exact h.booked.balance }
  faults := h.faults
  buffer := forall_update h.buffer hok
  group g hg' := by
    have hgo := h.group group hg
    obtain rfl := some.inj hg'
    exact
      { groupId := hgo.groupId
        account := hgo.account.move hb hsize
        fresh := hgo.fresh
        owner := forall_update hgo.owner (hid.trans (hgo.owner b buffer hb))
        finalizing := hgo.finalizing
        orphan := fun ho => ⟨(hgo.orphan ho).1, horphan ho⟩ }
  gone hnone := absurd hnone (by simp [GroupMem.setGroup])

/-- A buffer is dropped. -/
theorem drop (hb : m.buffers b = some buffer)
    (horphan : group.isOrphan = true → unfile b group.list .used ≠ []) :
    GroupInv gid (m.dropped group b buffer) where
  booked :=
    { once := h.booked.once
      balance := fun r => by
        have hbal := h.booked.balance r
        rw [GroupMem.dropped, Ledger.acquired_release, hbal, Ledger.released_release,
          Multiset.count_add]
        rcases r with _ | b'
        · simp [GroupMem.alive, hg]
        · by_cases hb' : b' = b
          · subst hb'
            simp [GroupMem.alive, hb]
          · simp [GroupMem.alive, hb'] }
  faults := h.faults
  buffer := forall_update_none h.buffer
  group g hg' := by
    have hgo := h.group group hg
    obtain rfl := some.inj hg'
    exact
      { groupId := hgo.groupId
        account := hgo.account.drop hb (h.buffer b buffer hb).small
        fresh := hgo.fresh
        owner := forall_update_none hgo.owner
        finalizing := hgo.finalizing
        orphan := fun ho => ⟨(hgo.orphan ho).1, horphan ho⟩ }
  gone hnone := absurd hnone (by simp [GroupMem.dropped])

/-- The flags and limits of the group change. -/
theorem flags (hlist : group'.list = group.list) (hcount : group'.count = group.count)
    (husage : group'.usage = group.usage) (hbufferCount : group'.bufferCount = group.bufferCount)
    (hbufferId : group'.bufferId = group.bufferId) (hid : group'.groupId = group.groupId)
    (hfinalizing : group'.isFinalizing = group.isFinalizing)
    (horphan : group'.isOrphan = true → group'.clearOnExit = false ∧ group'.list .used ≠ []) :
    GroupInv gid (m.setGroup group') where
  booked :=
    { once := h.booked.once
      balance := by rw [alive_setGroup hg]; exact h.booked.balance }
  faults := h.faults
  buffer := h.buffer
  group g hg' := by
    have hgo := h.group group hg
    obtain rfl := some.inj hg'
    exact
      { groupId := hid.trans hgo.groupId
        account :=
          { filed := by rw [hlist]; exact hgo.account.filed
            count := by rw [hlist, hcount]; exact hgo.account.count
            bufferCount := by rw [hlist, hbufferCount]; exact hgo.account.bufferCount
            usage := by rw [hlist, husage]; exact hgo.account.usage }
        fresh := by rw [hbufferId]; exact hgo.fresh
        owner := hgo.owner
        finalizing := hfinalizing.trans hgo.finalizing
        orphan := horphan }
  gone hnone := absurd hnone (by simp [GroupMem.setGroup])

/-- A group without buffers is destroyed. -/
theorem destroy (hempty : ∀ l, group.list l = []) : GroupInv gid (destroyGroup m) := by
  have hnone (b : ℕ) : m.buffers b = none := by
    rcases hb : m.buffers b with _ | buffer
    · rfl
    · have hmem : b ∈ group.list buffer.home :=
        ((h.group group hg).account.filed.mem_iff b _).2 (by rw [bufferHome, hb, map_some])
      rw [hempty] at hmem
      exact absurd hmem not_mem_nil
  have heq : destroyGroup m = { m with group := none, ledger := m.ledger.release {none} } := by
    simp only [destroyGroup, hg]
  rw [heq]
  exact
    { booked :=
        { once := h.booked.once
          balance := fun r => by
            have hbal := h.booked.balance r
            rw [Ledger.acquired_release, hbal, Ledger.released_release, Multiset.count_add]
            rcases r with _ | b'
            · simp [GroupMem.alive, hg]
            · simp [GroupMem.alive] }
      faults := h.faults
      buffer := h.buffer
      group := fun g hg' => absurd hg' (by simp)
      gone := fun _ => hnone }

end Changes

end GroupInv

/-! ## Putting buffers -/

/-- A buffer with no reference left is dropped, if `service_put_group` is not called or does
    nothing. -/
theorem servicePutBuffer_drop (putGroup : GroupMem → GroupMem) (hg : m.group = some group)
    (hb : m.buffers b = some buffer) (href : buffer.refCount ≤ 0)
    (hstay : group.isOrphan = true ∧ (group.without b buffer).usage = 0 →
      putGroup (m.setGroup (group.without b buffer)) = m.setGroup (group.without b buffer)) :
    servicePutBuffer putGroup false b m = m.dropped group b buffer := by
  have hput : (if (group.without b buffer).isOrphan ∧ (group.without b buffer).usage = 0 ∧
      ¬(group.without b buffer).isFinalizing then putGroup (m.setGroup (group.without b buffer))
      else m.setGroup (group.without b buffer)) = m.setGroup (group.without b buffer) := by
    split_ifs with hcond
    · exact hstay ⟨hcond.1, hcond.2.1⟩
    · rfl
  simp only [servicePutBuffer, hg, hb, ite_false, Bool.false_eq_true]
  rw [hput]
  simp only [GroupMem.freeBuffer, not_lt.2 href, ite_false, GroupMem.setGroup, GroupMem.dropped]

/-- The same where the references have just been given up -/
theorem dropped_setBuffer (hhome : buffer'.home = buffer.home) (hsize : buffer'.size = buffer.size) :
    (m.setBuffer b buffer').dropped group b buffer' = m.dropped group b buffer := by
  simp only [GroupMem.dropped, GroupMem.setBuffer, update_idem,
    MppBufferGroupImpl.without, hhome, hsize]

theorem home_of_used (hused : buffer.used = true) : buffer.home = .used := by
  rw [MppBufferImpl.home, hused]
  rfl

theorem home_of_unused (hused : buffer.used = false) : buffer.home = .unused := by
  rw [MppBufferImpl.home, hused]
  rfl

/-- A list that no buffer belongs to is empty. -/
theorem GroupAccount.list_eq_nil {buffers : ℕ → Option MppBufferImpl}
    (h : GroupAccount buffers group) {l : BufferList}
    (hnone : ∀ b buffer, buffers b = some buffer → buffer.home ≠ l) : group.list l = [] := by
  rw [eq_nil_iff_forall_not_mem]
  intro b hmem
  obtain ⟨buffer, hb, hhome⟩ := map_eq_some_iff.1 ((h.filed.mem_iff b l).1 hmem)
  exact hnone b buffer hb hhome

/-- The members of a list are there, and belong to it. -/
theorem GroupAccount.exists_of_mem {buffers : ℕ → Option MppBufferImpl}
    (h : GroupAccount buffers group) {l : BufferList} (hmem : b ∈ group.list l) :
    ∃ buffer, buffers b = some buffer ∧ buffer.home = l :=
  map_eq_some_iff.1 ((h.filed.mem_iff b l).1 hmem)

namespace GroupInv

/-- Of a group that has not been put, buffers are dropped one after the other. -/
theorem foldl_drop {f : GroupMem → ℕ → GroupMem} {P : MppBufferImpl → Prop}
    (hf : ∀ m group b buffer, GroupInv gid m → m.group = some group → group.isOrphan = false →
      m.buffers b = some buffer → P buffer → f m b = m.dropped group b buffer)
    (l : List ℕ) (hl : l.Nodup) (h : GroupInv gid m) (hg : m.group = some group)
    (hown : group.isOrphan = false) (hlive : ∀ b ∈ l, ∃ buffer, m.buffers b = some buffer ∧ P buffer) :
    GroupInv gid (l.foldl f m) ∧ ∃ group', (l.foldl f m).group = some group' ∧
      group'.isOrphan = false ∧ ∀ b, (l.foldl f m).buffers b = if b ∈ l then none else m.buffers b := by
  induction l generalizing m group with
  | nil => exact ⟨h, group, hg, hown, fun b => by simp⟩
  | cons b l ih =>
    obtain ⟨hnot, hl⟩ := nodup_cons.1 hl
    obtain ⟨buffer, hb, hP⟩ := hlive b (mem_cons_self ..)
    have hstep : f m b = m.dropped group b buffer := hf m group b buffer h hg hown hb hP
    have hinv : GroupInv gid (m.dropped group b buffer) :=
      h.drop hg hb fun ho => absurd (hown.symm.trans ho) (by simp)
    have hlive' : ∀ b' ∈ l, ∃ x, (m.dropped group b buffer).buffers b' = some x ∧ P x := by
      intro b' hb'
      obtain ⟨x, hx, hPx⟩ := hlive b' (mem_cons_of_mem _ hb')
      refine ⟨x, ?_, hPx⟩
      rw [GroupMem.dropped]
      exact (update_of_ne (ne_of_mem_of_not_mem hb' hnot) ..).trans hx
    rw [foldl_cons, hstep]
    obtain ⟨hinv', group', hg', hown', hbuffers⟩ :=
      ih hl hinv (rfl : _ = some (group.without b buffer)) hown hlive'
    refine ⟨hinv', group', hg', hown', fun b' => ?_⟩
    rw [hbuffers, GroupMem.dropped]
    by_cases hb' : b' = b
    · subst hb'
      simp
    · simp [hb', update_of_ne]

/-- The unused buffers of a group that has not been put go. -/
theorem put_unused (putGroup : GroupMem → GroupMem) (l : List ℕ) (hl : l.Nodup) (h : GroupInv gid m)
    (hg : m.group = some group) (hown : group.isOrphan = false)
    (hlive : ∀ b ∈ l, ∃ buffer, m.buffers b = some buffer ∧ buffer.used = false) :
    GroupInv gid (l.foldl (fun m b => servicePutBuffer putGroup false b m) m) ∧
      ∃ group', (l.foldl (fun m b => servicePutBuffer putGroup false b m) m).group = some group' ∧
        group'.isOrphan = false ∧
        ∀ b, (l.foldl (fun m b => servicePutBuffer putGroup false b m) m).buffers b =
          if b ∈ l then none else m.buffers b := by
  refine foldl_drop (fun m group b buffer h hg hown hb hused => ?_) l hl h hg hown hlive
  refine servicePutBuffer_drop putGroup hg hb ?_ fun hstay =>
    absurd (hown.symm.trans hstay.1) (by simp)
  have hnot : ¬0 < buffer.refCount := fun hpos =>
    absurd (((h.buffer b buffer hb).used.2 hpos).symm.trans hused) (by simp)
  exact not_lt.1 hnot

/-- A buffer of a group that has not been put is cleared, and dropped. -/
theorem put_cleared (putGroup : GroupMem → GroupMem) (hg : m.group = some group)
    (hown : group.isOrphan = false) (hb : m.buffers b = some buffer) :
    servicePutBuffer putGroup false b (clearBuffer b m) = m.dropped group b buffer := by
  have hclear : clearBuffer b m = m.setBuffer b { buffer with refCount := 0, discard := true } := by
    simp only [clearBuffer, hb]
  have hself : (m.setBuffer b { buffer with refCount := 0, discard := true }).buffers b =
      some { buffer with refCount := 0, discard := true } := update_self ..
  rw [hclear, servicePutBuffer_drop putGroup (m := m.setBuffer b _) hg hself le_rfl fun hstay =>
    absurd (hown.symm.trans hstay.1) (by simp)]
  exact dropped_setBuffer rfl rfl

/-- The unused list is empty once its buffers have gone. -/
theorem unused_nil (hgo : GroupOk gid m group) {l : List ℕ} {buffers : ℕ → Option MppBufferImpl}
    (hall : ∀ b buffer, buffers b = some buffer → buffer.home = .unused → b ∈ l)
    (hbuffers : ∀ b, m.buffers b = if b ∈ l then none else buffers b) :
    group.list .unused = [] := by
  refine hgo.account.list_eq_nil fun b buffer hb hhome => ?_
  rw [hbuffers] at hb
  split_ifs at hb with hmem
  exact hmem (hall b buffer hb hhome)

/-- The members of the unused list are there, and not used. -/
theorem exists_unused (h : GroupInv gid m) (hg : m.group = some group) :
    ∀ b ∈ group.list .unused, ∃ buffer, m.buffers b = some buffer ∧ buffer.used = false := by
  intro b hmem
  obtain ⟨buffer, hb, hhome⟩ := (h.group group hg).account.exists_of_mem hmem
  refine ⟨buffer, hb, ?_⟩
  by_contra hused
  rw [home_of_used (by simpa using hused)] at hhome
  exact absurd hhome (by simp)

/-- A group that has not been put is put. -/
theorem putGroup {group₀ : MppBufferGroupImpl} (h : GroupInv gid m) (hg : m.group = some group₀)
    (hown : group₀.isOrphan = false) :
    GroupInv gid (Base.putGroup m) := by
  have hgo := h.group group₀ hg
  have hunused := h.exists_unused hg
  rw [Base.putGroup, hg, elim_some, servicePutGroup]
  simp only [hg]
  obtain ⟨h₁, group₁, hg₁, hown₁, hbuffers₁⟩ := put_unused
    (servicePutGroup (group₀.list .unused).length) (group₀.list .unused)
    (hgo.account.filed.nodup .unused) h hg hown hunused
  generalize (group₀.list .unused).foldl (fun m b =>
    servicePutBuffer (servicePutGroup (group₀.list .unused).length) false b m) m = m₁ at *
  have hgo₁ := h₁.group group₁ hg₁
  have hnil : group₁.list .unused = [] := unused_nil hgo₁ (fun b buffer hb hhome =>
    (hgo.account.filed.mem_iff b .unused).2 (by rw [bufferHome, hb, map_some, hhome]))
    hbuffers₁
  simp only [hg₁]
  split_ifs with hused hclear
  · refine h₁.destroy hg₁ fun l => ?_
    cases l with
    | used => exact hused
    | unused => exact hnil
  · -- what is in use is cleared, and dropped too
    have hlive : ∀ b ∈ group₁.list .used, ∃ buffer, m₁.buffers b = some buffer ∧ True := by
      intro b hmem
      obtain ⟨buffer, hb, -⟩ := hgo₁.account.exists_of_mem hmem
      exact ⟨buffer, hb, trivial⟩
    obtain ⟨h₂, group₂, hg₂, -, hbuffers₂⟩ := foldl_drop
      (fun m group b buffer _ hg hown hb _ =>
        put_cleared (servicePutGroup (group₀.list .unused).length) hg hown hb)
      (group₁.list .used) (hgo₁.account.filed.nodup .used) h₁ hg₁ hown₁ hlive
    refine h₂.destroy hg₂ fun l => (h₂.group group₂ hg₂).account.list_eq_nil fun b buffer hb _ => ?_
    rw [hbuffers₂] at hb
    split_ifs at hb with hmem
    have hin : b ∈ group₁.list buffer.home :=
      (hgo₁.account.filed.mem_iff b _).2 (by rw [bufferHome, hb, map_some])
    cases hhome : buffer.home with
    | used => exact hmem (hhome ▸ hin)
    | unused =>
      rw [hhome, hnil] at hin
      exact absurd hin not_mem_nil
  · refine h₁.flags hg₁ rfl rfl rfl rfl rfl rfl rfl fun _ => ⟨by simpa using hclear, hused⟩

/-! ## The other calls -/

/-- An unused buffer becomes used, with one reference. -/
theorem take (h : GroupInv gid m) (hg : m.group = some group) (hb : m.buffers b = some buffer)
    (hused : buffer.used = false) :
    GroupInv gid ((m.setBuffer b { buffer with refCount := buffer.refCount + 1, used := true }).setGroup
      (group.move b .unused .used)) := by
  have hok := h.buffer b buffer hb
  have hok' : BufferOk { buffer with refCount := buffer.refCount + 1, used := true } :=
    { nonneg := Int.le_add_one hok.nonneg
      used := iff_of_true rfl (Int.lt_add_one_of_le hok.nonneg)
      small := hok.small }
  have hmove := h.move hg hb hok' rfl rfl fun _ => by
    have hlist : (group.move b buffer.home .used).list .used =
        unfile b group.list .used ++ [b] := rfl
    exact hlist ▸ append_ne_nil_of_right_ne_nil _ (cons_ne_nil _ _)
  rw [home_of_unused hused] at hmove
  exact hmove

theorem searchUnused (size : BitVec 64) (l : List ℕ) (hl : l.Nodup) (h : GroupInv gid m)
    (hg : m.group = some group) (hown : group.isOrphan = false)
    (hlive : ∀ b ∈ l, ∃ buffer, m.buffers b = some buffer ∧ buffer.used = false) :
    GroupInv gid (Base.searchUnused size l m).2 := by
  induction l generalizing m group with
  | nil => exact h
  | cons b l ih =>
    obtain ⟨hnot, hl⟩ := nodup_cons.1 hl
    obtain ⟨buffer, hb, hused⟩ := hlive b (mem_cons_self ..)
    have hlive' : ∀ b' ∈ l, ∃ buffer, m.buffers b' = some buffer ∧ buffer.used = false :=
      fun b' hb' => hlive b' (mem_cons_of_mem _ hb')
    simp only [Base.searchUnused, hg, hb]
    split_ifs with hsize hmode
    · exact h.take hg hb hused
    · have hnot' : ¬0 < buffer.refCount := fun hpos =>
        absurd (((h.buffer b buffer hb).used.2 hpos).symm.trans hused) (by simp)
      rw [servicePutBuffer_drop Base.putGroup hg hb (not_lt.1 hnot') fun hstay =>
        absurd (hown.symm.trans hstay.1) (by simp)]
      refine ih hl (h.drop hg hb fun ho => absurd (hown.symm.trans ho) (by simp))
        (rfl : _ = some (group.without b buffer)) hown fun b' hb' => ?_
      obtain ⟨x, hx, hux⟩ := hlive' b' hb'
      exact ⟨x, (update_of_ne (ne_of_mem_of_not_mem hb' hnot) ..).trans hx, hux⟩
    · exact ih hl h hg hown hlive'

theorem getUnused (h : GroupInv gid m) (hg : m.group = some group) (hown : group.isOrphan = false)
    (size : BitVec 64) : GroupInv gid (mppBufferGetUnused size m).2 := by
  rw [mppBufferGetUnused, hg]
  exact h.searchUnused size _ ((h.group group hg).account.filed.nodup .unused) hg hown
    (h.exists_unused hg)

theorem discard (h : GroupInv gid m) (hg : m.group = some group) (hb : m.buffers b = some buffer)
    (found : Bool) : GroupInv gid (mppBufferDiscard found b m) := by
  rw [mppBufferDiscard]
  split_ifs
  · simp only [hb]
    have hok := h.buffer b buffer hb
    exact h.set hg hb ⟨hok.nonneg, hok.used, hok.small⟩ rfl rfl rfl
  · exact h

/-- Discarding the buffers in use leaves the group and the flags of its buffers. -/
theorem foldl_discard (l : List ℕ) (h : GroupInv gid m) (hg : m.group = some group)
    (hlive : ∀ b ∈ l, m.buffers b ≠ none) :
    GroupInv gid (l.foldl (fun m b => mppBufferDiscard true b m) m) ∧
      (l.foldl (fun m b => mppBufferDiscard true b m) m).group = some group ∧
      ∀ b, ((l.foldl (fun m b => mppBufferDiscard true b m) m).buffers b).map MppBufferImpl.used =
        (m.buffers b).map MppBufferImpl.used := by
  induction l generalizing m with
  | nil => exact ⟨h, hg, fun _ => rfl⟩
  | cons b l ih =>
    obtain ⟨buffer, hb⟩ := ne_none_iff_exists'.1 (hlive b (mem_cons_self ..))
    have hstep : mppBufferDiscard true b m = m.setBuffer b { buffer with discard := true } := by
      simp only [mppBufferDiscard, hb, ite_true]
    have hsame (b' : ℕ) : ((m.setBuffer b { buffer with discard := true }).buffers b').map
        MppBufferImpl.used = (m.buffers b').map MppBufferImpl.used := by
      rw [GroupMem.setBuffer]
      by_cases hb' : b' = b
      · subst hb'
        simp [hb]
      · simp [hb']
    rw [foldl_cons]
    have h₁ := h.discard hg hb true
    rw [hstep] at h₁ ⊢
    obtain ⟨h₂, hg₂, hused⟩ := ih h₁ hg fun b' hb' hnone => hlive b' (mem_cons_of_mem _ hb')
      (by simpa [hnone] using (hsame b').symm)
    exact ⟨h₂, hg₂, fun b' => (hused b').trans (hsame b')⟩

theorem reset (h : GroupInv gid m) (hg : m.group = some group) (hown : group.isOrphan = false) :
    GroupInv gid (mppBufferGroupReset m) := by
  have hgo := h.group group hg
  have hused : ∀ b ∈ group.list .used, m.buffers b ≠ none := fun b hmem hnone =>
    hgo.account.not_mem hnone .used hmem
  rw [mppBufferGroupReset, hg]
  obtain ⟨h₁, hg₁, hsame⟩ := h.foldl_discard (group.list .used) hg hused
  refine (put_unused Base.putGroup _ (hgo.account.filed.nodup .unused) h₁ hg₁ hown
    fun b hmem => ?_).1
  obtain ⟨buffer, hb, hbu⟩ := h.exists_unused hg b hmem
  have hmap := hsame b
  rw [hb, map_some, hbu] at hmap
  exact map_eq_some_iff.1 hmap

theorem incBufferRef (h : GroupInv gid m) (hg : m.group = some group)
    (hb : m.buffers b = some buffer) : GroupInv gid (Base.incBufferRef true b m).2 := by
  have hok := h.buffer b buffer hb
  simp only [Base.incBufferRef, hb, ite_true]
  split_ifs with hused
  · refine h.set hg hb ⟨Int.le_add_one hok.nonneg, ?_, hok.small⟩ rfl rfl rfl
    exact iff_of_true hused (Int.lt_add_one_of_le hok.nonneg)
  · have hgroup : (m.setBuffer b { buffer with refCount := buffer.refCount + 1, used := true }).group
        = some group := hg
    simp only [hgroup]
    exact h.take hg hb (by simpa using hused)

/-- The next buffer has not been created. -/
theorem buffers_fresh (h : GroupInv gid m) (hg : m.group = some group) :
    m.buffers group.bufferId = none := by
  have hbal := h.booked.balance (some group.bufferId)
  rw [(h.group group hg).fresh group.bufferId le_rfl] at hbal
  have hdead : m.alive (some group.bufferId) = false := by
    rcases halive : m.alive (some group.bufferId) with _ | _
    · rfl
    · rw [halive, Bool.toNat_true] at hbal
      omega
  exact isSome_eq_false_iff.1 hdead |> isNone_iff_eq_none.1

/-- A buffer is created. -/
theorem add (h : GroupInv gid m) (hg : m.group = some group) (hok : BufferOk buffer)
    (hid : buffer.groupId = group.groupId)
    (hgroup : group' =
      { group with
        bufferId := group.bufferId + 1
        list := file group.bufferId buffer.home group.list
        count := update group.count buffer.home (group.count buffer.home + 1)
        usage := group.usage + buffer.size
        bufferCount := group.bufferCount + 1 }) :
    GroupInv gid
      { (m.setBuffer group.bufferId buffer).setGroup group' with
        ledger := m.ledger.acquire {some group.bufferId} } := by
  subst hgroup
  have hgo := h.group group hg
  have hnone := h.buffers_fresh hg
  have hfresh := hgo.fresh group.bufferId le_rfl
  exact
    { booked :=
        { once := fun r => by
            have honce := h.booked.once r
            rw [Ledger.acquired_acquire, Multiset.count_add, Multiset.count_singleton]
            split_ifs with hr
            · rw [hr, hfresh]
            · exact honce
          balance := fun r => by
            have hbal := h.booked.balance r
            rw [Ledger.acquired_acquire, Multiset.count_add, Multiset.count_singleton, hbal]
            rcases r with _ | b
            · simp [GroupMem.alive, GroupMem.setGroup, hg]
            · by_cases hb : b = group.bufferId
              · subst hb
                simp [GroupMem.alive, GroupMem.setGroup, GroupMem.setBuffer, hnone]
              · simp [GroupMem.alive, GroupMem.setGroup, GroupMem.setBuffer, hb] }
      faults := h.faults
      buffer := forall_update h.buffer hok
      group := fun g hg' => by
        obtain rfl := some.inj hg'
        exact
          { groupId := hgo.groupId
            account := hgo.account.add hnone buffer rfl rfl rfl rfl
            fresh := fun b hb => by
              have hb' : group.bufferId + 1 ≤ b := hb
              rw [Ledger.acquired_acquire, Multiset.count_add, hgo.fresh b (by omega),
                Multiset.count_singleton, zero_add]
              exact ite_cond_eq_false _ _ (eq_false fun heq => by
                have := some.inj heq
                omega)
            owner := forall_update hgo.owner (hid.trans hgo.groupId)
            finalizing := hgo.finalizing
            orphan := fun ho => by
              obtain ⟨hclear, hused⟩ := hgo.orphan ho
              refine ⟨hclear, fun hnil => hused ?_⟩
              have hnil' : file group.bufferId buffer.home group.list .used = [] := hnil
              rw [file] at hnil'
              split_ifs at hnil' with hhome
              · exact absurd hnil' (append_ne_nil_of_right_ne_nil _ (cons_ne_nil _ _))
              · exact hnil' }
      gone := fun hnone => absurd hnone (by simp [GroupMem.setGroup]) }

theorem create (h : GroupInv gid m) (hg : m.group = some group) (alloc taken : Bool)
    {size : BitVec 64} (hsize : size.toNat < 2 ^ 32) :
    GroupInv gid (mppBufferCreate alloc taken size m).2 := by
  simp only [mppBufferCreate, hg]
  split
  · exact h
  · split
    · exact h
    · split
      · exact h
      · refine h.add hg { nonneg := ?_, used := ?_, small := hsize } rfl rfl
        · cases taken <;> simp
        · cases taken <;> simp

end GroupInv

/-! ## Dropping references -/

/-- What is left of an orphan after its buffer `b` has been put is another buffer in use.
    When no bytes are left, at most one buffer may be unused: `service_put_group` then runs
    inside itself once for each of them. -/
def LeavesUsed (group : MppBufferGroupImpl) (b : ℕ) (buffer : MppBufferImpl) : Prop :=
  group.isOrphan = true → buffer.refCount = 1 → group.list .used ≠ [b] ∧
    ((!group.isMisc && !buffer.discard) = true ∨ (group.without b buffer).usage ≠ 0 ∨
      (group.list .unused).length ≤ 1)

/-- An orphan with buffers in use stays as it is. -/
theorem setGroup_orphan (hg : m.group = some group) (horphan : group.isOrphan = true) :
    m.setGroup { group with isOrphan := true } = m := by
  have hsame : ({ group with isOrphan := true } : MppBufferGroupImpl) = group := by
    rw [← horphan]
  rw [hsame, GroupMem.setGroup, ← hg]

/-- For an orphan with buffers in use and none unused, `service_put_group` does nothing. -/
theorem servicePutGroup_orphan (n : ℕ) (hg : m.group = some group)
    (hunused : group.list .unused = []) (hused : group.list .used ≠ [])
    (hclear : group.clearOnExit = false) (horphan : group.isOrphan = true) :
    servicePutGroup (n + 1) m = m := by
  rw [servicePutGroup]
  simp only [hg, hunused, foldl_nil]
  rw [ite_cond_eq_false _ _ (eq_false hused), ite_cond_eq_false _ _ (eq_false (by simp [hclear]))]
  exact setGroup_orphan hg horphan

/-- With one unused buffer it drops that. -/
theorem servicePutGroup_orphan_one (n : ℕ) {u : ℕ} {x : MppBufferImpl} (hg : m.group = some group)
    (hunused : group.list .unused = [u]) (hu : u ∉ group.list .used)
    (hused : group.list .used ≠ []) (hclear : group.clearOnExit = false)
    (horphan : group.isOrphan = true) (hx : m.buffers u = some x) (href : x.refCount ≤ 0) :
    servicePutGroup (n + 2) m = m.dropped group u x := by
  have hnil : (group.without u x).list .unused = [] := by
    change (group.list .unused).erase u = []
    rw [hunused, erase_cons_head]
  have hused' : (group.without u x).list .used ≠ [] := by
    change (group.list .used).erase u ≠ []
    rwa [erase_of_not_mem hu]
  have hdrop : servicePutBuffer (servicePutGroup (n + 1)) false u m = m.dropped group u x :=
    servicePutBuffer_drop _ hg hx href fun _ =>
      servicePutGroup_orphan n rfl hnil hused' hclear horphan
  have hg' : (m.dropped group u x).group = some (group.without u x) := rfl
  rw [servicePutGroup]
  simp only [hg, hunused, foldl_cons, foldl_nil, hdrop, hg']
  rw [ite_cond_eq_false _ _ (eq_false hused'),
    ite_cond_eq_false _ _ (eq_false (show ¬(group.without u x).clearOnExit = true by
      simp [MppBufferGroupImpl.without, hclear]))]
  exact setGroup_orphan hg' horphan

/-- A list that holds an item and others still has one without it. -/
theorem erase_ne_nil {l : List ℕ} (hmem : b ∈ l) (hne : l ≠ [b]) : l.erase b ≠ [] := by
  intro hnil
  have hperm := perm_cons_erase hmem
  rw [hnil] at hperm
  exact hne (perm_singleton.1 hperm)

namespace GroupInv

/-- A buffer that is freed once another has been dropped after it -/
theorem freeBuffer_dropped {u : ℕ} {x : MppBufferImpl} (hub : u ≠ b) (href : buffer'.refCount ≤ 0) :
    ((((m.setBuffer b buffer').setGroup (group.without b buffer)).dropped
      (group.without b buffer) u x).freeBuffer b buffer') =
      (m.dropped group b buffer).dropped (group.without b buffer) u x := by
  have hbuffers : update (update
      (update m.buffers b (some buffer')) u none) b none =
      update (update m.buffers b none) u none := by
    rw [update_comm hub, update_idem]
  simp only [GroupMem.freeBuffer, GroupMem.dropped, GroupMem.setGroup, GroupMem.setBuffer,
    hbuffers, Ledger.release_release, not_lt.2 href, ite_false, add_comm ({some u} : Multiset _)]

/-- The last reference to a buffer of an orphan that stays is dropped. -/
theorem put_orphan (h : GroupInv gid m) (hg : m.group = some group) (hb : m.buffers b = some buffer)
    (hused : buffer.used = true) (horphan : group.isOrphan = true)
    (hleft : unfile b group.list .used ≠ [])
    (hone : (group.without b buffer).usage ≠ 0 ∨ (group.list .unused).length ≤ 1)
    (hhome : buffer'.home = buffer.home) (hsize : buffer'.size = buffer.size)
    (href : buffer'.refCount ≤ 0) :
    GroupInv gid (servicePutBuffer Base.putGroup false b (m.setBuffer b buffer')) ∧
      ∃ group', (servicePutBuffer Base.putGroup false b (m.setBuffer b buffer')).group =
        some group' := by
  have hgo := h.group group hg
  have hclear := (hgo.orphan horphan).1
  have hinv : GroupInv gid (m.dropped group b buffer) := h.drop hg hb fun _ => hleft
  have hself : (m.setBuffer b buffer').buffers b = some buffer' := update_self ..
  have hwithout : group.without b buffer' = group.without b buffer := by
    rw [MppBufferGroupImpl.without, MppBufferGroupImpl.without, hhome, hsize]
  have hunused : (group.without b buffer).list .unused = group.list .unused := by
    refine erase_of_not_mem fun hmem => ?_
    obtain ⟨x, hx, hhome⟩ := hgo.account.exists_of_mem hmem
    rw [hb] at hx
    rw [← some.inj hx, home_of_used hused] at hhome
    exact absurd hhome (by simp)
  -- `service_put_group` is not called, or has nothing to do
  have hplain (hput : group.isOrphan = true ∧ (group.without b buffer').usage = 0 →
      Base.putGroup ((m.setBuffer b buffer').setGroup (group.without b buffer')) =
        (m.setBuffer b buffer').setGroup (group.without b buffer')) :
      GroupInv gid (servicePutBuffer Base.putGroup false b (m.setBuffer b buffer')) ∧
        ∃ group', (servicePutBuffer Base.putGroup false b (m.setBuffer b buffer')).group =
          some group' := by
    rw [servicePutBuffer_drop Base.putGroup (m := m.setBuffer b buffer') hg hself href hput,
      dropped_setBuffer hhome hsize]
    exact ⟨hinv, _, rfl⟩
  rcases hl : group.list .unused with _ | ⟨u, l⟩
  · refine hplain fun _ => ?_
    rw [hwithout, Base.putGroup]
    refine servicePutGroup_orphan _ rfl (hunused.trans hl) hleft hclear horphan
  · by_cases hzero : (group.without b buffer).usage = 0
    · -- one unused buffer goes before
      obtain rfl : l = [] := by
        rcases hone with hne | hle
        · exact absurd hzero hne
        · rw [hl, length_cons] at hle
          exact length_eq_zero_iff.1 (by omega)
      obtain ⟨x, hx, hxused⟩ := h.exists_unused hg u (by rw [hl]; exact mem_singleton_self u)
      have hub : u ≠ b := by
        rintro rfl
        rw [hb] at hx
        rw [← some.inj hx, hused] at hxused
        exact absurd hxused (by simp)
      have hxref : x.refCount ≤ 0 := not_lt.1 fun hpos =>
        absurd (((h.buffer u x hx).used.2 hpos).symm.trans hxused) (by simp)
      have hxlist : u ∉ (group.without b buffer).list .used := by
        intro hmem
        obtain ⟨y, hy, hyhome⟩ := hgo.account.exists_of_mem (mem_of_mem_erase hmem)
        rw [hx] at hy
        rw [← some.inj hy, home_of_unused hxused] at hyhome
        exact absurd hyhome (by simp)
      have hlen : ((m.setBuffer b buffer').setGroup (group.without b buffer)).group.elim 0
          (fun group => (group.list .unused).length) = 1 := by
        change ((group.without b buffer).list .unused).length = 1
        rw [hunused, hl, length_singleton]
      have hput : Base.putGroup ((m.setBuffer b buffer').setGroup (group.without b buffer)) =
          ((m.setBuffer b buffer').setGroup (group.without b buffer)).dropped
            (group.without b buffer) u x := by
        rw [Base.putGroup, hlen]
        exact servicePutGroup_orphan_one 0 rfl (hunused.trans hl) hxlist hleft hclear horphan
          ((update_of_ne hub ..).trans hx) hxref
      have hall : servicePutBuffer Base.putGroup false b (m.setBuffer b buffer') =
          (m.dropped group b buffer).dropped (group.without b buffer) u x := by
        have hgroup : (m.setBuffer b buffer').group = some group := hg
        have hcond : (group.without b buffer).isOrphan = true ∧ (group.without b buffer).usage = 0 ∧
            ¬(group.without b buffer).isFinalizing = true :=
          ⟨horphan, hzero, by simp [MppBufferGroupImpl.without, hgo.finalizing]⟩
        simp only [servicePutBuffer, hgroup, hself, ite_false, Bool.false_eq_true, hwithout]
        rw [ite_cond_eq_true _ _ (eq_true hcond), hput]
        exact freeBuffer_dropped hub href
      rw [hall]
      refine ⟨hinv.drop rfl ((update_of_ne hub ..).trans hx) fun _ => ?_, _, rfl⟩
      change ((group.without b buffer).list .used).erase u ≠ []
      rw [erase_of_not_mem hxlist]
      exact hleft
    · exact hplain fun hcond => absurd hcond.2 (by rw [hwithout]; exact hzero)

/-- The last reference to a buffer is dropped. -/
theorem put_last (h : GroupInv gid m) (hg : m.group = some group) (hb : m.buffers b = some buffer)
    (hone : buffer.refCount = 1) (hleaves : LeavesUsed group b buffer) :
    GroupInv gid (servicePutBuffer Base.putGroup (!group.isMisc && !buffer.discard) b
        (m.setBuffer b { buffer with refCount := buffer.refCount - 1 })) ∧
      ∃ group', (servicePutBuffer Base.putGroup (!group.isMisc && !buffer.discard) b
        (m.setBuffer b { buffer with refCount := buffer.refCount - 1 })).group = some group' := by
  have hok := h.buffer b buffer hb
  have hgo := h.group group hg
  have hused : buffer.used = true := hok.used.2 (by omega)
  have hmem : b ∈ group.list .used := (hgo.account.filed.mem_iff b .used).2
    (by rw [bufferHome, hb, map_some, home_of_used hused])
  have hleft : group.isOrphan = true → unfile b group.list .used ≠ [] := fun ho =>
    erase_ne_nil hmem (hleaves ho hone).1
  have hself : (m.setBuffer b { buffer with refCount := buffer.refCount - 1 }).buffers b =
      some { buffer with refCount := buffer.refCount - 1 } := update_self ..
  have hgroup : (m.setBuffer b { buffer with refCount := buffer.refCount - 1 }).group =
      some group := hg
  have hdropped : (m.setBuffer b { buffer with refCount := buffer.refCount - 1 }).dropped group b
      { buffer with refCount := buffer.refCount - 1 } = m.dropped group b buffer :=
    dropped_setBuffer rfl rfl
  have href : buffer.refCount - 1 ≤ 0 := by omega
  cases hreuse : (!group.isMisc && !buffer.discard) with
  | true =>
    -- the buffer waits to be used again
    have hput : servicePutBuffer Base.putGroup true b
        (m.setBuffer b { buffer with refCount := buffer.refCount - 1 }) =
        (m.setBuffer b { buffer with refCount := buffer.refCount - 1, used := false }).setGroup
          (group.move b .used .unused) := by
      simp only [servicePutBuffer, hgroup, hself]
      simp only [ite_true, hused, GroupMem.setBuffer, update_idem]
    have hok' : BufferOk { buffer with refCount := buffer.refCount - 1, used := false } :=
      { nonneg := sub_nonneg.2 hone.ge
        used := iff_of_false (by simp) (not_lt.2 href)
        small := hok.small }
    have hmove := h.move hg hb hok' rfl rfl
    rw [home_of_used hused] at hmove
    rw [hput]
    exact ⟨hmove hleft, _, rfl⟩
  | false =>
    rcases horphan : group.isOrphan with _ | _
    · rw [servicePutBuffer_drop Base.putGroup hgroup hself href fun hstay =>
        absurd (horphan.symm.trans hstay.1) (by simp), hdropped]
      exact ⟨h.drop hg hb hleft, _, rfl⟩
    · have hrest := (hleaves horphan hone).2
      rw [hreuse] at hrest
      exact h.put_orphan hg hb hused horphan (hleft horphan) (hrest.resolve_left (by simp)) rfl rfl
        href

theorem refDec (h : GroupInv gid m) (hg : m.group = some group) (hb : m.buffers b = some buffer)
    (hleaves : LeavesUsed group b buffer) : GroupInv gid (mppBufferRefDec true b m).2 := by
  have hok := h.buffer b buffer hb
  simp only [mppBufferRefDec, hb]
  split
  · exact h
  · rename_i hpos
    have hused : buffer.used = true := hok.used.2 (not_le.1 hpos)
    split
    · rename_i hzero
      have hone : buffer.refCount = 1 := by
        have := hzero.1
        omega
      have hgroup : (m.setBuffer b { buffer with refCount := buffer.refCount - 1 }).group =
        some group := hg
      simp only [hgroup]
      obtain ⟨hinv, group', hg'⟩ := h.put_last hg hb hone hleaves
      rw [hg']
      exact hinv
    · rename_i hzero
      have hzero' : buffer.refCount - 1 ≠ 0 := fun heq => hzero ⟨heq, trivial⟩
      refine h.set hg hb { nonneg := ?_, used := iff_of_true hused ?_, small := hok.small } rfl rfl rfl
      · change 0 ≤ buffer.refCount - 1
        omega
      · change 0 < buffer.refCount - 1
        omega

end GroupInv

end Libmpp.Base
