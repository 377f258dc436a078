import Libmpp.Base.BufferGroup

/-!
# The account of a buffer group

The counts and the usage of a group say what its lists hold, and its lists what its
buffers are. What the functions of the group do to it comes down to four changes, each
of which keeps the account: a buffer is added (`GroupAccount.add`), changed without moving
(`GroupAccount.set`), moved to the other list (`GroupAccount.move`) or dropped
(`GroupAccount.drop`).

Beside the account, each buffer is destroyed once and not while it is referenced, and
nothing is touched after it is destroyed (`GroupInv`).
-/

namespace Libmpp.Base

open Function Option

variable {m : GroupMem} {group : MppBufferGroupImpl} {buffers : ℕ → Option MppBufferImpl}
  {buffer buffer' : MppBufferImpl} {b : ℕ}

/-- The list each buffer belongs to -/
def bufferHome (buffers : ℕ → Option MppBufferImpl) (b : ℕ) : Option BufferList :=
  (buffers b).map MppBufferImpl.home

/-- The size of each buffer -/
def bufferSize (buffers : ℕ → Option MppBufferImpl) (b : ℕ) : BitVec 64 :=
  (buffers b).elim 0 MppBufferImpl.size

theorem bufferHome_update (buffers : ℕ → Option MppBufferImpl) (b : ℕ) (x : Option MppBufferImpl) :
    bufferHome (update buffers b x) =
      update (bufferHome buffers) b (x.map MppBufferImpl.home) := by
  funext b'
  rw [bufferHome, update_apply, update_apply]
  split_ifs <;> rfl

theorem bufferSize_update_same {x : Option MppBufferImpl}
    (hsize : x.elim 0 MppBufferImpl.size = bufferSize buffers b) :
    bufferSize (update buffers b x) = bufferSize buffers := by
  funext b'
  rw [bufferSize, update_apply]
  split_ifs with hb
  · rw [hsize, hb]
  · rfl

/-- The lists hold the buffers, and the numbers beside them say what they hold. -/
structure GroupAccount (buffers : ℕ → Option MppBufferImpl) (group : MppBufferGroupImpl) : Prop where
  filed : Filed group.list (bufferHome buffers)
  count : ∀ l, group.count l = (group.list l).length
  bufferCount : group.bufferCount = ∑ l, ((group.list l).map fun _ => (1 : ℤ)).sum
  usage : group.usage = ∑ l, ((group.list l).map (bufferSize buffers)).sum

namespace GroupAccount

/-- A buffer that has no list is in none. -/
theorem not_mem (h : GroupAccount buffers group) (hb : buffers b = none) (l : BufferList) :
    b ∉ group.list l := by
  rw [h.filed.mem_iff, bufferHome, hb]
  simp

/-- A change of a buffer that leaves it where it is -/
theorem set (h : GroupAccount buffers group) (hb : buffers b = some buffer)
    (hhome : buffer'.home = buffer.home) (hsize : buffer'.size = buffer.size) :
    GroupAccount (update buffers b (some buffer')) group := by
  have hsame : bufferHome (update buffers b (some buffer')) = bufferHome buffers := by
    rw [bufferHome_update, map_some, hhome, ← map_some, ← hb]
    exact update_eq_self b (bufferHome buffers)
  have hsizes : bufferSize (update buffers b (some buffer')) = bufferSize buffers :=
    bufferSize_update_same (by rw [elim_some, hsize, bufferSize, hb, elim_some])
  exact
    { filed := by rw [hsame]; exact h.filed
      count := h.count
      bufferCount := h.bufferCount
      usage := by rw [hsizes]; exact h.usage }

/-- A buffer goes to the other list. -/
theorem move (h : GroupAccount buffers group) (hb : buffers b = some buffer)
    (hsize : buffer'.size = buffer.size) :
    GroupAccount (update buffers b (some buffer'))
      (group.move b buffer.home buffer'.home) := by
  have hhome : bufferHome buffers b = some buffer.home := by rw [bufferHome, hb, map_some]
  have hsizes : bufferSize (update buffers b (some buffer')) = bufferSize buffers :=
    bufferSize_update_same (by rw [elim_some, hsize, bufferSize, hb, elim_some])
  have hout : Filed (unfile b group.list) (update (bufferHome buffers) b none) :=
    h.filed.unfile b
  exact
    { filed := by
        have hin := hout.file (update_self ..) buffer'.home
        rw [update_idem] at hin
        rw [bufferHome_update, map_some]
        exact hin
      count := count_file (h.filed.count_unfile hhome h.count) b buffer'.home
      bufferCount := h.bufferCount.trans
        ((sum_file ..).trans (h.filed.sum_unfile hhome fun _ => (1 : ℤ))).symm
      usage := by
        rw [hsizes]
        exact h.usage.trans ((sum_file ..).trans (h.filed.sum_unfile hhome _)).symm }

/-- A buffer is dropped. -/
theorem drop (h : GroupAccount buffers group) (hb : buffers b = some buffer)
    (hsmall : buffer.size.toNat < 2 ^ 32) :
    GroupAccount (update buffers b none) (group.without b buffer) := by
  have hhome : bufferHome buffers b = some buffer.home := by rw [bufferHome, hb, map_some]
  have hnot (l : BufferList) : b ∉ unfile b group.list l := by
    rw [(h.filed.unfile b).mem_iff, update_self]
    simp
  have hsizes (l : BufferList) : (unfile b group.list l).map (bufferSize (update buffers b none))
      = (unfile b group.list l).map (bufferSize buffers) := by
    refine List.map_congr_left fun b' hb' => ?_
    rw [bufferSize, update_of_ne (ne_of_mem_of_not_mem hb' (hnot l)), bufferSize]
  have hsize : (buffer.size.setWidth 32).setWidth 64 = bufferSize buffers b := by
    rw [bufferSize, hb, elim_some]
    refine BitVec.eq_of_toNat_eq ?_
    rw [BitVec.toNat_setWidth, BitVec.toNat_setWidth, Nat.mod_eq_of_lt hsmall,
      Nat.mod_eq_of_lt buffer.size.isLt]
  exact
    { filed := by
        rw [bufferHome_update, map_none]
        exact h.filed.unfile b
      count := h.filed.count_unfile hhome h.count
      bufferCount := sub_eq_of_eq_add
        (h.bufferCount.trans (h.filed.sum_unfile hhome fun _ => (1 : ℤ)).symm)
      usage := by
        simp only [MppBufferGroupImpl.without, hsizes, hsize]
        exact sub_eq_of_eq_add (h.usage.trans (h.filed.sum_unfile hhome _).symm) }

/-- A buffer is added. -/
theorem add (h : GroupAccount buffers group) (hb : buffers b = none) (buffer : MppBufferImpl)
    {group' : MppBufferGroupImpl} (hlist : group'.list = file b buffer.home group.list)
    (hcount : group'.count =
      update group.count buffer.home (group.count buffer.home + 1))
    (husage : group'.usage = group.usage + buffer.size)
    (hbufferCount : group'.bufferCount = group.bufferCount + 1) :
    GroupAccount (update buffers b (some buffer)) group' := by
  have hhome : bufferHome buffers b = none := by rw [bufferHome, hb, map_none]
  have hsizes (l : BufferList) : (group.list l).map (bufferSize (update buffers b (some buffer)))
      = (group.list l).map (bufferSize buffers) := by
    refine List.map_congr_left fun b' hb' => ?_
    rw [bufferSize, update_of_ne (ne_of_mem_of_not_mem hb' (h.not_mem hb l)), bufferSize]
  have hsize : bufferSize (update buffers b (some buffer)) b = buffer.size := by
    rw [bufferSize, update_self, elim_some]
  exact
    { filed := by
        rw [bufferHome_update, map_some, hlist]
        exact h.filed.file hhome buffer.home
      count := fun l => by
        rw [hcount, hlist]
        exact count_file h.count b buffer.home l
      bufferCount := by
        rw [hbufferCount, hlist, sum_file, h.bufferCount]
      usage := by
        rw [husage, hlist, sum_file, h.usage, hsize]
        simp only [hsizes] }

end GroupAccount

end Libmpp.Base
