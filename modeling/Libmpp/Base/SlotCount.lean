import Libmpp.Base.SlotEdits

/-!
# The count of used slots

`used_count` is kept beside the flags `on_used` of the slots. What `usedCount` should be
is read off the flags (`Accounted`), and each operation is either one that keeps it so or
one that does not, by what it finds before (`CountKept`):

* a reset of a used slot clears the flag only, as does setting the property
  `SLOT_FRAME_PTR`, whose operation is `SLOT_INIT`;
* a setup with more slots, and a ready with another count, initialise used slots.

In the runs in which these find no used slot, the count is right
(`reachable_accounted`).
-/

namespace Libmpp.Base

open List Option

variable {impl impl' : MppBufSlotsImpl} {block i : ℕ} {index : ℤ} {slot : MppBufSlotEntry}
  {op : SlotOp}

namespace MppBufSlotsImpl

/-- The flags `on_used` of the slots that count. -/
def flags (impl : MppBufSlotsImpl) : List Bool :=
  (impl.entries.take impl.bufCount.toNat).map fun slot => slot.status.onUsed

/-- The slots that count are there. -/
structure Sized (impl : MppBufSlotsImpl) : Prop where
  nonneg : 0 ≤ impl.bufCount
  le : impl.bufCount ≤ impl.entries.length

theorem Sized.length_flags (h : Sized impl) : (impl.flags.length : ℤ) = impl.bufCount := by
  rw [flags, length_map, length_take]
  have := h.nonneg
  have := h.le
  omega

theorem getElem?_flags (i : ℕ) : impl.flags[i]? =
    if i < impl.bufCount.toNat then impl.entries[i]?.map fun slot => slot.status.onUsed else none := by
  rw [flags, getElem?_map, getElem?_take]
  split_ifs <;> rfl

/-- The flag of a slot that counts. -/
theorem getElem?_flags_of_lt (hlt : (i : ℤ) < impl.bufCount)
    (hget : impl.entries[i]? = some slot) : impl.flags[i]? = some slot.status.onUsed := by
  rw [getElem?_flags, if_pos (by omega), hget, map_some]

end MppBufSlotsImpl

open MppBufSlotsImpl

/-! ## One entry -/

theorem Edits.sized (h : Edits impl impl' op i) (hs : Sized impl) : Sized impl' where
  nonneg := h.bufCount ▸ hs.nonneg
  le := by
    rw [h.bufCount, h.length]
    exact hs.le

theorem Edits.flags (h : Edits impl impl' op i) (hget : impl.entries[i]? = some slot) :
    impl'.flags = impl.flags.set i (op.edit slot).status.onUsed := by
  refine ext_getElem? fun j => ?_
  by_cases hj : i = j
  · subst hj
    rw [getElem?_set_self', getElem?_flags, getElem?_flags, h.bufCount, h.getElem?_self hget, hget]
    split_ifs <;> rfl
  · rw [getElem?_set_ne hj, getElem?_flags, getElem?_flags, h.bufCount,
      h.getElem?_of_ne (Ne.symm hj)]

theorem Edits.flags_of_same (h : Edits impl impl' op i)
    (hsame : ∀ slot, (op.edit slot).status.onUsed = slot.status.onUsed) :
    impl'.flags = impl.flags := by
  refine ext_getElem? fun j => ?_
  rw [getElem?_flags, getElem?_flags, h.bufCount]
  by_cases hj : j = i
  · subst hj
    cases hget : impl.entries[j]? with
    | none => simp [h.entries, hget]
    | some slot => simp [h.getElem?_self hget, hsame]
  · rw [h.getElem?_of_ne hj]

/-- Only three operations touch the flag. -/
theorem SlotStatus.onUsed_ops {status : SlotStatus} {op : MppBufSlotOps} {arg : Bool}
    (hinit : op ≠ .init) (hset : op ≠ .setOnUse) (hclr : op ≠ .clrOnUse) :
    (status.ops op arg).onUsed = status.onUsed := by
  cases op <;> simp_all [SlotStatus.ops] <;> split_ifs <;> rfl

theorem onUsed_of_isUnheld {status : SlotStatus} (h : status.isUnheld) : status.onUsed = true := by
  simp only [SlotStatus.isUnheld, Bool.and_eq_true] at h
  exact h.1.1.1.1.1

theorem onUsed_recycle (slot : MppBufSlotEntry) : (recycle slot).status.onUsed = false :=
  rfl

/-! ## Unused slots -/

namespace MppBufSlotsImpl

/-- Slots are handed out `n` times, then no more. -/
def HandsOut : ℕ → MppBufSlotsImpl → Prop
  | 0, impl => mppBufSlotGetUnused impl = none
  | n + 1, impl => ∃ r, mppBufSlotGetUnused impl = some r ∧ HandsOut n r.2

/-- `get_unused` finds a slot with its flag cleared, if there is one, and sets the flag. -/
theorem getUnused_spec {r : ℤ × MppBufSlotsImpl} (h : mppBufSlotGetUnused impl = some r) :
    ∃ i : ℕ, impl.flags[i]? = some false ∧ r.2.flags = impl.flags.set i true ∧
      (Sized impl → Sized r.2) := by
  obtain ⟨i, -, he, -, hfree⟩ := getUnused_edited h
  have hget := getElem?_eq_getElem he.lt
  refine ⟨i, ?_, he.flags hget, he.sized⟩
  rw [getElem?_flags_of_lt he.counts hget, hfree _ hget]

theorem getUnused_isSome (hf : false ∈ impl.flags) :
    ∃ r, mppBufSlotGetUnused impl = some r := by
  rw [flags, List.mem_map] at hf
  obtain ⟨slot, hmem, hslot⟩ := hf
  have hsome : ((impl.entries.take impl.bufCount.toNat).findIdx?
      fun slot => !slot.status.onUsed).isSome := by
    rw [List.findIdx?_isSome, List.any_eq_true]
    exact ⟨slot, hmem, by simp [hslot]⟩
  obtain ⟨i, hi⟩ := isSome_iff_exists.1 hsome
  cases hslots : impl.slots with
  | none =>
    rw [entries, hslots] at hmem
    simp at hmem
  | some block => exact ⟨_, by rw [mppBufSlotGetUnused, hslots]; simp [hi]; rfl⟩

/-- As many slots are handed out as have their flags cleared. -/
theorem handsOut (hs : Sized impl) : HandsOut (impl.flags.count false) impl := by
  induction hn : impl.flags.count false generalizing impl with
  | zero =>
    cases h : mppBufSlotGetUnused impl with
    | none => exact h
    | some r =>
      obtain ⟨i, hi, -⟩ := getUnused_spec h
      exact absurd (mem_of_getElem? hi) (count_eq_zero.1 hn)
  | succ n ih =>
    obtain ⟨r, hr⟩ := getUnused_isSome (count_pos_iff.1 (by rw [hn]; exact n.succ_pos))
    obtain ⟨i, hi, hflags, hsized⟩ := getUnused_spec hr
    obtain ⟨hlt, hget⟩ := List.getElem?_eq_some_iff.1 hi
    refine ⟨r, hr, ih (hsized hs) ?_⟩
    rw [hflags, count_set hlt, hn, hget]
    rfl

end MppBufSlotsImpl

open MppBufSlotsImpl

/-! ## The count -/

/-- `used_count` counts the flags; it is in range, and the count of the unused slots says
    how many slots are still handed out. -/
structure Accounted (impl : MppBufSlotsImpl) : Prop where
  sized : Sized impl
  used : impl.usedCount = impl.flags.count true
  nonneg : 0 ≤ mppSlotsGetUsedCount impl
  le : mppSlotsGetUsedCount impl ≤ impl.bufCount
  unused : ∃ n : ℕ, mppSlotsGetUnusedCount impl = some (n : ℤ) ∧ HandsOut n impl

theorem accounted_iff : Accounted impl ↔ Sized impl ∧ impl.usedCount = impl.flags.count true := by
  refine ⟨fun h => ⟨h.sized, h.used⟩, fun ⟨hs, hu⟩ => ?_⟩
  have hlen : (impl.flags.count true : ℤ) + impl.flags.count false = impl.bufCount := by
    rw [← hs.length_flags, ← Nat.cast_add, count_true_add_count_false]
  have hle : impl.usedCount ≤ impl.bufCount := by omega
  have hnonneg : 0 ≤ impl.usedCount := by omega
  refine ⟨hs, hu, hnonneg, hle, impl.flags.count false, ?_, handsOut hs⟩
  rw [mppSlotsGetUnusedCount, if_pos ⟨hnonneg, hle⟩, hu]
  congr 1
  omega

/-- The operation keeps the count right, for what it finds. -/
def CountKept (impl : MppBufSlotsImpl) : SlotOp → Prop
  | .setup count _ =>
    if impl.slots = none then 0 ≤ count
    else true ∉ impl.flags.take (count - impl.bufCount).toNat
  | .ready _ => impl.bufCount = impl.newCount ∨ 0 ≤ impl.newCount ∧ true ∉ impl.flags
  | .setProp index .framePtr => impl.flags[index.toNat]? ≠ some true
  | .reset index => 0 ≤ index → impl.flags[index.toNat]? ≠ some true
  | _ => True

/-- An operation after which neither the flags nor the count differ. -/
structure SameCount (impl impl' : MppBufSlotsImpl) : Prop where
  flags : impl'.flags = impl.flags
  used : impl'.usedCount = impl.usedCount
  sized : Sized impl → Sized impl'

theorem SameCount.accounted (h : SameCount impl impl') (ha : Accounted impl) :
    Accounted impl' := by
  obtain ⟨hs, hu⟩ := Base.accounted_iff.1 ha
  exact Base.accounted_iff.2 ⟨h.sized hs, by rw [h.used, hu, h.flags]⟩

/-- An edit that neither touches the flag nor counts. -/
theorem Edits.accounted (h : Edits impl impl' op i) (ha : Accounted impl)
    (hsame : ∀ slot, (op.edit slot).status.onUsed = slot.status.onUsed)
    (hcounted : op.counted = fun _ => 0) : Accounted impl' := by
  obtain ⟨hs, hu⟩ := Base.accounted_iff.1 ha
  refine Base.accounted_iff.2 ⟨h.sized hs, ?_⟩
  rw [h.used, hcounted, ← used_add_zero, hu, h.flags_of_same hsame]

/-- The count stays right if the flag that is written is counted. -/
theorem Edited.accounted_iff (h : Edited impl impl' op i) (ha : Accounted impl)
    (hget : impl.entries[i]? = some slot) : Accounted impl' ↔
      ((op.edit slot).status.onUsed.toNat : ℤ) = slot.status.onUsed.toNat + op.counted slot := by
  obtain ⟨hs, hu⟩ := Base.accounted_iff.1 ha
  obtain ⟨hlt, hflag⟩ := List.getElem?_eq_some_iff.1 (getElem?_flags_of_lt h.counts hget)
  have hpos : slot.status.onUsed = true → 0 < impl.flags.count true := fun hon =>
    count_pos_iff.2 (hon ▸ hflag ▸ getElem_mem hlt)
  rw [Base.accounted_iff, and_iff_right (h.sized hs), h.used, hget, elim_some, hu, h.flags hget,
    count_set hlt, hflag]
  cases hon : slot.status.onUsed with
  | false => cases (op.edit slot).status.onUsed <;> simp <;> omega
  | true =>
    have := hpos hon
    cases (op.edit slot).status.onUsed <;> simp <;> omega

/-- The flag of a slot is cleared, and the count stays: right for an unused slot only. -/
theorem Edited.accounted_clear_iff (h : Edited impl impl' op i) (ha : Accounted impl)
    (hclear : ∀ slot, (op.edit slot).status.onUsed = false) (hcounted : op.counted = fun _ => 0) :
    Accounted impl' ↔ impl.flags[i]? ≠ some true := by
  obtain ⟨slot, hget⟩ : ∃ slot, impl.entries[i]? = some slot := ⟨_, getElem?_eq_getElem h.lt⟩
  rw [h.accounted_iff ha hget, hclear, hcounted, getElem?_flags_of_lt h.counts hget]
  cases slot.status.onUsed <;> simp

/-! ## Memory -/

section Frame

variable {pos count : ℤ} {mem : Realloc}

@[simp] theorem bufCount_initSlotEntry :
    (initSlotEntry impl pos count).bufCount = impl.bufCount := by
  rw [initSlotEntry]
  split <;> rfl

@[simp] theorem usedCount_initSlotEntry :
    (initSlotEntry impl pos count).usedCount = impl.usedCount := by
  rw [initSlotEntry]
  split <;> rfl

@[simp] theorem newCount_initSlotEntry :
    (initSlotEntry impl pos count).newCount = impl.newCount := by
  rw [initSlotEntry]
  split <;> rfl

@[simp] theorem bufCount_calloc : (impl.calloc count).bufCount = impl.bufCount := by
  rw [calloc]
  split_ifs <;> rfl

@[simp] theorem bufCount_realloc : (impl.realloc count mem).bufCount = impl.bufCount := by
  rw [realloc]
  split
  · split_ifs <;> rfl
  · rfl

@[simp] theorem usedCount_realloc : (impl.realloc count mem).usedCount = impl.usedCount := by
  rw [realloc]
  split
  · split_ifs <;> rfl
  · rfl

@[simp] theorem newCount_realloc : (impl.realloc count mem).newCount = impl.newCount := by
  rw [realloc]
  split
  · split_ifs <;> rfl
  · rfl

end Frame

variable {count : ℤ} {mem : Realloc}

theorem entries_calloc (hcount : 0 ≤ count) :
    (impl.calloc count).entries = List.replicate count.toNat 0 := by
  simp [calloc, hcount, entries]

theorem entries_realloc (hslots : impl.slots = some block)
    (hcount : 0 < count) : (impl.realloc count mem).entries =
      (List.range count.toNat).map fun i => impl.entries[i]?.getD (mem.entry i) := by
  rw [realloc, hslots]
  dsimp only
  rw [if_pos hcount]
  simp [entries]

/-- The entry that `init_slot_entry` leaves at position `i`. -/
def initEntry (pos : ℤ) (i : ℕ) (slot : MppBufSlotEntry) : MppBufSlotEntry :=
  slotOpsWithLog { slot with index := pos + i, frame := none } .init false

theorem entries_initSlotEntry {pos count : ℤ} : (initSlotEntry impl pos count).entries =
    impl.entries.mapIdx fun i slot => if (i : ℤ) < count then initEntry pos i slot else slot := by
  cases hslots : impl.slots with
  | none => simp [initSlotEntry, entries, hslots]
  | some block =>
    cases hheap : impl.heap block with
    | none => simp [initSlotEntry, entries, hslots, hheap]
    | some slots =>
      simp [initSlotEntry, entries, hslots, hheap]
      rfl

/-- What an initialisation leaves of the flags of some entries. -/
theorem map_onUsed_init {slots : List MppBufSlotEntry} {pos count : ℤ} (n : ℕ)
    (hn : n ≤ slots.length) :
    ((slots.mapIdx fun i slot => if (i : ℤ) < count then initEntry pos i slot else slot).take n).map
        (fun slot => slot.status.onUsed) =
      List.replicate (min count.toNat n) false ++
        ((slots.take n).map fun slot => slot.status.onUsed).drop count.toNat := by
  refine ext_getElem? fun i => ?_
  rw [getElem?_map, getElem?_append, length_replicate, getElem?_replicate,
    getElem?_drop, getElem?_map]
  by_cases hi : i < n
  · have hlt : i < slots.length := by omega
    rw [getElem?_take_of_lt hi, getElem?_mapIdx, getElem?_eq_getElem hlt]
    by_cases hc : (i : ℤ) < count
    · have hmin : i < min count.toNat n := by omega
      simp [hc, hmin]
      rfl
    · have hmin : ¬ i < min count.toNat n := by omega
      have hidx : count.toNat + (i - min count.toNat n) = i := by omega
      simp [hc, hmin, hidx, hi, getElem?_eq_getElem hlt]
  · have hmin : ¬ i < min count.toNat n := by omega
    have hidx : ¬ count.toNat + (i - min count.toNat n) < n := by omega
    rw [if_neg hmin]
    simp [hi, hidx]

/-- A larger block starts with the slots there were. -/
theorem map_onUsed_realloc (hs : Sized impl)
    (hslots : impl.slots = some block) (hcount : impl.bufCount < count) :
    ((impl.realloc count mem).entries.take impl.bufCount.toNat).map
      (fun slot => slot.status.onUsed) = impl.flags := by
  have hnonneg := hs.nonneg
  have hle := hs.le
  rw [entries_realloc hslots (by omega), flags]
  congr 1
  refine ext_getElem? fun i => ?_
  by_cases hi : i < impl.bufCount.toNat
  · have hlt : i < impl.entries.length := by omega
    have hrange : i < count.toNat := by omega
    rw [getElem?_take_of_lt hi, getElem?_take_of_lt hi, getElem?_map,
      getElem?_range hrange, map_some, getElem?_eq_getElem hlt, getD_some]
  · simp [hi]

/-- Setup counts the slots of a first setup only. -/
theorem bufCount_setup_first (hslots : impl.slots = none) :
    (mppBufSlotSetup impl count mem).bufCount = count := by
  rw [mppBufSlotSetup, hslots]
  simp

theorem entries_setup_first (hslots : impl.slots = none)
    (hcount : 0 ≤ count) : (mppBufSlotSetup impl count mem).entries =
      (List.replicate count.toNat 0).mapIdx fun i slot =>
        if (i : ℤ) < count then initEntry 0 i slot else slot := by
  have hzero : ({ impl with bufCount := count, newCount := count }.calloc count).entries =
      List.replicate count.toNat 0 := entries_calloc hcount
  rw [mppBufSlotSetup, hslots, ← hzero]
  exact entries_initSlotEntry

theorem sized_setup_first (hslots : impl.slots = none)
    (hcount : 0 ≤ count) : Sized (mppBufSlotSetup impl count mem) := by
  constructor
  · rw [bufCount_setup_first hslots]
    exact hcount
  · rw [bufCount_setup_first hslots, entries_setup_first hslots hcount]
    simp [hcount]

theorem accounted_setup_first (hslots : impl.slots = none) :
    Accounted (mppBufSlotSetup impl count mem) ↔ 0 ≤ count := by
  refine ⟨fun h => (bufCount_setup_first hslots).subst h.sized.nonneg, fun hcount => ?_⟩
  have hused : (mppBufSlotSetup impl count mem).usedCount = 0 := by
    rw [mppBufSlotSetup, hslots]
  refine accounted_iff.2 ⟨sized_setup_first hslots hcount, ?_⟩
  rw [hused, flags, bufCount_setup_first hslots, entries_setup_first hslots hcount,
    map_onUsed_init _ (by simp)]
  simp [count_replicate]

/-- A setup with more slots. -/
theorem mppBufSlotSetup_more (hslots : impl.slots = some block)
    (hcount : impl.bufCount < count) : mppBufSlotSetup impl count mem =
      { initSlotEntry (impl.realloc count mem) impl.bufCount (count - impl.bufCount) with
        newCount := count } := by
  simp only [mppBufSlotSetup, hslots, gt_iff_lt, if_pos hcount]

theorem bufCount_setup_more (hslots : impl.slots = some block)
    (hcount : impl.bufCount < count) :
    (mppBufSlotSetup impl count mem).bufCount = impl.bufCount := by
  rw [mppBufSlotSetup_more hslots hcount]
  exact bufCount_initSlotEntry.trans bufCount_realloc

/-- It initialises as many slots as there are new ones, from the first slot on. -/
theorem entries_setup_more (hslots : impl.slots = some block)
    (hcount : impl.bufCount < count) : (mppBufSlotSetup impl count mem).entries =
      (impl.realloc count mem).entries.mapIdx fun i slot =>
        if (i : ℤ) < count - impl.bufCount then initEntry impl.bufCount i slot else slot := by
  rw [mppBufSlotSetup_more hslots hcount]
  exact entries_initSlotEntry

theorem sized_setup_more (hs : Sized impl)
    (hslots : impl.slots = some block) (hcount : impl.bufCount < count) :
    Sized (mppBufSlotSetup impl count mem) := by
  have hnonneg := hs.nonneg
  constructor
  · rw [bufCount_setup_more hslots hcount]
    exact hnonneg
  · rw [bufCount_setup_more hslots hcount, entries_setup_more hslots hcount, length_mapIdx,
      entries_realloc hslots (by omega)]
    simp
    omega

theorem accounted_setup_more (ha : Accounted impl)
    (hslots : impl.slots = some block) (hcount : impl.bufCount < count) :
    Accounted (mppBufSlotSetup impl count mem) ↔
      true ∉ impl.flags.take (count - impl.bufCount).toNat := by
  obtain ⟨hs, hu⟩ := accounted_iff.1 ha
  have hnonneg := hs.nonneg
  have hused : (mppBufSlotSetup impl count mem).usedCount = impl.usedCount := by
    rw [mppBufSlotSetup_more hslots hcount]
    exact usedCount_initSlotEntry.trans usedCount_realloc
  have hreal : (impl.realloc count mem).entries.length = count.toNat := by
    rw [entries_realloc hslots (by omega)]
    simp
  have hsized : Sized (mppBufSlotSetup impl count mem) := sized_setup_more hs hslots hcount
  have hflags : (mppBufSlotSetup impl count mem).flags =
      List.replicate (min (count - impl.bufCount).toNat impl.bufCount.toNat) false ++
        impl.flags.drop (count - impl.bufCount).toNat := by
    rw [flags, bufCount_setup_more hslots hcount, entries_setup_more hslots hcount,
      map_onUsed_init _ (by omega), map_onUsed_realloc hs hslots hcount]
  have hsplit : impl.flags.count true =
      (impl.flags.take (count - impl.bufCount).toNat).count true +
        (impl.flags.drop (count - impl.bufCount).toNat).count true := by
    rw [← count_append, take_append_drop]
  rw [accounted_iff, hused, hu, hflags, count_append, ← count_eq_zero, hsplit]
  simp [hsized, count_replicate]

/-- A ready with another count takes over that count, and initialises all slots. -/
structure Readied (impl impl' : MppBufSlotsImpl) : Prop where
  bufCount : impl'.bufCount = impl.newCount
  used : impl'.usedCount = impl.usedCount
  length : impl'.entries.length = impl.newCount.toNat
  unused : true ∉ impl'.flags

theorem mppBufSlotReady_spec (hst : mppBufSlotReady impl mem = some impl')
    (hcount : impl.bufCount ≠ impl.newCount) : Readied impl impl' := by
  rw [mppBufSlotReady] at hst
  split_ifs at hst with hslots
  obtain ⟨block, hslots⟩ := ne_none_iff_exists'.1 hslots
  have hst := some.inj hst
  have hbuf : impl'.bufCount = impl.newCount := by
    rw [← hst]
    exact newCount_initSlotEntry.trans newCount_realloc
  have hentries : impl'.entries = (impl.realloc impl.newCount mem).entries.mapIdx fun i slot =>
      if (i : ℤ) < impl.newCount then initEntry 0 i slot else slot := by
    rw [← hst]
    exact entries_initSlotEntry
  have hlen : (impl.realloc impl.newCount mem).entries.length = impl.newCount.toNat := by
    by_cases hpos : 0 < impl.newCount
    · rw [entries_realloc hslots hpos]
      simp
    · simp [realloc, hslots, hpos, entries]
      omega
  refine ⟨hbuf, ?_, ?_, ?_⟩
  · rw [← hst]
    exact usedCount_initSlotEntry.trans usedCount_realloc
  · rw [hentries, length_mapIdx, hlen]
  · rw [flags, hbuf, hentries, map_onUsed_init _ hlen.ge, drop_of_length_le]
    · simp
    · simp [hlen]

theorem Readied.sized (h : Readied impl impl') : Sized impl' ↔ 0 ≤ impl.newCount := by
  refine ⟨fun hs => h.bufCount ▸ hs.nonneg, fun hnonneg => ⟨h.bufCount ▸ hnonneg, ?_⟩⟩
  rw [h.bufCount, h.length]
  omega

/-- A ready with the count there is. -/
theorem mppBufSlotReady_same (hst : mppBufSlotReady impl mem = some impl')
    (hcount : impl.bufCount = impl.newCount) : SameCount impl impl' := by
  rw [mppBufSlotReady] at hst
  split_ifs at hst with hslots hne
  · exact absurd hcount hne
  · rw [← some.inj hst]
    refine ⟨?_, rfl, fun hs => ⟨?_, ?_⟩⟩
    · rw [flags, flags, hcount]
      rfl
    · exact hcount ▸ hs.nonneg
    · exact hcount ▸ hs.le

theorem accounted_ready (ha : Accounted impl)
    (hst : mppBufSlotReady impl mem = some impl') :
    Accounted impl' ↔ impl.bufCount = impl.newCount ∨ 0 ≤ impl.newCount ∧ true ∉ impl.flags := by
  by_cases hcount : impl.bufCount = impl.newCount
  · exact iff_of_true ((mppBufSlotReady_same hst hcount).accounted ha) (.inl hcount)
  · have h := mppBufSlotReady_spec hst hcount
    rw [accounted_iff, or_iff_right hcount, h.sized, h.used, ha.used,
      count_eq_zero.2 h.unused, ← count_eq_zero, Nat.cast_inj]

/-! ## The operations -/

theorem accounted_getUnused {r : ℤ × MppBufSlotsImpl} (ha : Accounted impl)
    (hst : mppBufSlotGetUnused impl = some r) : Accounted r.2 := by
  obtain ⟨i, -, he, -, hfree⟩ := getUnused_edited hst
  have hget := getElem?_eq_getElem he.lt
  refine (he.accounted_iff ha hget).2 ?_
  rw [hfree _ hget]
  rfl

/-- An entry is counted out as its flag is cleared. -/
theorem accounted_clrFlag {type : SlotUsageType} {r : Bool × MppBufSlotsImpl} (ha : Accounted impl)
    (hst : mppBufSlotClrFlag impl index type = some r) : Accounted r.2 := by
  obtain ⟨he, -⟩ := clrFlag_edited hst
  obtain ⟨slot, hget⟩ : ∃ slot, impl.entries[index.toNat]? = some slot :=
    ⟨_, getElem?_eq_getElem he.lt⟩
  have hops : ∀ slot, (slotOpsWithLog slot (clrFlagOp type) false).status.onUsed =
      slot.status.onUsed := by
    intro slot
    refine SlotStatus.onUsed_ops ?_ ?_ ?_ <;> cases type <;> simp [clrFlagOp]
  refine (he.accounted_iff ha hget).2 ?_
  rw [SlotOp.edit, clrEdit, SlotOp.counted]
  split_ifs with hunheld
  · have hon := hops slot
    rw [onUsed_of_isUnheld hunheld] at hon
    rw [onUsed_recycle, ← hon]
    rfl
  · rw [hops, add_zero]

theorem accounted_setProp {val : SlotProp} (ha : Accounted impl)
    (hst : mppBufSlotSetProp impl index val = some impl') :
    Accounted impl' ↔ CountKept impl (.setProp index val) := by
  obtain ⟨he, -⟩ := setProp_edited hst
  cases val with
  | framePtr => exact he.accounted_clear_iff ha (fun _ => rfl) rfl
  | _ => exact iff_of_true (he.accounted ha (fun _ => rfl) rfl) trivial

theorem accounted_reset {r : MppRet × MppBufSlotsImpl} (ha : Accounted impl)
    (hst : mppBufSlotReset impl index = some r) :
    Accounted r.2 ↔ CountKept impl (.reset index) := by
  rcases reset_edited hst with ⟨hneg, hsame⟩ | ⟨hnonneg, he⟩
  · rw [hsame]
    exact iff_of_true ha fun hnonneg => absurd hneg (not_lt.2 hnonneg)
  · rw [CountKept, forall_prop_of_true hnonneg]
    exact he.accounted_clear_iff ha (fun _ => rfl) rfl

/-- An operation keeps the count right exactly when it finds no used slot where it clears
    flags without counting. -/
theorem accounted_step {op : SlotOp} (ha : Accounted impl) (hst : slotStep impl op = some impl') :
    Accounted impl' ↔ CountKept impl op := by
  cases op with
  | setup count mem =>
    obtain rfl := some.inj hst
    cases hslots : impl.slots with
    | none => rw [accounted_setup_first hslots, CountKept, if_pos hslots]
    | some block =>
      rw [CountKept, if_neg (by simp [hslots])]
      by_cases hcount : impl.bufCount < count
      · exact accounted_setup_more ha hslots hcount
      · have hsetup : mppBufSlotSetup impl count mem = { impl with newCount := count } := by
          simp only [mppBufSlotSetup, hslots, gt_iff_lt, if_neg hcount]
        have hsame : SameCount impl (mppBufSlotSetup impl count mem) := by
          rw [hsetup]
          exact ⟨rfl, rfl, fun hs => ⟨hs.nonneg, hs.le⟩⟩
        have hzero : (count - impl.bufCount).toNat = 0 := by omega
        refine iff_of_true (hsame.accounted ha) ?_
        rw [hzero]
        exact not_mem_nil
  | ready mem => exact accounted_ready ha hst
  | getUnused =>
    obtain ⟨r, hr, rfl⟩ := map_eq_some_iff.1 hst
    exact iff_of_true (accounted_getUnused ha hr) trivial
  | clrFlag index type =>
    obtain ⟨r, hr, rfl⟩ := map_eq_some_iff.1 hst
    exact iff_of_true (accounted_clrFlag ha hr) trivial
  | setProp index val => exact accounted_setProp ha hst
  | reset index =>
    obtain ⟨r, hr, rfl⟩ := map_eq_some_iff.1 hst
    exact accounted_reset ha hr
  | setFlag index type =>
    obtain ⟨i, he⟩ := edits_step hst (by simp) (by simp)
    exact iff_of_true (he.accounted ha (fun slot => by cases type <;> rfl) rfl) trivial
  | dequeue type =>
    obtain ⟨i, he⟩ := edits_step hst (by simp) (by simp)
    exact iff_of_true (he.accounted ha (fun slot =>
      SlotStatus.onUsed_ops (by simp) (by simp) (by simp)) rfl) trivial
  | _ =>
    obtain ⟨i, he⟩ := edits_step hst (by simp) (by simp)
    exact iff_of_true (he.accounted ha (fun _ => rfl) rfl) trivial

theorem accounted_init : Accounted mppBufSlotInit :=
  accounted_iff.2 ⟨⟨le_refl 0, le_refl 0⟩, rfl⟩

/-- In every run whose operations keep the count right, it is right at all times; and the
    first operation that does not leaves it wrong. -/
theorem reachable_accounted
    (hr : (slotMachine.guarded fun s op _ => CountKept s op).Reachable impl) :
    Accounted impl ∧
      ∀ op impl', slotStep impl op = some impl' → (Accounted impl' ↔ CountKept impl op) := by
  have ha : Accounted impl := by
    refine hr.invariant (P := Accounted) (fun s hs => ?_) fun s op s' _ hi hst => ?_
    · obtain rfl : s = mppBufSlotInit := hs
      exact accounted_init
    · exact (accounted_step hi hst.1).2 hst.2
  exact ⟨ha, fun _ _ hst => accounted_step ha hst⟩

instance (impl : MppBufSlotsImpl) (op : SlotOp) : Decidable (CountKept impl op) :=
  match op with
  | .setup count _ => inferInstanceAs (Decidable (if impl.slots = none then 0 ≤ count
      else true ∉ impl.flags.take (count - impl.bufCount).toNat))
  | .ready _ => inferInstanceAs (Decidable (_ ∨ _))
  | .setProp _ .framePtr => inferInstanceAs (Decidable (_ ≠ _))
  | .reset _ => inferInstanceAs (Decidable (_ → _))
  | .getUnused | .setFlag _ _ | .clrFlag _ _ | .enqueue _ _ | .dequeue _ | .getProp _ _
  | .defaultInfo _ _ | .setProp _ (.eos _) | .setProp _ (.frame _ _) | .setProp _ (.buffer _) =>
    isTrue trivial

/-- A reallocation in place. -/
def reallocInPlace : Realloc :=
  { moved := false, entry := fun _ => 0, link := fun _ => ⟨.slot 0 0, .slot 0 0⟩ }

/-- Two slots, the first of which is in use. -/
theorem reachable_accounted_two : ∃ impl,
    (slotMachine.guarded fun s op _ => CountKept s op).Reachable impl ∧ impl.flags = [true, false] ∧
      Accounted impl ∧
        ∀ op impl', slotStep impl op = some impl' → (Accounted impl' ↔ CountKept impl op) := by
  have hrun : ((Machine.run slotStep (fun s op _ => CountKept s op) mppBufSlotInit
      [.setup 2 reallocInPlace, .getUnused]).any fun impl => decide (impl.flags = [true, false])) = true := by
    decide
  obtain ⟨impl, hr, hv⟩ := (any_eq_true _ _).1 hrun
  have hreach := Machine.Reachable.run (.init rfl) hr
  exact ⟨impl, hreach, of_decide_eq_true hv, reachable_accounted hreach⟩

/-- A reset of a used slot: no slot is used, and one is counted as used. The slot is still
    handed out, but not counted as unused. -/
theorem reset_not_accounted : ∃ impl, slotMachine.Reachable impl ∧ impl.flags = [false] ∧
    impl.usedCount = 1 ∧ mppSlotsGetUnusedCount impl = some 0 ∧
      (mppBufSlotGetUnused impl).isSome ∧ ¬ Accounted impl := by
  have hrun : ((Machine.run slotStep (fun _ _ _ => True) mppBufSlotInit
      [.setup 1 reallocInPlace, .getUnused, .reset 0]).any fun impl => decide (impl.flags = [false] ∧
          impl.usedCount = 1 ∧ mppSlotsGetUnusedCount impl = some 0 ∧
            (mppBufSlotGetUnused impl).isSome)) = true := by
    decide
  obtain ⟨impl, hr, hv⟩ := (any_eq_true _ _).1 hrun
  obtain ⟨hflags, hused, hunused, hsome⟩ := of_decide_eq_true hv
  refine ⟨impl, (Machine.Reachable.run (.init rfl) hr).of_guarded, hflags, hused, hunused, hsome,
    fun ha => ?_⟩
  have hcount := ha.used
  rw [hflags, hused] at hcount
  exact absurd hcount (by decide)

end Libmpp.Base
