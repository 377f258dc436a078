import Libmpp.Base.Slots

/-!
# What an operation edits

An operation on the slots edits the entry of one slot, in its place, if it does anything to
them (`edits_step`); only a setup and a ready do more. So what an operation does to the
slots is said by its edit (`SlotOp.edit`), and by what it adds to the count of the used ones
(`SlotOp.counted`).
-/

namespace Libmpp.Base

open List Option

variable {impl impl' : MppBufSlotsImpl} {block pos i : ℕ} {index : ℤ} {slot : MppBufSlotEntry}
  {type : SlotQueueType} {f g : MppBufSlotEntry → MppBufSlotEntry} {op : SlotOp}

namespace MppBufSlotsImpl

theorem entries_modify (f : MppBufSlotEntry → MppBufSlotEntry) :
    (impl.modify block pos f).entries =
      if impl.slots = some block then impl.entries.modify pos f else impl.entries := by
  rw [entries, entries, modify]
  cases hs : impl.slots with
  | none => simp
  | some b =>
    by_cases hb : b = block
    · subst hb
      cases hh : impl.heap b with
      | none => simp [hh]
      | some slots => simp [hh]
    · simp [hb]

/-- What the functions with an index find. -/
theorem slotAt_spec (h : impl.slotAt index = some (block, pos, slot)) :
    impl.slots = some block ∧ 0 ≤ index ∧ index < impl.bufCount ∧ pos = index.toNat ∧
      impl.entries[pos]? = some slot := by
  rw [slotAt] at h
  split_ifs at h with hrange
  obtain ⟨b, hb, h⟩ := bind_eq_some_iff.1 h
  obtain ⟨s, hs, h⟩ := bind_eq_some_iff.1 h
  obtain ⟨rfl, hpair⟩ := Prod.mk.inj (some.inj h)
  obtain ⟨rfl, rfl⟩ := Prod.mk.inj hpair
  refine ⟨hb, hrange.1, hrange.2, rfl, ?_⟩
  obtain ⟨slots, hslots, hget⟩ := bind_eq_some_iff.1 hs
  rw [entries, hb, bind_some, hslots]
  exact hget

/-- The link of a slot. -/
def node (impl : MppBufSlotsImpl) (i : ℕ) : SlotNode := .slot (impl.slots.getD 0) i

theorem entryAt_slots (hslots : impl.slots = some block) (i : ℕ) :
    impl.entryAt block i = impl.entries[i]? := by
  rw [entryAt, entries, hslots, bind_some]
  cases impl.heap block with
  | none => simp
  | some slots => rfl

end MppBufSlotsImpl

open MppBufSlotsImpl

/-- What a clear does to the entry: it is recycled when nobody holds it any more. -/
def clrEdit (type : SlotUsageType) (slot : MppBufSlotEntry) : MppBufSlotEntry :=
  let slot := slotOpsWithLog slot (clrFlagOp type) false
  if slot.status.isUnheld then recycle slot else slot

/-- What setting a property does to the entry. -/
def propEdit : SlotProp → MppBufSlotEntry → MppBufSlotEntry
  | .eos eos, slot => { slotOpsWithLog slot .setEos true with eos }
  | .frame frame _, slot => { slotOpsWithLog slot .setFrame true with frame := some frame }
  | .buffer buffer, slot => { slotOpsWithLog slot .setBuffer true with buffer := some buffer }
  | .framePtr, slot => slotOpsWithLog slot .init true

/-- What giving the default frame does to the entry. -/
def defaultEdit (frame : ℕ) (slot : MppBufSlotEntry) : MppBufSlotEntry :=
  slotOpsWithLog (slotOpsWithLog { slot with frame := some frame } .clrNotReady false) .setFrame true

/-- What an operation does to the entry it edits. -/
def SlotOp.edit : SlotOp → MppBufSlotEntry → MppBufSlotEntry
  | .getUnused, slot => slotOpsWithLog (slotOpsWithLog slot .setOnUse false) .setNotReady false
  | .setFlag _ type, slot => slotOpsWithLog slot (setFlagOp type) false
  | .clrFlag _ type, slot => clrEdit type slot
  | .enqueue _ type, slot => slotOpsWithLog slot (.enqueue type) false
  | .dequeue type, slot => slotOpsWithLog slot (.dequeue type) false
  | .setProp _ val, slot => propEdit val slot
  | .defaultInfo _ frame, slot => defaultEdit frame slot
  | .reset _, slot => slotOpsWithLog (slotOpsWithLog (slotOpsWithLog slot .clrQueueUse false)
      (.dequeue .output) false) .clrOnUse false
  | .setup _ _, slot | .ready _, slot | .getProp _ _, slot => slot

/-- What an operation adds to `used_count`, by the entry it finds. -/
def SlotOp.counted : SlotOp → MppBufSlotEntry → ℤ
  | .getUnused, _ => 1
  | .clrFlag _ type, slot =>
    if (slotOpsWithLog slot (clrFlagOp type) false).status.isUnheld then -1 else 0
  | _, _ => 0

/-- The slots are as before, the entry at position `i` edited, if it is there. -/
structure Edits (impl impl' : MppBufSlotsImpl) (op : SlotOp) (i : ℕ) : Prop where
  slots : impl'.slots = impl.slots
  bufCount : impl'.bufCount = impl.bufCount
  newCount : impl'.newCount = impl.newCount
  entries : impl'.entries = impl.entries.modify i op.edit
  used : impl'.usedCount = impl.usedCount + impl.entries[i]?.elim 0 op.counted

/-- The entry at position `i` is edited: it is the one of a slot that counts. -/
structure Edited (impl impl' : MppBufSlotsImpl) (op : SlotOp) (i : ℕ) : Prop extends
    Edits impl impl' op i where
  lt : i < impl.entries.length
  counts : (i : ℤ) < impl.bufCount

theorem Edits.length (h : Edits impl impl' op i) : impl'.entries.length = impl.entries.length := by
  rw [h.entries, length_modify]

theorem Edits.getElem?_self (h : Edits impl impl' op i) (hget : impl.entries[i]? = some slot) :
    impl'.entries[i]? = some (op.edit slot) := by
  simp [h.entries, hget]

theorem Edits.getElem?_of_ne (h : Edits impl impl' op i) {j : ℕ} (hj : j ≠ i) :
    impl'.entries[j]? = impl.entries[j]? := by
  simp [h.entries, hj.symm]

/-- Nothing is edited: there is no entry after the last one. -/
theorem Edits.refl (impl : MppBufSlotsImpl) (op : SlotOp) :
    Edits impl impl op impl.entries.length :=
  ⟨rfl, rfl, rfl, (modify_eq_self le_rfl).symm, by simp⟩

/-- An operation that counts nothing. -/
theorem used_add_zero (o : Option MppBufSlotEntry) :
    impl.usedCount = impl.usedCount + o.elim 0 fun _ => 0 := by
  cases o <;> simp

/-- An edit is what it does to the entry there is. -/
theorem modify_congr {l : List MppBufSlotEntry} (hget : l[i]? = some slot)
    (hfg : f slot = g slot) : l.modify i f = l.modify i g := by
  refine ext_getElem? fun j => ?_
  rw [getElem?_modify, getElem?_modify]
  by_cases hj : i = j
  · subst hj
    simp [hget, hfg]
  · simp [hj]

/-- An edit of the entry at an index. -/
theorem edited_at (hat : impl.slotAt index = some (block, pos, slot)) (op : SlotOp)
    (hf : f slot = op.edit slot) (hcounted : op.counted = fun _ => 0) :
    Edited impl (impl.modify block pos f) op index.toNat := by
  obtain ⟨hslots, hnonneg, hlt, rfl, hget⟩ := slotAt_spec hat
  refine ⟨⟨rfl, rfl, rfl, ?_, ?_⟩, (List.getElem?_eq_some_iff.1 hget).1, by omega⟩
  · rw [entries_modify, if_pos hslots, modify_congr hget hf]
  · rw [hcounted]
    exact used_add_zero _

/-- Two edits of the entry at an index are one. -/
theorem modify_modify (impl : MppBufSlotsImpl) (f g : MppBufSlotEntry → MppBufSlotEntry) :
    (impl.modify block pos f).modify block pos g = impl.modify block pos (g ∘ f) := by
  simp only [MppBufSlotsImpl.modify, Function.update_idem, Function.update_self]
  cases impl.heap block with
  | none => rfl
  | some slots => simp [modify_modify_eq]

/-! ## The operations -/

/-- The first unused slot is taken. -/
theorem getUnused_edited {r : ℤ × MppBufSlotsImpl} (hst : mppBufSlotGetUnused impl = some r) :
    ∃ i : ℕ, r.1 = i ∧ Edited impl r.2 .getUnused i ∧ r.2.link = impl.link ∧
      ∀ slot, impl.entries[i]? = some slot → slot.status.onUsed = false := by
  obtain ⟨block, hslots, hst⟩ := bind_eq_some_iff.1 hst
  obtain ⟨i, hi, hst⟩ := bind_eq_some_iff.1 hst
  obtain rfl := some.inj hst
  obtain ⟨hlt, hfree, -⟩ := findIdx?_eq_some_iff_getElem.1 hi
  rw [length_take] at hlt
  have hget : impl.entries[i]? = some impl.entries[i] := getElem?_eq_getElem (by omega)
  refine ⟨i, rfl, ⟨⟨rfl, rfl, rfl, (entries_modify _).trans (if_pos hslots), ?_⟩, by omega,
    by omega⟩, rfl, fun slot hslot => ?_⟩
  · rw [hget]
    rfl
  · obtain rfl := some.inj (hget.symm.trans hslot)
    simpa using hfree

theorem setFlag_edited {type : SlotUsageType} (hst : mppBufSlotSetFlag impl index type = some impl') :
    Edited impl impl' (.setFlag index type) index.toNat ∧ impl'.link = impl.link := by
  obtain ⟨⟨block, pos, slot⟩, hat, hst⟩ := bind_eq_some_iff.1 hst
  obtain rfl := some.inj hst
  exact ⟨edited_at hat _ rfl rfl, rfl⟩

theorem clrFlag_edited {type : SlotUsageType} {r : Bool × MppBufSlotsImpl}
    (hst : mppBufSlotClrFlag impl index type = some r) :
    Edited impl r.2 (.clrFlag index type) index.toNat ∧ r.2.link = impl.link := by
  obtain ⟨⟨block, pos, slot⟩, hat, hst⟩ := bind_eq_some_iff.1 hst
  obtain rfl := some.inj hst
  obtain ⟨hslots, hnonneg, hlt, rfl, hget⟩ := slotAt_spec hat
  have hlen := (List.getElem?_eq_some_iff.1 hget).1
  have hentry : (impl.modify block index.toNat fun slot =>
      slotOpsWithLog slot (clrFlagOp type) false).entryAt block index.toNat =
        some (slotOpsWithLog slot (clrFlagOp type) false) := by
    refine (entryAt_slots (show (impl.modify block _ _).slots = some block from hslots) _).trans ?_
    simp [entries_modify, hslots, hget]
  rw [checkEntryUnused, hentry]
  dsimp only
  split_ifs with hunheld
  · rw [modify_modify]
    refine ⟨⟨⟨rfl, rfl, rfl, ?_, ?_⟩, hlen, by omega⟩, rfl⟩
    · refine (entries_modify _).trans ((if_pos hslots).trans ?_)
      exact modify_congr hget (if_pos hunheld).symm
    · rw [hget, elim_some, SlotOp.counted, if_pos hunheld]
      rfl
  · refine ⟨⟨⟨rfl, rfl, rfl, ?_, ?_⟩, hlen, by omega⟩, rfl⟩
    · refine (entries_modify _).trans ((if_pos hslots).trans ?_)
      exact modify_congr hget (if_neg hunheld).symm
    · rw [hget, elim_some, SlotOp.counted, if_neg hunheld]
      exact (add_zero _).symm

theorem setProp_edited {val : SlotProp} (hst : mppBufSlotSetProp impl index val = some impl') :
    Edited impl impl' (.setProp index val) index.toNat ∧ impl'.link = impl.link := by
  obtain ⟨⟨block, pos, slot⟩, hat, hst⟩ := bind_eq_some_iff.1 hst
  cases val with
  | eos eos =>
    obtain rfl := some.inj hst
    rw [modify_modify]
    exact ⟨edited_at hat _ rfl rfl, rfl⟩
  | frame frame changed =>
    have hedit : Edited impl ((impl.modify block pos fun slot =>
        slotOpsWithLog slot .setFrame true).modify block pos
          fun slot => { slot with frame := some frame }) (.setProp index (.frame frame changed))
            index.toNat := by
      rw [modify_modify]
      exact edited_at hat _ rfl rfl
    dsimp only at hst
    split_ifs at hst
    · obtain rfl := some.inj hst
      exact ⟨⟨⟨hedit.slots, hedit.bufCount, hedit.newCount, hedit.entries, hedit.used⟩, hedit.lt,
        hedit.counts⟩, rfl⟩
    · obtain rfl := some.inj hst
      exact ⟨hedit, rfl⟩
  | buffer buffer =>
    dsimp only at hst
    split_ifs at hst
    obtain rfl := some.inj hst
    rw [modify_modify]
    exact ⟨edited_at hat _ rfl rfl, rfl⟩
  | framePtr =>
    obtain rfl := some.inj hst
    exact ⟨edited_at hat _ rfl rfl, rfl⟩

theorem defaultInfo_edited {frame : ℕ} {r : MppRet × MppBufSlotsImpl}
    (hst : mppBufSlotDefaultInfo impl index frame = some r) : r.2 = impl ∨
      Edited impl r.2 (.defaultInfo index frame) index.toNat ∧ r.2.link = impl.link := by
  rw [mppBufSlotDefaultInfo] at hst
  split_ifs at hst
  · obtain rfl := some.inj hst
    exact .inl rfl
  · obtain ⟨⟨block, pos, slot⟩, hat, hst⟩ := bind_eq_some_iff.1 hst
    dsimp only at hst
    split_ifs at hst
    obtain rfl := some.inj hst
    exact .inr ⟨edited_at hat _ rfl rfl, rfl⟩

theorem enqueue_edited (hst : mppBufSlotEnqueue impl index type = some impl') :
    Edited impl impl' (.enqueue index type) index.toNat ∧
      impl'.link = listAddTail (listDelInit impl.link (impl.node index.toNat))
        (impl.node index.toNat) (.queue type) := by
  obtain ⟨⟨block, pos, slot⟩, hat, hst⟩ := bind_eq_some_iff.1 hst
  obtain ⟨impl₁, hdel, hadd⟩ := bind_eq_some_iff.1 hst
  obtain ⟨hslots, -, -, rfl, -⟩ := slotAt_spec hat
  have hedit := edited_at hat (.enqueue index type) rfl rfl
  have hnode : impl.node index.toNat = .slot block index.toNat := by
    rw [MppBufSlotsImpl.node, hslots, getD_some]
  rw [MppBufSlotsImpl.delInit] at hdel
  split_ifs at hdel
  obtain rfl := some.inj hdel
  rw [MppBufSlotsImpl.addTail] at hadd
  split_ifs at hadd
  obtain rfl := some.inj hadd
  rw [hnode]
  exact ⟨⟨⟨rfl, rfl, rfl, hedit.entries, hedit.used⟩, hedit.lt, hedit.counts⟩, rfl⟩

/-- A dequeue edits the slot that it finds at the front of the queue. -/
theorem dequeue_edits {r : MppRet × Option ℤ × MppBufSlotsImpl}
    (hst : mppBufSlotDequeue impl type = some r) : ∃ i, Edits impl r.2.2 (.dequeue type) i := by
  rw [mppBufSlotDequeue] at hst
  split_ifs at hst
  · obtain rfl := some.inj hst
    exact ⟨_, .refl impl _⟩
  · split at hst
    · exact absurd hst (by simp)
    · rename_i block pos _
      obtain ⟨slot, -, hst⟩ := bind_eq_some_iff.1 hst
      split_ifs at hst
      · obtain rfl := some.inj hst
        exact ⟨_, .refl impl _⟩
      · obtain ⟨impl₁, hdel, hst⟩ := bind_eq_some_iff.1 hst
        split_ifs at hst
        obtain rfl := some.inj hst
        rw [MppBufSlotsImpl.delInit] at hdel
        split_ifs at hdel
        obtain rfl := some.inj hdel
        -- the link may be in a block before
        by_cases hslots : impl.slots = some block
        · exact ⟨pos, rfl, rfl, rfl, (entries_modify _).trans (if_pos hslots), used_add_zero _⟩
        · refine ⟨impl.entries.length, rfl, rfl, rfl, ?_, used_add_zero _⟩
          rw [modify_eq_self le_rfl]
          exact (entries_modify _).trans (if_neg hslots)

theorem reset_edited {r : MppRet × MppBufSlotsImpl} (hst : mppBufSlotReset impl index = some r) :
    index < 0 ∧ r.2 = impl ∨ 0 ≤ index ∧ Edited impl r.2 (.reset index) index.toNat := by
  rw [mppBufSlotReset] at hst
  split_ifs at hst with hneg
  · obtain rfl := some.inj hst
    exact .inl ⟨hneg, rfl⟩
  · obtain ⟨⟨block, pos, slot⟩, hat, hst⟩ := bind_eq_some_iff.1 hst
    obtain ⟨impl₁, hdel, hst⟩ := bind_eq_some_iff.1 hst
    obtain rfl := some.inj hst
    have hedit := edited_at hat (.reset index) rfl rfl
    rw [MppBufSlotsImpl.delInit] at hdel
    split_ifs at hdel
    obtain rfl := some.inj hdel
    exact .inr ⟨not_lt.1 hneg, ⟨rfl, rfl, rfl, hedit.entries, hedit.used⟩, hedit.lt, hedit.counts⟩

theorem edits_step (hst : slotStep impl op = some impl')
    (hsetup : ∀ count mem, op ≠ .setup count mem) (hready : ∀ mem, op ≠ .ready mem) :
    ∃ i, Edits impl impl' op i := by
  cases op with
  | setup count mem => exact absurd rfl (hsetup count mem)
  | ready mem => exact absurd rfl (hready mem)
  | getUnused =>
    obtain ⟨r, hr, rfl⟩ := map_eq_some_iff.1 hst
    obtain ⟨i, -, he, -⟩ := getUnused_edited hr
    exact ⟨i, he.toEdits⟩
  | setFlag index type => exact ⟨_, (setFlag_edited hst).1.toEdits⟩
  | clrFlag index type =>
    obtain ⟨r, hr, rfl⟩ := map_eq_some_iff.1 hst
    exact ⟨_, (clrFlag_edited hr).1.toEdits⟩
  | enqueue index type => exact ⟨_, (enqueue_edited hst).1.toEdits⟩
  | dequeue type =>
    obtain ⟨r, hr, rfl⟩ := map_eq_some_iff.1 hst
    exact dequeue_edits hr
  | setProp index val => exact ⟨_, (setProp_edited hst).1.toEdits⟩
  | getProp index type =>
    obtain ⟨r, -, rfl⟩ := map_eq_some_iff.1 hst
    exact ⟨_, .refl impl _⟩
  | defaultInfo index frame =>
    obtain ⟨r, hr, rfl⟩ := map_eq_some_iff.1 hst
    rcases defaultInfo_edited hr with hsame | ⟨he, -⟩
    · rw [hsame]
      exact ⟨_, .refl impl _⟩
    · exact ⟨_, he.toEdits⟩
  | reset index =>
    obtain ⟨r, hr, rfl⟩ := map_eq_some_iff.1 hst
    rcases reset_edited hr with ⟨-, hsame⟩ | ⟨-, he⟩
    · rw [hsame]
      exact ⟨_, .refl impl _⟩
    · exact ⟨_, he.toEdits⟩

end Libmpp.Base
