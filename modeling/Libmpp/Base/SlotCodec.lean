import Libmpp.Base.SlotCount

/-!
# Slots held for the codec

The flag of a slot that its codec uses the picture is set and cleared by the parser only.
The other operations keep it, and a slot with the flag stays in use (`sameCodec_step`), so
that it is not handed out again: the slots with the flag are the ones the parser took and
did not give back (`CodecHolds`).
-/

namespace Libmpp.Base

open MppBufSlotsImpl List Option

variable {impl impl' : MppBufSlotsImpl} {i : ℕ} {index : ℤ} {op : SlotOp}

/-- The flag of the codec stays, and a slot that has it stays in use. -/
structure KeepsCodec (slot slot' : MppBufSlotEntry) : Prop where
  codecUse : slot'.status.codecUse = slot.status.codecUse
  onUsed : slot.status.codecUse = true → slot.status.onUsed = true → slot'.status.onUsed = true

theorem KeepsCodec.refl (slot : MppBufSlotEntry) : KeepsCodec slot slot := ⟨rfl, fun _ => id⟩

theorem KeepsCodec.trans {slot slot₁ slot' : MppBufSlotEntry} (h : KeepsCodec slot slot₁)
    (h' : KeepsCodec slot₁ slot') : KeepsCodec slot slot' where
  codecUse := h'.codecUse.trans h.codecUse
  onUsed hc hu := h'.onUsed (h.codecUse.trans hc) (h.onUsed hc hu)

/-- Only three operations touch the flag. -/
theorem SlotStatus.codecUse_ops {status : SlotStatus} {op : MppBufSlotOps} {arg : Bool}
    (hinit : op ≠ .init) (hset : op ≠ .setCodecUse) (hclr : op ≠ .clrCodecUse) :
    (status.ops op arg).codecUse = status.codecUse := by
  cases op <;> simp_all [SlotStatus.ops] <;> split_ifs <;> rfl

/-- An operation that touches neither flag. -/
def LeavesCodec : MppBufSlotOps → Bool
  | .init | .setCodecUse | .clrCodecUse | .clrOnUse => false
  | _ => true

theorem keepsCodec_ops (op : MppBufSlotOps) (hop : LeavesCodec op) (slot : MppBufSlotEntry)
    (arg : Bool) : KeepsCodec slot (slotOpsWithLog slot op arg) where
  codecUse := SlotStatus.codecUse_ops (by rintro rfl; simp [LeavesCodec] at hop)
    (by rintro rfl; simp [LeavesCodec] at hop) (by rintro rfl; simp [LeavesCodec] at hop)
  onUsed _ hu := by
    by_cases hset : op = .setOnUse
    · rw [hset]
      rfl
    · have hops : (slot.status.ops op arg).onUsed = slot.status.onUsed :=
        SlotStatus.onUsed_ops (by rintro rfl; simp [LeavesCodec] at hop) hset
          (by rintro rfl; simp [LeavesCodec] at hop)
      exact hops.trans hu

/-- The flag stays when an entry is recycled, for which it must not be set. -/
theorem codecUse_recycle (slot : MppBufSlotEntry) :
    (recycle slot).status.codecUse = slot.status.codecUse := by
  rw [recycle]
  split_ifs <;> rfl

theorem keepsCodec_recycle {slot : MppBufSlotEntry} (hs : slot.status.isUnheld) :
    KeepsCodec slot (recycle slot) where
  codecUse := codecUse_recycle slot
  onUsed hc := by simp [SlotStatus.isUnheld, hc] at hs

/-! ## The operations of the others -/

/-- The slots are the same ones, as far as the codec is concerned. -/
structure SameCodec (impl impl' : MppBufSlotsImpl) : Prop where
  slots : impl'.slots = impl.slots
  bufCount : impl'.bufCount = impl.bufCount
  newCount : impl'.newCount = impl.newCount
  length : impl'.entries.length = impl.entries.length
  entry : ∀ (i : ℕ) (slot slot' : MppBufSlotEntry), impl.entries[i]? = some slot →
    impl'.entries[i]? = some slot' → KeepsCodec slot slot'

theorem SameCodec.refl (impl : MppBufSlotsImpl) : SameCodec impl impl :=
  ⟨rfl, rfl, rfl, rfl, fun i slot slot' h h' => by
    rw [some.inj (h.symm.trans h')]
    exact .refl _⟩

theorem Edits.sameCodec (h : Edits impl impl' op i)
    (hkeep : ∀ slot, KeepsCodec slot (op.edit slot)) : SameCodec impl impl' := by
  refine ⟨h.slots, h.bufCount, h.newCount, h.length, fun j slot slot' hget hget' => ?_⟩
  by_cases hj : j = i
  · subst hj
    rw [some.inj (hget'.symm.trans (h.getElem?_self hget))]
    exact hkeep slot
  · rw [some.inj (hget'.symm.trans ((h.getElem?_of_ne hj).trans hget))]
    exact .refl _

/-- The operations of the others that hold slots: to set the slots up, to take an unused one
    and to hold one for the codec is the parser's, a slot is reset only when the codec holds
    none, and the pointer of a frame is never set. -/
def ByOthers : SlotOp → Bool
  | .setup .. | .getUnused | .reset _ => false
  | .setFlag _ type | .clrFlag _ type => type ≠ .codecUse
  | .setProp _ val => val ≠ .framePtr
  | _ => true

theorem keepsCodec_edit (hop : ByOthers op) (slot : MppBufSlotEntry) :
    KeepsCodec slot (op.edit slot) := by
  cases op with
  | setup count mem => exact absurd hop (by simp [ByOthers])
  | getUnused => exact absurd hop (by simp [ByOthers])
  | reset index => exact absurd hop (by simp [ByOthers])
  | setFlag index type =>
    refine keepsCodec_ops _ ?_ slot false
    cases type <;> first | rfl | simp [ByOthers] at hop
  | clrFlag index type =>
    have hops : KeepsCodec slot (slotOpsWithLog slot (clrFlagOp type) false) := by
      refine keepsCodec_ops _ ?_ slot false
      cases type <;> first | rfl | simp [ByOthers] at hop
    rw [SlotOp.edit, clrEdit]
    split_ifs with hunheld
    · exact hops.trans (keepsCodec_recycle hunheld)
    · exact hops
  | enqueue index type => exact keepsCodec_ops (.enqueue type) rfl slot false
  | dequeue type => exact keepsCodec_ops (.dequeue type) rfl slot false
  | setProp index val =>
    cases val with
    | framePtr => simp [ByOthers] at hop
    | _ => exact ⟨rfl, fun _ => id⟩
  | _ => exact ⟨rfl, fun _ => id⟩

theorem sameCodec_step (hop : ByOthers op) (hcount : impl.bufCount = impl.newCount)
    (hst : slotStep impl op = some impl') : SameCodec impl impl' := by
  by_cases hready : ∃ mem, op = .ready mem
  · obtain ⟨mem, rfl⟩ := hready
    rw [slotStep, mppBufSlotReady] at hst
    split_ifs at hst with hslots hne
    · exact absurd hcount hne
    · obtain rfl := some.inj hst
      exact ⟨rfl, hcount.symm, rfl, rfl, (SameCodec.refl impl).entry⟩
  · rw [not_exists] at hready
    obtain ⟨i, he⟩ := edits_step hst (by rintro count mem rfl; simp [ByOthers] at hop) hready
    exact he.sameCodec (keepsCodec_edit hop)

/-! ## The operations of the parser -/

/-- The codec holds the slots in `held`: these have the flag, and are in use. -/
structure CodecHolds (impl : MppBufSlotsImpl) (held : Set ℕ) : Prop where
  slots : impl.slots ≠ none
  bufCount : impl.bufCount = impl.entries.length
  newCount : impl.newCount = impl.bufCount
  lt : ∀ i ∈ held, i < impl.entries.length
  codecUse : ∀ (i : ℕ) (slot : MppBufSlotEntry), impl.entries[i]? = some slot →
    (slot.status.codecUse = true ↔ i ∈ held)
  onUsed : ∀ (i : ℕ) (slot : MppBufSlotEntry), impl.entries[i]? = some slot → i ∈ held →
    slot.status.onUsed = true

namespace CodecHolds

variable {held : Set ℕ}

theorem of_same (h : CodecHolds impl held) (hs : SameCodec impl impl') :
    CodecHolds impl' held := by
  -- the entry there was
  have hold : ∀ (i : ℕ) (slot' : MppBufSlotEntry), impl'.entries[i]? = some slot' →
      ∃ slot, impl.entries[i]? = some slot ∧ KeepsCodec slot slot' := by
    intro i slot' hget'
    have hlt := hs.length ▸ (List.getElem?_eq_some_iff.1 hget').1
    exact ⟨_, getElem?_eq_getElem hlt,
      hs.entry i _ _ (getElem?_eq_getElem hlt) hget'⟩
  refine ⟨hs.slots ▸ h.slots, ?_, ?_, ?_, ?_, ?_⟩
  · rw [hs.bufCount, hs.length, h.bufCount]
  · rw [hs.newCount, hs.bufCount, h.newCount]
  · rw [hs.length]
    exact h.lt
  · intro i slot' hget'
    obtain ⟨slot, hget, hkeep⟩ := hold i slot' hget'
    rw [hkeep.codecUse, h.codecUse i slot hget]
  · intro i slot' hget' hi
    obtain ⟨slot, hget, hkeep⟩ := hold i slot' hget'
    exact hkeep.onUsed ((h.codecUse i slot hget).2 hi) (h.onUsed i slot hget hi)

/-- The functions with an index find the slots there are. -/
theorem slotAt (h : CodecHolds impl held) (hi : i < impl.entries.length) :
    ∃ block slot, impl.slotAt i = some (block, i, slot) := by
  obtain ⟨block, hslots⟩ := ne_none_iff_exists'.1 h.slots
  have hrange : (0 : ℤ) ≤ i ∧ (i : ℤ) < impl.bufCount := by
    rw [h.bufCount]
    omega
  refine ⟨block, impl.entries[i], ?_⟩
  rw [MppBufSlotsImpl.slotAt, if_pos hrange, hslots, Int.toNat_natCast,
    bind_eq_bind, bind_some, entryAt_slots hslots, getElem?_eq_getElem hi]
  rfl

/-- An entry is edited, by which the codec comes to hold it or not. -/
theorem edited (h : CodecHolds impl held) {held' : Set ℕ} (he : Edited impl impl' op i)
    (hother : ∀ j ≠ i, (j ∈ held' ↔ j ∈ held))
    (hself : ∀ slot, impl.entries[i]? = some slot →
      ((op.edit slot).status.codecUse = true ↔ i ∈ held') ∧
        (i ∈ held' → (op.edit slot).status.onUsed = true)) : CodecHolds impl' held' := by
  obtain ⟨slot₀, hget⟩ : ∃ slot, impl.entries[i]? = some slot := ⟨_, getElem?_eq_getElem he.lt⟩
  refine ⟨he.slots ▸ h.slots, ?_, ?_, ?_, ?_, ?_⟩
  · rw [he.bufCount, he.length, h.bufCount]
  · rw [he.newCount, he.bufCount, h.newCount]
  · intro j hj
    rw [he.length]
    by_cases hji : j = i
    · exact hji ▸ he.lt
    · exact h.lt j ((hother j hji).1 hj)
  · intro j slot hslot
    by_cases hji : j = i
    · subst hji
      obtain rfl := some.inj ((he.getElem?_self hget).symm.trans hslot)
      exact (hself _ hget).1
    · rw [he.getElem?_of_ne hji] at hslot
      rw [h.codecUse j slot hslot, hother j hji]
  · intro j slot hslot hj
    by_cases hji : j = i
    · subst hji
      obtain rfl := some.inj ((he.getElem?_self hget).symm.trans hslot)
      exact (hself _ hget).2 hj
    · rw [he.getElem?_of_ne hji] at hslot
      exact h.onUsed j slot hslot ((hother j hji).1 hj)

/-- An unused slot is one the codec does not hold. -/
theorem getUnused (h : CodecHolds impl held) {r : ℤ × MppBufSlotsImpl}
    (hst : mppBufSlotGetUnused impl = some r) :
    ∃ i : ℕ, r.1 = i ∧ i ∉ held ∧ i < impl.entries.length ∧ CodecHolds r.2 held ∧
      r.2.entries.length = impl.entries.length ∧
        ∀ slot, r.2.entries[i]? = some slot → slot.status.onUsed = true := by
  obtain ⟨i, hi, he, -, hfree⟩ := getUnused_edited hst
  obtain ⟨slot, hget⟩ : ∃ slot, impl.entries[i]? = some slot := ⟨_, getElem?_eq_getElem he.lt⟩
  refine ⟨i, hi, fun hmem => ?_, he.lt, h.edited he (fun _ _ => Iff.rfl) fun slot hslot =>
    ⟨h.codecUse i slot hslot, fun _ => rfl⟩, he.length, fun slot hslot => ?_⟩
  · exact absurd ((h.onUsed i slot hget hmem).symm.trans (hfree slot hget)) (by simp)
  · rw [some.inj (hslot.symm.trans (he.getElem?_self hget))]
    rfl

/-- The flag is set for a slot in use. -/
theorem set (h : CodecHolds impl held)
    (hused : ∀ slot, impl.entries[i]? = some slot → slot.status.onUsed = true)
    (hst : mppBufSlotSetFlag impl i .codecUse = some impl') :
    CodecHolds impl' (insert i held) ∧ impl'.entries.length = impl.entries.length := by
  obtain ⟨he, -⟩ := setFlag_edited hst
  rw [Int.toNat_natCast] at he
  exact ⟨h.edited he (fun j hj => Set.mem_insert_iff.trans (or_iff_right hj)) fun slot hslot =>
    ⟨iff_of_true rfl (Set.mem_insert i held), fun _ => hused slot hslot⟩, he.length⟩

/-- The flag is cleared. -/
theorem clr (h : CodecHolds impl held) {r : Bool × MppBufSlotsImpl}
    (hst : mppBufSlotClrFlag impl i .codecUse = some r) :
    CodecHolds r.2 (held \ {i}) ∧ r.2.entries.length = impl.entries.length := by
  obtain ⟨he, -⟩ := clrFlag_edited hst
  rw [Int.toNat_natCast] at he
  have hclear : ∀ slot, (clrEdit .codecUse slot).status.codecUse = false := by
    intro slot
    rw [clrEdit]
    split_ifs
    · exact codecUse_recycle _
    · rfl
  refine ⟨h.edited he (fun j hj => by simp [hj]) fun slot _ => ⟨?_, ?_⟩, he.length⟩
  · simp [SlotOp.edit, hclear slot]
  · simp

/-- A slot may be reset when the codec holds none. -/
theorem reset (h : CodecHolds impl ∅) {r : MppRet × MppBufSlotsImpl}
    (hst : mppBufSlotReset impl index = some r) :
    CodecHolds r.2 ∅ ∧ r.2.entries.length = impl.entries.length := by
  rcases reset_edited hst with ⟨-, hsame⟩ | ⟨-, he⟩
  · rw [hsame]
    exact ⟨h, rfl⟩
  · refine ⟨h.edited he (fun _ _ => Iff.rfl) fun slot hslot => ⟨?_, by simp⟩, he.length⟩
    have hcodec := h.codecUse index.toNat slot hslot
    have hops := ((keepsCodec_ops .clrQueueUse rfl slot false).trans
      (keepsCodec_ops (.dequeue .output) rfl _ false)).codecUse
    exact (iff_of_eq (congrArg (· = true) hops)).trans hcodec

/-- The codec holds none of the slots just set up. -/
theorem setup {count : ℤ} {mem : Realloc} (hcount : 0 ≤ count) :
    CodecHolds (mppBufSlotSetup mppBufSlotInit count mem) ∅ := by
  have hslots : mppBufSlotInit.slots = none := rfl
  have hentries := @entries_setup_first mppBufSlotInit count mem hslots hcount
  have hbuf := @bufCount_setup_first mppBufSlotInit count mem hslots
  refine ⟨?_, ?_, ?_, by simp, fun i slot hslot => ?_, by simp⟩
  · rw [mppBufSlotSetup, hslots]
    simp [calloc, hcount, initSlotEntry]
  · rw [hbuf, hentries]
    simp [hcount]
  · rw [hbuf, mppBufSlotSetup, hslots]
    simp [calloc, hcount]
  · rw [hentries, getElem?_mapIdx] at hslot
    obtain ⟨slot₀, hslot₀, rfl⟩ := map_eq_some_iff.1 hslot
    obtain rfl := eq_of_mem_replicate (mem_of_getElem? hslot₀)
    refine iff_of_false ?_ (Set.notMem_empty i)
    split_ifs
    · exact Bool.false_ne_true
    · exact id

end CodecHolds

end Libmpp.Base
