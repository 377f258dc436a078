import Libmpp.Base.SlotCount

/-!
# Growing the slots

A setup with more slots than there are should add slots and leave the others alone
(`GrowthKept`). `init_slot_entry` takes the position of the first new slot, for the index,
but goes through the array from its start: so the old slots are initialised, with the
indices of new ones, and it does what it should only if there are no old slots
(`setup_growthKept_iff`).
-/

namespace Libmpp.Base

open MppBufSlotsImpl Option

variable {impl impl' : MppBufSlotsImpl} {block : ℕ} {count : ℤ} {mem : Realloc}

/-! ## The array of the slots -/

/-- Without room for them there are no slots. -/
theorem slots_setup_neg (hslots : impl.slots = none) (hcount : count < 0) :
    (mppBufSlotSetup impl count mem).slots = none := by
  rw [mppBufSlotSetup, hslots]
  simp [initSlotEntry, calloc, not_le.2 hcount]

theorem slots_ready_neg (hst : mppBufSlotReady impl mem = some impl')
    (hne : impl.bufCount ≠ impl.newCount) (hcount : impl.newCount < 0) : impl'.slots = none := by
  rw [mppBufSlotReady] at hst
  split_ifs at hst with hslots
  obtain ⟨block, hslots⟩ := ne_none_iff_exists'.1 hslots
  rw [← some.inj hst]
  simp [initSlotEntry, realloc, hslots, not_lt.2 hcount.le]

/-- Where there is an array of slots, those that count are in it. -/
theorem sized_of_reachable (hr : slotMachine.Reachable impl) (hslots : impl.slots ≠ none) :
    Sized impl := by
  refine hr.invariant (P := fun impl => impl.slots ≠ none → Sized impl) ?_ ?_ hslots
  · rintro s rfl hs
    exact absurd rfl hs
  · intro s op s' _ ih hst hs'
    cases op with
    | setup count mem =>
      obtain rfl := some.inj hst
      cases hslots : s.slots with
      | none => exact sized_setup_first hslots (not_lt.1 fun hneg => hs' (slots_setup_neg hslots hneg))
      | some block =>
        have hs := ih (by simp [hslots])
        by_cases hcount : s.bufCount < count
        · exact sized_setup_more hs hslots hcount
        · have hsetup : mppBufSlotSetup s count mem = { s with newCount := count } := by
            simp only [mppBufSlotSetup, hslots, gt_iff_lt, if_neg hcount]
          rw [hsetup]
          exact ⟨hs.nonneg, hs.le⟩
    | ready mem =>
      by_cases hcount : s.bufCount = s.newCount
      · have hslots : s.slots ≠ none := fun hnone => by
          have hst : mppBufSlotReady s mem = some s' := hst
          rw [mppBufSlotReady, if_pos hnone] at hst
          exact absurd hst (by simp)
        exact (mppBufSlotReady_same hst hcount).sized (ih hslots)
      · exact (mppBufSlotReady_spec hst hcount).sized.2
          (not_lt.1 fun hneg => hs' (slots_ready_neg hst hcount hneg))
    | _ =>
      obtain ⟨i, he⟩ := edits_step hst (by simp) (by simp)
      exact he.sized (ih (he.slots ▸ hs'))

/-! ## Growth -/

/-- The slot at position `i` is in a queue: from its head, the links lead to it. -/
def InQueue (impl : MppBufSlotsImpl) (type : SlotQueueType) (i : ℕ) : Prop :=
  ∃ block, impl.slots = some block ∧
    ∃ k, (fun node => (impl.link node).next)^[k + 1] (.queue type) = .slot block i

/-- The slots there were are as before, and the new ones are in order. -/
structure GrowthKept (impl impl' : MppBufSlotsImpl) (count : ℤ) : Prop where
  kept : ∀ i : ℕ, (i : ℤ) < impl.bufCount → ∃ slot slot', impl.entries[i]? = some slot ∧
    impl'.entries[i]? = some slot' ∧ slot'.index = i ∧ slot'.status = slot.status ∧
      slot'.frame = slot.frame ∧ slot'.buffer = slot.buffer ∧
        ∀ type, InQueue impl' type i ↔ InQueue impl type i
  fresh : ∀ i : ℕ, impl.bufCount ≤ i → (i : ℤ) < count → ∃ slot' block,
    impl'.entries[i]? = some slot' ∧ slot'.index = i ∧ slot'.status = 0 ∧
      impl'.slots = some block ∧ impl'.link (.slot block i) = ⟨.slot block i, .slot block i⟩

/-- The slots that are initialised. -/
theorem getElem?_setup_more (mem : Realloc) (hslots : impl.slots = some block) (hcount : impl.bufCount < count)
    (hnonneg : 0 ≤ impl.bufCount) {i : ℕ} (hi : (i : ℤ) < count - impl.bufCount) :
    ∃ slot, (mppBufSlotSetup impl count mem).entries[i]? =
      some (initEntry impl.bufCount i slot) := by
  have hlt : i < (impl.realloc count mem).entries.length := by
    rw [entries_realloc hslots (by omega)]
    simp
    omega
  refine ⟨(impl.realloc count mem).entries[i], ?_⟩
  rw [entries_setup_more hslots hcount, List.getElem?_mapIdx, List.getElem?_eq_getElem hlt]
  simp [hi]

/-- In every reachable state with slots set up: a larger setup leaves the slots there were
    alone, and the new ones in order, if and only if there were none. -/
theorem setup_growthKept_iff (hr : slotMachine.Reachable impl) (hslots : impl.slots ≠ none)
    (hcount : impl.bufCount < count) :
    GrowthKept impl (mppBufSlotSetup impl count mem) count ↔ impl.bufCount = 0 := by
  obtain ⟨hnonneg, hle⟩ := sized_of_reachable hr hslots
  obtain ⟨block, hslots⟩ := ne_none_iff_exists'.1 hslots
  constructor
  · intro h
    by_contra hne
    -- slot 0 is there, and has the index of the first new slot
    obtain ⟨slot, slot', -, hget', hindex, -⟩ := h.kept 0 (by omega)
    obtain ⟨slot₀, hget⟩ := getElem?_setup_more mem (i := 0) hslots hcount hnonneg (by omega)
    obtain rfl := some.inj (hget'.symm.trans hget)
    have hidx : impl.bufCount + ((0 : ℕ) : ℤ) = (0 : ℕ) := hindex
    omega
  · intro hzero
    refine ⟨fun i hi => absurd hi (by omega), fun i _ hi => ?_⟩
    obtain ⟨slot, hget⟩ := getElem?_setup_more mem (i := i) hslots hcount hnonneg (by omega)
    have hpos : 0 < count := by omega
    refine ⟨_, if mem.moved then impl.blocks else block, hget, ?_, rfl, ?_, ?_⟩
    · simp [initEntry, slotOpsWithLog, hzero]
    · rw [mppBufSlotSetup_more hslots hcount]
      simp [initSlotEntry, realloc, hslots, hpos]
    · rw [mppBufSlotSetup_more hslots hcount]
      simp [initSlotEntry, realloc, hslots, hpos, hzero, hi]

/-- A setup of no slots, then of one. -/
theorem setup_growthKept_iff_zero : ∃ impl, slotMachine.Reachable impl ∧ impl.bufCount = 0 ∧
    (GrowthKept impl (mppBufSlotSetup impl 1 reallocInPlace) 1 ↔ impl.bufCount = 0) := by
  have hrun : ((Machine.run slotStep (fun _ _ _ => True) mppBufSlotInit
      [.setup 0 reallocInPlace]).any
        fun impl => decide (impl.bufCount = 0 ∧ impl.slots ≠ none)) = true := by
    decide
  obtain ⟨impl, hr, hv⟩ := (any_eq_true _ _).1 hrun
  obtain ⟨hzero, hslots⟩ := of_decide_eq_true hv
  have hreach := (Machine.Reachable.run (.init rfl) hr).of_guarded
  exact ⟨impl, hreach, hzero, setup_growthKept_iff hreach hslots (by omega)⟩

/-- One slot, in use, and a setup of two: slot 0 gets index 1, and is no longer in use. -/
theorem setup_growth_overwrites : ∃ impl slot slot', slotMachine.Reachable impl ∧
    impl.slots ≠ none ∧ impl.bufCount = 1 ∧ impl.entries[0]? = some slot ∧ slot.index = 0 ∧
      slot.status.onUsed ∧
        (mppBufSlotSetup impl 2 reallocInPlace).entries[0]? = some slot' ∧ slot'.index = 1 ∧
          slot'.status = 0 ∧ ¬ GrowthKept impl (mppBufSlotSetup impl 2 reallocInPlace) 2 := by
  have hrun : ((Machine.run slotStep (fun _ _ _ => True) mppBufSlotInit
      [.setup 1 reallocInPlace, .getUnused]).any fun impl =>
        decide (impl.slots ≠ none ∧ impl.bufCount = 1) &&
          (impl.entries[0]?.any fun slot => decide (slot.index = 0 ∧ slot.status.onUsed) &&
            (mppBufSlotSetup impl 2 reallocInPlace).entries[0]?.any fun slot' =>
              decide (slot'.index = 1 ∧ slot'.status = 0))) = true := by
    decide
  obtain ⟨impl, hr, hv⟩ := (any_eq_true _ _).1 hrun
  rw [Bool.and_eq_true, decide_eq_true_eq] at hv
  obtain ⟨⟨hslots, hbuf⟩, hv⟩ := hv
  obtain ⟨slot, hget, hv⟩ := (any_eq_true _ _).1 hv
  rw [Bool.and_eq_true, decide_eq_true_eq] at hv
  obtain ⟨⟨hindex, hused⟩, hv⟩ := hv
  obtain ⟨slot', hget', hv⟩ := (any_eq_true _ _).1 hv
  obtain ⟨hindex', hstatus⟩ := of_decide_eq_true hv
  refine ⟨impl, slot, slot', (Machine.Reachable.run (.init rfl) hr).of_guarded, hslots, hbuf, hget,
    hindex, hused, hget', hindex', hstatus, fun h => ?_⟩
  obtain ⟨_, slot₁, -, hget₁, hindex₁, -⟩ := h.kept 0 (by omega)
  obtain rfl := some.inj (hget₁.symm.trans hget')
  omega

end Libmpp.Base
