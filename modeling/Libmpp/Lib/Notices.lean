import Mathlib

/-!
# Notices of what is waited for

A thread waits for some conditions, found false when it last tested them. Others send
notices of the conditions; the thread has a set of notices, which it may throw away. Of a
condition that it waits for, the notices since it was found false are then there, or the
condition is owed a test (`Notices.kept`).

* A test removes what is owed: found true the condition is not waited for any more, found
  false it has no notice since.
* A thread that owes no test and has no notice of what it waits for has missed none
  (`Notices.disjoint`); one that owes a test has (`Notices.not_disjoint`).
-/

namespace Libmpp

variable {K : Type*}

/-- The conditions waited for, those with a notice since they were found false, the notices
    there, and the conditions that are owed a test. -/
structure Notices (wait since notice owed : Set K) : Prop where
  kept : wait ∩ since ⊆ notice ∪ owed
  owed_wait : owed ⊆ wait
  owed_since : owed ⊆ since

namespace Notices

variable {wait since notice owed : Set K}

theorem none : Notices (∅ : Set K) since notice ∅ :=
  ⟨by simp, Set.empty_subset _, Set.empty_subset _⟩

theorem send (h : Notices wait since notice owed) (sent : Set K) :
    Notices wait (since ∪ sent) (notice ∪ sent) owed where
  kept := by
    rintro c ⟨hw, hs | hs⟩
    · exact (h.kept ⟨hw, hs⟩).imp_left .inl
    · exact .inl (.inr hs)
  owed_wait := h.owed_wait
  owed_since := h.owed_since.trans Set.subset_union_left

/-- Of the notices only some are kept: what is waited for and had one of the others is owed
    a test. -/
theorem discard (h : Notices wait since notice owed) (keep : Set K) :
    Notices wait since keep (owed ∪ (notice \ keep) ∩ wait ∩ since) where
  kept := by
    rintro c hc
    rcases h.kept hc with hn | ho
    · by_cases hk : c ∈ keep
      · exact .inl hk
      · exact .inr (.inr ⟨⟨⟨hn, hk⟩, hc.1⟩, hc.2⟩)
    · exact .inr (.inl ho)
  owed_wait := Set.union_subset h.owed_wait fun _ hc => hc.1.2
  owed_since := Set.union_subset h.owed_since fun _ hc => hc.2

theorem found (h : Notices wait since notice owed) (c : Set K) :
    Notices (wait \ c) since notice (owed \ c) where
  kept := by
    rintro x ⟨⟨hw, hx⟩, hs⟩
    exact (h.kept ⟨hw, hs⟩).imp_right fun ho => ⟨ho, hx⟩
  owed_wait := Set.sdiff_subset_sdiff_left h.owed_wait
  owed_since := Set.sdiff_subset.trans h.owed_since

theorem notFound (h : Notices wait since notice owed) (c : Set K) :
    Notices (wait ∪ c) (since \ c) notice (owed \ c) where
  kept := by
    rintro x ⟨hw | hw, hs, hx⟩
    · exact (h.kept ⟨hw, hs⟩).imp_right fun ho => ⟨ho, hx⟩
    · exact absurd hw hx
  owed_wait := (Set.sdiff_subset.trans h.owed_wait).trans Set.subset_union_left
  owed_since := Set.sdiff_subset_sdiff_left h.owed_since

theorem disjoint (h : Notices wait since notice ∅) (hn : Disjoint wait notice) :
    Disjoint wait since := by
  rw [Set.disjoint_left] at hn ⊢
  intro c hw hs
  rcases h.kept ⟨hw, hs⟩ with hc | hc
  · exact hn hw hc
  · exact hc

theorem not_disjoint (h : Notices wait since notice owed) (ho : owed.Nonempty) :
    ¬Disjoint wait since := by
  obtain ⟨c, hc⟩ := ho
  exact Set.not_disjoint_iff.2 ⟨c, h.owed_wait hc, h.owed_since hc⟩

end Notices

/-! ## Words of flags -/

/-- The positions of the bits of a word. -/
def bits {n : ℕ} (w : BitVec n) : Set ℕ := {i | w.getLsbD i}

section bits

variable {n : ℕ} {v w : BitVec n} {i : ℕ}

theorem mem_bits : i ∈ bits w ↔ w.getLsbD i := Iff.rfl

@[simp] theorem bits_zero : bits (0 : BitVec n) = ∅ := by
  ext i
  simp [mem_bits]

@[simp] theorem bits_or (v w : BitVec n) : bits (v ||| w) = bits v ∪ bits w := by
  ext i
  simp [mem_bits]

@[simp] theorem bits_and (v w : BitVec n) : bits (v &&& w) = bits v ∩ bits w := by
  ext i
  simp [mem_bits]

@[simp] theorem bits_and_not (v w : BitVec n) : bits (v &&& ~~~w) = bits v \ bits w := by
  ext i
  have hlt : v.getLsbD i → i < n := BitVec.lt_of_getLsbD
  simp only [mem_bits, BitVec.getLsbD_and, BitVec.getLsbD_not, Set.mem_sdiff, Bool.and_eq_true,
    decide_eq_true_eq, Bool.not_eq_true']
  constructor
  · rintro ⟨hv, -, hw⟩
    exact ⟨hv, by simp [hw]⟩
  · rintro ⟨hv, hw⟩
    exact ⟨hv, hlt hv, by simpa using hw⟩

theorem bits_eq_empty : bits w = ∅ ↔ w = 0 := by
  refine ⟨fun h => BitVec.eq_of_getLsbD_eq fun i _ => ?_, fun h => by rw [h, bits_zero]⟩
  have hi : i ∉ bits w := by simp [h]
  simpa [mem_bits] using hi

/-- Two words that have no bit in common. -/
theorem and_eq_zero : v &&& w = 0 ↔ Disjoint (bits v) (bits w) := by
  rw [← bits_eq_empty, bits_and, Set.disjoint_iff_inter_eq_empty]

end bits

end Libmpp
