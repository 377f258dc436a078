import Libmpp.EncRef.Snapshot

/-!
# The window of the frames shown

The frames shown for a buffer are a window of its store: the long-term frames, and
as many of the most recent short-term frames as the size `d` leaves room for
(`RefStore.window`). A frame of the store belongs to one of the two classes and is
numbered (`InStore`). A reference frame joins the frames shown, in the place of the
long-term frame with its index; when they are then too many, the oldest short-term
frame leaves (`window_storeFrm`).
-/

namespace Libmpp.EncRef

open List

/-- The frames of a store are of their class, each long-term frame under an index of
    its own, and the short-term frames are in order, before frame `n`. -/
structure InStore (s : RefStore EncFrmStatus) (n : ℕ) : Prop extends InOrder s n where
  isSt : ∀ frm ∈ s.st, frm.isSt
  isLt : ∀ frm ∈ s.lt, frm.isLt
  nodup_lt : (s.lt.map EncFrmStatus.ltIdx).Nodup

theorem HoldsStore.inStore {cpb : EncVirtualCpb} {s : RefStore EncFrmStatus} {n : ℕ}
    (h : HoldsStore cpb s) (ho : InOrder s n) : InStore s n :=
  ⟨ho, h.isSt, h.isLt, h.nodup_lt⟩

/-- The long-term frame `f` gives way to the frame `curr`. -/
def GivesWay (curr f : EncFrmStatus) : Prop :=
  curr.isLtRef ∧ f.isLtRef ∧ f.ltIdx = curr.ltIdx

instance (curr f : EncFrmStatus) : Decidable (GivesWay curr f) :=
  inferInstanceAs (Decidable (_ ∧ _ ∧ _))

/-- The frames shown with the frame `curr`, before the window moves. -/
def joined (curr : EncFrmStatus) (w : List EncFrmStatus) : Set EncFrmStatus :=
  {f | f = curr ∨ (f ∈ w ∧ ¬GivesWay curr f)}

/-- The number of frames of `w` that give way to `curr`. -/
def wayCnt (curr : EncFrmStatus) (w : List EncFrmStatus) : ℕ :=
  (w.filter fun f => GivesWay curr f).length

/-- How a window of size `d` moves from the frames `x`, `u` of them, to `w`: there is
    room for all of them, or they are one too many, and the oldest short-term frame
    leaves. -/
inductive Slides (d : ℕ) (x : Set EncFrmStatus) (u : ℕ) (w : List EncFrmStatus) : Prop
  | room : u ≤ d → {f | f ∈ w} = x → w.length = u → Slides d x u w
  | evict (l : List EncFrmStatus) (e : EncFrmStatus) : u = d + 1 →
      (∀ f, f ∈ l ++ [e] ↔ f ∈ x ∧ f.isLtRef = false) → (∀ f ∈ l, e.seqIdx < f.seqIdx) →
      {f | f ∈ w} = x \ {e} → w.length = d → Slides d x u w

namespace InStore

variable {s : RefStore EncFrmStatus} {n d : ℕ} {curr f : EncFrmStatus}

theorem isLtRef_of_st (h : InStore s n) (hf : f ∈ s.st) : f.isLtRef = false := (isSt_of (h.isSt f hf)).2

theorem isLtRef_of_lt (h : InStore s n) (hf : f ∈ s.lt) : f.isLtRef := (isLt_of (h.isLt f hf)).2

/-- The short-term frames shown, the most recent first. -/
theorem sorted_take (h : InStore s n) (m : ℕ) :
    (s.st.take m).Pairwise fun f g => g.seqIdx < f.seqIdx :=
  h.sorted.sublist (take_sublist _ _)

/-- The short-term frames among those shown. -/
theorem mem_take_iff (h : InStore s n) :
    f ∈ s.st.take (d - s.lt.length) ↔ f ∈ s.window d ∧ f.isLtRef = false := by
  rw [RefStore.mem_window]
  constructor
  · intro hf
    exact ⟨.inr hf, h.isLtRef_of_st (mem_of_mem_take hf)⟩
  · rintro ⟨hf | hf, hlt⟩
    · exact absurd (h.isLtRef_of_lt hf) (by simp [hlt])
    · exact hf

/-- The frames shown are distinct. -/
theorem nodup_window (h : InStore s n) (d : ℕ) : (s.window d).Nodup := by
  rw [RefStore.window, nodup_append]
  refine ⟨h.nodup_lt.of_map _, ?_, fun f hf g hg he => ?_⟩
  · exact List.Pairwise.imp (fun hlt he => absurd hlt (by rw [he]; exact lt_irrefl _))
      (h.sorted_take _)
  · subst he
    have := h.isLtRef_of_lt hf
    rw [h.isLtRef_of_st (mem_of_mem_take hg)] at this
    exact absurd this Bool.false_ne_true

/-- In a list in order, the last element is the oldest. -/
theorem oldest {l : List EncFrmStatus} {e : EncFrmStatus}
    (h : (l ++ [e]).Pairwise fun f g => g.seqIdx < f.seqIdx) : ∀ f ∈ l, e.seqIdx < f.seqIdx := by
  rw [pairwise_append] at h
  exact fun f hf => h.2.2 f hf e mem_cons_self

/-- Without a long-term frame under the index of `curr`, nothing gives way. -/
theorem not_givesWay (h : InStore s n) (hk : curr.isLtRef → curr.ltIdx ∉ s.lt.map EncFrmStatus.ltIdx)
    (hf : f ∈ s.window d) : ¬GivesWay curr f := by
  rintro ⟨hc, hlt, hidx⟩
  rcases RefStore.mem_window.1 hf with hf | hf
  · exact hk hc (mem_map.2 ⟨f, hf, hidx⟩)
  · have := h.isLtRef_of_st (mem_of_mem_take hf)
    rw [this] at hlt
    exact absurd hlt Bool.false_ne_true

theorem wayCnt_eq_zero (h : InStore s n)
    (hk : curr.isLtRef → curr.ltIdx ∉ s.lt.map EncFrmStatus.ltIdx) :
    wayCnt curr (s.window d) = 0 := by
  rw [wayCnt, length_eq_zero_iff, filter_eq_nil_iff]
  exact fun f hf => by simpa using h.not_givesWay hk hf

/-- With a long-term frame under the index of `curr`, it alone gives way. -/
theorem wayCnt_eq_one (h : InStore s n) (hc : curr.isLtRef)
    (hk : curr.ltIdx ∈ s.lt.map EncFrmStatus.ltIdx) : wayCnt curr (s.window d) = 1 := by
  have hst : (s.st.take (d - s.lt.length)).filter (fun f => GivesWay curr f) = [] := by
    rw [filter_eq_nil_iff]
    intro f hf hway
    have hlt := (of_decide_eq_true hway).2.1
    rw [h.isLtRef_of_st (mem_of_mem_take hf)] at hlt
    exact absurd hlt Bool.false_ne_true
  have hlt : ∀ l : List EncFrmStatus, (∀ f ∈ l, f.isLtRef) →
      (l.filter fun f => GivesWay curr f).length = (l.map EncFrmStatus.ltIdx).count curr.ltIdx := by
    intro l hl
    rw [← countP_eq_length_filter, List.count, countP_map]
    refine countP_congr fun f hf => ?_
    simp [GivesWay, hc, hl f hf]
  rw [wayCnt, RefStore.window, filter_append, hst, append_nil,
    hlt _ fun f hf => h.isLtRef_of_lt hf]
  exact count_eq_one_of_mem h.nodup_lt hk

/-- When nothing gives way, the frames joined are those shown and the new one. -/
theorem joined_eq (h : InStore s n)
    (hk : curr.isLtRef → curr.ltIdx ∉ s.lt.map EncFrmStatus.ltIdx) :
    joined curr (s.window d) = {f | f = curr ∨ f ∈ s.window d} := by
  ext f
  simp only [joined, Set.mem_ofPred_eq]
  constructor
  · rintro (hf | ⟨hf, -⟩)
    · exact .inl hf
    · exact .inr hf
  · rintro (hf | hf)
    · exact .inl hf
    · exact .inr ⟨hf, h.not_givesWay hk hf⟩

/-- The new frame is shown in front of the short-term frames, one of which may leave:
    `l` are those that stay. -/
theorem set_append_cons (l : List EncFrmStatus) :
    {f | f ∈ s.lt ++ curr :: l} = {f | f = curr ∨ f ∈ s.lt ∨ f ∈ l} := by
  ext f
  simp only [Set.mem_ofPred_eq, mem_append, mem_cons]
  tauto

end InStore

/-- A window is no longer than its size, as long as the long-term frames fit. -/
theorem length_window_le {s : RefStore EncFrmStatus} {d : ℕ} (h : s.lt.length ≤ d) :
    (s.window d).length ≤ d := by
  rw [RefStore.length_window]
  omega

section Stored

variable {s : RefStore EncFrmStatus} {n d : ℕ} {curr : EncFrmStatus}

/-- A short-term frame is stored. -/
theorem window_storeFrm_of_st (h : InStore s n) (hd : d ≤ maxCpbStFrm) (hfit : s.lt.length ≤ d)
    (hn : curr.isNonRef = false) (hl : curr.isLtRef = false) (hcurr : curr.seqIdx.val = n) :
    Slides d (joined curr (s.window d)) ((s.window d).length + 1 - wayCnt curr (s.window d))
      ((storeFrm curr s).window d) := by
  have hk : curr.isLtRef → curr.ltIdx ∉ s.lt.map EncFrmStatus.ltIdx := by simp [hl]
  have hstore : storeFrm curr s = s.pushSt maxCpbStFrm curr := by simp [storeFrm, hn, hl]
  rw [h.wayCnt_eq_zero hk, h.joined_eq hk, hstore, Nat.sub_zero]
  rcases (length_window_le hfit).lt_or_eq with hlt | heq
  · refine .room hlt ?_ ?_
    · rw [RefStore.window_pushSt_of_not_full hd hlt, InStore.set_append_cons]
      ext f
      simp only [Set.mem_ofPred_eq, RefStore.mem_window]
    · rw [RefStore.window_pushSt_of_not_full hd hlt, RefStore.window, length_append,
        length_append, length_cons]
      omega
  · obtain ⟨l, e, hle, hw⟩ := RefStore.window_pushSt_of_full hd heq curr
    have hsorted : (l ++ [e]).Pairwise fun f g => g.seqIdx < f.seqIdx := by
      rw [← hle, pairwise_cons]
      refine ⟨fun f hf => ?_, h.sorted_take _⟩
      rw [Fin.lt_def, hcurr]
      exact h.lt f (mem_of_mem_take hf)
    have hmem : ∀ f, f ∈ l ++ [e] ↔ f = curr ∨ f ∈ s.st.take (d - s.lt.length) := by
      intro f
      rw [← hle, mem_cons]
    have hnot : e ∉ s.lt := by
      intro he
      have := h.isLtRef_of_lt he
      rcases (hmem e).1 (by simp) with rfl | hst
      · simp [hl] at this
      · simp [h.isLtRef_of_st (mem_of_mem_take hst)] at this
    refine .evict l e (by rw [heq]) ?_ (InStore.oldest hsorted) ?_ ?_
    · intro f
      rw [hmem, h.mem_take_iff]
      constructor
      · rintro (rfl | ⟨hf, hlt⟩)
        · exact ⟨.inl rfl, hl⟩
        · exact ⟨.inr hf, hlt⟩
      · rintro ⟨rfl | hf, hlt⟩
        · exact .inl rfl
        · exact .inr ⟨hf, hlt⟩
    · rw [hw]
      ext f
      simp only [Set.mem_ofPred_eq, mem_append, Set.mem_sdiff, Set.mem_singleton_iff,
        RefStore.mem_window]
      have hmemf := hmem f
      rw [mem_append, mem_singleton] at hmemf
      have hold := InStore.oldest hsorted
      constructor
      · rintro (hf | hf)
        · exact ⟨.inr (.inl hf), ne_of_mem_of_not_mem hf hnot⟩
        · refine ⟨?_, fun he => lt_irrefl _ (he ▸ hold f hf)⟩
          rcases hmemf.1 (.inl hf) with rfl | hst
          · exact .inl rfl
          · exact .inr (.inr hst)
      · rintro ⟨rfl | hf | hf, hne⟩
        · exact .inr ((hmemf.2 (.inl rfl)).resolve_right hne)
        · exact .inl hf
        · exact .inr ((hmemf.2 (.inr hf)).resolve_right hne)
    · have hlen := congrArg List.length hle
      rw [length_cons, length_append, length_singleton] at hlen
      rw [hw, length_append]
      rw [RefStore.window, length_append] at heq
      omega

/-- A long-term frame is stored. -/
theorem window_storeFrm_of_lt (h : InStore s n) (hfit : s.lt.length ≤ d)
    (hroom : curr.ltIdx ∉ s.lt.map EncFrmStatus.ltIdx → s.lt.length < d)
    (hn : curr.isNonRef = false) (hl : curr.isLtRef) :
    Slides d (joined curr (s.window d)) ((s.window d).length + 1 - wayCnt curr (s.window d))
      ((storeFrm curr s).window d) := by
  have hstore : storeFrm curr s = s.putLt EncFrmStatus.ltIdx curr := by simp [storeFrm, hn, hl]
  by_cases hk : curr.ltIdx ∈ s.lt.map EncFrmStatus.ltIdx
  · -- it takes the place of the frame with its index
    rw [h.wayCnt_eq_one hl hk, hstore]
    have hw := RefStore.window_putLt_of_mem (d := d) hk
    refine .room ?_ ?_ ?_
    · rw [Nat.add_sub_cancel]
      exact length_window_le hfit
    · rw [hw]
      ext f
      simp only [joined, Set.mem_ofPred_eq, mem_append, RefStore.mem_putKey_iff h.nodup_lt,
        RefStore.mem_window]
      constructor
      · rintro ((rfl | ⟨hf, hne⟩) | hf)
        · exact .inl rfl
        · exact .inr ⟨.inl hf, fun hway => hne hway.2.2⟩
        · refine .inr ⟨.inr hf, fun hway => ?_⟩
          have := h.isLtRef_of_st (mem_of_mem_take hf)
          exact absurd hway.2.1 (by simp [this])
      · rintro (rfl | ⟨hf | hf, hway⟩)
        · exact .inl (.inl rfl)
        · exact .inl (.inr ⟨hf, fun hne => hway ⟨hl, h.isLtRef_of_lt hf, hne⟩⟩)
        · exact .inr hf
    · rw [hw, length_append, RefStore.length_putKey_of_mem hk, Nat.add_sub_cancel,
        RefStore.window, length_append]
  · rw [h.wayCnt_eq_zero fun _ => hk, h.joined_eq fun _ => hk, hstore, Nat.sub_zero]
    rcases (length_window_le hfit).lt_or_eq with hlt | heq
    · have hw := RefStore.window_putLt_of_not_full hk hlt
      refine .room hlt ?_ ?_
      · rw [hw, InStore.set_append_cons]
        ext f
        simp only [Set.mem_ofPred_eq, RefStore.mem_window]
      · rw [hw, RefStore.window, length_append, length_append, length_cons]
        omega
    · obtain ⟨l, e, hle, hw⟩ := RefStore.window_putLt_of_full hk heq (hroom hk)
      have hsorted : (l ++ [e]).Pairwise fun f g => g.seqIdx < f.seqIdx := by
        rw [← hle]
        exact h.sorted_take _
      have hmem : ∀ f, f ∈ l ++ [e] ↔ f ∈ s.window d ∧ f.isLtRef = false := by
        intro f
        rw [← hle, h.mem_take_iff]
      refine .evict l e (by rw [heq]) ?_ (InStore.oldest hsorted) ?_ ?_
      · intro f
        rw [hmem]
        constructor
        · rintro ⟨hf, hlt⟩
          exact ⟨.inr hf, hlt⟩
        · rintro ⟨rfl | hf, hlt⟩
          · simp [hl] at hlt
          · exact ⟨hf, hlt⟩
      · have hold := InStore.oldest hsorted
        have he := (hmem e).1 (by simp)
        rw [hw, InStore.set_append_cons]
        ext f
        simp only [Set.mem_ofPred_eq, Set.mem_sdiff, Set.mem_singleton_iff, RefStore.mem_window]
        rw [hle, mem_append, mem_singleton]
        constructor
        · rintro (rfl | hf | hf)
          · refine ⟨.inl rfl, ?_⟩
            rintro rfl
            simp [hl] at he
          · refine ⟨.inr (.inl hf), ?_⟩
            rintro rfl
            simp [h.isLtRef_of_lt hf] at he
          · exact ⟨.inr (.inr (.inl hf)), fun he => lt_irrefl _ (he ▸ hold f hf)⟩
        · rintro ⟨rfl | hf | hf | rfl, hne⟩
          · exact .inl rfl
          · exact .inr (.inl hf)
          · exact .inr (.inr hf)
          · exact absurd rfl hne
      · have hlen := congrArg List.length hle
        rw [length_append, length_singleton] at hlen
        rw [hw, length_append, length_cons]
        rw [RefStore.window, length_append] at heq
        omega

end Stored

/-- A reference frame joins the frames shown, and the window moves. -/
theorem window_storeFrm {s : RefStore EncFrmStatus} {n d : ℕ} {curr : EncFrmStatus}
    (h : InStore s n) (hd : d ≤ maxCpbStFrm) (hfit : s.lt.length ≤ d)
    (hroom : curr.isLtRef → curr.ltIdx ∉ s.lt.map EncFrmStatus.ltIdx → s.lt.length < d)
    (hn : curr.isNonRef = false) (hcurr : curr.seqIdx.val = n) :
    Slides d (joined curr (s.window d)) ((s.window d).length + 1 - wayCnt curr (s.window d))
      ((storeFrm curr s).window d) := by
  cases hl : curr.isLtRef with
  | false => exact window_storeFrm_of_st h hd hfit hn hl hcurr
  | true => exact window_storeFrm_of_lt h hfit (hroom hl) hn hl

end Libmpp.EncRef
