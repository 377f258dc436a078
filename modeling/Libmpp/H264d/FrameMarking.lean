import Libmpp.Lib.Heap
import Libmpp.H264d.FrameStore
import Libmpp.H264d.Unchanged

/-!
# The marking of frames

In a buffer that holds frames only (`DpbBuf.FramesOnly`), the marking functions of the
decoder, which go through the lists of references and change the pictures behind them,
are the operations on the marks of the list of frames (`Frm.manage`, `Frm.slide`).

The lists are kept up to date as far as the next operation needs it (`DpbBuf.ListsOk`):
the short-term list always is, the long-term list may still have stores that were
released.
-/

namespace Libmpp.H264d

open Base Function List

/-- A buffer whose stores in use hold frames, and whose other stores are empty. -/
structure DpbBuf.FramesOnly (d : DpbBuf) : Prop where
  nodup : d.fs.Nodup
  length : d.fs.length = d.size
  used_le : d.usedSize ≤ d.size
  free : ∀ i ∈ d.fs.drop d.usedSize, (d.stores i).IsEmpty
  frame : ∀ i ∈ d.used, (d.stores i).HoldsFrame
  out : d.outBuffer.IsEmpty

/-- The frames of a buffer. -/
def DpbBuf.frames (d : DpbBuf) : List Frm := Heap.view Frm.ofStore d.stores d.used

namespace DpbBuf.FramesOnly

variable {d : DpbBuf}

theorem used_nodup (h : d.FramesOnly) : d.used.Nodup := h.nodup.sublist (take_sublist _ _)

theorem used_length (h : d.FramesOnly) : d.used.length = d.usedSize := by
  rw [DpbBuf.used, length_take, h.length, min_eq_left h.used_le]

@[simp]
theorem frames_length (h : d.FramesOnly) : d.frames.length = d.usedSize := by
  rw [DpbBuf.frames, Heap.length_view, h.used_length]

variable {i : ℕ}

/-- The stores in use and the others are different ones. -/
theorem notMem_drop (h : d.FramesOnly) (hi : i ∈ d.used) :
    i ∉ d.fs.drop d.usedSize := fun hi' =>
  (disjoint_of_nodup_append ((take_append_drop d.usedSize d.fs).symm ▸ h.nodup)) hi hi'

/-- A change of the stores in use that leaves frames in them. -/
theorem of_order (h : d.FramesOnly) {d' : DpbBuf} (ho : d'.order = d.order)
    (hin : ∀ i ∈ d.used, (d'.stores i).HoldsFrame)
    (hout : ∀ i ∉ d.used, d'.stores i = d.stores i) : d'.FramesOnly := by
  have hfs : d'.fs = d.fs := congrArg DpbOrder.fs ho
  have hused : d'.usedSize = d.usedSize := congrArg DpbOrder.usedSize ho
  have hu : d'.used = d.used := by rw [DpbBuf.used, DpbBuf.used, hfs, hused]
  refine ⟨hfs ▸ h.nodup, ?_, ?_, ?_, fun i hi => hin i (hu ▸ hi), ?_⟩
  · rw [hfs, h.length]
    exact (congrArg DpbOrder.size ho).symm
  · rw [hused, show d'.size = d.size from congrArg DpbOrder.size ho]
    exact h.used_le
  · rw [hfs, hused]
    intro i hi
    rw [hout i fun hi' => h.notMem_drop hi' hi]
    exact h.free i hi
  · rw [show d'.outBuffer = d.outBuffer from congrArg DpbOrder.outBuffer ho]
    exact h.out

theorem used_of_order {d' : DpbBuf} (ho : d'.order = d.order) : d'.used = d.used := by
  rw [DpbBuf.used, DpbBuf.used, show d'.fs = d.fs from congrArg DpbOrder.fs ho,
    show d'.usedSize = d.usedSize from congrArg DpbOrder.usedSize ho]

variable {g : FrameStore → FrameStore}

theorem modify (h : d.FramesOnly) (hi : i ∈ d.used) (hg : (g (d.stores i)).HoldsFrame) :
    (d.modify i g).FramesOnly := by
  refine h.of_order (DpbBuf.modify_order d i g) (fun j hj => ?_) fun j hj => ?_
  · by_cases hji : j = i
    · subst hji
      simpa [DpbBuf.modify] using hg
    · simpa [DpbBuf.modify, update_of_ne hji] using h.frame j hj
  · simp [DpbBuf.modify, update_of_ne (ne_of_mem_of_not_mem hi hj).symm]

/-- A change of the store at a position is one of the frame there. -/
theorem modify_frames (h : d.FramesOnly) {k : ℕ} (hk : d.used[k]? = some i) {g' : Frm → Frm}
    (hg : Frm.ofStore (g (d.stores i)) = g' (Frm.ofStore (d.stores i))) :
    (d.modify i g).frames = d.frames.modify k g' :=
  Heap.view_update h.used_nodup hk hg

/-- A change of the first frame whose mark meets a condition. -/
theorem modify_find (h : d.FramesOnly) {p : ℕ → Bool} {q : RefMark → Bool} {r : Option RefMark}
    (hpq : ∀ i ∈ d.used, p i = (Frm.ofStore (d.stores i)).ref.any q)
    (hg : ∀ i ∈ d.used, p i → (g (d.stores i)).HoldsFrame ∧
      Frm.ofStore (g (d.stores i)) = (Frm.ofStore (d.stores i)).setRef r) :
    (match d.used.find? p with
      | some i => d.modify i g
      | none => d).FramesOnly ∧
    (match d.used.find? p with
      | some i => d.modify i g
      | none => d).frames = Frm.setFirst q r d.frames := by
  have hidx : d.used.findIdx? p = d.frames.findIdx? fun f => f.ref.any q :=
    Heap.findIdx?_view hpq
  rw [Frm.setFirst, ← hidx, Heap.find?_eq_bind_findIdx?]
  cases hk : d.used.findIdx? p with
  | none => exact ⟨h, rfl⟩
  | some k =>
    obtain ⟨hlt, hp, -⟩ := findIdx?_eq_some_iff_getElem.1 hk
    have hget : d.used[k]? = some d.used[k] := getElem?_eq_getElem hlt
    rw [Option.bind_some, hget]
    obtain ⟨hf, he⟩ := hg _ (getElem_mem hlt) hp
    exact ⟨h.modify (getElem_mem hlt) hf, h.modify_frames hget he⟩

end DpbBuf.FramesOnly

/-- The lists of references, as an operation finds them. -/
structure DpbBuf.ListsOk (d : DpbBuf) : Prop where
  ref : d.fsRef = d.used.filter fun i => isShortTermReference (d.stores i)
  sub : ∀ i ∈ d.fsLtref, i ∈ d.used
  nodup : d.fsLtref.Nodup
  mem : ∀ i ∈ d.used, isLongTermReference (d.stores i) → i ∈ d.fsLtref
  stale : ∀ i ∈ d.fsLtref, isShortTermReference (d.stores i) = false
  numbered : ∀ i ∈ d.used, (d.stores i).Numbered

/-- The buffer is ready for an operation. -/
structure DpbBuf.Ready (d : DpbBuf) : Prop where
  only : d.FramesOnly
  lists : d.ListsOk

section Lists

variable {d d' : DpbBuf}

theorem updateRefList_frames (d : DpbBuf) : (updateRefList d).frames = d.frames := rfl

theorem updateLtrefList_frames (d : DpbBuf) : (updateLtrefList d).frames = d.frames := rfl

theorem DpbBuf.FramesOnly.updateRefList (h : d.FramesOnly) : (updateRefList d).FramesOnly :=
  h.of_order (updateRefList_order d) h.frame fun _ _ => rfl

theorem DpbBuf.FramesOnly.updateLtrefList (h : d.FramesOnly) :
    (updateLtrefList d).FramesOnly :=
  h.of_order (updateLtrefList_order d) h.frame fun _ _ => rfl

/-- A frame is a reference of one kind at most. -/
theorem DpbBuf.FramesOnly.not_short_of_long (h : d.FramesOnly) {i : ℕ} (hi : i ∈ d.used)
    (hl : isLongTermReference (d.stores i)) : isShortTermReference (d.stores i) = false := by
  obtain ⟨s, hs⟩ := h.frame i hi
  rw [hs.isLongTermReference] at hl
  rw [hs.isShortTermReference]
  cases href : (Frm.ofStore (d.stores i)).ref with
  | none => rfl
  | some r =>
    rw [href] at hl
    simpa using hl

/-- Both lists brought up to date. -/
theorem DpbBuf.FramesOnly.listsOk (h : d.FramesOnly)
    (hn : ∀ i ∈ d.used, (d.stores i).Numbered) :
    (H264d.updateLtrefList (H264d.updateRefList d)).ListsOk where
  ref := rfl
  sub _ hi := (mem_filter.1 hi).1
  nodup := h.used_nodup.filter _
  mem _ hi hl := mem_filter.2 ⟨hi, hl⟩
  stale _ hi := h.not_short_of_long (mem_filter.1 hi).1 (mem_filter.1 hi).2
  numbered := hn

/-- Operations that only release references keep the long-term list good. -/
theorem DpbBuf.ListsOk.mono (hl : d.ListsOk) (ho : d'.order = d.order)
    (hlt : d'.fsLtref = d.fsLtref)
    (href : d'.fsRef = d'.used.filter fun i => isShortTermReference (d'.stores i))
    (hlong : ∀ i ∈ d.used, isLongTermReference (d'.stores i) →
      isLongTermReference (d.stores i))
    (hshort : ∀ i ∈ d.used, isShortTermReference (d'.stores i) →
      isShortTermReference (d.stores i))
    (hn : ∀ i ∈ d.used, (d'.stores i).Numbered) : d'.ListsOk := by
  have hu := DpbBuf.FramesOnly.used_of_order ho
  refine ⟨href, ?_, hlt ▸ hl.nodup, ?_, ?_, hu ▸ hn⟩
  · rw [hlt, hu]
    exact hl.sub
  · rw [hlt, hu]
    exact fun i hi h => hl.mem i hi (hlong i hi h)
  · rw [hlt]
    intro i hi
    by_contra h
    rw [Bool.not_eq_false] at h
    exact absurd (hl.stale i hi) (by simp [hshort i (hl.sub i hi) h])

theorem DpbBuf.Ready.updateLtrefList (h : d.Ready) : (H264d.updateLtrefList d).Ready where
  only := h.only.updateLtrefList
  lists :=
    { ref := h.lists.ref
      sub := fun _ hi => (mem_filter.1 hi).1
      nodup := h.only.used_nodup.filter _
      mem := fun _ hi hl => mem_filter.2 ⟨hi, hl⟩
      stale := fun _ hi =>
        h.only.not_short_of_long (mem_filter.1 hi).1 (mem_filter.1 hi).2
      numbered := h.lists.numbered }

end Lists

/-! ## Long-term references -/

section Long

variable {d : DpbBuf}

/-- A loop of changes of stores changes nothing but the stores. -/
theorem foldl_modify_eq (l : List ℕ) (d : DpbBuf) (q : ℕ → FrameStore → Bool)
    (g : FrameStore → FrameStore) :
    l.foldl (fun d i => if q i (d.stores i) then d.modify i g else d) d =
      { d with
        stores := l.foldl (fun h i =>
          if q i (h i) then update h i (g (h i)) else h) d.stores } := by
  induction l generalizing d with
  | nil => rfl
  | cons i l ih =>
    rw [foldl_cons, foldl_cons, ih]
    split <;> rfl

theorem foldl_modify_all_eq (l : List ℕ) (d : DpbBuf) (g : FrameStore → FrameStore) :
    l.foldl (fun d i => d.modify i g) d =
      { d with
        stores := l.foldl (fun h i => update h i (g (h i))) d.stores } := by
  simpa using foldl_modify_eq l d (fun _ _ => true) g

theorem foldl_modify_all_stores {l : List ℕ} (hl : l.Nodup) (d : DpbBuf)
    (g : FrameStore → FrameStore) (j : ℕ) :
    (l.foldl (fun d i => d.modify i g) d).stores j =
      if j ∈ l then g (d.stores j) else d.stores j := by
  rw [foldl_modify_all_eq]
  simpa using Heap.foldl_update_apply (h := d.stores) hl (fun _ _ => true) g j

/-- Releasing long-term stores by a condition on their index. -/
theorem DpbBuf.Ready.unmarkLongTermWhere (h : d.Ready) {q : ℕ → FrameStore → Bool}
    {Q : ℤ → Bool}
    (hq : ∀ i ∈ d.used, ∀ s, (d.stores i).IsFrame s → s.usedForReference → s.isLongTerm →
      q i (d.stores i) = Q (d.stores i).longTermFrameIdx) :
    (unmarkLongTermWhere d q).Ready ∧
      (H264d.unmarkLongTermWhere d q).frames = d.frames.map (Frm.dropLong Q) := by
  have hst (j : ℕ) : (H264d.unmarkLongTermWhere d q).stores j =
      if j ∈ d.fsLtref ∧ q j (d.stores j) then unmarkForLongTermReference (d.stores j)
      else d.stores j := by
    rw [H264d.unmarkLongTermWhere, foldl_modify_eq]
    exact Heap.foldl_update_apply h.lists.nodup q _ j
  -- A store of the list that is released was long-term, or no reference any more.
  have hfrm : ∀ i ∈ d.used, Frm.ofStore ((H264d.unmarkLongTermWhere d q).stores i) =
      Frm.dropLong Q (Frm.ofStore (d.stores i)) := by
    intro i hi
    obtain ⟨s, hs⟩ := h.only.frame i hi
    rw [hst, Frm.dropLong, hs.ref_eq]
    have hmem := h.lists.mem i hi
    have hstale := h.lists.stale i
    rw [hs.isLongTermReference, hs.ref_eq] at hmem
    rw [hs.isShortTermReference, hs.ref_eq] at hstale
    cases hu : s.usedForReference with
    | false =>
      have hnone : (Frm.ofStore (d.stores i)).setRef none = Frm.ofStore (d.stores i) := by
        simp [Frm.setRef, Frm.ofStore, hs.frame, StorePic.ref, hu]
      simp only [StorePic.ref, hu]
      split
      · rw [hs.unmarkForLongTermReference_frm, hnone]
        rfl
      · rfl
    | true =>
      cases hl : s.isLongTerm with
      | false =>
        simp only [StorePic.ref, hu, hl] at hstale ⊢
        rw [if_neg fun hin => absurd (hstale hin.1) (by simp [RefMark.isLong])]
        rfl
      | true =>
        have hin : i ∈ d.fsLtref := hmem (by simp [StorePic.ref, hu, hl, RefMark.isLong])
        simp only [StorePic.ref, hu, hl, hin, true_and, hq i hi s hs hu hl, if_true]
        split
        · exact hs.unmarkForLongTermReference_frm
        · rfl
  have hframe : ∀ i ∈ d.used, ((H264d.unmarkLongTermWhere d q).stores i).HoldsFrame := by
    intro i hi
    obtain ⟨s, hs⟩ := h.only.frame i hi
    rw [hst]
    split
    · exact ⟨_, hs.unmarkForLongTermReference⟩
    · exact ⟨s, hs⟩
  have honly : (H264d.unmarkLongTermWhere d q).FramesOnly :=
    h.only.of_order (unmarkLongTermWhere_order d q) hframe fun i hi => by
      rw [hst, if_neg fun hin => hi (h.lists.sub i hin.1)]
  have hu := DpbBuf.FramesOnly.used_of_order (unmarkLongTermWhere_order d q)
  refine ⟨⟨honly, h.lists.mono (unmarkLongTermWhere_order d q) ?_ ?_ ?_ ?_ ?_⟩, ?_⟩
  · rw [H264d.unmarkLongTermWhere, foldl_modify_eq]
  · rw [hu]
    refine (congrArg DpbBuf.fsRef (foldl_modify_eq d.fsLtref d q _)).trans
      (h.lists.ref.trans ?_)
    refine filter_congr fun i hi => ?_
    obtain ⟨s, hs⟩ := h.only.frame i hi
    obtain ⟨s', hs'⟩ := hframe i hi
    rw [hs.isShortTermReference, hs'.isShortTermReference, hfrm i hi]
    unfold Frm.dropLong
    split
    · rename_i heq
      split <;> simp [heq, Frm.setRef, RefMark.isLong]
    · rfl
  · intro i hi hlong
    obtain ⟨s, hs⟩ := h.only.frame i hi
    obtain ⟨s', hs'⟩ := hframe i hi
    rw [hs'.isLongTermReference, hfrm i hi] at hlong
    rw [hs.isLongTermReference]
    unfold Frm.dropLong at hlong
    split at hlong
    · rename_i heq
      simp [heq, RefMark.isLong]
    · exact hlong
  · intro i hi hshort
    obtain ⟨s, hs⟩ := h.only.frame i hi
    obtain ⟨s', hs'⟩ := hframe i hi
    rw [hs'.isShortTermReference, hfrm i hi] at hshort
    rw [hs.isShortTermReference]
    unfold Frm.dropLong at hshort
    split at hshort
    · rename_i heq
      split at hshort
      · simp [Frm.setRef] at hshort
      · exact hshort
    · exact hshort
  · intro i hi
    obtain ⟨s, hs⟩ := h.only.frame i hi
    rw [hst]
    split
    · intro t ht hut
      have := hs.unmarkForLongTermReference.frame.symm.trans ht
      rw [← Option.some.inj this] at hut
      exact absurd hut (by simp)
    · exact h.lists.numbered i hi
  · rw [DpbBuf.frames, hu]
    exact Heap.view_eq_map hfrm

theorem DpbBuf.Ready.mmUpdateMaxLongTermFrameIdx (h : d.Ready) (n : ℤ) :
    (mmUpdateMaxLongTermFrameIdx d n).Ready ∧
      (H264d.mmUpdateMaxLongTermFrameIdx d n).frames =
        d.frames.map (Frm.dropLong (n - 1 < ·)) :=
  DpbBuf.Ready.unmarkLongTermWhere (d := { d with maxLongTermPicIdx := n - 1 })
    ⟨h.only.of_order rfl h.only.frame fun _ _ => rfl,
      h.lists.mono rfl rfl h.lists.ref (fun _ _ hl => hl) (fun _ _ hs => hs) h.lists.numbered⟩
    fun _ _ _ _ _ _ => rfl

end Long

/-! ## Short-term references -/

section Short

variable {d : DpbBuf}

/-- The short-term list holds the stores whose frame is a short-term reference. -/
theorem DpbBuf.Ready.find?_fsRef (h : d.Ready) (p : ℕ → Bool) :
    d.fsRef.find? p = d.used.find? fun i => isShortTermReference (d.stores i) && p i := by
  rw [h.lists.ref, find?_filter]
  congr 1
  funext i
  simp

theorem modify_unmark_stores {i j : ℕ} :
    (d.modify i unmarkForReference).stores j =
      if j = i then unmarkForReference (d.stores j) else d.stores j := by
  by_cases hj : j = i
  · subst hj
    simp [DpbBuf.modify]
  · simp [DpbBuf.modify, hj]

/-- Releasing the first store that meets a condition on its mark. -/
theorem DpbBuf.Ready.releaseFirst (h : d.Ready) {p : ℕ → Bool} {q : RefMark → Bool}
    (hpq : ∀ i ∈ d.used, p i = (Frm.ofStore (d.stores i)).ref.any q) :
    (updateRefList (match d.used.find? p with
      | some i => d.modify i unmarkForReference
      | none => d)).Ready ∧
    (match d.used.find? p with
      | some i => d.modify i unmarkForReference
      | none => d).frames = Frm.setFirst q none d.frames := by
  have hf := h.only.modify_find hpq (r := none) (g := unmarkForReference) fun i hi _ => by
    obtain ⟨s, hs⟩ := h.only.frame i hi
    exact ⟨⟨_, hs.unmarkForReference⟩, hs.unmarkForReference_frm⟩
  refine ⟨⟨hf.1.updateRefList, ?_⟩, hf.2⟩
  cases hk : d.used.find? p with
  | none => exact h.lists.mono rfl rfl rfl (fun _ _ hl => hl) (fun _ _ hs => hs) h.lists.numbered
  | some k =>
    refine h.lists.mono rfl rfl rfl (fun i hi hl => ?_) (fun i hi hs => ?_) fun i hi => ?_
    all_goals
      obtain ⟨s, hfs⟩ := h.only.frame i hi
      have hu := hfs.unmarkForReference
    · change isLongTermReference ((d.modify k unmarkForReference).stores i) = true at hl
      rw [modify_unmark_stores] at hl
      split at hl
      · rw [hu.isLongTermReference, hfs.unmarkForReference_frm] at hl
        simp [Frm.setRef] at hl
      · exact hl
    · change isShortTermReference ((d.modify k unmarkForReference).stores i) = true at hs
      rw [modify_unmark_stores] at hs
      split at hs
      · rw [hu.isShortTermReference, hfs.unmarkForReference_frm] at hs
        simp [Frm.setRef] at hs
      · exact hs
    · change ((d.modify k unmarkForReference).stores i).Numbered
      rw [modify_unmark_stores]
      split
      · intro t ht hut
        rw [← Option.some.inj (hu.frame.symm.trans ht)] at hut
        exact absurd hut (by simp)
      · exact h.lists.numbered i hi

theorem DpbBuf.Ready.mmUnmarkShortTermForReference (h : d.Ready) {p : StorePic}
    (hp : p.picStructure = .frame) (n : ℤ) :
    (updateRefList (mmUnmarkShortTermForReference d p n)).Ready ∧
      (H264d.mmUnmarkShortTermForReference d p n).frames =
        Frm.setFirst (· = .short (p.frameNum - (n + 1))) none d.frames := by
  have hpq : ∀ i ∈ d.used, (isShortTermReference (d.stores i) &&
      ((d.stores i).isReference = .both && (d.stores i).isLongTerm = .empty &&
        (d.stores i).frame.any (·.picNum = getPicNumX p n))) =
      (Frm.ofStore (d.stores i)).ref.any (· = .short (p.frameNum - (n + 1))) := by
    intro i hi
    obtain ⟨s, hs⟩ := h.only.frame i hi
    rw [hs.isShortTermReference, hs.ref_eq]
    have hlt := hs.isLongTerm
    cases hu : s.usedForReference <;> cases hl : s.isLongTerm <;>
      simp_all [StorePic.ref, hs.isReference, hs.frame, getPicNumX, RefMark.isLong]
  have hr := h.releaseFirst hpq
  unfold H264d.mmUnmarkShortTermForReference
  simp only [hp, if_true, h.find?_fsRef]
  exact hr

theorem DpbBuf.Ready.slidingWindowMemoryManagement (h : d.Ready)
    (hn : d.fsRef.length + d.fsLtref.length = max 1 d.numRefFrames) :
    (slidingWindowMemoryManagement d).Ready ∧
      (H264d.slidingWindowMemoryManagement d).frames = Frm.slide d.frames := by
  have hpq : ∀ i ∈ d.used,
      ((d.stores i).isReference ≠ .empty && (d.stores i).isLongTerm = .empty : Bool) =
        (Frm.ofStore (d.stores i)).ref.any fun r => !r.isLong := by
    intro i hi
    obtain ⟨s, hs⟩ := h.only.frame i hi
    rw [hs.ref_eq]
    have hlt := hs.isLongTerm
    cases hu : s.usedForReference <;> cases hl : s.isLongTerm <;>
      simp_all [StorePic.ref, hs.isReference, RefMark.isLong]
  have hr := h.releaseFirst hpq
  unfold H264d.slidingWindowMemoryManagement
  rw [if_pos hn]
  revert hr
  cases d.used.find? fun i =>
      ((d.stores i).isReference ≠ .empty && (d.stores i).isLongTerm = .empty : Bool) with
  | none =>
    intro hr
    exact ⟨h, hr.2⟩
  | some i => exact fun hr => hr

/-- All short-term references are released. -/
theorem DpbBuf.Ready.mmUnmarkAllShortTermForReference (h : d.Ready) :
    (mmUnmarkAllShortTermForReference d).Ready ∧
      (H264d.mmUnmarkAllShortTermForReference d).frames = d.frames.map Frm.dropShort := by
  have hn : d.fsRef.Nodup := by
    rw [h.lists.ref]
    exact h.only.used_nodup.filter _
  have hst (j : ℕ) : (H264d.mmUnmarkAllShortTermForReference d).stores j =
      if j ∈ d.fsRef then unmarkForReference (d.stores j) else d.stores j :=
    foldl_modify_all_stores hn d _ j
  have hmem {i : ℕ} (hi : i ∈ d.used) : i ∈ d.fsRef ↔ isShortTermReference (d.stores i) := by
    rw [h.lists.ref, mem_filter]
    exact and_iff_right hi
  have ho := mmUnmarkAllShortTermForReference_order d
  have hu := DpbBuf.FramesOnly.used_of_order ho
  have hframe : ∀ i ∈ d.used,
      ((H264d.mmUnmarkAllShortTermForReference d).stores i).HoldsFrame := by
    intro i hi
    obtain ⟨s, hs⟩ := h.only.frame i hi
    rw [hst]
    split
    · exact ⟨_, hs.unmarkForReference⟩
    · exact ⟨s, hs⟩
  have hfrm : ∀ i ∈ d.used, Frm.ofStore
      ((H264d.mmUnmarkAllShortTermForReference d).stores i) =
        (Frm.ofStore (d.stores i)).dropShort := by
    intro i hi
    obtain ⟨s, hs⟩ := h.only.frame i hi
    rw [hst, Frm.dropShort, hs.ref_eq]
    have hm := hmem hi
    rw [hs.isShortTermReference, hs.ref_eq] at hm
    cases hus : s.usedForReference <;> cases hl : s.isLongTerm <;>
      simp_all [StorePic.ref, RefMark.isLong, hs.unmarkForReference_frm]
  have honly : (H264d.mmUnmarkAllShortTermForReference d).FramesOnly :=
    h.only.of_order ho hframe fun i hi => by
      rw [hst, if_neg fun hin => hi ?_]
      rw [h.lists.ref] at hin
      exact (mem_filter.1 hin).1
  refine ⟨⟨honly, h.lists.mono ho ?_ ?_ ?_ ?_ ?_⟩, ?_⟩
  · rw [H264d.mmUnmarkAllShortTermForReference, foldl_modify_all_eq]
    rfl
  · rfl
  · intro i hi hl
    obtain ⟨s, hs⟩ := h.only.frame i hi
    rw [hst] at hl
    split at hl
    · rw [hs.unmarkForReference.isLongTermReference, hs.unmarkForReference_frm] at hl
      simp [Frm.setRef] at hl
    · exact hl
  · intro i hi hsh
    obtain ⟨s, hs⟩ := h.only.frame i hi
    rw [hst] at hsh
    split at hsh
    · rw [hs.unmarkForReference.isShortTermReference, hs.unmarkForReference_frm] at hsh
      simp [Frm.setRef] at hsh
    · exact hsh
  · intro i hi
    obtain ⟨s, hs⟩ := h.only.frame i hi
    rw [hst]
    split
    · intro t ht hut
      rw [← Option.some.inj (hs.unmarkForReference.frame.symm.trans ht)] at hut
      exact absurd hut (by simp)
    · exact h.lists.numbered i hi
  · rw [DpbBuf.frames, hu]
    exact Heap.view_eq_map hfrm

/-- A short-term reference becomes long-term, in place of the one with its index. -/
theorem DpbBuf.Ready.mmAssignLongTermFrameIdx (h : d.Ready) {p : StorePic}
    (hp : p.picStructure = .frame) (m n i : ℤ) :
    (H264d.updateLtrefList (updateRefList (mmAssignLongTermFrameIdx d m p n i))).Ready ∧
      (H264d.mmAssignLongTermFrameIdx d m p n i).frames =
        Frm.setFirst (· = .short (p.frameNum - (n + 1))) (some (.long i))
          (d.frames.map (Frm.dropLong (· = i))) := by
  obtain ⟨hr, hf⟩ := h.unmarkLongTermWhere
    (q := fun _ f => f.longTermFrameIdx = i) (Q := (· = i)) fun _ _ _ _ _ _ => rfl
  rw [← hf]
  obtain ⟨e, he⟩ : ∃ e, unmarkLongTermFrameForReferenceByFrameIdx d i = e := ⟨_, rfl⟩
  change (unmarkLongTermFrameForReferenceByFrameIdx d i).Ready at hr
  change _ ∧ _ = Frm.setFirst _ _ (unmarkLongTermFrameForReferenceByFrameIdx d i).frames
  rw [he] at hr ⊢
  clear hf
  have hpq : ∀ j ∈ e.used, (isShortTermReference (e.stores j) &&
      ((e.stores j).isReference = .both && (e.stores j).frame.any fun s =>
        !s.isLongTerm && s.picNum = getPicNumX p n)) =
      (Frm.ofStore (e.stores j)).ref.any (· = .short (p.frameNum - (n + 1))) := by
    intro j hj
    obtain ⟨s, hs⟩ := hr.only.frame j hj
    rw [hs.isShortTermReference, hs.ref_eq]
    cases hu : s.usedForReference <;> cases hl : s.isLongTerm <;>
      simp [StorePic.ref, hs.isReference, hs.frame, getPicNumX, RefMark.isLong, hu, hl, hp]
  have hg : ∀ j ∈ e.used, (isShortTermReference (e.stores j) &&
      ((e.stores j).isReference = .both && (e.stores j).frame.any fun s =>
        !s.isLongTerm && s.picNum = getPicNumX p n)) →
      (markFrameLongTerm i (e.stores j)).HoldsFrame ∧
        Frm.ofStore (markFrameLongTerm i (e.stores j)) =
          (Frm.ofStore (e.stores j)).setRef (some (.long i)) := by
    intro j hj hshort
    obtain ⟨s, hs⟩ := hr.only.frame j hj
    have hused : s.usedForReference = true := by
      rw [hs.isShortTermReference, hs.ref_eq] at hshort
      by_contra hu
      simp [StorePic.ref, hu] at hshort
    exact ⟨⟨_, hs.markFrameLongTerm i⟩, hs.markFrameLongTerm_frm hused i⟩
  have hm := hr.only.modify_find hpq hg
  obtain ⟨x, hx⟩ : ∃ x, (e.used.find? fun j => isShortTermReference (e.stores j) &&
      ((e.stores j).isReference = .both && (e.stores j).frame.any fun s =>
        !s.isLongTerm && s.picNum = getPicNumX p n)) = x := ⟨_, rfl⟩
  rw [hx] at hm
  have hassign : H264d.mmAssignLongTermFrameIdx d m p n i =
      x.elim e fun j => e.modify j (markFrameLongTerm i) := by
    unfold H264d.mmAssignLongTermFrameIdx markPicLongTerm
    simp only [hp, if_true, he, hr.find?_fsRef, hx]
    cases x <;> rfl
  rw [hassign]
  cases x with
  | none => exact ⟨⟨hm.1.updateRefList.updateLtrefList, hm.1.listsOk hr.lists.numbered⟩, hm.2⟩
  | some j =>
    refine ⟨⟨hm.1.updateRefList.updateLtrefList, hm.1.listsOk fun k hk => ?_⟩, hm.2⟩
    obtain ⟨s, hs⟩ := hr.only.frame k hk
    by_cases hkj : k = j
    · subst hkj
      intro t ht _ _
      simp only [DpbBuf.modify, update_self] at ht ⊢
      rw [(hs.markFrameLongTerm i).frame] at ht
      rw [← Option.some.inj ht]
      rfl
    · simp only [DpbBuf.modify, update_of_ne hkj]
      exact hr.lists.numbered k hk

end Short

/-! ## The operations of a frame -/

theorem checkNumRef_eq (d : DpbBuf) : checkNumRef d = d := by
  unfold checkNumRef slidingWindowMemoryManagement
  split_ifs
  · omega
  · rfl
  · rfl

/-- The decoder with the frames of its buffer. -/
def VideoCtx.buf (c : VideoCtx) : FrmBuf where
  frames := c.dpb.frames
  mem := ⟨c.dpbMark, c.slotOps⟩
  pocInterval := c.dpb.pocInterval
  lastOutputPoc := c.dpb.lastOutputPoc
  dpbFastOut := c.dpbFastOut
  dpbFirstFastPlayed := c.dpbFirstFastPlayed
  iSliceNo := c.iSliceNo

/-- A change of the marks of the buffer. -/
theorem VideoCtx.modifyDpb_buf (c : VideoCtx) {g : DpbBuf → DpbBuf}
    {g' : List Frm → List Frm} (ho : (g c.dpb).order = c.dpb.order)
    (hf : (g c.dpb).frames = g' c.dpb.frames) :
    (c.modifyDpb g).buf = c.buf.modify g' := by
  have hi : (g c.dpb).pocInterval = c.dpb.pocInterval := congrArg DpbOrder.pocInterval ho
  have hl : (g c.dpb).lastOutputPoc = c.dpb.lastOutputPoc := congrArg DpbOrder.lastOutputPoc ho
  simp [VideoCtx.buf, VideoCtx.modifyDpb, FrmBuf.modify, hf, hi, hl]

section Control

variable {c : VideoCtx} {p : StorePic}

/-- An operation of the decoder on a buffer of frames is the one on the frames. -/
theorem memoryManagementControl_buf (hc : c.dpb.Ready) (hp : p.picStructure = .frame)
    (op : Drpm) (isLast : Bool) :
    (memoryManagementControl c p op isLast).1.dpb.Ready ∧
      (memoryManagementControl c p op isLast).2.1.picStructure = .frame ∧
      ((memoryManagementControl c p op isLast).1.buf,
        (memoryManagementControl c p op isLast).2) = c.buf.control p op isLast := by
  unfold memoryManagementControl FrmBuf.control
  generalize hop : op.memoryManagementControlOperation = k
  match k, hop with
  | 0, hop => exact ⟨hc, hp, rfl⟩
  | 1, hop =>
    obtain ⟨hr, hf⟩ := hc.mmUnmarkShortTermForReference hp op.differenceOfPicNumsMinus1
    refine ⟨hr, hp, congrArg (·, p, mppOk) (c.modifyDpb_buf (by simp) ?_)⟩
    simpa only [Frm.manage, hop, updateRefList_frames] using hf
  | 2, hop =>
    obtain ⟨hr, hf⟩ := hc.unmarkLongTermWhere
      (q := fun _ f => f.isReference = .both && f.isLongTerm = .both &&
        f.frame.any (·.longTermPicNum = op.longTermPicNum))
      (Q := (· = op.longTermPicNum)) fun i hi s hs hu hl => by
        simp [hs.isReference, hs.isLongTerm hu, hs.frame, hu, hl,
          hc.lists.numbered i hi s hs.frame hu hl]
    have heq : mmUnmarkLongTermForReference c.dpb p op.longTermPicNum = _ := if_pos hp
    refine ⟨?_, hp, congrArg (·, p, mppOk) (c.modifyDpb_buf (by simp) ?_)⟩
    · change (updateLtrefList (mmUnmarkLongTermForReference c.dpb p op.longTermPicNum)).Ready
      rw [heq]
      exact hr.updateLtrefList
    · rw [updateLtrefList_frames, heq]
      simpa only [Frm.manage, hop] using hf
  | 3, hop =>
    obtain ⟨hr, hf⟩ := hc.mmAssignLongTermFrameIdx hp c.maxFrameNum
      op.differenceOfPicNumsMinus1 op.longTermFrameIdx
    refine ⟨hr, hp, congrArg (·, p, mppOk) (c.modifyDpb_buf (by simp) ?_)⟩
    simpa only [Frm.manage, hop, updateRefList_frames, updateLtrefList_frames] using hf
  | 4, hop =>
    obtain ⟨hr, hf⟩ := hc.mmUpdateMaxLongTermFrameIdx op.maxLongTermFrameIdxPlus1
    refine ⟨hr.updateLtrefList, hp, congrArg (·, p, mppOk) (c.modifyDpb_buf (by simp) ?_)⟩
    simpa only [Frm.manage, hop, updateLtrefList_frames] using hf
  | 5, hop =>
    obtain ⟨hr, hf⟩ := hc.mmUnmarkAllShortTermForReference
    obtain ⟨hr', hf'⟩ := hr.mmUpdateMaxLongTermFrameIdx 0
    refine ⟨hr', hp, congrArg (·, p, mppOk) ?_⟩
    refine (c.modifyDpb_buf (g := fun d => mmUpdateMaxLongTermFrameIdx
      (H264d.mmUnmarkAllShortTermForReference d) 0) ?_ ?_).symm ▸ rfl
    · rw [mmUpdateMaxLongTermFrameIdx_order, mmUnmarkAllShortTermForReference_order]
    · simpa only [Frm.manage, hop, hf, zero_sub] using hf'
  | 6, hop =>
    obtain ⟨hr, hf⟩ := hc.unmarkLongTermWhere
      (q := fun _ f => f.longTermFrameIdx = op.longTermFrameIdx)
      (Q := (· = op.longTermFrameIdx)) fun _ _ _ _ _ _ => rfl
    have heq : (mmMarkCurrentPictureLongTerm c.dpb c.maxFrameNum p op.longTermFrameIdx).1 = _ :=
      if_pos hp
    simp only [checkNumRef_eq, heq]
    refine ⟨hr, hp, congrArg (·, _, mppOk) (c.modifyDpb_buf
      (g := fun d => H264d.unmarkLongTermWhere d fun _ f =>
        f.longTermFrameIdx = op.longTermFrameIdx) (by simp) ?_)⟩
    simpa only [Frm.manage, hop] using hf
  | _ + 7, _ => exact ⟨hc, hp, rfl⟩

end Control

end Libmpp.H264d
