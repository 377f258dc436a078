import Libmpp.H264d.FrameBuf

/-!
# Stores that hold frames

A frame store of a stream without fields holds a frame, possibly split into its two
fields, and its marks say the same in all places where they are kept
(`FrameStore.IsFrame`). What such a store is as a frame of the buffer
(`Frm.ofStore`), and what the operations on a store are there.
-/

namespace Libmpp.H264d

/-- A field made of a frame when it was split. -/
structure StorePic.IsFieldOf (t s : StorePic) (picStructure : PictureStructure) : Prop where
  picStructure : t.picStructure = picStructure
  malloc : t.memMallocType = .malloc
  mark : t.memMark = s.memMark
  used : t.usedForReference = s.usedForReference
  long : t.isLongTerm = s.isLongTerm

/-- The store holds the frame `s`. -/
structure FrameStore.IsFrame (f : FrameStore) (s : StorePic) : Prop where
  isUsed : f.isUsed = .both
  frame : f.frame = some s
  isFrame : s.picStructure = .frame
  malloc : s.memMallocType = .malloc
  mark : s.memMark.isSome
  isReference : f.isReference = if s.usedForReference then .both else .empty
  isLongTerm : s.usedForReference → f.isLongTerm = if s.isLongTerm then .both else .empty
  idx : s.usedForReference → s.isLongTerm → f.longTermFrameIdx = s.longTermFrameIdx
  fields : (f.topField = none ∧ f.bottomField = none) ∨
    ∃ t b, f.topField = some t ∧ f.bottomField = some b ∧
      t.IsFieldOf s .topField ∧ b.IsFieldOf s .bottomField

/-- The store holds a frame. -/
def FrameStore.HoldsFrame (f : FrameStore) : Prop := ∃ s, f.IsFrame s

/-- The store holds nothing. -/
structure FrameStore.IsEmpty (f : FrameStore) : Prop where
  isUsed : f.isUsed = .empty
  isReference : f.isReference = .empty
  isLongTerm : f.isLongTerm = .empty
  isOrigReference : f.isOrigReference = .empty
  frame : f.frame = none
  topField : f.topField = none
  bottomField : f.bottomField = none

/-- How a frame is marked. -/
def StorePic.ref (s : StorePic) (idx : ℤ) : Option RefMark :=
  if s.usedForReference then some (if s.isLongTerm then .long idx else .short s.picNum)
  else none

/-- The frame that a store holds. -/
def Frm.ofStore (f : FrameStore) : Frm where
  poc := f.poc
  frameNum := f.frameNum
  ref := f.frame.bind fun s => s.ref f.longTermFrameIdx
  isOutput := f.isOutput
  mark := (f.frame.bind (·.memMark)).getD 0
  uses := if f.topField.isSome then 2 else 1

namespace FrameStore.IsFrame

variable {f : FrameStore} {s : StorePic}

/-- A condition on the marks holds of some picture of the store as it does of the frame. -/
theorem anyPic (h : f.IsFrame s) {q : StorePic → Bool}
    (hq : ∀ t : StorePic, t.usedForReference = s.usedForReference →
      t.isLongTerm = s.isLongTerm → q t = q s) : f.anyPic q = q s := by
  rcases h.fields with ⟨ht, hb⟩ | ⟨t, b, ht, hb, htop, hbot⟩
  · simp [FrameStore.anyPic, h.isUsed, h.frame, ht, hb]
  · simp [FrameStore.anyPic, h.isUsed, h.frame, ht, hb, hq t htop.used htop.long,
      hq b hbot.used hbot.long]

theorem ref_eq (h : f.IsFrame s) : (Frm.ofStore f).ref = s.ref f.longTermFrameIdx := by
  simp [Frm.ofStore, h.frame]

theorem isShortTermReference (h : f.IsFrame s) :
    isShortTermReference f = (Frm.ofStore f).ref.any fun r => !r.isLong := by
  rw [h.ref_eq]
  refine (h.anyPic fun t hu hl => by simp [isShortRef, hu, hl]).trans ?_
  cases hu : s.usedForReference <;> cases hl : s.isLongTerm <;>
    simp [isShortRef, StorePic.ref, RefMark.isLong, hu, hl]

theorem isLongTermReference (h : f.IsFrame s) :
    isLongTermReference f = (Frm.ofStore f).ref.any RefMark.isLong := by
  rw [h.ref_eq]
  refine (h.anyPic fun t hu hl => by simp [isLongRef, hu, hl]).trans ?_
  cases hu : s.usedForReference <;> cases hl : s.isLongTerm <;>
    simp [isLongRef, StorePic.ref, RefMark.isLong, hu, hl]

theorem isUsedForReference (h : f.IsFrame s) :
    isUsedForReference f = (Frm.ofStore f).ref.isSome := by
  rw [h.ref_eq, H264d.isUsedForReference, h.anyPic fun t hu _ => hu, h.isReference]
  cases hu : s.usedForReference <;> simp [StorePic.ref, hu]

/-- A change of the marks of all pictures of a store. -/
theorem mapPics (h : f.IsFrame s) {g : StorePic → StorePic}
    (hg : ∀ t, (g t).picStructure = t.picStructure ∧ (g t).memMallocType = t.memMallocType ∧
      (g t).memMark = t.memMark)
    (hu : ∀ t : StorePic, t.usedForReference = s.usedForReference →
      (g t).usedForReference = (g s).usedForReference)
    (hl : ∀ t : StorePic, t.isLongTerm = s.isLongTerm → (g t).isLongTerm = (g s).isLongTerm)
    {ref long : Fields} {idx : ℤ}
    (href : ref = if (g s).usedForReference then .both else .empty)
    (hlong : (g s).usedForReference → long = if (g s).isLongTerm then .both else .empty)
    (hidx : (g s).usedForReference → (g s).isLongTerm → idx = (g s).longTermFrameIdx) :
    { f.mapPics g with isReference := ref, isLongTerm := long, longTermFrameIdx := idx }.IsFrame
      (g s) where
  isUsed := h.isUsed
  frame := by simp [FrameStore.mapPics, h.isUsed, h.frame]
  isFrame := (hg s).1.trans h.isFrame
  malloc := (hg s).2.1.trans h.malloc
  mark := by rw [(hg s).2.2]; exact h.mark
  isReference := href
  isLongTerm := hlong
  idx := hidx
  fields := by
    rcases h.fields with ⟨ht, hb⟩ | ⟨t, b, ht, hb, htop, hbot⟩
    · left
      simp [FrameStore.mapPics, ht, hb]
    · right
      refine ⟨g t, g b, ?_, ?_, ?_, ?_⟩
      · simp [FrameStore.mapPics, h.isUsed, ht]
      · simp [FrameStore.mapPics, h.isUsed, hb]
      · exact ⟨(hg t).1.trans htop.picStructure, (hg t).2.1.trans htop.malloc,
          by rw [(hg t).2.2, (hg s).2.2, htop.mark], hu t htop.used, hl t htop.long⟩
      · exact ⟨(hg b).1.trans hbot.picStructure, (hg b).2.1.trans hbot.malloc,
          by rw [(hg b).2.2, (hg s).2.2, hbot.mark], hu b hbot.used, hl b hbot.long⟩

theorem mapPics_frm (h : f.IsFrame s) {g : StorePic → StorePic}
    (hg : (g s).memMark = s.memMark) {ref long : Fields} {idx : ℤ} :
    Frm.ofStore
        { f.mapPics g with isReference := ref, isLongTerm := long, longTermFrameIdx := idx } =
      (Frm.ofStore f).setRef ((g s).ref idx) := by
  have ht : (f.mapPics g).topField.isSome = f.topField.isSome := by
    simp [FrameStore.mapPics, h.isUsed]
  simp only [Frm.ofStore, Frm.setRef, ht]
  simp [FrameStore.mapPics, h.isUsed, h.frame, hg]

theorem unmarkForReference (h : f.IsFrame s) :
    (unmarkForReference f).IsFrame { s with usedForReference := false } :=
  h.mapPics (g := fun t => { t with usedForReference := false }) (fun _ => ⟨rfl, rfl, rfl⟩)
    (fun _ _ => rfl) (fun _ ht => ht) rfl (by simp) (by simp)

theorem unmarkForReference_frm (h : f.IsFrame s) :
    Frm.ofStore (H264d.unmarkForReference f) = (Frm.ofStore f).setRef none :=
  h.mapPics_frm (g := fun t => { t with usedForReference := false }) rfl

theorem unmarkForLongTermReference (h : f.IsFrame s) :
    (unmarkForLongTermReference f).IsFrame
      { s with usedForReference := false, isLongTerm := false } :=
  h.mapPics (g := fun t => { t with usedForReference := false, isLongTerm := false })
    (fun _ => ⟨rfl, rfl, rfl⟩) (fun _ _ => rfl) (fun _ _ => rfl) rfl (by simp) (by simp)

theorem unmarkForLongTermReference_frm (h : f.IsFrame s) :
    Frm.ofStore (H264d.unmarkForLongTermReference f) = (Frm.ofStore f).setRef none :=
  h.mapPics_frm (g := fun t => { t with usedForReference := false, isLongTerm := false }) rfl

/-- The marking of a frame as long-term changes all pictures of the store. -/
theorem markFrameLongTerm_eq (h : f.IsFrame s) (i : ℤ) :
    markFrameLongTerm i f =
      { f.mapPics fun t =>
          { t with longTermFrameIdx := i, longTermPicNum := i, isLongTerm := true } with
        isReference := f.isReference, isLongTerm := .both, longTermFrameIdx := i } := by
  rcases h.fields with ⟨ht, hb⟩ | ⟨t, b, ht, hb, -, -⟩ <;>
    simp [markFrameLongTerm, FrameStore.mapPics, h.isUsed, ht, hb]

theorem markFrameLongTerm (h : f.IsFrame s) (i : ℤ) :
    (markFrameLongTerm i f).IsFrame
      { s with longTermFrameIdx := i, longTermPicNum := i, isLongTerm := true } := by
  rw [h.markFrameLongTerm_eq]
  exact h.mapPics
    (g := fun t => { t with longTermFrameIdx := i, longTermPicNum := i, isLongTerm := true })
    (fun _ => ⟨rfl, rfl, rfl⟩) (fun _ ht => ht) (fun _ _ => rfl) h.isReference
    (fun _ => rfl) (fun _ _ => rfl)

theorem markFrameLongTerm_frm (h : f.IsFrame s) (hs : s.usedForReference) (i : ℤ) :
    Frm.ofStore (H264d.markFrameLongTerm i f) = (Frm.ofStore f).setRef (some (.long i)) := by
  rw [h.markFrameLongTerm_eq, h.mapPics_frm rfl]
  simp [StorePic.ref, hs]

/-- Numbers of the frame are no marks. -/
theorem mapFrame (h : f.IsFrame s) {t : StorePic}
    (hs : t.picStructure = s.picStructure ∧ t.memMallocType = s.memMallocType ∧
      t.memMark = s.memMark ∧ t.usedForReference = s.usedForReference ∧
      t.isLongTerm = s.isLongTerm ∧ t.longTermFrameIdx = s.longTermFrameIdx) {n : ℤ} :
    { f with frame := some t, frameNumWrap := n }.IsFrame t := by
  obtain ⟨h₁, h₂, h₃, h₄, h₅, h₆⟩ := hs
  refine ⟨h.isUsed, rfl, h₁.trans h.isFrame, h₂.trans h.malloc, h₃ ▸ h.mark, ?_, ?_, ?_, ?_⟩
  · rw [h₄]; exact h.isReference
  · rw [h₄, h₅]; exact h.isLongTerm
  · rw [h₄, h₅, h₆]; exact h.idx
  · rcases h.fields with hno | ⟨u, b, ht, hb, htop, hbot⟩
    · exact .inl hno
    · refine .inr ⟨u, b, ht, hb, ?_, ?_⟩
      · exact ⟨htop.picStructure, htop.malloc, by rw [h₃, htop.mark], by rw [h₄, htop.used],
          by rw [h₅, htop.long]⟩
      · exact ⟨hbot.picStructure, hbot.malloc, by rw [h₃, hbot.mark], by rw [h₄, hbot.used],
          by rw [h₅, hbot.long]⟩

end FrameStore.IsFrame

/-- The numbers of the frame of a store are those of its marks. -/
def FrameStore.Numbered (f : FrameStore) : Prop :=
  ∀ s, f.frame = some s → s.usedForReference → s.isLongTerm →
    s.longTermPicNum = f.longTermFrameIdx

namespace FrameStore.IsFrame

variable {f : FrameStore} {s : StorePic}

theorem numberShortFrame (h : f.IsFrame s) (m n : ℤ) :
    (numberShortFrame m n f).HoldsFrame := by
  unfold H264d.numberShortFrame
  split
  · refine ⟨{ s with picNum := H264d.frameNumWrap f.frameNum m n }, ?_⟩
    have := h.mapFrame (t := { s with picNum := H264d.frameNumWrap f.frameNum m n })
      (n := H264d.frameNumWrap f.frameNum m n) ⟨rfl, rfl, rfl, rfl, rfl, rfl⟩
    simpa [h.frame] using this
  · exact ⟨s, h⟩

theorem numberShortFrame_frm (h : f.IsFrame s) (m n : ℤ) :
    Frm.ofStore (H264d.numberShortFrame m n f) = (Frm.ofStore f).number m n := by
  unfold H264d.numberShortFrame Frm.number Frm.setRef
  cases hu : s.usedForReference <;> cases hl : s.isLongTerm <;>
    simp [Frm.ofStore, h.isUsed, h.frame, isShortRef, StorePic.ref, hu, hl]

theorem numberLongFrame (h : f.IsFrame s) : (numberLongFrame f).HoldsFrame := by
  unfold H264d.numberLongFrame
  rw [if_pos h.isUsed, h.frame, Option.map_some]
  refine ⟨_, h.mapFrame (n := f.frameNumWrap) ?_⟩
  split <;> exact ⟨rfl, rfl, rfl, rfl, rfl, rfl⟩

theorem numberLongFrame_frm (h : f.IsFrame s) :
    Frm.ofStore (H264d.numberLongFrame f) = Frm.ofStore f := by
  unfold H264d.numberLongFrame
  cases hl : s.isLongTerm <;> simp [Frm.ofStore, h.isUsed, h.frame, StorePic.ref, hl]

theorem numberLongFrame_numbered (h : f.IsFrame s) :
    (H264d.numberLongFrame f).Numbered := by
  unfold H264d.numberLongFrame
  rw [if_pos h.isUsed, h.frame, Option.map_some]
  intro t ht hu hl
  obtain rfl := Option.some.inj ht
  split at hu
  · rename_i hsl
    rw [if_pos hsl]
    exact (h.idx hu hsl).symm
  · rename_i hsl
    rw [if_neg hsl] at hl
    exact absurd hl hsl

end FrameStore.IsFrame

end Libmpp.H264d
