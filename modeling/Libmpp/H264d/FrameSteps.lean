import Libmpp.H264d.FrameBuf

/-!
# The buffer of frames step by step

Every operation of the buffer of frames is a sequence of elementary steps
(`FrmBuf.Steps`): a frame is written, an unused frame is removed, or the marks of the
references change. What holds of all elementary steps holds of the operations, so that
an invariant of the buffer is proved for three steps only.
-/

namespace Libmpp.H264d

open Relation List Option

/-- A frame whose mark changed: a frame does not become a reference when it is stored. -/
def Frm.Remarked (f f' : Frm) : Prop := ∃ r, f' = f.setRef r ∧ (r.isSome → f.ref.isSome)

theorem Frm.Remarked.refl (f : Frm) : f.Remarked f := ⟨f.ref, rfl, id⟩

theorem Frm.Remarked.trans {f g h : Frm} (hfg : f.Remarked g) (hgh : g.Remarked h) :
    f.Remarked h := by
  obtain ⟨r, rfl, hr⟩ := hfg
  obtain ⟨s, rfl, hs⟩ := hgh
  exact ⟨s, rfl, fun h => hr (hs h)⟩

/-- A change of one element at most. -/
theorem forall₂_modify {α : Type*} {r : α → α → Prop} (hr : ∀ x, r x x) {g : α → α} {l : List α}
    {k : ℕ} (hg : ∀ x, l[k]? = some x → r x (g x)) : List.Forall₂ r l (l.modify k g) := by
  induction l generalizing k with
  | nil => simp
  | cons x l ih =>
    cases k with
    | zero =>
      rw [modify_zero_cons]
      exact .cons (hg x rfl) (forall₂_same.2 fun y _ => hr y)
    | succ k =>
      rw [modify_succ_cons]
      exact .cons (hr x) (ih hg)

namespace FrmBuf

/-- An elementary step. -/
inductive Elem : FrmBuf → FrmBuf → Prop
  | write (b : FrmBuf) (k : ℕ) : Elem b (b.write k)
  | remove {b : FrmBuf} {k : ℕ} {f : Frm} : b.frames[k]? = some f → f.isUnused →
      Elem b (b.remove k)
  | mark {b b' : FrmBuf} : List.Forall₂ Frm.Remarked b.frames b'.frames →
      b'.mem = b.mem → Elem b b'

/-- A sequence of elementary steps. -/
abbrev Steps : FrmBuf → FrmBuf → Prop := ReflTransGen Elem

section Marks

variable {b b' : FrmBuf}

theorem remarked_refl (l : List Frm) : List.Forall₂ Frm.Remarked l l :=
  forall₂_same.2 fun f _ => .refl f

theorem map_remarked {g : Frm → Frm} (hg : ∀ f, Frm.Remarked f (g f)) (l : List Frm) :
    List.Forall₂ Frm.Remarked l (l.map g) := by
  rw [forall₂_map_right_iff]
  exact forall₂_same.2 fun f _ => hg f

/-- Frames that stay as they are. -/
theorem Elem.keep (hf : b'.frames = b.frames) (hm : b'.mem = b.mem) : Elem b b' :=
  .mark (hf ▸ remarked_refl _) hm

theorem Elem.map {g : Frm → Frm} (hg : ∀ f, Frm.Remarked f (g f)) :
    Elem b (b.modify (List.map g)) := .mark (map_remarked hg _) rfl

theorem Elem.modify {g : Frm → Frm} (hg : ∀ f, Frm.Remarked f (g f)) (k : ℕ) :
    Elem b (b.modify fun l => l.modify k g) :=
  .mark (forall₂_modify .refl fun f _ => hg f) rfl

theorem release_remarked (f : Frm) : f.Remarked (f.setRef none) := ⟨none, rfl, by simp⟩

theorem dropLong_remarked (q : ℤ → Bool) (f : Frm) : f.Remarked (f.dropLong q) := by
  unfold Frm.dropLong
  split
  · split
    · exact release_remarked f
    · exact .refl f
  · exact .refl f

theorem dropShort_remarked (f : Frm) : f.Remarked f.dropShort := by
  unfold Frm.dropShort
  split
  · exact release_remarked f
  · exact .refl f

theorem number_remarked (m n : ℤ) (f : Frm) : f.Remarked (f.number m n) :=
  ⟨_, rfl, by simp⟩

/-- The frame that is marked was a reference. -/
theorem setFirst_remarked (q : RefMark → Bool) (r : Option RefMark) (l : List Frm) :
    List.Forall₂ Frm.Remarked l (Frm.setFirst q r l) := by
  unfold Frm.setFirst
  split <;> rename_i hk
  · refine forall₂_modify .refl fun f hf => ⟨r, rfl, fun _ => ?_⟩
    obtain ⟨hlt, hq, -⟩ := findIdx?_eq_some_iff_getElem.1 hk
    rw [getElem?_eq_getElem hlt] at hf
    obtain rfl := some.inj hf
    exact isSome_of_any hq
  · exact remarked_refl l

theorem remarked_trans {l l' l'' : List Frm} (h : List.Forall₂ Frm.Remarked l l')
    (h' : List.Forall₂ Frm.Remarked l' l'') : List.Forall₂ Frm.Remarked l l'' := by
  induction h generalizing l'' with
  | nil => exact h'
  | cons hff _ ih =>
    cases h' with
    | cons hgg ht => exact .cons (hff.trans hgg) (ih ht)

theorem manage_remarked (op : Drpm) (n : ℤ) (l : List Frm) :
    List.Forall₂ Frm.Remarked l (Frm.manage op n l) := by
  unfold Frm.manage
  split
  · exact setFirst_remarked _ _ _
  · exact map_remarked (dropLong_remarked _) _
  · exact remarked_trans (map_remarked (dropLong_remarked _) _) (setFirst_remarked _ _ _)
  · exact map_remarked (dropLong_remarked _) _
  · exact remarked_trans (map_remarked dropShort_remarked _) (map_remarked (dropLong_remarked _) _)
  · exact map_remarked (dropLong_remarked _) _
  · exact remarked_refl l

end Marks

section Operations

variable {b b' : FrmBuf} {cfg : DecCfg}

theorem removeUnused_steps (h : b.removeUnused = some b') : Steps b b' := by
  obtain ⟨k, hk, rfl⟩ := map_eq_some_iff.1 h
  obtain ⟨hlt, hu, -⟩ := findIdx?_eq_some_iff_getElem.1 hk
  exact .single (.remove (getElem?_eq_getElem hlt) hu)

theorem purgeLoop_steps (n : ℕ) (b : FrmBuf) : Steps b (purgeLoop n b) := by
  induction n generalizing b with
  | zero => exact .refl
  | succ n ih =>
    rw [purgeLoop]
    cases h : b.removeUnused with
    | none => exact .refl
    | some b' => exact (removeUnused_steps h).trans (ih b')

theorem purge_steps (b : FrmBuf) : Steps b b.purge := purgeLoop_steps _ b

/-- A frame that is no reference is written and removed. -/
theorem write_remove_steps {k : ℕ} {f : Frm} (hk : b.frames[k]? = some f)
    (href : f.ref = none) : Steps b ((b.write k).remove k) := by
  refine (ReflTransGen.single (.write b k)).tail (.remove (f := { f with isOutput := true }) ?_ ?_)
  · rw [write_frames, getElem?_modify_eq, hk]
    rfl
  · simp [Frm.isUnused, href]

theorem outputOne_steps (b : FrmBuf) : Steps b b.outputOne := by
  rw [outputOne]
  cases hs : smallest b.frames with
  | none => exact .refl
  | some x =>
    obtain ⟨f, hf, -⟩ := (isSmallest_of_eq hs).get
    dsimp only
    split <;> rename_i href
    · exact .single (.write b _)
    · refine write_remove_steps hf ?_
      rw [hf] at href
      simpa using href

theorem outputLoop_steps (n : ℕ) (b : FrmBuf) : Steps b (outputLoop n b) := by
  induction n generalizing b with
  | zero => exact .refl
  | succ n ih =>
    rw [outputLoop]
    cases smallest b.frames with
    | none => exact .refl
    | some x =>
      dsimp only
      split
      · have hi : Steps b (b.updateInterval (x.1 - b.lastOutputPoc)) :=
          .single (.keep rfl rfl)
        split
        · exact (hi.tail (.write _ _)).trans (ih _)
        · exact hi
      · exact .refl

theorem outputNormal_steps (b : FrmBuf) : Steps b b.outputNormal :=
  (outputLoop_steps _ b).trans (purge_steps _)

theorem scan_steps (b : FrmBuf) : Steps b (b.scan cfg) := by
  have hwrite : Steps b (b.write (b.frames.length - 1)) := .single (.write b _)
  unfold scan
  dsimp only
  split
  · exact hwrite
  · split
    · exact outputNormal_steps b
    · split
      · exact hwrite
      · exact outputNormal_steps b
    · split
      · exact hwrite.tail (.keep rfl rfl)
      · exact (ReflTransGen.single (.keep rfl rfl)).trans (outputNormal_steps _)
    · exact .refl

theorem flushLoop_steps {n : ℕ} (h : flushLoop n b = some b') :
    Steps b b' ∧ b'.frames = [] := by
  induction n generalizing b with
  | zero =>
    rw [flushLoop] at h
    split at h
    · cases h
      exact ⟨.refl, by assumption⟩
    · cases h
  | succ n ih =>
    rw [flushLoop] at h
    split at h
    · cases h
      exact ⟨.refl, by assumption⟩
    · obtain ⟨hs, he⟩ := ih h
      exact ⟨(outputOne_steps b).trans hs, he⟩

theorem flush_steps (h : b.flush = some b') : Steps b b' ∧ b'.frames = [] := by
  obtain ⟨c, hc, rfl⟩ := map_eq_some_iff.1 h
  obtain ⟨hs, he⟩ := flushLoop_steps hc
  refine ⟨?_, he⟩
  have hr : Elem b (b.modify (List.map (Frm.setRef none))) := .map release_remarked
  exact (((ReflTransGen.single hr).trans (purge_steps _)).trans hs).tail (.keep rfl rfl)

theorem removeFirst_steps (b : FrmBuf) : Steps b b.removeFirst := by
  have hr : Elem b (b.modify fun l => l.modify 0 (Frm.setRef none)) := .modify release_remarked 0
  refine (ReflTransGen.single hr).trans ?_
  unfold removeFirst
  dsimp only
  have href : ∀ f, (b.modify fun l => l.modify 0 (Frm.setRef none)).frames[0]? = some f →
      f.ref = none := by
    intro f hf
    change (b.frames.modify 0 _)[0]? = _ at hf
    rw [getElem?_modify_eq] at hf
    obtain ⟨g, -, rfl⟩ := map_eq_some_iff.1 hf
    rfl
  generalize b.modify _ = c at *
  cases hf : c.frames[0]? with
  | none =>
    rw [map_none, getD_none, if_pos rfl, remove, hf]
  | some f =>
    rw [map_some, getD_some]
    split <;> rename_i ho
    · exact .single (.remove hf (by simp [Frm.isUnused, ho, href f hf]))
    · exact write_remove_steps hf (href f hf)

theorem makeRoom_steps {n : ℕ} {p : StorePic} {v : FrmBuf × StorePic × Room}
    (h : makeRoom cfg n b p = some v) : Steps b v.1 := by
  induction n generalizing b p with
  | zero =>
    rw [makeRoom] at h
    split at h <;> cases h
    exact .refl
  | succ n ih =>
    rw [makeRoom] at h
    split at h
    · have hu : Steps b (b.removeUnused.getD b) := by
        cases hr : b.removeUnused with
        | none => exact .refl
        | some b' => exact removeUnused_steps hr
      dsimp only at h
      generalize b.removeUnused.getD b = c at *
      split at h
      · cases h
        exact hu
      · refine (hu.trans ?_).trans (ih h)
        split
        · exact removeFirst_steps c
        · exact outputOne_steps c
    · cases h
      exact .refl

/-- An operation changes of the buffer how its frames are marked. -/
theorem control_remarked (b : FrmBuf) (p : StorePic) (op : Drpm) (isLast : Bool) :
    ∃ l, (b.control p op isLast).1 = { b with frames := l } ∧
      List.Forall₂ Frm.Remarked b.frames l := by
  unfold control
  split
  · exact ⟨_, rfl, remarked_refl _⟩
  iterate 6 exact ⟨_, rfl, manage_remarked op p.frameNum _⟩
  · exact ⟨_, rfl, remarked_refl _⟩

theorem controls_remarked (b : FrmBuf) (p : StorePic) (ops : List Drpm) :
    ∃ l, (b.controls p ops).1 = { b with frames := l } ∧
      List.Forall₂ Frm.Remarked b.frames l := by
  induction ops generalizing b p with
  | nil => exact ⟨_, rfl, remarked_refl _⟩
  | cons op ops ih =>
    obtain ⟨l, hl, hr⟩ := b.control_remarked p op ops.isEmpty
    rw [controls]
    split
    · exact ⟨l, hl, hr⟩
    · obtain ⟨l', hl', hr'⟩ :=
        ih (b.control p op ops.isEmpty).1 (b.control p op ops.isEmpty).2.1
      rw [hl] at hl' hr'
      exact ⟨l', hl ▸ hl', remarked_trans hr hr'⟩

theorem control_steps (b : FrmBuf) (p : StorePic) (op : Drpm) (isLast : Bool) :
    Steps b (b.control p op isLast).1 := by
  obtain ⟨l, hl, hr⟩ := b.control_remarked p op isLast
  rw [hl]
  exact .single (.mark hr rfl)

theorem controls_steps (b : FrmBuf) (p : StorePic) (ops : List Drpm) :
    Steps b (b.controls p ops).1 := by
  obtain ⟨l, hl, hr⟩ := b.controls_remarked p ops
  rw [hl]
  exact .single (.mark hr rfl)

theorem number_steps (b : FrmBuf) (p : StorePic) : Steps b (b.number cfg p) := by
  unfold number
  split
  · exact .refl
  · exact .single (.map (number_remarked _ _))

/-- The frames that an IDR frame starts anew from were all output, or are output now. -/
theorem idr_steps (h : b.idr false = some b') : Steps b b' ∧ b'.frames = [] := by
  obtain ⟨c, hc, rfl⟩ := map_eq_some_iff.1 h
  obtain ⟨hs, he⟩ := flush_steps hc
  exact ⟨hs.tail (.keep rfl rfl), he⟩

end Operations

end FrmBuf

end Libmpp.H264d
