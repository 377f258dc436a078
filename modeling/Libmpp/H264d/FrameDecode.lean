import Libmpp.H264d.FrameOutput
import Libmpp.Lib.Machine

/-!
# The decoding of frames

For a stream of frames the decoder's buffer is a buffer of frames: what the decoder does
for a frame (`decodePicture`) is what the buffer of frames does (`FrmBuf.decode`), and the
buffer holds frames only again (`decodePicture_buf`).
-/

namespace Libmpp.H264d

open Base Function List Option

/-! ## The settings -/

section Conforms

variable {c c' : VideoCtx} {cfg : DecCfg}

/-- What is noted of a picture is no setting of the configuration. -/
theorem VideoCtx.Conforms.of_noted (h : c.Conforms cfg) {b q : Bool}
    (hs : c'.settings = { c.settings with lastHasMmco5 := b, lastPicBottomField := q }) :
    c'.Conforms cfg :=
  (show { c with lastHasMmco5 := b, lastPicBottomField := q : VideoCtx }.Conforms cfg from
    ⟨h.size, h.numRefFrames, h.maxFrameNum, h.maxBufSize, h.fastOut,
      h.enableFastPlay⟩).of_settings hs

theorem memoryManagementControl_conforms (h : c.Conforms cfg) (p : StorePic) (op : Drpm)
    (isLast : Bool) : (memoryManagementControl c p op isLast).1.Conforms cfg :=
  h.of_noted (memoryManagementControl_settings c p op isLast)

theorem memoryManagementControls_conforms (h : c.Conforms cfg) (p : StorePic)
    (ops : List Drpm) : (memoryManagementControls c p ops).1.Conforms cfg := by
  induction ops generalizing c p with
  | nil => exact h
  | cons op ops ih =>
    have hc := memoryManagementControl_conforms h p op ops.isEmpty
    rw [memoryManagementControls]
    split
    · exact hc
    · exact ih hc _

end Conforms

/-! ## The marking -/

section Marking

variable {c : VideoCtx} {p : StorePic} {cfg : DecCfg}

/-- A frame in the memory of a mark. -/
structure StorePic.InMemory (p : StorePic) : Prop where
  isFrame : p.picStructure = .frame
  malloc : p.memMallocType = .malloc
  mark : p.memMark.isSome

/-- An operation changes of a picture how it is marked. -/
theorem FrmBuf.control_inMemory (hp : p.InMemory) (b : FrmBuf) (op : Drpm) (isLast : Bool) :
    (b.control p op isLast).2.1.InMemory := by
  unfold FrmBuf.control
  split <;> exact ⟨hp.isFrame, hp.malloc, hp.mark⟩

/-- The operations of a frame in turn. -/
theorem memoryManagementControls_buf (hc : c.dpb.Ready) (hp : p.InMemory) (ops : List Drpm) :
    (memoryManagementControls c p ops).1.dpb.FramesOnly ∧
      (memoryManagementControls c p ops).2.1.InMemory ∧
      ((memoryManagementControls c p ops).1.buf, (memoryManagementControls c p ops).2) =
        c.buf.controls p ops := by
  induction ops generalizing c p with
  | nil => exact ⟨hc.only, hp, rfl⟩
  | cons op ops ih =>
    obtain ⟨hr, -, hb⟩ := memoryManagementControl_buf hc hp.isFrame op ops.isEmpty
    have hmem := FrmBuf.control_inMemory hp c.buf op ops.isEmpty
    rw [memoryManagementControls, FrmBuf.controls, ← hb]
    rw [← hb] at hmem
    split
    · exact ⟨hr.only, hmem, rfl⟩
    · exact ih hr hmem

/-- What the marking by a frame leaves. -/
structure MarkRet.Leaves (cfg : DecCfg) (w : MarkRet) (v : FrmBuf × StorePic × MppRet) :
    Prop where
  only : w.1.dpb.FramesOnly
  conforms : w.1.Conforms cfg
  inMemory : w.2.1.InMemory
  eq : (w.1.buf, w.2) = v

theorem FrameStore.IsFrame.holdsOutput {f : FrameStore} {s : StorePic} (h : f.IsFrame s) :
    { f with isOutput := true }.HoldsFrame := ⟨s, h.output⟩

theorem idrMemoryManagement_buf (hc : c.dpb.FramesOnly) (hs : c.Conforms cfg)
    (hp : p.InMemory) :
    Option.Rel (MarkRet.Leaves cfg) (idrMemoryManagement c p)
      ((c.buf.idr p.noOutputOfPriorPicsFlag).map fun b =>
        (b, if p.longTermReferenceFlag then { p with isLongTerm := true, longTermFrameIdx := 0 }
          else { p with isLongTerm := false }, mppOk)) := by
  obtain ⟨hu, hf⟩ := hc.mapUsed (g := fun f => { f with isOutput := true })
    (r := fun f => { f with isOutput := true }) fun f s hs => ⟨hs.holdsOutput, rfl⟩
  have hb := c.modifyDpb_buf (g := fun d =>
    d.used.foldl (fun d i => d.modify i fun f => { f with isOutput := true }) d)
    (foldl_modify_order _ _ _) hf
  have hset := c.modifyDpb_settings_of_order (g := fun d =>
    d.used.foldl (fun d i => d.modify i fun f => { f with isOutput := true }) d)
    (foldl_modify_order _ _ _)
  -- The frames are counted as output, or not.
  have hprior : ∀ c₀, c₀ = (if p.noOutputOfPriorPicsFlag then
        c.modifyDpb fun d =>
          d.used.foldl (fun d i => d.modify i fun f => { f with isOutput := true }) d
      else c) → c₀.dpb.FramesOnly ∧ c₀.Conforms cfg ∧
        c₀.buf = if p.noOutputOfPriorPicsFlag then
          c.buf.modify (List.map fun f => { f with isOutput := true }) else c.buf := by
    rintro c₀ rfl
    split
    · exact ⟨hu, hs.of_settings hset, hb⟩
    · exact ⟨hc, hs, rfl⟩
  unfold idrMemoryManagement FrmBuf.idr
  generalize hc₀ : (if p.noOutputOfPriorPicsFlag then _ else c) = c₀
  obtain ⟨h₀, hs₀, hb₀⟩ := hprior c₀ hc₀.symm
  rw [← hb₀, Option.map_map]
  refine rel_map (flushDpb_buf h₀) fun w b hw hl => ?_
  have hset' := flushDpb_settings c₀ hw
  obtain ⟨hok, ho, rfl⟩ := hl
  rw [hok, if_neg (show ¬mppOk < 0 by decide)]
  refine ⟨⟨ho.nodup, ho.length, ho.used_le, ho.free, ho.frame, ho.out⟩, ?_, ?_, rfl⟩
  · exact hs₀.of_settings hset'
  · dsimp only
    split <;> exact ⟨hp.isFrame, hp.malloc, hp.mark⟩

theorem StorePic.InMemory.resetPicNums (hp : p.InMemory) : (resetPicNums p).InMemory := by
  obtain ⟨hf, ha, hm⟩ := hp
  simp only [H264d.resetPicNums, hf]
  exact ⟨rfl, ha, hm⟩

theorem adaptiveMemoryManagement_buf (hc : c.dpb.Ready) (hs : c.Conforms cfg)
    (hp : p.InMemory) (hidr : p.idrFlag = false) (hada : p.adaptiveRefPicBufferingFlag) :
    Option.Rel (MarkRet.Leaves cfg) (adaptiveMemoryManagement c p)
      (let w := c.buf.controls p p.decRefPicMarkingBuffer
        if w.2.2 < 0 then some w
        else if hasMmco5 p.decRefPicMarkingBuffer then
          w.1.flush.map fun b => (b, H264d.resetPicNums w.2.1, mppOk)
        else some (w.1, w.2.1, mppOk)) := by
  obtain ⟨ho, hmem, hb⟩ := memoryManagementControls_buf
    (c := { c with lastHasMmco5 := false }) hc hp p.decRefPicMarkingBuffer
  have hconf := memoryManagementControls_conforms (c := { c with lastHasMmco5 := false })
    (hs.of_noted (q := c.lastPicBottomField) rfl) p p.decRefPicMarkingBuffer
  have hset := fun hok => memoryManagementControls_settings _ _
    (Eq.refl (memoryManagementControls { c with lastHasMmco5 := false } p
      p.decRefPicMarkingBuffer)) hok
  change _ = c.buf.controls p p.decRefPicMarkingBuffer at hb
  rw [adaptiveMemoryManagement, if_neg (by simp [hidr, hada]), ← hb]
  dsimp only
  generalize memoryManagementControls _ p p.decRefPicMarkingBuffer = w at *
  split <;> rename_i hneg
  · exact .some ⟨ho, hconf, hmem, rfl⟩
  · have h5 : w.1.lastHasMmco5 = hasMmco5 p.decRefPicMarkingBuffer := by
      simpa [VideoCtx.settings] using congrArg Settings.lastHasMmco5 (hset (not_lt.1 hneg))
    rw [h5]
    split
    · refine rel_map (flushDpb_buf ho) fun x b hx hl => ?_
      obtain ⟨hok, hx', rfl⟩ := hl
      refine ⟨hx', hconf.of_settings (flushDpb_settings w.1 hx), hmem.resetPicNums, ?_⟩
      rw [hok]
      rfl
    · exact .some ⟨ho, hconf, hmem, rfl⟩

theorem markReferences_buf (hc : c.dpb.FramesOnly) (hr : p.idrFlag = false → c.dpb.Ready)
    (hs : c.Conforms cfg) (hp : p.InMemory) :
    Option.Rel (MarkRet.Leaves cfg) (markReferences c p) (c.buf.mark p) := by
  unfold markReferences FrmBuf.mark StorePic.isAdaptive
  split <;> rename_i hidr
  · exact idrMemoryManagement_buf hc hs hp
  · rw [Bool.not_eq_true] at hidr
    simp only [hidr, Bool.not_false, Bool.true_and]
    split <;> rename_i hada
    · rw [Bool.and_eq_true] at hada
      exact adaptiveMemoryManagement_buf (hr hidr) hs hp hidr hada.2
    · exact .some ⟨hc, hs, hp, rfl⟩

end Marking

/-! ## The numbers -/

section Numbers

variable {d : DpbBuf}

/-- Of the references, the short-term ones get their number. -/
theorem Frm.number_of_not_short {f : Frm} (h : f.ref.any (fun r => !r.isLong) = false)
    (m n : ℤ) : f.number m n = f := by
  obtain ⟨poc, num, _ | _ | i, o, k, u⟩ := f
  · rfl
  · simp [RefMark.isLong] at h
  · rfl

theorem Frm.number_short (f : Frm) (m n : ℤ) :
    (f.number m n).ref.any (fun r => !r.isLong) = f.ref.any fun r => !r.isLong := by
  obtain ⟨poc, num, _ | _ | i, o, k, u⟩ := f <;> rfl

theorem Frm.number_long (f : Frm) (m n : ℤ) :
    (f.number m n).ref.any RefMark.isLong = f.ref.any RefMark.isLong := by
  obtain ⟨poc, num, _ | _ | i, o, k, u⟩ := f <;> rfl

/-- The lists are exact, and the references have their numbers. -/
structure DpbBuf.IsNumbered (d : DpbBuf) : Prop extends d.Ready where
  ltref : d.fsLtref = d.used.filter fun i => isLongTermReference (d.stores i)

theorem updatePicNum_ready (h : d.FramesOnly) {p : StorePic} (hp : p.picStructure = .frame)
    (hidr : p.idrFlag = false) (m : ℤ) :
    (updatePicNum (updateLtrefList (updateRefList d)) m p).IsNumbered ∧
      (updatePicNum (updateLtrefList (updateRefList d)) m p).frames =
        d.frames.map (Frm.number m p.frameNum) := by
  obtain ⟨e, he⟩ : ∃ e, updatePicNum (updateLtrefList (updateRefList d)) m p = e := ⟨_, rfl⟩
  rw [he]
  have ho : e.order = d.order := by
    rw [← he]
    simp
  have hu := DpbBuf.FramesOnly.used_of_order ho
  unfold updatePicNum at he
  simp only [hidr, hp, if_true, Bool.false_eq_true, if_false] at he
  have hlist : ((updateLtrefList (updateRefList d)).fsRef.foldl (fun d i => d.modify i
      (numberShortFrame m p.frameNum)) (updateLtrefList (updateRefList d))).fsLtref =
        d.used.filter fun i => isLongTermReference (d.stores i) := by
    rw [foldl_modify_all_eq]
    rfl
  have hfs : e.fsRef = d.used.filter (fun i => isShortTermReference (d.stores i)) ∧
      e.fsLtref = d.used.filter fun i => isLongTermReference (d.stores i) := by
    rw [← he, foldl_modify_all_eq, foldl_modify_all_eq]
    exact ⟨rfl, rfl⟩
  have hloop (j : ℕ) : e.stores j =
      if j ∈ d.used ∧ isLongTermReference (d.stores j) then
        numberLongFrame (if j ∈ d.used ∧ isShortTermReference (d.stores j) then
          numberShortFrame m p.frameNum (d.stores j) else d.stores j)
      else if j ∈ d.used ∧ isShortTermReference (d.stores j) then
        numberShortFrame m p.frameNum (d.stores j)
      else d.stores j := by
    have hstep := foldl_modify_all_stores (h.used_nodup.filter fun i =>
      isShortTermReference (d.stores i)) (updateLtrefList (updateRefList d))
      (numberShortFrame m p.frameNum) j
    rw [← he, hlist, foldl_modify_all_stores (h.used_nodup.filter _)]
    simp only [mem_filter] at hstep ⊢
    exact hstep ▸ rfl
  have hst (j : ℕ) (hj : j ∈ d.used) : e.stores j =
      if isLongTermReference (d.stores j) then numberLongFrame (d.stores j)
      else if isShortTermReference (d.stores j) then numberShortFrame m p.frameNum (d.stores j)
      else d.stores j := by
    rw [hloop]
    simp only [hj, true_and]
    split <;> rename_i hl
    · rw [h.not_short_of_long hj hl, if_neg Bool.false_ne_true]
    · rfl
  have hout (j : ℕ) (hj : j ∉ d.used) : e.stores j = d.stores j := by
    simp [hloop, hj]
  have hfrm (j : ℕ) (hj : j ∈ d.used) : (e.stores j).HoldsFrame ∧ (e.stores j).Numbered ∧
      Frm.ofStore (e.stores j) = (Frm.ofStore (d.stores j)).number m p.frameNum := by
    obtain ⟨s, hs⟩ := h.frame j hj
    rw [hst j hj, hs.isLongTermReference, hs.isShortTermReference]
    split <;> rename_i hl
    · refine ⟨hs.numberLongFrame, hs.numberLongFrame_numbered, ?_⟩
      rw [hs.numberLongFrame_frm, Frm.number_of_not_short]
      revert hl
      cases (Frm.ofStore (d.stores j)).ref <;> simp
    · have hnum : ∀ f : FrameStore, (Frm.ofStore f).ref.any RefMark.isLong = false →
          f.HoldsFrame → f.Numbered := by
        rintro f hf ⟨t, ht⟩ u hut huu hul
        rw [ht.ref_eq] at hf
        obtain rfl := some.inj (ht.frame.symm.trans hut)
        simp [StorePic.ref, huu, hul, RefMark.isLong] at hf
      rw [Bool.not_eq_true] at hl
      split <;> rename_i hsh
      · refine ⟨hs.numberShortFrame _ _, hnum _ ?_ (hs.numberShortFrame _ _), ?_⟩
        · rw [hs.numberShortFrame_frm, Frm.number_long, hl]
        · exact hs.numberShortFrame_frm _ _
      · rw [Bool.not_eq_true] at hsh
        exact ⟨⟨s, hs⟩, hnum _ hl ⟨s, hs⟩, (Frm.number_of_not_short hsh _ _).symm⟩
  have honly : e.FramesOnly := h.of_order ho (fun i hi => (hfrm i hi).1) hout
  have hshort (j : ℕ) (hj : j ∈ d.used) :
      isShortTermReference (e.stores j) = isShortTermReference (d.stores j) := by
    obtain ⟨s, hs⟩ := h.frame j hj
    obtain ⟨⟨t, ht⟩, -, hf⟩ := hfrm j hj
    rw [ht.isShortTermReference, hs.isShortTermReference, hf, Frm.number_short]
  have hlong (j : ℕ) (hj : j ∈ d.used) :
      isLongTermReference (e.stores j) = isLongTermReference (d.stores j) := by
    obtain ⟨s, hs⟩ := h.frame j hj
    obtain ⟨⟨t, ht⟩, -, hf⟩ := hfrm j hj
    rw [ht.isLongTermReference, hs.isLongTermReference, hf, Frm.number_long]
  have href : e.fsRef = e.used.filter fun i => isShortTermReference (e.stores i) := by
    rw [hfs.1, hu]
    exact filter_congr fun j hj => (hshort j hj).symm
  have hlt : e.fsLtref = e.used.filter fun i => isLongTermReference (e.stores i) := by
    rw [hfs.2, hu]
    exact filter_congr fun j hj => (hlong j hj).symm
  refine ⟨⟨⟨honly, ?_⟩, hlt⟩, ?_⟩
  · have hl := honly.listsOk fun i hi => (hfrm i (hu ▸ hi)).2.1
    rwa [updateRefList, ← href, updateLtrefList, ← hlt] at hl
  · rw [DpbBuf.frames, hu]
    exact Heap.view_eq_map fun i hi => (hfrm i hi).2.2

/-- The numbering of the references by a frame. -/
theorem numberReferences_buf {c : VideoCtx} {p : StorePic} {cfg : DecCfg}
    (h : c.dpb.FramesOnly) (hs : c.Conforms cfg) (hp : p.picStructure = .frame) :
    (numberReferences c p).dpb.FramesOnly ∧
      (p.idrFlag = false → (numberReferences c p).dpb.IsNumbered) ∧
      (numberReferences c p).buf = c.buf.number cfg p := by
  cases hidr : p.idrFlag with
  | true =>
    have heq : numberReferences c p =
        c.modifyDpb fun d => updateLtrefList (updateRefList d) := by
      simp [numberReferences, updatePicNum, hidr]
    rw [heq, FrmBuf.number, if_pos hidr]
    exact ⟨h.updateRefList.updateLtrefList, by simp, rfl⟩
  | false =>
    obtain ⟨hn, hf⟩ := updatePicNum_ready h hp hidr c.maxFrameNum
    refine ⟨hn.only, fun _ => hn, ?_⟩
    rw [FrmBuf.number, hidr, if_neg Bool.false_ne_true, ← hs.maxFrameNum]
    exact c.modifyDpb_buf (by simp) hf

/-- Counts of two conditions of which each element meets one at most. -/
theorem countP_add_countP {α : Type*} {p q r : α → Bool} {l : List α}
    (h : ∀ x ∈ l, (p x && q x) = false ∧ (p x || q x) = r x) :
    l.countP p + l.countP q = l.countP r := by
  induction l with
  | nil => rfl
  | cons x l ih =>
    have hl := ih fun y hy => h y (mem_cons_of_mem _ hy)
    obtain ⟨hand, hor⟩ := h x mem_cons_self
    rw [countP_cons, countP_cons, countP_cons, ← hl, ← hor]
    cases hp : p x <;> cases hq : q x <;> simp_all <;> omega

/-- The number of short-term and long-term references in the buffer. -/
def DpbBuf.refFrames (d : DpbBuf) : ℕ :=
  d.used.countP (fun i => isShortTermReference (d.stores i)) +
    d.used.countP fun i => isLongTermReference (d.stores i)

theorem DpbBuf.FramesOnly.refFrames_eq (h : d.FramesOnly) :
    d.refFrames = Frm.numRefs d.frames := by
  have hcount : d.refFrames =
      d.used.countP fun i => (Frm.ofStore (d.stores i)).ref.isSome := by
    refine countP_add_countP fun i hi => ?_
    obtain ⟨s, hs⟩ := h.frame i hi
    rw [hs.isShortTermReference, hs.isLongTermReference]
    cases (Frm.ofStore (d.stores i)).ref with
    | none => exact ⟨rfl, rfl⟩
    | some r => cases r <;> exact ⟨rfl, rfl⟩
  rw [hcount, Frm.numRefs, DpbBuf.frames, Heap.view, countP_map]
  rfl

/-- Exact lists count the references. -/
theorem DpbBuf.IsNumbered.length_lists (h : d.IsNumbered) :
    d.fsRef.length + d.fsLtref.length = Frm.numRefs d.frames := by
  rw [h.lists.ref, h.ltref, ← countP_eq_length_filter, ← countP_eq_length_filter,
    ← h.only.refFrames_eq]
  rfl

end Numbers

/-! ## Room -/

section Room

variable {c : VideoCtx} {p : StorePic} {cfg : DecCfg}

theorem StorePic.InMemory.memMark (hp : p.InMemory) : p.memMark = some (p.memMark.getD 0) := by
  obtain ⟨m, hm⟩ := isSome_iff_exists.1 hp.mark
  rw [hm]
  rfl

theorem directOutput_buf (h : c.dpb.FramesOnly) (hp : p.InMemory) :
    ∃ c', directOutput c p = (c', mppOk) ∧ c'.dpb.FramesOnly ∧ c'.buf = c.buf.output p := by
  obtain ⟨hdpb, hbuf⟩ := writePicture_mem (c := c) hp.isFrame hp.malloc hp.memMark
  obtain ⟨hdpb', hbuf'⟩ := freeStorablePicture_mem
    (c := (writePicture c p).modifyDpb fun d => { d with lastOutputPoc := p.poc })
    hp.isFrame hp.malloc hp.memMark
  rw [directOutput, hp.isFrame]
  simp only [flushDirectOutput_eq h.out, funCheck_ok]
  refine ⟨_, rfl, ?_, ?_⟩
  · rw [VideoCtx.modifyDpb_dpb, hdpb', VideoCtx.modifyDpb_dpb, hdpb]
    exact ⟨h.nodup, h.length, h.used_le, h.free, h.frame, ⟨rfl, h.out.isReference,
      h.out.isLongTerm, h.out.isOrigReference, h.out.frame, h.out.topField,
      h.out.bottomField⟩⟩
  · refine Eq.trans (b := (freeStorablePicture ((writePicture c p).modifyDpb fun d =>
      { d with lastOutputPoc := p.poc }) (some p)).buf) rfl (hbuf'.trans ?_)
    rw [show ((writePicture c p).modifyDpb fun d => { d with lastOutputPoc := p.poc }).buf =
      { (writePicture c p).buf with lastOutputPoc := p.poc } from rfl, hbuf]
    rfl

theorem isFull_eq (h : c.dpb.FramesOnly) (hs : c.Conforms cfg) :
    isFull c = c.buf.isFull cfg := by
  rw [isFull, FrmBuf.isFull, hs.size, hs.maxBufSize, VideoCtx.buf_frames, h.frames_length]

theorem comesFirst_eq (c : VideoCtx) (p : StorePic) :
    comesFirst c.dpb p = c.buf.comesFirst p := by
  rw [comesFirst, getSmallestPoc_eq, FrmBuf.comesFirst, VideoCtx.buf_frames]

theorem removeFirst_buf (h : c.dpb.FramesOnly) (hpos : 0 < c.dpb.usedSize) :
    ∃ c', removeFirst c = (c', mppOk) ∧ c'.dpb.FramesOnly ∧ c'.buf = c.buf.removeFirst := by
  obtain ⟨s, hs⟩ := h.frame _ (h.getD_mem_used hpos)
  obtain ⟨c₁, hc₁⟩ : ∃ c₁, c.modifyDpb (fun d =>
    d.modify (c.dpb.fs.getD 0 0) unmarkForReference) = c₁ := ⟨_, rfl⟩
  have h₁ : c₁.dpb.FramesOnly := by
    rw [← hc₁]
    exact h.modify (h.getD_mem_used hpos) ⟨_, hs.unmarkForReference⟩
  have hb₁ : c₁.buf = c.buf.modify fun l => l.modify 0 (Frm.setRef none) := by
    rw [← hc₁]
    exact c.modifyDpb_buf (DpbBuf.modify_order _ _ _)
      (h.modify_frames (h.getElem?_used hpos) hs.unmarkForReference_frm)
  have hfs : c₁.dpb.fs = c.dpb.fs := by rw [← hc₁]; rfl
  have hpos₁ : 0 < c₁.dpb.usedSize := by rw [← hc₁]; exact hpos
  have hget : c₁.buf.frames[0]? = _ := h₁.getElem?_frames hpos₁
  have heq : removeFirst c = funCheck
      (if (c₁.dpb.stores (c₁.dpb.fs.getD 0 0)).isOutput then (c₁, mppOk)
        else writeStoredFrame c₁ (c₁.dpb.fs.getD 0 0))
      fun c => (removeFrameFromDpb c 0, mppOk) := by
    rw [hfs, ← hc₁]
    rfl
  rw [heq, FrmBuf.removeFirst, ← hb₁]
  simp only [hget, map_some, getD_some]
  change ∃ c', funCheck (if (Frm.ofStore _).isOutput then _ else _) _ = _ ∧ _
  split
  · obtain ⟨hr, hb⟩ := removeFrameFromDpb_buf h₁ hpos₁
    exact ⟨_, rfl, hr, hb⟩
  · obtain ⟨c₂, hw, h₂, hb₂⟩ := writeStoredFrame_buf h₁ hpos₁
    have hpos₂ : 0 < c₂.dpb.usedSize := by
      rw [← h₂.frames_length, ← VideoCtx.buf_frames, hb₂, FrmBuf.write_frames,
        length_modify, VideoCtx.buf_frames, h₁.frames_length]
      exact hpos₁
    obtain ⟨hr, hb⟩ := removeFrameFromDpb_buf h₂ hpos₂
    rw [hw]
    exact ⟨_, rfl, hr, hb₂ ▸ hb⟩

/-- What the making of room leaves. -/
def RoomRet.Leaves (cfg : DecCfg) (w : RoomRet) (v : FrmBuf × StorePic × Room) : Prop :=
  w.1.dpb.FramesOnly ∧ w.2.2.2 = mppOk ∧ w.2.2.1 = v.2.2 ∧
    match v.2.2 with
    | .output => w.1.buf = v.1.output v.2.1
    | .store => w.1.buf = v.1 ∧ w.2.1 = v.2.1 ∧ v.2.1.InMemory ∧ v.1.isFull cfg = false

theorem makeRoom_buf (n : ℕ) (h : c.dpb.FramesOnly) (hs : c.Conforms cfg) (hpos : 0 < cfg.size)
    (hclean : c.buf.Clean) (hp : p.InMemory) :
    Option.Rel (RoomRet.Leaves cfg) (makeRoom n c p) (FrmBuf.makeRoom cfg n c.buf p) := by
  induction n generalizing c p with
  | zero =>
    simp only [makeRoom, FrmBuf.makeRoom, isFull_eq h hs]
    split <;> rename_i hfull
    · exact .none
    · exact .some ⟨h, rfl, rfl, rfl, rfl, hp, by simpa using hfull⟩
  | succ n ih =>
    simp only [makeRoom, FrmBuf.makeRoom, isFull_eq h hs]
    split <;> rename_i hfull
    · have hused : 0 < c.dpb.usedSize := by
        rw [FrmBuf.isFull, VideoCtx.buf_frames, h.frames_length] at hfull
        simp at hfull
        omega
      -- There is nothing to remove, as it was before the loop.
      have hb : c.buf.removeUnused = none := (FrmBuf.removeUnused_eq_none _).2 hclean
      have hc : removeUnusedFrameFromDpb c = none := by
        rw [← (removeUnusedFrameFromDpb_buf h).2] at hb
        exact map_eq_none_iff.1 hb
      simp only [hb, hc, getD_none, comesFirst_eq]
      split <;> rename_i hfirst
      · obtain ⟨c', ho, hc', hb'⟩ := directOutput_buf h hp
        rw [ho]
        exact .some ⟨hc', rfl, rfl, hb'⟩
      · obtain ⟨c', ht, hc', hb', hcl⟩ : ∃ c', roomTurn c (c.buf.comesFirst p) = (c', mppOk) ∧
            c'.dpb.FramesOnly ∧
            c'.buf = (if c.buf.comesFirst p then c.buf.removeFirst else c.buf.outputOne) ∧
            c'.buf.Clean := by
          unfold roomTurn
          split
          · obtain ⟨c', ho, hc', hb'⟩ := removeFirst_buf h hused
            exact ⟨c', ho, hc', hb', hb' ▸ hclean.removeFirst⟩
          · obtain ⟨c', ho, hc', hb'⟩ := outputOneFrameFromDpb_buf h
            exact ⟨c', ho, hc', hb', hb' ▸ hclean.outputOne⟩
        have hset := roomTurn_settings c (c.buf.comesFirst p)
        rw [ht] at hset ⊢
        rw [if_neg (show ¬mppOk < 0 by decide), ← hb']
        exact ih hc' (hs.of_settings hset) hcl (by split <;> exact ⟨hp.isFrame, hp.malloc, hp.mark⟩)
    · exact .some ⟨h, rfl, rfl, rfl, rfl, hp, by simpa using hfull⟩

end Room

/-! ## The store of a frame -/

section Store

variable {c : VideoCtx} {p : StorePic} {cfg : DecCfg} {f : FrameStore}

/-- The marks of an empty store that a frame comes into. -/
theorem FrameStore.IsEmpty.markIncoming (hf : f.IsEmpty) (p : StorePic) :
    { f with frame := some p }.markIncoming p .both =
      { f with
        frame := some p
        isUsed := .both
        isReference := if p.usedForReference then .both else .empty
        isOrigReference := if p.usedForReference then .both else .empty
        isLongTerm := if p.usedForReference && p.isLongTerm then .both else .empty
        longTermFrameIdx :=
          if p.usedForReference && p.isLongTerm then p.longTermFrameIdx
          else f.longTermFrameIdx } := by
  obtain ⟨-, hr, hl, ho, -, -, -⟩ := hf
  unfold FrameStore.markIncoming
  cases p.usedForReference <;> cases p.isLongTerm <;> simp [hr, hl, ho]

/-- A frame put into an empty store. -/
theorem insertPictureInDpb_frame (hf : f.IsEmpty) (hp : p.InMemory) :
    (insertPictureInDpb c f p false).2.IsFrame p ∧
      Frm.ofStore (insertPictureInDpb c f p false).2 = Frm.ofPic p ∧
      MemChange c (insertPictureInDpb c f p false).1 fun x => x.split (Frm.ofPic p) := by
  obtain ⟨m, hm⟩ := isSome_iff_exists.1 hp.mark
  have hidx : p.usedForReference = true → p.isLongTerm = true →
      (if p.usedForReference && p.isLongTerm then p.longTermFrameIdx
        else f.longTermFrameIdx) = p.longTermFrameIdx := by
    intro hu hl
    rw [hu, hl]
    rfl
  simp only [insertPictureInDpb, hp.isFrame, hf.markIncoming, dpbSplitField, hp.malloc, hm,
    true_or, if_true]
  cases hmbs : p.frameMbsOnlyFlag with
  | true =>
    refine ⟨⟨rfl, rfl, hp.isFrame, hp.malloc, hp.mark, rfl, ?_, hidx, .inl ⟨rfl, rfl⟩⟩, ?_, ?_⟩
    · intro hu
      simp [hu]
    · cases hus : p.usedForReference <;> cases hlt : p.isLongTerm <;>
        simp [Frm.ofStore, Frm.ofPic, StorePic.ref, hus, hlt, hm, hmbs]
    · exact ⟨rfl, by simp [Mem.split, Frm.ofPic, hmbs]⟩
  | false =>
    refine ⟨⟨rfl, rfl, hp.isFrame, hp.malloc, hp.mark, rfl, ?_, fun _ _ => rfl,
      .inr ⟨_, _, rfl, rfl, ?_, ?_⟩⟩, ?_, ?_⟩
    · intro hu
      simp [hu]
    · exact ⟨rfl, rfl, hm.symm, rfl, rfl⟩
    · exact ⟨rfl, rfl, hm.symm, rfl, rfl⟩
    · cases hus : p.usedForReference <;> cases hlt : p.isLongTerm <;>
        simp [Frm.ofStore, Frm.ofPic, StorePic.ref, hus, hlt, hm, hmbs]
    · exact ⟨rfl, by simp [Mem.split, Frm.ofPic, hmbs, hm]; rfl⟩

/-- The buffer with a frame in its first free store. -/
theorem DpbBuf.FramesOnly.add {d e : DpbBuf} (h : d.FramesOnly) (hlt : d.usedSize < d.size)
    {g : FrameStore} (hg : g.HoldsFrame) {o : Option LastPicture}
    (he : e = { d.modify (d.fs.getD d.usedSize 0) fun _ => g with
      lastPicture := o, usedSize := d.usedSize + 1 }) :
    e.FramesOnly ∧ e.frames = d.frames ++ [Frm.ofStore g] := by
  subst he
  have hlen : d.usedSize < d.fs.length := h.length ▸ hlt
  have hi : d.fs.getD d.usedSize 0 = d.fs[d.usedSize] := getD_eq_getElem _ _ hlen
  have htake : d.fs.take (d.usedSize + 1) = d.used ++ [d.fs.getD d.usedSize 0] := by
    rw [hi, take_succ_eq_append_getElem hlen]
    rfl
  have hdrop : d.fs.drop d.usedSize = d.fs.getD d.usedSize 0 :: d.fs.drop (d.usedSize + 1) := by
    rw [hi, drop_eq_getElem_cons hlen]
  have hnot : d.fs.getD d.usedSize 0 ∉ d.used := fun hin =>
    h.notMem_drop hin (hdrop ▸ mem_cons_self)
  have hnot' : d.fs.getD d.usedSize 0 ∉ d.fs.drop (d.usedSize + 1) := by
    have hn : (d.fs.drop d.usedSize).Nodup := h.nodup.sublist (drop_sublist _ _)
    rw [hdrop] at hn
    exact (nodup_cons.1 hn).1
  generalize d.fs.getD d.usedSize 0 = i at *
  refine ⟨⟨h.nodup, h.length, hlt, fun j hj => ?_, fun j hj => ?_, h.out⟩, ?_⟩
  · change (update d.stores i g j).IsEmpty
    rw [update_of_ne (ne_of_mem_of_not_mem hj hnot')]
    exact h.free j (hdrop ▸ mem_cons_of_mem _ hj)
  · change (update d.stores i g j).HoldsFrame
    by_cases hji : j = i
    · rw [hji, update_self]
      exact hg
    · rw [update_of_ne hji]
      have hj' : j ∈ d.used ++ [i] := htake ▸ hj
      exact h.frame j ((mem_append.1 hj').resolve_right fun hj' =>
        hji (mem_singleton.1 hj'))
  · change Heap.view Frm.ofStore (update d.stores i g) (d.fs.take (d.usedSize + 1)) = _
    rw [htake, Heap.view_append, Heap.view_update_of_notMem hnot]
    simp [Heap.view, DpbBuf.frames]

theorem storeNew_buf (h : c.dpb.FramesOnly) (hs : c.Conforms cfg) (hlt : c.dpb.usedSize < c.dpb.size)
    (hp : p.InMemory) :
    (storeNew c p).dpb.FramesOnly ∧ (storeNew c p).buf = c.buf.add cfg p := by
  have hempty : (c.dpb.stores (c.dpb.fs.getD c.dpb.usedSize 0)).IsEmpty := by
    have hlen : c.dpb.usedSize < c.dpb.fs.length := h.length ▸ hlt
    refine h.free _ ?_
    rw [getD_eq_getElem _ _ hlen, drop_eq_getElem_cons hlen]
    exact mem_cons_self
  obtain ⟨hfr, hofp, hdpb, hbuf⟩ := insertPictureInDpb_frame (c := c) hempty hp
  have hset := insertPictureInDpb_settings c p (c.dpb.stores (c.dpb.fs.getD c.dpb.usedSize 0))
    false
  obtain ⟨c₁, hc₁⟩ : ∃ c₁, ((insertPictureInDpb c
      (c.dpb.stores (c.dpb.fs.getD c.dpb.usedSize 0)) p false).1.modifyDpb fun d =>
        { d.modify (c.dpb.fs.getD c.dpb.usedSize 0) fun _ =>
            (insertPictureInDpb c (c.dpb.stores (c.dpb.fs.getD c.dpb.usedSize 0)) p false).2 with
          lastPicture := if p.picStructure = .frame then none
            else some (.store (c.dpb.fs.getD c.dpb.usedSize 0))
          usedSize := d.usedSize + 1 }) = c₁ := ⟨_, rfl⟩
  have ha := h.add hlt ⟨p, hfr⟩ (e := c₁.dpb) (by
    rw [← hc₁, VideoCtx.modifyDpb_dpb, hdpb])
  have heq : storeNew c p = (scanDpbOutput c₁).modifyDpb fun d =>
      updateLtrefList (updateRefList d) := by
    rw [← hc₁]
    rfl
  have hs₁ : c₁.Conforms cfg := by
    rw [← hc₁]
    exact (hs.of_settings hset).of_settings (VideoCtx.modifyDpb_settings _ rfl rfl)
  have hb₁ : c₁.buf = { c.buf with
      frames := c.buf.frames ++ [Frm.ofPic p], mem := c.buf.mem.split (Frm.ofPic p) } := by
    calc c₁.buf = { (insertPictureInDpb c
          (c.dpb.stores (c.dpb.fs.getD c.dpb.usedSize 0)) p false).1.buf with
            frames := c₁.dpb.frames } := by rw [← hc₁]; rfl
      _ = _ := by rw [hbuf, ha.2, hofp]; rfl
  have hpos : 0 < c₁.dpb.usedSize := by
    rw [← hc₁]
    exact Nat.succ_pos _
  obtain ⟨hsc, hb⟩ := scanDpbOutput_buf ha.1 hs₁ hpos
  rw [heq, FrmBuf.add, ← hb₁, ← hb]
  exact ⟨hsc.updateRefList.updateLtrefList, rfl⟩

/-- The sliding window, when the lists are exact. -/
theorem slidingWindow_buf (h : c.dpb.IsNumbered) (hs : c.Conforms cfg) :
    (c.modifyDpb slidingWindowMemoryManagement).dpb.FramesOnly ∧
      (c.modifyDpb slidingWindowMemoryManagement).buf =
        if Frm.numRefs c.buf.frames = max 1 cfg.numRefFrames then c.buf.modify Frm.slide
        else c.buf := by
  rw [VideoCtx.buf_frames, ← hs.numRefFrames, ← h.length_lists]
  split <;> rename_i hn
  · obtain ⟨hr, hf⟩ := h.toReady.slidingWindowMemoryManagement hn
    exact ⟨hr.only, c.modifyDpb_buf (slidingWindowMemoryManagement_order _) hf⟩
  · have heq : slidingWindowMemoryManagement c.dpb = c.dpb := by
      rw [slidingWindowMemoryManagement, if_neg hn]
    rw [show c.modifyDpb slidingWindowMemoryManagement = c from
      congrArg (fun d => { c with dpb := d }) heq]
    exact ⟨h.only, rfl⟩

theorem storeSingle_buf (h : c.dpb.FramesOnly) (hn : p.slides → c.dpb.IsNumbered)
    (hs : c.Conforms cfg) (hpos : 0 < cfg.size) (hp : p.InMemory) :
    Option.Rel Ret.Leaves (storeSingle c p) (c.buf.storeMarked cfg p) := by
  obtain ⟨c₁, hc₁⟩ : ∃ c₁, (if p.slides then c.modifyDpb slidingWindowMemoryManagement else c) =
    c₁ := ⟨_, rfl⟩
  obtain ⟨h₁, hs₁, hb₁⟩ : c₁.dpb.FramesOnly ∧ c₁.Conforms cfg ∧ c₁.buf =
      if p.slides ∧ Frm.numRefs c.buf.frames = max 1 cfg.numRefFrames then
        c.buf.modify Frm.slide else c.buf := by
    subst hc₁
    split <;> rename_i hsl
    · obtain ⟨hf, hb⟩ := slidingWindow_buf (hn hsl) hs
      refine ⟨hf, hs.of_settings (VideoCtx.modifyDpb_settings_of_order _
        (slidingWindowMemoryManagement_order _)), ?_⟩
      simpa only [hsl, true_and] using hb
    · exact ⟨h, hs, by rw [if_neg fun hin => hsl hin.1]⟩
  obtain ⟨h₂, hb₂⟩ := removeAllUnused_buf h₁
  have hs₂ := hs₁.of_settings (removeAllUnused_settings c₁)
  have hp' : (if p.slides then { p with isLongTerm := false } else p).InMemory := by
    split
    · exact ⟨hp.isFrame, hp.malloc, hp.mark⟩
    · exact hp
  have hmake := makeRoom_buf (roomTurns (removeAllUnused c₁)) h₂ hs₂ hpos
    (by rw [hb₂]; exact FrmBuf.purge_clean _) hp'
  have hturns : roomTurns (removeAllUnused c₁) =
      2 * (removeAllUnused c₁).buf.frames.length := by
    rw [roomTurns, VideoCtx.buf_frames, h₂.frames_length]
  change Option.Rel _ (Option.map _ (makeRoom (roomTurns (removeAllUnused
    (if p.slides then _ else c))) (removeAllUnused (if p.slides then _ else c))
    (if p.slides then _ else p))) (Option.map _ (FrmBuf.makeRoom cfg (2 * (FrmBuf.purge
      (if p.slides ∧ _ then _ else c.buf)).frames.length) (FrmBuf.purge
        (if p.slides ∧ _ then _ else c.buf)) (if p.slides then _ else p)))
  rw [hc₁, ← hb₁, ← hb₂, ← hturns]
  refine rel_map hmake fun w v hw hl => ?_
  have hset := makeRoom_settings _ _ hw
  obtain ⟨c', q, room, ret⟩ := w
  obtain ⟨b, q', room'⟩ := v
  obtain ⟨hc', hret, hroom, hres⟩ := hl
  dsimp only at hret hroom
  subst hret hroom
  cases room with
  | output => exact ⟨rfl, hc', hres⟩
  | store =>
    obtain ⟨hb', rfl, hq, hfull⟩ := hres
    dsimp only at hb' hset hc' hq
    have hs' : c'.Conforms cfg := hs₂.of_settings hset
    have hlt : c'.dpb.usedSize < c'.dpb.size := by
      rw [← hb', FrmBuf.isFull, VideoCtx.buf_frames, hc'.frames_length, Bool.or_eq_false_iff,
        decide_eq_false_iff_not, not_le] at hfull
      rw [hs'.size]
      exact hfull.1
    obtain ⟨ho, hb⟩ := storeNew_buf hc' hs' hlt hq
    exact ⟨rfl, ho, hb' ▸ hb⟩

theorem storeMarked_buf (h : c.dpb.FramesOnly) (hn : p.slides → c.dpb.IsNumbered)
    (hs : c.Conforms cfg) (hpos : 0 < cfg.size) (hp : p.InMemory) :
    Option.Rel Ret.Leaves (storeMarked c p) (c.buf.storeMarked cfg p) := by
  have hcomb (o : Option FrameStore) : getFieldDpbCombineFlag o p = false := by
    cases o <;> simp [getFieldDpbCombineFlag, hp.isFrame]
  have heq : storeMarked c p = storeSingle c p := by
    unfold storeMarked
    split
    · rw [hcomb, if_neg Bool.false_ne_true]
    · rfl
  rw [heq]
  exact storeSingle_buf h hn hs hpos hp

end Store

/-! ## The decoding -/

section Decode

variable {c : VideoCtx} {p : StorePic} {cfg : DecCfg}

/-- What the store of a frame leaves. -/
structure Ret.StoreLeaves (cfg : DecCfg) (w : Ret) (v : FrmBuf × MppRet) : Prop where
  only : w.1.dpb.FramesOnly
  conforms : w.1.Conforms cfg
  eq : (w.1.buf, w.2) = v

theorem flushOneDpbMark_mem (m : ℕ) :
    MemChange c (flushOneDpbMark c (some m)) fun x => x.giveUp m := by
  unfold flushOneDpbMark Mem.giveUp
  simp only
  split <;> rename_i hk
  · exact ⟨rfl, by rw [VideoCtx.buf_mem, if_pos hk]; rfl⟩
  · exact ⟨rfl, by rw [VideoCtx.buf_mem, if_neg hk]; rfl⟩

theorem storePictureInDpb_buf (h : c.dpb.FramesOnly) (hn : p.idrFlag = false → c.dpb.IsNumbered)
    (hs : c.Conforms cfg) (hpos : 0 < cfg.size) (hp : p.InMemory) :
    Option.Rel (Ret.StoreLeaves cfg) (storePictureInDpb c p) (c.buf.store cfg p) := by
  obtain ⟨m, hm⟩ := isSome_iff_exists.1 hp.mark
  obtain ⟨c₁, hc₁⟩ : ∃ c₁, ({ (if 0 ≤ (c.dpbMark m).slotIdx then
      c.log [.setFlag (c.dpbMark m).slotIdx .codecUse] else c) with
        lastHasMmco5 := false
        lastPicBottomField := p.picStructure = .bottomField } : VideoCtx) = c₁ := ⟨_, rfl⟩
  have hb₁ : c₁.buf = { c.buf with mem := c.buf.mem.use m } := by
    rw [← hc₁]
    unfold Mem.use
    rw [VideoCtx.buf_mem]
    dsimp only
    split <;> rfl
  have hd₁ : c₁.dpb = c.dpb := by
    rw [← hc₁]
    dsimp only
    split <;> rfl
  have hs₁ : c₁.Conforms cfg := by
    rw [← hc₁]
    split
    · exact ⟨hs.size, hs.numRefFrames, hs.maxFrameNum, hs.maxBufSize, hs.fastOut,
        hs.enableFastPlay⟩
    · exact ⟨hs.size, hs.numRefFrames, hs.maxFrameNum, hs.maxBufSize, hs.fastOut,
        hs.enableFastPlay⟩
  have hslides : p.slides → markReferences c₁ p = some (c₁, p, mppOk) := by
    intro hsl
    simp only [StorePic.slides, Bool.and_eq_true, Bool.not_eq_true'] at hsl
    simp [markReferences, hsl]
  have hmark := markReferences_buf (hd₁ ▸ h) (fun hidr => (hd₁ ▸ hn hidr).toReady) hs₁ hp
  simp only [storePictureInDpb, FrmBuf.store, hm, hc₁, getD_some]
  rw [← hb₁, map_bind]
  refine rel_bind hmark fun w v hw hv hl => ?_
  obtain ⟨ho, hconf, hmem, rfl⟩ := hl
  simp only [Function.comp_apply]
  split <;> rename_i hneg
  · obtain ⟨hd, hb⟩ := flushOneDpbMark_mem (c := w.1) m
    rw [map_some, if_pos hneg]
    refine .some ⟨?_, hconf.of_settings (flushOneDpbMark_settings _ _), ?_⟩
    · rw [hd]
      exact ho
    · rw [hb]
  · refine rel_map (storeMarked_buf ho ?_ hconf hpos hmem) fun x b hx hl => ?_
    · intro hsl
      rw [StorePic.slides_of_kept (FrmBuf.mark_kept hv)] at hsl
      rw [hslides hsl] at hw
      obtain rfl := some.inj hw
      rw [StorePic.slides, Bool.and_assoc, Bool.and_eq_true, Bool.not_eq_true'] at hsl
      exact hd₁ ▸ hn hsl.1
    · obtain ⟨hok, hx', rfl⟩ := hl
      rw [hok, if_neg (show ¬mppOk < 0 by decide)]
      have hset := storeMarked_settings _ _ hx
      exact ⟨hx', hconf.of_settings hset, rfl⟩

theorem dpbMarkMalloc_buf (hcomb : p.combineFlag = false) (hf : p.picStructure = .frame)
    (slotIdx : ℤ) :
    Option.Rel (fun w m => MemChange c w.1 (fun x => x.take m slotIdx p.poc) ∧
        w.1.settings = c.settings ∧
        w.2 = { p with memMark := some m, memMallocType := .malloc })
      (dpbMarkMalloc c p slotIdx) c.buf.mem.freeMark := by
  unfold dpbMarkMalloc
  simp only [hcomb, Bool.false_eq_true, if_false, Option.map_map]
  change Option.Rel _ (Option.map _ c.buf.mem.freeMark) _
  cases c.buf.mem.freeMark with
  | none => exact .none
  | some m =>
    refine .some ⟨⟨rfl, ?_⟩, rfl, rfl⟩
    simp [VideoCtx.buf, Mem.take, Mem.log, Mem.setMark, VideoCtx.log, VideoCtx.setMark,
      update_idem, hf, DpbBuf.frames]

/-- For frames, the decoder is a buffer of frames. -/
theorem decodePicture_buf (h : c.dpb.FramesOnly) (hs : c.Conforms cfg) (hpos : 0 < cfg.size)
    (hf : p.picStructure = .frame) (slotIdx : ℤ) :
    Option.Rel (Ret.StoreLeaves cfg) (decodePicture c p slotIdx)
      (c.buf.decode cfg p slotIdx) := by
  have hcomb : getFieldDpbCombineFlag c.dpb.lastStore p = false := by
    cases c.dpb.lastStore <;> simp [getFieldDpbCombineFlag, hf]
  rw [decodePicture, FrmBuf.decode, hcomb]
  refine rel_bind (dpbMarkMalloc_buf (p := { p with combineFlag := false }) rfl hf slotIdx)
    fun w m hw hm hl => ?_
  obtain ⟨⟨hd, hb⟩, hset, hp⟩ := hl
  have hmem : w.2.InMemory := by
    rw [hp]
    exact ⟨hf, rfl, rfl⟩
  have hs₁ := hs.of_settings hset
  obtain ⟨ho, hn, hb₁⟩ := numberReferences_buf (hd ▸ h) hs₁ hmem.isFrame
  have hstore := storePictureInDpb_buf ho hn
    (hs₁.of_settings (numberReferences_settings _ _)) hpos hmem
  rw [hb₁, hb, hp] at hstore
  rw [hp]
  exact hstore

end Decode

/-! ## Streams of frames -/

/-- A picture that comes in, with the slot it is given and the number of pictures with I
    slices that came before it (`i_slice_no`). -/
structure Coming where
  pic : StorePic
  slotIdx : ℤ
  iSliceNo : ℕ

/-- The decoder after a picture. There is `none` when it does not get to its end. -/
def VideoCtx.decode (c : VideoCtx) (a : Coming) : Option VideoCtx :=
  (decodePicture { c with iSliceNo := a.iSliceNo } a.pic a.slotIdx).map Prod.fst

/-- The decoder of a stream. -/
def decodeMachine (cfg : DecCfg) : Machine VideoCtx Coming :=
  .ofPartial (initVideoCtx cfg) VideoCtx.decode

/-- The decoder of a stream of frames. -/
structure VideoCtx.FrameDecoder (c : VideoCtx) (cfg : DecCfg) : Prop where
  only : c.dpb.FramesOnly
  conforms : c.Conforms cfg

section Stream

variable {c c' : VideoCtx} {cfg : DecCfg}

theorem initVideoCtx_frameDecoder (cfg : DecCfg) :
    (initVideoCtx cfg).FrameDecoder cfg where
  only :=
    { nodup := nodup_range
      length := length_range
      used_le := Nat.zero_le _
      free := fun _ _ => ⟨rfl, rfl, rfl, rfl, rfl, rfl, rfl⟩
      frame := fun _ hi => absurd hi (by simp [initVideoCtx, initDpb, DpbBuf.used])
      out := ⟨rfl, rfl, rfl, rfl, rfl, rfl, rfl⟩ }
  conforms := ⟨rfl, rfl, rfl, rfl, rfl, rfl⟩

theorem initVideoCtx_frames (cfg : DecCfg) : (initVideoCtx cfg).buf.frames = [] := rfl

/-- A frame is decoded in the buffer of frames. -/
theorem VideoCtx.FrameDecoder.decode (h : c.FrameDecoder cfg) (hpos : 0 < cfg.size) {a : Coming}
    (hf : a.pic.picStructure = .frame) (hd : c.decode a = some c') :
    c'.FrameDecoder cfg ∧ ∃ ret,
      { c.buf with iSliceNo := a.iSliceNo }.decode cfg a.pic a.slotIdx = some (c'.buf, ret) := by
  obtain ⟨⟨_, ret⟩, hw, rfl⟩ := map_eq_some_iff.1 hd
  have hrel := decodePicture_buf (c := { c with iSliceNo := a.iSliceNo }) h.only
    ⟨h.conforms.size, h.conforms.numRefFrames, h.conforms.maxFrameNum, h.conforms.maxBufSize,
      h.conforms.fastOut, h.conforms.enableFastPlay⟩ hpos hf a.slotIdx
  rw [hw] at hrel
  generalize hv : FrmBuf.decode cfg _ a.pic a.slotIdx = v at hrel
  cases hrel with
  | some hl =>
    obtain ⟨ho, hs, rfl⟩ := hl
    exact ⟨⟨ho, hs⟩, ret, hv⟩

end Stream

end Libmpp.H264d
