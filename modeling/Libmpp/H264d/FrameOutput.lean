import Libmpp.H264d.FrameMarking

/-!
# The output of frames

In a buffer that holds frames only, the functions that output and remove stores are the
operations of the buffer of frames (`FrmBuf`): a store is written and removed as the
frame at its position is, and the loops over the stores are the loops over the frames.
-/

namespace Libmpp.H264d

open Base List

/-! ## Frames and their memory -/

section Memory

variable {c : VideoCtx} {f : FrameStore} {s : StorePic} {m : ℕ}

@[simp]
theorem VideoCtx.modifyDpb_dpb (g : DpbBuf → DpbBuf) : (c.modifyDpb g).dpb = g c.dpb := rfl

theorem VideoCtx.buf_mem : c.buf.mem = ⟨c.dpbMark, c.slotOps⟩ := rfl

theorem VideoCtx.buf_frames : c.buf.frames = c.dpb.frames := rfl

theorem VideoCtx.buf_lastOutputPoc : c.buf.lastOutputPoc = c.dpb.lastOutputPoc := rfl

/-- A change of the memory leaves the buffer. -/
structure MemChange (c c' : VideoCtx) (g : Mem → Mem) : Prop where
  dpb : c'.dpb = c.dpb
  buf : c'.buf = { c.buf with mem := g c.buf.mem }

theorem MemChange.trans {c' c'' : VideoCtx} {g g' : Mem → Mem} (h : MemChange c c' g)
    (h' : MemChange c' c'' g') : MemChange c c'' fun x => g' (g x) where
  dpb := h'.dpb.trans h.dpb
  buf := by rw [h'.buf, h.buf]

theorem writePicture_mem (hs : s.picStructure = .frame) (ha : s.memMallocType = .malloc)
    (hm : s.memMark = some m) : MemChange c (writePicture c s) fun x => x.write m := by
  unfold writePicture Mem.write
  simp only [hm, hs, ha, true_or, true_and]
  split <;> rename_i hk
  · exact ⟨rfl, by rw [VideoCtx.buf_mem, if_pos hk]; rfl⟩
  · exact ⟨rfl, by rw [VideoCtx.buf_mem, if_neg hk]; rfl⟩

theorem freeDpbMark_mem (ps : PictureStructure) :
    MemChange c (freeDpbMark c m ps) fun x => x.free m ps := by
  unfold freeDpbMark Mem.free
  simp only
  split <;> rename_i hk
  · exact ⟨rfl, by rw [VideoCtx.buf_mem, if_pos hk]; rfl⟩
  · exact ⟨rfl, by rw [VideoCtx.buf_mem, if_neg hk]; rfl⟩

theorem freeStorablePicture_mem {ps : PictureStructure} (hs : s.picStructure = ps)
    (ha : s.memMallocType = .malloc) (hm : s.memMark = some m) :
    MemChange c (freeStorablePicture c (some s)) fun x => x.free m ps := by
  have hf : s.freed = some ps := by simp [StorePic.freed, ha, hs]
  simpa only [freeStorablePicture, hf, hm] using freeDpbMark_mem ps

/-- The memory of the frame of a store. -/
theorem FrameStore.IsFrame.memMark (h : f.IsFrame s) :
    s.memMark = some (Frm.ofStore f).mark := by
  obtain ⟨m, hm⟩ := Option.isSome_iff_exists.1 h.mark
  simp [Frm.ofStore, h.frame, hm]

theorem FrameStore.IsFrame.writeFrame (h : f.IsFrame s) :
    MemChange c (writeFrame c f) fun x => x.write (Frm.ofStore f).mark := by
  simpa only [H264d.writeFrame, h.frame] using writePicture_mem h.isFrame h.malloc h.memMark

theorem FrameStore.IsFrame.freeUsedPictures (h : f.IsFrame s) :
    MemChange c (freeUsedPictures c f) fun x => x.release (Frm.ofStore f) := by
  have hframe : MemChange c (freeStorablePicture c f.frame)
      fun x => x.free (Frm.ofStore f).mark .frame := by
    rw [h.frame]
    exact freeStorablePicture_mem h.isFrame h.malloc h.memMark
  simp only [H264d.freeUsedPictures, h.isUsed, if_true, Mem.release]
  rcases h.fields with ⟨ht, hb⟩ | ⟨t, b, ht, hb, htop, hbot⟩
  · simpa [Frm.ofStore, ht, hb, freeStorablePicture] using hframe
  · have huses : (Frm.ofStore f).uses = 2 := by simp [Frm.ofStore, ht]
    simp only [ht, hb, huses, if_true]
    exact (hframe.trans (freeStorablePicture_mem htop.picStructure htop.malloc
      (htop.mark.trans h.memMark))).trans (freeStorablePicture_mem hbot.picStructure
        hbot.malloc (hbot.mark.trans h.memMark))

end Memory

/-! ## Removal -/

section Remove

variable {l : List ℕ} {n k : ℕ}

theorem moveToEnd_perm (hk : k < n) (hn : n ≤ l.length) : (moveToEnd l n k).Perm l := by
  have hlt : k < (l.take n).length := by rw [length_take]; omega
  have hget : l.getD k 0 = (l.take n)[k] := by
    rw [getElem_take, getD_eq_getElem]
  have hp : ((l.take n)[k] :: (l.take n).eraseIdx k).Perm (l.take n) :=
    getElem_cons_eraseIdx_perm hlt
  calc (moveToEnd l n k).Perm (l.getD k 0 :: ((l.take n).eraseIdx k ++ l.drop n)) :=
        perm_middle
    _ = ((l.take n)[k] :: (l.take n).eraseIdx k) ++ l.drop n := by rw [hget, cons_append]
    (_ : List ℕ).Perm (l.take n ++ l.drop n) := hp.append_right _
    _ = l := take_append_drop n l

theorem length_eraseIdx_take (hk : k < n) (hn : n ≤ l.length) :
    ((l.take n).eraseIdx k).length = n - 1 := by
  rw [length_eraseIdx_of_lt (by rw [length_take]; omega), length_take,
    min_eq_left hn]

theorem take_moveToEnd (hk : k < n) (hn : n ≤ l.length) :
    (moveToEnd l n k).take (n - 1) = (l.take n).eraseIdx k := by
  rw [moveToEnd, ← length_eraseIdx_take hk hn, take_left]

theorem drop_moveToEnd (hk : k < n) (hn : n ≤ l.length) :
    (moveToEnd l n k).drop (n - 1) = l.getD k 0 :: l.drop n := by
  rw [moveToEnd, ← length_eraseIdx_take hk hn, drop_left]

end Remove

section Buffer

variable {c : VideoCtx}

variable {d : DpbBuf}

theorem DpbBuf.modify_stores_self {i : ℕ} {g : FrameStore → FrameStore} :
    (d.modify i g).stores i = g (d.stores i) := Function.update_self ..

theorem DpbBuf.modify_stores_ne {i j : ℕ} {g : FrameStore → FrameStore} (hj : j ≠ i) :
    (d.modify i g).stores j = d.stores j := Function.update_of_ne hj ..

/-- The address at a position. -/
theorem DpbBuf.FramesOnly.getElem?_used (h : d.FramesOnly) {k : ℕ} (hk : k < d.usedSize) :
    d.used[k]? = some (d.fs.getD k 0) := by
  have hlt : k < d.fs.length := by rw [h.length]; exact hk.trans_le h.used_le
  rw [DpbBuf.used, getElem?_take_of_lt hk, getD_eq_getElem _ _ hlt,
    getElem?_eq_getElem hlt]

theorem DpbBuf.FramesOnly.getD_mem_used (h : d.FramesOnly) {k : ℕ} (hk : k < d.usedSize) :
    d.fs.getD k 0 ∈ d.used :=
  mem_of_getElem? (h.getElem?_used hk)

theorem DpbBuf.FramesOnly.getElem?_frames (h : d.FramesOnly) {k : ℕ} (hk : k < d.usedSize) :
    d.frames[k]? = some (Frm.ofStore (d.stores (d.fs.getD k 0))) := by
  rw [DpbBuf.frames, Heap.view_getElem?, h.getElem?_used hk, Option.map_some]

theorem FrameStore.IsFrame.removed {f : FrameStore} {s : StorePic} (h : f.IsFrame s) :
    f.removed.IsEmpty where
  isUsed := rfl
  isReference := rfl
  isLongTerm := rfl
  isOrigReference := rfl
  frame := by simp [FrameStore.removed, h.isUsed]
  topField := by simp [FrameStore.removed, h.isUsed]
  bottomField := by simp [FrameStore.removed, h.isUsed]

/-- The buffer without the store at a position. -/
theorem DpbBuf.FramesOnly.remove {e : DpbBuf} (h : d.FramesOnly) {k : ℕ} (hk : k < d.usedSize)
    (hd : e = { d.modify (d.fs.getD k 0) FrameStore.removed with fs := moveToEnd d.fs d.usedSize k, usedSize := d.usedSize - 1 })
    : e.FramesOnly ∧ e.frames = d.frames.eraseIdx k := by
  subst hd
  have hn : d.usedSize ≤ d.fs.length := h.length ▸ h.used_le
  have hperm := moveToEnd_perm hk hn
  have hused : (moveToEnd d.fs d.usedSize k).take (d.usedSize - 1) = d.used.eraseIdx k :=
    take_moveToEnd hk hn
  have hdrop := drop_moveToEnd hk hn
  have hi : d.fs.getD k 0 ∉ d.used.eraseIdx k := by
    rw [← hused]
    intro hin
    refine disjoint_of_nodup_append ?_ hin (hdrop ▸ mem_cons_self)
    rw [take_append_drop]
    exact hperm.nodup_iff.2 h.nodup
  refine ⟨⟨hperm.nodup_iff.2 h.nodup, hperm.length_eq.trans h.length,
    (Nat.sub_le _ _).trans h.used_le, fun j hj => ?_, fun j hj => ?_, h.out⟩, ?_⟩
  · obtain ⟨s, hs⟩ := h.frame _ (h.getD_mem_used hk)
    change ((d.modify _ _).stores j).IsEmpty
    by_cases hji : j = d.fs.getD k 0
    · rw [hji, DpbBuf.modify_stores_self]
      exact hs.removed
    · rw [DpbBuf.modify_stores_ne hji]
      exact h.free j ((mem_cons.1 (hdrop ▸ hj)).resolve_left hji)
  · have hj' : j ∈ d.used.eraseIdx k := hused ▸ hj
    change ((d.modify _ _).stores j).HoldsFrame
    rw [DpbBuf.modify_stores_ne fun hji : j = d.fs.getD k 0 => hi (hji ▸ hj')]
    exact h.frame j (mem_of_mem_eraseIdx hj')
  · change Heap.view Frm.ofStore (Function.update _ _ _) (List.take _ _) = _
    rw [hused, Heap.view_update_of_notMem hi, Heap.eraseIdx_view]
    rfl

theorem removeFrameFromDpb_buf (h : c.dpb.FramesOnly) {k : ℕ} (hk : k < c.dpb.usedSize) :
    (removeFrameFromDpb c k).dpb.FramesOnly ∧
      (removeFrameFromDpb c k).buf = c.buf.remove k := by
  obtain ⟨s, hs⟩ := h.frame _ (h.getD_mem_used hk)
  obtain ⟨hdpb, hbuf⟩ := hs.freeUsedPictures (c := c)
  have hr := h.remove hk (e := (removeFrameFromDpb c k).dpb) (by
    simp only [removeFrameFromDpb, VideoCtx.modifyDpb_dpb, hdpb])
  refine ⟨hr.1, ?_⟩
  rw [FrmBuf.remove, show c.buf.frames[k]? = _ from h.getElem?_frames hk]
  calc (removeFrameFromDpb c k).buf
      = { (freeUsedPictures c (c.dpb.stores (c.dpb.fs.getD k 0))).buf with
          frames := (removeFrameFromDpb c k).dpb.frames } := rfl
    _ = _ := by rw [hbuf, hr.2]; rfl

/-- The buffer after the store at an address was output. -/
def DpbBuf.outputAt (d : DpbBuf) (i : ℕ) : DpbBuf :=
  { d.modify i fun f => { f with isOutput := true } with
    lastOutputPoc := (d.stores i).poc }

theorem FrameStore.IsFrame.output {f : FrameStore} {s : StorePic} (h : f.IsFrame s) :
    { f with isOutput := true }.IsFrame s :=
  ⟨h.isUsed, h.frame, h.isFrame, h.malloc, h.mark, h.isReference, h.isLongTerm, h.idx, h.fields⟩

theorem DpbBuf.FramesOnly.outputAt (h : d.FramesOnly) {k : ℕ} (hk : k < d.usedSize) :
    (d.outputAt (d.fs.getD k 0)).FramesOnly ∧ (d.outputAt (d.fs.getD k 0)).frames =
      d.frames.modify k fun f => { f with isOutput := true } := by
  obtain ⟨s, hs⟩ := h.frame _ (h.getD_mem_used hk)
  have hm := h.modify (h.getD_mem_used hk) (g := fun f => { f with isOutput := true })
    ⟨s, hs.output⟩
  exact ⟨⟨hm.nodup, hm.length, hm.used_le, hm.free, hm.frame, hm.out⟩,
    Heap.view_update h.used_nodup (h.getElem?_used hk) rfl⟩

theorem FrameStore.IsEmpty.clear_eq {f : FrameStore} (h : f.IsEmpty) :
    { f with frame := none, topField := none, bottomField := none, isUsed := .empty } = f := by
  obtain ⟨hu, -, -, -, hf, ht, hb⟩ := h
  cases f
  simp_all

/-- There is no field that waits for the other one to be output. -/
theorem flushDirectOutput_eq (h : c.dpb.outBuffer.IsEmpty) :
    flushDirectOutput c = (c, mppOk) := by
  have hclear := h.clear_eq
  obtain ⟨hu, -, -, -, hf, ht, hb⟩ := h
  simp only [flushDirectOutput, writeUnpairedField, freeOutBuffer, hu, hf, ht, hb,
    freeStorablePicture]
  exact congrArg (fun f => ({ c with dpb := { c.dpb with outBuffer := f } }, mppOk)) hclear

@[simp]
theorem funCheck_ok (c : VideoCtx) (k : VideoCtx → Ret) : funCheck (c, mppOk) k = k c := rfl

theorem writeStoredFrame_buf (h : c.dpb.FramesOnly) {k : ℕ} (hk : k < c.dpb.usedSize) :
    ∃ c', writeStoredFrame c (c.dpb.fs.getD k 0) = (c', mppOk) ∧ c'.dpb.FramesOnly ∧
      c'.buf = c.buf.write k := by
  obtain ⟨s, hs⟩ := h.frame _ (h.getD_mem_used hk)
  obtain ⟨hdpb, hbuf⟩ := hs.writeFrame (c := c)
  have ho := h.outputAt hk
  have hget : c.buf.frames[k]? = _ := h.getElem?_frames hk
  generalize c.dpb.fs.getD k 0 = i at *
  have heq : writeStoredFrame c i =
      ({ writeFrame c (c.dpb.stores i) with dpb := c.dpb.outputAt i }, mppOk) := by
    rw [writeStoredFrame, flushDirectOutput_eq h.out, funCheck_ok]
    simp only [if_pos hs.isUsed, VideoCtx.modifyDpb, hdpb]
    rfl
  refine ⟨_, heq, ho.1, ?_⟩
  rw [FrmBuf.write, hget]
  calc { writeFrame c (c.dpb.stores i) with dpb := c.dpb.outputAt i }.buf
      = { (writeFrame c (c.dpb.stores i)).buf with
          frames := (c.dpb.outputAt i).frames
          lastOutputPoc := (c.dpb.stores i).poc
          pocInterval := c.dpb.pocInterval } := rfl
    _ = _ := by
      rw [hbuf, ho.2, modify_eq_set_getElem?, show c.dpb.frames[k]? = _ from hget]
      rfl

end Buffer

/-! ## The loops -/

section Loops

variable {c : VideoCtx}

/-- A store is of use when its frame is a reference. -/
theorem DpbBuf.FramesOnly.isUsedForReference {d : DpbBuf} (h : d.FramesOnly) {k : ℕ}
    (hk : k < d.usedSize) : isUsedForReference (d.stores (d.fs.getD k 0)) =
      (d.frames[k]?.bind (·.ref)).isSome := by
  obtain ⟨s, hs⟩ := h.frame _ (h.getD_mem_used hk)
  rw [h.getElem?_frames hk, hs.isUsedForReference]
  rfl

theorem removeUnusedFrameFromDpb_buf (h : c.dpb.FramesOnly) :
    (∀ c', removeUnusedFrameFromDpb c = some c' → c'.dpb.FramesOnly) ∧
      (removeUnusedFrameFromDpb c).map VideoCtx.buf = c.buf.removeUnused := by
  have hidx : c.dpb.used.findIdx? (fun i =>
      (c.dpb.stores i).isOutput && !H264d.isUsedForReference (c.dpb.stores i)) =
        c.buf.frames.findIdx? Frm.isUnused :=
    Heap.findIdx?_view fun i hi => by
      obtain ⟨s, hs⟩ := h.frame i hi
      rw [hs.isUsedForReference, Frm.isUnused, Option.not_isSome]
      rfl
  rw [removeUnusedFrameFromDpb, hidx, FrmBuf.removeUnused]
  cases hk : c.buf.frames.findIdx? Frm.isUnused with
  | none => exact ⟨by simp, rfl⟩
  | some k =>
    obtain ⟨hlt, -⟩ := findIdx?_eq_some_iff_getElem.1 hk
    have hr := removeFrameFromDpb_buf h (h.frames_length ▸ hlt)
    refine ⟨fun c' hc' => ?_, congrArg some hr.2⟩
    obtain rfl := Option.some.inj hc'
    exact hr.1

theorem removeUnusedFrames_buf (n : ℕ) (h : c.dpb.FramesOnly) :
    (removeUnusedFrames n c).dpb.FramesOnly ∧
      (removeUnusedFrames n c).buf = FrmBuf.purgeLoop n c.buf := by
  induction n generalizing c with
  | zero => exact ⟨h, rfl⟩
  | succ n ih =>
    obtain ⟨hr, hb⟩ := removeUnusedFrameFromDpb_buf h
    rw [removeUnusedFrames, FrmBuf.purgeLoop, ← hb]
    cases hc : removeUnusedFrameFromDpb c with
    | none => exact ⟨h, rfl⟩
    | some c' => exact ih (hr c' hc)

theorem removeAllUnused_buf (h : c.dpb.FramesOnly) :
    (removeAllUnused c).dpb.FramesOnly ∧ (removeAllUnused c).buf = c.buf.purge := by
  rw [removeAllUnused, FrmBuf.purge, show c.buf.frames.length = _ from h.frames_length]
  exact removeUnusedFrames_buf _ h

theorem getSmallestPoc_eq (d : DpbBuf) : getSmallestPoc d = FrmBuf.smallest d.frames := by
  rw [getSmallestPoc, FrmBuf.smallest, DpbBuf.frames, Heap.view, zipIdx_map,
    foldl_map]
  rfl

theorem outputOneFrameFromDpb_buf (h : c.dpb.FramesOnly) :
    ∃ c', outputOneFrameFromDpb c = (c', mppOk) ∧ c'.dpb.FramesOnly ∧
      c'.buf = c.buf.outputOne := by
  rw [outputOneFrameFromDpb, FrmBuf.outputOne, getSmallestPoc_eq, VideoCtx.buf_frames]
  cases hs : FrmBuf.smallest c.dpb.frames with
  | none => exact ⟨c, rfl, h, rfl⟩
  | some x =>
    obtain ⟨n, k⟩ := x
    obtain ⟨f, hf, -⟩ := (FrmBuf.isSmallest_of_eq hs).get
    have hk : k < c.dpb.usedSize := h.frames_length ▸ (List.getElem?_eq_some_iff.1 hf).1
    obtain ⟨c', hw, hc', hb⟩ := writeStoredFrame_buf h hk
    have hget : c'.dpb.frames[k]? = some { f with isOutput := true } := by
      rw [← VideoCtx.buf_frames, hb, FrmBuf.write_frames, VideoCtx.buf_frames]
      simp [hf]
    have hk' : k < c'.dpb.usedSize := hc'.frames_length ▸ (List.getElem?_eq_some_iff.1 hget).1
    simp only [hw, funCheck_ok, hc'.isUsedForReference hk', hget, hf, Option.bind_some]
    split
    · exact ⟨c', rfl, hc', hb⟩
    · have hr := removeFrameFromDpb_buf hc' hk'
      exact ⟨_, rfl, hr.1, hb ▸ hr.2⟩

theorem updatePocInterval_buf (h : c.dpb.FramesOnly) (n : ℤ) :
    (c.modifyDpb (updatePocInterval n)).dpb.FramesOnly ∧
      (c.modifyDpb (updatePocInterval n)).buf = c.buf.updateInterval n := by
  unfold VideoCtx.modifyDpb updatePocInterval FrmBuf.updateInterval
  split
  · exact ⟨⟨h.nodup, h.length, h.used_le, h.free, h.frame, h.out⟩, rfl⟩
  · exact ⟨h, rfl⟩

theorem outputDpbNormalLoop_buf (n : ℕ) (h : c.dpb.FramesOnly) :
    ∃ c', outputDpbNormalLoop n c = (c', mppOk) ∧ c'.dpb.FramesOnly ∧
      c'.buf = FrmBuf.outputLoop n c.buf := by
  induction n generalizing c with
  | zero => exact ⟨c, rfl, h, rfl⟩
  | succ n ih =>
    rw [outputDpbNormalLoop, FrmBuf.outputLoop, getSmallestPoc_eq, VideoCtx.buf_frames]
    cases hs : FrmBuf.smallest c.dpb.frames with
    | none => exact ⟨c, rfl, h, rfl⟩
    | some x =>
      obtain ⟨m, k⟩ := x
      obtain ⟨f, hf, -⟩ := (FrmBuf.isSmallest_of_eq hs).get
      have hk : k < c.dpb.usedSize := h.frames_length ▸ (List.getElem?_eq_some_iff.1 hf).1
      obtain ⟨hu, hb⟩ := updatePocInterval_buf h (m - c.dpb.lastOutputPoc)
      simp only [VideoCtx.buf_lastOutputPoc, ← hb]
      have hk₁ : k < (c.modifyDpb (updatePocInterval (m - c.dpb.lastOutputPoc))).dpb.usedSize := by
        rw [← hu.frames_length, ← VideoCtx.buf_frames, hb]
        exact (List.getElem?_eq_some_iff.1 hf).1
      generalize c.modifyDpb (updatePocInterval (m - c.dpb.lastOutputPoc)) = c₁ at *
      split
      · split <;> rename_i hle
        · rw [if_pos (show _ ≤ c₁.buf.pocInterval from hle)]
          obtain ⟨c', hw, hc', hb'⟩ := writeStoredFrame_buf hu hk₁
          rw [hw, funCheck_ok, ← hb']
          exact ih hc'
        · rw [if_neg (show ¬_ ≤ c₁.buf.pocInterval from hle)]
          exact ⟨c₁, rfl, hu, rfl⟩
      · exact ⟨c, rfl, h, rfl⟩

theorem outputDpbNormal_buf (h : c.dpb.FramesOnly) :
    ∃ c', outputDpbNormal c = (c', mppOk) ∧ c'.dpb.FramesOnly ∧
      c'.buf = c.buf.outputNormal := by
  obtain ⟨c', hl, hc', hb⟩ := outputDpbNormalLoop_buf c.dpb.usedSize h
  have hr := removeAllUnused_buf hc'
  rw [outputDpbNormal, hl, funCheck_ok]
  refine ⟨_, rfl, hr.1, ?_⟩
  rw [hr.2, hb, FrmBuf.outputNormal, VideoCtx.buf_frames, h.frames_length]

end Loops

/-- The decoder has the settings of a configuration. -/
structure VideoCtx.Conforms (c : VideoCtx) (cfg : DecCfg) : Prop where
  size : c.dpb.size = cfg.size
  numRefFrames : c.dpb.numRefFrames = cfg.numRefFrames
  maxFrameNum : c.maxFrameNum = cfg.maxFrameNum
  maxBufSize : c.maxBufSize = cfg.maxBufSize
  fastOut : c.fastOut = cfg.fastOut
  enableFastPlay : c.enableFastPlay = cfg.enableFastPlay

theorem VideoCtx.Conforms.of_settings {c c' : VideoCtx} {cfg : DecCfg} (h : c.Conforms cfg)
    (hs : c'.settings = c.settings) : c'.Conforms cfg where
  size := (congrArg Settings.size hs).trans h.size
  numRefFrames := (congrArg Settings.numRefFrames hs).trans h.numRefFrames
  maxFrameNum := (congrArg Settings.maxFrameNum hs).trans h.maxFrameNum
  maxBufSize := (congrArg Settings.maxBufSize hs).trans h.maxBufSize
  fastOut := (congrArg Settings.fastOut hs).trans h.fastOut
  enableFastPlay := (congrArg Settings.enableFastPlay hs).trans h.enableFastPlay

section Flush

variable {c : VideoCtx} {cfg : DecCfg}

theorem outputDpbFastplay_buf (h : c.dpb.FramesOnly) {k : ℕ} (hk : k < c.dpb.usedSize)
    (isIFrm : Bool) :
    (outputDpbFastplay c (c.dpb.fs.getD k 0) isIFrm).dpb.FramesOnly ∧
      (outputDpbFastplay c (c.dpb.fs.getD k 0) isIFrm).buf =
        if c.buf.dpbFastOut && isIFrm then c.buf.write k else c.buf.outputNormal := by
  obtain ⟨cw, hw, hcw, hbw⟩ := writeStoredFrame_buf h hk
  obtain ⟨cn, hn, hcn, hbn⟩ := outputDpbNormal_buf h
  rw [outputDpbFastplay, hw, hn, show c.buf.dpbFastOut = c.dpbFastOut from rfl]
  split
  · exact ⟨hcw, hbw⟩
  · exact ⟨hcn, hbn⟩

theorem outputDpbFastplayOnce_buf (h : c.dpb.FramesOnly) {k : ℕ} (hk : k < c.dpb.usedSize)
    (isIFrm : Bool) :
    (outputDpbFastplayOnce c (c.dpb.fs.getD k 0) isIFrm).dpb.FramesOnly ∧
      (outputDpbFastplayOnce c (c.dpb.fs.getD k 0) isIFrm).buf =
        if c.buf.dpbFastOut && isIFrm && !c.buf.dpbFirstFastPlayed then
          { c.buf.write k with dpbFirstFastPlayed := true }
        else
          { c.buf with dpbFastOut :=
              if c.buf.dpbFastOut && isIFrm then false else c.buf.dpbFastOut }.outputNormal := by
  obtain ⟨cw, hw, hcw, hbw⟩ := writeStoredFrame_buf h hk
  unfold outputDpbFastplayOnce
  rw [show c.buf.dpbFastOut = c.dpbFastOut from rfl,
    show c.buf.dpbFirstFastPlayed = c.dpbFirstFastPlayed from rfl]
  split <;> rename_i hfast
  · rw [hw, ← hbw]
    exact ⟨hcw, rfl⟩
  · -- Here the first frame was played, when this one could be.
    have hoff : (c.dpbFastOut && isIFrm && c.dpbFirstFastPlayed) = (c.dpbFastOut && isIFrm) := by
      revert hfast
      cases c.dpbFastOut <;> cases isIFrm <;> cases c.dpbFirstFastPlayed <;> simp
    obtain ⟨cn, hn, hcn, hbn⟩ := outputDpbNormal_buf (c := { c with dpbFastOut :=
      if c.dpbFastOut && isIFrm then false else c.dpbFastOut }) h
    simp only [hoff, hn]
    exact ⟨hcn, hbn⟩

theorem scanDpbOutput_buf (h : c.dpb.FramesOnly) (hs : c.Conforms cfg)
    (hpos : 0 < c.dpb.usedSize) :
    (scanDpbOutput c).dpb.FramesOnly ∧ (scanDpbOutput c).buf = c.buf.scan cfg := by
  have hk : c.dpb.usedSize - 1 < c.dpb.usedSize := Nat.sub_lt hpos one_pos
  obtain ⟨s, hfs⟩ := h.frame _ (h.getD_mem_used hk)
  have hused := hfs.isUsed
  obtain ⟨cw, hw, hcw, hbw⟩ := writeStoredFrame_buf h hk
  simp only [scanDpbOutput, FrmBuf.scan, VideoCtx.buf_frames, h.frames_length,
    VideoCtx.buf_lastOutputPoc, hused, if_true, hs.fastOut, hs.enableFastPlay]
  split
  · rw [hw]
    exact ⟨hcw, hbw⟩
  · cases cfg.enableFastPlay with
    | disable =>
      obtain ⟨cn, hn, hcn, hbn⟩ := outputDpbNormal_buf h
      rw [hn]
      exact ⟨hcn, hbn⟩
    | enable => exact outputDpbFastplay_buf h hk _
    | once => exact outputDpbFastplayOnce_buf h hk _
    | unsupported => exact ⟨h, rfl⟩

section Rel

variable {α β γ δ : Type*} {r : α → β → Prop} {s : γ → δ → Prop} {o : Option α} {o' : Option β}

theorem rel_map {f : α → γ} {g : β → δ} (h : Option.Rel r o o')
    (hfg : ∀ a b, o = some a → r a b → s (f a) (g b)) : Option.Rel s (o.map f) (o'.map g) := by
  cases h with
  | some h => exact .some (hfg _ _ rfl h)
  | none => exact .none

theorem rel_bind {f : α → Option γ} {g : β → Option δ} (h : Option.Rel r o o')
    (hfg : ∀ a b, o = some a → o' = some b → r a b → Option.Rel s (f a) (g b)) :
    Option.Rel s (o.bind f) (o'.bind g) := by
  cases h with
  | some h => exact hfg _ _ rfl rfl h
  | none => exact .none

end Rel

/-- A call that does not fail leaves the buffer of frames `b`. -/
structure Ret.Leaves (w : Ret) (b : FrmBuf) : Prop where
  ok : w.2 = mppOk
  only : w.1.dpb.FramesOnly
  buf : w.1.buf = b

theorem flushLoop_buf (n : ℕ) (h : c.dpb.FramesOnly) :
    Option.Rel Ret.Leaves (flushLoop n c) (FrmBuf.flushLoop n c.buf) := by
  have hempty {c : VideoCtx} (h : c.dpb.FramesOnly) :
      c.buf.frames = [] ↔ c.dpb.usedSize = 0 := by
    rw [← length_eq_zero_iff, VideoCtx.buf_frames, h.frames_length]
  induction n generalizing c with
  | zero =>
    simp only [flushLoop, FrmBuf.flushLoop, hempty h]
    split
    · exact .some ⟨rfl, h, rfl⟩
    · exact .none
  | succ n ih =>
    simp only [flushLoop, FrmBuf.flushLoop, hempty h]
    split
    · exact .some ⟨rfl, h, rfl⟩
    · obtain ⟨c', ho, hc', hb⟩ := outputOneFrameFromDpb_buf h
      rw [ho, ← hb, if_neg (show ¬mppOk < 0 by decide)]
      exact ih hc'

/-- A change of all stores in use. -/
theorem DpbBuf.FramesOnly.mapUsed {d : DpbBuf} (h : d.FramesOnly)
    {g : FrameStore → FrameStore} {r : Frm → Frm}
    (hg : ∀ f s, f.IsFrame s → (g f).HoldsFrame ∧ Frm.ofStore (g f) = r (Frm.ofStore f)) :
    (d.used.foldl (fun d i => d.modify i g) d).FramesOnly ∧
      (d.used.foldl (fun d i => d.modify i g) d).frames = d.frames.map r := by
  have hst := foldl_modify_all_stores h.used_nodup d g
  have ho := foldl_modify_order d d.used g
  refine ⟨h.of_order ho (fun i hi => ?_) fun i hi => ?_, ?_⟩
  · obtain ⟨s, hs⟩ := h.frame i hi
    rw [hst, if_pos hi]
    exact (hg _ s hs).1
  · rw [hst, if_neg hi]
  · rw [DpbBuf.frames, DpbBuf.FramesOnly.used_of_order ho]
    refine Heap.view_eq_map fun i hi => ?_
    obtain ⟨s, hs⟩ := h.frame i hi
    rw [hst, if_pos hi]
    exact (hg _ s hs).2

theorem flushDpb_buf (h : c.dpb.FramesOnly) :
    Option.Rel Ret.Leaves (flushDpb c) c.buf.flush := by
  obtain ⟨hu, hf⟩ := h.mapUsed (g := unmarkForReference) (r := Frm.setRef none) fun f s hs =>
    ⟨⟨_, hs.unmarkForReference⟩, hs.unmarkForReference_frm⟩
  have hb := c.modifyDpb_buf (g := fun d =>
    d.used.foldl (fun d i => d.modify i unmarkForReference) d)
    (foldl_modify_order _ _ _) hf
  obtain ⟨hr, hp⟩ := removeAllUnused_buf (c := c.modifyDpb fun d =>
    d.used.foldl (fun d i => d.modify i unmarkForReference) d) hu
  rw [flushDpb, FrmBuf.flush, ← hb, ← hp, VideoCtx.buf_frames, hr.frames_length]
  refine rel_map (flushLoop_buf _ hr) fun w b _ hw => ?_
  rw [funCheck, hw.ok, if_neg (show ¬mppOk < 0 by decide), ← hw.buf]
  exact ⟨rfl, ⟨hw.only.nodup, hw.only.length, hw.only.used_le, hw.only.free, hw.only.frame,
    hw.only.out⟩, rfl⟩

end Flush

end Libmpp.H264d
