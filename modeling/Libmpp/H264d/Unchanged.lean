import Libmpp.H264d.Store

/-!
# What the operations on the decoder's buffer leave alone

The marking of references changes the pictures and the reference lists and nothing
else of the buffer (`DpbBuf.order`). Whatever is done for a picture, the settings of
the stream and of the user stay as they are (`VideoCtx.settings`), and whether the
picture was marked like an IDR picture depends on its operations only
(`storePictureInDpb_settings`).
-/

namespace Libmpp.H264d

open Base Option

/-! ## The buffer -/

/-- The buffer, but for its pictures and the lists of references. -/
structure DpbOrder where
  size : ℕ
  usedSize : ℕ
  fs : List ℕ
  pocInterval : ℤ
  lastOutputPoc : ℤ
  numRefFrames : ℕ
  lastPicture : Option LastPicture
  outBuffer : FrameStore

def DpbBuf.order (d : DpbBuf) : DpbOrder where
  size := d.size
  usedSize := d.usedSize
  fs := d.fs
  pocInterval := d.pocInterval
  lastOutputPoc := d.lastOutputPoc
  numRefFrames := d.numRefFrames
  lastPicture := d.lastPicture
  outBuffer := d.outBuffer

section Marking

variable (d : DpbBuf) (p : StorePic)

@[simp]
theorem DpbBuf.modify_order (i : ℕ) (g : FrameStore → FrameStore) :
    (d.modify i g).order = d.order := rfl

@[simp]
theorem updateRefList_order : (updateRefList d).order = d.order := rfl

@[simp]
theorem updateLtrefList_order : (updateLtrefList d).order = d.order := rfl

/-- A loop over stores whose turns leave the order alone leaves it alone. -/
theorem foldl_order {l : List ℕ} {g : DpbBuf → ℕ → DpbBuf}
    (hg : ∀ d i, (g d i).order = d.order) : (l.foldl g d).order = d.order := by
  induction l generalizing d with
  | nil => rfl
  | cons i l ih => rw [List.foldl_cons, ih, hg]

@[simp]
theorem foldl_modify_order (l : List ℕ) (g : FrameStore → FrameStore) :
    (l.foldl (fun d i => d.modify i g) d).order = d.order :=
  foldl_order d fun _ _ => rfl

@[simp]
theorem unmarkLongTermWhere_order (q : ℕ → FrameStore → Bool) :
    (unmarkLongTermWhere d q).order = d.order := by
  refine foldl_order d fun d i => ?_
  split_ifs <;> rfl

@[simp]
theorem mmUnmarkShortTermForReference_order (n : ℤ) :
    (mmUnmarkShortTermForReference d p n).order = d.order := by
  unfold mmUnmarkShortTermForReference
  dsimp only
  split_ifs
  · split <;> rfl
  · split
    · split_ifs <;> rfl
    · rfl

@[simp]
theorem mmUnmarkLongTermForReference_order (n : ℤ) :
    (mmUnmarkLongTermForReference d p n).order = d.order := by
  unfold mmUnmarkLongTermForReference
  dsimp only
  split_ifs
  · exact unmarkLongTermWhere_order d _
  · split
    · split_ifs <;> rfl
    · rfl

@[simp]
theorem markPicLongTerm_order (i n : ℤ) : (markPicLongTerm d p i n).order = d.order := by
  unfold markPicLongTerm
  dsimp only
  split
  · split <;> rfl
  · split
    · split <;> rfl
    · rfl

@[simp]
theorem mmAssignLongTermFrameIdx_order (m n i : ℤ) :
    (mmAssignLongTermFrameIdx d m p n i).order = d.order := by
  unfold mmAssignLongTermFrameIdx
  dsimp only
  split_ifs
  · rw [markPicLongTerm_order]
    exact unmarkLongTermWhere_order d _
  · split
    · rw [markPicLongTerm_order]
      exact unmarkLongTermWhere_order d _
    · rfl

@[simp]
theorem mmUpdateMaxLongTermFrameIdx_order (n : ℤ) :
    (mmUpdateMaxLongTermFrameIdx d n).order = d.order :=
  unmarkLongTermWhere_order _ _

@[simp]
theorem mmUnmarkAllShortTermForReference_order :
    (mmUnmarkAllShortTermForReference d).order = d.order :=
  foldl_modify_order d _ _

@[simp]
theorem mmMarkCurrentPictureLongTerm_order (m i : ℤ) :
    (mmMarkCurrentPictureLongTerm d m p i).1.order = d.order := by
  unfold mmMarkCurrentPictureLongTerm
  dsimp only
  split_ifs <;> exact unmarkLongTermWhere_order d _

@[simp]
theorem slidingWindowMemoryManagement_order :
    (slidingWindowMemoryManagement d).order = d.order := by
  unfold slidingWindowMemoryManagement
  split_ifs
  · split <;> rfl
  · rfl

@[simp]
theorem checkNumRef_order : (checkNumRef d).order = d.order := by
  unfold checkNumRef
  split_ifs
  · exact slidingWindowMemoryManagement_order d
  · rfl

@[simp]
theorem updatePicNum_order (m : ℤ) : (updatePicNum d m p).order = d.order := by
  unfold updatePicNum
  dsimp only
  split
  · rfl
  · split <;> rw [foldl_modify_order, foldl_modify_order]

end Marking

/-! ## The settings -/

/-- What no operation on a picture changes, and what only its marking does. -/
structure Settings where
  size : ℕ
  numRefFrames : ℕ
  lastHasMmco5 : Bool
  lastPicBottomField : Bool
  maxFrameNum : ℤ
  maxBufSize : ℕ
  fastOut : Bool
  enableFastPlay : FastPlay

def VideoCtx.settings (c : VideoCtx) : Settings where
  size := c.dpb.size
  numRefFrames := c.dpb.numRefFrames
  lastHasMmco5 := c.lastHasMmco5
  lastPicBottomField := c.lastPicBottomField
  maxFrameNum := c.maxFrameNum
  maxBufSize := c.maxBufSize
  fastOut := c.fastOut
  enableFastPlay := c.enableFastPlay

section Output

variable (c : VideoCtx) (p : StorePic)

theorem VideoCtx.modifyDpb_settings {g : DpbBuf → DpbBuf} (hs : (g c.dpb).size = c.dpb.size)
    (hn : (g c.dpb).numRefFrames = c.dpb.numRefFrames) :
    (c.modifyDpb g).settings = c.settings := by
  simp [VideoCtx.settings, VideoCtx.modifyDpb, hs, hn]

theorem VideoCtx.modifyDpb_settings_of_order {g : DpbBuf → DpbBuf}
    (h : (g c.dpb).order = c.dpb.order) : (c.modifyDpb g).settings = c.settings :=
  c.modifyDpb_settings (congrArg DpbOrder.size h) (congrArg DpbOrder.numRefFrames h)

@[simp]
theorem VideoCtx.setMark_settings (m : ℕ) (k : DpbMark) :
    (c.setMark m k).settings = c.settings := rfl

@[simp]
theorem VideoCtx.log_settings (l : List SlotOp) : (c.log l).settings = c.settings := rfl

/-- A chain of calls leaves the settings alone when each call does. -/
theorem funCheck_settings {r : Ret} {k : VideoCtx → Ret} (hr : r.1.settings = c.settings)
    (hk : ∀ c', (k c').1.settings = c'.settings) : (funCheck r k).1.settings = c.settings := by
  unfold funCheck
  split_ifs
  · exact hr
  · rw [hk, hr]

@[simp]
theorem freeDpbMark_settings (m : ℕ) (s : PictureStructure) :
    (freeDpbMark c m s).settings = c.settings := by
  unfold freeDpbMark
  dsimp only
  split_ifs <;> rfl

@[simp]
theorem freeStorablePicture_settings (o : Option StorePic) :
    (freeStorablePicture c o).settings = c.settings := by
  unfold freeStorablePicture
  split
  · split
    · exact freeDpbMark_settings c _ _
    · rfl
  · rfl

@[simp]
theorem freeUsedPictures_settings (f : FrameStore) :
    (freeUsedPictures c f).settings = c.settings := by
  unfold freeUsedPictures
  dsimp only
  split_ifs <;> simp

@[simp]
theorem removeFrameFromDpb_settings (pos : ℕ) :
    (removeFrameFromDpb c pos).settings = c.settings := by
  unfold removeFrameFromDpb
  dsimp only
  rw [VideoCtx.modifyDpb_settings _ (by rfl) (by rfl), freeUsedPictures_settings]

theorem removeUnusedFrameFromDpb_settings {c' : VideoCtx}
    (h : removeUnusedFrameFromDpb c = some c') : c'.settings = c.settings := by
  unfold removeUnusedFrameFromDpb at h
  split at h
  · rw [← some.inj h, removeFrameFromDpb_settings]
  · exact absurd h (by simp)

@[simp]
theorem removeUnusedFrames_settings (n : ℕ) :
    (removeUnusedFrames n c).settings = c.settings := by
  induction n generalizing c with
  | zero => rfl
  | succ n ih =>
    rw [removeUnusedFrames]
    split
    · rename_i c' hc'
      rw [ih, removeUnusedFrameFromDpb_settings c hc']
    · rfl

@[simp]
theorem removeAllUnused_settings : (removeAllUnused c).settings = c.settings :=
  removeUnusedFrames_settings c _

@[simp]
theorem writePicture_settings : (writePicture c p).settings = c.settings := by
  unfold writePicture
  split
  · dsimp only
    split_ifs <;> rfl
  · rfl

@[simp]
theorem writeFrame_settings (f : FrameStore) : (writeFrame c f).settings = c.settings := by
  unfold writeFrame
  split <;> simp

@[simp]
theorem writeUnpairedField_settings (f : FrameStore) :
    (writeUnpairedField c f).1.settings = c.settings := by
  unfold writeUnpairedField
  dsimp only
  split_ifs <;> simp

@[simp]
theorem freeOutBuffer_settings (f : FrameStore) :
    (freeOutBuffer c f).settings = c.settings := by
  unfold freeOutBuffer
  dsimp only
  rw [VideoCtx.modifyDpb_settings _ (by rfl) (by rfl)]
  simp

@[simp]
theorem flushDirectOutput_settings : (flushDirectOutput c).1.settings = c.settings := by
  unfold flushDirectOutput
  dsimp only
  split_ifs <;> simp

@[simp]
theorem writeStoredFrame_settings (i : ℕ) :
    (writeStoredFrame c i).1.settings = c.settings := by
  refine funCheck_settings c (flushDirectOutput_settings c) fun c' => ?_
  dsimp only
  rw [VideoCtx.modifyDpb_settings _ (by rfl) (by rfl)]
  split_ifs <;> simp

@[simp]
theorem outputOneFrameFromDpb_settings :
    (outputOneFrameFromDpb c).1.settings = c.settings := by
  unfold outputOneFrameFromDpb
  split
  · refine funCheck_settings c (writeStoredFrame_settings c _) fun c' => ?_
    split_ifs <;> simp
  · rfl

@[simp]
theorem updatePocInterval_settings (n : ℤ) :
    (c.modifyDpb (updatePocInterval n)).settings = c.settings := by
  refine c.modifyDpb_settings ?_ ?_ <;> unfold updatePocInterval <;> split <;> rfl

@[simp]
theorem outputDpbNormalLoop_settings (n : ℕ) :
    (outputDpbNormalLoop n c).1.settings = c.settings := by
  induction n generalizing c with
  | zero => rfl
  | succ n ih =>
    rw [outputDpbNormalLoop]
    split
    · dsimp only
      split
      · split
        · refine funCheck_settings c ?_ ih
          rw [writeStoredFrame_settings, updatePocInterval_settings]
        · exact updatePocInterval_settings c _
      · rfl
    · rfl

@[simp]
theorem outputDpbNormal_settings : (outputDpbNormal c).1.settings = c.settings :=
  funCheck_settings c (outputDpbNormalLoop_settings c _) fun c' => removeAllUnused_settings c'

@[simp]
theorem scanDpbOutput_settings : (scanDpbOutput c).settings = c.settings := by
  unfold scanDpbOutput
  dsimp only
  split_ifs
  · simp
  · split
    · simp
    · unfold outputDpbFastplay
      split <;> simp
    · unfold outputDpbFastplayOnce
      dsimp only
      split
      · split <;> exact writeStoredFrame_settings c _
      · exact outputDpbNormal_settings _
    · rfl
  · rfl

theorem flushLoop_settings {n : ℕ} {w : Ret} (h : flushLoop n c = some w) :
    w.1.settings = c.settings := by
  induction n generalizing c with
  | zero =>
    rw [flushLoop] at h
    split_ifs at h
    rw [← some.inj h]
  | succ n ih =>
    rw [flushLoop] at h
    dsimp only at h
    split_ifs at h
    · rw [← some.inj h]
    · rw [← some.inj h, outputOneFrameFromDpb_settings]
    · rw [ih _ h, outputOneFrameFromDpb_settings]

theorem flushDpb_settings {w : Ret} (h : flushDpb c = some w) :
    w.1.settings = c.settings := by
  obtain ⟨w', hw', rfl⟩ := map_eq_some_iff.1 h
  refine funCheck_settings c ?_ fun c' => VideoCtx.modifyDpb_settings _ (by rfl) (by rfl)
  rw [flushLoop_settings _ hw', removeAllUnused_settings]
  exact VideoCtx.modifyDpb_settings_of_order _ (foldl_modify_order _ _ _)

end Output

/-! ## The marking of a picture -/

section Marking

variable (c : VideoCtx) (p : StorePic)

variable {w : MarkRet}

theorem idrMemoryManagement_settings (h : idrMemoryManagement c p = some w) :
    w.1.settings = c.settings := by
  obtain ⟨x, hx, rfl⟩ := map_eq_some_iff.1 h
  have hs : x.1.settings = c.settings := by
    rw [flushDpb_settings _ hx]
    split_ifs
    · exact VideoCtx.modifyDpb_settings_of_order _ (foldl_modify_order _ _ _)
    · rfl
  split <;> exact hs

/-- An operation changes of the settings only whether there was one with number 5. -/
theorem memoryManagementControl_settings (op : Drpm) (isLast : Bool) :
    (memoryManagementControl c p op isLast).1.settings =
      { c.settings with
        lastHasMmco5 := c.lastHasMmco5 || op.memoryManagementControlOperation = 5 } := by
  unfold memoryManagementControl
  split <;> rename_i hop
  · simp [hop, VideoCtx.settings]
  · rw [VideoCtx.modifyDpb_settings_of_order _ (by simp), hop]
    simp [VideoCtx.settings]
  · rw [VideoCtx.modifyDpb_settings_of_order _ (by simp), hop]
    simp [VideoCtx.settings]
  · rw [VideoCtx.modifyDpb_settings_of_order _ (by simp), hop]
    simp [VideoCtx.settings]
  · rw [VideoCtx.modifyDpb_settings_of_order _ (by simp), hop]
    simp [VideoCtx.settings]
  · have h := VideoCtx.modifyDpb_settings_of_order c
      (g := fun d => mmUnmarkAllLongTermForReference (mmUnmarkAllShortTermForReference d))
      (by simp [mmUnmarkAllLongTermForReference])
    simp only [hop, decide_true, Bool.or_true]
    calc _ = { (c.modifyDpb fun d => mmUnmarkAllLongTermForReference
              (mmUnmarkAllShortTermForReference d)).settings with lastHasMmco5 := true } := rfl
      _ = _ := by rw [h]
  · have h := VideoCtx.modifyDpb_settings_of_order c
      (g := fun d => checkNumRef (mmMarkCurrentPictureLongTerm d c.maxFrameNum p
        op.longTermFrameIdx).1) (by simp)
    simp only [hop]
    calc _ = (c.modifyDpb fun d => checkNumRef (mmMarkCurrentPictureLongTerm d c.maxFrameNum p
              op.longTermFrameIdx).1).settings := rfl
      _ = _ := by rw [h]; simp [VideoCtx.settings]
  · have h5 : op.memoryManagementControlOperation ≠ 5 := by assumption
    simp [h5, VideoCtx.settings]

theorem memoryManagementControls_settings {ops : List Drpm}
    (h : memoryManagementControls c p ops = w) (hok : 0 ≤ w.2.2) :
    w.1.settings = { c.settings with lastHasMmco5 := c.lastHasMmco5 || hasMmco5 ops } := by
  induction ops generalizing c p with
  | nil =>
    subst h
    simp [memoryManagementControls, hasMmco5, VideoCtx.settings]
  | cons op ops ih =>
    have hs := memoryManagementControl_settings c p op ops.isEmpty
    rw [memoryManagementControls] at h
    split_ifs at h with hneg
    · exact absurd (h ▸ hneg) (not_lt.2 hok)
    · have h5 := congrArg Settings.lastHasMmco5 hs
      change (memoryManagementControl c p op ops.isEmpty).1.lastHasMmco5 = _ at h5
      rw [ih _ _ h, hs, h5]
      simp [hasMmco5, Bool.or_assoc]

theorem adaptiveMemoryManagement_settings (h : adaptiveMemoryManagement c p = some w)
    (hok : 0 ≤ w.2.2) :
    w.1.settings =
      { c.settings with lastHasMmco5 := hasMmco5 p.decRefPicMarkingBuffer } := by
  unfold adaptiveMemoryManagement at h
  split at h
  · rw [← some.inj h] at hok
    exact absurd (show mppErrValue < 0 by decide) (not_lt.2 hok)
  · dsimp only at h
    generalize hx : memoryManagementControls { c with lastHasMmco5 := false } p
      p.decRefPicMarkingBuffer = x at h
    split at h
    · rename_i hneg
      rw [← some.inj h] at hok
      exact absurd hneg (not_lt.2 hok)
    · rename_i hneg
      have hs := memoryManagementControls_settings _ p hx (not_lt.1 hneg)
      rw [Bool.false_or] at hs
      split at h
      · obtain ⟨y, hy, rfl⟩ := map_eq_some_iff.1 h
        rw [flushDpb_settings _ hy, hs]
        rfl
      · rw [← some.inj h, hs]
        rfl

theorem markReferences_settings (h : markReferences c p = some w) (hok : 0 ≤ w.2.2)
    (h5 : c.lastHasMmco5 = false) :
    w.1.settings =
      { c.settings with
        lastHasMmco5 := p.isAdaptive && hasMmco5 p.decRefPicMarkingBuffer } := by
  unfold markReferences at h
  split at h
  · rename_i hidr
    rw [idrMemoryManagement_settings c p h]
    simp [StorePic.isAdaptive, hidr, VideoCtx.settings, h5]
  · split at h
    · rename_i hidr ha
      rw [adaptiveMemoryManagement_settings c p h hok]
      simp_all [StorePic.isAdaptive]
    · rename_i hidr ha
      have : p.isAdaptive = false := by simp_all [StorePic.isAdaptive]
      rw [← some.inj h, this]
      simp [VideoCtx.settings, h5]

end Marking

/-! ## The storing of a picture -/

section Store

variable (c : VideoCtx) (p : StorePic)

@[simp]
theorem dpbSplitField_settings (f : FrameStore) :
    (dpbSplitField c f p).1.settings = c.settings := by
  unfold dpbSplitField
  dsimp only
  split
  · rfl
  · split
    · split <;> rfl
    · rfl

@[simp]
theorem insertPictureInDpb_settings (f : FrameStore) (b : Bool) :
    (insertPictureInDpb c f p b).1.settings = c.settings := by
  unfold insertPictureInDpb
  split
  · exact dpbSplitField_settings c p _
  · rfl
  · rfl

@[simp]
theorem outputPair_settings : (outputPair c p).settings = c.settings := by
  unfold outputPair
  dsimp only
  split
  · rw [VideoCtx.modifyDpb_settings _ (by rfl) (by rfl)]
    simp
  · rfl

@[simp]
theorem directOutput_settings : (directOutput c p).1.settings = c.settings := by
  unfold directOutput
  dsimp only
  split
  · refine funCheck_settings c (flushDirectOutput_settings c) fun c' => ?_
    rw [VideoCtx.modifyDpb_settings _ (by rfl) (by rfl), freeStorablePicture_settings,
      VideoCtx.modifyDpb_settings _ (by rfl) (by rfl), writePicture_settings]
  all_goals
    refine funCheck_settings c ?_ fun c' => ?_
    · split <;> simp
    · rw [outputPair_settings, VideoCtx.modifyDpb_settings _ (by rfl) (by rfl)]

@[simp]
theorem flushOneDpbMark_settings (m : Option ℕ) :
    (flushOneDpbMark c m).settings = c.settings := by
  unfold flushOneDpbMark
  dsimp only
  split
  · split <;> rfl
  · rfl

@[simp]
theorem removeFirst_settings : (removeFirst c).1.settings = c.settings := by
  unfold removeFirst
  dsimp only
  refine funCheck_settings c ?_ fun c' => removeFrameFromDpb_settings c' 0
  have hm : (c.modifyDpb fun d => d.modify (c.dpb.fs.getD 0 0) unmarkForReference).settings =
      c.settings := VideoCtx.modifyDpb_settings _ (by rfl) (by rfl)
  split
  · exact hm
  · rw [writeStoredFrame_settings, hm]

@[simp]
theorem roomTurn_settings (first : Bool) : (roomTurn c first).1.settings = c.settings := by
  unfold roomTurn
  split <;> simp

theorem removeUnusedFrameFromDpb_getD_settings :
    ((removeUnusedFrameFromDpb c).getD c).settings = c.settings := by
  cases h : removeUnusedFrameFromDpb c with
  | none => rfl
  | some c' => exact removeUnusedFrameFromDpb_settings c h

theorem makeRoom_settings {n : ℕ} {w : RoomRet} (h : makeRoom n c p = some w) :
    w.1.settings = c.settings := by
  induction n generalizing c p with
  | zero =>
    rw [makeRoom] at h
    split_ifs at h
    rw [← some.inj h]
  | succ n ih =>
    rw [makeRoom] at h
    dsimp only at h
    have hu := removeUnusedFrameFromDpb_getD_settings c
    split at h
    · split at h
      · rw [← some.inj h, directOutput_settings, hu]
      · split at h
        · rw [← some.inj h, roomTurn_settings, hu]
        · rw [ih _ _ h, roomTurn_settings, hu]
    · rw [← some.inj h]

@[simp]
theorem storeNew_settings : (storeNew c p).settings = c.settings := by
  unfold storeNew
  dsimp only
  rw [VideoCtx.modifyDpb_settings _ (by rfl) (by rfl), scanDpbOutput_settings,
    VideoCtx.modifyDpb_settings _ (by rfl) (by rfl), insertPictureInDpb_settings]

@[simp]
theorem storeSecondField_settings (l : LastPicture) :
    (storeSecondField c p l).settings = c.settings := by
  unfold storeSecondField
  dsimp only
  rw [scanDpbOutput_settings]
  split <;> rw [VideoCtx.modifyDpb_settings _ (by rfl) (by rfl), insertPictureInDpb_settings]

variable {w : Ret}

theorem storeSingle_settings (h : storeSingle c p = some w) : w.1.settings = c.settings := by
  obtain ⟨x, hx, rfl⟩ := map_eq_some_iff.1 h
  have hs : x.1.settings = c.settings := by
    rw [makeRoom_settings _ _ hx, removeAllUnused_settings]
    split
    · exact VideoCtx.modifyDpb_settings_of_order _ (slidingWindowMemoryManagement_order _)
    · rfl
  obtain ⟨c', p', room, ret⟩ := x
  cases room with
  | output => exact hs
  | store =>
    dsimp only
    split
    · exact hs
    · rw [storeNew_settings, hs]

theorem storeMarked_settings (h : storeMarked c p = some w) : w.1.settings = c.settings := by
  unfold storeMarked at h
  split at h
  · split at h
    · rw [← some.inj h]
      refine funCheck_settings c ?_ fun c' => VideoCtx.modifyDpb_settings _ (by rfl) (by rfl)
      split <;> simp
    · exact storeSingle_settings c p h
  · exact storeSingle_settings c p h

/-- Storing a picture changes of the settings what is noted of its own. -/
theorem storePictureInDpb_settings (h : storePictureInDpb c p = some w) (hok : 0 ≤ w.2) :
    w.1.settings =
      { c.settings with
        lastHasMmco5 := p.isAdaptive && hasMmco5 p.decRefPicMarkingBuffer
        lastPicBottomField := p.picStructure = .bottomField } := by
  unfold storePictureInDpb at h
  dsimp only at h
  obtain ⟨x, hx, rfl⟩ := map_eq_some_iff.1 h
  obtain ⟨y, hy, hyx⟩ := bind_eq_some_iff.1 hx
  split_ifs at hok ⊢ with hx0
  · exact absurd hx0 (not_lt.2 hok)
  · split_ifs at hyx with hy0
    · rw [← some.inj hyx] at hx0
      exact absurd hy0 hx0
    · rw [storeMarked_settings _ _ hyx, markReferences_settings _ p hy (not_lt.1 hy0) rfl]
      split
      · split <;> rfl
      · rfl

/-- Taking the memory of a picture changes of the picture where its memory is. -/
theorem dpbMarkMalloc_eq_some {slotIdx : ℤ} {w : VideoCtx × StorePic}
    (h : dpbMarkMalloc c p slotIdx = some w) :
    w.1.settings = c.settings ∧
      ∃ m, w.2 = { p with memMark := some m, memMallocType := .malloc } := by
  unfold dpbMarkMalloc at h
  dsimp only at h
  obtain ⟨⟨c', m⟩, hnew, rfl⟩ := map_eq_some_iff.1 h
  refine ⟨?_, m, rfl⟩
  change c'.settings = c.settings
  split at hnew
  · obtain ⟨m', -, heq⟩ := map_eq_some_iff.1 hnew
    rw [(Prod.mk.inj heq).1]
  · obtain ⟨m', -, heq⟩ := map_eq_some_iff.1 hnew
    rw [← (Prod.mk.inj heq).1]
    rfl

@[simp]
theorem numberReferences_settings : (numberReferences c p).settings = c.settings :=
  VideoCtx.modifyDpb_settings_of_order _ (by simp)

/-- Decoding a picture changes of the settings what is noted of its own. -/
theorem decodePicture_settings {slotIdx : ℤ} (h : decodePicture c p slotIdx = some w)
    (hok : 0 ≤ w.2) :
    w.1.settings =
      { c.settings with
        lastHasMmco5 := p.isAdaptive && hasMmco5 p.decRefPicMarkingBuffer
        lastPicBottomField := p.picStructure = .bottomField } := by
  obtain ⟨x, hx, hw⟩ := bind_eq_some_iff.1 h
  obtain ⟨hs, m, hp⟩ := dpbMarkMalloc_eq_some c _ hx
  rw [storePictureInDpb_settings _ _ hw hok, numberReferences_settings, hs, hp]
  rfl

end Store

end Libmpp.H264d
