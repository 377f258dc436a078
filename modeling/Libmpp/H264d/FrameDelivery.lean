import Libmpp.H264d.FrameLife
import Libmpp.H264d.RefBound

/-!
# The delivery of frames

In every run of frames in which no frame that waits for output is dropped, a flush leaves
the decoder with no frame, no mark and no slot, and every frame that came in was put into
the display queue once (`reachable_flushed`).
-/

namespace Libmpp.H264d

open Relation Base Lives List Option

/-! ## What the store of a frame does to its memory -/

/-- The frame that comes in, as the decoder makes it: it was not output, and its order
    count is that of its first field. -/
structure StorePic.IsFresh (p : StorePic) : Prop where
  isFrame : p.picStructure = .frame
  isOutput : p.isOutput = false
  poc : p.poc = min p.topPoc p.bottomPoc
  lt : p.poc < INT_MAX

namespace FrmBuf

variable {b b' : FrmBuf} {p : StorePic} {cfg : DecCfg} {past : List (ℤ × ℤ)} {m : ℕ}

/-- An IDR frame drops no frame that waits for output. -/
def KeepsWaiting (b : FrmBuf) (p : StorePic) : Prop :=
  p.idrFlag → p.noOutputOfPriorPicsFlag → ∀ f ∈ b.frames, f.isOutput

theorem idr_eq {o : Bool} (h : o → ∀ f ∈ b.frames, f.isOutput) : b.idr o = b.idr false := by
  cases o with
  | false => rfl
  | true =>
    have hmap : b.frames.map (fun f => { f with isOutput := true }) = b.frames := by
      refine (map_congr_left fun f hf => ?_).trans (map_id _)
      rw [← h rfl f hf]
      rfl
    have heq : b.modify (List.map fun f => { f with isOutput := true }) = b := by
      rw [modify, hmap]
    rw [idr, if_pos rfl, heq]
    rfl

theorem mark_steps (hk : b.KeepsWaiting p) {w : FrmBuf × StorePic × MppRet}
    (h : b.mark p = some w) : Steps b w.1 := by
  unfold mark at h
  split at h <;> rename_i hidr
  · obtain ⟨c, hc, rfl⟩ := map_eq_some_iff.1 h
    rw [idr_eq (hk hidr)] at hc
    exact (idr_steps hc).1
  split at h
  · have hs := controls_steps b p p.decRefPicMarkingBuffer
    dsimp only at h
    split at h
    · obtain rfl := some.inj h
      exact hs
    · split at h
      · obtain ⟨c, hc, rfl⟩ := map_eq_some_iff.1 h
        exact hs.trans (flush_steps hc).1
      · obtain rfl := some.inj h
        exact hs
  · obtain rfl := some.inj h
    exact .refl

/-- The order count of a frame after its marking. -/
theorem mark_poc (hp : p.IsFresh) {w : FrmBuf × StorePic × MppRet} (h : b.mark p = some w) :
    w.2.1.poc < INT_MAX := by
  unfold mark at h
  split at h
  · obtain ⟨c, hc, rfl⟩ := map_eq_some_iff.1 h
    dsimp only
    split <;> exact hp.lt
  split at h
  · obtain ⟨l, i, hpic⟩ := b.controls_pic p p.decRefPicMarkingBuffer
    dsimp only at h
    split at h
    · obtain rfl := some.inj h
      rw [hpic]
      exact hp.lt
    · split at h
      · -- The frame is numbered anew, from its first field.
        obtain ⟨c, hc, rfl⟩ := map_eq_some_iff.1 h
        have h0 : (resetPicNums (b.controls p p.decRefPicMarkingBuffer).2.1).poc = 0 := by
          rw [hpic]
          simp only [resetPicNums, hp.isFrame, hp.poc]
          omega
        dsimp only
        rw [h0]
        decide
      · obtain rfl := some.inj h
        rw [hpic]
        exact hp.lt
  · obtain rfl := some.inj h
    exact hp.lt

/-- A frame that is output without being stored. -/
theorem output_balanced (h : b.Balanced past [⟨m, 1, false⟩]) (hm : p.memMark = some m) :
    (b.output p).Balanced past [] := by
  have hw := (h.perm perm_append_comm).write
  have hr := Mem.Balanced.release (f :=
    { poc := 0, frameNum := 0, ref := none, isOutput := true, mark := m, uses := 1 }) hw rfl
  rw [Mem.release, if_neg (show ¬1 = 2 by decide)] at hr
  rw [Balanced, append_nil, output, hm]
  exact hr

/-- A frame that is put behind the others. -/
theorem split_balanced (h : b.Balanced past [⟨m, 1, false⟩]) (hm : p.memMark = some m)
    (ho : p.isOutput = false) :
    Balanced { b with
      frames := b.frames ++ [Frm.ofPic p]
      mem := b.mem.split (Frm.ofPic p) } past [] := by
  have hmark : (Frm.ofPic p).mark = m := by simp [Frm.ofPic, hm]
  have huse : (Frm.ofPic p).use = ⟨(Frm.ofPic p).mark, (Frm.ofPic p).uses, false⟩ := by
    simp [Frm.use, Frm.ofPic, ho]
  have huses : (Frm.ofPic p).uses = 1 ∨ (Frm.ofPic p).uses = 2 := by
    rw [Frm.ofPic]
    cases p.frameMbsOnlyFlag
    · exact .inr rfl
    · exact .inl rfl
  have hs := (hmark ▸ h.perm perm_append_comm :
    b.mem.Balanced past (⟨(Frm.ofPic p).mark, 1, false⟩ :: b.frames.map Frm.use)).split huses
  rw [Balanced, append_nil, map_append]
  refine hs.perm ?_
  rw [← huse]
  exact (perm_append_singleton _ _).symm

/-- A frame that is stored. -/
theorem add_balanced (h : b.Balanced past [⟨m, 1, false⟩]) (hm : p.memMark = some m)
    (ho : p.isOutput = false) : (b.add cfg p).Balanced past [] :=
  (scan_steps _).balanced (split_balanced h hm ho)

theorem add_findable (h : b.Findable) (hp : p.poc < INT_MAX) : (b.add cfg p).Findable := by
  refine (scan_steps _).findable fun f hf => ?_
  rcases mem_append.1 hf with hf | hf
  · exact h f hf
  · rw [mem_singleton.1 hf]
    exact hp

theorem storeMarked_balanced (h : b.Balanced past [⟨m, 1, false⟩]) (hb : b.Findable)
    (hm : p.memMark = some m) (ho : p.isOutput = false) (hp : p.poc < INT_MAX)
    (hs : b.storeMarked cfg p = some b') : b'.Balanced past [] ∧ b'.Findable := by
  obtain ⟨⟨c, q, room⟩, hv, rfl⟩ := map_eq_some_iff.1 hs
  obtain ⟨l, hq⟩ : ∃ l, q = { p with isLongTerm := l } := by
    obtain ⟨l, hl⟩ := makeRoom_pic hv
    refine ⟨l, hl.trans ?_⟩
    split <;> rfl
  have hsteps : Steps b c := by
    refine Relation.ReflTransGen.trans ?_ ((purge_steps _).trans (makeRoom_steps hv))
    split
    · exact .single (.mark (setFirst_remarked _ _ _) rfl)
    · exact .refl
  have hc := hsteps.balanced h
  have hf := hsteps.findable hb
  cases room with
  | output => exact ⟨output_balanced hc (by rw [hq]; exact hm), hf⟩
  | store =>
    exact ⟨add_balanced hc (by rw [hq]; exact hm) (by rw [hq]; exact ho),
      add_findable hf (by rw [hq]; exact hp)⟩

/-- The frame in hand is stored, output, or given up. -/
theorem store_balanced (h : (b.mem.use m).Balanced past (b.frames.map Frm.use ++ [⟨m, 1, false⟩]))
    (hb : b.Findable) (hm : p.memMark = some m) (hp : p.IsFresh) (hk : b.KeepsWaiting p)
    {ret : MppRet} (hs : b.store cfg p = some (b', ret)) :
    b'.Balanced past [] ∧ b'.Findable := by
  obtain ⟨w, hw, hstep⟩ := bind_eq_some_iff.1 hs
  simp only [hm, getD_some] at hw hstep
  have hsteps : Steps { b with mem := b.mem.use m } w.1 :=
    mark_steps (b := { b with mem := b.mem.use m }) hk hw
  have hkept := mark_kept hw
  have hc := hsteps.balanced h
  have hf := hsteps.findable hb
  split at hstep <;> rename_i hneg
  · obtain ⟨rfl, -⟩ := Prod.mk.inj (some.inj hstep)
    refine ⟨?_, hf⟩
    rw [Balanced, append_nil]
    exact (hc.perm perm_append_comm).giveUp
  · obtain ⟨d, hd, heq⟩ := map_eq_some_iff.1 hstep
    obtain ⟨rfl, -⟩ := Prod.mk.inj heq
    refine storeMarked_balanced hc hf ?_ ?_ (mark_poc hp hw) hd
    · exact (show w.2.1.kept.memMark = p.kept.memMark from hkept ▸ rfl).trans hm
    · exact (show w.2.1.kept.isOutput = p.kept.isOutput from hkept ▸ rfl).trans hp.isOutput

/-- A mark that is free is the mark of no frame. -/
theorem freeMark_ne (h : b.Balanced past []) (hm : b.mem.freeMark = some m) :
    ∀ u ∈ b.frames.map Frm.use, u.mark ≠ m := by
  rintro u hu rfl
  have hc := h.counts u (mem_append_left _ hu)
  have hfree := find?_some hm
  have htop : (b.mem.dpbMark u.mark).topUsed = 0 := by simp_all
  rcases hc.uses with h1 | h1 <;> exact absurd (hc.top.symm.trans htop) (by omega)

/-- The numbering does not concern the memory. -/
theorem number_mem (b : FrmBuf) (p : StorePic) (x : Mem) :
    { b with mem := x }.number cfg p = { b.number cfg p with mem := x } := by
  unfold number
  split <;> rfl

theorem decode_balanced (h : b.Balanced past []) (hb : b.Findable) (hp : p.IsFresh)
    (hk : b.KeepsWaiting p) {slotIdx : ℤ} (hs : 0 ≤ slotIdx)
    (hfree : ∀ u ∈ b.frames.map Frm.use, (b.mem.dpbMark u.mark).slotIdx ≠ slotIdx)
    {ret : MppRet} (hd : b.decode cfg p slotIdx = some (b', ret)) :
    b'.Balanced (past ++ [(slotIdx, p.poc)]) [] ∧ b'.Findable := by
  obtain ⟨m, hm, hst⟩ := bind_eq_some_iff.1 hd
  have h₀ : b.mem.Balanced past (b.frames.map Frm.use) := by
    rw [← append_nil (b.frames.map Frm.use)]
    exact h
  have ht : ((b.mem.take m slotIdx p.poc).use m).Balanced _ _ :=
    h₀.take (freeMark_ne h hm) hs hfree
  dsimp only at hst
  generalize hq : { p with memMark := some m, memMallocType := .malloc, combineFlag := false } = q
    at hst
  rw [number_mem] at hst
  -- The frames are numbered while the frame is in hand.
  have hsteps : Steps { b with mem := (b.mem.take m slotIdx p.poc).use m }
      { b.number cfg q with mem := (b.mem.take m slotIdx p.poc).use m } :=
    number_mem b q _ ▸ number_steps _ _
  have hbal : Balanced _ _ [⟨m, 1, false⟩] :=
    hsteps.balanced (ht.perm (perm_append_singleton _ _).symm)
  have hmark : q.memMark = some m := by rw [← hq]
  have hfresh : q.IsFresh := by
    rw [← hq]
    exact ⟨hp.isFrame, hp.isOutput, hp.poc, hp.lt⟩
  refine store_balanced (b := { b.number cfg q with mem := b.mem.take m slotIdx p.poc }) hbal
    (hsteps.findable hb) hmark hfresh ?_ hst
  intro hidr hno
  dsimp only
  rw [number, if_pos hidr]
  subst hq
  exact hk hidr hno

end FrmBuf

/-! ## The store of a frame gets to its end -/

namespace FrmBuf

variable {b : FrmBuf} {p : StorePic} {cfg : DecCfg}

/-- The turns that make the buffer empty: each frame is output and removed. -/
def turns (b : FrmBuf) : ℕ := b.frames.length + b.frames.countP (!·.isOutput)

theorem turns_le (b : FrmBuf) : b.turns ≤ 2 * b.frames.length := by
  have h : b.frames.countP (!·.isOutput) ≤ b.frames.length := countP_le_length
  rw [turns]
  omega

theorem turns_eraseIdx_lt {b' : FrmBuf} {k : ℕ} (hk : k < b.frames.length)
    (h : b'.frames = b.frames.eraseIdx k) : b'.turns < b.turns := by
  have hc : b'.frames.countP (!·.isOutput) ≤ b.frames.countP (!·.isOutput) :=
    h ▸ (eraseIdx_sublist _ _).countP_le
  have hl : b'.frames.length = b.frames.length - 1 := by rw [h, length_eraseIdx_of_lt hk]
  rw [turns, turns]
  omega

/-- A frame that waits is output, or there is none. -/
theorem outputOne_turns (h : smallest b.frames ≠ none) : b.outputOne.turns < b.turns := by
  obtain ⟨⟨n, k⟩, hs⟩ := ne_none_iff_exists'.1 h
  obtain ⟨f, hf, -, ho⟩ := (isSmallest_of_eq hs).get
  obtain ⟨hlt, rfl⟩ := List.getElem?_eq_some_iff.1 hf
  rw [outputOne, hs]
  dsimp only
  split
  · have hw : (b.write k).frames = b.frames.set k { b.frames[k] with isOutput := true } := by
      rw [write_frames, modify_eq_set_getElem?, hf]
      rfl
    have hpos : 0 < b.frames.countP (!·.isOutput) :=
      countP_pos_iff.2 ⟨_, getElem_mem hlt, by rw [ho]; rfl⟩
    rw [turns, turns, hw, length_set, countP_set hlt, ho]
    simp only [Bool.not_false, if_true, Bool.not_true, Bool.false_eq_true, if_false]
    omega
  · refine turns_eraseIdx_lt hlt ?_
    rw [remove_frames, write_frames, eraseIdx_modify]

theorem removeFirst_turns (h : 0 < b.frames.length) : b.removeFirst.turns < b.turns :=
  turns_eraseIdx_lt h b.removeFirst_frames

/-- The loop that makes room gets to its end. -/
theorem makeRoom_isSome (hpos : 0 < cfg.size) {n : ℕ} (hn : b.turns ≤ n) (hb : b.Clean) :
    (makeRoom cfg n b p).isSome := by
  have hfull (hf : b.isFull cfg) : 0 < b.frames.length := by
    simp [isFull] at hf
    omega
  induction n generalizing b p with
  | zero =>
    rw [makeRoom, if_neg fun hf => ?_]
    · rfl
    · have := hfull hf
      rw [turns] at hn
      omega
  | succ n ih =>
    rw [makeRoom]
    split <;> rename_i hf
    · dsimp only
      rw [b.removeUnused_eq_none.2 hb, getD_none]
      split
      · rfl
      · have hturn : (if b.comesFirst p then b.removeFirst else b.outputOne).turns < b.turns ∧
            (if b.comesFirst p then b.removeFirst else b.outputOne).Clean := by
          split <;> rename_i hfirst
          · exact ⟨removeFirst_turns (hfull hf), hb.removeFirst⟩
          · refine ⟨outputOne_turns fun hnone => hfirst ?_, hb.outputOne⟩
            rw [comesFirst, hnone]
            rfl
        refine ih (by omega) hturn.2 fun hf => ?_
        simp [isFull] at hf
        omega
    · rfl

theorem storeMarked_isSome (hpos : 0 < cfg.size) : (b.storeMarked cfg p).isSome := by
  rw [storeMarked, isSome_map]
  exact makeRoom_isSome hpos (turns_le _) (purge_clean _)

theorem idr_isSome (hb : b.Findable) (o : Bool) : (b.idr o).isSome := by
  rw [idr, isSome_map]
  refine flush_isSome ?_
  split
  · intro f hf
    obtain ⟨g, hg, rfl⟩ := mem_map.1 hf
    exact hb g hg
  · exact hb

theorem mark_isSome (hb : b.Findable) : (b.mark p).isSome := by
  unfold mark
  split
  · rw [isSome_map]
    exact idr_isSome hb _
  · split
    · dsimp only
      split
      · rfl
      · split
        · rw [isSome_map]
          exact flush_isSome ((controls_steps b p _).findable hb)
        · rfl
    · rfl

theorem store_isSome (hpos : 0 < cfg.size) (hb : b.Findable) : (b.store cfg p).isSome := by
  obtain ⟨w, hw⟩ := isSome_iff_exists.1
    (mark_isSome (b := { b with mem := b.mem.use (p.memMark.getD 0) }) (p := p) hb)
  rw [store, hw, bind_some]
  split
  · rfl
  · rw [isSome_map]
    exact storeMarked_isSome hpos

/-- There is a free mark, when there are more marks than frames. -/
theorem freeMark_isSome {past : List (ℤ × ℤ)} (h : b.Balanced past [])
    (hlen : b.frames.length < maxMarkSize) : b.mem.freeMark.isSome := by
  obtain ⟨m, hm, hne⟩ : ∃ m ∈ Finset.range maxMarkSize, m ∉ (b.frames.map (·.mark)).toFinset := by
    refine Finset.exists_mem_notMem_of_card_lt_card ?_
    rw [Finset.card_range]
    exact ((toFinset_card_le _).trans_eq (length_map _)).trans_lt hlen
  rw [Mem.freeMark, find?_isSome]
  refine ⟨m, mem_range.2 (Finset.mem_range.1 hm), ?_⟩
  rw [h.free m fun u hu he => hne ?_]
  · rfl
  · rw [append_nil] at hu
    obtain ⟨f, hf, rfl⟩ := mem_map.1 hu
    exact mem_toFinset.2 (mem_map.2 ⟨f, hf, he⟩)

theorem decode_isSome {past : List (ℤ × ℤ)} (hpos : 0 < cfg.size) (h : b.Balanced past [])
    (hb : b.Findable) (hlen : b.frames.length < maxMarkSize) (slotIdx : ℤ) :
    (b.decode cfg p slotIdx).isSome := by
  obtain ⟨m, hm⟩ := isSome_iff_exists.1 (freeMark_isSome h hlen)
  rw [decode, hm, bind_some]
  exact store_isSome hpos ((number_steps _ _).findable hb)

end FrmBuf

/-! ## Runs -/

/-- The decoder uses the slot: the last change of its flag set it. -/
def usedByCodec (ops : List SlotOp) (s : ℤ) : Bool :=
  (ops.filter fun o => o = .setFlag s .codecUse || o = .clrFlag s .codecUse).getLast? =
    some (.setFlag s .codecUse)

/-- The decoder, and the slots and order counts of the frames that came in. -/
structure Feed where
  ctx : VideoCtx
  past : List (ℤ × ℤ)

/-- The decoder after a frame. -/
def Feed.decode (x : Feed) (a : Coming) : Option Feed :=
  (x.ctx.decode a).map fun c => ⟨c, x.past ++ [(a.slotIdx, a.pic.poc)]⟩

def feedMachine (cfg : DecCfg) : Machine Feed Coming :=
  .ofPartial ⟨initVideoCtx cfg, []⟩ Feed.decode

/-- The frame comes into a slot that the decoder does not use. -/
structure Feed.Accepts (x : Feed) (a : Coming) : Prop where
  fresh : a.pic.IsFresh
  slot : 0 ≤ a.slotIdx
  unused : usedByCodec x.ctx.slotOps a.slotIdx = false

/-- The frame comes into a slot of its own and drops none that waits for output. -/
def Feed.Delivers (x : Feed) (a : Coming) : Prop :=
  x.Accepts a ∧ x.ctx.buf.KeepsWaiting a.pic

section Decidable

variable (x : Feed) (a : Coming) (p : StorePic) (b : FrmBuf)

instance : Decidable p.IsFresh :=
  decidable_of_iff (p.picStructure = .frame ∧ p.isOutput = false ∧
    p.poc = min p.topPoc p.bottomPoc ∧ p.poc < INT_MAX)
    ⟨fun ⟨h₁, h₂, h₃, h₄⟩ => ⟨h₁, h₂, h₃, h₄⟩, fun h => ⟨h.1, h.2, h.3, h.4⟩⟩

instance : Decidable (x.Accepts a) :=
  decidable_of_iff (a.pic.IsFresh ∧ 0 ≤ a.slotIdx ∧ usedByCodec x.ctx.slotOps a.slotIdx = false)
    ⟨fun ⟨h₁, h₂, h₃⟩ => ⟨h₁, h₂, h₃⟩, fun h => ⟨h.1, h.2, h.3⟩⟩

instance : Decidable (b.KeepsWaiting p) := by
  unfold FrmBuf.KeepsWaiting
  infer_instance

instance : Decidable (x.Delivers a) := by
  unfold Feed.Delivers
  infer_instance

end Decidable

/-- The decoder uses the slots of the frames that wait or are kept. -/
theorem Mem.Balanced.usedByCodec {x : Mem} {past : List (ℤ × ℤ)} {us : List Use}
    (h : x.Balanced past us) {u : Use} (hu : u ∈ us) :
    H264d.usedByCodec x.slotOps (x.dpbMark u.mark).slotIdx = true := by
  obtain ⟨before, -, hl⟩ := h.lives.held _ (mem_map_of_mem hu)
  generalize hs : (x.dpbMark u.mark).slotIdx = s at *
  have hslot : (x.tenure u).slot = s := hs
  rw [hslot] at hl
  have hfilter : (x.slotOps.filter fun o => o = .setFlag s .codecUse || o = .clrFlag s .codecUse) =
      (ofSlot SlotOp.slotIdx x.slotOps s).filter
        fun o => o = .setFlag s .codecUse || o = .clrFlag s .codecUse := by
    rw [ofSlot, List.filter_filter]
    refine filter_congr fun o _ => ?_
    cases o <;> simp +contextual [SlotOp.slotIdx]
  have hpart : ((x.tenure u).part.filter
      fun o => o = .setFlag s .codecUse || o = .clrFlag s .codecUse) =
        [.setFlag s .codecUse] := by
    rw [tenure, hs]
    cases u.isOutput <;> simp [life]
  rw [H264d.usedByCodec, hfilter, hl, filter_append, hpart]
  simp

/-- The memory of the decoder is balanced, and its frames are found. -/
structure Feed.Balanced (x : Feed) (cfg : DecCfg) : Prop where
  dec : x.ctx.FrameDecoder cfg
  mem : x.ctx.buf.Balanced x.past []
  findable : x.ctx.buf.Findable

theorem Feed.Balanced.decode {x x' : Feed} {cfg : DecCfg} (h : x.Balanced cfg)
    (hpos : 0 < cfg.size) {a : Coming} (ha : x.Delivers a) (hd : x.decode a = some x') :
    x'.Balanced cfg := by
  obtain ⟨⟨hfresh, hslot, hunused⟩, hkeeps⟩ := ha
  obtain ⟨c, hc, rfl⟩ := map_eq_some_iff.1 hd
  obtain ⟨hdec, ret, hb⟩ := h.dec.decode hpos hfresh.isFrame hc
  have hfree : ∀ u ∈ x.ctx.buf.frames.map Frm.use,
      (x.ctx.buf.mem.dpbMark u.mark).slotIdx ≠ a.slotIdx := by
    intro u hu he
    have hused := h.mem.usedByCodec (mem_append_left _ hu)
    rw [he] at hused
    exact Bool.false_ne_true (hunused.symm.trans hused)
  obtain ⟨hmem, hfind⟩ := FrmBuf.decode_balanced
    (b := { x.ctx.buf with iSliceNo := a.iSliceNo }) h.mem h.findable hfresh hkeeps hslot hfree hb
  exact ⟨hdec, hmem, hfind⟩

theorem reachable_balanced (cfg : DecCfg) (hpos : 0 < cfg.size) {x : Feed}
    (h : ((feedMachine cfg).guarded fun x a _ => x.Delivers a).Reachable x) :
    x.Balanced cfg := by
  refine h.invariant (P := fun x => x.Balanced cfg) (fun x hx => ?_)
    fun x a x' _ hx hst => hx.decode hpos hst.2 hst.1
  rw [show x = _ from hx]
  refine ⟨initVideoCtx_frameDecoder cfg, ⟨nodup_nil, ?_, fun _ _ => rfl, Covers.nil⟩, ?_⟩
  · intro u hu
    cases hu
  · intro f hf
    cases hf

/-- Every frame that the decoder accepts is decoded. -/
theorem Feed.Balanced.decode_isSome {x : Feed} {cfg : DecCfg} (h : x.Balanced cfg)
    (hpos : 0 < cfg.size) (hsize : cfg.size < maxMarkSize) {a : Coming}
    (hf : a.pic.picStructure = .frame) : (x.decode a).isSome := by
  have hlen : x.ctx.buf.frames.length < maxMarkSize := by
    rw [VideoCtx.buf_frames, h.dec.only.frames_length]
    exact (h.dec.only.used_le.trans_eq h.dec.conforms.size).trans_lt hsize
  obtain ⟨w, hw⟩ := isSome_iff_exists.1 (FrmBuf.decode_isSome
    (b := { x.ctx.buf with iSliceNo := a.iSliceNo }) (p := a.pic) hpos h.mem h.findable hlen
      a.slotIdx)
  have hrel := decodePicture_buf (c := { x.ctx with iSliceNo := a.iSliceNo }) h.dec.only
    ⟨h.dec.conforms.size, h.dec.conforms.numRefFrames, h.dec.conforms.maxFrameNum,
      h.dec.conforms.maxBufSize, h.dec.conforms.fastOut, h.dec.conforms.enableFastPlay⟩ hpos hf
    a.slotIdx
  rw [Feed.decode, VideoCtx.decode, isSome_map, isSome_map]
  rw [show FrmBuf.decode cfg { x.ctx with iSliceNo := a.iSliceNo : VideoCtx }.buf a.pic a.slotIdx
    = some w from hw] at hrel
  generalize decodePicture _ a.pic a.slotIdx = v at hrel
  cases hrel with
  | some _ => rfl

/-- In every run of frames that drop none, a flush leaves no mark and no slot in use, and
    what was done with each slot are the whole lives of the frames that had it; each frame
    was put into the display queue once. -/
theorem reachable_flushed (cfg : DecCfg) (hpos : 0 < cfg.size) {x : Feed}
    (h : ((feedMachine cfg).guarded fun x a _ => x.Delivers a).Reachable x) :
    ∃ c, flushDpb x.ctx = some (c, mppOk) ∧ (∀ m, c.dpbMark m = resetDpbMark) ∧
      (∀ s, ofSlot SlotOp.slotIdx c.slotOps s = (holders x.past s).flatMap (life s)) ∧
      ∀ s poc, c.slotOps.count (.enqueueDisplay s poc) = x.past.count (s, poc) := by
  obtain ⟨hdec, hmem, hfind⟩ := reachable_balanced cfg hpos h
  obtain ⟨b, hb⟩ := isSome_iff_exists.1 (FrmBuf.flush_isSome hfind)
  have hrel := flushDpb_buf hdec.only
  rw [hb] at hrel
  generalize hw : flushDpb x.ctx = w at hrel
  cases hrel with
  | some hl =>
    obtain ⟨hok, -, rfl⟩ := hl
    obtain ⟨hsteps, hnil⟩ := FrmBuf.flush_steps hb
    have hbal := hsteps.balanced hmem
    rw [FrmBuf.Balanced, hnil] at hbal
    have hlives (s : ℤ) : ofSlot SlotOp.slotIdx _ s = _ := hbal.lives.whole s
    refine ⟨_, congrArg some (Prod.ext rfl hok), fun m => hbal.free m fun u hu => (by cases hu),
      hlives, fun s poc => ?_⟩
    rw [← count_holders, ← count_ofSlot SlotOp.slotIdx]
    refine (congrArg (List.count _) (hlives s)).trans ?_
    refine count_flatMap_life (o := SlotOp.enqueueDisplay s) (fun a b => ?_) _ _
    simp [life, count_cons]

/-- A frame of two that the buffer may hold. -/
def twoFrameDec : DecCfg where
  size := 2
  numRefFrames := 1
  maxFrameNum := 16

theorem reachable_flushed_twoFrameDec :
    ∃ x c, ((feedMachine twoFrameDec).guarded fun x a _ => x.Delivers a).Reachable x ∧
      x.past = [(0, 0), (1, 2), (2, 4), (0, 0)] ∧ flushDpb x.ctx = some (c, mppOk) ∧
      (∀ m, c.dpbMark m = resetDpbMark) ∧
      ofSlot SlotOp.slotIdx c.slotOps 0 = life 0 0 ++ life 0 0 := by
  have h : ((Machine.run Feed.decode (fun x a _ => x.Delivers a)
      ⟨initVideoCtx twoFrameDec, []⟩ [⟨refPic 0 0 true none, 0, 1⟩,
        ⟨refPic 1 2 false none, 1, 1⟩, ⟨refPic 2 4 false none, 2, 1⟩,
        ⟨refPic 0 0 true none, 0, 1⟩]).any
          fun x => x.past = [(0, 0), (1, 2), (2, 4), (0, 0)]) = true := by
    decide +kernel
  obtain ⟨x, hx, hpast⟩ := (any_eq_true _ _).1 h
  have hreach := Machine.Reachable.run (.init rfl) hx
  obtain ⟨c, hc, hmarks, hlives, -⟩ := reachable_flushed twoFrameDec (by decide) hreach
  have hp := of_decide_eq_true hpast
  refine ⟨x, c, hreach, hp, hc, hmarks, ?_⟩
  rw [hlives, hp]
  rfl

/-- A frame that waits for output, and an IDR frame that drops it. -/
def droppingPics : List Coming :=
  [⟨refPic 0 0 true none, 0, 1⟩, ⟨refPic 1 4 false none, 1, 1⟩,
    ⟨{ refPic 0 0 true none with noOutputOfPriorPicsFlag := true }, 2, 1⟩]

/-- A frame that waits for output when an IDR frame drops the frames before it keeps its
    mark and its slot, and is not output. -/
theorem dropped_frame_keeps_slot :
    ∃ x, ((feedMachine twoFrameDec).guarded fun x a _ => x.Accepts a).Reachable x ∧
      ∃ c, flushDpb x.ctx = some (c, mppOk) ∧ c.dpbMark 1 ≠ resetDpbMark ∧
        usedByCodec c.slotOps 1 = true := by
  have h : ((Machine.run Feed.decode (fun x a _ => x.Accepts a)
      ⟨initVideoCtx twoFrameDec, []⟩ droppingPics).any fun x => (flushDpb x.ctx).any fun w =>
        w.2 = mppOk && w.1.dpbMark 1 ≠ resetDpbMark && usedByCodec w.1.slotOps 1) = true := by
    decide +kernel
  obtain ⟨x, hx, hw⟩ := (any_eq_true _ _).1 h
  obtain ⟨⟨c, ret⟩, hc, hcond⟩ := (any_eq_true _ _).1 hw
  simp only [Bool.and_eq_true, decide_eq_true_eq] at hcond
  obtain ⟨⟨rfl, hm⟩, hu⟩ := hcond
  exact ⟨x, Machine.Reachable.run (.init rfl) hx, c, hc, hm, hu⟩

end Libmpp.H264d
