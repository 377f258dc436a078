import Libmpp.H264d.OutputOrder

/-!
# Coded video sequences

A stream is a list of coded video sequences, each an IDR frame with the frames up to the
next one. The frames of every sequence are put into the display queue by increasing order
count, one sequence after the other (`sequences_displayed`), when

* at every frame the buffer has room for the frames that are references or follow a frame
  still to come (`Frm.Fit`), and
* as long as the interval of the order counts is taken to be two (`poc_interval`), no
  order count comes after both of its neighbours (`FillsNoGap`).

A frame whose order count lies between those of two earlier frames that are two apart is
displayed behind both (`between_displayed_late`).
-/

namespace Libmpp.H264d

open Relation Base Lives List Option

/-- The decoder outputs the frames in order, with no limit by the user. -/
structure DecCfg.InOrder (cfg : DecCfg) : Prop where
  noLimit : cfg.maxBufSize = 0
  normal : cfg.fastOut = false
  noFastPlay : cfg.enableFastPlay = .disable

/-! ## The frames when a picture is to be stored -/

/-- The frames after the marking by a picture, without those of no use. -/
def Frm.marked (cfg : DecCfg) (p : StorePic) (l : List Frm) : List Frm :=
  let l := l.map (number cfg.maxFrameNum p.frameNum)
  let l := if p.isAdaptive then p.decRefPicMarkingBuffer.foldl (fun l op => manage op p.frameNum l) l
    else l
  let l := if p.slides ∧ numRefs l = max 1 cfg.numRefFrames then slide l else l
  l.filter (!·.isUnused)

namespace FrmBuf

variable {b b' : FrmBuf} {p : StorePic} {cfg : DecCfg}

theorem filter_eraseIdx {α : Type*} {q : α → Bool} {l : List α} {k : ℕ} {a : α}
    (hk : l[k]? = some a) (ha : q a = false) : (l.eraseIdx k).filter q = l.filter q := by
  induction l generalizing k with
  | nil => rfl
  | cons x l ih =>
    cases k with
    | zero =>
      obtain rfl : x = a := some.inj hk
      rw [eraseIdx_cons_zero, filter_cons_of_neg (by rw [ha]; exact Bool.false_ne_true)]
    | succ k =>
      rw [eraseIdx_cons_succ, filter_cons, filter_cons, ih hk]

/-- The frames of no use go, and no others. -/
theorem purge_frames (b : FrmBuf) : b.purge.frames = b.frames.filter (!·.isUnused) := by
  have hloop (n : ℕ) : (purgeLoop n b).frames.filter (!·.isUnused) =
      b.frames.filter (!·.isUnused) := by
    induction n generalizing b with
    | zero => rfl
    | succ n ih =>
      rw [purgeLoop]
      cases hr : b.removeUnused with
      | none => rfl
      | some c =>
        obtain ⟨k, hk, rfl⟩ := map_eq_some_iff.1 hr
        obtain ⟨hlt, hu, -⟩ := findIdx?_eq_some_iff_getElem.1 hk
        exact (ih _).trans (by
          rw [remove_frames, filter_eraseIdx (getElem?_eq_getElem hlt) (by rw [hu]; rfl)])
  rw [← hloop b.frames.length]
  refine (filter_eq_self.2 fun f hf => ?_).symm
  rw [purge_clean b f hf]
  rfl

/-- Well-formed operations do not fail, and manage the frames one after the other. -/
theorem controls_frames {ops : List Drpm} (h : Frm.wellFormed ops) :
    (b.controls p ops).2.2 = mppOk ∧ (b.controls p ops).1.frames =
      ops.foldl (fun l op => Frm.manage op p.frameNum l) b.frames := by
  induction ops generalizing b p with
  | nil => exact ⟨rfl, rfl⟩
  | cons op ops ih =>
    rw [Frm.wellFormed, Bool.and_eq_true, Bool.and_eq_true, Bool.or_eq_true] at h
    obtain ⟨⟨h6, h0⟩, hops⟩ := h
    have hok : (b.control p op ops.isEmpty).2.2 = mppOk := by
      rw [control]
      split <;> rename_i hop
      · rcases h0 with h0 | h0
        · exact absurd hop (of_decide_eq_true h0)
        · rw [h0]
          rfl
      iterate 6 rfl
      · rename_i n₀ n₁ n₂ n₃ n₄ n₅
        rw [imp_false] at n₀ n₁ n₂ n₃ n₄ n₅ hop
        have := of_decide_eq_true h6
        omega
    obtain ⟨hf, hn⟩ := control_frames (hok ▸ (by decide : (0 : ℤ) ≤ mppOk))
    obtain ⟨hok', hf'⟩ := ih (b := (b.control p op ops.isEmpty).1)
      (p := (b.control p op ops.isEmpty).2.1) hops
    rw [controls, hok, if_neg (show ¬mppOk < 0 by decide)]
    refine ⟨hok', ?_⟩
    rw [hf', hf, hn]
    rfl

/-! A flush leaves the interval of the order counts as it is. -/

theorem write_pocInterval (b : FrmBuf) (k : ℕ) : (b.write k).pocInterval = b.pocInterval := by
  rw [write]
  cases b.frames[k]? <;> rfl

theorem remove_pocInterval (b : FrmBuf) (k : ℕ) : (b.remove k).pocInterval = b.pocInterval := by
  rw [remove]
  cases b.frames[k]? <;> rfl

theorem purge_pocInterval (b : FrmBuf) : b.purge.pocInterval = b.pocInterval := by
  rw [purge]
  generalize b.frames.length = n
  induction n generalizing b with
  | zero => rfl
  | succ n ih =>
    rw [purgeLoop]
    cases hr : b.removeUnused with
    | none => rfl
    | some c =>
      obtain ⟨k, -, rfl⟩ := map_eq_some_iff.1 hr
      exact (ih _).trans (b.remove_pocInterval k)

theorem outputOne_pocInterval (b : FrmBuf) : b.outputOne.pocInterval = b.pocInterval := by
  rw [outputOne]
  split
  · split
    · exact b.write_pocInterval _
    · rw [remove_pocInterval, write_pocInterval]
  · rfl

theorem flushLoop_pocInterval {n : ℕ} (h : flushLoop n b = some b') :
    b'.pocInterval = b.pocInterval := by
  induction n generalizing b with
  | zero =>
    rw [flushLoop] at h
    split at h <;> cases h
    rfl
  | succ n ih =>
    rw [flushLoop] at h
    split at h
    · cases h
      rfl
    · exact (ih h).trans b.outputOne_pocInterval

namespace Shows

variable {past : List (ℤ × ℤ)} {hand : List (ℕ × ℤ)} {base total shown later : List ℤ}

/-- At a flush all frames were displayed, in increasing order. -/
theorem flush (h : b.Shows past hand base total shown []) (hf : b.flush = some b') :
    ∃ l, l.Perm total ∧ l.Pairwise (· < ·) ∧ b'.frames = [] ∧
      b'.pocInterval = b.pocInterval ∧ b'.Shows past hand (base ++ l) [] [] [] := by
  obtain ⟨d, hd, rfl⟩ := map_eq_some_iff.1 hf
  have hr : (b.modify (List.map (Frm.setRef none))).Shows past hand base total shown [] :=
    h.remark (map_remarked release_remarked _) rfl rfl (.inr le_rfl)
  obtain ⟨l, hs, hnil⟩ := hr.purge.flushLoop hd
  have horder := hs.order
  rw [hnil] at horder
  obtain ⟨hperm, hsorted⟩ := Emitted.done horder
  refine ⟨l, hperm, hsorted, hnil, (flushLoop_pocInterval hd).trans (purge_pocInterval _),
    hs.mem, hs.findable, hs.agrees, hs.agreesHand, ?_, rfl, ?_, .nil, suffix_rfl,
    hs.interval.imp_right fun hi => ⟨hi.1, ?_⟩⟩
  · rw [append_nil]
    exact hs.log
  · dsimp only
    rw [hnil]
    exact .start []
  · intro k hk
    cases hk

/-- When nothing is due, another sequence starts. -/
theorem start (h : b.Shows past hand base [] [] []) (hnil : b.frames = [])
    (hn : total.Nodup) (hgap : b.pocInterval ≤ 1 ∨ FillsNoGap total) :
    b.Shows past hand base total [] total where
  mem := h.mem
  findable := h.findable
  agrees := h.agrees
  agreesHand := h.agreesHand
  log := h.log
  last := h.last
  order := by
    rw [hnil]
    exact .start total
  nodup := hn
  suffix := suffix_rfl
  interval := by
    refine hgap.imp_right fun hgap => ⟨?_, hgap⟩
    rcases h.interval with hi | hi
    · exact hi.trans one_le_two
    · exact hi.1

variable {m : ℕ} {s : ℤ}

/-- A frame takes a mark and a slot. -/
theorem take (h : b.Shows past [] base total shown later) (poc : ℤ) (hm : b.mem.freeMark = some m)
    (hs : 0 ≤ s) (hfree : ∀ u ∈ b.frames.map Frm.use, (b.mem.dpbMark u.mark).slotIdx ≠ s) :
    Shows { b with mem := (b.mem.take m s poc).use m } (past ++ [(s, poc)]) [(m, poc)] base total
      shown later := by
  have hne := freeMark_ne h.mem hm
  have h₀ : b.mem.Balanced past (b.frames.map Frm.use) := by
    rw [← append_nil (b.frames.map Frm.use)]
    exact h.mem
  have ht : ((b.mem.take m s poc).use m).Balanced _ _ := h₀.take hne hs hfree
  have hmark (n : ℕ) : ((b.mem.take m s poc).use m).dpbMark n = (b.mem.take m s poc).dpbMark n := by
    rw [Mem.use]
    split <;> rfl
  have hdisp : displayed ((b.mem.take m s poc).use m).slotOps = displayed b.mem.slotOps := by
    have htake : displayed (b.mem.take m s poc).slotOps = displayed b.mem.slotOps :=
      (displayed_append _ _).trans (append_nil _)
    rw [Mem.use]
    split
    · exact (displayed_append _ _).trans ((append_nil _).trans htake)
    · exact htake
  refine ⟨ht.perm (perm_append_singleton _ _).symm, h.findable, fun f hf => ?_, fun x hx => ?_,
    hdisp.trans h.log, h.last, h.order, h.nodup, h.suffix, h.interval⟩
  · dsimp only
    have hfm : f.mark ≠ m := hne f.use (mem_map_of_mem hf)
    rw [hmark, Mem.take, Mem.setMark_ne hfm]
    exact h.agrees f hf
  · rw [mem_singleton.1 hx]
    dsimp only
    rw [hmark, Mem.take, Mem.setMark_self]

variable {rest : List ℤ}

/-- The frame in hand is stored after its marking, or output. -/
theorem storeMarked (h : b.Shows past [(m, p.poc)] base total shown (p.poc :: rest))
    (hm : p.memMark = some m) (ho : p.isOutput = false) (hp : p.poc < INT_MAX) (hcfg : cfg.InOrder)
    (hfit : Frm.Fit cfg.size p rest ((if p.slides ∧ Frm.numRefs b.frames = max 1 cfg.numRefFrames then Frm.slide b.frames else b.frames).filter (!·.isUnused)))
    (hs : b.storeMarked cfg p = some b') : ∃ shown', b'.Shows past [] base total shown' rest := by
  obtain ⟨⟨c, q, room⟩, hv, rfl⟩ := map_eq_some_iff.1 hs
  generalize hc : (if p.slides ∧ Frm.numRefs b.frames = max 1 cfg.numRefFrames then
    b.modify Frm.slide else b) = d at hv
  have hd : d.Shows past [(m, p.poc)] base total shown (p.poc :: rest) := by
    rw [← hc]
    split
    · exact h.remark (setFirst_remarked _ _ _) rfl rfl (.inr le_rfl)
    · exact h
  have hframes : d.frames = if p.slides ∧ Frm.numRefs b.frames = max 1 cfg.numRefFrames then
      Frm.slide b.frames else b.frames := by
    rw [← hc]
    split <;> rfl
  rw [← hframes, ← purge_frames] at hfit
  generalize hr : (if p.slides then { p with isLongTerm := false } else p) = r at hv
  have hrp : r.poc = p.poc ∧ r.memMark = some m ∧ r.isOutput = false ∧
      r.usedForReference = p.usedForReference := by
    rw [← hr]
    split <;> exact ⟨rfl, hm, ho, rfl⟩
  obtain ⟨hpoc, hrm, hro, hused⟩ := hrp
  rw [← hpoc] at hd
  have hfit' : Frm.Fit cfg.size r rest d.purge.frames := by
    rw [Frm.Fit, hpoc, hused]
    exact hfit
  obtain ⟨rfl, shown', hs', hout⟩ := hd.purge.makeRoom hcfg.noLimit (purge_clean _) hfit' hv
  cases room with
  | output => exact ⟨_, hs'.output hrm (hout rfl)⟩
  | store => exact hs'.add hrm hro (hpoc ▸ hp) hcfg.normal hcfg.noFastPlay

/-- What the marking by a frame of a sequence leaves, and the frame after it. -/
theorem mark (h : b.Shows past [(m, p.poc)] base total shown (p.poc :: rest))
    (hidr : p.idrFlag = false)
    (hops : p.isAdaptive → Frm.wellFormed p.decRefPicMarkingBuffer ∧ !hasMmco5 p.decRefPicMarkingBuffer)
    {w : FrmBuf × StorePic × MppRet} (hw : b.mark p = some w) :
    w.1.Shows past [(m, p.poc)] base total shown (p.poc :: rest) ∧ w.2.2 = mppOk ∧
      (∃ l i, w.2.1 = { p with isLongTerm := l, longTermFrameIdx := i }) ∧
      w.1.frames = if p.isAdaptive then
        p.decRefPicMarkingBuffer.foldl (fun l op => Frm.manage op p.frameNum l) b.frames
      else b.frames := by
  rw [FrmBuf.mark, hidr, if_neg Bool.false_ne_true] at hw
  split at hw <;> rename_i ha
  · obtain ⟨hwf, hno⟩ := hops ha
    obtain ⟨hok, hf⟩ := controls_frames (b := b) (p := p) hwf
    obtain ⟨l, hl, hr⟩ := b.controls_remarked p p.decRefPicMarkingBuffer
    dsimp only at hw
    rw [hok, if_neg (show ¬mppOk < 0 by decide), if_neg (by simpa using hno)] at hw
    obtain rfl := some.inj hw
    refine ⟨?_, rfl, b.controls_pic p _, hf.trans (if_pos ha).symm⟩
    rw [hl]
    exact h.remark hr rfl rfl (.inr le_rfl)
  · obtain rfl := some.inj hw
    exact ⟨h, rfl, ⟨_, _, rfl⟩, (if_neg ha).symm⟩

/-- A frame of a sequence is decoded. -/
theorem decode (h : b.Shows past [] base total shown (p.poc :: rest)) (hp : p.IsFresh)
    (hidr : p.idrFlag = false)
    (hops : p.isAdaptive → Frm.wellFormed p.decRefPicMarkingBuffer ∧ !hasMmco5 p.decRefPicMarkingBuffer)
    (hcfg : cfg.InOrder) (hfit : Frm.Fit cfg.size p rest (Frm.marked cfg p b.frames)) (hs : 0 ≤ s)
    (hfree : ∀ u ∈ b.frames.map Frm.use, (b.mem.dpbMark u.mark).slotIdx ≠ s) {ret : MppRet}
    (hd : b.decode cfg p s = some (b', ret)) :
    ∃ shown', b'.Shows (past ++ [(s, p.poc)]) [] base total shown' rest := by
  obtain ⟨m, hm, hst⟩ := bind_eq_some_iff.1 hd
  have ht := h.take p.poc hm hs hfree
  dsimp only at hst
  generalize hq : { p with memMark := some m, memMallocType := .malloc, combineFlag := false } = q
    at hst
  have hqp : q.poc = p.poc ∧ q.memMark = some m ∧ q.isOutput = false ∧ q.idrFlag = false := by
    rw [← hq]
    exact ⟨rfl, rfl, hp.isOutput, hidr⟩
  obtain ⟨hpoc, hqm, hqo, hqidr⟩ := hqp
  rw [number_mem] at hst
  obtain ⟨w, hw, hstep⟩ := bind_eq_some_iff.1 hst
  simp only [hqm, getD_some] at hw hstep
  have hframes : (b.number cfg q).frames = b.frames.map (Frm.number cfg.maxFrameNum q.frameNum) := by
    rw [number_frames, hqidr]
    rfl
  have hn : Shows { b.number cfg q with mem := (b.mem.take m s p.poc).use m } (past ++ [(s, p.poc)])
      [(m, q.poc)] base total shown (q.poc :: rest) := by
    rw [hpoc]
    refine ht.remark ?_ rfl ?_ ?_
    · exact hframes ▸ map_remarked (number_remarked _ _) _
    · rw [number, hqidr]
      rfl
    · rw [number, hqidr]
      exact .inr le_rfl
  obtain ⟨hws, hok, ⟨l, i, hpic⟩, hwf⟩ := hn.mark hqidr (by rw [← hq]; exact hops) hw
  rw [hok, if_neg (show ¬mppOk < 0 by decide), hpic] at hstep
  obtain ⟨d, hsm, he⟩ := map_eq_some_iff.1 hstep
  obtain ⟨rfl, -⟩ := Prod.mk.inj he
  refine storeMarked (p := { q with isLongTerm := l, longTermFrameIdx := i }) hws hqm hqo
    (hpoc.trans_lt hp.lt) hcfg ?_ hsm
  rw [hwf]
  dsimp only
  rw [hframes, ← hq]
  exact hfit

/-- The IDR frame of another sequence is decoded: the frames before it were displayed. -/
theorem decodeIdr (h : b.Shows past [] base total shown []) (hp : p.IsFresh) (hidr : p.idrFlag)
    (hk : b.KeepsWaiting p) (hpos : 0 < cfg.size) (hcfg : cfg.InOrder) (hn : (p.poc :: rest).Nodup)
    (hgap : b.pocInterval ≤ 1 ∨ FillsNoGap (p.poc :: rest)) (hs : 0 ≤ s)
    (hfree : ∀ u ∈ b.frames.map Frm.use, (b.mem.dpbMark u.mark).slotIdx ≠ s) {ret : MppRet}
    (hd : b.decode cfg p s = some (b', ret)) :
    ∃ l, l.Perm total ∧ l.Pairwise (· < ·) ∧ ∃ shown',
      b'.Shows (past ++ [(s, p.poc)]) [] (base ++ l) (p.poc :: rest) shown' rest := by
  obtain ⟨m, hm, hst⟩ := bind_eq_some_iff.1 hd
  have ht := h.take p.poc hm hs hfree
  dsimp only at hst
  rw [number, if_pos (show _ from hidr)] at hst
  obtain ⟨w, hw, hstep⟩ := bind_eq_some_iff.1 hst
  simp only [getD_some] at hw hstep
  rw [FrmBuf.mark, if_pos (show _ from hidr)] at hw
  obtain ⟨c, hc, rfl⟩ := map_eq_some_iff.1 hw
  have hc' : FrmBuf.idr { b with mem := (b.mem.take m s p.poc).use m } false = some c :=
    (idr_eq (b := { b with mem := (b.mem.take m s p.poc).use m }) (hk hidr)).symm.trans hc
  obtain ⟨d, hd, rfl⟩ := map_eq_some_iff.1 hc'
  obtain ⟨l, hperm, hsorted, hnil, hint, hf⟩ := ht.flush hd
  have hr : Shows { d with lastOutputPoc := INT_MIN, iSliceNo := 1 } (past ++ [(s, p.poc)])
      [(m, p.poc)] (base ++ l) [] [] [] :=
    hf.remark (remarked_refl _) rfl hf.last.symm (.inr le_rfl)
  have hstart := hr.start hnil hn (hgap.imp_left hint.trans_le)
  refine ⟨l, hperm, hsorted, ?_⟩
  rw [if_neg (show ¬mppOk < 0 by decide)] at hstep
  obtain ⟨e, hsm, he⟩ := map_eq_some_iff.1 hstep
  obtain ⟨rfl, -⟩ := Prod.mk.inj he
  -- The buffer is empty, so that the frame fits.
  have hfit (q : StorePic) : Frm.Fit cfg.size q rest
      ((if q.slides ∧ Frm.numRefs d.frames = max 1 cfg.numRefFrames then Frm.slide d.frames
        else d.frames).filter (!·.isUnused)) := by
    rw [hnil, show Frm.slide [] = [] from rfl, ite_self, Frm.Fit]
    split <;> simp [Nat.one_le_iff_ne_zero, hpos.ne']
  split at hsm
  · exact storeMarked (p := { p with
      memMark := some m, memMallocType := .malloc, combineFlag := false
      isLongTerm := true, longTermFrameIdx := 0 }) hstart rfl hp.isOutput hp.lt hcfg (hfit _) hsm
  · exact storeMarked (p := { p with
      memMark := some m, memMallocType := .malloc, combineFlag := false
      isLongTerm := false }) hstart rfl hp.isOutput hp.lt hcfg (hfit _) hsm

end Shows

end FrmBuf

/-! ## Streams of sequences -/

/-- The frame comes in behind others of its sequence, before those with the order counts
    `later`, and the buffer has room for what it has to keep. -/
structure Feed.Continues (x : Feed) (cfg : DecCfg) (a : Coming) (later : List ℤ) : Prop where
  accepts : x.Accepts a
  notIdr : a.pic.idrFlag = false
  wellFormed : a.pic.isAdaptive → Frm.wellFormed a.pic.decRefPicMarkingBuffer ∧
    !hasMmco5 a.pic.decRefPicMarkingBuffer
  fits : Frm.Fit cfg.size a.pic later (Frm.marked cfg a.pic x.ctx.buf.frames)

/-- The IDR frame comes in as the first one of a sequence with the order counts `pocs`. -/
structure Feed.Starts (x : Feed) (a : Coming) (pocs : List ℤ) : Prop where
  delivers : x.Delivers a
  isIdr : a.pic.idrFlag
  nodup : pocs.Nodup
  fillsNoGap : x.ctx.dpb.pocInterval ≤ 1 ∨ FillsNoGap pocs

/-- The order counts of frames. -/
def pocs (l : List Coming) : List ℤ := l.map (·.pic.poc)

section Decidable

variable (x : Feed) (cfg : DecCfg) (a : Coming) (later : List ℤ)

instance (size : ℕ) (p : StorePic) (l : List Frm) : Decidable (Frm.Fit size p later l) := by
  unfold Frm.Fit
  infer_instance

instance : Decidable (FillsNoGap later) := by
  unfold FillsNoGap
  infer_instance

instance : Decidable (x.Continues cfg a later) :=
  decidable_of_iff (x.Accepts a ∧ a.pic.idrFlag = false ∧
    (a.pic.isAdaptive → Frm.wellFormed a.pic.decRefPicMarkingBuffer ∧
      !hasMmco5 a.pic.decRefPicMarkingBuffer) ∧
    Frm.Fit cfg.size a.pic later (Frm.marked cfg a.pic x.ctx.buf.frames))
    ⟨fun ⟨h₁, h₂, h₃, h₄⟩ => ⟨h₁, h₂, h₃, h₄⟩, fun h => ⟨h.1, h.2, h.3, h.4⟩⟩

instance : Decidable (x.Starts a later) :=
  decidable_of_iff (x.Delivers a ∧ a.pic.idrFlag ∧ later.Nodup ∧
    (x.ctx.dpb.pocInterval ≤ 1 ∨ FillsNoGap later))
    ⟨fun ⟨h₁, h₂, h₃, h₄⟩ => ⟨h₁, h₂, h₃, h₄⟩, fun h => ⟨h.1, h.2, h.3, h.4⟩⟩

end Decidable

/-- The decoder after the frames of a sequence, as long as they continue it. -/
def Feed.decodeRest (cfg : DecCfg) : Feed → List Coming → Option Feed
  | x, [] => some x
  | x, a :: l =>
    if x.Continues cfg a (pocs l) then (x.decode a).bind (decodeRest cfg · l) else none

/-- The decoder after the sequences of a stream. -/
def Feed.decodeAll (cfg : DecCfg) : Feed → List (Coming × List Coming) → Option Feed
  | x, [] => some x
  | x, (a, l) :: seqs =>
    if x.Starts a (pocs (a :: l)) then
      ((x.decode a).bind (decodeRest cfg · l)).bind (decodeAll cfg · seqs)
    else none

/-- What the decoder has displayed behind `base` of a sequence with the order counts
    `total`, when those of `later` are still to come. -/
structure Feed.Displays (x : Feed) (cfg : DecCfg) (base total later : List ℤ) : Prop where
  dec : x.ctx.FrameDecoder cfg
  shows : ∃ shown, x.ctx.buf.Shows x.past [] base total shown later

section Stream

variable {x x' y z : Feed} {cfg : DecCfg} {a : Coming} {base total later : List ℤ}

/-- The frame comes into a slot that no frame of the buffer has. -/
theorem Feed.Displays.slot_ne (h : x.Displays cfg base total later) (ha : x.Accepts a) :
    ∀ u ∈ x.ctx.buf.frames.map Frm.use, (x.ctx.buf.mem.dpbMark u.mark).slotIdx ≠ a.slotIdx := by
  intro u hu he
  obtain ⟨shown, hs⟩ := h.shows
  have hused := Mem.Balanced.usedByCodec hs.mem (mem_append_left _ hu)
  rw [he] at hused
  exact Bool.false_ne_true (ha.unused.symm.trans hused)

theorem Feed.Displays.continues {l : List ℤ} (h : x.Displays cfg base total (a.pic.poc :: l))
    (hpos : 0 < cfg.size) (hcfg : cfg.InOrder) (ha : x.Continues cfg a l)
    (hd : x.decode a = some x') : x'.Displays cfg base total l := by
  obtain ⟨c, hc, rfl⟩ := map_eq_some_iff.1 hd
  obtain ⟨hdec, ret, hb⟩ := h.dec.decode hpos ha.accepts.fresh.isFrame hc
  obtain ⟨shown, hs⟩ := h.shows
  have hs' : FrmBuf.Shows { x.ctx.buf with iSliceNo := a.iSliceNo } x.past [] base total shown
      (a.pic.poc :: l) := hs.remark (FrmBuf.remarked_refl _) rfl rfl (.inr le_rfl)
  exact ⟨hdec, hs'.decode ha.accepts.fresh ha.notIdr ha.wellFormed hcfg ha.fits ha.accepts.slot
    (h.slot_ne ha.accepts) hb⟩

theorem Feed.Displays.starts {l : List ℤ} (h : x.Displays cfg base total []) (hpos : 0 < cfg.size)
    (hcfg : cfg.InOrder) (ha : x.Starts a (a.pic.poc :: l)) (hd : x.decode a = some x') :
    ∃ s, s.Perm total ∧ s.Pairwise (· < ·) ∧
      x'.Displays cfg (base ++ s) (a.pic.poc :: l) l := by
  obtain ⟨c, hc, rfl⟩ := map_eq_some_iff.1 hd
  obtain ⟨haccepts, hkeeps⟩ := ha.delivers
  obtain ⟨hdec, ret, hb⟩ := h.dec.decode hpos haccepts.fresh.isFrame hc
  obtain ⟨shown, hs⟩ := h.shows
  have hs' : FrmBuf.Shows { x.ctx.buf with iSliceNo := a.iSliceNo } x.past [] base total shown [] :=
    hs.remark (FrmBuf.remarked_refl _) rfl rfl (.inr le_rfl)
  obtain ⟨s, hperm, hsorted, hshows⟩ := hs'.decodeIdr haccepts.fresh ha.isIdr hkeeps hpos hcfg
    ha.nodup ha.fillsNoGap haccepts.slot (h.slot_ne haccepts) hb
  exact ⟨s, hperm, hsorted, hdec, hshows⟩

theorem Feed.Displays.rest {l : List Coming} (h : x.Displays cfg base total (pocs l))
    (hpos : 0 < cfg.size) (hcfg : cfg.InOrder) (hd : x.decodeRest cfg l = some y) :
    y.Displays cfg base total [] := by
  induction l generalizing x with
  | nil =>
    obtain rfl := some.inj hd
    exact h
  | cons a l ih =>
    rw [Feed.decodeRest] at hd
    split at hd <;> rename_i ha
    · obtain ⟨x', hx, hy⟩ := bind_eq_some_iff.1 hd
      exact ih (Feed.Displays.continues h hpos hcfg ha hx) hy
    · cases hd

/-- A flush displays what was due. -/
theorem Feed.Displays.flush (h : x.Displays cfg base total []) :
    ∃ c s, flushDpb x.ctx = some (c, mppOk) ∧ s.Perm total ∧ s.Pairwise (· < ·) ∧
      displayed c.slotOps = base ++ s := by
  obtain ⟨shown, hs⟩ := h.shows
  obtain ⟨b, hb⟩ := isSome_iff_exists.1 (FrmBuf.flush_isSome hs.findable)
  obtain ⟨s, hperm, hsorted, -, -, hf⟩ := hs.flush hb
  have hrel := flushDpb_buf h.dec.only
  rw [hb] at hrel
  generalize hw : flushDpb x.ctx = w at hrel
  cases hrel with
  | some hl =>
    obtain ⟨hok, -, rfl⟩ := hl
    exact ⟨_, s, congrArg some (Prod.ext rfl hok), hperm, hsorted, hf.log.trans (append_nil _)⟩

/-- The sequence that is due, and those of a stream, are displayed one after the other. -/
theorem Feed.Displays.all {seqs : List (Coming × List Coming)} (h : x.Displays cfg base total [])
    (hpos : 0 < cfg.size) (hcfg : cfg.InOrder) (hd : x.decodeAll cfg seqs = some z) :
    ∃ ls, List.Forall₂ (fun l s => s.Perm l ∧ s.Pairwise (· < ·))
        (total :: seqs.map fun s => pocs (s.1 :: s.2)) ls ∧
      (∃ c, flushDpb z.ctx = some (c, mppOk) ∧ displayed c.slotOps = base ++ ls.flatten) ∧
      ∃ base' total', z.Displays cfg base' total' [] := by
  induction seqs generalizing x base total with
  | nil =>
    obtain rfl := some.inj hd
    obtain ⟨c, s, hc, hperm, hsorted, hdisp⟩ := Feed.Displays.flush h
    exact ⟨[s], .cons ⟨hperm, hsorted⟩ .nil, ⟨c, hc, by rw [hdisp, flatten_singleton]⟩, _, _, h⟩
  | cons s seqs ih =>
    obtain ⟨a, l⟩ := s
    rw [Feed.decodeAll] at hd
    split at hd <;> rename_i ha
    · obtain ⟨y, hy, hz⟩ := bind_eq_some_iff.1 hd
      obtain ⟨x', hx, hy⟩ := bind_eq_some_iff.1 hy
      obtain ⟨s, hperm, hsorted, hs⟩ := Feed.Displays.starts h hpos hcfg ha hx
      obtain ⟨ls, hls, ⟨c, hc, hdisp⟩, hend⟩ := ih (Feed.Displays.rest hs hpos hcfg hy) hz
      refine ⟨s :: ls, .cons ⟨hperm, hsorted⟩ hls, ⟨c, hc, ?_⟩, hend⟩
      rw [hdisp, flatten_cons, append_assoc]
    · cases hd

/-- Every frame that comes next is decoded. -/
theorem Feed.Displays.decode_isSome (h : x.Displays cfg base total later) (hpos : 0 < cfg.size)
    (hsize : cfg.size < maxMarkSize) (ha : a.pic.picStructure = .frame) : (x.decode a).isSome := by
  obtain ⟨shown, hs⟩ := h.shows
  exact Feed.Balanced.decode_isSome ⟨h.dec, hs.mem, hs.findable⟩ hpos hsize ha

theorem displays_init (cfg : DecCfg) :
    Feed.Displays ⟨initVideoCtx cfg, []⟩ cfg [] [] [] where
  dec := initVideoCtx_frameDecoder cfg
  shows :=
    ⟨[], ⟨nodup_nil, fun u hu => (by cases hu), fun _ _ => rfl, Covers.nil⟩,
      fun f hf => (by cases hf), fun f hf => (by cases hf), fun x hx => (by cases hx), rfl, rfl,
      .start [], .nil, suffix_rfl, .inr ⟨le_rfl, fun k hk => (by cases hk)⟩⟩

end Stream

/-- The frames of every sequence of a stream are put into the display queue by increasing
    order count, all of them before those of the next sequence. The decoder does not stop
    within a stream. -/
theorem sequences_displayed (cfg : DecCfg) (hpos : 0 < cfg.size) (hsize : cfg.size < maxMarkSize)
    (hcfg : cfg.InOrder) {z : Feed} {seqs : List (Coming × List Coming)}
    (hd : Feed.decodeAll cfg ⟨initVideoCtx cfg, []⟩ seqs = some z) :
    (∃ ls, List.Forall₂ (fun s l => l.Perm (pocs (s.1 :: s.2)) ∧ l.Pairwise (· < ·)) seqs ls ∧
      ∃ c, flushDpb z.ctx = some (c, mppOk) ∧ displayed c.slotOps = ls.flatten) ∧
      ∀ a, a.pic.picStructure = .frame → (z.decode a).isSome := by
  obtain ⟨ls, hls, ⟨c, hc, hdisp⟩, base, total, hz⟩ :=
    Feed.Displays.all (displays_init cfg) hpos hcfg hd
  refine ⟨?_, fun a ha => Feed.Displays.decode_isSome hz hpos hsize ha⟩
  cases hls with
  | cons h hls =>
    rw [forall₂_map_left_iff] at hls
    refine ⟨_, hls, c, hc, ?_⟩
    rw [hdisp, flatten_cons, perm_nil.1 h.1]
    rfl

theorem sequences_displayed_twoFrameDec :
    ∃ (z : Feed) (ls : List (List ℤ)) (c : VideoCtx), Feed.decodeAll twoFrameDec ⟨initVideoCtx twoFrameDec, []⟩
        [(⟨refPic 0 0 true none, 0, 1⟩, [⟨refPic 1 4 false none, 1, 1⟩,
          ⟨refPic 2 2 false none, 2, 1⟩]), (⟨refPic 0 0 true none, 0, 1⟩, [])] = some z ∧
      flushDpb z.ctx = some (c, mppOk) ∧ displayed c.slotOps = ls.flatten ∧
      ls.length = 2 := by
  have h : (Feed.decodeAll twoFrameDec ⟨initVideoCtx twoFrameDec, []⟩
      [(⟨refPic 0 0 true none, 0, 1⟩, [⟨refPic 1 4 false none, 1, 1⟩,
        ⟨refPic 2 2 false none, 2, 1⟩]), (⟨refPic 0 0 true none, 0, 1⟩, [])]).isSome = true := by
    decide +kernel
  obtain ⟨z, hz⟩ := isSome_iff_exists.1 h
  obtain ⟨⟨ls, hls, c, hc, hdisp⟩, -⟩ :=
    sequences_displayed twoFrameDec (by decide) (by decide) ⟨rfl, rfl, rfl⟩ hz
  exact ⟨z, ls, c, hz, hc, hdisp, hls.length_eq.symm⟩

/-- A frame whose order count lies between those of two earlier frames that are two apart
    is displayed behind both, and those that wait when an IDR frame drops the frames before it are
    not displayed at all. -/
theorem between_displayed_late :
    (∃ x z c, (⟨initVideoCtx twoFrameDec, []⟩ : Feed).Delivers ⟨refPic 0 0 true none, 0, 1⟩ ∧
      (⟨initVideoCtx twoFrameDec, []⟩ : Feed).decode ⟨refPic 0 0 true none, 0, 1⟩ = some x ∧
      x.decodeRest twoFrameDec [⟨refPic 1 2 false none, 1, 1⟩, ⟨refPic 2 4 false none, 2, 1⟩,
        ⟨refPic 3 3 false none, 3, 1⟩] = some z ∧
      flushDpb z.ctx = some (c, mppOk) ∧ displayed c.slotOps = [0, 2, 4, 3]) ∧
    ∃ z c, Machine.run Feed.decode (fun x a _ => x.Accepts a) ⟨initVideoCtx twoFrameDec, []⟩
        droppingPics = some z ∧
      flushDpb z.ctx = some (c, mppOk) ∧ displayed c.slotOps = [0] := by
  have hlate : (((⟨initVideoCtx twoFrameDec, []⟩ : Feed).decode ⟨refPic 0 0 true none, 0, 1⟩).any
      fun x => (x.decodeRest twoFrameDec
        [⟨refPic 1 2 false none, 1, 1⟩, ⟨refPic 2 4 false none, 2, 1⟩,
          ⟨refPic 3 3 false none, 3, 1⟩]).any fun z =>
            (flushDpb z.ctx).any fun w =>
              w.2 = mppOk && displayed w.1.slotOps = [0, 2, 4, 3]) =
      true := by
    decide +kernel
  have hdropped : ((Machine.run Feed.decode (fun x a _ => x.Accepts a)
      ⟨initVideoCtx twoFrameDec, []⟩ droppingPics).any fun z => (flushDpb z.ctx).any fun w =>
        w.2 = mppOk && displayed w.1.slotOps = [0]) = true := by
    decide +kernel
  constructor
  · obtain ⟨x, hx, h⟩ := (any_eq_true _ _).1 hlate
    obtain ⟨z, hz, h⟩ := (any_eq_true _ _).1 h
    obtain ⟨⟨c, ret⟩, hc, hcond⟩ := (any_eq_true _ _).1 h
    simp only [Bool.and_eq_true, decide_eq_true_eq] at hcond
    obtain ⟨rfl, hdisp⟩ := hcond
    exact ⟨x, z, c, by decide +kernel, hx, hz, hc, hdisp⟩
  · obtain ⟨z, hz, h⟩ := (any_eq_true _ _).1 hdropped
    obtain ⟨⟨c, ret⟩, hc, hcond⟩ := (any_eq_true _ _).1 h
    simp only [Bool.and_eq_true, decide_eq_true_eq] at hcond
    obtain ⟨rfl, hdisp⟩ := hcond
    exact ⟨z, c, hz, hc, hdisp⟩

end Libmpp.H264d
