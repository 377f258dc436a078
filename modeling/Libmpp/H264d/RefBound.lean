import Libmpp.H264d.FrameDecode
import Libmpp.H264d.FrameSteps

/-!
# The number of reference frames

The marking is to keep the reference frames of the buffer to the number that the
parameter set allows. When they fill it, a frame that adds a reference has to release one:
the sliding window releases a short-term one, when there is one, and a list of operations
whatever its operations name. A list that releases none is not made up for: `checkNumRef`
calls the sliding window when there are too many references, which does nothing then, as
it looks for their number to be the limit.
-/

namespace Libmpp.H264d

open Relation Base List Option

/-! ## The references -/

namespace Frm

theorem numRefs_append (l l' : List Frm) : numRefs (l ++ l') = numRefs l + numRefs l' :=
  countP_append

/-- Frames that are references only where there was one. -/
theorem numRefs_le {l l' : List Frm}
    (h : List.Forall₂ (fun f f' : Frm => f'.ref.isSome → f.ref.isSome) l l') :
    numRefs l' ≤ numRefs l := by
  induction h with
  | nil => exact le_rfl
  | cons hff _ ih =>
    simp only [numRefs, countP_cons] at ih ⊢
    refine add_le_add ih ?_
    split <;> rename_i hs
    · rw [if_pos (hff hs)]
    · exact Nat.zero_le _

theorem Remarked.isSome {f f' : Frm} (h : f.Remarked f') : f'.ref.isSome → f.ref.isSome := by
  obtain ⟨r, rfl, hr⟩ := h
  exact hr

end Frm

namespace FrmBuf

variable {b b' : FrmBuf} {cfg : DecCfg}

theorem Elem.numRefs_le (h : Elem b b') : Frm.numRefs b'.frames ≤ Frm.numRefs b.frames := by
  cases h with
  | write k =>
    rw [write_frames]
    exact Frm.numRefs_le (forall₂_modify (fun _ => id) fun _ _ => id)
  | remove _ _ =>
    rw [remove_frames]
    exact (eraseIdx_sublist _ _).countP_le
  | mark hm _ => exact Frm.numRefs_le (hm.imp fun _ _ h => h.isSome)

/-- No operation makes a frame of the buffer a reference. -/
theorem Steps.numRefs_le (h : Steps b b') : Frm.numRefs b'.frames ≤ Frm.numRefs b.frames := by
  induction h with
  | refl => exact le_rfl
  | tail _ he ih => exact he.numRefs_le.trans ih

end FrmBuf

/-! ## The release of references -/

namespace Frm

/-- The mark is a short-term one. -/
def isShort (f : Frm) : Bool := f.ref.any fun r => !r.isLong

/-- The mark of a reference that the operation of a frame with the given number releases. -/
def hits (op : Drpm) (currFrameNum : ℤ) : RefMark → Bool
  | .short n =>
    op.memoryManagementControlOperation = 1 &&
      n = currFrameNum - (op.differenceOfPicNumsMinus1 + 1) ||
    op.memoryManagementControlOperation = 5
  | .long i =>
    match op.memoryManagementControlOperation with
    | 2 => i = op.longTermPicNum
    | 3 | 6 => i = op.longTermFrameIdx
    | 4 => op.maxLongTermFrameIdxPlus1 - 1 < i
    | 5 => -1 < i
    | _ => false

/-- The operations of a frame release some reference. -/
def releases (currFrameNum : ℤ) : List Drpm → List Frm → Bool
  | [], _ => false
  | op :: ops, l =>
    l.any (fun f => f.ref.any (hits op currFrameNum)) ||
      releases currFrameNum ops (manage op currFrameNum l)

/-- The operations are known ones, and only the last one may be the end of the list. -/
def wellFormed : List Drpm → Bool
  | [] => true
  | op :: ops =>
    op.memoryManagementControlOperation ≤ 6 &&
      (op.memoryManagementControlOperation ≠ 0 || ops.isEmpty) && wellFormed ops

/-- The frames make room for the picture as a reference: when their references fill the
    limit, there is one for the sliding window to release, or the operations of the picture
    release one. -/
def MakesRoom (limit : ℕ) (p : StorePic) (l : List Frm) : Prop :=
  numRefs l = limit →
    (p.slides → l.any isShort) ∧
      (p.isAdaptive → wellFormed p.decRefPicMarkingBuffer →
        !hasMmco5 p.decRefPicMarkingBuffer → releases p.frameNum p.decRefPicMarkingBuffer l)

instance (limit : ℕ) (p : StorePic) (l : List Frm) : Decidable (MakesRoom limit p l) := by
  unfold MakesRoom
  infer_instance

/-- A release makes the references fewer. -/
theorem numRefs_lt {l l' : List Frm}
    (h : List.Forall₂ (fun f f' : Frm => f'.ref.isSome → f.ref.isSome) l l') {k : ℕ} {f g : Frm}
    (hf : l[k]? = some f) (hg : l'[k]? = some g) (hs : f.ref.isSome) (hn : g.ref = none) :
    numRefs l' < numRefs l := by
  induction h generalizing k with
  | nil => cases hf
  | @cons a a' l l' hff hrest ih =>
    cases k with
    | zero =>
      obtain rfl := some.inj hf
      obtain rfl := some.inj hg
      have hle : List.countP (fun f : Frm => f.ref.isSome) l' ≤
        List.countP (fun f : Frm => f.ref.isSome) l := numRefs_le hrest
      simp only [numRefs, countP_cons, hn, hs]
      simp
      omega
    | succ k =>
      have hlt : List.countP (fun f : Frm => f.ref.isSome) l' <
        List.countP (fun f : Frm => f.ref.isSome) l := ih hf hg
      simp only [numRefs, countP_cons]
      refine add_lt_add_of_lt_of_le hlt ?_
      split <;> rename_i h'
      · rw [if_pos (hff h')]
      · exact Nat.zero_le _

theorem numRefs_map_lt {l : List Frm} {g : Frm → Frm} (hg : ∀ f, Remarked f (g f)) {f : Frm}
    (hf : f ∈ l) (hs : f.ref.isSome) (hn : (g f).ref = none) :
    numRefs (l.map g) < numRefs l := by
  obtain ⟨k, hk⟩ := getElem?_of_mem hf
  refine numRefs_lt ?_ hk (by rw [getElem?_map, hk]; rfl) hs hn
  rw [forall₂_map_right_iff]
  exact forall₂_same.2 fun f _ => (hg f).isSome

theorem numRefs_setFirst_lt {q : RefMark → Bool} {l : List Frm}
    (h : l.any fun f => f.ref.any q) : numRefs (setFirst q none l) < numRefs l := by
  obtain ⟨k, hk⟩ : ∃ k, l.findIdx? (fun f => f.ref.any q) = some k := by
    rw [← isSome_iff_exists, findIdx?_isSome]
    exact h
  obtain ⟨hlt, hq, -⟩ := findIdx?_eq_some_iff_getElem.1 hk
  rw [setFirst, hk]
  refine numRefs_lt (k := k) (forall₂_modify (fun _ => id) fun _ _ h => ?_)
    (getElem?_eq_getElem hlt) ?_ (isSome_of_any hq) (g := l[k].setRef none) rfl
  · cases h
  · rw [getElem?_modify_eq, getElem?_eq_getElem hlt]
    rfl

/-- An operation that names a reference releases one. -/
theorem numRefs_manage_lt {op : Drpm} {n : ℤ} {l : List Frm}
    (h : l.any fun f => f.ref.any (hits op n)) : numRefs (manage op n l) < numRefs l := by
  obtain ⟨f, hf, hh⟩ := any_eq_true.1 h
  obtain ⟨r, hr, hhit⟩ := (any_eq_true _ _).1 hh
  have hs : f.ref.isSome := by rw [hr]; rfl
  have hdrop (q : ℤ → Bool) (hq : ∃ i, r = .long i ∧ q i) :
      numRefs (l.map (dropLong q)) < numRefs l := by
    obtain ⟨i, rfl, hi⟩ := hq
    exact numRefs_map_lt (FrmBuf.dropLong_remarked q) hf hs (by simp [dropLong, hr, hi, setRef])
  have hle (q : RefMark → Bool) (r : Option RefMark) (l : List Frm) :
      numRefs (setFirst q r l) ≤ numRefs l :=
    numRefs_le ((FrmBuf.setFirst_remarked q r l).imp fun _ _ h => h.isSome)
  unfold manage
  split <;> rename_i hop
  · have heq : hits op n = fun r => decide (r = .short (n - (op.differenceOfPicNumsMinus1 + 1))) := by
      funext r
      cases r <;> simp [hits, hop]
    exact numRefs_setFirst_lt (heq ▸ h)
  · refine hdrop _ ?_
    cases r <;> simp_all [hits]
  · refine (hle _ _ _).trans_lt (hdrop _ ?_)
    cases r <;> simp_all [hits]
  · refine hdrop _ ?_
    cases r <;> simp_all [hits]
  · rw [List.map_map]
    refine numRefs_map_lt (fun f => (FrmBuf.dropShort_remarked f).trans
      (FrmBuf.dropLong_remarked _ _)) hf hs ?_
    cases r <;> simp_all [hits, dropShort, dropLong, setRef]
  · refine hdrop _ ?_
    cases r <;> simp_all [hits]
  · -- No other operation names a reference.
    cases r <;> simp_all [hits]

end Frm

namespace FrmBuf

variable {b b' : FrmBuf} {p : StorePic} {cfg : DecCfg}

/-- The frames after an operation that did not fail. -/
theorem control_frames {op : Drpm} {isLast : Bool} (h : 0 ≤ (b.control p op isLast).2.2) :
    (b.control p op isLast).1.frames = Frm.manage op p.frameNum b.frames ∧
      (b.control p op isLast).2.1.frameNum = p.frameNum := by
  unfold control at h ⊢
  split <;> rename_i hop
  · exact ⟨by simp [Frm.manage, hop], rfl⟩
  iterate 6 exact ⟨rfl, rfl⟩
  · split at h <;> contradiction

/-- Operations that release a reference leave fewer of them. -/
theorem controls_numRefs_lt {ops : List Drpm} (h : 0 ≤ (b.controls p ops).2.2)
    (hr : Frm.releases p.frameNum ops b.frames) :
    Frm.numRefs (b.controls p ops).1.frames < Frm.numRefs b.frames := by
  induction ops generalizing b p with
  | nil => cases hr
  | cons op ops ih =>
    have hsteps := (control_steps b p op ops.isEmpty).numRefs_le
    rw [controls] at h ⊢
    split at h <;> rename_i hneg
    · exact absurd hneg (not_lt.2 h)
    · obtain ⟨hf, hn⟩ := control_frames (not_lt.1 hneg)
      rw [if_neg hneg]
      rw [Frm.releases, Bool.or_eq_true] at hr
      rcases hr with hr | hr
      · refine (controls_steps _ _ _).numRefs_le.trans_lt ?_
        rw [hf]
        exact Frm.numRefs_manage_lt hr
      · rw [← hf, ← hn] at hr
        exact (ih h hr).trans_le hsteps

theorem control_wellFormed {op : Drpm} {isLast : Bool}
    (h : 0 ≤ (b.control p op isLast).2.2) :
    op.memoryManagementControlOperation ≤ 6 ∧
      (op.memoryManagementControlOperation = 0 → isLast) := by
  unfold control at h
  split at h <;> rename_i hop
  · refine ⟨by omega, fun _ => ?_⟩
    by_contra hl
    rw [if_neg hl] at h
    exact absurd (show mppErrValue < 0 by decide) (not_lt.2 h)
  iterate 6 exact ⟨by omega, fun h0 => absurd (hop.symm.trans h0) (by decide)⟩
  · exact absurd (show mppNok < 0 by decide) (not_lt.2 h)

/-- Operations that do not fail are well-formed. -/
theorem controls_wellFormed {ops : List Drpm} (h : 0 ≤ (b.controls p ops).2.2) :
    Frm.wellFormed ops := by
  induction ops generalizing b p with
  | nil => rfl
  | cons op ops ih =>
    rw [controls] at h
    split at h <;> rename_i hneg
    · exact absurd hneg (not_lt.2 h)
    · obtain ⟨h6, h0⟩ := control_wellFormed (not_lt.1 hneg)
      rw [Frm.wellFormed, ih h, Bool.and_true, Bool.and_eq_true, Bool.or_eq_true]
      refine ⟨decide_eq_true h6, ?_⟩
      by_cases hz : op.memoryManagementControlOperation = 0
      · exact .inr (h0 hz)
      · exact .inl (decide_eq_true hz)

theorem add_numRefs_le (b : FrmBuf) (p : StorePic) :
    Frm.numRefs (b.add cfg p).frames ≤
      Frm.numRefs b.frames + if p.usedForReference then 1 else 0 := by
  refine (scan_steps _).numRefs_le.trans ?_
  rw [Frm.numRefs_append]
  refine Nat.add_le_add_left ?_ _
  cases hu : p.usedForReference <;> simp [Frm.numRefs, Frm.ofPic, hu]

/-- The store of a frame adds one reference at most. -/
theorem storeMarked_numRefs_le (h : b.storeMarked cfg p = some b') :
    Frm.numRefs b'.frames ≤
      Frm.numRefs (if p.slides ∧ Frm.numRefs b.frames = max 1 cfg.numRefFrames then
        b.modify Frm.slide else b).frames + if p.usedForReference then 1 else 0 := by
  obtain ⟨⟨c, q, room⟩, hv, rfl⟩ := map_eq_some_iff.1 h
  have hq : q.usedForReference = p.usedForReference := by
    refine StorePic.usedForReference_of_kept ((makeRoom_kept hv).trans ?_)
    split <;> rfl
  have hle := Steps.numRefs_le ((purge_steps _).trans (makeRoom_steps hv))
  dsimp only at hle
  cases room with
  | output => exact hle.trans (Nat.le_add_right _ _)
  | store =>
    refine (add_numRefs_le c q).trans ?_
    rw [hq]
    exact Nat.add_le_add_right hle _

theorem idr_frames {noOutput : Bool} (h : b.idr noOutput = some b') : b'.frames = [] := by
  obtain ⟨c, hc, rfl⟩ := map_eq_some_iff.1 h
  exact (flush_steps hc).2

/-- What the marking by a frame does to the number of references. -/
theorem mark_numRefs {w : FrmBuf × StorePic × MppRet} (h : b.mark p = some w) {limit : ℕ}
    (hpos : 0 < limit) (hb : Frm.numRefs b.frames ≤ limit)
    (hg : Frm.MakesRoom limit p b.frames) :
    Frm.numRefs w.1.frames ≤ limit ∧
      (p.idrFlag ∨ p.isAdaptive → 0 ≤ w.2.2 → Frm.numRefs w.1.frames < limit) ∧
      (¬p.idrFlag → ¬p.isAdaptive → w = (b, p, mppOk)) := by
  unfold mark at h
  split at h <;> rename_i hidr
  · obtain ⟨c, hc, rfl⟩ := map_eq_some_iff.1 h
    have h0 : Frm.numRefs c.frames = 0 := by rw [idr_frames hc]; rfl
    exact ⟨by dsimp only; omega, fun _ _ => by dsimp only; omega, fun h' => absurd hidr h'⟩
  split at h <;> rename_i hada
  · dsimp only at h
    have hsteps := (controls_steps b p p.decRefPicMarkingBuffer).numRefs_le.trans hb
    split at h <;> rename_i hneg
    · obtain rfl := some.inj h
      exact ⟨hsteps, fun _ h0 => absurd hneg (not_lt.2 h0), fun _ h' => absurd hada h'⟩
    · split at h <;> rename_i h5
      · obtain ⟨c, hc, rfl⟩ := map_eq_some_iff.1 h
        have h0 : Frm.numRefs c.frames = 0 := by rw [(flush_steps hc).2]; rfl
        exact ⟨by dsimp only; omega, fun _ _ => by dsimp only; omega, fun _ h' => absurd hada h'⟩
      · obtain rfl := some.inj h
        refine ⟨hsteps, fun _ _ => ?_, fun _ h' => absurd hada h'⟩
        rcases hb.lt_or_eq with hlt | heq
        · exact (controls_steps b p _).numRefs_le.trans_lt hlt
        · have hr := (hg heq).2 hada (controls_wellFormed (not_lt.1 hneg)) (by simpa using h5)
          exact (controls_numRefs_lt (not_lt.1 hneg) hr).trans_eq heq
  · obtain rfl := some.inj h
    exact ⟨hb, fun h' => absurd h' (by simp [hidr, hada]), fun _ _ => rfl⟩

/-- The store of a frame keeps the references within their limit. -/
theorem store_numRefs_le {ret : MppRet}
    (hb : Frm.numRefs b.frames ≤ max 1 cfg.numRefFrames)
    (hg : Frm.MakesRoom (max 1 cfg.numRefFrames) p b.frames)
    (h : b.store cfg p = some (b', ret)) :
    Frm.numRefs b'.frames ≤ max 1 cfg.numRefFrames := by
  obtain ⟨w, hw, hstep⟩ := bind_eq_some_iff.1 h
  have hpos : 0 < max 1 cfg.numRefFrames := by omega
  obtain ⟨hle, hlt, hsame⟩ := mark_numRefs hw hpos hb hg
  have hkept := mark_kept hw
  split at hstep <;> rename_i hneg
  · obtain ⟨rfl, -⟩ := Prod.mk.inj (some.inj hstep)
    exact hle
  · obtain ⟨c, hc, heq⟩ := map_eq_some_iff.1 hstep
    obtain ⟨rfl, -⟩ := Prod.mk.inj heq
    refine (storeMarked_numRefs_le hc).trans ?_
    rw [StorePic.slides_of_kept hkept, StorePic.usedForReference_of_kept hkept]
    by_cases hm : p.idrFlag ∨ p.isAdaptive
    · have hsl : p.slides = false := by
        simp only [StorePic.slides, StorePic.isAdaptive] at hm ⊢
        revert hm
        cases p.idrFlag <;> cases p.usedForReference <;>
          cases p.adaptiveRefPicBufferingFlag <;> simp
      have := hlt hm (not_lt.1 hneg)
      rw [hsl, if_neg (by simp)]
      split <;> omega
    · rw [not_or] at hm
      obtain rfl := hsame hm.1 hm.2
      by_cases hsl : p.slides
      · rw [hsl]
        simp only [true_and]
        split <;> rename_i hfull
        · have hs := Frm.numRefs_setFirst_lt ((hg hfull).1 hsl)
          change Frm.numRefs (Frm.slide b.frames) + _ ≤ _
          rw [Frm.slide]
          split <;> omega
        · have := hb.lt_of_ne hfull
          dsimp only
          split <;> omega
      · have hu : p.usedForReference = false := by
          simp only [StorePic.slides, StorePic.isAdaptive] at hm hsl
          revert hm hsl
          cases p.idrFlag <;> cases p.usedForReference <;>
            cases p.adaptiveRefPicBufferingFlag <;> simp
        rw [if_neg fun hin => hsl hin.1, hu]
        exact hb

theorem number_frames (b : FrmBuf) (p : StorePic) : (b.number cfg p).frames =
    if p.idrFlag then b.frames else b.frames.map (Frm.number cfg.maxFrameNum p.frameNum) := by
  unfold number
  split <;> rfl

theorem decode_numRefs_le {slotIdx : ℤ} {ret : MppRet}
    (hb : Frm.numRefs b.frames ≤ max 1 cfg.numRefFrames)
    (hg : Frm.MakesRoom (max 1 cfg.numRefFrames) p (b.number cfg p).frames)
    (h : b.decode cfg p slotIdx = some (b', ret)) :
    Frm.numRefs b'.frames ≤ max 1 cfg.numRefFrames := by
  obtain ⟨m, -, hs⟩ := bind_eq_some_iff.1 h
  refine store_numRefs_le ?_ ?_ hs
  · exact (Steps.numRefs_le (number_steps _ _)).trans hb
  · rw [number_frames] at hg ⊢
    exact hg

end FrmBuf

/-! ## The bound -/

/-- The frame that comes in makes room for itself as a reference. -/
def ReleasesRef (cfg : DecCfg) (c : VideoCtx) (a : Coming) : Prop :=
  a.pic.picStructure = .frame ∧
    Frm.MakesRoom (max 1 cfg.numRefFrames) a.pic (c.buf.number cfg a.pic).frames

instance (cfg : DecCfg) (c : VideoCtx) (a : Coming) : Decidable (ReleasesRef cfg c a) := by
  unfold ReleasesRef
  infer_instance

/-- In every run of frames that make room for themselves, the references are within their
    limit. -/
theorem reachable_refFrames_le (cfg : DecCfg) (hpos : 0 < cfg.size) {c : VideoCtx}
    (h : ((decodeMachine cfg).guarded fun c a _ => ReleasesRef cfg c a).Reachable c) :
    c.dpb.refFrames ≤ max 1 cfg.numRefFrames := by
  have hinv := h.invariant
    (P := fun c => c.FrameDecoder cfg ∧ Frm.numRefs c.buf.frames ≤ max 1 cfg.numRefFrames)
    (fun c hc => ?_) fun c a c' _ hc hst => ?_
  · rw [hinv.1.only.refFrames_eq]
    exact hinv.2
  · rw [show c = _ from hc]
    exact ⟨initVideoCtx_frameDecoder cfg, by rw [initVideoCtx_frames]; exact Nat.zero_le _⟩
  · obtain ⟨hd, ret, hb⟩ := hc.1.decode hpos hst.2.1 hst.1
    refine ⟨hd, FrmBuf.decode_numRefs_le (b := { c.buf with iSliceNo := a.iSliceNo }) hc.2 ?_ hb⟩
    have hg := hst.2.2
    rw [FrmBuf.number_frames] at hg ⊢
    exact hg

/-- A reference frame with the given operations, or one that slides the window. -/
def refPic (frameNum poc : ℤ) (idr : Bool) (ops : Option (List Drpm)) : StorePic where
  picStructure := .frame
  poc := poc
  topPoc := poc
  bottomPoc := poc
  framePoc := poc
  picNum := frameNum
  frameNum := frameNum
  usedForReference := true
  idrFlag := idr
  adaptiveRefPicBufferingFlag := ops.isSome
  decRefPicMarkingBuffer := ops.getD []
  frameMbsOnlyFlag := true

/-- An operation that releases the frame which came the given number of frames before. -/
def releaseBefore (n : ℤ) : Drpm where
  memoryManagementControlOperation := 1
  differenceOfPicNumsMinus1 := n - 1

/-- A buffer of four frames of which one may be a reference. -/
def oneRefDec : DecCfg where
  size := 4
  numRefFrames := 1
  maxFrameNum := 16

theorem reachable_refFrames_le_two :
    ∃ c, ((decodeMachine oneRefDec).guarded
        fun c a _ => ReleasesRef oneRefDec c a).Reachable c ∧
      c.dpb.refFrames = 1 ∧ c.dpb.refFrames ≤ max 1 oneRefDec.numRefFrames := by
  have h : ((Machine.run VideoCtx.decode (fun c a _ => ReleasesRef oneRefDec c a)
      (initVideoCtx oneRefDec) [⟨refPic 0 0 true none, 0, 1⟩, ⟨refPic 1 2 false none, 1, 1⟩,
        ⟨refPic 2 4 false (some [releaseBefore 1]), 2, 1⟩]).any
          fun c => c.dpb.refFrames = 1) = true := by
    decide
  obtain ⟨c, hc, hn⟩ := (any_eq_true _ _).1 h
  have hreach := Machine.Reachable.run (.init rfl) hc
  exact ⟨c, hreach, of_decide_eq_true hn, reachable_refFrames_le oneRefDec (by decide) hreach⟩

/-- A list of operations that names a picture number no frame has leaves two references
    where one is allowed. -/
theorem unmatched_operation_exceeds :
    ∃ c, ((decodeMachine oneRefDec).guarded
        fun _ a _ => a.pic.picStructure = .frame).Reachable c ∧
      ¬c.dpb.refFrames ≤ max 1 oneRefDec.numRefFrames := by
  have h : ((Machine.run VideoCtx.decode (fun _ a _ => a.pic.picStructure = .frame)
      (initVideoCtx oneRefDec) [⟨refPic 0 0 true none, 0, 1⟩,
        ⟨refPic 1 2 false (some [releaseBefore 6]), 1, 1⟩]).any
          fun c => ¬c.dpb.refFrames ≤ max 1 oneRefDec.numRefFrames) = true := by
    decide
  obtain ⟨c, hc, hn⟩ := (any_eq_true _ _).1 h
  exact ⟨c, Machine.Reachable.run (.init rfl) hc, of_decide_eq_true hn⟩

end Libmpp.H264d
