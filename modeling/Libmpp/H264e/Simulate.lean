import Libmpp.EncRef.Window
import Libmpp.H264e.Mirror

/-!
# A frame through the dpb

The dpb follows the virtual buffer. `Mirrors d s n dpb` says that the slots hold the
frames shown of the store `s` before frame `n` of the gop, as many as are counted.

* `h264eDpbProc` finds the frames shown and a slot of its own for the current frame
  (`Ready`).
* `h264eDpbCheck` leaves the frames shown after it: what gives way is cleared
  (`Ready.insertCurr`), and the window moves (`slideWindow_slides`).

`Mirrors.frame` puts the two together.
-/

namespace Libmpp.H264e

open EncRef

/-- The frames in an array are those of `w`. -/
def Shows (arr : Vector EncFrmStatus maxCpbRefs) (w : List EncFrmStatus) : Prop :=
  arr.toList.filter EncFrmStatus.valid = w

theorem Shows.mem {arr : Vector EncFrmStatus maxCpbRefs} {w : List EncFrmStatus}
    (h : Shows arr w) {f : EncFrmStatus} : f ∈ w ↔ f ∈ arr.toList ∧ f.valid := by
  rw [← h, List.mem_filter]

/-- The picture order count of the current frame. -/
def H264eDpb.pocOf (dpb : H264eDpb) (curr : EncFrmStatus) : ℤ :=
  (dpb.currPoc curr).1 + (dpb.currPoc curr).2 * dpb.maxPocLsb

/-- The settings of the dpb. -/
structure SameSettings (dpb dpb' : H264eDpb) : Prop where
  totalCnt : dpb'.totalCnt = dpb.totalCnt
  dpbSize : dpb'.dpbSize = dpb.dpbSize
  pocType : dpb'.pocType = dpb.pocType
  maxPocLsb : dpb'.maxPocLsb = dpb.maxPocLsb

/-! ## Preparing a frame -/

/-- The dpb `p` is ready for the current frame in slot `c`; `b` is the dpb at the
    start of the frame, and `w` are the frames kept. -/
structure Ready (b : H264eDpb) (curr : EncFrmStatus) (w : List EncFrmStatus) (n : ℕ)
    (c : Fin dpbFrmCnt) (p : H264eDpb) : Prop where
  curr_eq : p.curr = some c
  notKept : some c ∉ p.map
  holds : Holds b.totalCnt (insert curr {f | f ∈ w}) (n + 1) (b.pocOf curr) p.frames
  status : (p.frames.get c).status = curr
  used : ∀ i, (p.frames.get i).status.valid → (p.frames.get i).dpbUsed
  new : curr ∉ w
  rt : p.rt = b.currRt curr
  usedSize : p.usedSize = b.usedSize
  settings : SameSettings b p

section Ready

variable {b p p' : H264eDpb} {cpb : EncCpbStatus} {curr : EncFrmStatus} {w : List EncFrmStatus}
  {n : ℕ} {c : Fin dpbFrmCnt}

/-- What is ready stays so when the rest of the dpb changes. -/
theorem Ready.congr (h : Ready b curr w n c p) (hcurr : p'.curr = p.curr) (hmap : p'.map = p.map)
    (hframes : p'.frames = p.frames) (hrt : p'.rt = p.rt) (hsize : p'.usedSize = p.usedSize)
    (hset : SameSettings p p') : Ready b curr w n c p' where
  curr_eq := hcurr.trans h.curr_eq
  notKept := by
    rw [hmap]
    exact h.notKept
  holds := by
    rw [hframes]
    exact h.holds
  status := by
    rw [hframes]
    exact h.status
  used := by
    rw [hframes]
    exact h.used
  new := h.new
  rt := hrt.trans h.rt
  usedSize := hsize.trans h.usedSize
  settings :=
    ⟨hset.totalCnt.trans h.settings.totalCnt, hset.dpbSize.trans h.settings.dpbSize,
      hset.pocType.trans h.settings.pocType, hset.maxPocLsb.trans h.settings.maxPocLsb⟩

/-- The frames to list are found, and their list is built. -/
theorem Ready.buildList (h : Ready b cpb.curr w n c p) (hinit : Shows cpb.init w)
    {refr : Fin dpbFrmCnt} (hrefr : p.refr = some refr) :
    ∃ l, h264eDpbBuildList p cpb = some l ∧ Ready b cpb.curr w n c l := by
  cases hi : cpb.curr.isIntra with
  | true => exact ⟨_, buildList_of_intra hi p, h.congr rfl rfl rfl rfl rfl ⟨rfl, rfl, rfl, rfl⟩⟩
  | false =>
    have hkept : ∀ f ∈ cpb.init.toList, f.valid → f ∈ insert cpb.curr {f | f ∈ w} :=
      fun f hf hv => .inr (hinit.mem.2 ⟨hf, hv⟩)
    have hfound : ∀ f ∈ cpb.init.toList, (findCpbFrame p.totalCnt p.frames f).isSome := by
      intro f hf
      cases hv : f.valid with
      | false => rw [findCpbFrame_of_invalid hv, Option.isSome_some]
      | true =>
        obtain ⟨i, hfind, -⟩ := h.holds.find (hkept f hf hv)
        rw [h.settings.totalCnt, hfind, Option.isSome_some]
    obtain ⟨⟨frames, stref, ltref⟩, hrefs⟩ := Option.isSome_iff_exists.1 (listRefs_isSome hfound)
    -- the status refreshed is the one held
    have hframes : frames = p.frames := by
      rw [listRefs_frames hrefs, h.settings.totalCnt]
      exact h.holds.refreshed_eq hkept
    have hop : ∃ op, reorderFor frames (defaultList frames stref ltref) p.curr p.refr = some op := by
      rw [h.curr_eq, hrefr]
      cases defaultList frames stref ltref with
      | nil => exact ⟨_, rfl⟩
      | cons defRef _ =>
        dsimp only [reorderFor, Option.bind_eq_bind, Option.bind_some]
        split_ifs
        · exact ⟨_, rfl⟩
        · exact ⟨_, rfl⟩
    obtain ⟨op, hop⟩ := hop
    exact ⟨_, (buildList_eq_some_iff hi).2 ⟨frames, stref, ltref, op, hrefs, hop, rfl⟩,
      h.congr rfl rfl hframes rfl rfl ⟨rfl, rfl, rfl, rfl⟩⟩

theorem Ready.buildMarking (h : Ready b curr w n c p) :
    Ready b curr w n c (h264eDpbBuildMarking p c) := by
  obtain ⟨marking, next, -, heq⟩ := buildMarking_spec p c
  rw [heq]
  exact h.congr rfl rfl rfl rfl rfl ⟨rfl, rfl, rfl, rfl⟩

/-- Marking slots in use changes nothing. -/
theorem markUsed_eq {map : List (Option (Fin dpbFrmCnt))} {frames : DpbFrames}
    (h : ∀ i, some i ∈ map → (frames.get i).dpbUsed) : markUsed map frames = frames := by
  refine ext_get fun i => ?_
  rw [get_markUsed]
  split_ifs with hi
  · rw [List.contains_eq_mem, decide_eq_true_eq] at hi
    rw [← h i hi]
  · rfl

theorem setRefr_rt (dpb : H264eDpb) (refr : Option (Fin dpbFrmCnt)) :
    (dpb.setRefr refr).rt = dpb.rt := rfl

theorem setRefr_refr (dpb : H264eDpb) (refr : Option (Fin dpbFrmCnt)) :
    (dpb.setRefr refr).refr = refr.orElse fun _ => dpb.curr := rfl

theorem mapped_pocOf (d : H264eDpb) (cpb : EncCpbStatus) (map : List (Option (Fin dpbFrmCnt))) :
    (d.mapped cpb map).pocOf cpb.curr = (d.begin cpb.curr).pocOf cpb.curr := rfl

theorem mapped_currRt (d : H264eDpb) (cpb : EncCpbStatus) (map : List (Option (Fin dpbFrmCnt))) :
    (d.mapped cpb map).currRt cpb.curr = (d.begin cpb.curr).currRt cpb.curr := rfl

/-- Putting the current frame into its slot leaves the settings and the counters alone. -/
theorem placed_settings (d : H264eDpb) (cpb : EncCpbStatus) (map : List (Option (Fin dpbFrmCnt)))
    (refr : Option (Fin dpbFrmCnt)) :
    (((d.mapped cpb map).scan cpb.curr).setRefr refr).usedSize = (d.begin cpb.curr).usedSize ∧
      (((d.mapped cpb map).scan cpb.curr).setRefr refr).map = map ∧
      SameSettings (d.begin cpb.curr) (((d.mapped cpb map).scan cpb.curr).setRefr refr) := by
  rw [scan_eq, H264eDpb.setRefr, H264eDpb.mapped, H264eDpb.backup]
  exact ⟨rfl, rfl, rfl, rfl, rfl, rfl⟩

/-- With the frames kept in the slots, the frame is prepared. -/
theorem proc_ready {d : H264eDpb} {last : ℤ}
    (h : Holds d.totalCnt {f | f ∈ w} n last (d.begin cpb.curr).frames) (hinit : Shows cpb.init w)
    (hv : cpb.curr.valid) (hn : cpb.curr.seqIdx.val = n)
    (hpoc : last < (d.begin cpb.curr).pocOf cpb.curr) (hlen : w.length < d.totalCnt.val)
    (hrefr : cpb.refr.valid → cpb.refr ∈ w) :
    ∃ p c, h264eDpbProc d cpb = some p ∧ Ready (d.begin cpb.curr) cpb.curr w n c p := by
  obtain ⟨map, hfind, hmap⟩ := h.mapM_find (l := cpb.init.toList)
    fun f hf hv => hinit.mem.2 ⟨hf, hv⟩
  have hmapUsed : markUsed map (d.begin cpb.curr).frames = (d.begin cpb.curr).frames :=
    markUsed_eq fun i hi => ((hmap i).1 hi).1
  have hframes : (d.mapped cpb map).frames = (d.begin cpb.curr).frames := hmapUsed
  have hmapped : (d.mapped cpb map).map = map := rfl
  have hkept : ∀ i, some i ∈ map → ((d.begin cpb.curr).frames.get i).status.valid ∧
      ((d.begin cpb.curr).frames.get i).status ∈ w := by
    intro i hi
    obtain ⟨-, hvi, hmem⟩ := (hmap i).1 hi
    exact ⟨hvi, hinit.mem.2 ⟨hmem, hvi⟩⟩
  obtain ⟨c, hc, hct, hcmap⟩ := h.exists_freeSlot hkept hlen
  rw [← hmapped, ← hframes] at hc
  have hcurr : ((d.mapped cpb map).scan cpb.curr).curr = some c := by
    rw [scan_curr]
    exact hc
  rw [← hframes] at h
  have hmap' : ∀ i, some i ∈ (d.mapped cpb map).map ↔
      ((d.mapped cpb map).frames.get i).dpbUsed ∧
        ((d.mapped cpb map).frames.get i).status.valid := by
    intro i
    rw [hmapped, hmap i, hframes]
    refine and_congr_right fun hu => and_iff_left_of_imp fun hvi => ?_
    rw [hframes] at h
    exact (hinit.mem.1 (h.of_used i hu hvi)).1
  obtain ⟨hholds, hstatus, hused⟩ := h.scanned hmap' hc hct hv hn hpoc
  rw [← scan_frames] at hholds hstatus hused
  have hnew : cpb.curr ∉ w := by
    intro hmem
    obtain ⟨i, -, hi⟩ := h.held _ hmem
    have := h.lt i (by rw [hi]; exact hv)
    rw [hi, hn] at this
    exact lt_irrefl _ this
  obtain ⟨refr, hfindRefr⟩ : ∃ refr, findCpbFrame d.totalCnt
      ((d.mapped cpb map).scan cpb.curr).frames cpb.refr = some refr := by
    cases hvr : cpb.refr.valid with
    | false => exact ⟨none, findCpbFrame_of_invalid hvr⟩
    | true =>
      obtain ⟨i, hi, -⟩ := hholds.find (.inr (hrefr hvr))
      exact ⟨some i, hi⟩
  have hready : Ready (d.begin cpb.curr) cpb.curr w n c
      (((d.mapped cpb map).scan cpb.curr).setRefr refr) := by
    obtain ⟨hsize, hmapEq, hset⟩ := placed_settings d cpb map refr
    refine ⟨?_, ?_, ?_, ?_, ?_, hnew, ?_, hsize, hset⟩
    · rw [setRefr_curr]
      exact hcurr
    · rw [hmapEq]
      exact hcmap
    · rw [begin_totalCnt, setRefr_frames, ← mapped_pocOf d cpb map]
      exact hholds
    · rw [setRefr_frames]
      exact hstatus
    · rw [setRefr_frames]
      exact hused
    · rw [setRefr_rt, ← mapped_currRt d cpb map]
      exact scan_rt (by rw [hcurr, Option.isSome_some])
  have hrefr' : ∃ r, (((d.mapped cpb map).scan cpb.curr).setRefr refr).refr = some r := by
    rw [setRefr_refr, hcurr]
    cases refr with
    | none => exact ⟨c, rfl⟩
    | some r => exact ⟨r, rfl⟩
  obtain ⟨r, hr⟩ := hrefr'
  obtain ⟨l, hl, hlist⟩ := hready.buildList hinit hr
  exact ⟨_, c, h264eDpbProc_eq_some_iff.2 ⟨map, c, refr, l, ⟨hfind, hcurr, hfindRefr, hl⟩, rfl⟩,
    hlist.buildMarking⟩

/-! ## Moving on -/

/-- A frame that is not a reference leaves its slot. -/
theorem Ready.clear (h : Ready b curr w n c p) :
    Holds b.totalCnt {f | f ∈ w} (n + 1) (b.pocOf curr)
      (p.frames.set c (p.frames.get c).clear c.isLt) := by
  have hset : clearSlots {c} p.frames = p.frames.set c (p.frames.get c).clear := by
    refine ext_get fun i => ?_
    rw [get_clearSlots, get_set_fin]
    simp only [Finset.mem_singleton]
    split_ifs with hi
    · rw [hi]
    · rfl
  rw [← hset]
  refine (congrArg (fun x => Holds b.totalCnt x (n + 1) (b.pocOf curr) (clearSlots {c} p.frames))
    ?_).mp (h.holds.clearSlots {c})
  ext f
  simp only [Set.mem_insert_iff, Set.mem_ofPred_eq, Finset.mem_singleton, forall_eq, h.status]
  constructor
  · rintro ⟨rfl | hf, hne⟩
    · exact absurd rfl hne
    · exact hf
  · intro hf
    refine ⟨.inr hf, ?_⟩
    rintro rfl
    exact h.new hf

/-- The slots replaced are those of the frames that give way. -/
theorem Ready.mem_replacedBy (h : Ready b curr w n c p) (i : Fin dpbFrmCnt) :
    i ∈ replacedBy p.totalCnt p.frames c ↔ (p.frames.get i).status.valid ∧
      (p.frames.get i).status ∈ w ∧ GivesWay curr (p.frames.get i).status := by
  have hc : ∀ i, (p.frames.get i).status.valid → ((p.frames.get i).status = curr ↔ i = c) := by
    intro i hi
    constructor
    · intro he
      refine h.holds.inj i c hi ?_ ?_
      · rw [h.status, ← he]
        exact hi
      · rw [h.status, he]
    · rintro rfl
      exact h.status
  have hidx : (p.frames.get c).ltIdx = curr.ltIdx := by
    rw [← h.status]
    refine h.holds.ltIdx c ?_
    rw [h.status]
    exact h.holds.valid _ (Set.mem_insert _ _)
  rw [replacedBy, h.status]
  constructor
  · intro hi
    split_ifs at hi with hl
    · obtain ⟨hit, hrep⟩ := (Finset.mem_filter.1 hi).2
      simp only [isReplaced, Bool.and_eq_true, decide_eq_true_eq, beq_iff_eq] at hrep
      obtain ⟨⟨⟨⟨hic, hu⟩, hv⟩, hlt⟩, hk⟩ := hrep
      rw [h.holds.ltIdx i hv, hidx] at hk
      refine ⟨hv, (h.holds.of_used i hu hv).resolve_left ?_, hl, hlt, hk⟩
      exact fun he => hic ((hc i hv).1 he)
    · exact absurd hi (Finset.notMem_empty _)
  · rintro ⟨hv, hmem, hl, hlt, hk⟩
    rw [if_pos hl]
    refine Finset.mem_filter.2 ⟨Finset.mem_univ _, ?_, ?_⟩
    · rw [h.settings.totalCnt]
      exact h.holds.inUse i hv
    · simp only [isReplaced, Bool.and_eq_true, decide_eq_true_eq, beq_iff_eq]
      refine ⟨⟨⟨⟨?_, h.used i hv⟩, hv⟩, hlt⟩, ?_⟩
      · rintro rfl
        rw [h.status] at hmem
        exact h.new hmem
      · rw [h.holds.ltIdx i hv, hidx]
        exact hk

/-- As many slots are replaced as frames give way. -/
theorem Ready.card_replacedBy (h : Ready b curr w n c p) (hw : w.Nodup) :
    (replacedBy p.totalCnt p.frames c).card = wayCnt curr w := by
  rw [wayCnt, ← List.toFinset_card_of_nodup (hw.filter _)]
  refine Finset.card_bij (fun i _ => (p.frames.get i).status) ?_ ?_ ?_
  · intro i hi
    obtain ⟨-, hmem, hway⟩ := (h.mem_replacedBy i).1 hi
    exact List.mem_toFinset.2 (List.mem_filter.2 ⟨hmem, decide_eq_true hway⟩)
  · intro i hi j hj hij
    exact h.holds.inj i j ((h.mem_replacedBy i).1 hi).1 ((h.mem_replacedBy j).1 hj).1
      (congrArg EncFrmStatus.seqIdx hij)
  · intro f hf
    obtain ⟨hmem, hway⟩ := List.mem_filter.1 (List.mem_toFinset.1 hf)
    obtain ⟨i, -, hi⟩ := h.holds.held f (.inr hmem)
    refine ⟨i, (h.mem_replacedBy i).2 ?_, hi⟩
    rw [hi]
    exact ⟨h.holds.valid f (.inr hmem), hmem, of_decide_eq_true hway⟩

/-- Counting a reference frame, those that give way are cleared. -/
theorem Ready.insertCurr (h : Ready b curr w n c p) :
    Holds b.totalCnt (joined curr w) (n + 1) (b.pocOf curr)
      (clearSlots (replacedBy p.totalCnt p.frames c) p.frames) := by
  refine (congrArg (fun x => Holds b.totalCnt x (n + 1) (b.pocOf curr)
    (clearSlots (replacedBy p.totalCnt p.frames c) p.frames)) ?_).mp (h.holds.clearSlots _)
  ext f
  simp only [Set.mem_insert_iff, Set.mem_ofPred_eq, joined]
  constructor
  · rintro ⟨rfl | hf, hne⟩
    · exact .inl rfl
    · refine .inr ⟨hf, fun hway => ?_⟩
      obtain ⟨i, -, hi⟩ := h.holds.held f (.inr hf)
      refine hne i ((h.mem_replacedBy i).2 ?_) hi
      rw [hi]
      exact ⟨h.holds.valid f (.inr hf), hf, hway⟩
  · rintro (rfl | ⟨hf, hway⟩)
    · refine ⟨.inl rfl, fun i hi he => h.new ?_⟩
      have := ((h.mem_replacedBy i).1 hi).2.1
      rwa [he] at this
    · refine ⟨.inr hf, fun i hi he => hway ?_⟩
      have := ((h.mem_replacedBy i).1 hi).2.2
      rwa [he] at this

end Ready

/-- The sliding window takes out what the window of the frames shown loses. -/
theorem slideWindow_slides {e : H264eDpb} {x : Set EncFrmStatus} {w : List EncFrmStatus}
    {u d n : ℕ} {last : ℤ} (h : Holds e.totalCnt x n last e.frames) (hlast : last < 0x7fffffff)
    (hu : e.usedSize = u) (hd : e.dpbSize = d) (hs : Slides d x u w) :
    ∃ frames stSize,
      slideWindow (e.usedSize - e.dpbSize).toNat e =
        { e with frames, stSize, usedSize := (w.length : ℤ) } ∧
      Holds e.totalCnt {f | f ∈ w} n last frames := by
  cases hs with
  | room hle hset hlen =>
    have hzero : (e.usedSize - e.dpbSize).toNat = 0 := by omega
    refine ⟨e.frames, e.stSize, ?_, by rw [hset]; exact h⟩
    rw [hzero, slideWindow, hlen, ← hu]
  | evict l f hone hl hsorted hset hlen =>
    have hone : (e.usedSize - e.dpbSize).toNat = 1 := by omega
    obtain ⟨i, hi, hv, hstatus⟩ := h.smallestPoc_eq hlast l f hl hsorted
    refine ⟨e.frames.set i { e.frames.get i with dpbUsed := false }, e.stSize - 1, ?_, ?_⟩
    · have hsize : (u : ℤ) - 1 = d := by omega
      rw [hone, slideWindow, hi]
      dsimp only
      rw [slideWindow, hlen, hu, hsize]
    · rw [hset, ← hstatus]
      exact h.evict hv

/-! ## The whole frame -/

/-- The picture order count of the last frame. -/
def H264eDpb.lastPoc (dpb : H264eDpb) : ℤ := dpb.rt.lastPocLsb + dpb.rt.lastPocMsb * dpb.maxPocLsb

/-- Before frame `n` of the gop, the dpb mirrors the window of size `d` of the store. -/
structure Mirrors (d : ℕ) (s : RefStore EncFrmStatus) (n : ℕ) (dpb : H264eDpb) : Prop where
  holds : Holds dpb.totalCnt {f | f ∈ s.window d} n dpb.lastPoc dpb.frames
  usedSize : dpb.usedSize = ((s.window d).length : ℤ)
  dpbSize : dpb.dpbSize = d
  room : d < dpb.totalCnt.val
  pocType : dpb.pocType = 0 ∨ dpb.pocType = 2
  lastIsRef : dpb.rt.lastIsRef = 0 ∨ dpb.rt.lastIsRef = 1
  maxPocLsb : 0 < dpb.maxPocLsb
  lastPocLsb : dpb.rt.lastPocLsb < dpb.maxPocLsb
  lastPoc_le : dpb.lastPoc ≤ 2 * n
  lastSeqIdx : 0 < n → dpb.rt.lastSeqIdx.val + 1 = n

/-- The count of the current frame follows that of the last one, by at most two. -/
theorem pocOf_of_not_idr {dpb : H264eDpb} {curr : EncFrmStatus} (hidr : curr.isIdr = false)
    (htype : dpb.pocType = 0 ∨ dpb.pocType = 2)
    (href : dpb.rt.lastIsRef = 0 ∨ dpb.rt.lastIsRef = 1) (hmax : 0 < dpb.maxPocLsb)
    (hlsb : dpb.rt.lastPocLsb < dpb.maxPocLsb) :
    dpb.lastPoc < dpb.pocOf curr ∧ dpb.pocOf curr ≤ dpb.lastPoc + 2 ∧
      (dpb.currPoc curr).1 < dpb.maxPocLsb := by
  have hstep : ∃ k : ℤ, 1 ≤ k ∧ k ≤ 2 ∧ dpb.currPoc curr =
      if dpb.rt.lastPocLsb + k ≥ dpb.maxPocLsb then (0, dpb.rt.lastPocMsb + 1)
      else (dpb.rt.lastPocLsb + k, dpb.rt.lastPocMsb) := by
    rw [H264eDpb.currPoc, hidr, if_neg Bool.false_ne_true]
    rcases htype with ht | ht
    · exact ⟨2, by omega, by omega, by rw [ht]; rfl⟩
    · exact ⟨1 + dpb.rt.lastIsRef, by omega, by omega, by rw [ht]; rfl⟩
  obtain ⟨k, hk₁, hk₂, hpoc⟩ := hstep
  rw [H264eDpb.pocOf, H264eDpb.lastPoc, hpoc]
  split_ifs with hge
  · have : (dpb.rt.lastPocMsb + 1) * dpb.maxPocLsb =
        dpb.rt.lastPocMsb * dpb.maxPocLsb + dpb.maxPocLsb := by ring
    dsimp only
    rw [this]
    omega
  · dsimp only
    omega

/-- The dpb at the start of a frame: emptied for an IDR frame, and else as it was. -/
theorem Mirrors.begin {d n : ℕ} {s : RefStore EncFrmStatus} {dpb : H264eDpb}
    (h : Mirrors d s n dpb) {s₁ : RefStore EncFrmStatus} {curr : EncFrmStatus} {n₁ : ℕ}
    (hidr : curr.isIdr = true → n₁ = 0 ∧ s₁.window d = [])
    (hnot : curr.isIdr = false → 0 < n₁ ∧ n₁ = n ∧ s₁ = s) (hn : curr.seqIdx.val = n₁) :
    ∃ last, Holds dpb.totalCnt {f | f ∈ s₁.window d} n₁ last (dpb.begin curr).frames ∧
      (dpb.begin curr).usedSize = ((s₁.window d).length : ℤ) ∧
      last < (dpb.begin curr).pocOf curr ∧ (dpb.begin curr).pocOf curr ≤ 2 * (n₁ + 1) ∧
      ((dpb.begin curr).currPoc curr).1 < dpb.maxPocLsb ∧
      SameSettings dpb (dpb.begin curr) := by
  cases hi : curr.isIdr with
  | true =>
    obtain ⟨rfl, hw⟩ := hidr hi
    have hbegin : dpb.begin curr =
        { dpb with frames := dpb.frames.map H264eDpbFrm.clear, usedSize := 0, currMaxLtIdx := 0,
                   nextMaxLtIdx := 0 } := by
      rw [H264eDpb.begin, if_pos hi]
    have hclear : ∀ i, (dpb.begin curr).frames.get i = (dpb.frames.get i).clear := by
      intro i
      rw [hbegin]
      dsimp only
      rw [Vector.get_eq_getElem, Vector.getElem_map, Vector.get_eq_getElem]
    have hinv : ∀ i, ((dpb.begin curr).frames.get i).status.valid → False := by
      intro i hv
      rw [hclear] at hv
      exact Bool.false_ne_true hv
    have hpoc : (dpb.begin curr).currPoc curr = (0, 0) := by rw [H264eDpb.currPoc, if_pos hi]
    have hpocOf : (dpb.begin curr).pocOf curr = 0 := by
      rw [H264eDpb.pocOf, hpoc]
      ring
    rw [hw]
    refine ⟨-1, ?_, ?_, ?_, ?_, ?_, ?_⟩
    · exact .of_invalid hinv fun i => (hclear i).symm ▸ h.holds.idle i
    · rw [hbegin]
      rfl
    · rw [hpocOf]
      omega
    · rw [hpocOf]
      omega
    · rw [hpoc]
      exact h.maxPocLsb
    · rw [hbegin]
      exact ⟨rfl, rfl, rfl, rfl⟩
  | false =>
    obtain ⟨hpos, rfl, rfl⟩ := hnot hi
    have hbegin : dpb.begin curr = dpb := by
      rw [H264eDpb.begin, hi, if_neg Bool.false_ne_true, if_neg]
      intro he
      have := h.lastSeqIdx hpos
      rw [← he, hn] at this
      omega
    rw [hbegin]
    obtain ⟨hlt, hle, hlsb⟩ := pocOf_of_not_idr hi h.pocType h.lastIsRef h.maxPocLsb h.lastPocLsb
    have := h.lastPoc_le
    exact ⟨_, h.holds, h.usedSize, hlt, by omega, hlsb, ⟨rfl, rfl, rfl, rfl⟩⟩

/-- The last count after a frame is that of the frame. -/
theorem lastPoc_of_rt {b dpb : H264eDpb} {curr : EncFrmStatus} (hrt : dpb.rt = b.currRt curr)
    (hmax : dpb.maxPocLsb = b.maxPocLsb) : dpb.lastPoc = b.pocOf curr := by
  rw [H264eDpb.lastPoc, hrt, hmax]
  rfl

/-- A frame through the dpb, when the frames come with it that the window of the store
    shows before and after it: the frames are found, the current frame has a slot of
    its own, and the dpb mirrors the store after it. -/
theorem Mirrors.frame {d n n₁ : ℕ} {s s₁ : RefStore EncFrmStatus} {dpb : H264eDpb}
    {cpb : EncCpbStatus} (h : Mirrors d s n dpb)
    (hidr : cpb.curr.isIdr = true → n₁ = 0 ∧ s₁.window d = [])
    (hnot : cpb.curr.isIdr = false → 0 < n₁ ∧ n₁ = n ∧ s₁ = s)
    (hs : InStore s₁ n₁) (hd : d ≤ maxCpbStFrm) (hfit : s₁.lt.length ≤ d)
    (hroom : cpb.curr.isNonRef = false → cpb.curr.isLtRef →
      cpb.curr.ltIdx ∉ s₁.lt.map EncFrmStatus.ltIdx → s₁.lt.length < d)
    (hv : cpb.curr.valid) (hn : cpb.curr.seqIdx.val = n₁)
    (hinit : Shows cpb.init (s₁.window d))
    (hfinal : Shows cpb.final ((storeFrm cpb.curr s₁).window d))
    (hrefr : cpb.refr.valid → cpb.refr ∈ s₁.window d) :
    ∃ p c dpb', h264eDpbProc dpb cpb = some p ∧ Ready (dpb.begin cpb.curr) cpb.curr (s₁.window d) n₁ c p ∧
      p.usedSize = ((s₁.window d).length : ℤ) ∧ h264eDpbCheck p cpb = some dpb' ∧
      Mirrors d (storeFrm cpb.curr s₁) (n₁ + 1) dpb' := by
  obtain ⟨last, hholds, hsize, hlast, hpoc, hlsb, hset⟩ := h.begin hidr hnot hn
  have hlen := length_window_le hfit
  obtain ⟨p, c, hp, hready⟩ := proc_ready hholds hinit hv hn hlast (hlen.trans_lt h.room) hrefr
  have hsame : SameSettings dpb p :=
    ⟨hready.settings.totalCnt.trans hset.totalCnt, hready.settings.dpbSize.trans hset.dpbSize,
      hready.settings.pocType.trans hset.pocType, hready.settings.maxPocLsb.trans hset.maxPocLsb⟩
  have hpsize : p.usedSize = ((s₁.window d).length : ℤ) := hready.usedSize.trans hsize
  have hn' : n₁ < 65536 := hn ▸ cpb.curr.seqIdx.isLt
  -- what is left in the slots
  have hafter : ∃ frames stSize ltSize,
      p.after c = { p with
        frames, stSize, ltSize,
        usedSize := (((storeFrm cpb.curr s₁).window d).length : ℤ) } ∧
      Holds dpb.totalCnt {f | f ∈ (storeFrm cpb.curr s₁).window d} (n₁ + 1)
        ((dpb.begin cpb.curr).pocOf cpb.curr) frames := by
    cases hnon : cpb.curr.isNonRef with
    | true =>
      have hstore : storeFrm cpb.curr s₁ = s₁ := by rw [storeFrm, if_pos hnon]
      rw [hstore, ← hpsize]
      refine ⟨p.frames.set c (p.frames.get c).clear, p.stSize, p.ltSize, ?_, ?_⟩
      · rw [H264eDpb.after, hready.status, if_pos hnon]
      · rw [← hset.totalCnt]
        exact hready.clear
    | false =>
      have hslides := window_storeFrm hs hd hfit (hroom hnon) hnon hn
      have hcard := hready.card_replacedBy (hs.nodup_window d)
      have hway : wayCnt cpb.curr (s₁.window d) ≤ (s₁.window d).length := List.length_filter_le _ _
      have hjoin : Holds (p.insertCurr c).totalCnt (joined cpb.curr (s₁.window d)) (n₁ + 1)
          ((dpb.begin cpb.curr).pocOf cpb.curr) (p.insertCurr c).frames := by
        rw [insertCurr_eq]
        dsimp only
        rw [hready.settings.totalCnt]
        have := hready.insertCurr
        rwa [hready.settings.totalCnt] at this
      obtain ⟨frames, stSize, heq, hw⟩ := slideWindow_slides hjoin (by omega)
        (u := (s₁.window d).length + 1 - wayCnt cpb.curr (s₁.window d))
        (by
          rw [insertCurr_eq]
          dsimp only
          rw [hcard, hpsize]
          omega)
        (by
          rw [insertCurr_eq]
          exact hsame.dpbSize.trans h.dpbSize)
        hslides
      have hdpbSize : (p.insertCurr c).dpbSize = p.dpbSize := by rw [insertCurr_eq]
      have htotal : (p.insertCurr c).totalCnt = dpb.totalCnt := by
        rw [insertCurr_eq]
        exact hsame.totalCnt
      refine ⟨frames, stSize, (p.insertCurr c).ltSize, ?_, ?_⟩
      · rw [H264eDpb.after, hready.status, hnon, if_neg Bool.false_ne_true, ← hdpbSize, heq]
        rw [insertCurr_eq]
      · rw [← htotal]
        exact hw
  obtain ⟨frames, stSize, ltSize, hafter, hholds'⟩ := hafter
  obtain ⟨map, hmap, -⟩ := hholds'.mapM_find (l := cpb.final.toList)
    fun f hf hv => hfinal.mem.2 ⟨hf, hv⟩
  have hafterCnt : (p.after c).totalCnt = dpb.totalCnt := by
    rw [hafter]
    exact hsame.totalCnt
  have hafterFrames : (p.after c).frames = frames := by rw [hafter]
  rw [← hafterCnt, ← hafterFrames] at hmap
  refine ⟨p, c, { p.after c with map }, hp, hready, hpsize,
    (h264eDpbCheck_eq_some_iff hready.curr_eq).2 ⟨map, hmap, rfl⟩, ?_⟩
  have hrt := hready.rt
  have hlsb' : ((dpb.begin cpb.curr).currPoc cpb.curr).1 < p.maxPocLsb := by
    rw [hsame.maxPocLsb]
    exact hlsb
  rw [hafter]
  have hlastPoc : H264eDpb.lastPoc { p with
      frames, stSize, ltSize, map,
      usedSize := (((storeFrm cpb.curr s₁).window d).length : ℤ) } =
        (dpb.begin cpb.curr).pocOf cpb.curr :=
    lastPoc_of_rt hrt hready.settings.maxPocLsb
  refine ⟨?_, rfl, ?_, ?_, ?_, ?_, ?_, ?_, ?_, ?_⟩
  · rw [hlastPoc]
    dsimp only
    rw [hsame.totalCnt]
    exact hholds'
  · exact hsame.dpbSize.trans h.dpbSize
  · dsimp only
    rw [hsame.totalCnt]
    exact h.room
  · dsimp only
    rw [hsame.pocType]
    exact h.pocType
  · dsimp only
    rw [hrt, H264eDpb.currRt]
    dsimp only
    split_ifs
    · exact .inl rfl
    · exact .inr rfl
  · dsimp only
    rw [hsame.maxPocLsb]
    exact h.maxPocLsb
  · dsimp only
    rw [hrt]
    exact hlsb'
  · rw [hlastPoc]
    push_cast
    exact hpoc
  · intro _
    dsimp only
    rw [hrt, H264eDpb.currRt]
    dsimp only
    rw [hn]

end Libmpp.H264e
