import Libmpp.H265d.EosQueue

/-!
# The end of a stream is reported once

In every run whose steps are calm, each eos packet has one frame with the mark, which comes
after the frames of all pictures decoded before (`eos_once`). A step is calm (`ThreadAct.Calm`)
when the mark of its packet is sent on with the end of the packet and not before, when no
picture is parsed while a task with the mark is on its way, and when the hal thread finds a
frame in the display queue to put the mark on, or none when it puts out an empty frame.

A run that is not calm reports the end twice (`eos_twice`): the frames that wait when an empty
packet with the mark comes are flushed, the last of them is marked, and an empty frame with
the mark follows.
-/

namespace Libmpp.H265d

open List Option

/-! ### The invariant -/

/-- A task that is put. -/
theorem marks_put (frmOut : List OutFrame) (tasks : List HalDecTask) (t : HalDecTask) :
    marks frmOut (tasks ++ [t]) =
      marks frmOut tasks ++ if t.flags.eos then [t.flags.decoded] else [] := by
  rw [marks, filter_append, map_append, ← append_assoc, marks]
  cases h : t.flags.eos <;> simp [h]

/-- The pictures behind every mark were put out with it, or are in the display queue before
    its task; and what is left of a packet is in step with the tasks that it had. -/
structure Tracked (cfg : MppDecCfg) (d : DecThreads) : Prop where
  rest : AtRest cfg.toMppDecBaseCfg d.ctx
  passing : Passing d
  onWay : ∀ t ∈ d.tasks, t.flags.eos → t.flags.decoded = d.decoded ∧ d.ctx.Idle
  alone : d.tasks.Pairwise fun a b => a.flags.eos → b.output = none
  change : ∀ t ∈ d.tasks, t.flags.infoChange → t.flags.eos = false
  packet : d.given → ∃ p ∈ d.mppPktIn, p.eos ∧ p.data ≠ []
  frame : d.currTaskRdy → d.given = false ∧ (d.flagsEos → d.eos) ∧ (d.ending → d.eos) ∧
    (d.eos → d.ending = false → ∃ p ∈ d.mppPktIn, p.eos ∧ p.data ≠ [])
  once : marks d.frmOut d.tasks = d.ends ++ if d.given then [d.decoded] else []

namespace Tracked

variable {cfg : MppDecCfg} {d : DecThreads}

theorem init (sc : Option SplitContext) : Tracked cfg { splitCxt := sc } where
  rest := atRest_init _
  passing := ⟨.nil, le_refl 0, fun _ hf => absurd hf not_mem_nil, .nil⟩
  onWay _ ht := absurd ht not_mem_nil
  alone := .nil
  change _ ht := absurd ht not_mem_nil
  packet h := absurd h Bool.false_ne_true
  frame h := absurd h Bool.false_ne_true
  once := rfl

/-- All pictures were shown when a mark is on its way. -/
theorem shown (h : Tracked cfg d) (hidle : d.ctx.Idle) {n : ℕ} (hn : n ∈ d.decoded) :
    n ∈ d.ctx.display := h.rest.1.delivered.all_shown hidle hn

end Tracked

/-! ### The parser thread -/

section Prepare

variable {cfg : MppDecCfg} {r : Reading} {p : MppPacket} {d : DecThreads}

/-- The decoder has its frames as before, but those that wait may be flushed. -/
theorem prepareCtx_rest (h : AtRest cfg.toMppDecBaseCfg d.ctx)
    (hextra : p.extraData → (Op.extraData r.extra).Calm cfg.toMppDecBaseCfg d.ctx) :
    AtRest cfg.toMppDecBaseCfg (prepareCtx cfg r p d) ∧ Shows d.ctx (prepareCtx cfg r p d) ∧
      (prepareCtx cfg r p d).pictures = d.ctx.pictures ∧
      ((isEndAlone cfg r p d ∨ d.ctx.Idle) → (prepareCtx cfg r p d).Idle) := by
  have hread : ∃ s, (if p.extraData then
        parserNalUnits cfg.toMppDecBaseCfg false r.extra d.ctx else d.ctx) = s ∧
      AtRest cfg.toMppDecBaseCfg s ∧ Shows d.ctx s ∧ s.pictures = d.ctx.pictures ∧
      (d.ctx.Idle → s.Idle) := by
    refine ⟨_, rfl, ?_⟩
    split_ifs with he
    · refine ⟨h.apply (hextra he), .parserNalUnits _ _ _ _,
        parserNalUnits_extra_pictures _ _ _, fun hidle i => ?_⟩
      rw [parserNalUnits_extra_dpb]
      exact hidle i
    · exact ⟨h, .of_eq rfl, rfl, id⟩
  obtain ⟨s, hs, hrest, hshows, hpictures, hidle⟩ := hread
  unfold prepareCtx
  rw [hs]
  dsimp only
  split_ifs with halone
  · exact ⟨hrest.apply (o := .flush) trivial, hshows.trans (sliceRel_shows.h265dFlush _ s),
      ((pictureRel_sameHistory.h265dFlush _ s).pictures).trans hpictures,
      fun _ => hrest.1.h265dFlush.2⟩
  · exact ⟨hrest, hshows, hpictures, fun hc => hidle (hc.resolve_left halone)⟩

/-- The end of the stream alone uses up a packet that has nothing in it. -/
theorem isEndAlone_iff : isEndAlone cfg r p d ↔
    isExtra r p = false ∧ splits cfg r p d = false ∧ p.eos ∧ p.data = [] := by
  simp [isEndAlone, and_assoc]

theorem restOf_endAlone (h : isEndAlone cfg r p d) : restOf cfg r p d = [] := by
  obtain ⟨hextra, hsplits, -, -⟩ := isEndAlone_iff.1 h
  simp [restOf, hextra, hsplits, h]

theorem isValid_endAlone (h : isEndAlone cfg r p d) : isValid cfg r p d = false := by
  simp [isValid, h]

/-- Only the mark of its packet is seen. -/
theorem eos_of_seesEos (h : seesEos cfg r p d) : p.eos := by
  unfold seesEos at h
  split_ifs at h
  · exact (Bool.and_eq_true_iff.1 h).1
  · exact h

/-- Without a frame, only the end of the stream alone is sent on. -/
theorem isEndAlone_of_sends (h : sendsEos cfg r p d) (hv : isValid cfg r p d = false) :
    isEndAlone cfg r p d := by
  rw [sendsEos, hv, Bool.and_false, Bool.or_false] at h
  exact h

/-- With a frame, the parser has seen the mark. -/
theorem seesEos_of_sends (h : sendsEos cfg r p d) (hv : isValid cfg r p d) :
    seesEos cfg r p d := by
  cases halone : isEndAlone cfg r p d with
  | true =>
    rw [isValid_endAlone halone] at hv
    cases hv
  | false =>
    rw [sendsEos, halone, Bool.false_or, Bool.and_eq_true] at h
    exact h.1

theorem isUsedUp_iff : isUsedUp cfg r p d ↔ p.eos ∧ restOf cfg r p d = [] := by
  rw [isUsedUp, Bool.and_eq_true, List.isEmpty_iff]

/-- What is left of an eos packet that is not used up. -/
theorem left_of_not_usedUp (heos : p.eos) (h : ¬ isUsedUp cfg r p d) :
    ∃ q ∈ (h265dPrepare cfg r p d).mppPktIn, q.eos ∧ q.data ≠ [] := by
  have hrest : restOf cfg r p d ≠ [] := fun hc => h (isUsedUp_iff.2 ⟨heos, hc⟩)
  refine ⟨{ p with data := restOf cfg r p d }, ?_, heos, hrest⟩
  show _ ∈ (if restOf cfg r p d = [] then none else some _)
  rw [if_neg hrest]
  rfl

end Prepare

namespace Tracked

variable {cfg : MppDecCfg} {d : DecThreads} {r : Reading} {p : MppPacket}

/-- The parser thread gets a frame ready, or puts the mark alone. -/
theorem procPrepare (h : Tracked cfg d) (hp : p ∈ d.mppPktIn) (hc : CalmPacket cfg r p d) :
    Tracked cfg (procPrepare cfg r p d) := by
  obtain ⟨hrest, hshows, hpictures, hidle⟩ := prepareCtx_rest (p := p) h.rest hc.extra
  have hdecoded : (h265dPrepare cfg r p d).decoded = d.decoded :=
    congrArg (List.map Prod.fst) hpictures
  have hpassing := h.passing.shows hshows hrest.1.delivered.once
  have honWay : ∀ t ∈ d.tasks, t.flags.eos →
      t.flags.decoded = (h265dPrepare cfg r p d).decoded ∧ (prepareCtx cfg r p d).Idle := by
    intro t ht heos
    obtain ⟨hmark, hi⟩ := h.onWay t ht heos
    exact ⟨hmark.trans hdecoded.symm, hidle (.inr hi)⟩
  have hgiven : d.given → p.eos ∧ p.data ≠ [] := by
    intro hg
    obtain ⟨q, hq, heos, hdata⟩ := h.packet hg
    obtain rfl := mem_unique hp hq
    exact ⟨heos, hdata⟩
  unfold H265d.procPrepare
  by_cases hv : isValid cfg r p d
  · -- the mark of the packet was not sent before, as its frame comes now
    have hnot : d.given = false :=
      Bool.eq_false_iff.2 fun hg => hc.notTwice (hgiven hg).1 hg hv
    rw [if_pos hv]
    exact {
      rest := hrest
      passing := ⟨hpassing.once, hpassing.dequeued, hpassing.passed, hpassing.last⟩
      onWay := honWay
      alone := h.alone
      change := h.change
      packet := fun hg => absurd (hnot.symm.trans hg) Bool.false_ne_true
      frame := fun _ => by
        have halone : isEndAlone cfg r p d = false := by
          by_contra hc
          rw [isValid_endAlone (Bool.eq_true_of_not_eq_false hc)] at hv
          cases hv
        refine ⟨hnot, fun hflags => ?_, fun hend => ?_, fun heos hend => ?_⟩
        · have hleft : (d.flagsEos || isEndAlone cfg r p d) = true := hflags
          rw [halone, Bool.or_false] at hleft
          exact seesEos_of_sends (hc.leftOver hleft) hv
        · obtain ⟨heos, hused⟩ := isUsedUp_iff.1 hend
          refine seesEos_of_sends ((hc.sent heos hused).resolve_right ?_) hv
          rw [hnot]
          exact Bool.false_ne_true
        · exact left_of_not_usedUp (eos_of_seesEos heos) (Bool.eq_false_iff.1 hend)
      once := by
        show _ = d.ends ++ if d.given then [(h265dPrepare cfg r p d).decoded] else []
        rw [hdecoded]
        exact h.once }
  · rw [if_neg hv]
    have hv := Bool.eq_false_iff.2 hv
    by_cases halone : isEndAlone cfg r p d
    · -- the mark alone: a task is put for it, and no frame waits any more
      have hnot : d.given = false :=
        Bool.eq_false_iff.2 fun hg => (hgiven hg).2 (isEndAlone_iff.1 halone).2.2.2
      have hused : isUsedUp cfg r p d :=
        isUsedUp_iff.2 ⟨(isEndAlone_iff.1 halone).2.2.1, restOf_endAlone halone⟩
      have hputs : (h265dPrepare cfg r p d).flagsEos = true := by
        show (d.flagsEos || isEndAlone cfg r p d) = true
        rw [halone, Bool.or_true]
      dsimp only
      rw [if_pos hputs, if_pos hused]
      exact {
        rest := hrest
        passing := ⟨hpassing.once, hpassing.dequeued, hpassing.passed, hpassing.last⟩
        onWay := fun t ht heos => by
          rcases mem_append.1 ht with ht | ht
          · exact honWay t ht heos
          · obtain rfl := mem_singleton.1 ht
            exact ⟨rfl, hidle (.inl halone)⟩
        alone := by
          refine pairwise_append.2 ⟨h.alone, pairwise_singleton _ _, ?_⟩
          intro a _ b hb _
          obtain rfl := mem_singleton.1 hb
          rfl
        change := fun t ht hchange => by
          rcases mem_append.1 ht with ht | ht
          · exact h.change t ht hchange
          · obtain rfl := mem_singleton.1 ht
            cases hchange
        packet := fun hg => absurd hg Bool.false_ne_true
        frame := fun hready => absurd (hv.symm.trans hready) Bool.false_ne_true
        once := by
          have honce := h.once
          rw [hnot, if_neg Bool.false_ne_true, append_nil] at honce
          show marks d.frmOut (d.tasks ++ [_]) = (d.ends ++ [_]) ++ []
          rw [marks_put, honce, append_nil]
          rfl }
    · have hleft : d.flagsEos = false :=
        Bool.eq_false_iff.2 fun hc' => halone (isEndAlone_of_sends (hc.leftOver hc') hv)
      have hputs : ¬ (h265dPrepare cfg r p d).flagsEos = true := by
        show ¬ (d.flagsEos || isEndAlone cfg r p d) = true
        rw [hleft, Bool.false_or]
        exact halone
      dsimp only
      rw [if_neg hputs]
      by_cases hused : isUsedUp cfg r p d
      · -- the mark was sent with an earlier frame of the packet
        obtain ⟨heos, hall⟩ := isUsedUp_iff.1 hused
        have hgave : d.given :=
          (hc.sent heos hall).resolve_left fun hc => halone (isEndAlone_of_sends hc hv)
        rw [if_pos hused]
        exact {
          rest := hrest
          passing := ⟨hpassing.once, hpassing.dequeued, hpassing.passed, hpassing.last⟩
          onWay := honWay
          alone := h.alone
          change := h.change
          packet := fun hg => absurd hg Bool.false_ne_true
          frame := fun hready => absurd (hv.symm.trans hready) Bool.false_ne_true
          once := by
            have honce := h.once
            rw [hgave, if_pos rfl, ← hdecoded] at honce
            exact honce.trans (append_nil _).symm }
      · rw [if_neg hused]
        have hsame : (d.given || (h265dPrepare cfg r p d).flagsEos) = d.given := by
          rw [Bool.eq_false_iff.2 hputs, Bool.or_false]
        exact {
          rest := hrest
          passing := ⟨hpassing.once, hpassing.dequeued, hpassing.passed, hpassing.last⟩
          onWay := honWay
          alone := h.alone
          change := h.change
          packet := fun hg => left_of_not_usedUp (hgiven (hsame.symm.trans hg)).1 hused
          frame := fun hready => absurd (hv.symm.trans hready) Bool.false_ne_true
          once := by
            show _ = d.ends ++ if (d.given || (h265dPrepare cfg r p d).flagsEos) then
              [(h265dPrepare cfg r p d).decoded] else []
            rw [hsame, hdecoded]
            exact h.once }

end Tracked

section Parse

variable (parsed : HEVCContext) (eos changed : Bool) (decoded : List ℕ)

/-- The tasks for a parsed frame: the last of them has the mark, if there is one. -/
theorem parsedTasks_spec : ∃ changes, (∀ t ∈ changes, t.flags.eos = false) ∧
    (parsedTasks parsed eos changed decoded = changes ∧ eos = false ∨
      ∃ t, parsedTasks parsed eos changed decoded = changes ++ [t] ∧ t.flags.eos = eos ∧
        t.flags.decoded = decoded ∧ t.flags.infoChange = false) := by
  unfold parsedTasks
  dsimp only
  split_ifs with hnone heos hchanged
  · exact ⟨[], fun t ht => absurd ht not_mem_nil, .inr ⟨_, rfl, rfl, rfl, rfl⟩⟩
  · have heos := Bool.eq_false_iff.2 heos
    exact ⟨[], fun t ht => absurd ht not_mem_nil, .inl ⟨rfl, heos⟩⟩
  · refine ⟨[_], fun t ht => ?_, .inr ⟨_, rfl, rfl, rfl, rfl⟩⟩
    obtain rfl := mem_singleton.1 ht
    rfl
  · exact ⟨[], fun t ht => absurd ht not_mem_nil, .inr ⟨_, rfl, rfl, rfl, rfl⟩⟩

theorem parsedTasks_eos {parsed eos changed decoded} {t : HalDecTask} (ht : t ∈ parsedTasks parsed eos changed decoded)
    (h : t.flags.eos) : eos ∧ t.flags.decoded = decoded ∧ t.flags.infoChange = false := by
  obtain ⟨changes, hchanges, ⟨htasks, -⟩ | ⟨u, htasks, heos, hmark, hno⟩⟩ :=
    parsedTasks_spec parsed eos changed decoded
  · rw [htasks] at ht
    exact absurd ((hchanges t ht).symm.trans h) Bool.false_ne_true
  · rw [htasks] at ht
    rcases mem_append.1 ht with ht | ht
    · exact absurd ((hchanges t ht).symm.trans h) Bool.false_ne_true
    · obtain rfl := mem_singleton.1 ht
      exact ⟨heos ▸ h, hmark, hno⟩

/-- No task follows the one with the mark. -/
theorem parsedTasks_alone :
    (parsedTasks parsed eos changed decoded).Pairwise fun a b =>
      a.flags.eos → b.output = none := by
  obtain ⟨changes, hchanges, ⟨htasks, -⟩ | ⟨u, htasks, -⟩⟩ :=
    parsedTasks_spec parsed eos changed decoded
  · rw [htasks]
    exact pairwise_of_forall_mem_list fun a ha b _ heos =>
      absurd ((hchanges a ha).symm.trans heos) Bool.false_ne_true
  · rw [htasks]
    refine pairwise_append.2 ⟨?_, pairwise_singleton _ _, fun a ha b _ heos =>
      absurd ((hchanges a ha).symm.trans heos) Bool.false_ne_true⟩
    exact pairwise_of_forall_mem_list fun a ha b _ heos =>
      absurd ((hchanges a ha).symm.trans heos) Bool.false_ne_true

theorem marks_parsedTasks (frmOut : List OutFrame) (tasks : List HalDecTask) :
    marks frmOut (tasks ++ parsedTasks parsed eos changed decoded) =
      marks frmOut tasks ++ if eos then [decoded] else [] := by
  have hnone {changes : List HalDecTask} (h : ∀ t ∈ changes, t.flags.eos = false) :
      marks frmOut (tasks ++ changes) = marks frmOut tasks := by
    have hfilter : changes.filter (·.flags.eos) = [] :=
      filter_eq_nil_iff.2 fun t ht => by rw [h t ht]; exact Bool.false_ne_true
    rw [marks, filter_append, hfilter, append_nil, marks]
  obtain ⟨changes, hchanges, ⟨htasks, heos⟩ | ⟨u, htasks, heos, hmark, -⟩⟩ :=
    parsedTasks_spec parsed eos changed decoded
  · rw [htasks, hnone hchanges, heos]
    exact (append_nil _).symm
  · rw [htasks, ← append_assoc, marks_put, hnone hchanges, heos, hmark]

end Parse

namespace Tracked

variable {cfg : MppDecCfg} {d : DecThreads} {nals : List Nal} {changed : Bool}

/-- The parser thread parses a frame. -/
theorem procParse (h : Tracked cfg d) (hready : d.currTaskRdy)
    (hnone : ∀ t ∈ d.tasks, ¬ t.flags.eos)
    (hc : (Op.parse nals d.eos).Calm cfg.toMppDecBaseCfg d.ctx) :
    Tracked cfg (procParse cfg d nals changed) := by
  obtain ⟨hnot, hleft, hending, hmore⟩ := h.frame hready
  have hrest : AtRest cfg.toMppDecBaseCfg (h265dParse cfg.toMppDecBaseCfg nals d.eos d.ctx) :=
    h.rest.apply (o := .parse nals d.eos) hc
  have hshows : Shows d.ctx (h265dParse cfg.toMppDecBaseCfg nals d.eos d.ctx) :=
    .trans (.parserNalUnits _ true nals { d.ctx with ref := none }) (sliceRel_shows.finishPacket _ _ _)
  have hpassing := h.passing.shows hshows hrest.1.delivered.once
  -- a mark that is left over goes with the one that the parser has seen
  have heos : (d.flagsEos || d.eos) = d.eos := by
    cases hf : d.flagsEos with
    | false => rfl
    | true => rw [hleft hf]; rfl
  have hgiven : (!d.ending && (d.given || (d.flagsEos || d.eos))) = (!d.ending && d.eos) := by
    rw [hnot, Bool.false_or, heos]
  exact {
    rest := hrest
    passing := ⟨hpassing.once, hpassing.dequeued, hpassing.passed, hpassing.last⟩
    onWay := fun t ht hmark => by
      rcases mem_append.1 ht with ht | ht
      · exact absurd hmark (hnone t ht)
      · obtain ⟨hseen, hdecoded, -⟩ := parsedTasks_eos ht hmark
        rw [heos] at hseen
        refine ⟨hdecoded, ?_⟩
        rw [hseen] at hc
        show (h265dParse cfg.toMppDecBaseCfg nals d.eos d.ctx).Idle
        rw [hseen]
        exact h.rest.parse_idle hc
    alone := pairwise_append.2 ⟨h.alone, parsedTasks_alone _ _ _ _, fun a ha b _ hmark =>
      absurd hmark (hnone a ha)⟩
    change := fun t ht hchange => by
      rcases mem_append.1 ht with ht | ht
      · exact h.change t ht hchange
      · by_contra hmark
        have hno := (parsedTasks_eos ht (Bool.eq_true_of_not_eq_false hmark)).2.2
        exact absurd (hno.symm.trans hchange) Bool.false_ne_true
    packet := fun hg => by
      obtain ⟨hend, hseen⟩ := Bool.and_eq_true_iff.1 (hgiven.symm.trans hg)
      exact hmore hseen ((Bool.not_eq_true' _).mp hend)
    frame := fun hc => absurd hc Bool.false_ne_true
    once := by
      have honce := h.once
      rw [hnot, if_neg Bool.false_ne_true, append_nil] at honce
      show marks d.frmOut (d.tasks ++ parsedTasks _ _ _ _) =
        (if d.ending then d.ends ++ [_] else d.ends) ++
          if (!d.ending && (d.given || (d.flagsEos || d.eos))) then [_] else []
      rw [marks_parsedTasks, honce, hgiven, heos]
      cases hend : d.ending with
      | true =>
        rw [hending hend, if_pos rfl]
        exact (append_nil _).symm
      | false => rfl }

end Tracked

/-! ### The hal thread -/

/-- A task that is handled: its mark is on one of the frames that are put out for it. -/
theorem marks_handled {frmOut out : List OutFrame} {t : HalDecTask} {tasks : List HalDecTask}
    (h : (out.filter (·.flags.eos)).map (·.flags.decoded) =
      if t.flags.eos then [t.flags.decoded] else []) :
    marks (frmOut ++ out) tasks = marks frmOut (t :: tasks) := by
  rw [marks, filter_append, map_append, h, marks, filter_cons]
  cases heos : t.flags.eos <;> simp

/-- Frames without the mark. -/
theorem filter_eos_nil {out : List OutFrame} (h : ∀ f ∈ out, f.flags.eos = false) :
    out.filter (·.flags.eos) = [] :=
  filter_eq_nil_iff.2 fun f hf => by rw [h f hf]; exact Bool.false_ne_true

namespace Tracked

variable {cfg : MppDecCfg} {d : DecThreads} {t : HalDecTask} {tasks : List HalDecTask}

/-- The first task is handled. -/
theorem handled (h : Tracked cfg d) (ht : d.tasks = t :: tasks) {ctx : HEVCContext} {k : ℕ}
    {frmOut out : List OutFrame} (hrest : AtRest cfg.toMppDecBaseCfg ctx)
    (hpictures : ctx.pictures = d.ctx.pictures) (hidle : d.ctx.Idle → ctx.Idle)
    (hpassing : Passing { d with ctx, tasks, dequeued := k, frmOut })
    (hout : frmOut = d.frmOut ++ out)
    (hmarks : (out.filter (·.flags.eos)).map (·.flags.decoded) =
      if t.flags.eos then [t.flags.decoded] else []) :
    Tracked cfg { d with ctx, tasks, dequeued := k, frmOut } := by
  have hdecoded : ctx.pictures.map Prod.fst = d.decoded := congrArg (List.map Prod.fst) hpictures
  have hmem : ∀ u ∈ tasks, u ∈ d.tasks := fun u hu => ht ▸ mem_cons_of_mem t hu
  exact {
    rest := hrest
    passing := hpassing
    onWay := fun u hu heos => by
      obtain ⟨hmark, hi⟩ := h.onWay u (hmem u hu) heos
      exact ⟨hmark.trans hdecoded.symm, hidle hi⟩
    alone := (pairwise_cons.1 (ht ▸ h.alone)).2
    change := fun u hu => h.change u (hmem u hu)
    packet := h.packet
    frame := h.frame
    once := by
      show marks frmOut tasks = d.ends ++ if d.given then [ctx.pictures.map Prod.fst] else []
      rw [hout, marks_handled hmarks, ← ht, hdecoded]
      exact h.once }

/-- What a flush by the hal thread leaves. -/
theorem flushed (h : Tracked cfg d) :
    AtRest cfg.toMppDecBaseCfg (h265dFlush cfg.toMppDecBaseCfg d.ctx) ∧
      Shows d.ctx (h265dFlush cfg.toMppDecBaseCfg d.ctx) ∧
      (h265dFlush cfg.toMppDecBaseCfg d.ctx).pictures = d.ctx.pictures ∧
      (h265dFlush cfg.toMppDecBaseCfg d.ctx).Idle :=
  ⟨h.rest.apply (o := .flush) trivial, sliceRel_shows.h265dFlush _ _,
    (pictureRel_sameHistory.h265dFlush _ _).pictures, h.rest.1.h265dFlush.2⟩

/-- The task is gone, and its output slot is ready. -/
theorem popped (h : Tracked cfg d) (tasks : List HalDecTask) : Passing { d with tasks } :=
  ⟨h.passing.once, h.passing.dequeued, h.passing.passed, h.passing.last⟩

theorem popped_flush (h : Tracked cfg d) (tasks : List HalDecTask) :
    Passing (DecThreads.flush cfg { d with tasks }) :=
  (h.popped tasks).shows h.flushed.2.1 h.flushed.1.1.delivered.once

/-- A change: the frames of the old size, and a frame that tells of the new one. -/
theorem procHal_change (h : Tracked cfg d) (ht : d.tasks = t :: tasks)
    (hchange : t.flags.infoChange) : Tracked cfg (((DecThreads.flush cfg { d with tasks }).pushDisplay
      t.flags).putFrame t.output t.flags) := by
  obtain ⟨hrest, -, hpictures, hidle⟩ := h.flushed
  have heos := h.change t (ht ▸ mem_cons_self) hchange
  have hout := displayLoop_eos_false (DecThreads.flush cfg { d with tasks }).isReady t.flags
    (DecThreads.flush cfg { d with tasks }).queue heos
  have hpush := (h.popped_flush tasks).pushDisplay t.flags fun f hf hmark =>
    absurd ((hout f hf).symm.trans hmark) Bool.false_ne_true
  have hput := hpush.putFrame t.flags t.output (.inr hchange) fun hmark =>
    absurd (heos.symm.trans hmark) Bool.false_ne_true
  refine h.handled ht hrest hpictures (fun _ => hidle) hput (append_assoc _ _ _) ?_
  rw [heos, filter_append, filter_eos_nil hout, nil_append]
  exact congrArg _ (filter_eos_nil fun f hf => by
    obtain rfl := mem_singleton.1 hf
    exact heos)

/-- The mark alone: no frame waits, and an empty frame has it. -/
theorem procHal_alone (h : Tracked cfg d) (ht : d.tasks = t :: tasks) (heos : t.flags.eos)
    (hqueue : d.queue = []) :
    Tracked cfg ((DecThreads.pushDisplay { d with tasks } t.flags).putFrame none t.flags) := by
  obtain ⟨hmark, hi⟩ := h.onWay t (ht ▸ mem_cons_self) heos
  have hnone : DecThreads.displayLoop (DecThreads.isReady { d with tasks }) t.flags
      (DecThreads.queue { d with tasks }) = [] := by
    show DecThreads.displayLoop _ _ d.queue = []
    rw [hqueue]
    rfl
  have hpush := (h.popped tasks).pushDisplay t.flags fun f hf =>
    absurd (hnone ▸ hf) not_mem_nil
  have hput := hpush.putFrame t.flags none (.inl rfl) fun _ n hn => by
    show n ∈ d.ctx.display.take (d.dequeued + _)
    rw [take_of_length_le ((drop_eq_nil_iff.1 hqueue).trans (Nat.le_add_right _ _))]
    exact h.shown hi (hmark ▸ hn)
  refine h.handled ht h.rest rfl id hput (append_assoc _ _ _) ?_
  rw [hnone, nil_append, heos]
  simp [heos]

/-- The mark with a frame: the last frame of the display queue gets it. -/
theorem procHal_last (h : Tracked cfg d) (ht : d.tasks = t :: tasks) (heos : t.flags.eos)
    (hqueue : d.queue ≠ []) :
    Tracked cfg ((DecThreads.flush cfg { d with tasks }).pushDisplay t.flags) := by
  obtain ⟨hrest, -, hpictures, hidle⟩ := h.flushed
  obtain ⟨hmark, hi⟩ := h.onWay t (ht ▸ mem_cons_self) heos
  have hdisplay := h.rest.flush_display hi
  have hafter : ∀ u ∈ tasks, u.output = none := by
    have halone := h.alone
    rw [ht, pairwise_cons] at halone
    exact fun u hu => halone.1 u hu heos
  have hready : ∀ slot, (DecThreads.flush cfg { d with tasks }).isReady slot := fun slot =>
    all_eq_true.2 fun u hu => by
      rw [hafter u hu]
      rfl
  have hsame : (DecThreads.flush cfg { d with tasks }).queue = d.queue :=
    congrArg (List.drop d.dequeued) hdisplay
  obtain ⟨init, f, hout, hinit, hf, hfmark, hlength⟩ := displayLoop_eos
    (DecThreads.flush cfg { d with tasks }).isReady t.flags _ heos (fun n _ => hready n)
    (hsame ▸ hqueue)
  have hall : d.dequeued + (DecThreads.displayLoop
      (DecThreads.flush cfg { d with tasks }).isReady t.flags
      (DecThreads.flush cfg { d with tasks }).queue).length =
      (h265dFlush cfg.toMppDecBaseCfg d.ctx).display.length := by
    rw [hout, length_append, length_singleton, hlength, hsame, hdisplay,
      DecThreads.queue, length_drop]
    exact Nat.add_sub_cancel' h.passing.dequeued
  have hpush := (h.popped_flush tasks).pushDisplay t.flags fun g hg hgmark n hn => by
    show n ∈ (h265dFlush cfg.toMppDecBaseCfg d.ctx).display.take (d.dequeued + _)
    rw [take_of_length_le (le_of_eq hall.symm), hdisplay]
    refine h.shown hi (hmark ▸ ?_)
    have hg : g ∈ init ++ [f] := hout ▸ hg
    rcases mem_append.1 hg with hg | hg
    · exact absurd ((hinit g hg).symm.trans hgmark) Bool.false_ne_true
    · obtain rfl := mem_singleton.1 hg
      exact hfmark ▸ hn
  refine h.handled ht hrest hpictures (fun _ => hidle) hpush rfl ?_
  rw [hout, filter_append, filter_eos_nil hinit, nil_append, heos, if_pos rfl, ← hfmark]
  simp [hf]

/-- A frame without the mark. -/
theorem procHal_plain (h : Tracked cfg d) (ht : d.tasks = t :: tasks)
    (heos : t.flags.eos = false) :
    Tracked cfg (DecThreads.pushDisplay { d with tasks } t.flags) := by
  have hout := displayLoop_eos_false (DecThreads.isReady { d with tasks }) t.flags
    (DecThreads.queue { d with tasks }) heos
  have hpush := (h.popped tasks).pushDisplay t.flags fun f hf hmark =>
    absurd ((hout f hf).symm.trans hmark) Bool.false_ne_true
  refine h.handled ht h.rest rfl id hpush rfl ?_
  rw [heos]
  exact congrArg _ (filter_eos_nil hout)

/-- The hal thread handles a task. -/
theorem procHal (h : Tracked cfg d) (ht : d.tasks = t :: tasks)
    (hc : t.flags.eos → (t.isEndAlone ↔ d.queue = [])) :
    Tracked cfg (procHal cfg t { d with tasks }) := by
  unfold H265d.procHal
  split_ifs with hchange halone heos
  · exact h.procHal_change ht hchange
  · have heos : t.flags.eos := (Bool.and_eq_true_iff.1 halone).1
    exact h.procHal_alone ht heos ((hc heos).1 halone)
  · exact h.procHal_last ht heos fun hqueue => halone ((hc heos).2 hqueue)
  · exact h.procHal_plain ht (Bool.eq_false_iff.2 heos)

/-- A calm step. -/
theorem apply {d' : DecThreads} {a : ThreadAct} (h : Tracked cfg d)
    (ha : a.apply cfg d = some d') (hc : a.Calm cfg d) : Tracked cfg d' := by
  cases a with
  | give p =>
    unfold ThreadAct.apply at ha
    dsimp only at ha
    split_ifs at ha with hempty
    obtain rfl := some.inj ha
    have hgiven : ¬ d.given := fun hg => by
      obtain ⟨q, hq, -⟩ := h.packet hg
      rw [mem_def.1 hq] at hempty
      exact absurd hempty.1 Bool.false_ne_true
    exact { h with
      passing := ⟨h.passing.once, h.passing.dequeued, h.passing.passed, h.passing.last⟩
      packet := fun hg => absurd hg hgiven
      frame := fun hready => absurd hready hempty.2 }
  | prepare r =>
    unfold ThreadAct.apply at ha
    dsimp only at ha
    split_ifs at ha with hready
    obtain ⟨p, hp, rfl⟩ := map_eq_some_iff.1 ha
    exact h.procPrepare hp (hc p hp)
  | parse nals changed =>
    unfold ThreadAct.apply at ha
    dsimp only at ha
    split_ifs at ha with hready
    obtain rfl := some.inj ha
    exact h.procParse hready hc.1 hc.2
  | hal =>
    unfold ThreadAct.apply at ha
    dsimp only at ha
    split at ha
    · cases ha
    · next t tasks ht =>
      obtain rfl := some.inj ha
      exact h.procHal ht (hc t (by rw [ht]; rfl))

end Tracked

/-! ### Runs -/

/-- In a run whose steps are calm, the end of a stream is reported once for each eos packet,
    after the frames of all pictures before. -/
theorem eos_once {cfg : MppDecCfg} {d : DecThreads}
    (hd : ((threads cfg).guarded fun d a _ => a.Calm cfg d).Reachable d) : EosOnce d := by
  have h : Tracked cfg d := by
    refine Machine.Reachable.invariant (P := Tracked cfg) ?_ ?_ hd
    · rintro _ (rfl | rfl)
      · exact .init none
      · exact .init (some {})
    · rintro d a d' - h ⟨ha, hc⟩
      exact h.apply ha hc
  exact ⟨h.once, h.passing.last⟩

/-- A calm step of the hal thread. -/
theorem calm_hal {cfg : MppDecCfg} {d : DecThreads} {t : HalDecTask} {tasks : List HalDecTask}
    (hd : ((threads cfg).guarded fun d a _ => a.Calm cfg d).Reachable d)
    (ht : d.tasks = t :: tasks) (hc : t.flags.eos → (t.isEndAlone ↔ d.queue = [])) :
    ((threads cfg).guarded fun d a _ => a.Calm cfg d).Reachable
      (procHal cfg t { d with tasks }) := by
  refine .step (a := .hal) hd ⟨?_, ?_⟩
  · show ThreadAct.apply cfg d .hal = _
    rw [ThreadAct.apply, ht]
  · show ∀ t ∈ d.tasks.head?, t.flags.eos → (t.isEndAlone ↔ d.queue = [])
    rw [ht]
    rintro _ ⟨⟩
    exact hc

/-- A packet with the mark and one picture. -/
def markedPacket : MppPacket := { data := [1], eos := true }

/-- The decoder that has parsed it. -/
def parsedPacket : DecThreads :=
  procParse {} (procPrepare {} {} markedPacket { mppPktIn := some markedPacket })
    [.slice idrSlice] false

/-- The task for the picture. -/
def markedTask : HalDecTask :=
  { valid := true, output := some 0, flags := { eos := true, decoded := [0] } }

/-- The frame of the picture has the mark. -/
theorem markedPacket_eos_once :
    EosOnce (procHal {} markedTask { parsedPacket with tasks := [] }) := by
  refine eos_once (calm_hal (d := parsedPacket) (.step (a := .parse [.slice idrSlice] false)
    (.step (a := .prepare {}) (.step (a := .give markedPacket) (.init (.inl rfl))
      ⟨rfl, trivial⟩) ⟨rfl, ?_⟩) ⟨rfl, ?_, ?_⟩) (by decide +kernel) fun _ => ?_)
  · rintro _ ⟨⟩
    refine ⟨fun h => ?_, fun h => ?_, fun _ _ => .inl (by decide), fun _ h => ?_⟩
    all_goals cases h
  · intro t ht
    cases ht
  · exact ⟨fun _ => ⟨⟨fun _ => .inr (.inr fun _ => rfl),
      fun _ _ => .inr (.inl (by decide))⟩,
      fun _ _ _ => calmStart_of (by decide)⟩, fun _ => trivial⟩
  · decide +kernel

/-- The decoder gets to where any steps take it. -/
theorem reachable_acts {cfg : MppDecCfg} {acts : List ThreadAct} {d : DecThreads}
    (h : acts.foldlM (ThreadAct.apply cfg) {} = some d) : (threads cfg).Reachable d := by
  induction acts using List.reverseRecOn generalizing d with
  | nil =>
    obtain rfl := some.inj h
    exact .init (.inl rfl)
  | append_singleton acts a ih =>
    rw [foldlM_append, bind_eq_bind, bind_eq_some_iff] at h
    obtain ⟨d', hd', ha⟩ := h
    rw [foldlM_cons, bind_eq_bind, bind_eq_some_iff] at ha
    obtain ⟨d'', ha, hd''⟩ := ha
    obtain rfl := some.inj hd''
    exact .step (a := a) (ih hd') ha

/-- A picture that may wait, and an empty packet with the mark. -/
def eosStream : List ThreadAct :=
  [.give { data := [1] }, .prepare {},
    .parse [.slice { nalUnitType := .idrWRadl, newSps := some reorderSps }] false, .hal,
    .give { data := [], eos := true }, .prepare {}, .hal]

/-- The end of the stream is reported twice: with the frame of the picture, and with an empty
    frame. -/
theorem eos_twice : ∃ d, (threads {}).Reachable d ∧ d.tasks = [] ∧ d.ends.length = 1 ∧
    d.frmOut.countP (·.flags.eos) = 2 ∧ ¬ EosOnce d := by
  have hrun : ((eosStream.foldlM (ThreadAct.apply {}) {}).map fun d =>
      (d.tasks, d.ends, d.given, d.frmOut)) = some ([], [[0]], false,
      [{ slot := some 0, flags := { eos := true, decoded := [0] } },
        { slot := none, flags := { eos := true, decoded := [0] } }]) := by decide +kernel
  obtain ⟨d, hd, heq⟩ := map_eq_some_iff.1 hrun
  obtain ⟨htasks, hends, hgiven, hout⟩ :
      d.tasks = [] ∧ d.ends = [[0]] ∧ d.given = false ∧ _ := by
    simpa only [Prod.mk.injEq] using heq
  refine ⟨d, reachable_acts hd, htasks, by rw [hends]; rfl, by rw [hout]; rfl, fun h => ?_⟩
  have honce := h.once
  rw [htasks, hends, hgiven, hout, if_neg Bool.false_ne_true] at honce
  exact absurd honce (by decide)

end Libmpp.H265d
