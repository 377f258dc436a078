import Libmpp.H265d.Eos

/-!
# What goes through the display queue

The display queue of the decoder only grows (`Shows`), and a flush leaves nothing waiting. So
the frames that were put out are of the slots at its front, and a frame that comes after a mark
is of none of the pictures decoded before that mark (`Passing`).
-/

namespace Libmpp.H265d

open List

/-! ### What the operations show -/

/-- The display queue only grows. -/
def Shows (s t : HEVCContext) : Prop := s.display <+: t.display

variable {s : HEVCContext}

theorem Shows.trans {t u : HEVCContext} (h₁ : Shows s t) (h₂ : Shows t u) : Shows s u :=
  List.IsPrefix.trans h₁ h₂

/-- A step that leaves the display queue alone. -/
theorem Shows.of_eq {t : HEVCContext} (h : t.display = s.display) : Shows s t := by
  rw [Shows, h]

theorem sliceRel_shows : SliceRel Shows where
  refl _ := .of_eq rfl
  trans h₁ h₂ := h₁.trans h₂
  display _ _ := prefix_append _ _
  release _ := .of_eq rfl
  advance _ _ := .of_eq rfl
  fast _ := .of_eq rfl
  change _ _ _ _ _ _ _ _ _ _ := .of_eq rfl
  noRef _ := .of_eq rfl
  newRef h := by
    obtain ⟨i, -, -, rfl⟩ := setNewRef_eq_some h
    exact .of_eq rfl

namespace Shows

theorem hlsSliceHeader (n : SliceNal) (s : HEVCContext) : Shows s (hlsSliceHeader n s).1 := by
  have hbegin : (beginPicture n s).display = s.display := by
    unfold beginPicture
    dsimp only
    split_ifs <;> rfl
  have hactivate (s : HEVCContext) : (activateSps n s).display = s.display := by
    unfold activateSps
    split <;> rfl
  have hread (s : HEVCContext) : (readPoc n s).display = s.display := by
    unfold readPoc
    by_cases hidr : s.nalUnitType.isIdr
    · rw [if_pos hidr]
    · rw [if_neg hidr]
      cases s.sps with
      | none => rfl
      | some sps =>
        dsimp only
        split_ifs <;> rfl
  have hkeep (s : HEVCContext) : (keepPocTid0 n s).display = s.display := by
    unfold keepPocTid0
    split_ifs <;> rfl
  unfold H265d.hlsSliceHeader
  dsimp only
  split_ifs
  · exact .of_eq hbegin
  · exact .of_eq ((hactivate _).trans hbegin)
  · exact .of_eq ((hactivate _).trans hbegin)
  · exact .of_eq ((hread _).trans ((hactivate _).trans hbegin))
  · exact .of_eq ((hkeep _).trans ((hread _).trans ((hactivate _).trans hbegin)))

theorem parserNalUnit (cfg : MppDecBaseCfg) (task : Bool) (s : HEVCContext) (n : Nal) :
    Shows s (parserNalUnit cfg task s n).1 := by
  cases n with
  | slice n =>
    cases task with
    | false => exact .of_eq rfl
    | true =>
      have hheader := hlsSliceHeader n { s with nalUnitType := n.nalUnitType }
      unfold H265d.parserNalUnit
      dsimp only
      rw [if_pos rfl]
      generalize H265d.hlsSliceHeader n { s with nalUnitType := n.nalUnitType } = r at hheader ⊢
      obtain ⟨t, ok⟩ := r
      cases ok with
      | false => exact hheader
      | true => exact .trans hheader (sliceRel_shows.decodeSlice cfg t)
  | endOfSeq t => exact .of_eq rfl
  | sei t points =>
    exact .trans (.of_eq rfl) (sliceRel_shows.seiRecovery points { s with nalUnitType := t })
  | passive t accepted => exact .of_eq rfl

theorem parserNalUnits (cfg : MppDecBaseCfg) (task : Bool) (ns : List Nal) (s : HEVCContext) :
    Shows s (parserNalUnits cfg task ns s) := by
  induction ns generalizing s with
  | nil => exact .of_eq rfl
  | cons n ns ih =>
    have hunit := parserNalUnit cfg task s n
    rw [H265d.parserNalUnits]
    generalize H265d.parserNalUnit cfg task s n = r at hunit ⊢
    obtain ⟨t, ok⟩ := r
    cases ok with
    | false => exact hunit
    | true => exact hunit.trans (ih t)

end Shows

/-- Extra data have no pictures. -/
theorem parserNalUnits_extra_pictures (cfg : MppDecBaseCfg) (ns : List Nal) (s : HEVCContext) :
    (parserNalUnits cfg false ns s).pictures = s.pictures := by
  induction ns generalizing s with
  | nil => rfl
  | cons n ns ih =>
    have hn : (parserNalUnit cfg false s n).1.pictures = s.pictures := by
      cases n with
      | slice n => rfl
      | endOfSeq t => rfl
      | sei t points => exact (pictureRel_sameHistory.seiRecovery points _).pictures
      | passive t accepted => rfl
    rw [parserNalUnits]
    generalize parserNalUnit cfg false s n = r at hn ⊢
    obtain ⟨t, ok⟩ := r
    cases ok with
    | false => exact hn
    | true => exact (ih t).trans hn

variable {cfg : MppDecBaseCfg}

/-- When no frame waits, all pictures were shown. -/
theorem Delivered.all_shown (h : Delivered cfg s) (hidle : s.Idle) {n : ℕ}
    (hn : n ∈ s.pictures.map Prod.fst) : n ∈ s.display := by
  by_contra hc
  obtain ⟨i, -, hi⟩ := (h.shownOrWaits n hn).1 hc
  rw [hidle i] at hi
  cases hi

/-- When no frame waits, there is nothing to flush. -/
theorem AtRest.flush_display (h : AtRest cfg s) (hidle : s.Idle) :
    (h265dFlush cfg s).display = s.display := by
  have honce := h.1.h265dFlush.1.delivered.once
  have honly := h.1.h265dFlush.1.delivered.onlyPictures
  rw [(pictureRel_sameHistory.h265dFlush cfg s).pictures] at honly
  obtain ⟨l, hl⟩ := sliceRel_shows.h265dFlush cfg s
  rw [← hl] at honce honly ⊢
  cases l with
  | nil => exact append_nil _
  | cons n l =>
    have hn := honly n (mem_append_right _ mem_cons_self)
    have hshown := h.1.delivered.all_shown hidle hn
    exact absurd mem_cons_self ((nodup_append.1 honce).2.2 n hshown n · rfl)

/-- After a packet that ends the stream no frame waits. -/
theorem AtRest.parse_idle {nals : List Nal} (h : AtRest cfg s)
    (hc : (Op.parse nals true).Calm cfg s) : (h265dParse cfg nals true s).Idle := by
  obtain ⟨hflow, hidle⟩ := h
  obtain ⟨e, he⟩ := hflow.live
  have hstart : Flowing cfg { s with ref := none } :=
    ⟨hflow.distinct.shrink (.of_dpb rfl), e, he.withRef hidle none⟩
  have hflush := (hstart.parserNalUnits hc).h265dFlush.2
  rw [idle_iff_waiting] at hflush ⊢
  refine Finset.subset_empty.1 (hflush ▸ ?_)
  exact outputRel_waiting.outputFrame cfg false
    { h265dFlush cfg (parserNalUnits cfg true nals { s with ref := none }) with isDecoded := false }

/-! ### Putting frames out -/

section DisplayLoop

variable (ready : ℕ → Bool) (flags : HalDecTaskFlag) (queue : List ℕ)

theorem displayLoop_slots :
    (DecThreads.displayLoop ready flags queue).map (·.slot) <+: queue.map some := by
  induction queue with
  | nil => exact prefix_rfl
  | cons slot queue ih =>
    rw [DecThreads.displayLoop]
    split_ifs
    · rw [map_cons, map_cons, prefix_cons_inj]
      exact ih
    · exact nil_prefix

theorem displayLoop_length :
    (DecThreads.displayLoop ready flags queue).length ≤ queue.length := by
  have h := (displayLoop_slots ready flags queue).length_le
  rwa [length_map, length_map] at h

/-- Without the mark no frame has it. -/
theorem displayLoop_eos_false (h : flags.eos = false) :
    ∀ f ∈ DecThreads.displayLoop ready flags queue, f.flags.eos = false := by
  induction queue with
  | nil => intro f hf; cases hf
  | cons slot queue ih =>
    rw [DecThreads.displayLoop]
    split_ifs
    · intro f hf
      rcases mem_cons.1 hf with rfl | hf
      · exact Bool.and_eq_false_imp.2 fun hc => absurd hc (by rw [h]; exact Bool.false_ne_true)
      · exact ih f hf
    · intro f hf
      cases hf

/-- When all frames are ready, the last one gets the mark. -/
theorem displayLoop_eos (h : flags.eos) (hready : ∀ slot ∈ queue, ready slot)
    (hne : queue ≠ []) : ∃ init f, DecThreads.displayLoop ready flags queue = init ++ [f] ∧
      (∀ g ∈ init, g.flags.eos = false) ∧ f.flags.eos ∧ f.flags.decoded = flags.decoded ∧
      init.length + 1 = queue.length := by
  induction queue with
  | nil => exact absurd rfl hne
  | cons slot queue ih =>
    rw [DecThreads.displayLoop, if_pos (hready slot mem_cons_self)]
    cases queue with
    | nil =>
      refine ⟨[], _, rfl, fun g hg => absurd hg not_mem_nil, ?_, rfl, rfl⟩
      exact (Bool.and_true _).trans h
    | cons next queue =>
      obtain ⟨init, f, hout, hinit, hf⟩ :=
        ih (fun n hn => hready n (mem_cons_of_mem _ hn)) (cons_ne_nil _ _)
      rw [hout]
      refine ⟨_ :: init, f, rfl, ?_, hf.1, hf.2.1, congrArg (· + 1) hf.2.2⟩
      intro g hg
      rcases mem_cons.1 hg with rfl | hg
      · simp
      · exact hinit g hg

/-- Only the last frame has the mark. -/
theorem displayLoop_last :
    (DecThreads.displayLoop ready flags queue).Pairwise fun a _ => a.flags.eos = false := by
  induction queue with
  | nil => exact .nil
  | cons slot queue ih =>
    rw [DecThreads.displayLoop]
    split_ifs
    · refine pairwise_cons.2 ⟨fun f hf => ?_, ih⟩
      cases queue with
      | nil => exact absurd hf not_mem_nil
      | cons next queue => exact Bool.and_false _
    · exact .nil

end DisplayLoop

/-- The frames that were put out are of the slots that are gone from the display queue, and
    none of them comes after a mark that it was decoded before. -/
structure Passing (d : DecThreads) : Prop where
  once : d.ctx.display.Nodup
  dequeued : d.dequeued ≤ d.ctx.display.length
  passed : ∀ f ∈ d.frmOut, f.flags.eos → ∀ n ∈ f.flags.decoded,
    n ∈ d.ctx.display.take d.dequeued
  last : d.frmOut.Pairwise fun a b => a.flags.eos → ¬ b.flags.infoChange →
    ∀ n ∈ b.slot, n ∉ a.flags.decoded

namespace Passing

variable {d : DecThreads} (flags : HalDecTaskFlag)

/-- The loop on the display queue. -/
theorem pushDisplay (h : Passing d)
    (hmark : ∀ f ∈ DecThreads.displayLoop d.isReady flags d.queue, f.flags.eos →
      ∀ n ∈ f.flags.decoded, n ∈ d.ctx.display.take (d.pushDisplay flags).dequeued) :
    Passing (d.pushDisplay flags) := by
  have hlength := displayLoop_length d.isReady flags d.queue
  have hslots := displayLoop_slots d.isReady flags d.queue
  have hdequeued := h.dequeued
  have hqueue : d.queue.length = d.ctx.display.length - d.dequeued := length_drop
  refine ⟨h.once, ?_, ?_, ?_⟩
  · show d.dequeued + (DecThreads.displayLoop d.isReady flags d.queue).length ≤
      d.ctx.display.length
    omega
  · intro f hf heos n hn
    rcases mem_append.1 hf with hf | hf
    · exact take_subset_take_left _ (Nat.le_add_right _ _) (h.passed f hf heos n hn)
    · exact hmark f hf heos n hn
  · refine pairwise_append.2 ⟨h.last, ?_, fun a ha b hb heos _ n hn hc => ?_⟩
    · exact (displayLoop_last d.isReady flags d.queue).imp fun hno heos =>
        absurd (hno.symm.trans heos) Bool.false_ne_true
    · -- the slot is still in the queue
      have hb : b.slot ∈ d.queue.map some := hslots.subset (mem_map_of_mem hb)
      rw [Option.mem_def.1 hn] at hb
      have hin : n ∈ d.queue := by simpa using hb
      have honce := h.once
      rw [← take_append_drop d.dequeued d.ctx.display] at honce
      exact (nodup_append.1 honce).2.2 n (h.passed a ha heos n hc) n hin rfl

/-- An empty frame, or one that tells of a change. -/
theorem putFrame (h : Passing d) (slot : Option ℕ) (hslot : slot = none ∨ flags.infoChange)
    (hmark : flags.eos → ∀ n ∈ flags.decoded, n ∈ d.ctx.display.take d.dequeued) :
    Passing (d.putFrame slot flags) := by
  refine ⟨h.once, h.dequeued, ?_, ?_⟩
  · intro f hf heos n hn
    rcases mem_append.1 hf with hf | hf
    · exact h.passed f hf heos n hn
    · obtain rfl := mem_singleton.1 hf
      exact hmark heos n hn
  · refine pairwise_append.2 ⟨h.last, pairwise_singleton _ _, ?_⟩
    intro a _ b hb _ hno n hn
    obtain rfl := mem_singleton.1 hb
    rcases hslot with rfl | hchange
    · cases hn
    · exact absurd hchange hno

/-- More frames wait in the display queue. -/
theorem shows (h : Passing d) {ctx : HEVCContext} (hs : Shows d.ctx ctx)
    (honce : ctx.display.Nodup) : Passing { d with ctx } := by
  obtain ⟨l, hl⟩ := hs
  have htake : ctx.display.take d.dequeued = d.ctx.display.take d.dequeued := by
    rw [← hl, take_append_of_le_length h.dequeued]
  refine ⟨honce, ?_, ?_, h.last⟩
  · rw [← hl, length_append]
    exact h.dequeued.trans (Nat.le_add_right _ _)
  · show ∀ f ∈ d.frmOut, f.flags.eos → ∀ n ∈ f.flags.decoded,
      n ∈ ctx.display.take d.dequeued
    rw [htake]
    exact h.passed

end Passing

end Libmpp.H265d
