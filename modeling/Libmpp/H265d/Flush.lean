import Libmpp.H265d.Live

/-!
# Output and the frames that wait

The scan of the buffer finds the frame that comes first (`minPoc_spec`), and the frames that
follow on come in their order, so output preserves `Live` (`Live.outputFrame`). After a
flush no frame waits (`Live.flush`). The bound of its loop is not what ends it
(`Live.outputLoop_flush`).
-/

namespace Libmpp.H265d

section Waiting

variable {s : HEVCContext} {i j : Fin maxDpbSize}

theorem isWaiting_iff :
    s.isWaiting i ↔ (s.dpb i).flags.output ∧ (s.dpb i).sequence = s.seqOutput := by
  rw [HEVCContext.isWaiting, Bool.and_eq_true, decide_eq_true_eq]

/-- The frames that wait for output. -/
def HEVCContext.waiting (s : HEVCContext) : Finset (Fin maxDpbSize) :=
  {i | (s.dpb i).flags.output}

theorem mem_waiting : i ∈ s.waiting ↔ (s.dpb i).flags.output := by
  rw [HEVCContext.waiting, Finset.mem_filter]
  exact and_iff_right (Finset.mem_univ i)

theorem idle_iff_waiting : s.Idle ↔ s.waiting = ∅ := by
  rw [Finset.eq_empty_iff_forall_notMem]
  refine forall_congr' fun i => ?_
  rw [mem_waiting, Bool.not_eq_true]

theorem not_output_displayFrame (s : HEVCContext) (i : Fin maxDpbSize) :
    ((displayFrame s i).dpb i).flags.output = false := by
  have hself : (displayFrame s i).dpb i = _ := HEVCContext.setFrame_same s i _
  rw [hself]

/-- A frame that waits when another was output and the unused ones were released. -/
theorem waiting_displayed (hj : ((unrefAll (displayFrame s i) {}).dpb j).flags.output) :
    j ≠ i ∧ (s.dpb j).flags.output ∧
      ((unrefAll (displayFrame s i) {}).dpb j).poc = (s.dpb j).poc ∧
      ((unrefAll (displayFrame s i) {}).dpb j).sequence = (s.dpb j).sequence := by
  have hsame := (quiet_unrefAll (displayFrame s i) {} rfl).waiting hj
  rw [hsame.output] at hj
  have hji : j ≠ i := by
    rintro rfl
    rw [not_output_displayFrame] at hj
    cases hj
  have hother : (displayFrame s i).dpb j = s.dpb j := HEVCContext.setFrame_of_ne hji
  rw [hother] at hj
  exact ⟨hji, hj, hsame.poc.trans (by rw [hother]), hsame.sequence.trans (by rw [hother])⟩

end Waiting

/-- Output makes no frame wait. -/
theorem outputRel_waiting : OutputRel fun s t => t.waiting ⊆ s.waiting where
  refl _ := Finset.Subset.refl _
  trans h₁ h₂ := h₂.trans h₁
  display s i j hj := by
    rw [mem_waiting] at hj ⊢
    by_cases hji : j = i
    · rw [hji, not_output_displayFrame] at hj
      cases hj
    · have hother : (displayFrame s i).dpb j = s.dpb j := HEVCContext.setFrame_of_ne hji
      exact hother ▸ hj
  release s j hj := by
    rw [mem_waiting] at hj ⊢
    exact ((quiet_unrefAll s {} rfl).waiting hj).output ▸ hj
  advance _ _ := Finset.Subset.refl _
  fast _ := Finset.Subset.refl _

/-- The scan for the least order count. -/
theorem minPoc_foldl (s : HEVCContext) (l : List (Fin maxDpbSize)) (m : ℤ × Fin maxDpbSize) :
    let r := l.foldl
      (fun m i => if s.isWaiting i ∧ (s.dpb i).poc < m.1 then ((s.dpb i).poc, i) else m) m
    (r = m ∨ s.isWaiting r.2 ∧ r.1 = (s.dpb r.2).poc) ∧ r.1 ≤ m.1 ∧
      ∀ i ∈ l, s.isWaiting i → r.1 ≤ (s.dpb i).poc := by
  induction l generalizing m with
  | nil => exact ⟨.inl rfl, le_refl _, fun i hi => by cases hi⟩
  | cons j l ih =>
    rw [List.foldl_cons]
    by_cases hj : s.isWaiting j ∧ (s.dpb j).poc < m.1
    · rw [if_pos hj]
      obtain ⟨hr, hle, hall⟩ := ih ((s.dpb j).poc, j)
      refine ⟨?_, hle.trans hj.2.le, fun i hi hw => ?_⟩
      · rcases hr with hr | hr
        · rw [hr]
          exact .inr ⟨hj.1, rfl⟩
        · exact .inr hr
      · rcases List.mem_cons.1 hi with rfl | hi
        · exact hle
        · exact hall i hi hw
    · rw [if_neg hj]
      obtain ⟨hr, hle, hall⟩ := ih m
      refine ⟨hr, hle, fun i hi hw => ?_⟩
      rcases List.mem_cons.1 hi with rfl | hi
      · exact hle.trans (not_lt.1 fun hlt => hj ⟨hw, hlt⟩)
      · exact hall i hi hw

/-- The scan finds a frame with the least order count, if one waits. -/
theorem minPoc_spec {s : HEVCContext} {j : Fin maxDpbSize} (hj : s.isWaiting j)
    (hpoc : (s.dpb j).poc < intMax) :
    s.isWaiting s.minPoc.2 ∧ ∀ i, s.isWaiting i → (s.dpb s.minPoc.2).poc ≤ (s.dpb i).poc := by
  obtain ⟨hr, -, hall⟩ := minPoc_foldl s (List.finRange maxDpbSize) (intMax, 0)
  have hmin : s.minPoc.1 ≤ (s.dpb j).poc := hall j (List.mem_finRange j) hj
  rcases hr with hr | ⟨hw, hr⟩
  · have hmax : s.minPoc = (intMax, 0) := hr
    rw [hmax] at hmin
    exact absurd hpoc (not_lt.2 hmin)
  · have hr : s.minPoc.1 = (s.dpb s.minPoc.2).poc := hr
    exact ⟨hw, fun i hi => hr ▸ hall i (List.mem_finRange i) hi⟩

theorem nbOutput_ne_zero {s : HEVCContext} : s.nbOutput ≠ 0 ↔ ∃ i, s.isWaiting i := by
  rw [HEVCContext.nbOutput, ← Nat.pos_iff_ne_zero, List.countP_pos_iff]
  exact exists_congr fun i => and_iff_right (List.mem_finRange i)

namespace Live

variable {cfg : MppDecBaseCfg} {s : HEVCContext} {born : List (ℕ × ℕ)} {e : ℕ}

/-- A frame of the sequence that is output is that of a picture of the era. -/
theorem waits_now (h : Live cfg s born e) (hfast : cfg.fastOut = false) {i : Fin maxDpbSize}
    (hi : s.isWaiting i) :
    ∃ n, (s.dpb i).slotIndex = some n ∧ (n, e) ∈ born ∧ (s.dpb i).poc < intMax := by
  obtain ⟨hout, hseq⟩ := isWaiting_iff.1 hi
  obtain ⟨n, m, hn, hborn, hm, hge, hle, hpoc⟩ := h.waits hout
  obtain ⟨hq, hlt⟩ := h.inOrder hfast
  obtain rfl : m = e := by omega
  exact ⟨n, hn, hborn, hpoc⟩

/-- A frame that comes first among those of the sequence that is output. -/
theorem reveal_first (h : Live cfg s born e) (hfast : cfg.fastOut = false) {i : Fin maxDpbSize}
    (hi : s.isWaiting i) (hfirst : ∀ j, s.isWaiting j → (s.dpb i).poc ≤ (s.dpb j).poc) :
    Live cfg (displayFrame s i) born e := by
  obtain ⟨n, hn, hborn, -⟩ := h.waits_now hfast hi
  obtain ⟨hout, hseq⟩ := isWaiting_iff.1 hi
  exact h.reveal hn hout hborn
    ⟨hout, fun j hj hji => hfirst j (isWaiting_iff.2 ⟨hj, hji.trans hseq⟩)⟩

/-- The others that wait in the sequence come after the first. -/
theorem lt_of_first (h : Live cfg s born e) (hd : s.DistinctAll) (hfast : cfg.fastOut = false)
    {i j : Fin maxDpbSize} (hi : s.isWaiting i)
    (hfirst : ∀ j, s.isWaiting j → (s.dpb i).poc ≤ (s.dpb j).poc) (hj : s.isWaiting j)
    (hji : j ≠ i) : (s.dpb i).poc < (s.dpb j).poc := by
  obtain ⟨k, hk, -⟩ := h.waits_now hfast hi
  obtain ⟨k', hk', -⟩ := h.waits_now hfast hj
  refine lt_of_le_of_ne (hfirst j hj) fun hpoc => hji ?_
  refine hd j i (by rw [hk']; rfl) (by rw [hk]; rfl) ?_ hpoc.symm
  rw [(isWaiting_iff.1 hj).2, (isWaiting_iff.1 hi).2]

/-- The frames that follow on the one that was output. -/
theorem outputReady (h : Live cfg s born e) (hd : s.DistinctAll) (hfast : cfg.fastOut = false)
    {frame : Fin maxDpbSize} (n : ℕ)
    (hlast : (∀ j, s.isWaiting j → (s.dpb frame).poc < (s.dpb j).poc) ∨
      intMax ≤ (s.dpb frame).poc) : Live cfg (outputReady n s frame) born e := by
  induction n generalizing s frame with
  | zero => exact h
  | succ n ih =>
    rw [H265d.outputReady]
    cases hnext : s.nextReady (s.dpb frame).poc with
    | none => exact h
    | some i =>
      have hnext := hnext
      unfold HEVCContext.nextReady at hnext
      have hi := (Fin.find?_eq_some_iff.1 hnext).1
      rw [Bool.and_eq_true, decide_eq_true_eq] at hi
      obtain ⟨hwi, hpoc⟩ := hi
      obtain ⟨k, hk, -, hmax⟩ := h.waits_now hfast hwi
      have hfirst : ∀ j, s.isWaiting j → (s.dpb i).poc ≤ (s.dpb j).poc := by
        rcases hlast with hlast | hlast
        · intro j hj
          have := hlast j hj
          omega
        · omega
      refine ih ((h.reveal_first hfast hwi hfirst).quiet (quiet_unrefAll _ {} rfl))
        (hd.shrink ((outputRel_shrinks.display s i).trans (outputRel_shrinks.release _))) ?_
      have hself : (displayFrame s i).dpb i = _ := HEVCContext.setFrame_same s i _
      have hslot : ((displayFrame s i).dpb i).slotIndex ≠ none := by
        rw [hself]
        show (s.dpb i).slotIndex ≠ none
        rw [hk]
        simp
      by_cases hflags : ((displayFrame s i).dpb i).flags.without {} = {}
      · -- The frame was released, and no frame has its order count now.
        right
        have hfree : (unrefAll (displayFrame s i) {}).dpb i = _ :=
          unrefFrame_release hslot hflags
        rw [hfree]
      · left
        intro j hj
        obtain ⟨hout, hseq⟩ := isWaiting_iff.1 hj
        obtain ⟨hji, hout, hp, hq⟩ := waiting_displayed hout
        have hwj : s.isWaiting j := isWaiting_iff.2 ⟨hout, hq ▸ hseq⟩
        have hkept : ((unrefAll (displayFrame s i) {}).dpb i).poc = (s.dpb i).poc := by
          have hkeep : (unrefAll (displayFrame s i) {}).dpb i = _ := unrefFrame_keep hslot hflags
          rw [hkeep, hself]
        rw [hkept, hp]
        exact h.lt_of_first hd hfast hwi hfirst hwj hji

/-- Output moves on to the next sequence when no frame of this one waits. -/
theorem advance (h : Live cfg s born e) (hfast : cfg.fastOut = false) (hnb : ¬ s.nbOutput ≠ 0)
    (hseq : s.seqOutput ≠ s.seqDecode) :
    Live cfg { s with seqOutput := (s.seqOutput + 1) % 256 } born (e + 1) := by
  obtain ⟨hq, hlt⟩ := h.inOrder hfast
  have hreached := h.reached
  have hdecode := h.decode
  refine h.raise (Nat.le_succ e) ?_ (fun _ => by omega) fun i n m hn hi hborn => ?_
  · by_contra hc
    have he : e = s.era := by omega
    exact hseq (by rw [hq, hdecode, he])
  · have hge := h.epochs.ahead n m hborn ⟨i, hn, hi⟩
    by_contra hc
    obtain ⟨-, m', -, hborn', hm'⟩ := h.picture i n hn hi
    have hmm := h.epochs.epoch_unique hborn hborn'
    exact hnb (nbOutput_ne_zero.2 ⟨i, isWaiting_iff.2 ⟨hi, by omega⟩⟩)

/-- The loop of `mpp_hevc_output_frame`. -/
theorem outputLoop (h : Live cfg s born e) (hd : s.DistinctAll) (hfast : cfg.fastOut = false)
    (flush : Bool) (n : ℕ) : ∃ e', Live cfg (outputLoop cfg flush n s).1 born e' := by
  induction n generalizing s e with
  | zero => exact ⟨e, h⟩
  | succ n ih =>
    rw [H265d.outputLoop]
    split
    · exact ⟨e, h⟩
    · have hs : Quiet s (if s.waitsForMore flush then { s with firstIFastPlay := true } else s) := by
        split_ifs <;> exact .of_eq rfl
      have hdpb : (if s.waitsForMore flush then { s with firstIFastPlay := true } else s).dpb =
          s.dpb := by
        split_ifs <;> rfl
      generalize (if s.waitsForMore flush then { s with firstIFastPlay := true } else s) = t
        at hs hdpb
      have ht := h.quiet hs
      have hdt : t.DistinctAll := hd.shrink (.of_dpb hdpb)
      dsimp only
      split_ifs with hnb hseq
      · obtain ⟨j, hj⟩ := nbOutput_ne_zero.1 hnb
        obtain ⟨-, -, -, hpoc⟩ := ht.waits_now hfast hj
        obtain ⟨hw, hfirst⟩ := minPoc_spec hj hpoc
        refine ⟨e, (ht.reveal_first hfast hw hfirst).outputReady
          (hdt.shrink (outputRel_shrinks.display t _)) hfast _ (.inl fun k hk => ?_)⟩
        obtain ⟨hout, hseq⟩ := isWaiting_iff.1 hk
        have hki : k ≠ t.minPoc.2 := by
          rintro rfl
          rw [not_output_displayFrame] at hout
          cases hout
        have hother : (displayFrame t t.minPoc.2).dpb k = t.dpb k := HEVCContext.setFrame_of_ne hki
        have hself : (displayFrame t t.minPoc.2).dpb t.minPoc.2 = _ :=
          HEVCContext.setFrame_same t _ _
        rw [hother] at hout hseq ⊢
        rw [hself]
        exact ht.lt_of_first hdt hfast hw hfirst (isWaiting_iff.2 ⟨hout, hseq⟩) hki
      · exact ih (ht.advance hfast hnb hseq) (hdt.shrink (.of_dpb rfl))
      · exact ⟨e, ht⟩

/-- In the order of decoding: the current frame is the only one that waits. -/
theorem outDecOrder (h : Live cfg s born e) (hfast : cfg.fastOut) :
    (outDecOrder s).Idle ∧ ∃ e', Live cfg (outDecOrder s) born e' := by
  unfold H265d.outDecOrder
  cases href : s.ref with
  | none =>
    refine ⟨fun i => ?_, e, h⟩
    by_contra hc
    have hi := h.atOnce hfast i (Bool.eq_true_of_not_eq_false hc)
    rw [href] at hi
    cases hi
  | some i =>
    have honly : ∀ j, (s.dpb j).flags.output → j = i := fun j hj =>
      (Option.some.inj (href.symm.trans (h.atOnce hfast j hj))).symm
    dsimp only
    split_ifs with hout
    · constructor
      · intro j
        by_contra hc
        have hj := Bool.eq_true_of_not_eq_false hc
        by_cases hji : j = i
        · rw [hji, not_output_displayFrame] at hj
          cases hj
        · have hother : (displayFrame s i).dpb j = s.dpb j := HEVCContext.setFrame_of_ne hji
          rw [hother] at hj
          exact hji (honly j hj)
      · obtain ⟨n, m, hn, hborn, -, hge, hle, -⟩ := h.waits hout
        have hraise : Live cfg { s with seqOutput := s.seqOutput } born m := by
          refine h.raise hge hle (fun hc => absurd hfast (by rw [hc]; simp)) fun j k l hk hj hl => ?_
          rw [honly j hj, hn] at hk
          obtain rfl := Option.some.inj hk
          exact (h.epochs.epoch_unique hborn hl).le
        exact ⟨m, hraise.reveal hn hout hborn ⟨hout, fun j hj _ => by rw [honly j hj]⟩⟩
    · refine ⟨fun j => ?_, e, h⟩
      by_contra hc
      have hj := Bool.eq_true_of_not_eq_false hc
      exact hout (honly j hj ▸ hj)

/-- `mpp_hevc_output_frame` -/
theorem outputFrame (h : Live cfg s born e) (hd : s.DistinctAll) (flush : Bool) :
    (cfg.fastOut → (outputFrame cfg flush s).1.Idle) ∧
      ∃ e', Live cfg (outputFrame cfg flush s).1 born e' := by
  unfold H265d.outputFrame
  split_ifs with hfast
  · obtain ⟨hidle, e', h'⟩ := h.outDecOrder hfast
    exact ⟨fun _ => hidle, e', h'⟩
  · exact ⟨fun hc => absurd hc hfast,
      h.outputLoop hd (Bool.eq_false_iff.2 hfast) flush 256⟩

/-- When it flushes, the loop outputs a frame as long as one waits. -/
theorem outputLoop_flush (h : Live cfg s born e) (hfast : cfg.fastOut = false) (n : ℕ)
    (hn : s.era < e + n) :
    ((H265d.outputLoop cfg true n s).2 = false → (H265d.outputLoop cfg true n s).1.Idle) ∧
      ((H265d.outputLoop cfg true n s).2 → (H265d.outputLoop cfg true n s).1.waiting ⊂ s.waiting) := by
  induction n generalizing s e with
  | zero => exact absurd h.reached (not_le.2 hn)
  | succ n ih =>
    rw [H265d.outputLoop, if_neg (fun hc => Bool.false_ne_true hc.1)]
    rw [if_neg (show ¬ s.waitsForMore true from Bool.false_ne_true)]
    dsimp only
    split_ifs with hnb hseq
    · refine ⟨fun hc => (by cases hc), fun _ => ?_⟩
      obtain ⟨j, hj⟩ := nbOutput_ne_zero.1 hnb
      obtain ⟨-, -, -, hpoc⟩ := h.waits_now hfast hj
      obtain ⟨hw, -⟩ := minPoc_spec hj hpoc
      have hsub := (outputRel_waiting.outputReady maxDpbSize (displayFrame s s.minPoc.2) s.minPoc.2).trans
        (outputRel_waiting.display s s.minPoc.2)
      refine (Finset.ssubset_iff_of_subset hsub).2 ⟨_, mem_waiting.2 (isWaiting_iff.1 hw).1, ?_⟩
      intro hc
      have hc := mem_waiting.1 (outputRel_waiting.outputReady _ _ _ hc)
      rw [not_output_displayFrame] at hc
      cases hc
    · exact ih (h.advance hfast hnb hseq) (by show s.era < e + 1 + n; omega)
    · refine ⟨fun _ i => ?_, fun hc => by cases hc⟩
      by_contra hc
      obtain ⟨k, m, -, -, hm, hge, hle, -⟩ := h.waits (Bool.eq_true_of_not_eq_false hc)
      obtain ⟨hq, hlt⟩ := h.inOrder hfast
      have hdecode := h.decode
      rw [not_not] at hseq
      refine hnb (nbOutput_ne_zero.2 ⟨i, isWaiting_iff.2 ⟨Bool.eq_true_of_not_eq_false hc, ?_⟩⟩)
      omega

/-- A flush outputs all frames that wait. -/
theorem flushLoop (h : Live cfg s born e) (hd : s.DistinctAll) (n : ℕ)
    (hn : s.waiting.card < n) :
    (flushLoop cfg n s).Idle ∧ ∃ e', Live cfg (flushLoop cfg n s) born e' := by
  induction n generalizing s e with
  | zero => exact absurd hn (Nat.not_lt_zero _)
  | succ n ih =>
    obtain ⟨hidle, e', h'⟩ := h.outputFrame hd true
    have hd' : (H265d.outputFrame cfg true s).1.DistinctAll :=
      hd.shrink (outputRel_shrinks.outputFrame cfg true s)
    have hout : ((H265d.outputFrame cfg true s).2 = false → (H265d.outputFrame cfg true s).1.Idle) ∧
        ((H265d.outputFrame cfg true s).2 →
          (H265d.outputFrame cfg true s).1.waiting ⊂ s.waiting) := by
      by_cases hfast : cfg.fastOut
      · refine ⟨fun _ => hidle hfast, fun hc => ?_⟩
        rw [H265d.outputFrame, if_pos hfast] at hc
        cases hc
      · rw [H265d.outputFrame, if_neg hfast]
        have hfast := Bool.eq_false_iff.2 hfast
        exact h.outputLoop_flush hfast 256 (h.inOrder hfast).2
    rw [H265d.flushLoop]
    split_ifs with hr
    · refine ih h' hd' ?_
      have := Finset.card_lt_card (hout.2 hr)
      omega
    · exact ⟨hout.1 (Bool.eq_false_iff.2 hr), e', h'⟩

/-- `h265d_flush` -/
theorem flush (h : Live cfg s born e) (hd : s.DistinctAll) :
    (h265dFlush cfg s).Idle ∧ ∃ e', Live cfg (h265dFlush cfg s) born e' := by
  refine h.flushLoop hd _ (Nat.lt_succ_of_le ?_)
  have hcard := Finset.card_le_univ s.waiting
  rwa [Fintype.card_fin] at hcard

end Live

end Libmpp.H265d
