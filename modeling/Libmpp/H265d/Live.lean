import Libmpp.H265d.Derive
import Libmpp.Lib.Epochs

/-!
# The frames that wait for output

The pictures of a sequence are those of an era. `Live` says of a context that the pictures of
`born` are shown era by era, up to the era `e` that is output: each was shown once or its
frame waits, and what went to the display queue came first among the frames of its sequence
that waited.

* `Live.quiet` is the rule for a step that leaves the frames that wait alone;
* `Live.reveal` and `Live.raise` are the rules for a frame that is output and for output that
  moves on to a later era;
* `Live.take`, `Live.bear` and `Live.begin` are the rules for a frame that comes in use, for a
  picture that gets one and for a sequence that begins.
-/

namespace Libmpp.H265d

open List

/-- The slots of the frames that wait for output. -/
def HEVCContext.due (s : HEVCContext) : Set ℕ :=
  {n | ∃ i, (s.dpb i).slotIndex = some n ∧ (s.dpb i).flags.output}

/-- No frame waits for output. -/
def HEVCContext.Idle (s : HEVCContext) : Prop := ∀ i, (s.dpb i).flags.output = false

/-- A frame that was shown waited, and came first among those of its sequence that did. -/
def ShownFirst (p : (Fin maxDpbSize → HEVCFrame) × Fin maxDpbSize) : Prop :=
  (p.1 p.2).flags.output ∧ ∀ j, (p.1 j).flags.output →
    (p.1 j).sequence = (p.1 p.2).sequence → (p.1 p.2).poc ≤ (p.1 j).poc

/-- The pictures of `born`, each with its era, were shown or their frames wait, and the era
    `e` is output. Every frame in use has a slot of its own. -/
structure Live (cfg : MppDecBaseCfg) (s : HEVCContext) (born : List (ℕ × ℕ)) (e : ℕ) : Prop where
  taken : ∀ i n, (s.dpb i).slotIndex = some n → n < s.slots
  own : ∀ i j n, (s.dpb i).slotIndex = some n → (s.dpb j).slotIndex = some n → i = j
  idle : ∀ i, (s.dpb i).slotIndex = none → (s.dpb i).flags.output = false
  picture : ∀ i n, (s.dpb i).slotIndex = some n → (s.dpb i).flags.output →
    (s.dpb i).poc < intMax ∧ ∃ m ≤ s.era, (n, m) ∈ born ∧ m % 256 = (s.dpb i).sequence
  bornTaken : ∀ n m, (n, m) ∈ born → n < s.slots
  missing : ∀ n ∈ s.madeUp, n < s.slots ∧ n ∉ born.map Prod.fst
  epochs : Epochs born s.display s.due e
  first : ∀ p ∈ s.shown, ShownFirst p
  logged : s.display = s.shown.flatMap fun p => (p.1 p.2).slotIndex.toList
  decode : s.seqDecode = s.era % 256
  reached : e ≤ s.era
  inOrder : cfg.fastOut = false → s.seqOutput = e % 256 ∧ s.era < e + 256
  atOnce : cfg.fastOut → ∀ i, (s.dpb i).flags.output → s.ref = some i

/-- For output the frames are the same. -/
structure SameOutput (f f' : HEVCFrame) : Prop where
  slotIndex : f'.slotIndex = f.slotIndex
  poc : f'.poc = f.poc
  sequence : f'.sequence = f.sequence
  output : f'.flags.output = f.flags.output

/-- A frame that did not wait was released. -/
structure Dropped (f f' : HEVCFrame) : Prop where
  output : f.flags.output = false
  slotIndex : f'.slotIndex = none
  output' : f'.flags.output = false

/-- A step that matters to no frame that waits. -/
structure Quiet (s t : HEVCContext) : Prop where
  frames : ∀ i, SameOutput (s.dpb i) (t.dpb i) ∨ Dropped (s.dpb i) (t.dpb i)
  slots : t.slots = s.slots
  madeUp : t.madeUp = s.madeUp
  display : t.display = s.display
  shown : t.shown = s.shown
  era : t.era = s.era
  seqDecode : t.seqDecode = s.seqDecode
  seqOutput : t.seqOutput = s.seqOutput
  ref : t.ref = s.ref

theorem SameOutput.refl (f : HEVCFrame) : SameOutput f f := ⟨rfl, rfl, rfl, rfl⟩

section Quiet

variable {s t u : HEVCContext}

variable {i : Fin maxDpbSize}

/-- A frame that waits after the step waited before. -/
theorem Quiet.waiting (h : Quiet s t) (hi : (t.dpb i).flags.output) :
    SameOutput (s.dpb i) (t.dpb i) := by
  rcases h.frames i with hsame | hdrop
  · exact hsame
  · rw [hdrop.output'] at hi
    cases hi

/-- A frame that is in use after the step was so before. -/
theorem Quiet.used (h : Quiet s t) (hi : (t.dpb i).slotIndex ≠ none) :
    SameOutput (s.dpb i) (t.dpb i) := by
  rcases h.frames i with hsame | hdrop
  · exact hsame
  · exact absurd hdrop.slotIndex hi

theorem Quiet.due (h : Quiet s t) : t.due = s.due := by
  ext n
  constructor
  · rintro ⟨i, hn, hi⟩
    have hsame := h.waiting hi
    exact ⟨i, hsame.slotIndex ▸ hn, hsame.output ▸ hi⟩
  · rintro ⟨i, hn, hi⟩
    rcases h.frames i with hsame | hdrop
    · exact ⟨i, hsame.slotIndex.trans hn, hsame.output.trans hi⟩
    · rw [hdrop.output] at hi
      cases hi

theorem Quiet.idle (h : Quiet s t) (hs : s.Idle) : t.Idle := fun i => by
  rcases h.frames i with hsame | hdrop
  · exact hsame.output.trans (hs i)
  · exact hdrop.output'

theorem Quiet.trans (h₁ : Quiet s t) (h₂ : Quiet t u) : Quiet s u where
  frames i := by
    rcases h₂.frames i with h | h
    · rcases h₁.frames i with h' | h'
      · exact .inl ⟨h.slotIndex.trans h'.slotIndex, h.poc.trans h'.poc,
          h.sequence.trans h'.sequence, h.output.trans h'.output⟩
      · exact .inr ⟨h'.output, h.slotIndex.trans h'.slotIndex, h.output.trans h'.output'⟩
    · rcases h₁.frames i with h' | h'
      · exact .inr ⟨h'.output ▸ h.output, h.slotIndex, h.output'⟩
      · exact .inr ⟨h'.output, h.slotIndex, h.output'⟩
  slots := h₂.slots.trans h₁.slots
  madeUp := h₂.madeUp.trans h₁.madeUp
  display := h₂.display.trans h₁.display
  shown := h₂.shown.trans h₁.shown
  era := h₂.era.trans h₁.era
  seqDecode := h₂.seqDecode.trans h₁.seqDecode
  seqOutput := h₂.seqOutput.trans h₁.seqOutput
  ref := h₂.ref.trans h₁.ref

/-- Taking marks other than the output flag. -/
theorem quiet_unrefFrame (f : HEVCFrame) {clr : FrameFlags} (hclr : clr.output = false) :
    SameOutput f (unrefFrame f clr) ∨ Dropped f (unrefFrame f clr) := by
  by_cases hs : f.slotIndex = none
  · rw [unrefFrame_of_none hs]
    exact .inl (.refl f)
  · by_cases hflags : f.flags.without clr = {}
    · have hout : f.flags.output = false := by
        have h := congrArg FrameFlags.output hflags
        simpa [FrameFlags.without, hclr] using h
      rw [unrefFrame_release hs hflags]
      exact .inr ⟨hout, rfl, rfl⟩
    · rw [unrefFrame_keep hs hflags]
      exact .inl ⟨rfl, rfl, rfl, by simp [FrameFlags.without, hclr]⟩

theorem quiet_unrefAll (s : HEVCContext) (clr : FrameFlags) (hclr : clr.output = false) :
    Quiet s (unrefAll s clr) where
  frames i := quiet_unrefFrame (s.dpb i) hclr
  slots := rfl
  madeUp := rfl
  display := rfl
  shown := rfl
  era := rfl
  seqDecode := rfl
  seqOutput := rfl
  ref := rfl

/-- Another frame at `i` that is the same for output. -/
theorem quiet_setFrame (s : HEVCContext) {f : HEVCFrame} (hf : SameOutput (s.dpb i) f) :
    Quiet s (s.setFrame i f) where
  frames j := by
    by_cases hji : j = i
    · subst hji
      rw [HEVCContext.setFrame_same]
      exact .inl hf
    · rw [HEVCContext.setFrame_of_ne hji]
      exact .inl (.refl _)
  slots := rfl
  madeUp := rfl
  display := rfl
  shown := rfl
  era := rfl
  seqDecode := rfl
  seqOutput := rfl
  ref := rfl

/-- A step that keeps the frames and the counters. -/
theorem Quiet.of_dpb (hdpb : t.dpb = s.dpb) (hslots : t.slots = s.slots)
    (hmadeUp : t.madeUp = s.madeUp) (hdisplay : t.display = s.display)
    (hshown : t.shown = s.shown) (hera : t.era = s.era) (hdecode : t.seqDecode = s.seqDecode)
    (houtput : t.seqOutput = s.seqOutput) (href : t.ref = s.ref) : Quiet s t :=
  ⟨fun _ => .inl (hdpb ▸ .refl _), hslots, hmadeUp, hdisplay, hshown, hera, hdecode, houtput, href⟩

/-- What output and the frames are about. -/
def HEVCContext.outputPart (s : HEVCContext) :=
  (s.dpb, s.slots, s.madeUp, s.display, s.shown, s.era, s.seqDecode, s.seqOutput, s.ref)

theorem Quiet.of_eq (h : t.outputPart = s.outputPart) : Quiet s t := by
  simp only [HEVCContext.outputPart, Prod.mk.injEq] at h
  obtain ⟨hdpb, hslots, hmadeUp, hdisplay, hshown, hera, hdecode, houtput, href⟩ := h
  exact .of_dpb hdpb hslots hmadeUp hdisplay hshown hera hdecode houtput href

end Quiet

namespace Live

variable {cfg : MppDecBaseCfg} {s t : HEVCContext} {born : List (ℕ × ℕ)} {e e' : ℕ}

theorem quiet (h : Live cfg s born e) (hq : Quiet s t) : Live cfg t born e where
  taken i n hn := by
    have hsame := hq.used (i := i) (by rw [hn]; simp)
    rw [hq.slots]
    exact h.taken i n (hsame.slotIndex ▸ hn)
  own i j n hi hj := by
    have hsi := hq.used (i := i) (by rw [hi]; simp)
    have hsj := hq.used (i := j) (by rw [hj]; simp)
    exact h.own i j n (hsi.slotIndex ▸ hi) (hsj.slotIndex ▸ hj)
  idle i hi := by
    rcases hq.frames i with hsame | hdrop
    · exact hsame.output.trans (h.idle i (hsame.slotIndex ▸ hi))
    · exact hdrop.output'
  picture i n hn hi := by
    have hsame := hq.waiting hi
    rw [hsame.poc, hsame.sequence, hq.era]
    exact h.picture i n (hsame.slotIndex ▸ hn) (hsame.output ▸ hi)
  bornTaken n m hn := hq.slots ▸ h.bornTaken n m hn
  missing := by
    rw [hq.madeUp, hq.slots]
    exact h.missing
  epochs := by
    rw [hq.display, hq.due]
    exact h.epochs
  first := hq.shown ▸ h.first
  logged := by
    rw [hq.display, hq.shown]
    exact h.logged
  decode := by
    rw [hq.seqDecode, hq.era]
    exact h.decode
  reached := hq.era ▸ h.reached
  inOrder hfast := by
    rw [hq.seqOutput, hq.era]
    exact h.inOrder hfast
  atOnce hfast i hi := hq.ref.trans (h.atOnce hfast i ((hq.waiting hi).output ▸ hi))

variable {i : Fin maxDpbSize}

/-- A frame that waits is that of a picture. -/
theorem waits (h : Live cfg s born e) (hi : (s.dpb i).flags.output) :
    ∃ n m, (s.dpb i).slotIndex = some n ∧ (n, m) ∈ born ∧ m % 256 = (s.dpb i).sequence ∧
      e ≤ m ∧ m ≤ s.era ∧ (s.dpb i).poc < intMax := by
  cases hn : (s.dpb i).slotIndex with
  | none =>
    rw [h.idle i hn] at hi
    cases hi
  | some n =>
    obtain ⟨hpoc, m, hm, hborn, hseq⟩ := h.picture i n hn hi
    exact ⟨n, m, rfl, hborn, hseq, h.epochs.ahead n m hborn ⟨i, hn, hi⟩, hm, hpoc⟩

/-- Output moves on to the era `e'`. -/
theorem raise (h : Live cfg s born e) (he : e ≤ e') (hera : e' ≤ s.era) {q : ℕ}
    (hq : cfg.fastOut = false → q = e' % 256)
    (hdue : ∀ i n m, (s.dpb i).slotIndex = some n → (s.dpb i).flags.output → (n, m) ∈ born →
      e' ≤ m) : Live cfg { s with seqOutput := q } born e' :=
  { h with
    epochs := h.epochs.raise he fun n m hn ⟨i, hi, hout⟩ => hdue i n m hi hout hn
    reached := hera
    inOrder := fun hfast => ⟨hq hfast, by
      have := (h.inOrder hfast).2
      show s.era < e' + 256
      omega⟩ }

/-- A frame of the era `e` is output. -/
theorem reveal (h : Live cfg s born e) {n : ℕ} (hn : (s.dpb i).slotIndex = some n)
    (hi : (s.dpb i).flags.output) (hborn : (n, e) ∈ born) (hfirst : ShownFirst (s.dpb, i)) :
    Live cfg (displayFrame s i) born e := by
  have hother : ∀ j, j ≠ i → (displayFrame s i).dpb j = s.dpb j := fun j hj =>
    HEVCContext.setFrame_of_ne hj
  have hself : (displayFrame s i).dpb i =
      { s.dpb i with flags := { (s.dpb i).flags with output := false } } :=
    HEVCContext.setFrame_same _ _ _
  have hslot : ∀ j, ((displayFrame s i).dpb j).slotIndex = (s.dpb j).slotIndex := fun j => by
    by_cases hji : j = i
    · rw [hji, hself]
    · rw [hother j hji]
  have hwaits : ∀ j, ((displayFrame s i).dpb j).flags.output → j ≠ i := by
    rintro j hj rfl
    rw [hself] at hj
    cases hj
  exact {
    taken := fun j k hk => h.taken j k (hslot j ▸ hk)
    own := fun j k m hj hk => h.own j k m (hslot j ▸ hj) (hslot k ▸ hk)
    idle := fun j hj => by
      by_cases hji : j = i
      · rw [hji, hself]
      · rw [hother j hji] at hj ⊢
        exact h.idle j hj
    picture := fun j k hk hj => by
      have hji := hwaits j hj
      rw [hother j hji] at hk hj ⊢
      exact h.picture j k hk hj
    bornTaken := h.bornTaken
    missing := h.missing
    epochs := by
      have hdisplay : (displayFrame s i).display = s.display ++ [n] := by
        show s.display ++ (s.dpb i).slotIndex.toList = _
        rw [hn]
        rfl
      rw [hdisplay]
      refine h.epochs.reveal ⟨i, hn, hi⟩ hborn fun b => ⟨?_, ?_⟩
      · rintro ⟨j, hb, hj⟩
        have hji := hwaits j hj
        rw [hother j hji] at hb hj
        refine ⟨⟨j, hb, hj⟩, ?_⟩
        rintro rfl
        exact hji (h.own j i _ hb hn)
      · rintro ⟨⟨j, hb, hj⟩, hbn⟩
        have hji : j ≠ i := by
          rintro rfl
          exact hbn (Option.some.inj (hb.symm.trans hn))
        exact ⟨j, (hother j hji).symm ▸ hb, (hother j hji).symm ▸ hj⟩
    first := fun p hp => by
      rcases mem_append.1 hp with hp | hp
      · exact h.first p hp
      · rw [mem_singleton.1 hp]
        exact hfirst
    logged := by
      show s.display ++ (s.dpb i).slotIndex.toList = (s.shown ++ [(s.dpb, i)]).flatMap _
      rw [flatMap_append, ← h.logged, flatMap_singleton]
    decode := h.decode
    reached := h.reached
    inOrder := h.inOrder
    atOnce := fun hfast j hj => h.atOnce hfast j ((hother j (hwaits j hj)) ▸ hj) }

/-- In use, not waiting and of no picture yet: such a frame can get one. -/
theorem bear (h : Live cfg s born e) {f : HEVCFrame} {n : ℕ} (hn : (s.dpb i).slotIndex = some n)
    (hslot : f.slotIndex = some n) (hborn : n ∉ born.map Prod.fst) (hmade : n ∉ s.madeUp)
    (hout : f.flags.output) (hseq : f.sequence = s.seqDecode) (hpoc : f.poc < intMax)
    (href : cfg.fastOut → s.ref = some i ∧ s.Idle) :
    Live cfg (s.setFrame i f) (born ++ [(n, s.era)]) e := by
  have hother : ∀ j, j ≠ i → (s.setFrame i f).dpb j = s.dpb j := fun j hj =>
    HEVCContext.setFrame_of_ne hj
  have hself : (s.setFrame i f).dpb i = f := HEVCContext.setFrame_same _ _ _
  have hsame : ∀ j, ((s.setFrame i f).dpb j).slotIndex = (s.dpb j).slotIndex := fun j => by
    by_cases hji : j = i
    · rw [hji, hself, hslot, hn]
    · rw [hother j hji]
  have hnow : (s.dpb i).flags.output = false := by
    by_contra hc
    obtain ⟨k, m, hk, hmem, -⟩ := h.waits (Bool.eq_true_of_not_eq_false hc)
    obtain rfl := Option.some.inj (hn.symm.trans hk)
    have hmem : n ∈ born.map Prod.fst := mem_map_of_mem hmem
    exact hborn hmem
  exact {
    taken := fun j k hk => h.taken j k (hsame j ▸ hk)
    own := fun j k m hj hk => h.own j k m (hsame j ▸ hj) (hsame k ▸ hk)
    idle := fun j hj => by
      have hji : j ≠ i := by
        rintro rfl
        rw [hself, hslot] at hj
        cases hj
      rw [hother j hji] at hj ⊢
      exact h.idle j hj
    picture := fun j k hk hj => by
      by_cases hji : j = i
      · subst hji
        rw [hself, hslot] at hk
        rw [hself]
        refine ⟨hpoc, s.era, le_refl _, ?_, ?_⟩
        · rw [Option.some.inj hk]
          exact mem_append_right _ (mem_singleton_self _)
        · rw [hseq, h.decode]
      · rw [hother j hji] at hk hj ⊢
        obtain ⟨hp, m, hm, hmem, hmseq⟩ := h.picture j k hk hj
        exact ⟨hp, m, hm, mem_append_left _ hmem, hmseq⟩
    bornTaken := fun k m hk => by
      rcases mem_append.1 hk with hk | hk
      · exact h.bornTaken k m hk
      · rw [mem_singleton, Prod.mk.injEq] at hk
        exact hk.1 ▸ h.taken i n hn
    missing := fun k hk => by
      refine ⟨(h.missing k hk).1, fun hmem => ?_⟩
      rw [map_append, mem_append, map_singleton, mem_singleton] at hmem
      rcases hmem with hmem | rfl
      · exact (h.missing k hk).2 hmem
      · exact hmade hk
    epochs := by
      have hdue : (s.setFrame i f).due = insert n s.due := by
        ext b
        constructor
        · rintro ⟨j, hb, hj⟩
          by_cases hji : j = i
          · rw [hji, hself, hslot] at hb
            exact .inl (Option.some.inj hb).symm
          · rw [hother j hji] at hb hj
            exact .inr ⟨j, hb, hj⟩
        · rintro (rfl | ⟨j, hb, hj⟩)
          · exact ⟨i, hself.symm ▸ hslot, hself.symm ▸ hout⟩
          · have hji : j ≠ i := by
              rintro rfl
              rw [hnow] at hj
              cases hj
            exact ⟨j, (hother j hji).symm ▸ hb, (hother j hji).symm ▸ hj⟩
      rw [hdue]
      exact h.epochs.bear hborn h.reached
    first := h.first
    logged := h.logged
    decode := h.decode
    reached := h.reached
    inOrder := h.inOrder
    atOnce := fun hfast j hj => by
      by_cases hji : j = i
      · exact hji ▸ (href hfast).1
      · rw [hother j hji, (href hfast).2 j] at hj
        cases hj }

/-- A frame that is not in use gets a slot. -/
theorem take (h : Live cfg s born e) (made : List ℕ) {f : HEVCFrame}
    (hn : (s.dpb i).slotIndex = none) (hslot : f.slotIndex = some s.slots)
    (hout : f.flags.output = false) (hmade : ∀ n ∈ made, n = s.slots) :
    Live cfg { s.setFrame i f with slots := s.slots + 1, madeUp := s.madeUp ++ made } born e := by
  have hother : ∀ j, j ≠ i → (s.setFrame i f).dpb j = s.dpb j := fun j hj =>
    HEVCContext.setFrame_of_ne hj
  have hself : (s.setFrame i f).dpb i = f := HEVCContext.setFrame_same _ _ _
  have hwaits : ∀ j, ((s.setFrame i f).dpb j).flags.output → j ≠ i := by
    rintro j hj rfl
    rw [hself, hout] at hj
    cases hj
  have hold : ∀ j n, ((s.setFrame i f).dpb j).slotIndex = some n →
      j = i ∧ n = s.slots ∨ j ≠ i ∧ (s.dpb j).slotIndex = some n := fun j n hj => by
    by_cases hji : j = i
    · rw [hji, hself, hslot] at hj
      exact .inl ⟨hji, (Option.some.inj hj).symm⟩
    · exact .inr ⟨hji, hother j hji ▸ hj⟩
  exact {
    taken := fun j n hj => by
      rcases hold j n hj with ⟨-, rfl⟩ | ⟨-, hj⟩
      · exact Nat.lt_succ_self _
      · exact (h.taken j n hj).trans (Nat.lt_succ_self _)
    own := fun j k n hj hk => by
      rcases hold j n hj with ⟨hji, hjn⟩ | ⟨-, hj'⟩ <;>
        rcases hold k n hk with ⟨hki, hkn⟩ | ⟨-, hk'⟩
      · rw [hji, hki]
      · exact absurd (h.taken k n hk') (hjn ▸ lt_irrefl _)
      · exact absurd (h.taken j n hj') (hkn ▸ lt_irrefl _)
      · exact h.own j k n hj' hk'
    idle := fun j hj => by
      have hji : j ≠ i := by
        rintro rfl
        rw [show _ = f from hself, hslot] at hj
        cases hj
      rw [show _ = s.dpb j from hother j hji] at hj ⊢
      exact h.idle j hj
    picture := fun j n hn hj => by
      have hji := hwaits j hj
      rw [show _ = s.dpb j from hother j hji] at hn hj ⊢
      exact h.picture j n hn hj
    bornTaken := fun n m hn => (h.bornTaken n m hn).trans (Nat.lt_succ_self _)
    missing := fun n hn => by
      rcases mem_append.1 hn with hn | hn
      · exact ⟨(h.missing n hn).1.trans (Nat.lt_succ_self _), (h.missing n hn).2⟩
      · rw [hmade n hn]
        refine ⟨Nat.lt_succ_self _, fun hmem => ?_⟩
        obtain ⟨⟨k, m⟩, hk, rfl⟩ := mem_map.1 hmem
        exact lt_irrefl _ (h.bornTaken _ m hk)
    epochs := by
      have hdue : (s.setFrame i f).due = s.due := by
        ext b
        constructor
        · rintro ⟨j, hb, hj⟩
          have hji := hwaits j hj
          rw [hother j hji] at hb hj
          exact ⟨j, hb, hj⟩
        · rintro ⟨j, hb, hj⟩
          have hji : j ≠ i := by
            rintro rfl
            rw [hn] at hb
            cases hb
          exact ⟨j, (hother j hji).symm ▸ hb, (hother j hji).symm ▸ hj⟩
      show Epochs born s.display (s.setFrame i f).due e
      rw [hdue]
      exact h.epochs
    first := h.first
    logged := h.logged
    decode := h.decode
    reached := h.reached
    inOrder := h.inOrder
    atOnce := fun hfast j hj => by
      have hji := hwaits j hj
      rw [show _ = s.dpb j from hother j hji] at hj
      exact h.atOnce hfast j hj }

/-- A sequence begins. Its number is not that of the sequence that is output, or else no
    frame waits. -/
theorem begin (h : Live cfg s born e)
    (hroom : cfg.fastOut ∨ (s.seqDecode + 1) % 256 ≠ s.seqOutput ∨ s.Idle) :
    ∃ e', Live cfg (nextSequence s) born e' := by
  have hlive : ∀ e', e ≤ e' → e' ≤ s.era + 1 → e' = e ∨ s.Idle →
      (cfg.fastOut = false → s.seqOutput = e' % 256 ∧ s.era + 1 < e' + 256) →
      Live cfg (nextSequence s) born e' := fun e' he hera hdue hout =>
    { h with
      picture := fun i n hn hi => by
        obtain ⟨hpoc, m, hm, hrest⟩ := h.picture i n hn hi
        exact ⟨hpoc, m, hm.trans (Nat.le_succ _), hrest⟩
      epochs := h.epochs.raise he fun n m hn hmem => by
        rcases hdue with rfl | hidle
        · exact h.epochs.ahead n m hn hmem
        · obtain ⟨i, -, hi⟩ := hmem
          rw [hidle i] at hi
          cases hi
      decode := by
        show (s.seqDecode + 1) % 256 = (s.era + 1) % 256
        rw [h.decode]
        omega
      reached := hera
      inOrder := hout }
  by_cases hfast : cfg.fastOut = false
  · obtain ⟨hq, hlt⟩ := h.inOrder hfast
    by_cases hwrap : s.era + 1 < e + 256
    · exact ⟨e, hlive e (le_refl _) (h.reached.trans (Nat.le_succ _)) (.inl rfl)
        fun _ => ⟨hq, hwrap⟩⟩
    · -- The counter is back at the sequence that is output.
      have hidle : s.Idle := by
        rcases hroom with hc | hc | hc
        · rw [hfast] at hc
          cases hc
        · exact absurd (by rw [h.decode, hq]; omega) hc
        · exact hc
      refine ⟨s.era + 1, hlive _ (h.reached.trans (Nat.le_succ _)) (le_refl _) (.inr hidle)
        fun _ => ⟨?_, by omega⟩⟩
      rw [hq]
      omega
  · exact ⟨e, hlive e (le_refl _) (h.reached.trans (Nat.le_succ _)) (.inl rfl)
      fun hc => absurd hc hfast⟩

end Live

end Libmpp.H265d
