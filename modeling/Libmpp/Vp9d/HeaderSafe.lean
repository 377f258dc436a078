import Libmpp.Vp9d.Header

/-!
# The header of a VP9 frame is safe

What a header keeps of the decoder is in range (`Ranges`): the references and the frame are no
larger than 65536, the indices are those of their tables. From there no reading of a header is a
fault, whatever the bits are; it changes no reference, and no probability context before all of
it but its end is read (`kept_frameHeader`). With the frames that follow, the ranges hold
in every run (`inRange_of_reachable`).

The tile columns are between the bounds of the specification (`header_safe`), except for the
lower one where the shift that finds it loses bits (`RoundsDown`): there the code takes one
that is too small. The contexts are set before the size of the compressed header is read, and
stay set when that is missing or too large (`header_unsafe`).
-/

namespace Libmpp.Vp9d

open Base Bitstream Option

variable {P : Type}

/-! ## Ranges -/

/-- The fields that index a table, and the sizes. -/
structure Ranges (refs : Fin 8 → RefFrame) (refidx : Fin 3 → ℕ) (bpp idx w h cols : ℕ) :
    Prop where
  refs : ∀ i, (refs i).f.width ≤ 65536 ∧ (refs i).f.height ≤ 65536
  refidx : ∀ i, refidx i < 8
  bppIndex : bpp < 3
  frameContextIdx : idx < 4
  width : w ≤ 65536
  height : h ≤ 65536
  sbCols : cols = (w + 63) >>> 6

def InRange (s : HeaderContext P) : Prop :=
  Ranges s.refs s.refidx s.bppIndex s.frameContextIdx s.width s.height s.sbCols

/-- In range, with the contexts and the references of `s₀`. -/
def Kept (s₀ s : HeaderContext P) : Prop :=
  InRange s ∧ s.probCtx = s₀.probCtx ∧ s.refs = s₀.refs

/-- The program ends, or returns an error. -/
def NoFault : HeaderStop → Cursor (HeaderContext P) → Prop := fun e _ => e ≠ .fault

/-- A program that is no fault, and keeps what `s₀` has. -/
abbrev Keeps {α : Type} (s₀ : HeaderContext P) (p : HeaderParse P α) : Prop :=
  Preserves (Kept s₀) NoFault p

/-- A program that ends as `Q` says, too. -/
abbrev KeepsAnd {α : Type} (s₀ : HeaderContext P) (Q : α → HeaderContext P → Prop)
    (p : HeaderParse P α) : Prop :=
  Meets (Kept s₀) (fun e s => Kept s₀ s.val ∧ NoFault e s) Q p

/-- A frame size that the header can have. -/
def IsSize (n : ℕ) : Prop := 0 < n ∧ n ≤ 65536

section Steps

variable {α : Type} {I : HeaderContext P → Prop} {s₀ : HeaderContext P}

theorem noFault_label (s : Cursor (HeaderContext P)) : NoFault (BitreadErr.label : HeaderStop) s :=
  nofun

theorem keeps_failed (b : Bool) (ret : MppRet) :
    Preserves I NoFault (whenever b (throw (.failed ret)) : HeaderParse P Unit) :=
  .whenever b <| .throw fun _ => nofun

theorem keeps_bits (n : ℕ) : Preserves I NoFault (bitsField n : HeaderParse P ℕ) :=
  Preserves.field (fun s _ => noFault_label s) _ _

theorem keeps_flag : Preserves I NoFault (flagField : HeaderParse P Bool) :=
  Preserves.field (fun s _ => noFault_label s) _ _

theorem keeps_sign (n : ℕ) : Preserves I NoFault (signField n : HeaderParse P ℤ) :=
  .bind (keeps_bits n) fun _ => .bind keeps_flag fun _ => .pure _

theorem keeps_ifFlag {p : HeaderParse P Unit} (hp : Preserves I NoFault p) :
    Preserves I NoFault (ifFlag p) :=
  .bind keeps_flag fun b => hp.whenever b

/-- A checked operation that succeeds. -/
theorem keeps_orFault {o : Option α} (h : o.isSome) :
    Preserves I NoFault (orFault o : HeaderParse P α) := by
  obtain ⟨a, rfl⟩ := isSome_iff_exists.1 h
  exact .pure a

theorem orFault_some (a : α) : (orFault (some a) : HeaderParse P α) = pure a := rfl

theorem entryAt_eq {n i : ℕ} {t : Fin n → α} (h : i < n) : entryAt t i = some (t ⟨i, h⟩) :=
  dif_pos h

theorem isSome_entryAt {n i : ℕ} {t : Fin n → α} (h : i < n) : (entryAt t i).isSome := by
  rw [entryAt_eq h]
  rfl

theorem keeps_profile : Keeps s₀ (readProfile : HeaderParse P Unit) :=
  .bind (keeps_bits 2) fun _ => .bind (keeps_failed _ _) fun _ =>
    .bind (.into (keeps_bits 1) fun _ _ h => h) fun _ =>
    .bind (.into (keeps_bits 1) fun _ _ h => h) fun _ => .bind .get fun _ =>
    .bind (.whenever _ (.into (keeps_bits 1) fun _ _ h => h)) fun _ => .bind .get fun _ =>
    keeps_failed _ _

theorem keeps_frameFlags : Keeps s₀ (readFrameFlags : HeaderParse P Unit) :=
  .bind (.alter fun _ h => h) fun _ => .bind (.into keeps_flag fun _ _ h => h) fun _ =>
    .bind .get fun _ => .bind (.into keeps_flag fun _ _ h => h) fun _ =>
    .bind (.into keeps_flag fun _ _ h => h) fun _ => .bind (.alter fun _ h => h) fun _ =>
    .bind (.alter fun _ h => h) fun _ => .bind .get fun _ =>
    .bind (keeps_failed _ _) fun _ => .alter fun _ h => h

theorem keeps_codes : Keeps s₀ (readCodes : HeaderParse P Bool) :=
  .bind (keeps_bits 8) fun _ => .bind (keeps_bits 8) fun _ => .bind (keeps_bits 8) fun _ => .pure _

theorem keeps_synccode : Keeps s₀ (readSynccode : HeaderParse P Bool) := by
  intro s hs
  rw [readSynccode]
  cases hcodes : readCodes s with
  | ok b s' => exact keeps_codes.ok hs hcodes
  | error e s' => exact (keeps_codes.error hs hcodes).1

theorem keeps_checkSynccode : Keeps s₀ (checkSynccode : HeaderParse P Unit) :=
  .bind keeps_synccode fun _ => keeps_failed _ _

theorem keepsAnd_bits (n : ℕ) :
    KeepsAnd s₀ (fun val s => Kept s₀ s ∧ val < 2 ^ n) (bitsField n : HeaderParse P ℕ) :=
  .bits (fun s hs => ⟨hs, noFault_label s⟩) n

/-- The bit depth is that of a row of the quantiser tables. -/
theorem keepsAnd_depth (profile : ℕ) :
    KeepsAnd s₀ (fun bits s => Kept s₀ s ∧ bits < 3) (readBits profile : HeaderParse P ℕ) := by
  rw [readBits]
  split_ifs
  · refine .bind (keepsAnd_bits 1) fun bits => .pure fun v hv => ?_
    exact ⟨hv.1, Nat.succ_lt_succ hv.2⟩
  · exact .pure fun v hv => ⟨hv, Nat.succ_pos 2⟩

theorem keeps_bitDepth :
    Keeps s₀ (readBitdepthColorspaceSampling : HeaderParse P MppFrameFormat) :=
  .bind .get fun _ => Meets.bindFact (keepsAnd_depth _) fun _ hbits =>
    Preserves.bind (.alter fun _ hs => ⟨{ hs.1 with bppIndex := hbits }, hs.2⟩) fun _ =>
    Meets.bindFact (keepsAnd_bits 3) fun _ hval =>
    Preserves.bind (keeps_orFault (isSome_entryAt hval)) fun _ =>
    .bind (.alter fun _ h => h) fun _ => .bind (keeps_failed _ _) fun _ =>
    .bind (.into keeps_flag fun _ _ h => h) fun _ => .pure _

/-! ### Sizes -/

theorem isSize_bits {val : ℕ} (h : val < 2 ^ 16) : IsSize (val + 1) :=
  ⟨Nat.succ_pos val, h⟩

theorem keepsAnd_frameSize : KeepsAnd s₀ (fun size s => Kept s₀ s ∧ IsSize size.1 ∧ IsSize size.2)
    (readFrameSize : HeaderParse P (ℕ × ℕ)) :=
  .bindFact (keepsAnd_bits 16) fun _ hw => .bindFact (keepsAnd_bits 16) fun _ hh =>
    .pure fun _ hv => ⟨hv, isSize_bits hw, isSize_bits hh⟩

theorem keeps_displaySize : Keeps s₀ (readDisplaySize : HeaderParse P Unit) :=
  keeps_ifFlag <| .bind (keeps_bits 16) fun _ => .bind (keeps_bits 16) fun _ => .pure _

/-- A program that gives the frame a size, with its format. -/
abbrev Sizes (s₀ : HeaderContext P) (p : HeaderParse P (ℕ × ℕ × MppFrameFormat)) : Prop :=
  KeepsAnd s₀ (fun size s => Kept s₀ s ∧ IsSize size.1 ∧ IsSize size.2.1) p

theorem sizes_keyframe : Sizes s₀ readKeyframe :=
  .after keeps_checkSynccode fun _ => .after keeps_bitDepth fun _ =>
    .after (.alter fun _ h => h) fun _ => .bindFact keepsAnd_frameSize fun _ hsize =>
    .after keeps_displaySize fun _ => .pure fun _ hv => ⟨hv, hsize⟩

theorem sizes_intraonly : Sizes s₀ readIntraonly :=
  .after keeps_checkSynccode fun _ =>
    .after (.alter fun _ hs => ⟨{ hs.1 with bppIndex := Nat.succ_pos 2 }, hs.2⟩) fun _ =>
    .after (.into (keeps_bits 8) fun _ _ h => h) fun _ =>
    .bindFact keepsAnd_frameSize fun _ hsize =>
    .after keeps_displaySize fun _ => .pure fun _ hv => ⟨hv, hsize⟩

/-! ### References -/

theorem keeps_ref (i : Fin 3) : Keeps s₀ (readRef i : HeaderParse P Unit) := by
  have hidx : Keeps s₀ (into (bitsField 3) fun val s => { s with
      refidx := Function.update s.refidx i val } : HeaderParse P Unit) := by
    refine .intoBits noFault_label fun val v hval hv => ⟨{ hv.1 with refidx := ?_ }, hv.2⟩
    exact (Function.forall_update_iff v.refidx (p := fun _ x => x < 8)).2
      ⟨hval, fun j _ => hv.1.refidx j⟩
  exact .bind hidx fun _ => .bind (.into keeps_flag fun _ _ h => h) fun _ =>
    .bindGet fun _ hs => .bind (keeps_orFault (isSome_entryAt (hs.1.refidx i))) fun _ => .pure _

theorem keepsAnd_sizeWithRefs (l : List (Fin 3)) : KeepsAnd s₀
    (fun found s => Kept s₀ s ∧ ∀ size, found = some size → size.1 ≤ 65536 ∧ size.2 ≤ 65536)
    (sizeWithRefs l : HeaderParse P (Option (ℕ × ℕ))) := by
  induction l with
  | nil => exact .pure fun v hv => ⟨hv, nofun⟩
  | cons i l ih =>
    refine .after keeps_flag fun val => ?_
    cases val with
    | false => exact ih
    | true =>
      refine .bindGet fun s hs => ?_
      rw [entryAt_eq (hs.1.refidx i), orFault_some, pure_bind]
      refine .pure fun v hv => ⟨hv, fun size hsize => ?_⟩
      obtain rfl := some.inj hsize
      exact hs.1.refs _

theorem keepsAnd_refSize : KeepsAnd s₀
    (fun size s => Kept s₀ s ∧ size.1 ≤ 65536 ∧ size.2 ≤ 65536)
    (readSizeWithRefs : HeaderParse P (ℕ × ℕ)) := by
  refine .bindFact (keepsAnd_sizeWithRefs _) fun found hfound => ?_
  cases found with
  | some size => exact .pure fun v hv => ⟨hv, hfound size rfl⟩
  | none => exact keepsAnd_frameSize.mono (fun _ h => h) fun _ _ h => ⟨h.1, h.2.1.2, h.2.2.2⟩

theorem isSome_scaleTo {ref size : ℕ} (href : ref ≤ 65536) (hsize : 0 < size) :
    (scaleTo ref size).isSome := by
  have hshift : ref <<< 14 < 2 ^ 32 := by
    rw [Nat.shiftLeft_eq]
    omega
  rw [scaleTo, shlU32, if_pos hshift, bind_eq_bind, bind_some, divU32,
    if_neg hsize.ne']
  rfl

theorem isSome_dimensionsInvalid {refw refh w h : ℕ} (hrefw : refw ≤ 65536) (hrefh : refh ≤ 65536)
    (hw : w ≤ 65536) (hh : h ≤ 65536) : (dimensionsInvalid refw refh w h).isSome := by
  have hmul : w * 2 < 2 ^ 32 ∧ h * 2 < 2 ^ 32 ∧ 16 * refw < 2 ^ 32 ∧ 16 * refh < 2 ^ 32 := by omega
  rw [dimensionsInvalid, mulU32, if_pos hmul.1, mulU32, if_pos hmul.2.1, mulU32, if_pos hmul.2.2.1,
    mulU32, if_pos hmul.2.2.2]
  rfl

/-- Neither the scale of a reference nor the check of its size overflows. -/
theorem keeps_mvscale {w h : ℕ} (hw : IsSize w) (hh : IsSize h) (fmt : MppFrameFormat) (i : Fin 3) :
    Keeps s₀ (setMvscale w h fmt i : HeaderParse P Unit) := by
  refine .bindGet fun s hs => ?_
  obtain ⟨hrefw, hrefh⟩ := hs.1.refs ⟨s.val.refidx i, hs.1.refidx i⟩
  obtain ⟨x, hx⟩ := isSome_iff_exists.1 (isSome_scaleTo hrefw hw.1)
  obtain ⟨y, hy⟩ := isSome_iff_exists.1 (isSome_scaleTo hrefh hh.1)
  obtain ⟨b, hb⟩ := isSome_iff_exists.1 (isSome_dimensionsInvalid hrefw hrefh hw.2 hh.2)
  have hscale : ∀ v, Kept s₀ v → Kept s₀ (v.withScale i x y) := fun _ h => h
  have hstep : ∀ v, Kept s₀ v → Kept s₀ (v.withStep i) := fun _ h => h
  rw [entryAt_eq (hs.1.refidx i), orFault_some, pure_bind, hx, hy, hb]
  simp only [orFault_some, pure_bind]
  split_ifs
  · exact .pure ()
  · exact .alter hscale
  · exact .bind (keeps_failed _ _) fun _ => .alter fun v hv => hstep _ (hscale v hv)

theorem keeps_interpFilter : Keeps s₀ (readInterpFilter : HeaderParse P Unit) := by
  refine .bind keeps_flag fun val => ?_
  split_ifs
  · exact .alter fun _ h => h
  · exact .into (keeps_bits 2) fun _ _ h => h

theorem sizes_inter : Sizes s₀ readInter := by
  refine .bindGet fun s _ => .after (.into (keeps_bits 8) fun _ _ h => h) fun _ =>
    .after (.loopOver keeps_ref _) fun _ => .bindFact keepsAnd_refSize fun size hsize => ?_
  have hzero : KeepsAnd s₀ (fun _ s => Kept s₀ s ∧ size.1 ≠ 0 ∧ size.2 ≠ 0)
      (whenever (size.1 = 0 ∨ size.2 = 0) (throw (.failed mppErrStream)) : HeaderParse P Unit) := by
    intro s hs
    by_cases hsize₀ : size.1 = 0 ∨ size.2 = 0
    · rw [whenever, if_pos (decide_eq_true hsize₀)]
      exact ⟨hs, fun h => by cases h⟩
    · rw [whenever, if_neg (by rwa [decide_eq_true_iff])]
      exact ⟨hs, not_or.1 hsize₀⟩
  refine .bindFact hzero fun _ hne => ?_
  have hw : IsSize size.1 := ⟨Nat.pos_of_ne_zero hne.1, hsize.1⟩
  have hh : IsSize size.2 := ⟨Nat.pos_of_ne_zero hne.2, hsize.2⟩
  exact .after (.alter fun _ h => h) fun _ => .after keeps_displaySize fun _ =>
    .after (.into keeps_flag fun _ _ h => h) fun _ => .after keeps_interpFilter fun _ =>
    .after (.loopOver (keeps_mvscale hw hh _) _) fun _ => .pure fun _ hv => ⟨hv, hw, hh⟩

theorem sizes_nonKeyframe : Sizes s₀ readNonKeyframe := by
  refine .after (.alter fun _ h => h) fun _ => .bindGet fun s _ =>
    .after (.whenever _ (.into keeps_flag fun _ _ h => h)) fun _ =>
    .after (.alter fun _ h => h) fun _ =>
    .after (.whenever _ (.into (keeps_bits 2) fun _ _ h => h)) fun _ => .bindGet fun s' _ => ?_
  split_ifs
  · exact sizes_intraonly
  · exact sizes_inter

theorem sizes_sizeAndFormat : Sizes s₀ readSizeAndFormat := by
  refine .bindGet fun s _ => ?_
  split_ifs
  · exact sizes_keyframe
  · exact sizes_nonKeyframe

/-! ### The frame -/

theorem keeps_context : Keeps s₀ (readContext : HeaderParse P Unit) := by
  have hflags : Keeps s₀ (readContextFlags : HeaderParse P Unit) := by
    refine .bindGet fun s _ => ?_
    split_ifs
    · exact .alter fun _ h => h
    · exact .bind (.into keeps_flag fun _ _ h => h) fun _ => .into keeps_flag fun _ _ h => h
  refine .bind hflags fun _ => .intoBits noFault_label fun val v hval hv => ?_
  exact ⟨{ hv.1 with frameContextIdx := hval }, hv.2⟩

theorem keeps_loopfilter : Keeps s₀ (readLoopfilter : HeaderParse P Unit) := by
  have hdeltas : ∀ s, Kept s₀ s → Kept s₀ (setDefaultDeltas s) := fun s hs => by
    rw [setDefaultDeltas]
    split_ifs <;> exact hs
  have href : ∀ i, Keeps s₀ (readRefDelta i : HeaderParse P Unit) := fun i =>
    keeps_ifFlag <| .into (keeps_sign 6) fun _ _ h => h
  have hmode : ∀ i, Keeps s₀ (readModeDelta i : HeaderParse P Unit) := fun i =>
    keeps_ifFlag <| .into (keeps_sign 6) fun _ _ h => h
  exact .bind (.alter hdeltas) fun _ => .bind (.into (keeps_bits 6) fun _ _ h => h) fun _ =>
    .bind (.into (keeps_bits 3) fun _ _ h => h) fun _ =>
    .bind (.into keeps_flag fun _ _ h => h) fun _ => .bindGet fun _ _ => .whenever _ <|
    .bind (.into keeps_flag fun _ _ h => h) fun _ => .bindGet fun _ _ => .whenever _ <|
    .bind (.loopOver href _) fun _ => .loopOver hmode _

theorem keeps_quantization : Keeps s₀ (readQuantization : HeaderParse P Unit) :=
  .bind (.into (keeps_bits 8) fun _ _ h => h) fun _ => .bind (.alter fun _ h => h) fun _ =>
    .bind (keeps_ifFlag <| .into (keeps_sign 4) fun _ _ h => h) fun _ =>
    .bind (.alter fun _ h => h) fun _ =>
    .bind (keeps_ifFlag <| .into (keeps_sign 4) fun _ _ h => h) fun _ =>
    .bind (.alter fun _ h => h) fun _ =>
    .bind (keeps_ifFlag <| .into (keeps_sign 4) fun _ _ h => h) fun _ => .alter fun _ h => h

theorem keeps_segmentationMap : Keeps s₀ (readSegmentationMap : HeaderParse P Unit) := by
  have htree : ∀ i, Keeps s₀ (readTreeProb i : HeaderParse P Unit) := fun i =>
    .bind (.alter fun _ h => h) fun _ => keeps_ifFlag <| .into (keeps_bits 8) fun _ _ h => h
  have hpred : ∀ i, Keeps s₀ (readPredProb i : HeaderParse P Unit) := fun i =>
    .bind (.alter fun _ h => h) fun _ => keeps_ifFlag <| .into (keeps_bits 8) fun _ _ h => h
  refine .bind (.loopOver htree _) fun _ => .bind (.into keeps_flag fun _ _ h => h) fun _ =>
    .bindGet fun s _ => ?_
  split_ifs
  · exact .loopOver hpred _
  · exact .alter fun _ h => h

theorem keeps_feature (i : Fin 8) : Keeps s₀ (readFeature i : HeaderParse P Unit) :=
  .bind (.into keeps_flag fun _ _ h => h) fun _ => .bindGet fun _ _ =>
    .bind (.whenever _ <| .into (keeps_sign 8) fun _ _ h => h) fun _ =>
    .bind (.into keeps_flag fun _ _ h => h) fun _ => .bindGet fun _ _ =>
    .bind (.whenever _ <| .into (keeps_sign 6) fun _ _ h => h) fun _ =>
    .bind (.into keeps_flag fun _ _ h => h) fun _ => .bindGet fun _ _ =>
    .bind (.whenever _ <| .into (keeps_bits 2) fun _ _ h => h) fun _ =>
    .into keeps_flag fun _ _ h => h

theorem keeps_segmentation : Keeps s₀ (readSegmentation : HeaderParse P Unit) := by
  refine .bind (.alter fun _ h => h) fun _ => .bind (.into keeps_flag fun _ _ h => h) fun _ =>
    .bindGet fun s _ => ?_
  split_ifs
  · exact .bind (.into keeps_flag fun _ _ h => h) fun _ => .bindGet fun _ _ =>
      .bind (.whenever _ keeps_segmentationMap) fun _ => keeps_ifFlag <|
      .bind (.into keeps_flag fun _ _ h => h) fun _ => .loopOver keeps_feature _
  · exact .alter fun _ h => h

/-- A value is clipped to a byte. -/
theorem clip_lt (val : ℤ) : mppClipUintPow2 val 8 < 256 := by
  rw [mppClipUintPow2]
  split_ifs with hin
  · rw [Int.shiftRight_eq_div_pow] at hin
    omega
  · omega
  · omega

theorem isSome_qlookup (t : Fin 3 → Fin 256 → ℤ) {bpp : ℕ} (hbpp : bpp < 3) (val : ℤ) :
    (qlookup t bpp (mppClipUintPow2 val 8)).isSome := by
  rw [qlookup, entryAt_eq hbpp, bind_eq_bind, bind_some]
  exact isSome_entryAt (clip_lt val)

theorem keeps_dequant (T : Vp9Tables P) (i : Fin 8) : Keeps s₀ (buildDequant T i) :=
  .bindGet fun _ hs =>
    .bind (keeps_orFault (isSome_qlookup _ hs.1.bppIndex _)) fun _ =>
    .bind (keeps_orFault (isSome_qlookup _ hs.1.bppIndex _)) fun _ =>
    .bind (keeps_orFault (isSome_qlookup _ hs.1.bppIndex _)) fun _ =>
    .bind (keeps_orFault (isSome_qlookup _ hs.1.bppIndex _)) fun _ => .alter fun _ h => h

theorem keeps_updateSize {w h : ℕ} (hw : IsSize w) (hh : IsSize h) (fmt : MppFrameFormat) :
    Keeps s₀ (alter (updateSize w h fmt) : HeaderParse P Unit) := by
  refine .alter fun s hs => ?_
  rw [updateSize]
  split_ifs
  · exact hs
  · exact ⟨{ hs.1 with width := hw.2, height := hh.2, sbCols := rfl }, hs.2⟩

end Steps

/-! ## Tiles -/

/-- The shift loses bits, and takes too few tiles as enough. -/
def RoundsDown (cols : ℕ) : Prop := ∃ k, cols >>> k = 64 ∧ 64 <<< k < cols

/-- No tile is wider than 64 blocks: the columns are not less than the least the specification
    has, the first `k` with `cols ≤ 64 <<< k`. -/
def WideAtMost (cols log2 : ℕ) : Prop := cols ≤ 64 <<< log2

/-- No tile is narrower than 4 blocks when there are several: the columns are not more than
    the specification has. -/
def WideAtLeast (cols log2 : ℕ) : Prop := log2 = 0 ∨ 4 ≤ cols >>> log2

theorem shiftUntil_spec {stop : ℕ → Bool} {cols fuel k r : ℕ}
    (h : shiftUntil stop cols fuel k = some r) :
    stop (cols >>> r) ∧ ∀ j, k ≤ j → j < r → ¬stop (cols >>> j) := by
  induction fuel generalizing k with
  | zero => cases h
  | succ fuel ih =>
    rw [shiftUntil] at h
    split_ifs at h with hstop
    · obtain rfl := some.inj h
      exact ⟨hstop, fun j hj hj' => absurd hj' (not_lt.2 hj)⟩
    · obtain ⟨hr, hbefore⟩ := ih h
      refine ⟨hr, fun j hj hjr => ?_⟩
      rcases Nat.eq_or_lt_of_le hj with rfl | hlt
      · exact hstop
      · exact hbefore j hlt hjr

theorem isSome_shiftUntil {stop : ℕ → Bool} {cols fuel k j : ℕ} (hj : k ≤ j) (hjf : j < k + fuel)
    (h : stop (cols >>> j)) : (shiftUntil stop cols fuel k).isSome := by
  induction fuel generalizing k with
  | zero => exact absurd hjf (not_lt.2 hj)
  | succ fuel ih =>
    rw [shiftUntil]
    split_ifs with hstop
    · rfl
    · have hne : k ≠ j := by
        rintro rfl
        exact hstop h
      exact ih (by omega) (by omega)

/-- The least shift that makes the columns few enough, with the bounds it is in. -/
theorem minLog2_spec {cols least : ℕ} (h : minLog2 cols = some least) :
    WideAtLeast cols least ∧ (¬RoundsDown cols → WideAtMost cols least) := by
  obtain ⟨hstop, hbefore⟩ := shiftUntil_spec h
  have hle : cols >>> least ≤ 64 := of_decide_eq_true hstop
  refine ⟨?_, fun hround => ?_⟩
  · rcases Nat.eq_zero_or_pos least with hzero | hpos
    · exact .inl hzero
    · -- with one shift less there are more than 64
      have hprev : ¬(cols >>> (least - 1) ≤ 64) := fun hprev =>
        hbefore (least - 1) (Nat.zero_le _) (Nat.sub_lt hpos Nat.one_pos) (decide_eq_true hprev)
      have hshift : cols >>> least = cols >>> (least - 1) / 2 := by
        rw [← Nat.shiftRight_succ, Nat.sub_one_add_one hpos.ne']
      exact .inr (by omega)
  · rw [WideAtMost]
    rcases Nat.eq_or_lt_of_le hle with heq | hlt
    · exact not_lt.1 fun hlt => hround ⟨least, heq, hlt⟩
    · rw [Nat.shiftRight_eq_div_pow, Nat.div_lt_iff_lt_mul (Nat.two_pow_pos _)] at hlt
      rw [Nat.shiftLeft_eq]
      exact hlt.le

theorem maxLog2_spec {cols most : ℕ} (h : maxLog2 cols = some most) : WideAtLeast cols most := by
  obtain ⟨r, hr, rfl⟩ := map_eq_some_iff.1 h
  obtain ⟨-, hbefore⟩ := shiftUntil_spec hr
  rcases Nat.eq_zero_or_pos (r - 1) with hzero | hpos
  · exact .inl hzero
  · have hprev := hbefore (r - 1) (Nat.zero_le _) (by omega)
    exact .inr (by simpa using hprev)

theorem isSome_log2 {cols : ℕ} (h : cols ≤ 1024) :
    (minLog2 cols).isSome ∧ (maxLog2 cols).isSome := by
  have hshift : cols >>> 10 < 4 := by
    rw [Nat.shiftRight_eq_div_pow]
    omega
  rw [maxLog2, isSome_map]
  exact ⟨isSome_shiftUntil (Nat.zero_le 10) (by omega) (decide_eq_true (by omega)),
    isSome_shiftUntil (Nat.zero_le 10) (by omega) (decide_eq_true hshift)⟩

theorem WideAtLeast.mono {cols k j : ℕ} (h : WideAtLeast cols k) (hj : j ≤ k) :
    WideAtLeast cols j := by
  rcases h with rfl | h
  · exact .inl (Nat.le_zero.1 hj)
  · refine .inr (h.trans ?_)
    rw [Nat.shiftRight_eq_div_pow, Nat.shiftRight_eq_div_pow]
    exact Nat.div_le_div_left (Nat.pow_le_pow_right Nat.two_pos hj) (Nat.two_pow_pos j)

theorem WideAtMost.mono {cols k j : ℕ} (h : WideAtMost cols k) (hj : k ≤ j) :
    WideAtMost cols j := by
  rw [WideAtMost, Nat.shiftLeft_eq] at h ⊢
  exact h.trans (Nat.mul_le_mul_left 64 (Nat.pow_le_pow_right Nat.two_pos hj))

section Tiles

variable {s₀ : HeaderContext P}

/-- Kept, with `log2_tile_cols` between two bounds. -/
def Between (s₀ : HeaderContext P) (cols lo hi : ℕ) (s : HeaderContext P) : Prop :=
  Kept s₀ s ∧ s.sbCols = cols ∧ lo ≤ s.tiling.log2TileCols ∧ s.tiling.log2TileCols ≤ hi

theorem meets_tileCols (cols lo n hi : ℕ) :
    Meets (Between s₀ cols lo hi) (fun e s => Kept s₀ s.val ∧ NoFault e s)
      (fun _ => Between s₀ cols lo (hi + n)) (readTileCols n : HeaderParse P Unit) := by
  induction n generalizing hi with
  | zero => exact .pure fun v hv => hv
  | succ n ih =>
    refine .bind (keeps_flag.weaken fun _ h => h.1) fun flag => ?_
    cases flag with
    | false =>
      exact .pure fun v hv => ⟨hv.1, hv.2.1, hv.2.2.1, hv.2.2.2.trans (Nat.le_add_right _ _)⟩
    | true =>
      have hmore : ∀ v, Between s₀ cols lo hi v → Between s₀ cols lo (hi + 1) { v with
          tiling := { v.tiling with log2TileCols := v.tiling.log2TileCols + 1 } } := fun v hv =>
        ⟨hv.1, hv.2.1, hv.2.2.1.trans (Nat.le_succ _), Nat.succ_le_succ hv.2.2.2⟩
      refine Meets.bind (Q := fun _ => Between s₀ cols lo (hi + 1)) (.alter hmore) fun _ => ?_
      exact (ih (hi + 1)).mono (fun _ h => h) fun _ v hv => Nat.add_right_comm hi n 1 ▸ hv

/-- The tile columns are in the bounds of the specification. -/
def TilesFit (s : HeaderContext P) : Prop :=
  WideAtLeast s.sbCols s.tiling.log2TileCols ∧
    (¬RoundsDown s.sbCols → WideAtMost s.sbCols s.tiling.log2TileCols)

theorem keeps_tileRows : Preserves (fun v => Kept s₀ v ∧ TilesFit v) NoFault
    (readTileRows : HeaderParse P Unit) :=
  .bind (.into (keeps_bits 1) fun _ _ h => h) fun _ => .bindGet fun _ _ => .whenever _ <|
    .into (keeps_bits 1) fun _ _ h => h

theorem keeps_setTileCols (room : Bool) : Preserves (fun v => Kept s₀ v ∧ TilesFit v) NoFault
    (setTileCols room : HeaderParse P Unit) := by
  have hgrow : ∀ v, Kept s₀ v ∧ TilesFit v → Kept s₀ (growReaders room v) ∧
      TilesFit (growReaders room v) := fun v hv => by
    rw [growReaders]
    split_ifs <;> exact hv
  exact .bindGet fun _ _ => .whenever _ <| .bind (.alter fun v hv => hgrow _ hv) fun _ =>
    .bindGet fun _ _ => keeps_failed _ _

theorem keepsAnd_tiles (room : Bool) :
    KeepsAnd s₀ (fun _ s => Kept s₀ s ∧ TilesFit s) (readTiles room : HeaderParse P Unit) := by
  refine .bindGetEq fun s hs => ?_
  have hcols : s.val.sbCols ≤ 1024 := by
    have hw := hs.1.width
    rw [hs.1.sbCols, Nat.shiftRight_eq_div_pow]
    omega
  obtain ⟨hmin, hmax⟩ := isSome_log2 hcols
  obtain ⟨least, hleast⟩ := isSome_iff_exists.1 hmin
  obtain ⟨most, hmost⟩ := isSome_iff_exists.1 hmax
  have hfit : ∀ v, Between s₀ s.val.sbCols least (least + (most - least)) v →
      Kept s₀ v ∧ TilesFit v := by
    rintro v ⟨hv, hcols, hlo, hhi⟩
    obtain ⟨hatLeast, hatMost⟩ := minLog2_spec hleast
    refine ⟨hv, ?_, fun hround => ?_⟩
    · rw [hcols]
      rcases le_total least most with hle | hle
      · exact (maxLog2_spec hmost).mono (by omega)
      · exact hatLeast.mono (by omega)
    · rw [hcols] at hround ⊢
      exact (hatMost hround).mono hlo
  have hkeep : ∀ v, Kept s₀ v ∧ TilesFit v → Kept s₀ v := fun _ h => h.1
  have hstart : ∀ v, v = s.val → Between s₀ s.val.sbCols least least
      { v with tiling := { v.tiling with log2TileCols := least } } := by
    rintro v rfl
    exact ⟨hs, rfl, le_rfl, le_rfl⟩
  rw [hleast, orFault_some, pure_bind, hmost, orFault_some]
  refine Meets.bind (Q := fun _ => Between s₀ s.val.sbCols least least) (.alter hstart) fun _ => ?_
  rw [pure_bind]
  exact .bind ((meets_tileCols _ _ _ _).mono (fun _ h => h) fun _ => hfit) fun _ =>
    .bind (keeps_tileRows.weaken hkeep) fun _ => .bind (.alter fun _ h => h) fun _ =>
    (keeps_setTileCols room).weaken hkeep

/-- Whatever its bits are, all of a header but its end is read without a fault. It leaves the
    contexts and the references as they were. -/
theorem kept_frameHeader (T : Vp9Tables P) (room : Bool) :
    KeepsAnd s₀ (fun _ s => Kept s₀ s ∧ TilesFit s) (readFrameHeader T room) :=
  .after keeps_frameFlags fun _ => .bindFact sizes_sizeAndFormat fun _ hsize =>
    .after keeps_context fun _ => .after keeps_loopfilter fun _ =>
    .after keeps_quantization fun _ => .after keeps_segmentation fun _ => .bindGet fun _ _ =>
    .after (.loopOver (keeps_dequant T) _) fun _ =>
    .after (keeps_updateSize hsize.1 hsize.2 _) fun _ => keepsAnd_tiles room

/-- A frame to show is one of the references. -/
theorem kept_headerStart (T : Vp9Tables P) (room : Bool) : KeepsAnd s₀
    (fun refo s => Kept s₀ s ∧ refo.elim (TilesFit s) (· < 8)) (readHeaderStart T room) := by
  refine .after keeps_profile fun _ => .after (.into keeps_flag fun _ _ h => h) fun _ =>
    .bindGet fun s _ => ?_
  split_ifs
  · exact .bindFact (keepsAnd_bits 3) fun refo hrefo => .pure fun _ hv => ⟨hv, hrefo⟩
  · exact .bind (kept_frameHeader T room) fun _ => .pure fun _ hv => hv

end Tiles

/-! ## The end of a header -/

section End

variable {T : Vp9Tables P} {s₀ : HeaderContext P}

theorem setFrameContext_spec (hs : InRange s₀) : ∃ r, setFrameContext T s₀ = some r ∧
    InRange r ∧ r.refs = s₀.refs ∧ (TilesFit s₀ → TilesFit r) := by
  have hstart : (startContexts T s₀).isSome := by
    rw [startContexts, dif_pos hs.frameContextIdx]
    split_ifs <;> rfl
  have hidx : (if s₀.keyframe || s₀.errorResMode || s₀.intraonly then 0
      else s₀.frameContextIdx) < 4 := by
    split_ifs
    · exact Nat.succ_pos 3
    · exact hs.frameContextIdx
  obtain ⟨probCtx, hprob⟩ := isSome_iff_exists.1 hstart
  rw [setFrameContext, hprob]
  exact ⟨_, rfl, { hs with frameContextIdx := hidx }, rfl, id⟩

/-- The contexts are set, and stay so, whether the size of the compressed header is right or
    not. -/
theorem endFrameHeader_spec (size : ℕ) (hs : InRange s₀) (ht : TilesFit s₀) :
    ∃ r, setFrameContext T s₀ = some r ∧ r.refs = s₀.refs ∧
      Meets (· = s₀) (fun e s => Kept r s.val ∧ NoFault e s) (fun _ v => Kept r v ∧ TilesFit v)
        (endFrameHeader T size) := by
  obtain ⟨r, hr, hrange, hrefs, htiles⟩ := setFrameContext_spec (T := T) hs
  refine ⟨r, hr, hrefs, .bindGetEq fun s hs => ?_⟩
  have hset : ∀ v, v = s.val → Kept r r ∧ TilesFit r := fun _ _ => ⟨⟨hrange, rfl, rfl⟩, htiles ht⟩
  have hrest : Preserves (fun v => Kept r v ∧ TilesFit v) NoFault (do
      into (bitsField 16) fun val s => { s with firstPartitionSize := val }
      let alignedData ← alignGetBits
      alter fun s => { s with uncompressHeadSizeInByte := size - alignedData.length }
      let s ← get
      whenever (s.val.firstPartitionSize > size - s.val.uncompressHeadSizeInByte)
        (throw (.failed mppErrStream)) : HeaderParse P Unit) :=
    .bind (.into (keeps_bits 16) fun _ _ h => h) fun _ => .bind (fun _ h => h) fun _ =>
    .bind (.alter fun _ h => h) fun _ => .bindGet fun _ _ => keeps_failed _ _
  rw [hs, hr, orFault_some, pure_bind, ← hs]
  exact .bind (.alter hset) fun _ => hrest.weaken fun _ h => h.1

/-- Whatever its bits are, a header that is read to its end leaves the references as they were,
    with its tiles in bounds, or shows one of them. -/
theorem header_ok {size : ℕ} {room : Bool} {s s' : Cursor (HeaderContext P)} {refo : Option ℕ}
    (hs : InRange s.val) (h : readUncompressedHeader T size room s = .ok refo s') :
    InRange s'.val ∧ s'.val.refs = s.val.refs ∧ refo.elim (TilesFit s'.val) (· < 8) := by
  have hstart : KeepsAnd s.val _ (readHeaderStart T room) := kept_headerStart T room
  obtain ⟨refo', s₁, hcase, hnext⟩ := ok_of_bind h
  obtain ⟨⟨hrange, -, hrefs⟩, hrefo⟩ := hstart.ok ⟨hs, rfl, rfl⟩ hcase
  obtain ⟨_, s₂, hend, hpure⟩ := ok_of_bind hnext
  obtain ⟨rfl, rfl⟩ := EStateM.Result.ok.inj hpure
  cases refo' with
  | some refo =>
    obtain ⟨-, rfl⟩ := EStateM.Result.ok.inj hend
    exact ⟨hrange, hrefs, hrefo⟩
  | none =>
    obtain ⟨r, -, hrrefs, hmeets⟩ := endFrameHeader_spec (T := T) size hrange hrefo
    obtain ⟨⟨hrange₂, -, hrefs₂⟩, htiles⟩ := hmeets.ok rfl hend
    exact ⟨hrange₂, hrefs₂.trans (hrrefs.trans hrefs), htiles⟩

/-- Nor is it a fault, whatever its bits are. An error leaves the references as they were, and
    the contexts, too, unless it is at the end of the header, after they were set. -/
theorem header_error {size : ℕ} {room : Bool} {s s' : Cursor (HeaderContext P)} {e : HeaderStop}
    (hs : InRange s.val) (h : readUncompressedHeader T size room s = .error e s') :
    e ≠ .fault ∧ InRange s'.val ∧ s'.val.refs = s.val.refs ∧
      (s'.val.probCtx = s.val.probCtx ∨ ∃ s₁ r, readHeaderStart T room s = .ok none s₁ ∧
        setFrameContext T s₁.val = some r ∧ s'.val.probCtx = r.probCtx) := by
  have hstart : KeepsAnd s.val _ (readHeaderStart T room) := kept_headerStart T room
  rw [readUncompressedHeader] at h
  cases hcase : readHeaderStart T room s with
  | error e₁ s₁ =>
    rw [bind_of_error hcase] at h
    obtain ⟨rfl, rfl⟩ := EStateM.Result.error.inj h
    obtain ⟨⟨hrange, hprob, hrefs⟩, hfault⟩ := hstart.error ⟨hs, rfl, rfl⟩ hcase
    exact ⟨hfault, hrange, hrefs, .inl hprob⟩
  | ok refo s₁ =>
    rw [bind_of_ok hcase] at h
    obtain ⟨⟨hrange, -, hrefs⟩, hrefo⟩ := hstart.ok ⟨hs, rfl, rfl⟩ hcase
    cases refo with
    | some refo => cases h
    | none =>
      obtain ⟨r, hr, hrrefs, hmeets⟩ := endFrameHeader_spec (T := T) size hrange hrefo
      have hmeets' := hmeets.bind (R := fun _ v => Kept r v) fun _ =>
        Meets.pure (a := (none : Option ℕ)) fun _ hv => hv.1
      obtain ⟨⟨hrange₂, hprob, hrefs₂⟩, hfault⟩ := hmeets'.error rfl h
      exact ⟨hfault, hrange₂, hrefs₂.trans (hrrefs.trans hrefs), .inr ⟨s₁, r, rfl, hr, hprob⟩⟩

end End

/-! ## Every run -/

section Runs

variable {T : Vp9Tables P} {s s' : HeaderContext P}

theorem InRange.saveProb (hs : InRange s) (refresh : Bool) (prob : P) :
    ∃ s', saveProb refresh prob s = some s' ∧ InRange s' := by
  rw [Vp9d.saveProb, dif_pos hs.frameContextIdx]
  split_ifs
  · exact ⟨_, rfl, hs⟩
  · exact ⟨s, rfl, hs⟩

/-- A new frame has the size of its header. -/
theorem InRange.refreshFrames (hs : InRange s) (prob : P) :
    ∃ s', refreshFrames prob s = some s' ∧ InRange s' := by
  have hcur : InRange { s with
      curFrame := { width := s.width, height := s.height, fmt := s.pixFmt } } := hs
  obtain ⟨s₁, hsave, hs₁⟩ := hcur.saveProb (s.refreshFrameContext && s.frameParallelMode) prob
  refine ⟨_, congrArg (Option.bind · _) hsave, { hs₁ with refs := fun i => ?_ }⟩
  dsimp only
  split_ifs
  · exact ⟨hs.width, hs.height⟩
  · exact hs₁.refs i

/-- No packet is a fault. -/
theorem InRange.parserFrame (hs : InRange s) (pkt : HeaderPacket P) :
    ∃ s', parserFrame T s pkt = some s' ∧ InRange s' := by
  rw [Vp9d.parserFrame]
  by_cases hdata : pkt.data = []
  · exact ⟨s, if_pos hdata, hs⟩
  rw [if_neg hdata]
  cases hheader : pkt.header T s with
  | error e s₁ =>
    obtain ⟨hfault, hs₁, -⟩ := header_error (s := pkt.start s) hs hheader
    cases e with
    | fault => exact absurd rfl hfault
    | bitreadErr => exact ⟨s₁.val, rfl, hs₁⟩
    | failed ret => exact ⟨s₁.val, rfl, hs₁⟩
  | ok refo s₁ =>
    obtain ⟨hs₁, hrefs, hrefo⟩ := header_ok (s := pkt.start s) hs hheader
    cases refo with
    | some refo =>
      dsimp only
      rw [entryAt_eq hrefo]
      exact ⟨s₁.val, rfl, hs₁⟩
    | none =>
      dsimp only
      split_ifs
      · exact ⟨s₁.val, rfl, hs₁⟩
      · exact hs₁.refreshFrames pkt.prob

theorem InRange.headerStep (hs : InRange s) (a : HeaderAction P) :
    ∃ s', headerStep T s a = some s' ∧ InRange s' := by
  cases a with
  | packet pkt => exact hs.parserFrame pkt
  | update prob => exact hs.saveProb _ prob
  | reset => exact ⟨_, rfl, { hs with refs := fun i => hs.refs i }⟩

/-- What the headers need holds whenever the decoder is between two packets. -/
theorem inRange_of_reachable {noProb : P} (hs : (headerMachine T noProb).Reachable s) :
    InRange s := by
  refine hs.invariant (P := InRange) (fun s hinit => ?_) fun s a s' _ hs hstep => ?_
  · rw [show s = _ from hinit]
    exact ⟨fun _ => ⟨Nat.zero_le _, Nat.zero_le _⟩, fun _ => Nat.succ_pos 7, Nat.succ_pos 2,
      Nat.succ_pos 3, Nat.zero_le _, Nat.zero_le _, show 0 = (0 + 63) >>> 6 by decide⟩
  · obtain ⟨s₁, hstep₁, hs₁⟩ := hs.headerStep (T := T) a
    obtain rfl := some.inj (hstep₁.symm.trans hstep)
    exact hs₁

/-- In every run and for every packet, the header is read without a fault; one that is read to
    its end has its tile columns in the bounds of the specification, as far as the least ones
    are found without rounding; and an error leaves the references as they were, with the
    contexts, unless it is the size of the compressed header, which is read after they were
    set. -/
theorem header_safe {noProb : P} (hs : (headerMachine T noProb).Reachable s)
    (pkt : HeaderPacket P) :
    (∀ s', pkt.header T s ≠ .error .fault s') ∧
    (∀ s', pkt.header T s = .ok none s' →
      s'.val.sbCols = (s'.val.width + 63) / 64 ∧
      WideAtLeast s'.val.sbCols s'.val.tiling.log2TileCols ∧
      (¬RoundsDown s'.val.sbCols → WideAtMost s'.val.sbCols s'.val.tiling.log2TileCols)) ∧
    ∀ e s', pkt.header T s = .error e s' → s'.val.refs = s.refs ∧
      (s'.val.probCtx = s.probCtx ∨
        ∃ s₁ r, readHeaderStart T pkt.room (pkt.start s) = .ok none s₁ ∧
          setFrameContext T s₁.val = some r ∧ s'.val.probCtx = r.probCtx) := by
  have hrange := inRange_of_reachable hs
  refine ⟨fun s' h => ?_, fun s' h => ?_, fun e s' h => ?_⟩
  · exact (header_error (s := pkt.start s) hrange h).1 rfl
  · obtain ⟨hrange', -, htiles⟩ := header_ok (s := pkt.start s) hrange h
    exact ⟨hrange'.sbCols.trans (Nat.shiftRight_eq_div_pow _ 6), htiles⟩
  · exact (header_error (s := pkt.start s) hrange h).2.2

end Runs

/-- Tables with probabilities that can be told from those before. -/
def plainTables : Vp9Tables ℕ where
  dcQlookup := fun _ _ => 0
  acQlookup := fun _ _ => 0
  defaultProbs := 1

/-- A key frame, with the highest bits of its width in `b` and `n` zero bytes behind it. -/
def keyFrame (b : UInt8) (n : ℕ) : HeaderPacket ℕ where
  data := [0x83, 0x49, 0x83, 0x42, b] ++ List.replicate n 0
  room := true
  compressed := mppOk
  prob := 0

/-- What a header that is read to its end comes to. -/
def readTo {α : Type} (f : HeaderContext ℕ → α) :
    EStateM.Result HeaderStop (Cursor (HeaderContext ℕ)) (Option ℕ) → Option (Option ℕ × α)
  | .ok refo s => some (refo, f s.val)
  | .error _ _ => none

/-- What a header with an error leaves. -/
def leftBy {α : Type} (f : HeaderContext ℕ → α) :
    EStateM.Result HeaderStop (Cursor (HeaderContext ℕ)) (Option ℕ) → Option (HeaderStop × α)
  | .ok _ _ => none
  | .error e s => some (e, f s.val)

/-- A frame of one block has one tile. -/
theorem header_safe_block : ∃ s', (keyFrame 0x20 9).header plainTables { probCtx := fun _ => 0 } =
    .ok none s' ∧ s'.val.sbCols = 1 ∧ WideAtMost s'.val.sbCols s'.val.tiling.log2TileCols := by
  have hread : readTo HeaderContext.sbCols
      ((keyFrame 0x20 9).header plainTables { probCtx := fun _ => 0 }) = some (none, 1) := by
    decide +kernel
  have hr : (headerMachine plainTables 0).Reachable { probCtx := fun _ => 0 } := .init rfl
  have hsafe := header_safe hr (keyFrame 0x20 9)
  cases hheader : (keyFrame 0x20 9).header plainTables { probCtx := fun _ => 0 } with
  | error e s' =>
    rw [hheader] at hread
    cases hread
  | ok refo s' =>
    rw [hheader] at hread
    obtain ⟨rfl, hcols⟩ := Prod.mk.inj (some.inj hread)
    refine ⟨s', rfl, hcols, (hsafe.2.1 s' hheader).2.2 ?_⟩
    rintro ⟨k, hk, -⟩
    rw [hcols, Nat.shiftRight_eq_div_pow] at hk
    have hle := Nat.div_le_self 1 (2 ^ k)
    omega

/-- In 129 columns of blocks the tiles are taken to be wide enough when there are two, of 64
    and 65. Of a key frame without the size of the compressed header, the contexts are reset. -/
theorem header_unsafe :
    readTo (fun s => (s.sbCols, s.tiling.log2TileCols))
        ((keyFrame 0x22 9).header plainTables { probCtx := fun _ => 0 }) = some (none, 129, 1) ∧
      ¬WideAtMost 129 1 ∧
      leftBy (fun s => s.probCtx 0)
        ((keyFrame 0x22 7).header plainTables { probCtx := fun _ => 0 }) =
        some (.bitreadErr, 1) := by
  refine ⟨by decide +kernel, by rw [WideAtMost]; decide, by decide +kernel⟩

end Libmpp.Vp9d
