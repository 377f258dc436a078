import Libmpp.H265d.SliceRel

/-!
# Picture order counts

The order count of a picture is coded by its low bits: it is the one number with these bits
around the count of the last picture of temporal id 0 that others may be derived from
(`IsPoc`). The decoder keeps that count in `pocTid0`, and derives the next one with the
remainder of `%`, which is below zero when the count is: when the low bits are then more than
one and a half times their range away, the result is one range too large (`computePoc_iff`).

A run is the list of the slice headers that were read (`PocRun`), newest first. What the
decoder does otherwise leaves the counts alone: it is at the end of the run of the headers that
are written down while it is at work (`Reachable.pocRun`). A header that is rejected behind its
reference picture set has set `pocTid0` before.
-/

namespace Libmpp.H265d

/-! ## One order count -/

/-- The order count `q` has the low bits `lsb`, and is around `prev`. -/
structure IsPoc (maxPocLsb prev lsb q : ℤ) : Prop where
  modEq : q ≡ lsb [ZMOD maxPocLsb]
  lt : prev - maxPocLsb / 2 < q
  le : q ≤ prev + maxPocLsb / 2

/-- The numbers of an `RK_S32`. -/
def FitsS32 (x : ℤ) : Prop := -2 ^ 31 ≤ x ∧ x < 2 ^ 31

/-- The low bits are more than one and a half times their range away from those of a count
    below zero. -/
def FarBelowZero (maxPocLsb prev lsb : ℤ) : Prop :=
  prev < 0 ∧ 3 * maxPocLsb < 2 * (lsb + -prev % maxPocLsb)

instance (maxPocLsb prev lsb : ℤ) : Decidable (FarBelowZero maxPocLsb prev lsb) :=
  inferInstanceAs (Decidable (_ ∧ _))

/-- The count that `mpp_hevc_compute_poc` computes, before it is wrapped. -/
def exactPoc (s : HEVCContext) (maxPocLsb pocLsb : ℤ) : ℤ :=
  let prevPocLsb := s.pocTid0.tmod maxPocLsb
  let prevPocMsb := s.pocTid0 - prevPocLsb
  let pocMsb :=
    if s.nalUnitType.isBla then 0
    else if pocLsb < prevPocLsb ∧ prevPocLsb - pocLsb ≥ maxPocLsb / 2 then prevPocMsb + maxPocLsb
    else if pocLsb > prevPocLsb ∧ pocLsb - prevPocLsb > maxPocLsb / 2 then prevPocMsb - maxPocLsb
    else prevPocMsb
  pocMsb + pocLsb

theorem computePoc_eq (s : HEVCContext) (maxPocLsb pocLsb : ℤ) :
    computePoc s maxPocLsb pocLsb = wrap32 (exactPoc s maxPocLsb pocLsb) := by
  rw [computePoc, exactPoc]
  dsimp only [wrap32]
  split_ifs
  · rfl
  · rw [Int.bmod_add_bmod, add_assoc, Int.bmod_add_bmod, ← add_assoc]
  · rw [Int.bmod_add_bmod, sub_eq_add_neg _ maxPocLsb, sub_eq_add_neg _ maxPocLsb, add_assoc,
      Int.bmod_add_bmod, ← add_assoc]
  · rw [Int.bmod_add_bmod]

theorem IsPoc.eq {maxPocLsb prev lsb q q' : ℤ} (h : IsPoc maxPocLsb prev lsb q)
    (h' : IsPoc maxPocLsb prev lsb q') : q = q' := by
  have hlt := h.lt
  have hle := h.le
  have hlt' := h'.lt
  have hle' := h'.le
  have hdvd : maxPocLsb ∣ q - q' := (h'.modEq.trans h.modEq.symm).dvd
  refine sub_eq_zero.1 (Int.eq_zero_of_abs_lt_dvd hdvd ?_)
  rw [abs_lt]
  omega

/-- The remainder of `%` has the sign of the count. -/
theorem tmod_cases {m : ℤ} (hm : 0 < m) (prev : ℤ) :
    (∃ k, prev - prev.tmod m = m * k) ∧
      (0 ≤ prev → 0 ≤ prev.tmod m ∧ prev.tmod m < m) ∧
      (prev < 0 → prev.tmod m = -(-prev % m) ∧ 0 ≤ -prev % m ∧ -prev % m < m) := by
  refine ⟨⟨prev.tdiv m, ?_⟩, fun h => ?_, fun h => ?_⟩
  · rw [sub_eq_iff_eq_add]
    exact (Int.mul_tdiv_add_tmod prev m).symm
  · exact ⟨Int.tmod_nonneg m h, Int.tmod_lt_of_pos prev hm⟩
  · have hneg : prev.tmod m = -(-prev).tmod m := by rw [Int.neg_tmod, neg_neg]
    rw [hneg, Int.tmod_eq_emod_of_nonneg (by omega)]
    exact ⟨rfl, Int.emod_nonneg _ hm.ne', Int.emod_lt_of_pos _ hm⟩

/-- The count that is computed, or the one a range below it, has the low bits and is around the
    last one. -/
theorem exactPoc_isPoc {s : HEVCContext} {half lsb : ℤ} (hhalf : 0 < half)
    (hbla : s.nalUnitType.isBla = false) (hlsb : 0 ≤ lsb) (hlt : lsb < 2 * half) :
    IsPoc (2 * half) s.pocTid0 lsb (exactPoc s (2 * half) lsb -
      if FarBelowZero (2 * half) s.pocTid0 lsb then 2 * half else 0) := by
  obtain ⟨⟨k, hk⟩, hpos, hneg⟩ := tmod_cases (m := 2 * half) (by omega) s.pocTid0
  have hdiv : 2 * half / 2 = half := by omega
  -- the count is a number of ranges away from the low bits
  obtain ⟨j, hj⟩ : ∃ j, exactPoc s (2 * half) lsb -
      (if FarBelowZero (2 * half) s.pocTid0 lsb then 2 * half else 0) = lsb + 2 * half * j := by
    rw [exactPoc, hbla, hk, if_neg Bool.false_ne_true]
    split_ifs
    · exact ⟨k, by ring⟩
    · exact ⟨k + 1, by ring⟩
    · exact ⟨k - 2, by ring⟩
    · exact ⟨k - 1, by ring⟩
    · exact ⟨k - 1, by ring⟩
    · exact ⟨k, by ring⟩
  have hnear : s.pocTid0 - half < exactPoc s (2 * half) lsb -
      (if FarBelowZero (2 * half) s.pocTid0 lsb then 2 * half else 0) ∧
      exactPoc s (2 * half) lsb -
        (if FarBelowZero (2 * half) s.pocTid0 lsb then 2 * half else 0) ≤ s.pocTid0 + half := by
    rw [exactPoc, hbla, hdiv, if_neg Bool.false_ne_true]
    by_cases hfar : FarBelowZero (2 * half) s.pocTid0 lsb
    · rw [if_pos hfar]
      rw [FarBelowZero] at hfar
      split_ifs <;> omega
    · rw [if_neg hfar]
      rw [FarBelowZero] at hfar
      split_ifs <;> omega
  refine ⟨?_, ?_, ?_⟩
  · rw [hj]
    exact (Int.modEq_iff_add_fac.2 ⟨j, rfl⟩).symm
  · rw [hdiv]
    exact hnear.1
  · rw [hdiv]
    exact hnear.2

theorem fitsS32_wrap32 (x : ℤ) : FitsS32 (wrap32 x) := by
  have hle := Int.le_bmod (x := x) (m := 2 ^ 32) (by decide)
  have hlt := Int.bmod_lt (x := x) (m := 2 ^ 32) (by decide)
  exact ⟨hle, hlt⟩

theorem FitsS32.wrap32 {x : ℤ} (h : FitsS32 x) : wrap32 x = x := by
  obtain ⟨hle, hlt⟩ := h
  exact Int.bmod_eq_of_le hle hlt

/-- There is no count around the last one when there are no low bits. -/
theorem not_isPoc_one {prev lsb q : ℤ} : ¬IsPoc 1 prev lsb q := by
  intro h
  have hlt := h.lt
  have hle := h.le
  omega

/-- The count that is computed has the low bits and is around the last one, when there is such
    a one and the low bits are not too far from those of a count below zero. -/
theorem isPoc_exactPoc {s : HEVCContext} {bits : ℕ} {lsb q : ℤ}
    (hbla : s.nalUnitType.isBla = false) (hlsb : 0 ≤ lsb) (hlt : lsb < 2 ^ bits)
    (hq : IsPoc (2 ^ bits) s.pocTid0 lsb q) (hfar : ¬FarBelowZero (2 ^ bits) s.pocTid0 lsb) :
    IsPoc (2 ^ bits) s.pocTid0 lsb (exactPoc s (2 ^ bits) lsb) := by
  cases bits with
  | zero => exact absurd hq not_isPoc_one
  | succ bits =>
    rw [pow_succ'] at hlt hfar ⊢
    have hpoc := exactPoc_isPoc (by positivity) hbla hlsb hlt
    rwa [if_neg hfar, sub_zero] at hpoc

/-- The count is the one with the low bits around the last one, exactly when there is such a
    one, and the low bits are not too far from those of a count below zero. -/
theorem computePoc_iff {s : HEVCContext} {bits : ℕ} {lsb : ℤ} (hbits : bits ≤ 16)
    (hbla : s.nalUnitType.isBla = false) (hlsb : 0 ≤ lsb) (hlt : lsb < 2 ^ bits) :
    (∀ q, IsPoc (2 ^ bits) s.pocTid0 lsb q ↔ q = computePoc s (2 ^ bits) lsb) ↔
      (∃ q, IsPoc (2 ^ bits) s.pocTid0 lsb q ∧ FitsS32 q) ∧
        ¬FarBelowZero (2 ^ bits) s.pocTid0 lsb := by
  constructor
  · intro h
    have hself := (h _).2 rfl
    rw [computePoc_eq] at hself
    refine ⟨⟨_, hself, fitsS32_wrap32 _⟩, fun hfar => ?_⟩
    cases bits with
    | zero => exact not_isPoc_one hself
    | succ bits =>
      rw [pow_succ'] at hlt hself hfar
      have hpoc := exactPoc_isPoc (by positivity) hbla hlsb hlt
      rw [if_pos hfar] at hpoc
      -- the count would be wrapped by one range of the low bits
      have hdvd := Int.dvd_self_sub_bmod (x := exactPoc s (2 * 2 ^ bits) lsb) (m := 2 ^ 32)
      rw [← wrap32, hself.eq hpoc, sub_sub_cancel] at hdvd
      have hle := Int.le_of_dvd (by positivity) hdvd
      have hsmall : (2 : ℤ) ^ bits ≤ 2 ^ 15 := pow_le_pow_right₀ one_le_two (by omega)
      norm_num at hle
      omega
  · rintro ⟨⟨q₀, hq₀, hfits⟩, hfar⟩ q
    rw [computePoc_eq, (isPoc_exactPoc hbla hlsb hlt hq₀ hfar).eq hq₀, hfits.wrap32]
    exact ⟨fun h => h.eq hq₀, fun h => h ▸ hq₀⟩

/-! ## What leaves the counts alone -/

/-- The same SPS and the same counts. -/
structure SamePoc (s t : HEVCContext) : Prop where
  sps : t.sps = s.sps
  poc : t.poc = s.poc
  pocTid0 : t.pocTid0 = s.pocTid0

theorem SamePoc.refl (s : HEVCContext) : SamePoc s s := ⟨rfl, rfl, rfl⟩

theorem SamePoc.trans {s t u : HEVCContext} (h : SamePoc s t) (h' : SamePoc t u) : SamePoc s u :=
  ⟨h'.sps.trans h.sps, h'.poc.trans h.poc, h'.pocTid0.trans h.pocTid0⟩

theorem sliceRel_samePoc : SliceRel SamePoc where
  refl := .refl
  trans := .trans
  display _ _ := ⟨rfl, rfl, rfl⟩
  release _ := ⟨rfl, rfl, rfl⟩
  advance _ _ := ⟨rfl, rfl, rfl⟩
  fast _ := ⟨rfl, rfl, rfl⟩
  change _ _ _ _ _ _ _ _ _ _ := ⟨rfl, rfl, rfl⟩
  noRef _ := ⟨rfl, rfl, rfl⟩
  newRef h := by
    obtain ⟨i, -, -, rfl⟩ := setNewRef_eq_some h
    exact ⟨rfl, rfl, rfl⟩

/-! ## Headers -/

/-- A leading picture. -/
def NalUnitType.isLeading (t : NalUnitType) : Bool :=
  t = .radlN || t = .radlR || t = .raslN || t = .raslR

/-- A picture that no other one of its sub-layer refers to. -/
def NalUnitType.isSubLayerNonRef (t : NalUnitType) : Bool :=
  t = .trailN || t = .tsaN || t = .stsaN || t = .radlN || t = .raslN

theorem NalUnitType.keepsPocTid0_eq (t : NalUnitType) :
    t.keepsPocTid0 = (t.isLeading || t.isSubLayerNonRef) := by
  cases t <;> rfl

/-- The header is that of an independent slice, and is read up to behind its reference picture
    set. -/
def SliceNal.readsRps (n : SliceNal) : Bool :=
  !(n.dependent && !n.firstSliceInPic) && (n.stop = .tail || n.stop = .accepted)

/-- A slice header that was read, with the SPS and the count that the decoder has behind it. -/
structure PocEntry where
  nal : SliceNal
  sps : Option HEVCSPS
  poc : ℤ

/-- The entry of a header. -/
def pocEntry (n : SliceNal) (s : HEVCContext) : PocEntry :=
  { nal := n, sps := (hlsSliceHeader n s).1.sps, poc := (hlsSliceHeader n s).1.poc }

/-- The picture is one of temporal id 0 that is neither leading nor a sub-layer non-reference. -/
def PocEntry.isPrev (e : PocEntry) : Bool :=
  e.nal.readsRps && e.nal.temporalId = 0 && !e.nal.nalUnitType.isLeading &&
    !e.nal.nalUnitType.isSubLayerNonRef

/-- The count of the last such picture. -/
def prevPoc : List PocEntry → ℤ
  | [] => 0
  | e :: l => if e.isPrev then e.poc else prevPoc l

/-- The header begins a picture, neither IDR nor BLA, and its low bits are read, with the bits
    of the SPS. -/
structure PocEntry.Derived (e : PocEntry) (sps : HEVCSPS) : Prop where
  active : e.sps = some sps
  first : e.nal.firstSliceInPic = true
  read : e.nal.stop ≠ .parameterSets ∧ e.nal.stop ≠ .address
  notIdr : e.nal.nalUnitType.isIdr = false
  notBla : e.nal.nalUnitType.isBla = false
  bits_le : sps.log2MaxPocLsb ≤ 16
  lsb_lt : e.nal.picOrderCntLsb < 2 ^ sps.log2MaxPocLsb

section

variable {n : SliceNal} {s : HEVCContext}

/-- The same counts, and the same NAL unit type. -/
theorem beginPicture_poc : SamePoc s (beginPicture n s) ∧
    (beginPicture n s).nalUnitType = s.nalUnitType := by
  rw [beginPicture]
  dsimp only
  split_ifs <;> exact ⟨⟨rfl, rfl, rfl⟩, rfl⟩

theorem activateSps_poc : (activateSps n s).poc = s.poc ∧
    (activateSps n s).pocTid0 = s.pocTid0 ∧ (activateSps n s).nalUnitType = s.nalUnitType := by
  rw [activateSps]
  cases n.newSps <;> exact ⟨rfl, rfl, rfl⟩

theorem readPoc_keeps : (readPoc n s).sps = s.sps ∧ (readPoc n s).pocTid0 = s.pocTid0 ∧
    (readPoc n s).nalUnitType = s.nalUnitType := by
  rw [readPoc]
  by_cases hidr : s.nalUnitType.isIdr = true
  · rw [if_pos hidr]
    exact ⟨rfl, rfl, rfl⟩
  · rw [if_neg hidr]
    cases hsps : s.sps with
    | none => exact ⟨hsps, rfl, rfl⟩
    | some sps =>
      dsimp only
      split_ifs <;> exact ⟨by first | rfl | exact hsps, rfl, rfl⟩

/-- The count of the first slice of a picture. -/
theorem readPoc_poc {sps : HEVCSPS} (hsps : s.sps = some sps) (hfirst : n.firstSliceInPic = true)
    (hidr : s.nalUnitType.isIdr = false) :
    (readPoc n s).poc = computePoc s (2 ^ sps.log2MaxPocLsb) n.picOrderCntLsb := by
  rw [readPoc, if_neg (Bool.eq_false_iff.1 hidr), hsps]
  dsimp only
  rw [if_pos hfirst]
  split_ifs <;> rfl

theorem keepPocTid0_keeps : (keepPocTid0 n s).sps = s.sps ∧ (keepPocTid0 n s).poc = s.poc := by
  rw [keepPocTid0]
  split_ifs <;> exact ⟨rfl, rfl⟩

/-- A header of an independent slice that is read up to its order count. -/
theorem hlsSliceHeader_eq (hread : n.stop ≠ .parameterSets ∧ n.stop ≠ .address)
    (hindep : ¬(n.dependent ∧ ¬n.firstSliceInPic)) :
    hlsSliceHeader n s =
      if n.stop = .refPicSet then (readPoc n (activateSps n (beginPicture n s)), false)
      else (keepPocTid0 n (readPoc n (activateSps n (beginPicture n s))), n.stop = .accepted) := by
  rw [hlsSliceHeader]
  dsimp only
  rw [if_neg hread.1, if_neg hread.2, if_neg hindep]

/-- The count of the last picture is that of the header when it is read up to behind its
    reference picture set. -/
theorem hlsSliceHeader_pocTid0 (htype : s.nalUnitType = n.nalUnitType) :
    (hlsSliceHeader n s).1.pocTid0 =
      if (pocEntry n s).isPrev then (pocEntry n s).poc else s.pocTid0 := by
  obtain ⟨hbegin, hbeginType⟩ := beginPicture_poc (n := n) (s := s)
  obtain ⟨-, hactTid, hactType⟩ := activateSps_poc (n := n) (s := beginPicture n s)
  obtain ⟨-, hreadTid, hreadType⟩ := readPoc_keeps (n := n) (s := activateSps n (beginPicture n s))
  have htid := hreadTid.trans (hactTid.trans hbegin.pocTid0)
  have htype' := hreadType.trans (hactType.trans (hbeginType.trans htype))
  by_cases hread : n.readsRps = true
  · have hprev : (pocEntry n s).isPrev =
        decide (n.temporalId = 0 ∧ ¬n.nalUnitType.keepsPocTid0) := by
      change (n.readsRps && decide (n.temporalId = 0) && !n.nalUnitType.isLeading &&
        !n.nalUnitType.isSubLayerNonRef) = _
      rw [NalUnitType.keepsPocTid0_eq, Bool.eq_iff_iff]
      simp only [hread, Bool.true_and, Bool.and_eq_true, decide_eq_true_eq, Bool.not_eq_true',
        Bool.or_eq_true, not_or, Bool.not_eq_true, and_assoc]
    rw [SliceNal.readsRps, Bool.and_eq_true, Bool.not_eq_true', Bool.or_eq_true,
      decide_eq_true_eq, decide_eq_true_eq] at hread
    have hindep : ¬(n.dependent ∧ ¬n.firstSliceInPic) := by
      intro h
      simp [h.1, h.2] at hread
    have hstop : n.stop ≠ .parameterSets ∧ n.stop ≠ .address ∧ n.stop ≠ .refPicSet := by
      rcases hread.2 with h | h <;> rw [h] <;> decide
    have heq := hlsSliceHeader_eq (n := n) (s := s) ⟨hstop.1, hstop.2.1⟩ hindep
    rw [if_neg hstop.2.2] at heq
    rw [hprev, pocEntry, heq]
    dsimp only
    rw [keepPocTid0, htype']
    simp only [decide_eq_true_eq]
    split_ifs
    · rfl
    · exact htid
  · have hprev : (pocEntry n s).isPrev = false := by
      simp [PocEntry.isPrev, pocEntry, hread]
    rw [hprev, if_neg Bool.false_ne_true]
    by_cases hindep : n.dependent ∧ ¬n.firstSliceInPic
    · rw [hlsSliceHeader]
      dsimp only
      split_ifs
      · exact hbegin.pocTid0
      · exact hactTid.trans hbegin.pocTid0
      · exact hactTid.trans hbegin.pocTid0
    · rw [hlsSliceHeader]
      dsimp only
      split_ifs with h₁ h₂ h₃
      · exact hbegin.pocTid0
      · exact hactTid.trans hbegin.pocTid0
      · exact htid
      · refine absurd ?_ hread
        cases hstop : n.stop <;> simp_all [SliceNal.readsRps]

end

/-! ## Runs -/

/-- The headers that the decoder has read, the last one first, and what it has behind them.
    Anything else that it does between two of them leaves the counts alone. -/
inductive PocRun : List PocEntry → HEVCContext → Prop
  | init : PocRun [] {}
  | other {l : List PocEntry} {s t : HEVCContext} : PocRun l s → SamePoc s t → PocRun l t
  | header {l : List PocEntry} {s : HEVCContext} (n : SliceNal) :
      PocRun l s → s.nalUnitType = n.nalUnitType →
        PocRun (pocEntry n s :: l) (hlsSliceHeader n s).1

theorem PocRun.pocTid0 {l : List PocEntry} {s : HEVCContext} (h : PocRun l s) :
    s.pocTid0 = prevPoc l := by
  induction h with
  | init => rfl
  | other _ hsame ih => exact hsame.pocTid0.trans ih
  | header n _ htype ih => rw [hlsSliceHeader_pocTid0 htype, ih, prevPoc]

/-- The count of a picture is derived from the one of the last picture before it. -/
theorem PocRun.derived {l₁ l₂ : List PocEntry} {e : PocEntry} {s : HEVCContext} {sps : HEVCSPS}
    (h : PocRun (l₁ ++ e :: l₂) s) (he : e.Derived sps) :
    ∃ t : HEVCContext, t.pocTid0 = prevPoc l₂ ∧ t.nalUnitType.isBla = false ∧
      e.poc = computePoc t (2 ^ sps.log2MaxPocLsb) e.nal.picOrderCntLsb := by
  generalize hl : l₁ ++ e :: l₂ = l at h
  induction h generalizing l₁ with
  | init => exact absurd hl (List.append_ne_nil_of_right_ne_nil _ (List.cons_ne_nil e l₂))
  | other _ _ ih => exact ih hl
  | @header l s n hrun htype ih =>
    cases l₁ with
    | cons _ l₁ => exact ih (List.cons.inj hl).2
    | nil =>
      obtain ⟨rfl, rfl⟩ := List.cons.inj hl
      obtain ⟨hbegin, hbeginType⟩ := beginPicture_poc (n := n) (s := s)
      obtain ⟨-, hactTid, hactType⟩ := activateSps_poc (n := n) (s := beginPicture n s)
      have htid := hactTid.trans hbegin.pocTid0
      have htype' := hactType.trans (hbeginType.trans htype)
      have hidr : (activateSps n (beginPicture n s)).nalUnitType.isIdr = false := by
        rw [htype']
        exact he.notIdr
      have hfirst : n.firstSliceInPic = true := he.first
      have hindep : ¬(n.dependent ∧ ¬n.firstSliceInPic) := fun h => h.2 hfirst
      have heq := hlsSliceHeader_eq (n := n) (s := s) he.read hindep
      have hkeeps : (hlsSliceHeader n s).1.sps = (activateSps n (beginPicture n s)).sps ∧
          (hlsSliceHeader n s).1.poc = (readPoc n (activateSps n (beginPicture n s))).poc := by
        rw [heq]
        split_ifs
        · exact ⟨readPoc_keeps.1, rfl⟩
        · exact ⟨keepPocTid0_keeps.1.trans readPoc_keeps.1, keepPocTid0_keeps.2⟩
      have hsps : (activateSps n (beginPicture n s)).sps = some sps :=
        hkeeps.1.symm.trans he.active
      refine ⟨activateSps n (beginPicture n s), htid.trans hrun.pocTid0, ?_, ?_⟩
      · rw [htype']
        exact he.notBla
      · exact hkeeps.2.trans (readPoc_poc hsps hfirst hidr)

/-! ## The decoder's headers -/

/-- The headers that a NAL unit is read for. -/
def Nal.entries (task : Bool) (s : HEVCContext) : Nal → List PocEntry
  | .slice n => if task then [pocEntry n { s with nalUnitType := n.nalUnitType }] else []
  | _ => []

/-- The headers that are read in NAL units, the last one first. -/
def nalEntries (cfg : MppDecBaseCfg) (task : Bool) : List Nal → HEVCContext → List PocEntry
  | [], _ => []
  | n :: ns, s =>
    (match parserNalUnit cfg task s n with
      | (t, true) => nalEntries cfg task ns t
      | (_, false) => []) ++ n.entries task s

/-- The headers that the decoder reads in an event. -/
def Event.entries (cfg : MppDecBaseCfg) (s : HEVCContext) : Event → List PocEntry
  | .op (.parse nals _) => nalEntries cfg true nals { s with ref := none }
  | .op (.extraData nals) => nalEntries cfg false nals s
  | .nal task n => n.entries task s
  | _ => []

/-- The decoder, and all headers that it has read. -/
def recorder (cfg : MppDecBaseCfg) : Machine (HEVCContext × List PocEntry) Event where
  init p := p = ({}, [])
  step p e p' := p' = (e.apply cfg p.1, e.entries cfg p.1 ++ p.2)

/-- The states of the decoder are those that are recorded. -/
theorem recorded_iff {cfg : MppDecBaseCfg} {s : HEVCContext} :
    (decoder cfg).Reachable s ↔ ∃ l, (recorder cfg).Reachable (s, l) := by
  constructor
  · intro h
    induction h with
    | init h =>
      obtain rfl := h
      exact ⟨[], .init rfl⟩
    | step _ hst ih =>
      obtain rfl := hst
      obtain ⟨l, hl⟩ := ih
      exact ⟨_, hl.step rfl⟩
  · rintro ⟨l, h⟩
    refine Machine.Reachable.invariant (P := fun p => (decoder cfg).Reachable p.1) ?_ ?_ h
    · rintro _ rfl
      exact .init rfl
    · rintro p e _ - hp rfl
      exact hp.step (a := e) rfl

/-- A NAL unit is a header and what leaves the counts alone, or only the latter. -/
theorem PocRun.parserNalUnit (cfg : MppDecBaseCfg) (task : Bool) {l : List PocEntry}
    {s : HEVCContext} (h : PocRun l s) (n : Nal) :
    PocRun (n.entries task s ++ l) (parserNalUnit cfg task s n).1 := by
  cases n with
  | slice n =>
    have hs : PocRun l { s with nalUnitType := n.nalUnitType } := h.other ⟨rfl, rfl, rfl⟩
    cases task with
    | false => exact hs
    | true =>
      have hheader := hs.header n rfl
      rw [H265d.parserNalUnit, if_pos rfl]
      change PocRun (pocEntry n _ :: l) _
      generalize hlsSliceHeader n { s with nalUnitType := n.nalUnitType } = x at hheader
      obtain ⟨t, ok⟩ := x
      cases ok with
      | false => exact hheader
      | true => exact hheader.other (sliceRel_samePoc.decodeSlice cfg t)
  | endOfSeq t => exact h.other ⟨rfl, rfl, rfl⟩
  | sei t points =>
    exact (h.other (t := { s with nalUnitType := t }) ⟨rfl, rfl, rfl⟩).other
      (sliceRel_samePoc.seiRecovery points _)
  | passive t accepted => exact h.other ⟨rfl, rfl, rfl⟩

theorem PocRun.parserNalUnits (cfg : MppDecBaseCfg) (task : Bool) {l : List PocEntry}
    {s : HEVCContext} (h : PocRun l s) (ns : List Nal) :
    PocRun (nalEntries cfg task ns s ++ l) (parserNalUnits cfg task ns s) := by
  induction ns generalizing l s with
  | nil => exact h
  | cons n ns ih =>
    have hn := h.parserNalUnit cfg task n
    rw [H265d.parserNalUnits, nalEntries]
    generalize H265d.parserNalUnit cfg task s n = x at hn
    obtain ⟨t, ok⟩ := x
    cases ok with
    | false => exact hn
    | true =>
      rw [List.append_assoc]
      exact ih hn

/-- Whatever the decoder has done, it is at the end of the run of its headers. -/
theorem Reachable.pocRun {cfg : MppDecBaseCfg} {p : HEVCContext × List PocEntry}
    (h : (recorder cfg).Reachable p) : PocRun p.2 p.1 := by
  refine Machine.Reachable.invariant (P := fun p => PocRun p.2 p.1) ?_ ?_ h
  · rintro _ rfl
    exact .init
  · rintro ⟨s, l⟩ e _ - hl rfl
    cases e with
    | start => exact hl.other ⟨rfl, rfl, rfl⟩
    | nal task n => exact hl.parserNalUnit cfg task n
    | op o =>
      cases o with
      | parse nals eos =>
        have hl' : PocRun l { s with ref := none } := hl.other ⟨rfl, rfl, rfl⟩
        exact (hl'.parserNalUnits cfg true nals).other (sliceRel_samePoc.finishPacket cfg eos _)
      | extraData nals => exact hl.parserNalUnits cfg false nals
      | flush => exact hl.other (sliceRel_samePoc.h265dFlush cfg s)
      | reset =>
        have hflush := sliceRel_samePoc.h265dFlush cfg s
        exact hl.other ⟨hflush.sps, hflush.poc, hflush.pocTid0⟩
      | callback slot =>
        refine hl.other ?_
        rw [Event.apply, Op.apply, h265dCallback]
        split_ifs <;> exact ⟨rfl, rfl, rfl⟩

/-- Whatever the decoder has done, the count it goes by is that of the last picture of temporal
    id 0 among the headers that it has read, and it derived that of each picture from the one it
    had then. -/
theorem Reachable.poc_derived {cfg : MppDecBaseCfg} {s : HEVCContext} {l : List PocEntry}
    (h : (recorder cfg).Reachable (s, l)) :
    s.pocTid0 = prevPoc l ∧ ∀ l₁ e l₂ sps, l = l₁ ++ e :: l₂ → e.Derived sps →
      ∃ t : HEVCContext, t.pocTid0 = prevPoc l₂ ∧ t.nalUnitType.isBla = false ∧
        e.poc = computePoc t (2 ^ sps.log2MaxPocLsb) e.nal.picOrderCntLsb := by
  have hrun : PocRun l s := Reachable.pocRun h
  exact ⟨hrun.pocTid0, fun _ _ _ _ hl he => (hl ▸ hrun).derived he⟩

/-- There is a count with the low bits of the entry around the last one, in an `RK_S32`, and
    they are not too far from those of one below zero. -/
def PocEntry.Near (e : PocEntry) (sps : HEVCSPS) (prev : ℤ) : Prop :=
  (∃ q, IsPoc (2 ^ sps.log2MaxPocLsb) prev e.nal.picOrderCntLsb q ∧ FitsS32 q) ∧
    ¬FarBelowZero (2 ^ sps.log2MaxPocLsb) prev e.nal.picOrderCntLsb

/-- The count of the entry is the one with its low bits around the last one. -/
def PocEntry.Right (e : PocEntry) (sps : HEVCSPS) (prev : ℤ) : Prop :=
  ∀ q, IsPoc (2 ^ sps.log2MaxPocLsb) prev e.nal.picOrderCntLsb q ↔ q = e.poc

/-- The order count that is computed is the one with the low bits around the last one exactly
    when there is such a one and the low bits are not too far from those of a count below
    zero, and in a run in which this is so for all pictures, their counts are the right ones. -/
theorem compute_poc (s : HEVCContext) :
    (∀ bits lsb : ℕ, bits ≤ 16 → s.nalUnitType.isBla = false → lsb < 2 ^ bits →
        ((∀ q, IsPoc (2 ^ bits) s.pocTid0 lsb q ↔ q = computePoc s (2 ^ bits) lsb) ↔
          (∃ q, IsPoc (2 ^ bits) s.pocTid0 lsb q ∧ FitsS32 q) ∧
            ¬FarBelowZero (2 ^ bits) s.pocTid0 lsb)) ∧
      ∀ l, PocRun l s →
        (∀ l₁ e l₂ sps, l = l₁ ++ e :: l₂ → e.Derived sps → e.Near sps (prevPoc l₂)) →
          ∀ l₁ e l₂ sps, l = l₁ ++ e :: l₂ → e.Derived sps → e.Right sps (prevPoc l₂) := by
  refine ⟨fun bits lsb hbits hbla hlt =>
    computePoc_iff hbits hbla (Int.natCast_nonneg lsb) (by exact_mod_cast hlt),
    fun l hrun hnear l₁ e l₂ sps hl he q => ?_⟩
  obtain ⟨t, htid, hbla, hpoc⟩ := (hl ▸ hrun).derived he
  have hbelow := hnear l₁ e l₂ sps hl he
  rw [PocEntry.Near, ← htid] at hbelow
  rw [← htid, hpoc]
  exact (computePoc_iff he.bits_le hbla (Int.natCast_nonneg _)
    (by exact_mod_cast he.lsb_lt)).2 hbelow q

/-- The headers of a list are read, the last one first. -/
def readHeaders : List SliceNal → List PocEntry × HEVCContext
  | [] => ([], {})
  | n :: ns =>
    let (l, s) := readHeaders ns
    let s := { s with nalUnitType := n.nalUnitType }
    (pocEntry n s :: l, (hlsSliceHeader n s).1)

theorem readHeaders_run (ns : List SliceNal) : PocRun (readHeaders ns).1 (readHeaders ns).2 := by
  induction ns with
  | nil => exact .init
  | cons n ns ih =>
    exact (ih.other (t := { (readHeaders ns).2 with nalUnitType := n.nalUnitType })
      ⟨rfl, rfl, rfl⟩).header n rfl

/-- Low bits of four bits. -/
def fourBitSps : HEVCSPS := { spsId := 0, log2MaxPocLsb := 4, numReorderPics := 0 }

/-- A CRA picture, with the SPS. -/
def craNal (lsb : ℕ) : SliceNal :=
  { nalUnitType := .craNut, newSps := some fourBitSps, picOrderCntLsb := lsb }

/-- A picture of temporal id 0. -/
def trailNal (lsb : ℕ) : SliceNal := { nalUnitType := .trailR, picOrderCntLsb := lsb }

/-- A packet with a CRA picture of count -1, whose header is the only one. -/
theorem poc_derived_packet : ∃ (s : HEVCContext) (l : List PocEntry), s.pocTid0 = -1 ∧
    l.map PocEntry.poc = [-1] ∧ s.pocTid0 = prevPoc l ∧ ∀ l₁ e l₂ sps, l = l₁ ++ e :: l₂ → e.Derived sps →
      ∃ t : HEVCContext, t.pocTid0 = prevPoc l₂ ∧ t.nalUnitType.isBla = false ∧
        e.poc = computePoc t (2 ^ sps.log2MaxPocLsb) e.nal.picOrderCntLsb := by
  have hreach := Reachable.poc_derived (.step (a := .op (.parse [.slice (craNal 15)] false))
    (.init rfl : (recorder {}).Reachable ({}, [])) rfl)
  refine ⟨_, _, ?_, ?_, hreach⟩ <;> decide +kernel

/-- The counts -1 and -8. -/
theorem compute_poc_negative :
    (readHeaders [trailNal 8, craNal 15]).1.map PocEntry.poc = [-8, -1] ∧
      ∀ l₁ e l₂ sps, (readHeaders [trailNal 8, craNal 15]).1 = l₁ ++ e :: l₂ → e.Derived sps →
        e.Right sps (prevPoc l₂) := by
  refine ⟨by decide, (compute_poc _).2 _ (readHeaders_run _) fun l₁ e l₂ sps hl he => ?_⟩
  rcases l₁ with _ | ⟨e₁, _ | ⟨e₂, l₁⟩⟩
  · obtain ⟨rfl, rfl⟩ := List.cons.inj hl
    obtain rfl := Option.some.inj (show some fourBitSps = some sps from he.active)
    exact ⟨⟨-8, ⟨by decide, by decide, by decide⟩, by decide, by decide⟩, by decide⟩
  · obtain ⟨rfl, rfl⟩ := List.cons.inj (List.cons.inj hl).2
    obtain rfl := Option.some.inj (show some fourBitSps = some sps from he.active)
    exact ⟨⟨-1, ⟨by decide, by decide, by decide⟩, by decide, by decide⟩, by decide⟩
  · exact absurd (List.cons.inj (List.cons.inj hl).2).2 (by simp)

/-- Behind the counts -1, -8 and -15 the low bits 15 are those of -17, and -1 is computed. -/
theorem compute_poc_far :
    ∃ e l s, PocRun (e :: l) s ∧ (∀ e' ∈ e :: l, e'.nal.stop = .accepted) ∧
      (e :: l).map PocEntry.poc = [-1, -15, -8, -1] ∧ e.Derived fourBitSps ∧
      IsPoc (2 ^ fourBitSps.log2MaxPocLsb) (prevPoc l) e.nal.picOrderCntLsb (-17) ∧
      ¬e.Right fourBitSps (prevPoc l) := by
  have hpoc : IsPoc (2 ^ 4) (-15) 15 (-17) := ⟨by decide, by decide, by decide⟩
  refine ⟨_, _, _, readHeaders_run [trailNal 15, trailNal 1, trailNal 8, craNal 15], ?_, by decide,
    ⟨by decide, rfl, by decide, rfl, rfl, by decide, by decide⟩, hpoc, fun h => ?_⟩
  · decide
  · exact absurd ((h (-17)).1 hpoc) (by decide)

end Libmpp.H265d
