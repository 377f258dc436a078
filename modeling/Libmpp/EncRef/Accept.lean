import Libmpp.EncRef.Invariant

/-!
# What an accepted configuration announces

A configuration that passes `mppEncRefCfgCheck` announces a buffer of
`dpbSize = maxLtCnt + maxStCnt` frames (`accepted_of_check`): one for each
long-term entry, of which there are at most `16`, and as many for the short-term
frames as the dry run has found to be referred to, again at most `16`. (For a
configuration that has been checked before, the dry run is skipped, and the number
of its temporal layers stands in.)
-/

namespace Libmpp.EncRef

open Option

/-- The sizes a configuration announces fit together and fit the virtual buffer. -/
structure AcceptedInfo (info : MppEncCpbInfo) : Prop where
  lt_nonneg : 0 ≤ info.maxLtCnt
  lt_le : info.maxLtCnt ≤ maxCpbLtFrm
  st_nonneg : 0 ≤ info.maxStCnt
  st_le : info.maxStCnt ≤ maxCpbStFrm
  dpbSize : info.dpbSize = info.maxLtCnt + info.maxStCnt

/-- What the results about accepted configurations rely on. -/
structure AcceptedCfg (cfg : MppEncRefCfgImpl) : Prop where
  info : AcceptedInfo cfg.cpbInfo
  ltCnt : cfg.cpbInfo.maxLtCnt = cfg.ltCfg.length
  ltIdx : ∀ ltCfg ∈ cfg.ltCfg, 0 ≤ ltCfg.ltIdx ∧ ltCfg.ltIdx < 16

theorem acceptedInfo_zero : AcceptedInfo 0 :=
  ⟨le_rfl, by decide, le_rfl, by decide, rfl⟩

theorem acceptedCfg_default : AcceptedCfg mppEncRefDefault :=
  ⟨⟨by decide, by decide, by decide, by decide, rfl⟩, rfl, fun _ h => absurd h List.not_mem_nil⟩

/-! ## The entries -/

/-- The check of the long-term entries counts them. -/
theorem checkLtCfg_spec {l : List MppEncRefLtFrmCfg} {s s' : LtCheck}
    (h : checkLtCfg l s = some (some s')) :
    s'.maxLtRefCnt = s.maxLtRefCnt + l.length ∧
      ∀ ltCfg ∈ l, 0 ≤ ltCfg.ltIdx ∧ ltCfg.ltIdx < 16 := by
  induction l generalizing s with
  | nil =>
    obtain rfl := some.inj (some.inj h)
    exact ⟨by simp, fun _ h => absurd h List.not_mem_nil⟩
  | cons cfg l ih =>
    rw [checkLtCfg] at h
    split_ifs at h with hneg hbad
    · exact absurd h (by simp)
    · obtain ⟨hcnt, hidx⟩ := ih h
      refine ⟨?_, fun ltCfg hmem => ?_⟩
      · have : (s.add cfg).maxLtRefCnt = s.maxLtRefCnt + 1 := rfl
        rw [hcnt, this, List.length_cons]
        push_cast
        ring
      · rcases List.mem_cons.1 hmem with rfl | hmem
        · have := (not_or.1 hbad).1
          omega
        · exact hidx _ hmem

/-- The temporal ids seen so far, as far as the check admits them. -/
def seenTids (mask : UInt32) : Finset ℕ := (Finset.range 4).filter fun t => mask.toNat.testBit t

theorem card_seenTids_le (mask : UInt32) : (seenTids mask).card ≤ 4 :=
  (Finset.card_filter_le _ _).trans_eq (Finset.card_range 4)

/-- The mask of a temporal id. -/
theorem toNat_tidMask {t : ℤ} (h0 : 0 ≤ t) (h4 : t < 4) :
    (idxMask t).toNat = 2 ^ t.toNat := by
  have : t = 0 ∨ t = 1 ∨ t = 2 ∨ t = 3 := by omega
  rcases this with rfl | rfl | rfl | rfl <;> rfl

/-- A new temporal id is one more seen. -/
theorem card_seenTids_lt {mask : UInt32} {t : ℤ} (h0 : 0 ≤ t) (h4 : t < 4)
    (hnew : mask &&& idxMask t = 0) :
    (seenTids mask).card < (seenTids (mask ||| idxMask t)).card := by
  have hmask := toNat_tidMask h0 h4
  have hnot : mask.toNat.testBit t.toNat = false := by
    have h := congrArg UInt32.toNat hnew
    rw [UInt32.toNat_and, hmask, Nat.and_two_pow] at h
    simpa using h
  refine Finset.card_lt_card (Finset.ssubset_iff_of_subset ?_ |>.2 ⟨t.toNat, ?_, ?_⟩)
  · intro k hk
    rw [seenTids, Finset.mem_filter] at hk ⊢
    rw [UInt32.toNat_or, Nat.testBit_or, hk.2]
    exact ⟨hk.1, rfl⟩
  · rw [seenTids, Finset.mem_filter, UInt32.toNat_or, Nat.testBit_or, hmask,
      Nat.testBit_two_pow_self, Bool.or_true]
    exact ⟨Finset.mem_range.2 (by omega), rfl⟩
  · rw [seenTids, Finset.mem_filter, hnot]
    simp

variable {cnt : ℕ}

/-- The check of the short-term entries counts at most the temporal ids. -/
theorem checkStCfg_spec {pos : ℕ} {l l' : List MppEncRefStFrmCfg} {s s' : StCheck} {ready : Bool}
    (h : checkStCfg cnt pos l s = some (ready, l', s')) (h0 : 0 ≤ s.maxStRefCnt)
    (hs : s.maxStRefCnt ≤ (seenTids s.stTidUsedMask).card) :
    0 ≤ s'.maxStRefCnt ∧ s'.maxStRefCnt ≤ (seenTids s'.stTidUsedMask).card := by
  induction l generalizing s pos ready l' with
  | nil =>
    simp only [checkStCfg, some.injEq, Prod.mk.injEq] at h
    obtain ⟨-, -, rfl⟩ := h
    exact ⟨h0, hs⟩
  | cons cfg l ih =>
    rw [checkStCfg] at h
    split_ifs at h with hneg
    dsimp only at h
    split_ifs at h with hbad
    · simp only [some.injEq, Prod.mk.injEq] at h
      obtain ⟨-, -, rfl⟩ := h
      exact ⟨h0, hs⟩
    · obtain ⟨⟨ready', l'', s''⟩, hrest, h⟩ := map_eq_some_iff.1 h
      simp only [Prod.mk.injEq] at h
      obtain ⟨-, -, rfl⟩ := h
      have htid : cfg.temporalId < 4 := by
        have := (not_or.1 hbad).1
        simp only [mppEncMaxTemporalLayerNum] at this
        omega
      refine ih hrest ?_ ?_ <;> dsimp only [StCheck.add] <;> split_ifs with hnew
      · omega
      · exact h0
      · have := card_seenTids_lt (not_lt.1 hneg) htid hnew.2
        omega
      · exact hs

/-! ## The dry run -/

/-- What the dry run keeps: the announced numbers, and a used size that fits the
    short-term half. -/
structure DryrunInv (info : MppEncCpbInfo) (s : DryrunState) : Prop where
  info : s.cpb.info = info
  nonneg : 0 ≤ s.cpbStUsedSize
  le : s.cpbStUsedSize ≤ maxCpbStFrm

variable {p : MppEncRefsImpl} {info : MppEncCpbInfo} {s s' : DryrunState}

theorem dryrunFrm_inv {stCfg : MppEncRefStFrmCfg} (h : dryrunFrm p cnt stCfg s = some s')
    (hs : DryrunInv info s) : DryrunInv info s' := by
  simp only [dryrunFrm, bind_eq_bind, bind_eq_some_iff, some.injEq] at h
  obtain ⟨frm, -, ref, -, rfl⟩ := h
  refine ⟨(storeRefToCpb_counters _ _).1.trans hs.info, ?_, ?_⟩
  all_goals
    have h0 := hs.nonneg
    have hle := hs.le
    cases ref <;> dsimp only
    · assumption
    · split_ifs <;> omega

theorem dryrunRepeat_inv {stCfg : MppEncRefStFrmCfg} {n : ℕ}
    (h : dryrunRepeat p cnt stCfg n s = some s') (hs : DryrunInv info s) : DryrunInv info s' := by
  induction n generalizing s with
  | zero =>
    obtain rfl := some.inj h
    exact hs
  | succ n ih =>
    obtain ⟨s₁, h₁, h⟩ := bind_eq_some_iff.1 h
    exact ih h (dryrunFrm_inv h₁ hs)

variable {cfg : MppEncRefCfgImpl}

theorem dryrunWalk_inv {l : List ℕ} (h : dryrunWalk p cfg l s = some s') (hs : DryrunInv info s) :
    DryrunInv info s' := by
  induction l generalizing s with
  | nil =>
    obtain rfl := some.inj h
    exact hs
  | cons stIdx l ih =>
    simp only [dryrunWalk, bind_eq_bind, bind_eq_some_iff] at h
    obtain ⟨stCfg, -, s₁, h₁, h⟩ := h
    exact ih h (dryrunRepeat_inv h₁ hs)

/-- The dry run finds out the sizes, and leaves the entries alone. -/
theorem mppEncRefsDryrun_spec {p' : MppEncRefsImpl} (h : mppEncRefsDryrun p = some p')
    (hcfg : p.refCfg = some cfg)
    (hst : 0 ≤ p.cpb.info.maxStCnt ∧ p.cpb.info.maxStCnt ≤ maxCpbStFrm) :
    (∃ cfg', p'.refCfg = some cfg' ∧ cfg'.ltCfg = cfg.ltCfg ∧ cfg'.stCfg = cfg.stCfg) ∧
      p'.cpb.info.maxLtCnt = p.cpb.info.maxLtCnt ∧
      0 ≤ p'.cpb.info.maxStCnt ∧ p'.cpb.info.maxStCnt ≤ maxCpbStFrm ∧
      p'.cpb.info.dpbSize = p'.cpb.info.maxLtCnt + p'.cpb.info.maxStCnt := by
  simp only [mppEncRefsDryrun, hcfg, bind_eq_bind, bind_some] at h
  split_ifs at h
  · obtain rfl := some.inj h
    exact ⟨⟨cfg, rfl, rfl, rfl⟩, rfl, hst.1, hst.2, rfl⟩
  · obtain ⟨s, hwalk, h⟩ := bind_eq_some_iff.1 h
    obtain rfl := some.inj h
    have hinv : DryrunInv p.cpb.info s :=
      dryrunWalk_inv hwalk ⟨rfl, le_rfl, Int.natCast_nonneg _⟩
    have h0 := hinv.nonneg
    have hle := hinv.le
    have hinfo : (cleanupCpbRefs s.cpb).info = p.cpb.info := hinv.info
    refine ⟨⟨_, rfl, rfl, rfl⟩, ?_, ?_, ?_, ?_⟩ <;> dsimp only
    · rw [hinfo]
    · split_ifs <;> omega
    · split_ifs
      · exact hle
      · decide

/-! ## The check -/

/-- An accepted configuration announces sizes that fit. -/
theorem accepted_of_check {raw : MppEncRefCfgImpl} (h : mppEncRefCfgCheck raw = some (true, cfg)) :
    AcceptedCfg cfg := by
  simp only [mppEncRefCfgCheck, bind_eq_bind, bind_eq_some_iff] at h
  obtain ⟨lt, hlt, h⟩ := h
  cases lt with
  | none => simp at h
  | some lt =>
    obtain ⟨⟨ready, stCfg, st⟩, hst, h⟩ := bind_eq_some_iff.1 h
    dsimp only at h
    split at h
    · obtain ⟨refs, hset, h⟩ := bind_eq_some_iff.1 h
      obtain ⟨refs', hdry, h⟩ := bind_eq_some_iff.1 h
      obtain ⟨p, hp, h⟩ := bind_eq_some_iff.1 h
      simp only [some.injEq, Prod.mk.injEq, true_and] at h
      obtain ⟨hltCnt, hltIdx⟩ := checkLtCfg_spec hlt
      obtain ⟨hst0, hst⟩ := checkStCfg_spec hst le_rfl (Int.natCast_nonneg _)
      have hst4 := card_seenTids_le st.stTidUsedMask
      have hcap : (maxCpbStFrm : ℤ) = 16 := rfl
      obtain ⟨hcfg, hinfo, hlen, -⟩ := mppEncRefsSetCfg_info hset
      simp only [getD_some] at hcfg hinfo hlen
      obtain ⟨⟨cfg', hcfg', hltCfg, -⟩, h₁, h₂, h₃, h₄⟩ := mppEncRefsDryrun_spec hdry hcfg
        (by rw [hinfo]; dsimp only; omega)
      obtain rfl : p = cfg' := some.inj (hp.symm.trans hcfg')
      subst h
      rw [hinfo] at h₁
      simp only [hltCnt, zero_add] at h₁
      refine ⟨⟨?_, ?_, h₂, h₃, h₄⟩, ?_, ?_⟩ <;> dsimp only
      · omega
      · omega
      · rw [h₁, hltCfg]
      · rw [hltCfg]
        exact hltIdx
    · simp at h

end Libmpp.EncRef
