import Libmpp.H264e.Simulate

/-!
# The virtual buffer and the dpb in step

The encoder keeps two models of the decoded picture buffer: the virtual buffer of the
reference manager, which says what is kept, and the dpb, which says where. Together
they are one state (`EncState`), in which a frame is a call of `mppEncRefsGetCpb` whose
status goes through the dpb (`encStep`).

In the runs of an accepted configuration whose frames are all `Followed`, the dpb
mirrors the virtual buffer at all times (`reachable_inStep`): so no look-up of a frame
fails, and the dpb counts the frames shown (`frame_inStep`). A frame that refers to
one not shown, as some accepted configurations have it, ends the run
(`frame_not_followed`).
-/

namespace Libmpp.H264e

open EncRef Bool Option

/-- The reference manager and the dpb. -/
abbrev EncState := MppEncRefsImpl × H264eDpb

/-- What the encoder does with them. -/
inductive EncOp
  | refs (op : RefsOp)
  | frame (status : EncCpbStatus)

def encStep (s : EncState) : EncOp → Option EncState
  | .refs op => (refsStep s.1 op).map fun p => (p, s.2)
  | .frame status => do
    let (p, cpb) ← mppEncRefsGetCpb s.1 status
    let dpb ← h264eProcDpb s.2 cpb
    some (p, dpb)

/-- The calls between frames: the configuration stays, and no frame is taken back. -/
def isQuiet : RefsOp → Bool
  | .setUsrCfg _ | .setRcIgop _ | .setRefreshLength _ | .forceRecon _ | .getCpbPass1 _ => true
  | _ => false

/-- The dpb can follow the frame: its reference is one of the frames kept, and, when
    it is a long-term frame, those with another index are fewer than announced. -/
def Followed (p : MppEncRefsImpl) (cpb : EncCpbStatus) : Prop :=
  (cpb.refr.valid → cpb.refr ∈ cpb.init.toList) ∧
    (cpb.curr.isLt → ((cpb.init.toList.filter fun frm =>
      frm.isLt ∧ frm.ltIdx ≠ cpb.curr.ltIdx).length : ℤ) < p.cpb.info.maxLtCnt)

instance (p : MppEncRefsImpl) (cpb : EncCpbStatus) : Decidable (Followed p cpb) :=
  inferInstanceAs (Decidable (_ ∧ _))

/-- The run goes on in the same gop, or in the next, with frames the dpb can follow. -/
def InStep (s : EncState) (op : EncOp) (s' : EncState) : Prop :=
  match op with
  | .refs op => isQuiet op
  | .frame status => s'.1.cpb.seqIdx ≤ 65536 ∧
      ∀ r, mppEncRefsGetCpb s.1 status = some r → Followed s.1 r.2

/-- The runs of a configuration, from a fresh manager and a dpb set up for it. -/
def encMachine (s₀ : EncState) : Machine EncState EncOp := .ofPartial s₀ encStep

/-- The dpb mirrors the virtual buffer, of the size `cfg` announces. -/
structure EncInv (cfg : MppEncRefCfgImpl) (s : EncState) : Prop where
  info : s.1.cpb.info = cfg.cpbInfo
  mirrors : ∃ σ, HoldsStore s.1.cpb σ ∧ InOrder σ s.1.cpb.seqIdx ∧
    σ.lt.length ≤ cfg.cpbInfo.maxLtCnt.toNat ∧
    Mirrors cfg.cpbInfo.dpbSize.toNat σ s.1.cpb.seqIdx s.2

/-! ## The frames shown -/

/-- The snapshot of a buffer shows the window of its store. -/
theorem shows_of_cpbSnapshot {cpb : EncVirtualCpb} {s : RefStore EncFrmStatus}
    {arr : Vector EncFrmStatus maxCpbRefs} (hs : HoldsStore cpb s) (hinfo : AcceptedInfo cpb.info)
    (hlt : s.lt.length ≤ cpb.info.maxLtCnt.toNat) (h : cpbSnapshot cpb = some arr) :
    Shows arr (s.window cpb.info.dpbSize.toNat) := by
  rw [cpbSnapshot, hs.saveCpbStatus_eq hinfo, List.take_of_length_le hlt, bind_eq_bind,
    bind_some, ← RefStore.window] at h
  have hv : ∀ f ∈ s.window cpb.info.dpbSize.toNat, f.valid := by
    intro f hf
    rcases RefStore.mem_window.1 hf with hf | hf
    · exact isLt_valid (hs.isLt f hf)
    · exact isSt_valid (hs.isSt f (List.mem_of_mem_take hf))
  generalize s.window cpb.info.dpbSize.toNat = w at h hv ⊢
  unfold fillSnapshot at h
  split_ifs at h with hlen
  obtain rfl := some.inj h
  have hlist : (Vector.ofFn fun i : Fin maxCpbRefs => w[i]?.getD 0).toList =
      (List.range maxCpbRefs).map fun i => w[i]?.getD 0 := by
    refine List.ext_getElem (by simp) fun i hi _ => ?_
    simp
  rw [Shows, hlist, RefStore.filter_slots (l := w), List.take_of_length_le hlen]
  · intro i hi _
    simp [hi]
  · exact hv
  · intro i hi _
    rw [List.getElem?_eq_none hi]
    exact false_ne_true

/-- The long-term frames among those shown are those of the store. -/
theorem length_filter_isLt {s : RefStore EncFrmStatus} {n d : ℕ} (h : InStore s n)
    {arr : Vector EncFrmStatus maxCpbRefs} (harr : Shows arr (s.window d)) {curr : EncFrmStatus}
    (hk : curr.ltIdx ∉ s.lt.map EncFrmStatus.ltIdx) :
    (arr.toList.filter fun frm => frm.isLt ∧ frm.ltIdx ≠ curr.ltIdx).length = s.lt.length := by
  have hvalid : (arr.toList.filter fun frm => frm.isLt ∧ frm.ltIdx ≠ curr.ltIdx) =
      (s.window d).filter fun frm => frm.isLt ∧ frm.ltIdx ≠ curr.ltIdx := by
    rw [← harr, List.filter_filter]
    refine List.filter_congr fun f _ => ?_
    cases hlt : f.isLt with
    | false => simp
    | true => simp [isLt_valid hlt]
  have hst : (s.st.take (d - s.lt.length)).filter
      (fun frm => frm.isLt ∧ frm.ltIdx ≠ curr.ltIdx) = [] := by
    refine List.filter_eq_nil_iff.2 fun f hf hlt => ?_
    have := (isLt_of (of_decide_eq_true hlt).1).2
    rw [h.isLtRef_of_st (List.mem_of_mem_take hf)] at this
    exact false_ne_true this
  rw [hvalid, RefStore.window, List.filter_append, hst, List.append_nil, List.filter_eq_self.2]
  intro f hf
  refine decide_eq_true ⟨h.isLt f hf, fun he => hk ?_⟩
  exact List.mem_map.2 ⟨f, hf, he⟩

/-- A frame leaves no more long-term frames than announced. -/
theorem length_lt_storeFrm {s : RefStore EncFrmStatus} {curr : EncFrmStatus} {m : ℕ}
    (h : s.lt.length ≤ m) (hroom : curr.isNonRef = false → curr.isLtRef →
      curr.ltIdx ∉ s.lt.map EncFrmStatus.ltIdx → s.lt.length < m) :
    (storeFrm curr s).lt.length ≤ m := by
  unfold storeFrm
  split_ifs with hn hl
  · exact h
  · by_cases hk : curr.ltIdx ∈ s.lt.map EncFrmStatus.ltIdx
    · exact (RefStore.length_putKey_of_mem hk).trans_le h
    · rw [RefStore.putLt, RefStore.putKey_of_not_mem hk]
      have := hroom (by simpa using hn) hl hk
      simpa using this
  · exact h

/-! ## One step -/

/-- What the two buffers have in common around the frame `cpb`: the current frame is
    in the slot `c` of its own, the frames kept are in other slots, and they are
    counted, as are those kept after it. -/
structure FrameInStep (d : ℤ) (dpb : H264eDpb) (cpb : EncCpbStatus) (p dpb' : H264eDpb)
    (c : Fin dpbFrmCnt) : Prop where
  proc : h264eDpbProc dpb cpb = some p
  check : h264eDpbCheck p cpb = some dpb'
  curr : p.curr = some c
  status : (p.frames.get c).status = cpb.curr
  notKept : some c ∉ p.map
  kept : ∀ f ∈ cpb.init.toList, f.valid → ∃ i ≠ c, (p.frames.get i).status = f
  usedBefore : p.usedSize = ((cpb.init.toList.filter EncFrmStatus.valid).length : ℤ)
  usedAfter : dpb'.usedSize = ((cpb.final.toList.filter EncFrmStatus.valid).length : ℤ)
  before_le : p.usedSize ≤ d
  after_le : dpb'.usedSize ≤ d

/-- A frame that can be followed is. -/
theorem EncInv.frame {cfg : MppEncRefCfgImpl} (hcfg : AcceptedCfg cfg)
    (hfit : cfg.cpbInfo.dpbSize ≤ maxCpbRefs) {s : EncState} (h : EncInv cfg s)
    {status cpb : EncCpbStatus} {p : MppEncRefsImpl}
    (hget : mppEncRefsGetCpb s.1 status = some (p, cpb)) (hgop : p.cpb.seqIdx ≤ 65536)
    (hok : Followed s.1 cpb) :
    ∃ q dpb' c, FrameInStep cfg.cpbInfo.dpbSize s.2 cpb q dpb' c ∧ EncInv cfg (p, dpb') := by
  obtain ⟨hinfo, σ, hσ, horder, hlt, hmirrors⟩ := h
  obtain ⟨p₁, frm, ref, hstep⟩ := mppEncRefsGetCpb_spec hget
  have hfrm := getCpbFrm_spec hstep.frm_eq
  have hσ₁ := getCpbFrm_tables hσ hfrm
  have hinfo₁ : p₁.cpb.info = cfg.cpbInfo := by rw [hfrm.tables.info, updateGop_info, hinfo]
  have hinfo' : p.cpb.info = cfg.cpbInfo := by
    obtain ⟨_, rfl⟩ := hstep.cpb
    exact (storeRefToCpb_counters _ _).1.trans hinfo₁
  have hseq := hstep.seqIdx
  have hval := hfrm.val_seqIdx (hseq ▸ hgop)
  have hnum := hfrm.seqIdx_cpb
  obtain ⟨_, hcurr⟩ := hstep.curr
  have hcv : cpb.curr.valid := by
    rw [hcurr]
    exact hfrm.valid
  have hcn : cpb.curr.seqIdx.val = (updateGop s.1).cpb.seqIdx := by
    rw [hcurr]
    dsimp only
    omega
  have hcidr : cpb.curr.isIdr = decide ((updateGop s.1).cpb.seqIdx = 0) := by
    rw [hcurr]
    exact hfrm.isIdr
  have hordered : InOrder (startStore s.1 σ) (updateGop s.1).cpb.seqIdx := by
    unfold startStore
    split_ifs with hr
    · exact inOrder_empty _
    · rw [(updateGop_of_not_restarts hr).2.1]
      exact horder
  have hstore := hσ₁.inStore hordered
  have hlt₁ : (startStore s.1 σ).lt.length ≤ cfg.cpbInfo.maxLtCnt.toNat := by
    unfold startStore
    split_ifs
    · exact Nat.zero_le _
    · exact hlt
  obtain ⟨h₁, h₂, h₃, h₄, h₅⟩ := hcfg.info
  have hcap : (maxCpbLtFrm : ℤ) = 16 := rfl
  have hcap' : (maxCpbStFrm : ℤ) = 16 := rfl
  have hcap'' : (maxCpbRefs : ℤ) = 8 := rfl
  -- the frames shown before and after
  have hinit : Shows cpb.init ((startStore s.1 σ).window cfg.cpbInfo.dpbSize.toNat) := by
    have := shows_of_cpbSnapshot hσ₁ (by rw [hinfo₁]; exact hcfg.info)
      (by rw [hinfo₁]; exact hlt₁) hstep.init
    rwa [hinfo₁] at this
  have hroom : cpb.curr.isNonRef = false → cpb.curr.isLtRef →
      cpb.curr.ltIdx ∉ (startStore s.1 σ).lt.map EncFrmStatus.ltIdx →
      (startStore s.1 σ).lt.length < cfg.cpbInfo.maxLtCnt.toNat := by
    intro hn hl hk
    have hroom := hok.2 (by simp [EncFrmStatus.isLt, hcv, hn, hl])
    rw [length_filter_isLt hstore hinit hk, hinfo] at hroom
    omega
  have hlt' := length_lt_storeFrm hlt₁ hroom
  have hσ' := hstep.holdsStore hσ
  have hfinal : Shows cpb.final
      ((storeFrm cpb.curr (startStore s.1 σ)).window cfg.cpbInfo.dpbSize.toNat) := by
    have := shows_of_cpbSnapshot hσ' (by rw [hinfo']; exact hcfg.info)
      (by rw [hinfo']; exact hlt') hstep.final
    rwa [hinfo'] at this
  -- an IDR frame starts with nothing
  have hidr : cpb.curr.isIdr = true → (updateGop s.1).cpb.seqIdx = 0 ∧
      (startStore s.1 σ).window cfg.cpbInfo.dpbSize.toNat = [] := by
    intro hi
    rw [hcidr, decide_eq_true_eq] at hi
    refine ⟨hi, ?_⟩
    unfold startStore
    split_ifs with hr
    · exact RefStore.window_empty _
    · rw [(updateGop_of_not_restarts hr).2.1] at hi
      refine List.eq_nil_iff_forall_not_mem.2 fun f hf => ?_
      obtain ⟨i, -, hstatus⟩ := hmirrors.holds.held f hf
      have := hmirrors.holds.lt i (by rw [hstatus]; exact hmirrors.holds.valid f hf)
      omega
  have hnot : cpb.curr.isIdr = false → 0 < (updateGop s.1).cpb.seqIdx ∧
      (updateGop s.1).cpb.seqIdx = s.1.cpb.seqIdx ∧ startStore s.1 σ = σ := by
    intro hi
    rw [hcidr, decide_eq_false_iff_not] at hi
    have hr : ¬Restarts s.1 := by
      intro hr
      obtain ⟨n, hn⟩ := updateGop_of_restarts hr
      rw [hn] at hi
      exact hi rfl
    exact ⟨Nat.pos_of_ne_zero hi, (updateGop_of_not_restarts hr).2.1, if_neg hr⟩
  have hrefr : cpb.refr.valid →
      cpb.refr ∈ (startStore s.1 σ).window cfg.cpbInfo.dpbSize.toNat :=
    fun hv => hinit.mem.2 ⟨hok.1 hv, hv⟩
  obtain ⟨q, c, dpb', hq, hready, hsize, hcheck, hmirrors'⟩ :=
    hmirrors.frame hidr hnot hstore (by omega) (by omega)
      (fun hn hl hk => (hroom hn hl hk).trans_le (by omega)) hcv hcn hinit hfinal hrefr
  refine ⟨q, dpb', c, ?_, hinfo', _, hσ', ?_, hlt', ?_⟩
  · refine ⟨hq, hcheck, hready.curr_eq, hready.status, hready.notKept, ?_, ?_, ?_, ?_, ?_⟩
    · intro f hf hv
      have hmem := hinit.mem.2 ⟨hf, hv⟩
      obtain ⟨i, -, hi⟩ := hready.holds.held f (.inr hmem)
      refine ⟨i, ?_, hi⟩
      rintro rfl
      rw [hready.status] at hi
      exact hready.new (hi ▸ hmem)
    · rw [hsize, hinit]
    · rw [hmirrors'.usedSize, hfinal]
    · have := length_window_le (s := startStore s.1 σ) (d := cfg.cpbInfo.dpbSize.toNat) (by omega)
      omega
    · have := length_window_le (s := storeFrm cpb.curr (startStore s.1 σ))
        (d := cfg.cpbInfo.dpbSize.toNat) (by omega)
      rw [hmirrors'.usedSize]
      omega
  · have := hstep.inOrder horder hgop
    exact this
  · have hnext : p.cpb.seqIdx = (updateGop s.1).cpb.seqIdx + 1 := hseq.trans hnum
    rw [hnext]
    exact hmirrors'

/-- Between frames, the tables stay. -/
theorem EncInv.quiet {cfg : MppEncRefCfgImpl} {s : EncState} (h : EncInv cfg s) {op : RefsOp}
    {p : MppEncRefsImpl} (hstep : refsStep s.1 op = some p) (hop : isQuiet op) :
    EncInv cfg (p, s.2) := by
  have hcpb : ∃ refr, p.cpb = { s.1.cpb with list0 := refr } := by
    cases op with
    | setUsrCfg cfg =>
      obtain rfl := some.inj hstep
      exact ⟨_, rfl⟩
    | setRcIgop igop =>
      obtain rfl := some.inj hstep
      unfold mppEncRefsSetRcIgop
      split_ifs
      · exact ⟨_, rfl⟩
      · exact ⟨_, rfl⟩
    | setRefreshLength len =>
      obtain rfl := some.inj hstep
      unfold mppEncRefsSetRefreshLength
      split_ifs
      · exact ⟨_, rfl⟩
      · exact ⟨_, rfl⟩
    | forceRecon forceRecon =>
      obtain rfl := some.inj hstep
      exact ⟨_, rfl⟩
    | getCpbPass1 status =>
      obtain ⟨⟨p', st'⟩, hget, rfl⟩ := map_eq_some_iff.1 hstep
      obtain ⟨refr, rfl⟩ := mppEncRefsGetCpbPass1_spec hget
      exact ⟨refr, rfl⟩
    | setCfg | stash | rollback | getCpb => exact absurd hop false_ne_true
  obtain ⟨refr, hcpb⟩ := hcpb
  obtain ⟨hinfo, σ, hσ, horder, hlt, hmirrors⟩ := h
  refine ⟨by rw [hcpb]; exact hinfo, σ, ?_, ?_, hlt, ?_⟩
  · rw [hcpb]
    exact hσ.congr rfl rfl rfl
  · rw [hcpb]
    exact horder
  · rw [hcpb]
    exact hmirrors

/-- The dpb set up for a configuration mirrors the empty buffer. -/
theorem EncInv.init {cfg : MppEncRefCfgImpl} (hcfg : AcceptedCfg cfg) {p₀ : MppEncRefsImpl}
    {dpb dpb₀ : H264eDpb} {extraBuf : Bool} {sps : H264eSps}
    (hset : mppEncRefsSetCfg mppEncRefsInit (some cfg) = some p₀)
    (hsetup : h264eDpbSetup dpb cfg.cpbInfo extraBuf sps = some dpb₀)
    (hpoc : sps.picOrderCntType = 0 ∨ sps.picOrderCntType = 2) : EncInv cfg (p₀, dpb₀) := by
  obtain ⟨-, hinfo, -, -⟩ := mppEncRefsSetCfg_info hset
  obtain ⟨-, -, cpb, hcpb, h₁, h₂, h₃, -, h₄⟩ := mppEncRefsSetCfg_spec hset
  obtain rfl : cpb = 0 := hcpb.elim id id
  obtain ⟨hi₁, -, hi₃, -, hi₅⟩ := hcfg.info
  refine ⟨hinfo, .empty, holdsStore_zero.congr h₁ h₂ h₃, inOrder_empty _, Nat.zero_le _, ?_⟩
  have hseq : p₀.cpb.seqIdx = 0 := h₄
  unfold h264eDpbSetup at hsetup
  have hroom : cfg.cpbInfo.dpbSize.toNat <
      (cfg.cpbInfo.dpbSize + 1 + if extraBuf then 1 else 0).toNat := by
    split_ifs
    · omega
    · omega
  dsimp only at hsetup
  generalize (cfg.cpbInfo.dpbSize + 1 + if extraBuf then 1 else 0).toNat = t at hsetup hroom
  split_ifs at hsetup with ht
  obtain rfl := some.inj hsetup
  have hframes : ∀ i : Fin dpbFrmCnt,
      (Vector.replicate dpbFrmCnt (0 : H264eDpbFrm)).get i = 0 := fun i => Vector.get_replicate ..
  have hinv : ∀ i : Fin dpbFrmCnt,
      ((Vector.replicate dpbFrmCnt (0 : H264eDpbFrm)).get i).status.valid → False := by
    intro i hv
    rw [hframes] at hv
    exact false_ne_true hv
  rw [hseq]
  refine ⟨?_, ?_, ?_, ?_, hpoc, .inl rfl, ?_, ?_, ?_, ?_⟩
  · rw [RefStore.window_empty]
    exact .of_invalid hinv fun i => (hframes i).symm ▸ ⟨rfl, rfl⟩
  · rw [RefStore.window_empty]
    rfl
  · dsimp only
    omega
  · dsimp only
    omega
  · exact pow_pos (by norm_num) _
  · exact pow_pos (by norm_num) _
  · rw [H264eDpb.lastPoc, h264eDpbInit]
    change (0 : ℤ) + 0 * _ ≤ _
    simp
  · exact fun h => absurd h (lt_irrefl 0)

/-! ## Runs -/

section Run

variable {raw cfg : MppEncRefCfgImpl} {p₀ : MppEncRefsImpl} {dpb dpb₀ : H264eDpb}
  {extraBuf : Bool} {sps : H264eSps} {s : EncState}

/-- In every run in step, the dpb mirrors the virtual buffer. -/
theorem reachable_inStep (hcheck : mppEncRefCfgCheck raw = some (true, cfg))
    (hfit : cfg.cpbInfo.dpbSize ≤ maxCpbRefs)
    (hset : mppEncRefsSetCfg mppEncRefsInit (some cfg) = some p₀)
    (hsetup : h264eDpbSetup dpb cfg.cpbInfo extraBuf sps = some dpb₀)
    (hpoc : sps.picOrderCntType = 0 ∨ sps.picOrderCntType = 2)
    (hs : ((encMachine (p₀, dpb₀)).guarded InStep).Reachable s) : EncInv cfg s := by
  have hcfg := accepted_of_check hcheck
  refine Machine.Reachable.invariant (P := EncInv cfg) ?_ ?_ hs
  · rintro _ rfl
    exact .init hcfg hset hsetup hpoc
  · rintro s op s' - h ⟨hstep, hop⟩
    cases op with
    | refs op =>
      obtain ⟨p, hp, rfl⟩ := map_eq_some_iff.1 hstep
      exact h.quiet hp hop
    | frame status =>
      obtain ⟨⟨p, cpb⟩, hget, hstep⟩ := bind_eq_some_iff.1 hstep
      obtain ⟨dpb', hdpb, hs'⟩ := bind_eq_some_iff.1 hstep
      obtain rfl := some.inj hs'
      obtain ⟨q, dpb'', c, hframe, hinv⟩ := h.frame hcfg hfit hget hop.1 (hop.2 _ hget)
      rw [h264eProcDpb, hframe.proc, bind_eq_bind, bind_some, hframe.check] at hdpb
      obtain rfl := some.inj hdpb
      exact hinv

/-- In every run of an accepted configuration whose frames the dpb can follow, the next
    such frame is followed: no look-up fails, it has a slot of its own, and the frames
    kept are counted. -/
theorem frame_inStep (hcheck : mppEncRefCfgCheck raw = some (true, cfg))
    (hfit : cfg.cpbInfo.dpbSize ≤ maxCpbRefs)
    (hset : mppEncRefsSetCfg mppEncRefsInit (some cfg) = some p₀)
    (hsetup : h264eDpbSetup dpb cfg.cpbInfo extraBuf sps = some dpb₀)
    (hpoc : sps.picOrderCntType = 0 ∨ sps.picOrderCntType = 2)
    (hs : ((encMachine (p₀, dpb₀)).guarded InStep).Reachable s) {status cpb : EncCpbStatus}
    {p : MppEncRefsImpl} (hget : mppEncRefsGetCpb s.1 status = some (p, cpb))
    (hgop : p.cpb.seqIdx ≤ 65536) (hok : Followed s.1 cpb) :
    ∃ q dpb' c, FrameInStep cfg.cpbInfo.dpbSize s.2 cpb q dpb' c := by
  have hinv := reachable_inStep hcheck hfit hset hsetup hpoc hs
  obtain ⟨q, dpb', c, hframe, -⟩ := hinv.frame (accepted_of_check hcheck) hfit hget hgop hok
  exact ⟨q, dpb', c, hframe⟩

end Run

/-- A sequence parameter set with full-size counters. -/
def fullSps : H264eSps := { log2MaxFrameNumMinus4 := 12, log2MaxPocLsbMinus4 := 12, picOrderCntType := 0 }

/-- The encoder for a configuration: the manager and the dpb set up for it. -/
def encInit (raw : MppEncRefCfgImpl) : Option (MppEncRefCfgImpl × EncState) := do
  let (ready, cfg) ← mppEncRefCfgCheck raw
  if !ready then none else
  let p₀ ← mppEncRefsSetCfg mppEncRefsInit (some cfg)
  let dpb₀ ← h264eDpbSetup (h264eDpbInit .init h264eMarkingInit) cfg.cpbInfo false fullSps
  some (cfg, p₀, dpb₀)

theorem of_encInit {raw cfg : MppEncRefCfgImpl} {s₀ : EncState}
    (h : encInit raw = some (cfg, s₀)) :
    mppEncRefCfgCheck raw = some (true, cfg) ∧
      mppEncRefsSetCfg mppEncRefsInit (some cfg) = some s₀.1 ∧
      h264eDpbSetup (h264eDpbInit .init h264eMarkingInit) cfg.cpbInfo false fullSps =
        some s₀.2 := by
  obtain ⟨⟨ready, cfg'⟩, hcheck, h⟩ := bind_eq_some_iff.1 h
  dsimp only at h
  split_ifs at h with hready
  obtain ⟨p₀, hset, h⟩ := bind_eq_some_iff.1 h
  obtain ⟨dpb₀, hsetup, h⟩ := bind_eq_some_iff.1 h
  obtain ⟨rfl, rfl⟩ := Prod.mk.inj (some.inj h)
  refine ⟨?_, hset, hsetup⟩
  rw [hcheck]
  rw [not_eq_true, not_eq_false'] at hready
  rw [hready]

instance (s : EncState) (op : EncOp) (s' : EncState) : Decidable (InStep s op s') :=
  match op with
  | .refs op => inferInstanceAs (Decidable (isQuiet op = true))
  | .frame status =>
    decidable_of_iff (s'.1.cpb.seqIdx ≤ 65536 ∧
      (mppEncRefsGetCpb s.1 status).all fun r => decide (Followed s.1 r.2)) (by
        simp only [InStep, Option.all_eq_true, decide_eq_true_eq])

/-- With the default entry, the third frame of a run can be followed, and is. -/
theorem frame_inStep_default : ∃ cfg s₀ s p cpb,
    encInit { mppEncRefDefault with ready := false } = some (cfg, s₀) ∧
      ((encMachine s₀).guarded InStep).Reachable s ∧
      mppEncRefsGetCpb s.1 default = some (p, cpb) ∧ cpb.refr.valid ∧
      ∃ q dpb' c, FrameInStep cfg.cpbInfo.dpbSize s.2 cpb q dpb' c := by
  have hrun : ((encInit { mppEncRefDefault with ready := false }).any fun c =>
      decide (c.1.cpbInfo.dpbSize ≤ (maxCpbRefs : ℤ)) &&
      (Machine.run encStep InStep c.2 (List.replicate 2 (.frame default))).any fun s =>
        (mppEncRefsGetCpb s.1 default).any fun r => r.2.refr.valid &&
          decide (r.1.cpb.seqIdx ≤ 65536 ∧ Followed s.1 r.2)) = true := by
    decide +kernel
  obtain ⟨⟨cfg, s₀⟩, hinit, hv⟩ := (any_eq_true _ _).1 hrun
  rw [and_eq_true, decide_eq_true_eq] at hv
  obtain ⟨hfit, hv⟩ := hv
  obtain ⟨s, hs, hv⟩ := (any_eq_true _ _).1 hv
  obtain ⟨⟨p, cpb⟩, hget, hv⟩ := (any_eq_true _ _).1 hv
  rw [and_eq_true, decide_eq_true_eq] at hv
  obtain ⟨hvalid, hgop, hok⟩ := hv
  obtain ⟨hcheck, hset, hsetup⟩ := of_encInit hinit
  have hreach : ((encMachine s₀).guarded InStep).Reachable s := Machine.Reachable.run (.init rfl) hs
  exact ⟨cfg, s₀, s, p, cpb, hinit, hreach, hget, hvalid,
    frame_inStep hcheck hfit hset hsetup (.inl rfl) hreach hget hgop hok⟩

/-- An entry that is repeated once, between frames of the base layer. -/
def repeatCfg : MppEncRefCfgImpl :=
  { mppEncRefDefault with
    ready := false
    stCfg :=
      [{ isNonRef := 0, temporalId := 0, refMode := .toPrevRefFrm, refArg := 0, repeat' := 0 },
        { isNonRef := 0, temporalId := 1, refMode := .toPrevRefFrm, refArg := 0, repeat' := 1 },
        { isNonRef := 0, temporalId := 0, refMode := .toTemporalLayer, refArg := 0,
          repeat' := 0 }] }

/-- The entry that is repeated once: the fourth frame refers to the first one, which the
    dpb has removed with the virtual buffer, and its look-up ends the program. -/
theorem frame_not_followed : ∃ cfg s₀ s p cpb,
    encInit repeatCfg = some (cfg, s₀) ∧ cfg.cpbInfo.dpbSize ≤ (maxCpbRefs : ℤ) ∧
      (encMachine s₀).Reachable s ∧ mppEncRefsGetCpb s.1 default = some (p, cpb) ∧
      p.cpb.seqIdx ≤ 65536 ∧ cpb.curr.forcePskipIsRef = false ∧ h264eDpbProc s.2 cpb = none := by
  have hrun : ((encInit repeatCfg).any fun c =>
      decide (c.1.cpbInfo.dpbSize ≤ (maxCpbRefs : ℤ)) &&
      (Machine.run encStep InStep c.2 (List.replicate 3 (.frame default))).any fun s =>
        (mppEncRefsGetCpb s.1 default).any fun r =>
          decide (r.1.cpb.seqIdx ≤ 65536 ∧ r.2.curr.forcePskipIsRef = false) &&
            (h264eDpbProc s.2 r.2).isNone) = true := by
    decide +kernel
  obtain ⟨⟨cfg, s₀⟩, hinit, hv⟩ := (any_eq_true _ _).1 hrun
  rw [and_eq_true, decide_eq_true_eq] at hv
  obtain ⟨hfit, hv⟩ := hv
  obtain ⟨s, hs, hv⟩ := (any_eq_true _ _).1 hv
  obtain ⟨⟨p, cpb⟩, hget, hv⟩ := (any_eq_true _ _).1 hv
  rw [and_eq_true, decide_eq_true_eq, isNone_iff_eq_none] at hv
  obtain ⟨⟨hgop, hpskip⟩, hnone⟩ := hv
  have hreach : ((encMachine s₀).guarded InStep).Reachable s := Machine.Reachable.run (.init rfl) hs
  exact ⟨cfg, s₀, s, p, cpb, hinit, hfit, hreach.of_guarded, hget, hgop, hpskip, hnone⟩

end Libmpp.H264e
