import Libmpp.EncRef.Rollback
import Libmpp.EncRef.Snapshot

/-!
# The indices of the reference tables

A reference is looked up by temporal id, by long-term index or by slot with the argument of
its mode as an index, and nothing checks that the table has an entry there. The argument comes
from an entry of the configuration or is forced by the user. When all of these are indices of
their tables (`InTable`), so are those of every frame and of the dry run
(`lookups_inTable`): the counters of the long-term entries, also the stashed ones, keep their
arguments (`Counted`). The indices a frame is stored under have 4 bits, and the tables 16
entries.
-/

namespace Libmpp.EncRef

open Option

/-- The table of a reference mode has an entry with the argument as its index. -/
def InTable (ref : MppEncRefMode × Int8) : Prop :=
  match ref.1 with
  | .toTemporalLayer => 0 ≤ ref.2.toInt ∧ ref.2.toInt < maxCpbTidFrm
  | .toLtRefIdx => 0 ≤ ref.2.toInt ∧ ref.2.toInt < maxCpbLtFrm
  | .toStPrevNRef => 0 ≤ ref.2.toInt ∧ ref.2.toInt < maxCpbFrm
  | _ => True

instance (ref : MppEncRefMode × Int8) : Decidable (InTable ref) := by
  unfold InTable
  cases ref.1 <;> dsimp only <;> infer_instance

theorem tableRef_isSome {n : ℕ} (refs : Vector EncFrmStatus n) (arg : ℤ) :
    (tableRef refs arg).isSome ↔ 0 ≤ arg ∧ arg < n := by
  rw [tableRef]
  split_ifs with h
  · rw [and_iff_right h, ← Int.toNat_lt h]
    by_cases hlt : arg.toNat < n
    · rw [Vector.getElem?_eq_getElem hlt]
      exact iff_of_true rfl hlt
    · rw [Vector.getElem?_eq_none (not_lt.1 hlt)]
      exact iff_of_false Bool.false_ne_true hlt
  · exact iff_of_false Bool.false_ne_true fun hc => h hc.1

/-- The lookup reads an entry of its table, unless the frame is IDR. -/
theorem getRefFromCpb_inTable (cpb : EncVirtualCpb) (frm : EncFrmStatus) :
    (getRefFromCpb cpb frm).isSome ↔ frm.isIdr ∨ InTable frm.ref := by
  rw [getRefFromCpb, EncFrmStatus.ref, InTable]
  cases frm.isIdr with
  | true => exact iff_of_true rfl (.inl rfl)
  | false =>
    rw [if_neg Bool.false_ne_true, or_iff_right Bool.false_ne_true]
    cases frm.refMode <;> dsimp only
    case toTemporalLayer | toLtRefIdx | toStPrevNRef =>
      rw [isSome_map, tableRef_isSome]
    all_goals exact iff_of_true rfl trivial

/-! ## Where the arguments come from -/

/-- How the entry of a counter selects the reference. -/
def RefsCnt.ref (c : RefsCnt) : MppEncRefMode × Int8 := (c.refMode, .ofInt c.refArg)

/-- The arguments of a configuration are indices of their tables. -/
structure CfgInTable (cfg : MppEncRefCfgImpl) : Prop where
  st : ∀ stCfg ∈ cfg.stCfg, InTable (stCfg.refMode, .ofInt stCfg.refArg)
  lt : ∀ ltCfg ∈ cfg.ltCfg, InTable (ltCfg.refMode, .ofInt ltCfg.refArg)

/-- The argument that the user forces, if any, is an index of its table. -/
def UsrInTable (usrCfg : MppEncRefFrmUsrCfg) : Prop :=
  usrCfg.has encForceRefMode → InTable usrCfg.forcedRef

/-- The arguments of the counters are indices of their tables. -/
def Counted (cpb : EncVirtualCpb) : Prop := ∀ i, InTable (cpb.ltCnter.get i).ref

theorem counted_zero : Counted 0 := by
  intro i
  have hzero : (0 : EncVirtualCpb).ltCnter.get i = 0 := Vector.get_replicate _ (0 : RefsCnt) i
  rw [hzero]
  trivial

theorem ltCfgStep_ref (c : RefsCnt) (frm : EncFrmStatus) (b : Bool) :
    (ltCfgStep c frm b).1.ref = c.ref := by
  rw [ltCfgStep]
  split_ifs
  · rfl
  all_goals
    dsimp only
    split_ifs <;> rfl

/-- The rounds of the counters keep their arguments. -/
theorem ltCfgLoop_ref (cnt : ℕ) (ltCnter : Vector RefsCnt maxCpbLtFrm) (frm : EncFrmStatus)
    (j : Fin maxCpbLtFrm) : ((ltCfgLoop cnt ltCnter frm).1.get j).ref = (ltCnter.get j).ref := by
  have hround : ∀ (s : Vector RefsCnt maxCpbLtFrm × EncFrmStatus × Bool) i,
      ((ltCfgRound cnt s i).1.get j).ref = (s.1.get j).ref := by
    rintro ⟨v, frm, b⟩ i
    rw [ltCfgRound]
    dsimp only
    split_ifs with hi
    · by_cases hij : i = j
      · subst hij
        have hstep := ltCfgStep_ref (v.get i) frm b
        simpa [Vector.get_eq_getElem] using hstep
      · have := Fin.val_ne_of_ne hij
        simp [Vector.get_eq_getElem, this]
    · rfl
  have hrounds : ∀ (l : List (Fin maxCpbLtFrm)) s,
      ((l.foldl (ltCfgRound cnt) s).1.get j).ref = (s.1.get j).ref := by
    intro l
    induction l with
    | nil => exact fun _ => rfl
    | cons i l ih => exact fun s => (ih _).trans (hround s i)
  exact hrounds (List.finRange _) (ltCnter, frm, false)

variable {cpb : EncVirtualCpb} {frm : EncFrmStatus}

/-- The frame that the counters leave selects its reference as before, or as one of them. -/
theorem ltCfgLoop_inTable {cnt : ℕ} (h : Counted cpb) (hfrm : InTable frm.ref) :
    InTable (ltCfgLoop cnt cpb.ltCnter frm).2.ref := by
  rw [ltCfgLoop_frm, ltClaim]
  cases (List.finRange maxCpbLtFrm).find? fun i =>
      i.val < cnt && (cpb.ltCnter.get i).claims with
  | none => exact hfrm
  | some i =>
    rw [map_some, elim_some, setLtCfgToFrm]
    split_ifs
    · exact h i
    · exact hfrm

theorem counted_ltCfgLoop {cpb' : EncVirtualCpb} (cnt : ℕ) (frm : EncFrmStatus) (h : Counted cpb)
    (hcnt : cpb'.ltCnter = (ltCfgLoop cnt cpb.ltCnter frm).1) : Counted cpb' := by
  intro i
  rw [hcnt, ltCfgLoop_ref]
  exact h i

theorem Counted.cleanup (h : Counted cpb) : Counted (cleanupCpbRefs cpb) := by
  intro i
  have hget : ((cleanupCpbRefs cpb).ltCnter.get i).ref = (cpb.ltCnter.get i).ref := by
    simp [cleanupCpbRefs, Vector.get_eq_getElem, RefsCnt.ref]
  rw [hget]
  exact h i

theorem Counted.updateGop {p : MppEncRefsImpl} (h : Counted p.cpb) :
    Counted (updateGop p).cpb := by
  by_cases hr : Restarts p
  · obtain ⟨n, hn⟩ := updateGop_of_restarts hr
    rw [hn]
    exact h.cleanup
  · intro i
    rw [(updateGop_of_not_restarts hr).2.2.2]
    exact h i

theorem Counted.setCfg {p p' : MppEncRefsImpl} {refCfg : Option MppEncRefCfgImpl}
    (h : Counted p.cpb) (hcfg : CfgInTable (refCfg.getD mppEncRefDefault))
    (hset : mppEncRefsSetCfg p refCfg = some p') : Counted p'.cpb := by
  rw [mppEncRefsSetCfg] at hset
  split_ifs at hset with hlen hkeep
  all_goals
    rw [← some.inj hset]
    intro i
    simp only [Vector.get_eq_getElem, Vector.getElem_ofFn]
    split
    · rename_i ltCfg hlt
      exact hcfg.lt ltCfg (List.mem_of_getElem? hlt)
  · exact h i
  · exact counted_zero i

/-- The restart decision leaves what the user forces on the reference. -/
theorem UsrInTable.updateGop {p : MppEncRefsImpl} (h : UsrInTable p.usrCfg) :
    UsrInTable (updateGop p).usrCfg := by
  have husr : (EncRef.updateGop p).usrCfg = p.usrCfg ∨
      (EncRef.updateGop p).usrCfg = p.usrCfg.clear encForceIdr := by
    unfold EncRef.updateGop
    split_ifs <;> simp only [] <;> split_ifs <;> first | exact .inl rfl | exact .inr rfl
  rcases husr with husr | husr
  · rw [husr]
    exact h
  · rw [husr]
    exact fun hhas => h ((has_clear (by decide)).1 hhas)

/-! ## Frames -/

/-- The manager has arguments that are indices of their tables, also in the stashed buffer. -/
structure ArgsInTable (p : MppEncRefsImpl) : Prop where
  cfg : ∀ cfg, p.refCfg = some cfg → CfgInTable cfg
  usr : UsrInTable p.usrCfg
  cpb : Counted p.cpb
  stash : Counted p.cpbStash

variable {p p' : MppEncRefsImpl}

variable {stCfg : MppEncRefStFrmCfg}

theorem stCfgFrm_ref (h : stCfgFrm p stCfg = some (p', frm)) :
    frm.ref = (stCfg.refMode, .ofInt stCfg.refArg) := by
  rw [stCfgFrm_eq] at h
  obtain ⟨flags, -, h⟩ := map_eq_some_iff.1 h
  obtain ⟨-, rfl⟩ := Prod.mk.inj h
  rfl

theorem ltCfgFrm_ltCnter (p : MppEncRefsImpl) (cfg : MppEncRefCfgImpl) (frm : EncFrmStatus) :
    (ltCfgFrm p cfg frm).1.cpb.ltCnter = (ltCfgLoop cfg.ltCfg.length p.cpb.ltCnter frm).1 := by
  rw [ltCfgFrm]

theorem forceFrm_ltCnter (p : MppEncRefsImpl) (cfg : MppEncRefCfgImpl) (frm : EncFrmStatus) :
    (forceFrm p cfg frm).1.cpb.ltCnter = p.cpb.ltCnter := by
  have h := congrArg (fun q : MppEncRefsImpl => q.cpb.ltCnter) (forceFrm_onlyUsr p cfg frm)
  refine h.trans ?_
  dsimp only [forcedCpb]
  split_ifs <;> rfl

theorem nextStCfg_ltCnter (cpb : EncVirtualCpb) (stCfg : MppEncRefStFrmCfg) :
    (nextStCfg cpb stCfg).ltCnter = cpb.ltCnter := by
  rw [nextStCfg]
  split_ifs <;> rfl

/-- A frame selects its reference as the user forces it, or as an entry of the configuration
    does, and the counters keep their arguments. -/
theorem ArgsInTable.getCpbFrm (h : ArgsInTable p) (hfrm : getCpbFrm p = some (p', frm)) :
    InTable frm.ref ∧ Counted p'.cpb := by
  simp only [EncRef.getCpbFrm, bind_eq_bind, bind_eq_some_iff, some.injEq,
    Prod.mk.injEq] at hfrm
  obtain ⟨cfg, hcfg, stCfg, hst, ⟨p₁, frm₁⟩, hfrm₁, rfl, rfl⟩ := hfrm
  have href₁ := stCfgFrm_ref hfrm₁
  obtain ⟨rfl, -, -⟩ := stCfgFrm_spec hfrm₁
  have hcnt : Counted (bumpSeqIdx (beginFrm p cfg)).cpb := h.cpb.updateGop
  have husr : UsrInTable (bumpSeqIdx (beginFrm p cfg)).usrCfg := h.usr.updateGop
  generalize bumpSeqIdx (beginFrm p cfg) = q at hcnt husr ⊢
  have hfrm₁ : InTable frm₁.ref :=
    href₁ ▸ (h.cfg cfg hcfg).st stCfg (List.mem_of_getElem? hst)
  have hlt : InTable (ltCfgFrm q cfg frm₁).2.ref := ltCfgLoop_inTable hcnt hfrm₁
  constructor
  · change InTable (forceFrm (ltCfgFrm q cfg frm₁).1 cfg (ltCfgFrm q cfg frm₁).2).2.ref
    rw [forceFrm_ref]
    split_ifs with hhas
    · exact husr hhas
    · exact hlt
  · refine counted_ltCfgLoop cfg.ltCfg.length frm₁ hcnt ?_
    rw [nextStCfg_ltCnter, forceFrm_ltCnter, ltCfgFrm_ltCnter]

/-- After a frame the user forces no reference. -/
theorem getCpb_usrInTable {st st' : EncCpbStatus} (h : mppEncRefsGetCpb p st = some (p', st')) :
    UsrInTable p'.usrCfg := by
  have hflags : p'.usrCfg.forceFlag = p.usrCfg.forceFlag &&& ~~~frmFlags := rollback_flags h
  intro hhas
  have hmask : ~~~frmFlags &&& encForceRefMode = 0 := by decide
  rw [MppEncRefFrmUsrCfg.has, hflags, UInt32.and_assoc, hmask, UInt32.and_zero] at hhas
  exact absurd rfl hhas

/-! ## Runs -/

/-- The arguments that are given to the manager are indices of their tables. -/
def GivesInTable (_ : MppEncRefsImpl) (op : RefsOp) (_ : MppEncRefsImpl) : Prop :=
  match op with
  | .setCfg refCfg => CfgInTable (refCfg.getD mppEncRefDefault)
  | .setUsrCfg cfg => UsrInTable cfg
  | _ => True

theorem ArgsInTable.step {op : RefsOp} (h : ArgsInTable p) (hstep : refsStep p op = some p')
    (hgives : GivesInTable p op p') : ArgsInTable p' := by
  obtain ⟨hcpb, hstash⟩ : Counted p'.cpb ∧ Counted p'.cpbStash := by
    refine refsStep_cpb ⟨h.cpb, h.stash⟩ hstep (fun cpb refr hc => hc) ?_ ?_
    · rintro refCfg rfl hset
      exact h.cpb.setCfg hgives hset
    · rintro st st' - hget
      obtain ⟨p₁, frm, ref, hframe⟩ := mppEncRefsGetCpb_spec hget
      obtain ⟨refr, heq⟩ := hframe.cpb
      have hcnt := (h.getCpbFrm hframe.frm_eq).2
      intro i
      rw [heq]
      dsimp only
      rw [(storeRefToCpb_counters _ _).2.1]
      exact hcnt i
  -- what is left are the configuration and what the user forces
  suffices hrest : (∀ cfg, p'.refCfg = some cfg → CfgInTable cfg) ∧ UsrInTable p'.usrCfg from
    ⟨hrest.1, hrest.2, hcpb, hstash⟩
  cases op with
  | setCfg refCfg =>
    refine ⟨fun cfg hcfg => ?_, ?_⟩
    · rw [(mppEncRefsSetCfg_info hstep).1] at hcfg
      exact some.inj hcfg ▸ hgives
    · rw [(mppEncRefsSetCfg_spec hstep).2.1]
      exact h.usr
  | setUsrCfg cfg =>
    obtain rfl := some.inj hstep
    exact ⟨h.cfg, hgives⟩
  | setRcIgop igop =>
    obtain rfl := some.inj hstep
    rw [mppEncRefsSetRcIgop]
    split_ifs <;> exact ⟨h.cfg, h.usr⟩
  | setRefreshLength len =>
    obtain rfl := some.inj hstep
    rw [mppEncRefsSetRefreshLength]
    split_ifs <;> exact ⟨h.cfg, h.usr⟩
  | forceRecon | stash | rollback =>
    obtain rfl := some.inj hstep
    exact ⟨h.cfg, h.usr⟩
  | getCpb status =>
    obtain ⟨⟨p', st'⟩, hget, rfl⟩ := map_eq_some_iff.1 hstep
    refine ⟨fun cfg hcfg => h.cfg cfg ?_, getCpb_usrInTable hget⟩
    obtain ⟨p₁, frm, ref, hframe⟩ := mppEncRefsGetCpb_spec hget
    obtain ⟨refr, heq⟩ := hframe.cpb
    rw [← hcfg, heq]
    exact (getCpbFrm_spec hframe.frm_eq).setup.refCfg.symm
  | getCpbPass1 status =>
    obtain ⟨⟨p', st'⟩, hget, rfl⟩ := map_eq_some_iff.1 hstep
    obtain ⟨refr, rfl⟩ := mppEncRefsGetCpbPass1_spec hget
    exact ⟨h.cfg, h.usr⟩

theorem reachable_argsInTable (h : (refsMachine.guarded GivesInTable).Reachable p) :
    ArgsInTable p := by
  refine Machine.Reachable.invariant (P := ArgsInTable) ?_ ?_ h
  · rintro _ rfl
    have husr : UsrInTable 0 := fun hhas => absurd rfl hhas
    exact ⟨fun cfg hcfg => absurd hcfg (by simp [mppEncRefsInit]), husr, counted_zero, counted_zero⟩
  · rintro p op p' - hp ⟨hstep, hgives⟩
    exact hp.step hstep hgives

/-! ## The dry run -/

/-- The marks of an intra refresh do not divide by zero. -/
def Refreshes (p : MppEncRefsImpl) : Prop := p.refreshLength = 0 ∨ p.igop ≠ 0

theorem setFrmRefreshFlag_isSome (h : Refreshes p) (frm : EncFrmStatus) :
    ∃ frm', setFrmRefreshFlag p frm = some frm' ∧ frm'.ref = frm.ref := by
  rw [setFrmRefreshFlag]
  by_cases hr : p.refreshLength ≠ 0
  · rw [if_pos hr, if_neg (h.resolve_left hr)]
    exact ⟨_, rfl, rfl⟩
  · rw [if_neg hr]
    exact ⟨_, rfl, rfl⟩

variable {s : DryrunState}

/-- A frame of the dry run finds its reference. -/
theorem dryrunFrm_isSome (h : Refreshes p) (cnt : ℕ)
    (hst : InTable (stCfg.refMode, .ofInt stCfg.refArg)) (hs : Counted s.cpb) :
    ∃ s', dryrunFrm p cnt stCfg s = some s' ∧ Counted s'.cpb := by
  have hp : Refreshes { p with cpb := s.cpb } := h
  obtain ⟨frm, hfrm, href⟩ := setFrmRefreshFlag_isSome hp (setStCfgToFrm s.seqIdx stCfg)
  have hlt : InTable (ltCfgLoop cnt s.cpb.ltCnter frm).2.ref :=
    ltCfgLoop_inTable hs (by rw [href]; exact hst)
  have hget := (getRefFromCpb_inTable { s.cpb with ltCnter := (ltCfgLoop cnt s.cpb.ltCnter frm).1 }
    (ltCfgLoop cnt s.cpb.ltCnter frm).2).2 (.inr hlt)
  obtain ⟨ref, hget⟩ := isSome_iff_exists.1 hget
  simp only [dryrunFrm, hfrm, bind_eq_bind, bind_some, hget]
  refine ⟨_, rfl, counted_ltCfgLoop cnt frm hs ?_⟩
  dsimp only
  rw [(storeRefToCpb_counters _ _).2.1]

theorem dryrunRepeat_isSome (h : Refreshes p) (cnt : ℕ)
    (hst : InTable (stCfg.refMode, .ofInt stCfg.refArg)) (n : ℕ) (hs : Counted s.cpb) :
    ∃ s', dryrunRepeat p cnt stCfg n s = some s' ∧ Counted s'.cpb := by
  induction n generalizing s with
  | zero => exact ⟨s, rfl, hs⟩
  | succ n ih =>
    obtain ⟨s₁, h₁, hs₁⟩ := dryrunFrm_isSome h cnt hst hs
    rw [dryrunRepeat, h₁]
    exact ih hs₁

theorem dryrunWalk_isSome (h : Refreshes p) {cfg : MppEncRefCfgImpl} (hcfg : CfgInTable cfg)
    (hne : cfg.stCfg ≠ []) (l : List ℕ) (hs : Counted s.cpb) :
    ∃ s', dryrunWalk p cfg l s = some s' := by
  induction l generalizing s with
  | nil => exact ⟨s, rfl⟩
  | cons i l ih =>
    have hpos := List.length_pos_iff.2 hne
    obtain ⟨stCfg, hentry⟩ : ∃ stCfg, cfg.stCfg[i % cfg.stCfg.length]? = some stCfg :=
      ⟨_, List.getElem?_eq_getElem (Nat.mod_lt i hpos)⟩
    have hmem := hcfg.st _ (List.mem_of_getElem? hentry)
    obtain ⟨s₁, h₁, hs₁⟩ := dryrunRepeat_isSome h cfg.ltCfg.length hmem
      (if stCfg.repeat' ≠ 0 then stCfg.repeat' else 1).toNat hs
    obtain ⟨s₂, h₂⟩ := ih hs₁
    refine ⟨s₂, ?_⟩
    rw [dryrunWalk, dryrunStCfg, if_neg hpos.ne', hentry, bind_eq_bind, bind_some]
    dsimp only
    rw [h₁, bind_eq_bind, bind_some, h₂]

/-- The dry run comes to its end. -/
theorem ArgsInTable.dryrun (h : ArgsInTable p) (hr : Refreshes p) {cfg : MppEncRefCfgImpl}
    (hcfg : p.refCfg = some cfg) (hne : cfg.stCfg ≠ []) : (mppEncRefsDryrun p).isSome := by
  rw [mppEncRefsDryrun, hcfg, bind_eq_bind, bind_some]
  split_ifs
  · rfl
  · have hargs := h.cfg cfg hcfg
    have hmax : CfgInTable { cfg with maxTlayers := (cleanupCpbRefs p.cpb).info.maxStTid + 1 } :=
      ⟨hargs.st, hargs.lt⟩
    obtain ⟨s, hs⟩ := dryrunWalk_isSome hr hmax hne
      (List.range (max cfg.ltCfg.length cfg.stCfg.length))
      (s := { cpb := cleanupCpbRefs p.cpb, seqIdx := 0, cpbStUsedSize := 0 }) h.cpb.cleanup
    dsimp only
    rw [hs]
    rfl

/-! ## All lookups -/

/-- Every index that the manager uses next lies inside its table: the one its next frame is
    looked up by and those it is stored under, that of a first-pass frame, and those of a dry
    run, which comes to its end. -/
structure IndicesInTable (p : MppEncRefsImpl) : Prop where
  lookup : ∀ p₁ frm, getCpbFrm p = some (p₁, frm) → (getRefFromCpb p₁.cpb frm).isSome
  store : ∀ p₁ frm, getCpbFrm p = some (p₁, frm) →
    frm.ltIdx.val < maxCpbLtFrm ∧ frm.temporalId.val < maxCpbTidFrm
  pass1 : ∀ frm : EncFrmStatus, frm.refMode = .toPrevRefFrm → (getRefFromCpb p.cpb frm).isSome
  dryrun : ∀ cfg, p.refCfg = some cfg → cfg.stCfg ≠ [] → Refreshes p →
    (mppEncRefsDryrun p).isSome

/-- In a run in which all arguments given to the manager are indices of their tables, every
    index it uses lies inside its table. -/
theorem lookups_inTable (h : (refsMachine.guarded GivesInTable).Reachable p) :
    IndicesInTable p := by
  have hargs := reachable_argsInTable h
  refine ⟨fun p₁ frm hfrm => ?_, fun p₁ frm _ => ⟨frm.ltIdx.isLt, frm.temporalId.isLt⟩,
    fun frm hmode => ?_, fun cfg hcfg hne hr => hargs.dryrun hr hcfg hne⟩
  · exact (getRefFromCpb_inTable _ _).2 (.inr (hargs.getCpbFrm hfrm).1)
  · refine (getRefFromCpb_inTable _ _).2 (.inr ?_)
    rw [EncFrmStatus.ref, InTable, hmode]
    trivial

/-- The user forces a frame to refer to the long-term frame with the index `arg`. -/
def forceUse (arg : ℤ) : MppEncRefFrmUsrCfg :=
  { (0 : MppEncRefFrmUsrCfg) with
    forceFlag := encForceRefMode, forceRefMode := .toLtRefIdx, forceRefArg := arg }

/-- The default configuration, and a frame that is forced to refer to the last index. -/
theorem lookups_inTable_default :
    ∃ p, mppEncRefsSetCfg mppEncRefsInit none = some p ∧
      IndicesInTable (mppEncRefsSetUsrCfg p (forceUse 15)) := by
  have hset : (mppEncRefsSetCfg mppEncRefsInit none).isSome := by decide
  obtain ⟨p, hp⟩ := isSome_iff_exists.1 hset
  have hcfg : CfgInTable mppEncRefDefault := ⟨by decide, by decide⟩
  have husr : UsrInTable (forceUse 15) := fun _ => by decide
  have hfirst : (refsMachine.guarded GivesInTable).Reachable p :=
    .step (a := .setCfg none) (.init rfl) ⟨hp, hcfg⟩
  exact ⟨p, hp, lookups_inTable (.step (a := .setUsrCfg (forceUse 15)) hfirst ⟨rfl, husr⟩)⟩

/-- With the default configuration, the user forces the second frame to refer to the long-term
    frame with the index 16: there is no entry for it. -/
theorem lookups_not_inTable :
    ¬∀ p, (refsMachine.guarded Accepts).Reachable p → IndicesInTable p := by
  intro hall
  have hrun : ((Machine.run refsStep (SetsOnly [none]) mppEncRefsInit
      [.setCfg none, .getCpb default, .setUsrCfg (forceUse 16)]).any fun p =>
        (getCpbFrm p).any fun s => (getRefFromCpb s.1.cpb s.2).isNone) = true := by
    decide
  obtain ⟨p, hp, hv⟩ := (any_eq_true _ _).1 hrun
  obtain ⟨⟨p₁, frm⟩, hfrm, hnone⟩ := (any_eq_true _ _).1 hv
  have hreach := reachable_of_run (fun cfg' hmem => by simp at hmem) hp
  have hsome := (hall p hreach).lookup p₁ frm hfrm
  rw [isNone_iff_eq_none] at hnone
  rw [hnone] at hsome
  exact absurd hsome Bool.false_ne_true

end Libmpp.EncRef
