import Libmpp.EncRef.Intra

/-!
# The status of a frame, in closed form

What the status of the next frame is made of, behind the decision to restart the gop.

* `updateGop_of_restartsAnyway` and `updateGop_of_not_restartsAnyway` give the decision by
  what asks for the restart; it is the only step that reads `changed`.
* `ltCfgLoop_frm` gives the long-term entry that claims the frame.
* `forceFrm_ref` and `forceFrm_congr` say what is left of the short-term entry behind what
  the user forces.
* `statusFrm_ref` and `statusFrm_spec` put them together.
-/

namespace Libmpp.EncRef

/-! ## The steps of a frame -/

/-- Steps 2 to 4 of a frame that is coded by the short-term entry `stCfg`. -/
def statusFrm (p : MppEncRefsImpl) (cfg : MppEncRefCfgImpl) (stCfg : MppEncRefStFrmCfg) :
    Option (MppEncRefsImpl × EncFrmStatus) :=
  (stCfgFrm p stCfg).map fun s =>
    let (p, frm) := ltCfgFrm s.1 cfg s.2
    let (p, frm) := forceFrm p cfg frm
    (p, { frm with nonRecn := (frm.isNonRef || p.igop = 1) && !p.forceRecon })

/-- The steps of a frame behind the restart decision, which left the manager `u`. -/
def restFrm (u : MppEncRefsImpl) (cfg : MppEncRefCfgImpl) :
    Option (MppEncRefsImpl × EncFrmStatus) := do
  let p := { u with cpb := { u.cpb with
    frmIdx := u.cpb.frmIdx + 1
    stCfgPos := getCpbStCfgPos u.cpb cfg } }
  let stCfg ← cfg.stCfg[getCpbStCfgPos u.cpb cfg]?
  let (p, frm) ← statusFrm p cfg stCfg
  some ({ p with cpb := nextStCfg p.cpb stCfg }, frm)

theorem getCpbFrm_eq (p : MppEncRefsImpl) : getCpbFrm p = p.refCfg.bind (restFrm (updateGop p)) := by
  unfold getCpbFrm
  cases p.refCfg with
  | none => rfl
  | some cfg =>
    simp only [Option.bind_eq_bind, Option.bind_some, restFrm, statusFrm, beginFrm,
      Option.bind_map, Function.comp_def]

/-! ## The restart decision -/

/-- The next frame restarts the gop, whatever changes are pending. -/
def RestartsAnyway (p : MppEncRefsImpl) : Prop :=
  (GopEnd p ∧ p.refreshLength = 0) ∨ p.usrCfg.has encForceIdr

/-- A change of the reference configuration is pending. -/
def CfgChanged (p : MppEncRefsImpl) : Prop := p.changed &&& encRefsRefCfgChanged ≠ 0

instance (p : MppEncRefsImpl) : Decidable (RestartsAnyway p) :=
  inferInstanceAs (Decidable (_ ∨ _))

instance (p : MppEncRefsImpl) : Decidable (CfgChanged p) := inferInstanceAs (Decidable (_ ≠ _))

/-- The turn of the intra refresh that the next frame is in. -/
def turnSeqCnt (p : MppEncRefsImpl) : ℤ :=
  if GopEnd p then (p.cpb.seqIdx : ℤ).tdiv p.igop + 1 else p.cpb.seqCnt

/-- The buffer when the gop goes on. -/
def turnCpb (p : MppEncRefsImpl) : EncVirtualCpb := { p.cpb with seqCnt := turnSeqCnt p }

variable {p : MppEncRefsImpl}

theorem updateGop_of_restartsAnyway (h : RestartsAnyway p) (c : UInt32) :
    updateGop { p with changed := c } = updateGop p := by
  by_cases hg : p.igop ≠ 0 ∧ (p.cpb.seqIdx : ℤ) ≥ p.igop <;> by_cases hr : p.refreshLength = 0 <;>
    by_cases hi : p.usrCfg.has encForceIdr <;>
    simp only [RestartsAnyway, GopEnd, hg, hr, hi, and_false, false_and, and_self, or_self] at h <;>
    simp only [updateGop, hg, hr, hi, ne_eq, not_true_eq_false, not_false_eq_true, and_self,
      ↓reduceIte]

theorem updateGop_of_not_restartsAnyway (h : ¬RestartsAnyway p) :
    updateGop p =
      { p with
        changed := 0
        cpb :=
          if IgopChanged p then cleanupCpbRefs (turnCpb p)
          else if CfgChanged p then { turnCpb p with stCfgPos := 0, stCfgRepeatPos := 0 }
          else turnCpb p } := by
  obtain ⟨hg, hi⟩ := not_or.1 h
  by_cases hg' : GopEnd p
  · have hr : p.refreshLength ≠ 0 := fun hr => hg ⟨hg', hr⟩
    have ht : turnCpb p =
        { p.cpb with seqCnt := (p.cpb.seqIdx : ℤ).tdiv p.igop + 1 } := by
      rw [turnCpb, turnSeqCnt, if_pos hg']
    rw [ht]
    unfold GopEnd at hg'
    by_cases hc : IgopChanged p
    · rw [if_pos hc]
      have hd : decide (p.changed &&& encRefsIgopChanged ≠ 0) = true := decide_eq_true hc
      simp only [updateGop, if_pos hg', if_pos hr, if_neg hi, hd, if_true]
    · rw [if_neg hc]
      have hd : decide (p.changed &&& encRefsIgopChanged ≠ 0) = false := decide_eq_false hc
      by_cases hr' : CfgChanged p
      · rw [if_pos hr']
        unfold CfgChanged at hr'
        simp only [updateGop, if_pos hg', if_pos hr, if_neg hi, hd, Bool.false_eq_true, if_false,
          if_pos hr']
      · rw [if_neg hr']
        unfold CfgChanged at hr'
        simp only [updateGop, if_pos hg', if_pos hr, if_neg hi, hd, Bool.false_eq_true, if_false,
          if_neg hr']
  · have ht : turnCpb p = p.cpb := by
      rw [turnCpb, turnSeqCnt, if_neg hg']
    rw [ht]
    unfold GopEnd at hg'
    by_cases hc : IgopChanged p
    · rw [if_pos hc]
      have hd : decide (p.changed &&& encRefsIgopChanged ≠ 0) = true := decide_eq_true hc
      simp only [updateGop, if_neg hg', if_neg hi, hd, if_true]
    · rw [if_neg hc]
      have hd : decide (p.changed &&& encRefsIgopChanged ≠ 0) = false := decide_eq_false hc
      by_cases hr' : CfgChanged p
      · rw [if_pos hr']
        unfold CfgChanged at hr'
        simp only [updateGop, if_neg hg', if_neg hi, hd, Bool.false_eq_true, if_false,
          if_pos hr']
      · rw [if_neg hr']
        unfold CfgChanged at hr'
        simp only [updateGop, if_neg hg', if_neg hi, hd, Bool.false_eq_true, if_false,
          if_neg hr']

/-! ## The long-term entry that claims the frame -/

/-- The counter is due to claim a frame. -/
def RefsCnt.claims (c : RefsCnt) : Bool := c.delayCnt = 0 && c.cnt = 0

/-- The counter that claims the next frame, the first one due. -/
@[irreducible]
def ltClaim (cnt : ℕ) (ltCnter : Vector RefsCnt maxCpbLtFrm) : Option RefsCnt :=
  ((List.finRange maxCpbLtFrm).find? fun i => i.val < cnt && (ltCnter.get i).claims).map ltCnter.get

/-- How a counter counts does not depend on the frame. -/
theorem ltCfgStep_cnter (c : RefsCnt) (frm frm' : EncFrmStatus) (b b' : Bool) :
    (ltCfgStep c frm b).1 = (ltCfgStep c frm' b').1 := by
  unfold ltCfgStep
  by_cases hd : c.delayCnt ≠ 0
  · rw [if_pos hd, if_pos hd]
  · rw [if_neg hd, if_neg hd]
    dsimp only
    split_ifs <;> rfl

theorem ltCfgStep_frm (c : RefsCnt) (frm : EncFrmStatus) (b : Bool) :
    (ltCfgStep c frm b).2 =
      if b = false ∧ c.claims then (setLtCfgToFrm frm c, true) else (frm, b) := by
  unfold ltCfgStep RefsCnt.claims
  by_cases hd : c.delayCnt = 0 <;> by_cases hc : c.cnt = 0 <;> cases b <;> simp [hd, hc] <;>
    split_ifs <;> rfl

/-- The rounds of some counters, none of which counted before: how they count does not depend
    on the frame, and the first one due claims it. -/
theorem ltCfgRounds_frm (cnt : ℕ) (ltCnter : Vector RefsCnt maxCpbLtFrm) (frm : EncFrmStatus) :
    ∀ (l : List (Fin maxCpbLtFrm)) (w : Vector RefsCnt maxCpbLtFrm) (b : Bool), l.Nodup →
      (∀ i ∈ l, w.get i = ltCnter.get i) →
      (l.foldl (ltCfgRound cnt) (w, frm, b)).2.1 =
        (if b then none
          else (l.find? fun i => i.val < cnt && (ltCnter.get i).claims).map ltCnter.get).elim frm
          (setLtCfgToFrm frm) := by
  intro l
  induction l generalizing frm with
  | nil => intro w b _ _; cases b <;> rfl
  | cons i l ih =>
    intro w b hn hw
    obtain ⟨hi, hn⟩ := List.nodup_cons.1 hn
    have hkeep (c : RefsCnt) : ∀ j ∈ l, (w.set i c).get j = ltCnter.get j := fun j hj => by
      have hij : i.val ≠ j.val := Fin.val_ne_of_ne fun h => hi (h ▸ hj)
      rw [← hw j (List.mem_cons_of_mem _ hj)]
      simp [Vector.get_eq_getElem, hij]
    have hwi := hw i List.mem_cons_self
    rw [List.foldl_cons]
    by_cases hc : i.val < cnt
    · -- The round of a counter in use: it claims the frame when it is due and the first.
      have hround : ltCfgRound cnt (w, frm, b) i =
          (w.set i (ltCfgStep (ltCnter.get i) frm b).1,
            (ltCfgStep (ltCnter.get i) frm b).2) := by
        rw [ltCfgRound]
        simp only [if_pos hc, hwi]
      rw [hround, ltCfgStep_frm]
      cases b with
      | true => simpa using ih frm _ true hn (hkeep _)
      | false =>
        by_cases hcl : (ltCnter.get i).claims
        · simpa [hcl, hc] using ih (setLtCfgToFrm frm (ltCnter.get i)) _ true hn (hkeep _)
        · simpa [hcl, hc] using ih frm _ false hn (hkeep _)
    · have hround : ltCfgRound cnt (w, frm, b) i = (w, frm, b) := by
        rw [ltCfgRound]
        simp only [if_neg hc]
      rw [hround, ih frm w b hn fun j hj => hw j (List.mem_cons_of_mem _ hj)]
      simp [hc]

theorem ltCfgLoop_frm (cnt : ℕ) (ltCnter : Vector RefsCnt maxCpbLtFrm) (frm : EncFrmStatus) :
    (ltCfgLoop cnt ltCnter frm).2 = (ltClaim cnt ltCnter).elim frm (setLtCfgToFrm frm) := by
  have := ltCfgRounds_frm cnt ltCnter frm _ ltCnter false (List.nodup_finRange _) fun _ _ => rfl
  simpa [ltCfgLoop, ltClaim] using this

theorem ltCfgLoop_cnter (cnt : ℕ) (ltCnter : Vector RefsCnt maxCpbLtFrm)
    (frm frm' : EncFrmStatus) :
    (ltCfgLoop cnt ltCnter frm).1 = (ltCfgLoop cnt ltCnter frm').1 := by
  have hrounds : ∀ (l : List (Fin maxCpbLtFrm)) w frm frm' b b',
      (l.foldl (ltCfgRound cnt) (w, frm, b)).1 = (l.foldl (ltCfgRound cnt) (w, frm', b')).1 := by
    intro l
    induction l with
    | nil => exact fun _ _ _ _ _ => rfl
    | cons i l ih =>
      intro w frm frm' b b'
      rw [List.foldl_cons, List.foldl_cons]
      unfold ltCfgRound
      split_ifs
      · dsimp only
        rw [ltCfgStep_cnter _ frm frm' b b']
        exact ih _ _ _ _ _
      · exact ih _ _ _ _ _
  exact hrounds (List.finRange _) ltCnter frm frm' false false

/-! ## What the user forces -/

/-- The frame as a long-term reference. -/
def EncFrmStatus.asLtRef (frm : EncFrmStatus) (ltIdx : Fin 16) : EncFrmStatus :=
  { frm with isNonRef := false, isLtRef := true, ltIdx, temporalId := 0 }

/-- The frame with another reference mode and argument. -/
def EncFrmStatus.withRef (frm : EncFrmStatus) (ref : MppEncRefMode × Int8) : EncFrmStatus :=
  { frm with refMode := ref.1, refArg := ref.2 }

/-- How a frame selects its reference. -/
def EncFrmStatus.ref (frm : EncFrmStatus) : MppEncRefMode × Int8 := (frm.refMode, frm.refArg)

/-- Two frames differ at most in what a short-term entry says about them. -/
def SameBody (frm frm' : EncFrmStatus) : Prop :=
  (frm.withRef (.toPrevRefFrm, 0)).asLtRef 0 = (frm'.withRef (.toPrevRefFrm, 0)).asLtRef 0

variable {frm frm' : EncFrmStatus}

theorem SameBody.asLtRef (h : SameBody frm frm') (ref : MppEncRefMode × Int8) (k : Fin 16) :
    (frm.withRef ref).asLtRef k = (frm'.withRef ref).asLtRef k := by
  have := congrArg (fun f : EncFrmStatus => (f.withRef ref).asLtRef k) h
  exact this

theorem SameBody.isIdr (h : SameBody frm frm') : frm.isIdr = frm'.isIdr := by
  have := congrArg EncFrmStatus.isIdr h
  exact this

/-- What the user forces on the reference of a frame. -/
def MppEncRefFrmUsrCfg.forcedRef (usrCfg : MppEncRefFrmUsrCfg) : MppEncRefMode × Int8 :=
  (usrCfg.forceRefMode, .ofInt usrCfg.forceRefArg)

/-- A flag stays pending when another one is done with. -/
theorem has_clear {usrCfg : MppEncRefFrmUsrCfg} {flag flag' : UInt32}
    (h : ~~~flag &&& flag' = flag') : (usrCfg.clear flag).has flag' ↔ usrCfg.has flag' := by
  rw [MppEncRefFrmUsrCfg.has, MppEncRefFrmUsrCfg.clear, UInt32.and_assoc, h]
  rfl

theorem forceLtRefIdx_of_has (h : p.usrCfg.has encForceLtRefIdx) (frm : EncFrmStatus) :
    forceLtRefIdx p frm =
      ({ p with
          usrCfg := p.usrCfg.clear encForceLtRefIdx
          cpb := { p.cpb with stCfgRepeatPos := 0, stCfgPos := 0 } },
        frm.asLtRef
          (if frm.isIdr ∧ truncTo 16 p.usrCfg.forceLtIdx ≠ 0 then 0
            else truncTo _ p.usrCfg.forceLtIdx)) := by
  rw [forceLtRefIdx, if_pos h]
  dsimp only
  split_ifs <;> rfl

/-- A step that leaves what the user forces on the reference, and the reference, alone. -/
structure KeepsRef (p : MppEncRefsImpl) (frm : EncFrmStatus)
    (s : MppEncRefsImpl × EncFrmStatus) : Prop where
  has : s.1.usrCfg.has encForceRefMode ↔ p.usrCfg.has encForceRefMode
  forced : s.1.usrCfg.forcedRef = p.usrCfg.forcedRef
  ref : s.2.ref = frm.ref

theorem forceLtRefIdx_keepsRef (p : MppEncRefsImpl) (frm : EncFrmStatus) :
    KeepsRef p frm (forceLtRefIdx p frm) := by
  by_cases h : p.usrCfg.has encForceLtRefIdx
  · rw [forceLtRefIdx_of_has h]
    exact ⟨has_clear (by decide), rfl, rfl⟩
  · rw [forceLtRefIdx, if_neg h]
    exact ⟨.rfl, rfl, rfl⟩

theorem forceTemporalId_keepsRef (p : MppEncRefsImpl) (cfg : MppEncRefCfgImpl)
    (frm : EncFrmStatus) : KeepsRef p frm (forceTemporalId p cfg frm) := by
  unfold forceTemporalId
  split_ifs
  · exact ⟨has_clear (by decide), rfl, rfl⟩
  · exact ⟨has_clear (by decide), rfl, rfl⟩
  · exact ⟨.rfl, rfl, rfl⟩

theorem forcePskip_ref (p : MppEncRefsImpl) (frm : EncFrmStatus) :
    (forcePskipIsRef (forcePskipNonRef p frm).1 (forcePskipNonRef p frm).2).2.ref = frm.ref := by
  unfold forcePskipIsRef forcePskipNonRef
  split_ifs <;> rfl

theorem forceRefMode_eq (p : MppEncRefsImpl) (frm : EncFrmStatus) :
    forceRefMode p frm =
      if p.usrCfg.has encForceRefMode then
        ({ p with usrCfg := p.usrCfg.clear encForceRefMode }, frm.withRef p.usrCfg.forcedRef)
      else (p, frm) := rfl

/-- The temporal id of a long-term reference is not forced. -/
theorem forceTemporalId_of_isLtRef (p : MppEncRefsImpl) (cfg : MppEncRefCfgImpl) (h : frm.isLtRef) :
    forceTemporalId p cfg frm =
      (if p.usrCfg.has encForceTemporalId then
        { p with usrCfg := p.usrCfg.clear encForceTemporalId } else p, frm) := by
  unfold forceTemporalId
  by_cases ht : p.usrCfg.has encForceTemporalId
  · rw [if_pos ht, if_pos ht, if_pos (.inr (.inr h))]
  · rw [if_neg ht, if_neg ht]

/-- The reference mode is the one forced, else that of the frame. -/
theorem forceFrm_ref (p : MppEncRefsImpl) (cfg : MppEncRefCfgImpl) (frm : EncFrmStatus) :
    (forceFrm p cfg frm).2.ref =
      if p.usrCfg.has encForceRefMode then p.usrCfg.forcedRef else frm.ref := by
  have h₁ := forceLtRefIdx_keepsRef p frm
  have h₂ := forceTemporalId_keepsRef (forceLtRefIdx p frm).1 cfg (forceLtRefIdx p frm).2
  unfold forceFrm
  dsimp only
  rw [forcePskip_ref, forceRefMode_eq]
  by_cases h : p.usrCfg.has encForceRefMode
  · rw [if_pos (h₂.has.2 (h₁.has.2 h)), if_pos h, ← h₁.forced, ← h₂.forced]
    rfl
  · rw [if_neg fun h' => h (h₁.has.1 (h₂.has.1 h')), if_neg h, ← h₁.ref, ← h₂.ref]

/-- A frame forced to be a long-term reference keeps nothing of its short-term entry but
    its reference mode, and that only when none is forced. -/
theorem forceFrm_congr (cfg : MppEncRefCfgImpl) (h : p.usrCfg.has encForceLtRefIdx)
    (hb : SameBody frm frm') (hr : p.usrCfg.has encForceRefMode ∨ frm.ref = frm'.ref) :
    forceFrm p cfg frm = forceFrm p cfg frm' := by
  unfold forceFrm
  rw [forceLtRefIdx_of_has h, forceLtRefIdx_of_has h, hb.isIdr]
  generalize (if frm'.isIdr ∧ truncTo 16 p.usrCfg.forceLtIdx ≠ 0 then (0 : Fin 16)
    else truncTo _ p.usrCfg.forceLtIdx) = k
  have hq : (p.usrCfg.clear encForceLtRefIdx).has encForceRefMode ↔
      p.usrCfg.has encForceRefMode := has_clear (by decide)
  generalize p.usrCfg.clear encForceLtRefIdx = usrCfg at hq ⊢
  rcases hr with hr | hr
  · -- The reference mode is overwritten.
    have hforced (q : MppEncRefsImpl) (hq : q.usrCfg.has encForceRefMode) :
        forceRefMode q (frm.asLtRef k) = forceRefMode q (frm'.asLtRef k) := by
      rw [forceRefMode_eq, forceRefMode_eq, if_pos hq, if_pos hq]
      exact congrArg (Prod.mk _) (hb.asLtRef q.usrCfg.forcedRef k)
    dsimp only
    rw [forceTemporalId_of_isLtRef _ _ (show (frm.asLtRef k).isLtRef from rfl),
      forceTemporalId_of_isLtRef _ _ (show (frm'.asLtRef k).isLtRef from rfl)]
    dsimp only
    rw [hforced]
    split_ifs
    · exact (has_clear (by decide)).2 (hq.2 hr)
    · exact hq.2 hr
  · have heq : frm.asLtRef k = frm'.asLtRef k := by
      have := hb.asLtRef frm.ref k
      rwa [show frm.withRef frm.ref = frm from rfl, hr,
        show frm'.withRef frm'.ref = frm' from rfl] at this
    rw [heq]

/-- A step that changes the user's configuration only. -/
def OnlyUsr (p p' : MppEncRefsImpl) : Prop := p' = { p with usrCfg := p'.usrCfg }

theorem OnlyUsr.trans {p₁ p₂ p₃ : MppEncRefsImpl} (h : OnlyUsr p₁ p₂) (h' : OnlyUsr p₂ p₃) :
    OnlyUsr p₁ p₃ := by
  unfold OnlyUsr at h h' ⊢
  rw [h', h]

/-- The buffer after the user forced things on a frame: the position in the short-term
    entries is reset for a long-term reference. -/
def forcedCpb (p : MppEncRefsImpl) (cpb : EncVirtualCpb) : EncVirtualCpb :=
  if p.usrCfg.has encForceLtRefIdx then { cpb with stCfgRepeatPos := 0, stCfgPos := 0 } else cpb

theorem forceFrm_onlyUsr (p : MppEncRefsImpl) (cfg : MppEncRefCfgImpl) (frm : EncFrmStatus) :
    OnlyUsr { p with cpb := forcedCpb p p.cpb } (forceFrm p cfg frm).1 := by
  have h₁ : OnlyUsr { p with cpb := forcedCpb p p.cpb } (forceLtRefIdx p frm).1 := by
    unfold forceLtRefIdx forcedCpb
    split_ifs <;> rfl
  have h₂ (p frm) : OnlyUsr p (forceTemporalId p cfg frm).1 := by
    unfold forceTemporalId
    split_ifs <;> rfl
  have h₃ (p frm) : OnlyUsr p (forceRefMode p frm).1 := by
    unfold forceRefMode
    split_ifs <;> rfl
  have h₄ (p frm) : OnlyUsr p (forcePskipNonRef p frm).1 := by
    unfold forcePskipNonRef
    split_ifs <;> rfl
  have h₅ (p frm) : OnlyUsr p (forcePskipIsRef p frm).1 := by
    unfold forcePskipIsRef
    split_ifs <;> rfl
  exact h₁.trans ((h₂ _ _).trans ((h₃ _ _).trans ((h₄ _ _).trans (h₅ _ _))))

/-- Two results of a step agree on the user's configuration and the frame. -/
def SameForced (s s' : MppEncRefsImpl × EncFrmStatus) : Prop :=
  s.1.usrCfg = s'.1.usrCfg ∧ s.2 = s'.2

/-- What the user forces depends on the user's configuration and the frame only. -/
theorem forceFrm_sameForced {p' : MppEncRefsImpl} (cfg : MppEncRefCfgImpl) (frm : EncFrmStatus)
    (h : p.usrCfg = p'.usrCfg) : SameForced (forceFrm p cfg frm) (forceFrm p' cfg frm) := by
  have h₁ : SameForced (forceLtRefIdx p frm) (forceLtRefIdx p' frm) := by
    unfold forceLtRefIdx
    rw [h]
    split_ifs
    · exact ⟨rfl, rfl⟩
    · exact ⟨h, rfl⟩
  have h₂ (s s') (h : SameForced s s') :
      SameForced (forceTemporalId s.1 cfg s.2) (forceTemporalId s'.1 cfg s'.2) := by
    unfold forceTemporalId
    rw [h.1, h.2]
    split_ifs
    · exact ⟨rfl, rfl⟩
    · exact ⟨rfl, rfl⟩
    · exact ⟨h.1, rfl⟩
  have h₃ (s s') (h : SameForced s s') :
      SameForced (forceRefMode s.1 s.2) (forceRefMode s'.1 s'.2) := by
    unfold forceRefMode
    rw [h.1, h.2]
    split_ifs
    · exact ⟨rfl, rfl⟩
    · exact ⟨h.1, rfl⟩
  have h₄ (s s') (h : SameForced s s') :
      SameForced (forcePskipNonRef s.1 s.2) (forcePskipNonRef s'.1 s'.2) := by
    unfold forcePskipNonRef
    rw [h.1, h.2]
    split_ifs
    · exact ⟨rfl, rfl⟩
    · exact ⟨h.1, rfl⟩
  have h₅ (s s') (h : SameForced s s') :
      SameForced (forcePskipIsRef s.1 s.2) (forcePskipIsRef s'.1 s'.2) := by
    unfold forcePskipIsRef
    rw [h.1, h.2]
    split_ifs
    · exact ⟨rfl, rfl⟩
    · exact ⟨h.1, rfl⟩
  exact h₅ _ _ (h₄ _ _ (h₃ _ _ (h₂ _ _ h₁)))

theorem forceFrm_setCpb (p : MppEncRefsImpl) (cfg : MppEncRefCfgImpl) (frm : EncFrmStatus)
    (cpb : EncVirtualCpb) :
    forceFrm { p with cpb } cfg frm =
      ({ (forceFrm p cfg frm).1 with cpb := forcedCpb p cpb }, (forceFrm p cfg frm).2) := by
  have hcfg : p.usrCfg = ({ p with cpb } : MppEncRefsImpl).usrCfg := rfl
  obtain ⟨husr, hfrm⟩ := forceFrm_sameForced cfg frm hcfg
  have houter := forceFrm_onlyUsr p cfg frm
  have houter' := forceFrm_onlyUsr { p with cpb } cfg frm
  rw [OnlyUsr, ← husr] at houter'
  refine Prod.ext (houter'.trans ?_) hfrm.symm
  exact (congrArg (fun q : MppEncRefsImpl => { q with cpb := forcedCpb p cpb }) houter).symm

/-- The user cannot set the pass flag of a frame. -/
theorem forceFrm_usePass1 (p : MppEncRefsImpl) (cfg : MppEncRefCfgImpl) (frm : EncFrmStatus) :
    (forceFrm p cfg frm).2.usePass1 = frm.usePass1 := by
  have h₁ : (forceLtRefIdx p frm).2.usePass1 = frm.usePass1 := by
    by_cases h : p.usrCfg.has encForceLtRefIdx
    · rw [forceLtRefIdx_of_has h]
      rfl
    · rw [forceLtRefIdx, if_neg h]
  have h₂ (s : MppEncRefsImpl × EncFrmStatus) :
      (forceTemporalId s.1 cfg s.2).2.usePass1 = s.2.usePass1 := by
    unfold forceTemporalId
    split_ifs <;> rfl
  have h₃ (s : MppEncRefsImpl × EncFrmStatus) :
      (forceRefMode s.1 s.2).2.usePass1 = s.2.usePass1 := by
    unfold forceRefMode
    split_ifs <;> rfl
  have h₄ (s : MppEncRefsImpl × EncFrmStatus) :
      (forcePskipNonRef s.1 s.2).2.usePass1 = s.2.usePass1 := by
    unfold forcePskipNonRef
    split_ifs <;> rfl
  have h₅ (s : MppEncRefsImpl × EncFrmStatus) :
      (forcePskipIsRef s.1 s.2).2.usePass1 = s.2.usePass1 := by
    unfold forcePskipIsRef
    split_ifs <;> rfl
  exact (h₅ _).trans ((h₄ _).trans ((h₃ _).trans ((h₂ _).trans h₁)))

/-! ## The status of the frame -/

/-- The marks of a frame inside an intra refresh, and at its start. -/
def refreshFlags (p : MppEncRefsImpl) : Option (Bool × Bool) :=
  if p.refreshLength ≠ 0 then
    if p.igop = 0 then none else
    let pos := ((truncTo 65536 p.cpb.seqIdx).val : ℤ).tmod p.igop
    some (decide (UInt32.ofInt pos < p.refreshLength ∧ p.cpb.seqCnt > 1),
      decide (pos = 0 ∧ p.cpb.seqCnt > 1))
  else some (false, false)

/-- The status by the short-term entry `stCfg`. -/
def stFrm (p : MppEncRefsImpl) (flags : Bool × Bool) (stCfg : MppEncRefStFrmCfg) : EncFrmStatus :=
  { setStCfgToFrm p.cpb.seqIdx stCfg with isIRefresh := flags.1, isIRecovery := flags.2 }

theorem stCfgFrm_eq (p : MppEncRefsImpl) (stCfg : MppEncRefStFrmCfg) :
    stCfgFrm p stCfg = (refreshFlags p).map fun flags => (bumpSeqIdx p, stFrm p flags stCfg) := by
  unfold stCfgFrm refreshFlags setFrmRefreshFlag
  by_cases hr : p.refreshLength ≠ 0
  · by_cases hi : p.igop = 0
    · simp only [if_pos hr, if_pos hi, Option.map_none]
    · simp only [if_pos hr, if_neg hi]
      rfl
  · simp only [if_neg hr]
    rfl

/-- The status after the long-term entries. -/
def ltFrm (p : MppEncRefsImpl) (cfg : MppEncRefCfgImpl) (flags : Bool × Bool)
    (stCfg : MppEncRefStFrmCfg) : EncFrmStatus :=
  (ltClaim cfg.ltCfg.length p.cpb.ltCnter).elim (stFrm p flags stCfg)
    (setLtCfgToFrm (stFrm p flags stCfg))

theorem ltFrm_sameBody (p : MppEncRefsImpl) (cfg : MppEncRefCfgImpl) (flags : Bool × Bool)
    (stCfg stCfg' : MppEncRefStFrmCfg) :
    SameBody (ltFrm p cfg flags stCfg) (ltFrm p cfg flags stCfg') := by
  unfold ltFrm
  cases ltClaim cfg.ltCfg.length p.cpb.ltCnter with
  | none => rfl
  | some c =>
    unfold SameBody setLtCfgToFrm
    dsimp only [Option.elim_some]
    split_ifs <;> rfl

/-- The reference mode of the next frame: the one forced, else that of the long-term entry
    that claims the frame, else that of the short-term entry. -/
def nextRef (p : MppEncRefsImpl) (cfg : MppEncRefCfgImpl) (stCfg : MppEncRefStFrmCfg) :
    MppEncRefMode × Int8 :=
  if p.usrCfg.has encForceRefMode then p.usrCfg.forcedRef
  else
    match (ltClaim cfg.ltCfg.length p.cpb.ltCnter).filter (·.refMode ≠ .toStRefSetup) with
    | some c => (c.refMode, .ofInt c.refArg)
    | none => (stCfg.refMode, .ofInt stCfg.refArg)

theorem nextRef_eq (p : MppEncRefsImpl) (cfg : MppEncRefCfgImpl) (flags : Bool × Bool)
    (stCfg : MppEncRefStFrmCfg) :
    nextRef p cfg stCfg =
      if p.usrCfg.has encForceRefMode then p.usrCfg.forcedRef
      else (ltFrm p cfg flags stCfg).ref := by
  unfold nextRef ltFrm
  congr 1
  cases ltClaim cfg.ltCfg.length p.cpb.ltCnter with
  | none => rfl
  | some c =>
    unfold setLtCfgToFrm
    dsimp only [Option.elim_some]
    by_cases hc : c.refMode = .toStRefSetup <;> simp [Option.filter, hc] <;> rfl

/-- The counters of the long-term entries after the frame. -/
@[irreducible]
def nextLtCnter (cnt : ℕ) (ltCnter : Vector RefsCnt maxCpbLtFrm) : Vector RefsCnt maxCpbLtFrm :=
  (ltCfgLoop cnt ltCnter 0).1

/-- The manager after the long-term entries. -/
def ltCounted (p : MppEncRefsImpl) (cfg : MppEncRefCfgImpl) : MppEncRefsImpl :=
  { p with
    cpb := { p.cpb with
      seqIdx := p.cpb.seqIdx + 1
      ltCnter := nextLtCnter cfg.ltCfg.length p.cpb.ltCnter } }

theorem statusFrm_eq (p : MppEncRefsImpl) (cfg : MppEncRefCfgImpl) (stCfg : MppEncRefStFrmCfg) :
    statusFrm p cfg stCfg =
      (refreshFlags p).map fun flags =>
        let s := forceFrm (ltCounted p cfg) cfg (ltFrm p cfg flags stCfg)
        (s.1, { s.2 with nonRecn := (s.2.isNonRef || s.1.igop = 1) && !s.1.forceRecon }) := by
  rw [statusFrm, stCfgFrm_eq, Option.map_map]
  congr 1
  funext flags
  have hlt : ltCfgFrm (bumpSeqIdx p) cfg (stFrm p flags stCfg) =
      (ltCounted p cfg, ltFrm p cfg flags stCfg) := by
    unfold ltCfgFrm ltCounted ltFrm nextLtCnter
    rw [← ltCfgLoop_frm, ltCfgLoop_cnter cfg.ltCfg.length p.cpb.ltCnter 0 (stFrm p flags stCfg)]
    dsimp only [bumpSeqIdx]
  simp only [Function.comp_apply, hlt]

variable {cfg : MppEncRefCfgImpl} {stCfg : MppEncRefStFrmCfg}

theorem statusFrm_ref {q : MppEncRefsImpl} (h : statusFrm p cfg stCfg = some (q, frm)) :
    frm.ref = nextRef p cfg stCfg := by
  rw [statusFrm_eq] at h
  obtain ⟨flags, -, h⟩ := Option.map_eq_some_iff.1 h
  obtain ⟨-, rfl⟩ := Prod.mk.inj h
  rw [nextRef_eq p cfg flags]
  exact forceFrm_ref (ltCounted p cfg) cfg (ltFrm p cfg flags stCfg)

/-- A frame forced to be a long-term reference depends on its short-term entry through the
    reference mode only. -/
theorem statusFrm_congr {stCfg' : MppEncRefStFrmCfg} (h : p.usrCfg.has encForceLtRefIdx)
    (hr : nextRef p cfg stCfg = nextRef p cfg stCfg') :
    statusFrm p cfg stCfg = statusFrm p cfg stCfg' := by
  rw [statusFrm_eq, statusFrm_eq]
  congr 1
  funext flags
  rw [nextRef_eq p cfg flags, nextRef_eq p cfg flags] at hr
  have hr' : (ltCounted p cfg).usrCfg.has encForceRefMode ∨
      (ltFrm p cfg flags stCfg).ref = (ltFrm p cfg flags stCfg').ref := by
    by_cases hm : p.usrCfg.has encForceRefMode
    · exact .inl hm
    · rw [if_neg hm, if_neg hm] at hr
      exact .inr hr
  have hf : (ltCounted p cfg).usrCfg.has encForceLtRefIdx := h
  simp only [forceFrm_congr cfg hf (ltFrm_sameBody p cfg flags stCfg stCfg') hr']

/-- The buffer at another frame and another position in the short-term entries. -/
def EncVirtualCpb.goto (cpb : EncVirtualCpb) (frmIdx stCfgPos stCfgRepeatPos : ℕ) :
    EncVirtualCpb :=
  { cpb with frmIdx, stCfgPos, stCfgRepeatPos }

/-- What becomes of the manager, and that the status of the frame does not depend on the
    position in the short-term entries. -/
theorem statusFrm_spec {q : MppEncRefsImpl} (h : statusFrm p cfg stCfg = some (q, frm)) :
    q = { p with usrCfg := q.usrCfg, cpb := forcedCpb p (ltCounted p cfg).cpb } ∧
      frm.usePass1 = false ∧
      ∀ n pos rep, statusFrm { p with cpb := p.cpb.goto n pos rep } cfg stCfg =
        some ({ q with cpb := forcedCpb p ((ltCounted p cfg).cpb.goto n pos rep) }, frm) := by
  rw [statusFrm_eq] at h
  obtain ⟨flags, hflags, h⟩ := Option.map_eq_some_iff.1 h
  obtain ⟨rfl, rfl⟩ := Prod.mk.inj h
  refine ⟨forceFrm_onlyUsr (ltCounted p cfg) cfg (ltFrm p cfg flags stCfg), ?_, fun n pos rep => ?_⟩
  · have hpass : (ltFrm p cfg flags stCfg).usePass1 = false := by
      unfold ltFrm
      cases ltClaim cfg.ltCfg.length p.cpb.ltCnter with
      | none => rfl
      | some c =>
        unfold setLtCfgToFrm
        dsimp only [Option.elim_some]
        split_ifs <;> rfl
    exact (forceFrm_usePass1 _ _ _).trans hpass
  · have hflags' : refreshFlags { p with cpb := p.cpb.goto n pos rep } = some flags := hflags
    have hlt : ltFrm { p with cpb := p.cpb.goto n pos rep } cfg flags stCfg =
      ltFrm p cfg flags stCfg := rfl
    have hcounted : ltCounted { p with cpb := p.cpb.goto n pos rep } cfg =
        { ltCounted p cfg with cpb := (ltCounted p cfg).cpb.goto n pos rep } := by
      simp only [ltCounted, EncVirtualCpb.goto]
    rw [statusFrm_eq, hflags', Option.map_some]
    dsimp only
    rw [hlt, hcounted, forceFrm_setCpb]
    rfl

end Libmpp.EncRef
