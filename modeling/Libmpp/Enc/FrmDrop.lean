import Libmpp.Lib.Accumulator
import Libmpp.Lib.Machine

/-!
# Frame rate conversion

The encoder drops input frames when its output rate is below the input rate. `rcFrmCheckDrop`
adds the output rate to a counter for every input frame, and keeps the frame when the counter
gets to the input rate: an accumulator, of the rates over their common denominator. A new
configuration (`rcUpdateUsrCfg`) has new rates, and the counter is as it was.

In a run in which the counter is always below the input rate, and no product or sum of rates is
2³¹ or more (`FpsOp.Fits`), as many frames are kept as there should be (`frm_drop_even`). When
the counter is above a new input rate, frames are kept that should be dropped
(`frm_drop_uneven`).
-/

namespace Libmpp.Enc

/-! ## The model -/

/-- A result as `RK_S32`. -/
def toS32 (x : ℤ) : ℤ := x.bmod (2 ^ 32)

/-- `RcFpsCfg` -/
structure RcFpsCfg where
  fpsInNum : ℤ := 0
  fpsInDenom : ℤ := 0
  fpsOutNum : ℤ := 0
  fpsOutDenom : ℤ := 0

/-- `rate_in` -/
def RcFpsCfg.rateIn (cfg : RcFpsCfg) : ℤ := toS32 (cfg.fpsInNum * cfg.fpsOutDenom)

/-- `rate_out` -/
def RcFpsCfg.rateOut (cfg : RcFpsCfg) : ℤ := toS32 (cfg.fpsOutNum * cfg.fpsInDenom)

/-- `MppRcImpl`, with a history that the code does not keep: which frames were kept under the
    present configuration (`recent`), and whether the first one of all was (`first`). -/
structure MppRcImpl where
  fps : RcFpsCfg := {}
  frmCnt : ℤ := -1
  recent : List Bool := []
  first : Option Bool := none

/-- `rc_update_usr_cfg` -/
def rcUpdateUsrCfg (cfg : RcFpsCfg) (p : MppRcImpl) : MppRcImpl :=
  { p with fps := cfg, recent := [] }

/-- The counter with the output rate added. It begins so that the first frame is kept. -/
def nextCount (p : MppRcImpl) : ℤ :=
  let frmCnt := if p.frmCnt < 0 then toS32 (p.fps.rateIn - p.fps.rateOut) else p.frmCnt
  toS32 (frmCnt + p.fps.rateOut)

/-- `drop` in `rc_frm_check_drop`. -/
def dropsNext (p : MppRcImpl) : Bool := nextCount p < p.fps.rateIn

/-- `rc_frm_check_drop`, without an implementation that has a check of its own. -/
def rcFrmCheckDrop (p : MppRcImpl) : MppRcImpl :=
  { p with
    frmCnt := if dropsNext p then nextCount p else toS32 (nextCount p - p.fps.rateIn)
    recent := p.recent ++ [!dropsNext p]
    first := p.first.or (some !dropsNext p) }

/-- A new configuration, or an input frame. -/
inductive FpsOp
  | update (cfg : RcFpsCfg)
  | frame

def FpsOp.apply (p : MppRcImpl) : FpsOp → MppRcImpl
  | .update cfg => rcUpdateUsrCfg cfg p
  | .frame => rcFrmCheckDrop p

/-- The rate conversion of an encoder. -/
def frmDrop : Machine MppRcImpl FpsOp where
  init p := p = {}
  step p o p' := p' = o.apply p

/-! ## The law -/

/-- The two fractions are frame rates, and the output rate is not above the input rate. -/
structure RcFpsCfg.IsRate (cfg : RcFpsCfg) : Prop where
  inNum : 0 < cfg.fpsInNum
  inDenom : 0 < cfg.fpsInDenom
  outNum : 0 < cfg.fpsOutNum
  outDenom : 0 < cfg.fpsOutDenom
  le : cfg.fpsOutNum * cfg.fpsInDenom ≤ cfg.fpsInNum * cfg.fpsOutDenom

/-- The part of the frames that is to be kept. -/
def RcFpsCfg.ratio (cfg : RcFpsCfg) : ℚ :=
  (cfg.fpsOutNum / cfg.fpsOutDenom) / (cfg.fpsInNum / cfg.fpsInDenom)

/-- What the rate conversion promises. -/
structure MppRcImpl.Law (p : MppRcImpl) : Prop where
  rateIn : p.fps.rateIn = p.fps.fpsInNum * p.fps.fpsOutDenom
  rateOut : p.fps.rateOut = p.fps.fpsOutNum * p.fps.fpsInDenom
  counter : p.frmCnt = -1 ∨ 0 ≤ p.frmCnt ∧ p.frmCnt < p.fps.fpsInNum * p.fps.fpsOutDenom
  even : ∀ a w b, p.recent = a ++ w ++ b →
    |((w.count true : ℤ) : ℚ) - w.length * p.fps.ratio| < 1 ∧
      ((w.count true : ℤ) = ⌊w.length * p.fps.ratio⌋ ∨
        (w.count true : ℤ) = ⌈w.length * p.fps.ratio⌉)
  first : p.first ≠ some false

/-- Frames come under a configuration with frame rates. -/
def FpsOp.Rated (p : MppRcImpl) : FpsOp → Prop
  | .update cfg => cfg.IsRate
  | .frame => p.fps.IsRate

/-- The products of the rates, and the counter with the output rate, have 31 bits; and the
    counter is below the input rate of a new configuration. -/
def FpsOp.Fits (p : MppRcImpl) : FpsOp → Prop
  | .update cfg =>
    cfg.fpsInNum * cfg.fpsOutDenom < 2 ^ 31 ∧ p.frmCnt < cfg.fpsInNum * cfg.fpsOutDenom
  | .frame => p.frmCnt + p.fps.fpsOutNum * p.fps.fpsInDenom < 2 ^ 31

/-! ## Runs -/

variable {p : MppRcImpl} {cfg : RcFpsCfg}

theorem toS32_of_lt {x : ℤ} (h0 : 0 ≤ x) (h : x < 2 ^ 31) : toS32 x = x := by
  rw [toS32, Int.bmod_def]
  split_ifs <;> omega

/-- The rates, as the modulus of an accumulator and what is added to it. -/
structure Rates (cfg : RcFpsCfg) (m o : ℕ) : Prop where
  isRate : cfg.IsRate
  rateIn : cfg.fpsInNum * cfg.fpsOutDenom = m
  rateOut : cfg.fpsOutNum * cfg.fpsInDenom = o
  small : m < 2 ^ 31
  pos : 0 < o
  le : o ≤ m

theorem RcFpsCfg.IsRate.rates (h : cfg.IsRate)
    (hsmall : cfg.fpsInNum * cfg.fpsOutDenom < 2 ^ 31) : ∃ m o, Rates cfg m o := by
  have hout : 0 < cfg.fpsOutNum * cfg.fpsInDenom := Int.mul_pos h.outNum h.inDenom
  obtain ⟨o, ho⟩ := Int.eq_ofNat_of_zero_le hout.le
  obtain ⟨m, hm⟩ := Int.eq_ofNat_of_zero_le (hout.le.trans h.le)
  have hle := h.le
  rw [hm] at hsmall
  rw [hm, ho] at hle
  rw [ho] at hout
  exact ⟨m, o, h, hm, ho, by omega, by omega, by omega⟩

namespace Rates

variable {m o : ℕ}

theorem rateIn_eq (h : Rates cfg m o) : cfg.rateIn = m := by
  have hsmall := h.small
  rw [RcFpsCfg.rateIn, h.rateIn]
  exact toS32_of_lt (by omega) (by omega)

theorem rateOut_eq (h : Rates cfg m o) : cfg.rateOut = o := by
  have hsmall := h.small
  have hle := h.le
  rw [RcFpsCfg.rateOut, h.rateOut]
  exact toS32_of_lt (by omega) (by omega)

theorem ratio_eq (h : Rates cfg m o) : cfg.ratio = o / m := by
  have hin : (cfg.fpsInNum : ℚ) * cfg.fpsOutDenom = m := by exact_mod_cast h.rateIn
  have hout : (cfg.fpsOutNum : ℚ) * cfg.fpsInDenom = o := by exact_mod_cast h.rateOut
  rw [RcFpsCfg.ratio, div_div_div_eq, hout, ← hin, mul_comm (cfg.fpsOutDenom : ℚ)]

end Rates

/-- Under the present configuration the counter is an accumulator. -/
inductive Counting (p : MppRcImpl) : Prop
  | unset (hfps : p.fps = {}) (hcnt : p.frmCnt = -1) (hrecent : p.recent = [])
      (hfirst : p.first = none)
  | waiting {m o : ℕ} (hrates : Rates p.fps m o) (hcnt : p.frmCnt = -1) (hrecent : p.recent = [])
      (hfirst : p.first = none)
  | running {m o : ℕ} (hrates : Rates p.fps m o) {c n : ℕ} (hc : c < m)
      (hcnt : p.frmCnt = accRest m o n c) (hrecent : p.recent = accRun m o n c)
      (hfirst : p.first = some true)

/-- One frame is one step of the accumulator. -/
theorem rcFrmCheckDrop_step {m o c : ℕ} (hrates : Rates p.fps m o)
    (hcount : nextCount p = c + o) (hc : c < m) :
    (rcFrmCheckDrop p).frmCnt = (accStep m o c).1 ∧ (!dropsNext p) = (accStep m o c).2 := by
  have hsmall := hrates.small
  have hle := hrates.le
  have hdrop : dropsNext p = decide (c + o < m) := by
    rw [dropsNext, hcount, hrates.rateIn_eq]
    exact decide_eq_decide.2 (by omega)
  rw [rcFrmCheckDrop, hdrop, hcount, hrates.rateIn_eq, accStep]
  dsimp only
  by_cases hlt : c + o < m
  · rw [if_pos (by rwa [decide_eq_true_eq]), if_pos hlt, decide_eq_true hlt]
    exact ⟨by push_cast; rfl, rfl⟩
  · rw [if_neg (by rwa [decide_eq_true_eq]), if_neg hlt, decide_eq_false hlt,
      toS32_of_lt (by omega) (by omega)]
    exact ⟨by dsimp only; omega, rfl⟩

/-- A frame goes on with the accumulator, which begins at the first frame. -/
theorem Counting.frame (h : Counting p) (hrate : p.fps.IsRate)
    (hfits : p.frmCnt + p.fps.fpsOutNum * p.fps.fpsInDenom < 2 ^ 31) :
    Counting (rcFrmCheckDrop p) := by
  cases h with
  | unset hfps =>
    have := hrate.inNum
    rw [hfps] at this
    exact absurd this (lt_irrefl 0)
  | @waiting m o hrates hcnt hrecent hfirst =>
    have hpos := hrates.pos
    have hle := hrates.le
    have hsmall := hrates.small
    have hbegin : toS32 (m - o) = (m - o : ℕ) := by
      rw [toS32_of_lt (by omega) (by omega)]
      omega
    have hcount : nextCount p = (m - o : ℕ) + o := by
      rw [nextCount, if_pos (by omega), hrates.rateIn_eq, hrates.rateOut_eq, hbegin]
      exact toS32_of_lt (by omega) (by omega)
    obtain ⟨hstep, hkept⟩ := rcFrmCheckDrop_step hrates hcount (by omega)
    have hfire : (accStep m o (m - o)).2 = true := by
      rw [accStep, if_neg (by omega)]
    refine .running hrates (c := m - o) (n := 1) (by omega) hstep ?_ ?_
    · rw [rcFrmCheckDrop, hrecent, hkept]
      rfl
    · rw [rcFrmCheckDrop, hfirst, hkept, hfire]
      rfl
  | @running m o hrates c n hc hcnt hrecent hfirst =>
    have hle := hrates.le
    have hrest := accRest_lt hc hle n
    rw [hcnt, hrates.rateOut] at hfits
    have hcount : nextCount p = accRest m o n c + o := by
      rw [nextCount, if_neg (by omega), hcnt, hrates.rateOut_eq]
      exact toS32_of_lt (by omega) hfits
    obtain ⟨hstep, hkept⟩ := rcFrmCheckDrop_step hrates hcount hrest
    refine .running hrates (n := n + 1) hc ?_ ?_ ?_
    · rw [hstep, accRest_add]
      rfl
    · rw [rcFrmCheckDrop, hrecent, hkept, accRun_add]
      rfl
    · rw [rcFrmCheckDrop, hfirst]
      rfl

/-- A new configuration whose input rate is above the counter. -/
theorem Counting.update (h : Counting p) (hrate : cfg.IsRate)
    (hsmall : cfg.fpsInNum * cfg.fpsOutDenom < 2 ^ 31)
    (hcnt : p.frmCnt < cfg.fpsInNum * cfg.fpsOutDenom) : Counting (rcUpdateUsrCfg cfg p) := by
  obtain ⟨m, o, hrates⟩ := hrate.rates hsmall
  cases h with
  | unset _ hminus _ hfirst => exact .waiting hrates hminus rfl hfirst
  | waiting _ hminus _ hfirst => exact .waiting hrates hminus rfl hfirst
  | running _ _ hrest _ hfirst =>
    rw [hrest, hrates.rateIn] at hcnt
    exact .running hrates (n := 0) (by omega) hrest rfl hfirst

theorem Counting.law (h : Counting p) : p.Law := by
  cases h with
  | unset hfps hcnt hrecent hfirst =>
    refine ⟨by rw [hfps]; rfl, by rw [hfps]; rfl, .inl hcnt, fun a w b heq => ?_,
      by rw [hfirst]; exact nofun⟩
    rw [hrecent] at heq
    obtain ⟨haw, -⟩ := List.append_eq_nil_iff.1 heq.symm
    obtain ⟨-, rfl⟩ := List.append_eq_nil_iff.1 haw
    norm_num
  | waiting hrates hcnt hrecent hfirst =>
    refine ⟨hrates.rateIn_eq.trans hrates.rateIn.symm, hrates.rateOut_eq.trans hrates.rateOut.symm,
      .inl hcnt, fun a w b heq => ?_, by rw [hfirst]; exact nofun⟩
    rw [hrecent] at heq
    obtain ⟨haw, -⟩ := List.append_eq_nil_iff.1 heq.symm
    obtain ⟨-, rfl⟩ := List.append_eq_nil_iff.1 haw
    norm_num
  | @running m o hrates c n hc hcnt hrecent hfirst =>
    have hrest := accRest_lt hc hrates.le n
    refine ⟨hrates.rateIn_eq.trans hrates.rateIn.symm, hrates.rateOut_eq.trans hrates.rateOut.symm,
      .inr ?_, fun a w b heq => ?_, by rw [hfirst]; simp⟩
    · rw [hcnt, hrates.rateIn]
      omega
    · have hnear := accRun_near (accRest_lt hc hrates.le a.length) hrates.le w.length
      rw [← accRun_infix (hrecent.symm.trans heq), ← hrates.ratio_eq] at hnear
      have hnear' : |((w.count true : ℤ) : ℚ) - w.length * p.fps.ratio| < 1 := by
        exact_mod_cast hnear
      exact ⟨hnear', eq_floor_or_ceil hnear'⟩

/-- In a run whose steps fit, the frames that are kept are spread as they should be. -/
theorem frm_drop_even (h : (frmDrop.guarded fun p o _ => o.Rated p ∧ o.Fits p).Reachable p) :
    p.Law := by
  refine (h.invariant (P := Counting) ?_ ?_).law
  · rintro _ rfl
    exact .unset rfl rfl rfl rfl
  · rintro p (cfg | _) p' - hp ⟨rfl, hrated, hfits⟩
    · exact hp.update hrated hfits.1 hfits.2
    · exact hp.frame hrated hfits

/-- Of 30 frames a second 15 are kept, the first one first, and then 20. -/
theorem frm_drop_even_half :
    (rcFrmCheckDrop (rcUpdateUsrCfg ⟨30, 1, 20, 1⟩
      (rcFrmCheckDrop (rcFrmCheckDrop (rcUpdateUsrCfg ⟨30, 1, 15, 1⟩ {}))))).Law := by
  have hhalf : RcFpsCfg.IsRate ⟨30, 1, 15, 1⟩ :=
    ⟨by decide, by decide, by decide, by decide, by decide⟩
  have hmore : RcFpsCfg.IsRate ⟨30, 1, 20, 1⟩ :=
    ⟨by decide, by decide, by decide, by decide, by decide⟩
  exact frm_drop_even (.step (a := .frame) (.step (a := .update ⟨30, 1, 20, 1⟩)
    (.step (a := .frame) (.step (a := .frame) (.step (a := .update ⟨30, 1, 15, 1⟩) (.init rfl)
      ⟨rfl, hhalf, by decide, by decide⟩) ⟨rfl, hhalf, show (_ : ℤ) < 2 ^ 31 by decide⟩)
      ⟨rfl, hhalf, show (_ : ℤ) < 2 ^ 31 by decide⟩) ⟨rfl, hmore, by decide, by decide⟩)
    ⟨rfl, hmore, show (_ : ℤ) < 2 ^ 31 by decide⟩)

/-- Of three frames two are kept; after the second, of two frames one is to be kept. The counter
    is 2 then, and not below the new rate. -/
theorem frm_drop_uneven :
    ¬∀ p, (frmDrop.guarded fun p o _ => o.Rated p).Reachable p → p.Law := by
  intro h
  have hrated : RcFpsCfg.IsRate ⟨3, 1, 2, 1⟩ :=
    ⟨by decide, by decide, by decide, by decide, by decide⟩
  have hrated' : RcFpsCfg.IsRate ⟨2, 1, 1, 1⟩ :=
    ⟨by decide, by decide, by decide, by decide, by decide⟩
  have hlaw := h _ (.step (a := .update ⟨2, 1, 1, 1⟩) (.step (a := .frame) (.step (a := .frame)
    (.step (a := .update ⟨3, 1, 2, 1⟩) (.init rfl) ⟨rfl, hrated⟩) ⟨rfl, hrated⟩) ⟨rfl, hrated⟩)
    ⟨rfl, hrated'⟩)
  exact absurd hlaw.counter (by decide)

end Libmpp.Enc
