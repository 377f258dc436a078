import Libmpp.Enc.FrmDrop

/-!
# The windows of rate control

A window (`MppDataV2`) keeps the last values of a quantity in a ring, and their sum. A value is
added when it is known (`mppDataUpdateV2`). Or an estimate is put in its place before
(`mppDataPresetV2`), which the value replaces when it is known: the place for the next estimate
(`posPw`) and the one for the next value (`posW`) are then next to each other, and the same again
when the value is there (`InStep`).

* A window that `Holds` a history returns it from `mppDataGetPreValV2` (`Holds.getPreVal`).
* A value is added to the history (`Holds.update`), also when it replaces an estimate
  (`Holds.preset_update`).
* The sum is that of the window, whatever is called (`Summed`).
-/

namespace Libmpp.Enc

open Function

/-! ## The model -/

/-- `MppDataV2` -/
structure MppDataV2 where
  size : ℕ
  posR : ℕ := 0
  posPw : ℕ := 0
  posW : ℕ := 0
  posAhead : ℕ := 0
  sum : ℤ := 0
  val : ℕ → ℤ

variable (p : MppDataV2)

/-- `mpp_data_reset_v2` -/
def mppDataResetV2 (val : ℤ) : MppDataV2 :=
  { p with
    posPw := 0
    posW := 0
    posR := p.size
    sum := toS32 (val * p.size)
    val := fun i => if i < p.size then val else p.val i }

/-- `mpp_data_init_v2` -/
def mppDataInitV2 (size value : ℤ) : Option MppDataV2 :=
  if size ≤ 0 then none
  else some (mppDataResetV2 { size := size.toNat, val := fun _ => 0 } value)

/-- The place behind `pos`. -/
def MppDataV2.next (pos : ℕ) : ℕ := if pos + 1 ≥ p.size then 0 else pos + 1

/-- What is in the window at `pos` is taken out, when the window is full. -/
def MppDataV2.makeRoom (pos : ℕ) : MppDataV2 :=
  if p.posR = p.size then { p with posR := p.posR - 1, sum := p.sum - p.val pos } else p

/-- `mpp_data_preset_v2` -/
def mppDataPresetV2 (val : ℤ) : MppDataV2 :=
  let p := p.makeRoom p.posPw
  { p with
    val := Function.update p.val p.posPw val
    sum := p.sum + val
    posPw := p.next p.posPw
    posR := p.posR + 1
    posAhead := p.posAhead + 1 }

/-- `mpp_data_update_v2` -/
def mppDataUpdateV2 (val : ℤ) : MppDataV2 :=
  if p.posAhead ≠ 0 then
    { p with
      sum := p.sum + toS32 (val - p.val p.posW)
      val := Function.update p.val p.posW val
      posW := p.next p.posW
      posAhead := p.posAhead - 1 }
  else
    let p := p.makeRoom p.posW
    { p with
      val := Function.update p.val p.posW val
      sum := p.sum + val
      posW := p.next p.posW
      posR := p.posR + 1 }

/-- `mpp_data_get_pre_val_v2` -/
def mppDataGetPreValV2 (idx : ℤ) : ℤ :=
  let idx := if idx < 0 then p.size + idx else idx
  let pos : ℤ := p.posW - 1
  p.val (if pos - idx < 0 then p.size - (idx - pos) else pos - idx).toNat

/-- `mpp_data_sum_v2` -/
def mppDataSumV2 : ℤ := toS32 p.sum

/-- The sum of the values in the window. -/
def MppDataV2.total : ℤ := ∑ i ∈ Finset.range p.size, p.val i

/-- The place of the value `k` places before the last one. -/
def MppDataV2.place (k : ℕ) : ℕ :=
  if k < p.posW then p.posW - 1 - k else p.posW + p.size - 1 - k

/-- The positions are inside, and the sum is that of the window. -/
structure MppDataV2.Summed (p : MppDataV2) : Prop where
  posW : p.posW < p.size
  posPw : p.posPw < p.size
  posR : p.posR = p.size
  sum : p.sum = p.total

/-- The window has the last values of the history `h`, and no estimate. -/
structure MppDataV2.Holds (p : MppDataV2) (h : ℕ → ℤ) : Prop where
  summed : p.Summed
  posAhead : p.posAhead = 0
  val : ∀ k < p.size, p.val (p.place k) = h k

/-- The next estimate goes where the next value goes. -/
def MppDataV2.InStep : Prop := p.posPw = p.posW

/-- A history with the value `v` behind it. -/
def pushed (v : ℤ) (h : ℕ → ℤ) : ℕ → ℤ
  | 0 => v
  | k + 1 => h k

section

variable {p : MppDataV2} {h : ℕ → ℤ} {v t : ℤ}

theorem toS32_of_fits {x : ℤ} (h : -2 ^ 31 ≤ x) (h' : x < 2 ^ 31) : toS32 x = x := by
  rw [toS32]
  exact Int.bmod_eq_of_le (by norm_num; omega) (by norm_num; omega)

theorem MppDataV2.next_lt {pos : ℕ} (hpos : pos < p.size) : p.next pos < p.size := by
  rw [MppDataV2.next]
  split_ifs <;> omega

/-- A value in the window is replaced. -/
theorem MppDataV2.sum_update {pos : ℕ} (hpos : pos < p.size) (v : ℤ) :
    ∑ i ∈ Finset.range p.size, update p.val pos v i = p.total - p.val pos + v := by
  have hmem : pos ∈ Finset.range p.size := Finset.mem_range.2 hpos
  have htotal : p.val pos + ∑ i ∈ Finset.range p.size \ {pos}, p.val i = p.total :=
    (Finset.sum_eq_add_sum_sdiff_singleton_of_mem hmem p.val).symm
  rw [Finset.sum_update_of_mem hmem, ← htotal]
  ring

theorem MppDataV2.makeRoom_of_full (hfull : p.posR = p.size) (pos : ℕ) :
    p.makeRoom pos = { p with posR := p.posR - 1, sum := p.sum - p.val pos } := if_pos hfull

theorem mppDataPresetV2_of_full (hfull : p.posR = p.size) :
    mppDataPresetV2 p v =
      { p with
        val := update p.val p.posPw v
        sum := p.sum - p.val p.posPw + v
        posPw := p.next p.posPw
        posR := p.posR - 1 + 1
        posAhead := p.posAhead + 1 } := by
  rw [mppDataPresetV2, MppDataV2.makeRoom_of_full hfull]
  rfl

/-! ### The sum -/

theorem MppDataV2.Summed.reset (hsize : 0 < p.size) (h : -2 ^ 31 ≤ v * p.size)
    (h' : v * p.size < 2 ^ 31) : (mppDataResetV2 p v).Summed where
  posW := hsize
  posPw := hsize
  posR := rfl
  sum := by
    have hval : ∀ i ∈ Finset.range p.size, (mppDataResetV2 p v).val i = v := fun i hi =>
      if_pos (Finset.mem_range.1 hi)
    show toS32 (v * p.size) = ∑ i ∈ Finset.range p.size, (mppDataResetV2 p v).val i
    rw [toS32_of_fits h h', Finset.sum_congr rfl hval, Finset.sum_const, Finset.card_range,
      nsmul_eq_mul, mul_comm]

theorem MppDataV2.Summed.preset (h : p.Summed) (v : ℤ) : (mppDataPresetV2 p v).Summed := by
  have hsize : 0 < p.size := Nat.zero_lt_of_lt h.posW
  rw [mppDataPresetV2_of_full h.posR]
  refine ⟨h.posW, MppDataV2.next_lt h.posPw, ?_, ?_⟩
  · show p.posR - 1 + 1 = p.size
    rw [h.posR, Nat.sub_add_cancel hsize]
  · show p.sum - p.val p.posPw + v = ∑ i ∈ Finset.range p.size, _
    rw [MppDataV2.sum_update h.posPw, h.sum]

theorem MppDataV2.Summed.update (h : p.Summed)
    (hfit : p.posAhead ≠ 0 → -2 ^ 31 ≤ v - p.val p.posW ∧ v - p.val p.posW < 2 ^ 31) :
    (mppDataUpdateV2 p v).Summed := by
  have hsize : 0 < p.size := Nat.zero_lt_of_lt h.posW
  have hsum := MppDataV2.sum_update h.posW v
  rw [mppDataUpdateV2]
  split_ifs with hahead
  · refine ⟨MppDataV2.next_lt h.posW, h.posPw, h.posR, ?_⟩
    show p.sum + toS32 (v - p.val p.posW) = ∑ i ∈ Finset.range p.size, _
    rw [toS32_of_fits (hfit hahead).1 (hfit hahead).2, hsum, h.sum]
    ring
  · rw [MppDataV2.makeRoom_of_full h.posR]
    refine ⟨MppDataV2.next_lt h.posW, h.posPw, ?_, ?_⟩
    · show p.posR - 1 + 1 = p.size
      rw [h.posR, Nat.sub_add_cancel hsize]
    · show p.sum - p.val p.posW + v = ∑ i ∈ Finset.range p.size, _
      rw [hsum, h.sum]

/-! ### The history -/

theorem MppDataV2.place_lt {k : ℕ} (hpos : p.posW < p.size) (hk : k < p.size) :
    p.place k < p.size := by
  rw [MppDataV2.place]
  split_ifs <;> omega

/-- Where the last values are when there is one more. -/
theorem MppDataV2.place_next {q : MppDataV2} (hpos : p.posW < p.size) (hsize : q.size = p.size)
    (hposW : q.posW = p.next p.posW) :
    q.place 0 = p.posW ∧
      ∀ k, k + 1 < p.size → q.place (k + 1) = p.place k ∧ p.place k ≠ p.posW := by
  rw [MppDataV2.next] at hposW
  simp only [MppDataV2.place, hsize, hposW]
  constructor
  · split_ifs <;> omega
  · intro k hk
    constructor <;> split_ifs <;> omega

/-- The window with the value `v` in the next place. -/
theorem MppDataV2.Holds.write {q : MppDataV2} (hp : p.Holds h) (hq : q.Summed)
    (hahead : q.posAhead = 0) (hsize : q.size = p.size) (hposW : q.posW = p.next p.posW)
    (hval : q.val = update p.val p.posW v) : q.Holds (pushed v h) := by
  obtain ⟨hzero, hsucc⟩ := MppDataV2.place_next hp.summed.posW hsize hposW
  refine ⟨hq, hahead, fun k hk => ?_⟩
  rw [hsize] at hk
  cases k with
  | zero => rw [hzero, hval, update_self, pushed]
  | succ k =>
    obtain ⟨hplace, hne⟩ := hsucc k hk
    rw [hplace, hval, update_of_ne hne, pushed, hp.val k (by omega)]

theorem MppDataV2.Holds.reset (hsize : 0 < p.size) (hahead : p.posAhead = 0)
    (h : -2 ^ 31 ≤ v * p.size) (h' : v * p.size < 2 ^ 31) :
    (mppDataResetV2 p v).Holds fun _ => v := by
  refine ⟨MppDataV2.Summed.reset hsize h h', hahead, fun k hk => if_pos ?_⟩
  exact MppDataV2.place_lt (p := mppDataResetV2 p v) hsize hk

theorem MppDataV2.Holds.update (hp : p.Holds h) (v : ℤ) :
    (mppDataUpdateV2 p v).Holds (pushed v h) := by
  have hsummed : (mppDataUpdateV2 p v).Summed :=
    Summed.update hp.summed fun hahead => absurd hp.posAhead hahead
  have heq := hsummed
  rw [mppDataUpdateV2, if_neg (not_not.2 hp.posAhead),
    MppDataV2.makeRoom_of_full hp.summed.posR] at heq ⊢
  exact hp.write heq hp.posAhead rfl rfl rfl

/-- The value replaces the estimate `t`. -/
theorem MppDataV2.Holds.preset_update (hp : p.Holds h) (hstep : p.InStep) (hfit : -2 ^ 31 ≤ v - t)
    (hfit' : v - t < 2 ^ 31) :
    (mppDataUpdateV2 (mppDataPresetV2 p t) v).Holds (pushed v h) ∧
      (mppDataUpdateV2 (mppDataPresetV2 p t) v).InStep := by
  have hpreset := mppDataPresetV2_of_full hp.summed.posR (v := t)
  have hsummed : (mppDataUpdateV2 (mppDataPresetV2 p t) v).Summed := by
    refine (hp.summed.preset t).update fun _ => ?_
    have hval : (mppDataPresetV2 p t).val (mppDataPresetV2 p t).posW = t := by
      rw [hpreset, hstep]
      exact update_self ..
    rw [hval]
    exact ⟨hfit, hfit'⟩
  have hupdate : mppDataUpdateV2 (mppDataPresetV2 p t) v =
      { mppDataPresetV2 p t with
        sum := (mppDataPresetV2 p t).sum +
          toS32 (v - (mppDataPresetV2 p t).val (mppDataPresetV2 p t).posW)
        val := Function.update (mppDataPresetV2 p t).val (mppDataPresetV2 p t).posW v
        posW := (mppDataPresetV2 p t).next (mppDataPresetV2 p t).posW
        posAhead := (mppDataPresetV2 p t).posAhead - 1 } := by
    rw [mppDataUpdateV2, if_pos (by rw [hpreset]; exact Nat.succ_ne_zero _)]
  rw [hupdate, hpreset] at hsummed ⊢
  refine ⟨hp.write hsummed ?_ rfl rfl ?_, ?_⟩
  · show p.posAhead + 1 - 1 = 0
    rw [hp.posAhead]
  · show Function.update (Function.update p.val p.posPw t) p.posW v = _
    rw [hstep, update_idem]
  · show p.next p.posPw = p.next p.posW
    rw [hstep]

theorem MppDataV2.Holds.getPreVal (hp : p.Holds h) {k : ℕ} (hk : k < p.size) :
    mppDataGetPreValV2 p k = h k := by
  have hposW := hp.summed.posW
  rw [← hp.val k hk, mppDataGetPreValV2, if_neg (not_lt.2 (Int.natCast_nonneg k)),
    MppDataV2.place]
  congr 1
  split_ifs <;> omega

end

end Libmpp.Enc
