import Libmpp.Lib.Machine

/-!
# The pool of side buffers

A hardware codec keeps some buffers of configured sizes for each frame. `halBufsGetBuf` returns
the entry of a frame and allocates its buffers when it is asked for the first time, which is
noted in the bits of `valid`; `halBufsClear` puts the buffers of the entries that are noted.

* A buffer taken or put by itself keeps the account of the pool, `Sound` (`Sound.takeBuf`,
  `Sound.putBuf`).
* An entry is noted exactly when it is complete, and the others are empty (`PoolInv`), as long
  as the calls are regular (`Regular`): the index is below the width of `valid`, an allocation
  fails only as the first of a call, the sizes do not add up to 2³¹, and the entries of a pool
  that replaces another one are allocated.
* Then the law of the claim holds of every call (`pool_lawful`). When the second allocation of a
  call fails, the size of the first stays in `sizeSum` (`failed_kept`).

A buffer is named by the number of buffers allocated before it.
-/

namespace Libmpp.Hal

open Function List Option

/-! ## The model -/

/-- `MAX_HAL_BUFS_CNT` -/
def maxHalBufsCnt : ℕ := 40

/-- `MAX_HAL_BUFS_SIZE_CNT` -/
def maxHalBufsSizeCnt : ℕ := 8

/-- `HalBufsImpl`. The buffer `j` of entry `i` is at `(i, j)`. -/
structure HalBufsImpl where
  maxCnt : ℕ := 0
  sizes : List ℕ := []
  sizeSum : BitVec 32 := 0#32
  valid : BitVec 32 := 0#32
  buf : ℕ × ℕ → Option ℕ := fun _ => none

/-- The pool with a history that the code does not keep: the number of buffers allocated, those
    that were put, and whether all assertions held. -/
structure HalBufs where
  impl : HalBufsImpl := {}
  allocs : ℕ := 0
  put : List ℕ := []
  checks : Bool := true

/-- The size of the buffers `j`. -/
def HalBufsImpl.sizeOf (p : HalBufsImpl) (j : ℕ) : ℕ := p.sizes.getD j 0

/-- `1 << i`. When `i` is the width or more, the language leaves it open: `wide` is what the
    machine makes of it. -/
def mask (wide : ℕ → BitVec 32) (i : ℕ) : BitVec 32 := if i < 32 then 1#32 <<< i else wide i

/-- The buffer at `q` is allocated and accounted. -/
def takeBuf (s : HalBufs) (q : ℕ × ℕ) : HalBufs :=
  { s with
    impl := { s.impl with
      buf := Function.update s.impl.buf q (some s.allocs)
      sizeSum := s.impl.sizeSum + BitVec.ofNat 32 (s.impl.sizeOf q.2) }
    allocs := s.allocs + 1 }

/-- `mpp_buffer_put` on the buffer at `q`, if there is one. -/
def putBuf (s : HalBufs) (q : ℕ × ℕ) : HalBufs :=
  match s.impl.buf q with
  | none => s
  | some n =>
    { s with
      impl := { s.impl with buf := Function.update s.impl.buf q none }
      put := s.put ++ [n] }

/-- A buffer is put and no longer accounted. -/
def clearBuf (s : HalBufs) (q : ℕ × ℕ) : HalBufs :=
  match s.impl.buf q with
  | none => s
  | some _ =>
    putBuf { s with
      impl := { s.impl with
        sizeSum := s.impl.sizeSum - BitVec.ofNat 32 (s.impl.sizeOf q.2) } } q

/-- The places of an entry. -/
def places (s : HalBufs) (i : ℕ) : List (ℕ × ℕ) :=
  (List.range s.impl.sizes.length).map fun j => (i, j)

/-- One round of the loop of `hal_bufs_clear`. -/
def clearEntry (wide : ℕ → BitVec 32) (s : HalBufs) (i : ℕ) : HalBufs :=
  if s.impl.valid &&& mask wide i ≠ 0#32 then
    let s := (places s i).foldl clearBuf s
    { s with impl := { s.impl with valid := s.impl.valid &&& ~~~mask wide i } }
  else s

/-- `hal_bufs_clear` -/
def halBufsClear (wide : ℕ → BitVec 32) (s : HalBufs) : HalBufs :=
  let s :=
    if s.impl.valid ≠ 0#32 ∧ s.impl.sizeSum ≠ 0#32 then
      let s := (List.range s.impl.maxCnt).foldl (clearEntry wide) s
      { s with checks := s.checks && decide (s.impl.valid = 0#32) && decide (s.impl.sizeSum = 0#32) }
    else s
  { s with impl := {} }

/-- `hal_bufs_setup`, when the entries are allocated or not. -/
def halBufsSetup (wide : ℕ → BitVec 32) (maxCnt : ℤ) (sizes : List ℕ) (granted : Bool)
    (s : HalBufs) : HalBufs :=
  if maxCnt ≤ 0 ∨ maxHalBufsCnt < maxCnt ∨ sizes.length = 0 ∨ maxHalBufsSizeCnt < sizes.length then s
  else
    let s := halBufsClear wide s
    if granted then { s with impl := { maxCnt := maxCnt.toNat, sizes } } else s

/-- The loop of `hal_bufs_get_buf` over the places of the entry, and whether it gets to its end.
    `grant` tells which allocations are granted. -/
def getBufs (grant : ℕ → Bool) : List (ℕ × ℕ) → HalBufs → HalBufs × Bool
  | [], s => (s, true)
  | q :: qs, s =>
    if s.impl.sizeOf q.2 ≠ 0 ∧ s.impl.buf q = none then
      if grant q.2 then getBufs grant qs (takeBuf s q) else (s, false)
    else getBufs grant qs s

/-- `hal_bufs_get_buf`, and the entry that it returns. -/
def halBufsGetBuf (wide : ℕ → BitVec 32) (bufIdx : ℤ) (grant : ℕ → Bool) (s : HalBufs) :
    HalBufs × Option ℕ :=
  if bufIdx < 0 ∨ s.impl.maxCnt ≤ bufIdx then (s, none)
  else
    let i := bufIdx.toNat
    if s.impl.valid &&& mask wide i = 0#32 then
      let (s, ok) := getBufs grant (places s i) s
      if ok then
        ({ s with impl := { s.impl with valid := s.impl.valid ||| mask wide i } }, some i)
      else ((places s i).foldl putBuf s, none)
    else (s, some i)

/-- The calls. -/
inductive BufsOp
  | setup (maxCnt : ℤ) (sizes : List ℕ) (granted : Bool)
  | get (bufIdx : ℤ) (grant : ℕ → Bool)
  | deinit

/-- What a call makes of the pool, and the entry that it returns. -/
def BufsOp.apply (wide : ℕ → BitVec 32) (s : HalBufs) : BufsOp → HalBufs × Option ℕ
  | .setup maxCnt sizes granted => (halBufsSetup wide maxCnt sizes granted s, none)
  | .get bufIdx grant => halBufsGetBuf wide bufIdx grant s
  | .deinit => (halBufsClear wide s, none)

/-- A pool that is initialised, set up, used and released, and so on. -/
def pool (wide : ℕ → BitVec 32) : Machine HalBufs BufsOp where
  init s := s = {}
  step s o s' := s' = (o.apply wide s).1

/-! ## The law -/

/-- The places of the pool. -/
def HalBufsImpl.range (p : HalBufsImpl) : Finset (ℕ × ℕ) :=
  Finset.range p.maxCnt ×ˢ Finset.range p.sizes.length

/-- The size of the buffer at `q`, if there is one. -/
def HalBufsImpl.heldSize (p : HalBufsImpl) (q : ℕ × ℕ) : ℕ :=
  if (p.buf q).isSome then p.sizeOf q.2 else 0

/-- The total size of the buffers that are held. -/
def HalBufsImpl.total (p : HalBufsImpl) : ℕ := ∑ q ∈ p.range, p.heldSize q

/-- What holds of a pool between two calls. -/
structure HalBufs.Law (s : HalBufs) : Prop where
  sizeSum : s.impl.sizeSum.toInt = s.impl.total
  own : ∀ q r n, s.impl.buf q = some n → s.impl.buf r = some n → q = r
  allocated : ∀ n, n < s.allocs ↔ n ∈ s.put ∨ ∃ q, s.impl.buf q = some n
  apart : ∀ q n, s.impl.buf q = some n → n ∉ s.put
  once : s.put.Nodup
  checks : s.checks = true

/-- The numbers of entries and sizes that `hal_bufs_setup` takes. -/
def Takes (maxCnt : ℤ) (sizes : List ℕ) : Prop :=
  0 < maxCnt ∧ maxCnt ≤ maxHalBufsCnt ∧ sizes ≠ [] ∧ sizes.length ≤ maxHalBufsSizeCnt

/-- What a call does. A call that fails leaves the pool; one that succeeds makes an empty pool of
    the entries and sizes asked for, or completes an entry of the pool. -/
def BufsOp.Lawful (s s' : HalBufs) (r : Option ℕ) : BufsOp → Prop
  | .setup maxCnt sizes granted =>
    (¬Takes maxCnt sizes ∨ granted = false → s'.impl = s.impl) ∧
    (Takes maxCnt sizes → granted → s'.impl = { maxCnt := maxCnt.toNat, sizes })
  | .get bufIdx _ =>
    (∀ i, r = some i → bufIdx = i ∧ s'.impl.maxCnt = s.impl.maxCnt ∧
      s'.impl.sizes = s.impl.sizes ∧
      ∀ j < s.impl.sizes.length, s.impl.sizeOf j ≠ 0 → (s'.impl.buf (i, j)).isSome) ∧
    (r = none → s'.impl = s.impl)
  | .deinit => s'.impl = {}

/-- The size of all buffers of an entry. -/
def HalBufsImpl.entrySize (p : HalBufsImpl) : ℕ := p.sizes.sum

/-- The first allocation of a call fails, and nothing is allocated. -/
def FailsFirst (p : HalBufsImpl) (grant : ℕ → Bool) : Prop :=
  ∃ j < p.sizes.length, p.sizeOf j ≠ 0 ∧ grant j = false ∧ ∀ k < j, p.sizeOf k = 0

/-- All allocations of a call are granted, and the sizes do not overflow. -/
def AllGranted (p : HalBufsImpl) (grant : ℕ → Bool) : Prop :=
  (∀ j < p.sizes.length, p.sizeOf j ≠ 0 → grant j) ∧ p.total + p.entrySize < 2 ^ 31

/-- A call that the pool is made for: the index, when there is such an entry, has a bit of its
    own, and a new entry is allocated as a whole or not at all. When there is a pool already, the
    entries of a new one are allocated. -/
def BufsOp.Regular (s : HalBufs) : BufsOp → Prop
  | .setup maxCnt sizes granted => Takes maxCnt sizes → granted = false → s.impl = {}
  | .get bufIdx grant =>
    0 ≤ bufIdx → bufIdx < s.impl.maxCnt →
      bufIdx < 32 ∧ (s.impl.valid.getLsbD bufIdx.toNat = false →
        FailsFirst s.impl grant ∨ AllGranted s.impl grant)
  | .deinit => True

/-! ## The account of the buffers -/

variable {s : HalBufs} {p p' : HalBufsImpl} {q r : ℕ × ℕ} {i j n : ℕ} {wide : ℕ → BitVec 32}

/-- What is kept of the buffers when one of them is taken or put. -/
structure Sound (s : HalBufs) : Prop where
  sizeSum : s.impl.sizeSum = BitVec.ofNat 32 s.impl.total
  inRange : ∀ q n, s.impl.buf q = some n → q ∈ s.impl.range ∧ s.impl.sizeOf q.2 ≠ 0
  own : ∀ q r n, s.impl.buf q = some n → s.impl.buf r = some n → q = r
  allocated : ∀ n, n < s.allocs ↔ n ∈ s.put ∨ ∃ q, s.impl.buf q = some n
  apart : ∀ q n, s.impl.buf q = some n → n ∉ s.put
  once : s.put.Nodup

/-- Only one buffer is changed. -/
structure Changes (p p' : HalBufsImpl) (q : ℕ × ℕ) (b : Option ℕ) : Prop where
  maxCnt : p'.maxCnt = p.maxCnt
  sizes : p'.sizes = p.sizes
  buf : p'.buf = Function.update p.buf q b

variable {b : Option ℕ}

theorem Changes.sizeOf (h : Changes p p' q b) (j : ℕ) : p'.sizeOf j = p.sizeOf j := by
  rw [HalBufsImpl.sizeOf, HalBufsImpl.sizeOf, h.sizes]

theorem Changes.range (h : Changes p p' q b) : p'.range = p.range := by
  rw [HalBufsImpl.range, HalBufsImpl.range, h.maxCnt, h.sizes]

/-- The total without the old buffer is that without the new one. -/
theorem Changes.total (h : Changes p p' q b) (hq : q ∈ p.range) :
    p'.total + p.heldSize q = p.total + if b.isSome then p.sizeOf q.2 else 0 := by
  have hself : p'.heldSize q = if b.isSome then p.sizeOf q.2 else 0 := by
    rw [HalBufsImpl.heldSize, h.buf, update_self, h.sizeOf]
  have hothers : ∑ r ∈ p.range.erase q, p'.heldSize r = ∑ r ∈ p.range.erase q, p.heldSize r := by
    refine Finset.sum_congr rfl fun r hr => ?_
    rw [HalBufsImpl.heldSize, HalBufsImpl.heldSize, h.buf, h.sizeOf,
      update_of_ne (Finset.ne_of_mem_erase hr)]
  rw [HalBufsImpl.total, HalBufsImpl.total, h.range, ← Finset.add_sum_erase _ _ hq,
    ← Finset.add_sum_erase _ _ hq, hself, hothers]
  omega

theorem changes_takeBuf (s : HalBufs) (q : ℕ × ℕ) :
    Changes s.impl (takeBuf s q).impl q (some s.allocs) := ⟨rfl, rfl, rfl⟩

/-- A buffer that is taken adds its size to the total. -/
theorem total_takeBuf (hq : q ∈ s.impl.range) (hnone : s.impl.buf q = none) :
    (takeBuf s q).impl.total = s.impl.total + s.impl.sizeOf q.2 := by
  have htotal := (changes_takeBuf s q).total hq
  rwa [HalBufsImpl.heldSize, hnone, if_neg (by simp), Nat.add_zero, isSome_some,
    if_pos rfl] at htotal

theorem Sound.takeBuf (h : Sound s) (hq : q ∈ s.impl.range) (hsize : s.impl.sizeOf q.2 ≠ 0)
    (hnone : s.impl.buf q = none) : Sound (takeBuf s q) := by
  have hnew : (Hal.takeBuf s q).impl.buf q = some s.allocs := update_self ..
  have hold : ∀ r, r ≠ q → (Hal.takeBuf s q).impl.buf r = s.impl.buf r :=
    fun r hr => update_of_ne hr ..
  have hfresh : ∀ r, s.impl.buf r ≠ some s.allocs := fun r hr =>
    lt_irrefl _ ((h.allocated _).2 (.inr ⟨r, hr⟩))
  exact {
    sizeSum := by
      rw [total_takeBuf hq hnone, BitVec.ofNat_add, ← h.sizeSum]
      rfl
    inRange := fun r n hr => by
      by_cases hrq : r = q
      · rw [hrq]
        exact ⟨hq, hsize⟩
      · rw [hold r hrq] at hr
        exact h.inRange r n hr
    own := fun r t n hr ht => by
      by_cases hrq : r = q <;> by_cases htq : t = q
      · rw [hrq, htq]
      · rw [hrq, hnew, some.injEq] at hr
        rw [hold t htq, ← hr] at ht
        exact absurd ht (hfresh t)
      · rw [htq, hnew, some.injEq] at ht
        rw [hold r hrq, ← ht] at hr
        exact absurd hr (hfresh r)
      · rw [hold r hrq] at hr
        rw [hold t htq] at ht
        exact h.own r t n hr ht
    allocated := fun n => by
      constructor
      · intro hn
        obtain hlt | rfl : n < s.allocs ∨ n = s.allocs := Nat.lt_succ_iff_lt_or_eq.1 hn
        · refine ((h.allocated n).1 hlt).imp_right fun ⟨r, hr⟩ => ⟨r, ?_⟩
          rw [hold r fun hrq => by rw [hrq, hnone] at hr; cases hr]
          exact hr
        · exact .inr ⟨q, hnew⟩
      · rintro (hn | ⟨r, hr⟩)
        · exact Nat.lt_succ_of_lt ((h.allocated n).2 (.inl hn))
        · by_cases hrq : r = q
          · rw [hrq, hnew, some.injEq] at hr
            exact hr ▸ Nat.lt_succ_self _
          · rw [hold r hrq] at hr
            exact Nat.lt_succ_of_lt ((h.allocated n).2 (.inr ⟨r, hr⟩))
    apart := fun r n hr hput => by
      by_cases hrq : r = q
      · rw [hrq, hnew, some.injEq] at hr
        exact lt_irrefl _ ((h.allocated _).2 (.inl (hr ▸ hput)))
      · rw [hold r hrq] at hr
        exact h.apart r n hr hput
    once := h.once }

theorem changes_clearBuf (s : HalBufs) (q : ℕ × ℕ) :
    Changes s.impl (clearBuf s q).impl q none := by
  unfold clearBuf
  split
  · rename_i hnone
    exact ⟨rfl, rfl, by rw [← hnone, update_eq_self]⟩
  · rename_i n hsome
    unfold putBuf
    dsimp only
    rw [hsome]
    exact ⟨rfl, rfl, rfl⟩

theorem Sound.clearBuf (h : Sound s) (q : ℕ × ℕ) : Sound (clearBuf s q) := by
  cases hbuf : s.impl.buf q with
  | none =>
    unfold Hal.clearBuf
    rw [hbuf]
    exact h
  | some m =>
    have hchange := changes_clearBuf s q
    have hself : (Hal.clearBuf s q).impl.buf q = none := by
      rw [hchange.buf, update_self]
    have hold : ∀ r, r ≠ q → (Hal.clearBuf s q).impl.buf r = s.impl.buf r := fun r hr => by
      rw [hchange.buf, update_of_ne hr]
    have hne : ∀ r n, (Hal.clearBuf s q).impl.buf r = some n → r ≠ q := fun r n hr hrq => by
      rw [hrq, hself] at hr
      cases hr
    have hput : (Hal.clearBuf s q).put = s.put ++ [m] := by
      unfold Hal.clearBuf putBuf
      rw [hbuf]
    have hallocs : (Hal.clearBuf s q).allocs = s.allocs := by
      unfold Hal.clearBuf putBuf
      rw [hbuf]
    have hsum : (Hal.clearBuf s q).impl.sizeSum =
        s.impl.sizeSum - BitVec.ofNat 32 (s.impl.sizeOf q.2) := by
      unfold Hal.clearBuf putBuf
      rw [hbuf]
    obtain ⟨hq, -⟩ := h.inRange q m hbuf
    have htotal := hchange.total hq
    rw [HalBufsImpl.heldSize, hbuf, isSome_some, if_pos rfl, isSome_none,
      if_neg Bool.false_ne_true, Nat.add_zero] at htotal
    exact {
      sizeSum := by
        rw [hsum, h.sizeSum, ← htotal, BitVec.ofNat_add, BitVec.add_sub_cancel]
      inRange := fun r n hr => by
        have hrq := hne r n hr
        rw [hold r hrq] at hr
        rw [hchange.range, hchange.sizeOf]
        exact h.inRange r n hr
      own := fun r t n hr ht => by
        rw [hold r (hne r n hr)] at hr
        rw [hold t (hne t n ht)] at ht
        exact h.own r t n hr ht
      allocated := fun n => by
        rw [hallocs, h.allocated n, hput, mem_append, mem_singleton]
        constructor
        · rintro (hn | ⟨r, hr⟩)
          · exact .inl (.inl hn)
          · by_cases hrq : r = q
            · rw [hrq, hbuf, some.injEq] at hr
              exact .inl (.inr hr.symm)
            · exact .inr ⟨r, (hold r hrq).trans hr⟩
        · rintro ((hn | rfl) | ⟨r, hr⟩)
          · exact .inl hn
          · exact .inr ⟨q, hbuf⟩
          · exact .inr ⟨r, (hold r (hne r n hr)).symm.trans hr⟩
      apart := fun r n hr hmem => by
        have hrq := hne r n hr
        rw [hold r hrq] at hr
        rw [hput, mem_append, mem_singleton] at hmem
        obtain hmem | rfl := hmem
        · exact h.apart r n hr hmem
        · exact hrq (h.own r q n hr hbuf)
      once := by
        rw [hput]
        exact nodup_append_comm.1 (nodup_cons.2 ⟨h.apart q m hbuf, h.once⟩) }

/-! ## The bits -/

theorem getLsbD_mask (hi : i < 32) (k : ℕ) : (mask wide i).getLsbD k = decide (k = i) := by
  rw [mask, if_pos hi, BitVec.getLsbD_shiftLeft]
  by_cases hk : k < 32
  · rw [BitVec.getLsbD_one]
    simp only [hk, decide_true, Bool.true_and, Nat.ofNat_pos]
    by_cases hlt : k < i
    · simp [hlt, hlt.ne]
    · simp only [hlt, decide_false, Bool.not_false, Bool.true_and]
      exact decide_eq_decide.2 (by omega)
  · simp only [hk, decide_false, Bool.false_and]
    exact (decide_eq_false (by omega)).symm

/-- An index below the width has a bit of its own. -/
theorem and_mask_eq_zero (hi : i < 32) (v : BitVec 32) :
    v &&& mask wide i = 0#32 ↔ v.getLsbD i = false := by
  constructor
  · intro h
    have hbit : (v &&& mask wide i).getLsbD i = (0#32).getLsbD i := by rw [h]
    rwa [BitVec.getLsbD_and, getLsbD_mask hi, decide_eq_true rfl, Bool.and_true,
      BitVec.getLsbD_zero] at hbit
  · intro h
    refine BitVec.eq_of_getLsbD_eq fun k hk => ?_
    rw [BitVec.getLsbD_and, getLsbD_mask hi, BitVec.getLsbD_zero]
    by_cases hki : k = i
    · rw [hki, h, Bool.false_and]
    · rw [decide_eq_false hki, Bool.and_false]

/-! ## Releasing the buffers -/

/-- The bits of `valid` note the entries that are complete, and the others are empty. -/
structure Noted (p : HalBufsImpl) : Prop where
  inRange : ∀ i, p.valid.getLsbD i = true → i < p.maxCnt
  complete : ∀ i, p.valid.getLsbD i = true → ∀ j < p.sizes.length, p.sizeOf j ≠ 0 →
    (p.buf (i, j)).isSome
  empty : ∀ i, p.valid.getLsbD i = false → ∀ j, p.buf (i, j) = none

/-- The buffers at some places are gone, and nothing else. -/
structure Gone (s s' : HalBufs) (P : ℕ × ℕ → Prop) : Prop where
  maxCnt : s'.impl.maxCnt = s.impl.maxCnt
  sizes : s'.impl.sizes = s.impl.sizes
  valid : s'.impl.valid = s.impl.valid
  checks : s'.checks = s.checks
  gone : ∀ r, P r → s'.impl.buf r = none
  kept : ∀ r, ¬P r → s'.impl.buf r = s.impl.buf r

theorem gone_clearBuf (s : HalBufs) (q : ℕ × ℕ) : Gone s (clearBuf s q) (· = q) := by
  have hchange := changes_clearBuf s q
  refine ⟨hchange.maxCnt, hchange.sizes, ?_, ?_, fun r hr => ?_, fun r hr => ?_⟩
  · unfold clearBuf putBuf
    cases hbuf : s.impl.buf q <;> rfl
  · unfold clearBuf putBuf
    cases hbuf : s.impl.buf q <;> rfl
  · rw [hchange.buf, hr, update_self]
  · rw [hchange.buf, update_of_ne hr]

/-- All buffers of a list are put. -/
theorem clearBufs (h : Sound s) (qs : List (ℕ × ℕ)) :
    Sound (qs.foldl clearBuf s) ∧ Gone s (qs.foldl clearBuf s) (· ∈ qs) := by
  induction qs generalizing s with
  | nil => exact ⟨h, rfl, rfl, rfl, rfl, fun r hr => absurd hr not_mem_nil, fun _ _ => rfl⟩
  | cons q qs ih =>
    obtain ⟨hsound, hgone⟩ := ih (h.clearBuf q)
    have hone := gone_clearBuf s q
    refine ⟨hsound, hgone.maxCnt.trans hone.maxCnt, hgone.sizes.trans hone.sizes,
      hgone.valid.trans hone.valid, hgone.checks.trans hone.checks, fun r hr => ?_, fun r hr => ?_⟩
    · by_cases hmem : r ∈ qs
      · exact hgone.gone r hmem
      · exact (hgone.kept r hmem).trans (hone.gone r ((mem_cons.1 hr).resolve_right hmem))
    · rw [mem_cons, not_or] at hr
      exact (hgone.kept r hr.2).trans (hone.kept r hr.1)

theorem mem_places : q ∈ places s i ↔ q.1 = i ∧ q.2 < s.impl.sizes.length := by
  rw [places, List.mem_map]
  constructor
  · rintro ⟨j, hj, rfl⟩
    exact ⟨rfl, mem_range.1 hj⟩
  · rintro ⟨rfl, hj⟩
    exact ⟨q.2, mem_range.2 hj, rfl⟩

/-- The entries up to `k` are released. -/
structure Released (s s' : HalBufs) (k : ℕ) : Prop where
  sound : Sound s'
  noted : Noted s'.impl
  maxCnt : s'.impl.maxCnt = s.impl.maxCnt
  checks : s'.checks = s.checks
  bits : ∀ i < k, s'.impl.valid.getLsbD i = false

/-- An entry that is noted is released, and then it is not. -/
theorem Released.clearEntry {s' : HalBufs} {k : ℕ} (h : Released s s' k) :
    Released s (clearEntry wide s' k) (k + 1) := by
  have hlast : s'.impl.valid.getLsbD k = false → Released s s' (k + 1) := fun hk =>
    ⟨h.sound, h.noted, h.maxCnt, h.checks, fun i hi => by
      obtain hlt | rfl := Nat.lt_succ_iff_lt_or_eq.1 hi
      · exact h.bits i hlt
      · exact hk⟩
  rw [Hal.clearEntry]
  by_cases hk : 32 ≤ k
  · -- All bits were taken away before.
    have hzero : s'.impl.valid = 0#32 := BitVec.eq_of_getLsbD_eq fun i hi => by
      rw [h.bits i (by omega)]
      exact BitVec.getLsbD_zero.symm
    rw [if_neg (by rw [hzero, BitVec.zero_and]; exact not_not.2 rfl)]
    exact hlast (BitVec.getLsbD_of_ge _ _ hk)
  rw [not_le] at hk
  by_cases hbit : s'.impl.valid.getLsbD k = false
  · rw [if_neg (not_not.2 ((and_mask_eq_zero hk _).2 hbit))]
    exact hlast hbit
  rw [if_pos (fun hc => hbit ((and_mask_eq_zero hk _).1 hc))]
  dsimp only
  obtain ⟨hsound, hgone⟩ := clearBufs h.sound (places s' k)
  generalize (places s' k).foldl clearBuf s' = t at hsound hgone
  have hbits : ∀ i, (t.impl.valid &&& ~~~mask wide k).getLsbD i =
      (s'.impl.valid.getLsbD i && decide (i ≠ k)) := by
    intro i
    rw [BitVec.getLsbD_and, BitVec.getLsbD_not, getLsbD_mask hk, hgone.valid]
    by_cases hi : i < 32
    · simp [hi]
    · rw [BitVec.getLsbD_of_ge _ _ (not_lt.1 hi), Bool.false_and, Bool.false_and]
  have hother : ∀ i, i ≠ k → ∀ j, t.impl.buf (i, j) = s'.impl.buf (i, j) := fun i hi j =>
    hgone.kept _ fun hc => hi (mem_places.1 hc).1
  refine ⟨⟨hsound.sizeSum, hsound.inRange, hsound.own, hsound.allocated, hsound.apart,
    hsound.once⟩, ⟨fun i hi => ?_, fun i hi j hj hsize => ?_, fun i hi j => ?_⟩,
    hgone.maxCnt.trans h.maxCnt, hgone.checks.trans h.checks, fun i hi => ?_⟩
  · rw [hbits, Bool.and_eq_true] at hi
    show i < t.impl.maxCnt
    rw [hgone.maxCnt]
    exact h.noted.inRange i hi.1
  · rw [hbits, Bool.and_eq_true, decide_eq_true_eq] at hi
    show (t.impl.buf (i, j)).isSome
    rw [hother i hi.2 j]
    have hsizes : t.impl.sizes = s'.impl.sizes := hgone.sizes
    refine h.noted.complete i hi.1 j (hsizes ▸ hj) ?_
    rwa [HalBufsImpl.sizeOf, hsizes] at hsize
  · rw [hbits, Bool.and_eq_false_iff, decide_eq_false_iff_not, not_not] at hi
    show t.impl.buf (i, j) = none
    by_cases hik : i = k
    · by_cases hj : j < s'.impl.sizes.length
      · exact hgone.gone _ (mem_places.2 ⟨hik, hj⟩)
      · cases hbuf : t.impl.buf (i, j) with
        | none => rfl
        | some n =>
          have hrange := (hsound.inRange _ n hbuf).1
          rw [HalBufsImpl.range, Finset.mem_product, Finset.mem_range, Finset.mem_range,
            hgone.sizes] at hrange
          exact absurd hrange.2 hj
    · rw [hother i hik j]
      exact h.noted.empty i (hi.resolve_right hik) j
  · show (t.impl.valid &&& ~~~mask wide k).getLsbD i = false
    rw [hbits]
    obtain hlt | rfl := Nat.lt_succ_iff_lt_or_eq.1 hi
    · rw [h.bits i hlt, Bool.false_and]
    · rw [decide_eq_false (not_not.2 rfl), Bool.and_false]

/-- The loop releases all entries. -/
theorem released_range (h : Sound s) (hn : Noted s.impl) (k : ℕ) :
    Released s ((List.range k).foldl (clearEntry wide) s) k := by
  induction k with
  | zero => exact ⟨h, hn, rfl, rfl, nofun⟩
  | succ k ih =>
    rw [range_succ, foldl_concat]
    exact ih.clearEntry

/-- The pool between two regular calls. -/
structure PoolInv (s : HalBufs) : Prop where
  sound : Sound s
  noted : Noted s.impl
  small : s.impl.total < 2 ^ 31
  checks : s.checks = true

/-- A pool without buffers. -/
theorem total_eq_zero (h : ∀ q, p.buf q = none) : p.total = 0 :=
  Finset.sum_eq_zero fun q _ => by rw [HalBufsImpl.heldSize, h q, if_neg (by simp)]

/-- When the total is zero, no buffer is held: all that are have a size. -/
theorem Sound.none_of_total (h : Sound s) (htotal : s.impl.total = 0) (q : ℕ × ℕ) :
    s.impl.buf q = none := by
  cases hbuf : s.impl.buf q with
  | none => rfl
  | some n =>
    obtain ⟨hq, hsize⟩ := h.inRange q n hbuf
    have hheld := Finset.sum_eq_zero_iff.1 htotal q hq
    rw [HalBufsImpl.heldSize, hbuf, isSome_some, if_pos rfl] at hheld
    exact absurd hheld hsize

/-- A pool that holds nothing can be replaced by any other. -/
theorem poolInv_empty (h : Sound s) (hnone : ∀ q, s.impl.buf q = none) (hchecks : s.checks = true)
    (hvalid : p.valid = 0#32) (hsum : p.sizeSum = 0#32) (hbuf : ∀ q, p.buf q = none) :
    PoolInv { s with impl := p } := by
  have hno : ∀ q n, ¬p.buf q = some n := fun q n hq => by
    rw [hbuf q] at hq
    cases hq
  refine ⟨⟨?_, fun q n hq => absurd hq (hno q n), fun q r n hq => absurd hq (hno q n),
    fun n => ?_, fun q n hq => absurd hq (hno q n), h.once⟩, ⟨fun i hi => ?_, fun i hi => ?_,
    fun i _ j => hbuf (i, j)⟩, ?_, hchecks⟩
  · rw [total_eq_zero hbuf, hsum]
  · rw [h.allocated n]
    refine or_congr_right (iff_of_false ?_ ?_)
    · rintro ⟨q, hq⟩
      rw [hnone q] at hq
      cases hq
    · rintro ⟨q, hq⟩
      exact hno q n hq
  · rw [hvalid, BitVec.getLsbD_zero] at hi
    cases hi
  · rw [hvalid, BitVec.getLsbD_zero] at hi
    cases hi
  · rw [total_eq_zero hbuf]
    exact Nat.two_pow_pos 31

/-- `hal_bufs_clear` puts all buffers, and its assertions hold. -/
theorem PoolInv.halBufsClear (h : PoolInv s) :
    ∃ t, Sound t ∧ (∀ q, t.impl.buf q = none) ∧ t.checks = true ∧
      halBufsClear wide s = { t with impl := {} } := by
  unfold Hal.halBufsClear
  dsimp only
  by_cases hc : s.impl.valid ≠ 0#32 ∧ s.impl.sizeSum ≠ 0#32
  · rw [if_pos hc]
    have hr := @released_range s wide h.sound h.noted s.impl.maxCnt
    generalize (List.range s.impl.maxCnt).foldl (clearEntry wide) s = t at hr
    have hbits : ∀ i, t.impl.valid.getLsbD i = false := fun i => by
      by_contra hbit
      have hlt := hr.noted.inRange i (Bool.eq_true_of_not_eq_false hbit)
      exact hbit (hr.bits i (hr.maxCnt ▸ hlt))
    have hvalid : t.impl.valid = 0#32 := BitVec.eq_of_getLsbD_eq fun i _ => by
      rw [hbits i, BitVec.getLsbD_zero]
    have hnone : ∀ q, t.impl.buf q = none := fun q => hr.noted.empty q.1 (hbits q.1) q.2
    have hsum : t.impl.sizeSum = 0#32 := by
      rw [hr.sound.sizeSum, total_eq_zero hnone]
    set ok := t.checks && decide (t.impl.valid = 0#32) && decide (t.impl.sizeSum = 0#32) with hok
    refine ⟨{ t with checks := ok }, ⟨hr.sound.sizeSum, hr.sound.inRange, hr.sound.own,
      hr.sound.allocated, hr.sound.apart, hr.sound.once⟩, hnone, ?_, rfl⟩
    show ok = true
    rw [hok, hvalid, hsum, hr.checks, h.checks]
    rfl
  · rw [if_neg hc]
    refine ⟨s, h.sound, fun q => ?_, h.checks, rfl⟩
    rw [not_and_or, not_not, not_not] at hc
    obtain hvalid | hsum := hc
    · exact h.noted.empty q.1 (by rw [hvalid, BitVec.getLsbD_zero]) q.2
    · refine h.sound.none_of_total ?_ q
      have hmod := congrArg BitVec.toNat (h.sound.sizeSum.symm.trans hsum)
      rw [BitVec.toNat_ofNat, Nat.mod_eq_of_lt (h.small.trans (by decide))] at hmod
      exact hmod

/-! ## Allocating an entry -/

/-- What the loop has allocated, at the places `qs`. -/
structure Filled (s t : HalBufs) (qs : List (ℕ × ℕ)) : Prop where
  sound : Sound t
  maxCnt : t.impl.maxCnt = s.impl.maxCnt
  sizes : t.impl.sizes = s.impl.sizes
  valid : t.impl.valid = s.impl.valid
  checks : t.checks = s.checks
  filled : ∀ q ∈ qs, s.impl.sizeOf q.2 ≠ 0 → (t.impl.buf q).isSome
  kept : ∀ q, q ∉ qs → t.impl.buf q = s.impl.buf q
  total : t.impl.total = s.impl.total + (qs.map fun q => s.impl.sizeOf q.2).sum

variable {grant : ℕ → Bool}

/-- When all allocations are granted, the loop fills all places of the entry. -/
theorem getBufs_filled {qs : List (ℕ × ℕ)} (h : Sound s) (hqs : qs.Nodup)
    (hrange : ∀ q ∈ qs, q ∈ s.impl.range) (hnone : ∀ q ∈ qs, s.impl.buf q = none)
    (hgrant : ∀ q ∈ qs, s.impl.sizeOf q.2 ≠ 0 → grant q.2) :
    ∃ t, getBufs grant qs s = (t, true) ∧ Filled s t qs := by
  induction qs generalizing s with
  | nil => exact ⟨s, rfl, h, rfl, rfl, rfl, rfl, nofun, fun _ _ => rfl, rfl⟩
  | cons q qs ih =>
    rw [nodup_cons] at hqs
    rw [forall_mem_cons] at hrange hnone hgrant
    rw [getBufs]
    by_cases hsize : s.impl.sizeOf q.2 = 0
    · rw [if_neg fun hc => hc.1 hsize]
      obtain ⟨t, hget, ht⟩ := ih h hqs.2 hrange.2 hnone.2 hgrant.2
      refine ⟨t, hget, ht.sound, ht.maxCnt, ht.sizes, ht.valid, ht.checks,
        forall_mem_cons.2 ⟨fun hc => absurd hsize hc, ht.filled⟩,
        fun r hr => ht.kept r fun hc => hr (mem_cons_of_mem _ hc), ?_⟩
      rw [ht.total, map_cons, sum_cons, hsize, Nat.zero_add]
    · rw [if_pos ⟨hsize, hnone.1⟩, if_pos (hgrant.1 hsize)]
      have hother : ∀ r ∈ qs, (takeBuf s q).impl.buf r = s.impl.buf r := fun r hr =>
        update_of_ne (fun hc : r = q => hqs.1 (hc ▸ hr)) ..
      obtain ⟨t, hget, ht⟩ := ih (h.takeBuf hrange.1 hsize hnone.1) hqs.2 hrange.2
        (fun r hr => (hother r hr).trans (hnone.2 r hr)) hgrant.2
      refine ⟨t, hget, ht.sound, ht.maxCnt, ht.sizes, ht.valid, ht.checks,
        forall_mem_cons.2 ⟨fun _ => ?_, ht.filled⟩, fun r hr => ?_, ?_⟩
      · rw [ht.kept q hqs.1, show (takeBuf s q).impl.buf q = _ from update_self ..]
        rfl
      · rw [mem_cons, not_or] at hr
        exact (ht.kept r hr.2).trans (update_of_ne hr.1 ..)
      · rw [ht.total, total_takeBuf hrange.1 hnone.1, map_cons, sum_cons, Nat.add_assoc]
        rfl

/-- When the first allocation fails, the loop has done nothing. -/
theorem getBufs_fails {l l' : List (ℕ × ℕ)} (hl : ∀ r ∈ l, s.impl.sizeOf r.2 = 0)
    (hsize : s.impl.sizeOf q.2 ≠ 0) (hnone : s.impl.buf q = none) (hgrant : grant q.2 = false) :
    getBufs grant (l ++ q :: l') s = (s, false) := by
  induction l with
  | nil =>
    rw [nil_append, getBufs, if_pos ⟨hsize, hnone⟩, if_neg (by rw [hgrant]; simp)]
  | cons r l ih =>
    rw [forall_mem_cons] at hl
    rw [cons_append, getBufs, if_neg fun hc => hc.1 hl.1]
    exact ih hl.2

theorem nodup_places (s : HalBufs) (i : ℕ) : (places s i).Nodup :=
  nodup_range.map fun _ _ h => (Prod.mk.inj h).2

/-- The sizes of the places are those that are configured. -/
theorem map_sizeOf_places (s : HalBufs) (i : ℕ) :
    (places s i).map (fun q => s.impl.sizeOf q.2) = s.impl.sizes := by
  rw [places, List.map_map]
  refine ext_getElem (by simp) fun k h₁ h₂ => ?_
  rw [getElem_map, getElem_range, Function.comp_apply, HalBufsImpl.sizeOf,
    getD_eq_getElem _ _ h₂]

theorem putBuf_of_none (h : s.impl.buf q = none) : putBuf s q = s := by
  rw [putBuf, h]

/-- Nothing is put when nothing is held. -/
theorem putBufs_of_none {qs : List (ℕ × ℕ)} (h : ∀ q ∈ qs, s.impl.buf q = none) :
    qs.foldl putBuf s = s := by
  induction qs with
  | nil => rfl
  | cons q qs ih =>
    rw [forall_mem_cons] at h
    rw [foldl_cons, putBuf_of_none h.1]
    exact ih h.2

/-- A call for an entry keeps the invariant, and does what it should. -/
theorem PoolInv.getBuf (h : PoolInv s) {bufIdx : ℤ} (hreg : (BufsOp.get bufIdx grant).Regular s) :
    PoolInv (halBufsGetBuf wide bufIdx grant s).1 ∧
      (BufsOp.get bufIdx grant).Lawful s (halBufsGetBuf wide bufIdx grant s).1
        (halBufsGetBuf wide bufIdx grant s).2 := by
  rw [halBufsGetBuf]
  by_cases hrange : bufIdx < 0 ∨ s.impl.maxCnt ≤ bufIdx
  · rw [if_pos hrange]
    exact ⟨h, nofun, fun _ => rfl⟩
  rw [if_neg hrange]
  obtain ⟨hlt, hnew⟩ := hreg (by omega) (by omega)
  obtain ⟨i, rfl⟩ := Int.eq_ofNat_of_zero_le (by omega : 0 ≤ bufIdx)
  dsimp only
  rw [Int.toNat_natCast] at hnew ⊢
  have hi : i < 32 := by omega
  have himax : i < s.impl.maxCnt := by omega
  cases hbit : s.impl.valid.getLsbD i with
  | true =>
    rw [if_neg fun hc => by rw [(and_mask_eq_zero hi _).1 hc] at hbit; cases hbit]
    refine ⟨h, fun k hk => ?_, nofun⟩
    obtain rfl := some.inj hk
    exact ⟨rfl, rfl, rfl, h.noted.complete i hbit⟩
  | false =>
    rw [if_pos ((and_mask_eq_zero hi _).2 hbit)]
    have hnone : ∀ q ∈ places s i, s.impl.buf q = none := fun q hq => by
      have := h.noted.empty i hbit q.2
      rwa [← (mem_places.1 hq).1] at this
    obtain ⟨j, hj, hsize, hgrant, hfirst⟩ | ⟨hgrant, hfits⟩ := hnew hbit
    · have hsplit : places s i = (List.range j).map (fun k => (i, k)) ++
          (i, j) :: (List.range' (j + 1) (s.impl.sizes.length - (j + 1))).map fun k => (i, k) := by
        have hlen : s.impl.sizes.length = j + (s.impl.sizes.length - (j + 1) + 1) := by omega
        rw [places, ← map_cons (f := fun k => (i, k)), ← map_append,
          ← range'_succ, range_eq_range', range_eq_range']
        conv_lhs => rw [hlen, ← range'_append_1, Nat.zero_add]
      have hfail : getBufs grant (places s i) s = (s, false) := by
        rw [hsplit]
        refine getBufs_fails (fun r hr => ?_) hsize (hnone _ (mem_places.2 ⟨rfl, hj⟩)) hgrant
        obtain ⟨k, hk, rfl⟩ := mem_map.1 hr
        exact hfirst k (mem_range.1 hk)
      rw [hfail]
      dsimp only
      rw [if_neg Bool.false_ne_true, putBufs_of_none hnone]
      exact ⟨h, nofun, fun _ => rfl⟩
    · have hin : ∀ q ∈ places s i, q ∈ s.impl.range := fun q hq => by
        rw [HalBufsImpl.range, Finset.mem_product, Finset.mem_range, Finset.mem_range,
          (mem_places.1 hq).1]
        exact ⟨himax, (mem_places.1 hq).2⟩
      obtain ⟨t, hget, ht⟩ := getBufs_filled h.sound (nodup_places s i) hin hnone fun q hq =>
        hgrant q.2 (mem_places.1 hq).2
      rw [hget]
      dsimp only
      rw [if_pos rfl]
      have hsizeOf : ∀ j, t.impl.sizeOf j = s.impl.sizeOf j := fun j => by
        rw [HalBufsImpl.sizeOf, HalBufsImpl.sizeOf, ht.sizes]
      have hfull : ∀ j < s.impl.sizes.length, s.impl.sizeOf j ≠ 0 → (t.impl.buf (i, j)).isSome :=
        fun j hj hsz => ht.filled (i, j) (mem_places.2 ⟨rfl, hj⟩) hsz
      have hbits : ∀ k, (t.impl.valid ||| mask wide i).getLsbD k =
          (s.impl.valid.getLsbD k || decide (k = i)) := fun k => by
        rw [BitVec.getLsbD_or, getLsbD_mask hi, ht.valid]
      have hother : ∀ k, k ≠ i → ∀ j, t.impl.buf (k, j) = s.impl.buf (k, j) := fun k hk j =>
        ht.kept _ fun hc => hk (mem_places.1 hc).1
      refine ⟨⟨⟨ht.sound.sizeSum, ht.sound.inRange, ht.sound.own, ht.sound.allocated,
        ht.sound.apart, ht.sound.once⟩, ⟨fun k hk => ?_, fun k hk => ?_, fun k hk j => ?_⟩, ?_,
        ht.checks.trans h.checks⟩, fun k hk => ?_, nofun⟩
      · rw [hbits, Bool.or_eq_true, decide_eq_true_eq] at hk
        show k < t.impl.maxCnt
        rw [ht.maxCnt]
        obtain hk | rfl := hk
        · exact h.noted.inRange k hk
        · exact himax
      · rw [hbits, Bool.or_eq_true, decide_eq_true_eq] at hk
        intro j hj hsz
        show (t.impl.buf (k, j)).isSome
        by_cases hki : k = i
        · rw [hki]
          exact hfull j (ht.sizes ▸ hj) (hsizeOf j ▸ hsz)
        · rw [hother k hki j]
          exact h.noted.complete k (hk.resolve_right hki) j (ht.sizes ▸ hj) (hsizeOf j ▸ hsz)
      · rw [hbits, Bool.or_eq_false_iff, decide_eq_false_iff_not] at hk
        show t.impl.buf (k, j) = none
        rw [hother k hk.2 j]
        exact h.noted.empty k hk.1 j
      · show t.impl.total < 2 ^ 31
        rw [ht.total, map_sizeOf_places]
        exact hfits
      · obtain rfl := some.inj hk
        exact ⟨rfl, ht.maxCnt, ht.sizes, hfull⟩

/-! ## Runs -/

theorem refuses_iff (maxCnt : ℤ) (sizes : List ℕ) :
    maxCnt ≤ 0 ∨ maxHalBufsCnt < maxCnt ∨ sizes.length = 0 ∨
      maxHalBufsSizeCnt < sizes.length ↔ ¬Takes maxCnt sizes := by
  rw [Takes, not_and_or, not_and_or, not_and_or, not_lt, not_le, not_le, not_not, length_eq_zero_iff]

/-- A regular call keeps the invariant, and does what it should. -/
theorem PoolInv.apply (h : PoolInv s) (o : BufsOp) (hreg : o.Regular s) :
    PoolInv (o.apply wide s).1 ∧ o.Lawful s (o.apply wide s).1 (o.apply wide s).2 := by
  obtain ⟨t, ht, hnone, hchecks, hclear⟩ := @PoolInv.halBufsClear s wide h
  have hempty : PoolInv { t with impl := {} } :=
    poolInv_empty ht hnone hchecks rfl rfl fun _ => rfl
  cases o with
  | get bufIdx grant => exact h.getBuf hreg
  | deinit =>
    show PoolInv (Hal.halBufsClear wide s) ∧ (Hal.halBufsClear wide s).impl = {}
    rw [hclear]
    exact ⟨hempty, rfl⟩
  | setup maxCnt sizes granted =>
    rw [BufsOp.apply]
    dsimp only
    rw [halBufsSetup]
    by_cases hbad : maxCnt ≤ 0 ∨ maxHalBufsCnt < maxCnt ∨ sizes.length = 0 ∨
        maxHalBufsSizeCnt < sizes.length
    · rw [if_pos hbad]
      exact ⟨h, fun _ => rfl, fun htakes => absurd htakes ((refuses_iff ..).1 hbad)⟩
    · have htakes : Takes maxCnt sizes := not_not.1 (mt (refuses_iff ..).2 hbad)
      rw [if_neg hbad, hclear]
      dsimp only
      cases granted with
      | true =>
        exact ⟨poolInv_empty ht hnone hchecks rfl rfl fun _ => rfl,
          fun hc => absurd hc (by simp [htakes]), fun _ _ => rfl⟩
      | false => exact ⟨hempty, fun _ => (hreg htakes rfl).symm, nofun⟩

theorem PoolInv.law (h : PoolInv s) : s.Law where
  sizeSum := by
    have hle : s.impl.total < 2 ^ 31 := h.small
    have hnat : (BitVec.ofNat 32 s.impl.total).toNat = s.impl.total := by
      rw [BitVec.toNat_ofNat]
      exact Nat.mod_eq_of_lt (hle.trans (by decide))
    rw [h.sound.sizeSum, BitVec.toInt_eq_toNat_cond, hnat, if_pos (by omega)]
  own := h.sound.own
  allocated := h.sound.allocated
  apart := h.sound.apart
  once := h.sound.once
  checks := h.checks

/-- The states of a run with regular calls. -/
theorem reachable_inv (h : ((pool wide).guarded fun s o _ => o.Regular s).Reachable s) :
    PoolInv s := by
  refine h.invariant (P := PoolInv) ?_ ?_
  · rintro _ rfl
    have hsound : Sound {} := ⟨rfl, nofun, nofun, fun n => by simp, nofun, nodup_nil⟩
    exact poolInv_empty hsound (fun _ => rfl) rfl rfl rfl fun _ => rfl
  · rintro s o s' - hinv ⟨rfl, hreg⟩
    exact (hinv.apply o hreg).1

/-- In a run of regular calls the account is in order, and every call does what it should. -/
theorem pool_lawful (h : ((pool wide).guarded fun s o _ => o.Regular s).Reachable s) :
    s.Law ∧ ∀ o : BufsOp, o.Regular s → o.Lawful s (o.apply wide s).1 (o.apply wide s).2 :=
  ⟨(reachable_inv h).law, fun o hreg => ((reachable_inv h).apply o hreg).2⟩

/-- The first buffer of a pool. -/
theorem pool_lawful_get :
    (halBufsGetBuf (fun _ => 0) 0 (fun _ => true)
      (halBufsSetup (fun _ => 0) 1 [8] true {})).1.Law := by
  refine (pool_lawful (.step (a := .get 0 fun _ => true)
    (.step (a := .setup 1 [8] true) (.init rfl) ⟨rfl, nofun⟩) ⟨rfl, fun _ _ => ⟨by decide,
      fun _ => .inr ⟨fun _ _ _ => rfl, ?_⟩⟩⟩)).1
  rw [total_eq_zero fun _ => rfl]
  decide

/-- The second allocation of a call fails: the size of the first is still accounted. -/
theorem failed_kept : ¬∀ wide s, (pool wide).Reachable s →
    s.Law ∧ ∀ o : BufsOp, o.Lawful s (o.apply wide s).1 (o.apply wide s).2 := by
  intro h
  have hsame := ((h (fun _ => 0) _ (.step (a := .setup 1 [8, 8] true) (.init rfl) rfl)).2
    (.get 0 (· = 0))).2 rfl
  exact absurd (congrArg HalBufsImpl.sizeSum hsame) (by decide)

end Libmpp.Hal
