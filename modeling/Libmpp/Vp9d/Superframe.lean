import Libmpp.Lib.Machine

/-!
# Splitting VP9 packets

A packet is a frame, or a superframe: some frames, and behind them an index of their sizes
between two marker bytes. `vp9dSplitFrame` takes the first frame of a packet, and is called
again with what is left. It keeps the sizes of the frames to come in a stack, the last on top.

* A call on a stack of sizes that fit takes the frames off (`splitCalls_stacked`), and the
  first call pushes such sizes (`splitLoop_pushes`) or finds one that does not fit
  (`splitLoop_fails`).
* Between packets the stack is empty (`splitCalls_ends`).
* The frames are those of the index when it is in order and names two frames or more
  (`split_packet`). The only frame of an index is followed by the index itself, as another
  frame; and from a packet whose index has a bad size behind a good one, only the end is
  returned.

A packet has less than 2³¹ bytes.
-/

namespace Libmpp.Vp9d

open List Option

/-! ## The model -/

/-- `VP9ParseCtx` -/
structure Vp9ParseCtx where
  nFrames : ℕ := 0
  size : ℕ → ℕ := fun _ => 0
  pts : ℤ := 0

/-- `VP9SplitCtx`, with the context that it points to. -/
structure Vp9SplitCtx where
  priv : Vp9ParseCtx := {}
  keyFrame : Bool := false
  pts : ℤ := 0

/-- `split_parse_frame`, on the first byte of the frame. -/
def splitParseFrame (ctx : Vp9SplitCtx) (b : UInt8) : Vp9SplitCtx :=
  let keyFrame : Bool := b &&& 0x4 = 0
  if b &&& 0x2 ≠ 0 then
    { priv := { ctx.priv with pts := -1 }
      keyFrame
      pts := if ctx.pts = -1 then ctx.priv.pts else ctx.pts }
  else { priv := { ctx.priv with pts := ctx.pts }, keyFrame, pts := -1 }

/-- `rd` of `case_n`: the number in the `a` bytes from `idx` on, the least significant first. -/
def codedSize (data : List UInt8) : ℕ → ℕ → ℕ
  | 0, _ => 0
  | a + 1, idx => (data.getD idx 0).toNat + 256 * codedSize data a (idx + 1)

/-- The variables of the loop over the index. `data` is an offset in the packet. -/
structure SplitLoop where
  priv : Vp9ParseCtx
  first : Bool := true
  outData : ℕ := 0
  outSize : ℕ := 0
  data : ℕ := 0
  size : ℕ

/-- A size that does not fit: the loop is left with what is left of the packet. -/
def SplitLoop.fail (fullSize : ℕ) (s : SplitLoop) : SplitLoop :=
  { s with
    priv := { s.priv with nFrames := 0 }
    outData := s.data
    outSize := if fullSize < s.size then fullSize else s.size }

/-- A size that fits, when `n` frames are still to come. -/
def SplitLoop.take (n sz : ℕ) (s : SplitLoop) : SplitLoop :=
  let s :=
    if s.first then
      { s with
        first := false, outData := s.data, outSize := sz, priv := { s.priv with nFrames := n } }
    else { s with priv := { s.priv with size := Function.update s.priv.size n sz } }
  { s with data := s.data + sz, size := s.size - sz }

/-- The loop of `case_n`, and whether it gets to its end. -/
def splitLoop (data : List UInt8) (a : ℕ) : ℕ → ℕ → SplitLoop → Bool × SplitLoop
  | 0, _, s => (true, s)
  | n + 1, idx, s =>
    let sz := codedSize data a idx
    if sz = 0 ∨ s.size < sz then (false, s.fail data.length)
    else splitLoop data a n (idx + a) (s.take n sz)

/-- What a call of `vp9d_split_frame` returns: the frame, as a range of the packet, and the
    number of bytes that are consumed. -/
structure SplitResult where
  ctx : Vp9SplitCtx
  outData : ℕ
  outSize : ℕ
  consumed : ℕ

/-- The last byte of the packet. -/
def marker (data : List UInt8) : UInt8 := data.getD (data.length - 1) 0

/-- The bytes of a size in the index. -/
def indexBytes (data : List UInt8) : ℕ := 1 + ((marker data).toNat / 8) % 4

/-- The number of frames in the index. -/
def indexFrames (data : List UInt8) : ℕ := 1 + (marker data).toNat % 8

/-- `idx_sz` -/
def indexSize (data : List UInt8) : ℕ := 2 + indexFrames data * indexBytes data

/-- The packet ends with an index: the marker is there, before it and behind it. -/
def HasIndex (data : List UInt8) : Prop :=
  marker data &&& 0xe0 = 0xc0 ∧ indexSize data ≤ data.length ∧
    data.getD (data.length - indexSize data) 0 = marker data

instance (data : List UInt8) : Decidable (HasIndex data) := inferInstanceAs (Decidable (_ ∧ _))

/-- The first call on a superframe. -/
def splitSuperframe (ctx : Vp9SplitCtx) (data : List UInt8) : SplitResult :=
  let (ok, s) := splitLoop data (indexBytes data) (indexFrames data)
    (data.length + 1 - indexSize data) { priv := ctx.priv, size := data.length }
  if ok then
    { ctx := splitParseFrame { ctx with priv := s.priv } (data.getD s.outData 0)
      outData := s.outData
      outSize := s.outSize
      consumed := s.outSize }
  else
    { ctx := { ctx with priv := s.priv }
      outData := s.outData
      outSize := s.outSize
      consumed := data.length }

/-- `vp9d_split_frame` -/
def vp9dSplitFrame (ctx : Vp9SplitCtx) (data : List UInt8) : SplitResult :=
  if data.length = 0 then { ctx, outData := 0, outSize := 0, consumed := 0 }
  else
    match ctx.priv.nFrames with
    | n + 1 =>
      { ctx := splitParseFrame { ctx with priv := { ctx.priv with nFrames := n } } (data.getD 0 0)
        outData := 0
        outSize := ctx.priv.size n
        consumed := if 0 < n then ctx.priv.size n else data.length }
    | 0 =>
      if HasIndex data then splitSuperframe ctx data
      else
        { ctx := splitParseFrame ctx (data.getD 0 0)
          outData := 0
          outSize := data.length
          consumed := data.length }

/-- A call with what is left of the packet from `pos` on, and further ones as long as anything
    is left: the frames with their offsets in the packet, and the context. -/
def splitCalls : ℕ → Vp9SplitCtx → List UInt8 → ℕ → Option (List (ℕ × ℕ) × Vp9SplitCtx)
  | 0, _, _, _ => none
  | n + 1, ctx, data, pos =>
    let r := vp9dSplitFrame ctx data
    let frame := (pos + r.outData, r.outSize)
    if data.length ≤ r.consumed then some ([frame], r.ctx)
    else (splitCalls n r.ctx (data.drop r.consumed) (pos + r.consumed)).map fun (frames, ctx) =>
      (frame :: frames, ctx)

/-- What the splitter is asked to do. -/
inductive SplitOp
  | packet (data : List UInt8)
  | reset

/-- `vp9d_paser_reset`, for the splitter. -/
def Vp9SplitCtx.vp9dPaserReset (ctx : Vp9SplitCtx) : Vp9SplitCtx := { ctx with priv := {} }

/-- The splitter, between two packets. -/
def splitter : Machine Vp9SplitCtx SplitOp where
  init ctx := ctx = {}
  step
    | ctx, .packet data, ctx' => ∃ n frames, splitCalls n ctx data 0 = some (frames, ctx')
    | ctx, .reset, ctx' => ctx' = ctx.vp9dPaserReset

/-! ## The specification -/

/-- The sizes of an index at `idx`, with `n` frames of `a` bytes each. -/
def readSizes (data : List UInt8) (a : ℕ) : ℕ → ℕ → List ℕ
  | 0, _ => []
  | n + 1, idx => codedSize data a idx :: readSizes data a n (idx + a)

/-- The sizes in the index of a packet. -/
def indexSizes (data : List UInt8) : List ℕ :=
  readSizes data (indexBytes data) (indexFrames data) (data.length + 1 - indexSize data)

/-- The index of a packet is in order: no frame is empty, and they fit before the index. -/
def WellFormed (data : List UInt8) : Prop :=
  (∀ sz ∈ indexSizes data, sz ≠ 0) ∧ (indexSizes data).sum + indexSize data ≤ data.length

instance (data : List UInt8) : Decidable (WellFormed data) := inferInstanceAs (Decidable (_ ∧ _))

/-- Frames of the given sizes one behind the other. -/
def framesFrom : ℕ → List ℕ → List (ℕ × ℕ)
  | _, [] => []
  | pos, sz :: l => (pos, sz) :: framesFrom (pos + sz) l

/-- The frames of a packet: those of an index that is in order, or else one. -/
def framesOf (data : List UInt8) : List (ℕ × ℕ) :=
  if HasIndex data ∧ WellFormed data then framesFrom 0 (indexSizes data) else [(0, data.length)]

/-- The calls on a packet come to an end, the frames lie inside the packet and are those that
    they should be, and no size is left over. -/
structure Split (ctx : Vp9SplitCtx) (data : List UInt8) : Prop where
  ends : ∃ n, (splitCalls n ctx data 0).isSome
  inside : ∀ n frames ctx', splitCalls n ctx data 0 = some (frames, ctx') →
    ∀ f ∈ frames, f.1 + f.2 ≤ data.length
  frames : ∀ n frames ctx', splitCalls n ctx data 0 = some (frames, ctx') →
    frames = framesOf data
  nothingLeft : ∀ n frames ctx', splitCalls n ctx data 0 = some (frames, ctx') →
    ctx'.priv.nFrames = 0

/-- The packet has no index, or one that is in order and names two frames or more, or one whose
    first size is bad, or is that of the packet and the only one. -/
def Splittable (data : List UInt8) : Prop :=
  HasIndex data →
    (WellFormed data ∧ 1 < indexFrames data) ∨
    (indexSizes data).head? = some 0 ∨ data.length < (indexSizes data).headD 0 ∨
    indexSizes data = [data.length]

/-! ## The calls -/

variable {ctx ctx' : Vp9SplitCtx} {data : List UInt8} {pos n m : ℕ}

variable {r : List (ℕ × ℕ) × Vp9SplitCtx}

/-- More calls than are made change nothing. -/
theorem splitCalls_succ (h : splitCalls n ctx data pos = some r) :
    splitCalls (n + 1) ctx data pos = some r := by
  induction n generalizing ctx data pos r with
  | zero => cases h
  | succ n ih =>
    rw [splitCalls] at h ⊢
    dsimp only at h ⊢
    split_ifs at h ⊢
    · exact h
    · obtain ⟨r', hr, rfl⟩ := map_eq_some_iff.1 h
      rw [ih hr]
      rfl

theorem splitCalls_mono (h : splitCalls n ctx data pos = some r) (hle : n ≤ m) :
    splitCalls m ctx data pos = some r := by
  induction hle with
  | refl => exact h
  | step _ ih => exact splitCalls_succ ih

/-- However many calls there may be, the frames are the same. -/
theorem splitCalls_unique {r' : List (ℕ × ℕ) × Vp9SplitCtx} (h : splitCalls n ctx data pos = some r)
    (h' : splitCalls m ctx data pos = some r') : r = r' := by
  have hn := splitCalls_mono h (Nat.le_max_left n m)
  have hm := splitCalls_mono h' (Nat.le_max_right n m)
  exact some.inj (hn.symm.trans hm)

@[simp] theorem splitParseFrame_nFrames (ctx : Vp9SplitCtx) (b : UInt8) :
    (splitParseFrame ctx b).priv.nFrames = ctx.priv.nFrames := by
  unfold splitParseFrame
  split_ifs <;> rfl

@[simp] theorem splitParseFrame_size (ctx : Vp9SplitCtx) (b : UInt8) :
    (splitParseFrame ctx b).priv.size = ctx.priv.size := by
  unfold splitParseFrame
  split_ifs <;> rfl

/-! ### Frames that are in the stack -/

/-- The stack holds the sizes, the first on top. -/
def Stacked : List ℕ → (ℕ → ℕ) → Prop
  | [], _ => True
  | sz :: l, size => size l.length = sz ∧ Stacked l size

/-- The sizes are those of frames that fit in a packet of `size` bytes. -/
def FitsIn (l : List ℕ) (size : ℕ) : Prop := (∀ sz ∈ l, sz ≠ 0) ∧ l.sum ≤ size

instance (l : List ℕ) (size : ℕ) : Decidable (FitsIn l size) := inferInstanceAs (Decidable (_ ∧ _))

variable {sz : ℕ} {l : List ℕ}

theorem fitsIn_cons {size : ℕ} :
    FitsIn (sz :: l) size ↔ ¬(sz = 0 ∨ size < sz) ∧ FitsIn l (size - sz) := by
  unfold FitsIn
  rw [forall_mem_cons, sum_cons]
  constructor
  · rintro ⟨⟨h0, hl⟩, hsum⟩
    exact ⟨by omega, hl, by omega⟩
  · rintro ⟨h, hl, hsum⟩
    exact ⟨⟨by omega, hl⟩, by omega⟩

theorem framesFrom_inside {f : ℕ × ℕ} (hf : f ∈ framesFrom pos l) : f.1 + f.2 ≤ pos + l.sum := by
  induction l generalizing pos with
  | nil => cases hf
  | cons sz l ih =>
    rw [framesFrom, mem_cons] at hf
    rw [sum_cons]
    obtain rfl | hf := hf
    · exact Nat.add_le_add_left (Nat.le_add_right ..) _
    · have := ih hf
      omega

/-- The last call on a packet. -/
theorem splitCalls_last (h : data.length ≤ (vp9dSplitFrame ctx data).consumed) :
    splitCalls (n + 1) ctx data pos =
      some ([(pos + (vp9dSplitFrame ctx data).outData, (vp9dSplitFrame ctx data).outSize)],
        (vp9dSplitFrame ctx data).ctx) := by
  rw [splitCalls]
  exact if_pos h

/-- A call that leaves something of the packet. -/
theorem splitCalls_next {r : SplitResult} (hr : vp9dSplitFrame ctx data = r)
    (h : r.consumed < data.length) :
    splitCalls (n + 1) ctx data pos =
      (splitCalls n r.ctx (data.drop r.consumed) (pos + r.consumed)).map fun (frames, ctx) =>
        ((pos + r.outData, r.outSize) :: frames, ctx) := by
  subst hr
  rw [splitCalls]
  exact if_neg (not_le.2 h)

/-- A call when the stack is not empty. -/
theorem vp9dSplitFrame_pop (hdata : data.length ≠ 0) (hn : ctx.priv.nFrames = n + 1) :
    ∃ next, vp9dSplitFrame ctx data =
        { ctx := next
          outData := 0
          outSize := ctx.priv.size n
          consumed := if 0 < n then ctx.priv.size n else data.length } ∧
      next.priv.nFrames = n ∧ next.priv.size = ctx.priv.size := by
  rw [vp9dSplitFrame, if_neg hdata, hn]
  exact ⟨_, rfl, splitParseFrame_nFrames .., splitParseFrame_size ..⟩

/-- The calls take the frames off the stack. -/
theorem splitCalls_stacked (hn : ctx.priv.nFrames = l.length + 1)
    (hstack : Stacked (sz :: l) ctx.priv.size) (hfits : FitsIn (sz :: l) data.length) :
    ∃ ctx', splitCalls (l.length + 1) ctx data pos = some (framesFrom pos (sz :: l), ctx') ∧
      ctx'.priv.nFrames = 0 := by
  induction l generalizing ctx data pos sz with
  | nil =>
    obtain ⟨hsz, -⟩ := fitsIn_cons.1 hfits
    obtain ⟨next, hpop, hcount, -⟩ := vp9dSplitFrame_pop (by omega : data.length ≠ 0) hn
    rw [hstack.1, length_nil, if_neg (lt_irrefl 0)] at hpop
    rw [splitCalls_last (by rw [hpop]), hpop]
    exact ⟨next, rfl, hcount⟩
  | cons sz' l ih =>
    obtain ⟨hsz, hrest⟩ := fitsIn_cons.1 hfits
    obtain ⟨next, hpop, hcount, hsize⟩ := vp9dSplitFrame_pop (by omega : data.length ≠ 0) hn
    have htop : ctx.priv.size (l.length + 1) = sz := hstack.1
    rw [length_cons, htop, if_pos (Nat.succ_pos _)] at hpop
    have hleft : sz < data.length := by
      have := (fitsIn_cons.1 hrest).1
      omega
    rw [← length_drop] at hrest
    obtain ⟨ctx', hcalls, h0⟩ := @ih next _ (pos + sz) _ hcount (hsize ▸ hstack.2) hrest
    refine ⟨ctx', ?_, h0⟩
    rw [splitCalls_next hpop hleft, length_cons, hcalls]
    rfl

/-! ### The loop over the index -/

theorem length_readSizes (data : List UInt8) (a n idx : ℕ) :
    (readSizes data a n idx).length = n := by
  induction n generalizing idx with
  | zero => rfl
  | succ n ih => rw [readSizes, length_cons, ih]

/-- Sizes that fit are pushed, behind the first one. -/
theorem splitLoop_pushes {a idx : ℕ} {s : SplitLoop} (hfirst : s.first = false)
    (hfits : FitsIn (readSizes data a n idx) s.size) :
    ∃ s', splitLoop data a n idx s = (true, s') ∧ s'.priv.nFrames = s.priv.nFrames ∧
      s'.outData = s.outData ∧ s'.outSize = s.outSize ∧
      Stacked (readSizes data a n idx) s'.priv.size ∧
      ∀ k, n ≤ k → s'.priv.size k = s.priv.size k := by
  induction n generalizing idx s with
  | zero => exact ⟨s, rfl, rfl, rfl, rfl, trivial, fun _ _ => rfl⟩
  | succ n ih =>
    rw [readSizes] at hfits ⊢
    obtain ⟨hsz, hrest⟩ := fitsIn_cons.1 hfits
    set sz := codedSize data a idx
    have htake : s.take n sz = { s with
        priv := { s.priv with size := Function.update s.priv.size n sz }
        data := s.data + sz
        size := s.size - sz } := by
      rw [SplitLoop.take, if_neg (by rw [hfirst]; exact Bool.false_ne_true)]
    obtain ⟨s', hloop, hn, hdata, hsize, hstack, hkeep⟩ :=
      @ih (idx + a) (s.take n sz) (by rw [htake, hfirst]) (by rw [htake]; exact hrest)
    rw [htake] at hn hdata hsize hkeep
    refine ⟨s', ?_, hn, hdata, hsize, ⟨?_, hstack⟩, fun k hk => ?_⟩
    · rw [splitLoop]
      exact (if_neg hsz).trans hloop
    · rw [length_readSizes, hkeep n le_rfl]
      exact Function.update_self ..
    · rw [hkeep k (by omega)]
      exact Function.update_of_ne (by omega) ..

/-- At a size that does not fit, what is left of the packet is the frame. -/
theorem splitLoop_fails {a idx : ℕ} {s : SplitLoop} (hsize : s.data + s.size = data.length)
    (hfits : ¬FitsIn (readSizes data a n idx) s.size) :
    ∃ s', splitLoop data a n idx s = (false, s') ∧ s'.priv.nFrames = 0 ∧
      s.data ≤ s'.outData ∧ s'.outData + s'.outSize = data.length := by
  induction n generalizing idx s with
  | zero => exact absurd ⟨nofun, Nat.zero_le _⟩ hfits
  | succ n ih =>
    rw [readSizes, fitsIn_cons] at hfits
    set sz := codedSize data a idx with hcoded
    rw [splitLoop, ← hcoded]
    split_ifs with hsz
    · refine ⟨_, rfl, rfl, le_rfl, ?_⟩
      have hle : ¬data.length < s.size := by omega
      rw [SplitLoop.fail, if_neg hle]
      exact hsize
    · have hdata : (s.take n sz).data = s.data + sz := by
        rw [SplitLoop.take]
        split_ifs <;> rfl
      have hleft : (s.take n sz).size = s.size - sz := by
        rw [SplitLoop.take]
        split_ifs <;> rfl
      obtain ⟨s', hloop, h0, hle, hend⟩ := @ih (idx + a) (s.take n sz)
        (by omega) (by rw [hleft]; exact fun hrest => hfits ⟨hsz, hrest⟩)
      exact ⟨s', hloop, h0, by omega, hend⟩

/-- What a call on a packet with an index does: its first size is bad, a later one is, or all
    are pushed but the first. -/
theorem vp9dSplitFrame_index {r : SplitResult} (h0 : ctx.priv.nFrames = 0) (hindex : HasIndex data)
    (hsizes : indexSizes data = sz :: l) (hr : vp9dSplitFrame ctx data = r) :
    ((sz = 0 ∨ data.length < sz) ∧ r.ctx.priv.nFrames = 0 ∧ r.outData = 0 ∧
      r.outSize = data.length ∧ r.consumed = data.length) ∨
    (¬(sz = 0 ∨ data.length < sz) ∧ ¬FitsIn (sz :: l) data.length ∧
      r.ctx.priv.nFrames = 0 ∧ 0 < r.outData ∧ r.outData + r.outSize = data.length ∧
      r.consumed = data.length) ∨
    (FitsIn (sz :: l) data.length ∧ r.ctx.priv.nFrames = l.length ∧
      Stacked l r.ctx.priv.size ∧ r.outData = 0 ∧ r.outSize = sz ∧ r.consumed = sz) := by
  have hne : data.length ≠ 0 := by
    have := hindex.2.1
    rw [indexSize] at this
    omega
  rw [vp9dSplitFrame, if_neg hne, h0] at hr
  dsimp only at hr
  rw [if_pos hindex, splitSuperframe] at hr
  rw [indexSizes] at hsizes
  generalize indexBytes data = a, data.length + 1 - indexSize data = idx at hr hsizes
  rw [indexFrames, Nat.add_comm] at hr hsizes
  set k := (marker data).toNat % 8
  rw [readSizes, List.cons.injEq] at hsizes
  obtain ⟨rfl, rfl⟩ := hsizes
  set sz := codedSize data a idx with hsz
  rw [length_readSizes]
  rw [splitLoop, ← hsz] at hr
  dsimp only at hr
  by_cases hbad : sz = 0 ∨ data.length < sz
  · rw [if_pos hbad] at hr
    subst hr
    exact .inl ⟨hbad, rfl, rfl, if_neg (lt_irrefl _), rfl⟩
  rw [if_neg hbad] at hr
  set s : SplitLoop := SplitLoop.take k sz { priv := ctx.priv, size := data.length }
  by_cases hfits : FitsIn (readSizes data a k (idx + a)) (data.length - sz)
  · obtain ⟨s', hloop, hn, hdata, hsize, hstack, -⟩ := splitLoop_pushes (rfl : s.first = false) hfits
    rw [hloop] at hr
    subst hr
    refine .inr (.inr ⟨fitsIn_cons.2 ⟨hbad, hfits⟩, (splitParseFrame_nFrames ..).trans hn, ?_,
      hdata, hsize, hsize⟩)
    dsimp only
    rw [if_pos rfl, splitParseFrame_size]
    exact hstack
  · have htotal : s.data + s.size = data.length := by
      show 0 + sz + (data.length - sz) = _
      omega
    obtain ⟨s', hloop, hn, hle, hend⟩ := splitLoop_fails htotal hfits
    have hpos : 0 + sz ≤ s'.outData := hle
    rw [hloop] at hr
    subst hr
    refine .inr (.inl ⟨hbad, fun h => hfits (fitsIn_cons.1 h).2, hn, ?_, hend, rfl⟩)
    show 0 < s'.outData
    omega

/-- A call on a packet without an index. -/
theorem vp9dSplitFrame_whole (h0 : ctx.priv.nFrames = 0) (hindex : ¬HasIndex data) :
    ∃ next, vp9dSplitFrame ctx data =
        { ctx := next, outData := 0, outSize := data.length, consumed := data.length } ∧
      next.priv.nFrames = 0 := by
  unfold vp9dSplitFrame
  split_ifs with hdata
  · rw [hdata]
    exact ⟨ctx, rfl, h0⟩
  · rw [h0]
    exact ⟨_, rfl, (splitParseFrame_nFrames ..).trans h0⟩

/-- The frames of an index with sizes that fit are returned, when there are two or more. -/
theorem splitCalls_fits {sz' : ℕ} (h0 : ctx.priv.nFrames = 0) (hindex : HasIndex data)
    (hsizes : indexSizes data = sz :: sz' :: l) (hfits : FitsIn (sz :: sz' :: l) data.length) :
    ∃ ctx', splitCalls (l.length + 2) ctx data pos =
        some (framesFrom pos (sz :: sz' :: l), ctx') ∧ ctx'.priv.nFrames = 0 := by
  obtain ⟨hsz, hrest⟩ := fitsIn_cons.1 hfits
  obtain ⟨hbad, -⟩ | ⟨-, hbad, -⟩ | ⟨-, hn, hstack, hdata, hsize, hcons⟩ :=
    vp9dSplitFrame_index h0 hindex hsizes rfl
  · exact absurd hbad hsz
  · exact absurd hfits hbad
  have hleft : sz < data.length := by
    have := (fitsIn_cons.1 hrest).1
    omega
  rw [← length_drop] at hrest
  obtain ⟨ctx', hcalls, hend⟩ := @splitCalls_stacked _ _ (pos + sz) _ _ hn hstack hrest
  refine ⟨ctx', ?_, hend⟩
  rw [splitCalls_next rfl (by rw [hcons]; exact hleft), hdata, hsize, hcons, hcalls]
  rfl

/-- The calls on a packet come to an end, with frames inside the packet and an empty stack. -/
theorem splitCalls_ends (h0 : ctx.priv.nFrames = 0) :
    ∃ n frames ctx', splitCalls n ctx data pos = some (frames, ctx') ∧
      (∀ f ∈ frames, f.1 + f.2 ≤ pos + data.length) ∧ ctx'.priv.nFrames = 0 := by
  induction hlength : data.length using Nat.strong_induction_on generalizing ctx data pos with
  | h length ih =>
    subst hlength
    have hlast : ∀ r : SplitResult, vp9dSplitFrame ctx data = r → r.consumed = data.length →
        r.outData + r.outSize = data.length → r.ctx.priv.nFrames = 0 →
        ∃ n frames ctx', splitCalls n ctx data pos = some (frames, ctx') ∧
          (∀ f ∈ frames, f.1 + f.2 ≤ pos + data.length) ∧ ctx'.priv.nFrames = 0 := by
      rintro r rfl hcons hrange hn
      refine ⟨1, _, _, splitCalls_last hcons.ge, fun f hf => ?_, hn⟩
      rw [mem_singleton.1 hf, ← hrange, Nat.add_assoc]
    by_cases hindex : HasIndex data
    swap
    · obtain ⟨next, hr, hn⟩ := vp9dSplitFrame_whole h0 hindex
      exact hlast _ hr rfl (Nat.zero_add _) hn
    cases hsizes : indexSizes data with
    | nil =>
      have := length_readSizes data (indexBytes data) (indexFrames data)
        (data.length + 1 - indexSize data)
      rw [← indexSizes, hsizes, indexFrames, length_nil] at this
      omega
    | cons sz l =>
      obtain ⟨-, hn, hdata, hsize, hcons⟩ | ⟨-, -, hn, -, hrange, hcons⟩ |
        ⟨hfits, hn, -, hdata, hsize, hcons⟩ := vp9dSplitFrame_index h0 hindex hsizes rfl
      · exact hlast _ rfl hcons (by rw [hdata, hsize, Nat.zero_add]) hn
      · exact hlast _ rfl hcons hrange hn
      · cases l with
        | cons sz' l =>
          obtain ⟨ctx', hcalls, hend⟩ := @splitCalls_fits _ _ pos _ _ _ h0 hindex hsizes hfits
          refine ⟨_, _, ctx', hcalls, fun f hf => ?_, hend⟩
          have := framesFrom_inside hf
          have := hfits.2
          omega
        | nil =>
          -- The index is left over, and split again.
          obtain ⟨hsz, -⟩ := fitsIn_cons.1 hfits
          obtain hlt | heq : sz < data.length ∨ sz = data.length := by omega
          · have hdrop : (data.drop sz).length = data.length - sz := length_drop ..
            obtain ⟨n, frames, ctx', hcalls, hin, hend⟩ :=
              @ih (data.length - sz) (by omega) _ _ (pos + sz) hn hdrop
            refine ⟨n + 1, (pos + 0, sz) :: frames, ctx', ?_, ?_, hend⟩
            · rw [splitCalls_next rfl (by rw [hcons]; exact hlt), hcons, hcalls, hdata, hsize]
              rfl
            · intro f hf
              obtain rfl | hf := mem_cons.1 hf
              · dsimp only
                omega
              · have := hin f hf
                omega
          · exact hlast _ rfl (hcons.trans heq) (by rw [hdata, hsize, Nat.zero_add, heq]) hn

/-! ## The frames -/

/-- What is promised of a packet, given what the calls return. -/
theorem split_iff_frames {frames : List (ℕ × ℕ)} (h0 : ctx.priv.nFrames = 0)
    (hcalls : splitCalls n ctx data 0 = some (frames, ctx')) :
    Split ctx data ↔ frames = framesOf data := by
  constructor
  · exact fun h => h.frames n frames ctx' hcalls
  · intro hframes
    obtain ⟨k, frames', ctx'', hends, hin, hleft⟩ := @splitCalls_ends ctx data 0 h0
    obtain ⟨rfl, rfl⟩ := Prod.mk.inj (splitCalls_unique hcalls hends)
    have hall : ∀ m r c, splitCalls m ctx data 0 = some (r, c) → r = frames ∧ c = ctx' :=
      fun m r c h => Prod.mk.inj (splitCalls_unique h hcalls)
    exact {
      ends := ⟨n, by rw [hcalls]; rfl⟩
      inside := fun m r c h f hf => by
        rw [(hall m r c h).1] at hf
        exact (hin f hf).trans (Nat.zero_add _).le
      frames := fun m r c h => (hall m r c h).1.trans hframes
      nothingLeft := fun m r c h => (hall m r c h).2 ▸ hleft }

theorem splitCalls_ne_nil {frames : List (ℕ × ℕ)}
    (h : splitCalls n ctx data pos = some (frames, ctx')) : frames ≠ [] := by
  cases n with
  | zero => cases h
  | succ n =>
    rw [splitCalls] at h
    dsimp only at h
    split_ifs at h
    · obtain ⟨rfl, -⟩ := Prod.mk.inj (some.inj h)
      exact cons_ne_nil _ _
    · obtain ⟨_, -, heq⟩ := map_eq_some_iff.1 h
      obtain ⟨rfl, -⟩ := Prod.mk.inj heq
      exact cons_ne_nil _ _

/-- An index in order has sizes that fit. -/
theorem WellFormed.fitsIn (h : WellFormed data) : FitsIn (indexSizes data) data.length :=
  ⟨h.1, (Nat.le_add_right ..).trans h.2⟩

/-- An index takes up three bytes or more. -/
theorem two_lt_indexSize (data : List UInt8) : 2 < indexSize data := by
  have hpos : 0 < indexFrames data * indexBytes data :=
    Nat.mul_pos (by rw [indexFrames]; omega) (by rw [indexBytes]; omega)
  rw [indexSize]
  omega

theorem framesOf_not_wellFormed (h : ¬WellFormed data) : framesOf data = [(0, data.length)] :=
  if_neg fun hc => h hc.2

/-- When no frame is left over, a packet is split as it should be exactly when it is
    splittable. -/
theorem split_iff (h0 : ctx.priv.nFrames = 0) : Split ctx data ↔ Splittable data := by
  by_cases hindex : HasIndex data
  swap
  · obtain ⟨next, hr, -⟩ := vp9dSplitFrame_whole h0 hindex
    have hcalls := @splitCalls_last ctx data 0 0 (by rw [hr])
    rw [hr] at hcalls
    rw [split_iff_frames h0 hcalls, framesOf, if_neg fun h => hindex h.1]
    exact iff_of_true rfl fun h => absurd h hindex
  have hlarge := two_lt_indexSize data
  have hlength : (indexSizes data).length = indexFrames data := length_readSizes ..
  have hfit := @WellFormed.fitsIn data
  rw [Splittable, forall_prop_of_true hindex, ← hlength]
  cases hsizes : indexSizes data with
  | nil =>
    rw [hsizes, indexFrames, length_nil] at hlength
    omega
  | cons sz l =>
    rw [hsizes] at hfit
    rw [head?_cons, headD_cons, some.injEq]
    obtain ⟨hbad, -, hdata, hsize, hcons⟩ | ⟨hgood, hbad, -, hdata, hrange, hcons⟩ |
      ⟨hfits, hn, -, hdata, hsize, hcons⟩ := vp9dSplitFrame_index h0 hindex hsizes rfl
    · -- The first size is bad: the packet is one frame.
      have hwell : ¬WellFormed data := fun hc => (fitsIn_cons.1 (hfit hc)).1 hbad
      have hcalls := @splitCalls_last ctx data 0 0 hcons.ge
      rw [split_iff_frames h0 hcalls, framesOf_not_wellFormed hwell, hdata, hsize]
      exact iff_of_true rfl (.inr (hbad.imp_right .inl))
    · -- Another one is: what is behind the good ones is a frame.
      have hwell : ¬WellFormed data := fun hc => hbad (hfit hc)
      have hcalls := @splitCalls_last ctx data 0 0 hcons.ge
      rw [split_iff_frames h0 hcalls, framesOf_not_wellFormed hwell]
      refine iff_of_false (fun heq => ?_) ?_
      · have hfirst := congrArg Prod.fst (List.cons.inj heq).1
        dsimp only at hfirst
        omega
      · rintro (⟨hc, -⟩ | h | h | h)
        · exact hwell hc
        · exact hgood (.inl h)
        · exact hgood (.inr h)
        · obtain ⟨rfl, rfl⟩ := List.cons.inj h
          refine hbad (fitsIn_cons.2 ⟨hgood, nofun, ?_⟩)
          exact Nat.zero_le _
    · obtain ⟨hgood, -⟩ := fitsIn_cons.1 hfits
      cases l with
      | cons sz' l =>
        obtain ⟨ctx', hcalls, -⟩ := @splitCalls_fits _ _ 0 _ _ _ h0 hindex hsizes hfits
        rw [split_iff_frames h0 hcalls, framesOf, hsizes]
        constructor
        · intro heq
          split_ifs at heq with hwell
          · exact .inl ⟨hwell.2, Nat.succ_lt_succ (Nat.succ_pos _)⟩
          · cases (List.cons.inj heq).2
        · rintro (⟨hwell, -⟩ | h | h | h)
          · rw [if_pos ⟨hindex, hwell⟩]
          · exact absurd (.inl h) hgood
          · exact absurd (.inr h) hgood
          · cases (List.cons.inj h).2
      | nil =>
        obtain hlt | heq : sz < data.length ∨ sz = data.length := by omega
        · -- What is left over is split again.
          obtain ⟨n, frames, ctx', hcalls, -⟩ := @splitCalls_ends _ (data.drop sz) (0 + sz) hn
          have hnext := @splitCalls_next ctx data 0 n _ rfl (by rw [hcons]; exact hlt)
          rw [hcons, hcalls, hdata, hsize] at hnext
          rw [split_iff_frames h0 hnext]
          have hmore := splitCalls_ne_nil hcalls
          refine iff_of_false (fun heq => hmore ?_) ?_
          · unfold framesOf at heq
            rw [hsizes] at heq
            split_ifs at heq <;> exact (List.cons.inj heq).2
          · rintro (⟨-, h⟩ | h | h | h)
            · exact absurd h (lt_irrefl 1)
            · exact hgood (.inl h)
            · exact hgood (.inr h)
            · exact hlt.ne (List.cons.inj h).1
        · have hwell : ¬WellFormed data := fun hc => by
            have hsum := hc.2
            rw [hsizes, sum_cons] at hsum
            omega
          have hcalls := @splitCalls_last ctx data 0 0 (hcons.trans heq).ge
          rw [split_iff_frames h0 hcalls, framesOf_not_wellFormed hwell, hdata, hsize, heq]
          exact iff_of_true rfl (.inr (.inr (.inr rfl)))

/-- Between packets no size is left over. -/
theorem reachable_nFrames (h : splitter.Reachable ctx) : ctx.priv.nFrames = 0 := by
  refine h.invariant (P := fun ctx => ctx.priv.nFrames = 0) ?_ ?_
  · rintro _ rfl
    rfl
  · rintro ctx (data | _) ctx' - h0 hstep
    · obtain ⟨n, frames, hcalls⟩ := hstep
      obtain ⟨m, frames', ctx'', hends, -, hleft⟩ := @splitCalls_ends ctx data 0 h0
      obtain ⟨-, rfl⟩ := Prod.mk.inj (splitCalls_unique hcalls hends)
      exact hleft
    · rw [hstep]
      rfl

/-- A packet is split as it should be exactly when it has no index, one in order with two
    frames or more, or one whose first size is bad or that of the packet. -/
theorem split_packet (h : splitter.Reachable ctx) (data : List UInt8) :
    Split ctx data ↔ Splittable data :=
  split_iff (reachable_nFrames h)

/-- Two frames of a byte each. -/
theorem split_packet_two : Split {} [0x80, 0x82, 0xc1, 1, 1, 0xc1] :=
  (split_packet (.init rfl) _).2 fun _ => .inl (by decide)

/-- The index of a superframe with one frame is returned as two other ones. -/
theorem index_returned : ¬∀ ctx data, splitter.Reachable ctx → Split ctx data := by
  intro h
  have hframes := (h {} [0x80, 0xc0, 1, 0xc0] (.init rfl)).frames 3
  have hcalls : (splitCalls 3 {} [0x80, 0xc0, 1, 0xc0] 0).map Prod.fst =
    some [(0, 1), (1, 1), (2, 2)] := by decide
  obtain ⟨⟨frames, ctx⟩, hsome, rfl⟩ := map_eq_some_iff.1 hcalls
  exact absurd (hframes _ ctx hsome) (by decide)

end Libmpp.Vp9d
