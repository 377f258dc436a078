import Libmpp.H265d.Dpb

/-!
# Output of the H.265 decoder

`outputFrame` puts the frame that comes first among those that wait for output in the
display queue, and with it those whose order counts follow on without a gap. Sequences are
output one after the other: `seqOutput` moves on to the next sequence when no frame of the
current one waits, until it is `seqDecode`.

The loops run on a bound: at most `maxDpbSize` frames wait, and the sequence counter has
256 values.
-/

namespace Libmpp.H265d

/-- The frame waits for output in the sequence that is output. -/
def HEVCContext.isWaiting (s : HEVCContext) (i : Fin maxDpbSize) : Bool :=
  (s.dpb i).flags.output && (s.dpb i).sequence = s.seqOutput

/-- `nb_output` -/
def HEVCContext.nbOutput (s : HEVCContext) : ℕ := (List.finRange maxDpbSize).countP s.isWaiting

/-- `min_poc` and `min_idx`, as the scan of the buffer leaves them. -/
def HEVCContext.minPoc (s : HEVCContext) : ℤ × Fin maxDpbSize :=
  (List.finRange maxDpbSize).foldl
    (fun m i => if s.isWaiting i ∧ (s.dpb i).poc < m.1 then ((s.dpb i).poc, i) else m)
    (intMax, 0)

/-- A frame goes to the display queue and no longer waits. -/
def displayFrame (s : HEVCContext) (i : Fin maxDpbSize) : HEVCContext :=
  { s.setFrame i { s.dpb i with flags := { (s.dpb i).flags with output := false } } with
    display := s.display ++ (s.dpb i).slotIndex.toList
    shown := s.shown ++ [(s.dpb, i)] }

/-- The frame that is output after one with the order count `poc`. -/
@[irreducible] def HEVCContext.nextReady (s : HEVCContext) (poc : ℤ) : Option (Fin maxDpbSize) :=
  Fin.find? fun i => s.isWaiting i && (s.dpb i).poc = poc + 1

/-- The loop on `find_next_ready`: after each frame all unused ones are released, and
    `frame` may be among them. -/
def outputReady : ℕ → HEVCContext → Fin maxDpbSize → HEVCContext
  | 0, s, _ => s
  | n + 1, s, frame =>
    match s.nextReady (s.dpb frame).poc with
    | none => s
    | some i => outputReady n (unrefAll (displayFrame s i) {}) i

/-- `mpp_hevc_out_dec_order` -/
def outDecOrder (s : HEVCContext) : HEVCContext :=
  match s.ref with
  | some i => if (s.dpb i).flags.output then displayFrame s i else s
  | none => s

/-- No frame may be output yet. -/
def HEVCContext.waitsForMore (s : HEVCContext) (flush : Bool) : Bool :=
  !flush && s.seqOutput = s.seqDecode && s.sps.any fun sps => s.nbOutput ≤ sps.numReorderPics

/-- Fast play outputs a frame at once. -/
def HEVCContext.playsFast (s : HEVCContext) (cfg : MppDecBaseCfg) : Bool :=
  cfg.enableFastPlay &&
    (s.nalUnitType.isIdr || (s.nalUnitType.isBla && !s.firstIFastPlay))

/-- The loop of `mpp_hevc_output_frame`, and whether it output a frame. -/
def outputLoop (cfg : MppDecBaseCfg) (flush : Bool) : ℕ → HEVCContext → HEVCContext × Bool
  | 0, s => (s, false)
  | n + 1, s =>
    if s.waitsForMore flush ∧ ¬ s.playsFast cfg then (s, false)
    else
      let s := if s.waitsForMore flush then { s with firstIFastPlay := true } else s
      if s.nbOutput ≠ 0 then
        (outputReady maxDpbSize (displayFrame s s.minPoc.2) s.minPoc.2, true)
      else if s.seqOutput ≠ s.seqDecode then
        outputLoop cfg flush n { s with seqOutput := (s.seqOutput + 1) % 256 }
      else (s, false)

/-- `mpp_hevc_output_frame` -/
def outputFrame (cfg : MppDecBaseCfg) (flush : Bool) (s : HEVCContext) : HEVCContext × Bool :=
  if cfg.fastOut then (outDecOrder s, false) else outputLoop cfg flush 256 s

/-- Output for as long as there are frames. -/
def flushLoop (cfg : MppDecBaseCfg) : ℕ → HEVCContext → HEVCContext
  | 0, s => s
  | n + 1, s =>
    let r := outputFrame cfg true s
    if r.2 then flushLoop cfg n r.1 else r.1

/-- `h265d_flush` -/
def h265dFlush (cfg : MppDecBaseCfg) (s : HEVCContext) : HEVCContext :=
  flushLoop cfg (maxDpbSize + 1) s

/-- A relation between contexts that every action on output keeps to. -/
structure OutputRel (R : HEVCContext → HEVCContext → Prop) : Prop where
  refl : ∀ s, R s s
  trans : ∀ {s t u}, R s t → R t u → R s u
  display : ∀ s i, R s (displayFrame s i)
  release : ∀ s, R s (unrefAll s {})
  advance : ∀ s seqOutput, R s { s with seqOutput }
  fast : ∀ s, R s { s with firstIFastPlay := true }

namespace OutputRel

variable {R : HEVCContext → HEVCContext → Prop} (h : OutputRel R)
include h

theorem outputReady (n : ℕ) (s : HEVCContext) (frame : Fin maxDpbSize) :
    R s (outputReady n s frame) := by
  induction n generalizing s frame with
  | zero => exact h.refl s
  | succ n ih =>
    rw [H265d.outputReady]
    split
    · exact h.refl s
    · exact h.trans (h.display s _) (h.trans (h.release _) (ih _ _))

theorem outDecOrder (s : HEVCContext) : R s (outDecOrder s) := by
  unfold H265d.outDecOrder
  split
  · split_ifs
    · exact h.display s _
    · exact h.refl s
  · exact h.refl s

theorem outputLoop (cfg : MppDecBaseCfg) (flush : Bool) (n : ℕ) (s : HEVCContext) :
    R s (outputLoop cfg flush n s).1 := by
  induction n generalizing s with
  | zero => exact h.refl s
  | succ n ih =>
    rw [H265d.outputLoop]
    split
    · exact h.refl s
    · have hfast : R s (if s.waitsForMore flush then { s with firstIFastPlay := true } else s) := by
        split_ifs
        · exact h.fast s
        · exact h.refl s
      refine h.trans hfast ?_
      generalize (if s.waitsForMore flush then { s with firstIFastPlay := true } else s) = s'
      dsimp only
      split_ifs
      · exact h.trans (h.display _ _) (h.outputReady _ _ _)
      · exact h.trans (h.advance _ _) (ih _)
      · exact h.refl _

theorem outputFrame (cfg : MppDecBaseCfg) (flush : Bool) (s : HEVCContext) :
    R s (outputFrame cfg flush s).1 := by
  unfold H265d.outputFrame
  split_ifs
  · exact h.outDecOrder s
  · exact h.outputLoop cfg flush _ s

theorem flushLoop (cfg : MppDecBaseCfg) (n : ℕ) (s : HEVCContext) : R s (flushLoop cfg n s) := by
  induction n generalizing s with
  | zero => exact h.refl s
  | succ n ih =>
    rw [H265d.flushLoop]
    split_ifs
    · exact h.trans (h.outputFrame cfg true s) (ih _)
    · exact h.outputFrame cfg true s

theorem h265dFlush (cfg : MppDecBaseCfg) (s : HEVCContext) : R s (h265dFlush cfg s) :=
  h.flushLoop cfg _ s

end OutputRel

end Libmpp.H265d
