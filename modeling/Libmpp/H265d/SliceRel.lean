import Libmpp.H265d.RefPicSet

/-!
# What the decoding of a slice keeps

A relation between contexts may allow for every action on output, and for every change of the
frames, of the marks of the current picture and of the recovery point (`PictureRel`). Then the
reference picture set keeps to it, and what is done about a reference that is missing. If it
allows for a new current frame as well (`SliceRel`), so does all that follows the header of a
slice.
-/

namespace Libmpp.H265d

/-- A relation between contexts that every change of the frames, of the marks of the picture and
    of the recovery point keeps to. -/
structure PictureRel (R : HEVCContext → HEVCContext → Prop) : Prop extends OutputRel R where
  change : ∀ s dpb rps slots madeUp missRefFlag isDecoded firstNalType recovery maxRa,
    R s { s with
      dpb, rps, slots, madeUp, missRefFlag, isDecoded, firstNalType, recovery, maxRa }

/-- One that a new current frame keeps to, too. -/
structure SliceRel (R : HEVCContext → HEVCContext → Prop) : Prop extends PictureRel R where
  noRef : ∀ s, R s { s with ref := none }
  newRef : ∀ {s t poc}, setNewRef s poc = some t → R s t

variable {R : HEVCContext → HEVCContext → Prop}

namespace PictureRel

variable (h : PictureRel R)
include h

theorem addCandidates (cs : List Candidate) (s : HEVCContext) : R s (addCandidates cs s).1 := by
  induction cs generalizing s with
  | nil => exact h.refl s
  | cons c cs ih =>
    rw [H265d.addCandidates]
    cases hadd : addCandidateRef s c with
    | none => exact h.refl s
    | some s₁ =>
      obtain ⟨i, hadds⟩ := adds_iff.1 hadd
      obtain ⟨f, slots, rfl, -⟩ := hadds.picks
      have hpick : R s (pick s c i f slots) := h.change ..
      exact h.trans hpick (ih _)

theorem frameRps (cfg : MppDecBaseCfg) (s : HEVCContext) : R s (frameRps cfg s).1 := by
  unfold H265d.frameRps
  split
  · exact h.change ..
  · next shortRps _ =>
    have hunmark : R s (unmarked s) := h.change ..
    have hadd := h.trans hunmark (h.addCandidates
      (shortCandidates s.poc shortRps ++ longCandidates s.longTermRps) (unmarked s))
    dsimp only
    split_ifs
    · refine h.trans (h.trans hadd (h.release _)) ?_
      unfold flushForCra
      split_ifs
      · exact h.h265dFlush cfg _
      · exact h.refl _
    · exact hadd

theorem setOutput (s : HEVCContext) (frame : Option (Fin maxDpbSize)) (output : Bool) :
    R s (setOutput s frame output) := by
  cases frame with
  | none => exact h.refl s
  | some i => exact h.change ..

theorem flushOthers (cfg : MppDecBaseCfg) (s : HEVCContext) : R s (flushOthers cfg s) :=
  h.trans (h.setOutput s _ false) (h.trans (h.h265dFlush cfg _) (h.setOutput _ _ true))

theorem handleMissRef (cfg : MppDecBaseCfg) (s : HEVCContext) : R s (handleMissRef cfg s) := by
  unfold H265d.handleMissRef
  split_ifs
  · exact h.refl s
  · exact h.flushOthers cfg s
  · exact h.change ..
  · cases s.ref with
    | none => exact h.refl s
    | some i => exact h.change ..

theorem seiRecovery (points : List (Option ℤ)) (s : HEVCContext) : R s (seiRecovery s points) := by
  induction points generalizing s with
  | nil => exact h.refl s
  | cons p points ih =>
    refine h.trans ?_ (ih _)
    cases p <;> exact h.change ..

theorem finishPacket (cfg : MppDecBaseCfg) (eos : Bool) (s : HEVCContext) :
    R s (finishPacket cfg eos s) := by
  have houtput : ∀ t, R t (outputFrame cfg false { t with isDecoded := false }).1 := fun t =>
    h.trans (h.change t _ _ _ _ _ false _ _ _) (h.outputFrame cfg false _)
  cases eos with
  | false => exact houtput s
  | true => exact h.trans (h.h265dFlush cfg s) (houtput _)

end PictureRel

namespace SliceRel

variable (h : SliceRel R)
include h

theorem hevcFrameStart (cfg : MppDecBaseCfg) (s : HEVCContext) :
    R s (hevcFrameStart cfg s).1 := by
  rw [H265d.hevcFrameStart]
  split_ifs
  · exact h.refl s
  · have hrps := h.trans (h.change s s.dpb s.rps s.slots s.madeUp false false
      (some s.nalUnitType) s.recovery s.maxRa) (h.frameRps cfg _)
    generalize H265d.frameRps cfg _ = x at hrps ⊢
    obtain ⟨t, ok⟩ := x
    cases ok with
    | false => exact h.trans hrps (h.noRef t)
    | true =>
      dsimp only
      rw [if_pos rfl]
      cases hnew : setNewRef t t.poc with
      | none => exact h.trans hrps (h.noRef t)
      | some u => exact h.trans hrps (h.trans (h.newRef hnew) (h.handleMissRef cfg u))

theorem decodeSlice (cfg : MppDecBaseCfg) (s : HEVCContext) : R s (decodeSlice cfg s).1 := by
  have hrecovery : R s (followRecovery s) := by
    rw [followRecovery]
    split_ifs <;> first | exact h.refl s | exact h.change ..
  have hmaxRa : ∀ t, R t (setMaxRa t) := fun t => by
    rw [setMaxRa]
    split_ifs <;> first | exact h.refl t | exact h.change ..
  have hrasl : ∀ t, R t (passRasl t) := fun t => by
    rw [passRasl]
    split_ifs <;> first | exact h.refl t | exact h.change ..
  have hdecoded : ∀ (t : HEVCContext) b, R t { t with isDecoded := b } := fun t b => h.change ..
  have ht := h.trans hrecovery (hmaxRa _)
  rw [H265d.decodeSlice]
  generalize setMaxRa (followRecovery s) = t at ht
  dsimp only
  split_ifs
  · exact h.trans ht (hdecoded t false)
  · have hstart := h.trans (h.trans ht (hrasl t)) (h.hevcFrameStart cfg _)
    generalize H265d.hevcFrameStart cfg (passRasl t) = x at hstart
    obtain ⟨u, ok⟩ := x
    cases ok with
    | false => exact hstart
    | true =>
      dsimp only
      split_ifs
      · exact h.trans hstart (hdecoded u true)
      · exact hstart
  · exact h.trans ht (hrasl t)
  · exact h.trans (h.trans ht (hrasl t)) (hdecoded _ true)

end SliceRel

end Libmpp.H265d
