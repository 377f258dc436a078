import Libmpp.Lib.Lives
import Libmpp.H264d.FrameDecode
import Libmpp.H264d.FrameSteps

/-!
# The life of a frame's memory

The memory of a decoded frame is taken, put into the display queue once and given back.
Whether it was put there is kept in the frame store (`isOutput`), in the mark
(`outFlag`) and in the flags of the slot, and the memory is given back when the two
counters of the mark and its flag agree that it may be. The invariant `Mem.Balanced` says
that they all tell the same, and that the operations on each slot are the whole lives of
the frames that had it and the part of a life of the frame that has it.

A frame that is counted as output without being written (`no_output_of_prior_pics_flag`)
breaks it: its mark waits for an output that does not come.
-/

namespace Libmpp.H264d

open Relation Base Lives List

/-- The memory of a frame: its mark, how often it is used, and whether the frame was
    output. -/
structure Use where
  mark : ℕ
  uses : ℕ
  isOutput : Bool
  deriving DecidableEq

def Frm.use (f : Frm) : Use := ⟨f.mark, f.uses, f.isOutput⟩

/-- What the decoder does with the slot of a frame, from first to last. -/
def life (slotIdx poc : ℤ) : List SlotOp :=
  [.getUnused slotIdx, .setFlag slotIdx .halOutput, .setFlag slotIdx .codecUse,
    .setFlag slotIdx .queueUse, .enqueueDisplay slotIdx poc, .clrFlag slotIdx .codecUse]

namespace Mem

section SetMark

variable {x : Mem} {m n : ℕ} {k : DpbMark}

@[simp]
theorem setMark_self : (x.setMark m k).dpbMark m = k := Function.update_self ..

theorem setMark_ne (h : n ≠ m) : (x.setMark m k).dpbMark n = x.dpbMark n :=
  Function.update_of_ne h ..

@[simp]
theorem log_dpbMark (ops : List SlotOp) : (x.log ops).dpbMark = x.dpbMark := rfl

@[simp]
theorem log_nil : x.log [] = x := by simp [Mem.log]

@[simp]
theorem setMark_setMark (k' : DpbMark) : (x.setMark m k).setMark m k' = x.setMark m k' := by
  simp [Mem.setMark]

@[simp]
theorem setMark_log (ops : List SlotOp) : (x.setMark m k).log ops = (x.log ops).setMark m k := rfl

end SetMark

/-- What was done with the slot of a frame so far. -/
def tenure (x : Mem) (u : Use) : Tenure ℤ ℤ SlotOp where
  slot := (x.dpbMark u.mark).slotIdx
  holder := (x.dpbMark u.mark).framePoc
  part :=
    (life (x.dpbMark u.mark).slotIdx (x.dpbMark u.mark).framePoc).take
      (if u.isOutput then 5 else 3)

/-- The mark of a frame counts its uses, and waits for the output of the frame. -/
structure Counts (k : DpbMark) (u : Use) : Prop where
  top : k.topUsed = u.uses
  bot : k.botUsed = u.uses
  out : k.outFlag = !u.isOutput
  slot : 0 ≤ k.slotIdx
  uses : u.uses = 1 ∨ u.uses = 2

/-- The memory of the frames `us`, after the frames `past` came in, each a slot and an
    order count. -/
structure Balanced (x : Mem) (past : List (ℤ × ℤ)) (us : List Use) : Prop where
  nodup : (us.map (·.mark)).Nodup
  counts : ∀ u ∈ us, Counts (x.dpbMark u.mark) u
  free : ∀ m, (∀ u ∈ us, u.mark ≠ m) → x.dpbMark m = resetDpbMark
  lives : Covers SlotOp.slotIdx life x.slotOps past (us.map x.tenure)

namespace Balanced

variable {x : Mem} {past : List (ℤ × ℤ)} {us us' : List Use} {u : Use}

theorem perm (h : x.Balanced past us) (hp : us.Perm us') : x.Balanced past us' where
  nodup := (hp.map _).nodup_iff.1 h.nodup
  counts u hu := h.counts u (hp.mem_iff.2 hu)
  free m hm := h.free m fun u hu => hm u (hp.mem_iff.1 hu)
  lives := h.lives.perm (hp.map _)

/-- The marks of the other frames are other marks. -/
theorem mark_ne (h : x.Balanced past (u :: us)) {v : Use} (hv : v ∈ us) : v.mark ≠ u.mark := by
  have hn := h.nodup
  rw [map_cons, nodup_cons] at hn
  exact fun he => hn.1 (he ▸ mem_map_of_mem hv)

/-- A change of a mark does not concern the frames with other marks. -/
theorem tenure_setMark {m : ℕ} {k : DpbMark} (hu : u.mark ≠ m) :
    (x.setMark m k).tenure u = x.tenure u := by
  simp only [tenure, setMark_ne hu]

theorem map_tenure_setMark {m : ℕ} {k : DpbMark} (hm : ∀ v ∈ us, v.mark ≠ m) :
    us.map (x.setMark m k).tenure = us.map x.tenure :=
  map_congr_left fun v hv => tenure_setMark (hm v hv)

/-- A change of the mark of a frame, and of what is known of its slot. -/
theorem setMark (h : x.Balanced past (u :: us)) {v : Use} {k : DpbMark} {ops : List SlotOp}
    (hv : v.mark = u.mark) (hk : Counts k v)
    (hl : Covers SlotOp.slotIdx life (x.slotOps ++ ops) past
      (((x.log ops).setMark u.mark k).tenure v :: us.map x.tenure)) :
    ((x.log ops).setMark u.mark k).Balanced past (v :: us) where
  nodup := by
    rw [map_cons, hv]
    exact h.nodup
  counts w hw := by
    rcases mem_cons.1 hw with rfl | hw
    · rw [hv, setMark_self]
      exact hk
    · rw [setMark_ne (h.mark_ne hw)]
      exact h.counts w (mem_cons_of_mem _ hw)
  free m hm := by
    have hne : m ≠ u.mark := hv ▸ (hm v mem_cons_self).symm
    rw [setMark_ne hne]
    refine h.free m fun w hw => ?_
    rcases mem_cons.1 hw with rfl | hw
    · exact hne.symm
    · exact hm w (mem_cons_of_mem _ hw)
  lives := by
    rw [map_cons, map_tenure_setMark fun w hw => h.mark_ne hw]
    exact hl

/-- The mark of a frame is given back with its slot. -/
theorem resetMark (h : x.Balanced past (u :: us)) {ops : List SlotOp}
    (hl : Covers SlotOp.slotIdx life (x.slotOps ++ ops) past (us.map x.tenure)) :
    ((x.log ops).setMark u.mark resetDpbMark).Balanced past us where
  nodup := by
    have hn := h.nodup
    rw [map_cons, nodup_cons] at hn
    exact hn.2
  counts w hw := by
    rw [setMark_ne (h.mark_ne hw)]
    exact h.counts w (mem_cons_of_mem _ hw)
  free m hm := by
    by_cases hne : m = u.mark
    · rw [hne, setMark_self]
    · rw [setMark_ne hne]
      refine h.free m fun w hw => ?_
      rcases mem_cons.1 hw with rfl | hw
      · exact fun he => hne he.symm
      · exact hm w hw
  lives := by
    rw [map_tenure_setMark fun w hw => h.mark_ne hw]
    exact hl

/-- A frame is put into the display queue. -/
theorem write (h : x.Balanced past (u :: us)) :
    (x.write u.mark).Balanced past ({ u with isOutput := true } :: us) := by
  have hc := h.counts u mem_cons_self
  rw [Mem.write]
  cases ho : u.isOutput with
  | true =>
    have hu : { u with isOutput := true } = u := by rw [← ho]
    rw [hc.out, ho, hu, if_neg (by simp)]
    exact h
  | false =>
    rw [hc.out, ho, if_pos (show (!false) = true from rfl)]
    refine h.setMark rfl ⟨hc.top, hc.bot, rfl, hc.slot, hc.uses⟩ ?_
    have hl := h.lives.extend (t := x.tenure u)
      (show ∀ o ∈ [.setFlag (x.dpbMark u.mark).slotIdx .queueUse,
        .enqueueDisplay (x.dpbMark u.mark).slotIdx (x.dpbMark u.mark).framePoc],
          SlotOp.slotIdx o = _ by simp [SlotOp.slotIdx, tenure])
    simpa [tenure, ho, life] using hl

/-- The uses of the mark of a frame that was output are dropped. -/
theorem release_eq {f : Frm} (hc : Counts (x.dpbMark f.mark) f.use) (ho : f.isOutput) :
    x.release f = (x.log [.clrFlag (x.dpbMark f.mark).slotIdx .codecUse]).setMark f.mark
      resetDpbMark := by
  obtain ⟨ht, hb, hout, hs, hu⟩ := hc
  simp only [Frm.use, ho, Bool.not_true] at ht hb hout hu
  rcases hu with hu | hu
  · simp [Mem.release, Mem.free, DpbMark.release, DpbMark.isFree, hu, ht, hb, hout, hs]
  · simp [Mem.release, Mem.free, DpbMark.release, DpbMark.isFree, hu, ht, hb, hout, hs]

/-- The memory of a frame that was output is given back. -/
theorem release {f : Frm} (h : x.Balanced past (f.use :: us)) (ho : f.isOutput) :
    (x.release f).Balanced past us := by
  rw [release_eq (h.counts _ mem_cons_self) ho]
  refine h.resetMark ?_
  have hl := h.lives.extend (t := x.tenure f.use)
    (show ∀ o ∈ [.clrFlag (x.dpbMark f.mark).slotIdx .codecUse], SlotOp.slotIdx o = _ by
      simp [SlotOp.slotIdx, tenure, Frm.use])
  refine hl.giveBack ?_
  simp [tenure, Frm.use, ho, life]

/-- A frame takes a free mark and a free slot. -/
theorem take (h : x.Balanced past us) {m : ℕ} {s poc : ℤ} (hm : ∀ u ∈ us, u.mark ≠ m)
    (hs : 0 ≤ s) (hfree : ∀ u ∈ us, (x.dpbMark u.mark).slotIdx ≠ s) :
    ((x.take m s poc).use m).Balanced (past ++ [(s, poc)]) (⟨m, 1, false⟩ :: us) := by
  have hk : x.dpbMark m = resetDpbMark := h.free m hm
  have heq : (x.take m s poc).use m =
      (x.log [.getUnused s, .setFlag s .halOutput, .setFlag s .codecUse]).setMark m
        { slotIdx := s, outFlag := true, framePoc := poc, topUsed := 1, botUsed := 1 } := by
    simp [Mem.take, Mem.use, hk, hs, resetDpbMark, Mem.log, Mem.setMark]
  rw [heq]
  refine ⟨?_, fun u hu => ?_, fun n hn => ?_, ?_⟩
  · rw [map_cons, nodup_cons]
    refine ⟨fun hin => ?_, h.nodup⟩
    obtain ⟨u, hu, he⟩ := mem_map.1 hin
    exact hm u hu he
  · rcases mem_cons.1 hu with rfl | hu
    · rw [setMark_self]
      exact ⟨rfl, rfl, rfl, hs, .inl rfl⟩
    · rw [setMark_ne (hm u hu)]
      exact h.counts u hu
  · rw [setMark_ne (hn _ mem_cons_self).symm]
    exact h.free n fun u hu => hn u (mem_cons_of_mem _ hu)
  · rw [map_cons, map_tenure_setMark hm]
    have hl := h.lives.take (s := s) (by simpa [tenure] using hfree) poc
      (show ∀ o ∈ [.getUnused s, .setFlag s .halOutput, .setFlag s .codecUse],
        SlotOp.slotIdx o = s by simp [SlotOp.slotIdx])
    change Covers _ _ (x.slotOps ++ _) _ (_ :: us.map x.tenure)
    simpa [tenure, life] using hl

/-- A frame is split into its fields, which share its memory. -/
theorem split {f : Frm} {o : Bool} (h : x.Balanced past (⟨f.mark, 1, o⟩ :: us))
    (hu : f.uses = 1 ∨ f.uses = 2) : (x.split f).Balanced past (⟨f.mark, f.uses, o⟩ :: us) := by
  obtain ⟨ht, hb, hout, hs, -⟩ := h.counts _ mem_cons_self
  dsimp only at ht hb hout hs
  rcases hu with hu | hu
  · rw [Mem.split, hu, if_neg (by decide)]
    exact h
  · rw [Mem.split, hu, if_pos rfl]
    have hl : Covers SlotOp.slotIdx life (x.slotOps ++ []) past
        (((x.log []).setMark f.mark { x.dpbMark f.mark with
          topUsed := (x.dpbMark f.mark).topUsed + 1
          botUsed := (x.dpbMark f.mark).botUsed + 1 }).tenure ⟨f.mark, 2, o⟩ ::
            us.map x.tenure) := by
      simpa [tenure] using h.lives
    have hset := h.setMark (v := ⟨f.mark, 2, o⟩) rfl ?_ hl
    · rwa [log_nil] at hset
    · exact ⟨by rw [ht], by rw [hb], hout, hs, .inr rfl⟩

/-- A frame that could not be stored is output and its memory given back. -/
theorem giveUp {m : ℕ} (h : x.Balanced past (⟨m, 1, false⟩ :: us)) :
    (x.giveUp m).Balanced past us := by
  obtain ⟨-, -, hout, hs, -⟩ := h.counts _ mem_cons_self
  rw [Mem.giveUp, if_pos ⟨hout, hs⟩]
  refine h.resetMark ?_
  have hl := h.lives.extend (t := x.tenure ⟨m, 1, false⟩)
    (show ∀ o ∈ [.setFlag (x.dpbMark m).slotIdx .queueUse,
      .enqueueDisplay (x.dpbMark m).slotIdx (x.dpbMark m).framePoc,
      .clrFlag (x.dpbMark m).slotIdx .codecUse], SlotOp.slotIdx o = _ by
      simp [SlotOp.slotIdx, tenure])
  refine hl.giveBack ?_
  simp [tenure, life]

end Balanced

end Mem

/-! ## The buffer -/

namespace FrmBuf

variable {b b' : FrmBuf} {p : StorePic} {cfg : DecCfg} {past : List (ℤ × ℤ)} {cur : List Use}

/-- The frame at a position before the others. -/
theorem perm_uses {l : List Frm} {k : ℕ} {f : Frm} (hk : l[k]? = some f) (cur : List Use) :
    (l.map Frm.use ++ cur).Perm (f.use :: ((l.eraseIdx k).map Frm.use ++ cur)) := by
  obtain ⟨hlt, rfl⟩ := List.getElem?_eq_some_iff.1 hk
  exact ((getElem_cons_eraseIdx_perm hlt).symm.map Frm.use).append_right cur

theorem map_use_remarked {l l' : List Frm} (h : List.Forall₂ Frm.Remarked l l') :
    l'.map Frm.use = l.map Frm.use := by
  induction h with
  | nil => rfl
  | cons hff _ ih =>
    obtain ⟨r, rfl, -⟩ := hff
    rw [map_cons, map_cons, ih]
    rfl

theorem map_poc_remarked {l l' : List Frm} (h : List.Forall₂ Frm.Remarked l l') :
    l'.map (·.poc) = l.map (·.poc) := by
  induction h with
  | nil => rfl
  | cons hff _ ih =>
    obtain ⟨r, rfl, -⟩ := hff
    rw [map_cons, map_cons, ih]
    rfl

/-- The memory of the frames of the buffer and of those in hand is balanced. -/
abbrev Balanced (b : FrmBuf) (past : List (ℤ × ℤ)) (cur : List Use) : Prop :=
  b.mem.Balanced past (b.frames.map Frm.use ++ cur)

theorem Elem.balanced (h : Elem b b') (hb : b.Balanced past cur) : b'.Balanced past cur := by
  cases h with
  | write k =>
    cases hk : b.frames[k]? with
    | none =>
      have heq : b.write k = b := by rw [FrmBuf.write, hk]
      rwa [heq]
    | some f =>
      have hw := (hb.perm (perm_uses hk cur)).write
      have hget : (b.write k).frames[k]? = some { f with isOutput := true } := by
        rw [write_frames, getElem?_modify_eq, hk]
        rfl
      have hp := perm_uses hget cur
      rw [write_frames, eraseIdx_modify, ← write_frames] at hp
      have hm : (b.write k).mem = b.mem.write f.mark := by rw [FrmBuf.write, hk]
      rw [Balanced, hm]
      exact hw.perm hp.symm
  | @remove k f hk hu =>
    have ho : f.isOutput := (Bool.and_eq_true_iff.1 hu).1
    have hr := (hb.perm (perm_uses hk cur)).release ho
    have hm : (b.remove k).mem = b.mem.release f := by rw [FrmBuf.remove, hk]
    rwa [Balanced, remove_frames, hm]
  | mark hf hm =>
    rwa [Balanced, hm, map_use_remarked hf]

/-- Every operation keeps the memory balanced. -/
theorem Steps.balanced (h : Steps b b') (hb : b.Balanced past cur) : b'.Balanced past cur := by
  induction h with
  | refl => exact hb
  | tail _ he ih => exact he.balanced ih

/-- The frames that are still to be output have an order count that the search finds. -/
def Findable (b : FrmBuf) : Prop := ∀ f ∈ b.frames, f.poc < INT_MAX

theorem Elem.findable (h : Elem b b') (hb : b.Findable) : b'.Findable := by
  cases h with
  | write k =>
    intro f hf
    rw [write_frames] at hf
    obtain ⟨j, hj, rfl⟩ := getElem_of_mem hf
    have hlt : j < b.frames.length := by rwa [length_modify] at hj
    have hj' := hb b.frames[j] (getElem_mem hlt)
    rw [getElem_modify]
    split <;> exact hj'
  | remove _ _ =>
    intro f hf
    rw [remove_frames] at hf
    exact hb f (mem_of_mem_eraseIdx hf)
  | mark hf _ =>
    intro f hin
    have hp : f.poc ∈ b.frames.map (·.poc) :=
      map_poc_remarked hf ▸ mem_map_of_mem hin
    obtain ⟨g, hg, he⟩ := mem_map.1 hp
    exact he ▸ hb g hg

theorem Steps.findable (h : Steps b b') (hb : b.Findable) : b'.Findable := by
  induction h with
  | refl => exact hb
  | tail _ he ih => exact he.findable ih

/-- The loop of the flush gets to its end. -/
theorem flushLoop_isSome {n : ℕ} (hlen : b.frames.length ≤ n)
    (hb : ∀ f ∈ b.frames, f.ref = none ∧ f.isOutput = false ∧ f.poc < INT_MAX) :
    (flushLoop n b).isSome := by
  induction n generalizing b with
  | zero =>
    rw [flushLoop, if_pos (length_eq_zero_iff.1 (Nat.le_zero.1 hlen))]
    rfl
  | succ n ih =>
    rw [flushLoop]
    split <;> rename_i hne
    · rfl
    · rcases smallest_spec b.frames with ⟨-, hall⟩ | ⟨m, k, hs, hi⟩
      · -- The first frame is one to be output.
        exfalso
        obtain ⟨f, hf⟩ := exists_mem_of_ne_nil _ hne
        obtain ⟨-, ho, hlt⟩ := hb f hf
        exact absurd hlt (not_lt.2 (hall f hf ho))
      · obtain ⟨f, hf, -⟩ := hi.get
        have hfr : b.outputOne.frames = b.frames.eraseIdx k := by
          rw [outputOne, hs]
          dsimp only
          rw [hf, Option.bind_some, (hb f (mem_of_getElem? hf)).1, if_neg (by simp),
            remove_frames, write_frames, eraseIdx_modify]
        refine ih ?_ fun g hg => hb g (mem_of_mem_eraseIdx (hfr ▸ hg))
        rw [hfr, List.length_eraseIdx_of_lt (List.getElem?_eq_some_iff.1 hf).1]
        omega

/-- A flush gets to its end. -/
theorem flush_isSome (hb : b.Findable) : b.flush.isSome := by
  rw [flush, Option.isSome_map]
  refine flushLoop_isSome le_rfl fun f hf => ?_
  have hu := purge_clean _ f hf
  obtain ⟨g, hg, rfl⟩ := mem_map.1 ((purge_sublist _).subset hf)
  refine ⟨rfl, ?_, hb g hg⟩
  simpa [Frm.isUnused, Frm.setRef] using hu

end FrmBuf

end Libmpp.H264d
