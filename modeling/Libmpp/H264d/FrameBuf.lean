import Libmpp.H264d.Store

/-!
# A buffer of frames

What the decoded picture buffer is for a stream of frames, without fields: a list of
frames in the order they were stored, each with its order count, whether it has been
output and how it is marked as a reference. Its operations are those of the decoder's
buffer (`Libmpp.H264d.Store`), which holds the same frames behind addresses and keeps
their marks in several places.

The memory of the frames (`Mem`) is that of the decoder: the marks and the operations
on the slots.
-/

namespace Libmpp.H264d

open Base List Option

/-- How a frame is marked: as a short-term reference with its picture number or as a
    long-term reference with its index. -/
inductive RefMark
  | short (picNum : ℤ)
  | long (idx : ℤ)
  deriving DecidableEq, Repr

def RefMark.isLong : RefMark → Bool
  | .short _ => false
  | .long _ => true

/-- A frame of the buffer. -/
structure Frm where
  poc : ℤ
  frameNum : ℤ
  ref : Option RefMark
  isOutput : Bool
  /-- The mark of its memory, and how often it is used: twice for a frame that was split
      into its fields. -/
  mark : ℕ
  uses : ℕ
  deriving DecidableEq, Repr

/-! ## References -/

namespace Frm

def setRef (r : Option RefMark) (f : Frm) : Frm := { f with ref := r }

/-- Mark the first frame whose mark meets `q`. -/
def setFirst (q : RefMark → Bool) (r : Option RefMark) (l : List Frm) : List Frm :=
  match l.findIdx? fun f => f.ref.any q with
  | some k => l.modify k (setRef r)
  | none => l

/-- Release the long-term references whose index meets `q`. -/
def dropLong (q : ℤ → Bool) (f : Frm) : Frm :=
  match f.ref with
  | some (.long i) => if q i then f.setRef none else f
  | _ => f

/-- Release a short-term reference. -/
def dropShort (f : Frm) : Frm :=
  match f.ref with
  | some (.short _) => f.setRef none
  | _ => f

/-- An operation on the references of a frame with the given number (8.2.5.4): the first
    reference with a picture number is released or becomes long-term, and all long-term
    references with an index, or above one, are released. -/
def manage (op : Drpm) (currFrameNum : ℤ) (l : List Frm) : List Frm :=
  let isX : RefMark → Bool := (· = .short (currFrameNum - (op.differenceOfPicNumsMinus1 + 1)))
  match op.memoryManagementControlOperation with
  | 1 => setFirst isX none l
  | 2 => l.map (dropLong (· = op.longTermPicNum))
  | 3 => setFirst isX (some (.long op.longTermFrameIdx))
      (l.map (dropLong (· = op.longTermFrameIdx)))
  | 4 => l.map (dropLong (op.maxLongTermFrameIdxPlus1 - 1 < ·))
  | 5 => (l.map dropShort).map (dropLong (-1 < ·))
  | 6 => l.map (dropLong (· = op.longTermFrameIdx))
  | _ => l

/-- The sliding window: the first short-term reference is released. -/
def slide (l : List Frm) : List Frm := setFirst (fun r => !r.isLong) none l

/-- The number of a short-term reference for a frame with the given number. -/
def number (maxFrameNum currFrameNum : ℤ) (f : Frm) : Frm :=
  f.setRef (f.ref.map fun
    | .short _ => .short (frameNumWrap f.frameNum maxFrameNum currFrameNum)
    | .long i => .long i)

/-- The number of references. -/
def numRefs (l : List Frm) : ℕ := l.countP (·.ref.isSome)

end Frm

/-- The frame is of no use any more. -/
def Frm.isUnused (f : Frm) : Bool := f.isOutput && f.ref.isNone

/-- The marks of the memory, and what was done to the slots. -/
structure Mem where
  dpbMark : ℕ → DpbMark
  slotOps : List SlotOp

namespace Mem

def log (x : Mem) (l : List SlotOp) : Mem := { x with slotOps := x.slotOps ++ l }

def setMark (x : Mem) (m : ℕ) (k : DpbMark) : Mem :=
  { x with dpbMark := Function.update x.dpbMark m k }

/-- Write a frame to the display queue, unless it was written. -/
def write (x : Mem) (m : ℕ) : Mem :=
  let k := x.dpbMark m
  if k.outFlag then
    (x.log [.setFlag k.slotIdx .queueUse, .enqueueDisplay k.slotIdx k.framePoc]).setMark m
      { k with outFlag := false }
  else x

/-- Drop a use of a mark. -/
def free (x : Mem) (m : ℕ) (picStructure : PictureStructure) : Mem :=
  let k := (x.dpbMark m).release picStructure
  if k.isFree then (x.log [.clrFlag k.slotIdx .codecUse]).setMark m resetDpbMark
  else x.setMark m k

/-- Drop all uses of a mark by a frame. -/
def release (x : Mem) (f : Frm) : Mem :=
  let x := x.free f.mark .frame
  if f.uses = 2 then (x.free f.mark .topField).free f.mark .bottomField else x

end Mem

/-- A buffer of frames. -/
structure FrmBuf where
  frames : List Frm
  mem : Mem
  pocInterval : ℤ
  lastOutputPoc : ℤ
  dpbFastOut : Bool
  dpbFirstFastPlayed : Bool
  iSliceNo : ℕ

namespace FrmBuf

/-- Change the frames. -/
def modify (b : FrmBuf) (g : List Frm → List Frm) : FrmBuf := { b with frames := g b.frames }

/-- Output the frame at a position. -/
def write (b : FrmBuf) (k : ℕ) : FrmBuf :=
  match b.frames[k]? with
  | some f =>
    { b with
      frames := b.frames.set k { f with isOutput := true }
      mem := b.mem.write f.mark
      lastOutputPoc := f.poc }
  | none => b

/-- Remove the frame at a position. -/
def remove (b : FrmBuf) (k : ℕ) : FrmBuf :=
  match b.frames[k]? with
  | some f => { b with frames := b.frames.eraseIdx k, mem := b.mem.release f }
  | none => b

/-- Remove the first unused frame. -/
def removeUnused (b : FrmBuf) : Option FrmBuf :=
  (b.frames.findIdx? Frm.isUnused).map b.remove

/-- Remove unused frames, at most `n` of them. -/
def purgeLoop : ℕ → FrmBuf → FrmBuf
  | 0, b => b
  | n + 1, b =>
    match b.removeUnused with
    | some b' => purgeLoop n b'
    | none => b

def purge (b : FrmBuf) : FrmBuf := purgeLoop b.frames.length b

/-- The first of the waiting frames with the smallest order count, by count and position. -/
def smallest (l : List Frm) : Option (ℤ × ℕ) :=
  l.zipIdx.foldl (fun best x =>
    if x.1.poc < (best.map Prod.fst).getD INT_MAX ∧ !x.1.isOutput then some (x.1.poc, x.2)
    else best) none

/-- Output the next frame, and remove it when no other one refers to it. -/
def outputOne (b : FrmBuf) : FrmBuf :=
  match smallest b.frames with
  | some (_, k) =>
    if (b.frames[k]?.bind (·.ref)).isSome then b.write k else (b.write k).remove k
  | none => b

/-- The interval between the order counts of frames, once an odd one is seen. -/
def updateInterval (inc : ℤ) (b : FrmBuf) : FrmBuf :=
  { b with pocInterval := if inc.natAbs % 2 = 1 then 1 else b.pocInterval }

/-- Frames whose turn it is by the interval of the order counts. -/
def outputLoop : ℕ → FrmBuf → FrmBuf
  | 0, b => b
  | n + 1, b =>
    match smallest b.frames with
    | some (minPoc, k) =>
      if INT_MIN < b.lastOutputPoc then
        let inc := minPoc - b.lastOutputPoc
        let b := b.updateInterval inc
        if inc ≤ b.pocInterval then outputLoop n (b.write k) else b
      else b
    | none => b

def outputNormal (b : FrmBuf) : FrmBuf := (outputLoop b.frames.length b).purge

/-- The output after a frame is stored, as the user asks for it. -/
def scan (cfg : DecCfg) (b : FrmBuf) : FrmBuf :=
  let k := b.frames.length - 1
  let isIFrm : Bool := b.iSliceNo < 2 && b.lastOutputPoc = INT_MIN
  let isFast := b.dpbFastOut && isIFrm
  if cfg.fastOut then b.write k
  else
    match cfg.enableFastPlay with
    | .disable => b.outputNormal
    | .enable => if isFast then b.write k else b.outputNormal
    | .once =>
      if isFast && !b.dpbFirstFastPlayed then { b.write k with dpbFirstFastPlayed := true }
      else { b with dpbFastOut := if isFast then false else b.dpbFastOut }.outputNormal
    | .unsupported => b

def flushLoop : ℕ → FrmBuf → Option FrmBuf
  | 0, b => if b.frames = [] then some b else none
  | n + 1, b => if b.frames = [] then some b else flushLoop n b.outputOne

/-- Output and remove all frames. -/
def flush (b : FrmBuf) : Option FrmBuf :=
  let b := (b.modify (List.map (Frm.setRef none))).purge
  (flushLoop b.frames.length b).map fun b => { b with lastOutputPoc := INT_MIN }

/-- Start anew for an IDR frame, which may ask for the frames before it not to be output. -/
def idr (b : FrmBuf) (noOutputOfPriorPics : Bool) : Option FrmBuf :=
  (flush (if noOutputOfPriorPics then
      b.modify (List.map fun f => { f with isOutput := true })
    else b)).map fun b => { b with lastOutputPoc := INT_MIN, iSliceNo := 1 }

def isFull (cfg : DecCfg) (b : FrmBuf) : Bool :=
  cfg.size ≤ b.frames.length || (cfg.maxBufSize ≠ 0 && cfg.maxBufSize ≤ b.frames.length)

/-- Give up the first frame. -/
def removeFirst (b : FrmBuf) : FrmBuf :=
  let b := b.modify fun l => l.modify 0 (Frm.setRef none)
  (if (b.frames[0]?.map (·.isOutput)).getD true then b else b.write 0).remove 0

/-- The frame comes before those that wait for output. -/
def comesFirst (b : FrmBuf) (p : StorePic) : Bool :=
  ((smallest b.frames).map fun x => decide (p.poc < x.1)).getD true

/-- Make room for a frame, unless it is no reference and the next one to be output. -/
def makeRoom (cfg : DecCfg) : ℕ → FrmBuf → StorePic → Option (FrmBuf × StorePic × Room)
  | 0, b, p => if b.isFull cfg then none else some (b, p, .store)
  | n + 1, b, p =>
    if b.isFull cfg then
      let b := b.removeUnused.getD b
      let first := b.comesFirst p
      if first && !p.usedForReference then some (b, p, .output)
      else
        makeRoom cfg n (if first then b.removeFirst else b.outputOne)
          (if first then { p with isLongTerm := false } else p)
    else some (b, p, .store)

end FrmBuf

/-- The picture slides the window. -/
def StorePic.slides (p : StorePic) : Bool :=
  !p.idrFlag && p.usedForReference && !p.adaptiveRefPicBufferingFlag

/-- The frame of a picture that is stored. -/
def Frm.ofPic (p : StorePic) : Frm where
  poc := p.poc
  frameNum := p.picNum
  ref :=
    if p.usedForReference then
      some (if p.isLongTerm then .long p.longTermFrameIdx else .short p.picNum)
    else none
  isOutput := p.isOutput
  mark := p.memMark.getD 0
  uses := if p.frameMbsOnlyFlag then 1 else 2

namespace Mem

/-- The further uses of a mark by the fields of a frame. -/
def split (x : Mem) (f : Frm) : Mem :=
  if f.uses = 2 then
    x.setMark f.mark { x.dpbMark f.mark with
      topUsed := (x.dpbMark f.mark).topUsed + 1
      botUsed := (x.dpbMark f.mark).botUsed + 1 }
  else x

/-- The slot of a frame comes into use by the decoder. -/
def use (x : Mem) (m : ℕ) : Mem :=
  if 0 ≤ (x.dpbMark m).slotIdx then x.log [.setFlag (x.dpbMark m).slotIdx .codecUse] else x

/-- Give up a frame that could not be stored. -/
def giveUp (x : Mem) (m : ℕ) : Mem :=
  let k := x.dpbMark m
  if k.outFlag ∧ 0 ≤ k.slotIdx then
    (x.log [.setFlag k.slotIdx .queueUse, .enqueueDisplay k.slotIdx k.framePoc,
      .clrFlag k.slotIdx .codecUse]).setMark m resetDpbMark
  else x

/-- The first mark that is free. -/
def freeMark (x : Mem) : Option ℕ :=
  (List.range maxMarkSize).find? fun m =>
    !(x.dpbMark m).outFlag && (x.dpbMark m).topUsed = 0 && (x.dpbMark m).botUsed = 0

/-- Take a mark and a slot for a frame. -/
def take (x : Mem) (m : ℕ) (slotIdx poc : ℤ) : Mem :=
  (x.log [.getUnused slotIdx, .setFlag slotIdx .halOutput]).setMark m
    { x.dpbMark m with
      slotIdx := slotIdx
      outFlag := true
      framePoc := poc
      topUsed := (x.dpbMark m).topUsed + 1
      botUsed := (x.dpbMark m).botUsed + 1 }

end Mem

namespace FrmBuf

/-- An operation on the references of a frame, with whether it is the last one. -/
def control (b : FrmBuf) (p : StorePic) (op : Drpm) (isLast : Bool) :
    FrmBuf × StorePic × MppRet :=
  match op.memoryManagementControlOperation with
  | 0 => (b, p, if isLast then mppOk else mppErrValue)
  | 1 | 2 | 3 | 4 | 5 => (b.modify (Frm.manage op p.frameNum), p, mppOk)
  | 6 =>
    (b.modify (Frm.manage op p.frameNum),
      { p with isLongTerm := true, longTermFrameIdx := op.longTermFrameIdx }, mppOk)
  | _ => (b, p, mppNok)

def controls (b : FrmBuf) (p : StorePic) : List Drpm → FrmBuf × StorePic × MppRet
  | [] => (b, p, mppOk)
  | op :: ops =>
    let w := b.control p op ops.isEmpty
    if w.2.2 < 0 then w else controls w.1 w.2.1 ops

/-- The marking of the frames by a picture. -/
def mark (b : FrmBuf) (p : StorePic) : Option (FrmBuf × StorePic × MppRet) :=
  if p.idrFlag then
    (b.idr p.noOutputOfPriorPicsFlag).map fun b =>
      (b, if p.longTermReferenceFlag then { p with isLongTerm := true, longTermFrameIdx := 0 }
        else { p with isLongTerm := false }, mppOk)
  else if p.isAdaptive then
    let w := b.controls p p.decRefPicMarkingBuffer
    if w.2.2 < 0 then some w
    else if hasMmco5 p.decRefPicMarkingBuffer then
      w.1.flush.map fun b => (b, resetPicNums w.2.1, mppOk)
    else some (w.1, w.2.1, mppOk)
  else some (b, p, mppOk)

/-- Store a frame behind the others. -/
def add (cfg : DecCfg) (b : FrmBuf) (p : StorePic) : FrmBuf :=
  { b with
    frames := b.frames ++ [Frm.ofPic p]
    mem := b.mem.split (Frm.ofPic p) }.scan cfg

/-- Output a frame that is not stored. -/
def output (b : FrmBuf) (p : StorePic) : FrmBuf :=
  let m := p.memMark.getD 0
  { b with
    mem := (b.mem.write m).free m .frame
    lastOutputPoc := p.poc }

/-- Store a frame, or output it, after its marking. -/
def storeMarked (cfg : DecCfg) (b : FrmBuf) (p : StorePic) : Option FrmBuf :=
  let b :=
    (if p.slides ∧ Frm.numRefs b.frames = max 1 cfg.numRefFrames then b.modify Frm.slide
      else b).purge
  (makeRoom cfg (2 * b.frames.length) b
    (if p.slides then { p with isLongTerm := false } else p)).map fun
    | (b, p, .output) => b.output p
    | (b, p, .store) => b.add cfg p

/-- Store a frame. -/
def store (cfg : DecCfg) (b : FrmBuf) (p : StorePic) : Option (FrmBuf × MppRet) :=
  let m := p.memMark.getD 0
  (mark { b with mem := b.mem.use m } p).bind fun w =>
    if w.2.2 < 0 then some ({ w.1 with mem := w.1.mem.giveUp m }, w.2.2)
    else (storeMarked cfg w.1 w.2.1).map fun b => (b, mppOk)

/-- Number the short-term references for the slices of a picture. -/
def number (cfg : DecCfg) (b : FrmBuf) (p : StorePic) : FrmBuf :=
  if p.idrFlag then b else b.modify (List.map (Frm.number cfg.maxFrameNum p.frameNum))

/-- What the decoder does for a frame. -/
def decode (cfg : DecCfg) (b : FrmBuf) (p : StorePic) (slotIdx : ℤ) :
    Option (FrmBuf × MppRet) :=
  b.mem.freeMark.bind fun m =>
    let p := { p with memMark := some m, memMallocType := .malloc, combineFlag := false }
    store cfg ({ b with mem := b.mem.take m slotIdx p.poc }.number cfg p) p

end FrmBuf

/-! ## The next frame to be output -/

namespace FrmBuf

theorem write_frames (b : FrmBuf) (k : ℕ) :
    (b.write k).frames = b.frames.modify k fun f => { f with isOutput := true } := by
  rw [write, modify_eq_set_getElem?]
  cases b.frames[k]? <;> rfl

theorem smallest_concat (l : List Frm) (f : Frm) : smallest (l ++ [f]) =
    if f.poc < ((smallest l).map Prod.fst).getD INT_MAX ∧ !f.isOutput then
      some (f.poc, l.length) else smallest l := by
  simp [smallest, zipIdx_append]

/-- What the search for the next frame finds. -/
structure IsSmallest (l : List Frm) (n : ℤ) (k : ℕ) : Prop where
  lt : n < INT_MAX
  get : ∃ f, l[k]? = some f ∧ f.poc = n ∧ f.isOutput = false
  le : ∀ f ∈ l, f.isOutput = false → n ≤ f.poc

theorem smallest_spec (l : List Frm) :
    (smallest l = none ∧ ∀ f ∈ l, f.isOutput = false → INT_MAX ≤ f.poc) ∨
      ∃ n k, smallest l = some (n, k) ∧ IsSmallest l n k := by
  induction l using List.reverseRecOn with
  | nil => exact .inl ⟨rfl, by simp⟩
  | append_singleton l f ih =>
    have hmem {g : Frm} : g ∈ l ++ [f] ↔ g ∈ l ∨ g = f := by simp
    rw [smallest_concat]
    rcases ih with ⟨hs, hall⟩ | ⟨n, k, hs, hlt, ⟨g, hg, hgn, hgo⟩, hle⟩
    · simp only [hs, map_none, getD_none]
      split <;> rename_i hc
      · refine .inr ⟨_, _, rfl, hc.1, ⟨f, by simp, rfl, by simpa using hc.2⟩, ?_⟩
        intro g hg hgo
        rcases hmem.1 hg with hg | rfl
        · exact hc.1.le.trans (hall g hg hgo)
        · exact le_rfl
      · refine .inl ⟨rfl, fun g hg hgo => ?_⟩
        rcases hmem.1 hg with hg | rfl
        · exact hall g hg hgo
        · by_contra hlt
          exact hc ⟨not_le.1 hlt, by simpa using hgo⟩
    · simp only [hs, map_some, getD_some]
      split <;> rename_i hc
      · refine .inr ⟨_, _, rfl, hc.1.trans hlt, ⟨f, by simp, rfl, by simpa using hc.2⟩, ?_⟩
        intro h hh hho
        rcases hmem.1 hh with hh | rfl
        · exact hc.1.le.trans (hle h hh hho)
        · exact le_rfl
      · refine .inr ⟨n, k, rfl, hlt, ⟨g, ?_, hgn, hgo⟩, ?_⟩
        · rw [List.getElem?_append_left (List.getElem?_eq_some_iff.1 hg).1, hg]
        · intro h hh hho
          rcases hmem.1 hh with hh | rfl
          · exact hle h hh hho
          · by_contra hlt'
            exact hc ⟨not_le.1 hlt', by simpa using hho⟩

theorem isSmallest_of_eq {l : List Frm} {n : ℤ} {k : ℕ} (h : smallest l = some (n, k)) :
    IsSmallest l n k := by
  rcases smallest_spec l with ⟨hs, -⟩ | ⟨n', k', hs, hi⟩
  · rw [h] at hs
    cases hs
  · rw [h] at hs
    cases hs
    exact hi

end FrmBuf
/-! ## Unused frames -/

namespace FrmBuf

theorem eraseIdx_modify (l : List Frm) (k : ℕ) (g : Frm → Frm) :
    (l.modify k g).eraseIdx k = l.eraseIdx k := by
  rw [modify_eq_set_getElem?]
  cases l[k]? with
  | none => rfl
  | some f => exact eraseIdx_set_eq

variable (b : FrmBuf)

/-- No frame is unused. -/
def Clean : Prop := ∀ f ∈ b.frames, f.isUnused = false

theorem remove_frames (k : ℕ) : (b.remove k).frames = b.frames.eraseIdx k := by
  rw [remove]
  cases hk : b.frames[k]? with
  | none => exact (eraseIdx_of_length_le (getElem?_eq_none_iff.1 hk)).symm
  | some f => rfl

theorem removeUnused_eq_none : b.removeUnused = none ↔ b.Clean := by
  rw [removeUnused, map_eq_none_iff, findIdx?_eq_none_iff]
  rfl

theorem purgeLoop_clean (n : ℕ) (hn : b.frames.length ≤ n) : (purgeLoop n b).Clean := by
  induction n generalizing b with
  | zero =>
    have hnil := length_eq_zero_iff.1 (Nat.le_zero.1 hn)
    intro f hf
    rw [purgeLoop, hnil] at hf
    cases hf
  | succ n ih =>
    rw [purgeLoop]
    cases hr : b.removeUnused with
    | none => exact b.removeUnused_eq_none.1 hr
    | some b' =>
      obtain ⟨k, hk, rfl⟩ := map_eq_some_iff.1 hr
      refine ih _ ?_
      rw [remove_frames, length_eraseIdx_of_lt (findIdx?_eq_some_iff_getElem.1 hk).1]
      exact Nat.sub_le_of_le_add hn

theorem purge_clean : b.purge.Clean := b.purgeLoop_clean _ le_rfl

theorem purgeLoop_sublist (n : ℕ) : (purgeLoop n b).frames.Sublist b.frames := by
  induction n generalizing b with
  | zero => exact .refl _
  | succ n ih =>
    rw [purgeLoop]
    cases hr : b.removeUnused with
    | none => exact .refl _
    | some b' =>
      obtain ⟨k, -, rfl⟩ := map_eq_some_iff.1 hr
      refine (ih _).trans ?_
      rw [remove_frames]
      exact eraseIdx_sublist _ _

theorem purge_sublist : b.purge.frames.Sublist b.frames := b.purgeLoop_sublist _

variable {b}

theorem Clean.of_subset (h : b.Clean) {b' : FrmBuf} (hs : b'.frames ⊆ b.frames) : b'.Clean :=
  fun f hf => h f (hs hf)

/-- A frame that is output stays when it is a reference. -/
theorem Clean.outputOne (h : b.Clean) : b.outputOne.Clean := by
  rw [FrmBuf.outputOne]
  cases smallest b.frames with
  | none => exact h
  | some x =>
    dsimp only
    split <;> rename_i href
    · intro f hf
      rw [write_frames, modify_eq_set_getElem?] at hf
      cases hk : b.frames[x.2]? with
      | none => simp [hk] at href
      | some g =>
        rw [hk] at hf href
        rcases mem_or_eq_of_mem_set hf with hf | rfl
        · exact h f hf
        · simpa [Frm.isUnused] using href
    · refine h.of_subset fun f hf => ?_
      rw [remove_frames, write_frames, eraseIdx_modify] at hf
      exact mem_of_mem_eraseIdx hf

theorem removeFirst_frames (b : FrmBuf) : b.removeFirst.frames = b.frames.eraseIdx 0 := by
  rw [FrmBuf.removeFirst]
  simp only [remove_frames]
  split
  · exact eraseIdx_modify _ _ _
  · rw [write_frames, eraseIdx_modify]
    exact eraseIdx_modify _ _ _

theorem Clean.removeFirst (h : b.Clean) : b.removeFirst.Clean :=
  h.of_subset fun _ hf => mem_of_mem_eraseIdx (b.removeFirst_frames ▸ hf)

end FrmBuf
/-! ## The picture that is marked -/

/-- A picture without what its marking and the making of room may change. -/
def StorePic.kept (p : StorePic) : StorePic :=
  { p with
    picNum := 0
    frameNum := 0
    poc := 0
    topPoc := 0
    bottomPoc := 0
    framePoc := 0
    isLongTerm := false
    longTermFrameIdx := 0 }

theorem StorePic.usedForReference_of_kept {p q : StorePic} (h : q.kept = p.kept) :
    q.usedForReference = p.usedForReference :=
  show q.kept.usedForReference = p.kept.usedForReference from h ▸ rfl

theorem StorePic.slides_of_kept {p q : StorePic} (h : q.kept = p.kept) : q.slides = p.slides :=
  show q.kept.slides = p.kept.slides from h ▸ rfl

theorem resetPicNums_kept (p : StorePic) : (resetPicNums p).kept = p.kept := by
  unfold resetPicNums
  cases h : p.picStructure <;> simp [StorePic.kept, h]

namespace FrmBuf

variable {b : FrmBuf} {p : StorePic} {cfg : DecCfg}

/-- An operation changes of the picture whether it is a long-term one. -/
theorem control_pic (b : FrmBuf) (p : StorePic) (op : Drpm) (isLast : Bool) :
    ∃ l i, (b.control p op isLast).2.1 = { p with isLongTerm := l, longTermFrameIdx := i } := by
  unfold control
  split
  all_goals exact ⟨_, _, rfl⟩

theorem controls_pic (b : FrmBuf) (p : StorePic) (ops : List Drpm) :
    ∃ l i, (b.controls p ops).2.1 = { p with isLongTerm := l, longTermFrameIdx := i } := by
  induction ops generalizing b p with
  | nil => exact ⟨_, _, rfl⟩
  | cons op ops ih =>
    obtain ⟨l, i, hc⟩ := b.control_pic p op ops.isEmpty
    rw [controls]
    split
    · exact ⟨l, i, hc⟩
    · obtain ⟨l', i', hcs⟩ := ih (b.control p op ops.isEmpty).1 (b.control p op ops.isEmpty).2.1
      exact ⟨l', i', by rw [hcs, hc]⟩

theorem controls_kept (b : FrmBuf) (p : StorePic) (ops : List Drpm) :
    (b.controls p ops).2.1.kept = p.kept := by
  obtain ⟨l, i, h⟩ := b.controls_pic p ops
  rw [h]
  rfl

theorem mark_kept {v : FrmBuf × StorePic × MppRet} (h : b.mark p = some v) :
    v.2.1.kept = p.kept := by
  unfold mark at h
  split at h
  · obtain ⟨x, -, rfl⟩ := map_eq_some_iff.1 h
    dsimp only
    split <;> rfl
  · split at h
    · dsimp only at h
      split at h
      · rw [← some.inj h]
        exact b.controls_kept p _
      · split at h
        · obtain ⟨x, -, rfl⟩ := map_eq_some_iff.1 h
          exact (resetPicNums_kept _).trans (b.controls_kept p _)
        · rw [← some.inj h]
          exact b.controls_kept p _
    · rw [← some.inj h]

/-- The making of room changes of the picture whether it is a long-term one. -/
theorem makeRoom_pic {n : ℕ} {v : FrmBuf × StorePic × Room} (h : makeRoom cfg n b p = some v) :
    ∃ l, v.2.1 = { p with isLongTerm := l } := by
  induction n generalizing b p with
  | zero =>
    rw [makeRoom] at h
    split at h <;> cases h
    exact ⟨_, rfl⟩
  | succ n ih =>
    rw [makeRoom] at h
    split at h
    · dsimp only at h
      split at h
      · cases h
        exact ⟨_, rfl⟩
      · obtain ⟨l, hl⟩ := ih h
        refine ⟨l, hl.trans ?_⟩
        split <;> rfl
    · cases h
      exact ⟨_, rfl⟩

theorem makeRoom_kept {n : ℕ} {v : FrmBuf × StorePic × Room} (h : makeRoom cfg n b p = some v) :
    v.2.1.kept = p.kept := by
  obtain ⟨l, hl⟩ := makeRoom_pic h
  rw [hl]
  rfl

end FrmBuf

end Libmpp.H264d
