import Libmpp.Base.SlotCodec
import Libmpp.Lib.Widths

/-!
# The references of the VP9 decoder

The frames a VP9 decoder refers to (`vp9d_parser.c`): its current frame, the one before for
the motion vectors, and the eight reference frames. An entry of these points to a
`VP9RefInfo` that counts the entries pointing to it, and names a slot (`Libmpp.Base.Slots`).

* The infos are allocated: an entry points to one by its number, and an access to one that
  is freed, or through `NULL`, has no result (`none`), as has an assertion of the slots that
  fails. An allocation that fails for want of memory is left out.
* What the headers of a packet say is an input (`Packet`): the references depend on it only
  through the fields read here.
* Of a frame, the slots keep a number. The frame data of the entries themselves, the
  probabilities and the syntax for the hardware are left out, and of a task all but its
  slots.
* Between two packets, the others that hold slots (the hardware, the display, the decoder
  around the parser) use them in any way that is theirs (`Base.ByOthers`).
-/

namespace Libmpp.Vp9d

open Base

structure VP9RefInfo where
  refCount : ℤ
  showFrameFlag : Bool
  isOutput : Bool
  deriving DecidableEq, Repr

/-- `VP9Frame`, pointing to an info by its number. -/
structure VP9Frame where
  slotIndex : ℤ
  ref : Option ℕ
  deriving DecidableEq, Repr

/-- The entries: `frames[3]` and `refs[8]`. -/
abbrev Entry := Fin 3 ⊕ Fin 8

/-- `VP9_CUR_FRAME` -/
def curFrame : Entry := .inl 0

/-- `VP9_REF_FRAME_MVPAIR` -/
def refFrameMvpair : Entry := .inl 1

structure VP9Context where
  entry : Entry → VP9Frame
  /-- The infos there are; the next one is `infos`. -/
  info : ℕ → Option VP9RefInfo
  infos : ℕ
  slots : MppBufSlotsImpl
  /-- The buffers of which `vp9_unref_frame` put a reference. -/
  put : List (Option ℕ)
  /-- The slot each info was created with: a log, which nothing reads. -/
  createdWith : ℕ → ℤ

/-- The slots of `HalDecTask` -/
structure HalDecTask where
  valid : Bool
  output : ℤ
  refer : Fin 3 → ℤ

/-- What a packet comes to: its size, what reading its two headers returns, and what they
    say. Setting the slot's frame, `changed` is whether the frame information changes. -/
structure Packet where
  size : ℤ
  uncompressed : ℤ
  compressed : ℤ
  showExistingFrame : Bool
  ref : Fin 8
  keyframe : Bool
  intraonly : Bool
  errorResMode : Bool
  showFrameFlag : Bool
  refreshFrameFlags : BitVec 8
  refidx : Fin 3 → Fin 8
  frame : ℕ
  changed : Bool

namespace VP9Context

/-- Write an entry. -/
def setEntry (s : VP9Context) (e : Entry) (f : VP9Frame) : VP9Context :=
  { s with entry := Function.update s.entry e f }

/-- Write or free an info. -/
def setInfo (s : VP9Context) (r : ℕ) (info : Option VP9RefInfo) : VP9Context :=
  { s with info := Function.update s.info r info }

end VP9Context

variable (s : VP9Context)

/-- `vp9_ref_frame`, with what it returns -/
def vp9RefFrame (dst src : Entry) : Option (ℤ × VP9Context) :=
  match (s.entry src).ref with
  | none => some (-1, s)
  | some r =>
    if (s.entry src).slotIndex ≥ 0x7f then some (-1, s)
    else do
      let info ← s.info r
      -- the frame is copied out of the slot
      let _ ← mppBufSlotGetProp s.slots (s.entry src).slotIndex .frame
      let s := s.setInfo r (some { info with refCount := info.refCount + 1 })
      some (0, s.setEntry dst { slotIndex := (s.entry src).slotIndex, ref := some r })

/-- The buffer that `vp9_unref_frame` puts a reference of: that of a hidden frame which was
    not shown later. -/
def hiddenBuffer (info : VP9RefInfo) (index : ℤ) : Option (List (Option ℕ)) :=
  if info.showFrameFlag && !info.isOutput then
    (mppBufSlotGetProp s.slots index .buffer).map fun
      | .buffer buffer => [buffer]
      | _ => []
  else some []

/-- `vp9_unref_frame`, which takes an entry that points to an info -/
def vp9UnrefFrame (e : Entry) : Option VP9Context := do
  let f := s.entry e
  let r ← f.ref
  let info ← s.info r
  if info.refCount ≤ (0 : ℤ) ∨ f.slotIndex ≥ 0x7f then some s
  else if info.refCount - 1 = 0 then
    let put ← hiddenBuffer s info f.slotIndex
    let (_, slots) ← mppBufSlotClrFlag s.slots f.slotIndex .codecUse
    let s := { s with slots, put := s.put ++ put }
    some ((s.setInfo r none).setEntry e { slotIndex := 0xff, ref := none })
  else
    let s := s.setInfo r (some { info with refCount := info.refCount - 1 })
    some (s.setEntry e { f with ref := none })

/-- `vp9_unref_frame` where the entry is not `NULL`, as all its callers have it -/
def unrefEntry (e : Entry) : Option VP9Context :=
  if (s.entry e).ref = none then some s else vp9UnrefFrame s e

/-- `vp9_alloc_frame` -/
def vp9AllocFrame (e : Entry) (pkt : Packet) : Option VP9Context := do
  let (index, slots) ← mppBufSlotGetUnused s.slots
  let slots ← mppBufSlotSetProp slots index (.frame pkt.frame pkt.changed)
  let slots ← mppBufSlotSetFlag slots index .codecUse
  let slots ← mppBufSlotSetFlag slots index .halOutput
  let info : VP9RefInfo :=
    { refCount := 1, showFrameFlag := pkt.showFrameFlag, isOutput := false }
  let r := s.infos
  let s := { s with
    slots, infos := r + 1, createdWith := Function.update s.createdWith r index }
  some ((s.setInfo r (some info)).setEntry e { slotIndex := index, ref := some r })

/-- Unreference the entries, in order. -/
def unrefAll (s : VP9Context) : List Entry → Option VP9Context
  | [] => some s
  | e :: l => do
    let s ← unrefEntry s e
    unrefAll s l

/-- The entries in the order the clean-up goes through them. -/
def entries : List Entry := (List.finRange 3).map .inl ++ (List.finRange 8).map .inr

/-- `vp9_frame_free` -/
def vp9FrameFree : Option VP9Context := unrefAll s entries

/-- `vp9d_parser_deinit` -/
def vp9dParserDeinit : Option VP9Context := vp9FrameFree s

/-- `vp9d_paser_reset` -/
def vp9dPaserReset : Option VP9Context := unrefAll s entries

/-- `vp9d_parser_init`, with the slots just made: nothing is moved when they are set up -/
def vp9dParserInit (mem : Realloc) : VP9Context :=
  { entry := fun _ => { slotIndex := 0x7f, ref := none }
    info := fun _ => none
    infos := 0
    slots := mppBufSlotSetup mppBufSlotInit 25 mem
    put := []
    createdWith := fun _ => 0 }

/-- `decode_parser_header`, with what it returns: an existing frame to show is queued here. -/
def decodeParserHeader (pkt : Packet) : Option (ℤ × VP9Context) :=
  if pkt.uncompressed < 0 then some (pkt.uncompressed, s)
  else if pkt.showExistingFrame then
    match (s.entry (.inr pkt.ref)).ref with
    | none => some (mppErrNullPtr, s)
    | some r => do
      let index := (s.entry (.inr pkt.ref)).slotIndex
      let _ ← mppBufSlotGetProp s.slots index .framePtr
      let slots ← mppBufSlotSetFlag s.slots index .queueUse
      let slots ← mppBufSlotEnqueue slots index .display
      let info ← s.info r
      some (mppOk, { s with slots }.setInfo r (some { info with isOutput := true }))
  else if pkt.compressed < 0 then some (pkt.compressed, s)
  else some (mppOk, s)

/-- The references the hardware reads, with the slots: an index that no slot has is left out. -/
def setRefer (s : VP9Context) (pkt : Packet) :
    List (Fin 3) → (Fin 3 → ℤ) → Option ((Fin 3 → ℤ) × VP9Context)
  | [], refer => some (refer, s)
  | i :: l, refer =>
    let index := (s.entry (.inr (pkt.refidx i))).slotIndex
    if index < 0x7f then do
      let slots ← mppBufSlotSetFlag s.slots index .halInput
      let _ ← mppBufSlotGetProp slots index .framePtr
      setRefer { s with slots } pkt l (Function.update refer i index)
    else setRefer s pkt l (Function.update refer i (-1))

/-- The reference frames the new frame takes the place of. -/
def refreshRefs (s : VP9Context) (pkt : Packet) : List (Fin 8) → Option VP9Context
  | [] => some s
  | i :: l =>
    if pkt.refreshFrameFlags.getLsbD i then do
      let s ← unrefEntry s (.inr i)
      let (ret, s) ← vp9RefFrame s (.inr i) curFrame
      if ret < 0 then some s else refreshRefs s pkt l
    else refreshRefs s pkt l

/-- The current frame becomes the one before, for the motion vectors of the next. -/
def refMvpair (pkt : Packet) : Option (ℤ × VP9Context) :=
  if !pkt.intraonly && !pkt.keyframe && !pkt.errorResMode && (s.entry curFrame).ref.isSome then
    vp9RefFrame s refFrameMvpair curFrame
  else some (0, s)

/-- The new frame is queued, unless it is hidden, which is what the flag says. -/
def queueShown (pkt : Packet) (output : ℤ) : Option VP9Context :=
  if !pkt.showFrameFlag then do
    let slots ← mppBufSlotSetFlag s.slots output .queueUse
    let slots ← mppBufSlotEnqueue slots output .display
    some { s with slots }
  else some s

/-- `vp9_parser_frame`, with what it returns -/
def vp9ParserFrame (task : HalDecTask) (pkt : Packet) : Option (ℤ × HalDecTask × VP9Context) := do
  let task := { task with valid := false }
  if pkt.size ≤ 0 then some (mppOk, task, s)
  else
    let (ret, s) ← decodeParserHeader s pkt
    if ret < 0 then some (ret, task, s)
    else if pkt.showExistingFrame then some (pkt.size, task, s)
    else
      let s ← unrefEntry s refFrameMvpair
      let (ret, s) ← refMvpair s pkt
      if ret < 0 then some (ret, task, s)
      else
        let s ← unrefEntry s curFrame
        let s ← vp9AllocFrame s curFrame pkt
        let output := (s.entry curFrame).slotIndex
        let (refer, s) ← setRefer s pkt (List.finRange 3) task.refer
        let s ← queueShown s pkt output
        let s ← refreshRefs s pkt (List.finRange 8)
        some (0, { valid := true, output, refer }, s)

/-! ## Runs -/

/-- What happens to the decoder: a packet, with the task it is parsed for, a reset, after
    which the decoder may reset a slot (`mpp_dec_reset_no_thread`), and what the others do
    with the slots. -/
inductive Action
  | packet (task : HalDecTask) (pkt : Packet)
  | reset (slot : Option ℤ)
  | other (op : SlotOp)

def vp9Step : Action → Option VP9Context
  | .packet task pkt => (vp9ParserFrame s task pkt).map fun r => r.2.2
  | .reset none => vp9dPaserReset s
  | .reset (some index) => do
    let s ← vp9dPaserReset s
    let (_, slots) ← mppBufSlotReset s.slots index
    some { s with slots }
  | .other op =>
    if ByOthers op then (slotStep s.slots op).map fun slots => { s with slots } else none

/-- The runs of the decoder. -/
def vp9Machine (mem : Realloc) : Machine VP9Context Action :=
  .ofPartial (vp9dParserInit mem) vp9Step

end Libmpp.Vp9d
