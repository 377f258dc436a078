import Libmpp.H265d.Delivery
import Libmpp.H265d.Split

/-!
# The end of a stream

A packet may be marked as the last one of its stream. The mark goes from the packet to the
splitter and the parser (`h265d_prepare`, `h265d_parse`), with a task to the hal thread
(`try_proc_dec_task`), and there to the last frame of the display queue or to an empty frame
(`mpp_dec_push_display`, `mpp_dec_put_frame`).

The parser thread and the hal thread take their steps in any order (`threads`). The hal
thread handles the tasks in the order they were put; a frame in the display queue is ready
when the task that decodes it was handled. A step of the hal thread is one task.

What is read of the bytes of a packet is given with the step (`Reading`, and the NAL units
of the frame). Frame buffers, timestamps, error marks and deinterlacing are left out: none of
them adds, drops or marks a frame. A user who resets the decoder starts it over.
-/

namespace Libmpp.H265d

/-- The configuration, with `base.split_parse`. -/
structure MppDecCfg extends MppDecBaseCfg where
  splitParse : Bool := false
deriving DecidableEq

/-- `MppPacket`: the data from its position on, and its marks. -/
structure MppPacket where
  data : List UInt8
  eos : Bool := false
  extraData : Bool := false
deriving DecidableEq

/-- `HalDecTaskFlag`, with a history that the decoder does not keep: the slots of the
    pictures decoded when the task was put. -/
structure HalDecTaskFlag where
  eos : Bool := false
  infoChange : Bool := false
  decoded : List ℕ := []
deriving DecidableEq

/-- `HalDecTask`. Without an output slot, `output` is negative in the source. -/
structure HalDecTask where
  valid : Bool
  output : Option ℕ
  flags : HalDecTaskFlag
deriving DecidableEq

/-- A frame in `mFrmOut`, with the flags it was put there with. Without a slot it is an empty
    frame. -/
structure OutFrame where
  slot : Option ℕ
  flags : HalDecTaskFlag
deriving DecidableEq

/-- What is read of a packet: the NAL units of its extra data, whether these are in the
    format `hvcC` (`is_nalff`) and whether they have a frame; `consumed_bytes`, unless
    `split_nal_units` fails; whether `h265d_syntax_fill_slice` succeeds. -/
structure Reading where
  extra : List Nal := []
  isNalff : Bool := false
  extraHasFrame : Bool := false
  splitNalUnits : Option ℕ := some 0
  fillSlice : Bool := true

/-- The decoder and its two threads. Of the display queue, the first `dequeued` slots of
    `ctx.display` are gone. A history is kept as well: for every eos packet that is used up,
    the pictures decoded by then (`ends`); whether the packet at hand had its task with the
    mark (`given`); whether the frame to be parsed is the end of an eos packet (`ending`). -/
structure DecThreads where
  ctx : HEVCContext := {}
  eos : Bool := false
  isNalff : Bool := false
  splitCxt : Option SplitContext := none
  mppPktIn : Option MppPacket := none
  currTaskRdy : Bool := false
  flagsEos : Bool := false
  tasks : List HalDecTask := []
  dequeued : ℕ := 0
  frmOut : List OutFrame := []
  ends : List (List ℕ) := []
  given : Bool := false
  ending : Bool := false

namespace DecThreads

/-- The slots of the pictures decoded so far. -/
def decoded (d : DecThreads) : List ℕ := d.ctx.pictures.map Prod.fst

/-- `QUEUE_DISPLAY` -/
def queue (d : DecThreads) : List ℕ := d.ctx.display.drop d.dequeued

/-- `mpp_dec_put_task` -/
def putTask (d : DecThreads) (valid : Bool) (output : Option ℕ) (flags : HalDecTaskFlag) :
    DecThreads :=
  { d with tasks := d.tasks ++ [{ valid, output, flags }] }

end DecThreads

/-! ## The parser thread -/

section Parser

variable (cfg : MppDecCfg) (r : Reading) (p : MppPacket) (d : DecThreads)

/-- The splitter. One that is made for the packet does not see its mark. -/
def splitter : SplitContext :=
  match d.splitCxt with
  | some sc => { sc with eos := p.eos }
  | none => {}

/-- `is_nalff`, after the extra data. -/
def nalff : Bool := if p.extraData then r.isNalff else d.isNalff

/-- The packet is all extra data. -/
def isExtra : Bool := p.extraData && !r.extraHasFrame

/-- The packet goes through the splitter. -/
def splits : Bool := cfg.splitParse && !nalff r p d

/-- The data that `split_nal_units` gets. -/
def unitData : List UInt8 :=
  if splits cfg r p d then (h265dSplitFrame (splitter p d) p.data).2.1 else p.data

/-- The end of the stream alone: there is nothing else in the packet. -/
def isEndAlone : Bool := !isExtra r p && !splits cfg r p d && p.eos && p.data.isEmpty

/-- `task->valid`: there is a frame, and it can be read. -/
def isValid : Bool :=
  !isExtra r p && !isEndAlone cfg r p d && (!splits cfg r p d || !(unitData cfg r p d).isEmpty) &&
    r.splitNalUnits.isSome && r.fillSlice

/-- What is left of the packet. -/
def restOf : List UInt8 :=
  if isExtra r p then []
  else if splits cfg r p d then p.data.drop (h265dSplitFrame (splitter p d) p.data).2.2
  else if isEndAlone cfg r p d then []
  else if nalff r p d then
    match r.splitNalUnits with
    | some consumed => p.data.drop consumed
    | none => []
  else []

/-- `s->eos`: in a packet that goes through the splitter, with its last frame. -/
def seesEos : Bool :=
  if !isExtra r p && splits cfg r p d && !(unitData cfg r p d).isEmpty then
    p.eos && decide ((restOf cfg r p d).length < 4)
  else p.eos

/-- The decoder context after `h265d_prepare`. -/
def prepareCtx : HEVCContext :=
  let s := if p.extraData then parserNalUnits cfg.toMppDecBaseCfg false r.extra d.ctx else d.ctx
  if isEndAlone cfg r p d then h265dFlush cfg.toMppDecBaseCfg s else s

/-- The splitter after `h265d_prepare`. -/
def prepareSplit : Option SplitContext :=
  if !isExtra r p && splits cfg r p d then some (h265dSplitFrame (splitter p d) p.data).1
  else if d.splitCxt.isSome || cfg.splitParse then some (splitter p d)
  else none

/-- `h265d_prepare` on the packet at hand, which is released when it is used up. -/
def h265dPrepare : DecThreads :=
  { d with
    ctx := prepareCtx cfg r p d
    eos := seesEos cfg r p d
    isNalff := nalff r p d
    splitCxt := prepareSplit cfg r p d
    mppPktIn := if restOf cfg r p d = [] then none else some { p with data := restOf cfg r p d }
    currTaskRdy := isValid cfg r p d
    flagsEos := d.flagsEos || isEndAlone cfg r p d }

/-- The packet is an eos packet and used up. -/
def isUsedUp : Bool := p.eos && (restOf cfg r p d).isEmpty

/-- The first part of `try_proc_dec_task`: a task without a frame is put for the end of the
    stream, and its flag stays set. -/
def procPrepare : DecThreads :=
  let d' := h265dPrepare cfg r p d
  if isValid cfg r p d then { d' with ending := isUsedUp cfg r p d }
  else
    let puts := d'.flagsEos
    let d' := if puts then d'.putTask false none { eos := true, decoded := d'.decoded } else d'
    if isUsedUp cfg r p d then { d' with ends := d'.ends ++ [d'.decoded], given := false }
    else { d' with given := d'.given || puts }

/-- The tasks that are put when a frame was parsed. When the frames change (`changed`), a task
    for the change comes first; without a frame, only the mark is sent on. -/
def parsedTasks (parsed : HEVCContext) (eos changed : Bool) (decoded : List ℕ) :
    List HalDecTask :=
  let output := parsed.ref.bind fun i => (parsed.dpb i).slotIndex
  if output.isNone then
    if eos then [{ valid := parsed.ref.isSome, output, flags := { eos, decoded } }] else []
  else
    (if changed then [{ valid := true, output, flags := { infoChange := true } }] else []) ++
      [{ valid := true, output, flags := { eos, decoded } }]

/-- The rest of `try_proc_dec_task`: `h265d_parse`, and its tasks. -/
def procParse (nals : List Nal) (changed : Bool) : DecThreads :=
  let parsed := parserNalUnits cfg.toMppDecBaseCfg true nals { d.ctx with ref := none }
  let ctx := finishPacket cfg.toMppDecBaseCfg d.eos parsed
  let eos := d.flagsEos || d.eos
  let decoded := ctx.pictures.map Prod.fst
  { d with
    ctx
    currTaskRdy := false
    flagsEos := false
    tasks := d.tasks ++ parsedTasks parsed eos changed decoded
    ends := if d.ending then d.ends ++ [decoded] else d.ends
    given := !d.ending && (d.given || eos)
    ending := false }

end Parser

/-! ## The hal thread -/

namespace DecThreads

/-- The frame of the slot is decoded: none of the tasks is to write it. -/
def isReady (d : DecThreads) (slot : ℕ) : Bool := d.tasks.all fun t => t.output != some slot

/-- `mpp_dec_put_frame` -/
def putFrame (d : DecThreads) (slot : Option ℕ) (flags : HalDecTaskFlag) : DecThreads :=
  { d with frmOut := d.frmOut ++ [{ slot, flags }] }

/-- The loop of `mpp_dec_push_display` on a queue: the frames that are put out. -/
def displayLoop (ready : ℕ → Bool) (flags : HalDecTaskFlag) : List ℕ → List OutFrame
  | [] => []
  | slot :: queue =>
    if ready slot then
      { slot := some slot
        flags := { flags with eos := flags.eos && queue.isEmpty, infoChange := false } } ::
          displayLoop ready flags queue
    else []

/-- `mpp_dec_push_display` -/
def pushDisplay (d : DecThreads) (flags : HalDecTaskFlag) : DecThreads :=
  let out := displayLoop d.isReady flags d.queue
  { d with dequeued := d.dequeued + out.length, frmOut := d.frmOut ++ out }

/-- `mpp_dec_flush` -/
def flush (cfg : MppDecCfg) (d : DecThreads) : DecThreads :=
  { d with ctx := h265dFlush cfg.toMppDecBaseCfg d.ctx }

end DecThreads

/-- The task has the mark and no frame. -/
def HalDecTask.isEndAlone (t : HalDecTask) : Bool :=
  t.flags.eos && (!t.valid || t.output.isNone)

/-- One task of `mpp_dec_hal_thread`. When its hardware is done its output slot is ready. -/
def procHal (cfg : MppDecCfg) (t : HalDecTask) (d : DecThreads) : DecThreads :=
  if t.flags.infoChange then
    ((d.flush cfg).pushDisplay t.flags).putFrame t.output t.flags
  else if t.isEndAlone then (d.pushDisplay t.flags).putFrame none t.flags
  else if t.flags.eos then (d.flush cfg).pushDisplay t.flags
  else d.pushDisplay t.flags

/-! ## Runs -/

/-- A step: a packet is given, the parser thread gets a frame of it ready or parses the frame,
    or the hal thread handles a task. -/
inductive ThreadAct
  | give (p : MppPacket)
  | prepare (r : Reading)
  | parse (nals : List Nal) (changed : Bool)
  | hal

/-- A step of one of the threads, when there is something for it to do. -/
def ThreadAct.apply (cfg : MppDecCfg) (d : DecThreads) : ThreadAct → Option DecThreads
  | .give p =>
    if d.mppPktIn.isNone ∧ ¬ d.currTaskRdy then some { d with mppPktIn := some p } else none
  | .prepare r =>
    if d.currTaskRdy then none else d.mppPktIn.map fun p => procPrepare cfg r p d
  | .parse nals changed => if d.currTaskRdy then some (procParse cfg d nals changed) else none
  | .hal =>
    match d.tasks with
    | [] => none
    | t :: tasks => some (procHal cfg t { d with tasks })

/-- The decoder, with a splitter from the start or without. -/
def threads (cfg : MppDecCfg) : Machine DecThreads ThreadAct where
  init d := d = {} ∨ d = { splitCxt := some {} }
  step d a d' := a.apply cfg d = some d'

/-! ## The promise, and when it is kept -/

/-- The marks, each by the pictures decoded before it: those on frames that were put out,
    and then those of tasks on their way. -/
def marks (frmOut : List OutFrame) (tasks : List HalDecTask) : List (List ℕ) :=
  (frmOut.filter (·.flags.eos)).map (·.flags.decoded) ++
    (tasks.filter (·.flags.eos)).map (·.flags.decoded)

/-- What the decoder promises about the eos packets: one after the other they have one frame
    each with the mark, among those that are put out and the tasks that are on their way; and
    no frame of a picture decoded before comes after that frame. -/
structure EosOnce (d : DecThreads) : Prop where
  once : marks d.frmOut d.tasks = d.ends ++ if d.given then [d.decoded] else []
  last : d.frmOut.Pairwise fun a b => a.flags.eos → ¬ b.flags.infoChange →
    ∀ n ∈ b.slot, n ∉ a.flags.decoded

/-- The call sends the mark on, with a frame or alone. -/
def sendsEos (cfg : MppDecCfg) (r : Reading) (p : MppPacket) (d : DecThreads) : Bool :=
  isEndAlone cfg r p d || (seesEos cfg r p d && isValid cfg r p d)

/-- The mark of the packet gets no further twice, and is not lost with the end of the
    packet. A mark left over from a packet that had nothing else in it goes with it. -/
structure CalmPacket (cfg : MppDecCfg) (r : Reading) (p : MppPacket) (d : DecThreads) : Prop where
  extra : p.extraData → (Op.extraData r.extra).Calm cfg.toMppDecBaseCfg d.ctx
  leftOver : d.flagsEos → sendsEos cfg r p d
  sent : p.eos → restOf cfg r p d = [] → sendsEos cfg r p d ∨ d.given
  notTwice : p.eos → d.given → ¬ isValid cfg r p d

/-- A step at which the mark of an eos packet is neither lost nor doubled. -/
def ThreadAct.Calm (cfg : MppDecCfg) (d : DecThreads) : ThreadAct → Prop
  | .give _ => True
  | .prepare r => ∀ p ∈ d.mppPktIn, CalmPacket cfg r p d
  | .parse nals _ => (∀ t ∈ d.tasks, ¬ t.flags.eos) ∧
      (Op.parse nals d.eos).Calm cfg.toMppDecBaseCfg d.ctx
  | .hal => ∀ t ∈ d.tasks.head?, t.flags.eos → (t.isEndAlone ↔ d.queue = [])

end Libmpp.H265d
