import Libmpp.Lib.Machine

/-!
# The parser thread of the decoder

The parser thread of a decoder and those around it (`mpp_dec_normal.c`): the hal thread,
the users, who send packets, notices, commands and resets, and what else sends notices
(the buffer groups). A step of a thread is what it does between two points at which the
steps of the others can be seen: a section under a lock, a test, a semaphore.

* `Sync` is what the threads wake each other by, `Work` what the parser thread works on.
* What the components around tell the parser thread at a step (the codec's parser, the
  slots, the buffer groups, the list of output frames) is an input of the step (`Outside`).
  Of the packets, the tasks and the slots the model has what the tests of the parser
  thread depend on; what it does to them between two tests is left out.
* Who resets waits for the parser thread and holds nobody else up: this wait is left out,
  and so is the end of the threads.
-/

namespace Libmpp.Dec

/-- A word of flags: `RK_U32`. -/
abbrev Flags := BitVec 32

/-! ## The flags -/

/-- The conditions: the members of `PaserTaskWait` -/
inductive Wait
  | decPktIn
  | disQueFull
  | infoChange
  | decPicUnusd
  | decAllDone
  | taskHnd
  | prevTask
  | decPicMatch
  | decPktIdx
  | decPktBuf
  | decSlotIdx
  deriving DecidableEq, Repr

/-- The position of a condition in the word. -/
def Wait.pos : Wait → ℕ
  | decPktIn => 0
  | disQueFull => 1
  | infoChange => 5
  | decPicUnusd => 6
  | decAllDone => 7
  | taskHnd => 8
  | prevTask => 9
  | decPicMatch => 10
  | decPktIdx => 12
  | decPktBuf => 13
  | decSlotIdx => 14

def Wait.flag (c : Wait) : Flags := BitVec.twoPow 32 c.pos

/-- `MPP_DEC_NOTIFY_TASK_ALL_DONE` -/
def notifyTaskAllDone : Flags := 0x00000080

/-- `MPP_DEC_NOTIFY_TASK_HND_VALID` -/
def notifyTaskHndValid : Flags := 0x00000100

/-- `MPP_DEC_NOTIFY_TASK_PREV_DONE` -/
def notifyTaskPrevDone : Flags := 0x00000200

/-- `MPP_DEC_CONTROL` -/
def decControl : Flags := 0x00010000

/-- `MPP_DEC_RESET` -/
def decReset : Flags := 0xFFFFFFFF

/-! ## The state -/

/-- `HalDecTask`: its flags, and whether it has slots -/
structure HalDecTask where
  valid : Bool
  eos : Bool
  infoChange : Bool
  waitDone : Bool
  input : Bool
  output : Bool
  deriving DecidableEq, Repr

/-- `dec_task_info_init` -/
def decTaskInfoInit : HalDecTask :=
  { valid := false, eos := false, infoChange := false, waitDone := false, input := false,
    output := false }

/-- The stages of `try_proc_dec_task`. -/
inductive Stage
  | taskHnd
  | packet
  | prepare
  | pktIdx
  | pktBuf
  | prevTask
  | allDone
  | frmOut
  | slotIdx
  | parse
  | info
  | infoWait
  | picUnusd
  | picMatch
  | put
  deriving DecidableEq, Repr

/-- Where the parser thread is in its loop. -/
inductive Pc
  | check
  /-- In `mpp_thread_wait`, with a signal or without. -/
  | asleep (signalled : Bool)
  | cmdTest
  | cmdRun
  | resetTest
  | resetPost
  | resetWait
  | resetDone
  | pass (stage : Stage)
  deriving DecidableEq, Repr

/-- Who has `THREAD_CONTROL`, in `mpp_dec_reset_normal`. -/
inductive Resetter
  | idle
  | flagged
  | notified
  deriving DecidableEq, Repr

/-- Who has `cmd_lock`, in `mpp_dec_control_normal`. -/
inductive Control
  | idle
  | sent
  | notified
  | started
  deriving DecidableEq, Repr

structure Sync where
  pc : Pc
  /-- `task.wait` -/
  wait : Flags
  parserNotifyFlag : Flags
  parserWaitFlag : Flags
  resetFlag : Bool
  resetter : Resetter
  cmdSend : BitVec 32
  cmdRecv : BitVec 32
  cmdStart : ℕ
  cmdDone : ℕ
  control : Control
  deriving DecidableEq, Repr

/-- Where the hal thread is in its loop. -/
inductive HalPc
  | loop
  | asleep (signalled : Bool)
  | work (task : HalDecTask)
  /-- A task is done, and the notice of it to be sent. -/
  | done (flag : Flags)
  deriving DecidableEq, Repr

structure Work where
  task : HalDecTask
  hnd : Bool
  currTaskRdy : Bool
  prevTaskRdy : Bool
  infoTaskGenRdy : Bool
  taskParsedRdy : Bool
  parserFastMode : Bool
  /-- `mpp_pkt_in`, and the packets in `mMppInPort` -/
  mppPktIn : Bool
  inPort : ℕ
  /-- The tasks that are `TASK_IDLE`, `TASK_PROCESSING` and `TASK_PROC_DONE`. -/
  idle : ℕ
  processing : List HalDecTask
  procDone : ℕ
  hal : HalPc
  halResetPost : BitVec 32
  halResetDone : BitVec 32
  halReset : ℕ
  deriving DecidableEq, Repr

structure MppDecImpl where
  sync : Sync
  work : Work
  deriving DecidableEq, Repr

/-- A decoder that starts, with as many tasks as `tasks`. -/
def MppDecImpl.init (tasks : ℕ) (parserFastMode : Bool) : MppDecImpl where
  sync :=
    { pc := .check, wait := 0, parserNotifyFlag := 0, parserWaitFlag := 0, resetFlag := false,
      resetter := .idle, cmdSend := 0, cmdRecv := 0, cmdStart := 0, cmdDone := 0, control := .idle }
  work :=
    { task := decTaskInfoInit, hnd := false, currTaskRdy := false, prevTaskRdy := true,
      infoTaskGenRdy := false, taskParsedRdy := false, parserFastMode, mppPktIn := false,
      inPort := 0, idle := tasks, processing := [], procDone := 0, hal := .loop,
      halResetPost := 0, halResetDone := 0, halReset := 0 }

/-! ## Waiting and notices -/

/-- `mpp_thread_signal` to the parser thread -/
def Sync.signal (s : Sync) : Sync :=
  match s.pc with
  | .asleep _ => { s with pc := .asleep true }
  | _ => s

/-- `mpp_dec_notify_normal` -/
def mppDecNotifyNormal (s : Sync) (flag : Flags) : Sync :=
  let oldFlag := s.parserNotifyFlag
  let s := { s with parserNotifyFlag := s.parserNotifyFlag ||| flag }
  if flag = decControl ∨
      (oldFlag ≠ s.parserNotifyFlag ∧ s.parserNotifyFlag &&& s.parserWaitFlag ≠ 0) then s.signal
  else s

/-- Whether `check_task_wait` finds that the thread has to wait. -/
def Sync.hasToWait (s : Sync) : Bool :=
  !(s.resetFlag || s.parserNotifyFlag &&& decControl != 0 || s.wait == 0 ||
    s.wait &&& s.parserNotifyFlag != 0)

/-- The notices that `check_task_wait` keeps. -/
def Sync.keepNotify (s : Sync) : Flags :=
  if !s.resetFlag && s.parserNotifyFlag &&& decControl != 0 then
    s.parserNotifyFlag &&& ~~~decControl
  else 0

/-- `check_task_wait` and the `mpp_thread_wait` after it -/
def checkTaskWait (s : Sync) : Sync :=
  { s with
    pc := if s.hasToWait then .asleep false else .cmdTest
    parserWaitFlag := s.wait
    parserNotifyFlag := s.keepNotify }

/-! ## A pass -/

/-- What the components around tell at a step. -/
structure Outside where
  /-- The thread wakes up without a signal. -/
  spurious : Bool := false
  /-- The mode that a command leaves. -/
  parserFastMode : Bool := false
  /-- The task after `mpp_parser_prepare` or `mpp_parser_parse`. -/
  task : HalDecTask := decTaskInfoInit
  /-- The packet has length 0 after `mpp_parser_prepare`. -/
  consumed : Bool := true
  /-- There is an unused packet slot. -/
  packetSlot : Bool := true
  /-- The packet slot has a buffer. -/
  packetBuffer : Bool := true
  /-- The size of `mFrmOut`. -/
  frmOut : ℕ := 0
  /-- What `mpp_slots_get_unused_count` returns. -/
  unusedCount : ℕ := 1
  /-- What `mpp_buf_slot_is_changed` returns. -/
  isChanged : Bool := false
  /-- What `mpp_buffer_group_unused` returns, and whether there is a `vproc`. -/
  unused : ℤ := 3
  vproc : Bool := false
  /-- The output slot has a buffer. -/
  outputBuffer : Bool := true

/-- What a stage comes to: the bit of `task->wait` that it writes, and the next stage, if
    the pass does not return. -/
structure Move where
  wrote : Option (Wait × Bool)
  next : Option Stage

/-- A test: the pass goes on, or it waits for the condition and returns. -/
def Move.test (c : Wait) (ok : Bool) (next : Stage) : Move :=
  if ok then ⟨some (c, false), some next⟩ else ⟨some (c, true), none⟩

def Move.go (next : Stage) : Move := ⟨none, some next⟩

def Move.return : Move := ⟨none, none⟩

/-- `mpp_thread_signal` to the hal thread -/
def Work.signalHal (w : Work) : Work :=
  match w.hal with
  | .asleep _ => { w with hal := .asleep true }
  | _ => w

/-- `mpp_dec_put_task` -/
def mppDecPutTask (w : Work) : Work :=
  { w.signalHal with idle := w.idle - 1, processing := w.processing ++ [w.task], hnd := false }

/-- `mpp_parser_prepare` and what is around it -/
def tryPrepare (w : Work) (o : Outside) : Work × Move :=
  let w := if w.currTaskRdy then w
    else { w with task := o.task, mppPktIn := w.mppPktIn && !o.consumed }
  let w := { w with currTaskRdy := w.task.valid }
  let w := if w.task.eos && !w.task.valid then mppDecPutTask w else w
  (w, if w.currTaskRdy then .go .pktIdx else .return)

/-- `mpp_parser_parse` and what is around it -/
def tryParse (w : Work) (o : Outside) : Work × Move :=
  let w := if w.taskParsedRdy then w else { w with task := o.task, taskParsedRdy := true }
  if !w.task.output || !w.task.valid then
    let w := if w.task.eos then mppDecPutTask w else { w with hnd := false }
    ({ w with currTaskRdy := false, taskParsedRdy := false, task := decTaskInfoInit }, .return)
  else (w, .go .info)

/-- The first test of an information change: the task of it is put once. -/
def tryInfo (w : Work) (o : Outside) : Work × Move :=
  if o.isChanged && !w.infoTaskGenRdy then
    let eos := w.task.eos
    let w := { w with task := { w.task with infoChange := true, eos := false } }
    let w := mppDecPutTask w
    ({ w with task := { w.task with eos }, infoTaskGenRdy := true }, .return)
  else (w, .go .infoWait)

/-- A stage of `try_proc_dec_task` -/
def tryProcDecTask (st : Stage) (wait : Flags) (w : Work) (o : Outside) : Work × Move :=
  match st with
  | .taskHnd =>
    if w.hnd then (w, .go .packet)
    else ({ w with hnd := decide (w.idle ≠ 0) }, .test .taskHnd (w.idle ≠ 0) .packet)
  | .packet =>
    if w.mppPktIn || w.currTaskRdy then (w, .go .prepare)
    else
      ({ w with inPort := w.inPort - 1, mppPktIn := decide (w.inPort ≠ 0) },
        .test .decPktIn (w.inPort ≠ 0) .prepare)
  | .prepare => tryPrepare w o
  | .pktIdx =>
    let input := w.task.input || o.packetSlot
    ({ w with task := { w.task with input } }, .test .decPktIdx input .pktBuf)
  | .pktBuf => (w, .test .decPktBuf o.packetBuffer .prevTask)
  | .prevTask =>
    if w.parserFastMode || w.prevTaskRdy then (w, .go .allDone)
    else if w.procDone = 0 then (w, .test .prevTask false .allDone)
    else
      ({ w with prevTaskRdy := true, procDone := w.procDone - 1, idle := w.idle + 1 },
        .test .prevTask true .allDone)
  | .allDone =>
    if wait &&& Wait.decAllDone.flag ≠ 0 then
      (w, .test .decAllDone w.processing.isEmpty .frmOut)
    else (w, .go .frmOut)
  | .frmOut => (w, .test .disQueFull (o.frmOut ≤ 4) .slotIdx)
  | .slotIdx => (w, .test .decSlotIdx (o.unusedCount ≠ 0) .parse)
  | .parse => tryParse w o
  | .info => tryInfo w o
  | .infoWait =>
    if o.isChanged then (w, .test .infoChange false .picUnusd)
    else
      ({ w with infoTaskGenRdy := false, task := { w.task with infoChange := false } },
        .test .infoChange true .picUnusd)
  | .picUnusd =>
    (w, .test .decPicUnusd (if o.vproc then 3 ≤ o.unused else 1 ≤ o.unused) .picMatch)
  | .picMatch => (w, .test .decPicMatch o.outputBuffer .put)
  | .put =>
    let w' := mppDecPutTask w
    ({ w' with
        currTaskRdy := false, taskParsedRdy := false, prevTaskRdy := false
        task := decTaskInfoInit },
      ⟨some (.decAllDone, w.parserFastMode && w.task.waitDone), none⟩)

/-- Write a bit of `task->wait`. -/
def setWait (wait : Flags) (c : Wait) (b : Bool) : Flags :=
  if b then wait ||| c.flag else wait &&& ~~~c.flag

def Sync.move (s : Sync) (m : Move) : Sync :=
  { s with
    wait := m.wrote.elim s.wait fun x => setWait s.wait x.1 x.2
    pc := m.next.elim .check .pass }

/-! ## The threads -/

/-- `reset_parser_thread`, after the hal thread is reset -/
def Work.reset (w : Work) : Work :=
  { w with
    task := decTaskInfoInit, hnd := false, currTaskRdy := false, prevTaskRdy := true
    infoTaskGenRdy := false, taskParsedRdy := false, mppPktIn := false }

/-- A step of `mpp_dec_parser_thread` -/
def parserThread (d : MppDecImpl) (o : Outside) : Option MppDecImpl :=
  match d.sync.pc with
  | .check => some { d with sync := checkTaskWait d.sync }
  | .asleep signalled =>
    if signalled || o.spurious then some { d with sync := { d.sync with pc := .cmdTest } }
    else none
  | .cmdTest =>
    let pc := if d.sync.cmdSend ≠ d.sync.cmdRecv then .cmdRun else .resetTest
    some { d with sync := { d.sync with pc } }
  | .cmdRun =>
    if d.sync.cmdStart = 0 then none
    else
      some
        { sync :=
            { d.sync with
              pc := .check, cmdStart := d.sync.cmdStart - 1, cmdRecv := d.sync.cmdRecv + 1
              cmdDone := d.sync.cmdDone + 1 }
          work := { d.work with parserFastMode := o.parserFastMode } }
  | .resetTest =>
    let pc := if d.sync.resetFlag then .resetPost else .pass .taskHnd
    some { d with sync := { d.sync with pc } }
  | .resetPost =>
    -- the packets in the port are released, and the hal thread is told
    let w := { d.work with inPort := 0, halResetPost := d.work.halResetPost + 1 }
    some { sync := { d.sync with pc := .resetWait }, work := w.signalHal }
  | .resetWait =>
    if d.work.halReset = 0 then none
    else
      some
        { sync := { d.sync with pc := .resetDone, wait := 0, parserWaitFlag := 0 }
          work := { d.work.reset with halReset := d.work.halReset - 1 } }
  | .resetDone =>
    if d.sync.resetter = .idle then
      some { d with sync := { d.sync with pc := .check, resetFlag := false } }
    else none
  | .pass st =>
    let (w, m) := tryProcDecTask st d.sync.wait d.work o
    some { sync := d.sync.move m, work := w }

/-- The hal thread without a task: it resets, or tells that all is done and waits. -/
def halIdle (w : Work) : Work × Option Flags :=
  if w.halResetPost ≠ w.halResetDone then
    -- `reset_hal_thread`
    ({ w with
        idle := w.idle + w.procDone, procDone := 0, halResetDone := w.halResetDone + 1
        halReset := w.halReset + 1 }, none)
  else ({ w with hal := .asleep false }, some notifyTaskAllDone)

/-- A task of the hal thread is done. -/
def halDone (w : Work) (task : HalDecTask) : Work :=
  let w := { w with processing := w.processing.tail }
  if task.infoChange || task.eos && (!task.valid || !task.output) then
    { w with idle := w.idle + 1, hal := .done notifyTaskHndValid }
  else if w.parserFastMode then { w with idle := w.idle + 1, hal := .done notifyTaskHndValid }
  else
    { w with
      procDone := w.procDone + 1, hal := .done (notifyTaskHndValid ||| notifyTaskPrevDone) }

/-- A step of `mpp_dec_hal_thread`, with what it notifies -/
def halThread (w : Work) (spurious : Bool) : Option (Work × Option Flags) :=
  match w.hal with
  | .loop =>
    match w.processing with
    | task :: _ => some ({ w with hal := .work task }, none)
    | [] => some (halIdle w)
  | .asleep signalled => if signalled || spurious then some ({ w with hal := .loop }, none) else none
  | .work task => some (halDone w task, none)
  | .done flag => some ({ w with hal := .loop }, some flag)

/-- A step of `mpp_dec_reset_normal` -/
def mppDecResetNormal (s : Sync) : Sync :=
  match s.resetter with
  | .idle => { s with resetFlag := true, resetter := .flagged }
  | .flagged => { mppDecNotifyNormal s decReset with resetter := .notified }
  | .notified => { s with resetter := .idle }

/-- A step of `mpp_dec_control_normal` -/
def mppDecControlNormal (s : Sync) : Option Sync :=
  match s.control with
  | .idle => some { s with cmdSend := s.cmdSend + 1, control := .sent }
  | .sent => some { mppDecNotifyNormal s decControl with control := .notified }
  | .notified => some { s with cmdStart := s.cmdStart + 1, control := .started }
  | .started =>
    if s.cmdDone = 0 then none else some { s with cmdDone := s.cmdDone - 1, control := .idle }

/-- Who takes a step. -/
inductive Event
  | parser (o : Outside)
  | hal (spurious : Bool)
  /-- A user puts a packet in the port; the notice of it is another step. -/
  | putPacket
  | notify (flag : Flags)
  | reset
  | control

def step (d : MppDecImpl) : Event → Option MppDecImpl
  | .parser o => parserThread d o
  | .hal spurious => do
    let (work, flag) ← halThread d.work spurious
    some { sync := flag.elim d.sync (mppDecNotifyNormal d.sync), work }
  | .putPacket => some { d with work := { d.work with inPort := d.work.inPort + 1 } }
  | .notify flag => some { d with sync := mppDecNotifyNormal d.sync flag }
  | .reset => some { d with sync := mppDecResetNormal d.sync }
  | .control => (mppDecControlNormal d.sync).map fun sync => { d with sync }

end Libmpp.Dec
