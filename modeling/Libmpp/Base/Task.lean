import Libmpp.Base.Err
import Libmpp.Lib.Filing
import Libmpp.Lib.Machine

/-!
# The task queue

The queue between an input and an output port (`mpp_task_impl.c`). A task is in one of
four lists, and each operation runs as one critical section under the lock of the queue,
so that a run of the queue is an interleaving of whole operations. Waiting in a poll
gives the lock up: it is two sections.

* A task is its position in `heap`, where each setup appends its array of tasks; the
  links of the lists are lists of positions.
* A task passed to a port is one of the queue's: of what else the pointer may be the
  code checks nothing that would stop it, and the operation has no result (`none`).
* `mpp_assert` reports and goes on (it aborts only in a debug setting).
-/

namespace Libmpp.Base

inductive MppTaskStatus
  | inputPort
  | inputHold
  | outputPort
  | outputHold
  deriving DecidableEq, Repr

instance : Fintype MppTaskStatus where
  elems := {.inputPort, .inputHold, .outputPort, .outputHold}
  complete s := by cases s <;> decide

inductive MppPortType
  | input
  | output
  deriving DecidableEq, Repr

structure MppPortImpl where
  type : MppPortType
  statusCurr : MppTaskStatus
  nextOnDequeue : MppTaskStatus
  nextOnEnqueue : MppTaskStatus
  deriving DecidableEq, Repr

/-- `mpp_port_init` -/
def mppPortInit : MppPortType → MppPortImpl
  | .input =>
    { type := .input, statusCurr := .inputPort, nextOnDequeue := .inputHold,
      nextOnEnqueue := .outputPort }
  | .output =>
    { type := .output, statusCurr := .outputPort, nextOnDequeue := .outputHold,
      nextOnEnqueue := .inputPort }

structure MppTaskImpl where
  index : ℤ
  status : MppTaskStatus
  deriving DecidableEq, Repr

structure MppTaskStatusInfo where
  list : List ℕ
  count : ℤ
  deriving DecidableEq, Repr

structure MppTaskQueueImpl where
  taskCount : ℤ
  ready : Bool
  /-- Where the array `tasks` starts, if there is one. -/
  tasks : Option ℕ
  heap : List MppTaskImpl
  info : MppTaskStatus → MppTaskStatusInfo

/-- The status of each task. -/
def MppTaskQueueImpl.status (queue : MppTaskQueueImpl) : ℕ → Option MppTaskStatus :=
  fun i => queue.heap[i]?.map MppTaskImpl.status

/-- `list_del_init` on the link of a task, whatever list it is in, and `curr->count--` -/
def leave (info : MppTaskStatus → MppTaskStatusInfo) (task : ℕ) (curr : MppTaskStatus) :
    MppTaskStatus → MppTaskStatusInfo :=
  fun s =>
    { list := (info s).list.erase task
      count := if s = curr then (info s).count - 1 else (info s).count }

/-- `list_add_tail` to the list of `next`, and `next->count++` -/
def enter (info : MppTaskStatus → MppTaskStatusInfo) (task : ℕ) (next : MppTaskStatus) :
    MppTaskStatus → MppTaskStatusInfo :=
  fun s =>
    if s = next then { list := (info s).list ++ [task], count := (info s).count + 1 } else info s

/-- `mpp_task_queue_init` -/
def mppTaskQueueInit : MppTaskQueueImpl :=
  { taskCount := 0, ready := false, tasks := none, heap := [],
    info := fun _ => { list := [], count := 0 } }

variable (queue : MppTaskQueueImpl)

/-- One turn of the loop of `mpp_task_queue_setup`. -/
def addTask (index : ℤ) : MppTaskQueueImpl :=
  { queue with
    heap := queue.heap ++ [{ index, status := .inputPort }]
    info := enter queue.info queue.heap.length .inputPort }

/-- The loop of `mpp_task_queue_setup`, with `n` tasks to go, the next one `index`. -/
def addTasks : ℕ → ℤ → MppTaskQueueImpl → MppTaskQueueImpl
  | 0, _, queue => queue
  | n + 1, index, queue => addTasks n (index + 1) (addTask queue index)

/-- `mpp_task_queue_setup`, where `calloc` is whether the tasks are allocated. -/
def mppTaskQueueSetup (taskCount : ℤ) (calloc : Bool) : MppRet × MppTaskQueueImpl :=
  -- a queue that is set up already fails two assertions here, and goes on
  if calloc then
    let queue := { queue with tasks := some queue.heap.length, taskCount }
    (mppOk, { addTasks taskCount.toNat 0 queue with ready := true })
  else
    (mppErrMalloc, queue)

/-- The task goes over to the end of the list of `next`, and `curr` counts one less. -/
def transfer (task : ℕ) (curr next : MppTaskStatus) : MppTaskQueueImpl :=
  { queue with
    heap := queue.heap.modify task fun t => { t with status := next }
    info := enter (leave queue.info task curr) task next }

/-- `_mpp_port_move`, for either port: the port only names the queue -/
def mppPortMove (task : ℕ) (status : MppTaskStatus) : Option (MppRet × MppTaskQueueImpl) :=
  if queue.ready then do
    let taskImpl ← queue.heap[task]?
    some (mppOk, transfer queue task taskImpl.status status)
  else
    some (mppNok, queue)

/-- `_mpp_port_dequeue`, with the task it hands out -/
def mppPortDequeue (port : MppPortType) : Option (MppRet × Option ℕ × MppTaskQueueImpl) :=
  let portImpl := mppPortInit port
  if queue.ready then
    let curr := queue.info portImpl.statusCurr
    if curr.count = 0 then
      some (mppNok, none, queue)
    else
      match curr.list with
      | [] => none
      | task :: _ =>
        some (mppOk, some task, transfer queue task portImpl.statusCurr portImpl.nextOnDequeue)
  else
    some (mppNok, none, queue)

/-- `_mpp_port_enqueue` -/
def mppPortEnqueue (port : MppPortType) (task : ℕ) : Option (MppRet × MppTaskQueueImpl) :=
  let portImpl := mppPortInit port
  if queue.ready then do
    let taskImpl ← queue.heap[task]?
    -- that the status is nextOnDequeue is asserted, and not tested
    some (mppOk, transfer queue task taskImpl.status portImpl.nextOnEnqueue)
  else
    some (mppNok, queue)

/-! ## Runs -/

/-- The operations on the queue, with what they are passed. -/
inductive TaskOp
  | setup (taskCount : ℤ) (calloc : Bool)
  | poll (port : MppPortType) (timeout : ℤ)
  | woken (port : MppPortType) (ret : MppRet)
  | move (task : ℕ) (status : MppTaskStatus)
  | dequeue (port : MppPortType)
  | enqueue (port : MppPortType) (task : ℕ)

/-- What is remembered of a run: each time a task is put into a list is stamped, and
    `received` has the stamps of the tasks handed out from a list, in turn. -/
structure TaskLog where
  clock : ℕ
  stamp : ℕ → ℕ
  received : MppTaskStatus → List ℕ

namespace TaskLog

def put (log : TaskLog) (task : ℕ) : TaskLog :=
  { log with clock := log.clock + 1, stamp := Function.update log.stamp task log.clock }

def receive (log : TaskLog) (s : MppTaskStatus) (task : ℕ) : TaskLog :=
  { log with received := Function.update log.received s (log.received s ++ [log.stamp task]) }

end TaskLog

/-- The queue with the log of its run. -/
structure TaskRun where
  queue : MppTaskQueueImpl
  log : TaskLog

/-- A queue just initialised. -/
def taskInit : TaskRun :=
  { queue := mppTaskQueueInit, log := { clock := 0, stamp := fun _ => 0, received := fun _ => [] } }

/-- One operation, with its entry in the log. -/
def taskStep (r : TaskRun) : TaskOp → Option TaskRun
  | .setup taskCount calloc =>
    -- as a size, a negative count is larger than any memory
    if calloc ∧ taskCount < 0 then none
    else
      let queue := (mppTaskQueueSetup r.queue taskCount calloc).2
      let added := List.range' r.queue.heap.length (queue.heap.length - r.queue.heap.length)
      some { queue, log := added.foldl TaskLog.put r.log }
  | .poll _ _ => some r
  | .woken _ _ => some r
  | .move task status =>
    (mppPortMove r.queue task status).map fun (ret, queue) =>
      { queue, log := if ret = mppOk then r.log.put task else r.log }
  | .dequeue port =>
    (mppPortDequeue r.queue port).map fun (_, task, queue) =>
      { queue
        log := task.elim r.log fun task =>
          (r.log.receive (mppPortInit port).statusCurr task).put task }
  | .enqueue port task =>
    (mppPortEnqueue r.queue port task).map fun (ret, queue) =>
      { queue, log := if ret = mppOk then r.log.put task else r.log }

/-- The runs of a task queue. -/
def taskMachine : Machine TaskRun TaskOp := .ofPartial taskInit taskStep

end Libmpp.Base
