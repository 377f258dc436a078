import Libmpp.Lib.Filing
import Libmpp.Lib.Machine

/-!
# The cluster scheduler

Nodes are run by the workers of a cluster (`mpp_cluster.c`). A trigger puts the task of an
idle node into the wait queue of its priority; a worker moves it to its own list and runs
it. The state of a node is a word that the threads load and compare-and-swap.

* A step is one statement of one thread that others can see: a load or a compare-and-swap
  of `node->state`, a lock or an unlock of a queue, a change of a list or of a count. Where
  a thread stands, with the locals it needs from there on, is its `ThreadPc` or `WorkerPc`.
* The nodes, the threads and the workers are of any types. The link `list_sched` of a task
  is in one list at most, and `list_del_init` takes it out of the one it is in.
* A `proc` that triggers a node does so as another thread would.
* Workers sleep and are woken. When they look for tasks is left open, so the signals
  to them are left out, as are the logs and the time statistics. The assertions report
  and go on.
-/

namespace Libmpp.Base

/-! ## Nodes, queues and workers -/

/-- `NODE_VALID` -/
def nodeValid : BitVec 32 := 0x00000001
/-- `NODE_IDLE` -/
def nodeIdle : BitVec 32 := 0x00000002
/-- `NODE_SIGNAL` -/
def nodeSignal : BitVec 32 := 0x00000004
/-- `NODE_WAIT` -/
def nodeWait : BitVec 32 := 0x00000008
/-- `NODE_RUN` -/
def nodeRun : BitVec 32 := 0x00000010

/-- `MAX_PRIORITY` -/
def maxPriority : ℕ := 1

theorem maxPriority_pos : 0 < maxPriority := by decide

abbrev Priority := Fin maxPriority

structure MppNodeImpl where
  state : BitVec 32
  priority : Priority
  attached : Bool
  semDetach : ℕ
  /-- `task.queue`, which is set when the node is attached -/
  queue : Option Priority
  deriving DecidableEq, Repr

/-- The lists a task may be linked in -/
inductive TaskList (ω : Type*)
  /-- The `list` of a queue -/
  | queue (i : Priority)
  /-- The `list_task` of a worker -/
  | work (w : ω)
  deriving DecidableEq

/-- The locals of `mpp_node_task_schedule_f`, and whether `mpp_node_task_detach` is the caller -/
structure Sched (ι : Type*) where
  node : ι
  queue : Priority
  detach : Bool
  deriving DecidableEq

/-- The statement a thread that uses nodes goes on with -/
inductive ThreadPc (ι : Type*)
  /-- The thread is in none of the functions. -/
  | out
  /-- `old_st = node->state` -/
  | load (c : Sched ι)
  /-- `MPP_BOOL_CAS(&node->state, old_st, new_st)` -/
  | cas (c : Sched ι) (old : BitVec 32)
  /-- `cluster_queue_lock(queue)` -/
  | lock (c : Sched ι)
  /-- `list_add_tail(&task->list_sched, &queue->list)` -/
  | add (c : Sched ι)
  /-- `queue->count++` -/
  | count (c : Sched ι)
  /-- `cluster_queue_unlock(queue)` -/
  | unlock (c : Sched ι)
  /-- `MPP_FETCH_AND(&node->state, ~NODE_VALID)` -/
  | fetchAnd (n : ι) (queue : Priority)
  /-- `sem_wait(&node->sem_detach)` -/
  | semWait (n : ι)
  deriving DecidableEq

/-- The statement a worker goes on with -/
inductive WorkerPc (ι : Type*)
  /-- `cluster_worker_get_task` is called. -/
  | top
  /-- `cluster_queue_lock(queue)` -/
  | lock (i : Priority) (count : ℤ)
  /-- `list_empty(&queue->list)`, and `list_del_init` of the first entry -/
  | first (i : Priority) (count : ℤ)
  /-- `cluster_queue_unlock(queue)` of an empty queue -/
  | empty (i : Priority) (count : ℤ)
  /-- `queue->count--` -/
  | uncount (i : Priority) (count : ℤ) (n : ι)
  /-- `old_st = node->state` -/
  | load (i : Priority) (count : ℤ) (n : ι)
  /-- `MPP_BOOL_CAS(&node->state, old_st, new_st)` -/
  | cas (i : Priority) (count : ℤ) (n : ι) (old : BitVec 32)
  /-- `list_add_tail(&task->list_sched, &p->list_task)` -/
  | add (i : Priority) (count : ℤ) (n : ι)
  /-- `p->work_count++`, `count++` -/
  | count (i : Priority) (count : ℤ)
  /-- `cluster_queue_unlock(queue)` after a task has been taken -/
  | unlock (i : Priority) (count : ℤ)
  /-- `list_empty(&p->list_task)`, and the call of the `proc` of the first entry -/
  | next
  /-- The `proc` of the node is being executed. -/
  | proc (n : ι)
  /-- `state = node->state` -/
  | test (n : ι)
  /-- `list_del_init` of a node that is not valid -/
  | drop (n : ι)
  /-- `node->attached = 0` -/
  | unattach (n : ι)
  /-- `sem_post(&node->sem_detach)` -/
  | semPost (n : ι)
  /-- `list_del_init` of a node with a signal -/
  | unlink (n : ι) (queue : Priority) (state : BitVec 32)
  /-- `MPP_BOOL_CAS(&node->state, old_st, new_st)` back to wait -/
  | recas (n : ι) (queue : Priority) (state : BitVec 32)
  /-- `cluster_queue_lock(queue)` -/
  | relock (n : ι) (queue : Priority)
  /-- `list_add_tail(&task->list_sched, &queue->list)` -/
  | readd (n : ι) (queue : Priority)
  /-- `queue->count++` -/
  | recount (queue : Priority)
  /-- `cluster_queue_unlock(queue)` -/
  | reunlock (queue : Priority)
  /-- `list_del_init` of a node that has nothing more to do -/
  | rest (n : ι)
  /-- `old_st = node->state` -/
  | restLoad (n : ι)
  /-- `MPP_BOOL_CAS(&node->state, old_st, new_st)` to idle -/
  | restCas (n : ι) (old : BitVec 32)
  /-- `p->work_count--` -/
  | finish
  deriving DecidableEq

structure ClusterQueue (γ : Type*) where
  /-- Who holds `lock` -/
  lock : Option γ
  count : ℤ

structure ClusterWorker (ι : Type*) where
  batchCount : ℤ
  workCount : ℤ
  pc : WorkerPc ι

/-- The nodes `ι`, the threads `τ` that use them and the workers `ω` -/
structure MppCluster (ι τ ω : Type*) where
  node : ι → MppNodeImpl
  queue : Priority → ClusterQueue (τ ⊕ ω)
  worker : ω → ClusterWorker ι
  thread : τ → ThreadPc ι
  /-- What is linked in each list -/
  list : TaskList ω → List ι

variable {ι τ ω : Type*} [DecidableEq ι] [DecidableEq τ] [DecidableEq ω]

/-! ## Threads -/

/-- What follows a call of `mpp_node_task_schedule_f`. -/
def Sched.ret (c : Sched ι) : ThreadPc ι :=
  if c.detach then .semWait c.node else .out

namespace MppCluster

/-- A thread goes on at `pc`. -/
def goto (s : MppCluster ι τ ω) (t : τ) (pc : ThreadPc ι) : MppCluster ι τ ω :=
  { s with thread := Function.update s.thread t pc }

/-- The state word of a node becomes `state`. -/
def store (s : MppCluster ι τ ω) (n : ι) (state : BitVec 32) : MppCluster ι τ ω :=
  { s with node := Function.update s.node n { s.node n with state } }

/-- `cluster_queue_lock`, which waits while the lock is held -/
def lockQueue (s : MppCluster ι τ ω) (i : Priority) (g : τ ⊕ ω) : Option (MppCluster ι τ ω) :=
  if (s.queue i).lock = none then
    some { s with queue := Function.update s.queue i { s.queue i with lock := some g } }
  else
    none

/-- `cluster_queue_unlock` -/
def unlockQueue (s : MppCluster ι τ ω) (i : Priority) : MppCluster ι τ ω :=
  { s with queue := Function.update s.queue i { s.queue i with lock := none } }

/-- `queue->count` changes by `d`. -/
def addCount (s : MppCluster ι τ ω) (i : Priority) (d : ℤ) : MppCluster ι τ ω :=
  { s with
    queue := Function.update s.queue i { s.queue i with count := (s.queue i).count + d } }

/-- `list_add_tail` -/
def addTail (s : MppCluster ι τ ω) (n : ι) (l : TaskList ω) : MppCluster ι τ ω :=
  { s with list := file n l s.list }

/-- `list_del_init` -/
def delInit (s : MppCluster ι τ ω) (n : ι) : MppCluster ι τ ω :=
  { s with list := unfile n s.list }

/-- `mpp_node_attach` up to its call of `mpp_node_task_schedule_f`; nodes are attached when
    they are not, and no other thread uses one meanwhile -/
def attach (s : MppCluster ι τ ω) (t : τ) (n : ι) : Option (MppCluster ι τ ω) :=
  let node := s.node n
  if s.thread t = .out ∧ node.attached = false then
    some { s.goto t (.load { node := n, queue := node.priority, detach := false }) with
      node := Function.update s.node n
        { node with
          state := nodeValid ||| nodeIdle
          attached := true
          queue := some node.priority } }
  else
    none

/-- `mpp_node_trigger_f` is called, on a node that has a queue. -/
def trigger (s : MppCluster ι τ ω) (t : τ) (n : ι) : Option (MppCluster ι τ ω) :=
  if s.thread t = .out then
    (s.node n).queue.map fun queue => s.goto t (.load { node := n, queue, detach := false })
  else
    none

/-- `mpp_node_detach` is called, on a node that is attached (else it returns at once). -/
def detach (s : MppCluster ι τ ω) (t : τ) (n : ι) : Option (MppCluster ι τ ω) :=
  if s.thread t = .out ∧ (s.node n).attached then
    (s.node n).queue.map fun queue => s.goto t (.fetchAnd n queue)
  else
    none

/-- The next statement of a thread, in `mpp_node_task_schedule_f` and `mpp_node_task_detach` -/
def threadStep (s : MppCluster ι τ ω) (t : τ) : Option (MppCluster ι τ ω) :=
  match s.thread t with
  | .out => none
  | .load c =>
    let old := (s.node c.node).state
    if old &&& nodeWait ≠ 0 then some (s.goto t c.ret) else some (s.goto t (.cas c old))
  | .cas c old =>
    if (s.node c.node).state = old then
      if old &&& nodeIdle ≠ 0 then
        some ((s.store c.node (old ^^^ (nodeIdle ||| nodeWait))).goto t (.lock c))
      else if old &&& nodeRun ≠ 0 then
        some ((s.store c.node (old ||| nodeSignal)).goto t c.ret)
      else
        some ((s.store c.node 0).goto t c.ret)
    else
      some (s.goto t (.load c))
  | .lock c => (s.lockQueue c.queue (.inl t)).map (·.goto t (.add c))
  | .add c => some ((s.addTail c.node (.queue c.queue)).goto t (.count c))
  | .count c => some ((s.addCount c.queue 1).goto t (.unlock c))
  | .unlock c => some ((s.unlockQueue c.queue).goto t c.ret)
  | .fetchAnd n queue =>
    some ((s.store n ((s.node n).state &&& ~~~nodeValid)).goto t
      (.load { node := n, queue, detach := true }))
  | .semWait n =>
    if 0 < (s.node n).semDetach then
      some { s.goto t .out with
        node := Function.update s.node n { s.node n with semDetach := (s.node n).semDetach - 1 } }
    else
      none

/-! ## Workers -/

/-- A worker goes on at `pc`. -/
def turn (s : MppCluster ι τ ω) (w : ω) (pc : WorkerPc ι) : MppCluster ι τ ω :=
  { s with worker := Function.update s.worker w { s.worker w with pc } }

/-- `p->work_count` changes by `d`. -/
def addWork (s : MppCluster ι τ ω) (w : ω) (d : ℤ) : MppCluster ι τ ω :=
  { s with
    worker := Function.update s.worker w
      { s.worker w with workCount := (s.worker w).workCount + d } }

/-- After the tasks of queue `i`: `cluster_worker_get_task` goes on to the next queue, or
    returns. -/
def nextQueue (batchCount : ℤ) (i : Priority) (count : ℤ) : WorkerPc ι :=
  if count ≥ batchCount then .next
  else if h : i.1 + 1 < maxPriority then .lock ⟨i.1 + 1, h⟩ count
  else .next

/-- The next statement of a worker, in `cluster_worker_get_task` and `cluster_worker_run_task` -/
def workerStep (s : MppCluster ι τ ω) (w : ω) : Option (MppCluster ι τ ω) :=
  let batchCount := (s.worker w).batchCount
  match (s.worker w).pc with
  | .top => some (s.turn w (.lock ⟨0, by decide⟩ 0))
  | .lock i count => (s.lockQueue i (.inr w)).map (·.turn w (.first i count))
  | .first i count =>
    match s.list (.queue i) with
    | [] => some (s.turn w (.empty i count))
    | n :: _ => some ((s.delInit n).turn w (.uncount i count n))
  | .empty i count => some ((s.unlockQueue i).turn w (nextQueue batchCount i count))
  | .uncount i count n => some ((s.addCount i (-1)).turn w (.load i count n))
  | .load i count n => some (s.turn w (.cas i count n (s.node n).state))
  | .cas i count n old =>
    if (s.node n).state = old then
      some ((s.store n (old ^^^ (nodeWait ||| nodeRun))).turn w (.add i count n))
    else
      some (s.turn w (.load i count n))
  | .add i count n => some ((s.addTail n (.work w)).turn w (.count i count))
  | .count i count => some ((s.addWork w 1).turn w (.unlock i (count + 1)))
  | .unlock i count =>
    some ((s.unlockQueue i).turn w (if count ≥ batchCount then .next else .lock i count))
  | .next =>
    match s.list (.work w) with
    | [] => some (s.turn w .top)
    | n :: _ => some (s.turn w (.proc n))
  | .proc n => some (s.turn w (.test n))
  | .test n =>
    let state := (s.node n).state
    if state &&& nodeValid = 0 then some (s.turn w (.drop n))
    else if state &&& nodeSignal ≠ 0 then
      (s.node n).queue.map fun queue => s.turn w (.unlink n queue state)
    else some (s.turn w (.rest n))
  | .drop n => some ((s.delInit n).turn w (.unattach n))
  | .unattach n =>
    some { s.turn w (.semPost n) with
      node := Function.update s.node n { s.node n with attached := false } }
  | .semPost n =>
    some { s.turn w .finish with
      node := Function.update s.node n { s.node n with semDetach := (s.node n).semDetach + 1 } }
  | .unlink n queue state => some ((s.delInit n).turn w (.recas n queue state))
  | .recas n queue state =>
    -- `old_st` is the state loaded after the call of `proc`, at every try
    if (s.node n).state = state then
      some ((s.store n (state ^^^ (nodeSignal ||| nodeWait ||| nodeRun))).turn w
        (.relock n queue))
    else
      some (s.turn w (.recas n queue state))
  | .relock n queue => (s.lockQueue queue (.inr w)).map (·.turn w (.readd n queue))
  | .readd n queue => some ((s.addTail n (.queue queue)).turn w (.recount queue))
  | .recount queue => some ((s.addCount queue 1).turn w (.reunlock queue))
  | .reunlock queue => some ((s.unlockQueue queue).turn w .finish)
  | .rest n => some ((s.delInit n).turn w (.restLoad n))
  | .restLoad n => some (s.turn w (.restCas n (s.node n).state))
  | .restCas n old =>
    if (s.node n).state = old then
      some ((s.store n (old ^^^ (nodeIdle ||| nodeRun))).turn w .finish)
    else
      some (s.turn w (.restLoad n))
  | .finish => some ((s.addWork w (-1)).turn w .next)

end MppCluster

/-! ## Runs -/

/-- What happens next: a thread calls a function of the interface, or somebody goes on. -/
inductive ClusterOp (ι τ ω : Type*)
  | attach (t : τ) (n : ι)
  | trigger (t : τ) (n : ι)
  | detach (t : τ) (n : ι)
  | thread (t : τ)
  | worker (w : ω)
  deriving DecidableEq

/-- Who takes the step -/
def ClusterOp.actor : ClusterOp ι τ ω → τ ⊕ ω
  | .attach t _ | .trigger t _ | .detach t _ | .thread t => .inl t
  | .worker w => .inr w

def MppCluster.step (s : MppCluster ι τ ω) : ClusterOp ι τ ω → Option (MppCluster ι τ ω)
  | .attach t n => s.attach t n
  | .trigger t n => s.trigger t n
  | .detach t n => s.detach t n
  | .thread t => s.threadStep t
  | .worker w => s.workerStep w

/-- A node after `mpp_node_init`, which clears it -/
def mppNodeInit (priority : Priority) : MppNodeImpl :=
  { state := 0, priority, attached := false, semDetach := 0, queue := none }

/-- The cluster before anything has happened: nodes that have not been attached, empty
    queues, and workers with any batch counts -/
def clusterInit (priority : ι → Priority) (batchCount : ω → ℤ) : MppCluster ι τ ω where
  node n := mppNodeInit (priority n)
  queue _ := { lock := none, count := 0 }
  worker w := { batchCount := batchCount w, workCount := 0, pc := .top }
  thread _ := .out
  list _ := []

/-- The runs of a cluster -/
def clusterRun (priority : ι → Priority) (batchCount : ω → ℤ) :
    Machine (MppCluster ι τ ω) (ClusterOp ι τ ω) :=
  .ofPartial (clusterInit priority batchCount) MppCluster.step

end Libmpp.Base
