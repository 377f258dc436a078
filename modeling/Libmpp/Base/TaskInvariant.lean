import Libmpp.Base.Task

/-!
# Tasks in exactly one list

The four lists of a task queue, the status of each task and the counts of the lists
agree in every run in which the queue is set up once (`reachable_taskInv`). An operation
that the queue ought to refuse (`Refused`) changes nothing, but for one: enqueue asserts
that the task is held at its port, and goes on without (`reachable_partitioned`).
-/

namespace Libmpp.Base

open Function List Option

/-! ## The lists -/

section Lists

variable {info : MppTaskStatus → MppTaskStatusInfo} {cls : ℕ → Option MppTaskStatus}
  {task : ℕ} {curr : MppTaskStatus}

/-- The links of the four lists. -/
abbrev lists (info : MppTaskStatus → MppTaskStatusInfo) : MppTaskStatus → List ℕ :=
  fun s => (info s).list

/-- The lists hold the tasks by their status, and the counts are their lengths. -/
structure Counted (info : MppTaskStatus → MppTaskStatusInfo) (cls : ℕ → Option MppTaskStatus) :
    Prop where
  filed : Filed (lists info) cls
  count : ∀ s, (info s).count = (info s).list.length

theorem lists_enter (info : MppTaskStatus → MppTaskStatusInfo) (task : ℕ) (next : MppTaskStatus) :
    lists (enter info task next) = file task next (lists info) := by
  funext s
  rw [lists, enter, file]
  split_ifs with hs
  · rw [hs]
  · rfl

theorem Counted.leave (h : Counted info cls) (hcurr : cls task = some curr) :
    Counted (leave info task curr) (update cls task none) where
  filed := h.filed.unfile task
  count s := by
    rw [Base.leave]
    dsimp only
    split_ifs with hs
    · subst hs
      have hlen : ((info s).list.erase task).length + 1 = (info s).list.length :=
        h.filed.length_unfile hcurr
      rw [h.count, ← hlen]
      simp
    · have hsame : (info s).list.erase task = (info s).list :=
        h.filed.unfile_of_ne fun hne => hs (some.inj (hne.symm.trans hcurr))
      rw [hsame, h.count]

theorem Counted.enter (h : Counted info cls) (htask : cls task = none) (next : MppTaskStatus) :
    Counted (enter info task next) (update cls task (some next)) where
  filed := by
    rw [lists_enter]
    exact h.filed.file htask next
  count s := by
    rw [Base.enter]
    split_ifs
    · simp [h.count]
    · exact h.count s

theorem Counted.not_mem (h : Counted info cls) (htask : cls task = none) (s : MppTaskStatus) :
    task ∉ lists info s := by
  rw [h.filed.mem_iff, htask]
  simp

end Lists

/-! ## The queue -/

section Queue

variable {queue : MppTaskQueueImpl} {log : TaskLog} {task : ℕ} {curr next : MppTaskStatus}

/-- What is received from a list and what waits in it are in the order of the log. -/
abbrev Logged (lists : MppTaskStatus → List ℕ) (log : TaskLog) : Prop :=
  Served lists log.stamp log.clock log.received

theorem status_length (queue : MppTaskQueueImpl) : queue.status queue.heap.length = none := by
  simp [MppTaskQueueImpl.status]

theorem status_addTask (queue : MppTaskQueueImpl) (index : ℤ) :
    (addTask queue index).status =
      update queue.status queue.heap.length (some .inputPort) := by
  funext i
  rw [update_apply, MppTaskQueueImpl.status, MppTaskQueueImpl.status]
  simp only [addTask]
  split_ifs with hi
  · simp [hi]
  · rcases Nat.lt_or_gt_of_ne hi with hlt | hgt
    · rw [getElem?_append_left hlt]
    · rw [getElem?_eq_none (by simpa using hgt), getElem?_eq_none hgt.le]

/-- The loop of setup: it appends the tasks, and puts each in turn into the list. -/
theorem addTasks_spec (n : ℕ) (index : ℤ) (hc : Counted queue.info queue.status)
    (h : Logged (lists queue.info) log) :
    Counted (addTasks n index queue).info (addTasks n index queue).status ∧
      Logged (lists (addTasks n index queue).info)
        ((List.range' queue.heap.length n).foldl TaskLog.put log) ∧
      (addTasks n index queue).heap.length = queue.heap.length + n ∧
      (addTasks n index queue).taskCount = queue.taskCount ∧
      (addTasks n index queue).tasks = queue.tasks := by
  induction n generalizing index queue log with
  | zero => exact ⟨hc, h, rfl, rfl, rfl⟩
  | succ n ih =>
    have hlen : (addTask queue index).heap.length = queue.heap.length + 1 := by
      simp [addTask]
    have hcounted : Counted (addTask queue index).info (addTask queue index).status := by
      rw [status_addTask]
      exact hc.enter (status_length queue) .inputPort
    have hlogged : Logged (lists (addTask queue index).info) (log.put queue.heap.length) := by
      rw [addTask, lists_enter]
      exact h.file (hc.not_mem (status_length queue)) .inputPort
    obtain ⟨hcounted, hlogged, hlength, hcount, htasks⟩ := ih (index + 1) hcounted hlogged
    rw [hlen] at hlogged hlength
    refine ⟨hcounted, hlogged, ?_, hcount, htasks⟩
    rw [addTasks, hlength]
    omega

theorem status_transfer {t : MppTaskImpl} (ht : queue.heap[task]? = some t) :
    (transfer queue task curr next).status =
      update (update queue.status task none) task (some next) := by
  funext i
  rw [update_idem, update_apply, MppTaskQueueImpl.status,
    MppTaskQueueImpl.status]
  simp only [transfer]
  split_ifs with hi
  · simp [hi, ht]
  · simp [Ne.symm hi]

theorem Counted.transfer {t : MppTaskImpl} (h : Counted queue.info queue.status)
    (ht : queue.heap[task]? = some t) (next : MppTaskStatus) :
    Counted (transfer queue task t.status next).info (transfer queue task t.status next).status := by
  have hcurr : queue.status task = some t.status := by simp [MppTaskQueueImpl.status, ht]
  rw [status_transfer ht]
  exact (h.leave hcurr).enter (update_self _ _ _) next

theorem Logged.transfer (hc : Counted queue.info queue.status)
    (h : Served (unfile task (lists queue.info)) log.stamp log.clock log.received)
    (curr next : MppTaskStatus) :
    Logged (lists (transfer queue task curr next).info) (log.put task) := by
  have hnot : ∀ s, task ∉ unfile task (lists queue.info) s := fun s => by
    rw [(hc.filed.unfile task).mem_iff, update_self]
    simp
  rw [Base.transfer, lists_enter]
  exact h.file hnot next

end Queue

/-! ## Runs -/

/-- The invariant of a run. -/
structure TaskInv (r : TaskRun) : Prop where
  counted : Counted r.queue.info r.queue.status
  logged : Logged (lists r.queue.info) r.log
  total : r.queue.taskCount = r.queue.heap.length
  fresh : r.queue.tasks = none → r.queue.heap = []

/-- The tasks are set up once, as an assertion in `mpp_task_queue_setup` has it. -/
def SetupOnce (r : TaskRun) (op : TaskOp) (_ : TaskRun) : Prop :=
  match op with
  | .setup _ true => r.queue.tasks = none
  | _ => True

variable {r r' : TaskRun} {task : ℕ}

theorem taskInv_init : TaskInv taskInit where
  counted :=
    { filed := Filed.empty
      count := fun _ => rfl }
  logged := Served.empty
  total := rfl
  fresh _ := rfl

/-- The first setup, which finds no tasks. -/
theorem TaskInv.setup {taskCount : ℤ} (h : TaskInv r) (hnone : r.queue.tasks = none)
    (hpos : 0 ≤ taskCount) (hst : taskStep r (.setup taskCount true) = some r') : TaskInv r' := by
  rw [taskStep, if_neg (by simpa using hpos)] at hst
  obtain rfl := some.inj hst
  have hheap : r.queue.heap.length = 0 := by rw [h.fresh hnone, length_nil]
  have hspec := @addTasks_spec { r.queue with tasks := some r.queue.heap.length, taskCount } r.log
    taskCount.toNat 0 h.counted h.logged
  obtain ⟨hcounted, hlogged, hlength, hcount, htasks⟩ := hspec
  constructor
  · exact hcounted
  · have hadded : (mppTaskQueueSetup r.queue taskCount true).2.heap.length - r.queue.heap.length =
        taskCount.toNat := by
      rw [mppTaskQueueSetup, if_pos rfl]
      dsimp only
      rw [hlength]
      simp
    dsimp only
    rw [hadded]
    exact hlogged
  · refine hcount.trans ?_
    have hlen : (mppTaskQueueSetup r.queue taskCount true).2.heap.length = taskCount.toNat := by
      rw [mppTaskQueueSetup, if_pos rfl]
      dsimp only
      rw [hlength, hheap, Nat.zero_add]
    rw [hlen, Int.toNat_of_nonneg hpos]
  · intro hn
    exact absurd (htasks.symm.trans hn) (by simp)

/-- A task goes over from the list its status names. -/
theorem TaskInv.transfer {t : MppTaskImpl} (h : TaskInv r) (ht : r.queue.heap[task]? = some t)
    (next : MppTaskStatus) {log : TaskLog}
    (hlog : Served (unfile task (lists r.queue.info)) log.stamp log.clock log.received) :
    TaskInv { queue := transfer r.queue task t.status next, log := log.put task } where
  counted := h.counted.transfer ht next
  logged := Logged.transfer h.counted hlog t.status next
  total := h.total.trans (by simp [Base.transfer])
  fresh hnone := by
    have := h.fresh hnone
    simp [this] at ht

theorem TaskInv.move {status : MppTaskStatus} (h : TaskInv r)
    (hst : taskStep r (.move task status) = some r') : TaskInv r' := by
  rw [taskStep, mppPortMove] at hst
  split_ifs at hst with hready
  · obtain ⟨⟨ret, queue⟩, hq, rfl⟩ := map_eq_some_iff.1 hst
    obtain ⟨t, ht, hq⟩ := bind_eq_some_iff.1 hq
    obtain ⟨rfl, rfl⟩ := Prod.mk.inj (some.inj hq)
    exact h.transfer ht status (h.logged.unfile task)
  · obtain rfl := some.inj hst
    exact h

theorem TaskInv.enqueue {port : MppPortType} (h : TaskInv r)
    (hst : taskStep r (.enqueue port task) = some r') : TaskInv r' := by
  rw [taskStep, mppPortEnqueue] at hst
  dsimp only at hst
  split_ifs at hst with hready
  · obtain ⟨⟨ret, queue⟩, hq, rfl⟩ := map_eq_some_iff.1 hst
    obtain ⟨t, ht, hq⟩ := bind_eq_some_iff.1 hq
    obtain ⟨rfl, rfl⟩ := Prod.mk.inj (some.inj hq)
    exact h.transfer ht _ (h.logged.unfile task)
  · obtain rfl := some.inj hst
    exact h

/-- The first task of a list is there, with the status of the list. -/
theorem Counted.head {queue : MppTaskQueueImpl} {s : MppTaskStatus} {l : List ℕ}
    (h : Counted queue.info queue.status) (hl : (queue.info s).list = task :: l) :
    ∃ t, queue.heap[task]? = some t ∧ t.status = s := by
  have hmem : task ∈ lists queue.info s := by
    rw [lists, hl]
    exact mem_cons_self
  exact map_eq_some_iff.1 ((h.filed.mem_iff _ _).1 hmem)

theorem TaskInv.dequeue {port : MppPortType} (h : TaskInv r)
    (hst : taskStep r (.dequeue port) = some r') : TaskInv r' := by
  rw [taskStep, mppPortDequeue] at hst
  dsimp only at hst
  split_ifs at hst with hready hcount
  · obtain rfl := some.inj hst
    exact h
  · cases hl : (r.queue.info (mppPortInit port).statusCurr).list with
    | nil =>
      rw [hl] at hst
      exact absurd hst (by simp)
    | cons task l =>
      rw [hl] at hst
      obtain rfl := some.inj hst
      obtain ⟨t, ht, hts⟩ := h.counted.head hl
      rw [← hts]
      exact h.transfer ht _ (h.logged.serve (by rw [hts]; exact hl))
  · obtain rfl := some.inj hst
    exact h

theorem taskInv_step {op : TaskOp} (h : TaskInv r) (hst : taskStep r op = some r')
    (hg : SetupOnce r op r') : TaskInv r' := by
  cases op with
  | setup taskCount calloc =>
    cases calloc with
    | false =>
      obtain rfl := some.inj hst
      simpa [mppTaskQueueSetup] using h
    | true =>
      by_cases hneg : taskCount < 0
      · simp [taskStep, hneg] at hst
      · exact h.setup hg (not_lt.1 hneg) hst
  | poll port timeout =>
    obtain rfl := some.inj hst
    exact h
  | woken port ret =>
    obtain rfl := some.inj hst
    exact h
  | move task status => exact h.move hst
  | dequeue port => exact h.dequeue hst
  | enqueue port task => exact h.enqueue hst

theorem reachable_taskInv (hr : (taskMachine.guarded SetupOnce).Reachable r) : TaskInv r := by
  refine hr.invariant (P := TaskInv) (fun s hs => ?_) fun s op s' _ hi hst => ?_
  · obtain rfl : s = taskInit := hs
    exact taskInv_init
  · exact taskInv_step hi hst.1 hst.2

/-! ## What a run keeps -/

/-- Each task is in one list, the one its status names, and there only once; there are no
    other tasks, and the counts are right. -/
structure Partitioned (queue : MppTaskQueueImpl) : Prop where
  inOne : ∀ task : ℕ, (task : ℤ) < queue.taskCount → ∃ t, queue.heap[task]? = some t ∧
    ∀ s, (queue.info s).list.count task = if s = t.status then 1 else 0
  only : ∀ s, ∀ task ∈ (queue.info s).list, (task : ℤ) < queue.taskCount
  count : ∀ s, (queue.info s).count = (queue.info s).list.length
  total : ∑ s, (queue.info s).count = queue.taskCount

/-- The tasks a port has received, then those that wait for it, are in the order in which
    they were put into its list. -/
def ReceivesInOrder (r : TaskRun) (port : MppPortType) : Prop :=
  let s := (mppPortInit port).statusCurr
  (r.log.received s ++ (r.queue.info s).list.map r.log.stamp).Pairwise (· < ·)

/-- The operation ought to be refused: the queue is not set up, the list is empty, the
    task is not held at the port, or there is no memory. -/
def Refused (queue : MppTaskQueueImpl) : TaskOp → Prop
  | .setup _ calloc => calloc = false
  | .poll port _ => queue.ready = false ∨ (queue.info (mppPortInit port).statusCurr).list = []
  | .woken port _ => queue.ready = false ∨ (queue.info (mppPortInit port).statusCurr).list = []
  | .move _ _ => queue.ready = false
  | .dequeue port => queue.ready = false ∨ (queue.info (mppPortInit port).statusCurr).list = []
  | .enqueue port task => queue.ready = false ∨
      ∃ t, queue.heap[task]? = some t ∧ t.status ≠ (mppPortInit port).nextOnDequeue

/-- The operation is an enqueue, with the queue ready, of a task not held at the port. -/
def EnqueueUnheld (queue : MppTaskQueueImpl) : TaskOp → Prop
  | .enqueue port task => queue.ready ∧
      ∃ t, queue.heap[task]? = some t ∧ t.status ≠ (mppPortInit port).nextOnDequeue
  | _ => False

theorem TaskInv.partitioned (h : TaskInv r) : Partitioned r.queue where
  inOne task htask := by
    rw [h.total, Nat.cast_lt] at htask
    refine ⟨r.queue.heap[task], getElem?_eq_getElem htask, fun s => ?_⟩
    have hstatus : r.queue.status task = some r.queue.heap[task].status := by
      rw [MppTaskQueueImpl.status, getElem?_eq_getElem htask, map_some]
    have hmem : task ∈ (r.queue.info s).list ↔ s = r.queue.heap[task].status := by
      refine (h.counted.filed.mem_iff task s).trans ?_
      rw [hstatus, some_inj, eq_comm]
    split_ifs with hs
    · exact count_eq_one_of_mem (h.counted.filed.nodup s) (hmem.2 hs)
    · exact count_eq_zero.2 fun hin => hs (hmem.1 hin)
  only s task htask := by
    rw [h.total, Nat.cast_lt]
    have hstatus := (h.counted.filed.mem_iff task s).1 htask
    obtain ⟨t, ht, -⟩ := map_eq_some_iff.1 hstatus
    exact (List.getElem?_eq_some_iff.1 ht).1
  count := h.counted.count
  total := by
    have hsum : ∑ s, (lists r.queue.info s).length = (Finset.range r.queue.heap.length).card :=
      h.counted.filed.sum_length fun i => by simp [MppTaskQueueImpl.status]
    rw [Finset.card_range] at hsum
    rw [h.total, ← hsum, Nat.cast_sum]
    exact Finset.sum_congr rfl fun s _ => h.counted.count s

theorem TaskInv.refused_iff {op : TaskOp} (h : TaskInv r) (hop : Refused r.queue op) :
    taskStep r op = some r ↔ ¬ EnqueueUnheld r.queue op := by
  have hempty : ∀ {s}, (r.queue.info s).list = [] → (r.queue.info s).count = 0 := fun hl => by
    rw [h.counted.count, hl]
    rfl
  cases op with
  | setup taskCount calloc =>
    obtain rfl : calloc = false := hop
    simp [taskStep, mppTaskQueueSetup, EnqueueUnheld]
  | poll port timeout => simp [taskStep, EnqueueUnheld]
  | woken port ret => simp [taskStep, EnqueueUnheld]
  | move task status =>
    have hready : r.queue.ready = false := hop
    simp [taskStep, mppPortMove, hready, EnqueueUnheld]
  | dequeue port =>
    rcases hop with hready | hl
    · simp [taskStep, mppPortDequeue, hready, EnqueueUnheld]
    · simp [taskStep, mppPortDequeue, hempty hl, EnqueueUnheld]
  | enqueue port task =>
    cases hready : r.queue.ready with
    | false => simp [taskStep, mppPortEnqueue, hready, EnqueueUnheld]
    | true =>
      obtain hnot | ⟨t, ht, hne⟩ := hop
      · exact absurd (hnot.symm.trans hready) (by simp)
      · refine iff_of_false (fun hst => ?_) (not_not_intro ⟨hready, t, ht, hne⟩)
        -- the task is put into a list, which counts in the log
        simp only [taskStep, mppPortEnqueue, hready, ht, if_pos, bind_eq_bind,
          bind_some, map_some] at hst
        have hclock := congrArg (fun r : TaskRun => r.log.clock) (some.inj hst)
        exact absurd hclock (Nat.succ_ne_self _)

/-- In every run with one setup: each task is in the one list its status names, the counts
    agree, a port receives the tasks in the order in which they were put into its list, and
    what ought to be refused changes nothing, unless it is an enqueue of a task not held. -/
theorem reachable_partitioned (hr : (taskMachine.guarded SetupOnce).Reachable r) :
    Partitioned r.queue ∧ (∀ port, ReceivesInOrder r port) ∧
      ∀ op, Refused r.queue op → (taskStep r op = some r ↔ ¬ EnqueueUnheld r.queue op) :=
  have h := reachable_taskInv hr
  ⟨h.partitioned, fun _ => h.logged.sorted _, fun _ hop => h.refused_iff hop⟩

instance (r : TaskRun) (op : TaskOp) (r' : TaskRun) : Decidable (SetupOnce r op r') :=
  match op with
  | .setup _ true => inferInstanceAs (Decidable (_ = _))
  | .setup _ false => isTrue trivial
  | .poll _ _ => isTrue trivial
  | .woken _ _ => isTrue trivial
  | .move _ _ => isTrue trivial
  | .dequeue _ => isTrue trivial
  | .enqueue _ _ => isTrue trivial

/-- Two tasks, the first of which is enqueued at the input port and taken at the output
    port: a further dequeue of the output port is refused. -/
theorem reachable_partitioned_two : ∃ r, Refused r.queue (.dequeue .output) ∧
    Partitioned r.queue ∧ (∀ port, ReceivesInOrder r port) ∧
      ∀ op, Refused r.queue op → (taskStep r op = some r ↔ ¬ EnqueueUnheld r.queue op) := by
  have hrun : ((Machine.run taskStep SetupOnce taskInit
      [.setup 2 true, .dequeue .input, .enqueue .input 0, .dequeue .output]).any fun r =>
        decide ((r.queue.info .outputPort).list = [])) = true := by
    decide
  obtain ⟨r, hr, hv⟩ := (any_eq_true _ _).1 hrun
  exact ⟨r, .inr (of_decide_eq_true hv), reachable_partitioned (Machine.Reachable.run (.init rfl) hr)⟩

/-- The user enqueues a task a second time, while the other side holds it. The enqueue
    returns `MPP_OK`, and the task is to be dequeued at the output port once more. -/
theorem enqueue_held_elsewhere : ∃ r queue, (taskMachine.guarded SetupOnce).Reachable r ∧
    Refused r.queue (.enqueue .input 0) ∧
      mppPortEnqueue r.queue .input 0 = some (mppOk, queue) ∧
      r.queue.status 0 = some .outputHold ∧ queue.status 0 = some .outputPort := by
  have hrun : ((Machine.run taskStep SetupOnce taskInit
      [.setup 1 true, .dequeue .input, .enqueue .input 0, .dequeue .output]).any fun r =>
        decide (r.queue.status 0 = some .outputHold) &&
          (mppPortEnqueue r.queue .input 0).any fun p =>
            decide (p.1 = mppOk ∧ p.2.status 0 = some .outputPort)) = true := by
    decide
  obtain ⟨r, hr, hv⟩ := (any_eq_true _ _).1 hrun
  rw [Bool.and_eq_true, decide_eq_true_eq] at hv
  obtain ⟨hheld, hv⟩ := hv
  obtain ⟨⟨ret, queue⟩, hq, hv⟩ := (any_eq_true _ _).1 hv
  obtain ⟨rfl, hport⟩ := of_decide_eq_true hv
  obtain ⟨t, ht, hstatus⟩ := map_eq_some_iff.1 hheld
  refine ⟨r, queue, Machine.Reachable.run (.init rfl) hr, .inr ⟨t, ht, ?_⟩, hq, hheld, hport⟩
  rw [hstatus]
  decide

end Libmpp.Base
