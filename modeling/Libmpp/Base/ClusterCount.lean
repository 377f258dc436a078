import Libmpp.Base.ClusterInvariant
import Libmpp.Lib.Locks

/-!
# The counts of a cluster

The count of a queue is the length of its list, but for who holds its lock and has changed
one of them only (`QueuesCounted`). A worker counts the tasks it has taken; it counts one
less between linking and counting it, and one more from where the task is unlinked to where
its run is finished (`WorksCounted`).

* Both are kept by every step, next to the places of the tasks (`reachable_counted`).
* `cluster_exclusive`: what holds of the nodes, the lists and the counts at every moment.
-/

namespace Libmpp.Base

open Function Option

section

variable {ι τ ω : Type*}

/-- The queue whose lock a thread holds -/
def ThreadPc.inside : ThreadPc ι → Option Priority
  | .add c | .count c | .unlock c => some c.queue
  | _ => none

/-- The queue whose lock a worker holds -/
def WorkerPc.inside : WorkerPc ι → Option Priority
  | .first i _ | .empty i _ | .uncount i _ _ | .load i _ _ | .cas i _ _ _ | .add i _ _
  | .count i _ | .unlock i _ => some i
  | .readd _ queue | .recount queue | .reunlock queue => some queue
  | _ => none

/-- How far the count of the queue is ahead of its list -/
def ThreadPc.lag : ThreadPc ι → ℤ
  | .count _ => -1
  | _ => 0

/-- How far the count of the queue is ahead of its list -/
def WorkerPc.lag : WorkerPc ι → ℤ
  | .uncount _ _ _ => 1
  | .recount _ => -1
  | _ => 0

/-- How far the work of a worker is ahead of its list -/
def WorkerPc.owed : WorkerPc ι → ℤ
  | .count _ _ => -1
  | .unattach _ | .semPost _ | .recas _ _ _ | .relock _ _ | .readd _ _ | .recount _ | .reunlock _
  | .restLoad _ | .restCas _ _ | .finish => 1
  | _ => 0

def MppCluster.inside (s : MppCluster ι τ ω) : τ ⊕ ω → Option Priority :=
  s.see ThreadPc.inside WorkerPc.inside

def MppCluster.lag (s : MppCluster ι τ ω) : τ ⊕ ω → ℤ :=
  s.see ThreadPc.lag WorkerPc.lag

/-- The queues are locked by who is inside, and counted. -/
def QueuesCounted (s : MppCluster ι τ ω) : Prop :=
  LockCounts (fun i => (s.queue i).lock) s.inside s.lag (fun i => (s.queue i).count)
    fun i => (s.list (.queue i)).length

/-- The workers count their work. -/
def WorksCounted (s : MppCluster ι τ ω) : Prop :=
  ∀ w, (s.worker w).workCount = (s.list (.work w)).length + (s.worker w).pc.owed

theorem queuesCounted_init (priority : ι → Priority) (batchCount : ω → ℤ) :
    QueuesCounted (clusterInit priority batchCount : MppCluster ι τ ω) := by
  have hinside : (clusterInit priority batchCount : MppCluster ι τ ω).inside = fun _ => none := by
    funext g
    cases g <;> rfl
  have hlag : (clusterInit priority batchCount : MppCluster ι τ ω).lag = fun _ => 0 := by
    funext g
    cases g <;> rfl
  rw [QueuesCounted, hinside, hlag]
  exact LockCounts.free

theorem worksCounted_init (priority : ι → Priority) (batchCount : ω → ℤ) :
    WorksCounted (clusterInit priority batchCount : MppCluster ι τ ω) :=
  fun _ => rfl

end

variable {ι τ ω : Type*} {s s' : MppCluster ι τ ω} {place : ι → TaskPlace τ ω} {g : τ ⊕ ω} {t : τ}
  {w : ω} {n : ι}

/-! ## What a step does to the counts -/

theorem MppCluster.inside_inl {pc : ThreadPc ι} (hpc : s.thread t = pc) :
    s.inside (.inl t) = pc.inside := by
  rw [MppCluster.inside, MppCluster.see, Sum.elim_inl, hpc]

theorem MppCluster.inside_inr {pc : WorkerPc ι} (hpc : (s.worker w).pc = pc) :
    s.inside (.inr w) = pc.inside := by
  rw [MppCluster.inside, MppCluster.see, Sum.elim_inr, hpc]

theorem MppCluster.lag_inl {pc : ThreadPc ι} (hpc : s.thread t = pc) :
    s.lag (.inl t) = pc.lag := by
  rw [MppCluster.lag, MppCluster.see, Sum.elim_inl, hpc]

theorem MppCluster.lag_inr {pc : WorkerPc ι} (hpc : (s.worker w).pc = pc) :
    s.lag (.inr w) = pc.lag := by
  rw [MppCluster.lag, MppCluster.see, Sum.elim_inr, hpc]

/-- What others see of `g` after a step of `g` -/
structure Seen [DecidableEq τ] [DecidableEq ω] (s s' : MppCluster ι τ ω) (g : τ ⊕ ω)
    (i : Option Priority) (lag : ℤ) : Prop where
  inside : s'.inside = Function.update s.inside g i
  lag : s'.lag = Function.update s.lag g lag

theorem Seen.thread [DecidableEq τ] [DecidableEq ω] (pc : ThreadPc ι) (ht : s'.thread = update s.thread t pc)
    (hw : s'.worker = s.worker) : Seen s s' (.inl t) pc.inside pc.lag :=
  ⟨see_thread _ _ ht hw, see_thread _ _ ht hw⟩

theorem Seen.worker [DecidableEq τ] [DecidableEq ω] (wk : ClusterWorker ι) (ht : s'.thread = s.thread)
    (hw : s'.worker = update s.worker w wk) : Seen s s' (.inr w) wk.pc.inside wk.pc.lag :=
  ⟨see_worker _ _ ht hw, see_worker _ _ ht hw⟩

/-- The count of a queue, by who holds its lock -/
theorem QueuesCounted.count_of_inside (h : QueuesCounted s) {i : Priority}
    (hi : s.inside g = some i) :
    (s.queue i).count = ((s.list (.queue i)).length : ℤ) + s.lag g := by
  have hlock : (s.queue i).lock = some g := (h.lock_iff i g).2 hi
  have hcount : (s.queue i).count =
      ((s.list (.queue i)).length : ℤ) + (s.queue i).lock.elim 0 s.lag := h.count_eq i
  rw [hcount, hlock]
  rfl

/-- The count of a queue whose lock is free -/
theorem QueuesCounted.count_of_free (h : QueuesCounted s) {i : Priority}
    (hi : (s.queue i).lock = none) : (s.queue i).count = (s.list (.queue i)).length :=
  LockCounts.count_of_free h hi

/-- A node that runs is in the list or in the hand of a worker. -/
theorem Located.run_iff (h : Located s place) (hatt : (s.node n).attached = true) :
    (s.node n).state &&& nodeRun ≠ 0 ↔
      (∃ w, n ∈ s.list (.work w)) ∨ ∃ w, (s.worker w).pc.hand = some (n, .run) := by
  have hphase := (h.fits n).state (by rw [(h.fits n).attached hatt]; simp)
  rw [hatt] at hphase
  rw [show nodeRun = NodePhase.bit .run from rfl, hphase.bit_iff]
  constructor
  · intro hrun
    rcases hp : place n with _ | ⟨g, phase⟩ | k
    · rw [hp] at hrun
      exact absurd hrun (by simp [phaseAt])
    · rw [hp] at hrun
      obtain rfl : phase = .run := hrun
      have hhand := (h.placed.hand_iff _ _ _).2 hp
      rcases g with t | w
      · -- a thread has tasks that wait in hand
        rw [MppCluster.hand_inl rfl] at hhand
        cases hpc : s.thread t <;> rw [hpc] at hhand <;> exact absurd hhand (by simp [ThreadPc.hand])
      · exact .inr ⟨w, (MppCluster.hand_inr rfl).symm.trans hhand⟩
    · rcases k with i | w
      · rw [hp] at hrun
        exact absurd hrun (by simp [phaseAt])
      · exact .inl ⟨w, h.placed.mem_iff.2 hp⟩
  · rintro (⟨w, hw⟩ | ⟨w, hw⟩)
    · rw [h.placed.mem_iff.1 hw]
      rfl
    · rw [(h.placed.hand_iff _ _ _).1 ((MppCluster.hand_inr rfl).trans hw)]
      rfl

/-! ## Lists -/

theorem list_addTail_of_ne [DecidableEq ω] {k l : TaskList ω} (hk : k ≠ l) :
    (s.addTail n l).list k = s.list k := by
  change file n l s.list k = _
  rw [file, ite_cond_eq_false _ _ (eq_false hk)]

theorem length_addTail [DecidableEq ω] (k : TaskList ω) :
    (((s.addTail n k).list k).length : ℤ) = (s.list k).length + 1 := by
  change ((file n k s.list k).length : ℤ) = _
  rw [file, ite_cond_eq_true _ _ (eq_self k), List.length_append, List.length_singleton]
  exact Nat.cast_succ _

/-- An item is deleted from its own list only. -/
theorem list_delInit_of_ne [DecidableEq ι] (h : Located s place) {k l : TaskList ω} (hn : place n = .linked l)
    (hk : k ≠ l) : (s.delInit n).list k = s.list k := by
  refine h.placed.filed.unfile_of_ne fun heq => hk ?_
  rw [hn] at heq
  exact (some.inj heq).symm

theorem length_delInit [DecidableEq ι] (h : Located s place) {k : TaskList ω} (hn : place n = .linked k) :
    (((s.delInit n).list k).length : ℤ) = (s.list k).length + -1 := by
  have hlen : ((s.delInit n).list k).length + 1 = (s.list k).length :=
    h.placed.filed.length_unfile (by rw [hn]; rfl)
  rw [← hlen]
  push_cast
  ring

theorem Sched.inside_ret (c : Sched ι) : c.ret.inside = none := by
  rw [Sched.ret]
  split_ifs <;> rfl

theorem Sched.lag_ret (c : Sched ι) : c.ret.lag = 0 := by
  rw [Sched.ret]
  split_ifs <;> rfl

theorem nextQueue_inside (batchCount : ℤ) (i : Priority) (count : ℤ) :
    (MppCluster.nextQueue batchCount i count : WorkerPc ι).inside = none := by
  rw [MppCluster.nextQueue]
  split_ifs <;> rfl

theorem nextQueue_lag (batchCount : ℤ) (i : Priority) (count : ℤ) :
    (MppCluster.nextQueue batchCount i count : WorkerPc ι).lag = 0 := by
  rw [MppCluster.nextQueue]
  split_ifs <;> rfl

theorem nextQueue_owed (batchCount : ℤ) (i : Priority) (count : ℤ) :
    (MppCluster.nextQueue batchCount i count : WorkerPc ι).owed = 0 := by
  rw [MppCluster.nextQueue]
  split_ifs <;> rfl

/-! ## Sections -/

variable [DecidableEq τ] [DecidableEq ω]

omit [DecidableEq τ] [DecidableEq ω] in
/-- The counts of the queues stay when a lock changes. -/
theorem count_update {i : Priority} {q : ClusterQueue (τ ⊕ ω)} (hq : s'.queue = update s.queue i q)
    (hcount : q.count = (s.queue i).count) :
    (fun j => (s'.queue j).count) = fun j => (s.queue j).count := by
  rw [hq]
  refine (comp_update ClusterQueue.count s.queue i q).trans ?_
  rw [hcount]
  exact update_eq_self i _

namespace QueuesCounted

/-- `g` goes on, and the queues are as before. -/
theorem stay (h : QueuesCounted s) {i : Option Priority} {lag : ℤ} (hg : Seen s s' g i lag)
    (hi : s.inside g = i) (hlag : s.lag g = lag) (hq : s'.queue = s.queue)
    (hl : ∀ i, s'.list (.queue i) = s.list (.queue i)) : QueuesCounted s' := by
  rw [QueuesCounted, hg.inside, hg.lag, ← hi, ← hlag, update_eq_self,
    update_eq_self, hq]
  simp only [hl]
  exact h

/-- `cluster_queue_lock` -/
theorem lockQueue (h : QueuesCounted s) {i : Priority} (hg : Seen s s' g (some i) 0)
    (hi : s.inside g = none) (hfree : (s.queue i).lock = none)
    (hq : s'.queue = update s.queue i { s.queue i with lock := some g })
    (hl : s'.list = s.list) : QueuesCounted s' := by
  have hlock : (fun j => (s'.queue j).lock) = update (fun j => (s.queue j).lock) i (some g) :=
    hq ▸ comp_update ClusterQueue.lock s.queue i _
  rw [QueuesCounted, hg.inside, hg.lag, hlock, count_update hq rfl, hl]
  exact h.acquire hfree hi

/-- `cluster_queue_unlock` -/
theorem unlockQueue (h : QueuesCounted s) {i : Priority} {x : ℤ} (hg : Seen s s' g none x)
    (hi : s.inside g = some i) (hlag : s.lag g = 0)
    (hq : s'.queue = update s.queue i { s.queue i with lock := none })
    (hl : s'.list = s.list) : QueuesCounted s' := by
  have hlock : (fun j => (s'.queue j).lock) = update (fun j => (s.queue j).lock) i none :=
    hq ▸ comp_update ClusterQueue.lock s.queue i _
  rw [QueuesCounted, hg.inside, hg.lag, hlock, count_update hq rfl, hl]
  exact h.release hi hlag x

/-- The count of the queue changes under its lock. -/
theorem addCount (h : QueuesCounted s) {i : Priority} {d lag : ℤ} (hg : Seen s s' g (some i) lag)
    (hi : s.inside g = some i) (hlag : s.lag g + d = lag)
    (hq : s'.queue = update s.queue i
      { s.queue i with count := (s.queue i).count + d })
    (hl : s'.list = s.list) : QueuesCounted s' := by
  have hlock : (fun j => (s'.queue j).lock) = fun j => (s.queue j).lock := by
    rw [hq]
    exact (comp_update ClusterQueue.lock s.queue i _).trans (update_eq_self i _)
  rw [QueuesCounted, hg.inside, hg.lag, hlock, hl, ← hi, update_eq_self]
  refine h.act hi (fun j hj => ?_) (fun _ _ => rfl) ?_
  · rw [hq, update_of_ne hj]
  · have hcount := h.count_of_inside hi
    rw [hq, update_self, ← hlag, hcount, add_assoc]

/-- The list of the queue changes under its lock. -/
theorem relist (h : QueuesCounted s) {i : Priority} {d lag : ℤ} (hg : Seen s s' g (some i) lag)
    (hi : s.inside g = some i) (hlag : lag + d = s.lag g) (hq : s'.queue = s.queue)
    (hl : ∀ j, j ≠ i → s'.list (.queue j) = s.list (.queue j))
    (hd : ((s'.list (.queue i)).length : ℤ) = (s.list (.queue i)).length + d) :
    QueuesCounted s' := by
  rw [QueuesCounted, hg.inside, hg.lag, hq, ← hi, update_eq_self]
  refine h.act hi (fun _ _ => rfl) (fun j hj => ?_) ?_
  · rw [hl j hj]
  · have hcount := h.count_of_inside hi
    rw [hd, hcount, ← hlag]
    ring

end QueuesCounted

/-! ## Threads -/

namespace QueuesCounted

/-- A thread goes on outside the sections, and the queues are as before. -/
theorem goto (h : QueuesCounted s) {pc₀ pc : ThreadPc ι} (hpc : s.thread t = pc₀)
    (ht : s'.thread = update s.thread t pc) (hw : s'.worker = s.worker)
    (hq : s'.queue = s.queue) (hl : s'.list = s.list) (h₀ : pc₀.inside = pc.inside)
    (hlag : pc₀.lag = pc.lag) : QueuesCounted s' :=
  h.stay (.thread pc ht hw) ((MppCluster.inside_inl hpc).trans h₀)
    ((MppCluster.lag_inl hpc).trans hlag) hq fun _ => by rw [hl]

/-- A worker goes on, and the queues are as before. -/
theorem turn (h : QueuesCounted s) {pc₀ : WorkerPc ι} {wk : ClusterWorker ι}
    (hpc : (s.worker w).pc = pc₀) (ht : s'.thread = s.thread)
    (hw : s'.worker = update s.worker w wk) (hq : s'.queue = s.queue)
    (hl : ∀ i, s'.list (.queue i) = s.list (.queue i)) (h₀ : pc₀.inside = wk.pc.inside)
    (hlag : pc₀.lag = wk.pc.lag) : QueuesCounted s' :=
  h.stay (.worker wk ht hw) ((MppCluster.inside_inr hpc).trans h₀)
    ((MppCluster.lag_inr hpc).trans hlag) hq hl

/-- A worker takes the lock of a queue. -/
theorem workerLock (h : QueuesCounted s) {pc₀ pc : WorkerPc ι} {i : Priority}
    (hpc : (s.worker w).pc = pc₀) (hs : (s.lockQueue i (.inr w)).map (·.turn w pc) = some s')
    (h₀ : pc₀.inside = none) (hin : pc.inside = some i) (hlag : pc.lag = 0) :
    QueuesCounted s' := by
  obtain ⟨s₁, h₁, rfl⟩ := map_eq_some_iff.1 hs
  rw [MppCluster.lockQueue] at h₁
  split_ifs at h₁ with hfree
  obtain rfl := some.inj h₁
  refine h.lockQueue (i := i) ?_ ((MppCluster.inside_inr hpc).trans h₀) hfree rfl rfl
  rw [← hin, ← hlag]
  exact .worker { s.worker w with pc } rfl rfl

variable [DecidableEq ι]

theorem threadStep (h : QueuesCounted s) (hs : s.threadStep t = some s') : QueuesCounted s' := by
  rw [MppCluster.threadStep] at hs
  rcases hpc : s.thread t with _ | c | ⟨c, old⟩ | c | c | c | c | ⟨m, queue⟩ | m
  all_goals simp only [hpc] at hs
  · exact absurd hs (by simp)
  · split_ifs at hs
    · obtain rfl := some.inj hs
      exact h.goto hpc rfl rfl rfl rfl c.inside_ret.symm c.lag_ret.symm
    · obtain rfl := some.inj hs
      exact h.goto hpc rfl rfl rfl rfl rfl rfl
  · split_ifs at hs
    · obtain rfl := some.inj hs
      exact h.goto hpc rfl rfl rfl rfl rfl rfl
    · obtain rfl := some.inj hs
      exact h.goto hpc rfl rfl rfl rfl c.inside_ret.symm c.lag_ret.symm
    · obtain rfl := some.inj hs
      exact h.goto hpc rfl rfl rfl rfl c.inside_ret.symm c.lag_ret.symm
    · obtain rfl := some.inj hs
      exact h.goto hpc rfl rfl rfl rfl rfl rfl
  · obtain ⟨s₁, h₁, rfl⟩ := map_eq_some_iff.1 hs
    rw [MppCluster.lockQueue] at h₁
    split_ifs at h₁ with hfree
    obtain rfl := some.inj h₁
    exact h.lockQueue (i := c.queue) (.thread (.add c) rfl rfl) (MppCluster.inside_inl hpc)
      hfree rfl rfl
  · obtain rfl := some.inj hs
    refine h.relist (i := c.queue) (d := 1) (.thread (.count c) rfl rfl)
      (MppCluster.inside_inl hpc) ?_ rfl (fun j hj => ?_) (length_addTail _)
    · rw [MppCluster.lag_inl hpc]
      rfl
    · exact list_addTail_of_ne fun heq => hj (TaskList.queue.inj heq)
  · obtain rfl := some.inj hs
    refine h.addCount (i := c.queue) (d := 1) (.thread (.unlock c) rfl rfl)
      (MppCluster.inside_inl hpc) ?_ rfl rfl
    rw [MppCluster.lag_inl hpc]
    rfl
  · obtain rfl := some.inj hs
    refine h.unlockQueue (i := c.queue) (x := 0) ?_ (MppCluster.inside_inl hpc)
      (MppCluster.lag_inl hpc) rfl rfl
    rw [← c.inside_ret, ← c.lag_ret]
    exact .thread c.ret rfl rfl
  · obtain rfl := some.inj hs
    exact h.goto hpc rfl rfl rfl rfl rfl rfl
  · split_ifs at hs
    obtain rfl := some.inj hs
    exact h.goto hpc rfl rfl rfl rfl rfl rfl

end QueuesCounted

/-! ## Workers -/

namespace WorksCounted

omit [DecidableEq τ] in
/-- A worker goes on, and changes its own list at most. -/
theorem turn (h : WorksCounted s) {pc₀ : WorkerPc ι} {wk : ClusterWorker ι} {d : ℤ}
    (hpc : (s.worker w).pc = pc₀) (hw : s'.worker = update s.worker w wk)
    (hl : ∀ w', w' ≠ w → s'.list (.work w') = s.list (.work w'))
    (hd : ((s'.list (.work w)).length : ℤ) = (s.list (.work w)).length + d)
    (hc : wk.workCount + pc₀.owed = (s.worker w).workCount + d + wk.pc.owed) :
    WorksCounted s' := by
  intro w'
  rcases eq_or_ne w' w with rfl | hne
  · have hwork := h w'
    rw [hpc] at hwork
    rw [hw, update_self, hd]
    linarith
  · rw [hw, update_of_ne hne, hl w' hne]
    exact h w'

end WorksCounted

omit [DecidableEq τ] in
theorem addWork_turn (s : MppCluster ι τ ω) (w : ω) (d : ℤ) (pc : WorkerPc ι) :
    ((s.addWork w d).turn w pc).worker =
      update s.worker w
        { s.worker w with workCount := (s.worker w).workCount + d, pc } := by
  have hw : (s.addWork w d).worker w =
      { s.worker w with workCount := (s.worker w).workCount + d } := update_self ..
  rw [MppCluster.turn]
  dsimp only
  rw [hw]
  exact update_idem ..

/-- A worker goes on, and neither the queues nor the lists change. -/
theorem turn_counted (hq : QueuesCounted s) (hwork : WorksCounted s) {pc₀ : WorkerPc ι}
    {wk : ClusterWorker ι} (hpc : (s.worker w).pc = pc₀) (ht : s'.thread = s.thread)
    (hw : s'.worker = update s.worker w wk) (hqueue : s'.queue = s.queue)
    (hl : s'.list = s.list) (hin : pc₀.inside = wk.pc.inside) (hlag : pc₀.lag = wk.pc.lag)
    (hc : wk.workCount + pc₀.owed = (s.worker w).workCount + wk.pc.owed) :
    QueuesCounted s' ∧ WorksCounted s' := by
  refine ⟨hq.turn hpc ht hw hqueue (fun _ => by rw [hl]) hin hlag,
    hwork.turn (d := 0) hpc hw (fun _ _ => by rw [hl]) (by rw [hl, add_zero]) ?_⟩
  rw [add_zero]
  exact hc

omit [DecidableEq τ] in
/-- The work of a worker that stays away from its list is as before. -/
theorem WorksCounted.keep (h : WorksCounted s) {pc₀ pc : WorkerPc ι} (hpc : (s.worker w).pc = pc₀)
    (hw : s'.worker = update s.worker w { s.worker w with pc })
    (hl : ∀ w', s'.list (.work w') = s.list (.work w')) (howed : pc₀.owed = pc.owed) :
    WorksCounted s' := by
  refine h.turn (d := 0) hpc hw (fun w' _ => hl w') (by rw [hl, add_zero]) ?_
  rw [add_zero, howed]

variable [DecidableEq ι]

/-- `list_del_init` of the task that a worker runs -/
theorem unlink_counted (h : Located s place) (hq : QueuesCounted s) (hwork : WorksCounted s)
    {pc₀ pc : WorkerPc ι} (hpc : (s.worker w).pc = pc₀) (hn : place n = .linked (.work w))
    (hin : pc₀.inside = pc.inside) (hlag : pc₀.lag = pc.lag) (howed : pc₀.owed + 1 = pc.owed) :
    QueuesCounted ((s.delInit n).turn w pc) ∧ WorksCounted ((s.delInit n).turn w pc) := by
  refine ⟨hq.turn hpc rfl rfl rfl
      (fun i => list_delInit_of_ne h hn (by simp)) hin hlag,
    hwork.turn hpc rfl (fun w' hne => ?_) (length_delInit h hn) ?_⟩
  · exact list_delInit_of_ne h hn fun heq => hne (TaskList.work.inj heq)
  · rw [← howed]
    change (s.worker w).workCount + _ = (s.worker w).workCount + -1 + (_ + 1)
    ring

/-- The counts after a step of a worker, next to the places of the tasks -/
theorem workerStep_counted (h : Located s place) (hq : QueuesCounted s) (hwork : WorksCounted s)
    (hs : s.workerStep w = some s') : QueuesCounted s' ∧ WorksCounted s' := by
  have hcur := h.current w
  rw [MppCluster.workerStep] at hs
  rcases hpc : (s.worker w).pc with _ | ⟨i, count⟩ | ⟨i, count⟩ | ⟨i, count⟩ | ⟨i, count, n⟩ |
    ⟨i, count, n⟩ | ⟨i, count, n, old⟩ | ⟨i, count, n⟩ | ⟨i, count⟩ | ⟨i, count⟩ | _ | n | n | n |
    n | n | ⟨n, queue, state⟩ | ⟨n, queue, state⟩ | ⟨n, queue⟩ | ⟨n, queue⟩ | queue | queue | n |
    n | ⟨n, old⟩ | _
  all_goals
    rw [hpc] at hcur
    simp only [hpc] at hs
  -- a node is looked at or written
  case top | load | proc | unattach | semPost | restLoad =>
    obtain rfl := some.inj hs
    exact turn_counted hq hwork hpc rfl rfl rfl rfl rfl rfl rfl
  case cas | recas | restCas =>
    split_ifs at hs
    all_goals
      obtain rfl := some.inj hs
      exact turn_counted hq hwork hpc rfl rfl rfl rfl rfl rfl rfl
  case test =>
    split_ifs at hs
    rotate_left
    · obtain ⟨queue, -, rfl⟩ := map_eq_some_iff.1 hs
      exact turn_counted hq hwork hpc rfl rfl rfl rfl rfl rfl rfl
    all_goals
      obtain rfl := some.inj hs
      exact turn_counted hq hwork hpc rfl rfl rfl rfl rfl rfl rfl
  -- `cluster_worker_get_task`
  case lock | relock =>
    refine ⟨hq.workerLock hpc hs rfl rfl rfl, ?_⟩
    obtain ⟨s₁, h₁, rfl⟩ := map_eq_some_iff.1 hs
    rw [MppCluster.lockQueue] at h₁
    split_ifs at h₁
    obtain rfl := some.inj h₁
    exact hwork.keep hpc rfl (fun _ => rfl) rfl
  case first =>
    rcases hl : s.list (.queue i) with _ | ⟨n, l⟩
    · rw [hl] at hs
      obtain rfl := some.inj hs
      exact turn_counted hq hwork hpc rfl rfl rfl rfl rfl rfl rfl
    · rw [hl] at hs
      obtain rfl := some.inj hs
      have hmem : n ∈ s.list (.queue i) := by
        rw [hl]
        exact List.mem_cons_self
      have hn := h.placed.mem_iff.1 hmem
      refine ⟨hq.relist (i := i) (d := -1) (.worker ⟨_, _, .uncount i count n⟩ rfl rfl)
        (MppCluster.inside_inr hpc) ?_ rfl (fun j hj => ?_) (length_delInit h hn),
        hwork.keep hpc rfl (fun w' => ?_) rfl⟩
      · rw [MppCluster.lag_inr hpc]
        rfl
      · exact list_delInit_of_ne h hn fun heq => hj (TaskList.queue.inj heq)
      · exact list_delInit_of_ne h hn (by simp)
  case empty =>
    obtain rfl := some.inj hs
    have hseen : Seen s
        ((s.unlockQueue i).turn w (MppCluster.nextQueue (s.worker w).batchCount i count)) (.inr w)
        (MppCluster.nextQueue (s.worker w).batchCount i count : WorkerPc ι).inside
        (MppCluster.nextQueue (s.worker w).batchCount i count : WorkerPc ι).lag :=
      .worker ⟨_, _, _⟩ rfl rfl
    rw [nextQueue_inside, nextQueue_lag] at hseen
    exact ⟨hq.unlockQueue hseen (MppCluster.inside_inr hpc) (MppCluster.lag_inr hpc) rfl rfl,
      hwork.keep hpc rfl (fun _ => rfl) (nextQueue_owed _ _ _).symm⟩
  case uncount =>
    obtain rfl := some.inj hs
    refine ⟨hq.addCount (i := i) (d := -1) (.worker ⟨_, _, .load i count n⟩ rfl rfl)
      (MppCluster.inside_inr hpc) ?_ rfl rfl, hwork.keep hpc rfl (fun _ => rfl) rfl⟩
    rw [MppCluster.lag_inr hpc]
    rfl
  case add =>
    obtain rfl := some.inj hs
    have hqueue : ∀ j, (s.addTail n (.work w)).list (.queue j) = s.list (.queue j) := fun j =>
      list_addTail_of_ne (by simp)
    refine ⟨hq.turn hpc rfl rfl rfl hqueue rfl rfl,
      hwork.turn (d := 1) hpc rfl (fun w' hne => ?_) (length_addTail _) ?_⟩
    · exact list_addTail_of_ne fun heq => hne (TaskList.work.inj heq)
    · change (s.worker w).workCount + 0 = (s.worker w).workCount + 1 + -1
      ring
  case count =>
    obtain rfl := some.inj hs
    refine turn_counted hq hwork hpc rfl (addWork_turn s w 1 _) rfl rfl rfl rfl ?_
    dsimp only [WorkerPc.owed]
    ring
  case unlock =>
    obtain rfl := some.inj hs
    refine ⟨hq.unlockQueue (i := i) (x := 0) ?_ (MppCluster.inside_inr hpc)
      (MppCluster.lag_inr hpc) rfl rfl, hwork.keep hpc rfl (fun _ => rfl) ?_⟩
    · split_ifs
      · exact .worker ⟨_, _, .next⟩ rfl rfl
      · exact .worker ⟨_, _, .lock i count⟩ rfl rfl
    · split_ifs <;> rfl
  -- `cluster_worker_run_task`
  case next =>
    split at hs
    all_goals
      obtain rfl := some.inj hs
      exact turn_counted hq hwork hpc rfl rfl rfl rfl rfl rfl rfl
  case drop | unlink | rest =>
    obtain rfl := some.inj hs
    exact unlink_counted h hq hwork hpc (hcur n rfl) rfl rfl rfl
  case readd =>
    obtain rfl := some.inj hs
    have hworks : ∀ w', (s.addTail n (.queue queue)).list (.work w') = s.list (.work w') :=
      fun w' => list_addTail_of_ne (by simp)
    refine ⟨hq.relist (i := queue) (d := 1) (.worker ⟨_, _, .recount queue⟩ rfl rfl)
      (MppCluster.inside_inr hpc) ?_ rfl (fun j hj => ?_) (length_addTail _),
      hwork.keep hpc rfl hworks rfl⟩
    · rw [MppCluster.lag_inr hpc]
      rfl
    · exact list_addTail_of_ne fun heq => hj (TaskList.queue.inj heq)
  case recount =>
    obtain rfl := some.inj hs
    refine ⟨hq.addCount (i := queue) (d := 1) (.worker ⟨_, _, .reunlock queue⟩ rfl rfl)
      (MppCluster.inside_inr hpc) ?_ rfl rfl, hwork.keep hpc rfl (fun _ => rfl) rfl⟩
    rw [MppCluster.lag_inr hpc]
    rfl
  case reunlock =>
    obtain rfl := some.inj hs
    exact ⟨hq.unlockQueue (i := queue) (.worker ⟨_, _, .finish⟩ rfl rfl)
      (MppCluster.inside_inr hpc) (MppCluster.lag_inr hpc) rfl rfl,
      hwork.keep hpc rfl (fun _ => rfl) rfl⟩
  case finish =>
    obtain rfl := some.inj hs
    refine turn_counted hq hwork hpc rfl (addWork_turn s w (-1) _) rfl rfl rfl rfl ?_
    dsimp only [WorkerPc.owed]
    ring

/-! ## Runs -/

/-- The work counts do not see what the threads do. -/
theorem threadStep_works (h : WorksCounted s) (hs : s.threadStep t = some s') :
    WorksCounted s' := by
  have hkeep : s'.worker = s.worker ∧ ∀ w, s'.list (.work w) = s.list (.work w) := by
    rw [MppCluster.threadStep] at hs
    rcases hpc : s.thread t with _ | c | ⟨c, old⟩ | c | c | c | c | ⟨m, queue⟩ | m
    all_goals simp only [hpc] at hs
    case out => exact absurd hs (by simp)
    case load =>
      split_ifs at hs
      all_goals
        obtain rfl := some.inj hs
        exact ⟨rfl, fun _ => rfl⟩
    case cas =>
      split_ifs at hs
      all_goals
        obtain rfl := some.inj hs
        exact ⟨rfl, fun _ => rfl⟩
    case lock =>
      obtain ⟨s₁, h₁, rfl⟩ := map_eq_some_iff.1 hs
      rw [MppCluster.lockQueue] at h₁
      split_ifs at h₁
      obtain rfl := some.inj h₁
      exact ⟨rfl, fun _ => rfl⟩
    case add =>
      obtain rfl := some.inj hs
      have hworks : ∀ w, (s.addTail c.node (.queue c.queue)).list (.work w) = s.list (.work w) :=
        fun w => list_addTail_of_ne (by simp)
      exact ⟨rfl, hworks⟩
    case semWait =>
      split_ifs at hs
      obtain rfl := some.inj hs
      exact ⟨rfl, fun _ => rfl⟩
    all_goals
      obtain rfl := some.inj hs
      exact ⟨rfl, fun _ => rfl⟩
  intro w
  rw [hkeep.1, hkeep.2]
  exact h w

omit [DecidableEq ι] in
/-- The counts after a call by a thread -/
theorem call_counted (hq : QueuesCounted s) (hwork : WorksCounted s) (hout : s.thread t = .out)
    {pc : ThreadPc ι} (hin : pc.inside = none) (hlag : pc.lag = 0)
    (ht : s'.thread = update s.thread t pc) (hw : s'.worker = s.worker)
    (hqueue : s'.queue = s.queue) (hl : s'.list = s.list) :
    QueuesCounted s' ∧ WorksCounted s' := by
  refine ⟨hq.goto hout ht hw hqueue hl hin.symm hlag.symm, fun w => ?_⟩
  rw [hw, hl]
  exact hwork w

/-- The step lemma -/
theorem step_counted (h : Located s place) (hq : QueuesCounted s) (hwork : WorksCounted s)
    {op : ClusterOp ι τ ω} (hs : s.step op = some s') : QueuesCounted s' ∧ WorksCounted s' := by
  cases op with
  | attach t n =>
    rw [MppCluster.step, MppCluster.attach] at hs
    split_ifs at hs with hcond
    obtain rfl := some.inj hs
    exact call_counted hq hwork hcond.1 rfl rfl rfl rfl rfl rfl
  | trigger t n =>
    rw [MppCluster.step, MppCluster.trigger] at hs
    split_ifs at hs with hout
    obtain ⟨queue, -, rfl⟩ := map_eq_some_iff.1 hs
    exact call_counted hq hwork hout rfl rfl rfl rfl rfl rfl
  | detach t n =>
    rw [MppCluster.step, MppCluster.detach] at hs
    split_ifs at hs with hcond
    obtain ⟨queue, -, rfl⟩ := map_eq_some_iff.1 hs
    exact call_counted hq hwork hcond.1 rfl rfl rfl rfl rfl rfl
  | thread t => exact ⟨hq.threadStep hs, threadStep_works hwork hs⟩
  | worker w => exact workerStep_counted h hq hwork hs

/-- In every reachable state the counts are right. -/
theorem reachable_counted {priority : ι → Priority} {batchCount : ω → ℤ}
    (hr : (clusterRun priority batchCount : Machine (MppCluster ι τ ω) _).Reachable s) :
    QueuesCounted s ∧ WorksCounted s := by
  refine hr.invariant (P := fun s => QueuesCounted s ∧ WorksCounted s) (fun s hs => ?_)
    fun s op s' hr hi hst => ?_
  · obtain rfl : s = clusterInit priority batchCount := hs
    exact ⟨queuesCounted_init priority batchCount, worksCounted_init priority batchCount⟩
  · obtain ⟨place, h⟩ := reachable_located hr
    exact step_counted h hi.1 hi.2 hst

/-! ## Exclusivity -/

/-- The tasks a worker has taken and not yet finished: those in its list, without the one it
    has linked and not yet counted, and with the one it has unlinked and not yet finished. -/
def MppCluster.taken (s : MppCluster ι τ ω) (w : ω) : ℤ :=
  (s.list (.work w)).length + (s.worker w).pc.owed

/-- What holds of the nodes, the lists and the counts at every moment -/
structure Exclusive (s : MppCluster ι τ ω) : Prop where
  /-- An attached node has exactly one of `NODE_IDLE`, `NODE_WAIT` and `NODE_RUN` set. -/
  phase : ∀ n, (s.node n).attached → ∃! phase : NodePhase, (s.node n).state &&& phase.bit ≠ 0
  /-- A task is linked in one list at most, and once. -/
  linked : ∀ n k l, n ∈ s.list k → n ∈ s.list l → k = l
  once : ∀ k, (s.list k).Nodup
  /-- A task waits in the queue of its priority. -/
  priority : ∀ n i, n ∈ s.list (.queue i) → (s.node n).priority = i
  /-- A node runs while its task is in the list of a worker, or in the hand of one that is
      about to link it or has just unlinked it. -/
  run_iff : ∀ n, (s.node n).attached →
    ((s.node n).state &&& nodeRun ≠ 0 ↔
      (∃ w, n ∈ s.list (.work w)) ∨ ∃ w, (s.worker w).pc.hand = some (n, .run))
  /-- A task in hand is not linked. -/
  hand : ∀ n w phase k, (s.worker w).pc.hand = some (n, phase) → n ∉ s.list k
  /-- No two workers execute the `proc` of a node. -/
  proc : ∀ n w w', (s.worker w).pc = .proc n → (s.worker w').pc = .proc n → w = w'
  /-- The count of a queue is right when nobody holds its lock. -/
  count : ∀ i, (s.queue i).lock = none → (s.queue i).count = (s.list (.queue i)).length
  work : ∀ w, (s.worker w).workCount = s.taken w

/-- Any number of nodes, threads and workers with any batch counts keep out of each other's
    way. -/
theorem cluster_exclusive (priority : ι → Priority) (batchCount : ω → ℤ)
    (hr : (clusterRun priority batchCount : Machine (MppCluster ι τ ω) _).Reachable s) :
    Exclusive s := by
  obtain ⟨place, h⟩ := reachable_located hr
  obtain ⟨hq, hwork⟩ := reachable_counted hr
  exact
    { phase := fun n hatt => by
        have hphase := (h.fits n).state (by rw [(h.fits n).attached hatt]; simp)
        exact ⟨_, (hphase.bit_iff _).2 rfl, fun phase hp => ((hphase.bit_iff phase).1 hp).symm⟩
      linked := fun n k l hk hl => h.placed.filed.eq_of_mem hk hl
      once := h.placed.filed.nodup
      priority := fun n i hn => (h.fits n).linked i (h.placed.mem_iff.1 hn)
      run_iff := fun n hatt => h.run_iff hatt
      hand := fun n w phase k hw hk => by
        have hheld := (h.placed.hand_iff _ _ _).1 ((MppCluster.hand_inr rfl).trans hw)
        exact absurd ((h.placed.mem_iff.1 hk).symm.trans hheld) (by simp)
      proc := fun n w w' hw hw' => by
        have hlinked := h.current w n (by rw [hw]; rfl)
        have hlinked' := h.current w' n (by rw [hw']; rfl)
        exact TaskList.work.inj (Place.linked.inj (hlinked.symm.trans hlinked'))
      count := fun i hi => hq.count_of_free hi
      work := hwork }

/-- The priority that `mpp_node_init` leaves -/
def firstPriority : Priority := ⟨0, maxPriority_pos⟩

/-- A node is attached, and its task waits and is taken by a worker. -/
def attachAndTake : List (ClusterOp Unit Unit Unit) :=
  .attach () () :: (List.replicate 6 (.thread ()) ++ List.replicate 6 (.worker ()))

/-- A worker executes the `proc` of a node that has been attached. -/
theorem cluster_exclusive_run : ∃ s : MppCluster Unit Unit Unit,
    Exclusive s ∧ (s.worker ()).pc = .proc () := by
  have hrun : ((Machine.run MppCluster.step (fun _ _ _ => True)
      (clusterInit (fun _ => firstPriority) fun _ => 1)
      (attachAndTake ++ List.replicate 4 (.worker ()))).any fun s =>
        decide ((s.worker ()).pc = .proc ())) = true := by
    decide
  obtain ⟨s, hr, hs⟩ := (any_eq_true _ _).1 hrun
  exact ⟨s, cluster_exclusive _ _ (Machine.Reachable.run (.init rfl) hr).of_guarded,
    of_decide_eq_true hs⟩

/-- A worker has unlinked the task of a node and not yet brought it back. -/
def WorkerPc.unlinked {ι : Type*} : WorkerPc ι → Option ι
  | .unattach n | .recas n _ _ | .relock n _ | .readd n _ | .restLoad n | .restCas n _ => some n
  | _ => none

/-- A node may run with its task in no list and no worker past unlinking it: a worker that
    has just made it run is about to link it. -/
theorem run_unlinked :
    (¬ ∀ s : MppCluster Unit Unit Unit, (clusterRun (fun _ => firstPriority) fun _ => 1).Reachable s →
      ∀ n, (s.node n).attached → ((∃ w, n ∈ s.list (.work w)) ↔
        (s.node n).state &&& nodeRun ≠ 0 ∨ ∃ w, (s.worker w).pc.unlinked = some n)) ∧
    ¬ ∀ s : MppCluster Unit Unit Unit, (clusterRun (fun _ => firstPriority) fun _ => 1).Reachable s →
      ∀ n, (s.node n).attached → ((s.node n).state &&& nodeRun ≠ 0 ↔
        (∃ w, n ∈ s.list (.work w)) ∨ ∃ w, (s.worker w).pc.unlinked = some n) := by
  have hrun : ((Machine.run MppCluster.step (fun _ _ _ => True)
      (clusterInit (fun _ => firstPriority) fun _ => 1) attachAndTake).any fun s =>
        decide ((s.node ()).attached = true ∧ (s.node ()).state &&& nodeRun ≠ 0 ∧
          s.list (.work ()) = [] ∧ (s.worker ()).pc.unlinked = none)) = true := by
    decide
  obtain ⟨s, hr, hs⟩ := (any_eq_true _ _).1 hrun
  obtain ⟨hatt, hstate, hlist, hpc⟩ := of_decide_eq_true hs
  have hreach := (Machine.Reachable.run (.init rfl) hr).of_guarded
  have hnot : ¬ ∃ w, () ∈ s.list (.work w) := by
    rintro ⟨w, hw⟩
    rw [hlist] at hw
    exact List.not_mem_nil hw
  have hbetween : ¬ ∃ w, (s.worker w).pc.unlinked = some () := by
    rintro ⟨w, hw⟩
    exact absurd (hpc.symm.trans hw) (by simp)
  refine ⟨fun hall => hnot ((hall s hreach () hatt).2 (.inl hstate)), fun hall => ?_⟩
  exact ((hall s hreach () hatt).1 hstate).elim hnot hbetween

end Libmpp.Base
