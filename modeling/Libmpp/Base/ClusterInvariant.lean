import Libmpp.Base.Cluster
import Libmpp.Lib.Places

/-!
# Where the tasks of a cluster are

The state word of a node says which of three phases it is in (`InPhase`): idle, waiting or
running. In between a task is at home, linked in a list, or in the hand of the thread or
worker that brings it from one list to the next (`WorkerPc.hand`), and the phase follows
its place (`NodeFits`).

* `Located` ties the words, the lists and the statements the threads and workers stand at to
  the places of the tasks. It holds of every reachable state (`reachable_located`), and a
  step moves a task only out of the reach of who takes it (`Within`).
-/

namespace Libmpp.Base

open Function Option

/-! ## State words -/

inductive NodePhase
  | idle
  | wait
  | run
  deriving DecidableEq

instance : Fintype NodePhase where
  elems := {.idle, .wait, .run}
  complete p := by cases p <;> decide

def NodePhase.bit : NodePhase → BitVec 32
  | .idle => nodeIdle
  | .wait => nodeWait
  | .run => nodeRun

/-- The word of a node in a phase, with or without `NODE_VALID` and `NODE_SIGNAL` -/
def stateWord (valid : Bool) (phase : NodePhase) (signal : Bool) : BitVec 32 :=
  (if valid then nodeValid else 0) ||| phase.bit ||| (if signal then nodeSignal else 0)

/-- A word with the bit of the phase, and none of the other two -/
def InPhase (phase : NodePhase) (state : BitVec 32) : Prop :=
  ∃ valid signal, state = stateWord valid phase signal

namespace InPhase

variable {phase phase' : NodePhase} {state : BitVec 32}

theorem bit_iff (h : InPhase phase state) (phase' : NodePhase) :
    state &&& phase'.bit ≠ 0 ↔ phase = phase' := by
  obtain ⟨valid, signal, rfl⟩ := h
  revert valid signal phase phase'
  decide

theorem eq (h : InPhase phase state) (h' : InPhase phase' state) : phase = phase' :=
  ((h.bit_iff phase').1 ((h'.bit_iff phase').2 rfl))

/-- `old_st ^ (NODE_IDLE | NODE_WAIT)` -/
theorem sched (h : InPhase .idle state) : InPhase .wait (state ^^^ (nodeIdle ||| nodeWait)) := by
  obtain ⟨valid, signal, rfl⟩ := h
  exact ⟨valid, signal, by revert valid signal; decide⟩

/-- `old_st | NODE_SIGNAL` -/
theorem signal (h : InPhase .run state) : InPhase .run (state ||| nodeSignal) := by
  obtain ⟨valid, signal, rfl⟩ := h
  exact ⟨valid, true, by revert valid signal; decide⟩

/-- `old_st ^ (NODE_WAIT | NODE_RUN)` -/
theorem take (h : InPhase .wait state) : InPhase .run (state ^^^ (nodeWait ||| nodeRun)) := by
  obtain ⟨valid, signal, rfl⟩ := h
  exact ⟨valid, signal, by revert valid signal; decide⟩

/-- `old_st ^ (NODE_IDLE | NODE_RUN)` -/
theorem rest (h : InPhase .run state) : InPhase .idle (state ^^^ (nodeIdle ||| nodeRun)) := by
  obtain ⟨valid, signal, rfl⟩ := h
  exact ⟨valid, signal, by revert valid signal; decide⟩

/-- `~NODE_VALID` -/
theorem invalid (h : InPhase phase state) : InPhase phase (state &&& ~~~nodeValid) := by
  obtain ⟨valid, signal, rfl⟩ := h
  exact ⟨false, signal, by revert valid signal phase; decide⟩

/-- A word that passes both tests after `proc` -/
theorem eq_stateWord (h : InPhase phase state) (hv : state &&& nodeValid ≠ 0)
    (hs : state &&& nodeSignal ≠ 0) : state = stateWord true phase true := by
  obtain ⟨valid, signal, rfl⟩ := h
  revert valid signal phase
  decide

end InPhase

/-- `old_st ^ (NODE_SIGNAL | NODE_WAIT | NODE_RUN)` -/
theorem stateWord_requeue :
    stateWord true .run true ^^^ (nodeSignal ||| nodeWait ||| nodeRun) =
      stateWord true .wait false := by
  decide

/-! ## Places -/

/-- The task that a thread has taken from home and not yet linked -/
def ThreadPc.hand {ι : Type*} : ThreadPc ι → Option (ι × NodePhase)
  | .lock c | .add c => some (c.node, .wait)
  | _ => none

/-- The task that a worker has unlinked and not yet linked again or brought home -/
def WorkerPc.hand {ι : Type*} : WorkerPc ι → Option (ι × NodePhase)
  | .uncount _ _ n | .load _ _ n | .cas _ _ n _ | .relock n _ | .readd n _ => some (n, .wait)
  | .add _ _ n | .unattach n | .recas n _ _ | .restLoad n | .restCas n _ => some (n, .run)
  | _ => none

/-- The task that a worker runs, as long as it is linked -/
def WorkerPc.current {ι : Type*} : WorkerPc ι → Option ι
  | .proc n | .test n | .drop n | .unlink n _ _ | .rest n => some n
  | _ => none

abbrev TaskPlace (τ ω : Type*) := Place (τ ⊕ ω) NodePhase (TaskList ω)

/-- The phase of an attached node whose task is in a place -/
def phaseAt {τ ω : Type*} : TaskPlace τ ω → NodePhase
  | .home => .idle
  | .held _ phase => phase
  | .linked (.queue _) => .wait
  | .linked (.work _) => .run

section

variable {ι τ ω : Type*}

/-- What can be seen of where each thread and worker stands -/
def MppCluster.see {A : Type*} (s : MppCluster ι τ ω) (f : ThreadPc ι → A) (f' : WorkerPc ι → A) :
    τ ⊕ ω → A :=
  Sum.elim (fun t => f (s.thread t)) fun w => f' (s.worker w).pc

/-- Who has which task in hand -/
def MppCluster.hand (s : MppCluster ι τ ω) : τ ⊕ ω → Option (ι × NodePhase) :=
  s.see ThreadPc.hand WorkerPc.hand

/-- A node is as the place of its task says. One that is not attached, but has been, keeps
    the word it had when it was dropped. -/
structure NodeFits (node : MppNodeImpl) (p : TaskPlace τ ω) : Prop where
  home : node.attached = false → p = .home
  queue : ∀ i, node.queue = some i → i = node.priority
  attached : node.attached = true → node.queue = some node.priority
  state : node.queue ≠ none → InPhase (if node.attached then phaseAt p else .run) node.state
  linked : ∀ i, p = .linked (.queue i) → node.priority = i

/-- What a thread knows about the nodes -/
def ThreadPc.Known (node : ι → MppNodeImpl) : ThreadPc ι → Prop
  | .load c | .lock c | .add c => (node c.node).queue = some c.queue
  | .cas c old =>
    (node c.node).queue = some c.queue ∧ ∃ phase, phase ≠ .wait ∧ InPhase phase old
  | .fetchAnd n queue => (node n).queue = some queue
  | _ => True

/-- What a worker knows about the nodes -/
def WorkerPc.Known (node : ι → MppNodeImpl) : WorkerPc ι → Prop
  | .cas _ _ _ old => InPhase .wait old
  | .unlink n queue state | .recas n queue state =>
    (node n).queue = some queue ∧ state = stateWord true .run true
  | .relock n queue | .readd n queue => (node n).queue = some queue
  | .restCas _ old => InPhase .run old
  | _ => True

/-- The queues of the nodes are set once. -/
def KeepsQueues (node node' : ι → MppNodeImpl) : Prop :=
  ∀ n i, (node n).queue = some i → (node' n).queue = some i

theorem ThreadPc.Known.mono {node node' : ι → MppNodeImpl} (hq : KeepsQueues node node')
    {pc : ThreadPc ι} (h : pc.Known node) : pc.Known node' := by
  cases pc with
  | load c => exact hq _ _ h
  | lock c => exact hq _ _ h
  | add c => exact hq _ _ h
  | cas c old => exact ⟨hq _ _ h.1, h.2⟩
  | fetchAnd n queue => exact hq _ _ h
  | _ => trivial

theorem WorkerPc.Known.mono {node node' : ι → MppNodeImpl} (hq : KeepsQueues node node')
    {pc : WorkerPc ι} (h : pc.Known node) : pc.Known node' := by
  cases pc with
  | cas i count n old => exact h
  | unlink n queue state => exact ⟨hq _ _ h.1, h.2⟩
  | recas n queue state => exact ⟨hq _ _ h.1, h.2⟩
  | relock n queue => exact hq _ _ h
  | readd n queue => exact hq _ _ h
  | restCas n old => exact h
  | _ => trivial

/-- The tasks are in the places `place`. -/
structure Located (s : MppCluster ι τ ω) (place : ι → TaskPlace τ ω) : Prop where
  placed : Placed s.list s.hand place
  fits : ∀ n, NodeFits (s.node n) (place n)
  thread : ∀ t, (s.thread t).Known s.node
  worker : ∀ w, (s.worker w).pc.Known s.node
  current : ∀ w n, (s.worker w).pc.current = some n → place n = .linked (.work w)

/-- A place that `g` may move a task out of -/
def Within (g : τ ⊕ ω) : TaskPlace τ ω → Prop
  | .home => True
  | .held g' _ => g' = g
  | .linked (.queue _) => True
  | .linked (.work w) => .inr w = g

theorem located_init (priority : ι → Priority) (batchCount : ω → ℤ) :
    Located (clusterInit priority batchCount : MppCluster ι τ ω) fun _ => .home where
  placed := by
    have hhand : (clusterInit priority batchCount : MppCluster ι τ ω).hand = fun _ => none := by
      funext g
      cases g <;> rfl
    rw [hhand]
    exact Placed.empty
  fits n :=
    { home := fun _ => rfl
      queue := fun _ h => absurd h (by simp [clusterInit, mppNodeInit])
      attached := fun h => absurd h (by simp [clusterInit, mppNodeInit])
      state := fun h => absurd rfl h
      linked := fun _ h => absurd h (by simp) }
  thread _ := trivial
  worker _ := trivial
  current _ _ h := absurd h (by simp [clusterInit, WorkerPc.current])

end

variable {ι τ ω : Type*} {s s' : MppCluster ι τ ω} {place : ι → TaskPlace τ ω} {t : τ} {w : ω}
  {n : ι} {p : TaskPlace τ ω}

theorem Located.keepsQueues (hnode : ∀ m, m ≠ n → s'.node m = s.node m)
    (hq : ∀ i, (s.node n).queue = some i → (s'.node n).queue = some i) :
    KeepsQueues s.node s'.node := by
  intro m i hm
  rcases eq_or_ne m n with rfl | hne
  · exact hq i hm
  · rw [hnode m hne]
    exact hm

theorem Located.fits_update [DecidableEq ι] (h : Located s place)
    (hnode : ∀ m, m ≠ n → s'.node m = s.node m) (hf : NodeFits (s'.node n) p) (m : ι) :
    NodeFits (s'.node m) (update place n p m) := by
  rcases eq_or_ne m n with rfl | hne
  · rw [update_self]
    exact hf
  · rw [update_of_ne hne, hnode m hne]
    exact h.fits m

/-- The word of a node in a phase -/
theorem Located.inPhase (h : Located s place) {queue : Priority} (hq : (s.node n).queue = some queue) :
    InPhase (if (s.node n).attached then phaseAt (place n) else .run) (s.node n).state :=
  (h.fits n).state (by rw [hq]; simp)

/-- A node fits its place as before when its word stays in its phase. -/
theorem NodeFits.congr {node node' : MppNodeImpl} (h : NodeFits node p)
    (ha : node'.attached = node.attached) (hq : node'.queue = node.queue)
    (hp : node'.priority = node.priority)
    (hs : ∀ phase, InPhase phase node.state → InPhase phase node'.state) : NodeFits node' p where
  home := by
    rw [ha]
    exact h.home
  queue := by
    rw [hq, hp]
    exact h.queue
  attached := by
    rw [ha, hq, hp]
    exact h.attached
  state := by
    rw [ha, hq]
    exact fun hne => hs _ (h.state hne)
  linked := by
    rw [hp]
    exact h.linked

/-- A node that is not at home fits any place of the same phase. -/
theorem NodeFits.move {node : MppNodeImpl} (h : NodeFits node p) (hp : p ≠ .home)
    {p' : TaskPlace τ ω} (hphase : phaseAt p' = phaseAt p)
    (hl : ∀ i, p' = .linked (.queue i) → node.priority = i) : NodeFits node p' where
  home ha := absurd (h.home ha) hp
  queue := h.queue
  attached := h.attached
  state := by
    rw [hphase]
    exact h.state
  linked := hl

theorem MppCluster.hand_inl {pc : ThreadPc ι} (hpc : s.thread t = pc) :
    s.hand (.inl t) = pc.hand := by
  rw [MppCluster.hand, MppCluster.see, Sum.elim_inl, hpc]

theorem MppCluster.hand_inr {pc : WorkerPc ι} (hpc : (s.worker w).pc = pc) :
    s.hand (.inr w) = pc.hand := by
  rw [MppCluster.hand, MppCluster.see, Sum.elim_inr, hpc]

/-- A task in hand waits or runs. -/
theorem MppCluster.hand_ne_idle (s : MppCluster ι τ ω) (g : τ ⊕ ω) (n : ι) :
    s.hand g ≠ some (n, .idle) := by
  rcases g with t | w
  · rw [MppCluster.hand, MppCluster.see, Sum.elim_inl]
    cases s.thread t <;> simp [ThreadPc.hand]
  · rw [MppCluster.hand, MppCluster.see, Sum.elim_inr]
    cases (s.worker w).pc <;> simp [WorkerPc.hand]

/-- The phase of a place is idle at home only. -/
theorem Located.phaseAt_eq_idle (h : Located s place) (hp : phaseAt (place n) = .idle) :
    place n = .home := by
  rcases hn : place n with _ | ⟨g, phase⟩ | k
  · rfl
  · rw [hn] at hp
    change phase = .idle at hp
    rw [hp, ← h.placed.hand_iff] at hn
    exact absurd hn (s.hand_ne_idle g n)
  · rw [hn] at hp
    cases k <;> exact absurd hp (by simp [phaseAt])

theorem Sched.hand_ret (c : Sched ι) : c.ret.hand = none := by
  rw [Sched.ret]
  split_ifs <;> rfl

theorem Sched.known_ret (c : Sched ι) (node : ι → MppNodeImpl) : c.ret.Known node := by
  rw [Sched.ret]
  split_ifs <;> trivial

/-- Who holds a lock, and the counts of the queues, are no matter here. -/
theorem Located.withQueue (h : Located s place) (queue : Priority → ClusterQueue (τ ⊕ ω)) :
    Located { s with queue } place :=
  ⟨h.placed, h.fits, h.thread, h.worker, h.current⟩

theorem nextQueue_hand (batchCount : ℤ) (i : Priority) (count : ℤ) :
    (MppCluster.nextQueue batchCount i count : WorkerPc ι).hand = none := by
  rw [MppCluster.nextQueue]
  split_ifs <;> rfl

theorem nextQueue_current (batchCount : ℤ) (i : Priority) (count : ℤ) :
    (MppCluster.nextQueue batchCount i count : WorkerPc ι).current = none := by
  rw [MppCluster.nextQueue]
  split_ifs <;> rfl

theorem nextQueue_known (batchCount : ℤ) (i : Priority) (count : ℤ) (node : ι → MppNodeImpl) :
    (MppCluster.nextQueue batchCount i count : WorkerPc ι).Known node := by
  rw [MppCluster.nextQueue]
  split_ifs <;> trivial

/-- The node of a task in hand is attached, and in the phase of the task. -/
theorem Located.of_hand (h : Located s place) {g : τ ⊕ ω} {phase : NodePhase}
    (hg : s.hand g = some (n, phase)) :
    (s.node n).attached = true ∧ InPhase phase (s.node n).state := by
  have hf := h.fits n
  rw [(h.placed.hand_iff _ _ _).1 hg] at hf
  have hatt : (s.node n).attached = true := by
    rcases ha : (s.node n).attached with _ | _
    · exact absurd (hf.home ha) (by simp)
    · rfl
  have hphase := hf.state (by rw [hf.attached hatt]; simp)
  rw [hatt] at hphase
  exact ⟨hatt, hphase⟩

/-- The node of a linked task is attached, and in the phase of the list. -/
theorem Located.of_linked (h : Located s place) {k : TaskList ω} (hp : place n = .linked k) :
    (s.node n).attached = true ∧ InPhase (phaseAt (.linked k : TaskPlace τ ω)) (s.node n).state := by
  have hf := h.fits n
  rw [hp] at hf
  have hatt : (s.node n).attached = true := by
    rcases ha : (s.node n).attached with _ | _
    · exact absurd (hf.home ha) (by simp)
    · rfl
  have hphase := hf.state (by rw [hf.attached hatt]; simp)
  rw [hatt] at hphase
  exact ⟨hatt, hphase⟩

theorem MppCluster.addWork_pc [DecidableEq ω] (s : MppCluster ι τ ω) (w : ω) (d : ℤ) (w' : ω) :
    ((s.addWork w d).worker w').pc = (s.worker w').pc := by
  rcases eq_or_ne w' w with rfl | hne
  · change (update s.worker w' _ w').pc = _
    rw [update_self]
  · change (update s.worker w _ w').pc = _
    rw [update_of_ne hne]

/-- How much a worker has to do is no matter here. -/
theorem Located.withWork [DecidableEq ω] (h : Located s place) (w : ω) (d : ℤ) :
    Located (s.addWork w d) place := by
  have hpc := s.addWork_pc w d
  have hhand : (s.addWork w d).hand = s.hand := by
    funext g
    rcases g with t | w'
    · rfl
    · exact congrArg WorkerPc.hand (hpc w')
  refine ⟨?_, h.fits, h.thread, fun w' => ?_, fun w' => ?_⟩
  · rw [hhand]
    exact h.placed
  · rw [hpc]
    exact h.worker w'
  · rw [hpc]
    exact h.current w'

/-- `g` moves tasks only out of places within its reach. -/
def Moved (g : τ ⊕ ω) (place place' : ι → TaskPlace τ ω) : Prop :=
  ∀ n, place' n = place n ∨ Within g (place n)

/-- The tasks have places again, and `g` has moved only what it may. -/
def Carried (g : τ ⊕ ω) (place : ι → TaskPlace τ ω) (s' : MppCluster ι τ ω) : Prop :=
  ∃ place', Located s' place' ∧ Moved g place place'

theorem Moved.update [DecidableEq ι] {g : τ ⊕ ω} (hg : Within g (place n)) (p : TaskPlace τ ω) :
    Moved g place (update place n p) := by
  intro m
  rcases eq_or_ne m n with rfl | hne
  · exact .inr hg
  · exact .inl (update_of_ne hne _ _)

theorem Moved.same [DecidableEq ι] (g : τ ⊕ ω) : Moved g place (Function.update place n (place n)) :=
  fun m => .inl (by rw [update_eq_self])

variable [DecidableEq τ] [DecidableEq ω]

theorem see_thread {A : Type*} (f : ThreadPc ι → A) (f' : WorkerPc ι → A) {pc : ThreadPc ι}
    (ht : s'.thread = update s.thread t pc) (hw : s'.worker = s.worker) :
    s'.see f f' = update (s.see f f') (.inl t) (f pc) := by
  funext g
  rw [MppCluster.see, MppCluster.see, ht, hw]
  rcases g with t' | w'
  · rcases eq_or_ne t' t with rfl | hne
    · rw [Sum.elim_inl, update_self, update_self]
    · rw [Sum.elim_inl, update_of_ne hne,
        update_of_ne fun h => hne (Sum.inl.inj h), Sum.elim_inl]
  · rw [update_of_ne (by simp)]
    rfl

theorem see_worker {A : Type*} (f : ThreadPc ι → A) (f' : WorkerPc ι → A) {wk : ClusterWorker ι}
    (ht : s'.thread = s.thread) (hw : s'.worker = update s.worker w wk) :
    s'.see f f' = update (s.see f f') (.inr w) (f' wk.pc) := by
  funext g
  rw [MppCluster.see, MppCluster.see, ht, hw]
  rcases g with t' | w'
  · rw [update_of_ne (by simp)]
    rfl
  · rcases eq_or_ne w' w with rfl | hne
    · rw [Sum.elim_inr, update_self, update_self]
    · rw [Sum.elim_inr, update_of_ne hne,
        update_of_ne fun h => hne (Sum.inr.inj h), Sum.elim_inr]

/-- A worker goes on, and nothing else changes. -/
theorem Located.turn (h : Located s place) {pc₀ pc : WorkerPc ι} (hpc : (s.worker w).pc = pc₀)
    (hh : pc.hand = pc₀.hand) (hk : pc.Known s.node)
    (hc : ∀ m, pc.current = some m → place m = .linked (.work w)) :
    Carried (.inr w) place (s.turn w pc) := by
  refine ⟨place, ⟨?_, h.fits, h.thread, fun w' => ?_, fun w' m hm => ?_⟩, fun _ => .inl rfl⟩
  · have hhand : (s.turn w pc).hand = update s.hand (.inr w)
        ({ s.worker w with pc } : ClusterWorker ι).pc.hand := see_worker _ _ rfl rfl
    have hsame : pc.hand = s.hand (.inr w) := hh.trans (MppCluster.hand_inr hpc).symm
    rw [hhand]
    change Placed s.list (update s.hand (.inr w) pc.hand) place
    rw [hsame, update_eq_self]
    exact h.placed
  · change (update s.worker w _ w').pc.Known s.node
    rcases eq_or_ne w' w with rfl | hne
    · rw [update_self]
      exact hk
    · rw [update_of_ne hne]
      exact h.worker w'
  · change (update s.worker w _ w').pc.current = some m at hm
    rcases eq_or_ne w' w with rfl | hne
    · rw [update_self] at hm
      exact hc m hm
    · rw [update_of_ne hne] at hm
      exact h.current w' m hm

/-- A worker goes on without a task it runs, and nothing else changes. -/
theorem Located.go (h : Located s place) {pc₀ pc : WorkerPc ι} (hpc : (s.worker w).pc = pc₀)
    (hh : pc.hand = pc₀.hand) (hk : pc.Known s.node) (hc : pc.current = none) :
    Carried (.inr w) place (s.turn w pc) :=
  h.turn hpc hh hk fun _ hm => absurd (hc.symm.trans hm) (by simp)

/-- A worker takes the lock of a queue. -/
theorem Located.lockQueue (h : Located s place) {pc₀ pc : WorkerPc ι} (hpc : (s.worker w).pc = pc₀)
    {i : Priority} (hs : (s.lockQueue i (.inr w)).map (·.turn w pc) = some s')
    (hh : pc.hand = pc₀.hand) (hk : pc.Known s.node) (hc : pc.current = none) :
    Carried (.inr w) place s' := by
  obtain ⟨s₁, h₁, rfl⟩ := map_eq_some_iff.1 hs
  rw [MppCluster.lockQueue] at h₁
  split_ifs at h₁ with hfree
  obtain rfl := some.inj h₁
  exact (h.withQueue _).go hpc hh hk hc

variable [DecidableEq ι]

namespace Located

/-- A step of a thread, after which the task of `n` is at `p` -/
theorem threadStep (h : Located s place) {pc : ThreadPc ι}
    (ht : s'.thread = update s.thread t pc) (hwk : s'.worker = s.worker)
    (hnode : ∀ m, m ≠ n → s'.node m = s.node m)
    (hl : Placed s'.list (update s.hand (.inl t) pc.hand) (update place n p))
    (hf : NodeFits (s'.node n) p)
    (hq : ∀ i, (s.node n).queue = some i → (s'.node n).queue = some i)
    (hk : pc.Known s'.node) (hp : ∀ w, place n = .linked (.work w) → p = .linked (.work w)) :
    Located s' (update place n p) where
  placed := by
    rw [MppCluster.hand, see_thread _ _ ht hwk]
    exact hl
  fits := h.fits_update hnode hf
  thread t' := by
    rw [ht]
    rcases eq_or_ne t' t with rfl | hne
    · rw [update_self]
      exact hk
    · rw [update_of_ne hne]
      exact (h.thread t').mono (keepsQueues hnode hq)
  worker w' := by
    rw [hwk]
    exact (h.worker w').mono (keepsQueues hnode hq)
  current w' m hm := by
    rw [hwk] at hm
    have := h.current w' m hm
    rcases eq_or_ne m n with rfl | hne
    · rw [update_self]
      exact hp w' this
    · rw [update_of_ne hne]
      exact this

/-- A step of a worker, after which the task of `n` is at `p` -/
theorem workerStep (h : Located s place) {wk : ClusterWorker ι} (ht : s'.thread = s.thread)
    (hwk : s'.worker = update s.worker w wk)
    (hnode : ∀ m, m ≠ n → s'.node m = s.node m)
    (hl : Placed s'.list (update s.hand (.inr w) wk.pc.hand)
      (update place n p))
    (hf : NodeFits (s'.node n) p)
    (hq : ∀ i, (s.node n).queue = some i → (s'.node n).queue = some i)
    (hk : wk.pc.Known s'.node)
    (hc : ∀ m, wk.pc.current = some m → update place n p m = .linked (.work w))
    (hp : ∀ w', w' ≠ w → place n = .linked (.work w') → p = .linked (.work w')) :
    Located s' (update place n p) where
  placed := by
    rw [MppCluster.hand, see_worker _ _ ht hwk]
    exact hl
  fits := h.fits_update hnode hf
  thread t' := by
    rw [ht]
    exact (h.thread t').mono (keepsQueues hnode hq)
  worker w' := by
    rw [hwk]
    rcases eq_or_ne w' w with rfl | hne
    · rw [update_self]
      exact hk
    · rw [update_of_ne hne]
      exact (h.worker w').mono (keepsQueues hnode hq)
  current w' m hm := by
    rw [hwk] at hm
    rcases eq_or_ne w' w with rfl | hw'
    · rw [update_self] at hm
      exact hc m hm
    · rw [update_of_ne hw'] at hm
      have := h.current w' m hm
      rcases eq_or_ne m n with rfl | hne
      · rw [update_self]
        exact hp w' hw' this
      · rw [update_of_ne hne]
        exact this

end Located

/-! ## Threads -/

namespace Located

/-- A step leaves the tasks where they are, if it keeps what is in hand. -/
theorem placed_same (h : Located s place) {g : τ ⊕ ω} {x : Option (ι × NodePhase)}
    (hx : x = s.hand g) :
    Placed s.list (update s.hand g x) (update place n (place n)) := by
  rw [hx, update_eq_self, update_eq_self]
  exact h.placed

/-- A thread goes on, and nothing else changes. -/
theorem goto (h : Located s place) {pc : ThreadPc ι} (hh : pc.hand = (s.thread t).hand)
    (hk : pc.Known s.node) (n : ι) :
    Carried (.inl t) place (s.goto t pc) :=
  ⟨_, h.threadStep (n := n) rfl rfl (fun _ _ => rfl) (h.placed_same hh) (h.fits n)
    (fun _ hq => hq) hk (fun _ hp => hp), Moved.same _⟩

theorem attach (h : Located s place) (hs : s.attach t n = some s') :
    Carried (.inl t) place s' := by
  rw [MppCluster.attach] at hs
  split_ifs at hs with hcond
  obtain rfl := some.inj hs
  have hhome := (h.fits n).home hcond.2
  refine ⟨_, h.threadStep (n := n) rfl rfl (fun m hm => update_of_ne hm _ _)
    (h.placed_same ?_) ?_ (fun i hi => ?_) ?_ (fun _ hp => hp), Moved.same _⟩
  · rw [MppCluster.hand, MppCluster.see, Sum.elim_inl, hcond.1]
    rfl
  · change NodeFits (update s.node n _ n) (place n)
    rw [update_self, hhome]
    exact
      { home := fun _ => rfl
        queue := fun i hi => (some.inj hi).symm
        attached := fun _ => rfl
        state := fun _ => ⟨true, false, (by decide : nodeValid ||| nodeIdle = stateWord true .idle false)⟩
        linked := fun _ hl => absurd hl (by simp) }
  · change (update s.node n _ n).queue = some i
    rw [update_self, (h.fits n).queue i hi]
  · change (update s.node n _ n).queue = some _
    rw [update_self]

theorem trigger (h : Located s place) (hs : s.trigger t n = some s') :
    Carried (.inl t) place s' := by
  rw [MppCluster.trigger] at hs
  split_ifs at hs with hout
  obtain ⟨queue, hq, rfl⟩ := map_eq_some_iff.1 hs
  exact h.goto (by rw [hout]; rfl) hq n

theorem detach (h : Located s place) (hs : s.detach t n = some s') :
    Carried (.inl t) place s' := by
  rw [MppCluster.detach] at hs
  split_ifs at hs with hcond
  obtain ⟨queue, hq, rfl⟩ := map_eq_some_iff.1 hs
  exact h.goto (by rw [hcond.1]; rfl) hq n

/-- A thread changes a node, whose word stays in its phase. -/
theorem renode (h : Located s place) {pc : ThreadPc ι} {node : MppNodeImpl}
    (hf : NodeFits node (place n)) (hq : node.queue = (s.node n).queue)
    (hh : pc.hand = (s.thread t).hand) (hk : pc.Known (update s.node n node)) :
    Carried (.inl t) place { s.goto t pc with node := update s.node n node } := by
  refine ⟨_, h.threadStep (n := n) rfl rfl (fun m hm => update_of_ne hm _ _)
    (h.placed_same hh) ?_ (fun i hi => ?_) hk (fun _ hp => hp), Moved.same _⟩
  · change NodeFits (update s.node n _ n) (place n)
    rw [update_self]
    exact hf
  · change (update s.node n _ n).queue = some i
    rw [update_self, hq]
    exact hi

/-- `list_add_tail` of what a thread has in hand -/
theorem addTail (h : Located s place) {c : Sched ι} (hpc : s.thread t = .add c)
    (hk : (s.node c.node).queue = some c.queue) :
    Carried (.inl t) place ((s.addTail c.node (.queue c.queue)).goto t (.count c)) := by
  have hhand : s.hand (.inl t) = some (c.node, .wait) := MppCluster.hand_inl hpc
  have hheld := (h.placed.hand_iff _ _ _).1 hhand
  have hf := h.fits c.node
  refine ⟨_, h.threadStep (n := c.node) rfl rfl (fun _ _ => rfl)
    (h.placed.put hhand (.queue c.queue)) ?_ (fun _ hi => hi) trivial fun w hw => ?_,
    Moved.update ?_ _⟩
  · rw [hheld] at hf
    refine hf.move (by simp) rfl fun i hi => ?_
    rw [← hf.queue _ hk]
    exact TaskList.queue.inj (Place.linked.inj hi)
  · rw [hheld] at hw
    exact absurd hw (by simp)
  · rw [hheld]
    rfl

/-- The compare-and-swap that takes a task from home -/
theorem sched (h : Located s place) {c : Sched ι} (hout : (s.thread t).hand = none)
    (hk : (s.node c.node).queue = some c.queue) (hi : InPhase .idle (s.node c.node).state) :
    Carried (.inl t) place
      ((s.store c.node ((s.node c.node).state ^^^ (nodeIdle ||| nodeWait))).goto t (.lock c)) := by
  have hf := h.fits c.node
  have hphase := hi.eq (h.inPhase hk)
  -- a word that idles is that of an attached node
  rcases hatt : (s.node c.node).attached with _ | _
  · rw [hatt] at hphase
    exact absurd hphase (by simp)
  rw [hatt] at hphase
  have hhome := h.phaseAt_eq_idle hphase.symm
  refine ⟨_, h.threadStep (n := c.node) rfl rfl (fun m hm => update_of_ne hm _ _)
    (h.placed.take hhome ((MppCluster.hand_inl rfl).trans hout) .wait) ?_ (fun i hq => ?_) ?_
    fun w hw => ?_, Moved.update ?_ _⟩
  · change NodeFits (update s.node c.node _ c.node) _
    rw [update_self]
    exact
      { home := fun ha => absurd (hatt.symm.trans ha) (by simp)
        queue := hf.queue
        attached := hf.attached
        state := fun _ => by
          change InPhase (if (s.node c.node).attached = true then _ else _) _
          rw [hatt]
          exact hi.sched
        linked := fun _ hl => absurd hl (by simp) }
  · change (update s.node c.node _ c.node).queue = some i
    rw [update_self]
    exact hq
  · change (update s.node c.node _ c.node).queue = some _
    rw [update_self]
    exact hk
  · rw [hhome] at hw
    exact absurd hw (by simp)
  · rw [hhome]
    trivial

theorem stepThread (h : Located s place) (hs : s.threadStep t = some s') :
    Carried (.inl t) place s' := by
  have hk := h.thread t
  rw [MppCluster.threadStep] at hs
  rcases hpc : s.thread t with _ | c | ⟨c, old⟩ | c | c | c | c | ⟨m, queue⟩ | m
  all_goals
    rw [hpc] at hk
    simp only [hpc] at hs
  · exact absurd hs (by simp)
  · split_ifs at hs with hw
    · obtain rfl := some.inj hs
      exact h.goto (by rw [hpc, c.hand_ret]; rfl) (c.known_ret _) c.node
    · obtain rfl := some.inj hs
      have hphase := h.inPhase hk
      refine h.goto (by rw [hpc]; rfl) ⟨hk, _, fun heq => ?_, hphase⟩ c.node
      exact hw ((hphase.bit_iff .wait).2 heq)
  · obtain ⟨hqueue, phase, hne, hold⟩ := hk
    split_ifs at hs with heq hidle hrun
    · obtain rfl := some.inj hs
      subst heq
      obtain rfl := (hold.bit_iff .idle).1 hidle
      exact h.sched (by rw [hpc]; rfl) hqueue hold
    · obtain rfl := some.inj hs
      subst heq
      obtain rfl := (hold.bit_iff .run).1 hrun
      exact h.renode ((h.fits c.node).congr rfl rfl rfl fun phase hp => by
        obtain rfl := hp.eq hold
        exact hp.signal) rfl (by rw [hpc, c.hand_ret]; rfl) (c.known_ret _)
    · -- one of the two bits is set, as the word does not wait
      cases phase with
      | idle => exact absurd ((hold.bit_iff .idle).2 rfl) hidle
      | wait => exact absurd rfl hne
      | run => exact absurd ((hold.bit_iff .run).2 rfl) hrun
    · obtain rfl := some.inj hs
      exact h.goto (by rw [hpc]; rfl) hqueue c.node
  · obtain ⟨s₁, h₁, rfl⟩ := map_eq_some_iff.1 hs
    rw [MppCluster.lockQueue] at h₁
    split_ifs at h₁ with hfree
    obtain rfl := some.inj h₁
    exact (h.withQueue _).goto (by rw [hpc]; rfl) hk c.node
  · obtain rfl := some.inj hs
    exact h.addTail hpc hk
  · obtain rfl := some.inj hs
    exact (h.withQueue _).goto (by rw [hpc]; rfl) trivial c.node
  · obtain rfl := some.inj hs
    exact (h.withQueue _).goto (by rw [hpc, c.hand_ret]; rfl) (c.known_ret _) c.node
  · obtain rfl := some.inj hs
    refine h.renode ((h.fits m).congr rfl rfl rfl fun phase hp => hp.invalid) rfl
      (by rw [hpc]; rfl) ?_
    change (update s.node m _ m).queue = some queue
    rw [update_self]
    exact hk
  · split_ifs at hs
    obtain rfl := some.inj hs
    exact h.renode ((h.fits m).congr rfl rfl rfl fun _ hp => hp) rfl (by rw [hpc]; rfl) trivial

end Located

/-! ## Workers -/

namespace Located

/-- `list_del_init` by a worker -/
theorem pick (h : Located s place) {pc₀ pc : WorkerPc ι} (hpc : (s.worker w).pc = pc₀) {k : TaskList ω}
    (hp : place n = .linked k) (hw : Within (.inr w) (.linked k : TaskPlace τ ω))
    (hout : pc₀.hand = none)
    (hh : pc.hand = some (n, phaseAt (.linked k : TaskPlace τ ω))) (hc : pc.current = none)
    (hk : pc.Known s.node) : Carried (.inr w) place ((s.delInit n).turn w pc) := by
  refine ⟨_, h.workerStep (n := n) rfl rfl (fun _ _ => rfl) ?_
    (p := .held (.inr w) (phaseAt (.linked k : TaskPlace τ ω))) ?_ (fun _ hi => hi) hk
    (fun m hm => absurd (hc.symm.trans hm) (by simp)) (fun w' hne hw' => ?_), Moved.update ?_ _⟩
  · rw [hh]
    exact h.placed.pick hp ((MppCluster.hand_inr hpc).trans hout) _
  · refine (h.fits n).move (by rw [hp]; simp) (by rw [hp]; rfl) fun i hi => absurd hi (by simp)
  · rw [hp] at hw'
    obtain rfl := Place.linked.inj hw'
    exact absurd (Sum.inr.inj hw) hne
  · rw [hp]
    exact hw

/-- `list_add_tail` by a worker -/
theorem put (h : Located s place) {pc₀ pc : WorkerPc ι} (hpc : (s.worker w).pc = pc₀)
    {k : TaskList ω} (hhand : pc₀.hand = some (n, phaseAt (.linked k : TaskPlace τ ω)))
    (hq : ∀ i, k = .queue i → (s.node n).queue = some i) (hh : pc.hand = none)
    (hc : pc.current = none) (hk : pc.Known s.node) :
    Carried (.inr w) place ((s.addTail n k).turn w pc) := by
  have hheld := (h.placed.hand_iff _ _ _).1 ((MppCluster.hand_inr hpc).trans hhand)
  refine ⟨_, h.workerStep (n := n) rfl rfl (fun _ _ => rfl) ?_ (p := .linked k) ?_
    (fun _ hi => hi) hk (fun m hm => absurd (hc.symm.trans hm) (by simp)) (fun w' _ hw' => ?_),
    Moved.update ?_ _⟩
  · rw [hh]
    exact h.placed.put ((MppCluster.hand_inr hpc).trans hhand) k
  · refine (h.fits n).move (by rw [hheld]; simp) (by rw [hheld]; rfl) fun i hi => ?_
    exact ((h.fits n).queue i (hq i (Place.linked.inj hi))).symm
  · rw [hheld] at hw'
    exact absurd hw' (by simp)
  · rw [hheld]
    rfl

/-- A worker changes the node of the task it has in hand, and goes on with it in hand, or
    not, at the place `p`. -/
theorem bring (h : Located s place) {pc₀ pc : WorkerPc ι} (hpc : (s.worker w).pc = pc₀)
    {phase : NodePhase} {x : Option NodePhase} {node : MppNodeImpl}
    (hhand : pc₀.hand = some (n, phase))
    (hh : pc.hand = x.map (n, ·)) (hp : p.list = none)
    (hx : ∀ g' m, p = .held g' m ↔ g' = .inr w ∧ x = some m) (hf : NodeFits node p)
    (hq : node.queue = (s.node n).queue) (hc : pc.current = none)
    (hk : pc.Known (update s.node n node)) :
    Carried (.inr w) place { s.turn w pc with node := update s.node n node } := by
  have hheld := (h.placed.hand_iff _ _ _).1 ((MppCluster.hand_inr hpc).trans hhand)
  refine ⟨_, h.workerStep (n := n) rfl rfl (fun m hm => update_of_ne hm _ _) ?_
    (p := p) ?_ (fun i hi => ?_) hk (fun m hm => absurd (hc.symm.trans hm) (by simp))
    (fun w' _ hw' => ?_), Moved.update ?_ _⟩
  · rw [hh]
    exact h.placed.bring ((MppCluster.hand_inr hpc).trans hhand) hp hx
  · change NodeFits (update s.node n _ n) _
    rw [update_self]
    exact hf
  · change (update s.node n _ n).queue = some i
    rw [update_self, hq]
    exact hi
  · rw [hheld] at hw'
    exact absurd hw' (by simp)
  · rw [hheld]
    rfl

end Located

namespace Located

/-- A worker stores the word of another phase for the task it has in hand. -/
theorem swap (h : Located s place) {pc₀ pc : WorkerPc ι} (hpc : (s.worker w).pc = pc₀)
    {phase phase' : NodePhase} {state : BitVec 32} (hhand : pc₀.hand = some (n, phase))
    (hh : pc.hand = some (n, phase')) (hs : InPhase phase' state) (hc : pc.current = none)
    (hk : pc.Known (s.store n state).node) :
    Carried (.inr w) place ((s.store n state).turn w pc) := by
  have hatt := (h.of_hand ((MppCluster.hand_inr hpc).trans hhand)).1
  refine h.bring hpc (x := some phase') (p := .held (.inr w) phase') hhand hh rfl
    (fun g' m => ?_) ?_ rfl hc hk
  · rw [Place.held.injEq, some.injEq, eq_comm]
  · exact
      { home := fun ha => absurd (hatt.symm.trans ha) (by simp)
        queue := (h.fits n).queue
        attached := (h.fits n).attached
        state := fun _ => by
          change InPhase (if (s.node n).attached = true then _ else _) _
          rw [hatt]
          exact hs
        linked := fun _ hl => absurd hl (by simp) }

/-- The last compare-and-swap of a run, which brings the task home -/
theorem rest (h : Located s place) {pc₀ : WorkerPc ι} (hpc : (s.worker w).pc = pc₀)
    (hhand : pc₀.hand = some (n, .run)) {state : BitVec 32} (hs : InPhase .run state) :
    Carried (.inr w) place ((s.store n (state ^^^ (nodeIdle ||| nodeRun))).turn w .finish) := by
  have hatt := (h.of_hand ((MppCluster.hand_inr hpc).trans hhand)).1
  refine h.bring hpc (x := none) (p := .home) hhand rfl rfl (fun _ _ => by simp) ?_ rfl rfl trivial
  exact
    { home := fun _ => rfl
      queue := (h.fits n).queue
      attached := (h.fits n).attached
      state := fun _ => by
        change InPhase (if (s.node n).attached = true then _ else _) _
        rw [hatt]
        exact hs.rest
      linked := fun _ hl => absurd hl (by simp) }

/-- A node that is not valid is dropped: it keeps its word and is not attached any more. -/
theorem unattach (h : Located s place) (hpc : (s.worker w).pc = .unattach n) :
    Carried (.inr w) place
      { s.turn w (.semPost n) with
        node := update s.node n { s.node n with attached := false } } := by
  have hrun := (h.of_hand (MppCluster.hand_inr hpc : s.hand (.inr w) = some (n, .run))).2
  refine h.bring hpc (x := none) (p := .home) rfl rfl rfl (fun _ _ => by simp) ?_ rfl rfl trivial
  exact
    { home := fun _ => rfl
      queue := (h.fits n).queue
      attached := fun ha => absurd ha (by simp)
      state := fun _ => hrun
      linked := fun _ hl => absurd hl (by simp) }

/-- `sem_post` -/
theorem semPost (h : Located s place) (hpc : (s.worker w).pc = .semPost n) :
    Carried (.inr w) place
      { s.turn w .finish with
        node := update s.node n
          { s.node n with semDetach := (s.node n).semDetach + 1 } } := by
  refine ⟨_, h.workerStep (n := n) (p := place n) rfl rfl
    (fun m hm => update_of_ne hm _ _)
    (h.placed_same (MppCluster.hand_inr hpc : s.hand (.inr w) = none).symm) ?_ (fun i hi => ?_)
    trivial (fun _ hm => absurd hm (by simp [WorkerPc.current])) (fun _ _ hp => hp),
    Moved.same _⟩
  · change NodeFits (update s.node n _ n) _
    rw [update_self]
    exact (h.fits n).congr rfl rfl rfl fun _ hp => hp
  · change (update s.node n _ n).queue = some i
    rw [update_self]
    exact hi

theorem stepWorker (h : Located s place) (hs : s.workerStep w = some s') :
    Carried (.inr w) place s' := by
  have hk := h.worker w
  have hcur := h.current w
  rw [MppCluster.workerStep] at hs
  rcases hpc : (s.worker w).pc with _ | ⟨i, count⟩ | ⟨i, count⟩ | ⟨i, count⟩ | ⟨i, count, n⟩ |
    ⟨i, count, n⟩ | ⟨i, count, n, old⟩ | ⟨i, count, n⟩ | ⟨i, count⟩ | ⟨i, count⟩ | _ | n | n | n |
    n | n | ⟨n, queue, state⟩ | ⟨n, queue, state⟩ | ⟨n, queue⟩ | ⟨n, queue⟩ | queue | queue | n |
    n | ⟨n, old⟩ | _
  all_goals
    rw [hpc] at hk hcur
    simp only [hpc] at hs
  -- `cluster_worker_get_task`
  case top =>
    obtain rfl := some.inj hs
    exact h.go hpc rfl trivial rfl
  case lock => exact h.lockQueue hpc hs rfl trivial rfl
  case first =>
    rcases hl : s.list (.queue i) with _ | ⟨n, l⟩
    · rw [hl] at hs
      obtain rfl := some.inj hs
      exact h.go hpc rfl trivial rfl
    · rw [hl] at hs
      obtain rfl := some.inj hs
      have hmem : n ∈ s.list (.queue i) := by
        rw [hl]
        exact List.mem_cons_self
      exact h.pick hpc (h.placed.mem_iff.1 hmem) trivial rfl rfl rfl trivial
  case empty =>
    obtain rfl := some.inj hs
    exact (h.withQueue _).go hpc (nextQueue_hand _ _ _) (nextQueue_known _ _ _ _)
      (nextQueue_current _ _ _)
  case uncount =>
    obtain rfl := some.inj hs
    exact (h.withQueue _).go hpc rfl trivial rfl
  case load =>
    obtain rfl := some.inj hs
    have hhand : s.hand (.inr w) = some (n, .wait) := MppCluster.hand_inr hpc
    have hphase : InPhase .wait (s.node n).state := (h.of_hand hhand).2
    exact h.go hpc rfl hphase rfl
  case cas =>
    split_ifs at hs with heq
    · obtain rfl := some.inj hs
      exact h.swap hpc rfl rfl (InPhase.take hk) rfl trivial
    · obtain rfl := some.inj hs
      exact h.go hpc rfl trivial rfl
  case add =>
    obtain rfl := some.inj hs
    exact h.put hpc (k := .work w) rfl (fun _ hi => absurd hi (by simp)) rfl rfl trivial
  case count =>
    obtain rfl := some.inj hs
    exact (h.withWork w 1).go ((s.addWork_pc w 1 w).trans hpc) rfl trivial rfl
  case unlock =>
    obtain rfl := some.inj hs
    refine (h.withQueue _).go hpc ?_ ?_ ?_
    all_goals split_ifs
    all_goals trivial
  -- `cluster_worker_run_task`
  case next =>
    rcases hl : s.list (.work w) with _ | ⟨n, l⟩
    · rw [hl] at hs
      obtain rfl := some.inj hs
      exact h.go hpc rfl trivial rfl
    · rw [hl] at hs
      obtain rfl := some.inj hs
      have hmem : n ∈ s.list (.work w) := by
        rw [hl]
        exact List.mem_cons_self
      refine h.turn hpc rfl trivial fun m hm => ?_
      obtain rfl := some.inj hm
      exact h.placed.mem_iff.1 hmem
  case proc =>
    obtain rfl := some.inj hs
    exact h.turn hpc rfl trivial hcur
  case test =>
    have hlinked := hcur n rfl
    split_ifs at hs with hvalid hsignal
    · obtain rfl := some.inj hs
      exact h.turn hpc rfl trivial hcur
    · obtain ⟨queue, hq, rfl⟩ := map_eq_some_iff.1 hs
      exact h.turn hpc rfl ⟨hq, (h.of_linked hlinked).2.eq_stateWord hvalid hsignal⟩ hcur
    · obtain rfl := some.inj hs
      exact h.turn hpc rfl trivial hcur
  case drop =>
    obtain rfl := some.inj hs
    exact h.pick hpc (hcur n rfl) rfl rfl rfl rfl trivial
  case unattach =>
    obtain rfl := some.inj hs
    exact h.unattach hpc
  case semPost =>
    obtain rfl := some.inj hs
    exact h.semPost hpc
  case unlink =>
    obtain rfl := some.inj hs
    exact h.pick hpc (hcur n rfl) rfl rfl rfl rfl hk
  case recas =>
    split_ifs at hs with heq
    · obtain rfl := some.inj hs
      obtain ⟨hq, rfl⟩ := hk
      refine h.swap hpc rfl rfl ⟨true, false, stateWord_requeue⟩ rfl ?_
      change (update s.node n _ n).queue = some queue
      rw [update_self]
      exact hq
    · obtain rfl := some.inj hs
      exact h.go hpc rfl hk rfl
  case relock => exact h.lockQueue hpc hs rfl hk rfl
  case readd =>
    obtain rfl := some.inj hs
    refine h.put hpc (k := .queue queue) rfl (fun i hi => ?_) rfl rfl trivial
    rw [← TaskList.queue.inj hi]
    exact hk
  case recount =>
    obtain rfl := some.inj hs
    exact (h.withQueue _).go hpc rfl trivial rfl
  case reunlock =>
    obtain rfl := some.inj hs
    exact (h.withQueue _).go hpc rfl trivial rfl
  case rest =>
    obtain rfl := some.inj hs
    exact h.pick hpc (hcur n rfl) rfl rfl rfl rfl trivial
  case restLoad =>
    obtain rfl := some.inj hs
    have hhand : s.hand (.inr w) = some (n, .run) := MppCluster.hand_inr hpc
    have hphase : InPhase .run (s.node n).state := (h.of_hand hhand).2
    exact h.go hpc rfl hphase rfl
  case restCas =>
    split_ifs at hs with heq
    · obtain rfl := some.inj hs
      exact h.rest hpc rfl hk
    · obtain rfl := some.inj hs
      exact h.go hpc rfl trivial rfl
  case finish =>
    obtain rfl := some.inj hs
    exact (h.withWork w (-1)).go ((s.addWork_pc w (-1) w).trans hpc) rfl trivial rfl

/-- The step lemma -/
theorem step (h : Located s place) {op : ClusterOp ι τ ω} (hs : s.step op = some s') :
    Carried op.actor place s' := by
  cases op with
  | attach t n => exact h.attach hs
  | trigger t n => exact h.trigger hs
  | detach t n => exact h.detach hs
  | thread t => exact h.stepThread hs
  | worker w => exact h.stepWorker hs

end Located

/-- In every reachable state the tasks are in their places. -/
theorem reachable_located {priority : ι → Priority} {batchCount : ω → ℤ}
    (hr : (clusterRun priority batchCount : Machine (MppCluster ι τ ω) _).Reachable s) :
    ∃ place, Located s place := by
  refine hr.invariant (P := fun s => ∃ place, Located s place) (fun s hs => ?_)
    fun s op s' _ hi hst => ?_
  · obtain rfl : s = clusterInit priority batchCount := hs
    exact ⟨_, located_init priority batchCount⟩
  · obtain ⟨place, h⟩ := hi
    obtain ⟨place', h', -⟩ := h.step hst
    exact ⟨place', h'⟩

end Libmpp.Base
