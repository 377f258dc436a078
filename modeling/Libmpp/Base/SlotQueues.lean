import Libmpp.Base.SlotGrowth

/-!
# Queues of slots

What is remembered of a run (`SlotLog`): which slot was put into which queue and has not
left it, in what order, and the holds on each slot that have been set and not cleared
since. In the runs of the parser, the hal and the display after the first setup, in which a
slot is enqueued only while it is in no queue (`Fits`), the links of the queues say the same
(`Queues`): so a queue hands out its slots in the order in which they were put in.
-/

namespace Libmpp.Base

open MppBufSlotsImpl List Option

/-! ## Runs with a log -/

/-- The holds on a slot that have been set and not cleared since. -/
structure Holds where
  halInput : ℕ
  halOutput : ℕ
  queueUse : ℕ
  deriving DecidableEq, Repr

namespace Holds

def set (holds : Holds) : SlotUsageType → Holds
  | .halInput => { holds with halInput := holds.halInput + 1 }
  | .halOutput => { holds with halOutput := holds.halOutput + 1 }
  | .queueUse => { holds with queueUse := holds.queueUse + 1 }
  | .codecReady | .codecUse => holds

/-- A clear of a hold that is not there counts for nothing. -/
def clr (holds : Holds) : SlotUsageType → Holds
  | .halInput => { holds with halInput := holds.halInput - 1 }
  | .halOutput => { holds with halOutput := holds.halOutput - 1 }
  | .queueUse => { holds with queueUse := holds.queueUse - 1 }
  | .codecReady | .codecUse => holds

instance : Zero Holds where
  zero := { halInput := 0, halOutput := 0, queueUse := 0 }

end Holds

structure SlotLog where
  holds : ℕ → Holds
  /-- The queue a slot was put into, and has not left. -/
  queued : ℕ → Option SlotQueueType
  clock : ℕ
  /-- When a slot was last put into a queue. -/
  stamp : ℕ → ℕ
  /-- The stamps of the slots that a queue has handed out. -/
  received : SlotQueueType → List ℕ

namespace SlotLog

def enqueue (log : SlotLog) (i : ℕ) (type : SlotQueueType) : SlotLog :=
  { log with
    queued := Function.update log.queued i (some type)
    clock := log.clock + 1
    stamp := Function.update log.stamp i log.clock }

def dequeue (log : SlotLog) (i : ℕ) (type : SlotQueueType) : SlotLog :=
  { log with
    queued := Function.update log.queued i none
    received := Function.update log.received type (log.received type ++ [log.stamp i]) }

def record (log : SlotLog) : SlotOp → SlotLog
  | .setFlag index type =>
    { log with
      holds := Function.update log.holds index.toNat ((log.holds index.toNat).set type) }
  | .clrFlag index type =>
    { log with
      holds := Function.update log.holds index.toNat ((log.holds index.toNat).clr type) }
  | .enqueue index type => log.enqueue index.toNat type
  | _ => log

/-- The queues a slot is in: one or none. -/
def inQueue (log : SlotLog) (i : ℕ) : ℕ := if log.queued i = none then 0 else 1

/-- The holds on a slot fit the fields of its status, the queue it is in being one of its
    queue uses. -/
structure InWidths (log : SlotLog) (i : ℕ) : Prop where
  halInput : (log.holds i).halInput ≤ 255
  halOutput : (log.holds i).halOutput ≤ 3
  queueUses : (log.holds i).queueUse + log.inQueue i ≤ 31

end SlotLog

/-- The slots with the log of their run. -/
structure SlotRun where
  impl : MppBufSlotsImpl
  log : SlotLog

def slotRunInit : SlotRun :=
  { impl := mppBufSlotInit
    log := { holds := fun _ => 0, queued := fun _ => none, clock := 0, stamp := fun _ => 0,
             received := fun _ => [] } }

/-- One operation, with its entry in the log. -/
def slotRunStep (r : SlotRun) : SlotOp → Option SlotRun
  | .dequeue type =>
    (mppBufSlotDequeue r.impl type).map fun (_, index, impl) =>
      { impl, log := index.elim r.log fun index => r.log.dequeue index.toNat type }
  | op => (slotStep r.impl op).map fun impl => { impl, log := r.log.record op }

def slotRunMachine : Machine SlotRun SlotOp := .ofPartial slotRunInit slotRunStep

/-- The slots are set up once; a slot is enqueued only while it is in no queue; and the
    holds on it fit. -/
def Fits (r : SlotRun) (op : SlotOp) (r' : SlotRun) : Prop :=
  match op with
  | .setup count _ => r.impl.slots = none ∧ 0 ≤ count
  | .ready _ | .reset _ | .setProp _ .framePtr => False
  | .setFlag index _ => r'.log.InWidths index.toNat
  | .enqueue index _ => r.log.queued index.toNat = none ∧ r'.log.InWidths index.toNat
  | _ => True

/-! ## The links -/

variable {impl impl' : MppBufSlotsImpl} {log log' : SlotLog} {i : ℕ} {type : SlotQueueType}
  {lists : SlotQueueType → List ℕ}

namespace MppBufSlotsImpl

/-- The links of the slots. -/
def nodes (impl : MppBufSlotsImpl) : Set SlotNode :=
  { node | ∃ i < impl.entries.length, node = impl.node i }

theorem node_injective (impl : MppBufSlotsImpl) : Function.Injective impl.node :=
  fun _ _ h => (SlotNode.slot.inj h).2

theorem node_mem_nodes (hi : i < impl.entries.length) : impl.node i ∈ impl.nodes :=
  ⟨i, hi, rfl⟩

/-- Where there are entries, there is a block for them. -/
theorem slots_of_lt (hi : i < impl.entries.length) : ∃ block, impl.slots = some block := by
  refine ne_none_iff_exists'.1 fun hnone => ?_
  rw [entries, hnone] at hi
  exact absurd hi (by simp)

theorem isLive_of_mem {node : SlotNode} (h : node ∈ impl.nodes) : impl.isLive node := by
  obtain ⟨i, hi, rfl⟩ := h
  obtain ⟨block, hslots⟩ := slots_of_lt hi
  rw [MppBufSlotsImpl.node, isLive, hslots, getD_some, entryAt_slots hslots,
    getElem?_eq_getElem hi]
  rfl

end MppBufSlotsImpl

/-- The queues are the lists `lists` of slots, as the log says, in its order. -/
structure Queues (impl : MppBufSlotsImpl) (log : SlotLog) (lists : SlotQueueType → List ℕ) :
    Prop where
  linked : Linked impl.link .queue (fun type => (lists type).map impl.node) impl.nodes
  filed : Filed lists log.queued
  served : Served lists log.stamp log.clock log.received

/-- The part of the log that is about the queues is the same. -/
structure SameQueues (log log' : SlotLog) : Prop where
  queued : log'.queued = log.queued
  clock : log'.clock = log.clock
  stamp : log'.stamp = log.stamp
  received : log'.received = log.received

theorem Queues.of_same (h : Queues impl log lists) (hslots : impl'.slots = impl.slots)
    (hlen : impl'.entries.length = impl.entries.length) (hlink : impl'.link = impl.link)
    (hlog : SameQueues log log') : Queues impl' log' lists where
  linked := by
    have hnode : impl'.node = impl.node := by
      funext i
      rw [MppBufSlotsImpl.node, MppBufSlotsImpl.node, hslots]
    have hnodes : impl'.nodes = impl.nodes := by
      rw [MppBufSlotsImpl.nodes, MppBufSlotsImpl.nodes, hlen, hnode]
    rw [hlink, hnode, hnodes]
    exact h.linked
  filed := hlog.queued ▸ h.filed
  served := by
    rw [hlog.stamp, hlog.clock, hlog.received]
    exact h.served

/-- `list_del_init` of a slot writes memory that is there. -/
theorem Queues.delInit (h : Queues impl log lists) (hi : i < impl.entries.length) :
    impl.delInit (impl.node i) = some { impl with link := listDelInit impl.link (impl.node i) } := by
  obtain ⟨-, -, hprev, hnext⟩ := h.linked.around (node_mem_nodes hi)
  have hlive : ∀ node, (node ∈ impl.nodes ∨ ∃ k, node = SlotNode.queue k) → impl.isLive node := by
    rintro node (hmem | ⟨k, rfl⟩)
    · exact isLive_of_mem hmem
    · rfl
  rw [MppBufSlotsImpl.delInit, if_pos ⟨hlive _ hprev, hlive _ hnext⟩]

/-- The slots are those in memory. -/
theorem Queues.lt_length (h : Queues impl log lists) (hi : i ∈ lists type) :
    i < impl.entries.length := by
  obtain ⟨j, hj, hnode⟩ := h.linked.mem type _ (mem_map_of_mem hi)
  rw [impl.node_injective hnode]
  exact hj

/-- A slot in no queue is put at the end of one. -/
theorem Queues.enqueue (h : Queues impl log lists) (hi : i < impl.entries.length)
    (hq : log.queued i = none) (type : SlotQueueType) :
    Queues
      { impl with
        link := listAddTail (listDelInit impl.link (impl.node i)) (impl.node i) (.queue type) }
      (log.enqueue i type) (file i type lists) where
  linked := by
    have hnot : ∀ type, i ∉ lists type := fun type hmem => by
      rw [h.filed.mem_iff, hq] at hmem
      exact absurd hmem (by simp)
    have hsame : unfile i lists = lists := funext fun type => erase_of_not_mem (hnot type)
    have hdel := h.linked.listDelInit (node_mem_nodes hi)
    rw [unfile_map impl.node_injective, hsame] at hdel
    have hadd := hdel.listAddTail (node_mem_nodes hi)
      (fun type hmem => hnot type ((List.mem_map_of_injective impl.node_injective).1 hmem)) type
    rw [file_map] at hadd
    exact hadd
  filed := h.filed.file hq type
  served := h.served.file (fun type hmem => by
    rw [h.filed.mem_iff, hq] at hmem
    exact absurd hmem (by simp)) type

/-- The slot at the front of a queue is taken out, and served. -/
theorem Queues.dequeue (h : Queues impl log lists) {l : List ℕ} (hl : lists type = i :: l) :
    Queues { impl with link := listDelInit impl.link (impl.node i) } (log.dequeue i type)
      (unfile i lists) where
  linked := by
    have hmem : i ∈ lists type := hl ▸ mem_cons_self
    have hdel := h.linked.listDelInit (node_mem_nodes (h.lt_length hmem))
    rw [unfile_map impl.node_injective] at hdel
    exact hdel
  filed := h.filed.unfile i
  served := h.served.serve hl

/-! ## The operations -/

/-- The slots are numbered, and all of them count. -/
structure Numbered (impl : MppBufSlotsImpl) : Prop where
  index : ∀ (i : ℕ) (slot : MppBufSlotEntry), impl.entries[i]? = some slot → slot.index = i
  all : impl.bufCount = impl.entries.length

/-- What a dequeue comes to: nothing, or the slot at the front of the queue, which is
    ready. -/
inductive Dequeued (impl : MppBufSlotsImpl) (type : SlotQueueType)
    (lists : SlotQueueType → List ℕ) : MppRet × Option ℤ × MppBufSlotsImpl → Prop
  | none : Dequeued impl type lists (mppNok, none, impl)
  | some {i : ℕ} {l : List ℕ} {slot : MppBufSlotEntry} {impl' : MppBufSlotsImpl} :
      lists type = i :: l → impl.entries[i]? = some slot → slot.status.notReady = false →
        Edited impl impl' (.dequeue type) i →
          impl'.link = listDelInit impl.link (impl.node i) →
            Dequeued impl type lists (mppOk, some (i : ℤ), impl')

theorem dequeue_dequeued (h : Queues impl log lists) (hn : Numbered impl)
    {r : MppRet × Option ℤ × MppBufSlotsImpl} (hst : mppBufSlotDequeue impl type = some r) :
    Dequeued impl type lists r := by
  rw [mppBufSlotDequeue] at hst
  split_ifs at hst with hempty
  · obtain rfl := some.inj hst
    exact .none
  · obtain ⟨i, l, hl⟩ : ∃ i l, lists type = i :: l := by
      refine exists_cons_of_ne_nil fun hnil => hempty ((h.linked.listEmpty type).2 ?_)
      rw [hnil, map_nil]
    have hlt : i < impl.entries.length := h.lt_length (hl ▸ mem_cons_self)
    obtain ⟨block, hslots⟩ := slots_of_lt hlt
    have hmap : (lists type).map impl.node = impl.node i :: l.map impl.node := by
      rw [hl, map_cons]
    have hnode : impl.node i = .slot block i := by
      rw [MppBufSlotsImpl.node, hslots, getD_some]
    have hnext : (impl.link (.queue type)).next = .slot block i :=
      (h.linked.next_head hmap).trans hnode
    have hget : impl.entryAt block i = some impl.entries[i] := by
      rw [entryAt_slots hslots, getElem?_eq_getElem hlt]
    have hget' : impl.entries[i]? = some impl.entries[i] := getElem?_eq_getElem hlt
    rw [hnext] at hst
    dsimp only at hst
    rw [hget, bind_eq_bind, bind_some] at hst
    split_ifs at hst with hready
    · obtain rfl := some.inj hst
      exact .none
    · rw [← hnode, h.delInit hlt, bind_eq_bind, bind_some] at hst
      split_ifs at hst
      obtain rfl := some.inj hst
      rw [hn.index i _ hget']
      have hentries := @entries_modify impl block i
        fun slot => slotOpsWithLog slot (.dequeue type) false
      rw [if_pos hslots] at hentries
      exact .some hl hget' (Bool.not_eq_true _ ▸ hready) ⟨⟨rfl, rfl, rfl, hentries,
        used_add_zero _⟩, hlt, by rw [hn.all]; omega⟩ rfl

/-! ## Runs -/

/-- The first setup: there is no slot yet, and so none in a queue. -/
theorem Queues.setup {count : ℤ} {mem : Realloc} (h : Queues impl log lists)
    (hslots : impl.slots = none) (hcount : 0 ≤ count) :
    Queues (mppBufSlotSetup impl count mem) log lists := by
  have hnil : ∀ type, lists type = [] := fun type => by
    refine eq_nil_iff_forall_not_mem.2 fun i hi => ?_
    obtain ⟨block, hblock⟩ := slots_of_lt (h.lt_length hi)
    exact absurd (hblock.symm.trans hslots) (by simp)
  have hqueue : ∀ type, (mppBufSlotSetup impl count mem).link (.queue type) =
      impl.link (.queue type) := fun type => by
    simp [mppBufSlotSetup, hslots, initSlotEntry, calloc, hcount]
  have hblock : (mppBufSlotSetup impl count mem).slots = some impl.blocks := by
    simp [mppBufSlotSetup, hslots, initSlotEntry, calloc, hcount]
  refine ⟨?_, h.filed, h.served⟩
  constructor
  · intro type
    have hring := h.linked.ring type
    rw [hnil, map_nil] at hring ⊢
    have hj := (isChain_cons_cons.1 hring).1
    refine isChain_cons_cons.2 ⟨⟨?_, ?_⟩, isChain_singleton _⟩
    · rw [hqueue]
      exact hj.next
    · rw [hqueue]
      exact hj.prev
  · intro type
    rw [hnil]
    exact nodup_nil
  · intro type node hnode
    rw [hnil] at hnode
    exact absurd hnode not_mem_nil
  · rintro type ⟨i, -, hnode⟩
    exact absurd hnode SlotNode.noConfusion
  · exact fun k k' hk => SlotNode.queue.inj hk
  · intro node type type' hnode
    rw [hnil] at hnode
    exact absurd hnode not_mem_nil
  · rintro node ⟨i, hi, rfl⟩ -
    rw [entries_setup_first hslots hcount, length_mapIdx, length_replicate] at hi
    have hlt : (i : ℤ) < count := by omega
    rw [MppBufSlotsImpl.node, hblock]
    simp [mppBufSlotSetup, hslots, initSlotEntry, calloc, hcount, hlt]

theorem Numbered.setup {count : ℤ} {mem : Realloc} (hslots : impl.slots = none)
    (hcount : 0 ≤ count) : Numbered (mppBufSlotSetup impl count mem) where
  index i slot hget := by
    rw [entries_setup_first hslots hcount, getElem?_mapIdx] at hget
    obtain ⟨slot₀, hslot₀, rfl⟩ := map_eq_some_iff.1 hget
    have hi := (List.getElem?_eq_some_iff.1 hslot₀).1
    rw [length_replicate] at hi
    have hlt : (i : ℤ) < count := by omega
    simp [hlt, initEntry, slotOpsWithLog]
  all := by
    rw [bufCount_setup_first hslots, entries_setup_first hslots hcount, length_mapIdx,
      length_replicate, Int.toNat_of_nonneg hcount]

theorem Numbered.edited {op : SlotOp} (hn : Numbered impl) (h : Edited impl impl' op i)
    (hf : ∀ slot, (op.edit slot).index = slot.index) : Numbered impl' where
  index j slot hget := by
    by_cases hj : j = i
    · subst hj
      have hlt := h.lt
      have hself := h.getElem?_self (getElem?_eq_getElem hlt)
      obtain rfl := some.inj (hget.symm.trans hself)
      exact (hf _).trans (hn.index j _ (getElem?_eq_getElem hlt))
    · exact hn.index j slot ((h.getElem?_of_ne hj).symm.trans hget)
  all := by
    rw [h.bufCount, hn.all, h.length]

end Libmpp.Base
