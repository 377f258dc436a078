import Libmpp.Base.SlotQueues

/-!
# Slots that nobody holds

The fields of a slot's status count its holds: what the hal reads and writes, and the uses
in queues, in which the slot's place in a queue is one (`HoldInv`). So a slot is recycled
only when each hold on it has been cleared and it is in no queue
(`recycled_unheld`).

The field does not say who a use belongs to: clearing a `SLOT_QUEUE_USE` that was not set
takes away the one of the queue (`recycled_in_queue`). The callers clear what they have set
(`ClearsOwn`).
-/

namespace Libmpp.Base

open MppBufSlotsImpl Function List Option

variable {r r' : SlotRun} {impl impl' : MppBufSlotsImpl} {log : SlotLog} {i : ℕ}
  {slot : MppBufSlotEntry}

/-- Only a queue use that is set is cleared. -/
def ClearsOwn (r : SlotRun) : SlotOp → Prop
  | .clrFlag index .queueUse => 0 < (r.log.holds index.toNat).queueUse
  | _ => True

/-! ## Counting holds -/

/-- The fields of the status count the holds, and the queues the slot is in. -/
structure HeldBy (status : SlotStatus) (holds : Holds) (queues : ℕ) : Prop where
  halInput : status.halUse.toNat = holds.halInput
  halOutput : status.halOutput.toNat = holds.halOutput
  queueUse : status.queueUse.toNat = holds.queueUse + queues

theorem toNat_add_one {w n : ℕ} {x : BitVec w} (hx : x.toNat = n) (hn : n + 1 < 2 ^ w) :
    (x + 1#w).toNat = n + 1 := by
  have hw : 1 < 2 ^ w := by omega
  rw [BitVec.toNat_add, BitVec.toNat_ofNat, Nat.mod_eq_of_lt hw, hx, Nat.mod_eq_of_lt hn]

/-- A field counts down to zero. -/
theorem toNat_sub_one {w n : ℕ} {x : BitVec w} (hx : x.toNat = n) (hw : 0 < w) :
    (if x ≠ 0#w then x - 1#w else x).toNat = n - 1 := by
  have h1 : 1 < 2 ^ w := Nat.one_lt_two_pow hw.ne'
  split_ifs with hne
  · have hpos : 0 < x.toNat :=
      Nat.pos_of_ne_zero fun h0 => hne (BitVec.eq_of_toNat_eq (by simpa using h0))
    have hlt := x.isLt
    have heq : 2 ^ w - 1 + x.toNat = (x.toNat - 1) + 2 ^ w := by omega
    rw [BitVec.toNat_sub, BitVec.toNat_ofNat, Nat.mod_eq_of_lt h1, heq, Nat.add_mod_right,
      Nat.mod_eq_of_lt (by omega), hx]
  · rw [not_not] at hne
    have h0 : n = 0 := by
      rw [← hx, hne]
      simp
    rw [hx, h0]

namespace HeldBy

variable {status : SlotStatus} {holds : Holds} {queues : ℕ}

theorem set (h : HeldBy status holds queues) (type : SlotUsageType)
    (hin : (holds.set type).halInput ≤ 255) (hout : (holds.set type).halOutput ≤ 3)
    (huse : (holds.set type).queueUse + queues ≤ 31) :
    HeldBy (status.ops (setFlagOp type) false) (holds.set type) queues := by
  obtain ⟨h₁, h₂, h₃⟩ := h
  cases type with
  | codecReady => exact ⟨h₁, h₂, h₃⟩
  | codecUse => exact ⟨h₁, h₂, h₃⟩
  | halInput =>
    have hfit : holds.halInput + 1 ≤ 255 := hin
    exact ⟨toNat_add_one h₁ (by omega), h₂, h₃⟩
  | halOutput =>
    have hfit : holds.halOutput + 1 ≤ 3 := hout
    exact ⟨h₁, toNat_add_one h₂ (by omega), h₃⟩
  | queueUse =>
    have hfit : holds.queueUse + 1 + queues ≤ 31 := huse
    refine ⟨h₁, h₂, (toNat_add_one h₃ (by omega)).trans ?_⟩
    simp only [Holds.set]
    omega

/-- The status after a field is counted down. -/
theorem ops_clrHalInput : (status.ops .clrHalInput false).halUse =
    if status.halUse ≠ 0 then status.halUse - 1 else status.halUse :=
  apply_ite SlotStatus.halUse _ _ _

theorem ops_clrQueueUse : (status.ops .clrQueueUse false).queueUse =
    if status.queueUse ≠ 0 then status.queueUse - 1 else status.queueUse :=
  apply_ite SlotStatus.queueUse _ _ _

theorem clr (h : HeldBy status holds queues) (type : SlotUsageType)
    (hown : type = .queueUse → 0 < holds.queueUse) :
    HeldBy (status.ops (clrFlagOp type) false) (holds.clr type) queues := by
  obtain ⟨h₁, h₂, h₃⟩ := h
  cases type with
  | codecReady => exact ⟨h₁, h₂, h₃⟩
  | codecUse => exact ⟨h₁, h₂, h₃⟩
  | halInput =>
    refine ⟨?_, ?_, ?_⟩
    · rw [clrFlagOp, ops_clrHalInput]
      exact toNat_sub_one h₁ (by omega)
    · simp only [clrFlagOp, SlotStatus.ops]
      split_ifs <;> exact h₂
    · simp only [clrFlagOp, SlotStatus.ops]
      split_ifs <;> exact h₃
  | halOutput => exact ⟨h₁, toNat_sub_one h₂ (by omega), h₃⟩
  | queueUse =>
    have hpos := hown rfl
    refine ⟨?_, ?_, ?_⟩
    · simp only [clrFlagOp, SlotStatus.ops]
      split_ifs <;> exact h₁
    · simp only [clrFlagOp, SlotStatus.ops]
      split_ifs <;> exact h₂
    · rw [clrFlagOp, ops_clrQueueUse]
      refine (toNat_sub_one h₃ (by omega)).trans ?_
      simp only [Holds.clr]
      omega

theorem enqueue (h : HeldBy status holds 0) (type : SlotQueueType)
    (huse : holds.queueUse + 1 ≤ 31) : HeldBy (status.ops (.enqueue type) false) holds 1 :=
  ⟨h.halInput, h.halOutput, toNat_add_one h.queueUse (by omega)⟩

theorem dequeue (h : HeldBy status holds 1) (type : SlotQueueType) :
    HeldBy (status.ops (.dequeue type) false) holds 0 := by
  obtain ⟨h₁, h₂, h₃⟩ := h
  have hops : status.ops (.dequeue type) false = status.ops .clrQueueUse false := rfl
  rw [hops]
  refine ⟨?_, ?_, ?_⟩
  · simp only [SlotStatus.ops]
    split_ifs <;> exact h₁
  · simp only [SlotStatus.ops]
    split_ifs <;> exact h₂
  · rw [ops_clrQueueUse]
    exact toNat_sub_one h₃ (by omega)

/-- Without a hold in the fields there is none. -/
theorem eq_zero (h : HeldBy status holds queues) (hin : status.halUse = 0)
    (hout : status.halOutput = 0) (huse : status.queueUse = 0) : holds = 0 ∧ queues = 0 := by
  obtain ⟨h₁, h₂, h₃⟩ := h
  rw [hin] at h₁
  rw [hout] at h₂
  rw [huse] at h₃
  have h₁ : 0 = holds.halInput := h₁
  have h₂ : 0 = holds.halOutput := h₂
  have h₃ : 0 = holds.queueUse + queues := h₃
  obtain ⟨a, b, c⟩ := holds
  simp only at h₁ h₂ h₃
  refine ⟨?_, by omega⟩
  rw [← h₁, ← h₂, (by omega : c = 0)]
  rfl

end HeldBy

/-- Recycling an entry leaves its holds, and its readiness. -/
structure SameHolds (status status' : SlotStatus) : Prop where
  notReady : status'.notReady = status.notReady
  codecUse : status'.codecUse = status.codecUse
  halUse : status'.halUse = status.halUse
  halOutput : status'.halOutput = status.halOutput
  queueUse : status'.queueUse = status.queueUse

theorem sameHolds_recycle (slot : MppBufSlotEntry) :
    SameHolds slot.status (recycle slot).status := by
  rw [recycle]
  split_ifs <;> exact ⟨rfl, rfl, rfl, rfl, rfl⟩

/-! ## Runs -/

/-- The invariant of a run. -/
structure HoldInv (r : SlotRun) : Prop where
  queues : ∃ lists, Queues r.impl r.log lists
  numbered : Numbered r.impl
  held : ∀ i slot, r.impl.entries[i]? = some slot →
    HeldBy slot.status (r.log.holds i) (r.log.inQueue i)
  idle : ∀ i, r.impl.entries[i]? = none → r.log.holds i = 0

/-- The log is the same about the other slots. -/
structure LogsAt (log log' : SlotLog) (i : ℕ) : Prop where
  holds : ∀ j, j ≠ i → log'.holds j = log.holds j
  queued : ∀ j, j ≠ i → log'.queued j = log.queued j

variable {op : SlotOp}

theorem HoldInv.edited {log' : SlotLog} (h : HoldInv r) (he : Edited r.impl impl' op i)
    (hq : ∃ lists, Queues impl' log' lists) (hindex : ∀ slot, (op.edit slot).index = slot.index)
    (hlog : LogsAt r.log log' i)
    (hf : ∀ slot, HeldBy slot.status (r.log.holds i) (r.log.inQueue i) →
      HeldBy (op.edit slot).status (log'.holds i) (log'.inQueue i)) :
    HoldInv { impl := impl', log := log' } where
  queues := hq
  numbered := h.numbered.edited he hindex
  held j slot hget := by
    by_cases hj : j = i
    · subst hj
      have hold := getElem?_eq_getElem he.lt
      obtain rfl := some.inj (hget.symm.trans (he.getElem?_self hold))
      exact hf _ (h.held j _ hold)
    · have hheld := h.held j slot ((he.getElem?_of_ne hj).symm.trans hget)
      dsimp only
      rw [hlog.holds j hj, SlotLog.inQueue, hlog.queued j hj]
      exact hheld
  idle j hnone := by
    have hj : j ≠ i := by
      rintro rfl
      have hlt := he.length ▸ he.lt
      exact absurd (hnone.symm.trans (getElem?_eq_getElem hlt)) (by simp)
    dsimp only
    rw [hlog.holds j hj]
    exact h.idle j ((he.getElem?_of_ne hj).symm.trans hnone)

/-- An edit that leaves the links, with a log that leaves the queues. -/
theorem HoldInv.edited_of_link {log' : SlotLog} (h : HoldInv r)
    (he : Edited r.impl impl' op i ∧ impl'.link = r.impl.link) (hsame : SameQueues r.log log')
    (hholds : ∀ j, j ≠ i → log'.holds j = r.log.holds j)
    (hindex : ∀ slot, (op.edit slot).index = slot.index)
    (hf : ∀ slot, HeldBy slot.status (r.log.holds i) (r.log.inQueue i) →
      HeldBy (op.edit slot).status (log'.holds i) (r.log.inQueue i)) :
    HoldInv { impl := impl', log := log' } := by
  obtain ⟨lists, hq⟩ := h.queues
  refine h.edited he.1 ⟨lists, hq.of_same he.1.slots he.1.length he.2 hsame⟩ hindex
    ⟨hholds, fun j _ => congrFun hsame.queued j⟩ fun slot hslot => ?_
  rw [SlotLog.inQueue, hsame.queued]
  exact hf slot hslot

theorem SameQueues.refl (log : SlotLog) : SameQueues log log := ⟨rfl, rfl, rfl, rfl⟩

theorem index_recycle (slot : MppBufSlotEntry) : (recycle slot).index = slot.index := by
  rw [recycle]
  split_ifs <;> rfl

theorem holdInv_init : HoldInv slotRunInit where
  queues := by
    refine ⟨fun _ => [], ?_, Filed.empty, Served.empty⟩
    constructor
    · exact fun type => isChain_cons_cons.2 ⟨⟨rfl, rfl⟩, isChain_singleton _⟩
    · exact fun _ => nodup_nil
    · exact fun _ _ hnode => absurd hnode not_mem_nil
    · rintro type ⟨i, hi, -⟩
      exact absurd hi (Nat.not_lt_zero i)
    · exact fun k k' hk => SlotNode.queue.inj hk
    · exact fun _ _ _ hnode => absurd hnode not_mem_nil
    · rintro node ⟨i, hi, -⟩
      exact absurd hi (Nat.not_lt_zero i)
  numbered := ⟨fun i slot hget => absurd hget (by simp [slotRunInit, mppBufSlotInit, entries]), rfl⟩
  held i slot hget := absurd hget (by simp [slotRunInit, mppBufSlotInit, entries])
  idle _ _ := rfl

theorem HoldInv.setup {count : ℤ} {mem : Realloc} (h : HoldInv r) (hslots : r.impl.slots = none)
    (hcount : 0 ≤ count) :
    HoldInv { impl := mppBufSlotSetup r.impl count mem, log := r.log } := by
  obtain ⟨lists, hq⟩ := h.queues
  have hempty : r.impl.entries = [] := by rw [entries, hslots]; rfl
  have hnone : ∀ i, r.log.holds i = 0 := fun i => h.idle i (by rw [hempty]; rfl)
  have hqueued : ∀ i, r.log.queued i = none := fun i => by
    by_contra hne
    obtain ⟨type, htype⟩ := ne_none_iff_exists'.1 hne
    have hlt := hq.lt_length ((hq.filed.mem_iff i type).2 htype)
    rw [hempty] at hlt
    exact absurd hlt (Nat.not_lt_zero i)
  refine ⟨⟨lists, hq.setup hslots hcount⟩, .setup hslots hcount, fun i slot hget => ?_,
    fun i _ => hnone i⟩
  have hlt := (List.getElem?_eq_some_iff.1 hget).1
  rw [entries_setup_first hslots hcount, getElem?_mapIdx] at hget
  obtain ⟨slot₀, hslot₀, rfl⟩ := Option.map_eq_some_iff.1 hget
  have hi := (List.getElem?_eq_some_iff.1 hslot₀).1
  rw [List.length_replicate] at hi
  have hc : (i : ℤ) < count := by omega
  rw [hnone, SlotLog.inQueue, if_pos (hqueued i), if_pos hc]
  exact ⟨rfl, rfl, rfl⟩

theorem HoldInv.clrFlag {index : ℤ} {type : SlotUsageType} (h : HoldInv r)
    (hst : slotRunStep r (.clrFlag index type) = some r') (hown : ClearsOwn r (.clrFlag index type)) :
    HoldInv r' := by
  obtain ⟨impl, himpl, rfl⟩ := map_eq_some_iff.1 hst
  obtain ⟨p, hp, rfl⟩ := map_eq_some_iff.1 himpl
  refine h.edited_of_link (clrFlag_edited hp) ⟨rfl, rfl, rfl, rfl⟩
    (fun j hj => update_of_ne hj _ _) (fun slot => ?_) fun slot hslot => ?_
  · rw [SlotOp.edit, clrEdit]
    split_ifs
    · exact index_recycle _
    · rfl
  · have hclr := hslot.clr type fun htype => by
      subst htype
      exact hown
    have hholds : (r.log.record (.clrFlag index type)).holds index.toNat =
        (r.log.holds index.toNat).clr type := update_self _ _ _
    rw [SlotOp.edit, clrEdit, hholds]
    split_ifs
    · obtain ⟨-, -, h₁, h₂, h₃⟩ := sameHolds_recycle (slotOpsWithLog slot (clrFlagOp type) false)
      exact ⟨h₁ ▸ hclr.halInput, h₂ ▸ hclr.halOutput, h₃ ▸ hclr.queueUse⟩
    · exact hclr

theorem HoldInv.enqueue {index : ℤ} {type : SlotQueueType} (h : HoldInv r)
    (hst : slotRunStep r (.enqueue index type) = some r')
    (hfit : Fits r (.enqueue index type) r') : HoldInv r' := by
  obtain ⟨impl, himpl, rfl⟩ := map_eq_some_iff.1 hst
  obtain ⟨he, hlink⟩ := enqueue_edited himpl
  obtain ⟨hnone, -, -, huses⟩ := hfit
  obtain ⟨lists, hq⟩ := h.queues
  refine h.edited he ⟨file index.toNat type lists, ?_⟩ (fun _ => rfl)
    ⟨fun _ _ => rfl, fun j hj => update_of_ne hj _ _⟩ fun slot hslot => ?_
  · exact (hq.enqueue he.lt hnone type).of_same he.slots he.length hlink ⟨rfl, rfl, rfl, rfl⟩
  · have hin : (r.log.record (.enqueue index type)).inQueue index.toNat = 1 := by
      simp [SlotLog.inQueue, SlotLog.record, SlotLog.enqueue]
    dsimp only at huses
    rw [hin] at huses ⊢
    rw [SlotLog.inQueue, if_pos hnone] at hslot
    exact hslot.enqueue type huses

theorem HoldInv.dequeue {type : SlotQueueType} (h : HoldInv r)
    (hst : slotRunStep r (.dequeue type) = some r') : HoldInv r' := by
  obtain ⟨p, hp, rfl⟩ := map_eq_some_iff.1 hst
  obtain ⟨lists, hq⟩ := h.queues
  cases dequeue_dequeued hq h.numbered hp with
  | none => exact h
  | @some i l slot impl' hl hget hready he hlink =>
    have hqueued : r.log.queued i = some type :=
      (hq.filed.mem_iff i type).1 (hl ▸ mem_cons_self)
    have hlog : (some (i : ℤ)).elim r.log (fun index => r.log.dequeue index.toNat type) =
        r.log.dequeue i type := rfl
    dsimp only
    rw [hlog]
    refine h.edited he ⟨unfile i lists, ?_⟩ (fun _ => rfl)
      ⟨fun _ _ => rfl, fun j hj => update_of_ne hj _ _⟩ fun slot hslot => ?_
    · exact (hq.dequeue hl).of_same he.slots he.length hlink ⟨rfl, rfl, rfl, rfl⟩
    · have hin : (r.log.dequeue i type).inQueue i = 0 := by
        simp [SlotLog.inQueue, SlotLog.dequeue]
      rw [SlotLog.inQueue, if_neg (by simp [hqueued])] at hslot
      rw [hin]
      exact hslot.dequeue type

theorem holdInv_step (h : HoldInv r) (hst : slotRunStep r op = some r') (hfit : Fits r op r')
    (hown : ClearsOwn r op) : HoldInv r' := by
  cases op with
  | setup count mem =>
    obtain rfl := some.inj hst
    exact h.setup hfit.1 hfit.2
  | ready mem => exact absurd hfit id
  | reset index => exact absurd hfit id
  | getUnused =>
    obtain ⟨impl, himpl, rfl⟩ := map_eq_some_iff.1 hst
    obtain ⟨p, hp, rfl⟩ := map_eq_some_iff.1 himpl
    obtain ⟨i, -, he, hlink, -⟩ := getUnused_edited hp
    exact h.edited_of_link ⟨he, hlink⟩ (.refl _) (fun _ _ => rfl) (fun _ => rfl)
      fun slot hslot => ⟨hslot.halInput, hslot.halOutput, hslot.queueUse⟩
  | setFlag index type =>
    obtain ⟨impl, himpl, rfl⟩ := map_eq_some_iff.1 hst
    obtain ⟨hin, hout, huses⟩ := hfit
    refine h.edited_of_link (setFlag_edited himpl) ⟨rfl, rfl, rfl, rfl⟩
      (fun j hj => update_of_ne hj _ _) (fun _ => rfl) fun slot hslot => ?_
    simp only [SlotLog.record, update_self] at hin hout huses ⊢
    exact hslot.set type hin hout huses
  | clrFlag index type => exact h.clrFlag hst hown
  | enqueue index type => exact h.enqueue hst hfit
  | dequeue type => exact h.dequeue hst
  | setProp index val =>
    obtain ⟨impl, himpl, rfl⟩ := map_eq_some_iff.1 hst
    refine h.edited_of_link (setProp_edited himpl) (.refl _) (fun _ _ => rfl) (fun slot => ?_)
      fun slot hslot => ?_
    · cases val <;> rfl
    · cases val with
      | framePtr => exact absurd hfit id
      | _ => exact ⟨hslot.halInput, hslot.halOutput, hslot.queueUse⟩
  | getProp index type =>
    obtain ⟨impl, himpl, rfl⟩ := map_eq_some_iff.1 hst
    obtain ⟨v, -, rfl⟩ := map_eq_some_iff.1 himpl
    exact h
  | defaultInfo index frame =>
    obtain ⟨impl, himpl, rfl⟩ := map_eq_some_iff.1 hst
    obtain ⟨p, hp, rfl⟩ := map_eq_some_iff.1 himpl
    rcases defaultInfo_edited hp with hsame | he
    · rw [hsame]
      exact h
    · exact h.edited_of_link he (.refl _) (fun _ _ => rfl) (fun _ => rfl)
        fun slot hslot => ⟨hslot.halInput, hslot.halOutput, hslot.queueUse⟩

/-- The runs in which the slots are used as they should be. -/
abbrev UsedWell (r : SlotRun) (op : SlotOp) (r' : SlotRun) : Prop := Fits r op r' ∧ ClearsOwn r op

theorem reachable_holdInv (hr : (slotRunMachine.guarded UsedWell).Reachable r) : HoldInv r := by
  refine hr.invariant (P := HoldInv) (fun s hs => ?_) fun s op s' _ hi hst => ?_
  · obtain rfl : s = slotRunInit := hs
    exact holdInv_init
  · exact holdInv_step hi hst.1 hst.2.1 hst.2.2

/-! ## Recycling -/

/-- The slot is taken out of use, or gives up its buffer. -/
def Recycled (slot slot' : MppBufSlotEntry) : Prop :=
  slot.status.onUsed = true ∧ slot'.status.onUsed = false ∨
    slot.buffer ≠ none ∧ slot'.buffer = none

/-- Nobody holds slot `i`: it is ready, the codec does not use it, each hold on it has been
    cleared, and it is in no queue, by the log and by the links. -/
structure Unheld (r : SlotRun) (i : ℕ) (slot : MppBufSlotEntry) : Prop where
  ready : slot.status.notReady = false
  codecUse : slot.status.codecUse = false
  holds : r.log.holds i = 0
  queued : r.log.queued i = none
  links : ∀ type, ¬ InQueue r.impl type i

variable {slot' : MppBufSlotEntry}

theorem not_recycled (hon : slot.status.onUsed = true → slot'.status.onUsed = true)
    (hbuf : slot.buffer ≠ none → slot'.buffer ≠ none) : ¬ Recycled slot slot' := by
  rintro (⟨h₁, h₂⟩ | ⟨h₁, h₂⟩)
  · exact absurd ((hon h₁).symm.trans h₂) (by simp)
  · exact hbuf h₁ h₂

/-- Only a clear, and what the runs leave out, takes a slot out of use, or its buffer. -/
theorem not_recycled_edit (hclr : ∀ index type, op ≠ .clrFlag index type)
    (hreset : ∀ index, op ≠ .reset index) (hptr : ∀ index, op ≠ .setProp index .framePtr) :
    ¬ Recycled slot (op.edit slot) := by
  cases op with
  | clrFlag index type => exact absurd rfl (hclr index type)
  | reset index => exact absurd rfl (hreset index)
  | getUnused => exact not_recycled (fun _ => rfl) id
  | setFlag index type => cases type <;> exact not_recycled id id
  | dequeue type =>
    refine not_recycled ?_ id
    rw [SlotOp.edit, slotOpsWithLog, SlotStatus.onUsed_ops (by simp) (by simp) (by simp)]
    exact id
  | setProp index val =>
    cases val with
    | framePtr => exact absurd rfl (hptr index)
    | buffer b => exact not_recycled id fun _ => some_ne_none b
    | _ => exact not_recycled id id
  | _ => exact not_recycled id id

/-- A step of a run is a step of the slots. -/
theorem slotStep_of_run (hst : slotRunStep r op = some r') : slotStep r.impl op = some r'.impl := by
  cases op with
  | dequeue type =>
    obtain ⟨p, hp, rfl⟩ := map_eq_some_iff.1 hst
    exact map_eq_some_iff.2 ⟨p, hp, rfl⟩
  | _ =>
    simp only [slotRunStep, map_eq_some_iff] at hst
    obtain ⟨p, hp, rfl⟩ := hst
    exact hp

/-- Only a clear recycles. -/
theorem Recycled.clrFlag (hrec : Recycled slot slot') (hst : slotRunStep r op = some r')
    (hfit : Fits r op r') (hget : r.impl.entries[i]? = some slot)
    (hget' : r'.impl.entries[i]? = some slot') :
    ∃ index type, op = .clrFlag index type ∧ i = index.toNat ∧ slot' = clrEdit type slot := by
  have hstep := slotStep_of_run hst
  -- the entry is the one edited, or it is as before
  have hedit : ∀ j, Edits r.impl r'.impl op j → i = j ∧ slot' = op.edit slot := by
    intro j he
    by_cases hj : i = j
    · subst hj
      exact ⟨rfl, some.inj (hget'.symm.trans (he.getElem?_self hget))⟩
    · obtain rfl := some.inj (hget'.symm.trans ((he.getElem?_of_ne hj).trans hget))
      exact absurd hrec (not_recycled id id)
  by_cases hclr : ∃ index type, op = .clrFlag index type
  · obtain ⟨index, type, rfl⟩ := hclr
    obtain ⟨p, hp, hr'⟩ := map_eq_some_iff.1 hstep
    obtain ⟨hi, hslot'⟩ := hedit _ (hr' ▸ (clrFlag_edited hp).1.toEdits)
    exact ⟨index, type, rfl, hi, hslot'⟩
  · rw [not_exists] at hclr
    by_cases hsetup : ∃ count mem, op = .setup count mem
    · obtain ⟨count, mem, rfl⟩ := hsetup
      rw [entries, hfit.1] at hget
      exact absurd hget (by simp)
    · obtain ⟨j, he⟩ := edits_step hstep (fun count mem h => hsetup ⟨count, mem, h⟩)
        (by rintro mem rfl; exact hfit)
      obtain ⟨-, rfl⟩ := hedit j he
      exact absurd hrec (not_recycled_edit (fun index type h => hclr index ⟨type, h⟩)
        (by rintro index rfl; exact hfit) (by rintro index rfl; exact hfit))

/-- A slot in no list is in no queue by the links. -/
theorem Queues.not_inQueue {lists : SlotQueueType → List ℕ} (h : Queues impl log lists)
    (hq : log.queued i = none) (type : SlotQueueType) : ¬ InQueue impl type i := by
  rintro ⟨block, hslots, k, hk⟩
  have hmem := (h.linked.ring type).iterate_next_mem (k + 1)
  rw [hk] at hmem
  rcases mem_cons.1 hmem with heq | hmem
  · exact absurd heq (by simp)
  · obtain ⟨j, hj, hnode⟩ := mem_map.1 hmem
    obtain rfl : j = i := (SlotNode.slot.inj hnode).2
    have := (h.filed.mem_iff j type).1 hj
    exact absurd (hq.symm.trans this) (by simp)

/-- A slot that is recycled is held by nobody. -/
theorem HoldInv.unheld (h : HoldInv r) (hst : slotRunStep r op = some r') (hfit : Fits r op r')
    (hown : ClearsOwn r op) (hget : r.impl.entries[i]? = some slot)
    (hget' : r'.impl.entries[i]? = some slot') (hrec : Recycled slot slot') :
    Unheld r' i slot' := by
  obtain ⟨index, type, rfl, hi, hslot'⟩ := hrec.clrFlag hst hfit hget hget'
  have h' := holdInv_step h hst hfit hown
  have hunheld : (slotOpsWithLog slot (clrFlagOp type) false).status.isUnheld := by
    by_contra hheld
    rw [clrEdit, if_neg hheld] at hslot'
    subst hslot'
    refine absurd hrec (not_recycled ?_ id)
    cases type <;> simp [slotOpsWithLog, clrFlagOp, SlotStatus.ops] <;> split_ifs <;> simp
  have hsame := sameHolds_recycle (slotOpsWithLog slot (clrFlagOp type) false)
  rw [clrEdit, if_pos hunheld] at hslot'
  rw [← hslot'] at hsame
  simp only [SlotStatus.isUnheld, Bool.and_eq_true, Bool.not_eq_true', decide_eq_true_eq] at hunheld
  obtain ⟨⟨⟨⟨⟨-, hready⟩, hcodec⟩, hout⟩, hin⟩, huse⟩ := hunheld
  obtain ⟨hholds, hqueues⟩ := (h'.held i slot' hget').eq_zero (hsame.halUse.trans hin)
    (hsame.halOutput.trans hout) (hsame.queueUse.trans huse)
  have hqueued : r'.log.queued i = none := by
    by_contra hne
    rw [SlotLog.inQueue, if_neg hne] at hqueues
    exact one_ne_zero hqueues
  obtain ⟨lists, hq⟩ := h'.queues
  exact ⟨hsame.notReady.trans hready, hsame.codecUse.trans hcodec, hholds, hqueued,
    hq.not_inQueue hqueued⟩

/-- The links of a queue lead through its slots in the order in which they were put in,
    after all that the queue has handed out. -/
def HandsOutInOrder (r : SlotRun) (type : SlotQueueType) : Prop :=
  ∃ waiting : List ℕ, Ring r.impl.link (.queue type) (waiting.map r.impl.node) ∧
    (∀ i, i ∈ waiting ↔ r.log.queued i = some type) ∧
      (r.log.received type ++ waiting.map r.log.stamp).Pairwise (· < ·)

/-- In every run in which slots are used well: a slot is recycled only when nobody holds
    it; a queue hands out its slots in order, each as often as it was put in; and what it
    hands out is ready. -/
theorem recycled_unheld (hr : (slotRunMachine.guarded UsedWell).Reachable r) :
    (∀ op r', slotRunStep r op = some r' → UsedWell r op r' → ∀ i slot slot',
      r.impl.entries[i]? = some slot → r'.impl.entries[i]? = some slot' →
        Recycled slot slot' → Unheld r' i slot') ∧
    (∀ type, HandsOutInOrder r type) ∧
    ∀ type ret index impl', mppBufSlotDequeue r.impl type = some (ret, some index, impl') →
      ∃ slot, r.impl.entries[index.toNat]? = some slot ∧ slot.status.notReady = false := by
  have h := reachable_holdInv hr
  obtain ⟨lists, hq⟩ := h.queues
  refine ⟨fun op r' hst hwell i slot slot' hget hget' hrec =>
    h.unheld hst hwell.1 hwell.2 hget hget' hrec, fun type => ?_, fun type ret index impl' hst => ?_⟩
  · exact ⟨lists type, hq.linked.ring type, fun i => hq.filed.mem_iff i type, hq.served.sorted type⟩
  · cases dequeue_dequeued hq h.numbered hst with
    | some hl hget hready he hlink => exact ⟨_, hget, hready⟩

instance (log : SlotLog) (i : ℕ) : Decidable (log.InWidths i) :=
  decidable_of_iff ((log.holds i).halInput ≤ 255 ∧ (log.holds i).halOutput ≤ 3 ∧
      (log.holds i).queueUse + log.inQueue i ≤ 31)
    ⟨fun ⟨h₁, h₂, h₃⟩ => ⟨h₁, h₂, h₃⟩, fun ⟨h₁, h₂, h₃⟩ => ⟨h₁, h₂, h₃⟩⟩

instance (r : SlotRun) (op : SlotOp) (r' : SlotRun) : Decidable (Fits r op r') :=
  match op with
  | .setup count _ => inferInstanceAs (Decidable (r.impl.slots = none ∧ 0 ≤ count))
  | .setFlag index _ => inferInstanceAs (Decidable (r'.log.InWidths index.toNat))
  | .enqueue index _ =>
    inferInstanceAs (Decidable (r.log.queued index.toNat = none ∧ r'.log.InWidths index.toNat))
  | .ready _ | .reset _ | .setProp _ .framePtr => isFalse id
  | .getUnused | .clrFlag _ _ | .dequeue _ | .getProp _ _ | .defaultInfo _ _ | .setProp _ (.eos _)
  | .setProp _ (.frame _ _) | .setProp _ (.buffer _) => isTrue trivial

instance (r : SlotRun) (op : SlotOp) : Decidable (ClearsOwn r op) :=
  match op with
  | .clrFlag index .queueUse =>
    inferInstanceAs (Decidable (0 < (r.log.holds index.toNat).queueUse))
  | .clrFlag _ .codecReady | .clrFlag _ .codecUse | .clrFlag _ .halInput | .clrFlag _ .halOutput
  | .setup _ _ | .ready _ | .reset _ | .getUnused | .setFlag _ _ | .enqueue _ _ | .dequeue _
  | .setProp _ _ | .getProp _ _ | .defaultInfo _ _ => isTrue trivial

/-- A picture is written by the hal, displayed, and its last hold cleared: slot 0 is
    recycled. -/
theorem recycled_unheld_display : ∃ r, (slotRunMachine.guarded UsedWell).Reachable r ∧
    (r.impl.entries[0]?.any fun slot => slot.status.onUsed) ∧
      (∃ r', slotRunStep r (.clrFlag 0 .queueUse) = some r' ∧
        (r'.impl.entries[0]?.any fun slot => !slot.status.onUsed)) ∧
    (∀ op r', slotRunStep r op = some r' → UsedWell r op r' → ∀ i slot slot',
      r.impl.entries[i]? = some slot → r'.impl.entries[i]? = some slot' →
        Recycled slot slot' → Unheld r' i slot') ∧
    (∀ type, HandsOutInOrder r type) ∧
    ∀ type ret index impl', mppBufSlotDequeue r.impl type = some (ret, some index, impl') →
      ∃ slot, r.impl.entries[index.toNat]? = some slot ∧ slot.status.notReady = false := by
  have hrun : ((Machine.run slotRunStep UsedWell slotRunInit
      [.setup 2 reallocInPlace, .getUnused, .setFlag 0 .halOutput, .setFlag 0 .queueUse,
        .enqueue 0 .display, .clrFlag 0 .halOutput, .dequeue .display]).any fun r =>
          (r.impl.entries[0]?.any fun slot => slot.status.onUsed) &&
            (slotRunStep r (.clrFlag 0 .queueUse)).any fun r' =>
              r'.impl.entries[0]?.any fun slot => !slot.status.onUsed) = true := by
    decide
  obtain ⟨r, hr, hv⟩ := (any_eq_true _ _).1 hrun
  rw [Bool.and_eq_true] at hv
  obtain ⟨r', hr', hv'⟩ := (any_eq_true _ _).1 hv.2
  have hreach := Machine.Reachable.run (.init rfl) hr
  exact ⟨r, hreach, hv.1, ⟨r', hr', hv'⟩, recycled_unheld hreach⟩

/-- A slot that is ready and waits in the display queue, and a clear of a queue use that
    was not set: the slot is recycled, and still in the queue. -/
theorem recycled_in_queue : ∃ r r' slot slot', (slotRunMachine.guarded Fits).Reachable r ∧
    slotRunStep r (.clrFlag 0 .queueUse) = some r' ∧ Fits r (.clrFlag 0 .queueUse) r' ∧
      r.impl.entries[0]? = some slot ∧ r'.impl.entries[0]? = some slot' ∧ Recycled slot slot' ∧
        r'.log.queued 0 = some .display ∧ InQueue r'.impl .display 0 := by
  have hrun : ((Machine.run slotRunStep Fits slotRunInit
      [.setup 1 reallocInPlace, .getUnused, .setFlag 0 .codecReady, .enqueue 0 .display]).any
        fun r => (slotRunStep r (.clrFlag 0 .queueUse)).any fun r' =>
          decide (r'.impl.slots = some 0 ∧ r'.log.queued 0 = some .display ∧
            (r'.impl.link (.queue .display)).next = .slot 0 0) &&
          (r.impl.entries[0]?.any fun slot => r'.impl.entries[0]?.any fun slot' =>
            decide (slot.status.onUsed = true ∧ slot'.status.onUsed = false))) = true := by
    decide
  obtain ⟨r, hr, hv⟩ := (any_eq_true _ _).1 hrun
  obtain ⟨r', hr', hv⟩ := (any_eq_true _ _).1 hv
  rw [Bool.and_eq_true, decide_eq_true_eq] at hv
  obtain ⟨⟨hslots, hqueued, hnext⟩, hv⟩ := hv
  obtain ⟨slot, hget, hv⟩ := (any_eq_true _ _).1 hv
  obtain ⟨slot', hget', hv⟩ := (any_eq_true _ _).1 hv
  exact ⟨r, r', slot, slot', Machine.Reachable.run (.init rfl) hr, hr', trivial, hget, hget',
    .inl (of_decide_eq_true hv), hqueued, 0, hslots, 0, hnext⟩

end Libmpp.Base
