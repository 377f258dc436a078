import Libmpp.Base.Packet

/-!
# Copying a packet

What becomes of a packet and its copy. `mpp_packet_copy_init` copies the structure as a
whole and then gives the copy its own block of data, or a reference of its own to the
buffer. What else the structure points to is shared: the array of segments, inline in the
source or allocated, and the release callback.

* `MppPacketImpl.owned`: what a packet releases when it goes, which is what it holds.
* A copy is `Independent` if, in whichever order the two go, all that the source held and
  the copying acquired is released once, and the one that stays reads as before.
* After a failure the source should be as it was (`Kept`). The half-built copy goes
  through `mpp_packet_deinit`, which releases what the copied structure names.
* When this is so: `copyInit_iff`.
-/

namespace Libmpp.Base

open Function List Option

variable {h h' : Heap} {p q : MppPacketImpl} {packet src pkt : ℕ}

/-! ## What a packet releases -/

/-- What `mpp_packet_deinit` releases of the packet -/
def MppPacketImpl.owned (p : MppPacketImpl) (packet : ℕ) : Multiset Resource :=
  {.packet packet}
    + (p.buffer.elim 0 fun b => {.buffer b})
    + (if p.Internal then {.data p.data} else 0)
    + (p.metaData.elim 0 fun m => {.metaData m})
    + (p.segmentsExt.elim 0 fun a => {.segments a})
    + (p.release.elim 0 fun f => {.callback f p.releaseCtx p.releaseArg})

/-- The blocks without the one a pointer is the start of -/
def dropBlock (data : DataPtr) (blocks : ℕ → Option (List UInt8)) : ℕ → Option (List UInt8) :=
  match data with
  | .block a 0 => Function.update blocks a none
  | _ => blocks

/-- A buffer with one reference less -/
def BufferRef.put (b : BufferRef) : BufferRef := { b with refCount := b.refCount - 1 }

/-- A buffer with one reference more -/
def BufferRef.get (b : BufferRef) : BufferRef := { b with refCount := b.refCount + 1 }

/-- The heap without a packet and what it owns -/
def Heap.dropped (h : Heap) (packet : ℕ) (p : MppPacketImpl) : Heap where
  packets := Function.update h.packets packet none
  blocks := if p.Internal then dropBlock p.data h.blocks else h.blocks
  segs := p.segmentsExt.elim h.segs fun a => Function.update h.segs a none
  buffers := p.buffer.elim h.buffers fun b => Function.update h.buffers b (h.buffers b).put
  metas := p.metaData.elim h.metas fun m => Function.update h.metas m (h.metas m - 1)
  user := h.user
  ledger := h.ledger.release (p.owned packet)

theorem packets_dropped (h : Heap) (packet : ℕ) (p : MppPacketImpl) :
    (h.dropped packet p).packets = update h.packets packet none := rfl

theorem ledger_dropped (h : Heap) (packet : ℕ) (p : MppPacketImpl) :
    (h.dropped packet p).ledger = h.ledger.release (p.owned packet) := rfl

theorem forSome_bufferPut (b : Option ℕ) (h : Heap) :
    forSome b Heap.bufferPut h =
      { h with
        buffers := b.elim h.buffers fun b => update h.buffers b (h.buffers b).put
        ledger := h.ledger.release (b.elim 0 fun b => {.buffer b}) } := by
  cases b with
  | none => rw [elim_none, elim_none, Ledger.release_zero]; rfl
  | some b => rfl

theorem ite_freeData (i : Prop) [Decidable i] (data : DataPtr) (h : Heap) :
    (if i then h.freeData data else h) =
      { h with
        blocks := if i then dropBlock data h.blocks else h.blocks
        ledger := h.ledger.release (if i then {.data data} else 0) } := by
  split_ifs
  · rcases data with _ | ⟨a, _ | offset⟩ | ⟨b, offset⟩ | ⟨u, offset⟩ <;> rfl
  · rw [Ledger.release_zero]

theorem forSome_metaPut (m : Option ℕ) (h : Heap) :
    forSome m Heap.metaPut h =
      { h with
        metas := m.elim h.metas fun m => update h.metas m (h.metas m - 1)
        ledger := h.ledger.release (m.elim 0 fun m => {.metaData m}) } := by
  cases m with
  | none => rw [elim_none, elim_none, Ledger.release_zero]; rfl
  | some m => rfl

theorem forSome_freeSegs (a : Option ℕ) (h : Heap) :
    forSome a Heap.freeSegs h =
      { h with
        segs := a.elim h.segs fun a => update h.segs a none
        ledger := h.ledger.release (a.elim 0 fun a => {.segments a}) } := by
  cases a with
  | none => rw [elim_none, elim_none, Ledger.release_zero]; rfl
  | some a => rfl

theorem forSome_callback (f : Option ℕ) (ctx arg : ℕ) (h : Heap) :
    forSome f (fun f => Heap.release (.callback f ctx arg)) h =
      { h with ledger := h.ledger.release (f.elim 0 fun f => {.callback f ctx arg}) } := by
  cases f with
  | none => rw [elim_none, Ledger.release_zero]; rfl
  | some f => rfl

/-- `mpp_packet_deinit` drops the packet and what it owns. -/
theorem mppPacketDeinit_eq (hp : h.packets packet = some p) :
    mppPacketDeinit packet h = (mppOk, h.dropped packet p) := by
  have howned : p.owned packet =
      (p.buffer.elim 0 fun b => {.buffer b}) + (if p.Internal then {.data p.data} else 0)
        + (p.metaData.elim 0 fun m => {.metaData m})
        + (p.segmentsExt.elim 0 fun a => {.segments a})
        + (p.release.elim 0 fun f => {.callback f p.releaseCtx p.releaseArg})
        + {.packet packet} := by
    rw [MppPacketImpl.owned]
    abel
  simp only [mppPacketDeinit, hp, forSome_bufferPut, ite_freeData, forSome_metaPut,
    forSome_freeSegs, forSome_callback, Heap.poolPut, Heap.release, Ledger.release_release,
    Heap.dropped, howned]

/-! ## Reading -/

/-- What is read through a pointer to data depends on the blocks, the buffers and the memory
    of the caller. -/
theorem read_congr (hblocks : h'.blocks = h.blocks) (hbuffers : h'.buffers = h.buffers)
    (huser : h'.user = h.user) (ptr : DataPtr) (n : ℕ) : h'.read ptr n = h.read ptr n := by
  rcases n with _ | n
  · rcases ptr <;> rfl
  · rcases ptr <;> simp only [Heap.read, hblocks, hbuffers, huser]

/-- Whatever data can be read in `h` can be read in `h'`, and is the same. -/
structure Heap.Extends (h h' : Heap) : Prop where
  blocks : ∀ a bytes, h.blocks a = some bytes → h'.blocks a = some bytes
  buffers : ∀ b, 0 < (h.buffers b).refCount →
    0 < (h'.buffers b).refCount ∧ (h'.buffers b).bytes = (h.buffers b).bytes
  user : h'.user = h.user

variable {n : ℕ} {bytes : List UInt8}

theorem Heap.Extends.read (he : h.Extends h') {ptr : DataPtr} (hr : h.read ptr n = some bytes) :
    h'.read ptr n = some bytes := by
  rcases n with _ | n
  · rcases ptr <;> exact hr
  · rcases ptr with _ | ⟨a, offset⟩ | ⟨b, offset⟩ | ⟨u, offset⟩
    · exact hr
    · obtain ⟨block, hblock, hrange⟩ := bind_eq_some_iff.1 hr
      exact bind_eq_some_iff.2 ⟨block, he.blocks a block hblock, hrange⟩
    · have hpos : 0 < (h.buffers b).refCount := by
        by_contra hnot
        rw [Heap.read, ite_cond_eq_false _ _ (eq_false hnot)] at hr
        simp at hr
      obtain ⟨hpos', hbytes⟩ := he.buffers b hpos
      rw [Heap.read, ite_cond_eq_true _ _ (eq_true hpos)] at hr
      rw [Heap.read, ite_cond_eq_true _ _ (eq_true hpos'), hbytes, hr]
    · rw [Heap.read, he.user]
      exact hr

theorem range_length {l : List UInt8} {offset : ℕ} (hr : Heap.range bytes offset n = some l) :
    l.length = n := by
  rw [Heap.range, ite_none_right_eq_some] at hr
  obtain ⟨hle, hl⟩ := hr
  rw [← some.inj hl, length_take, length_drop]
  omega

theorem read_length {ptr : DataPtr} {l : List UInt8} (hr : h.read ptr n = some l) :
    l.length = n := by
  rcases n with _ | n
  · have hl : some [] = some l := by rcases ptr <;> exact hr
    rw [← some.inj hl, length_nil]
  · rcases ptr with _ | ⟨a, offset⟩ | ⟨b, offset⟩ | ⟨u, offset⟩
    · exact absurd hr (by simp [Heap.read])
    · obtain ⟨block, -, hrange⟩ := bind_eq_some_iff.1 hr
      exact range_length hrange
    · rw [Heap.read, ite_none_right_eq_some] at hr
      exact range_length hr.2
    · exact range_length hr

/-- From its block a copy reads the data that was copied. -/
theorem read_copyBytes {m : Malloc} (hdata : h.data p = some bytes)
    (hblock : h'.blocks m.addr = some (h.copyBytes p m)) :
    h'.read (.block m.addr 0) p.length = some bytes := by
  rw [Heap.data] at hdata
  rcases hn : p.length with _ | n
  · rw [hn] at hdata
    rcases hpos : p.pos <;> rw [hpos] at hdata <;> exact hdata
  · rw [hn] at hdata
    have hlen : bytes.length = n + 1 := read_length hdata
    have hcopy : h.copyBytes p m = bytes ++ List.replicate 256 0 := by
      rw [Heap.copyBytes]
      simp only [hn]
      rw [hdata, getD_some]
    have hle : 0 + (n + 1) ≤ (bytes ++ List.replicate 256 0).length := by
      rw [length_append, hlen]
      omega
    rw [Heap.read, hblock, hcopy, bind_some, Heap.range, ite_cond_eq_true _ _ (eq_true hle),
      drop_zero, ← hlen, take_left]

/-- The pointer is into the inline array of the packet. -/
def SegPtr.Inside (packet : ℕ) : SegPtr → Prop
  | .segmentsDef q _ => q = packet
  | _ => False

instance (packet : ℕ) : (ptr : SegPtr) → Decidable (ptr.Inside packet)
  | .null => inferInstanceAs (Decidable False)
  | .segmentsDef q _ => inferInstanceAs (Decidable (q = packet))
  | .segmentsExt _ _ => inferInstanceAs (Decidable False)

/-- A list of segments that are all still there reads as before. -/
theorem segList_mono {ptr : SegPtr} {l : List (ℤ × ℤ × BitVec 32 × BitVec 32)}
    (hseg : ∀ ptr' ∈ h.segPath n ptr, ∀ s, h.seg ptr' = some s → h'.seg ptr' = some s)
    (hl : h.segList n ptr = some l) : h'.segList n ptr = some l := by
  induction n generalizing ptr l with
  | zero => exact hl
  | succ n ih =>
    obtain ⟨s, hs, hrest⟩ := bind_eq_some_iff.1 hl
    obtain ⟨l', hl', rfl⟩ := map_eq_some_iff.1 hrest
    have hpath : h.segPath (n + 1) ptr = ptr :: h.segPath n s.next := by
      rw [Heap.segPath, hs]
    rw [hpath] at hseg
    have hs' : h'.seg ptr = some s := hseg ptr (mem_cons_self ..) s hs
    have hrest' : h'.segList n s.next = some l' :=
      ih (fun ptr' hptr' => hseg ptr' (mem_cons_of_mem _ hptr')) hl'
    rw [Heap.segList, hs', bind_some, hrest', map_some]

/-- A list of segments one of which is gone cannot be read. -/
theorem segList_lost {ptr : SegPtr} {l : List (ℤ × ℤ × BitVec 32 × BitVec 32)}
    (hseg : ∀ ptr' s, h.seg ptr' = some s → h'.seg ptr' = some s ∨ h'.seg ptr' = none)
    (hl : h.segList n ptr = some l) (hlost : ∃ ptr' ∈ h.segPath n ptr, h'.seg ptr' = none) :
    h'.segList n ptr = none := by
  induction n generalizing ptr l with
  | zero =>
    obtain ⟨ptr', hptr', -⟩ := hlost
    exact absurd hptr' not_mem_nil
  | succ n ih =>
    obtain ⟨s, hs, hrest⟩ := bind_eq_some_iff.1 hl
    obtain ⟨l', hl', -⟩ := map_eq_some_iff.1 hrest
    rcases hseg ptr s hs with hs' | hs'
    · obtain ⟨ptr', hptr', hnone⟩ := hlost
      rw [Heap.segPath, hs] at hptr'
      rcases mem_cons.1 hptr' with rfl | hptr'
      · rw [hs'] at hnone
        exact absurd hnone (by simp)
      · rw [Heap.segList, hs', bind_some, ih hl' ⟨ptr', hptr', hnone⟩, map_none]
    · rw [Heap.segList, hs', bind_none]

/-- What the block of a copy holds depends on these alone, too. -/
theorem copyBytes_congr (hblocks : h'.blocks = h.blocks) (hbuffers : h'.buffers = h.buffers)
    (huser : h'.user = h.user) (p : MppPacketImpl) (m : Malloc) :
    h'.copyBytes p m = h.copyBytes p m := by
  rw [Heap.copyBytes, Heap.copyBytes]
  split
  · rfl
  · rw [read_congr hblocks hbuffers huser]

/-! ## What the copying leaves -/

/-- What the copy acquires besides its data: the packet, and a reference to the meta data -/
def MppPacketImpl.shared (p : MppPacketImpl) (pkt : ℕ) : Multiset Resource :=
  {.packet pkt} + (p.metaData.elim 0 fun m => {.metaData m})

/-- The heap with a packet `pkt` that is `q`, after the copying of `p` -/
def Heap.copied (h : Heap) (p q : MppPacketImpl) (pkt : ℕ) : Heap :=
  { h with
    packets := Function.update h.packets pkt (some q)
    metas := p.metaData.elim h.metas fun m => Function.update h.metas m (h.metas m + 1)
    ledger := h.ledger.acquire (p.shared pkt) }

theorem forSome_metaIncRef (m : Option ℕ) (h : Heap) :
    forSome m Heap.metaIncRef h =
      { h with
        metas := m.elim h.metas fun m => update h.metas m (h.metas m + 1)
        ledger := h.ledger.acquire (m.elim 0 fun m => {.metaData m}) } := by
  cases m with
  | none => rw [elim_none, elim_none, Ledger.acquire_zero]; rfl
  | some m => rfl

/-- Without a packet from the pool nothing is done. -/
theorem copyInit_pool (hp : h.packets src = some p) (malloc : Option Malloc) :
    mppPacketCopyInit src none malloc h = (mppErrNullPtr, none, h) := by
  simp only [mppPacketCopyInit, hp, mppPacketNew]

/-- Of a packet with a buffer the copy is the structure as it is. -/
theorem copyInit_buffer (hp : h.packets src = some p) {b : ℕ} (hb : p.buffer = some b)
    (malloc : Option Malloc) :
    mppPacketCopyInit src (some pkt) malloc h =
      (mppOk, some pkt, (h.copied p p pkt).bufferIncRef b) := by
  simp only [mppPacketCopyInit, hp, mppPacketNew, hb, forSome_metaIncRef, Heap.store,
    Heap.acquire, Ledger.acquire_acquire, update_idem, Heap.copied,
    MppPacketImpl.shared]

/-- Without a block for the data the half-built copy goes again. -/
theorem copyInit_malloc (hp : h.packets src = some p) (hb : p.buffer = none) :
    mppPacketCopyInit src (some pkt) none h =
      (mppErrMalloc, none, (h.copied p p pkt).dropped pkt p) := by
  have hpkt : (h.copied p p pkt).packets pkt = some p := update_self ..
  simp only [mppPacketCopyInit, hp, mppPacketNew, hb, forSome_metaIncRef, Heap.store,
    Heap.acquire, Ledger.acquire_acquire, update_idem]
  exact congrArg (fun d => (mppErrMalloc, none, d.2)) (mppPacketDeinit_eq hpkt)

/-- The copy that has a block `m` of its own -/
def MppPacketImpl.withBlock (p : MppPacketImpl) (m : Malloc) : MppPacketImpl :=
  { p with
    data := .block m.addr 0, pos := .block m.addr 0, size := p.length, length := p.length
    flag := p.flag ||| flagInternal }

/-- Of another packet the copy has a block of its own. -/
theorem copyInit_block (hp : h.packets src = some p) (hb : p.buffer = none) (m : Malloc) :
    mppPacketCopyInit src (some pkt) (some m) h =
      (mppOk, some pkt,
        { h.copied p (p.withBlock m) pkt with
          blocks := update h.blocks m.addr (some (h.copyBytes p m))
          ledger := h.ledger.acquire (p.shared pkt + {.data (.block m.addr 0)}) }) := by
  simp only [mppPacketCopyInit, hp, mppPacketNew, hb, forSome_metaIncRef, Heap.store,
    Heap.acquire, Ledger.acquire_acquire, update_idem, Heap.copied,
    MppPacketImpl.shared, MppPacketImpl.withBlock]
  rw [copyBytes_congr]
  · rfl
  · rfl
  · rfl

/-! ## The contract -/

/-- A packet of the pool, with what it names: it owns its data if this is marked as internal,
    it holds a reference to its buffer, and its data and its segments can be read. -/
structure Sound (h : Heap) (src : ℕ) (p : MppPacketImpl) : Prop where
  live : h.packets src = some p
  internal : p.Internal → ∃ a bytes, p.data = .block a 0 ∧ h.blocks a = some bytes
  buffer : ∀ b, p.buffer = some b → 0 < (h.buffers b).refCount
  data : ∃ bytes, h.data p = some bytes
  segInfos : ∃ infos, h.segInfos p = some infos

/-- Data that can be read in `h` is the same where `h` is extended. -/
theorem data_extends (hs : Sound h src p) (he : h.Extends h') : h'.data p = h.data p := by
  obtain ⟨bytes, hbytes⟩ := hs.data
  rw [hbytes]
  exact he.read hbytes

/-- The packet is alive in `h'`, with the data and the segment infos that `p` has in `h`. -/
def Intact (h h' : Heap) (p : MppPacketImpl) (packet : ℕ) : Prop :=
  ∃ q, h'.packets packet = some q ∧ h'.data q = h.data p ∧ h'.segInfos q = h.segInfos p

/-- After a copying from `h` to `h₁`, the source and the copy go in either order: what is held
    is released once, and the one that is left is intact. -/
structure Independent (h h₁ : Heap) (src pkt : ℕ) (p : MppPacketImpl) : Prop where
  source : Intact h h₁ p src
  copy : Intact h h₁ p pkt
  copyLeft : Intact h (mppPacketDeinit src h₁).2 p pkt
  sourceLeft : Intact h (mppPacketDeinit pkt h₁).2 p src
  sourceFirst : h.ledger.Settles (p.owned src)
    (mppPacketDeinit pkt (mppPacketDeinit src h₁).2).2.ledger
  copyFirst : h.ledger.Settles (p.owned src)
    (mppPacketDeinit src (mppPacketDeinit pkt h₁).2).2.ledger

/-- The source is as it was, and nothing it holds has been released. -/
structure Kept (h h₁ : Heap) (src : ℕ) (p : MppPacketImpl) : Prop where
  same : h₁.packets src = some p
  data : h₁.data p = h.data p
  segInfos : h₁.segInfos p = h.segInfos p
  owned : h.ledger.Settles 0 h₁.ledger

/-- What the copying of a packet promises -/
def CopyKeeps (h : Heap) (src : ℕ) (p : MppPacketImpl) (pool : Option ℕ)
    (malloc : Option Malloc) : Prop :=
  (∀ pkt h₁, mppPacketCopyInit src pool malloc h = (mppOk, some pkt, h₁) →
    Independent h h₁ src pkt p) ∧
  ∀ ret out h₁, mppPacketCopyInit src pool malloc h = (ret, out, h₁) → ret ≠ mppOk →
    Kept h h₁ src p

/-- No other array of segments and no callback is shared. -/
def MppPacketImpl.Loose (p : MppPacketImpl) : Prop := p.segmentsExt = none ∧ p.release = none

instance (p : MppPacketImpl) : Decidable p.Loose :=
  inferInstanceAs (Decidable (p.segmentsExt = none ∧ p.release = none))

/-- When the copying keeps its promise: no allocated array and no callback is shared, a packet
    with a buffer has no data of its own, and no segment is in the array of the source. Without
    memory for the data the source must not own it. -/
def CopySafe (h : Heap) (src : ℕ) (p : MppPacketImpl) (pool : Option ℕ)
    (malloc : Option Malloc) : Prop :=
  pool = none ∨
    if p.buffer = none ∧ malloc.isNone then p.Loose ∧ ¬p.Internal
    else p.Loose ∧ (p.buffer ≠ none → ¬p.Internal) ∧
      ∀ ptr ∈ h.segPath p.segmentNb p.segments, ¬ptr.Inside src

instance (h : Heap) (src : ℕ) (p : MppPacketImpl) (pool : Option ℕ) (malloc : Option Malloc) :
    Decidable (CopySafe h src p pool malloc) :=
  inferInstanceAs (Decidable (pool = none ∨
    if p.buffer = none ∧ malloc.isNone then p.Loose ∧ ¬p.Internal
    else p.Loose ∧ (p.buffer ≠ none → ¬p.Internal) ∧
      ∀ ptr ∈ h.segPath p.segmentNb p.segments, ¬ptr.Inside src))

/-! ## The books -/

/-- What the copy shares with the source, and releases too -/
def MppPacketImpl.extra (p : MppPacketImpl) : Multiset Resource :=
  (p.segmentsExt.elim 0 fun a => {.segments a})
    + (p.release.elim 0 fun f => {.callback f p.releaseCtx p.releaseArg})

theorem extra_eq_zero : p.extra = 0 ↔ p.Loose := by
  rw [MppPacketImpl.extra, MppPacketImpl.Loose, add_eq_zero]
  refine and_congr ?_ ?_
  · cases p.segmentsExt <;> simp
  · cases p.release <;> simp

theorem owned_eq (p : MppPacketImpl) (packet : ℕ) :
    p.owned packet = p.shared packet + (p.buffer.elim 0 fun b => {.buffer b})
      + ((if p.Internal then {.data p.data} else 0) + p.extra) := by
  rw [MppPacketImpl.owned, MppPacketImpl.shared, MppPacketImpl.extra]
  abel

theorem internal_eq_zero : (if p.Internal then {Resource.data p.data} else 0 : Multiset Resource) = 0
    ↔ ¬p.Internal := by
  split_ifs with hi <;> simp [hi]

/-- A copy that is the structure as it is owns what was acquired for it, if nothing else is
    shared. -/
theorem owned_eq_shared (p : MppPacketImpl) (pkt : ℕ) :
    p.owned pkt = p.shared pkt + (p.buffer.elim 0 fun b => {.buffer b})
    ↔ p.Loose ∧ ¬p.Internal := by
  rw [owned_eq, add_eq_left, add_eq_zero, extra_eq_zero, internal_eq_zero, and_comm]

theorem withBlock_internal (m : Malloc) : (p.withBlock m).Internal := by
  intro hzero
  have hbit : ((p.flag ||| flagInternal) &&& flagInternal).getLsbD 2 = false := by
    rw [show (p.flag ||| flagInternal) &&& flagInternal = 0 from hzero]
    rfl
  rw [BitVec.getLsbD_and, BitVec.getLsbD_or] at hbit
  simp at hbit

/-- A copy with a block of its own owns what was acquired for it, if nothing else is shared. -/
theorem owned_withBlock (hb : p.buffer = none) (m : Malloc) :
    (p.withBlock m).owned pkt = p.shared pkt + {.data (.block m.addr 0)} ↔ p.Loose := by
  have hown : (p.withBlock m).owned pkt = p.shared pkt + {.data (.block m.addr 0)} + p.extra := by
    rw [owned_eq, ite_cond_eq_true _ _ (eq_true (withBlock_internal m)), ← add_assoc]
    simp only [MppPacketImpl.withBlock, hb, elim_none, add_zero]
    rfl
  rw [hown, add_eq_left, extra_eq_zero]

/-! ## The copy and its source -/

/-- What a copying that succeeds does: the packets and the segments -/
structure Copied (h h₁ : Heap) (src pkt : ℕ) (p q : MppPacketImpl) (acq : Multiset Resource) :
    Prop where
  sound : Sound h src p
  fresh : h.packets pkt = none
  packets : h₁.packets = Function.update h.packets pkt (some q)
  segs : h₁.segs = h.segs
  ledger : h₁.ledger = h.ledger.acquire acq
  segmentNb : q.segmentNb = p.segmentNb
  segments : q.segments = p.segments
  segmentsExt : q.segmentsExt = p.segmentsExt

namespace Copied

variable {h₁ : Heap} {acq : Multiset Resource}

theorem ne (c : Copied h h₁ src pkt p q acq) : src ≠ pkt := by
  rintro rfl
  have hlive := c.sound.live
  rw [c.fresh] at hlive
  exact absurd hlive (by simp)

theorem live_src (c : Copied h h₁ src pkt p q acq) : h₁.packets src = some p := by
  rw [c.packets, update_of_ne c.ne, c.sound.live]

theorem live_pkt (c : Copied h h₁ src pkt p q acq) : h₁.packets pkt = some q := by
  rw [c.packets, update_self]

/-- Without the source the copy is still there. -/
theorem live_pkt_dropped (c : Copied h h₁ src pkt p q acq) :
    (h₁.dropped src p).packets pkt = some q := by
  rw [packets_dropped, update_of_ne c.ne.symm, c.live_pkt]

theorem live_src_dropped (c : Copied h h₁ src pkt p q acq) :
    (h₁.dropped pkt q).packets src = some p := by
  rw [packets_dropped, update_of_ne c.ne, c.live_src]

/-- In either order the books settle exactly if the copy owns what was acquired for it. -/
theorem settles_sourceFirst (c : Copied h h₁ src pkt p q acq) :
    h.ledger.Settles (p.owned src)
      (mppPacketDeinit pkt (mppPacketDeinit src h₁).2).2.ledger ↔ q.owned pkt = acq := by
  rw [mppPacketDeinit_eq c.live_src, mppPacketDeinit_eq c.live_pkt_dropped, ledger_dropped,
    ledger_dropped, c.ledger, Ledger.release_release, Ledger.settles_acquire_release, add_right_inj]

theorem settles_copyFirst (c : Copied h h₁ src pkt p q acq) :
    h.ledger.Settles (p.owned src)
      (mppPacketDeinit src (mppPacketDeinit pkt h₁).2).2.ledger ↔ q.owned pkt = acq := by
  rw [mppPacketDeinit_eq c.live_pkt, mppPacketDeinit_eq c.live_src_dropped, ledger_dropped,
    ledger_dropped, c.ledger, Ledger.release_release, Ledger.settles_acquire_release,
    add_comm (p.owned src), add_left_inj]

variable {ptr : SegPtr}

/-- The segments that are there before the copying are there after it. -/
theorem seg_mono (c : Copied h h₁ src pkt p q acq) {s : MppPktSeg} (hs : h.seg ptr = some s) :
    h₁.seg ptr = some s := by
  rcases ptr with _ | ⟨packet, i⟩ | ⟨a, i⟩
  · exact hs
  · have hne : packet ≠ pkt := by
      rintro rfl
      rw [Heap.seg, c.fresh, bind_none] at hs
      exact absurd hs (by simp)
    rw [Heap.seg, c.packets, update_of_ne hne]
    exact hs
  · rw [Heap.seg, c.segs]
    exact hs

/-- Nothing but the inline array of a packet goes with it, if it has no other. -/
theorem seg_dropped {r : MppPacketImpl} (hext : r.segmentsExt = none) (hnot : ¬ptr.Inside packet) :
    (h.dropped packet r).seg ptr = h.seg ptr := by
  rcases ptr with _ | ⟨packet', i⟩ | ⟨a, i⟩
  · rfl
  · have hne : packet' ≠ packet := hnot
    rw [Heap.seg, packets_dropped, update_of_ne hne]
    rfl
  · rw [Heap.seg, Heap.dropped, hext]
    rfl

theorem seg_inside {r : MppPacketImpl} (hin : ptr.Inside packet) :
    (h.dropped packet r).seg ptr = none := by
  rcases ptr with _ | ⟨packet', i⟩ | ⟨a, i⟩
  · exact hin.elim
  · obtain rfl : packet' = packet := hin
    rw [Heap.seg, packets_dropped, update_self, bind_none]
  · exact hin.elim

/-- The segment infos of the packet, read through the pointer the copy shares -/
theorem segInfos_eq (c : Copied h h₁ src pkt p q acq) :
    h'.segInfos q = h'.segInfos p := by
  rw [Heap.segInfos, Heap.segInfos, c.segmentNb, c.segments]

theorem segInfos_copied (c : Copied h h₁ src pkt p q acq) : h₁.segInfos p = h.segInfos p := by
  obtain ⟨infos, hinfos⟩ := c.sound.segInfos
  rw [hinfos]
  exact segList_mono (fun _ _ _ hs => c.seg_mono hs) hinfos

/-- Without the copy the segments of the source stay. -/
theorem segInfos_sourceLeft (c : Copied h h₁ src pkt p q acq) (hext : p.segmentsExt = none) :
    (h₁.dropped pkt q).segInfos p = h.segInfos p := by
  obtain ⟨infos, hinfos⟩ := c.sound.segInfos
  rw [hinfos]
  refine segList_mono (fun ptr _ s hs => ?_) hinfos
  have hnot : ¬ptr.Inside pkt := by
    intro hin
    rcases ptr with _ | ⟨packet, i⟩ | ⟨a, i⟩
    · exact hin
    · obtain rfl : packet = pkt := hin
      rw [Heap.seg, c.fresh, bind_none] at hs
      exact absurd hs (by simp)
    · exact hin
  rw [seg_dropped (c.segmentsExt.trans hext) hnot]
  exact c.seg_mono hs

/-- Without the source the segments of the copy stay exactly if none is inside the source. -/
theorem segInfos_copyLeft (c : Copied h h₁ src pkt p q acq) (hext : p.segmentsExt = none) :
    (h₁.dropped src p).segInfos q = h.segInfos p ↔
      ∀ ptr ∈ h.segPath p.segmentNb p.segments, ¬ptr.Inside src := by
  obtain ⟨infos, hinfos⟩ := c.sound.segInfos
  rw [c.segInfos_eq, hinfos]
  constructor
  · intro hleft ptr hptr hin
    have hnone : (h₁.dropped src p).segInfos p = none := by
      refine segList_lost (fun ptr' s hs => ?_) hinfos ⟨ptr, hptr, seg_inside hin⟩
      by_cases hin' : ptr'.Inside src
      · exact .inr (seg_inside hin')
      · rw [seg_dropped hext hin']
        exact .inl (c.seg_mono hs)
    rw [hnone] at hleft
    exact absurd hleft (by simp)
  · intro hout
    refine segList_mono (fun ptr hptr s hs => ?_) hinfos
    rw [seg_dropped hext (hout ptr hptr)]
    exact c.seg_mono hs

/-- A copy is independent exactly if it owns what was acquired for it and no segment is in the
    source, as long as the data stays when nothing of it is shared. -/
theorem independent_own (c : Copied h h₁ src pkt p q acq)
    (hdata : q.owned pkt = acq → p.segmentsExt = none ∧ h.Extends h₁ ∧
      h.Extends (h₁.dropped pkt q) ∧ h₁.data q = h.data p ∧
      (h₁.dropped src p).data q = h.data p) :
    Independent h h₁ src pkt p ↔
      q.owned pkt = acq ∧ ∀ ptr ∈ h.segPath p.segmentNb p.segments, ¬ptr.Inside src := by
  constructor
  · intro hi
    have hown : q.owned pkt = acq := c.settles_sourceFirst.1 hi.sourceFirst
    obtain ⟨q', hq', -, hsegs⟩ := hi.copyLeft
    rw [mppPacketDeinit_eq c.live_src, c.live_pkt_dropped] at hq'
    obtain rfl : q = q' := some.inj hq'
    rw [mppPacketDeinit_eq c.live_src] at hsegs
    exact ⟨hown, (c.segInfos_copyLeft (hdata hown).1).1 hsegs⟩
  · rintro ⟨hown, hout⟩
    obtain ⟨hext, he, heLeft, hcopy, hleft⟩ := hdata hown
    refine
      { source := ⟨p, c.live_src, data_extends c.sound he, c.segInfos_copied⟩
        copy := ⟨q, c.live_pkt, hcopy, c.segInfos_eq.trans c.segInfos_copied⟩
        copyLeft := ?_
        sourceLeft := ?_
        sourceFirst := c.settles_sourceFirst.2 hown
        copyFirst := c.settles_copyFirst.2 hown }
    · rw [mppPacketDeinit_eq c.live_src]
      exact ⟨q, c.live_pkt_dropped, hleft, (c.segInfos_copyLeft hext).2 hout⟩
    · rw [mppPacketDeinit_eq c.live_pkt]
      exact ⟨p, c.live_src_dropped, data_extends c.sound heLeft, c.segInfos_sourceLeft hext⟩

end Copied

/-! ## The three outcomes -/

/-- With one more reference to a buffer everything stays. -/
theorem extends_bufferIncRef (b : ℕ) :
    h.Extends ((h.copied p q pkt).bufferIncRef b) where
  blocks _ _ hblock := hblock
  buffers b' hpos := by
    change 0 < (update h.buffers b _ b').refCount ∧
      (update h.buffers b _ b').bytes = _
    rw [update_apply]
    split_ifs with hb
    · subst hb
      exact ⟨Nat.succ_pos _, rfl⟩
    · exact ⟨hpos, rfl⟩
  user := rfl

/-- Of two references to a buffer one may go, and everything stays. -/
theorem extends_bufferPut {b : ℕ} (hb : p.buffer = some b) (hnot : ¬p.Internal) :
    h.Extends (((h.copied p p pkt).bufferIncRef b).dropped packet p) := by
  have hblocks : (((h.copied p p pkt).bufferIncRef b).dropped packet p).blocks = h.blocks :=
    ite_cond_eq_false _ _ (eq_false hnot)
  have hbuffers : (((h.copied p p pkt).bufferIncRef b).dropped packet p).buffers = h.buffers := by
    have hback : (h.buffers b).get.put = h.buffers b := rfl
    change p.buffer.elim _ _ = h.buffers
    rw [hb, elim_some]
    change update (update h.buffers b (h.buffers b).get) b
      (update h.buffers b (h.buffers b).get b).put = h.buffers
    rw [update_self, update_idem, hback, update_eq_self]
  exact
    { blocks := fun _ _ hblock => by rw [hblocks, hblock]
      buffers := fun _ hpos => by rw [hbuffers]; exact ⟨hpos, rfl⟩
      user := rfl }

section Outcomes

variable (hs : Sound h src p) (hpkt : h.packets pkt = none)
include hs hpkt

theorem copied_buffer (b : ℕ) :
    Copied h ((h.copied p p pkt).bufferIncRef b) src pkt p p (p.shared pkt + {.buffer b}) where
  sound := hs
  fresh := hpkt
  packets := rfl
  segs := rfl
  ledger := Ledger.acquire_acquire ..
  segmentNb := rfl
  segments := rfl
  segmentsExt := rfl

theorem copied_block (m : Malloc) :
    Copied h
      { h.copied p (p.withBlock m) pkt with
        blocks := update h.blocks m.addr (some (h.copyBytes p m))
        ledger := h.ledger.acquire (p.shared pkt + {.data (.block m.addr 0)}) }
      src pkt p (p.withBlock m) (p.shared pkt + {.data (.block m.addr 0)}) where
  sound := hs
  fresh := hpkt
  packets := rfl
  segs := rfl
  ledger := rfl
  segmentNb := rfl
  segments := rfl
  segmentsExt := rfl

/-- With a buffer: when the copy is independent. -/
theorem independent_buffer {b : ℕ} (hb : p.buffer = some b) :
    Independent h ((h.copied p p pkt).bufferIncRef b) src pkt p ↔
      (p.Loose ∧ ¬p.Internal) ∧ ∀ ptr ∈ h.segPath p.segmentNb p.segments, ¬ptr.Inside src := by
  have hiff : p.owned pkt = p.shared pkt + {.buffer b} ↔ p.Loose ∧ ¬p.Internal := by
    have hshared := owned_eq_shared p pkt
    rwa [hb] at hshared
  rw [(copied_buffer hs hpkt b).independent_own, hiff]
  intro hown
  obtain ⟨hloose, hnot⟩ := hiff.1 hown
  exact ⟨hloose.1, extends_bufferIncRef b, extends_bufferPut hb hnot,
    data_extends hs (extends_bufferIncRef b), data_extends hs (extends_bufferPut hb hnot)⟩

/-- With a block of its own: when the copy is independent. -/
theorem independent_block (hb : p.buffer = none) (m : Malloc) (hm : h.blocks m.addr = none) :
    Independent h
        { h.copied p (p.withBlock m) pkt with
          blocks := update h.blocks m.addr (some (h.copyBytes p m))
          ledger := h.ledger.acquire (p.shared pkt + {.data (.block m.addr 0)}) }
        src pkt p ↔
      p.Loose ∧ ∀ ptr ∈ h.segPath p.segmentNb p.segments, ¬ptr.Inside src := by
  have c := copied_block hs hpkt m
  rw [c.independent_own, owned_withBlock hb]
  intro hown
  have hloose : p.Loose := (owned_withBlock hb m).1 hown
  obtain ⟨bytes, hbytes⟩ := hs.data
  -- a block that is there is not the one that is handed out
  have hne {a : ℕ} {block : List UInt8} (ha : h.blocks a = some block) : a ≠ m.addr := by
    rintro rfl
    rw [hm] at ha
    exact absurd ha (by simp)
  refine ⟨hloose.1, ?_, ?_, ?_, ?_⟩
  · exact
      { blocks := fun a block ha => (update_of_ne (hne ha) ..).trans ha
        buffers := fun _ hpos => ⟨hpos, rfl⟩
        user := rfl }
  · refine { blocks := fun a block ha => ?_, buffers := fun b hpos => ?_, user := rfl }
    · change (if (p.withBlock m).Internal then _ else _ : ℕ → Option (List UInt8)) a = some block
      rw [ite_cond_eq_true _ _ (eq_true (withBlock_internal m))]
      change update (update h.blocks m.addr _) m.addr none a = some block
      rw [update_of_ne (hne ha), update_of_ne (hne ha), ha]
    · change 0 < (p.buffer.elim h.buffers _ b).refCount ∧ (p.buffer.elim h.buffers _ b).bytes = _
      rw [hb]
      exact ⟨hpos, rfl⟩
  · rw [hbytes]
    exact read_copyBytes (p := p) hbytes (update_self ..)
  · rw [hbytes]
    refine read_copyBytes (p := p) hbytes ?_
    change (if p.Internal then dropBlock p.data _ else _ : ℕ → Option (List UInt8)) m.addr = _
    split_ifs with hi
    · obtain ⟨a, block, hdata, ha⟩ := hs.internal hi
      rw [hdata]
      exact (update_of_ne (hne ha).symm ..).trans (update_self ..)
    · exact update_self ..

/-- Without memory for the data: when the source is kept. -/
theorem kept_iff (hb : p.buffer = none) :
    Kept h ((h.copied p p pkt).dropped pkt p) src p ↔ p.Loose ∧ ¬p.Internal := by
  have hledger : ((h.copied p p pkt).dropped pkt p).ledger =
      (h.ledger.acquire (p.shared pkt)).release (p.owned pkt) := rfl
  have hiff : h.ledger.Settles 0 ((h.copied p p pkt).dropped pkt p).ledger ↔
      p.Loose ∧ ¬p.Internal := by
    rw [hledger, Ledger.settles_acquire_release, zero_add, ← owned_eq_shared p pkt, hb,
      elim_none, add_zero]
  constructor
  · intro hk
    exact hiff.1 hk.owned
  · intro hown
    have hblocks : ((h.copied p p pkt).dropped pkt p).blocks = h.blocks :=
      ite_cond_eq_false _ _ (eq_false hown.2)
    have hbuffers : ((h.copied p p pkt).dropped pkt p).buffers = h.buffers := by
      change p.buffer.elim _ _ = h.buffers
      rw [hb]
      rfl
    have c : Copied h (h.copied p p pkt) src pkt p p (p.shared pkt) :=
      { sound := hs, fresh := hpkt, packets := rfl, segs := rfl, ledger := rfl, segmentNb := rfl,
        segments := rfl, segmentsExt := rfl }
    exact
      { same := c.live_src_dropped
        data := read_congr hblocks hbuffers rfl ..
        segInfos := c.segInfos_sourceLeft hown.1.1
        owned := hiff.2 hown }

end Outcomes

/-- A copying that succeeds promises that the copy is independent. -/
theorem copyKeeps_of_ok {pool : Option ℕ} {malloc : Option Malloc} {h₁ : Heap}
    (hcopy : mppPacketCopyInit src pool malloc h = (mppOk, some pkt, h₁)) :
    CopyKeeps h src p pool malloc ↔ Independent h h₁ src pkt p := by
  rw [CopyKeeps, hcopy]
  constructor
  · rintro ⟨hok, -⟩
    exact hok pkt h₁ rfl
  · intro hi
    refine ⟨fun pkt' h' heq => ?_, fun ret out h' heq hret => ?_⟩
    · obtain ⟨-, rfl, rfl⟩ : mppOk = mppOk ∧ pkt = pkt' ∧ h₁ = h' := by simpa using heq
      exact hi
    · exact absurd (congrArg Prod.fst heq).symm hret

/-- A copying that fails promises that the source is kept. -/
theorem copyKeeps_of_fail {pool : Option ℕ} {malloc : Option Malloc} {ret : MppRet} {h₁ : Heap}
    (hret : ret ≠ mppOk) (hcopy : mppPacketCopyInit src pool malloc h = (ret, none, h₁)) :
    CopyKeeps h src p pool malloc ↔ Kept h h₁ src p := by
  rw [CopyKeeps, hcopy]
  constructor
  · rintro ⟨-, hfail⟩
    exact hfail ret none h₁ rfl hret
  · intro hk
    refine ⟨fun pkt h' heq => ?_, fun ret' out h' heq _ => ?_⟩
    · exact absurd (congrArg Prod.fst heq) hret
    · obtain ⟨-, -, rfl⟩ : ret = ret' ∧ none = out ∧ h₁ = h' := by simpa using heq
      exact hk

/-- The copying of a packet keeps its promise exactly if it is safe. -/
theorem copyInit_iff (hs : Sound h src p) {pool : Option ℕ} {malloc : Option Malloc}
    (hpool : ∀ pkt, pool = some pkt → h.packets pkt = none)
    (hmalloc : ∀ m, malloc = some m → h.blocks m.addr = none) :
    CopyKeeps h src p pool malloc ↔ CopySafe h src p pool malloc := by
  rcases pool with _ | pkt
  · have hkept : Kept h h src p := ⟨hs.live, rfl, rfl, .refl _⟩
    rw [copyKeeps_of_fail (by decide) (copyInit_pool hs.live malloc), CopySafe]
    exact iff_of_true hkept (.inl rfl)
  have hsafe : CopySafe h src p (some pkt) malloc ↔
      if p.buffer = none ∧ malloc.isNone then p.Loose ∧ ¬p.Internal
      else p.Loose ∧ (p.buffer ≠ none → ¬p.Internal) ∧
        ∀ ptr ∈ h.segPath p.segmentNb p.segments, ¬ptr.Inside src :=
    or_iff_right (by simp)
  have hpkt : h.packets pkt = none := hpool pkt rfl
  rw [hsafe]
  rcases hb : p.buffer with _ | b
  · rcases malloc with _ | m
    · rw [copyKeeps_of_fail (by decide) (copyInit_malloc hs.live hb), kept_iff hs hpkt hb]
      simp
    · rw [copyKeeps_of_ok (copyInit_block hs.live hb m),
        independent_block hs hpkt hb m (hmalloc m rfl)]
      simp
  · rw [copyKeeps_of_ok (copyInit_buffer hs.live hb malloc), independent_buffer hs hpkt hb]
    simp [and_assoc]

/-- Nothing in use, and some memory of the caller -/
def emptyHeap : Heap where
  packets _ := none
  blocks _ := none
  segs _ := none
  buffers _ := { refCount := 0, bytes := [] }
  metas _ := 0
  user _ := [1, 2, 3, 4]
  ledger := .empty

/-- A packet with four bytes of the caller -/
def plainHeap : Heap := (mppPacketInit (some 0) (.user 0 0) 4 emptyHeap).2.2

/-- The packet with a segment -/
def segmentHeap : Heap := (mppPacketAddSegmentInfo 0 1 0 4 none plainHeap).2

/-- A block of the size that is asked for -/
def spare : Malloc := { addr := 0, bytes := List.replicate 260 0 }

/-- Without a segment the copy and the source part. -/
theorem copyInit_iff_plain :
    CopyKeeps plainHeap 0 ((plainHeap.packets 0).getD newPacket) (some 1) (some spare) :=
  (copyInit_iff
    { live := rfl
      internal := fun hi => absurd hi (by decide)
      buffer := fun b (hb : none = some b) => absurd hb (by simp)
      data := ⟨[1, 2, 3, 4], by decide⟩
      segInfos := ⟨[], by decide⟩ }
    (fun pkt hpkt => by obtain rfl : 1 = pkt := some.inj hpkt; rfl)
    (fun m _ => rfl)).2 (by decide)

/-- The packet with a segment, and a copy of it -/
def copiedHeap : Heap := (mppPacketCopyInit 0 (some 1) (some spare) segmentHeap).2.2

/-- Without the source the segment of the copy is gone. -/
theorem copyInit_segment :
    ¬∀ (h : Heap) (src : ℕ) (p : MppPacketImpl) (pool : Option ℕ) (malloc : Option Malloc),
      Sound h src p → (∀ pkt, pool = some pkt → h.packets pkt = none) →
      (∀ m, malloc = some m → h.blocks m.addr = none) → CopyKeeps h src p pool malloc := by
  intro hall
  have hsound : Sound segmentHeap 0 ((segmentHeap.packets 0).getD newPacket) :=
    { live := rfl
      internal := fun hi => absurd hi (by decide)
      buffer := fun b (hb : none = some b) => absurd hb (by simp)
      data := ⟨[1, 2, 3, 4], by decide⟩
      segInfos := ⟨[(0, 1, 0, 4)], by decide⟩ }
  have hkeeps : CopyKeeps segmentHeap 0 _ (some 1) (some spare) :=
    hall segmentHeap 0 _ (some 1) (some spare) hsound
      (fun pkt hpkt => by obtain rfl : 1 = pkt := some.inj hpkt; rfl) (fun m _ => rfl)
  obtain ⟨q, hq, -, hinfos⟩ := (hkeeps.1 1 copiedHeap rfl).copyLeft
  have hgone : (((mppPacketDeinit 0 copiedHeap).2.packets 1).bind fun q =>
      (mppPacketDeinit 0 copiedHeap).2.segInfos q) = none := by
    decide
  rw [hq, bind_some, hinfos] at hgone
  exact absurd hgone (by decide)

end Libmpp.Base
