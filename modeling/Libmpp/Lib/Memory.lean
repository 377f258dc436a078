import Mathlib

/-!
# Blocks of memory and their owners

A memory (`Memory`) hands out its addresses in order. An access to an address without a
block fails, and so does a free of one.

What a record owns is its *layout* (`Layout`): a place of the record has a block or none,
and two places have different ones.

* `Released`, `Extends`: what happens to the memory when an owner frees blocks, or gets
  new ones;
* `Owned`: every block has one owner. It stays so when an owner frees its blocks
  (`Owned.release`), when one gets new ones (`Owned.extend`), and when the blocks of one
  become those of another (`Owned.move`).
-/

namespace Libmpp

open Function Option

/-- A memory with blocks of type `α`. -/
structure Memory (α : Type*) where
  next : ℕ
  block : ℕ → Option α
  fresh : ∀ a, next ≤ a → block a = none

namespace Memory

variable {α : Type*}

def empty : Memory α := ⟨0, fun _ => none, fun _ _ => rfl⟩

/-- The memory with the blocks `vs` at the next addresses. -/
def alloc (m : Memory α) (vs : List α) : Memory α where
  next := m.next + vs.length
  block a := if a < m.next then m.block a else vs[a - m.next]?
  fresh a ha := by
    rw [if_neg (by omega)]
    exact List.getElem?_eq_none (by omega)

/-- The memory with another block at `a`, where there is one. -/
def put (m : Memory α) (a : ℕ) (v : α) : Memory α where
  next := m.next
  block b := if b = a then (m.block a).map fun _ => v else m.block b
  fresh b hb := by
    split_ifs with h
    · rw [← h, m.fresh b hb]
      rfl
    · exact m.fresh b hb

/-- The memory without the block at `a`. -/
def drop (m : Memory α) (a : ℕ) : Memory α where
  next := m.next
  block b := if b = a then none else m.block b
  fresh b hb := by
    split_ifs
    · rfl
    · exact m.fresh b hb

/-- What a pointer points to. -/
def load (m : Memory α) (p : Option ℕ) : Option α := p.bind m.block

/-- Replace what a pointer points to. -/
def store (m : Memory α) (p : Option ℕ) (v : α) : Option (Memory α) :=
  p.bind fun a => (m.block a).map fun _ => m.put a v

/-- A pointer to nothing is freed without an effect. -/
def free (m : Memory α) : Option ℕ → Option (Memory α)
  | none => some m
  | some a => (m.block a).map fun _ => m.drop a

variable {a : ℕ}

theorem block_alloc_of_lt {m : Memory α} (vs : List α) (ha : a < m.next) :
    (m.alloc vs).block a = m.block a := if_pos ha

theorem block_alloc_add (m : Memory α) (vs : List α) (k : ℕ) :
    (m.alloc vs).block (m.next + k) = vs[k]? := by
  rw [alloc]
  dsimp only
  rw [if_neg (by omega), Nat.add_sub_cancel_left]

theorem lt_next_of_block {m : Memory α} (h : (m.block a).isSome) : a < m.next := by
  by_contra hle
  rw [m.fresh a (not_lt.1 hle)] at h
  exact Bool.false_ne_true h

theorem block_put_self {m : Memory α} (h : (m.block a).isSome) (v : α) :
    (m.put a v).block a = some v := by
  obtain ⟨w, hw⟩ := isSome_iff_exists.1 h
  rw [put]
  dsimp only
  rw [if_pos rfl, hw]
  rfl

theorem block_put_of_ne (m : Memory α) {b : ℕ} (h : b ≠ a) (v : α) :
    (m.put a v).block b = m.block b := if_neg h

theorem block_drop_self (m : Memory α) (a : ℕ) : (m.drop a).block a = none := if_pos rfl

theorem block_drop_of_ne (m : Memory α) {b : ℕ} (h : b ≠ a) :
    (m.drop a).block b = m.block b := if_neg h

theorem store_eq {m : Memory α} (h : (m.block a).isSome) (v : α) :
    m.store (some a) v = some (m.put a v) := by
  obtain ⟨w, hw⟩ := isSome_iff_exists.1 h
  rw [store, bind_some, hw]
  rfl

theorem free_eq {m : Memory α} (h : (m.block a).isSome) : m.free (some a) = some (m.drop a) := by
  obtain ⟨w, hw⟩ := isSome_iff_exists.1 h
  rw [free, hw]
  rfl

end Memory

/-- The blocks of a record with the places `σ`. -/
structure Layout (σ : Type*) where
  addr : σ → Option ℕ
  inj : ∀ {x y : σ} {a : ℕ}, addr x = some a → addr y = some a → x = y

namespace Layout

variable {σ : Type*}

/-- The addresses of the blocks. -/
def footprint (L : Layout σ) : Set ℕ := {a | ∃ x, L.addr x = some a}

def empty : Layout σ := ⟨fun _ => none, nofun⟩

variable {a : ℕ}

theorem mem_footprint {L : Layout σ} {x : σ} (h : L.addr x = some a) : a ∈ L.footprint :=
  ⟨x, h⟩

@[simp]
theorem footprint_empty : (empty : Layout σ).footprint = ∅ := by
  ext a
  exact ⟨fun ⟨_, h⟩ => absurd h nofun, False.elim⟩

variable [DecidableEq σ]

/-- The layout without a block in the place `x`. -/
def erase (L : Layout σ) (x : σ) : Layout σ where
  addr := Function.update L.addr x none
  inj := by
    intro y z a hy hz
    rw [Function.update_apply] at hy hz
    split_ifs at hy hz
    exact L.inj hy hz

theorem erase_self (L : Layout σ) (x : σ) : (L.erase x).addr x = none := update_self ..

theorem erase_of_ne (L : Layout σ) {x y : σ} (h : y ≠ x) : (L.erase x).addr y = L.addr y :=
  update_of_ne h ..

theorem erase_eq_self (L : Layout σ) {x : σ} (h : L.addr x = none) : L.erase x = L := by
  obtain ⟨addr, inj⟩ := L
  rw [erase]
  congr
  exact update_eq_self_iff.2 h.symm

theorem addr_of_erase {L : Layout σ} {x y : σ} (h : (L.erase x).addr y = some a) :
    y ≠ x ∧ L.addr y = some a := by
  by_cases hyx : y = x
  · rw [hyx, erase_self] at h
    exact absurd h nofun
  · rw [L.erase_of_ne hyx] at h
    exact ⟨hyx, h⟩

/-- The layout with a new block in the place `x`. -/
def insert (L : Layout σ) (x : σ) (a : ℕ) (h : a ∉ L.footprint) : Layout σ where
  addr := Function.update L.addr x (some a)
  inj := by
    intro y z b hy hz
    rw [Function.update_apply] at hy hz
    split_ifs at hy hz with hyx hzx hzx
    · exact hyx.trans hzx.symm
    · obtain rfl := Option.some_inj.1 hy
      exact absurd (mem_footprint hz) h
    · obtain rfl := Option.some_inj.1 hz
      exact absurd (mem_footprint hy) h
    · exact L.inj hy hz

theorem insert_self (L : Layout σ) (x : σ) (h : a ∉ L.footprint) :
    (L.insert x a h).addr x = some a := update_self ..

theorem insert_of_ne (L : Layout σ) {x y : σ} (h : a ∉ L.footprint) (hyx : y ≠ x) :
    (L.insert x a h).addr y = L.addr y := update_of_ne hyx ..

theorem mem_footprint_insert {L : Layout σ} {x : σ} {b : ℕ} {h : a ∉ L.footprint}
    (hx : L.addr x = none) : b ∈ (L.insert x a h).footprint ↔ b = a ∨ b ∈ L.footprint := by
  constructor
  · rintro ⟨y, hy⟩
    by_cases hyx : y = x
    · rw [hyx, insert_self] at hy
      exact .inl (some_inj.1 hy).symm
    · rw [insert_of_ne L h hyx] at hy
      exact .inr ⟨y, hy⟩
  · rintro (rfl | ⟨y, hy⟩)
    · exact ⟨x, insert_self L x h⟩
    · have hyx : y ≠ x := by
        rintro rfl
        rw [hx] at hy
        exact absurd hy nofun
      exact ⟨y, (insert_of_ne L h hyx).trans hy⟩

end Layout

/-! ## One owner -/

section Owner

variable {α σ : Type*}

/-- The blocks of the layout are there. -/
def Live (L : Layout σ) (m : Memory α) : Prop := ∀ a ∈ L.footprint, (m.block a).isSome

/-- Blocks are freed, from the layout `L` to `L'`. -/
structure Released (m m' : Memory α) (L L' : Layout σ) : Prop where
  next : m'.next = m.next
  subset : L'.footprint ⊆ L.footprint
  gone : ∀ a ∈ L.footprint, a ∉ L'.footprint → m'.block a = none
  other : ∀ a ∉ L.footprint, m'.block a = m.block a

/-- The layout has been added to the memory `m`. -/
structure Extends (m m' : Memory α) (L : Layout σ) : Prop where
  next : m.next ≤ m'.next
  new : ∀ a ∈ L.footprint, m.next ≤ a
  other : ∀ a ∉ L.footprint, m'.block a = m.block a

variable {m m' m'' : Memory α} {L L' L'' : Layout σ}

theorem Released.trans (h : Released m m' L L') (h' : Released m' m'' L' L'') :
    Released m m'' L L'' where
  next := h'.next.trans h.next
  subset := h'.subset.trans h.subset
  gone a ha ha'' := by
    by_cases ha' : a ∈ L'.footprint
    · exact h'.gone a ha' ha''
    · rw [h'.other a ha']
      exact h.gone a ha ha'
  other a ha := (h'.other a fun ha' => ha (h.subset ha')).trans (h.other a ha)

theorem Released.refl (m : Memory α) (L : Layout σ) : Released m m L L :=
  ⟨rfl, subset_rfl, fun _ ha ha' => absurd ha ha', fun _ _ => rfl⟩

/-- A block that is still held is changed. -/
theorem Released.put (h : Released m m' L L') {a : ℕ} (ha : a ∈ L'.footprint) (v : α) :
    Released m (m'.put a v) L L' where
  next := h.next
  subset := h.subset
  gone b hb hb' := by
    have hba : b ≠ a := ne_of_mem_of_not_mem ha hb' |>.symm
    rw [m'.block_put_of_ne hba]
    exact h.gone b hb hb'
  other b hb := by
    have hba : b ≠ a := ne_of_mem_of_not_mem (h.subset ha) hb |>.symm
    rw [m'.block_put_of_ne hba]
    exact h.other b hb

/-- A block of the layout is changed. -/
theorem Extends.put (h : Extends m m' L) {a : ℕ} (ha : a ∈ L.footprint) (v : α) :
    Extends m (m'.put a v) L where
  next := h.next
  new := h.new
  other b hb := by
    have hba : b ≠ a := ne_of_mem_of_not_mem ha hb |>.symm
    rw [m'.block_put_of_ne hba]
    exact h.other b hb

/-- What has been added and is freed again leaves nothing. -/
theorem Extends.release (h : Extends m m' L) (hrel : Released m' m'' L L')
    (hL' : L'.footprint = ∅) : m''.block = m.block := by
  funext a
  by_cases ha : a ∈ L.footprint
  · rw [hrel.gone a ha (hL' ▸ Set.notMem_empty a), m.fresh a (h.new a ha)]
  · rw [hrel.other a ha, h.other a ha]

variable [DecidableEq σ]

theorem Live.free (h : Live L m) (x : σ) :
    ∃ m', m.free (L.addr x) = some m' ∧ Released m m' L (L.erase x) ∧ Live (L.erase x) m' ∧
      ∀ a, L.addr x ≠ some a → m'.block a = m.block a := by
  have hsubset : (L.erase x).footprint ⊆ L.footprint := fun a ⟨y, hy⟩ =>
    Layout.mem_footprint (Layout.addr_of_erase hy).2
  cases hx : L.addr x with
  | none =>
    have herase : L.footprint ⊆ (L.erase x).footprint := by
      rintro a ⟨y, hy⟩
      have hyx : y ≠ x := by
        rintro rfl
        rw [hx] at hy
        exact absurd hy nofun
      exact ⟨y, (L.erase_of_ne hyx).trans hy⟩
    exact ⟨m, rfl, ⟨rfl, hsubset, fun a ha ha' => absurd (herase ha) ha', fun _ _ => rfl⟩,
      fun a ha => h a (hsubset ha), fun _ _ => rfl⟩
  | some b =>
    have hb := h b (Layout.mem_footprint hx)
    refine ⟨m.drop b, m.free_eq hb, ⟨rfl, hsubset, ?_, ?_⟩, ?_, ?_⟩
    · rintro a ⟨y, hy⟩ ha'
      by_cases hyx : y = x
      · rw [hyx, hx] at hy
        obtain rfl := some_inj.1 hy
        exact m.block_drop_self b
      · exact absurd (Layout.mem_footprint ((L.erase_of_ne hyx).trans hy)) ha'
    · intro a ha
      exact m.block_drop_of_ne fun hab => ha (hab ▸ Layout.mem_footprint hx)
    · rintro a ⟨y, hy⟩
      obtain ⟨hyx, hy⟩ := Layout.addr_of_erase hy
      have hab : a ≠ b := by
        rintro rfl
        exact hyx (L.inj hy hx)
      rw [m.block_drop_of_ne hab]
      exact h a (Layout.mem_footprint hy)
    · intro a ha
      exact m.block_drop_of_ne fun hab => ha (congrArg some hab.symm)

/-- The blocks in some places are freed, one after another. -/
theorem Live.freeAll (h : Live L m) {xs : List σ} (hxs : xs.Nodup) :
    ∃ m' L', (xs.map L.addr).foldlM Memory.free m = some m' ∧ Released m m' L L' ∧
      ∀ y, L'.addr y = if y ∈ xs then none else L.addr y := by
  induction xs generalizing m L with
  | nil => exact ⟨m, L, rfl, .refl m L, fun _ => rfl⟩
  | cons x xs ih =>
    obtain ⟨hx, hxs⟩ := List.nodup_cons.1 hxs
    obtain ⟨m₁, hfree, hrel, hlive, -⟩ := h.free x
    obtain ⟨m₂, L₂, hfrees, hrels, haddr⟩ := ih hlive hxs
    have hmap : xs.map (L.erase x).addr = xs.map L.addr :=
      List.map_congr_left fun y hy => L.erase_of_ne (ne_of_mem_of_not_mem hy hx)
    rw [hmap] at hfrees
    refine ⟨m₂, L₂, ?_, hrel.trans hrels, fun y => ?_⟩
    · rw [List.map_cons, List.foldlM_cons, hfree]
      exact hfrees
    · rw [haddr y]
      by_cases hyx : y = x
      · rw [hyx, if_neg hx, L.erase_self, if_pos List.mem_cons_self]
      · rw [L.erase_of_ne hyx]
        simp only [List.mem_cons, hyx, false_or]

end Owner

/-! ## Several owners -/

section Owners

variable {α σ ι : Type*}

/-- Every block has one owner. -/
structure Owned (m : Memory α) (L : ι → Layout σ) : Prop where
  disjoint : ∀ {i j a}, a ∈ (L i).footprint → a ∈ (L j).footprint → i = j
  live : ∀ i, Live (L i) m
  cover : ∀ a, (m.block a).isSome → ∃ i, a ∈ (L i).footprint

variable {m m' : Memory α} {L : ι → Layout σ} {L' : Layout σ} {i j : ι}

theorem Owned.empty : Owned (Memory.empty : Memory α) fun _ : ι => (Layout.empty : Layout σ) where
  disjoint ha := absurd ha (Layout.footprint_empty ▸ Set.notMem_empty _)
  live _ a ha := absurd ha (Layout.footprint_empty ▸ Set.notMem_empty a)
  cover _ ha := absurd ha Bool.false_ne_true

/-- The blocks of the others stay as they are, when one frees its own. -/
theorem Owned.block_of_released (h : Owned m L) (hrel : Released m m' (L i) L') (hj : j ≠ i) :
    ∀ a ∈ (L j).footprint, m'.block a = m.block a :=
  fun a ha => hrel.other a fun hi => hj (h.disjoint ha hi)

/-- The blocks of all stay as they are, when one gets new ones. -/
theorem Owned.block_of_extends (h : Owned m L) (hext : Extends m m' L') (j : ι) :
    ∀ a ∈ (L j).footprint, m'.block a = m.block a := fun a ha =>
  hext.other a fun hnew => (Memory.lt_next_of_block (h.live j a ha)).not_ge (hext.new a hnew)

variable [DecidableEq ι]

theorem Owned.release (h : Owned m L) (hrel : Released m m' (L i) L') (hL' : L'.footprint = ∅) :
    Owned m' (update L i L') where
  disjoint {j k a} hj hk := by
    rw [update_apply] at hj hk
    split_ifs at hj hk
    · exact absurd hj (hL' ▸ Set.notMem_empty a)
    · exact absurd hj (hL' ▸ Set.notMem_empty a)
    · exact absurd hk (hL' ▸ Set.notMem_empty a)
    · exact h.disjoint hj hk
  live j a ha := by
    rw [update_apply] at ha
    split_ifs at ha with hji
    · exact absurd ha (hL' ▸ Set.notMem_empty a)
    · rw [h.block_of_released hrel hji a ha]
      exact h.live j a ha
  cover a ha := by
    by_cases hi : a ∈ (L i).footprint
    · rw [hrel.gone a hi (hL' ▸ Set.notMem_empty a)] at ha
      exact absurd ha Bool.false_ne_true
    · rw [hrel.other a hi] at ha
      obtain ⟨j, hj⟩ := h.cover a ha
      have hji : j ≠ i := by
        rintro rfl
        exact hi hj
      exact ⟨j, by rwa [update_of_ne hji]⟩

theorem Owned.extend (h : Owned m L) (hi : (L i).footprint = ∅) (hext : Extends m m' L')
    (hlive : Live L' m') : Owned m' (update L i L') where
  disjoint {j k a} hj hk := by
    have hold : ∀ j, a ∈ (L j).footprint → a ∉ L'.footprint := fun j hj hnew =>
      (Memory.lt_next_of_block (h.live j a hj)).not_ge (hext.new a hnew)
    rw [update_apply] at hj hk
    split_ifs at hj hk with hji hki hki
    · exact hji.trans hki.symm
    · exact absurd hj (hold k hk)
    · exact absurd hk (hold j hj)
    · exact h.disjoint hj hk
  live j a ha := by
    rw [update_apply] at ha
    split_ifs at ha with hji
    · exact hlive a ha
    · rw [h.block_of_extends hext j a ha]
      exact h.live j a ha
  cover a ha := by
    by_cases hnew : a ∈ L'.footprint
    · exact ⟨i, by rwa [update_self]⟩
    · rw [hext.other a hnew] at ha
      obtain ⟨j, hj⟩ := h.cover a ha
      have hji : j ≠ i := by
        rintro rfl
        exact absurd hj (hi ▸ Set.notMem_empty a)
      exact ⟨j, by rwa [update_of_ne hji]⟩

/-- The blocks of `i` become those of `j`, who has none. -/
theorem Owned.move (h : Owned m L) (hj : (L j).footprint = ∅) (hij : i ≠ j) :
    Owned m (update (update L j (L i)) i Layout.empty) := by
  have hold : ∀ k a, a ∈ (update (update L j (L i)) i Layout.empty k).footprint →
      k ≠ i ∧ a ∈ (L (if k = j then i else k)).footprint := by
    intro k a ha
    rw [update_apply] at ha
    split_ifs at ha with hki
    · exact absurd ha (Layout.footprint_empty ▸ Set.notMem_empty a)
    · rw [update_apply] at ha
      refine ⟨hki, ?_⟩
      split_ifs at ha ⊢
      · exact ha
      · exact ha
  refine ⟨?_, fun k a ha => h.live _ a (hold k a ha).2, fun a ha => ?_⟩
  · intro k l a hk hl
    obtain ⟨hki, hk⟩ := hold k a hk
    obtain ⟨hli, hl⟩ := hold l a hl
    have heq := h.disjoint hk hl
    split_ifs at heq with hkj hlj hlj
    · exact hkj.trans hlj.symm
    · exact absurd heq.symm hli
    · exact absurd heq hki
    · exact heq
  · obtain ⟨k, hk⟩ := h.cover a ha
    by_cases hki : k = i
    · refine ⟨j, ?_⟩
      rw [update_of_ne hij.symm, update_self, ← hki]
      exact hk
    · have hkj : k ≠ j := by
        rintro rfl
        exact absurd hk (hj ▸ Set.notMem_empty a)
      refine ⟨k, ?_⟩
      rwa [update_of_ne hki, update_of_ne hkj]

end Owners

end Libmpp
