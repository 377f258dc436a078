import Libmpp.Lib.Radix
import Libmpp.Trie.Basic

/-!
# The tree of a trie

The nodes of a trie are a tree (`Nodes.tree`): a link has a nibble, and a node has the
nibbles of its tag, which are the digits of a number. `Linked` says that the back links of
the nodes in use agree with the links, so that a node is spelled in one way.
-/

namespace Libmpp.Trie

open List

/-! ## Nibbles -/

/-- The nibbles of bytes. -/
def nibbles (l : List UInt8) : List Nibble := l.flatMap fun b => [hiNibble b, loNibble b]

@[simp] theorem nibbles_nil : nibbles [] = [] := rfl

@[simp] theorem nibbles_cons (b : UInt8) (l : List UInt8) :
    nibbles (b :: l) = hiNibble b :: loNibble b :: nibbles l := rfl

/-- A byte is its two nibbles. -/
theorem nibble_inj {b c : UInt8} (hhi : hiNibble b = hiNibble c) (hlo : loNibble b = loNibble c) :
    b = c := by
  have hhi := congrArg Fin.val hhi
  have hlo := congrArg Fin.val hlo
  simp only [hiNibble, loNibble, Fin.ofNat] at hhi hlo
  rw [← UInt8.toNat_inj]
  have hb := b.toNat_lt
  have hc := c.toNat_lt
  omega

theorem nibbles_injective : Function.Injective nibbles := by
  intro l m h
  induction l generalizing m with
  | nil =>
    cases m with
    | nil => rfl
    | cons c m => exact absurd h (cons_ne_nil _ _).symm
  | cons b l ih =>
    cases m with
    | nil => exact absurd h (cons_ne_nil _ _)
    | cons c m =>
      rw [nibbles_cons, nibbles_cons, List.cons.injEq, List.cons.injEq] at h
      rw [nibble_inj h.1 h.2.1, ih h.2.2]

/-- The number of a tag, its nibbles being the digits. -/
def tagNum (t : List Nibble) : ℕ := Nat.ofDigits 16 (t.reverse.map Fin.val)

theorem tagNum_lt (t : List Nibble) : tagNum t < 16 ^ t.length := by
  have h := Nat.ofDigits_lt_base_pow_length (b := 16) (l := t.reverse.map Fin.val) (by norm_num)
    fun x hx => by
      obtain ⟨k, -, rfl⟩ := mem_map.1 hx
      exact k.isLt
  rwa [length_map, length_reverse] at h

/-- A nibble in front. -/
theorem tagNum_cons (k : Nibble) (t : List Nibble) :
    tagNum (k :: t) = k.val * 16 ^ t.length + tagNum t := by
  rw [tagNum, reverse_cons, map_append, Nat.ofDigits_append, map_singleton,
    Nat.ofDigits_singleton, length_map, length_reverse, tagNum]
  ring

/-- A nibble at the end. -/
theorem tagNum_append_singleton (t : List Nibble) (k : Nibble) :
    tagNum (t ++ [k]) = tagNum t * 16 + k.val := by
  rw [tagNum, reverse_append, reverse_singleton, singleton_append, map_cons,
    Nat.ofDigits_cons, tagNum]
  ring

theorem tagNum_inj {t t' : List Nibble} (hlen : t.length = t'.length)
    (h : tagNum t = tagNum t') : t = t' := by
  have hlt : ∀ s : List Nibble, ∀ x ∈ s.reverse.map Fin.val, x < 16 := by
    intro s x hx
    obtain ⟨k, -, rfl⟩ := mem_map.1 hx
    exact k.isLt
  have heq := Nat.ofDigits_inj_of_len_eq (by norm_num) (by simpa using hlen) (hlt t) (hlt t') h
  exact reverse_injective ((map_injective_iff.2 Fin.val_injective) heq)

/-! ## Nodes -/

/-- A node in use. -/
def Nodes.Live (nodes : Nodes) (i : ℕ) : Prop := (nodes.node i).idx = i

instance (nodes : Nodes) (i : ℕ) : Decidable (nodes.Live i) :=
  inferInstanceAs (Decidable (_ = _))

variable {nodes : Nodes}

theorem node_of_le {i : ℕ} (h : nodes.length ≤ i) : nodes.node i = {} :=
  getD_eq_default _ _ h

theorem node_modify (nodes : Nodes) (f : MppTrieNode → MppTrieNode) (i j : ℕ) :
    Nodes.node (nodes.modify i f) j =
      if i = j ∧ j < nodes.length then f (nodes.node j) else nodes.node j := by
  rw [Nodes.node, Nodes.node, getD_eq_getElem?_getD, getElem?_modify,
    getD_eq_getElem?_getD]
  by_cases hlt : j < nodes.length
  · rw [getElem?_eq_getElem hlt]
    by_cases hij : i = j
    · simp [hij, hlt]
    · simp [hij]
  · simp [hlt]

theorem node_set (nodes : Nodes) (a : MppTrieNode) (i j : ℕ) :
    Nodes.node (nodes.set i a) j = if i = j ∧ j < nodes.length then a else nodes.node j := by
  rw [Nodes.node, Nodes.node, getD_eq_getElem?_getD, getElem?_set,
    getD_eq_getElem?_getD]
  by_cases hij : i = j
  · subst hij
    by_cases hlt : i < nodes.length
    · simp [hlt]
    · simp [hlt]
  · simp [hij]

theorem node_append_singleton (nodes : Nodes) (a : MppTrieNode) (j : ℕ) :
    Nodes.node (nodes ++ [a]) j = if j = nodes.length then a else nodes.node j := by
  rw [Nodes.node, Nodes.node, getD_eq_getElem?_getD, getD_eq_getElem?_getD]
  split_ifs with h
  · rw [h, getElem?_append_right le_rfl, Nat.sub_self]
    rfl
  · rcases lt_or_gt_of_ne h with hlt | hgt
    · rw [getElem?_append_left hlt]
    · rw [getElem?_eq_none (by simpa using hgt), getElem?_eq_none hgt.le]

/-- A node in use is stored. -/
theorem Nodes.Live.lt {i : ℕ} (h : nodes.Live i) (hi : i ≠ 0) : i < nodes.length := by
  by_contra hle
  rw [Nodes.Live, node_of_le (not_lt.1 hle)] at h
  exact hi h.symm

theorem Nodes.Live.lt_of_pos {i : ℕ} (h : nodes.Live i) (hpos : 0 < nodes.length) :
    i < nodes.length := by
  by_cases hi : i = 0
  · exact hi ▸ hpos
  · exact h.lt hi

/-! ## The tree -/

/-- The tree of nodes. A link to the root is none. -/
def Nodes.tree (nodes : Nodes) : Radix ℕ Nibble where
  root := 0
  Child i k j := j ≠ 0 ∧ (nodes.node i).next k = j
  Tag j t := t.length = (nodes.node j).tagLen ∧ tagNum t = (nodes.node j).tagVal

/-- A link leads to a node in use that is linked back, and a node in use is behind one. -/
structure Linked (nodes : Nodes) : Prop where
  idx : ∀ i, (nodes.node i).idx = 0 ∨ nodes.Live i
  down : ∀ i k j, nodes.tree.Child i k j →
    nodes.Live j ∧ (nodes.node j).prev = i ∧ (nodes.node j).key = k
  up : ∀ j, j ≠ 0 → nodes.Live j →
    nodes.Live (nodes.node j).prev ∧ nodes.tree.Child (nodes.node j).prev (nodes.node j).key j
  ordered : ∀ j, j ≠ 0 → nodes.Live j → (nodes.node j).prev < j

theorem Linked.wired (h : Linked nodes) : nodes.tree.Wired where
  root i k hc := hc.1 rfl
  parent hc hc' := by
    obtain ⟨-, hprev, hkey⟩ := h.down _ _ _ hc
    obtain ⟨-, hprev', hkey'⟩ := h.down _ _ _ hc'
    exact ⟨hprev.symm.trans hprev', hkey.symm.trans hkey'⟩
  tag ht ht' := tagNum_inj (ht.1.trans ht'.1.symm) (ht.2.trans ht'.2.symm)

theorem Linked.live_zero (h : Linked nodes) : nodes.Live 0 := (h.idx 0).elim id id

/-- A link is from a node in use. -/
theorem Linked.live_of_child (h : Linked nodes) {i j : ℕ} {k : Nibble}
    (hc : nodes.tree.Child i k j) : nodes.Live i := by
  obtain ⟨hlive, rfl, -⟩ := h.down i k j hc
  exact (h.up j hc.1 hlive).1

/-- A link leads on. -/
theorem Linked.lt_of_child (h : Linked nodes) {i j : ℕ} {k : Nibble}
    (hc : nodes.tree.Child i k j) : i < j := by
  obtain ⟨hlive, rfl, -⟩ := h.down i k j hc
  exact h.ordered j hc.1 hlive

/-- What is spelled is in use. -/
theorem Linked.live_of_spells (h : Linked nodes) {w : List Nibble} {j : ℕ}
    (hs : nodes.tree.Spells w j) : nodes.Live j := by
  cases hs with
  | root => exact h.live_zero
  | snoc _ hc _ => exact (h.down _ _ _ hc).1

/-! ## Entries of nodes -/

/-- The node `i` gets an entry. -/
def Nodes.setId (nodes : Nodes) (i : ℕ) (id : ℤ) : Nodes :=
  nodes.modify i fun node => { node with id }

theorem length_setId (nodes : Nodes) (i : ℕ) (id : ℤ) : (nodes.setId i id).length = nodes.length :=
  length_modify _ _ _

theorem node_setId (nodes : Nodes) (i : ℕ) (id : ℤ) (j : ℕ) :
    (nodes.setId i id).node j =
      { nodes.node j with id := if i = j ∧ j < nodes.length then id else (nodes.node j).id } := by
  rw [Nodes.setId, node_modify]
  split_ifs <;> rfl

/-- Nodes that differ in the offsets of their entries. -/
structure Reid (nodes nodes' : Nodes) : Prop where
  length : nodes'.length = nodes.length
  same : ∀ j, ∃ id, nodes'.node j = { nodes.node j with id }

theorem Reid.refl (nodes : Nodes) : Reid nodes nodes := ⟨rfl, fun j => ⟨(nodes.node j).id, rfl⟩⟩

theorem Reid.trans {nodes nodes' nodes'' : Nodes} (h : Reid nodes nodes')
    (h' : Reid nodes' nodes'') : Reid nodes nodes'' := by
  refine ⟨h'.length.trans h.length, fun j => ?_⟩
  obtain ⟨id, hid⟩ := h.same j
  obtain ⟨id', hid'⟩ := h'.same j
  exact ⟨id', by rw [hid', hid]⟩

theorem reid_setId (nodes : Nodes) (i : ℕ) (id : ℤ) : Reid nodes (nodes.setId i id) :=
  ⟨length_setId nodes i id, fun j => ⟨_, node_setId nodes i id j⟩⟩

section

variable {nodes' : Nodes} (h : Reid nodes nodes')

include h

/-- Entries are no part of the tree. -/
theorem Reid.tree : nodes'.tree = nodes.tree := by
  have hnext : ∀ j, (nodes'.node j).next = (nodes.node j).next := fun j => by
    obtain ⟨id, hid⟩ := h.same j
    rw [hid]
  have hlen : ∀ j, (nodes'.node j).tagLen = (nodes.node j).tagLen := fun j => by
    obtain ⟨id, hid⟩ := h.same j
    rw [hid]
  have hval : ∀ j, (nodes'.node j).tagVal = (nodes.node j).tagVal := fun j => by
    obtain ⟨id, hid⟩ := h.same j
    rw [hid]
  simp only [Nodes.tree, hnext, hlen, hval]

theorem Reid.rootTag : (nodes'.node 0).tagLen = (nodes.node 0).tagLen := by
  obtain ⟨id, hid⟩ := h.same 0
  rw [hid]

theorem Reid.live (j : ℕ) : nodes'.Live j ↔ nodes.Live j := by
  obtain ⟨id, hid⟩ := h.same j
  rw [Nodes.Live, hid]
  rfl

theorem Reid.tagLen_le (hle : ∀ j, (nodes.node j).tagLen ≤ tagLenMax) (j : ℕ) :
    (nodes'.node j).tagLen ≤ tagLenMax := by
  obtain ⟨id, hid⟩ := h.same j
  rw [hid]
  exact hle j

theorem Reid.linked (hl : Linked nodes) : Linked nodes' := by
  refine ⟨fun j => ?_, fun a k b hc => ?_, fun j hj hlive => ?_, fun j hj hlive => ?_⟩
  · obtain ⟨id, hid⟩ := h.same j
    rw [h.live, hid]
    exact hl.idx j
  · obtain ⟨id, hid⟩ := h.same b
    rw [h.tree] at hc
    rw [h.live, hid]
    exact hl.down a k b hc
  · obtain ⟨id, hid⟩ := h.same j
    rw [h.live] at hlive
    rw [h.live, h.tree, hid]
    exact hl.up j hj hlive
  · obtain ⟨id, hid⟩ := h.same j
    rw [h.live] at hlive
    rw [hid]
    exact hl.ordered j hj hlive

end

end Libmpp.Trie
