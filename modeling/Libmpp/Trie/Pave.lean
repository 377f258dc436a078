import Libmpp.Trie.Shape

/-!
# Paving

While entries are added, every node spells a single nibble, and none is unused (`Plain`).
Paving a name (`triePaveNode`) makes the nodes that are missing on its way, and ends at the
node it spells (`pave_spec`); what was spelled before still is, and the nodes that are made
have no entries (`Grown`).
-/

namespace Libmpp.Trie

open List Option

/-- Links are counted. -/
def Counted (nodes : Nodes) : Prop :=
  ∀ i, (nodes.node i).nextCnt = (Finset.univ.filter fun k => (nodes.node i).next k ≠ 0).card

/-- Nodes before they are merged. -/
structure Plain (nodes : Nodes) : Prop extends Linked nodes where
  pos : 0 < nodes.length
  live : ∀ i < nodes.length, nodes.Live i
  untagged : ∀ i, (nodes.node i).tagLen = 0 ∧ (nodes.node i).tagVal = 0
  counted : Counted nodes

/-- Nodes are made, that have no entries. -/
structure Grown (nodes nodes' : Nodes) : Prop where
  length_le : nodes.length ≤ nodes'.length
  child : ∀ i k j, nodes.tree.Child i k j → nodes'.tree.Child i k j
  id : ∀ i < nodes.length, (nodes'.node i).id = (nodes.node i).id
  new : ∀ i, nodes.length ≤ i → i < nodes'.length → (nodes'.node i).id = -1

theorem Grown.refl (nodes : Nodes) : Grown nodes nodes where
  length_le := le_rfl
  child _ _ _ h := h
  id _ _ := rfl
  new _ h h' := absurd h' (not_lt.2 h)

theorem Grown.trans {nodes nodes' nodes'' : Nodes} (h : Grown nodes nodes')
    (h' : Grown nodes' nodes'') : Grown nodes nodes'' where
  length_le := h.length_le.trans h'.length_le
  child i k j hc := h'.child i k j (h.child i k j hc)
  id i hi := (h'.id i (hi.trans_le h.length_le)).trans (h.id i hi)
  new i hi hi' := by
    by_cases hlt : i < nodes'.length
    · rw [h'.id i hlt, h.new i hi hlt]
    · exact h'.new i (not_lt.1 hlt) hi'

variable {nodes nodes' : Nodes}

theorem Plain.tag_iff (h : Plain nodes) {j : ℕ} {t : List Nibble} :
    nodes.tree.Tag j t ↔ t = [] := by
  obtain ⟨hlen, hval⟩ := h.untagged j
  constructor
  · rintro ⟨ht, -⟩
    rwa [hlen, length_eq_zero_iff] at ht
  · rintro rfl
    exact ⟨hlen.symm, hval.symm⟩

/-- What is spelled stays. -/
theorem Grown.spells (h : Grown nodes nodes') (hp : Plain nodes) (hp' : Plain nodes')
    {w : List Nibble} {j : ℕ} (hs : nodes.tree.Spells w j) : nodes'.tree.Spells w j := by
  have hroot : nodes.tree.root = nodes'.tree.root := rfl
  exact hs.map (fun j => j) hroot h.child fun _ _ _ _ _ ht => hp'.tag_iff.2 (hp.tag_iff.1 ht)

/-! ## A new node -/

/-- The nodes with a new one behind the link `key` of the node `i`. -/
def linkNode (nodes : Nodes) (i : ℕ) (key : Nibble) : Nodes :=
  List.modify (List.modify nodes i (fun node => { node with nextCnt := node.nextCnt + 1 }) ++
    [{ idx := nodes.length, prev := i, key, id := -1 }]) i
      fun node => { node with next := Function.update node.next key nodes.length }

theorem linkNode_length (nodes : Nodes) (i : ℕ) (key : Nibble) :
    (linkNode nodes i key).length = nodes.length + 1 := by
  rw [linkNode, length_modify, length_append, length_modify, length_singleton]

theorem node_linkNode {i : ℕ} (hi : i < nodes.length) (key : Nibble) (j : ℕ) :
    Nodes.node (linkNode nodes i key) j =
      if j = nodes.length then { idx := nodes.length, prev := i, key, id := -1 }
      else if j = i then
        { nodes.node i with
          nextCnt := (nodes.node i).nextCnt + 1
          next := Function.update (nodes.node i).next key nodes.length }
      else nodes.node j := by
  rw [linkNode, node_modify, length_append, length_modify, length_singleton,
    node_append_singleton, length_modify, node_modify]
  by_cases hj : j = nodes.length
  · have hij : ¬(i = j ∧ j < nodes.length + 1) := fun h => by omega
    rw [if_neg hij, if_pos hj, if_pos hj]
  · rw [if_neg hj, if_neg hj]
    by_cases hij : j = i
    · subst hij
      rw [if_pos ⟨rfl, hi.trans (Nat.lt_succ_self _)⟩, if_pos ⟨rfl, hi⟩, if_pos rfl]
    · rw [if_neg fun h => hij h.1.symm, if_neg fun h => hij h.1.symm, if_neg hij]

section

variable {i : ℕ} {key : Nibble}

theorem linkNode_next (hi : i < nodes.length) (j : ℕ) (k : Nibble) :
    (Nodes.node (linkNode nodes i key) j).next k =
      if j = i ∧ k = key then nodes.length else (nodes.node j).next k := by
  rw [node_linkNode hi]
  by_cases hj : j = nodes.length
  · have hji : ¬(j = i ∧ k = key) := fun h => hi.ne (h.1.symm.trans hj)
    rw [if_pos hj, if_neg hji, node_of_le hj.ge]
  · rw [if_neg hj]
    by_cases hji : j = i
    · rw [if_pos hji, hji]
      dsimp only
      rw [Function.update_apply]
      simp only [true_and]
    · rw [if_neg hji, if_neg fun h => hji h.1]

variable (key) in
/-- Of the other nodes, only links change. -/
theorem linkNode_old (hi : i < nodes.length) {j : ℕ} (hj : j ≠ nodes.length) :
    (Nodes.node (linkNode nodes i key) j).idx = (nodes.node j).idx ∧
      (Nodes.node (linkNode nodes i key) j).prev = (nodes.node j).prev ∧
      (Nodes.node (linkNode nodes i key) j).key = (nodes.node j).key ∧
      (Nodes.node (linkNode nodes i key) j).id = (nodes.node j).id ∧
      (Nodes.node (linkNode nodes i key) j).tagLen = (nodes.node j).tagLen ∧
      (Nodes.node (linkNode nodes i key) j).tagVal = (nodes.node j).tagVal := by
  rw [node_linkNode hi, if_neg hj]
  split_ifs with hji
  · rw [hji]
    exact ⟨rfl, rfl, rfl, rfl, rfl, rfl⟩
  · exact ⟨rfl, rfl, rfl, rfl, rfl, rfl⟩

theorem linkNode_new (hi : i < nodes.length) :
    Nodes.node (linkNode nodes i key) nodes.length =
      { idx := nodes.length, prev := i, key, id := -1 } := by
  rw [node_linkNode hi, if_pos rfl]

/-- The links are those before, and the new one. -/
theorem linkNode_child (hi : i < nodes.length) (hkey : (nodes.node i).next key = 0) {a : ℕ}
    {k : Nibble} {b : ℕ} :
    Radix.Child (Nodes.tree (linkNode nodes i key)) a k b ↔
      nodes.tree.Child a k b ∨ a = i ∧ k = key ∧ b = nodes.length := by
  change b ≠ 0 ∧ _ = b ↔ (b ≠ 0 ∧ _ = b) ∨ _
  rw [linkNode_next hi]
  split_ifs with h
  · obtain ⟨rfl, rfl⟩ := h
    rw [hkey]
    constructor
    · rintro ⟨-, rfl⟩
      exact .inr ⟨rfl, rfl, rfl⟩
    · rintro (⟨hb, rfl⟩ | ⟨-, -, rfl⟩)
      · exact absurd rfl hb
      · exact ⟨(Nat.zero_lt_of_lt hi).ne', rfl⟩
  · constructor
    · exact .inl
    · rintro (hc | ⟨rfl, rfl, -⟩)
      · exact hc
      · exact absurd ⟨rfl, rfl⟩ h

theorem linkNode_live (hi : i < nodes.length) (j : ℕ) :
    Nodes.Live (linkNode nodes i key) j ↔ nodes.Live j ∨ j = nodes.length := by
  rw [Nodes.Live]
  by_cases hj : j = nodes.length
  · rw [hj, linkNode_new hi]
    exact iff_of_true rfl (.inr rfl)
  · rw [(linkNode_old _ hi hj).1]
    exact ⟨.inl, fun h => h.resolve_right hj⟩

theorem linkNode_plain (h : Plain nodes) (hi : i < nodes.length)
    (hkey : (nodes.node i).next key = 0) : Plain (linkNode nodes i key) where
  idx j := by
    by_cases hj : j = nodes.length
    · exact .inr ((linkNode_live hi j).2 (.inr hj))
    · rw [(linkNode_old _ hi hj).1]
      exact (h.idx j).imp id fun hl => (linkNode_live hi j).2 (.inl hl)
  down a k b hc := by
    rcases (linkNode_child hi hkey).1 hc with hc | ⟨rfl, rfl, rfl⟩
    · obtain ⟨hlive, hprev, hkey'⟩ := h.down a k b hc
      obtain ⟨-, hp, hk, -⟩ := linkNode_old key hi (hlive.lt hc.1).ne
      exact ⟨(linkNode_live hi b).2 (.inl hlive), hp.trans hprev, hk.trans hkey'⟩
    · rw [linkNode_new hi]
      exact ⟨(linkNode_live hi _).2 (.inr rfl), rfl, rfl⟩
  up j hj hlive := by
    rcases (linkNode_live hi j).1 hlive with hlive | rfl
    · obtain ⟨hl, hc⟩ := h.up j hj hlive
      obtain ⟨-, hp, hk, -⟩ := linkNode_old key hi (hlive.lt hj).ne
      rw [hp, hk]
      exact ⟨(linkNode_live hi _).2 (.inl hl), (linkNode_child hi hkey).2 (.inl hc)⟩
    · rw [linkNode_new hi]
      exact ⟨(linkNode_live hi _).2 (.inl (h.live i hi)),
        (linkNode_child hi hkey).2 (.inr ⟨rfl, rfl, rfl⟩)⟩
  ordered j hj hlive := by
    rcases (linkNode_live hi j).1 hlive with hlive | rfl
    · rw [(linkNode_old _ hi (hlive.lt hj).ne).2.1]
      exact h.ordered j hj hlive
    · rw [linkNode_new hi]
      exact hi
  pos := by
    rw [linkNode_length]
    exact Nat.succ_pos _
  live j hj := by
    rw [linkNode_length] at hj
    rw [linkNode_live hi]
    rcases Nat.lt_succ_iff_lt_or_eq.1 hj with hlt | rfl
    · exact .inl (h.live j hlt)
    · exact .inr rfl
  untagged j := by
    by_cases hj : j = nodes.length
    · rw [hj, linkNode_new hi]
      exact ⟨rfl, rfl⟩
    · obtain ⟨-, -, -, -, hlen, hval⟩ := linkNode_old key hi hj
      rw [hlen, hval]
      exact h.untagged j
  counted j := by
    have hnext : ∀ k, (Nodes.node (linkNode nodes i key) j).next k ≠ 0 ↔
        (nodes.node j).next k ≠ 0 ∨ j = i ∧ k = key := by
      intro k
      rw [linkNode_next hi]
      split_ifs with hk
      · exact iff_of_true h.pos.ne' (.inr hk)
      · exact ⟨.inl, fun h' => h'.resolve_right hk⟩
    simp only [hnext]
    by_cases hj : j = i
    · subst hj
      have hinsert : (Finset.univ.filter fun k => (nodes.node j).next k ≠ 0 ∨ j = j ∧ k = key) =
          insert key (Finset.univ.filter fun k => (nodes.node j).next k ≠ 0) := by
        ext k
        simp only [Finset.mem_filter, Finset.mem_univ, true_and, Finset.mem_insert]
        exact or_comm
      rw [hinsert, Finset.card_insert_of_notMem (by simpa using hkey), ← h.counted j,
        node_linkNode hi, if_neg hi.ne, if_pos rfl]
    · have hsame : (Nodes.node (linkNode nodes i key) j).nextCnt = (nodes.node j).nextCnt := by
        rw [node_linkNode hi, if_neg hj]
        split_ifs with hlen
        · rw [node_of_le hlen.ge]
        · rfl
      rw [hsame, h.counted j]
      simp only [hj, false_and, or_false]

theorem linkNode_grown (hi : i < nodes.length)
    (hkey : (nodes.node i).next key = 0) : Grown nodes (linkNode nodes i key) where
  length_le := by
    rw [linkNode_length]
    exact Nat.le_succ _
  child _ _ _ hc := (linkNode_child hi hkey).2 (.inl hc)
  id j hj := (linkNode_old _ hi hj.ne).2.2.2.1
  new j hj hj' := by
    rw [linkNode_length] at hj'
    obtain rfl : j = nodes.length := by omega
    rw [linkNode_new hi]

end

/-! ## The nodes of a name -/

/-- Nothing but the nodes changes, and nodes are only made. -/
structure Paved (p p' : MppTrieImpl) : Prop where
  eq : p' = { p with nodes := p'.nodes }
  plain : Plain p'.nodes
  grown : Grown p.nodes p'.nodes

theorem Paved.trans {p p' p'' : MppTrieImpl} (h : Paved p p') (h' : Paved p' p'') :
    Paved p p'' where
  eq := by
    rw [h'.eq, h.eq]
  plain := h'.plain
  grown := h.grown.trans h'.grown

variable {p p' : MppTrieImpl} {idx j : ℕ}

/-- There is a node behind a link that is paved, and what was spelled before still is. -/
theorem paveKey_spec (h : Plain p.nodes) (hidx : idx < p.nodes.length) {key : Nibble}
    (hpave : paveKey p idx key = some (p', j)) :
    Paved p p' ∧ j < p'.nodes.length ∧ p'.nodes.tree.Child idx key j := by
  rw [paveKey] at hpave
  split_ifs at hpave with hkey
  · rw [trieGetNode] at hpave
    split_ifs at hpave with hmax
    · exact absurd hpave (some_ne_none _).symm
    · obtain ⟨rfl, rfl⟩ := Prod.mk.inj (some.inj hpave)
      have hnew := (linkNode_child hidx hkey).2 (.inr ⟨rfl, rfl, rfl⟩)
      refine ⟨⟨rfl, linkNode_plain h hidx hkey, linkNode_grown hidx hkey⟩, ?_, hnew⟩
      exact (Nat.lt_succ_self _).trans_eq (linkNode_length p.nodes idx key).symm
  · obtain ⟨rfl, rfl⟩ := Prod.mk.inj (some.inj hpave)
    have hchild : p.nodes.tree.Child idx key ((p.nodes.node idx).next key) := ⟨hkey, rfl⟩
    exact ⟨⟨rfl, h, Grown.refl _⟩, (h.down _ _ _ hchild).1.lt hkey, hchild⟩

/-- The node at the end of what is paved is spelled by the nibbles on the way. -/
theorem getPath_spec {l : List UInt8} {w : List Nibble} (h : Plain p.nodes)
    (hidx : idx < p.nodes.length) (hs : p.nodes.tree.Spells w idx)
    (hpave : trieGetPath p idx l = some (p', j)) :
    Paved p p' ∧ j < p'.nodes.length ∧ p'.nodes.tree.Spells (w ++ nibbles l) j := by
  induction l generalizing p idx w with
  | nil =>
    obtain ⟨rfl, rfl⟩ := Prod.mk.inj (some.inj hpave)
    rw [nibbles_nil, append_nil]
    exact ⟨⟨rfl, h, Grown.refl _⟩, hidx, hs⟩
  | cons b l ih =>
    obtain ⟨⟨p₁, idx₁⟩, h₁, hpave⟩ := bind_eq_some_iff.1 hpave
    obtain ⟨⟨p₂, idx₂⟩, h₂, hpave⟩ := bind_eq_some_iff.1 hpave
    obtain ⟨hp₁, hlt₁, hc₁⟩ := paveKey_spec h hidx h₁
    obtain ⟨hp₂, hlt₂, hc₂⟩ := paveKey_spec hp₁.plain hlt₁ h₂
    have hs₁ : p₁.nodes.tree.Spells (w ++ [hiNibble b]) idx₁ :=
      .snoc (hp₁.grown.spells h hp₁.plain hs) hc₁ (hp₁.plain.tag_iff.2 rfl)
    have hs₂ : p₂.nodes.tree.Spells (w ++ [hiNibble b] ++ [loNibble b]) idx₂ :=
      .snoc (hp₂.grown.spells hp₁.plain hp₂.plain hs₁) hc₂ (hp₂.plain.tag_iff.2 rfl)
    obtain ⟨hp, hlt, hs'⟩ := ih hp₂.plain hlt₂ hs₂ hpave
    rw [append_assoc, append_assoc] at hs'
    exact ⟨(hp₁.trans hp₂).trans hp, hlt, hs'⟩

theorem pave_spec {name : CName} (h : Plain p.nodes) (hpave : triePaveNode p name = some (p', j)) :
    Paved p p' ∧ j < p'.nodes.length ∧ p'.nodes.tree.Spells (nibbles name.val) j :=
  getPath_spec h h.pos .root hpave

end Libmpp.Trie
