import Libmpp.Trie.Merge

/-!
# Moving nodes together

Merged nodes leave holes. From the front on, a hole is filled with the next node in use
(`moveLoop`), which keeps the order of the nodes: they are renamed by a monotone map
(`Renamed`), so that links and words stay. What is sealed are the nodes in front, which
are all in use (`shrink_spec`).
-/

namespace Libmpp.Trie

open List

/-- The nodes in use are those of `nodes`, under other indices, in the same order. -/
structure Renamed (nodes nodes' : Nodes) (σ : ℕ → ℕ) : Prop where
  idx : ∀ y, (nodes'.node y).idx = 0 ∨ nodes'.Live y
  live : ∀ y, nodes'.Live y ↔ ∃ x, nodes.Live x ∧ σ x = y
  dead : ∀ y k, ¬nodes'.Live y → (nodes'.node y).next k = 0
  lt : ∀ x y, nodes.Live x → nodes.Live y → x < y → σ x < σ y
  zero : σ 0 = 0
  next : ∀ x k, nodes.Live x → (nodes'.node (σ x)).next k = σ ((nodes.node x).next k)
  prev : ∀ x, x ≠ 0 → nodes.Live x → (nodes'.node (σ x)).prev = σ (nodes.node x).prev
  same : ∀ x, nodes.Live x → (nodes'.node (σ x)).key = (nodes.node x).key ∧
    (nodes'.node (σ x)).id = (nodes.node x).id ∧
    (nodes'.node (σ x)).tagLen = (nodes.node x).tagLen ∧
    (nodes'.node (σ x)).tagVal = (nodes.node x).tagVal

variable {nodes nodes' : Nodes} {σ : ℕ → ℕ}

theorem Renamed.inj (h : Renamed nodes nodes' σ) {x y : ℕ} (hx : nodes.Live x) (hy : nodes.Live y)
    (heq : σ x = σ y) : x = y := by
  rcases lt_trichotomy x y with hlt | rfl | hgt
  · exact absurd heq (h.lt x y hx hy hlt).ne
  · rfl
  · exact absurd heq (h.lt y x hy hx hgt).ne'

theorem Renamed.ne_zero (h : Renamed nodes nodes' σ) (hl : Linked nodes) {x : ℕ}
    (hx : nodes.Live x) (h0 : x ≠ 0) : σ x ≠ 0 := fun heq =>
  h0 (h.inj hx hl.live_zero (heq.trans h.zero.symm))

/-- A link is one of those before. -/
theorem Renamed.child (h : Renamed nodes nodes' σ) (hl : Linked nodes) {x : ℕ}
    (hx : nodes.Live x) {k : Nibble} {b : ℕ} :
    nodes'.tree.Child (σ x) k b ↔ ∃ y, nodes.tree.Child x k y ∧ σ y = b := by
  constructor
  · rintro ⟨hb, hnext⟩
    rw [h.next x k hx] at hnext
    refine ⟨(nodes.node x).next k, ⟨fun h0 => hb ?_, rfl⟩, hnext⟩
    rw [← hnext, h0, h.zero]
  · rintro ⟨y, hc, rfl⟩
    exact ⟨h.ne_zero hl (hl.down x k y hc).1 hc.1, by rw [h.next x k hx, hc.2]⟩

theorem Renamed.linked (h : Renamed nodes nodes' σ) (hl : Linked nodes) : Linked nodes' where
  idx := h.idx
  down a k b hc := by
    have ha : nodes'.Live a := by
      by_contra ha
      exact hc.1 (hc.2.symm.trans (h.dead a k ha))
    obtain ⟨x, hx, rfl⟩ := (h.live a).1 ha
    obtain ⟨y, hxy, rfl⟩ := (h.child hl hx).1 hc
    obtain ⟨hy, hprev, hkey⟩ := hl.down x k y hxy
    rw [h.prev y hxy.1 hy, (h.same y hy).1, hprev]
    exact ⟨(h.live _).2 ⟨y, hy, rfl⟩, rfl, hkey⟩
  up j hj hlive := by
    obtain ⟨x, hx, rfl⟩ := (h.live j).1 hlive
    have h0 : x ≠ 0 := by
      rintro rfl
      exact hj h.zero
    obtain ⟨hlp, hc⟩ := hl.up x h0 hx
    rw [h.prev x h0 hx, (h.same x hx).1]
    exact ⟨(h.live _).2 ⟨_, hlp, rfl⟩, (h.child hl hlp).2 ⟨x, hc, rfl⟩⟩
  ordered j hj hlive := by
    obtain ⟨x, hx, rfl⟩ := (h.live j).1 hlive
    have h0 : x ≠ 0 := by
      rintro rfl
      exact hj h.zero
    rw [h.prev x h0 hx]
    exact h.lt _ _ (hl.up x h0 hx).1 hx (hl.ordered x h0 hx)

theorem Renamed.spells (h : Renamed nodes nodes' σ) (hl : Linked nodes) {w : List Nibble} {j : ℕ}
    (hs : nodes.tree.Spells w j) : nodes'.tree.Spells w (σ j) := by
  refine hs.map σ h.zero (fun x k y hc => ?_) fun x k y t hc ht => ?_
  · exact (h.child hl (hl.live_of_child hc)).2 ⟨y, hc, rfl⟩
  · obtain ⟨-, -, hlen, hval⟩ := h.same y (hl.down x k y hc).1
    exact ⟨ht.1.trans hlen.symm, ht.2.trans hval.symm⟩

theorem Renamed.stored (h : Renamed nodes nodes' σ) (hl : Linked nodes)
    {entries : List (List Nibble × ℕ)} (hst : Stored nodes entries) : Stored nodes' entries where
  found e he := by
    obtain ⟨j, hs, hid⟩ := hst.found e he
    exact ⟨σ j, h.spells hl hs, ((h.same j (hl.live_of_spells hs)).2.1).trans hid⟩
  only y hy hid := by
    obtain ⟨x, hx, rfl⟩ := (h.live y).1 hy
    rw [(h.same x hx).2.1] at hid
    obtain ⟨e, he, hs⟩ := hst.only x hx hid
    exact ⟨e, he, h.spells hl hs⟩

theorem Renamed.rootTag (h : Renamed nodes nodes' σ) (hl : Linked nodes) :
    (nodes'.node 0).tagLen = (nodes.node 0).tagLen := by
  obtain ⟨-, -, hlen, -⟩ := h.same 0 hl.live_zero
  rwa [h.zero] at hlen

theorem Renamed.nullRoot (h : Renamed nodes nodes' σ) (hl : Linked nodes) (hnull : NullRoot nodes) :
    NullRoot nodes' := by
  have hnext := h.next 0 0 hl.live_zero
  rw [hnull.1, h.zero] at hnext
  exact ⟨hnext, (h.rootTag hl).trans hnull.2⟩

/-! ## One node -/

/-- The index of the node `j` is now `i`. -/
def moveTo (i j x : ℕ) : ℕ := if x = j then i else x

/-- A hole, and the next node in use. -/
structure Hole (nodes : Nodes) (i j : ℕ) : Prop where
  lt : i < j
  live : nodes.Live j
  dead : ∀ x, i ≤ x → x < j → ¬nodes.Live x
  ne_zero : i ≠ 0

variable {i j : ℕ}

/-- The link to a node that is moved is found. -/
theorem Hole.find (hl : Linked nodes) (h : Hole nodes i j) :
    ((List.finRange 16).find? fun k =>
      (nodes.node (nodes.node j).prev).next k = (nodes.node j).idx) = some (nodes.node j).key := by
  have hj0 : j ≠ 0 := (Nat.zero_lt_of_lt h.lt).ne'
  have hidx : (nodes.node j).idx = j := h.live
  obtain ⟨-, hc⟩ := hl.up j hj0 h.live
  obtain ⟨k, hk⟩ : ∃ k, ((List.finRange 16).find? fun k =>
      (nodes.node (nodes.node j).prev).next k = (nodes.node j).idx) = some k := by
    rw [← Option.isSome_iff_exists, find?_isSome]
    exact ⟨_, mem_finRange _, decide_eq_true (hc.2.trans hidx.symm)⟩
  have hdec := find?_some hk
  have hck : nodes.tree.Child (nodes.node j).prev k j :=
    ⟨hj0, (of_decide_eq_true hdec).trans hidx⟩
  rw [hk, (hl.wired.parent hck hc).2]

theorem length_moveNode (i j : ℕ) (nodes : Nodes) : (moveNode i j nodes).length = nodes.length := by
  rw [moveNode]
  split <;> simp only [length_relink, length_set, length_modify]

/-- The node before one that is moved has its new index, as have those behind it. -/
theorem node_moveNode (hl : Linked nodes) (h : Hole nodes i j) (x : ℕ) :
    Nodes.node (moveNode i j nodes) x =
      if x = j then {}
      else if x = i then { nodes.node j with idx := i }
      else if x = (nodes.node j).prev then
        { nodes.node x with next := Function.update (nodes.node x).next (nodes.node j).key i }
      else if x ≠ 0 ∧ nodes.Live x ∧ (nodes.node x).prev = j then
        { nodes.node x with prev := i }
      else nodes.node x := by
  have hj0 : j ≠ 0 := (Nat.zero_lt_of_lt h.lt).ne'
  have hlen := h.live.lt hj0
  have hpj := hl.ordered j hj0 h.live
  have hij := h.lt
  have hpi : (nodes.node j).prev ≠ i := by
    intro heq
    exact h.dead i le_rfl h.lt (heq ▸ (hl.up j hj0 h.live).1)
  have hbehind : ∀ y, (y ≠ 0 ∧ (∃ k, (nodes.node j).next k = y) ∧ y < nodes.length) ↔
      y ≠ 0 ∧ nodes.Live y ∧ (nodes.node y).prev = j := by
    intro y
    constructor
    · rintro ⟨hy, ⟨k, hk⟩, -⟩
      obtain ⟨hlive, hprev, -⟩ := hl.down j k y ⟨hy, hk⟩
      exact ⟨hy, hlive, hprev⟩
    · rintro ⟨hy, hlive, rfl⟩
      exact ⟨hy, ⟨_, (hl.up y hy hlive).2.2⟩, hlive.lt hy⟩
  have hsame : Nodes.node (nodes.modify (nodes.node j).prev fun prev =>
      { prev with next := Function.update prev.next (nodes.node j).key i }) j = nodes.node j := by
    rw [node_modify, if_neg fun hc => hpj.ne hc.1]
  rw [moveNode, h.find hl]
  dsimp only
  rw [hsame, node_relink, length_set, length_set, length_modify, node_set,
    length_set, length_modify, node_set, length_modify, node_modify]
  simp only [hbehind]
  by_cases hxj : x = j
  · -- the node is not behind itself
    subst hxj
    rw [if_neg fun hc => hpj.ne hc.2.2, if_pos ⟨rfl, hlen⟩, if_pos rfl]
  · have hj : ¬(j = x ∧ x < nodes.length) := fun hc => hxj hc.1.symm
    rw [if_neg hj, if_neg hxj]
    by_cases hxi : x = i
    · subst hxi
      have hnot : ¬(x ≠ 0 ∧ nodes.Live x ∧ (nodes.node x).prev = j) :=
        fun hc => h.dead x le_rfl h.lt hc.2.1
      rw [if_neg hnot, if_pos ⟨rfl, h.lt.trans hlen⟩, if_pos rfl]
    · have hi : ¬(i = x ∧ x < nodes.length) := fun hc => hxi hc.1.symm
      rw [if_neg hi, if_neg hxi]
      by_cases hxp : x = (nodes.node j).prev
      · have hnot : ¬(x ≠ 0 ∧ nodes.Live x ∧ (nodes.node x).prev = j) := by
          rintro ⟨h0, hlive, hprev⟩
          have := hl.ordered x h0 hlive
          omega
        rw [if_neg hnot, if_pos ⟨hxp.symm, by omega⟩, if_pos hxp]
      · have hp : ¬((nodes.node j).prev = x ∧ x < nodes.length) := fun hc => hxp hc.1.symm
        rw [if_neg hp, if_neg hxp]

theorem moveTo_ne {i j x : ℕ} (h : x ≠ j) : moveTo i j x = x := if_neg h

theorem moveTo_self (i j : ℕ) : moveTo i j j = i := if_pos rfl

theorem moveNode_live (hl : Linked nodes) (h : Hole nodes i j) (x : ℕ) :
    Nodes.Live (moveNode i j nodes) x ↔ nodes.Live x ∧ x ≠ j ∨ x = i := by
  have hij := h.lt
  rw [Nodes.Live, node_moveNode hl h]
  by_cases hxj : x = j
  · rw [if_pos hxj]
    exact iff_of_false (fun hc : 0 = x => by omega) fun hc => by omega
  · rw [if_neg hxj]
    by_cases hxi : x = i
    · rw [if_pos hxi]
      exact iff_of_true hxi.symm (.inr hxi)
    · rw [if_neg hxi, and_iff_left hxj, or_iff_left hxi]
      split_ifs <;> rfl

/-- A node in use is at another index only if it is the one that was moved. -/
theorem moveNode_renamed (hl : Linked nodes) (h : Hole nodes i j) :
    Renamed nodes (moveNode i j nodes) (moveTo i j) := by
  have hij := h.lt
  have hj0 : j ≠ 0 := (Nat.zero_lt_of_lt hij).ne'
  have hpj := hl.ordered j hj0 h.live
  have hne : ∀ x, nodes.Live x → x ≠ i := fun x hx hxi => h.dead i le_rfl hij (hxi ▸ hx)
  have hup := hl.up j hj0 h.live
  -- the links to the moved node
  have hlink : ∀ x k, (nodes.node x).next k = j ↔
      x = (nodes.node j).prev ∧ k = (nodes.node j).key := by
    intro x k
    constructor
    · intro hk
      obtain ⟨-, hprev, hkey⟩ := hl.down x k j ⟨hj0, hk⟩
      exact ⟨hprev.symm, hkey.symm⟩
    · rintro ⟨rfl, rfl⟩
      exact hup.2.2
  refine ⟨fun y => ?_, fun y => ?_, fun y k hdead => ?_, fun x y hx hy hlt => ?_,
    moveTo_ne hj0.symm, fun x k hx => ?_, fun x h0 hx => ?_, fun x hx => ?_⟩
  · rw [moveNode_live hl h, node_moveNode hl h]
    split_ifs with hyj hyi
    · exact .inl rfl
    · exact .inr (.inr hyi)
    · exact (hl.idx y).imp (fun h => h) fun hy => .inl ⟨hy, hyj⟩
    · exact (hl.idx y).imp (fun h => h) fun hy => .inl ⟨hy, hyj⟩
    · exact (hl.idx y).imp (fun h => h) fun hy => .inl ⟨hy, hyj⟩
  · rw [moveNode_live hl h]
    constructor
    · rintro (⟨hy, hyj⟩ | rfl)
      · exact ⟨y, hy, moveTo_ne hyj⟩
      · exact ⟨j, h.live, moveTo_self y j⟩
    · rintro ⟨x, hx, rfl⟩
      by_cases hxj : x = j
      · rw [hxj, moveTo_self]
        exact .inr rfl
      · rw [moveTo_ne hxj]
        exact .inl ⟨hx, hxj⟩
  · rw [moveNode_live hl h, not_or, not_and_not_right] at hdead
    obtain ⟨hdead, hyi⟩ := hdead
    rw [node_moveNode hl h]
    split_ifs with hyj hyp hyb
    · rfl
    · exact absurd (hdead (hyp ▸ hup.1)) hyj
    · exact absurd (hdead hyb.2.1) hyj
    · by_contra hk
      exact hyj (hdead (hl.live_of_child ⟨hk, rfl⟩))
  · have hdead := h.dead x
    rw [moveTo, moveTo]
    split_ifs with hxj hyj hyj
    · omega
    · omega
    · by_contra hle
      exact hdead (not_lt.1 hle) (hyj ▸ hlt) hx
    · exact hlt
  · rw [node_moveNode hl h]
    by_cases hxj : x = j
    · have hnext : (nodes.node j).next k ≠ j := fun hk => hpj.ne ((hlink j k).1 hk).1.symm
      rw [hxj, moveTo_self, if_neg hij.ne, if_pos rfl, moveTo_ne hnext]
    · rw [moveTo_ne hxj, if_neg hxj, if_neg (hne x hx)]
      by_cases hxp : x = (nodes.node j).prev
      · rw [if_pos hxp]
        dsimp only
        by_cases hk : k = (nodes.node j).key
        · rw [hk, Function.update_self, (hlink x _).2 ⟨hxp, rfl⟩, moveTo_self]
        · rw [Function.update_of_ne hk, moveTo_ne fun hc => hk ((hlink x k).1 hc).2]
      · rw [if_neg hxp, moveTo_ne fun hc => hxp ((hlink x k).1 hc).1]
        split_ifs <;> rfl
  · rw [node_moveNode hl h]
    have hprev := hl.ordered x h0 hx
    by_cases hxj : x = j
    · rw [hxj, moveTo_self, if_neg hij.ne, if_pos rfl, moveTo_ne hpj.ne]
    · rw [moveTo_ne hxj, if_neg hxj, if_neg (hne x hx)]
      by_cases hxp : x = (nodes.node j).prev
      · rw [if_pos hxp, moveTo_ne (by omega)]
      · rw [if_neg hxp]
        by_cases hxb : (nodes.node x).prev = j
        · rw [if_pos ⟨h0, hx, hxb⟩, hxb, moveTo_self]
        · rw [if_neg fun hc => hxb hc.2.2, moveTo_ne hxb]
  · rw [node_moveNode hl h]
    by_cases hxj : x = j
    · rw [hxj, moveTo_self, if_neg hij.ne, if_pos rfl]
      exact ⟨rfl, rfl, rfl, rfl⟩
    · rw [moveTo_ne hxj, if_neg hxj, if_neg (hne x hx)]
      split_ifs <;> exact ⟨rfl, rfl, rfl, rfl⟩

/-! ## All nodes -/

/-- The nodes below `i` are in use, and there are `valid` of them in all. -/
structure Compacting (entries : List (List Nibble × ℕ)) (null : Prop) (valid : ℕ) (nodes : Nodes)
    (i : ℕ) : Prop where
  linked : Linked nodes
  stored : Stored nodes entries
  tagLen_le : ∀ j, (nodes.node j).tagLen ≤ tagLenMax
  valid : nodes.liveSet.card = valid
  pos : 0 < nodes.length
  live : ∀ j < i, nodes.Live j
  rootTag : (nodes.node 0).tagLen = 0
  nullRoot : null → NullRoot nodes

variable {entries : List (List Nibble × ℕ)} {null : Prop} {valid : ℕ}

/-- Nodes that are renamed are as many as before. -/
theorem Renamed.card_liveSet (h : Renamed nodes nodes' σ) (hpos : 0 < nodes.length)
    (hpos' : 0 < nodes'.length) : nodes'.liveSet.card = nodes.liveSet.card := by
  have hmem : ∀ {l : Nodes}, 0 < l.length → ∀ x, x ∈ l.liveSet ↔ l.Live x := by
    intro l hl x
    rw [Nodes.liveSet, Finset.mem_filter, Finset.mem_range, and_iff_right_iff_imp]
    exact fun hx => hx.lt_of_pos hl
  refine (Finset.card_bij (fun x _ => σ x) ?_ ?_ ?_).symm
  · intro x hx
    exact (hmem hpos' _).2 ((h.live _).2 ⟨x, (hmem hpos x).1 hx, rfl⟩)
  · intro x hx y hy heq
    exact h.inj ((hmem hpos x).1 hx) ((hmem hpos y).1 hy) heq
  · intro y hy
    obtain ⟨x, hx, rfl⟩ := (h.live y).1 ((hmem hpos' y).1 hy)
    exact ⟨x, (hmem hpos x).2 hx, rfl⟩

/-- Below as many indices as there are nodes, a hole has a node behind it. -/
theorem exists_hole {i : ℕ} (hcard : i < nodes.liveSet.card) (hl : Linked nodes) (h0 : i ≠ 0)
    (hi : (nodes.node i).idx = 0) :
    ∃ j, ((List.range' i (nodes.length - i)).find? fun j => (nodes.node j).idx ≠ 0) = some j ∧
      Hole nodes i j := by
  obtain ⟨x, hx, hxi⟩ : ∃ x ∈ nodes.liveSet, i ≤ x := by
    by_contra hall
    push Not at hall
    have hsub : nodes.liveSet ⊆ Finset.range i := fun x hx => Finset.mem_range.2 (hall x hx)
    have := Finset.card_le_card hsub
    rw [Finset.card_range] at this
    omega
  rw [Nodes.liveSet, Finset.mem_filter, Finset.mem_range] at hx
  have hdead : ∀ j, j ≠ 0 → ((nodes.node j).idx ≠ 0 ↔ nodes.Live j) := by
    intro j hj
    refine ⟨(hl.idx j).resolve_left, fun hlive h => hj ?_⟩
    rw [← h]
    exact hlive.symm
  obtain ⟨j, hj⟩ : ∃ j, ((List.range' i (nodes.length - i)).find? fun j =>
      (nodes.node j).idx ≠ 0) = some j := by
    rw [← Option.isSome_iff_exists, find?_isSome]
    refine ⟨x, mem_range'_1.2 ⟨hxi, by omega⟩, decide_eq_true ?_⟩
    exact (hdead x (by omega)).2 hx.2
  refine ⟨j, hj, ?_⟩
  obtain ⟨hidx, hmem, hfirst⟩ := find?_range'_eq_some.1 hj
  have hij := (mem_range'_1.1 hmem).1
  have hidx := of_decide_eq_true hidx
  have hne : i ≠ j := by
    rintro rfl
    exact hidx hi
  refine ⟨by omega, (hdead j (by omega)).1 hidx, fun x hx hxj hlive => ?_, h0⟩
  have hx0 := hfirst x hx hxj
  rw [decide_eq_true ((hdead x (by omega)).2 hlive)] at hx0
  exact absurd hx0 (by decide)

theorem Compacting.fillHole {i : ℕ} (h : Compacting entries null valid nodes i) (h0 : i ≠ 0)
    (hi : i < valid) : Compacting entries null valid (fillHole nodes i) (i + 1) := by
  have hl := h.linked
  rw [Trie.fillHole]
  split_ifs with hidx
  · refine { h with live := fun j hj => ?_ }
    rcases Nat.lt_succ_iff_lt_or_eq.1 hj with hlt | rfl
    · exact h.live j hlt
    · exact (hl.idx j).resolve_left hidx
  · obtain ⟨j, hfind, hhole⟩ := exists_hole (h.valid ▸ hi) hl h0 (not_not.1 hidx)
    have hr := moveNode_renamed hl hhole
    have hlen := length_moveNode i j nodes
    rw [hfind]
    refine ⟨hr.linked hl, hr.stored hl h.stored, fun x => ?_, ?_, hlen ▸ h.pos, fun x hx => ?_,
      (hr.rootTag hl).trans h.rootTag, fun hnull => hr.nullRoot hl (h.nullRoot hnull)⟩
    · rw [node_moveNode hl hhole]
      split_ifs
      · exact Nat.zero_le _
      · exact h.tagLen_le j
      · exact h.tagLen_le x
      · exact h.tagLen_le x
      · exact h.tagLen_le x
    · rw [hr.card_liveSet h.pos (hlen ▸ h.pos), h.valid]
    · have hij := hhole.lt
      rw [moveNode_live hl hhole]
      rcases Nat.lt_succ_iff_lt_or_eq.1 hx with hlt | rfl
      · exact .inl ⟨h.live x hlt, by omega⟩
      · exact .inr rfl

theorem Compacting.moveLoop (h : Compacting entries null valid nodes 1) (hpos : 0 < valid) :
    Compacting entries null valid (moveLoop valid nodes) valid := by
  have hall : ∀ n ≤ valid - 1,
      Compacting entries null valid ((List.range' 1 n).foldl Trie.fillHole nodes) (1 + n) := by
    intro n hn
    induction n with
    | zero => exact h
    | succ n ih =>
      have hlast := (ih (by omega)).fillHole (by omega) (by omega)
      rw [range'_concat, foldl_append, one_mul]
      exact hlast
  have hlast := hall (valid - 1) le_rfl
  rwa [Nat.add_sub_cancel' hpos] at hlast

theorem node_take (nodes : Nodes) (n x : ℕ) :
    Nodes.node (nodes.take n) x = if x < n then nodes.node x else {} := by
  rw [Nodes.node, Nodes.node, getD_eq_getElem?_getD, getElem?_take,
    getD_eq_getElem?_getD]
  split_ifs <;> rfl

/-- What is in front is all that is in use. -/
theorem Compacting.take_renamed (h : Compacting entries null valid nodes valid) (hpos : 0 < valid) :
    Renamed nodes (nodes.take valid) id := by
  have hlt : ∀ x, nodes.Live x → x < valid := by
    have hsub : Finset.range valid ⊆ nodes.liveSet := by
      intro x hx
      have hx := h.live x (Finset.mem_range.1 hx)
      rw [Nodes.liveSet, Finset.mem_filter, Finset.mem_range]
      exact ⟨hx.lt_of_pos h.pos, hx⟩
    have heq := Finset.eq_of_subset_of_card_le hsub (by rw [h.valid, Finset.card_range])
    intro x hx
    by_cases h0 : x = 0
    · exact h0 ▸ hpos
    · rw [← Finset.mem_range, heq, Nodes.liveSet, Finset.mem_filter, Finset.mem_range]
      exact ⟨hx.lt h0, hx⟩
  have hnode : ∀ x, nodes.Live x → Nodes.node (nodes.take valid) x = nodes.node x := by
    intro x hx
    rw [node_take, if_pos (hlt x hx)]
  have hlive : ∀ y, Nodes.Live (nodes.take valid) y ↔ nodes.Live y := by
    intro y
    by_cases hy : y < valid
    · rw [Nodes.Live, node_take, if_pos hy]
      rfl
    · refine iff_of_false (fun hc => ?_) fun hc => hy (hlt y hc)
      rw [Nodes.Live, node_take, if_neg hy] at hc
      have hc : 0 = y := hc
      omega
  refine ⟨fun y => ?_, fun y => ?_, fun y k hdead => ?_, fun _ _ _ _ hxy => hxy, rfl,
    fun x k hx => ?_, fun x _ hx => ?_, fun x hx => ?_⟩
  · rw [hlive, node_take]
    split_ifs
    · exact h.linked.idx y
    · exact .inl rfl
  · rw [hlive]
    constructor
    · exact fun hy => ⟨y, hy, rfl⟩
    · rintro ⟨x, hx, rfl⟩
      exact hx
  · rw [hlive] at hdead
    rw [node_take]
    split_ifs
    · by_contra hk
      exact hdead (h.linked.live_of_child ⟨hk, rfl⟩)
    · rfl
  · rw [id, hnode x hx, id]
  · rw [id, hnode x hx, id]
  · rw [id, hnode x hx]
    exact ⟨rfl, rfl, rfl, rfl⟩

/-- The nodes that are sealed. -/
structure Shrunk (nodes : Nodes) (entries : List (List Nibble × ℕ)) : Prop where
  linked : Linked nodes
  pos : 0 < nodes.length
  rootTag : (nodes.node 0).tagLen = 0
  stored : Stored nodes entries
  tagLen_le : ∀ j, (nodes.node j).tagLen ≤ tagLenMax

/-- Merging and moving keeps the entries. -/
theorem shrink_spec (hp : Plain nodes) (hroot : (nodes.node 0).Kept)
    (hst : Stored nodes entries) :
    Shrunk (shrink nodes) entries ∧ (NullRoot nodes → NullRoot (shrink nodes)) := by
  have h := shrinkLoop_spec hp hroot hst
  rw [shrink]
  generalize shrinkLoop (nodes.length - 1) (nodes, nodes.length) = s at h
  obtain ⟨nodes', valid⟩ := s
  have hlen : 0 < nodes'.length := h.pos
  have hlive : ∀ j < 1, nodes'.Live j := fun j hj => h.live j (Nat.le_of_lt_succ hj)
  have hpos : 0 < valid := by
    have hmem : 0 ∈ nodes'.liveSet := by
      rw [Nodes.liveSet, Finset.mem_filter, Finset.mem_range]
      exact ⟨hlen, hlive 0 Nat.one_pos⟩
    have hcard : valid = nodes'.liveSet.card := h.valid
    rw [hcard]
    exact Finset.card_pos.2 ⟨0, hmem⟩
  have hc : Compacting entries (NullRoot nodes) valid nodes' 1 :=
    ⟨h.linked, h.stored, h.tagLen_le, h.valid.symm, hlen, hlive, h.rootTag, h.nullRoot⟩
  have hlast := hc.moveLoop hpos
  have hr := hlast.take_renamed hpos
  refine ⟨⟨hr.linked hlast.linked, ?_, (hr.rootTag hlast.linked).trans hlast.rootTag,
    hr.stored hlast.linked hlast.stored, fun j => ?_⟩,
    fun hnull => hr.nullRoot hlast.linked (hlast.nullRoot hnull)⟩
  · change 0 < (List.take valid (moveLoop valid nodes')).length
    rw [length_take]
    exact lt_min hpos hlast.pos
  · change (Nodes.node (List.take valid (moveLoop valid nodes')) j).tagLen ≤ tagLenMax
    rw [node_take]
    split_ifs
    · exact hlast.tagLen_le j
    · exact Nat.zero_le _

end Libmpp.Trie
