import Libmpp.Trie.Pave

/-!
# Merging nodes

From the last node down, a node that is alone behind its previous one is merged into it
(`shrinkLoop`). A node is merged before those in front of it, so that the previous one has
no tag yet. All entries stay at nodes that are spelled as before (`Stored`), and `s.2` is the
number of nodes left (`shrinkLoop_spec`). That the root has two links, or an entry, keeps it from
being merged into (`MppTrieNode.Kept`).
-/

namespace Libmpp.Trie

open List

/-- The entries are stored: a word with the offset of its entry, and nothing else. -/
structure Stored (nodes : Nodes) (entries : List (List Nibble × ℕ)) : Prop where
  found : ∀ e ∈ entries, ∃ j, nodes.tree.Spells e.1 j ∧ (nodes.node j).id = e.2
  only : ∀ j, nodes.Live j → 0 ≤ (nodes.node j).id → ∃ e ∈ entries, nodes.tree.Spells e.1 j

/-- A node that no other one is merged into. -/
def MppTrieNode.Kept (node : MppTrieNode) : Prop := 1 < node.nextCnt ∨ 0 ≤ node.id

/-- No node is behind the first link of the root. -/
def NullRoot (nodes : Nodes) : Prop := (nodes.node 0).next 0 = 0 ∧ (nodes.node 0).tagLen = 0

/-- The nodes in use. -/
def Nodes.liveSet (nodes : Nodes) : Finset ℕ :=
  (Finset.range nodes.length).filter fun i => nodes.Live i

/-! ## Back links -/

theorem length_relink (next : Nibble → ℕ) (i : ℕ) (nodes : Nodes) :
    (relink next i nodes).length = nodes.length := by
  rw [relink]
  generalize List.finRange 16 = ks
  induction ks generalizing nodes with
  | nil => rfl
  | cons k ks ih =>
    rw [foldl_cons, ih]
    split_ifs
    · rfl
    · exact length_modify _ _ _

/-- The nodes behind the links of a list are linked back. -/
theorem node_foldl_relink (next : Nibble → ℕ) (i : ℕ) (ks : List Nibble) (nodes : Nodes) (j : ℕ) :
    Nodes.node (ks.foldl (fun nodes k => if next k = 0 then nodes
      else nodes.modify (next k) fun child => { child with prev := i }) nodes) j =
      if j ≠ 0 ∧ j ∈ ks.map next ∧ j < nodes.length then { nodes.node j with prev := i }
      else nodes.node j := by
  induction ks generalizing nodes with
  | nil =>
    rw [if_neg fun h => not_mem_nil h.2.1]
    rfl
  | cons k ks ih =>
    rw [foldl_cons, ih]
    simp only [map_cons, mem_cons]
    by_cases hk : next k = 0
    · rw [if_pos hk, hk]
      have hor : j ≠ 0 ∧ (j = 0 ∨ j ∈ ks.map next) ∧ j < nodes.length ↔
          j ≠ 0 ∧ j ∈ ks.map next ∧ j < nodes.length := by tauto
      simp only [hor]
    · rw [if_neg hk, length_modify, node_modify]
      by_cases hj : next k = j ∧ j < nodes.length
      · have h0 : j ≠ 0 := hj.1 ▸ hk
        have hor : j ≠ 0 ∧ (j = next k ∨ j ∈ ks.map next) ∧ j < nodes.length :=
          ⟨h0, .inl hj.1.symm, hj.2⟩
        rw [if_pos hj, if_pos hor]
        split_ifs <;> rfl
      · have hor : j ≠ 0 ∧ (j = next k ∨ j ∈ ks.map next) ∧ j < nodes.length ↔
            j ≠ 0 ∧ j ∈ ks.map next ∧ j < nodes.length := by
          rw [eq_comm (a := j)]
          tauto
        rw [if_neg hj]
        simp only [hor]

theorem node_relink (next : Nibble → ℕ) (i : ℕ) (nodes : Nodes) (j : ℕ) :
    Nodes.node (relink next i nodes) j =
      if j ≠ 0 ∧ (∃ k, next k = j) ∧ j < nodes.length then { nodes.node j with prev := i }
      else nodes.node j := by
  have hall : j ∈ (List.finRange 16).map next ↔ ∃ k, next k = j := by
    simp only [mem_map, mem_finRange, true_and]
  rw [relink, node_foldl_relink]
  simp only [hall]

/-! ## One node -/

/-- The nodes after the node `i` is merged. -/
def merged (nodes : Nodes) (i : ℕ) : Nodes :=
  let node := nodes.node i
  (relink node.next node.prev (nodes.modify node.prev fun prev =>
    { prev with
      id := node.id
      tagLen := node.tagLen + 1
      tagVal := node.key.val * 16 ^ node.tagLen + node.tagVal
      nextCnt := node.nextCnt
      next := node.next })).set i { id := -1 }

theorem shrinkNode_eq (i : ℕ) (s : Nodes × ℕ) :
    shrinkNode i s = if 1 < (s.1.node (s.1.node i).prev).nextCnt ∨
        tagLenMax ≤ (s.1.node i).tagLen ∨ 0 ≤ (s.1.node (s.1.node i).prev).id then s
      else (merged s.1 i, s.2 - 1) := rfl

theorem length_merged (nodes : Nodes) (i : ℕ) : (merged nodes i).length = nodes.length := by
  rw [merged, length_set, length_relink, length_modify]

/-- A node that can be merged: it is in use, and alone behind another one. -/
structure Alone (nodes : Nodes) (i : ℕ) : Prop where
  ne_zero : i ≠ 0
  live : nodes.Live i
  single : ∀ k j, nodes.tree.Child (nodes.node i).prev k j → j = i

variable {nodes : Nodes} {i : ℕ}

/-- The node before one that is merged has what that had, and its letter in front of the
    tag. The nodes behind are linked back to it. -/
theorem node_merged (hl : Linked nodes) (h : Alone nodes i) (j : ℕ) :
    Nodes.node (merged nodes i) j =
      if j = i then { id := -1 }
      else if j = (nodes.node i).prev then
        { nodes.node j with
          id := (nodes.node i).id
          tagLen := (nodes.node i).tagLen + 1
          tagVal := (nodes.node i).key.val * 16 ^ (nodes.node i).tagLen + (nodes.node i).tagVal
          nextCnt := (nodes.node i).nextCnt
          next := (nodes.node i).next }
      else if j ≠ 0 ∧ nodes.Live j ∧ (nodes.node j).prev = i then
        { nodes.node j with prev := (nodes.node i).prev }
      else nodes.node j := by
  have hlt : (nodes.node i).prev < i := hl.ordered i h.ne_zero h.live
  have hi := h.live.lt h.ne_zero
  rw [merged, node_set, length_relink, length_modify, node_relink, length_modify,
    node_modify]
  by_cases hij : j = i
  · subst hij
    rw [if_pos ⟨rfl, hi⟩, if_pos rfl]
  · rw [if_neg fun hc => hij hc.1.symm, if_neg hij]
    by_cases hp : j = (nodes.node i).prev
    · -- the links from `i` lead on
      have hnot : ¬(j ≠ 0 ∧ (∃ k, (nodes.node i).next k = j) ∧ j < nodes.length) := by
        rintro ⟨hj, ⟨k, hk⟩, -⟩
        have := hl.lt_of_child ⟨hj, hk⟩
        omega
      rw [if_neg hnot, if_pos ⟨hp.symm, by omega⟩, if_pos hp]
    · have hiff : (j ≠ 0 ∧ (∃ k, (nodes.node i).next k = j) ∧ j < nodes.length) ↔
          j ≠ 0 ∧ nodes.Live j ∧ (nodes.node j).prev = i := by
        constructor
        · rintro ⟨hj, ⟨k, hk⟩, -⟩
          obtain ⟨hlive, hprev, -⟩ := hl.down i k j ⟨hj, hk⟩
          exact ⟨hj, hlive, hprev⟩
        · rintro ⟨hj, hlive, rfl⟩
          exact ⟨hj, ⟨_, (hl.up j hj hlive).2.2⟩, hlive.lt hj⟩
      have hne : ¬((nodes.node i).prev = j ∧ j < nodes.length) := fun hc => hp hc.1.symm
      rw [if_neg hne, if_neg hp]
      simp only [hiff]

/-- The links of the merged node are those of the one before it. -/
theorem merged_child (hl : Linked nodes) (h : Alone nodes i) {a : ℕ} {k : Nibble} {b : ℕ} :
    Radix.Child (Nodes.tree (merged nodes i)) a k b ↔
      a ≠ i ∧ nodes.tree.Child (if a = (nodes.node i).prev then i else a) k b := by
  change b ≠ 0 ∧ _ = b ↔ _ ∧ b ≠ 0 ∧ _ = b
  rw [node_merged hl h]
  by_cases ha : a = i
  · rw [if_pos ha]
    refine iff_of_false (fun hc => hc.1 hc.2.symm) fun hc => hc.1 ha
  · rw [if_neg ha, and_iff_right ha]
    by_cases hp : a = (nodes.node i).prev
    · rw [if_pos hp, if_pos hp]
    · rw [if_neg hp, if_neg hp]
      split_ifs <;> rfl

theorem merged_live (hl : Linked nodes) (h : Alone nodes i) (j : ℕ) :
    Nodes.Live (merged nodes i) j ↔ nodes.Live j ∧ j ≠ i := by
  rw [Nodes.Live, node_merged hl h]
  by_cases hj : j = i
  · rw [if_pos hj, hj]
    exact iff_of_false (fun hc => h.ne_zero hc.symm) fun hc => hc.2 rfl
  · rw [if_neg hj, and_iff_left hj]
    split_ifs <;> rfl

/-- Of the other nodes, what is before the merged one keeps its place. -/
theorem merged_key (hl : Linked nodes) (h : Alone nodes i) {j : ℕ} (hj : j ≠ i) :
    (Nodes.node (merged nodes i) j).key = (nodes.node j).key := by
  rw [node_merged hl h, if_neg hj]
  split_ifs <;> rfl

theorem merged_prev (hl : Linked nodes) (h : Alone nodes i) {j : ℕ} (h0 : j ≠ 0)
    (hlive : nodes.Live j) (hj : j ≠ i) :
    (Nodes.node (merged nodes i) j).prev =
      if (nodes.node j).prev = i then (nodes.node i).prev else (nodes.node j).prev := by
  rw [node_merged hl h, if_neg hj]
  by_cases hp : j = (nodes.node i).prev
  · -- the node before the merged one is not behind it
    have hlt := hl.ordered i h.ne_zero h.live
    have hlt' := hl.ordered j h0 hlive
    rw [if_pos hp, if_neg (by omega)]
  · rw [if_neg hp]
    by_cases hi : (nodes.node j).prev = i
    · rw [if_pos ⟨h0, hlive, hi⟩, if_pos hi]
    · rw [if_neg fun hc => hi hc.2.2, if_neg hi]

theorem merged_linked (hl : Linked nodes) (h : Alone nodes i) : Linked (merged nodes i) where
  idx j := by
    rw [merged_live hl h]
    by_cases hj : j = i
    · rw [node_merged hl h, if_pos hj]
      exact .inl rfl
    · refine (hl.idx j).imp (fun hidx => ?_) fun hlive => ⟨hlive, hj⟩
      rw [node_merged hl h, if_neg hj]
      split_ifs
      · exact hidx
      · exact hidx
      · exact hidx
  down a k b hc := by
    obtain ⟨hai, hc⟩ := (merged_child hl h).1 hc
    obtain ⟨hlive, hprev, hkey⟩ := hl.down _ _ _ hc
    have hbi : b ≠ i := by
      rintro rfl
      split_ifs at hprev with hp
      · have := hl.ordered b hc.1 hlive
        omega
      · exact hp hprev.symm
    rw [merged_live hl h, merged_prev hl h hc.1 hlive hbi, merged_key hl h hbi, hprev, hkey]
    refine ⟨⟨hlive, hbi⟩, ?_, rfl⟩
    by_cases hp : a = (nodes.node i).prev
    · rw [if_pos hp, if_pos rfl, hp]
    · rw [if_neg hp, if_neg hai]
  up j hj hlive := by
    obtain ⟨hlive, hji⟩ := (merged_live hl h j).1 hlive
    obtain ⟨hl', hc⟩ := hl.up j hj hlive
    have hlt := hl.ordered i h.ne_zero h.live
    rw [merged_prev hl h hj hlive hji, merged_key hl h hji, merged_live hl h, merged_child hl h]
    split_ifs with hi hp hp
    · rw [hi] at hc
      exact ⟨⟨(hl.up i h.ne_zero h.live).1, hlt.ne⟩, hlt.ne, hc⟩
    · exact absurd rfl hp
    · rw [hp] at hc
      exact absurd (h.single _ _ hc) hji
    · exact ⟨⟨hl', hi⟩, hi, hc⟩
  ordered j hj hlive := by
    obtain ⟨hlive, hji⟩ := (merged_live hl h j).1 hlive
    have hlt := hl.ordered i h.ne_zero h.live
    have hlt' := hl.ordered j hj hlive
    rw [merged_prev hl h hj hlive hji]
    split_ifs with hi
    · omega
    · exact hlt'

theorem merged_counted (hl : Linked nodes) (h : Alone nodes i) (hc : Counted nodes) :
    Counted (merged nodes i) := by
  intro j
  rw [node_merged hl h]
  split_ifs with hi hp hb
  · simp
  · exact hc i
  · exact hc j
  · exact hc j

/-- Words stay; those of the merged node are now those of the one before it. -/
theorem merged_spells (hl : Linked nodes) (h : Alone nodes i) (hp : (nodes.node i).prev ≠ 0)
    (htag : (nodes.node (nodes.node i).prev).tagLen = 0) {w : List Nibble} {j : ℕ}
    (hs : nodes.tree.Spells w j) (hj : j ≠ (nodes.node i).prev) :
    (Nodes.tree (merged nodes i)).Spells w (if j = i then (nodes.node i).prev else j) := by
  have hlt := hl.ordered i h.ne_zero h.live
  have hroot : (Nodes.tree (merged nodes i)).root = nodes.tree.root := rfl
  refine (hs.merge (c := (nodes.node i).key) hroot hp h.ne_zero hlt.ne' ?_ h.single ?_ ?_ ?_ ?_).1 hj
  · intro a k hc
    obtain ⟨-, hprev, hkey⟩ := hl.down a k i hc
    exact ⟨hprev.symm, hkey.symm⟩
  · rintro t ⟨ht, -⟩
    rwa [htag, length_eq_zero_iff] at ht
  · intro a k b hc ha
    rw [merged_child hl h]
    by_cases hai : a = i
    · rw [if_pos hai, if_pos rfl]
      exact ⟨hlt.ne, hai ▸ hc⟩
    · rw [if_neg hai, if_neg ha]
      exact ⟨hai, hc⟩
  · rintro b t ht hbp hbi
    change _ = (Nodes.node (merged nodes i) b).tagLen ∧ _ = (Nodes.node (merged nodes i) b).tagVal
    rw [node_merged hl h, if_neg hbi, if_neg hbp]
    split_ifs
    · exact ht
    · exact ht
  · rintro t ⟨hlen, hval⟩
    change _ = (Nodes.node (merged nodes i) _).tagLen ∧ _ = (Nodes.node (merged nodes i) _).tagVal
    rw [node_merged hl h, if_neg hlt.ne, if_pos rfl]
    refine ⟨congrArg Nat.succ hlen, ?_⟩
    rw [tagNum_cons, hlen, hval]

/-- The entries stay stored. -/
theorem merged_stored (hl : Linked nodes) (h : Alone nodes i) (hp : (nodes.node i).prev ≠ 0)
    (htag : (nodes.node (nodes.node i).prev).tagLen = 0)
    (hid : (nodes.node (nodes.node i).prev).id < 0) {entries : List (List Nibble × ℕ)}
    (hst : Stored nodes entries) : Stored (merged nodes i) entries := by
  have hlt := hl.ordered i h.ne_zero h.live
  constructor
  · intro e he
    obtain ⟨j, hs, hj⟩ := hst.found e he
    have hjp : j ≠ (nodes.node i).prev := by
      rintro rfl
      omega
    refine ⟨_, merged_spells hl h hp htag hs hjp, ?_⟩
    rw [← hj]
    split_ifs with hji
    · rw [node_merged hl h, if_neg hlt.ne, if_pos rfl, hji]
    · rw [node_merged hl h, if_neg hji, if_neg hjp]
      split_ifs <;> rfl
  · intro j hlive hj
    obtain ⟨hlive, hji⟩ := (merged_live hl h j).1 hlive
    rw [node_merged hl h, if_neg hji] at hj
    by_cases hjp : j = (nodes.node i).prev
    · rw [if_pos hjp] at hj
      obtain ⟨e, he, hs⟩ := hst.only i h.live hj
      have hs' := merged_spells hl h hp htag hs hlt.ne'
      rw [if_pos rfl, ← hjp] at hs'
      exact ⟨e, he, hs'⟩
    · have hj : 0 ≤ (nodes.node j).id := by
        rw [if_neg hjp] at hj
        split_ifs at hj
        · exact hj
        · exact hj
      obtain ⟨e, he, hs⟩ := hst.only j hlive hj
      have hs' := merged_spells hl h hp htag hs hjp
      rw [if_neg hji] at hs'
      exact ⟨e, he, hs'⟩

theorem merged_liveSet (hl : Linked nodes) (h : Alone nodes i) :
    (merged nodes i).liveSet = nodes.liveSet.erase i := by
  ext j
  simp only [Nodes.liveSet, Finset.mem_filter, Finset.mem_range, Finset.mem_erase, length_merged,
    merged_live hl h]
  tauto

/-! ## All nodes -/

/-- The nodes above `n` are merged as far as they can be: those up to `n` are all in use, and
    those before them have no tags. -/
structure Shrinking (entries : List (List Nibble × ℕ)) (null : Prop) (s : Nodes × ℕ) (n : ℕ) :
    Prop where
  linked : Linked s.1
  counted : Counted s.1
  pos : 0 < s.1.length
  root : (s.1.node 0).Kept
  rootTag : (s.1.node 0).tagLen = 0
  live : ∀ j ≤ n, s.1.Live j
  untagged : ∀ j, j ≠ 0 → j ≤ n → (s.1.node (s.1.node j).prev).tagLen = 0
  tagLen_le : ∀ j, (s.1.node j).tagLen ≤ tagLenMax
  valid : s.2 = s.1.liveSet.card
  stored : Stored s.1 entries
  nullRoot : null → NullRoot s.1

/-- A node before which no more than one is counted is alone. -/
theorem Alone.of_count (hl : Linked nodes) (hc : Counted nodes) (h0 : i ≠ 0) (hlive : nodes.Live i)
    (hcnt : (nodes.node (nodes.node i).prev).nextCnt ≤ 1) : Alone nodes i where
  ne_zero := h0
  live := hlive
  single k j hj := by
    obtain ⟨-, hi⟩ := hl.up i h0 hlive
    rw [hc] at hcnt
    have hmem : ∀ k j, nodes.tree.Child (nodes.node i).prev k j →
        k ∈ Finset.univ.filter fun k => (nodes.node (nodes.node i).prev).next k ≠ 0 := by
      intro k j hj
      rw [Finset.mem_filter]
      exact ⟨Finset.mem_univ k, fun h => hj.1 (hj.2.symm.trans h)⟩
    have hk := Finset.card_le_one.1 hcnt k (hmem k j hj) _ (hmem _ i hi)
    rw [← hj.2, hk, hi.2]

variable {entries : List (List Nibble × ℕ)} {null : Prop}

theorem Shrinking.shrinkNode {s : Nodes × ℕ} {n : ℕ} (h : Shrinking entries null s (n + 1)) :
    Shrinking entries null (shrinkNode (n + 1) s) n := by
  obtain ⟨nodes, cnt⟩ := s
  have hl : Linked nodes := h.linked
  have hlive : nodes.Live (n + 1) := h.live (n + 1) le_rfl
  have hlt := hl.ordered (n + 1) (Nat.succ_ne_zero n) hlive
  rw [shrinkNode_eq]
  split_ifs with hskip
  · exact { h with
      live := fun j hj => h.live j (hj.trans (Nat.le_succ n))
      untagged := fun j h0 hj => h.untagged j h0 (hj.trans (Nat.le_succ n)) }
  · push Not at hskip
    obtain ⟨hcnt, hmax, hid⟩ := hskip
    have ha := Alone.of_count hl h.counted (Nat.succ_ne_zero n) hlive hcnt
    have htag := h.untagged (n + 1) (Nat.succ_ne_zero n) le_rfl
    have hp : (nodes.node (n + 1)).prev ≠ 0 := by
      intro h0
      rw [h0] at hcnt hid
      exact h.root.elim hcnt.not_gt hid.not_ge
    have hroot : Nodes.node (merged nodes (n + 1)) 0 = nodes.node 0 := by
      rw [node_merged hl ha, if_neg (Nat.succ_ne_zero n).symm, if_neg hp.symm,
        if_neg fun hc => hc.1 rfl]
    refine ⟨merged_linked hl ha, merged_counted hl ha h.counted,
      (length_merged nodes (n + 1)).symm ▸ h.pos, ?_, ?_, fun j hj => ?_, fun j h0 hj => ?_,
      fun j => ?_, ?_, merged_stored hl ha hp htag hid h.stored, ?_⟩
    · rw [hroot]
      exact h.root
    · rw [hroot]
      exact h.rootTag
    · exact (merged_live hl ha j).2 ⟨h.live j (hj.trans (Nat.le_succ n)), by omega⟩
    · have hj' : nodes.Live j := h.live j (hj.trans (Nat.le_succ n))
      have hltj := hl.ordered j h0 hj'
      rw [merged_prev hl ha h0 hj' (by omega), if_neg (by omega), node_merged hl ha,
        if_neg (by omega)]
      -- behind the node before the merged one there is no other
      have hne : (nodes.node j).prev ≠ (nodes.node (n + 1)).prev := by
        intro heq
        have hc := (hl.up j h0 hj').2
        rw [heq] at hc
        have := ha.single _ j hc
        omega
      rw [if_neg hne]
      split_ifs
      · exact h.untagged j h0 (hj.trans (Nat.le_succ n))
      · exact h.untagged j h0 (hj.trans (Nat.le_succ n))
    · rw [node_merged hl ha]
      split_ifs
      · exact Nat.zero_le _
      · exact hmax
      · exact h.tagLen_le j
      · exact h.tagLen_le j
    · have hmem : n + 1 ∈ nodes.liveSet := by
        rw [Nodes.liveSet, Finset.mem_filter, Finset.mem_range]
        exact ⟨hlive.lt (Nat.succ_ne_zero n), hlive⟩
      rw [merged_liveSet hl ha, Finset.card_erase_of_mem hmem, ← h.valid]
    · rw [NullRoot, hroot]
      exact h.nullRoot

theorem Shrinking.shrinkLoop {n : ℕ} {s : Nodes × ℕ} (h : Shrinking entries null s n) :
    Shrinking entries null (shrinkLoop n s) 0 := by
  induction n generalizing s with
  | zero => exact h
  | succ n ih => exact ih h.shrinkNode

/-- The nodes after all are merged. -/
theorem shrinkLoop_spec (hp : Plain nodes) (hroot : (nodes.node 0).Kept)
    (hst : Stored nodes entries) :
    Shrinking entries (NullRoot nodes) (shrinkLoop (nodes.length - 1) (nodes, nodes.length)) 0 := by
  have hall : nodes.liveSet = Finset.range nodes.length :=
    Finset.filter_true_of_mem fun i hi => hp.live i (Finset.mem_range.1 hi)
  refine Shrinking.shrinkLoop ⟨hp.toLinked, hp.counted, hp.pos, hroot, (hp.untagged 0).1,
    fun j hj => hp.live j ?_, fun j _ _ => (hp.untagged _).1, fun j => ?_, ?_, hst, id⟩
  · have := hp.pos
    omega
  · rw [(hp.untagged j).1]
    exact Nat.zero_le _
  · rw [hall, Finset.card_range]

end Libmpp.Trie
