import Libmpp.Trie.Compact

/-!
# The lookup

The lookup follows the links and tags of the nodes, so that the node that a name spells is
found (`getNode_spells`). A name that none spells may be taken for another one (`Mistaken`): the
lookup finds nothing else (`getNode_mistaken`). A node is *ready* when its tag has been read: the next nibble is that
of a link. Inside of a tag, the walk stays at the node, and has the number of what is read.
-/

namespace Libmpp.Trie

open List Option

variable {nodes : Nodes}

/-- One nibble of a name, that is not the last one. -/
def walkStep (nodes : Nodes) (s : MppTrieWalk × Option ℕ) (k : Nibble) : MppTrieWalk × Option ℕ :=
  match s with
  | (p, some i) => mppTrieWalk nodes p i k false
  | (p, none) => (p, none)

/-- The walk has read the tag of a node. -/
def Ready (nodes : Nodes) (p : MppTrieWalk) (i : ℕ) : Prop :=
  (nodes.node i).tagLen = 0 ∨ p.matched = some (nodes.node i).idx

variable {p : MppTrieWalk} {i : ℕ}

theorem walk_ready (h : Ready nodes p i) (k : Nibble) (last : Bool) :
    mppTrieWalk nodes p i k last = ({}, some ((nodes.node i).next k)) := by
  rw [mppTrieWalk]
  exact if_pos h

/-! ## Tags -/

section

variable {j : ℕ} (hlive : nodes.Live j) (hle : (nodes.node j).tagLen ≤ tagLenMax)

include hlive hle

variable {u : List Nibble}

/-- Inside of a tag, the numbers read fit 64 bits. -/
theorem walk_tag (hlt : u.length < (nodes.node j).tagLen) (k : Nibble) (last : Bool) :
    mppTrieWalk nodes { tag := tagNum u, len := u.length } j k last =
      if u.length + 1 < (nodes.node j).tagLen ∧ !last then
        ({ tag := tagNum (u ++ [k]), len := (u ++ [k]).length }, some j)
      else if (nodes.node j).tagVal ≠ tagNum (u ++ [k]) then ({}, none)
      else ({ matched := some j }, some j) := by
  have hidx : (nodes.node j).idx = j := hlive
  have hmax : (nodes.node j).tagLen ≤ 16 := hle
  have hpow : tagNum u * 16 + k.val < 2 ^ 64 := by
    have h16 : (2 : ℕ) ^ 64 = 16 ^ 16 := by norm_num
    have hlt := tagNum_lt (u ++ [k])
    rw [tagNum_append_singleton, length_append, length_singleton] at hlt
    rw [h16]
    exact hlt.trans_le (Nat.pow_le_pow_right (by norm_num) (by omega))
  have hnot : ¬((nodes.node j).tagLen = 0 ∨
      (none : Option ℕ) = some (nodes.node j).idx) := by
    rintro (h | h)
    · omega
    · exact some_ne_none _ h.symm
  rw [mppTrieWalk]
  dsimp only
  rw [if_neg hnot, Nat.mod_eq_of_lt hpow, ← tagNum_append_singleton, hidx,
    length_append, length_singleton]

/-- A part of a tag is read. -/
theorem foldl_walk_within (hlt : u.length < (nodes.node j).tagLen) :
    u.foldl (walkStep nodes) ({}, some j) =
      ({ tag := tagNum u, len := u.length }, some j) := by
  induction u using List.reverseRecOn with
  | nil => rfl
  | append_singleton u k ih =>
    rw [length_append, length_singleton] at hlt
    rw [foldl_append, ih (by omega), foldl_cons, foldl_nil]
    exact (walk_tag hlive hle (by omega) k false).trans (if_pos ⟨hlt, rfl⟩)

/-- The end of a tag is read, whether it is the last of the name or not. -/
theorem walk_end {k : Nibble} (ht : nodes.tree.Tag j (u ++ [k])) (last : Bool) :
    mppTrieWalk nodes { tag := tagNum u, len := u.length } j k last =
      ({ matched := some j }, some j) := by
  obtain ⟨hlen, hval⟩ := ht
  rw [length_append, length_singleton] at hlen
  rw [walk_tag hlive hle (by omega), if_neg fun h => by omega, hval, if_neg fun h => h rfl]

end

/-! ## Names -/

/-- The start of a lookup. -/
def walkStart : MppTrieWalk × Option ℕ := ({ matched := some 0 }, some 0)

variable {w : List Nibble}

/-- The walk along a word leads to the node it spells, and has read its tag. -/
theorem walk_spells (hl : Linked nodes) (hle : ∀ j, (nodes.node j).tagLen ≤ tagLenMax) {j : ℕ}
    (hs : nodes.tree.Spells w j) :
    ∃ p, w.foldl (walkStep nodes) walkStart = (p, some j) ∧ Ready nodes p j := by
  induction hs with
  | root =>
    refine ⟨_, rfl, .inr ?_⟩
    have hidx : (nodes.node 0).idx = 0 := hl.live_zero
    rw [← hidx]
    rfl
  | @snoc w i k j t _ hc ht ih =>
    obtain ⟨p, hp, hready⟩ := ih
    have hlive := (hl.down _ _ _ hc).1
    rw [foldl_append, hp, foldl_cons, walkStep, walk_ready hready, hc.2]
    rcases eq_nil_or_concat t with rfl | ⟨u, k', rfl⟩
    · exact ⟨{}, rfl, .inl ht.1.symm⟩
    · rw [concat_eq_append] at ht ⊢
      have hlen := ht.1
      rw [length_append, length_singleton] at hlen
      rw [foldl_append, foldl_walk_within hlive (hle j) (by omega)]
      refine ⟨{ matched := some j }, walk_end hlive (hle j) ht false, .inr ?_⟩
      have hidx : (nodes.node j).idx = j := hlive
      rw [hidx]

/-- A word spells one node. -/
theorem spells_unique (hl : Linked nodes) (hle : ∀ j, (nodes.node j).tagLen ≤ tagLenMax) {j : ℕ}
    (hi : nodes.tree.Spells w i) (hj : nodes.tree.Spells w j) : i = j := by
  obtain ⟨p, hp, -⟩ := walk_spells hl hle hi
  obtain ⟨q, hq, -⟩ := walk_spells hl hle hj
  exact some.inj (Prod.mk.inj (hp.symm.trans hq)).2

variable {k : Nibble}

/-- The last nibble of a name. -/
def walkLast (nodes : Nodes) (s : MppTrieWalk × Option ℕ) (k : Nibble) : Option ℕ :=
  match s with
  | (p, some i) => (mppTrieWalk nodes p i k true).2
  | (_, none) => none

/-- It leads there as well when the last nibble is taken as the last one. -/
theorem walk_last (hl : Linked nodes) (hle : ∀ j, (nodes.node j).tagLen ≤ tagLenMax) {j : ℕ}
    (hs : nodes.tree.Spells (w ++ [k]) j) :
    walkLast nodes (w.foldl (walkStep nodes) walkStart) k = some j := by
  generalize hv : w ++ [k] = v at hs
  cases hs with
  | root => exact absurd hv (by simp)
  | @snoc w' i k' j t hs' hc ht =>
    obtain ⟨p, hp, hready⟩ := walk_spells hl hle hs'
    have hlive := (hl.down _ _ _ hc).1
    rcases eq_nil_or_concat t with rfl | ⟨u, a, rfl⟩
    · obtain ⟨rfl, hk⟩ := append_inj' hv rfl
      obtain rfl := singleton_injective hk
      rw [hp, walkLast, walk_ready hready, hc.2]
    · rw [concat_eq_append] at ht hv
      have hlen := ht.1
      rw [length_append, length_singleton] at hlen
      have hv' : w ++ [k] = (w' ++ k' :: u) ++ [a] := by
        rw [hv, append_assoc, cons_append]
      obtain ⟨rfl, hk⟩ := append_inj' hv' rfl
      obtain rfl := singleton_injective hk
      rw [foldl_append, hp, foldl_cons, walkStep, walk_ready hready, hc.2,
        foldl_walk_within hlive (hle j) (by omega), walkLast, walk_end hlive (hle j) ht]

/-- A walk that has failed goes nowhere. -/
theorem foldl_walk_none (p : MppTrieWalk) (w : List Nibble) :
    w.foldl (walkStep nodes) (p, none) = (p, none) := by
  induction w with
  | nil => rfl
  | cons k w ih => exact ih

/-- The loop of the lookup goes through the nibbles of a name, up to its NUL. -/
theorem walkName_eq {l : List UInt8} (h0 : 0 ∉ l) (hw : nibbles l = w ++ [k]) (rest : List UInt8) :
    trieWalkName nodes p i (l ++ 0 :: rest) =
      walkLast nodes (w.foldl (walkStep nodes) (p, some i)) k := by
  induction l generalizing w p i with
  | nil => exact absurd hw (by simp)
  | cons b l ih =>
    cases l with
    | nil =>
      have hlast : [hiNibble b] ++ [loNibble b] = w ++ [k] := hw
      obtain ⟨rfl, hk⟩ := append_inj' hlast rfl
      obtain rfl := singleton_injective hk
      rw [cons_append, nil_append, trieWalkName, foldl_cons, foldl_nil, walkStep]
      generalize mppTrieWalk nodes p i (hiNibble b) false = s
      obtain ⟨q, _ | j⟩ := s
      · rfl
      · rfl
    | cons c l =>
      obtain ⟨w, rfl⟩ : ∃ w', w = hiNibble b :: loNibble b :: w' := by
        have htake := congrArg (List.take 2) hw
        have hlen := congrArg List.length hw
        rw [nibbles_cons, nibbles_cons, length_append, length_singleton] at hlen
        simp only [length_cons] at hlen
        rw [take_append_of_le_length (by omega)] at htake
        refine ⟨w.drop 2, ?_⟩
        rw [← take_append_drop 2 w, ← htake]
        rfl
      rw [nibbles_cons, cons_append, cons_append, List.cons.injEq, List.cons.injEq] at hw
      have hc : c ≠ 0 := fun hc => h0 (by simp [hc])
      have hrest := fun p i => ih (p := p) (i := i) (fun hm => h0 (mem_cons_of_mem _ hm)) hw.2.2
      rw [cons_append, cons_append, trieWalkName, decide_eq_false hc, foldl_cons, foldl_cons,
        walkStep]
      generalize mppTrieWalk nodes p i (hiNibble b) false = s
      obtain ⟨q, _ | j⟩ := s
      · exact (congrArg (walkLast nodes · k) (foldl_walk_none q w)).symm
      · dsimp only [bind_eq_bind, bind_some, walkStep]
        generalize mppTrieWalk nodes q j (loNibble b) false = s
        obtain ⟨q', _ | j'⟩ := s
        · rw [if_neg hc, foldl_walk_none]
          rfl
        · rw [if_neg hc]
          exact hrest q' j'

/-- The nibbles of a name that is not empty end with one. -/
theorem nibbles_concat {name : CName} (hne : name.val ≠ []) :
    ∃ w k, nibbles name.val = w ++ [k] := by
  rcases eq_nil_or_concat (nibbles name.val) with hnil | ⟨w, k, hw⟩
  · exact absurd (nibbles_injective (hnil.trans nibbles_nil.symm)) hne
  · exact ⟨w, k, hw.trans concat_eq_append⟩

/-- The node that a name spells is found. What follows the name in memory does not matter. -/
theorem getNode_spells (hl : Linked nodes) (hle : ∀ j, (nodes.node j).tagLen ≤ tagLenMax)
    {name : CName} (hne : name.val ≠ []) {j : ℕ} (hs : nodes.tree.Spells (nibbles name.val) j)
    (rest : List UInt8) : mppTrieGetNode nodes (name.val ++ 0 :: rest) = some j := by
  obtain ⟨w, k, hw⟩ := nibbles_concat hne
  rw [hw] at hs
  rw [mppTrieGetNode, walkName_eq name.property hw rest]
  exact walk_last hl hle hs

/-! ## What a lookup finds -/

/-- A lookup of the word `w` may find the word `x`: a link that is missing leads back to the root,
    so that an end `v` of `w` is looked up; a tag behind its last letter is not read, and a tag
    that is not read to its end is taken for one with fewer zeros in front. -/
def Mistaken (w x : List Nibble) : Prop :=
  x = [] ∨ ∃ v, v ≠ [] ∧ v <:+ w ∧
    (v <+: x ∧ (v <+: w → x <+: w ∨ v = w) ∨
      ∃ u u' n, v = u ++ u' ∧ x = u ++ List.replicate n 0 ++ u')

/-- The number of a tag does not tell zeros in front. -/
theorem eq_zeros_append {t u : List Nibble} (hle : u.length ≤ t.length)
    (h : tagNum t = tagNum u) : ∃ n, t = List.replicate n 0 ++ u := by
  refine ⟨t.length - u.length, tagNum_inj ?_ ?_⟩
  · rw [length_append, length_replicate]
    omega
  · rw [h]
    generalize t.length - u.length = n
    induction n with
    | zero => rfl
    | succ n ih =>
      rw [replicate_succ, cons_append, tagNum_cons, ← ih]
      exact (Nat.zero_add _).symm.trans (congrArg (· + _) (Nat.zero_mul _).symm)

/-- Where a walk along `c` is: since it was last at the root it has read the word of the node `i`,
    or that word up to a part of the tag. -/
inductive Walked (nodes : Nodes) (c : List Nibble) : MppTrieWalk → ℕ → Prop
  | ready {p : MppTrieWalk} {i : ℕ} (v : List Nibble) (suffix : v <:+ c) (ready : Ready nodes p i)
      (spells : ∀ x, nodes.tree.Spells x i → x = v) : Walked nodes c p i
  | inside {i : ℕ} (v u : List Nibble) (suffix : v ++ u <:+ c) (ne : v ≠ [])
      (live : nodes.Live i) (lt : u.length < (nodes.node i).tagLen)
      (spells : ∀ x, nodes.tree.Spells x i → ∃ t, x = v ++ t ∧ nodes.tree.Tag i t) :
      Walked nodes c { tag := tagNum u, len := u.length } i

section

variable {c : List Nibble} {i j : ℕ} (hl : Linked nodes)

include hl

theorem spells_child {v x : List Nibble} (hv : ∀ x, nodes.tree.Spells x i → x = v)
    (hc : nodes.tree.Child i k j) (hx : nodes.tree.Spells x j) :
    ∃ t, x = v ++ k :: t ∧ nodes.tree.Tag j t ∧ nodes.tree.Spells v i := by
  cases hx with
  | root => exact absurd rfl hc.1
  | snoc hw hc' ht =>
    obtain ⟨rfl, rfl⟩ := hl.wired.parent hc hc'
    obtain rfl := hv _ hw
    exact ⟨_, rfl, ht, hw⟩

variable (hle : ∀ j, (nodes.node j).tagLen ≤ tagLenMax)

include hle

theorem walked (hroot : (nodes.node 0).tagLen = 0)
    (h : c.foldl (walkStep nodes) walkStart = (p, some i)) : Walked nodes c p i := by
  induction c using List.reverseRecOn generalizing p i with
  | nil =>
    obtain ⟨rfl, hi⟩ := Prod.mk.inj h
    obtain rfl := some.inj hi
    exact .ready [] (nil_suffix) (.inl hroot) fun x hx => hx.inj hl.wired .root
  | append_singleton c k ih =>
    rw [foldl_append, foldl_cons, foldl_nil] at h
    generalize hs : c.foldl (walkStep nodes) walkStart = s at h
    obtain ⟨q, _ | a⟩ := s
    · exact absurd (Prod.mk.inj h).2 (some_ne_none i).symm
    · cases ih hs with
      | ready v hv hready hspells =>
        rw [walkStep, walk_ready hready] at h
        obtain ⟨rfl, hi⟩ := Prod.mk.inj h
        obtain rfl := some.inj hi
        by_cases h0 : (nodes.node a).next k = 0
        · rw [h0]
          exact .ready [] nil_suffix (.inl hroot) fun x hx => hx.inj hl.wired .root
        · have hchild : nodes.tree.Child a k ((nodes.node a).next k) := ⟨h0, rfl⟩
          have hsuffix : v ++ [k] <:+ c ++ [k] := suffix_append_self_iff.2 hv
          by_cases htag : (nodes.node ((nodes.node a).next k)).tagLen = 0
          · refine .ready (v ++ [k]) hsuffix (.inl htag) fun x hx => ?_
            obtain ⟨t, rfl, ht, -⟩ := spells_child hl hspells hchild hx
            rw [length_eq_zero_iff.1 (ht.1.trans htag)]
          · refine .inside (v ++ [k]) [] (by rwa [append_nil]) (by simp)
              (hl.down _ _ _ hchild).1 (Nat.pos_of_ne_zero htag) fun x hx => ?_
            obtain ⟨t, rfl, ht, -⟩ := spells_child hl hspells hchild hx
            exact ⟨t, by rw [append_assoc, singleton_append], ht⟩
      | inside v u hv hne hlive hlt hspells =>
        have hsuffix : v ++ (u ++ [k]) <:+ c ++ [k] := by
          rw [← append_assoc]
          exact suffix_append_self_iff.2 hv
        rw [walkStep, walk_tag hlive (hle a) hlt] at h
        split_ifs at h with hmore hval
        · obtain ⟨rfl, hi⟩ := Prod.mk.inj h
          obtain rfl := some.inj hi
          refine .inside v (u ++ [k]) hsuffix hne hlive ?_ hspells
          rw [length_append]
          exact hmore.1
        · exact absurd (Prod.mk.inj h).2 (some_ne_none i).symm
        · obtain ⟨rfl, hi⟩ := Prod.mk.inj h
          obtain rfl := some.inj hi
          have hidx : (nodes.node a).idx = a := hlive
          refine .ready (v ++ (u ++ [k])) hsuffix (.inr (congrArg some hidx.symm)) fun x hx => ?_
          obtain ⟨t, rfl, ht⟩ := hspells x hx
          rw [@tagNum_inj _ (u ++ [k]) ?_ (ht.2.trans (not_not.1 hval))]
          rw [ht.1, length_append, length_singleton]
          have hnot : ¬(u.length + 1 < (nodes.node a).tagLen) := fun hlt => hmore ⟨hlt, rfl⟩
          omega

/-- A walk that goes through a link into a tag has read the tag when it comes to another node. -/
theorem tag_prefix {v r t : List Nibble} (hv : nodes.tree.Spells v i) (hc : nodes.tree.Child i k j)
    (ht : nodes.tree.Tag j t) (hne : t ≠ []) (hij : i ≠ j)
    (h : (v ++ k :: r).foldl (walkStep nodes) walkStart = (p, some i)) : t <+: r := by
  obtain ⟨q, hq, hready⟩ := walk_spells hl hle hv
  have hlive := (hl.down _ _ _ hc).1
  rw [foldl_append, hq, foldl_cons, walkStep, walk_ready hready, hc.2] at h
  have hlen : t.length ≤ r.length := by
    by_contra hlt
    rw [foldl_walk_within hlive (hle j) (by rw [← ht.1]; omega)] at h
    exact hij (some.inj (Prod.mk.inj h).2).symm
  have hr := length_take_of_le hlen
  obtain ⟨u, a, hu⟩ : ∃ u a, r.take t.length = u ++ [a] := by
    rcases eq_nil_or_concat (r.take t.length) with hnil | ⟨u, a, hu⟩
    · rw [hnil] at hr
      exact absurd (length_eq_zero_iff.1 hr.symm) hne
    · exact ⟨u, a, hu.trans concat_eq_append⟩
  rw [hu, length_append, length_singleton, ht.1] at hr
  rw [← take_append_drop t.length r, hu, foldl_append, foldl_append,
    foldl_walk_within hlive (hle j) (by omega), foldl_cons, foldl_nil, walkStep,
    walk_tag hlive (hle j) (by omega), if_neg fun hmore => by omega] at h
  split_ifs at h with hval
  · rw [foldl_walk_none] at h
    exact absurd (Prod.mk.inj h).2 (some_ne_none i).symm
  · rw [@tagNum_inj _ (u ++ [a]) ?_ (ht.2.trans (not_not.1 hval)), ← hu]
    · exact take_prefix _ _
    · rw [ht.1, length_append, length_singleton, hr]

/-- What is found is spelled by a word that is the name, or is mistaken for it. -/
theorem mistaken_of_walk (hroot : (nodes.node 0).tagLen = 0)
    (h : walkLast nodes (c.foldl (walkStep nodes) walkStart) k = some j) :
    nodes.Live j ∧ ∀ x, nodes.tree.Spells x j → Mistaken (c ++ [k]) x := by
  generalize hs : c.foldl (walkStep nodes) walkStart = s at h
  obtain ⟨p, _ | i⟩ := s
  · exact absurd h (some_ne_none j).symm
  rw [walkLast] at h
  cases walked hl hle hroot hs with
  | ready v hv hready hspells =>
    rw [walk_ready hready] at h
    obtain rfl := some.inj h
    by_cases h0 : (nodes.node i).next k = 0
    · rw [h0]
      exact ⟨hl.live_zero, fun x hx => .inl (hx.inj hl.wired .root)⟩
    have hchild : nodes.tree.Child i k ((nodes.node i).next k) := ⟨h0, rfl⟩
    refine ⟨(hl.down _ _ _ hchild).1, fun x hx => ?_⟩
    obtain ⟨t, rfl, ht, hvi⟩ := spells_child hl hspells hchild hx
    have hsplit : v ++ k :: t = v ++ [k] ++ t := by rw [append_assoc, singleton_append]
    refine .inr ⟨v ++ [k], by simp, suffix_append_self_iff.2 hv,
      .inl ⟨⟨t, hsplit.symm⟩, fun hpre => ?_⟩⟩
    by_cases hne : t = []
    · rw [hsplit, hne, append_nil]
      exact .inl hpre
    obtain ⟨rest, hrest⟩ := hpre
    rcases eq_nil_or_concat rest with rfl | ⟨r, a, rfl⟩
    · exact .inr ((append_nil _).symm.trans hrest)
    -- the walk went through the same link before
    rw [concat_eq_append, ← append_assoc] at hrest
    obtain ⟨hc, -⟩ := append_inj' hrest rfl
    rw [append_assoc, singleton_append] at hc
    rw [← hc] at hs
    obtain ⟨r', rfl⟩ := tag_prefix hl hle hvi hchild ht hne (hl.lt_of_child hchild).ne hs
    exact .inl ⟨r' ++ [k], by rw [← hc]; simp⟩
  | inside v u hv hne hlive hlt hspells =>
    rw [walk_tag hlive (hle i) hlt, if_neg fun hmore => Bool.false_ne_true hmore.2] at h
    split_ifs at h with hval
    obtain rfl := some.inj h
    refine ⟨hlive, fun x hx => ?_⟩
    obtain ⟨t, rfl, ht⟩ := hspells x hx
    obtain ⟨n, rfl⟩ := eq_zeros_append (u := u ++ [k]) (by rw [length_append, ht.1]; exact hlt)
      (ht.2.trans (not_not.1 hval))
    refine .inr ⟨v ++ (u ++ [k]), by simp, ?_, .inr ⟨v, u ++ [k], n, rfl, (append_assoc _ _ _).symm⟩⟩
    rw [← append_assoc]
    exact suffix_append_self_iff.2 hv

/-- What a lookup finds is spelled by a word that may be taken for the name. -/
theorem getNode_mistaken (hroot : (nodes.node 0).tagLen = 0) {name : CName} (hne : name.val ≠ [])
    {rest : List UInt8} (h : mppTrieGetNode nodes (name.val ++ 0 :: rest) = some j) :
    nodes.Live j ∧ ∀ x, nodes.tree.Spells x j → Mistaken (nibbles name.val) x := by
  obtain ⟨w, k, hw⟩ := nibbles_concat hne
  rw [mppTrieGetNode, walkName_eq name.property hw rest] at h
  rw [hw]
  exact mistaken_of_walk hl hle hroot h

end

end Libmpp.Trie
