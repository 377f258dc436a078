import Libmpp.Lib.Filing

/-!
# Walks over trees of nodes

Nodes with lists of children. When no node is in two lists, nor twice in one, and the
children of a node have a smaller rank, the nodes below a node are a tree (`Grove`).

* `Below` is the tree of a node, with the node itself; the trees of two children of a
  node have nothing in common (`Grove.disjoint`).
* `preorder` lists a tree with each node before its children, `postorder` with each node
  behind them. The number bounds the height; from the rank of the node on it is large
  enough (`Grove.mem_preorder`). Both list every node once (`Grove.nodup_preorder`,
  `postorder_perm`).
* Nodes filed with their parents, with a depth one more than that of the parent, are a
  grove (`grove_of_depth`), and the depths are below the number of nodes (`depth_lt`).
-/

namespace Libmpp

open List

variable {ι : Type*} {child : ι → List ι} {rank : ι → ℕ} {a b c x y : ι} {k : ℕ}

/-- `b` is the node `a` or below it. -/
def Below (child : ι → List ι) : ι → ι → Prop := Relation.ReflTransGen fun a b => b ∈ child a

/-- A tree, each node before its children. -/
def preorder (child : ι → List ι) : ℕ → ι → List ι
  | 0, _ => []
  | k + 1, a => a :: (child a).flatMap (preorder child k)

/-- A tree, each node behind its children. -/
def postorder (child : ι → List ι) : ℕ → ι → List ι
  | 0, _ => []
  | k + 1, a => (child a).flatMap (postorder child k) ++ [a]

/-- The children make trees. -/
structure Grove (child : ι → List ι) (rank : ι → ℕ) : Prop where
  nodup : ∀ a, (child a).Nodup
  unique : ∀ a b c, c ∈ child a → c ∈ child b → a = b
  rank_lt : ∀ a, ∀ c ∈ child a, rank c < rank a

theorem below_refl (child : ι → List ι) (a : ι) : Below child a a := Relation.ReflTransGen.refl

theorem below_child (hc : c ∈ child a) : Below child a c := Relation.ReflTransGen.single hc

theorem Below.trans (h : Below child a b) (h' : Below child b c) : Below child a c :=
  Relation.ReflTransGen.trans h h'

/-- A node below `a` is `a`, or below one of its children. -/
theorem below_iff : Below child a x ↔ x = a ∨ ∃ c ∈ child a, Below child c x := by
  constructor
  · intro h
    rcases Relation.ReflTransGen.cases_head h with rfl | ⟨c, hc, hx⟩
    · exact .inl rfl
    · exact .inr ⟨c, hc, hx⟩
  · rintro (rfl | ⟨c, hc, hx⟩)
    · exact below_refl child x
    · exact (below_child hc).trans hx

namespace Grove

theorem rank_le (h : Grove child rank) (hb : Below child a b) : rank b ≤ rank a := by
  induction hb with
  | refl => exact le_rfl
  | tail _ hc ih => exact (h.rank_lt _ _ hc).le.trans ih

/-- A node is not below its children. -/
theorem not_below_child (h : Grove child rank) (hc : c ∈ child a) : ¬Below child c a := fun hb =>
  absurd (h.rank_le hb) (not_le.2 (h.rank_lt a c hc))

/-- Of two nodes above the same node one is above the other. -/
theorem total (h : Grove child rank) (hx : Below child a x) (hx' : Below child b x) :
    Below child a b ∨ Below child b a := by
  induction hx with
  | refl => exact .inr hx'
  | @tail y z hy hz ih =>
    rcases Relation.ReflTransGen.cases_tail hx' with rfl | ⟨y', hy', hz'⟩
    · exact .inl (Relation.ReflTransGen.tail hy hz)
    · obtain rfl := h.unique y y' z hz hz'
      exact ih hy'

/-- A child below another child of the same node is the same. -/
theorem eq_of_below (h : Grove child rank) (hb : b ∈ child a) (hc : c ∈ child a)
    (hbc : Below child b c) : b = c := by
  rcases Relation.ReflTransGen.cases_tail hbc with rfl | ⟨y, hy, hcy⟩
  · rfl
  · obtain rfl := h.unique y a c hcy hc
    exact absurd hy (h.not_below_child hb)

theorem disjoint (h : Grove child rank) (hb : b ∈ child a) (hc : c ∈ child a)
    (hx : Below child b x) (hx' : Below child c x) : b = c := by
  rcases h.total hx hx' with hbc | hcb
  · exact h.eq_of_below hb hc hbc
  · exact (h.eq_of_below hc hb hcb).symm

theorem mem_preorder (h : Grove child rank) (hk : rank a < k) :
    x ∈ preorder child k a ↔ Below child a x := by
  induction k generalizing a with
  | zero => exact absurd hk (Nat.not_lt_zero _)
  | succ k ih =>
    rw [preorder, mem_cons, mem_flatMap, below_iff]
    refine or_congr_right (exists_congr fun c => and_congr_right fun hc => ih ?_)
    exact (h.rank_lt a c hc).trans_le (Nat.le_of_lt_succ hk)

theorem nodup_preorder (h : Grove child rank) (hk : rank a < k) :
    (preorder child k a).Nodup := by
  induction k generalizing a with
  | zero => exact absurd hk (Nat.not_lt_zero _)
  | succ k ih =>
    have hlt : ∀ c ∈ child a, rank c < k := fun c hc =>
      (h.rank_lt a c hc).trans_le (Nat.le_of_lt_succ hk)
    rw [preorder, nodup_cons]
    constructor
    · rw [mem_flatMap]
      rintro ⟨c, hc, ha⟩
      exact h.not_below_child hc ((h.mem_preorder (hlt c hc)).1 ha)
    · refine nodup_flatMap.2 ⟨fun c hc => ih (hlt c hc), ?_⟩
      refine (h.nodup a).imp_of_mem fun hb hc hne => ?_
      refine disjoint_left.2 fun x hx hx' => hne ?_
      exact h.disjoint hb hc ((h.mem_preorder (hlt _ hb)).1 hx) ((h.mem_preorder (hlt _ hc)).1 hx')

/-- No node comes before its parent. -/
theorem preorder_pairwise (h : Grove child rank) (hk : rank a < k) :
    (preorder child k a).Pairwise fun x y => x ∉ child y := by
  induction k generalizing a with
  | zero => exact absurd hk (Nat.not_lt_zero _)
  | succ k ih =>
    have hlt : ∀ c ∈ child a, rank c < k := fun c hc =>
      (h.rank_lt a c hc).trans_le (Nat.le_of_lt_succ hk)
    have hbelow : ∀ c ∈ child a, ∀ x, x ∈ preorder child k c → Below child c x := fun c hc x =>
      (h.mem_preorder (hlt c hc)).1
    rw [preorder, pairwise_cons]
    constructor
    · intro y hy hay
      obtain ⟨c, hc, hy⟩ := mem_flatMap.1 hy
      exact h.not_below_child hc ((hbelow c hc y hy).trans (below_child hay))
    · refine pairwise_flatMap.2 ⟨fun c hc => ih (hlt c hc), ?_⟩
      refine (h.nodup a).imp_of_mem fun hb hc hne x hx y hy hxy => hne ?_
      exact h.disjoint hb hc (hbelow _ hb x hx) ((hbelow _ hc y hy).trans (below_child hxy))

end Grove

theorem postorder_perm (child : ι → List ι) (k : ℕ) (a : ι) :
    (postorder child k a).Perm (preorder child k a) := by
  induction k generalizing a with
  | zero => exact .refl _
  | succ k ih =>
    rw [postorder, preorder]
    refine perm_append_comm.trans (.cons a ?_)
    exact Perm.flatMap_left _ fun c _ => ih c

theorem Grove.mem_postorder (h : Grove child rank) (hk : rank a < k) :
    x ∈ postorder child k a ↔ Below child a x :=
  (postorder_perm child k a).mem_iff.trans (h.mem_preorder hk)

theorem Grove.nodup_postorder (h : Grove child rank) (hk : rank a < k) :
    (postorder child k a).Nodup :=
  (postorder_perm child k a).nodup_iff.2 (h.nodup_preorder hk)

/-! ## Depths -/

section Depths

variable {parent : ι → Option ι} {d : ι → ℕ} {N : ℕ}

theorem grove_of_depth (h : Filed child parent) (hd : ∀ a p, parent a = some p → d a = d p + 1)
    (hN : ∀ a p, parent a = some p → d a ≤ N) : Grove child fun a => N - d a where
  nodup := h.nodup
  unique _ _ _ := h.eq_of_mem
  rank_lt a c hc := by
    have hp := (h.mem_iff c a).1 hc
    have hle := hN c a hp
    have heq := hd c a hp
    omega

/-- Apart from the root of it, a node is in a tree with its parent. -/
theorem below_iff_of_parent (h : Filed child parent) (hx : x ≠ a) (hp : parent x = some b) :
    Below child a x ↔ Below child a b := by
  have hchild := (h.mem_iff x b).2 hp
  refine ⟨fun hb => ?_, fun hb => hb.trans (below_child hchild)⟩
  rcases Relation.ReflTransGen.cases_tail hb with heq | ⟨y, hy, hxy⟩
  · exact absurd heq hx
  · exact h.eq_of_mem hxy hchild ▸ hy

theorem depth_le_of_below (h : Filed child parent)
    (hd : ∀ a p, parent a = some p → d a = d p + 1) (hb : Below child a x) : d a ≤ d x := by
  induction hb with
  | refl => exact le_rfl
  | tail _ hc ih => exact ih.trans ((hd _ _ ((h.mem_iff _ _).1 hc)).ge.trans' (Nat.le_succ _))

/-- Nodes above a node have all the smaller depths. -/
theorem depth_lt {parent : ℕ → Option ℕ} {d : ℕ → ℕ}
    (hd : ∀ a p, parent a = some p → d a = d p + 1) (hroot : ∀ a, parent a = none → d a = 0)
    (hN : ∀ a p, parent a = some p → p < N) {a : ℕ} (ha : a < N) : d a < N := by
  have hall : ∀ a < N, ∀ k ≤ d a, ∃ b < N, d b = k := by
    intro a ha
    induction hn : d a generalizing a with
    | zero => exact fun k hk => ⟨a, ha, hn.trans (Nat.le_zero.1 hk).symm⟩
    | succ n ih =>
      intro k hk
      rcases Nat.eq_or_lt_of_le hk with rfl | hlt
      · exact ⟨a, ha, hn⟩
      · cases hp : parent a with
        | none =>
          rw [hroot a hp] at hn
          cases hn
        | some p =>
          have hdp : d p = n := by
            have heq := hd a p hp
            omega
          exact ih p (hN a p hp) hdp k (Nat.le_of_lt_succ hlt)
  have hsurj : Set.SurjOn d (Finset.range N) (Finset.range (d a + 1)) := by
    intro k hk
    rw [Finset.mem_coe, Finset.mem_range] at hk
    obtain ⟨b, hb, rfl⟩ := hall a ha k (Nat.le_of_lt_succ hk)
    exact ⟨b, Finset.mem_coe.2 (Finset.mem_range.2 hb), rfl⟩
  have hcard := Finset.card_le_card_of_surjOn d hsurj
  rwa [Finset.card_range, Finset.card_range] at hcard

variable [DecidableEq ι]

/-- A node gets a depth one more than that of its parent. -/
def setDepth (parent : ι → Option ι) (d : ι → ℕ) (x : ι) : ι → ℕ :=
  (parent x).elim d fun p => Function.update d x (d p + 1)

theorem setDepth_of_ne (parent : ι → Option ι) (d : ι → ℕ) (h : y ≠ x) :
    setDepth parent d x y = d y := by
  rw [setDepth]
  cases parent x with
  | none => rfl
  | some p => exact Function.update_of_ne h ..

/-- Along a list with no node before its parent, the depths are one more than those of the
    parents in the end. -/
theorem foldl_setDepth (parent : ι → Option ι) (l : List ι) (hnodup : l.Nodup)
    (hself : ∀ x ∈ l, parent x ≠ some x) (horder : l.Pairwise fun x y => parent x ≠ some y)
    (d : ι → ℕ) :
    (∀ x ∉ l, l.foldl (setDepth parent) d x = d x) ∧
    ∀ x ∈ l, l.foldl (setDepth parent) d x =
      (parent x).elim (d x) fun p => l.foldl (setDepth parent) d p + 1 := by
  induction l generalizing d with
  | nil => exact ⟨fun _ _ => rfl, fun _ hx => absurd hx not_mem_nil⟩
  | cons a l ih =>
    rw [nodup_cons] at hnodup
    rw [pairwise_cons] at horder
    obtain ⟨hout, hin⟩ := ih hnodup.2 (fun x hx => hself x (mem_cons_of_mem a hx)) horder.2
      (setDepth parent d a)
    simp only [foldl_cons]
    refine ⟨fun x hx => ?_, fun x hx => ?_⟩
    · rw [mem_cons, not_or] at hx
      rw [hout x hx.2, setDepth_of_ne parent d hx.1]
    · rcases mem_cons.1 hx with rfl | hx
      · rw [hout x hnodup.1]
        cases hp : parent x with
        | none => rw [setDepth, hp, Option.elim_none, Option.elim_none]
        | some p =>
          -- the depth of the parent does not change any more
          have hpl : p ∉ l := fun hmem => horder.1 p hmem hp
          have hpx : p ≠ x := by
            rintro rfl
            exact hself p mem_cons_self hp
          rw [Option.elim_some, hout p hpl, setDepth_of_ne parent d hpx, setDepth, hp,
            Option.elim_some, Function.update_self]
      · have hxa : x ≠ a := fun heq => hnodup.1 (heq ▸ hx)
        rw [hin x hx, setDepth_of_ne parent d hxa]

end Depths

end Libmpp
