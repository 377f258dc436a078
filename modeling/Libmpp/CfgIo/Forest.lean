import Libmpp.CfgIo.Nodes
import Libmpp.Lib.Machine
import Libmpp.Lib.Walk

/-!
# The trees of a configuration

`Forest` ties the four views of the nodes together: every node is on the child list of its
parent and on no other, an element of an array is a child of it, the depth of a node is one more
than that of its parent, and each node that is gone was released once.

A call keeps this when it is `Orderly`: a node that is added has no parent and is not above the
node it is added to, a node that is put has no children and is no element of an array, and a tree
that is put is put at its root. Such a call never fails (`forest_kept`).

The others are not detected. The children of a node that is put, and the element of its array,
still name it. When a tree is put at a node with a parent, the node is released again from its
parent, whose list it is still on.
-/

namespace Libmpp.CfgIo

open Function List Option

/-! ## Views of the nodes -/

namespace CfgHeap

/-- The child list of a node. -/
def child (h : CfgHeap) (a : ℕ) : List ℕ := ((h.mem.block a).map CfgNode.child).getD []

/-- The node that the parent field of a node names. -/
def parent (h : CfgHeap) (a : ℕ) : Option ℕ := (h.mem.block a).bind CfgNode.parent

/-- The depth field of a node. -/
def depth (h : CfgHeap) (a : ℕ) : ℕ := ((h.mem.block a).map CfgNode.depth).getD 0

/-- The elements of an array. -/
def elems (h : CfgHeap) (a : ℕ) : List (Option ℕ) := ((h.mem.block a).map CfgNode.elems).getD []

/-- The node was not released. -/
def Live (h : CfgHeap) (a : ℕ) : Prop := (h.mem.block a).isSome

/-- The nodes with another one at `a`. -/
def put (h : CfgHeap) (a : ℕ) (nd : CfgNode) : CfgHeap := { h with mem := h.mem.put a nd }

/-- The nodes with other depths. -/
def withDepth (h : CfgHeap) (d : ℕ → ℕ) : CfgHeap where
  mem := {
    next := h.mem.next
    block := fun a => (h.mem.block a).map fun nd => { nd with depth := d a }
    fresh := fun a ha => by rw [h.mem.fresh a ha]; rfl }
  released := h.released

end CfgHeap

/-- A node is on the child list of its parent and on no other, an element of an array is a child of
    it, and each node that is gone was released once. -/
structure Tied (h : CfgHeap) : Prop where
  filed : Filed h.child h.parent
  elems : ∀ a b, some b ∈ h.elems a → b ∈ h.child a
  once : ∀ a, (h.elems a).reduceOption.Nodup
  shape : ∀ a nd, h.mem.block a = some nd → nd.type.isValid ∧ (nd.type ≠ .array → nd.elems = [])
  released : h.released.Nodup
  gone : ∀ a, a ∈ h.released ↔ a < h.mem.next ∧ ¬h.Live a

/-- And the depth of a node is one more than that of its parent. -/
structure Forest (h : CfgHeap) : Prop extends Tied h where
  depth : ∀ a p, h.parent a = some p → h.depth a = h.depth p + 1
  root : ∀ a, h.parent a = none → h.depth a = 0

section Views

variable {h h' : CfgHeap} {a b p : ℕ} {nd : CfgNode}

theorem ext_heap (hnext : h'.mem.next = h.mem.next) (hblock : h'.mem.block = h.mem.block)
    (hreleased : h'.released = h.released) : h' = h := by
  obtain ⟨⟨n, m, hm⟩, r⟩ := h
  obtain ⟨⟨n', m', hm'⟩, r'⟩ := h'
  simp only at hnext hblock hreleased
  subst hnext hblock hreleased
  rfl

theorem live_iff : h.Live a ↔ ∃ nd, h.mem.block a = some nd := isSome_iff_exists

theorem child_eq (ha : h.mem.block a = some nd) : h.child a = nd.child := by
  rw [CfgHeap.child, ha]
  rfl

theorem parent_eq (ha : h.mem.block a = some nd) : h.parent a = nd.parent := by
  rw [CfgHeap.parent, ha]
  rfl

theorem depth_eq (ha : h.mem.block a = some nd) : h.depth a = nd.depth := by
  rw [CfgHeap.depth, ha]
  rfl

theorem elems_eq (ha : h.mem.block a = some nd) : h.elems a = nd.elems := by
  rw [CfgHeap.elems, ha]
  rfl

theorem live_of_parent (hp : h.parent a = some p) : h.Live a := by
  obtain ⟨nd, ha, -⟩ := bind_eq_some_iff.1 hp
  exact live_iff.2 ⟨nd, ha⟩

theorem live_of_child (hb : b ∈ h.child a) : h.Live a := by
  rw [CfgHeap.child] at hb
  cases ha : h.mem.block a with
  | none =>
    rw [ha] at hb
    cases hb
  | some nd => exact live_iff.2 ⟨nd, ha⟩

theorem Tied.live_child (h : Tied h') (hb : b ∈ h'.child a) : h'.Live b :=
  live_of_parent ((h.filed.mem_iff b a).1 hb)

theorem Tied.live_parent (h : Tied h') (hp : h'.parent a = some p) : h'.Live p :=
  live_of_child ((h.filed.mem_iff a p).2 hp)

theorem Tied.live_below (h : Tied h') (ha : h'.Live a) (hb : Below h'.child a b) : h'.Live b := by
  induction hb with
  | refl => exact ha
  | tail _ hc _ => exact h.live_child hc

theorem Forest.depth_lt (h : Forest h') (ha : h'.Live a) : h'.depth a < h'.mem.next :=
  Libmpp.depth_lt h.depth h.root (fun _ _ hp => Memory.lt_next_of_block (h.live_parent hp))
    (Memory.lt_next_of_block ha)

/-- The height of a node above the deepest ones. -/
theorem Forest.grove (h : Forest h') : Grove h'.child fun a => h'.mem.next - h'.depth a :=
  grove_of_depth h.filed h.depth fun _ _ hp => (h.depth_lt (live_of_parent hp)).le

theorem update_eq (ha : h.mem.block a = some nd) (f : CfgNode → CfgNode) :
    h.update a f = some (h.put a (f nd)) := by
  rw [CfgHeap.update, ha]
  rfl

theorem free_eq (ha : h.Live a) :
    h.free a = some { mem := h.mem.drop a, released := h.released ++ [a] } := by
  rw [CfgHeap.free, Memory.free_eq ha]
  rfl

theorem withDepth_self (h : CfgHeap) : h.withDepth h.depth = h := by
  refine ext_heap rfl (funext fun a => ?_) rfl
  cases hnd : h.mem.block a with
  | none => exact congrArg (Option.map _) hnd
  | some nd =>
    refine (congrArg (Option.map _) hnd).trans ?_
    rw [map_some, depth_eq hnd]

theorem block_withDepth (d : ℕ → ℕ) (ha : h.mem.block a = some nd) :
    (h.withDepth d).mem.block a = some { nd with depth := d a } := congrArg (Option.map _) ha

end Views

/-! ## The depths -/

section Depths

variable {h : CfgHeap} {a : ℕ}

theorem updateDepth_withDepth (hpar : ∀ x p, h.parent x = some p → h.Live p) (ha : h.Live a)
    (d : ℕ → ℕ) :
    updateDepth (h.withDepth d) a = some (h.withDepth (setDepth h.parent d a)) := by
  obtain ⟨nd, hnd⟩ := live_iff.1 ha
  have hblock := block_withDepth d hnd
  have hparent := parent_eq hnd
  rw [updateDepth, hblock, bind_eq_bind, bind_some, setDepth, hparent]
  dsimp only
  cases hp : nd.parent with
  | none => rfl
  | some p =>
    obtain ⟨pd, hpd⟩ := live_iff.1 (hpar a p (hparent.trans hp))
    dsimp only
    rw [block_withDepth d hpd, bind_some, update_eq hblock]
    refine congrArg some (ext_heap rfl (funext fun b => ?_) rfl)
    rw [CfgHeap.put]
    dsimp only
    rcases eq_or_ne b a with rfl | hb
    · rw [Memory.block_put_self (isSome_of_eq_some hblock), elim_some,
        block_withDepth _ hnd, update_self]
    · rw [Memory.block_put_of_ne _ hb, elim_some]
      refine congrArg (Option.map · (h.mem.block b)) ?_
      rw [update_of_ne hb]

theorem child_withDepth (d : ℕ → ℕ) (a : ℕ) : (h.withDepth d).child a = h.child a := by
  rw [CfgHeap.child, CfgHeap.child, CfgHeap.withDepth, Option.map_map]
  rfl

/-- The walk sets the depths of a tree, those of the parents first. -/
theorem loopAllChildren_eq {rank : ℕ → ℕ} (hg : Grove h.child rank)
    (hpar : ∀ x p, h.parent x = some p → h.Live p) (hlive : ∀ x c, c ∈ h.child x → h.Live c)
    {k : ℕ} (hk : rank a < k) (ha : h.Live a) (d : ℕ → ℕ) :
    loopAllChildren updateDepth k (h.withDepth d) a =
      some (h.withDepth ((preorder h.child k a).foldl (setDepth h.parent) d)) := by
  induction k generalizing a d with
  | zero => exact absurd hk (Nat.not_lt_zero _)
  | succ k ih =>
    obtain ⟨nd, hnd⟩ := live_iff.1 ha
    -- the loop over some of the children
    have hloop : ∀ l, l ⊆ h.child a → ∀ d,
        l.foldlM (loopAllChildren updateDepth k) (h.withDepth d) =
          some (h.withDepth ((l.flatMap (preorder h.child k)).foldl (setDepth h.parent) d)) := by
      intro l
      induction l with
      | nil => exact fun _ _ => rfl
      | cons c l ihl =>
        intro hsub d
        have hc : c ∈ h.child a := hsub mem_cons_self
        have hrank := (hg.rank_lt a c hc).trans_le (Nat.le_of_lt_succ hk)
        rw [foldlM_cons, ih hrank (hlive a c hc), bind_eq_bind, bind_some,
          ihl fun x hx => hsub (mem_cons_of_mem c hx)]
        rw [flatMap_cons, foldl_append]
    rw [loopAllChildren, updateDepth_withDepth hpar ha, bind_eq_bind, bind_some,
      block_withDepth _ hnd, bind_eq_bind, bind_some, preorder, foldl_cons,
      child_eq hnd]
    exact hloop nd.child (child_eq hnd ▸ List.Subset.refl _) _

theorem parent_withDepth (d : ℕ → ℕ) (a : ℕ) : (h.withDepth d).parent a = h.parent a := by
  rw [CfgHeap.parent, CfgHeap.parent, CfgHeap.withDepth]
  dsimp only
  rw [bind_map]
  rfl

theorem depth_withDepth (d : ℕ → ℕ) (ha : h.Live a) : (h.withDepth d).depth a = d a := by
  obtain ⟨nd, hnd⟩ := live_iff.1 ha
  exact depth_eq (block_withDepth d hnd)

theorem depth_of_not_live (ha : ¬h.Live a) : h.depth a = 0 := by
  rw [CfgHeap.depth, not_isSome_iff_eq_none.1 ha]
  rfl

theorem elems_withDepth (d : ℕ → ℕ) (a : ℕ) : (h.withDepth d).elems a = h.elems a := by
  rw [CfgHeap.elems, CfgHeap.elems, CfgHeap.withDepth, Option.map_map]
  rfl

theorem live_withDepth (d : ℕ → ℕ) (a : ℕ) : (h.withDepth d).Live a ↔ h.Live a := by
  rw [CfgHeap.Live, CfgHeap.Live, CfgHeap.withDepth, isSome_map]

theorem Tied.withDepth (ht : Tied h) (d : ℕ → ℕ) : Tied (h.withDepth d) where
  filed := by
    rw [funext (child_withDepth d), funext (parent_withDepth d)]
    exact ht.filed
  elems a b := by
    rw [elems_withDepth, child_withDepth]
    exact ht.elems a b
  once a := by
    rw [elems_withDepth]
    exact ht.once a
  shape a nd hnd := by
    obtain ⟨nd', hnd', rfl⟩ := map_eq_some_iff.1 hnd
    exact ht.shape a nd' hnd'
  released := ht.released
  gone a := by
    rw [live_withDepth]
    exact ht.gone a

/-- The walk from `a` puts the depths right, when those outside of its tree are right. -/
theorem Tied.loopAllChildren (ht : Tied h) (ha : h.Live a) {d : ℕ → ℕ}
    (hd : ∀ x p, h.parent x = some p → d x = d p + 1) (hd0 : ∀ x, h.parent x = none → d x = 0)
    (hout : ∀ x p, ¬Below h.child a x → h.parent x = some p → h.depth x = h.depth p + 1)
    (hroot : ∀ x, h.parent x = none → h.depth x = 0) :
    ∃ d', loopAllChildren updateDepth (h.mem.next + 1) h a = some (h.withDepth d') ∧
      Forest (h.withDepth d') := by
  have hlt : ∀ x, h.Live x → d x < h.mem.next := fun x hx =>
    depth_lt hd hd0 (fun _ _ hp => Memory.lt_next_of_block (ht.live_parent hp))
      (Memory.lt_next_of_block hx)
  have hg : Grove h.child fun x => h.mem.next - d x :=
    grove_of_depth ht.filed hd fun x p hp => (hlt x (live_of_parent hp)).le
  have hk : h.mem.next - d a < h.mem.next + 1 := by omega
  have hwalk := loopAllChildren_eq hg (fun _ _ => ht.live_parent) (fun _ _ => ht.live_child) hk ha
    h.depth
  rw [withDepth_self] at hwalk
  have hmem : ∀ x, x ∈ preorder h.child (h.mem.next + 1) a ↔ Below h.child a x := fun x =>
    hg.mem_preorder hk
  have hself : ∀ x ∈ preorder h.child (h.mem.next + 1) a, h.parent x ≠ some x := fun x _ hx =>
    hg.not_below_child ((ht.filed.mem_iff x x).2 hx) (below_refl _ x)
  have horder : (preorder h.child (h.mem.next + 1) a).Pairwise fun x y => h.parent x ≠ some y :=
    (hg.preorder_pairwise hk).imp fun {x y} hxy hp => hxy ((ht.filed.mem_iff x y).2 hp)
  obtain ⟨hstay, hset⟩ := foldl_setDepth h.parent _ (hg.nodup_preorder hk) hself horder h.depth
  refine ⟨_, hwalk, { ht.withDepth _ with depth := fun x p hp => ?_, root := fun x hp => ?_ }⟩
  · rw [parent_withDepth] at hp
    rw [depth_withDepth _ (live_of_parent hp), depth_withDepth _ (ht.live_parent hp)]
    by_cases hx : Below h.child a x
    · rw [hset x ((hmem x).2 hx), hp, elim_some]
    · -- the parent is outside too
      have hpx : ¬Below h.child a p := fun hb =>
        hx (hb.trans (below_child ((ht.filed.mem_iff x p).2 hp)))
      rw [hstay x fun hin => hx ((hmem x).1 hin), hstay p fun hin => hpx ((hmem p).1 hin)]
      exact hout x p hx hp
  · rw [parent_withDepth] at hp
    by_cases hlive : h.Live x
    · rw [depth_withDepth _ hlive]
      by_cases hx : Below h.child a x
      · rw [hset x ((hmem x).2 hx), hp, elim_none]
        exact hroot x hp
      · rw [hstay x fun hin => hx ((hmem x).1 hin)]
        exact hroot x hp
    · exact depth_of_not_live fun hx => hlive ((live_withDepth _ x).1 hx)

end Depths

/-! ## Links -/

section Links

variable {h : CfgHeap} {a b : ℕ} {nd : CfgNode}

theorem block_put (ha : h.Live a) (nd : CfgNode) :
    (h.put a nd).mem.block = update h.mem.block a (some nd) := by
  funext b
  rcases eq_or_ne b a with rfl | hb
  · rw [update_self]
    exact Memory.block_put_self ha nd
  · rw [update_of_ne hb]
    exact Memory.block_put_of_ne _ hb nd

theorem child_put (ha : h.Live a) (nd : CfgNode) :
    (h.put a nd).child = update h.child a nd.child := by
  have hcomp := Function.comp_update (fun o : Option CfgNode => (o.map CfgNode.child).getD [])
    h.mem.block a (some nd)
  rw [← block_put ha] at hcomp
  exact hcomp

theorem parent_put (ha : h.Live a) (nd : CfgNode) :
    (h.put a nd).parent = update h.parent a nd.parent := by
  have hcomp := Function.comp_update (fun o : Option CfgNode => o.bind CfgNode.parent)
    h.mem.block a (some nd)
  rw [← block_put ha] at hcomp
  exact hcomp

theorem depth_put (ha : h.Live a) (nd : CfgNode) :
    (h.put a nd).depth = update h.depth a nd.depth := by
  have hcomp := Function.comp_update (fun o : Option CfgNode => (o.map CfgNode.depth).getD 0)
    h.mem.block a (some nd)
  rw [← block_put ha] at hcomp
  exact hcomp

theorem elems_put (ha : h.Live a) (nd : CfgNode) :
    (h.put a nd).elems = update h.elems a nd.elems := by
  have hcomp := Function.comp_update (fun o : Option CfgNode => (o.map CfgNode.elems).getD [])
    h.mem.block a (some nd)
  rw [← block_put ha] at hcomp
  exact hcomp

theorem live_put (ha : h.Live a) (nd : CfgNode) : (h.put a nd).Live b ↔ h.Live b := by
  rw [CfgHeap.Live, block_put ha]
  rcases eq_or_ne b a with rfl | hb
  · rw [update_self]
    exact iff_of_true rfl ha
  · rw [update_of_ne hb]
    rfl

/-- A node gets another depth or other elements. -/
theorem Tied.put (ht : Tied h) (ha : h.mem.block a = some nd) {nd' : CfgNode}
    (hparent : nd'.parent = nd.parent) (hchild : nd'.child = nd.child)
    (htype : nd'.type = nd.type) (hshape : nd'.type ≠ .array → nd'.elems = [])
    (helems : ∀ b, some b ∈ nd'.elems → b ∈ nd.child) (honce : nd'.elems.reduceOption.Nodup) :
    Tied (h.put a nd') := by
  have hlive : h.Live a := live_iff.2 ⟨nd, ha⟩
  have hsame : (h.put a nd').child = h.child ∧ (h.put a nd').parent = h.parent := by
    rw [child_put hlive, parent_put hlive, hchild, hparent, ← child_eq ha, ← parent_eq ha]
    exact ⟨update_eq_self .., update_eq_self ..⟩
  refine ⟨?_, fun b c hc => ?_, fun b => ?_, fun b x hx => ?_, ht.released, fun b => ?_⟩
  · rw [hsame.1, hsame.2]
    exact ht.filed
  · rw [hsame.1]
    rw [elems_put hlive] at hc
    rcases eq_or_ne b a with rfl | hb
    · rw [update_self] at hc
      rw [child_eq ha]
      exact helems c hc
    · rw [update_of_ne hb] at hc
      exact ht.elems b c hc
  · rw [elems_put hlive]
    rcases eq_or_ne b a with rfl | hb
    · rw [update_self]
      exact honce
    · rw [update_of_ne hb]
      exact ht.once b
  · rw [block_put hlive] at hx
    rcases eq_or_ne b a with rfl | hb
    · rw [update_self] at hx
      obtain rfl := some.inj hx
      exact ⟨htype ▸ (ht.shape b nd ha).1, hshape⟩
    · rw [update_of_ne hb] at hx
      exact ht.shape b x hx
  · rw [live_put hlive]
    exact ht.gone b

theorem child_listDelInit (h : CfgHeap) (a : ℕ) : (h.listDelInit a).child = unfile a h.child := by
  funext b
  rw [CfgHeap.child, CfgHeap.listDelInit, unfile, CfgHeap.child]
  dsimp only
  cases h.mem.block b <;> rfl

theorem parent_listDelInit (h : CfgHeap) (a : ℕ) : (h.listDelInit a).parent = h.parent := by
  funext b
  rw [CfgHeap.parent, CfgHeap.listDelInit, CfgHeap.parent]
  dsimp only
  cases h.mem.block b <;> rfl

theorem depth_listDelInit (h : CfgHeap) (a : ℕ) : (h.listDelInit a).depth = h.depth := by
  funext b
  rw [CfgHeap.depth, CfgHeap.listDelInit, CfgHeap.depth]
  dsimp only
  cases h.mem.block b <;> rfl

theorem elems_listDelInit (h : CfgHeap) (a : ℕ) : (h.listDelInit a).elems = h.elems := by
  funext b
  rw [CfgHeap.elems, CfgHeap.listDelInit, CfgHeap.elems]
  dsimp only
  cases h.mem.block b <;> rfl

theorem live_listDelInit (h : CfgHeap) (a b : ℕ) : (h.listDelInit a).Live b ↔ h.Live b := by
  rw [CfgHeap.Live, CfgHeap.Live, CfgHeap.listDelInit, isSome_map]

/-- A node without a parent is on no list, and goes to the end of one. -/
theorem Tied.listAddTail (ht : Tied h) (hp : h.parent a = none) (hb : h.mem.block b = some nd) :
    h.listAddTail a b = some (h.put b { nd with child := nd.child ++ [a] }) := by
  have hlinked : ¬h.linked a := by
    intro hl
    obtain ⟨c, -, hc⟩ := any_eq_true.1 hl
    obtain ⟨x, hx, hmem⟩ := (any_eq_true _ _).1 hc
    have hmem' : a ∈ h.child c := by
      rw [child_eq hx]
      exact of_decide_eq_true hmem
    rw [ht.filed.mem_iff, hp] at hmem'
    cases hmem'
  rw [CfgHeap.listAddTail, if_neg hlinked, update_eq hb]

theorem Forest.put (hf : Forest h) (ha : h.mem.block a = some nd) {nd' : CfgNode}
    (hparent : nd'.parent = nd.parent) (hchild : nd'.child = nd.child)
    (htype : nd'.type = nd.type) (hdepth : nd'.depth = nd.depth)
    (hshape : nd'.type ≠ .array → nd'.elems = [])
    (helems : ∀ b, some b ∈ nd'.elems → b ∈ nd.child) (honce : nd'.elems.reduceOption.Nodup) :
    Forest (h.put a nd') := by
  have hlive : h.Live a := live_iff.2 ⟨nd, ha⟩
  have hsame : (h.put a nd').parent = h.parent ∧ (h.put a nd').depth = h.depth := by
    rw [parent_put hlive, depth_put hlive, hparent, hdepth, ← parent_eq ha, ← depth_eq ha]
    exact ⟨update_eq_self .., update_eq_self ..⟩
  refine { hf.toTied.put ha hparent hchild htype hshape helems honce with
    depth := ?_
    root := ?_ }
  · rw [hsame.1, hsame.2]
    exact hf.depth
  · rw [hsame.1, hsame.2]
    exact hf.root

end Links

/-! ## Elements -/

section Elements

variable {a b : ℕ} {l : List (Option ℕ)}

theorem mem_fillElem (hb : some b ∈ fillElem a l) : b = a ∨ some b ∈ l := by
  induction l with
  | nil => exact absurd hb not_mem_nil
  | cons e l ih =>
    cases e with
    | none =>
      rcases mem_cons.1 hb with heq | hb
      · exact .inl (some.inj heq)
      · exact .inr (mem_cons_of_mem _ hb)
    | some c =>
      rcases mem_cons.1 hb with heq | hb
      · exact .inr (heq ▸ mem_cons_self)
      · exact (ih hb).imp id (mem_cons_of_mem _)

theorem nodup_fillElem (hl : l.reduceOption.Nodup) (ha : some a ∉ l) :
    (fillElem a l).reduceOption.Nodup := by
  induction l with
  | nil => exact hl
  | cons e l ih =>
    rw [mem_cons, not_or] at ha
    cases e with
    | none =>
      rw [reduceOption_cons_of_none] at hl
      rw [fillElem, reduceOption_cons_of_some, nodup_cons, reduceOption_mem_iff]
      exact ⟨ha.2, hl⟩
    | some c =>
      rw [reduceOption_cons_of_some, nodup_cons, reduceOption_mem_iff] at hl
      rw [fillElem, reduceOption_cons_of_some, nodup_cons, reduceOption_mem_iff]
      refine ⟨fun hc => ?_, ih hl.2 ha.2⟩
      rcases mem_fillElem hc with rfl | hc
      · exact ha.1 rfl
      · exact hl.1 hc

theorem clearElem_sublist (a : ℕ) (l : List (Option ℕ)) :
    (clearElem a l).reduceOption.Sublist l.reduceOption := by
  induction l with
  | nil => exact .refl _
  | cons e l ih =>
    rw [clearElem]
    split_ifs with he
    · rw [he, reduceOption_cons_of_none, reduceOption_cons_of_some]
      exact sublist_cons_self _ _
    · cases e with
      | none =>
        rw [reduceOption_cons_of_none, reduceOption_cons_of_none]
        exact ih
      | some c =>
        rw [reduceOption_cons_of_some, reduceOption_cons_of_some]
        exact ih.cons_cons c

theorem mem_clearElem (hl : l.reduceOption.Nodup) (hb : some b ∈ clearElem a l) :
    b ≠ a ∧ some b ∈ l := by
  refine ⟨?_, reduceOption_mem_iff.1 ((clearElem_sublist a l).subset
    (reduceOption_mem_iff.2 hb))⟩
  rintro rfl
  induction l with
  | nil => exact absurd hb not_mem_nil
  | cons e l ih =>
    rw [clearElem] at hb
    split_ifs at hb with he
    · rw [he, reduceOption_cons_of_some, nodup_cons, reduceOption_mem_iff] at hl
      rcases mem_cons.1 hb with heq | hb
      · cases heq
      · exact hl.1 hb
    · rcases mem_cons.1 hb with heq | hb
      · exact he heq.symm
      · refine ih ?_ hb
        cases e with
        | none => rwa [reduceOption_cons_of_none] at hl
        | some c =>
          rw [reduceOption_cons_of_some, nodup_cons] at hl
          exact hl.2

end Elements

/-! ## The calls -/

section Calls

variable {h : CfgHeap} {a root leaf : ℕ}

/-- The same nodes, with other child lists and parents. -/
structure Relinked (h h' : CfgHeap) (child : ℕ → List ℕ) (parent : ℕ → Option ℕ) : Prop where
  child : h'.child = child
  parent : h'.parent = parent
  next : h'.mem.next = h.mem.next
  released : h'.released = h.released
  live : ∀ b, h'.Live b ↔ h.Live b
  shape : ∀ b nd, h'.mem.block b = some nd → ∃ nd', h.mem.block b = some nd' ∧
    nd.type = nd'.type ∧ (nd'.elems = [] → nd.elems = [])

theorem Relinked.tied {h' : CfgHeap} {child : ℕ → List ℕ} {parent : ℕ → Option ℕ}
    (hr : Relinked h h' child parent) (ht : Tied h) (hfiled : Filed child parent)
    (helems : ∀ a b, some b ∈ h'.elems a → b ∈ child a)
    (honce : ∀ a, (h'.elems a).reduceOption.Nodup) : Tied h' where
  filed := by
    rw [hr.child, hr.parent]
    exact hfiled
  elems := by
    rw [hr.child]
    exact helems
  once := honce
  shape b nd hnd := by
    obtain ⟨nd', hnd', htype, hempty⟩ := hr.shape b nd hnd
    obtain ⟨hvalid, harray⟩ := ht.shape b nd' hnd'
    rw [htype]
    exact ⟨hvalid, fun hne => hempty (harray hne)⟩
  released := by
    rw [hr.released]
    exact ht.released
  gone b := by
    rw [hr.released, hr.next, hr.live]
    exact ht.gone b

/-- `leaf` is linked to `root`, with its depth as it was. -/
theorem relinked_add {r l : CfgNode} (hr : h.mem.block root = some r)
    (hl : h.mem.block leaf = some l) (hne : leaf ≠ root) :
    Relinked h ((h.put root { r with child := r.child ++ [leaf] }).put leaf
      { l with parent := some root }) (file leaf root h.child)
      (update h.parent leaf (some root)) ∧
    ((h.put root { r with child := r.child ++ [leaf] }).put leaf
      { l with parent := some root }).elems = h.elems ∧
    ((h.put root { r with child := r.child ++ [leaf] }).put leaf
      { l with parent := some root }).depth = h.depth := by
  have hroot : h.Live root := live_iff.2 ⟨r, hr⟩
  have hleaf : h.Live leaf := live_iff.2 ⟨l, hl⟩
  have hleaf' : (h.put root { r with child := r.child ++ [leaf] }).Live leaf :=
    (live_put hroot _).2 hleaf
  refine ⟨⟨?_, ?_, rfl, rfl, fun b => ?_, fun b nd hnd => ?_⟩, ?_, ?_⟩
  · funext b
    rw [child_put hleaf', child_put hroot, file, ← child_eq hl, ← child_eq hr]
    rcases eq_or_ne b leaf with rfl | hb
    · rw [update_self, if_neg hne]
    · rw [update_of_ne hb, update_apply]
  · rw [parent_put hleaf', parent_put hroot, ← parent_eq hr, update_eq_self]
  · rw [live_put hleaf', live_put hroot]
  · rw [block_put hleaf', block_put hroot, update_apply, update_apply] at hnd
    split_ifs at hnd with hbl hbr
    · obtain rfl := some.inj hnd
      exact ⟨l, hbl ▸ hl, rfl, id⟩
    · obtain rfl := some.inj hnd
      exact ⟨r, hbr ▸ hr, rfl, id⟩
    · exact ⟨nd, hnd, rfl, id⟩
  · rw [elems_put hleaf', elems_put hroot, ← elems_eq hr, update_eq_self, ← elems_eq hl,
      update_eq_self]
  · rw [depth_put hleaf', depth_put hroot, ← depth_eq hr, update_eq_self, ← depth_eq hl,
      update_eq_self]

/-- Below the leaf, the depths are more by that of the root and one. -/
theorem Forest.depth_add (hf : Forest h) (hp : h.parent leaf = none)
    (hout : ¬Below h.child leaf root) : ∃ d : ℕ → ℕ,
    (∀ x p, update h.parent leaf (some root) x = some p → d x = d p + 1) ∧
    ∀ x, update h.parent leaf (some root) x = none → d x = 0 := by
  classical
  refine ⟨fun x => if Below h.child leaf x then h.depth x + h.depth root + 1 else h.depth x,
    fun x p hx => ?_, fun x hx => ?_⟩ <;> dsimp only
  · rw [update_apply] at hx
    split_ifs at hx with heq
    · obtain rfl := some.inj hx
      rw [if_pos (heq ▸ below_refl h.child x), if_neg hout, heq, hf.root leaf hp]
      omega
    · have hdepth := hf.depth x p hx
      have hbelow := below_iff_of_parent hf.filed heq hx
      by_cases hb : Below h.child leaf x
      · rw [if_pos hb, if_pos (hbelow.1 hb)]
        omega
      · rw [if_neg hb, if_neg fun hb' => hb (hbelow.2 hb')]
        exact hdepth
  · rw [update_apply] at hx
    split_ifs at hx with heq
    have hb : ¬Below h.child leaf x := fun hb => by
      rcases Relation.ReflTransGen.cases_tail hb with rfl | ⟨y, -, hxy⟩
      · exact heq rfl
      · rw [hf.filed.mem_iff, hx] at hxy
        cases hxy
    rw [if_neg hb, hf.root x hx]

/-- A child is put in the first empty element of its parent, when that is an array. -/
theorem Forest.fill (hf : Forest h) (hleaf : leaf ∈ h.child root)
    (hnot : some leaf ∉ h.elems root) : ∃ h', h.update root (fun r =>
      if r.type = .array then { r with elems := fillElem leaf r.elems } else r) = some h' ∧
      Forest h' := by
  obtain ⟨r, hr⟩ := live_iff.1 (live_of_child hleaf)
  refine ⟨_, update_eq hr _, ?_⟩
  have helems : ∀ b, some b ∈ r.elems → b ∈ r.child := fun b hb => by
    rw [← child_eq hr]
    exact hf.elems root b (elems_eq hr ▸ hb)
  have honce : r.elems.reduceOption.Nodup := elems_eq hr ▸ hf.once root
  rw [child_eq hr] at hleaf
  rw [elems_eq hr] at hnot
  by_cases harray : r.type = .array
  · rw [if_pos harray]
    refine hf.put hr rfl rfl rfl rfl (fun hne => absurd harray hne) (fun b hb => ?_)
      (nodup_fillElem honce hnot)
    rcases mem_fillElem hb with rfl | hb
    · exact hleaf
    · exact helems b hb
  · rw [if_neg harray]
    exact hf.put hr rfl rfl rfl rfl (hf.shape root r hr).2 helems honce

/-- A tree without a parent is added to a node outside of it. -/
theorem Forest.add (hf : Forest h) (hroot : h.Live root) (hleaf : h.Live leaf)
    (hp : h.parent leaf = none) (hout : ¬Below h.child leaf root) :
    ∃ h', mppCfgAdd h root leaf = some h' ∧ Forest h' := by
  obtain ⟨r, hr⟩ := live_iff.1 hroot
  obtain ⟨l, hl⟩ := live_iff.1 hleaf
  have hne : leaf ≠ root := by
    rintro rfl
    exact hout (below_refl _ _)
  obtain ⟨hlink, helems, hdepth⟩ := relinked_add hr hl hne
  obtain ⟨d, hd, hd0⟩ := hf.depth_add hp hout
  have hl' : (h.put root { r with child := r.child ++ [leaf] }).mem.block leaf = some l := by
    rw [block_put hroot, update_of_ne hne]
    exact hl
  rw [mppCfgAdd, hr, bind_eq_bind, bind_some, if_pos (hf.shape root r hr).1,
    hf.listAddTail hp hr, bind_eq_bind, bind_some, update_eq hl', bind_some]
  generalize (h.put root { r with child := r.child ++ [leaf] }).put leaf
    { l with parent := some root } = h₂ at hlink helems hdepth ⊢
  have hmem : ∀ a b, b ∈ h.child a → b ∈ file leaf root h.child a := fun a b hb => by
    rw [file]
    split_ifs with ha
    · exact mem_append_left _ (ha ▸ hb)
    · exact hb
  have ht : Tied h₂ := hlink.tied hf.toTied (hf.filed.file hp root)
    (fun a b hb => hmem a b (hf.elems a b (helems ▸ hb))) fun a => helems ▸ hf.once a
  have hparent : ∀ x, x ≠ leaf → h₂.parent x = h.parent x := fun x hx => by
    rw [hlink.parent, update_of_ne hx]
  have hleafRoot : leaf ∈ h₂.child root := by
    rw [hlink.child, file, if_pos rfl]
    exact mem_append_right _ (mem_singleton_self leaf)
  have hstay : ∀ x p, ¬Below h₂.child root x → h₂.parent x = some p →
      h₂.depth x = h₂.depth p + 1 := fun x p hx hxp => by
    have hne' : x ≠ leaf := by
      rintro rfl
      exact hx (below_child hleafRoot)
    rw [hdepth]
    exact hf.depth x p (hparent x hne' ▸ hxp)
  have hroot₀ : ∀ x, h₂.parent x = none → h₂.depth x = 0 := fun x hx => by
    rw [hdepth]
    rcases eq_or_ne x leaf with rfl | hne'
    · rw [hlink.parent, update_self] at hx
      cases hx
    · exact hf.root x (hparent x hne' ▸ hx)
  obtain ⟨d', hloop, hf'⟩ := ht.loopAllChildren ((hlink.live root).2 hroot) (hlink.parent ▸ hd)
    (hlink.parent ▸ hd0) hstay hroot₀
  rw [hloop, bind_some]
  refine hf'.fill ?_ ?_
  · rw [child_withDepth]
    exact hleafRoot
  · rw [elems_withDepth, helems]
    intro hin
    have hchild := hf.elems root leaf hin
    rw [hf.filed.mem_iff, hp] at hchild
    cases hchild

theorem block_listDelInit (b : ℕ) {nd : CfgNode} (ha : h.mem.block a = some nd) :
    (h.listDelInit b).mem.block a = some { nd with child := nd.child.erase b } :=
  congrArg (Option.map _) ha

/-- The parent forgets an element of it. -/
def CfgNode.without (r : CfgNode) (a : ℕ) : CfgNode :=
  if r.type = .array then { r with elems := clearElem a r.elems } else r

/-- A node is taken from its parent. -/
def CfgHeap.detached (h : CfgHeap) (a p : ℕ) (nd r : CfgNode) : CfgHeap :=
  ((h.listDelInit a).put p (CfgNode.without { r with child := r.child.erase a } a)).put a
    { nd with child := nd.child.erase a, parent := none, depth := 0 }

theorem mppCfgDel_eq {p : ℕ} {nd r : CfgNode} (ha : h.mem.block a = some nd)
    (hp : nd.parent = some p) (hr : h.mem.block p = some r) (hne : a ≠ p) :
    mppCfgDel h a = loopAllChildren updateDepth (h.mem.next + 1) (h.detached a p nd r) a := by
  have hblock := block_listDelInit a ha
  have hlive : (h.listDelInit a).Live p := (live_listDelInit h a p).2 (live_iff.2 ⟨r, hr⟩)
  have hput : ((h.listDelInit a).put p (CfgNode.without { r with child := r.child.erase a } a)
      ).mem.block a = some { nd with child := nd.child.erase a } := by
    rw [block_put hlive, update_of_ne hne]
    exact hblock
  rw [mppCfgDel, ha, bind_eq_bind, bind_some]
  dsimp only
  rw [hp]
  dsimp only
  rw [update_eq (block_listDelInit a hr), bind_eq_bind, bind_some]
  exact congrArg (·.bind fun h => loopAllChildren updateDepth (h.mem.next + 1) h a)
    (update_eq hput _)

theorem relinked_del {p : ℕ} {nd r : CfgNode} (ha : h.mem.block a = some nd)
    (hr : h.mem.block p = some r) (hne : a ≠ p) :
    Relinked h (h.detached a p nd r) (unfile a h.child) (update h.parent a none) ∧
    (h.detached a p nd r).elems = update h.elems p (r.without a).elems ∧
    (h.detached a p nd r).depth = update h.depth a 0 := by
  have hlivep : (h.listDelInit a).Live p := (live_listDelInit h a p).2 (live_iff.2 ⟨r, hr⟩)
  have hlivea : ((h.listDelInit a).put p (CfgNode.without { r with child := r.child.erase a } a)
      ).Live a := (live_put hlivep _).2 ((live_listDelInit h a a).2 (live_iff.2 ⟨nd, ha⟩))
  have hwithout : ∀ r : CfgNode, (r.without a).child = r.child ∧ (r.without a).parent = r.parent ∧
      (r.without a).depth = r.depth ∧ (r.without a).type = r.type := fun r => by
    rw [CfgNode.without]
    split_ifs <;> exact ⟨rfl, rfl, rfl, rfl⟩
  have helems : (CfgNode.without { r with child := r.child.erase a } a).elems =
      (r.without a).elems := by
    rw [CfgNode.without, CfgNode.without]
    split_ifs <;> rfl
  obtain ⟨hc, hp, hd, ht⟩ := hwithout { r with child := r.child.erase a }
  rw [CfgHeap.detached]
  refine ⟨⟨?_, ?_, rfl, rfl, fun b => ?_, fun b x hx => ?_⟩, ?_, ?_⟩
  · have hself : ∀ b y, h.mem.block b = some y → y.child.erase a = unfile a h.child b :=
      fun b y hy => by rw [unfile, child_eq hy]
    rw [child_put hlivea, child_put hlivep, child_listDelInit, hc]
    dsimp only
    rw [hself p r hr, update_eq_self, hself a nd ha, update_eq_self]
  · rw [parent_put hlivea, parent_put hlivep, parent_listDelInit, hp, ← parent_eq hr,
      update_eq_self]
  · rw [live_put hlivea, live_put hlivep, live_listDelInit]
  · rw [block_put hlivea, block_put hlivep, update_apply, update_apply] at hx
    split_ifs at hx with hba hbp
    · obtain rfl := some.inj hx
      exact ⟨nd, hba ▸ ha, rfl, id⟩
    · obtain rfl := some.inj hx
      refine ⟨r, hbp ▸ hr, ht, fun hempty => ?_⟩
      rw [helems, CfgNode.without]
      split_ifs
      · rw [hempty]
        rfl
      · exact hempty
    · obtain ⟨y, hy, rfl⟩ := map_eq_some_iff.1 hx
      exact ⟨y, hy, rfl, id⟩
  · rw [elems_put hlivea, elems_put hlivep, elems_listDelInit, helems]
    refine update_eq_self_iff.2 ?_
    rw [update_of_ne hne, elems_eq ha]
  · rw [depth_put hlivea, depth_put hlivep, depth_listDelInit, hd, ← depth_eq hr,
      update_eq_self]

theorem below_of_unfile {x : ℕ} {child : ℕ → List ℕ} (hb : Below (unfile a child) a x) :
    Below child a x :=
  Relation.ReflTransGen.mono (fun _ _ hc => mem_of_mem_erase hc) _ _ hb

/-- Below a node that is taken from its parent, the depths are less by its own. -/
theorem Forest.depth_del (hf : Forest h) : ∃ d : ℕ → ℕ,
    (∀ x p, update h.parent a none x = some p → d x = d p + 1) ∧
    ∀ x, update h.parent a none x = none → d x = 0 := by
  classical
  refine ⟨fun x => if Below (unfile a h.child) a x then h.depth x - h.depth a else h.depth x,
    fun x p hx => ?_, fun x hx => ?_⟩ <;> dsimp only
  · have hne : x ≠ a := by
      rintro rfl
      rw [update_self] at hx
      cases hx
    have hbelow := below_iff_of_parent (hf.filed.unfile a) hne hx
    rw [update_of_ne hne] at hx
    have hdepth := hf.depth x p hx
    by_cases hb : Below (unfile a h.child) a p
    · have hle := depth_le_of_below hf.filed hf.depth (below_of_unfile hb)
      rw [if_pos (hbelow.2 hb), if_pos hb]
      omega
    · rw [if_neg fun hb' => hb (hbelow.1 hb'), if_neg hb]
      exact hdepth
  · rcases eq_or_ne x a with rfl | hne
    · rw [if_pos (below_refl _ x), Nat.sub_self]
    · rw [update_of_ne hne] at hx
      rw [hf.root x hx, Nat.zero_sub, ite_self]

/-- A node is taken from its parent, with all below it. -/
theorem Forest.del (hf : Forest h) (ha : h.Live a) :
    ∃ h', mppCfgDel h a = some h' ∧ Forest h' := by
  obtain ⟨nd, hnd⟩ := live_iff.1 ha
  cases hp : nd.parent with
  | none =>
    refine ⟨h, ?_, hf⟩
    rw [mppCfgDel, hnd, bind_eq_bind, bind_some]
    dsimp only
    rw [hp]
  | some p =>
    have hpar : h.parent a = some p := (parent_eq hnd).trans hp
    obtain ⟨r, hr⟩ := live_iff.1 (hf.live_parent hpar)
    have hne : a ≠ p := by
      rintro rfl
      have hdepth := hf.depth a a hpar
      omega
    obtain ⟨hlink, helems, hdepth⟩ := relinked_del hnd hr hne
    obtain ⟨d, hd, hd0⟩ := hf.depth_del (a := a)
    rw [mppCfgDel_eq hnd hp hr hne]
    generalize h.detached a p nd r = h₃ at hlink helems hdepth ⊢
    have hwithout : (r.without a).elems = clearElem a r.elems := by
      rw [CfgNode.without]
      split_ifs with harray
      · rfl
      · rw [(hf.shape p r hr).2 harray]
        rfl
    have honce : r.elems.reduceOption.Nodup := elems_eq hr ▸ hf.once p
    have hin : ∀ b c, some c ∈ h₃.elems b → c ≠ a ∧ some c ∈ h.elems b := fun b c hc => by
      rw [helems, hwithout] at hc
      rcases eq_or_ne b p with rfl | hb
      · rw [update_self] at hc
        rw [elems_eq hr]
        exact mem_clearElem honce hc
      · rw [update_of_ne hb] at hc
        refine ⟨?_, hc⟩
        rintro rfl
        exact hb (hf.filed.eq_of_mem (hf.elems b c hc) ((hf.filed.mem_iff c p).2 hpar))
    have honce' : ∀ b, (h₃.elems b).reduceOption.Nodup := fun b => by
      rw [helems, hwithout]
      rcases eq_or_ne b p with rfl | hb
      · rw [update_self]
        exact honce.sublist (clearElem_sublist a r.elems)
      · rw [update_of_ne hb]
        exact hf.once b
    have ht : Tied h₃ := hlink.tied hf.toTied (hf.filed.unfile a) (fun b c hc =>
      (mem_erase_of_ne (hin b c hc).1).2 (hf.elems b c (hin b c hc).2)) honce'
    have hother : ∀ x, x ≠ a → h₃.parent x = h.parent x ∧ h₃.depth x = h.depth x := fun x hx => by
      rw [hlink.parent, hdepth, update_of_ne hx, update_of_ne hx]
      exact ⟨rfl, rfl⟩
    have hself : h₃.parent a = none ∧ h₃.depth a = 0 := by
      rw [hlink.parent, hdepth, update_self, update_self]
      exact ⟨rfl, rfl⟩
    have hstay : ∀ x p, ¬Below h₃.child a x → h₃.parent x = some p →
        h₃.depth x = h₃.depth p + 1 := fun x q hx hxq => by
      have hxa : x ≠ a := by
        rintro rfl
        exact hx (below_refl _ x)
      have hqa : q ≠ a := by
        rintro rfl
        exact hx (below_child ((ht.filed.mem_iff x q).2 hxq))
      rw [(hother x hxa).2, (hother q hqa).2]
      exact hf.depth x q ((hother x hxa).1 ▸ hxq)
    have hroot : ∀ x, h₃.parent x = none → h₃.depth x = 0 := fun x hx => by
      rcases eq_or_ne x a with rfl | hxa
      · exact hself.2
      · rw [(hother x hxa).2]
        exact hf.root x ((hother x hxa).1 ▸ hx)
    rw [← hlink.parent] at hd hd0
    obtain ⟨d', hloop, hf'⟩ := ht.loopAllChildren ((hlink.live a).2 ha) hd hd0 hstay hroot
    rw [hlink.next] at hloop
    exact ⟨_, hloop, hf'⟩

/-- The nodes of `S` are released, and the others forget those of them that are their children. -/
structure Removed (S : ℕ → Prop) [DecidablePred S] (h h' : CfgHeap) : Prop where
  gone : ∀ b, S b → h'.mem.block b = none
  kept : ∀ b, ¬S b → h'.mem.block b =
    (h.mem.block b).map fun nd => { nd with child := nd.child.filter fun c => ¬S c }
  next : h'.mem.next = h.mem.next
  released : ∃ l, h'.released = h.released ++ l ∧ l.Nodup ∧ ∀ b, b ∈ l ↔ S b

theorem Removed.forest {S : ℕ → Prop} [DecidablePred S] {h' : CfgHeap} (hr : Removed S h h')
    (hf : Forest h) (hlive : ∀ b, S b → h.Live b) (hdown : ∀ b c, S b → c ∈ h.child b → S c)
    (helems : ∀ b c, ¬S b → some c ∈ h.elems b → ¬S c) : Forest h' := by
  have hdead : ∀ b, S b → h'.child b = [] ∧ h'.parent b = none ∧ h'.elems b = [] ∧ ¬h'.Live b :=
    fun b hb => by
      rw [CfgHeap.child, CfgHeap.parent, CfgHeap.elems, CfgHeap.Live, hr.gone b hb]
      exact ⟨rfl, rfl, rfl, Bool.false_ne_true⟩
  have hkept : ∀ b, ¬S b → h'.child b = (h.child b).filter (fun c => ¬S c) ∧
      h'.parent b = h.parent b ∧ h'.elems b = h.elems b ∧ h'.depth b = h.depth b ∧
      (h'.Live b ↔ h.Live b) := fun b hb => by
    rw [CfgHeap.child, CfgHeap.parent, CfgHeap.elems, CfgHeap.depth, CfgHeap.Live, hr.kept b hb,
      CfgHeap.child, CfgHeap.parent, CfgHeap.elems, CfgHeap.depth, CfgHeap.Live]
    cases h.mem.block b <;> exact ⟨rfl, rfl, rfl, rfl, Iff.rfl⟩
  have hparent : ∀ a p, h'.parent a = some p → ¬S a ∧ ¬S p ∧ h.parent a = some p :=
    fun a p hp => by
      by_cases ha : S a
      · rw [(hdead a ha).2.1] at hp
        cases hp
      · rw [(hkept a ha).2.1] at hp
        exact ⟨ha, fun hS => ha (hdown p a hS ((hf.filed.mem_iff a p).2 hp)), hp⟩
  refine { filed := ⟨fun i k => ?_, fun k => ?_⟩, elems := fun a b hb => ?_, once := fun a => ?_,
           shape := fun a nd hnd => ?_, released := ?_, gone := fun a => ?_,
           depth := fun a p hp => ?_, root := fun a hp => ?_ }
  · by_cases hk : S k
    · rw [(hdead k hk).1]
      exact iff_of_false not_mem_nil fun hp => (hparent i k hp).2.1 hk
    · rw [(hkept k hk).1, mem_filter, hf.filed.mem_iff, decide_eq_true_iff]
      constructor
      · rintro ⟨hp, hi⟩
        exact (hkept i hi).2.1.trans hp
      · exact fun hp => ⟨(hparent i k hp).2.2, (hparent i k hp).1⟩
  · by_cases hk : S k
    · rw [(hdead k hk).1]
      exact nodup_nil
    · rw [(hkept k hk).1]
      exact (hf.filed.nodup k).filter _
  · by_cases ha : S a
    · rw [(hdead a ha).2.2.1] at hb
      cases hb
    · rw [(hkept a ha).2.2.1] at hb
      rw [(hkept a ha).1, mem_filter, decide_eq_true_iff]
      exact ⟨hf.elems a b hb, helems a b ha hb⟩
  · by_cases ha : S a
    · rw [(hdead a ha).2.2.1]
      exact nodup_nil
    · rw [(hkept a ha).2.2.1]
      exact hf.once a
  · have ha : ¬S a := fun ha => by
      rw [hr.gone a ha] at hnd
      cases hnd
    rw [hr.kept a ha] at hnd
    obtain ⟨nd', hnd', rfl⟩ := map_eq_some_iff.1 hnd
    exact hf.shape a nd' hnd'
  · obtain ⟨l, hl, hnodup, hmem⟩ := hr.released
    rw [hl]
    refine nodup_append.2 ⟨hf.released, hnodup, fun x hx y hy hxy => ?_⟩
    subst hxy
    exact ((hf.gone x).1 hx).2 (hlive x ((hmem x).1 hy))
  · obtain ⟨l, hl, -, hmem⟩ := hr.released
    rw [hl, mem_append, hmem, hf.gone, hr.next]
    by_cases ha : S a
    · exact iff_of_true (.inr ha) ⟨Memory.lt_next_of_block (hlive a ha), (hdead a ha).2.2.2⟩
    · rw [(hkept a ha).2.2.2.2, or_iff_left ha]
  · obtain ⟨ha, hS, hp⟩ := hparent a p hp
    rw [(hkept a ha).2.2.2.1, (hkept p hS).2.2.2.1]
    exact hf.depth a p hp
  · by_cases ha : S a
    · exact depth_of_not_live (hdead a ha).2.2.2
    · rw [(hkept a ha).2.2.2.1]
      exact hf.root a ((hkept a ha).2.1 ▸ hp)

/-- A node without children that no array names is released. -/
theorem Forest.cfgPut (hf : Forest h) (ha : h.Live a) (hchild : h.child a = [])
    (helems : ∀ b, some a ∉ h.elems b) :
    ∃ h', h.mppCfgPut a = some h' ∧ Forest h' ∧ h'.released = h.released ++ [a] := by
  obtain ⟨nd, hnd⟩ := live_iff.1 ha
  have hnil : nd.child.erase a = [] := by
    rw [← child_eq hnd, hchild]
    rfl
  have hdel := block_listDelInit a hnd
  have hlive : (h.listDelInit a).Live a := live_iff.2 ⟨_, hdel⟩
  have hlive' : ((h.listDelInit a).put a { nd with child := nd.child.erase a, parent := none }
      ).Live a := (live_put hlive _).2 hlive
  have hput : h.mppCfgPut a = some {
      mem := ((h.listDelInit a).put a { nd with child := nd.child.erase a, parent := none }
        ).mem.drop a
      released := h.released ++ [a] } := by
    rw [CfgHeap.mppCfgPut, hnd, bind_eq_bind, bind_some]
    dsimp only
    rw [hdel, bind_some]
    dsimp only
    rw [hnil, foldl_nil, update_eq hdel, bind_eq_bind, bind_some, hnil]
    rw [hnil] at hlive'
    exact free_eq hlive'
  refine ⟨_, hput, ?_, rfl⟩
  have hremoved : Removed (· = a) h {
      mem := ((h.listDelInit a).put a { nd with child := nd.child.erase a, parent := none }
        ).mem.drop a
      released := h.released ++ [a] } := by
    refine ⟨fun b hb => ?_, fun b hb => ?_, rfl, [a], rfl, nodup_singleton a, fun b =>
      mem_singleton⟩
    · rw [hb]
      exact Memory.block_drop_self ..
    · refine (Memory.block_drop_of_ne _ hb).trans ?_
      rw [block_put hlive, update_of_ne hb, CfgHeap.listDelInit]
      refine map_congr fun x hx => ?_
      have hnodup := hf.filed.nodup b
      rw [child_eq hx] at hnodup
      have herase : x.child.erase a = x.child.filter fun c => ¬c = a :=
        (hnodup.erase_eq_filter a).trans <| filter_congr fun c _ => by
          simp [bne, Bool.beq_eq_decide_eq]
      rw [herase]
  refine hremoved.forest hf (fun b hb => hb ▸ ha) (fun b c hb hc => ?_) fun b c _ hc => ?_
  · rw [hb, hchild] at hc
    cases hc
  · rintro rfl
    exact helems b hc

end Calls

/-! ## The release of a tree -/

section Release

variable {h : CfgHeap} {rank : ℕ → ℕ} {a : ℕ} {k : ℕ}

/-- The child lists have nodes of those of `h` only. -/
def Within (h h' : CfgHeap) : Prop :=
  ∀ x nd, h'.mem.block x = some nd → ∀ c ∈ nd.child, c ∈ h.child x

/-- The tree of `a` is as in `h`. -/
def Whole (h h' : CfgHeap) (a : ℕ) : Prop :=
  ∀ x, Below h.child a x → ∃ nd, h'.mem.block x = some nd ∧ nd.child = h.child x

/-- The nodes of `S` were released, in the order of `l`. -/
structure Cleared (h' h₂ : CfgHeap) (S : ℕ → Prop) (l : List ℕ) : Prop where
  next : h₂.mem.next = h'.mem.next
  released : h₂.released = h'.released ++ l
  gone : ∀ x, S x → h₂.mem.block x = none
  kept : ∀ x, ¬S x → h₂.mem.block x = h'.mem.block x

theorem Within.listDelInit {h' : CfgHeap} (hw : Within h h') (c : ℕ) :
    Within h (h'.listDelInit c) := fun x nd hnd b hb => by
  obtain ⟨nd', hnd', rfl⟩ := map_eq_some_iff.1 hnd
  exact hw x nd' hnd' b (mem_of_mem_erase hb)

/-- Only the list of its parent loses a node. -/
theorem Within.block_listDelInit {h' : CfgHeap} (hw : Within h h') (hg : Grove h.child rank)
    {c x : ℕ} (hc : c ∈ h.child a) (hx : x ≠ a) :
    (h'.listDelInit c).mem.block x = h'.mem.block x := by
  rw [CfgHeap.listDelInit]
  dsimp only
  cases hnd : h'.mem.block x with
  | none => rfl
  | some nd =>
    have hnot : c ∉ nd.child := fun hin => hx (hg.unique x a c (hw x nd hnd c hin) hc)
    rw [map_some, erase_of_not_mem hnot]

theorem Cleared.within {h' h₂ : CfgHeap} {S : ℕ → Prop} {l : List ℕ} (hc : Cleared h' h₂ S l)
    (hw : Within h h') : Within h h₂ := fun x nd hnd => by
  by_cases hx : S x
  · rw [hc.gone x hx] at hnd
    cases hnd
  · exact hw x nd (hc.kept x hx ▸ hnd)

/-- The loop over some of the children, when the release of each is known. -/
theorem putAllChild_loop (hg : Grove h.child rank)
    (ih : ∀ c ∈ h.child a, ∀ h', Within h h' → Whole h h' c → ∃ h₂,
      mppCfgPutAllChild k h' c = some h₂ ∧
        Cleared h' h₂ (Below h.child c) (postorder h.child k c))
    (cs : List ℕ) (hnodup : cs.Nodup) (hsub : ∀ c ∈ cs, c ∈ h.child a) {h' : CfgHeap}
    (hw : Within h h') (hwhole : ∀ c ∈ cs, Whole h h' c) (ha : h'.Live a) : ∃ h₂,
    cs.foldlM (fun h c => mppCfgPutAllChild k (h.listDelInit c) c) h' = some h₂ ∧ h₂.Live a ∧
      h₂.mem.next = h'.mem.next ∧
      h₂.released = h'.released ++ cs.flatMap (postorder h.child k) ∧
      (∀ c ∈ cs, ∀ x, Below h.child c x → h₂.mem.block x = none) ∧
      ∀ x, x ≠ a → (∀ c ∈ cs, ¬Below h.child c x) → h₂.mem.block x = h'.mem.block x := by
  induction cs generalizing h' with
  | nil =>
    exact ⟨h', rfl, ha, rfl, (append_nil _).symm, fun _ hc => absurd hc not_mem_nil,
      fun _ _ _ => rfl⟩
  | cons c cs ihl =>
    rw [nodup_cons] at hnodup
    have hc := hsub c mem_cons_self
    have hne : ∀ x, Below h.child c x → x ≠ a := by
      rintro x hx rfl
      exact hg.not_below_child hc hx
    have hblock := fun x hx => hw.block_listDelInit hg (x := x) hc hx
    obtain ⟨h₁, hput, hcl⟩ := ih c hc (h'.listDelInit c) (hw.listDelInit c) fun x hx => by
      rw [hblock x (hne x hx)]
      exact hwhole c mem_cons_self x hx
    have ha₁ : h₁.Live a := by
      rw [CfgHeap.Live, hcl.kept a (hg.not_below_child hc)]
      exact (live_listDelInit h' c a).2 ha
    have hkept : ∀ x, x ≠ a → ¬Below h.child c x → h₁.mem.block x = h'.mem.block x :=
      fun x hx hcx => (hcl.kept x hcx).trans (hblock x hx)
    obtain ⟨h₂, hloop, ha₂, hnext, hreleased, hgone, hstay⟩ := ihl hnodup.2
      (fun b hb => hsub b (mem_cons_of_mem c hb)) (hcl.within (hw.listDelInit c))
      (fun b hb x hx => by
        -- the trees of the other children were not touched
        have hb' := hsub b (mem_cons_of_mem c hb)
        rw [hkept x (fun hxa => hg.not_below_child hb' (hxa ▸ hx)) fun hcx =>
          hnodup.1 (hg.disjoint hc hb' hcx hx ▸ hb)]
        exact hwhole b (mem_cons_of_mem c hb) x hx) ha₁
    refine ⟨h₂, ?_, ha₂, hnext.trans hcl.next, ?_, fun b hb x hx => ?_, fun x hx hnot => ?_⟩
    · rw [foldlM_cons, hput]
      exact hloop
    · rw [hreleased, hcl.released, flatMap_cons, ← append_assoc]
      rfl
    · rcases mem_cons.1 hb with rfl | hb
      · by_cases hrest : ∃ b ∈ cs, Below h.child b x
        · obtain ⟨b, hb, hbx⟩ := hrest
          exact hgone b hb x hbx
        · rw [hstay x (hne x hx) fun b hb hbx => hrest ⟨b, hb, hbx⟩]
          exact hcl.gone x hx
      · exact hgone b hb x hx
    · rw [hstay x hx fun b hb => hnot b (mem_cons_of_mem c hb)]
      exact hkept x hx (hnot c mem_cons_self)

/-- A tree is released, each node once. -/
theorem putAllChild_spec (hg : Grove h.child rank) (hk : rank a < k) {h' : CfgHeap}
    (hw : Within h h') (hwhole : Whole h h' a) : ∃ h₂, mppCfgPutAllChild k h' a = some h₂ ∧
      Cleared h' h₂ (Below h.child a) (postorder h.child k a) := by
  induction k generalizing a h' with
  | zero => exact absurd hk (Nat.not_lt_zero _)
  | succ k ih =>
    obtain ⟨nd, hnd, hchild⟩ := hwhole a (below_refl _ a)
    obtain ⟨h₁, hloop, ha₁, hnext, hreleased, hgone, hstay⟩ := putAllChild_loop (k := k) hg
      (fun c hc h' hw hwhole => ih ((hg.rank_lt a c hc).trans_le (Nat.le_of_lt_succ hk)) hw hwhole)
      (h.child a) (hg.nodup a) (fun _ hc => hc) hw
      (fun c hc x hx => hwhole x ((below_child hc).trans hx)) (live_iff.2 ⟨nd, hnd⟩)
    refine ⟨{ mem := h₁.mem.drop a, released := h₁.released ++ [a] }, ?_, hnext, ?_,
      fun x hx => ?_, fun x hx => ?_⟩
    · rw [mppCfgPutAllChild, hnd, bind_eq_bind, bind_some, hchild, hloop]
      exact free_eq ha₁
    · rw [hreleased, postorder, append_assoc]
    · rcases eq_or_ne x a with rfl | hxa
      · exact Memory.block_drop_self ..
      · refine (Memory.block_drop_of_ne _ hxa).trans ?_
        obtain ⟨c, hc, hcx⟩ := (below_iff.1 hx).resolve_left hxa
        exact hgone c hc x hcx
    · have hxa : x ≠ a := by
        rintro rfl
        exact hx (below_refl _ x)
      refine (Memory.block_drop_of_ne _ hxa).trans (hstay x hxa fun c hc hcx => hx ?_)
      exact (below_child hc).trans hcx

/-- A tree that is put at its root is released, each node once, and nothing else. -/
theorem Forest.putAll (hf : Forest h) (ha : h.Live a) (hp : h.parent a = none) :
    ∃ h', mppCfgPutAll h a = some h' ∧ Forest h' ∧
      ∃ l, h'.released = h.released ++ l ∧ l.Nodup ∧ ∀ b, b ∈ l ↔ Below h.child a b := by
  classical
  obtain ⟨nd, hnd⟩ := live_iff.1 ha
  have hk : h.mem.next - h.depth a < h.mem.next + 1 := by omega
  have hlive : ∀ x, Below h.child a x → h.Live x := fun x => hf.live_below ha
  obtain ⟨h', hput, hcl⟩ := putAllChild_spec hf.grove hk (fun x nd hnd c hc => child_eq hnd ▸ hc)
    fun x hx => by
      obtain ⟨nd, hnd⟩ := live_iff.1 (hlive x hx)
      exact ⟨nd, hnd, (child_eq hnd).symm⟩
  have hl : ∃ l, h'.released = h.released ++ l ∧ l.Nodup ∧ ∀ b, b ∈ l ↔ Below h.child a b :=
    ⟨_, hcl.released, hf.grove.nodup_postorder hk, fun b => hf.grove.mem_postorder hk⟩
  -- no child of another node is in the tree
  have hout : ∀ b c, ¬Below h.child a b → c ∈ h.child b → ¬Below h.child a c := by
    intro b c hb hc hac
    rcases Relation.ReflTransGen.cases_tail hac with rfl | ⟨y, hy, hyc⟩
    · rw [hf.filed.mem_iff, hp] at hc
      cases hc
    · exact hb (hf.filed.eq_of_mem hyc hc ▸ hy)
  have hremoved : Removed (Below h.child a) h h' := by
    refine ⟨hcl.gone, fun b hb => ?_, hcl.next, hl⟩
    rw [hcl.kept b hb]
    cases hx : h.mem.block b with
    | none => rfl
    | some x =>
      have hall : x.child.filter (fun c => ¬Below h.child a c) = x.child :=
        filter_eq_self.2 fun c hc => decide_eq_true (hout b c hb (child_eq hx ▸ hc))
      rw [map_some, hall]
  refine ⟨h', ?_, hremoved.forest hf hlive (fun b c hb hc => hb.trans (below_child hc))
    fun b c hb hc => hout b c hb (hf.elems b c hc), hl⟩
  rw [mppCfgPutAll, hnd, bind_eq_bind, bind_some, ← parent_eq hnd, hp, putAllLoop,
    hput]
  rfl

end Release

/-! ## New nodes -/

section New

variable {h : CfgHeap} {a : ℕ} {nd : CfgNode}

/-- A new node at the next address. -/
def CfgHeap.alloc (h : CfgHeap) (nd : CfgNode) : CfgHeap := { h with mem := h.mem.alloc [nd] }

theorem block_alloc (h : CfgHeap) (nd : CfgNode) :
    (h.alloc nd).mem.block = update h.mem.block h.mem.next (some nd) := by
  funext b
  rcases lt_trichotomy b h.mem.next with hb | rfl | hb
  · rw [update_of_ne hb.ne]
    exact Memory.block_alloc_of_lt [nd] hb
  · rw [update_self]
    exact Memory.block_alloc_add h.mem [nd] 0
  · rw [update_of_ne hb.ne', h.mem.fresh b hb.le]
    exact (h.alloc nd).mem.fresh b hb

/-- A view that a new node and an absent one have in common. -/
theorem view_alloc {β : Type*} (view : Option CfgNode → β) (hnd : view (some nd) = view none)
    (a : ℕ) : view ((h.alloc nd).mem.block a) = view (h.mem.block a) := by
  rw [block_alloc]
  rcases eq_or_ne a h.mem.next with rfl | ha
  · rw [update_self, h.mem.fresh _ le_rfl, hnd]
  · rw [update_of_ne ha]

theorem live_alloc : (h.alloc nd).Live a ↔ h.Live a ∨ a = h.mem.next := by
  rw [CfgHeap.Live, block_alloc]
  rcases eq_or_ne a h.mem.next with rfl | ha
  · rw [update_self]
    exact iff_of_true rfl (.inr rfl)
  · rw [update_of_ne ha, or_iff_left ha]
    rfl

/-- A node without parent, children and elements is new. -/
theorem Forest.alloc (hf : Forest h) (hchild : nd.child = []) (hparent : nd.parent = none)
    (hdepth : nd.depth = 0) (helems : ∀ b, some b ∉ nd.elems) (hvalid : nd.type.isValid)
    (harray : nd.type ≠ .array → nd.elems = []) : Forest (h.alloc nd) := by
  have hc : (h.alloc nd).child = h.child := funext <|
    view_alloc (fun o => (o.map CfgNode.child).getD []) hchild
  have hp : (h.alloc nd).parent = h.parent := funext <|
    view_alloc (fun o => o.bind CfgNode.parent) hparent
  have hd : (h.alloc nd).depth = h.depth := funext <|
    view_alloc (fun o => (o.map CfgNode.depth).getD 0) hdepth
  have hnone : nd.elems.reduceOption = [] := eq_nil_iff_forall_not_mem.2 fun b hb =>
    helems b (reduceOption_mem_iff.1 hb)
  have he : ∀ b, ((h.alloc nd).elems b).reduceOption = (h.elems b).reduceOption :=
    view_alloc (fun o => ((o.map CfgNode.elems).getD []).reduceOption) hnone
  refine { filed := ?_, elems := fun b c hb => ?_, once := fun b => ?_,
           shape := fun b x hx => ?_, released := hf.released, gone := fun b => ?_,
           depth := ?_, root := ?_ }
  · rw [hc, hp]
    exact hf.filed
  · rw [← reduceOption_mem_iff, he, reduceOption_mem_iff] at hb
    rw [hc]
    exact hf.elems b c hb
  · rw [he]
    exact hf.once b
  · rw [block_alloc, update_apply] at hx
    split_ifs at hx
    · obtain rfl := some.inj hx
      exact ⟨hvalid, harray⟩
    · exact hf.shape b x hx
  · have hnext : (h.alloc nd).mem.next = h.mem.next + 1 := rfl
    rw [live_alloc, hnext]
    refine (hf.gone b).trans ⟨fun hb => ⟨hb.1.trans (Nat.lt_succ_self _), ?_⟩, fun hb => ?_⟩
    · rintro (hlive | rfl)
      · exact hb.2 hlive
      · exact lt_irrefl _ hb.1
    · rw [not_or] at hb
      exact ⟨lt_of_le_of_ne (Nat.le_of_lt_succ hb.1) hb.2.2, hb.2.1⟩
  · rw [hp, hd]
    exact hf.depth
  · rw [hp, hd]
    exact hf.root

theorem Forest.getObject (hf : Forest h) (type : MppCfgType) :
    Forest (h.mppCfgGetObject type).1 := by
  rw [CfgHeap.mppCfgGetObject]
  split_ifs with hvalid
  · exact hf.alloc rfl rfl rfl (fun _ => not_mem_nil) hvalid fun _ => rfl
  · exact hf

/-- The size of an array that fits. -/
theorem arrayBufSize_eq {nameBufLen : ℕ} {count : ℤ} (hcount : 0 ≤ count)
    (hsize : sizeofImpl + nameBufLen + 8 * count < 2 ^ 31) :
    arrayBufSize nameBufLen count = sizeofImpl + nameBufLen + 8 * count := by
  rw [arrayBufSize]
  exact Int.bmod_eq_of_le (by norm_num; omega) (by norm_num; omega)

theorem Forest.getArray (hf : Forest h) {nameBufLen : ℕ} {count : ℤ} (hcount : 0 ≤ count)
    (hsize : sizeofImpl + nameBufLen + 8 * count < 2 ^ 31) :
    ∃ h' a, h.mppCfgGetArray nameBufLen count = some (h', some a) ∧ Forest h' := by
  have heq := arrayBufSize_eq hcount hsize
  rw [CfgHeap.mppCfgGetArray, if_neg (by omega), if_neg (by omega)]
  refine ⟨_, _, rfl, hf.alloc rfl rfl rfl (fun b hb => ?_) rfl fun hne => absurd rfl hne⟩
  cases eq_of_mem_replicate hb

end New

/-! ## Every sequence of calls -/

/-- A call that keeps the trees: the size of an array is not negative and fits, a node that is
    added has no parent and is not above the node it is added to, a node that is put has no
    children and is in no array, and a tree is put at its root. -/
def CfgCall.Orderly (h : CfgHeap) : CfgCall → Prop
  | .getObject _ => True
  | .getArray nameBufLen count => 0 ≤ count ∧ sizeofImpl + nameBufLen + 8 * count < 2 ^ 31
  | .add root leaf =>
    h.Live root ∧ h.Live leaf ∧ h.parent leaf = none ∧ ¬Below h.child leaf root
  | .del a => h.Live a
  | .put a => h.Live a ∧ h.child a = [] ∧ ∀ b, some a ∉ h.elems b
  | .putAll a => h.Live a ∧ h.parent a = none

/-- The orderly calls, from no nodes. -/
def cfgCalls : Machine CfgHeap CfgCall :=
  (Machine.ofPartial {} cfgCall).guarded fun h c _ => c.Orderly h

theorem Forest.empty : Forest {} where
  filed := ⟨fun _ _ => iff_of_false not_mem_nil nofun, fun _ => nodup_nil⟩
  elems _ _ hb := absurd hb not_mem_nil
  once _ := nodup_nil
  shape _ _ hnd := nomatch hnd
  released := nodup_nil
  gone a := iff_of_false not_mem_nil fun ha => Nat.not_lt_zero a ha.1
  depth _ _ hp := nomatch hp
  root _ _ := rfl

/-- An orderly call ends, without a fault, in trees again. -/
theorem Forest.cfgCall {h : CfgHeap} (hf : Forest h) {c : CfgCall} (hc : c.Orderly h) :
    ∃ h', cfgCall h c = some h' ∧ Forest h' := by
  cases c with
  | getObject type => exact ⟨_, rfl, hf.getObject type⟩
  | getArray nameBufLen count =>
    obtain ⟨h', a, hget, hf'⟩ := hf.getArray hc.1 hc.2
    exact ⟨h', congrArg (Option.map Prod.fst) hget, hf'⟩
  | add root leaf => exact hf.add hc.1 hc.2.1 hc.2.2.1 hc.2.2.2
  | del a => exact hf.del hc
  | put a =>
    obtain ⟨h', hput, hf', -⟩ := hf.cfgPut hc.1 hc.2.1 hc.2.2
    exact ⟨h', hput, hf'⟩
  | putAll a =>
    obtain ⟨h', hput, hf', -⟩ := hf.putAll hc.1 hc.2
    exact ⟨h', hput, hf'⟩

theorem Forest.of_reachable {h : CfgHeap} (hr : cfgCalls.Reachable h) : Forest h := by
  refine hr.invariant (P := Forest) (fun h hinit => ?_) fun h c h' _ hf hstep => ?_
  · rw [show h = {} from hinit]
    exact .empty
  · obtain ⟨h₁, hcall, hf₁⟩ := hf.cfgCall hstep.2
    obtain rfl := some.inj (hcall.symm.trans hstep.1)
    exact hf₁

/-- However orderly calls follow each other, the nodes stay trees, no call fails, and a tree
    that is put is released, each node of it once, with no other node. -/
theorem forest_kept {h : CfgHeap} (hr : cfgCalls.Reachable h) :
    Forest h ∧ (∀ c : CfgCall, c.Orderly h → ∃ h', cfgCall h c = some h') ∧
      ∀ a, (CfgCall.putAll a).Orderly h → ∃ h' l, cfgCall h (.putAll a) = some h' ∧
        h'.released = h.released ++ l ∧ l.Nodup ∧ ∀ b, b ∈ l ↔ Below h.child a b := by
  have hf := Forest.of_reachable hr
  refine ⟨hf, fun c hc => ?_, fun a ha => ?_⟩
  · obtain ⟨h', hcall, -⟩ := hf.cfgCall hc
    exact ⟨h', hcall⟩
  · obtain ⟨h', hput, -, l, hl⟩ := hf.putAll ha.1 ha.2
    exact ⟨h', l, hput, hl⟩

/-- An array with one element, put at its root. -/
theorem forest_kept_element : ∃ h h', cfgCalls.Reachable h ∧ Forest h ∧ h.elems 0 = [some 1] ∧
    cfgCall h (.putAll 0) = some h' ∧ h'.released = [1, 0] := by
  obtain ⟨u, hu⟩ : ∃ u, cfgCall {} (.getArray 0 1) = some u := ⟨_, rfl⟩
  obtain ⟨h, hh⟩ : ∃ h, cfgCall u (.getObject .object) = some h := ⟨_, rfl⟩
  have hnew : cfgCalls.Reachable h :=
    .step (.step (.init rfl) ⟨hu, by decide, by decide⟩) ⟨hh, trivial⟩
  have hadd : (CfgCall.add 0 1).Orderly h := by
    obtain rfl := some.inj hu
    obtain rfl := some.inj hh
    refine ⟨rfl, rfl, rfl, fun hb => ?_⟩
    rcases below_iff.1 hb with heq | ⟨c, hc, -⟩
    · cases heq
    · cases hc
  obtain ⟨h₁, hcall⟩ := (forest_kept hnew).2.1 (.add 0 1) hadd
  have hviews : (cfgCall h (.add 0 1)).map (fun h => (h.elems 0, h.child 0, h.parent 0)) =
        some ([some 1], [1], none) ∧
      ((cfgCall h (.add 0 1)).bind fun h => cfgCall h (.putAll 0)).map CfgHeap.released =
        some [1, 0] := by
    obtain rfl := some.inj hu
    obtain rfl := some.inj hh
    decide
  rw [hcall, map_some, bind_some, some_inj, Prod.mk.injEq,
    Prod.mk.injEq] at hviews
  obtain ⟨⟨helems, hchild, hparent⟩, hreleased⟩ := hviews
  obtain ⟨hf, -, hput⟩ := forest_kept (.step hnew ⟨hcall, hadd⟩)
  have hlive : h₁.Live 0 := live_of_child (b := 1) (hchild ▸ mem_singleton_self 1)
  obtain ⟨h₂, l, hcall₂, -⟩ := hput 0 ⟨hlive, hparent⟩
  rw [hcall₂] at hreleased
  exact ⟨h₁, h₂, .step hnew ⟨hcall, hadd⟩, hf, helems, hcall₂, some.inj hreleased⟩

/-- The root of one level has the depth 0. The element of an array, and the parent of a child,
    name a node that was put; a tree put below its root faults, as its node is released twice. A
    node that is added twice faults, and so does one added to a node below it. An array of -1
    elements has no room for its own fields. -/
theorem forest_lost :
    ([.getObject .object, .getObject .object, .add 0 1].foldlM cfgCall {}).map
        (fun h => (h.child 0, h.depth 0)) = some ([1], 0) ∧
      ([.getArray 0 1, .getObject .object, .add 0 1, .put 1].foldlM cfgCall {}).map
        (fun h => (h.elems 0, (h.mem.block 1).isSome)) = some ([some 1], false) ∧
      ([.getObject .object, .getObject .object, .add 0 1, .put 0].foldlM cfgCall {}).map
        (fun h => (h.parent 1, (h.mem.block 0).isSome)) = some (some 0, false) ∧
      [.getObject .object, .getObject .object, .add 0 1, .putAll 1].foldlM cfgCall {} = none ∧
      [.getObject .object, .getObject .object, .getObject .object, .add 0 2, .add 1 2].foldlM
        cfgCall {} = none ∧
      [.getObject .object, .getObject .object, .add 0 1, .add 1 0].foldlM cfgCall {} = none ∧
      [.getArray 0 (-1)].foldlM cfgCall {} = none := by
  decide

end Libmpp.CfgIo
