import Libmpp.Lib.Filing

/-!
# Circular lists of links

Intrusive doubly linked lists: a node has a link to the next node and one to the
previous node, and a list is a ring of nodes around a head (`Ring`). Memory is a function
from nodes to links; the operations are the assignments of the C ones.

`Linked` says that the heads of `lists` have rings of these nodes, without a node in
common, and that a node in none of them is linked to itself. Taking a node out
(`Linked.listDelInit`) and putting one at the end (`Linked.listAddTail`) are then
`unfile` and `file` on the lists.
-/

namespace Libmpp

open Function List

/-- `struct list_head` -/
@[ext]
structure Link (N : Type*) where
  next : N
  prev : N
  deriving DecidableEq, Repr

section Operations

variable {N : Type*} [DecidableEq N]

/-- `a->next = b` -/
def setNext (lk : N → Link N) (a b : N) : N → Link N :=
  Function.update lk a { lk a with next := b }

/-- `a->prev = b` -/
def setPrev (lk : N → Link N) (a b : N) : N → Link N :=
  Function.update lk a { lk a with prev := b }

/-- `INIT_LIST_HEAD` -/
def initListHead (lk : N → Link N) (x : N) : N → Link N :=
  setPrev (setNext lk x x) x x

/-- `list_del_` -/
def listDel (lk : N → Link N) (prev next : N) : N → Link N :=
  setNext (setPrev lk next prev) prev next

/-- `list_del_init` -/
def listDelInit (lk : N → Link N) (x : N) : N → Link N :=
  initListHead (listDel lk (lk x).prev (lk x).next) x

/-- `list_add_` -/
def listAdd (lk : N → Link N) (new prev next : N) : N → Link N :=
  setNext (setPrev (setNext (setPrev lk next new) new next) new prev) prev new

/-- `list_add_tail` -/
def listAddTail (lk : N → Link N) (new head : N) : N → Link N :=
  listAdd lk new (lk head).prev head

/-- `list_empty` -/
def listEmpty (lk : N → Link N) (head : N) : Bool := (lk head).next = head

variable {lk : N → Link N} {a b x y : N}

@[simp] theorem initListHead_self : initListHead lk x x = { next := x, prev := x } := by
  simp [initListHead, setNext, setPrev]

theorem initListHead_of_ne (h : y ≠ x) : initListHead lk x y = lk y := by
  simp [initListHead, setNext, setPrev, h]

theorem next_listDelInit (h : y ≠ x) :
    (listDelInit lk x y).next = if y = (lk x).prev then (lk x).next else (lk y).next := by
  rw [listDelInit, initListHead_of_ne h, listDel, setNext, setPrev]
  simp only [update_apply]
  split_ifs <;> simp_all

theorem prev_listDelInit (h : y ≠ x) :
    (listDelInit lk x y).prev = if y = (lk x).next then (lk x).prev else (lk y).prev := by
  rw [listDelInit, initListHead_of_ne h, listDel, setNext, setPrev]
  simp only [update_apply]
  split_ifs <;> simp_all

theorem next_listAdd {prev next : N} :
    (listAdd lk x prev next y).next =
      if y = prev then x else if y = x then next else (lk y).next := by
  simp only [listAdd, setNext, setPrev, update_apply]
  split_ifs <;> simp_all

theorem prev_listAdd {prev next : N} :
    (listAdd lk x prev next y).prev =
      if y = x then prev else if y = next then x else (lk y).prev := by
  simp only [listAdd, setNext, setPrev, update_apply]
  split_ifs <;> simp_all

end Operations

/-! ## Rings -/

section Rings

variable {N : Type*} {lk lk' : N → Link N} {a b c h x y : N} {l m : List N}

/-- `b` comes after `a`, in the links both ways. -/
structure Joined (lk : N → Link N) (a b : N) : Prop where
  next : (lk a).next = b
  prev : (lk b).prev = a

/-- From the head `h` the links go through `l`, and back to it. -/
def Ring (lk : N → Link N) (h : N) (l : List N) : Prop :=
  (h :: (l ++ [h])).IsChain (Joined lk)

theorem Ring.listEmpty [DecidableEq N] (hr : Ring lk h l) (hl : h ∉ l) :
    listEmpty lk h ↔ l = [] := by
  cases l with
  | nil =>
    obtain ⟨hj, -⟩ := isChain_cons_cons.1 hr
    simp [Libmpp.listEmpty, hj.next]
  | cons x l =>
    obtain ⟨hj, -⟩ := isChain_cons_cons.1 hr
    rw [mem_cons, not_or] at hl
    simp [Libmpp.listEmpty, hj.next, Ne.symm hl.1]

/-- The first node of a list. -/
theorem Ring.next_head (hr : Ring lk h (x :: l)) : (lk h).next = x :=
  (isChain_cons_cons.1 hr).1.next

/-- A node of a list has a node before it and one after it; around it, the rest of the
    ring goes on. -/
theorem Ring.split (hr : Ring lk h (l ++ x :: m)) :
    Joined lk (lk x).prev x ∧ Joined lk x (lk x).next ∧ ∃ A B, h :: l = A ++ [(lk x).prev] ∧
      m ++ [h] = (lk x).next :: B ∧ (A ++ [(lk x).prev]).IsChain (Joined lk) ∧
        ((lk x).next :: B).IsChain (Joined lk) := by
  obtain ⟨A, p, hA⟩ : ∃ A p, h :: l = A ++ [p] :=
    ⟨_, _, (dropLast_append_getLast (cons_ne_nil h l)).symm⟩
  obtain ⟨n, B, hB⟩ : ∃ n B, m ++ [h] = n :: B := by
    cases m with
    | nil => exact ⟨_, _, rfl⟩
    | cons n m => exact ⟨_, _, rfl⟩
  have hall : (A ++ p :: x :: n :: B).IsChain (Joined lk) := by
    have heq : A ++ p :: x :: n :: B = h :: (l ++ x :: m ++ [h]) := by
      rw [← hB, append_cons A p, ← hA]
      simp
    rw [heq]
    exact hr
  obtain ⟨hbefore, hpx, hxn⟩ := isChain_append_cons_cons.1 hall
  obtain ⟨hxn, hafter⟩ := isChain_cons_cons.1 hxn
  rw [hpx.prev, hxn.next]
  exact ⟨hpx, hxn, A, B, hA, hB, hbefore, hafter⟩

/-- The last node of a ring is the one before its head. -/
theorem Ring.last (hr : Ring lk h l) : Joined lk (lk h).prev h ∧
    ∃ A, h :: l = A ++ [(lk h).prev] ∧ (A ++ [(lk h).prev]).IsChain (Joined lk) := by
  obtain ⟨A, p, hA⟩ : ∃ A p, h :: l = A ++ [p] :=
    ⟨_, _, (dropLast_append_getLast (cons_ne_nil h l)).symm⟩
  have hall : (A ++ p :: [h]).IsChain (Joined lk) := by
    rw [append_cons, ← hA]
    exact hr
  obtain ⟨hbefore, hph, -⟩ := isChain_append_cons_cons.1 hall
  rw [hph.prev]
  exact ⟨hph, A, hA, hbefore⟩

/-- The links lead round the ring. -/
theorem Ring.iterate_next_mem (hr : Ring lk h l) (k : ℕ) :
    (fun x => (lk x).next)^[k] h ∈ h :: l := by
  induction k with
  | zero => exact mem_cons_self
  | succ k ih =>
    rw [iterate_succ_apply']
    generalize (fun x => (lk x).next)^[k] h = y at ih
    rcases mem_cons.1 ih with rfl | hy
    · cases l with
      | nil =>
        rw [(isChain_cons_cons.1 hr).1.next]
        exact mem_cons_self
      | cons x l =>
        rw [hr.next_head]
        exact mem_cons_of_mem _ mem_cons_self
    · obtain ⟨A, B, rfl⟩ := append_of_mem hy
      obtain ⟨-, -, -, C, -, hC, -⟩ := hr.split
      have hmem : (lk y).next ∈ B ++ [h] := hC ▸ mem_cons_self
      rcases mem_append.1 hmem with hB | hh
      · exact mem_cons_of_mem _ (mem_append_right _ (mem_cons_of_mem _ hB))
      · exact mem_singleton.1 hh ▸ mem_cons_self

variable [DecidableEq N]

/-- Neighbours that the node taken out is neither of stay neighbours. -/
theorem Joined.listDelInit (hj : Joined lk a b) (hp : Joined lk (lk x).prev x)
    (hn : Joined lk x (lk x).next) (ha : a ≠ x) (hb : b ≠ x) :
    Joined (listDelInit lk x) a b where
  next := by
    rw [next_listDelInit ha, hj.next]
    split_ifs with he
    · -- a is the node before x, so that x is b
      exact absurd (hj.next.symm.trans (he ▸ hp.next)) hb
    · rfl
  prev := by
    rw [prev_listDelInit hb, hj.prev]
    split_ifs with he
    · exact absurd (hj.prev.symm.trans (he ▸ hn.prev)) ha
    · rfl

/-- A ring without the node taken out stays. -/
theorem Ring.listDelInit_of_not_mem (hr : Ring lk h l) (hp : Joined lk (lk x).prev x)
    (hn : Joined lk x (lk x).next) (hh : x ≠ h) (hl : x ∉ l) : Ring (listDelInit lk x) h l := by
  have hnot : ∀ y ∈ h :: (l ++ [h]), y ≠ x := by
    rintro y hy rfl
    simp [hh, hl] at hy
  exact IsChain.imp_of_mem_imp
    (fun a b ha hb hj => hj.listDelInit hp hn (hnot a ha) (hnot b hb)) hr

/-- A node is taken out of its list. -/
theorem Ring.listDelInit (hr : Ring lk h (l ++ x :: m)) (hh : x ≠ h) (hl : x ∉ l) (hm : x ∉ m) :
    Ring (listDelInit lk x) h (l ++ m) := by
  obtain ⟨hp, hn, A, B, hA, hB, hbefore, hafter⟩ := hr.split
  have hnotA : ∀ y ∈ A ++ [(lk x).prev], y ≠ x := by
    rintro y hy rfl
    rw [← hA] at hy
    simp [hh, hl] at hy
  have hnotB : ∀ y ∈ (lk x).next :: B, y ≠ x := by
    rintro y hy rfl
    rw [← hB] at hy
    simp [hh, hm] at hy
  have hpx := hnotA _ (mem_append_right A mem_cons_self)
  have hnx := hnotB _ mem_cons_self
  have hpn : Joined (Libmpp.listDelInit lk x) (lk x).prev (lk x).next :=
    ⟨by rw [next_listDelInit hpx, if_pos rfl], by rw [prev_listDelInit hnx, if_pos rfl]⟩
  rw [Ring, append_assoc, hB, ← cons_append, hA, append_assoc,
    singleton_append, isChain_append_cons_cons]
  exact ⟨hbefore.imp_of_mem_imp fun a b ha hb hj =>
      hj.listDelInit hp hn (hnotA a ha) (hnotA b hb), hpn,
    hafter.imp_of_mem_imp fun a b ha hb hj => hj.listDelInit hp hn (hnotB a ha) (hnotB b hb)⟩

/-- Neighbours stay neighbours, but for those the new node is put between. -/
theorem Joined.listAddTail (hj : Joined lk a b) (hp : Joined lk (lk h).prev h) (ha : a ≠ x)
    (hb : b ≠ x) (hbh : b ≠ h) : Joined (listAddTail lk x h) a b where
  next := by
    rw [Libmpp.listAddTail, next_listAdd, if_neg ha, hj.next]
    split_ifs with he
    · exact absurd (hj.next.symm.trans (he ▸ hp.next)) hbh
    · rfl
  prev := by
    rw [Libmpp.listAddTail, prev_listAdd, if_neg hb, if_neg hbh, hj.prev]

theorem Ring.listAddTail_of_ne (hr : Ring lk a l) (hp : Joined lk (lk h).prev h) (ha : x ≠ a)
    (hl : x ∉ l) (hah : a ≠ h) (hhl : h ∉ l) : Ring (listAddTail lk x h) a l := by
  have hnot : ∀ y ∈ a :: (l ++ [a]), y ≠ x ∧ y ≠ h := by
    refine fun y hy => ⟨?_, ?_⟩
    · rintro rfl
      simp [ha, hl] at hy
    · rintro rfl
      simp [Ne.symm hah, hhl] at hy
  exact IsChain.imp_of_mem_imp
    (fun b c hb hc hj => hj.listAddTail hp (hnot b hb).1 (hnot c hc).1 (hnot c hc).2) hr

/-- A node is put at the end of a list. -/
theorem Ring.listAddTail (hr : Ring lk h l) (hh : x ≠ h) (hl : x ∉ l) (hhl : h ∉ l) :
    Ring (listAddTail lk x h) h (l ++ [x]) := by
  obtain ⟨hp, A, hA, hbefore⟩ := hr.last
  have hnotA : ∀ y ∈ A ++ [(lk h).prev], y ≠ x := by
    rintro y hy rfl
    rw [← hA] at hy
    simp [hh, hl] at hy
  have htail : ∀ y ∈ (A ++ [(lk h).prev]).tail, y ≠ h := by
    rintro y hy rfl
    rw [← hA] at hy
    exact hhl hy
  have hpx := hnotA _ (mem_append_right A mem_cons_self)
  have hjoin : Joined (Libmpp.listAddTail lk x h) (lk h).prev x :=
    ⟨by rw [Libmpp.listAddTail, next_listAdd, if_pos rfl],
      by rw [Libmpp.listAddTail, prev_listAdd, if_pos rfl]⟩
  have hjoin' : Joined (Libmpp.listAddTail lk x h) x h :=
    ⟨by rw [Libmpp.listAddTail, next_listAdd, if_neg hpx.symm, if_pos rfl],
      by rw [Libmpp.listAddTail, prev_listAdd, if_neg hh.symm, if_pos rfl]⟩
  rw [Ring, append_assoc, ← cons_append, hA, append_assoc, singleton_append,
    singleton_append, isChain_append_cons_cons]
  exact ⟨hbefore.imp_of_mem_tail_imp fun a b ha hb hj =>
      hj.listAddTail hp (hnotA a ha) (hnotA b (mem_of_mem_tail hb)) (htail b hb), hjoin,
    isChain_pair.2 hjoin'⟩

end Rings

/-! ## Families of lists -/

section Families

variable {K N : Type*}

/-- The heads have rings of the nodes in their lists; the lists share no node, and a node
    in no list is linked to itself. -/
structure Linked (lk : N → Link N) (head : K → N) (lists : K → List N) (nodes : Set N) : Prop where
  ring : ∀ k, Ring lk (head k) (lists k)
  nodup : ∀ k, (lists k).Nodup
  mem : ∀ k, ∀ x ∈ lists k, x ∈ nodes
  head_not_mem : ∀ k, head k ∉ nodes
  head_inj : ∀ k k', head k = head k' → k = k'
  disjoint : ∀ x k k', x ∈ lists k → x ∈ lists k' → k = k'
  idle : ∀ x ∈ nodes, (∀ k, x ∉ lists k) → lk x = { next := x, prev := x }

namespace Linked

variable {lk : N → Link N} {head : K → N} {lists : K → List N} {nodes : Set N} {x : N} {k : K}

theorem head_not_mem_list (h : Linked lk head lists nodes) (k k' : K) : head k ∉ lists k' :=
  fun hk => h.head_not_mem k (h.mem k' _ hk)

theorem ne_head (h : Linked lk head lists nodes) (hx : x ∈ nodes) (k : K) : x ≠ head k := by
  rintro rfl
  exact h.head_not_mem k hx

theorem listEmpty [DecidableEq N] (h : Linked lk head lists nodes) (k : K) :
    listEmpty lk (head k) ↔ lists k = [] :=
  (h.ring k).listEmpty (h.head_not_mem_list k k)

theorem next_head (h : Linked lk head lists nodes) {l : List N} (hl : lists k = x :: l) :
    (lk (head k)).next = x := by
  have hr := h.ring k
  rw [hl] at hr
  exact hr.next_head

/-- The nodes around a node are nodes too, or heads. -/
theorem around (h : Linked lk head lists nodes) (hx : x ∈ nodes) :
    Joined lk (lk x).prev x ∧ Joined lk x (lk x).next ∧
      ((lk x).prev ∈ nodes ∨ ∃ k, (lk x).prev = head k) ∧
      ((lk x).next ∈ nodes ∨ ∃ k, (lk x).next = head k) := by
  by_cases hidle : ∀ k, x ∉ lists k
  · rw [h.idle x hx hidle]
    have hself : Joined lk x x := ⟨by rw [h.idle x hx hidle], by rw [h.idle x hx hidle]⟩
    exact ⟨hself, hself, .inl hx, .inl hx⟩
  · push Not at hidle
    obtain ⟨k, hk⟩ := hidle
    obtain ⟨l, m, hl⟩ := append_of_mem hk
    have hr := h.ring k
    rw [hl] at hr
    obtain ⟨hp, hn, A, B, hA, hB, -⟩ := hr.split
    refine ⟨hp, hn, ?_, ?_⟩
    · have hmem : (lk x).prev ∈ head k :: l := hA ▸ mem_append_right A mem_cons_self
      rcases mem_cons.1 hmem with heq | hmem
      · exact .inr ⟨k, heq⟩
      · exact .inl (h.mem k _ (hl ▸ mem_append_left _ hmem))
    · have hmem : (lk x).next ∈ m ++ [head k] := hB ▸ mem_cons_self
      rcases mem_append.1 hmem with hmem | heq
      · exact .inl (h.mem k _ (hl ▸ mem_append_right _ (mem_cons_of_mem _ hmem)))
      · exact .inr ⟨k, mem_singleton.1 heq⟩

variable [DecidableEq N]

/-- `list_del_init` takes a node out of the list it is in. -/
theorem listDelInit (h : Linked lk head lists nodes) (hx : x ∈ nodes) :
    Linked (listDelInit lk x) head (unfile x lists) nodes where
  ring k := by
    obtain ⟨hp, hn, -⟩ := h.around hx
    by_cases hk : x ∈ lists k
    · obtain ⟨l, m, hl⟩ := append_of_mem hk
      have hr := h.ring k
      have hnodup := h.nodup k
      rw [hl] at hr hnodup
      have hnot := (nodup_middle.1 hnodup).notMem
      rw [mem_append, not_or] at hnot
      have herase : unfile x lists k = l ++ m := by
        rw [unfile, hl, erase_append_right _ hnot.1, erase_cons_head]
      rw [herase]
      exact hr.listDelInit (h.ne_head hx k) hnot.1 hnot.2
    · rw [unfile, erase_of_not_mem hk]
      exact (h.ring k).listDelInit_of_not_mem hp hn (h.ne_head hx k) hk
  nodup k := (h.nodup k).erase x
  mem k y hy := h.mem k y (mem_of_mem_erase hy)
  head_not_mem := h.head_not_mem
  head_inj := h.head_inj
  disjoint y k k' hy hy' := h.disjoint y k k' (mem_of_mem_erase hy) (mem_of_mem_erase hy')
  idle y hy hnot := by
    obtain ⟨hp, hn, -⟩ := h.around hx
    by_cases hyx : y = x
    · rw [hyx, Libmpp.listDelInit, initListHead_self]
    · -- a node in no list is no neighbour
      have hy' : lk y = { next := y, prev := y } :=
        h.idle y hy fun k hk => hnot k ((mem_erase_of_ne hyx).2 hk)
      have hnext : (Libmpp.listDelInit lk x y).next = y := by
        rw [next_listDelInit hyx, hy']
        split_ifs with he
        · have hxy : y = x := by rw [← hp.next, ← he, hy']
          exact absurd hxy hyx
        · rfl
      have hprev : (Libmpp.listDelInit lk x y).prev = y := by
        rw [prev_listDelInit hyx, hy']
        split_ifs with he
        · have hxy : y = x := by rw [← hn.prev, ← he, hy']
          exact absurd hxy hyx
        · rfl
      exact Link.ext hnext hprev

/-- `list_add_tail` puts a node that is in no list at the end of one. -/
theorem listAddTail [DecidableEq K] (h : Linked lk head lists nodes) (hx : x ∈ nodes)
    (hnot : ∀ k, x ∉ lists k) (k : K) :
    Linked (listAddTail lk x (head k)) head (file x k lists) nodes where
  ring k' := by
    rw [file]
    split_ifs with hk
    · subst hk
      exact (h.ring k').listAddTail (h.ne_head hx k') (hnot k') (h.head_not_mem_list k' k')
    · exact (h.ring k').listAddTail_of_ne (h.ring k).last.1 (h.ne_head hx k') (hnot k')
        (fun he => hk (h.head_inj _ _ he)) (h.head_not_mem_list k k')
  nodup k' := by
    rw [file]
    split_ifs
    · exact nodup_append.2 ⟨h.nodup k, nodup_singleton x, fun a ha b hb hab =>
        hnot k (mem_singleton.1 hb ▸ hab ▸ ha)⟩
    · exact h.nodup k'
  mem k' y hy := by
    rw [file] at hy
    split_ifs at hy
    · rcases mem_append.1 hy with hy | hy
      · exact h.mem k y hy
      · exact mem_singleton.1 hy ▸ hx
    · exact h.mem k' y hy
  head_not_mem := h.head_not_mem
  head_inj := h.head_inj
  disjoint y k₁ k₂ hy₁ hy₂ := by
    have hcases : ∀ k', y ∈ file x k lists k' → y ∈ lists k' ∨ k' = k ∧ y = x := by
      intro k' hy
      rw [file] at hy
      split_ifs at hy with hk
      · rcases mem_append.1 hy with hy | hy
        · exact .inl (hk ▸ hy)
        · exact .inr ⟨hk, mem_singleton.1 hy⟩
      · exact .inl hy
    rcases hcases k₁ hy₁ with h₁ | ⟨h₁, rfl⟩
    · rcases hcases k₂ hy₂ with h₂ | ⟨-, rfl⟩
      · exact h.disjoint y k₁ k₂ h₁ h₂
      · exact absurd h₁ (hnot k₁)
    · rcases hcases k₂ hy₂ with h₂ | ⟨h₂, -⟩
      · exact absurd h₂ (hnot k₂)
      · rw [h₁, h₂]
  idle y hy hnone := by
    have hyx : y ≠ x := by
      rintro rfl
      refine hnone k ?_
      rw [file, if_pos rfl]
      exact mem_append_right _ (mem_singleton_self y)
    have hout : ∀ k', y ∉ lists k' := by
      intro k' hk'
      refine hnone k' ?_
      rw [file]
      split_ifs with hk
      · exact mem_append_left _ (hk ▸ hk')
      · exact hk'
    have hy' := h.idle y hy hout
    have hyh : y ≠ head k := h.ne_head hy k
    have hyp : y ≠ (lk (head k)).prev := by
      intro he
      refine hyh ?_
      rw [← (h.ring k).last.1.next, ← he, hy']
    refine Link.ext ?_ ?_
    · rw [Libmpp.listAddTail, next_listAdd, if_neg hyp, if_neg hyx, hy']
    · rw [Libmpp.listAddTail, prev_listAdd, if_neg hyx, if_neg hyh, hy']

end Linked

end Families

end Libmpp
