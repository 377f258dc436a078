import Mathlib

/-!
# Items filed in lists

Items are filed in lists, one list for each class: an item is in the list of its class,
and only once; an item without a class is in no list (`Filed`). This is what intrusive
list links hold up, an item having one link.

* `unfile` takes an item out of the list it is in, and `file` puts it at the end of a
  list. Both keep the items filed (`Filed.unfile`, `Filed.file`), and what the items add
  up to changes by the item (`Filed.sum_unfile`, `sum_file`).
* Items may be stamped when they are put into a list. A list is a queue when what is
  served from its front, and what waits in it, is in the order of the stamps
  (`Served`).
-/

namespace Libmpp

open Function List

variable {K ι : Type*}

/-- Take an item out of the list it is in. -/
def unfile [DecidableEq ι] (i : ι) (lists : K → List ι) : K → List ι := fun k => (lists k).erase i

/-- Put an item at the end of a list. -/
def file [DecidableEq K] (i : ι) (k : K) (lists : K → List ι) : K → List ι :=
  fun k' => if k' = k then lists k ++ [i] else lists k'

/-- Under other names, items are taken out and put in as they are. -/
theorem unfile_map {κ : Type*} [DecidableEq ι] [DecidableEq κ] {f : ι → κ}
    (hf : Function.Injective f) (i : ι) (lists : K → List ι) :
    unfile (f i) (fun k => (lists k).map f) = fun k => (unfile i lists k).map f := by
  funext k
  exact (map_erase hf (lists k)).symm

theorem file_map {κ : Type*} [DecidableEq K] (f : ι → κ) (i : ι) (k : K) (lists : K → List ι) :
    file (f i) k (fun k => (lists k).map f) = fun k' => (file i k lists k').map f := by
  funext k'
  rw [file, file]
  split_ifs
  · rw [map_append, map_singleton]
  · rfl

/-- Each item is in the list of its class, once. -/
structure Filed (lists : K → List ι) (cls : ι → Option K) : Prop where
  mem_iff : ∀ i k, i ∈ lists k ↔ cls i = some k
  nodup : ∀ k, (lists k).Nodup

namespace Filed

variable {lists : K → List ι} {cls : ι → Option K} {i : ι} {k : K}

theorem empty : Filed (fun _ : K => ([] : List ι)) (fun _ => none) :=
  ⟨fun _ _ => by simp, fun _ => nodup_nil⟩

theorem unfile [DecidableEq ι] (h : Filed lists cls) (i : ι) :
    Filed (unfile i lists) (update cls i none) where
  mem_iff j k := by
    rw [Libmpp.unfile, (h.nodup k).mem_erase_iff, update_apply, h.mem_iff]
    split_ifs with hj
    · simp [hj]
    · simp [hj]
  nodup k := (h.nodup k).erase i

theorem file [DecidableEq K] [DecidableEq ι] (h : Filed lists cls) (hi : cls i = none) (k : K) :
    Filed (file i k lists) (update cls i (some k)) where
  mem_iff j k' := by
    rw [Libmpp.file, update_apply]
    by_cases hj : j = i
    · subst hj
      have hnot : ∀ k', j ∉ lists k' := fun k' hmem => by
        rw [h.mem_iff, hi] at hmem
        exact absurd hmem (by simp)
      by_cases hk : k' = k
      · simp [hk]
      · simp [hk, Ne.symm hk, hnot]
    · by_cases hk : k' = k
      · simp [hk, hj, h.mem_iff]
      · simp [hk, hj, h.mem_iff]
  nodup k' := by
    rw [Libmpp.file]
    split_ifs
    · refine nodup_append.2 ⟨h.nodup k, nodup_singleton i, fun a ha b hb he => ?_⟩
      rw [mem_singleton] at hb
      rw [he, hb, h.mem_iff, hi] at ha
      exact absurd ha (by simp)
    · exact h.nodup k'

/-- Only the list of its class loses an item. -/
theorem unfile_of_ne [DecidableEq ι] (h : Filed lists cls) (hk : cls i ≠ some k) :
    Libmpp.unfile i lists k = lists k :=
  erase_of_not_mem fun hmem => hk ((h.mem_iff i k).1 hmem)

theorem length_unfile [DecidableEq ι] (h : Filed lists cls) (hk : cls i = some k) :
    (Libmpp.unfile i lists k).length + 1 = (lists k).length := by
  have hmem := (h.mem_iff i k).2 hk
  rw [Libmpp.unfile, length_erase_of_mem hmem]
  have := length_pos_of_mem hmem
  omega

/-- An item is in one list only. -/
theorem eq_of_mem (h : Filed lists cls) {k' : K} (hi : i ∈ lists k) (hi' : i ∈ lists k') : k = k' :=
  Option.some.inj (((h.mem_iff i k).1 hi).symm.trans ((h.mem_iff i k').1 hi'))

/-- The lists hold the items that have a class: as many in all. -/
theorem sum_length [Fintype K] [DecidableEq ι] (h : Filed lists cls) {items : Finset ι}
    (hi : ∀ i, i ∈ items ↔ cls i ≠ none) : ∑ k, (lists k).length = items.card := by
  have hunion : items = Finset.univ.biUnion fun k => (lists k).toFinset := by
    ext i
    simp only [hi, Finset.mem_biUnion, Finset.mem_univ, true_and, mem_toFinset, h.mem_iff]
    exact Option.ne_none_iff_exists'
  have hdisj : ∀ k ∈ Finset.univ, ∀ k' ∈ Finset.univ, k ≠ k' →
      Disjoint (lists k).toFinset (lists k').toFinset := by
    intro k _ k' _ hne
    refine Finset.disjoint_left.2 fun i hi hi' => hne ?_
    exact h.eq_of_mem (mem_toFinset.1 hi) (mem_toFinset.1 hi')
  rw [hunion, Finset.card_biUnion hdisj]
  exact Finset.sum_congr rfl fun k _ => (toFinset_card_of_nodup (h.nodup k)).symm

/-- What the items add up to, without the one taken out. -/
theorem sum_unfile {M : Type*} [AddCommMonoid M] [Fintype K] [DecidableEq K] [DecidableEq ι]
    (h : Filed lists cls) (hk : cls i = some k) (f : ι → M) :
    (∑ k', ((Libmpp.unfile i lists k').map f).sum) + f i = ∑ k', ((lists k').map f).sum := by
  have hk' : f i + ((Libmpp.unfile i lists k).map f).sum = ((lists k).map f).sum :=
    sum_map_erase f ((h.mem_iff i k).2 hk)
  have hrest : ∀ k' ∈ Finset.univ.erase k,
      ((Libmpp.unfile i lists k').map f).sum = ((lists k').map f).sum := fun k' hne => by
    rw [h.unfile_of_ne fun heq => Finset.ne_of_mem_erase hne (Option.some.inj (heq.symm.trans hk))]
  rw [← Finset.add_sum_erase _ _ (Finset.mem_univ k),
    ← Finset.add_sum_erase (a := k) _ _ (Finset.mem_univ k), Finset.sum_congr rfl hrest, ← hk']
  abel

end Filed

/-- What the items add up to, with one more. -/
theorem sum_file {M : Type*} [AddCommMonoid M] [Fintype K] [DecidableEq K] (lists : K → List ι)
    (i : ι) (k : K) (f : ι → M) :
    ∑ k', ((file i k lists k').map f).sum = (∑ k', ((lists k').map f).sum) + f i := by
  have hk : ((file i k lists k).map f).sum = ((lists k).map f).sum + f i := by
    rw [file, ite_cond_eq_true _ _ (eq_self k), map_append, sum_append,
      map_singleton, sum_singleton]
  have hrest : ∀ k' ∈ Finset.univ.erase k,
      ((file i k lists k').map f).sum = ((lists k').map f).sum := fun k' hne => by
    rw [file, ite_cond_eq_false _ _ (eq_false (Finset.ne_of_mem_erase hne))]
  rw [← Finset.add_sum_erase _ _ (Finset.mem_univ k),
    ← Finset.add_sum_erase (a := k) _ _ (Finset.mem_univ k), Finset.sum_congr rfl hrest, hk]
  abel

/-! ## Counts beside the lists -/

/-- The counts follow an item that is taken out. -/
theorem Filed.count_unfile [DecidableEq K] [DecidableEq ι] {lists : K → List ι}
    {cls : ι → Option K} {count : K → ℤ} {i : ι} {k : K} (h : Filed lists cls)
    (hk : cls i = some k) (hc : ∀ k', count k' = (lists k').length) (k' : K) :
    update count k (count k - 1) k' = (Libmpp.unfile i lists k').length := by
  rw [update_apply]
  split_ifs with heq
  · subst heq
    rw [hc, ← h.length_unfile hk]
    push_cast
    exact add_sub_cancel_right _ _
  · rw [h.unfile_of_ne fun hk' => heq (Option.some.inj (hk'.symm.trans hk)), hc]

/-- The counts follow an item that is put in. -/
theorem count_file [DecidableEq K] {lists : K → List ι} {count : K → ℤ}
    (hc : ∀ k', count k' = (lists k').length) (i : ι) (k k' : K) :
    update count k (count k + 1) k' = (file i k lists k').length := by
  rw [update_apply, file]
  split_ifs with heq
  · rw [hc, length_append, length_singleton]
    exact (Nat.cast_succ _).symm
  · exact hc k'

/-! ## Order -/

/-- The stamps of the items served from a list, then of those that wait in it, are in
    order, and before `clock`. -/
structure Served (lists : K → List ι) (stamp : ι → ℕ) (clock : ℕ) (served : K → List ℕ) : Prop where
  sorted : ∀ k, (served k ++ (lists k).map stamp).Pairwise (· < ·)
  lt : ∀ k, ∀ m ∈ served k ++ (lists k).map stamp, m < clock

namespace Served

variable {lists : K → List ι} {stamp : ι → ℕ} {clock : ℕ} {served : K → List ℕ} {i : ι} {k : K}

theorem empty : Served (fun _ : K => ([] : List ι)) stamp clock (fun _ => []) :=
  ⟨fun _ => List.Pairwise.nil, fun _ m hm => absurd hm (by simp)⟩

/-- An item may leave from anywhere in its list. -/
theorem unfile [DecidableEq ι] (h : Served lists stamp clock served) (i : ι) :
    Served (unfile i lists) stamp clock served := by
  have hsub : ∀ k, (served k ++ ((lists k).erase i).map stamp).Sublist
      (served k ++ (lists k).map stamp) := fun k =>
    (List.Sublist.refl _).append (erase_sublist.map stamp)
  exact ⟨fun k => (h.sorted k).sublist (hsub k), fun k m hm => h.lt k m ((hsub k).subset hm)⟩

/-- The item at the front of a list is the next one served. -/
theorem serve [DecidableEq K] [DecidableEq ι] (h : Served lists stamp clock served) {l : List ι}
    (hl : lists k = i :: l) :
    Served (Libmpp.unfile i lists) stamp clock
      (update served k (served k ++ [stamp i])) := by
  have hall : ∀ k', (update served k (served k ++ [stamp i]) k' ++
      ((lists k').erase i).map stamp).Sublist (served k' ++ (lists k').map stamp) := by
    intro k'
    rw [update_apply]
    split_ifs with hk
    · subst hk
      rw [hl, erase_cons_head]
      simp
    · exact (List.Sublist.refl _).append (erase_sublist.map stamp)
  exact ⟨fun k' => (h.sorted k').sublist (hall k'), fun k' m hm => h.lt k' m ((hall k').subset hm)⟩

/-- An item that is in no list is put into one with a new stamp. -/
theorem file [DecidableEq K] [DecidableEq ι] (h : Served lists stamp clock served)
    (hi : ∀ k, i ∉ lists k) (k : K) :
    Served (file i k lists) (update stamp i clock) (clock + 1) served := by
  have hsame : ∀ k, (lists k).map (update stamp i clock) = (lists k).map stamp :=
    fun k => map_congr_left fun j hj =>
      update_of_ne (ne_of_mem_of_not_mem hj (hi k)) _ _
  refine ⟨fun k' => ?_, fun k' m hm => ?_⟩
  · rw [Libmpp.file]
    split_ifs with hk
    · subst hk
      rw [map_append, hsame, map_singleton, update_self, ← append_assoc]
      refine pairwise_append.2
        ⟨h.sorted k', pairwise_singleton _ _, fun a ha b hb => ?_⟩
      rw [mem_singleton] at hb
      rw [hb]
      exact h.lt k' a ha
    · rw [hsame]
      exact h.sorted k'
  · have hmem : m ∈ served k' ++ (lists k').map stamp ∨ m = clock := by
      rw [Libmpp.file] at hm
      split_ifs at hm with hk
      · subst hk
        rw [map_append, hsame, map_singleton, update_self,
          ← append_assoc, mem_append, mem_singleton] at hm
        exact hm
      · rw [hsame] at hm
        exact .inl hm
    rcases hmem with hm | rfl
    · exact (h.lt k' m hm).trans (Nat.lt_succ_self _)
    · exact Nat.lt_succ_self _

end Served

end Libmpp
