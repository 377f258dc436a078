import Mathlib

/-!
# Lists of addresses

A heap `h : ι → α` and a list of addresses into it. What the list shows of the heap
through a projection is its *view*; an update of the heap at an address of the list is
an update of the view at the position of the address, when the list has no duplicates.
-/

namespace Libmpp.Heap

open Function List

variable {ι α β : Type*}

/-- What a list of addresses shows of a heap. -/
def view (v : α → β) (h : ι → α) (l : List ι) : List β := l.map fun i => v (h i)

variable {v : α → β} {h h' : ι → α} {l : List ι}

@[simp]
theorem length_view : (view v h l).length = l.length := length_map _

theorem view_append (l' : List ι) : view v h (l ++ l') = view v h l ++ view v h l' :=
  map_append

theorem view_getElem? (k : ℕ) : (view v h l)[k]? = l[k]?.map fun i => v (h i) :=
  getElem?_map

theorem view_congr (hh : ∀ i ∈ l, v (h i) = v (h' i)) : view v h l = view v h' l :=
  map_congr_left hh

/-- Heaps that differ by `g` at all addresses have views that differ by `g`. -/
theorem view_eq_map {g : β → β} (hg : ∀ i ∈ l, v (h' i) = g (v (h i))) :
    view v h' l = (view v h l).map g := by
  rw [view, view, map_map]
  exact map_congr_left hg

theorem eraseIdx_view (k : ℕ) : view v h (l.eraseIdx k) = (view v h l).eraseIdx k := by
  simp [view, eraseIdx_eq_take_drop_succ]

/-- A search among the addresses is a search in the view. -/
theorem findIdx?_view {p : ι → Bool} {q : β → Bool} (hpq : ∀ i ∈ l, p i = q (v (h i))) :
    l.findIdx? p = (view v h l).findIdx? q := by
  induction l with
  | nil => rfl
  | cons i l ih =>
    rw [view, map_cons, findIdx?_cons, findIdx?_cons,
      hpq i mem_cons_self, ih fun j hj => hpq j (mem_cons_of_mem _ hj)]
    rfl

/-- The address found is the one at the position found. -/
theorem find?_eq_bind_findIdx? (p : ι → Bool) :
    l.find? p = (l.findIdx? p).bind fun k => l[k]? := by
  induction l with
  | nil => rfl
  | cons i l ih =>
    rw [find?_cons, findIdx?_cons]
    cases p i with
    | true => rfl
    | false => rw [ih]; cases l.findIdx? p <;> rfl

section Update

variable [DecidableEq ι]

theorem view_update_of_notMem {i : ι} (hi : i ∉ l) (x : α) :
    view v (update h i x) l = view v h l := by
  refine view_congr fun j hj => ?_
  rw [update_of_ne (ne_of_mem_of_not_mem hj hi)]

/-- An update at the address in position `k` is one of the view. -/
theorem view_update (hl : l.Nodup) {k : ℕ} {i : ι} (hk : l[k]? = some i) {x : α} {g : β → β}
    (hg : v x = g (v (h i))) :
    view v (update h i x) l = (view v h l).modify k g := by
  obtain ⟨hlt, rfl⟩ := List.getElem?_eq_some_iff.1 hk
  refine ext_getElem (by simp) fun n hn hn' => ?_
  rw [getElem_modify]
  simp only [view, getElem_map]
  split
  · subst k
    rw [update_self, hg]
  · rename_i hne
    rw [update_of_ne]
    intro heq
    exact hne ((Nodup.getElem_inj_iff hl).1 heq).symm

/-- A loop that changes the values at some addresses, each from what it was. -/
theorem foldl_update_apply (hl : l.Nodup) (q : ι → α → Bool) (g : α → α) (j : ι) :
    l.foldl (fun h i => if q i (h i) then update h i (g (h i)) else h) h j =
      if j ∈ l ∧ q j (h j) then g (h j) else h j := by
  induction l generalizing h with
  | nil => simp
  | cons i l ih =>
    rw [nodup_cons] at hl
    rw [foldl_cons, ih hl.2]
    by_cases hji : j = i
    · subst hji
      by_cases hq : q j (h j) = true <;> simp [hl.1, hq]
    · have hj : (if q i (h i) then update h i (g (h i)) else h) j = h j := by
        split
        · rw [update_of_ne hji]
        · rfl
      simp [hj, hji]

end Update

end Libmpp.Heap
