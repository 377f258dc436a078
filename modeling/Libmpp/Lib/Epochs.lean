import Mathlib

/-!
# Delivery by epochs

Items are born in epochs, each item in one, and are shown later, each once. At any time some
items were shown and the others are *due*; shown are those of the epochs up to the current
one, in the order of their epochs, and due are those from the current one on (`Epochs`).

* `Epochs.bear` and `Epochs.reveal` are the rules for an item that is born or shown;
* `Epochs.raise` moves on to a later epoch when nothing of the earlier ones is due;
* when nothing is due, all items were shown (`Epochs.all_shown`).
-/

namespace Libmpp

open List

variable {α : Type*}

/-- The items of `born` were shown up to the epoch `e`, but for those that are due. -/
structure Epochs (born : List (α × ℕ)) (shown : List α) (due : Set α) (e : ℕ) : Prop where
  keys : (born.map Prod.fst).Nodup
  split : ∀ a, a ∈ born.map Prod.fst ↔ a ∈ shown ∨ a ∈ due
  apart : ∀ a ∈ shown, a ∉ due
  nodup : shown.Nodup
  past : ∀ a n, (a, n) ∈ born → a ∈ shown → n ≤ e
  ahead : ∀ a n, (a, n) ∈ born → a ∈ due → e ≤ n
  sorted : shown.Pairwise fun a b => ∀ n m, (a, n) ∈ born → (b, m) ∈ born → n ≤ m

namespace Epochs

variable {born : List (α × ℕ)} {shown : List α} {due due' : Set α} {e e' : ℕ}

/-- Nothing was born. -/
theorem start (e : ℕ) : Epochs ([] : List (α × ℕ)) [] ∅ e where
  keys := nodup_nil
  split a := by simp
  apart a ha := by cases ha
  nodup := nodup_nil
  past a n ha := by cases ha
  ahead a n ha := by cases ha
  sorted := .nil

/-- An item has one epoch. -/
theorem epoch_unique (h : Epochs born shown due e) {a : α} {n m : ℕ} (hn : (a, n) ∈ born)
    (hm : (a, m) ∈ born) : n = m := by
  have heq := inj_on_of_nodup_map h.keys hn hm rfl
  exact congrArg Prod.snd heq

/-- An item is born, in the current epoch or a later one. -/
theorem bear (h : Epochs born shown due e) {a : α} {n : ℕ} (ha : a ∉ born.map Prod.fst)
    (hn : e ≤ n) : Epochs (born ++ [(a, n)]) shown (insert a due) e where
  keys := by
    rw [map_append, nodup_append]
    refine ⟨h.keys, nodup_singleton _, fun b hb c hc hbc => ?_⟩
    rw [map_singleton, mem_singleton] at hc
    have hba : b = a := hbc.trans hc
    exact ha (hba ▸ hb)
  split b := by
    rw [map_append, mem_append, h.split b, map_singleton, mem_singleton,
      Set.mem_insert_iff]
    tauto
  apart b hb hdue := by
    rcases hdue with rfl | hdue
    · exact ha ((h.split b).2 (.inl hb))
    · exact h.apart b hb hdue
  nodup := h.nodup
  past b m hb hshown := by
    rcases mem_append.1 hb with hb | hb
    · exact h.past b m hb hshown
    · rw [mem_singleton, Prod.mk.injEq] at hb
      exact absurd ((h.split b).2 (.inl hshown)) (hb.1 ▸ ha)
  ahead b m hb hdue := by
    rcases mem_append.1 hb with hold | hb
    · have hmem : b ∈ born.map Prod.fst := mem_map_of_mem hold
      rcases hdue with rfl | hdue
      · exact absurd hmem ha
      · exact h.ahead b m hold hdue
    · rw [mem_singleton, Prod.mk.injEq] at hb
      exact hb.2 ▸ hn
  sorted := by
    have hold : ∀ b ∈ shown, ∀ m, (b, m) ∈ born ++ [(a, n)] → (b, m) ∈ born := by
      intro b hb m hm
      rcases mem_append.1 hm with hm | hm
      · exact hm
      · rw [mem_singleton, Prod.mk.injEq] at hm
        exact absurd ((h.split b).2 (.inl hb)) (hm.1 ▸ ha)
    refine h.sorted.imp_of_mem fun {b c} hb hc hbc k m hk hm => ?_
    exact hbc k m (hold b hb k hk) (hold c hc m hm)

/-- An item of the current epoch is shown. -/
theorem reveal (h : Epochs born shown due e) {a : α} (hdue : a ∈ due) (hborn : (a, e) ∈ born)
    (hdue' : ∀ b, b ∈ due' ↔ b ∈ due ∧ b ≠ a) : Epochs born (shown ++ [a]) due' e where
  keys := h.keys
  split b := by
    rw [h.split b, mem_append, mem_singleton, hdue' b]
    by_cases hb : b = a
    · subst hb
      simp [hdue]
    · simp [hb]
  apart b hb hdue'' := by
    rw [hdue' b] at hdue''
    rcases mem_append.1 hb with hb | hb
    · exact h.apart b hb hdue''.1
    · exact hdue''.2 (mem_singleton.1 hb)
  nodup := by
    rw [nodup_append]
    refine ⟨h.nodup, nodup_singleton _, fun b hb c hc => ?_⟩
    rintro rfl
    exact h.apart b hb (mem_singleton.1 hc ▸ hdue)
  past b n hb hshown := by
    rcases mem_append.1 hshown with hshown | hshown
    · exact h.past b n hb hshown
    · rw [mem_singleton.1 hshown] at hb
      exact (h.epoch_unique hb hborn).le
  ahead b n hb hdue'' := h.ahead b n hb ((hdue' b).1 hdue'').1
  sorted := by
    refine pairwise_append.2 ⟨h.sorted, pairwise_singleton _ _, fun b hb c hc n m hn hm => ?_⟩
    rw [mem_singleton.1 hc] at hm
    exact (h.past b n hn hb).trans (h.epoch_unique hborn hm).le

/-- Nothing before the epoch `e'` is due. -/
theorem raise (h : Epochs born shown due e) (he : e ≤ e')
    (hdue : ∀ a n, (a, n) ∈ born → a ∈ due → e' ≤ n) : Epochs born shown due e' :=
  { h with
    past := fun a n ha hshown => (h.past a n ha hshown).trans he
    ahead := hdue }

theorem congr (h : Epochs born shown due e) (hd : due = due') : Epochs born shown due' e :=
  hd ▸ h

/-- When nothing is due, all items were shown. -/
theorem all_shown (h : Epochs born shown due e) (hdue : due = ∅) {a : α} {n : ℕ}
    (ha : (a, n) ∈ born) : a ∈ shown := by
  have hmem : a ∈ born.map Prod.fst := mem_map_of_mem ha
  rcases (h.split a).1 hmem with hs | hs
  · exact hs
  · rw [hdue] at hs
    cases hs

end Epochs

end Libmpp
