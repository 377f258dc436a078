import Mathlib

/-!
# Emission in order

Elements of a linear order come in one after the other and are emitted, each once. They are
emitted *in order* (`Emitted`) when every element emitted comes before those emitted later
and before all that are still *due*, those that came in and those to come.

* `Emitted.emit` is the rule for an emission: the element precedes all others that are due.
* When nothing is due, the elements were emitted in increasing order (`Emitted.done`).
-/

namespace Libmpp

variable {α : Type*}

/-- The elements of `total` were emitted in order, but for those that are due. -/
structure Emitted [LT α] (total shown due : List α) : Prop where
  sorted : shown.Pairwise (· < ·)
  below : ∀ a ∈ shown, ∀ d ∈ due, a < d
  perm : (shown ++ due).Perm total

namespace Emitted

variable [LT α] {total shown due due' : List α} {a : α}

/-- Nothing was emitted. -/
theorem start (total : List α) : Emitted total [] total where
  sorted := .nil
  below _ ha := by cases ha
  perm := .refl _

theorem congr (h : Emitted total shown due) (hp : due.Perm due') : Emitted total shown due' where
  sorted := h.sorted
  below a ha d hd := h.below a ha d (hp.mem_iff.2 hd)
  perm := ((hp.append_left shown).symm).trans h.perm

/-- An element that precedes all others is emitted. -/
theorem emit (h : Emitted total shown (a :: due)) (ha : ∀ d ∈ due, a < d) :
    Emitted total (shown ++ [a]) due where
  sorted := by
    refine List.pairwise_append.2 ⟨h.sorted, List.pairwise_singleton _ _, fun b hb c hc => ?_⟩
    rw [List.mem_singleton.1 hc]
    exact h.below b hb a List.mem_cons_self
  below b hb d hd := by
    rcases List.mem_append.1 hb with hb | hb
    · exact h.below b hb d (List.mem_cons_of_mem _ hd)
    · rw [List.mem_singleton.1 hb]
      exact ha d hd
  perm := by
    rw [List.append_assoc]
    exact h.perm

/-- Different elements stay different. -/
theorem nodup (h : Emitted total shown due) (hn : total.Nodup) : (shown ++ due).Nodup :=
  h.perm.nodup_iff.2 hn

/-- All elements were emitted, in increasing order. -/
theorem done (h : Emitted total shown []) : shown.Perm total ∧ shown.Pairwise (· < ·) :=
  ⟨List.append_nil shown ▸ h.perm, h.sorted⟩

end Emitted

end Libmpp
