import Mathlib

/-!
# Units that are held

Units are taken one after the other, each new, and given to the entries of an array, one
each; later they are released. `Tenants` says of the array that every unit that was taken was
released once and is held by no entry, or was never released and one entry holds it.

* `held` lists the units that the entries hold;
* `Tenants.take` and `Tenants.release` are the rules for an entry that gets a unit and for
  one that loses it;
* when no entry holds a unit, each was released exactly once (`Tenants.done`).
-/

namespace Libmpp

open scoped List

variable {n : ℕ} {α : Type*}

/-- The units that the entries hold, in the order of the entries. -/
def held (f : Fin n → Option α) : List α := (List.finRange n).filterMap f

theorem mem_held {f : Fin n → Option α} {a : α} : a ∈ held f ↔ ∃ i, f i = some a := by
  simp [held]

theorem held_eq_nil {f : Fin n → Option α} : held f = [] ↔ ∀ i, f i = none := by
  simp [held, List.filterMap_eq_nil_iff]

/-- An entry that holds nothing gets the unit `a`. -/
theorem held_update_some {f : Fin n → Option α} {i : Fin n} (hi : f i = none) (a : α) :
    (held (Function.update f i (some a))).Perm (a :: held f) := by
  have hsplit := List.perm_cons_erase (List.mem_finRange i)
  -- the other entries hold what they held
  have hrest : ((List.finRange n).erase i).filterMap (Function.update f i (some a)) =
      ((List.finRange n).erase i).filterMap f := by
    refine List.filterMap_congr fun j hj => Function.update_of_ne ?_ _ _
    rintro rfl
    exact (List.nodup_finRange n).not_mem_erase hj
  calc
    held (Function.update f i (some a)) ~
        (i :: (List.finRange n).erase i).filterMap (Function.update f i (some a)) :=
      hsplit.filterMap _
    _ = a :: ((List.finRange n).erase i).filterMap f := by
      rw [List.filterMap_cons_some (Function.update_self ..), hrest]
    _ = a :: (i :: (List.finRange n).erase i).filterMap f := by
      rw [List.filterMap_cons_none hi]
    _ ~ a :: held f := ((hsplit.filterMap f).symm).cons a

/-- An entry loses the unit `a`. -/
theorem held_update_none {f : Fin n → Option α} {i : Fin n} {a : α} (hi : f i = some a) :
    (held f).Perm (a :: held (Function.update f i none)) := by
  have h := held_update_some (Function.update_self i none f) a
  rwa [Function.update_idem, ← hi, Function.update_eq_self] at h

/-- Each of the first `taken` units was released once, or is held by one entry. -/
def Tenants (taken : ℕ) (released : List ℕ) (f : Fin n → Option ℕ) : Prop :=
  (released ++ held f).Perm (List.range taken)

namespace Tenants

variable {taken : ℕ} {released : List ℕ} {f : Fin n → Option ℕ} {i j : Fin n} {a : ℕ}

theorem start : Tenants 0 [] (fun _ : Fin n => none) := by
  rw [Tenants, held_eq_nil.2 fun _ => rfl]
  exact .refl _

theorem nodup (h : Tenants taken released f) : (released ++ held f).Nodup :=
  h.nodup_iff.2 List.nodup_range

/-- An entry that holds nothing gets a new unit. -/
theorem take (h : Tenants taken released f) (hi : f i = none) :
    Tenants (taken + 1) released (Function.update f i (some taken)) := by
  rw [Tenants, List.range_succ]
  calc
    released ++ held (Function.update f i (some taken)) ~ released ++ (taken :: held f) :=
      (held_update_some hi taken).append_left _
    _ ~ taken :: (released ++ held f) := List.perm_middle
    _ ~ taken :: List.range taken := h.cons _
    _ ~ List.range taken ++ [taken] := (List.perm_append_singleton _ _).symm

/-- An entry loses its unit. -/
theorem release (h : Tenants taken released f) (hi : f i = some a) :
    Tenants taken (released ++ [a]) (Function.update f i none) := by
  rw [Tenants, List.append_assoc, List.singleton_append]
  exact ((held_update_none hi).symm.append_left _).trans h

/-- When no entry holds a unit, each was released exactly once. -/
theorem done (h : Tenants taken released f) (hf : ∀ i, f i = none) :
    released.Perm (List.range taken) := by
  rw [Tenants, held_eq_nil.2 hf, List.append_nil] at h
  exact h

end Tenants

end Libmpp
