import Mathlib

/-!
# Arrays of slots

Loops over the slots of a fixed array, as a program writes them: one pass in the
order of the slots, each step reading and writing its own slot.

* `get_set_fin` and `ext_get` read an array slot by slot.
* `claimFirst_get` is what the pass leaves that looks for a free slot, puts something
  there, and clears the free slots behind it.
* `foldl_local` is a pass whose steps each change one slot by the same function.
* `foldl_min_spec` is the pass that finds the first slot with the smallest key
  below a bound.
-/

namespace Libmpp

variable {α : Type*} {n : ℕ}

theorem get_set_fin (v : Vector α n) (i j : Fin n) (x : α) :
    (v.set i x).get j = if j = i then x else v.get j := by
  simp [Vector.get_eq_getElem, Vector.getElem_set, Fin.ext_iff, eq_comm]

theorem ext_get {v w : Vector α n} (h : ∀ i, v.get i = w.get i) : v = w :=
  Vector.ext fun i hi => h ⟨i, hi⟩

/-! ## Claiming a free slot -/

section Claim

variable (busy : Vector α n → Fin n → Bool) (put clear : α → α)

/-- One step of the pass: a busy slot stays, the first free slot is claimed, and the
    later free slots are cleared. -/
def claimStep (s : Vector α n × Option (Fin n)) (i : Fin n) : Vector α n × Option (Fin n) :=
  if busy s.1 i then s
  else if s.2.isSome then (s.1.set i (clear (s.1.get i)), s.2)
  else (s.1.set i (put (s.1.get i)), some i)

variable {busy put clear}

/-- Whether a slot is busy depends on that slot only. -/
def Local (busy : Vector α n → Fin n → Bool) : Prop :=
  ∀ (v w : Vector α n) (i : Fin n), v.get i = w.get i → busy v i = busy w i

theorem claimStep_get_of_ne (s : Vector α n × Option (Fin n)) {i j : Fin n} (h : j ≠ i) :
    (claimStep busy put clear s i).1.get j = s.1.get j := by
  unfold claimStep
  split_ifs
  · rfl
  · rw [get_set_fin, if_neg h]
  · rw [get_set_fin, if_neg h]

/-- The pass from the slot `i` on, when a slot has been claimed or not. -/
theorem claimFirst_foldl (put clear : α → α) (hloc : Local busy) (l : List (Fin n)) (hl : l.Nodup) (v : Vector α n)
    (found : Option (Fin n)) :
    let r := l.foldl (claimStep busy put clear) (v, found)
    (∀ i, r.1.get i =
      if i ∈ l ∧ busy v i = false then
        if found = none ∧ l.find? (fun j => !busy v j) = some i then put (v.get i)
        else clear (v.get i)
      else v.get i) ∧
    r.2 = found.or (l.find? fun j => !busy v j) := by
  induction l generalizing v found with
  | nil => simp
  | cons a l ih =>
    obtain ⟨ha, hl⟩ := List.nodup_cons.1 hl
    set s := claimStep busy put clear (v, found) a with hs
    obtain ⟨ihget, ihfound⟩ := ih hl s.1 s.2
    -- the rest of the pass sees the slots as they were
    have hsame : ∀ j ∈ l, s.1.get j = v.get j :=
      fun j hj => claimStep_get_of_ne _ fun h => ha (h ▸ hj)
    have hbusy : ∀ j ∈ l, (!busy s.1 j) = !busy v j :=
      fun j hj => congrArg _ (hloc _ _ j (hsame j hj))
    have hfind : l.find? (fun j => !busy s.1 j) = l.find? fun j => !busy v j :=
      List.find?_congr hbusy
    rw [hfind] at ihget ihfound
    rw [List.foldl_cons, ← hs]
    cases hb : busy v a with
    | true =>
      have hstep : s = (v, found) := by rw [hs, claimStep, if_pos (by exact hb)]
      have hfa : (a :: l).find? (fun j => !busy v j) = l.find? fun j => !busy v j := by
        rw [List.find?_cons_of_neg]
        simp [hb]
      rw [hfa]
      refine ⟨fun i => ?_, by rw [ihfound, hstep]⟩
      rw [ihget i, hstep]
      by_cases hia : i = a
      · subst hia
        simp [hb, ha]
      · simp [hia]
    | false =>
      have hfa : (a :: l).find? (fun j => !busy v j) = some a := by
        rw [List.find?_cons_of_pos]
        simp [hb]
      rw [hfa]
      have hs2 : s.2.isSome ∧ s.2 = found.or (some a) := by
        rw [hs, claimStep, if_neg (by simp [hb])]
        cases found <;> simp
      have hnone : s.2 ≠ none := Option.isSome_iff_ne_none.1 hs2.1
      refine ⟨fun i => ?_, ?_⟩
      · rw [ihget i]
        by_cases hia : i = a
        · subst hia
          have : s.1.get i = if found = none then put (v.get i) else clear (v.get i) := by
            rw [hs, claimStep, if_neg (by simp [hb])]
            cases found <;> simp [get_set_fin]
          simp [ha, hb, this]
        · have hne : s.1.get i = v.get i := claimStep_get_of_ne _ hia
          by_cases hil : i ∈ l
          · simp [hil, hia, hne, hloc _ _ i hne, hnone, Ne.symm hia]
          · simp [hil, hia, hne]
      · rw [ihfound, hs2.2]
        cases found <;> simp

/-- The pass over all slots: what it leaves in each, and the slot it claims. -/
theorem claimFirst_get (put clear : α → α) (hloc : Local busy) (v : Vector α n) :
    let r := (List.finRange n).foldl (claimStep busy put clear) (v, none)
    (∀ i, r.1.get i =
      if busy v i then v.get i
      else if (List.finRange n).find? (fun j => !busy v j) = some i then put (v.get i)
      else clear (v.get i)) ∧
    r.2 = (List.finRange n).find? fun j => !busy v j := by
  obtain ⟨hget, hfound⟩ := claimFirst_foldl put clear hloc (List.finRange n)
    (List.nodup_finRange n) v none
  refine ⟨fun i => ?_, by rw [hfound, Option.none_or]⟩
  rw [hget i]
  cases busy v i <;> simp

end Claim

/-! ## Steps that each change one slot -/

/-- After a pass over `l`, the slots of `l` are changed by `g` and the others are as they were. -/
theorem foldl_local {σ ι β : Type*} [DecidableEq ι] {get : σ → ι → β} {step : σ → ι → σ}
    {g : β → β} (hself : ∀ s i, get (step s i) i = g (get s i))
    (hother : ∀ s i j, j ≠ i → get (step s i) j = get s j) {l : List ι} (hl : l.Nodup) (s : σ)
    (j : ι) : get (l.foldl step s) j = if j ∈ l then g (get s j) else get s j := by
  induction l generalizing s with
  | nil => simp
  | cons i l ih =>
    obtain ⟨hi, hl⟩ := List.nodup_cons.1 hl
    rw [List.foldl_cons, ih hl]
    rcases eq_or_ne j i with rfl | hj
    · rw [if_neg hi, if_pos List.mem_cons_self, hself]
    · rw [hother s i j hj]
      simp [hj]

/-! ## The smallest key -/

/-- The pass that keeps the first slot with the smallest key: it ends with what it
    started from, when no key is smaller, or with such a slot. -/
theorem foldl_min_spec {ι : Type*} (p : ι → Prop) [DecidablePred p] (f : ι → ℤ) (l : List ι)
    (o : Option ι) (b : ℤ) :
    let r := l.foldl (fun (s : Option ι × ℤ) i => if p i ∧ f i < s.2 then (some i, f i) else s) (o, b)
    (r = (o, b) ∧ ∀ i ∈ l, p i → b ≤ f i) ∨
      ∃ i ∈ l, r = (some i, f i) ∧ p i ∧ f i < b ∧ ∀ j ∈ l, p j → f i ≤ f j := by
  induction l generalizing o b with
  | nil => exact .inl ⟨rfl, fun _ h => absurd h List.not_mem_nil⟩
  | cons a l ih =>
    rw [List.foldl_cons]
    by_cases ha : p a ∧ f a < b
    · rw [if_pos ha]
      rcases ih (some a) (f a) with ⟨hr, hle⟩ | ⟨i, hi, hr, hp, hlt, hle⟩
      · refine .inr ⟨a, List.mem_cons_self, hr, ha.1, ha.2, fun j hj hpj => ?_⟩
        rcases List.mem_cons.1 hj with rfl | hj
        · exact le_rfl
        · exact hle j hj hpj
      · refine .inr ⟨i, List.mem_cons_of_mem _ hi, hr, hp, hlt.trans ha.2, fun j hj hpj => ?_⟩
        rcases List.mem_cons.1 hj with rfl | hj
        · exact hlt.le
        · exact hle j hj hpj
    · rw [if_neg ha]
      have hba : p a → b ≤ f a := fun hp => not_lt.1 fun h => ha ⟨hp, h⟩
      rcases ih o b with ⟨hr, hle⟩ | ⟨i, hi, hr, hp, hlt, hle⟩
      · refine .inl ⟨hr, fun j hj hpj => ?_⟩
        rcases List.mem_cons.1 hj with rfl | hj
        · exact hba hpj
        · exact hle j hj hpj
      · refine .inr ⟨i, List.mem_cons_of_mem _ hi, hr, hp, hlt, fun j hj hpj => ?_⟩
        rcases List.mem_cons.1 hj with rfl | hj
        · exact hlt.le.trans (hba hpj)
        · exact hle j hj hpj

end Libmpp
