import Mathlib

/-!
# Arrays that are sorted in place

Two loops over an array, which is a function of the index: the insertion of one entry after the
other into the sorted ones before it, by exchanges of neighbours, and the reversal of the first
entries, by exchanges from both ends.

* `firsts n a` is the list of the first `n` entries.
* `sortPrefix` leaves the first entries in order, and the same entries (`sortPrefix_spec`). The
  inner loop goes on to the first entry after it has found the place; as the entries before are
  in order, nothing is exchanged any more (`sortInner_of_le`).
* `flipLoop` reverses (`firsts_flipLoop`).
-/

namespace Libmpp

open Function List

variable {α β : Type*}

/-- The first `n` entries. -/
def firsts (n : ℕ) (a : ℕ → α) : List α := (List.range n).map a

theorem firsts_succ (n : ℕ) (a : ℕ → α) : firsts (n + 1) a = firsts n a ++ [a n] := by
  rw [firsts, range_succ, map_append]
  rfl

theorem length_firsts (n : ℕ) (a : ℕ → α) : (firsts n a).length = n := by
  rw [firsts, length_map, length_range]

theorem mem_firsts {n : ℕ} {a : ℕ → α} {x : α} : x ∈ firsts n a ↔ ∃ j < n, a j = x := by
  simp [firsts]

theorem firsts_congr {n : ℕ} {a b : ℕ → α} (h : ∀ j < n, a j = b j) : firsts n a = firsts n b :=
  map_congr_left fun j hj => h j (mem_range.1 hj)

/-- The entries of a list, as an array. -/
theorem firsts_getD (l : List α) (d : α) : firsts l.length (fun i => l.getD i d) = l := by
  refine ext_getElem (length_firsts _ _) fun i h₁ h₂ => ?_
  simp only [firsts, getElem_map, getElem_range]
  exact getD_eq_getElem _ d h₂

/-! ## Sorting -/

section

variable [LinearOrder β] (key : α → β)

/-- The entry `d` goes down over the `k` entries before it, as long as it is smaller. -/
def sortInner (d : α) : ℕ → (ℕ → α) → ℕ → α
  | 0, a => a
  | k + 1, a =>
    sortInner d k
      (if key d < key (a k) then Function.update (Function.update a (k + 1) (a k)) k d else a)

/-- The first `n` entries are sorted, one after the other. -/
def sortPrefix : ℕ → (ℕ → α) → ℕ → α
  | 0, a => a
  | n + 1, a =>
    let a := sortPrefix n a
    sortInner key (a n) n a

/-- The first entries are in order. -/
def InOrderTo (n : ℕ) (a : ℕ → α) : Prop := ∀ i j, i < j → j < n → key (a i) ≤ key (a j)

variable {key}

/-- Behind its place, nothing is exchanged. -/
theorem sortInner_of_le {d : α} {k : ℕ} {a : ℕ → α} (h : ∀ j < k, key (a j) ≤ key d) :
    sortInner key d k a = a := by
  induction k with
  | zero => rfl
  | succ k ih =>
    rw [sortInner, if_neg (h k (Nat.lt_succ_self k)).not_gt]
    exact ih fun j hj => h j (hj.trans (Nat.lt_succ_self k))

variable (key) in
/-- What the inner loop leaves. -/
structure Inserted (k : ℕ) (a b : ℕ → α) : Prop where
  inOrder : InOrderTo key (k + 1) b
  perm : (firsts (k + 1) b).Perm (firsts (k + 1) a)
  rest : ∀ j, k < j → b j = a j

theorem sortInner_spec {k : ℕ} {a : ℕ → α} (h : InOrderTo key k a) :
    Inserted key k a (sortInner key (a k) k a) := by
  -- The induction is on the entries that are left; the entry that goes down is at their end.
  suffices ∀ {d : α}, a k = d → Inserted key k a (sortInner key d k a) from this rfl
  intro d hd
  induction k generalizing a with
  | zero => exact ⟨fun i j hij hj => absurd hij (by omega), .refl _, fun _ _ => rfl⟩
  | succ k ih =>
    rw [sortInner]
    split_ifs with hlt
    · set a' := update (update a (k + 1) (a k)) k d with ha'
      have hself : a' k = d := update_self ..
      have hnext : a' (k + 1) = a k := by
        rw [ha', update_of_ne (Nat.succ_ne_self k), update_self]
      have hother : ∀ j, j ≠ k → j ≠ k + 1 → a' j = a j := fun j hj hj' => by
        rw [ha', update_of_ne hj, update_of_ne hj']
      have hbelow : InOrderTo key k a' := fun i j hij hj => by
        rw [hother i (by omega) (by omega), hother j (by omega) (by omega)]
        exact h i j hij (by omega)
      obtain ⟨hin, hperm, hrest⟩ := ih hbelow hself
      have hlast : sortInner key d k a' (k + 1) = a k := (hrest _ (Nat.lt_succ_self k)).trans hnext
      have hle : ∀ j < k + 1, key (sortInner key d k a' j) ≤ key (a k) := by
        intro j hj
        obtain ⟨i, hi, he⟩ := mem_firsts.1 (hperm.mem_iff.1 (mem_firsts.2 ⟨j, hj, rfl⟩))
        rw [← he]
        obtain rfl | hik := eq_or_ne i k
        · rw [hself]
          exact hlt.le
        · rw [hother i hik (by omega)]
          exact h i k (by omega) (by omega)
      refine ⟨fun i j hij hj => ?_, ?_, fun j hj => ?_⟩
      · obtain rfl | hjk := eq_or_ne j (k + 1)
        · rw [hlast]
          exact hle i hij
        · exact hin i j hij (by omega)
      · have hfirst : firsts k a' = firsts k a :=
          firsts_congr fun j hj => hother j (by omega) (by omega)
        rw [firsts_succ, hlast, firsts_succ (k + 1) a, firsts_succ k a, hd]
        refine (hperm.append_right _).trans ?_
        rw [firsts_succ, hself, hfirst, append_assoc, append_assoc]
        exact (List.Perm.swap (a k) d []).append_left _
      · rw [hrest j (by omega), hother j (by omega) (by omega)]
    · have hle : ∀ j < k + 1, key (a j) ≤ key d := by
        intro j hj
        obtain rfl | hjk := eq_or_ne j k
        · exact not_lt.1 hlt
        · exact (h j k (by omega) (by omega)).trans (not_lt.1 hlt)
      rw [sortInner_of_le fun j hj => hle j (by omega)]
      refine ⟨fun i j hij hj => ?_, .refl _, fun _ _ => rfl⟩
      obtain rfl | hjk := eq_or_ne j (k + 1)
      · rw [hd]
        exact hle i hij
      · exact h i j hij (by omega)

variable (key) in
/-- The first entries are in order, and the same ones. -/
theorem sortPrefix_spec (n : ℕ) (a : ℕ → α) :
    InOrderTo key n (sortPrefix key n a) ∧ (firsts n (sortPrefix key n a)).Perm (firsts n a) ∧
      ∀ j, n ≤ j → sortPrefix key n a j = a j := by
  induction n with
  | zero => exact ⟨fun i j _ hj => absurd hj (Nat.not_lt_zero j), .refl _, fun _ _ => rfl⟩
  | succ n ih =>
    obtain ⟨hin, hperm, hrest⟩ := ih
    have hspec := sortInner_spec hin
    refine ⟨hspec.inOrder, hspec.perm.trans ?_, fun j hj => ?_⟩
    · rw [firsts_succ, firsts_succ, hrest n le_rfl]
      exact hperm.append_right _
    · exact (hspec.rest j hj).trans (hrest j (by omega))

theorem InOrderTo.pairwise {n : ℕ} {a : ℕ → α} (h : InOrderTo key n a) :
    (firsts n a).Pairwise fun x y => key x ≤ key y := by
  rw [firsts, pairwise_map]
  exact pairwise_lt_range.imp_of_mem fun _ hj hij => h _ _ hij (mem_range.1 hj)

/-- A list with distinct keys is what its entries are sorted to. -/
theorem eq_of_perm_of_strict {l m : List α} (hl : l.Pairwise fun x y => key x ≤ key y)
    (hm : m.Pairwise fun x y => key x < key y) (h : l.Perm m) : l = m := by
  have hnodup : (m.map key).Nodup := (pairwise_map.2 hm).imp ne_of_lt
  have hinj : ∀ x ∈ l, ∀ y ∈ m, key x ≤ key y → key y ≤ key x → x = y := fun x hx y hy hxy hyx =>
    inj_on_of_nodup_map hnodup (h.mem_iff.1 hx) hy (le_antisymm hxy hyx)
  exact h.eq_of_pairwise (fun x y hx hy => hinj x hx y hy) hl (hm.imp le_of_lt)

end

/-! ## Reversing -/

/-- The first `i` exchanges of the reversal of `m` entries. -/
def flipLoop (m : ℕ) : ℕ → (ℕ → α) → ℕ → α
  | 0, a => a
  | i + 1, a =>
    let a := flipLoop m i a
    Function.update (Function.update a i (a (m - 1 - i))) (m - 1 - i) (a i)

theorem flipLoop_apply {m i : ℕ} (hi : 2 * i ≤ m) (a : ℕ → α) (j : ℕ) :
    flipLoop m i a j = if j < i ∨ m - i ≤ j ∧ j < m then a (m - 1 - j) else a j := by
  induction i generalizing j with
  | zero =>
    rw [if_neg (by omega)]
    rfl
  | succ i ih =>
    have hleft := ih (by omega) i
    have hright := ih (by omega) (m - 1 - i)
    rw [if_neg (by omega)] at hleft hright
    rw [flipLoop, hleft, hright]
    obtain rfl | hj := eq_or_ne j (m - 1 - i)
    · rw [update_self, if_pos (by omega)]
      congr 1
      omega
    · rw [update_of_ne hj]
      obtain rfl | hji := eq_or_ne j i
      · rw [update_self, if_pos (by omega)]
      · rw [update_of_ne hji, ih (by omega)]
        refine if_congr ?_ rfl rfl
        omega

/-- The first `m` entries are reversed. -/
theorem firsts_flipLoop {m n : ℕ} (hm : m ≤ n) (a : ℕ → α) :
    firsts n (flipLoop m (m / 2) a) = ((firsts n a).take m).reverse ++ (firsts n a).drop m := by
  have htake : ((firsts n a).take m).length = m := by
    rw [length_take, length_firsts, min_eq_left hm]
  refine ext_getElem ?_ fun j h₁ h₂ => ?_
  · rw [length_append, length_reverse, htake, length_drop, length_firsts,
      length_firsts]
    omega
  · rw [length_firsts] at h₁
    have happly : (firsts n (flipLoop m (m / 2) a))[j] = flipLoop m (m / 2) a j := by
      simp only [firsts, getElem_map, getElem_range]
    rw [happly, flipLoop_apply (by omega)]
    by_cases hj : j < m
    · rw [getElem_append_left (by rw [length_reverse, htake]; exact hj),
        getElem_reverse, getElem_take]
      simp only [firsts, getElem_map, getElem_range, length_take, length_map,
        length_range, min_eq_left hm]
      split_ifs with hin
      · rfl
      · congr 1
        omega
    · rw [getElem_append_right (by rw [length_reverse, htake]; omega),
        getElem_drop, if_neg (by omega)]
      simp only [firsts, getElem_map, getElem_range, length_reverse,
        length_take, length_map, length_range, min_eq_left hm]
      congr 1
      omega

end Libmpp
