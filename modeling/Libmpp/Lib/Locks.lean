import Mathlib

/-!
# Counts under locks

Parties enter critical sections, one party at a time for each lock, and what a lock
protects has a count. Inside its section a party may be ahead of the count or behind it by
its lag; when the lock is free the count is right (`LockCounts`).

* A party enters with `acquire` and without a lag, changes the count or what is counted
  with `act`, and leaves with `release` when it has no lag.
-/

namespace Libmpp

open Function

variable {K G : Type*}

/-- Who holds a lock is inside its section, and the counts are right but for the lag of who
    is inside. -/
structure LockCounts (lock : K → Option G) (inside : G → Option K) (lag : G → ℤ)
    (count size : K → ℤ) : Prop where
  lock_iff : ∀ k g, lock k = some g ↔ inside g = some k
  count_eq : ∀ k, count k = size k + (lock k).elim 0 lag

namespace LockCounts

variable {lock : K → Option G} {inside : G → Option K} {lag : G → ℤ} {count size : K → ℤ}
  {k : K} {g : G}

theorem free : LockCounts (fun _ : K => (none : Option G)) (fun _ => none) (fun _ => 0)
    (fun _ => 0) fun _ => 0 :=
  ⟨fun _ _ => by simp, fun _ => rfl⟩

/-- Nobody is inside the section of a free lock, and the count is right. -/
theorem count_of_free (h : LockCounts lock inside lag count size) (hk : lock k = none) :
    count k = size k := by
  rw [h.count_eq, hk]
  exact add_zero _

/-- A lag counts for the lock the party holds only. -/
theorem elim_update [DecidableEq G] (h : LockCounts lock inside lag count size)
    (hg : inside g ≠ some k) (x : ℤ) :
    (lock k).elim 0 (update lag g x) = (lock k).elim 0 lag := by
  rcases hk : lock k with _ | g'
  · rfl
  · refine update_of_ne (fun heq => hg ?_) _ _
    rw [← heq]
    exact (h.lock_iff k g').1 hk

variable [DecidableEq G]

/-- A party inside changes what it has the lock of. -/
theorem act (h : LockCounts lock inside lag count size) (hg : inside g = some k) {x : ℤ}
    {count' size' : K → ℤ} (hcount : ∀ k', k' ≠ k → count' k' = count k')
    (hsize : ∀ k', k' ≠ k → size' k' = size k') (hx : count' k = size' k + x) :
    LockCounts lock inside (update lag g x) count' size' where
  lock_iff := h.lock_iff
  count_eq k' := by
    rcases eq_or_ne k' k with rfl | hk'
    · rw [(h.lock_iff k' g).2 hg, Option.elim_some, update_self]
      exact hx
    · rw [hcount k' hk', hsize k' hk', h.elim_update, h.count_eq]
      rw [hg]
      exact fun heq => hk' (Option.some.inj heq).symm

variable [DecidableEq K]

theorem acquire (h : LockCounts lock inside lag count size) (hk : lock k = none)
    (hg : inside g = none) :
    LockCounts (update lock k (some g)) (update inside g (some k))
      (update lag g 0) count size where
  lock_iff k' g' := by
    rcases eq_or_ne k' k with rfl | hk'
    · rw [update_self]
      rcases eq_or_ne g' g with rfl | hg'
      · simp
      · rw [update_of_ne hg', ← h.lock_iff, hk]
        simp [hg'.symm]
    · rw [update_of_ne hk', h.lock_iff]
      rcases eq_or_ne g' g with rfl | hg'
      · rw [update_self, hg]
        simp [hk'.symm]
      · rw [update_of_ne hg']
  count_eq k' := by
    rcases eq_or_ne k' k with rfl | hk'
    · rw [update_self, Option.elim_some, update_self, h.count_of_free hk, add_zero]
    · rw [update_of_ne hk', h.elim_update (by rw [hg]; simp), h.count_eq]

theorem release (h : LockCounts lock inside lag count size) (hg : inside g = some k)
    (hlag : lag g = 0) (x : ℤ) :
    LockCounts (update lock k none) (update inside g none)
      (update lag g x) count size where
  lock_iff k' g' := by
    rcases eq_or_ne g' g with rfl | hg'
    · rw [update_self]
      rcases eq_or_ne k' k with rfl | hk'
      · simp
      · rw [update_of_ne hk', h.lock_iff, hg]
        simp [hk'.symm]
    · rw [update_of_ne hg', ← h.lock_iff]
      rcases eq_or_ne k' k with rfl | hk'
      · rw [update_self, (h.lock_iff k' g).2 hg]
        simp [hg'.symm]
      · rw [update_of_ne hk']
  count_eq k' := by
    rcases eq_or_ne k' k with rfl | hk'
    · rw [update_self, h.count_eq, (h.lock_iff k' g).2 hg, Option.elim_some, hlag]
      rfl
    · rw [update_of_ne hk', h.elim_update, h.count_eq]
      rw [hg]
      exact fun heq => hk' (Option.some.inj heq).symm

end LockCounts

end Libmpp
