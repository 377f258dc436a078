import Mathlib

/-!
# Accumulators

An *accumulator* adds `o` to its value at every step, and when that gets to the modulus `m`,
takes `m` away and fires. So it fires on `o` of `m` steps, as evenly as whole steps allow.

* After `n` steps from the value `c`, `c + n * o` is `m` for every time it fired, and the value
  (`accRun_count`).
* The number of times it fires in `n` steps is within one of `n * o / m` (`accRun_near`), so it
  is that number rounded down or up (`eq_floor_or_ceil`).
* A part of a run is a run from the value before it (`accRun_infix`).
-/

namespace Libmpp

open List

/-- A step: the next value, and whether the accumulator fires. -/
def accStep (m o c : ℕ) : ℕ × Bool := if c + o < m then (c + o, false) else (c + o - m, true)

/-- The value after some steps. -/
def accRest (m o : ℕ) : ℕ → ℕ → ℕ
  | 0, c => c
  | n + 1, c => accRest m o n (accStep m o c).1

/-- Whether the accumulator fires, step by step. -/
def accRun (m o : ℕ) : ℕ → ℕ → List Bool
  | 0, _ => []
  | n + 1, c => (accStep m o c).2 :: accRun m o n (accStep m o c).1

section

variable {m o c : ℕ}

theorem accStep_lt (hc : c < m) (ho : o ≤ m) : (accStep m o c).1 < m := by
  rw [accStep]
  split_ifs with h
  · exact h
  · dsimp only
    omega

/-- What is added stays in the value, or is the modulus when the accumulator fires. -/
theorem accStep_add (m o c : ℕ) :
    c + o = m * [(accStep m o c).2].count true + (accStep m o c).1 := by
  rw [accStep]
  split_ifs with h
  · rw [count_singleton, if_neg (by simp), Nat.mul_zero, Nat.zero_add]
  · rw [count_singleton, if_pos (by simp), Nat.mul_one]
    dsimp only
    omega

theorem length_accRun (m o n c : ℕ) : (accRun m o n c).length = n := by
  induction n generalizing c with
  | zero => rfl
  | succ n ih => rw [accRun, length_cons, ih]

theorem accRest_lt (hc : c < m) (ho : o ≤ m) (n : ℕ) : accRest m o n c < m := by
  induction n generalizing c with
  | zero => exact hc
  | succ n ih => exact ih (accStep_lt hc ho)

theorem accRun_count (m o n c : ℕ) :
    c + n * o = m * (accRun m o n c).count true + accRest m o n c := by
  induction n generalizing c with
  | zero => rw [accRun, count_nil, Nat.zero_mul, Nat.mul_zero, Nat.zero_add]; rfl
  | succ n ih =>
    have hstep := accStep_add m o c
    have hrest := ih (accStep m o c).1
    rw [accRun, accRest, ← singleton_append, count_append, Nat.mul_add, Nat.succ_mul]
    omega

theorem accRun_add (m o k n c : ℕ) :
    accRun m o (k + n) c = accRun m o k c ++ accRun m o n (accRest m o k c) := by
  induction k generalizing c with
  | zero => rw [Nat.zero_add]; rfl
  | succ k ih => rw [Nat.succ_add, accRun, ih, accRun, cons_append, accRest]

theorem accRest_add (m o k n c : ℕ) :
    accRest m o (k + n) c = accRest m o n (accRest m o k c) := by
  induction k generalizing c with
  | zero => rw [Nat.zero_add]; rfl
  | succ k ih => rw [Nat.succ_add, accRest, ih, accRest]

/-- A part of a run is a run from the value before it. -/
theorem accRun_infix {n : ℕ} {a w b : List Bool} (h : accRun m o n c = a ++ w ++ b) :
    w = accRun m o w.length (accRest m o a.length c) := by
  have hn : n = a.length + w.length + b.length := by
    rw [← length_accRun m o n c, h, length_append, length_append]
  rw [hn, accRun_add, accRun_add] at h
  have hfront := (append_inj h (by simp [length_accRun])).1
  exact (append_inj hfront (length_accRun ..)).2.symm

/-- The accumulator fires on `o` of `m` steps. -/
theorem accRun_near (hc : c < m) (ho : o ≤ m) (n : ℕ) :
    |((accRun m o n c).count true : ℚ) - n * (o / m)| < 1 := by
  have hm : (0 : ℚ) < m := by exact_mod_cast (Nat.zero_le c).trans_lt hc
  have hcount : (c : ℚ) + n * o = m * (accRun m o n c).count true + accRest m o n c := by
    exact_mod_cast accRun_count m o n c
  have hrest : (accRest m o n c : ℚ) < m := by exact_mod_cast accRest_lt hc ho n
  have hstart : (c : ℚ) < m := by exact_mod_cast hc
  have hdiff : ((accRun m o n c).count true : ℚ) - n * (o / m) = (c - accRest m o n c) / m := by
    field_simp
    linarith
  have h0 : (0 : ℚ) ≤ accRest m o n c := Nat.cast_nonneg _
  have h0' : (0 : ℚ) ≤ c := Nat.cast_nonneg _
  rw [hdiff, abs_lt, lt_div_iff₀ hm, div_lt_iff₀ hm]
  constructor <;> linarith

end

/-- A whole number within one of `q` is `q` rounded down or up. -/
theorem eq_floor_or_ceil {k : ℤ} {q : ℚ} (h : |(k : ℚ) - q| < 1) : k = ⌊q⌋ ∨ k = ⌈q⌉ := by
  rw [abs_lt] at h
  rcases le_total (k : ℚ) q with hle | hle
  · exact .inl (Int.floor_eq_iff.2 ⟨hle, by linarith⟩).symm
  · exact .inr (Int.ceil_eq_iff.2 ⟨by linarith, hle⟩).symm

end Libmpp
