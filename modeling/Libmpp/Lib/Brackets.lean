import Mathlib

/-!
# Texts with brackets

A text with brackets and strings. A string stands between two quotes, and brackets in it do not
count. A text is `Balanced` when it opens and closes the same number of brackets, and never
closes one that was opened before it. Without looking at which bracket closes which, this is
enough to say where a bracketed text ends: a start of it that is not empty has a bracket open,
up to the last byte (`Balanced.scan_ne`).
-/

namespace Libmpp

open List

variable {α : Type*} [DecidableEq α]

/-- The bytes of a text with a meaning. -/
structure Brackets (α : Type*) where
  quote : α
  opening : α → Bool
  closing : α → Bool

namespace Brackets

variable (b : Brackets α)

/-- Whether a string is open, and the number of open brackets, behind one more byte. -/
def step : Bool × ℤ → α → Bool × ℤ
  | (true, k), c => (c ≠ b.quote, k)
  | (false, k), c =>
    if c = b.quote then (true, k)
    else if b.opening c then (false, k + 1)
    else if b.closing c then (false, k - 1)
    else (false, k)

def scan (s : Bool × ℤ) (w : List α) : Bool × ℤ := w.foldl b.step s

structure Balanced (w : List α) : Prop where
  scan_eq : ∀ k, b.scan (false, k) w = (false, k)
  le_scan : ∀ k p, p <+: w → k ≤ (b.scan (false, k) p).2

/-- The byte is neither a quote nor a bracket. -/
def Plain (c : α) : Prop := c ≠ b.quote ∧ b.opening c = false ∧ b.closing c = false

variable {b}

theorem scan_append (s : Bool × ℤ) (w v : List α) :
    b.scan s (w ++ v) = b.scan (b.scan s w) v :=
  foldl_append

theorem step_plain {c : α} (h : b.Plain c) (k : ℤ) : b.step (false, k) c = (false, k) := by
  simp [step, h.1, h.2.1, h.2.2]

theorem Balanced.nil : b.Balanced [] where
  scan_eq _ := rfl
  le_scan k p hp := by
    obtain rfl := prefix_nil.1 hp
    exact le_rfl

theorem Balanced.append {w v : List α} (hw : b.Balanced w) (hv : b.Balanced v) :
    b.Balanced (w ++ v) where
  scan_eq k := by rw [scan_append, hw.scan_eq, hv.scan_eq]
  le_scan k p hp := by
    obtain ⟨q, hq⟩ := hp
    rcases append_eq_append_iff.1 hq with ⟨p', hw', -⟩ | ⟨p', rfl, hv'⟩
    · exact hw.le_scan k p ⟨p', hw'.symm⟩
    · rw [scan_append, hw.scan_eq]
      exact hv.le_scan k p' ⟨q, hv'.symm⟩

theorem Balanced.of_plain {w : List α} (h : ∀ c ∈ w, b.Plain c) : b.Balanced w := by
  induction w with
  | nil => exact .nil
  | cons c w ih =>
    have hc := h c mem_cons_self
    refine Balanced.append (w := [c]) ⟨fun k => step_plain hc k, fun k p hp => ?_⟩
      (ih fun d hd => h d (mem_cons_of_mem c hd))
    rcases prefix_cons_iff.1 hp with rfl | ⟨t, rfl, ht⟩
    · exact le_rfl
    · obtain rfl := prefix_nil.1 ht
      exact (congrArg Prod.snd (step_plain hc k)).ge

/-- A plain byte changes nothing but that the scan may be in a string. -/
theorem scan_concat_plain {c : α} (h : b.Plain c) (s : Bool × ℤ) (w : List α) :
    (b.scan s (w ++ [c])).2 = (b.scan s w).2 := by
  rw [scan_append]
  rcases b.scan s w with ⟨_ | _, k⟩
  · exact congrArg Prod.snd (step_plain h k)
  · rfl

/-- In a string only the quote counts. -/
theorem scan_string {w : List α} (h : b.quote ∉ w) (k : ℤ) : b.scan (true, k) w = (true, k) := by
  induction w with
  | nil => rfl
  | cons c w ih =>
    have hc : c ≠ b.quote := fun h' => h (h' ▸ mem_cons_self)
    have hstep : b.step (true, k) c = (true, k) := by simp [step, hc]
    rw [scan, foldl_cons, hstep]
    exact ih fun hw => h (mem_cons_of_mem c hw)

theorem Balanced.string {w : List α} (h : b.quote ∉ w) :
    b.Balanced ([b.quote] ++ w ++ [b.quote]) := by
  have hopen : ∀ k, b.scan (false, k) [b.quote] = (true, k) := fun k => by simp [scan, step]
  have hclose : ∀ k, b.scan (true, k) [b.quote] = (false, k) := fun k => by simp [scan, step]
  refine ⟨fun k => by rw [scan_append, scan_append, hopen, scan_string h, hclose], ?_⟩
  intro k p hp
  rw [append_assoc, singleton_append] at hp
  rcases prefix_cons_iff.1 hp with rfl | ⟨p', rfl, hp'⟩
  · exact le_rfl
  rw [← singleton_append, scan_append, hopen]
  rcases prefix_concat_iff.1 hp' with rfl | hp'
  · rw [scan_append, scan_string h, hclose]
  · rw [scan_string fun hq => h (hp'.subset hq)]

theorem Balanced.bracket {w : List α} {o c : α} (hw : b.Balanced w) (ho : b.opening o)
    (ho' : o ≠ b.quote) (hc : b.closing c) (hc' : c ≠ b.quote) (hc'' : b.opening c = false) :
    b.Balanced ([o] ++ w ++ [c]) := by
  have hopen : ∀ k, b.scan (false, k) [o] = (false, k + 1) := fun k => by
    simp [scan, step, ho, ho']
  have hclose : ∀ k, b.scan (false, k + 1) [c] = (false, k) := fun k => by
    simp [scan, step, hc, hc', hc'']
  refine ⟨fun k => by rw [scan_append, scan_append, hopen, hw.scan_eq, hclose], ?_⟩
  intro k p hp
  rw [append_assoc, singleton_append] at hp
  rcases prefix_cons_iff.1 hp with rfl | ⟨p', rfl, hp'⟩
  · exact le_rfl
  rw [← singleton_append, scan_append, hopen]
  rcases prefix_concat_iff.1 hp' with rfl | hp'
  · rw [scan_append, hw.scan_eq, hclose]
  · exact (Int.le_of_lt (lt_add_one k)).trans (hw.le_scan (k + 1) p' hp')

/-- Before its closing bracket, a bracketed text has not come back to where it started. -/
theorem Balanced.scan_ne {w p : List α} {o : α} (hw : b.Balanced w) (ho : b.opening o)
    (ho' : o ≠ b.quote) (hp : p <+: o :: w) (hne : p ≠ []) (k : ℤ) :
    k < (b.scan (false, k) p).2 := by
  rcases prefix_cons_iff.1 hp with rfl | ⟨p', rfl, hp'⟩
  · exact absurd rfl hne
  have hopen : b.step (false, k) o = (false, k + 1) := by simp [step, ho, ho']
  rw [scan, foldl_cons, hopen]
  exact Int.lt_of_lt_of_le (lt_add_one k) (hw.le_scan (k + 1) p' hp')

end Brackets

end Libmpp
