import Mathlib

/-!
# Emulation prevention

The payload of a NAL unit is written with *emulation prevention*: where two zero bytes
would be followed by a byte below `4`, a byte `3` is inserted before it, so that no
start code comes up inside the unit.

* `escapeMarked z l` are the bytes written for the payload `l` behind `z` zero bytes,
  each with a mark that says whether it is inserted.
* The bytes without a mark are the payload (`payload_escapeMarked`), and two zero bytes
  are followed by a byte above `3` or by an inserted one (`protected_escapeMarked`).
-/

namespace Libmpp

open List

/-- The length of the run of zero bytes, after the byte `b`. -/
def nextZeros (z : ℕ) (b : UInt8) : ℕ := if b = 0 then z + 1 else 0

/-- A byte behind `z` zero bytes is to be escaped. -/
def Escapes (z : ℕ) (b : UInt8) : Prop := z = 2 ∧ b < 4

instance (z : ℕ) (b : UInt8) : Decidable (Escapes z b) := inferInstanceAs (Decidable (_ ∧ _))

/-- The run of zero bytes after `b` has been written behind one of length `z`. -/
def writtenZeros (z : ℕ) (b : UInt8) : ℕ := nextZeros (if Escapes z b then 0 else z) b

/-- The bytes written for a payload behind `z` zero bytes; the inserted ones are marked. -/
def escapeMarked : ℕ → List UInt8 → List (UInt8 × Bool)
  | _, [] => []
  | z, b :: l =>
    (if Escapes z b then [(3, true), (b, false)] else [(b, false)]) ++
      escapeMarked (writtenZeros z b) l

/-- The run of zero bytes after a payload is written. -/
def zerosAfter : ℕ → List UInt8 → ℕ := List.foldl writtenZeros

/-- The bytes that are not inserted. -/
def payload (m : List (UInt8 × Bool)) : List UInt8 := (m.filter fun p => !p.2).map Prod.fst

/-- The number of inserted bytes. -/
def insertedCnt (m : List (UInt8 × Bool)) : ℕ := m.countP fun p => p.2

theorem insertedCnt_append (l m : List (UInt8 × Bool)) :
    insertedCnt (l ++ m) = insertedCnt l + insertedCnt m :=
  countP_append

variable {z : ℕ}

theorem writtenZeros_le (hz : z ≤ 2) (b : UInt8) : writtenZeros z b ≤ 2 := by
  unfold writtenZeros nextZeros
  by_cases hb : b = 0
  · subst hb
    rw [if_pos rfl]
    split_ifs with he
    · omega
    · have : ¬z = 2 := fun h => he ⟨h, by decide⟩
      omega
  · rw [if_neg hb]
    exact Nat.zero_le 2

theorem escapeMarked_append (z : ℕ) (l m : List UInt8) :
    escapeMarked z (l ++ m) = escapeMarked z l ++ escapeMarked (zerosAfter z l) m := by
  induction l generalizing z with
  | nil => rfl
  | cons b l ih =>
    rw [cons_append, escapeMarked, ih, escapeMarked, append_assoc]
    rfl

theorem zerosAfter_append (z : ℕ) (l m : List UInt8) :
    zerosAfter z (l ++ m) = zerosAfter (zerosAfter z l) m :=
  foldl_append ..

/-- The bytes written are those of the payload and the inserted ones. -/
theorem length_escapeMarked (z : ℕ) (l : List UInt8) :
    (escapeMarked z l).length = l.length + insertedCnt (escapeMarked z l) := by
  induction l generalizing z with
  | nil => rfl
  | cons b l ih =>
    rw [escapeMarked, length_append, ih, insertedCnt_append, length_cons]
    split
    · have hone : insertedCnt [(3, true), (b, false)] = 1 := rfl
      rw [hone, length_cons, length_singleton]
      ring
    · have hnone : insertedCnt [(b, false)] = 0 := rfl
      rw [hnone, length_singleton]
      ring

/-- The payload is what is written without the inserted bytes. -/
theorem payload_escapeMarked (z : ℕ) (l : List UInt8) : payload (escapeMarked z l) = l := by
  induction l generalizing z with
  | nil => rfl
  | cons b l ih =>
    rw [escapeMarked, payload, filter_append, map_append]
    have hb : ((if Escapes z b then [(3, true), (b, false)] else [(b, false)]).filter
        fun p => !p.2).map Prod.fst = [b] := by
      split_ifs <;> rfl
    rw [hb]
    exact congrArg (b :: ·) (ih _)

/-! ## No start codes -/

/-- Behind `z` zero bytes, no two zero bytes are followed by a byte below `3`, and by a
    `3` only if it is inserted. -/
def Protected : ℕ → List (UInt8 × Bool) → Prop
  | _, [] => True
  | z, p :: m => (2 ≤ z → 3 ≤ p.1 ∧ (p.1 = 3 → p.2)) ∧ Protected (nextZeros z p.1) m

/-- What is written is protected. -/
theorem protected_escapeMarked (hz : z ≤ 2) (l : List UInt8) : Protected z (escapeMarked z l) := by
  induction l generalizing z with
  | nil => trivial
  | cons b l ih =>
    have hrest := ih (writtenZeros_le hz b)
    rw [escapeMarked]
    by_cases he : Escapes z b
    · rw [if_pos he]
      rw [writtenZeros, if_pos he] at hrest ⊢
      refine ⟨fun _ => ⟨UInt8.le_refl 3, fun _ => rfl⟩, fun h => absurd h ?_, hrest⟩
      rw [nextZeros, if_neg (by decide)]
      decide
    · rw [if_neg he]
      rw [writtenZeros, if_neg he] at hrest ⊢
      refine ⟨fun h2 => ?_, hrest⟩
      have hb : 4 ≤ b := UInt8.not_lt.1 fun h => he ⟨le_antisymm hz h2, h⟩
      refine ⟨UInt8.le_trans (by decide) hb, ?_⟩
      rintro rfl
      exact absurd hb (by decide)

variable {m : List (UInt8 × Bool)}

theorem Protected.mono {z' : ℕ} (hz : z' ≤ z) (h : Protected z m) : Protected z' m := by
  induction m generalizing z z' with
  | nil => trivial
  | cons p m ih =>
    refine ⟨fun h2 => h.1 (h2.trans hz), ih ?_ h.2⟩
    unfold nextZeros
    split_ifs <;> omega

theorem Protected.of_append {l : List (UInt8 × Bool)} (h : Protected z (l ++ m)) :
    Protected 0 m := by
  induction l generalizing z with
  | nil => exact h.mono (Nat.zero_le z)
  | cons p l ih => exact ih h.2

/-- In protected bytes, two zero bytes are followed by a byte above `3` or an inserted one. -/
theorem Protected.of_infix (h : Protected z m) {x : UInt8} {i j k : Bool}
    (hin : [(0, i), (0, j), (x, k)] <:+: m) : 3 ≤ x ∧ (x = 3 → k) := by
  obtain ⟨l, r, rfl⟩ := hin
  rw [append_assoc] at h
  exact h.of_append.2.2.1 le_rfl

/-- No start code comes up in protected bytes. -/
theorem Protected.not_infix (h : Protected z m) {x : UInt8} (hx : x ≤ 2) :
    ¬[0, 0, x] <:+: m.map Prod.fst := by
  rintro ⟨l, r, hlr⟩
  rw [append_assoc] at hlr
  obtain ⟨l', m', rfl, -, hm⟩ := map_eq_append_iff.1 hlr.symm
  obtain ⟨t, r', rfl, ht, -⟩ := map_eq_append_iff.1 hm
  match t, ht with
  | [(a, i), (b, j), (c, k)], ht =>
    simp only [map_cons, map_nil, List.cons.injEq, and_true] at ht
    obtain ⟨rfl, rfl, rfl⟩ := ht
    have := (h.of_infix ⟨l', r', by rw [append_assoc]⟩).1
    exact absurd (UInt8.le_trans this hx) (by decide)

end Libmpp
