import Mathlib

/-!
# Start codes

A byte stream consists of start codes, three bytes `00 00 01` and the value of the code,
and of the bytes between them.

* `CodeAt l i` says that a start code stands at the position `i`, and `pieces` reads the
  stream from left to right.
* Before its first code a stream is bytes only (`pieces_of_first`), and without a code all
  of it is (`pieces_of_none`).
* Two streams are read one after the other unless a code is across the two
  (`pieces_append`).
-/

namespace Libmpp

open List

/-- A start code stands at `i`. -/
def CodeAt (l : List UInt8) (i : ℕ) : Prop :=
  l[i]? = some 0 ∧ l[i + 1]? = some 0 ∧ l[i + 2]? = some 1 ∧ i + 3 < l.length

instance (l : List UInt8) (i : ℕ) : Decidable (CodeAt l i) :=
  inferInstanceAs (Decidable (_ ∧ _))

/-- What a stream consists of. -/
inductive Piece
  | code (x : UInt8)
  | byte (b : UInt8)
  deriving DecidableEq, Repr

/-- The pieces of a stream. -/
def pieces : List UInt8 → List Piece
  | [] => []
  | 0 :: 0 :: 1 :: x :: l => .code x :: pieces l
  | b :: l => .byte b :: pieces l

/-- The number of bytes of a piece. -/
def Piece.size : Piece → ℕ
  | .code _ => 4
  | .byte _ => 1

/-- The number of bytes of pieces. -/
def piecesSize (ps : List Piece) : ℕ := (ps.map Piece.size).sum

@[simp] theorem piecesSize_nil : piecesSize [] = 0 := rfl

@[simp] theorem piecesSize_cons (p : Piece) (ps : List Piece) :
    piecesSize (p :: ps) = p.size + piecesSize ps := by
  rw [piecesSize, map_cons, sum_cons, piecesSize]

variable {l m : List UInt8} {i : ℕ}

theorem codeAt_cons (b : UInt8) (l : List UInt8) (i : ℕ) : CodeAt (b :: l) (i + 1) ↔ CodeAt l i := by
  rw [CodeAt, CodeAt, length_cons, show i + 1 + 3 = i + 3 + 1 by omega, Nat.add_lt_add_iff_right]
  rfl

theorem codeAt_zero_iff : CodeAt l 0 ↔ ∃ x m, l = 0 :: 0 :: 1 :: x :: m := by
  constructor
  · rintro ⟨h0, h1, h2, hlt⟩
    match l, h0, h1, h2, hlt with
    | a :: b :: c :: x :: m, h0, h1, h2, _ =>
      obtain rfl := Option.some.inj h0
      obtain rfl := Option.some.inj h1
      obtain rfl := Option.some.inj h2
      exact ⟨x, m, rfl⟩
  · rintro ⟨x, m, rfl⟩
    exact ⟨rfl, rfl, rfl, by simp⟩

theorem codeAt_drop (l : List UInt8) (n i : ℕ) : CodeAt (l.drop n) i ↔ CodeAt l (n + i) := by
  induction n generalizing l with
  | zero => rw [drop_zero, Nat.zero_add]
  | succ n ih =>
    cases l with
    | nil => simp [CodeAt]
    | cons b l => rw [drop_succ_cons, ih, Nat.succ_add, codeAt_cons]

/-- A code within the first stream. -/
theorem codeAt_append_left (h : i + 3 < l.length) (m : List UInt8) :
    CodeAt (l ++ m) i ↔ CodeAt l i := by
  have hlt : i + 3 < (l ++ m).length := by
    rw [length_append]
    omega
  rw [CodeAt, CodeAt, getElem?_append_left (by omega), getElem?_append_left (by omega),
    getElem?_append_left (by omega), eq_true hlt, eq_true h]

theorem codeAt_append_right (l m : List UInt8) (i : ℕ) :
    CodeAt (l ++ m) (l.length + i) ↔ CodeAt m i := by
  rw [← codeAt_drop, drop_left]

theorem pieces_code (x : UInt8) (l : List UInt8) :
    pieces (0 :: 0 :: 1 :: x :: l) = .code x :: pieces l := by
  rw [pieces]

theorem pieces_byte {b : UInt8} (h : ¬CodeAt (b :: l) 0) : pieces (b :: l) = .byte b :: pieces l := by
  rw [pieces]
  rintro x m rfl hl
  rw [hl] at h
  exact h (codeAt_zero_iff.2 ⟨x, m, rfl⟩)

/-- A stream without a code. -/
theorem pieces_of_none (h : ∀ i, ¬CodeAt l i) : pieces l = l.map .byte := by
  induction l with
  | nil => rfl
  | cons b l ih =>
    rw [pieces_byte (h 0), map_cons, ih fun i hi => h (i + 1) ((codeAt_cons b l i).2 hi)]

/-- A stream with its first code. -/
theorem pieces_of_first (hi : CodeAt l i) (h : ∀ j < i, ¬CodeAt l j) :
    ∃ x, l[i + 3]? = some x ∧
      pieces l = (l.take i).map .byte ++ .code x :: pieces (l.drop (i + 4)) := by
  induction i generalizing l with
  | zero =>
    obtain ⟨x, m, rfl⟩ := codeAt_zero_iff.1 hi
    exact ⟨x, rfl, pieces_code x m⟩
  | succ i ih =>
    cases l with
    | nil => simp [CodeAt] at hi
    | cons b l =>
      obtain ⟨x, hx, heq⟩ := ih ((codeAt_cons b l i).1 hi) fun j hj hcode =>
        h (j + 1) (by omega) ((codeAt_cons b l j).2 hcode)
      refine ⟨x, hx, ?_⟩
      rw [pieces_byte (h 0 (by omega)), heq]
      rfl

/-- No code is across the two streams. -/
theorem pieces_append (h : ∀ i < l.length, l.length < i + 4 → ¬CodeAt (l ++ m) i) :
    pieces (l ++ m) = pieces l ++ pieces m := by
  induction hn : l.length using Nat.strong_induction_on generalizing l with
  | _ n ih =>
    by_cases hzero : CodeAt l 0
    · obtain ⟨x, l, rfl⟩ := codeAt_zero_iff.1 hzero
      rw [cons_append, cons_append, cons_append, cons_append, pieces_code,
        pieces_code, cons_append]
      refine congrArg _ (ih l.length (by simp [← hn]; omega) (fun i hi hlt hcode => ?_) rfl)
      refine h (i + 4) (by simp; omega) (by simp; omega) ?_
      have hdrop := (codeAt_append_right [0, 0, 1, x] (l ++ m) i).2 hcode
      rwa [show [(0 : UInt8), 0, 1, x].length + i = i + 4 by simp; omega] at hdrop
    · cases l with
      | nil => rfl
      | cons b l =>
        have hnone : ¬CodeAt (b :: (l ++ m)) 0 := by
          intro hcode
          by_cases hlen : 4 ≤ (b :: l).length
          · exact hzero ((codeAt_append_left (by omega) m).1 hcode)
          · exact h 0 (by simp) (by omega) hcode
        rw [cons_append, pieces_byte hnone, pieces_byte hzero, cons_append]
        refine congrArg _ (ih l.length (by simp [← hn]) (fun i hi hlt hcode => ?_) rfl)
        exact h (i + 1) (by simp; omega) (by simp; omega) ((codeAt_cons b (l ++ m) i).2 hcode)

theorem piecesSize_pieces (l : List UInt8) : piecesSize (pieces l) = l.length := by
  induction hn : l.length using Nat.strong_induction_on generalizing l with
  | _ n ih =>
    by_cases hzero : CodeAt l 0
    · obtain ⟨x, l, rfl⟩ := codeAt_zero_iff.1 hzero
      rw [pieces_code, piecesSize_cons, ih l.length (by simp [← hn]; omega) l rfl, Piece.size, ← hn]
      simp only [length_cons]
      omega
    · cases l with
      | nil => exact hn
      | cons b l =>
        rw [pieces_byte hzero, piecesSize_cons, ih l.length (by simp [← hn]) l rfl, Piece.size, ← hn,
          length_cons, Nat.add_comm]

end Libmpp
