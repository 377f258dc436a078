import Mathlib

/-!
# Buffers that are filled from the front

A buffer is an array with the length of what has been put into it; what comes next is put
behind that. A *view* is a position and a length; it stays as it is when more is put behind it
(`read_append_of_le`), and a view that ends where the buffer ends grows with it
(`read_append`).
-/

namespace Libmpp

open List

/-- An array, and the length of what is in it. -/
structure AppendBuffer (α : Type*) where
  cell : ℕ → α
  len : ℕ

namespace AppendBuffer

variable {α : Type*}

/-- The buffer with more behind its contents. -/
def append (b : AppendBuffer α) (l : List α) : AppendBuffer α where
  cell i := if b.len ≤ i then (l[i - b.len]?).getD (b.cell i) else b.cell i
  len := b.len + l.length

/-- What a view shows. -/
def read (b : AppendBuffer α) (pos n : ℕ) : List α := (List.range n).map fun k => b.cell (pos + k)

variable {b : AppendBuffer α} {l : List α} {pos n : ℕ}

@[simp]
theorem len_append : (b.append l).len = b.len + l.length := rfl

theorem cell_append_of_lt {i : ℕ} (h : i < b.len) : (b.append l).cell i = b.cell i :=
  if_neg (not_le.2 h)

theorem cell_append_add {k : ℕ} (h : k < l.length) : (b.append l).cell (b.len + k) = l[k] := by
  rw [append]
  dsimp only
  rw [if_pos (Nat.le_add_right _ _), Nat.add_sub_cancel_left, getElem?_eq_getElem h,
    Option.getD_some]

/-- A view of the contents stays as it is. -/
theorem read_append_of_le (h : pos + n ≤ b.len) : (b.append l).read pos n = b.read pos n := by
  refine map_congr_left fun k hk => cell_append_of_lt ?_
  have := mem_range.1 hk
  omega

/-- A view that ends where the contents do grows by what is put behind them. -/
theorem read_append (h : pos + n = b.len) :
    (b.append l).read pos (n + l.length) = b.read pos n ++ l := by
  have hbehind : (List.range l.length).map (fun k => (b.append l).cell (pos + (n + k))) = l := by
    refine ext_getElem (by rw [length_map, length_range]) fun k hk hk' => ?_
    rw [getElem_map, getElem_range, ← Nat.add_assoc, h, cell_append_add hk']
  rw [← read_append_of_le (l := l) h.le, read, range_add, map_append, map_map]
  exact congrArg _ hbehind

end AppendBuffer

end Libmpp
