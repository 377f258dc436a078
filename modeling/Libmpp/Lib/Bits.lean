import Mathlib

/-!
# Bit strings

Numbers as bit strings, the most significant bit first, as they stand in a
bitstream.

* `toBits n v` are the `n` low bits of `v`, and `ofBits` the number of a bit string;
  the two are inverse (`ofBits_toBits`, `toBits_ofBits`).
* A string of two parts is a number of two parts (`ofBits_append`): a left aligned
  word takes more bits by adding them below (`or_eq_add`), and gives its top
  bits by a shift.
* `bytesToBits` is the bit string of a list of bytes.
* `lowBits n v` are the `n` low bits of `v` the other way round, the least significant
  one first.
-/

namespace Libmpp

open List

/-- The `n` low bits of `v`, the most significant one first. -/
def toBits : ℕ → ℕ → List Bool
  | 0, _ => []
  | n + 1, v => v.testBit n :: toBits n v

/-- The number of a bit string. -/
def ofBits : List Bool → ℕ
  | [] => 0
  | b :: l => b.toNat * 2 ^ l.length + ofBits l

theorem toBits_succ (n v : ℕ) : toBits (n + 1) v = v.testBit n :: toBits n v := rfl

theorem ofBits_cons (b : Bool) (l : List Bool) :
    ofBits (b :: l) = b.toNat * 2 ^ l.length + ofBits l := rfl

@[simp] theorem length_toBits (n v : ℕ) : (toBits n v).length = n := by
  induction n with
  | zero => rfl
  | succ n ih => rw [toBits_succ, length_cons, ih]

theorem ofBits_lt (l : List Bool) : ofBits l < 2 ^ l.length := by
  induction l with
  | nil => exact Nat.one_pos
  | cons b l ih =>
    have hb : b.toNat ≤ 1 := Bool.toNat_le b
    have hmul : b.toNat * 2 ^ l.length ≤ 1 * 2 ^ l.length := Nat.mul_le_mul_right _ hb
    rw [ofBits_cons, length_cons, pow_succ]
    omega

theorem ofBits_append (l m : List Bool) : ofBits (l ++ m) = ofBits l * 2 ^ m.length + ofBits m := by
  induction l with
  | nil => simp [ofBits]
  | cons b l ih =>
    rw [cons_append, ofBits_cons, ih, ofBits_cons, length_append, pow_add]
    ring

/-- The number of the low bits. -/
theorem ofBits_toBits_mod (n v : ℕ) : ofBits (toBits n v) = v % 2 ^ n := by
  induction n with
  | zero => exact (Nat.mod_one v).symm
  | succ n ih =>
    rw [toBits_succ, ofBits_cons, ih, length_toBits, Nat.mod_pow_succ, ← Nat.toNat_testBit, mul_comm,
      add_comm]

/-- A number is read back from as many bits as it has. -/
theorem ofBits_toBits {n v : ℕ} (h : v < 2 ^ n) : ofBits (toBits n v) = v := by
  rw [ofBits_toBits_mod, Nat.mod_eq_of_lt h]

theorem testBit_ofBits_cons (b : Bool) (l : List Bool) : (ofBits (b :: l)).testBit l.length = b := by
  rw [ofBits_cons, mul_comm, Nat.testBit_two_pow_mul_add _ (ofBits_lt l), if_neg (lt_irrefl _),
    Nat.sub_self]
  cases b <;> rfl

/-- The bits above do not matter. -/
theorem toBits_add_mul (n k v : ℕ) : toBits n (k * 2 ^ n + v) = toBits n v := by
  suffices h : ∀ m ≤ n, toBits m (k * 2 ^ n + v) = toBits m v from h n le_rfl
  intro m hm
  induction m with
  | zero => rfl
  | succ m ih =>
    rw [toBits_succ, toBits_succ, ih (by omega)]
    have hbit : (k * 2 ^ n + v).testBit m = v.testBit m := by
      have h := congrArg (fun x => x.testBit m) (Nat.mul_add_mod' k (2 ^ n) v)
      simp only [Nat.testBit_mod_two_pow] at h
      simpa [show m < n by omega] using h
    rw [hbit]

/-- A bit string is read back from its number. -/
theorem toBits_ofBits (l : List Bool) : toBits l.length (ofBits l) = l := by
  induction l with
  | nil => rfl
  | cons b l ih =>
    rw [length_cons, toBits_succ, testBit_ofBits_cons, ofBits_cons, toBits_add_mul, ih]

@[simp] theorem toBits_mod (n v : ℕ) : toBits n (v % 2 ^ n) = toBits n v := by
  have h := toBits_ofBits (toBits n v)
  rwa [length_toBits, ofBits_toBits_mod] at h

theorem toBits_eq_of_ofBits {n v : ℕ} {l : List Bool} (hl : l.length = n) (h : ofBits l = v) :
    toBits n v = l := by
  rw [← hl, ← h, toBits_ofBits]

/-- The bits of a number in two parts. -/
theorem toBits_add (m n v : ℕ) : toBits (m + n) v = toBits m (v / 2 ^ n) ++ toBits n v := by
  induction m with
  | zero => rw [Nat.zero_add]; rfl
  | succ m ih =>
    rw [Nat.add_right_comm, toBits_succ, ih, toBits_succ, cons_append, Nat.testBit_div_two_pow,
      Nat.add_comm]

/-- The bits of a number put behind a bit string. -/
theorem toBits_append_of_lt (l : List Bool) {n v : ℕ} (h : v < 2 ^ n) :
    toBits (n + l.length) (ofBits l * 2 ^ n + v) = l ++ toBits n v := by
  rw [Nat.add_comm n, toBits_add, toBits_add_mul, mul_comm (ofBits l),
    Nat.mul_add_div (Nat.two_pow_pos n), Nat.div_eq_of_lt h, Nat.add_zero, toBits_ofBits]

@[simp] theorem toBits_zero (n : ℕ) : toBits n 0 = List.replicate n false := by
  induction n with
  | zero => rfl
  | succ n ih => rw [toBits_succ, ih, Nat.zero_testBit, replicate_succ]

/-! ## Bytes -/

/-- The bit string of a list of bytes. -/
def bytesToBits (l : List UInt8) : List Bool := l.flatMap fun b => toBits 8 b.toNat

@[simp] theorem bytesToBits_nil : bytesToBits [] = [] := rfl

@[simp] theorem bytesToBits_cons (b : UInt8) (l : List UInt8) :
    bytesToBits (b :: l) = toBits 8 b.toNat ++ bytesToBits l :=
  flatMap_cons ..

@[simp] theorem bytesToBits_append (l m : List UInt8) :
    bytesToBits (l ++ m) = bytesToBits l ++ bytesToBits m :=
  flatMap_append ..

@[simp] theorem length_bytesToBits (l : List UInt8) : (bytesToBits l).length = 8 * l.length := by
  induction l with
  | nil => rfl
  | cons b l ih => rw [bytesToBits_cons, length_append, length_toBits, ih, length_cons]; ring

/-! ## The least significant bit first -/

/-- The `n` low bits of `v`, the least significant one first. -/
def lowBits (n v : ℕ) : List Bool := (toBits n v).reverse

@[simp] theorem length_lowBits (n v : ℕ) : (lowBits n v).length = n := by
  rw [lowBits, length_reverse, length_toBits]

@[simp] theorem lowBits_mod (n v : ℕ) : lowBits n (v % 2 ^ n) = lowBits n v := by
  rw [lowBits, toBits_mod, lowBits]

theorem lowBits_add (m n v : ℕ) : lowBits (n + m) v = lowBits n v ++ lowBits m (v / 2 ^ n) := by
  rw [lowBits, Nat.add_comm, toBits_add, reverse_append, lowBits, lowBits]

/-- The bits of a number of two parts, the lower part first. -/
theorem lowBits_add_mul {n v : ℕ} (h : v < 2 ^ n) (m w : ℕ) :
    lowBits (n + m) (v + w * 2 ^ n) = lowBits n v ++ lowBits m w := by
  rw [lowBits_add, ← lowBits_mod n, Nat.add_mul_mod_self_right, lowBits_mod,
    Nat.add_mul_div_right _ _ (Nat.two_pow_pos n), Nat.div_eq_of_lt h, Nat.zero_add]

theorem lowBits_zero (n : ℕ) : lowBits n 0 = List.replicate n false := by
  rw [lowBits, toBits_zero, reverse_replicate]

theorem lowBits_ones (n : ℕ) : lowBits n (2 ^ n - 1) = List.replicate n true := by
  have htoBits : toBits n (2 ^ n - 1) = List.replicate n true := by
    suffices h : ∀ m ≤ n, toBits m (2 ^ n - 1) = List.replicate m true from h n le_rfl
    intro m hm
    induction m with
    | zero => rfl
    | succ m ih =>
      rw [toBits_succ, ih (Nat.le_of_succ_le hm), Nat.testBit_two_pow_sub_one,
        decide_eq_true (Nat.lt_of_succ_le hm), replicate_succ]
  rw [lowBits, htoBits, reverse_replicate]

/-! ## Left aligned words -/

/-- Bits put below those of a number whose low bits are free. -/
theorem or_eq_add {a b k : ℕ} (h : b < 2 ^ k) : a * 2 ^ k ||| b = a * 2 ^ k + b := by
  rw [mul_comm, ← Nat.two_pow_add_eq_or_of_lt h]

end Libmpp
