import Libmpp.H265d.Hvcc

/-!
# The scan for a start code

The end of a NAL unit is where the next start code begins. `scanStartCode` tests three of the
four bytes of a word for zero at once and goes on by five bytes if it finds none; the source
has a second scan, for machines that do not read words at any address, that looks at each
second byte (`scanStartCodeBytes`).

Both find the first start code that ends before the end of the buffer, or the end
(`mppHevcExtractRbsp_first`). What carries the two loops is that no code begins before the byte
in front of the current one: such a code has its second zero there. The step over a word leaves
no code behind, as two zeros at its end are seen from the next word, which goes back by one
byte when it begins with a zero. The bytes behind the buffer do not matter.
-/

namespace Libmpp.H265d

/-- The start code of three bytes is at `i`, before the end. -/
def StartsAt (src : ℕ → UInt8) (length i : ℕ) : Prop :=
  i + 2 < length ∧ src i = 0 ∧ src (i + 1) = 0 ∧ src (i + 2) = 1

/-- The smallest position of a start code, or the length if there is none. -/
def IsFirst (src : ℕ → UInt8) (length n : ℕ) : Prop :=
  (StartsAt src length n ∨ n = length) ∧ ∀ i < n, ¬StartsAt src length i

/-- The scan without words. -/
def scanStartCodeBytes (src : ℕ → UInt8) (length : ℕ) : ℕ → ℕ → Option ℕ
  | 0, _ => none
  | fuel + 1, i =>
    if i + 1 < length then
      if src i ≠ 0 then scanStartCodeBytes src length fuel (i + 2)
      else
        let z := if 0 < i ∧ src (i - 1) = 0 then i - 1 else i
        if z + 2 < length ∧ src (z + 1) = 0 ∧ src (z + 2) = 1 then some z
        else scanStartCodeBytes src length fuel (z + 2)
    else some length

section

variable {src : ℕ → UInt8} {length i z : ℕ}

/-- No start code begins before the byte in front of `i`. -/
def NoneBehind (src : ℕ → UInt8) (length i : ℕ) : Prop := ∀ j, j + 1 < i → ¬StartsAt src length j

/-- At the end of the buffer there is no room for a code. -/
theorem NoneBehind.isFirst_length (h : NoneBehind src length i) (hi : ¬i + 1 < length) :
    IsFirst src length length := by
  refine ⟨.inr rfl, fun j _ hj => ?_⟩
  have hroom := hj.1
  exact h j (by omega) hj

/-- A code at the first zero from the byte in front on is the first one. -/
theorem NoneBehind.isFirst (h : NoneBehind src length i)
    (hne : ∀ j, i ≤ j + 1 → j < z → ¬StartsAt src length j) (hz : src z = 0)
    (hcode : z + 2 < length ∧ src (z + 1) = 0 ∧ src (z + 2) = 1) : IsFirst src length z := by
  refine ⟨.inl ⟨hcode.1, hz, hcode.2⟩, fun j hj => ?_⟩
  by_cases hlt : j + 1 < i
  · exact h j hlt
  · exact hne j (not_lt.1 hlt) hj

/-- Behind a zero that begins no code the scan goes on. -/
theorem NoneBehind.behind (h : NoneBehind src length i)
    (hne : ∀ j, i ≤ j + 1 → j < z → ¬StartsAt src length j)
    (hcode : ¬(z + 2 < length ∧ src (z + 1) = 0 ∧ src (z + 2) = 1)) :
    NoneBehind src length (z + 2) := by
  intro j hj hstart
  rcases Nat.lt_or_ge j z with hlt | hge
  · by_cases hbehind : j + 1 < i
    · exact h j hbehind hstart
    · exact hne j (not_lt.1 hbehind) hlt hstart
  · obtain rfl : j = z := by omega
    exact hcode ⟨hstart.1, hstart.2.2⟩

/-! ## Words -/

theorem hasZero_of_bit {w : BitVec 32} {k : ℕ} (hmask : (0x80008080#32).getLsbD k = true)
    (hnot : w.toNat / 2 ^ k % 2 ≠ 1) (hsub : (w - 0x01000101#32).toNat / 2 ^ k % 2 = 1) :
    hasZero w := by
  refine decide_eq_true fun h => ?_
  have hnot' : w.getLsbD k = false := by
    rw [← BitVec.testBit_toNat, Nat.testBit_eq_decide_div_mod_eq, decide_eq_false hnot]
  have hsub' : (w - 0x01000101#32).getLsbD k = true := by
    rw [← BitVec.testBit_toNat, Nat.testBit_eq_decide_div_mod_eq, decide_eq_true hsub]
  have hbit : (~~~w &&& (w - 0x01000101#32) &&& 0x80008080#32).getLsbD k = true := by
    rw [BitVec.getLsbD_and, BitVec.getLsbD_and, BitVec.getLsbD_not, hnot', hsub', hmask,
      decide_eq_true (BitVec.lt_of_getLsbD hmask)]
    rfl
  rw [h, BitVec.getLsbD_zero] at hbit
  exact Bool.false_ne_true hbit

/-- A word without a zero in the test has none in the three bytes: each of them sets its top bit
    when it is zero, with or without a borrow. -/
theorem ne_zero_of_not_hasZero (h : ¬hasZero (mppRn32a src i)) :
    src i ≠ 0 ∧ src (i + 1) ≠ 0 ∧ src (i + 3) ≠ 0 := by
  have hlt : ∀ k, (src k).toNat < 256 := fun k => UInt8.toNat_lt _
  have h0 := hlt i
  have h1 := hlt (i + 1)
  have h2 := hlt (i + 2)
  have h3 := hlt (i + 3)
  refine ⟨fun hz => h (hasZero_of_bit (k := 7) (by decide) ?_ ?_),
    fun hz => h (hasZero_of_bit (k := 15) (by decide) ?_ ?_),
    fun hz => h (hasZero_of_bit (k := 31) (by decide) ?_ ?_)⟩
  all_goals
    have hz := congrArg UInt8.toNat hz
    rw [UInt8.toNat_zero] at hz
    first
    | rw [mppRn32a, BitVec.toNat_sub, BitVec.toNat_ofNat, BitVec.toNat_ofNat]
    | rw [mppRn32a, BitVec.toNat_ofNat]
    norm_num
    omega

/-- Behind a word without a zero in the test the scan goes on. -/
theorem NoneBehind.word (h : NoneBehind src length i) (hw : ¬hasZero (mppRn32a src i)) :
    NoneBehind src length (i + 5) := by
  obtain ⟨h0, h1, h3⟩ := ne_zero_of_not_hasZero hw
  intro j hj hstart
  obtain ⟨-, hz, hz', -⟩ := id hstart
  by_cases hbehind : j + 1 < i
  · exact h j hbehind hstart
  -- each of the five pairs has one of the three bytes
  obtain rfl | hge : j + 1 = i ∨ i ≤ j := by omega
  · exact h0 hz'
  obtain ⟨k, rfl⟩ := Nat.exists_eq_add_of_le hge
  obtain rfl | rfl | rfl | rfl : k = 0 ∨ k = 1 ∨ k = 2 ∨ k = 3 := by omega
  · exact h0 hz
  · exact h1 hz
  · exact h3 hz'
  · exact h3 hz

theorem zeroFrom_first {n : ℕ} (h : zeroFrom src n i = some z) :
    src z = 0 ∧ ∀ j, i ≤ j → j < z → src j ≠ 0 := by
  induction n generalizing i with
  | zero => exact absurd h nofun
  | succ n ih =>
    rw [zeroFrom] at h
    by_cases hi : src i = 0
    · obtain rfl := Option.some.inj ((if_pos hi).symm.trans h)
      exact ⟨hi, fun j hge hlt => absurd hge (not_le.2 hlt)⟩
    · rw [if_neg hi] at h
      obtain ⟨hz, hne⟩ := ih h
      refine ⟨hz, fun j hge hlt => ?_⟩
      obtain rfl | hgt := hge.eq_or_lt
      · exact hi
      · exact hne j hgt hlt

/-- From the byte in front on, no code begins before the zero that is found. -/
theorem findFirstZero_first (h : findFirstZero src i = some z) :
    src z = 0 ∧ ∀ j, i ≤ j + 1 → j < z → ¬StartsAt src length j := by
  rw [findFirstZero] at h
  obtain ⟨hz, hne⟩ := zeroFrom_first h
  refine ⟨hz, fun j hge hlt hstart => ?_⟩
  obtain ⟨-, hj, hj', -⟩ := hstart
  split_ifs at hne with hback
  · exact hne j (by omega) hlt hj
  · rcases Nat.lt_or_ge j i with hlt' | hge'
    · -- its second zero is the current byte
      obtain rfl : j + 1 = i := by omega
      exact hback ⟨Nat.succ_pos j, hj'⟩
    · exact hne j hge' hlt hj

/-! ## The scans -/

theorem scanStartCode_first {fuel : ℕ} (hfuel : 0 < fuel) (hlen : length ≤ fuel + i)
    (h : NoneBehind src length i) :
    ∃ n, scanStartCode src length fuel i = some n ∧ IsFirst src length n := by
  induction fuel generalizing i with
  | zero => exact absurd hfuel (lt_irrefl 0)
  | succ fuel ih =>
    rw [scanStartCode]
    by_cases hi : i + 1 < length
    swap
    · exact ⟨length, if_neg hi, h.isFirst_length hi⟩
    rw [if_pos hi]
    by_cases hw : hasZero (mppRn32a src i)
    · obtain ⟨z, hz, hle⟩ := findFirstZero_spec hw
      obtain ⟨hzero, hne⟩ :
          src z = 0 ∧ ∀ j, i ≤ j + 1 → j < z → ¬StartsAt src length j := findFirstZero_first hz
      rw [if_pos hw, hz]
      dsimp only
      by_cases hcode : z + 2 < length ∧ src (z + 1) = 0 ∧ src (z + 2) = 1
      · exact ⟨z, if_pos hcode, h.isFirst hne hzero hcode⟩
      · rw [if_neg hcode]
        exact ih (by omega) (by omega) (h.behind hne hcode)
    · rw [if_neg hw]
      exact ih (by omega) (by omega) (h.word hw)

theorem scanStartCodeBytes_first {fuel : ℕ} (hfuel : 0 < fuel) (hlen : length ≤ fuel + i)
    (h : NoneBehind src length i) :
    ∃ n, scanStartCodeBytes src length fuel i = some n ∧ IsFirst src length n := by
  induction fuel generalizing i with
  | zero => exact absurd hfuel (lt_irrefl 0)
  | succ fuel ih =>
    rw [scanStartCodeBytes]
    by_cases hi : i + 1 < length
    swap
    · exact ⟨length, if_neg hi, h.isFirst_length hi⟩
    rw [if_pos hi]
    by_cases hzero : src i = 0
    · rw [if_neg (not_not.2 hzero)]
      obtain ⟨z, hz⟩ : ∃ z, (if 0 < i ∧ src (i - 1) = 0 then i - 1 else i) = z := ⟨_, rfl⟩
      have hzi : i ≤ z + 1 ∧ z ≤ i ∧ src z = 0 := by
        rw [← hz]
        split_ifs with hback
        · exact ⟨by omega, by omega, hback.2⟩
        · exact ⟨by omega, le_rfl, hzero⟩
      have hne : ∀ j, i ≤ j + 1 → j < z → ¬StartsAt src length j := by
        intro j hge hlt hstart
        obtain rfl : i = j + 1 := by omega
        split_ifs at hz with hback
        · omega
        · exact hback ⟨Nat.succ_pos j, hstart.2.1⟩
      rw [hz]
      dsimp only
      by_cases hcode : z + 2 < length ∧ src (z + 1) = 0 ∧ src (z + 2) = 1
      · exact ⟨z, if_pos hcode, h.isFirst hne hzi.2.2 hcode⟩
      · rw [if_neg hcode]
        exact ih (by omega) (by omega) (h.behind hne hcode)
    · rw [if_pos hzero]
      refine ih (by omega) (by omega) fun j hj hstart => ?_
      obtain rfl | rfl | hbehind : j = i ∨ i = j + 1 ∨ j + 1 < i := by omega
      · exact hzero hstart.2.1
      · exact hzero hstart.2.2.1
      · exact h j hbehind hstart

end

theorem IsFirst.unique {src : ℕ → UInt8} {length m n : ℕ} (hm : IsFirst src length m)
    (hn : IsFirst src length n) : m = n := by
  have hle : ∀ {m n}, IsFirst src length m → IsFirst src length n → m ≤ n := by
    intro m n hm hn
    by_contra hlt
    rcases hn.1 with hstart | rfl
    · exact hm.2 n (not_le.1 hlt) hstart
    · rcases hm.1 with hstart | rfl
      · have := hstart.1
        omega
      · exact hlt le_rfl
  exact le_antisymm (hle hm hn) (hle hn hm)

/-- The scan by words and the scan by bytes find the first start code, or the length, and that
    is what is returned unless a slice is taken as it is. -/
theorem mppHevcExtractRbsp_first (c : HvccContext) (src : ℕ → UInt8) (length : ℕ) :
    ∃ n, IsFirst src length n ∧ scanStartCode src length (length + 1) 0 = some n ∧
      scanStartCodeBytes src length (length + 1) 0 = some n ∧
      mppHevcExtractRbsp c src length = some
        (if c.capHwH265Rps ∧ (src 0).toNat / 2 < nalVps ∧ (src 2).toNat / 128 = 1 then length
          else n) := by
  have hstart : NoneBehind src length 0 := fun j hj => absurd hj (Nat.not_lt_zero _)
  obtain ⟨n, hscan, hn⟩ := scanStartCode_first (Nat.succ_pos length) (by omega) hstart
  obtain ⟨m, hbytes, hm⟩ := scanStartCodeBytes_first (Nat.succ_pos length) (by omega) hstart
  obtain rfl := hm.unique hn
  refine ⟨m, hm, hscan, hbytes, ?_⟩
  rw [mppHevcExtractRbsp]
  split_ifs
  · rfl
  · exact hscan

end Libmpp.H265d
