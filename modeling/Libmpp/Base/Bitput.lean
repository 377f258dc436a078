import Libmpp.Lib.Bits

/-!
# The bit packer

The packer of the parameter packets for the hardware (`mpp_bitput.c`). Fields go into
words of 64 bits, the least significant bit first; a field may begin in one word and end in
the next (`mppPutBits`). `mppPutAlign` pads to a multiple of a number of bits, by fields of
up to eight bits.

`Packed bp bits` says that a packer has been given the bits `bits`. When the last word of
the buffer is full the packer returns before it sets its position in the word: the words
are right (`Filled`), and the position is the one from before the last field. So the packer
tells the bits it has been given exactly when they do not fill the buffer
(`run_tells_iff`).
-/

namespace Libmpp.Base

open List Option

structure BitputCtx where
  buflen : ℕ
  index : ℕ
  pbuf : List UInt64
  bvalue : UInt64
  bitpos : ℕ
  size : ℕ
  deriving DecidableEq, Repr

/-- A packer for the words `data`. -/
def mppSetBitputCtx (data : List UInt64) (len : UInt32) : BitputCtx where
  buflen := len.toNat
  index := 0
  pbuf := data
  bvalue := 0
  bitpos := 0
  size := len.toNat

/-- Store a word at the index. A store outside the buffer is undefined. -/
def BitputCtx.store (bp : BitputCtx) (word : UInt64) : Option BitputCtx :=
  if bp.index < bp.pbuf.length then some { bp with pbuf := bp.pbuf.set bp.index word } else none

/-- Put a field into the word. A word that is full is stored, and what is left of the field
    begins the next one; a shift by `64` is undefined. -/
def fillWord (bp : BitputCtx) (invalue : UInt64) (lbits : ℕ) : Option BitputCtx :=
  let bvalue := bp.bvalue ||| (invalue <<< UInt64.ofNat bp.bitpos)
  if bp.bitpos + lbits ≥ 64 then do
    let bp ← bp.store bvalue
    if bp.bitpos = 0 then none
    else some { bp with
      bvalue := invalue >>> UInt64.ofNat (64 - bp.bitpos)
      index := bp.index + 1 }
  else some { bp with bvalue }

def mppPutBits (bp : BitputCtx) (invalue : UInt64) (lbits : ℕ) : Option BitputCtx :=
  if lbits = 0 then some bp
  else if bp.index ≥ bp.buflen then some bp
  else do
    let hbits := UInt64.ofNat (64 - lbits)
    let bp ← fillWord bp ((invalue <<< hbits) >>> hbits) lbits
    if bp.index ≥ bp.buflen then some bp
    else do
      let bp ← bp.store bp.bvalue
      some { bp with bitpos := (bp.bitpos + lbits) % 64 }

/-- The bits from here to a multiple of `alignBits`. -/
def alignLen (bp : BitputCtx) (alignBits : UInt32) : UInt32 :=
  let wordOffset := if alignBits ≥ 64 then
    (UInt32.ofNat bp.index &&& (((alignBits &&& 0xfe0) >>> 6) - 1)) <<< 6 else 0
  (alignBits - (wordOffset + UInt32.ofNat bp.bitpos % alignBits)) % alignBits

/-- The value of a padding field. -/
def padValue (flag : ℤ) (len : ℕ) : UInt64 :=
  if flag = 0 then ((0 : UInt64) <<< .ofNat (64 - len)) >>> .ofNat (64 - len)
  else ((0xffffffffffffffff : UInt64) <<< .ofNat (64 - len)) >>> .ofNat (64 - len)

/-- Put `len` bits of padding. -/
def putPad (bp : BitputCtx) (flag : ℤ) (len : ℕ) : Option BitputCtx :=
  if len = 0 then some bp
  else if len ≥ 8 then do
    let bp ← mppPutBits bp (padValue flag 8) 8
    putPad bp flag (len - 8)
  else mppPutBits bp (padValue flag len) len
termination_by len

def mppPutAlign (bp : BitputCtx) (alignBits : UInt32) (flag : ℤ) : Option BitputCtx :=
  putPad bp flag (alignLen bp alignBits).toNat

/-! ## Calls -/

inductive BitputOp
  | putBits (value : UInt64) (length : ℕ)
  | putAlign (alignBits : UInt32) (flag : ℤ)
  deriving DecidableEq, Repr

def BitputOp.run (bp : BitputCtx) : BitputOp → Option BitputCtx
  | putBits value length => mppPutBits bp value length
  | putAlign alignBits flag => mppPutAlign bp alignBits flag

/-- A field of `1` to `63` bits, or an alignment that is a power of two. -/
def BitputOp.Ok : BitputOp → Prop
  | putBits value length => 0 < length ∧ length < 64 ∧ value.toNat < 2 ^ length
  | putAlign alignBits _ => ∃ k < 31, alignBits.toNat = 2 ^ k

/-- The bits from `n` to the next multiple of `m`. -/
def padLen (m n : ℕ) : ℕ := (m - n % m) % m

/-- The bits after a call. -/
def BitputOp.bits (bits : List Bool) : BitputOp → List Bool
  | putBits value length => bits ++ lowBits length value.toNat
  | putAlign alignBits flag =>
    bits ++ List.replicate (padLen alignBits.toNat bits.length) (decide (flag ≠ 0))

/-- The bits that are in the buffer and in the word. -/
def BitputCtx.bits (bp : BitputCtx) : List Bool :=
  (bp.pbuf.take bp.index).flatMap (fun word => lowBits 64 word.toNat) ++
    lowBits bp.bitpos bp.bvalue.toNat

/-- The number of bits, by the position of the packer. -/
def BitputCtx.bitlen (bp : BitputCtx) : ℕ := 64 * bp.index + bp.bitpos

/-- The packer tells the bits it has been given, and how many they are. -/
def BitputCtx.Tells (bp : BitputCtx) (bits : List Bool) : Prop :=
  bp.bits = bits ∧ bp.bitlen = bits.length

/-! ## The word -/

variable {n : ℕ}

theorem toNat_shift (hn : n < 64) : (UInt64.ofNat n).toNat % 64 = n := by
  rw [UInt64.toNat_ofNat']
  omega

variable {value : UInt64}

/-- A field is cut to its length. -/
theorem field_eq (hn : 0 < n) (hn' : n < 64) (hvalue : value.toNat < 2 ^ n) :
    (value <<< UInt64.ofNat (64 - n)) >>> UInt64.ofNat (64 - n) = value := by
  rw [← UInt64.toNat_inj, UInt64.toNat_shiftRight, UInt64.toNat_shiftLeft,
    toNat_shift (Nat.sub_lt (by norm_num) hn), Nat.shiftLeft_eq, Nat.shiftRight_eq_div_pow]
  have hlt : value.toNat * 2 ^ (64 - n) < 2 ^ 64 := by
    calc value.toNat * 2 ^ (64 - n) < 2 ^ n * 2 ^ (64 - n) :=
          Nat.mul_lt_mul_of_pos_right hvalue (Nat.two_pow_pos _)
      _ = 2 ^ 64 := by rw [← pow_add, Nat.add_sub_cancel' hn'.le]
  rw [Nat.mod_eq_of_lt hlt, Nat.mul_div_cancel _ (Nat.two_pow_pos _)]

/-- The word with a field above the bits there. -/
theorem toNat_or_shift {word : UInt64} (value : UInt64) {b : ℕ} (hb : b < 64)
    (hword : word.toNat < 2 ^ b) :
    (word ||| (value <<< UInt64.ofNat b)).toNat = (word.toNat + value.toNat * 2 ^ b) % 2 ^ 64 := by
  have hmod : word.toNat % 2 ^ 64 = word.toNat := Nat.mod_eq_of_lt word.toNat_lt
  rw [UInt64.toNat_or, UInt64.toNat_shiftLeft, toNat_shift hb, Nat.shiftLeft_eq, ← hmod,
    ← Nat.or_mod_two_pow, hmod, Nat.or_comm, or_eq_add hword, Nat.add_comm]

/-! ## What has been given to the packer -/

/-- The bits `bits` have been given. -/
structure Packed (bp : BitputCtx) (bits : List Bool) : Prop where
  length : bp.pbuf.length = bp.buflen
  index : bp.index ≤ bp.buflen
  bitpos : bp.bitpos < 64
  bvalue : bp.bvalue.toNat < 2 ^ bp.bitpos
  bits : bp.bits = bits

/-- The bits `bits` have been given, and fill the buffer. -/
structure Filled (bp : BitputCtx) (bits : List Bool) : Prop where
  length : bp.pbuf.length = bp.buflen
  index : bp.index = bp.buflen
  bitpos : 0 < bp.bitpos
  ne_nil : bits ≠ []
  bits : bp.pbuf.flatMap (fun word => lowBits 64 word.toNat) = bits

theorem length_words (words : List UInt64) :
    (words.flatMap fun word => lowBits 64 word.toNat).length = 64 * words.length := by
  induction words with
  | nil => rfl
  | cons word words ih =>
    rw [flatMap_cons, length_append, length_lowBits, ih, length_cons, Nat.mul_succ,
      Nat.add_comm]

variable {bp : BitputCtx} {bits : List Bool}

theorem Packed.bitlen (h : Packed bp bits) : bp.bitlen = bits.length := by
  rw [← h.bits, BitputCtx.bits, length_append, length_words, length_lowBits,
    length_take, h.length, min_eq_left h.index, BitputCtx.bitlen]

theorem Filled.length_bits (h : Filled bp bits) : bits.length = 64 * bp.buflen := by
  rw [← h.bits, length_words, h.length]

theorem take_set_self (words : List UInt64) (i : ℕ) (word : UInt64) :
    (words.set i word).take i = words.take i :=
  take_set_of_le le_rfl

theorem take_succ_set {words : List UInt64} {i : ℕ} (h : i < words.length) (word : UInt64) :
    (words.set i word).take (i + 1) = words.take i ++ [word] := by
  rw [take_add_one, take_set_self, getElem?_set_self h]
  rfl

theorem putBits_eq (hn : 0 < n) (hn' : n < 64) (hvalue : value.toNat < 2 ^ n)
    (hroom : bp.index < bp.buflen) :
    mppPutBits bp value n = (fillWord bp value n).bind fun bp =>
      if bp.index ≥ bp.buflen then some bp
      else (bp.store bp.bvalue).bind fun bp =>
        some { bp with bitpos := (bp.bitpos + n) % 64 } := by
  rw [mppPutBits, if_neg hn.ne', if_neg (not_le.2 hroom)]
  dsimp only
  rw [field_eq hn hn' hvalue]
  rfl

/-- A field that ends in the word it begins in. -/
theorem Packed.putBits_inside (h : Packed bp bits) (hn : 0 < n) (hn' : n < 64)
    (hvalue : value.toNat < 2 ^ n) (hroom : bp.index < bp.buflen) (hfit : bp.bitpos + n < 64) :
    ∃ bp', mppPutBits bp value n = some bp' ∧ bp'.buflen = bp.buflen ∧
      Packed bp' (bits ++ lowBits n value.toNat) := by
  have hword := toNat_or_shift value h.bitpos h.bvalue
  have hlt : bp.bvalue.toNat + value.toNat * 2 ^ bp.bitpos < 2 ^ (bp.bitpos + n) := by
    rw [pow_add]
    have hmul : value.toNat * 2 ^ bp.bitpos ≤ (2 ^ n - 1) * 2 ^ bp.bitpos :=
      Nat.mul_le_mul_right _ (Nat.le_sub_one_of_lt hvalue)
    rw [Nat.sub_mul, one_mul, mul_comm (2 ^ n)] at hmul
    have hb := h.bvalue
    have hle : 2 ^ bp.bitpos ≤ 2 ^ bp.bitpos * 2 ^ n :=
      Nat.le_mul_of_pos_right _ (Nat.two_pow_pos n)
    omega
  have hle : 2 ^ (bp.bitpos + n) ≤ 2 ^ 64 := Nat.pow_le_pow_right Nat.two_pos hfit.le
  rw [Nat.mod_eq_of_lt (hlt.trans_le hle)] at hword
  rw [putBits_eq hn hn' hvalue hroom, fillWord, if_neg (not_le.2 hfit), bind_some,
    if_neg (not_le.2 hroom)]
  simp only [BitputCtx.store, h.length, if_pos hroom, bind_some, Nat.mod_eq_of_lt hfit]
  refine ⟨_, rfl, rfl, ?_, h.index, hfit, ?_, ?_⟩
  · exact length_set.trans h.length
  · dsimp only
    rwa [hword]
  · dsimp only [BitputCtx.bits]
    rw [take_set_self, hword, lowBits_add_mul h.bvalue, ← append_assoc, ← h.bits,
      BitputCtx.bits]

/-- A field that fills the word it begins in. -/
theorem Packed.putBits_across (h : Packed bp bits) (hn : 0 < n) (hn' : n < 64)
    (hvalue : value.toNat < 2 ^ n) (hroom : bp.index < bp.buflen) (hfit : 64 ≤ bp.bitpos + n)
    (hfits : bits.length + n ≤ 64 * bp.buflen) :
    ∃ bp', mppPutBits bp value n = some bp' ∧ bp'.buflen = bp.buflen ∧
      ((Packed bp' (bits ++ lowBits n value.toNat) ∧ bits.length + n < 64 * bp.buflen) ∨
        Filled bp' (bits ++ lowBits n value.toNat)) := by
  have hlen := h.bitlen
  rw [BitputCtx.bitlen] at hlen
  have hpos : 0 < bp.bitpos := by omega
  have hb := h.bitpos
  have hword := toNat_or_shift value h.bitpos h.bvalue
  set word := bp.bvalue ||| (value <<< UInt64.ofNat bp.bitpos)
  -- the field is split at the end of the word
  have hrest : (value >>> UInt64.ofNat (64 - bp.bitpos)).toNat =
      value.toNat / 2 ^ (64 - bp.bitpos) := by
    rw [UInt64.toNat_shiftRight, toNat_shift (Nat.sub_lt (by norm_num) hpos),
      Nat.shiftRight_eq_div_pow]
  set rest := value >>> UInt64.ofNat (64 - bp.bitpos)
  have hsplit : lowBits bp.bitpos bp.bvalue.toNat ++ lowBits n value.toNat =
      lowBits 64 word.toNat ++ lowBits (bp.bitpos + n - 64) rest.toNat := by
    have hpow : 2 ^ 64 = 2 ^ bp.bitpos * 2 ^ (64 - bp.bitpos) := by
      rw [← pow_add, Nat.add_sub_cancel' hb.le]
    have hdiv : (bp.bvalue.toNat + value.toNat * 2 ^ bp.bitpos) / 2 ^ 64 = rest.toNat := by
      rw [hpow, ← Nat.div_div_eq_div_mul, Nat.add_mul_div_right _ _ (Nat.two_pow_pos _),
        Nat.div_eq_of_lt h.bvalue, Nat.zero_add, hrest]
    rw [← lowBits_add_mul h.bvalue, ← Nat.add_sub_cancel' hfit, lowBits_add, hdiv,
      Nat.add_sub_cancel_left, hword, lowBits_mod]
  have hrest_lt : rest.toNat < 2 ^ (bp.bitpos + n - 64) := by
    rw [hrest]
    refine Nat.div_lt_of_lt_mul ?_
    rwa [← pow_add, show 64 - bp.bitpos + (bp.bitpos + n - 64) = n by omega]
  have hall : (bp.pbuf.take bp.index).flatMap (fun word => lowBits 64 word.toNat) ++
      (lowBits 64 word.toNat ++ lowBits (bp.bitpos + n - 64) rest.toNat) =
        bits ++ lowBits n value.toNat := by
    rw [← hsplit, ← append_assoc, ← h.bits, BitputCtx.bits]
  have hindex : bp.index < bp.pbuf.length := by rwa [h.length]
  have hfill : fillWord bp value n = some { bp with
      pbuf := bp.pbuf.set bp.index word, bvalue := rest, index := bp.index + 1 } := by
    rw [fillWord, if_pos hfit, BitputCtx.store, if_pos hindex, bind_eq_bind,
      bind_some, if_neg hpos.ne']
  rw [putBits_eq hn hn' hvalue hroom, hfill, bind_some]
  dsimp only
  have htake := take_succ_set hindex word
  rcases Nat.lt_or_ge (bp.index + 1) bp.buflen with hnext | hend
  · have hindex' : bp.index + 1 < (bp.pbuf.set bp.index word).length := by
      rwa [length_set, h.length]
    rw [if_neg (not_le.2 hnext), BitputCtx.store, if_pos hindex', bind_some]
    refine ⟨_, rfl, rfl, .inl ⟨⟨?_, hnext.le, Nat.mod_lt _ (by norm_num), ?_, ?_⟩, by omega⟩⟩
    · exact length_set.trans (length_set.trans h.length)
    · dsimp only
      rwa [show (bp.bitpos + n) % 64 = bp.bitpos + n - 64 by omega]
    · dsimp only [BitputCtx.bits]
      rw [take_set_self, htake, flatMap_append, flatMap_singleton, append_assoc,
        show (bp.bitpos + n) % 64 = bp.bitpos + n - 64 by omega, hall]
  · -- the last word is full: the packer returns before it sets the position
    have hlast : bp.index + 1 = bp.buflen := le_antisymm hroom hend
    have hzero : bp.bitpos + n - 64 = 0 := by omega
    rw [if_pos hend]
    refine ⟨_, rfl, rfl, .inr ⟨length_set.trans h.length, hlast, hpos, ?_, ?_⟩⟩
    · refine append_ne_nil_of_right_ne_nil _ (ne_nil_of_length_pos ?_)
      rwa [length_lowBits]
    · have hwhole : (bp.pbuf.set bp.index word).take (bp.index + 1) = bp.pbuf.set bp.index word :=
        take_of_length_le (by rw [length_set, h.length, hlast])
      dsimp only
      rw [← hwhole, htake, flatMap_append, flatMap_singleton, ← hall, hzero]
      exact congrArg _ (append_nil _).symm

/-- The bits `bits` have been given: they leave room, or fill the buffer. -/
def Given (bp : BitputCtx) (bits : List Bool) : Prop :=
  (Packed bp bits ∧ (bits.length < 64 * bp.buflen ∨ bits = [])) ∨ Filled bp bits

/-- A field that fits is put behind the bits there. -/
theorem Given.putBits (h : Given bp bits) (hn : 0 < n) (hn' : n < 64) (hvalue : value.toNat < 2 ^ n)
    (hfits : bits.length + n ≤ 64 * bp.buflen) :
    ∃ bp', mppPutBits bp value n = some bp' ∧ bp'.buflen = bp.buflen ∧
      Given bp' (bits ++ lowBits n value.toNat) := by
  rcases h with ⟨h, -⟩ | h
  · have hlen := h.bitlen
    rw [BitputCtx.bitlen] at hlen
    have hroom : bp.index < bp.buflen := by omega
    rcases Nat.lt_or_ge (bp.bitpos + n) 64 with hfit | hfit
    · obtain ⟨bp', heq, hbuf, hpacked⟩ := h.putBits_inside hn hn' hvalue hroom hfit
      refine ⟨bp', heq, hbuf, .inl ⟨hpacked, .inl ?_⟩⟩
      rw [length_append, length_lowBits, hbuf]
      omega
    · obtain ⟨bp', heq, hbuf, ⟨hpacked, hlt⟩ | hfilled⟩ :=
        h.putBits_across hn hn' hvalue hroom hfit hfits
      · refine ⟨bp', heq, hbuf, .inl ⟨hpacked, .inl ?_⟩⟩
        rwa [length_append, length_lowBits, hbuf]
      · exact ⟨bp', heq, hbuf, .inr hfilled⟩
  · rw [h.length_bits] at hfits
    omega

/-! ## Alignment -/

theorem ones_toNat : ∀ n < 64, 0 < n →
    (((0xffffffffffffffff : UInt64) <<< .ofNat (64 - n)) >>> .ofNat (64 - n)).toNat = 2 ^ n - 1 := by
  decide

theorem padValue_toNat (hn : 0 < n) (hn' : n < 64) (flag : ℤ) :
    (padValue flag n).toNat = if flag = 0 then 0 else 2 ^ n - 1 := by
  have hshift := toNat_shift (Nat.sub_lt (by norm_num : 0 < 64) hn)
  rw [padValue]
  split_ifs
  · rw [UInt64.toNat_shiftRight, UInt64.toNat_shiftLeft, hshift, UInt64.toNat_zero,
      Nat.zero_shiftLeft, Nat.zero_mod, Nat.zero_shiftRight]
  · exact ones_toNat n hn' hn

theorem lowBits_padValue (hn : 0 < n) (hn' : n < 64) (flag : ℤ) :
    lowBits n (padValue flag n).toNat = List.replicate n (decide (flag ≠ 0)) := by
  rw [padValue_toNat hn hn']
  split_ifs with h
  · rw [lowBits_zero, decide_eq_false (not_not.2 h)]
  · rw [lowBits_ones, decide_eq_true h]

theorem padValue_lt (hn : 0 < n) (hn' : n < 64) (flag : ℤ) : (padValue flag n).toNat < 2 ^ n := by
  rw [padValue_toNat hn hn']
  have := Nat.two_pow_pos n
  split_ifs <;> omega

/-- Padding that fits is put behind the bits there. -/
theorem Given.putPad {len : ℕ} (h : Given bp bits) (flag : ℤ)
    (hfits : bits.length + len ≤ 64 * bp.buflen) :
    ∃ bp', Base.putPad bp flag len = some bp' ∧ bp'.buflen = bp.buflen ∧
      Given bp' (bits ++ List.replicate len (decide (flag ≠ 0))) := by
  induction len using Nat.strong_induction_on generalizing bp bits with
  | _ len ih =>
    rw [Base.putPad]
    by_cases hzero : len = 0
    · subst hzero
      rw [if_pos rfl]
      exact ⟨bp, rfl, rfl, by rwa [replicate_zero, append_nil]⟩
    rw [if_neg hzero]
    by_cases hlen : len ≥ 8
    · rw [if_pos hlen]
      obtain ⟨bp₁, heq₁, hbuf₁, h₁⟩ := h.putBits (by norm_num) (by norm_num)
        (padValue_lt (by norm_num : 0 < 8) (by norm_num) flag) (by omega)
      rw [lowBits_padValue (by norm_num) (by norm_num)] at h₁
      obtain ⟨bp₂, heq₂, hbuf₂, h₂⟩ := ih (len - 8) (by omega) h₁ (by
        rw [length_append, length_replicate, hbuf₁]
        omega)
      refine ⟨bp₂, ?_, hbuf₂.trans hbuf₁, ?_⟩
      · rw [heq₁]
        exact heq₂
      · rwa [append_assoc, ← replicate_add, Nat.add_sub_cancel' hlen] at h₂
    · rw [if_neg hlen]
      have hpos := Nat.pos_of_ne_zero hzero
      have hlt : len < 64 := by omega
      have hput := h.putBits hpos hlt (padValue_lt hpos hlt flag) hfits
      rwa [lowBits_padValue hpos hlt] at hput

/-- A full buffer takes nothing. -/
theorem Filled.putPad (h : Filled bp bits) (flag : ℤ) (len : ℕ) :
    Base.putPad bp flag len = some bp := by
  have hfull (value : UInt64) (n : ℕ) : mppPutBits bp value n = some bp := by
    rw [mppPutBits]
    split_ifs
    · rfl
    · rfl
    · exact absurd h.index.ge ‹_›
  induction len using Nat.strong_induction_on with
  | _ len ih =>
    rw [Base.putPad, hfull, hfull]
    split_ifs with hzero hlen
    · rfl
    · exact ih (len - 8) (by omega)
    · rfl

/-- The mask of an alignment to words leaves the index up to a multiple of the alignment. -/
theorem mask_toNat : ∀ k < 31, 6 ≤ k →
    ((((UInt32.ofNat (2 ^ k)) &&& 0xfe0) >>> 6) - 1).toNat =
      2 ^ (if k < 12 then k - 6 else 32) - 1 := by
  decide

/-- The offset of the packer, up to a multiple of the alignment. -/
theorem wordOffset_mod (index : ℕ) {k : ℕ} (hk : k < 31) (hk' : 6 ≤ k) :
    ((UInt32.ofNat index &&& (((UInt32.ofNat (2 ^ k) &&& 0xfe0) >>> 6) - 1)) <<< 6).toNat % 2 ^ k =
      64 * index % 2 ^ k := by
  have hmask := mask_toNat k hk hk'
  set mask := ((UInt32.ofNat (2 ^ k) &&& 0xfe0) >>> 6) - 1
  set m := if k < 12 then k - 6 else 32 with hm
  have hm_le : m ≤ 32 ∧ k ≤ m + 6 := by
    rw [hm]
    split_ifs <;> omega
  have hsix : (6 : UInt32).toNat % 32 = 6 := rfl
  have hindex : (UInt32.ofNat index &&& mask).toNat ≡ index [MOD 2 ^ m] := by
    rw [UInt32.toNat_and, hmask, Nat.and_two_pow_sub_one_eq_mod, UInt32.toNat_ofNat']
    refine (Nat.mod_modEq _ _).trans ?_
    exact (Nat.mod_modEq index (2 ^ 32)).of_dvd (pow_dvd_pow 2 hm_le.1)
  rw [UInt32.toNat_shiftLeft, hsix, Nat.shiftLeft_eq, mul_comm _ (2 ^ 6),
    Nat.mod_mod_of_dvd _ (pow_dvd_pow 2 (by omega : k ≤ 32))]
  refine (hindex.mul_left' (2 ^ 6)).of_dvd ?_
  rw [← pow_add]
  exact pow_dvd_pow 2 (by omega)

theorem alignLen_toNat (bp : BitputCtx) {alignBits : UInt32} {k : ℕ} (hk : k < 31)
    (halign : alignBits.toNat = 2 ^ k) (hbitpos : bp.bitpos < 64) :
    (alignLen bp alignBits).toNat = padLen alignBits.toNat bp.bitlen := by
  have hdvd : 2 ^ k ∣ 2 ^ 32 := pow_dvd_pow 2 (by omega)
  have hofNat : alignBits = UInt32.ofNat (2 ^ k) := by rw [← halign, UInt32.ofNat_toNat]
  have hbit : (UInt32.ofNat bp.bitpos % alignBits).toNat = bp.bitpos % 2 ^ k := by
    rw [UInt32.toNat_mod, halign, UInt32.toNat_ofNat', Nat.mod_eq_of_lt (by omega : _ < 2 ^ 32)]
  set wordOffset := if alignBits ≥ 64 then
    (UInt32.ofNat bp.index &&& (((alignBits &&& 0xfe0) >>> 6) - 1)) <<< 6 else 0 with hoffset
  have hword : wordOffset.toNat ≡ 64 * bp.index [MOD 2 ^ k] := by
    rw [hoffset]
    by_cases hk' : 6 ≤ k
    · rw [if_pos, hofNat]
      · exact wordOffset_mod bp.index hk hk'
      · rw [ge_iff_le, UInt32.le_iff_toNat_le, halign]
        exact Nat.pow_le_pow_right Nat.two_pos hk'
    · -- every word is a multiple of the alignment
      rw [if_neg]
      · have hmul : 2 ^ k ∣ 64 * bp.index :=
          (pow_dvd_pow 2 (by omega : k ≤ 6)).trans (Nat.dvd_mul_right (2 ^ 6) _)
        exact ((Nat.modEq_zero_iff_dvd.2 hmul).symm)
      · rw [ge_iff_le, UInt32.le_iff_toNat_le, halign]
        exact not_le.2 (Nat.pow_lt_pow_right (by norm_num) (by omega : k < 6))
  set pos := wordOffset + UInt32.ofNat bp.bitpos % alignBits with hpos
  have hpos_mod : pos.toNat ≡ bp.bitlen [MOD 2 ^ k] := by
    rw [hpos, UInt32.toNat_add, hbit]
    refine ((Nat.mod_modEq _ _).of_dvd hdvd).trans ?_
    exact hword.add (Nat.mod_modEq _ _)
  have hlen : (alignLen bp alignBits).toNat = (2 ^ 32 - pos.toNat + 2 ^ k) % 2 ^ k := by
    rw [alignLen, ← hoffset, UInt32.toNat_mod, halign, ← hpos, UInt32.toNat_sub, halign,
      Nat.mod_mod_of_dvd _ hdvd]
  rw [hlen, padLen, halign]
  -- both are what is missing to a multiple
  refine Nat.ModEq.add_right_cancel' pos.toNat ?_
  have hlt := pos.toNat_lt
  have hleft : 2 ^ 32 - pos.toNat + 2 ^ k + pos.toNat ≡ 0 [MOD 2 ^ k] := by
    rw [show 2 ^ 32 - pos.toNat + 2 ^ k + pos.toNat = 2 ^ 32 + 2 ^ k by omega]
    exact Nat.modEq_zero_iff_dvd.2 (Nat.dvd_add hdvd dvd_rfl)
  have hright : 2 ^ k - bp.bitlen % 2 ^ k + pos.toNat ≡ 0 [MOD 2 ^ k] := by
    have hle : bp.bitlen % 2 ^ k ≤ 2 ^ k := (Nat.mod_lt _ (Nat.two_pow_pos k)).le
    have hself : 2 ^ k - bp.bitlen % 2 ^ k + bp.bitlen % 2 ^ k ≡ 0 [MOD 2 ^ k] := by
      rw [Nat.sub_add_cancel hle]
      exact Nat.modEq_zero_iff_dvd.2 dvd_rfl
    refine Nat.ModEq.trans (Nat.ModEq.add_left _ ?_) hself
    exact hpos_mod.trans (Nat.mod_modEq _ _).symm
  exact hleft.trans hright.symm

/-! ## Runs -/

/-- A call that fits gives its bits. -/
theorem Given.run {op : BitputOp} (h : Given bp bits) (hop : op.Ok)
    (hfits : (op.bits bits).length ≤ 64 * bp.buflen) :
    ∃ bp', op.run bp = some bp' ∧ bp'.buflen = bp.buflen ∧ Given bp' (op.bits bits) := by
  cases op with
  | putBits value length =>
    obtain ⟨hpos, hlt, hvalue⟩ := hop
    rw [BitputOp.bits, length_append, length_lowBits] at hfits
    exact h.putBits hpos hlt hvalue hfits
  | putAlign alignBits flag =>
    obtain ⟨k, hk, halign⟩ := hop
    rw [BitputOp.bits, length_append, length_replicate] at hfits
    rw [BitputOp.run, mppPutAlign, BitputOp.bits]
    rcases h with ⟨hpacked, hroom⟩ | hfilled
    · rw [alignLen_toNat bp hk halign hpacked.bitpos, hpacked.bitlen]
      exact Given.putPad (.inl ⟨hpacked, hroom⟩) flag hfits
    · -- nothing more fits
      have hzero : padLen alignBits.toNat bits.length = 0 := by
        rw [hfilled.length_bits] at hfits ⊢
        omega
      rw [hfilled.putPad, hzero, replicate_zero, append_nil]
      exact ⟨bp, rfl, rfl, .inr hfilled⟩

theorem length_le_bits (op : BitputOp) (bits : List Bool) : bits.length ≤ (op.bits bits).length := by
  cases op with
  | putBits value length =>
    rw [BitputOp.bits, length_append]
    exact Nat.le_add_right _ _
  | putAlign alignBits flag =>
    rw [BitputOp.bits, length_append]
    exact Nat.le_add_right _ _

theorem length_le_foldl (ops : List BitputOp) (bits : List Bool) :
    bits.length ≤ (ops.foldl BitputOp.bits bits).length := by
  induction ops generalizing bits with
  | nil => exact le_rfl
  | cons op ops ih => exact (length_le_bits op bits).trans (ih _)

/-- Calls that fit give their bits, one after the other. -/
theorem Given.runs {ops : List BitputOp} (h : Given bp bits) (hops : ∀ op ∈ ops, op.Ok)
    (hfits : (ops.foldl BitputOp.bits bits).length ≤ 64 * bp.buflen) :
    ∃ bp', ops.foldlM BitputOp.run bp = some bp' ∧ bp'.buflen = bp.buflen ∧
      Given bp' (ops.foldl BitputOp.bits bits) := by
  induction ops generalizing bp bits with
  | nil => exact ⟨bp, rfl, rfl, h⟩
  | cons op ops ih =>
    rw [forall_mem_cons] at hops
    have hfit := (length_le_foldl ops (op.bits bits)).trans hfits
    obtain ⟨bp₁, heq₁, hbuf₁, h₁⟩ := h.run hops.1 hfit
    rw [← hbuf₁] at hfits
    obtain ⟨bp₂, heq₂, hbuf₂, h₂⟩ := ih h₁ hops.2 hfits
    refine ⟨bp₂, ?_, hbuf₂.trans hbuf₁, h₂⟩
    rw [foldlM_cons, heq₁]
    exact heq₂

theorem Given.tells_iff (h : Given bp bits) :
    bp.Tells bits ↔ bits.length < 64 * bp.buflen ∨ bits = [] := by
  rcases h with ⟨hpacked, hroom⟩ | hfilled
  · exact iff_of_true ⟨hpacked.bits, hpacked.bitlen⟩ hroom
  · refine iff_of_false (fun htells => ?_) ?_
    · have hlen := htells.2
      rw [BitputCtx.bitlen, hfilled.index, hfilled.length_bits] at hlen
      exact absurd hlen (Nat.lt_add_of_pos_right hfilled.bitpos).ne'
    · rw [hfilled.length_bits]
      exact not_or.2 ⟨lt_irrefl _, hfilled.ne_nil⟩

/-- The calls that fit give their bits, the words outside the buffer are left alone, and the
    packer tells the bits exactly when they do not fill the buffer. -/
theorem run_tells_iff (data : List UInt64) (len : UInt32) (hdata : data.length = len.toNat)
    (ops : List BitputOp) (hops : ∀ op ∈ ops, op.Ok)
    (hfits : (ops.foldl BitputOp.bits []).length ≤ 64 * len.toNat) :
    ∃ bp, ops.foldlM BitputOp.run (mppSetBitputCtx data len) = some bp ∧
      (bp.Tells (ops.foldl BitputOp.bits []) ↔
        (ops.foldl BitputOp.bits []).length < 64 * len.toNat ∨
          ops.foldl BitputOp.bits [] = []) := by
  have hinit : Given (mppSetBitputCtx data len) [] :=
    .inl ⟨⟨hdata, Nat.zero_le _, Nat.zero_lt_succ 63, Nat.one_pos, rfl⟩, .inr rfl⟩
  obtain ⟨bp, heq, hbuf, h⟩ := hinit.runs hops hfits
  refine ⟨bp, heq, ?_⟩
  have hlen : bp.buflen = len.toNat := hbuf
  rw [← hlen]
  exact h.tells_iff

/-- A field across two words, and padding to half a word. -/
theorem run_tells_iff_align :
    let ops := [BitputOp.putBits 5 60, .putBits 0x1ff 9, .putAlign 32 15]
    ∃ bp, ops.foldlM BitputOp.run (mppSetBitputCtx [0, 0] 2) = some bp ∧
      (bp.Tells (ops.foldl BitputOp.bits []) ↔ (ops.foldl BitputOp.bits []).length < 64 * 2 ∨
        ops.foldl BitputOp.bits [] = []) := by
  refine run_tells_iff [0, 0] 2 rfl _ ?_ (by decide +kernel)
  simp only [forall_mem_cons, BitputOp.Ok]
  exact ⟨by decide, by decide, ⟨5, by decide⟩, fun _ h => absurd h not_mem_nil⟩

/-- Two fields that fill a buffer of one word: the position is that of the first one. -/
theorem full_buffer_not_told : ¬∀ (data : List UInt64) (len : UInt32), data.length = len.toNat →
    ∀ ops : List BitputOp, (∀ op ∈ ops, op.Ok) →
      (ops.foldl BitputOp.bits []).length ≤ 64 * len.toNat →
        ∃ bp, ops.foldlM BitputOp.run (mppSetBitputCtx data len) = some bp ∧
          bp.Tells (ops.foldl BitputOp.bits []) := by
  intro hall
  have hok : ∀ op ∈ [BitputOp.putBits 1 32, .putBits 2 32], op.Ok := by
    simp only [forall_mem_cons, BitputOp.Ok]
    exact ⟨by decide, by decide, fun _ h => absurd h not_mem_nil⟩
  obtain ⟨bp, hrun, htells⟩ := hall [0] 1 rfl _ hok (by decide)
  have hbp : [BitputOp.putBits 1 32, .putBits 2 32].foldlM BitputOp.run (mppSetBitputCtx [0] 1) =
      some ⟨1, 1, [0x200000001], 0, 32, 1⟩ := by decide
  obtain rfl := some_inj.1 (hrun.symm.trans hbp)
  exact absurd htells.2 (by decide)

end Libmpp.Base
