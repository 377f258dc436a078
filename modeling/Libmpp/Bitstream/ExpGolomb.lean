import Libmpp.Bitstream.RoundTrip

/-!
# Exp-Golomb codes

A number is written as the bits of its successor, `n` of them, behind `n - 1` zeros
(`mppWriterPutUe`); a signed number as the unsigned one that codes it
(`mppWriterPutSe`). The reader counts the zeros, and takes as many bits again
(`mppReadUe`, `mppReadSe`).

The writer gives at most `24` bits at a time. Of a longer code word it writes the first
`24` bits, and then these same bits once more in the place of the rest, so that what is
written is `ueCode`: it depends on the bits still to go to the buffer, and is the code word
for the numbers of `UeFits` only (`ue_se_roundTrips`).
-/

namespace Libmpp.Bitstream

open List Option

/-! ## The writer -/

/-- The number of bits of `val`, at least `n`: a shift by it leaves nothing. A shift by
    `32` is undefined. -/
def countBits : ℕ → UInt32 → ℕ → Option ℕ
  | 0, _, _ => none
  | fuel + 1, val, n => if val >>> .ofNat n ≠ 0 then countBits fuel val (n + 1) else some n

/-- The least shift, at least `1`, that leaves nothing of `val`. -/
def numBits (val : UInt32) : Option ℕ := countBits 31 val 1

def mppWriterPutUe (ctx : MppWriteCtx) (val : UInt32) : Option MppWriteCtx := do
  let val := val + 1
  let numBits ← numBits val
  if numBits > 12 then
    let tmp := numBits - 1
    let (ctx, tmp) := if tmp > 24 then (mppWriterPutBits ctx 0 24, tmp - 24) else (ctx, tmp)
    let ctx := mppWriterPutBits ctx 0 tmp
    if numBits > 24 then
      let numBits := numBits - 24
      let ctx := mppWriterPutBits ctx (val >>> .ofNat numBits) 24
      -- the bits just written are kept, not those that are left
      let val := val >>> .ofNat numBits
      some (mppWriterPutBits ctx val numBits)
    else some (mppWriterPutBits ctx val numBits)
  else some (mppWriterPutBits ctx val (2 * numBits - 1))

/-- A value of signed arithmetic; an overflow is undefined. -/
def s32 (val : ℤ) : Option ℤ := if -2 ^ 31 ≤ val ∧ val < 2 ^ 31 then some val else none

def mppWriterPutSe (ctx : MppWriteCtx) (val : ℤ) : Option MppWriteCtx := do
  let tmp ← if val > 0 then do s32 ((← s32 (2 * val)) - 1) else s32 (-2 * val)
  mppWriterPutUe ctx (.ofNat tmp.toNat)

/-- The length of the code of `val`. -/
def mppExpGolombSigned (val : ℤ) : Option ℕ := do
  let val ← if val > 0 then s32 (2 * val) else do s32 ((← s32 (-2 * val)) + 1)
  let tmp ← numBits (.ofNat val.toNat)
  some (tmp * 2 - 1)

/-! ## The reader -/

/-- Count the zeros up to the next one. -/
def readZeros : ℕ → BitReadCtx → ℕ → Option (ℕ × BitReadCtx)
  | 0, _, _ => none
  | fuel + 1, ctx, numBits => do
    let (bit, ctx) ← mppReadBits ctx 1
    if bit = 0 then readZeros fuel ctx (numBits + 1) else some (numBits, ctx)

/-- A reader has no more bits than those of its bytes. -/
def BitReadCtx.bitsLeft (ctx : BitReadCtx) : ℕ :=
  ctx.numRemainingBitsInCurrByte + 8 * ctx.data.length

def mppReadUe (ctx : BitReadCtx) : Option (UInt32 × BitReadCtx) := do
  let (numBits, ctx) ← readZeros (ctx.bitsLeft + 1) ctx 0
  if numBits > 31 then none
  else if numBits > 0 then do
    let (rest, ctx) ← mppReadBits ctx numBits
    some (.ofNat (2 ^ numBits - 1) + .ofNat rest, ctx)
  else some (.ofNat (2 ^ numBits - 1), ctx)

/-- The number that `ue` codes. -/
def seVal (ue : UInt32) : ℤ := if ue % 2 = 0 then -(ue >>> 1).toNat else (ue >>> 1).toNat + 1

def mppReadSe (ctx : BitReadCtx) : Option (ℤ × BitReadCtx) := do
  let (ue, ctx) ← mppReadUe ctx
  some (seVal ue, ctx)

/-! ## The number of bits -/

variable {val : UInt32} {n : ℕ}

theorem shiftRight_eq_zero (hn : n < 32) : val >>> .ofNat n = 0 ↔ val.toNat < 2 ^ n := by
  have hshift : (UInt32.ofNat n).toNat % 32 = n := by
    rw [UInt32.toNat_ofNat']
    omega
  rw [← UInt32.toNat_inj, UInt32.toNat_shiftRight, hshift, Nat.shiftRight_eq_div_pow]
  change _ = 0 ↔ _
  rw [Nat.div_eq_zero_iff]
  have := Nat.two_pow_pos n
  omega

theorem countBits_eq {fuel : ℕ} (hn : n ≤ Nat.size val.toNat) (hfuel : n + fuel = 32) :
    countBits fuel val n = if val.toNat < 2 ^ 31 then some (Nat.size val.toNat) else none := by
  induction fuel generalizing n with
  | zero =>
    rw [countBits, if_neg]
    have := Nat.lt_size.1 (show 31 < Nat.size val.toNat by omega)
    omega
  | succ fuel ih =>
    rw [countBits]
    by_cases hz : val >>> .ofNat n = 0
    · have hlt := (shiftRight_eq_zero (by omega)).1 hz
      have hsize : Nat.size val.toNat = n := le_antisymm (Nat.size_le.2 hlt) hn
      rw [if_neg (not_not.2 hz), hsize, if_pos]
      exact hlt.trans_le (Nat.pow_le_pow_right Nat.two_pos (by omega))
    · rw [if_pos hz]
      have hlt := mt (shiftRight_eq_zero (by omega)).2 hz
      exact ih (Nat.lt_size.2 (not_lt.1 hlt)) (by omega)

theorem numBits_eq (h : val ≠ 0) :
    numBits val = if val.toNat < 2 ^ 31 then some (Nat.size val.toNat) else none := by
  refine countBits_eq (Nat.size_pos.2 (Nat.pos_of_ne_zero fun h0 => h ?_)) rfl
  exact UInt32.toNat_inj.1 h0

theorem toNat_succ (h : val.toNat + 1 < 2 ^ 32) : (val + 1).toNat = val.toNat + 1 := by
  rw [UInt32.toNat_add]
  exact Nat.mod_eq_of_lt h

/-- The number of bits of a code word is found when it is less than `32`. -/
theorem numBits_succ (val : UInt32) (h : val.toNat + 1 < 2 ^ 32) :
    numBits (val + 1) =
      if val.toNat + 1 < 2 ^ 31 then some (Nat.size (val.toNat + 1)) else none := by
  have hcode := toNat_succ h
  have hne : val + 1 ≠ 0 := by
    intro h0
    rw [h0] at hcode
    exact absurd hcode (Nat.succ_ne_zero _).symm
  rw [numBits_eq hne, hcode]

/-! ## What is written -/

/-- The bits written for the code word `code`, when `k` bits are to go to the buffer as its
    rest is written. -/
def ueCode (k code : ℕ) : ℕ :=
  let m := Nat.size code - 24
  let first := code / 2 ^ m
  first / 2 ^ k * 2 ^ (m + k) + (first % 2 ^ k * 2 ^ m ||| first) % 2 ^ (m + k)

/-- The bits of a number: as many zeros as the code word has bits, but one, and the word. -/
def ueBits (k code : ℕ) : List Bool :=
  List.replicate (Nat.size code - 1) false ++ toBits (Nat.size code) (ueCode k code)

variable {ctx : MppWriteCtx} {bits : List Bool}

/-- Writing zeros. -/
theorem Written.putZeros (h : Written ctx bits) (hn : 0 < n) (hn' : n ≤ 24)
    (hroom : (mppWriterPutBits ctx 0 n).byteCnt ≤ ctx.size) :
    Written (mppWriterPutBits ctx 0 n) (bits ++ List.replicate n false) := by
  have hput := h.putBits 0 hn hn' (Nat.two_pow_pos n) hroom
  have hzero : toBits n (0 : UInt32).toNat = List.replicate n false := toBits_zero n
  rwa [hzero] at hput

variable {k code : ℕ}

/-- A code word of up to `24` bits is written as it is. -/
theorem ueCode_of_lt (h : code < 2 ^ 24) : ueCode k code = code := by
  have hm : Nat.size code - 24 = 0 := Nat.sub_eq_zero_of_le (Nat.size_le.2 h)
  have hor : code % 2 ^ k * 2 ^ 0 ||| code = code := by
    rw [pow_zero, mul_one, ← Nat.and_two_pow_sub_one_eq_mod, Nat.or_comm, Nat.or_and_distrib_left,
      Nat.or_self]
    refine Nat.eq_of_testBit_eq fun i => ?_
    rw [Nat.testBit_and, Nat.testBit_or]
    cases code.testBit i <;> simp
  rw [pow_zero] at hor
  rw [ueCode, hm, pow_zero, Nat.div_one, Nat.zero_add, hor, Nat.div_add_mod']

/-- The first `24` bits of a longer code word are written, and then they are once more. -/
theorem Written.putTwice (h : Written ctx bits) (first : UInt32) {m : ℕ}
    (hm : Nat.size code = m + 24) (hpos : 0 < m) (hle : m ≤ 24)
    (hfirst : first.toNat = code / 2 ^ m)
    (hroom : (mppWriterPutBits (mppWriterPutBits ctx first 24) first m).byteCnt ≤ ctx.size) :
    Written (mppWriterPutBits (mppWriterPutBits ctx first 24) first m)
      (bits ++ toBits (Nat.size code) (ueCode (bits.length % 8) code)) := by
  have hlt : first.toNat < 2 ^ 24 := by
    rw [hfirst]
    refine Nat.div_lt_of_lt_mul ?_
    rw [← pow_add, ← hm]
    exact Nat.lt_size_self code
  obtain ⟨hsize, -⟩ := putBits_size ctx first 24
  have hroom₁ : (mppWriterPutBits ctx first 24).byteCnt ≤ ctx.size :=
    (putBits_size _ first m).2.trans hroom
  have h₁ := h.putBits first (by norm_num) le_rfl hlt hroom₁
  rw [← hsize] at hroom
  obtain ⟨head, pending, heq, hpend, h₂⟩ := h₁.putBits_val first hpos hle hroom
  set k := bits.length % 8 with hk
  have hk8 : k < 8 := Nat.mod_lt _ (by norm_num)
  rw [length_append, length_toBits] at hpend
  have hpend : pending.length = k := by omega
  -- the bits to go to the buffer are the last ones of the word
  have hsplit : toBits 24 first.toNat =
      toBits (24 - k) (first.toNat / 2 ^ k) ++ toBits k first.toNat := by
    rw [← toBits_add, Nat.sub_add_cancel (by omega)]
  rw [hsplit, ← append_assoc] at heq
  obtain ⟨rfl, rfl⟩ := append_inj' heq (by rw [length_toBits, hpend])
  rw [length_toBits, ofBits_toBits_mod, append_assoc, hfirst] at h₂
  have hsum : Nat.size code = 24 - k + (m + k) := by omega
  rw [hsum, ueCode, hm, Nat.add_sub_cancel, toBits_add, toBits_add_mul, toBits_mod,
    Nat.mul_comm (_ / 2 ^ k), Nat.mul_add_div (Nat.two_pow_pos _),
    Nat.div_eq_of_lt (Nat.mod_lt _ (Nat.two_pow_pos _)), Nat.add_zero]
  exact h₂

/-! ### The pieces of a code word -/

/-- The fields that are put for `n` zeros. -/
def zeroPieces (n : ℕ) : List (UInt32 × ℕ) := if n > 24 then [(0, 24), (0, n - 24)] else [(0, n)]

/-- The fields that are put for the code word `code` of `n` bits, behind its zeros. -/
def codePieces (code : UInt32) (n : ℕ) : List (UInt32 × ℕ) :=
  if n > 24 then [(code >>> .ofNat (n - 24), 24), (code >>> .ofNat (n - 24), n - 24)]
  else [(code, n)]

/-- The fields that are put for the code word `code` of `n` bits. -/
def uePieces (code : UInt32) (n : ℕ) : List (UInt32 × ℕ) :=
  if n > 12 then zeroPieces (n - 1) ++ codePieces code n else [(code, 2 * n - 1)]

def putPieces (ctx : MppWriteCtx) (pieces : List (UInt32 × ℕ)) : MppWriteCtx :=
  pieces.foldl (fun ctx f => mppWriterPutBits ctx f.1 f.2) ctx

theorem putUe_eq (ctx : MppWriteCtx) (hn : numBits (val + 1) = some n) :
    mppWriterPutUe ctx val = some (putPieces ctx (uePieces (val + 1) n)) := by
  rw [mppWriterPutUe, uePieces, zeroPieces, codePieces]
  dsimp only
  rw [hn, bind_eq_bind, bind_some]
  split_ifs <;> rfl

theorem uePieces_le (code : UInt32) (hn : n ≤ 31) :
    (uePieces code n).length ≤ 4 ∧ ∀ f ∈ uePieces code n, f.2 ≤ 24 := by
  have hzero : (zeroPieces (n - 1)).length ≤ 2 ∧ ∀ f ∈ zeroPieces (n - 1), f.2 ≤ 24 := by
    rw [zeroPieces]
    split_ifs
    · simp
      omega
    · simp
      omega
  have hcode : (codePieces code n).length ≤ 2 ∧ ∀ f ∈ codePieces code n, f.2 ≤ 24 := by
    rw [codePieces]
    split_ifs
    · simp
      omega
    · simp
      omega
  rw [uePieces]
  split_ifs
  · refine ⟨?_, fun f hf => (mem_append.1 hf).elim (hzero.2 f) (hcode.2 f)⟩
    rw [length_append]
    omega
  · simp
    omega

theorem putPieces_size (ctx : MppWriteCtx) (pieces : List (UInt32 × ℕ)) :
    (putPieces ctx pieces).size = ctx.size ∧ ctx.byteCnt ≤ (putPieces ctx pieces).byteCnt := by
  induction pieces generalizing ctx with
  | nil => exact ⟨rfl, le_rfl⟩
  | cons f pieces ih =>
    obtain ⟨hsize, hcnt⟩ := putBits_size ctx f.1 f.2
    obtain ⟨hsize', hcnt'⟩ := ih (mppWriterPutBits ctx f.1 f.2)
    exact ⟨hsize'.trans hsize, hcnt.trans hcnt'⟩

/-- Zeros are written. -/
theorem Written.zeroPieces (h : Written ctx bits) (hpos : 0 < n) (hle : n ≤ 48)
    (hroom : (putPieces ctx (zeroPieces n)).byteCnt ≤ ctx.size) :
    Written (putPieces ctx (zeroPieces n)) (bits ++ List.replicate n false) := by
  rw [Bitstream.zeroPieces] at hroom ⊢
  split_ifs at hroom ⊢ with hn
  · have hsize := putBits_size ctx 0 24
    have hroom' : (mppWriterPutBits (mppWriterPutBits ctx 0 24) 0 (n - 24)).byteCnt ≤
      (mppWriterPutBits ctx 0 24).size := hsize.1 ▸ hroom
    have h₁ := h.putZeros (by norm_num) le_rfl ((putBits_size _ 0 (n - 24)).2.trans hroom)
    have h₂ := h₁.putZeros (by omega) (by omega) hroom'
    rw [append_assoc, ← replicate_add, Nat.add_sub_cancel' hn.le] at h₂
    exact h₂
  · exact h.putZeros hpos (not_lt.1 hn) hroom

/-- The bits written for a number. -/
theorem Written.putUe (h : Written ctx bits) (val : UInt32) (hval : val.toNat + 1 < 2 ^ 31)
    (hroom : (putPieces ctx (uePieces (val + 1) (Nat.size (val.toNat + 1)))).byteCnt ≤ ctx.size) :
    Written (putPieces ctx (uePieces (val + 1) (Nat.size (val.toNat + 1)))) (bits ++
      ueBits ((bits.length + (Nat.size (val.toNat + 1) - 1)) % 8) (val.toNat + 1)) := by
  have hcode := toNat_succ (hval.trans (by norm_num))
  set code := val.toNat + 1 with hcodedef
  set n := Nat.size code with hndef
  have hpos : 0 < n := Nat.size_pos.2 (Nat.succ_pos _)
  have hle : n ≤ 31 := Nat.size_le.2 hval
  have hlt : code < 2 ^ n := Nat.lt_size_self code
  rw [ueBits, ← hndef]
  rw [uePieces] at hroom ⊢
  split_ifs at hroom ⊢ with h12
  · have happ : putPieces ctx (Bitstream.zeroPieces (n - 1) ++ codePieces (val + 1) n) =
        putPieces (putPieces ctx (Bitstream.zeroPieces (n - 1))) (codePieces (val + 1) n) :=
      foldl_append
    rw [happ] at hroom ⊢
    obtain ⟨hsize₁, -⟩ := putPieces_size ctx (Bitstream.zeroPieces (n - 1))
    have h₁ := h.zeroPieces (n := n - 1) (by omega) (by omega)
      ((putPieces_size _ (codePieces (val + 1) n)).2.trans hroom)
    rw [← hsize₁] at hroom
    rw [← append_assoc]
    rw [codePieces] at hroom ⊢
    split_ifs at hroom ⊢ with h24
    · have hsum : Nat.size code = n - 24 + 24 := by omega
      have htwice := h₁.putTwice ((val + 1) >>> .ofNat (n - 24)) hsum (by omega) (by omega) ?_
        hroom
      · rw [length_append, length_replicate] at htwice
        exact htwice
      · have hshift : (UInt32.ofNat (n - 24)).toNat % 32 = n - 24 := by
          rw [UInt32.toNat_ofNat']
          omega
        rw [UInt32.toNat_shiftRight, hshift, hcode, Nat.shiftRight_eq_div_pow]
    · have hput := h₁.putBits (val + 1) hpos (not_lt.1 h24) (by rwa [hcode]) hroom
      rw [ueCode_of_lt (hlt.trans_le (Nat.pow_le_pow_right Nat.two_pos (not_lt.1 h24))), ← hcode]
      exact hput
  · -- a short number is one field
    have hlen : 0 < 2 * n - 1 := by omega
    have hput := h.putBits (val + 1) hlen (by omega)
      (by rw [hcode]; exact hlt.trans_le (Nat.pow_le_pow_right Nat.two_pos (by omega))) hroom
    have hsum : 2 * n - 1 = n - 1 + n := by omega
    rw [hcode, hsum, toBits_add, Nat.div_eq_of_lt hlt, toBits_zero] at hput
    rw [ueCode_of_lt (hlt.trans_le (Nat.pow_le_pow_right Nat.two_pos (by omega)))]
    rw [hsum]
    exact hput

/-- The length of a code does not depend on what is written. -/
theorem length_ueBits (k code : ℕ) : (ueBits k code).length = 2 * Nat.size code - 1 := by
  rw [ueBits, length_append, length_replicate, length_toBits]
  omega

/-! ## What is read -/

section Read

variable {r : BitReadCtx} {total : ℕ}

/-- A reader has the bits that it is to read. -/
theorem Unread.length_le {bits : List Bool} (h : Unread r total bits) :
    bits.length ≤ r.bitsLeft := by
  obtain ⟨⟨z, rest, -, hdata, -, rfl⟩, -, -⟩ := h
  rw [BitReadCtx.bitsLeft, hdata, length_map, length_escapeMarked, length_append,
    length_toBits, length_bytesToBits]
  omega

/-- The zeros up to a one are counted. -/
theorem Unread.readZeros {n fuel : ℕ} {bits : List Bool} (i : ℕ)
    (h : Unread r total (List.replicate n false ++ true :: bits)) (hfuel : n < fuel) :
    ∃ r', Bitstream.readZeros fuel r i = some (i + n, r') ∧ Unread r' total bits ∧
      Took r r' (n + 1) := by
  induction n generalizing r fuel i with
  | zero =>
    obtain ⟨fuel, rfl⟩ := Nat.exists_eq_succ_of_ne_zero hfuel.ne'
    have hone : List.replicate 0 false ++ true :: bits = [true] ++ bits := rfl
    rw [hone] at h
    obtain ⟨r', hread, h'⟩ := h.readBits (Nat.le_add_left 1 30)
    refine ⟨r', ?_, h', took_readBits hread⟩
    rw [length_singleton] at hread
    rw [Bitstream.readZeros, hread, bind_eq_bind, bind_some]
    rfl
  | succ n ih =>
    obtain ⟨fuel, rfl⟩ := Nat.exists_eq_succ_of_ne_zero (Nat.zero_lt_of_lt hfuel).ne'
    have hzero : List.replicate (n + 1) false ++ true :: bits =
        [false] ++ (List.replicate n false ++ true :: bits) := rfl
    rw [hzero] at h
    obtain ⟨r₁, hread, h₁⟩ := h.readBits (Nat.le_add_left 1 30)
    obtain ⟨r₂, hrest, h₂, htook⟩ := ih (i + 1) h₁ (Nat.lt_of_succ_lt_succ hfuel)
    have hsum := (took_readBits hread).trans htook
    rw [length_singleton] at hread hsum
    rw [Nat.add_comm 1] at hsum
    refine ⟨r₂, ?_, h₂, hsum⟩
    rw [Bitstream.readZeros, hread, bind_eq_bind, bind_some]
    dsimp only
    rw [if_pos (show ofBits [false] = 0 from rfl), hrest, Nat.add_right_comm, Nat.add_assoc]

/-- A code word of `n` bits behind `n - 1` zeros is read. -/
theorem Unread.readUe {n code : ℕ} {bits : List Bool} (hn : 0 < n) (hle : n ≤ 31)
    (hge : 2 ^ (n - 1) ≤ code) (hlt : code < 2 ^ n)
    (h : Unread r total (List.replicate (n - 1) false ++ toBits n code ++ bits)) :
    ∃ r', mppReadUe r = some (.ofNat (code - 1), r') ∧ Unread r' total bits ∧
      Took r r' (2 * n - 1) := by
  obtain ⟨n, rfl⟩ := Nat.exists_eq_succ_of_ne_zero hn.ne'
  rw [Nat.succ_sub_one] at h hge
  have hmod : code % 2 ^ n + 2 ^ n = code := by
    have hsub : code - 2 ^ n < 2 ^ n := by
      rw [pow_succ] at hlt
      omega
    rw [Nat.mod_eq_sub_mod hge, Nat.mod_eq_of_lt hsub, Nat.sub_add_cancel hge]
  have hbit : code.testBit n = true := by
    rw [← hmod, Nat.add_comm, Nat.testBit_two_pow_add_eq, Nat.testBit_lt_two_pow
      (Nat.mod_lt _ (Nat.two_pow_pos n))]
    rfl
  rw [toBits, hbit, append_assoc, cons_append] at h
  have hfuel : n < r.bitsLeft + 1 := by
    have := h.length_le
    rw [length_append, length_replicate] at this
    omega
  obtain ⟨r₁, hzeros, h₁, htook₁⟩ := h.readZeros 0 hfuel
  rw [Nat.zero_add] at hzeros
  rw [mppReadUe, hzeros, bind_eq_bind, bind_some]
  dsimp only
  rw [if_neg (by omega)]
  by_cases h0 : n > 0
  · obtain ⟨r₂, hrest, h₂⟩ := h₁.readBits (by rw [length_toBits]; omega)
    rw [length_toBits, ofBits_toBits_mod] at hrest
    have hsum := htook₁.trans (took_readBits hrest)
    have hlen : n + 1 + n = 2 * n.succ - 1 := by omega
    rw [hlen] at hsum
    have hpow := Nat.two_pow_pos n
    have hval : 2 ^ n - 1 + code % 2 ^ n = code - 1 := by omega
    refine ⟨r₂, ?_, h₂, hsum⟩
    rw [if_pos h0, hrest, bind_some, ← UInt32.ofNat_add, hval]
  · obtain rfl : n = 0 := Nat.eq_zero_of_not_pos h0
    have hcode : code = 1 := by omega
    refine ⟨r₁, ?_, h₁, htook₁⟩
    rw [if_neg h0, hcode, pow_zero]

end Read

/-! ## Written and read back -/

/-- A value is put behind the fields `before`, and followed by the fields `after` and the
    stop bit: it is read as `val'`, behind `before`. The bits read up to there are those
    written, and `after` follows. -/
def ReadsBack {α : Type} (put : MppWriteCtx → α → Option MppWriteCtx)
    (read : BitReadCtx → Option (α × BitReadCtx)) (size : ℕ) (before after : List Field)
    (val val' : α) : Prop :=
  ∃ ctx, put (putFields (mppWriterInit size) before) val = some ctx ∧
    ((mppWriterTrailing (putFields ctx after)).byteCnt ≤ size →
      ∃ r r₁ r₂, readFields (nalReader (mppWriterTrailing (putFields ctx after)).buffer)
          (before.map Prod.snd) = some (before.map Prod.fst, r) ∧
        read r = some (val', r₁) ∧
        r₁.usedBits + 8 * ctx.emulCnt = mppWriterBits ctx + 8 * r₁.emulationPreventionBytes ∧
        readFields r₁ (after.map Prod.snd) = some (after.map Prod.fst, r₂))

/-- `val` is read back wherever it is put. -/
def RoundTrips {α : Type} (put : MppWriteCtx → α → Option MppWriteCtx)
    (read : BitReadCtx → Option (α × BitReadCtx)) (val : α) : Prop :=
  ∀ (size : ℕ) (before after : List Field), (∀ f ∈ before, f.Fits) → (∀ f ∈ after, f.Fits) →
    ReadsBack put read size before after val val

/-- The numbers whose code word is written: it has up to `24` bits, or what follows its
    first `24` bits is as if these were written over it. -/
def UeFits (val : ℕ) : Prop :=
  val + 1 < 2 ^ 24 ∨ val + 1 < 2 ^ 31 ∧
    let m := Nat.size (val + 1) - 24
    let first := (val + 1) / 2 ^ m
    (first * 2 ^ m ||| first) % 2 ^ (m + 7) = (val + 1) % 2 ^ (m + 7)

instance (val : ℕ) : Decidable (UeFits val) := inferInstanceAs (Decidable (_ ∨ _ ∧ _ = _))

theorem UeFits.lt {val : ℕ} (h : UeFits val) : val + 1 < 2 ^ 31 :=
  h.elim (fun h => h.trans (by norm_num)) And.left

/-- What is written in place of the end of a long code word. -/
theorem ueCode_eq_iff :
    ueCode k code = code ↔
      (code / 2 ^ (Nat.size code - 24) * 2 ^ (Nat.size code - 24) |||
        code / 2 ^ (Nat.size code - 24)) % 2 ^ (Nat.size code - 24 + k) =
          code % 2 ^ (Nat.size code - 24 + k) := by
  set m := Nat.size code - 24 with hm
  have hlow : (code / 2 ^ m % 2 ^ k * 2 ^ m) % 2 ^ (m + k) =
      (code / 2 ^ m * 2 ^ m) % 2 ^ (m + k) := by
    rw [pow_add, Nat.mul_comm (2 ^ m), Nat.mul_mod_mul_right, Nat.mul_mod_mul_right, Nat.mod_mod]
  have hhigh : code / 2 ^ m / 2 ^ k = code / 2 ^ (m + k) := by
    rw [Nat.div_div_eq_div_mul, ← pow_add]
  rw [ueCode, ← hm, Nat.or_mod_two_pow, hlow, ← Nat.or_mod_two_pow, hhigh]
  have hdiv := Nat.div_add_mod' code (2 ^ (m + k))
  constructor <;> intro h <;> omega

/-- Fewer bits to go to the buffer do less harm. -/
theorem ueCode_eq_mono {k' : ℕ} (hk : k' ≤ k) (h : ueCode k code = code) :
    ueCode k' code = code := by
  rw [ueCode_eq_iff] at h ⊢
  have hdvd : 2 ^ (Nat.size code - 24 + k') ∣ 2 ^ (Nat.size code - 24 + k) :=
    Nat.pow_dvd_pow 2 (Nat.add_le_add_left hk _)
  rw [← Nat.mod_mod_of_dvd _ hdvd, h, Nat.mod_mod_of_dvd _ hdvd]

theorem ueFits_iff {val : ℕ} (hval : val + 1 < 2 ^ 31) :
    UeFits val ↔ ueCode 7 (val + 1) = val + 1 := by
  rw [UeFits, ueCode_eq_iff]
  constructor
  · rintro (h | ⟨-, h⟩)
    · exact ueCode_eq_iff.1 (ueCode_of_lt h)
    · exact h
  · exact fun h => .inr ⟨hval, h⟩

/-- What is written has as many bits as the code word. -/
theorem ueCode_bounds (hk : k < 8) (hcode : 0 < code) :
    2 ^ (Nat.size code - 1) ≤ ueCode k code ∧ ueCode k code < 2 ^ Nat.size code := by
  have hlt : code < 2 ^ Nat.size code := Nat.lt_size_self code
  have hge : 2 ^ (Nat.size code - 1) ≤ code := by
    have := Nat.size_pos.2 hcode
    exact Nat.lt_size.1 (Nat.sub_lt this Nat.one_pos)
  by_cases h24 : code < 2 ^ 24
  · rw [ueCode_of_lt h24]
    exact ⟨hge, hlt⟩
  · have hsize := Nat.lt_size.2 (not_lt.1 h24)
    obtain ⟨m, hm⟩ : ∃ m, Nat.size code = m + 24 := ⟨Nat.size code - 24, by omega⟩
    have hm' : Nat.size code - 24 = m := by omega
    have hdiv : code / 2 ^ m / 2 ^ k = code / 2 ^ (m + k) := by
      rw [Nat.div_div_eq_div_mul, ← pow_add]
    have hrest := Nat.mod_lt (code / 2 ^ m % 2 ^ k * 2 ^ m ||| code / 2 ^ m)
      (Nat.two_pow_pos (m + k))
    have hsum : m + 24 = 24 - k + (m + k) := by omega
    have hsum' : m + 24 - 1 = 23 - k + (m + k) := by omega
    rw [hm, hsum, pow_add] at hlt
    rw [hm, hsum', pow_add] at hge
    rw [ueCode, hm', hdiv, hm, hsum', hsum, pow_add, pow_add 2 (24 - k)]
    have hlt' : code < 2 ^ (m + k) * 2 ^ (24 - k) := by rwa [Nat.mul_comm]
    have hq : 2 ^ (23 - k) ≤ code / 2 ^ (m + k) :=
      (Nat.le_div_iff_mul_le (Nat.two_pow_pos _)).2 hge
    have hq' : code / 2 ^ (m + k) < 2 ^ (24 - k) := Nat.div_lt_of_lt_mul hlt'
    refine ⟨(Nat.mul_le_mul_right _ hq).trans (Nat.le_add_right _ _), ?_⟩
    rw [Nat.mul_comm (_ / _)]
    exact Nat.mul_add_lt_mul_of_lt_of_lt hq' hrest

/-! ### Unsigned numbers -/

/-- The bits to go to the buffer when the end of a code word is written behind `before`. -/
def pendingAt (before : List Field) (code : ℕ) : ℕ :=
  ((fieldBits before).length + (Nat.size code - 1)) % 8

variable {size : ℕ} {before after : List Field}

/-- What is read for an unsigned number: what was written. -/
theorem readsBack_ue (size : ℕ) (hbefore : ∀ f ∈ before, f.Fits) (hafter : ∀ f ∈ after, f.Fits)
    (hval : val.toNat + 1 < 2 ^ 31) :
    ReadsBack mppWriterPutUe mppReadUe size before after val
      (.ofNat (ueCode (pendingAt before (val.toNat + 1)) (val.toNat + 1) - 1)) := by
  have hsize₀ : (putFields (mppWriterInit size) before).size = size := (putFields_byteCnt _ _).1
  have hn := numBits_succ val (hval.trans (by norm_num))
  rw [if_pos hval] at hn
  have hput := putUe_eq (putFields (mppWriterInit size) before) hn
  set ctx₀ := putFields (mppWriterInit size) before
  set ctx := putPieces ctx₀ (uePieces (val + 1) (Nat.size (val.toNat + 1)))
  refine ⟨ctx, hput, fun hroom => ?_⟩
  obtain ⟨hsize₁, hcnt₁⟩ := putPieces_size ctx₀ (uePieces (val + 1) (Nat.size (val.toNat + 1)))
  obtain ⟨hsize₂, hcnt₂⟩ := putFields_byteCnt ctx after
  obtain ⟨hsize₃, hcnt₃⟩ := trailing_size (putFields ctx after)
  have hctx : ctx.size = size := hsize₁.trans hsize₀
  -- there is room all along
  have hroom₂ : (putFields ctx after).byteCnt ≤ size := hcnt₃.trans hroom
  have hroom₁ : ctx.byteCnt ≤ size := hcnt₂.trans hroom₂
  have hw₀ := (written_init size).putFields hbefore (hcnt₁.trans hroom₁)
  rw [nil_append] at hw₀
  have hw₁ : Written ctx _ := hw₀.putUe val hval (hroom₁.trans_eq hsize₀.symm)
  have hw₂ := hw₁.putFields hafter (hroom₂.trans_eq hctx.symm)
  obtain ⟨n, -, full, hbuf, hbits⟩ := hw₂.ended (hroom.trans_eq (hsize₂.trans hctx).symm)
  -- and what is written is read
  have hunread := unread_init full
  rw [hbits, append_assoc, append_assoc] at hunread
  obtain ⟨r, hread, hr⟩ := hunread.readFields hbefore
  have hpos : 0 < val.toNat + 1 := Nat.succ_pos _
  obtain ⟨hge, hlt⟩ := ueCode_bounds (Nat.mod_lt _ (by norm_num)) hpos
  obtain ⟨r₁, hue, hr₁, htook⟩ := hr.readUe (Nat.size_pos.2 hpos) (Nat.size_le.2 hval) hge hlt
  obtain ⟨r₂, hrest, -⟩ := hr₁.readFields hafter
  refine ⟨r, r₁, r₂, ?_, hue, ?_, hrest⟩
  · rw [hbuf.buffer]
    exact hread
  · have hsum := (took_readFields hread).trans htook
    have hbits₁ := hw₁.writerBits
    rw [length_append, length_ueBits, length_fieldBits] at hbits₁
    rw [Took] at hsum
    change _ + 8 * 0 = 0 + _ + _ at hsum
    rw [hbits₁]
    omega

/-- What is read is one value, when there is room. -/
theorem ReadsBack.unique {α : Type} {put : MppWriteCtx → α → Option MppWriteCtx}
    {read : BitReadCtx → Option (α × BitReadCtx)} {val a b : α}
    (ha : ReadsBack put read size before after val a)
    (hb : ReadsBack put read size before after val b)
    (hroom : ∀ ctx, put (putFields (mppWriterInit size) before) val = some ctx →
      (mppWriterTrailing (putFields ctx after)).byteCnt ≤ size) : a = b := by
  obtain ⟨ctx, hput, ha⟩ := ha
  obtain ⟨ctx', hput', hb⟩ := hb
  obtain rfl := some.inj (hput.symm.trans hput')
  obtain ⟨r, r₁, r₂, hfields, hread, -⟩ := ha (hroom ctx hput)
  obtain ⟨r', r₁', r₂', hfields', hread', -⟩ := hb (hroom ctx hput)
  obtain rfl := (Prod.mk.inj (some.inj (hfields.symm.trans hfields'))).2
  exact (Prod.mk.inj (some.inj (hread.symm.trans hread'))).1

theorem AtMost.putPieces {ctx : MppWriteCtx} {pieces : List (UInt32 × ℕ)} (h : AtMost ctx n)
    (hle : ∀ f ∈ pieces, f.2 ≤ 24) :
    AtMost (Bitstream.putPieces ctx pieces) (n + 6 * pieces.length) := by
  induction pieces generalizing ctx n with
  | nil => exact h
  | cons f pieces ih =>
    have h' := ih (h.putBits f.1 (hle f mem_cons_self))
      fun g hg => hle g (mem_cons_of_mem _ hg)
    rw [length_cons, Nat.mul_succ, ← Nat.add_assoc, Nat.add_right_comm]
    exact h'

/-- A number behind a short field has room in `64` bytes. -/
theorem room_of_short (hn : n ≤ 24) {ctx : MppWriteCtx}
    (hput : mppWriterPutUe (putFields (mppWriterInit 64) [(0, n)]) val = some ctx)
    (hval : val.toNat + 1 < 2 ^ 31) : (mppWriterTrailing (putFields ctx [])).byteCnt ≤ 64 := by
  have hbits := numBits_succ val (hval.trans (by norm_num))
  rw [if_pos hval] at hbits
  rw [putUe_eq _ hbits] at hput
  obtain rfl := some.inj hput
  obtain ⟨hlen, hle⟩ := uePieces_le (val + 1) (Nat.size_le.2 hval)
  have hinit : AtMost (mppWriterInit 64) 0 := ⟨Nat.zero_lt_succ 7, le_rfl⟩
  have hlast := ((hinit.putBits (.ofNat 0) hn).putPieces hle).trailing
  refine hlast.2.trans ?_
  omega

/-- Behind a short field, as many bits are to go to the buffer as there can be. -/
theorem exists_pendingAt (hcode : 0 < code) :
    ∃ n, 1 ≤ n ∧ n ≤ 24 ∧ pendingAt [(0, n)] code = 7 := by
  have hpos := Nat.size_pos.2 hcode
  refine ⟨8 - Nat.size code % 8, by omega, by omega, ?_⟩
  rw [pendingAt, length_fieldBits, map_singleton, sum_singleton]
  omega

theorem ofNat_sub_one_eq (hpos : 0 < code) (hlt : code < 2 ^ 32) (h : val = .ofNat (code - 1)) :
    code = val.toNat + 1 := by
  rw [h, UInt32.toNat_ofNat', Nat.mod_eq_of_lt ((Nat.sub_le _ _).trans_lt hlt),
    Nat.sub_add_cancel hpos]

/-- A number is read back from all places if and only if it fits. -/
theorem ue_roundTrips_iff (val : UInt32) (hval : val.toNat < 2 ^ 32 - 1) :
    RoundTrips mppWriterPutUe mppReadUe val ↔ UeFits val.toNat := by
  have hpos : 0 < val.toNat + 1 := Nat.succ_pos _
  constructor
  · intro h
    by_cases hlt : val.toNat + 1 < 2 ^ 31
    · obtain ⟨n, hn, hn', hpend⟩ := exists_pendingAt hpos
      have hbefore : ∀ f ∈ [((0 : ℕ), n)], Field.Fits f := by
        intro f hf
        rw [mem_singleton.1 hf]
        exact ⟨hn, hn', Nat.two_pow_pos n⟩
      have hafter : ∀ f ∈ ([] : List Field), f.Fits := fun f hf => absurd hf not_mem_nil
      have hread := readsBack_ue 64 hbefore hafter hlt
      rw [hpend] at hread
      have heq := (h 64 _ _ hbefore hafter).unique hread fun ctx hput => room_of_short hn' hput hlt
      obtain ⟨hge, hlt'⟩ := ueCode_bounds (k := 7) (by norm_num) hpos
      refine (ueFits_iff hlt).2 (ofNat_sub_one_eq ((Nat.two_pow_pos _).trans_le hge) ?_ heq)
      exact hlt'.trans_le (Nat.pow_le_pow_right Nat.two_pos
        ((Nat.size_le.2 hlt).trans (Nat.le_succ 31)))
    · -- the number of bits is not found
      obtain ⟨ctx, hput, -⟩ := h 0 [] [] (fun f hf => absurd hf not_mem_nil)
        fun f hf => absurd hf not_mem_nil
      have hbits := numBits_succ val (by omega)
      rw [if_neg hlt] at hbits
      rw [mppWriterPutUe] at hput
      dsimp only at hput
      rw [hbits] at hput
      exact absurd hput (some_ne_none _).symm
  · intro h size before after hbefore hafter
    have hread := readsBack_ue size hbefore hafter h.lt
    have hcode : ueCode (pendingAt before (val.toNat + 1)) (val.toNat + 1) = val.toNat + 1 :=
      ueCode_eq_mono (Nat.le_of_lt_succ (Nat.mod_lt _ (by norm_num))) ((ueFits_iff h.lt).1 h)
    rw [hcode, Nat.add_sub_cancel, UInt32.ofNat_toNat] at hread
    exact hread

/-! ### Signed numbers -/

/-- The number that codes `val`. -/
def seCode (val : ℤ) : ℕ := if val > 0 then (2 * val - 1).toNat else (-2 * val).toNat

theorem seCode_lt {val : ℤ} (hval : |val| < 2 ^ 30) : seCode val + 1 < 2 ^ 31 := by
  rw [abs_lt] at hval
  rw [seCode]
  split_ifs <;> omega

theorem s32_of_lt {val : ℤ} (h : |val| < 2 ^ 31) : s32 val = some val := by
  rw [abs_lt] at h
  exact if_pos ⟨h.1.le, h.2⟩

/-- A number is put as the one that codes it, as long as the double is no overflow. -/
theorem putSe_eq (ctx : MppWriteCtx) (val : ℤ) :
    mppWriterPutSe ctx val =
      if |val| < 2 ^ 30 then mppWriterPutUe ctx (.ofNat (seCode val)) else none := by
  rw [mppWriterPutSe, seCode]
  split_ifs with hpos hlt hlt
  · rw [abs_lt] at hlt
    have h₁ : s32 (2 * val) = some (2 * val) := s32_of_lt (abs_lt.2 ⟨by omega, by omega⟩)
    have h₂ : s32 (2 * val - 1) = some (2 * val - 1) := s32_of_lt (abs_lt.2 ⟨by omega, by omega⟩)
    rw [h₁, bind_eq_bind, bind_some, h₂]
    rfl
  · have hlt : 2 ^ 30 ≤ val := by
      rw [abs_of_pos hpos] at hlt
      exact not_lt.1 hlt
    have h₁ : s32 (2 * val) = none := if_neg fun h => by omega
    rw [h₁]
    rfl
  · rw [abs_lt] at hlt
    have h₁ : s32 (-2 * val) = some (-2 * val) := s32_of_lt (abs_lt.2 ⟨by omega, by omega⟩)
    rw [h₁]
    rfl
  · have hlt : 2 ^ 30 ≤ -val := by
      rw [abs_of_nonpos (not_lt.1 hpos)] at hlt
      exact not_lt.1 hlt
    have h₁ : s32 (-2 * val) = none := if_neg fun h => by omega
    rw [h₁]
    rfl

theorem seVal_eq (ue : UInt32) :
    seVal ue = if ue.toNat % 2 = 0 then -((ue.toNat / 2 : ℕ) : ℤ) else (ue.toNat / 2 : ℕ) + 1 := by
  have heven : ue % 2 = 0 ↔ ue.toNat % 2 = 0 := by
    rw [← UInt32.toNat_inj, UInt32.toNat_mod]
    rfl
  have hhalf : (ue >>> 1).toNat = ue.toNat / 2 := by
    rw [UInt32.toNat_shiftRight, Nat.shiftRight_eq_div_pow]
    rfl
  rw [seVal, hhalf]
  simp only [heven]

theorem seVal_injective : Function.Injective seVal := by
  intro a b h
  rw [seVal_eq, seVal_eq] at h
  rw [← UInt32.toNat_inj]
  split_ifs at h <;> omega

theorem seVal_seCode {val : ℤ} (hval : |val| < 2 ^ 30) : seVal (.ofNat (seCode val)) = val := by
  have hlt := seCode_lt hval
  have hnat : (UInt32.ofNat (seCode val)).toNat = seCode val := by
    rw [UInt32.toNat_ofNat']
    exact Nat.mod_eq_of_lt (by omega)
  rw [seVal_eq, hnat, seCode]
  split_ifs <;> omega

/-- What is read for a signed number is what the number read in its place codes. -/
theorem readsBack_se_iff {val : ℤ} (hval : |val| < 2 ^ 30) {ue : UInt32} :
    ReadsBack mppWriterPutSe mppReadSe size before after val (seVal ue) ↔
      ReadsBack mppWriterPutUe mppReadUe size before after (.ofNat (seCode val)) ue := by
  have hput := putSe_eq (putFields (mppWriterInit size) before) val
  rw [if_pos hval] at hput
  have hread : ∀ r r', mppReadSe r = some (seVal ue, r') ↔ mppReadUe r = some (ue, r') := by
    intro r r'
    rw [mppReadSe]
    cases mppReadUe r with
    | none => simp
    | some p =>
      rw [bind_eq_bind, bind_some, some_inj, some_inj, Prod.ext_iff,
        Prod.ext_iff]
      exact and_congr_left fun _ => seVal_injective.eq_iff
  simp only [ReadsBack, hput, hread]

theorem se_roundTrips_iff (val : ℤ) :
    RoundTrips mppWriterPutSe mppReadSe val ↔ |val| < 2 ^ 30 ∧ UeFits (seCode val) := by
  by_cases hlt : |val| < 2 ^ 30
  · have hcode := seCode_lt hlt
    have hnat : (UInt32.ofNat (seCode val)).toNat = seCode val := by
      rw [UInt32.toNat_ofNat']
      exact Nat.mod_eq_of_lt (by omega)
    have hue := ue_roundTrips_iff (.ofNat (seCode val)) (by omega)
    rw [hnat] at hue
    rw [and_iff_right hlt, ← hue]
    have hiff : ∀ size before after, ReadsBack mppWriterPutSe mppReadSe size before after val val ↔
        ReadsBack mppWriterPutUe mppReadUe size before after (.ofNat (seCode val))
          (.ofNat (seCode val)) := by
      intro size before after
      have h := @readsBack_se_iff size before after val hlt (.ofNat (seCode val))
      rwa [seVal_seCode hlt] at h
    simp only [RoundTrips, hiff]
  · refine iff_of_false (fun h => ?_) fun h => hlt h.1
    obtain ⟨ctx, hput, -⟩ := h 0 [] [] (fun f hf => absurd hf not_mem_nil)
      fun f hf => absurd hf not_mem_nil
    rw [putSe_eq, if_neg hlt] at hput
    exact absurd hput (some_ne_none _).symm

/-- The length of a signed number: as many bits as are written for it. -/
theorem expGolombSigned_eq {val : ℤ} (hval : |val| < 2 ^ 30) :
    mppExpGolombSigned val = some (2 * Nat.size (seCode val + 1) - 1) := by
  have hcode := seCode_lt hval
  have hnat : (UInt32.ofNat (seCode val)).toNat = seCode val := by
    rw [UInt32.toNat_ofNat']
    exact Nat.mod_eq_of_lt (by omega)
  have hbits := numBits_succ (.ofNat (seCode val)) (by omega)
  rw [hnat, if_pos hcode, ← UInt32.ofNat_one, ← UInt32.ofNat_add] at hbits
  rw [abs_lt] at hval
  rw [mppExpGolombSigned]
  split_ifs with hpos
  · have harg : 2 * val = ((seCode val + 1 : ℕ) : ℤ) := by
      rw [seCode, if_pos hpos]
      omega
    have h₁ : s32 (2 * val) = some (2 * val) := s32_of_lt (abs_lt.2 ⟨by omega, by omega⟩)
    rw [h₁, bind_eq_bind, bind_some, harg]
    dsimp only
    rw [Int.toNat_natCast, hbits, bind_eq_bind, bind_some, Nat.mul_comm]
  · have harg : -2 * val + 1 = ((seCode val + 1 : ℕ) : ℤ) := by
      rw [seCode, if_neg hpos]
      omega
    have h₁ : s32 (-2 * val) = some (-2 * val) := s32_of_lt (abs_lt.2 ⟨by omega, by omega⟩)
    have h₂ : s32 (-2 * val + 1) = some (-2 * val + 1) :=
      s32_of_lt (abs_lt.2 ⟨by omega, by omega⟩)
    rw [h₁, bind_eq_bind, bind_some, h₂, bind_some, harg]
    dsimp only
    rw [Int.toNat_natCast, hbits, bind_eq_bind, bind_some, Nat.mul_comm]

/-- The bits written for a signed number are as many as its length says. -/
theorem putSe_bits {val : ℤ} (hval : |val| < 2 ^ 30) (size : ℕ) {before : List Field}
    (hbefore : ∀ f ∈ before, f.Fits) :
    ∃ ctx len, mppWriterPutSe (putFields (mppWriterInit size) before) val = some ctx ∧
      mppExpGolombSigned val = some len ∧
      (ctx.byteCnt ≤ size →
        mppWriterBits ctx + 8 * (putFields (mppWriterInit size) before).emulCnt =
          mppWriterBits (putFields (mppWriterInit size) before) + len + 8 * ctx.emulCnt) := by
  have hcode := seCode_lt hval
  have hnat : (UInt32.ofNat (seCode val)).toNat = seCode val := by
    rw [UInt32.toNat_ofNat']
    exact Nat.mod_eq_of_lt (by omega)
  have hbits := numBits_succ (.ofNat (seCode val)) (by omega)
  rw [hnat, if_pos hcode] at hbits
  have hput := putSe_eq (putFields (mppWriterInit size) before) val
  rw [if_pos hval, putUe_eq _ hbits] at hput
  refine ⟨_, _, hput, expGolombSigned_eq hval, fun hroom => ?_⟩
  have hsize : (putFields (mppWriterInit size) before).size = size := (putFields_byteCnt _ _).1
  have hw := (written_init size).putFields hbefore ((putPieces_size _ _).2.trans hroom)
  have hw' := hw.putUe (.ofNat (seCode val)) (by rwa [hnat])
    (by rw [hnat]; exact hroom.trans_eq hsize.symm)
  rw [hnat] at hw'
  rw [hw.writerBits, hw'.writerBits, length_append, length_ueBits]
  omega

/-! ### Both -/

/-- Unsigned numbers are read back if and only if they fit, and signed ones if and only if
    doubling them is no overflow and the numbers that code them fit. The length of a signed
    number is the number of bits written for it. -/
theorem ue_se_roundTrips (uval : UInt32) (val : ℤ) :
    (uval.toNat < 2 ^ 32 - 1 →
      (RoundTrips mppWriterPutUe mppReadUe uval ↔ UeFits uval.toNat)) ∧
    (|val| < 2 ^ 31 →
      (RoundTrips mppWriterPutSe mppReadSe val ↔ |val| < 2 ^ 30 ∧ UeFits (seCode val))) ∧
    (|val| < 2 ^ 30 → ∀ (size : ℕ) (before : List Field), (∀ f ∈ before, f.Fits) →
      ∃ ctx len, mppWriterPutSe (putFields (mppWriterInit size) before) val = some ctx ∧
        mppExpGolombSigned val = some len ∧
        (ctx.byteCnt ≤ size →
          mppWriterBits ctx + 8 * (putFields (mppWriterInit size) before).emulCnt =
            mppWriterBits (putFields (mppWriterInit size) before) + len + 8 * ctx.emulCnt)) :=
  ⟨ue_roundTrips_iff uval, fun _ => se_roundTrips_iff val,
    fun hval size _ hbefore => putSe_bits hval size hbefore⟩

/-- The largest number of `24` bits but one is read back, and so is a longer one. -/
theorem ue_se_roundTrips_max :
    RoundTrips mppWriterPutUe mppReadUe (2 ^ 24 - 2) ∧
      RoundTrips mppWriterPutUe mppReadUe (2 ^ 25 - 2) ∧
      RoundTrips mppWriterPutSe mppReadSe (-(2 ^ 23 - 1)) ∧
      ∃ ctx, mppWriterPutSe (putFields (mppWriterInit 16) [(1, 3)]) (-5) = some ctx ∧
        ctx.byteCnt ≤ 16 ∧ mppWriterBits ctx = 3 + 7 := by
  refine ⟨((ue_se_roundTrips _ 0).1 (by decide)).2 (by decide),
    ((ue_se_roundTrips _ 0).1 (by decide)).2 (by decide),
    ((ue_se_roundTrips 0 _).2.1 (by decide)).2 (by decide), ?_⟩
  obtain ⟨ctx, len, hput, hlen, hbits⟩ :=
    (ue_se_roundTrips 0 (-5)).2.2 (by decide) 16 [(1, 3)] (by decide)
  have heval : mppWriterPutSe (putFields (mppWriterInit 16) [(1, 3)]) (-5) =
      some { mppWriterInit 16 with
        buffer := [34], byteCnt := 1, byteBuffer := 0xC0000000, bufferedBits := 2 } := by
    decide
  obtain rfl := some.inj (hput.symm.trans heval)
  exact ⟨_, heval, by decide, by decide⟩

/-- The least number of `25` bits is not read back: in place of its last bit, the first
    `24` bits are written once more. -/
theorem putUe_not_roundTrips : ¬RoundTrips mppWriterPutUe mppReadUe (2 ^ 24) := by
  rw [ue_roundTrips_iff _ (by decide)]
  decide

end Libmpp.Bitstream
