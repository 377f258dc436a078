import Libmpp.Lib.Bits
import Libmpp.Lib.Emulation

/-!
# The bit reader

The reader of H.264 and H.265 headers (`mpp_bitread.c`). It loads one byte at a time,
and skips inserted bytes on the way: a `3` that comes after two zero bytes.

`Unread ctx total bits` says that a reader is in the middle of bytes written with
emulation prevention, of which `bits` are still to be read, and that it will have met
`total` inserted bytes at their end. Reading a field takes its bits (`Unread.readBits`).
-/

namespace Libmpp.Bitstream

open List Option

/-- The prevention of start codes a reader is to undo, of the kinds the headers use. -/
inductive PseudoCodeType
  | none
  | h264H265
  deriving DecidableEq, Repr

/-- The reader. The bytes from `data_` on, as many as there are left, are `data`. -/
structure BitReadCtx where
  data : List UInt8
  currByte : ℕ
  numRemainingBitsInCurrByte : ℕ
  prevTwoBytes : UInt64
  emulationPreventionBytes : ℕ
  usedBits : ℕ
  preventionType : PseudoCodeType
  deriving DecidableEq, Repr

def mppSetBitreadCtx (data : List UInt8) : BitReadCtx where
  data
  currByte := 0
  numRemainingBitsInCurrByte := 0
  prevTwoBytes := 0xffff
  emulationPreventionBytes := 0
  usedBits := 0
  preventionType := .none

def mppSetBitreadPseudoCodeType (ctx : BitReadCtx) (type : PseudoCodeType) : BitReadCtx :=
  { ctx with preventionType := type }

/-! ## Loading a byte -/

/-- Load the next byte. -/
def updateCurbyteDefault (ctx : BitReadCtx) : Option BitReadCtx :=
  match ctx.data with
  | [] => none
  | b :: data =>
    some { ctx with
      data
      currByte := b.toNat
      numRemainingBitsInCurrByte := 8
      prevTwoBytes := (ctx.prevTwoBytes <<< 8) ||| b.toUInt64 }

/-- Load the next byte, or the one after it when it is an inserted one. -/
def updateCurbyteH264 (ctx : BitReadCtx) : Option BitReadCtx :=
  match ctx.data with
  | [] => none
  | b :: data =>
    if b = 3 ∧ ctx.prevTwoBytes &&& 0xffff = 0 then
      updateCurbyteDefault { ctx with
        data
        emulationPreventionBytes := ctx.emulationPreventionBytes + 1
        usedBits := ctx.usedBits + 8
        prevTwoBytes := 0xffff }
    else updateCurbyteDefault ctx

def updateCurbyte (ctx : BitReadCtx) : Option BitReadCtx :=
  match ctx.preventionType with
  | .none => updateCurbyteDefault ctx
  | .h264H265 => updateCurbyteH264 ctx

/-! ## Fields -/

/-- Take all that is left in the current byte as long as that is not enough. Each round
    but the first takes eight bits. -/
def readLoop : ℕ → BitReadCtx → ℕ → ℕ → Option (BitReadCtx × ℕ × ℕ)
  | 0, _, _, _ => none
  | fuel + 1, ctx, bitsLeft, out =>
    if ctx.numRemainingBitsInCurrByte < bitsLeft then do
      let out := out ||| (ctx.currByte <<< (bitsLeft - ctx.numRemainingBitsInCurrByte))
      let bitsLeft := bitsLeft - ctx.numRemainingBitsInCurrByte
      let ctx ← updateCurbyte ctx
      readLoop fuel ctx bitsLeft out
    else some (ctx, bitsLeft, out)

/-- Read a field of `numBits` bits. -/
def mppReadBits (ctx : BitReadCtx) (numBits : ℕ) : Option (ℕ × BitReadCtx) :=
  if numBits > 31 then none else do
  let (ctx, bitsLeft, out) ← readLoop (numBits + 1) ctx numBits 0
  let out := out ||| (ctx.currByte >>> (ctx.numRemainingBitsInCurrByte - bitsLeft))
  some (out &&& (2 ^ numBits - 1),
    { ctx with
      numRemainingBitsInCurrByte := ctx.numRemainingBitsInCurrByte - bitsLeft
      usedBits := ctx.usedBits + numBits })

/-! ## What is still to be read -/

/-- The last two bytes loaded are behind a run of `z` zero bytes, as far as two bytes tell. -/
structure PrevZeros (prevTwoBytes : UInt64) (z : ℕ) : Prop where
  le : z ≤ 2
  two : z = 2 ↔ prevTwoBytes.toNat % 65536 = 0
  pos : 0 < z ↔ prevTwoBytes.toNat % 256 = 0

/-- At the start and after an inserted byte, there is no run of zeros. -/
theorem prevZeros_ffff : PrevZeros 0xffff 0 := ⟨by decide, by decide, by decide⟩

/-- The bits `bits` are still to be read; they end with `total` inserted bytes met. -/
structure Unread (ctx : BitReadCtx) (total : ℕ) (bits : List Bool) : Prop where
  exists_rest : ∃ z rest, PrevZeros ctx.prevTwoBytes z ∧
    ctx.data = (escapeMarked z rest).map Prod.fst ∧
    ctx.emulationPreventionBytes + insertedCnt (escapeMarked z rest) = total ∧
    bits = toBits ctx.numRemainingBitsInCurrByte ctx.currByte ++ bytesToBits rest
  numRemaining : ctx.numRemainingBitsInCurrByte ≤ 8
  type : ctx.preventionType = .h264H265

/-- The bytes written for a payload are all to be read. -/
theorem unread_init (l : List UInt8) :
    Unread (mppSetBitreadPseudoCodeType (mppSetBitreadCtx ((escapeMarked 0 l).map Prod.fst)) .h264H265)
      (insertedCnt (escapeMarked 0 l)) (bytesToBits l) :=
  ⟨⟨0, l, prevZeros_ffff, rfl, Nat.zero_add _, rfl⟩, Nat.zero_le 8, rfl⟩

/-- The low bits of the last bytes loaded. -/
theorem toNat_shift_or (p : UInt64) (b : UInt8) :
    ((p <<< 8) ||| b.toUInt64).toNat % 65536 = p.toNat % 256 * 256 + b.toNat := by
  have hb := b.toNat_lt
  have h8 : (8 : UInt64).toNat % 64 = 8 := rfl
  have hshift : (p <<< 8).toNat = p.toNat % 2 ^ 56 * 2 ^ 8 := by
    rw [UInt64.toNat_shiftLeft, h8, Nat.shiftLeft_eq]
    omega
  have hor : ((p <<< 8) ||| b.toUInt64).toNat = p.toNat % 2 ^ 56 * 2 ^ 8 + b.toNat := by
    rw [UInt64.toNat_or, hshift, UInt8.toNat_toUInt64]
    exact or_eq_add hb
  rw [hor]
  omega

/-- The run of zeros goes on with the byte loaded. -/
theorem PrevZeros.next {p : UInt64} {z : ℕ} (h : PrevZeros p z) {b : UInt8}
    (hb : ¬Escapes z b) : PrevZeros ((p <<< 8) ||| b.toUInt64) (nextZeros z b) := by
  have hlow := toNat_shift_or p b
  have hbyte := b.toNat_lt
  have hzero : b = 0 ↔ b.toNat = 0 := by
    rw [← UInt8.toNat_inj]
    rfl
  obtain ⟨hle, htwo, hpos⟩ := h
  unfold nextZeros
  split_ifs with h0
  · have hne : z ≠ 2 := by
      rintro rfl
      exact hb ⟨rfl, by rw [h0]; decide⟩
    have := hzero.1 h0
    exact ⟨by omega, by omega, by omega⟩
  · have := hzero.not.1 h0
    exact ⟨by omega, by omega, by omega⟩

theorem and_ffff_eq_zero {p : UInt64} {z : ℕ} (h : PrevZeros p z) : p &&& 0xffff = 0 ↔ z = 2 := by
  rw [h.two, ← UInt64.toNat_inj, UInt64.toNat_and]
  have : (0xffff : UInt64).toNat = 2 ^ 16 - 1 := rfl
  rw [this, Nat.and_two_pow_sub_one_eq_mod]
  rfl

variable {ctx : BitReadCtx} {total : ℕ}

/-- Loading a byte takes the next one of the payload. -/
theorem updateCurbyte_spec {z : ℕ} {b : UInt8} {rest : List UInt8}
    (hprev : PrevZeros ctx.prevTwoBytes z)
    (hdata : ctx.data = (escapeMarked z (b :: rest)).map Prod.fst)
    (htotal : ctx.emulationPreventionBytes + insertedCnt (escapeMarked z (b :: rest)) = total)
    (htype : ctx.preventionType = .h264H265) :
    ∃ ctx', updateCurbyte ctx = some ctx' ∧ ctx'.currByte = b.toNat ∧
      ctx'.numRemainingBitsInCurrByte = 8 ∧ Unread ctx' total (toBits 8 b.toNat ++ bytesToBits rest) := by
  rw [escapeMarked, insertedCnt_append] at htotal
  rw [escapeMarked, map_append] at hdata
  rw [updateCurbyte, htype]
  dsimp only
  by_cases he : Escapes z b
  · rw [if_pos he] at hdata htotal
    rw [writtenZeros, if_pos he] at hdata htotal
    have hskip : ctx.prevTwoBytes &&& 0xffff = 0 := (and_ffff_eq_zero hprev).2 he.1
    rw [updateCurbyteH264, hdata, map_cons, cons_append]
    dsimp only
    rw [if_pos ⟨rfl, hskip⟩]
    refine ⟨_, rfl, rfl, rfl, ⟨nextZeros 0 b, rest, ?_, rfl, ?_, rfl⟩, le_rfl, htype⟩
    · refine prevZeros_ffff.next ?_
      rintro ⟨h, -⟩
      exact absurd h (by decide)
    · have hone : insertedCnt [(3, true), (b, false)] = 1 := rfl
      rw [hone] at htotal
      change _ + 1 + insertedCnt _ = _
      omega
  · rw [if_neg he] at hdata htotal
    rw [writtenZeros, if_neg he] at hdata htotal
    have hkeep : ¬(b = 3 ∧ ctx.prevTwoBytes &&& 0xffff = 0) := by
      rintro ⟨rfl, h0⟩
      exact he ⟨(and_ffff_eq_zero hprev).1 h0, by decide⟩
    rw [updateCurbyteH264, hdata, map_cons, cons_append]
    dsimp only
    rw [if_neg hkeep, updateCurbyteDefault, hdata]
    refine ⟨_, rfl, rfl, rfl, ⟨nextZeros z b, rest, hprev.next he, rfl, ?_, rfl⟩, le_rfl, htype⟩
    have hnone : insertedCnt [(b, false)] = 0 := rfl
    rw [hnone, Nat.zero_add] at htotal
    exact htotal

/-! ## Reading -/

/-- What is taken from the current byte, behind bits already taken: of bits taken before,
    only those above the field are left in the byte. -/
theorem or_taken {n bitsLeft k q out curr rem : ℕ} (hn : bitsLeft ≤ n) (hk : k + rem = bitsLeft)
    (hout : out % 2 ^ n = q * 2 ^ bitsLeft) (hfresh : bitsLeft = n ∨ curr < 2 ^ rem) :
    (out ||| curr <<< k) % 2 ^ n = q * 2 ^ bitsLeft + ofBits (toBits rem curr) * 2 ^ k := by
  have hpow : (2 : ℕ) ^ bitsLeft = 2 ^ rem * 2 ^ k := by rw [← pow_add, ← hk, add_comm]
  have hmod : (curr <<< k) % 2 ^ n = curr % 2 ^ rem * 2 ^ k := by
    rw [Nat.shiftLeft_eq]
    rcases hfresh with rfl | hlt
    · rw [hpow, Nat.mul_mod_mul_right]
    · rw [Nat.mod_eq_of_lt hlt]
      refine Nat.mod_eq_of_lt (lt_of_lt_of_le ?_ (Nat.pow_le_pow_right Nat.two_pos hn))
      rw [hpow]
      exact Nat.mul_lt_mul_of_pos_right hlt (Nat.two_pow_pos k)
  have hlt : curr % 2 ^ rem * 2 ^ k < 2 ^ bitsLeft := by
    rw [hpow]
    exact Nat.mul_lt_mul_of_pos_right (Nat.mod_lt _ (Nat.two_pow_pos _)) (Nat.two_pow_pos k)
  rw [Nat.or_mod_two_pow, hout, hmod, or_eq_add hlt, ofBits_toBits_mod]

/-- The rounds of a field: they take bits from the front, until the current byte has the
    rest of it. -/
theorem readLoop_spec (fuel n bitsLeft out q : ℕ) {a b : List Bool}
    (h : Unread ctx total (a ++ b)) (ha : a.length = bitsLeft) (hn : bitsLeft ≤ n)
    (hfresh : bitsLeft = n ∨ ctx.currByte < 2 ^ ctx.numRemainingBitsInCurrByte)
    (hfuel : bitsLeft ≤ ctx.numRemainingBitsInCurrByte + 8 * fuel)
    (hout : out % 2 ^ n = q * 2 ^ bitsLeft) :
    ∃ ctx' bitsLeft' out' a' q', readLoop (fuel + 1) ctx bitsLeft out = some (ctx', bitsLeft', out') ∧
      Unread ctx' total (a' ++ b) ∧ a'.length = bitsLeft' ∧ bitsLeft' ≤ n ∧
      bitsLeft' ≤ ctx'.numRemainingBitsInCurrByte ∧
      (bitsLeft' = n ∨ ctx'.currByte < 2 ^ ctx'.numRemainingBitsInCurrByte) ∧
      out' % 2 ^ n = q' * 2 ^ bitsLeft' ∧
      q' * 2 ^ bitsLeft' + ofBits a' = q * 2 ^ bitsLeft + ofBits a := by
  induction fuel generalizing ctx bitsLeft out q a with
  | zero =>
    rw [readLoop, if_neg (by omega)]
    exact ⟨ctx, bitsLeft, out, a, q, rfl, h, ha, hn, by omega, hfresh, hout, rfl⟩
  | succ fuel ih =>
    rw [readLoop]
    split_ifs with hlt
    · obtain ⟨⟨z, rest, hprev, hdata, htotal, hbits⟩, hrem, htype⟩ := h
      set rem := ctx.numRemainingBitsInCurrByte with hremdef
      -- the field goes on behind the current byte
      obtain ⟨a₂, rfl⟩ : ∃ a₂, a = toBits rem ctx.currByte ++ a₂ := by
        refine ⟨a.drop rem, ?_⟩
        have htake := congrArg (List.take rem) hbits
        rw [take_append_of_le_length (by omega), take_append_of_le_length
          (length_toBits _ _).ge, take_of_length_le (length_toBits _ _).le] at htake
        rw [← htake, take_append_drop]
      rw [append_assoc, append_cancel_left_eq] at hbits
      rw [length_append, length_toBits] at ha
      obtain ⟨byte, rest, rfl⟩ : ∃ byte rest', rest = byte :: rest' := by
        cases rest with
        | nil =>
          have := congrArg List.length hbits
          rw [length_append, bytesToBits_nil, length_nil] at this
          omega
        | cons byte rest => exact ⟨byte, rest, rfl⟩
      obtain ⟨ctx', hupdate, hcurr, hrem', hunread⟩ := updateCurbyte_spec hprev hdata htotal htype
      have hk : bitsLeft - rem + rem = bitsLeft := Nat.sub_add_cancel hlt.le
      have hout' := or_taken hn hk hout hfresh
      have hpow : (2 : ℕ) ^ bitsLeft = 2 ^ rem * 2 ^ (bitsLeft - rem) := by
        rw [← pow_add, add_comm, hk]
      rw [bytesToBits_cons] at hbits
      rw [← hbits] at hunread
      have hrest : ofBits (toBits rem ctx.currByte ++ a₂) =
          ofBits (toBits rem ctx.currByte) * 2 ^ (bitsLeft - rem) + ofBits a₂ := by
        rw [ofBits_append]
        congr 3
        omega
      obtain ⟨c, bl, o, a', q', heq, hu, hlen, hbn, hbl, hfr, ho, hsum⟩ := 
        ih (bitsLeft - rem) (out ||| ctx.currByte <<< (bitsLeft - rem))
        (q * 2 ^ rem + ofBits (toBits rem ctx.currByte)) hunread (by omega) (by omega)
        (.inr (by rw [hcurr, hrem']; exact byte.toNat_lt)) (by rw [hrem']; omega)
        (by rw [hout', hpow]; ring)
      refine ⟨c, bl, o, a', q', ?_, hu, hlen, hbn, hbl, hfr, ho, ?_⟩
      · rw [bind_eq_bind, hupdate, bind_some]
        exact heq
      · rw [hsum, hrest, hpow]
        ring
    · exact ⟨ctx, bitsLeft, out, a, q, rfl, h, ha, hn, not_lt.1 hlt, hfresh, hout, rfl⟩

/-- Reading a field takes its bits. -/
theorem Unread.readBits {a b : List Bool} (h : Unread ctx total (a ++ b)) (ha : a.length ≤ 31) :
    ∃ ctx', mppReadBits ctx a.length = some (ofBits a, ctx') ∧ Unread ctx' total b := by
  obtain ⟨ctx', bl, out, a', q, hloop, hu, hlen, hbn, hbl, hfr, hout, hsum⟩ :=
    readLoop_spec a.length a.length a.length 0 0 h rfl le_rfl (.inl rfl)
      (by omega) (by rw [Nat.zero_mod, Nat.zero_mul])
  rw [Nat.zero_mul, Nat.zero_add] at hsum
  obtain ⟨⟨z, rest, hprev, hdata, htotal, hbits⟩, hrem, htype⟩ := hu
  set rem := ctx'.numRemainingBitsInCurrByte with hremdef
  set curr := ctx'.currByte with hcurrdef
  -- the current byte has the rest of the field, and what follows it
  have hsplit : toBits rem curr = toBits bl (curr / 2 ^ (rem - bl)) ++ toBits (rem - bl) curr := by
    rw [← toBits_add, Nat.add_sub_cancel' hbl]
  rw [hsplit, append_assoc] at hbits
  obtain ⟨ha', hb⟩ := append_inj hbits (by rw [hlen, length_toBits])
  have hfield : (curr >>> (rem - bl)) % 2 ^ a.length = ofBits a' := by
    rw [ha', ofBits_toBits_mod, Nat.shiftRight_eq_div_pow]
    rcases hfr with hbl' | hlt
    · rw [hbl']
    · have hpow : (2 : ℕ) ^ rem = 2 ^ bl * 2 ^ (rem - bl) := by
        rw [← pow_add, Nat.add_sub_cancel' hbl]
      have hlt' : curr / 2 ^ (rem - bl) < 2 ^ bl := by
        refine Nat.div_lt_of_lt_mul ?_
        rw [mul_comm, ← hpow]
        exact hlt
      rw [Nat.mod_eq_of_lt hlt',
        Nat.mod_eq_of_lt (hlt'.trans_le (Nat.pow_le_pow_right Nat.two_pos hbn))]
  have hval : (out ||| curr >>> (rem - bl)) &&& (2 ^ a.length - 1) = ofBits a := by
    have ha'lt := ofBits_lt a'
    rw [hlen] at ha'lt
    rw [Nat.and_two_pow_sub_one_eq_mod, Nat.or_mod_two_pow, hout, hfield, or_eq_add ha'lt, hsum]
  refine ⟨{ ctx' with
      numRemainingBitsInCurrByte := rem - bl, usedBits := ctx'.usedBits + a.length }, ?_,
    ⟨z, rest, hprev, hdata, htotal, hb⟩, (Nat.sub_le _ _).trans hrem, htype⟩
  rw [mppReadBits, if_neg (not_lt.2 ha), hloop, bind_eq_bind, bind_some]
  dsimp only
  rw [hval]

/-! ## Bits taken -/

/-- From `ctx` to `ctx'`, a reader has taken `n` bits, beside those of inserted bytes. -/
def Took (ctx ctx' : BitReadCtx) (n : ℕ) : Prop :=
  ctx'.usedBits + 8 * ctx.emulationPreventionBytes =
    ctx.usedBits + n + 8 * ctx'.emulationPreventionBytes

theorem Took.trans {ctx ctx' ctx'' : BitReadCtx} {m n : ℕ} (h : Took ctx ctx' m)
    (h' : Took ctx' ctx'' n) : Took ctx ctx'' (m + n) := by
  rw [Took] at *
  omega

/-- Loading a byte takes no bits. -/
theorem took_updateCurbyte {ctx ctx' : BitReadCtx} (h : updateCurbyte ctx = some ctx') :
    Took ctx ctx' 0 := by
  have hdefault : ∀ c c' : BitReadCtx, updateCurbyteDefault c = some c' →
      c'.usedBits = c.usedBits ∧ c'.emulationPreventionBytes = c.emulationPreventionBytes := by
    intro c c' hc
    rw [updateCurbyteDefault] at hc
    split at hc
    · exact absurd hc (some_ne_none _).symm
    · rw [← some.inj hc]
      exact ⟨rfl, rfl⟩
  have hkeep : updateCurbyteDefault ctx = some ctx' → Took ctx ctx' 0 := by
    intro hc
    obtain ⟨hused, hemul⟩ := hdefault ctx ctx' hc
    rw [Took, hused, hemul, Nat.add_zero]
  rw [updateCurbyte] at h
  split at h
  · exact hkeep h
  · rw [updateCurbyteH264] at h
    split at h
    · exact absurd h (some_ne_none _).symm
    · split_ifs at h
      · obtain ⟨hused, hemul⟩ := hdefault _ ctx' h
        rw [Took, hused, hemul]
        ring
      · exact hkeep h

theorem took_readLoop {fuel bitsLeft out : ℕ} {ctx ctx' : BitReadCtx} {bitsLeft' out' : ℕ}
    (h : readLoop fuel ctx bitsLeft out = some (ctx', bitsLeft', out')) : Took ctx ctx' 0 := by
  induction fuel generalizing ctx bitsLeft out with
  | zero => exact absurd h (some_ne_none _).symm
  | succ fuel ih =>
    rw [readLoop] at h
    split_ifs at h
    · obtain ⟨c, hc, hrest⟩ := bind_eq_some_iff.1 h
      exact (took_updateCurbyte hc).trans (ih hrest)
    · obtain ⟨rfl, -⟩ := Prod.mk.inj (some.inj h)
      rfl

/-- Reading a field takes its bits. -/
theorem took_readBits {ctx ctx' : BitReadCtx} {n val : ℕ}
    (h : mppReadBits ctx n = some (val, ctx')) : Took ctx ctx' n := by
  rw [mppReadBits] at h
  split_ifs at h
  obtain ⟨⟨c, bitsLeft, out⟩, hc, hrest⟩ := bind_eq_some_iff.1 h
  obtain ⟨-, rfl⟩ := Prod.mk.inj (some.inj hrest)
  have hloop := took_readLoop hc
  rw [Took] at *
  dsimp only
  omega

end Libmpp.Bitstream
