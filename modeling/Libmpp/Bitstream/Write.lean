import Libmpp.Lib.Bits
import Libmpp.Lib.Emulation

/-!
# The bit writer

The writer of H.264 and H.265 headers (`mpp_bitwrite.c`). Bits are collected in a left
aligned word, whose full bytes go to the buffer: with emulation prevention from
`mppWriterPutBits`, and without it from `mppWriterPutRawBits`.

`Written ctx bits` says that a writer has been given the bits `bits`, all of them with
emulation prevention: the buffer holds the full bytes, escaped, and the word the rest.
Writing a field adds its bits (`Written.putBits`), as long as the buffer has room.
-/

namespace Libmpp.Bitstream

open List

/-- The writer. What lies before `stream` in the memory is `buffer`. -/
structure MppWriteCtx where
  buffer : List UInt8
  size : ℕ
  byteCnt : ℕ
  byteBuffer : UInt32
  bufferedBits : ℕ
  zeroBytes : ℕ
  overflow : Bool
  emulCnt : ℕ
  deriving DecidableEq, Repr

/-- Whether the writer is still inside its memory. -/
def mppWriterStatus (ctx : MppWriteCtx) : MppWriteCtx × Bool :=
  if ctx.byteCnt > ctx.size then ({ ctx with overflow := true }, false) else (ctx, true)

def mppWriterInit (size : ℕ) : MppWriteCtx where
  buffer := []
  size
  byteCnt := 0
  byteBuffer := 0
  bufferedBits := 0
  zeroBytes := 0
  overflow := false
  emulCnt := 0

/-! ## Fields -/

/-- Write a full byte, escaped when it would complete a start code. -/
def MppWriteCtx.putByte (ctx : MppWriteCtx) (b : UInt8) : MppWriteCtx :=
  if ctx.zeroBytes = 2 ∧ b < 4 then
    { ctx with
      buffer := ctx.buffer ++ [3, b]
      byteCnt := ctx.byteCnt + 2
      emulCnt := ctx.emulCnt + 1
      zeroBytes := if b = 0 then 1 else 0 }
  else
    { ctx with
      buffer := ctx.buffer ++ [b]
      byteCnt := ctx.byteCnt + 1
      zeroBytes := if b = 0 then ctx.zeroBytes + 1 else 0 }

/-- Write the first `n` bytes of the word, up to the end of the memory. -/
def putBytes : ℕ → MppWriteCtx → UInt32 → MppWriteCtx × Option UInt32
  | 0, ctx, byteBuffer => (ctx, some byteBuffer)
  | n + 1, ctx, byteBuffer =>
    match mppWriterStatus ctx with
    | (ctx, false) => (ctx, none)
    | (ctx, true) => putBytes n (ctx.putByte (byteBuffer >>> 24).toUInt8) (byteBuffer <<< 8)

/-- Write the `len` bits of `val`, with emulation prevention. -/
def mppWriterPutBits (ctx : MppWriteCtx) (val : UInt32) (len : ℕ) : MppWriteCtx :=
  let bits := len + ctx.bufferedBits
  let byteBuffer := ctx.byteBuffer ||| (val <<< UInt32.ofNat (32 - bits))
  match putBytes (bits / 8) ctx byteBuffer with
  | (ctx, some byteBuffer) => { ctx with bufferedBits := bits % 8, byteBuffer }
  | (ctx, none) => ctx

/-- Write the stop bit and align. -/
def mppWriterTrailing (ctx : MppWriteCtx) : MppWriteCtx :=
  let ctx := mppWriterPutBits ctx 1 1
  if ctx.bufferedBits ≠ 0 then mppWriterPutBits ctx 0 (8 - ctx.bufferedBits) else ctx

/-- The number of bits written, those of inserted bytes among them. -/
def mppWriterBits (ctx : MppWriteCtx) : ℕ := ctx.byteCnt * 8 + ctx.bufferedBits

/-! ## What has been written -/

/-- The word holds the bits `pending`, left aligned. -/
def WordHolds (byteBuffer : UInt32) (pending : List Bool) : Prop :=
  pending.length ≤ 32 ∧ byteBuffer.toNat = ofBits pending * 2 ^ (32 - pending.length)

/-- The full bytes in the buffer are those of `full`, escaped. -/
structure Buffered (ctx : MppWriteCtx) (full : List UInt8) : Prop where
  buffer : ctx.buffer = (escapeMarked 0 full).map Prod.fst
  byteCnt : ctx.byteCnt = ctx.buffer.length
  zeroBytes : ctx.zeroBytes = zerosAfter 0 full
  emulCnt : ctx.emulCnt = insertedCnt (escapeMarked 0 full)

/-- The bits `bits` have been written. -/
structure Written (ctx : MppWriteCtx) (bits : List Bool) : Prop where
  exists_full : ∃ full pending, Buffered ctx full ∧ WordHolds ctx.byteBuffer pending ∧
    pending.length = ctx.bufferedBits ∧ bits = bytesToBits full ++ pending
  bufferedBits : ctx.bufferedBits < 8

theorem written_init (size : ℕ) : Written (mppWriterInit size) [] :=
  ⟨⟨[], [], ⟨rfl, rfl, rfl, rfl⟩, ⟨Nat.zero_le _, rfl⟩, rfl, rfl⟩, Nat.zero_lt_succ 7⟩

/-! ## The word -/

variable {byteBuffer : UInt32} {len : ℕ}

/-- A value comes into the word behind the bits there; what of it is longer than the
    field runs into them. -/
theorem WordHolds.or_val {pending : List Bool} (h : WordHolds byteBuffer pending) (val : UInt32)
    (hlen : 0 < len) (hfit : len + pending.length ≤ 32) :
    WordHolds (byteBuffer ||| (val <<< UInt32.ofNat (32 - (len + pending.length))))
      (toBits (len + pending.length) (ofBits pending * 2 ^ len ||| val.toNat)) := by
  obtain ⟨-, h⟩ := h
  refine ⟨by rwa [length_toBits], ?_⟩
  set k := 32 - (len + pending.length) with hk
  have hk32 : k < 32 := by omega
  have hshift : (UInt32.ofNat k).toNat % 32 = k := by
    rw [UInt32.toNat_ofNat']
    omega
  have hword : 2 ^ (32 - pending.length) = 2 ^ len * 2 ^ k := by
    rw [← pow_add]
    congr 1
    omega
  have hall : 2 ^ 32 = 2 ^ (len + pending.length) * 2 ^ k := by
    rw [← pow_add]
    congr 1
    omega
  have hor : byteBuffer.toNat ||| val.toNat * 2 ^ k =
      (ofBits pending * 2 ^ len ||| val.toNat) * 2 ^ k := by
    rw [h, hword, ← mul_assoc, ← Nat.shiftLeft_eq _ k, ← Nat.shiftLeft_eq _ k,
      ← Nat.shiftLeft_eq _ k, Nat.shiftLeft_or_distrib]
  have hbuf : byteBuffer.toNat % 2 ^ 32 = byteBuffer.toNat := Nat.mod_eq_of_lt byteBuffer.toNat_lt
  rw [UInt32.toNat_or, UInt32.toNat_shiftLeft, hshift, Nat.shiftLeft_eq, ← hbuf,
    ← Nat.or_mod_two_pow, hor, hall, Nat.mul_mod_mul_right, ofBits_toBits_mod, length_toBits]

/-- The first byte of the word. -/
theorem WordHolds.head {hd tl : List Bool} (hhd : hd.length = 8)
    (h : WordHolds byteBuffer (hd ++ tl)) :
    toBits 8 (byteBuffer >>> 24).toUInt8.toNat = hd ∧ WordHolds (byteBuffer <<< 8) tl := by
  obtain ⟨hlen, h⟩ := h
  rw [length_append, hhd] at hlen h
  have htl := ofBits_lt tl
  have hhd' := ofBits_lt hd
  rw [hhd] at hhd'
  have hpow : (2 : ℕ) ^ tl.length * 2 ^ (32 - (8 + tl.length)) = 2 ^ 24 := by
    rw [← pow_add]
    congr 1
    omega
  have hpow' : (2 : ℕ) ^ (32 - (8 + tl.length)) * 2 ^ 8 = 2 ^ (32 - tl.length) := by
    rw [← pow_add]
    congr 1
    omega
  have hrest : ofBits tl * 2 ^ (32 - (8 + tl.length)) < 2 ^ 24 := by
    rw [← hpow]
    exact Nat.mul_lt_mul_of_pos_right htl (Nat.two_pow_pos _)
  have hword : byteBuffer.toNat = ofBits hd * 2 ^ 24 + ofBits tl * 2 ^ (32 - (8 + tl.length)) := by
    rw [h, ofBits_append, ← hpow]
    ring
  refine ⟨?_, by omega, ?_⟩
  · have hval : (byteBuffer >>> 24).toUInt8.toNat = ofBits hd := by
      have h24 : (24 : UInt32).toNat % 32 = 24 := rfl
      rw [UInt32.toNat_toUInt8, UInt32.toNat_shiftRight, h24, Nat.shiftRight_eq_div_pow, hword]
      omega
    exact toBits_eq_of_ofBits hhd hval.symm
  · have h8 : (8 : UInt32).toNat % 32 = 8 := rfl
    rw [UInt32.toNat_shiftLeft, h8, Nat.shiftLeft_eq, hword, ← hpow', ← mul_assoc]
    omega

/-! ## Writing -/

variable {ctx : MppWriteCtx}

theorem status_of_le (h : ctx.byteCnt ≤ ctx.size) : mppWriterStatus ctx = (ctx, true) :=
  if_neg (not_lt.2 h)

/-- A byte is written, escaped or not. -/
theorem Buffered.putByte {full : List UInt8} (h : Buffered ctx full) (b : UInt8) :
    Buffered (ctx.putByte b) (full ++ [b]) := by
  have hz : ctx.zeroBytes = zerosAfter 0 full := h.zeroBytes
  have happ : escapeMarked 0 (full ++ [b]) = escapeMarked 0 full ++
      if Escapes ctx.zeroBytes b then [(3, true), (b, false)] else [(b, false)] := by
    rw [escapeMarked_append, ← hz, escapeMarked, escapeMarked, append_nil]
  have hzeros : zerosAfter 0 (full ++ [b]) = writtenZeros ctx.zeroBytes b := by
    rw [zerosAfter_append, ← hz]
    rfl
  rw [MppWriteCtx.putByte]
  by_cases he : Escapes ctx.zeroBytes b
  · rw [if_pos he] at happ
    rw [if_pos (show ctx.zeroBytes = 2 ∧ b < 4 from he)]
    refine ⟨?_, ?_, ?_, ?_⟩
    · rw [happ, map_append, ← h.buffer]
      rfl
    · dsimp only
      rw [length_append, h.byteCnt]
      rfl
    · rw [hzeros, writtenZeros, if_pos he]
      rfl
    · rw [happ, insertedCnt_append, ← h.emulCnt]
      rfl
  · rw [if_neg he] at happ
    rw [if_neg (show ¬(ctx.zeroBytes = 2 ∧ b < 4) from he)]
    refine ⟨?_, ?_, ?_, ?_⟩
    · rw [happ, map_append, ← h.buffer]
      rfl
    · dsimp only
      rw [length_append, h.byteCnt]
      rfl
    · rw [hzeros, writtenZeros, if_neg he]
      rfl
    · rw [happ, insertedCnt_append, ← h.emulCnt]
      rfl

@[simp] theorem putByte_size (ctx : MppWriteCtx) (b : UInt8) : (ctx.putByte b).size = ctx.size := by
  rw [MppWriteCtx.putByte]
  split
  · rfl
  · rfl

theorem putByte_byteCnt_le (ctx : MppWriteCtx) (b : UInt8) :
    ctx.byteCnt ≤ (ctx.putByte b).byteCnt := by
  rw [MppWriteCtx.putByte]
  split
  · exact Nat.le_add_right _ _
  · exact Nat.le_add_right _ _

/-- The memory is never left. -/
theorem putBytes_size (n : ℕ) (ctx : MppWriteCtx) (byteBuffer : UInt32) :
    (putBytes n ctx byteBuffer).1.size = ctx.size ∧
      ctx.byteCnt ≤ (putBytes n ctx byteBuffer).1.byteCnt := by
  induction n generalizing ctx byteBuffer with
  | zero => exact ⟨rfl, le_rfl⟩
  | succ n ih =>
    rw [putBytes]
    by_cases h : ctx.byteCnt ≤ ctx.size
    · rw [status_of_le h]
      obtain ⟨hs, hc⟩ := ih (ctx.putByte (byteBuffer >>> 24).toUInt8) (byteBuffer <<< 8)
      exact ⟨hs.trans (putByte_size _ _), (putByte_byteCnt_le _ _).trans hc⟩
    · have hfull : mppWriterStatus ctx = ({ ctx with overflow := true }, false) :=
        if_pos (not_le.1 h)
      rw [hfull]
      exact ⟨rfl, le_rfl⟩

variable {n : ℕ}

/-- The full bytes of the word are written, unless the memory ends. -/
theorem putBytes_spec {full : List UInt8} {pending : List Bool} (h : Buffered ctx full)
    (hw : WordHolds byteBuffer pending) (hn : 8 * n ≤ pending.length)
    (hroom : (putBytes n ctx byteBuffer).1.byteCnt ≤ ctx.size) :
    ∃ ctx' byteBuffer' bytes, putBytes n ctx byteBuffer = (ctx', some byteBuffer') ∧
      Buffered ctx' (full ++ bytes) ∧ bytesToBits bytes = pending.take (8 * n) ∧
      WordHolds byteBuffer' (pending.drop (8 * n)) := by
  induction n generalizing ctx full byteBuffer pending with
  | zero => exact ⟨ctx, byteBuffer, [], rfl, by rwa [append_nil], rfl, hw⟩
  | succ n ih =>
    have hle : ctx.byteCnt ≤ ctx.size := (putBytes_size (n + 1) ctx byteBuffer).2.trans hroom
    rw [putBytes, status_of_le hle] at hroom ⊢
    have hlen : (pending.take 8).length = 8 := by
      rw [length_take]
      omega
    have hsplit : pending = pending.take 8 ++ pending.drop 8 := (take_append_drop 8 _).symm
    rw [hsplit] at hw
    obtain ⟨hbyte, hrest⟩ := hw.head hlen
    have hsize := putByte_size ctx (byteBuffer >>> 24).toUInt8
    rw [← hsize] at hroom
    obtain ⟨ctx', bb', bytes, heq, hbuf, hbits, hword⟩ := ih
      (h.putByte (byteBuffer >>> 24).toUInt8) hrest (by rw [length_drop]; omega) hroom
    refine ⟨ctx', bb', (byteBuffer >>> 24).toUInt8 :: bytes, heq, ?_, ?_, ?_⟩
    · rwa [append_assoc] at hbuf
    · rw [bytesToBits_cons, hbyte, hbits, ← take_add, mul_add, add_comm]
    · rw [drop_drop] at hword
      rwa [mul_add, add_comm]

theorem putBits_size (ctx : MppWriteCtx) (val : UInt32) (len : ℕ) :
    (mppWriterPutBits ctx val len).size = ctx.size ∧
      ctx.byteCnt ≤ (mppWriterPutBits ctx val len).byteCnt := by
  have h := putBytes_size ((len + ctx.bufferedBits) / 8) ctx
    (ctx.byteBuffer ||| (val <<< UInt32.ofNat (32 - (len + ctx.bufferedBits))))
  rw [mppWriterPutBits]
  split
  · rename_i heq
    rw [heq] at h
    exact h
  · rename_i heq
    rw [heq] at h
    exact h

variable {bits : List Bool}

/-- Writing a value adds the bits of a field; what of it is longer than the field runs
    into the bits not yet in the buffer. -/
theorem Written.putBits_val (h : Written ctx bits) (val : UInt32) (hlen : 0 < len)
    (hlen' : len ≤ 24) (hroom : (mppWriterPutBits ctx val len).byteCnt ≤ ctx.size) :
    ∃ head pending, bits = head ++ pending ∧ pending.length = bits.length % 8 ∧
      Written (mppWriterPutBits ctx val len)
        (head ++ toBits (len + pending.length) (ofBits pending * 2 ^ len ||| val.toNat)) := by
  obtain ⟨⟨full, pending, hbuf, hword, hpend, rfl⟩, hlt⟩ := h
  have hmod : pending.length = (bytesToBits full ++ pending).length % 8 := by
    rw [length_append, length_bytesToBits]
    omega
  have hword' := hword.or_val val hlen (by omega)
  refine ⟨bytesToBits full, pending, rfl, hmod, ?_⟩
  rw [hpend] at hword' ⊢
  have hall : (toBits (len + ctx.bufferedBits) (ofBits pending * 2 ^ len ||| val.toNat)).length =
      len + ctx.bufferedBits := length_toBits _ _
  have hroom' : (putBytes ((len + ctx.bufferedBits) / 8) ctx
      (ctx.byteBuffer ||| (val <<< UInt32.ofNat (32 - (len + ctx.bufferedBits))))).1.byteCnt ≤
        ctx.size := by
    rw [mppWriterPutBits] at hroom
    split at hroom
    · rename_i heq
      rwa [heq]
    · rename_i heq
      rwa [heq]
  obtain ⟨ctx', bb', bytes, heq, hbuf', hbits, hrest⟩ := putBytes_spec hbuf hword'
    (n := (len + ctx.bufferedBits) / 8) (by omega) hroom'
  rw [mppWriterPutBits, heq]
  refine ⟨⟨full ++ bytes, _, ⟨hbuf'.buffer, hbuf'.byteCnt, hbuf'.zeroBytes, hbuf'.emulCnt⟩, hrest,
    ?_, ?_⟩, Nat.mod_lt _ (by norm_num)⟩
  · rw [length_drop, hall]
    dsimp only
    omega
  · rw [bytesToBits_append, hbits, append_assoc, take_append_drop]

/-- Writing a field adds its bits. -/
theorem Written.putBits (h : Written ctx bits) (val : UInt32) (hlen : 0 < len) (hlen' : len ≤ 24)
    (hval : val.toNat < 2 ^ len) (hroom : (mppWriterPutBits ctx val len).byteCnt ≤ ctx.size) :
    Written (mppWriterPutBits ctx val len) (bits ++ toBits len val.toNat) := by
  obtain ⟨head, pending, rfl, -, hput⟩ := h.putBits_val val hlen hlen' hroom
  rwa [or_eq_add hval, toBits_append_of_lt pending hval, ← append_assoc] at hput

theorem trailing_size (ctx : MppWriteCtx) :
    (mppWriterTrailing ctx).size = ctx.size ∧ ctx.byteCnt ≤ (mppWriterTrailing ctx).byteCnt := by
  obtain ⟨hsize, hcnt⟩ := putBits_size ctx 1 1
  rw [mppWriterTrailing]
  split_ifs
  · obtain ⟨hsize', hcnt'⟩ := putBits_size (mppWriterPutBits ctx 1 1) 0
      (8 - (mppWriterPutBits ctx 1 1).bufferedBits)
    exact ⟨hsize'.trans hsize, hcnt.trans hcnt'⟩
  · exact ⟨hsize, hcnt⟩

/-- Writing the stop bit adds it, and zeros up to the next byte. -/
theorem Written.trailing (h : Written ctx bits)
    (hroom : (mppWriterTrailing ctx).byteCnt ≤ ctx.size) :
    ∃ n < 8, Written (mppWriterTrailing ctx) (bits ++ true :: List.replicate n false) ∧
      (mppWriterTrailing ctx).bufferedBits = 0 := by
  have hstop : toBits 1 (1 : UInt32).toNat = [true] := rfl
  rw [mppWriterTrailing] at hroom ⊢
  have hsize := putBits_size ctx 1 1
  split_ifs at hroom ⊢ with hb
  · have hsize' := putBits_size (mppWriterPutBits ctx 1 1) 0
      (8 - (mppWriterPutBits ctx 1 1).bufferedBits)
    have h₁ := h.putBits 1 Nat.one_pos (by norm_num) (by decide)
      (hsize'.2.trans hroom)
    have hlt := h₁.bufferedBits
    rw [hstop] at h₁
    set n := 8 - (mppWriterPutBits ctx 1 1).bufferedBits with hn
    have h₂ := h₁.putBits 0 (by omega : 0 < n) (by omega) (Nat.two_pow_pos n)
      (by rw [hsize.1]; exact hroom)
    have hzero : toBits n (0 : UInt32).toNat = List.replicate n false := toBits_zero n
    rw [hzero, append_assoc, singleton_append] at h₂
    refine ⟨n, by omega, h₂, ?_⟩
    -- the bits written fill the bytes
    have hbits : (n + (mppWriterPutBits ctx 1 1).bufferedBits) % 8 = 0 := by omega
    obtain ⟨⟨full, pending, hbuf, hword, hpend, heq⟩, hlt'⟩ := h₂
    obtain ⟨⟨full₁, pending₁, hbuf₁, hword₁, hpend₁, heq₁⟩, -⟩ := h₁
    have hlen := congrArg List.length heq
    rw [append_cons, heq₁, length_append, length_append, length_append,
      length_bytesToBits, length_bytesToBits, hpend, hpend₁, length_replicate] at hlen
    omega
  · have h₁ := h.putBits 1 Nat.one_pos (by norm_num) (by decide) hroom
    rw [hstop] at h₁
    exact ⟨0, by norm_num, h₁, not_not.1 hb⟩

/-- With the stop bit the bytes are full, and all of them in the buffer. -/
theorem Written.ended (h : Written ctx bits) (hroom : (mppWriterTrailing ctx).byteCnt ≤ ctx.size) :
    ∃ n < 8, ∃ full, Buffered (mppWriterTrailing ctx) full ∧
      bytesToBits full = bits ++ true :: List.replicate n false := by
  obtain ⟨n, hn, htrail, hzero⟩ := h.trailing hroom
  obtain ⟨full, pending, hbuf, -, hpend, heq⟩ := htrail.exists_full
  rw [hzero, length_eq_zero_iff] at hpend
  rw [hpend, append_nil] at heq
  exact ⟨n, hn, full, hbuf, heq.symm⟩

/-- The bits written are counted, with those of the inserted bytes. -/
theorem Written.writerBits (h : Written ctx bits) :
    mppWriterBits ctx = bits.length + 8 * ctx.emulCnt := by
  obtain ⟨⟨full, pending, hbuf, -, hpend, rfl⟩, -⟩ := h
  rw [mppWriterBits, hbuf.byteCnt, hbuf.buffer, hbuf.emulCnt, length_map, length_escapeMarked,
    length_append, length_bytesToBits, hpend]
  ring

/-! ## The room that is taken -/

/-- A writer between two fields, that has written at most `n` bytes. -/
def AtMost (ctx : MppWriteCtx) (n : ℕ) : Prop := ctx.bufferedBits < 8 ∧ ctx.byteCnt ≤ n

theorem putBytes_byteCnt_le (n : ℕ) (ctx : MppWriteCtx) (byteBuffer : UInt32) :
    (putBytes n ctx byteBuffer).1.bufferedBits = ctx.bufferedBits ∧
      (putBytes n ctx byteBuffer).1.byteCnt ≤ ctx.byteCnt + 2 * n := by
  induction n generalizing ctx byteBuffer with
  | zero => exact ⟨rfl, le_rfl⟩
  | succ n ih =>
    rw [putBytes]
    by_cases h : ctx.byteCnt ≤ ctx.size
    · rw [status_of_le h]
      obtain ⟨hbuf, hcnt⟩ := ih (ctx.putByte (byteBuffer >>> 24).toUInt8) (byteBuffer <<< 8)
      have hbyte : (ctx.putByte (byteBuffer >>> 24).toUInt8).bufferedBits = ctx.bufferedBits ∧
          (ctx.putByte (byteBuffer >>> 24).toUInt8).byteCnt ≤ ctx.byteCnt + 2 := by
        rw [MppWriteCtx.putByte]
        split
        · exact ⟨rfl, le_rfl⟩
        · exact ⟨rfl, Nat.le_succ (ctx.byteCnt + 1)⟩
      refine ⟨hbuf.trans hbyte.1, hcnt.trans ?_⟩
      omega
    · have hfull : mppWriterStatus ctx = ({ ctx with overflow := true }, false) :=
        if_pos (not_le.1 h)
      rw [hfull]
      exact ⟨rfl, Nat.le_add_right _ _⟩

/-- A field takes at most six bytes, three of them inserted. -/
theorem AtMost.putBits (h : AtMost ctx n) (val : UInt32) (hlen : len ≤ 24) :
    AtMost (mppWriterPutBits ctx val len) (n + 6) := by
  obtain ⟨hbuf, hcnt⟩ := h
  have hbytes := putBytes_byteCnt_le ((len + ctx.bufferedBits) / 8) ctx
    (ctx.byteBuffer ||| (val <<< UInt32.ofNat (32 - (len + ctx.bufferedBits))))
  have hle : 2 * ((len + ctx.bufferedBits) / 8) ≤ 6 := by omega
  rw [mppWriterPutBits]
  split
  · rename_i heq
    rw [heq] at hbytes
    refine ⟨Nat.mod_lt _ (by norm_num), ?_⟩
    dsimp only at hbytes ⊢
    omega
  · rename_i heq
    rw [heq] at hbytes
    dsimp only at hbytes
    exact ⟨by omega, by omega⟩

theorem AtMost.trailing (h : AtMost ctx n) : AtMost (mppWriterTrailing ctx) (n + 12) := by
  have h₁ := h.putBits 1 (Nat.le_add_left 1 23)
  rw [mppWriterTrailing]
  split_ifs
  · exact h₁.putBits 0 (by omega)
  · exact ⟨h₁.1, h₁.2.trans (Nat.le_add_right _ 6)⟩

end Libmpp.Bitstream
