import Libmpp.Bitstream.ExpGolomb

/-!
# Where the writer stores

The stores of the bit writer, and the other functions that store: `mppWriterPutRawBits`
goes over up to three bytes after one look at the room, and `mppWriterFlush` stores a byte
that is not counted.

The writer looks whether it is *behind* the end of its memory (`mppWriterStatus`). At the
end it is not yet, and goes on: the byte stored then is outside. A run of calls stays
inside exactly when the bytes of every write, the inserted ones among them, fit into what
is left (`storesInside_iff`).
-/

namespace Libmpp.Bitstream

open List

/-- The first `n` bytes of the word. -/
def wordBytes : ℕ → UInt32 → List UInt8
  | 0, _ => []
  | n + 1, byteBuffer => (byteBuffer >>> 24).toUInt8 :: wordBytes n (byteBuffer <<< 8)

@[simp] theorem length_wordBytes (n : ℕ) (byteBuffer : UInt32) :
    (wordBytes n byteBuffer).length = n := by
  induction n generalizing byteBuffer with
  | zero => rfl
  | succ n ih => exact congrArg (· + 1) (ih _)

/-! ## The functions that store -/

/-- The word once the `len` bits of `val` are in it. -/
def MppWriteCtx.word (ctx : MppWriteCtx) (val : UInt32) (len : ℕ) : UInt32 :=
  ctx.byteBuffer ||| (val <<< UInt32.ofNat (32 - (len + ctx.bufferedBits)))

/-- Write the first `n` bytes of the word as they are, without a look at the room. -/
def putRawBytes : ℕ → MppWriteCtx → UInt32 → MppWriteCtx × UInt32
  | 0, ctx, byteBuffer => (ctx, byteBuffer)
  | n + 1, ctx, byteBuffer =>
    putRawBytes n { ctx with
      buffer := ctx.buffer ++ [(byteBuffer >>> 24).toUInt8]
      byteCnt := ctx.byteCnt + 1 } (byteBuffer <<< 8)

/-- Write the `len` bits of `val`, without emulation prevention. -/
def mppWriterPutRawBits (ctx : MppWriteCtx) (val : UInt32) (len : ℕ) : MppWriteCtx :=
  match mppWriterStatus ctx with
  | (ctx, false) => ctx
  | (ctx, true) =>
    let bits := len + ctx.bufferedBits
    let (ctx, byteBuffer) := putRawBytes (bits / 8) ctx (ctx.word val len)
    { ctx with bufferedBits := bits % 8, byteBuffer }

/-- Store the bits that are still in the word. The writer itself stays where it is. -/
def mppWriterFlush (ctx : MppWriteCtx) : MppWriteCtx := (mppWriterStatus ctx).1

def mppWriterAlignZero (ctx : MppWriteCtx) : MppWriteCtx :=
  if ctx.bufferedBits ≠ 0 then mppWriterPutRawBits ctx 0 (8 - ctx.bufferedBits) else ctx

def mppWriterAlignOne (ctx : MppWriteCtx) : MppWriteCtx :=
  let len := 8 - ctx.bufferedBits
  if ctx.bufferedBits ≠ 0 then mppWriterPutRawBits ctx ((1 <<< UInt32.ofNat len) - 1) len else ctx

/-! ## The calls -/

inductive Call
  | putBits (val : UInt32) (len : ℕ)
  | putRawBits (val : UInt32) (len : ℕ)
  | putUe (val : UInt32)
  | putSe (val : ℤ)
  | trailing
  | alignZero
  | alignOne
  | flush
  deriving DecidableEq, Repr

/-- What a call makes of the writer. -/
def Call.exec (ctx : MppWriteCtx) : Call → Option MppWriteCtx
  | putBits val len => mppWriterPutBits ctx val len
  | putRawBits val len => mppWriterPutRawBits ctx val len
  | putUe val => mppWriterPutUe ctx val
  | putSe val => mppWriterPutSe ctx val
  | trailing => mppWriterTrailing ctx
  | alignZero => mppWriterAlignZero ctx
  | alignOne => mppWriterAlignOne ctx
  | flush => mppWriterFlush ctx

/-- A single write: the calls consist of these. -/
inductive Put
  | bits (val : UInt32) (len : ℕ)
  | rawBits (val : UInt32) (len : ℕ)
  | flush
  deriving DecidableEq, Repr

def Put.exec (ctx : MppWriteCtx) : Put → MppWriteCtx
  | bits val len => mppWriterPutBits ctx val len
  | rawBits val len => mppWriterPutRawBits ctx val len
  | flush => mppWriterFlush ctx

/-- The single writes of a number. -/
def uePuts (val : UInt32) : Option (List Put) := do
  let val := val + 1
  let numBits ← numBits val
  if numBits > 12 then
    let tmp := numBits - 1
    let zeros := if tmp > 24 then [.bits 0 24, .bits 0 (tmp - 24)] else [.bits 0 tmp]
    if numBits > 24 then
      let first := val >>> .ofNat (numBits - 24)
      some (zeros ++ [.bits first 24, .bits first (numBits - 24)])
    else some (zeros ++ [.bits val numBits])
  else some [.bits val (2 * numBits - 1)]

/-- The unsigned number that codes `val`. -/
def seNum (val : ℤ) : Option UInt32 :=
  if val > 0 then do
    let tmp ← s32 (2 * val)
    let tmp ← s32 (tmp - 1)
    some (.ofNat tmp.toNat)
  else do
    let tmp ← s32 (-2 * val)
    some (.ofNat tmp.toNat)

/-- The single writes of a call. -/
def Call.puts (ctx : MppWriteCtx) : Call → Option (List Put)
  | putBits val len => some [.bits val len]
  | putRawBits val len => some [.rawBits val len]
  | putUe val => uePuts val
  | putSe val => do uePuts (← seNum val)
  | trailing =>
    let n := (mppWriterPutBits ctx 1 1).bufferedBits
    some (if n ≠ 0 then [.bits 1 1, .bits 0 (8 - n)] else [.bits 1 1])
  | alignZero =>
    some (if ctx.bufferedBits ≠ 0 then [.rawBits 0 (8 - ctx.bufferedBits)] else [])
  | alignOne =>
    let len := 8 - ctx.bufferedBits
    some (if ctx.bufferedBits ≠ 0 then [.rawBits ((1 <<< UInt32.ofNat len) - 1) len] else [])
  | flush => some [.flush]

theorem putUe_eq_puts (ctx : MppWriteCtx) (val : UInt32) :
    mppWriterPutUe ctx val = (uePuts val).map (List.foldl Put.exec ctx) := by
  rw [mppWriterPutUe, uePuts]
  cases numBits (val + 1) with
  | none => rfl
  | some n =>
    simp only [Option.bind_eq_bind, Option.bind_some]
    split_ifs <;> rfl

/-- A call is its single writes, one after the other. -/
theorem Call.exec_eq (ctx : MppWriteCtx) (c : Call) :
    c.exec ctx = (c.puts ctx).map (List.foldl Put.exec ctx) := by
  cases c with
  | putBits val len => rfl
  | putRawBits val len => rfl
  | putUe val => exact putUe_eq_puts ctx val
  | putSe val =>
    have hnum : mppWriterPutSe ctx val = (seNum val).bind (mppWriterPutUe ctx) := by
      rw [mppWriterPutSe, seNum]
      split_ifs
      · simp only [Option.bind_eq_bind, Option.bind_assoc, Option.bind_some]
      · simp only [Option.bind_eq_bind, Option.bind_assoc, Option.bind_some]
    rw [exec, puts, hnum]
    cases seNum val with
    | none => rfl
    | some num => exact putUe_eq_puts ctx num
  | trailing =>
    rw [exec, puts, mppWriterTrailing]
    split_ifs <;> rfl
  | alignZero =>
    rw [exec, puts, mppWriterAlignZero]
    split_ifs <;> rfl
  | alignOne =>
    rw [exec, puts, mppWriterAlignOne]
    split_ifs <;> rfl
  | flush => rfl

/-- The single writes of a run of calls, each with the writer it finds. -/
def runCalls (ctx : MppWriteCtx) : List Call → Option (List (MppWriteCtx × Put))
  | [] => some []
  | c :: calls => do
    let puts ← c.puts ctx
    let rest ← runCalls (puts.foldl Put.exec ctx) calls
    some (writes ctx puts ++ rest)
where
  /-- The writes `puts`, each with the writer it finds. -/
  writes (ctx : MppWriteCtx) : List Put → List (MppWriteCtx × Put)
    | [] => []
    | p :: puts => (ctx, p) :: writes (p.exec ctx) puts

/-! ## The stores -/

/-- The offsets of the stores of `putBytes`; an inserted byte overwrites the one stored
    just before it. -/
def putBytesStores : ℕ → MppWriteCtx → UInt32 → List ℕ
  | 0, _, _ => []
  | n + 1, ctx, byteBuffer =>
    match mppWriterStatus ctx with
    | (_, false) => []
    | (ctx, true) =>
      let b := (byteBuffer >>> 24).toUInt8
      let stream := ctx.buffer.length
      (if ctx.zeroBytes = 2 ∧ b < 4 then [stream, stream, stream + 1] else [stream]) ++
        putBytesStores n (ctx.putByte b) (byteBuffer <<< 8)

/-- The offsets in the memory at which a write stores. -/
def Put.stores (ctx : MppWriteCtx) : Put → List ℕ
  | bits val len => putBytesStores ((len + ctx.bufferedBits) / 8) ctx (ctx.word val len)
  | rawBits _ len =>
    if (mppWriterStatus ctx).2 then
      (List.range ((len + ctx.bufferedBits) / 8)).map (ctx.buffer.length + ·)
    else []
  | flush =>
    if (mppWriterStatus ctx).2 then
      if ctx.bufferedBits ≠ 0 then [ctx.buffer.length] else []
    else []

/-- The bytes of a write, were there room for all of them. -/
def Put.bytes (ctx : MppWriteCtx) : Put → List UInt8
  | bits val len =>
    (escapeMarked ctx.zeroBytes
      (wordBytes ((len + ctx.bufferedBits) / 8) (ctx.word val len))).map Prod.fst
  | rawBits val len => wordBytes ((len + ctx.bufferedBits) / 8) (ctx.word val len)
  | flush => if ctx.bufferedBits ≠ 0 then [(ctx.byteBuffer >>> 24).toUInt8] else []

/-- The bytes of the write fit into what is left of the memory. -/
def Put.Fits (ctx : MppWriteCtx) (p : Put) : Prop :=
  ctx.byteCnt + (p.bytes ctx).length ≤ ctx.size

/-- The write stores inside the memory, and raises the flag when a byte does not fit. -/
def Put.StoresInside (ctx : MppWriteCtx) (p : Put) : Prop :=
  (∀ o ∈ p.stores ctx, o < ctx.size) ∧ (¬p.Fits ctx → (p.exec ctx).overflow)

instance (ctx : MppWriteCtx) (p : Put) : Decidable (p.Fits ctx) :=
  inferInstanceAs (Decidable (_ ≤ _))

instance (ctx : MppWriteCtx) (p : Put) : Decidable (p.StoresInside ctx) :=
  inferInstanceAs (Decidable (_ ∧ _))

/-! ## A write in its room -/

/-- The bytes counted are those before `stream`, and inside the memory. -/
structure InMemory (ctx : MppWriteCtx) : Prop where
  stream : ctx.byteCnt = ctx.buffer.length
  inside : ctx.byteCnt ≤ ctx.size

variable {ctx : MppWriteCtx}

theorem length_putByte (ctx : MppWriteCtx) (b : UInt8) : (ctx.putByte b).buffer.length =
    ctx.buffer.length + if ctx.zeroBytes = 2 ∧ b < 4 then 2 else 1 := by
  rw [MppWriteCtx.putByte]
  split
  · exact length_append
  · exact length_append

theorem byteCnt_putByte (ctx : MppWriteCtx) (b : UInt8) : (ctx.putByte b).byteCnt = ctx.byteCnt +
    if ctx.zeroBytes = 2 ∧ b < 4 then 2 else 1 := by
  rw [MppWriteCtx.putByte]
  split
  · rfl
  · rfl

theorem zeroBytes_putByte (b : UInt8) :
    (ctx.putByte b).zeroBytes = writtenZeros ctx.zeroBytes b := by
  rw [MppWriteCtx.putByte, writtenZeros]
  by_cases he : Escapes ctx.zeroBytes b
  · rw [if_pos (show ctx.zeroBytes = 2 ∧ b < 4 from he), if_pos he]
    rfl
  · rw [if_neg (show ¬(ctx.zeroBytes = 2 ∧ b < 4) from he), if_neg he]
    rfl

/-- The bytes of a write, that of its first one and the rest. -/
theorem length_escape_cons (z : ℕ) (b : UInt8) (l : List UInt8) :
    (escapeMarked z (b :: l)).length =
      (if z = 2 ∧ b < 4 then 2 else 1) + (escapeMarked (writtenZeros z b) l).length := by
  rw [escapeMarked, length_append]
  congr 1
  by_cases he : Escapes z b
  · rw [if_pos he, if_pos (show z = 2 ∧ b < 4 from he)]
    rfl
  · rw [if_neg he, if_neg (show ¬(z = 2 ∧ b < 4) from he)]
    rfl

/-- Escaped bytes that fit are stored inside. -/
theorem putBytes_inside {n : ℕ} {byteBuffer : UInt32} (h : ctx.byteCnt = ctx.buffer.length)
    (hfit : ctx.byteCnt + (escapeMarked ctx.zeroBytes (wordBytes n byteBuffer)).length ≤
      ctx.size) :
    (∀ o ∈ putBytesStores n ctx byteBuffer, o < ctx.size) ∧
      InMemory (putBytes n ctx byteBuffer).1 ∧
      (putBytes n ctx byteBuffer).1.size = ctx.size := by
  induction n generalizing ctx byteBuffer with
  | zero => exact ⟨fun o ho => absurd ho not_mem_nil, ⟨h, hfit⟩, rfl⟩
  | succ n ih =>
    rw [wordBytes, length_escape_cons, ← zeroBytes_putByte] at hfit
    rw [putBytesStores, putBytes, status_of_le (Nat.le_of_add_right_le hfit)]
    set b := (byteBuffer >>> 24).toUInt8
    have hlen := length_putByte ctx b
    have hcnt := byteCnt_putByte ctx b
    have hstream : (ctx.putByte b).byteCnt = (ctx.putByte b).buffer.length := by omega
    have hfit' : (ctx.putByte b).byteCnt + (escapeMarked (ctx.putByte b).zeroBytes
        (wordBytes n (byteBuffer <<< 8))).length ≤ (ctx.putByte b).size := by
      rw [putByte_size, hcnt]
      omega
    have hrest := ih hstream hfit'
    rw [putByte_size] at hrest
    refine ⟨fun o ho => ?_, hrest.2⟩
    rcases mem_append.1 ho with ho | ho
    · -- the byte, and the one inserted before it
      split_ifs at ho hfit
      · simp only [mem_cons, not_mem_nil, or_false] at ho
        omega
      · rw [mem_singleton] at ho
        omega
    · exact hrest.1 o ho

/-- Of escaped bytes that do not fit, one is stored outside. -/
theorem putBytes_outside {n : ℕ} {byteBuffer : UInt32} (h : InMemory ctx)
    (hfit : ctx.size <
      ctx.byteCnt + (escapeMarked ctx.zeroBytes (wordBytes n byteBuffer)).length) :
    ∃ o ∈ putBytesStores n ctx byteBuffer, ctx.size ≤ o := by
  induction n generalizing ctx byteBuffer with
  | zero => exact absurd h.inside (not_le.2 hfit)
  | succ n ih =>
    rw [wordBytes, length_escape_cons, ← zeroBytes_putByte] at hfit
    rw [putBytesStores, status_of_le h.inside]
    set b := (byteBuffer >>> 24).toUInt8
    have hlen := length_putByte ctx b
    have hcnt := byteCnt_putByte ctx b
    have hstream := h.stream
    by_cases hroom : (ctx.putByte b).byteCnt ≤ ctx.size
    · -- there is room for this byte: it is one of the others
      have hin : InMemory (ctx.putByte b) := ⟨by omega, by rwa [putByte_size]⟩
      have hfit' : (ctx.putByte b).size < (ctx.putByte b).byteCnt + (escapeMarked
          (ctx.putByte b).zeroBytes (wordBytes n (byteBuffer <<< 8))).length := by
        rw [putByte_size, hcnt]
        omega
      obtain ⟨o, ho, hle⟩ := ih hin hfit'
      rw [putByte_size] at hle
      exact ⟨o, mem_append_right _ ho, hle⟩
    · -- this byte, or the second one when it is escaped
      refine ⟨(ctx.putByte b).buffer.length - 1, mem_append_left _ ?_, by omega⟩
      rw [hlen]
      split_ifs
      · exact mem_cons_of_mem _ (mem_cons_of_mem _ (mem_singleton.2 rfl))
      · exact mem_singleton.2 rfl

theorem putRawBytes_spec (n : ℕ) (ctx : MppWriteCtx) (byteBuffer : UInt32) :
    (putRawBytes n ctx byteBuffer).1.byteCnt = ctx.byteCnt + n ∧
      (putRawBytes n ctx byteBuffer).1.buffer.length = ctx.buffer.length + n ∧
      (putRawBytes n ctx byteBuffer).1.size = ctx.size := by
  induction n generalizing ctx byteBuffer with
  | zero => exact ⟨rfl, rfl, rfl⟩
  | succ n ih =>
    obtain ⟨hcnt, hlen, hsize⟩ := ih { ctx with
      buffer := ctx.buffer ++ [(byteBuffer >>> 24).toUInt8]
      byteCnt := ctx.byteCnt + 1 } (byteBuffer <<< 8)
    rw [length_append, length_singleton, add_right_comm] at hlen
    rw [add_right_comm] at hcnt
    exact ⟨hcnt, hlen, hsize⟩

/-- What `mppWriterPutBits` counts is what `putBytes` does. -/
theorem putBits_eq_putBytes (ctx : MppWriteCtx) (val : UInt32) (len : ℕ) :
    ∃ byteBuffer bufferedBits, mppWriterPutBits ctx val len =
      { (putBytes ((len + ctx.bufferedBits) / 8) ctx (ctx.word val len)).1 with
        byteBuffer, bufferedBits } := by
  rw [mppWriterPutBits, MppWriteCtx.word]
  split
  · rename_i ctx' byteBuffer heq
    rw [heq]
    exact ⟨byteBuffer, _, rfl⟩
  · rename_i ctx' heq
    rw [heq]
    exact ⟨ctx'.byteBuffer, ctx'.bufferedBits, rfl⟩

/-- A write that fits stays inside. -/
theorem Put.stores_of_fits {p : Put} (h : InMemory ctx) (hfit : p.Fits ctx) :
    (∀ o ∈ p.stores ctx, o < ctx.size) ∧ InMemory (p.exec ctx) ∧
      (p.exec ctx).size = ctx.size := by
  have hstream := h.stream
  cases p with
  | bits val len =>
    rw [Put.Fits, bytes, length_map] at hfit
    obtain ⟨hstores, hmem, hsize⟩ := putBytes_inside hstream hfit
    obtain ⟨byteBuffer, bufferedBits, heq⟩ := putBits_eq_putBytes ctx val len
    rw [exec, heq]
    exact ⟨hstores, ⟨hmem.stream, hmem.inside⟩, hsize⟩
  | rawBits val len =>
    rw [Put.Fits, bytes, length_wordBytes] at hfit
    obtain ⟨hcnt, hlen, hsize⟩ :=
      putRawBytes_spec ((len + ctx.bufferedBits) / 8) ctx (ctx.word val len)
    rw [stores, exec, mppWriterPutRawBits, status_of_le h.inside, if_pos rfl]
    refine ⟨fun o ho => ?_, ⟨?_, ?_⟩, hsize⟩
    · obtain ⟨i, hi, rfl⟩ := mem_map.1 ho
      have := mem_range.1 hi
      omega
    · exact hcnt.trans (hlen ▸ hstream ▸ rfl)
    · exact hcnt.trans_le (hsize ▸ hfit)
  | flush =>
    rw [Put.Fits, bytes] at hfit
    rw [stores, exec, mppWriterFlush, status_of_le h.inside, if_pos rfl]
    refine ⟨fun o ho => ?_, h, rfl⟩
    split_ifs at ho hfit
    · rw [mem_singleton] at ho
      rw [length_singleton] at hfit
      omega
    · exact absurd ho not_mem_nil

/-- A write that does not fit stores outside. -/
theorem Put.stores_of_not_fits {p : Put} (h : InMemory ctx) (hfit : ¬p.Fits ctx) :
    ∃ o ∈ p.stores ctx, ctx.size ≤ o := by
  have hstream := h.stream
  have hle := h.inside
  cases p with
  | bits val len =>
    rw [Put.Fits, bytes, length_map] at hfit
    exact putBytes_outside h (not_le.1 hfit)
  | rawBits val len =>
    rw [Put.Fits, bytes, length_wordBytes] at hfit
    rw [stores, status_of_le hle, if_pos rfl]
    have hmem : ctx.size - ctx.byteCnt ∈ List.range ((len + ctx.bufferedBits) / 8) :=
      mem_range.2 (by omega)
    exact ⟨_, mem_map_of_mem hmem, by omega⟩
  | flush =>
    rw [Put.Fits, bytes] at hfit
    rw [stores, status_of_le hle, if_pos rfl]
    split_ifs at hfit ⊢
    · rw [length_singleton] at hfit
      exact ⟨_, mem_singleton_self _, by omega⟩
    · exact absurd hle hfit

/-! ## Runs -/

/-- A write does what is asked of it exactly when it fits. -/
theorem Put.storesInside_iff_fits {p : Put} (h : InMemory ctx) : p.StoresInside ctx ↔ p.Fits ctx := by
  refine ⟨fun hp => ?_, fun hfit => ⟨(stores_of_fits h hfit).1, absurd hfit⟩⟩
  by_contra hfit
  obtain ⟨o, ho, hle⟩ := stores_of_not_fits h hfit
  exact absurd (hp.1 o ho) (not_lt.2 hle)

theorem mem_writes_append {w : MppWriteCtx × Put} (puts puts' : List Put) (ctx : MppWriteCtx) :
    w ∈ runCalls.writes ctx (puts ++ puts') ↔
      w ∈ runCalls.writes ctx puts ∨ w ∈ runCalls.writes (puts.foldl Put.exec ctx) puts' := by
  induction puts generalizing ctx with
  | nil => exact (or_iff_right not_mem_nil).symm
  | cons p puts ih =>
    rw [cons_append, runCalls.writes, runCalls.writes, mem_cons, mem_cons, ih,
      or_assoc]
    rfl

/-- The writes of a run are those of one list. -/
theorem runCalls_eq {calls : List Call} {run : List (MppWriteCtx × Put)}
    (h : runCalls ctx calls = some run) :
    ∃ puts, ∀ w, w ∈ run ↔ w ∈ runCalls.writes ctx puts := by
  induction calls generalizing ctx run with
  | nil =>
    obtain rfl := Option.some_inj.1 h
    exact ⟨[], fun w => Iff.rfl⟩
  | cons c calls ih =>
    rw [runCalls, Option.bind_eq_bind, Option.bind_eq_some_iff] at h
    obtain ⟨puts, -, h⟩ := h
    rw [Option.bind_eq_bind, Option.bind_eq_some_iff] at h
    obtain ⟨rest, hrest, h⟩ := h
    obtain rfl := Option.some_inj.1 h
    obtain ⟨puts', hputs'⟩ := ih hrest
    refine ⟨puts ++ puts', fun w => ?_⟩
    rw [mem_append, mem_writes_append, hputs']

/-- The writes of a list stay inside exactly when each of them fits. -/
theorem writes_inside_iff (puts : List Put) (h : InMemory ctx) :
    (∀ w ∈ runCalls.writes ctx puts, w.2.StoresInside w.1) ↔
      ∀ w ∈ runCalls.writes ctx puts, w.2.Fits w.1 := by
  induction puts generalizing ctx with
  | nil =>
    have hnil (P : MppWriteCtx × Put → Prop) : ∀ w ∈ runCalls.writes ctx [], P w :=
      fun w hw => absurd hw not_mem_nil
    exact iff_of_true (hnil _) (hnil _)
  | cons p puts ih =>
    rw [runCalls.writes, forall_mem_cons, forall_mem_cons, p.storesInside_iff_fits h]
    -- the rest goes on inside once this write has fitted
    exact and_congr_right fun hfit => ih (Put.stores_of_fits h hfit).2.1

/-- In a run of calls, no byte is stored outside the memory, and the flag is raised as soon
    as a byte does not fit, exactly when the bytes of every write fit. -/
theorem storesInside_iff (size : ℕ) (calls : List Call) (run : List (MppWriteCtx × Put))
    (h : runCalls (mppWriterInit size) calls = some run) :
    (∀ w ∈ run, w.2.StoresInside w.1) ↔ ∀ w ∈ run, w.2.Fits w.1 := by
  obtain ⟨puts, hputs⟩ := runCalls_eq h
  simp only [hputs]
  exact writes_inside_iff puts ⟨rfl, Nat.zero_le size⟩

/-- A byte, and bits that are flushed, in a memory of two. -/
theorem storesInside_iff_flush :
    let run := [(mppWriterInit 2, Put.bits 0x67 8), (mppWriterPutBits (mppWriterInit 2) 0x67 8,
      Put.bits 5 3), (mppWriterPutBits (mppWriterPutBits (mppWriterInit 2) 0x67 8) 5 3, Put.flush)]
    runCalls (mppWriterInit 2) [.putBits 0x67 8, .putBits 5 3, .flush] = some run ∧
      ((∀ w ∈ run, w.2.StoresInside w.1) ↔ ∀ w ∈ run, w.2.Fits w.1) :=
  ⟨rfl, storesInside_iff 2 [.putBits 0x67 8, .putBits 5 3, .flush] _ rfl⟩

/-- A second byte goes behind a memory of one, and no flag is raised. -/
theorem byte_stored_outside : ¬∀ size calls run,
    runCalls (mppWriterInit size) calls = some run → ∀ w ∈ run, w.2.StoresInside w.1 := by
  intro h
  have hrun := h 1 [.putBits 0x67 8, .putBits 0x42 8] _ rfl
  revert hrun
  decide

end Libmpp.Bitstream
