import Libmpp.Bitstream.Write
import Libmpp.Bitstream.Read

/-!
# Fields written and read back

A sequence of fields is written one after the other, and ended with the stop bit
(`writeFields`). A reader given the lengths takes the values (`readFields`): it goes
through the bits that the writer has been given, and what it skips on the way are the
bytes that the writer has inserted (`readFields_writeFields`).
-/

namespace Libmpp.Bitstream

open List Option

/-- A field, a value and its length in bits. -/
abbrev Field := ℕ × ℕ

/-- The fields the writer takes. -/
def Field.Fits (f : Field) : Prop := 1 ≤ f.2 ∧ f.2 ≤ 24 ∧ f.1 < 2 ^ f.2

instance (f : Field) : Decidable f.Fits := inferInstanceAs (Decidable (_ ∧ _))

/-- Write fields. -/
def putFields (ctx : MppWriteCtx) (fields : List Field) : MppWriteCtx :=
  fields.foldl (fun ctx f => mppWriterPutBits ctx (.ofNat f.1) f.2) ctx

/-- Write fields to a fresh writer, and end them. -/
def writeFields (size : ℕ) (fields : List Field) : MppWriteCtx :=
  mppWriterTrailing (putFields (mppWriterInit size) fields)

/-- Read fields of the lengths `lens`. -/
def readFields : BitReadCtx → List ℕ → Option (List ℕ × BitReadCtx)
  | ctx, [] => some ([], ctx)
  | ctx, len :: lens => do
    let (val, ctx) ← mppReadBits ctx len
    let (vals, ctx) ← readFields ctx lens
    some (val :: vals, ctx)

/-- The reader of the bytes of a NAL unit. -/
def nalReader (bytes : List UInt8) : BitReadCtx :=
  mppSetBitreadPseudoCodeType (mppSetBitreadCtx bytes) .h264H265

/-- The bits of fields. -/
def fieldBits (fields : List Field) : List Bool := fields.flatMap fun f => toBits f.2 f.1

/-! ## Writing -/

theorem putFields_byteCnt (ctx : MppWriteCtx) (fields : List Field) :
    (putFields ctx fields).size = ctx.size ∧ ctx.byteCnt ≤ (putFields ctx fields).byteCnt := by
  induction fields generalizing ctx with
  | nil => exact ⟨rfl, le_rfl⟩
  | cons f fields ih =>
    obtain ⟨hsize, hcnt⟩ := putBits_size ctx (.ofNat f.1) f.2
    obtain ⟨hsize', hcnt'⟩ := ih (mppWriterPutBits ctx (.ofNat f.1) f.2)
    exact ⟨hsize'.trans hsize, hcnt.trans hcnt'⟩

/-- Writing fields adds their bits. -/
theorem Written.putFields {ctx : MppWriteCtx} {bits : List Bool} (h : Written ctx bits)
    {fields : List Field} (hfits : ∀ f ∈ fields, f.Fits)
    (hroom : (Bitstream.putFields ctx fields).byteCnt ≤ ctx.size) :
    Written (Bitstream.putFields ctx fields) (bits ++ fieldBits fields) := by
  induction fields generalizing ctx bits with
  | nil => rwa [fieldBits, flatMap_nil, append_nil]
  | cons f fields ih =>
    obtain ⟨hpos, hle, hlt⟩ := hfits f mem_cons_self
    have hval : (UInt32.ofNat f.1).toNat = f.1 := by
      rw [UInt32.toNat_ofNat']
      exact Nat.mod_eq_of_lt (hlt.trans (Nat.pow_lt_pow_right (by norm_num) (by omega)))
    have hsize := (putBits_size ctx (.ofNat f.1) f.2).1
    have hroom' : (mppWriterPutBits ctx (.ofNat f.1) f.2).byteCnt ≤ ctx.size :=
      (putFields_byteCnt _ fields).2.trans hroom
    have hput := h.putBits _ hpos hle (by rwa [hval]) hroom'
    rw [hval] at hput
    rw [← hsize] at hroom
    have := ih hput (fun g hg => hfits g (mem_cons_of_mem _ hg)) hroom
    rwa [append_assoc] at this

/-- What is written: the fields, the stop bit, and zeros up to the next byte. -/
theorem writeFields_spec {size : ℕ} {fields : List Field} (hfits : ∀ f ∈ fields, f.Fits)
    (hroom : (writeFields size fields).byteCnt ≤ size) :
    ∃ n < 8, ∃ full, Buffered (writeFields size fields) full ∧
      bytesToBits full = fieldBits fields ++ true :: List.replicate n false := by
  have hsize : (putFields (mppWriterInit size) fields).size = size := (putFields_byteCnt _ _).1
  have hroom' : (mppWriterTrailing (putFields (mppWriterInit size) fields)).byteCnt ≤
      (putFields (mppWriterInit size) fields).size := by
    rw [hsize]
    exact hroom
  have hwritten := (written_init size).putFields hfits ((trailing_size _).2.trans hroom)
  rw [nil_append] at hwritten
  exact hwritten.ended hroom'

/-! ## Reading -/

/-- Reading fields takes their bits, and gives their values. -/
theorem Unread.readFields {ctx : BitReadCtx} {total : ℕ} {fields : List Field} {bits : List Bool}
    (h : Unread ctx total (fieldBits fields ++ bits)) (hfits : ∀ f ∈ fields, f.Fits) :
    ∃ ctx', Bitstream.readFields ctx (fields.map Prod.snd) = some (fields.map Prod.fst, ctx') ∧
      Unread ctx' total bits := by
  induction fields generalizing ctx with
  | nil => exact ⟨ctx, rfl, h⟩
  | cons f fields ih =>
    obtain ⟨-, hle, hlt⟩ := hfits f mem_cons_self
    rw [fieldBits, flatMap_cons, append_assoc] at h
    obtain ⟨ctx₁, hread, h₁⟩ := h.readBits (by rw [length_toBits]; omega)
    rw [length_toBits, ofBits_toBits hlt] at hread
    obtain ⟨ctx₂, hrest, h₂⟩ := ih h₁ fun g hg => hfits g (mem_cons_of_mem _ hg)
    refine ⟨ctx₂, ?_, h₂⟩
    rw [map_cons, Bitstream.readFields, hread, bind_eq_bind, bind_some]
    dsimp only
    rw [hrest]
    rfl

/-- Reading fields takes as many bits as they have. -/
theorem took_readFields {ctx ctx' : BitReadCtx} {lens vals : List ℕ}
    (h : readFields ctx lens = some (vals, ctx')) : Took ctx ctx' lens.sum := by
  induction lens generalizing ctx vals with
  | nil =>
    obtain ⟨-, rfl⟩ := Prod.mk.inj (some.inj h)
    rfl
  | cons len lens ih =>
    rw [readFields] at h
    obtain ⟨⟨val, c⟩, hval, h⟩ := bind_eq_some_iff.1 h
    obtain ⟨⟨rest, c'⟩, hrest, h⟩ := bind_eq_some_iff.1 h
    obtain ⟨-, rfl⟩ := Prod.mk.inj (some.inj h)
    rw [sum_cons]
    exact (took_readBits hval).trans (ih hrest)

theorem length_fieldBits (fields : List Field) :
    (fieldBits fields).length = (fields.map Prod.snd).sum := by
  rw [fieldBits, length_flatMap]
  simp only [length_toBits]

/-- When only the stop bit is left, all inserted bytes have been met. -/
theorem Unread.emulationPreventionBytes {ctx : BitReadCtx} {total n : ℕ}
    (h : Unread ctx total (true :: List.replicate n false)) (hn : n < 8) :
    ctx.emulationPreventionBytes = total := by
  obtain ⟨⟨z, rest, -, -, htotal, hbits⟩, -, -⟩ := h
  have hlen := congrArg List.length hbits
  rw [length_cons, length_replicate, length_append, length_toBits,
    length_bytesToBits] at hlen
  match rest with
  | [] => exact htotal
  | [b] =>
    -- the last byte begins with the stop bit
    rw [length_singleton] at hlen
    have hrem : ctx.numRemainingBitsInCurrByte = 0 := by omega
    rw [hrem, toBits, nil_append, bytesToBits_cons, bytesToBits_nil, append_nil] at hbits
    have hbit : b.toNat.testBit 7 = true := (List.cons.inj hbits).1.symm
    have hnot : ¬Escapes z b := by
      rintro ⟨-, hlt⟩
      have hlt : b.toNat < 4 := UInt8.lt_iff_toNat_lt.1 hlt
      rw [Nat.testBit_lt_two_pow (hlt.trans (by norm_num))] at hbit
      exact Bool.false_ne_true hbit
    rw [escapeMarked, if_neg hnot] at htotal
    exact htotal
  | b :: c :: rest =>
    rw [length_cons, length_cons] at hlen
    omega

/-! ## The round trip -/

/-- Fields written to a fresh writer with enough room, and ended with the stop bit, are
    read back. The reader meets as many inserted bytes as were written. In what is
    written, two zero bytes are followed by none below `3`, and by a `3` only if it is an
    inserted one; without the inserted bytes it is the fields, the stop bit, and zeros up
    to the next byte. -/
theorem readFields_writeFields {size : ℕ} {fields : List Field} (hfits : ∀ f ∈ fields, f.Fits)
    (hroom : (writeFields size fields).byteCnt ≤ size) :
    (∃ ctx, readFields (nalReader (writeFields size fields).buffer) (fields.map Prod.snd) =
        some (fields.map Prod.fst, ctx) ∧
      ctx.emulationPreventionBytes = (writeFields size fields).emulCnt) ∧
    (∀ x ≤ 2, ¬[0, 0, x] <:+: (writeFields size fields).buffer) ∧
    ∃ marked : List (UInt8 × Bool), marked.map Prod.fst = (writeFields size fields).buffer ∧
      insertedCnt marked = (writeFields size fields).emulCnt ∧
      (∃ n < 8, bytesToBits (payload marked) =
        fieldBits fields ++ true :: List.replicate n false) ∧
      ∀ i j k, [(0, i), (0, j), (3, k)] <:+: marked → k = true := by
  obtain ⟨n, hn, full, hbuf, hbits⟩ := writeFields_spec hfits hroom
  have hprot := protected_escapeMarked (Nat.zero_le 2) full
  rw [hbuf.buffer, hbuf.emulCnt]
  refine ⟨?_, fun x hx => hprot.not_infix hx, escapeMarked 0 full, rfl, rfl, ⟨n, hn, ?_⟩,
    fun i j k hin => (hprot.of_infix hin).2 rfl⟩
  · have hunread := unread_init full
    rw [hbits] at hunread
    obtain ⟨ctx, hread, hrest⟩ := hunread.readFields hfits
    exact ⟨ctx, hread, hrest.emulationPreventionBytes hn⟩
  · rw [payload_escapeMarked, hbits]

/-- A field of `24` zeros before one of `7` bits is escaped, and read back. -/
theorem readFields_writeFields_zeros :
    (writeFields 16 [(0, 24), (1, 7)]).emulCnt = 1 ∧
      ∃ ctx, readFields (nalReader (writeFields 16 [(0, 24), (1, 7)]).buffer) [24, 7] =
          some ([0, 1], ctx) ∧ ctx.emulationPreventionBytes = 1 := by
  have hcnt : (writeFields 16 [(0, 24), (1, 7)]).emulCnt = 1 := by decide
  have hfits : ∀ f ∈ [(0, 24), (1, 7)], Field.Fits f := by decide
  have h := (readFields_writeFields hfits
    (by decide : (writeFields 16 [(0, 24), (1, 7)]).byteCnt ≤ 16)).1
  rw [hcnt] at h
  exact ⟨hcnt, h⟩

end Libmpp.Bitstream
