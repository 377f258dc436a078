import Libmpp.Bitstream.ExpGolomb

/-!
# Syntax elements written and read back

A header is a sequence of syntax elements, each a field of some bits, a number or a signed
number. They are written one after the other and ended with the stop bit (`writeSyntax`); a
parser that asks for elements of the same kinds (`readSyntax`) gets the same elements, in
whatever order the kinds come (`readSyntax_writeSyntax`).
-/

namespace Libmpp.Bitstream

open List Option

/-- A syntax element: `u(len)`, `ue(v)` or `se(v)`, with its value. -/
inductive Element
  | u (val len : ℕ)
  | ue (val : UInt32)
  | se (val : ℤ)
  deriving DecidableEq, Repr

/-- What a parser knows of an element before it reads it. -/
inductive Descriptor
  | u (len : ℕ)
  | ue
  | se
  deriving DecidableEq, Repr

namespace Element

def descriptor : Element → Descriptor
  | u _ len => .u len
  | ue _ => .ue
  | se _ => .se

/-- Write an element. -/
def put (ctx : MppWriteCtx) : Element → Option MppWriteCtx
  | u val len => some (mppWriterPutBits ctx (.ofNat val) len)
  | ue val => mppWriterPutUe ctx val
  | se val => mppWriterPutSe ctx val

/-- The elements that the writer takes, and writes as they are. -/
def Fits : Element → Prop
  | u val len => Field.Fits (val, len)
  | ue val => UeFits val.toNat
  | se val => |val| < 2 ^ 30 ∧ UeFits (seCode val)

instance decidableFits (e : Element) : Decidable e.Fits :=
  match e with
  | u _ _ => inferInstanceAs (Decidable (Field.Fits _))
  | ue _ => inferInstanceAs (Decidable (UeFits _))
  | se _ => inferInstanceAs (Decidable (_ ∧ _))

/-- The bits of an element. -/
def bits : Element → List Bool
  | u val len => toBits len val
  | ue val => ueBits 7 (val.toNat + 1)
  | se val => ueBits 7 (seCode val + 1)

end Element

/-- Read an element. -/
def Descriptor.read (ctx : BitReadCtx) : Descriptor → Option (Element × BitReadCtx)
  | u len => (mppReadBits ctx len).map fun (val, ctx) => (.u val len, ctx)
  | ue => (mppReadUe ctx).map fun (val, ctx) => (.ue val, ctx)
  | se => (mppReadSe ctx).map fun (val, ctx) => (.se val, ctx)

/-- Write elements. -/
def putSyntax : MppWriteCtx → List Element → Option MppWriteCtx
  | ctx, [] => some ctx
  | ctx, e :: l => do putSyntax (← e.put ctx) l

/-- Write elements to a fresh writer, and end them. -/
def writeSyntax (size : ℕ) (l : List Element) : Option MppWriteCtx :=
  (putSyntax (mppWriterInit size) l).map mppWriterTrailing

/-- Read elements of the given kinds. -/
def readSyntax : BitReadCtx → List Descriptor → Option (List Element × BitReadCtx)
  | ctx, [] => some ([], ctx)
  | ctx, d :: ds => do
    let (e, ctx) ← d.read ctx
    let (l, ctx) ← readSyntax ctx ds
    some (e :: l, ctx)

/-! ## One element -/

variable {ctx ctx' : MppWriteCtx} {r : BitReadCtx} {total : ℕ} {e : Element} {l : List Element}

/-- Putting something may add its bits, if there is room. -/
structure Puts (ctx ctx' : MppWriteCtx) (bits : List Bool) : Prop where
  size : ctx'.size = ctx.size
  byteCnt_le : ctx.byteCnt ≤ ctx'.byteCnt
  written {before : List Bool} : Written ctx before → ctx'.byteCnt ≤ ctx.size →
    Written ctx' (before ++ bits)

/-- A code word that fits is written, whatever is in the buffer. -/
theorem ueBits_of_fits {val : ℕ} (h : UeFits val) {k : ℕ} (hk : k < 8) :
    ueBits k (val + 1) = ueBits 7 (val + 1) := by
  have hcode := (ueFits_iff h.lt).1 h
  rw [ueBits, ueBits, hcode, ueCode_eq_mono (Nat.le_of_lt_succ hk) hcode]

theorem putUe_puts {val : UInt32} (h : UeFits val.toNat) (ctx : MppWriteCtx) :
    ∃ ctx', mppWriterPutUe ctx val = some ctx' ∧ Puts ctx ctx' (ueBits 7 (val.toNat + 1)) := by
  have hn := numBits_succ val (h.lt.trans (by norm_num))
  rw [if_pos h.lt] at hn
  obtain ⟨hsize, hle⟩ := putPieces_size ctx (uePieces (val + 1) (Nat.size (val.toNat + 1)))
  refine ⟨_, putUe_eq ctx hn, hsize, hle, fun hw hroom => ?_⟩
  rw [← ueBits_of_fits h (Nat.mod_lt _ (by norm_num))]
  exact hw.putUe val h.lt hroom

theorem Element.put_puts (h : e.Fits) (ctx : MppWriteCtx) :
    ∃ ctx', e.put ctx = some ctx' ∧ Puts ctx ctx' e.bits := by
  cases e with
  | u val len =>
    obtain ⟨hsize, hle⟩ := putFields_byteCnt ctx [(val, len)]
    refine ⟨_, rfl, hsize, hle, fun hw hroom => ?_⟩
    have hfits : ∀ f ∈ [(val, len)], Field.Fits f := forall_mem_singleton.2 h
    have hput := hw.putFields hfits hroom
    rwa [fieldBits, flatMap_singleton] at hput
  | ue val => exact putUe_puts h ctx
  | se val =>
    have hcode := UInt32.toNat_ofNat_of_lt' (h.2.lt.trans' (Nat.lt_succ_self _) |>.trans (by decide))
    obtain ⟨ctx', hput, hputs⟩ := putUe_puts (hcode.symm ▸ h.2) ctx
    rw [hcode] at hputs
    exact ⟨ctx', (putSe_eq ctx val).trans ((if_pos h.1).trans hput), hputs⟩

/-- A code word that fits is read back. -/
theorem Unread.ueBits {val : ℕ} {after : List Bool} (hfits : UeFits val)
    (h : Unread r total (ueBits 7 (val + 1) ++ after)) :
    ∃ r', mppReadUe r = some (.ofNat val, r') ∧ Unread r' total after := by
  have hpos := Nat.succ_pos val
  obtain ⟨hge, hlt⟩ := ueCode_bounds (by norm_num : 7 < 8) hpos
  obtain ⟨r', hread, hr', -⟩ := h.readUe (Nat.size_pos.2 hpos) (Nat.size_le.2 hfits.lt) hge hlt
  rw [(ueFits_iff hfits.lt).1 hfits, Nat.add_sub_cancel] at hread
  exact ⟨r', hread, hr'⟩

theorem Unread.element {after : List Bool} (hfits : e.Fits)
    (h : Unread r total (e.bits ++ after)) :
    ∃ r', e.descriptor.read r = some (e, r') ∧ Unread r' total after := by
  cases e with
  | u val len =>
    obtain ⟨-, hle, hlt⟩ := hfits
    have hlen : (toBits len val).length = len := length_toBits ..
    obtain ⟨r', hread, hr'⟩ := Unread.readBits (a := toBits len val) h (by omega)
    rw [hlen, ofBits_toBits hlt] at hread
    exact ⟨r', by rw [Element.descriptor, Descriptor.read, hread]; rfl, hr'⟩
  | ue val =>
    obtain ⟨r', hread, hr'⟩ := Unread.ueBits hfits h
    rw [UInt32.ofNat_toNat] at hread
    exact ⟨r', by rw [Element.descriptor, Descriptor.read, hread]; rfl, hr'⟩
  | se val =>
    obtain ⟨r', hread, hr'⟩ := Unread.ueBits hfits.2 h
    refine ⟨r', ?_, hr'⟩
    rw [Element.descriptor, Descriptor.read, mppReadSe, hread]
    exact congrArg (fun v => some (Element.se v, r')) (seVal_seCode hfits.1)

/-! ## Sequences -/

theorem putSyntax_puts (h : ∀ e ∈ l, e.Fits) (ctx : MppWriteCtx) :
    ∃ ctx', putSyntax ctx l = some ctx' ∧ Puts ctx ctx' (l.flatMap Element.bits) := by
  induction l generalizing ctx with
  | nil => exact ⟨ctx, rfl, rfl, le_rfl, fun hw _ => by simpa using hw⟩
  | cons e l ih =>
    obtain ⟨ctx₁, hput, hputs⟩ := Element.put_puts (h e mem_cons_self) ctx
    obtain ⟨ctx₂, hrest, hrests⟩ := ih (fun e he => h e (mem_cons_of_mem _ he)) ctx₁
    refine ⟨ctx₂, ?_, hrests.size.trans hputs.size, hputs.byteCnt_le.trans hrests.byteCnt_le,
      fun hw hroom => ?_⟩
    · rw [putSyntax, hput]
      exact hrest
    · have hw₁ := hputs.written hw (hrests.byteCnt_le.trans hroom)
      rw [flatMap_cons, ← append_assoc]
      exact hrests.written hw₁ (hputs.size ▸ hroom)

theorem Unread.elements {after : List Bool} (hfits : ∀ e ∈ l, e.Fits)
    (h : Unread r total (l.flatMap Element.bits ++ after)) :
    ∃ r', readSyntax r (l.map Element.descriptor) = some (l, r') ∧ Unread r' total after := by
  induction l generalizing r with
  | nil => exact ⟨r, rfl, h⟩
  | cons e l ih =>
    rw [flatMap_cons, append_assoc] at h
    obtain ⟨r₁, hread, h₁⟩ := h.element (hfits e mem_cons_self)
    obtain ⟨r₂, hrest, h₂⟩ := ih (fun e he => hfits e (mem_cons_of_mem _ he)) h₁
    refine ⟨r₂, ?_, h₂⟩
    rw [map_cons, readSyntax, hread, bind_eq_bind, bind_some]
    dsimp only
    rw [hrest]
    rfl

/-- Elements that fit are written, and with enough room they are read back: by the kinds alone,
    in their order, with as many inserted bytes as were written. Nothing in what is written looks
    like a start code. -/
theorem readSyntax_writeSyntax (size : ℕ) (hfits : ∀ e ∈ l, e.Fits) :
    ∃ ctx, writeSyntax size l = some ctx ∧ (ctx.byteCnt ≤ size →
      (∃ r, readSyntax (nalReader ctx.buffer) (l.map Element.descriptor) = some (l, r) ∧
        r.emulationPreventionBytes = ctx.emulCnt) ∧
      ∀ x ≤ 2, ¬[0, 0, x] <:+: ctx.buffer) := by
  obtain ⟨ctx, hput, hputs⟩ := putSyntax_puts hfits (mppWriterInit size)
  refine ⟨mppWriterTrailing ctx, by rw [writeSyntax, hput]; rfl, fun hroom => ?_⟩
  have hw := hputs.written (written_init size) ((trailing_size ctx).2.trans hroom)
  rw [nil_append] at hw
  obtain ⟨n, hn, full, hbuf, hbits⟩ := hw.ended (hroom.trans_eq hputs.size.symm)
  have hunread := unread_init full
  rw [hbits] at hunread
  obtain ⟨r, hread, hr⟩ := hunread.elements hfits
  rw [hbuf.buffer, hbuf.emulCnt]
  have hprot := protected_escapeMarked (Nat.zero_le 2) full
  exact ⟨⟨r, hread, hr.emulationPreventionBytes hn⟩, fun x hx => hprot.not_infix hx⟩

/-- Elements of all kinds, with zeros that are escaped. -/
theorem readSyntax_writeSyntax_zeros :
    ∃ ctx, writeSyntax 16 [.ue 4, .u 0 24, .se (-3), .u 1 7] = some ctx ∧ ctx.emulCnt = 1 ∧
      (∃ r, readSyntax (nalReader ctx.buffer) [.ue, .u 24, .se, .u 7] =
          some ([.ue 4, .u 0 24, .se (-3), .u 1 7], r) ∧
        r.emulationPreventionBytes = ctx.emulCnt) ∧
      ∀ x ≤ 2, ¬[0, 0, x] <:+: ctx.buffer := by
  have hrun : (writeSyntax 16 [.ue 4, .u 0 24, .se (-3), .u 1 7]).any
      fun ctx => decide (ctx.emulCnt = 1 ∧ ctx.byteCnt ≤ 16) := by
    decide
  obtain ⟨ctx, hput, h⟩ :=
    readSyntax_writeSyntax (l := [.ue 4, .u 0 24, .se (-3), .u 1 7]) 16 (by decide)
  rw [hput] at hrun
  obtain ⟨hemul, hroom⟩ := of_decide_eq_true hrun
  exact ⟨ctx, hput, hemul, h hroom⟩

end Libmpp.Bitstream
