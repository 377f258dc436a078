import Libmpp.Base.Err
import Libmpp.Bitstream.ExpGolomb
import Libmpp.Lib.EndMark

/-!
# Programs that read fields

A parser of headers as a program: its state is what it has read so far with the reader
(`Cursor`), and a read that fails jumps to the label `__BITREAD_ERR`. A function that is
called by another leaves its state behind when it fails, and its caller may go on; so the
reader of a failed read is part of the model (`stuckBits`, `stuckUe`).
-/

namespace Libmpp.Bitstream

open Base

/-! ## Reads that fail -/

/-- An inserted byte is skipped, and there is none behind it. -/
def stuckCurbyte (ctx : BitReadCtx) : BitReadCtx :=
  match ctx.preventionType, ctx.data with
  | .h264H265, b :: data =>
    if b = 3 ∧ ctx.prevTwoBytes &&& 0xffff = 0 then
      { ctx with
        data
        emulationPreventionBytes := ctx.emulationPreventionBytes + 1
        usedBits := ctx.usedBits + 8
        prevTwoBytes := 0xffff }
    else ctx
  | _, _ => ctx

/-- Where `mpp_read_bits` leaves the reader when it fails: the bits of the current byte
    are taken only with those of the next one. -/
def stuckBits : ℕ → BitReadCtx → ℕ → BitReadCtx
  | 0, ctx, _ => ctx
  | fuel + 1, ctx, bitsLeft =>
    if ctx.numRemainingBitsInCurrByte < bitsLeft then
      match updateCurbyte ctx with
      | some ctx' => stuckBits fuel ctx' (bitsLeft - ctx.numRemainingBitsInCurrByte)
      | none => stuckCurbyte ctx
    else ctx

/-- Where the count of the zeros leaves the reader when it fails. -/
def stuckZeros : ℕ → BitReadCtx → BitReadCtx
  | 0, ctx => ctx
  | fuel + 1, ctx =>
    match mppReadBits ctx 1 with
    | some (0, ctx) => stuckZeros fuel ctx
    | some (_, ctx) => ctx
    | none => stuckBits 2 ctx 1

/-- Where `mpp_read_ue` leaves the reader when it fails. -/
def stuckUe (ctx : BitReadCtx) : BitReadCtx :=
  match readZeros (ctx.bitsLeft + 1) ctx 0 with
  | none => stuckZeros (ctx.bitsLeft + 1) ctx
  | some (numBits, ctx) => if numBits > 31 then ctx else stuckBits (numBits + 1) ctx numBits

/-! ## Cursors -/

/-- What has been read, with the reader and what it has returned last. -/
structure Cursor (σ : Type) where
  val : σ
  reader : BitReadCtx
  bitRet : MppRet := mppOk

/-- The errors that a read can jump out with. -/
class BitreadErr (ε : Type) where
  label : ε

section Fields

variable {ε σ α : Type}

section Reads

variable [BitreadErr ε]

/-- Read a field, and go to the label when there is none. -/
def field (rd : BitReadCtx → Option (α × BitReadCtx)) (stuck : BitReadCtx → BitReadCtx) :
    EStateM ε (Cursor σ) α := fun s =>
  match rd s.reader with
  | some (a, reader) => .ok a { s with reader, bitRet := mppOk }
  | none => .error BitreadErr.label
      { s with reader := stuck s.reader, bitRet := mppErrReadBit }

/-- `READ_BITS` -/
def bitsField (numBits : ℕ) : EStateM ε (Cursor σ) ℕ :=
  field (mppReadBits · numBits) (stuckBits (numBits + 1) · numBits)

/-- `READ_ONEBIT` -/
def flagField : EStateM ε (Cursor σ) Bool :=
  field (fun ctx => (mppReadBits ctx 1).map fun v => (v.1 ≠ 0, v.2)) (stuckBits 2 · 1)

/-- `READ_UE` -/
def ueField : EStateM ε (Cursor σ) UInt32 := field mppReadUe stuckUe

/-- `READ_SE` -/
def seField : EStateM ε (Cursor σ) ℤ := field mppReadSe stuckUe

end Reads

/-- Store what is read. -/
def into (p : EStateM ε (Cursor σ) α) (store : α → σ → σ) : EStateM ε (Cursor σ) Unit := do
  let a ← p
  modify fun s => { s with val := store a s.val }

/-- Change what has been read. -/
def alter (f : σ → σ) : EStateM ε (Cursor σ) Unit := modify fun s => { s with val := f s.val }

/-- An `if` without an `else`. -/
def whenever (b : Bool) (p : EStateM ε (Cursor σ) Unit) : EStateM ε (Cursor σ) Unit :=
  if b then p else pure ()

/-- A call whose return value is not looked at. -/
def unchecked (p : EStateM ε (Cursor σ) Unit) : EStateM ε (Cursor σ) Unit := fun s =>
  match p s with
  | .ok _ s => .ok () s
  | .error _ s => .ok () s

/-- A loop over `i`, from `start` on. -/
def loopFrom (body : ℕ → EStateM ε (Cursor σ) Unit) : ℕ → ℕ → EStateM ε (Cursor σ) Unit
  | 0, _ => pure ()
  | n + 1, start => do
    body start
    loopFrom body n (start + 1)

/-- A loop over the places of a list. -/
def loopOver {ι : Type} (body : ι → EStateM ε (Cursor σ) Unit) : List ι →
    EStateM ε (Cursor σ) Unit
  | [] => pure ()
  | i :: l => do
    body i
    loopOver body l

end Fields

/-! ## What a program preserves -/

section Preserves

variable {ε σ α β : Type}

/-- Whatever comes of the program, what has been read has the property `I` that it had
    before, and the program jumps out only as `P` says. -/
def Preserves (I : σ → Prop) (P : ε → Cursor σ → Prop) (p : EStateM ε (Cursor σ) α) : Prop :=
  ∀ s, I s.val → match p s with
    | .ok _ s' => I s'.val
    | .error e s' => I s'.val ∧ P e s'

variable {I : σ → Prop} {P : ε → Cursor σ → Prop} {p : EStateM ε (Cursor σ) α}

variable {f : α → EStateM ε (Cursor σ) β} {s s' : Cursor σ}

theorem Preserves.ok (h : Preserves I P p) {a : α} (hs : I s.val)
    (hp : p s = .ok a s') : I s'.val := by
  have := h s hs
  rwa [hp] at this

theorem Preserves.error (h : Preserves I P p) {e : ε} (hs : I s.val)
    (hp : p s = .error e s') : I s'.val ∧ P e s' := by
  have := h s hs
  rwa [hp] at this

theorem Preserves.pure (a : α) : Preserves I P (pure a) := fun _ hs => hs

theorem Preserves.get : Preserves I P get := fun _ hs => hs

theorem Preserves.bindGet {f : Cursor σ → EStateM ε (Cursor σ) α}
    (h : ∀ s, I s.val → Preserves I P (f s)) : Preserves I P (MonadState.get >>= f) :=
  fun s hs => h s hs s hs

theorem Preserves.throw {e : ε} (h : ∀ s, P e s) : Preserves I P (throw e : EStateM ε _ α) :=
  fun s hs => ⟨hs, h s⟩

theorem Preserves.alter {f : σ → σ} (h : ∀ v, I v → I (f v)) : Preserves I P (alter f) :=
  fun s hs => h s.val hs

theorem Preserves.bind (hp : Preserves I P p)
    (hf : ∀ a, Preserves I P (f a)) : Preserves I P (p >>= f) := by
  intro s hs
  cases hps : p s with
  | error e s' =>
    rw [bind_of_error hps]
    exact hp.error hs hps
  | ok a s' =>
    rw [bind_of_ok hps]
    exact hf a s' (hp.ok hs hps)

/-- A field that is not there leads to the label. -/
theorem Preserves.field [BitreadErr ε] (hP : ∀ s, s.bitRet = mppErrReadBit → P BitreadErr.label s)
    (rd : BitReadCtx → Option (α × BitReadCtx)) (stuck : BitReadCtx → BitReadCtx) :
    Preserves I P (field rd stuck) := by
  intro s hs
  rw [Bitstream.field]
  cases rd s.reader with
  | none => exact ⟨hs, hP _ rfl⟩
  | some v => exact hs

theorem Preserves.into (hp : Preserves I P p) {store : α → σ → σ}
    (h : ∀ a v, I v → I (store a v)) : Preserves I P (into p store) :=
  hp.bind fun a s hs => h a s.val hs

theorem readBits_lt {ctx ctx' : BitReadCtx} {n v : ℕ} (h : mppReadBits ctx n = some (v, ctx')) :
    v < 2 ^ n := by
  rw [mppReadBits] at h
  split_ifs at h
  obtain ⟨x, -, hx⟩ := Option.bind_eq_some_iff.1 h
  obtain ⟨rfl, -⟩ := Prod.mk.inj (Option.some.inj hx)
  rw [Nat.and_two_pow_sub_one_eq_mod]
  exact Nat.mod_lt _ (Nat.two_pow_pos n)

theorem Preserves.whenever {p : EStateM ε (Cursor σ) Unit} (b : Bool) (hp : Preserves I P p) :
    Preserves I P (whenever b p) := by
  rw [Bitstream.whenever]
  split_ifs
  · exact hp
  · exact .pure ()

theorem Preserves.unchecked {p : EStateM ε (Cursor σ) Unit} (hp : Preserves I P p) :
    Preserves I P (unchecked p) := by
  intro s hs
  rw [Bitstream.unchecked]
  cases hps : p s with
  | ok _ s' => exact hp.ok hs hps
  | error _ s' => exact (hp.error hs hps).1

theorem Preserves.loopFrom {body : ℕ → EStateM ε (Cursor σ) Unit}
    (h : ∀ i, Preserves I P (body i)) (n start : ℕ) :
    Preserves I P (loopFrom body n start) := by
  induction n generalizing start with
  | zero => exact .pure ()
  | succ n ih => exact (h start).bind fun _ => ih (start + 1)

theorem Preserves.loopOver {ι : Type} {body : ι → EStateM ε (Cursor σ) Unit}
    (h : ∀ i, Preserves I P (body i)) (l : List ι) : Preserves I P (loopOver body l) := by
  induction l with
  | nil => exact .pure ()
  | cons i l ih => exact (h i).bind fun _ => ih

/-- From `I` the program ends as `Q` says, or jumps out as `P` says. -/
def Meets (I : σ → Prop) (P : ε → Cursor σ → Prop) (Q : α → σ → Prop)
    (p : EStateM ε (Cursor σ) α) : Prop :=
  ∀ s, I s.val → match p s with
    | .ok a s' => Q a s'.val
    | .error e s' => P e s'

variable {Q Q' : α → σ → Prop}

theorem Meets.ok (h : Meets I P Q p) {a : α} (hs : I s.val)
    (hp : p s = .ok a s') : Q a s'.val := by
  have := h s hs
  rwa [hp] at this

theorem Meets.error (h : Meets I P Q p) {e : ε} (hs : I s.val)
    (hp : p s = .error e s') : P e s' := by
  have := h s hs
  rwa [hp] at this

theorem Meets.pure {a : α} (h : ∀ v, I v → Q a v) : Meets I P Q (pure a) := fun s hs => h s.val hs

theorem Meets.alter {R : Unit → σ → Prop} {f : σ → σ} (h : ∀ v, I v → R () (f v)) :
    Meets I P R (alter f) := fun s hs => h s.val hs

theorem Meets.bind {R : β → σ → Prop} (hp : Meets I P Q p)
    (hf : ∀ a, Meets (Q a) P R (f a)) : Meets I P R (p >>= f) := by
  intro s hs
  cases hps : p s with
  | error e s' =>
    rw [bind_of_error hps]
    exact hp.error hs hps
  | ok a s' =>
    rw [bind_of_ok hps]
    exact hf a s' (hp.ok hs hps)

/-- A fact about the value that does not depend on what has been read. -/
theorem Meets.bindFact {F : α → Prop} {R : β → σ → Prop}
    (hp : Meets I P (fun a v => I v ∧ F a) p) (hf : ∀ a, F a → Meets I P R (f a)) :
    Meets I P R (p >>= f) :=
  hp.bind fun a s hs => hf a hs.2 s hs.1

/-- A part that preserves more than has to hold at an error. -/
theorem Preserves.weaken {J : σ → Prop} (h : Preserves J P p) (hJ : ∀ v, J v → I v) :
    Meets J (fun e s => I s.val ∧ P e s) (fun _ => J) p := by
  intro s hs
  cases hps : p s with
  | ok a s' => exact h.ok hs hps
  | error e s' => exact ⟨hJ _ (h.error hs hps).1, (h.error hs hps).2⟩

/-- The rest of a program after a part of it that preserves `I`. -/
theorem Meets.after {R : β → σ → Prop} (hp : Preserves I P p)
    (hf : ∀ a, Meets I (fun e s => I s.val ∧ P e s) R (f a)) :
    Meets I (fun e s => I s.val ∧ P e s) R (p >>= f) :=
  Meets.bind (Q := fun _ => I) hp hf

theorem Meets.bits [BitreadErr ε] (hP : ∀ s, I s.val → P BitreadErr.label s) (n : ℕ) :
    Meets I P (fun a v => I v ∧ a < 2 ^ n) (bitsField n) := by
  intro s hs
  rw [bitsField, Bitstream.field]
  cases hread : mppReadBits s.reader n with
  | none => exact hP _ hs
  | some v => exact ⟨hs, readBits_lt hread⟩

theorem Preserves.intoBits [BitreadErr ε] (hP : ∀ s, P BitreadErr.label s) {n : ℕ}
    {store : ℕ → σ → σ} (h : ∀ a v, a < 2 ^ n → I v → I (store a v)) :
    Preserves I P (Bitstream.into (bitsField n) store) :=
  (Meets.bits (P := fun e s => I s.val ∧ P e s) (fun s hs => ⟨hs, hP s⟩) n).bindFact fun a ha s =>
    h a s.val ha

theorem Meets.bindGet {f : Cursor σ → EStateM ε (Cursor σ) α}
    (h : ∀ s, I s.val → Meets I P Q (f s)) : Meets I P Q (MonadState.get >>= f) :=
  fun s hs => h s hs s hs

/-- What was read has not changed since it was looked at. -/
theorem Meets.bindGetEq {f : Cursor σ → EStateM ε (Cursor σ) α}
    (h : ∀ s, I s.val → Meets (· = s.val) P Q (f s)) : Meets I P Q (MonadState.get >>= f) :=
  fun s hs => h s hs s rfl

theorem Meets.mono {I' : σ → Prop} (h : Meets I P Q p) (hI : ∀ v, I' v → I v)
    (hQ : ∀ a v, Q a v → Q' a v) : Meets I' P Q' p := by
  intro s hs
  cases hps : p s with
  | error e s' => exact h.error (hI _ hs) hps
  | ok a s' => exact hQ a s'.val (h.ok (hI _ hs) hps)

end Preserves

/-! ## Two programs over the same bits -/

section Tracks

variable {ε δ σ τ α β α' β' : Type}

/-- From the same bits, where `P` holds of what `p` has read, `p` comes out as `q` does: both
    at their end, or both with an error. Where `q` stops with an error that is `off`, `p` may
    do anything. -/
def Tracks (P : σ → Prop) (off : δ → Prop) (E : ε → Cursor σ → Prop)
    (p : EStateM ε (Cursor σ) α) (q : EStateM δ (Cursor τ) β) (Q : α → β → σ → Prop) : Prop :=
  ∀ s t, P s.val → s.reader = t.reader → match q t with
    | .ok b t' => ∃ a s', p s = .ok a s' ∧ s'.reader = t'.reader ∧ Q a b s'.val
    | .error d _ => off d ∨ ∃ e s', p s = .error e s' ∧ E e s'

variable {P P' : σ → Prop} {off : δ → Prop} {E : ε → Cursor σ → Prop}
  {p : EStateM ε (Cursor σ) α} {q : EStateM δ (Cursor τ) β} {Q Q' : α → β → σ → Prop}

theorem Tracks.mono (h : Tracks P off E p q Q) (hP : ∀ v, P' v → P v)
    (hQ : ∀ a b v, Q a b v → Q' a b v) : Tracks P' off E p q Q' := by
  intro s t hs hst
  have := h s t (hP _ hs) hst
  revert this
  cases q t with
  | ok b t' => exact fun ⟨a, s', hp, hr, hq⟩ => ⟨a, s', hp, hr, hQ _ _ _ hq⟩
  | error d t' => exact id

theorem Tracks.pure {a : α} {b : β} (h : ∀ v, P v → Q a b v) :
    Tracks P off E (pure a) (Pure.pure b : EStateM δ (Cursor τ) β) Q :=
  fun s _ hs hst => ⟨a, s, rfl, hst, h _ hs⟩

theorem Tracks.bind {f : α → EStateM ε (Cursor σ) α'} {g : β → EStateM δ (Cursor τ) β'}
    {R : α' → β' → σ → Prop} (h : Tracks P off E p q Q)
    (hf : ∀ a b, Tracks (Q a b) off E (f a) (g b) R) : Tracks P off E (p >>= f) (q >>= g) R := by
  intro s t hs hst
  have hfirst := h s t hs hst
  cases hq : q t with
  | error d t' =>
    rw [hq] at hfirst
    rw [bind_of_error hq]
    rcases hfirst with hoff | ⟨e, s', hp, he⟩
    · exact .inl hoff
    · exact .inr ⟨e, s', bind_of_error hp, he⟩
  | ok b t' =>
    rw [hq] at hfirst
    obtain ⟨a, s', hp, hr, hQ⟩ := hfirst
    rw [bind_of_ok hq, bind_of_ok hp]
    exact hf a b s' t' hQ hr

/-- A step that `q` does not take. -/
theorem Tracks.left {p : EStateM ε (Cursor σ) α'} {f : α' → EStateM ε (Cursor σ) α}
    {S : α' → σ → Prop}
    (h : ∀ s, P s.val → ∃ a s', p s = .ok a s' ∧ s'.reader = s.reader ∧ S a s'.val)
    (hf : ∀ a, Tracks (S a) off E (f a) q Q) : Tracks P off E (p >>= f) q Q := by
  intro s t hs hst
  obtain ⟨a, s', hp, hr, hS⟩ := h s hs
  rw [bind_of_ok hp]
  exact hf a s' t hS (hr.trans hst)

theorem Tracks.last {b : β} {S : α → σ → Prop}
    (h : ∀ s, P s.val → ∃ a s', p s = .ok a s' ∧ s'.reader = s.reader ∧ S a s'.val) :
    Tracks P off E p (Pure.pure b : EStateM δ (Cursor τ) β) fun a _ => S a := by
  intro s t hs hst
  obtain ⟨a, s', hp, hr, hS⟩ := h s hs
  exact ⟨a, s', hp, hr.trans hst, hS⟩

theorem Tracks.throw {d : δ} (h : off d) :
    Tracks P off E p (throw d : EStateM δ (Cursor τ) β) Q := fun _ _ _ _ => .inl h

theorem Tracks.assume {c : Prop} (h : c → Tracks P off E p q Q) :
    Tracks (fun v => c ∧ P v) off E p q Q := fun s t hs hst => h hs.1 s t hs.2 hst

/-- Both read the same field. -/
theorem Tracks.field [BitreadErr ε] [BitreadErr δ] (rd : BitReadCtx → Option (α × BitReadCtx))
    (stuck : BitReadCtx → BitReadCtx)
    (hE : ∀ s, P s.val → s.bitRet = mppErrReadBit → E BitreadErr.label s) :
    Tracks P off E (field rd stuck) (Bitstream.field rd stuck : EStateM δ (Cursor τ) α)
      fun a b v => a = b ∧ P v := by
  intro s t hs hst
  rw [Bitstream.field, Bitstream.field, ← hst]
  cases rd s.reader with
  | none => exact .inr ⟨_, _, rfl, hE _ hs rfl⟩
  | some v => exact ⟨v.1, _, rfl, rfl, rfl, hs⟩

/-- What is read is stored on both sides. -/
theorem Tracks.into {store : α → σ → σ} {store' : β → τ → τ} {R : Unit → Unit → σ → Prop}
    (h : Tracks P off E p q Q) (hstore : ∀ a b v, Q a b v → R () () (store a v)) :
    Tracks P off E (into p store) (Bitstream.into q store') R :=
  h.bind fun a b s _ hs hst => ⟨(), { s with val := store a s.val }, rfl, hst, hstore a b _ hs⟩

theorem Tracks.loopFrom {I : ℕ → σ → Prop} {body : ℕ → EStateM ε (Cursor σ) Unit}
    {body' : ℕ → EStateM δ (Cursor τ) Unit} {n start : ℕ}
    (h : ∀ i, start ≤ i → i < start + n →
      Tracks (I i) off E (body i) (body' i) fun _ _ => I (i + 1)) :
    Tracks (I start) off E (loopFrom body n start) (Bitstream.loopFrom body' n start)
      fun _ _ => I (start + n) := by
  induction n generalizing start with
  | zero => exact .pure fun _ hv => hv
  | succ n ih =>
    refine (h start le_rfl (by omega)).bind fun _ _ => ?_
    rw [← Nat.add_assoc, Nat.add_right_comm]
    exact ih fun i hi hlt => h i (by omega) (by omega)

end Tracks

end Libmpp.Bitstream
