import Mathlib

/-!
# Length-prefixed input of the H.265 decoder

The NAL units of a packet in the hvcC format stand behind a length of one to four bytes. A
call of `h265dPrepare` takes the units up to the next picture off the packet
(`splitNalUnits`), and is repeated until the packet is empty.

The bytes of the packet are a function of the offset in its buffer, which goes on behind the
packet: the scan for a start code looks at some of the bytes there. An allocation that fails
is left out, as is what is done with the units.

The number of bytes taken is kept in the context, and set when the loop over the units ends
at its head or at the next picture: a unit without a length, or one longer than the packet,
leaves it as it was. Up to three bytes behind the last unit are not taken. The calls come to
an end when they meet neither (`prepare_progress`).
-/

namespace Libmpp.H265d

/-! ## The model -/

def nalRaslR : ℕ := 9
def nalBlaWLp : ℕ := 16
def nalCraNut : ℕ := 21
def nalVps : ℕ := 32

/-- What `HEVCContext` has of the hvcC format. -/
structure HvccContext where
  nalLengthSize : ℕ
  capHwH265Rps : Bool := false
  /-- The extra data of the packet has slices. -/
  extraHasFrame : Bool := false
  consumedBytes : ℕ := 0
  size_pos : 1 ≤ nalLengthSize
  size_le : nalLengthSize ≤ 4

/-- An `MppPacket`. The position is an offset in the buffer. -/
structure HvccPacket where
  data : ℕ → UInt8
  size : ℕ
  pos : ℕ
  length : ℕ
  eos : Bool := false
  extraData : Bool := false

/-- `mpp_packet_set_pos`, in the arithmetic of `size_t`. -/
def HvccPacket.setPos (p : HvccPacket) (pos : ℕ) : HvccPacket :=
  let diff := (pos + (2 ^ 64 - p.pos)) % 2 ^ 64
  { p with
    pos
    length := if diff ≤ p.length then p.length - diff else (p.size + (2 ^ 64 - pos)) % 2 ^ 64 }

/-- `MPP_RN32A` -/
def mppRn32a (src : ℕ → UInt8) (i : ℕ) : BitVec 32 :=
  BitVec.ofNat 32 ((src i).toNat + 2 ^ 8 * (src (i + 1)).toNat + 2 ^ 16 * (src (i + 2)).toNat +
    2 ^ 24 * (src (i + 3)).toNat)

/-- The test for a byte of zero in a word. -/
def hasZero (w : BitVec 32) : Bool := ~~~w &&& (w - 0x01000101#32) &&& 0x80008080#32 ≠ 0#32

/-- The first byte of zero from `i` on, among `n`. -/
def zeroFrom (src : ℕ → UInt8) : ℕ → ℕ → Option ℕ
  | 0, _ => none
  | n + 1, i => if src i = 0 then some i else zeroFrom src n (i + 1)

/-- `FIND_FIRST_ZERO` -/
def findFirstZero (src : ℕ → UInt8) (i : ℕ) : Option ℕ :=
  zeroFrom src 5 (if 0 < i ∧ src i = 0 then i - 1 else i)

/-- The scan for a start code: the end of the unit. -/
def scanStartCode (src : ℕ → UInt8) (length : ℕ) : ℕ → ℕ → Option ℕ
  | 0, _ => none
  | fuel + 1, i =>
    if i + 1 < length then
      if hasZero (mppRn32a src i) then
        match findFirstZero src i with
        | none => none
        | some z =>
          if z + 2 < length ∧ src (z + 1) = 0 ∧ src (z + 2) = 1 then some z
          -- three back, and five on
          else scanStartCode src length fuel (z + 2)
      else scanStartCode src length fuel (i + 5)
    else some length

/-- `mpp_hevc_extract_rbsp`, for the number of bytes. -/
def mppHevcExtractRbsp (c : HvccContext) (src : ℕ → UInt8) (length : ℕ) : Option ℕ :=
  if c.capHwH265Rps ∧ (src 0).toNat / 2 < nalVps ∧ (src 2).toNat / 128 = 1 then some length
  else scanStartCode src length (length + 1) 0

/-- Whether `hls_nal_unit` reads the header of a unit: it has two bytes, and a temporal id. -/
def hlsNalUnit (src : ℕ → UInt8) (size : ℕ) : Bool := 2 ≤ size ∧ (src 1).toNat % 8 ≠ 0

/-- The number in `n` bytes. -/
def codedLength (src : ℕ → UInt8) (n : ℕ) : ℕ :=
  (List.range n).foldl (fun len i => len * 256 + (src i).toNat) 0

/-- Whether a unit is the first slice of a picture. -/
def beginsPicture (src : ℕ → UInt8) : Bool :=
  let nalUnitType := (src 0).toNat / 2 % 64
  (nalUnitType ≤ nalRaslR ∨ nalBlaWLp ≤ nalUnitType ∧ nalUnitType ≤ nalCraNut) ∧
    (src 2).toNat / 128 = 1

/-- The variables of `split_nal_units`. -/
structure SplitState where
  buf : ℕ
  length : ℕ
  totalConsumed : ℕ := 0
  nbNals : ℕ := 0

/-- How the loop ends: the length of a unit is too large, or zero, or the loop is done. -/
inductive SplitEnd
  | fail
  | empty
  | done
  deriving DecidableEq, Repr

inductive SplitNext
  | again (s : SplitState)
  | leave (e : SplitEnd) (s : SplitState)

def SplitState.skip (s : SplitState) (n : ℕ) : SplitState :=
  { s with buf := s.buf + n, length := s.length - n, totalConsumed := s.totalConsumed + n }

section

variable (c : HvccContext) (data : ℕ → UInt8)

/-- The bytes from the current ones on. -/
def SplitState.src (s : SplitState) : ℕ → UInt8 := fun i => data (s.buf + i)

/-- The next unit is one of the next picture. -/
def SplitState.atPicture (s : SplitState) : Bool :=
  let nextNalLength := codedLength (s.src data) c.nalLengthSize
  0 < s.nbNals ∧ c.nalLengthSize + 3 ≤ s.length ∧ 3 ≤ nextNalLength ∧
    c.nalLengthSize + nextNalLength ≤ s.length ∧
    beginsPicture ((s.skip c.nalLengthSize).src data)

/-- Go on behind a unit. -/
def SplitState.takeNal (s : SplitState) (consumed : ℕ) : SplitNext :=
  let s := if hlsNalUnit (s.src data) consumed then { s with nbNals := s.nbNals + 1 } else s
  let s := s.skip consumed
  if s.atPicture c data then .leave .done s else .again s

/-- One round of the loop over the units. -/
def splitRound (s : SplitState) : Option SplitNext :=
  let extractLength := codedLength (s.src data) c.nalLengthSize
  let s := s.skip c.nalLengthSize
  if s.length < extractLength then some (.leave .fail s)
  else if extractLength = 0 then some (.leave .empty s)
  else (mppHevcExtractRbsp c (s.src data) extractLength).map (s.takeNal c data)

/-- The loop over the units. -/
def splitLoop : ℕ → SplitState → Option (SplitEnd × SplitState)
  | 0, _ => none
  | fuel + 1, s =>
    if 4 ≤ s.length then
      (splitRound c data s).bind fun
        | .again s' => splitLoop fuel s'
        | .leave e s' => some (e, s')
    else some (.done, s)

/-- The loop at its start. -/
def splitAll (buf length : ℕ) : Option (SplitEnd × SplitState) :=
  splitLoop c data (length + 1) { buf, length }

/-- `split_nal_units`, with whether it returns `MPP_OK`. -/
def splitNalUnits (buf length : ℕ) : Option (HvccContext × Bool) :=
  (splitAll c data buf length).map fun
    | (.fail, s) => (c, 0 < s.nbNals)
    | (.empty, _) => (c, true)
    | (.done, s) => ({ c with consumedBytes := s.totalConsumed }, true)

end

/-- The call comes to `split_nal_units`. -/
def Splits (c : HvccContext) (p : HvccPacket) : Prop :=
  ¬(p.extraData ∧ ¬c.extraHasFrame) ∧ ¬(p.eos ∧ p.length = 0)

instance (c : HvccContext) (p : HvccPacket) : Decidable (Splits c p) :=
  inferInstanceAs (Decidable (_ ∧ _))

/-- `h265d_prepare` -/
def HvccContext.h265dPrepare (c : HvccContext) (p : HvccPacket) :
    Option (HvccContext × HvccPacket) :=
  let q := p.setPos (p.pos + p.length)
  if p.extraData ∧ ¬c.extraHasFrame then some (c, q)
  else if p.eos ∧ p.length = 0 then some (c, q)
  else (splitNalUnits c p.data p.pos p.length).map fun
    | (c', true) => (c', q.setPos (p.pos + c'.consumedBytes))
    | (c', false) => (c', q)

/-! ## Progress -/

/-- The position and the bytes from it on are inside the buffer. The length is an `RK_S32` in
    `h265d_prepare`. -/
structure HvccPacket.Inside (p : HvccPacket) : Prop where
  le : p.pos + p.length ≤ p.size
  lt : p.size < 2 ^ 31

/-- The position is inside, and is moved on, or the packet is empty. -/
structure Progress (p q : HvccPacket) : Prop where
  size : q.size = p.size
  inside : q.Inside
  moves : p.pos < q.pos ∨ q.length = 0

/-- A call makes progress, and leaves the number of bytes it has gone over. -/
def PreparesWell (c : HvccContext) (p : HvccPacket) : Prop :=
  ∃ c' q, c.h265dPrepare p = some (c', q) ∧ Progress p q ∧
    (Splits c p → ∃ e s, splitAll c p.data p.pos p.length = some (e, s) ∧
      c'.consumedBytes = s.totalConsumed)

/-- There is a unit, and it is inside the packet. -/
def SplitState.Whole (c : HvccContext) (data : ℕ → UInt8) (s : SplitState) : Prop :=
  0 < codedLength (s.src data) c.nalLengthSize ∧
    c.nalLengthSize + codedLength (s.src data) c.nalLengthSize ≤ s.length

/-- The states in which the loop comes to a unit. -/
def splitVisits (c : HvccContext) (data : ℕ → UInt8) : ℕ → SplitState → List SplitState
  | 0, _ => []
  | fuel + 1, s =>
    if 4 ≤ s.length then
      s :: match splitRound c data s with
        | some (.again s') => splitVisits c data fuel s'
        | _ => []
    else []

/-- There are no bytes, or enough for a unit, and the units that the loop comes to are whole,
    up to one behind whose length the bytes of an earlier call end. -/
def Regular (c : HvccContext) (p : HvccPacket) : Prop :=
  Splits c p → (p.length = 0 ∨ 4 ≤ p.length) ∧
    ∀ u ∈ splitVisits c p.data (p.length + 1) { buf := p.pos, length := p.length },
      u.Whole c p.data ∨ c.consumedBytes = u.totalConsumed + c.nalLengthSize

/-! ## Units -/

variable {src : ℕ → UInt8} {i : ℕ}

/-- A word with a byte of zero in the test has one. -/
theorem exists_zero_of_hasZero (h : hasZero (mppRn32a src i)) : ∃ k ≤ 3, src (i + k) = 0 := by
  by_contra hne
  push Not at hne
  have hpos : ∀ k ≤ 3, 1 ≤ (src (i + k)).toNat ∧ (src (i + k)).toNat < 256 := by
    intro k hk
    refine ⟨Nat.pos_of_ne_zero fun h0 => hne k hk (UInt8.toNat_inj.1 h0), UInt8.toNat_lt _⟩
  have h0 := hpos 0 (by decide)
  have h1 := hpos 1 (by decide)
  have h2 := hpos 2 (by decide)
  have h3 := hpos 3 (by decide)
  rw [Nat.add_zero] at h0
  have hmask : ∀ k < 32, (0x80008080#32).getLsbD k = true → k = 7 ∨ k = 15 ∨ k = 31 := by decide
  -- the bits of the mask are the top bits of three bytes, none of which borrows
  obtain ⟨k, hk⟩ : ∃ k, (~~~mppRn32a src i &&& (mppRn32a src i - 0x01000101#32) &&&
      0x80008080#32).getLsbD k = true := by
    by_contra hall
    push Not at hall
    refine of_decide_eq_true h (BitVec.eq_of_getLsbD_eq fun k _ => ?_)
    rw [Bool.eq_false_iff.2 (hall k), BitVec.getLsbD_zero]
  have hlt := BitVec.lt_of_getLsbD hk
  rw [BitVec.getLsbD_and, BitVec.getLsbD_and, BitVec.getLsbD_not, Bool.and_eq_true,
    Bool.and_eq_true, Bool.and_eq_true] at hk
  obtain ⟨⟨⟨-, hnot⟩, hsub⟩, hbit⟩ := hk
  rw [Bool.not_eq_true', ← BitVec.testBit_toNat, Nat.testBit_eq_decide_div_mod_eq,
    decide_eq_false_iff_not] at hnot
  rw [← BitVec.testBit_toNat, Nat.testBit_eq_decide_div_mod_eq, decide_eq_true_eq] at hsub
  rw [mppRn32a, BitVec.toNat_ofNat] at hnot
  rw [mppRn32a, BitVec.toNat_sub, BitVec.toNat_ofNat, BitVec.toNat_ofNat] at hsub
  rcases hmask k hlt hbit with rfl | rfl | rfl
  · norm_num at hnot hsub
    omega
  · norm_num at hnot hsub
    omega
  · norm_num at hnot hsub
    omega

theorem zeroFrom_spec {n k : ℕ} (hk : k < n) (h : src (i + k) = 0) :
    ∃ z, zeroFrom src n i = some z ∧ i ≤ z := by
  induction n generalizing i k with
  | zero => exact absurd hk (Nat.not_lt_zero k)
  | succ n ih =>
    rw [zeroFrom]
    by_cases hi : src i = 0
    · exact ⟨i, if_pos hi, le_rfl⟩
    · rw [if_neg hi]
      obtain ⟨k, rfl⟩ : ∃ j, k = j + 1 :=
        Nat.exists_eq_succ_of_ne_zero fun h0 => hi (by rw [h0] at h; exact h)
      have hnext : src (i + 1 + k) = 0 := by
        rw [Nat.add_right_comm]
        exact h
      obtain ⟨z, hz, hle⟩ := ih (Nat.lt_of_succ_lt_succ hk) hnext
      exact ⟨z, hz, (Nat.le_succ i).trans hle⟩

/-- The zero is looked for from the byte before on. -/
theorem findFirstZero_spec (h : hasZero (mppRn32a src i)) :
    ∃ z, findFirstZero src i = some z ∧ i ≤ z + 1 := by
  obtain ⟨k, hk, hzero⟩ := exists_zero_of_hasZero h
  rw [findFirstZero]
  by_cases hi : 0 < i ∧ src i = 0
  · rw [if_pos hi]
    have hback : src (i - 1 + 1) = 0 := by rw [Nat.sub_add_cancel hi.1]; exact hi.2
    obtain ⟨z, hz, hle⟩ := zeroFrom_spec (show 1 < 5 by decide) hback
    exact ⟨z, hz, by omega⟩
  · rw [if_neg hi]
    obtain ⟨z, hz, hle⟩ := zeroFrom_spec (show k < 5 by omega) hzero
    exact ⟨z, hz, by omega⟩

/-- The scan ends, in the unit. -/
theorem scanStartCode_spec (src : ℕ → UInt8) (length : ℕ) {fuel : ℕ} (hfuel : 0 < fuel)
    (h : length ≤ fuel + i) : ∃ n, scanStartCode src length fuel i = some n ∧ n ≤ length := by
  induction fuel generalizing i with
  | zero => exact absurd hfuel (lt_irrefl 0)
  | succ fuel ih =>
    rw [scanStartCode]
    by_cases hi : i + 1 < length
    · rw [if_pos hi]
      by_cases hw : hasZero (mppRn32a src i)
      · obtain ⟨z, hz, hle⟩ := findFirstZero_spec hw
        rw [if_pos hw, hz]
        dsimp only
        split_ifs with hcode
        · exact ⟨z, rfl, by omega⟩
        · exact ih (by omega) (by omega)
      · rw [if_neg hw]
        exact ih (by omega) (by omega)
    · exact ⟨length, if_neg hi, le_rfl⟩

theorem mppHevcExtractRbsp_spec (c : HvccContext) (src : ℕ → UInt8) (length : ℕ) :
    ∃ n, mppHevcExtractRbsp c src length = some n ∧ n ≤ length := by
  rw [mppHevcExtractRbsp]
  split_ifs
  · exact ⟨length, rfl, le_rfl⟩
  · exact scanStartCode_spec src length (Nat.succ_pos length) (by omega)

/-! ## The loop -/

section

variable {c : HvccContext} {data : ℕ → UInt8}

theorem SplitState.whole_iff (s : SplitState) : s.Whole c data ↔
    ¬s.length - c.nalLengthSize < codedLength (s.src data) c.nalLengthSize ∧
      codedLength (s.src data) c.nalLengthSize ≠ 0 := by
  have := c.size_pos
  rw [SplitState.Whole]
  omega

variable {s : SplitState}

/-- A unit that is not whole ends the loop, behind its length. -/
theorem splitRound_not_whole (h : ¬s.Whole c data) :
    ∃ e, e ≠ .done ∧ splitRound c data s = some (.leave e (s.skip c.nalLengthSize)) := by
  rw [SplitState.whole_iff] at h
  by_cases hlarge : s.length - c.nalLengthSize < codedLength (s.src data) c.nalLengthSize
  · exact ⟨.fail, nofun, if_pos hlarge⟩
  · have hzero : codedLength (s.src data) c.nalLengthSize = 0 :=
      not_not.1 fun hzero => h ⟨hlarge, hzero⟩
    exact ⟨.empty, nofun, (if_neg hlarge).trans (if_pos hzero)⟩

/-- A position behind another one, in the same packet. -/
structure GoesOn (s s' : SplitState) : Prop where
  sum : s'.totalConsumed + s'.length = s.totalConsumed + s.length
  lt : s.totalConsumed < s'.totalConsumed

/-- A whole unit is taken. -/
theorem splitRound_whole (h : s.Whole c data) :
    ∃ s', GoesOn s s' ∧ (splitRound c data s = some (.again s') ∨
      splitRound c data s = some (.leave .done s')) := by
  obtain ⟨hlarge, hzero⟩ := s.whole_iff.1 h
  have hpos := c.size_pos
  obtain ⟨n, hn, hle⟩ := mppHevcExtractRbsp_spec c ((s.skip c.nalLengthSize).src data)
    (codedLength (s.src data) c.nalLengthSize)
  have hround : splitRound c data s = some ((s.skip c.nalLengthSize).takeNal c data n) :=
    (if_neg hlarge).trans ((if_neg hzero).trans (by rw [hn, Option.map_some]))
  obtain ⟨-, hlen⟩ := h
  rw [hround, SplitState.takeNal]
  generalize hs₁ : (if hlsNalUnit ((s.skip c.nalLengthSize).src data) n = true then
    { s.skip c.nalLengthSize with nbNals := (s.skip c.nalLengthSize).nbNals + 1 }
    else s.skip c.nalLengthSize) = s₁
  have hs₁ : s₁.length = s.length - c.nalLengthSize ∧
      s₁.totalConsumed = s.totalConsumed + c.nalLengthSize := by
    rw [← hs₁]
    split_ifs <;> exact ⟨rfl, rfl⟩
  have hgoes : GoesOn s (s₁.skip n) := by
    refine ⟨?_, ?_⟩ <;> simp only [SplitState.skip, hs₁.1, hs₁.2] <;> omega
  refine ⟨s₁.skip n, hgoes, ?_⟩
  split_ifs
  · exact .inr rfl
  · exact .inl rfl

/-- What the loop leaves: all the units that it comes to are whole, or the last one is not, and
    it is left behind its length. -/
structure SplitEnds (c : HvccContext) (data : ℕ → UInt8) (s : SplitState)
    (visits : List SplitState) (e : SplitEnd) (s' : SplitState) : Prop where
  sum : s'.totalConsumed + s'.length = s.totalConsumed + s.length
  lt : 4 ≤ s.length → s.totalConsumed < s'.totalConsumed
  short : ¬4 ≤ s.length → s'.totalConsumed = s.totalConsumed
  whole : e = .done → ∀ u ∈ visits, u.Whole c data
  last : e ≠ .done → ∃ u ∈ visits, ¬u.Whole c data ∧
    s'.totalConsumed = u.totalConsumed + c.nalLengthSize ∧
    ∀ v ∈ visits, ¬v.Whole c data → v = u

theorem splitLoop_spec {fuel : ℕ} (h : s.length < fuel) :
    ∃ e s', splitLoop c data fuel s = some (e, s') ∧
      SplitEnds c data s (splitVisits c data fuel s) e s' := by
  induction fuel generalizing s with
  | zero => exact absurd h (Nat.not_lt_zero _)
  | succ fuel ih =>
    rw [splitLoop, splitVisits]
    by_cases hlen : 4 ≤ s.length
    swap
    · rw [if_neg hlen, if_neg hlen]
      exact ⟨.done, s, rfl, rfl, fun h => absurd h hlen, fun _ => rfl,
        fun _ u hu => absurd hu List.not_mem_nil, fun h => absurd rfl h⟩
    rw [if_pos hlen, if_pos hlen]
    have hpos := c.size_pos
    by_cases hwhole : s.Whole c data
    · obtain ⟨s', hgoes, hround | hround⟩ := splitRound_whole hwhole
      · have := hgoes.sum
        have := hgoes.lt
        obtain ⟨e, s'', hloop, hends⟩ := ih (s := s') (by omega)
        rw [hround]
        refine ⟨e, s'', hloop, hends.sum.trans hgoes.sum, fun _ => ?_, fun h => absurd hlen h,
          fun he u hu => ?_, fun he => ?_⟩
        · by_cases hlen' : 4 ≤ s'.length
          · exact hgoes.lt.trans (hends.lt hlen')
          · rw [hends.short hlen']
            exact hgoes.lt
        · rcases List.mem_cons.1 hu with rfl | hu
          · exact hwhole
          · exact hends.whole he u hu
        · obtain ⟨u, hu, hnot, htotal, hlast⟩ := hends.last he
          refine ⟨u, List.mem_cons_of_mem _ hu, hnot, htotal, fun v hv hv' => ?_⟩
          rcases List.mem_cons.1 hv with rfl | hv
          · exact absurd hwhole hv'
          · exact hlast v hv hv'
      · rw [hround]
        refine ⟨.done, s', rfl, hgoes.sum, fun _ => hgoes.lt, fun h => absurd hlen h,
          fun _ u hu => ?_, fun he => absurd rfl he⟩
        rw [List.mem_singleton.1 hu]
        exact hwhole
    · obtain ⟨e, he, hround⟩ := splitRound_not_whole hwhole
      rw [hround]
      have hsize := c.size_le
      refine ⟨e, s.skip c.nalLengthSize, rfl, ?_, fun _ => ?_, fun h => absurd hlen h,
        fun h => absurd h he, fun _ => ⟨s, List.mem_singleton_self s, hwhole, rfl, fun v hv _ =>
          List.mem_singleton.1 hv⟩⟩
      · simp only [SplitState.skip]
        omega
      · simp only [SplitState.skip]
        omega

end

/-- The loop over the units of a packet. -/
theorem splitAll_spec (c : HvccContext) (p : HvccPacket) :
    ∃ e s', splitAll c p.data p.pos p.length = some (e, s') ∧
      SplitEnds c p.data { buf := p.pos, length := p.length }
        (splitVisits c p.data (p.length + 1) { buf := p.pos, length := p.length }) e s' :=
  splitLoop_spec (Nat.lt_succ_self p.length)

/-! ## The position -/

section

variable {p : HvccPacket} (h : p.Inside)
include h

/-- The position at the end of the packet. -/
theorem HvccPacket.Inside.setPos_end :
    p.setPos (p.pos + p.length) = { p with pos := p.pos + p.length, length := 0 } := by
  have hle := h.le
  have hlt := h.lt
  have hdiff : (p.pos + p.length + (2 ^ 64 - p.pos)) % 2 ^ 64 = p.length := by
    rw [show p.pos + p.length + (2 ^ 64 - p.pos) = p.length + 2 ^ 64 by omega, Nat.add_mod_right]
    exact Nat.mod_eq_of_lt (by omega)
  rw [HvccPacket.setPos, hdiff, if_pos le_rfl, Nat.sub_self]

/-- From the end of the packet the position is moved back: what is left is counted up to the
    end of the buffer. -/
theorem HvccPacket.Inside.setPos_back {n : ℕ} (hn : n ≤ p.length) :
    ({ p with pos := p.pos + p.length, length := 0 } : HvccPacket).setPos (p.pos + n) =
      { p with
        pos := p.pos + n
        length := if n = p.length then 0 else p.size - (p.pos + n) } := by
  have hle := h.le
  have hlt := h.lt
  rw [HvccPacket.setPos]
  dsimp only
  by_cases hend : n = p.length
  · have hdiff : (p.pos + p.length + (2 ^ 64 - (p.pos + p.length))) % 2 ^ 64 = 0 := by
      rw [Nat.add_sub_cancel' (by omega), Nat.mod_self]
    rw [if_pos hend, hend, hdiff, if_pos le_rfl]
  · rw [if_neg hend, if_neg]
    · rw [show p.size + (2 ^ 64 - (p.pos + n)) = p.size - (p.pos + n) + 2 ^ 64 by omega,
        Nat.add_mod_right, Nat.mod_eq_of_lt (by omega)]
    · rw [Nat.mod_eq_of_lt (by omega)]
      omega

theorem HvccPacket.Inside.progress_end :
    Progress p { p with pos := p.pos + p.length, length := 0 } :=
  ⟨rfl, ⟨h.le, h.lt⟩, .inr rfl⟩

theorem HvccPacket.Inside.progress_back {n : ℕ} (hn : n ≤ p.length) :
    Progress p { p with
      pos := p.pos + n
      length := if n = p.length then 0 else p.size - (p.pos + n) } ↔ 0 < n ∨ p.length = 0 := by
  have hle := h.le
  refine ⟨fun hp => ?_, fun hn' => ⟨rfl, ⟨?_, h.lt⟩, ?_⟩⟩
  · rcases hp.moves with hmoves | hempty
    · exact .inl (Nat.pos_of_lt_add_right hmoves)
    · dsimp only at hempty
      split_ifs at hempty
      · omega
      · omega
  · dsimp only
    split_ifs
    · omega
    · omega
  · rcases hn' with hn' | hn'
    · exact .inl (Nat.lt_add_of_pos_right hn')
    · exact .inr (if_pos (by omega))

end

/-! ## Calls -/

variable {s : SplitState}

variable {c : HvccContext} {p : HvccPacket}

theorem splitVisits_short {data : ℕ → UInt8} {fuel : ℕ} (h : ¬4 ≤ s.length) :
    splitVisits c data fuel s = [] := by
  cases fuel with
  | zero => rfl
  | succ fuel => exact if_neg h

/-- A packet with no frame in its extra data, or an empty one at the end of the stream, is
    taken whole. -/
theorem prepare_not_splits (h : p.Inside) (hs : ¬Splits c p) :
    ∃ q, c.h265dPrepare p = some (c, q) ∧ Progress p q := by
  refine ⟨_, ?_, h.progress_end⟩
  rw [HvccContext.h265dPrepare, h.setPos_end]
  by_cases hextra : p.extraData ∧ ¬c.extraHasFrame
  · exact if_pos hextra
  · exact (if_neg hextra).trans (if_pos (not_not.1 fun heos => hs ⟨hextra, heos⟩))

theorem prepare_splits (h : p.Inside) (hs : Splits c p) :
    c.h265dPrepare p = (splitNalUnits c p.data p.pos p.length).map fun x =>
      (x.1, if x.2 then
        ({ p with pos := p.pos + p.length, length := 0 } : HvccPacket).setPos
          (p.pos + x.1.consumedBytes)
        else { p with pos := p.pos + p.length, length := 0 }) := by
  rw [HvccContext.h265dPrepare, h.setPos_end]
  refine (if_neg hs.1).trans ((if_neg hs.2).trans (congrArg (Option.map · _) (funext ?_)))
  rintro ⟨c', _ | _⟩ <;> rfl

/-- After a loop that is done the position is behind the bytes that it went over. -/
theorem prepare_done (h : p.Inside) (hs : Splits c p)
    (hall : splitAll c p.data p.pos p.length = some (.done, s)) (hle : s.totalConsumed ≤ p.length) :
    c.h265dPrepare p = some ({ c with consumedBytes := s.totalConsumed }, { p with
      pos := p.pos + s.totalConsumed
      length := if s.totalConsumed = p.length then 0 else p.size - (p.pos + s.totalConsumed) }) := by
  rw [prepare_splits h hs, splitNalUnits, hall, ← h.setPos_back hle]
  rfl

/-- A loop that is left before leaves the context as it is, and the position behind the bytes
    of an earlier call or at the end. -/
theorem prepare_left {e : SplitEnd} (h : p.Inside)
    (hs : Splits c p) (hall : splitAll c p.data p.pos p.length = some (e, s)) (he : e ≠ .done) :
    ∃ q, c.h265dPrepare p = some (c, q) ∧
      (0 < c.consumedBytes → c.consumedBytes ≤ p.length → Progress p q) := by
  rw [prepare_splits h hs, splitNalUnits, hall]
  have hback : 0 < c.consumedBytes → c.consumedBytes ≤ p.length →
      Progress p (({ p with pos := p.pos + p.length, length := 0 } : HvccPacket).setPos
        (p.pos + c.consumedBytes)) := by
    intro hpos hle
    rw [h.setPos_back hle]
    exact (h.progress_back hle).2 (.inl hpos)
  cases e with
  | done => exact absurd rfl he
  | empty => exact ⟨_, rfl, hback⟩
  | fail =>
    refine ⟨_, rfl, fun hpos hle => ?_⟩
    dsimp only
    split_ifs
    · exact hback hpos hle
    · exact h.progress_end

/-- A call makes progress, and leaves the number of bytes it has gone over, exactly when the
    units that it comes to are whole, and there are no one to three bytes for it. -/
theorem preparesWell_iff (h : p.Inside) :
    PreparesWell c p ↔ Regular c p := by
  rw [PreparesWell, Regular]
  by_cases hsplits : Splits c p
  swap
  · obtain ⟨q, hq, hprogress⟩ := prepare_not_splits h hsplits
    exact iff_of_true ⟨c, q, hq, hprogress, fun hs => absurd hs hsplits⟩
      fun hs => absurd hs hsplits
  obtain ⟨e, s, hall, hends⟩ := splitAll_spec c p
  have hsum : s.totalConsumed + s.length = 0 + p.length := hends.sum
  have hle : s.totalConsumed ≤ p.length := by omega
  have hsame : ∀ {e' s'}, splitAll c p.data p.pos p.length = some (e', s') → s' = s :=
    fun hall' => congrArg Prod.snd (Option.some.inj (hall'.symm.trans hall))
  by_cases he : e = .done
  · subst he
    have hq := prepare_done h hsplits hall hle
    have hgood : (0 < s.totalConsumed ∨ p.length = 0) ↔ (p.length = 0 ∨ 4 ≤ p.length) := by
      by_cases hlen : 4 ≤ p.length
      · exact iff_of_true (.inl (hends.lt hlen)) (.inr hlen)
      · have := hends.short hlen
        dsimp only at this
        omega
    constructor
    · rintro ⟨c', q, hq', hprogress, -⟩ -
      obtain ⟨-, rfl⟩ := Prod.mk.inj (Option.some.inj (hq.symm.trans hq'))
      exact ⟨hgood.1 ((h.progress_back hle).1 hprogress), fun u hu => .inl (hends.whole rfl u hu)⟩
    · intro hreg
      exact ⟨_, _, hq, (h.progress_back hle).2 (hgood.2 (hreg hsplits).1),
        fun _ => ⟨.done, s, hall, rfl⟩⟩
  · obtain ⟨u, hu, hnot, htotal, hlast⟩ := hends.last he
    obtain ⟨q, hq, hprogress⟩ := prepare_left h hsplits hall he
    have hlen : 4 ≤ p.length := by
      by_contra hlen
      rw [splitVisits_short hlen] at hu
      exact absurd hu List.not_mem_nil
    constructor
    · rintro ⟨c', q', hq', -, hcount⟩ -
      obtain ⟨rfl, -⟩ := Prod.mk.inj (Option.some.inj (hq.symm.trans hq'))
      obtain ⟨e', s', hall', hs'⟩ := hcount hsplits
      refine ⟨.inr hlen, fun v hv => or_iff_not_imp_left.2 fun hnot' => ?_⟩
      rw [hlast v hv hnot', ← htotal, hs', hsame hall']
    · intro hreg
      have hcount := ((hreg hsplits).2 u hu).resolve_left hnot
      have hpos := c.size_pos
      exact ⟨c, q, hq, hprogress (by omega) (by omega),
        fun _ => ⟨e, s, hall, by rw [hcount, htotal]⟩⟩

/-! ## Repeated calls -/

/-- The call number `n` on a packet is made: the packet was not empty behind an earlier one. -/
def CallMade (p : ℕ → HvccPacket) (n : ℕ) : Prop := ∀ k, 0 < k → k ≤ n → (p k).length ≠ 0

/-- The calls on a packet. What else is in the context may change between them. -/
def RepeatsPrepare (c : ℕ → HvccContext) (p : ℕ → HvccPacket) : Prop :=
  ∀ n, CallMade p n → ∃ c', (c n).h265dPrepare (p n) = some (c', p (n + 1)) ∧
    (c (n + 1)).consumedBytes = c'.consumedBytes

/-- The packet is empty behind one of the calls, and its position was inside until then. -/
def EmptiesPacket (p : ℕ → HvccPacket) : Prop :=
  ∃ n ≤ (p 0).size - (p 0).pos, CallMade p n ∧ (p (n + 1)).length = 0 ∧
    ∀ k ≤ n + 1, (p k).Inside

theorem CallMade.of_succ {p : ℕ → HvccPacket} {n : ℕ} (h : CallMade p (n + 1)) : CallMade p n :=
  fun k hk hle => h k hk (hle.trans n.le_succ)

section

variable {c : ℕ → HvccContext} {p : ℕ → HvccPacket} (hrun : RepeatsPrepare c p)
  (hreg : ∀ n, CallMade p n → Regular (c n) (p n))
include hrun hreg

/-- A call of the run makes progress. -/
theorem RepeatsPrepare.progress {n : ℕ} (hmade : CallMade p n) (hn : (p n).Inside) :
    Progress (p n) (p (n + 1)) := by
  obtain ⟨c', hcall, -⟩ := hrun n hmade
  obtain ⟨c'', q, hcall', hprogress, -⟩ := (preparesWell_iff hn).2 (hreg n hmade)
  obtain ⟨-, rfl⟩ := Prod.mk.inj (Option.some.inj (hcall'.symm.trans hcall))
  exact hprogress

/-- Each call that is made has moved the position on. -/
theorem RepeatsPrepare.moved (h : (p 0).Inside) {n : ℕ} (hmade : CallMade p n) :
    (p n).Inside ∧ (p n).size = (p 0).size ∧ (p 0).pos + n ≤ (p n).pos := by
  induction n with
  | zero => exact ⟨h, rfl, le_rfl⟩
  | succ n ih =>
    obtain ⟨hinside, hsize, hpos⟩ := ih hmade.of_succ
    have hprogress := hrun.progress hreg hmade.of_succ hinside
    refine ⟨hprogress.inside, hprogress.size.trans hsize, ?_⟩
    have := hprogress.moves.resolve_right (hmade (n + 1) n.succ_pos le_rfl)
    omega

/-- When all the calls are regular, the packet is emptied. -/
theorem RepeatsPrepare.empties (h : (p 0).Inside) : EmptiesPacket p := by
  by_contra hnot
  have hmade : ∀ n ≤ (p 0).size - (p 0).pos + 1, CallMade p n := by
    intro n
    induction n with
    | zero => exact fun _ k hk hle => absurd (Nat.le_zero.1 hle) hk.ne'
    | succ n ih =>
      intro hn k hk hle hempty
      have hmade := ih (n.le_succ.trans hn)
      obtain hlt | rfl := Nat.le_or_eq_of_le_succ hle
      · exact hmade k hk hlt hempty
      · refine hnot ⟨n, by omega, hmade, hempty, fun j hj => ?_⟩
        obtain hj | rfl := Nat.le_or_eq_of_le_succ hj
        · exact (hrun.moved hreg h fun i hi hij => hmade i hi (hij.trans hj)).1
        · exact (hrun.progress hreg hmade (hrun.moved hreg h hmade).1).inside
  -- there is no room for so many calls
  obtain ⟨hinside, hsize, hpos⟩ := hrun.moved hreg h (hmade _ le_rfl)
  have := hinside.le
  omega

end

/-- In the hvcC format a call makes progress, and leaves the number of bytes it has gone over,
    exactly when it is regular, and a packet is emptied by calls that are. -/
theorem prepare_progress (c : ℕ → HvccContext) (p : ℕ → HvccPacket) :
    (∀ n, (p n).Inside → (PreparesWell (c n) (p n) ↔ Regular (c n) (p n))) ∧
      ((p 0).Inside → RepeatsPrepare c p → (∀ n, CallMade p n → Regular (c n) (p n)) →
        EmptiesPacket p) :=
  ⟨fun _ h => preparesWell_iff h, fun h hrun hreg => hrun.empties hreg h⟩

/-- The bytes of a list, in a packet of their own. -/
def packetOf (l : List UInt8) : HvccPacket :=
  { data := fun i => l.getD i 0, size := l.length, pos := 0, length := l.length }

theorem packetOf_inside {l : List UInt8} (h : l.length < 2 ^ 31) : (packetOf l).Inside :=
  ⟨(Nat.zero_add l.length).le, h⟩

/-- Lengths of four bytes. -/
def lengthsOfFour (consumedBytes : ℕ) : HvccContext :=
  { nalLengthSize := 4, consumedBytes, size_pos := by decide, size_le := by decide }

/-- A packet before and behind its first call. -/
def firstThen (p q : HvccPacket) : ℕ → HvccPacket
  | 0 => p
  | _ + 1 => q

/-- A packet of one unit is emptied. -/
theorem prepare_progress_unit :
    EmptiesPacket (firstThen (packetOf [0, 0, 0, 2, 64, 1])
      { packetOf [0, 0, 0, 2, 64, 1] with pos := 6, length := 0 }) := by
  have hfirst : ∀ n, CallMade (firstThen (packetOf [0, 0, 0, 2, 64, 1])
      { packetOf [0, 0, 0, 2, 64, 1] with pos := 6, length := 0 }) n → n = 0 := fun n hn =>
    n.eq_zero_or_pos.resolve_right fun h => hn 1 Nat.one_pos h rfl
  refine (prepare_progress (fun n => lengthsOfFour (if n = 0 then 0 else 6)) _).2
    (packetOf_inside (by decide)) (fun n hn => ?_) fun n hn => ?_
  · obtain rfl := hfirst n hn
    have hall : splitAll (lengthsOfFour 0) (packetOf [0, 0, 0, 2, 64, 1]).data 0 6 =
        some (.done, { buf := 6, length := 0, totalConsumed := 6, nbNals := 1 }) := rfl
    exact ⟨lengthsOfFour 6, prepare_done (packetOf_inside (by decide)) (by decide) hall (by decide),
      rfl⟩
  · obtain rfl := hfirst n hn
    refine fun _ => ⟨.inr (by decide), fun u hu => .inl ?_⟩
    have hvisits : splitVisits (lengthsOfFour 0) (packetOf [0, 0, 0, 2, 64, 1]).data 7
        { buf := 0, length := 6 } = [{ buf := 0, length := 6 }] := rfl
    obtain rfl := List.mem_singleton.1 (hvisits ▸ hu)
    exact ⟨by decide, by decide⟩

/-- Three bytes behind the last unit are never taken, and behind a unit of no bytes the position
    is set by the bytes of an earlier call. -/
theorem prepare_not_progress :
    (∃ c, ∃ p, p 0 = packetOf [0, 0, 0, 2, 64, 1, 0, 0, 0] ∧ RepeatsPrepare c p ∧
      (∀ n, CallMade p n) ∧ ¬EmptiesPacket p) ∧
    ∃ q, (lengthsOfFour 4000).h265dPrepare (packetOf [0, 0, 0, 0]) = some (lengthsOfFour 4000, q) ∧
      q.size < q.pos := by
  constructor
  · have hfirst : splitAll (lengthsOfFour 0) (packetOf [0, 0, 0, 2, 64, 1, 0, 0, 0]).data 0 9 =
        some (.done, { buf := 6, length := 3, totalConsumed := 6, nbNals := 1 }) := rfl
    have hnext : ∀ k, splitAll (lengthsOfFour k) (packetOf [0, 0, 0, 2, 64, 1, 0, 0, 0]).data 6 3 =
      some (.done, { buf := 6, length := 3 }) := fun _ => rfl
    have hinside : ({ packetOf [0, 0, 0, 2, 64, 1, 0, 0, 0] with
        pos := 6, length := 3 } : HvccPacket).Inside := ⟨by decide, show 9 < 2 ^ 31 by decide⟩
    have hsecond : ∀ k, (lengthsOfFour k).h265dPrepare
        { packetOf [0, 0, 0, 2, 64, 1, 0, 0, 0] with pos := 6, length := 3 } =
        some (lengthsOfFour 0,
          { packetOf [0, 0, 0, 2, 64, 1, 0, 0, 0] with pos := 6, length := 3 }) :=
      fun k => prepare_done hinside ⟨fun h => absurd h.1 Bool.false_ne_true,
        fun h => absurd h.1 Bool.false_ne_true⟩ (hnext k) (Nat.zero_le _)
    refine ⟨fun n => lengthsOfFour (if n = 1 then 6 else 0),
      firstThen (packetOf [0, 0, 0, 2, 64, 1, 0, 0, 0])
        { packetOf [0, 0, 0, 2, 64, 1, 0, 0, 0] with pos := 6, length := 3 }, rfl, fun n _ => ?_,
      fun n k hk hle => ?_, fun ⟨_, _, _, hempty, _⟩ => Nat.succ_ne_zero 2 hempty⟩
    rotate_left
    · obtain ⟨k, rfl⟩ := Nat.exists_eq_succ_of_ne_zero hk.ne'
      exact Nat.succ_ne_zero 2
    rcases n with _ | _ | n
    · exact ⟨lengthsOfFour 6, prepare_done (packetOf_inside (by decide)) (by decide) hfirst
        (by decide), rfl⟩
    · exact ⟨lengthsOfFour 0, hsecond 6, rfl⟩
    · exact ⟨lengthsOfFour 0, hsecond 0, rfl⟩
  · have hinside : (packetOf [0, 0, 0, 0]).Inside := packetOf_inside (by decide)
    have hall : splitAll (lengthsOfFour 4000) (packetOf [0, 0, 0, 0]).data 0 4 =
      some (.empty, { buf := 4, length := 0, totalConsumed := 4 }) := rfl
    refine ⟨({ packetOf [0, 0, 0, 0] with pos := 0 + 4, length := 0 } : HvccPacket).setPos
      (0 + 4000), ?_, show 4 < 0 + 4000 by decide⟩
    have hcall := prepare_splits hinside (show Splits (lengthsOfFour 4000) _ by decide)
    rw [splitNalUnits, show splitAll (lengthsOfFour 4000) (packetOf [0, 0, 0, 0]).data
      (packetOf [0, 0, 0, 0]).pos (packetOf [0, 0, 0, 0]).length = _ from hall] at hcall
    exact hcall

end Libmpp.H265d
