import Libmpp.Avs2d.Storage

/-!
# That the NAL units of an AVS2 frame are stored safely

`Core` is what holds of the memory at any time: the entries and the contents are within what is
allocated, each entry shows what was stored for it, and the last one ends where its buffer
does. It is kept by each operation alone; what was stored before is not touched, as data is put
behind it (`Grows`). That the last entry is of the code that was read last is the other half
(`Stored`); where it fails the splitter must not store anything (`SplitOk`).
-/

namespace Libmpp.Avs2d

open Bool List Option

/-! ## When it is safe -/

/-- There is a buffer for the last start code, and the last entry is of the code: no frame has been
    completed by another code. -/
def StoreOk (m : NalStore) : Prop :=
  m.newFrameFlag = false ∧ (isSliceStartCode m.prevStartCode ∨ isHeader m.prevStartCode)

instance (m : NalStore) : Decidable (StoreOk m) := inferInstanceAs (Decidable (_ ∧ _))

/-- A call of `avs2_split_nalu`, by the start code it finds, stores only what it can: in front of a
    code, and not user data that goes on to the end. -/
def SplitOkAt (m : NalStore) (buf : List UInt8) (overRead : ℕ) : Option ℕ → Prop
  | some pos => m.prevStartCode ≠ userDataStartCode →
      (buf.take (pos - 3)).drop overRead ≠ [] → StoreOk m
  | none => buf.drop overRead ≠ [] → m.prevStartCode ≠ userDataStartCode ∧ StoreOk m

instance (m : NalStore) (buf : List UInt8) (overRead : ℕ) :
    ∀ found, Decidable (SplitOkAt m buf overRead found)
  | some _ => inferInstanceAs (Decidable (_ → _ → _))
  | none => inferInstanceAs (Decidable (_ → _ ∧ _))

/-- A call of `avs2_split_nalu` is safe. -/
def SplitOk (m : NalStore) (buf : List UInt8) (overRead : ℕ) : Prop :=
  m.newSeqFlag → isStartCode m.prevStartCode → SplitOkAt m buf overRead (avs2FindStartCode buf)

instance (m : NalStore) (buf : List UInt8) (overRead : ℕ) : Decidable (SplitOk m buf overRead) :=
  inferInstanceAs (Decidable (_ → _ → _))

/-- The calls of a loop are safe. -/
def LoopOk (ready : NalStore → List UInt8 → Bool) : ℕ → NalStore → List UInt8 → Prop
  | 0, _, _ => True
  | fuel + 1, m, rest => 2 ≤ rest.length → SplitOk m rest 0 ∧
      (m.avs2SplitNalu rest 0).elim True fun s =>
        ready s.1 (rest.drop (rest.length - s.2)) = false →
          LoopOk ready fuel s.1 (rest.drop (rest.length - s.2))

instance decidableElim {α : Type} (o : Option α) (P : α → Prop) [∀ a, Decidable (P a)] :
    Decidable (o.elim True P) :=
  match o with
  | some a => inferInstanceAs (Decidable (P a))
  | none => inferInstanceAs (Decidable True)

instance decidableLoopOk (ready : NalStore → List UInt8 → Bool) :
    ∀ fuel m rest, Decidable (LoopOk ready fuel m rest)
  | 0, _, _ => inferInstanceAs (Decidable True)
  | fuel + 1, m, rest =>
    have := decidableLoopOk ready fuel
    inferInstanceAs (Decidable (_ → _ ∧ Option.elim (m.avs2SplitNalu rest 0) True fun _ => _ → _))

/-- The calls of `avs2_split_nalu` for a packet are safe. -/
def CallsOk (splitParse : Bool) (m : NalStore) (p : NalPacket) : Prop :=
  if splitParse then SplitOk m (checkerBuffer m p) 3 ∧
    (m.avs2SplitNalu (checkerBuffer m p) 3).elim True fun s =>
      LoopOk readySplit (p.mem.length + 1) s.1 (p.from s.2)
  else LoopOk readyFast (p.data.length + 1) m p.data

/-- The calls for a packet are safe, and the zeros fit behind the slices of a frame that is
    ready. -/
def PrepareOk (splitParse : Bool) (m : NalStore) (p : NalPacket) : Prop :=
  CallsOk splitParse m p ∧ (prepared splitParse m p).elim True fun r =>
    r.2 = true → paddedLen r.1 ≤ r.1.stream.size

/-! ## What the entries describe -/

/-- An entry has the code and the length of what was stored, and shows it in the buffer. -/
def NalStore.Shows (m : NalStore) (nalu : Avs2dNalu) (u : ℕ × List UInt8) : Prop :=
  nalu.header = u.1 ∧ nalu.length = u.2.length ∧
    (u.2 ≠ [] → ∃ b, m.bufOf u.1 = some b ∧ nalu.dataPos + nalu.length ≤ b.size ∧
      b.read nalu.dataPos nalu.length = u.2)

/-- The entries describe what was stored for them. -/
structure NalStore.Describes (m : NalStore) : Prop where
  count : m.units.length = m.nalCnt
  entry : ∀ (i : ℕ) u, m.units[i]? = some u → ∃ nalu, m.pNals[i]? = some nalu ∧ m.Shows nalu u

/-- The part of a buffer that an entry has, up to the end of the contents. -/
def NalStore.Within (m : NalStore) (nalu : Avs2dNalu) (u : ℕ × List UInt8) : Prop :=
  nalu.header = u.1 ∧ nalu.length = u.2.length ∧
    (u.2 ≠ [] → ∃ b, m.bufOf u.1 = some b ∧ nalu.dataPos + nalu.length ≤ b.len ∧
      b.read nalu.dataPos nalu.length = u.2)

structure NalStore.Core (m : NalStore) : Prop where
  alloc : m.nalCnt ≤ m.pNals.length
  count : m.units.length = m.nalCnt
  fits : m.header.len ≤ m.header.size ∧ m.stream.len ≤ m.stream.size
  entry : ∀ (i : ℕ) u, m.units[i]? = some u → ∃ nalu, m.pNals[i]? = some nalu ∧ m.Within nalu u
  ends : ∀ u nalu b, m.units[m.nalCnt - 1]? = some u → m.pNals[m.nalCnt - 1]? = some nalu →
    u.2 ≠ [] → m.bufOf u.1 = some b → nalu.dataPos + nalu.length = b.len

/-- The code of the last entry. -/
def NalStore.lastCode (m : NalStore) : Option ℕ := m.units[m.nalCnt - 1]?.map Prod.fst

structure NalStore.Stored (m : NalStore) : Prop extends NalStore.Core m where
  last : m.newFrameFlag = false → isStartCode m.prevStartCode →
    m.prevStartCode ≠ userDataStartCode → m.lastCode = some m.prevStartCode
  slice : isSliceStartCode m.prevStartCode → 0 < m.nalCnt

/-- The flags are those of before. -/
structure SameFlags (m m' : NalStore) : Prop where
  prevStartCode : m'.prevStartCode = m.prevStartCode
  newSeqFlag : m'.newSeqFlag = m.newSeqFlag
  newFrameFlag : m'.newFrameFlag = m.newFrameFlag

theorem SameFlags.trans {m m' m'' : NalStore} (h : SameFlags m m') (h' : SameFlags m' m'') :
    SameFlags m m'' :=
  ⟨h'.prevStartCode.trans h.prevStartCode, h'.newSeqFlag.trans h.newSeqFlag,
    h'.newFrameFlag.trans h.newFrameFlag⟩

/-- The contents of the buffers are still there. -/
def Grows (m m' : NalStore) : Prop := ∀ code b, m.bufOf code = some b →
  ∃ b', m'.bufOf code = some b' ∧ b.len ≤ b'.len ∧
    ∀ pos n, pos + n ≤ b.len → b'.read pos n = b.read pos n

variable {m m' : NalStore} {nalu : Avs2dNalu} {u : ℕ × List UInt8}

theorem NalStore.Within.grows (h : m.Within nalu u) (hg : Grows m m') : m'.Within nalu u := by
  refine ⟨h.1, h.2.1, fun hne => ?_⟩
  obtain ⟨b, hb, hle, hread⟩ := h.2.2 hne
  obtain ⟨b', hb', hlen, hsame⟩ := hg _ _ hb
  exact ⟨b', hb', hle.trans hlen, by rw [hsame _ _ hle, hread]⟩

theorem NalStore.Core.bufOf_fits (h : m.Core) {code : ℕ} {b : Avs2dStreamBuf}
    (hb : m.bufOf code = some b) : b.len ≤ b.size := by
  rw [NalStore.bufOf] at hb
  split_ifs at hb
  · rw [← some.inj hb]
    exact h.fits.2
  · rw [← some.inj hb]
    exact h.fits.1

theorem NalStore.Core.describes (h : m.Core) : m.Describes := by
  refine ⟨h.count, fun i u hu => ?_⟩
  obtain ⟨nalu, hnalu, hheader, hlength, hview⟩ := h.entry i u hu
  refine ⟨nalu, hnalu, hheader, hlength, fun hne => ?_⟩
  obtain ⟨b, hb, hle, hread⟩ := hview hne
  exact ⟨b, hb, hle.trans (h.bufOf_fits hb), hread⟩

/-! ## The operations -/

theorem addNaluHeader_spec (h : m.Core) (code : ℕ) :
    ∃ m', m.addNaluHeader code = some m' ∧ m'.Core ∧ SameFlags m m' ∧ 0 < m'.nalCnt ∧
      m'.lastCode = some code := by
  obtain ⟨l, hl⟩ : ∃ l, (if m.pNals.length < m.nalCnt + 1 then
      m.pNals ++ List.replicate maxNaluNum blankNalu else m.pNals) = l := ⟨_, rfl⟩
  have hlen : m.nalCnt < l.length := by
    rw [← hl]
    split_ifs with hlt
    · rw [length_append, length_replicate]
      have := h.alloc
      have : 0 < maxNaluNum := by decide
      omega
    · omega
  have hold : ∀ i < m.nalCnt, l[i]? = m.pNals[i]? := by
    intro i hi
    rw [← hl]
    split_ifs with hlt
    · rw [getElem?_append_left (hi.trans_le h.alloc)]
    · rfl
  rw [NalStore.addNaluHeader, hl, if_pos hlen]
  have hlast : (m.units ++ [(code, [])])[m.nalCnt]? = some (code, []) := by
    rw [getElem?_append_right h.count.le, h.count, Nat.sub_self]
    rfl
  refine ⟨_, rfl, ⟨?_, ?_, h.fits, ?_, ?_⟩, ⟨rfl, rfl, rfl⟩, Nat.succ_pos _, ?_⟩
  · rw [length_set]
    exact hlen
  · rw [length_append, h.count]
    rfl
  · intro i u hu
    dsimp only at hu ⊢
    rcases Nat.lt_or_ge i m.nalCnt with hi | hi
    · rw [getElem?_append_left (by rw [h.count]; exact hi)] at hu
      obtain ⟨nalu, hnalu, hwithin⟩ := h.entry i u hu
      exact ⟨nalu, by rw [getElem?_set_ne hi.ne', hold i hi, hnalu], hwithin⟩
    · have hi' : i < (m.units ++ [(code, [])]).length := List.getElem?_eq_some_iff.1 hu |>.1
      rw [length_append, length_singleton, h.count] at hi'
      obtain rfl : i = m.nalCnt := by omega
      obtain rfl := some.inj (hlast.symm.trans hu)
      exact ⟨_, getElem?_set_self hlen, rfl, rfl, fun hne => absurd rfl hne⟩
  · intro u nalu b hu _ hne
    obtain rfl := some.inj (hlast.symm.trans hu)
    exact absurd rfl hne
  · rw [NalStore.lastCode, Nat.add_sub_cancel, hlast]
    rfl

/-- Marking the last entry as the end leaves what the entries show. -/
theorem setLast_eof_spec (h : m.Core) (hpos : 0 < m.nalCnt) :
    ∃ m', (m.setLast fun nalu => { nalu with eof := true }) = some m' ∧ m'.Core ∧
      SameFlags m m' ∧ m'.nalCnt = m.nalCnt ∧ m'.lastCode = m.lastCode := by
  have hset : ∀ i, (m.pNals.modify (m.nalCnt - 1) fun nalu => { nalu with eof := true })[i]? =
      m.pNals[i]?.map fun nalu => if i = m.nalCnt - 1 then { nalu with eof := true } else nalu := by
    intro i
    rw [getElem?_modify]
    by_cases hi : m.nalCnt - 1 = i
    · simp [hi]
    · simp [hi, Ne.symm hi]
  rw [NalStore.setLast, if_pos ⟨hpos, h.alloc⟩]
  refine ⟨_, rfl, ⟨?_, h.count, h.fits, ?_, ?_⟩, ⟨rfl, rfl, rfl⟩, rfl, rfl⟩
  · rw [length_modify]
    exact h.alloc
  · intro i u hu
    obtain ⟨nalu, hnalu, hheader, hlength, hview⟩ := h.entry i u hu
    rw [hset, hnalu]
    refine ⟨_, rfl, ?_⟩
    split_ifs
    · exact ⟨hheader, hlength, hview⟩
    · exact ⟨hheader, hlength, hview⟩
  · intro u nalu b hu hnalu hne hb
    rw [hset] at hnalu
    obtain ⟨old, hold, rfl⟩ := map_eq_some_iff.1 hnalu
    rw [if_pos rfl]
    exact h.ends u old b hu hold hne hb

theorem grow_spec (b : Avs2dStreamBuf) (addSize : ℕ) (data : List UInt8) (h : b.len ≤ b.size) :
    ∃ b', (b.grow addSize data.length).write data = some b' ∧
      b'.toAppendBuffer = b.toAppendBuffer.append data ∧ b'.len ≤ b'.size := by
  obtain ⟨b₁, hb₁⟩ : ∃ b₁, b.grow addSize data.length = b₁ := ⟨_, rfl⟩
  have hsize : b₁.toAppendBuffer = b.toAppendBuffer ∧ b.len + data.length ≤ b₁.size := by
    rw [← hb₁, Avs2dStreamBuf.grow]
    split_ifs with hlt
    · exact ⟨rfl, by dsimp only; omega⟩
    · exact ⟨rfl, not_lt.1 hlt⟩
  have hfits : b₁.len + data.length ≤ b₁.size := by
    rw [hsize.1]
    exact hsize.2
  rw [hb₁, Avs2dStreamBuf.write, if_pos hfits]
  refine ⟨_, rfl, ?_, ?_⟩
  · rw [hsize.1]
  · exact hfits

theorem storeNalu_spec (h : m.Core) {code : ℕ} (hlast : m.lastCode = some code)
    (hcode : isSliceStartCode code ∨ isHeader code) (data : List UInt8) :
    ∃ m', m.storeNalu data code = some m' ∧ m'.Core ∧ SameFlags m m' ∧ m'.nalCnt = m.nalCnt ∧
      m'.lastCode = some code := by
  obtain ⟨u₀, hu₀, hu₀code⟩ := map_eq_some_iff.1 hlast
  have hpos : 0 < m.nalCnt := by
    have hlt := (List.getElem?_eq_some_iff.1 hu₀).1
    have := h.count
    omega
  obtain ⟨b, hb⟩ : ∃ b, m.bufOf code = some b := by
    rw [NalStore.bufOf]
    split_ifs with hs hh
    · exact ⟨_, rfl⟩
    · exact ⟨_, rfl⟩
    · exact absurd hcode (not_or.2 ⟨hs, hh⟩)
  obtain ⟨b', hwrite, happend, hfits⟩ := grow_spec b (addSizeOf code) data (h.bufOf_fits hb)
  have hlen : (b.grow (addSizeOf code) data.length).len = b.len := by
    rw [Avs2dStreamBuf.grow]
    split_ifs <;> rfl
  obtain ⟨nalu₀, hnalu₀, hheader, hlength, hview⟩ := h.entry _ u₀ hu₀
  -- where the data of the entry begins, now that it has some
  obtain ⟨pos, hpos₀⟩ : ∃ pos, (if nalu₀.length = 0 then b.len else nalu₀.dataPos) = pos := ⟨_, rfl⟩
  have hend : pos + nalu₀.length = b.len ∧ b.read pos nalu₀.length = u₀.2 := by
    by_cases hne : u₀.2 = []
    · have hzero : nalu₀.length = 0 := by rw [hlength, hne, length_nil]
      rw [if_pos hzero] at hpos₀
      rw [hzero, hne, ← hpos₀]
      exact ⟨rfl, rfl⟩
    · have hzero : nalu₀.length ≠ 0 := fun h0 => hne (length_eq_zero_iff.1 (hlength ▸ h0))
      rw [if_neg hzero] at hpos₀
      obtain ⟨b₁, hb₁, -, hread⟩ := hview hne
      obtain rfl : b₁ = b := some.inj (hb₁.symm.trans (hu₀code ▸ hb))
      rw [← hpos₀]
      exact ⟨h.ends u₀ nalu₀ b₁ hu₀ hnalu₀ hne hb₁, hread⟩
  have hread : b'.read pos (nalu₀.length + data.length) = u₀.2 ++ data := by
    rw [← hend.2, ← AppendBuffer.read_append hend.1, happend]
  have hlen' : b'.len = b.len + data.length := by rw [happend, AppendBuffer.len_append]
  obtain ⟨m', hm', hNals, hcnt, hunits, hbufs, hflags, hsizes⟩ :
      ∃ m', m.storeNalu data code = some m' ∧
        m'.pNals = (m.pNals.modify (m.nalCnt - 1) fun nalu => { nalu with
          dataPos := if nalu.length = 0 then b.len else nalu.dataPos
          length := nalu.length + data.length }) ∧
        m'.nalCnt = m.nalCnt ∧ m'.units = storedFor m.units code data ∧
        (∀ c, m'.bufOf c = if isSliceStartCode c = isSliceStartCode code then
          (m.bufOf c).map fun _ => b' else m.bufOf c) ∧ SameFlags m m' ∧
        m'.header.len ≤ m'.header.size ∧ m'.stream.len ≤ m'.stream.size := by
    rw [NalStore.storeNalu, hb]
    simp only [bind_eq_bind, bind_some]
    rw [NalStore.setLast, if_pos ⟨hpos, h.alloc⟩, bind_some, hwrite, bind_some, hlen]
    refine ⟨_, rfl, ?_⟩
    rw [NalStore.setBuf]
    split_ifs with hs
    · refine ⟨rfl, rfl, rfl, fun c => ?_, ⟨rfl, rfl, rfl⟩, h.fits.1, hfits⟩
      rw [NalStore.bufOf, NalStore.bufOf, hs]
      split_ifs <;> rfl
    · refine ⟨rfl, rfl, rfl, fun c => ?_, ⟨rfl, rfl, rfl⟩, hfits, h.fits.2⟩
      rw [NalStore.bufOf, NalStore.bufOf, eq_false_iff.2 hs]
      split_ifs <;> simp_all
  have hgrows : Grows m m' := by
    intro c b₀ hb₀
    rw [hbufs, hb₀]
    split_ifs with hclass
    · obtain rfl : b₀ = b := by
        rw [NalStore.bufOf] at hb hb₀
        rw [hclass] at hb₀
        split_ifs at hb hb₀ <;> exact some.inj (hb₀.symm.trans hb)
      refine ⟨b', rfl, by omega, fun p n hle => ?_⟩
      rw [happend, AppendBuffer.read_append_of_le hle]
    · exact ⟨b₀, rfl, le_rfl, fun _ _ _ => rfl⟩
  have hb'code : m'.bufOf code = some b' := by rw [hbufs, if_pos rfl, hb, map_some]
  have hNalsLast : m'.pNals[m.nalCnt - 1]? = some { nalu₀ with
      dataPos := pos, length := nalu₀.length + data.length } := by
    rw [hNals, getElem?_modify_eq, hnalu₀, ← hpos₀]
    rfl
  have hunitsLast : m'.units[m.nalCnt - 1]? = some (code, u₀.2 ++ data) := by
    rw [hunits, storedFor, h.count, getElem?_modify_eq, hu₀]
    exact congrArg some ((if_pos hu₀code).trans (by rw [hu₀code]))
  refine ⟨m', hm', ⟨?_, ?_, hsizes, ?_, ?_⟩, hflags, hcnt, ?_⟩
  · rw [hNals, length_modify, hcnt]
    exact h.alloc
  · rw [hunits, storedFor, length_modify, h.count, hcnt]
  · intro i u hu
    by_cases hi : m.nalCnt - 1 = i
    · subst hi
      obtain rfl := some.inj (hunitsLast.symm.trans hu)
      refine ⟨_, hNalsLast, hheader.trans hu₀code, ?_, fun _ => ⟨b', hb'code, ?_, hread⟩⟩
      · rw [length_append, ← hlength]
      · dsimp only
        omega
    · rw [hunits, storedFor, h.count, getElem?_modify_ne _ _ hi] at hu
      obtain ⟨nalu, hnalu, hwithin⟩ := h.entry i u hu
      refine ⟨nalu, ?_, hwithin.grows hgrows⟩
      rw [hNals, getElem?_modify_ne _ _ hi, hnalu]
  · intro u nalu b₁ hu hnalu _ hb₁
    rw [hcnt] at hu hnalu
    obtain rfl := some.inj (hunitsLast.symm.trans hu)
    obtain rfl := some.inj (hNalsLast.symm.trans hnalu)
    obtain rfl := some.inj (hb'code.symm.trans hb₁)
    dsimp only
    omega
  · rw [NalStore.lastCode, hcnt, hunitsLast]
    rfl

/-! ## The splitter -/

theorem avs2FindStartCode_lt {buf : List UInt8} {pos : ℕ} (h : avs2FindStartCode buf = some pos) :
    3 ≤ pos ∧ pos < buf.length := by
  obtain ⟨i, hi, rfl⟩ := map_eq_some_iff.1 h
  have hprop := find?_some hi
  rw [decide_eq_true_eq] at hprop
  obtain ⟨-, hlt, hgt, -⟩ := hprop
  exact ⟨by omega, hlt⟩

/-- The data before a start code is stored for the entry of its code. -/
theorem storeBefore_spec (h : m.Stored) {data : List UInt8}
    (hok : isStartCode m.prevStartCode → m.prevStartCode ≠ userDataStartCode → data ≠ [] →
      StoreOk m) :
    ∃ m', m.storeBefore data = some m' ∧ m'.Core ∧ SameFlags m m' ∧ m'.nalCnt = m.nalCnt := by
  rw [NalStore.storeBefore]
  by_cases hstore : isStartCode m.prevStartCode ∧ m.prevStartCode ≠ userDataStartCode ∧ data ≠ []
  · rw [if_pos hstore]
    obtain ⟨hcode, huser, hne⟩ := hstore
    obtain ⟨hframe, hbuf⟩ := hok hcode huser hne
    obtain ⟨m', hm', hcore, hflags, hcnt, -⟩ :=
      storeNalu_spec h.toCore (h.last hframe hcode huser) hbuf data
    exact ⟨m', hm', hcore, hflags, hcnt⟩
  · rw [if_neg hstore]
    exact ⟨m, rfl, h.toCore, ⟨rfl, rfl, rfl⟩, rfl⟩

/-- The entry of a start code is the last one then, if it has one. -/
theorem beginNalu_stored (h : m.Core) (code : ℕ) (four : List UInt8) :
    ∃ m', m.beginNalu code four = some m' ∧ m'.Stored ∧ m'.newFrameFlag = m.newFrameFlag ∧
      m'.newSeqFlag = m.newSeqFlag := by
  rw [NalStore.beginNalu]
  by_cases huser : code = userDataStartCode
  · obtain ⟨hslice, hend⟩ : isSliceStartCode code = false ∧ code ≠ videoSequenceEndCode := by
      rw [huser]
      decide
    rw [if_neg (not_not.2 huser)]
    simp only [bind_eq_bind, bind_some, hslice, false_eq_true, if_false, hend]
    refine ⟨_, rfl, ⟨⟨h.alloc, h.count, h.fits, h.entry, h.ends⟩, ?_, ?_⟩, rfl, rfl⟩
    · exact fun _ _ hne => absurd huser hne
    · exact fun hs => absurd (hslice.symm.trans hs) false_ne_true
  · obtain ⟨m₁, hm₁, hcore, hflags, hpos, hlast⟩ := addNaluHeader_spec h code
    rw [if_pos huser, hm₁]
    simp only [bind_eq_bind, bind_some]
    obtain ⟨m₂, hm₂, hcore₂, hflags₂, hcnt₂, hlast₂⟩ : ∃ m₂,
        (if isSliceStartCode code then m₁.storeNalu four code
          else if code = videoSequenceEndCode then
            m₁.setLast fun nalu => { nalu with eof := true }
          else some m₁) = some m₂ ∧ m₂.Core ∧ SameFlags m₁ m₂ ∧ m₂.nalCnt = m₁.nalCnt ∧
          m₂.lastCode = some code := by
      split_ifs with hslice hend
      · exact storeNalu_spec hcore hlast (.inl hslice) four
      · obtain ⟨m₂, hm₂, hcore₂, hflags₂, hcnt₂, hlast₂⟩ := setLast_eof_spec hcore hpos
        exact ⟨m₂, hm₂, hcore₂, hflags₂, hcnt₂, hlast₂.trans hlast⟩
      · exact ⟨m₁, rfl, hcore, ⟨rfl, rfl, rfl⟩, rfl, hlast⟩
    rw [hm₂, bind_some]
    have hsame := hflags.trans hflags₂
    refine ⟨_, rfl, ⟨⟨hcore₂.alloc, hcore₂.count, hcore₂.fits, hcore₂.entry, hcore₂.ends⟩, ?_, ?_⟩,
      hsame.newFrameFlag, hsame.newSeqFlag⟩
    · exact fun _ _ _ => hlast₂
    · intro _
      dsimp only
      rw [hcnt₂]
      exact hpos

/-- A call of the splitter that is safe: it returns, and takes some of the bytes or completes a
    frame. -/
theorem avs2SplitNalu_spec (h : m.Stored) {buf : List UInt8} {overRead : ℕ} (hbuf : buf ≠ [])
    (hok : SplitOk m buf overRead) :
    ∃ m' remain, m.avs2SplitNalu buf overRead = some (m', remain) ∧ m'.Stored ∧
      (remain < buf.length ∨ m'.newFrameFlag) := by
  rw [NalStore.avs2SplitNalu]
  rw [SplitOk] at hok
  cases hfind : avs2FindStartCode buf with
  | none =>
    rw [hfind] at hok
    have hlength : 0 < buf.length := length_pos_iff.2 hbuf
    dsimp only
    by_cases hstore : m.newSeqFlag ∧ isStartCode m.prevStartCode ∧ buf.drop overRead ≠ []
    · obtain ⟨hseq, hcode, hne⟩ := hstore
      obtain ⟨huser, hframe, hkind⟩ := hok hseq hcode hne
      obtain ⟨m', hm', hcore, hflags, hcnt, hlast⟩ :=
        storeNalu_spec h.toCore (h.last hframe hcode huser) hkind (buf.drop overRead)
      rw [if_pos ⟨hseq, hcode, hne⟩, hm']
      refine ⟨m', 0, rfl, ⟨hcore, fun _ _ _ => ?_, fun hs => ?_⟩, .inl hlength⟩
      · rw [hlast, hflags.prevStartCode]
      · rw [hcnt]
        exact h.slice (hflags.prevStartCode ▸ hs)
    · rw [if_neg hstore]
      exact ⟨m, 0, rfl, h, .inl hlength⟩
  | some pos =>
    rw [hfind] at hok
    obtain ⟨hge, hlt⟩ := avs2FindStartCode_lt hfind
    have hleft : buf.length - 1 - pos < buf.length := by omega
    dsimp only
    rw [NalStore.splitAtCode]
    by_cases hseq : m.newSeqFlag
    swap
    · have hnot : (!m.newSeqFlag) = true := by
        rw [eq_false_iff.2 hseq]
        rfl
      rw [if_pos hnot]
      split_ifs with hfirst
      · -- the first sequence header: the entries of before are dropped
        obtain ⟨m₁, hm₁, hcore, hflags, hpos, hlast⟩ := addNaluHeader_spec
          (m := { m with nalCnt := 0, units := [] })
          ⟨Nat.zero_le _, rfl, h.fits, fun i u hu => absurd hu (by simp),
            fun u nalu b hu => absurd hu (by simp)⟩ (startCodeOf (buf.getD pos 0))
        rw [hm₁]
        refine ⟨_, _, rfl, ⟨⟨hcore.alloc, hcore.count, hcore.fits, hcore.entry, hcore.ends⟩,
          fun _ _ _ => ?_, fun _ => hpos⟩, .inl hleft⟩
        exact hlast
      · exact ⟨m, _, rfl, h, .inl hleft⟩
    · have hnot : ¬(!m.newSeqFlag) = true := fun hn => by
        rw [hseq] at hn
        exact false_ne_true hn
      rw [if_neg hnot]
      obtain ⟨m₁, hm₁, hcore, hflags, hcnt⟩ := storeBefore_spec h (hok hseq)
      rw [hm₁]
      simp only [bind_eq_bind, bind_some]
      by_cases hnew : (isSliceStartCode m₁.prevStartCode &&
          !isSliceStartCode (startCodeOf (buf.getD pos 0))) = true
      · rw [if_pos hnew]
        rw [and_eq_true, not_eq_true'] at hnew
        have hpos : 0 < m₁.nalCnt := by
          rw [hcnt]
          exact h.slice (hflags.prevStartCode ▸ hnew.1)
        obtain ⟨m₂, hm₂, hcore₂, -⟩ := setLast_eof_spec hcore hpos
        rw [hm₂, bind_some]
        refine ⟨_, _, rfl, ⟨⟨hcore₂.alloc, hcore₂.count, hcore₂.fits, hcore₂.entry, hcore₂.ends⟩,
          nofun, fun hs => ?_⟩, .inr rfl⟩
        exact absurd (hnew.2.symm.trans hs) false_ne_true
      · rw [if_neg hnew]
        obtain ⟨m₂, hm₂, hstored, -⟩ := beginNalu_stored hcore (startCodeOf (buf.getD pos 0))
          ((buf.drop (pos - 3)).take 4)
        rw [hm₂, bind_some]
        exact ⟨m₂, _, rfl, hstored, .inl hleft⟩

/-- A loop whose calls are safe comes to its end. -/
theorem prepareLoop_spec {ready : NalStore → List UInt8 → Bool}
    (hready : ∀ m rest, m.newFrameFlag = true → ready m rest = true) {fuel : ℕ}
    {rest : List UInt8} (hfuel : rest.length < fuel) (h : m.Stored) (hok : LoopOk ready fuel m rest)
    (remain : ℕ) : ∃ r, prepareLoop ready fuel m rest remain = some r ∧ r.1.Stored := by
  induction fuel generalizing m rest remain with
  | zero => exact absurd hfuel (Nat.not_lt_zero _)
  | succ fuel ih =>
    rw [prepareLoop]
    by_cases hlen : rest.length < 2
    · rw [if_pos hlen]
      exact ⟨_, rfl, h⟩
    rw [if_neg hlen]
    have hne : rest ≠ [] := fun h0 => hlen (by rw [h0]; decide)
    obtain ⟨hsplitOk, hnext⟩ := hok (not_lt.1 hlen)
    obtain ⟨m', left, hsplit, hstored, hprogress⟩ := avs2SplitNalu_spec h hne hsplitOk
    rw [hsplit] at hnext ⊢
    simp only [bind_eq_bind, bind_some]
    by_cases hr : ready m' (rest.drop (rest.length - left)) = true
    · rw [if_pos hr]
      exact ⟨_, rfl, hstored⟩
    · rw [if_neg hr]
      have hlt : left < rest.length := hprogress.resolve_right fun hf => hr (hready m' _ hf)
      exact ih (by rw [length_drop]; omega) hstored (hnext (eq_false_iff.2 hr)) left

theorem Stored.of_tail (h : m.Stored) (tail : List UInt8) :
    NalStore.Stored { m with prevTailData := tail } :=
  ⟨⟨h.alloc, h.count, h.fits, h.entry, h.ends⟩, h.last, h.slice⟩

/-- Without entries there is nothing to describe. -/
theorem stored_of_empty (hcnt : m.nalCnt = 0) (hunits : m.units = []) (hprev : m.prevStartCode = 0)
    (hfits : m.header.len ≤ m.header.size ∧ m.stream.len ≤ m.stream.size) : m.Stored := by
  have hnone : ∀ (i : ℕ) u, m.units[i]? ≠ some u := by
    intro i u
    rw [hunits, getElem?_nil]
    exact nofun
  refine ⟨⟨?_, ?_, hfits, fun i u hu => absurd hu (hnone i u),
    fun u nalu b hu => absurd hu (hnone _ u)⟩, fun _ hcode => ?_, fun hs => ?_⟩
  · rw [hcnt]
    exact Nat.zero_le _
  · rw [hunits, hcnt, length_nil]
  · rw [hprev] at hcode
    exact absurd hcode (by decide)
  · rw [hprev] at hs
    exact absurd hs (by decide)

theorem checkerBuffer_ne_nil (m : NalStore) (p : NalPacket) : checkerBuffer m p ≠ [] := by
  intro h
  obtain ⟨h, -⟩ := append_eq_nil_iff.1 h
  obtain ⟨-, h⟩ := append_eq_nil_iff.1 h
  have hlt := p.pos_lt
  have hlength := congrArg List.length h
  rw [length_take, NalPacket.data, length_drop, length_nil] at hlength
  omega

/-- What is prepared is stored, and the call comes to its end. -/
theorem prepared_spec {splitParse : Bool} (h : m.Stored) {p : NalPacket}
    (hok : PrepareOk splitParse m p) :
    ∃ r, prepared splitParse m p = some r ∧ r.1.Stored := by
  obtain ⟨hcalls, -⟩ := hok
  rw [prepared]
  rw [CallsOk] at hcalls
  cases splitParse with
  | false =>
    rw [if_neg Bool.false_ne_true] at hcalls ⊢
    obtain ⟨⟨m', rest, remain, valid⟩, hloop, hstored⟩ := prepareLoop_spec
      (fun m rest hf => by rw [readyFast, hf]; rfl) (Nat.lt_succ_self _) h hcalls 0
    rw [avs2dParsePrepareFast, hloop]
    exact ⟨_, rfl, hstored⟩
  | true =>
    rw [if_pos rfl] at hcalls ⊢
    obtain ⟨hsplitOk, hnext⟩ := hcalls
    obtain ⟨m₁, remain₁, hsplit, hstored₁, -⟩ :=
      avs2SplitNalu_spec h (checkerBuffer_ne_nil m p) hsplitOk
    have hfuel : (p.from remain₁).length < p.mem.length + 1 := by
      rw [NalPacket.from, length_drop]
      omega
    rw [hsplit] at hnext
    obtain ⟨⟨m', rest, remain, valid⟩, hloop, hstored⟩ := prepareLoop_spec
      (fun m rest hf => by rw [readySplit, hf]; rfl) hfuel hstored₁ hnext 0
    rw [avs2dPrepareSplit, hsplit]
    simp only [bind_eq_bind, bind_some]
    rw [hloop, bind_some]
    exact ⟨_, rfl, Stored.of_tail hstored _⟩

/-- What is prepared is described by the entries, also when there are zeros behind the slices. -/
theorem avs2dPrepare_spec {splitParse : Bool} (h : m.Stored) {p : NalPacket}
    (hok : PrepareOk splitParse m p) :
    ∃ r, avs2dPrepare splitParse m p = some r ∧ r.1.Describes ∧ (r.2 = false → r.1.Stored) := by
  obtain ⟨⟨m', valid⟩, hprepared, hstored⟩ := prepared_spec h hok
  rw [avs2dPrepare, hprepared]
  simp only [bind_eq_bind, bind_some]
  cases valid with
  | false => exact ⟨_, rfl, hstored.describes, fun _ => hstored⟩
  | true =>
    rw [Bool.not_true, if_neg Bool.false_ne_true]
    have hfits : paddedLen m' ≤ m'.stream.size := by
      have hpad := hok.2
      rw [hprepared] at hpad
      exact hpad rfl
    have hpadded : m'.stream.len ≤ paddedLen m' := by
      rw [paddedLen]
      omega
    have hlen : m'.stream.len + (List.replicate (paddedLen m' - m'.stream.len) (0 : UInt8)).length ≤
        m'.stream.size := by
      rw [length_replicate]
      omega
    rw [Avs2dStreamBuf.write, if_pos hlen]
    refine ⟨_, rfl, ⟨hstored.count, fun i u hu => ?_⟩, nofun⟩
    obtain ⟨nalu, hnalu, hheader, hlength, hview⟩ := hstored.entry i u hu
    refine ⟨nalu, hnalu, hheader, hlength, fun hne => ?_⟩
    obtain ⟨b, hb, hle, hread⟩ := hview hne
    have hsize := hstored.bufOf_fits hb
    rw [NalStore.bufOf] at hb ⊢
    split_ifs at hb ⊢
    · obtain rfl := some.inj hb
      refine ⟨_, rfl, hle.trans hsize, ?_⟩
      rw [← hread]
      exact AppendBuffer.read_append_of_le hle
    · obtain rfl := some.inj hb
      exact ⟨_, rfl, hle.trans hsize, hread⟩

/-! ## Runs -/

/-- A step from a state between the calls is safe. -/
def StepOk (splitParse : Bool) (m : NalStore) : NalOp → Prop
  | .prepare p => PrepareOk splitParse m p
  | .reset => True

theorem stored_of_reachable {splitParse : Bool}
    (h : ((nalMachine splitParse).guarded fun m op _ => StepOk splitParse m op).Reachable m) :
    m.Stored := by
  refine h.invariant ?_ ?_
  · rintro _ rfl
    exact stored_of_empty rfl rfl rfl ⟨Nat.zero_le _, Nat.zero_le _⟩
  · rintro m op m' - hm ⟨hstep, hok⟩
    cases op with
    | reset =>
      rw [show m' = _ from hstep]
      exact stored_of_empty rfl rfl rfl ⟨Nat.zero_le _, Nat.zero_le _⟩
    | prepare p =>
      obtain ⟨r, hr, rfl⟩ := hstep
      obtain ⟨r', hr', -, hstored⟩ := avs2dPrepare_spec hm hok
      obtain rfl := some.inj (hr.symm.trans hr')
      cases hvalid : r.2 with
      | false => exact hstored hvalid
      | true => exact stored_of_empty rfl rfl rfl ⟨Nat.zero_le _, Nat.zero_le _⟩

/-- In every state of a run whose calls are safe, a call that is safe comes to its end, writes
    only to entries and buffers that are there, and leaves entries that describe what was stored
    for them. -/
theorem avs2dPrepare_stores (splitParse : Bool) (m : NalStore)
    (h : ((nalMachine splitParse).guarded fun m op _ => StepOk splitParse m op).Reachable m)
    (p : NalPacket) (hok : PrepareOk splitParse m p) :
    ∃ r, avs2dPrepare splitParse m p = some r ∧ r.1.Describes := by
  obtain ⟨r, hr, hdescribes, -⟩ := avs2dPrepare_spec (stored_of_reachable h) hok
  exact ⟨r, hr, hdescribes⟩

/-- A packet behind seven other bytes. -/
def packetOf (data : List UInt8) (h : data ≠ []) : NalPacket where
  mem := List.replicate 7 0xff ++ data
  pos := 7
  pos_le := le_rfl
  pos_lt := by
    rw [List.length_append, List.length_replicate]
    exact Nat.lt_add_of_pos_right (List.length_pos_iff.2 h)

/-- A sequence header, a picture header and a slice, a byte of each. -/
def pictureData : List UInt8 := [0, 0, 1, 0xb0, 0x12, 0, 0, 1, 0xb3, 0x34, 0, 0, 1, 0, 0x56]

/-- The first picture of a stream. -/
theorem avs2dPrepare_stores_picture : ∃ r,
    avs2dPrepare false avs2dInit (packetOf pictureData nofun) = some r ∧ r.1.Describes := by
  have hcalls : LoopOk readyFast 16 avs2dInit pictureData := by decide +kernel
  have hpad : (prepareLoop readyFast 16 avs2dInit pictureData 0).elim True fun r =>
      r.2.2.2 = true → paddedLen r.1 ≤ r.1.stream.size := by decide +kernel
  refine avs2dPrepare_stores false avs2dInit (.init rfl) _ ⟨hcalls, ?_⟩
  have hprepared : prepared false avs2dInit (packetOf pictureData nofun) =
      (prepareLoop readyFast 16 avs2dInit pictureData 0).map fun r => (r.1, r.2.2.2) := rfl
  rw [hprepared]
  cases hloop : prepareLoop readyFast 16 avs2dInit pictureData 0 with
  | none => trivial
  | some r =>
    rw [hloop] at hpad
    exact hpad

/-- A sequence header alone. -/
def sequenceData : List UInt8 := [0, 0, 1, 0xb0, 0x12]

/-- User data. -/
def userData : List UInt8 := [0, 0, 1, 0xb2, 0x41, 0x42]

/-- The user data of a packet without another start code is stored for an entry that is not
    there. -/
theorem avs2dPrepare_not_stores : ¬∀ splitParse m, (nalMachine splitParse).Reachable m →
    ∀ p, ∃ r, avs2dPrepare splitParse m p = some r ∧ r.1.Describes := by
  intro h
  have hall : (avs2dPrepare false avs2dInit (packetOf sequenceData nofun)).elim True fun r =>
      (avs2dPrepare false (if r.2 then r.1.resetNaluBuf else r.1)
        (packetOf userData nofun)).isNone := by decide +kernel
  obtain ⟨r, hr, -⟩ := h false avs2dInit (.init rfl) (packetOf sequenceData nofun)
  rw [hr] at hall
  have hstep : (nalMachine false).step avs2dInit (.prepare (packetOf sequenceData nofun))
      (if r.2 then r.1.resetNaluBuf else r.1) := ⟨r, hr, rfl⟩
  obtain ⟨r', hr', -⟩ := h false _ (.step (.init rfl) hstep) (packetOf userData nofun)
  have hnone : (avs2dPrepare false (if r.2 then r.1.resetNaluBuf else r.1)
      (packetOf userData nofun)).isNone := hall
  rw [hr'] at hnone
  exact false_ne_true hnone

end Libmpp.Avs2d
