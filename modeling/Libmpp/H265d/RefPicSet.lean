import Libmpp.H265d.Parser

/-!
# The reference picture set of the H.265 decoder

What the reference picture set is (`DerivesRps`, after 8.3.2), in terms of the entries that
the slice header stands for (`wants`), and when the decoder derives it.

An entry stands for a picture with a full order count, or for one with the low bits of
it when the header does not have the others. The decoder compares low bits in both
cases, so it may take a picture that is not meant. The *places* of the buffer
(`Places`) are what matters for that: `Derivable` says, entry by entry, that the place
that is meant comes first.

* `Places.Derivable` is the condition on the entries and the places;
* `addCandidates_iff` connects it with the loops of the decoder.
-/

namespace Libmpp.H265d

open Bool Function List Option

/-- What an entry of the set stands for: a picture with the order count `poc`, or with the
    low bits `poc` when the full order count is not known, for one of the lists. -/
structure Want where
  list : RPSType
  poc : ℤ
  full : Bool
deriving DecidableEq

/-- The order count is one that the entry stands for. -/
def Want.matches (w : Want) (maxPocLsb poc : ℤ) : Bool :=
  if w.full then poc = w.poc else poc % maxPocLsb = w.poc

/-- The short-term pictures of the set. -/
def shortWants (poc : ℤ) (rps : ShortTermRPS) : List Want :=
  rps.deltaPocs.zipIdx.map fun ((delta, used), i) =>
    { list := if !used then .stFoll else if i < rps.numNegativePics then .stCurrBef else .stCurrAft
      poc := poc + delta
      full := true }

/-- The long-term pictures of the set, with `DeltaPocMsbCycleLt` after (7-52). -/
def longWantsFrom (base maxPocLsb : ℤ) (nbSps : ℕ) : ℕ → ℤ → List CodedLongTerm → List Want
  | _, _, [] => []
  | i, prevDelta, e :: es =>
    let delta : ℤ := (e.deltaPocMsbCycle.getD 0 : ℕ) + if i = 0 ∨ i = nbSps then 0 else prevDelta
    { list := if e.used then .ltCurr else .ltFoll
      poc := if e.deltaPocMsbCycle.isSome then e.pocLsb + (base - delta * maxPocLsb) else e.pocLsb
      full := e.deltaPocMsbCycle.isSome } ::
      longWantsFrom base maxPocLsb nbSps (i + 1) delta es

/-- The long-term pictures that the slice header stands for. -/
def longWants (sps : HEVCSPS) (poc picOrderCntLsb : ℤ) (c : CodedLtRps) : List Want :=
  if sps.longTermRefPics.isNone then []
  else longWantsFrom (poc - picOrderCntLsb) (2 ^ sps.log2MaxPocLsb) c.sps.length 0 0 (c.entries sps)

/-- The pictures that the header of the slice stands for, `s` being the context with
    the header. An IDR picture has none. -/
def wants (n : SliceNal) (s : HEVCContext) : List Want :=
  match s.shortTermRps, s.sps with
  | some rps, some sps =>
    shortWants s.poc rps ++ longWants sps s.poc n.picOrderCntLsb n.longTermRps
  | _, _ => []

/-! ### Places -/

/-- A place of the buffer: it holds nothing, a picture of another sequence, or a frame of
    the current sequence, which is a picture or was made up for a missing one. -/
inductive Place
  | free
  | elsewhere
  | frame (poc : ℤ) (missing : Bool)
deriving DecidableEq

/-- The order count of the picture in a place. -/
def Place.picture : Place → Option ℤ
  | .frame poc false => some poc
  | _ => none

/-- The order count of the frame in a place. -/
def Place.poc : Place → Option ℤ
  | .frame poc _ => some poc
  | _ => none

/-- The places of the buffer, in the order in which they are searched. -/
abbrev Places := Fin maxDpbSize → Place

namespace Places

variable (P : Places) (maxPocLsb : ℤ)

/-- There is a picture that the entry stands for. -/
def hasPicture (w : Want) : Bool := decide (∃ i, (P i).picture.any (w.matches maxPocLsb))

/-- The place holds what the entry stands for: the picture, or, when there is none, the
    frame that was made up for it. -/
def holds (w : Want) (i : Fin maxDpbSize) : Bool :=
  match P i with
  | .frame poc false => w.matches maxPocLsb poc
  | .frame poc true => poc = w.poc && !P.hasPicture maxPocLsb w
  | _ => false

/-- The place holds a frame with the low bits `lsb`. -/
def hasLsb (lsb : ℤ) (i : Fin maxDpbSize) : Bool :=
  (P i).poc.any fun poc => poc % maxPocLsb = lsb

/-- Looking for `poc` gets to what the entry stands for: no other frame with these low
    bits comes before it, and `poc` is its order count or its low bits. -/
def Leads (poc : ℤ) (w : Want) : Prop :=
  (∀ i, P.hasLsb maxPocLsb poc i → ∃ j ≤ i, P.holds maxPocLsb w j) ∧
    (poc = w.poc ∨ ∃ j, P.holds maxPocLsb w j ∧ P.hasLsb maxPocLsb poc j)

/-- The place where what the entry stands for is found. -/
@[irreducible] def firstHolding (w : Want) : Option (Fin maxDpbSize) :=
  Fin.find? (P.holds maxPocLsb w)

/-- The place of the next frame that is made up. -/
@[irreducible] def firstFree : Option (Fin maxDpbSize) := Fin.find? fun i => P i = .free

theorem holds_first {P : Places} {maxPocLsb : ℤ} {w : Want} {i : Fin maxDpbSize}
    (h : P.firstHolding maxPocLsb w = some i) : P.holds maxPocLsb w i := by
  unfold firstHolding at h
  exact (Fin.find?_eq_some_iff.1 h).1

theorem not_holds {P : Places} {maxPocLsb : ℤ} {w : Want}
    (h : P.firstHolding maxPocLsb w = none) (i : Fin maxDpbSize) : ¬ P.holds maxPocLsb w i := by
  unfold firstHolding at h
  rw [Fin.find?_eq_none_iff.1 h i]
  exact false_ne_true

/-- The entries, each looked up by an order count, lead to what they stand for, in no
    place that another list has (`taken`), and there is room for those that are missing. -/
def Derivable : Places → (RPSType → Fin maxDpbSize → Bool) → List (ℤ × Want) → Prop
  | _, _, [] => True
  | P, taken, (poc, w) :: es =>
    let take := fun i l j => taken l j || (l = w.list && j = i)
    P.Leads maxPocLsb poc w ∧
      match P.firstHolding maxPocLsb w with
      | some i => (∀ l, taken l i → l = w.list) ∧ Derivable P (take i) es
      | none =>
        match P.firstFree with
        | some i => Derivable (Function.update P i (.frame w.poc true)) (take i) es
        | none => False

end Places

/-! ### The places of the decoder's buffer -/

/-- The places of the buffer in `s`, `s₀` being the context before frames were made up. -/
def placesOf (s₀ s : HEVCContext) : Places := fun i =>
  if (s.dpb i).slotIndex.isNone then .free
  else if s.inSequence i then .frame (s.dpb i).poc (s₀.dpb i).slotIndex.isNone
  else .elsewhere

/-- The list has an entry for the frame. -/
def takenOf (s : HEVCContext) (l : RPSType) (i : Fin maxDpbSize) : Bool :=
  (s.rps l).any (·.ref = i)

/-- The frames of the current sequence have different order counts. -/
def HEVCContext.DistinctPocs (s : HEVCContext) : Prop :=
  ∀ i j, s.inSequence i → s.inSequence j → (s.dpb i).poc = (s.dpb j).poc → i = j

/-- The entry `e` of a list, in `s`, is what `w` stands for in `s₀`. -/
structure Resolves (s₀ s : HEVCContext) (w : Want) (e : RefPic) : Prop where
  /-- There is such a picture, and the entry is one. -/
  found : (∃ i, s₀.inSequence i ∧ w.matches s₀.maxPocLsb (s₀.dpb i).poc) →
    s₀.inSequence e.ref ∧ w.matches s₀.maxPocLsb (s₀.dpb e.ref).poc ∧
      e.poc = (s₀.dpb e.ref).poc
  /-- There is none, and the entry is a new frame with the order count that is meant. -/
  missing : (¬ ∃ i, s₀.inSequence i ∧ w.matches s₀.maxPocLsb (s₀.dpb i).poc) →
    (s₀.dpb e.ref).slotIndex = none ∧ e.poc = w.poc ∧
      s.inSequence e.ref ∧ (s.dpb e.ref).poc = w.poc ∧ (s.dpb e.ref).errorFlag

/-- What stays the same of a frame when it becomes a reference. -/
structure SameFrame (f f' : HEVCFrame) : Prop where
  slotIndex : f'.slotIndex = f.slotIndex
  poc : f'.poc = f.poc
  sequence : f'.sequence = f.sequence
  output : f'.flags.output = f.flags.output
  errorFlag : f'.errorFlag = f.errorFlag

theorem SameFrame.refl (f : HEVCFrame) : SameFrame f f := ⟨rfl, rfl, rfl, rfl, rfl⟩

theorem SameFrame.trans {f g h : HEVCFrame} (h₁ : SameFrame f g) (h₂ : SameFrame g h) :
    SameFrame f h where
  slotIndex := h₂.slotIndex.trans h₁.slotIndex
  poc := h₂.poc.trans h₁.poc
  sequence := h₂.sequence.trans h₁.sequence
  output := h₂.output.trans h₁.output
  errorFlag := h₂.errorFlag.trans h₁.errorFlag

theorem sameFrame_markRef (f : HEVCFrame) (flag : FrameFlags) : SameFrame f (markRef f flag) :=
  ⟨rfl, rfl, rfl, rfl, rfl⟩

/-- A context in which some entries were added to the set of `s₀`. -/
structure Adding (s₀ s : HEVCContext) : Prop where
  seqDecode : s.seqDecode = s₀.seqDecode
  sps : s.sps = s₀.sps
  old : ∀ i, (s₀.dpb i).slotIndex.isSome → SameFrame (s₀.dpb i) (s.dpb i)
  made : ∀ i, (s₀.dpb i).slotIndex = none → (s.dpb i).slotIndex.isSome →
    s.inSequence i ∧ (s.dpb i).errorFlag
  distinct : s.DistinctPocs
  entries : ∀ l, ∀ e ∈ s.rps l, s.inSequence e.ref
  unmarked : ∀ i, (∀ l, takenOf s l i = false) → (s.dpb i).flags.isRef = false

namespace Adding

variable {s₀ s : HEVCContext}

theorem maxPocLsb (h : Adding s₀ s) : s.maxPocLsb = s₀.maxPocLsb := by
  rw [HEVCContext.maxPocLsb, h.sps]
  rfl

/-- The frames of the sequence that were there before. -/
theorem inSequence_old (h : Adding s₀ s) {i : Fin maxDpbSize}
    (hi : (s₀.dpb i).slotIndex.isSome) : s.inSequence i = s₀.inSequence i := by
  rw [HEVCContext.inSequence, HEVCContext.inSequence, (h.old i hi).slotIndex,
    (h.old i hi).sequence, h.seqDecode]

end Adding

section PlacesOf

variable {s₀ s : HEVCContext} {i : Fin maxDpbSize}

theorem isSome_of_inSequence (h : s.inSequence i) : (s.dpb i).slotIndex.isSome := by
  rw [HEVCContext.inSequence, and_eq_true] at h
  exact h.1

theorem placesOf_eq_frame {poc : ℤ} {missing : Bool} :
    placesOf s₀ s i = .frame poc missing ↔
      s.inSequence i ∧ (s.dpb i).poc = poc ∧ (s₀.dpb i).slotIndex.isNone = missing := by
  unfold placesOf
  split_ifs with h₁ h₂
  · have h : ¬ s.inSequence i := fun h => by
      simpa [isNone_iff_eq_none.1 h₁] using isSome_of_inSequence h
    simp [h]
  · simp [h₂]
  · simp [h₂]

theorem placesOf_eq_free : placesOf s₀ s i = .free ↔ (s.dpb i).slotIndex.isNone := by
  unfold placesOf
  split_ifs with h₁ h₂ <;> simp [h₁]

theorem placesOf_of_inSequence (h : s.inSequence i) :
    placesOf s₀ s i = .frame (s.dpb i).poc (s₀.dpb i).slotIndex.isNone :=
  placesOf_eq_frame.2 ⟨h, rfl, rfl⟩

theorem hasLsb_placesOf {lsb m : ℤ} :
    (placesOf s₀ s).hasLsb m lsb i ↔ s.inSequence i ∧ (s.dpb i).poc % m = lsb := by
  by_cases h : s.inSequence i
  · simp [Places.hasLsb, placesOf_of_inSequence h, Place.poc, h]
  · cases hP : placesOf s₀ s i with
    | frame poc missing => exact absurd (placesOf_eq_frame.1 hP).1 h
    | free | elsewhere => simp [Places.hasLsb, hP, Place.poc, h]

/-- A picture of the sequence, among the places. -/
theorem picture_placesOf {p : ℤ → Bool} :
    (placesOf s₀ s i).picture.any p ↔
      s.inSequence i ∧ (s₀.dpb i).slotIndex.isSome ∧ p (s.dpb i).poc := by
  by_cases h : s.inSequence i
  · rw [placesOf_of_inSequence h]
    cases (s₀.dpb i).slotIndex <;> simp [Place.picture, h]
  · cases hP : placesOf s₀ s i with
    | frame poc missing => exact absurd (placesOf_eq_frame.1 hP).1 h
    | free | elsewhere => simp [Place.picture, h]

end PlacesOf

namespace Adding

variable {s₀ s : HEVCContext} {w : Want} {i : Fin maxDpbSize}

/-- The pictures that an entry stands for were there before. -/
theorem hasPicture_iff (h : Adding s₀ s) :
    (placesOf s₀ s).hasPicture s₀.maxPocLsb w ↔
      ∃ i, s₀.inSequence i ∧ w.matches s₀.maxPocLsb (s₀.dpb i).poc := by
  simp only [Places.hasPicture, decide_eq_true_eq, picture_placesOf]
  refine exists_congr fun i => ?_
  constructor
  · rintro ⟨hi, hold, hm⟩
    rw [h.inSequence_old hold] at hi
    rw [(h.old i hold).poc] at hm
    exact ⟨hi, hm⟩
  · rintro ⟨hi, hm⟩
    have hold := isSome_of_inSequence hi
    rw [← (h.old i hold).poc] at hm
    exact ⟨(h.inSequence_old hold).trans hi, hold, hm⟩

/-- What an entry stands for, among the frames of the context. -/
theorem holds_iff (h : Adding s₀ s) :
    (placesOf s₀ s).holds s₀.maxPocLsb w i ↔
      (s₀.inSequence i ∧ w.matches s₀.maxPocLsb (s₀.dpb i).poc) ∨
        ((s₀.dpb i).slotIndex = none ∧ s.inSequence i ∧ (s.dpb i).poc = w.poc ∧
          ¬ ∃ i, s₀.inSequence i ∧ w.matches s₀.maxPocLsb (s₀.dpb i).poc) := by
  rw [← h.hasPicture_iff]
  by_cases hi : s.inSequence i
  · rw [Places.holds, placesOf_of_inSequence hi]
    cases hs : (s₀.dpb i).slotIndex with
    | none =>
      have hno : s₀.inSequence i = false := by simp [HEVCContext.inSequence, hs]
      simp [hi, hno]
    | some slot =>
      have hold : (s₀.dpb i).slotIndex.isSome := by simp [hs]
      simp [← h.inSequence_old hold, hi, (h.old i hold).poc]
  · have hno : ¬ s₀.inSequence i := fun h₀ =>
      hi ((h.inSequence_old (isSome_of_inSequence h₀)).trans h₀)
    cases hP : placesOf s₀ s i with
    | frame poc missing => exact absurd (placesOf_eq_frame.1 hP).1 hi
    | free | elsewhere => simp [Places.holds, hP, hi, hno]

end Adding

/-! ### Looking up an entry -/

/-- The frame has the low bits `lsb`. -/
def HEVCContext.HasLsb (s : HEVCContext) (lsb : ℤ) (i : Fin maxDpbSize) : Prop :=
  s.inSequence i ∧ (s.dpb i).poc % s.maxPocLsb = lsb

section FindRefIdx

variable {s : HEVCContext} {poc : ℤ} {i : Fin maxDpbSize}

/-- The first frame with the low bits is found. -/
theorem findRefIdx_of_hasLsb (hi : s.HasLsb poc i) (hfirst : ∀ j < i, ¬ s.HasLsb poc j) :
    findRefIdx s poc = some i := by
  have h : Fin.find? (fun i => s.inSequence i && (s.dpb i).poc % s.maxPocLsb = poc) = some i := by
    refine Fin.find?_eq_some_iff.2 ⟨by simpa [HEVCContext.HasLsb] using hi, fun j hj => ?_⟩
    simpa [HEVCContext.HasLsb] using hfirst j hj
  rw [findRefIdx, h]
  rfl

/-- When no frame has the low bits, the frame with the order count is found. -/
theorem findRefIdx_of_no_lsb (h : ∀ j, ¬ s.HasLsb poc j) :
    findRefIdx s poc = Fin.find? fun i => s.inSequence i && decide ((s.dpb i).poc = poc) := by
  have hnone : Fin.find? (fun i => s.inSequence i && (s.dpb i).poc % s.maxPocLsb = poc) = none := by
    refine Fin.find?_eq_none_iff.2 fun j => ?_
    simpa [HEVCContext.HasLsb] using h j
  rw [findRefIdx, hnone, none_or]
  congr 1
  funext j
  have hj := h j
  by_cases hseq : s.inSequence j
  · have hlsb : ¬ (s.dpb j).poc % s.maxPocLsb = poc := fun e => hj ⟨hseq, e⟩
    simp [hlsb]
  · simp [hseq]

/-- The first frame with the low bits, when there is one. -/
theorem exists_first_hasLsb (h : ∃ j, s.HasLsb poc j) :
    ∃ i, s.HasLsb poc i ∧ ∀ j < i, ¬ s.HasLsb poc j := by
  classical
  obtain ⟨j, hj⟩ := h
  have hsome : (Fin.find? fun i => decide (s.HasLsb poc i)).isSome :=
    Fin.isSome_find?_iff.2 ⟨j, by simpa using hj⟩
  obtain ⟨i, hi⟩ := isSome_iff_exists.1 hsome
  obtain ⟨h₁, h₂⟩ := Fin.find?_eq_some_iff.1 hi
  exact ⟨i, by simpa using h₁, fun j hj => by simpa using h₂ j hj⟩

/-- What is found is in the sequence, and has the low bits or the order count. -/
theorem findRefIdx_spec (h : findRefIdx s poc = some i) :
    (s.HasLsb poc i ∧ ∀ j < i, ¬ s.HasLsb poc j) ∨
      ((∀ j, ¬ s.HasLsb poc j) ∧ s.inSequence i ∧ (s.dpb i).poc = poc) := by
  by_cases hex : ∃ j, s.HasLsb poc j
  · obtain ⟨k, hk, hfirst⟩ := exists_first_hasLsb hex
    rw [findRefIdx_of_hasLsb hk hfirst, some.injEq] at h
    subst h
    exact .inl ⟨hk, hfirst⟩
  · have hno : ∀ j, ¬ s.HasLsb poc j := fun j hj => hex ⟨j, hj⟩
    rw [findRefIdx_of_no_lsb hno] at h
    have h := (Fin.find?_eq_some_iff.1 h).1
    rw [and_eq_true, decide_eq_true_eq] at h
    exact .inr ⟨hno, h⟩

theorem inSequence_of_findRefIdx (h : findRefIdx s poc = some i) : s.inSequence i := by
  rcases findRefIdx_spec h with h | h
  · exact h.1.1
  · exact h.2.1

/-- When nothing is found, no frame has the low bits or the order count. -/
theorem findRefIdx_none (h : findRefIdx s poc = none) (j : Fin maxDpbSize) :
    ¬ s.HasLsb poc j ∧ ¬ (s.inSequence j ∧ (s.dpb j).poc = poc) := by
  have hno : ∀ j, ¬ s.HasLsb poc j := fun j hj => by
    obtain ⟨k, hk, hfirst⟩ := exists_first_hasLsb ⟨j, hj⟩
    rw [findRefIdx_of_hasLsb hk hfirst] at h
    cases h
  rw [findRefIdx_of_no_lsb hno] at h
  have h := Fin.find?_eq_none_iff.1 h j
  exact ⟨hno j, by simpa using h⟩

end FindRefIdx

/-- The entry of the set that the candidate is made of. -/
structure Aligned (maxPocLsb : ℤ) (c : Candidate) (w : Want) : Prop where
  list : c.list = w.list
  flag : c.refFlag.isRef
  full : w.full → c.poc % maxPocLsb = w.poc % maxPocLsb
  lsb : ¬ w.full → c.poc = w.poc ∧ w.poc % maxPocLsb = w.poc

namespace Adding

variable {s₀ s : HEVCContext} {c : Candidate} {w : Want} {i : Fin maxDpbSize}

/-- A frame that is meant has the low bits that are looked up, if any frame has. -/
theorem hasLsb_of_holds (h : Adding s₀ s) (ha : Aligned s₀.maxPocLsb c w)
    (hi : (placesOf s₀ s).holds s₀.maxPocLsb w i) {j : Fin maxDpbSize}
    (hj : s.HasLsb c.poc j) : s.HasLsb c.poc i := by
  have hlow : c.poc % s₀.maxPocLsb = c.poc := by
    rw [← hj.2, h.maxPocLsb, Int.emod_emod_of_dvd _ dvd_rfl]
  rcases h.holds_iff.1 hi with ⟨hseq, hm⟩ | ⟨-, hseq, hpoc, -⟩
  · have hold := isSome_of_inSequence hseq
    refine ⟨(h.inSequence_old hold).trans hseq, ?_⟩
    rw [h.maxPocLsb, (h.old i hold).poc]
    by_cases hfull : w.full
    · simp only [Want.matches, hfull, if_true, decide_eq_true_eq] at hm
      rw [hm, ← ha.full hfull, hlow]
    · simp only [Want.matches, hfull] at hm
      rw [(ha.lsb hfull).1]
      simpa using hm
  · refine ⟨hseq, ?_⟩
    rw [h.maxPocLsb, hpoc]
    by_cases hfull : w.full
    · rw [← ha.full hfull, hlow]
    · rw [(ha.lsb hfull).2, (ha.lsb hfull).1]

/-- A frame that is meant by an entry that no frame has the low bits of has its order
    count. -/
theorem poc_of_holds (h : Adding s₀ s) (ha : Aligned s₀.maxPocLsb c w)
    (hno : ∀ j, ¬ s.HasLsb c.poc j) (hi : (placesOf s₀ s).holds s₀.maxPocLsb w i) :
    s.inSequence i ∧ (s.dpb i).poc = w.poc := by
  rcases h.holds_iff.1 hi with ⟨hseq, hm⟩ | ⟨-, hseq, hpoc, -⟩
  · have hold := isSome_of_inSequence hseq
    have hin : s.inSequence i := (h.inSequence_old hold).trans hseq
    by_cases hfull : w.full
    · simp only [Want.matches, hfull, if_true, decide_eq_true_eq] at hm
      exact ⟨hin, (h.old i hold).poc.trans hm⟩
    · simp only [Want.matches, hfull] at hm
      refine absurd ⟨hin, ?_⟩ (hno i)
      rw [h.maxPocLsb, (h.old i hold).poc, (ha.lsb hfull).1]
      simpa using hm
  · exact ⟨hseq, hpoc⟩

/-- A frame with the order count of an entry is meant, unless only low bits are. -/
theorem holds_of_poc (h : Adding s₀ s) (ha : Aligned s₀.maxPocLsb c w)
    (hno : ∀ j, ¬ s.HasLsb c.poc j) (hpoc : c.poc = w.poc) (hi : s.inSequence i)
    (hi' : (s.dpb i).poc = w.poc) : (placesOf s₀ s).holds s₀.maxPocLsb w i := by
  have hfull : w.full := by
    by_contra hfull
    refine hno i ⟨hi, ?_⟩
    rw [h.maxPocLsb, hi', hpoc]
    exact (ha.lsb hfull).2
  rw [h.holds_iff]
  by_cases hold : (s₀.dpb i).slotIndex.isSome
  · refine .inl ⟨(h.inSequence_old hold).symm.trans hi, ?_⟩
    simp [Want.matches, hfull, ← (h.old i hold).poc, hi']
  · refine .inr ⟨by simpa using hold, hi, hi', ?_⟩
    rintro ⟨j, hj, hm⟩
    -- Two frames of the sequence would have the same order count.
    have hjold := isSome_of_inSequence hj
    simp only [Want.matches, hfull, if_true, decide_eq_true_eq] at hm
    have hij : i = j := h.distinct i j hi ((h.inSequence_old hjold).trans hj)
      (by rw [hi', (h.old j hjold).poc, hm])
    exact hold (hij ▸ hjold)

/-- An entry that leads to what it stands for is looked up right. -/
theorem findRefIdx_eq (h : Adding s₀ s) (ha : Aligned s₀.maxPocLsb c w)
    (hl : (placesOf s₀ s).Leads s₀.maxPocLsb c.poc w) :
    findRefIdx s c.poc = (placesOf s₀ s).firstHolding s₀.maxPocLsb w := by
  unfold Places.firstHolding
  have hlsb : ∀ j, (placesOf s₀ s).hasLsb s₀.maxPocLsb c.poc j ↔ s.HasLsb c.poc j := fun j => by
    rw [hasLsb_placesOf, HEVCContext.HasLsb, h.maxPocLsb]
  by_cases hex : ∃ j, s.HasLsb c.poc j
  · obtain ⟨i, hi, hfirst⟩ := exists_first_hasLsb hex
    rw [findRefIdx_of_hasLsb hi hfirst]
    obtain ⟨j, hji, hj⟩ := hl.1 i ((hlsb i).2 hi)
    have hij : j = i := by
      refine hji.eq_of_not_lt fun hlt => ?_
      exact hfirst j hlt (h.hasLsb_of_holds ha hj hi)
    refine (Fin.find?_eq_some_iff.2 ⟨hij ▸ hj, fun k hk => ?_⟩).symm
    rw [← not_eq_true]
    exact fun hk' => hfirst k hk (h.hasLsb_of_holds ha hk' hi)
  · have hno : ∀ j, ¬ s.HasLsb c.poc j := fun j hj => hex ⟨j, hj⟩
    have hpoc : c.poc = w.poc := by
      rcases hl.2 with hpoc | ⟨j, -, hj⟩
      · exact hpoc
      · exact absurd ((hlsb j).1 hj) (hno j)
    rw [findRefIdx_of_no_lsb hno]
    congr 1
    funext j
    rw [Bool.eq_iff_iff, Bool.and_eq_true, decide_eq_true_eq, hpoc]
    exact ⟨fun hj => h.holds_of_poc ha hno hpoc hj.1 hj.2, fun hj => h.poc_of_holds ha hno hj⟩

/-- An entry that is looked up right leads to what it stands for. -/
theorem leads_of_found (h : Adding s₀ s) (ha : Aligned s₀.maxPocLsb c w)
    (hf : findRefIdx s c.poc = some i) (hi : (placesOf s₀ s).holds s₀.maxPocLsb w i) :
    (placesOf s₀ s).Leads s₀.maxPocLsb c.poc w := by
  have hlsb : ∀ j, (placesOf s₀ s).hasLsb s₀.maxPocLsb c.poc j ↔ s.HasLsb c.poc j := fun j => by
    rw [hasLsb_placesOf, HEVCContext.HasLsb, h.maxPocLsb]
  rcases findRefIdx_spec hf with ⟨hlow, hfirst⟩ | ⟨hno, -, hpoc⟩
  · refine ⟨fun j hj => ⟨i, ?_, hi⟩, .inr ⟨i, hi, (hlsb i).2 hlow⟩⟩
    exact not_lt.1 fun hlt => hfirst j hlt ((hlsb j).1 hj)
  · refine ⟨fun j hj => absurd ((hlsb j).1 hj) (hno j), .inl ?_⟩
    rw [← hpoc]
    exact (h.poc_of_holds ha hno hi).2

/-- An entry that rightly counts as missing leads there. -/
theorem leads_of_missing (h : Adding s₀ s) (hf : findRefIdx s c.poc = none)
    (hpoc : c.poc = w.poc) : (placesOf s₀ s).Leads s₀.maxPocLsb c.poc w := by
  refine ⟨fun j hj => ?_, .inl hpoc⟩
  rw [hasLsb_placesOf, ← h.maxPocLsb] at hj
  exact absurd hj (findRefIdx_none hf j).1

end Adding

/-! ### Adding an entry -/

/-- The frame at `i` becomes the next entry of a list; `f` is that frame. `slots` are the slots
    taken, and those among them that were made up. -/
def pick (s : HEVCContext) (c : Candidate) (i : Fin maxDpbSize) (f : HEVCFrame) (slots : ℕ × List ℕ) :
    HEVCContext :=
  { s with
    dpb := Function.update s.dpb i (markRef f c.refFlag)
    rps := Function.update s.rps c.list (s.rps c.list ++ [⟨f.poc, i⟩])
    missRefFlag := s.missRefFlag || (f.errorFlag && c.curUsed)
    slots := slots.1
    madeUp := slots.2 }

/-- The frame that is made up at `i`. -/
def missingFrame (s : HEVCContext) (poc : ℤ) : HEVCFrame where
  poc := poc
  sequence := s.seqDecode
  slotIndex := some s.slots
  errorFlag := true

section Pick

variable {s : HEVCContext} {c : Candidate} {i : Fin maxDpbSize}

theorem addCandidateRef_found (h : findRefIdx s c.poc = some i) :
    addCandidateRef s c = some (pick s c i (s.dpb i) (s.slots, s.madeUp)) := by
  have htake : takeCandidate s c.poc = some (i, s) := by
    unfold takeCandidate
    simp only [h]
  unfold addCandidateRef
  rw [htake, map_some]
  unfold pick HEVCContext.setFrame
  dsimp only
  rw [update_self]
  rfl

theorem takeCandidate_missing (h : findRefIdx s c.poc = none) :
    takeCandidate s c.poc = s.firstFree.map fun i =>
      (i, { s.setFrame i (missingFrame s c.poc) with
        slots := s.slots + 1
        madeUp := s.madeUp ++ [s.slots] }) := by
  unfold takeCandidate generateMissingRef allocFrame
  simp only [h]
  cases s.firstFree with
  | none => rfl
  | some i =>
    simp only [map_some]
    unfold HEVCContext.setFrame
    dsimp only
    rw [update_self, update_idem, update_self, update_idem]
    rfl

theorem addCandidateRef_missing (h : findRefIdx s c.poc = none) :
    addCandidateRef s c =
      s.firstFree.map fun i => pick s c i (missingFrame s c.poc) (s.slots + 1, s.madeUp ++ [s.slots]) := by
  unfold addCandidateRef
  rw [takeCandidate_missing h]
  cases s.firstFree with
  | none => rfl
  | some i =>
    simp only [map_some]
    unfold pick HEVCContext.setFrame
    dsimp only
    rw [update_self, update_self, update_idem]
    rfl

theorem takenOf_pick (f : HEVCFrame) (slots : ℕ × List ℕ) (l : RPSType) (j : Fin maxDpbSize) :
    takenOf (pick s c i f slots) l j = (takenOf s l j || (l = c.list && j = i)) := by
  by_cases hl : l = c.list
  · subst hl
    simp [takenOf, pick, any_append, eq_comm]
  · simp [takenOf, pick, hl]

theorem pick_dpb_of_ne (f : HEVCFrame) (slots : ℕ × List ℕ) {j : Fin maxDpbSize} (h : j ≠ i) :
    (pick s c i f slots).dpb j = s.dpb j := by
  simp [pick, h]

@[simp] theorem pick_dpb_same (f : HEVCFrame) (slots : ℕ × List ℕ) :
    (pick s c i f slots).dpb i = markRef f c.refFlag := by
  simp [pick]

/-- The entry is the last one of its list. -/
theorem pick_rps_same (f : HEVCFrame) (slots : ℕ × List ℕ) :
    (pick s c i f slots).rps c.list = s.rps c.list ++ [⟨f.poc, i⟩] := by
  simp [pick]

theorem pick_rps_of_ne (f : HEVCFrame) (slots : ℕ × List ℕ) {l : RPSType} (h : l ≠ c.list) :
    (pick s c i f slots).rps l = s.rps l := by
  simp [pick, h]

/-- Frames in use stay what they are when the picked frame was in use, or is a new one. -/
theorem sameFrame_pick {f : HEVCFrame} (slots : ℕ × List ℕ)
    (hf : (s.dpb i).slotIndex.isSome → f = s.dpb i) {j : Fin maxDpbSize}
    (hj : (s.dpb j).slotIndex.isSome) :
    SameFrame (s.dpb j) ((pick s c i f slots).dpb j) := by
  by_cases hij : j = i
  · subst hij
    rw [pick_dpb_same, hf hj]
    exact sameFrame_markRef _ _
  · rw [pick_dpb_of_ne f slots hij]
    exact .refl _

end Pick

namespace Adding

variable {s₀ s : HEVCContext} {c : Candidate} {i : Fin maxDpbSize}

/-- The picked frame is one in use, or a new one with an order count that the sequence
    has not. -/
structure Picks (s : HEVCContext) (i : Fin maxDpbSize) (f : HEVCFrame) : Prop where
  same : (s.dpb i).slotIndex.isSome → f = s.dpb i
  isSome : f.slotIndex.isSome
  sequence : f.sequence = s.seqDecode
  fresh : (s.dpb i).slotIndex = none →
    f.errorFlag ∧ ∀ j, s.inSequence j → (s.dpb j).poc ≠ f.poc

theorem picks_found (h : findRefIdx s c.poc = some i) : Picks s i (s.dpb i) := by
  have hi := inSequence_of_findRefIdx h
  have hsome := isSome_of_inSequence hi
  rw [HEVCContext.inSequence, and_eq_true, decide_eq_true_eq] at hi
  refine ⟨fun _ => rfl, hsome, hi.2, fun hnone => ?_⟩
  rw [hnone] at hsome
  cases hsome

theorem picks_missing (h : findRefIdx s c.poc = none) (hi : s.firstFree = some i) :
    Picks s i (missingFrame s c.poc) := by
  have hfree := (Fin.find?_eq_some_iff.1 hi).1
  refine ⟨fun hsome => ?_, rfl, rfl, fun _ => ⟨rfl, fun j hj hpoc => ?_⟩⟩
  · rw [← not_isNone, hfree] at hsome
    cases hsome
  · exact (findRefIdx_none h j).2 ⟨hj, hpoc⟩

section

variable {f : HEVCFrame} {slots : ℕ × List ℕ} {j : Fin maxDpbSize}

theorem inSequence_pick_of_ne (h : j ≠ i) :
    (pick s c i f slots).inSequence j = s.inSequence j := by
  rw [HEVCContext.inSequence, pick_dpb_of_ne f slots h]
  rfl

theorem inSequence_pick_same (hp : Picks s i f) : (pick s c i f slots).inSequence i := by
  rw [HEVCContext.inSequence, pick_dpb_same]
  simp [markRef, hp.isSome, hp.sequence, pick]

/-- The picked frame is the only one in the sequence with its order count. -/
theorem eq_of_poc_pick (h : s.DistinctPocs) (hp : Picks s i f) (hji : j ≠ i)
    (hj : s.inSequence j) : (s.dpb j).poc ≠ f.poc := by
  intro hpoc
  by_cases hi : (s.dpb i).slotIndex.isSome
  · have hf := hp.same hi
    have hin : s.inSequence i := by
      rw [HEVCContext.inSequence, hi, ← hf, hp.sequence]
      simp
    exact hji (h j i hj hin (by rw [hpoc, hf]))
  · exact (hp.fresh (by simpa using hi)).2 j hj hpoc

theorem distinct_pick (h : s.DistinctPocs) (hp : Picks s i f) :
    (pick s c i f slots).DistinctPocs := by
  intro j k hj hk hpoc
  by_cases hji : j = i <;> by_cases hki : k = i
  · rw [hji, hki]
  · subst hji
    rw [inSequence_pick_of_ne hki] at hk
    rw [pick_dpb_same, pick_dpb_of_ne f slots hki] at hpoc
    have hpoc : f.poc = (s.dpb k).poc := hpoc
    exact absurd hpoc.symm (eq_of_poc_pick h hp hki hk)
  · subst hki
    rw [inSequence_pick_of_ne hji] at hj
    rw [pick_dpb_same, pick_dpb_of_ne f slots hji] at hpoc
    have hpoc : (s.dpb j).poc = f.poc := hpoc
    exact absurd hpoc (eq_of_poc_pick h hp hji hj)
  · rw [inSequence_pick_of_ne hji] at hj
    rw [inSequence_pick_of_ne hki] at hk
    rw [pick_dpb_of_ne f slots hji, pick_dpb_of_ne f slots hki] at hpoc
    exact h j k hj hk hpoc

/-- An entry more was added. -/
theorem pick (h : Adding s₀ s) (hp : Picks s i f) : Adding s₀ (pick s c i f slots) where
  seqDecode := h.seqDecode
  sps := h.sps
  old j hj := by
    have hj' : (s.dpb j).slotIndex.isSome := by rw [(h.old j hj).slotIndex]; exact hj
    exact (h.old j hj).trans (sameFrame_pick slots hp.same hj')
  made j hnone hsome := by
    by_cases hji : j = i
    · subst hji
      refine ⟨inSequence_pick_same hp, ?_⟩
      rw [pick_dpb_same]
      by_cases hj : (s.dpb j).slotIndex.isSome
      · rw [hp.same hj]
        exact (h.made j hnone hj).2
      · exact (hp.fresh (by simpa using hj)).1
    · rw [inSequence_pick_of_ne hji]
      rw [pick_dpb_of_ne f slots hji] at hsome ⊢
      exact h.made j hnone hsome
  distinct := distinct_pick h.distinct hp
  entries l e he := by
    by_cases hei : e.ref = i
    · rw [hei]
      exact inSequence_pick_same hp
    · rw [inSequence_pick_of_ne hei]
      by_cases hl : l = c.list
      · subst hl
        rw [pick_rps_same, mem_append, mem_singleton] at he
        rcases he with he | rfl
        · exact h.entries _ e he
        · exact absurd rfl hei
      · rw [pick_rps_of_ne f slots hl] at he
        exact h.entries l e he
  unmarked j hj := by
    have hji : j ≠ i := by
      rintro rfl
      simpa [takenOf_pick] using hj c.list
    rw [pick_dpb_of_ne f slots hji]
    refine h.unmarked j fun l => ?_
    have hl := hj l
    rw [takenOf_pick, or_eq_false_iff] at hl
    exact hl.1

/-- The places after an entry was found. -/
theorem placesOf_pick (hp : Picks s i f) :
    placesOf s₀ (Libmpp.H265d.pick s c i f slots) =
      update (placesOf s₀ s) i (.frame f.poc (s₀.dpb i).slotIndex.isNone) := by
  funext j
  by_cases hji : j = i
  · subst hji
    rw [update_self, placesOf_of_inSequence (inSequence_pick_same hp), pick_dpb_same]
    rfl
  · rw [update_of_ne hji, placesOf, placesOf, inSequence_pick_of_ne hji,
      pick_dpb_of_ne f slots hji]

end

end Adding

/-! ### Adding all entries -/

/-- No frame is in two lists. -/
def HEVCContext.DisjointLists (s : HEVCContext) : Prop :=
  ∀ l l' i, takenOf s l i → takenOf s l' i → l = l'

/-- Entries were added to the lists of `s`, and frames to its buffer. -/
structure Extends (s s' : HEVCContext) : Prop where
  seqDecode : s'.seqDecode = s.seqDecode
  same : ∀ i, (s.dpb i).slotIndex.isSome → SameFrame (s.dpb i) (s'.dpb i)
  lists : ∀ l, ∃ more, s'.rps l = s.rps l ++ more

namespace Extends

variable {s s' s'' : HEVCContext}

theorem refl (s : HEVCContext) : Extends s s := ⟨rfl, fun _ _ => .refl _, fun _ => ⟨[], by simp⟩⟩

theorem trans (h₁ : Extends s s') (h₂ : Extends s' s'') : Extends s s'' where
  seqDecode := h₂.seqDecode.trans h₁.seqDecode
  same i hi := (h₁.same i hi).trans (h₂.same i (by rw [(h₁.same i hi).slotIndex]; exact hi))
  lists l := by
    obtain ⟨m₁, h₁⟩ := h₁.lists l
    obtain ⟨m₂, h₂⟩ := h₂.lists l
    exact ⟨m₁ ++ m₂, by rw [h₂, h₁, append_assoc]⟩

theorem taken (h : Extends s s') {l : RPSType} {i : Fin maxDpbSize} (hi : takenOf s l i) :
    takenOf s' l i := by
  obtain ⟨more, hmore⟩ := h.lists l
  rw [takenOf, hmore, any_append]
  exact or_eq_true_iff.2 (.inl hi)

theorem inSequence (h : Extends s s') {i : Fin maxDpbSize} (hi : s.inSequence i) :
    s'.inSequence i := by
  have hsome := isSome_of_inSequence hi
  rw [HEVCContext.inSequence, (h.same i hsome).slotIndex, (h.same i hsome).sequence, h.seqDecode]
  exact hi

theorem pick {c : Candidate} {i : Fin maxDpbSize} {f : HEVCFrame} (slots : ℕ × List ℕ)
    (hp : Adding.Picks s i f) : Extends s (pick s c i f slots) where
  seqDecode := rfl
  same _ hj := sameFrame_pick slots hp.same hj
  lists l := by
    by_cases hl : l = c.list
    · subst hl
      exact ⟨_, pick_rps_same f slots⟩
    · exact ⟨[], by rw [pick_rps_of_ne f slots hl, append_nil]⟩

end Extends

/-- What adding an entry comes to: which frame is picked, and the context with it. -/
inductive Adds (s : HEVCContext) (c : Candidate) : Fin maxDpbSize → HEVCContext → Prop
  | found {i : Fin maxDpbSize} (h : findRefIdx s c.poc = some i) :
      Adds s c i (pick s c i (s.dpb i) (s.slots, s.madeUp))
  | missing {i : Fin maxDpbSize} (h : findRefIdx s c.poc = none) (hfree : s.firstFree = some i) :
      Adds s c i (pick s c i (missingFrame s c.poc) (s.slots + 1, s.madeUp ++ [s.slots]))

variable {s s' : HEVCContext} {i : Fin maxDpbSize} {c : Candidate}

theorem adds_iff :
    addCandidateRef s c = some s' ↔ ∃ i, Adds s c i s' := by
  constructor
  · intro h
    cases hf : findRefIdx s c.poc with
    | some i =>
      rw [addCandidateRef_found hf, some.injEq] at h
      subst h
      exact ⟨i, .found hf⟩
    | none =>
      rw [addCandidateRef_missing hf, map_eq_some_iff] at h
      obtain ⟨i, hfree, rfl⟩ := h
      exact ⟨i, .missing hf hfree⟩
  · rintro ⟨i, hf | ⟨hf, hfree⟩⟩
    · exact addCandidateRef_found hf
    · rw [addCandidateRef_missing hf, hfree]
      rfl

/-- What an entry that was added picked. -/
theorem Adds.picks
    (h : Adds s c i s') : ∃ f slots, s' = pick s c i f slots ∧ Adding.Picks s i f := by
  cases h with
  | found h => exact ⟨_, _, rfl, Adding.picks_found h⟩
  | missing h hfree => exact ⟨_, _, rfl, Adding.picks_missing h hfree⟩

theorem Adds.extends
    (h : Adds s c i s') : Extends s s' := by
  obtain ⟨f, slots, rfl, hp⟩ := h.picks
  exact .pick slots hp

theorem Adds.adding {s₀ s s' : HEVCContext}
    (h : Adds s c i s') (ha : Adding s₀ s) : Adding s₀ s' := by
  obtain ⟨f, slots, rfl, hp⟩ := h.picks
  exact ha.pick hp

theorem Adds.inSequence
    (h : Adds s c i s') : s'.inSequence i := by
  obtain ⟨f, slots, rfl, hp⟩ := h.picks
  exact Adding.inSequence_pick_same hp

theorem Adds.takenOf_eq
    (h : Adds s c i s') :
    takenOf s' = fun l j => takenOf s l j || (l = c.list && j = i) := by
  obtain ⟨f, slots, rfl, -⟩ := h.picks
  funext l j
  exact takenOf_pick f slots l j

/-- The entry that was added. -/
theorem Adds.rps_same
    (h : Adds s c i s') : s'.rps c.list = s.rps c.list ++ [⟨(s'.dpb i).poc, i⟩] := by
  obtain ⟨f, slots, rfl, -⟩ := h.picks
  rw [pick_rps_same, pick_dpb_same]
  rfl

theorem Adds.rps_of_ne
    (h : Adds s c i s') {l : RPSType} (hl : l ≠ c.list) : s'.rps l = s.rps l := by
  obtain ⟨f, slots, rfl, -⟩ := h.picks
  exact pick_rps_of_ne f slots hl

theorem addCandidates_cons {cs : List Candidate} :
    addCandidates (c :: cs) s = (s', true) ↔
      ∃ i s₁, Adds s c i s₁ ∧ addCandidates cs s₁ = (s', true) := by
  rw [exists_comm]
  simp only [exists_and_right, ← adds_iff]
  rw [addCandidates]
  cases addCandidateRef s c <;> simp

theorem addCandidates_extends {cs : List Candidate}
    (h : addCandidates cs s = (s', true)) : Extends s s' := by
  induction cs generalizing s with
  | nil =>
    obtain rfl : s = s' := congrArg Prod.fst h
    exact .refl _
  | cons c cs ih =>
    obtain ⟨i, s₁, h₁, h₂⟩ := addCandidates_cons.1 h
    exact h₁.extends.trans (ih h₂)

namespace Adding

variable {s₀ s s' : HEVCContext} {c : Candidate} {w : Want} {i : Fin maxDpbSize}

/-- A frame that holds what the entry stands for resolves it, also when more were added. -/
theorem resolves_of_holds (h : Adding s₀ s) (hx : Extends s s')
    (hi : (placesOf s₀ s).holds s₀.maxPocLsb w i) :
    Resolves s₀ s' w ⟨(s.dpb i).poc, i⟩ := by
  rcases h.holds_iff.1 hi with ⟨hseq, hm⟩ | ⟨hnone, hseq, hpoc, hno⟩
  · refine ⟨fun _ => ⟨hseq, hm, (h.old i (isSome_of_inSequence hseq)).poc⟩, fun hno => ?_⟩
    exact absurd ⟨i, hseq, hm⟩ hno
  · have hsome := isSome_of_inSequence hseq
    have hsame := hx.same i hsome
    refine ⟨fun hex => absurd hex hno, fun _ => ⟨hnone, hpoc, hx.inSequence hseq, ?_, ?_⟩⟩
    · exact hsame.poc.trans hpoc
    · rw [hsame.errorFlag]
      exact (h.made i hnone hsome).2

/-- A frame that resolves an entry holds what it stands for. -/
theorem holds_of_resolves (h : Adding s₀ s) (hi : s.inSequence i)
    (hr : Resolves s₀ s' w ⟨(s.dpb i).poc, i⟩) :
    (placesOf s₀ s).holds s₀.maxPocLsb w i := by
  rw [h.holds_iff]
  by_cases hex : ∃ i, s₀.inSequence i ∧ w.matches s₀.maxPocLsb (s₀.dpb i).poc
  · exact .inl ⟨(hr.found hex).1, (hr.found hex).2.1⟩
  · exact .inr ⟨(hr.missing hex).1, hi, (hr.missing hex).2.1, hex⟩

/-- The places when the frame was found. -/
theorem placesOf_found (hf : findRefIdx s c.poc = some i) :
    placesOf s₀ (Libmpp.H265d.pick s c i (s.dpb i) (s.slots, s.madeUp)) = placesOf s₀ s := by
  rw [placesOf_pick (picks_found hf), ← placesOf_of_inSequence (inSequence_of_findRefIdx hf),
    update_eq_self]

/-- The places when a frame was made up. -/
theorem placesOf_missing (h : Adding s₀ s) (hf : findRefIdx s c.poc = none)
    (hfree : s.firstFree = some i) :
    placesOf s₀ (Libmpp.H265d.pick s c i (missingFrame s c.poc) (s.slots + 1, s.madeUp ++ [s.slots])) =
      update (placesOf s₀ s) i (.frame c.poc true) := by
  have hnone : (s₀.dpb i).slotIndex.isNone := by
    by_contra hsome
    rw [isNone_iff_eq_none] at hsome
    have hsome := isSome_iff_ne_none.2 hsome
    have hi := (Fin.find?_eq_some_iff.1 hfree).1
    rw [(h.old i hsome).slotIndex, ← not_isSome, hsome] at hi
    cases hi
  rw [placesOf_pick (picks_missing hf hfree), hnone]
  rfl

theorem firstFree_placesOf : (placesOf s₀ s).firstFree = s.firstFree := by
  unfold Places.firstFree HEVCContext.firstFree
  congr 1
  funext j
  rw [Bool.eq_iff_iff, decide_eq_true_eq]
  exact placesOf_eq_free

/-- When nothing holds what the entry stands for, the frame made up for it does. -/
theorem holds_missing (h : Adding s₀ s) (hpoc : c.poc = w.poc)
    (hf : findRefIdx s c.poc = none) (hfree : s.firstFree = some i)
    (hno : (placesOf s₀ s).firstHolding s₀.maxPocLsb w = none) :
    (placesOf s₀ (Libmpp.H265d.pick s c i (missingFrame s c.poc) (s.slots + 1, s.madeUp ++ [s.slots]))).holds
      s₀.maxPocLsb w i := by
  have hadds : Adds s c i _ := .missing hf hfree
  rw [(hadds.adding h).holds_iff]
  by_cases hex : ∃ j, s₀.inSequence j ∧ w.matches s₀.maxPocLsb (s₀.dpb j).poc
  · obtain ⟨j, hj⟩ := hex
    exact absurd (h.holds_iff.2 (.inl hj)) (Places.not_holds hno j)
  · have hplace := congrFun (placesOf_missing h hf hfree) i
    rw [update_self] at hplace
    obtain ⟨hseq, hpoc', hnone⟩ := placesOf_eq_frame.1 hplace
    exact .inr ⟨isNone_iff_eq_none.1 hnone, hseq, hpoc'.trans hpoc, hex⟩

/-- The set can be derived when its first entry is resolved in a place that no other list
    has, and the rest of the set can be derived. -/
theorem derivable_cons (h : Adding s₀ s) (ha : Aligned s₀.maxPocLsb c w)
    (es : List (ℤ × Want)) :
    (placesOf s₀ s).Derivable s₀.maxPocLsb (takenOf s) ((c.poc, w) :: es) ↔
      ∃ i s₁, Adds s c i s₁ ∧ Resolves s₀ s₁ w ⟨(s₁.dpb i).poc, i⟩ ∧
        (∀ l, takenOf s l i → l = w.list) ∧
        (placesOf s₀ s₁).Derivable s₀.maxPocLsb (takenOf s₁) es := by
  rw [Places.Derivable, ← ha.list]
  constructor
  · rintro ⟨hl, hm⟩
    have heq := h.findRefIdx_eq ha hl
    cases hfind : (placesOf s₀ s).firstHolding s₀.maxPocLsb w with
    | some i =>
      rw [hfind] at hm heq
      have hadds : Adds s c i _ := .found heq
      refine ⟨i, _, hadds, ?_, hm.1, ?_⟩
      · refine (hadds.adding h).resolves_of_holds (.refl _) ?_
        rw [placesOf_found heq]
        exact Places.holds_first hfind
      · rw [placesOf_found heq, hadds.takenOf_eq]
        exact hm.2
    | none =>
      rw [hfind] at hm heq
      -- The entry leads to a missing picture, so it is looked up by its order count.
      have hpoc : c.poc = w.poc := by
        rcases hl.2 with hpoc | ⟨j, hj, -⟩
        · exact hpoc
        · exact absurd hj (Places.not_holds hfind j)
      rw [firstFree_placesOf] at hm
      cases hfree : s.firstFree with
      | none =>
        rw [hfree] at hm
        exact hm.elim
      | some i =>
        rw [hfree] at hm
        have hadds : Adds s c i _ := .missing heq hfree
        refine ⟨i, _, hadds, ?_, fun l hl => ?_, ?_⟩
        · exact (hadds.adding h).resolves_of_holds (.refl _) (h.holds_missing hpoc heq hfree hfind)
        · obtain ⟨e, he, hei⟩ := any_eq_true.1 hl
          have hsome := isSome_of_inSequence (h.entries l e he)
          rw [of_decide_eq_true hei, isSome_iff_ne_none] at hsome
          exact absurd (isNone_iff_eq_none.1 (Fin.find?_eq_some_iff.1 hfree).1) hsome
        · rw [placesOf_missing h heq hfree, hadds.takenOf_eq, hpoc]
          exact hm
  · rintro ⟨i, s₁, hadds, hr, htaken, hrest⟩
    have hholds := (hadds.adding h).holds_of_resolves hadds.inSequence hr
    rw [hadds.takenOf_eq] at hrest
    cases hadds with
    | found hf =>
      rw [placesOf_found hf] at hholds hrest
      have hl := h.leads_of_found ha hf hholds
      refine ⟨hl, ?_⟩
      rw [← h.findRefIdx_eq ha hl, hf]
      exact ⟨htaken, hrest⟩
    | missing hf hfree =>
      have hpoc : c.poc = w.poc := by
        by_cases hex : ∃ j, s₀.inSequence j ∧ w.matches s₀.maxPocLsb (s₀.dpb j).poc
        · -- The place that was free holds no picture.
          have hsome := isSome_of_inSequence (hr.found hex).1
          have hnone := (Fin.find?_eq_some_iff.1 hfree).1
          rw [← not_isSome, (h.old i hsome).slotIndex, hsome] at hnone
          cases hnone
        · have h := (hr.missing hex).2.1
          rw [pick_dpb_same] at h
          exact h
      have hl := h.leads_of_missing hf hpoc
      refine ⟨hl, ?_⟩
      rw [← h.findRefIdx_eq ha hl, hf, firstFree_placesOf, hfree]
      rw [placesOf_missing h hf hfree, hpoc] at hrest
      exact hrest

end Adding

section AddCandidates

variable {s₀ s s₁ s' : HEVCContext} {c : Candidate} {w : Want} {i : Fin maxDpbSize}

/-- An entry stays resolved when more are added. -/
theorem Resolves.congr {e : RefPic} (hx : Extends s s') (hi : s.inSequence e.ref) :
    Resolves s₀ s' w e ↔ Resolves s₀ s w e := by
  have hsame := hx.same e.ref (isSome_of_inSequence hi)
  constructor
  · intro h
    refine ⟨h.found, fun hno => ?_⟩
    obtain ⟨h₁, h₂, -, h₄, h₅⟩ := h.missing hno
    exact ⟨h₁, h₂, hi, hsame.poc.symm.trans h₄, hsame.errorFlag ▸ h₅⟩
  · intro h
    refine ⟨h.found, fun hno => ?_⟩
    obtain ⟨h₁, h₂, -, h₄, h₅⟩ := h.missing hno
    exact ⟨h₁, h₂, hx.inSequence hi, hsame.poc.trans h₄, hsame.errorFlag ▸ h₅⟩

/-- The lists are resolved when the first entry is and the rest of them are. -/
theorem lists_cons {R : Want → RefPic → Prop} {ws : List Want} (hadds : Adds s c i s₁)
    (hx : Extends s₁ s') (hl : c.list = w.list) :
    (∀ l, List.Forall₂ R ((w :: ws).filter (·.list = l)) ((s'.rps l).drop (s.rps l).length)) ↔
      R w ⟨(s₁.dpb i).poc, i⟩ ∧
        ∀ l, List.Forall₂ R (ws.filter (·.list = l)) ((s'.rps l).drop (s₁.rps l).length) := by
  have hsame : (s'.rps w.list).drop (s.rps w.list).length =
      ⟨(s₁.dpb i).poc, i⟩ :: (s'.rps w.list).drop (s₁.rps w.list).length := by
    obtain ⟨more, hmore⟩ := hx.lists w.list
    rw [hmore, drop_left, ← hl, hadds.rps_same, append_assoc, drop_left]
    rfl
  have hne : ∀ l, l ≠ w.list → s₁.rps l = s.rps l := fun l h => hadds.rps_of_ne (hl ▸ h)
  constructor
  · intro h
    have hw := h w.list
    rw [hsame, filter_cons_of_pos (by simp), forall₂_cons] at hw
    refine ⟨hw.1, fun l => ?_⟩
    by_cases heq : l = w.list
    · rw [heq]
      exact hw.2
    · have hl := h l
      rw [filter_cons_of_neg (by simpa using Ne.symm heq)] at hl
      rw [hne l heq]
      exact hl
  · rintro ⟨hw, h⟩ l
    by_cases heq : l = w.list
    · rw [heq, hsame, filter_cons_of_pos (by simp), forall₂_cons]
      exact ⟨hw, h w.list⟩
    · rw [filter_cons_of_neg (by simpa using Ne.symm heq), ← hne l heq]
      exact h l

theorem Extends.disjointLists (hx : Extends s s') (h : s'.DisjointLists) : s.DisjointLists :=
  fun l l' i hl hl' => h l l' i (hx.taken hl) (hx.taken hl')

theorem Adds.takenOf_same (h : Adds s c i s') : takenOf s' c.list i := by
  rw [h.takenOf_eq]
  simp

theorem Adds.disjointLists (h : Adds s c i s') (hd : s.DisjointLists)
    (ht : ∀ l, takenOf s l i → l = c.list) : s'.DisjointLists := by
  intro l l' j hl hl'
  rw [h.takenOf_eq] at hl hl'
  simp only [or_eq_true, and_eq_true, decide_eq_true_eq] at hl hl'
  rcases hl with hl | ⟨rfl, rfl⟩ <;> rcases hl' with hl' | ⟨hl', hj⟩
  · exact hd l l' j hl hl'
  · subst hj hl'
    exact ht l hl
  · exact (ht l' hl').symm
  · exact hl'.symm

/-- The entries are added as they should be exactly when the set can be derived. -/
theorem addCandidates_iff {cs : List Candidate} {ws : List Want}
    (ha : List.Forall₂ (Aligned s₀.maxPocLsb) cs ws) (h : Adding s₀ s) (hd : s.DisjointLists) :
    (∃ s', addCandidates cs s = (s', true) ∧
      (∀ l, List.Forall₂ (Resolves s₀ s') (ws.filter (·.list = l))
        ((s'.rps l).drop (s.rps l).length)) ∧ s'.DisjointLists) ↔
      (placesOf s₀ s).Derivable s₀.maxPocLsb (takenOf s) ((cs.map Candidate.poc).zip ws) := by
  induction ha generalizing s with
  | nil =>
    refine ⟨fun _ => trivial, fun _ => ⟨s, rfl, fun l => ?_, hd⟩⟩
    rw [drop_length]
    exact .nil
  | @cons c w cs ws hcw _ ih =>
    rw [map_cons, zip_cons_cons, h.derivable_cons hcw]
    constructor
    · rintro ⟨s', hadd, hlists, hdis⟩
      obtain ⟨i, s₁, hadds, hrest⟩ := addCandidates_cons.1 hadd
      have hx := addCandidates_extends hrest
      obtain ⟨hw, hlists⟩ := (lists_cons hadds hx hcw.list).1 hlists
      refine ⟨i, s₁, hadds, (Resolves.congr hx hadds.inSequence).1 hw, fun l hl => ?_, ?_⟩
      · rw [← hcw.list]
        exact hdis _ _ i (hx.taken (hadds.extends.taken hl)) (hx.taken hadds.takenOf_same)
      · exact (ih (hadds.adding h) (hx.disjointLists hdis)).1 ⟨s', hrest, hlists, hdis⟩
    · rintro ⟨i, s₁, hadds, hw, htaken, hrest⟩
      have hd₁ := hadds.disjointLists hd fun l hl => (htaken l hl).trans hcw.list.symm
      obtain ⟨s', hadd, hlists, hdis⟩ := (ih (hadds.adding h) hd₁).2 hrest
      have hx := addCandidates_extends hadd
      refine ⟨s', addCandidates_cons.2 ⟨i, s₁, hadds, hadd⟩, ?_, hdis⟩
      exact (lists_cons hadds hx hcw.list).2
        ⟨(Resolves.congr hx hadds.inSequence).2 hw, hlists⟩

end AddCandidates

end Libmpp.H265d
