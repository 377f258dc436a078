import Libmpp.H265d.Hvcc

/-!
# Extra data in the hvcC format

The branch of `hevc_parser_extradata` for the hvcC format. The parameter sets stand in
arrays, each with a type and a number of NAL units, and each unit with a length of two
bytes. The bytes are a function of the offset, which goes on behind the buffer, and the
result has every access: the bytes read and the units handed to `parser_nal_unit`.

What is left of the buffer is counted in an `RK_U32`, and the headers are taken off without
a look at it. Below zero it wraps, and none of the later tests holds. The accesses are
inside exactly when the headers are (`extradata_inside`), and then there are at most two for
each byte.

The number of arrays is a `char`, whose sign is that of the compiler.
-/

namespace Libmpp.H265d

open List

/-! ## The model -/

/-- A byte that is read, or a unit that is handed to `parser_nal_unit`. -/
inductive Access
  | read (i : ℕ)
  | nal (i length : ℕ)
  deriving DecidableEq, Repr

/-- The access is inside a buffer. -/
def Access.Inside (size : ℕ) : Access → Prop
  | .read i => i < size
  | .nal i length => i + length ≤ size

instance (size : ℕ) : DecidablePred (Access.Inside size)
  | .read _ => inferInstanceAs (Decidable (_ < _))
  | .nal _ _ => inferInstanceAs (Decidable (_ ≤ _))

/-- The variables `ptr`, as an offset, and `size`. -/
structure ExtradataPos where
  ptr : ℕ
  size : ℕ
  deriving DecidableEq, Repr

/-- `ptr += n` and `size -= n`, in the arithmetic of `RK_U32`. -/
def ExtradataPos.advance (c : ExtradataPos) (n : ℕ) : ExtradataPos where
  ptr := c.ptr + n
  size := (c.size + (2 ^ 32 - n)) % 2 ^ 32

/-- A byte as a `char`, as an `RK_U32`. -/
def charToU32 (charSigned : Bool) (b : UInt8) : ℕ :=
  if charSigned ∧ 128 ≤ b.toNat then 2 ^ 32 - 256 + b.toNat else b.toNat

/-- Set the number of bytes of a length. -/
def HvccContext.setNalLengthSize (c : HvccContext) (b : UInt8) : HvccContext :=
  { c with
    nalLengthSize := 1 + b.toNat % 4
    size_pos := by omega
    size_le := by omega }

section

variable (data : ℕ → UInt8)

/-- `U16_AT` -/
def u16At (i : ℕ) : ℕ := (data i).toNat * 256 + (data (i + 1)).toNat

/-- The reads of `U16_AT`. -/
def u16Reads (i : ℕ) : List Access := [.read i, .read (i + 1)]

/-- The loop over the units of an array, for what is left of the number of units. -/
def nalsLoop : ℕ → ExtradataPos → List Access × Option ExtradataPos
  | 0, c => ([], some c)
  | n + 1, c =>
    if c.size < 2 then ([], none)
    else
      let length := u16At data c.ptr
      let c' := c.advance 2
      if c'.size < length then (u16Reads c.ptr, none)
      else
        let r := nalsLoop n (c'.advance length)
        (u16Reads c.ptr ++ .nal c'.ptr length :: r.1, r.2)

/-- The loop over the arrays, for what is left of the number of arrays, with whether it comes
    to its end. -/
def arraysLoop : ℕ → ExtradataPos → List Access × Bool
  | 0, _ => ([], true)
  | n + 1, c =>
    let c := c.advance 1
    let reads := u16Reads c.ptr
    match nalsLoop data (u16At data c.ptr) (c.advance 2) with
    | (as, none) => (reads ++ as, false)
    | (as, some c') =>
      let r := arraysLoop n c'
      (reads ++ as ++ r.1, r.2)

/-- The extra data is in the hvcC format. -/
def isHvcc (size : ℕ) : Bool := 3 < size ∧ (data 0 ≠ 0 ∨ data 1 ≠ 0 ∨ 1 < (data 2).toNat)

/-- The reads of the test for the format. -/
def isHvccReads : List Access :=
  .read 0 :: if data 0 ≠ 0 then [] else .read 1 :: if data 1 ≠ 0 then [] else [.read 2]

/-- What `hevc_parser_extradata` does: the accesses, the context with the number of bytes of a
    length, and whether it returns `MPP_SUCCESS`. -/
structure ExtradataRun where
  accesses : List Access
  ctx : HvccContext
  ok : Bool

/-- `hevc_parser_extradata`, for data in the hvcC format. -/
def HvccContext.hevcParserExtradata (c : HvccContext) (charSigned : Bool) (size : ℕ) :
    ExtradataRun :=
  if size < 7 then ⟨isHvccReads data, c, false⟩
  else
    let p : ExtradataPos := (ExtradataPos.mk 0 size).advance 22
    let numofArrays := charToU32 charSigned (data p.ptr)
    let r := arraysLoop data numofArrays (p.advance 1)
    ⟨isHvccReads data ++ .read 21 :: .read p.ptr :: r.1, c.setNalLengthSize (data 21), r.2⟩

end

/-! ## The format -/

section

variable (data : ℕ → UInt8) (size : ℕ)

/-- There are `n` units from `p` up to `q`, inside the buffer. -/
inductive UnitsTo : ℕ → ℕ → ℕ → Prop
  | nil (p : ℕ) : UnitsTo 0 p p
  | cons {n p q : ℕ} (hp : p + 2 + u16At data p ≤ size)
      (h : UnitsTo n (p + 2 + u16At data p) q) : UnitsTo (n + 1) p q

/-- There are `k` arrays from `p` up to `q`, inside the buffer. -/
inductive ArraysTo : ℕ → ℕ → ℕ → Prop
  | nil (p : ℕ) : ArraysTo 0 p p
  | cons {k p q r : ℕ} (hp : p + 3 ≤ size) (hu : UnitsTo data size (u16At data (p + 1)) (p + 3) q)
      (h : ArraysTo k q r) : ArraysTo (k + 1) p r

/-- The header of each of the first `n` arrays from `p` on is inside when the arrays in front
    of it are. -/
def HeadersInside (n p : ℕ) : Prop := ∀ k < n, ∀ q, ArraysTo data size k p q → q + 3 ≤ size

variable {data size}

variable {p : ℕ}

theorem headersInside_zero : HeadersInside data size 0 p :=
  fun _ hk => absurd hk (Nat.not_lt_zero _)

variable {n : ℕ}

theorem UnitsTo.le {q : ℕ} (h : UnitsTo data size n p q) (hp : p ≤ size) : q ≤ size := by
  induction h with
  | nil => exact hp
  | cons hp' _ ih => exact ih hp'

/-- The headers behind the first array. -/
theorem HeadersInside.tail {q : ℕ} (h : HeadersInside data size (n + 1) p)
    (hu : UnitsTo data size (u16At data (p + 1)) (p + 3) q) : HeadersInside data size n q :=
  fun k hk r hr => h (k + 1) (by omega) r (.cons (h 0 (by omega) p (.nil p)) hu hr)

/-- The units of the first array are inside, or there is no array behind it. -/
theorem headersInside_succ :
    HeadersInside data size (n + 1) p ↔ p + 3 ≤ size ∧
      ∀ q, UnitsTo data size (u16At data (p + 1)) (p + 3) q → HeadersInside data size n q := by
  constructor
  · exact fun h => ⟨h 0 (by omega) p (.nil p), fun q hu => h.tail hu⟩
  · rintro ⟨hp, h⟩ k hk r hr
    cases hr with
    | nil => exact hp
    | @cons k _ q _ _ hu hr => exact h q hu k (by omega) r hr

end

/-! ## The loops -/

/-- The bytes left are those up to the end of a buffer. -/
structure ExtradataPos.Tight (c : ExtradataPos) (size : ℕ) : Prop where
  add_eq : c.ptr + c.size = size
  lt : size < 2 ^ 32

theorem ExtradataPos.Tight.advance {c : ExtradataPos} {size n : ℕ} (h : c.Tight size)
    (hn : n ≤ c.size) : (c.advance n).Tight size ∧ (c.advance n).size = c.size - n := by
  have hlt := h.lt
  have hadd := h.add_eq
  have hsize : (c.advance n).size = c.size - n := by
    simp only [ExtradataPos.advance]
    omega
  refine ⟨⟨?_, hlt⟩, hsize⟩
  rw [hsize]
  simp only [ExtradataPos.advance]
  omega

section

variable (data : ℕ → UInt8) {size : ℕ}

theorem inside_u16Reads {i : ℕ} : (∀ a ∈ u16Reads i, a.Inside size) ↔ i + 2 ≤ size := by
  simp only [u16Reads, mem_cons, not_mem_nil, or_false, forall_eq_or_imp, forall_eq,
    Access.Inside]
  omega

variable {c : ExtradataPos}

/-- The units that the loop hands on, and the bytes that it reads. -/
theorem nalsLoop_inside (n : ℕ) (h : c.Tight size) :
    ∀ a ∈ (nalsLoop data n c).1, a.Inside size := by
  induction n generalizing c with
  | zero => simp [nalsLoop]
  | succ n ih =>
    have hadd := h.add_eq
    rw [nalsLoop]
    by_cases h2 : c.size < 2
    · simp [h2]
    · obtain ⟨ht, hs⟩ := h.advance (Nat.le_of_not_lt h2)
      have hreads : ∀ a ∈ u16Reads c.ptr, a.Inside size := inside_u16Reads.2 (by omega)
      by_cases hl : (c.advance 2).size < u16At data c.ptr
      · simpa only [if_neg h2, if_pos hl] using hreads
      · simp only [if_neg h2, if_neg hl, mem_append, mem_cons]
        rintro a (ha | rfl | ha)
        · exact hreads a ha
        · have hadd' := ht.add_eq
          simp only [Access.Inside]
          omega
        · exact ih (ht.advance (Nat.le_of_not_lt hl)).1 a ha

/-- The loop comes to its end at the end of the units. -/
theorem nalsLoop_eq_some (n : ℕ) (h : c.Tight size) (c' : ExtradataPos) :
    (nalsLoop data n c).2 = some c' ↔ c'.Tight size ∧ UnitsTo data size n c.ptr c'.ptr := by
  induction n generalizing c with
  | zero =>
    simp only [nalsLoop, Option.some.injEq]
    constructor
    · rintro rfl
      exact ⟨h, .nil _⟩
    · rintro ⟨h', hu⟩
      have hadd := h.add_eq
      have hadd' := h'.add_eq
      obtain ⟨p, s⟩ := c
      obtain ⟨p', s'⟩ := c'
      cases hu with
      | nil =>
        simp only [ExtradataPos.mk.injEq, true_and] at *
        omega
  | succ n ih =>
    have hadd := h.add_eq
    rw [nalsLoop]
    by_cases h2 : c.size < 2
    · simp only [if_pos h2, reduceCtorEq, false_iff, not_and]
      intro _ hu
      cases hu with
      | cons hp _ => omega
    · obtain ⟨ht, hs⟩ := h.advance (Nat.le_of_not_lt h2)
      by_cases hl : (c.advance 2).size < u16At data c.ptr
      · simp only [if_neg h2, if_pos hl, reduceCtorEq, false_iff, not_and]
        intro _ hu
        cases hu with
        | cons hp _ => omega
      · obtain ⟨ht', -⟩ := ht.advance (Nat.le_of_not_lt hl)
        simp only [if_neg h2, if_neg hl]
        rw [ih ht']
        refine and_congr_right fun _ => ⟨fun hu => .cons (by omega) hu, fun hu => ?_⟩
        cases hu with
        | cons _ hu => exact hu

/-- There are at most two accesses for each byte that the loop takes. -/
theorem nalsLoop_length (n : ℕ) (h : c.Tight size) :
    (nalsLoop data n c).1.length ≤ 2 * c.size ∧ ∀ c', (nalsLoop data n c).2 = some c' →
      (nalsLoop data n c).1.length + 2 * c'.size ≤ 2 * c.size := by
  induction n generalizing c with
  | zero => simp [nalsLoop]
  | succ n ih =>
    rw [nalsLoop]
    by_cases h2 : c.size < 2
    · simp [h2]
    · obtain ⟨ht, hs⟩ := h.advance (Nat.le_of_not_lt h2)
      by_cases hl : (c.advance 2).size < u16At data c.ptr
      · simp only [if_neg h2, if_pos hl, u16Reads, length_cons, length_nil, reduceCtorEq,
          false_imp_iff, implies_true, and_true]
        omega
      · obtain ⟨ht', hs'⟩ := ht.advance (Nat.le_of_not_lt hl)
        obtain ⟨hlen, hsome⟩ := ih ht'
        simp only [if_neg h2, if_neg hl, u16Reads, length_append, length_cons,
          length_nil]
        refine ⟨by omega, fun c' hc' => ?_⟩
        have := hsome c' hc'
        omega

/-- What a header leaves. -/
theorem ExtradataPos.Tight.header (h : c.Tight size) (hc : c.ptr + 3 ≤ size) :
    ((c.advance 1).advance 2).Tight size ∧ ((c.advance 1).advance 2).size + 3 = c.size := by
  have hadd := h.add_eq
  obtain ⟨h₁, hs₁⟩ := h.advance (n := 1) (by omega)
  obtain ⟨h₂, hs₂⟩ := h₁.advance (n := 2) (by omega)
  exact ⟨h₂, by omega⟩

/-- The accesses of the loop over the arrays are inside exactly when the headers are. -/
theorem arraysLoop_inside (n : ℕ) (h : c.Tight size) :
    (∀ a ∈ (arraysLoop data n c).1, a.Inside size) ↔ HeadersInside data size n c.ptr := by
  induction n generalizing c with
  | zero => simp [arraysLoop, headersInside_zero]
  | succ n ih =>
    rw [headersInside_succ, arraysLoop]
    by_cases hc : c.ptr + 3 ≤ size
    · obtain ⟨ht, -⟩ := h.header hc
      have hreads : ∀ a ∈ u16Reads (c.advance 1).ptr, a.Inside size :=
        inside_u16Reads.2 (by simp only [ExtradataPos.advance]; omega)
      have has := nalsLoop_inside data (u16At data (c.advance 1).ptr) ht
      have hsome := nalsLoop_eq_some data (u16At data (c.advance 1).ptr) ht
      rcases hr : nalsLoop data (u16At data (c.advance 1).ptr) ((c.advance 1).advance 2)
        with ⟨as, _ | c'⟩
      · -- the function returns, and there is no array behind this one
        simp only [hr] at has hsome ⊢
        refine iff_of_true (forall_mem_append.2 ⟨hreads, has⟩) ⟨hc, fun q hu => ?_⟩
        have hq := hu.le hc
        cases (hsome ⟨q, size - q⟩).2 ⟨⟨Nat.add_sub_cancel' hq, h.lt⟩, hu⟩
      · simp only [hr] at has hsome ⊢
        obtain ⟨ht', hu⟩ := (hsome c').1 rfl
        rw [forall_mem_append, ih ht', and_iff_right (forall_mem_append.2 ⟨hreads, has⟩)]
        refine ⟨fun hin => ⟨hc, fun q hu' => ?_⟩, fun hin => hin.2 _ hu⟩
        have hq := hu'.le hc
        cases (hsome ⟨q, size - q⟩).2 ⟨⟨Nat.add_sub_cancel' hq, h.lt⟩, hu'⟩
        exact hin
    · refine iff_of_false (fun hin => hc ?_) fun hin => hc hin.1
      have hreads : ∀ a ∈ u16Reads (c.advance 1).ptr, a.Inside size := fun a ha => hin a (by
        split <;> simp [ha])
      exact inside_u16Reads.1 hreads

/-- There are at most two accesses for each byte. -/
theorem arraysLoop_length (n : ℕ) (h : c.Tight size) (hin : HeadersInside data size n c.ptr) :
    (arraysLoop data n c).1.length ≤ 2 * c.size := by
  induction n generalizing c with
  | zero => simp [arraysLoop]
  | succ n ih =>
    rw [headersInside_succ] at hin
    obtain ⟨ht, hs⟩ := h.header hin.1
    obtain ⟨hlen, hsome⟩ := nalsLoop_length data (u16At data (c.advance 1).ptr) ht
    rw [arraysLoop]
    rcases hr : nalsLoop data (u16At data (c.advance 1).ptr) ((c.advance 1).advance 2)
      with ⟨as, _ | c'⟩
    · simp only [hr, u16Reads, length_append, length_cons, length_nil] at hlen ⊢
      omega
    · obtain ⟨ht', hu⟩ := (nalsLoop_eq_some data _ ht c').1 (congrArg Prod.snd hr)
      have hrest := ih ht' (hin.2 _ hu)
      have hlen' := hsome c' (congrArg Prod.snd hr)
      simp only [hr, u16Reads, length_append, length_cons, length_nil] at hlen' ⊢
      omega

/-! ## The extra data -/

/-- The format is tested inside the buffer. -/
theorem isHvccReads_inside (hsize : 3 < size) : ∀ a ∈ isHvccReads data, a.Inside size := by
  intro a ha
  simp only [isHvccReads] at ha
  split_ifs at ha <;> simp only [mem_cons, not_mem_nil, or_false] at ha
  · subst ha
    exact Nat.lt_of_lt_of_le (by omega) hsize
  · rcases ha with rfl | rfl <;> simp only [Access.Inside] <;> omega
  · rcases ha with rfl | rfl | rfl <;> simp only [Access.Inside] <;> omega

theorem isHvccReads_length : (isHvccReads data).length ≤ 3 := by
  simp only [isHvccReads]
  split_ifs <;> simp

end

/-- What the branch must do: its accesses are inside the buffer, and its loops end after at most
    two accesses for each byte. -/
structure ExtradataRun.Safe (r : ExtradataRun) (size : ℕ) : Prop where
  inside : ∀ a ∈ r.accesses, a.Inside size
  ends : r.accesses.length ≤ 2 * size

/-- The branch is safe exactly for data below seven bytes, which it refuses, and for data in
    which the header of each array that it comes to is inside. -/
theorem extradata_inside (c : HvccContext) (charSigned : Bool) (data : ℕ → UInt8) (size : ℕ)
    (hsize : size < 2 ^ 32) (hvcc : isHvcc data size) :
    (c.hevcParserExtradata data charSigned size).Safe size ↔ size < 7 ∨ 23 ≤ size ∧
      HeadersInside data size (charToU32 charSigned (data 22)) 23 := by
  have h3 : 3 < size := (decide_eq_true_iff.1 hvcc).1
  have hreads := isHvccReads_inside data h3
  have hlen := isHvccReads_length data
  rw [HvccContext.hevcParserExtradata]
  by_cases h7 : size < 7
  · rw [if_pos h7]
    exact iff_of_true ⟨hreads, hlen.trans (by omega)⟩ (.inl h7)
  · rw [if_neg h7, or_iff_right h7]
    have hptr : ((ExtradataPos.mk 0 size).advance 22).ptr = 22 := rfl
    by_cases h23 : 23 ≤ size
    · have hstart : (ExtradataPos.mk 0 size).Tight size := ⟨Nat.zero_add _, hsize⟩
      obtain ⟨h22, hs22⟩ := hstart.advance (n := 22) (by simp only; omega)
      simp only at hs22
      obtain ⟨ht, hs⟩ := h22.advance (n := 1) (by omega)
      have hin := arraysLoop_inside data (charToU32 charSigned (data 22)) ht
      have hends := arraysLoop_length data (charToU32 charSigned (data 22)) ht
      rw [and_iff_right h23]
      constructor
      · exact fun h => hin.1 fun a ha => h.inside a (by simp [hptr, ha])
      · refine fun h => ⟨?_, ?_⟩
        · simp only [hptr, forall_mem_append, forall_mem_cons, Access.Inside]
          exact ⟨hreads, by omega, by omega, hin.2 h⟩
        · have hends := hends h
          simp only [hptr, length_append, length_cons]
          omega
    · -- the byte with the number of arrays is not there
      refine iff_of_false (fun h => h23 ?_) fun h => h23 h.1
      have hnum := h.inside (.read 22) (by simp [hptr])
      exact hnum

/-- A header with the parameter sets of one array, which has one unit of two bytes. -/
theorem extradata_inside_one :
    isHvcc (fun i => [1, 0, 0, 0, 0, 0, 0, 0, 0, 0, 0, 0, 0, 0, 0, 0, 0, 0, 0, 0, 0, 3, 1, 32, 0, 1,
      0, 2, 64, 1].getD i 0) 30 ∧
    ((HvccContext.mk 1 false false 0 (by decide) (by decide)).hevcParserExtradata (fun i =>
      [1, 0, 0, 0, 0, 0, 0, 0, 0, 0, 0, 0, 0, 0, 0, 0, 0, 0, 0, 0, 0, 3, 1, 32, 0, 1, 0, 2, 64,
        1].getD i 0) true 30).Safe 30 := by
  refine ⟨by decide, (extradata_inside _ true _ 30 (by decide) (by decide)).2
    (.inr ⟨by decide, ?_⟩)⟩
  rw [show charToU32 true ([1, 0, 0, 0, 0, 0, 0, 0, 0, 0, 0, 0, 0, 0, 0, 0, 0, 0, 0, 0, 0, 3, 1, 32,
    0, 1, 0, 2, 64, 1].getD 22 0) = 0 + 1 from rfl, headersInside_succ]
  exact ⟨by decide, fun _ _ => headersInside_zero⟩

/-- Seven bytes: the number of bytes of a length is read at 21, and the arrays from 22 on. -/
theorem extradata_outside :
    isHvcc (fun i => [1, 1, 96, 0, 0, 0, 144].getD i 0) 7 ∧
    ¬((HvccContext.mk 1 false false 0 (by decide) (by decide)).hevcParserExtradata (fun i =>
      [1, 1, 96, 0, 0, 0, 144].getD i 0) true 7).Safe 7 := by
  refine ⟨by decide, fun h => ?_⟩
  have hin : (Access.read 21).Inside 7 := h.inside _ (by decide)
  exact absurd hin (by decide)

end Libmpp.H265d
