import Libmpp.H265d.Split

/-!
# The frames of a stream

What the frames of a byte stream are does not depend on the packets it comes in. The
specification reads the stream once, byte by byte (`scanStep`): where a byte shows that the
frame has ended, the last six bytes begin the next one. The splitter reads these bytes a
second time, which shows nothing new (`find_rescan`), or has some of them in its buffer.

* `Follows`: the splitter stands where the specification does, up to the bytes it is going
  to read again;
* `Follows.split`: a call of the splitter gives the frame of the specification, or uses up
  the packet;
* `splitRun_eq`: so a run gives the frames of the specification, for any cut of the stream.
-/

namespace Libmpp.H265d

open Bool List Option

/-! ## The last bytes -/

/-- The number that bytes stand for, the last one lowest. -/
def bytesVal (l : List UInt8) : ℕ := l.foldl (fun w b => w * 256 + b.toNat) 0

@[simp] theorem bytesVal_nil : bytesVal [] = 0 := rfl

theorem bytesVal_concat (l : List UInt8) (b : UInt8) :
    bytesVal (l ++ [b]) = bytesVal l * 256 + b.toNat := by
  rw [bytesVal, foldl_append]
  rfl

theorem bytesVal_lt (l : List UInt8) : bytesVal l < 256 ^ l.length := by
  induction l using List.reverseRecOn with
  | nil => simp
  | append_singleton l b ih =>
    have hb := b.toNat_lt
    rw [bytesVal_concat, length_append, length_singleton, pow_succ]
    omega

theorem mul_add_mod_mul (a d c : ℕ) (hd : d < 256) :
    (a * 256 + d) % (c * 256) = a % c * 256 + d := by
  rcases Nat.eq_zero_or_pos c with rfl | hc
  · simp
  · have hlt : a % c * 256 + d < c * 256 := by
      have := Nat.mod_lt a hc
      omega
    calc (a * 256 + d) % (c * 256)
        = ((a % c + c * (a / c)) * 256 + d) % (c * 256) := by rw [Nat.mod_add_div]
      _ = (a % c * 256 + d + c * 256 * (a / c)) % (c * 256) := by ring_nf
      _ = a % c * 256 + d := by rw [Nat.add_mul_mod_self_left, Nat.mod_eq_of_lt hlt]

/-- The low bytes are those of the last part. -/
theorem bytesVal_append_mod (l m : List UInt8) :
    bytesVal (l ++ m) % 256 ^ m.length = bytesVal m := by
  induction m using List.reverseRecOn with
  | nil => simp [Nat.mod_one]
  | append_singleton m b ih =>
    rw [← append_assoc, bytesVal_concat, bytesVal_concat, length_append,
      length_singleton, pow_succ, mul_add_mod_mul _ _ _ b.toNat_lt, ih]

variable {w : ℕ}

/-- What a byte shows depends on the last six bytes. -/
theorem scanByte_congr {v : ℕ} (h : w % 2 ^ 48 = v % 2 ^ 48) (found : Bool) (b : UInt8) :
    scanByte w found b = scanByte v found b := by
  have h₁ : startCode w = startCode v := by
    unfold startCode
    omega
  have h₂ : nutOf w = nutOf v := by
    unfold nutOf
    omega
  have h₃ : layerIdOf w = layerIdOf v := by
    unfold layerIdOf
    omega
  simp only [scanByte, h₁, h₂, h₃]

theorem pushByte_mod {v : ℕ} (h : w % 2 ^ 40 = v % 2 ^ 40) (b : UInt8) :
    pushByte w b % 2 ^ 48 = (v * 256 + b.toNat) % 2 ^ 48 := by
  have hb := b.toNat_lt
  unfold pushByte
  omega

/-- Without a start code, a byte shows nothing. -/
theorem scanByte_of_ne (h : startCode w ≠ 1) (found : Bool) (b : UInt8) :
    scanByte w found b = (found, false) := by
  rw [scanByte, if_pos h]

/-- Before the first slice of a frame, a byte shows at most that slice. -/
theorem scanByte_false (w : ℕ) (b : UInt8) :
    scanByte w false b = (false, false) ∨ scanByte w false b = (true, false) ∧ 128 ≤ b.toNat := by
  have hb := b.toNat_lt
  unfold scanByte
  split_ifs <;> simp_all
  omega

variable {found : Bool} {b : UInt8}

/-- An end is behind a start code, and behind a slice of the frame. -/
theorem of_scanByte_end {found' : Bool} (h : scanByte w found b = (found', true)) :
    startCode w = 1 ∧ found ∧ found' = false := by
  unfold scanByte at h
  cases found with
  | false =>
    simp only [Bool.false_and, Bool.false_eq_true, if_false, Bool.not_false, if_true] at h
    split_ifs at h <;> simp_all
  | true =>
    simp only [Bool.true_and, Bool.not_true, Bool.false_eq_true, if_false] at h
    split_ifs at h <;> simp_all

/-- The first slice of a frame is found behind a start code. -/
theorem of_scanByte_found (h : (scanByte w false b).1) : startCode w = 1 := by
  by_contra hne
  rw [scanByte_of_ne hne] at h
  exact false_ne_true h

/-! ## The specification -/

/-- The frames so far, the bytes of the next one, and whether it has a slice. -/
structure Scan where
  frames : List (List UInt8) := []
  cur : List UInt8 := []
  found : Bool := false

/-- Read a byte. -/
def scanStep (s : Scan) (b : UInt8) : Scan :=
  let full := s.cur ++ [b]
  match scanByte (bytesVal full) s.found b with
  | (found, false) => { s with cur := full, found }
  | (_, true) =>
    { frames := s.frames ++ [full.take (full.length - 6)]
      cur := full.drop (full.length - 6)
      found := (scanByte (bytesVal full) false b).1 }

/-- The frames of a stream. -/
def framesOf (stream : List UInt8) : List (List UInt8) :=
  let s := stream.foldl scanStep {}
  s.frames ++ [s.cur]

variable {s : Scan}

theorem scanStep_of_end (h : scanByte (bytesVal (s.cur ++ [b])) s.found b = (found, true)) :
    scanStep s b =
      { frames := s.frames ++ [(s.cur ++ [b]).take ((s.cur ++ [b]).length - 6)]
        cur := (s.cur ++ [b]).drop ((s.cur ++ [b]).length - 6)
        found := (scanByte (bytesVal (s.cur ++ [b])) false b).1 } := by
  rw [scanStep, h]

theorem scanStep_of_not_end (h : scanByte (bytesVal (s.cur ++ [b])) s.found b = (found, false)) :
    scanStep s b = { s with cur := s.cur ++ [b], found } := by
  rw [scanStep, h]

/-- No byte is lost or read twice. -/
theorem flatten_scanStep (s : Scan) (b : UInt8) :
    (scanStep s b).frames.flatten ++ (scanStep s b).cur = s.frames.flatten ++ s.cur ++ [b] := by
  rcases h : scanByte (bytesVal (s.cur ++ [b])) s.found b with ⟨found, _ | _⟩
  · rw [scanStep_of_not_end h]
    exact (append_assoc _ _ _).symm
  · rw [scanStep_of_end h]
    dsimp only
    rw [flatten_append, flatten_singleton, append_assoc, take_append_drop,
      append_assoc]

theorem flatten_foldl_scanStep (l : List UInt8) (s : Scan) :
    (l.foldl scanStep s).frames.flatten ++ (l.foldl scanStep s).cur =
      s.frames.flatten ++ s.cur ++ l := by
  induction l generalizing s with
  | nil => simp
  | cons b l ih =>
    rw [foldl_cons, ih, flatten_scanStep, append_assoc, singleton_append]

theorem flatten_framesOf (stream : List UInt8) : (framesOf stream).flatten = stream := by
  have := flatten_foldl_scanStep stream {}
  rw [framesOf, flatten_append, flatten_singleton]
  simpa using this

/-- A slice that has been found is at least three bytes before the next end. -/
structure Scan.Good (s : Scan) : Prop where
  length : s.found → 4 ≤ s.cur.length
  four : s.found → s.cur.length = 4 → bytesVal s.cur / 2 ^ 24 % 256 = 1
  five : s.found → s.cur.length = 5 →
    bytesVal s.cur / 2 ^ 24 % 256 = 1 ∨ bytesVal s.cur / 2 ^ 32 % 256 = 1

theorem Scan.good_init : ({} : Scan).Good := by
  refine ⟨?_, ?_, ?_⟩ <;> simp

/-- A frame ends with more than the six bytes of the next. -/
theorem Scan.Good.end (h : s.Good)
    (hend : scanByte (bytesVal (s.cur ++ [b])) s.found b = (found, true)) :
    7 ≤ (s.cur ++ [b]).length := by
  obtain ⟨hcode, hfound, -⟩ := of_scanByte_end hend
  have hlen := h.length hfound
  have hb := b.toNat_lt
  rw [bytesVal_concat] at hcode
  unfold startCode at hcode
  rw [length_append, length_singleton]
  by_contra hlt
  rcases (by omega : s.cur.length = 4 ∨ s.cur.length = 5) with h4 | h5
  · have := h.four hfound h4
    omega
  · have := h.five hfound h5
    omega

theorem Scan.Good.step (h : s.Good) (b : UInt8) : (scanStep s b).Good := by
  have hb := b.toNat_lt
  rcases hs : scanByte (bytesVal (s.cur ++ [b])) s.found b with ⟨found, _ | _⟩
  · rw [scanStep_of_not_end hs]
    -- a start code that is found now ends four bytes before the end of the bytes read
    have hcode : found → s.found = false → startCode (bytesVal (s.cur ++ [b])) = 1 := by
      intro hf hnot
      rw [hnot] at hs
      exact of_scanByte_found (by rw [hs]; exact hf)
    have hkeep : found → s.found ∨ startCode (bytesVal (s.cur ++ [b])) = 1 := by
      intro hf
      cases hsf : s.found with
      | true => exact .inl rfl
      | false => exact .inr (hcode hf hsf)
    have hlt := bytesVal_lt (s.cur ++ [b])
    refine ⟨fun hf => ?_, fun hf hl => ?_, fun hf hl => ?_⟩
    · rcases hkeep hf with hsf | hc
      · have := h.length hsf
        simp only [length_append, length_singleton]
        omega
      · by_contra hl
        have hpow : 256 ^ (s.cur ++ [b]).length ≤ 256 ^ 3 :=
          Nat.pow_le_pow_right (by norm_num) (by dsimp only at hl; omega)
        unfold startCode at hc
        omega
    · rcases hkeep hf with hsf | hc
      · have := h.length hsf
        simp only [length_append, length_singleton] at hl
        omega
      · unfold startCode at hc
        dsimp only
        omega
    · rcases hkeep hf with hsf | hc
      · have hl4 : s.cur.length = 4 := by
          simpa using hl
        have := h.four hsf hl4
        dsimp only
        rw [bytesVal_concat]
        omega
      · unfold startCode at hc
        dsimp only
        omega
  · have hlen := h.end hs
    rw [scanStep_of_end hs]
    have hsix : ((s.cur ++ [b]).drop ((s.cur ++ [b]).length - 6)).length = 6 := by
      rw [length_drop]
      omega
    refine ⟨fun _ => ?_, fun _ hl => ?_, fun _ hl => ?_⟩
    · dsimp only
      omega
    · dsimp only at hl
      omega
    · dsimp only at hl
      omega

/-! ## Finding the end -/

/-- The search depends on the last five bytes before it. -/
theorem hevcFindFrameEnd_append (w : ℕ) (found : Bool) (l m : List UInt8)
    (h : (hevcFindFrameEnd w found l).2.2 = none) :
    hevcFindFrameEnd w found (l ++ m) =
      let (w, found, i) := hevcFindFrameEnd (hevcFindFrameEnd w found l).1
        (hevcFindFrameEnd w found l).2.1 m
      (w, found, i.map (· + l.length)) := by
  induction l generalizing w found with
  | nil =>
    simp only [hevcFindFrameEnd, List.nil_append, List.length_nil, Nat.add_zero, Option.map_id']
  | cons b l ih =>
    rw [cons_append, hevcFindFrameEnd]
    rw [hevcFindFrameEnd] at h
    rcases hs : scanByte (pushByte w b) found b with ⟨found', _ | _⟩
    · rw [hs] at h
      simp only [map_eq_none_iff] at h
      simp only [hevcFindFrameEnd, hs, ih _ _ h, Option.map_map, List.length_cons]
      congr 2
    · rw [hs] at h
      exact absurd h (by simp)

/-- What the search finds in the bytes `l`, where the specification reads them. -/
inductive Finds (w : ℕ) (s : Scan) (l : List UInt8) : Prop
  | none (w' : ℕ) (found : Bool) (find : hevcFindFrameEnd w s.found l = (w', found, none))
      (scan : l.foldl scanStep s = { s with cur := s.cur ++ l, found })
      (last : w' % 2 ^ 40 = bytesVal (s.cur ++ l) % 2 ^ 40)
  | some (ys : List UInt8) (b : UInt8) (zs : List UInt8) (w' : ℕ) (split : l = ys ++ b :: zs)
      (find : hevcFindFrameEnd w s.found l = (w', false, some ys.length))
      (scan : ∃ s', ys.foldl scanStep s = { s with cur := s.cur ++ ys, found := s' } ∧
        scanByte (bytesVal (s.cur ++ ys ++ [b])) s' b = (false, true))
      (last : w' % 2 ^ 48 = bytesVal (s.cur ++ ys ++ [b]) % 2 ^ 48)

theorem finds (hw : w % 2 ^ 40 = bytesVal s.cur % 2 ^ 40) (l : List UInt8) : Finds w s l := by
  induction l generalizing w s with
  | nil =>
    refine .none w s.found rfl ?_ ?_
    · rw [append_nil]
      rfl
    · rw [append_nil, hw]
  | cons b l ih =>
    have hpush := pushByte_mod hw b
    rw [← bytesVal_concat] at hpush
    have hscan := scanByte_congr hpush s.found b
    rcases hs : scanByte (bytesVal (s.cur ++ [b])) s.found b with ⟨found, _ | _⟩
    · rw [hs] at hscan
      have hstep := scanStep_of_not_end hs
      have hw' : pushByte w b % 2 ^ 40 = bytesVal (s.cur ++ [b]) % 2 ^ 40 := by omega
      rcases ih (s := { s with cur := s.cur ++ [b], found }) hw' with
        ⟨w', f', hfind, hfold, hlast⟩ | ⟨ys, b', zs, w', rfl, hfind, ⟨f', hfold, hend⟩, hlast⟩
      · refine .none w' f' ?_ ?_ ?_
        · rw [hevcFindFrameEnd, hscan]
          dsimp only at hfind ⊢
          rw [hfind]
          rfl
        · rw [foldl_cons, hstep, hfold]
          simp
        · simpa using hlast
      · refine .some (b :: ys) b' zs w' rfl ?_ ⟨f', ?_, ?_⟩ ?_
        · rw [hevcFindFrameEnd, hscan]
          dsimp only at hfind ⊢
          rw [hfind]
          rfl
        · rw [foldl_cons, hstep, hfold]
          simp
        · simpa using hend
        · simpa using hlast
    · obtain ⟨-, -, rfl⟩ := of_scanByte_end hs
      rw [hs] at hscan
      refine .some [] b l (pushByte w b) rfl ?_ ⟨s.found, ?_, ?_⟩ ?_
      · rw [hevcFindFrameEnd, hscan]
        rfl
      · rw [append_nil]
        rfl
      · rw [append_nil]
        exact hs
      · rw [append_nil]
        exact hpush

/-! ## Reading bytes again -/

/-- Push bytes without looking at them. -/
def pushBytes (w : ℕ) (l : List UInt8) : ℕ := l.foldl pushByte w

/-- The bytes pushed last. -/
theorem pushBytes_mod (w : ℕ) (l : List UInt8) (hl : l.length ≤ 8) :
    pushBytes w l % 256 ^ l.length = bytesVal l := by
  induction l using List.reverseRecOn with
  | nil => simp [Nat.mod_one]
  | append_singleton l b ih =>
    rw [length_append, length_singleton] at hl ⊢
    have hdvd : 256 ^ (l.length + 1) ∣ 2 ^ 64 := by
      rw [show (2 : ℕ) ^ 64 = 256 ^ 8 by norm_num]
      exact pow_dvd_pow _ hl
    rw [pushBytes, foldl_append, bytesVal_concat]
    change pushByte (pushBytes w l) b % _ = _
    rw [pushByte, Nat.mod_mod_of_dvd _ hdvd, pow_succ, mul_add_mod_mul _ _ _ b.toNat_lt,
      ih (by omega)]

theorem pushBytes_append (w : ℕ) (l m : List UInt8) :
    pushBytes w (l ++ m) = pushBytes (pushBytes w l) m := foldl_append ..

/-- A byte that shows nothing, where no slice has been found. -/
theorem find_concat_quiet {l : List UInt8}
    (h : hevcFindFrameEnd w false l = (pushBytes w l, false, none))
    (hb : scanByte (pushBytes w (l ++ [b])) false b = (false, false)) :
    hevcFindFrameEnd w false (l ++ [b]) = (pushBytes w (l ++ [b]), false, none) := by
  rw [pushBytes_append] at hb ⊢
  rw [hevcFindFrameEnd_append _ _ _ _ (by rw [h]), h]
  change scanByte (pushByte _ b) false b = _ at hb
  simp only [hevcFindFrameEnd, hb]
  rfl

/-- The bytes that have shown an end: a start code, the header behind it, and one more. -/
structure Boundary (six : List UInt8) : Prop where
  length : six.length = 6
  code : startCode (bytesVal six) = 1

variable {six : List UInt8}

/-- The search through the first of them finds nothing. -/
theorem Boundary.find_take (h : Boundary six) (w : ℕ) {k : ℕ} (hk : k ≤ 5) :
    hevcFindFrameEnd w false (six.take k) = (pushBytes w (six.take k), false, none) := by
  obtain ⟨hlen, hcode⟩ := h
  match six, hlen with
  | [a₁, a₂, a₃, a₄, a₅, a₆], _ =>
    have h₁ := a₁.toNat_lt
    have h₂ := a₂.toNat_lt
    have h₃ := a₃.toNat_lt
    have h₄ := a₄.toNat_lt
    have h₅ := a₅.toNat_lt
    have h₆ := a₆.toNat_lt
    have hval : a₁.toNat = 0 ∧ a₂.toNat = 0 ∧ a₃.toNat = 1 := by
      simp only [startCode, bytesVal, foldl_cons, foldl_nil] at hcode
      omega
    obtain ⟨e₁, e₂, e₃⟩ := hval
    have hsmall : ∀ (v : ℕ) (b : UInt8), b.toNat < 128 → scanByte v false b = (false, false) := by
      intro v b hb
      rcases scanByte_false v b with h | ⟨-, h⟩
      · exact h
      · omega
    have f₀ : hevcFindFrameEnd w false [] = (pushBytes w [], false, none) := rfl
    have f₁ := find_concat_quiet f₀ (hsmall _ a₁ (by omega))
    have f₂ := find_concat_quiet f₁ (hsmall _ a₂ (by omega))
    have f₃ := find_concat_quiet f₂ (hsmall _ a₃ (by omega))
    -- the next two would need the third byte of a start code where there is a zero
    have f₄ : hevcFindFrameEnd w false [a₁, a₂, a₃, a₄] =
        (pushBytes w [a₁, a₂, a₃, a₄], false, none) := by
      refine find_concat_quiet f₃ (scanByte_of_ne (fun hc => ?_) _ _)
      have := pushBytes_mod w [a₁, a₂, a₃, a₄] (by simp)
      simp only [bytesVal, foldl_cons, foldl_nil, length_cons,
        length_nil] at this
      simp only [startCode, nil_append, cons_append] at hc
      omega
    have f₅ : hevcFindFrameEnd w false [a₁, a₂, a₃, a₄, a₅] =
        (pushBytes w [a₁, a₂, a₃, a₄, a₅], false, none) := by
      refine find_concat_quiet f₄ (scanByte_of_ne (fun hc => ?_) _ _)
      have := pushBytes_mod w [a₁, a₂, a₃, a₄, a₅] (by simp)
      simp only [bytesVal, foldl_cons, foldl_nil, length_cons,
        length_nil] at this
      simp only [startCode, cons_append, nil_append] at hc
      omega
    match k, hk with
    | 0, _ => exact f₀
    | 1, _ => exact f₁
    | 2, _ => exact f₂
    | 3, _ => exact f₃
    | 4, _ => exact f₄
    | 5, _ => exact f₅

/-- Reading them again shows the slice they may begin, and no end. -/
theorem Boundary.find_rescan (h : Boundary six) (w : ℕ) (b : UInt8) (hb : six.getLast? = some b)
    {k : ℕ} (hk : k ≤ 5) :
    hevcFindFrameEnd (pushBytes w (six.take k)) false (six.drop k) =
      (pushBytes w six, (scanByte (bytesVal six) false b).1, none) := by
  have hlen := h.length
  have hsix : six = six.take 5 ++ [b] := by
    obtain ⟨l, rfl⟩ := getLast?_eq_some_iff.1 hb
    have : l.length = 5 := by simpa using hlen
    rw [take_left' this]
  have hwhole : hevcFindFrameEnd w false six =
      (pushBytes w six, (scanByte (bytesVal six) false b).1, none) := by
    have hlast : scanByte (pushBytes w six) false b = scanByte (bytesVal six) false b := by
      refine scanByte_congr ?_ _ _
      have hpush := pushBytes_mod w six (by omega)
      have hval := bytesVal_lt six
      rw [hlen] at hpush hval
      norm_num at hpush hval ⊢
      omega
    have hfive := h.find_take w (le_refl 5)
    have hpush : pushBytes w six = pushByte (pushBytes w (six.take 5)) b := by
      conv_lhs => rw [hsix, pushBytes_append]
      rfl
    conv_lhs => rw [hsix]
    rw [hevcFindFrameEnd_append _ _ _ _ (by rw [hfive]), hfive]
    simp only [hevcFindFrameEnd]
    rw [← hpush, hlast]
    rcases scanByte_false (bytesVal six) b with h | ⟨h, -⟩
    · rw [h]
      rfl
    · rw [h]
      rfl
  have htake := h.find_take w hk
  have happ := hevcFindFrameEnd_append w false (six.take k) (six.drop k) (by rw [htake])
  rw [take_append_drop, htake, hwhole] at happ
  dsimp only at happ
  rcases hr : hevcFindFrameEnd (pushBytes w (six.take k)) false (six.drop k) with ⟨w', f', i⟩
  rw [hr] at happ
  simp only [Prod.mk.injEq] at happ
  obtain ⟨rfl, rfl, hi⟩ := happ
  rw [map_eq_none_iff.1 hi.symm]

/-! ## The buffer -/

@[simp] theorem length_contents (buffer : ℕ → UInt8) (n : ℕ) : (contents buffer n).length = n := by
  rw [contents, length_map, length_range]

theorem contents_memcpy (buffer : ℕ → UInt8) (index : ℕ) (data : List UInt8) :
    contents (memcpy buffer index data) (index + data.length) = contents buffer index ++ data := by
  refine ext_getElem (by simp [contents]) fun j hj _ => ?_
  have hlt : j < index + data.length := by simpa [contents] using hj
  have hget : (contents (memcpy buffer index data) (index + data.length))[j] =
      memcpy buffer index data j := by simp [contents]
  rw [hget, memcpy]
  by_cases hji : j < index
  · rw [if_neg (by omega), getElem_append_left (by simpa [contents] using hji)]
    simp [contents]
  · rw [if_pos ⟨by omega, hlt⟩, getElem_append_right (by simpa [contents] using hji)]
    simp only [contents, length_map, length_range]
    rw [getD_eq_getElem _ _ (by omega)]

theorem memcpy_nil (buffer : ℕ → UInt8) (index : ℕ) : memcpy buffer index [] = buffer := by
  funext j
  rw [memcpy, if_neg]
  simp

/-- Moving the first bytes to the front leaves the others, and their new copies. -/
theorem moveByte_iterate (sc : SplitContext) (hsc : sc.index = 0) (n : ℕ) :
    moveByte^[n] sc = { sc with
      buffer := fun j => if j < n then sc.buffer (sc.overreadIndex + j) else sc.buffer j
      index := n
      overreadIndex := sc.overreadIndex + n
      overread := sc.overread - n } := by
  induction n with
  | zero =>
    obtain ⟨buffer, index, lastIndex, found, overread, overreadIndex, state64, eos⟩ := sc
    obtain rfl : index = 0 := hsc
    simp
  | succ n ih =>
    rw [Function.iterate_succ_apply', ih, moveByte]
    dsimp only
    congr 1
    funext j
    rw [memcpy]
    simp only [length_singleton]
    rcases lt_trichotomy j n with hj | rfl | hj
    · rw [if_neg (by omega), if_pos hj, if_pos (by omega)]
    · rw [if_pos ⟨le_rfl, by omega⟩, Nat.sub_self, getD_cons_zero, if_neg (by omega),
        if_pos (by omega)]
    · rw [if_neg (by omega), if_neg (by omega), if_neg (by omega)]

/-- The splitter has the bytes `h` of the frame, at the front of the buffer or left over
    from the last frame. -/
inductive Holds (sc : SplitContext) (h : List UInt8) : Prop
  | front (overread : sc.overread = 0) (index : sc.index = h.length)
      (buffer : contents sc.buffer h.length = h)
  | leftOver (index : sc.index = 0) (overread : sc.overread = h.length)
      (buffer : (List.range h.length).map (fun j => sc.buffer (sc.overreadIndex + j)) = h)

variable {sc : SplitContext} {h : List UInt8}

/-- The search has no part in what the splitter has. -/
theorem Holds.searched (hh : Holds sc h) (state64 : ℕ) (frameStartFound : Bool) :
    Holds { sc with state64, frameStartFound } h := by
  cases hh with
  | front hover hindex hbuffer => exact .front hover hindex hbuffer
  | leftOver hindex hover hbuffer => exact .leftOver hindex hover hbuffer

/-- The bytes are moved to the front. -/
theorem Holds.moveOverread (hh : Holds sc h) :
    ∃ buffer i, H265d.moveOverread sc = { sc with
      buffer, index := h.length, overreadIndex := i, overread := 0 } ∧
      contents buffer h.length = h := by
  rw [H265d.moveOverread]
  cases hh with
  | front hover hindex hbuffer =>
    refine ⟨sc.buffer, sc.overreadIndex, ?_, hbuffer⟩
    rw [hover, Function.iterate_zero_apply, ← hindex, ← hover]
  | leftOver hindex hover hbuffer =>
    rw [moveByte_iterate _ hindex, hover, Nat.sub_self]
    refine ⟨_, _, rfl, ?_⟩
    conv_rhs => rw [← hbuffer]
    refine map_congr_left fun j hj => ?_
    rw [mem_range] at hj
    exact if_pos hj

theorem foldl_storeOverread (sc : SplitContext) (next : ℤ) (base n : ℕ)
    (hbase : (sc.lastIndex : ℤ) + next = base) :
    (List.range n).foldl (fun sc (k : ℕ) => storeOverread sc (next + k)) sc = { sc with
      state64 := pushBytes sc.state64 ((List.range n).map fun j => sc.buffer (base + j))
      overread := sc.overread + n } := by
  induction n with
  | zero => rfl
  | succ n ih =>
    rw [range_succ, foldl_append, ih, map_append, pushBytes_append]
    simp only [foldl_cons, foldl_nil, storeOverread, map_cons, map_nil]
    have : ((sc.lastIndex : ℤ) + (next + n)).toNat = base + n := by omega
    rw [this]
    rfl

variable {buf : List UInt8}

/-- Where the frame has not ended, the packet goes to the buffer. -/
theorem Holds.combine_none (hh : Holds sc h) (hbuf : buf ≠ []) :
    ∃ sc', mppCombineFrame sc none buf = (sc', none) ∧ Holds sc' (h ++ buf) ∧
      sc'.state64 = sc.state64 ∧ sc'.frameStartFound = sc.frameStartFound ∧ sc'.eos = sc.eos := by
  obtain ⟨buffer, i, hmove, hcontents⟩ := hh.moveOverread
  rw [mppCombineFrame, hmove]
  dsimp only
  rw [if_neg (fun h => hbuf h.1)]
  refine ⟨_, rfl, .front rfl ?_ ?_, rfl, rfl, rfl⟩
  · rw [length_append]
  · rw [length_append]
    dsimp only
    rw [contents_memcpy, hcontents]

/-- Where the frame ends in the packet, the bytes before that are its last ones. -/
theorem Holds.combine_ofNat (hh : Holds sc h) (n : ℕ) (hn : n ≤ buf.length) :
    ∃ sc', mppCombineFrame sc (some (n : ℤ)) buf = (sc', some (h ++ buf.take n)) ∧ Holds sc' [] ∧
      sc'.state64 = sc.state64 ∧ sc'.frameStartFound = sc.frameStartFound ∧ sc'.eos = sc.eos := by
  obtain ⟨buffer, i, hmove, hcontents⟩ := hh.moveOverread
  rw [mppCombineFrame, hmove]
  dsimp only
  rw [if_neg (fun h => absurd h.2 (by simp))]
  dsimp only
  have hsize : ((h.length : ℤ) + n).toNat = h.length + n := by omega
  have hneg : (-(n : ℤ)).toNat = 0 := by omega
  rw [hsize, hneg, Int.toNat_natCast]
  have htake : (buf.take n).length = n := by rw [length_take, min_eq_left hn]
  cases h with
  | nil =>
    rw [length_nil, if_neg (by simp), Nat.zero_add, nil_append]
    exact ⟨_, rfl, .front rfl rfl rfl, rfl, rfl, rfl⟩
  | cons a h =>
    have := contents_memcpy buffer (a :: h).length (buf.take n)
    rw [htake, hcontents] at this
    rw [if_pos (by simp)]
    dsimp only
    rw [this]
    exact ⟨_, rfl, .front rfl rfl rfl, rfl, rfl, rfl⟩

/-- Where the frame has ended before the packet, the bytes behind its end are left over. -/
theorem Holds.combine_neg {k : List UInt8} (hh : Holds sc (h ++ k)) (buf : List UInt8)
    (hk : k ≠ []) :
    ∃ sc', mppCombineFrame sc (some (-(k.length : ℤ))) buf = (sc', some h) ∧ Holds sc' k ∧
      sc'.state64 = pushBytes sc.state64 k ∧ sc'.frameStartFound = sc.frameStartFound ∧
      sc'.eos = sc.eos := by
  obtain ⟨buffer, i, hmove, hcontents⟩ := hh.moveOverread
  have hpos := length_pos_iff.2 hk
  rw [mppCombineFrame, hmove]
  dsimp only
  rw [if_neg (fun h => absurd h.2 (by simp))]
  dsimp only
  have hlen : (h ++ k).length = h.length + k.length := length_append
  have hsize : (((h ++ k).length : ℤ) + -(k.length : ℤ)).toNat = h.length := by omega
  have hto : (-(k.length : ℤ)).toNat = 0 := by omega
  have hback : (-(-(k.length : ℤ))).toNat = k.length := by omega
  rw [hsize, hto, hback, if_pos (by omega), take_zero, memcpy_nil]
  dsimp only
  rw [foldl_storeOverread _ _ h.length k.length (by dsimp only; omega)]
  dsimp only
  -- the buffer holds the frame, and behind it the bytes left over
  have hparts : contents buffer h.length = h ∧
      (List.range k.length).map (fun j => buffer (h.length + j)) = k := by
    rw [hlen, contents, List.range_add, List.map_append, List.map_map] at hcontents
    exact append_inj hcontents (length_contents _ _)
  obtain ⟨hfirst, hlast⟩ := hparts
  rw [hfirst, hlast]
  exact ⟨_, rfl, .leftOver rfl (Nat.zero_add _) hlast, rfl, rfl, rfl⟩

/-! ## The splitter and the specification -/

/-- The splitter stands where the specification does, when it has read the bytes `pend`
    again. -/
structure Follows (sc : SplitContext) (s : Scan) (pend : List UInt8) : Prop where
  good : s.Good
  holds : ∃ h, h ++ pend = s.cur ∧ Holds sc h
  find : ∃ w, hevcFindFrameEnd sc.state64 sc.frameStartFound pend = (w, s.found, none) ∧
    w % 2 ^ 40 = bytesVal s.cur % 2 ^ 40

theorem Follows.init : Follows {} {} [] :=
  ⟨Scan.good_init, ⟨[], rfl, .front rfl rfl rfl⟩, 0, rfl, rfl⟩

theorem Scan.Good.foldl (h : s.Good) (l : List UInt8) : (l.foldl scanStep s).Good := by
  induction l generalizing s with
  | nil => exact h
  | cons b l ih => exact ih (h.step b)

/-- What a call does where no end is found in the packet. -/
structure UsesUp (sc : SplitContext) (s : Scan) (buf rest : List UInt8) : Prop where
  scan : (rest.foldl scanStep s).frames = s.frames
  frame : sc.eos → ∃ sc', h265dSplitFrame sc buf = (sc', (rest.foldl scanStep s).cur, buf.length)
  follows : sc.eos = false → ∃ sc', h265dSplitFrame sc buf = (sc', [], buf.length) ∧
    Follows sc' (rest.foldl scanStep s) []

/-- What a call does where the frame ends at the byte `b`. -/
structure GivesFrame (sc : SplitContext) (s : Scan) (buf rest : List UInt8) (ys : List UInt8)
    (b : UInt8) (zs : List UInt8) (sc' : SplitContext) (frame : List UInt8) (n : ℕ)
    (pend : List UInt8) : Prop where
  split : rest = ys ++ b :: zs
  call : h265dSplitFrame sc buf = (sc', frame, n)
  frames : ((ys ++ [b]).foldl scanStep s).frames = s.frames ++ [frame]
  ne_nil : frame ≠ []
  left : buf.drop n = pend ++ zs
  pend_ne_nil : pend ≠ []
  eos : sc'.eos = sc.eos
  follows : Follows sc' ((ys ++ [b]).foldl scanStep s) pend

/-- The last six bytes of a frame that has ended. -/
theorem boundary_of_end {full : List UInt8} (hlen : 6 ≤ full.length)
    (hcode : startCode (bytesVal full) = 1) : Boundary (full.drop (full.length - 6)) := by
  have hsix : (full.drop (full.length - 6)).length = 6 := by
    rw [length_drop]
    omega
  refine ⟨hsix, ?_⟩
  have hmod := bytesVal_append_mod (full.take (full.length - 6)) (full.drop (full.length - 6))
  rw [take_append_drop, hsix] at hmod
  have hval := bytesVal_lt (full.drop (full.length - 6))
  rw [hsix] at hval
  norm_num at hmod hval
  unfold startCode at hcode ⊢
  omega

variable {pend : List UInt8}

/-- After an end, what is left is read again behind the bytes that are left over. -/
theorem Follows.rescan {k : List UInt8} (hgood : s.Good) (hcur : s.cur = six)
    (hsplit : k ++ pend = six) (hk : k.length ≤ 5) (hsix : Boundary six)
    (hb : six.getLast? = some b) (hfound : s.found = (scanByte (bytesVal six) false b).1)
    (hholds : Holds sc k) (hstate : sc.state64 = pushBytes w k)
    (hstart : sc.frameStartFound = false) : Follows sc s pend := by
  refine ⟨hgood, ⟨k, hsplit.trans hcur.symm, hholds⟩, pushBytes w six, ?_, ?_⟩
  · have hfind := hsix.find_rescan w b hb hk
    rw [← hsplit, take_left, drop_left, hsplit] at hfind
    rw [hstate, hstart, hfind, hfound]
  · have hpush := pushBytes_mod w six (by rw [hsix.length]; omega)
    rw [hsix.length] at hpush
    norm_num at hpush
    rw [hcur]
    omega

variable {sc' : SplitContext}

/-- A call that finds the end. -/
theorem splitFrame_of_some {frame : List UInt8} {i : ℕ} {next : ℤ} (hne : buf ≠ [])
    (hfind : hevcFindFrameEnd sc.state64 sc.frameStartFound buf = (w, found, some i))
    (hnext : (i : ℤ) - 5 = next)
    (hcombine : mppCombineFrame { sc with state64 := w, frameStartFound := found } (some next) buf = (sc', some frame))
    : h265dSplitFrame sc buf = (sc', frame, next.toNat) := by
  subst hnext
  rw [h265dSplitFrame, if_neg (fun h => hne h.2), hfind]
  dsimp only [map_some]
  rw [if_neg (fun h => absurd h.2.2 (by simp)), hcombine]
  rfl

/-- A call that does not, at the end of the stream. -/
theorem splitFrame_of_eos {frame : List UInt8} (hne : buf ≠ []) (heos : sc.eos)
    (hfind : hevcFindFrameEnd sc.state64 sc.frameStartFound buf = (w, found, none))
    (hcombine : mppCombineFrame { sc with state64 := w, frameStartFound := found } (some (buf.length : ℤ)) buf = (sc', some frame))
    : h265dSplitFrame sc buf = (sc', frame, buf.length) := by
  rw [h265dSplitFrame, if_neg (fun h => hne h.2), hfind]
  dsimp only [map_none]
  rw [if_pos ⟨heos, hne, rfl⟩, hcombine]
  rfl

/-- A call that does not, before it. -/
theorem splitFrame_of_none (hne : buf ≠ []) (heos : sc.eos = false)
    (hfind : hevcFindFrameEnd sc.state64 sc.frameStartFound buf = (w, found, none))
    (hcombine : mppCombineFrame { sc with state64 := w, frameStartFound := found } none buf = (sc', none))
    : h265dSplitFrame sc buf = (sc', [], buf.length) := by
  rw [h265dSplitFrame, if_neg (fun h => hne h.2), hfind]
  dsimp only [map_none]
  rw [if_neg (fun h => absurd h.1 (by rw [heos]; exact false_ne_true)), hcombine]

/-- A call with bytes of which the first ones, `pend`, are read again. -/
theorem Follows.split {rest : List UInt8} (h : Follows sc s pend) (hne : pend ++ rest ≠ []) :
    UsesUp sc s (pend ++ rest) rest ∨ ∃ ys b zs sc' frame n pend',
      GivesFrame sc s (pend ++ rest) rest ys b zs sc' frame n pend' := by
  obtain ⟨hgood, ⟨held, hcur, hholds⟩, w, hfind, hw⟩ := h
  have happ := hevcFindFrameEnd_append sc.state64 sc.frameStartFound pend rest (by rw [hfind])
  rw [hfind] at happ
  dsimp only at happ
  rcases finds hw rest with ⟨w', found, hrest, hscan, hlast⟩ |
    ⟨ys, b, zs, w', rfl, hrest, ⟨found, hscan, hend⟩, hlast⟩
  · left
    rw [hrest] at happ
    replace hholds := hholds.searched w' found
    refine ⟨by rw [hscan], fun heos => ?_, fun heos => ?_⟩
    · obtain ⟨sc', hcombine, -⟩ := hholds.combine_ofNat (pend ++ rest).length le_rfl
      rw [take_length, ← append_assoc, hcur] at hcombine
      rw [hscan]
      exact ⟨sc', splitFrame_of_eos hne heos happ hcombine⟩
    · obtain ⟨sc', hcombine, hholds', hstate, hstart, -⟩ := hholds.combine_none hne
      refine ⟨sc', splitFrame_of_none hne heos happ hcombine, ?_⟩
      have hgood' := hgood.foldl rest
      rw [hscan] at hgood' ⊢
      refine ⟨hgood', ⟨_, ?_, hholds'⟩, w', ?_, hlast⟩
      · rw [append_nil, ← append_assoc, hcur]
      · rw [hstate, hstart]
        rfl
  · right
    rw [hrest] at happ
    replace hholds := hholds.searched w' false
    -- the bytes of the frame and the six that have shown its end
    obtain ⟨full, hfull⟩ : ∃ l, l = s.cur ++ ys ++ [b] := ⟨_, rfl⟩
    rw [← hfull] at hlast
    have hgood₁ := hgood.foldl ys
    rw [hscan] at hgood₁
    have hlen : 7 ≤ full.length := by
      rw [hfull]
      exact hgood₁.end hend
    have hcode : startCode (bytesVal full) = 1 := by
      rw [hfull]
      exact (of_scanByte_end hend).1
    have hsix := @boundary_of_end full (by omega) hcode
    have hstep : (ys ++ [b]).foldl scanStep s =
        { frames := s.frames ++ [full.take (full.length - 6)]
          cur := full.drop (full.length - 6)
          found := (scanByte (bytesVal full) false b).1 } := by
      rw [foldl_append, foldl_cons, foldl_nil, hscan, scanStep_of_end hend, ← hfull]
    have hgood₂ := hgood.foldl (ys ++ [b])
    have hlast₆ : (full.drop (full.length - 6)).getLast? = some b := by
      rw [getLast?_drop, if_neg (by omega), hfull, getLast?_concat]
    have hfound : (scanByte (bytesVal full) false b).1 =
        (scanByte (bytesVal (full.drop (full.length - 6))) false b).1 := by
      have hmod := bytesVal_append_mod (full.take (full.length - 6)) (full.drop (full.length - 6))
      rw [take_append_drop, hsix.length] at hmod
      norm_num at hmod
      rw [scanByte_congr (v := bytesVal (full.drop (full.length - 6)))]
      norm_num
      omega
    -- they are in the bytes held and in those of the packet up to `b`
    obtain ⟨part, hpart⟩ : ∃ l, l = pend ++ ys ++ [b] := ⟨_, rfl⟩
    have hsplit : full = held ++ part := by
      rw [hfull, ← hcur, hpart]
      simp
    have hbuf : pend ++ (ys ++ b :: zs) = part ++ zs := by
      rw [hpart]
      simp
    have hpartlen : part.length = ys.length + pend.length + 1 := by
      rw [hpart]
      simp
      omega
    have hfulllen : full.length = held.length + part.length := by
      rw [hsplit, length_append]
    have htake : full.take (full.length - 6) ≠ [] := by
      rw [ne_eq, take_eq_nil_iff]
      rintro (h | h)
      · omega
      · rw [h] at hlen
        simp at hlen
    refine ⟨ys, b, zs, ?_⟩
    rcases le_or_gt 6 part.length with hin | hout
    · -- the end is in the packet
      have hpre : full.take (full.length - 6) = held ++ part.take (part.length - 6) := by
        rw [hsplit, take_append, length_append, take_of_length_le (by omega)]
        congr 2
        omega
      have hpost : full.drop (full.length - 6) = part.drop (part.length - 6) := by
        rw [hsplit, drop_append, length_append, drop_of_length_le (by omega),
          nil_append]
        congr 1
        omega
      obtain ⟨sc', hcombine, hholds', hstate, hstart, heos⟩ :=
        @Holds.combine_ofNat _ _ (part ++ zs) hholds (part.length - 6)
          (by rw [length_append]; omega)
      rw [take_append_of_le_length (by omega), ← hpre] at hcombine
      refine ⟨sc', _, part.length - 6, part.drop (part.length - 6), rfl, ?_, ?_, htake, ?_, ?_,
        heos, ?_⟩
      · rw [hbuf] at hne happ ⊢
        exact splitFrame_of_some hne happ (by dsimp only; omega) hcombine
      · rw [hstep]
      · rw [hbuf, drop_append_of_le_length (by omega)]
      · rw [← hpost]
        intro h
        have := hsix.length
        rw [h] at this
        simp at this
      · rw [hstep] at hgood₂ ⊢
        refine Follows.rescan hgood₂ rfl (k := []) ?_ (by simp) hsix hlast₆ hfound hholds'
          (w := w') hstate hstart
        rw [nil_append, hpost]
    · -- the end is in the bytes held
      obtain ⟨m, hm⟩ : ∃ m, m = 6 - part.length := ⟨_, rfl⟩
      have hmle : m ≤ held.length := by omega
      have hpre : full.take (full.length - 6) = held.take (held.length - m) := by
        rw [hsplit, take_append_of_le_length (by rw [length_append]; omega),
          length_append]
        congr 1
        omega
      have hpost : full.drop (full.length - 6) = held.drop (held.length - m) ++ part := by
        rw [hsplit, drop_append_of_le_length (by rw [length_append]; omega),
          length_append]
        congr 2
        omega
      have hklen : (held.drop (held.length - m)).length = m := by
        rw [length_drop]
        omega
      have hkne : held.drop (held.length - m) ≠ [] := by
        intro h
        rw [h] at hklen
        simp at hklen
        omega
      obtain ⟨sc', hcombine, hholds', hstate, hstart, heos⟩ :=
        Holds.combine_neg (h := held.take (held.length - m)) (k := held.drop (held.length - m))
          (by rw [take_append_drop]; exact hholds) (part ++ zs) hkne
      rw [hklen, ← hpre] at hcombine
      refine ⟨sc', _, 0, part, rfl, ?_, ?_, htake, ?_, ?_, heos, ?_⟩
      · rw [hbuf] at hne happ ⊢
        have hcall := splitFrame_of_some hne happ (by dsimp only; omega) hcombine
        rw [hcall, Int.toNat_of_nonpos (by omega)]
      · rw [hstep]
      · rw [drop_zero, hbuf]
      · rw [hpart]
        simp
      · rw [hstep] at hgood₂ ⊢
        exact Follows.rescan hgood₂ rfl hpost.symm (by omega) hsix hlast₆ hfound hholds'
          (w := w') hstate hstart

/-! ## The packets -/

theorem Follows.withEos (h : Follows sc s pend) (eos : Bool) : Follows { sc with eos } s pend := by
  obtain ⟨hgood, ⟨held, hcur, hholds⟩, hfind⟩ := h
  refine ⟨hgood, ⟨held, hcur, ?_⟩, hfind⟩
  cases hholds with
  | front hover hindex hbuffer => exact .front hover hindex hbuffer
  | leftOver hindex hover hbuffer => exact .leftOver hindex hover hbuffer

theorem cur_foldl_scanStep_ne_nil (hs : s.Good) {l : List UInt8} (h : s.cur ++ l ≠ []) :
    (l.foldl scanStep s).cur ≠ [] := by
  induction l generalizing s with
  | nil => simpa using h
  | cons b l ih =>
    refine ih (hs.step b) ?_
    rcases hb : scanByte (bytesVal (s.cur ++ [b])) s.found b with ⟨found, _ | _⟩
    · rw [scanStep_of_not_end hb]
      simp
    · rw [scanStep_of_end hb]
      have hlen := hs.end hb
      intro hnil
      have := congrArg List.length hnil
      simp only [length_append, length_drop, length_nil] at this hlen
      omega

/-- The frames of a packet: those that the specification finds in it, and at the end of the
    stream the last one. -/
theorem Follows.feed {rest : List UInt8} {fuel : ℕ} (h : Follows sc s pend)
    (hne : pend ++ rest ≠ []) (hfuel : rest.length < fuel) :
    ∃ sc' frames, H265d.feed fuel sc (pend ++ rest) = some (sc', frames) ∧
      s.frames ++ frames = (rest.foldl scanStep s).frames ++
        (if sc.eos then [(rest.foldl scanStep s).cur] else []) ∧
      (sc.eos = false → Follows sc' (rest.foldl scanStep s) []) := by
  induction fuel generalizing sc s pend rest with
  | zero => exact absurd hfuel (Nat.not_lt_zero _)
  | succ fuel ih =>
    obtain ⟨a, buf, hbuf⟩ := exists_cons_of_ne_nil hne
    have hdrop : (pend ++ rest).drop (pend ++ rest).length = [] := drop_length
    rcases h.split hne with hused | ⟨ys, b, zs, sc', frame, n, pend', hgives⟩
    · -- the packet is used up
      cases heos : sc.eos with
      | true =>
        obtain ⟨sc', hcall⟩ := hused.frame heos
        have hcur : (rest.foldl scanStep s).cur ≠ [] := by
          obtain ⟨held, hcur, -⟩ := h.holds
          refine cur_foldl_scanStep_ne_nil h.good ?_
          rw [← hcur, append_assoc]
          exact fun h => hne (append_eq_nil_iff.1 h).2
        refine ⟨sc', [(rest.foldl scanStep s).cur], ?_, ?_, fun h => absurd h (by simp)⟩
        · rw [hbuf] at hcall hdrop ⊢
          rw [H265d.feed, hcall]
          dsimp only
          rw [hdrop, H265d.feed, map_some, if_neg hcur]
        · rw [hused.scan, if_pos rfl]
      | false =>
        obtain ⟨sc', hcall, hfollows⟩ := hused.follows heos
        refine ⟨sc', [], ?_, ?_, fun _ => hfollows⟩
        · rw [hbuf] at hcall hdrop ⊢
          rw [H265d.feed, hcall]
          dsimp only
          rw [hdrop, H265d.feed, map_some, if_pos rfl]
        · rw [hused.scan, if_neg Bool.false_ne_true]
    · -- a frame, and what is left of the packet
      have hrest : rest = (ys ++ [b]) ++ zs := by
        rw [hgives.split]
        simp
      have hlen : zs.length < fuel := by
        rw [hrest] at hfuel
        simp only [length_append, length_singleton] at hfuel
        omega
      obtain ⟨sc₁, frames, hfeed, hframes, hfollows⟩ := ih hgives.follows
        (fun h => hgives.pend_ne_nil (append_eq_nil_iff.1 h).1) hlen
      have hfold : rest.foldl scanStep s = zs.foldl scanStep ((ys ++ [b]).foldl scanStep s) := by
        rw [hrest, foldl_append]
      refine ⟨sc₁, frame :: frames, ?_, ?_, ?_⟩
      · have hcall := hgives.call
        have hleft := hgives.left
        rw [hbuf] at hcall hleft ⊢
        rw [H265d.feed, hcall]
        dsimp only
        rw [hleft, hfeed, map_some, if_neg hgives.ne_nil]
      · rw [hfold, ← hgives.eos, ← hframes, hgives.frames, append_assoc, singleton_append]
      · rw [hfold, ← hgives.eos]
        exact hfollows

/-- The frames of a run. -/
theorem Follows.splitRun (h : Follows sc s []) {pkts : List (List UInt8)} (hpkts : pkts ≠ [])
    (hne : ∀ pkt ∈ pkts, pkt ≠ []) :
    ∃ frames, H265d.splitRun sc pkts = some frames ∧
      s.frames ++ frames = (pkts.flatten.foldl scanStep s).frames ++
        [(pkts.flatten.foldl scanStep s).cur] := by
  induction pkts generalizing sc s with
  | nil => exact absurd rfl hpkts
  | cons pkt pkts ih =>
    obtain ⟨sc', frames, hfeed, hframes, hfollows⟩ :=
      @Follows.feed _ _ _ pkt _ (h.withEos pkts.isEmpty)
        (by simpa using hne pkt mem_cons_self) (Nat.lt_succ_self _)
    rw [nil_append] at hfeed
    rw [H265d.splitRun, bind_eq_bind, hfeed, bind_some]
    dsimp only at hframes hfollows ⊢
    cases pkts with
    | nil =>
      refine ⟨frames, ?_, ?_⟩
      · rw [H265d.splitRun, map_some, append_nil]
      · rw [hframes, flatten_singleton]
        rfl
    | cons pkt' pkts =>
      obtain ⟨rest, hrun, hrest⟩ := ih (hfollows rfl) (cons_ne_nil _ _)
        fun p hp => hne p (mem_cons_of_mem _ hp)
      refine ⟨frames ++ rest, by rw [hrun, map_some], ?_⟩
      rw [List.isEmpty_cons, if_neg Bool.false_ne_true, List.append_nil] at hframes
      rw [← append_assoc, hframes, hrest]
      simp only [flatten_cons, foldl_append]

/-- A run gives the frames of the stream, however it is cut into packets. -/
theorem splitRun_eq {pkts : List (List UInt8)} (hpkts : pkts ≠ []) (hne : ∀ pkt ∈ pkts, pkt ≠ []) :
    splitRun {} pkts = some (framesOf pkts.flatten) := by
  obtain ⟨frames, hrun, hframes⟩ := Follows.init.splitRun hpkts hne
  rw [hrun, framesOf, ← hframes]
  rfl

/-- The splitter does not depend on packet boundaries: the frames of a run are the whole
    stream, and the same for every cut of it into packets. -/
theorem splitRun_cuts (pkts : List (List UInt8)) (hpkts : pkts ≠ [])
    (hne : ∀ pkt ∈ pkts, pkt ≠ []) :
    ∃ frames, splitRun {} pkts = some frames ∧ frames.flatten = pkts.flatten ∧
      ∀ pkts', pkts' ≠ [] → (∀ pkt ∈ pkts', pkt ≠ []) → pkts'.flatten = pkts.flatten →
        splitRun {} pkts' = some frames := by
  refine ⟨_, splitRun_eq hpkts hne, flatten_framesOf _, fun pkts' hpkts' hne' hsame => ?_⟩
  rw [splitRun_eq hpkts' hne', hsame]

/-- Two pictures, cut inside the second start code. -/
theorem splitRun_cuts_straddle : ∃ frames,
    splitRun {} [[0, 0, 1, 2, 1, 0x80, 7, 0], [0, 1, 2, 1, 0x80, 9]] = some frames ∧
      frames.flatten = [0, 0, 1, 2, 1, 0x80, 7, 0, 0, 1, 2, 1, 0x80, 9] ∧
      splitRun {} [[0, 0, 1, 2, 1, 0x80, 7, 0, 0, 1, 2, 1, 0x80, 9]] = some frames := by
  obtain ⟨frames, hrun, hflat, hcuts⟩ :=
    splitRun_cuts [[0, 0, 1, 2, 1, 0x80, 7, 0], [0, 1, 2, 1, 0x80, 9]] (by decide) (by decide)
  exact ⟨frames, hrun, hflat, hcuts _ (by decide) (by decide) (by decide)⟩

end Libmpp.H265d
