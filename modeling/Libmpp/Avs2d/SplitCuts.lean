import Libmpp.Avs2d.Split
import Libmpp.Lib.StartCodes

/-!
# Cutting an AVS2 stream into packets

`scan` puts the frames of a stream together from its pieces, without packets: a start code
begins a NAL unit or ends a frame, and a byte is stored with the NAL unit it is in. The
splitter does the same where its packets are cut in clean places (`cleanFeed`): a packet
goes on from the last one with a start code that ends no frame, or with four bytes at least
before the next start code; no start code is across two packets or appears to be, in the
last bytes of a packet read backwards; and no packet leaves a single byte behind a start
code, or ends in user data. Then the frames do not depend on the cuts (`feed_cuts`).
-/

namespace Libmpp.Avs2d

open List Option

variable {s s' s₁ : Nals} {buf rest : List UInt8} {i : ℕ} {x b : UInt8} {startCode : ℕ}

/-! ## Frames without packets -/

/-- The bytes after the last start code are stored. -/
def Nals.storing (s : Nals) : Bool :=
  s.newSeqFlag && isStartCode s.prevStartCode && s.prevStartCode != userDataStartCode

/-- `reset_nalu_buf` -/
def Nals.reset (s : Nals) : Nals := { newSeqFlag := s.newSeqFlag }

def scanByte (s : Nals) (b : UInt8) : Option Nals :=
  if s.storing then storeNalu s [b] s.prevStartCode else some s

/-- The start code ends the frame. -/
def Nals.ends (s : Nals) (startCode : ℕ) : Bool :=
  s.newSeqFlag && isSliceStartCode s.prevStartCode && !isSliceStartCode startCode

/-- The first sequence begins. -/
def beginSequence (s : Nals) (startCode : ℕ) : Nals :=
  if startCode = videoSequenceStartCode then
    { avs2AddNaluHeader { s with pNals := [] } startCode with
      newSeqFlag := true, prevStartCode := startCode }
  else s

def scanCode (s : Nals) (x : UInt8) : Option (List Frame × Nals) :=
  let startCode := startCodeOf x
  if !s.newSeqFlag then some ([], beginSequence s startCode)
  else if s.ends startCode then do
    let s ← s.markEof
    let s' ← beginNalu s.reset startCode [0, 0, 1, x]
    some ([s.frame], s')
  else do
    let s ← beginNalu s startCode [0, 0, 1, x]
    if s.ready then some ([s.frame], s.reset) else some ([], s)

/-- The frames of a stream, and what is there of the next one. -/
def scan : Nals → List Piece → Option (List Frame × Nals)
  | s, [] => some ([], s)
  | s, .byte b :: ps => do
    let s ← scanByte s b
    scan s ps
  | s, .code x :: ps => do
    let (frames, s) ← scanCode s x
    let (rest, s) ← scan s ps
    some (frames ++ rest, s)

/-! ## Clean cuts -/

/-- A packet may go on with these pieces. -/
def entryOk : List Piece → Bool
  | .code _ :: ps => piecesSize ps != 1
  | .byte _ :: .byte _ :: .byte _ :: .byte _ :: ps => piecesSize ps != 1
  | _ => false

/-- What is left of a packet can be read to its end: a start code has no single byte behind
    it, a frame that a sequence end makes ready is where a packet may go on, and the last
    byte is not user data. -/
def cleanPieces : Nals → List Piece → Bool
  | _, [] => true
  | s, .byte b :: ps =>
    (ps != [] || !s.newSeqFlag || s.prevStartCode != userDataStartCode) &&
      match scanByte s b with
      | some s' => cleanPieces s' ps
      | none => false
  | s, .code x :: ps =>
    piecesSize ps != 1 &&
      match scanCode s x with
      | some (frames, s') =>
        (frames == [] || s.ends (startCodeOf x) || ps == [] || entryOk ps) && cleanPieces s' ps
      | none => false

/-- The first piece of a packet ends no frame, and makes none ready. -/
def goesOn (s : Nals) : List Piece → Bool
  | .code x :: _ =>
    match scanCode s x with
    | some (frames, _) => frames == []
    | none => false
  | _ => !s.newSeqFlag || s.prevStartCode != userDataStartCode

/-- The bytes kept of a packet, which leaves `s`. A frame that is ready leaves none. -/
def keptTail (pkt : List UInt8) (s : Nals) : List UInt8 :=
  if s.newSeqFlag && s.pNals == [] && (pieces pkt).getLast? == some (.code 0xb1) then
    List.replicate 3 0xff
  else pkt.reverse.take 3

/-- The packets go on from the packet `last`, of which `tail` is kept, in clean places. -/
def cleanFeed : List UInt8 → List UInt8 → Nals → List (List UInt8) → Bool
  | _, _, _, [] => true
  | last, tail, s, pkt :: pkts =>
    entryOk (pieces pkt) && cleanPieces s (pieces pkt) && goesOn s (pieces pkt) &&
      decide (∀ i : ℕ, i < 3 → ¬CodeAt (tail ++ pkt.take 4) i) &&
        decide (∀ i < last.length, last.length < i + 4 → ¬CodeAt (last ++ pkt) i) &&
          match scan s (pieces pkt) with
          | some (_, s') => cleanFeed pkt (keptTail pkt s') s' pkts
          | none => false

/-! ## Storing -/

theorem setLast_concat {l : List Avs2dNalu} {nalu : Avs2dNalu} (h : s.pNals = l ++ [nalu])
    (f : Avs2dNalu → Avs2dNalu) : s.setLast f = some { s with pNals := l ++ [f nalu] } := by
  rw [Nals.setLast, h, getLast?_concat, dropLast_concat]

theorem setLast_nil (h : s.pNals = []) (f : Avs2dNalu → Avs2dNalu) : s.setLast f = none := by
  rw [Nals.setLast, h]
  rfl

/-- A NAL unit with more data, behind the `len` bytes that its buffer has. -/
def Avs2dNalu.grow (nalu : Avs2dNalu) (len : ℕ) (data : List UInt8) : Avs2dNalu :=
  { nalu with
    length := nalu.length + data.length
    dataPos := if nalu.length = 0 then len else nalu.dataPos }

theorem storeNalu_concat {l : List Avs2dNalu} {nalu : Avs2dNalu} (h : s.pNals = l ++ [nalu])
    (data : List UInt8) (startCode : ℕ) : storeNalu s data startCode =
      if isSliceStartCode startCode then
        some { s with
          pNals := l ++ [nalu.grow s.stream.length data], stream := s.stream ++ data }
      else if isHeader startCode then
        some { s with
          pNals := l ++ [nalu.grow s.header.length data], header := s.header ++ data }
      else none := by
  rw [storeNalu]
  simp only [setLast_concat h, map_some]
  rfl

theorem storeNalu_nil (h : s.pNals = []) (data : List UInt8) (startCode : ℕ) :
    storeNalu s data startCode = none := by
  rw [storeNalu]
  simp only [setLast_nil h, map_none, ite_self]

variable {data : List UInt8}

/-- Storing leaves all but the data of the last NAL unit. -/
theorem storeNalu_keeps (h : storeNalu s data startCode = some s') :
    s'.prevStartCode = s.prevStartCode ∧ s'.newSeqFlag = s.newSeqFlag ∧
      s'.newFrameFlag = s.newFrameFlag ∧ s'.pNals.length = s.pNals.length ∧
        s'.lastEof = s.lastEof := by
  rcases eq_nil_or_concat s.pNals with hnil | ⟨l, nalu, hl⟩
  · rw [storeNalu_nil hnil] at h
    exact absurd h (by simp)
  · rw [concat_eq_append] at hl
    rw [storeNalu_concat hl] at h
    split_ifs at h
    all_goals
      obtain rfl := some.inj h
      simp [Nals.lastEof, Avs2dNalu.grow, hl]

theorem grow_grow (nalu : Avs2dNalu) (len : ℕ) {x : List UInt8} (hx : x ≠ []) (y : List UInt8) :
    (nalu.grow len x).grow (len + x.length) y = nalu.grow len (x ++ y) := by
  have hpos : x.length ≠ 0 := fun h => hx (eq_nil_of_length_eq_zero h)
  simp [Avs2dNalu.grow, hpos, Nat.add_assoc]

/-- Storing goes on where it was. -/
theorem storeNalu_append {x : List UInt8} (hx : x ≠ []) (s : Nals) (y : List UInt8)
    (startCode : ℕ) :
    ((storeNalu s x startCode).bind fun s => storeNalu s y startCode) =
      storeNalu s (x ++ y) startCode := by
  rcases eq_nil_or_concat s.pNals with hnil | ⟨l, nalu, hl⟩
  · rw [storeNalu_nil hnil, storeNalu_nil hnil, bind_none]
  · rw [concat_eq_append] at hl
    rw [storeNalu_concat hl, storeNalu_concat hl]
    by_cases hslice : isSliceStartCode startCode
    · rw [if_pos hslice, if_pos hslice, bind_some, storeNalu_concat rfl, if_pos hslice]
      simp only [length_append, append_assoc, grow_grow nalu _ hx]
    · rw [if_neg hslice, if_neg hslice]
      by_cases hheader : isHeader startCode
      · rw [if_pos hheader, if_pos hheader, bind_some, storeNalu_concat rfl,
          if_neg hslice, if_pos hheader]
        simp only [length_append, append_assoc, grow_grow nalu _ hx]
      · rw [if_neg hheader, if_neg hheader, bind_none]

theorem scanByte_keeps (h : scanByte s b = some s') :
    s'.prevStartCode = s.prevStartCode ∧ s'.newSeqFlag = s.newSeqFlag ∧
      s'.newFrameFlag = s.newFrameFlag ∧ s'.pNals.length = s.pNals.length ∧
        s'.lastEof = s.lastEof := by
  rw [scanByte] at h
  split_ifs at h
  · exact storeNalu_keeps h
  · obtain rfl := some.inj h
    exact ⟨rfl, rfl, rfl, rfl, rfl⟩

/-- Bytes that are not stored one by one. -/
def scanBytes (s : Nals) (l : List UInt8) : Option Nals :=
  if s.storing ∧ l ≠ [] then storeNalu s l s.prevStartCode else some s

theorem scanBytes_of_not (h : s.storing = false) (l : List UInt8) : scanBytes s l = some s := by
  rw [scanBytes, if_neg (by simp [h])]

variable {l : List UInt8}

theorem scanBytes_keeps (h : scanBytes s l = some s') :
    s'.prevStartCode = s.prevStartCode ∧ s'.newSeqFlag = s.newSeqFlag ∧
      s'.newFrameFlag = s.newFrameFlag ∧ s'.pNals.length = s.pNals.length ∧
        s'.lastEof = s.lastEof := by
  rw [scanBytes] at h
  split_ifs at h
  · exact storeNalu_keeps h
  · obtain rfl := some.inj h
    exact ⟨rfl, rfl, rfl, rfl, rfl⟩

theorem scanBytes_cons (s : Nals) (b : UInt8) (l : List UInt8) :
    scanBytes s (b :: l) = (scanByte s b).bind fun s => scanBytes s l := by
  by_cases hs : s.storing
  · rw [scanBytes, if_pos ⟨hs, cons_ne_nil b l⟩, scanByte, if_pos hs]
    rcases hstore : storeNalu s [b] s.prevStartCode with _ | s₁
    · rw [← singleton_append, ← storeNalu_append (cons_ne_nil b []), hstore]
      rfl
    · obtain ⟨hprev, hseq, -⟩ := storeNalu_keeps hstore
      have hs₁ : s₁.storing = s.storing := by rw [Nals.storing, hprev, hseq, Nals.storing]
      rw [bind_some, scanBytes, hs₁]
      cases l with
      | nil => simpa using hstore
      | cons c l =>
        rw [if_pos ⟨hs, cons_ne_nil c l⟩, ← singleton_append,
          ← storeNalu_append (cons_ne_nil b []), hstore, bind_some, hprev]
  · rw [scanByte, if_neg hs, bind_some, scanBytes, scanBytes, if_neg (by simp [hs]),
      if_neg (by simp [hs])]

/-- Bytes are scanned as one piece. -/
theorem scan_bytes (s : Nals) (l : List UInt8) (ps : List Piece) :
    scan s (l.map .byte ++ ps) = (scanBytes s l).bind fun s => scan s ps := by
  induction l generalizing s with
  | nil => rw [scanBytes, if_neg (by simp)]; rfl
  | cons b l ih =>
    rw [map_cons, cons_append, scan, scanBytes_cons, bind_assoc]
    exact bind_congr fun s _ => ih s

theorem scan_append (s : Nals) (ps qs : List Piece) :
    scan s (ps ++ qs) =
      (scan s ps).bind fun x => (scan x.2 qs).map fun y => (x.1 ++ y.1, y.2) := by
  induction ps generalizing s with
  | nil =>
    rw [nil_append, scan, bind_some]
    simp
  | cons p ps ih =>
    cases p with
    | byte b =>
      rw [cons_append, scan, scan]
      simp only [bind_eq_bind, bind_assoc]
      exact bind_congr fun s _ => ih s
    | code x =>
      rw [cons_append, scan, scan]
      simp only [bind_eq_bind, bind_assoc]
      refine bind_congr fun y _ => ?_
      rw [ih]
      simp only [bind_assoc]
      refine bind_congr fun z _ => ?_
      rw [bind_some]
      rcases scan z.2 qs with _ | w
      · rfl
      · simp [append_assoc]

/-! ## Finding a start code -/

theorem find_iff (buf : List UInt8) (k : ℕ) :
    (buf[k]? = some 1 ∧ k + 1 < buf.length ∧ 1 < k ∧ buf[k - 1]? = some 0 ∧ buf[k - 2]? = some 0) ↔
      ∃ i, k = i + 2 ∧ CodeAt buf i := by
  constructor
  · rintro ⟨hone, hlt, hk, h1, h2⟩
    obtain ⟨i, rfl⟩ : ∃ i, k = i + 2 := ⟨k - 2, by omega⟩
    exact ⟨i, rfl, h2, h1, hone, by omega⟩
  · rintro ⟨i, rfl, h2, h1, hone, hlt⟩
    exact ⟨hone, by omega, by omega, h1, h2⟩

theorem avs2FindStartCode_none (h : ∀ i, ¬CodeAt buf i) : avs2FindStartCode buf = none := by
  rw [avs2FindStartCode, map_eq_none_iff, find?_eq_none]
  intro k _ hk
  obtain ⟨i, -, hi⟩ := (find_iff buf k).1 (of_decide_eq_true hk)
  exact h i hi

theorem avs2FindStartCode_some (hi : CodeAt buf i) (h : ∀ j < i, ¬CodeAt buf j) :
    avs2FindStartCode buf = some (i + 3) := by
  rw [avs2FindStartCode, map_eq_some_iff]
  refine ⟨i + 2, find?_range_eq_some.2 ⟨?_, ?_, fun j hj => ?_⟩, rfl⟩
  · exact decide_eq_true ((find_iff buf (i + 2)).2 ⟨i, rfl, hi⟩)
  · have := hi.2.2.2
    exact mem_range.2 (by omega)
  · simp only [Bool.not_eq_true', decide_eq_false_iff_not]
    rintro hj'
    obtain ⟨j', rfl, hcode⟩ := (find_iff buf j).1 hj'
    exact h j' (by omega) hcode

/-- The bytes of a start code. -/
theorem take_of_codeAt (hi : CodeAt buf i) (hx : buf[i + 3]? = some x) :
    (buf.drop i).take 4 = [0, 0, 1, x] := by
  obtain ⟨y, m, hdrop⟩ := codeAt_zero_iff.1 ((codeAt_drop buf i 0).2 hi)
  have hget : (buf.drop i)[3]? = buf[i + 3]? := getElem?_drop
  rw [hdrop] at hget ⊢
  rw [hx] at hget
  obtain rfl : y = x := some.inj hget
  rfl

theorem drop_of_codeAt (hi : CodeAt buf i) (hx : buf[i + 3]? = some x) :
    buf.drop i = 0 :: 0 :: 1 :: x :: buf.drop (i + 4) := by
  rw [← take_append_drop 4 (buf.drop i), take_of_codeAt hi hx, drop_drop]
  rfl

/-- The first code, or none. -/
theorem first_code (buf : List UInt8) :
    (∀ i, ¬CodeAt buf i) ∨ ∃ i, CodeAt buf i ∧ ∀ j < i, ¬CodeAt buf j := by
  by_cases h : ∃ i, CodeAt buf i
  · classical
    exact .inr ⟨Nat.find h, Nat.find_spec h, fun j hj => Nat.find_min h hj⟩
  · exact .inl fun i hi => h ⟨i, hi⟩

/-! ## Splitting at a start code -/

/-- What the splitter does at a start code: the NAL unit begins, or the frame ends. -/
def takeCode (s : Nals) (x : UInt8) : Option (Nals × Bool) :=
  let startCode := startCodeOf x
  if !s.newSeqFlag then some (beginSequence s startCode, false)
  else if s.ends startCode then
    s.markEof.map fun s => ({ s with newFrameFlag := true, prevStartCode := startCode }, true)
  else (beginNalu s startCode [0, 0, 1, x]).map fun s => (s, false)

variable {overRead : ℕ}

/-- The bytes before a start code are stored, but for the first `overRead` of them. -/
theorem splitAtCode_eq (hi : CodeAt buf i) (hx : buf[i + 3]? = some x) :
    splitAtCode s buf overRead (i + 3) =
      (scanBytes s ((buf.take i).drop overRead)).bind fun s =>
        (takeCode s x).map fun y =>
          (y.1, buf.length - 1 - (i + 3) + if y.2 then 4 else 0) := by
  have hlen : ((buf.take i).drop overRead).length = i - overRead := by
    have := hi.2.2.2
    rw [length_drop, length_take]
    omega
  have hne : (buf.take i).drop overRead ≠ [] ↔ overRead < i := by
    rw [← length_pos_iff, hlen]
    omega
  have hcode : buf.getD (i + 3) 0 = x := by rw [getD_eq_getElem?_getD, hx]; rfl
  rw [splitAtCode, hcode, Nat.add_sub_cancel, take_of_codeAt hi hx]
  by_cases hseq : s.newSeqFlag
  · have hcond : (isStartCode s.prevStartCode = true ∧ s.prevStartCode ≠ userDataStartCode ∧
        overRead < i) ↔ s.storing ∧ (buf.take i).drop overRead ≠ [] := by
      rw [Nals.storing, hseq, hne]
      simp [and_assoc]
    simp only [hseq, Bool.not_true, Bool.false_eq_true, if_false, hcond]
    rw [← scanBytes]
    refine bind_congr fun s' hs' => ?_
    obtain ⟨hprev, hnew, -⟩ := scanBytes_keeps hs'
    rw [takeCode, Nals.ends, hnew, hseq]
    simp only [Bool.not_true, Bool.false_eq_true, if_false, Bool.true_and]
    split_ifs with hends
    · rcases s'.markEof with _ | s''
      · rfl
      · rfl
    · rcases beginNalu s' (startCodeOf x) [0, 0, 1, x] with _ | s''
      · rfl
      · rfl
  · have hstoring : s.storing = false := by simp [Nals.storing, hseq]
    rw [scanBytes_of_not hstoring, bind_some, takeCode, beginSequence]
    simp only [hseq, Bool.not_false, if_true]
    split_ifs <;> rfl

/-- Without a start code, the bytes are stored, but for the first `overRead` of them. -/
theorem avs2SplitNalu_none (h : ∀ i, ¬CodeAt buf i)
    (hdata : s.newSeqFlag → s.prevStartCode ≠ userDataStartCode) :
    avs2SplitNalu s buf overRead = (scanBytes s (buf.drop overRead)).map fun s => (s, 0) := by
  have hne : buf.drop overRead ≠ [] ↔ overRead < buf.length := by
    rw [← length_pos_iff, length_drop]
    omega
  have hcond : (s.newSeqFlag = true ∧ isStartCode s.prevStartCode = true ∧ overRead < buf.length) ↔
      s.storing ∧ buf.drop overRead ≠ [] := by
    rw [Nals.storing, hne]
    simp only [Bool.and_eq_true, bne_iff_ne]
    exact ⟨fun ⟨h1, h2, h3⟩ => ⟨⟨⟨h1, h2⟩, hdata h1⟩, h3⟩, fun ⟨⟨⟨h1, h2⟩, _⟩, h3⟩ => ⟨h1, h2, h3⟩⟩
  rw [avs2SplitNalu, avs2FindStartCode_none h]
  simp only [hcond]
  rw [scanBytes]
  split_ifs <;> rfl

theorem avs2SplitNalu_some (hi : CodeAt buf i) (h : ∀ j < i, ¬CodeAt buf j)
    (hx : buf[i + 3]? = some x) :
    avs2SplitNalu s buf overRead =
      (scanBytes s ((buf.take i).drop overRead)).bind fun s =>
        (takeCode s x).map fun y =>
          (y.1, buf.length - 1 - (i + 3) + if y.2 then 4 else 0) := by
  rw [avs2SplitNalu, avs2FindStartCode_some hi h]
  exact splitAtCode_eq hi hx

/-! ## Frames that are ready -/

variable {four : List UInt8}

/-- A NAL unit is added, unless the start code is that of user data; it is the end of the
    frame if the start code is a sequence end. -/
theorem beginNalu_spec (h : beginNalu s startCode four = some s') :
    s'.newSeqFlag = s.newSeqFlag ∧ s'.newFrameFlag = s.newFrameFlag ∧
      (startCode = userDataStartCode ∧ s'.pNals = s.pNals ∨
        startCode ≠ userDataStartCode ∧ ∃ nalu, s'.pNals = s.pNals ++ [nalu] ∧
          nalu.eof = decide (startCode = videoSequenceEndCode)) := by
  rw [beginNalu] at h
  obtain ⟨s₁, hs₁, hs'⟩ := bind_eq_some_iff.1 h
  obtain rfl := some.inj hs'
  by_cases hdata : startCode = userDataStartCode
  · subst hdata
    rw [if_neg (by decide), if_neg (by decide)] at hs₁
    obtain rfl := some.inj hs₁
    exact ⟨rfl, rfl, .inl ⟨rfl, rfl⟩⟩
  · rw [if_pos hdata] at hs₁
    by_cases hslice : isSliceStartCode startCode
    · have hend : startCode ≠ videoSequenceEndCode := by
        rintro rfl
        exact absurd hslice (by decide)
      rw [if_pos hslice, storeNalu_concat rfl, if_pos hslice] at hs₁
      obtain rfl := some.inj hs₁
      exact ⟨rfl, rfl, .inr ⟨hdata, _, rfl, (decide_eq_false hend).symm⟩⟩
    · rw [if_neg hslice] at hs₁
      by_cases hend : startCode = videoSequenceEndCode
      · rw [if_pos hend, Nals.markEof, setLast_concat rfl] at hs₁
        obtain rfl := some.inj hs₁
        exact ⟨rfl, rfl, .inr ⟨hdata, _, rfl, (decide_eq_true hend).symm⟩⟩
      · rw [if_neg hend] at hs₁
        obtain rfl := some.inj hs₁
        exact ⟨rfl, rfl, .inr ⟨hdata, _, rfl, (decide_eq_false hend).symm⟩⟩

/-- Only a sequence end makes a frame ready. -/
theorem of_ready (h : beginNalu s startCode four = some s') (hs : s.ready = false) (hs' : s'.ready)
    : startCode = videoSequenceEndCode := by
  obtain ⟨-, hframe, ⟨-, hnals⟩ | ⟨-, nalu, hnals, heof⟩⟩ := beginNalu_spec h
  · rw [Nals.ready, Nals.lastEof, hframe, hnals, ← Nals.lastEof, ← Nals.ready, hs] at hs'
    exact absurd hs' Bool.false_ne_true
  · rw [Nals.ready, Bool.or_eq_false_iff] at hs
    rw [Nals.ready, hframe, hs.1, Nals.lastEof, hnals, getLast?_concat, elim_some,
      heof, Bool.false_or, Bool.and_eq_true] at hs'
    exact of_decide_eq_true hs'.2

/-- The first NAL unit of a frame does not make it ready. -/
theorem ready_beginNalu_reset (h : beginNalu s.reset startCode four = some s') :
    s'.ready = false := by
  obtain ⟨-, hframe, ⟨-, hnals⟩ | ⟨-, nalu, hnals, -⟩⟩ := beginNalu_spec h
  · rw [Nals.ready, hframe, hnals]
    rfl
  · rw [Nals.ready, hframe, hnals]
    simp [Nals.reset]

theorem ready_scanBytes (h : scanBytes s l = some s') : s'.ready = s.ready := by
  obtain ⟨-, -, hframe, hlen, heof⟩ := scanBytes_keeps h
  rw [Nals.ready, Nals.ready, hframe, hlen, heof]

variable {fs : List Frame × Nals}

/-- Where a frame ends, it is there, and the next one begins with the same start code. -/
theorem takeCode_of_ends (hends : s.ends (startCodeOf x)) (hscan : scanCode s x = some fs) :
    ∃ s₁, takeCode s x = some (s₁, true) ∧ s₁.ready ∧
      s₁.newSeqFlag ∧ scanCode s₁.reset x = some ([], fs.2) ∧ fs.1 = [s₁.frame] := by
  have hseq : s.newSeqFlag := by
    rw [Nals.ends, Bool.and_eq_true, Bool.and_eq_true] at hends
    exact hends.1.1
  rw [scanCode] at hscan
  simp only [hseq, Bool.not_true, Bool.false_eq_true, if_false, if_pos hends] at hscan
  obtain ⟨s₁, hmark, hscan⟩ := bind_eq_some_iff.1 hscan
  obtain ⟨s₂, hbegin, hscan⟩ := bind_eq_some_iff.1 hscan
  obtain rfl := some.inj hscan
  have hseq₁ : s₁.newSeqFlag := by
    rw [Nals.markEof, Nals.setLast] at hmark
    split at hmark
    · obtain rfl := some.inj hmark
      exact hseq
    · exact absurd hmark (by simp)
  refine ⟨{ s₁ with newFrameFlag := true, prevStartCode := startCodeOf x }, ?_, rfl, hseq₁, ?_,
    rfl⟩
  · rw [takeCode]
    simp only [hseq, Bool.not_true, Bool.false_eq_true, if_false, if_pos hends, hmark,
      map_some]
  · change scanCode s₁.reset x = some ([], s₂)
    have hnot : s₁.reset.ends (startCodeOf x) = false := by
      rw [Nals.ends, Nals.reset, hseq₁]
      rfl
    have hseq₂ : s₁.reset.newSeqFlag = true := hseq₁
    rw [scanCode]
    simp only [hseq₂, Bool.not_true, Bool.false_eq_true, if_false, hnot, hbegin,
      bind_eq_bind, bind_some, ready_beginNalu_reset hbegin]

theorem ready_beginSequence (hs : s.ready = false) (startCode : ℕ) :
    (beginSequence s startCode).ready = false := by
  rw [Nals.ready, Bool.or_eq_false_iff] at hs
  rw [beginSequence]
  split_ifs
  · rw [Nals.ready, Bool.or_eq_false_iff]
    exact ⟨hs.1, by simp [avs2AddNaluHeader]⟩
  · rw [Nals.ready, Bool.or_eq_false_iff]
    exact hs

theorem startCodeOf_inj {y : UInt8} (h : startCodeOf x = startCodeOf y) : x = y := by
  rw [startCodeOf, startCodeOf] at h
  exact UInt8.toNat_inj.1 (by omega)

/-- Where no frame ends, one is ready behind a sequence end, or none is. -/
theorem takeCode_of_not_ends (hends : s.ends (startCodeOf x) = false) (hs : s.ready = false)
    (hscan : scanCode s x = some fs) :
    ∃ s₁, takeCode s x = some (s₁, false) ∧
      (s₁.ready = false ∧ fs = ([], s₁) ∨
        s₁.ready ∧ fs = ([s₁.frame], s₁.reset) ∧ x = 0xb1 ∧ s₁.newSeqFlag) := by
  rw [scanCode] at hscan
  rw [takeCode]
  by_cases hseq : s.newSeqFlag
  · simp only [hseq, Bool.not_true, Bool.false_eq_true, if_false, hends] at hscan ⊢
    obtain ⟨s₁, hbegin, hscan⟩ := bind_eq_some_iff.1 hscan
    refine ⟨s₁, by rw [hbegin]; rfl, ?_⟩
    by_cases hready : s₁.ready
    · rw [if_pos hready] at hscan
      refine .inr ⟨hready, (some.inj hscan).symm, ?_, (beginNalu_spec hbegin).1.trans hseq⟩
      exact startCodeOf_inj ((of_ready hbegin hs hready).trans (by decide))
    · rw [if_neg hready] at hscan
      exact .inl ⟨Bool.eq_false_iff.2 hready, (some.inj hscan).symm⟩
  · simp only [hseq, Bool.not_false, if_true] at hscan ⊢
    exact ⟨_, rfl, .inl ⟨ready_beginSequence hs _, (some.inj hscan).symm⟩⟩

/-! ## The loop over a packet -/

variable {ps : List Piece}

theorem cleanPieces_bytes (h : cleanPieces s (l.map .byte ++ ps)) :
    ∃ s₁, scanBytes s l = some s₁ ∧ cleanPieces s₁ ps ∧
      (ps = [] → l ≠ [] → s.newSeqFlag → s.prevStartCode ≠ userDataStartCode) := by
  induction l generalizing s with
  | nil => exact ⟨s, by rw [scanBytes, if_neg (by simp)], h, fun _ hne => absurd rfl hne⟩
  | cons b l ih =>
    rw [map_cons, cons_append, cleanPieces, Bool.and_eq_true] at h
    obtain ⟨hlast, h⟩ := h
    rcases hb : scanByte s b with _ | s₀
    · simp [hb] at h
    · rw [hb] at h
      obtain ⟨s₁, hs₁, hclean, hdata⟩ := ih h
      obtain ⟨hprev, hseq, -⟩ := scanByte_keeps hb
      refine ⟨s₁, by rw [scanBytes_cons, hb, bind_some, hs₁], hclean, fun hps _ hnew => ?_⟩
      by_cases hl : l = []
      · simpa [hl, hps, hnew] using hlast
      · have := hdata hps hl (hseq.trans hnew)
        rwa [hprev] at this

theorem cleanPieces_code (h : cleanPieces s (.code x :: ps)) :
    piecesSize ps ≠ 1 ∧ ∃ fs, scanCode s x = some fs ∧ cleanPieces fs.2 ps ∧
      (fs.1 ≠ [] → s.ends (startCodeOf x) = false → ps ≠ [] → entryOk ps) := by
  rw [cleanPieces, Bool.and_eq_true, bne_iff_ne] at h
  obtain ⟨hsize, h⟩ := h
  rcases hx : scanCode s x with _ | fs
  · simp [hx] at h
  · rw [hx] at h
    simp only [Bool.and_eq_true, Bool.or_eq_true, beq_iff_eq] at h
    refine ⟨hsize, fs, rfl, h.2, fun hfs hends hps => ?_⟩
    rcases h.1 with ((hnil | hend) | hempty) | hok
    · exact absurd hnil hfs
    · exact absurd hend (by simp [hends])
    · exact absurd hempty hps
    · exact hok

theorem scan_code (h : scanCode s x = some fs) :
    scan s (.code x :: ps) = (scan fs.2 ps).map fun y => (fs.1 ++ y.1, y.2) := by
  rw [scan, h]
  rcases hscan : scan fs.2 ps with _ | y
  · simp [hscan]
  · simp [hscan]

/-- A frame is ready: it is the first one, and `rest'` is left. -/
structure ReadyAt (s : Nals) (rest : List UInt8) (s' : Nals) (rest' : List UInt8) : Prop where
  suffix : rest' <:+ rest
  newSeqFlag : s'.newSeqFlag
  clean : cleanPieces s'.reset (pieces rest')
  scan : scan s (pieces rest) =
    (Avs2d.scan s'.reset (pieces rest')).map fun y => (s'.frame :: y.1, y.2)
  entry : rest' ≠ [] → entryOk (pieces rest')
  pieces : pieces rest' <:+ pieces rest
  last : rest' = [] → (Libmpp.pieces rest).getLast? = some (.code 0xb1)

/-- The loop uses up what is left of a packet, or it stops with a frame that is ready. -/
theorem splitLoop_clean {fuel : ℕ} {remain : ℕ} (hfuel : rest.length < fuel)
    (hs : s.ready = false) (hone : rest.length ≠ 1) (hremain : rest = [] → remain = 0)
    (hclean : cleanPieces s (pieces rest)) :
    (∃ s', splitLoop fuel s rest remain = some (s', [], 0, false) ∧ s'.ready = false ∧
      scan s (pieces rest) = some ([], s')) ∨
    ∃ s' rest' remain', splitLoop fuel s rest remain = some (s', rest', remain', true) ∧
      ReadyAt s rest s' rest' := by
  induction fuel generalizing s rest remain with
  | zero => exact absurd hfuel (Nat.not_lt_zero _)
  | succ fuel ih =>
    by_cases hnil : rest = []
    · subst hnil
      obtain rfl := hremain rfl
      exact .inl ⟨s, rfl, hs, rfl⟩
    have hlen : 2 ≤ rest.length := by
      have := length_pos_iff.2 hnil
      omega
    rw [splitLoop, if_neg (by omega)]
    rcases first_code rest with hnone | ⟨i, hi, hfirst⟩
    · have hpieces := pieces_of_none hnone
      rw [hpieces, ← append_nil (rest.map _)] at hclean
      obtain ⟨s₁, hs₁, -, hdata⟩ := cleanPieces_bytes hclean
      have hready₁ := (ready_scanBytes hs₁).trans hs
      rw [avs2SplitNalu_none hnone (hdata rfl hnil), drop_zero, hs₁]
      simp only [map_some, bind_eq_bind, bind_some, Nat.sub_zero,
        drop_length, hready₁, Bool.false_eq_true, if_false]
      refine .inl ⟨s₁, ?_, hready₁, ?_⟩
      · obtain ⟨fuel, rfl⟩ : ∃ k, fuel = k + 1 := ⟨fuel - 1, by omega⟩
        rfl
      · rw [hpieces, ← append_nil (rest.map _), scan_bytes, hs₁]
        rfl
    · obtain ⟨x, hx, hpieces⟩ := pieces_of_first hi hfirst
      have hlt := hi.2.2.2
      rw [hpieces] at hclean
      obtain ⟨s₁, hs₁, hclean₁, -⟩ := cleanPieces_bytes hclean
      obtain ⟨hsize, fs, hfs, hclean₂, hentry⟩ := cleanPieces_code hclean₁
      have hready₁ := (ready_scanBytes hs₁).trans hs
      have hscan : scan s (pieces rest) =
          (scan fs.2 (pieces (rest.drop (i + 4)))).map fun y => (fs.1 ++ y.1, y.2) := by
        rw [hpieces, scan_bytes, hs₁, bind_some, scan_code hfs]
      rw [avs2SplitNalu_some hi hfirst hx, drop_zero, hs₁]
      simp only [bind_eq_bind, bind_some]
      by_cases hends : s₁.ends (startCodeOf x)
      · obtain ⟨s₂, htake, hready₂, hseq₂, hreset, hframe⟩ := takeCode_of_ends hends hfs
        have hdrop : rest.length - (rest.length - 1 - (i + 3) + 4) = i := by omega
        have hrest : pieces (rest.drop i) = .code x :: pieces (rest.drop (i + 4)) := by
          rw [drop_of_codeAt hi hx, pieces_code]
        rw [htake]
        simp only [map_some, bind_some, if_true, hready₂, hdrop]
        refine .inr ⟨s₂, rest.drop i, _, rfl, drop_suffix .., hseq₂, ?_, ?_, fun _ => ?_, ?_,
          fun hempty => ?_⟩
        · rw [hrest, cleanPieces, hreset]
          simp [hsize, hclean₂]
        · rw [hrest, scan_code hreset, hscan, hframe, Option.map_map]
          rfl
        · rw [hrest, entryOk]
          exact bne_iff_ne.2 hsize
        · rw [hrest, hpieces]
          exact suffix_append ..
        · have := drop_eq_nil_iff.1 hempty
          omega
      · have hends := Bool.eq_false_iff.2 hends
        obtain ⟨s₂, htake, hcases⟩ := takeCode_of_not_ends hends hready₁ hfs
        have hdrop : rest.length - (rest.length - 1 - (i + 3)) = i + 4 := by omega
        rw [htake]
        simp only [map_some, bind_some, Bool.false_eq_true, if_false, Nat.add_zero,
          hdrop]
        rcases hcases with ⟨hready₂, rfl⟩ | ⟨hready₂, rfl, rfl, hseq₂⟩
        · rw [hready₂]
          have hlen' : (rest.drop (i + 4)).length = rest.length - (i + 4) := length_drop
          have hscan' : scan s (pieces rest) = scan s₂ (pieces (rest.drop (i + 4))) := by
            rw [hscan]
            simp
          rw [hscan']
          have hfuel' : (rest.drop (i + 4)).length < fuel := by omega
          have hone' : (rest.drop (i + 4)).length ≠ 1 := by
            rw [← piecesSize_pieces]
            exact hsize
          have hremain' : rest.drop (i + 4) = [] → rest.length - 1 - (i + 3) = 0 := by
            intro hempty
            have := drop_eq_nil_iff.1 hempty
            omega
          rcases ih hfuel' hready₂ hone' hremain' hclean₂ with
            hend | ⟨s', rest', remain', hloop, hat⟩
          · exact .inl hend
          · refine .inr ⟨s', rest', remain', hloop, hat.suffix.trans (drop_suffix ..),
              hat.newSeqFlag, hat.clean, hscan'.trans hat.scan, hat.entry, ?_, fun hempty => ?_⟩
            · rw [hpieces]
              exact (hat.pieces.trans (suffix_cons ..)).trans (suffix_append ..)
            · rw [hpieces, getLast?_append, getLast?_cons, hat.last hempty]
              rfl
        · rw [if_pos hready₂]
          refine .inr ⟨s₂, rest.drop (i + 4), _, rfl, drop_suffix .., hseq₂, hclean₂, hscan,
            fun hne => hentry (by simp) hends fun hempty => hne ?_, ?_, fun hempty => ?_⟩
          · refine eq_nil_of_length_eq_zero ?_
            rw [← piecesSize_pieces, hempty, piecesSize_nil]
          · rw [hpieces]
            exact (suffix_cons ..).trans (suffix_append ..)
          · rw [hpieces, hempty, pieces, getLast?_concat]

/-! ## The begin of a packet -/

theorem pieces_eq_byte (h : pieces l = .byte b :: ps) :
    ∃ m, l = b :: m ∧ pieces m = ps ∧ ¬CodeAt l 0 := by
  by_cases hcode : CodeAt l 0
  · obtain ⟨x, m, rfl⟩ := codeAt_zero_iff.1 hcode
    rw [pieces_code] at h
    exact absurd (List.cons.inj h).1 (by simp)
  · cases l with
    | nil => exact absurd h (by simp [pieces])
    | cons a m =>
      rw [pieces_byte hcode] at h
      obtain ⟨hb, hps⟩ := List.cons.inj h
      obtain rfl := Piece.byte.inj hb
      exact ⟨m, rfl, hps, hcode⟩

theorem pieces_eq_code (h : pieces l = .code x :: ps) :
    ∃ m, l = 0 :: 0 :: 1 :: x :: m ∧ pieces m = ps := by
  by_cases hcode : CodeAt l 0
  · obtain ⟨y, m, rfl⟩ := codeAt_zero_iff.1 hcode
    rw [pieces_code] at h
    obtain ⟨hx, hps⟩ := List.cons.inj h
    obtain rfl := Piece.code.inj hx
    exact ⟨m, rfl, hps⟩
  · cases l with
    | nil => exact absurd h (by simp [pieces])
    | cons a m =>
      rw [pieces_byte hcode] at h
      exact absurd (List.cons.inj h).1 (by simp)

/-- The splitter reads the first four bytes `v` of a packet, behind the three that are kept. -/
structure FirstRead (s : Nals) (tail v : List UInt8) (s₁ : Nals) : Prop where
  split : avs2SplitNalu s (tail ++ v.take 4) 3 = some (s₁, 0)
  ready : s₁.ready = false
  clean : cleanPieces s₁ (pieces (v.drop 4))
  scan : scan s (pieces v) = Avs2d.scan s₁ (pieces (v.drop 4))
  one : (v.drop 4).length ≠ 1
  four : 4 ≤ v.length
  pieces : pieces (v.drop 4) <:+ pieces v

variable {tail : List UInt8}

theorem firstRead_code {m : List UInt8} (htail : tail.length = 3) (hs : s.ready = false)
    (hcode : ∀ i < 3, ¬CodeAt (tail ++ [0, 0, 1, x]) i) (hone : m.length ≠ 1)
    (hclean : cleanPieces s (.code x :: pieces m)) (hgoes : goesOn s (.code x :: pieces m)) :
    ∃ s₁, FirstRead s tail (0 :: 0 :: 1 :: x :: m) s₁ := by
  obtain ⟨-, fs, hfs, hclean', -⟩ := cleanPieces_code hclean
  have hframes : fs.1 = [] := by
    rw [goesOn, hfs] at hgoes
    exact beq_iff_eq.1 hgoes
  have hends : s.ends (startCodeOf x) = false := by
    by_contra hends
    obtain ⟨s₁, -, -, -, -, hframe⟩ := takeCode_of_ends (Bool.eq_true_of_not_eq_false hends) hfs
    simp [hframes] at hframe
  obtain ⟨s₁, htake, ⟨hready, rfl⟩ | ⟨-, rfl, -⟩⟩ := takeCode_of_not_ends hends hs hfs
  · have hat : CodeAt (tail ++ [0, 0, 1, x]) 3 := by
      rw [← htail, ← Nat.add_zero tail.length, codeAt_append_right]
      exact codeAt_zero_iff.2 ⟨x, [], rfl⟩
    have hx : (tail ++ [0, 0, 1, x])[3 + 3]? = some x := by
      rw [getElem?_append_right (by omega), htail]
      rfl
    refine ⟨s₁, ?_, hready, hclean', ?_, hone, by simp, ?_⟩
    · change avs2SplitNalu s (tail ++ [0, 0, 1, x]) 3 = _
      have hnil : ((tail ++ [0, 0, 1, x]).take 3).drop 3 = [] :=
        drop_eq_nil_iff.2 (by rw [length_take]; omega)
      rw [avs2SplitNalu_some hat hcode hx, hnil, scanBytes, if_neg (by simp), bind_some,
        htake]
      simp [htail]
    · rw [pieces_code, scan_code hfs]
      simp
    · rw [pieces_code]
      exact suffix_cons ..
  · simp at hframes

theorem firstRead_bytes {m : List UInt8} {b₀ b₁ b₂ b₃ : UInt8} (htail : tail.length = 3)
    (hs : s.ready = false) (hcode : ∀ i < 3, ¬CodeAt (tail ++ [b₀, b₁, b₂, b₃]) i)
    (hnot : ¬CodeAt (b₀ :: b₁ :: b₂ :: b₃ :: m) 0)
    (hpieces : pieces (b₀ :: b₁ :: b₂ :: b₃ :: m) = [b₀, b₁, b₂, b₃].map .byte ++ pieces m)
    (hone : m.length ≠ 1) (hclean : cleanPieces s (pieces (b₀ :: b₁ :: b₂ :: b₃ :: m)))
    (hgoes : s.newSeqFlag → s.prevStartCode ≠ userDataStartCode) :
    ∃ s₁, FirstRead s tail (b₀ :: b₁ :: b₂ :: b₃ :: m) s₁ := by
  rw [hpieces] at hclean
  obtain ⟨s₁, hs₁, hclean', -⟩ := cleanPieces_bytes hclean
  have hnone : ∀ i, ¬CodeAt (tail ++ [b₀, b₁, b₂, b₃]) i := by
    intro i hi
    have hlt := hi.2.2.2
    rw [length_append, htail] at hlt
    rcases Nat.lt_or_ge i 3 with hi3 | hi3
    · exact hcode i hi3 hi
    · obtain rfl : i = 3 := by
        simp at hlt
        omega
      rw [← htail, ← Nat.add_zero tail.length, codeAt_append_right] at hi
      exact hnot ((codeAt_append_left (by simp) m).2 hi)
  have hdrop : (tail ++ [b₀, b₁, b₂, b₃]).drop 3 = [b₀, b₁, b₂, b₃] := by
    rw [← htail, drop_left]
  refine ⟨s₁, ?_, (ready_scanBytes hs₁).trans hs, hclean', ?_, hone, by simp, ?_⟩
  · change avs2SplitNalu s (tail ++ [b₀, b₁, b₂, b₃]) 3 = _
    rw [avs2SplitNalu_none hnone hgoes, hdrop, hs₁]
    rfl
  · rw [hpieces, scan_bytes, hs₁]
    rfl
  · rw [hpieces]
    exact suffix_append ..

variable {v : List UInt8}

theorem firstRead (htail : tail.length = 3) (hs : s.ready = false) (hentry : entryOk (pieces v))
    (hclean : cleanPieces s (pieces v)) (hgoes : goesOn s (pieces v))
    (hcode : ∀ i < 3, ¬CodeAt (tail ++ v.take 4) i) : ∃ s₁, FirstRead s tail v s₁ := by
  rw [entryOk.eq_def] at hentry
  split at hentry
  · rename_i x ps hps
    obtain ⟨m, rfl, rfl⟩ := pieces_eq_code hps
    rw [piecesSize_pieces, bne_iff_ne] at hentry
    rw [hps] at hclean hgoes
    exact firstRead_code htail hs hcode hentry hclean hgoes
  · rename_i b₀ b₁ b₂ b₃ ps hps
    obtain ⟨m₀, rfl, h₀, hnot⟩ := pieces_eq_byte hps
    obtain ⟨m₁, rfl, h₁, -⟩ := pieces_eq_byte h₀
    obtain ⟨m₂, rfl, h₂, -⟩ := pieces_eq_byte h₁
    obtain ⟨m, rfl, rfl, -⟩ := pieces_eq_byte h₂
    rw [piecesSize_pieces, bne_iff_ne] at hentry
    refine firstRead_bytes htail hs hcode hnot hps hentry hclean ?_
    rw [hps] at hgoes
    simpa [goesOn, ← Bool.not_eq_true, imp_iff_not_or] using hgoes
  · exact absurd hentry Bool.false_ne_true

/-- A packet may go on here with the bytes `v`. -/
structure Enters (c : Avs2dCtx) (v : List UInt8) : Prop where
  length : c.prevTailData.length = 7
  ready : c.nals.ready = false
  entry : entryOk (pieces v)
  clean : cleanPieces c.nals (pieces v)
  goes : goesOn c.nals (pieces v)
  tail : ∀ i < 3, ¬CodeAt (c.prevTailData.take 3 ++ v.take 4) i

variable {c : Avs2dCtx}

theorem Enters.prepare {pos : ℕ} (hv : data.drop pos = v) (h : Enters c v) :
    (∃ s', avs2dParsePrepareSplit c data pos =
        some ({ nals := s', prevTailData := v.reverse.take 3 ++ v.take 4 }, data.length, false) ∧
      s'.ready = false ∧ scan c.nals (pieces v) = some ([], s')) ∨
    ∃ s' rest' tail, avs2dParsePrepareSplit c data pos =
        some ({ nals := s', prevTailData := tail }, data.length - rest'.length, true) ∧
      rest'.length < v.length ∧ ReadyAt c.nals v s' rest' := by
  have htail : (c.prevTailData.take 3).length = 3 := by rw [length_take, h.length]; rfl
  obtain ⟨s₁, hf⟩ := firstRead htail h.ready h.entry h.clean h.goes h.tail
  have hmin : min 4 v.length = 4 := min_eq_left hf.four
  have hseven : c.prevTailData.drop (3 + 4) = [] := drop_eq_nil_iff.2 h.length.le
  have hlen : v.length ≤ data.length := by
    rw [← hv, length_drop]
    exact Nat.sub_le ..
  have hdrop : data.drop (pos + 4) = v.drop 4 := by rw [← hv, drop_drop]
  have hkept : (c.prevTailData.take 3 ++ v.take 4).drop 3 = v.take 4 :=
    (congrArg (fun n => (c.prevTailData.take 3 ++ v.take 4).drop n) htail.symm).trans drop_left
  rw [avs2dParsePrepareSplit]
  simp only [hv, hmin, hseven, append_nil, hf.split, bind_eq_bind, bind_some,
    Nat.not_lt_zero, if_false, Nat.sub_zero, hdrop, hkept, if_pos (Nat.le_of_succ_le hf.four)]
  have hfuel : (v.drop 4).length < data.length + 1 := by
    rw [length_drop]
    omega
  have hremain : v.drop 4 = [] → (0 : ℕ) = 0 := fun _ => rfl
  rcases splitLoop_clean hfuel hf.ready hf.one hremain hf.clean with
    ⟨s', hloop, hready, hscan⟩ | ⟨s', rest', remain', hloop, hat⟩
  · refine .inl ⟨s', ?_, hready, hf.scan.trans hscan⟩
    rw [hloop]
    simp
  · have hle : rest'.length ≤ v.length - 4 := by
      rw [← length_drop]
      exact hat.suffix.length_le
    let tail := if remain' = 0 then v.reverse.take 3 ++ v.take 4
      else c.prevTailData.take 3 ++ v.take 4
    refine .inr ⟨s', rest', tail, ?_, ?_, hat.suffix.trans (drop_suffix ..), hat.newSeqFlag,
      hat.clean, hf.scan.trans hat.scan, hat.entry, hat.pieces.trans hf.pieces, fun hempty => ?_⟩
    · rw [hloop]
      rfl
    · have := hf.four
      omega
    · obtain ⟨ps, hps⟩ := hf.pieces
      rw [← hps, getLast?_append, hat.last hempty]
      rfl

/-- Behind a frame that is ready, a packet may go on. -/
theorem ReadyAt.enters {rest' : List UInt8} (h : ReadyAt s v s' rest') (hne : rest' ≠ []) :
    Enters (resetNaluBuf { nals := s', prevTailData := tail }) rest' where
  length := rfl
  ready := rfl
  entry := h.entry hne
  clean := h.clean
  goes := by
    have hclean := h.clean
    change goesOn s'.reset (Libmpp.pieces rest')
    rcases hps : Libmpp.pieces rest' with _ | ⟨p, ps⟩
    · simp [goesOn, Nals.reset, userDataStartCode]
    · cases p with
      | byte b => simp [goesOn, Nals.reset, userDataStartCode]
      | code x =>
        rw [hps] at hclean
        obtain ⟨-, fs, hfs, -⟩ := cleanPieces_code hclean
        have hends : s'.reset.ends (startCodeOf x) = false := by
          simp [Nals.ends, Nals.reset, isSliceStartCode]
        obtain ⟨s₁, htake, ⟨-, rfl⟩ | ⟨hready, -, -, -⟩⟩ := takeCode_of_not_ends hends rfl hfs
        · simp [goesOn, hfs]
        · rw [takeCode] at htake
          have hnew : s'.reset.newSeqFlag = true := h.newSeqFlag
          simp only [hnew, Bool.not_true, Bool.false_eq_true, if_false, hends,
            map_eq_some_iff, Prod.mk.injEq, and_true] at htake
          obtain ⟨s₂, hbegin, rfl⟩ := htake
          exact absurd (ready_beginNalu_reset hbegin) (by simp [hready])
  tail i hi hcode := by
    have hff : (List.replicate 3 (0xff : UInt8) ++ rest'.take 4)[i]? = some 0 := hcode.1
    rw [getElem?_append_left (by simpa using hi), getElem?_replicate_of_lt hi] at hff
    exact absurd (some.inj hff) (by decide)

/-! ## Packets -/

/-- A sequence end that makes no frame ready leaves its NAL unit. -/
theorem pNals_of_sequenceEnd (h : scanCode s 0xb1 = some ([], s')) (hseq : s'.newSeqFlag) :
    s'.pNals ≠ [] := by
  rw [scanCode] at h
  by_cases hnew : s.newSeqFlag
  · simp only [hnew, Bool.not_true, Bool.false_eq_true, if_false] at h
    split_ifs at h with hends
    · obtain ⟨s₁, -, h⟩ := bind_eq_some_iff.1 h
      obtain ⟨s₂, -, h⟩ := bind_eq_some_iff.1 h
      simp at h
    · obtain ⟨s₁, hbegin, h⟩ := bind_eq_some_iff.1 h
      split_ifs at h with hready
      · simp at h
      · obtain ⟨-, rfl⟩ := Prod.mk.inj (some.inj h)
        obtain ⟨-, -, ⟨hdata, -⟩ | ⟨-, nalu, hnals, -⟩⟩ := beginNalu_spec hbegin
        · exact absurd hdata (by decide)
        · rw [hnals]
          exact append_ne_nil_of_right_ne_nil _ (cons_ne_nil nalu [])
  · simp only [hnew, Bool.not_false, if_true] at h
    obtain ⟨-, rfl⟩ := Prod.mk.inj (some.inj h)
    exact absurd hseq hnew

theorem keptTail_of_scan (h : scan s (pieces v) = some ([], s')) :
    keptTail v s' = v.reverse.take 3 := by
  rw [keptTail, if_neg]
  simp only [Bool.and_eq_true, beq_iff_eq, not_and]
  rintro ⟨hseq, hnals⟩ hlast
  obtain ⟨ps, hps⟩ := getLast?_eq_some_iff.1 hlast
  rw [hps, scan_append] at h
  obtain ⟨y, -, h⟩ := bind_eq_some_iff.1 h
  obtain ⟨z, hz, h⟩ := map_eq_some_iff.1 h
  obtain ⟨hframes, rfl⟩ := Prod.mk.inj h
  obtain ⟨-, hzero⟩ := append_eq_nil_iff.1 hframes
  rw [scan] at hz
  obtain ⟨fs, hfs, hz⟩ := bind_eq_some_iff.1 hz
  obtain rfl := some.inj hz
  obtain ⟨hfirst, -⟩ := append_eq_nil_iff.1 hzero
  exact pNals_of_sequenceEnd (hfs.trans (congrArg (fun f => some (f, fs.2)) hfirst)) hseq hnals

theorem four_le_of_entryOk (h : entryOk (pieces v)) : 4 ≤ v.length := by
  rw [← piecesSize_pieces]
  rw [entryOk.eq_def] at h
  split at h
  · rename_i hps
    simp [hps, Piece.size]
  · rename_i hps
    simp [hps, Piece.size]
    omega
  · exact absurd h Bool.false_ne_true

theorem take_reverse_suffix {rest' : List UInt8} (h : rest' <:+ v) (hlen : 3 ≤ rest'.length) :
    v.reverse.take 3 = rest'.reverse.take 3 := by
  obtain ⟨l, rfl⟩ := h
  rw [reverse_append, take_append_of_le_length (by rw [length_reverse]; exact hlen)]

theorem drop_of_suffix (h : v <:+ data) : data.drop (data.length - v.length) = v := by
  obtain ⟨l, rfl⟩ := h
  rw [length_append, Nat.add_sub_cancel, drop_left]

/-- The splitter reads a packet to its end, and has the frames of the stream. -/
theorem Enters.feedPacket {pos fuel : ℕ} (hv : data.drop pos = v) (h : Enters c v)
    (hfuel : v.length < fuel) :
    ∃ frames c', feedPacket fuel c data pos = some (frames, c') ∧
      scan c.nals (pieces v) = some (frames, c'.nals) ∧ c'.prevTailData.length = 7 ∧
        c'.nals.ready = false ∧ c'.prevTailData.take 3 = keptTail v c'.nals := by
  induction fuel generalizing c v pos with
  | zero => exact absurd hfuel (Nat.not_lt_zero _)
  | succ fuel ih =>
    have hfour := four_le_of_entryOk h.entry
    have hpos : ¬data.length ≤ pos := by
      intro hle
      rw [drop_eq_nil_iff.2 hle] at hv
      simp [← hv] at hfour
    have hdone : ∀ c' : Avs2dCtx, Avs2d.feedPacket fuel c' data data.length = some ([], c') := by
      intro c'
      obtain ⟨fuel, rfl⟩ : ∃ k, fuel = k + 1 := ⟨fuel - 1, by omega⟩
      rw [Avs2d.feedPacket, if_pos le_rfl]
    rw [Avs2d.feedPacket, if_neg hpos]
    rcases h.prepare hv with ⟨s', hprep, hready, hscan⟩ | ⟨s', rest', tail, hprep, hlt, hat⟩
    · rw [hprep]
      refine ⟨[], _, hdone _, hscan, ?_, hready, ?_⟩
      · simp
        omega
      · rw [keptTail_of_scan hscan, take_left']
        simp
        omega
    · rw [hprep]
      simp only [bind_eq_bind, bind_some, if_true]
      by_cases hempty : rest' = []
      · subst hempty
        rw [length_nil, Nat.sub_zero, hdone]
        refine ⟨[s'.frame], _, rfl, hat.scan, rfl, rfl, ?_⟩
        have hcond : (resetNaluBuf { nals := s', prevTailData := tail }).nals.newSeqFlag = true :=
          hat.newSeqFlag
        rw [keptTail, if_pos]
        · rfl
        · simp only [hcond, hat.last rfl]
          rfl
      · have hsuffix : rest' <:+ data := hat.suffix.trans (hv ▸ drop_suffix ..)
        have henters : Enters (resetNaluBuf { nals := s', prevTailData := tail }) rest' :=
          hat.enters hempty
        obtain ⟨frames, c', hfeed, hscan, hlen, hready, htail⟩ :=
          ih (drop_of_suffix hsuffix) henters (by omega)
        have hfour' := four_le_of_entryOk henters.entry
        refine ⟨s'.frame :: frames, c', ?_, ?_, hlen, hready, ?_⟩
        · rw [hfeed]
          rfl
        · rw [hat.scan]
          exact congrArg (Option.map _) hscan
        · rw [htail, keptTail, keptTail, take_reverse_suffix hat.suffix (by omega)]
          obtain ⟨ps, hps⟩ := hat.pieces
          obtain ⟨p, hp⟩ : ∃ p, (pieces rest').getLast? = some p := by
            rcases hlast : (pieces rest').getLast? with _ | p
            · have := piecesSize_pieces rest'
              rw [getLast?_eq_none_iff.1 hlast, piecesSize_nil] at this
              omega
            · exact ⟨p, rfl⟩
          have hlast : (pieces v).getLast? = some p := by rw [← hps, getLast?_append, hp]; rfl
          rw [hp, hlast]

/-- No start code is across a packet and the next ones. -/
theorem pieces_cons_packet {pkt : List UInt8} {pkts : List (List UInt8)}
    (h : cleanFeed pkt tail s pkts) :
    pieces (pkt ++ pkts.flatten) = pieces pkt ++ pieces pkts.flatten := by
  refine pieces_append fun i hi hlt hcode => ?_
  cases pkts with
  | nil =>
    have := hcode.2.2.2
    rw [flatten_nil, append_nil] at this
    omega
  | cons pkt' pkts =>
    simp only [cleanFeed, Bool.and_eq_true, decide_eq_true_eq] at h
    obtain ⟨⟨⟨⟨⟨hentry, -⟩, -⟩, -⟩, hacross⟩, -⟩ := h
    have hfour := four_le_of_entryOk hentry
    rw [flatten_cons, ← append_assoc] at hcode
    refine hacross i hi hlt ((codeAt_append_left ?_ _).1 hcode)
    rw [length_append]
    omega

theorem feed_clean {last : List UInt8} {pkts : List (List UInt8)}
    (h : cleanFeed last (c.prevTailData.take 3) c.nals pkts) (hlen : c.prevTailData.length = 7)
    (hready : c.nals.ready = false) : ∃ frames c', feed c pkts = some (frames, c') ∧
      scan c.nals (pieces pkts.flatten) = some (frames, c'.nals) := by
  induction pkts generalizing c last with
  | nil => exact ⟨[], c, rfl, rfl⟩
  | cons pkt pkts ih =>
    simp only [cleanFeed, Bool.and_eq_true, decide_eq_true_eq] at h
    obtain ⟨⟨⟨⟨⟨hentry, hclean⟩, hgoes⟩, hcode⟩, -⟩, h⟩ := h
    obtain ⟨frames, c₁, hfeed, hscan, hlen₁, hready₁, htail⟩ :=
      Enters.feedPacket (drop_zero : pkt.drop 0 = pkt)
        ⟨hlen, hready, hentry, hclean, hgoes, hcode⟩ (Nat.lt_succ_self pkt.length)
    rw [hscan] at h
    change cleanFeed pkt (keptTail pkt c₁.nals) c₁.nals pkts at h
    have hpieces := pieces_cons_packet h
    rw [← htail] at h
    obtain ⟨rest, c', hrest, hscan'⟩ := ih h hlen₁ hready₁
    refine ⟨frames ++ rest, c', ?_, ?_⟩
    · rw [feed, hfeed]
      simp [hrest]
    · rw [flatten_cons, hpieces, scan_append, hscan, bind_some, hscan']
      rfl

/-- A decoder that starts is fed with packets that are cut in clean places. -/
def Clean (pkts : List (List UInt8)) : Prop := cleanFeed [] [0, 0, 0] {} pkts

instance (pkts : List (List UInt8)) : Decidable (Clean pkts) :=
  inferInstanceAs (Decidable (_ = true))

/-- Of two ways to cut a stream in clean places, the frames are the same: those of the
    stream. -/
theorem feed_cuts {p q : List (List UInt8)} (hpq : p.flatten = q.flatten) (hp : Clean p)
    (hq : Clean q) : ∃ frames c c', feed {} p = some (frames, c) ∧ feed {} q = some (frames, c') ∧
      c.nals = c'.nals ∧ scan {} (pieces p.flatten) = some (frames, c.nals) := by
  obtain ⟨frames, c, hfeed, hscan⟩ := feed_clean (c := {}) hp rfl rfl
  obtain ⟨frames', c', hfeed', hscan'⟩ := feed_clean (c := {}) hq rfl rfl
  rw [← hpq] at hscan'
  obtain ⟨rfl, hnals⟩ := Prod.mk.inj (some.inj (hscan.symm.trans hscan'))
  exact ⟨frames, c, c', hfeed, hfeed', hnals, hscan⟩

/-- A sequence header, and three pictures of a header and a slice. -/
def threePictures : List UInt8 :=
  let picture (n : UInt8) : List UInt8 :=
    [0, 0, 1, 0xb3, 0x55, n, 0x77, 0x88, 0, 0, 1, 0, 0x99, n, 0xbb, 0xcc, 0xdd, 0xee, 0x99, 0xaa]
  [0, 0, 1, 0xb0, 0x11, 0x22, 0x33, 0x44] ++ picture 1 ++ picture 2 ++ picture 3

/-- One packet, or a cut in the first slice and one before the second. -/
theorem feed_cuts_slice : ∃ frames c c', feed {} [threePictures] = some (frames, c) ∧
    feed {} [threePictures.take 22, (threePictures.drop 22).take 14, threePictures.drop 36] =
      some (frames, c') ∧ c.nals = c'.nals ∧
        scan {} (pieces [threePictures].flatten) = some (frames, c.nals) :=
  feed_cuts (by decide) (by decide) (by decide)

/-- Where a packet ends with a picture, the header of the next one is lost. -/
theorem feed_cut_before_picture :
    [threePictures].flatten = [threePictures.take 28, threePictures.drop 28].flatten ∧
      threePictures.take 28 ≠ [] ∧ threePictures.drop 28 ≠ [] ∧
        (feed {} [threePictures]).map (fun x => x.1.map Frame.header) =
          some [[0x11, 0x22, 0x33, 0x44, 0x55, 1, 0x77, 0x88], [0x55, 2, 0x77, 0x88]] ∧
          (feed {} [threePictures.take 28, threePictures.drop 28]).map
              (fun x => x.1.map Frame.header) =
            some [[0x11, 0x22, 0x33, 0x44, 0x55, 1, 0x77, 0x88], []] := by
  decide

end Libmpp.Avs2d
