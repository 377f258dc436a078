import Libmpp.Base.PacketSegments

/-!
# The segments stay listed

Every function that changes the segments of a packet writes to its own array only, and leaves
the entries in use linked in their order (`SegmentsOk`). What the other packets have is not
touched: no two packets have the same array (`AllOk`).
-/

namespace Libmpp.Base

open Function Option

variable {h h' h₁ h₂ : Heap} {packet : ℕ} {p p₁ p₂ : MppPacketImpl} {arr arr₁ arr₂ : List MppPktSeg}
  {infos : List SegInfo}

/-! ## The array of a packet -/

/-- The start of the array in use -/
def MppPacketImpl.base (p : MppPacketImpl) (packet : ℕ) : SegPtr :=
  match p.segmentsExt with
  | none => .segmentsDef packet 0
  | some a => .segmentsExt a 0

/-- The array in use -/
def Heap.array (h : Heap) (p : MppPacketImpl) : Option (List MppPktSeg) :=
  match p.segmentsExt with
  | none => some p.segmentsDef.toList
  | some a => h.segs a

theorem base_ne_null (p : MppPacketImpl) (packet : ℕ) : p.base packet ≠ .null := by
  rw [MppPacketImpl.base]
  cases p.segmentsExt with
  | none => nofun
  | some a => nofun

theorem base_add_ne_null (p : MppPacketImpl) (packet i : ℕ) : (p.base packet).add i ≠ .null := by
  rw [MppPacketImpl.base]
  cases p.segmentsExt with
  | none => nofun
  | some a => nofun

theorem add_add (ptr : SegPtr) (i j : ℕ) : (ptr.add i).add j = ptr.add (i + j) := by
  cases ptr with
  | null => rfl
  | segmentsDef packet k => exact congrArg (SegPtr.segmentsDef packet) (Nat.add_assoc k i j)
  | segmentsExt a k => exact congrArg (SegPtr.segmentsExt a) (Nat.add_assoc k i j)

theorem base_add_zero (p : MppPacketImpl) (packet : ℕ) :
    (p.base packet).add 0 = p.base packet := by
  rw [MppPacketImpl.base]
  cases p.segmentsExt with
  | none => rfl
  | some a => rfl

theorem seg_base_add (hp : h.packets packet = some p) (harr : h.array p = some arr) (i : ℕ) :
    h.seg ((p.base packet).add i) = arr[i]? := by
  rw [Heap.array] at harr
  rw [MppPacketImpl.base]
  cases hext : p.segmentsExt with
  | none =>
    rw [hext, some_inj] at harr
    rw [SegPtr.add, Heap.seg, hp, bind_some, Nat.zero_add, ← harr, Vector.getElem?_toList]
  | some a =>
    rw [hext] at harr
    change h.segs a = some arr at harr
    rw [SegPtr.add, Heap.seg, harr, bind_some, Nat.zero_add]

/-- Nothing but the array of the packet changes. -/
structure SegsEdited (h h' : Heap) (packet : ℕ) (p p' : MppPacketImpl) (arr' : List MppPktSeg) :
    Prop where
  packets : h'.packets = Function.update h.packets packet (some p')
  same : ∃ def_, p' = { p with segmentsDef := def_ }
  array : h'.array p' = some arr'
  segs : ∀ a, p.segmentsExt ≠ some a → h'.segs a = h.segs a

theorem SegsEdited.packets_self (e : SegsEdited h h' packet p p₁ arr) : h'.packets packet = some p₁ := by
  rw [e.packets, update_self]

theorem SegsEdited.base (e : SegsEdited h h' packet p p₁ arr) : p₁.base packet = p.base packet := by
  obtain ⟨def_, rfl⟩ := e.same
  rfl

theorem SegsEdited.trans (e : SegsEdited h h₁ packet p p₁ arr₁) (e' : SegsEdited h₁ h₂ packet p₁ p₂ arr₂) :
    SegsEdited h h₂ packet p p₂ arr₂ where
  packets := by rw [e'.packets, e.packets, update_idem]
  same := by
    obtain ⟨def_, rfl⟩ := e.same
    obtain ⟨def', rfl⟩ := e'.same
    exact ⟨def', rfl⟩
  array := e'.array
  segs a ha := by
    have hext : p₁.segmentsExt = p.segmentsExt := by
      obtain ⟨def_, rfl⟩ := e.same
      rfl
    exact (e'.segs a (hext ▸ ha)).trans (e.segs a ha)

theorem SegsEdited.refl (hp : h.packets packet = some p) (harr : h.array p = some arr) :
    SegsEdited h h packet p p arr where
  packets := (update_eq_self_iff.2 hp.symm).symm
  same := ⟨p.segmentsDef, rfl⟩
  array := harr
  segs _ _ := rfl

theorem toList_modify (v : Vector MppPktSeg segCntDefault) (i : ℕ) (f : MppPktSeg → MppPktSeg) :
    (v.mapFinIdx fun j s _ => if j = i then f s else s).toList = v.toList.modify i f := by
  refine List.ext_getElem (by simp) fun j hj hj' => ?_
  rw [List.getElem_modify, Vector.getElem_toList, Vector.getElem_mapFinIdx, Vector.getElem_toList]
  simp only [eq_comm]

/-- A segment is written. -/
theorem edited_modifySeg (hp : h.packets packet = some p) (harr : h.array p = some arr) (i : ℕ)
    (f : MppPktSeg → MppPktSeg) :
    ∃ p', SegsEdited h (h.modifySeg ((p.base packet).add i) f) packet p p' (arr.modify i f) := by
  rw [Heap.array] at harr
  rw [MppPacketImpl.base]
  cases hext : p.segmentsExt with
  | none =>
    rw [hext, some_inj] at harr
    subst harr
    refine ⟨{ p with segmentsDef := p.segmentsDef.mapFinIdx fun j s _ =>
      if j = i then f s else s }, ?_, ⟨_, rfl⟩, ?_, fun _ _ => rfl⟩
    · rw [SegPtr.add, Heap.modifySeg, hp, Nat.zero_add]
      rfl
    · rw [Heap.array]
      dsimp only
      rw [hext, toList_modify]
  | some a =>
    rw [hext] at harr
    change h.segs a = some arr at harr
    refine ⟨p, ?_, ⟨p.segmentsDef, rfl⟩, ?_, fun b hb => ?_⟩
    · exact (update_eq_self_iff.2 hp.symm).symm
    · rw [Heap.array, hext, SegPtr.add, Heap.modifySeg, Nat.zero_add]
      dsimp only
      rw [update_self, harr]
      rfl
    · rw [SegPtr.add, Heap.modifySeg]
      exact update_of_ne (fun heq => hb (hext.trans (congrArg some heq.symm))) ..

/-- The next pointers are set. -/
theorem edited_relink (hp : h.packets packet = some p) (harr : h.array p = some arr) (n : ℕ) :
    ∃ p' arr', SegsEdited h (h.relink (p.base packet) n) packet p p' arr' ∧
      arr'.length = arr.length ∧ ∀ i, arr'[i]? = if i < n then
        arr[i]?.map fun s => { s with next := (p.base packet).add (i + 1) } else arr[i]? := by
  induction n with
  | zero => exact ⟨p, arr, .refl hp harr, rfl, fun i => (if_neg (Nat.not_lt_zero i)).symm⟩
  | succ n ih =>
    obtain ⟨p₁, arr₁, hedit, hlen, harr₁⟩ := ih
    obtain ⟨p₂, hedit'⟩ := edited_modifySeg hedit.packets_self hedit.array n fun s =>
      { s with next := (p.base packet).add (n + 1) }
    rw [hedit.base] at hedit'
    have hlast : h.relink (p.base packet) (n + 1) = (h.relink (p.base packet) n).modifySeg
        ((p.base packet).add n) fun s => { s with next := (p.base packet).add (n + 1) } := by
      rw [Heap.relink, List.range_succ, List.foldl_append]
      rfl
    rw [← hlast] at hedit'
    refine ⟨p₂, _, hedit.trans hedit', by rw [List.length_modify, hlen], fun i => ?_⟩
    by_cases hi : n = i
    · subst hi
      rw [List.getElem?_modify_eq, harr₁, if_neg (lt_irrefl n), if_pos (Nat.lt_succ_self n)]
      rfl
    · rw [List.getElem?_modify_ne _ _ hi, harr₁]
      by_cases hlt : i < n
      · rw [if_pos hlt, if_pos (Nat.lt_succ_of_lt hlt)]
      · rw [if_neg hlt, if_neg (by omega)]

/-! ## Linked entries -/

/-- The segment numbered `i` of `n`, in the array that starts at `base` -/
def segAt (base : SegPtr) (n i : ℕ) (info : SegInfo) : MppPktSeg where
  index := i
  type := info.1
  offset := info.2.1
  len := info.2.2
  next := if i + 1 < n then base.add (i + 1) else .null

/-- The entries for the infos are in the array, linked in their order. -/
structure Entries (h : Heap) (packet : ℕ) (p : MppPacketImpl) (infos : List SegInfo) : Prop where
  array : ∃ arr, h.array p = some arr ∧ arr.length = p.segmentBufCnt ∧
    ∀ (i : ℕ) info, infos[i]? = some info →
      arr[i]? = some (segAt (p.base packet) infos.length i info)
  nb : p.segmentNb = infos.length
  room : p.segmentNb ≤ p.segmentBufCnt

/-- The segments of a packet are as they should be. More than its own array has room for are
    in an allocated one. -/
structure SegmentsOk (h : Heap) (packet : ℕ) (p : MppPacketImpl) (infos : List SegInfo) :
    Prop where
  entries : Entries h packet p infos
  segments : p.segments = if infos = [] then .null else p.base packet
  many : p.segmentsExt ≠ none → segCntDefault < infos.length

theorem chain_succ {ptr : SegPtr} {s : MppPktSeg} (hne : ptr ≠ .null) (hseg : h.seg ptr = some s)
    (n : ℕ) : h.chain (n + 1) ptr = (h.chain n s.next).map ((ptr, s) :: ·) := by
  rw [Heap.chain, hseg, map_eq_bind]
  · rfl
  · exact hne

theorem chain_of_entries (hp : h.packets packet = some p) (hok : Entries h packet p infos)
    (n i : ℕ) (hn : i + n = infos.length) (hpos : 0 < n) :
    ∃ l, h.chain n ((p.base packet).add i) = some l ∧ l.length = n ∧
      ∀ (k : ℕ) ptr s, l[k]? = some (ptr, s) → p.Stores packet ptr ∧ s.index = (i + k : ℕ) ∧
        infos[i + k]? = some (s.type, s.offset, s.len) := by
  obtain ⟨arr, harr, hlen, hentry⟩ := hok.array
  have hroom := hok.room
  have hnb := hok.nb
  have hstores : ∀ j < infos.length, p.Stores packet ((p.base packet).add j) := by
    intro j hj
    rw [Heap.array] at harr
    rw [MppPacketImpl.base]
    cases hext : p.segmentsExt with
    | none =>
      rw [hext, some_inj] at harr
      rw [← harr, Vector.length_toList] at hlen
      exact ⟨rfl, by omega⟩
    | some a => exact ⟨hext, by omega⟩
  induction n generalizing i with
  | zero => exact absurd hpos (lt_irrefl 0)
  | succ n ih =>
    have hget : infos[i]? = some infos[i] := List.getElem?_eq_getElem (by omega)
    have hseg := (seg_base_add hp harr i).trans (hentry i _ hget)
    have hstep : h.chain (n + 1) ((p.base packet).add i) =
        (h.chain n (segAt (p.base packet) infos.length i infos[i]).next).map
          (((p.base packet).add i, segAt (p.base packet) infos.length i infos[i]) :: ·) :=
      chain_succ (base_add_ne_null p packet i) hseg n
    obtain ⟨l, hl, hlenl, hprop⟩ : ∃ l, h.chain n
        (segAt (p.base packet) infos.length i infos[i]).next = some l ∧ l.length = n ∧
        ∀ (k : ℕ) ptr s, l[k]? = some (ptr, s) → p.Stores packet ptr ∧
          s.index = (i + 1 + k : ℕ) ∧ infos[i + 1 + k]? = some (s.type, s.offset, s.len) := by
      rcases Nat.eq_zero_or_pos n with rfl | hpos'
      · rw [segAt, if_neg (by omega)]
        exact ⟨[], rfl, rfl, fun k ptr s hk => absurd hk nofun⟩
      · rw [segAt, if_pos (by omega)]
        exact ih (i + 1) (by omega) hpos'
    rw [hstep, hl]
    refine ⟨_, rfl, congrArg (· + 1) hlenl, fun k ptr s hk => ?_⟩
    cases k with
    | zero =>
      obtain ⟨rfl, rfl⟩ := Prod.mk.inj (some_inj.1 hk)
      exact ⟨hstores i (by omega), rfl, hget⟩
    | succ k =>
      rw [List.getElem?_cons_succ] at hk
      rw [← Nat.add_assoc, Nat.add_right_comm]
      exact hprop k ptr s hk

/-- Segments that are as they should be are listed. -/
theorem SegmentsOk.listed (hp : h.packets packet = some p) (hok : SegmentsOk h packet p infos) :
    SegmentsListed h packet p infos where
  room := hok.entries.room
  nb := hok.entries.nb
  chain := by
    rw [hok.entries.nb, hok.segments]
    by_cases hnil : infos = []
    · rw [if_pos hnil, hnil]
      exact ⟨[], rfl, rfl, fun k ptr s hk => absurd hk nofun⟩
    · rw [if_neg hnil]
      obtain ⟨l, hl, hlen, hprop⟩ := chain_of_entries hp hok.entries infos.length 0 (Nat.zero_add _)
        (List.length_pos_iff.2 hnil)
      rw [base_add_zero] at hl
      refine ⟨l, hl, hlen, fun k ptr s hk => ?_⟩
      have := hprop k ptr s hk
      rwa [Nat.zero_add] at this

/-! ## One packet is changed -/

/-- Only the packet changes, from `p` to `p'`, and the arrays that it has or had. -/
structure Touches (h h' : Heap) (packet : ℕ) (p p' : MppPacketImpl) : Prop where
  packets : h'.packets = Function.update h.packets packet (some p')
  segs : ∀ a, p.segmentsExt ≠ some a → p'.segmentsExt ≠ some a → h'.segs a = h.segs a
  fresh : ∀ a, p'.segmentsExt = some a → p.segmentsExt = some a ∨ h.segs a = none
  freed : ∀ a, p.segmentsExt = some a → p'.segmentsExt ≠ some a → h'.segs a = none

theorem Touches.trans (t : Touches h h₁ packet p p₁) (t' : Touches h₁ h₂ packet p₁ p₂) :
    Touches h h₂ packet p p₂ where
  packets := by rw [t'.packets, t.packets, update_idem]
  segs a ha ha' := by
    by_cases hmid : p₁.segmentsExt = some a
    · rw [t'.freed a hmid ha', (t.fresh a hmid).resolve_left ha]
    · rw [t'.segs a hmid ha', t.segs a ha hmid]
  fresh a ha := by
    by_cases hmid : p₁.segmentsExt = some a
    · exact t.fresh a hmid
    · by_cases hold : p.segmentsExt = some a
      · exact .inl hold
      · rw [← t.segs a hold hmid]
        exact .inr ((t'.fresh a ha).resolve_left hmid)
  freed a ha ha' := by
    by_cases hmid : p₁.segmentsExt = some a
    · exact t'.freed a hmid ha'
    · rw [t'.segs a hmid ha', t.freed a ha hmid]

/-- A change that leaves the array where it is -/
theorem Touches.of_same (hpackets : h'.packets = update h.packets packet (some p₁))
    (hext : p₁.segmentsExt = p.segmentsExt)
    (hsegs : ∀ a, p.segmentsExt ≠ some a → h'.segs a = h.segs a) : Touches h h' packet p p₁ where
  packets := hpackets
  segs a ha _ := hsegs a ha
  fresh _ ha := .inl (hext ▸ ha)
  freed _ ha ha' := absurd (hext.trans ha) ha'

theorem Touches.refl (hp : h.packets packet = some p) : Touches h h packet p p :=
  .of_same (update_eq_self_iff.2 hp.symm).symm rfl fun _ _ => rfl

theorem SegsEdited.touches (e : SegsEdited h h' packet p p₁ arr) : Touches h h' packet p p₁ := by
  refine .of_same e.packets ?_ e.segs
  obtain ⟨def_, rfl⟩ := e.same
  rfl

/-- What the allocator may hand out stays so. -/
theorem Touches.hands (t : Touches h h' packet p p₁) (hp : h.packets packet = some p) {a : ℕ}
    (ha : h.Hands packet a) : h'.Hands packet a := by
  have hp' : h'.packets packet = some p₁ := by rw [t.packets, update_self]
  by_cases hnew : p₁.segmentsExt = some a
  · exact .inr ⟨p₁, hp', hnew⟩
  · refine .inl ?_
    by_cases hold : p.segmentsExt = some a
    · exact t.freed a hold hnew
    · rw [t.segs a hold hnew]
      refine ha.resolve_right fun ⟨q, hq, hext⟩ => hold ?_
      rw [hp, some_inj] at hq
      rw [hq, hext]

/-- The segments of every packet are as they should be, and no two share an array. -/
structure AllOk (h : Heap) (infos : SegInfos) : Prop where
  ok : ∀ packet p, h.packets packet = some p → SegmentsOk h packet p (infos packet)
  apart : ∀ {i j p q a}, h.packets i = some p → h.packets j = some q →
    p.segmentsExt = some a → q.segmentsExt = some a → i = j

theorem SegmentsOk.congr {infos : List SegInfo} (hok : SegmentsOk h packet p infos)
    (hsegs : ∀ a, p.segmentsExt = some a → h'.segs a = h.segs a) :
    SegmentsOk h' packet p infos where
  entries := by
    obtain ⟨⟨arr, harr, hrest⟩, hnb, hroom⟩ := hok.entries
    refine ⟨⟨arr, ?_, hrest⟩, hnb, hroom⟩
    rw [← harr, Heap.array, Heap.array]
    cases hext : p.segmentsExt with
    | none => rfl
    | some a => exact hsegs a hext
  segments := hok.segments
  many := hok.many

theorem AllOk.touch {infos : SegInfos} {l : List SegInfo} (hall : AllOk h infos)
    (hp : h.packets packet = some p) (t : Touches h h' packet p p₁)
    (hok : SegmentsOk h' packet p₁ l) : AllOk h' (update infos packet l) := by
  have hother : ∀ {j q}, j ≠ packet → h'.packets j = some q → h.packets j = some q := by
    intro j q hj hq
    rwa [t.packets, update_of_ne hj] at hq
  have hself : ∀ {q}, h'.packets packet = some q → q = p₁ := by
    intro q hq
    rw [t.packets, update_self] at hq
    exact (some_inj.1 hq).symm
  -- the array of another packet is not the one that is handed out
  have hapart : ∀ {j q a}, j ≠ packet → h.packets j = some q → q.segmentsExt = some a →
      p.segmentsExt ≠ some a ∧ p₁.segmentsExt ≠ some a := by
    intro j q a hj hq hext
    have hold : p.segmentsExt ≠ some a := fun heq => hj (hall.apart hq hp hext heq)
    refine ⟨hold, fun heq => ?_⟩
    have hnone := (t.fresh a heq).resolve_left hold
    obtain ⟨arr, harr, -⟩ := (hall.ok j q hq).entries.array
    rw [Heap.array, hext] at harr
    exact absurd (hnone.symm.trans harr) nofun
  constructor
  · intro j q hq
    by_cases hj : j = packet
    · subst hj
      obtain rfl := hself hq
      rw [update_self]
      exact hok
    · rw [update_of_ne hj]
      have hq' := hother hj hq
      refine (hall.ok j q hq').congr fun a hext => ?_
      obtain ⟨hold, hnew⟩ := hapart hj hq' hext
      exact t.segs a hold hnew
  · intro i j q r a hq hr hqa hra
    by_cases hi : i = packet
    · by_cases hj : j = packet
      · exact hi.trans hj.symm
      · subst hi
        obtain rfl := hself hq
        exact absurd hqa (hapart hj (hother hj hr) hra).2
    · by_cases hj : j = packet
      · subst hj
        obtain rfl := hself hr
        exact absurd hra (hapart hi (hother hi hq) hqa).2
      · exact hall.apart (hother hi hq) (hother hj hr) hqa hra

/-! ## Adding a segment -/

/-- The segment is written behind the `n` ones in the array that starts at `ptr`. -/
def addAt (packet n : ℕ) (info : SegInfo) (ptr : SegPtr) (h : Heap) : Heap :=
  let seg : MppPktSeg :=
    { index := n, type := info.1, offset := info.2.1, len := info.2.2, next := .null }
  let h := h.modifySeg (ptr.add n) fun _ => seg
  let h := if n = 0 then h else
    h.modifySeg (ptr.add (n - 1)) fun s => { s with next := ptr.add n }
  { h with
    packets := Function.update h.packets packet <| (h.packets packet).map fun p =>
      { p with segmentNb := p.segmentNb + 1 } }

theorem addAt_spec (hp : h.packets packet = some p) (hent : Entries h packet p infos)
    (hlt : infos.length < p.segmentBufCnt) (hsegments : p.segments = p.base packet)
    (hmany : p.segmentsExt ≠ none → segCntDefault ≤ infos.length) (info : SegInfo) :
    ∃ p', Touches h (addAt packet p.segmentNb info (p.base packet) h) packet p p' ∧
      SegmentsOk (addAt packet p.segmentNb info (p.base packet) h) packet p' (infos ++ [info]) := by
  obtain ⟨⟨arr, harr, hlen, hentry⟩, hnb, hroom⟩ := hent
  rw [hnb]
  set n := infos.length with hn
  set seg : MppPktSeg :=
    { index := n, type := info.1, offset := info.2.1, len := info.2.2, next := .null } with hseg
  obtain ⟨p₁, hedit₁⟩ := edited_modifySeg hp harr n fun _ => seg
  have hget₁ : ∀ i, (arr.modify n fun _ => seg)[i]? = if i = n then some seg else arr[i]? := by
    intro i
    by_cases hi : n = i
    · subst hi
      rw [List.getElem?_modify_eq, if_pos rfl, List.getElem?_eq_getElem (by omega)]
      rfl
    · rw [List.getElem?_modify_ne _ _ hi, if_neg (Ne.symm hi)]
  -- the one before points to it
  obtain ⟨p₂, arr₂, hedit, hlen₂, hget⟩ : ∃ p₂ arr₂, SegsEdited h
      (if n = 0 then h.modifySeg ((p.base packet).add n) fun _ => seg else
        (h.modifySeg ((p.base packet).add n) fun _ => seg).modifySeg ((p.base packet).add (n - 1))
          fun s => { s with next := (p.base packet).add n }) packet p p₂ arr₂ ∧
      arr₂.length = arr.length ∧ ∀ i, arr₂[i]? = if i = n then some seg
        else if i + 1 = n then arr[i]?.map fun s => { s with next := (p.base packet).add n }
        else arr[i]? := by
    split_ifs with h0
    · refine ⟨p₁, _, hedit₁, by rw [List.length_modify], fun i => ?_⟩
      rw [hget₁, if_neg (show ¬i + 1 = n by omega)]
    · obtain ⟨p₂, hedit₂⟩ := edited_modifySeg hedit₁.packets_self hedit₁.array (n - 1) fun s =>
        { s with next := (p.base packet).add n }
      rw [hedit₁.base] at hedit₂
      refine ⟨p₂, _, hedit₁.trans hedit₂, by rw [List.length_modify, List.length_modify],
        fun i => ?_⟩
      by_cases hi : n - 1 = i
      · subst hi
        rw [List.getElem?_modify_eq, hget₁, if_neg (by omega), if_neg (by omega),
          if_pos (by omega)]
        rfl
      · rw [List.getElem?_modify_ne _ _ hi, hget₁]
        by_cases hin : i = n
        · rw [if_pos hin, if_pos hin]
        · rw [if_neg hin, if_neg hin, if_neg (show ¬i + 1 = n by omega)]
  set h₂ := if n = 0 then h.modifySeg ((p.base packet).add n) fun _ => seg else
    (h.modifySeg ((p.base packet).add n) fun _ => seg).modifySeg ((p.base packet).add (n - 1))
      fun s => { s with next := (p.base packet).add n } with hh₂
  obtain ⟨def_, hp₂⟩ := hedit.same
  have hpackets : (addAt packet n info (p.base packet) h).packets =
      update h.packets packet (some { p₂ with segmentNb := p₂.segmentNb + 1 }) := by
    rw [addAt]
    dsimp only
    rw [← hseg, ← hh₂, hedit.packets_self, hedit.packets, update_idem]
    rfl
  have hsegs : (addAt packet n info (p.base packet) h).segs = h₂.segs := rfl
  refine ⟨{ p₂ with segmentNb := p₂.segmentNb + 1 }, .of_same hpackets (by rw [hp₂]) ?_, ?_, ?_, ?_⟩
  · intro a ha
    rw [hsegs]
    exact hedit.segs a ha
  · have hbase : ({ p₂ with segmentNb := p₂.segmentNb + 1 } : MppPacketImpl).base packet =
        p.base packet := by rw [hp₂]; rfl
    refine ⟨⟨arr₂, ?_, ?_, fun i x hx => ?_⟩, ?_, ?_⟩
    · rw [← hedit.array, Heap.array, Heap.array, hsegs]
    · rw [hlen₂, hlen, hp₂]
    · rw [hbase, hget, List.length_append, List.length_singleton, ← hn]
      by_cases hi : i < n
      · rw [List.getElem?_append_left hi] at hx
        rw [if_neg hi.ne]
        by_cases hlast : i + 1 = n
        · rw [if_pos hlast, hentry i x hx, map_some, segAt, segAt,
            if_pos (show i + 1 < n + 1 by omega), hlast]
        · rw [if_neg hlast, hentry i x hx, segAt, segAt, if_pos (show i + 1 < n by omega),
            if_pos (show i + 1 < n + 1 by omega)]
      · rw [List.getElem?_append_right (not_lt.1 hi)] at hx
        obtain ⟨hzero, rfl⟩ : i - n = 0 ∧ info = x := by
          rcases hk : i - n with _ | k
          · rw [← hn, hk] at hx
            exact ⟨rfl, some_inj.1 hx⟩
          · rw [← hn, hk] at hx
            exact absurd hx nofun
        obtain rfl : i = n := by omega
        rw [if_pos rfl, segAt, if_neg (lt_irrefl _)]
    · rw [hp₂, List.length_append]
      exact congrArg (· + 1) hnb
    · rw [hp₂]
      change p.segmentNb + 1 ≤ p.segmentBufCnt
      omega
  · rw [if_neg (List.append_ne_nil_of_right_ne_nil _ (List.cons_ne_nil _ _)), hp₂]
    exact hsegments
  · intro hext
    rw [hp₂] at hext
    have := hmany hext
    rw [List.length_append, List.length_singleton]
    omega

/-- The packet in a larger array, allocated at `a` -/
def MppPacketImpl.grown (p : MppPacketImpl) (a : ℕ) : MppPacketImpl :=
  { p with
    segmentsExt := some a, segments := .segmentsExt a 0, segmentBufCnt := 2 * p.segmentBufCnt }

theorem packets_freeSegs (x : Option ℕ) (h : Heap) :
    (forSome x Heap.freeSegs h).packets = h.packets := by
  cases x with
  | none => rfl
  | some a => rfl

theorem segs_freeSegs (x : Option ℕ) (h : Heap) (b : ℕ) :
    (forSome x Heap.freeSegs h).segs b = if x = some b then none else h.segs b := by
  cases x with
  | none => exact (if_neg nofun).symm
  | some a =>
    change update h.segs a none b = _
    rw [update_apply]
    simp only [some_inj, eq_comm]

/-- The segments move to a larger array. -/
theorem growSegments_spec (hp : h.packets packet = some p) (hent : Entries h packet p infos)
    (hfull : p.segmentNb = p.segmentBufCnt) {a : ℕ} (ha : h.Hands packet a) :
    Touches h (growSegments packet p a h) packet p (p.grown a) ∧
      Entries (growSegments packet p a h) packet (p.grown a) infos := by
  obtain ⟨⟨arr, harr, hlen, hentry⟩, hnb, hroom⟩ := hent
  set h₁ := growSegments packet p a h with hh₁
  have hpackets : h₁.packets = update h.packets packet (some (p.grown a)) := by
    rw [hh₁, growSegments]
    change update (forSome p.segmentsExt Heap.freeSegs h).packets packet _ = _
    rw [packets_freeSegs]
    rfl
  have hold : (p.segmentsExt.bind h.segs).getD p.segmentsDef.toList = arr := by
    rw [Heap.array] at harr
    cases hext : p.segmentsExt with
    | none =>
      rw [hext] at harr
      exact some_inj.1 harr
    | some b =>
      rw [hext] at harr
      change h.segs b = some arr at harr
      rw [bind_some, harr]
      rfl
  set buf := (arr ++ List.replicate (2 * p.segmentBufCnt - arr.length) zeroSeg).mapIdx fun i s =>
    if i < p.segmentNb - 1 then { s with next := .segmentsExt a (i + 1) } else s with hbuf
  have hsegs : ∀ b, h₁.segs b = if b = a then some buf else
      if p.segmentsExt = some b then none else h.segs b := by
    intro b
    rw [← segs_freeSegs, hh₁, growSegments, hold]
    exact update_apply ..
  refine ⟨⟨hpackets, fun b hb hb' => ?_, fun b hb => ?_, fun b hb hb' => ?_⟩, ?_, hnb, ?_⟩
  · have hba : b ≠ a := fun heq => hb' (congrArg some heq.symm)
    rw [hsegs, if_neg hba, if_neg hb]
  · obtain rfl : a = b := some_inj.1 hb
    rcases ha with hnone | ⟨q, hq, hext⟩
    · exact .inr hnone
    · rw [hp, some_inj] at hq
      exact .inl (hq ▸ hext)
  · have hba : b ≠ a := fun heq => hb' (congrArg some heq.symm)
    rw [hsegs, if_neg hba, if_pos hb]
  · refine ⟨buf, ?_, ?_, fun i x hx => ?_⟩
    · change h₁.segs a = some buf
      rw [hsegs, if_pos rfl]
    · rw [hbuf, List.length_mapIdx, List.length_append, List.length_replicate, hlen]
      change _ = 2 * p.segmentBufCnt
      omega
    · have hi : i < infos.length := by
        by_contra hge
        rw [List.getElem?_eq_none (not_lt.1 hge)] at hx
        exact absurd hx nofun
      rw [hbuf, List.getElem?_mapIdx, List.getElem?_append_left (by omega), hentry i x hx,
        map_some]
      change some (if _ then _ else _) = some (segAt (.segmentsExt a 0) _ _ _)
      rw [segAt, segAt, SegPtr.add, Nat.zero_add, hnb]
      by_cases hlast : i + 1 < infos.length
      · rw [if_pos (by omega), if_pos hlast, if_pos hlast]
      · rw [if_neg (by omega), if_neg hlast, if_neg hlast]
  · change p.segmentNb ≤ 2 * p.segmentBufCnt
    omega

theorem addSegmentInfo_full (hp : h.packets packet = some p) (type : ℤ) (offset len : BitVec 32)
    (alloc : Option ℕ) (hge : p.segmentNb ≥ p.segmentBufCnt) :
    mppPacketAddSegmentInfo packet type offset len alloc h = match alloc with
      | none => (mppNok, h)
      | some a => (mppOk, addAt packet p.segmentNb (type, offset, len) (.segmentsExt a 0)
        (growSegments packet p a h)) := by
  rw [mppPacketAddSegmentInfo, hp]
  dsimp only
  rw [if_pos hge]
  rfl

theorem addSegmentInfo_first (hp : h.packets packet = some p) (type : ℤ) (offset len : BitVec 32)
    (alloc : Option ℕ) (hlt : ¬p.segmentNb ≥ p.segmentBufCnt) (hnull : p.segments = .null) :
    mppPacketAddSegmentInfo packet type offset len alloc h =
      (mppOk, addAt packet p.segmentNb (type, offset, len) (.segmentsDef packet 0)
        (h.store packet { p with segments := .segmentsDef packet 0 })) := by
  rw [mppPacketAddSegmentInfo, hp]
  dsimp only
  rw [if_neg hlt, hnull]
  rfl

theorem addSegmentInfo_next (hp : h.packets packet = some p) (type : ℤ) (offset len : BitVec 32)
    (alloc : Option ℕ) (hlt : ¬p.segmentNb ≥ p.segmentBufCnt) (hne : p.segments ≠ .null) :
    mppPacketAddSegmentInfo packet type offset len alloc h =
      (mppOk, addAt packet p.segmentNb (type, offset, len) p.segments h) := by
  rw [mppPacketAddSegmentInfo, hp]
  dsimp only
  rw [if_neg hlt]
  cases hsegs : p.segments with
  | null => exact absurd hsegs hne
  | segmentsDef j i => rfl
  | segmentsExt a i => rfl

/-- A packet has room for the segments of its own array at least. -/
theorem SegmentsOk.bufCnt (hok : SegmentsOk h packet p infos) :
    segCntDefault ≤ p.segmentBufCnt := by
  obtain ⟨⟨arr, harr, hlen, -⟩, hnb, hroom⟩ := hok.entries
  by_cases hext : p.segmentsExt = none
  · rw [Heap.array, hext, some_inj] at harr
    rw [← hlen, ← harr, Vector.length_toList]
  · have := hok.many hext
    omega

/-- A call adds the segment, or leaves everything as it was. -/
theorem addSegmentInfo_spec (hp : h.packets packet = some p) (hok : SegmentsOk h packet p infos)
    (type : ℤ) (offset len : BitVec 32) {alloc : Option ℕ}
    (halloc : ∀ a, alloc = some a → h.Hands packet a) :
    addSegmentInfo packet type offset len alloc h = (mppNok, h) ∨
      ∃ h' p', addSegmentInfo packet type offset len alloc h = (mppOk, h') ∧
        Touches h h' packet p p' ∧ SegmentsOk h' packet p' (infos ++ [(type, offset, len)]) := by
  have hcnt := hok.bufCnt
  have hnb := hok.entries.nb
  have hroom := hok.entries.room
  rw [addSegmentInfo]
  by_cases hfull : p.segmentNb ≥ p.segmentBufCnt
  · rw [addSegmentInfo_full hp _ _ _ _ hfull]
    cases hsome : h.segAlloc packet alloc with
    | none => exact .inl rfl
    | some a =>
      have ha : alloc = some a := by
        rw [Heap.segAlloc, hp, bind_some] at hsome
        split_ifs at hsome
        exact hsome
      obtain ⟨ht, hent⟩ := growSegments_spec hp hok.entries (le_antisymm hroom hfull) (halloc a ha)
      have hp₁ : (growSegments packet p a h).packets packet = some (p.grown a) := by
        rw [ht.packets, update_self]
      have hpos : 0 < p.segmentBufCnt := lt_of_lt_of_le (by decide) hcnt
      obtain ⟨p', ht', hok'⟩ := addAt_spec hp₁ hent
        (by change infos.length < 2 * p.segmentBufCnt; omega) rfl
        (fun _ => hcnt.trans (hfull.trans hnb.le)) (type, offset, len)
      exact .inr ⟨_, p', rfl, ht.trans ht', hok'⟩
  · right
    have hlt : infos.length < p.segmentBufCnt := by omega
    by_cases hnil : infos = []
    · have hext : p.segmentsExt = none := by
        by_contra hne
        have := hok.many hne
        rw [hnil] at this
        exact absurd this (Nat.not_lt_zero _)
      have hnull : p.segments = .null := by rw [hok.segments, if_pos hnil]
      set p₀ := { p with segments := .segmentsDef packet 0 } with hp₀
      have ht : Touches h (h.store packet p₀) packet p p₀ := .of_same rfl rfl fun _ _ => rfl
      have hbase : p₀.base packet = .segmentsDef packet 0 := by
        rw [MppPacketImpl.base]
        change (match p.segmentsExt with | none => _ | some a => _) = _
        rw [hext]
      have hent : Entries (h.store packet p₀) packet p₀ infos :=
        ⟨hok.entries.array, hok.entries.nb, hok.entries.room⟩
      obtain ⟨p', ht', hok'⟩ := addAt_spec (update_self ..) hent hlt hbase.symm
        (fun hne => absurd hext hne) (type, offset, len)
      rw [addSegmentInfo_first hp _ _ _ _ hfull hnull]
      rw [hbase] at ht' hok'
      exact ⟨_, p', rfl, ht.trans ht', hok'⟩
    · have hsegments : p.segments = p.base packet := by rw [hok.segments, if_neg hnil]
      obtain ⟨p', ht, hok'⟩ := addAt_spec hp hok.entries hlt hsegments
        (fun hne => (hok.many hne).le) (type, offset, len)
      have hne : p.segments ≠ .null := hsegments ▸ base_ne_null p packet
      rw [addSegmentInfo_next hp _ _ _ _ hfull hne, hsegments]
      exact ⟨_, p', rfl, ht, hok'⟩

/-! ## Dropping segments -/

theorem resetSegment_spec (hp : h.packets packet = some p) :
    ∃ p', Touches h (mppPacketResetSegment packet h) packet p p' ∧
      SegmentsOk (mppPacketResetSegment packet h) packet p' [] ∧ p'.segmentsExt = none := by
  set p' := { p with
    segmentNb := 0, segmentBufCnt := segCntDefault
    segmentsDef := Vector.replicate _ zeroSeg, segments := .null, segmentsExt := none } with hp'
  have heq : mppPacketResetSegment packet h =
      (forSome p.segmentsExt Heap.freeSegs h).store packet p' := by
    rw [mppPacketResetSegment, hp]
  have hsegs : ∀ a, (mppPacketResetSegment packet h).segs a =
      if p.segmentsExt = some a then none else h.segs a := by
    intro a
    rw [heq, ← segs_freeSegs]
    rfl
  refine ⟨p', ⟨?_, fun a ha _ => ?_, fun a ha => absurd ha nofun, fun a ha _ => ?_⟩, ⟨⟨?_, rfl, ?_⟩,
    rfl, fun hne => absurd rfl hne⟩, rfl⟩
  · rw [heq, Heap.store, packets_freeSegs]
  · rw [hsegs, if_neg ha]
  · rw [hsegs, if_pos ha]
  · exact ⟨_, rfl, Vector.length_toList .., fun i x hx => absurd hx nofun⟩
  · exact Nat.zero_le _

/-- The entries hold the infos, wherever they point to. -/
def Contents (arr : List MppPktSeg) (infos : List SegInfo) : Prop :=
  ∀ (i : ℕ) info, infos[i]? = some info → ∃ next, arr[i]? = some
    { index := i, type := info.1, offset := info.2.1, len := info.2.2, next }

theorem lt_length_of_getElem? {α : Type*} {l : List α} {i : ℕ} {x : α} (h : l[i]? = some x) :
    i < l.length := (List.getElem?_eq_some_iff.1 h).1

/-- A packet whose array has been edited to linked entries -/
theorem SegmentsOk.of_edited (e : SegsEdited h h' packet p p₁ arr) (hlen : arr.length = p.segmentBufCnt)
    (hnb : p.segmentNb = infos.length) (hroom : p.segmentNb ≤ p.segmentBufCnt)
    (hentry : ∀ (i : ℕ) info, infos[i]? = some info →
      arr[i]? = some (segAt (p.base packet) infos.length i info))
    (hsegments : p.segments = p.base packet) (hne : infos ≠ [])
    (hmany : p.segmentsExt ≠ none → segCntDefault < infos.length) :
    SegmentsOk h' packet p₁ infos := by
  have harr := e.array
  obtain ⟨def_, rfl⟩ := e.same
  exact ⟨⟨⟨arr, harr, hlen, hentry⟩, hnb, hroom⟩, hsegments.trans (if_neg hne).symm, hmany⟩

/-- The entries are linked anew, where the last one points nowhere. -/
theorem segmentsOk_relink (hp : h.packets packet = some p) (harr : h.array p = some arr)
    (hlen : arr.length = p.segmentBufCnt) (hcontents : Contents arr infos)
    (hlast : ∀ s, arr[infos.length - 1]? = some s → s.next = .null)
    (hnb : p.segmentNb = infos.length) (hroom : p.segmentNb ≤ p.segmentBufCnt)
    (hsegments : p.segments = p.base packet) (hne : infos ≠ [])
    (hmany : p.segmentsExt ≠ none → segCntDefault < infos.length) :
    ∃ p', Touches h (h.relink (p.base packet) (infos.length - 1)) packet p p' ∧
      SegmentsOk (h.relink (p.base packet) (infos.length - 1)) packet p' infos := by
  obtain ⟨p', arr', hedit, hlen', hget⟩ := edited_relink hp harr (infos.length - 1)
  refine ⟨p', hedit.touches, .of_edited hedit (hlen'.trans hlen) hnb hroom (fun i x hx => ?_)
    hsegments hne hmany⟩
  have hi := lt_length_of_getElem? hx
  obtain ⟨next, hnext⟩ := hcontents i x hx
  rw [hget, hnext]
  by_cases hend : i < infos.length - 1
  · rw [if_pos hend, segAt, if_pos (by omega)]
    rfl
  · obtain rfl : i = infos.length - 1 := by omega
    rw [if_neg hend, segAt, if_neg (by omega)]
    obtain rfl : next = .null := hlast _ hnext
    rfl

/-- The entries are linked anew, and the last one is made to point nowhere. -/
theorem segmentsOk_relinkEnd (hp : h.packets packet = some p) (harr : h.array p = some arr)
    (hlen : arr.length = p.segmentBufCnt) (hcontents : Contents arr infos)
    (hnb : p.segmentNb = infos.length) (hroom : p.segmentNb ≤ p.segmentBufCnt)
    (hsegments : p.segments = p.base packet) (hne : infos ≠ [])
    (hmany : p.segmentsExt ≠ none → segCntDefault < infos.length) :
    ∃ h' p', (h.relink (p.base packet) (infos.length - 1)).modifySeg
        ((p.base packet).add (infos.length - 1)) (fun s => { s with next := .null }) = h' ∧
      Touches h h' packet p p' ∧ SegmentsOk h' packet p' infos := by
  obtain ⟨p₁, arr₁, hedit, hlen₁, hget⟩ := edited_relink hp harr (infos.length - 1)
  obtain ⟨p₂, hedit₂⟩ := edited_modifySeg hedit.packets_self hedit.array (infos.length - 1)
    fun s => { s with next := .null }
  rw [hedit.base] at hedit₂
  have hboth := hedit.trans hedit₂
  refine ⟨_, p₂, rfl, hboth.touches, .of_edited hboth ?_ hnb hroom (fun i x hx => ?_) hsegments
    hne hmany⟩
  · rw [List.length_modify, hlen₁, hlen]
  have hi := lt_length_of_getElem? hx
  obtain ⟨next, hnext⟩ := hcontents i x hx
  by_cases hend : infos.length - 1 = i
  · rw [← hend] at hnext ⊢
    rw [List.getElem?_modify_eq, hget, if_neg (lt_irrefl _), hnext, segAt, if_neg (by omega)]
    rfl
  · rw [List.getElem?_modify_ne _ _ hend, hget, if_pos (by omega), hnext, segAt,
      if_pos (by omega)]
    rfl

/-- The entries of the segments have the infos. -/
theorem contents_of_entries {base : SegPtr} {n : ℕ} (hentry : ∀ (i : ℕ) info,
    infos[i]? = some info → arr[i]? = some (segAt base n i info)) : Contents arr infos :=
  fun i x hx => ⟨_, hentry i x hx⟩

/-- The segments are loaded from their array. -/
theorem getElem?_loadSegs (hp : h.packets packet = some p) (hent : Entries h packet p infos)
    {n i : ℕ} {x : SegInfo} (hi : i < n) (hx : infos[i]? = some x) :
    (h.loadSegs (p.base packet) n)[i]? = some (segAt (p.base packet) infos.length i x) := by
  obtain ⟨⟨arr, harr, -, hentry⟩, -⟩ := hent
  rw [Heap.loadSegs, List.getElem?_map, List.getElem?_range hi, map_some,
    seg_base_add hp harr, hentry i x hx]
  rfl

theorem length_loadSegs (h : Heap) (segs : SegPtr) (n : ℕ) : (h.loadSegs segs n).length = n := by
  rw [Heap.loadSegs, List.length_map, List.length_range]

theorem getElem?_copySegs {segs : List MppPktSeg} {def_ : Vector MppPktSeg segCntDefault} {i : ℕ}
    {s : MppPktSeg} (hi : i < segCntDefault) (hs : segs[i]? = some s) :
    (copySegs segs def_).toList[i]? = some s := by
  rw [Vector.getElem?_toList, Vector.getElem?_eq_getElem hi, copySegs, Vector.getElem_mapFinIdx, hs]
  rfl

/-- The first segments are kept. -/
theorem setSegmentNb_spec (hp : h.packets packet = some p) (hok : SegmentsOk h packet p infos)
    (segmentNb : ℕ) : ∃ p', Touches h (mppPacketSetSegmentNb packet segmentNb h) packet p p' ∧
      SegmentsOk (mppPacketSetSegmentNb packet segmentNb h) packet p' (infos.take segmentNb) := by
  have hnb := hok.entries.nb
  rw [mppPacketSetSegmentNb, hp]
  dsimp only
  by_cases hkeep : segmentNb ≥ p.segmentNb ∨ p.segments = .null
  · have htake : infos.take segmentNb = infos := by
      rcases hkeep with hge | hnull
      · exact List.take_of_length_le (by omega)
      · by_cases hnil : infos = []
        · rw [hnil, List.take_nil]
        · rw [hok.segments, if_neg hnil] at hnull
          exact absurd hnull (base_ne_null p packet)
    rw [if_pos hkeep, htake]
    exact ⟨p, .refl hp, hok⟩
  obtain ⟨hlt, hnotnull⟩ := not_or.1 hkeep
  rw [if_neg hkeep]
  by_cases hzero : segmentNb = 0
  · rw [if_pos hzero, hzero, List.take_zero]
    obtain ⟨p', ht, hok', -⟩ := resetSegment_spec hp
    exact ⟨p', ht, hok'⟩
  rw [if_neg hzero]
  set l := infos.take segmentNb with hl
  have hlenl : l.length = segmentNb := by
    rw [hl, List.length_take]
    omega
  have hnel : l ≠ [] := by
    rintro hnil
    rw [hnil] at hlenl
    exact hzero hlenl.symm
  have hsub : ∀ (i : ℕ) x, l[i]? = some x → infos[i]? = some x := by
    intro i x hx
    have hi := lt_length_of_getElem? hx
    rwa [hl, List.getElem?_take_of_lt (by omega)] at hx
  obtain ⟨⟨arr, harr, hlen, hentry⟩, -, hroom⟩ := hok.entries
  have hsegments : p.segments = p.base packet := by
    rw [hok.segments]
    refine if_neg fun hnil => hnotnull ?_
    rw [hok.segments, if_pos hnil]
  rw [← hlenl]
  by_cases hfew : l.length ≤ segCntDefault
  · rw [if_pos hfew]
    cases hext : p.segmentsExt with
    | some a =>
      -- the segments move back to the array of the packet
      dsimp only
      set p₁ := { p with
        segmentNb := l.length
        segmentsDef := copySegs (h.loadSegs p.segments l.length) p.segmentsDef
        segments := .segmentsDef packet 0, segmentsExt := none
        segmentBufCnt := segCntDefault } with hp₁
      set h₁ := (h.freeSegs a).store packet p₁ with hh₁
      have ht : Touches h h₁ packet p p₁ := by
        refine ⟨rfl, fun b hb _ => ?_, fun b hb => absurd hb nofun, fun b hb _ => ?_⟩
        · refine update_of_ne (fun heq => hb ?_) ..
          rw [hext, heq]
        · obtain rfl : a = b := some_inj.1 (hext.symm.trans hb)
          exact update_self ..
      have hcontents : Contents p₁.segmentsDef.toList l := by
        intro i x hx
        have hi := lt_length_of_getElem? hx
        have hload := getElem?_loadSegs hp hok.entries hi (hsub i x hx)
        rw [← hsegments] at hload
        exact ⟨_, getElem?_copySegs (by omega) hload⟩
      have hp₁' : h₁.packets packet = some p₁ := update_self ..
      obtain ⟨h', p', rfl, ht', hok'⟩ := segmentsOk_relinkEnd hp₁' rfl (Vector.length_toList ..) hcontents rfl
        hfew rfl hnel (fun hne => absurd rfl hne)
      exact ⟨p', ht.trans ht', hok'⟩
    | none =>
      dsimp only
      set p₁ := { p with segmentNb := l.length, segmentBufCnt := segCntDefault } with hp₁
      have ht : Touches h (h.store packet p₁) packet p p₁ := .of_same rfl rfl fun _ _ => rfl
      have hbase : p₁.base packet = p.base packet := rfl
      have hdef : p.segmentsDef.toList = arr := by
        rw [Heap.array, hext] at harr
        exact some_inj.1 harr
      have harr₁ : (h.store packet p₁).array p₁ = some arr := by
        rw [Heap.array]
        change (match p.segmentsExt with | none => some p.segmentsDef.toList | some a => _) = _
        rw [hext, hdef]
      have hp₁' : (h.store packet p₁).packets packet = some p₁ := update_self ..
      obtain ⟨h', p', heq, ht', hok'⟩ := segmentsOk_relinkEnd hp₁' harr₁ (by rw [← hdef]; exact Vector.length_toList ..)
        (contents_of_entries fun i x hx => hentry i x (hsub i x hx)) rfl hfew hsegments hnel
        (fun hne => absurd hext hne)
      rw [hbase, ← hsegments, hp₁, hext] at heq
      rw [heq]
      exact ⟨p', ht.trans ht', hok'⟩
  · rw [if_neg hfew]
    dsimp only
    set p₁ := { p with segmentNb := l.length } with hp₁
    have ht : Touches h (h.store packet p₁) packet p p₁ := .of_same rfl rfl fun _ _ => rfl
    have hbase : p₁.base packet = p.base packet := rfl
    have hp₁' : (h.store packet p₁).packets packet = some p₁ := update_self ..
    obtain ⟨h', p', heq, ht', hok'⟩ := segmentsOk_relinkEnd hp₁' harr hlen
      (contents_of_entries fun i x hx => hentry i x (hsub i x hx)) rfl
      (by change l.length ≤ p.segmentBufCnt; omega) hsegments hnel (fun _ => not_le.1 hfew)
    rw [hbase, ← hsegments] at heq
    rw [heq]
    exact ⟨p', ht.trans ht', hok'⟩

/-! ## Copying the segments -/

/-- A packet that is copied to itself loses its segments. -/
theorem copySegmentInfo_self (hp : h.packets packet = some p) (alloc : Option ℕ) :
    ∃ h' p', mppPacketCopySegmentInfo packet packet alloc h = some h' ∧
      Touches h h' packet p p' ∧ SegmentsOk h' packet p' [] := by
  obtain ⟨p', ht, hok, -⟩ := resetSegment_spec hp
  have hp' : (mppPacketResetSegment packet h).packets packet = some p' := by
    rw [ht.packets, update_self]
  refine ⟨_, p', ?_, ht, hok⟩
  rw [mppPacketCopySegmentInfo, hp']
  exact if_pos hok.entries.nb

/-- The segments of another packet are copied. -/
theorem copySegmentInfo_spec {dst src : ℕ} {alloc : Option ℕ} {d s : MppPacketImpl}
    (hd : h.packets dst = some d) (hs : h.packets src = some s) (hne : dst ≠ src)
    (hok : SegmentsOk h src s infos)
    (hapart : ∀ a, d.segmentsExt = some a → s.segmentsExt ≠ some a)
    (halloc : ∀ a, alloc = some a → h.Hands dst a)
    (hsome : segCntDefault < infos.length → alloc.isSome) :
    ∃ h' d', mppPacketCopySegmentInfo dst src alloc h = some h' ∧ Touches h h' dst d d' ∧
      SegmentsOk h' dst d' infos := by
  obtain ⟨d₁, ht, hok₁, hext₁⟩ := resetSegment_spec hd
  set h₁ := mppPacketResetSegment dst h with hh₁
  have hd₁ : h₁.packets dst = some d₁ := by rw [ht.packets, update_self]
  have hs₁ : h₁.packets src = some s := by rw [ht.packets, update_of_ne hne.symm, hs]
  have hsrc : SegmentsOk h₁ src s infos := hok.congr fun a ha => by
    refine ht.segs a (fun hda => hapart a hda ha) ?_
    rw [hext₁]
    nofun
  have hnb := hsrc.entries.nb
  have hroom := hsrc.entries.room
  rw [mppPacketCopySegmentInfo, ← hh₁, hd₁, hs₁]
  dsimp only
  by_cases hnil : infos = []
  · rw [if_pos (by rw [hnb, hnil]; rfl), hnil]
    exact ⟨h₁, d₁, rfl, ht, hok₁⟩
  have hpos : 0 < infos.length := List.length_pos_iff.2 hnil
  have hsegments : s.segments = s.base src := by rw [hsrc.segments, if_neg hnil]
  rw [if_neg (by omega), hnb, hsegments]
  set segs := h₁.loadSegs (s.base src) infos.length with hsegs
  have hload : ∀ (i : ℕ) x, infos[i]? = some x →
      segs[i]? = some (segAt (s.base src) infos.length i x) := fun i x hx =>
    getElem?_loadSegs hs₁ hsrc.entries (lt_length_of_getElem? hx) hx
  have hlast : ∀ r, segs[infos.length - 1]? = some r → r.next = .null := by
    intro r hr
    rw [hload _ _ (List.getElem?_eq_getElem (by omega)), some_inj] at hr
    rw [← hr, segAt, if_neg (by omega)]
  have hlensegs : segs.length = infos.length := length_loadSegs ..
  by_cases hfew : infos.length ≤ segCntDefault
  · rw [if_pos hfew]
    -- the source has its own array, and as many entries in it
    have hcnt : s.segmentBufCnt = segCntDefault := by
      have hext : s.segmentsExt = none := by
        by_contra hext
        have := hsrc.many hext
        omega
      obtain ⟨⟨arr, harr, hlen, -⟩, -⟩ := hsrc.entries
      rw [Heap.array, hext, some_inj] at harr
      rw [← hlen, ← harr, Vector.length_toList]
    rw [hcnt]
    set d₂ := { d₁ with
      segmentNb := infos.length, segmentBufCnt := segCntDefault
      segmentsDef := copySegs segs d₁.segmentsDef, segments := .segmentsDef dst 0 } with hd₂
    have hext₂ : d₂.segmentsExt = none := hext₁
    have hbase : d₂.base dst = .segmentsDef dst 0 := by rw [MppPacketImpl.base, hext₂]
    have ht₂ : Touches h₁ (h₁.store dst d₂) dst d₁ d₂ := .of_same rfl rfl fun _ _ => rfl
    have hget : ∀ i < infos.length, d₂.segmentsDef.toList[i]? = segs[i]? := by
      intro i hi
      have hsome : segs[i]? = some segs[i] := List.getElem?_eq_getElem (by omega)
      rw [hsome]
      exact getElem?_copySegs (by omega) hsome
    have hd₂' : (h₁.store dst d₂).packets dst = some d₂ := update_self ..
    have harr₂ : (h₁.store dst d₂).array d₂ = some d₂.segmentsDef.toList := by
      rw [Heap.array, hext₂]
    obtain ⟨d₃, ht₃, hok₃⟩ := segmentsOk_relink hd₂' harr₂ (Vector.length_toList ..)
      (fun i x hx => ⟨_, (hget i (lt_length_of_getElem? hx)).trans (hload i x hx)⟩)
      (fun r hr => hlast r ((hget _ (by omega)).symm.trans hr)) rfl hfew hbase.symm hnil
      (fun hext => absurd hext₂ hext)
    rw [hbase] at ht₃ hok₃
    exact ⟨_, d₃, rfl, ht.trans (ht₂.trans ht₃), hok₃⟩
  · rw [if_neg hfew]
    obtain ⟨a, rfl⟩ := isSome_iff_exists.1 (hsome (not_le.1 hfew))
    rw [map_some]
    set buf := segs ++ List.replicate (s.segmentBufCnt - infos.length) zeroSeg with hbuf
    set d₂ := { d₁ with
      segmentNb := infos.length, segmentBufCnt := s.segmentBufCnt
      segmentsExt := some a, segments := .segmentsExt a 0 } with hd₂
    set h₂ := ({ h₁ with segs := update h₁.segs a (some buf) }.acquire
      (.segments a)).store dst d₂ with hh₂
    have hfree : h₁.segs a = none := by
      rcases ht.hands hd (halloc a rfl) with hnone | ⟨q, hq, hext⟩
      · exact hnone
      · rw [hd₁, some_inj] at hq
        rw [← hq, hext₁] at hext
        exact absurd hext nofun
    have ht₂ : Touches h₁ h₂ dst d₁ d₂ := by
      refine ⟨rfl, fun b _ hb => ?_, fun b hb => ?_, fun b hb _ => ?_⟩
      · exact update_of_ne (fun heq => hb (congrArg some heq.symm)) ..
      · obtain rfl : a = b := some_inj.1 hb
        exact .inr hfree
      · rw [hext₁] at hb
        exact absurd hb nofun
    have hget : ∀ i < infos.length, buf[i]? = segs[i]? := fun i hi => by
      rw [hbuf, List.getElem?_append_left (by omega)]
    have hd₂' : h₂.packets dst = some d₂ := update_self ..
    have harr₂ : h₂.array d₂ = some buf := by
      change update h₁.segs a (some buf) a = _
      exact update_self ..
    obtain ⟨d₃, ht₃, hok₃⟩ := segmentsOk_relink hd₂' harr₂
      (by
        rw [hbuf, List.length_append, List.length_replicate, hlensegs]
        change _ = s.segmentBufCnt
        omega)
      (fun i x hx => ⟨_, (hget i (lt_length_of_getElem? hx)).trans (hload i x hx)⟩)
      (fun r hr => hlast r ((hget _ (by omega)).symm.trans hr)) rfl
      (by change infos.length ≤ s.segmentBufCnt; omega) rfl hnil (fun _ => not_le.1 hfew)
    exact ⟨_, d₃, rfl, ht.trans (ht₂.trans ht₃), hok₃⟩

/-! ## Appending the segments -/

/-- The infos laid one after the other, from `offset` on -/
def relaid : BitVec 32 → List SegInfo → List SegInfo
  | _, [] => []
  | offset, (type, _, len) :: infos => (type, offset, len) :: relaid (offset + len) infos

/-- Without gaps, what is laid anew is shifted. -/
theorem relaid_of_gapless (length : ℕ) {offset : BitVec 32} {infos : List SegInfo}
    (hgap : Gapless offset infos) :
    relaid (offset + BitVec.ofNat 32 length) infos = shifted length infos := by
  induction infos generalizing offset with
  | nil => rfl
  | cons info infos ih =>
    obtain ⟨type, off, len⟩ := info
    obtain ⟨rfl, hrest⟩ := hgap
    have hmove : off + BitVec.ofNat 32 length + len = off + len + BitVec.ofNat 32 length := by
      rw [BitVec.add_assoc, BitVec.add_comm (BitVec.ofNat 32 length), ← BitVec.add_assoc]
    rw [relaid, hmove, ih hrest]
    rfl

theorem added_cons_ok (info : SegInfo) (infos : List SegInfo) (rets : List MppRet) :
    added (info :: infos) (mppOk :: rets) = info :: added infos rets := rfl

theorem added_cons_nok (info : SegInfo) (infos : List SegInfo) (rets : List MppRet) :
    added (info :: infos) (mppNok :: rets) = added infos rets := rfl

/-- The entries from the `i`-th on are added to another packet. -/
theorem appendLoop_spec {dst src : ℕ} {allocs : ℕ → Option ℕ} {l : List SegInfo}
    (hself : dst = src → l = []) {s : MppPacketImpl} (n : ℕ) :
    ∀ {i fuel : ℕ} {segs : SegPtr} (offset : BitVec 32) {h : Heap} {infos : SegInfos}
      {d : MppPacketImpl}, AllOk h infos → h.packets dst = some d →
      h.packets src = some s → infos src = l → (∀ k a, allocs k = some a → h.Hands dst a) →
      i + n = l.length → n < fuel → (0 < n → segs = (s.base src).add i) →
      ∃ rets h' d', appendLoop dst src allocs fuel i segs offset h = some (rets, h') ∧
        Touches h h' dst d d' ∧
        SegmentsOk h' dst d' (infos dst ++ added (relaid offset (l.drop i)) rets) := by
  induction n with
  | zero =>
    intro i fuel segs offset h infos d hall hd hs hl halloc hn hfuel hsegs
    obtain ⟨fuel, rfl⟩ := Nat.exists_eq_add_of_lt hfuel
    have hnb := (hall.ok src s hs).entries.nb
    refine ⟨[], h, d, ?_, .refl hd, ?_⟩
    · rw [appendLoop, hs]
      exact if_neg (by rw [hnb, hl]; omega)
    · rw [List.drop_of_length_le (by omega)]
      change SegmentsOk h dst d (infos dst ++ [])
      rw [List.append_nil]
      exact hall.ok dst d hd
  | succ n ih =>
    intro i fuel segs offset h infos d hall hd hs hl halloc hn hfuel hsegs
    obtain ⟨fuel, rfl⟩ := Nat.exists_eq_add_of_lt hfuel
    have hsrc := (hall.ok src s hs).entries
    rw [hl] at hsrc
    have hget : l[i]? = some l[i] := List.getElem?_eq_getElem (by omega)
    have hne : dst ≠ src := fun heq => by
      rw [hself heq, List.length_nil] at hn
      omega
    obtain ⟨arr, harr, -, hentry⟩ := hsrc.array
    have hseg : h.seg segs = some (segAt (s.base src) l.length i l[i]) := by
      rw [hsegs (Nat.succ_pos n), seg_base_add hs harr, hentry i _ hget]
    have hnext : 0 < n → segs.add 1 = (s.base src).add (i + 1) := fun _ => by
      rw [hsegs (Nat.succ_pos n), add_add]
    set info : SegInfo := (l[i].1, offset, l[i].2.2) with hinfo
    have hlaid : relaid offset (l.drop i) =
        info :: relaid (offset + l[i].2.2) (l.drop (i + 1)) := by
      rw [List.drop_eq_getElem_cons (by omega), relaid]
    -- the loop goes on from the heap `h₁`, where the destination has the infos `l₁`
    have hgo : ∀ {ret h₁ d₁ l₁}, addSegmentInfo dst l[i].1 offset l[i].2.2 (allocs i) h =
          (ret, h₁) → Touches h h₁ dst d d₁ → SegmentsOk h₁ dst d₁ l₁ →
        (∀ rets, l₁ ++ added (relaid (offset + l[i].2.2) (l.drop (i + 1))) rets =
          infos dst ++ added (relaid offset (l.drop i)) (ret :: rets)) →
        ∃ rets h' d', appendLoop dst src allocs (n + 1 + fuel + 1) i segs offset h =
            some (rets, h') ∧ Touches h h' dst d d' ∧
          SegmentsOk h' dst d' (infos dst ++ added (relaid offset (l.drop i)) rets) := by
      intro ret h₁ d₁ l₁ hret ht hok hadded
      have hd₁ : h₁.packets dst = some d₁ := by rw [ht.packets, update_self]
      have hs₁ : h₁.packets src = some s := by rw [ht.packets, update_of_ne hne.symm, hs]
      obtain ⟨rets, h', d', hloop, ht', hok'⟩ := @ih (i + 1) (n + 1 + fuel)
        (segs.add 1) (offset + l[i].2.2) h₁ _ d₁ (hall.touch hd ht hok) hd₁ hs₁
        ((update_of_ne hne.symm ..).trans hl) (fun k a ha => ht.hands hd (halloc k a ha))
        (by omega) (by omega) hnext
      rw [update_self, hadded] at hok'
      refine ⟨ret :: rets, h', d', ?_, ht.trans ht', hok'⟩
      rw [appendLoop, hs]
      dsimp only
      have hret' : addSegmentInfo dst (segAt (s.base src) l.length i l[i]).type offset
          (segAt (s.base src) l.length i l[i]).len (allocs i) h = (ret, h₁) := hret
      rw [if_pos (by rw [hsrc.nb]; omega), hseg, bind_eq_bind, bind_some, hret']
      change (appendLoop dst src allocs (n + 1 + fuel) (i + 1) (segs.add 1) (offset + l[i].2.2)
        h₁).bind _ = _
      rw [hloop]
      rfl
    rcases addSegmentInfo_spec hd (hall.ok dst d hd) l[i].1 offset l[i].2.2 (halloc i) with
      hret | ⟨h₁, d₁, hret, ht, hok⟩
    · refine hgo hret (.refl hd) (hall.ok dst d hd) fun rets => ?_
      rw [hlaid, added_cons_nok]
    · refine hgo hret ht hok fun rets => ?_
      rw [hlaid, added_cons_ok, List.append_assoc]
      rfl

/-- The segments of another packet without gaps are appended. -/
theorem append_spec {dst src fuel : ℕ} {allocs : ℕ → Option ℕ} {infos : SegInfos}
    (hself : dst = src → infos src = []) {d s : MppPacketImpl} (hall : AllOk h infos)
    (hd : h.packets dst = some d) (hs : h.packets src = some s)
    (halloc : ∀ k a, allocs k = some a → h.Hands dst a)
    (hfuel : (infos src).length < fuel) (hgap : Gapless 0 (infos src)) :
    ∃ rets h' d', mppPacketAppend dst src allocs fuel h = some (rets, h') ∧
      Touches h h' dst d d' ∧
      SegmentsOk h' dst d' (infos dst ++ added (shifted d.length (infos src)) rets) := by
  have hsrc := hall.ok src s hs
  have hsegs : 0 < (infos src).length → s.segments = (s.base src).add 0 := fun hpos => by
    rw [hsrc.segments, if_neg (List.length_pos_iff.1 hpos), base_add_zero]
  obtain ⟨rets, h₁, d₁, hloop, ht, hok⟩ := appendLoop_spec hself (infos src).length
    (BitVec.ofNat 32 d.length) hall hd hs rfl halloc (Nat.zero_add _) hfuel hsegs
  have hd₁ : h₁.packets dst = some d₁ := by rw [ht.packets, update_self]
  have hzero : relaid (BitVec.ofNat 32 d.length) (infos src) = shifted d.length (infos src) := by
    have := relaid_of_gapless d.length hgap
    rwa [BitVec.ofNat_eq_ofNat, BitVec.zero_add] at this
  rw [List.drop_zero, hzero] at hok
  refine ⟨rets, { h₁ with
    packets := update h₁.packets dst (some { d₁ with length := d₁.length + s.length }) },
    { d₁ with length := d₁.length + s.length }, ?_, ht.trans (.of_same rfl rfl fun _ _ => rfl),
    ⟨hok.entries.array, hok.entries.nb, hok.entries.room⟩, hok.segments, hok.many⟩
  rw [mppPacketAppend, hd, hs]
  change (appendLoop dst src allocs fuel 0 s.segments (BitVec.ofNat 32 d.length) h).bind _ = _
  rw [hloop, bind_some]
  dsimp only
  rw [hd₁]
  rfl

/-! ## A whole run -/

/-- An operation that fits leaves all segments as they should be. -/
theorem SegOp.run_spec {op : SegOp} {infos : SegInfos} (hall : AllOk h infos)
    (hfits : op.Fits (h, infos)) :
    ∃ h' infos', op.run (h, infos) = some (h', infos') ∧ AllOk h' infos' := by
  cases op with
  | add packet type offset len alloc =>
    obtain ⟨hsome, halloc⟩ := hfits
    obtain ⟨p, hp⟩ := isSome_iff_exists.1 hsome
    have hrun : ∀ {ret h₁}, addSegmentInfo packet type offset len alloc h = (ret, h₁) →
        (SegOp.add packet type offset len alloc).run (h, infos) = some (h₁, update infos
          packet (infos packet ++ added [(type, offset, len)] [ret])) := by
      intro ret h₁ heq
      rw [SegOp.run, heq]
    rcases addSegmentInfo_spec hp (hall.ok packet p hp) type offset len halloc with
      hret | ⟨h', p', hret, ht, hok⟩
    · refine ⟨_, _, hrun hret, hall.touch hp (.refl hp) ?_⟩
      rw [added_cons_nok]
      change SegmentsOk h packet p (infos packet ++ [])
      rw [List.append_nil]
      exact hall.ok packet p hp
    · exact ⟨_, _, hrun hret, hall.touch hp ht hok⟩
  | setNb packet segmentNb =>
    obtain ⟨p, hp⟩ := isSome_iff_exists.1 hfits
    obtain ⟨p', ht, hok⟩ := setSegmentNb_spec hp (hall.ok packet p hp) segmentNb
    exact ⟨_, _, rfl, hall.touch hp ht hok⟩
  | copy dst src alloc =>
    obtain ⟨hdst, hsrc, hself, halloc, hmem⟩ := hfits
    obtain ⟨d, hd⟩ := isSome_iff_exists.1 hdst
    obtain ⟨s, hs⟩ := isSome_iff_exists.1 hsrc
    obtain ⟨h', d', heq, ht, hok⟩ : ∃ h' d', mppPacketCopySegmentInfo dst src alloc h = some h' ∧
        Touches h h' dst d d' ∧ SegmentsOk h' dst d' (infos src) := by
      by_cases hne : dst = src
      · rw [hself hne, ← hne]
        exact copySegmentInfo_self hd alloc
      · exact copySegmentInfo_spec hd hs hne (hall.ok src s hs)
          (fun a hda hsa => hne (hall.apart hd hs hda hsa)) halloc hmem
    refine ⟨h', _, ?_, hall.touch hd ht hok⟩
    rw [SegOp.run, heq]
    rfl
  | append dst src allocs fuel =>
    obtain ⟨hdst, hsrc, hself, halloc, hfuel, hgap⟩ := hfits
    obtain ⟨d, hd⟩ := isSome_iff_exists.1 hdst
    obtain ⟨s, hs⟩ := isSome_iff_exists.1 hsrc
    obtain ⟨rets, h', d', heq, ht, hok⟩ := append_spec hself hall hd hs halloc hfuel hgap
    refine ⟨h', _, ?_, hall.touch hd ht hok⟩
    rw [SegOp.run, hd, bind_eq_bind, bind_some, heq]
    rfl

theorem runOps_spec (ops : List SegOp) : ∀ {h : Heap} {infos : SegInfos}, AllOk h infos →
    RunFits ops (h, infos) → ∃ h' infos', runOps ops (h, infos) = some (h', infos') ∧
      AllOk h' infos' := by
  induction ops with
  | nil => exact fun hall _ => ⟨_, _, rfl, hall⟩
  | cons op ops ih =>
    intro h infos hall hfits
    obtain ⟨h₁, infos₁, hrun, hall₁⟩ := SegOp.run_spec hall hfits.1
    obtain ⟨h', infos', hruns, hall'⟩ := ih hall₁ (hfits.2 _ hrun)
    refine ⟨h', infos', ?_, hall'⟩
    rw [runOps, hrun, bind_some, hruns]

theorem MppPacketImpl.Unsegmented.ok (hun : p.Unsegmented) : SegmentsOk h packet p [] := by
  obtain ⟨hnb, hcnt, hext, hsegs⟩ := hun
  refine ⟨⟨⟨p.segmentsDef.toList, ?_, ?_, fun i x hx => absurd hx nofun⟩, hnb, ?_⟩, hsegs,
    fun hne => absurd hext hne⟩
  · rw [Heap.array, hext]
  · rw [hcnt, Vector.length_toList]
  · rw [hnb]
    exact Nat.zero_le _

theorem allOk_of_unsegmented (hnew : ∀ packet p, h.packets packet = some p → p.Unsegmented) :
    AllOk h fun _ => [] where
  ok packet p hp := (hnew packet p hp).ok
  apart hp hq hext _ := by
    rw [(hnew _ _ hp).2.2.1] at hext
    exact absurd hext nofun

/-- In every run whose operations fit, from packets without segments, the segments of every
    packet are listed, with the infos as they should be. -/
theorem segments_listed (ops : List SegOp) (h₀ : Heap)
    (hnew : ∀ packet p, h₀.packets packet = some p → p.Unsegmented)
    (hfits : RunFits ops (h₀, fun _ => [])) :
    ∃ h infos, runOps ops (h₀, fun _ => []) = some (h, infos) ∧
      ∀ packet p, h.packets packet = some p → SegmentsListed h packet p (infos packet) := by
  obtain ⟨h, infos, hrun, hall⟩ := runOps_spec ops (allOk_of_unsegmented hnew) hfits
  exact ⟨h, infos, hrun, fun packet p hp => (hall.ok packet p hp).listed hp⟩

/-- Two packets with ten bytes and no segments -/
def packetPair : Heap where
  packets k := if k < 2 then some { newPacket with size := 10, length := 10 } else none
  blocks _ := none
  segs _ := none
  buffers _ := { refCount := 0, bytes := [] }
  metas _ := 0
  user _ := []
  ledger := .empty

theorem packetPair_unsegmented (packet : ℕ) (p : MppPacketImpl)
    (hp : packetPair.packets packet = some p) : p.Unsegmented := by
  change (if packet < 2 then _ else none) = some p at hp
  split_ifs at hp
  obtain rfl := some_inj.1 hp
  exact ⟨rfl, rfl, rfl, rfl⟩

/-- A segment is added, appended to the other packet and copied back with the others there. -/
def thereAndBack : List SegOp :=
  [.add 1 0 0 4 none, .add 0 1 0 10 none, .append 0 1 (fun _ => none) 2, .copy 1 0 none,
    .setNb 1 1]

theorem thereAndBack_listed :
    ∃ h infos, runOps thereAndBack (packetPair, fun _ => []) = some (h, infos) ∧
      ∀ packet p, h.packets packet = some p → SegmentsListed h packet p (infos packet) := by
  refine segments_listed thereAndBack packetPair packetPair_unsegmented
    ⟨⟨rfl, nofun⟩, fun st₁ h₁ => ?_⟩
  obtain rfl := some_inj.1 h₁
  refine ⟨⟨rfl, nofun⟩, fun st₂ h₂ => ?_⟩
  obtain rfl := some_inj.1 h₂
  refine ⟨⟨rfl, rfl, nofun, nofun, by decide, rfl, trivial⟩, fun st₃ h₃ => ?_⟩
  obtain rfl := some_inj.1 h₃
  refine ⟨⟨rfl, rfl, nofun, nofun, fun hlt => absurd hlt (by decide)⟩,
    fun st₄ h₄ => ?_⟩
  obtain rfl := some_inj.1 h₄
  exact ⟨rfl, fun _ _ => trivial⟩

/-- The infos along the next pointers -/
def Heap.chainInfos (h : Heap) (p : MppPacketImpl) : Option (List SegInfo) :=
  (h.chain p.segmentNb p.segments).map
    (List.map fun e => (e.2.type, e.2.offset, e.2.len))

theorem SegmentsListed.chainInfos (hlisted : SegmentsListed h packet p infos) :
    h.chainInfos p = some infos := by
  obtain ⟨l, hl, hlen, hprop⟩ := hlisted.chain
  rw [Heap.chainInfos, hl, map_some, some_inj]
  refine List.ext_getElem (by rw [List.length_map, hlen, hlisted.nb]) fun k hk hk' => ?_
  rw [List.length_map] at hk
  obtain ⟨-, -, hinfo⟩ := hprop k l[k].1 l[k].2 (List.getElem?_eq_getElem hk)
  rw [List.getElem?_eq_getElem hk', some_inj] at hinfo
  rw [List.getElem_map, hinfo]

/-- A segment behind four bytes is appended, and its offset is that of the bytes. -/
theorem appendGap_unlisted :
    ∃ h infos, runOps [.add 1 0 4 4 none, .append 0 1 (fun _ => none) 2]
        (packetPair, fun _ => []) = some (h, infos) ∧ infos 0 = [(0, 14, 4)] ∧
      ∃ p, h.packets 0 = some p ∧ h.chainInfos p = some [(0, 10, 4)] ∧
        ¬SegmentsListed h 0 p (infos 0) := by
  refine ⟨_, _, rfl, rfl, _, rfl, ?_, fun hlisted => ?_⟩
  · decide
  · exact absurd hlisted.chainInfos (by decide)

end Libmpp.Base
