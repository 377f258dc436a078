import Libmpp.Kmpp.ObjUpdate
import Mathlib.Logic.Relation
import Libmpp.Lib.Widths

/-!
# The positions of the flags

The macros of an entry table give each element the position of its update flag
(`flagTypeToOffset`), and the largest one gives the size of the memory of an object
(`KmppObjDefImpl.bufSize`). The flags should be apart, behind the structure and in that memory
(`Independent`).

A flag is set in a word of four bytes, at a multiple of four, but through an `rk_ul *`, and
these are eight. So the word of the last flag is never inside: the flags of a table are
independent only if it has none (`independent_iff`). The positions alone are inside when the last
one is not the first of a word. Offsets and sizes of elements are cut to sixteen bits, as the
positions are.
-/

namespace Libmpp.Kmpp

open List

/-! ## The macros -/

/-- `ElemFlagType` -/
inductive ElemFlagType
  | none
  | start
  | start64
  | offset
  | incr
  | prev
  deriving DecidableEq, Repr

/-- `ElemFlagDef`, with a `slot` of four bits -/
structure ElemFlagDef where
  op : ElemFlagType
  idx : ℕ := 0
  slot : Fin 16 := 0
  record : Bool := false
  replay : Bool := false
  deriving DecidableEq, Repr

/-- The flag of an entry, as a table has it. -/
inductive ElemFlag
  | flagNone
  | flagBase
  | flagAt (x : ℕ)
  | flagIncr
  | flagPrev
  | flagRec (s : Fin 16) (x : ℕ)
  | flagRecInc (s : Fin 16)
  | flagReplay (s : Fin 16)
  deriving DecidableEq, Repr

namespace ElemFlag

/-- `FLAG_NONE` and its siblings -/
def val : ElemFlag → ElemFlagDef
  | flagNone => { op := .none }
  | flagBase => { op := .start }
  | flagAt x => { op := .offset, idx := x % 256 }
  | flagIncr => { op := .incr }
  | flagPrev => { op := .prev }
  | flagRec s x => { op := .offset, idx := x % 256, slot := s, record := true }
  | flagRecInc s => { op := .incr, slot := s, record := true }
  | flagReplay s => { op := .offset, slot := s, replay := true }

/-- The index in its group that a table gives an entry. -/
def index? : ElemFlag → Option ℕ
  | flagAt x | flagRec _ x => some (x % 256)
  | _ => none

/-- The slot that an entry is recorded in. -/
def slot? : ElemFlag → Option (Fin 16)
  | flagRec s _ | flagRecInc s => some s
  | _ => none

end ElemFlag

/-- `__flag_base`, `__flag_prev`, `__flag_step` and `__flag_record` -/
structure FlagState where
  base : ℕ
  prev : ℕ
  step : ℕ
  record : Fin 16 → ℕ

/-- The switch of `FLAG_TYPE_TO_OFFSET`: the offset is a `rk_u16`. -/
def flagOp (s : FlagState) (flag : ElemFlagDef) : ℕ × FlagState :=
  match flag.op with
  | .start =>
    let base :=
      if s.prev > s.base then (s.prev + 31) / 32 * 32
      else if s.prev = s.base then (s.base + 32) / 32 * 32
      else s.base
    (base % 2 ^ 16, { s with base, prev := base, step := 0 })
  | .start64 =>
    let base :=
      if s.prev > s.base then (s.prev + 63) / 64 * 64
      else if s.prev = s.base then (s.base + 64) / 64 * 64
      else s.base
    (base % 2 ^ 16, { s with base, prev := base, step := 0 })
  | .offset =>
    ((s.base + flag.idx) % 2 ^ 16,
      { s with prev := s.base + flag.idx, step := if flag.idx > s.step then flag.idx else s.step })
  | .incr =>
    ((s.base + (s.step + 1)) % 2 ^ 16,
      { s with prev := s.base + (s.step + 1), step := s.step + 1 })
  | .prev => (s.prev % 2 ^ 16, s)
  | .none => (0, s)

/-- `FLAG_TYPE_TO_OFFSET` -/
def flagTypeToOffset (s : FlagState) (flag : ElemFlagDef) : ℕ × FlagState :=
  let (offset, s) := flagOp s flag
  let s := if flag.record then { s with record := Function.update s.record flag.slot offset } else s
  (if flag.replay then s.record flag.slot % 2 ^ 16 else offset, s)

/-! ## Tables -/

/-- An entry of a table. -/
structure TableEntry where
  name : Name
  elemOffset : ℕ
  elemSize : ℕ
  flag : ElemFlag
  nonempty : 0 < elemSize

/-- The structure of an object and its elements. -/
structure EntryTable where
  structSize : ℕ
  extraSize : ℕ
  entries : List TableEntry
  inside : ∀ x ∈ entries, x.elemOffset + x.elemSize ≤ structSize

namespace EntryTable

/-- `impl_size` -/
def implSize (t : EntryTable) : ℕ := (t.structSize + t.extraSize + 3) / 4 * 4

/-- The entries that `ENTRY_TO_TRIE` adds, from what the macros have in their variables. -/
def toTrie : FlagState → List TableEntry → List (Name × KmppEntry)
  | _, [] => []
  | s, x :: l =>
    let (flagOffset, s) := flagTypeToOffset s x.flag.val
    (x.name, { elemOffset := x.elemOffset % 2 ^ 16, elemSize := x.elemSize % 2 ^ 16, flagOffset }) ::
      toTrie s l

/-- The entries of a table: `record` is what is in `__flag_record` before. -/
def trie (t : EntryTable) (record : Fin 16 → ℕ) : List (Name × KmppEntry) :=
  toTrie { base := t.implSize * 8, prev := 0, step := 0, record } t.entries

end EntryTable

/-- The `buf_size` that `create_objdef_mem_pool` leaves -/
def KmppObjDefImpl.bufSize (d : KmppObjDefImpl) (objImplSize : ℕ) : ℤ :=
  if d.flagMaxPos ≠ 0 then d.entrySize + mppAlign (d.flagMaxPos / 8 - d.entrySize) 4
  else d.entrySize + objImplSize

/-- `sizeof(rk_ul)` -/
def ulSize : ℕ := 8

/-- The bytes that `kmpp_obj_impl_set_*` writes -/
def implSetWrites (e : KmppEntry) (m : Mem) (val : List Byte) : Set ℕ :=
  {k | e.elemOffset ≤ k ∧ k < e.elemOffset + val.length} ∪
    {k | e.flagOffset ≠ 0 ∧ readAt m e.elemOffset val.length ≠ val ∧
      e.flagOffset / 32 * 4 ≤ k ∧ k < e.flagOffset / 32 * 4 + ulSize}

/-- The table asks for one position for two entries: the later is the previous one of the
    earlier, or replays it, or has its index in its group. -/
inductive Asks (flags : List ElemFlag) : ℕ → ℕ → Prop
  | prev {i j : ℕ} (hlt : i < j) (hi : flags[i]? ≠ some .flagNone) (hj : flags[j]? = some .flagPrev)
    (hbetween : ∀ k, i < k → k < j → flags[k]? = some .flagNone) : Asks flags i j
  | replay {i j : ℕ} {s : Fin 16} (hlt : i < j) (hi : flags[i]?.bind ElemFlag.slot? = some s)
    (hj : flags[j]? = some (.flagReplay s))
    (hbetween : ∀ k, i < k → k < j → flags[k]?.bind ElemFlag.slot? ≠ some s) : Asks flags i j
  | index {i j x : ℕ} (hlt : i < j) (hi : flags[i]?.bind ElemFlag.index? = some x)
    (hj : flags[j]?.bind ElemFlag.index? = some x)
    (hbetween : ∀ k, i < k → k < j → flags[k]? ≠ some .flagBase) : Asks flags i j

/-- The flags of a table are behind the structure, in objects of the size given by
    `objImplSize`. -/
def Placed (t : EntryTable) (record : Fin 16 → ℕ) (objImplSize : ℕ) : Prop :=
  ∀ y ∈ t.trie record, y.2.flagOffset ≠ 0 → t.implSize ≤ y.2.flagOffset / 8 ∧
    ((y.2.flagOffset / 8 : ℕ) : ℤ) < (objdef t.implSize (t.trie record)).bufSize objImplSize

/-- The flags of a table are independent. -/
structure Independent (t : EntryTable) (record : Fin 16 → ℕ) (objImplSize : ℕ) : Prop where
  nonzero : ∀ (i : ℕ) x y, t.entries[i]? = some x → (t.trie record)[i]? = some y →
    x.flag ≠ .flagNone → y.2.flagOffset ≠ 0
  placed : Placed t record objImplSize
  shared : ∀ (i j : ℕ) x y, i ≠ j → (t.trie record)[i]? = some x → (t.trie record)[j]? = some y →
    x.2.flagOffset ≠ 0 → x.2.flagOffset = y.2.flagOffset →
      Relation.EqvGen (Asks (t.entries.map TableEntry.flag)) i j
  /-- A set changes the element, or sets its flag. -/
  changes : ∀ (i : ℕ) x y, t.entries[i]? = some x → (t.trie record)[i]? = some y →
    ∀ (m : Mem) (val : List Byte), val.length = y.2.elemSize →
      ∀ k b, (kmppObjImplSet y.2 m val k).getLsbD b ≠ (m k).getLsbD b →
        (x.elemOffset ≤ k ∧ k < x.elemOffset + x.elemSize) ∨
          y.2.flagOffset ≠ 0 ∧ 8 * k + b = y.2.flagOffset
  writes : ∀ y ∈ t.trie record, ∀ (m : Mem) (val : List Byte), val.length = y.2.elemSize →
    ∀ k ∈ implSetWrites y.2 m val,
      (k : ℤ) < (objdef t.implSize (t.trie record)).bufSize objImplSize

/-! ## Registered tables -/

variable {t : EntryTable} {record : Fin 16 → ℕ} {objImplSize : ℕ}

/-- What is registered of an entry: its offset and its size, cut to their fields, and no flag where
    it has none. -/
def Registers (x : TableEntry) (y : Name × KmppEntry) : Prop :=
  y.2.elemOffset = x.elemOffset % 2 ^ 16 ∧ y.2.elemSize = x.elemSize % 2 ^ 16 ∧
    y.2.flagOffset < 2 ^ 16 ∧ (x.flag = .flagNone → y.2.flagOffset = 0)

theorem flagTypeToOffset_lt (s : FlagState) (flag : ElemFlagDef) :
    (flagTypeToOffset s flag).1 < 2 ^ 16 := by
  have hop : (flagOp s flag).1 < 2 ^ 16 := by
    rw [flagOp]
    split <;> first | exact Nat.mod_lt _ (by norm_num) | norm_num
  rw [flagTypeToOffset]
  dsimp only
  split_ifs <;> first | exact Nat.mod_lt _ (by norm_num) | exact hop

theorem toTrie_spec (s : FlagState) (l : List TableEntry) :
    List.Forall₂ Registers l (EntryTable.toTrie s l) := by
  induction l generalizing s with
  | nil => exact .nil
  | cons x l ih =>
    exact .cons ⟨rfl, rfl, flagTypeToOffset_lt s _, fun hx => by rw [hx]; rfl⟩ (ih _)

theorem length_trie (t : EntryTable) (record : Fin 16 → ℕ) :
    (t.trie record).length = t.entries.length := (toTrie_spec _ _).length_eq.symm

theorem registers {i : ℕ} {x : TableEntry} {y : Name × KmppEntry} (hx : t.entries[i]? = some x)
    (hy : (t.trie record)[i]? = some y) : Registers x y := by
  obtain ⟨hi, rfl⟩ := List.getElem?_eq_some_iff.1 hx
  obtain ⟨hi', rfl⟩ := List.getElem?_eq_some_iff.1 hy
  exact (forall₂_iff_get.1 (toTrie_spec _ t.entries)).2 i hi hi'

theorem exists_entry {y : Name × KmppEntry} (hy : y ∈ t.trie record) :
    ∃ x ∈ t.entries, Registers x y := by
  obtain ⟨i, hi, rfl⟩ := getElem_of_mem hy
  have hi' : i < t.entries.length := length_trie t record ▸ hi
  exact ⟨_, getElem_mem hi', registers (getElem?_eq_getElem hi') (getElem?_eq_getElem hi)⟩

theorem implSize_spec (t : EntryTable) :
    t.implSize % 4 = 0 ∧ t.structSize ≤ t.implSize ∧
      ∀ y ∈ t.trie record, y.2.elemOffset + y.2.elemSize ≤ t.implSize := by
  have hle : t.structSize ≤ t.implSize := by
    rw [EntryTable.implSize]
    omega
  refine ⟨Nat.mul_mod_left _ 4, hle, fun y hy => ?_⟩
  obtain ⟨x, hx, hoff, hsize, -⟩ := exists_entry hy
  have hin := t.inside x hx
  have := Nat.mod_le x.elemOffset (2 ^ 16)
  have := Nat.mod_le x.elemSize (2 ^ 16)
  omega

/-- The memory of an object ends with the word of the last flag, or before it when the flag is the
    first of the word. -/
theorem bufSize_objdef {size : ℕ} (hsize : size % 4 = 0) (entries : List (Name × KmppEntry)) :
    ((∀ x ∈ entries, x.2.flagOffset = 0) ∧
        (objdef size entries).bufSize objImplSize = size + objImplSize) ∨
      ∃ x ∈ entries, x.2.flagOffset ≠ 0 ∧ (∀ y ∈ entries, y.2.flagOffset ≤ x.2.flagOffset) ∧
        (objdef size entries).bufSize objImplSize = ((x.2.flagOffset + 31) / 32 * 4 : ℕ) := by
  obtain ⟨-, hentry, -, -, hall, hmax⟩ := foldl_addEntry entries (kmppObjdefRegister size)
  have hzero : (kmppObjdefRegister size).flagMaxPos = 0 := rfl
  have hregister : (kmppObjdefRegister size).entrySize = size := rfl
  rw [hzero] at hmax
  rw [hregister] at hentry
  rw [objdef, createObjdefMemPool]
  set d := entries.foldl kmppObjdefAddEntry (kmppObjdefRegister size)
  by_cases hpos : d.flagMaxPos = 0
  · refine .inl ⟨fun x hx => ?_, ?_⟩
    · have := hall x hx
      omega
    · rw [if_neg (not_not.2 hpos), KmppObjDefImpl.bufSize, if_neg (not_not.2 hpos), hentry]
  · obtain ⟨x, hx, hmax⟩ := hmax.resolve_left hpos
    refine .inr ⟨x, hx, by omega, fun y hy => ?_, ?_⟩
    · have := hall y hy
      omega
    · have halign : mppAlign d.flagMaxPos 8 ≠ 0 := by
        rw [mppAlign]
        omega
      rw [if_pos hpos, KmppObjDefImpl.bufSize, if_pos halign]
      simp only [mppAlign, hentry, hmax]
      omega

/-- The positions are behind the structure and inside if and only if none is cut off, and the last
    one is not the first of a word. -/
theorem placed_iff (t : EntryTable) (record : Fin 16 → ℕ) (objImplSize : ℕ) :
    Placed t record objImplSize ↔
      (∀ y ∈ t.trie record, y.2.flagOffset ≠ 0 → 8 * t.implSize ≤ y.2.flagOffset) ∧
        ∀ y ∈ t.trie record, y.2.flagOffset ≠ 0 →
          (∀ z ∈ t.trie record, z.2.flagOffset ≤ y.2.flagOffset) → y.2.flagOffset % 32 ≠ 0 := by
  have hsize := @bufSize_objdef objImplSize t.implSize (@implSize_spec record t).1 (t.trie record)
  rcases hsize with ⟨hzero, -⟩ | ⟨x, hx, hne, hle, hbuf⟩
  · exact ⟨fun _ => ⟨fun y hy hne => absurd (hzero y hy) hne, fun y hy hne => absurd (hzero y hy) hne⟩,
      fun _ y hy hne => absurd (hzero y hy) hne⟩
  · rw [Placed, hbuf]
    constructor
    · refine fun h => ⟨fun y hy hy0 => ?_, fun y hy hy0 hlast => ?_⟩
      · have := (h y hy hy0).1
        omega
      · have := (h y hy hy0).2
        have := hlast x hx
        have := hle y hy
        omega
    · rintro ⟨habove, hlast⟩ y hy hy0
      have := habove y hy hy0
      have := hlast x hx hne hle
      have := hle y hy
      omega

/-- A set of a value that is not there writes it. -/
theorem readAt_zero_ne {n : ℕ} (hn : n ≠ 0) (offset : ℕ) :
    readAt (fun _ => 0) offset (List.replicate n (1 : Byte)).length ≠ List.replicate n 1 := by
  obtain ⟨n, rfl⟩ := Nat.exists_eq_succ_of_ne_zero hn
  rw [length_replicate]
  exact fun heq => absurd (congrArg List.head? heq) (by
    simp [readAt, range_succ_eq_map, replicate_succ])

/-- The flags of a table are independent if and only if it has none, and no element that is
    written is so far behind that its offset is cut off. Their positions alone are inside when
    none is cut off and the last one is not the first of a word. -/
theorem independent_iff (t : EntryTable) (record : Fin 16 → ℕ) (objImplSize : ℕ) :
    (Independent t record objImplSize ↔ ∀ x ∈ t.entries, x.flag = .flagNone ∧
        (x.elemOffset < 2 ^ 16 ∨ x.elemSize % 2 ^ 16 = 0)) ∧
      (Placed t record objImplSize ↔
        (∀ y ∈ t.trie record, y.2.flagOffset ≠ 0 → 8 * t.implSize ≤ y.2.flagOffset) ∧
          ∀ y ∈ t.trie record, y.2.flagOffset ≠ 0 →
            (∀ z ∈ t.trie record, z.2.flagOffset ≤ y.2.flagOffset) → y.2.flagOffset % 32 ≠ 0) := by
  refine ⟨?_, placed_iff t record objImplSize⟩
  obtain ⟨halign, hstruct, hinside⟩ := @implSize_spec record t
  have hsize := @bufSize_objdef objImplSize t.implSize halign (t.trie record)
  constructor
  · intro h
    have hnone : ∀ y ∈ t.trie record, y.2.flagOffset = 0 := by
      rcases hsize with ⟨hzero, -⟩ | ⟨y, hy, hpos, -, hbuf⟩
      · exact hzero
      · -- the last byte of the word of the last flag is written
        obtain ⟨x, hx, hoff, hlen, hlt, -⟩ := exists_entry hy
        have hin := t.inside x hx
        have hplaced := (h.placed y hy hpos).1
        have hxpos := x.nonempty
        have hn : y.2.elemSize ≠ 0 := by
          rw [hlen, Nat.mod_eq_of_lt (by omega)]
          omega
        have := h.writes y hy (fun _ => 0) (List.replicate y.2.elemSize 1) (length_replicate ..)
          (y.2.flagOffset / 32 * 4 + 7)
          (.inr ⟨hpos, readAt_zero_ne hn _, Nat.le_add_right .., Nat.add_lt_add_left (by decide) _⟩)
        omega
    intro x hx
    obtain ⟨i, hi, rfl⟩ := getElem_of_mem hx
    have hi' : i < (t.trie record).length := (length_trie t record).symm ▸ hi
    have hget := getElem?_eq_getElem hi
    have hget' := getElem?_eq_getElem hi'
    have hzero := hnone _ (getElem_mem hi')
    obtain ⟨hoff, hlen, -⟩ := registers hget hget'
    refine ⟨by_contra fun hflag => h.nonzero i _ _ hget hget' hflag hzero, ?_⟩
    by_contra hcut
    rw [not_or, not_lt] at hcut
    -- the element is written at another place
    set y := (t.trie record)[i]
    have hn : y.2.elemSize ≠ 0 := by
      rw [hlen]
      exact hcut.2
    have hlt := Nat.mod_lt t.entries[i].elemOffset (show 0 < 2 ^ 16 by norm_num)
    have hchange := h.changes i _ _ hget hget' (fun _ => 0) (List.replicate y.2.elemSize 1)
      (length_replicate ..) y.2.elemOffset 0 (by
        obtain ⟨n, hn⟩ := Nat.exists_eq_succ_of_ne_zero hn
        rw [kmppObjImplSet, if_pos hzero, writeAt, length_replicate, if_pos (by omega),
          Nat.sub_self, hn, replicate_succ]
        change BitVec.getLsbD (1 : Byte) 0 ≠ BitVec.getLsbD (0 : Byte) 0
        decide)
    rcases hchange with hchange | hchange
    · omega
    · exact hchange.1 hzero
  · intro hall
    have hzero : ∀ y ∈ t.trie record, y.2.flagOffset = 0 := fun y hy => by
      obtain ⟨x, hx, -, -, -, hflag⟩ := exists_entry hy
      exact hflag (hall x hx).1
    obtain ⟨-, hbuf⟩ := hsize.resolve_right (by
      rintro ⟨y, hy, hne, -⟩
      exact hne (hzero y hy))
    refine ⟨fun i x y hx _ hflag => absurd (hall x (mem_of_getElem? hx)).1 hflag,
      fun y hy hne => absurd (hzero y hy) hne,
      fun i j x y _ hx _ hne => absurd (hzero x (mem_of_getElem? hx)) hne,
      fun i x y hx hy m val hval k b hne => .inl ?_, fun y hy m val hval k hk => ?_⟩
    · obtain ⟨hoff, hlen, -⟩ := registers hx hy
      have hcut := (hall x (mem_of_getElem? hx)).2
      have hle := Nat.mod_le x.elemSize (2 ^ 16)
      by_contra hk
      rw [kmppObjImplSet, if_pos (hzero y (mem_of_getElem? hy)), writeAt, hval, if_neg] at hne
      · exact hne rfl
      · rintro ⟨hge, hlt⟩
        rcases hcut with hcut | hcut
        · rw [Nat.mod_eq_of_lt hcut] at hoff
          omega
        · omega
    · have hin := hinside y hy
      rcases hk with hk | hk
      · have hlt := hk.2
        omega
      · exact absurd (hzero y hy) hk.1

/-- A group of 33 flags, and the base of another. -/
def fullGroup : EntryTable where
  structSize := 34
  extraSize := 0
  entries := (ElemFlag.flagBase :: (.replicate 32 .flagIncr ++ [.flagBase])).mapIdx fun i flag =>
    { name := ['e'], elemOffset := i, elemSize := 1, flag, nonempty := Nat.one_pos }
  inside := by decide +kernel

/-- The new base is the position of the last flag before it, and its word ends behind the
    memory of the object. -/
theorem fullGroup_not_independent :
    ((fullGroup.trie 0)[32]?.map fun y => y.2.flagOffset) = some 320 ∧
      ((fullGroup.trie 0)[33]?.map fun y => y.2.flagOffset) = some 320 ∧
        (objdef fullGroup.implSize (fullGroup.trie 0)).bufSize 0 = 40 ∧
          ¬Independent fullGroup 0 0 := by
  have hsize : (objdef fullGroup.implSize (fullGroup.trie 0)).bufSize 0 = 40 := by
    decide +kernel
  refine ⟨by decide +kernel, by decide +kernel, hsize, fun h => ?_⟩
  have hmem : (['e'], { elemOffset := 33, elemSize := 1, flagOffset := 320 }) ∈
      fullGroup.trie 0 := by decide +kernel
  have := h.writes _ hmem (fun _ => 0) [1] rfl 47 (.inr (by decide))
  omega

end Libmpp.Kmpp
