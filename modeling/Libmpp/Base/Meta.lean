import Libmpp.Base.Err

/-!
# Meta data

The values of a meta object (`mpp_meta.c`): a table of values, each with its own state word, and
the user data and the set of user data that two of the keys stand for.

* A key is found by its code and its type (`getIndexOfKey`); `vals` is indexed by what is found.
* Blocks of the heap are their address and their bytes. What `mpp_realloc` returns is an argument
  of the operations, `none` for `NULL`. The block of a set of user data has room for a number of
  bytes, which may be too few, as sizes are 32-bit words (`overruns`).
* `mppMetaDup` copies the state words and looks at the user data of the new object, which has
  none: the user data is not duplicated, and the duplicate is faithful exactly when there is none
  behind a key that can be read (`mppMetaDup_faithful`).
-/

namespace Libmpp.Base

open Option

/-! ## Keys -/

/-- `MppMetaType` -/
inductive MppMetaType
  | val32 | val64 | kptr | uptr | sptr
  deriving DecidableEq

/-- `FOURCC_META` -/
def fourccMeta (a b c d : Char) : ℕ :=
  a.toNat * 2 ^ 24 + b.toNat * 2 ^ 16 + c.toNat * 2 ^ 8 + d.toNat

/-- `KEY_USER_DATA` -/
def keyUserData : ℕ := fourccMeta 'u' 's' 'r' 'd'

/-- `KEY_USER_DATAS` -/
def keyUserDatas : ℕ := fourccMeta 'u' 'r' 'd' 's'

/-- `META_ENTRY_TABLE` -/
def metaEntryTable : List (ℕ × MppMetaType) := [
  (fourccMeta 'i' 'f' 'r' 'm', .sptr), (fourccMeta 'o' 'f' 'r' 'm', .sptr),
  (fourccMeta 'i' 'p' 'k' 't', .sptr), (fourccMeta 'o' 'p' 'k' 't', .sptr),
  (fourccMeta 'm' 'v' 'i' 'f', .sptr), (fourccMeta 'h' 'd' 'r' ' ', .sptr),
  (fourccMeta 'h' 'd' 'r' 'o', .val32), (fourccMeta 'h' 'd' 'r' 'l', .val32),
  (fourccMeta 'o' 'i' 'd' 'r', .val32), (fourccMeta 'i' 'b' 'l' 'k', .val32),
  (fourccMeta 'o' 'b' 'l' 'k', .val32), (fourccMeta 'i' 'i' 'd' 'r', .val32),
  (fourccMeta 't' 'l' 'i' 'd', .val32), (fourccMeta 'l' 't' 'i' 'd', .val32),
  (fourccMeta 'a' 'v' 'g' 'q', .val32), (fourccMeta 's' 't' 'r' 'q', .val32),
  (fourccMeta 'r' 't' 'b' 'r', .val32), (fourccMeta 'r' 'o' 'i' ' ', .uptr),
  (fourccMeta 'r' 'o' 'i' '2', .uptr), (fourccMeta 'j' 'r' 'o' 'i', .uptr),
  (fourccMeta 'o' 's' 'd' ' ', .uptr), (fourccMeta 'o' 's' 'd' '2', .uptr),
  (fourccMeta 'o' 's' 'd' '3', .uptr), (keyUserData, .uptr), (keyUserDatas, .uptr),
  (fourccMeta 'e' 'q' 'm' '0', .sptr), (fourccMeta 'n' 'p' 'u' 's', .sptr),
  (fourccMeta 'n' 'p' 'u' 'u', .uptr), (fourccMeta 'u' 'b' 'u' 'f', .sptr),
  (fourccMeta 'd' 'b' 'u' 'f', .sptr), (fourccMeta 'l' '6' '4' 'p', .val32),
  (fourccMeta 'l' '3' '2' 'p', .val32), (fourccMeta 'l' '1' '6' 'p', .val32),
  (fourccMeta 'l' '8' 'p' ' ', .val32), (fourccMeta 'l' '3' '2' 'i', .val32),
  (fourccMeta 'l' '1' '6' 'i', .val32), (fourccMeta 'l' '8' 'i' ' ', .val32),
  (fourccMeta 'l' '4' 'i' ' ', .val32), (fourccMeta 'i' 'p' 's' 'p', .val32),
  (fourccMeta 'o' 'p' 's' 'p', .val32), (fourccMeta 'i' 'p' 'n' 'r', .val32),
  (fourccMeta 'e' 's' 's' 'e', .val64), (fourccMeta 'm' 'l' 't' 'r', .val32),
  (fourccMeta 'u' 'l' 't' 'r', .val32), (fourccMeta 'f' 'r' 'm' 'q', .val32),
  (fourccMeta 'b' 'p' 'i' 'd', .val32), (fourccMeta 't' 'b' 'e' 'n', .val32),
  (fourccMeta 't' 'b' 'y' 'o', .val32), (fourccMeta 't' 'b' 'c' 'o', .val32)]

/-- `meta_key_count` -/
def metaKeyCount : ℕ := metaEntryTable.length

/-- `get_index_of_key`: the place of the key and the type in the table. -/
def getIndexOfKey (key : ℕ) (type : MppMetaType) : Option ℕ :=
  metaEntryTable.findIdx? fun entry => entry = (key, type)

/-- `user_data_index` -/
def userDataIndex : Option ℕ := getIndexOfKey keyUserData .uptr

/-- `user_datas_index` -/
def userDatasIndex : Option ℕ := getIndexOfKey keyUserDatas .uptr

theorem getIndexOfKey_lt {key : ℕ} {type : MppMetaType} {i : ℕ}
    (h : getIndexOfKey key type = some i) : i < metaKeyCount :=
  (List.findIdx?_eq_some_iff_getElem.1 h).1

theorem userDataIndex_eq : userDataIndex = some 23 := by decide

theorem userDatasIndex_eq : userDatasIndex = some 24 := by decide

/-! ## The object -/

/-- `META_VAL_INVALID` -/
abbrev metaValInvalid : ℕ := 0

/-- `META_VAL_VALID` -/
abbrev metaValValid : ℕ := 1

/-- `META_VAL_READY` -/
abbrev metaValReady : ℕ := 2

structure MppMetaVal where
  state : ℕ := metaValInvalid
  /-- The field of the union that the type of the key selects. -/
  val : ℤ := 0

/-- A block of the heap. -/
structure Block (α : Type) where
  addr : ℕ
  data : List α

/-- `MppEncUserData`, of the caller and of the object. -/
structure MppEncUserData where
  len : ℕ
  pdata : Option (Block UInt8)
  fits : ∀ b ∈ pdata, len ≤ b.data.length

/-- `MppEncUserDataFull`, with what its pointers stand for. -/
structure MppEncUserDataFull where
  len : ℕ
  uuid : Option (List UInt8)
  pdata : Option (List UInt8)
  deriving DecidableEq

/-- `MppEncUserDataSet`, of the caller and of the object. -/
structure MppEncUserDataSet where
  count : ℕ
  datas : Option (Block MppEncUserDataFull)
  fits : ∀ b ∈ datas, count ≤ b.data.length

/-- No user data. -/
def MppEncUserData.zero : MppEncUserData := ⟨0, none, nofun⟩

/-- No set of user data. -/
def MppEncUserDataSet.zero : MppEncUserDataSet := ⟨0, none, nofun⟩

/-- The block is kept, without a length. -/
def MppEncUserData.forget (d : MppEncUserData) : MppEncUserData :=
  ⟨0, d.pdata, fun _ _ => Nat.zero_le _⟩

/-- The block is kept, without a count. -/
def MppEncUserDataSet.forget (d : MppEncUserDataSet) : MppEncUserDataSet :=
  ⟨0, d.datas, fun _ _ => Nat.zero_le _⟩

/-- What `MppMetaImpl` holds. -/
structure MppMetaImpl where
  nodeCount : ℤ := 0
  userData : MppEncUserData := .zero
  userDataSet : MppEncUserDataSet := .zero
  datasBufSize : ℕ := 0
  /-- The bytes of the block behind `userDataSet`. -/
  datasRoom : ℕ := 0
  vals : ℕ → MppMetaVal := fun _ => {}

/-- `get_meta`, when the pool has memory. It is cleared. -/
def getMeta (pool : Bool) : Option MppMetaImpl := if pool then some {} else none

/-- The element as it is copied. -/
def MppEncUserDataFull.copy (src : MppEncUserDataFull) : MppEncUserDataFull :=
  { src with pdata := src.pdata.map fun bytes => bytes.take src.len }

/-- The bytes that the element needs behind the structures. -/
def MppEncUserDataFull.dataSize (src : MppEncUserDataFull) : ℕ :=
  (match src.uuid with
    | some uuid => uuid.length + 1
    | none => 0) + src.len

/-- The bytes of the element that are copied behind the structures. -/
def MppEncUserDataFull.copySize (src : MppEncUserDataFull) : ℕ :=
  (match src.uuid with
    | some uuid => uuid.length + 1
    | none => 0) + if src.pdata.isSome then src.len else 0

/-- `sizeof(MppEncUserDataFull)` -/
def sizeofUserDataFull : ℕ := 24

/-- `buf_size` of the elements, of 32 bits as its parts are. -/
def userDatasSize (l : List MppEncUserDataFull) : ℕ :=
  (sizeofUserDataFull * l.length + (l.map MppEncUserDataFull.dataSize).sum) % 2 ^ 32

/-- The bytes that are written when the elements are copied. -/
def userDatasCopied (l : List MppEncUserDataFull) : ℕ :=
  sizeofUserDataFull * l.length + (l.map MppEncUserDataFull.copySize).sum

/-- The block with the bytes of the caller at its front. -/
def MppEncUserData.write (src : MppEncUserData) (p : Block UInt8) (hp : src.pdata = some p)
    (b : Block UInt8) : MppEncUserData where
  len := src.len
  pdata := some { b with data := p.data.take src.len ++ b.data.drop src.len }
  fits := by
    intro c hc
    obtain rfl := Option.some.inj hc
    have := src.fits p hp
    simp only [List.length_append, List.length_take]
    omega

variable (m : MppMetaImpl)

/-- `set_user_data` -/
def setUserData (src : Option MppEncUserData) (realloc : Option ℕ) : MppMetaImpl × MppRet :=
  match src with
  | none => ({ m with userData := .zero }, mppOk)
  | some src =>
    match hp : src.pdata with
    | none => (m, mppErrNullPtr)
    | some p =>
      if src.len = 0 then (m, mppErrNullPtr)
      else if m.userData.len < src.len then
        match realloc with
        | none => ({ m with userData := m.userData.forget }, mppErrMalloc)
        | some addr => ({ m with userData := src.write p hp { addr, data := [] } }, mppOk)
      else
        match m.userData.pdata with
        | none => (m, mppOk)
        | some b => ({ m with userData := src.write p hp b }, mppOk)

/-- The set as it is copied, at an address. -/
def MppEncUserDataSet.write (src : MppEncUserDataSet) (p : Block MppEncUserDataFull)
    (hp : src.datas = some p) (addr : ℕ) : MppEncUserDataSet where
  count := src.count
  datas := some { addr, data := (p.data.take src.count).map MppEncUserDataFull.copy }
  fits := by
    intro c hc
    obtain rfl := Option.some.inj hc
    have := src.fits p hp
    simp only [List.length_map, List.length_take]
    omega

/-- More bytes are written than the block has, which may be a new one. -/
def MppMetaImpl.overruns (src : MppEncUserDataSet) (realloc : Option ℕ) : Bool :=
  match src.datas with
  | none => false
  | some p =>
    let l := p.data.take src.count
    if m.datasBufSize < userDatasSize l then realloc.isSome && userDatasSize l < userDatasCopied l
    else m.datasRoom < userDatasCopied l

/-- `set_user_datas`, when the block has room. -/
def setUserDatas (src : Option MppEncUserDataSet) (realloc : Option ℕ) : MppMetaImpl × MppRet :=
  match src with
  | none => ({ m with userDataSet := .zero, datasBufSize := 0, datasRoom := 0 }, mppOk)
  | some src =>
    match hp : src.datas with
    | none => (m, mppErrNullPtr)
    | some p =>
      if src.count = 0 then (m, mppErrNullPtr)
      else
        let bufSize := userDatasSize (p.data.take src.count)
        if m.datasBufSize < bufSize then
          match realloc with
          | none =>
            ({ m with userDataSet := m.userDataSet.forget, datasBufSize := 0 }, mppErrMalloc)
          | some addr =>
            ({ m with
                userDataSet := src.write p hp addr
                datasBufSize := bufSize
                datasRoom := bufSize }, mppOk)
        else
          match m.userDataSet.datas with
          | none => (m, mppOk)
          | some b =>
            ({ m with userDataSet := src.write p hp b.addr, datasBufSize := bufSize }, mppOk)

/-! ## Values -/

/-- What a key gives: a number or a pointer, or what the pointer to the user data stands for. -/
inductive MetaValue
  | word (val : ℤ)
  | data (bytes : Option (List UInt8))
  | datas (elems : Option (List MppEncUserDataFull))
  deriving DecidableEq

/-- The bytes of user data. -/
def MppEncUserData.bytes (d : MppEncUserData) : Option (List UInt8) :=
  d.pdata.map fun b => b.data.take d.len

/-- The elements of a set of user data. -/
def MppEncUserDataSet.elems (d : MppEncUserDataSet) : Option (List MppEncUserDataFull) :=
  d.datas.map fun b => b.data.take d.count

/-- What a get reads: `get_user_data`, `get_user_datas` or the field. -/
def MppMetaImpl.fetch (i : ℕ) : MetaValue :=
  if some i = userDataIndex then .data m.userData.bytes
  else if some i = userDatasIndex then .datas m.userDataSet.elems
  else .word (m.vals i).val

/-- The key can be read. -/
def MppMetaImpl.Readable (i : ℕ) : Prop :=
  (m.vals i).state = metaValValid ||| metaValReady

/-! ## Duplication -/

/-- `mpp_meta_dup`: the object behind it, and the new one. -/
def mppMetaDup (pool : Bool) (realloc : Option ℕ) : MppMetaImpl × Option MppMetaImpl :=
  match getMeta pool with
  | none => (m, none)
  | some ret =>
    let ret := { ret with vals := m.vals }
    let ret :=
      if ret.userData.len ≠ 0 then
        (setUserData { ret with userData := .zero } (some m.userData) realloc).1
      else ret
    let (m, ret) :=
      if ret.userDataSet.count ≠ 0 then
        ((setUserDatas m (some m.userDataSet) realloc).1, { ret with userData := .zero })
      else (m, ret)
    (m, some { ret with nodeCount := m.nodeCount })

/-- The blocks that go with the object when it is put. -/
def MppMetaImpl.owned : List ℕ :=
  (m.userData.pdata.map Block.addr).toList ++ (m.userDataSet.datas.map Block.addr).toList

/-- A duplicate: the source is as it was, the same values are set, each that can be read has the
    same content, and neither object owns a block of the other. -/
structure Duplicated (m m' d : MppMetaImpl) : Prop where
  source : m' = m
  count : d.nodeCount = m.nodeCount
  state : ∀ i < metaKeyCount, (d.vals i).state = (m.vals i).state
  value : ∀ i < metaKeyCount, m.Readable i → d.fetch i = m.fetch i
  apart : ∀ addr ∈ d.owned, addr ∉ m.owned

/-- What a duplicate is. -/
theorem mppMetaDup_eq (realloc : Option ℕ) :
    mppMetaDup m true realloc = (m, some { vals := m.vals, nodeCount := m.nodeCount }) := rfl

/-- No user data stands behind a key that can be read. -/
def MppMetaImpl.NoUserData : Prop :=
  ∀ i, m.Readable i →
    (some i = userDataIndex → m.userData.pdata = none) ∧
    (some i = userDatasIndex → m.userDataSet.datas = none)

theorem duplicated_iff :
    Duplicated m m { vals := m.vals, nodeCount := m.nodeCount } ↔ m.NoUserData := by
  have hne : userDatasIndex ≠ userDataIndex := by
    rw [userDataIndex_eq, userDatasIndex_eq]
    exact fun h => absurd (some.inj h) (by decide)
  constructor
  · intro hdup i hi
    refine ⟨fun hdata => ?_, fun hdatas => ?_⟩
    · have hlt : i < metaKeyCount := getIndexOfKey_lt hdata.symm
      have hvalue := hdup.value i hlt hi
      rw [MppMetaImpl.fetch, MppMetaImpl.fetch, if_pos hdata, if_pos hdata] at hvalue
      exact map_eq_none_iff.1 (MetaValue.data.inj hvalue).symm
    · have hlt : i < metaKeyCount := getIndexOfKey_lt hdatas.symm
      have hvalue := hdup.value i hlt hi
      have hnot : ¬some i = userDataIndex := fun h => hne (hdatas.symm.trans h)
      rw [MppMetaImpl.fetch, MppMetaImpl.fetch, if_neg hnot, if_neg hnot, if_pos hdatas,
        if_pos hdatas] at hvalue
      exact map_eq_none_iff.1 (MetaValue.datas.inj hvalue).symm
  · intro h
    refine ⟨rfl, rfl, fun _ _ => rfl, fun i _ hi => ?_, nofun⟩
    rw [MppMetaImpl.fetch, MppMetaImpl.fetch]
    split_ifs with hdata hdatas
    · exact congrArg MetaValue.data (map_eq_none_iff.2 ((h i hi).1 hdata)).symm
    · exact congrArg MetaValue.datas (map_eq_none_iff.2 ((h i hi).2 hdatas)).symm
    · rfl

/-- The duplicate is faithful exactly when no user data stands behind a key that can be read. -/
theorem mppMetaDup_faithful (pool : Bool) (realloc : Option ℕ) :
    (∃ d, (mppMetaDup m pool realloc).2 = some d ∧
      Duplicated m (mppMetaDup m pool realloc).1 d) ↔ pool = true ∧ m.NoUserData := by
  cases pool with
  | false => exact iff_of_false (fun ⟨_, hd, _⟩ => nomatch hd) fun h => Bool.false_ne_true h.1
  | true =>
    rw [mppMetaDup_eq, ← duplicated_iff]
    constructor
    · rintro ⟨d, hd, hdup⟩
      obtain rfl := some.inj hd
      exact ⟨rfl, hdup⟩
    · rintro ⟨-, hdup⟩
      exact ⟨_, rfl, hdup⟩

/-- An object with user data of one byte. -/
def withUserData : MppMetaImpl where
  nodeCount := 1
  userData := ⟨1, some ⟨4096, [7]⟩, by
    intro b hb
    obtain rfl := Option.some.inj hb
    exact Nat.le_refl 1⟩
  vals i := { state := if i = 23 then 3 else 0 }

/-- The user data is not in the duplicate. -/
theorem mppMetaDup_not_faithful :
    ¬∀ (m : MppMetaImpl) (realloc : Option ℕ), ∃ d, (mppMetaDup m true realloc).2 = some d ∧
      Duplicated m (mppMetaDup m true realloc).1 d := by
  intro h
  obtain ⟨d, hd, hdup⟩ := h withUserData none
  rw [mppMetaDup_eq] at hd hdup
  obtain rfl := some.inj hd
  have hnone := ((duplicated_iff withUserData).1 hdup 23 rfl).1 userDataIndex_eq.symm
  exact some_ne_none _ hnone

end Libmpp.Base
