import Libmpp.Base.Meta
import Libmpp.Lib.Machine

/-!
# Setting and getting meta data

The accessors of `mpp_meta.c` run in any interleaving. Setting a value takes four steps: it is
made valid with a compare-and-swap, counted if it was not valid before, stored, and made ready.
Getting one takes three: the compare-and-swap, reading and counting. Storing and reading user data
are single steps only when no other access is at it (`Apart`).

The count and the state of a value drift apart when a value that is valid is set again while it is
got: the get clears the state, and the set leaves it ready but not valid. Accesses of a key may
overlap, as long as no set ends on a value that a get has taken, nor changes what a get has yet to
read, and the sets end in the order they stored (`Fair`). When user data is what the setters take,
the count is then right whenever no access is going on, a key can be read exactly when the last
value set has not been got, and a get returns that value (`meta_kept`).
-/

namespace Libmpp.Base

open Bool Function List Option

/-! ## The accessors -/

/-- The type of the accessor and of its keys (`MPP_META_ACCESSOR`). -/
inductive MetaAccessor
  | s32 | s64 | ptr | frame | packet | buffer
  deriving DecidableEq

/-- `key_type` -/
def MetaAccessor.keyType : MetaAccessor → MppMetaType
  | .s32 => .val32
  | .s64 => .val64
  | .ptr => .uptr
  | .frame => .sptr
  | .packet => .sptr
  | .buffer => .sptr

/-- The value that is set: a word, and what it points to when it is a pointer to user data. -/
structure MetaArg where
  word : ℤ
  userData : MppEncUserData := .zero
  userDataSet : MppEncUserDataSet := .zero

/-- The value that is set, for the key at a place of the table. -/
def MetaArg.value (arg : MetaArg) (i : ℕ) : MetaValue :=
  if some i = userDataIndex then .data (if arg.word = 0 then none else arg.userData.bytes)
  else if some i = userDatasIndex then
    .datas (if arg.word = 0 then none
      else arg.userDataSet.elems.map fun elems => elems.map MppEncUserDataFull.copy)
  else .word arg.word

/-- The user data is what the setters take: none, or some bytes. -/
def MetaArg.Valid (arg : MetaArg) (i : ℕ) : Prop :=
  (some i = userDataIndex → arg.word ≠ 0 → arg.userData.pdata ≠ none ∧ arg.userData.len ≠ 0) ∧
  (some i = userDatasIndex → arg.word ≠ 0 →
    arg.userDataSet.datas ≠ none ∧ arg.userDataSet.count ≠ 0)

/-- The state of a value. -/
def MppMetaImpl.setState (m : MppMetaImpl) (i state : ℕ) : MppMetaImpl :=
  { m with vals := Function.update m.vals i { m.vals i with state } }

/-- The value is stored: `set_user_data`, `set_user_datas` or the field. What the first two return
    is not looked at. -/
def MppMetaImpl.store (m : MppMetaImpl) (i : ℕ) (arg : MetaArg) (realloc : Option ℕ) :
    MppMetaImpl :=
  if some i = userDataIndex then
    (setUserData m (if arg.word = 0 then none else some arg.userData) realloc).1
  else if some i = userDatasIndex then
    (setUserDatas m (if arg.word = 0 then none else some arg.userDataSet) realloc).1
  else { m with vals := Function.update m.vals i { m.vals i with val := arg.word } }

/-- The elements are written past the block of the set of user data. -/
def MppMetaImpl.Overruns (m : MppMetaImpl) (i : ℕ) (arg : MetaArg) (realloc : Option ℕ) : Prop :=
  some i = userDatasIndex ∧ arg.word ≠ 0 ∧ m.overruns arg.userDataSet realloc

instance {m : MppMetaImpl} {i : ℕ} {arg : MetaArg} {realloc : Option ℕ} :
    Decidable (m.Overruns i arg realloc) :=
  inferInstanceAs (Decidable (_ ∧ _ ∧ _))

/-- An access that is going on, by what it does next. -/
inductive Flight
  | counting (i : ℕ) (arg : MetaArg)
  | storing (i : ℕ) (arg : MetaArg)
  | readying (i : ℕ) (arg : MetaArg)
  | reading (i : ℕ)
  | uncounting (i : ℕ) (value : MetaValue)

/-- The place of the table that is accessed. -/
def Flight.index : Flight → ℕ
  | .counting i _ => i
  | .storing i _ => i
  | .readying i _ => i
  | .reading i => i
  | .uncounting i _ => i

/-- An access that is done: a set, a get with its value, a get of a key that cannot be read, with
    what it leaves in `*val`, or an access that finds no key of that type. -/
inductive MetaEvent
  | set (i : ℕ) (value : MetaValue)
  | got (i : ℕ) (value : MetaValue)
  | missed (i : ℕ) (value : Option ℤ)
  | failed

/-- The object, the accesses that are going on, and those that are done, the last one first. -/
structure MetaState where
  impl : MppMetaImpl := {}
  flight : List Flight := []
  done : List MetaEvent := []

/-- What a thread does: begin to set or to get, with a default or without, or a step of an access
    that is going on. -/
inductive MetaAct
  | set (func : MetaAccessor) (key : ℕ) (arg : MetaArg)
  | get (func : MetaAccessor) (key : ℕ) (default : Option ℤ)
  | go (j : ℕ) (realloc : Option ℕ)

/-- The first step of `mpp_meta_set_*`. -/
def MetaState.beginSet (s : MetaState) (i : ℕ) (arg : MetaArg) : MetaState :=
  if (s.impl.vals i).state = metaValInvalid then
    { s with impl := s.impl.setState i metaValValid, flight := .counting i arg :: s.flight }
  else { s with flight := .storing i arg :: s.flight }

/-- The first step of `mpp_meta_get_*`. -/
def MetaState.beginGet (s : MetaState) (i : ℕ) (default : Option ℤ) : MetaState :=
  if (s.impl.vals i).state = metaValValid ||| metaValReady then
    { s with impl := s.impl.setState i metaValInvalid, flight := .reading i :: s.flight }
  else { s with done := .missed i default :: s.done }

/-- A further step of the `j`-th access. There is none when it writes past its block. -/
def MetaState.go (s : MetaState) (j : ℕ) (realloc : Option ℕ) : Flight → Option MetaState
  | .counting i arg =>
    some { s with
      impl := { s.impl with nodeCount := s.impl.nodeCount + 1 }
      flight := s.flight.set j (.storing i arg) }
  | .storing i arg =>
    if s.impl.Overruns i arg realloc then none
    else
      some { s with
        impl := s.impl.store i arg realloc
        flight := s.flight.set j (.readying i arg) }
  | .readying i arg =>
    some {
      impl := s.impl.setState i ((s.impl.vals i).state ||| metaValReady)
      flight := s.flight.eraseIdx j
      done := .set i (arg.value i) :: s.done }
  | .reading i => some { s with flight := s.flight.set j (.uncounting i (s.impl.fetch i)) }
  | .uncounting i value =>
    some {
      impl := { s.impl with nodeCount := s.impl.nodeCount - 1 }
      flight := s.flight.eraseIdx j
      done := .got i value :: s.done }

/-- A step. -/
def MetaState.step (s : MetaState) : MetaAct → Option MetaState
  | .set func key arg =>
    match getIndexOfKey key func.keyType with
    | none => some { s with done := .failed :: s.done }
    | some i => some (s.beginSet i arg)
  | .get func key default =>
    match getIndexOfKey key func.keyType with
    | none => some { s with done := .failed :: s.done }
    | some i => some (s.beginGet i default)
  | .go j realloc => s.flight[j]?.bind (s.go j realloc)

/-- An object that has just been got, and no access. -/
def metaMachine : Machine MetaState MetaAct := .ofPartial {} MetaState.step

/-! ## What the accesses are to do -/

/-- The value that was set last, when it has not been got since. -/
def unread : List MetaEvent → ℕ → Option MetaValue
  | [], _ => none
  | .set j value :: l, i => if j = i then some value else unread l i
  | .got j _ :: l, i => if j = i then none else unread l i
  | .missed _ _ :: l, i => unread l i
  | .failed :: l, i => unread l i

/-- Every get returned the value that was set last, which had not been got. -/
def GetsLast : List MetaEvent → Prop
  | [] => True
  | .got i value :: l => unread l i = some value ∧ GetsLast l
  | _ :: l => GetsLast l

/-- The access fails: there is no key of that type, or it cannot be read. -/
def MetaState.Fails (s : MetaState) : MetaAct → Prop
  | .set func key _ => getIndexOfKey key func.keyType = none
  | .get func key _ => ∀ i, getIndexOfKey key func.keyType = some i → ¬s.impl.Readable i
  | .go _ _ => False

/-- The number of values whose state is not invalid. -/
def MppMetaImpl.validCount (m : MppMetaImpl) : ℕ :=
  ((Finset.range metaKeyCount).filter fun i => (m.vals i).state ≠ metaValInvalid).card

/-- The access is a get that has taken a value. -/
def Flight.isGetting : Flight → Bool
  | .reading _ => true
  | .uncounting _ _ => true
  | _ => false

/-- What holds of a state: the count, when no access is going on; which keys can be read, those
    that were set last and that no get has taken; what the gets returned; and that an access that
    fails changes nothing. -/
structure MetaState.Kept (s : MetaState) : Prop where
  count : s.flight = [] → s.impl.nodeCount = s.impl.validCount
  readable : ∀ i < metaKeyCount, s.impl.Readable i ↔
    (unread s.done i).isSome ∧ ∀ f ∈ s.flight, f.index = i → f.isGetting = false
  gets : GetsLast s.done
  fails : ∀ a s', s.Fails a → s.step a = some s' → s'.impl = s.impl

/-- The key stands for user data. -/
def IsUserData (i : ℕ) : Prop := some i = userDataIndex ∨ some i = userDatasIndex

/-- The access stores or reads next. -/
def Flight.atContent : Flight → Bool
  | .storing _ _ => true
  | .reading _ => true
  | _ => false

/-- No other access is at the user data. -/
def Apart (others : List Flight) (i : ℕ) : Prop :=
  IsUserData i → ∀ f ∈ others, f.index = i → f.atContent = false

/-- When an access may go on. A set stores user data that the setters take, with memory for it, and
    not another value than the one that a get has yet to read. It ends when the key is still valid,
    no get that took its value is going on, and its value is there or has been replaced by that of
    a set that is to end later. -/
def MayGo (m : MppMetaImpl) (others : List Flight) (realloc : Option ℕ) : Flight → Prop
  | .counting _ _ => True
  | .storing i arg =>
    arg.Valid i ∧ (IsUserData i → realloc ≠ none) ∧ Apart others i ∧
      (.reading i ∈ others → arg.value i = m.fetch i)
  | .readying i arg =>
    (m.vals i).state ≠ metaValInvalid ∧
      (∀ f ∈ others, f.index = i → f.isGetting = false) ∧
      (m.fetch i = arg.value i ∨
        ∃ arg' : MetaArg, .readying i arg' ∈ others ∧ m.fetch i = arg'.value i)
  | .reading i => Apart others i
  | .uncounting _ _ => True

/-- The steps that are taken: a set begins at any time, a get takes no value while a set that has
    stored another one is going on, and an access goes on when it may. -/
def Fair (s : MetaState) : MetaAct → MetaState → Prop
  | .set _ _ _, _ => True
  | .get func key _, _ => ∀ i, getIndexOfKey key func.keyType = some i → s.impl.Readable i →
      ∀ arg : MetaArg, .readying i arg ∈ s.flight → unread s.done i = some (arg.value i)
  | .go j realloc, _ => ∀ f, s.flight[j]? = some f → MayGo s.impl (s.flight.eraseIdx j) realloc f

/-! ## What storing does -/

/-- There is a block where a length says so, or where there is room. -/
structure MppMetaImpl.Mem (m : MppMetaImpl) : Prop where
  userData : m.userData.len ≠ 0 → m.userData.pdata ≠ none
  userDataSet : m.datasRoom ≠ 0 → m.userDataSet.datas ≠ none

open MppMetaImpl

/-- Only the user data is written, and a block is there when it has a length. -/
theorem setUserData_frame (m : MppMetaImpl) (src : Option MppEncUserData) (realloc : Option ℕ) :
    ∃ d, (setUserData m src realloc).1 = { m with userData := d } ∧
      (m.Mem → d.len ≠ 0 → d.pdata ≠ none) := by
  rw [setUserData.eq_def]
  split
  · exact ⟨_, rfl, fun _ h => absurd rfl h⟩
  · split
    · exact ⟨m.userData, rfl, Mem.userData⟩
    · split_ifs
      · exact ⟨m.userData, rfl, Mem.userData⟩
      · split
        · exact ⟨_, rfl, fun _ h => absurd rfl h⟩
        · exact ⟨_, rfl, fun _ _ => some_ne_none _⟩
      · split
        · exact ⟨m.userData, rfl, Mem.userData⟩
        · exact ⟨_, rfl, fun _ _ => some_ne_none _⟩

theorem setUserDatas_frame (m : MppMetaImpl) (src : Option MppEncUserDataSet)
    (realloc : Option ℕ) : ∃ d size room, (setUserDatas m src realloc).1 =
      { m with userDataSet := d, datasBufSize := size, datasRoom := room } ∧
        (m.Mem → room ≠ 0 → d.datas ≠ none) := by
  rw [setUserDatas.eq_def]
  split
  · exact ⟨_, _, _, rfl, fun _ h => absurd rfl h⟩
  · split
    · exact ⟨m.userDataSet, m.datasBufSize, m.datasRoom, rfl, Mem.userDataSet⟩
    · dsimp only
      split_ifs
      · exact ⟨m.userDataSet, m.datasBufSize, m.datasRoom, rfl, Mem.userDataSet⟩
      · split
        · exact ⟨_, _, m.datasRoom, rfl, Mem.userDataSet⟩
        · exact ⟨_, _, _, rfl, fun _ _ => some_ne_none _⟩
      · split
        · exact ⟨m.userDataSet, m.datasBufSize, m.datasRoom, rfl, Mem.userDataSet⟩
        · exact ⟨_, _, m.datasRoom, rfl, fun _ _ => some_ne_none _⟩

theorem MppEncUserData.bytes_write (src : MppEncUserData) (p : Block UInt8)
    (hp : src.pdata = some p) (b : Block UInt8) : (src.write p hp b).bytes = src.bytes := by
  have hlen : (p.data.take src.len).length = src.len := by
    rw [length_take, min_eq_left (src.fits p hp)]
  rw [MppEncUserData.bytes, MppEncUserData.bytes, hp]
  exact congrArg some (take_left' hlen)

theorem MppEncUserDataSet.elems_write (src : MppEncUserDataSet) (p : Block MppEncUserDataFull)
    (hp : src.datas = some p) (addr : ℕ) :
    (src.write p hp addr).elems = src.elems.map fun l => l.map MppEncUserDataFull.copy := by
  have hlen : ((p.data.take src.count).map MppEncUserDataFull.copy).length = src.count := by
    rw [length_map, length_take, min_eq_left (src.fits p hp)]
  rw [MppEncUserDataSet.elems, MppEncUserDataSet.elems, hp]
  exact congrArg some (take_of_length_le hlen.le)

/-- User data that is valid is stored. -/
theorem setUserData_bytes {m : MppMetaImpl} (hm : m.Mem) {src : MppEncUserData}
    (hp : src.pdata ≠ none) (hlen : src.len ≠ 0) {realloc : Option ℕ} (hr : realloc ≠ none) :
    (setUserData m (some src) realloc).1.userData.bytes = src.bytes := by
  rw [setUserData]
  split
  next h => exact absurd h hp
  next p h =>
    rw [if_neg hlen]
    split_ifs with hlt
    · cases realloc with
      | none => exact absurd rfl hr
      | some addr => exact src.bytes_write p h _
    · have hblock := hm.userData fun h0 => hlt (by omega)
      split
      next hb => exact absurd hb hblock
      next b _ => exact src.bytes_write p h b

theorem setUserDatas_elems {m : MppMetaImpl} (hm : m.Mem) {src : MppEncUserDataSet}
    (hp : src.datas ≠ none) (hcount : src.count ≠ 0) {realloc : Option ℕ} (hr : realloc ≠ none)
    (hover : m.overruns src realloc = false) :
    (setUserDatas m (some src) realloc).1.userDataSet.elems =
      src.elems.map fun l => l.map MppEncUserDataFull.copy := by
  rw [setUserDatas]
  dsimp only
  split
  next h => exact absurd h hp
  next p h =>
    rw [if_neg hcount]
    split_ifs with hlt
    · cases realloc with
      | none => exact absurd rfl hr
      | some addr => exact src.elems_write p h addr
    · -- The elements take room, so there is a block.
      have hlen : (p.data.take src.count).length = src.count := by
        rw [length_take, min_eq_left (src.fits p h)]
      have hroom : ¬m.datasRoom < userDatasCopied (p.data.take src.count) := by
        rw [MppMetaImpl.overruns, h] at hover
        dsimp only at hover
        rw [if_neg hlt] at hover
        exact of_decide_eq_false hover
      have hblock := hm.userDataSet fun h0 => hroom (by
        rw [h0, userDatasCopied, hlen, sizeofUserDataFull]
        omega)
      split
      next hb => exact absurd hb hblock
      next b _ => exact src.elems_write p h b.addr

section

variable {m : MppMetaImpl} {i k : ℕ} {arg : MetaArg} {realloc : Option ℕ}

/-- What is written when a value is stored. -/
theorem store_cases (m : MppMetaImpl) (i : ℕ) (arg : MetaArg) (realloc : Option ℕ) :
    (some i = userDataIndex ∧ ∃ d, m.store i arg realloc = { m with userData := d } ∧
      (m.Mem → d.len ≠ 0 → d.pdata ≠ none)) ∨
    (some i = userDatasIndex ∧ ∃ d size room, m.store i arg realloc =
      { m with userDataSet := d, datasBufSize := size, datasRoom := room } ∧
        (m.Mem → room ≠ 0 → d.datas ≠ none)) ∨
    m.store i arg realloc =
      { m with vals := update m.vals i { m.vals i with val := arg.word } } := by
  rw [MppMetaImpl.store]
  by_cases hi : some i = userDataIndex
  · rw [if_pos hi]
    exact .inl ⟨hi, setUserData_frame ..⟩
  · rw [if_neg hi]
    by_cases hi' : some i = userDatasIndex
    · rw [if_pos hi']
      exact .inr (.inl ⟨hi', setUserDatas_frame ..⟩)
    · exact .inr (.inr (if_neg hi'))

theorem store_state : ((m.store i arg realloc).vals k).state = (m.vals k).state := by
  obtain ⟨-, _, h, -⟩ | ⟨-, _, _, _, h, -⟩ | h := store_cases m i arg realloc
  · rw [h]
  · rw [h]
  · rw [h]
    obtain rfl | hk := eq_or_ne k i
    · dsimp only
      rw [update_self]
    · exact congrArg MppMetaVal.state (update_of_ne hk ..)

theorem store_nodeCount : (m.store i arg realloc).nodeCount = m.nodeCount := by
  obtain ⟨-, _, h, -⟩ | ⟨-, _, _, _, h, -⟩ | h := store_cases m i arg realloc <;> rw [h]

theorem mem_store (hm : m.Mem) : (m.store i arg realloc).Mem := by
  obtain ⟨-, _, h, hmem⟩ | ⟨-, _, _, _, h, hmem⟩ | h := store_cases m i arg realloc <;> rw [h]
  · exact ⟨hmem hm, hm.userDataSet⟩
  · exact ⟨hm.userData, hmem hm⟩
  · exact ⟨hm.userData, hm.userDataSet⟩

/-- The content of the other keys is kept. -/
theorem fetch_store_ne (hk : k ≠ i) : (m.store i arg realloc).fetch k = m.fetch k := by
  have hne : ∀ {o}, some i = o → ¬some k = o := fun h h' => hk (some.inj (h'.trans h.symm))
  rw [MppMetaImpl.fetch, MppMetaImpl.fetch]
  obtain ⟨hi, _, h, -⟩ | ⟨hi, _, _, _, h, -⟩ | h := store_cases m i arg realloc
  · rw [h, if_neg (hne hi), if_neg (hne hi)]
  · rw [h, if_neg (hne hi), if_neg (hne hi)]
  · rw [h]
    dsimp only
    rw [update_of_ne hk]

/-- The content of the key is what is set. -/
theorem fetch_store (hm : m.Mem) (hvalid : arg.Valid i) (hr : IsUserData i → realloc ≠ none)
    (hover : ¬m.Overruns i arg realloc) :
    (m.store i arg realloc).fetch i = arg.value i := by
  rw [MppMetaImpl.store, MppMetaImpl.fetch, MetaArg.value]
  by_cases hi : some i = userDataIndex
  · rw [if_pos hi, if_pos hi, if_pos hi]
    by_cases h0 : arg.word = 0
    · rw [if_pos h0, if_pos h0]
      rfl
    · obtain ⟨hp, hlen⟩ := hvalid.1 hi h0
      rw [if_neg h0, if_neg h0, setUserData_bytes hm hp hlen (hr (.inl hi))]
  · rw [if_neg hi, if_neg hi, if_neg hi]
    by_cases hi' : some i = userDatasIndex
    · rw [if_pos hi', if_pos hi', if_pos hi']
      by_cases h0 : arg.word = 0
      · rw [if_pos h0, if_pos h0]
        rfl
      · obtain ⟨hp, hcount⟩ := hvalid.2 hi' h0
        have hfits : m.overruns arg.userDataSet realloc = false :=
          eq_false_of_ne_true fun h => hover ⟨hi', h0, h⟩
        rw [if_neg h0, if_neg h0, setUserDatas_elems hm hp hcount (hr (.inr hi')) hfits]
    · rw [if_neg hi', if_neg hi', if_neg hi']
      dsimp only
      rw [update_self]

variable {state : ℕ}

theorem fetch_setState : (m.setState i state).fetch k = m.fetch k := by
  rw [MppMetaImpl.fetch, MppMetaImpl.fetch, MppMetaImpl.setState]
  obtain rfl | hk := eq_or_ne k i
  · dsimp only
    rw [update_self]
  · dsimp only
    rw [update_of_ne hk]

theorem setState_self : ((m.setState i state).vals i).state = state := by
  rw [MppMetaImpl.setState]
  dsimp only
  rw [update_self]

theorem setState_nodeCount : (m.setState i state).nodeCount = m.nodeCount := rfl

theorem setState_ne (hk : k ≠ i) : (m.setState i state).vals k = m.vals k :=
  update_of_ne hk _ _

/-- A state in the count of the values. -/
def counted (state : ℕ) : ℕ := if state ≠ metaValInvalid then 1 else 0

theorem validCount_eq (m : MppMetaImpl) :
    m.validCount = ∑ k ∈ Finset.range metaKeyCount, counted (m.vals k).state :=
  Finset.card_filter _ _

theorem validCount_setState (hi : i < metaKeyCount) (state : ℕ) :
    (m.setState i state).validCount + counted (m.vals i).state = m.validCount + counted state := by
  have hmem := Finset.mem_range.2 hi
  rw [validCount_eq, validCount_eq, ← Finset.add_sum_erase _ _ hmem,
    ← Finset.add_sum_erase _ _ hmem, setState_self]
  have hrest : ∑ k ∈ (Finset.range metaKeyCount).erase i,
      counted ((m.setState i state).vals k).state =
        ∑ k ∈ (Finset.range metaKeyCount).erase i, counted (m.vals k).state :=
    Finset.sum_congr rfl fun k hk => by rw [setState_ne (Finset.ne_of_mem_erase hk)]
  rw [hrest]
  omega

theorem validCount_store : (m.store i arg realloc).validCount = m.validCount := by
  rw [validCount_eq, validCount_eq]
  exact Finset.sum_congr rfl fun k _ => by rw [store_state]

end

/-! ## Runs -/

/-- By how much the count of the values is behind for an access. -/
def Flight.owed : Flight → ℤ
  | .counting _ _ => 1
  | .reading _ => -1
  | .uncounting _ _ => -1
  | _ => 0

/-- The value that a get has taken, which is the content before it reads. -/
def Flight.took (content : MetaValue) : Flight → Option MetaValue
  | .reading _ => some content
  | .uncounting _ value => some value
  | _ => none

/-- The invariant of a key, with the accesses of it that are going on. It is ready, or got by one
    access, when it has a last value, which is the content as long as no set that has stored is
    still to end. -/
structure KeyInv (m : MppMetaImpl) (l : List Flight) (done : List MetaEvent) (i : ℕ) : Prop where
  state : (m.vals i).state = 0 ∨ (m.vals i).state = 1 ∨ (m.vals i).state = 3
  slot : l.countP Flight.isGetting + (if (m.vals i).state = 3 then 1 else 0) =
    if (unread done i).isSome then 1 else 0
  stored : (m.vals i).state = 3 → unread done i = some (m.fetch i) ∨
    ∃ arg : MetaArg, .readying i arg ∈ l ∧ m.fetch i = arg.value i
  taken : ∀ f ∈ l, ∀ value ∈ f.took (m.fetch i), unread done i = some value

/-- The accesses of a key. -/
def accesses (flight : List Flight) (i : ℕ) : List Flight :=
  flight.filter fun f => f.index = i

/-- The invariant: the count is behind by the sets and ahead by the gets that are going on. -/
structure MetaInv (m : MppMetaImpl) (flight : List Flight) (done : List MetaEvent) : Prop where
  inRange : ∀ f ∈ flight, f.index < metaKeyCount
  count : m.nodeCount + (flight.map Flight.owed).sum = m.validCount
  keys : ∀ i, KeyInv m (accesses flight i) done i
  gets : GetsLast done
  mem : m.Mem

/-- The content, the state and the last value of a key are kept. -/
structure SameKey (m m' : MppMetaImpl) (done done' : List MetaEvent) (k : ℕ) : Prop where
  state : (m'.vals k).state = (m.vals k).state
  fetch : m'.fetch k = m.fetch k
  unread : unread done' k = unread done k

section

variable {m m' : MppMetaImpl} {l l' flight flight' rest : List Flight}
  {done done' : List MetaEvent} {i k : ℕ} {f : Flight} {arg : MetaArg}

theorem accesses_cons_self : accesses (f :: rest) f.index = f :: accesses rest f.index :=
  filter_cons_of_pos (decide_eq_true rfl)

theorem isGetting_of_took {c value : MetaValue} (h : value ∈ f.took c) : f.isGetting = true := by
  cases f with
  | reading | uncounting => rfl
  | _ => nomatch h

theorem KeyInv.of_same (h : KeyInv m l done k) (hs : SameKey m m' done done' k) :
    KeyInv m' l done' k where
  state := by
    rw [hs.state]
    exact h.state
  slot := by
    rw [hs.state, hs.unread]
    exact h.slot
  stored := by
    rw [hs.state, hs.unread, hs.fetch]
    exact h.stored
  taken := by
    rw [hs.unread, hs.fetch]
    exact h.taken

theorem KeyInv.perm (h : KeyInv m l done i) (hp : l.Perm l') : KeyInv m l' done i where
  state := h.state
  slot := by
    rw [← hp.countP_eq]
    exact h.slot
  stored h3 := (h.stored h3).imp_right fun ⟨arg, hmem, hval⟩ => ⟨arg, hp.mem_iff.1 hmem, hval⟩
  taken f hf := h.taken f (hp.mem_iff.2 hf)

/-- Without an access that is neither a get nor has stored. -/
theorem KeyInv.drop (h : KeyInv m (f :: l) done i) (hf : f.isGetting = false)
    (hready : ∀ arg, f ≠ .readying i arg) : KeyInv m l done i where
  state := h.state
  slot := by
    have hslot := h.slot
    rwa [countP_cons_of_neg (ne_true_of_eq_false hf)] at hslot
  stored h3 := (h.stored h3).imp_right fun ⟨arg, hmem, hval⟩ =>
    ⟨arg, (mem_cons.1 hmem).resolve_left fun he => hready arg he.symm, hval⟩
  taken g hg := h.taken g (mem_cons_of_mem _ hg)

/-- A further access that is no get. -/
theorem KeyInv.cons (h : KeyInv m l done i) (hf : f.isGetting = false) :
    KeyInv m (f :: l) done i where
  state := h.state
  slot := by
    rw [countP_cons_of_neg (ne_true_of_eq_false hf)]
    exact h.slot
  stored h3 := (h.stored h3).imp_right fun ⟨arg, hmem, hval⟩ => ⟨arg, mem_cons_of_mem _ hmem, hval⟩
  taken g hg value hval := by
    obtain rfl | hg := mem_cons.1 hg
    · exact absurd (isGetting_of_took hval) (ne_true_of_eq_false hf)
    · exact h.taken g hg value hval

/-- While a get that took the value is going on, there is no other and the key is not ready. -/
theorem KeyInv.getting (h : KeyInv m (f :: l) done i) (hf : f.isGetting = true) :
    l.countP Flight.isGetting = 0 ∧ (m.vals i).state ≠ 3 := by
  have hslot := h.slot
  rw [countP_cons_of_pos hf] at hslot
  split_ifs at hslot <;> omega

/-- Without a get, no value is taken. -/
theorem not_took (h : l.countP Flight.isGetting = 0) {c value : MetaValue} (hf : f ∈ l) :
    value ∉ f.took c := fun hval => countP_eq_zero.1 h f hf (isGetting_of_took hval)

/-- A step of one access, which takes the place of `old`. -/
theorem MetaInv.change (old new : List Flight) (h : MetaInv m (old ++ rest) done)
    (hold : ∀ f ∈ old, f.index = i) (hnew : ∀ f ∈ new, f.index = i ∧ i < metaKeyCount)
    (hcount : m'.nodeCount + (new.map Flight.owed).sum + m.validCount =
      m.nodeCount + (old.map Flight.owed).sum + m'.validCount)
    (hsame : ∀ k, k ≠ i → SameKey m m' done done' k)
    (hkey : KeyInv m' (new ++ accesses rest i) done' i) (hgets : GetsLast done') (hmem : m'.Mem) :
    MetaInv m' (new ++ rest) done' where
  inRange f hf := by
    obtain hf | hf := mem_append.1 hf
    · rw [(hnew f hf).1]
      exact (hnew f hf).2
    · exact h.inRange f (mem_append_right _ hf)
  count := by
    have := h.count
    rw [map_append, sum_append] at this ⊢
    omega
  keys k := by
    have hnone : ∀ {l : List Flight}, (∀ f ∈ l, f.index = i) → k ≠ i → accesses l k = [] :=
      fun hl hk => filter_eq_nil_iff.2 fun f hf he => hk ((of_decide_eq_true he).symm.trans (hl f hf))
    rw [accesses, filter_append]
    obtain rfl | hk := eq_or_ne k i
    · rw [filter_eq_self.2 fun f hf => decide_eq_true (hnew f hf).1]
      exact hkey
    · have hk' := h.keys k
      rw [accesses, filter_append, ← accesses, hnone hold hk] at hk'
      rw [← accesses, hnone (fun f hf => (hnew f hf).1) hk]
      exact hk'.of_same (hsame k hk)
  gets := hgets
  mem := hmem

theorem MetaInv.perm (h : MetaInv m flight done) (hp : flight.Perm flight') :
    MetaInv m flight' done where
  inRange f hf := h.inRange f (hp.mem_iff.2 hf)
  count := by
    rw [← (hp.map _).sum_eq]
    exact h.count
  keys i := (h.keys i).perm (hp.filter _)
  gets := h.gets
  mem := h.mem

/-- An access that leaves the object and the values that were set last as they are. -/
theorem MetaInv.note (h : MetaInv m flight done) (event : MetaEvent)
    (hunread : ∀ k, unread (event :: done) k = unread done k)
    (hgets : GetsLast (event :: done)) : MetaInv m flight (event :: done) where
  inRange := h.inRange
  count := h.count
  keys k := (h.keys k).of_same ⟨rfl, rfl, hunread k⟩
  gets := hgets
  mem := h.mem

/-- The key is made valid, and not ready. -/
theorem KeyInv.validate (h : KeyInv m l done i) (h0 : (m.vals i).state = metaValInvalid) :
    KeyInv (m.setState i metaValValid) l done i where
  state := .inr (.inl setState_self)
  slot := by
    have hslot := h.slot
    rw [h0] at hslot
    rw [setState_self]
    exact hslot
  stored h3 := absurd (setState_self.symm.trans h3) (by decide)
  taken := by
    rw [fetch_setState]
    exact h.taken

/-- A get takes the value that was set last. -/
theorem KeyInv.take (h : KeyInv m l done i) (h3 : (m.vals i).state = 3)
    (hstored : ∀ arg : MetaArg, .readying i arg ∈ l → unread done i = some (arg.value i)) :
    KeyInv (m.setState i metaValInvalid) (.reading i :: l) done i where
  state := .inl setState_self
  slot := by
    have hslot := h.slot
    rw [if_pos h3] at hslot
    rw [setState_self, countP_cons_of_pos (by rfl), if_neg (by decide)]
    exact hslot
  stored h := absurd (setState_self.symm.trans h) (by decide)
  taken f hf value hval := by
    rw [fetch_setState] at hval
    obtain rfl | hf := mem_cons.1 hf
    · obtain rfl := some.inj hval
      obtain hlast | ⟨arg, hmem, hval⟩ := h.stored h3
      · exact hlast
      · exact (hstored arg hmem).trans (congrArg some hval.symm)
    · exact h.taken f hf value hval

/-- A set stores its value. -/
theorem KeyInv.store {realloc : Option ℕ} (h : KeyInv m l done i) (hmem : .readying i arg ∈ l)
    (hfetch : (m.store i arg realloc).fetch i = arg.value i)
    (hread : ∀ k, .reading k ∈ l → arg.value i = m.fetch i) :
    KeyInv (m.store i arg realloc) l done i where
  state := by
    rw [store_state]
    exact h.state
  slot := by
    rw [store_state]
    exact h.slot
  stored _ := .inr ⟨arg, hmem, hfetch⟩
  taken f hf value hval := by
    cases f with
    | reading k =>
      rw [hfetch, hread k hf] at hval
      exact h.taken _ hf value hval
    | uncounting _ v => exact h.taken _ hf value (show value ∈ some v from hval)
    | _ => nomatch hval

/-- A set ends. -/
theorem KeyInv.ready (hnone : l.countP Flight.isGetting = 0)
    (hfetch : m.fetch i = arg.value i ∨
      ∃ arg' : MetaArg, .readying i arg' ∈ l ∧ m.fetch i = arg'.value i) :
    KeyInv (m.setState i 3) l (.set i (arg.value i) :: done) i := by
  have hlast : unread (.set i (arg.value i) :: done) i = some (arg.value i) := if_pos rfl
  refine ⟨.inr (.inr setState_self), ?_, fun _ => ?_, fun f hf _ hval => ?_⟩
  · rw [hnone, setState_self, hlast]
    rfl
  · rw [fetch_setState, hlast]
    exact hfetch.imp_left fun he => congrArg some he.symm
  · exact absurd hval (not_took hnone hf)

/-- A get reads the value. -/
theorem KeyInv.read (h : KeyInv m (.reading i :: l) done i) :
    KeyInv m (.uncounting i (m.fetch i) :: l) done i := by
  obtain ⟨hnone, h3⟩ := h.getting rfl
  refine ⟨h.state, ?_, fun h' => absurd h' h3, fun f hf value hval => ?_⟩
  · have hslot := h.slot
    rw [countP_cons_of_pos (by rfl)] at hslot ⊢
    exact hslot
  · obtain rfl | hf := mem_cons.1 hf
    · exact h.taken _ mem_cons_self value hval
    · exact absurd hval (not_took hnone hf)

/-- A get ends. -/
theorem KeyInv.uncount {value : MetaValue} (h : KeyInv m (.uncounting i value :: l) done i)
    (hsame : SameKey m m' done done i) : KeyInv m' l (.got i value :: done) i := by
  obtain ⟨hnone, h3⟩ := h.getting rfl
  have hlast : unread (.got i value :: done) i = none := if_pos rfl
  have h3' : (m'.vals i).state ≠ 3 := fun h' => h3 (hsame.state.symm.trans h')
  refine ⟨?_, ?_, fun h' => absurd h' h3', fun f hf _ hval => ?_⟩
  · rw [hsame.state]
    exact h.state
  · rw [hnone, if_neg h3', hlast]
    rfl
  · exact absurd hval (not_took hnone hf)

end

section

variable {s : MetaState} {i j : ℕ} {arg : MetaArg} {realloc : Option ℕ}

/-- The invariant of a state. -/
def MetaState.Inv (s : MetaState) : Prop := MetaInv s.impl s.flight s.done

theorem inv_beginSet (h : s.Inv) (hi : i < metaKeyCount) : (s.beginSet i arg).Inv := by
  rw [MetaState.beginSet]
  split_ifs with h0
  · have hvals := validCount_setState (m := s.impl) hi 1
    rw [h0] at hvals
    refine h.change [] [.counting i arg] (i := i) nofun (by simp [Flight.index, hi]) ?_
      (fun k hk => ?_) (((h.keys i).validate h0).cons rfl) h.gets
      ⟨h.mem.userData, h.mem.userDataSet⟩
    · have : counted metaValInvalid = 0 := rfl
      have : counted 1 = 1 := rfl
      show s.impl.nodeCount + 1 + _ = s.impl.nodeCount + 0 + ((s.impl.setState i 1).validCount : ℤ)
      omega
    · exact ⟨congrArg MppMetaVal.state (setState_ne hk), fetch_setState, rfl⟩
  · exact h.change [] [.storing i arg] nofun (by simp [Flight.index, hi]) rfl
      (fun k _ => ⟨rfl, rfl, rfl⟩) ((h.keys i).cons rfl) h.gets h.mem

theorem inv_beginGet (h : s.Inv) (hi : i < metaKeyCount) (default : Option ℤ)
    (hstored : s.impl.Readable i →
      ∀ arg : MetaArg, .readying i arg ∈ s.flight → unread s.done i = some (arg.value i)) :
    (s.beginGet i default).Inv := by
  rw [MetaState.beginGet]
  split_ifs with h3
  · have hvals := validCount_setState (m := s.impl) hi 0
    rw [h3] at hvals
    have hkey := (h.keys i).take h3 fun arg hmem => hstored h3 arg (mem_filter.1 hmem).1
    refine h.change [] [.reading i] (i := i) nofun (by simp [Flight.index, hi]) ?_
      (fun k hk => ?_) hkey h.gets ⟨h.mem.userData, h.mem.userDataSet⟩
    · have : counted 0 = 0 := rfl
      have : counted (metaValValid ||| metaValReady) = 1 := rfl
      show s.impl.nodeCount + -1 + _ = s.impl.nodeCount + 0 + ((s.impl.setState i 0).validCount : ℤ)
      omega
    · exact ⟨congrArg MppMetaVal.state (setState_ne hk), fetch_setState, rfl⟩
  · exact h.note (.missed i default) (fun _ => rfl) h.gets

/-- The states of a value that is being set. -/
theorem state_or_ready {state : ℕ} (h : state = 1 ∨ state = 3) : state ||| metaValReady = 3 := by
  obtain rfl | rfl := h <;> rfl

/-- The end of a set leaves the number of values that are not invalid. -/
theorem validCount_ready {m : MppMetaImpl} (hi : i < metaKeyCount)
    (hstate : (m.vals i).state ≠ metaValInvalid) : (m.setState i 3).validCount = m.validCount := by
  have hvals := validCount_setState (m := m) hi 3
  have hone : counted (m.vals i).state = 1 := if_pos hstate
  have : counted 3 = 1 := rfl
  omega

theorem inv_go {s' : MetaState} (h : s.Inv) {f : Flight} (hf : s.flight[j]? = some f)
    (hgo : s.go j realloc f = some s') (hmay : MayGo s.impl (s.flight.eraseIdx j) realloc f) :
    s'.Inv := by
  obtain ⟨hj, rfl⟩ := List.getElem?_eq_some_iff.1 hf
  have hset : ∀ {m' done'} f', MetaInv m' (f' :: s.flight.eraseIdx j) done' →
      MetaInv m' (s.flight.set j f') done' := fun f' h => h.perm (set_perm_cons_eraseIdx hj f').symm
  have hinv := MetaInv.perm h (getElem_cons_eraseIdx_perm hj).symm
  generalize s.flight[j] = f at hinv hgo hmay
  have hi := hinv.inRange f mem_cons_self
  have hkey := hinv.keys f.index
  rw [accesses_cons_self] at hkey
  have hold : ∀ g ∈ [f], g.index = f.index := fun g hg => congrArg _ (mem_singleton.1 hg)
  cases f with
  | counting i arg =>
    obtain rfl := some.inj hgo
    refine hset _ (hinv.change [_] [.storing i arg] hold (by simpa [Flight.index] using hi) ?_
      (fun k _ => ⟨rfl, rfl, rfl⟩) (((hkey.drop rfl nofun).cons rfl).of_same ⟨rfl, rfl, rfl⟩)
      h.gets ⟨h.mem.userData, h.mem.userDataSet⟩)
    simp [Flight.owed, MppMetaImpl.validCount]
  | storing i arg =>
    obtain ⟨hvalid, hr, -, hread⟩ := hmay
    rw [MetaState.go] at hgo
    split_ifs at hgo with hover
    obtain rfl := some.inj hgo
    have hkey' : KeyInv s.impl (.readying i arg :: accesses (s.flight.eraseIdx j) i) s.done i :=
      (hkey.drop rfl nofun).cons rfl
    have hnext : MetaInv (s.impl.store i arg realloc)
        (.readying i arg :: s.flight.eraseIdx j) s.done := by
      refine hinv.change [_] [.readying i arg] hold (by simpa [Flight.index] using hi) ?_
        (fun k hk => ⟨store_state, fetch_store_ne hk, rfl⟩) (hkey'.store mem_cons_self
          (fetch_store h.mem hvalid hr hover) fun k hmem => ?_) h.gets (mem_store h.mem)
      · rw [store_nodeCount, validCount_store]
        rfl
      · obtain ⟨hmem, hk⟩ := mem_filter.1 ((mem_cons.1 hmem).resolve_left nofun)
        exact hread (of_decide_eq_true hk ▸ hmem)
    rw [MetaState.Inv]
    dsimp only
    exact hset (.readying i arg) hnext
  | readying i arg =>
    obtain ⟨hstate, hfree, hfetch⟩ := hmay
    obtain rfl := some.inj hgo
    have hready : (s.impl.vals i).state ||| metaValReady = 3 :=
      state_or_ready (hkey.state.resolve_left hstate)
    have hnone : (accesses (s.flight.eraseIdx j) i).countP Flight.isGetting = 0 :=
      countP_eq_zero.2 fun g hg => by
        obtain ⟨hg, hgi⟩ := mem_filter.1 hg
        rw [hfree g hg (of_decide_eq_true hgi)]
        exact Bool.false_ne_true
    have hkey' : KeyInv (s.impl.setState i 3) (accesses (s.flight.eraseIdx j) i)
        (.set i (arg.value i) :: s.done) i :=
      KeyInv.ready hnone (hfetch.imp_right fun ⟨arg', hmem, hval⟩ =>
        ⟨arg', mem_filter.2 ⟨hmem, decide_eq_true rfl⟩, hval⟩)
    rw [hready]
    refine hinv.change [_] [] hold nofun ?_ (fun k hk => ?_) hkey' h.gets
      ⟨h.mem.userData, h.mem.userDataSet⟩
    · rw [setState_nodeCount, validCount_ready (show i < metaKeyCount from hi) hstate]
      rfl
    · exact ⟨congrArg MppMetaVal.state (setState_ne hk), fetch_setState,
        if_neg fun he => hk he.symm⟩
  | reading i =>
    obtain rfl := some.inj hgo
    exact hset _ (hinv.change [_] [.uncounting i (s.impl.fetch i)] hold
      (by simpa [Flight.index] using hi) rfl (fun k _ => ⟨rfl, rfl, rfl⟩) (KeyInv.read hkey)
      h.gets h.mem)
  | uncounting i value =>
    obtain rfl := some.inj hgo
    refine hinv.change [_] [] hold nofun ?_ (fun k hk => ?_) (KeyInv.uncount hkey ⟨rfl, rfl, rfl⟩)
      ⟨hkey.taken _ mem_cons_self value rfl, h.gets⟩ ⟨h.mem.userData, h.mem.userDataSet⟩
    · simp [Flight.owed, MppMetaImpl.validCount]
      omega
    · exact ⟨rfl, rfl, if_neg fun he => hk he.symm⟩

end

theorem Reachable.inv {s : MetaState} (hs : (metaMachine.guarded Fair).Reachable s) : s.Inv := by
  refine hs.invariant (fun s h => ?_) fun s a s' _ h hstep => ?_
  · obtain rfl : s = {} := h
    have hcard : ({} : MppMetaImpl).validCount = 0 :=
      Finset.card_eq_zero.2 (Finset.filter_false_of_mem fun _ _ hne => hne rfl)
    exact ⟨nofun, congrArg (fun n : ℕ => (n : ℤ) + 0) hcard.symm,
      fun _ => ⟨.inl rfl, rfl, nofun, nofun⟩, trivial, fun h => absurd rfl h,
      fun h => absurd rfl h⟩
  · obtain ⟨hstep, hfair⟩ := hstep
    replace hstep : s.step a = some s' := hstep
    cases a with
    | set func key arg =>
      rw [MetaState.step] at hstep
      cases hkey : getIndexOfKey key func.keyType with
      | none =>
        rw [hkey] at hstep
        obtain rfl := some.inj hstep
        exact MetaInv.note h .failed (fun _ => rfl) h.gets
      | some i =>
        rw [hkey] at hstep
        obtain rfl := some.inj hstep
        exact inv_beginSet h (getIndexOfKey_lt hkey)
    | get func key default =>
      rw [MetaState.step] at hstep
      cases hkey : getIndexOfKey key func.keyType with
      | none =>
        rw [hkey] at hstep
        obtain rfl := some.inj hstep
        exact MetaInv.note h .failed (fun _ => rfl) h.gets
      | some i =>
        rw [hkey] at hstep
        obtain rfl := some.inj hstep
        exact inv_beginGet h (getIndexOfKey_lt hkey) default (hfair i hkey)
    | go j realloc =>
      obtain ⟨f, hf, hgo⟩ := bind_eq_some_iff.1 hstep
      exact inv_go h hf hgo (hfair f hf)

/-- An access that fails leaves the object as it is. -/
theorem fails_impl {s s' : MetaState} {a : MetaAct} (hfails : s.Fails a)
    (hstep : s.step a = some s') : s'.impl = s.impl := by
  cases a with
  | set func key arg =>
    rw [MetaState.step, show getIndexOfKey key func.keyType = none from hfails] at hstep
    obtain rfl := some.inj hstep
    rfl
  | get func key default =>
    rw [MetaState.step] at hstep
    cases hkey : getIndexOfKey key func.keyType with
    | none =>
      rw [hkey] at hstep
      obtain rfl := some.inj hstep
      rfl
    | some i =>
      rw [hkey] at hstep
      obtain rfl := some.inj hstep
      have hstate : ¬(s.impl.vals i).state = metaValValid ||| metaValReady := hfails i hkey
      rw [MetaState.beginGet, if_neg hstate]
  | go j realloc => exact hfails.elim

/-- A key can be read when it has a last value that no get has taken. -/
theorem KeyInv.readable_iff {m : MppMetaImpl} {l : List Flight} {done : List MetaEvent} {i : ℕ}
    (h : KeyInv m l done i) :
    m.Readable i ↔ (unread done i).isSome ∧ l.countP Flight.isGetting = 0 := by
  have hslot := h.slot
  rw [MppMetaImpl.Readable, show metaValValid ||| metaValReady = 3 from rfl]
  by_cases h3 : (m.vals i).state = 3
  · rw [if_pos h3] at hslot
    have hsome : (unread done i).isSome := by
      by_contra hnone
      rw [if_neg hnone] at hslot
      omega
    rw [if_pos hsome] at hslot
    exact iff_of_true h3 ⟨hsome, by omega⟩
  · rw [if_neg h3] at hslot
    refine iff_of_false h3 fun ⟨hsome, hnone⟩ => ?_
    rw [if_pos hsome, hnone] at hslot
    omega

/-- When no set ends on a value that a get has taken or changes what a get has yet to read, the
    sets end in the order they stored and the user data is valid, the count is right when no access
    is going on, a key can be read exactly when the value set last has not been got, a get returns
    that value, and an access that fails changes nothing. -/
theorem meta_kept {s : MetaState} (hs : (metaMachine.guarded Fair).Reachable s) : s.Kept := by
  have hinv := Reachable.inv hs
  refine ⟨fun hnone => ?_, fun i _ => ?_, hinv.gets, fun _ _ => fails_impl⟩
  · have hcount := hinv.count
    rw [hnone] at hcount
    simpa using hcount
  · rw [(hinv.keys i).readable_iff, countP_eq_zero]
    refine and_congr_right fun _ => ⟨fun h f hf hfi => ?_, fun h f hf => ?_⟩
    · exact eq_false_of_ne_true (h f (mem_filter.2 ⟨hf, decide_eq_true hfi⟩))
    · obtain ⟨hf, hfi⟩ := mem_filter.1 hf
      exact ne_true_of_eq_false (h f hf (of_decide_eq_true hfi))

section

variable {g : MetaState → MetaAct → MetaState → Prop} {m : MppMetaImpl} {flight : List Flight}
  {done : List MetaEvent} {i : ℕ} {arg : MetaArg}

/-- A step of an access that is going on. -/
theorem reachable_go {s s' : MetaState} {f : Flight} {j : ℕ}
    (hs : (metaMachine.guarded g).Reachable s) (hg : g s (.go j (some 0)) s')
    (hf : s.flight[j]? = some f) (hgo : s.go j (some 0) f = some s') :
    (metaMachine.guarded g).Reachable s' :=
  .step (a := .go j (some 0)) hs ⟨bind_eq_some_iff.2 ⟨f, hf, hgo⟩, hg⟩

/-- A set of a value that is not set begins. -/
theorem reachable_set {func : MetaAccessor} {key : ℕ} (arg : MetaArg)
    (hs : (metaMachine.guarded g).Reachable ⟨m, flight, done⟩)
    (hkey : getIndexOfKey key func.keyType = some i)
    (hset : ∀ s s', g s (.set func key arg) s') (h0 : (m.vals i).state = 0) :
    (metaMachine.guarded g).Reachable
      ⟨m.setState i metaValValid, .counting i arg :: flight, done⟩ := by
  refine .step (a := .set func key arg) hs ⟨?_, hset _ _⟩
  show MetaState.step _ _ = _
  rw [MetaState.step, hkey]
  exact congrArg some (if_pos h0)

/-- A set of a value that is set begins. -/
theorem reachable_set_again {func : MetaAccessor} {key : ℕ} (arg : MetaArg)
    (hs : (metaMachine.guarded g).Reachable ⟨m, flight, done⟩)
    (hkey : getIndexOfKey key func.keyType = some i)
    (hset : ∀ s s', g s (.set func key arg) s') (h0 : (m.vals i).state ≠ 0) :
    (metaMachine.guarded g).Reachable ⟨m, .storing i arg :: flight, done⟩ := by
  refine .step (a := .set func key arg) hs ⟨?_, hset _ _⟩
  show MetaState.step _ _ = _
  rw [MetaState.step, hkey]
  exact congrArg some (if_neg h0)

/-- A get takes a value that can be read. -/
theorem reachable_get {func : MetaAccessor} {key : ℕ}
    (hs : (metaMachine.guarded g).Reachable ⟨m, flight, done⟩)
    (hkey : getIndexOfKey key func.keyType = some i)
    (hget : ∀ s', g ⟨m, flight, done⟩ (.get func key none) s') (h3 : (m.vals i).state = 3) :
    (metaMachine.guarded g).Reachable
      ⟨m.setState i metaValInvalid, .reading i :: flight, done⟩ := by
  refine .step (a := .get func key none) hs ⟨?_, hget _⟩
  show MetaState.step _ _ = _
  rw [MetaState.step, hkey]
  exact congrArg some (if_pos h3)

end

/-- `KEY_INPUT_BLOCK` -/
def keyInputBlock : ℕ := fourccMeta 'i' 'b' 'l' 'k'

theorem keyInputBlock_index : getIndexOfKey keyInputBlock MetaAccessor.s32.keyType = some 9 := by
  decide

theorem keyInputBlock_not_userData : ¬IsUserData 9 := by
  rw [IsUserData, userDataIndex_eq, userDatasIndex_eq]
  decide

theorem keyInputBlock_not_overruns (m : MppMetaImpl) (arg : MetaArg) :
    ¬m.Overruns 9 arg (some 0) := fun h => keyInputBlock_not_userData (.inr h.1)

theorem value_keyInputBlock (word : ℤ) : MetaArg.value { word } 9 = .word word := by
  rw [MetaArg.value, userDataIndex_eq, userDatasIndex_eq, if_neg (by decide), if_neg (by decide)]

theorem fetch_keyInputBlock (m : MppMetaImpl) (arg : MetaArg) :
    (m.store 9 arg (some 0)).fetch 9 = .word arg.word := by
  rw [MppMetaImpl.store, MppMetaImpl.fetch, userDataIndex_eq, userDatasIndex_eq,
    if_neg (by decide), if_neg (by decide), if_neg (by decide), if_neg (by decide)]
  dsimp only
  rw [update_self]

theorem mayGo_storing_keyInputBlock {m : MppMetaImpl} {others : List Flight} {word : ℤ}
    (hread : .reading 9 ∉ others) : MayGo m others (some 0) (.storing 9 { word }) :=
  ⟨⟨fun h => (keyInputBlock_not_userData (.inl h)).elim,
    fun h => (keyInputBlock_not_userData (.inr h)).elim⟩,
    fun _ => some_ne_none 0, fun h => (keyInputBlock_not_userData h).elim, fun h => absurd h hread⟩

theorem reachable_store {g : MetaState → MetaAct → MetaState → Prop} {m : MppMetaImpl}
    {flight : List Flight} {done : List MetaEvent} {arg : MetaArg} {j : ℕ}
    (hs : (metaMachine.guarded g).Reachable ⟨m, flight, done⟩)
    (hg : ∀ s', g ⟨m, flight, done⟩ (.go j (some 0)) s') (hf : flight[j]? = some (.storing 9 arg)) :
    (metaMachine.guarded g).Reachable
      ⟨m.store 9 arg (some 0), flight.set j (.readying 9 arg), done⟩ := by
  refine reachable_go hs (hg _) hf ?_
  rw [MetaState.go, if_neg (keyInputBlock_not_overruns m arg)]

theorem fair_go {s s' : MetaState} {j : ℕ} {f : Flight} (hf : s.flight[j]? = some f)
    (hmay : MayGo s.impl (s.flight.eraseIdx j) (some 0) f) : Fair s (.go j (some 0)) s' := by
  intro f' hf'
  obtain rfl := some.inj (hf.symm.trans hf')
  exact hmay

/-- Two sets overlap, the first one ends when the value of the second one is there, and a get
    returns the value of the second one. -/
theorem meta_kept_overlap : ∃ s, (metaMachine.guarded Fair).Reachable s ∧
    s.done = [.got 9 (.word 6), .set 9 (.word 6), .set 9 (.word 5)] ∧ s.Kept := by
  have hbegin := reachable_set (g := Fair) { word := 5 } (.init rfl) keyInputBlock_index
    (fun _ _ => trivial) rfl
  have hagain := reachable_set_again { word := 6 } hbegin keyInputBlock_index
    (fun _ _ => trivial) (by rw [setState_self]; decide)
  have hcounted := reachable_go (j := 1) hagain (fair_go rfl trivial) rfl rfl
  have hfirst := reachable_store (j := 1) hcounted
    (fun _ => fair_go rfl (mayGo_storing_keyInputBlock (by simp))) rfl
  have hboth := reachable_store (j := 0) hfirst
    (fun _ => fair_go rfl (mayGo_storing_keyInputBlock (by simp))) rfl
  obtain ⟨m, hm, hstate, hfetch⟩ : ∃ m, (metaMachine.guarded Fair).Reachable
      ⟨m, [.readying 9 { word := 6 }, .readying 9 { word := 5 }], []⟩ ∧
      (m.vals 9).state = 1 ∧ m.fetch 9 = .word 6 := by
    refine ⟨_, hboth, ?_, fetch_keyInputBlock _ _⟩
    rw [store_state, store_state]
    exact setState_self
  have hsix : m.fetch 9 = MetaArg.value { word := 6 } 9 := hfetch.trans (value_keyInputBlock 6).symm
  have hready := reachable_go (j := 1) hm
    (fair_go rfl ⟨by rw [hstate]; decide, by simp [Flight.isGetting],
      .inr ⟨_, mem_singleton_self _, hsix⟩⟩) rfl rfl
  rw [hstate, value_keyInputBlock] at hready
  have hlast := reachable_go (j := 0) hready
    (fair_go rfl ⟨by dsimp only; rw [setState_self]; decide, nofun,
      .inl (fetch_setState.trans hsix)⟩) rfl rfl
  rw [setState_self, value_keyInputBlock] at hlast
  have hget := reachable_get hlast keyInputBlock_index (fun _ _ _ _ _ => nofun) setState_self
  have hread := reachable_go (j := 0) hget (fair_go rfl fun _ => nofun) rfl rfl
  rw [fetch_setState, fetch_setState, fetch_setState, hfetch] at hread
  have hgot := reachable_go (j := 0) hread (fair_go rfl trivial) rfl rfl
  exact ⟨_, hgot, rfl, meta_kept hgot⟩

/-- A value is set, set again and got: the get takes the state of the value, and the set leaves it
    ready. It is not invalid, and not counted. -/
theorem meta_not_kept : ¬∀ s, metaMachine.Reachable s → s.Kept := by
  intro h
  have hbegin := reachable_set (g := fun _ _ _ => True) { word := 5 } (.init rfl)
    keyInputBlock_index (fun _ _ => trivial) rfl
  have hcounted := reachable_go (j := 0) hbegin trivial rfl rfl
  have hstored := reachable_store (j := 0) hcounted (fun _ => trivial) rfl
  have hready := reachable_go (j := 0) hstored trivial rfl rfl
  obtain ⟨m, hm, hcount, hstate⟩ : ∃ m, (metaMachine.guarded fun _ _ _ => True).Reachable
      ⟨m, [], [.set 9 (MetaArg.value { word := 5 } 9)]⟩ ∧ m.nodeCount = 1 ∧
      (m.vals 9).state = 3 := by
    refine ⟨_, hready, ?_, ?_⟩
    · rw [setState_nodeCount, store_nodeCount]
      rfl
    rw [setState_self, store_state]
    show ((MppMetaImpl.setState {} 9 metaValValid).vals 9).state ||| metaValReady = 3
    rw [setState_self]
    rfl
  have hagain := reachable_set_again { word := 6 } hm keyInputBlock_index
    (fun _ _ => trivial) (by rw [hstate]; decide)
  have hget := reachable_get hagain keyInputBlock_index (fun _ => trivial) hstate
  have hread := reachable_go (j := 0) hget trivial rfl rfl
  have hgot := reachable_go (j := 0) hread trivial rfl rfl
  have hover := reachable_store (j := 0) hgot (fun _ => trivial) rfl
  have hdead := reachable_go (j := 0) hover trivial rfl rfl
  obtain ⟨m', done, hm', hzero, hstate'⟩ : ∃ m' done, metaMachine.Reachable ⟨m', [], done⟩ ∧
      m'.nodeCount = 0 ∧ (m'.vals 9).state = 2 := by
    refine ⟨_, _, .of_guarded hdead, ?_, ?_⟩
    · rw [setState_nodeCount, store_nodeCount]
      show m.nodeCount - 1 = 0
      rw [hcount]
      rfl
    · rw [setState_self, store_state]
      show ((m.setState 9 metaValInvalid).vals 9).state ||| metaValReady = 2
      rw [setState_self]
      rfl
  have hvalid := (h _ hm').count rfl
  dsimp only at hvalid
  rw [hzero, eq_comm, Nat.cast_eq_zero, MppMetaImpl.validCount, Finset.card_eq_zero,
    Finset.filter_eq_empty_iff] at hvalid
  refine hvalid (Finset.mem_range.2 (show 9 < metaKeyCount by decide)) ?_
  rw [hstate']
  decide

end Libmpp.Base
