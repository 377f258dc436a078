import Libmpp.Lib.Memory
import Libmpp.H264d.DpbSize

/-!
# Subset sequence parameter sets

`process_subsps` of `h264d_sps.c`, with `sps_mvc_extension`, which allocates the tables of
a subset, `recycle_subsps`, which frees them, and the part of `free_vid_ctx` that frees
those of the subsets that are stored.

A subset is parsed into one that is kept for the purpose, and copied to where it is stored;
its tables then belong to the copy. The tables are blocks of a memory (`Block`), and an
access to a block that is not there, or behind its end, is a fault. The system has room for
every table; but the size of one with a negative number of entries wraps, and then what is
allocated is not the table.
-/

namespace Libmpp.H264d

open Base Bitstream

/-! ## Tables -/

/-- The references between views: for anchor pictures or others, and for one list. -/
inductive RefKind
  | anchorL0
  | anchorL1
  | nonAnchorL0
  | nonAnchorL1
  deriving DecidableEq, Repr

/-- A table of numbers, or one of pointers to such tables. -/
inductive Block
  | ints (entries : List ℤ)
  | rows (entries : List (Option ℕ))
  deriving DecidableEq, Repr

section Access

variable (m : Memory Block) (p : Option ℕ) (i : ℕ)

def readInt : Option ℤ :=
  match m.load p with
  | some (.ints l) => l[i]?
  | _ => none

def readRow : Option (Option ℕ) :=
  match m.load p with
  | some (.rows l) => l[i]?
  | _ => none

def writeInt (v : ℤ) : Option (Memory Block) :=
  match m.load p with
  | some (.ints l) => if i < l.length then m.store p (.ints (l.set i v)) else none
  | _ => none

def writeRow (v : Option ℕ) : Option (Memory Block) :=
  match m.load p with
  | some (.rows l) => if i < l.length then m.store p (.rows (l.set i v)) else none
  | _ => none

end Access

/-- A subset sequence parameter set (`H264_subSPS_t`): `num` and `refs` are the tables
    `num_anchor_refs_l0`, `anchor_ref_l0` and so on. -/
structure SubSps where
  sps : Sps := {}
  valid : Bool := false
  bitEqualToOne : Bool := false
  numViewsMinus1 : ℤ := 0
  viewId : Option ℕ := none
  num : RefKind → Option ℕ := fun _ => none
  refs : RefKind → Option ℕ := fun _ => none
  mvcVuiParametersPresentFlag : Bool := false

def SubSps.numViews (s : SubSps) : ℤ := 1 + s.numViewsMinus1

/-- The tables with an entry for every view. -/
def SubSps.tables (s : SubSps) : List (Option ℕ) :=
  [s.viewId, s.num .anchorL0, s.num .anchorL1, s.refs .anchorL0, s.refs .anchorL1,
    s.num .nonAnchorL0, s.num .nonAnchorL1, s.refs .nonAnchorL0, s.refs .nonAnchorL1]

/-! ## Freeing the tables -/

/-- Free the references of the view `i`. -/
def recycleRow (s : SubSps) (i : ℕ) (m : Memory Block) (k : RefKind) : Option (Memory Block) := do
  let num ← readInt m (s.num k) i
  if num > 0 then do
    let row ← readRow m (s.refs k) i
    let m ← m.free row
    writeRow m (s.refs k) i none
  else some m

def refKinds : List RefKind := [.anchorL0, .anchorL1, .nonAnchorL0, .nonAnchorL1]

/-- The loop over the views, from the one numbered `i` on. -/
def recycleRows (s : SubSps) : ℕ → ℕ → Memory Block → Option (Memory Block)
  | 0, _, m => some m
  | n + 1, i, m => do
    let m ← refKinds.foldlM (recycleRow s i) m
    recycleRows s n (i + 1) m

/-- `recycle_subsps` -/
def recycleSubsps (m : Memory Block) (s : SubSps) : Option (Memory Block × SubSps) := do
  let m ← recycleRows s (s.numViews - 1).toNat 1 m
  if s.numViews > 0 then do
    let m ← s.tables.foldlM Memory.free m
    some (m, { s with valid := false, viewId := none, num := fun _ => none, refs := fun _ => none })
  else some (m, { s with valid := false })

/-! ## Reading the extension -/

/-- What the parser changes: the memory, and the subset that it parses. -/
structure Scratch where
  memory : Memory Block
  subsps : SubSps

/-- How the parser stops: at one of its labels, or with a fault. -/
inductive Trap
  | jump (j : Jump)
  | fault
  deriving DecidableEq, Repr

instance : BitreadErr Trap := ⟨.jump .bitreadErr⟩

abbrev SubsetParse := EStateM Trap (Cursor Scratch)

/-- An access to the memory. -/
def access (f : Memory Block → SubSps → Option (Memory Block)) : SubsetParse Unit := fun s =>
  match f s.val.memory s.val.subsps with
  | some memory => .ok () { s with val := { s.val with memory } }
  | none => .error .fault s

/-- Where the tables are among those that are allocated. -/
def numPlace : RefKind → ℕ
  | .anchorL0 => 1
  | .anchorL1 => 2
  | .nonAnchorL0 => 5
  | .nonAnchorL1 => 6

def refsPlace : RefKind → ℕ
  | .anchorL0 => 3
  | .anchorL1 => 4
  | .nonAnchorL0 => 7
  | .nonAnchorL1 => 8

/-- The tables as they are allocated, in their order, for `n` views. -/
def emptyTables (n : ℕ) : List Block :=
  let ints := .ints (List.replicate n 0)
  let rows := .rows (List.replicate n none)
  [ints, ints, ints, rows, rows, ints, ints, rows, rows]

def allocTables (n : ℕ) (v : Scratch) : Scratch where
  memory := v.memory.alloc (emptyTables n)
  subsps := { v.subsps with
    viewId := some v.memory.next
    num := fun k => some (v.memory.next + numPlace k)
    refs := fun k => some (v.memory.next + refsPlace k) }

/-- The id of the view `i`. -/
def readViewId (i : ℕ) : SubsetParse Unit := do
  let v ← ueField
  access fun m s => writeInt m s.viewId i (toS32 v)

/-- The row for the references of the view `i`. -/
def allocRow (k : RefKind) (i : ℕ) (count : ℤ) : SubsetParse Unit := access fun m s =>
  if count < 0 then none
  else writeRow (m.alloc [.ints (List.replicate count.toNat 0)]) (s.refs k) i (some m.next)

/-- The reference `j` of the view `i`. -/
def readRef (k : RefKind) (i j : ℕ) : SubsetParse Unit := do
  let v ← ueField
  access fun m s => (readRow m (s.refs k) i).bind fun row => writeInt m row j (toS32 v)

/-- The references of the view `i`. -/
def readRefs (k : RefKind) (i : ℕ) : SubsetParse Unit := do
  let v ← ueField
  access fun m s => writeInt m (s.num k) i (toS32 v)
  if toS32 v = 0 then pure ()
  else do
    allocRow k i (toS32 v)
    loopFrom (readRef k i) (toS32 v).toNat 0

/-- The tables and what is in them, for `n` views. -/
def readViews (n : ℤ) : SubsetParse Unit := do
  whenever (n > 0) (alter (allocTables n.toNat))
  loopFrom readViewId n.toNat 0
  loopFrom (fun i => do readRefs .anchorL0 i; readRefs .anchorL1 i) (n - 1).toNat 1
  loopFrom (fun i => do readRefs .nonAnchorL0 i; readRefs .nonAnchorL1 i) (n - 1).toNat 1

/-- `sps_mvc_extension`: the number of views is kept before it is checked. -/
def spsMvcExtension : SubsetParse Unit := do
  let v ← ueField
  alter fun s => { s with subsps := { s.subsps with numViewsMinus1 := toS32 v } }
  if toS32 v < 16 then readViews (1 + toS32 v) else throw (.jump (.failed mppErrValue))

/-- The profiles with an extension. -/
def mvcProfiles : List ℕ := [profileMvcHigh, profileStereoHigh]

/-- The program of `parser_subsps_ext` for a set of the profile. -/
def parserSubspsExt (profileIdc : ℕ) : SubsetParse Unit :=
  whenever (profileIdc ∈ mvcProfiles) do
    into flagField fun bitEqualToOne s => { s with subsps := { s.subsps with bitEqualToOne } }
    spsMvcExtension
    into flagField fun mvcVuiParametersPresentFlag s =>
      { s with subsps := { s.subsps with mvcVuiParametersPresentFlag } }

/-! ## Storing a subset -/

/-- The subsets that are stored, the one that is parsed into, and the memory. -/
structure SubsetStore where
  memory : Memory Block := .empty
  subspsSet : ℕ → Option SubSps := fun _ => none
  subsps : SubSps := {}
  profileIdc : ℕ := 0

/-- What is stored under the id is freed, if it is valid. -/
def freeStored (m : Memory Block) (subset : SubSps) : Option (Memory Block) :=
  if subset.valid then (recycleSubsps m subset).map Prod.fst else some m

/-- The end of `process_subsps`. -/
def storeSubsps (st : SubsetStore) (cur : SubSps) : Option SubsetStore := do
  let (_, sps) ← getMaxDecFrameBufSize cur.sps
  let cur := { cur with sps, valid := cur.sps.valid || cur.valid }
  let id := cur.sps.seqParameterSetId
  let memory ← freeStored st.memory ((st.subspsSet id).getD {})
  some {
    memory
    subspsSet := Function.update st.subspsSet id (some cur)
    subsps := cur
    profileIdc := if cur.sps.valid then cur.sps.profileIdc else st.profileIdc }

/-- The way out of `process_subsps` with an error. -/
def failSubsps (st : SubsetStore) (cur : SubSps) (ret : MppRet) :
    Option (MppRet × SubsetStore) := do
  let (memory, subsps) ← recycleSubsps st.memory cur
  some (ret, { st with memory, subsps })

/-- `process_subsps` -/
def processSubsps (reader : BitReadCtx) (st : SubsetStore) : Option (MppRet × SubsetStore) :=
  let parsed := parserSps { val := {}, reader }
  let cur : SubSps := { sps := parsed.2.val, numViewsMinus1 := -1 }
  if parsed.1 < 0 then failSubsps st cur parsed.1
  else
    match parserSubspsExt cur.sps.profileIdc
      { val := ⟨st.memory, cur⟩, reader := parsed.2.reader, bitRet := parsed.2.bitRet } with
    | .ok _ s => (storeSubsps { st with memory := s.val.memory } s.val.subsps).map (mppOk, ·)
    | .error (.jump .bitreadErr) s =>
      failSubsps { st with memory := s.val.memory } s.val.subsps s.bitRet
    | .error (.jump (.failed ret)) s =>
      failSubsps { st with memory := s.val.memory } s.val.subsps ret
    | .error .fault _ => none

/-- The loop of `free_vid_ctx` over the first `n` subsets. -/
def freeSubsets : ℕ → SubsetStore → Option SubsetStore
  | 0, st => some st
  | n + 1, st => do
    let st ← freeSubsets n st
    match st.subspsSet n with
    | none => some st
    | some s => do
      let (memory, _) ← recycleSubsps st.memory s
      some { st with memory, subspsSet := Function.update st.subspsSet n none }

/-- `free_vid_ctx`, as far as the subsets go. -/
def freeVidCtx : SubsetStore → Option SubsetStore := freeSubsets maxSps

/-- The calls of `process_subsps` for a sequence of bit strings. -/
def processAll : List BitReadCtx → SubsetStore → Option SubsetStore
  | [], st => some st
  | nal :: nals, st => do
    let (_, st) ← processSubsps nal st
    processAll nals st

/-! ## What a safe sequence is -/

/-- All tables of the subset are there: an entry for every view in each, and a row for the
    references of every view but the first, when it has some. -/
structure SubSps.Complete (m : Memory Block) (s : SubSps) : Prop where
  viewId : 0 < s.numViews → ∃ l, m.load s.viewId = some (.ints l) ∧ (l.length : ℤ) = s.numViews
  num : 0 < s.numViews → ∀ k,
    ∃ l, m.load (s.num k) = some (.ints l) ∧ (l.length : ℤ) = s.numViews
  refs : 0 < s.numViews → ∀ k,
    ∃ l, m.load (s.refs k) = some (.rows l) ∧ (l.length : ℤ) = s.numViews
  row : ∀ k (i : ℕ), 1 ≤ i → (i : ℤ) < s.numViews → ∃ count row,
    readInt m (s.num k) i = some count ∧ readRow m (s.refs k) i = some row ∧
      (count = 0 ∧ row = none ∨
        ∃ l, m.load row = some (.ints l) ∧ (l.length : ℤ) = count ∧ l ≠ [])

/-- A call stores a complete subset under its id. -/
structure Stores (st st' : SubsetStore) (id : ℕ) : Prop where
  complete : ∃ s, st'.subspsSet id = some s ∧ s.valid = true ∧ s.Complete st'.memory
  others : ∀ j ≠ id, st'.subspsSet j = st.subspsSet j

/-- A call leaves the subsets and the memory as they were. -/
structure Leaves (st st' : SubsetStore) : Prop where
  subspsSet : st'.subspsSet = st.subspsSet
  block : st'.memory.block = st.memory.block

/-- Every subset that is stored is complete. -/
def SubsetStore.AllComplete (st : SubsetStore) : Prop :=
  ∀ id s, st.subspsSet id = some s → s.Complete st.memory

/-- No call comes to a fault; each stores a complete subset, with the others complete, or
    leaves everything as it was; and at the end all tables are freed. -/
structure SafeSequence (nals : List BitReadCtx) : Prop where
  calls : ∀ before nal after, nals = before ++ nal :: after → ∃ st ret st',
    processAll before {} = some st ∧ processSubsps nal st = some (ret, st') ∧
      st'.AllComplete ∧ ((∃ id, Stores st st' id) ∨ Leaves st st')
  freed : ∃ st st', processAll nals {} = some st ∧ freeVidCtx st = some st' ∧
    ∀ a, st'.memory.block a = none

/-! ## The counts in the bits -/

/-- How the reading of the counts stops: the bits end, or a count is not that of a table. -/
inductive Miscount
  | ended
  | miscounted
  deriving DecidableEq, Repr

instance : BitreadErr Miscount := ⟨.ended⟩

abbrev CountParse := EStateM Miscount (Cursor Unit)

/-- A number that is not kept. -/
def skipNumber (_ : ℕ) : CountParse Unit := do
  let _ ← ueField
  pure ()

/-- The number of the references of a view, and the references. -/
def countRefs : CountParse Unit := do
  let v ← ueField
  if toS32 v < 0 then throw .miscounted else loopFrom skipNumber (toS32 v).toNat 0

def countViews (n : ℤ) : CountParse Unit := do
  loopFrom skipNumber n.toNat 0
  loopFrom (fun _ => do countRefs; countRefs) (n - 1).toNat 1
  loopFrom (fun _ => do countRefs; countRefs) (n - 1).toNat 1

/-- The number of views, and what the bits have for each. -/
def countExtension : CountParse Unit := do
  let v ← ueField
  if toS32 v < 16 then countViews (1 + toS32 v) else throw .miscounted

def countSubset (profileIdc : ℕ) : CountParse Unit :=
  whenever (profileIdc ∈ mvcProfiles) do
    into flagField fun _ v => v
    countExtension
    into flagField fun _ v => v

/-- There is a size for the level, and the product of the dimensions, as it wraps, is zero. -/
def Sps.dividesByZero (sps : Sps) : Bool :=
  (sps.levelIdc ∈ [60, 61, 62] || levelSize sps sps.isLevel1b ≠ 0) && wrapS32 sps.picBytes = 0

/-- As far as the bits of a subset go, no count is out of its range: at most `16` views, and
    a number of references that is not negative. If they go to the end, the product of the
    dimensions is not zero. -/
def countsFit (nal : BitReadCtx) : Bool :=
  let parsed := parserSps { val := {}, reader := nal }
  parsed.1 < 0 ||
    match countSubset parsed.2.val.profileIdc { val := (), reader := parsed.2.reader } with
    | .ok _ _ => !parsed.2.val.dividesByZero
    | .error .ended _ => true
    | .error .miscounted _ => false

end Libmpp.H264d
