import Libmpp.Lib.Machine

/-!
# Objects

An object holds the elements of its object definition in memory, and after them a block of
update flags (`kmpp_obj.c`). Setting an element to another value sets its flag, and an update
of one object by another takes over the elements whose flags are set there.

* The memory of an object is a map from addresses to bytes. A flag is one bit of a word at a
  multiple of four bytes; as the words are little-endian, it is one bit of the memory.
* The trie of a definition is the list of its entries: what it finds and what it goes through
  is not the subject here. The infos a definition adds about itself are left out, as the loops
  skip them by their names.
* An element is set by the function of its type, which compares and writes as many bytes as
  the element has (`Typed`). The objects are valid and of one definition.
-/

namespace Libmpp.Kmpp

abbrev Byte := BitVec 8

abbrev Mem := ℕ → Byte

abbrev Name := List Char

/-- `KmppEntry`, as far as the elements go: the flag's offset counts bits. Its fields have 16 bits:
    what a table registers is cut to them (`EntryTable.toTrie`). -/
structure KmppEntry where
  elemOffset : ℕ
  elemSize : ℕ
  flagOffset : ℕ
  deriving DecidableEq, Repr

/-- `KmppObjDefImpl`, with the entries in its trie by name -/
structure KmppObjDefImpl where
  entrySize : ℤ
  flagMaxPos : ℤ
  flagOffset : ℤ
  trie : List (Name × KmppEntry)
  deriving DecidableEq, Repr

/-- `MPP_ALIGN` -/
def mppAlign (x a : ℤ) : ℤ := (x + a - 1) / a * a

/-- `mpp_trie_info_is_self`: the name contains two underscores in a row -/
def mppTrieInfoIsSelf (name : Name) : Bool :=
  name.tails.any fun rest => ['_', '_'].isPrefixOf rest

/-! ## Definitions -/

/-- `kmpp_objdef_register` -/
def kmppObjdefRegister (size : ℤ) : KmppObjDefImpl :=
  { entrySize := size, flagMaxPos := 0, flagOffset := 0, trie := [] }

variable (d : KmppObjDefImpl)

/-- `kmpp_objdef_add_entry`, with a name -/
def kmppObjdefAddEntry (entry : Name × KmppEntry) : KmppObjDefImpl :=
  { d with
    trie := d.trie ++ [entry]
    flagMaxPos :=
      if entry.2.flagOffset > d.flagMaxPos then entry.2.flagOffset else d.flagMaxPos }

/-- `create_objdef_mem_pool`, at the end of the entries -/
def createObjdefMemPool : KmppObjDefImpl :=
  if d.flagMaxPos ≠ 0 then
    { d with flagOffset := d.entrySize, flagMaxPos := mppAlign d.flagMaxPos 8 }
  else d

/-- A definition with all its entries. -/
def objdef (size : ℤ) (entries : List (Name × KmppEntry)) : KmppObjDefImpl :=
  createObjdefMemPool (entries.foldl kmppObjdefAddEntry (kmppObjdefRegister size))

/-- `kmpp_obj_to_flags_size` -/
def kmppObjToFlagsSize : ℤ :=
  if d.flagMaxPos ≠ 0 then mppAlign (mppAlign d.flagMaxPos 8 / 8 - d.flagOffset) 4 else 0

/-! ## Memory -/

/-- `memcpy`, between the same addresses of two objects -/
def memcpy (dst src : Mem) (offset size : ℤ) : Mem :=
  fun k => if offset ≤ k ∧ (k : ℤ) < offset + size then src k else dst k

/-- `memset` to zero -/
def memzero (m : Mem) (offset size : ℤ) : Mem := memcpy m (fun _ => 0) offset size

/-- The bytes at an address. -/
def readAt (m : Mem) (offset size : ℕ) : List Byte :=
  (List.range size).map fun i => m (offset + i)

/-- Write bytes at an address. -/
def writeAt (m : Mem) (offset : ℕ) (val : List Byte) : Mem :=
  fun k => if offset ≤ k ∧ k < offset + val.length then val.getD (k - offset) 0 else m k

/-- `ENTRY_SET_FLAG` -/
def entrySetFlag (e : KmppEntry) (m : Mem) : Mem :=
  Function.update m (e.flagOffset / 8)
    (m (e.flagOffset / 8) ||| BitVec.twoPow 8 (e.flagOffset % 8))

/-- `ENTRY_TEST_FLAG` -/
def entryTestFlag (e : KmppEntry) (m : Mem) : Bool :=
  (m (e.flagOffset / 8)).getLsbD (e.flagOffset % 8)

/-- An element. -/
def elem (e : KmppEntry) (m : Mem) : List Byte := readAt m e.elemOffset e.elemSize

/-! ## Objects -/

/-- `kmpp_obj_impl_set_*` -/
def kmppObjImplSet (e : KmppEntry) (m : Mem) (val : List Byte) : Mem :=
  let old := readAt m e.elemOffset val.length
  let m := writeAt m e.elemOffset val
  if e.flagOffset = 0 then m else if old ≠ val then entrySetFlag e m else m

/-- `kmpp_obj_set_*`, with whether the name is found -/
def kmppObjSet (m : Mem) (name : Name) (val : List Byte) : Bool × Mem :=
  match d.trie.lookup name with
  | some e => (true, kmppObjImplSet e m val)
  | none => (false, m)

/-- `kmpp_obj_test` -/
def kmppObjTest (m : Mem) (name : Name) : Bool :=
  match d.trie.lookup name with
  | some e => entryTestFlag e m
  | none => false

/-- The loops of `kmpp_obj_update` and `kmpp_obj_update_entry`. -/
def updateElems (dst src : Mem) : Mem :=
  d.trie.foldl (fun m x =>
    if mppTrieInfoIsSelf x.1 then m
    else if x.2.flagOffset ≠ 0 ∧ entryTestFlag x.2 src then
      memcpy m src x.2.elemOffset x.2.elemSize
    else m) dst

/-- The two objects. -/
inductive Side
  | a
  | b
  deriving DecidableEq, Repr

/-- `kmpp_obj_update` -/
def kmppObjUpdate (mem : Side → Mem) (dst src : Side) : Side → Mem :=
  let mem := Function.update mem dst (updateElems d (mem dst) (mem src))
  let size := kmppObjToFlagsSize d
  if d.flagOffset ≠ 0 ∧ size ≠ 0 then
    let mem := Function.update mem dst (memcpy (mem dst) (mem src) d.flagOffset size)
    Function.update mem src (memzero (mem src) d.flagOffset size)
  else mem

/-- `kmpp_obj_update_entry`, into the entry of an object -/
def kmppObjUpdateEntry (mem : Side → Mem) (dst src : Side) : Side → Mem :=
  Function.update mem dst (updateElems d (mem dst) (mem src))

/-- `kmpp_obj_copy` -/
def kmppObjCopy (mem : Side → Mem) (dst src : Side) : Side → Mem :=
  let mem := Function.update mem dst (memcpy (mem dst) (mem src) 0 d.entrySize)
  Function.update mem dst (memcpy (mem dst) (mem src) d.flagOffset (kmppObjToFlagsSize d))

/-- `kmpp_obj_copy_entry` -/
def kmppObjCopyEntry (mem : Side → Mem) (dst src : Side) : Side → Mem :=
  let mem := Function.update mem dst (memcpy (mem dst) (mem src) 0 d.entrySize)
  Function.update mem dst (memzero (mem dst) d.flagOffset (kmppObjToFlagsSize d))

/-! ## Runs -/

inductive ObjOp
  | set (obj : Side) (name : Name) (val : List Byte)
  | update (dst src : Side)
  | updateEntry (dst src : Side)
  | copy (dst src : Side)
  | copyEntry (dst src : Side)
  deriving DecidableEq, Repr

def objStep (mem : Side → Mem) : ObjOp → Side → Mem
  | .set obj name val => Function.update mem obj (kmppObjSet d (mem obj) name val).2
  | .update dst src => kmppObjUpdate d mem dst src
  | .updateEntry dst src => kmppObjUpdateEntry d mem dst src
  | .copy dst src => kmppObjCopy d mem dst src
  | .copyEntry dst src => kmppObjCopyEntry d mem dst src

/-- An element is set by the function of its type. -/
def Typed : ObjOp → Prop
  | .set _ name val => ∀ e ∈ d.trie.lookup name, val.length = e.elemSize
  | _ => True

end Libmpp.Kmpp
