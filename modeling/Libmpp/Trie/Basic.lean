import Mathlib
import Libmpp.Lib.Widths

/-!
# The trie of names

The spatially optimised trie of `mpp_trie.c`. A name is spelled in nibbles of four bits, and
each node has sixteen links. The trie takes two forms:

* While entries are added (`mppTrieAddInfo`) every node spells one nibble. The entries stand
  in a buffer one after the other, each with a header, its name and its context, and a node
  has the offset of its entry.
* It is sealed by `mpp_trie_last_info`: a node with a single link is merged with the next one,
  which leaves the nibbles between them as a *tag*, the nodes are moved together, and nodes
  and entries are copied to one buffer, in which the nodes have the offsets of their
  entries. The lookup (`mppTrieGetInfo`) follows links and compares tags.

A link is the index of a node, and 0 stands for no link. The result is `none` where the source
reads or writes outside of what it has allocated, or through a null pointer. Allocations
succeed. Indices that do not fit the 16 bits of a link are left out, and sizes that do not fit 31
bits.
-/

namespace Libmpp.Trie

/-- Four bits of a name. -/
abbrev Nibble := Fin 16

/-- `MPP_TRIE_INFO_MAX` and `MPP_TRIE_NAME_MAX` -/
abbrev trieMax : ℕ := 2 ^ 12

/-- `MPP_TRIE_TAG_LEN_MAX`, the nibbles of 64 bits. -/
abbrev tagLenMax : ℕ := 16

/-- The largest index of a node. -/
abbrev nodeMax : ℕ := 32767

/-- `sizeof(MppTrieNode)` and `sizeof(MppTrieInfo)` -/
abbrev nodeSize : ℕ := 56

abbrev headerSize : ℕ := 4

/-- `MPP_ALIGN` -/
def align (a n : ℕ) : ℕ := (n + a - 1) / a * a

/-- A C string, without the NUL at its end. -/
abbrev CName := { l : List UInt8 // 0 ∉ l }

def hiNibble (b : UInt8) : Nibble := Fin.ofNat 16 (b.toNat / 16)

def loNibble (b : UInt8) : Nibble := Fin.ofNat 16 b.toNat

/-! ## Nodes -/

structure MppTrieNode where
  next : Nibble → ℕ := fun _ => 0
  /-- The offset of the entry, or -1. -/
  id : ℤ := 0
  idx : ℕ := 0
  prev : ℕ := 0
  tagVal : ℕ := 0
  /-- The nibble of the link to the node. -/
  key : Nibble := 0
  tagLen : ℕ := 0
  nextCnt : ℕ := 0
deriving DecidableEq

/-- The nodes in use. -/
abbrev Nodes := List MppTrieNode

/-- The node with an index. -/
def Nodes.node (nodes : Nodes) (i : ℕ) : MppTrieNode := nodes.getD i {}

structure MppTrieImpl where
  /-- The bytes of the name, with the NUL. -/
  name : List UInt8
  nodes : Nodes
  /-- The bytes of the entries. -/
  infoBuf : List UInt8
  infoCount : ℕ
  infoBufSize : ℕ
  infoNameMax : ℕ

/-- `node_used` -/
def MppTrieImpl.nodeUsed (p : MppTrieImpl) : ℕ := p.nodes.length

/-- `info_buf_pos` -/
def MppTrieImpl.infoBufPos (p : MppTrieImpl) : ℕ := p.infoBuf.length

/-! ## Adding entries -/

/-- `trie_get_node`: a new node, linked from `prev` by `key`. -/
def trieGetNode (p : MppTrieImpl) (prev : ℕ) (key : Nibble) : Option (MppTrieImpl × ℕ) :=
  let idx := p.nodeUsed
  if nodeMax < idx then none else
  let nodes : Nodes := p.nodes.modify prev fun node => { node with nextCnt := node.nextCnt + 1 }
  some ({ p with nodes := nodes ++ [{ idx, prev, key, id := -1 }] }, idx)

/-- The node behind the link `key` of the node `idx`, which is made if there is none. -/
def paveKey (p : MppTrieImpl) (idx : ℕ) (key : Nibble) : Option (MppTrieImpl × ℕ) :=
  let next := (p.nodes.node idx).next key
  if next = 0 then do
    let (p, next) ← trieGetNode p idx key
    some ({ p with nodes := p.nodes.modify idx fun node =>
      { node with next := Function.update node.next key next } }, next)
  else some (p, next)

/-- `trie_pave_node`, from the node `idx` on. -/
def trieGetPath (p : MppTrieImpl) (idx : ℕ) : List UInt8 → Option (MppTrieImpl × ℕ)
  | [] => some (p, idx)
  | b :: name => do
    let (p, idx) ← paveKey p idx (hiNibble b)
    let (p, idx) ← paveKey p idx (loNibble b)
    trieGetPath p idx name

def triePaveNode (p : MppTrieImpl) (name : CName) : Option (MppTrieImpl × ℕ) :=
  trieGetPath p 0 name.val

/-- `trie_prepare_buf`: whether there is room for another entry, in a buffer that is
    enlarged once. -/
def triePrepareBuf (p : MppTrieImpl) (infoSize : ℕ) : Option MppTrieImpl :=
  if trieMax ≤ p.infoCount then none
  else if p.infoBufSize < p.infoBufPos + infoSize then
    some { p with infoBufSize := p.infoBufSize * 2 }
  else some p

/-- Zeros behind bytes, up to a length. -/
def pad (n : ℕ) (l : List UInt8) : List UInt8 := l ++ List.replicate (n - l.length) 0

/-- A word of 32 bits in memory. -/
def le32 (n : ℕ) : List UInt8 :=
  [UInt8.ofNat n, UInt8.ofNat (n / 2 ^ 8), UInt8.ofNat (n / 2 ^ 16), UInt8.ofNat (n / 2 ^ 24)]

/-- The header of an entry: its bit fields have 12, 12 and 8 bits. -/
def infoHeader (index ctxLen strLen : ℕ) : List UInt8 :=
  le32 (index % 2 ^ 12 + ctxLen % 2 ^ 12 * 2 ^ 12 + strLen % 2 ^ 8 * 2 ^ 24)

/-- `str_len` of a name, with its NUL. -/
def strLen (name : CName) : ℕ := align 4 (min name.val.length trieMax + 1)

/-- `ctx_len` of a context. -/
def ctxLen (ctx : List UInt8) : ℕ := align 4 ctx.length

/-- The bytes of an entry. -/
def infoBytes (index : ℕ) (name : CName) (ctx : List UInt8) : List UInt8 :=
  infoHeader index (ctxLen ctx) (strLen name) ++ pad (strLen name) name.val ++ pad (ctxLen ctx) ctx

/-- The bytes an entry takes. -/
def infoSize (name : CName) (ctx : List UInt8) : ℕ := headerSize + strLen name + ctxLen ctx

/-- `mpp_trie_add_info` with a name, and whether it succeeds. -/
def mppTrieAddInfo (p : MppTrieImpl) (name : CName) (ctx : List UInt8) :
    Option (MppTrieImpl × Bool) :=
  if trieMax ≤ strLen name then some (p, false) else
  match triePrepareBuf p (infoSize name ctx) with
  | none => some (p, false)
  | some p => do
    let (p, idx) ← triePaveNode p name
    if (p.nodes.node idx).id ≠ -1 then some (p, false)
    -- The entry is written behind the others, whether it fits or not.
    else if p.infoBufSize < p.infoBufPos + infoSize name ctx then none
    else some ({ p with
      nodes := p.nodes.modify idx fun node => { node with id := p.infoBufPos }
      infoNameMax := max p.infoNameMax name.val.length
      infoBuf := p.infoBuf ++ infoBytes p.infoCount name ctx
      infoCount := p.infoCount + 1 }, true)

/-- `mpp_trie_init` -/
def mppTrieInit (name : CName) : MppTrieImpl where
  name := pad (min name.val.length trieMax + 1) (name.val.take (min name.val.length trieMax + 1))
  nodes := [{ id := -1 }]
  infoBuf := []
  infoCount := 0
  infoBufSize := 4096
  infoNameMax := 0

/-! ## The lookup -/

/-- What a walk has read of a tag, and the node whose tag it has matched. -/
structure MppTrieWalk where
  tag : ℕ := 0
  len : ℕ := 0
  matched : Option ℕ := none
deriving DecidableEq

/-- `mpp_trie_walk`: the node that a nibble leads to. A tag is compared when it is complete,
    or at the end of the name. -/
def mppTrieWalk (nodes : Nodes) (p : MppTrieWalk) (idx : ℕ) (keyx : Nibble) (last : Bool) :
    MppTrieWalk × Option ℕ :=
  let node := nodes.node idx
  if node.tagLen = 0 ∨ p.matched = some node.idx then ({}, some (node.next keyx))
  else
    let valNew := (p.tag * 16 + keyx.val) % 2 ^ 64
    let lenNew := p.len + 1
    if lenNew < node.tagLen ∧ !last then ({ tag := valNew, len := lenNew }, some node.idx)
    else if node.tagVal ≠ valNew then ({}, none)
    else ({ matched := some node.idx }, some node.idx)

/-- The loop of `mpp_trie_get_node`, for the bytes of a name and what follows it. -/
def trieWalkName (nodes : Nodes) (p : MppTrieWalk) (idx : ℕ) : List UInt8 → Option ℕ
  | b :: c :: s => do
    let (p, next) := mppTrieWalk nodes p idx (hiNibble b) false
    let (p, next) := mppTrieWalk nodes p (← next) (loNibble b) (c = 0)
    if c = 0 then next else trieWalkName nodes p (← next) (c :: s)
  | _ => none

/-- `mpp_trie_get_node` -/
def mppTrieGetNode (nodes : Nodes) (s : List UInt8) : Option ℕ :=
  trieWalkName nodes { matched := some 0 } 0 s

/-! ## Sealing -/

/-- The nodes behind the links `next` are linked from `i`. -/
def relink (next : Nibble → ℕ) (i : ℕ) (nodes : Nodes) : Nodes :=
  (List.finRange 16).foldl (fun nodes k =>
    if next k = 0 then nodes
    else nodes.modify (next k) fun child => { child with prev := i }) nodes

/-- Merge the node `i` into the one before it, unless that one has other links or an
    entry, or the tag is full. The count is that of the nodes left. -/
def shrinkNode (i : ℕ) (s : Nodes × ℕ) : Nodes × ℕ :=
  let node := s.1.node i
  let prev := s.1.node node.prev
  if 1 < prev.nextCnt ∨ tagLenMax ≤ node.tagLen ∨ 0 ≤ prev.id then s else
  let nodes := s.1.modify node.prev fun prev =>
    { prev with
      id := node.id
      tagLen := node.tagLen + 1
      tagVal := node.key.val * 16 ^ node.tagLen + node.tagVal
      nextCnt := node.nextCnt
      next := node.next }
  ((relink node.next node.prev nodes).set i { id := -1 }, s.2 - 1)

/-- The nodes from `i` down to 1. -/
def shrinkLoop : ℕ → Nodes × ℕ → Nodes × ℕ
  | 0, s => s
  | i + 1, s => shrinkLoop i (shrinkNode (i + 1) s)

/-- Move the node `j` to the index `i`. -/
def moveNode (i j : ℕ) (nodes : Nodes) : Nodes :=
  let node := nodes.node j
  let nodes : Nodes :=
    match (List.finRange 16).find? fun k => (nodes.node node.prev).next k = node.idx with
    | some k => nodes.modify node.prev fun prev =>
        { prev with next := Function.update prev.next k i }
    | none => nodes
  let node := nodes.node j
  relink node.next i ((nodes.set i { node with idx := i }).set j {})

/-- Fill the index `i` with the next node. -/
def fillHole (nodes : Nodes) (i : ℕ) : Nodes :=
  if (nodes.node i).idx ≠ 0 then nodes else
  match (List.range' i (nodes.length - i)).find? fun j => (nodes.node j).idx ≠ 0 with
  | some j => moveNode i j nodes
  | none => nodes

/-- The nodes are moved together to the first `nodeValid` indices. -/
def moveLoop (nodeValid : ℕ) (nodes : Nodes) : Nodes :=
  (List.range' 1 (nodeValid - 1)).foldl fillHole nodes

/-- A sealed trie: its nodes, and the bytes behind them. -/
structure TrieRoot where
  nodes : Nodes
  infos : List UInt8

/-- The bytes of the nodes. -/
def TrieRoot.nodesSize (r : TrieRoot) : ℕ := r.nodes.length * nodeSize

/-- The bytes from an offset on. Those of the nodes are not modelled. -/
def TrieRoot.from (r : TrieRoot) (off : ℕ) : List UInt8 :=
  if r.nodesSize ≤ off then r.infos.drop (off - r.nodesSize) else []

/-- A word of 32 bits at the start of bytes. -/
def readLe32 : List UInt8 → Option ℕ
  | a :: b :: c :: d :: _ =>
    some (a.toNat + b.toNat * 2 ^ 8 + c.toNat * 2 ^ 16 + d.toNat * 2 ^ 24)
  | _ => none

/-- `MppTrieInfo` -/
structure MppTrieInfo where
  index : ℕ
  ctxLen : ℕ
  strLen : ℕ
deriving DecidableEq

/-- The header of an entry. -/
def readInfo (l : List UInt8) : Option MppTrieInfo :=
  (readLe32 l).map fun w =>
    { index := w % 2 ^ 12, ctxLen := w / 2 ^ 12 % 2 ^ 12, strLen := w / 2 ^ 24 }

/-- The bytes an entry takes, by its header. -/
def MppTrieInfo.size (info : MppTrieInfo) : ℕ := headerSize + info.strLen + info.ctxLen

/-- Copy `n` entries behind the nodes: `src` are those left to copy, and `dst` is what was
    copied. -/
def copyInfos (nodesSize : ℕ) : ℕ → Nodes → List UInt8 → List UInt8 → Option (Nodes × List UInt8)
  | 0, nodes, _, dst => some (nodes, dst)
  | n + 1, nodes, src, dst => do
    let info ← readInfo src
    if src.length < info.size then none else
    let idx ← mppTrieGetNode nodes (src.drop headerSize)
    let nodes : Nodes := nodes.modify idx fun node =>
      { node with id := (nodesSize + dst.length : ℕ) }
    copyInfos nodesSize n nodes (src.drop info.size) (dst ++ src.take info.size)

/-- `mpp_trie_get_info` and `mpp_trie_get_info_from_root`: the offset of the entry. -/
def mppTrieGetInfo (r : TrieRoot) (name : CName) : Option ℕ :=
  (mppTrieGetNode r.nodes (name.val ++ [0])).bind fun idx =>
    if (r.nodes.node idx).id < 0 then none else some (r.nodes.node idx).id.toNat

/-- `mpp_trie_info_ctx`: the offset of the context of an entry. -/
def mppTrieInfoCtx (r : TrieRoot) (off : ℕ) : Option ℕ :=
  (readInfo (r.from off)).map fun info => off + headerSize + info.strLen

def nameName : CName := ⟨[95, 95, 110, 97, 109, 101, 95, 95], by decide⟩

def infoName : CName := ⟨[95, 95, 105, 110, 102, 111, 95, 95], by decide⟩

def nodeName : CName := ⟨[95, 95, 110, 111, 100, 101, 95, 95], by decide⟩

/-- Write the final node count to the entry `__node__`. -/
def patchNode (r : TrieRoot) : Option TrieRoot :=
  match mppTrieGetInfo r nodeName with
  | none => some r
  | some off => do
    let ctx ← mppTrieInfoCtx r off
    let pos := ctx - r.nodesSize
    if r.infos.length < pos + 4 then none else
    some { r with infos := r.infos.take pos ++ le32 r.nodes.length ++ r.infos.drop (pos + 4) }

/-- The entries of the trie itself. That they are added is not checked. -/
def addSelf (p : MppTrieImpl) : Option MppTrieImpl := do
  let pos := p.infoCount + 3
  let (p, _) ← mppTrieAddInfo p nameName p.name
  let (p, _) ← mppTrieAddInfo p infoName (le32 pos)
  let (p, _) ← mppTrieAddInfo p nodeName (le32 p.nodeUsed)
  some p

/-- The nodes merged and moved together. -/
def shrink (nodes : Nodes) : Nodes :=
  let (nodes, nodeValid) := shrinkLoop (nodes.length - 1) (nodes, nodes.length)
  (moveLoop nodeValid nodes).take nodeValid

/-- The nodes and the entries behind them, in a buffer of their size. -/
def copyRoot (p : MppTrieImpl) : Option TrieRoot := do
  let nodes := shrink p.nodes
  let nodesSize := nodes.length * nodeSize
  let (nodes, infos) ← copyInfos nodesSize p.infoCount nodes p.infoBuf []
  let bufSize := align 8 (nodesSize + p.infoBufPos)
  some { nodes, infos := pad (bufSize - nodesSize) infos }

end Libmpp.Trie
