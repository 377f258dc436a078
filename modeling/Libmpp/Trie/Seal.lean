import Libmpp.Trie.Entries

/-!
# Sealing

The entries of the trie itself are added (`addSelf_spec`), the nodes are merged and moved, and
the entries are copied behind them: each is looked up, and its node gets its new offset
(`copyInfos_spec`). When the root has two links, no lookup fails, and `Sealed r l` holds of
the result: the entries `l` stand in the buffer, and each is found by its name.
-/

namespace Libmpp.Trie

open List Option

/-! ## Copying -/

/-- The lookup of a stored name does not leave its bytes: it is not empty, or no node is
    behind the first link of the root, which is then taken for the root. -/
def Findable (nodes : Nodes) (name : CName) : Prop :=
  name.val ≠ [] ∨ NullRoot nodes

variable {nodes : Nodes} {name : CName}

theorem Reid.findable {nodes' : Nodes} (h : Reid nodes nodes') (hf : Findable nodes name) :
    Findable nodes' name := by
  obtain ⟨id, hid⟩ := h.same 0
  rw [Findable, NullRoot, hid]
  exact hf

/-- The node of a stored name is found, whatever follows the name. -/
theorem getNode_stored (hl : Linked nodes) (hle : ∀ j, (nodes.node j).tagLen ≤ tagLenMax)
    (hf : Findable nodes name) (hshort : strLen name < trieMax) {j : ℕ}
    (hs : nodes.tree.Spells (nibbles name.val) j) (rest : List UInt8) :
    mppTrieGetNode nodes (pad (strLen name) name.val ++ rest) = some j := by
  have hlt := name_lt_strLen hshort
  obtain ⟨n, hn⟩ : ∃ n, strLen name - name.val.length = n + 1 :=
    ⟨strLen name - name.val.length - 1, by omega⟩
  by_cases hne : name.val = []
  · obtain ⟨hnext, htag⟩ := hf.resolve_left (not_not.2 hne)
    rw [hne, nibbles_nil] at hs
    have hstr : strLen name = 4 := by
      rw [strLen, hne]
      rfl
    have hbytes : pad (strLen name) name.val = [0, 0, 0, 0] := by
      rw [hstr, hne]
      rfl
    have hidx : (nodes.node 0).idx = 0 := hl.live_zero
    have hstart : Ready nodes { matched := some 0 } 0 := .inr (congrArg some hidx.symm)
    have hready : Ready nodes {} 0 := .inl htag
    rw [hs.eq_root rfl, hbytes, mppTrieGetNode, cons_append, cons_append, trieWalkName]
    rw [walk_ready hstart, show hiNibble 0 = 0 from rfl, hnext]
    dsimp only [bind_eq_bind, bind_some]
    rw [walk_ready hready, show loNibble 0 = 0 from rfl, hnext]
    rfl
  · rw [pad, hn, replicate_succ, append_assoc, cons_append]
    exact getNode_spells hl hle hne hs _

/-- What copying entries needs: each has a node, and lengths that are in its header. -/
structure Copyable (nodes : Nodes) (l : List Entry) : Prop where
  linked : Linked nodes
  pos : 0 < nodes.length
  tagLen_le : ∀ j, (nodes.node j).tagLen ≤ tagLenMax
  spelled : ∀ e ∈ l, ∃ j, nodes.tree.Spells (nibbles e.1.val) j
  findable : ∀ e ∈ l, Findable nodes e.1
  representable : ∀ e ∈ l, e.Representable
  nodup : (l.map Prod.fst).Nodup

variable {l : List Entry}

theorem Copyable.reid {nodes' : Nodes} (h : Copyable nodes l) (hr : Reid nodes nodes') :
    Copyable nodes' l where
  linked := hr.linked h.linked
  pos := hr.length ▸ h.pos
  tagLen_le := hr.tagLen_le h.tagLen_le
  spelled := hr.tree ▸ h.spelled
  findable e he := hr.findable (h.findable e he)
  representable := h.representable
  nodup := h.nodup

/-- Names that spell one node are the same. -/
theorem Linked.name_inj (hl : Linked nodes) {n n' : CName} {j : ℕ}
    (h : nodes.tree.Spells (nibbles n.val) j) (h' : nodes.tree.Spells (nibbles n'.val) j) :
    n = n' :=
  Subtype.ext (nibbles_injective (h.inj hl.wired h'))

/-- All entries are copied, and nodes get the offsets of the copies. -/
theorem copyInfos_spec (ns i : ℕ) (dst : List UInt8) (h : Copyable nodes l)
    (hi : i + l.length ≤ 2 ^ 12) :
    ∃ nodes', copyInfos ns l.length nodes (entryBytes i l) dst =
        some (nodes', dst ++ entryBytes i l) ∧ Reid nodes nodes' ∧
      (∀ l₁ e l₂, l = l₁ ++ e :: l₂ → ∀ j, nodes.tree.Spells (nibbles e.1.val) j →
        (nodes'.node j).id = (ns + dst.length + sizes l₁ : ℕ)) ∧
      ∀ j, (∀ e ∈ l, ¬nodes.tree.Spells (nibbles e.1.val) j) →
        (nodes'.node j).id = (nodes.node j).id := by
  induction l generalizing i nodes dst with
  | nil =>
    refine ⟨nodes, ?_, Reid.refl nodes, fun l₁ e l₂ hsplit => ?_, fun _ _ => rfl⟩
    · rw [entryBytes, append_nil]
      rfl
    · exact absurd hsplit (by simp)
  | cons e l ih =>
    obtain ⟨j, hj⟩ := h.spelled e mem_cons_self
    have hrep := h.representable e mem_cons_self
    have hshort : strLen e.1 < trieMax := hrep.1.trans (by norm_num)
    have hlen := length_infoBytes i hshort
    rw [length_cons] at hi
    -- the entry in front
    have hread := readInfo_entry (by omega : i < 2 ^ 12) hrep (entryBytes (i + 1) l)
    have hsize : MppTrieInfo.size { index := i, ctxLen := ctxLen e.2, strLen := strLen e.1 } =
        (infoBytes i e.1 e.2).length := by
      rw [hlen, Entry.size, infoSize, MppTrieInfo.size]
    have hname : ∃ rest, (infoBytes i e.1 e.2 ++ entryBytes (i + 1) l).drop headerSize =
        pad (strLen e.1) e.1.val ++ rest :=
      ⟨_, by rw [infoBytes, append_assoc, append_assoc]; rfl⟩
    obtain ⟨rest, hrest⟩ := hname
    have hget := getNode_stored h.linked h.tagLen_le (h.findable e mem_cons_self) hshort hj rest
    -- and those behind
    have hreid := reid_setId nodes j (ns + dst.length : ℕ)
    have hcopy : Copyable nodes l :=
      ⟨h.linked, h.pos, h.tagLen_le, fun x hx => h.spelled x (mem_cons_of_mem _ hx),
        fun x hx => h.findable x (mem_cons_of_mem _ hx),
        fun x hx => h.representable x (mem_cons_of_mem _ hx), (nodup_cons.1 h.nodup).2⟩
    obtain ⟨nodes', heq, hr, hids, hkeep⟩ := ih (i + 1) (dst ++ infoBytes i e.1 e.2)
      (hcopy.reid hreid) (by omega)
    rw [hreid.tree] at hids hkeep
    have hother : ∀ x ∈ l, ¬nodes.tree.Spells (nibbles x.1.val) j := fun x hx hs => by
      have hnm := h.linked.name_inj hj hs
      exact (nodup_cons.1 h.nodup).1 (hnm ▸ mem_map_of_mem hx)
    have hjlt := (h.linked.live_of_spells hj).lt_of_pos h.pos
    refine ⟨nodes', ?_, hreid.trans hr, fun l₁ x l₂ hsplit j' hj' => ?_, fun j' hj' => ?_⟩
    · rw [length_cons, entryBytes, copyInfos, hread, bind_eq_bind, bind_some,
        hsize, if_neg (by simp), hrest, hget, drop_left, take_left, ← append_assoc]
      exact heq
    · cases l₁ with
      | nil =>
        obtain ⟨rfl, -⟩ := List.cons.inj hsplit
        obtain rfl := spells_unique h.linked h.tagLen_le hj hj'
        rw [hkeep j hother, node_setId, if_pos ⟨rfl, hjlt⟩]
        rfl
      | cons y l₁ =>
        obtain ⟨rfl, rfl⟩ := List.cons.inj hsplit
        rw [hids l₁ x l₂ rfl j' hj', length_append, hlen, sizes_cons, Nat.add_assoc,
          Nat.add_assoc, Nat.add_assoc]
    · have hne : j ≠ j' := by
        rintro rfl
        exact hj' e mem_cons_self hj
      rw [hkeep j' fun x hx => hj' x (mem_cons_of_mem _ hx), node_setId,
        if_neg fun hc => hne hc.1]

/-- A sealed trie has the entries `l`. -/
structure Sealed (r : TrieRoot) (l : List Entry) : Prop where
  linked : Linked r.nodes
  pos : 0 < r.nodes.length
  rootTag : (r.nodes.node 0).tagLen = 0
  tagLen_le : ∀ j, (r.nodes.node j).tagLen ≤ tagLenMax
  stored : Stored r.nodes (keys r.nodesSize l)
  infos : ∃ n, r.infos = entryBytes 0 l ++ List.replicate n 0
  findable : ∀ e ∈ l, Findable r.nodes e.1
  representable : ∀ e ∈ l, e.Representable
  count_le : l.length ≤ trieMax
  nodup : (l.map Prod.fst).Nodup

/-- The condition for sealing: no node is merged into the root, and all lengths fit their
    headers. -/
structure Sealable (p : MppTrieImpl) (l : List Entry) : Prop where
  root : (p.nodes.node 0).Kept
  findable : ∀ e ∈ l, Findable p.nodes e.1
  representable : ∀ e ∈ l, e.Representable

variable {p : MppTrieImpl}

theorem copyRoot_spec (h : Filled p l) (hs : Sealable p l) :
    ∃ r, copyRoot p = some r ∧ Sealed r l := by
  obtain ⟨hshrunk, hnull⟩ := shrink_spec h.plain hs.root h.stored
  have hspelled : ∀ e ∈ l, ∃ j, (Nodes.tree (shrink p.nodes)).Spells (nibbles e.1.val) j := by
    intro e he
    obtain ⟨l₁, l₂, rfl⟩ := append_of_mem he
    obtain ⟨j, hj, -⟩ := hshrunk.stored.found _ (mem_keys.2 ⟨l₁, e, l₂, rfl, rfl⟩)
    exact ⟨j, hj⟩
  have hcopy : Copyable (shrink p.nodes) l :=
    ⟨hshrunk.linked, hshrunk.pos, hshrunk.tagLen_le, hspelled,
      fun e he => (hs.findable e he).imp id hnull, hs.representable, h.nodup⟩
  obtain ⟨nodes, heq, hr, hids, hkeep⟩ := copyInfos_spec
    ((shrink p.nodes).length * nodeSize) 0 [] hcopy ((Nat.zero_add _).trans_le h.count_le)
  rw [← h.infoBuf, ← h.infoCount, nil_append] at heq
  have hsize : nodes.length * nodeSize = (shrink p.nodes).length * nodeSize := by rw [hr.length]
  rw [copyRoot, heq]
  refine ⟨_, rfl, hr.linked hshrunk.linked, hr.length.symm ▸ hshrunk.pos,
    hr.rootTag.trans hshrunk.rootTag, hr.tagLen_le hshrunk.tagLen_le, ⟨fun x hx => ?_, fun j hj hid => ?_⟩,
    ⟨align 8 ((shrink p.nodes).length * nodeSize + p.infoBufPos) -
      (shrink p.nodes).length * nodeSize - p.infoBuf.length, ?_⟩,
    fun e he => hr.findable (hcopy.findable e he), hs.representable, h.count_le, h.nodup⟩
  · obtain ⟨l₁, e, l₂, hsplit, rfl⟩ := mem_keys.1 hx
    obtain ⟨j, hj⟩ := hspelled e (by rw [hsplit]; simp)
    refine ⟨j, hr.tree.symm ▸ hj, ?_⟩
    rw [hids l₁ e l₂ hsplit j hj, ← hsize]
    rfl
  · have hsome : ∃ e ∈ l, (Nodes.tree (shrink p.nodes)).Spells (nibbles e.1.val) j := by
      by_contra hnone
      push Not at hnone
      rw [hkeep j hnone] at hid
      obtain ⟨x, hx, hxj⟩ := hshrunk.stored.only j ((hr.live j).1 hj) hid
      obtain ⟨l₁, e, l₂, rfl, rfl⟩ := mem_keys.1 hx
      exact hnone e (by simp) hxj
    obtain ⟨e, he, hej⟩ := hsome
    obtain ⟨l₁, l₂, hsplit⟩ := append_of_mem he
    exact ⟨_, mem_keys.2 ⟨l₁, e, l₂, hsplit, rfl⟩, hr.tree.symm ▸ hej⟩
  · rw [← h.infoBuf]
    rfl

variable {r : TrieRoot} {l₁ l₂ : List Entry}

/-- A sealed entry is found by its name. -/
theorem Sealed.getInfo {e : Entry} (h : Sealed r (l₁ ++ e :: l₂)) (hne : e.1.val ≠ []) :
    mppTrieGetInfo r e.1 = some (r.nodesSize + sizes l₁) := by
  obtain ⟨j, hj, hid⟩ := h.stored.found _ (mem_keys.2 ⟨l₁, e, l₂, rfl, rfl⟩)
  have hget := getNode_spells h.linked h.tagLen_le hne hj []
  rw [mppTrieGetInfo, hget, bind_some, hid, if_neg (by omega), Int.toNat_natCast]

theorem Sealed.short (h : Sealed r l) :
    ∀ e ∈ l, strLen e.1 < trieMax := fun e he => (h.representable e he).1.trans (by norm_num)

/-- What stands at the offset of an entry. -/
theorem Sealed.from_entry (h : Sealed r (l₁ ++ l₂)) :
    ∃ n, r.from (r.nodesSize + sizes l₁) = entryBytes l₁.length l₂ ++ List.replicate n 0 := by
  obtain ⟨n, hn⟩ := h.infos
  have hlen := length_entryBytes 0 fun e he => h.short e (mem_append_left l₂ he)
  refine ⟨n, ?_⟩
  rw [TrieRoot.from, if_pos (Nat.le_add_right _ _), Nat.add_sub_cancel_left, hn, entryBytes_append,
    ← hlen, append_assoc, drop_left, Nat.zero_add]

/-! ## The entry of the node count -/

theorem infoBytes_nodeName (i : ℕ) {ctx : List UInt8} (hctx : ctx.length = 4) :
    infoBytes i nodeName ctx = infoHeader i 4 12 ++ pad 12 nodeName.val ++ ctx := by
  have hlen : ctxLen ctx = 4 := by
    rw [ctxLen, hctx]
    rfl
  have hpad : pad 4 ctx = ctx := by
    rw [pad, hctx, Nat.sub_self, replicate_zero, append_nil]
  have hstr : strLen nodeName = 12 := by decide
  rw [infoBytes, hlen, hstr, hpad]

/-- The node count is written to its entry, and nothing else changes. -/
theorem patchNode_spec {ctx : List UInt8} (h : Sealed r (l₁ ++ (nodeName, ctx) :: l₂))
    (hctx : ctx.length = 4) :
    ∃ r', patchNode r = some r' ∧ r'.nodes = r.nodes ∧
      Sealed r' (l₁ ++ (nodeName, le32 r.nodes.length) :: l₂) := by
  obtain ⟨n, hn⟩ := h.infos
  obtain ⟨m, hm⟩ := h.from_entry
  have hlen := length_entryBytes 0 fun e he =>
    h.short e (mem_append_left ((nodeName, ctx) :: l₂) he)
  have hi : l₁.length < 2 ^ 12 := by
    have := h.count_le
    rw [length_append, length_cons] at this
    have hmax : trieMax = 2 ^ 12 := rfl
    omega
  have hrep := h.representable (nodeName, ctx) (by simp)
  have hne : nodeName.val ≠ [] := by decide
  have hstr : strLen nodeName = 12 := by decide
  -- the place of the context
  have hctx' : mppTrieInfoCtx r (r.nodesSize + sizes l₁) =
      some (r.nodesSize + sizes l₁ + headerSize + 12) := by
    rw [mppTrieInfoCtx, hm, entryBytes, append_assoc, readInfo_entry hi hrep, map_some]
    dsimp only
    rw [hstr]
  have hpos : r.nodesSize + sizes l₁ + headerSize + 12 - r.nodesSize = sizes l₁ + 16 := by
    have h4 : headerSize = 4 := rfl
    omega
  set A := entryBytes 0 l₁ ++ (infoHeader l₁.length 4 12 ++ pad 12 nodeName.val)
  set B := entryBytes (l₁.length + 1) l₂ ++ List.replicate n 0
  have hA : A.length = sizes l₁ + 16 := by
    rw [length_append, hlen]
    rfl
  have hinfos : r.infos = A ++ ctx ++ B := by
    rw [hn, entryBytes_append, Nat.zero_add, entryBytes, infoBytes_nodeName _ hctx]
    simp only [A, B, append_assoc]
  have htake : r.infos.take (sizes l₁ + 16) = A := by
    rw [hinfos, append_assoc, ← hA, take_left]
  have hdrop : r.infos.drop (sizes l₁ + 16 + 4) = B := by
    rw [hinfos, ← hA, ← hctx, ← length_append, drop_left]
  have hroom : ¬r.infos.length < sizes l₁ + 16 + 4 := by
    rw [hinfos, length_append, length_append, hA, hctx]
    omega
  have hsize : Entry.size (nodeName, le32 r.nodes.length) = Entry.size (nodeName, ctx) := by
    rw [Entry.size, Entry.size, infoSize, infoSize, ctxLen, ctxLen, hctx, length_le32]
  have hkeys : keys r.nodesSize (l₁ ++ (nodeName, le32 r.nodes.length) :: l₂) =
      keys r.nodesSize (l₁ ++ (nodeName, ctx) :: l₂) := by
    rw [keys_append, keys_append, keys, keys, hsize]
  have hmem : ∀ e ∈ l₁ ++ (nodeName, le32 r.nodes.length) :: l₂,
      e = (nodeName, le32 r.nodes.length) ∨ e ∈ l₁ ++ (nodeName, ctx) :: l₂ := by
    intro e he
    rw [mem_append, mem_cons] at he ⊢
    tauto
  refine ⟨{ r with infos := A ++ le32 r.nodes.length ++ B }, ?_, rfl, h.linked, h.pos, h.rootTag,
    h.tagLen_le, hkeys.symm ▸ h.stored, ⟨n, ?_⟩, fun e he => ?_, fun e he => ?_, ?_, ?_⟩
  · rw [patchNode, h.getInfo hne]
    dsimp only
    rw [hctx', bind_eq_bind, bind_some, hpos, if_neg hroom, htake, hdrop]
  · rw [entryBytes_append, Nat.zero_add, entryBytes, infoBytes_nodeName _ (length_le32 _)]
    simp only [A, B, append_assoc]
  · rcases hmem e he with rfl | he
    · exact .inl hne
    · exact h.findable e he
  · rcases hmem e he with rfl | he
    · have hctx₄ : ctxLen (le32 r.nodes.length) < 2 ^ 12 := by
        rw [ctxLen, length_le32]
        decide
      exact ⟨hstr.trans_lt (by norm_num), hctx₄⟩
    · exact h.representable e he
  · have := h.count_le
    rw [length_append, length_cons] at this ⊢
    exact this
  · have := h.nodup
    rw [map_append, map_cons] at this ⊢
    exact this

/-! ## The entries of the trie itself -/

/-- An entry of the trie itself is added, or there are too many entries, or one has its
    name. -/
theorem Filled.add_self {p' : MppTrieImpl} (h : Filled p l) (e : Entry) {ok : Bool}
    (hshort : strLen e.1 < trieMax) (hadd : mppTrieAddInfo p e.1 e.2 = some (p', ok)) :
    p'.name = p.name ∧ ∃ s, s.Sublist [e] ∧ Filled p' (l ++ s) ∧
      (l.length < trieMax → e.1 ∈ (l ++ s).map Prod.fst) := by
  obtain ⟨hkeep, hfilled, hno⟩ := addInfo_spec h hadd
  refine ⟨hkeep, ?_⟩
  cases ok with
  | true =>
    refine ⟨[e], List.Sublist.refl _, hfilled, fun _ => ?_⟩
    rw [map_append]
    exact mem_append_right _ (mem_singleton_self _)
  | false =>
    refine ⟨[], nil_sublist _, ?_, fun hlt => ?_⟩
    · rw [append_nil]
      exact hfilled
    · rw [append_nil]
      exact ((hno rfl).resolve_left (not_le.2 hshort)).resolve_left (not_le.2 hlt)

/-- The node count is not written when no name is taken for that of its entry. -/
theorem Sealed.patchNode_none (h : Sealed r l)
    (hnot : ∀ e ∈ l, ¬Mistaken (nibbles nodeName.val) (nibbles e.1.val)) :
    patchNode r = some r := by
  have hnone : mppTrieGetInfo r nodeName = none := by
    rw [mppTrieGetInfo]
    rcases hget : mppTrieGetNode r.nodes (nodeName.val ++ [0]) with _ | j
    · rfl
    · rw [bind_some, if_pos]
      by_contra hid
      have hne : nodeName.val ≠ [] := by decide
      obtain ⟨hlive, hmis⟩ := getNode_mistaken h.linked h.tagLen_le h.rootTag hne hget
      obtain ⟨x, hx, hs⟩ := h.stored.only j hlive (not_lt.1 hid)
      obtain ⟨l₁, e, l₂, rfl, rfl⟩ := mem_keys.1 hx
      exact hnot e (by simp) (hmis _ hs)
  rw [patchNode, hnone]

/-- The entries of the trie itself that are added, in this order, and the trie has one with
    the name of each, unless there are too many. -/
theorem addSelf_spec {q : MppTrieImpl} (h : Filled p l) (hself : addSelf p = some q) :
    q.name = p.name ∧ ∃ s n, s.Sublist [(nameName, p.name), (infoName, le32 (l.length + 3)), (nodeName, le32 n)] ∧
      Filled q (l ++ s) ∧ (l.length + 3 ≤ trieMax →
        ∀ name ∈ [nameName, infoName, nodeName], name ∈ (l ++ s).map Prod.fst) := by
  have hlen : ∀ name ∈ [nameName, infoName, nodeName], strLen name < trieMax := by decide
  obtain ⟨⟨p₁, ok₁⟩, h₁, hself⟩ := bind_eq_some_iff.1 hself
  obtain ⟨⟨p₂, ok₂⟩, h₂, hself⟩ := bind_eq_some_iff.1 hself
  obtain ⟨⟨p₃, ok₃⟩, h₃, hself⟩ := bind_eq_some_iff.1 hself
  obtain rfl := some.inj hself
  obtain ⟨hn₁, s₁, hs₁, hf₁, hm₁⟩ := h.add_self (nameName, p.name) (hlen _ (by simp)) h₁
  rw [h.infoCount] at h₂
  obtain ⟨hn₂, s₂, hs₂, hf₂, hm₂⟩ :=
    hf₁.add_self (infoName, le32 (l.length + 3)) (hlen _ (by simp)) h₂
  obtain ⟨hn₃, s₃, hs₃, hf₃, hm₃⟩ :=
    hf₂.add_self (nodeName, le32 p₂.nodeUsed) (hlen _ (by simp)) h₃
  have hle₁ := hs₁.length_le
  have hle₂ := hs₂.length_le
  rw [length_singleton] at hle₁ hle₂
  rw [length_append] at hm₂ hm₃
  rw [length_append] at hm₃
  refine ⟨hn₃.trans (hn₂.trans hn₁), s₁ ++ (s₂ ++ s₃), p₂.nodeUsed,
    hs₁.append (hs₂.append hs₃), ?_, fun hcnt name hname => ?_⟩
  · rw [append_assoc, append_assoc] at hf₃
    exact hf₃
  · rw [← append_assoc, ← append_assoc, map_append]
    simp only [mem_cons, not_mem_nil, or_false] at hname
    rcases hname with rfl | rfl | rfl
    · have hm := hm₁ (by omega)
      rw [map_append]
      exact mem_append_left _ (mem_append_left _ hm)
    · exact mem_append_left _ (hm₂ (by omega))
    · rw [← map_append]
      exact hm₃ (by omega)

/-- When the first letters of two names differ, the root has two links. -/
theorem Filled.root (h : Filled p l) {a b : Entry} (ha : a ∈ l) (hb : b ∈ l) {c d : UInt8}
    {u v : List UInt8} (hau : a.1.val = c :: u) (hbv : b.1.val = d :: v)
    (hne : hiNibble c ≠ hiNibble d) : 1 < (p.nodes.node 0).nextCnt := by
  have hlink : ∀ e ∈ l, ∀ c u, e.1.val = c :: u → (p.nodes.node 0).next (hiNibble c) ≠ 0 := by
    intro e he c u hu
    obtain ⟨l₁, l₂, rfl⟩ := append_of_mem he
    obtain ⟨j, hj, -⟩ := h.stored.found _ (mem_keys.2 ⟨l₁, e, l₂, rfl, rfl⟩)
    rw [hu, nibbles_cons] at hj
    obtain ⟨i, hi, hnext⟩ := hj.first
    exact hnext.symm ▸ hi
  rw [h.plain.counted 0, Finset.one_lt_card]
  exact ⟨_, Finset.mem_filter.2 ⟨Finset.mem_univ _, hlink a ha c u hau⟩, _,
    Finset.mem_filter.2 ⟨Finset.mem_univ _, hlink b hb d v hbv⟩, hne⟩

/-- The lengths of the entries of the trie itself fit, when that of the name does. -/
theorem representable_self {s : List Entry} {n : ℕ} (h : Built name p l)
    (hs : s.Sublist [(nameName, p.name), (infoName, le32 (l.length + 3)), (nodeName, le32 n)])
    (hnodup : ((l ++ s).map Prod.fst).Nodup)
    (hname : nameName ∈ l.map Prod.fst ∨ name.val.length < 4092) :
    ∀ e ∈ s, e.Representable ∧ e.1.val ≠ [] := by
  have hstr : ∀ n ∈ [nameName, infoName, nodeName], strLen n < 2 ^ 8 ∧ n.val ≠ [] := by
    decide
  have hfour : ∀ n, ctxLen (le32 n) < 2 ^ 12 := by
    intro n
    rw [ctxLen, length_le32]
    decide
  intro e he
  have hmem := hs.subset he
  simp only [mem_cons, not_mem_nil, or_false] at hmem
  rcases hmem with rfl | rfl | rfl
  · obtain ⟨hlt, hne⟩ := hstr nameName (by simp)
    refine ⟨⟨hlt, ?_⟩, hne⟩
    have hlen := hname.resolve_left fun hm => by
      rw [map_append, nodup_append] at hnodup
      exact hnodup.2.2 _ hm _ (mem_map_of_mem he) rfl
    dsimp only
    rw [h.name_eq, mppTrieInit, ctxLen, length_pad (length_take_le _ _), align]
    omega
  · obtain ⟨hlt, hne⟩ := hstr infoName (by simp)
    exact ⟨⟨hlt, hfour _⟩, hne⟩
  · obtain ⟨hlt, hne⟩ := hstr nodeName (by simp)
    exact ⟨⟨hlt, hfour _⟩, hne⟩

/-- The nodes stay as they are when the node count is written. -/
theorem patchNode_nodes {r' : TrieRoot} (h : patchNode r = some r') : r'.nodes = r.nodes := by
  rw [patchNode] at h
  split at h
  · rw [← some.inj h]
  · obtain ⟨ctx, -, h⟩ := bind_eq_some_iff.1 h
    dsimp only at h
    split_ifs at h
    rw [← some.inj h]

/-! ## No lookup fails -/

/-- All lookups of the sealing find a node, and all entries are found afterwards. -/
def SealFinds (q : MppTrieImpl) (l : List Entry) : Prop :=
  ∃ r, copyRoot q = some r ∧ ∀ r', r' = r ∨ patchNode r = some r' →
    ∀ l₁ e l₂, l = l₁ ++ e :: l₂ → mppTrieGetInfo r' e.1 = some (r'.nodesSize + sizes l₁)

/-- A trie whose root has two links when its own entries are added is sealed without a lookup
    that fails. -/
theorem lastInfo_finds {name : CName} {p q : MppTrieImpl} {l : List Entry} (h : Built name p l)
    (hne : ∀ e ∈ l, e.1.val ≠ []) (hself : addSelf p = some q)
    (hrep : ∀ e ∈ l, e.Representable)
    (hname : nameName ∈ l.map Prod.fst ∨ name.val.length < 4092)
    (hroot : 1 < (q.nodes.node 0).nextCnt) :
    ∃ s n, s.Sublist [(nameName, p.name), (infoName, le32 (l.length + 3)), (nodeName, le32 n)] ∧
      SealFinds q (l ++ s) := by
  obtain ⟨-, s, n, hs, hfilled, -⟩ := addSelf_spec h.filled hself
  have hnew := representable_self h hs hfilled.nodup hname
  have hall : ∀ e ∈ l ++ s, e.Representable ∧ e.1.val ≠ [] := fun e he =>
    (mem_append.1 he).elim (fun he => ⟨hrep e he, hne e he⟩) (hnew e)
  obtain ⟨r, hr, hsealed⟩ := copyRoot_spec hfilled
    ⟨.inl hroot, fun e he => .inl (hall e he).2, fun e he => (hall e he).1⟩
  refine ⟨s, n, hs, r, hr, fun r' hr' l₁ e l₂ hsplit => ?_⟩
  have hget := (hsplit ▸ hsealed).getInfo (hall e (by rw [hsplit]; simp)).2
  have hnodes : r'.nodes = r.nodes := by
    rcases hr' with rfl | hr'
    · rfl
    · exact patchNode_nodes hr'
  rw [mppTrieGetInfo, TrieRoot.nodesSize] at hget ⊢
  rw [hnodes]
  exact hget

def aName : CName := ⟨[97], by decide⟩

/-- The letter `a` and the names of the trie itself are two links of the root. -/
theorem built_letter :
    ∃ p q, Built nameName p [(aName, [1])] ∧ addSelf p = some q ∧
      1 < (q.nodes.node 0).nextCnt := by
  have hroot : ((mppTrieAddInfo (mppTrieInit nameName) aName [1]).bind fun x =>
      if x.2 then (addSelf x.1).map fun q => (q.nodes.node 0).nextCnt else none) = some 2 := by
    decide
  obtain ⟨⟨p, ok⟩, hadd, hself⟩ := bind_eq_some_iff.1 hroot
  cases ok with
  | false => exact absurd hself (by simp)
  | true =>
    obtain ⟨q, hself, hcnt⟩ := map_eq_some_iff.1 hself
    exact ⟨p, q, Built.add (e := (aName, [1])) .init hadd, hself, by omega⟩

/-- The letter and the names of the trie itself are found. -/
theorem lastInfo_finds_letter :
    ∃ p q s, Built nameName p [(aName, [1])] ∧ addSelf p = some q ∧
      SealFinds q ([(aName, [1])] ++ s) := by
  obtain ⟨p, q, hbuilt, hself, hroot⟩ := built_letter
  obtain ⟨s, -, -, hfinds⟩ := lastInfo_finds hbuilt (by decide) hself (by decide)
    (.inr (by decide)) hroot
  exact ⟨p, q, s, hbuilt, hself, hfinds⟩

/-- A trie of which all names start with the same four bits is not sealed: a lookup fails. -/
theorem lastInfo_not_finds :
    ¬∀ name p q l, Built name p l → (∀ e ∈ l, e.1.val ≠ []) → addSelf p = some q →
      ∃ s, SealFinds q (l ++ s) := by
  intro hall
  have hsome : (addSelf (mppTrieInit nameName)).isSome := by decide
  have hnone : ((addSelf (mppTrieInit nameName)).bind copyRoot).isNone := by decide +kernel
  obtain ⟨q, hq⟩ := isSome_iff_exists.1 hsome
  obtain ⟨s, r, hr, -⟩ := hall nameName _ q [] .init (by simp) hq
  rw [hq, bind_some, hr] at hnone
  exact absurd hnone (by simp)

end Libmpp.Trie
