import Libmpp.Trie.Iterate

/-!
# Imported tries

`mppTrieInitByRoot` makes a trie from the root of a sealed one, by means of the entries that
this has of itself, and looks up each entry by its name. When the three entries of the trie
itself have been added, the trie that is imported is the one that was sealed
(`sealTrie_import`).
-/

namespace Libmpp.Trie

open List Option

/-- `mpp_trie_get_info` with a name in memory. -/
def mppTrieGetInfoAt (r : TrieRoot) (s : List UInt8) : Option ℕ :=
  (mppTrieGetNode r.nodes s).bind fun idx =>
    if (r.nodes.node idx).id < 0 then none else some (r.nodes.node idx).id.toNat

/-- The check of `n` entries, the first one with the index `i`: each is found by its name. -/
def importCheck (t : SealedTrie) : ℕ → ℕ → Option ℕ → Option Bool
  | 0, _, _ => some true
  | _ + 1, _, none => some false
  | n + 1, i, some off =>
    match mppTrieGetInfoNext t off,
      mppTrieGetInfoAt t.root (t.root.from (off + headerSize)) with
    | none, _ => none
    | some _, none => some false
    | some next, some ret =>
      match readInfo (t.root.from ret) with
      | none => none
      | some info => if off = ret ∧ info.index = i then importCheck t n (i + 1) next else some false

/-- The word in an entry of the trie itself, or 0 without it. -/
def selfWord (root : TrieRoot) (name : CName) : Option ℕ :=
  match mppTrieGetInfo root name with
  | none => some 0
  | some off => (mppTrieInfoCtx root off).bind fun ctx => readLe32 (root.from ctx)

/-- The bytes in an entry of the trie itself. -/
def selfBytes (root : TrieRoot) (name : CName) : Option (List UInt8) :=
  match mppTrieGetInfo root name with
  | none => some []
  | some off => (mppTrieInfoCtx root off).map root.from

/-- `mpp_trie_init_by_root`, with the trie when it succeeds. -/
def mppTrieInitByRoot (root : TrieRoot) : Option (Option SealedTrie) := do
  let name ← selfBytes root nameName
  let nodeUsed ← selfWord root nodeName
  let infoCount ← selfWord root infoName
  let t : SealedTrie := { root, name, nodeUsed, infoCount }
  let ok ← importCheck t infoCount 0 (some (mppTrieGetInfoFirst t))
  some (if ok then some t else none)

/-! ## The number of nodes -/

theorem shrinkLoop_snd_le (i : ℕ) (s : Nodes × ℕ) : (shrinkLoop i s).2 ≤ s.2 := by
  induction i generalizing s with
  | zero => exact le_rfl
  | succ i ih =>
    have hnode : (shrinkNode (i + 1) s).2 ≤ s.2 := by
      rw [shrinkNode]
      split_ifs
      · exact le_rfl
      · exact Nat.sub_le _ _
    exact (ih _).trans hnode

theorem length_shrink_le (nodes : Nodes) : (shrink nodes).length ≤ nodes.length :=
  (length_take_le _ _).trans (shrinkLoop_snd_le _ _)

theorem length_copyInfos {ns n : ℕ} {nodes nodes' : Nodes} {src dst dst' : List UInt8}
    (h : copyInfos ns n nodes src dst = some (nodes', dst')) : nodes'.length = nodes.length := by
  induction n generalizing nodes src dst with
  | zero =>
    obtain ⟨rfl, -⟩ := Prod.mk.inj (some.inj h)
    rfl
  | succ n ih =>
    obtain ⟨info, -, h⟩ := bind_eq_some_iff.1 h
    split_ifs at h
    obtain ⟨idx, -, h⟩ := bind_eq_some_iff.1 h
    rw [ih h, length_modify]

variable {t : SealedTrie}

/-- Sealing makes no nodes. -/
theorem sealTrie_nodes_le {p q : MppTrieImpl} (hself : addSelf p = some q) (h : sealTrie p = some t)
    : t.root.nodes.length ≤ q.nodes.length := by
  obtain ⟨q', hself', h⟩ := bind_eq_some_iff.1 h
  obtain rfl := some.inj (hself.symm.trans hself')
  obtain ⟨r, hcopy, h⟩ := bind_eq_some_iff.1 h
  obtain ⟨r', hpatch, h⟩ := bind_eq_some_iff.1 h
  obtain ⟨⟨nodes, infos⟩, hinfos, hr⟩ := bind_eq_some_iff.1 hcopy
  rw [← some.inj h, patchNode_nodes hpatch, ← some.inj hr, length_copyInfos hinfos]
  exact length_shrink_le _

/-- The nodes have indices up to the largest one. -/
def Bounded (p : MppTrieImpl) : Prop := p.nodes.length ≤ nodeMax + 1

section

variable {p p' : MppTrieImpl} {idx j : ℕ}

theorem Bounded.paveKey (h : Bounded p) {key : Nibble} (hpave : paveKey p idx key = some (p', j)) :
    Bounded p' := by
  rw [Trie.paveKey] at hpave
  split_ifs at hpave with hnext
  · obtain ⟨⟨p₁, i⟩, hget, hpave⟩ := bind_eq_some_iff.1 hpave
    obtain ⟨rfl, -⟩ := Prod.mk.inj (some.inj hpave)
    rw [trieGetNode] at hget
    split_ifs at hget with hmax
    obtain ⟨rfl, -⟩ := Prod.mk.inj (some.inj hget)
    rw [Bounded, length_modify, length_append, length_modify, length_singleton]
    rw [MppTrieImpl.nodeUsed] at hmax
    omega
  · obtain ⟨rfl, -⟩ := Prod.mk.inj (some.inj hpave)
    exact h

theorem Bounded.path (h : Bounded p) {s : List UInt8} (hpave : trieGetPath p idx s = some (p', j)) :
    Bounded p' := by
  induction s generalizing p idx with
  | nil =>
    obtain ⟨rfl, -⟩ := Prod.mk.inj (some.inj hpave)
    exact h
  | cons b s ih =>
    obtain ⟨⟨p₁, i₁⟩, h₁, hpave⟩ := bind_eq_some_iff.1 hpave
    obtain ⟨⟨p₂, i₂⟩, h₂, hpave⟩ := bind_eq_some_iff.1 hpave
    exact ih ((h.paveKey h₁).paveKey h₂) hpave

theorem Bounded.add (h : Bounded p) {e : Entry} {ok : Bool}
    (hadd : mppTrieAddInfo p e.1 e.2 = some (p', ok)) : Bounded p' := by
  rw [mppTrieAddInfo] at hadd
  split_ifs at hadd
  · obtain ⟨rfl, -⟩ := Prod.mk.inj (some.inj hadd)
    exact h
  · split at hadd
    · obtain ⟨rfl, -⟩ := Prod.mk.inj (some.inj hadd)
      exact h
    · rename_i p₁ hprep
      have h₁ : Bounded p₁ := by
        rw [(prepareBuf_eq hprep).2]
        exact h
      obtain ⟨⟨p₂, j⟩, hpave, hadd⟩ := bind_eq_some_iff.1 hadd
      have h₂ : Bounded p₂ := h₁.path hpave
      dsimp only at hadd
      split_ifs at hadd
      · obtain ⟨rfl, -⟩ := Prod.mk.inj (some.inj hadd)
        exact h₂
      · obtain ⟨rfl, -⟩ := Prod.mk.inj (some.inj hadd)
        rw [Bounded, length_modify]
        exact h₂

theorem Built.bounded {name : CName} {l : List Entry} (h : Built name p l) : Bounded p := by
  induction h with
  | init => exact Nat.succ_le_succ (Nat.zero_le _)
  | add _ hadd ih => exact ih.add hadd

theorem Bounded.self (h : Bounded p) (hself : addSelf p = some p') : Bounded p' := by
  obtain ⟨⟨p₁, ok₁⟩, h₁, hself⟩ := bind_eq_some_iff.1 hself
  obtain ⟨⟨p₂, ok₂⟩, h₂, hself⟩ := bind_eq_some_iff.1 hself
  obtain ⟨⟨p₃, ok₃⟩, h₃, hself⟩ := bind_eq_some_iff.1 hself
  obtain rfl := some.inj hself
  have hb₁ := h.add (e := (nameName, _)) h₁
  have hb₂ := hb₁.add (e := (infoName, _)) h₂
  exact hb₂.add (e := (nodeName, _)) h₃

end

/-! ## Import -/

variable {r : TrieRoot} {l₁ l₂ : List Entry} {e : Entry}

/-- A sealed entry is found by its name in memory. -/
theorem Sealed.getInfoAt (h : Sealed r (l₁ ++ e :: l₂)) :
    mppTrieGetInfoAt r (r.from (r.nodesSize + sizes l₁ + headerSize)) =
      some (r.nodesSize + sizes l₁) := by
  obtain ⟨j, hj, hid⟩ := h.stored.found _ (mem_keys.2 ⟨l₁, e, l₂, rfl, rfl⟩)
  obtain ⟨rest, hname, -⟩ := h.from_name
  have hmem : e ∈ l₁ ++ e :: l₂ := by simp
  have hget := getNode_stored h.linked h.tagLen_le (h.findable e hmem) (h.short e hmem) hj rest
  rw [mppTrieGetInfoAt, hname, hget, bind_some, hid, if_neg (by omega), Int.toNat_natCast]

/-- The check of sealed entries succeeds. -/
theorem Sealed.importCheck (h : Sealed t.root (l₁ ++ l₂)) (hcount : t.infoCount = (l₁ ++ l₂).length)
    (info : Option ℕ) (hinfo : l₂ ≠ [] → info = some (t.root.nodesSize + sizes l₁)) :
    importCheck t l₂.length l₁.length info = some true := by
  induction l₂ generalizing l₁ info with
  | nil => rfl
  | cons e l ih =>
    have hsplit : l₁ ++ e :: l = (l₁ ++ [e]) ++ l := by rw [append_assoc]; rfl
    have hrest := ih (hsplit ▸ h) (hsplit ▸ hcount)
      (if l = [] then none else some (t.root.nodesSize + sizes (l₁ ++ [e]))) fun hl => if_neg hl
    rw [length_append, length_singleton] at hrest
    rw [hinfo (cons_ne_nil e l), length_cons, Trie.importCheck, h.next hcount,
      h.getInfoAt]
    dsimp only
    rw [h.reads.header]
    dsimp only
    rw [if_pos ⟨rfl, rfl⟩]
    exact hrest

/-- The bytes of an entry, and what follows them. -/
theorem Reads.from_ctx {off i : ℕ} (h : Reads r off i e) :
    ∃ c rest, mppTrieInfoCtx r off = some c ∧ r.from c = e.2 ++ rest := by
  obtain ⟨c, hc, htake⟩ := h.ctx
  refine ⟨c, (r.from c).drop e.2.length, hc, ?_⟩
  conv_lhs => rw [← take_append_drop e.2.length (r.from c), htake]

theorem Sealed.selfBytes (h : Sealed r (l₁ ++ e :: l₂)) (hne : e.1.val ≠ []) :
    ∃ rest, selfBytes r e.1 = some (e.2 ++ rest) := by
  obtain ⟨c, rest, hc, hfrom⟩ := h.reads.from_ctx
  refine ⟨rest, ?_⟩
  rw [Trie.selfBytes, h.getInfo hne]
  dsimp only
  rw [hc, map_some, hfrom]

theorem Sealed.selfWord {name : CName} {n : ℕ} (h : Sealed r (l₁ ++ (name, le32 n) :: l₂))
    (hne : name.val ≠ []) (hn : n < 2 ^ 32) : selfWord r name = some n := by
  obtain ⟨c, rest, hc, hfrom⟩ := h.reads.from_ctx
  rw [Trie.selfWord, h.getInfo hne]
  dsimp only
  rw [hc, bind_some, hfrom]
  exact readLe32_le32 hn rest

/-- The entries of a trie itself are all there when no other one has their names. -/
theorem SealedWith.self_eq {l s : List Entry} (h : SealedWith t l s)
    (hcount : l.length + 3 ≤ trieMax)
    (hfree : ∀ name ∈ [nameName, infoName, nodeName], name ∉ l.map Prod.fst) :
    s = selfEntries t l.length := by
  have hsub : [nameName, infoName, nodeName] ⊆ s.map Prod.fst := by
    intro name hname
    have hmem := h.named hcount name hname
    rw [map_append, mem_append] at hmem
    exact hmem.resolve_left (hfree name hname)
  have hnodup : [nameName, infoName, nodeName].Nodup := by decide
  have hle := (hnodup.subperm hsub).length_le
  rw [length_map] at hle
  exact h.self.eq_of_length_le hle

/-- The bytes of a name that is not too long. -/
theorem init_name {name : CName} (h : name.val.length < trieMax) :
    (mppTrieInit name).name = name.val ++ [0] := by
  rw [mppTrieInit, min_eq_left h.le, take_of_length_le (Nat.le_succ _), pad,
    Nat.add_sub_cancel_left]
  rfl

/-- A trie has the name, the counts, the lookups and the iteration of another. -/
structure Agrees (t t' : SealedTrie) : Prop where
  name : cString t'.name = cString t.name
  nodeUsed : t'.nodeUsed = t.nodeUsed
  infoCount : t'.infoCount = t.infoCount
  getInfo : ∀ name, mppTrieGetInfo t'.root name = mppTrieGetInfo t.root name
  visit : ∀ n, visit t' n (mppTrieGetInfoFirst t') = visit t n (mppTrieGetInfoFirst t)

theorem visit_name (t : SealedTrie) (name : List UInt8) (n off : ℕ) :
    visit { t with name } n off = visit t n off := by
  induction n generalizing off with
  | zero => rfl
  | succ n ih =>
    have hnext : mppTrieGetInfoNext { t with name } off = mppTrieGetInfoNext t off := rfl
    rw [visit, visit, hnext]
    simp only [ih]

/-- The root of a trie that was sealed with all entries of its own is imported, and the trie
    is the one that was sealed. -/
theorem sealTrie_import {name : CName} {p q : MppTrieImpl} {l : List Entry}
    (h : Built name p l) (hself : addSelf p = some q) (hr : Regular name q l)
    (hcount : l.length + 3 ≤ trieMax)
    (hfree : ∀ name ∈ [nameName, infoName, nodeName], name ∉ l.map Prod.fst) :
    ∃ t t', sealTrie p = some t ∧ mppTrieInitByRoot t.root = some (some t') ∧ Agrees t t' := by
  obtain ⟨t, s, ht, hname, hw⟩ := sealTrie_spec h hself hr
  obtain rfl := hw.self_eq hcount hfree
  have hsealed := hw.sealed
  have hlen : name.val.length < 4092 := hr.name.resolve_left (hfree nameName (by simp))
  have hstr : t.name = name.val ++ [0] := by
    rw [hname, h.name_eq, init_name (hlen.trans (by norm_num))]
  have hne : nameName.val ≠ [] ∧ infoName.val ≠ [] ∧ nodeName.val ≠ [] := by decide
  have hlt : l.length + 3 < 2 ^ 32 := hcount.trans_lt (by norm_num)
  have hnodes : t.nodeUsed < 2 ^ 32 := by
    have hle := sealTrie_nodes_le hself ht
    have hq : q.nodes.length ≤ nodeMax + 1 := h.bounded.self hself
    rw [← hw.nodeUsed] at hle
    exact (hle.trans hq).trans_lt (by norm_num)
  -- the three entries of the trie itself
  obtain ⟨rest, hbytes⟩ := hsealed.selfBytes hne.1
  have hsplit : l ++ selfEntries t l.length =
      (l ++ [(nameName, t.name)]) ++ (infoName, le32 (l.length + 3)) ::
        [(nodeName, le32 t.nodeUsed)] := by
    rw [append_assoc]
    rfl
  have hsplit' : l ++ selfEntries t l.length =
      (l ++ [(nameName, t.name), (infoName, le32 (l.length + 3))]) ++
        (nodeName, le32 t.nodeUsed) :: [] := by
    rw [append_assoc]
    rfl
  have hinfo : selfWord t.root infoName = some (l.length + 3) :=
    Sealed.selfWord (hsplit ▸ hsealed) hne.2.1 hlt
  have hnode : selfWord t.root nodeName = some t.nodeUsed :=
    Sealed.selfWord (hsplit' ▸ hsealed) hne.2.2 hnodes
  have hinfoCount : t.infoCount = l.length + 3 := by
    rw [hw.infoCount, length_append]
    rfl
  -- the trie that is imported differs in what follows its name
  set t' : SealedTrie := { t with name := t.name ++ rest }
  have hcheck : importCheck t' (l.length + 3) 0 (some (mppTrieGetInfoFirst t')) = some true := by
    have hsealed' : Sealed t'.root ([] ++ (l ++ selfEntries t l.length)) := hsealed
    have := hsealed'.importCheck hw.infoCount (some (mppTrieGetInfoFirst t'))
      fun _ => congrArg some hw.first_eq
    rw [← hinfoCount, hw.infoCount]
    exact this
  refine ⟨t, t', ht, ?_, ?_, rfl, rfl, fun _ => rfl, fun n => visit_name t _ n _⟩
  · have ht' : SealedTrie.mk t.root (t.name ++ rest) t.nodeUsed (l.length + 3) = t' := by
      rw [← hinfoCount]
    dsimp only at hbytes
    rw [mppTrieInitByRoot, hbytes, hinfo, hnode]
    simp only [bind_eq_bind, bind_some]
    rw [ht', hcheck]
    rfl
  · change cString (t.name ++ rest) = cString t.name
    rw [hstr, append_assoc, singleton_append, cString_append name.2,
      cString_append name.2]

/-- One letter, and the entries of the trie itself. -/
theorem sealTrie_import_letter :
    ∃ p t t', Built nameName p [(aName, [1])] ∧ sealTrie p = some t ∧
      mppTrieInitByRoot t.root = some (some t') ∧ Agrees t t' := by
  obtain ⟨p, q, hbuilt, hself, hroot⟩ := built_letter
  have hne : ∀ e ∈ [(aName, [(1 : UInt8)])], e.1.val ≠ [] := by decide
  obtain ⟨t, t', ht, himport, hagree⟩ := sealTrie_import hbuilt hself
    ⟨.inl hroot, fun e he => .inl (hne e he), by decide, .inl (by decide), by decide,
      .inr (by decide)⟩ (by decide) (by decide)
  exact ⟨p, t, t', hbuilt, ht, himport, hagree⟩

/-- When a length is cut off, a trie that is sealed with all entries of its own is imported as
    one without entries. -/
theorem sealTrie_not_import :
    ¬∀ name p l t, Built name p l → sealTrie p = some t → t.infoCount = l.length + 3 →
      ∃ t', mppTrieInitByRoot t.root = some (some t') ∧ Agrees t t' := by
  intro hall
  obtain ⟨p, q, t, hbuilt, -, ht, -, -, -, -, hcount, ⟨hnameAt, hnameCtx⟩, ⟨hnodeAt, hnodeWord⟩,
    hinfoAt, hinfoWord⟩ := built_cut
  obtain ⟨t', himport, hagree⟩ := hall _ _ _ _ hbuilt ht hcount
  obtain ⟨ctx, hctx⟩ := isSome_iff_exists.1 hnameCtx
  obtain ⟨n, hn⟩ := isSome_iff_exists.1 hnodeWord
  have hname : selfBytes t.root nameName = some (t.root.from ctx) := by
    rw [selfBytes, hnameAt]
    dsimp only
    rw [hctx, map_some]
  have hnode : selfWord t.root nodeName = some n := by
    rw [selfWord, hnodeAt]
    exact hn
  have hinfo : selfWord t.root infoName = some 0 := by
    rw [selfWord, hinfoAt]
    exact hinfoWord
  have heval : mppTrieInitByRoot t.root = some (some
      { root := t.root, name := t.root.from ctx, nodeUsed := n, infoCount := 0 }) := by
    rw [mppTrieInitByRoot, hname, hnode, hinfo]
    rfl
  obtain rfl := some.inj (some.inj (heval.symm.trans himport))
  exact absurd (hagree.infoCount.trans hcount) (show ¬0 = 4 by decide)

end Libmpp.Trie
