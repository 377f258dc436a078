import Libmpp.Trie.Walk

/-!
# Entries

The entries stand one after the other (`entryBytes`), each with its header, its name and its
context. The header holds the lengths of an entry that is `Representable`, and is then read
back (`readInfo_entry`). `Filled p l` says that the trie `p` has the entries `l`: adding an
entry adds it at the end, or leaves them as they are (`addInfo_spec`).
-/

namespace Libmpp.Trie

open List Option

/-- A name and its context. -/
abbrev Entry := CName × List UInt8

/-- The bytes an entry takes. -/
def Entry.size (e : Entry) : ℕ := infoSize e.1 e.2

/-- The lengths of an entry have room in its header. -/
def Entry.Representable (e : Entry) : Prop := strLen e.1 < 2 ^ 8 ∧ ctxLen e.2 < 2 ^ 12

instance (e : Entry) : Decidable e.Representable := inferInstanceAs (Decidable (_ ∧ _))

/-! ## Bytes -/

theorem le_align {a : ℕ} (ha : 0 < a) (n : ℕ) : n ≤ align a n := by
  have h := Nat.lt_mul_div_succ (n + a - 1) ha
  rw [align, mul_comm]
  rw [mul_add] at h
  omega

variable {n : ℕ}

theorem length_pad {l : List UInt8} (h : l.length ≤ n) : (pad n l).length = n := by
  rw [pad, length_append, length_replicate, Nat.add_sub_cancel' h]

theorem length_le32 (n : ℕ) : (le32 n).length = 4 := rfl

theorem readLe32_le32 (h : n < 2 ^ 32) (rest : List UInt8) :
    readLe32 (le32 n ++ rest) = some n := by
  simp only [le32, cons_append, nil_append, readLe32, UInt8.toNat_ofNat']
  congr 1
  omega

variable {name : CName}

/-- A name that is accepted ends within its bytes. -/
theorem name_lt_strLen (h : strLen name < trieMax) : name.val.length < strLen name := by
  have hle := le_align (by norm_num : 0 < 4) (min name.val.length trieMax + 1)
  rw [strLen] at h ⊢
  omega

theorem ctx_le_ctxLen (ctx : List UInt8) : ctx.length ≤ ctxLen ctx :=
  le_align (by norm_num) _

variable {e : Entry}

theorem length_infoBytes (i : ℕ) (h : strLen e.1 < trieMax) :
    (infoBytes i e.1 e.2).length = e.size := by
  rw [infoBytes, length_append, length_append, length_pad (name_lt_strLen h).le,
    length_pad (ctx_le_ctxLen e.2)]
  rfl

/-- The header of an entry is read back. -/
theorem readInfo_entry {i : ℕ} (hi : i < 2 ^ 12) (h : e.Representable) (rest : List UInt8) :
    readInfo (infoBytes i e.1 e.2 ++ rest) =
      some { index := i, ctxLen := ctxLen e.2, strLen := strLen e.1 } := by
  obtain ⟨hstr, hctx⟩ := h
  rw [infoBytes, infoHeader, append_assoc, append_assoc, readInfo,
    Nat.mod_eq_of_lt hi, Nat.mod_eq_of_lt hstr, Nat.mod_eq_of_lt hctx,
    readLe32_le32 (by omega), map_some]
  congr 2
  · omega
  · omega
  · omega

/-! ## Lists of entries -/

/-- The bytes of entries, the first one with the index `i`. -/
def entryBytes : ℕ → List Entry → List UInt8
  | _, [] => []
  | i, e :: l => infoBytes i e.1 e.2 ++ entryBytes (i + 1) l

/-- The words of names, and the offsets of their entries, the first one at `off`. -/
def keys : ℕ → List Entry → List (List Nibble × ℕ)
  | _, [] => []
  | off, e :: l => (nibbles e.1.val, off) :: keys (off + e.size) l

/-- The offset behind entries. -/
def sizes (l : List Entry) : ℕ := (l.map Entry.size).sum

@[simp] theorem sizes_nil : sizes [] = 0 := rfl

@[simp] theorem sizes_cons (e : Entry) (l : List Entry) : sizes (e :: l) = e.size + sizes l := rfl

@[simp] theorem sizes_append (l m : List Entry) : sizes (l ++ m) = sizes l + sizes m := by
  rw [sizes, map_append, sum_append]
  rfl

theorem entryBytes_append (i : ℕ) (l m : List Entry) :
    entryBytes i (l ++ m) = entryBytes i l ++ entryBytes (i + l.length) m := by
  induction l generalizing i with
  | nil => rfl
  | cons e l ih =>
    rw [cons_append, entryBytes, ih, entryBytes, append_assoc, length_cons,
      Nat.add_assoc, Nat.add_comm 1]

theorem keys_append (off : ℕ) (l m : List Entry) :
    keys off (l ++ m) = keys off l ++ keys (off + sizes l) m := by
  induction l generalizing off with
  | nil => rfl
  | cons e l ih =>
    rw [cons_append, keys, ih, keys, cons_append, sizes_cons, Nat.add_assoc]

theorem length_keys (off : ℕ) (l : List Entry) : (keys off l).length = l.length := by
  induction l generalizing off with
  | nil => rfl
  | cons e l ih => rw [keys, length_cons, ih, length_cons]

theorem length_entryBytes (i : ℕ) {l : List Entry} (h : ∀ e ∈ l, strLen e.1 < trieMax) :
    (entryBytes i l).length = sizes l := by
  induction l generalizing i with
  | nil => rfl
  | cons e l ih =>
    rw [entryBytes, length_append, length_infoBytes i (h e mem_cons_self),
      ih (i + 1) fun e he => h e (mem_cons_of_mem _ he)]
    rfl

/-- A word is that of an entry, behind those before it. -/
theorem mem_keys {off : ℕ} {l : List Entry} {x : List Nibble × ℕ} :
    x ∈ keys off l ↔
      ∃ l₁ e l₂, l = l₁ ++ e :: l₂ ∧ x = (nibbles e.1.val, off + sizes l₁) := by
  induction l generalizing off with
  | nil =>
    refine iff_of_false not_mem_nil ?_
    rintro ⟨l₁, e, l₂, h, -⟩
    exact absurd h (by simp)
  | cons a l ih =>
    rw [keys, mem_cons, ih]
    constructor
    · rintro (rfl | ⟨l₁, e, l₂, rfl, rfl⟩)
      · exact ⟨[], a, l, rfl, rfl⟩
      · exact ⟨a :: l₁, e, l₂, rfl, by rw [sizes_cons, Nat.add_assoc]⟩
    · rintro ⟨l₁, e, l₂, h, rfl⟩
      cases l₁ with
      | nil =>
        obtain ⟨rfl, -⟩ := List.cons.inj h
        exact .inl rfl
      | cons b l₁ =>
        obtain ⟨rfl, rfl⟩ := List.cons.inj h
        exact .inr ⟨l₁, e, l₂, rfl, by rw [sizes_cons, Nat.add_assoc]⟩

/-! ## Adding -/

/-- The trie has the entries `l`, and is not sealed. -/
structure Filled (p : MppTrieImpl) (l : List Entry) : Prop where
  plain : Plain p.nodes
  stored : Stored p.nodes (keys 0 l)
  ids : ∀ i < p.nodes.length, (p.nodes.node i).id = -1 ∨ 0 ≤ (p.nodes.node i).id
  infoBuf : p.infoBuf = entryBytes 0 l
  infoCount : p.infoCount = l.length
  count_le : l.length ≤ trieMax
  short : ∀ e ∈ l, strLen e.1 < trieMax
  nodup : (l.map Prod.fst).Nodup

theorem Plain.setId {nodes : Nodes} (h : Plain nodes) (i : ℕ) (id : ℤ) :
    Plain (nodes.setId i id) where
  toLinked := (reid_setId nodes i id).linked h.toLinked
  pos := (length_setId nodes i id).symm ▸ h.pos
  live j hj := ((reid_setId nodes i id).live j).2 (h.live j (length_setId nodes i id ▸ hj))
  untagged j := by
    rw [node_setId]
    exact h.untagged j
  counted j := by
    rw [node_setId]
    exact h.counted j

theorem Plain.tagLen_le {nodes : Nodes} (h : Plain nodes) (j : ℕ) :
    (nodes.node j).tagLen ≤ tagLenMax := by
  rw [(h.untagged j).1]
  exact Nat.zero_le _

/-- A fresh trie has no entries. -/
theorem filled_init (name : CName) : Filled (mppTrieInit name) [] := by
  have hnode : ∀ i, Nodes.node (mppTrieInit name).nodes i =
      if i = 0 then { id := -1 } else {} := by
    rintro (_ | i)
    · rfl
    · rfl
  have hnext : ∀ i k, (Nodes.node (mppTrieInit name).nodes i).next k = 0 := by
    intro i k
    rw [hnode]
    split_ifs <;> rfl
  have hlive : ∀ i, (Nodes.node (mppTrieInit name).nodes i).idx = 0 := by
    intro i
    rw [hnode]
    split_ifs <;> rfl
  refine ⟨⟨⟨fun i => .inl (hlive i), fun i k j hc => ?_, fun j hj h => ?_, fun j hj h => ?_⟩,
    Nat.one_pos, fun i hi => ?_, fun i => ?_, fun i => ?_⟩, ⟨fun e he => ?_, fun i h hid => ?_⟩,
    fun i hi => ?_, rfl, rfl, Nat.zero_le _, fun e he => ?_, nodup_nil⟩
  · exact absurd (hc.2.symm.trans (hnext i k)) hc.1
  · exact absurd (h.symm.trans (hlive j)) hj
  · exact absurd (h.symm.trans (hlive j)) hj
  · rw [Nat.lt_one_iff.1 hi]
    exact hlive 0
  · rw [hnode]
    split_ifs <;> exact ⟨rfl, rfl⟩
  · simp only [hnext, ne_eq, not_true_eq_false, Finset.filter_false, Finset.card_empty]
    rw [hnode]
    split_ifs <;> rfl
  · exact absurd he not_mem_nil
  · obtain rfl : i = 0 := h.symm.trans (hlive i)
    have hroot : ((mppTrieInit name).nodes.node 0).id = -1 := rfl
    rw [hroot] at hid
    exact absurd hid (by decide)
  · rw [Nat.lt_one_iff.1 hi]
    exact .inl rfl
  · exact absurd he not_mem_nil

variable {p p' : MppTrieImpl} {l : List Entry}

/-- Paving keeps the entries. -/
theorem Filled.paved (h : Filled p l) (hp : Paved p p') : Filled p' l := by
  have hg := hp.grown
  have hpl := hp.plain
  have hold : ∀ i, i < p'.nodes.length → 0 ≤ (p'.nodes.node i).id → i < p.nodes.length := by
    intro i hi hid
    by_contra hlt
    rw [hg.new i (not_lt.1 hlt) hi] at hid
    exact absurd hid (by decide)
  refine ⟨hpl, ⟨fun e he => ?_, fun i hi hid => ?_⟩, fun i hi => ?_, ?_, ?_, h.count_le,
    h.short, h.nodup⟩
  · obtain ⟨j, hs, hj⟩ := h.stored.found e he
    have hlive := h.plain.live_of_spells hs
    have hj' := hlive.lt_of_pos h.plain.pos
    exact ⟨j, hg.spells h.plain hpl hs, (hg.id j hj').trans hj⟩
  · have hi' := hold i (hi.lt_of_pos hpl.pos) hid
    rw [hg.id i hi'] at hid
    obtain ⟨e, he, hs⟩ := h.stored.only i (h.plain.live i hi') hid
    exact ⟨e, he, hg.spells h.plain hpl hs⟩
  · by_cases hi' : i < p.nodes.length
    · rw [hg.id i hi']
      exact h.ids i hi'
    · exact .inl (hg.new i (not_lt.1 hi') hi)
  · rw [hp.eq]
    exact h.infoBuf
  · rw [hp.eq]
    exact h.infoCount

/-- Room for an entry is made, and nothing else. -/
theorem prepareBuf_eq (h : triePrepareBuf p n = some p') :
    p.infoCount < trieMax ∧ p' = { p with infoBufSize := p'.infoBufSize } := by
  rw [triePrepareBuf] at h
  split_ifs at h with hmax hsize
  · rw [← some.inj h]
    exact ⟨not_le.1 hmax, rfl⟩
  · rw [← some.inj h]
    exact ⟨not_le.1 hmax, rfl⟩

/-- A node without an entry gets the next one. -/
theorem Filled.add (h : Filled p l) {j : ℕ} (hj : j < p.nodes.length)
    (hs : p.nodes.tree.Spells (nibbles e.1.val) j) (hid : (p.nodes.node j).id = -1)
    (hshort : strLen e.1 < trieMax) (hmax : l.length < trieMax) {p' : MppTrieImpl}
    (hnodes : p'.nodes = p.nodes.setId j p.infoBufPos)
    (hbuf : p'.infoBuf = p.infoBuf ++ infoBytes p.infoCount e.1 e.2)
    (hcount : p'.infoCount = p.infoCount + 1) : Filled p' (l ++ [e]) := by
  have hpos : p.infoBufPos = sizes l := by
    rw [MppTrieImpl.infoBufPos, h.infoBuf, length_entryBytes 0 h.short]
  have hkeys : keys 0 (l ++ [e]) = keys 0 l ++ [(nibbles e.1.val, p.infoBufPos)] := by
    rw [keys_append, hpos, Nat.zero_add]
    rfl
  refine ⟨?_, ⟨fun x hx => ?_, fun i hi hid' => ?_⟩, fun i hi => ?_, ?_, ?_, ?_,
    fun x hx => ?_, ?_⟩
  · rw [hnodes]
    exact h.plain.setId _ _
  · rw [hkeys, mem_append, mem_singleton] at hx
    rw [hnodes, (reid_setId _ _ _).tree]
    rcases hx with hx | rfl
    · obtain ⟨i, hsi, hi⟩ := h.stored.found x hx
      have hne : j ≠ i := by
        rintro rfl
        omega
      refine ⟨i, hsi, ?_⟩
      rw [node_setId, if_neg fun hc => hne hc.1, hi]
    · refine ⟨j, hs, ?_⟩
      rw [node_setId, if_pos ⟨rfl, hj⟩]
  · rw [hnodes, (reid_setId _ _ _).live] at hi
    rw [hnodes, node_setId] at hid'
    rw [hnodes, (reid_setId _ _ _).tree, hkeys]
    by_cases hij : j = i
    · exact ⟨_, mem_append_right _ (mem_singleton_self _), hij ▸ hs⟩
    · rw [if_neg fun hc => hij hc.1] at hid'
      obtain ⟨x, hx, hsx⟩ := h.stored.only i hi hid'
      exact ⟨x, mem_append_left _ hx, hsx⟩
  · rw [hnodes, length_setId] at hi
    rw [hnodes, node_setId]
    dsimp only
    split_ifs
    · exact .inr (Int.natCast_nonneg _)
    · exact h.ids i hi
  · rw [hbuf, h.infoBuf, h.infoCount, entryBytes_append, Nat.zero_add, entryBytes, entryBytes,
      append_nil]
  · rw [hcount, h.infoCount, length_append, length_singleton]
  · rw [length_append, length_singleton]
    exact hmax
  · rcases mem_append.1 hx with hx | hx
    · exact h.short x hx
    · rw [mem_singleton.1 hx]
      exact hshort
  · rw [map_append, map_singleton, nodup_append]
    refine ⟨h.nodup, nodup_singleton _, fun n hn n' hn' hnn => ?_⟩
    -- the node of an entry is not without one
    rw [mem_singleton.1 hn'] at hnn
    obtain ⟨x, hx, rfl⟩ := mem_map.1 hn
    obtain ⟨l₁, l₂, rfl⟩ := append_of_mem hx
    obtain ⟨i, hsi, hi⟩ := h.stored.found _ (mem_keys.2 ⟨l₁, x, l₂, rfl, rfl⟩)
    rw [hnn] at hsi
    obtain rfl := spells_unique h.plain.toLinked h.plain.tagLen_le hs hsi
    omega

/-- An entry is added at the end, or not at all: its name is too long, there are too many
    entries, or one has the name already. -/
theorem addInfo_spec (h : Filled p l) {ok : Bool}
    (hadd : mppTrieAddInfo p e.1 e.2 = some (p', ok)) :
    p'.name = p.name ∧ Filled p' (if ok then l ++ [e] else l) ∧
      (ok = false → trieMax ≤ strLen e.1 ∨ trieMax ≤ l.length ∨ e.1 ∈ l.map Prod.fst) := by
  rw [mppTrieAddInfo] at hadd
  split_ifs at hadd with hlong
  · obtain ⟨rfl, rfl⟩ := Prod.mk.inj (some.inj hadd)
    exact ⟨rfl, h, fun _ => .inl hlong⟩
  · split at hadd
    · rename_i hprep
      obtain ⟨rfl, rfl⟩ := Prod.mk.inj (some.inj hadd)
      refine ⟨rfl, h, fun _ => .inr (.inl ?_)⟩
      rw [triePrepareBuf] at hprep
      split_ifs at hprep with hmax
      exact h.infoCount ▸ hmax
    · rename_i p₁ hprep
      obtain ⟨hmax, heq⟩ := prepareBuf_eq hprep
      have h₁ : Filled p₁ l := by
        rw [heq]
        exact ⟨h.plain, h.stored, h.ids, h.infoBuf, h.infoCount, h.count_le, h.short, h.nodup⟩
      obtain ⟨⟨p₂, j⟩, hpave, hadd⟩ := bind_eq_some_iff.1 hadd
      obtain ⟨hp, hj, hs⟩ := pave_spec h₁.plain hpave
      have h₂ := h₁.paved hp
      have hname : p₂.name = p.name := by
        rw [hp.eq, heq]
      dsimp only at hadd
      split_ifs at hadd with hid hsize
      · obtain ⟨rfl, rfl⟩ := Prod.mk.inj (some.inj hadd)
        refine ⟨hname, h₂, fun _ => .inr (.inr ?_)⟩
        have hnonneg := (h₂.ids j hj).resolve_left hid
        obtain ⟨x, hx, hsx⟩ := h₂.stored.only j (h₂.plain.live j hj) hnonneg
        obtain ⟨l₁, e', l₂, rfl, rfl⟩ := mem_keys.1 hx
        have hnib := hsx.inj h₂.plain.wired hs
        have hnm : e'.1 = e.1 := Subtype.ext (nibbles_injective hnib)
        exact mem_map.2 ⟨e', by simp, hnm⟩
      · obtain ⟨rfl, rfl⟩ := Prod.mk.inj (some.inj hadd)
        refine ⟨hname, ?_, fun hc => absurd hc (by decide)⟩
        exact h₂.add hj hs (not_not.1 hid) (not_le.1 hlong) (h.infoCount ▸ hmax) rfl rfl rfl

/-! ## Runs -/

/-- A trie that is made by calls, of which those for the entries `l` succeed. -/
inductive Built (name : CName) : MppTrieImpl → List Entry → Prop
  | init : Built name (mppTrieInit name) []
  | add {p p' : MppTrieImpl} {l : List Entry} {e : Entry} {ok : Bool} :
      Built name p l → mppTrieAddInfo p e.1 e.2 = some (p', ok) →
        Built name p' (if ok then l ++ [e] else l)

theorem Built.filled (h : Built name p l) : Filled p l := by
  induction h with
  | init => exact filled_init name
  | add _ hadd ih => exact (addInfo_spec ih hadd).2.1

theorem Built.name_eq (h : Built name p l) : p.name = (mppTrieInit name).name := by
  induction h with
  | init => rfl
  | add hb hadd ih => exact (addInfo_spec hb.filled hadd).1.trans ih

end Libmpp.Trie
