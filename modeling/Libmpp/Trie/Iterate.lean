import Libmpp.Trie.Seal

/-!
# Sealed tries

A sealed trie is read by a name (`mppTrieGetInfo`), or from the first entry on, each entry
leading to the next one (`visit`). When no length of an entry is cut off in its header, and
no node is merged into the root, both ways lead to the entries that were added, with their names and
contexts (`sealTrie_lookup`, `sealTrie_iterates`).
-/

namespace Libmpp.Trie

open List Option

/-- What `MppTrieImpl` has of a trie that is sealed or imported. -/
structure SealedTrie where
  root : TrieRoot
  /-- The bytes from the name on. -/
  name : List UInt8
  nodeUsed : ℕ
  infoCount : ℕ

/-- The trie that `mpp_trie_last_info` leaves. -/
def sealTrie (p : MppTrieImpl) : Option SealedTrie := do
  let q ← addSelf p
  let root ← copyRoot q
  let root ← patchNode root
  some { root, name := q.name, nodeUsed := root.nodes.length, infoCount := q.infoCount }

/-- A string in memory, up to its NUL. -/
def cString (l : List UInt8) : List UInt8 := l.takeWhile (· ≠ 0)

/-- The string at `mpp_trie_info_name`. -/
def mppTrieInfoName (r : TrieRoot) (off : ℕ) : List UInt8 := cString (r.from (off + headerSize))

/-- `mpp_trie_get_info_first` -/
def mppTrieGetInfoFirst (t : SealedTrie) : ℕ := t.nodeUsed * nodeSize

/-- `mpp_trie_get_info_next`, which is null behind the last entry. -/
def mppTrieGetInfoNext (t : SealedTrie) (off : ℕ) : Option (Option ℕ) :=
  (readInfo (t.root.from off)).map fun info =>
    if t.infoCount ≤ info.index + 1 then none else some (off + info.size)

/-- The entries from one on, when the last one is among the next `n`. -/
def visit (t : SealedTrie) : ℕ → ℕ → Option (List ℕ)
  | 0, _ => none
  | n + 1, off =>
    match mppTrieGetInfoNext t off with
    | none => none
    | some none => some [off]
    | some (some next) => (visit t n next).map (off :: ·)

/-! ## Reading an entry -/

theorem cString_append {l : List UInt8} (h : 0 ∉ l) (rest : List UInt8) :
    cString (l ++ 0 :: rest) = l := by
  have hl : ∀ b ∈ l, decide (b ≠ 0) = true := fun b hb =>
    decide_eq_true fun hb0 => h (hb0 ▸ hb)
  rw [cString, takeWhile_append_of_pos hl, takeWhile_cons_of_neg (by simp),
    append_nil]

/-- The entry `e` with the index `i` stands at an offset. -/
structure Reads (r : TrieRoot) (off i : ℕ) (e : Entry) : Prop where
  header : readInfo (r.from off) =
    some { index := i, ctxLen := ctxLen e.2, strLen := strLen e.1 }
  name : mppTrieInfoName r off = e.1.val
  ctx : ∃ c, mppTrieInfoCtx r off = some c ∧ (r.from c).take e.2.length = e.2

variable {r : TrieRoot}

theorem TrieRoot.from_add {off : ℕ} (h : r.nodesSize ≤ off) (n : ℕ) :
    r.from (off + n) = (r.from off).drop n := by
  rw [TrieRoot.from, TrieRoot.from, if_pos h, if_pos (h.trans (Nat.le_add_right _ _)),
    drop_drop, Nat.sub_add_comm h]

variable {l₁ l₂ : List Entry} {e : Entry}

/-- The bytes of the name of a sealed entry. -/
theorem Sealed.from_name (h : Sealed r (l₁ ++ e :: l₂)) :
    ∃ rest, r.from (r.nodesSize + sizes l₁ + headerSize) = pad (strLen e.1) e.1.val ++ rest ∧
      pad (ctxLen e.2) e.2 <+: rest := by
  obtain ⟨n, hfrom⟩ := h.from_entry
  have hhead : (infoHeader l₁.length (ctxLen e.2) (strLen e.1)).length = headerSize := rfl
  rw [entryBytes, infoBytes, append_assoc, append_assoc, append_assoc] at hfrom
  refine ⟨pad (ctxLen e.2) e.2 ++ (entryBytes (l₁.length + 1) l₂ ++ List.replicate n 0), ?_,
    prefix_append _ _⟩
  rw [TrieRoot.from_add (Nat.le_add_right _ _), hfrom, drop_left' hhead]

/-- A sealed entry is read back. -/
theorem Sealed.reads (h : Sealed r (l₁ ++ e :: l₂)) :
    Reads r (r.nodesSize + sizes l₁) l₁.length e := by
  obtain ⟨n, hfrom⟩ := h.from_entry
  have hrep := h.representable e (by simp)
  have hi : l₁.length < 2 ^ 12 := by
    have := h.count_le
    rw [length_append, length_cons] at this
    have hmax : trieMax = 2 ^ 12 := rfl
    omega
  have hlt := name_lt_strLen (h.short e (by simp))
  have hle := Nat.le_add_right r.nodesSize (sizes l₁)
  obtain ⟨rest, hname, ctxRest, hctx⟩ := h.from_name
  rw [entryBytes, append_assoc] at hfrom
  have hread := readInfo_entry hi hrep (entryBytes (l₁.length + 1) l₂ ++ List.replicate n 0)
  rw [← hfrom] at hread
  refine ⟨hread, ?_, ?_⟩
  · -- a name ends before the bytes it is given do
    obtain ⟨k, hk⟩ : ∃ k, strLen e.1 - e.1.val.length = k + 1 :=
      ⟨strLen e.1 - e.1.val.length - 1, by omega⟩
    rw [mppTrieInfoName, hname, pad, hk, replicate_succ, append_assoc, cons_append]
    exact cString_append e.1.2 _
  · refine ⟨r.nodesSize + sizes l₁ + headerSize + strLen e.1, ?_, ?_⟩
    · rw [mppTrieInfoCtx, hread, map_some]
    · rw [TrieRoot.from_add (hle.trans (Nat.le_add_right _ _)), hname,
        drop_left' (length_pad hlt.le), ← hctx, pad, append_assoc, take_left]

variable {t : SealedTrie}

/-- The next entry, if there is one. -/
theorem Sealed.next (h : Sealed t.root (l₁ ++ e :: l₂))
    (hcount : t.infoCount = (l₁ ++ e :: l₂).length) :
    mppTrieGetInfoNext t (t.root.nodesSize + sizes l₁) =
      some (if l₂ = [] then none else some (t.root.nodesSize + sizes (l₁ ++ [e]))) := by
  have hsize : MppTrieInfo.size ⟨l₁.length, ctxLen e.2, strLen e.1⟩ = e.size := rfl
  rw [length_append, length_cons] at hcount
  rw [mppTrieGetInfoNext, h.reads.header, map_some, hsize, hcount]
  dsimp only
  by_cases hl : l₂ = []
  · rw [hl, length_nil, if_pos (by omega), if_pos rfl]
  · have hlen := length_pos_iff.2 hl
    rw [if_neg (by omega), if_neg hl, sizes_append, sizes_cons, sizes_nil, Nat.add_zero,
      Nat.add_assoc]

/-- From an entry on, the next ones are visited in order, up to the last. -/
theorem Sealed.visit (h : Sealed t.root (l₁ ++ l₂)) (hcount : t.infoCount = (l₁ ++ l₂).length)
    (hne : l₂ ≠ []) :
    visit t l₂.length (t.root.nodesSize + sizes l₁) =
      some ((keys (t.root.nodesSize + sizes l₁) l₂).map Prod.snd) := by
  induction l₂ generalizing l₁ with
  | nil => exact absurd rfl hne
  | cons e l ih =>
    rw [length_cons, Trie.visit, h.next hcount]
    by_cases hl : l = []
    · rw [if_pos hl, hl]
      rfl
    · have hsplit : l₁ ++ e :: l = (l₁ ++ [e]) ++ l := by rw [append_assoc]; rfl
      have hrest := ih (hsplit ▸ h) (hsplit ▸ hcount) hl
      have hoff : t.root.nodesSize + sizes (l₁ ++ [e]) = t.root.nodesSize + sizes l₁ + e.size := by
        rw [sizes_append, sizes_cons, sizes_nil, Nat.add_zero, Nat.add_assoc]
      rw [if_neg hl]
      dsimp only
      rw [hrest, map_some, hoff]
      rfl

/-! ## What sealing leaves -/

/-- The condition for sealing, of a trie with the entries `l` that is `q` with those of its
    own: nothing is cut off, and the node count goes to no other entry, also where there are too
    many for that of the trie itself. -/
structure Regular (name : CName) (q : MppTrieImpl) (l : List Entry) : Prop where
  root : (q.nodes.node 0).Kept
  findable : ∀ e ∈ l, Findable q.nodes e.1
  representable : ∀ e ∈ l, e.Representable
  count : l.length + 3 ≤ trieMax ∨
    ∀ e ∈ l, ¬Mistaken (nibbles nodeName.val) (nibbles e.1.val)
  nodeName : nodeName ∉ l.map Prod.fst
  name : nameName ∈ l.map Prod.fst ∨ name.val.length < 4092

/-- The entries of the trie `t` itself, behind `n` others: some of these, as one may have the
    name of another entry. -/
def selfEntries (t : SealedTrie) (n : ℕ) : List Entry :=
  [(nameName, t.name), (infoName, le32 (n + 3)), (nodeName, le32 t.nodeUsed)]

/-- A trie is sealed, with its own entries behind the others. -/
structure SealedWith (t : SealedTrie) (l s : List Entry) : Prop where
  sealed : Sealed t.root (l ++ s)
  nodeUsed : t.nodeUsed = t.root.nodes.length
  infoCount : t.infoCount = (l ++ s).length
  self : s.Sublist (selfEntries t l.length)
  named : l.length + 3 ≤ trieMax →
    ∀ name ∈ [nameName, infoName, nodeName], name ∈ (l ++ s).map Prod.fst

variable {l s : List Entry}

/-- The last entry is that of the node count, when it is there. -/
theorem eq_append_nodeName {a b : Entry} {ctx : List UInt8}
    (hs : s.Sublist [a, b, (nodeName, ctx)]) :
    s.Sublist [a, b] ∨ ∃ s', s'.Sublist [a, b] ∧ s = s' ++ [(nodeName, ctx)] := by
  obtain ⟨s₁, s₂, rfl, hs₁, hs₂⟩ := sublist_append_iff.1
    (show s.Sublist ([a, b] ++ [(nodeName, ctx)]) from hs)
  rcases sublist_singleton.1 hs₂ with rfl | rfl
  · exact .inl (by rwa [append_nil])
  · exact .inr ⟨s₁, hs₁, rfl⟩

/-- The names of the other entries of the trie itself are not taken for that of the node count. -/
theorem not_mistaken_self {name : CName} (h : name ∈ [nameName, infoName]) :
    ¬Mistaken (nibbles nodeName.val) (nibbles name.val) := by
  have hsuffix : ∀ name ∈ [nameName, infoName], ∀ v ∈ (nibbles nodeName.val).tails, v ≠ [] →
      v <+: nibbles name.val → v <+: nibbles nodeName.val ∧
        ¬(nibbles name.val <+: nibbles nodeName.val ∨ v = nibbles nodeName.val) := by
    decide
  have hzero : ∀ name ∈ [nameName, infoName], 0 ∉ nibbles name.val ∧ nibbles name.val ≠ [] ∧
      ¬nibbles name.val <:+ nibbles nodeName.val := by
    decide
  rintro (hnil | ⟨v, hne, hv, ⟨hpre, hor⟩ | ⟨u, u', n, rfl, hx⟩⟩)
  · exact (hzero name h).2.1 hnil
  · obtain ⟨hpre', hnot⟩ := hsuffix name h v ((mem_tails _ _).2 hv) hne hpre
    exact hnot (hor hpre')
  · cases n with
    | zero =>
      rw [replicate_zero, append_nil] at hx
      exact (hzero name h).2.2 (hx ▸ hv)
    | succ n => exact (hzero name h).1 (by rw [hx]; simp)

theorem sealTrie_spec {name : CName} {p q : MppTrieImpl} (h : Built name p l)
    (hself : addSelf p = some q) (hr : Regular name q l) :
    ∃ t s, sealTrie p = some t ∧ t.name = p.name ∧ SealedWith t l s := by
  obtain ⟨hq, s, n, hs, hfilled, hnamed⟩ := addSelf_spec h.filled hself
  have hnew := representable_self h hs hfilled.nodup hr.name
  obtain ⟨r, hroot, hsealed⟩ := copyRoot_spec hfilled ⟨hr.root,
    fun e he => (mem_append.1 he).elim (hr.findable e) fun he => .inl (hnew e he).2,
    fun e he => (mem_append.1 he).elim (hr.representable e) fun he => (hnew e he).1⟩
  have hcount := hfilled.infoCount
  rcases eq_append_nodeName hs with hs' | ⟨s, hs', rfl⟩
  · -- the node count has no entry
    have hmem : nodeName ∉ (l ++ s).map Prod.fst := by
      rw [map_append, mem_append, not_or]
      refine ⟨hr.nodeName, fun hmem => ?_⟩
      have hmem : nodeName ∈ [nameName, infoName] := (hs'.map Prod.fst).subset hmem
      exact absurd hmem (by decide)
    have hnot := hr.count.resolve_left fun hle => hmem (hnamed hle nodeName (by simp))
    have hpatch := hsealed.patchNode_none fun e he => (mem_append.1 he).elim (hnot e) fun he =>
      not_mistaken_self ((hs'.map Prod.fst).subset (mem_map_of_mem he))
    refine ⟨{ root := r, name := q.name, nodeUsed := r.nodes.length, infoCount := q.infoCount },
      s, ?_, hq, hsealed, rfl, hcount, ?_, hnamed⟩
    · rw [sealTrie, hself, bind_eq_bind, bind_some, hroot, bind_eq_bind, bind_some, hpatch]
      rfl
    · rw [selfEntries, hq]
      exact hs'.trans (sublist_append_left _ [_])
  · rw [← append_assoc] at hsealed
    obtain ⟨r', hpatch, hnodes, hsealed'⟩ := patchNode_spec hsealed (length_le32 n)
    refine ⟨{ root := r', name := q.name, nodeUsed := r'.nodes.length, infoCount := q.infoCount },
      s ++ [(nodeName, le32 r.nodes.length)], ?_, hq, ?_, rfl, ?_, ?_, fun hle x hx => ?_⟩
    · rw [sealTrie, hself, bind_eq_bind, bind_some, hroot, bind_eq_bind,
        bind_some, hpatch]
      rfl
    · rw [← append_assoc]
      exact hsealed'
    · simp only [hcount, length_append, length_singleton]
    · rw [selfEntries, hq, hnodes]
      exact hs'.append (List.Sublist.refl _)
    · have := hnamed hle x hx
      simp only [map_append, map_cons, map_nil] at this ⊢
      exact this

/-! ## Lookup and iteration -/

/-- Each entry is found by its name and read back, and no two names have the same entry. -/
structure LooksUp (r : TrieRoot) (l : List Entry) : Prop where
  found : ∀ l₁ e l₂, l = l₁ ++ e :: l₂ →
    ∃ off, mppTrieGetInfo r e.1 = some off ∧ Reads r off l₁.length e
  inj : ∀ e ∈ l, ∀ e' ∈ l, mppTrieGetInfo r e.1 = mppTrieGetInfo r e'.1 → e = e'

/-- The entries are visited in order, each once, and read back. -/
structure Iterates (t : SealedTrie) (l : List Entry) : Prop where
  visited : visit t l.length (mppTrieGetInfoFirst t) =
    some ((keys (mppTrieGetInfoFirst t) l).map Prod.snd)
  reads : ∀ l₁ e l₂, l = l₁ ++ e :: l₂ →
    Reads t.root (mppTrieGetInfoFirst t + sizes l₁) l₁.length e

theorem SealedWith.first_eq (h : SealedWith t l s) : mppTrieGetInfoFirst t = t.root.nodesSize := by
  rw [mppTrieGetInfoFirst, h.nodeUsed, TrieRoot.nodesSize]

theorem SealedWith.iterates (h : SealedWith t l s) : Iterates t (l ++ s) := by
  have hne : l ++ s ≠ [] := by
    intro hnil
    have := h.named (by rw [(append_eq_nil_iff.1 hnil).1]; decide) nameName (by simp)
    rw [hnil] at this
    exact absurd this not_mem_nil
  have hsealed : Sealed t.root ([] ++ (l ++ s)) := h.sealed
  refine ⟨?_, fun l₁ e l₂ hsplit => ?_⟩
  · rw [h.first_eq]
    exact hsealed.visit h.infoCount hne
  · rw [h.first_eq]
    exact Sealed.reads (hsplit ▸ h.sealed)

theorem Sealed.looksUp (h : Sealed r (l ++ s)) (hne : ∀ e ∈ l, e.1.val ≠ []) : LooksUp r l := by
  have hfound : ∀ l₁ e l₂, l = l₁ ++ e :: l₂ →
      ∃ off, mppTrieGetInfo r e.1 = some off ∧ Reads r off l₁.length e := by
    rintro l₁ e l₂ rfl
    rw [append_assoc, cons_append] at h
    exact ⟨_, h.getInfo (hne e (by simp)), h.reads⟩
  refine ⟨hfound, fun e he e' he' heq => ?_⟩
  obtain ⟨l₁, l₂, hsplit⟩ := append_of_mem he
  obtain ⟨l₁', l₂', hsplit'⟩ := append_of_mem he'
  obtain ⟨off, hoff, hreads⟩ := hfound l₁ e l₂ hsplit
  obtain ⟨off', hoff', hreads'⟩ := hfound l₁' e' l₂' hsplit'
  obtain rfl : off = off' := some.inj (hoff.symm.trans (heq.trans hoff'))
  -- the name at an offset is the one of a single entry
  have hname : e.1 = e'.1 := Subtype.ext (hreads.name.symm.trans hreads'.name)
  have hnodup := h.nodup
  rw [map_append, nodup_append] at hnodup
  exact inj_on_of_nodup_map hnodup.1 he he' hname

/-- The iteration over a sealed trie visits the entries that were added, and then those of the
    trie itself. -/
theorem sealTrie_iterates {name : CName} {p q : MppTrieImpl} {l : List Entry}
    (h : Built name p l) (hself : addSelf p = some q) (hr : Regular name q l) :
    ∃ t s, sealTrie p = some t ∧ t.name = p.name ∧ s.Sublist (selfEntries t l.length) ∧
      Iterates t (l ++ s) := by
  obtain ⟨t, s, ht, hname, hsealed⟩ := sealTrie_spec h hself hr
  exact ⟨t, s, ht, hname, hsealed.self, hsealed.iterates⟩

/-- One letter, and the entries of the trie itself. -/
theorem sealTrie_iterates_letter :
    ∃ p t s, Built nameName p [(aName, [1])] ∧ sealTrie p = some t ∧
      Iterates t ([(aName, [1])] ++ s) := by
  obtain ⟨p, q, hbuilt, hself, hroot⟩ := built_letter
  have hne : ∀ e ∈ [(aName, [(1 : UInt8)])], e.1.val ≠ [] := by decide
  obtain ⟨t, s, ht, -, -, hit⟩ := sealTrie_iterates hbuilt hself
    ⟨.inl hroot, fun e he => .inl (hne e he), by decide, .inl (by decide), by decide,
      .inr (by decide)⟩
  exact ⟨p, t, s, hbuilt, ht, hit⟩

/-- The word that follows the name of an entry. -/
def wordAt (r : TrieRoot) (off : ℕ) : Option ℕ :=
  (mppTrieInfoCtx r off).bind fun ctx => readLe32 (r.from ctx)

/-- The entries of the trie itself are there, and the count of entries reads as none. -/
def ReadsNone (r : TrieRoot) : Prop :=
  (mppTrieGetInfo r nameName = some 4104 ∧ (mppTrieInfoCtx r 4104).isSome) ∧
    (mppTrieGetInfo r nodeName = some 4152 ∧ (wordAt r 4152).isSome) ∧
    mppTrieGetInfo r infoName = some 4132 ∧ wordAt r 4132 = some 0

instance (r : TrieRoot) : Decidable (ReadsNone r) :=
  inferInstanceAs (Decidable ((_ ∧ _) ∧ (_ ∧ _) ∧ _ ∧ _))

/-- A context of 4093 bytes that starts with the headers of entries without names. -/
def cutCtx : List UInt8 := [255, 15] ++ List.replicate 14 0 ++ List.replicate 4077 1

theorem length_cutCtx : cutCtx.length = 4093 := by
  rw [cutCtx, length_append, length_append, length_replicate, length_replicate]
  rfl

/-- The context takes 4096 bytes, which are none in the header. -/
theorem built_cut :
    ∃ p q t, Built nameName p [(aName, cutCtx)] ∧ addSelf p = some q ∧
      sealTrie p = some t ∧ mppTrieInfoCtx t.root 392 = some 400 ∧
      (t.root.from 400).take 4093 ≠ cutCtx ∧
      mppTrieGetInfo t.root aName = some 392 ∧ visit t 4 (mppTrieGetInfoFirst t) = some [392, 400] ∧
      t.infoCount = 4 ∧ ReadsNone t.root := by
  have heval : ((mppTrieAddInfo (mppTrieInit nameName) aName cutCtx).bind fun x =>
      if x.2 then (sealTrie x.1).map fun t => (mppTrieInfoCtx t.root 392,
        decide ((t.root.from 400).take 4093 = cutCtx), mppTrieGetInfo t.root aName,
        visit t 4 (mppTrieGetInfoFirst t),
        decide (t.infoCount = 4 ∧ ReadsNone t.root)) else none) =
      some (some 400, false, some 392, some [392, 400], true) := by
    decide +kernel
  obtain ⟨⟨p, ok⟩, hadd, hseal⟩ := bind_eq_some_iff.1 heval
  cases ok with
  | false => exact absurd hseal (by simp)
  | true =>
    obtain ⟨t, ht, hvals⟩ := map_eq_some_iff.1 hseal
    obtain ⟨q, hself, -⟩ := bind_eq_some_iff.1 ht
    simp only [Prod.mk.injEq, decide_eq_false_iff_not, decide_eq_true_eq] at hvals
    obtain ⟨hctx, htake, hget, hvisit, hcount, hnone⟩ := hvals
    exact ⟨p, q, t, Built.add (e := (aName, cutCtx)) .init hadd, hself, ht, hctx,
      htake, hget, hvisit, hcount, hnone⟩

/-- When a length is cut off, an accepted entry is not visited. -/
theorem sealTrie_not_iterates :
    ¬∀ name p l t, Built name p l → sealTrie p = some t →
      (∀ e ∈ l, e.Representable) ∧ ∃ s, t.infoCount = (l ++ s).length ∧ Iterates t (l ++ s) := by
  intro hall
  obtain ⟨p, q, t, hbuilt, -, ht, -, -, -, hvisit, hcount, -⟩ := built_cut
  obtain ⟨-, s, hlen, hit⟩ := hall _ _ _ _ hbuilt ht
  have hvisited := hit.visited
  rw [← hlen, hcount, hvisit] at hvisited
  have hlength := congrArg List.length (some.inj hvisited)
  rw [length_map, length_keys, ← hlen, hcount] at hlength
  exact absurd hlength (by decide)

/-- Each entry of a sealed trie is found by its name, when the first bytes of the names have
    different high halves. Where there are too many for the entries of the trie itself, that of
    `_` does not count. -/
theorem sealTrie_lookup {name : CName} {p q : MppTrieImpl} {l : List Entry}
    (h : Built name p l) (hself : addSelf p = some q) (hne : ∀ e ∈ l, e.1.val ≠ [])
    (hrep : ∀ e ∈ l, e.Representable)
    (hfirst : ∃ e ∈ l, ∃ c u, e.1.val = c :: u ∧ hiNibble c ≠ hiNibble 95)
    (hcount : l.length + 3 ≤ trieMax ∨ 1 < (q.nodes.node 0).nextCnt ∧
      ∀ e ∈ l, ¬Mistaken (nibbles nodeName.val) (nibbles e.1.val))
    (hnode : nodeName ∉ l.map Prod.fst)
    (hname : nameName ∈ l.map Prod.fst ∨ name.val.length < 4092) :
    ∃ t, sealTrie p = some t ∧ LooksUp t.root l := by
  have hroot : 1 < (q.nodes.node 0).nextCnt := by
    obtain ⟨-, s, n, -, hfilled, hnamed⟩ := addSelf_spec h.filled hself
    obtain ⟨a, ha, c, u, hu, hc⟩ := hfirst
    rcases hcount with hcount | ⟨hroot, -⟩
    · obtain ⟨b, hb, hbn⟩ := mem_map.1 (hnamed hcount nameName (by simp))
      exact hfilled.root (mem_append_left s ha) hb hu (congrArg Subtype.val hbn) hc
    · exact hroot
  obtain ⟨t, s, ht, -, hsealed⟩ := sealTrie_spec h hself
    ⟨.inl hroot, fun e he => .inl (hne e he), hrep, hcount.imp id And.right, hnode, hname⟩
  exact ⟨t, ht, hsealed.sealed.looksUp hne⟩

/-- A letter is found. -/
theorem sealTrie_lookup_letter :
    ∃ p t, Built nameName p [(aName, [1])] ∧ sealTrie p = some t ∧
      LooksUp t.root [(aName, [1])] := by
  obtain ⟨p, q, hbuilt, hself, -⟩ := built_letter
  have hfirst : ∃ e ∈ [(aName, [(1 : UInt8)])], ∃ c u, e.1.val = c :: u ∧
      hiNibble c ≠ hiNibble 95 := ⟨_, mem_singleton_self _, 97, [], rfl, by decide⟩
  obtain ⟨t, ht, hlook⟩ := sealTrie_lookup hbuilt hself (by decide) (by decide) hfirst
    (.inl (by decide)) (by decide) (.inr (by decide))
  exact ⟨p, t, hbuilt, ht, hlook⟩

/-- A context of less than 4096 bytes is not read back when they are cut off. -/
theorem sealTrie_not_lookup :
    ¬∀ name p q l, Built name p l → addSelf p = some q → (∀ e ∈ l, e.1.val ≠ []) →
      (∀ e ∈ l, e.1.val.length + 1 < 256 ∧ e.2.length < 4096) →
      (∃ e ∈ l, ∃ c u, e.1.val = c :: u ∧ hiNibble c ≠ hiNibble 95) →
      ∃ t, sealTrie p = some t ∧ LooksUp t.root l := by
  intro hall
  obtain ⟨p, q, t, hbuilt, hself, ht, hctx, htake, hget, -⟩ := built_cut
  have hmem : ∀ e ∈ [(aName, cutCtx)], e = (aName, cutCtx) := fun e he => mem_singleton.1 he
  obtain ⟨t', ht', hlook⟩ := hall _ _ _ _ hbuilt hself
    (fun e he => by rw [hmem e he]; decide)
    (fun e he => by rw [hmem e he, length_cutCtx]; decide)
    ⟨_, mem_singleton_self _, 97, [], rfl, by decide⟩
  obtain rfl := some.inj (ht.symm.trans ht')
  obtain ⟨off, hoff, hreads⟩ := hlook.found [] _ [] rfl
  obtain rfl := some.inj (hget.symm.trans hoff)
  obtain ⟨c, hc, htake'⟩ := hreads.ctx
  obtain rfl := some.inj (hctx.symm.trans hc)
  rw [length_cutCtx] at htake'
  exact htake htake'

end Libmpp.Trie
