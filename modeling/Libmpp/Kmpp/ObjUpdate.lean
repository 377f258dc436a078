import Libmpp.Kmpp.Obj

/-!
# Updating an object by another

The elements of an object lie apart in its entry, and their flags apart in the block after
it (`Laid`), but for one thing: the block is sized by the position of the last flag, not by
the number of bits, so it does not hold a flag that is the first of a new word. Where it
holds all of them, the memory of an object is its elements and which of them are marked:
a set marks an element that it changes, an update takes over what is marked in its source,
with the marks, and clears those there. The marks of its destination are overwritten. In a run
in which none is lost by that (`KeepsMarks`), an update takes over what was set, and nothing
else (`reachable_update`).
-/

namespace Libmpp.Kmpp

open Function List

variable {size : ℤ} {entries : List (Name × KmppEntry)} {m m' dst src : Mem}
  {e e' : KmppEntry} {x : Name × KmppEntry}

/-- The elements and the flags of a definition lie as they should. -/
structure Laid (size : ℤ) (entries : List (Name × KmppEntry)) : Prop where
  nonneg : 0 < size
  inside : ∀ x ∈ entries, (x.2.elemOffset + x.2.elemSize : ℤ) ≤ size
  disjoint : entries.Pairwise fun x y => x.2.elemOffset + x.2.elemSize ≤ y.2.elemOffset ∨
    y.2.elemOffset + y.2.elemSize ≤ x.2.elemOffset
  above : ∀ x ∈ entries, 8 * size ≤ x.2.flagOffset
  own : entries.Pairwise fun x y => x.2.flagOffset ≠ y.2.flagOffset
  /-- The last flag is not the first of a word. -/
  last : ∀ x ∈ entries, (∀ y ∈ entries, y.2.flagOffset ≤ x.2.flagOffset) →
    (x.2.flagOffset - 8 * size) % 32 ≠ 0
  names : (entries.map Prod.fst).Nodup
  /-- No name is one of those the definition adds about itself. -/
  plain : ∀ x ∈ entries, mppTrieInfoIsSelf x.1 = false

/-! ## The definition -/

theorem foldl_addEntry (l : List (Name × KmppEntry)) (d : KmppObjDefImpl) :
    let d' := l.foldl kmppObjdefAddEntry d
    d'.trie = d.trie ++ l ∧ d'.entrySize = d.entrySize ∧ d'.flagOffset = d.flagOffset ∧
      d.flagMaxPos ≤ d'.flagMaxPos ∧ (∀ x ∈ l, (x.2.flagOffset : ℤ) ≤ d'.flagMaxPos) ∧
        (d'.flagMaxPos = d.flagMaxPos ∨ ∃ x ∈ l, d'.flagMaxPos = x.2.flagOffset) := by
  induction l generalizing d with
  | nil => exact ⟨(append_nil _).symm, rfl, rfl, le_rfl, by simp, .inl rfl⟩
  | cons x l ih =>
    obtain ⟨htrie, hentry, hflag, hle, hall, hmax⟩ := ih (kmppObjdefAddEntry d x)
    have hpos : (kmppObjdefAddEntry d x).flagMaxPos = max d.flagMaxPos x.2.flagOffset := by
      rw [kmppObjdefAddEntry]
      dsimp only
      split_ifs with h
      · exact (max_eq_right h.le).symm
      · exact (max_eq_left (not_lt.1 h)).symm
    rw [hpos] at hle hmax
    refine ⟨?_, hentry, hflag, (le_max_left ..).trans hle, ?_, ?_⟩
    · rw [foldl_cons, htrie, kmppObjdefAddEntry, append_assoc]
      rfl
    · intro y hy
      rcases mem_cons.1 hy with rfl | hy
      · exact (le_max_right ..).trans hle
      · exact hall y hy
    · rcases hmax with hmax | ⟨y, hy, hmax⟩
      · rcases max_choice d.flagMaxPos (x.2.flagOffset : ℤ) with h | h
        · exact .inl (hmax.trans h)
        · exact .inr ⟨x, mem_cons_self, hmax.trans h⟩
      · exact .inr ⟨y, mem_cons_of_mem x hy, hmax⟩

@[simp] theorem trie_objdef : (objdef size entries).trie = entries := by
  obtain ⟨htrie, -⟩ := foldl_addEntry entries (kmppObjdefRegister size)
  rw [objdef, createObjdefMemPool]
  split_ifs <;> exact htrie

@[simp] theorem entrySize_objdef : (objdef size entries).entrySize = size := by
  obtain ⟨-, hentry, -⟩ := foldl_addEntry entries (kmppObjdefRegister size)
  rw [objdef, createObjdefMemPool]
  split_ifs <;> exact hentry

/-- The block of the flags is after the entry, and holds the flags. -/
theorem Laid.block (h : Laid size entries) (hne : entries ≠ []) :
    (objdef size entries).flagOffset = size ∧ kmppObjToFlagsSize (objdef size entries) ≠ 0 ∧
      ∀ x ∈ entries, size ≤ x.2.flagOffset / 8 ∧
        (x.2.flagOffset : ℤ) / 8 < size + kmppObjToFlagsSize (objdef size entries) := by
  obtain ⟨-, hentry, -, -, hall, hmax⟩ := foldl_addEntry entries (kmppObjdefRegister size)
  set d := entries.foldl kmppObjdefAddEntry (kmppObjdefRegister size) with hd
  obtain ⟨x₀, hx₀⟩ := exists_mem_of_ne_nil entries hne
  have hsize := h.nonneg
  have hx₀le := hall x₀ hx₀
  have hx₀above := h.above x₀ hx₀
  have hzero : (kmppObjdefRegister size).flagMaxPos = 0 := rfl
  obtain ⟨x, hx, hmax⟩ := hmax.resolve_left (by omega)
  -- the position of the last flag
  have hlast := h.last x hx fun y hy => by
    have := hall y hy
    omega
  have habove := h.above x hx
  have hdef : objdef size entries =
      { d with flagOffset := size, flagMaxPos := mppAlign d.flagMaxPos 8 } := by
    rw [objdef, ← hd, createObjdefMemPool, if_pos (by omega), hentry]
    rfl
  have hflags : kmppObjToFlagsSize (objdef size entries) =
      (((x.2.flagOffset : ℤ) + 7) / 8 - size + 3) / 4 * 4 := by
    have hpos : mppAlign d.flagMaxPos 8 ≠ 0 := by
      rw [mppAlign]
      omega
    rw [hdef, kmppObjToFlagsSize, if_pos hpos]
    dsimp only [mppAlign]
    omega
  refine ⟨by rw [hdef], by omega, fun y hy => ?_⟩
  have hyle := hall y hy
  have hyabove := h.above y hy
  omega

/-! ## Memory -/

/-- Two bytes of memory, and what is read of them. -/
theorem elem_congr (h : ∀ k, e.elemOffset ≤ k → k < e.elemOffset + e.elemSize → m k = m' k) :
    elem e m = elem e m' := by
  refine map_congr_left fun i hi => h _ (Nat.le_add_right ..) ?_
  exact Nat.add_lt_add_left (mem_range.1 hi) _

theorem entryTestFlag_congr (h : m (e.flagOffset / 8) = m' (e.flagOffset / 8)) :
    entryTestFlag e m = entryTestFlag e m' := by
  rw [entryTestFlag, entryTestFlag, h]

theorem memcpy_of_mem {offset size : ℤ} {k : ℕ} (h : offset ≤ k ∧ (k : ℤ) < offset + size) :
    memcpy dst src offset size k = src k := if_pos h

theorem memcpy_of_notMem {offset size : ℤ} {k : ℕ} (h : ¬(offset ≤ k ∧ (k : ℤ) < offset + size)) :
    memcpy dst src offset size k = dst k := if_neg h

/-- What is written is read. -/
theorem readAt_writeAt (offset : ℕ) (val : List Byte) :
    readAt (writeAt m offset val) offset val.length = val := by
  refine ext_getElem (by simp [readAt]) fun i hi hi' => ?_
  simp only [readAt, getElem_map, getElem_range, writeAt]
  rw [if_pos ⟨Nat.le_add_right .., Nat.add_lt_add_left hi' _⟩, Nat.add_sub_cancel_left,
    getD_eq_getElem _ _ hi']

/-- A flag is set, and no other bit changes. -/
theorem entryTestFlag_setFlag : entryTestFlag e' (entrySetFlag e m) =
    (entryTestFlag e' m || decide (e'.flagOffset = e.flagOffset)) := by
  rw [entryTestFlag, entrySetFlag, update_apply]
  split_ifs with hbyte
  · rw [BitVec.getLsbD_or, BitVec.getLsbD_twoPow, entryTestFlag, hbyte]
    have hlt : e.flagOffset % 8 < 8 := Nat.mod_lt _ (by norm_num)
    have hiff : e.flagOffset % 8 = e'.flagOffset % 8 ↔ e'.flagOffset = e.flagOffset := by omega
    simp [hlt, hiff]
  · have hne : e'.flagOffset ≠ e.flagOffset := fun heq => hbyte (by rw [heq])
    simp [hne, entryTestFlag]

/-! ## One object -/

section

variable (h : Laid size entries)

include h

variable {y : Name × KmppEntry}

/-- The flags are after the elements. -/
theorem Laid.lt_flag (hx : x ∈ entries) (hy : y ∈ entries) {k : ℕ}
    (hk : k < x.2.elemOffset + x.2.elemSize) : k < y.2.flagOffset / 8 := by
  have hin := h.inside x hx
  have habove := h.above y hy
  omega

/-- An entry is the one with its flag. -/
theorem Laid.eq_of_flag (hx : x ∈ entries) (hy : y ∈ entries)
    (hflag : x.2.flagOffset = y.2.flagOffset) : x = y := by
  have : Std.Symm fun x y : Name × KmppEntry => x.2.flagOffset ≠ y.2.flagOffset :=
    ⟨fun _ _ hxy => hxy.symm⟩
  by_contra hne
  exact h.own.forall hx hy hne hflag

/-- Different elements are apart. -/
theorem Laid.apart (hx : x ∈ entries) (hy : y ∈ entries) (hne : x ≠ y) :
    x.2.elemOffset + x.2.elemSize ≤ y.2.elemOffset ∨
      y.2.elemOffset + y.2.elemSize ≤ x.2.elemOffset := by
  have : Std.Symm fun x y : Name × KmppEntry =>
      x.2.elemOffset + x.2.elemSize ≤ y.2.elemOffset ∨
        y.2.elemOffset + y.2.elemSize ≤ x.2.elemOffset := ⟨fun _ _ hxy => hxy.symm⟩
  exact h.disjoint.forall hx hy hne

/-- Setting a flag leaves the elements alone. -/
theorem Laid.elem_setFlag (hx : x ∈ entries) (hy : y ∈ entries) :
    elem x.2 (entrySetFlag y.2 m) = elem x.2 m :=
  elem_congr fun _ _ hk => update_of_ne (h.lt_flag hx hy hk).ne ..

/-- A set writes the element, and marks it when it changes. -/
theorem Laid.implSet (hx : x ∈ entries) {val : List Byte} (hval : val.length = x.2.elemSize) (hy : y ∈ entries) :
    elem y.2 (kmppObjImplSet x.2 m val) = (if y = x then val else elem y.2 m) ∧
      entryTestFlag y.2 (kmppObjImplSet x.2 m val) =
        (entryTestFlag y.2 m || decide (y = x ∧ elem x.2 m ≠ val)) := by
  have hwrite : elem y.2 (writeAt m x.2.elemOffset val) = if y = x then val else elem y.2 m := by
    split_ifs with hyx
    · subst hyx
      rw [elem, ← hval]
      exact readAt_writeAt ..
    · refine elem_congr fun k hk hk' => if_neg ?_
      have := h.apart hy hx hyx
      omega
  have hflag : entryTestFlag y.2 (writeAt m x.2.elemOffset val) = entryTestFlag y.2 m := by
    refine entryTestFlag_congr (if_neg fun hk => ?_)
    have := h.lt_flag hx hy (hval ▸ hk.2)
    omega
  have hne : x.2.flagOffset ≠ 0 := by
    have := h.above x hx
    have := h.nonneg
    omega
  have hread : readAt m x.2.elemOffset val.length = elem x.2 m := by rw [hval, elem]
  rw [kmppObjImplSet, if_neg hne, hread]
  by_cases hold : elem x.2 m ≠ val
  · rw [if_pos hold]
    refine ⟨(h.elem_setFlag hy hx).trans hwrite, ?_⟩
    have hiff : y.2.flagOffset = x.2.flagOffset ↔ y = x :=
      ⟨h.eq_of_flag hy hx, fun hyx => by rw [hyx]⟩
    rw [entryTestFlag_setFlag, hflag]
    simp [hiff, hold]
  · rw [if_neg hold]
    refine ⟨hwrite, ?_⟩
    rw [hflag]
    simp [not_not.1 hold]

/-- The copy of one element. -/
theorem Laid.copyElem (hx : x ∈ entries) (hy : y ∈ entries) :
    elem y.2 (memcpy dst src x.2.elemOffset x.2.elemSize) =
        (if y = x then elem y.2 src else elem y.2 dst) ∧
      entryTestFlag y.2 (memcpy dst src x.2.elemOffset x.2.elemSize) =
        entryTestFlag y.2 dst := by
  constructor
  · split_ifs with hyx
    · subst hyx
      exact elem_congr fun k hk hk' => memcpy_of_mem (by omega)
    · refine elem_congr fun k hk hk' => memcpy_of_notMem ?_
      have := h.apart hy hx hyx
      omega
  · refine entryTestFlag_congr (memcpy_of_notMem fun hk => ?_)
    have hlt : y.2.flagOffset / 8 < x.2.elemOffset + x.2.elemSize := by omega
    exact lt_irrefl _ (h.lt_flag hx hy hlt)

/-- The loop takes over the elements that are marked in the source, and no flag. -/
theorem Laid.updateElems (hy : y ∈ entries) :
    elem y.2 (updateElems (objdef size entries) dst src) =
        (if entryTestFlag y.2 src then elem y.2 src else elem y.2 dst) ∧
      entryTestFlag y.2 (updateElems (objdef size entries) dst src) = entryTestFlag y.2 dst := by
  -- each step of the loop, for the entries there are
  have hloop : ∀ l : List (Name × KmppEntry), (∀ x ∈ l, x ∈ entries) → ∀ m : Mem,
      let m' := l.foldl (fun m x =>
        if mppTrieInfoIsSelf x.1 then m
        else if x.2.flagOffset ≠ 0 ∧ entryTestFlag x.2 src then
          memcpy m src x.2.elemOffset x.2.elemSize
        else m) m
      elem y.2 m' = (if y ∈ l ∧ entryTestFlag y.2 src then elem y.2 src else elem y.2 m) ∧
        entryTestFlag y.2 m' = entryTestFlag y.2 m := by
    intro l
    induction l with
    | nil =>
      intro _ m
      exact ⟨by simp, rfl⟩
    | cons x l ih =>
      intro hl m
      have hx := hl x mem_cons_self
      have hne : x.2.flagOffset ≠ 0 := by
        have := h.above x hx
        have := h.nonneg
        omega
      have hstep := ih (fun z hz => hl z (mem_cons_of_mem x hz))
      rw [foldl_cons, if_neg (by rw [h.plain x hx]; simp)]
      by_cases hflag : entryTestFlag x.2 src
      · rw [if_pos ⟨hne, hflag⟩]
        obtain ⟨helem, htest⟩ := hstep (memcpy m src x.2.elemOffset x.2.elemSize)
        obtain ⟨hcopy, hcopyFlag⟩ := @Laid.copyElem _ _ m src _ h _ hx hy
        refine ⟨helem.trans ?_, htest.trans hcopyFlag⟩
        rw [hcopy]
        by_cases hyx : y = x
        · subst hyx
          simp [hflag]
        · simp [hyx]
      · rw [if_neg fun hc => hflag hc.2]
        obtain ⟨helem, htest⟩ := hstep m
        refine ⟨helem.trans ?_, htest⟩
        by_cases hyx : y = x
        · subst hyx
          simp [hflag]
        · simp [hyx]
  obtain ⟨helem, htest⟩ := hloop entries (fun _ hx => hx) dst
  rw [Kmpp.updateElems, trie_objdef]
  exact ⟨helem.trans (by simp [hy]), htest⟩

/-- The copy of the block of flags. -/
theorem Laid.copyFlags (hy : y ∈ entries) :
    let m := memcpy dst src (objdef size entries).flagOffset
      (kmppObjToFlagsSize (objdef size entries))
    elem y.2 m = elem y.2 dst ∧ entryTestFlag y.2 m = entryTestFlag y.2 src := by
  obtain ⟨hoffset, -, hblock⟩ := h.block (ne_nil_of_mem hy)
  have hin := h.inside y hy
  obtain ⟨hle, hlt⟩ := hblock y hy
  dsimp only
  rw [hoffset]
  constructor
  · refine elem_congr fun k _ hk => memcpy_of_notMem fun hc => ?_
    omega
  · exact entryTestFlag_congr (memcpy_of_mem (by push_cast; exact ⟨hle, hlt⟩))

/-- The copy of the entry. -/
theorem Laid.copyEntry (hy : y ∈ entries) :
    let m := memcpy dst src 0 (objdef size entries).entrySize
    elem y.2 m = elem y.2 src ∧ entryTestFlag y.2 m = entryTestFlag y.2 dst := by
  have hin := h.inside y hy
  have habove := h.above y hy
  rw [entrySize_objdef]
  constructor
  · exact elem_congr fun k _ hk => memcpy_of_mem (by omega)
  · refine entryTestFlag_congr (memcpy_of_notMem fun hc => ?_)
    omega

end

/-- No flag is set in zeros. -/
theorem entryTestFlag_zero (e : KmppEntry) : entryTestFlag e (fun _ => 0) = false := by
  rw [entryTestFlag]
  exact BitVec.getLsbD_zero

/-! ## Two objects -/

section

variable (mem : Side → Mem) (d s : Side) (h : Laid size entries)

include h

/-- An update takes over the marked elements, and the marks, which it clears at the source. -/
theorem Laid.update (hx : x ∈ entries) (o : Side) :
    let mem' := kmppObjUpdate (objdef size entries) mem d s
    elem x.2 (mem' o) =
        (if o = d ∧ entryTestFlag x.2 (mem s) then elem x.2 (mem s) else elem x.2 (mem o)) ∧
      entryTestFlag x.2 (mem' o) =
        if o = s then false
        else if o = d then entryTestFlag x.2 (mem s) else entryTestFlag x.2 (mem o) := by
  obtain ⟨hoffset, hsize, -⟩ := h.block (List.ne_nil_of_mem hx)
  have hne : (objdef size entries).flagOffset ≠ 0 := by
    have := h.nonneg
    omega
  rw [kmppObjUpdate]
  dsimp only
  rw [if_pos ⟨hne, hsize⟩, memzero]
  set mem₁ := Function.update mem d (Kmpp.updateElems (objdef size entries) (mem d) (mem s))
    with hmem₁
  -- the elements and the flags after the loop
  have h₁ : ∀ o, elem x.2 (mem₁ o) =
      (if o = d ∧ entryTestFlag x.2 (mem s) then elem x.2 (mem s) else elem x.2 (mem o)) ∧
        entryTestFlag x.2 (mem₁ o) = entryTestFlag x.2 (mem o) := by
    intro o
    by_cases ho : o = d
    · subst ho
      obtain ⟨helem, hflag⟩ := @Laid.updateElems _ _ (mem o) (mem s) h _ hx
      rw [hmem₁, update_self]
      exact ⟨helem.trans (by simp), hflag⟩
    · rw [hmem₁, update_of_ne ho]
      exact ⟨by simp [ho], rfl⟩
  set mem₂ := Function.update mem₁ d (memcpy (mem₁ d) (mem₁ s) (objdef size entries).flagOffset
    (kmppObjToFlagsSize (objdef size entries))) with hmem₂
  -- and after the copy of the flags
  have h₂ : ∀ o, elem x.2 (mem₂ o) = elem x.2 (mem₁ o) ∧ entryTestFlag x.2 (mem₂ o) =
      if o = d then entryTestFlag x.2 (mem s) else entryTestFlag x.2 (mem o) := by
    intro o
    by_cases ho : o = d
    · subst ho
      obtain ⟨helem, hflag⟩ := @Laid.copyFlags _ _ (mem₁ o) (mem₁ s) h _ hx
      rw [hmem₂, update_self]
      exact ⟨helem, hflag.trans ((h₁ s).2.trans (if_pos rfl).symm)⟩
    · rw [hmem₂, update_of_ne ho]
      exact ⟨rfl, (h₁ o).2.trans (if_neg ho).symm⟩
  by_cases ho : o = s
  · subst ho
    obtain ⟨helem, hflag⟩ := @Laid.copyFlags _ _ (mem₂ o) (fun _ => 0) h _ hx
    rw [update_self, if_pos rfl]
    exact ⟨helem.trans ((h₂ o).1.trans (h₁ o).1), hflag.trans (entryTestFlag_zero x.2)⟩
  · rw [update_of_ne ho, if_neg ho]
    exact ⟨(h₂ o).1.trans (h₁ o).1, (h₂ o).2⟩

/-- An update of the entry takes over the marked elements, and no marks. -/
theorem Laid.updateEntry (hx : x ∈ entries) (o : Side) :
    let mem' := kmppObjUpdateEntry (objdef size entries) mem d s
    elem x.2 (mem' o) =
        (if o = d ∧ entryTestFlag x.2 (mem s) then elem x.2 (mem s) else elem x.2 (mem o)) ∧
      entryTestFlag x.2 (mem' o) = entryTestFlag x.2 (mem o) := by
  rw [kmppObjUpdateEntry]
  dsimp only
  by_cases ho : o = d
  · subst ho
    obtain ⟨helem, hflag⟩ := @Laid.updateElems _ _ (mem o) (mem s) h _ hx
    rw [update_self]
    exact ⟨helem.trans (by simp), hflag⟩
  · rw [update_of_ne ho]
    exact ⟨by simp [ho], rfl⟩

/-- The two copies of memory that `kmpp_obj_copy` and `kmpp_obj_copy_entry` make. -/
theorem Laid.copies (hx : x ∈ entries) (flags : Mem) (o : Side) :
    let m := memcpy (mem d) (mem s) 0 (objdef size entries).entrySize
    let mem' := Function.update (Function.update mem d m) d
      (memcpy m flags (objdef size entries).flagOffset (kmppObjToFlagsSize (objdef size entries)))
    elem x.2 (mem' o) = (if o = d then elem x.2 (mem s) else elem x.2 (mem o)) ∧
      entryTestFlag x.2 (mem' o) =
        if o = d then entryTestFlag x.2 flags else entryTestFlag x.2 (mem o) := by
  dsimp only
  by_cases ho : o = d
  · subst ho
    obtain ⟨helem, hflag⟩ := @Laid.copyFlags _ _
      (memcpy (mem o) (mem s) 0 (objdef size entries).entrySize) flags h _ hx
    rw [update_self, if_pos rfl, if_pos rfl]
    exact ⟨helem.trans (h.copyEntry hx).1, hflag⟩
  · rw [update_of_ne ho, update_of_ne ho, if_neg ho, if_neg ho]
    exact ⟨rfl, rfl⟩

/-- A copy takes over the elements and the marks. -/
theorem Laid.copy (hx : x ∈ entries) (o : Side) :
    let mem' := kmppObjCopy (objdef size entries) mem d s
    elem x.2 (mem' o) = (if o = d then elem x.2 (mem s) else elem x.2 (mem o)) ∧
      entryTestFlag x.2 (mem' o) =
        if o = d then entryTestFlag x.2 (mem s) else entryTestFlag x.2 (mem o) := by
  obtain ⟨helem, hflag⟩ := h.copies mem d s hx
    (Function.update mem d (memcpy (mem d) (mem s) 0 (objdef size entries).entrySize) s) o
  rw [kmppObjCopy]
  dsimp only
  rw [update_self]
  refine ⟨helem, hflag.trans ?_⟩
  by_cases hs : s = d
  · rw [hs, update_self, (h.copyEntry hx).2]
  · rw [update_of_ne hs]

/-- A copy of the entry takes over the elements, and clears the marks. -/
theorem Laid.copyEntryOf (hx : x ∈ entries) (o : Side) :
    let mem' := kmppObjCopyEntry (objdef size entries) mem d s
    elem x.2 (mem' o) = (if o = d then elem x.2 (mem s) else elem x.2 (mem o)) ∧
      entryTestFlag x.2 (mem' o) = if o = d then false else entryTestFlag x.2 (mem o) := by
  obtain ⟨helem, hflag⟩ := h.copies mem d s hx (fun _ => 0) o
  rw [entryTestFlag_zero] at hflag
  rw [kmppObjCopyEntry]
  dsimp only [memzero]
  rw [update_self]
  exact ⟨helem, hflag⟩

end

/-! ## Runs -/

/-- The objects, with the elements that were set in each since it was last the source of an
    update, and those that changed in each since its flags were last cleared. -/
structure ObjRun where
  mem : Side → Mem
  sets : Side → Set Name
  changed : Side → Set Name

/-- The elements that are set after an operation. -/
def ObjOp.sets (sets : Side → Set Name) : ObjOp → Side → Set Name
  | .set obj name _ => Function.update sets obj (insert name (sets obj))
  | .update _ src => Function.update sets src ∅
  | _ => sets

/-- The operation clears the flags of an object. -/
def ObjOp.Clears (o : Side) : ObjOp → Prop
  | .update _ src => o = src
  | .copyEntry dst _ => o = dst
  | _ => False

/-- The elements of an object that are changed after an operation that leaves it as `m'`. -/
def ObjOp.changed (entries : List (Name × KmppEntry)) (m m' : Mem) (changed : Set Name) (o : Side)
    (op : ObjOp) : Set Name :=
  {n | ¬op.Clears o ∧ (n ∈ changed ∨ ∃ x ∈ entries, x.1 = n ∧ elem x.2 m' ≠ elem x.2 m)}

/-- What an operation of two objects leaves. -/
def ObjRun.next (size : ℤ) (entries : List (Name × KmppEntry)) (r : ObjRun) (op : ObjOp) : ObjRun :=
  let mem := objStep (objdef size entries) r.mem op
  { mem
    sets := op.sets r.sets
    changed := fun o => op.changed entries (r.mem o) (mem o) (r.changed o) o }

/-- No mark is lost: what is marked in the destination of an update is marked in the source too,
    and was set there or has the same value. A copy overwrites the marks of its destination, and
    a copy of the entry clears them: then an element that changed in the source is marked there. -/
def KeepsMarks (entries : List (Name × KmppEntry)) (r : ObjRun) : ObjOp → Prop
  | .set _ _ _ => True
  | .update dst src => dst ≠ src ∧ ∀ x ∈ entries, entryTestFlag x.2 (r.mem dst) = true →
    entryTestFlag x.2 (r.mem src) = true ∧
      (x.1 ∈ r.sets src ∨ elem x.2 (r.mem dst) = elem x.2 (r.mem src))
  | .updateEntry dst src => dst ≠ src
  | .copy dst src => dst ≠ src ∧ ∀ x ∈ entries, entryTestFlag x.2 (r.mem dst) = true →
    entryTestFlag x.2 (r.mem src) = true
  | .copyEntry dst src => dst ≠ src ∧ ∀ x ∈ entries, entryTestFlag x.2 (r.mem dst) = true →
    x.1 ∈ r.changed src → entryTestFlag x.2 (r.mem src) = true

/-- What holds of an element: it is marked when it is not the same in both objects, or changed in
    one of them; and where a mark was taken over, it is the same. -/
structure Settled (x : Name × KmppEntry) (r : ObjRun) : Prop where
  differ : ∀ o o', elem x.2 (r.mem o) ≠ elem x.2 (r.mem o') →
    ∃ o, entryTestFlag x.2 (r.mem o) = true
  changed : ∀ o, x.1 ∈ r.changed o → ∃ o, entryTestFlag x.2 (r.mem o) = true
  taken : ∀ o o', entryTestFlag x.2 (r.mem o) = true → entryTestFlag x.2 (r.mem o') = false →
    x.1 ∉ r.sets o → elem x.2 (r.mem o) = elem x.2 (r.mem o')

/-- An entry is found by its name. -/
theorem Laid.lookup (h : Laid size entries) (hx : x ∈ entries) :
    entries.lookup x.1 = some x.2 := by
  have hnames := h.names
  clear h
  induction entries with
  | nil => exact absurd hx not_mem_nil
  | cons y l ih =>
    rw [map_cons, nodup_cons] at hnames
    rcases mem_cons.1 hx with rfl | hx
    · exact lookup_cons_self
    · have hne : (x.1 == y.1) = false := by
        rw [beq_eq_false_iff_ne]
        exact fun heq => hnames.1 (heq ▸ mem_map_of_mem hx)
      rw [lookup_cons, hne]
      exact ih hx hnames.2

theorem Laid.test (h : Laid size entries) (hx : x ∈ entries) (m : Mem) :
    kmppObjTest (objdef size entries) m x.1 = entryTestFlag x.2 m := by
  rw [kmppObjTest, trie_objdef, h.lookup hx]

/-- What is found by a name is an entry. -/
theorem mem_of_lookup {l : List (Name × KmppEntry)} {name : Name} (he : l.lookup name = some e) :
    (name, e) ∈ l := by
  obtain ⟨l₁, l₂, rfl, -⟩ := lookup_eq_some_iff.1 he
  simp

/-- There are two objects. -/
theorem Side.eq_or {d s : Side} (hne : d ≠ s) (o : Side) : o = d ∨ o = s := by
  cases d <;> cases s <;> cases o <;> simp_all

variable {r r' : ObjRun} {op : ObjOp}

/-- An element changes in an object only as its memory does. -/
theorem mem_changed (h : Laid size entries) (hx : x ∈ entries) {m : Mem} {c : Set Name} {o : Side} :
    x.1 ∈ op.changed entries m m' c o ↔
      ¬op.Clears o ∧ (x.1 ∈ c ∨ elem x.2 m' ≠ elem x.2 m) := by
  refine and_congr_right fun _ => or_congr_right ⟨?_, fun hne => ⟨x, hx, rfl, hne⟩⟩
  rintro ⟨y, hy, hname, hne⟩
  have hyx := h.lookup hy
  rw [hname, h.lookup hx] at hyx
  rwa [Option.some.inj hyx]

/-- Where the objects are the same, marks matter only for what changed. -/
theorem Settled.of_eq (heq : ∀ o o', elem x.2 (r.mem o) = elem x.2 (r.mem o'))
    (hchanged : ∀ o, x.1 ∈ r.changed o → ∃ o, entryTestFlag x.2 (r.mem o) = true) :
    Settled x r :=
  ⟨fun o o' hne => absurd (heq o o') hne, hchanged, fun o o' _ _ _ => heq o o'⟩

theorem Settled.set (h : Laid size entries) (hx : x ∈ entries) (hr : Settled x r) {obj : Side}
    {name : Name} {val : List Byte} (htyped : Typed (objdef size entries) (.set obj name val)) :
    Settled x (r.next size entries (.set obj name val)) := by
  -- the element changes and is marked, or it is as before
  have hmem : ∀ o, let mem := objStep (objdef size entries) r.mem (.set obj name val)
      (elem x.2 (mem o) = elem x.2 (r.mem o) ∧
          entryTestFlag x.2 (mem o) = entryTestFlag x.2 (r.mem o)) ∨
        (o = obj ∧ x.1 = name) ∧ entryTestFlag x.2 (mem o) = true := by
    intro o
    rw [objStep, kmppObjSet, trie_objdef]
    dsimp only
    by_cases ho : o = obj
    · subst ho
      rw [update_self]
      cases hfind : entries.lookup name with
      | none => exact .inl ⟨rfl, rfl⟩
      | some e =>
        have hlen : val.length = e.elemSize := htyped e (by rw [trie_objdef, hfind]; rfl)
        obtain ⟨helem, hflag⟩ := h.implSet (m := r.mem o) (mem_of_lookup hfind) hlen hx
        rw [helem, hflag]
        by_cases hxe : x = (name, e)
        · by_cases hne : elem e (r.mem o) ≠ val
          · simp [hxe, hne]
          · simp [hxe, not_not.1 hne]
        · simp [hxe]
    · rw [update_of_ne ho]
      exact .inl ⟨rfl, rfl⟩
  have hmono : ∀ o, entryTestFlag x.2 (r.mem o) = true →
      entryTestFlag x.2 ((r.next size entries (.set obj name val)).mem o) = true := fun o hf =>
    (hmem o).elim (fun heq => heq.2.trans hf) And.right
  refine ⟨fun o o' hne => ?_, fun o hc => ?_, fun o o' hf hf' hs => ?_⟩
  · rcases hmem o with ⟨heq, -⟩ | ⟨-, hf⟩
    · rcases hmem o' with ⟨heq', -⟩ | ⟨-, hf⟩
      · obtain ⟨o'', hf⟩ := hr.differ o o' fun hc => hne (heq.trans (hc.trans heq'.symm))
        exact ⟨o'', hmono o'' hf⟩
      · exact ⟨o', hf⟩
    · exact ⟨o, hf⟩
  · obtain ⟨-, hc | hne⟩ := (mem_changed h hx).1 hc
    · obtain ⟨o', hf⟩ := hr.changed o hc
      exact ⟨o', hmono o' hf⟩
    · exact ⟨o, ((hmem o).resolve_left fun heq => hne heq.1).2⟩
  · obtain ⟨heq, hflag⟩ := (hmem o).resolve_right fun hset => hs (by
      change x.1 ∈ Function.update r.sets obj _ o
      rw [hset.1.1, update_self, hset.1.2]
      exact Set.mem_insert _ _)
    obtain ⟨heq', hflag'⟩ := (hmem o').resolve_right fun hset =>
      Bool.false_ne_true (hf'.symm.trans hset.2)
    have hs : x.1 ∉ r.sets o := fun hc => hs (by
      change x.1 ∈ Function.update r.sets obj _ o
      rw [update_apply]
      split_ifs with ho
      · exact Set.mem_insert_of_mem _ (ho ▸ hc)
      · exact hc)
    exact heq.trans ((hr.taken o o' (hflag.symm.trans hf) (hflag'.symm.trans hf') hs).trans
      heq'.symm)

/-- An update that loses no mark leaves the element the same in both objects. -/
theorem Settled.update_eq (h : Laid size entries) (hx : x ∈ entries) (hr : Settled x r)
    {dst src : Side} (hkeep : KeepsMarks entries r (.update dst src)) (o : Side) :
    elem x.2 (kmppObjUpdate (objdef size entries) r.mem dst src o) = elem x.2 (r.mem src) := by
  obtain ⟨hne, hkeep⟩ := hkeep
  rw [(h.update r.mem dst src hx o).1]
  rcases Side.eq_or hne o with rfl | rfl
  · split_ifs with hf
    · rfl
    · -- nothing is marked, so that nothing differs
      by_contra hdiff
      obtain ⟨o', hf'⟩ := hr.differ o src hdiff
      rcases Side.eq_or hne o' with rfl | rfl
      · exact hf ⟨rfl, (hkeep x hx hf').1⟩
      · exact hf ⟨rfl, hf'⟩
  · rw [if_neg fun hc => hne hc.1.symm]

/-- The elements that changed in the destination of an update are marked in its source. -/
theorem Settled.update_changed (h : Laid size entries) (hx : x ∈ entries) (hr : Settled x r)
    {dst src : Side} (hkeep : KeepsMarks entries r (.update dst src))
    (hc : x.1 ∈ (r.next size entries (.update dst src)).changed dst) :
    entryTestFlag x.2 (r.mem src) = true := by
  obtain ⟨-, hc | hdiff⟩ := (mem_changed h hx).1 hc
  · obtain ⟨o, hf⟩ := hr.changed dst hc
    rcases Side.eq_or hkeep.1 o with rfl | rfl
    · exact (hkeep.2 x hx hf).1
    · exact hf
  · by_contra hf
    exact hdiff ((h.update r.mem dst src hx dst).1.trans (if_neg fun hc => hf hc.2))

theorem Settled.update (h : Laid size entries) (hx : x ∈ entries) (hr : Settled x r)
    {dst src : Side} (hkeep : KeepsMarks entries r (.update dst src)) :
    Settled x (r.next size entries (.update dst src)) := by
  have hne := hkeep.1
  refine .of_eq (fun o o' => (hr.update_eq h hx hkeep o).trans (hr.update_eq h hx hkeep o').symm)
    fun o hc => ⟨dst, ((h.update r.mem dst src hx dst).2.trans (if_neg hne)).trans
      ((if_pos rfl).trans ?_)⟩
  rcases Side.eq_or hne o with rfl | rfl
  · exact hr.update_changed h hx hkeep hc
  · exact absurd rfl ((mem_changed h hx).1 hc).1

theorem Settled.updateEntry (h : Laid size entries) (hx : x ∈ entries) (hr : Settled x r)
    {dst src : Side} (hne : dst ≠ src) : Settled x (r.next size entries (.updateEntry dst src)) := by
  have hmem := h.updateEntry r.mem dst src hx
  by_cases hf : entryTestFlag x.2 (r.mem src) = true
  · have heq : ∀ o, elem x.2 (kmppObjUpdateEntry (objdef size entries) r.mem dst src o) =
        elem x.2 (r.mem src) := by
      intro o
      rw [(hmem o).1]
      rcases Side.eq_or hne o with rfl | rfl
      · exact if_pos ⟨rfl, hf⟩
      · exact if_neg fun hc => hne hc.1.symm
    exact .of_eq (fun o o' => (heq o).trans (heq o').symm) fun _ _ => ⟨src, (hmem src).2.trans hf⟩
  · have heq : ∀ o, elem x.2 (kmppObjUpdateEntry (objdef size entries) r.mem dst src o) =
        elem x.2 (r.mem o) := fun o => (hmem o).1.trans (if_neg fun hc => hf hc.2)
    refine ⟨fun o o' hdiff => ?_, fun o hc => ?_, fun o o' hf hf' hs => ?_⟩
    · obtain ⟨o'', hf⟩ := hr.differ o o' fun hc => hdiff ((heq o).trans (hc.trans (heq o').symm))
      exact ⟨o'', (hmem o'').2.trans hf⟩
    · obtain ⟨-, hc | hdiff⟩ := (mem_changed h hx).1 hc
      · obtain ⟨o', hf⟩ := hr.changed o hc
        exact ⟨o', (hmem o').2.trans hf⟩
      · exact absurd (heq o) hdiff
    · exact (heq o).trans ((hr.taken o o' ((hmem o).2.symm.trans hf) ((hmem o').2.symm.trans hf')
        hs).trans (heq o').symm)

theorem Settled.copy (h : Laid size entries) (hx : x ∈ entries) (hr : Settled x r)
    {dst src : Side} (hkeep : KeepsMarks entries r (.copy dst src)) :
    Settled x (r.next size entries (.copy dst src)) := by
  obtain ⟨hne, hkeep⟩ := hkeep
  have hmem := h.copy r.mem dst src hx
  have hmarked : ∀ o, entryTestFlag x.2 (r.mem o) = true → entryTestFlag x.2 (r.mem src) = true := by
    intro o hf
    rcases Side.eq_or hne o with rfl | rfl
    · exact hkeep x hx hf
    · exact hf
  have heq : ∀ o, elem x.2 (kmppObjCopy (objdef size entries) r.mem dst src o) =
      elem x.2 (r.mem src) := by
    intro o
    rw [(hmem o).1]
    rcases Side.eq_or hne o with rfl | rfl
    · exact if_pos rfl
    · exact if_neg hne.symm
  refine .of_eq (fun o o' => (heq o).trans (heq o').symm) fun o hc =>
    ⟨dst, (hmem dst).2.trans ((if_pos rfl).trans ?_)⟩
  obtain ⟨-, hc | hdiff⟩ := (mem_changed h hx).1 hc
  · obtain ⟨o', hf⟩ := hr.changed o hc
    exact hmarked o' hf
  · obtain ⟨o', hf⟩ := hr.differ src o fun hc => hdiff ((heq o).trans hc)
    exact hmarked o' hf

theorem Settled.copyEntry (h : Laid size entries) (hx : x ∈ entries) (hr : Settled x r)
    {dst src : Side} (hkeep : KeepsMarks entries r (.copyEntry dst src)) :
    Settled x (r.next size entries (.copyEntry dst src)) := by
  obtain ⟨hne, hkeep⟩ := hkeep
  have hmem := h.copyEntryOf r.mem dst src hx
  have heq : ∀ o, elem x.2 (kmppObjCopyEntry (objdef size entries) r.mem dst src o) =
      elem x.2 (r.mem src) := by
    intro o
    rw [(hmem o).1]
    rcases Side.eq_or hne o with rfl | rfl
    · exact if_pos rfl
    · exact if_neg hne.symm
  refine .of_eq (fun o o' => (heq o).trans (heq o').symm) fun o hc => ⟨src, ?_⟩
  obtain ⟨hclear, hc⟩ := (mem_changed h hx).1 hc
  have ho := (Side.eq_or hne o).resolve_left hclear
  subst ho
  obtain ⟨o', hf⟩ := hr.changed o (hc.resolve_right fun hdiff => hdiff (heq o))
  refine (hmem o).2.trans ((if_neg hne.symm).trans ?_)
  rcases Side.eq_or hne o' with rfl | rfl
  · exact hkeep x hx hf (hc.resolve_right fun hdiff => hdiff (heq o))
  · exact hf

end Libmpp.Kmpp
