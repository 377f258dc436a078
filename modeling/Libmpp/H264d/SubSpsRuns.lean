import Libmpp.H264d.SubSpsParse

/-!
# Sequences of subsets

Every block of the memory belongs to one of the subsets that are stored (`Ownership`). A call
of `process_subsps` keeps this: what it adds becomes that of the subset that it stores, in
place of what the one before had, or is freed again. So after a sequence of calls
`free_vid_ctx` frees every block (`safe_of_countsFit`); unless the bits of a call have a
count out of its range.
-/

namespace Libmpp.H264d

open Base Bitstream Function List Option

/-! ## Complete subsets -/

variable {L : Layout Place} {len : RefKind → ℕ → ℕ} {m m' : Memory Block} {s : SubSps}

/-- A subset that holds its tables, and a row for every view with references, is complete. -/
theorem Holds.complete (h : Holds L len m s) (hfull : Full L len) : s.Complete m where
  viewId hpos := by
    obtain ⟨a, l, ha, hl, hlen⟩ := h.viewId_block hpos
    exact ⟨l, by rw [ha, load_some hl], hlen⟩
  num hpos k := by
    obtain ⟨a, l, ha, hl, hlen, -⟩ := h.num_block k hpos
    exact ⟨l, by rw [ha, load_some hl], hlen⟩
  refs hpos k := by
    obtain ⟨a, l, ha, hl, hlen, -⟩ := h.refs_block k hpos
    exact ⟨l, by rw [ha, load_some hl], hlen⟩
  row k i hi hlt := by
    obtain ⟨a, nums, ha, hnums, hlen, hnum⟩ := h.num_block k (by omega)
    obtain ⟨c, rows, hc, hrows, hlen', hrow⟩ := h.refs_block k (by omega)
    refine ⟨len k i, L.addr (.row k i), ?_, ?_, ?_⟩
    · rw [ha, readInt_eq hnums, hnum i (by omega)]
    · rw [hc, readRow_eq hrows, hrow i (by omega)]
    · cases haddr : L.addr (.row k i) with
      | none => exact .inl ⟨by rw [hfull.len_eq_zero haddr]; rfl, rfl⟩
      | some b =>
        obtain ⟨l, hl, hcount⟩ := h.row_block haddr
        have hpos := (h.rows k i (by rw [haddr]; nofun)).2.2
        refine .inr ⟨l, load_some hl, by rw [hcount], ?_⟩
        rintro rfl
        rw [length_nil] at hcount
        omega

/-! ## Ownership -/

/-- Every block belongs to a subset that is stored, or to the one that is parsed (`none`). -/
structure Ownership (m : Memory Block) (set : ℕ → Option SubSps) (L : Option ℕ → Layout Place)
    (len : ℕ → RefKind → ℕ → ℕ) : Prop where
  owned : Owned m L
  stored : ∀ id s, set id = some s → Holds (L (some id)) (len id) m s ∧
    Full (L (some id)) (len id) ∧ s.valid = true
  free : ∀ id, set id = none → (L (some id)).footprint = ∅
  bound : ∀ id, maxSps ≤ id → set id = none

section Ownership

variable {set : ℕ → Option SubSps} {O : Option ℕ → Layout Place} {lens : ℕ → RefKind → ℕ → ℕ}
  {L' : Layout Place} {id : ℕ}

theorem Ownership.congr (h : Ownership m set O lens) (hm : m'.block = m.block) :
    Ownership m' set O lens where
  owned := by
    obtain ⟨hdisjoint, hlive, hcover⟩ := h.owned
    exact ⟨hdisjoint, fun i a ha => hm ▸ hlive i a ha, fun a ha => hcover a (hm ▸ ha)⟩
  stored id s hs := by
    obtain ⟨hholds, hfull⟩ := h.stored id s hs
    exact ⟨hholds.congr fun a _ => congrFun hm a, hfull⟩
  free := h.free
  bound := h.bound

/-- The subset that is parsed gets new blocks. -/
theorem Ownership.extend (h : Ownership m set O lens) (hnone : (O none).footprint = ∅)
    (hext : Extends m m' L) (hlive : Live L m') :
    Ownership m' set (update O none L) lens where
  owned := h.owned.extend hnone hext hlive
  stored id s hs := by
    obtain ⟨hholds, hfull⟩ := h.stored id s hs
    rw [update_of_ne (some_ne_none id)]
    exact ⟨hholds.congr (h.owned.block_of_extends hext (some id)), hfull⟩
  free id hid := by
    rw [update_of_ne (some_ne_none id)]
    exact h.free id hid
  bound := h.bound

/-- A subset that is stored frees its blocks. -/
theorem Ownership.release (h : Ownership m set O lens) (hrel : Released m m' (O (some id)) L')
    (hL' : L'.footprint = ∅) :
    Ownership m' (update set id none) (update O (some id) L') lens where
  owned := h.owned.release hrel hL'
  stored j s hs := by
    rw [update_apply] at hs
    split_ifs at hs with hj
    have hne : some j ≠ some id := fun heq => hj (some_inj.1 heq)
    obtain ⟨hholds, hfull⟩ := h.stored j s hs
    rw [update_of_ne hne]
    exact ⟨hholds.congr (h.owned.block_of_released hrel hne), hfull⟩
  free j hj := by
    by_cases hji : j = id
    · rw [hji, update_self]
      exact hL'
    · rw [update_of_ne hji] at hj
      rw [update_of_ne fun heq => hji (some_inj.1 heq)]
      exact h.free j hj
  bound j hj := by
    rw [update_apply]
    split_ifs
    · rfl
    · exact h.bound j hj

/-- The subset that is parsed is stored, where there is none. -/
theorem Ownership.store (h : Ownership m set O lens) (hid : set id = none) (hlt : id < maxSps)
    (hholds : Holds (O none) len m s) (hfull : Full (O none) len) (hvalid : s.valid = true) :
    Ownership m (update set id (some s))
      (update (update O (some id) (O none)) none .empty)
      (update lens id len) where
  owned := h.owned.move (h.free id hid) nofun
  stored j t ht := by
    rw [update_of_ne (some_ne_none j)]
    by_cases hj : j = id
    · subst hj
      rw [update_self] at ht
      obtain rfl := some_inj.1 ht
      rw [update_self, update_self]
      exact ⟨hholds, hfull, hvalid⟩
    · rw [update_of_ne hj] at ht
      rw [update_of_ne hj, update_of_ne fun heq => hj (some_inj.1 heq)]
      exact h.stored j t ht
  free j hj := by
    rw [update_apply] at hj
    split_ifs at hj with hji
    rw [update_of_ne (some_ne_none j),
      update_of_ne fun heq => hji (some_inj.1 heq)]
    exact h.free j hj
  bound j hj := by
    rw [update_of_ne (by omega)]
    exact h.bound j hj

end Ownership

/-- Between two calls, the subset that is parsed has no blocks of its own. -/
def Consistent (st : SubsetStore) : Prop :=
  ∃ O lens, Ownership st.memory st.subspsSet O lens ∧ (O none).footprint = ∅

variable {st : SubsetStore}

theorem Consistent.allComplete (h : Consistent st) : st.AllComplete := by
  obtain ⟨O, lens, h, -⟩ := h
  intro id s hs
  obtain ⟨hholds, hfull, -⟩ := h.stored id s hs
  exact hholds.complete hfull

theorem Consistent.leaves {st st' : SubsetStore} (h : Consistent st) (hleaves : Leaves st st') :
    Consistent st' := by
  obtain ⟨O, lens, h, hnone⟩ := h
  refine ⟨O, lens, ?_, hnone⟩
  rw [hleaves.subspsSet]
  exact h.congr hleaves.block

theorem consistent_empty : Consistent {} := by
  refine ⟨fun _ => .empty, fun _ _ _ => 0, ⟨.empty, ?_, ?_, fun _ _ => rfl⟩, ?_⟩
  · exact fun _ _ hs => absurd hs nofun
  · exact fun _ _ => Layout.footprint_empty
  · exact Layout.footprint_empty

/-! ## One call -/

/-- A failed call frees what it has allocated. -/
theorem failSubsps_spec {st₀ st : SubsetStore} {cur : SubSps} {sps : Sps} {n : ℤ}
    {D : RefKind → ℕ → Prop} (h : Grown st₀.memory sps n D ⟨st.memory, cur⟩)
    (hset : st.subspsSet = st₀.subspsSet) (ret : MppRet) :
    ∃ st', failSubsps st cur ret = some (ret, st') ∧ Leaves st₀ st' := by
  obtain ⟨L, len, h⟩ := h
  obtain ⟨m', s', L', hrec, hrel, hL'⟩ := recycleSubsps_spec h.holds
  refine ⟨{ st with memory := m', subsps := s' }, ?_, hset, h.added.release hrel hL'⟩
  rw [failSubsps, hrec]
  rfl

theorem getMaxDecFrameBufSize_spec {sps : Sps} (h : sps.dividesByZero = false) :
    ∃ ret sps', getMaxDecFrameBufSize sps = some (ret, sps') ∧ sps'.valid = sps.valid ∧
      sps'.seqParameterSetId = sps.seqParameterSetId := by
  obtain ⟨hlo, hhi⟩ := levelSize_bounds sps sps.isLevel1b
  rw [getMaxDecFrameBufSize]
  set size := if sps.levelIdc ∈ [60, 61, 62] then (267386880 : ℤ)
    else levelSize sps sps.isLevel1b with hsize
  have hbounds : 0 ≤ size ∧ size < 2 ^ 31 := by
    rw [hsize]
    split_ifs <;> omega
  by_cases h0 : size = 0
  · rw [if_pos h0]
    exact ⟨_, _, rfl, rfl, rfl⟩
  · rw [if_neg h0]
    have hwrap : wrapS32 sps.picBytes ≠ 0 := by
      intro hzero
      rw [Sps.dividesByZero, decide_eq_true hzero, Bool.and_true, Bool.or_eq_false_iff,
        decide_eq_false_iff_not, decide_eq_false_iff_not, not_not] at h
      rw [hsize, if_neg h.1] at h0
      exact h0 h.2
    rw [divS32_eq hwrap (by omega) hbounds.2]
    exact ⟨_, _, rfl, rfl, rfl⟩

/-- A subset that is parsed is stored, in place of the one before. -/
theorem storeSubsps_spec {st₀ st : SubsetStore} {cur : SubSps} {n : ℤ} {D : RefKind → ℕ → Prop}
    (h : Consistent st₀) (hgrown : Grown st₀.memory cur.sps n D ⟨st.memory, cur⟩)
    (hset : st.subspsSet = st₀.subspsSet) (hvalid : cur.sps.valid = true) (hid : cur.sps.HasId)
    (hdiv : cur.sps.dividesByZero = false) :
    ∃ st', storeSubsps st cur = some st' ∧ Consistent st' ∧
      Stores st₀ st' cur.sps.seqParameterSetId := by
  obtain ⟨O, lens, h, hnone⟩ := h
  obtain ⟨L, len, hgrown⟩ := hgrown
  obtain ⟨ret, sps, hsize, hvalid', hid'⟩ := getMaxDecFrameBufSize_spec hdiv
  set id := cur.sps.seqParameterSetId
  have hext := h.extend hnone hgrown.added hgrown.holds.live
  set O₁ := update O none L
  -- what is stored under the id is freed, and what has been parsed stays
  obtain ⟨m₂, hm₂, hown, hcur⟩ : ∃ m₂,
      freeStored st.memory ((st.subspsSet id).getD {}) = some m₂ ∧
      (∃ O₂, Ownership m₂ (update st₀.subspsSet id none) O₂ lens ∧ O₂ none = L) ∧
      Holds L len m₂ cur := by
    rw [hset]
    cases hold : st₀.subspsSet id with
    | none =>
      refine ⟨st.memory, rfl, ⟨O₁, ?_, update_self ..⟩, hgrown.holds⟩
      rwa [update_eq_self_iff.2 hold.symm]
    | some s =>
      obtain ⟨hholds, -, hsvalid⟩ := hext.stored id s hold
      obtain ⟨m₂, s', L', hrec, hrel, hL'⟩ := recycleSubsps_spec hholds
      have hL : O₁ none = L := update_self ..
      refine ⟨m₂, ?_, ⟨_, hext.release hrel hL', ?_⟩, ?_⟩
      · rw [getD_some, freeStored, if_pos hsvalid, hrec]
        rfl
      · rw [update_of_ne (some_ne_none id).symm]
        exact hL
      · have hsame := hext.owned.block_of_released hrel (j := none) nofun
        rw [hL] at hsame
        exact hgrown.holds.congr hsame
  obtain ⟨O₂, hown, hO₂⟩ := hown
  set new : SubSps := { cur with sps, valid := cur.sps.valid || cur.valid } with hnew
  have hnewValid : new.valid = true := by
    change (cur.sps.valid || cur.valid) = true
    rw [hvalid, Bool.true_or]
  have hholds : Holds (O₂ none) len m₂ new := by
    obtain ⟨hviewId, hnum, hrefs, hrows, hfits, hpresent, habsent⟩ := hcur
    rw [hO₂]
    exact ⟨hviewId, hnum, hrefs, hrows, hfits, hpresent, habsent⟩
  have hfull : Full (O₂ none) len := hO₂ ▸ hgrown.full
  have hstore := hown.store (update_self ..) hid hholds hfull hnewValid
  rw [update_idem] at hstore
  refine ⟨⟨m₂, update st.subspsSet id (some new), new,
    if sps.valid then sps.profileIdc else st.profileIdc⟩, ?_, ?_, ?_⟩
  · rw [storeSubsps, hsize, bind_eq_bind, bind_some]
    dsimp only
    rw [hid', hm₂]
    rfl
  · rw [← hset] at hstore
    exact ⟨_, _, hstore, by rw [update_self]; exact Layout.footprint_empty⟩
  · refine ⟨⟨new, update_self .., hnewValid, hholds.complete hfull⟩, fun j hj => ?_⟩
    rw [← hset]
    exact update_of_ne hj ..

/-- A call stores a complete subset, or leaves the subsets as they were. -/
theorem processSubsps_spec (h : Consistent st) {nal : BitReadCtx}
    (hfit : countsFit nal = true) : ∃ ret st', processSubsps nal st = some (ret, st') ∧
      Consistent st' ∧ ((∃ id, Stores st st' id) ∨ Leaves st st') := by
  have hleaves : ∀ ret st', processSubsps nal st = some (ret, st') → Leaves st st' →
      ∃ ret st', processSubsps nal st = some (ret, st') ∧ Consistent st' ∧
        ((∃ id, Stores st st' id) ∨ Leaves st st') := fun ret st' heq hst' =>
    ⟨ret, st', heq, h.leaves hst', .inr hst'⟩
  rw [countsFit] at hfit
  have hzero : Sps.HasId {} := by
    change 0 < maxSps
    decide
  have hspec := parserSps_spec (s := { val := {}, reader := nal }) hzero
  set parsed := parserSps { val := {}, reader := nal } with hparsed
  set cur : SubSps := { sps := parsed.2.val, numViewsMinus1 := -1 } with hcur
  have hbare : Bare st.memory parsed.2.val ⟨st.memory, cur⟩ :=
    ⟨rfl, rfl, fun _ => rfl, fun _ => rfl, rfl⟩
  have hviews : cur.numViews = 0 := rfl
  by_cases hfail : parsed.1 < 0
  · obtain ⟨st', heq, hst'⟩ := failSubsps_spec (hbare.grown hviews.le) rfl parsed.1
    refine hleaves parsed.1 st' ?_ hst'
    rw [processSubsps, ← hparsed, ← hcur, if_pos hfail]
    exact heq
  obtain ⟨hvalid, hid⟩ := hspec hfail
  rw [decide_eq_false hfail, Bool.false_or] at hfit
  have hext : Tracks (fun v => Bare st.memory parsed.2.val v ∧ v.subsps.numViews = 0) Off
      (Failing st.memory parsed.2.val) _ _ _ := parserSubspsExt_tracks parsed.2.val.profileIdc
  have htrack := hext
    { val := ⟨st.memory, cur⟩, reader := parsed.2.reader, bitRet := parsed.2.bitRet }
    { val := (), reader := parsed.2.reader } ⟨hbare, hviews⟩ rfl
  cases hcount : countSubset parsed.2.val.profileIdc { val := (), reader := parsed.2.reader } with
  | ok b t =>
    rw [hcount] at hfit htrack
    obtain ⟨a, s, hrun, -, n, hgrown⟩ := htrack
    obtain ⟨L, len, hgrows⟩ := hgrown
    have hsps := hgrows.sps
    obtain ⟨st', hstore, hcons, hstores⟩ := @storeSubsps_spec st
      { st with memory := s.val.memory } s.val.subsps n (fun _ _ => True) h
      ⟨L, len, hgrows.holds, hgrows.full, hgrows.added, hgrows.views, rfl, hgrows.done⟩ rfl
      (by rw [hsps]; exact hvalid) (by rw [hsps]; exact hid)
      (by rw [hsps]; exact Bool.not_eq_true' _ ▸ hfit)
    refine ⟨mppOk, st', ?_, hcons, .inl ⟨_, hstores⟩⟩
    rw [processSubsps, ← hparsed, ← hcur, if_neg hfail, hrun]
    dsimp only
    rw [hstore]
    rfl
  | error d t =>
    rw [hcount] at hfit htrack
    have hoff : ¬Off d := by
      rintro rfl
      exact Bool.false_ne_true hfit
    obtain ⟨e, s, hrun, rfl, hret, n, D, hgrown⟩ := htrack.resolve_left hoff
    obtain ⟨st', heq, hst'⟩ :=
      @failSubsps_spec st { st with memory := s.val.memory } _ _ _ _ hgrown rfl s.bitRet
    refine hleaves s.bitRet st' ?_ hst'
    rw [processSubsps, ← hparsed, ← hcur, if_neg hfail, hrun]
    exact heq

/-! ## Sequences -/

theorem processAll_spec {nals : List BitReadCtx} (hfit : ∀ nal ∈ nals, countsFit nal = true) (h : Consistent st) :
    ∃ st', processAll nals st = some st' ∧ Consistent st' := by
  induction nals generalizing st with
  | nil => exact ⟨st, rfl, h⟩
  | cons nal nals ih =>
    obtain ⟨ret, st₁, heq, hst₁, -⟩ := processSubsps_spec h (hfit nal mem_cons_self)
    obtain ⟨st₂, heqs, hst₂⟩ := ih (fun nal hnal => hfit nal (mem_cons_of_mem _ hnal)) hst₁
    refine ⟨st₂, ?_, hst₂⟩
    rw [processAll, heq]
    exact heqs

/-- The first `n` subsets are freed. -/
theorem freeSubsets_spec (n : ℕ) (h : Consistent st) :
    ∃ st', freeSubsets n st = some st' ∧ Consistent st' ∧
      ∀ id, id < n ∨ st.subspsSet id = none → st'.subspsSet id = none := by
  induction n with
  | zero => exact ⟨st, rfl, h, fun id hid => hid.resolve_left (Nat.not_lt_zero id)⟩
  | succ n ih =>
    obtain ⟨st₁, heq, hst₁, hnone⟩ := ih
    rw [freeSubsets, heq, bind_eq_bind, bind_some]
    have hlt : ∀ id, id < n + 1 ∨ st.subspsSet id = none → id ≠ n → st₁.subspsSet id = none :=
      fun id hid hne => hnone id (hid.imp_left fun h => by omega)
    cases hn : st₁.subspsSet n with
    | none =>
      refine ⟨st₁, rfl, hst₁, fun id hid => ?_⟩
      by_cases hne : id = n
      · rw [hne, hn]
      · exact hlt id hid hne
    | some s =>
      obtain ⟨O, lens, hown, hscratch⟩ := hst₁
      obtain ⟨hholds, -, -⟩ := hown.stored n s hn
      obtain ⟨m', s', L', hrec, hrel, hL'⟩ := recycleSubsps_spec hholds
      dsimp only
      rw [hrec]
      refine ⟨_, rfl, ⟨_, lens, hown.release hrel hL', ?_⟩, fun id hid => ?_⟩
      · rw [update_of_ne (some_ne_none n).symm]
        exact hscratch
      · by_cases hne : id = n
        · rw [hne]
          exact update_self ..
        · exact (update_of_ne hne ..).trans (hlt id hid hne)

theorem freeVidCtx_spec (h : Consistent st) :
    ∃ st', freeVidCtx st = some st' ∧ ∀ a, st'.memory.block a = none := by
  obtain ⟨O, lens, hown, hscratch⟩ := h
  obtain ⟨st', heq, ⟨O', lens', hown', hscratch'⟩, hnone⟩ :=
    freeSubsets_spec maxSps ⟨O, lens, hown, hscratch⟩
  refine ⟨st', heq, fun a => ?_⟩
  by_contra hne
  obtain ⟨i, hi⟩ := hown'.owned.cover a (isSome_iff_ne_none.2 hne)
  cases i with
  | none => exact absurd hi (hscratch' ▸ Set.notMem_empty a)
  | some id =>
    have hid : st'.subspsSet id = none := by
      rcases lt_or_ge id maxSps with hlt | hge
      · exact hnone id (.inl hlt)
      · exact hnone id (.inr (hown.bound id hge))
    exact absurd hi (hown'.free id hid ▸ Set.notMem_empty a)

/-- A sequence of bit strings without a count out of its range is safe. -/
theorem safe_of_countsFit {nals : List BitReadCtx} (hfit : ∀ nal ∈ nals, countsFit nal = true) :
    SafeSequence nals where
  calls := by
    rintro before nal after rfl
    obtain ⟨st, heq, hst⟩ := processAll_spec
      (fun nal hnal => hfit nal (mem_append_left _ hnal)) consistent_empty
    obtain ⟨ret, st', hcall, hst', hresult⟩ := processSubsps_spec hst
      (hfit nal (mem_append_right _ mem_cons_self))
    exact ⟨st, ret, st', heq, hcall, hst'.allComplete, hresult⟩
  freed := by
    obtain ⟨st, heq, hst⟩ := processAll_spec hfit consistent_empty
    obtain ⟨st', hfree, hnone⟩ := freeVidCtx_spec hst
    exact ⟨st, st', heq, hfree, hnone⟩

def subsetReader (data : List UInt8) : BitReadCtx :=
  mppSetBitreadPseudoCodeType (mppSetBitreadCtx data) .h264H265

/-- A subset with two views, and one that ends in the references of the second. -/
def stereoSubset : BitReadCtx :=
  subsetReader [0x76, 0x00, 0x28, 0xac, 0xb4, 0x03, 0xc0, 0x11, 0x32, 0xa9, 0x6b, 0x40]

def cutSubset : BitReadCtx :=
  subsetReader [0x76, 0x00, 0x28, 0xac, 0xb4, 0x03, 0xc0, 0x11, 0x32, 0xa8, 0x98]

theorem stereo_safe : (∀ nal ∈ [stereoSubset, cutSubset, stereoSubset], countsFit nal = true) ∧
    SafeSequence [stereoSubset, cutSubset, stereoSubset] :=
  have hfit : ∀ nal ∈ [stereoSubset, cutSubset, stereoSubset], countsFit nal = true := by
    intro nal hnal
    simp only [mem_cons, not_mem_nil, or_false] at hnal
    rcases hnal with rfl | rfl | rfl <;> decide +kernel
  ⟨hfit, safe_of_countsFit hfit⟩

/-- A subset with `17` views. -/
def manyViews : BitReadCtx :=
  subsetReader [0x76, 0x00, 0x28, 0xac, 0xb4, 0x03, 0xc0, 0x11, 0x32, 0x11, 0x80]

theorem manyViews_faults : (processSubsps manyViews {}).isNone = true ∧
    ¬SafeSequence [manyViews] := by
  have hnone : (processSubsps manyViews {}).isNone = true := by decide +kernel
  refine ⟨hnone, fun h => ?_⟩
  obtain ⟨st, ret, st', heq, hcall, -⟩ := h.calls [] manyViews [] rfl
  obtain rfl := some_inj.1 heq
  rw [hcall] at hnone
  exact Bool.false_ne_true hnone

end Libmpp.H264d
