import Libmpp.H264d.SubSps

/-!
# The tables of a subset

What a subset owns is a layout of the memory: its tables, and a row for the references of a
view where there are some (`Holds`). A subset that is parsed holds its tables at every read
that can fail, so that `recycle_subsps` frees all of them (`recycleSubsps_spec`), as long as
no count is out of its range (`spsMvcExtension_tracks`).
-/

namespace Libmpp.H264d

open Base Bitstream List Option

/-! ## What a subset holds -/

/-- What a subset has blocks for. -/
inductive Place
  | viewId
  | num (k : RefKind)
  | refs (k : RefKind)
  | row (k : RefKind) (i : ℕ)
  deriving DecidableEq

/-- A block is as its place says, for `n` views with `len k i` references each. -/
def Fits (L : Layout Place) (len : RefKind → ℕ → ℕ) (n : ℤ) : Place → Block → Prop
  | .viewId, .ints l => (l.length : ℤ) = n
  | .num k, .ints l => (l.length : ℤ) = n ∧ ∀ i < l.length, l[i]? = some (len k i : ℤ)
  | .refs k, .rows l => (l.length : ℤ) = n ∧ ∀ i < l.length, l[i]? = some (L.addr (.row k i))
  | .row k i, .ints l => l.length = len k i
  | _, _ => False

/-- The subset holds the blocks of the layout. -/
structure Holds (L : Layout Place) (len : RefKind → ℕ → ℕ) (m : Memory Block) (s : SubSps) :
    Prop where
  viewId : L.addr .viewId = s.viewId
  num : ∀ k, L.addr (.num k) = s.num k
  refs : ∀ k, L.addr (.refs k) = s.refs k
  /-- There are rows for views only, and with references. -/
  rows : ∀ k i, L.addr (.row k i) ≠ none → 1 ≤ i ∧ (i : ℤ) < s.numViews ∧ 0 < len k i
  fits : ∀ x a, L.addr x = some a → ∃ b, m.block a = some b ∧ Fits L len s.numViews x b
  present : 0 < s.numViews → (∃ a, s.viewId = some a) ∧
    ∀ k, (∃ a, s.num k = some a) ∧ ∃ a, s.refs k = some a
  absent : s.numViews ≤ 0 → ∀ x, L.addr x = none

/-- Every view with references has a row for them. -/
def Full (L : Layout Place) (len : RefKind → ℕ → ℕ) : Prop :=
  ∀ k i, 0 < len k i → L.addr (.row k i) ≠ none

variable {L : Layout Place} {len : RefKind → ℕ → ℕ} {m : Memory Block} {s : SubSps}

theorem Holds.live (h : Holds L len m s) : Live L m := by
  rintro a ⟨x, hx⟩
  obtain ⟨b, hb, -⟩ := h.fits x a hx
  rw [hb]
  rfl

/-- What a subset holds does not depend on the rest of the memory. -/
theorem Holds.congr {m' : Memory Block} (h : Holds L len m s)
    (hm : ∀ a ∈ L.footprint, m'.block a = m.block a) : Holds L len m' s where
  __ := h
  fits x a hx := by
    rw [hm a (Layout.mem_footprint hx)]
    exact h.fits x a hx

theorem Holds.num_block (h : Holds L len m s) (k : RefKind) (hpos : 0 < s.numViews) :
    ∃ a l, s.num k = some a ∧ m.block a = some (.ints l) ∧ (l.length : ℤ) = s.numViews ∧
      ∀ i < l.length, l[i]? = some (len k i : ℤ) := by
  obtain ⟨a, ha⟩ := ((h.present hpos).2 k).1
  obtain ⟨b, hb, hfits⟩ := h.fits _ a ((h.num k).trans ha)
  cases b with
  | ints l => exact ⟨a, l, ha, hb, hfits⟩
  | rows l => exact hfits.elim

theorem Holds.refs_block (h : Holds L len m s) (k : RefKind) (hpos : 0 < s.numViews) :
    ∃ a l, s.refs k = some a ∧ m.block a = some (.rows l) ∧ (l.length : ℤ) = s.numViews ∧
      ∀ i < l.length, l[i]? = some (L.addr (.row k i)) := by
  obtain ⟨a, ha⟩ := ((h.present hpos).2 k).2
  obtain ⟨b, hb, hfits⟩ := h.fits _ a ((h.refs k).trans ha)
  cases b with
  | ints l => exact hfits.elim
  | rows l => exact ⟨a, l, ha, hb, hfits⟩

theorem Holds.viewId_block (h : Holds L len m s) (hpos : 0 < s.numViews) :
    ∃ a l, s.viewId = some a ∧ m.block a = some (.ints l) ∧ (l.length : ℤ) = s.numViews := by
  obtain ⟨a, ha⟩ := (h.present hpos).1
  obtain ⟨b, hb, hfits⟩ := h.fits _ a (h.viewId.trans ha)
  cases b with
  | ints l => exact ⟨a, l, ha, hb, hfits⟩
  | rows l => exact hfits.elim

variable {i a : ℕ}

theorem Holds.row_block (h : Holds L len m s) {k : RefKind} (ha : L.addr (.row k i) = some a) :
    ∃ l, m.block a = some (.ints l) ∧ l.length = len k i := by
  obtain ⟨b, hb, hfits⟩ := h.fits _ a ha
  cases b with
  | ints l => exact ⟨l, hb, hfits⟩
  | rows l => exact hfits.elim

/-! ## Accesses -/

theorem load_some {m : Memory Block} {b : Block} (h : m.block a = some b) :
    m.load (some a) = some b := h

theorem readInt_eq {m : Memory Block} {l : List ℤ} (h : m.block a = some (.ints l)) :
    readInt m (some a) i = l[i]? := by
  rw [readInt, load_some h]

theorem readRow_eq {m : Memory Block} {l : List (Option ℕ)} (h : m.block a = some (.rows l)) :
    readRow m (some a) i = l[i]? := by
  rw [readRow, load_some h]

theorem writeInt_eq {m : Memory Block} {l : List ℤ} (h : m.block a = some (.ints l))
    (hi : i < l.length) (v : ℤ) : writeInt m (some a) i v = some (m.put a (.ints (l.set i v))) := by
  have hsome : (m.block a).isSome := by rw [h]; rfl
  rw [writeInt, load_some h]
  dsimp only
  rw [if_pos hi, m.store_eq hsome]

theorem writeRow_eq {m : Memory Block} {l : List (Option ℕ)} (h : m.block a = some (.rows l))
    (hi : i < l.length) (v : Option ℕ) :
    writeRow m (some a) i v = some (m.put a (.rows (l.set i v))) := by
  have hsome : (m.block a).isSome := by rw [h]; rfl
  rw [writeRow, load_some h]
  dsimp only
  rw [if_pos hi, m.store_eq hsome]

/-! ## Freeing -/

/-- The references of a view are freed. -/
theorem recycleRow_spec (h : Holds L len m s) (k : RefKind) (hi : 1 ≤ i)
    (hlt : (i : ℤ) < s.numViews) : ∃ m', recycleRow s i m k = some m' ∧
      Released m m' L (L.erase (.row k i)) ∧ Holds (L.erase (.row k i)) len m' s := by
  obtain ⟨a, nums, ha, hnums, hlen, hentry⟩ := h.num_block k (by omega)
  rw [recycleRow, ha, readInt_eq hnums, hentry i (by omega), bind_eq_bind, bind_some]
  split_ifs with hnum
  · obtain ⟨c, rows, hc, hrows, hlen', hentry'⟩ := h.refs_block k (by omega)
    obtain ⟨m₁, hfree, hrel, hlive, hsame⟩ := h.live.free (.row k i)
    have hc' : L.addr (.refs k) = some c := (h.refs k).trans hc
    have hrow : L.addr (.row k i) ≠ some c := fun heq => by cases L.inj heq hc'
    have hrows₁ : m₁.block c = some (.rows rows) := (hsame c hrow).trans hrows
    have hmem : c ∈ (L.erase (.row k i)).footprint :=
      Layout.mem_footprint ((L.erase_of_ne (by rintro ⟨⟩)).trans hc')
    rw [hc, readRow_eq hrows, hentry' i (by omega), bind_eq_bind, bind_some, hfree,
      bind_eq_bind, bind_some, writeRow_eq hrows₁ (by omega)]
    refine ⟨_, rfl, hrel.put hmem _, ?_⟩
    refine ⟨(L.erase_of_ne (by rintro ⟨⟩)).trans h.viewId, fun k => (L.erase_of_ne (by rintro ⟨⟩)).trans (h.num k),
      fun k => (L.erase_of_ne (by rintro ⟨⟩)).trans (h.refs k), fun k j hj => ?_, fun x b hx => ?_,
      h.present, fun habs => absurd habs (by omega)⟩
    · obtain ⟨b, hb⟩ := ne_none_iff_exists'.1 hj
      exact h.rows k j (by rw [(Layout.addr_of_erase hb).2]; nofun)
    · obtain ⟨hne, hx⟩ := Layout.addr_of_erase hx
      obtain ⟨v, hv, hfits⟩ := h.fits x b hx
      by_cases hxc : b = c
      · -- the table of the rows itself
        subst hxc
        obtain rfl : x = .refs k := L.inj hx hc'
        refine ⟨_, m₁.block_put_self (by rw [hrows₁]; rfl) _, ?_⟩
        refine ⟨by rwa [length_set], fun j hj => ?_⟩
        rw [length_set] at hj
        by_cases hji : j = i
        · rw [hji, L.erase_self, getElem?_set_self (by omega)]
        · rw [getElem?_set_ne (Ne.symm hji), hentry' j hj,
            L.erase_of_ne fun heq => hji (Place.row.inj heq).2]
      · refine ⟨v, ?_, ?_⟩
        · rw [m₁.block_put_of_ne hxc, hsame b fun heq => hne (L.inj hx heq), hv]
        · cases x with
          | viewId => cases v <;> exact hfits
          | num k' => cases v <;> exact hfits
          | row k' j => cases v <;> exact hfits
          | refs k' =>
            have hkk : k' ≠ k := by
              rintro rfl
              exact hxc (some_inj.1 (hx.symm.trans hc'))
            cases v with
            | ints l => exact hfits
            | rows l =>
              refine ⟨hfits.1, fun j hj => ?_⟩
              rw [L.erase_of_ne fun heq => hkk (Place.row.inj heq).1]
              exact hfits.2 j hj
  · have hnone : L.addr (.row k i) = none := by
      by_contra hne
      have := (h.rows k i hne).2.2
      omega
    rw [L.erase_eq_self hnone]
    exact ⟨m, rfl, .refl m L, h⟩

/-- The references of a view in several lists are freed. -/
theorem recycleRow_foldlM (h : Holds L len m s) (hi : 1 ≤ i) (hlt : (i : ℤ) < s.numViews)
    (ks : List RefKind) : ∃ m' L', ks.foldlM (recycleRow s i) m = some m' ∧ Released m m' L L' ∧
      Holds L' len m' s ∧ (∀ k ∈ ks, L'.addr (.row k i) = none) ∧
      ∀ x, L.addr x = none → L'.addr x = none := by
  induction ks generalizing m L with
  | nil => exact ⟨m, L, rfl, .refl m L, h, fun _ hk => absurd hk not_mem_nil, fun _ hx => hx⟩
  | cons k ks ih =>
    obtain ⟨m₁, hrow, hrel, hholds⟩ := recycleRow_spec h k hi hlt
    obtain ⟨m₂, L₂, hrows, hrels, hholds₂, hgone, hnone⟩ := ih hholds
    refine ⟨m₂, L₂, ?_, hrel.trans hrels, hholds₂, fun k' hk' => ?_, fun x hx => hnone x ?_⟩
    · rw [foldlM_cons, hrow]
      exact hrows
    · rcases mem_cons.1 hk' with rfl | hk'
      · exact hnone _ (L.erase_self _)
      · exact hgone k' hk'
    · by_cases hxe : x = .row k i
      · rw [hxe, L.erase_self]
      · rw [L.erase_of_ne hxe, hx]

/-- The references of the views from `i` on are freed. -/
theorem recycleRows_spec (h : Holds L len m s) (n : ℕ) (hi : 1 ≤ i)
    (hn : 0 < n → (i : ℤ) + n = s.numViews) (hbefore : ∀ k j, j < i → L.addr (.row k j) = none) :
    ∃ m' L', recycleRows s n i m = some m' ∧ Released m m' L L' ∧ Holds L' len m' s ∧
      ∀ k j, j < i + n → L'.addr (.row k j) = none := by
  induction n generalizing m L i with
  | zero => exact ⟨m, L, rfl, .refl m L, h, hbefore⟩
  | succ n ih =>
    have hend := hn (Nat.succ_pos n)
    obtain ⟨m₁, L₁, hrow, hrel, hholds, hgone, hnone⟩ :=
      recycleRow_foldlM h hi (by push_cast at hend; omega) refKinds
    have hall : ∀ k, k ∈ refKinds := fun k => by cases k <;> decide
    have hbefore₁ : ∀ k j, j < i + 1 → L₁.addr (.row k j) = none := by
      intro k j hj
      rcases Nat.lt_succ_iff_lt_or_eq.1 hj with hlt | rfl
      · exact hnone _ (hbefore k j hlt)
      · exact hgone k (hall k)
    obtain ⟨m₂, L₂, hrows, hrels, hholds₂, hdone⟩ :=
      ih hholds (by omega) (fun _ => by push_cast at hend ⊢; omega) hbefore₁
    refine ⟨m₂, L₂, ?_, hrel.trans hrels, hholds₂, fun k j hj => hdone k j (by omega)⟩
    rw [recycleRows, hrow]
    exact hrows

/-- The places of the tables. -/
def tablePlaces : List Place :=
  [.viewId, .num .anchorL0, .num .anchorL1, .refs .anchorL0, .refs .anchorL1,
    .num .nonAnchorL0, .num .nonAnchorL1, .refs .nonAnchorL0, .refs .nonAnchorL1]

theorem Holds.tables (h : Holds L len m s) : s.tables = tablePlaces.map L.addr := by
  simp only [SubSps.tables, tablePlaces, map_cons, map_nil, h.viewId, h.num, h.refs]

/-- All that a subset holds is freed, and nothing else. -/
theorem recycleSubsps_spec (h : Holds L len m s) : ∃ m' s' L', recycleSubsps m s = some (m', s') ∧
    Released m m' L L' ∧ L'.footprint = ∅ := by
  have hfirst : ∀ k j, j < 1 → L.addr (.row k j) = none := by
    intro k j hj
    by_contra hne
    have := (h.rows k j hne).1
    omega
  obtain ⟨m₁, L₁, hrows, hrel, hholds, hgone⟩ :=
    recycleRows_spec h (s.numViews - 1).toNat le_rfl (by omega) hfirst
  have hempty : ∀ L' : Layout Place, (∀ x, L'.addr x = none) → L'.footprint = ∅ := fun L' hL' =>
    Set.eq_empty_iff_forall_notMem.2 fun a ⟨x, hx⟩ => nomatch (hL' x).symm.trans hx
  rw [recycleSubsps, hrows, bind_eq_bind, bind_some]
  split_ifs with hpos
  · obtain ⟨m₂, L₂, hfrees, hrels, haddr⟩ := hholds.live.freeAll (show tablePlaces.Nodup by decide)
    rw [hholds.tables, hfrees]
    refine ⟨m₂, _, L₂, rfl, hrel.trans hrels, hempty L₂ fun x => ?_⟩
    rw [haddr]
    split_ifs with hx
    · rfl
    · cases x with
      | viewId => exact absurd (by decide) hx
      | num k => exact absurd (by cases k <;> decide) hx
      | refs k => exact absurd (by cases k <;> decide) hx
      | row k j =>
        by_contra hne
        obtain ⟨h1, hlt, -⟩ := hholds.rows k j hne
        exact hne (hgone k j (by omega))
  · exact ⟨m₁, _, L₁, rfl, hrel, hempty L₁ (hholds.absent (by omega))⟩

end Libmpp.H264d
