import Libmpp.H264d.SubSpsTables

/-!
# Reading the tables of a subset

The extension of a subset is read into tables that are allocated on the way. At every read
that can fail, the subset holds what has been allocated (`Grown`); so the program either
fails with that, or ends with every table it needs (`parserSubspsExt_tracks`). It does
not come to a fault, unless a count in the bits is out of its range.
-/

namespace Libmpp.H264d

open Base Bitstream List Option

variable {L : Layout Place} {len : RefKind → ℕ → ℕ} {m m₀ : Memory Block} {s : SubSps} {sps : Sps}
  {n : ℤ} {D D' : RefKind → ℕ → Prop} {v : Scratch}

/-! ## Changes -/

variable {x : Place} {a : ℕ} {b : Block}

/-- A block is changed, to one that is as its place says. -/
theorem Holds.put (h : Holds L len m s) (hx : L.addr x = some a) (hb : Fits L len s.numViews x b) :
    Holds L len (m.put a b) s where
  __ := h
  fits y c hy := by
    by_cases hca : c = a
    · subst hca
      obtain rfl := L.inj hy hx
      exact ⟨b, m.block_put_self (h.live c (Layout.mem_footprint hx)) b, hb⟩
    · rw [m.block_put_of_ne hca]
      exact h.fits y c hy

/-- The subset holds all that has been added to the memory `m₀`, for `n` views: there are
    rows for the views `D` only. -/
structure Grows (m₀ : Memory Block) (sps : Sps) (n : ℤ) (D : RefKind → ℕ → Prop)
    (L : Layout Place) (len : RefKind → ℕ → ℕ) (v : Scratch) : Prop where
  holds : Holds L len v.memory v.subsps
  full : Full L len
  added : Extends m₀ v.memory L
  views : v.subsps.numViews = n
  sps : v.subsps.sps = sps
  done : ∀ k i, L.addr (.row k i) ≠ none → D k i

def Grown (m₀ : Memory Block) (sps : Sps) (n : ℤ) (D : RefKind → ℕ → Prop) (v : Scratch) : Prop :=
  ∃ L len, Grows m₀ sps n D L len v

theorem Grown.mono (h : Grown m₀ sps n D v) (hD : ∀ k i, D k i → D' k i) :
    Grown m₀ sps n D' v := by
  obtain ⟨L, len, h⟩ := h
  exact ⟨L, len, { h with done := fun k i hrow => hD k i (h.done k i hrow) }⟩

/-- A block of the subset is changed. -/
theorem Grows.put (h : Grows m₀ sps n D L len v) (hx : L.addr x = some a) (hb : Fits L len n x b) :
    Grows m₀ sps n D L len { v with memory := v.memory.put a b } where
  __ := h
  holds := h.holds.put hx (h.views ▸ hb)
  added := h.added.put (Layout.mem_footprint hx) b

variable {k : RefKind} {i : ℕ}

/-- No row means no references. -/
theorem Full.len_eq_zero (h : Full L len) (hrow : L.addr (.row k i) = none) : len k i = 0 := by
  by_contra hne
  exact h k i (Nat.pos_of_ne_zero hne) hrow

/-! ## The tables -/

/-- Where a table is among those that are allocated. -/
def tableOffset : Place → Option ℕ
  | .viewId => some 0
  | .num k => some (numPlace k)
  | .refs k => some (refsPlace k)
  | .row _ _ => none

variable {j : ℕ}

theorem tableOffset_inj {y : Place} (hx : tableOffset x = some j) (hy : tableOffset y = some j) :
    x = y := by
  have hmem : ∀ x j, tableOffset x = some j → x ∈ tablePlaces := by
    intro x j hx
    cases x with
    | viewId => decide
    | num k => cases k <;> decide
    | refs k => cases k <;> decide
    | row k i => exact absurd hx nofun
  have hinj : ∀ x ∈ tablePlaces, ∀ y ∈ tablePlaces, tableOffset x = tableOffset y → x = y := by
    decide
  exact hinj x (hmem x j hx) y (hmem y j hy) (hx.trans hy.symm)

/-- The tables at the addresses from `base` on. -/
def tableLayout (base : ℕ) : Layout Place where
  addr x := (tableOffset x).map (base + ·)
  inj := by
    intro x y a hx hy
    obtain ⟨j, hj, rfl⟩ := Option.map_eq_some_iff.1 hx
    obtain ⟨j', hj', heq⟩ := Option.map_eq_some_iff.1 hy
    obtain rfl : j' = j := Nat.add_left_cancel heq
    exact tableOffset_inj hj hj'

/-- The tables are as their places say: no view has references. -/
theorem emptyTables_fits {L : Layout Place} (hL : ∀ k i, L.addr (.row k i) = none) (n : ℕ)
    (hx : tableOffset x = some j) :
    ∃ b, (emptyTables n)[j]? = some b ∧ Fits L (fun _ _ => 0) n x b := by
  have hints : ((List.replicate n (0 : ℤ)).length : ℤ) = n := by rw [length_replicate]
  have hzero : ∀ i < (List.replicate n (0 : ℤ)).length,
      (List.replicate n (0 : ℤ))[i]? = some ((0 : ℕ) : ℤ) := by
    intro i hi
    rw [length_replicate] at hi
    rw [getElem?_replicate, if_pos hi]
    rfl
  have hrows : ((List.replicate n (none : Option ℕ)).length : ℤ) = n := by
    rw [length_replicate]
  have hnone : ∀ k, ∀ i < (List.replicate n (none : Option ℕ)).length,
      (List.replicate n (none : Option ℕ))[i]? = some (L.addr (.row k i)) := by
    intro k i hi
    rw [length_replicate] at hi
    rw [getElem?_replicate, if_pos hi, hL]
  cases x with
  | viewId =>
    obtain rfl := some_inj.1 hx
    exact ⟨_, rfl, hints⟩
  | num k =>
    obtain rfl := some_inj.1 hx
    exact ⟨.ints (List.replicate n 0), by cases k <;> rfl, hints, hzero⟩
  | refs k =>
    obtain rfl := some_inj.1 hx
    exact ⟨.rows (List.replicate n none), by cases k <;> rfl, hrows, hnone k⟩
  | row k i => exact absurd hx nofun

/-- The subset has no tables yet. -/
structure Bare (m₀ : Memory Block) (sps : Sps) (v : Scratch) : Prop where
  memory : v.memory = m₀
  viewId : v.subsps.viewId = none
  num : ∀ k, v.subsps.num k = none
  refs : ∀ k, v.subsps.refs k = none
  sps : v.subsps.sps = sps

/-- Without views there are no tables. -/
theorem Bare.grown (h : Bare m₀ sps v) (hn : v.subsps.numViews ≤ 0) :
    Grown m₀ sps v.subsps.numViews (fun _ _ => False) v := by
  refine ⟨.empty, fun _ _ => 0, ?_, fun _ _ h0 => absurd h0 (lt_irrefl 0), ?_, rfl, h.sps,
    fun _ _ hrow => hrow rfl⟩
  · exact ⟨h.viewId.symm, fun k => (h.num k).symm, fun k => (h.refs k).symm,
      fun _ _ hrow => absurd rfl hrow, fun _ _ hx => absurd hx nofun,
      fun hpos => absurd hpos (by omega), fun _ _ => rfl⟩
  · rw [h.memory]
    exact ⟨le_rfl, fun a ha => absurd ha (Layout.footprint_empty ▸ Set.notMem_empty a),
      fun _ _ => rfl⟩

/-- The tables are allocated. -/
theorem Bare.allocTables (h : Bare m₀ sps v) (hn : v.subsps.numViews = n) (hpos : 0 < n) :
    Grown m₀ sps n (fun _ _ => False) (allocTables n.toNat v) := by
  have hcast : ((n.toNat : ℕ) : ℤ) = n := Int.toNat_of_nonneg hpos.le
  obtain rfl := h.memory
  refine ⟨tableLayout v.memory.next, fun _ _ => 0, ?_, fun _ _ h0 => absurd h0 (lt_irrefl 0), ?_,
    hn, h.sps, fun _ _ hrow => hrow rfl⟩
  · refine ⟨rfl, fun _ => rfl, fun _ => rfl, fun _ _ hrow => absurd rfl hrow, ?_,
      fun _ => ⟨⟨_, rfl⟩, fun _ => ⟨⟨_, rfl⟩, _, rfl⟩⟩, fun habs => ?_⟩
    · intro x a hx
      obtain ⟨j, hj, rfl⟩ := map_eq_some_iff.1 hx
      obtain ⟨b, hb, hfits⟩ := emptyTables_fits (L := tableLayout v.memory.next)
        (fun _ _ => rfl) n.toNat hj
      refine ⟨b, (v.memory.block_alloc_add _ j).trans hb, ?_⟩
      rw [hcast] at hfits
      change Fits _ _ v.subsps.numViews x b
      rwa [hn]
    · change v.subsps.numViews ≤ 0 at habs
      omega
  · refine ⟨Nat.le_add_right _ _, ?_, ?_⟩
    · rintro a ⟨x, hx⟩
      obtain ⟨j, -, rfl⟩ := map_eq_some_iff.1 hx
      exact Nat.le_add_right _ _
    · intro a ha
      by_cases hlt : a < v.memory.next
      · exact v.memory.block_alloc_of_lt _ hlt
      · obtain ⟨j, rfl⟩ := Nat.exists_eq_add_of_le (not_lt.1 hlt)
        have hall : ∀ j < 9, ∃ x ∈ tablePlaces, tableOffset x = some j := by decide
        have hj : ¬ j < 9 := by
          intro hj
          obtain ⟨x, -, hx⟩ := hall j hj
          exact ha (Layout.mem_footprint (x := x) (by
            change (tableOffset x).map _ = _
            rw [hx]
            rfl))
        rw [v.memory.fresh _ (Nat.le_add_right _ _)]
        change (v.memory.alloc _).block _ = none
        rw [v.memory.block_alloc_add]
        exact getElem?_eq_none (not_lt.1 hj)

/-- The id of a view is kept. -/
theorem Grown.writeViewId (h : Grown m₀ sps n D v) (hi : (i : ℤ) < n) (x : ℤ) :
    ∃ m', writeInt v.memory v.subsps.viewId i x = some m' ∧
      Grown m₀ sps n D { v with memory := m' } := by
  obtain ⟨L, len, h⟩ := h
  obtain ⟨a, l, ha, hl, hlen⟩ := h.holds.viewId_block (by rw [h.views]; omega)
  rw [h.views] at hlen
  refine ⟨_, by rw [ha, writeInt_eq hl (by omega)], L, len, h.put (h.holds.viewId.trans ha) ?_⟩
  change ((l.set i x).length : ℤ) = n
  rwa [length_set]

/-! ## The rows -/

/-- A reference is kept in its row. -/
theorem Grows.writeRef (h : Grows m₀ sps n D L len v) (hj : j < len k i) (x : ℤ) :
    ∃ m', ((readRow v.memory (v.subsps.refs k) i).bind fun row =>
      writeInt v.memory row j x) = some m' ∧
      Grows m₀ sps n D L len { v with memory := m' } := by
  have hne := h.full k i (by omega)
  obtain ⟨-, hlt, -⟩ := h.holds.rows k i hne
  obtain ⟨c, rows, hc, hrows, hlen, hentry⟩ := h.holds.refs_block k (by omega)
  obtain ⟨a, ha⟩ := ne_none_iff_exists'.1 hne
  obtain ⟨l, hl, hcount⟩ := h.holds.row_block ha
  refine ⟨v.memory.put a (.ints (l.set j x)), ?_, h.put ha ?_⟩
  · rw [hc, readRow_eq hrows, hentry i (by omega), bind_some, ha,
      writeInt_eq hl (by omega)]
  · change (l.set j x).length = len k i
    rwa [length_set]

/-- The numbers of references, with another one for the view `i`. -/
def withRow (len : RefKind → ℕ → ℕ) (k : RefKind) (i count : ℕ) (k' : RefKind) (j : ℕ) : ℕ :=
  if k' = k ∧ j = i then count else len k' j

theorem withRow_self (k : RefKind) (i count : ℕ) : withRow len k i count k i = count :=
  if_pos ⟨rfl, rfl⟩

theorem withRow_of_ne {k' : RefKind} (h : Place.row k' j ≠ .row k i) (count : ℕ) :
    withRow len k i count k' j = len k' j :=
  if_neg fun ⟨hk, hj⟩ => h (by rw [hk, hj])

variable {count : ℕ}

/-- A new row changes nothing for the blocks that do not hold its length or its address. -/
theorem Fits.withRow {ha : a ∉ L.footprint} (h : Fits L len n x b) (hrow : x ≠ .row k i)
    (hrefs : x ≠ .refs k) (hnum : x ≠ .num k) :
    Fits (L.insert (.row k i) a ha) (withRow len k i count) n x b := by
  have hne : ∀ {k' j}, k' ≠ k → Place.row k' j ≠ .row k i := fun hkk heq =>
    hkk (Place.row.inj heq).1
  cases x with
  | viewId => cases b <;> exact h
  | num k' =>
    have hkk : k' ≠ k := fun heq => hnum (congrArg Place.num heq)
    cases b with
    | rows l => exact h
    | ints l =>
      refine ⟨h.1, fun j hj => ?_⟩
      rw [withRow_of_ne (hne hkk)]
      exact h.2 j hj
  | refs k' =>
    have hkk : k' ≠ k := fun heq => hrefs (congrArg Place.refs heq)
    cases b with
    | ints l => exact h
    | rows l =>
      refine ⟨h.1, fun j hj => ?_⟩
      rw [L.insert_of_ne ha (hne hkk)]
      exact h.2 j hj
  | row k' j =>
    cases b with
    | rows l => exact h
    | ints l =>
      change l.length = H264d.withRow len k i count k' j
      rw [withRow_of_ne hrow]
      exact h

/-- The subset holds its tables with the new row, when the memory `m` has it, its length and
    its address. -/
theorem Holds.withRow {m' : Memory Block} (h : Holds L len m s) {c d : ℕ} (hi : 1 ≤ i)
    (hlt : (i : ℤ) < s.numViews) (ha : a ∉ L.footprint) (hcount : 0 < count) {nums : List ℤ}
    {rows : List (Option ℕ)} (hc : L.addr (.num k) = some c) (hnums : m.block c = some (.ints nums))
    (hd : L.addr (.refs k) = some d) (hrows : m.block d = some (.rows rows))
    (hrow' : m'.block a = some (.ints (List.replicate count 0)))
    (hnums' : m'.block c = some (.ints (nums.set i count)))
    (hrows' : m'.block d = some (.rows (rows.set i (some a))))
    (hother : ∀ b ∈ L.footprint, b ≠ c → b ≠ d → m'.block b = m.block b) :
    Holds (L.insert (.row k i) a ha) (withRow len k i count) m' s := by
  have hself : (L.insert (.row k i) a ha).addr (.row k i) = some a := L.insert_self _ ha
  have hne : ∀ {x}, x ≠ .row k i → (L.insert (.row k i) a ha).addr x = L.addr x :=
    fun hx => L.insert_of_ne ha hx
  have hrow_ne : ∀ {k' j}, j ≠ i → Place.row k' j ≠ .row k i := fun hj heq =>
    hj (Place.row.inj heq).2
  refine ⟨(hne (by rintro ⟨⟩)).trans h.viewId, fun k => (hne (by rintro ⟨⟩)).trans (h.num k),
    fun k => (hne (by rintro ⟨⟩)).trans (h.refs k), ?_, ?_, h.present,
    fun habs => absurd habs (by omega)⟩
  · intro k' j hrow
    by_cases hkj : Place.row k' j = .row k i
    · obtain ⟨rfl, rfl⟩ := Place.row.inj hkj
      rw [withRow_self]
      exact ⟨hi, hlt, hcount⟩
    · rw [hne hkj] at hrow
      rw [withRow_of_ne hkj]
      exact h.rows k' j hrow
  · intro x b hx
    by_cases hxrow : x = .row k i
    · -- the row itself
      subst hxrow
      obtain rfl := some_inj.1 (hself.symm.trans hx)
      refine ⟨_, hrow', ?_⟩
      change (List.replicate count (0 : ℤ)).length = H264d.withRow len k i count k i
      rw [length_replicate, withRow_self]
    rw [hne hxrow] at hx
    obtain ⟨w, hw, hfits⟩ := h.fits x b hx
    by_cases hxrefs : x = .refs k
    · -- the table with its address
      subst hxrefs
      obtain rfl := some_inj.1 (hd.symm.trans hx)
      obtain rfl := some_inj.1 (hrows.symm.trans hw)
      refine ⟨_, hrows', by rw [length_set]; exact hfits.1, fun j hj => ?_⟩
      rw [length_set] at hj
      by_cases hji : j = i
      · rw [hji, hself, getElem?_set_self (by omega)]
      · rw [getElem?_set_ne (Ne.symm hji), hfits.2 j hj, hne (hrow_ne hji)]
    by_cases hxnum : x = .num k
    · -- the table with its length
      subst hxnum
      obtain rfl := some_inj.1 (hc.symm.trans hx)
      obtain rfl := some_inj.1 (hnums.symm.trans hw)
      refine ⟨_, hnums', by rw [length_set]; exact hfits.1, fun j hj => ?_⟩
      rw [length_set] at hj
      by_cases hji : j = i
      · rw [hji, getElem?_set_self (by omega), withRow_self]
      · rw [getElem?_set_ne (Ne.symm hji), hfits.2 j hj, withRow_of_ne (hrow_ne hji)]
    have hbc : b ≠ c := by
      rintro rfl
      exact hxnum (L.inj hx hc)
    have hbd : b ≠ d := by
      rintro rfl
      exact hxrefs (L.inj hx hd)
    exact ⟨w, (hother b (Layout.mem_footprint hx) hbc hbd).trans hw,
      hfits.withRow hxrow hxrefs hxnum⟩

/-- The row of a view is allocated, after its length has been kept. -/
theorem Grows.allocRow (h : Grows m₀ sps n D L len v) (hi : 1 ≤ i) (hlt : (i : ℤ) < n)
    (hnone : L.addr (.row k i) = none) (hcount : 0 < count) {m₁ : Memory Block}
    (hm₁ : writeInt v.memory (v.subsps.num k) i count = some m₁) :
    ∃ m' L', writeRow (m₁.alloc [.ints (List.replicate count 0)]) (v.subsps.refs k) i
        (some m₁.next) = some m' ∧
      Grows m₀ sps n (fun k' j => D k' j ∨ k' = k ∧ j = i) L' (withRow len k i count)
        { v with memory := m' } := by
  have hviews := h.views
  obtain ⟨c, nums, hc, hnums, hlen, -⟩ := h.holds.num_block k (by omega)
  obtain ⟨d, rows, hd, hrows, hlen', -⟩ := h.holds.refs_block k (by omega)
  have hc' : L.addr (.num k) = some c := (h.holds.num k).trans hc
  have hd' : L.addr (.refs k) = some d := (h.holds.refs k).trans hd
  have hcmem := Layout.mem_footprint hc'
  have hdmem := Layout.mem_footprint hd'
  rw [hc, writeInt_eq hnums (by omega), some_inj] at hm₁
  have hnext : m₁.next = v.memory.next := by rw [← hm₁]; rfl
  have hlt₁ : ∀ b ∈ L.footprint, b < m₁.next := fun b hb => by
    rw [hnext]
    exact Memory.lt_next_of_block (h.holds.live b hb)
  have hnew : m₁.next ∉ L.footprint := fun hmem => lt_irrefl _ (hlt₁ _ hmem)
  have hdc : d ≠ c := by
    rintro rfl
    cases L.inj hc' hd'
  set m₂ := m₁.alloc [.ints (List.replicate count 0)]
  have hother₂ : ∀ b ∈ L.footprint, b ≠ c → m₂.block b = v.memory.block b := by
    intro b hb hbc
    rw [m₁.block_alloc_of_lt _ (hlt₁ b hb), ← hm₁, v.memory.block_put_of_ne hbc]
  have hnums₂ : m₂.block c = some (.ints (nums.set i count)) := by
    rw [m₁.block_alloc_of_lt _ (hlt₁ c hcmem), ← hm₁]
    exact v.memory.block_put_self (h.holds.live c hcmem) _
  have hrows₂ : m₂.block d = some (.rows rows) := (hother₂ d hdmem hdc).trans hrows
  refine ⟨m₂.put d (.rows (rows.set i (some m₁.next))), L.insert (.row k i) m₁.next hnew, ?_, ?_⟩
  · rw [hd, writeRow_eq hrows₂ (by omega)]
  refine ⟨?_, ?_, ?_, hviews, h.sps, ?_⟩
  · refine h.holds.withRow hi (by omega) hnew hcount hc' hnums hd' hrows ?_ ?_ ?_ ?_
    · rw [m₂.block_put_of_ne (hlt₁ d hdmem).ne']
      exact m₁.block_alloc_add _ 0
    · rw [m₂.block_put_of_ne hdc.symm, hnums₂]
    · exact m₂.block_put_self (by rw [hrows₂]; rfl) _
    · intro b hb hbc hbd
      rw [m₂.block_put_of_ne hbd, hother₂ b hb hbc]
  · intro k' j hpos
    by_cases hkj : Place.row k' j = .row k i
    · rw [hkj, L.insert_self _ hnew]
      nofun
    · rw [withRow_of_ne hkj] at hpos
      rw [L.insert_of_ne hnew hkj]
      exact h.full k' j hpos
  · have hmem : ∀ b, b ∈ (L.insert (.row k i) m₁.next hnew).footprint ↔
        b = m₁.next ∨ b ∈ L.footprint := fun b => Layout.mem_footprint_insert hnone
    refine Extends.put ?_ ((hmem d).2 (.inr hdmem)) _
    refine ⟨?_, fun b hb => ?_, fun b hb => ?_⟩
    · change m₀.next ≤ m₁.next + 1
      rw [hnext]
      exact h.added.next.trans (Nat.le_succ _)
    · rcases (hmem b).1 hb with rfl | hb
      · rw [hnext]
        exact h.added.next
      · exact h.added.new b hb
    · rw [hmem, not_or] at hb
      rw [← h.added.other b hb.2]
      by_cases hbc : b < m₁.next
      · have hne : b ≠ c := fun heq => hb.2 (heq ▸ hcmem)
        rw [m₁.block_alloc_of_lt _ hbc, ← hm₁, v.memory.block_put_of_ne hne]
      · have hgt : m₂.next ≤ b := by
          change m₁.next + 1 ≤ b
          have := hb.1
          omega
        rw [m₂.fresh b hgt, v.memory.fresh b (by omega)]
  · intro k' j hrow
    by_cases hkj : Place.row k' j = .row k i
    · exact .inr (Place.row.inj hkj)
    · rw [L.insert_of_ne hnew hkj] at hrow
      exact .inl (h.done k' j hrow)

/-- A view without references has no row, and its length is kept. -/
theorem Grows.writeNoRefs (h : Grows m₀ sps n D L len v) (hlt : (i : ℤ) < n)
    (hnone : L.addr (.row k i) = none) {m₁ : Memory Block}
    (hm₁ : writeInt v.memory (v.subsps.num k) i 0 = some m₁) :
    Grows m₀ sps n D L len { v with memory := m₁ } := by
  have hviews := h.views
  obtain ⟨c, nums, hc, hnums, hlen, hentry⟩ := h.holds.num_block k (by omega)
  rw [hc, writeInt_eq hnums (by omega), some_inj] at hm₁
  subst hm₁
  refine h.put ((h.holds.num k).trans hc) ⟨by rw [length_set]; omega, fun j hj => ?_⟩
  rw [length_set] at hj
  by_cases hji : j = i
  · rw [hji, getElem?_set_self (by omega), h.full.len_eq_zero hnone]
    rfl
  · rw [getElem?_set_ne (Ne.symm hji), hentry j hj]

/-! ## The programs -/

/-- A count in the bits is out of its range. -/
def Off : Miscount → Prop := (· = .miscounted)

/-- The program goes to the label, and the subset holds what has been added. -/
def Failing (m₀ : Memory Block) (sps : Sps) (e : Trap) (s : Cursor Scratch) : Prop :=
  e = .jump .bitreadErr ∧ s.bitRet < 0 ∧ ∃ n D, Grown m₀ sps n D s.val

theorem Failing.of_grown (h : Grown m₀ sps n D v) (s : Cursor Scratch) (hs : s.val = v)
    (hret : s.bitRet = mppErrReadBit) : Failing m₀ sps BitreadErr.label s := by
  refine ⟨rfl, ?_, n, D, hs ▸ h⟩
  rw [hret]
  decide

variable {P : Scratch → Prop}

/-- Both programs read a number. -/
theorem ueField_tracks (hP : ∀ v, P v → ∃ n D, Grown m₀ sps n D v) :
    Tracks P Off (Failing m₀ sps) ueField (ueField : CountParse UInt32) fun a b v => a = b ∧ P v :=
  .field _ _ fun s hs hret => by
    obtain ⟨n, D, h⟩ := hP _ hs
    exact .of_grown h s rfl hret

theorem flagField_tracks (hP : ∀ v, P v → ∃ n D, Grown m₀ sps n D v) :
    Tracks P Off (Failing m₀ sps) flagField (flagField : CountParse Bool) fun a b v =>
      a = b ∧ P v :=
  .field _ _ fun s hs hret => by
    obtain ⟨n, D, h⟩ := hP _ hs
    exact .of_grown h s rfl hret

variable {Q : Scratch → Prop} {f : Memory Block → SubSps → Option (Memory Block)}

/-- An access that is not a fault. -/
theorem access_step (h : ∀ v, P v → ∃ m', f v.memory v.subsps = some m' ∧ Q { v with memory := m' })
    (s : Cursor Scratch) (hs : P s.val) :
    ∃ a s', access f s = .ok a s' ∧ s'.reader = s.reader ∧ Q s'.val := by
  obtain ⟨m', hf, hQ⟩ := h s.val hs
  refine ⟨(), { s with val := { s.val with memory := m' } }, ?_, rfl, hQ⟩
  rw [access, hf]

theorem access_last (h : ∀ v, P v → ∃ m', f v.memory v.subsps = some m' ∧ Q { v with memory := m' })
    : Tracks P Off (Failing m₀ sps) (access f) (pure () : CountParse Unit) fun _ _ => Q :=
  .last (S := fun _ => Q) (access_step h)

theorem access_left {α β : Type} {R : α → β → Scratch → Prop} {g : Unit → SubsetParse α}
    {q : CountParse β}
    (h : ∀ v, P v → ∃ m', f v.memory v.subsps = some m' ∧ Q { v with memory := m' })
    (hg : Tracks Q Off (Failing m₀ sps) (g ()) q R) :
    Tracks P Off (Failing m₀ sps) (access f >>= g) q R :=
  .left (S := fun _ => Q) (access_step h) fun _ => hg

theorem readViewId_tracks (hi : (i : ℤ) < n) :
    Tracks (Grown m₀ sps n D) Off (Failing m₀ sps) (readViewId i) (skipNumber i)
      fun _ _ => Grown m₀ sps n D := by
  refine (ueField_tracks fun v hv => ⟨n, D, hv⟩).bind fun a b => ?_
  refine access_last fun v hv => ?_
  exact hv.2.writeViewId hi _

/-- The row of a view is there, with `count` entries. -/
def InRow (m₀ : Memory Block) (sps : Sps) (n : ℤ) (D : RefKind → ℕ → Prop) (k : RefKind)
    (i count : ℕ) (v : Scratch) : Prop :=
  ∃ L len, Grows m₀ sps n D L len v ∧ len k i = count

theorem readRef_tracks (hj : j < count) :
    Tracks (InRow m₀ sps n D k i count) Off (Failing m₀ sps) (readRef k i j) (skipNumber j)
      fun _ _ => InRow m₀ sps n D k i count := by
  refine (ueField_tracks fun v ⟨L, len, hv, _⟩ => ⟨n, D, L, len, hv⟩).bind fun a b => ?_
  refine access_last fun v hv => ?_
  obtain ⟨-, L, len, hv, hcount⟩ := hv
  obtain ⟨m', hm', hgrows⟩ := hv.writeRef (hcount ▸ hj) (toS32 a)
  exact ⟨m', hm', L, len, hgrows, hcount⟩

/-- The references of a view are read. It is a view that has none yet. -/
theorem readRefs_tracks (hi : 1 ≤ i) (hlt : (i : ℤ) < n) (hD : ¬D k i) :
    Tracks (Grown m₀ sps n D) Off (Failing m₀ sps) (readRefs k i) countRefs
      fun _ _ => Grown m₀ sps n fun k' j => D k' j ∨ k' = k ∧ j = i := by
  refine (ueField_tracks fun v hv => ⟨n, D, hv⟩).bind fun a b => .assume ?_
  rintro rfl
  by_cases hneg : toS32 a < 0
  · rw [if_pos hneg]
    exact .throw rfl
  rw [if_neg hneg]
  -- the length is kept before the row is there
  refine access_left (Q := fun v => ∃ u, Grown m₀ sps n D u ∧ v.subsps = u.subsps ∧
    writeInt u.memory (u.subsps.num k) i (toS32 a) = some v.memory) (fun v hv => ?_) ?_
  · obtain ⟨L, len, hv⟩ := hv
    have hviews := hv.views
    obtain ⟨c, nums, hc, hnums, hlen, -⟩ := hv.holds.num_block k (by omega)
    have hwrite := writeInt_eq hnums (show i < nums.length by omega) (toS32 a)
    rw [← hc] at hwrite
    exact ⟨_, hwrite, v, ⟨L, len, hv⟩, rfl, hwrite⟩
  split_ifs with hzero
  · rw [hzero]
    refine .pure fun v hv => ?_
    obtain ⟨u, ⟨L, len, hu⟩, hsub, hwrite⟩ := hv
    have hnone : L.addr (.row k i) = none := by
      by_contra hrow
      exact hD (hu.done k i hrow)
    have hgrown : Grown m₀ sps n D { u with memory := v.memory } :=
      ⟨L, len, hu.writeNoRefs hlt hnone (hzero ▸ hwrite)⟩
    obtain ⟨memory, subsps⟩ := v
    obtain rfl := hsub
    exact hgrown.mono fun _ _ h => .inl h
  · set D' := fun k' j => D k' j ∨ k' = k ∧ j = i
    have hpos : 0 < (toS32 a).toNat := by omega
    have hcast : (((toS32 a).toNat : ℕ) : ℤ) = toS32 a := Int.toNat_of_nonneg (by omega)
    refine access_left (Q := InRow m₀ sps n D' k i (toS32 a).toNat) (fun v hv => ?_) ?_
    · obtain ⟨u, ⟨L, len, hu⟩, hsub, hwrite⟩ := hv
      have hnone : L.addr (.row k i) = none := by
        by_contra hrow
        exact hD (hu.done k i hrow)
      rw [← hcast] at hwrite
      obtain ⟨m', L', hm', hgrows⟩ := hu.allocRow hi hlt hnone hpos hwrite
      obtain ⟨memory, subsps⟩ := v
      obtain rfl := hsub
      exact ⟨m', by rw [if_neg hneg]; exact hm', L', _, hgrows, withRow_self ..⟩
    · refine Tracks.mono (Tracks.loopFrom (I := fun _ => InRow m₀ sps n D' k i (toS32 a).toNat)
        fun j _ hj => readRef_tracks (by omega)) (fun v hv => hv) fun _ _ v hv => ?_
      obtain ⟨L, len, hgrows, -⟩ := hv
      exact ⟨L, len, hgrows⟩

/-- The references of the views in two lists are read. There are none yet in these lists. -/
theorem readLists_tracks (k k' : RefKind) (hk : k ≠ k') (B : RefKind → Prop) (hB : ¬B k ∧ ¬B k') :
    Tracks (Grown m₀ sps n fun l _ => B l) Off (Failing m₀ sps)
      (loopFrom (fun i => do readRefs k i; readRefs k' i) (n - 1).toNat 1)
      (loopFrom (fun _ => do countRefs; countRefs) (n - 1).toNat 1)
      fun _ _ => Grown m₀ sps n fun l _ => B l ∨ l = k ∨ l = k' := by
  refine Tracks.mono (Tracks.loopFrom (I := fun i => Grown m₀ sps n fun l j =>
    B l ∨ (l = k ∨ l = k') ∧ j < i) fun i hi hlt => ?_)
    (fun v hv => hv.mono fun l j h => Or.inl h) fun _ _ v hv => hv.mono ?_
  · have hfirst : Tracks (Grown m₀ sps n fun l j => B l ∨ (l = k ∨ l = k') ∧ j < i) Off
        (Failing m₀ sps) (readRefs k i) countRefs _ :=
      readRefs_tracks hi (by omega) (fun h => h.elim hB.1 fun h => lt_irrefl i h.2)
    have hsecond : Tracks
        (Grown m₀ sps n fun l j => (B l ∨ (l = k ∨ l = k') ∧ j < i) ∨ l = k ∧ j = i) Off
        (Failing m₀ sps) (readRefs k' i) countRefs _ :=
      readRefs_tracks hi (by omega)
        (fun h => h.elim (fun h => h.elim hB.2 fun h => lt_irrefl i h.2) fun h => hk h.1.symm)
    refine hfirst.bind fun _ _ => hsecond.mono (fun _ hv => hv) fun _ _ v hv => hv.mono ?_
    rintro l j (((hl | ⟨hl, hj⟩) | ⟨rfl, rfl⟩) | ⟨rfl, rfl⟩)
    · exact Or.inl hl
    · exact Or.inr ⟨hl, Nat.lt_succ_of_lt hj⟩
    · exact Or.inr ⟨Or.inl rfl, Nat.lt_succ_self _⟩
    · exact Or.inr ⟨Or.inr rfl, Nat.lt_succ_self _⟩
  · rintro l j (hl | ⟨hl, -⟩)
    · exact Or.inl hl
    · exact Or.inr hl

/-- The tables are allocated and read, for the number of views that is kept. -/
theorem readViews_tracks :
    Tracks (fun v => Bare m₀ sps v ∧ v.subsps.numViews = n) Off (Failing m₀ sps) (readViews n)
      (countViews n) fun _ _ => Grown m₀ sps n fun _ _ => True := by
  refine .left (S := fun _ => Grown m₀ sps n fun _ _ => False) (fun s hs => ?_) fun _ => ?_
  · obtain ⟨hbare, hviews⟩ := hs
    by_cases hpos : n > 0
    · refine ⟨(), { s with val := allocTables n.toNat s.val }, ?_, rfl,
        hbare.allocTables hviews hpos⟩
      rw [whenever, if_pos (decide_eq_true hpos)]
      rfl
    · refine ⟨(), s, ?_, rfl, hviews ▸ hbare.grown (by omega)⟩
      rw [whenever, if_neg (by rwa [decide_eq_true_eq])]
      rfl
  have hids : Tracks (Grown m₀ sps n fun _ _ => False) Off (Failing m₀ sps)
      (loopFrom readViewId n.toNat 0) (loopFrom skipNumber n.toNat 0)
      fun _ _ => Grown m₀ sps n fun _ _ => False :=
    .loopFrom (I := fun _ => Grown m₀ sps n fun _ _ => False) fun i _ hi =>
      readViewId_tracks (by omega)
  have hanchor : Tracks (Grown m₀ sps n _) Off (Failing m₀ sps) _ _ _ :=
    readLists_tracks .anchorL0 .anchorL1 (by decide) (fun _ => False) ⟨id, id⟩
  have hnonAnchor : Tracks (Grown m₀ sps n _) Off (Failing m₀ sps) _ _ _ :=
    readLists_tracks .nonAnchorL0 .nonAnchorL1 (by decide)
      (fun l => False ∨ l = .anchorL0 ∨ l = .anchorL1) (by decide)
  exact hids.bind fun _ _ => hanchor.bind fun _ _ =>
    hnonAnchor.mono (fun _ hv => hv) fun _ _ _ hv => hv.mono fun _ _ _ => trivial

theorem spsMvcExtension_tracks :
    Tracks (fun v => Bare m₀ sps v ∧ v.subsps.numViews = 0) Off (Failing m₀ sps) spsMvcExtension
      countExtension fun _ _ v => ∃ n, Grown m₀ sps n (fun _ _ => True) v := by
  refine (ueField_tracks fun v hv => ⟨_, _, hv.1.grown hv.2.le⟩).bind fun a b => .assume ?_
  rintro rfl
  refine .left (S := fun _ v => Bare m₀ sps v ∧ v.subsps.numViews = 1 + toS32 a)
    (fun s hs => ?_) fun _ => ?_
  · obtain ⟨⟨hmemory, hid, hnum, hrefs, hsps⟩, -⟩ := hs
    exact ⟨_, _, rfl, rfl, ⟨hmemory, hid, hnum, hrefs, hsps⟩, rfl⟩
  by_cases hcount : toS32 a < 16
  · rw [if_pos hcount, if_pos hcount]
    exact readViews_tracks.mono (fun _ hv => hv) fun _ _ _ hv => ⟨_, hv⟩
  · rw [if_neg hcount, if_neg hcount]
    exact .throw rfl

/-- The extension is read to its end, with every table, or the program fails with what has
    been allocated; unless a count is out of its range. -/
theorem parserSubspsExt_tracks (profileIdc : ℕ) :
    Tracks (fun v => Bare m₀ sps v ∧ v.subsps.numViews = 0) Off (Failing m₀ sps)
      (parserSubspsExt profileIdc) (countSubset profileIdc)
      fun _ _ v => ∃ n, Grown m₀ sps n (fun _ _ => True) v := by
  rw [parserSubspsExt, countSubset, whenever, whenever]
  split_ifs
  · have hone : Tracks (fun v => Bare m₀ sps v ∧ v.subsps.numViews = 0) Off (Failing m₀ sps)
        (into flagField fun bitEqualToOne s => { s with subsps := { s.subsps with bitEqualToOne } })
        (into flagField fun _ v => v : CountParse Unit)
        fun _ _ v => Bare m₀ sps v ∧ v.subsps.numViews = 0 :=
      (flagField_tracks fun v hv => ⟨_, _, hv.1.grown hv.2.le⟩).into fun a _ v hv => by
        obtain ⟨-, ⟨hmemory, hid, hnum, hrefs, hsps⟩, hviews⟩ := hv
        exact ⟨⟨hmemory, hid, hnum, hrefs, hsps⟩, hviews⟩
    refine hone.bind fun _ _ => spsMvcExtension_tracks.bind fun _ _ => ?_
    have hflag : ∀ v, (∃ n, Grown m₀ sps n (fun _ _ => True) v) → ∃ n D, Grown m₀ sps n D v := by
      rintro v ⟨n, hv⟩
      exact ⟨n, _, hv⟩
    refine (flagField_tracks hflag).into fun a _ v hv => ?_
    obtain ⟨-, n, L, len, hv⟩ := hv
    obtain ⟨hviewId, hnum, hrefs, hrows, hfits, hpresent, habsent⟩ := hv.holds
    exact ⟨n, L, len, ⟨hviewId, hnum, hrefs, hrows, hfits, hpresent, habsent⟩, hv.full, hv.added,
      hv.views, hv.sps, hv.done⟩
  · exact .pure fun v hv => ⟨_, (hv.1.grown hv.2.le).mono fun _ _ h => h.elim⟩

end Libmpp.H264d
