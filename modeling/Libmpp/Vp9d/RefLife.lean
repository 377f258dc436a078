import Libmpp.Vp9d.Refs

/-!
# The lifetime of VP9 references

An info counts the entries that point to it, and the codec holds just the slots of the
infos there are (`RefInv`). Each of the three operations on an entry keeps that: to
unreference one that points to an info, to reference or to allocate for one that points to
none. A parse that stops in between leaves a state after some of them, so it keeps it, too,
as do the others that use the slots (`refInv_step`): thus it holds whenever the decoder is
between two packets, and after a reset or at the end no slot is held
(`reachable_refLife`).
-/

namespace Libmpp.Vp9d

open Base Function Option

variable {s s' : VP9Context} {e e' : Entry} {r r' : ℕ} {pkt : Packet}

/-- The entries that point to an info. -/
def users (s : VP9Context) (r : ℕ) : Finset Entry :=
  Finset.univ.filter fun e => (s.entry e).ref = some r

@[simp] theorem mem_users : e ∈ users s r ↔ (s.entry e).ref = some r := by
  simp [users]

/-- The slots of the infos there are. -/
def heldSlots (s : VP9Context) : Set ℕ := {i | ∃ r, (s.info r).isSome ∧ s.createdWith r = i}

structure RefInv (s : VP9Context) : Prop where
  fresh : ∀ r, s.infos ≤ r → s.info r = none
  counted : ∀ r info, s.info r = some info → info.refCount = (users s r).card
  pointed : ∀ r, (s.info r).isSome → (users s r).Nonempty
  live : ∀ e r, (s.entry e).ref = some r → (s.info r).isSome
  slotIndex : ∀ e r, (s.entry e).ref = some r → (s.entry e).slotIndex = s.createdWith r
  created : ∀ r, (s.info r).isSome → ∃ i : ℕ, s.createdWith r = i
  injective : ∀ r r', (s.info r).isSome → (s.info r').isSome →
    s.createdWith r = s.createdWith r' → r = r'
  holds : CodecHolds s.slots (heldSlots s)
  length : s.slots.entries.length = 25

/-! ## Writing entries and infos -/

namespace VP9Context

variable {f : VP9Frame} {info : Option VP9RefInfo}

@[simp] theorem setEntry_self : (s.setEntry e f).entry e = f := update_self ..

@[simp] theorem setEntry_of_ne (he : e' ≠ e) : (s.setEntry e f).entry e' = s.entry e' :=
  update_of_ne he ..

@[simp] theorem setInfo_self : (s.setInfo r info).info r = info := update_self ..

end VP9Context

theorem users_setEntry (f : VP9Frame) : users (s.setEntry e f) r =
    if f.ref = some r then insert e (users s r) else (users s r).erase e := by
  ext e'
  by_cases he : e' = e
  · subst he
    split_ifs with hf <;> simp [hf]
  · split_ifs <;> simp [he]

/-- The slot of an entry is one there is. -/
theorem RefInv.slot (h : RefInv s) (hr : (s.entry e).ref = some r) :
    ∃ i : ℕ, (s.entry e).slotIndex = i ∧ s.createdWith r = i ∧ i < 25 := by
  obtain ⟨i, hi⟩ := h.created r (h.live e r hr)
  refine ⟨i, (h.slotIndex e r hr).trans hi, hi, ?_⟩
  rw [← h.length]
  exact h.holds.lt i ⟨r, h.live e r hr, hi⟩

variable {slots : MppBufSlotsImpl}

/-- What leaves the codec's flags alone. -/
theorem RefInv.of_same (h : RefInv s) (hs : SameCodec s.slots slots) : RefInv { s with slots } :=
  { h with holds := h.holds.of_same hs, length := hs.length.trans h.length }

/-! ## One entry -/

/-- The last entry that points to an info: the info is freed, and its slot given back. -/
theorem RefInv.free (h : RefInv s) (hr : (s.entry e).ref = some r) (huser : users s r = {e}) {i : ℕ}
    (hi : s.createdWith r = i) {put : List (Option ℕ)}
    (hslots : CodecHolds slots (heldSlots s \ {i})) (hlen : slots.entries.length = 25) :
    RefInv (({ s with slots, put }.setInfo r none).setEntry e { slotIndex := 0xff, ref := none }) := by
  set s₁ := ({ s with slots, put }.setInfo r none).setEntry e { slotIndex := 0xff, ref := none }
    with hs₁
  -- the other infos, and their users, stay
  have hinfo : ∀ r', (s₁.info r').isSome → r' ≠ r ∧ s₁.info r' = s.info r' := by
    intro r' hr'
    by_cases hne : r' = r
    · subst hne
      simp [hs₁, VP9Context.setEntry] at hr'
    · exact ⟨hne, update_of_ne hne ..⟩
  have husers : ∀ r', r' ≠ r → users s₁ r' = users s r' := by
    intro r' hne
    have hnot : e ∉ users s r' := fun hmem =>
      hne (some.inj ((mem_users.1 hmem).symm.trans hr))
    exact (users_setEntry _).trans ((if_neg (by simp)).trans (Finset.erase_eq_of_notMem hnot))
  have hentry : ∀ e' r', (s₁.entry e').ref = some r' →
      r' ≠ r ∧ s₁.entry e' = s.entry e' := by
    intro e' r' hr'
    by_cases he : e' = e
    · subst he
      simp [hs₁] at hr'
    · have hsame : s₁.entry e' = s.entry e' := update_of_ne he ..
      refine ⟨?_, hsame⟩
      rintro rfl
      have hmem : e' ∈ users s r' := mem_users.2 (hsame ▸ hr')
      exact he (Finset.mem_singleton.1 (huser ▸ hmem))
  have hback : ∀ r', r' ≠ r → s₁.info r' = s.info r' := fun r' hne => update_of_ne hne ..
  refine ⟨?_, ?_, ?_, ?_, ?_, ?_, ?_, ?_, hlen⟩
  · intro r' hr'
    by_cases hne : r' = r
    · subst hne
      exact update_self ..
    · exact (hback r' hne).trans (h.fresh r' hr')
  · intro r' info hr'
    obtain ⟨hne, hsame⟩ := hinfo r' (hr' ▸ rfl)
    rw [husers r' hne]
    exact h.counted r' info (hsame ▸ hr')
  · intro r' hr'
    obtain ⟨hne, hsame⟩ := hinfo r' hr'
    rw [husers r' hne]
    exact h.pointed r' (hsame ▸ hr')
  · intro e' r' hr'
    obtain ⟨hne, hsame⟩ := hentry e' r' hr'
    rw [hback r' hne]
    exact h.live e' r' (hsame ▸ hr')
  · intro e' r' hr'
    obtain ⟨-, hsame⟩ := hentry e' r' hr'
    rw [hsame]
    exact h.slotIndex e' r' (hsame ▸ hr')
  · intro r' hr'
    exact h.created r' ((hinfo r' hr').2 ▸ hr')
  · intro r₁ r₂ hr₁ hr₂
    exact h.injective r₁ r₂ ((hinfo r₁ hr₁).2 ▸ hr₁) ((hinfo r₂ hr₂).2 ▸ hr₂)
  · have hheld : heldSlots s₁ = heldSlots s \ {i} := by
      ext j
      constructor
      · rintro ⟨r', hr', hj⟩
        obtain ⟨hne, hsame⟩ := hinfo r' hr'
        refine ⟨⟨r', hsame ▸ hr', hj⟩, fun hji => hne ?_⟩
        refine h.injective r' r (hsame ▸ hr') (h.live e r hr) ?_
        rw [hi, ← Set.mem_singleton_iff.1 hji]
        exact hj
      · rintro ⟨⟨r', hr', hj⟩, hji⟩
        have hne : r' ≠ r := by
          rintro rfl
          exact hji (Nat.cast_injective (hj.symm.trans hi))
        exact ⟨r', (hback r' hne).symm ▸ hr', hj⟩
    rw [hheld]
    exact hslots

/-- The users of an info change, and its count with them. -/
theorem RefInv.recount (h : RefInv s) {info : VP9RefInfo} (hinfo : (s.info r).isSome)
    {f : VP9Frame} (hcount : info.refCount = (users (s.setEntry e f) r).card)
    (hpointed : (users (s.setEntry e f) r).Nonempty)
    (hf : f.ref = some r ∧ f.slotIndex = s.createdWith r ∨ f.ref = none)
    (he : (s.entry e).ref = some r ∨ (s.entry e).ref = none) :
    RefInv ((s.setInfo r (some info)).setEntry e f) := by
  set s₁ := (s.setInfo r (some info)).setEntry e f with hs₁
  have hlive : ∀ r', (s₁.info r').isSome = (s.info r').isSome := by
    intro r'
    by_cases hne : r' = r
    · subst hne
      rw [hinfo]
      simp [hs₁, VP9Context.setEntry]
    · exact congrArg _ (update_of_ne hne ..)
  have husers : ∀ r', r' ≠ r → users s₁ r' = users s r' := by
    intro r' hne
    have hf' : f.ref ≠ some r' := by
      rcases hf with ⟨hf, -⟩ | hf
      · rw [hf]
        exact fun heq => hne (some.inj heq).symm
      · simp [hf]
    have hnot : e ∉ users s r' := by
      rw [mem_users]
      rcases he with he | he
      · rw [he]
        exact fun heq => hne (some.inj heq).symm
      · simp [he]
    exact (users_setEntry f).trans ((if_neg hf').trans (Finset.erase_eq_of_notMem hnot))
  have hentry : ∀ e' r', (s₁.entry e').ref = some r' →
      (s.info r').isSome ∧ (s₁.entry e').slotIndex = s.createdWith r' := by
    intro e' r' hr'
    by_cases he' : e' = e
    · subst he'
      rw [hs₁, VP9Context.setEntry_self] at hr' ⊢
      rcases hf with ⟨hf, hslot⟩ | hf
      · obtain rfl := some.inj (hf.symm.trans hr')
        exact ⟨hinfo, hslot⟩
      · simp [hf] at hr'
    · have hsame : s₁.entry e' = s.entry e' := update_of_ne he' ..
      rw [hsame] at hr' ⊢
      exact ⟨h.live e' r' hr', h.slotIndex e' r' hr'⟩
  refine ⟨?_, ?_, ?_, ?_, ?_, ?_, ?_, ?_, h.length⟩
  · intro r' hr'
    have hnone := h.fresh r' hr'
    rw [← not_isSome_iff_eq_none, ← hlive r', not_isSome_iff_eq_none] at hnone
    exact hnone
  · intro r' info' hr'
    by_cases hne : r' = r
    · subst hne
      obtain rfl : info = info' := by simpa [hs₁, VP9Context.setEntry] using hr'
      exact hcount
    · rw [husers r' hne]
      exact h.counted r' info' ((update_of_ne hne ..).symm.trans hr')
  · intro r' hr'
    by_cases hne : r' = r
    · subst hne
      exact hpointed
    · rw [husers r' hne]
      exact h.pointed r' (hlive r' ▸ hr')
  · exact fun e' r' hr' => (hlive r').symm ▸ (hentry e' r' hr').1
  · exact fun e' r' hr' => (hentry e' r' hr').2
  · exact fun r' hr' => h.created r' (hlive r' ▸ hr')
  · exact fun r₁ r₂ hr₁ hr₂ => h.injective r₁ r₂ (hlive r₁ ▸ hr₁) (hlive r₂ ▸ hr₂)
  · have hheld : heldSlots s₁ = heldSlots s := by
      ext i
      refine exists_congr fun r' => ?_
      rw [hlive r']
      rfl
    rw [hheld]
    exact h.holds

/-- A new info, for an entry that points to none. -/
theorem RefInv.create (h : RefInv s) (he : (s.entry e).ref = none) {i : ℕ} (hi : i ∉ heldSlots s)
    (hholds : CodecHolds slots (insert i (heldSlots s))) (hlen : slots.entries.length = 25)
    {info : VP9RefInfo} (hcount : info.refCount = 1) :
    RefInv (({ s with
      slots, infos := s.infos + 1,
      createdWith := update s.createdWith s.infos i }.setInfo s.infos
        (some info)).setEntry e { slotIndex := i, ref := some s.infos }) := by
  set s₁ := ({ s with
      slots, infos := s.infos + 1,
      createdWith := update s.createdWith s.infos i }.setInfo s.infos
        (some info)).setEntry e { slotIndex := i, ref := some s.infos } with hs₁
  have hself : s₁.info s.infos = some info := update_self ..
  have hslot : s₁.createdWith s.infos = i := update_self ..
  have hold : ∀ r, (s.info r).isSome → r ≠ s.infos := by
    rintro r hr rfl
    rw [h.fresh s.infos le_rfl] at hr
    exact absurd hr (by simp)
  -- the other infos stay
  have hback : ∀ r, r ≠ s.infos → s₁.info r = s.info r ∧ s₁.createdWith r = s.createdWith r :=
    fun r hne => ⟨update_of_ne hne .., update_of_ne hne ..⟩
  have husers : users s₁ s.infos = {e} := by
    have hnone : users s s.infos = ∅ := by
      ext e'
      simpa using fun hr => hold _ (h.live e' s.infos hr) rfl
    exact (users_setEntry _).trans ((if_pos rfl).trans
      ((congrArg (insert e) hnone).trans (insert_empty_eq e)))
  have husers' : ∀ r, r ≠ s.infos → users s₁ r = users s r := by
    intro r hne
    have hnot : e ∉ users s r := by
      rw [mem_users, he]
      simp
    refine (users_setEntry _).trans ((if_neg ?_).trans (Finset.erase_eq_of_notMem hnot))
    exact fun heq => hne (some.inj heq).symm
  have hentry : ∀ e' r, (s₁.entry e').ref = some r →
      e' = e ∧ r = s.infos ∨ r ≠ s.infos ∧ s₁.entry e' = s.entry e' := by
    intro e' r hr
    by_cases he' : e' = e
    · subst he'
      rw [hs₁, VP9Context.setEntry_self] at hr
      exact .inl ⟨rfl, (some.inj hr).symm⟩
    · have hsame : s₁.entry e' = s.entry e' := update_of_ne he' ..
      exact .inr ⟨hold r (h.live e' r (hsame ▸ hr)), hsame⟩
  refine ⟨?_, ?_, ?_, ?_, ?_, ?_, ?_, ?_, hlen⟩
  · intro r hr
    have hne : r ≠ s.infos := (Nat.lt_of_succ_le hr).ne'
    rw [(hback r hne).1]
    exact h.fresh r (Nat.le_of_succ_le hr)
  · intro r info' hr
    by_cases hne : r = s.infos
    · subst hne
      obtain rfl := some.inj (hself.symm.trans hr)
      rw [husers, hcount]
      rfl
    · rw [husers' r hne]
      exact h.counted r info' ((hback r hne).1 ▸ hr)
  · intro r hr
    by_cases hne : r = s.infos
    · subst hne
      rw [husers]
      exact Finset.singleton_nonempty e
    · rw [husers' r hne]
      exact h.pointed r ((hback r hne).1 ▸ hr)
  · intro e' r hr
    obtain ⟨-, rfl⟩ | ⟨hne, hsame⟩ := hentry e' r hr
    · rw [hself]
      rfl
    · rw [(hback r hne).1]
      exact h.live e' r (hsame ▸ hr)
  · intro e' r hr
    obtain ⟨rfl, rfl⟩ | ⟨hne, hsame⟩ := hentry e' r hr
    · rw [hslot, hs₁, VP9Context.setEntry_self]
    · rw [(hback r hne).2, hsame]
      exact h.slotIndex e' r (hsame ▸ hr)
  · intro r hr
    by_cases hne : r = s.infos
    · exact ⟨i, hne ▸ hslot⟩
    · rw [(hback r hne).2]
      exact h.created r ((hback r hne).1 ▸ hr)
  · have hdiff : ∀ r, r ≠ s.infos → (s₁.info r).isSome → s₁.createdWith r ≠ i := by
      intro r hne hr heq
      rw [(hback r hne).1] at hr
      rw [(hback r hne).2] at heq
      exact hi ⟨r, hr, heq⟩
    intro r r' hr hr' heq
    by_cases hne : r = s.infos
    · by_cases hne' : r' = s.infos
      · exact hne.trans hne'.symm
      · rw [hne, hslot] at heq
        exact absurd heq.symm (hdiff r' hne' hr')
    · by_cases hne' : r' = s.infos
      · rw [hne', hslot] at heq
        exact absurd heq (hdiff r hne hr)
      · rw [(hback r hne).2, (hback r' hne').2] at heq
        exact h.injective r r' ((hback r hne).1 ▸ hr) ((hback r' hne').1 ▸ hr') heq
  · have hheld : heldSlots s₁ = insert i (heldSlots s) := by
      ext j
      rw [Set.mem_insert_iff]
      constructor
      · rintro ⟨r, hr, hj⟩
        by_cases hne : r = s.infos
        · rw [hne, hslot] at hj
          exact .inl (Nat.cast_injective hj).symm
        · exact .inr ⟨r, (hback r hne).1 ▸ hr, (hback r hne).2 ▸ hj⟩
      · rintro (rfl | ⟨r, hr, hj⟩)
        · exact ⟨s.infos, by rw [hself]; rfl, hslot⟩
        · have hne := hold r hr
          exact ⟨r, (hback r hne).1.symm ▸ hr, (hback r hne).2.trans hj⟩
    rw [hheld]
    exact hholds

/-! ## The operations -/

/-- Only one entry is written, and it ends as it should. -/
structure Writes (s s' : VP9Context) (e : Entry) (P : VP9Frame → Prop) : Prop where
  inv : RefInv s'
  self : P (s'.entry e)
  rest : ∀ e' ≠ e, s'.entry e' = s.entry e'

/-- An entry that points to an info is unreferenced: there is nothing that fails. -/
theorem RefInv.unref (h : RefInv s) (hr : (s.entry e).ref = some r) :
    ∃ s', vp9UnrefFrame s e = some s' ∧ Writes s s' e fun f => f.ref = none := by
  obtain ⟨info, hinfo⟩ := isSome_iff_exists.1 (h.live e r hr)
  obtain ⟨i, hindex, hi, hlt⟩ := h.slot hr
  have hmem : e ∈ users s r := mem_users.2 hr
  have hcount := h.counted r info hinfo
  have hpos : 0 < (users s r).card := Finset.card_pos.2 ⟨e, hmem⟩
  have hguard : ¬(info.refCount ≤ 0 ∨ (s.entry e).slotIndex ≥ 0x7f) := by
    rw [hindex]
    omega
  obtain ⟨block, slot, hat⟩ := h.holds.slotAt (h.length ▸ hlt)
  rw [vp9UnrefFrame]
  dsimp only
  rw [hr, bind_eq_bind, bind_some, hinfo, bind_eq_bind, bind_some,
    if_neg hguard]
  by_cases hone : info.refCount - 1 = 0
  · obtain ⟨e₁, huser⟩ := Finset.card_eq_one.1 (by omega : (users s r).card = 1)
    obtain rfl := Finset.mem_singleton.1 (huser ▸ hmem)
    obtain ⟨put, hput⟩ : ∃ put, hiddenBuffer s info i = some put := by
      rw [hiddenBuffer, mppBufSlotGetProp, hat]
      split_ifs
      · exact ⟨_, rfl⟩
      · exact ⟨_, rfl⟩
    obtain ⟨res, hres⟩ : ∃ res, mppBufSlotClrFlag s.slots i .codecUse = some res := by
      rw [mppBufSlotClrFlag, hat]
      exact ⟨_, rfl⟩
    obtain ⟨hholds, hlen⟩ := h.holds.clr hres
    rw [if_pos hone, hindex, hput, bind_eq_bind, bind_some, hres,
      bind_eq_bind, bind_some]
    refine ⟨_, rfl, h.free hr huser hi hholds (hlen.trans h.length), ?_, fun e' he' => ?_⟩
    · simp
    · exact update_of_ne he' ..
  · rw [if_neg hone]
    have hcard : users (s.setEntry e { s.entry e with ref := none }) r = (users s r).erase e :=
      (users_setEntry _).trans (if_neg (by simp))
    have hcard' := Finset.card_erase_of_mem hmem
    refine ⟨_, rfl, h.recount (h.live e r hr) ?_ ?_ (.inr rfl) (.inl hr), ?_, fun e' he' => ?_⟩
    · rw [hcard, hcard']
      dsimp only
      omega
    · rw [hcard, ← Finset.card_pos, hcard']
      omega
    · simp
    · exact update_of_ne he' ..

/-- Unreferenced or not, the entry points to nothing then. -/
theorem RefInv.unrefEntry (h : RefInv s) (e : Entry) :
    ∃ s', unrefEntry s e = some s' ∧ Writes s s' e fun f => f.ref = none := by
  rw [Vp9d.unrefEntry]
  split_ifs with hr
  · exact ⟨s, rfl, h, hr, fun _ _ => rfl⟩
  · obtain ⟨r, hr⟩ := ne_none_iff_exists'.1 hr
    exact h.unref hr

/-- An entry that points to nothing is made to point to what another does. -/
theorem RefInv.refFrame {dst src : Entry} (h : RefInv s) (hdst : (s.entry dst).ref = none)
    (hr : (s.entry src).ref = some r) :
    ∃ s', vp9RefFrame s dst src = some (0, s') ∧ Writes s s' dst fun f => f = s.entry src := by
  obtain ⟨info, hinfo⟩ := isSome_iff_exists.1 (h.live src r hr)
  obtain ⟨i, hindex, hi, hlt⟩ := h.slot hr
  have hguard : ¬(s.entry src).slotIndex ≥ 0x7f := by
    rw [hindex]
    omega
  obtain ⟨block, slot, hat⟩ := h.holds.slotAt (h.length ▸ hlt)
  obtain ⟨val, hval⟩ : ∃ val, mppBufSlotGetProp s.slots (s.entry src).slotIndex .frame =
      some val := by
    rw [hindex, mppBufSlotGetProp, hat]
    exact ⟨_, rfl⟩
  rw [vp9RefFrame, hr]
  dsimp only
  rw [if_neg hguard, hinfo, bind_eq_bind, bind_some, hval, bind_eq_bind,
    bind_some]
  have hnot : dst ∉ users s r := by
    rw [mem_users, hdst]
    simp
  have husers : users (s.setEntry dst { slotIndex := (s.entry src).slotIndex, ref := some r }) r =
      insert dst (users s r) := (users_setEntry _).trans (if_pos rfl)
  refine ⟨_, rfl, h.recount (f := { slotIndex := (s.entry src).slotIndex, ref := some r })
    (h.live src r hr) ?_ ?_ (.inl ⟨rfl, h.slotIndex src r hr⟩) (.inr hdst), ?_,
      fun e' he' => update_of_ne he' ..⟩
  · rw [husers, Finset.card_insert_of_notMem hnot]
    have hcount := h.counted r info hinfo
    dsimp only
    omega
  · rw [husers]
    exact Finset.insert_nonempty ..
  · refine (VP9Context.setEntry_self ..).trans ?_
    rw [← hr]
    rfl

/-- An entry that points to nothing is given a new info, with a slot nobody uses. -/
theorem RefInv.allocFrame (h : RefInv s) (he : (s.entry e).ref = none)
    (hst : vp9AllocFrame s e pkt = some s') :
    Writes s s' e fun f => f.ref = some s.infos := by
  obtain ⟨⟨index, slots₁⟩, h₁, hst⟩ := bind_eq_some_iff.1 hst
  obtain ⟨slots₂, h₂, hst⟩ := bind_eq_some_iff.1 hst
  obtain ⟨slots₃, h₃, hst⟩ := bind_eq_some_iff.1 hst
  obtain ⟨slots₄, h₄, hst⟩ := bind_eq_some_iff.1 hst
  obtain rfl := some.inj hst
  obtain ⟨i, hindex, hnot, hlt, hholds₁, hlen₁, hused⟩ := h.holds.getUnused h₁
  dsimp only at hindex hholds₁ hlen₁ hused
  subst hindex
  have hothers : ByOthers (.setProp i (.frame pkt.frame pkt.changed)) := by simp [ByOthers]
  have hsame₂ : SameCodec slots₁ slots₂ := sameCodec_step hothers hholds₁.newCount.symm h₂
  have hholds₂ := hholds₁.of_same hsame₂
  have hused₂ : ∀ slot, slots₂.entries[i]? = some slot → slot.status.onUsed = true := by
    intro slot hslot
    obtain ⟨hedit, -⟩ := setProp_edited h₂
    rw [Int.toNat_natCast] at hedit
    have hget : slots₁.entries[i]? = some slots₁.entries[i] :=
      List.getElem?_eq_getElem (hlen₁ ▸ hlt)
    obtain rfl := some.inj ((hedit.getElem?_self hget).symm.trans hslot)
    have hget_used := hused _ hget
    exact hget_used
  obtain ⟨hholds₃, hlen₃⟩ := hholds₂.set hused₂ h₃
  have hsame₄ : SameCodec slots₃ slots₄ :=
    sameCodec_step (rfl : ByOthers (.setFlag i .halOutput)) hholds₃.newCount.symm h₄
  have hlen₄ : slots₄.entries.length = 25 := by
    rw [hsame₄.length, hlen₃, hsame₂.length, hlen₁, h.length]
  exact ⟨h.create he hnot (hholds₃.of_same hsame₄) hlen₄ rfl, by simp, fun e' he' =>
    update_of_ne he' ..⟩

/-- The others, and the parser where it does not hold or give back a slot. -/
theorem RefInv.slotStep (h : RefInv s) (op : SlotOp) (hop : ByOthers op)
    (hst : slotStep s.slots op = some slots) : RefInv { s with slots } :=
  h.of_same (sameCodec_step hop h.holds.newCount.symm hst)

/-- An info is written, its count aside. -/
theorem RefInv.setInfo (h : RefInv s) {info info' : VP9RefInfo} (hinfo : s.info r = some info)
    (hcount : info'.refCount = info.refCount) : RefInv (s.setInfo r (some info')) := by
  have hlive : (s.info r).isSome := hinfo ▸ rfl
  obtain ⟨e, he⟩ := h.pointed r hlive
  have hsame : s.setEntry e (s.entry e) = s := by
    rw [VP9Context.setEntry, update_eq_self]
  have hwrite : RefInv ((s.setInfo r (some info')).setEntry e (s.entry e)) := by
    refine h.recount hlive ?_ ?_ (.inl ⟨mem_users.1 he, h.slotIndex e r (mem_users.1 he)⟩)
      (.inl (mem_users.1 he))
    · rw [hsame, hcount, h.counted r info hinfo]
    · rw [hsame]
      exact ⟨e, he⟩
  have hentry : (s.setInfo r (some info')).setEntry e (s.entry e) = s.setInfo r (some info') := by
    rw [VP9Context.setEntry]
    exact congrArg (fun f => { s.setInfo r (some info') with entry := f })
      (update_eq_self ..)
  exact hentry ▸ hwrite

/-! ## A packet -/

theorem RefInv.decodeParserHeader (h : RefInv s) {ret : ℤ}
    (hst : decodeParserHeader s pkt = some (ret, s')) : RefInv s' := by
  rw [Vp9d.decodeParserHeader] at hst
  split_ifs at hst
  · exact (Prod.mk.inj (some.inj hst)).2 ▸ h
  · split at hst
    · exact (Prod.mk.inj (some.inj hst)).2 ▸ h
    · rename_i r hr
      obtain ⟨-, -, hst⟩ := bind_eq_some_iff.1 hst
      obtain ⟨slots₁, h₁, hst⟩ := bind_eq_some_iff.1 hst
      obtain ⟨slots₂, h₂, hst⟩ := bind_eq_some_iff.1 hst
      obtain ⟨info, hinfo, hst⟩ := bind_eq_some_iff.1 hst
      obtain ⟨-, rfl⟩ := Prod.mk.inj (some.inj hst)
      have hinv₁ := h.slotStep (.setFlag _ .queueUse) rfl h₁
      have hinv₂ := hinv₁.slotStep (.enqueue _ .display) rfl h₂
      exact hinv₂.setInfo hinfo rfl
  · exact (Prod.mk.inj (some.inj hst)).2 ▸ h
  · exact (Prod.mk.inj (some.inj hst)).2 ▸ h

/-- Only the slots change, and they keep the codec's flags. -/
theorem RefInv.setRefer (h : RefInv s) {l : List (Fin 3)} {refer refer' : Fin 3 → ℤ}
    (hst : setRefer s pkt l refer = some (refer', s')) : RefInv s' ∧ s'.entry = s.entry := by
  induction l generalizing s refer with
  | nil =>
    obtain ⟨-, rfl⟩ := Prod.mk.inj (some.inj hst)
    exact ⟨h, rfl⟩
  | cons i l ih =>
    rw [Vp9d.setRefer] at hst
    split_ifs at hst
    · obtain ⟨slots, h₁, hst⟩ := bind_eq_some_iff.1 hst
      obtain ⟨-, -, hst⟩ := bind_eq_some_iff.1 hst
      have hinv₁ := h.slotStep (.setFlag _ .halInput) rfl h₁
      obtain ⟨hinv', hentry⟩ := ih hinv₁ hst
      exact ⟨hinv', hentry⟩
    · exact ih h hst

theorem RefInv.queueShown (h : RefInv s) {output : ℤ} (hst : queueShown s pkt output = some s') :
    RefInv s' ∧ s'.entry = s.entry := by
  rw [Vp9d.queueShown] at hst
  split_ifs at hst
  · obtain ⟨slots₁, h₁, hst⟩ := bind_eq_some_iff.1 hst
    obtain ⟨slots₂, h₂, hst⟩ := bind_eq_some_iff.1 hst
    obtain rfl := some.inj hst
    have hinv₁ := h.slotStep (.setFlag _ .queueUse) rfl h₁
    exact ⟨hinv₁.slotStep (.enqueue _ .display) rfl h₂, rfl⟩
  · obtain rfl := some.inj hst
    exact ⟨h, rfl⟩

/-- The refresh keeps the current frame, and what it refers to. -/
theorem RefInv.refreshRefs (h : RefInv s) (hcur : (s.entry curFrame).ref = some r)
    {l : List (Fin 8)} (hst : refreshRefs s pkt l = some s') : RefInv s' := by
  induction l generalizing s with
  | nil => exact some.inj hst ▸ h
  | cons i l ih =>
    rw [Vp9d.refreshRefs] at hst
    split_ifs at hst
    · obtain ⟨s₁, hs₁, hw₁⟩ := h.unrefEntry (.inr i)
      have hcur₁ : (s₁.entry curFrame).ref = some r := by
        rw [hw₁.rest curFrame (by simp [curFrame]), hcur]
      obtain ⟨s₂, hs₂, hw₂⟩ := hw₁.inv.refFrame hw₁.self hcur₁
      rw [hs₁, bind_eq_bind, bind_some, hs₂, bind_eq_bind,
        bind_some] at hst
      dsimp only at hst
      rw [if_neg (lt_irrefl 0)] at hst
      refine ih hw₂.inv ?_ hst
      rw [hw₂.rest curFrame (by simp [curFrame]), hcur₁]
    · exact ih h hcur hst

theorem RefInv.refMvpair (h : RefInv s) (hmv : (s.entry refFrameMvpair).ref = none) {ret : ℤ}
    (hst : refMvpair s pkt = some (ret, s')) : RefInv s' := by
  rw [Vp9d.refMvpair] at hst
  split_ifs at hst with hcond
  · obtain ⟨r, hr⟩ := isSome_iff_exists.1 (Bool.and_eq_true_iff.1 hcond).2
    obtain ⟨s₁, hs₁, hw₁⟩ := h.refFrame hmv hr
    exact (Prod.mk.inj (some.inj (hs₁.symm.trans hst))).2 ▸ hw₁.inv
  · exact (Prod.mk.inj (some.inj hst)).2 ▸ h

theorem RefInv.parserFrame (h : RefInv s) {task : HalDecTask} {res : ℤ × HalDecTask × VP9Context}
    (hst : vp9ParserFrame s task pkt = some res) : RefInv res.2.2 := by
  rw [vp9ParserFrame] at hst
  dsimp only at hst
  by_cases hsize : pkt.size ≤ 0
  · rw [if_pos hsize] at hst
    exact some.inj hst ▸ h
  rw [if_neg hsize] at hst
  obtain ⟨⟨ret₁, s₁⟩, h₁, hst⟩ := bind_eq_some_iff.1 hst
  have hinv₁ := h.decodeParserHeader h₁
  dsimp only at hst
  split_ifs at hst
  · exact some.inj hst ▸ hinv₁
  · exact some.inj hst ▸ hinv₁
  obtain ⟨s₂, h₂, hst⟩ := bind_eq_some_iff.1 hst
  obtain ⟨s₂', h₂', hw₂⟩ := hinv₁.unrefEntry refFrameMvpair
  obtain rfl := some.inj (h₂'.symm.trans h₂)
  obtain ⟨⟨ret₃, s₃⟩, h₃, hst⟩ := bind_eq_some_iff.1 hst
  have hinv₃ := hw₂.inv.refMvpair hw₂.self h₃
  dsimp only at hst
  split_ifs at hst
  · exact some.inj hst ▸ hinv₃
  obtain ⟨s₄, h₄, hst⟩ := bind_eq_some_iff.1 hst
  obtain ⟨s₄', h₄', hw₄⟩ := hinv₃.unrefEntry curFrame
  obtain rfl := some.inj (h₄'.symm.trans h₄)
  obtain ⟨s₅, h₅, hst⟩ := bind_eq_some_iff.1 hst
  have hw₅ := hw₄.inv.allocFrame hw₄.self h₅
  obtain ⟨⟨refer, s₆⟩, h₆, hst⟩ := bind_eq_some_iff.1 hst
  obtain ⟨hinv₆, hentry₆⟩ := hw₅.inv.setRefer h₆
  obtain ⟨s₇, h₇, hst⟩ := bind_eq_some_iff.1 hst
  obtain ⟨hinv₇, hentry₇⟩ := hinv₆.queueShown h₇
  obtain ⟨s₈, h₈, hst⟩ := bind_eq_some_iff.1 hst
  have hcur : (s₇.entry curFrame).ref = some s₄'.infos := by
    rw [hentry₇, hentry₆]
    exact hw₅.self
  exact some.inj hst ▸ hinv₇.refreshRefs hcur h₈

/-! ## Runs -/

/-- All entries are unreferenced. -/
theorem RefInv.unrefAll (h : RefInv s) (l : List Entry) :
    ∃ s', unrefAll s l = some s' ∧ RefInv s' ∧
      ∀ e, e ∈ l ∨ (s.entry e).ref = none → (s'.entry e).ref = none := by
  induction l generalizing s with
  | nil => exact ⟨s, rfl, h, fun e he => he.resolve_left (List.not_mem_nil)⟩
  | cons e l ih =>
    obtain ⟨s₁, hs₁, hw₁⟩ := h.unrefEntry e
    obtain ⟨s', hs', hinv', hnone⟩ := ih hw₁.inv
    refine ⟨s', ?_, hinv', fun e' he' => hnone e' ?_⟩
    · rw [Vp9d.unrefAll, hs₁]
      exact hs'
    · by_cases heq : e' = e
      · exact .inr (heq ▸ hw₁.self)
      · rw [hw₁.rest e' heq]
        exact he'.imp_left fun hmem => (List.mem_cons.1 hmem).resolve_left heq

theorem mem_entries (e : Entry) : e ∈ entries := by
  cases e <;> simp [entries]

/-- After the clean-up no entry points to an info, there is none, and no slot is held. -/
theorem RefInv.unrefAll_entries (h : RefInv s) :
    ∃ s', Vp9d.unrefAll s entries = some s' ∧ RefInv s' ∧ heldSlots s' = ∅ := by
  obtain ⟨s', hs', hinv', hnone⟩ := h.unrefAll entries
  refine ⟨s', hs', hinv', Set.eq_empty_of_forall_notMem ?_⟩
  rintro i ⟨r, hr, -⟩
  obtain ⟨e, he⟩ := hinv'.pointed r hr
  rw [mem_users, hnone e (.inl (mem_entries e))] at he
  exact absurd he (by simp)

theorem refInv_init (mem : Realloc) : RefInv (vp9dParserInit mem) where
  fresh _ _ := rfl
  counted _ _ hr := absurd hr (by simp [vp9dParserInit])
  pointed _ hr := absurd hr (by simp [vp9dParserInit])
  live _ _ hr := absurd hr (by simp [vp9dParserInit])
  slotIndex _ _ hr := absurd hr (by simp [vp9dParserInit])
  created _ hr := absurd hr (by simp [vp9dParserInit])
  injective _ _ hr := absurd hr (by simp [vp9dParserInit])
  holds := by
    have hheld : heldSlots (vp9dParserInit mem) = ∅ :=
      Set.eq_empty_of_forall_notMem fun i ⟨r, hr, _⟩ => absurd hr (by simp [vp9dParserInit])
    rw [hheld]
    exact @CodecHolds.setup 25 mem (by norm_num)
  length := by
    have hslots : mppBufSlotInit.slots = none := rfl
    have hentries := @entries_setup_first mppBufSlotInit 25 mem hslots (by norm_num)
    exact (congrArg _ hentries).trans (by simp)

theorem refInv_step {a : Action} (h : RefInv s) (hst : vp9Step s a = some s') : RefInv s' := by
  cases a with
  | packet task pkt =>
    obtain ⟨res, hres, rfl⟩ := map_eq_some_iff.1 hst
    exact h.parserFrame hres
  | reset slot =>
    obtain ⟨s₁, hs₁, hinv₁, hheld⟩ := h.unrefAll_entries
    cases slot with
    | none => exact some.inj (hs₁.symm.trans hst) ▸ hinv₁
    | some index =>
      obtain ⟨s₁', hs₁', hst⟩ := bind_eq_some_iff.1 hst
      obtain rfl := some.inj (hs₁.symm.trans hs₁')
      obtain ⟨⟨ret, slots⟩, hslots, hst⟩ := bind_eq_some_iff.1 hst
      obtain rfl := some.inj hst
      obtain ⟨hholds, hlen⟩ := (hheld ▸ hinv₁.holds : CodecHolds s₁.slots ∅).reset hslots
      refine { hinv₁ with holds := ?_, length := hlen.trans hinv₁.length }
      exact hheld ▸ hholds
  | other op =>
    rw [vp9Step] at hst
    split_ifs at hst with hop
    obtain ⟨slots, hslots, rfl⟩ := map_eq_some_iff.1 hst
    exact h.slotStep op hop hslots

theorem reachable_refInv {mem : Realloc} (hr : (vp9Machine mem).Reachable s) : RefInv s := by
  refine hr.invariant (P := RefInv) ?_ ?_
  · rintro s₀ rfl
    exact refInv_init mem
  · intro s₁ a s₂ _ h hst
    exact refInv_step h hst

/-! ## The lifetime of the references -/

/-- The codec holds none of the slots. -/
def NoneHeld (s : VP9Context) : Prop :=
  ∀ slot ∈ s.slots.entries, slot.status.codecUse = false

/-- The references are counted and live, under the slot they were made with, and just their
    slots are held for the codec. -/
structure RefLife (s : VP9Context) : Prop where
  counted : ∀ r info, s.info r = some info →
    info.refCount = (Finset.univ.filter fun e => (s.entry e).ref = some r).card
  live : ∀ e r, (s.entry e).ref = some r → (s.info r).isSome
  slotIndex : ∀ e r, (s.entry e).ref = some r → (s.entry e).slotIndex = s.createdWith r
  codecUse : ∀ (i : ℕ) (slot : MppBufSlotEntry), s.slots.entries[i]? = some slot →
    (slot.status.codecUse = true ↔ ∃ e r, (s.entry e).ref = some r ∧ s.createdWith r = i)

theorem RefInv.refLife (h : RefInv s) : RefLife s where
  counted := h.counted
  live := h.live
  slotIndex := h.slotIndex
  codecUse i slot hslot := by
    rw [h.holds.codecUse i slot hslot]
    constructor
    · rintro ⟨r, hr, hi⟩
      obtain ⟨e, he⟩ := h.pointed r hr
      exact ⟨e, r, mem_users.1 he, hi⟩
    · rintro ⟨e, r, he, hi⟩
      exact ⟨r, h.live e r he, hi⟩

theorem RefInv.noneHeld (h : RefInv s) (hheld : heldSlots s = ∅) : NoneHeld s := by
  intro slot hslot
  obtain ⟨i, hi⟩ := List.mem_iff_getElem?.1 hslot
  rw [Bool.eq_false_iff, Ne, h.holds.codecUse i slot hi, hheld]
  exact Set.notMem_empty i

/-- Whatever packets and resets there were, the references are as they should be; a reset
    and the end of the decoder then go through, and leave no slot held for the codec. -/
theorem reachable_refLife {mem : Realloc} (hr : (vp9Machine mem).Reachable s) :
    RefLife s ∧ (∃ s', vp9dPaserReset s = some s' ∧ NoneHeld s') ∧
      ∃ s', vp9dParserDeinit s = some s' ∧ NoneHeld s' := by
  have h := reachable_refInv hr
  obtain ⟨s', hs', hinv', hheld⟩ := h.unrefAll_entries
  exact ⟨h.refLife, ⟨s', hs', hinv'.noneHeld hheld⟩, s', hs', hinv'.noneHeld hheld⟩

/-- A key frame, a hidden frame that refreshes one reference, and that one repeated. -/
def somePackets : List Packet :=
  let pkt : Packet :=
    { size := 100, uncompressed := 0, compressed := 0, showExistingFrame := false, ref := 0,
      keyframe := true, intraonly := false, errorResMode := false, showFrameFlag := false,
      refreshFrameFlags := 0xff, refidx := fun _ => 0, frame := 1, changed := true }
  [pkt, { pkt with keyframe := false, showFrameFlag := true, refreshFrameFlags := 4, frame := 2 },
    { pkt with showExistingFrame := true, ref := 2 }]

theorem reachable_refLife_repeated : ∃ s, (vp9Machine reallocInPlace).Reachable s ∧
    ((s.entry (.inr 2)).ref = some 1 ∧ s.info 1 = some ⟨2, true, true⟩) ∧ RefLife s := by
  have hrun : ∃ s, Machine.run vp9Step (fun _ _ _ => True) (vp9dParserInit reallocInPlace)
      (somePackets.map (.packet { valid := false, output := -1, refer := fun _ => -1 })) = some s ∧
        (s.entry (.inr 2)).ref = some 1 ∧ s.info 1 = some ⟨2, true, true⟩ := by
    refine ⟨_, rfl, ?_, ?_⟩
    · decide
    · decide
  obtain ⟨s, hs, hinfo⟩ := hrun
  have hr := (Machine.Reachable.run (.init rfl) hs).of_guarded
  exact ⟨s, hr, hinfo, (reachable_refLife hr).1⟩

end Libmpp.Vp9d
