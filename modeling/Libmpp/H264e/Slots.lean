import Libmpp.H264e.Dpb
import Libmpp.Lib.SlotArray

/-!
# What the scans leave in the slots

The loops of the dpb, each in closed form: what is in a slot afterwards, by what was
in it before. Looking up a frame depends on the numbers of the valid slots only
(`SameNumbers`), which most of the loops leave alone.

* `mapCpb_eq`: the frames kept before the current one are marked as used.
* `scan_eq`: the current frame is in the first slot that is free, and the free
  slots behind it are cleared.
* `listRefs_frames`: the status of a slot is refreshed from the frames listed.
* `replaceLt_foldl`: the replaced long-term frames are cleared, and counted.
* `slideWindow_spec`: the sliding window takes frames out of use, and counts them.
-/

namespace Libmpp.H264e

open EncRef Option

variable {t : Fin (dpbFrmCnt + 1)} {frames frames' : DpbFrames} {frm : EncFrmStatus}

/-! ## Looking up frames -/

/-- The same slots are valid, and hold the same numbers. -/
def SameNumbers (frames frames' : DpbFrames) : Prop :=
  ∀ i frm, (frames'.get i).matches frm = (frames.get i).matches frm

theorem SameNumbers.trans {frames'' : DpbFrames} (h : SameNumbers frames frames')
    (h' : SameNumbers frames' frames'') : SameNumbers frames frames'' :=
  fun i frm => (h' i frm).trans (h i frm)

theorem findCpbFrame_congr (h : SameNumbers frames frames') :
    findCpbFrame t frames' = findCpbFrame t frames := by
  funext frm
  unfold findCpbFrame
  simp only [h _ frm]

theorem findCpbFrame_of_invalid (h : frm.valid = false) :
    findCpbFrame t frames frm = some none := by
  rw [findCpbFrame, h]
  rfl

theorem findCpbFrame_of_valid (h : frm.valid) :
    findCpbFrame t frames frm = ((List.finRange dpbFrmCnt).find? fun i =>
      i.val < t.val && (frames.get i).matches frm).map some := by
  rw [findCpbFrame, h]
  rfl

/-- The slot found is in use, and holds the frame looked up. -/
theorem of_findCpbFrame {i : Fin dpbFrmCnt} (h : findCpbFrame t frames frm = some (some i)) :
    frm.valid ∧ i.val < t.val ∧ (frames.get i).matches frm := by
  cases hv : frm.valid with
  | false =>
    rw [findCpbFrame_of_invalid hv] at h
    exact absurd h (by simp)
  | true =>
    rw [findCpbFrame_of_valid hv, map_eq_some_iff] at h
    obtain ⟨j, hj, hji⟩ := h
    obtain rfl := some.inj hji
    have := List.find?_some hj
    rw [Bool.and_eq_true, decide_eq_true_eq] at this
    exact ⟨rfl, this⟩

variable (map : List (Option (Fin dpbFrmCnt)))

/-- Marking the slots of the frames mapped. -/
def markUsed (frames : DpbFrames) : DpbFrames :=
  .ofFn fun i =>
    if map.contains (some i) then { frames.get i with dpbUsed := true } else frames.get i

theorem get_markUsed (frames : DpbFrames) (i : Fin dpbFrmCnt) : (markUsed map frames).get i =
      if map.contains (some i) then { frames.get i with dpbUsed := true } else frames.get i :=
  Vector.get_ofFn _ _

theorem sameNumbers_markUsed (frames : DpbFrames) : SameNumbers frames (markUsed map frames) := by
  intro i frm
  rw [get_markUsed]
  split_ifs <;> rfl

/-- Marking twice is marking once. -/
theorem markUsed_markUsed (frames : DpbFrames) :
    markUsed map (markUsed map frames) = markUsed map frames := by
  refine ext_get fun i => ?_
  rw [get_markUsed, get_markUsed]
  split_ifs <;> rfl

/-- Mapping the frames looks up each of them in the slots as they are, and marks what
    it finds. -/
theorem mapCpb_eq (l : List EncFrmStatus) (frames : DpbFrames) :
    mapCpb t l frames =
      (l.mapM (findCpbFrame t frames)).map fun map => (markUsed map frames, map) := by
  induction l generalizing frames with
  | nil =>
    have : markUsed [] frames = frames := ext_get fun i => by rw [get_markUsed]; rfl
    simp [mapCpb, this]
  | cons frm l ih =>
    rw [mapCpb, List.mapM_cons]
    cases hp : findCpbFrame t frames frm with
    | none => rfl
    | some p =>
      cases p with
      | none =>
        simp only [bind_eq_bind, bind_some, ih]
        cases l.mapM (findCpbFrame t frames) with
        | none => rfl
        | some map =>
          have : markUsed (none :: map) frames = markUsed map frames := by
            refine ext_get fun i => ?_
            rw [get_markUsed, get_markUsed]
            simp
          simp [this]
      | some i =>
        have hsame : SameNumbers frames
            (frames.set i { frames.get i with dpbUsed := true }) := by
          intro j frm'
          rw [get_set_fin]
          split_ifs with hj
          · rw [hj]
            rfl
          · rfl
        simp only [bind_eq_bind, bind_some, ih, findCpbFrame_congr hsame]
        cases l.mapM (findCpbFrame t frames) with
        | none => rfl
        | some map =>
          have : markUsed map (frames.set i { frames.get i with dpbUsed := true }) =
              markUsed (some i :: map) frames := by
            refine ext_get fun j => ?_
            rw [get_markUsed, get_markUsed, get_set_fin]
            by_cases hj : j = i
            · subst hj
              simp
            · simp [hj]
          simp [this]

/-! ## The slot of the current frame -/

/-- The first slot that may be taken. -/
def freeSlot (frames : DpbFrames) : Option (Fin dpbFrmCnt) :=
  (List.finRange dpbFrmCnt).find? fun i => !keeps map frames i

/-- The slots with the current frame in the first free one. -/
def H264eDpb.scanned (dpb : H264eDpb) (curr : EncFrmStatus) : DpbFrames :=
  .ofFn fun i =>
    if keeps dpb.map dpb.frames i then dpb.frames.get i
    else if freeSlot dpb.map dpb.frames = some i then dpb.currFrm curr (dpb.frames.get i)
    else (dpb.frames.get i).clear

theorem get_scanned (dpb : H264eDpb) (curr : EncFrmStatus) (i : Fin dpbFrmCnt) :
    (dpb.scanned curr).get i =
      if keeps dpb.map dpb.frames i then dpb.frames.get i
      else if freeSlot dpb.map dpb.frames = some i then dpb.currFrm curr (dpb.frames.get i)
      else (dpb.frames.get i).clear :=
  Vector.get_ofFn _ _

theorem scanSlot_eq (dpb : H264eDpb) (curr : EncFrmStatus) :
    scanSlot dpb curr = claimStep (keeps dpb.map) (dpb.currFrm curr) H264eDpbFrm.clear :=
  rfl

theorem local_keeps : Local (keeps map) := by
  intro v w i h
  rw [keeps, keeps, h]

/-- The scan puts the current frame into the first free slot, and clears the others. -/
theorem scan_eq (dpb : H264eDpb) (curr : EncFrmStatus) :
    dpb.scan curr =
      { dpb with
        frames := dpb.scanned curr
        curr := freeSlot dpb.map dpb.frames
        rt := if (freeSlot dpb.map dpb.frames).isSome then dpb.currRt curr else dpb.rt } := by
  obtain ⟨hget, hfound⟩ := claimFirst_get (dpb.currFrm curr) H264eDpbFrm.clear
    (local_keeps dpb.map) dpb.frames
  rw [← scanSlot_eq] at hget hfound
  have hframes : ((List.finRange dpbFrmCnt).foldl (scanSlot dpb curr) (dpb.frames, none)).1 =
      dpb.scanned curr := ext_get fun i => by rw [hget i, get_scanned]; rfl
  rw [H264eDpb.scan]
  dsimp only
  rw [hframes, hfound]
  rfl

theorem keeps_of_freeSlot {map : List (Option (Fin dpbFrmCnt))} {i : Fin dpbFrmCnt}
    (h : freeSlot map frames = some i) : keeps map frames i = false := by
  have := List.find?_some h
  rwa [Bool.not_eq_true'] at this

/-! ## The frames listed -/

/-- The slots with the status of the frames listed. -/
def refreshed (t : Fin (dpbFrmCnt + 1)) (l : List EncFrmStatus) (frames : DpbFrames) : DpbFrames :=
  .ofFn fun i =>
    { frames.get i with
      status := (l.filter fun frm => findCpbFrame t frames frm = some (some i)).getLast?.getD
        (frames.get i).status }

theorem get_refreshed (t : Fin (dpbFrmCnt + 1)) (l : List EncFrmStatus) (frames : DpbFrames)
    (i : Fin dpbFrmCnt) :
    (refreshed t l frames).get i =
      { frames.get i with
        status := (l.filter fun frm => findCpbFrame t frames frm = some (some i)).getLast?.getD
          (frames.get i).status } :=
  Vector.get_ofFn _ _

/-- A refreshed slot matches what it matched: its status is that of a frame found there. -/
theorem sameNumbers_set_status {p : Fin dpbFrmCnt} (h : findCpbFrame t frames frm = some (some p)) :
    SameNumbers frames (frames.set p { frames.get p with status := frm } p.isLt) := by
  obtain ⟨hv, -, hm⟩ := of_findCpbFrame h
  rw [H264eDpbFrm.matches, Bool.and_eq_true, beq_iff_eq] at hm
  intro j frm'
  rw [get_set_fin]
  split_ifs with hj
  · rw [hj, H264eDpbFrm.matches, H264eDpbFrm.matches, hv, hm.1, hm.2]
  · rfl

theorem listRefs_frames {l : List EncFrmStatus} {stref ltref : List (Fin dpbFrmCnt)}
    (h : listRefs t l frames = some (frames', stref, ltref)) : frames' = refreshed t l frames := by
  induction l generalizing frames frames' stref ltref with
  | nil =>
    rw [listRefs, some.injEq, Prod.mk.injEq] at h
    refine h.1 ▸ ext_get fun i => ?_
    rw [get_refreshed]
    rfl
  | cons frm l ih =>
    rw [listRefs, bind_eq_bind, bind_eq_some_iff] at h
    obtain ⟨p, hp, h⟩ := h
    cases p with
    | none =>
      rw [ih h]
      refine ext_get fun i => ?_
      rw [get_refreshed, get_refreshed, List.filter_cons_of_neg (by simp [hp])]
    | some p =>
      dsimp only at h
      rw [bind_eq_bind, bind_eq_some_iff] at h
      obtain ⟨⟨frames₁, st, lt⟩, hrest, h⟩ := h
      have hframes : frames₁ = frames' := by
        dsimp only at h
        split_ifs at h <;> exact congrArg Prod.fst (some.inj h)
      subst hframes
      rw [ih hrest]
      refine ext_get fun i => ?_
      rw [get_refreshed, get_refreshed, findCpbFrame_congr (sameNumbers_set_status hp), get_set_fin]
      by_cases hi : i = p
      · subst hi
        rw [List.filter_cons_of_pos (by simp [hp]), if_pos rfl, List.getLast?_cons, getD_some]
      · rw [List.filter_cons_of_neg (by simp [hp, Ne.symm hi]), if_neg hi]

/-- Listing frames that are all found succeeds. -/
theorem listRefs_isSome {l : List EncFrmStatus} (h : ∀ frm ∈ l, (findCpbFrame t frames frm).isSome) :
    (listRefs t l frames).isSome := by
  induction l generalizing frames with
  | nil => rfl
  | cons frm l ih =>
    obtain ⟨p, hp⟩ := isSome_iff_exists.1 (h frm List.mem_cons_self)
    have htail : ∀ frm' ∈ l, (findCpbFrame t frames frm').isSome :=
      fun frm' hf => h frm' (List.mem_cons_of_mem _ hf)
    rw [listRefs, hp]
    cases p with
    | none => exact ih htail
    | some p =>
      have hset : ∀ frm' ∈ l, (findCpbFrame t
          (frames.set p { frames.get p with status := frm }) frm').isSome := by
        rw [findCpbFrame_congr (sameNumbers_set_status hp)]
        exact htail
      obtain ⟨r, hr⟩ := isSome_iff_exists.1 (ih hset)
      rw [bind_eq_bind, bind_some]
      dsimp only
      rw [hr]
      dsimp only [bind_eq_bind, bind_some]
      split_ifs <;> rfl

/-! ## Replaced long-term frames -/

/-- The slots whose long-term frame is replaced by that in slot `curr`. -/
def replacedSlots (t : Fin (dpbFrmCnt + 1)) (frames : DpbFrames) (curr : Fin dpbFrmCnt)
    (ltIdx : Fin 16) : Finset (Fin dpbFrmCnt) :=
  Finset.univ.filter fun i => i.val < t.val ∧ isReplaced curr ltIdx i (frames.get i)

/-- The slots `s` cleared. -/
def clearSlots (s : Finset (Fin dpbFrmCnt)) (frames : DpbFrames) : DpbFrames :=
  .ofFn fun i => if i ∈ s then (frames.get i).clear else frames.get i

theorem get_clearSlots (s : Finset (Fin dpbFrmCnt)) (frames : DpbFrames) (i : Fin dpbFrmCnt) :
    (clearSlots s frames).get i = if i ∈ s then (frames.get i).clear else frames.get i :=
  Vector.get_ofFn _ _

/-- A pass over the slots clears the replaced frames among them. -/
theorem replaceLt_foldl (curr : Fin dpbFrmCnt) (ltIdx : Fin 16) (l : List (Fin dpbFrmCnt))
    (hl : l.Nodup) (dpb : H264eDpb) :
    let s := l.toFinset ∩ replacedSlots dpb.totalCnt dpb.frames curr ltIdx
    l.foldl (replaceLt curr ltIdx) dpb =
      { dpb with
        frames := clearSlots s dpb.frames
        ltSize := dpb.ltSize - s.card
        usedSize := dpb.usedSize - s.card } := by
  induction l generalizing dpb with
  | nil =>
    have : clearSlots ∅ dpb.frames = dpb.frames := ext_get fun i => by rw [get_clearSlots]; rfl
    simp [this]
  | cons a l ih =>
    obtain ⟨ha, hl⟩ := List.nodup_cons.1 hl
    rw [List.foldl_cons, ih hl]
    by_cases hrep : a ∈ replacedSlots dpb.totalCnt dpb.frames curr ltIdx
    · have hrep' := (Finset.mem_filter.1 hrep).2
      rw [replaceLt, if_pos hrep']
      -- the later slots are as they were
      have hs : l.toFinset ∩ replacedSlots dpb.totalCnt
            (dpb.frames.set a (dpb.frames.get a).clear) curr ltIdx =
          l.toFinset ∩ replacedSlots dpb.totalCnt dpb.frames curr ltIdx := by
        ext i
        simp only [Finset.mem_inter, List.mem_toFinset, replacedSlots, Finset.mem_filter,
          Finset.mem_univ, true_and]
        refine and_congr_right fun hi => ?_
        rw [get_set_fin, if_neg (ne_of_mem_of_not_mem hi ha)]
      set s := l.toFinset ∩ replacedSlots dpb.totalCnt dpb.frames curr ltIdx with hsdef
      have has : a ∉ s := fun h => ha (List.mem_toFinset.1 (Finset.mem_inter.1 h).1)
      have hins : (a :: l).toFinset ∩ replacedSlots dpb.totalCnt dpb.frames curr ltIdx =
          insert a s := by
        rw [List.toFinset_cons, Finset.insert_inter_of_mem hrep]
      have hframes : clearSlots s (dpb.frames.set a (dpb.frames.get a).clear) =
          clearSlots (insert a s) dpb.frames := by
        refine ext_get fun i => ?_
        rw [get_clearSlots, get_clearSlots, get_set_fin]
        by_cases hi : i = a
        · subst hi
          simp [has]
        · simp [hi]
      dsimp only
      rw [hs, hins, hframes, Finset.card_insert_of_notMem has]
      push_cast
      rw [sub_sub, sub_sub, add_comm (1 : ℤ)]
    · have hrep' : ¬(a.val < dpb.totalCnt.val ∧ isReplaced curr ltIdx a (dpb.frames.get a)) :=
        fun h => hrep (Finset.mem_filter.2 ⟨Finset.mem_univ _, h⟩)
      rw [replaceLt, if_neg hrep', List.toFinset_cons, Finset.insert_inter_of_notMem hrep]

/-- The pass over all slots clears the replaced frames. -/
theorem replaceLt_finRange (curr : Fin dpbFrmCnt) (ltIdx : Fin 16) (dpb : H264eDpb) :
    let s := replacedSlots dpb.totalCnt dpb.frames curr ltIdx
    (List.finRange dpbFrmCnt).foldl (replaceLt curr ltIdx) dpb =
      { dpb with
        frames := clearSlots s dpb.frames
        ltSize := dpb.ltSize - s.card
        usedSize := dpb.usedSize - s.card } := by
  have h := replaceLt_foldl curr ltIdx (List.finRange dpbFrmCnt) (List.nodup_finRange _) dpb
  rwa [List.toFinset_finRange, Finset.univ_inter] at h

/-! ## The sliding window -/

/-- A slot in use whose frame the sliding window may remove. -/
def mayRemove (t : Fin (dpbFrmCnt + 1)) (frames : DpbFrames) (i : Fin dpbFrmCnt) : Prop :=
  i.val < t.val ∧ (frames.get i).isRemovable ∧ (frames.get i).poc < 0x7fffffff

instance (t : Fin (dpbFrmCnt + 1)) (frames : DpbFrames) : DecidablePred (mayRemove t frames) :=
  fun i => inferInstanceAs (Decidable (i.val < t.val ∧ (frames.get i).isRemovable ∧ _))

/-- The frame removed has the smallest picture order count of those that may be removed. -/
theorem smallestPoc_spec (t : Fin (dpbFrmCnt + 1)) (frames : DpbFrames) :
    (smallestPoc t frames = none ∧ ∀ i, ¬mayRemove t frames i) ∨
      ∃ i, smallestPoc t frames = some i ∧ mayRemove t frames i ∧
        ∀ j, mayRemove t frames j → (frames.get i).poc ≤ (frames.get j).poc := by
  have h := foldl_min_spec
    (fun i : Fin dpbFrmCnt => i.val < t.val ∧ (frames.get i).isRemovable)
    (fun i => (frames.get i).poc) (List.finRange dpbFrmCnt) none 0x7fffffff
  simp only [and_assoc] at h
  rcases h with ⟨hr, hle⟩ | ⟨i, -, hr, ht, hrem, hlt, hle⟩
  · refine .inl ⟨congrArg Prod.fst hr, fun i hi => ?_⟩
    exact absurd (hle i (List.mem_finRange i) ⟨hi.1, hi.2.1⟩) (not_le.2 hi.2.2)
  · exact .inr ⟨i, congrArg Prod.fst hr, ⟨ht, hrem, hlt⟩,
      fun j hj => hle j (List.mem_finRange j) ⟨hj.1, hj.2.1⟩⟩

/-- A slot as it was, but for its use. -/
def SameButUsed (p p' : H264eDpbFrm) : Prop := p' = { p with dpbUsed := p'.dpbUsed }

theorem SameButUsed.rfl {p : H264eDpbFrm} : SameButUsed p p := Eq.refl p

theorem SameButUsed.trans {p p' p'' : H264eDpbFrm} (h : SameButUsed p p')
    (h' : SameButUsed p' p'') : SameButUsed p p'' := by
  rw [SameButUsed] at h h' ⊢
  rw [h', h]

theorem sameNumbers_of_sameButUsed (h : ∀ i, SameButUsed (frames.get i) (frames'.get i)) :
    SameNumbers frames frames' := by
  intro i frm
  rw [h i]
  rfl

/-- The number of frames removed when `n` are to be. Only the first use of a slot is
    taken back: a frame that the hardware layer holds is found again and again. -/
def removedCnt (t : Fin (dpbFrmCnt + 1)) (frames : DpbFrames) (n : ℕ) : ℕ :=
  if ∃ i, mayRemove t frames i ∧ (frames.get i).halUsed ≠ 0 then n
  else min n (Finset.univ.filter (mayRemove t frames)).card

/-- Taking one frame out of use leaves one less to remove. -/
theorem removedCnt_succ {i : Fin dpbFrmCnt} (hi : mayRemove t frames i) (n : ℕ) :
    removedCnt t frames (n + 1) =
      removedCnt t (frames.set i { frames.get i with dpbUsed := false } i.isLt) n + 1 := by
  set frames₁ := frames.set i { frames.get i with dpbUsed := false } with hframes₁
  have hne : ∀ j, j ≠ i → frames₁.get j = frames.get j :=
    fun j hj => by rw [hframes₁, get_set_fin, if_neg hj]
  have hself : frames₁.get i = { frames.get i with dpbUsed := false } := by
    rw [hframes₁, get_set_fin, if_pos rfl]
  have hmay : ∀ j, j ≠ i → (mayRemove t frames₁ j ↔ mayRemove t frames j) :=
    fun j hj => by rw [mayRemove, mayRemove, hne j hj]
  have hmayi : mayRemove t frames₁ i ↔ (frames.get i).halUsed ≠ 0 := by
    obtain ⟨ht, hrem, hpoc⟩ := hi
    rw [H264eDpbFrm.isRemovable, Bool.and_eq_true, Bool.and_eq_true, Bool.and_eq_true] at hrem
    rw [mayRemove, hself, H264eDpbFrm.isRemovable, H264eDpbFrm.onUsed]
    simp [ht, hpoc, hrem]
  by_cases hhal : ∃ j, mayRemove t frames j ∧ (frames.get j).halUsed ≠ 0
  · have hhal' : ∃ j, mayRemove t frames₁ j ∧ (frames₁.get j).halUsed ≠ 0 := by
      obtain ⟨j, hj, hjh⟩ := hhal
      by_cases hji : j = i
      · subst hji
        exact ⟨j, hmayi.2 hjh, by rw [hself]; exact hjh⟩
      · exact ⟨j, (hmay j hji).2 hj, by rw [hne j hji]; exact hjh⟩
    rw [removedCnt, if_pos hhal, removedCnt, if_pos hhal']
  · have hhali : (frames.get i).halUsed = 0 := by
      by_contra h
      exact hhal ⟨i, hi, h⟩
    have hhal' : ¬∃ j, mayRemove t frames₁ j ∧ (frames₁.get j).halUsed ≠ 0 := by
      rintro ⟨j, hj, hjh⟩
      by_cases hji : j = i
      · subst hji
        exact hmayi.1 hj hhali
      · exact hhal ⟨j, (hmay j hji).1 hj, by rw [← hne j hji]; exact hjh⟩
    have hset : Finset.univ.filter (mayRemove t frames₁) =
        (Finset.univ.filter (mayRemove t frames)).erase i := by
      ext j
      simp only [Finset.mem_filter, Finset.mem_univ, true_and, Finset.mem_erase]
      by_cases hji : j = i
      · subst hji
        simp [hmayi, hhali]
      · simp [hji, hmay j hji]
    have hmem : i ∈ Finset.univ.filter (mayRemove t frames) :=
      Finset.mem_filter.2 ⟨Finset.mem_univ _, hi⟩
    have hpos := Finset.card_pos.2 ⟨i, hmem⟩
    rw [removedCnt, if_neg hhal, removedCnt, if_neg hhal', hset, Finset.card_erase_of_mem hmem]
    omega

/-- What the sliding window does: some frames are taken out of use, each is counted. -/
theorem slideWindow_spec (n : ℕ) (dpb : H264eDpb) :
    ∃ frames', (∀ i, SameButUsed (dpb.frames.get i) (frames'.get i)) ∧
      slideWindow n dpb =
        { dpb with
          frames := frames'
          stSize := dpb.stSize - removedCnt dpb.totalCnt dpb.frames n
          usedSize := dpb.usedSize - removedCnt dpb.totalCnt dpb.frames n } := by
  induction n generalizing dpb with
  | zero =>
    refine ⟨dpb.frames, fun i => .rfl, ?_⟩
    simp [slideWindow, removedCnt]
  | succ n ih =>
    rcases smallestPoc_spec dpb.totalCnt dpb.frames with ⟨hnone, hno⟩ | ⟨i, hsome, hi, -⟩
    · refine ⟨dpb.frames, fun i => .rfl, ?_⟩
      have hcard : (Finset.univ.filter (mayRemove dpb.totalCnt dpb.frames)).card = 0 :=
        Finset.card_eq_zero.2 (Finset.filter_eq_empty_iff.2 fun j _ => hno j)
      rw [slideWindow, hnone, removedCnt, if_neg (fun ⟨j, hj, _⟩ => hno j hj), hcard]
      simp
    · set unref := { dpb.frames.get i with dpbUsed := false } with hunref
      set frames₁ := dpb.frames.set i unref with hframes₁
      have hget : ∀ j, frames₁.get j = if j = i then unref else dpb.frames.get j :=
        fun j => get_set_fin _ _ _ _
      have hsame : ∀ j, SameButUsed (dpb.frames.get j) (frames₁.get j) := by
        intro j
        rw [hget]
        split_ifs with hj
        · rw [hj]
          exact Eq.refl _
        · exact .rfl
      obtain ⟨frames', hsame', heq⟩ := ih { dpb with
        frames := frames₁
        stSize := dpb.stSize - 1
        usedSize := dpb.usedSize - 1 }
      have hcnt : removedCnt dpb.totalCnt dpb.frames (n + 1) =
          removedCnt dpb.totalCnt frames₁ n + 1 :=
        removedCnt_succ hi n
      refine ⟨frames', fun j => (hsame j).trans (hsame' j), ?_⟩
      rw [slideWindow, hsome]
      dsimp only
      rw [heq, hcnt]
      push_cast
      congr 1 <;> ring

end Libmpp.H264e
