import Libmpp.H264e.Frame
import Libmpp.EncRef.Snapshot

/-!
# The dpb as a mirror of the virtual buffer

The slots of the dpb hold a set of frames (`Holds`): each in a slot of its own, in
use, with frames numbered in the order of their picture order counts. Each part of a
frame changes that set in one way.

* The scan puts the current frame into a free slot (`Holds.scanned`).
* Clearing slots takes their frames out (`Holds.clearSlots`).
* The sliding window takes out the oldest short-term frame (`Holds.evict`), as the
  smallest picture order count belongs to it (`Holds.smallestPoc_eq`).
-/

namespace Libmpp.H264e

open EncRef Bool List Option

/-- The first `t` slots hold the frames `x`, numbered below `n` and displayed up to
    `last`. Slots that are valid but not used hold frames taken out. -/
structure Holds (t : Fin (dpbFrmCnt + 1)) (x : Set EncFrmStatus) (n : ℕ) (last : ℤ)
    (frames : DpbFrames) : Prop where
  held : ∀ f ∈ x, ∃ i, (frames.get i).dpbUsed ∧ (frames.get i).status = f
  valid : ∀ f ∈ x, f.valid
  of_used : ∀ i, (frames.get i).dpbUsed → (frames.get i).status.valid → (frames.get i).status ∈ x
  inUse : ∀ i, (frames.get i).status.valid → i.val < t.val
  inj : ∀ i j, (frames.get i).status.valid → (frames.get j).status.valid →
    (frames.get i).status.seqIdx = (frames.get j).status.seqIdx → i = j
  lt : ∀ i, (frames.get i).status.valid → (frames.get i).status.seqIdx.val < n
  ltIdx : ∀ i, (frames.get i).status.valid → (frames.get i).ltIdx = (frames.get i).status.ltIdx
  poc_lt : ∀ i j, (frames.get i).status.valid → (frames.get j).status.valid →
    (frames.get i).status.seqIdx < (frames.get j).status.seqIdx →
    (frames.get i).poc < (frames.get j).poc
  poc_le : ∀ i, (frames.get i).status.valid → (frames.get i).poc ≤ last
  idle : ∀ i, (frames.get i).asPskipRef = false ∧ (frames.get i).halUsed = 0

namespace Holds

variable {t : Fin (dpbFrmCnt + 1)} {x : Set EncFrmStatus} {n : ℕ} {last : ℤ} {frames : DpbFrames}
  {f : EncFrmStatus} {i : Fin dpbFrmCnt}

/-- Slots none of which is valid hold no frame. -/
theorem of_invalid (hinv : ∀ i, (frames.get i).status.valid → False)
    (hidle : ∀ i, (frames.get i).asPskipRef = false ∧ (frames.get i).halUsed = 0) :
    Holds t {f | f ∈ ([] : List EncFrmStatus)} n last frames where
  held _ hf := absurd hf List.not_mem_nil
  valid _ hf := absurd hf List.not_mem_nil
  of_used i _ hv := (hinv i hv).elim
  inUse i hv := (hinv i hv).elim
  inj i _ hv := (hinv i hv).elim
  lt i hv := (hinv i hv).elim
  ltIdx i hv := (hinv i hv).elim
  poc_lt i _ hv := (hinv i hv).elim
  poc_le i hv := (hinv i hv).elim
  idle := hidle

/-! ## Looking up frames -/

/-- A frame held is found, in a slot in use that has it as its status. -/
theorem find (h : Holds t x n last frames) (hf : f ∈ x) :
    ∃ i, findCpbFrame t frames f = some (some i) ∧ (frames.get i).dpbUsed ∧
      (frames.get i).status = f := by
  obtain ⟨i, hused, hstatus⟩ := h.held f hf
  have hv : (frames.get i).status.valid := by
    rw [hstatus]
    exact h.valid f hf
  have hfind : (List.finRange dpbFrmCnt).find? (fun j =>
      j.val < t.val && (frames.get j).matches f) = some i := by
    refine find?_finRange_eq_some ?_ fun j hj hmatch => ?_
    · simp [H264eDpbFrm.matches, hstatus, h.valid f hf, h.inUse i hv]
    · rw [and_eq_true, H264eDpbFrm.matches, and_eq_true, beq_iff_eq] at hmatch
      have := h.inj j i hmatch.2.1 hv (by rw [hmatch.2.2, hstatus])
      exact absurd this hj.ne
  exact ⟨i, by rw [findCpbFrame_of_valid (h.valid f hf), hfind, map_some], hused, hstatus⟩

/-- Where a frame held is found, it is the status. -/
theorem status_of_find (h : Holds t x n last frames) (hf : f ∈ x)
    (hi : findCpbFrame t frames f = some (some i)) :
    (frames.get i).dpbUsed ∧ (frames.get i).status = f := by
  obtain ⟨j, hj, hused, hstatus⟩ := h.find hf
  rw [hi, some.injEq, some.injEq] at hj
  rw [hj]
  exact ⟨hused, hstatus⟩

/-- Frames held are all found, and the slots found are theirs. -/
theorem mapM_find (h : Holds t x n last frames) {l : List EncFrmStatus}
    (hl : ∀ f ∈ l, f.valid → f ∈ x) :
    ∃ map, l.mapM (findCpbFrame t frames) = some map ∧
      ∀ i, some i ∈ map ↔
        (frames.get i).dpbUsed ∧ (frames.get i).status.valid ∧ (frames.get i).status ∈ l := by
  have hfound : ∀ f ∈ l, findCpbFrame t frames f =
      some ((findCpbFrame t frames f).getD none) := by
    intro f hf
    cases hv : f.valid with
    | false => rw [findCpbFrame_of_invalid hv, getD_some]
    | true =>
      obtain ⟨i, hi, -⟩ := h.find (hl f hf hv)
      rw [hi, getD_some]
  refine ⟨_, mapM_eq_some hfound, fun i => ?_⟩
  rw [List.mem_map]
  constructor
  · rintro ⟨f, hf, hfi⟩
    have hi : findCpbFrame t frames f = some (some i) := by rw [hfound f hf, hfi]
    obtain ⟨hv, -⟩ := of_findCpbFrame hi
    obtain ⟨hused, hstatus⟩ := h.status_of_find (hl f hf hv) hi
    rw [hstatus]
    exact ⟨hused, hv, hf⟩
  · rintro ⟨-, hv, hmem⟩
    refine ⟨_, hmem, ?_⟩
    obtain ⟨j, hj, -, hstatus⟩ := h.find (hl _ hmem hv)
    have : j = i := by
      refine h.inj j i ?_ hv ?_
      · rw [hstatus]
        exact hv
      · rw [hstatus]
    rw [hj, getD_some, this]

/-- Refreshing the status of frames held changes nothing. -/
theorem refreshed_eq (h : Holds t x n last frames) {l : List EncFrmStatus}
    (hl : ∀ f ∈ l, f.valid → f ∈ x) : refreshed t l frames = frames := by
  refine ext_get fun i => ?_
  rw [get_refreshed]
  have hstatus : (l.filter fun frm => findCpbFrame t frames frm = some (some i)).getLast?.getD
      (frames.get i).status = (frames.get i).status := by
    cases hlast : (l.filter fun frm => findCpbFrame t frames frm = some (some i)).getLast? with
    | none => rfl
    | some frm =>
      have hmem := mem_of_getLast? hlast
      rw [mem_filter, decide_eq_true_eq] at hmem
      exact (h.status_of_find (hl frm hmem.1 (of_findCpbFrame hmem.2).1) hmem.2).2.symm
  rw [hstatus]

/-! ## The current frame -/

/-- With fewer frames kept than slots in use, there is a free one. -/
theorem exists_freeSlot (h : Holds t x n last frames) {l : List EncFrmStatus}
    {map : List (Option (Fin dpbFrmCnt))}
    (hmap : ∀ i, some i ∈ map → (frames.get i).status.valid ∧ (frames.get i).status ∈ l)
    (hlen : l.length < t.val) :
    ∃ c, freeSlot map frames = some c ∧ c.val < t.val ∧ some c ∉ map := by
  have hkeeps : ∀ i, keeps map frames i = true ↔ some i ∈ map := by
    intro i
    rw [keeps, (h.idle i).1, (h.idle i).2]
    simp
  -- the slots in use cannot all be kept
  have hfree : ∃ i : Fin dpbFrmCnt, i.val < t.val ∧ some i ∉ map := by
    by_contra hall
    push Not at hall
    have hle : (Finset.univ.filter fun i : Fin dpbFrmCnt => i.val < t.val).card ≤
        l.toFinset.card := by
      refine Finset.card_le_card_of_injOn (fun i => (frames.get i).status) ?_ ?_
      · intro i hi
        have hi := (Finset.mem_filter.1 (Finset.mem_coe.1 hi)).2
        exact Finset.mem_coe.2 (mem_toFinset.2 (hmap i (hall i hi)).2)
      · intro i hi j hj hij
        have hi := (Finset.mem_filter.1 (Finset.mem_coe.1 hi)).2
        have hj := (Finset.mem_filter.1 (Finset.mem_coe.1 hj)).2
        exact h.inj i j (hmap i (hall i hi)).1 (hmap j (hall j hj)).1
          (congrArg EncFrmStatus.seqIdx hij)
    have hcard : (Finset.univ.filter fun i : Fin dpbFrmCnt => i.val < t.val).card = t.val := by
      rw [Fin.card_filter_val_lt]
      exact min_eq_right (Nat.lt_succ_iff.1 t.isLt)
    have := toFinset_card_le l
    omega
  obtain ⟨i, hi, hnot⟩ := hfree
  have hsome : (freeSlot map frames).isSome := by
    rw [freeSlot, find?_isSome]
    refine ⟨i, mem_finRange i, ?_⟩
    rw [not_eq_true', ← not_eq_true, hkeeps]
    exact hnot
  obtain ⟨c, hc⟩ := isSome_iff_exists.1 hsome
  have hkc := keeps_of_freeSlot hc
  refine ⟨c, hc, ?_, fun hmem => ?_⟩
  · -- the first free slot comes no later than the one found
    by_contra hct
    have hic : i < c := by
      rw [Fin.lt_def]
      omega
    obtain ⟨-, k, hk, hkc, hbefore⟩ := find?_eq_some_iff_getElem.1 hc
    rw [getElem_finRange] at hkc
    have hik : i.val < k := by
      rw [← hkc, Fin.lt_def] at hic
      simpa using hic
    have := hbefore i.val hik
    rw [getElem_finRange] at this
    simp only [Bool.not_not] at this
    exact hnot ((hkeeps _).1 this)
  · rw [← hkeeps, hkc] at hmem
    exact absurd hmem false_ne_true

/-- The current frame joins the frames held, and only they are left in the slots. -/
theorem scanned {dpb : H264eDpb} {curr : EncFrmStatus} {c : Fin dpbFrmCnt}
    (h : Holds t x n last dpb.frames)
    (hmap : ∀ i, some i ∈ dpb.map ↔ (dpb.frames.get i).dpbUsed ∧ (dpb.frames.get i).status.valid)
    (hc : freeSlot dpb.map dpb.frames = some c) (hct : c.val < t.val)
    (hv : curr.valid) (hn : curr.seqIdx.val = n)
    (hpoc : last < (dpb.currPoc curr).1 + (dpb.currPoc curr).2 * dpb.maxPocLsb) :
    Holds t (insert curr x) (n + 1)
        ((dpb.currPoc curr).1 + (dpb.currPoc curr).2 * dpb.maxPocLsb) (dpb.scanned curr) ∧
      ((dpb.scanned curr).get c).status = curr ∧
      ∀ i, ((dpb.scanned curr).get i).status.valid → ((dpb.scanned curr).get i).dpbUsed := by
  have hkeeps : ∀ i, keeps dpb.map dpb.frames i = true ↔ some i ∈ dpb.map := by
    intro i
    rw [keeps, (h.idle i).1, (h.idle i).2]
    simp
  have hkc := keeps_of_freeSlot hc
  have hcself : (dpb.scanned curr).get c = dpb.currFrm curr (dpb.frames.get c) := by
    rw [get_scanned, hkc, hc]
    simp
  have hkept : ∀ i, some i ∈ dpb.map → (dpb.scanned curr).get i = dpb.frames.get i := by
    intro i hi
    rw [get_scanned, if_pos ((hkeeps i).2 hi)]
  have hother : ∀ i, some i ∉ dpb.map → i ≠ c →
      (dpb.scanned curr).get i = (dpb.frames.get i).clear := by
    intro i hi hic
    rw [get_scanned, if_neg (fun hk => hi ((hkeeps i).1 hk)), hc,
      if_neg (fun he => hic (some.inj he).symm)]
  -- a valid slot is kept or the current one
  have hcases : ∀ i, ((dpb.scanned curr).get i).status.valid →
      (some i ∈ dpb.map ∧ (dpb.scanned curr).get i = dpb.frames.get i ∧
        (dpb.frames.get i).dpbUsed ∧ (dpb.frames.get i).status.valid) ∨ i = c := by
    intro i hi
    by_cases hm : some i ∈ dpb.map
    · exact .inl ⟨hm, hkept i hm, (hmap i).1 hm⟩
    · by_cases hic : i = c
      · exact .inr hic
      · rw [hother i hm hic] at hi
        exact absurd hi false_ne_true
  refine ⟨⟨?_, ?_, ?_, ?_, ?_, ?_, ?_, ?_, ?_, ?_⟩, by rw [hcself]; rfl, ?_⟩
  · rintro f (rfl | hf)
    · exact ⟨c, by rw [hcself]; rfl, by rw [hcself]; rfl⟩
    · obtain ⟨i, hused, hstatus⟩ := h.held f hf
      have hi : some i ∈ dpb.map := (hmap i).2 ⟨hused, by rw [hstatus]; exact h.valid f hf⟩
      exact ⟨i, by rw [hkept i hi]; exact hused, by rw [hkept i hi]; exact hstatus⟩
  · rintro f (rfl | hf)
    · exact hv
    · exact h.valid f hf
  · intro i _ hi
    rcases hcases i hi with ⟨-, heq, hused, hvi⟩ | rfl
    · rw [heq]
      exact .inr (h.of_used i hused hvi)
    · rw [hcself]
      exact .inl rfl
  · intro i hi
    rcases hcases i hi with ⟨-, -, -, hvi⟩ | rfl
    · exact h.inUse i hvi
    · exact hct
  · intro i j hi hj hij
    rcases hcases i hi with ⟨-, hieq, -, hvi⟩ | rfl <;>
      rcases hcases j hj with ⟨-, hjeq, -, hvj⟩ | rfl
    · rw [hieq, hjeq] at hij
      exact h.inj i j hvi hvj hij
    · have := h.lt i hvi
      rw [hieq, hcself] at hij
      have hval := congrArg Fin.val hij
      change _ = curr.seqIdx.val at hval
      omega
    · have := h.lt j hvj
      rw [hjeq, hcself] at hij
      have hval := congrArg Fin.val hij
      change curr.seqIdx.val = _ at hval
      omega
    · rfl
  · intro i hi
    rcases hcases i hi with ⟨-, heq, -, hvi⟩ | rfl
    · rw [heq]
      exact (h.lt i hvi).trans (Nat.lt_succ_self n)
    · rw [hcself]
      exact Nat.lt_succ_of_le hn.le
  · intro i hi
    rcases hcases i hi with ⟨-, heq, -, hvi⟩ | rfl
    · rw [heq]
      exact h.ltIdx i hvi
    · rw [hcself]
      rfl
  · intro i j hi hj hij
    rcases hcases i hi with ⟨-, hieq, -, hvi⟩ | rfl <;>
      rcases hcases j hj with ⟨-, hjeq, -, hvj⟩ | rfl
    · rw [hieq, hjeq] at hij ⊢
      exact h.poc_lt i j hvi hvj hij
    · rw [hieq, hcself]
      exact (h.poc_le i hvi).trans_lt hpoc
    · have := h.lt j hvj
      rw [hjeq, hcself, Fin.lt_def] at hij
      change curr.seqIdx.val < _ at hij
      omega
    · exact absurd hij (lt_irrefl _)
  · intro i hi
    rcases hcases i hi with ⟨-, heq, -, hvi⟩ | rfl
    · rw [heq]
      exact (h.poc_le i hvi).trans hpoc.le
    · rw [hcself]
      exact le_rfl
  · intro i
    rw [get_scanned]
    split_ifs
    · exact h.idle i
    · exact h.idle i
    · exact h.idle i
  · intro i hi
    rcases hcases i hi with ⟨-, heq, hused, -⟩ | rfl
    · rw [heq]
      exact hused
    · rw [hcself]
      rfl

/-! ## Taking frames out -/

/-- Clearing slots takes their frames out. -/
theorem clearSlots (h : Holds t x n last frames) (s : Finset (Fin dpbFrmCnt)) :
    Holds t {f ∈ x | ∀ i ∈ s, (frames.get i).status ≠ f} n last (H264e.clearSlots s frames) := by
  -- a slot still valid is as it was
  have hvalid : ∀ i, ((H264e.clearSlots s frames).get i).status.valid →
      i ∉ s ∧ (H264e.clearSlots s frames).get i = frames.get i := by
    intro i hi
    rw [get_clearSlots] at hi ⊢
    split_ifs at hi ⊢ with his
    · exact absurd hi false_ne_true
    · exact ⟨his, rfl⟩
  refine ⟨?_, fun f hf => h.valid f hf.1, ?_, ?_, ?_, ?_, ?_, ?_, ?_, ?_⟩
  · rintro f ⟨hf, hnot⟩
    obtain ⟨i, hused, hstatus⟩ := h.held f hf
    have his : i ∉ s := fun his => hnot i his hstatus
    refine ⟨i, ?_, ?_⟩
    · rw [get_clearSlots, if_neg his]
      exact hused
    · rw [get_clearSlots, if_neg his]
      exact hstatus
  · intro i hused hi
    obtain ⟨his, heq⟩ := hvalid i hi
    rw [heq] at hused hi ⊢
    refine ⟨h.of_used i hused hi, fun j hj hij => ?_⟩
    have : j = i := h.inj j i (by rw [hij]; exact hi) hi (by rw [hij])
    exact his (this ▸ hj)
  · intro i hi
    obtain ⟨-, hieq⟩ := hvalid i hi
    rw [hieq] at hi
    exact h.inUse i hi
  · intro i j hi hj hij
    obtain ⟨-, hieq⟩ := hvalid i hi
    obtain ⟨-, hjeq⟩ := hvalid j hj
    rw [hieq] at hi
    rw [hjeq] at hj
    rw [hieq, hjeq] at hij
    exact h.inj i j hi hj hij
  · intro i hi
    obtain ⟨-, hieq⟩ := hvalid i hi
    rw [hieq] at hi ⊢
    exact h.lt i hi
  · intro i hi
    obtain ⟨-, hieq⟩ := hvalid i hi
    rw [hieq] at hi ⊢
    exact h.ltIdx i hi
  · intro i j hi hj hij
    obtain ⟨-, hieq⟩ := hvalid i hi
    obtain ⟨-, hjeq⟩ := hvalid j hj
    rw [hieq] at hi
    rw [hjeq] at hj
    rw [hieq, hjeq] at hij ⊢
    exact h.poc_lt i j hi hj hij
  · intro i hi
    obtain ⟨-, hieq⟩ := hvalid i hi
    rw [hieq] at hi ⊢
    exact h.poc_le i hi
  · intro i
    rw [get_clearSlots]
    split_ifs
    · exact h.idle i
    · exact h.idle i

/-- Taking a slot out of use takes its frame out. -/
theorem evict (h : Holds t x n last frames) {i₀ : Fin dpbFrmCnt}
    (hv : (frames.get i₀).status.valid) :
    Holds t (x \ {(frames.get i₀).status}) n last
      (frames.set i₀ { frames.get i₀ with dpbUsed := false } i₀.isLt) := by
  set frames' := frames.set i₀ { frames.get i₀ with dpbUsed := false } with hframes'
  have hself : frames'.get i₀ = { frames.get i₀ with dpbUsed := false } := by
    rw [hframes', get_set_fin, if_pos rfl]
  have hne : ∀ i, i ≠ i₀ → frames'.get i = frames.get i := by
    intro i hi
    rw [hframes', get_set_fin, if_neg hi]
  have hsame : ∀ i, (frames'.get i).status = (frames.get i).status ∧
      (frames'.get i).ltIdx = (frames.get i).ltIdx ∧ (frames'.get i).poc = (frames.get i).poc ∧
      (frames'.get i).asPskipRef = (frames.get i).asPskipRef ∧
      (frames'.get i).halUsed = (frames.get i).halUsed := by
    intro i
    by_cases hi : i = i₀
    · subst hi
      rw [hself]
      exact ⟨rfl, rfl, rfl, rfl, rfl⟩
    · rw [hne i hi]
      exact ⟨rfl, rfl, rfl, rfl, rfl⟩
  refine ⟨?_, fun f hf => h.valid f hf.1, ?_, ?_, ?_, ?_, ?_, ?_, ?_, ?_⟩
  · rintro f ⟨hf, hnot⟩
    obtain ⟨i, hused, hstatus⟩ := h.held f hf
    have hi : i ≠ i₀ := by
      rintro rfl
      exact hnot hstatus.symm
    exact ⟨i, by rw [hne i hi]; exact hused, by rw [hne i hi]; exact hstatus⟩
  · intro i hused hi
    have hii : i ≠ i₀ := by
      rintro rfl
      rw [hself] at hused
      exact absurd hused false_ne_true
    rw [hne i hii] at hused hi ⊢
    refine ⟨h.of_used i hused hi, fun he => hii (h.inj i i₀ hi hv ?_)⟩
    rw [Set.mem_singleton_iff] at he
    rw [he]
  · intro i hi
    rw [(hsame i).1] at hi
    exact h.inUse i hi
  · intro i j hi hj hij
    rw [(hsame i).1] at hi hij
    rw [(hsame j).1] at hj hij
    exact h.inj i j hi hj hij
  · intro i hi
    rw [(hsame i).1] at hi ⊢
    exact h.lt i hi
  · intro i hi
    rw [(hsame i).1] at hi
    rw [(hsame i).1, (hsame i).2.1]
    exact h.ltIdx i hi
  · intro i j hi hj hij
    rw [(hsame i).1] at hi hij
    rw [(hsame j).1] at hj hij
    rw [(hsame i).2.2.1, (hsame j).2.2.1]
    exact h.poc_lt i j hi hj hij
  · intro i hi
    rw [(hsame i).1] at hi
    rw [(hsame i).2.2.1]
    exact h.poc_le i hi
  · intro i
    rw [(hsame i).2.2.2.1, (hsame i).2.2.2.2]
    exact h.idle i

/-- The frame with the smallest picture order count is the oldest short-term frame,
    the last of those in order. -/
theorem smallestPoc_eq (h : Holds t x n last frames) (hlast : last < 0x7fffffff)
    (l : List EncFrmStatus) (e : EncFrmStatus)
    (hl : ∀ f, f ∈ l ++ [e] ↔ f ∈ x ∧ f.isLtRef = false)
    (hsorted : ∀ f ∈ l, e.seqIdx < f.seqIdx) :
    ∃ i, smallestPoc t frames = some i ∧ (frames.get i).status.valid ∧
      (frames.get i).status = e := by
  have hmay : ∀ i, mayRemove t frames i ↔ (frames.get i).dpbUsed ∧ (frames.get i).status.valid ∧
      (frames.get i).status.isLtRef = false := by
    intro i
    rw [mayRemove, H264eDpbFrm.isRemovable, H264eDpbFrm.onUsed, (h.idle i).1, (h.idle i).2]
    simp only [Bool.not_false, Bool.true_and, ne_eq, not_true_eq_false, decide_false,
      Bool.or_false, Bool.and_eq_true, Bool.not_eq_true']
    constructor
    · rintro ⟨-, ⟨⟨hu, hv⟩, hlt⟩, -⟩
      exact ⟨hu, hv, hlt⟩
    · rintro ⟨hu, hv, hlt⟩
      exact ⟨h.inUse i hv, ⟨⟨hu, hv⟩, hlt⟩, (h.poc_le i hv).trans_lt hlast⟩
  have he := (hl e).1 (by simp)
  obtain ⟨ie, hused, hstatus⟩ := h.held e he.1
  have hve : (frames.get ie).status.valid := by
    rw [hstatus]
    exact h.valid e he.1
  have hmaye : mayRemove t frames ie := (hmay ie).2 ⟨hused, hve, by rw [hstatus]; exact he.2⟩
  rcases smallestPoc_spec t frames with ⟨-, hno⟩ | ⟨i, hi, hmayi, hle⟩
  · exact absurd hmaye (hno ie)
  · obtain ⟨hu, hv, hlt⟩ := (hmay i).1 hmayi
    refine ⟨i, hi, hv, ?_⟩
    have hmem := (hl _).2 ⟨h.of_used i hu hv, hlt⟩
    rw [mem_append, mem_singleton] at hmem
    rcases hmem with hmem | hmem
    · -- a later frame has a larger count
      have := h.poc_lt ie i hve hv (by rw [hstatus]; exact hsorted _ hmem)
      exact absurd (hle ie hmaye) (not_le.2 this)
    · exact hmem

end Holds

end Libmpp.H264e
