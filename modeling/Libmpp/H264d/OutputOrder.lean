import Libmpp.Lib.InOrder
import Libmpp.H264d.FrameDelivery

/-!
# The order of output

What the buffer has displayed of a sequence of frames (`FrmBuf.Shows`), and that its
operations display the frames in order: a frame is output

* to make room, when it precedes all frames that are still to come, and
* early, when its order count is within the interval of the last one (`poc_interval`).
-/

namespace Libmpp.H264d

open Relation Base Lives List Option

/-- The order counts of the frames put into the display queue. -/
def displayed (ops : List SlotOp) : List ℤ :=
  ops.filterMap fun
    | .enqueueDisplay _ poc => some poc
    | _ => none

theorem displayed_append (l l' : List SlotOp) :
    displayed (l ++ l') = displayed l ++ displayed l' := filterMap_append

namespace Frm

/-- The order counts of the frames that wait for output. -/
def waiting (l : List Frm) : List ℤ := (l.filter (!·.isOutput)).map (·.poc)

variable {l : List Frm}

theorem mem_waiting {n : ℤ} : n ∈ waiting l ↔ ∃ f ∈ l, f.isOutput = false ∧ f.poc = n := by
  simp [waiting, and_assoc]

theorem waiting_cons (f : Frm) (l : List Frm) :
    waiting (f :: l) = if f.isOutput then waiting l else f.poc :: waiting l := by
  cases h : f.isOutput <;> simp [waiting, h]

theorem waiting_append (l l' : List Frm) : waiting (l ++ l') = waiting l ++ waiting l' := by
  simp [waiting]

/-- A frame that waits is counted as output. -/
theorem waiting_modify {k : ℕ} {f : Frm} (hk : l[k]? = some f) (ho : f.isOutput = false) :
    (waiting l).Perm (f.poc :: waiting (l.modify k fun f => { f with isOutput := true })) := by
  induction l generalizing k with
  | nil => cases hk
  | cons g l ih =>
    cases k with
    | zero =>
      obtain rfl : g = f := some.inj hk
      rw [modify_zero_cons, waiting_cons, waiting_cons, ho]
      exact .refl _
    | succ k =>
      have hl := ih hk
      rw [modify_succ_cons, waiting_cons, waiting_cons]
      split
      · exact hl
      · exact (hl.cons g.poc).trans (.swap _ _ _)

/-- A frame that was output is removed. -/
theorem waiting_eraseIdx {k : ℕ} {f : Frm} (hk : l[k]? = some f) (ho : f.isOutput) :
    waiting (l.eraseIdx k) = waiting l := by
  induction l generalizing k with
  | nil => rfl
  | cons g l ih =>
    cases k with
    | zero =>
      obtain rfl : g = f := some.inj hk
      rw [eraseIdx_cons_zero, waiting_cons, if_pos ho]
    | succ k => rw [eraseIdx_cons_succ, waiting_cons, waiting_cons, ih hk]

/-- The frame stays in the buffer: it is a reference, or follows a frame to come. -/
def stays (later : List ℤ) (f : Frm) : Bool := f.ref.isSome || later.any (· < f.poc)

/-- The frames that stay, and the one that comes in when it stays itself, fit a buffer. -/
def Fit (size : ℕ) (p : StorePic) (later : List ℤ) (l : List Frm) : Prop :=
  l.countP (stays (p.poc :: later)) +
    (if p.usedForReference || later.any (· < p.poc) then 1 else 0) ≤ size

theorem countP_stays_modify (later : List ℤ) (l : List Frm) (k : ℕ) :
    (l.modify k fun f => { f with isOutput := true }).countP (stays later) =
      l.countP (stays later) := by
  induction l generalizing k with
  | nil => rw [modify_nil]
  | cons f l ih =>
    cases k with
    | zero =>
      rw [modify_zero_cons, countP_cons, countP_cons]
      rfl
    | succ k => rw [modify_succ_cons, countP_cons, countP_cons, ih]

theorem Fit.sublist {size : ℕ} {p : StorePic} {later : List ℤ} {l' : List Frm}
    (h : Fit size p later l) (hs : l'.Sublist l) : Fit size p later l' :=
  (Nat.add_le_add_right hs.countP_le _).trans h

/-- When a frame that stays finds the buffer full, there is one that does not stay. -/
theorem Fit.exists_not_stays {size : ℕ} {p : StorePic} {later : List ℤ} (h : Fit size p later l)
    (hp : p.usedForReference || later.any (· < p.poc)) (hfull : size ≤ l.length) :
    ∃ f ∈ l, f.ref = none ∧ ∀ d ∈ p.poc :: later, f.poc ≤ d := by
  rw [Fit, if_pos hp] at h
  by_contra hall
  push Not at hall
  have heq : l.countP (stays (p.poc :: later)) = l.length := by
    refine countP_eq_length.2 fun f hf => ?_
    rw [stays, Bool.or_eq_true]
    by_cases href : f.ref = none
    · obtain ⟨d, hd, hlt⟩ := hall f hf href
      exact .inr (any_eq_true.2 ⟨d, hd, decide_eq_true hlt⟩)
    · exact .inl (isSome_iff_ne_none.2 href)
  omega

theorem waiting_remarked {l' : List Frm} (h : List.Forall₂ Remarked l l') :
    waiting l' = waiting l := by
  induction h with
  | nil => rfl
  | cons hff _ ih =>
    obtain ⟨r, rfl, -⟩ := hff
    rw [waiting_cons, waiting_cons, ih]
    rfl

end Frm

/-! ## The memory -/

namespace Mem

variable {x : Mem} {m n : ℕ} {u : Use} {f : Frm}

theorem displayed_write (h : Counts (x.dpbMark u.mark) u) :
    displayed (x.write u.mark).slotOps =
      displayed x.slotOps ++ if u.isOutput then [] else [(x.dpbMark u.mark).framePoc] := by
  rw [Mem.write, h.out]
  cases u.isOutput with
  | true => simp
  | false => simp [Mem.log, Mem.setMark, displayed]

/-- A frame is given back without being displayed. -/
theorem displayed_release (h : Counts (x.dpbMark f.mark) f.use) (ho : f.isOutput) :
    displayed (x.release f).slotOps = displayed x.slotOps := by
  rw [Balanced.release_eq h ho]
  simp [Mem.log, Mem.setMark, displayed]

/-- The order count in the memory of a frame stays while the frame is output. -/
theorem framePoc_write (x : Mem) (m n : ℕ) :
    ((x.write m).dpbMark n).framePoc = (x.dpbMark n).framePoc := by
  rw [Mem.write]
  split
  · by_cases hn : n = m
    · rw [hn, setMark_self]
    · rw [setMark_ne hn]
      rfl
  · rfl

theorem framePoc_release (h : Counts (x.dpbMark f.mark) f.use) (ho : f.isOutput)
    (hn : n ≠ f.mark) : ((x.release f).dpbMark n).framePoc = (x.dpbMark n).framePoc := by
  rw [Balanced.release_eq h ho, setMark_ne hn]
  rfl

end Mem

/-! ## The buffer -/

/-- No order count comes after both of its neighbours. -/
def FillsNoGap (l : List ℤ) : Prop :=
  ∀ k, (hk : k < l.length) → l[k] - 1 ∈ l.take k → l[k] + 1 ∉ l.take k

theorem FillsNoGap.neighbours {l₁ l₂ : List ℤ} {n : ℤ} (h : FillsNoGap (l₁ ++ n :: l₂))
    (hn : n - 1 ∈ l₁) : n + 1 ∉ l₁ := by
  have hk := h l₁.length (by simp)
  rw [getElem_append_right le_rfl, take_left] at hk
  simp only [Nat.sub_self, getElem_cons_zero] at hk
  exact hk hn

namespace FrmBuf

/-- The buffer has displayed the order counts `shown` of a sequence, behind `base`, and
    those of the frames that wait and of the frames to come (`later`) are due. The frames
    `hand` that are not in the buffer are given by their mark and order count. -/
structure Shows (b : FrmBuf) (past : List (ℤ × ℤ)) (hand : List (ℕ × ℤ)) (base : List ℤ)
    (total shown later : List ℤ) : Prop where
  mem : b.Balanced past (hand.map fun x => ⟨x.1, 1, false⟩)
  findable : b.Findable
  agrees : ∀ f ∈ b.frames, (b.mem.dpbMark f.mark).framePoc = f.poc
  agreesHand : ∀ x ∈ hand, (b.mem.dpbMark x.1).framePoc = x.2
  log : displayed b.mem.slotOps = base ++ shown
  last : b.lastOutputPoc = shown.getLast?.getD INT_MIN
  order : Emitted total shown (Frm.waiting b.frames ++ later)
  nodup : total.Nodup
  suffix : later <:+ total
  interval : b.pocInterval ≤ 1 ∨ b.pocInterval ≤ 2 ∧ FillsNoGap total

namespace Shows

variable {b b' : FrmBuf} {past : List (ℤ × ℤ)} {hand : List (ℕ × ℤ)} {base : List ℤ}
  {total shown later : List ℤ} {cfg : DecCfg} {p : StorePic}

/-- The mark of a frame counts its uses. -/
theorem counts (h : b.Shows past hand base total shown later) {f : Frm} (hf : f ∈ b.frames) :
    Mem.Counts (b.mem.dpbMark f.mark) f.use :=
  h.mem.counts _ (mem_append_left _ (mem_map_of_mem hf))

/-- The frames that are due are different ones. -/
theorem nodup_due (h : b.Shows past hand base total shown later) :
    (Frm.waiting b.frames ++ later).Nodup :=
  (nodup_append.1 (h.order.nodup h.nodup)).2.1

theorem ne_later (h : b.Shows past hand base total shown later) {n d : ℤ}
    (hn : n ∈ Frm.waiting b.frames) (hd : d ∈ later) : n ≠ d :=
  (nodup_append.1 h.nodup_due).2.2 n hn d hd

/-- The frames that were displayed or wait are those that came in. -/
theorem came (h : b.Shows past hand base total shown later) {l : List ℤ}
    (hl : l ++ later = total) {n : ℤ} (hn : n ∈ shown ++ Frm.waiting b.frames) : n ∈ l := by
  have hp : (shown ++ Frm.waiting b.frames ++ later).Perm (l ++ later) := by
    rw [append_assoc, hl]
    exact h.order.perm
  exact ((perm_append_right_iff later).1 hp).mem_iff.1 hn

variable {k : ℕ}

/-- The frame that waits with the smallest order count precedes the others. -/
theorem lt_waiting (h : b.Shows past hand base total shown later) {n : ℤ} {f : Frm}
    (hs : IsSmallest b.frames n k) (hk : b.frames[k]? = some f) (hn : f.poc = n)
    (ho : f.isOutput = false) : ∀ d ∈ Frm.waiting (b.write k).frames, n < d := by
  have hp := Frm.waiting_modify hk ho
  rw [← write_frames, hn] at hp
  have hnodup : (Frm.waiting b.frames).Nodup :=
    (nodup_append.1 (h.nodup_due)).1
  intro d hd
  obtain ⟨g, hg, hgo, rfl⟩ := Frm.mem_waiting.1 (hp.mem_iff.2 (mem_cons_of_mem _ hd))
  refine lt_of_le_of_ne (hs.le g hg hgo) fun he => ?_
  exact (nodup_cons.1 (hp.nodup_iff.1 hnodup)).1 (he ▸ hd)

/-- The next frame is put into the display queue. -/
theorem write (h : b.Shows past hand base total shown later) {n : ℤ}
    (hs : smallest b.frames = some (n, k)) (hl : ∀ d ∈ later, n < d) :
    (b.write k).Shows past hand base total (shown ++ [n]) later := by
  have hsm := isSmallest_of_eq hs
  obtain ⟨f, hk, hn, ho⟩ := hsm.get
  have hf := mem_of_getElem? hk
  have hm : (b.write k).mem = b.mem.write f.mark := by rw [FrmBuf.write, hk]
  have hmem {g : Frm} (hg : g ∈ (b.write k).frames) :
      ∃ g' ∈ b.frames, g'.mark = g.mark ∧ g'.poc = g.poc := by
    rw [write_frames] at hg
    obtain ⟨j, hj, rfl⟩ := getElem_of_mem hg
    have hlt : j < b.frames.length := by rwa [length_modify] at hj
    refine ⟨b.frames[j], getElem_mem hlt, ?_⟩
    rw [getElem_modify]
    split <;> exact ⟨rfl, rfl⟩
  have hdisp := Mem.displayed_write (u := f.use) (h.counts hf)
  have hp := Frm.waiting_modify hk ho
  rw [← write_frames, hn] at hp
  refine ⟨(Elem.write b k).balanced h.mem, (Elem.write b k).findable h.findable, fun g hg => ?_,
    fun x hx => ?_, ?_, ?_, ?_, h.nodup, h.suffix, ?_⟩
  · obtain ⟨g', hg', hmark, hpoc⟩ := hmem hg
    rw [hm, Mem.framePoc_write, ← hmark, ← hpoc]
    exact h.agrees g' hg'
  · rw [hm, Mem.framePoc_write]
    exact h.agreesHand x hx
  · have hout : f.use.isOutput = false := ho
    have hpoc : (b.mem.dpbMark f.use.mark).framePoc = n := (h.agrees f hf).trans hn
    rw [hout, hpoc, if_neg Bool.false_ne_true, h.log, append_assoc] at hdisp
    rw [hm]
    exact hdisp
  · rw [getLast?_concat, getD_some, FrmBuf.write, hk]
    exact hn
  · refine (h.order.congr (hp.append_right later)).emit fun d hd => ?_
    rcases mem_append.1 hd with hd | hd
    · exact h.lt_waiting hsm hk hn ho d hd
    · exact hl d hd
  · rw [FrmBuf.write, hk]
    exact h.interval

/-- A frame of no use is removed. -/
theorem remove (h : b.Shows past hand base total shown later) {f : Frm} (hk : b.frames[k]? = some f)
    (hu : f.isUnused) : (b.remove k).Shows past hand base total shown later := by
  have hf := mem_of_getElem? hk
  have ho : f.isOutput := (Bool.and_eq_true_iff.1 hu).1
  have hm : (b.remove k).mem = b.mem.release f := by rw [FrmBuf.remove, hk]
  have hbal := h.mem.perm (perm_uses hk _)
  refine ⟨(Elem.remove hk hu).balanced h.mem, (Elem.remove hk hu).findable h.findable,
    fun g hg => ?_, fun x hx => ?_, ?_, ?_, ?_, h.nodup, h.suffix, ?_⟩
  · rw [remove_frames] at hg
    have hne : g.mark ≠ f.mark :=
      hbal.mark_ne (v := g.use) (mem_append_left _ (mem_map_of_mem hg))
    rw [hm, Mem.framePoc_release (h.counts hf) ho hne]
    exact h.agrees g (mem_of_mem_eraseIdx hg)
  · have hne : x.1 ≠ f.mark :=
      hbal.mark_ne (v := ⟨x.1, 1, false⟩) (mem_append_right _ (mem_map.2 ⟨x, hx, rfl⟩))
    rw [hm, Mem.framePoc_release (h.counts hf) ho hne]
    exact h.agreesHand x hx
  · rw [hm, Mem.displayed_release (h.counts hf) ho]
    exact h.log
  · rw [← h.last, FrmBuf.remove, hk]
  · rw [remove_frames, Frm.waiting_eraseIdx hk ho]
    exact h.order
  · rw [FrmBuf.remove, hk]
    exact h.interval

/-- The marks of the references change. -/
theorem remark (h : b.Shows past hand base total shown later)
    (hf : List.Forall₂ Frm.Remarked b.frames b'.frames) (hm : b'.mem = b.mem)
    (hlast : b'.lastOutputPoc = b.lastOutputPoc) (hint : b'.pocInterval ≤ 1 ∨ b'.pocInterval ≤ b.pocInterval) :
    b'.Shows past hand base total shown later := by
  refine ⟨(Elem.mark hf hm).balanced h.mem, (Elem.mark hf hm).findable h.findable,
    fun g hg => ?_, fun x hx => ?_, ?_, hlast.trans h.last, ?_, h.nodup, h.suffix,
    hint.elim .inl fun hi => h.interval.imp hi.trans (And.imp_left hi.trans)⟩
  · obtain ⟨j, hj, rfl⟩ := getElem_of_mem hg
    have hlt : j < b.frames.length := by rwa [hf.length_eq]
    obtain ⟨r, hr, -⟩ := hf.get hlt hj
    rw [get_eq_getElem] at hr
    rw [hm, hr]
    exact h.agrees b.frames[j] (getElem_mem hlt)
  · rw [hm]
    exact h.agreesHand x hx
  · rw [hm]
    exact h.log
  · rw [Frm.waiting_remarked hf]
    exact h.order

theorem removeUnused (h : b.Shows past hand base total shown later)
    (hr : b.removeUnused = some b') : b'.Shows past hand base total shown later := by
  obtain ⟨k, hk, rfl⟩ := map_eq_some_iff.1 hr
  obtain ⟨hlt, hu, -⟩ := findIdx?_eq_some_iff_getElem.1 hk
  exact h.remove (getElem?_eq_getElem hlt) hu

theorem purgeLoop (h : b.Shows past hand base total shown later) (n : ℕ) :
    (purgeLoop n b).Shows past hand base total shown later := by
  induction n generalizing b with
  | zero => exact h
  | succ n ih =>
    rw [FrmBuf.purgeLoop]
    cases hr : b.removeUnused with
    | none => exact h
    | some b' => exact ih (h.removeUnused hr)

theorem purge (h : b.Shows past hand base total shown later) :
    b.purge.Shows past hand base total shown later := h.purgeLoop _

/-- The frame with the smallest order count is output, when it precedes those to come. -/
theorem outputOne (h : b.Shows past hand base total shown later)
    (hl : ∀ n k, smallest b.frames = some (n, k) → ∀ d ∈ later, n < d) :
    ∃ shown', b.outputOne.Shows past hand base total shown' later := by
  rw [FrmBuf.outputOne]
  cases hs : smallest b.frames with
  | none => exact ⟨shown, h⟩
  | some x =>
    have hw := h.write hs (hl _ _ hs)
    obtain ⟨f, hf, -⟩ := (isSmallest_of_eq hs).get
    dsimp only
    split <;> rename_i href
    · exact ⟨_, hw⟩
    · refine ⟨_, hw.remove (f := { f with isOutput := true }) ?_ ?_⟩
      · rw [write_frames, getElem?_modify_eq, hf]
        rfl
      · rw [hf, bind_some, not_isSome_iff_eq_none] at href
        simp [Frm.isUnused, href]

/-- A frame whose order count is within the interval of the last one is the next one. -/
theorem lt_later_of_close (h : b.Shows past hand base total shown later) {n : ℤ}
    (hs : smallest b.frames = some (n, k)) (hlast : INT_MIN < b.lastOutputPoc)
    (hclose : n - b.lastOutputPoc ≤ b.pocInterval) : ∀ d ∈ later, n < d := by
  obtain ⟨f, hk, hn, ho⟩ := (isSmallest_of_eq hs).get
  have hwait : n ∈ Frm.waiting b.frames :=
    Frm.mem_waiting.2 ⟨f, mem_of_getElem? hk, ho, hn⟩
  have hshown : b.lastOutputPoc ∈ shown := by
    rw [h.last] at hlast ⊢
    cases hget : shown.getLast? with
    | none =>
      rw [hget] at hlast
      exact absurd hlast (lt_irrefl _)
    | some m => exact mem_of_getLast? hget
  intro d hd
  have hne : n ≠ d := h.ne_later hwait hd
  have hlt : b.lastOutputPoc < d := h.order.below _ hshown d (mem_append_right _ hd)
  -- A frame still to come that lies between the two has them as neighbours.
  by_contra hle
  rcases h.interval with hi | ⟨hi, hfills⟩
  · omega
  · obtain ⟨l, hl⟩ := h.suffix
    obtain ⟨l₁, l₂, rfl⟩ := append_of_mem hd
    have hcame {x : ℤ} (hx : x ∈ shown ++ Frm.waiting b.frames) : x ∈ l ++ l₁ :=
      mem_append_left _ (h.came hl hx)
    rw [← hl, ← append_assoc] at hfills
    refine hfills.neighbours ?_ ?_
    · rw [show d - 1 = b.lastOutputPoc by omega]
      exact hcame (mem_append_left _ hshown)
    · rw [show d + 1 = n by omega]
      exact hcame (mem_append_right _ hwait)

theorem updateInterval (h : b.Shows past hand base total shown later) (inc : ℤ) :
    (b.updateInterval inc).Shows past hand base total shown later := by
  refine h.remark (remarked_refl _) rfl rfl ?_
  rw [FrmBuf.updateInterval]
  dsimp only
  split
  · exact .inl le_rfl
  · exact .inr le_rfl

theorem outputLoop (h : b.Shows past hand base total shown later) (n : ℕ) :
    ∃ shown', (outputLoop n b).Shows past hand base total shown' later := by
  induction n generalizing b shown with
  | zero => exact ⟨shown, h⟩
  | succ n ih =>
    rw [FrmBuf.outputLoop]
    cases hs : smallest b.frames with
    | none => exact ⟨shown, h⟩
    | some x =>
      have hi := h.updateInterval (x.1 - b.lastOutputPoc)
      dsimp only
      split <;> rename_i hlast
      · split <;> rename_i hclose
        · exact ih (hi.write hs (hi.lt_later_of_close hs hlast hclose))
        · exact ⟨shown, hi⟩
      · exact ⟨shown, h⟩

theorem outputNormal (h : b.Shows past hand base total shown later) :
    ∃ shown', b.outputNormal.Shows past hand base total shown' later := by
  obtain ⟨shown', h'⟩ := h.outputLoop b.frames.length
  exact ⟨shown', h'.purge⟩

/-- The frames that are left are output at a flush. -/
theorem flushLoop (h : b.Shows past hand base total shown []) {n : ℕ}
    (hf : flushLoop n b = some b') :
    ∃ shown', b'.Shows past hand base total shown' [] ∧ b'.frames = [] := by
  induction n generalizing b shown with
  | zero =>
    rw [FrmBuf.flushLoop] at hf
    split at hf <;> cases hf
    exact ⟨shown, h, by assumption⟩
  | succ n ih =>
    rw [FrmBuf.flushLoop] at hf
    split at hf
    · cases hf
      exact ⟨shown, h, by assumption⟩
    · obtain ⟨shown', h'⟩ := h.outputOne fun _ _ _ _ hd => by cases hd
      exact ih h' hf

/-- A frame that waits is found by the search. -/
theorem smallest_le (h : b.Shows past hand base total shown later) {f : Frm}
    (hf : f ∈ b.frames) (ho : f.isOutput = false) :
    ∃ n k, smallest b.frames = some (n, k) ∧ n ≤ f.poc := by
  rcases smallest_spec b.frames with ⟨-, hall⟩ | ⟨n, k, hs, hi⟩
  · exact absurd (h.findable f hf) (not_lt.2 (hall f hf ho))
  · exact ⟨n, k, hs, hi.le f hf ho⟩

variable {rest : List ℤ}

/-- The loop that makes room outputs the frames that precede all frames to come, and the
    frame that comes in when it is the next one. -/
theorem makeRoom {m : ℕ} (h : b.Shows past [(m, p.poc)] base total shown (p.poc :: rest))
    (hmax : cfg.maxBufSize = 0) (hclean : b.Clean) (hfit : Frm.Fit cfg.size p rest b.frames) {n : ℕ}
    {v : FrmBuf × StorePic × Room} (hv : makeRoom cfg n b p = some v) :
    v.2.1 = p ∧ ∃ shown', v.1.Shows past [(m, p.poc)] base total shown' (p.poc :: rest) ∧
      (v.2.2 = .output → ∀ d ∈ Frm.waiting v.1.frames ++ rest, p.poc < d) := by
  induction n generalizing b shown with
  | zero =>
    rw [FrmBuf.makeRoom] at hv
    split at hv <;> cases hv
    exact ⟨rfl, shown, h, fun he => by cases he⟩
  | succ n ih =>
    rw [FrmBuf.makeRoom] at hv
    split at hv <;> rename_i hfull
    · have hlen : cfg.size ≤ b.frames.length := by simpa [isFull, hmax] using hfull
      -- A frame that stays finds one that is no reference and precedes it.
      have hstays (hp : p.usedForReference || rest.any (· < p.poc)) :
          ∃ i k, smallest b.frames = some (i, k) ∧ ∀ d ∈ p.poc :: rest, i < d := by
        obtain ⟨f, hf, href, hle⟩ := hfit.exists_not_stays hp hlen
        have ho : f.isOutput = false := by simpa [Frm.isUnused, href] using hclean f hf
        obtain ⟨i, k, hs, hi⟩ := h.smallest_le hf ho
        exact ⟨i, k, hs, fun d hd => hi.trans_lt (lt_of_le_of_ne (hle d hd) (h.ne_later (Frm.mem_waiting.2 ⟨f, hf, ho, rfl⟩) hd))⟩
      have hnot (hp : ¬(p.usedForReference || rest.any (· < p.poc))) :
          ∀ d ∈ rest, p.poc < d := by
        simp only [Bool.or_eq_true, List.any_eq_true, decide_eq_true_eq, not_or, not_exists,
          not_and, not_lt] at hp
        have hn := (nodup_append.1 (h.nodup_due)).2.1
        refine fun d hd => lt_of_le_of_ne (hp.2 d hd) fun he => ?_
        exact (nodup_cons.1 hn).1 (he ▸ hd)
      dsimp only at hv
      rw [b.removeUnused_eq_none.2 hclean, getD_none] at hv
      cases hfirst : b.comesFirst p with
      | true =>
        have hp : ¬(p.usedForReference || rest.any (· < p.poc)) := by
          intro hp
          obtain ⟨i, k, hs, hi⟩ := hstays hp
          rw [comesFirst, hs] at hfirst
          exact absurd (of_decide_eq_true hfirst) (not_lt.2 (hi _ mem_cons_self).le)
        have href : p.usedForReference = false := by
          rw [Bool.or_eq_true, not_or] at hp
          exact Bool.not_eq_true _ ▸ hp.1
        rw [hfirst, href, if_pos (by rfl)] at hv
        cases hv
        refine ⟨rfl, shown, h, fun _ d hd => ?_⟩
        rcases mem_append.1 hd with hd | hd
        · obtain ⟨f, hf, ho, rfl⟩ := Frm.mem_waiting.1 hd
          obtain ⟨i, k, hs, hi⟩ := h.smallest_le hf ho
          rw [comesFirst, hs] at hfirst
          exact (of_decide_eq_true hfirst).trans_le hi
        · exact hnot hp d hd
      | false =>
        rw [hfirst, Bool.false_and, if_neg Bool.false_ne_true, if_neg Bool.false_ne_true,
          if_neg Bool.false_ne_true] at hv
        have hl : ∀ i k, smallest b.frames = some (i, k) → ∀ d ∈ p.poc :: rest, i < d := by
          intro i k hs
          by_cases hp : p.usedForReference || rest.any (· < p.poc)
          · obtain ⟨i', k', hs', hi⟩ := hstays hp
            obtain ⟨rfl, rfl⟩ := Prod.mk.inj (some.inj (hs.symm.trans hs'))
            exact hi
          · rw [comesFirst, hs] at hfirst
            have hle : i ≤ p.poc := not_lt.1 (of_decide_eq_false hfirst)
            obtain ⟨f, hf, hn, ho⟩ := (isSmallest_of_eq hs).get
            have hw := Frm.mem_waiting.2 ⟨f, mem_of_getElem? hf, ho, rfl⟩
            have hne : f.poc ≠ p.poc := h.ne_later hw mem_cons_self
            have hlt : i < p.poc := lt_of_le_of_ne hle (hn ▸ hne)
            intro d hd
            rcases mem_cons.1 hd with rfl | hd
            · exact hlt
            · exact hlt.trans (hnot hp d hd)
        obtain ⟨shown', h'⟩ := h.outputOne hl
        refine ih h' hclean.outputOne ?_ hv
        rw [FrmBuf.outputOne]
        cases hs : smallest b.frames with
        | none => exact hfit
        | some x =>
          have hw : Frm.Fit cfg.size p rest (b.write x.2).frames := by
            rw [Frm.Fit, write_frames, Frm.countP_stays_modify]
            exact hfit
          dsimp only
          split
          · exact hw
          · rw [remove_frames]
            exact hw.sublist (eraseIdx_sublist _ _)
    · cases hv
      exact ⟨rfl, shown, h, fun he => by cases he⟩

/-- The frame that comes in is output at once. -/
theorem output {m : ℕ} (h : b.Shows past [(m, p.poc)] base total shown (p.poc :: rest))
    (hm : p.memMark = some m) (hnext : ∀ d ∈ Frm.waiting b.frames ++ rest, p.poc < d) :
    (b.output p).Shows past [] base total (shown ++ [p.poc]) rest := by
  have hhand : (⟨m, 1, false⟩ : Use) ∈ b.frames.map Frm.use ++ [⟨m, 1, false⟩] :=
    mem_append_right _ (mem_singleton.2 rfl)
  have hbal := h.mem.perm perm_append_comm
  have hdisp := Mem.displayed_write (h.mem.counts _ hhand)
  have hpoc : (b.mem.dpbMark m).framePoc = p.poc := h.agreesHand (m, p.poc) mem_cons_self
  -- The frame is given back like one of the buffer.
  obtain ⟨f, hf⟩ : ∃ f : Frm, f = ⟨0, 0, none, true, m, 1⟩ := ⟨_, rfl⟩
  have hcw : Mem.Counts ((b.mem.write m).dpbMark f.mark) f.use := by
    rw [hf]
    exact hbal.write.counts _ mem_cons_self
  have hrel : ((b.mem.write m).free m .frame) = (b.mem.write m).release f := by
    rw [hf, Mem.release, if_neg (show ¬1 = 2 by decide)]
  have ho : f.isOutput := by rw [hf]
  have heq : (b.output p).mem = (b.mem.write m).release f := by
    rw [← hrel, FrmBuf.output, hm, getD_some]
  refine ⟨output_balanced h.mem hm, h.findable, fun g hg => ?_, fun x hx => (by cases hx), ?_, ?_,
    ?_, h.nodup,
    (suffix_cons _ _).trans h.suffix, h.interval⟩
  · have hne : g.mark ≠ f.mark := by
      rw [hf]
      exact hbal.mark_ne (v := g.use) (mem_map_of_mem hg)
    rw [heq, Mem.framePoc_release hcw ho hne, Mem.framePoc_write]
    exact h.agrees g hg
  · rw [heq, Mem.displayed_release hcw ho, hdisp, hpoc, if_neg Bool.false_ne_true, h.log,
      append_assoc]
  · rw [getLast?_concat]
    rfl
  · exact (h.order.congr perm_middle).emit hnext

/-- The frame that comes in is stored. -/
theorem add {m : ℕ} (h : b.Shows past [(m, p.poc)] base total shown (p.poc :: rest))
    (hm : p.memMark = some m) (ho : p.isOutput = false) (hp : p.poc < INT_MAX)
    (hfast : cfg.fastOut = false) (hplay : cfg.enableFastPlay = .disable) :
    ∃ shown', (b.add cfg p).Shows past [] base total shown' rest := by
  have hmark : (Frm.ofPic p).mark = m := by simp [Frm.ofPic, hm]
  have hsplit (n : ℕ) : ((b.mem.split (Frm.ofPic p)).dpbMark n).framePoc =
      (b.mem.dpbMark n).framePoc := by
    rw [Mem.split]
    split
    · by_cases hn : n = (Frm.ofPic p).mark
      · rw [hn, Mem.setMark_self]
      · rw [Mem.setMark_ne hn]
    · rfl
  have hops : (b.mem.split (Frm.ofPic p)).slotOps = b.mem.slotOps := by
    rw [Mem.split]
    split <;> rfl
  rw [FrmBuf.add, scan, hfast, if_neg Bool.false_ne_true, hplay]
  refine outputNormal ⟨split_balanced h.mem hm ho, fun g hg => ?_, fun g hg => ?_,
    fun x hx => (by cases hx), ?_, h.last, ?_, h.nodup,
    (suffix_cons _ _).trans h.suffix, h.interval⟩
  · rcases mem_append.1 hg with hg | hg
    · exact h.findable g hg
    · rw [mem_singleton.1 hg]
      exact hp
  · dsimp only
    rw [hsplit]
    rcases mem_append.1 hg with hg | hg
    · exact h.agrees g hg
    · rw [mem_singleton.1 hg, hmark]
      exact h.agreesHand (m, p.poc) mem_cons_self
  · dsimp only
    rw [hops]
    exact h.log
  · have hw : Frm.waiting [Frm.ofPic p] = [p.poc] := by
      rw [Frm.waiting_cons, Frm.ofPic, ho]
      rfl
    dsimp only
    rw [Frm.waiting_append, hw, append_assoc]
    exact h.order

end Shows

end FrmBuf

end Libmpp.H264d
