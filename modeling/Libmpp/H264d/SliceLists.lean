import Libmpp.H264d.SliceHeader

/-!
# The lists of a slice header

Which bits make the functions of the slice header let a list through that has no end: the
bits of a list with as many items as its bound, none of them the end mark.

`scanLists` and `scanMarking` find this in the bits alone.
-/

namespace Libmpp.H264d

open Base Bitstream Function List Option

/-! ## What is to hold -/

/-- The modifications of a list have their end within the bound, when it is enabled. -/
def SliceHead.ListEnds (s : SliceHead) (l : RefList) : Prop :=
  s.has l → s.refPicListReorderingFlag l →
    EndsWithin (fun i => some (s.modifications l i).modificationOfPicNumsIdc) (· = 3)
      (modificationBound (s.numRefIdxActive l))

/-- The modifications of each list have. -/
def SliceHead.ListsEnd (s : SliceHead) : Prop := ∀ l, s.ListEnds l

/-- The numbers of the operations. -/
def Reading.ops (s : Reading) (i : ℕ) : Option ℕ :=
  (s.drpm i).map Drpm.memoryManagementControlOperation

/-- The operations have their end within the bound, when there are any. -/
def Reading.MarkingEnds (s : Reading) : Prop :=
  s.slice.marksIdr = false → s.slice.adaptiveRefPicBufferingFlag →
    EndsWithin s.ops (· = 0) maxMarkingTimes

/-- Reference lists that are let through have their ends. -/
def ListsRejected (s : Reading) : Prop :=
  (refPicListMvcModification s).1 = mppOk → (refPicListMvcModification s).2.slice.ListsEnd

/-- Operations that are let through have their end. -/
def MarkingRejected (s : Reading) : Prop :=
  (decRefPicMarking s).1 = mppOk → (decRefPicMarking s).2.MarkingEnds

/-- The calls for a slice let no list through without its end, and the slice is used only
    with the ends of all. -/
structure SliceRejected (env : SliceEnv) (s : Reading) : Prop where
  lists : ∀ sets s', readToLists env s = .ok sets s' → ListsRejected s'
  marking : ∀ s', readToMarking env s = .ok () s' → s'.slice.nalReferenceIdc ≠ 0 →
    MarkingRejected s'
  used : (parserOneNalu env s).1 = .startOfPicture → (parserOneNalu env s).2.2.slice.ListsEnd ∧
    ((parserOneNalu env s).2.2.slice.nalReferenceIdc ≠ 0 → (parserOneNalu env s).2.2.MarkingEnds)

/-! ## What the bits say -/

/-- Skip `n` numbers. -/
def skipUes : ℕ → BitReadCtx → Option (Unit × BitReadCtx)
  | 0, ctx => some ((), ctx)
  | n + 1, ctx => mppReadUe ctx >>= fun v => skipUes n v.2

section Scan

variable {α : Type}

/-- An item of a list, behind which there are as many numbers as `numbers` says. -/
def skipItem (item : UInt32 → α) (numbers : UInt32 → ℕ) (ctx : BitReadCtx) :
    Option (α × BitReadCtx) :=
  mppReadUe ctx >>= fun v => skipUes (numbers v.1) v.2 >>= fun w => some (item v.1, w.2)

/-- A list behind its flag. -/
def scanList (parse : BitReadCtx → Option (α × BitReadCtx)) (isLast : α → Bool) (bound : ℕ)
    (ctx : BitReadCtx) : Scan BitReadCtx :=
  match mppReadOnebit ctx with
  | none => .stuck
  | some (false, ctx) => .ended ctx
  | some (true, ctx) => scan parse isLast bound ctx

end Scan

def skipModification : BitReadCtx → Option (UInt32 × BitReadCtx) :=
  skipItem id fun idc => (modificationNumbers idc).length

def skipMarking : BitReadCtx → Option (ℕ × BitReadCtx) :=
  skipItem UInt32.toNat fun val => (markingNumbers val).length

/-- The modifications of a list, if the slice has it. -/
def SliceHead.scanModifications (s : SliceHead) (l : RefList) (ctx : BitReadCtx) :
    Scan BitReadCtx :=
  if s.has l then
    scanList skipModification (· = 3) (modificationBound (s.numRefIdxActive l)) ctx
  else .ended ctx

/-- The modifications of both lists. -/
def SliceHead.scanLists (s : SliceHead) (ctx : BitReadCtx) : Scan BitReadCtx :=
  match s.scanModifications .list0 ctx with
  | .ended ctx => s.scanModifications .list1 ctx
  | scan => scan

/-- The operations, if the slice has them. -/
def SliceHead.scanMarking (s : SliceHead) (ctx : BitReadCtx) : Scan BitReadCtx :=
  if s.marksIdr then .ended ctx
  else scanList skipMarking (· = 0) maxMarkingTimes ctx

/-- No list of the header goes on to its bound. -/
structure HeaderEnds (env : SliceEnv) (s : Reading) : Prop where
  lists : ∀ sets s', readToLists env s = .ok sets s' → s'.slice.scanLists s'.reader ≠ .overrun
  marking : ∀ s', readToMarking env s = .ok () s' → s'.slice.nalReferenceIdc ≠ 0 →
    s'.slice.scanMarking s'.reader ≠ .overrun

/-! ## What is left as it was -/

section Keeps

variable {τ α : Type} {g : SliceHead → τ}

theorem readField_keeps (g : SliceHead → τ) (rd : BitReadCtx → Option (α × BitReadCtx)) :
    Keeps (fun s : Reading => g s.slice) (readField rd) := by
  intro s
  rw [readField]
  cases rd s.reader with
  | none => rfl
  | some v => rfl

theorem setSlice_keeps {f : SliceHead → SliceHead} (h : ∀ s, g (f s) = g s) :
    Keeps (fun s : Reading => g s.slice) (setSlice f) := .modify fun s => h s.slice

theorem readNumbers_keeps {set : (α → α) → Parse Unit}
    (hset : ∀ f, Keeps (fun s : Reading => g s.slice) (set f)) (stores : List (UInt32 → α → α)) :
    Keeps (fun s : Reading => g s.slice) (readNumbers set stores) := by
  induction stores with
  | nil => exact .pure ()
  | cons store rest ih =>
    exact (readField_keeps g _).bind fun v => (hset (store v)).bind fun _ => ih

theorem readList_keeps {store : Bool → SliceHead → SliceHead} {item : ℕ → Parse α}
    (hstore : ∀ flag s, g (store flag s) = g s)
    (hitem : ∀ i, Keeps (fun s : Reading => g s.slice) (item i)) (isLast : α → Bool) (bound : ℕ) :
    Keeps (fun s : Reading => g s.slice) (readList store item isLast bound) :=
  (readField_keeps g _).bind fun flag => (setSlice_keeps (hstore flag)).bind fun _ =>
    .ite (.readUntil isLast hitem (.throw _) bound 0) (.pure ())

variable {p : Parse Unit}

theorem times_keeps {part : Reading → τ} (h : Keeps part p) (n : ℕ) : Keeps part (times p n) := by
  induction n with
  | zero => exact .pure ()
  | succ n ih => exact h.bind fun _ => ih

theorem finish_keeps {part : Reading → τ} (h : Keeps part p) (s : Reading) :
    part (finish p s).2 = part s := by
  have hs := h s
  rw [finish]
  split
  next hp =>
    rw [hp] at hs
    exact hs
  next hp =>
    rw [hp] at hs
    exact hs
  next hp =>
    rw [hp] at hs
    exact hs

theorem checkedCall_keeps {part : Reading → τ} (h : Keeps part p) :
    Keeps part (checkedCall (finish p)) := by
  intro s
  have hs := finish_keeps h s
  rw [checkedCall]
  split_ifs
  · exact hs
  · exact hs

theorem readModification_keeps {l : RefList}
    (hmod : ∀ s m, g { s with modifications := update s.modifications l m } = g s)
    (i : ℕ) :
    Keeps (fun s : Reading => g s.slice) (readModification l i) :=
  (readField_keeps g _).bind fun _ => (setSlice_keeps fun s => hmod s _).bind fun _ =>
    (readNumbers_keeps (fun _ => setSlice_keeps fun s => hmod s _) _).bind fun _ => .pure _

/-- Reading the modifications of a list leaves all but its flag and its modifications. -/
theorem readModifications_keeps {l : RefList}
    (hflag : ∀ flag s, g (setReorderingFlag l flag s) = g s)
    (hmod : ∀ s m, g { s with modifications := update s.modifications l m } = g s) :
    Keeps (fun s : Reading => g s.slice) (readModifications l) :=
  Keeps.get.bind fun _ =>
    readList_keeps hflag (readModification_keeps hmod) _ _

/-- What the lists of a slice depend on, but for the lists. -/
def SliceHead.shape (s : SliceHead) : ℕ × (RefList → UInt32) := (s.sliceType, s.numRefIdxActive)

/-- One of the lists. -/
def SliceHead.listOf (l : RefList) (s : SliceHead) : Bool × (ℕ → Modification) :=
  (s.refPicListReorderingFlag l, s.modifications l)

theorem predWeightTable_keeps (g : SliceHead → τ) (sets : ActiveSets) :
    Keeps (fun s : Reading => g s.slice) (checkedCall (predWeightTable sets)) := by
  have hse : Keeps (fun s : Reading => g s.slice) readWeightAndOffset :=
    (readField_keeps g _).bind fun _ => (readField_keeps g _).bind fun _ => .pure ()
  have hweights : ∀ n, Keeps (fun s : Reading => g s.slice) (readWeights n) := fun n =>
    (readField_keeps g _).bind fun _ => .ite (times_keeps hse n) (.pure ())
  have hentry : ∀ chroma, Keeps (fun s : Reading => g s.slice) (readWeightEntry chroma) :=
    fun _ => (hweights 1).bind fun _ => .ite (hweights 2) (.pure ())
  exact checkedCall_keeps ((readField_keeps g mppReadUe).bind fun _ =>
    (Keeps.ite ((readField_keeps g mppReadUe).bind fun _ => .pure ()) (.pure ())).bind fun _ =>
    Keeps.get.bind fun _ => (times_keeps (hentry _) _).bind fun _ =>
    .ite (times_keeps (hentry _) _) (.pure ()))

end Keeps

/-! ## Reading a list -/

/-- The reader has failed, and the label is gone to. -/
def Stuck (e : Jump) (s : Reading) : Prop := e = .bitreadErr ∧ s.bitRet = mppErrReadBit

section Items

variable {α γ : Type} {R : Reading → Reading → Prop}

/-- A field is read as the reader does. -/
theorem readField_follows (rd : BitReadCtx → Option (α × BitReadCtx))
    (hR : ∀ s r, R s { s with reader := r, bitRet := mppOk }) :
    Follows Reading.reader R Stuck (readField rd) rd where
  ok := by
    intro s a r h
    refine ⟨{ s with reader := r, bitRet := mppOk }, ?_, rfl, hR s r⟩
    rw [readField, h]
  stuck := by
    intro s h
    refine ⟨.bitreadErr, { s with bitRet := mppErrReadBit }, ?_, rfl, rfl⟩
    rw [readField, h]

/-- What is kept of the items, and of a reader that has not failed. -/
structure SameItems (items : Reading → ℕ → Option γ) (s s' : Reading) : Prop where
  items : items s' = items s
  bitRet : s.bitRet = mppOk → s'.bitRet = mppOk

theorem SameItems.refl {items : Reading → ℕ → Option γ} (s : Reading) : SameItems items s s :=
  ⟨rfl, id⟩

theorem SameItems.trans (items : Reading → ℕ → Option γ) (a b c : Reading)
    (h : SameItems items a b) (h' : SameItems items b c) : SameItems items a c :=
  ⟨h'.items.trans h.items, h'.bitRet ∘ h.bitRet⟩

/-- The numbers of an item are read as they are skipped. -/
theorem readNumbers_follows {items : Reading → ℕ → Option γ} {set : (α → α) → Parse Unit}
    (stores : List (UInt32 → α → α))
    (hread : ∀ s r, items { s with reader := r, bitRet := mppOk } = items s)
    (hset : ∀ store ∈ stores, ∀ v,
      Follows Reading.reader (SameItems items) Stuck (set (store v))
        fun r => some ((), r)) :
    Follows Reading.reader (SameItems items) Stuck (readNumbers set stores)
      (skipUes stores.length) := by
  induction stores with
  | nil => exact .pure SameItems.refl ()
  | cons store rest ih =>
    have hfield := readField_follows (R := SameItems items) mppReadUe
      fun s r => ⟨hread s r, fun _ => rfl⟩
    have hrest : ∀ v, Follows Reading.reader (SameItems items) Stuck
        (set (store v) >>= fun _ => readNumbers set rest)
        (fun r => some ((), r) >>= fun w => skipUes rest.length w.2) := fun v =>
      (hset store (mem_cons_self ..) v).bind (SameItems.trans items) fun _ =>
        ih fun store h => hset store (mem_cons_of_mem _ h)
    exact hfield.bind (SameItems.trans items) hrest

/-- A list behind its flag is read as it is scanned. -/
theorem readList_spec {store : Bool → SliceHead → SliceHead} {item : ℕ → Parse α}
    {parse : BitReadCtx → Option (α × BitReadCtx)} {items : Reading → ℕ → Option α}
    (flagOf : SliceHead → Bool)
    (h : Reads item Reading.reader parse items (·.bitRet = mppOk) Stuck)
    (hflag : ∀ flag s, flagOf (store flag s) = flag)
    (hkeep : ∀ i, Keeps (fun s => flagOf s.slice) (item i))
    (isLast : α → Bool) (bound : ℕ) (s : Reading) :
    match scanList parse isLast bound s.reader with
    | .ended r => ∃ s', readList store item isLast bound s = .ok () s' ∧ s'.reader = r ∧
        s'.bitRet = mppOk ∧ (flagOf s'.slice → EndsWithin (items s') isLast bound)
    | .overrun => ∃ s', readList store item isLast bound s = .error .bitreadErr s' ∧
        s'.bitRet = mppOk ∧ flagOf s'.slice ∧ NoEnd (items s') isLast bound
    | .stuck => ∃ e s', readList store item isLast bound s = .error e s' ∧ Stuck e s' := by
  have hbit := readField_follows (R := fun _ _ => True) mppReadOnebit fun _ _ => trivial
  rw [scanList]
  cases hread : mppReadOnebit s.reader with
  | none =>
    obtain ⟨e, s', heq, hstuck⟩ := hbit.stuck hread
    exact ⟨e, s', bind_of_error heq, hstuck⟩
  | some v =>
    obtain ⟨flag, r⟩ := v
    have hfirst : readOnebit s = .ok flag { s with reader := r, bitRet := mppOk } := by
      rw [readOnebit, readField, hread]
    -- behind the flag
    set s₁ : Reading := { s with reader := r, bitRet := mppOk, slice := store flag s.slice }
      with hs₁
    have hrest : readList store item isLast bound s =
        if flag then readUntil item isLast (throw .bitreadErr) bound 0 s₁ else .ok () s₁ := by
      rw [readList, bind_of_ok hfirst]
      cases flag <;> rfl
    cases flag with
    | false => 
      refine ⟨s₁, hrest, rfl, rfl, fun hon => ?_⟩
      rw [hs₁, hflag] at hon
      exact absurd hon Bool.false_ne_true
    | true =>
      have huntil := h.until isLast (throw .bitreadErr) bound (s := s₁) rfl
      have hkeeps := Keeps.readUntil isLast hkeep (.throw Jump.bitreadErr) bound 0 s₁
      have hon : flagOf s₁.slice = true := hflag true s.slice
      rw [if_pos rfl] at hrest
      rw [← hrest] at huntil hkeeps
      change match scan parse isLast bound s₁.reader with
        | .ended r => _
        | .overrun => _
        | .stuck => _
      cases hscan : scan parse isLast bound s₁.reader with
      | ended r' =>
        rw [hscan] at huntil
        obtain ⟨s', heq, hrd, hret, hends⟩ := huntil
        exact ⟨s', heq, hrd, hret, fun _ => hends⟩
      | overrun =>
        rw [hscan] at huntil
        obtain ⟨s', heq, hret, hno⟩ := huntil
        have hkept : flagOf s'.slice = flagOf s₁.slice := by
          rw [heq] at hkeeps
          exact hkeeps
        exact ⟨s', heq, hret, hkept.trans hon, hno⟩
      | stuck =>
        rw [hscan] at huntil
        exact huntil

/-- An item is kept under its number, and the numbers behind it change nothing of that. -/
theorem reads_item {item : ℕ → Parse α} {val : UInt32 → α} {numbers : UInt32 → ℕ}
    {items : Reading → ℕ → Option α} (before : ℕ → Reading → Reading)
    {keep : ℕ → UInt32 → Reading → Reading} {behind : ℕ → UInt32 → Parse Unit}
    (hitem : ∀ i s, item i s = (readUe >>= fun v => modify (keep i v) >>= fun _ =>
      behind i v >>= fun _ => pure (val v)) (before i s))
    (hbefore : ∀ i s, (before i s).reader = s.reader)
    (hkeep : ∀ i v s, (keep i v s).reader = s.reader ∧ (keep i v s).bitRet = s.bitRet)
    (hitems : ∀ i v s r, items (keep i v { before i s with reader := r, bitRet := mppOk }) =
      update (items s) i (some (val v)))
    (hbehind : ∀ i v, Follows Reading.reader (SameItems items) Stuck (behind i v)
      (skipUes (numbers v))) :
    Reads item Reading.reader (skipItem val numbers) items (·.bitRet = mppOk) Stuck where
  ok := by
    intro i s a r _ h
    obtain ⟨⟨v, r₁⟩, hue, h⟩ := bind_eq_some_iff.1 h
    obtain ⟨⟨_, r₂⟩, hskip, h⟩ := bind_eq_some_iff.1 h
    obtain ⟨rfl, rfl⟩ := Prod.mk.inj (some_inj.1 h)
    set s₁ : Reading := { before i s with reader := r₁, bitRet := mppOk } with hs₁
    have hread : readUe (before i s) = .ok v s₁ := by
      rw [readUe, readField, hbefore, hue]
    have hrd : (keep i v s₁).reader = r₁ := (hkeep i v s₁).1
    obtain ⟨s', heq, hrd', hsame⟩ := (hbehind i v).ok (s := keep i v s₁) (hrd ▸ hskip)
    have hitems' : items s' = update (items s) i (some (val v)) :=
      hsame.items.trans (hitems i v s r₁)
    refine ⟨s', ?_, hrd', hsame.bitRet (hkeep i v s₁).2, ?_, fun j hj => ?_⟩
    · rw [hitem, bind_of_ok hread]
      exact bind_of_ok heq
    · rw [hitems', update_self]
    · rw [hitems', update_of_ne hj]
  stuck := by
    intro i s _ h
    cases hue : mppReadUe s.reader with
    | none =>
      refine ⟨.bitreadErr, { before i s with bitRet := mppErrReadBit }, ?_, rfl, rfl⟩
      rw [hitem]
      refine bind_of_error ?_
      rw [readUe, readField, hbefore, hue, ← hbefore i s]
    | some v =>
      obtain ⟨v, r₁⟩ := v
      set s₁ : Reading := { before i s with reader := r₁, bitRet := mppOk } with hs₁
      have hread : readUe (before i s) = .ok v s₁ := by
        rw [readUe, readField, hbefore, hue]
      have hrd : (keep i v s₁).reader = r₁ := (hkeep i v s₁).1
      have hskip : skipUes (numbers v) r₁ = none := by
        rw [skipItem, hue, bind_eq_bind, bind_some] at h
        cases hskip : skipUes (numbers v) r₁ with
        | none => rfl
        | some w =>
          dsimp only at h
          rw [hskip] at h
          exact absurd h (some_ne_none _)
      obtain ⟨e, s', heq, hstuck⟩ := (hbehind i v).stuck (s := keep i v s₁) (hrd ▸ hskip)
      refine ⟨e, s', ?_, hstuck⟩
      have hkept : (modify (keep i v) : Parse Unit) s₁ = .ok () (keep i v s₁) := rfl
      rw [hitem, bind_of_ok hread, bind_of_ok hkept]
      exact bind_of_error heq

end Items

/-! ## The modifications -/

section Modifications

variable {l : RefList}

/-- The kinds of the modifications of a list. -/
def Reading.idcs (l : RefList) (s : Reading) (i : ℕ) : Option UInt32 :=
  some (s.slice.modifications l i).modificationOfPicNumsIdc

/-- Changing a modification keeps those of the other indices, and what it keeps of its
    own. -/
theorem setModification_follows (l : RefList) (i : ℕ) {f : Modification → Modification}
    (hf : ∀ m, (f m).modificationOfPicNumsIdc = m.modificationOfPicNumsIdc) :
    Follows Reading.reader (SameItems (Reading.idcs l)) Stuck (setModification l i f)
      fun r => some ((), r) := by
  refine .modify fun s => ⟨rfl, funext fun j => ?_, id⟩
  by_cases hj : j = i
  · subst hj
    simp [Reading.idcs, hf]
  · simp [Reading.idcs, hj]

theorem modificationNumbers_idc {idc v : UInt32} {store : UInt32 → Modification → Modification}
    (h : store ∈ modificationNumbers idc) (m : Modification) :
    (store v m).modificationOfPicNumsIdc = m.modificationOfPicNumsIdc := by
  rw [modificationNumbers] at h
  split_ifs at h
  · rw [mem_singleton.1 h]
  · rw [mem_singleton.1 h]
  · rw [mem_singleton.1 h]
  · exact absurd h not_mem_nil

theorem reads_modification (l : RefList) :
    Reads (readModification l) Reading.reader skipModification (Reading.idcs l)
      (·.bitRet = mppOk) Stuck := by
  refine reads_item (fun _ s => s) (fun _ _ => rfl) (fun _ _ => rfl)
    (fun _ _ _ => ⟨rfl, rfl⟩) (fun i v s r => funext fun j => ?_) fun i v => ?_
  · by_cases hj : j = i
    · subst hj
      simp [Reading.idcs]
    · simp [Reading.idcs, hj]
  · exact readNumbers_follows _ (fun _ _ => rfl) fun store hstore v =>
      setModification_follows l i (modificationNumbers_idc hstore)

variable {s s' : SliceHead}

theorem has_congr (h : s'.shape = s.shape) (l : RefList) : s'.has l = s.has l := by
  have htype : s'.sliceType = s.sliceType := (Prod.mk.inj h).1
  cases l with
  | list0 => rw [SliceHead.has, SliceHead.has, htype]
  | list1 => rw [SliceHead.has, SliceHead.has, htype]

theorem active_congr (h : s'.shape = s.shape) (l : RefList) :
    s'.numRefIdxActive l = s.numRefIdxActive l := congrFun (Prod.mk.inj h).2 l

theorem listEnds_congr (hshape : s'.shape = s.shape) (hlist : s'.listOf l = s.listOf l) :
    s'.ListEnds l ↔ s.ListEnds l := by
  obtain ⟨hflag, hmod⟩ := Prod.mk.inj hlist
  rw [SliceHead.ListEnds, SliceHead.ListEnds, has_congr hshape, active_congr hshape, hflag, hmod]

theorem scanModifications_congr (h : s'.shape = s.shape) (l : RefList) :
    s'.scanModifications l = s.scanModifications l := by
  ext ctx
  rw [SliceHead.scanModifications, SliceHead.scanModifications, has_congr h, active_congr h]

/-- The modifications of a list in its place in the header are read as they are scanned. -/
theorem readHad_spec (l : RefList) (s : Reading) {b : Bool} (hb : b = s.slice.has l) :
    match s.slice.scanModifications l s.reader with
    | .ended r => ∃ s', onlyIf b (readModifications l) s = .ok () s' ∧
        s'.reader = r ∧ s'.slice.ListEnds l
    | .overrun => ∃ s', onlyIf b (readModifications l) s = .error .bitreadErr s' ∧
        s'.bitRet = mppOk ∧ ¬s'.slice.ListEnds l
    | .stuck => ∃ e s', onlyIf b (readModifications l) s = .error e s' ∧
        Stuck e s' := by
  rw [SliceHead.scanModifications, hb, onlyIf]
  by_cases hhas : s.slice.has l = true
  · rw [if_pos hhas, if_pos hhas]
    have hkeep : ∀ i, Keeps (fun s : Reading => s.slice.refPicListReorderingFlag l)
        (readModification l i) :=
      readModification_keeps (g := (·.refPicListReorderingFlag l)) fun _ _ => rfl
    have hflag : ∀ flag s, (setReorderingFlag l flag s).refPicListReorderingFlag l = flag :=
      fun _ _ => update_self ..
    have hspec := readList_spec (·.refPicListReorderingFlag l) (reads_modification l) hflag hkeep
      (· = 3) (modificationBound (s.slice.numRefIdxActive l)) s
    have hshape : Keeps (fun s : Reading => s.slice.shape) (readModifications l) :=
      readModifications_keeps (g := SliceHead.shape) (fun _ _ => rfl) (fun _ _ => rfl)
    cases hscan : scanList skipModification (· = 3) (modificationBound (s.slice.numRefIdxActive l))
      s.reader with
    | ended r =>
      rw [hscan] at hspec
      obtain ⟨s', heq, hrd, -, hends⟩ := hspec
      refine ⟨s', heq, hrd, fun _ hon => ?_⟩
      rw [active_congr (hshape.ok heq)]
      exact hends hon
    | overrun =>
      rw [hscan] at hspec
      obtain ⟨s', heq, hret, hon, hno⟩ := hspec
      refine ⟨s', heq, hret, fun hends => ?_⟩
      have hsame := hshape.error heq
      have := hends ((has_congr hsame l).trans hhas) hon
      rw [active_congr hsame] at this
      exact this.not_noEnd hno
    | stuck =>
      rw [hscan] at hspec
      exact hspec
  · rw [if_neg hhas, if_neg hhas]
    exact ⟨s, rfl, rfl, fun h => absurd h hhas⟩

/-- The reference lists are read as they are scanned. When a bound is met, `MPP_OK` is
    returned all the same. -/
theorem refPicListMvcModification_spec (s : Reading) :
    match s.slice.scanLists s.reader with
    | .ended _ => ∃ s', refPicListMvcModification s = (mppOk, s') ∧ s'.slice.ListsEnd
    | .overrun => ∃ s', refPicListMvcModification s = (mppOk, s') ∧ ¬s'.slice.ListsEnd
    | .stuck => ∃ s', refPicListMvcModification s = (mppErrReadBit, s') := by
  have hspec₀ := readHad_spec .list0 s rfl
  have hbody : refPicListMvcModification s = finish (do
      onlyIf (s.slice.has .list0) (readModifications .list0)
      onlyIf (s.slice.has .list1) (readModifications .list1)) s := rfl
  rw [SliceHead.scanLists, hbody, finish]
  cases hscan₀ : s.slice.scanModifications .list0 s.reader with
  | stuck =>
    rw [hscan₀] at hspec₀
    obtain ⟨e, s', heq, rfl, hret⟩ := hspec₀
    rw [bind_of_error heq]
    exact ⟨s', Prod.ext hret rfl⟩
  | overrun =>
    rw [hscan₀] at hspec₀
    obtain ⟨s', heq, hret, hno⟩ := hspec₀
    rw [bind_of_error heq]
    exact ⟨s', Prod.ext hret rfl, fun h => hno (h .list0)⟩
  | ended r =>
    rw [hscan₀] at hspec₀
    obtain ⟨s₁, heq, rfl, hends₀⟩ := hspec₀
    rw [bind_of_ok heq]
    have hshape : s₁.slice.shape = s.slice.shape := by
      have hkeeps : Keeps (fun s : Reading => s.slice.shape)
          (onlyIf (s.slice.has .list0) (readModifications .list0)) :=
        .ite (readModifications_keeps (g := SliceHead.shape) (fun _ _ => rfl) fun _ _ => rfl)
          (.pure ())
      exact hkeeps.ok heq
    have hkeeps : ∀ {τ : Type} {g : SliceHead → τ},
        (∀ flag s, g (setReorderingFlag .list1 flag s) = g s) →
        (∀ s m, g { s with modifications := update s.modifications .list1 m } = g s) →
        Keeps (fun s : Reading => g s.slice)
          (onlyIf (s.slice.has .list1) (readModifications .list1)) := fun hflag hmod =>
      .ite (readModifications_keeps hflag hmod) (.pure ())
    have hshape₁ := hkeeps (g := SliceHead.shape) (fun _ _ => rfl) fun _ _ => rfl
    have hlist₁ := hkeeps (g := SliceHead.listOf .list0) (fun _ _ => rfl) fun _ _ => rfl
    have hspec₁ := readHad_spec .list1 s₁ (has_congr hshape .list1).symm
    rw [scanModifications_congr hshape] at hspec₁
    dsimp only
    cases hscan₁ : s.slice.scanModifications .list1 s₁.reader with
    | stuck =>
      rw [hscan₁] at hspec₁
      obtain ⟨e, s', heq₁, rfl, hret⟩ := hspec₁
      rw [heq₁]
      exact ⟨s', Prod.ext hret rfl⟩
    | overrun =>
      rw [hscan₁] at hspec₁
      obtain ⟨s', heq₁, hret, hno⟩ := hspec₁
      rw [heq₁]
      exact ⟨s', Prod.ext hret rfl, fun h => hno (h .list1)⟩
    | ended r₁ =>
      rw [hscan₁] at hspec₁
      obtain ⟨s', heq₁, -, hends₁⟩ := hspec₁
      rw [heq₁]
      refine ⟨s', rfl, fun l => ?_⟩
      cases l with
      | list0 => exact (listEnds_congr (hshape₁.ok heq₁) (hlist₁.ok heq₁)).2 hends₀
      | list1 => exact hends₁

end Modifications

/-! ## The operations -/

section Marking

/-- Changing an operation keeps the numbers of the others, and its own if it keeps that. -/
theorem setDrpm_follows (i : ℕ) {f : Drpm → Drpm}
    (hf : ∀ d, (f d).memoryManagementControlOperation = d.memoryManagementControlOperation) :
    Follows Reading.reader (SameItems Reading.ops) Stuck (setDrpm i f) fun r => some ((), r) := by
  refine .modify fun s => ⟨rfl, funext fun j => ?_, id⟩
  by_cases hj : j = i
  · subst hj
    simp [Reading.ops, Function.comp_def, hf]
  · simp [Reading.ops, hj]

theorem markingNumbers_op {val v : UInt32} {store : UInt32 → Drpm → Drpm}
    (h : store ∈ markingNumbers val) (d : Drpm) :
    (store v d).memoryManagementControlOperation = d.memoryManagementControlOperation := by
  simp only [markingNumbers, mem_append, mem_ite_nil_right, mem_singleton] at h
  obtain ((⟨-, rfl⟩ | ⟨-, rfl⟩) | ⟨-, rfl⟩) | ⟨-, rfl⟩ := h <;> rfl

theorem readCommand_follows (i : ℕ) (val : UInt32) :
    Follows Reading.reader (SameItems Reading.ops) Stuck (readCommand i val)
      (skipUes (markingNumbers val).length) := by
  have hnumbers : Follows Reading.reader (SameItems Reading.ops) Stuck
      (readNumbers (setDrpm i) (markingNumbers val)) (skipUes (markingNumbers val).length) :=
    readNumbers_follows _ (fun _ _ => rfl) fun store hstore v =>
      setDrpm_follows i (markingNumbers_op hstore)
  have hadd : Follows Reading.reader (SameItems Reading.ops) Stuck (onlyIf (val ≠ 0) (addCommand i))
      fun r => some ((), r) := by
    rw [onlyIf]
    split_ifs
    · exact .modify fun s => ⟨rfl, rfl, id⟩
    · exact .pure SameItems.refl ()
  have hskip : (fun r => skipUes (markingNumbers val).length r >>= fun v => some ((), v.2)) =
      skipUes (markingNumbers val).length := by
    ext1 r
    cases skipUes (markingNumbers val).length r with
    | none => rfl
    | some v => rfl
  rw [← hskip]
  exact hnumbers.bind (SameItems.trans Reading.ops) fun _ => hadd

theorem reads_marking :
    Reads readMarking Reading.reader skipMarking Reading.ops (·.bitRet = mppOk) Stuck := by
  refine reads_item Reading.alloc (fun _ _ => rfl) (fun _ _ => rfl) (fun _ _ _ => ⟨rfl, rfl⟩)
    (fun i v s r => funext fun j => ?_) readCommand_follows
  by_cases hj : j = i
  · subst hj
    simp [Reading.ops, Reading.alloc]
  · simp [Reading.ops, Reading.alloc, hj]

theorem readMarking_keeps {τ : Type} {g : SliceHead → τ}
    (hadd : ∀ s ops, g { s with decRefPicMarkingBuffer := ops } = g s) (i : ℕ) :
    Keeps (fun s : Reading => g s.slice) (readMarking i) := by
  have hdrpm : ∀ f, Keeps (fun s : Reading => g s.slice) (setDrpm i f) :=
    fun f => .modify fun _ => rfl
  have hcommand : ∀ val, Keeps (fun s : Reading => g s.slice) (readCommand i val) := fun val =>
    (readNumbers_keeps hdrpm _).bind fun _ => .ite (.modify fun s => hadd s.slice _) (.pure ())
  have hrest : ∀ val : UInt32, Keeps (fun s : Reading => g s.slice)
      (setDrpm i ({ · with memoryManagementControlOperation := val.toNat }) >>= fun _ =>
        readCommand i val >>= fun _ => pure val.toNat) := fun val =>
    (hdrpm _).bind fun _ => (hcommand val).bind fun _ => .pure _
  have halloc : Keeps (fun s : Reading => g s.slice) (modify (Reading.alloc i) : Parse Unit) :=
    .modify fun _ => rfl
  exact halloc.bind fun _ => (readField_keeps g mppReadUe).bind hrest

/-- The two flags are read, or the reader fails. -/
theorem readIdrFlags_total (s : Reading) :
    (∃ s', readIdrFlags s = .ok () s' ∧ s'.slice.marksIdr = s.slice.marksIdr) ∨
      ∃ e s', readIdrFlags s = .error e s' ∧ Stuck e s' := by
  let R (s s' : Reading) : Prop := s'.slice.marksIdr = s.slice.marksIdr
  have htrans : ∀ a b c, R a b → R b c → R a c := fun _ _ _ h h' => h'.trans h
  have hbit : Follows Reading.reader R Stuck readOnebit mppReadOnebit :=
    readField_follows _ fun _ _ => rfl
  have hfirst : ∀ noOutputOfPriorPicsFlag, Follows Reading.reader R Stuck
      (setSlice ({ · with noOutputOfPriorPicsFlag })) fun r => some ((), r) :=
    fun _ => .modify fun _ => ⟨rfl, rfl⟩
  have hsecond : ∀ longTermReferenceFlag, Follows Reading.reader R Stuck
      (setSlice ({ · with longTermReferenceFlag })) fun r => some ((), r) :=
    fun _ => .modify fun _ => ⟨rfl, rfl⟩
  have hflags : Follows Reading.reader R Stuck readIdrFlags _ :=
    hbit.bind htrans fun _ => (hfirst _).bind htrans fun _ => hbit.bind htrans hsecond
  rcases hflags.total s with ⟨_, s', heq, hs'⟩ | hstuck
  · exact .inl ⟨s', heq, hs'⟩
  · exact .inr hstuck

theorem readMarkings_spec (s : Reading) :
    match s.slice.scanMarking s.reader with
    | .ended _ => (∃ s', readMarkings s = .ok () s' ∧ s'.MarkingEnds) ∨
        ∃ e s', readMarkings s = .error e s' ∧ Stuck e s'
    | .overrun => ∃ s', readMarkings s = .error .bitreadErr s' ∧ s'.bitRet = mppOk ∧
        ¬s'.MarkingEnds
    | .stuck => ∃ e s', readMarkings s = .error e s' ∧ Stuck e s' := by
  have hread : readMarkings s = (if s.slice.marksIdr then readIdrFlags
    else readList setAdaptiveFlag readMarking (· = 0) maxMarkingTimes : Parse Unit) s := rfl
  by_cases hidr : s.slice.marksIdr = true
  · rw [SliceHead.scanMarking, hread, if_pos hidr, if_pos hidr]
    rcases readIdrFlags_total s with ⟨s', heq, hs'⟩ | hstuck
    · refine .inl ⟨s', heq, fun hnot => ?_⟩
      rw [hs', hidr] at hnot
      exact absurd hnot.symm Bool.false_ne_true
    · exact .inr hstuck
  · have hflag : ∀ flag s, (setAdaptiveFlag flag s).adaptiveRefPicBufferingFlag = flag :=
      fun _ _ => rfl
    have hsame : ∀ flag s, (setAdaptiveFlag flag s).marksIdr = s.marksIdr := fun _ _ => rfl
    have hspec := readList_spec (·.adaptiveRefPicBufferingFlag) reads_marking hflag
      (readMarking_keeps (g := (·.adaptiveRefPicBufferingFlag)) fun _ _ => rfl) (· = 0)
      maxMarkingTimes s
    have hkeeps : Keeps (fun s : Reading => s.slice.marksIdr)
        (readList setAdaptiveFlag readMarking (· = 0) maxMarkingTimes) :=
      readList_keeps hsame
        (readMarking_keeps (g := SliceHead.marksIdr) fun _ _ => rfl) _ _
    rw [SliceHead.scanMarking, hread, if_neg hidr, if_neg hidr]
    cases hscan : scanList skipMarking (· = 0) maxMarkingTimes s.reader with
    | ended r =>
      rw [hscan] at hspec
      obtain ⟨s', heq, -, -, hends⟩ := hspec
      exact .inl ⟨s', heq, fun _ => hends⟩
    | overrun =>
      rw [hscan] at hspec
      obtain ⟨s', heq, hret, hon, hno⟩ := hspec
      have hidr' : s'.slice.marksIdr = false :=
        (hkeeps.error heq).trans (Bool.not_eq_true _ ▸ hidr)
      exact ⟨s', heq, hret, fun hends => (hends hidr' hon).not_noEnd hno⟩
    | stuck =>
      rw [hscan] at hspec
      exact hspec

/-- The operations are read as they are scanned. When the bound is met, `MPP_OK` is
    returned all the same. -/
theorem decRefPicMarking_spec (s : Reading) :
    match s.slice.scanMarking s.reader with
    | .ended _ => (∃ s', decRefPicMarking s = (mppOk, s') ∧ s'.MarkingEnds) ∨
        ∃ s', decRefPicMarking s = (mppErrReadBit, s')
    | .overrun => ∃ s', decRefPicMarking s = (mppOk, s') ∧ ¬s'.MarkingEnds
    | .stuck => ∃ s', decRefPicMarking s = (mppErrReadBit, s') := by
  set s₀ : Reading := { s with slice := { s.slice with drpmUsedBitlen := 0 } } with hs₀
  have hbody : decRefPicMarking s = finish (readMarkings >>= fun _ => get >>= fun after =>
      setSlice ({ · with drpmUsedBitlen := usedBitlen s.reader after.reader })) s₀ := rfl
  have hstuck : (∃ e s', readMarkings s₀ = .error e s' ∧ Stuck e s') →
      ∃ s', decRefPicMarking s = (mppErrReadBit, s') := by
    rintro ⟨e, s', heq, rfl, hret⟩
    rw [hbody, finish, bind_of_error heq]
    exact ⟨s', Prod.ext hret rfl⟩
  have hspec := readMarkings_spec s₀
  change match s₀.slice.scanMarking s₀.reader with | .ended _ => _ | .overrun => _ | .stuck => _
  cases hscan : s₀.slice.scanMarking s₀.reader with
  | ended r =>
    rw [hscan] at hspec
    rcases hspec with ⟨s', heq, hends⟩ | h
    · rw [hbody, finish, bind_of_ok heq]
      exact .inl ⟨_, rfl, hends⟩
    · exact .inr (hstuck h)
  | overrun =>
    rw [hscan] at hspec
    obtain ⟨s', heq, hret, hno⟩ := hspec
    rw [hbody, finish, bind_of_error heq]
    exact ⟨s', Prod.ext hret rfl, hno⟩
  | stuck =>
    rw [hscan] at hspec
    exact hstuck hspec

end Marking

/-! ## The header -/

section Header

/-- What is returned where the header cannot be read is negative. -/
def Fails (e : Jump) (s : Reading) : Prop :=
  match e with
  | .bitreadErr => s.bitRet < 0
  | .failed ret => ret < 0

theorem readField_fails {α : Type} (rd : BitReadCtx → Option (α × BitReadCtx)) :
    JumpsBy Fails (readField rd) := by
  intro s e s' h
  rw [readField] at h
  cases hrd : rd s.reader with
  | none =>
    rw [hrd] at h
    cases h
    exact (by decide : mppErrReadBit < 0)
  | some v =>
    rw [hrd] at h
    cases h

theorem checkedCall_fails (f : Reading → MppRet × Reading) : JumpsBy Fails (checkedCall f) := by
  intro s e s' h
  rw [checkedCall] at h
  split_ifs at h with hneg
  cases h
  exact hneg

theorem setSlice_fails (f : SliceHead → SliceHead) : JumpsBy Fails (setSlice f) := .modify _

theorem onlyIf_fails {p : Parse Unit} (b : Bool) (h : JumpsBy Fails p) :
    JumpsBy Fails (onlyIf b p) := .ite h (.pure ())

theorem readInto_fails {α : Type} {rd : BitReadCtx → Option (α × BitReadCtx)}
    (store : α → SliceHead → SliceHead) : JumpsBy Fails (readInto (readField rd) store) :=
  (readField_fails rd).bind fun a => setSlice_fails (store a)

theorem readFirst_fails (env : SliceEnv) : JumpsBy Fails (readFirst env) := by
  have hsp : JumpsBy Fails (throw (.failed mppErrUnknow) : Parse Unit) :=
    .throw fun _ => (by decide : mppErrUnknow < 0)
  refine (readInto_fails _).bind fun _ => (readInto_fails _).bind fun _ => JumpsBy.get.bind fun _ =>
    (onlyIf_fails _ hsp).bind fun _ => (readField_fails _).bind fun id =>
    (setSlice_fails _).bind fun _ => ?_
  cases env.activate id with
  | ok sets => exact .pure sets
  | error ret => exact .throw fun _ => ret.2

theorem readStructure_fails (sets : ActiveSets) : JumpsBy Fails (readStructure sets) := by
  have hfield : JumpsBy Fails readFieldPic := (readField_fails _).bind fun _ =>
    (setSlice_fails _).bind fun _ => .ite (readInto_fails _) (setSlice_fails _)
  exact (readInto_fails _).bind fun _ => (onlyIf_fails _ (setSlice_fails _)).bind fun _ =>
    (onlyIf_fails _ hfield).bind fun _ => setSlice_fails _

theorem readDelta_fails (inStream : Bool) (store : ℤ → SliceHead → SliceHead) :
    JumpsBy Fails (readDelta inStream store) := .ite (readInto_fails _) (setSlice_fails _)

theorem readOrderCounts_fails (sets : ActiveSets) : JumpsBy Fails (readOrderCounts sets) :=
  JumpsBy.get.bind fun _ =>
    (onlyIf_fails _ ((readInto_fails _).bind fun _ => readDelta_fails _ _)).bind fun _ =>
    (onlyIf_fails _ ((readDelta_fails _ _).bind fun _ => readDelta_fails _ _)).bind fun _ =>
    JumpsBy.get.bind fun _ => setSlice_fails _

theorem readActive_fails (sets : ActiveSets) : JumpsBy Fails (readActive sets) := by
  have hoverride : ∀ type, JumpsBy Fails (readOverride type) := fun type =>
    (readField_fails _).bind fun _ => (setSlice_fails _).bind fun _ =>
    onlyIf_fails _ ((readInto_fails _).bind fun _ => onlyIf_fails _ (readInto_fails _))
  exact JumpsBy.get.bind fun _ => (setSlice_fails _).bind fun _ => (setSlice_fails _).bind fun _ =>
    (onlyIf_fails _ (hoverride _)).bind fun _ => onlyIf_fails _ (setSlice_fails _)

theorem readToLists_fails (env : SliceEnv) : JumpsBy Fails (readToLists env) := by
  have hdirect : ∀ type, JumpsBy Fails (readDirect type) :=
    fun _ => .ite (readInto_fails _) (setSlice_fails _)
  exact (readFirst_fails env).bind fun sets => (readStructure_fails sets).bind fun _ =>
    JumpsBy.get.bind fun _ => (onlyIf_fails _ (readInto_fails _)).bind fun _ =>
    (readOrderCounts_fails sets).bind fun _ => (onlyIf_fails _ (readInto_fails _)).bind fun _ =>
    (hdirect _).bind fun _ => (readActive_fails sets).bind fun _ => .pure sets

theorem readToMarking_fails (env : SliceEnv) : JumpsBy Fails (readToMarking env) :=
  (readToLists_fails env).bind fun _ => (checkedCall_fails _).bind fun _ => JumpsBy.get.bind fun _ =>
    (onlyIf_fails _ (checkedCall_fails _)).bind fun _ => setSlice_fails _

theorem readBit_ne_ok : mppErrReadBit ≠ mppOk := by decide

theorem readBit_neg : ¬0 ≤ mppErrReadBit := by decide

theorem listsRejected_iff (s : Reading) :
    ListsRejected s ↔ s.slice.scanLists s.reader ≠ .overrun := by
  have hspec := refPicListMvcModification_spec s
  rw [ListsRejected]
  cases hscan : s.slice.scanLists s.reader with
  | ended r =>
    rw [hscan] at hspec
    obtain ⟨s', heq, hends⟩ := hspec
    rw [heq]
    exact ⟨fun _ => nofun, fun _ _ => hends⟩
  | overrun =>
    rw [hscan] at hspec
    obtain ⟨s', heq, hno⟩ := hspec
    rw [heq]
    exact ⟨fun h => absurd (h rfl) hno, fun h => absurd rfl h⟩
  | stuck =>
    rw [hscan] at hspec
    obtain ⟨s', heq⟩ := hspec
    rw [heq]
    exact ⟨fun _ => nofun, fun _ h => absurd h readBit_ne_ok⟩

theorem markingRejected_iff (s : Reading) :
    MarkingRejected s ↔ s.slice.scanMarking s.reader ≠ .overrun := by
  have hspec := decRefPicMarking_spec s
  rw [MarkingRejected]
  cases hscan : s.slice.scanMarking s.reader with
  | ended r =>
    rw [hscan] at hspec
    rcases hspec with ⟨s', heq, hends⟩ | ⟨s', heq⟩
    · rw [heq]
      exact ⟨fun _ => nofun, fun _ _ => hends⟩
    · rw [heq]
      exact ⟨fun _ => nofun, fun _ h => absurd h readBit_ne_ok⟩
  | overrun =>
    rw [hscan] at hspec
    obtain ⟨s', heq, hno⟩ := hspec
    rw [heq]
    exact ⟨fun h => absurd (h rfl) hno, fun h => absurd rfl h⟩
  | stuck =>
    rw [hscan] at hspec
    obtain ⟨s', heq⟩ := hspec
    rw [heq]
    exact ⟨fun _ => nofun, fun _ h => absurd h readBit_ne_ok⟩

variable {s s' : Reading}

theorem checkedCall_ok {f : Reading → MppRet × Reading} (h : checkedCall f s = .ok () s') :
    0 ≤ (f s).1 ∧ (f s).2 = s' := by
  rw [checkedCall] at h
  split_ifs at h with hneg
  cases h
  exact ⟨not_lt.1 hneg, rfl⟩

/-- The reference lists that are gone on with have their ends, when none goes on to its
    bound. -/
theorem checkedCall_lists (h : checkedCall refPicListMvcModification s = .ok () s')
    (hscan : s.slice.scanLists s.reader ≠ .overrun) : s'.slice.ListsEnd := by
  obtain ⟨hret, rfl⟩ := checkedCall_ok h
  have hspec := refPicListMvcModification_spec s
  cases hcase : s.slice.scanLists s.reader with
  | ended r =>
    rw [hcase] at hspec
    obtain ⟨s', heq, hends⟩ := hspec
    rw [heq]
    exact hends
  | overrun => exact absurd hcase hscan
  | stuck =>
    rw [hcase] at hspec
    obtain ⟨s', heq⟩ := hspec
    rw [heq] at hret
    exact absurd hret readBit_neg

theorem checkedCall_marking (h : checkedCall decRefPicMarking s = .ok () s')
    (hscan : s.slice.scanMarking s.reader ≠ .overrun) : s'.MarkingEnds := by
  obtain ⟨hret, rfl⟩ := checkedCall_ok h
  have hspec := decRefPicMarking_spec s
  cases hcase : s.slice.scanMarking s.reader with
  | ended r =>
    rw [hcase] at hspec
    rcases hspec with ⟨s', heq, hends⟩ | ⟨s', heq⟩
    · rw [heq]
      exact hends
    · rw [heq] at hret
      exact absurd hret readBit_neg
  | overrun => exact absurd hcase hscan
  | stuck =>
    rw [hcase] at hspec
    obtain ⟨s', heq⟩ := hspec
    rw [heq] at hret
    exact absurd hret readBit_neg

/-- Lists that are not changed keep their ends. -/
theorem listsEnd_of_keeps {α : Type} {p : Parse α}
    (hshape : Keeps (fun s : Reading => s.slice.shape) p)
    (hlist : ∀ l, Keeps (fun s : Reading => s.slice.listOf l) p) {a : α} (h : p s = .ok a s')
    (hends : s.slice.ListsEnd) : s'.slice.ListsEnd := fun l =>
  (listEnds_congr (hshape.ok h) ((hlist l).ok h)).2 (hends l)

/-- The header up to the operations has the ends of its reference lists, when none goes on
    to its bound. -/
theorem readToMarking_lists {env : SliceEnv} (h : readToMarking env s = .ok () s')
    (hscan : ∀ sets s', readToLists env s = .ok sets s' → s'.slice.scanLists s'.reader ≠ .overrun) :
    s'.slice.ListsEnd := by
  obtain ⟨sets, s₁, hlists, h⟩ := ok_of_bind h
  obtain ⟨_, s₂, hcheck, h⟩ := ok_of_bind h
  have hends := checkedCall_lists hcheck (hscan sets s₁ hlists)
  have hrest : ∀ {τ : Type} {g : SliceHead → τ}, (∀ s n, g { s with drpmUsedBitlen := n } = g s) →
      Keeps (fun s : Reading => g s.slice) (do
        let s ← get
        onlyIf (sets.weighted s.slice.sliceType) (checkedCall (predWeightTable sets))
        setSlice ({ · with drpmUsedBitlen := 0 })) := fun {τ g} hg =>
    Keeps.get.bind fun _ => (Keeps.ite (predWeightTable_keeps g sets) (.pure ())).bind fun _ =>
      setSlice_keeps fun s => hg s 0
  exact listsEnd_of_keeps (hrest (g := SliceHead.shape) fun _ _ => rfl)
    (fun l => hrest (g := SliceHead.listOf l) fun _ _ => rfl) h hends

theorem decRefPicMarking_keeps {τ : Type} {g : SliceHead → τ}
    (hlen : ∀ s n, g { s with drpmUsedBitlen := n } = g s)
    (hprior : ∀ s b, g { s with noOutputOfPriorPicsFlag := b } = g s)
    (hlong : ∀ s b, g { s with longTermReferenceFlag := b } = g s)
    (hflag : ∀ b s, g (setAdaptiveFlag b s) = g s)
    (hadd : ∀ s ops, g { s with decRefPicMarkingBuffer := ops } = g s) :
    Keeps (fun s : Reading => g s.slice) (checkedCall decRefPicMarking) := by
  have hidr : Keeps (fun s : Reading => g s.slice) readIdrFlags :=
    (readField_keeps g mppReadOnebit).bind fun _ =>
      (setSlice_keeps fun s => hprior s _).bind fun _ =>
      (readField_keeps g mppReadOnebit).bind fun _ => setSlice_keeps fun s => hlong s _
  have hmarkings : Keeps (fun s : Reading => g s.slice) readMarkings :=
    Keeps.get.bind fun _ => .ite hidr (readList_keeps hflag (readMarking_keeps hadd) _ _)
  exact checkedCall_keeps (Keeps.get.bind fun _ => (setSlice_keeps fun s => hlen s _).bind fun _ =>
    hmarkings.bind fun _ => Keeps.get.bind fun _ => setSlice_keeps fun s => hlen s _)

/-- A slice that is used has been read to its end. -/
theorem processSlice_ok {env : SliceEnv} (h : ¬(processSlice env s).1 < 0) :
    ∃ s₁, readToMarking env s = .ok () s₁ ∧
      onlyIf (s₁.slice.nalReferenceIdc ≠ 0) (checkedCall decRefPicMarking) s₁ =
        .ok () (processSlice env s).2 := by
  set p : Parse Unit := do
    readToMarking env
    let s ← get
    onlyIf (s.slice.nalReferenceIdc ≠ 0) (checkedCall decRefPicMarking) with hp
  have hprocess : processSlice env s = finish p s := rfl
  have hfails : JumpsBy Fails p := (readToMarking_fails env).bind fun _ => JumpsBy.get.bind fun _ =>
    onlyIf_fails _ (checkedCall_fails _)
  rw [hprocess, finish] at h ⊢
  cases hps : p s with
  | ok a s' =>
    obtain ⟨_, s₁, hfirst, hrest⟩ := ok_of_bind hps
    exact ⟨s₁, hfirst, hrest⟩
  | error e s' =>
    have hneg := hfails _ _ _ hps
    rw [hps] at h
    cases e with
    | bitreadErr => exact absurd hneg h
    | failed ret => exact absurd hneg h

/-- No list without its end is let through, and no slice with one is used, exactly when
    none of the lists in the bits goes on to its bound. -/
theorem unterminated_rejected_iff (env : SliceEnv) (s : Reading) :
    (ListsRejected s ↔ s.slice.scanLists s.reader ≠ .overrun) ∧
      (MarkingRejected s ↔ s.slice.scanMarking s.reader ≠ .overrun) ∧
      (SliceRejected env s ↔ HeaderEnds env s) := by
  refine ⟨listsRejected_iff s, markingRejected_iff s, fun h => ⟨?_, ?_⟩, fun h => ⟨?_, ?_, ?_⟩⟩
  · exact fun sets s' hs' => (listsRejected_iff s').1 (h.lists sets s' hs')
  · exact fun s' hs' href => (markingRejected_iff s').1 (h.marking s' hs' href)
  · exact fun sets s' hs' => (listsRejected_iff s').2 (h.lists sets s' hs')
  · exact fun s' hs' href => (markingRejected_iff s').2 (h.marking s' hs' href)
  · intro hused
    rw [parserOneNalu] at hused ⊢
    split_ifs at hused with hneg
    rw [if_neg hneg]
    obtain ⟨s₁, hfirst, hrest⟩ := processSlice_ok hneg
    have hends := readToMarking_lists hfirst h.lists
    dsimp only
    rw [onlyIf] at hrest
    split_ifs at hrest with href
    · have hcheck := decRefPicMarking_keeps (g := SliceHead.shape) (fun _ _ => rfl) (fun _ _ => rfl)
        (fun _ _ => rfl) (fun _ _ => rfl) fun _ _ => rfl
      have hlist := fun l => decRefPicMarking_keeps (g := SliceHead.listOf l) (fun _ _ => rfl)
        (fun _ _ => rfl) (fun _ _ => rfl) (fun _ _ => rfl) fun _ _ => rfl
      exact ⟨listsEnd_of_keeps hcheck hlist hrest hends,
        fun _ => checkedCall_marking hrest (h.marking s₁ hfirst (of_decide_eq_true href))⟩
    · have heq : s₁ = (processSlice env s).2 := (EStateM.Result.ok.inj hrest).2
      rw [← heq]
      exact ⟨hends, fun h => absurd (decide_eq_true h) href⟩

/-- A slice of a reference picture, with the parameter sets of a stream of frames. -/
def frameEnv : SliceEnv where
  nalIdr := false
  nalReferenceIdc := 1
  activate _ := .ok {}

/-- A `P` slice with one active reference, and two modifications without an end. -/
def endlessSlice : Reading where
  slice := {}
  reader := mppSetBitreadPseudoCodeType (mppSetBitreadCtx [0xe0, 0x0f, 0x80]) .h264H265

theorem endless_list_used :
    (processSlice frameEnv endlessSlice).1 = mppOk ∧
      (parserOneNalu frameEnv endlessSlice).1 = .startOfPicture ∧
      ¬(parserOneNalu frameEnv endlessSlice).2.2.slice.ListsEnd := by
  refine ⟨by decide +kernel, by decide +kernel, fun hends => ?_⟩
  have hhas : (parserOneNalu frameEnv endlessSlice).2.2.slice.has .list0 = true := by
    decide +kernel
  have hon : (parserOneNalu frameEnv endlessSlice).2.2.slice.refPicListReorderingFlag .list0 =
      true := by decide +kernel
  have hbound : modificationBound
      ((parserOneNalu frameEnv endlessSlice).2.2.slice.numRefIdxActive .list0) = 2 := by
    decide +kernel
  have hidcs : ∀ k < 2, ((parserOneNalu frameEnv endlessSlice).2.2.slice.modifications
      .list0 k).modificationOfPicNumsIdc = 0 := by decide +kernel
  obtain ⟨k, hk, ⟨a, ha, hlast⟩, -⟩ := hends .list0 hhas hon
  rw [hbound] at hk
  have hzero : a = 0 := (some_inj.1 ha).symm.trans (hidcs k hk)
  rw [hzero] at hlast
  exact absurd hlast (by decide)

end Header

end Libmpp.H264d
