import Libmpp.Bitstream.ExpGolomb
import Libmpp.H265d.FrameRps
import Libmpp.Lib.SwapSort

/-!
# Reading reference picture sets

`decodeShortTermRps` reads a short-term set, of an SPS or of a slice header. A set is coded by its
differences, or it is predicted: the entries of an earlier set, and the difference itself, are
moved by `delta_rps`, those that are selected are kept, sorted, and the negative ones turned round.
`decodeLtRps` (in the module on deriving the set) reads the long-term entries.

The syntax of the sets (`StRefPicSet`) and what it stands for (`candidates`, `ltCandidates`) are
those of the standard. The decoder differs in two cases (`rps_candidates`):

* an entry that prediction moves to the picture itself is no candidate, and it is kept; a set has
  room for 32 entries, which is not checked;
* the first long-term entry of the slice header starts a new sum of most significant bits, also
  when it has none, and the decoder goes on with the sum of the entries from the SPS.
-/

namespace Libmpp.H265d

open Bitstream List

/-! ## The reader -/

/-- A reader of a header, which fails at the label `__BITREAD_ERR` or with an error. -/
abbrev HeaderRead (α : Type) := StateT BitReadCtx Option α

/-- `READ_UE` -/
def readUe : HeaderRead ℕ := fun ctx => (mppReadUe ctx).map fun r => (r.1.toNat, r.2)

/-- `READ_ONEBIT` -/
def readOnebit : HeaderRead Bool := fun ctx => (mppReadBits ctx 1).map fun r => (r.1 ≠ 0, r.2)

/-- The differences of a set that is coded by them, each with its flag: `sign` is `-1` for the
    pictures before and `1` for those behind. -/
def readDeltas (sign : ℤ) : ℕ → ℤ → HeaderRead (List (ℤ × Bool))
  | 0, _ => pure []
  | n + 1, prev => do
    let deltaPoc ← readUe
    let used ← readOnebit
    let prev := wrap32 (prev + sign * (deltaPoc + 1))
    let rest ← readDeltas sign n prev
    pure ((prev, used) :: rest)

/-- `use_delta_flag` is there when the picture is not used. -/
def readUseDelta (used : Bool) : HeaderRead Bool := if used then pure true else readOnebit

/-- A set can be predicted when there are sets before it. -/
def readPredictFlag (sets : ℕ) : HeaderRead Bool := if sets = 0 then pure false else readOnebit

/-- Which of the earlier sets it is predicted from: in an SPS, from the last one. -/
def readDeltaIdx (isSliceHeader : Bool) : HeaderRead ℕ :=
  if isSliceHeader then readUe else pure 0

/-- The pictures that the arrays of `ShortTermRPS` hold. -/
def maxDeltaPocs : ℕ := 32

/-- The selected ones of the pictures of the earlier set, moved by `deltaRps`, behind `k` that are
    stored. Behind the arrays everything is open. -/
def readPredicted (deltaRps : ℤ) : ℕ → List ℤ → HeaderRead (Option (List (ℤ × Bool)))
  | _, [] => pure (some [])
  | k, delta :: deltas => do
    let used ← readOnebit
    let useDelta ← readUseDelta used
    let rest ← readPredicted deltaRps (if useDelta then k + 1 else k) deltas
    pure (if k < maxDeltaPocs then rest.map fun rest =>
        if useDelta then (wrap32 (deltaRps + delta), used) :: rest else rest
      else none)

/-- The differences of a set. -/
def ShortTermRPS.deltas (rps : ShortTermRPS) : List ℤ := rps.deltaPocs.map Prod.fst

/-- The set that is predicted, from the pictures in the order in which they are read. -/
def sortRps (list : List (ℤ × Bool)) : ShortTermRPS :=
  let k0 := list.countP fun e => e.1 < 0
  -- sort in increasing order (smallest first)
  let a := sortPrefix Prod.fst list.length fun i => list.getD i (0, false)
  -- flip the negative values to largest first
  let a := flipLoop k0 (k0 / 2) a
  { numNegativePics := k0, deltaPocs := firsts list.length a }

/-- `deltaRps` -/
def deltaRps (deltaRpsSign : Bool) (absDeltaRpsMinus1 : ℕ) : ℤ :=
  (if deltaRpsSign then -1 else 1) * (absDeltaRpsMinus1 + 1)

variable (sets : List ShortTermRPS) (flags : List (Bool × Bool))

/-- The earlier set of a prediction (`RefRpsIdx`). -/
def refRps (deltaIdxMinus1 : ℕ) : ShortTermRPS :=
  sets.getD (sets.length - (deltaIdxMinus1 + 1)) ⟨0, []⟩

/-- A set that is predicted. -/
def decodePredicted (isSliceHeader : Bool) : HeaderRead (Option ShortTermRPS) := do
  let deltaIdx ← readDeltaIdx isSliceHeader
  if sets.length < deltaIdx + 1 then failure
  else do
    let deltaRpsSign ← readOnebit
    let absDeltaRps ← readUe
    let list ← readPredicted (wrap32 (deltaRps deltaRpsSign absDeltaRps)) 0
      ((refRps sets deltaIdx).deltas ++ [0])
    pure (list.map sortRps)

/-- A set that is coded by its differences. -/
def decodeExplicit : HeaderRead (Option ShortTermRPS) := do
  let numNegativePics ← readUe
  let nbPositivePics ← readUe
  if maxRefs ≤ numNegativePics ∨ maxRefs ≤ nbPositivePics then failure
  else do
    let negative ← readDeltas (-1) numNegativePics 0
    let positive ← readDeltas 1 nbPositivePics 0
    pure (some { numNegativePics, deltaPocs := negative ++ positive })

/-- `mpp_hevc_decode_short_term_rps`: `sets` are the sets of the SPS that are there, all of them in
    a slice header. -/
def decodeShortTermRps (isSliceHeader : Bool) : HeaderRead (Option ShortTermRPS) := do
  let rpsPredict ← readPredictFlag sets.length
  if rpsPredict then decodePredicted sets isSliceHeader else decodeExplicit

/-- The sets of an SPS, in `mpp_hevc_decode_nal_sps`: `n` more sets behind those in `sets`. -/
def decodeStRpsSets : ℕ → List ShortTermRPS → HeaderRead (Option (List ShortTermRPS))
  | 0, sets => pure (some sets)
  | n + 1, sets => do
    match ← decodeShortTermRps sets false with
    | some rps => decodeStRpsSets n (sets ++ [rps])
    | none => pure none

/-! ## The syntax -/

/-- `st_ref_pic_set`: the differences less one with their flags, or the elements of the prediction
    with `used_by_curr_pic_flag` and `use_delta_flag`, which is 1 when it is absent. -/
inductive StRefPicSet
  | explicit (negative positive : List (ℕ × Bool))
  | predicted (deltaIdxMinus1 : ℕ) (deltaRpsSign : Bool) (absDeltaRpsMinus1 : ℕ)
      (flags : List (Bool × Bool))
  deriving DecidableEq

/-- `delta_poc_s0_minus1` or `delta_poc_s1_minus1` with the flag, of each picture. -/
def parseDeltas : ℕ → HeaderRead (List (ℕ × Bool))
  | 0 => pure []
  | n + 1 => do
    let deltaPocMinus1 ← readUe
    let used ← readOnebit
    let rest ← parseDeltas n
    pure ((deltaPocMinus1, used) :: rest)

/-- The flags of the prediction. -/
def parseFlags : ℕ → HeaderRead (List (Bool × Bool))
  | 0 => pure []
  | n + 1 => do
    let usedByCurrPicFlag ← readOnebit
    let useDeltaFlag ← readUseDelta usedByCurrPicFlag
    let rest ← parseFlags n
    pure ((usedByCurrPicFlag, useDeltaFlag) :: rest)

/-- The syntax of a prediction, behind sets of which `numDeltaPocs` gives the numbers of
    pictures. -/
def parsePredicted (numDeltaPocs : List ℕ) (isSliceHeader : Bool) : HeaderRead StRefPicSet := do
  let deltaIdxMinus1 ← readDeltaIdx isSliceHeader
  if numDeltaPocs.length < deltaIdxMinus1 + 1 then failure
  else do
    let deltaRpsSign ← readOnebit
    let absDeltaRpsMinus1 ← readUe
    let flags ← parseFlags (numDeltaPocs.getD (numDeltaPocs.length - (deltaIdxMinus1 + 1)) 0 + 1)
    pure (.predicted deltaIdxMinus1 deltaRpsSign absDeltaRpsMinus1 flags)

/-- The syntax of a set that is coded by its differences. -/
def parseExplicit : HeaderRead StRefPicSet := do
  let numNegativePics ← readUe
  let numPositivePics ← readUe
  if maxRefs ≤ numNegativePics ∨ maxRefs ≤ numPositivePics then failure
  else do
    let negative ← parseDeltas numNegativePics
    let positive ← parseDeltas numPositivePics
    pure (.explicit negative positive)

/-- The syntax of a set. -/
def parseStRefPicSet (numDeltaPocs : List ℕ) (isSliceHeader : Bool) : HeaderRead StRefPicSet := do
  let interRefPicSetPredictionFlag ← readPredictFlag numDeltaPocs.length
  if interRefPicSetPredictionFlag then parsePredicted numDeltaPocs isSliceHeader else parseExplicit

/-! ## What it stands for -/

/-- The sums of the differences: `DeltaPocS0` (with the sign `-1`) or `DeltaPocS1`, with the
    flags. -/
def sumDeltas (sign : ℤ) : ℤ → List (ℕ × Bool) → List (ℤ × Bool)
  | _, [] => []
  | prev, (deltaPocMinus1, used) :: l =>
    (prev + sign * (deltaPocMinus1 + 1), used) ::
      sumDeltas sign (prev + sign * (deltaPocMinus1 + 1)) l

/-- A picture of the earlier set, moved: `dPoc`, `used_by_curr_pic_flag` and `use_delta_flag`. -/
structure Moved where
  dPoc : ℤ
  used : Bool
  useDelta : Bool

/-- The pictures of the earlier set in its order, and the difference itself. -/
def moved (deltaRps : ℤ) : List ℤ → List (Bool × Bool) → List Moved :=
  List.zipWith fun delta flags => ⟨deltaRps + delta, flags.1, flags.2⟩

/-- The ones that are selected, with a condition on `dPoc`. -/
def select (p : ℤ → Bool) (l : List Moved) : List (ℤ × Bool) :=
  (l.filter fun e => p e.dPoc && e.useDelta).map fun e => (e.dPoc, e.used)

/-- A prediction (7-61 and 7-62): the pictures before are those from behind in the earlier set, last
    first, the difference itself, and those from before; the pictures behind the other way round. -/
def predict (src : ShortTermRPS) (deltaRps : ℤ) (flags : List (Bool × Bool)) : ShortTermRPS :=
  let all := moved deltaRps (src.deltas ++ [0]) flags
  let before := all.take src.numNegativePics
  let behind := (all.drop src.numNegativePics).take (src.deltas.length - src.numNegativePics)
  let self := all.drop src.deltas.length
  let s0 := select (· < 0) (behind.reverse ++ self ++ before)
  let s1 := select (0 < ·) (before.reverse ++ self ++ behind)
  { numNegativePics := s0.length, deltaPocs := s0 ++ s1 }

/-- The candidate set of clause 7.4.8. -/
def candidates : StRefPicSet → ShortTermRPS
  | .explicit negative positive =>
    { numNegativePics := negative.length
      deltaPocs := sumDeltas (-1) 0 negative ++ sumDeltas 1 0 positive }
  | .predicted deltaIdxMinus1 sign abs flags =>
    predict (refRps sets deltaIdxMinus1) (deltaRps sign abs) flags

/-- The first differences are negative and decrease, the rest are positive and increase. -/
structure ShortTermRPS.WellFormed (rps : ShortTermRPS) : Prop where
  le : rps.numNegativePics ≤ rps.deltas.length
  negative : ∀ d ∈ rps.deltas.take rps.numNegativePics, d < 0
  decreasing : (rps.deltas.take rps.numNegativePics).Pairwise (· > ·)
  positive : ∀ d ∈ rps.deltas.drop rps.numNegativePics, 0 < d
  increasing : (rps.deltas.drop rps.numNegativePics).Pairwise (· < ·)

/-- A value that an `RK_S32` holds. -/
def Fits (d : ℤ) : Prop := -2 ^ 31 ≤ d ∧ d < 2 ^ 31

instance (d : ℤ) : Decidable (Fits d) := inferInstanceAs (Decidable (_ ∧ _))

/-- Every difference of the set is in 32 bits, and of a prediction fewer than 32 pictures are
    selected before the last one, and none that is selected is the picture itself. -/
def StRefPicSet.Regular : StRefPicSet → Prop
  | .explicit negative positive =>
    ∀ e ∈ sumDeltas (-1) 0 negative ++ sumDeltas 1 0 positive, Fits e.1
  | .predicted deltaIdxMinus1 sign abs flags =>
    flags.dropLast.countP Prod.snd < maxDeltaPocs ∧
      ∀ e ∈ moved (deltaRps sign abs) ((refRps sets deltaIdxMinus1).deltas ++ [0]) flags,
        e.useDelta = true → Fits e.dPoc ∧ e.dPoc ≠ 0

/-! ## What the decoder makes of the syntax -/

/-- The differences that `readDeltas` stores. -/
def storedDeltas (sign : ℤ) : ℤ → List (ℕ × Bool) → List (ℤ × Bool)
  | _, [] => []
  | prev, (deltaPocMinus1, used) :: l =>
    (wrap32 (prev + sign * (deltaPocMinus1 + 1)), used) ::
      storedDeltas sign (wrap32 (prev + sign * (deltaPocMinus1 + 1))) l

/-- There is room for each of the pictures, behind `k` that are stored. -/
def hasRoom : ℕ → List (Bool × Bool) → Bool
  | _, [] => true
  | k, e :: flags => decide (k < maxDeltaPocs) && hasRoom (if e.2 then k + 1 else k) flags

/-- The differences that `readPredicted` selects. -/
def selected (deltaRps : ℤ) (deltas : List ℤ) (flags : List (Bool × Bool)) : List (ℤ × Bool) :=
  ((moved deltaRps deltas flags).filter Moved.useDelta).map fun e => (wrap32 e.dPoc, e.used)

/-- What `readPredicted` stores. -/
def storedPredicted (deltaRps : ℤ) (k : ℕ) (deltas : List ℤ) (flags : List (Bool × Bool)) :
    Option (List (ℤ × Bool)) :=
  if hasRoom k flags then some (selected deltaRps deltas flags) else none

/-- The set that the decoder stores. -/
def stored : StRefPicSet → Option ShortTermRPS
  | .explicit negative positive => some
    { numNegativePics := negative.length
      deltaPocs := storedDeltas (-1) 0 negative ++ storedDeltas 1 0 positive }
  | .predicted deltaIdxMinus1 sign abs flags =>
    (storedPredicted (wrap32 (deltaRps sign abs)) 0
      ((refRps sets deltaIdxMinus1).deltas ++ [0]) flags).map sortRps

theorem readDeltas_eq (sign : ℤ) (n : ℕ) (prev : ℤ) :
    readDeltas sign n prev = storedDeltas sign prev <$> parseDeltas n := by
  induction n generalizing prev with
  | zero => rw [readDeltas, parseDeltas, map_pure]; rfl
  | succ n ih =>
    rw [readDeltas, parseDeltas, map_bind]
    refine bind_congr fun deltaPoc => ?_
    rw [map_bind]
    refine bind_congr fun used => ?_
    dsimp only
    rw [map_bind, ih, bind_map_left]
    refine bind_congr fun rest => ?_
    rw [map_pure]
    rfl

theorem storedPredicted_cons (dRps delta : ℤ) (k : ℕ) (deltas : List ℤ) (e : Bool × Bool)
    (flags : List (Bool × Bool)) :
    storedPredicted dRps k (delta :: deltas) (e :: flags) =
      if k < maxDeltaPocs then (storedPredicted dRps (if e.2 then k + 1 else k) deltas flags).map
        fun rest => if e.2 then (wrap32 (dRps + delta), e.1) :: rest else rest
      else none := by
  obtain ⟨used, useDelta⟩ := e
  rw [storedPredicted, storedPredicted, hasRoom]
  by_cases hk : k < maxDeltaPocs
  · rw [decide_eq_true hk, Bool.true_and, if_pos hk]
    generalize hasRoom (if (used, useDelta).2 then k + 1 else k) flags = room
    cases room <;> cases useDelta <;> rfl
  · rw [decide_eq_false hk, Bool.false_and, if_neg Bool.false_ne_true, if_neg hk]

theorem readPredicted_eq (dRps : ℤ) (k : ℕ) (deltas : List ℤ) :
    readPredicted dRps k deltas = storedPredicted dRps k deltas <$> parseFlags deltas.length := by
  induction deltas generalizing k with
  | nil => rw [readPredicted, length_nil, parseFlags, map_pure]; rfl
  | cons delta deltas ih =>
    rw [readPredicted, length_cons, parseFlags, map_bind]
    refine bind_congr fun used => ?_
    rw [map_bind]
    refine bind_congr fun useDelta => ?_
    rw [map_bind, ih, bind_map_left]
    refine bind_congr fun rest => ?_
    rw [map_pure, storedPredicted_cons]

/-- There is room when fewer pictures than that are selected before the last one. -/
theorem hasRoom_iff (k : ℕ) (flags : List (Bool × Bool)) :
    hasRoom k flags = true ↔ flags = [] ∨ k + flags.dropLast.countP Prod.snd < maxDeltaPocs := by
  induction flags generalizing k with
  | nil => exact iff_of_true rfl (.inl rfl)
  | cons e flags ih =>
    rw [hasRoom, Bool.and_eq_true, decide_eq_true_eq, ih, or_iff_right (cons_ne_nil e flags)]
    cases flags with
    | nil => exact and_iff_left (.inl rfl)
    | cons e' flags =>
      rw [or_iff_right (cons_ne_nil e' flags), dropLast_cons_cons, countP_cons]
      split_ifs <;> omega

variable {n : ℕ} {ctx ctx' : BitReadCtx}

theorem parseDeltas_length {l : List (ℕ × Bool)} (h : parseDeltas n ctx = some (l, ctx')) :
    l.length = n := by
  induction n generalizing ctx ctx' l with
  | zero =>
    obtain ⟨rfl, -⟩ := Prod.mk.inj (Option.some.inj h)
    rfl
  | succ n ih =>
    obtain ⟨⟨deltaPoc, ctx₁⟩, -, h⟩ := Option.bind_eq_some_iff.1 h
    obtain ⟨⟨used, ctx₂⟩, -, h⟩ := Option.bind_eq_some_iff.1 h
    obtain ⟨⟨rest, ctx₃⟩, hrest, h⟩ := Option.bind_eq_some_iff.1 h
    obtain ⟨rfl, -⟩ := Prod.mk.inj (Option.some.inj h)
    exact congrArg (· + 1) (ih hrest)

/-- What is done with the differences may depend on their number. -/
theorem parseDeltas_bind_congr {α : Type} {f g : List (ℕ × Bool) → HeaderRead α}
    (h : ∀ l, l.length = n → f l = g l) : parseDeltas n >>= f = parseDeltas n >>= g := by
  funext ctx
  show (parseDeltas n ctx).bind _ = (parseDeltas n ctx).bind _
  refine Option.bind_congr fun r hr => ?_
  obtain ⟨l, ctx'⟩ := r
  show f l ctx' = g l ctx'
  rw [h l (parseDeltas_length hr)]

/-- The numbers of pictures. -/
def numDeltaPocs : List ℕ := sets.map fun rps => rps.deltas.length

/-- The decoder reads the syntax, and stores what it makes of it. -/
theorem decodeShortTermRps_eq (isSliceHeader : Bool) : decodeShortTermRps sets isSliceHeader =
      stored sets <$> parseStRefPicSet (numDeltaPocs sets) isSliceHeader := by
  have hlength : (numDeltaPocs sets).length = sets.length := length_map _
  rw [decodeShortTermRps, parseStRefPicSet, hlength, map_bind]
  refine bind_congr fun rpsPredict => ?_
  cases rpsPredict with
  | true =>
    rw [if_pos rfl, if_pos rfl, decodePredicted, parsePredicted, hlength, map_bind]
    refine bind_congr fun deltaIdx => ?_
    split_ifs with hlt
    · rfl
    · have hridx : (numDeltaPocs sets).getD (sets.length - (deltaIdx + 1)) 0 =
          (refRps sets deltaIdx).deltas.length := by
        rw [numDeltaPocs, refRps]
        exact getD_map sets ⟨0, []⟩ fun rps => rps.deltas.length
      rw [hridx, map_bind]
      refine bind_congr fun deltaRpsSign => ?_
      rw [map_bind]
      refine bind_congr fun absDeltaRps => ?_
      rw [readPredicted_eq, length_append, map_bind, bind_map_left]
      refine bind_congr fun flags => ?_
      rw [map_pure]
      rfl
  | false =>
    rw [if_neg Bool.false_ne_true, if_neg Bool.false_ne_true, decodeExplicit, parseExplicit,
      map_bind]
    refine bind_congr fun numNegativePics => ?_
    rw [map_bind]
    refine bind_congr fun numPositivePics => ?_
    split_ifs with hmany
    · rfl
    · rw [readDeltas_eq, map_bind, bind_map_left]
      refine parseDeltas_bind_congr fun negative hlen => ?_
      rw [readDeltas_eq, map_bind, bind_map_left]
      refine bind_congr fun positive => ?_
      rw [map_pure, ← hlen]
      rfl

/-! ## Values in 32 bits -/

theorem fits_wrap32 (x : ℤ) : Fits (wrap32 x) := by
  have hle := Int.le_bmod (x := x) (m := 2 ^ 32) (by decide)
  have hlt := Int.bmod_lt (x := x) (m := 2 ^ 32) (by decide)
  rw [Fits, wrap32]
  norm_num at hle hlt ⊢
  exact ⟨hle, hlt⟩

theorem wrap32_eq_self {x : ℤ} : wrap32 x = x ↔ Fits x := by
  constructor
  · intro h
    rw [← h]
    exact fits_wrap32 x
  · intro h
    rw [Fits] at h
    norm_num at h
    exact Int.bmod_eq_of_le (by norm_num; exact h.1) (by norm_num; exact h.2)

theorem wrap32_wrap32_add (x y : ℤ) : wrap32 (wrap32 x + y) = wrap32 (x + y) := Int.bmod_add_bmod

/-- An entry in 32 bits. -/
def wrapEntry (e : ℤ × Bool) : ℤ × Bool := (wrap32 e.1, e.2)

theorem wrapEntry_eq_self {e : ℤ × Bool} : wrapEntry e = e ↔ Fits e.1 := by
  rw [wrapEntry, Prod.ext_iff]
  exact (and_iff_left rfl).trans wrap32_eq_self

/-- The entries are as they are when they are in 32 bits. -/
theorem map_wrapEntry_eq_self {l : List (ℤ × Bool)} :
    l.map wrapEntry = l ↔ ∀ e ∈ l, Fits e.1 := by
  calc l.map wrapEntry = l ↔ l.map wrapEntry = l.map id := by rw [map_id]
    _ ↔ ∀ e ∈ l, wrapEntry e = id e := map_inj_left
    _ ↔ ∀ e ∈ l, Fits e.1 := forall₂_congr fun _ _ => wrapEntry_eq_self

theorem storedDeltas_eq (sign prev : ℤ) (l : List (ℕ × Bool)) :
    storedDeltas sign (wrap32 prev) l = (sumDeltas sign prev l).map wrapEntry := by
  induction l generalizing prev with
  | nil => rfl
  | cons e l ih =>
    obtain ⟨deltaPocMinus1, used⟩ := e
    rw [storedDeltas, sumDeltas, wrap32_wrap32_add, ih, map_cons, wrapEntry]

theorem selected_eq (dRps : ℤ) (deltas : List ℤ) (flags : List (Bool × Bool)) :
    selected (wrap32 dRps) deltas flags =
      (select (fun _ => true) (moved dRps deltas flags)).map wrapEntry := by
  rw [selected, select, map_map]
  induction deltas generalizing flags with
  | nil => rfl
  | cons delta deltas ih =>
    cases flags with
    | nil => rfl
    | cons flag flags =>
      have hfirst : wrap32 (wrap32 dRps + delta) = wrap32 (dRps + delta) := wrap32_wrap32_add ..
      rw [moved, moved, zipWith_cons_cons, zipWith_cons_cons]
      have hrest := ih flags
      rw [moved, moved] at hrest
      cases huse : flag.2 with
      | true =>
        rw [filter_cons_of_pos (by rfl), filter_cons_of_pos (by rfl), map_cons,
          map_cons, hrest]
        dsimp only
        rw [hfirst]
        rfl
      | false =>
        rw [filter_cons_of_neg Bool.false_ne_true, filter_cons_of_neg Bool.false_ne_true,
          hrest]

/-- A set that is coded by its differences is stored as it is when they are in 32 bits. -/
theorem stored_explicit (negative positive : List (ℕ × Bool)) :
    stored sets (.explicit negative positive) =
        some (candidates sets (.explicit negative positive)) ↔
      (StRefPicSet.explicit negative positive).Regular sets := by
  have hzero : wrap32 0 = 0 := rfl
  rw [stored, candidates, StRefPicSet.Regular, Option.some_inj, ShortTermRPS.mk.injEq,
    and_iff_right rfl,
    ← map_wrapEntry_eq_self, map_append, ← storedDeltas_eq, ← storedDeltas_eq, hzero]

/-! ## Sorting the prediction -/

/-- The pictures before, in the order of the standard, and those behind. -/
def split0 (src : ShortTermRPS) (l : List Moved) : List Moved :=
  ((l.drop src.numNegativePics).take (src.deltas.length - src.numNegativePics)).reverse ++
    l.drop src.deltas.length ++ l.take src.numNegativePics

def split1 (src : ShortTermRPS) (l : List Moved) : List Moved :=
  (l.take src.numNegativePics).reverse ++ l.drop src.deltas.length ++
    (l.drop src.numNegativePics).take (src.deltas.length - src.numNegativePics)

theorem predict_eq (src : ShortTermRPS) (dRps : ℤ) (flags : List (Bool × Bool)) :
    predict src dRps flags =
      { numNegativePics :=
          (select (· < 0) (split0 src (moved dRps (src.deltas ++ [0]) flags))).length
        deltaPocs := select (· < 0) (split0 src (moved dRps (src.deltas ++ [0]) flags)) ++
          select (0 < ·) (split1 src (moved dRps (src.deltas ++ [0]) flags)) } := rfl

section

variable {src : ShortTermRPS}

/-- The three parts make up the list. -/
theorem split_parts (hle : src.numNegativePics ≤ src.deltas.length) (l : List Moved) :
    l = l.take src.numNegativePics ++
      ((l.drop src.numNegativePics).take (src.deltas.length - src.numNegativePics) ++
        l.drop src.deltas.length) := by
  have hdrop : l.drop src.deltas.length =
      (l.drop src.numNegativePics).drop (src.deltas.length - src.numNegativePics) := by
    rw [drop_drop]
    congr 1
    omega
  rw [hdrop, take_append_drop, take_append_drop]

theorem split0_perm (hle : src.numNegativePics ≤ src.deltas.length) (l : List Moved) :
    (split0 src l).Perm l := by
  nth_rewrite 2 [split_parts hle l]
  rw [split0]
  refine perm_append_comm.trans (Perm.append_left _ ?_)
  exact (reverse_perm _).append_right _

theorem split1_perm (hle : src.numNegativePics ≤ src.deltas.length) (l : List Moved) :
    (split1 src l).Perm l := by
  nth_rewrite 2 [split_parts hle l]
  rw [split1, append_assoc]
  exact (reverse_perm _).append perm_append_comm

/-- The differences of the earlier set, moved as far as there are flags. -/
theorem map_dPoc_moved (dRps : ℤ) (deltas : List ℤ) (flags : List (Bool × Bool)) :
    (moved dRps deltas flags).map Moved.dPoc = (deltas.take flags.length).map (dRps + ·) := by
  induction deltas generalizing flags with
  | nil => simp [moved]
  | cons delta deltas ih =>
    cases flags with
    | nil => rfl
    | cons flag flags => exact congrArg (List.cons (dRps + delta)) (ih flags)

/-- The differences of the parts are among those of the earlier set. -/
structure PartsIn (src : ShortTermRPS) (dRps : ℤ) (l : List Moved) : Prop where
  before : ((l.take src.numNegativePics).map Moved.dPoc).Sublist
    ((src.deltas.take src.numNegativePics).map (dRps + ·))
  behind : (((l.drop src.numNegativePics).take
      (src.deltas.length - src.numNegativePics)).map Moved.dPoc).Sublist
    ((src.deltas.drop src.numNegativePics).map (dRps + ·))
  self : ((l.drop src.deltas.length).map Moved.dPoc).Sublist ([0].map (dRps + ·))

theorem parts_moved (hle : src.numNegativePics ≤ src.deltas.length) (dRps : ℤ)
    (flags : List (Bool × Bool)) : PartsIn src dRps (moved dRps (src.deltas ++ [0]) flags) := by
  have hmap := map_dPoc_moved dRps (src.deltas ++ [0]) flags
  have hbefore : (src.deltas ++ [0]).take src.numNegativePics =
      src.deltas.take src.numNegativePics := take_append_of_le_length hle
  have hbehind : ((src.deltas ++ [0]).drop src.numNegativePics).take
      (src.deltas.length - src.numNegativePics) = src.deltas.drop src.numNegativePics := by
    rw [drop_append_of_le_length hle]
    exact take_left' (length_drop ..)
  have hself : (src.deltas ++ [0]).drop src.deltas.length = [0] := drop_left' rfl
  constructor
  · rw [map_take, hmap, ← map_take, take_take, ← hbefore]
    exact (take_sublist_take_left (min_le_left _ _)).map _
  · rw [map_take, map_drop, hmap, ← map_drop, ← map_take, drop_take,
      take_take, ← hbehind]
    exact (take_sublist_take_left (min_le_left _ _)).map _
  · rw [map_drop, hmap, ← map_drop, drop_take, hself]
    exact (take_sublist _ _).map _

/-- The differences in the order of the standard: the positive ones, last first, zero, and the
    negative ones. -/
theorem pairwise_deltas (hsrc : src.WellFormed) :
    ((src.deltas.drop src.numNegativePics).reverse ++ [0] ++
      src.deltas.take src.numNegativePics).Pairwise (· > ·) := by
  refine pairwise_append.2 ⟨pairwise_append.2 ⟨?_, pairwise_singleton _ _, ?_⟩,
    hsrc.decreasing, ?_⟩
  · exact pairwise_reverse.2 hsrc.increasing
  · intro x hx y hy
    rw [mem_singleton.1 hy]
    exact hsrc.positive x (mem_reverse.1 hx)
  · intro x hx y hy
    have hneg := hsrc.negative y hy
    rcases mem_append.1 hx with hx | hx
    · exact hneg.trans (hsrc.positive x (mem_reverse.1 hx))
    · rwa [mem_singleton.1 hx]

theorem pairwise_dPoc_split0 (hsrc : src.WellFormed) (dRps : ℤ) (flags : List (Bool × Bool)) :
    (split0 src (moved dRps (src.deltas ++ [0]) flags)).Pairwise fun x y => y.dPoc < x.dPoc := by
  obtain ⟨hbefore, hbehind, hself⟩ := parts_moved hsrc.le dRps flags
  have hall : ((split0 src (moved dRps (src.deltas ++ [0]) flags)).map Moved.dPoc).Sublist
      (((src.deltas.drop src.numNegativePics).reverse ++ [0] ++
        src.deltas.take src.numNegativePics).map (dRps + ·)) := by
    rw [split0, map_append, map_append, map_append, map_append,
      map_reverse, map_reverse]
    exact (hbehind.reverse.append hself).append hbefore
  have hdeltas : (((src.deltas.drop src.numNegativePics).reverse ++ [0] ++
      src.deltas.take src.numNegativePics).map (dRps + ·)).Pairwise (· > ·) :=
    pairwise_map.2 ((pairwise_deltas hsrc).imp fun h => add_lt_add_right h dRps)
  exact pairwise_map.1 (hdeltas.sublist hall)

theorem pairwise_dPoc_split1 (hsrc : src.WellFormed) (dRps : ℤ) (flags : List (Bool × Bool)) :
    (split1 src (moved dRps (src.deltas ++ [0]) flags)).Pairwise fun x y => x.dPoc < y.dPoc := by
  have hreverse : split1 src (moved dRps (src.deltas ++ [0]) flags) =
      (split0 src (moved dRps (src.deltas ++ [0]) flags)).reverse := by
    have hself := (parts_moved hsrc.le dRps flags).self.length_le
    rw [length_map] at hself
    rw [split0, split1, reverse_append, reverse_append, reverse_reverse,
      ← append_assoc]
    congr 2
    match (moved dRps (src.deltas ++ [0]) flags).drop src.deltas.length, hself with
    | [], _ => rfl
    | [_], _ => rfl
  rw [hreverse, pairwise_reverse]
  exact pairwise_dPoc_split0 hsrc dRps flags

/-- The pictures that are selected. -/
theorem select_eq (p : ℤ → Bool) (l : List Moved) :
    select p l = (((l.filter Moved.useDelta).filter fun e => p e.dPoc).map
      fun e => (e.dPoc, e.used)) := by
  rw [select, filter_filter]

theorem select_perm (p : ℤ → Bool) {l l' : List Moved} (h : l.Perm l') :
    (select p l).Perm (select p l') := (h.filter _).map _

theorem mem_select {p : ℤ → Bool} {l : List Moved} {x : ℤ × Bool} :
    x ∈ select p l ↔ ∃ e ∈ l, e.useDelta = true ∧ p e.dPoc = true ∧ (e.dPoc, e.used) = x := by
  simp only [select, mem_map, mem_filter, Bool.and_eq_true]
  constructor
  · rintro ⟨e, ⟨he, hp, hu⟩, rfl⟩
    exact ⟨e, he, hu, hp, rfl⟩
  · rintro ⟨e, he, hu, hp, rfl⟩
    exact ⟨e, ⟨he, hp, hu⟩, rfl⟩

theorem select_true (l : List Moved) :
    select (fun _ => true) l = (l.filter Moved.useDelta).map fun e => (e.dPoc, e.used) := by
  rw [select_eq, filter_true]

/-- The pictures before and those behind are all that are selected, when none is moved to the
    picture itself. -/
theorem select_signs (l : List Moved) (h : ∀ e ∈ l, e.useDelta = true → e.dPoc ≠ 0) :
    (select (· < 0) l ++ select (0 < ·) l).Perm (select (fun _ => true) l) := by
  have hpos : (l.filter Moved.useDelta).filter (fun e => decide (0 < e.dPoc)) =
      (l.filter Moved.useDelta).filter fun e => !decide (e.dPoc < 0) := by
    refine filter_congr fun e he => ?_
    obtain ⟨hmem, huse⟩ := mem_filter.1 he
    have hne := h e hmem huse
    rw [← decide_not, decide_eq_decide]
    omega
  rw [select_eq, select_eq, select_true, hpos, ← map_append]
  exact (filter_append_perm _ _).map _

/-- Conversely, there is no such picture when they are as many. -/
theorem ne_zero_of_length (l : List Moved)
    (h : (select (· < 0) l).length + (select (0 < ·) l).length =
      (select (fun _ => true) l).length) : ∀ e ∈ l, e.useDelta = true → e.dPoc ≠ 0 := by
  intro e he huse h0
  set q := l.filter Moved.useDelta with hq
  have hperm := (filter_append_perm (fun e : Moved => decide (e.dPoc < 0)) q).length_eq
  have hsub : q.filter (fun e => decide (0 < e.dPoc)) =
      (q.filter fun e => !decide (e.dPoc < 0)).filter fun e => decide (0 < e.dPoc) := by
    refine (filter_congr fun x _ => ?_).trans filter_filter.symm
    rw [← decide_not, ← Bool.decide_and, decide_eq_decide]
    omega
  rw [select_eq, select_eq, select_true, length_map, length_map, length_map, ← hq,
    hsub] at h
  rw [length_append] at hperm
  have hsame : ((q.filter fun e => !decide (e.dPoc < 0)).filter
      fun e => decide (0 < e.dPoc)).length = (q.filter fun e => !decide (e.dPoc < 0)).length := by
    omega
  have hall := length_filter_eq_length_iff.1 hsame
  have hmem : e ∈ q.filter fun e => !decide (e.dPoc < 0) :=
    mem_filter.2 ⟨mem_filter.2 ⟨he, huse⟩, by rw [h0]; rfl⟩
  have := of_decide_eq_true (hall e hmem)
  omega

/-! ### The loops -/

/-- The pictures are sorted and turned round. -/
theorem sortRps_deltaPocs (list : List (ℤ × Bool)) :
    ∃ l : List (ℤ × Bool), l.Perm list ∧ l.Pairwise (fun x y => x.1 ≤ y.1) ∧
      (sortRps list).deltaPocs = (l.take (list.countP fun e => e.1 < 0)).reverse ++
        l.drop (list.countP fun e => e.1 < 0) := by
  obtain ⟨hin, hperm, -⟩ := sortPrefix_spec Prod.fst list.length
    fun i => list.getD i (0, false)
  rw [firsts_getD] at hperm
  exact ⟨_, hperm, hin.pairwise, firsts_flipLoop countP_le_length _⟩

theorem sortRps_perm (list : List (ℤ × Bool)) : (sortRps list).deltaPocs.Perm list := by
  obtain ⟨l, hperm, -, heq⟩ := sortRps_deltaPocs list
  rw [heq]
  refine ((reverse_perm _).append_right _).trans ?_
  rwa [take_append_drop]

/-- What is stored, when the entries are those of two lists: one of negative differences that
    decrease, and one of positive ones that increase. -/
theorem sortRps_eq {list s0 s1 : List (ℤ × Bool)} (hperm : list.Perm (s0 ++ s1))
    (h0 : ∀ e ∈ s0, e.1 < 0) (h1 : ∀ e ∈ s1, 0 < e.1)
    (hs0 : s0.Pairwise fun x y => y.1 < x.1) (hs1 : s1.Pairwise fun x y => x.1 < y.1) :
    sortRps list = { numNegativePics := s0.length, deltaPocs := s0 ++ s1 } := by
  have hcount : list.countP (fun e => decide (e.1 < 0)) = s0.length := by
    rw [hperm.countP_eq, countP_append, countP_eq_length.2 fun e he =>
      decide_eq_true (h0 e he), countP_eq_zero.2 fun e he => by
        rw [decide_eq_true_eq]
        exact (h1 e he).not_gt]
    rfl
  have hstrict : (s0.reverse ++ s1).Pairwise fun x y => x.1 < y.1 := by
    refine pairwise_append.2 ⟨pairwise_reverse.2 hs0, hs1, fun x hx y hy => ?_⟩
    exact (h0 x (mem_reverse.1 hx)).trans (h1 y hy)
  obtain ⟨l, hl, hsorted, heq⟩ := sortRps_deltaPocs list
  have hsame : l = s0.reverse ++ s1 := eq_of_perm_of_strict hsorted hstrict
    (hl.trans (hperm.trans ((reverse_perm s0).symm.append_right _)))
  have hlength : s0.reverse.length = s0.length := length_reverse
  rw [hcount, hsame, take_left' hlength, drop_left' hlength, reverse_reverse] at heq
  rw [← heq, ← hcount]
  rfl

/-- A prediction is stored as the standard has it exactly when it is regular. -/
theorem stored_predicted {sets : List ShortTermRPS} {deltaIdxMinus1 : ℕ} {sign : Bool} {abs : ℕ}
    {flags : List (Bool × Bool)} (hsrc : (refRps sets deltaIdxMinus1).WellFormed) :
    stored sets (.predicted deltaIdxMinus1 sign abs flags) =
        some (candidates sets (.predicted deltaIdxMinus1 sign abs flags)) ↔
      (StRefPicSet.predicted deltaIdxMinus1 sign abs flags).Regular sets := by
  have hroom : hasRoom 0 flags = true ↔ flags.dropLast.countP Prod.snd < maxDeltaPocs := by
    rw [hasRoom_iff, Nat.zero_add, or_iff_right_of_imp]
    rintro rfl
    decide
  rw [stored, storedPredicted, StRefPicSet.Regular, ← hroom]
  split_ifs with hflags
  swap
  · exact iff_of_false nofun fun h => hflags h.1
  rw [and_iff_right hflags, Option.map_some, Option.some_inj, candidates, predict_eq, selected_eq]
  set src := refRps sets deltaIdxMinus1
  set m := moved (deltaRps sign abs) (src.deltas ++ [0]) flags
  have hperm0 := select_perm (· < 0) (split0_perm hsrc.le m)
  have hperm1 := select_perm (0 < ·) (split1_perm hsrc.le m)
  constructor
  · intro heq
    have hlist := (sortRps_perm _).symm.trans (.of_eq (congrArg ShortTermRPS.deltaPocs heq))
    dsimp only at hlist
    have hne : ∀ e ∈ m, e.useDelta = true → e.dPoc ≠ 0 := by
      refine ne_zero_of_length m ?_
      have hlen := hlist.length_eq
      rw [length_map, length_append, hperm0.length_eq, hperm1.length_eq] at hlen
      exact hlen.symm
    refine fun e he huse => ⟨?_, hne e he huse⟩
    have hmem : (e.dPoc, e.used) ∈ (select (fun _ => true) m).map wrapEntry := by
      refine hlist.mem_iff.2 ((hperm0.append hperm1).mem_iff.2 ((select_signs m hne).mem_iff.2 ?_))
      exact mem_select.2 ⟨e, he, huse, rfl, rfl⟩
    obtain ⟨x, -, hx⟩ := mem_map.1 hmem
    have hwrap : wrap32 x.1 = e.dPoc := congrArg Prod.fst hx
    rw [← hwrap]
    exact fits_wrap32 x.1
  · intro hregular
    have hwrap : (select (fun _ => true) m).map wrapEntry = select (fun _ => true) m := by
      refine map_wrapEntry_eq_self.2 fun x hx => ?_
      obtain ⟨e, he, huse, -, rfl⟩ := mem_select.1 hx
      exact (hregular e he huse).1
    have hall := select_signs m fun e he huse => (hregular e he huse).2
    rw [hwrap]
    refine sortRps_eq (hall.symm.trans (hperm0.append hperm1).symm) ?_ ?_ ?_ ?_
    · intro x hx
      obtain ⟨e, -, -, hneg, rfl⟩ := mem_select.1 hx
      exact of_decide_eq_true hneg
    · intro x hx
      obtain ⟨e, -, -, hpos, rfl⟩ := mem_select.1 hx
      exact of_decide_eq_true hpos
    · exact pairwise_map.2 ((pairwise_dPoc_split0 hsrc _ flags).filter _)
    · exact pairwise_map.2 ((pairwise_dPoc_split1 hsrc _ flags).filter _)

end

/-! ## Well-formed sets -/

theorem wellFormed_mk {s0 s1 : List (ℤ × Bool)} (h0 : ∀ e ∈ s0, e.1 < 0) (h1 : ∀ e ∈ s1, 0 < e.1)
    (hs0 : s0.Pairwise fun x y => y.1 < x.1) (hs1 : s1.Pairwise fun x y => x.1 < y.1) :
    (ShortTermRPS.mk s0.length (s0 ++ s1)).WellFormed := by
  have hlength : (s0.map Prod.fst).length = s0.length := length_map _
  have hdeltas : (ShortTermRPS.mk s0.length (s0 ++ s1)).deltas =
      s0.map Prod.fst ++ s1.map Prod.fst := map_append
  have htake : (ShortTermRPS.mk s0.length (s0 ++ s1)).deltas.take s0.length = s0.map Prod.fst := by
    rw [hdeltas, take_left' hlength]
  have hdrop : (ShortTermRPS.mk s0.length (s0 ++ s1)).deltas.drop s0.length = s1.map Prod.fst := by
    rw [hdeltas, drop_left' hlength]
  refine ⟨?_, ?_, ?_, ?_, ?_⟩
  · rw [hdeltas, length_append, hlength]
    exact Nat.le_add_right _ _
  · rw [htake]
    exact forall_mem_map.2 h0
  · rw [htake]
    exact pairwise_map.2 hs0
  · rw [hdrop]
    exact forall_mem_map.2 h1
  · rw [hdrop]
    exact pairwise_map.2 hs1

theorem sumDeltas_neg (prev : ℤ) (l : List (ℕ × Bool)) :
    (∀ e ∈ sumDeltas (-1) prev l, e.1 < prev) ∧
      (sumDeltas (-1) prev l).Pairwise fun x y => y.1 < x.1 := by
  induction l generalizing prev with
  | nil => exact ⟨nofun, .nil⟩
  | cons e l ih =>
    obtain ⟨hlt, hpair⟩ := ih (prev + -1 * (e.1 + 1))
    have hstep : prev + -1 * ((e.1 : ℤ) + 1) < prev := by omega
    exact ⟨forall_mem_cons.2 ⟨hstep, fun x hx => (hlt x hx).trans hstep⟩, .cons hlt hpair⟩

theorem sumDeltas_pos (prev : ℤ) (l : List (ℕ × Bool)) :
    (∀ e ∈ sumDeltas 1 prev l, prev < e.1) ∧
      (sumDeltas 1 prev l).Pairwise fun x y => x.1 < y.1 := by
  induction l generalizing prev with
  | nil => exact ⟨nofun, .nil⟩
  | cons e l ih =>
    obtain ⟨hlt, hpair⟩ := ih (prev + 1 * (e.1 + 1))
    have hstep : prev < prev + 1 * ((e.1 : ℤ) + 1) := by omega
    exact ⟨forall_mem_cons.2 ⟨hstep, fun x hx => hstep.trans (hlt x hx)⟩, .cons hlt hpair⟩

theorem length_sumDeltas (sign prev : ℤ) (l : List (ℕ × Bool)) :
    (sumDeltas sign prev l).length = l.length := by
  induction l generalizing prev with
  | nil => rfl
  | cons e l ih => exact congrArg (· + 1) (ih _)

variable {sets : List ShortTermRPS}

theorem wellFormed_refRps (h : ∀ rps ∈ sets, rps.WellFormed) (deltaIdxMinus1 : ℕ) :
    (refRps sets deltaIdxMinus1).WellFormed := by
  rw [refRps, getD_eq_getElem?_getD]
  cases hget : sets[sets.length - (deltaIdxMinus1 + 1)]? with
  | none => exact ⟨le_rfl, nofun, .nil, nofun, .nil⟩
  | some rps => exact h rps (mem_of_getElem? hget)

/-- The candidate sets are well formed. -/
theorem wellFormed_candidates (h : ∀ rps ∈ sets, rps.WellFormed) (syn : StRefPicSet) :
    (candidates sets syn).WellFormed := by
  cases syn with
  | explicit negative positive =>
    obtain ⟨h0, hs0⟩ := sumDeltas_neg 0 negative
    obtain ⟨h1, hs1⟩ := sumDeltas_pos 0 positive
    rw [candidates, ← length_sumDeltas (-1) 0 negative]
    exact wellFormed_mk h0 h1 hs0 hs1
  | predicted deltaIdxMinus1 sign abs flags =>
    have hsrc := wellFormed_refRps h deltaIdxMinus1
    rw [candidates, predict_eq]
    refine wellFormed_mk (fun x hx => ?_) (fun x hx => ?_) ?_ ?_
    · obtain ⟨e, -, -, hneg, rfl⟩ := mem_select.1 hx
      exact of_decide_eq_true hneg
    · obtain ⟨e, -, -, hpos, rfl⟩ := mem_select.1 hx
      exact of_decide_eq_true hpos
    · exact pairwise_map.2 ((pairwise_dPoc_split0 hsrc _ flags).filter _)
    · exact pairwise_map.2 ((pairwise_dPoc_split1 hsrc _ flags).filter _)

/-- A set that is read behind well-formed ones is the candidate set exactly when it is regular. -/
theorem stored_iff (h : ∀ rps ∈ sets, rps.WellFormed) (syn : StRefPicSet) :
    stored sets syn = some (candidates sets syn) ↔ syn.Regular sets := by
  cases syn with
  | explicit negative positive => exact stored_explicit sets negative positive
  | predicted deltaIdxMinus1 sign abs flags => exact stored_predicted (wellFormed_refRps h _)

/-! ## The sets of an SPS -/

/-- The syntax of `n` further sets, when those before have been read as the standard has them. -/
def standardSets : ℕ → List ShortTermRPS → HeaderRead (List StRefPicSet)
  | 0, _ => pure []
  | n + 1, sets => do
    let syn ← parseStRefPicSet (numDeltaPocs sets) false
    let rest ← standardSets n (sets ++ [candidates sets syn])
    pure (syn :: rest)

/-- The candidate sets behind those in `sets`. -/
def candidateSets : List ShortTermRPS → List StRefPicSet → List ShortTermRPS
  | sets, [] => sets
  | sets, syn :: l => candidateSets (sets ++ [candidates sets syn]) l

/-- Every set is regular. -/
def AllRegular : List ShortTermRPS → List StRefPicSet → Prop
  | _, [] => True
  | sets, syn :: l => syn.Regular sets ∧ AllRegular (sets ++ [candidates sets syn]) l

theorem prefix_candidateSets (sets : List ShortTermRPS) (l : List StRefPicSet) :
    sets <+: candidateSets sets l := by
  induction l generalizing sets with
  | nil => exact prefix_rfl
  | cons syn l ih => exact (prefix_append _ _).trans (ih _)

variable {out : Option (List ShortTermRPS)}

theorem decodeStRpsSets_succ (h : decodeStRpsSets (n + 1) sets ctx = some (out, ctx')) :
    ∃ syn ctx₁, parseStRefPicSet (numDeltaPocs sets) false ctx = some (syn, ctx₁) ∧
      match stored sets syn with
      | some rps => decodeStRpsSets n (sets ++ [rps]) ctx₁ = some (out, ctx')
      | none => out = none := by
  rw [decodeStRpsSets, decodeShortTermRps_eq, bind_map_left] at h
  obtain ⟨⟨syn, ctx₁⟩, hsyn, h⟩ := Option.bind_eq_some_iff.1 h
  refine ⟨syn, ctx₁, hsyn, ?_⟩
  dsimp only at h
  cases hstored : stored sets syn with
  | some rps =>
    rw [hstored] at h
    exact h
  | none =>
    rw [hstored] at h
    exact (Prod.mk.inj (Option.some.inj h)).1.symm

theorem prefix_decodeStRpsSets {out : List ShortTermRPS}
    (h : decodeStRpsSets n sets ctx = some (some out, ctx')) : sets <+: out := by
  induction n generalizing sets ctx with
  | zero =>
    obtain rfl := Option.some.inj (Prod.mk.inj (Option.some.inj h)).1
    exact prefix_rfl
  | succ n ih =>
    obtain ⟨syn, ctx₁, -, hrest⟩ := decodeStRpsSets_succ h
    split at hrest
    · exact (prefix_append _ _).trans (ih hrest)
    · cases hrest

theorem standardSets_succ {l : List StRefPicSet} :
    standardSets (n + 1) sets ctx = some (l, ctx') ↔ ∃ syn ctx₁ rest, l = syn :: rest ∧
      parseStRefPicSet (numDeltaPocs sets) false ctx = some (syn, ctx₁) ∧
      standardSets n (sets ++ [candidates sets syn]) ctx₁ = some (rest, ctx') := by
  constructor
  · intro h
    obtain ⟨⟨syn, ctx₁⟩, hsyn, h⟩ := Option.bind_eq_some_iff.1 h
    obtain ⟨⟨rest, ctx₂⟩, hrest, h⟩ := Option.bind_eq_some_iff.1 h
    obtain ⟨rfl, rfl⟩ := Prod.mk.inj (Option.some.inj h)
    exact ⟨syn, ctx₁, rest, rfl, hsyn, hrest⟩
  · rintro ⟨syn, ctx₁, rest, rfl, hsyn, hrest⟩
    exact Option.bind_eq_some_iff.2 ⟨(syn, ctx₁), hsyn,
      Option.bind_eq_some_iff.2 ⟨(rest, ctx'), hrest, rfl⟩⟩

/-- The sets that are read are the candidate sets exactly when those that the standard reads are all
    regular. -/
theorem decodeStRpsSets_iff (hsets : ∀ rps ∈ sets, rps.WellFormed)
    (h : decodeStRpsSets n sets ctx = some (out, ctx')) :
    (∃ l, standardSets n sets ctx = some (l, ctx') ∧ out = some (candidateSets sets l)) ↔
      ∃ l ctx'', standardSets n sets ctx = some (l, ctx'') ∧ AllRegular sets l := by
  induction n generalizing sets ctx with
  | zero =>
    obtain ⟨rfl, rfl⟩ := Prod.mk.inj (Option.some.inj h)
    exact iff_of_true ⟨[], rfl, rfl⟩ ⟨[], ctx, rfl, trivial⟩
  | succ n ih =>
    obtain ⟨syn, ctx₁, hsyn, hrest⟩ := decodeStRpsSets_succ h
    have hwf : ∀ rps ∈ sets ++ [candidates sets syn], rps.WellFormed := fun rps hmem =>
      (mem_append.1 hmem).elim (hsets rps) fun hlast =>
        mem_singleton.1 hlast ▸ wellFormed_candidates hsets syn
    constructor
    · rintro ⟨l, hl, hout⟩
      obtain ⟨syn', ctx₂, rest, rfl, hsyn', hstd⟩ := standardSets_succ.1 hl
      obtain ⟨rfl, rfl⟩ := Prod.mk.inj (Option.some.inj (hsyn.symm.trans hsyn'))
      have hsame : stored sets syn = some (candidates sets syn) := by
        rw [hout] at hrest
        cases hstored : stored sets syn with
        | none =>
          rw [hstored] at hrest
          cases hrest
        | some rps =>
          rw [hstored] at hrest
          have hleft := prefix_decodeStRpsSets hrest
          have hright := prefix_candidateSets (sets ++ [candidates sets syn]) rest
          have heq := IsPrefix.eq_of_length (prefix_of_prefix_length_le hleft hright
            (by rw [length_append, length_append]; rfl))
            (by rw [length_append, length_append]; rfl)
          rw [singleton_inj.1 (append_cancel_left heq)]
      rw [hsame] at hrest
      obtain ⟨l', ctx₃, hl', hreg⟩ := (ih hwf hrest).1 ⟨rest, hstd, hout⟩
      exact ⟨syn :: l', ctx₃, standardSets_succ.2 ⟨syn, ctx₁, l', rfl, hsyn, hl'⟩,
        (stored_iff hsets syn).1 hsame, hreg⟩
    · rintro ⟨l, ctx'', hl, hreg⟩
      obtain ⟨syn', ctx₂, rest, rfl, hsyn', hstd⟩ := standardSets_succ.1 hl
      obtain ⟨rfl, rfl⟩ := Prod.mk.inj (Option.some.inj (hsyn.symm.trans hsyn'))
      rw [(stored_iff hsets syn).2 hreg.1] at hrest
      obtain ⟨l', hl', hout⟩ := (ih hwf hrest).2 ⟨rest, ctx'', hstd, hreg.2⟩
      exact ⟨syn :: l', standardSets_succ.2 ⟨syn, ctx₁, l', rfl, hsyn, hl'⟩, hout⟩

theorem wellFormed_candidateSets (hsets : ∀ rps ∈ sets, rps.WellFormed) (l : List StRefPicSet) :
    ∀ rps ∈ candidateSets sets l, rps.WellFormed := by
  induction l generalizing sets with
  | nil => exact hsets
  | cons syn l ih =>
    refine ih fun rps hmem => (mem_append.1 hmem).elim (hsets rps) fun hlast => ?_
    rw [mem_singleton.1 hlast]
    exact wellFormed_candidates hsets syn

/-- A set of a slice header. -/
theorem decodeShortTermRps_iff (hsets : ∀ rps ∈ sets, rps.WellFormed) {isSliceHeader : Bool}
    {rps : Option ShortTermRPS}
    (h : decodeShortTermRps sets isSliceHeader ctx = some (rps, ctx')) : ∃ syn,
      parseStRefPicSet (numDeltaPocs sets) isSliceHeader ctx = some (syn, ctx') ∧
      (rps = some (candidates sets syn) ↔ syn.Regular sets) := by
  rw [decodeShortTermRps_eq] at h
  obtain ⟨⟨syn, ctx₁⟩, hsyn, h⟩ := Option.bind_eq_some_iff.1 h
  obtain ⟨rfl, rfl⟩ := Prod.mk.inj (Option.some.inj h)
  exact ⟨syn, hsyn, stored_iff hsets syn⟩

/-! ## Long-term entries -/

/-- The sum at the entry `i`. An entry without most significant bits has the difference 0. -/
def sumMsb (nbSps i : ℕ) (prev : ℤ) (e : CodedLongTerm) : ℤ :=
  e.deltaPocMsbCycle.getD 0 + if i = 0 ∨ i = nbSps then 0 else prev

/-- `DeltaPocMsbCycleLt` (7-52), from the entry `i` on. -/
def deltaPocMsbCycleLt (nbSps : ℕ) : ℕ → ℤ → List CodedLongTerm → List ℤ
  | _, _, [] => []
  | i, prev, e :: es =>
    sumMsb nbSps i prev e :: deltaPocMsbCycleLt nbSps (i + 1) (sumMsb nbSps i prev e) es

/-- `PocLt` of an entry, and its flag. -/
def ltEntry (base maxPocLsb : ℤ) (e : CodedLongTerm) (delta : ℤ) : ℤ × Bool :=
  (e.pocLsb + if e.deltaPocMsbCycle.isSome then base - delta * maxPocLsb else 0, e.used)

/-- The long-term entries of the standard. -/
def ltCandidates (sps : HEVCSPS) (poc picOrderCntLsb : ℤ) (c : CodedLtRps) : LongTermRPS :=
  List.zipWith (ltEntry (poc - picOrderCntLsb) (2 ^ sps.log2MaxPocLsb)) (c.entries sps)
    (deltaPocMsbCycleLt c.sps.length 0 0 (c.entries sps))

/-- What `decode_lt_rps` stores, before it is wrapped. -/
def exactLtRps (base maxPocLsb : ℤ) (nbSps : ℕ) : ℕ → ℤ → List CodedLongTerm → LongTermRPS
  | _, _, [] => []
  | i, prev, e :: es =>
    ltEntry base maxPocLsb e (sumMsb nbSps i prev e) :: exactLtRps base maxPocLsb nbSps (i + 1)
      (if e.deltaPocMsbCycle.isSome then sumMsb nbSps i prev e else prev) es

/-- The last sum of the entries from the SPS. -/
def lastMsb (nbSps : ℕ) (entries : List CodedLongTerm) : ℤ :=
  (deltaPocMsbCycleLt nbSps 0 0 entries).getLastD 0

/-- The first entry has no most significant bits, and one behind it has. -/
def Carries : List CodedLongTerm → Prop
  | [] => False
  | e :: es => e.deltaPocMsbCycle = none ∧ ∃ e' ∈ es, e'.deltaPocMsbCycle.isSome

/-- The order counts are in 32 bits, and no sum of the entries from the SPS is carried into those
    of the slice header. -/
def LtRegular (sps : HEVCSPS) (poc picOrderCntLsb : ℤ) (c : CodedLtRps) : Prop :=
  (∀ e ∈ ltCandidates sps poc picOrderCntLsb c, Fits e.1) ∧
    (Carries c.slice → (2 ^ 32 : ℤ) ∣
      lastMsb c.sps.length (c.sps.map fun e => spsLongTerm sps e.1 e.2) * 2 ^ sps.log2MaxPocLsb)

section

variable {base maxPocLsb : ℤ} {nbSps : ℕ}

/-- An entry of the loop: the sum goes on with it when it has most significant bits. -/
theorem ltRpsLoop_eq (i : ℕ) (prev : ℤ) (es : List CodedLongTerm) :
    ltRpsLoop base maxPocLsb nbSps i (wrap32 prev) es =
      (exactLtRps base maxPocLsb nbSps i prev es).map wrapEntry := by
  induction es generalizing i prev with
  | nil => rfl
  | cons e es ih =>
    rw [ltRpsLoop, exactLtRps, map_cons, wrapEntry, ltEntry]
    cases hcycle : e.deltaPocMsbCycle with
    | none => simp [ih]
    | some d =>
      have hsum : wrap32 (if i ≠ 0 ∧ i ≠ nbSps then (d : ℤ) + wrap32 prev else d) =
          wrap32 (sumMsb nbSps i prev e) := by
        rw [sumMsb, hcycle]
        by_cases h : i = 0 ∨ i = nbSps
        · rw [if_pos h, if_neg (by tauto), add_zero]
          rfl
        · rw [if_neg h, if_pos (by tauto)]
          exact Int.add_bmod_bmod
      have hpoc : ∀ x : ℤ, wrap32 (e.pocLsb + (base - wrap32 x * maxPocLsb)) =
          wrap32 (e.pocLsb + (base - x * maxPocLsb)) := fun x => by
        rw [wrap32, wrap32, wrap32, ← add_sub_assoc, ← add_sub_assoc, Int.sub_bmod,
          Int.bmod_mul_bmod, ← Int.sub_bmod]
      dsimp only
      rw [hsum, ih, hpoc]
      rfl

/-- The entries from the SPS: the sums are those of the standard. -/
theorem exactLtRps_sps {i : ℕ} {prev : ℤ} (l m : List CodedLongTerm) (hi : i + l.length = nbSps)
    (hprev : i = 0 → prev = 0) :
    exactLtRps base maxPocLsb nbSps i prev (l ++ m) =
        List.zipWith (ltEntry base maxPocLsb) l (deltaPocMsbCycleLt nbSps i prev l) ++
          exactLtRps base maxPocLsb nbSps nbSps ((deltaPocMsbCycleLt nbSps i prev l).getLastD prev)
            m ∧
      deltaPocMsbCycleLt nbSps i prev (l ++ m) = deltaPocMsbCycleLt nbSps i prev l ++
        deltaPocMsbCycleLt nbSps nbSps ((deltaPocMsbCycleLt nbSps i prev l).getLastD prev) m := by
  induction l generalizing i prev with
  | nil =>
    obtain rfl : i = nbSps := hi
    exact ⟨rfl, rfl⟩
  | cons e l ih =>
    rw [length_cons] at hi
    have hnext : (if e.deltaPocMsbCycle.isSome then sumMsb nbSps i prev e else prev) =
        sumMsb nbSps i prev e := by
      split_ifs with hsome
      · rfl
      · -- Without most significant bits the sum stays; at the first entry it is 0.
        rw [sumMsb, Option.not_isSome_iff_eq_none.1 hsome]
        by_cases h0 : i = 0
        · rw [if_pos (.inl h0), hprev h0]
          rfl
        · rw [if_neg (by omega)]
          exact (zero_add prev).symm
    obtain ⟨hloop, hdeltas⟩ := @ih (i + 1) (sumMsb nbSps i prev e) (by omega)
      fun h => absurd h (Nat.succ_ne_zero i)
    have hlast : ∀ x : List ℤ, (sumMsb nbSps i prev e :: x).getLastD prev =
        x.getLastD (sumMsb nbSps i prev e) := fun x => by cases x <;> rfl
    rw [cons_append, exactLtRps, hnext, hloop, deltaPocMsbCycleLt, deltaPocMsbCycleLt,
      hdeltas, hlast]
    exact ⟨rfl, rfl⟩

/-- Entries of the slice header behind the first: a sum that is carried into them stays. -/
theorem exactLtRps_slice {i : ℕ} (hi : nbSps < i) (prev carried : ℤ) (l : List CodedLongTerm) :
    exactLtRps base maxPocLsb nbSps i (prev + carried) l =
      List.zipWith (ltEntry base maxPocLsb) l
        ((deltaPocMsbCycleLt nbSps i prev l).map (· + carried)) := by
  induction l generalizing i prev with
  | nil => rfl
  | cons e l ih =>
    have hif : ∀ p : ℤ, (if i = 0 ∨ i = nbSps then 0 else p) = p := fun p =>
      if_neg (by omega)
    have hsum : sumMsb nbSps i (prev + carried) e = sumMsb nbSps i prev e + carried := by
      rw [sumMsb, sumMsb, hif, hif, add_assoc]
    have hnext : (if e.deltaPocMsbCycle.isSome then sumMsb nbSps i (prev + carried) e
        else prev + carried) = sumMsb nbSps i prev e + carried := by
      split_ifs with hsome
      · exact hsum
      · rw [sumMsb, Option.not_isSome_iff_eq_none.1 hsome, hif]
        exact congrArg (· + carried) (zero_add prev).symm
    rw [exactLtRps, hnext, ih (by omega), hsum]
    rfl

theorem wrap32_eq_iff {x y : ℤ} : wrap32 x = y ↔ Fits y ∧ (2 ^ 32 : ℤ) ∣ x - y := by
  constructor
  · rintro rfl
    refine ⟨fits_wrap32 x, x.bdiv (2 ^ 32), ?_⟩
    have hsplit : (2 ^ 32 : ℤ) * x.bdiv (2 ^ 32) + wrap32 x = x := Int.bdiv_add_bmod x (2 ^ 32)
    exact sub_eq_of_eq_add hsplit.symm
  · rintro ⟨hfits, k, hk⟩
    have hx : x = y + ((2 ^ 32 : ℕ) : ℤ) * k := by
      push_cast
      omega
    rw [wrap32, hx, Int.add_mul_bmod_self_left]
    exact wrap32_eq_self.2 hfits

/-- An entry with a sum that is off. -/
theorem wrapEntry_ltEntry {e : CodedLongTerm} {delta carried : ℤ} :
    wrapEntry (ltEntry base maxPocLsb e (delta + carried)) = ltEntry base maxPocLsb e delta ↔
      Fits (ltEntry base maxPocLsb e delta).1 ∧
        (e.deltaPocMsbCycle.isSome → (2 ^ 32 : ℤ) ∣ carried * maxPocLsb) := by
  rw [wrapEntry, Prod.ext_iff]
  refine (and_iff_left rfl).trans ?_
  rw [wrap32_eq_iff]
  refine and_congr_right fun _ => ?_
  cases hsome : e.deltaPocMsbCycle.isSome with
  | false =>
    have hdiff : (ltEntry base maxPocLsb e (delta + carried)).1 -
        (ltEntry base maxPocLsb e delta).1 = 0 := by
      rw [ltEntry, ltEntry, hsome]
      exact sub_self _
    rw [hdiff]
    exact iff_of_true (dvd_zero _) fun h => absurd h Bool.false_ne_true
  | true =>
    have hdiff : (ltEntry base maxPocLsb e (delta + carried)).1 -
        (ltEntry base maxPocLsb e delta).1 = -(carried * maxPocLsb) := by
      rw [ltEntry, ltEntry, hsome, if_pos rfl, if_pos rfl]
      ring
    rw [hdiff, dvd_neg]
    exact ⟨fun h _ => h, fun h => h rfl⟩

/-- Entries with sums that are all off by the same. -/
theorem map_wrapEntry_zipWith (carried : ℤ) (l : List CodedLongTerm) (deltas : List ℤ)
    (hlen : l.length = deltas.length) :
    (List.zipWith (ltEntry base maxPocLsb) l (deltas.map (· + carried))).map wrapEntry =
        List.zipWith (ltEntry base maxPocLsb) l deltas ↔
      (∀ e ∈ List.zipWith (ltEntry base maxPocLsb) l deltas, Fits e.1) ∧
        ((∃ e ∈ l, e.deltaPocMsbCycle.isSome) → (2 ^ 32 : ℤ) ∣ carried * maxPocLsb) := by
  induction l generalizing deltas with
  | nil => exact iff_of_true rfl ⟨nofun, fun ⟨e, he, _⟩ => absurd he not_mem_nil⟩
  | cons e l ih =>
    cases deltas with
    | nil => exact absurd hlen (by simp)
    | cons delta deltas =>
      rw [map_cons, zipWith_cons_cons, zipWith_cons_cons, map_cons,
        List.cons.injEq, wrapEntry_ltEntry, ih deltas (Nat.succ.inj hlen), forall_mem_cons,
        exists_mem_cons_iff, or_imp]
      exact and_and_and_comm

theorem length_deltaPocMsbCycleLt (i : ℕ) (prev : ℤ) (l : List CodedLongTerm) :
    (deltaPocMsbCycleLt nbSps i prev l).length = l.length := by
  induction l generalizing i prev with
  | nil => rfl
  | cons e l ih => exact congrArg (· + 1) (ih _ _)

end

/-- Long-term entries that are accepted are those of the standard exactly when they are regular. -/
theorem decodeLtRps_iff {sps : HEVCSPS} (poc picOrderCntLsb : ℤ) {c : CodedLtRps}
    (hsps : sps.longTermRefPics.isSome) (hlen : (c.entries sps).length ≤ 32) :
    decodeLtRps sps poc picOrderCntLsb c = ltCandidates sps poc picOrderCntLsb c ↔
      LtRegular sps poc picOrderCntLsb c := by
  set base := poc - picOrderCntLsb with hbase
  set max : ℤ := 2 ^ sps.log2MaxPocLsb with hmax
  set spsE := c.sps.map fun e => spsLongTerm sps e.1 e.2 with hspsE
  have hnb : spsE.length = c.sps.length := length_map _
  set last := lastMsb c.sps.length spsE with hlast
  set first := List.zipWith (ltEntry base max) spsE (deltaPocMsbCycleLt c.sps.length 0 0 spsE)
    with hfirst
  have hentries : c.entries sps = spsE ++ c.slice := rfl
  obtain ⟨hloop, hdeltas⟩ := @exactLtRps_sps base max c.sps.length 0 0 spsE c.slice
    ((Nat.zero_add _).trans hnb) fun _ => rfl
  have hlens : spsE.length = (deltaPocMsbCycleLt c.sps.length 0 0 spsE).length :=
    (length_deltaPocMsbCycleLt ..).symm
  have hzero : wrap32 0 = 0 := rfl
  have hstored : decodeLtRps sps poc picOrderCntLsb c = first.map wrapEntry ++
      (exactLtRps base max c.sps.length c.sps.length last c.slice).map wrapEntry := by
    rw [decodeLtRps, if_neg (by
      rw [Option.isNone_iff_eq_none, not_or, ← ne_eq, Option.ne_none_iff_isSome]
      exact ⟨hsps, not_lt.2 hlen⟩), hentries, ← hzero, ltRpsLoop_eq]
    exact (congrArg _ hloop).trans map_append
  have hcand : ltCandidates sps poc picOrderCntLsb c = first ++
      List.zipWith (ltEntry base max) c.slice
        (deltaPocMsbCycleLt c.sps.length c.sps.length last c.slice) := by
    rw [ltCandidates, hentries, hdeltas, zipWith_append hlens]
    rfl
  rw [LtRegular, hstored, hcand]
  cases hslice : c.slice with
  | nil =>
    rw [exactLtRps, map_nil, append_nil, zipWith_nil_left, append_nil,
      map_wrapEntry_eq_self]
    exact (and_iff_left fun h => h.elim).symm
  | cons e es =>
    have hsum : sumMsb c.sps.length c.sps.length last e = e.deltaPocMsbCycle.getD 0 := by
      rw [sumMsb, if_pos (.inr rfl), add_zero]
    have hnext : (if e.deltaPocMsbCycle.isSome then sumMsb c.sps.length c.sps.length last e
        else last) = e.deltaPocMsbCycle.getD 0 +
          if e.deltaPocMsbCycle.isSome then 0 else last := by
      split_ifs with hsome
      · rw [hsum, add_zero]
      · rw [Option.not_isSome_iff_eq_none.1 hsome]
        exact (zero_add last).symm
    have hone : wrapEntry (ltEntry base max e (e.deltaPocMsbCycle.getD 0)) =
        ltEntry base max e (e.deltaPocMsbCycle.getD 0) ↔
          Fits (ltEntry base max e (e.deltaPocMsbCycle.getD 0)).1 := wrapEntry_eq_self
    have happend : ∀ {l l' m m' : LongTermRPS}, l.length = l'.length →
        (l ++ m = l' ++ m' ↔ l = l' ∧ m = m') := fun hl =>
      ⟨fun h => append_inj h hl, fun h => by rw [h.1, h.2]⟩
    rw [exactLtRps, hnext, exactLtRps_slice (Nat.lt_succ_self _), deltaPocMsbCycleLt, hsum,
      zipWith_cons_cons, map_cons, happend (length_map _), List.cons.injEq, hone,
      map_wrapEntry_eq_self, map_wrapEntry_zipWith _ _ _ (length_deltaPocMsbCycleLt ..).symm,
      forall_mem_append, forall_mem_cons, and_assoc, and_assoc, Carries]
    refine and_congr_right fun _ => and_congr_right fun _ => and_congr_right fun _ => ?_
    cases hcycle : e.deltaPocMsbCycle with
    | none => exact ⟨fun h hc => h hc.2, fun h hc => h ⟨rfl, hc⟩⟩
    | some d =>
      refine iff_of_true (fun _ => ?_) fun hc => absurd hc.1 (Option.some_ne_none d)
      rw [show (if (some d).isSome = true then (0 : ℤ) else last) = 0 from rfl, zero_mul]
      exact dvd_zero _

/-! ## The sets of the decoder -/

/-- The sets of an SPS are the candidate sets exactly when those that the standard reads are
    regular, and so is a set of a slice header behind them; long-term entries are those of the
    standard exactly when they are regular. -/
theorem rps_candidates (l : List StRefPicSet) (ctx ctx' : BitReadCtx) :
    (∀ n out, decodeStRpsSets n [] ctx = some (out, ctx') →
      ((∃ l, standardSets n [] ctx = some (l, ctx') ∧ out = some (candidateSets [] l)) ↔
        ∃ l ctx'', standardSets n [] ctx = some (l, ctx'') ∧ AllRegular [] l)) ∧
    (∀ rps, decodeShortTermRps (candidateSets [] l) true ctx = some (rps, ctx') →
      ∃ syn, parseStRefPicSet (numDeltaPocs (candidateSets [] l)) true ctx = some (syn, ctx') ∧
        (rps = some (candidates (candidateSets [] l) syn) ↔
          syn.Regular (candidateSets [] l))) ∧
    (∀ syn, (∀ rps ∈ candidateSets [] l, rps.WellFormed) ∧
      (candidates (candidateSets [] l) syn).WellFormed) ∧
    ∀ sps poc picOrderCntLsb c, sps.longTermRefPics.isSome → (c.entries sps).length ≤ 32 →
      (decodeLtRps sps poc picOrderCntLsb c = ltCandidates sps poc picOrderCntLsb c ↔
        LtRegular sps poc picOrderCntLsb c) := by
  have hnil : ∀ rps ∈ ([] : List ShortTermRPS), rps.WellFormed := nofun
  refine ⟨fun n out h => decodeStRpsSets_iff hnil h, fun rps h => ?_, fun syn => ?_,
    fun sps poc lsb c hsps hlen => decodeLtRps_iff poc lsb hsps hlen⟩
  · exact decodeShortTermRps_iff (wellFormed_candidateSets hnil l) h
  · have hwf := wellFormed_candidateSets hnil l
    exact ⟨hwf, wellFormed_candidates hwf syn⟩

/-- An SPS with an empty set, and one that is predicted from it: the picture before. -/
def twoSets : BitReadCtx := mppSetBitreadCtx [0xfc]

/-- A run that reads `a` leaves the reader somewhere. -/
theorem exists_rest {α β : Type} {x : Option (α × β)} {a : α} (h : x.map Prod.fst = some a) :
    ∃ b, x = some (a, b) := by
  obtain ⟨⟨_, b⟩, hx, rfl⟩ := Option.map_eq_some_iff.1 h
  exact ⟨b, hx⟩

theorem decodeStRpsSets_twoSets : ∃ ctx',
    decodeStRpsSets 2 [] twoSets = some (some [⟨0, []⟩, ⟨1, [(-1, true)]⟩], ctx') :=
  exists_rest (by decide +kernel)

theorem standardSets_twoSets : ∃ ctx', standardSets 2 [] twoSets =
    some ([.explicit [] [], .predicted 0 true 0 [(true, true)]], ctx') :=
  exists_rest (by decide +kernel)

/-- An SPS with one long-term picture. -/
def oneLongTerm : HEVCSPS where
  spsId := 0
  log2MaxPocLsb := 4
  numReorderPics := 0
  longTermRefPics := some [(3, true)]

/-- The sets of an SPS with a predicted set, and long-term entries with most significant bits from
    the SPS and from the slice header. -/
theorem rps_candidates_twoSets :
    (∃ l ctx', standardSets 2 [] twoSets = some (l, ctx') ∧
      [⟨0, []⟩, ⟨1, [(-1, true)]⟩] = candidateSets [] l) ∧
    decodeLtRps oneLongTerm 100 4
      { sps := [(0, some 1)], slice := [⟨5, true, some 1⟩, ⟨6, true, none⟩] } =
      [(83, true), (85, true), (6, true)] := by
  obtain ⟨ctx', h⟩ := decodeStRpsSets_twoSets
  obtain ⟨hsets, -, -, hlt⟩ := rps_candidates [] twoSets ctx'
  obtain ⟨ctx'', h'⟩ := standardSets_twoSets
  refine ⟨?_, (hlt _ _ _ _ rfl (by decide)).2 ⟨by decide, fun hc => absurd hc.1 nofun⟩⟩
  have hregular : AllRegular [] [.explicit [] [], .predicted 0 true 0 [(true, true)]] := by
    refine ⟨nofun, ⟨by decide, fun e he _ => ?_⟩, trivial⟩
    obtain rfl := mem_singleton.1 he
    exact ⟨by decide, by decide⟩
  obtain ⟨l, hl, hout⟩ := (hsets 2 _ h).2 ⟨_, ctx'', h', hregular⟩
  exact ⟨l, ctx', hl, Option.some_inj.1 hout⟩

/-- A prediction that moves the picture before to the picture itself, and long-term entries of which
    the first one of the slice header has no most significant bits. -/
theorem rps_not_candidates :
    (¬∀ l ctx rps ctx', decodeShortTermRps (candidateSets [] l) true ctx = some (some rps, ctx') →
      rps.WellFormed) ∧
    ¬∀ sps poc picOrderCntLsb c, sps.longTermRefPics.isSome → (c.entries sps).length ≤ 32 →
      decodeLtRps sps poc picOrderCntLsb c = ltCandidates sps poc picOrderCntLsb c := by
  constructor
  · intro h
    obtain ⟨ctx', hself⟩ : ∃ ctx', decodeShortTermRps
        (candidateSets [] [.explicit [] [], .predicted 0 true 0 [(true, true)]]) true
        (mppSetBitreadCtx [0xdc]) = some (some ⟨0, [(0, true), (1, true)]⟩, ctx') :=
      exists_rest (by decide +kernel)
    exact absurd ((h _ _ _ _ hself).positive 0 mem_cons_self) (lt_irrefl 0)
  · intro h
    refine absurd (h oneLongTerm 100 4
      { sps := [(0, some 1)], slice := [⟨5, true, none⟩, ⟨6, true, some 1⟩] } rfl (by decide)) ?_
    decide

end Libmpp.H265d
