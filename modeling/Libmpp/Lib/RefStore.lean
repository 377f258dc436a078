import Mathlib

/-!
# Stores of reference frames

A reference store keeps frames of two classes: the *short-term* frames, the most
recent first, and the *long-term* frames, one for each key.

* A short-term frame is pushed in front; past the capacity the oldest one is lost
  (`pushSt`).
* A long-term frame takes the place of the frame with its key, or else comes
  last (`putLt`).
* Of a store, a buffer of `d` frames shows a *window*: the long-term frames, then
  as many of the most recent short-term frames as fit (`window`).

The frames are of an arbitrary type `F`, the keys of a type `K`.
-/

namespace Libmpp

open List

/-- A store of reference frames. -/
structure RefStore (F : Type*) where
  st : List F
  lt : List F

namespace RefStore

variable {F K : Type*}

/-- The empty store. -/
def empty : RefStore F := ⟨[], []⟩

/-- Push a short-term frame into a store that keeps `cap` of them. -/
def pushSt (cap : ℕ) (f : F) (s : RefStore F) : RefStore F :=
  { s with st := (f :: s.st).take cap }

/-- Put `f` in the place of the element with its key, or last. -/
def putKey [DecidableEq K] (key : F → K) (f : F) : List F → List F
  | [] => [f]
  | g :: l => if key g = key f then f :: l else g :: putKey key f l

/-- Put a long-term frame. -/
def putLt [DecidableEq K] (key : F → K) (f : F) (s : RefStore F) : RefStore F :=
  { s with lt := putKey key f s.lt }

/-- What a buffer of `d` frames shows of the store. -/
def window (d : ℕ) (s : RefStore F) : List F := s.lt ++ s.st.take (d - s.lt.length)

/-! ## Pushing -/

theorem length_pushSt_le (cap : ℕ) (f : F) (s : RefStore F) : (s.pushSt cap f).st.length ≤ cap :=
  length_take_le _ _

theorem mem_pushSt_st {cap : ℕ} {f g : F} {s : RefStore F} (hg : g ∈ (s.pushSt cap f).st) :
    g = f ∨ g ∈ s.st :=
  mem_cons.1 (mem_of_mem_take hg)

/-- Pushing keeps the short-term frames in order. -/
theorem pairwise_pushSt {R : F → F → Prop} {cap : ℕ} {f : F} {s : RefStore F}
    (hs : s.st.Pairwise R) (hf : ∀ g ∈ s.st, R f g) : (s.pushSt cap f).st.Pairwise R :=
  (pairwise_cons.2 ⟨hf, hs⟩).sublist (take_sublist _ _)

/-! ## Putting -/

section Key

variable [DecidableEq K] {key : F → K} {f g : F} {l : List F}

/-- Putting changes the list at one place only: where the key is found, or at
    the end. -/
theorem getElem?_putKey (j : ℕ) :
    (putKey key f l)[j]? = if j = l.findIdx (fun g => key g = key f) then some f else l[j]? := by
  induction l generalizing j with
  | nil => cases j <;> simp [putKey]
  | cons g l ih =>
    rw [putKey, findIdx_cons]
    by_cases hk : key g = key f
    · cases j <;> simp [hk]
    · cases j <;> simp [hk, ih]

theorem mem_putKey (hg : g ∈ putKey key f l) : g = f ∨ g ∈ l := by
  obtain ⟨j, hj⟩ := mem_iff_getElem?.1 hg
  rw [getElem?_putKey] at hj
  split_ifs at hj with h
  · exact .inl (Option.some.inj hj).symm
  · exact .inr (mem_of_getElem? hj)

/-- The keys are those of the list and the new one. -/
theorem mem_map_putKey {k : K} : k ∈ (putKey key f l).map key ↔ k = key f ∨ k ∈ l.map key := by
  induction l with
  | nil => simp [putKey]
  | cons h l ih =>
    rw [putKey]
    split_ifs with hk
    · simp [hk]
    · simp only [map_cons, mem_cons, ih]
      tauto

/-- Putting keeps the keys distinct. -/
theorem nodup_map_putKey (hl : (l.map key).Nodup) : ((putKey key f l).map key).Nodup := by
  induction l with
  | nil => simp [putKey]
  | cons h l ih =>
    rw [map_cons, nodup_cons] at hl
    rw [putKey]
    split_ifs with hk
    · rw [map_cons, nodup_cons, ← hk]
      exact hl
    · rw [map_cons, nodup_cons, mem_map_putKey]
      exact ⟨not_or.2 ⟨hk, hl.1⟩, ih hl.2⟩

/-- The new frame is found under its key. -/
theorem find?_putKey_self : (putKey key f l).find? (fun g => key g = key f) = some f := by
  induction l with
  | nil => simp [putKey]
  | cons h l ih =>
    rw [putKey]
    split_ifs with hk
    · simp
    · rw [find?_cons_of_neg (by simpa using hk), ih]

/-- What is found under another key is left alone. -/
theorem find?_putKey_of_ne {k : K} (hk : k ≠ key f) :
    (putKey key f l).find? (fun g => key g = k) = l.find? (fun g => key g = k) := by
  induction l with
  | nil => simpa [putKey] using hk.symm
  | cons h l ih =>
    rw [putKey]
    split_ifs with hh
    · rw [find?_cons_of_neg (by simpa using hk.symm),
        find?_cons_of_neg (by simpa [hh] using hk.symm)]
    · simp only [find?_cons, ih]

theorem length_putKey_of_mem (h : key f ∈ l.map key) : (putKey key f l).length = l.length := by
  induction l with
  | nil => simp at h
  | cons g l ih =>
    rw [putKey]
    split_ifs with hk
    · rfl
    · rw [length_cons, length_cons, ih ?_]
      rw [map_cons, mem_cons] at h
      exact h.resolve_left (Ne.symm hk)

/-- A frame under a new key comes last. -/
theorem putKey_of_not_mem (h : key f ∉ l.map key) : putKey key f l = l ++ [f] := by
  induction l with
  | nil => rfl
  | cons g l ih =>
    rw [map_cons, mem_cons, not_or] at h
    rw [putKey, if_neg (Ne.symm h.1), ih h.2, cons_append]

end Key

/-! ## Slots -/

/-- Slots packed with the elements of `l`, all of which `p` holds of, and with
    nothing `p` holds of behind them: the first `n` slots show the first `n`
    elements. -/
theorem filter_slots {slot : ℕ → F} {p : F → Bool} {l : List F} {n : ℕ}
    (hin : ∀ i (hi : i < l.length), i < n → slot i = l[i]) (hp : ∀ f ∈ l, p f)
    (hout : ∀ i, l.length ≤ i → i < n → ¬p (slot i)) :
    ((List.range n).map slot).filter p = l.take n := by
  induction n with
  | zero => simp
  | succ n ih =>
    rw [range_succ, map_append, filter_append,
      ih (fun i hi hin' => hin i hi (hin'.trans n.lt_succ_self))
        (fun i hi hin' => hout i hi (hin'.trans n.lt_succ_self))]
    by_cases hn : n < l.length
    · rw [take_succ_eq_append_getElem hn]
      have := hp l[n] (getElem_mem hn)
      simp [hin n hn n.lt_succ_self, this]
    · have := hout n (not_lt.1 hn) n.lt_succ_self
      rw [take_of_length_le (not_lt.1 hn),
        take_of_length_le ((not_lt.1 hn).trans n.le_succ)]
      simp [this]

/-- The frames of a window: those of the store, as far as they fit. -/
theorem length_window (d : ℕ) (s : RefStore F) :
    (window d s).length = s.lt.length + min (d - s.lt.length) s.st.length := by
  rw [window, length_append, length_take]

@[simp] theorem window_empty (d : ℕ) : window d (empty : RefStore F) = [] := by
  simp [window, empty]

theorem mem_window {d : ℕ} {s : RefStore F} {f : F} :
    f ∈ window d s ↔ f ∈ s.lt ∨ f ∈ s.st.take (d - s.lt.length) :=
  mem_append

/-! ## How a window moves -/

/-- A window that is not full shows all short-term frames, and has room for one more. -/
theorem take_st_of_not_full {d : ℕ} {s : RefStore F} (h : (window d s).length < d) :
    s.st.take (d - s.lt.length) = s.st ∧ s.st.length < d - s.lt.length := by
  rw [length_window] at h
  have : s.st.length < d - s.lt.length := by omega
  exact ⟨take_of_length_le this.le, this⟩

/-- Pushed into a window that is not full, a frame joins those shown. -/
theorem window_pushSt_of_not_full {cap d : ℕ} {s : RefStore F} (hcap : d ≤ cap)
    (h : (window d s).length < d) (f : F) :
    window d (s.pushSt cap f) = s.lt ++ f :: s.st.take (d - s.lt.length) := by
  obtain ⟨htake, hlen⟩ := take_st_of_not_full h
  rw [window, pushSt, htake, take_take]
  dsimp only
  rw [take_of_length_le]
  rw [length_cons]
  omega

/-- Pushed into a full window, a frame takes the place of the oldest one: of the
    frame itself and the short-term frames shown, the last is lost. -/
theorem window_pushSt_of_full {cap d : ℕ} {s : RefStore F} (hcap : d ≤ cap)
    (h : (window d s).length = d) (f : F) :
    ∃ l e, f :: s.st.take (d - s.lt.length) = l ++ [e] ∧
      window d (s.pushSt cap f) = s.lt ++ l := by
  rw [length_window] at h
  have hlen : d - s.lt.length ≤ s.st.length := by omega
  obtain ⟨l, e, hle⟩ := eq_nil_or_concat (f :: s.st.take (d - s.lt.length)) |>.resolve_left
    (cons_ne_nil _ _)
  rw [concat_eq_append] at hle
  refine ⟨l, e, hle, ?_⟩
  rw [window, pushSt, take_take, min_eq_left (by omega)]
  congr 1
  -- both sides are the frames shown without the last
  have htake : (f :: s.st).take (d - s.lt.length) =
      (f :: s.st.take (d - s.lt.length)).take (d - s.lt.length) := by
    cases hk : d - s.lt.length with
    | zero => rfl
    | succ k =>
      rw [take_succ_cons, take_succ_cons, take_take, min_eq_left (Nat.le_succ k)]
  have hl : l.length = d - s.lt.length := by
    have := congrArg List.length hle
    rw [length_cons, length_take, length_append, length_singleton] at this
    omega
  rw [htake, hle, take_append_of_le_length hl.ge, ← hl, take_length]

section Key

variable [DecidableEq K] {key : F → K} {f : F} {d : ℕ} {s : RefStore F}

/-- A frame put under a key that is held changes the long-term frames only. -/
theorem window_putLt_of_mem (h : key f ∈ s.lt.map key) :
    window d (s.putLt key f) = putKey key f s.lt ++ s.st.take (d - s.lt.length) := by
  rw [window, putLt, length_putKey_of_mem h]

/-- A frame put under a new key joins the frames of a window that is not full. -/
theorem window_putLt_of_not_full (h : key f ∉ s.lt.map key) (hd : (window d s).length < d) :
    window d (s.putLt key f) = s.lt ++ f :: s.st.take (d - s.lt.length) := by
  obtain ⟨htake, hlen⟩ := take_st_of_not_full hd
  rw [window, putLt, putKey_of_not_mem h, htake]
  dsimp only
  rw [length_append, length_singleton, take_of_length_le (by omega),
    append_assoc, singleton_append]

/-- A frame put under a new key into a full window takes the place of the oldest
    short-term frame shown. -/
theorem window_putLt_of_full (h : key f ∉ s.lt.map key) (hd : (window d s).length = d)
    (hroom : s.lt.length < d) :
    ∃ l e, s.st.take (d - s.lt.length) = l ++ [e] ∧
      window d (s.putLt key f) = s.lt ++ f :: l := by
  rw [length_window] at hd
  have hlen : d - s.lt.length ≤ s.st.length := by omega
  have hne : s.st.take (d - s.lt.length) ≠ [] := by
    intro hnil
    have := congrArg List.length hnil
    rw [length_take, length_nil] at this
    omega
  obtain ⟨l, e, hle⟩ := (eq_nil_or_concat _).resolve_left hne
  rw [concat_eq_append] at hle
  refine ⟨l, e, hle, ?_⟩
  have hl : l.length = d - (s.lt.length + 1) := by
    have := congrArg List.length hle
    rw [length_take, length_append, length_singleton] at this
    omega
  have htake : s.st.take (d - (s.lt.length + 1)) = l := by
    have : s.st.take (d - (s.lt.length + 1)) =
        (s.st.take (d - s.lt.length)).take (d - (s.lt.length + 1)) := by
      rw [take_take, min_eq_left (by omega)]
    rw [this, hle, take_append_of_le_length hl.ge, ← hl, take_length]
  rw [window, putLt, putKey_of_not_mem h]
  dsimp only
  rw [length_append, length_singleton, htake, append_assoc, singleton_append]

/-- What a list with distinct keys holds after putting. -/
theorem mem_putKey_iff {g : F} {l : List F} (hl : (l.map key).Nodup) :
    g ∈ putKey key f l ↔ g = f ∨ (g ∈ l ∧ key g ≠ key f) := by
  induction l with
  | nil => simp [putKey]
  | cons h l ih =>
    rw [map_cons, nodup_cons] at hl
    rw [putKey]
    split_ifs with hk
    · have hnot : ∀ g ∈ l, key g ≠ key f := fun g hg he =>
        hl.1 (mem_map.2 ⟨g, hg, by rw [he, hk]⟩)
      simp only [mem_cons]
      constructor
      · rintro (rfl | hg)
        · exact .inl rfl
        · exact .inr ⟨.inr hg, hnot g hg⟩
      · rintro (rfl | ⟨rfl | hg, hne⟩)
        · exact .inl rfl
        · exact absurd hk hne
        · exact .inr hg
    · simp only [mem_cons, ih hl.2]
      constructor
      · rintro (rfl | rfl | ⟨hg, hne⟩)
        · exact .inr ⟨.inl rfl, hk⟩
        · exact .inl rfl
        · exact .inr ⟨.inr hg, hne⟩
      · rintro (rfl | ⟨rfl | hg, hne⟩)
        · exact .inr (.inl rfl)
        · exact .inl rfl
        · exact .inr (.inr ⟨hg, hne⟩)

end Key

end RefStore

end Libmpp
