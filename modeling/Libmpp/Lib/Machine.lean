import Mathlib

/-!
# State machines

A *machine* on the states `S` takes steps labelled by `A`. Its reachable states
are those it gets to from an initial state, and a property that holds initially
and is preserved by the steps holds of all of them (`Reachable.invariant`).

* `Machine.ofPartial` is the machine of a partial operation: a step from `s` by
  `a` exists when the operation is defined there.
* `Machine.guarded` keeps the steps that meet a condition; what it reaches, the
  machine reaches (`Reachable.of_guarded`).
* `Machine.run` computes along a list of labels, through reachable states
  (`Reachable.run`).
-/

namespace Libmpp

/-- A labelled transition system with initial states. -/
structure Machine (S A : Type*) where
  init : S → Prop
  step : S → A → S → Prop

namespace Machine

variable {S A : Type*}

/-- The states reachable from an initial one. -/
inductive Reachable (m : Machine S A) : S → Prop
  | init {s : S} : m.init s → Reachable m s
  | step {s s' : S} {a : A} : Reachable m s → m.step s a s' → Reachable m s'

variable {m : Machine S A} {s : S}

/-- A property of the initial states that the steps between reachable states
    preserve holds of every reachable state. -/
theorem Reachable.invariant {P : S → Prop} (hinit : ∀ s, m.init s → P s)
    (hstep : ∀ s a s', m.Reachable s → P s → m.step s a s' → P s') (hs : m.Reachable s) : P s := by
  induction hs with
  | init h => exact hinit _ h
  | step hr hst ih => exact hstep _ _ _ hr ih hst

/-- The machine of a partial operation, from the state `s₀`. -/
def ofPartial (s₀ : S) (op : S → A → Option S) : Machine S A where
  init s := s = s₀
  step s a s' := op s a = some s'

/-- The machine with the steps that meet `g`. -/
def guarded (m : Machine S A) (g : S → A → S → Prop) : Machine S A where
  init := m.init
  step s a s' := m.step s a s' ∧ g s a s'

variable {g : S → A → S → Prop}

theorem Reachable.of_guarded (hs : (m.guarded g).Reachable s) : m.Reachable s := by
  induction hs with
  | init h => exact .init h
  | step _ hst ih => exact .step ih hst.1

theorem Reachable.mono {g' : S → A → S → Prop} (hg : ∀ s a s', g s a s' → g' s a s')
    (hs : (m.guarded g).Reachable s) : (m.guarded g').Reachable s := by
  induction hs with
  | init h => exact .init h
  | step _ hst ih => exact .step ih ⟨hst.1, hg _ _ _ hst.2⟩

/-- The run of a partial operation on a list of labels, as long as its steps meet `g`. -/
def run (op : S → A → Option S) (g : S → A → S → Prop) [∀ s a s', Decidable (g s a s')] :
    S → List A → Option S
  | s, [] => some s
  | s, a :: l =>
    match op s a with
    | some s' => if g s a s' then run op g s' l else none
    | none => none

/-- What a run gets to is reachable. -/
theorem Reachable.run {op : S → A → Option S} [∀ s a s', Decidable (g s a s')] {s₀ s' : S}
    {l : List A} (hs : ((ofPartial s₀ op).guarded g).Reachable s)
    (h : Machine.run op g s l = some s') : ((ofPartial s₀ op).guarded g).Reachable s' := by
  induction l generalizing s with
  | nil =>
    obtain rfl := Option.some.inj h
    exact hs
  | cons a l ih =>
    rw [Machine.run] at h
    split at h
    · rename_i s₁ hop
      split_ifs at h with hg
      exact ih (.step hs ⟨hop, hg⟩) h
    · exact absurd h (by simp)

end Machine

end Libmpp
