import Mathlib

/-!
# Ledgers

A ledger counts what has been acquired and what has been released, one entry for each
unit: an allocation, a reference, a call that is due once. Over a part of a run the
books are *settled* (`Settles`) when what was held at its start and what was acquired
since has been released, each unit exactly once.

A part that acquires `a` and then releases `r` settles what was held if and only if `r`
is what was held and `a` together (`settles_acquire_release`).
-/

namespace Libmpp

/-- What has been acquired, and what has been released -/
@[ext]
structure Ledger (R : Type*) where
  acquired : Multiset R
  released : Multiset R

namespace Ledger

variable {R : Type*}

/-- Nothing acquired, nothing released -/
def empty : Ledger R := ⟨0, 0⟩

def acquire (a : Multiset R) (l : Ledger R) : Ledger R := { l with acquired := l.acquired + a }

def release (r : Multiset R) (l : Ledger R) : Ledger R := { l with released := l.released + r }

@[simp]
theorem acquired_acquire (a : Multiset R) (l : Ledger R) :
    (l.acquire a).acquired = l.acquired + a := rfl

@[simp]
theorem released_acquire (a : Multiset R) (l : Ledger R) : (l.acquire a).released = l.released :=
  rfl

@[simp]
theorem acquired_release (r : Multiset R) (l : Ledger R) : (l.release r).acquired = l.acquired :=
  rfl

@[simp]
theorem released_release (r : Multiset R) (l : Ledger R) :
    (l.release r).released = l.released + r := rfl

theorem release_zero (l : Ledger R) : l.release 0 = l := by
  rw [release, add_zero]

theorem acquire_zero (l : Ledger R) : l.acquire 0 = l := by
  rw [acquire, add_zero]

theorem release_release (r r' : Multiset R) (l : Ledger R) :
    (l.release r).release r' = l.release (r + r') := by
  rw [release, release, release, add_assoc]

theorem acquire_acquire (a a' : Multiset R) (l : Ledger R) :
    (l.acquire a).acquire a' = l.acquire (a + a') := by
  rw [acquire, acquire, acquire, add_assoc]

/-- From `l` to `l'`, what was held and what was acquired has been released, each unit once. -/
def Settles (held : Multiset R) (l l' : Ledger R) : Prop :=
  l'.released + l.acquired = l.released + held + l'.acquired

/-- Nothing done, nothing held. -/
theorem Settles.refl (l : Ledger R) : Settles 0 l l := by
  rw [Settles, add_zero]

/-- The books settle exactly when what is released is what was held and what was acquired. -/
theorem settles_acquire_release {held a r : Multiset R} {l : Ledger R} :
    Settles held l ((l.acquire a).release r) ↔ r = held + a := by
  have hassoc : l.released + r + l.acquired = (l.released + l.acquired) + r := by abel
  have hassoc' : l.released + held + (l.acquired + a) = (l.released + l.acquired) + (held + a) := by
    abel
  rw [Settles, released_release, released_acquire, acquired_release, acquired_acquire, hassoc,
    hassoc']
  exact add_right_inj _

end Ledger

end Libmpp
