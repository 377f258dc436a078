import Libmpp.Lib.Filing

/-!
# Items in lists and in hands

Items that go between lists and the hands of parties: an item is at home, or in one list,
or in the hand of one party, which holds it in some way (`Place`). `Placed` ties the place
of each item to the lists and the hands, so that an item is never in two of them.

* `pick` takes an item out of its list into a hand, `put` puts it into a list, `take` and
  `leave` go between home and a hand, and `turn` changes how it is held.
* `Placed.filed` is the part about the lists.
-/

namespace Libmpp

open Function

/-- Where an item is: held by one of `G` in a way `M`, or linked in a list `K`. -/
inductive Place (G M K : Type*)
  | home
  | held (g : G) (m : M)
  | linked (k : K)
  deriving DecidableEq

namespace Place

variable {G M K : Type*}

/-- The list of an item that is linked -/
def list : Place G M K → Option K
  | .linked k => some k
  | _ => none

theorem list_eq_some {p : Place G M K} {k : K} : p.list = some k ↔ p = .linked k := by
  cases p <;> simp [list]

end Place

variable {ι G M K : Type*}

/-- Each item is in its place only. -/
structure Placed (lists : K → List ι) (hand : G → Option (ι × M)) (place : ι → Place G M K) :
    Prop where
  filed : Filed lists fun i => (place i).list
  hand_iff : ∀ g i m, hand g = some (i, m) ↔ place i = .held g m

namespace Placed

variable {lists : K → List ι} {hand : G → Option (ι × M)} {place : ι → Place G M K}
  {i : ι} {g : G} {m : M} {k : K}

theorem empty : Placed (fun _ : K => ([] : List ι)) (fun _ : G => (none : Option (ι × M)))
    fun _ => .home where
  filed := Filed.empty
  hand_iff _ _ _ := by simp

theorem mem_iff (h : Placed lists hand place) : i ∈ lists k ↔ place i = .linked k :=
  (h.filed.mem_iff i k).trans Place.list_eq_some

variable [DecidableEq ι]

theorem list_update (place : ι → Place G M K) (i : ι) (p : Place G M K) :
    (fun j => (update place i p j).list) =
      update (fun j => (place j).list) i p.list := by
  funext j
  by_cases hj : j = i
  · subst hj
    rw [update_self, update_self]
  · rw [update_of_ne hj, update_of_ne hj]

/-- What happens to an item that is in no list and stays so. -/
theorem filed_of_unlinked (h : Placed lists hand place) {p : Place G M K}
    (hi : (place i).list = none) (hp : p.list = none) :
    Filed lists fun j => (update place i p j).list := by
  rw [list_update, hp, update_eq_self_iff.2 hi.symm]
  exact h.filed

variable [DecidableEq G]

/-- Only what `g` does with `i` changes: `g` has nothing else in hand, nobody else has `i`,
    and then `g` has it as `x` says. -/
theorem hand_update (h : Placed lists hand place) {x : Option M} {p : Place G M K}
    (hg : ∀ j m, hand g = some (j, m) → j = i) (hi : ∀ g' m, place i = .held g' m → g' = g)
    (hp : ∀ g' m, p = .held g' m ↔ g' = g ∧ x = some m) (g' : G) (j : ι) (m : M) :
    update hand g (x.map (i, ·)) g' = some (j, m) ↔
      update place i p j = .held g' m := by
  rcases eq_or_ne g' g with rfl | hg'
  · rw [update_self]
    rcases eq_or_ne j i with rfl | hj
    · rw [update_self, hp]
      cases x <;> simp
    · rw [update_of_ne hj, ← h.hand_iff]
      constructor
      · cases x <;> simp [hj.symm]
      · exact fun hx => absurd (hg j m hx) hj
  · rw [update_of_ne hg', h.hand_iff]
    rcases eq_or_ne j i with rfl | hj
    · rw [update_self, hp]
      exact ⟨fun hx => absurd (hi g' m hx) hg', fun hx => absurd hx.1 hg'⟩
    · rw [update_of_ne hj]

/-- An item goes from its list into a hand. -/
theorem pick (h : Placed lists hand place) (hi : place i = .linked k) (hg : hand g = none)
    (m : M) :
    Placed (unfile i lists) (update hand g (some (i, m)))
      (update place i (.held g m)) where
  filed := by
    rw [list_update]
    exact h.filed.unfile i
  hand_iff := h.hand_update (x := some m) (fun _ _ hx => absurd (hg.symm.trans hx) (by simp))
    (fun _ _ hx => absurd (hi.symm.trans hx) (by simp)) fun g' m' => by
      rw [Place.held.injEq, Option.some.injEq, eq_comm (a := g)]

/-- A party puts the item it holds at the end of a list. -/
theorem put [DecidableEq K] (h : Placed lists hand place) (hg : hand g = some (i, m)) (k : K) :
    Placed (file i k lists) (update hand g none)
      (update place i (.linked k)) where
  filed := by
    rw [list_update]
    refine h.filed.file ?_ k
    rw [(h.hand_iff g i m).1 hg]
    rfl
  hand_iff := h.hand_update (x := none)
    (fun _ _ hx => (congrArg Prod.fst (Option.some.inj (hg.symm.trans hx))).symm)
    (fun g' m' hx => by
      rw [(h.hand_iff g i m).1 hg, Place.held.injEq] at hx
      exact hx.1.symm)
    fun _ _ => by simp

/-- A party takes an item from home. -/
theorem take (h : Placed lists hand place) (hi : place i = .home) (hg : hand g = none) (m : M) :
    Placed lists (update hand g (some (i, m)))
      (update place i (.held g m)) where
  filed := h.filed_of_unlinked (by rw [hi]; rfl) rfl
  hand_iff := h.hand_update (x := some m) (fun _ _ hx => absurd (hg.symm.trans hx) (by simp))
    (fun _ _ hx => absurd (hi.symm.trans hx) (by simp)) fun g' m' => by
      rw [Place.held.injEq, Option.some.injEq, eq_comm (a := g)]

/-- A party that holds an item brings it to another place outside the lists. -/
theorem bring (h : Placed lists hand place) (hg : hand g = some (i, m)) {x : Option M}
    {p : Place G M K} (hp : p.list = none) (hx : ∀ g' m, p = .held g' m ↔ g' = g ∧ x = some m) :
    Placed lists (update hand g (x.map (i, ·))) (update place i p) where
  filed := h.filed_of_unlinked (by rw [(h.hand_iff g i m).1 hg]; rfl) hp
  hand_iff := h.hand_update
    (fun _ _ hx => (congrArg Prod.fst (Option.some.inj (hg.symm.trans hx))).symm)
    (fun g' m' hx => by
      rw [(h.hand_iff g i m).1 hg, Place.held.injEq] at hx
      exact hx.1.symm) hx

end Placed

end Libmpp
