import Mathlib

/-!
# Trees that spell words

A tree with a letter on each link, and a word, its *tag*, on each node. A node is spelled
by the letters and tags on the way to it from the root (`Radix.Spells`).

* Where links have one parent each, a node is spelled in one way (`Radix.Spells.inj`).
* A node without a tag, and with a single link, can be merged with the one behind it: the
  letter of the link becomes part of the tag, and all words but those of the merged node stay
  (`Radix.Spells.merge`).
* Nodes can be renamed, and links added (`Radix.Spells.map`).
-/

namespace Libmpp

/-- A tree by its links, and the tags of its nodes. -/
structure Radix (ι K : Type*) where
  root : ι
  Child : ι → K → ι → Prop
  Tag : ι → List K → Prop

namespace Radix

variable {ι κ K : Type*}

/-- The letters and tags on the way to a node. -/
inductive Spells (T : Radix ι K) : List K → ι → Prop
  | root : Spells T [] T.root
  | snoc {w : List K} {i : ι} {k : K} {j : ι} {t : List K} :
      Spells T w i → T.Child i k j → T.Tag j t → Spells T (w ++ k :: t) j

/-- No node is behind two others, and none has two tags. -/
structure Wired (T : Radix ι K) : Prop where
  root : ∀ i k, ¬T.Child i k T.root
  parent : ∀ {i k i' k' j}, T.Child i k j → T.Child i' k' j → i = i' ∧ k = k'
  tag : ∀ {j t t'}, T.Tag j t → T.Tag j t' → t = t'

variable {T : Radix ι K}

/-- A node is spelled in one way. -/
theorem Spells.inj (hT : T.Wired) {w w' : List K} {j : ι} (h : T.Spells w j)
    (h' : T.Spells w' j) : w = w' := by
  induction h generalizing w' with
  | root =>
    cases h' with
    | root => rfl
    | snoc _ hchild _ => exact absurd hchild (hT.root _ _)
  | snoc hw hchild htag ih =>
    cases h' with
    | root => exact absurd hchild (hT.root _ _)
    | snoc hw' hchild' htag' =>
      obtain ⟨rfl, rfl⟩ := hT.parent hchild hchild'
      rw [ih hw', hT.tag htag htag']

/-- Only the root is spelled by nothing. -/
theorem Spells.eq_root {w : List K} {j : ι} (h : T.Spells w j) (hw : w = []) : j = T.root := by
  cases h with
  | root => rfl
  | snoc => exact absurd hw (List.append_ne_nil_of_right_ne_nil _ (List.cons_ne_nil _ _))

/-- The first letter of a word is that of a link from the root. -/
theorem Spells.first {k : K} {w : List K} {j : ι} (h : T.Spells (k :: w) j) :
    ∃ i, T.Child T.root k i := by
  generalize hv : k :: w = v at h
  induction h generalizing w with
  | root => exact absurd hv (List.cons_ne_nil k w)
  | @snoc u i k' j t hu hchild htag ih =>
    cases u with
    | nil =>
      rw [List.nil_append, List.cons.injEq] at hv
      rw [hu.eq_root rfl] at hchild
      exact ⟨j, hv.1 ▸ hchild⟩
    | cons a u =>
      rw [List.cons_append, List.cons.injEq] at hv
      exact ih (by rw [hv.1])

/-- Words stay when nodes are renamed, and links added. -/
theorem Spells.map {T' : Radix κ K} (f : ι → κ) (hroot : f T.root = T'.root)
    (hchild : ∀ i k j, T.Child i k j → T'.Child (f i) k (f j))
    (htag : ∀ i k j t, T.Child i k j → T.Tag j t → T'.Tag (f j) t) {w : List K} {j : ι}
    (h : T.Spells w j) : T'.Spells w (f j) := by
  induction h with
  | root =>
    rw [hroot]
    exact .root
  | snoc _ hc ht ih => exact .snoc ih (hchild _ _ _ hc) (htag _ _ _ _ hc ht)

/-- The node `i` behind `p` is merged into it. Words that end at `p` itself are lost: they
    end at a letter that is now followed by a tag. -/
theorem Spells.merge [DecidableEq ι] {T' : Radix ι K} {p i : ι} {c : K}
    (hroot : T'.root = T.root) (hp : p ≠ T.root) (hi : i ≠ T.root) (hne : i ≠ p)
    (hparent : ∀ a k, T.Child a k i → a = p ∧ k = c) (hsingle : ∀ k b, T.Child p k b → b = i)
    (hnil : ∀ t, T.Tag p t → t = [])
    (hchild : ∀ a k b, T.Child a k b → a ≠ p → T'.Child (if a = i then p else a) k b)
    (htag : ∀ b t, T.Tag b t → b ≠ p → b ≠ i → T'.Tag b t)
    (htag' : ∀ t, T.Tag i t → T'.Tag p (c :: t)) {w : List K} {l : ι} (h : T.Spells w l) :
    (l ≠ p → T'.Spells w (if l = i then p else l)) ∧
      (l = p → ∃ w₀ a k, w = w₀ ++ [k] ∧ T'.Spells w₀ a ∧ T'.Child a k p) := by
  induction h with
  | root =>
    refine ⟨fun _ => ?_, fun h => absurd h.symm hp⟩
    rw [if_neg hi.symm, ← hroot]
    exact .root
  | @snoc w a k b t hw hc ht ih =>
    by_cases ha : a = p
    · -- behind `p` there is only `i`
      subst ha
      obtain rfl := hsingle k b hc
      obtain ⟨-, rfl⟩ := hparent _ _ hc
      obtain ⟨w₀, a', k', rfl, hw₀, hc'⟩ := ih.2 rfl
      refine ⟨fun _ => ?_, fun h => absurd h hne⟩
      rw [if_pos rfl, List.append_assoc, List.singleton_append]
      exact .snoc hw₀ hc' (htag' t ht)
    · have hbi : b ≠ i := by
        rintro rfl
        exact ha (hparent a k hc).1
      have hw' := ih.1 ha
      have hc' := hchild a k b hc ha
      refine ⟨fun hb => ?_, ?_⟩
      · rw [if_neg hbi]
        exact .snoc hw' hc' (htag b t ht hb hbi)
      · rintro rfl
        rw [hnil t ht]
        exact ⟨w, _, k, rfl, hw', hc'⟩

end Radix

end Libmpp
