import Mathlib

/-!
# Lives of resources

Resources are taken, used and given back again, and a log keeps the operations on all of
them. The operations on a resource while it is taken are a *life* of it. The log is
*covered* (`Covers`) when, for every resource, it holds the whole lives of those who had
it, in their order, and behind them the part of a life of the one who has it now, if
there is one.

* `Covers.take`, `Covers.extend` and `Covers.giveBack` are the rules for the log when a
  life begins, goes on and ends.
* When no resource is taken, the log of each is a sequence of whole lives
  (`Covers.whole`).
-/

namespace Libmpp.Lives

open List

variable {σ α ω : Type*} [DecidableEq σ]

/-- The part of a life that was lived: of which resource, by whom, and its operations. -/
structure Tenure (σ α ω : Type*) where
  slot : σ
  holder : α
  part : List ω

/-- The operations on a resource. -/
def ofSlot (slot : ω → σ) (log : List ω) (s : σ) : List ω := log.filter (slot · = s)

/-- Those who had a resource. -/
def holders (past : List (σ × α)) (s : σ) : List α := (past.filter (·.1 = s)).map Prod.snd

section OfSlot

variable {slot : ω → σ} {log ops : List ω} {past : List (σ × α)} {s : σ}

theorem ofSlot_append_same (h : ∀ o ∈ ops, slot o = s) :
    ofSlot slot (log ++ ops) s = ofSlot slot log s ++ ops := by
  rw [ofSlot, filter_append]
  congr 1
  exact filter_eq_self.2 fun o ho => decide_eq_true (h o ho)

theorem ofSlot_append_other {s' : σ} (h : ∀ o ∈ ops, slot o = s') (hs : s ≠ s') :
    ofSlot slot (log ++ ops) s = ofSlot slot log s := by
  have hnil : ops.filter (slot · = s) = [] := by
    refine filter_eq_nil_iff.2 fun o ho => ?_
    rw [decide_eq_true_eq, h o ho]
    exact hs.symm
  rw [ofSlot, filter_append, hnil, append_nil]
  rfl

theorem holders_append_same (a : α) :
    holders (past ++ [(s, a)]) s = holders past s ++ [a] := by
  simp [holders]

theorem holders_append_other {s' : σ} (a : α) (hs : s ≠ s') :
    holders (past ++ [(s', a)]) s = holders past s := by
  simp [holders, hs.symm]

theorem count_ofSlot [DecidableEq ω] (slot : ω → σ) (log : List ω) (o : ω) :
    (ofSlot slot log (slot o)).count o = log.count o := count_filter (by simp)

theorem count_holders [DecidableEq α] (past : List (σ × α)) (s : σ) (a : α) :
    (holders past s).count a = past.count (s, a) := by
  induction past with
  | nil => rfl
  | cons x past ih =>
    obtain ⟨s', b⟩ := x
    rw [count_cons, ← ih]
    by_cases hs : s' = s
    · subst hs
      simp [holders, count_cons]
    · simp [holders, hs]

/-- An operation that each life has once is there once for each holder. -/
theorem count_flatMap_life [DecidableEq α] [DecidableEq ω] {life : α → List ω} {o : α → ω}
    (hlife : ∀ a b, (life b).count (o a) = if b = a then 1 else 0) (l : List α) (a : α) :
    (l.flatMap life).count (o a) = l.count a := by
  induction l with
  | nil => rfl
  | cons b l ih =>
    rw [flatMap_cons, count_append, hlife, ih, count_cons, add_comm]
    simp

end OfSlot

/-- The log holds whole lives and the parts of those who hold a resource. -/
structure Covers (slot : ω → σ) (life : σ → α → List ω) (log : List ω) (past : List (σ × α))
    (ts : List (Tenure σ α ω)) : Prop where
  nodup : (ts.map (·.slot)).Nodup
  held : ∀ t ∈ ts, ∃ before, holders past t.slot = before ++ [t.holder] ∧
    ofSlot slot log t.slot = before.flatMap (life t.slot) ++ t.part
  free : ∀ s, (∀ t ∈ ts, t.slot ≠ s) →
    ofSlot slot log s = (holders past s).flatMap (life s)

namespace Covers

variable {slot : ω → σ} {life : σ → α → List ω} {log ops : List ω} {past : List (σ × α)}
  {ts ts' : List (Tenure σ α ω)} {t : Tenure σ α ω}

theorem nil : Covers slot life [] [] [] where
  nodup := nodup_nil
  held _ ht := by cases ht
  free _ _ := rfl

/-- The log when no resource is taken. -/
theorem whole (h : Covers slot life log past []) (s : σ) :
    ofSlot slot log s = (holders past s).flatMap (life s) :=
  h.free s fun _ ht => by cases ht

theorem perm (h : Covers slot life log past ts) (hp : ts.Perm ts') :
    Covers slot life log past ts' where
  nodup := (hp.map _).nodup_iff.1 h.nodup
  held u hu := h.held u (hp.mem_iff.2 hu)
  free s hs := h.free s fun u hu => hs u (hp.mem_iff.1 hu)

/-- A life of a resource begins. -/
theorem take (h : Covers slot life log past ts) {s : σ} (hs : ∀ u ∈ ts, u.slot ≠ s) (a : α)
    (hops : ∀ o ∈ ops, slot o = s) :
    Covers slot life (log ++ ops) (past ++ [(s, a)]) (⟨s, a, ops⟩ :: ts) where
  nodup := by
    rw [map_cons, nodup_cons]
    refine ⟨fun hin => ?_, h.nodup⟩
    obtain ⟨u, hu, he⟩ := mem_map.1 hin
    exact hs u hu he
  held u hu := by
    rcases mem_cons.1 hu with rfl | hu
    · exact ⟨holders past s, holders_append_same a, by
        rw [ofSlot_append_same hops, h.free s hs]⟩
    · obtain ⟨before, hb, hl⟩ := h.held u hu
      exact ⟨before, (holders_append_other a (hs u hu)).trans hb,
        (ofSlot_append_other hops (hs u hu)).trans hl⟩
  free s' hs' := by
    have hne : s' ≠ s := (hs' _ mem_cons_self).symm
    rw [ofSlot_append_other hops hne, holders_append_other a hne]
    exact h.free s' fun u hu => hs' u (mem_cons_of_mem _ hu)

/-- A life goes on. -/
theorem extend (h : Covers slot life log past (t :: ts)) (hops : ∀ o ∈ ops, slot o = t.slot) :
    Covers slot life (log ++ ops) past ({ t with part := t.part ++ ops } :: ts) where
  nodup := h.nodup
  held u hu := by
    rcases mem_cons.1 hu with rfl | hu
    · obtain ⟨before, hb, hl⟩ := h.held t mem_cons_self
      exact ⟨before, hb, by rw [ofSlot_append_same hops, hl, append_assoc]⟩
    · obtain ⟨before, hb, hl⟩ := h.held u (mem_cons_of_mem _ hu)
      have hne : u.slot ≠ t.slot := by
        have hn := h.nodup
        rw [map_cons, nodup_cons] at hn
        exact fun he => hn.1 (he ▸ mem_map_of_mem hu)
      exact ⟨before, hb, (ofSlot_append_other hops hne).trans hl⟩
  free s hs := by
    have hne : s ≠ t.slot := (hs _ mem_cons_self).symm
    rw [ofSlot_append_other hops hne]
    refine h.free s fun u hu => ?_
    rcases mem_cons.1 hu with rfl | hu
    · exact hne.symm
    · exact hs u (mem_cons_of_mem _ hu)

/-- A life ends. -/
theorem giveBack (h : Covers slot life log past (t :: ts))
    (ht : t.part = life t.slot t.holder) : Covers slot life log past ts where
  nodup := by
    have hn := h.nodup
    rw [map_cons, nodup_cons] at hn
    exact hn.2
  held u hu := h.held u (mem_cons_of_mem _ hu)
  free s hs := by
    by_cases hst : t.slot = s
    · subst hst
      obtain ⟨before, hb, hl⟩ := h.held t mem_cons_self
      rw [hl, hb, flatMap_append, ht]
      simp
    · refine h.free s fun u hu => ?_
      rcases mem_cons.1 hu with rfl | hu
      · exact hst
      · exact hs u hu

end Covers

end Libmpp.Lives
