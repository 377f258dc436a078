import Mathlib

/-!
# Lists with an end mark

A list is read item by item up to one that marks its end, and no more than `n` items are
(`scan`): the mark comes within the bound, the bound comes first, or an item cannot be
read.

A loop that reads such a list is a program that keeps the items it has read and can jump
out (`readUntil`). `Reads` says what one round of it does, and `Reads.until` what the loop
does: it goes as the scan does, and the items kept tell how.

A program that reads is compared with a function of the input alone (`Follows`).
-/

namespace Libmpp

/-- How reading a list ends. -/
inductive Scan (ρ : Type*)
  | ended (rest : ρ)
  | overrun
  | stuck
  deriving DecidableEq

/-- Read up to the end mark, at most `n` items. -/
def scan {ρ α : Type*} (parse : ρ → Option (α × ρ)) (isLast : α → Bool) : ℕ → ρ → Scan ρ
  | 0, _ => .overrun
  | n + 1, r =>
    match parse r with
    | none => .stuck
    | some (a, r) => if isLast a then .ended r else scan parse isLast n r

/-- The first end mark among the items is behind less than `n` others. -/
def EndsWithin {α : Type*} (items : ℕ → Option α) (isLast : α → Bool) (n : ℕ) : Prop :=
  ∃ k < n, (∃ a, items k = some a ∧ isLast a = true) ∧
    ∀ j < k, ∃ a, items j = some a ∧ isLast a = false

/-- None of the first `n` items is the end mark. -/
def NoEnd {α : Type*} (items : ℕ → Option α) (isLast : α → Bool) (n : ℕ) : Prop :=
  ∀ j < n, ∃ a, items j = some a ∧ isLast a = false

/-! ## Programs that read -/

section Programs

variable {ε σ α β ρ : Type} {p : EStateM ε σ α} {f : α → EStateM ε σ β} {s s' : σ}

theorem bind_of_ok {a : α} (h : p s = .ok a s') : (p >>= f) s = f a s' := by
  change EStateM.bind p f s = _
  rw [EStateM.bind, h]

theorem bind_of_error {e : ε} (h : p s = .error e s') : (p >>= f) s = .error e s' := by
  change EStateM.bind p f s = _
  rw [EStateM.bind, h]

theorem ok_of_bind {b : β} (h : (p >>= f) s = .ok b s') :
    ∃ a s₁, p s = .ok a s₁ ∧ f a s₁ = .ok b s' := by
  cases hps : p s with
  | error e s₁ =>
    rw [bind_of_error hps] at h
    cases h
  | ok a s₁ =>
    rw [bind_of_ok hps] at h
    exact ⟨a, s₁, rfl, h⟩

/-- The program reads what `parse` finds in the input, and changes the state as `R` says.
    Where `parse` finds nothing, it jumps to a state that is `stuck`. -/
structure Follows (rd : σ → ρ) (R : σ → σ → Prop) (stuck : ε → σ → Prop) (p : EStateM ε σ α)
    (parse : ρ → Option (α × ρ)) : Prop where
  ok : ∀ {s a r}, parse (rd s) = some (a, r) → ∃ s', p s = .ok a s' ∧ rd s' = r ∧ R s s'
  stuck : ∀ {s}, parse (rd s) = none → ∃ e s', p s = .error e s' ∧ stuck e s'

variable {rd : σ → ρ} {R : σ → σ → Prop} {stuck : ε → σ → Prop} {parse : ρ → Option (α × ρ)}
  {next : α → ρ → Option (β × ρ)}

theorem Follows.bind (hR : ∀ a b c, R a b → R b c → R a c) (hp : Follows rd R stuck p parse)
    (hf : ∀ a, Follows rd R stuck (f a) (next a)) :
    Follows rd R stuck (p >>= f) (fun r => parse r >>= fun v => next v.1 v.2) where
  ok := by
    intro s b r h
    obtain ⟨⟨a, r'⟩, hparse, hnext⟩ := Option.bind_eq_some_iff.1 h
    obtain ⟨s', heq, rfl, hfirst⟩ := hp.ok hparse
    obtain ⟨s'', heq', hrd, hsecond⟩ := (hf a).ok hnext
    exact ⟨s'', (bind_of_ok heq).trans heq', hrd, hR _ _ _ hfirst hsecond⟩
  stuck := by
    intro s h
    cases hparse : parse (rd s) with
    | none =>
      obtain ⟨e, s', heq, hstuck⟩ := hp.stuck hparse
      exact ⟨e, s', bind_of_error heq, hstuck⟩
    | some v =>
      obtain ⟨s', heq, hrd, -⟩ := hp.ok hparse
      rw [hparse, Option.bind_eq_bind, Option.bind_some, ← hrd] at h
      obtain ⟨e, s'', heq', hstuck⟩ := (hf v.1).stuck h
      exact ⟨e, s'', (bind_of_ok heq).trans heq', hstuck⟩

/-- The program comes to its end, or jumps out stuck. -/
theorem Follows.total (h : Follows rd R stuck p parse) (s : σ) :
    (∃ a s', p s = .ok a s' ∧ R s s') ∨ ∃ e s', p s = .error e s' ∧ stuck e s' := by
  cases hparse : parse (rd s) with
  | none => exact .inr (h.stuck hparse)
  | some v =>
    obtain ⟨s', heq, -, hs'⟩ := h.ok hparse
    exact .inl ⟨v.1, s', heq, hs'⟩

theorem Follows.pure (hR : ∀ s, R s s) (a : α) :
    Follows rd R stuck (pure a : EStateM ε σ α) (fun r => some (a, r)) where
  ok := by
    rintro s _ _ ⟨⟩
    exact ⟨s, rfl, rfl, hR s⟩
  stuck := by
    intro s h
    exact absurd h (Option.some_ne_none _)

theorem Follows.modify {g : σ → σ} (hg : ∀ s, rd (g s) = rd s ∧ R s (g s)) :
    Follows rd R stuck (modify g : EStateM ε σ PUnit) (fun r => some ((), r)) where
  ok := by
    rintro s _ _ ⟨⟩
    exact ⟨g s, rfl, (hg s).1, (hg s).2⟩
  stuck := by
    intro s h
    exact absurd h (Option.some_ne_none _)

end Programs

/-! ## Reading up to the end mark -/

section Until

variable {ε σ ρ α : Type}

/-- Read the items from the one numbered `i` on, up to the end mark; after `n` of them,
    go on with `full`. -/
def readUntil (item : ℕ → EStateM ε σ α) (isLast : α → Bool) (full : EStateM ε σ Unit) :
    ℕ → ℕ → EStateM ε σ Unit
  | 0, _ => full
  | n + 1, i => do
    let a ← item i
    if isLast a then pure () else readUntil item isLast full n (i + 1)

/-- A round reads the item that `parse` finds, and keeps it under its number. -/
structure Reads (item : ℕ → EStateM ε σ α) (rd : σ → ρ) (parse : ρ → Option (α × ρ))
    (items : σ → ℕ → Option α) (inv : σ → Prop) (stuck : ε → σ → Prop) : Prop where
  ok : ∀ {i s a r}, inv s → parse (rd s) = some (a, r) →
    ∃ s', item i s = .ok a s' ∧ rd s' = r ∧ inv s' ∧ items s' i = some a ∧
      ∀ j ≠ i, items s' j = items s j
  stuck : ∀ {i s}, inv s → parse (rd s) = none → ∃ e s', item i s = .error e s' ∧ stuck e s'

variable {item : ℕ → EStateM ε σ α} {isLast : α → Bool} {full : EStateM ε σ Unit}
  {rd : σ → ρ} {parse : ρ → Option (α × ρ)} {items : σ → ℕ → Option α} {inv : σ → Prop}
  {stuck : ε → σ → Prop}

theorem readUntil_succ {s s' : σ} {a : α} {n i : ℕ} (h : item i s = .ok a s') :
    readUntil item isLast full (n + 1) i s =
      if isLast a then .ok () s' else readUntil item isLast full n (i + 1) s' := by
  rw [readUntil, bind_of_ok h]
  split_ifs <;> rfl

/-- What the loop does from the item numbered `i` on, when there are `i` others before. -/
theorem Reads.from (h : Reads item rd parse items inv stuck) (isLast : α → Bool)
    (full : EStateM ε σ Unit) (n i : ℕ) {s : σ} (hs : inv s) (hbefore : NoEnd (items s) isLast i) :
    match scan parse isLast n (rd s) with
    | .ended r => ∃ s', readUntil item isLast full n i s = .ok () s' ∧ rd s' = r ∧ inv s' ∧
        EndsWithin (items s') isLast (i + n)
    | .overrun => ∃ s', readUntil item isLast full n i s = full s' ∧ inv s' ∧
        NoEnd (items s') isLast (i + n)
    | .stuck => ∃ e s', readUntil item isLast full n i s = .error e s' ∧ stuck e s' := by
  induction n generalizing i s with
  | zero => exact ⟨s, rfl, hs, hbefore⟩
  | succ n ih =>
    rw [scan]
    cases hparse : parse (rd s) with
    | none =>
      obtain ⟨e, s', hitem, hstuck⟩ := h.stuck (i := i) hs hparse
      exact ⟨e, s', bind_of_error hitem, hstuck⟩
    | some v =>
      obtain ⟨a, r⟩ := v
      obtain ⟨s', hitem, rfl, hs', hkept, hother⟩ := h.ok (i := i) hs hparse
      have hbefore' : ∀ j < i, ∃ a, items s' j = some a ∧ isLast a = false := fun j hj => by
        rw [hother j hj.ne]
        exact hbefore j hj
      rw [readUntil_succ hitem]
      dsimp only
      by_cases hlast : isLast a = true
      · rw [if_pos hlast]
        exact ⟨s', if_pos hlast, rfl, hs', i, by omega, ⟨a, hkept, hlast⟩, hbefore'⟩
      · rw [if_neg hlast, if_neg hlast]
        have hnext : NoEnd (items s') isLast (i + 1) := fun j hj => by
          rcases Nat.lt_succ_iff_lt_or_eq.1 hj with hj | rfl
          · exact hbefore' j hj
          · exact ⟨a, hkept, Bool.not_eq_true _ ▸ hlast⟩
        have := ih (i + 1) hs' hnext
        rwa [Nat.add_right_comm, Nat.add_assoc] at this

/-- What the loop does: it goes as the scan does. -/
theorem Reads.until (h : Reads item rd parse items inv stuck) (isLast : α → Bool)
    (full : EStateM ε σ Unit) (n : ℕ) {s : σ} (hs : inv s) :
    match scan parse isLast n (rd s) with
    | .ended r => ∃ s', readUntil item isLast full n 0 s = .ok () s' ∧ rd s' = r ∧ inv s' ∧
        EndsWithin (items s') isLast n
    | .overrun => ∃ s', readUntil item isLast full n 0 s = full s' ∧ inv s' ∧
        NoEnd (items s') isLast n
    | .stuck => ∃ e s', readUntil item isLast full n 0 s = .error e s' ∧ stuck e s' := by
  have hnone : NoEnd (items s) isLast 0 := fun j hj => absurd hj (Nat.not_lt_zero j)
  have := h.from isLast full n 0 hs hnone
  rwa [Nat.zero_add] at this

/-- A list with its end in the bound is none without. -/
theorem EndsWithin.not_noEnd {items : ℕ → Option α} {n : ℕ} (h : EndsWithin items isLast n) :
    ¬NoEnd items isLast n := by
  intro hno
  obtain ⟨k, hk, ⟨a, ha, hlast⟩, -⟩ := h
  obtain ⟨b, hb, hnot⟩ := hno k hk
  rw [ha, Option.some_inj] at hb
  rw [hb, hnot] at hlast
  exact Bool.false_ne_true hlast

end Until

/-! ## How a program jumps out -/

section Jumps

variable {ε σ α β : Type}

/-- Where the program jumps out, it does so as `P` says. -/
def JumpsBy (P : ε → σ → Prop) (p : EStateM ε σ α) : Prop :=
  ∀ s e s', p s = .error e s' → P e s'

variable {P : ε → σ → Prop} {p : EStateM ε σ α} {f : α → EStateM ε σ β}

theorem JumpsBy.pure (a : α) : JumpsBy P (Pure.pure a : EStateM ε σ α) := nofun

theorem JumpsBy.get : JumpsBy P (get : EStateM ε σ σ) := nofun

theorem JumpsBy.modify (g : σ → σ) : JumpsBy P (modify g : EStateM ε σ PUnit) := nofun

theorem JumpsBy.throw {e : ε} (h : ∀ s, P e s) : JumpsBy P (throw e : EStateM ε σ α) := by
  rintro s _ _ ⟨⟩
  exact h s

theorem JumpsBy.bind (hp : JumpsBy P p) (hf : ∀ a, JumpsBy P (f a)) : JumpsBy P (p >>= f) := by
  intro s e s' h
  cases hps : p s with
  | error e₁ s₁ =>
    rw [bind_of_error hps] at h
    cases h
    exact hp _ _ _ hps
  | ok a s₁ =>
    rw [bind_of_ok hps] at h
    exact hf a _ _ _ h

theorem JumpsBy.ite {c : Prop} [Decidable c] {q : EStateM ε σ α} (hp : JumpsBy P p)
    (hq : JumpsBy P q) : JumpsBy P (if c then p else q) := by
  split_ifs
  · exact hp
  · exact hq

end Jumps

/-! ## What a program leaves as it was -/

section Keeps

variable {ε σ α β τ : Type}

/-- Whatever comes of the program, it leaves the part `part` of the state as it was. -/
def Keeps (part : σ → τ) (p : EStateM ε σ α) : Prop :=
  ∀ s, match p s with
    | .ok _ s' => part s' = part s
    | .error _ s' => part s' = part s

variable {part : σ → τ} {p : EStateM ε σ α} {f : α → EStateM ε σ β}

theorem Keeps.ok (h : Keeps part p) {s s' : σ} {a : α} (hp : p s = .ok a s') :
    part s' = part s := by
  have := h s
  rwa [hp] at this

theorem Keeps.error (h : Keeps part p) {s s' : σ} {e : ε} (hp : p s = .error e s') :
    part s' = part s := by
  have := h s
  rwa [hp] at this

theorem Keeps.pure (a : α) : Keeps part (Pure.pure a : EStateM ε σ α) := fun _ => rfl

theorem Keeps.throw (e : ε) : Keeps part (throw e : EStateM ε σ α) := fun _ => rfl

theorem Keeps.get : Keeps part (get : EStateM ε σ σ) := fun _ => rfl

theorem Keeps.modify {g : σ → σ} (h : ∀ s, part (g s) = part s) :
    Keeps part (modify g : EStateM ε σ PUnit) := fun s => h s

theorem Keeps.bind (hp : Keeps part p) (hf : ∀ a, Keeps part (f a)) : Keeps part (p >>= f) := by
  intro s
  have hfirst := hp s
  cases hps : p s with
  | error e s' =>
    rw [hps] at hfirst
    rw [bind_of_error hps]
    exact hfirst
  | ok a s' =>
    rw [hps] at hfirst
    have hsecond := hf a s'
    rw [bind_of_ok hps]
    dsimp only at hfirst
    rwa [hfirst] at hsecond

/-- A branch leaves what both sides do. -/
theorem Keeps.ite {c : Prop} [Decidable c] {q : EStateM ε σ α} (hp : Keeps part p)
    (hq : Keeps part q) : Keeps part (if c then p else q) := by
  split_ifs
  · exact hp
  · exact hq

/-- A loop leaves what its rounds and its end do. -/
theorem Keeps.readUntil {item : ℕ → EStateM ε σ α} {full : EStateM ε σ Unit} (isLast : α → Bool)
    (hitem : ∀ i, Keeps part (item i)) (hfull : Keeps part full) (n i : ℕ) :
    Keeps part (readUntil item isLast full n i) := by
  induction n generalizing i with
  | zero => exact hfull
  | succ n ih => exact (hitem i).bind fun _ => .ite (.pure ()) (ih (i + 1))

end Keeps

end Libmpp
