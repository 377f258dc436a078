import Libmpp.CfgIo.Render

/-!
# Lines that fit

A tree `Fits` when no line of its text is longer than the line buffer. Then what the writer
appends is the text (`written_of_fits`). A line that is one byte too long ends in a NUL
instead of its newline (`written_blots`), which ends the C string there; with a longer line
the writer is undefined.

`size` is the length of the text.
-/

namespace Libmpp.CfgIo

open MppCfgStrBuf List Option

mutual

/-- No line is longer than 254 bytes. -/
def Fits : Cfg MppCfgVal → Prop
  | .leaf name val => (nameText name).length + val.text.length + 2 < 255
  | .branch name _ child =>
    (nameText name).length + (if child.isEmpty then 4 else 2) < 255 ∧ FitsAll child

def FitsAll : List (Cfg MppCfgVal) → Prop
  | [] => True
  | c :: cs => Fits c ∧ FitsAll cs

end

mutual

/-- The length of `valueText`. -/
def valueSize (depth : ℕ) : Cfg MppCfgVal → ℕ
  | .leaf _ val => val.text.length
  | .branch _ _ child =>
    if child.isEmpty then 2 else 3 + innerSize (depth + 1) child + 4 * depth

/-- The length of `inner`. -/
def innerSize (depth : ℕ) : List (Cfg MppCfgVal) → ℕ
  | [] => 0
  | c :: cs =>
    4 * depth + ((nameText c.name).length + valueSize depth c) + (if cs.isEmpty then 1 else 2) +
      innerSize depth cs

end

/-- The length of the text of a tree. -/
def size (c : Cfg MppCfgVal) : ℕ :=
  (nameText c.name).length + valueSize 0 c + (comma 0 c).length + 1

mutual

theorem length_valueText (depth : ℕ) :
    (c : Cfg MppCfgVal) → (valueText depth c).length = valueSize depth c
  | .leaf name val => rfl
  | .branch name type child => by
    have hinner := length_inner (depth + 1) child
    rw [valueText, valueSize]
    split_ifs
    · simp
    · simp only [length_append, length_cons, length_nil, hinner, indent,
        length_replicate]
      omega

theorem length_inner (depth : ℕ) :
    (cs : List (Cfg MppCfgVal)) → (inner depth cs).length = innerSize depth cs
  | [] => rfl
  | c :: cs => by
    have hvalue := length_valueText depth c
    have hinner := length_inner depth cs
    rw [inner, innerSize, separator]
    split_ifs <;> simp only [length_append, length_cons, length_nil, hvalue, hinner,
      indent, length_replicate]

end

theorem length_text (c : Cfg MppCfgVal) : (text 0 c).length = size c := by
  simp [text, body, size, length_valueText, indent, add_assoc]

/-! ## Texts of children -/

/-- The texts of the children, each with a comma. -/
def texts (depth : ℕ) (cs : List (Cfg MppCfgVal)) : List Char := cs.flatMap (text depth)

/-- Without the last comma these are the lines between the brackets. -/
theorem texts_inner {depth : ℕ} {cs : List (Cfg MppCfgVal)} (hcs : cs ≠ []) :
    ∃ u, texts (depth + 1) cs = u ++ [',', '\n'] ∧ inner (depth + 1) cs = u ++ ['\n'] := by
  induction cs with
  | nil => exact absurd rfl hcs
  | cons c cs ih =>
    rcases cs with _ | ⟨c', cs⟩
    · exact ⟨indent (depth + 1) ++ body (depth + 1) c, by simp [texts, text],
        by simp [inner, separator, body]⟩
    · obtain ⟨u, ht, hi⟩ := ih (by simp)
      refine ⟨text (depth + 1) c ++ u, ?_, ?_⟩
      · rw [texts, flatMap_cons, ← texts, ht, append_assoc]
      · rw [inner, hi]
        simp [text, separator, body]

theorem dropComma_texts {depth : ℕ} {cs : List (Cfg MppCfgVal)} (hcs : cs ≠ []) :
    dropComma (texts (depth + 1) cs) = inner (depth + 1) cs := by
  obtain ⟨u, ht, hi⟩ := @texts_inner depth cs hcs
  rw [ht, hi, dropComma_append]

mutual

/-- When all lines fit, the writer appends the text. -/
theorem written_of_fits (depth : ℕ) :
    (c : Cfg MppCfgVal) → Fits c → written depth c = some (text depth c)
  | .leaf name val, h => by
    have hl : (nameText name ++ val.text ++ [',', '\n']).length < 255 := by
      simpa [Fits, add_assoc] using h
    rw [written, line_of_short hl]
    cases depth <;> simp [text, body, valueText, Cfg.name, comma]
  | .branch name type child, h => by
    rw [Fits] at h
    have hchild := writtenAll_of_fits (depth + 1) child h.2
    rw [written]
    by_cases hnil : child.isEmpty
    · have hl : (nameText name ++ [type.opening, type.closing, ',', '\n']).length < 255 := by
        simpa [hnil] using h.1
      rw [if_pos hnil, line_of_short hl]
      obtain rfl := isEmpty_iff.1 hnil
      cases depth <;> simp [text, body, valueText, Cfg.name, comma]
    · have hl : (nameText name ++ [type.opening, '\n']).length < 255 := by simpa [hnil] using h.1
      have hne : child ≠ [] := by simpa using hnil
      rw [if_neg hnil, line_of_short hl, hchild]
      simp only [bind_eq_bind, bind_some, dropComma_texts hne, text, body,
        valueText, Cfg.name, hnil]
      obtain ⟨c, cs, rfl⟩ := exists_cons_of_ne_nil hne
      cases depth <;> simp [comma]

theorem writtenAll_of_fits (depth : ℕ) :
    (cs : List (Cfg MppCfgVal)) → FitsAll cs → writtenAll depth cs = some (texts depth cs)
  | [], _ => rfl
  | c :: cs, h => by
    rw [writtenAll, written_of_fits depth c h.1, writtenAll_of_fits depth cs h.2]
    simp [texts]

end

/-! ## Lines that do not fit -/

/-- The same text, but for newlines that have become a NUL. -/
def Blots : List Char → List Char → Prop := List.Forall₂ fun a b => a = b ∨ a = nul ∧ b = '\n'

theorem Blots.refl (bs : List Char) : Blots bs bs :=
  forall₂_same.2 fun _ _ => .inl rfl

theorem Blots.append {a b a' b' : List Char} (h : Blots a b) (h' : Blots a' b') :
    Blots (a ++ a') (b ++ b') :=
  rel_append h h'

theorem line_blots {bs l : List Char} (h : line (bs ++ ['\n']) = some l) :
    Blots l (bs ++ ['\n']) := by
  rcases line_append h with rfl | rfl
  · exact .refl _
  · exact (Blots.refl bs).append (.cons (.inr ⟨rfl, rfl⟩) .nil)

theorem Blots.dropComma {b : Char} : ∀ {u v : List Char},
    Blots (u ++ [',', b]) (v ++ [',', '\n']) → Blots (u ++ [b]) (v ++ ['\n'])
  | [], [], .cons _ h => h
  | _ :: _, _ :: _, .cons h h' => .cons h (Blots.dropComma h')
  | [], _ :: _, h => by simpa using h.length_eq
  | _ :: _, [], h => by simpa using h.length_eq

mutual

/-- What the writer appends is the text, but for blots. -/
theorem written_blots (depth : ℕ) :
    (c : Cfg MppCfgVal) → ∀ {w}, written depth c = some w → Blots w (text depth c)
  | .leaf name val, w, h => by
    obtain ⟨l, hl, h⟩ := bind_eq_some_iff.1 h
    obtain rfl := some.inj h
    have hl' : line ((nameText name ++ val.text ++ [',']) ++ ['\n']) = some l := by
      simpa using hl
    have hblots := (Blots.refl (indent depth)).append (line_blots hl')
    cases depth <;> simpa [text, body, valueText, Cfg.name, comma] using hblots
  | .branch name type child, w, h => by
    rw [written] at h
    by_cases hnil : child.isEmpty
    · rw [if_pos hnil] at h
      obtain ⟨l, hl, h⟩ := bind_eq_some_iff.1 h
      obtain rfl := some.inj h
      have hl' :
          line ((nameText name ++ [type.opening, type.closing, ',']) ++ ['\n']) = some l := by
        simpa using hl
      have hblots := (Blots.refl (indent depth)).append (line_blots hl')
      obtain rfl := isEmpty_iff.1 hnil
      cases depth <;> simpa [text, body, valueText, Cfg.name, comma] using hblots
    · rw [if_neg hnil] at h
      obtain ⟨l, hl, h⟩ := bind_eq_some_iff.1 h
      obtain ⟨ls, hls, h⟩ := bind_eq_some_iff.1 h
      obtain rfl := some.inj h
      have hne : child ≠ [] := by simpa using hnil
      have hl' : line ((nameText name ++ [type.opening]) ++ ['\n']) = some l := by
        simpa using hl
      have hchild : Blots (dropComma ls) (inner (depth + 1) child) := by
        obtain ⟨u, b, rfl⟩ := writtenAll_comma hne hls
        obtain ⟨v, ht, hi⟩ := @texts_inner depth child hne
        have hb := writtenAll_blots (depth + 1) child hls
        rw [ht] at hb
        rw [dropComma_append, hi]
        exact Blots.dropComma hb
      have hblots := (((Blots.refl (indent depth)).append (line_blots hl')).append hchild).append
        (Blots.refl (indent depth ++
          ([type.closing] ++ (if depth = 0 then [] else [',']) ++ ['\n'])))
      obtain ⟨c, cs, rfl⟩ := exists_cons_of_ne_nil hne
      cases depth <;> simpa [text, body, valueText, Cfg.name, comma] using hblots

theorem writtenAll_blots (depth : ℕ) :
    (cs : List (Cfg MppCfgVal)) → ∀ {w}, writtenAll depth cs = some w → Blots w (texts depth cs)
  | [], w, h => by
    obtain rfl := some.inj h
    exact .nil
  | c :: cs, w, h => by
    obtain ⟨l, hl, h⟩ := bind_eq_some_iff.1 h
    obtain ⟨ls, hls, h⟩ := bind_eq_some_iff.1 h
    obtain rfl := some.inj h
    exact (written_blots depth c hl).append (writtenAll_blots depth cs hls)

end

theorem line_fits {bs l : List Char} (h : line bs = some l) (hnul : nul ∉ l) :
    bs.length < 255 := by
  rw [line] at h
  split_ifs at h with hlt
  · exact hlt
  · obtain rfl := some.inj h
    simp at hnul

mutual

/-- Lines that do not fit leave a NUL. -/
theorem fits_of_written (depth : ℕ) :
    (c : Cfg MppCfgVal) → ∀ {w}, written depth c = some w → nul ∉ w → Fits c
  | .leaf name val, w, h, hnul => by
    obtain ⟨l, hl, h⟩ := bind_eq_some_iff.1 h
    obtain rfl := some.inj h
    have hfit := line_fits hl fun hn => hnul (mem_append_right _ hn)
    simpa [Fits, add_assoc] using hfit
  | .branch name type child, w, h, hnul => by
    rw [written] at h
    by_cases hnil : child.isEmpty
    · rw [if_pos hnil] at h
      obtain ⟨l, hl, h⟩ := bind_eq_some_iff.1 h
      obtain rfl := some.inj h
      have hfit := line_fits hl fun hn => hnul (mem_append_right _ hn)
      obtain rfl := isEmpty_iff.1 hnil
      exact ⟨by simpa using hfit, trivial⟩
    · rw [if_neg hnil] at h
      obtain ⟨l, hl, h⟩ := bind_eq_some_iff.1 h
      obtain ⟨ls, hls, h⟩ := bind_eq_some_iff.1 h
      obtain rfl := some.inj h
      have hne : child ≠ [] := by simpa using hnil
      have hfit := line_fits hl fun hn => hnul (by simp [hn])
      refine ⟨by simpa [hnil] using hfit, fitsAll_of_written (depth + 1) child hls ?_⟩
      -- dropping the comma drops no NUL
      obtain ⟨u, b, rfl⟩ := writtenAll_comma hne hls
      rw [dropComma_append] at hnul
      simp only [mem_append, mem_cons, not_mem_nil, or_false, not_or] at hnul ⊢
      exact ⟨hnul.1.1.2.1, by decide, hnul.1.1.2.2⟩

theorem fitsAll_of_written (depth : ℕ) :
    (cs : List (Cfg MppCfgVal)) → ∀ {w}, writtenAll depth cs = some w → nul ∉ w → FitsAll cs
  | [], _, _, _ => trivial
  | c :: cs, w, h, hnul => by
    obtain ⟨l, hl, h⟩ := bind_eq_some_iff.1 h
    obtain ⟨ls, hls, h⟩ := bind_eq_some_iff.1 h
    obtain rfl := some.inj h
    exact ⟨fits_of_written depth c hl fun hn => hnul (mem_append_left _ hn),
      fitsAll_of_written depth cs hls fun hn => hnul (mem_append_right _ hn)⟩

end

/-- Up to a NUL the blotted text is the text. -/
theorem Blots.prefix {w u p : List Char} (h : Blots w u) (hp : p <+: w) (hnul : nul ∉ p) :
    p <+: u := by
  induction h generalizing p with
  | nil => exact hp
  | @cons a b w u hab _ ih =>
    rcases prefix_cons_iff.1 hp with rfl | ⟨p', rfl, hp'⟩
    · exact nil_prefix
    · have hab : a = b := by
        rcases hab with hab | ⟨rfl, -⟩
        · exact hab
        · exact absurd mem_cons_self hnul
      rw [hab]
      exact cons_prefix_cons.2
        ⟨rfl, ih hp' fun hm => hnul (mem_cons_of_mem _ hm)⟩

end Libmpp.CfgIo
