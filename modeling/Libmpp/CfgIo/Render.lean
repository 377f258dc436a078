import Libmpp.CfgIo.Parse

/-!
# The text of a tree

What the JSON writer writes, as a function of the tree: with its lines cut by the line buffer
(`written`), and without (`text`). The writer appends `written`, as long as the text stays
below 2 ^ 30 bytes (`mppCfgToJson_appends`): the next buffer would have 2 GiB.

The two texts are the same when every line fits into the line buffer, see `Libmpp.CfgIo.Fits`.
-/

namespace Libmpp.CfgIo

open MppCfgStrBuf List Option

variable {α : Type}

def indent (depth : ℕ) : List Char := List.replicate (4 * depth) ' '

theorem indent_succ (depth : ℕ) : indent (depth + 1) = [' ', ' ', ' ', ' '] ++ indent depth := by
  rw [indent, Nat.mul_add, Nat.add_comm, replicate_add]
  rfl

/-- The comma behind a node at a depth: at depth 0 there is none behind a branch with
    children. -/
def comma : ℕ → Cfg α → List Char
  | 0, .branch _ _ (_ :: _) => []
  | _, _ => [',']

@[simp] theorem comma_succ (depth : ℕ) (c : Cfg α) : comma (depth + 1) c = [','] := rfl

/-- The comma behind the first of the children, when there are others. -/
def separator (cs : List (Cfg α)) : List Char := if cs.isEmpty then [] else [',']

mutual

/-- The value of a node. -/
def valueText (depth : ℕ) : Cfg MppCfgVal → List Char
  | .leaf _ val => val.text
  | .branch _ type child =>
    if child.isEmpty then [type.opening, type.closing]
    else [type.opening, '\n'] ++ inner (depth + 1) child ++ indent depth ++ [type.closing]

/-- The children of a branch, each from its indentation to its newline. -/
def inner (depth : ℕ) : List (Cfg MppCfgVal) → List Char
  | [] => []
  | c :: cs => indent depth ++ (nameText c.name ++ valueText depth c) ++ separator cs ++ ['\n'] ++
      inner depth cs

end

/-- A node without the whitespace before it and the comma behind it. -/
def body (depth : ℕ) (c : Cfg MppCfgVal) : List Char := nameText c.name ++ valueText depth c

/-- A node from its indentation to its newline. -/
def text (depth : ℕ) (c : Cfg MppCfgVal) : List Char :=
  indent depth ++ body depth c ++ comma depth c ++ ['\n']

/-- `MppCfgStrBuf.revertComma` on a part of the text. -/
def dropComma (bs : List Char) : List Char :=
  match bs.reverse with
  | b :: ',' :: bs => (b :: bs).reverse
  | _ => bs

@[simp] theorem dropComma_append (bs : List Char) (b : Char) :
    dropComma (bs ++ [',', b]) = bs ++ [b] := by
  simp [dropComma]

variable {str : MppCfgStrBuf} {bs : List Char}

theorem revertComma_append {bs₀ : List Char} {b : Char} (h : str.buf = bs₀ ++ (bs ++ [',', b])) :
    str.revertComma = { str with buf := bs₀ ++ (bs ++ [b]) } := by
  rw [revertComma, h]
  simp

mutual

/-- What the writer appends for a node. -/
def written (depth : ℕ) : Cfg MppCfgVal → Option (List Char)
  | .leaf name val => do
    let l ← line (nameText name ++ val.text ++ [',', '\n'])
    some (indent depth ++ l)
  | .branch name type child =>
    if child.isEmpty then do
      let l ← line (nameText name ++ [type.opening, type.closing, ',', '\n'])
      some (indent depth ++ l)
    else do
      let l ← line (nameText name ++ [type.opening, '\n'])
      let ls ← writtenAll (depth + 1) child
      some (indent depth ++ l ++ dropComma ls ++ indent depth ++
        ([type.closing] ++ (if depth = 0 then [] else [',']) ++ ['\n']))

def writtenAll (depth : ℕ) : List (Cfg MppCfgVal) → Option (List Char)
  | [] => some []
  | c :: cs => do
    let l ← written depth c
    let ls ← writtenAll depth cs
    some (l ++ ls)

end

/-! ## The buffer -/

/-- The size of the buffer is a power of two, of at least 4096. -/
structure Roomy (str : MppCfgStrBuf) : Prop where
  room : str.buf.length < str.bufSize
  size : ∃ k, 12 ≤ k ∧ k ≤ 30 ∧ str.bufSize = 2 ^ k

/-- A part of the writer appends a text, as long as there is room. -/
def Appends (f : MppCfgStrBuf → Option MppCfgStrBuf) (w : Option (List Char)) : Prop :=
  ∀ str, Roomy str →
    (∀ bs, w = some bs → str.buf.length + bs.length < 2 ^ 30 →
      ∃ str', f str = some str' ∧ str'.buf = str.buf ++ bs ∧ Roomy str') ∧
    (∀ str', f str = some str' →
      ∃ bs, w = some bs ∧ str'.buf = str.buf ++ bs ∧ Roomy str')

theorem Roomy.lt (h : Roomy str) : str.buf.length < 2 ^ 30 := by
  obtain ⟨k, -, hk, hs⟩ := h.size
  have := Nat.pow_le_pow_right (show 0 < 2 by norm_num) hk
  have := h.room
  omega

theorem Roomy.of_length_le (h : Roomy str) (hl : bs.length ≤ str.buf.length) :
    Roomy { str with buf := bs } :=
  ⟨hl.trans_lt h.room, h.size⟩

theorem writeByte_appends (hl : bs.length ≤ 255) :
    Appends (fun str => str.writeByte bs) (some bs) := by
  rintro ⟨buf, size⟩ ⟨hroom, k, hk, hk', rfl⟩
  have h12 := Nat.pow_le_pow_right (show 0 < 2 by norm_num) hk
  have hdouble : 2 ^ (k + 1) = 2 ^ k * 2 := pow_succ 2 k
  simp only [writeByte, some.injEq, forall_eq'] at hroom ⊢
  by_cases hnil : bs.length = 0
  · obtain rfl := length_eq_zero_iff.1 hnil
    have hr : Roomy ⟨buf, 2 ^ k⟩ := ⟨hroom, k, hk, hk', rfl⟩
    simpa using And.intro (fun _ => hr) hr
  rw [if_neg hnil]
  by_cases hfit : buf.length + bs.length < 2 ^ k
  · rw [if_pos hfit]
    have hr : Roomy ⟨buf ++ bs, 2 ^ k⟩ := ⟨by simpa using hfit, k, hk, hk', rfl⟩
    exact ⟨fun _ => ⟨_, rfl, rfl, hr⟩, by rintro _ ⟨⟩; exact ⟨bs, rfl, rfl, hr⟩⟩
  rw [if_neg hfit]
  rcases Nat.lt_or_ge k 30 with hlt | hge
  · -- the buffer is doubled
    have h30 := Nat.pow_le_pow_right (show 0 < 2 by norm_num) (Nat.succ_le_of_lt hlt)
    rw [if_neg (by simp only [intMax]; omega)]
    have hr : Roomy ⟨buf ++ bs, 2 ^ k * 2⟩ :=
      ⟨by simp only [length_append]; omega, k + 1, by omega, by omega, hdouble.symm⟩
    exact ⟨fun _ => ⟨_, rfl, rfl, hr⟩, by rintro _ ⟨⟩; exact ⟨bs, rfl, rfl, hr⟩⟩
  · obtain rfl : k = 30 := by omega
    rw [if_pos (by norm_num [intMax])]
    exact ⟨fun h => absurd h hfit, by simp⟩

theorem Appends.bind {f g : MppCfgStrBuf → Option MppCfgStrBuf} {w v : Option (List Char)}
    (hf : Appends f w) (hg : Appends g v) :
    Appends (fun str => f str >>= g) (do let a ← w; let b ← v; some (a ++ b)) := by
  intro str hr
  constructor
  · intro bs hbs hlt
    obtain ⟨a, rfl, b, rfl, hab⟩ : ∃ a, w = some a ∧ ∃ b, v = some b ∧ a ++ b = bs := by
      simpa [bind_eq_some_iff] using hbs
    subst hab
    simp only [length_append] at hlt
    obtain ⟨str₁, h₁, hb₁, hr₁⟩ := (hf str hr).1 a rfl (by omega)
    obtain ⟨str₂, h₂, hb₂, hr₂⟩ := (hg str₁ hr₁).1 b rfl (by
      rw [hb₁, length_append]; omega)
    exact ⟨str₂, by simp [h₁, h₂], by rw [hb₂, hb₁, append_assoc], hr₂⟩
  · intro str₂ h
    obtain ⟨str₁, h₁, h₂⟩ := bind_eq_some_iff.1 h
    obtain ⟨a, rfl, hb₁, hr₁⟩ := (hf str hr).2 str₁ h₁
    obtain ⟨b, rfl, hb₂, hr₂⟩ := (hg str₁ hr₁).2 str₂ h₂
    exact ⟨a ++ b, rfl, by rw [hb₂, hb₁, append_assoc], hr₂⟩

/-- With the last comma reverted in between. What is written next takes its place. -/
theorem Appends.revert {f g : MppCfgStrBuf → Option MppCfgStrBuf} {w v : Option (List Char)}
    (hf : Appends f w) (hg : Appends g v) (hw : ∀ a, w = some a → ∃ u b, a = u ++ [',', b])
    (hv : ∀ b, v = some b → b ≠ []) :
    Appends (fun str => f str >>= fun str => g str.revertComma)
      (do let a ← w; let b ← v; some (dropComma a ++ b)) := by
  intro str hr
  constructor
  · intro bs hbs hlt
    obtain ⟨a, ha, b, hb, hab⟩ : ∃ a, w = some a ∧ ∃ b, v = some b ∧ dropComma a ++ b = bs := by
      simpa [bind_eq_some_iff] using hbs
    subst hab
    obtain ⟨u, x, rfl⟩ := hw a ha
    have hpos := length_pos_iff.2 (hv b hb)
    simp only [dropComma_append, length_append, length_cons, length_nil] at hlt
    obtain ⟨str₁, h₁, hb₁, hr₁⟩ := (hf str hr).1 _ ha (by simp; omega)
    have hrev := revertComma_append hb₁
    have hr₁' : Roomy str₁.revertComma := by
      rw [hrev]
      exact hr₁.of_length_le (by rw [hb₁]; simp)
    obtain ⟨str₂, h₂, hb₂, hr₂⟩ := (hg _ hr₁').1 b hb (by
      rw [hrev]; simp; omega)
    refine ⟨str₂, by simp [h₁, h₂], ?_, hr₂⟩
    rw [hb₂, hrev, dropComma_append]
    simp
  · intro str₂ h
    obtain ⟨str₁, h₁, h₂⟩ := bind_eq_some_iff.1 h
    obtain ⟨a, ha, hb₁, hr₁⟩ := (hf str hr).2 str₁ h₁
    obtain ⟨u, x, rfl⟩ := hw a ha
    have hrev := revertComma_append hb₁
    have hr₁' : Roomy str₁.revertComma := by
      rw [hrev]
      exact hr₁.of_length_le (by rw [hb₁]; simp)
    obtain ⟨b, hb, hb₂, hr₂⟩ := (hg _ hr₁').2 str₂ h₂
    refine ⟨dropComma (u ++ [',', x]) ++ b, by simp [ha, hb], ?_, hr₂⟩
    rw [hb₂, hrev, dropComma_append]
    simp

theorem writeIndent_appends (depth : ℕ) : Appends (writeIndent depth) (some (indent depth)) := by
  induction depth with
  | zero =>
    intro str hr
    simpa [writeIndent, indent] using And.intro (fun _ => hr) hr
  | succ depth ih =>
    rw [indent_succ]
    exact (writeByte_appends (by simp)).bind ih

theorem line_length {l : List Char} (h : line bs = some l) : l.length ≤ 255 := by
  rw [line] at h
  split_ifs at h <;> obtain rfl := some.inj h
  · omega
  · simp
    omega

theorem writeLine_appends (bs : List Char) :
    Appends (fun str => str.writeLine bs) (line bs) := by
  intro str hr
  simp only [writeLine]
  cases h : line bs with
  | none => simp
  | some l => simpa using writeByte_appends (line_length h) str hr

/-! ## The writer -/

theorem line_of_short (h : bs.length < 255) : line bs = some bs := if_pos h

theorem line_append {l : List Char} {b : Char} (h : line (bs ++ [b]) = some l) :
    l = bs ++ [b] ∨ l = bs ++ [nul] := by
  rw [line] at h
  split_ifs at h <;> obtain rfl := some.inj h
  · exact .inl rfl
  · exact .inr (by rw [dropLast_concat])

/-- Before the last byte of what is written for a child there is a comma. -/
theorem written_comma {depth : ℕ} {c : Cfg MppCfgVal} {w : List Char}
    (h : written (depth + 1) c = some w) : ∃ u b, w = u ++ [',', b] := by
  have hline : ∀ {v bs l : List Char}, line (bs ++ [',', '\n']) = some l →
      ∃ u b, v ++ l = u ++ [',', b] := by
    intro v bs l hl
    rw [show bs ++ [',', '\n'] = (bs ++ [',']) ++ ['\n'] by simp] at hl
    rcases line_append hl with rfl | rfl
    · exact ⟨v ++ bs, '\n', by simp⟩
    · exact ⟨v ++ bs, nul, by simp⟩
  cases c with
  | leaf name val =>
    obtain ⟨l, hl, hw⟩ := bind_eq_some_iff.1 h
    obtain rfl := some.inj hw
    exact hline hl
  | branch name type child =>
    rw [written] at h
    by_cases hnil : child.isEmpty
    · rw [if_pos hnil] at h
      obtain ⟨l, hl, hw⟩ := bind_eq_some_iff.1 h
      obtain rfl := some.inj hw
      have hl' :
          line ((nameText name ++ [type.opening, type.closing]) ++ [',', '\n']) = some l := by
        simpa using hl
      exact hline hl'
    · rw [if_neg hnil] at h
      obtain ⟨l, -, hw⟩ := bind_eq_some_iff.1 h
      obtain ⟨ls, -, hw⟩ := bind_eq_some_iff.1 hw
      obtain rfl := some.inj hw
      exact ⟨indent (depth + 1) ++ l ++ dropComma ls ++ indent (depth + 1) ++ [type.closing],
        '\n', by simp⟩

theorem writtenAll_comma {depth : ℕ} {cs : List (Cfg MppCfgVal)} {w : List Char}
    (hcs : cs ≠ []) (h : writtenAll (depth + 1) cs = some w) : ∃ u b, w = u ++ [',', b] := by
  induction cs generalizing w with
  | nil => exact absurd rfl hcs
  | cons c cs ih =>
    obtain ⟨l, hl, h⟩ := bind_eq_some_iff.1 h
    obtain ⟨ls, hls, h⟩ := bind_eq_some_iff.1 h
    obtain rfl := some.inj h
    rcases cs.eq_nil_or_concat with rfl | ⟨_, _, hne⟩
    · obtain rfl := some.inj hls
      simpa using written_comma hl
    · obtain ⟨u, b, rfl⟩ := ih (by simp [hne]) hls
      exact ⟨l ++ u, b, by simp⟩

theorem closing_short (depth : ℕ) (type : Branch) :
    ([type.closing] ++ (if depth = 0 then [] else [',']) ++ ['\n']).length < 255 := by
  split_ifs <;> simp

mutual

/-- The writer appends the text of a node. -/
theorem mppCfgToJson_appends (depth : ℕ) :
    (c : Cfg MppCfgVal) → Appends (mppCfgToJson depth c) (written depth c)
  | .leaf name val => (writeIndent_appends depth).bind (writeLine_appends _)
  | .branch name type child => by
    have hchild := childToJson_appends (depth + 1) child
    have hclose := (writeIndent_appends depth).bind (writeLine_appends
      ([type.closing] ++ (if depth = 0 then [] else [',']) ++ ['\n']))
    rw [line_of_short (closing_short depth type)] at hclose
    intro str hr
    rw [mppCfgToJson, written]
    by_cases hnil : child.isEmpty
    · simp only [hnil, if_true]
      exact ((writeIndent_appends depth).bind (writeLine_appends _)) str hr
    · simp only [hnil]
      have hall := ((writeIndent_appends depth).bind <|
        (writeLine_appends (nameText name ++ [type.opening, '\n'])).bind <|
          hchild.revert hclose (fun a ha => writtenAll_comma (by simpa using hnil) ha)
            (by simp)) str hr
      convert hall using 5 <;>
        cases line (nameText name ++ [type.opening, '\n']) <;>
        cases writtenAll (depth + 1) child <;> simp

theorem childToJson_appends (depth : ℕ) :
    (cs : List (Cfg MppCfgVal)) → Appends (childToJson depth cs) (writtenAll depth cs)
  | [] => by
    intro str hr
    simpa [childToJson, writtenAll] using And.intro (fun _ => hr) hr
  | c :: cs => (mppCfgToJson_appends depth c).bind (childToJson_appends depth cs)

end

end Libmpp.CfgIo
