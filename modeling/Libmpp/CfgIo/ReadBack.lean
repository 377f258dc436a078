import Libmpp.CfgIo.Fits

/-!
# Reading a text back

What the parser makes of the text of a `Readable` tree (`parseJsonValue_text`): the same tree, where
integers have the type that the parser gives to their text, a `NULL` string has become the
string `(null)`, and an empty string `NULL` (`MppCfgVal.readBack`).

A tree is readable when its names are the ones the parser accepts, nothing in its names and
strings is a double quote, and its integers are neither below `INT_MIN` nor above `LLONG_MAX`,
which the parser would convert to a type that does not hold them.
-/

namespace Libmpp.CfgIo

open List

namespace MppCfgVal

/-- The value in the type that the parser gives to the integer `z`. -/
def retype (val : MppCfgVal) (z : ℤ) : MppCfgVal :=
  if h : intMin ≤ z ∧ z ≤ intMax then .s32 ⟨z, h⟩
  else if h : 0 ≤ z ∧ z ≤ uintMax then .u32 ⟨z, h⟩
  else if h : 0 ≤ z ∧ z ≤ ullongMax then .u64 ⟨z, h⟩
  else val

def readBack : MppCfgVal → MppCfgVal
  | s32 v => (s32 v).retype v
  | u32 v => (u32 v).retype v
  | s64 v => (s64 v).retype v
  | u64 v => (u64 v).retype v
  | str none => .str (some (.ofBuf ['(', 'n', 'u', 'l', 'l', ')']))
  | str (some s) => .str (dupStr s.chars)
  | val => val

def Readable : MppCfgVal → Prop
  | s64 v => intMin ≤ v
  | u64 v => v ≤ llongMax
  | str (some s) => quote ∉ s.chars
  | f32 _ => False
  | f64 _ => False
  | _ => True

end MppCfgVal

variable {α β : Type}

/-- The parser accepts the name for a child of an object or of an array. In an object, only
    arrays may have none. -/
def NameOk : Branch → Cfg α → Prop
  | .array, c => c.name = none
  | .object, .branch none .array _ => True
  | .object, c => ∃ n, c.name = some n ∧ n.chars ≠ [] ∧ quote ∉ n.chars

mutual

/-- All names are accepted, and all leaves satisfy `P`. -/
def Shaped (P : α → Prop) : Cfg α → Prop
  | .leaf _ val => P val
  | .branch _ type child => ShapedAll P type child

def ShapedAll (P : α → Prop) (type : Branch) : List (Cfg α) → Prop
  | [] => True
  | c :: cs => NameOk type c ∧ Shaped P c ∧ ShapedAll P type cs

end

abbrev Readable (c : Cfg MppCfgVal) : Prop := Shaped MppCfgVal.Readable c

abbrev ReadableAll (type : Branch) (cs : List (Cfg MppCfgVal)) : Prop :=
  ShapedAll MppCfgVal.Readable type cs

theorem nameOk_map {f : α → β} {type : Branch} {c : Cfg α} :
    NameOk type (c.map f) ↔ NameOk type c := by
  rcases type with _ | _ <;> rcases c with ⟨_ | _, _⟩ | ⟨_ | _, _ | _, _⟩ <;>
    simp [NameOk, Cfg.map, Cfg.name]

mutual

theorem shaped_map {f : α → β} {P : β → Prop} :
    (c : Cfg α) → (Shaped P (c.map f) ↔ Shaped (fun v => P (f v)) c)
  | .leaf _ _ => Iff.rfl
  | .branch _ type child => shapedAll_map type child

theorem shapedAll_map {f : α → β} {P : β → Prop} (type : Branch) :
    (cs : List (Cfg α)) →
      (ShapedAll P type (Cfg.mapAll f cs) ↔ ShapedAll (fun v => P (f v)) type cs)
  | [] => Iff.rfl
  | c :: cs => and_congr nameOk_map (and_congr (shaped_map c) (shapedAll_map type cs))

end

mutual

theorem Shaped.imp {P Q R : α → Prop} (h : ∀ v, P v → Q v → R v) :
    (c : Cfg α) → Shaped P c → c.Leaves Q → Shaped R c
  | .leaf _ val, hp, hq => h val hp hq
  | .branch _ type child, hp, hq => ShapedAll.imp h type child hp hq

theorem ShapedAll.imp {P Q R : α → Prop} (h : ∀ v, P v → Q v → R v) (type : Branch) :
    (cs : List (Cfg α)) → ShapedAll P type cs → Cfg.LeavesAll Q cs → ShapedAll R type cs
  | [], _, _ => trivial
  | c :: cs, hp, hq =>
    ⟨hp.1, Shaped.imp h c hp.2.1 hq.1, ShapedAll.imp h type cs hp.2.2 hq.2⟩

end

mutual

theorem Shaped.leaves {P Q : α → Prop} (h : ∀ v, P v → Q v) :
    (c : Cfg α) → Shaped P c → c.Leaves Q
  | .leaf _ val, hp => h val hp
  | .branch _ type child, hp => ShapedAll.leaves h type child hp

theorem ShapedAll.leaves {P Q : α → Prop} (h : ∀ v, P v → Q v) (type : Branch) :
    (cs : List (Cfg α)) → ShapedAll P type cs → Cfg.LeavesAll Q cs
  | [], _ => trivial
  | c :: cs, hp => ⟨Shaped.leaves h c hp.2.1, ShapedAll.leaves h type cs hp.2.2⟩

end

/-! ## The cursor -/

variable {c : Char} {cs : List Char}

@[simp] theorem skipWs_cons_of_not (h : isWs c = false) : skipWs (c :: cs) = some (c :: cs) := by
  simp [skipWs, h]

theorem skipWs_append {ws : List Char} (h : ∀ c ∈ ws, isWs c) : skipWs (ws ++ cs) = skipWs cs := by
  rw [skipWs, dropWhile_append_of_pos h, skipWs]

theorem isWs_indent (depth : ℕ) : ∀ c ∈ indent depth, isWs c := by
  intro c hc
  rw [eq_of_mem_replicate hc]
  decide

theorem isWs_of_isDigit (h : c.isDigit) : isWs c = false := by
  simp only [Char.isDigit, Bool.and_eq_true, decide_eq_true_eq, UInt32.le_iff_toNat_le] at h
  simp only [isWs, Bool.or_eq_false_iff, decide_eq_false_iff_not, Char.toNat]
  have h48 : (48 : UInt32).toNat = 48 := rfl
  have h57 : (57 : UInt32).toNat = 57 := rfl
  change 48 ≤ c.val.toNat ∧ c.val.toNat ≤ 57 at h
  omega

theorem ne_of_isDigit {b : Char} (h : c.isDigit) (hb : b.isDigit = false) : c ≠ b := by
  rintro rfl
  simp [hb] at h

/-! ## Numbers -/

theorem isDigit_toDigits {n : ℕ} (h : c ∈ Nat.toDigits 10 n) : c.isDigit :=
  Nat.isDigit_of_mem_toDigits (by norm_num) (by norm_num) h

/-- A decimal is a sign and digits. -/
theorem splitSign_decimal (z : ℤ) :
    splitSign (decimal z) = (decide (z < 0), Nat.toDigits 10 z.natAbs) := by
  rw [decimal]
  by_cases hz : z < 0
  · simp [splitSign, hz]
  · obtain ⟨c, cs, hc⟩ := exists_cons_of_ne_nil (@Nat.toDigits_ne_nil z.natAbs 10)
    have hd : c.isDigit := isDigit_toDigits (hc ▸ mem_cons_self)
    have hminus : c ≠ '-' := ne_of_isDigit hd (by decide)
    have hplus : c ≠ '+' := ne_of_isDigit hd (by decide)
    simp [hz, hc, splitSign, hminus, hplus]

theorem strtold_decimal (z : ℤ) : strtold (decimal z) = z := by
  have hall : ∀ c ∈ Nat.toDigits 10 z.natAbs, c.isDigit := fun c hc => isDigit_toDigits hc
  have hne : Nat.toDigits 10 z.natAbs ≠ [] := Nat.toDigits_ne_nil
  rw [strtold, splitSign_decimal]
  simp only [takeWhile_eq_self_iff.2 hall, dropWhile_eq_nil_iff.2 hall, fraction, hne,
    false_and, if_false, append_nil, Nat.ofDigitChars_ten_toDigits, afterFraction, exponent,
    length_nil, pow_zero, div_one, zpow_zero, mul_one, decide_eq_true_eq]
  by_cases hz : z < 0
  · rw [if_pos hz, ← Int.cast_natCast, ← Int.cast_neg, Int.ofNat_natAbs_of_nonpos hz.le, neg_neg]
  · rw [if_neg hz, ← Int.cast_natCast, Int.natAbs_of_nonneg (not_lt.1 hz)]

variable {z : ℤ}

theorem mem_decimal (h : c ∈ decimal z) : c = '-' ∨ c.isDigit := by
  rw [decimal] at h
  split_ifs at h
  · rcases mem_cons.1 h with rfl | h
    · exact .inl rfl
    · exact .inr (isDigit_toDigits h)
  · exact .inr (isDigit_toDigits h)

theorem decimal_head (z : ℤ) : ∃ c cs, decimal z = c :: cs ∧ (c = '-' ∨ c.isDigit) := by
  obtain ⟨c, cs, hc⟩ : ∃ c cs, decimal z = c :: cs := by
    apply exists_cons_of_ne_nil
    rw [decimal]
    split_ifs
    · simp
    · exact Nat.toDigits_ne_nil
  exact ⟨c, cs, hc, mem_decimal (hc ▸ mem_cons_self)⟩

theorem length_decimal (h : z.natAbs < 10 ^ 20) : (decimal z).length ≤ 21 := by
  have hlen : (Nat.toDigits 10 z.natAbs).length ≤ 20 :=
    (Nat.length_toDigits_le_iff (by norm_num) (by norm_num)).2 h
  rw [decimal]
  split_ifs
  · simpa using Nat.lt_succ_of_le hlen
  · omega

@[simp] theorem convert_int {lo hi : ℤ} (h : lo ≤ z ∧ z ≤ hi) :
    convert lo hi (z : ℚ) = .ok ⟨z, h⟩ := by
  simp [convert, h]

variable {fu : FloatUnit}

variable {val : MppCfgVal}

/-- The parser reads an integer back. -/
theorem numberValue_decimal (h : intMin ≤ z ∧ z ≤ llongMax) :
    numberValue fu (decimal z) = .ok (val.retype z) := by
  have habs : |z| ≤ ullongMax := abs_le.2 ⟨by simp only [intMin, ullongMax] at *; omega,
    by simp only [llongMax, ullongMax] at *; omega⟩
  have hpoint : '.' ∉ decimal z := by
    intro hp
    rcases mem_decimal hp with hp | hp <;> revert hp <;> decide
  rw [numberValue, strtold_decimal, fu.longDouble_int z habs, MppCfgVal.retype]
  change (if _ then _ else _) = _
  rw [if_neg hpoint]
  simp only [Int.cast_le, Int.cast_nonneg_iff]
  by_cases hint : intMin ≤ z ∧ z ≤ intMax
  · rw [if_pos hint, dif_pos hint, convert_int hint]
    rfl
  rw [if_neg hint, dif_neg hint]
  by_cases huint : 0 ≤ z ∧ z ≤ uintMax
  · rw [if_pos huint, dif_pos huint, convert_int huint]
    rfl
  -- what is left is positive, and the parser takes it for a `long long`
  have hullong : 0 ≤ z ∧ z ≤ ullongMax := by
    simp only [intMin, intMax, uintMax, llongMax, ullongMax] at *
    omega
  have hllong : llongMin ≤ z ∧ z ≤ llongMax := by
    simp only [intMin, llongMin] at *
    omega
  rw [if_neg huint, dif_neg huint, if_pos hllong, dif_pos hullong, convert_int hullong]
  rfl

/-- What follows a value in the text ends a number. -/
def Ends (rest : List Char) : Prop := ∃ b bs, rest = b :: bs ∧ isNumberByte b = false

variable {rest : List Char}

theorem parseNumber_decimal (hr : Ends rest) (h : intMin ≤ z ∧ z ≤ llongMax) :
    parseNumber fu (decimal z ++ rest) = .ok (val.retype z, rest) := by
  obtain ⟨b, bs, rfl, hb⟩ := hr
  have hnum : ∀ c ∈ decimal z, isNumberByte c := by
    intro c hc
    rcases mem_decimal hc with rfl | hd
    · decide
    · simp [isNumberByte, hd]
  have htake : (decimal z ++ b :: bs).takeWhile isNumberByte = decimal z := by
    rw [takeWhile_append_of_pos hnum, takeWhile_cons_of_neg (by simp [hb]),
      append_nil]
  have hlen : (decimal z).length ≤ 21 := by
    apply length_decimal
    simp only [intMin, llongMax] at h
    omega
  have hne : decimal z ≠ [] := by
    obtain ⟨c, cs, hc, -⟩ := decimal_head z
    simp [hc]
  rw [parseNumber]
  simp only [htake, length_append, length_cons, hne, if_false]
  rw [if_neg (by omega), @numberValue_decimal z fu val h]
  simp

/-! ## Strings -/

@[simp] theorem ofBuf_chars (s : CStr) : CStr.ofBuf s.chars = s := by
  rw [CStr.ext_iff]
  refine takeWhile_eq_self_iff.2 fun c hc => ?_
  obtain ⟨h0, h256⟩ := s.bytes c hc
  simp only [ne_eq, decide_not, Bool.and_eq_true, Bool.not_eq_eq_eq_not, Bool.not_true,
    decide_eq_false_iff_not, decide_eq_true_eq]
  exact ⟨fun h => h0 (h ▸ rfl), h256⟩

theorem expectByte_cons {ret : ℤ} (h : isWs c = false) :
    expectByte c ret (c :: cs) = .ok (c :: cs) := by
  simp [expectByte, h]

theorem skipByte_length (hr : rest ≠ []) {len : ℕ} (hl : cs.length = len) :
    skipByte (cs ++ rest) len = some rest := by
  have hpos := length_pos_iff.2 hr
  rw [skipByte, if_pos (by rw [length_append]; omega), ← hl, drop_left]

theorem parseJsonString_quoted (hq : quote ∉ cs) (hr : rest ≠ []) :
    parseJsonString (quoted cs ++ rest) = .ok (cs, rest) := by
  have htake : (cs ++ quote :: rest).takeWhile (· ≠ quote) = cs := by
    rw [takeWhile_append_of_pos (by simpa using fun c hc (h : c = quote) => hq (h ▸ hc)),
      takeWhile_cons_of_neg (by simp), append_nil]
  have hform : quoted cs ++ rest = quote :: (cs ++ quote :: rest) := by simp [quoted]
  have hopen : skipByte (quote :: (cs ++ quote :: rest)) 1 = some (cs ++ quote :: rest) :=
    @skipByte_length [quote] (cs ++ quote :: rest) (by simp) 1 rfl
  have hclose : skipByte (cs ++ quote :: rest) (cs.length + 1) = some rest := by
    have hskip := @skipByte_length (cs ++ [quote]) rest hr (cs.length + 1) (by simp)
    rwa [append_assoc] at hskip
  rw [parseJsonString, hform, expectByte_cons (by decide), ok_bind, hopen, orFail_some, ok_bind]
  simp only [htake]
  rw [if_pos (by simp), hclose, orFail_some, ok_bind]

/-! ## Leaves -/

theorem startsWith_append {w : List Char} (hr : rest ≠ []) : startsWith (w ++ rest) w := by
  have hpos := length_pos_iff.2 hr
  simp [startsWith, testByte, hpos]

theorem startsWith_cons_of_ne {d : Char} {ds : List Char} (h : d ≠ c) :
    startsWith (c :: cs) (d :: ds) = false := by
  simp [startsWith, List.isPrefixOf, h]

theorem advance_append {w : List Char} {len : ℕ} (hr : rest ≠ []) (hl : w.length = len) :
    advance (w ++ rest) len = rest := by
  rw [advance, skipByte_length hr hl, Option.getD_some]

variable {n depth : ℕ} {name : Option CStr}

theorem parseJsonValue_number (hc : c = '-' ∨ c.isDigit) :
    parseJsonValue fu (n + 1) depth name (c :: cs) =
      (parseNumber fu (c :: cs) >>= fun p => .ok (.leaf name p.1, p.2)) := by
  have hne : ∀ b : Char, b.isDigit = false → b ≠ '-' → b ≠ c := by
    rintro b hb hb' rfl
    rcases hc with rfl | hc
    · exact hb' rfl
    · simp [hb] at hc
  rw [parseJsonValue, startsWith_cons_of_ne (hne 'n' (by decide) (by decide)),
    startsWith_cons_of_ne (hne 't' (by decide) (by decide)),
    startsWith_cons_of_ne (hne 'f' (by decide) (by decide))]
  simp [(hne quote (by decide) (by decide)).symm, hc]

theorem parseJsonValue_string :
    parseJsonValue fu (n + 1) depth name (quote :: cs) =
      (recode nok (parseJsonString (quote :: cs)) >>= fun p =>
        .ok (.leaf name (.str (dupStr p.1)), p.2)) := by
  rw [parseJsonValue, startsWith_cons_of_ne (by decide), startsWith_cons_of_ne (by decide),
    startsWith_cons_of_ne (by decide)]
  simp

theorem parseJsonValue_branch {type : Branch} :
    parseJsonValue fu (n + 1) depth name (type.opening :: cs) =
      (parseBranch fu n type depth (type.opening :: cs) >>= fun p =>
        .ok (.branch name type p.1, p.2)) := by
  cases type <;>
    rw [parseJsonValue, Branch.opening, startsWith_cons_of_ne (by decide),
      startsWith_cons_of_ne (by decide), startsWith_cons_of_ne (by decide)] <;> rfl

theorem parseJsonValue_decimal (hr : Ends rest) (h : intMin ≤ z ∧ z ≤ llongMax) :
    parseJsonValue fu (n + 1) depth name (decimal z ++ rest) =
      .ok (.leaf name (val.retype z), rest) := by
  obtain ⟨c, cs, hc, hhead⟩ := decimal_head z
  rw [hc, cons_append, parseJsonValue_number hhead, ← cons_append, ← hc,
    @parseNumber_decimal z fu val rest hr h, ok_bind]

theorem parseJsonValue_quoted (hr : Ends rest) (hq : quote ∉ cs) :
    parseJsonValue fu (n + 1) depth name (quoted cs ++ rest) =
      .ok (.leaf name (.str (dupStr cs)), rest) := by
  obtain ⟨b, bs, rfl, -⟩ := hr
  have hform : quoted cs ++ b :: bs = quote :: (cs ++ quote :: b :: bs) := by simp [quoted]
  rw [hform, parseJsonValue_string, ← hform, parseJsonString_quoted hq (by simp),
    recode_ok, ok_bind]

theorem parseJsonValue_leaf (hr : Ends rest) (h : val.Readable) :
    parseJsonValue fu (n + 1) depth name (val.text ++ rest) =
      .ok (.leaf name val.readBack, rest) := by
  have hne : rest ≠ [] := by
    obtain ⟨b, bs, rfl, -⟩ := hr
    simp
  match val with
  | .null =>
    rw [parseJsonValue.eq_def, MppCfgVal.text]
    simp only
    rw [if_pos (startsWith_append hne), @advance_append rest ['n', 'u', 'l', 'l'] 4 hne rfl]
    rfl
  | .bool true =>
    rw [parseJsonValue.eq_def, MppCfgVal.text]
    simp only
    rw [cons_append, startsWith_cons_of_ne (by decide), ← cons_append,
      if_neg Bool.false_ne_true, if_pos (startsWith_append hne),
      @advance_append rest ['t', 'r', 'u', 'e'] 4 hne rfl]
    rfl
  | .bool false =>
    rw [parseJsonValue.eq_def, MppCfgVal.text]
    simp only
    rw [cons_append, startsWith_cons_of_ne (by decide), startsWith_cons_of_ne (by decide),
      ← cons_append, if_neg Bool.false_ne_true, if_neg Bool.false_ne_true,
      if_pos (startsWith_append hne), @advance_append rest ['f', 'a', 'l', 's', 'e'] 5 hne rfl]
    rfl
  | .s32 v =>
    have hv := v.2
    exact parseJsonValue_decimal hr (by simp only [intMin, intMax, llongMax] at *; omega)
  | .u32 v =>
    have hv := v.2
    exact parseJsonValue_decimal hr (by simp only [intMin, uintMax, llongMax] at *; omega)
  | .s64 v => exact parseJsonValue_decimal hr ⟨h, v.2.2⟩
  | .u64 v =>
    have hv := v.2
    exact parseJsonValue_decimal hr ⟨by simp only [intMin] at *; omega, h⟩
  | .str none => exact parseJsonValue_quoted hr (by decide)
  | .str (some s) => exact parseJsonValue_quoted hr h

end Libmpp.CfgIo
