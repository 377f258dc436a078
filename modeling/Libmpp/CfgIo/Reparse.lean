import Libmpp.CfgIo.ReadBack

/-!
# Reading a tree back

The parser goes through the text of a readable tree as the writer does (`parseJsonValue_text`):
every item of a loop ends at the comma or the newline behind it, and the whitespace there leads
to the next item or to the closing bracket.
-/

namespace Libmpp.CfgIo

open List

variable {fu : FloatUnit} {type : Branch} {depth : ℕ}

/-! ## Items -/

theorem text_head {val : MppCfgVal} (h : val.Readable) :
    ∃ b bs, val.text = b :: bs ∧ isWs b = false ∧ b ≠ '}' ∧ b ≠ ']' := by
  have hint : ∀ z : ℤ, ∃ b bs, decimal z = b :: bs ∧ isWs b = false ∧ b ≠ '}' ∧ b ≠ ']' := by
    intro z
    obtain ⟨b, bs, hz, hb⟩ := decimal_head z
    refine ⟨b, bs, hz, ?_⟩
    rcases hb with rfl | hb
    · decide
    · exact ⟨isWs_of_isDigit hb, ne_of_isDigit hb (by decide), ne_of_isDigit hb (by decide)⟩
  match val with
  | .null => exact ⟨_, _, rfl, by decide⟩
  | .bool true => exact ⟨_, _, rfl, by decide⟩
  | .bool false => exact ⟨_, _, rfl, by decide⟩
  | .s32 v => exact hint v
  | .u32 v => exact hint v
  | .s64 v => exact hint v
  | .u64 v => exact hint v
  | .str none => exact ⟨_, _, rfl, by decide⟩
  | .str (some s) => exact ⟨_, _, rfl, by decide⟩

variable {c : Cfg MppCfgVal}

/-- The text of a node starts with a byte that is neither whitespace nor a closing bracket. -/
theorem body_head (depth : ℕ) (h : Readable c) :
    ∃ b bs, body depth c = b :: bs ∧ isWs b = false ∧ b ≠ '}' ∧ b ≠ ']' := by
  rcases hname : c.name with _ | name
  · rw [body, hname, nameText, nil_append]
    rcases c with ⟨name, val⟩ | ⟨name, type, child⟩
    · exact text_head h
    · rw [valueText]
      split_ifs <;> exact ⟨_, _, rfl, by cases type <;> decide⟩
  · rw [body, hname]
    exact ⟨_, _, rfl, by decide⟩

/-- The text of items from the start of the first. -/
def items (depth : ℕ) : List (Cfg MppCfgVal) → List Char → List Char
  | [], tail => tail
  | c :: cs, tail => body depth c ++ (separator cs ++ '\n' :: (inner depth cs ++ tail))

theorem skipWs_items (h : Readable c) (cs : List (Cfg MppCfgVal)) (tail : List Char) :
    skipWs (items depth (c :: cs) tail) = some (items depth (c :: cs) tail) := by
  obtain ⟨b, bs, hb, hws, -⟩ := body_head depth h
  rw [items, hb]
  exact skipWs_cons_of_not hws

/-- The whitespace before an item. -/
theorem skipWs_inner (h : Readable c) (cs : List (Cfg MppCfgVal)) (tail : List Char) :
    skipWs ('\n' :: (inner depth (c :: cs) ++ tail)) = some (items depth (c :: cs) tail) := by
  have hws : ∀ b ∈ '\n' :: indent depth, isWs b := by
    intro b hb
    rcases mem_cons.1 hb with rfl | hb
    · decide
    · exact isWs_indent depth b hb
  have hform : '\n' :: (inner depth (c :: cs) ++ tail) =
      ('\n' :: indent depth) ++ items depth (c :: cs) tail := by
    simp [inner, items, body]
  rw [hform, skipWs_append hws, skipWs_items h]

theorem items_head (h : Readable c) (cs : List (Cfg MppCfgVal)) (tail : List Char) :
    (items depth (c :: cs) tail).head? ≠ some type.closing := by
  obtain ⟨b, bs, hb, -, hbrace, hbracket⟩ := body_head depth h
  rw [items, hb]
  cases type
  · simpa [Branch.closing] using hbrace
  · simpa [Branch.closing] using hbracket

/-- The whitespace before the closing bracket. -/
theorem afterItem_last (rest : List Char) :
    afterItem type ('\n' :: (indent depth ++ type.closing :: rest)) =
      .ok (false, type.closing :: rest) := by
  have hws : ∀ b ∈ '\n' :: indent depth, isWs b := by
    intro b hb
    rcases mem_cons.1 hb with rfl | hb
    · decide
    · exact isWs_indent depth b hb
  have hskip : skipWs ('\n' :: (indent depth ++ type.closing :: rest)) =
      some (type.closing :: rest) := by
    rw [← cons_append, skipWs_append hws, skipWs_cons_of_not (by cases type <;> decide)]
  have hcomma : type.closing ≠ ',' := by cases type <;> decide
  rw [afterItem, hskip]
  simp [hcomma]

theorem afterItem_next (h : Readable c) (cs : List (Cfg MppCfgVal)) (tail : List Char) :
    afterItem type (',' :: '\n' :: (inner depth (c :: cs) ++ tail)) =
      .ok (true, items depth (c :: cs) tail) := by
  have hskip : skipByte (',' :: '\n' :: (inner depth (c :: cs) ++ tail)) 1 =
      some ('\n' :: (inner depth (c :: cs) ++ tail)) :=
    @skipByte_length [','] _ (by simp) 1 rfl
  have hhead := @items_head .object depth c h cs tail
  rw [afterItem, skipWs_cons_of_not (by decide), orFail_some, ok_bind, if_pos head?_cons,
    hskip, orFail_some, ok_bind, skipWs_inner h]
  simpa [Branch.closing] using hhead

/-! ## Brackets -/

variable {rest : List Char}

theorem enter_text (h : Readable c) (cs : List (Cfg MppCfgVal)) {name : Option CStr}
    (hd : depth < maxCfgDepth) :
    enter type depth (valueText depth (.branch name type (c :: cs)) ++ rest) =
      .ok (false, items (depth + 1) (c :: cs) (indent depth ++ type.closing :: rest)) := by
  have hform : valueText depth (.branch name type (c :: cs)) ++ rest =
      type.opening :: ('\n' :: (inner (depth + 1) (c :: cs) ++
        (indent depth ++ type.closing :: rest))) := by
    simp [valueText]
  have hskip := @skipByte_length [type.opening] ('\n' :: (inner (depth + 1) (c :: cs) ++
        (indent depth ++ type.closing :: rest))) (by simp) 1 rfl
  rw [singleton_append] at hskip
  rw [hform, enter, if_neg (by omega), if_neg (by simp), hskip, orFail_some, ok_bind,
    skipWs_inner h, orFail_some, ok_bind, if_neg (items_head h _ _)]

theorem enter_empty {name : Option CStr} (hd : depth < maxCfgDepth) (hr : rest ≠ []) :
    enter type depth (valueText depth (.branch name type []) ++ rest) = .ok (true, rest) := by
  have hskip := @skipByte_length [type.opening] (type.closing :: rest) (by simp) 1 rfl
  rw [singleton_append] at hskip
  rw [enter, if_neg (by omega)]
  simp only [valueText, isEmpty_nil, if_true, cons_append, nil_append, hskip,
    head?_cons, ne_eq, not_true_eq_false, if_false, orFail_some, ok_bind]
  rw [skipWs_cons_of_not (by cases type <;> decide), orFail_some, ok_bind, head?_cons,
    if_pos rfl]
  exact congrArg (fun r => Except.ok (true, r)) (@advance_append rest [type.closing] 1 hr rfl)

theorem leave_closing (hr : rest ≠ []) : leave type (type.closing :: rest) = .ok rest := by
  rw [leave, expectByte_cons (by cases type <;> decide), ok_bind]
  exact congrArg Except.ok (@advance_append rest [type.closing] 1 hr rfl)

/-! ## Trees -/

theorem ends_newline (rest : List Char) : Ends ('\n' :: rest) := ⟨_, _, rfl, by decide⟩

/-- A comma or a newline ends a number. -/
theorem ends_separator (cs : List (Cfg MppCfgVal)) (rest : List Char) :
    Ends (separator cs ++ '\n' :: rest) := by
  rw [separator]
  split_ifs
  · exact ends_newline rest
  · exact ⟨_, _, rfl, by decide⟩

theorem valueText_head (depth : ℕ) (h : Readable c) :
    ∃ b bs, valueText depth c = b :: bs ∧ isWs b = false := by
  rcases c with ⟨name, val⟩ | ⟨name, type, child⟩
  · obtain ⟨b, bs, hb, hws, -⟩ := text_head h
    exact ⟨b, bs, hb, hws⟩
  · rw [valueText]
    split_ifs <;> exact ⟨_, _, rfl, by cases type <;> decide⟩

theorem parseName_text {name : CStr} (hne : name.chars ≠ []) (hq : quote ∉ name.chars)
    {b : Char} {bs : List Char} (hb : isWs b = false) :
    parseName (nameText (some name) ++ b :: bs) = .ok (name, b :: bs) := by
  have hform : nameText (some name) ++ b :: bs =
      quoted name.chars ++ ([' '] ++ ':' :: ' ' :: b :: bs) := by
    simp [nameText]
  have hcolon :
      expectByte ':' (-5) ([' '] ++ ':' :: ' ' :: b :: bs) = .ok (':' :: ' ' :: b :: bs) := by
    rw [expectByte, @skipWs_append _ [' '] (by simp [isWs]), skipWs_cons_of_not (by decide)]
    rfl
  have hskip : skipByte (':' :: ' ' :: b :: bs) 1 = some (' ' :: b :: bs) :=
    @skipByte_length [':'] (' ' :: b :: bs) (by simp) 1 rfl
  have hws : skipWs (' ' :: b :: bs) = some (b :: bs) := by
    rw [← singleton_append, @skipWs_append _ [' '] (by simp [isWs]), skipWs_cons_of_not hb]
  rw [parseName, hform, parseJsonString_quoted hq (by simp), ok_bind]
  simp only [hcolon, ok_bind, hskip, orFail_some, hws, dupStr, hne, if_false, ofBuf_chars]

/-- An item is read back when its value is. -/
theorem parseItem_text (hname : NameOk type c) (h : Readable c) {n : ℕ}
    (hvalue : ∀ m, n ≤ m → parseJsonValue fu m depth c.name (valueText depth c ++ rest) =
      .ok (c.map MppCfgVal.readBack, rest)) :
    parseItem (parseJsonValue fu n depth) (parseBranch fu n .array depth) type
      (body depth c ++ rest) = .ok (c.map MppCfgVal.readBack, rest) := by
  obtain ⟨b, bs, hb, hws⟩ := valueText_head depth h
  rcases type with _ | _
  · -- either an array without a name, or a member with one
    rcases hc : c.name with _ | name
    · obtain ⟨child, rfl⟩ : ∃ child, c = .branch none .array child := by
        rcases c with ⟨_ | _, _⟩ | ⟨_ | _, _ | _, child⟩ <;> simp_all [NameOk, Cfg.name]
      obtain ⟨bs, hbs⟩ : ∃ bs, valueText depth (.branch none .array child) = '[' :: bs := by
        rw [valueText]
        split_ifs <;> exact ⟨_, rfl⟩
      have harray := hvalue (n + 1) (Nat.le_succ n)
      rw [hbs, cons_append, ← show Branch.array.opening = '[' from rfl,
        parseJsonValue_branch, bind_eq_ok] at harray
      obtain ⟨⟨cs, r⟩, hparse, hcs⟩ := harray
      rw [body, hc, nameText, nil_append, hbs, parseItem, cons_append,
        if_pos head?_cons, ← show Branch.array.opening = '[' from rfl, hparse, ok_bind]
      exact hcs
    · obtain ⟨hne, hq⟩ : name.chars ≠ [] ∧ quote ∉ name.chars := by
        rcases c with ⟨_ | _, _⟩ | ⟨_ | _, _ | _, child⟩ <;> simp_all [NameOk, Cfg.name]
      have hhead : (body depth c ++ rest).head? ≠ some '[' := by
        rw [body, hc]
        have hquote : quote ≠ '[' := by decide
        simpa [nameText, quoted] using hquote
      have hv := hvalue n le_rfl
      rw [parseItem, if_neg hhead, body, hc, append_assoc, hb, cons_append,
        parseName_text hne hq hws, ok_bind]
      rw [hc, hb, cons_append] at hv
      simp only [hv, recode_ok]
  · rw [NameOk] at hname
    rw [body, hname, nameText, nil_append, parseItem]
    have hv := hvalue n le_rfl
    rw [hname, hb, cons_append] at hv
    rw [hb, cons_append, skipWs_cons_of_not hws, orFail_some, ok_bind, hv, recode_ok]

mutual

/-- The parser reads the value of a node back. -/
theorem parseJsonValue_text (depth : ℕ) :
    (c : Cfg MppCfgVal) → Readable c → ∀ {n rest}, c.depth + depth < maxCfgDepth → Ends rest →
      3 * (valueText depth c ++ rest).length + 2 ≤ n →
      parseJsonValue fu n depth c.name (valueText depth c ++ rest) =
        .ok (c.map MppCfgVal.readBack, rest)
  | .leaf name val, h, n, rest, hd, hr, hn => by
    obtain ⟨n, rfl⟩ : ∃ m, n = m + 1 := ⟨n - 1, by omega⟩
    exact parseJsonValue_leaf hr h
  | .branch name type child, h, n, rest, hd, hr, hn => by
    have hne : rest ≠ [] := by
      obtain ⟨b, bs, rfl, -⟩ := hr
      simp
    obtain ⟨n, rfl⟩ : ∃ m, n = m + 2 := ⟨n - 2, by omega⟩
    have hdepth : depth < maxCfgDepth := by omega
    have hbranch : parseBranch fu (n + 1) type depth
        (valueText depth (.branch name type child) ++ rest) =
          .ok (Cfg.mapAll MppCfgVal.readBack child, rest) := by
      rcases child with _ | ⟨c, cs⟩
      · rw [parseBranch, enter_empty hdepth hne]
        rfl
      · have hitems := @parseItems_text depth type (c :: cs) h (by simp) n rest hd
          (by simp [valueText, inner, items, body] at hn ⊢; omega)
        rw [parseBranch, enter_text h.2.1 cs hdepth, ok_bind]
        simp only [Bool.false_eq_true, if_false]
        rw [hitems, ok_bind, leave_closing hne, ok_bind]
    obtain ⟨bs, hbs⟩ : ∃ bs, valueText depth (.branch name type child) ++ rest =
        type.opening :: bs := by
      rw [valueText]
      split_ifs <;> exact ⟨_, rfl⟩
    rw [hbs] at hbranch ⊢
    rw [parseJsonValue_branch, hbranch, ok_bind]
    rfl

/-- The loops of the parser read the children of a branch back. -/
theorem parseItems_text (depth : ℕ) (type : Branch) :
    (cs : List (Cfg MppCfgVal)) → ReadableAll type cs → cs ≠ [] →
      ∀ {n rest}, Cfg.depthAll cs + depth < maxCfgDepth →
      3 * (items (depth + 1) cs (indent depth ++ type.closing :: rest)).length + 3 ≤ n →
      parseItems fu n type (depth + 1)
          (items (depth + 1) cs (indent depth ++ type.closing :: rest)) =
        .ok (Cfg.mapAll MppCfgVal.readBack cs, type.closing :: rest)
  | [], _, hne, _, _, _, _ => absurd rfl hne
  | c :: cs, h, _, n, rest, hd, hn => by
    obtain ⟨n, rfl⟩ : ∃ m, n = m + 1 := ⟨n - 1, by omega⟩
    have hdc : c.depth + (depth + 1) < maxCfgDepth := by
      have := Nat.le_max_left (c.depth + 1) (Cfg.depthAll cs)
      simp only [Cfg.depthAll] at hd
      omega
    have hitem : parseItem (parseJsonValue fu n (depth + 1)) (parseBranch fu n .array (depth + 1))
        type (items (depth + 1) (c :: cs) (indent depth ++ type.closing :: rest)) =
          .ok (c.map MppCfgVal.readBack, separator cs ++
            '\n' :: (inner (depth + 1) cs ++ (indent depth ++ type.closing :: rest))) := by
      rw [items]
      refine parseItem_text h.1 h.2.1 fun m hm => ?_
      refine parseJsonValue_text (depth + 1) c h.2.1 hdc (ends_separator _ _) ?_
      rw [items, body] at hn
      simp only [length_append] at hn ⊢
      omega
    rw [parseItems, hitem, ok_bind]
    rcases cs with _ | ⟨c', cs⟩
    · have hlast := @afterItem_last type depth rest
      simp only [separator, isEmpty_nil, if_true, nil_append, inner, hlast, ok_bind,
        Bool.false_eq_true, if_false]
      rfl
    · have hnext := @afterItem_next type (depth + 1) c' h.2.2.2.1 cs
        (indent depth ++ type.closing :: rest)
      have hdcs : Cfg.depthAll (c' :: cs) + depth < maxCfgDepth := by
        have := Nat.le_max_right (c.depth + 1) (Cfg.depthAll (c' :: cs))
        rw [Cfg.depthAll] at hd
        omega
      have hitems := @parseItems_text depth type (c' :: cs) h.2.2 (by simp) n rest hdcs (by
          simp only [items, inner, length_append, length_cons, body] at hn ⊢
          omega)
      simp only [separator, isEmpty_cons, Bool.false_eq_true, if_false, singleton_append,
        hnext, ok_bind, if_true, hitems]
      rfl

end

end Libmpp.CfgIo
