import Libmpp.CfgIo.Reparse
import Libmpp.CfgIo.Accept

/-!
# The round trip through a text

A configuration tree comes back from its JSON text as it was exactly when it is `Plain`
(`roundTrips_iff`): the root has no name, the names are the ones the parser accepts, no string
is empty, `NULL` or has a double quote, no integer is below `INT_MIN` or above `LLONG_MAX`, no
line is longer than the line buffer and the text is shorter than 1 GiB.
-/

namespace Libmpp.CfgIo

open Brackets List Option

/-! ## Bytes -/

def IsByte (c : Char) : Prop := c.toNat ≠ 0 ∧ c.toNat < 256

instance (c : Char) : Decidable (IsByte c) := inferInstanceAs (Decidable (_ ∧ _))

theorem isByte_of_isDigit {c : Char} (h : c.isDigit) : IsByte c := by
  have hws := isWs_of_isDigit h
  simp only [isWs, Bool.or_eq_false_iff, decide_eq_false_iff_not] at hws
  exact ⟨by omega, by omega⟩

theorem isByte_quoted {cs : List Char} (h : ∀ c ∈ cs, IsByte c) : ∀ c ∈ quoted cs, IsByte c := by
  intro c hc
  simp only [quoted, mem_append, mem_singleton] at hc
  rcases hc with (rfl | hc) | rfl
  · decide
  · exact h c hc
  · decide

theorem isByte_decimal (z : ℤ) : ∀ c ∈ decimal z, IsByte c := by
  intro c hc
  rcases mem_decimal hc with rfl | hd
  · decide
  · exact isByte_of_isDigit hd

theorem isByte_fixed (q : ℚ) : ∀ c ∈ fixed q, IsByte c := by
  intro c hc
  simp only [fixed, mem_append, mem_singleton] at hc
  rcases hc with (((hc | hc) | rfl) | hc) | hc
  · split_ifs at hc
    · obtain rfl := mem_singleton.1 hc
      decide
    · simp at hc
  · exact isByte_of_isDigit (isDigit_toDigits hc)
  · decide
  · obtain rfl := eq_of_mem_replicate hc
    decide
  · exact isByte_of_isDigit (isDigit_toDigits hc)

theorem isByte_text (val : MppCfgVal) : ∀ c ∈ val.text, IsByte c :=
  match val with
  | .null => by simp [MppCfgVal.text, IsByte]
  | .bool true => by simp [MppCfgVal.text, IsByte]
  | .bool false => by simp [MppCfgVal.text, IsByte]
  | .s32 v => isByte_decimal v
  | .u32 v => isByte_decimal v
  | .s64 v => isByte_decimal v
  | .u64 v => isByte_decimal v
  | .f32 v => isByte_fixed v
  | .f64 v => isByte_fixed v
  | .str none => isByte_quoted (by simp [IsByte])
  | .str (some s) => isByte_quoted s.bytes

theorem isByte_nameText : (name : Option CStr) → ∀ c ∈ nameText name, IsByte c
  | none => by simp [nameText]
  | some n => by
    intro c hc
    rcases mem_append.1 hc with hc | hc
    · exact isByte_quoted n.bytes c hc
    · simp only [mem_cons, not_mem_nil, or_false] at hc
      rcases hc with rfl | rfl | rfl <;> decide

theorem isByte_indent (depth : ℕ) : ∀ c ∈ indent depth, IsByte c := by
  intro c hc
  rw [eq_of_mem_replicate hc]
  decide

mutual

theorem isByte_valueText (depth : ℕ) : (c : Cfg MppCfgVal) → ∀ b ∈ valueText depth c, IsByte b
  | .leaf _ val => isByte_text val
  | .branch _ type child => by
    have hinner := isByte_inner (depth + 1) child
    have hindent := isByte_indent depth
    have hopen : IsByte type.opening := by cases type <;> decide
    have hclose : IsByte type.closing := by cases type <;> decide
    have hnl : IsByte '\n' := by decide
    rw [valueText]
    split_ifs
    · simp [hopen, hclose]
    · intro b hb
      simp only [mem_append, mem_cons, not_mem_nil, or_false] at hb
      rcases hb with (((rfl | rfl) | hb) | hb) | rfl
      · exact hopen
      · exact hnl
      · exact hinner b hb
      · exact hindent b hb
      · exact hclose

theorem isByte_inner (depth : ℕ) :
    (cs : List (Cfg MppCfgVal)) → ∀ b ∈ inner depth cs, IsByte b
  | [] => by simp [inner]
  | c :: cs => by
    have hvalue := isByte_valueText depth c
    have hinner := isByte_inner depth cs
    have hsep : ∀ b ∈ separator cs, IsByte b := by
      rw [separator]
      split_ifs
      · simp
      · simp [IsByte]
    intro b hb
    simp only [inner, mem_append, mem_singleton] at hb
    rcases hb with (((hb | hb | hb) | hb) | rfl) | hb
    · exact isByte_indent depth b hb
    · exact isByte_nameText c.name b hb
    · exact hvalue b hb
    · exact hsep b hb
    · decide
    · exact hinner b hb

end

theorem isByte_body (depth : ℕ) (c : Cfg MppCfgVal) : ∀ b ∈ body depth c, IsByte b := by
  intro b hb
  rcases mem_append.1 hb with hb | hb
  · exact isByte_nameText c.name b hb
  · exact isByte_valueText depth c b hb

/-! ## Balance -/

theorem balanced_indent (depth : ℕ) : json.Balanced (indent depth) :=
  .of_plain fun c hc => plain_of_isWs (isWs_indent depth c hc)

theorem balanced_newline : json.Balanced ['\n'] :=
  .of_plain (by simp [Plain, json]; decide)

theorem balanced_decimal (z : ℤ) : json.Balanced (decimal z) := by
  refine .of_plain fun c hc => plain_of_isNumberByte ?_
  rcases mem_decimal hc with rfl | hd
  · decide
  · simp [isNumberByte, hd]

variable {val : MppCfgVal}

theorem balanced_text (h : val.Readable) : json.Balanced val.text :=
  match val with
  | .null => .of_plain (by simp [MppCfgVal.text, Plain, json]; decide)
  | .bool true => .of_plain (by simp [MppCfgVal.text, Plain, json]; decide)
  | .bool false => .of_plain (by simp [MppCfgVal.text, Plain, json]; decide)
  | .s32 v => balanced_decimal v
  | .u32 v => balanced_decimal v
  | .s64 v => balanced_decimal v
  | .u64 v => balanced_decimal v
  | .str none => Balanced.string (by simp [json]; decide)
  | .str (some _) => Balanced.string h

variable {c : Cfg MppCfgVal}

theorem balanced_nameText {type : Branch} (h : NameOk type c) :
    json.Balanced (nameText c.name) := by
  rcases hc : c.name with _ | name
  · exact .nil
  · have hq : quote ∉ name.chars := by
      rcases type with _ | _
      · rcases c with ⟨_ | _, _⟩ | ⟨_ | _, _ | _, _⟩ <;> simp_all [NameOk, Cfg.name]
      · rw [NameOk, hc] at h
        simp at h
    exact (Balanced.string hq).append (.of_plain (by simp [Plain, json]; decide))

theorem balanced_separator (cs : List (Cfg MppCfgVal)) : json.Balanced (separator cs) := by
  rw [separator]
  split_ifs
  · exact .nil
  · exact .of_plain (by simp [Plain, json]; decide)

mutual

/-- The text of a readable tree is balanced. -/
theorem balanced_valueText (depth : ℕ) :
    (c : Cfg MppCfgVal) → Readable c → json.Balanced (valueText depth c)
  | .leaf _ val, h => balanced_text h
  | .branch _ type child, h => by
    have hinner := balanced_inner (depth + 1) type child h
    rw [valueText]
    split_ifs
    · exact balanced_branch .nil
    · have hlines := (balanced_newline.append hinner).append (balanced_indent depth)
      simpa using @balanced_branch type _ hlines

theorem balanced_inner (depth : ℕ) (type : Branch) :
    (cs : List (Cfg MppCfgVal)) → ReadableAll type cs → json.Balanced (inner depth cs)
  | [], _ => .nil
  | c :: cs, h =>
    ((((balanced_indent depth).append
      ((balanced_nameText h.1).append (balanced_valueText depth c h.2.1))).append
        (balanced_separator cs)).append balanced_newline).append
          (balanced_inner depth type cs h.2.2)

end

/-! ## Readable trees -/

variable {fu : FloatUnit}

theorem ofBuf_prefix (w : List Char) : (CStr.ofBuf w).chars <+: w := takeWhile_prefix _

variable {w : List Char}

theorem ofBuf_of_bytes (h : ∀ c ∈ w, IsByte c) : (CStr.ofBuf w).chars = w :=
  ofBuf_eq h

/-- The text of an object is the text of its value and a rest that ends a number. -/
theorem text_object (child : List (Cfg MppCfgVal)) :
    ∃ rest, text 0 (.branch none .object child) ++ [nul] =
      valueText 0 (.branch none .object child) ++ rest ∧ Ends rest := by
  refine ⟨comma 0 (.branch none .object child) ++ ['\n', nul], ?_, ?_⟩
  · simp [text, body, indent, nameText, Cfg.name]
  · cases child with
    | nil => exact ⟨_, _, rfl, by decide⟩
    | cons c cs => exact ⟨_, _, rfl, by decide⟩

theorem valueText_object (child : List (Cfg MppCfgVal)) :
    ∃ bs, valueText 0 (.branch none .object child) = '{' :: bs := by
  rw [valueText]
  split_ifs <;> exact ⟨_, rfl⟩

/-- A text that starts with an opening brace is that of an object. -/
theorem mppCfgFromJson_brace (bs : List Char) :
    mppCfgFromJson fu ('{' :: bs) =
      (parseBranch fu (3 * ('{' :: bs).length + 3) .object 0 ('{' :: bs) >>= fun p =>
        .ok (some (.branch none .object p.1))) := by
  have hmark : utf8Mark.isPrefixOf ('{' :: bs) = false := by
    simp [utf8Mark, List.isPrefixOf]
  rw [mppCfgFromJson, hmark, Bool.and_false]
  simp only [Bool.false_eq_true, if_false]
  rw [skipWs_cons_of_not (by decide), orFail_some, ok_bind, if_pos head?_cons]

/-- A text that starts with a quote is accepted without a tree. -/
theorem mppCfgFromJson_quote (bs : List Char) : mppCfgFromJson fu (quote :: bs) = .ok none := by
  have hmark : utf8Mark.isPrefixOf (quote :: bs) = false := by
    have hne : Char.ofNat 239 ≠ quote := by decide
    simp [utf8Mark, List.isPrefixOf, hne]
  have hbrace : quote ≠ '{' := by decide
  have hbracket : quote ≠ '[' := by decide
  rw [mppCfgFromJson, hmark, Bool.and_false]
  simp only [Bool.false_eq_true, if_false]
  rw [skipWs_cons_of_not (by decide), orFail_some, ok_bind, head?_cons,
    if_neg (by simpa using hbrace), if_neg (by simpa using hbracket)]

variable {child : List (Cfg MppCfgVal)}

/-- The parser reads a readable tree back. -/
theorem mppCfgFromJson_text (h : Readable (.branch none .object child))
    (hd : (Cfg.branch none .object child).depth < maxCfgDepth) :
    mppCfgFromJson fu (text 0 (.branch none .object child) ++ [nul]) =
      .ok (some ((Cfg.branch none .object child).map MppCfgVal.readBack)) := by
  obtain ⟨rest, htext, hr⟩ := text_object child
  obtain ⟨bs, hbs⟩ := valueText_object child
  have hparse := @parseJsonValue_text fu 0 _ h
    (3 * (valueText 0 (.branch none .object child) ++ rest).length + 4) rest hd hr (by omega)
  rw [htext]
  rw [hbs, cons_append] at hparse ⊢
  rw [mppCfgFromJson_brace]
  rw [← show Branch.object.opening = '{' from rfl, parseJsonValue_branch, bind_eq_ok] at hparse
  obtain ⟨⟨cs, r⟩, hbranch, hcs⟩ := hparse
  obtain ⟨hcs, -⟩ : _ ∧ r = rest := by simpa using hcs
  rw [← show Branch.object.opening = '{' from rfl, hbranch, ok_bind]
  simpa [Cfg.name] using hcs

/-- What the writer gives for a tree. -/
theorem mppCfgToString_eq_some {buf : CStr} (h : mppCfgToString c = some buf) :
    ∃ w, written 0 c = some w ∧ w.length < 2 ^ 30 ∧ buf = .ofBuf w := by
  obtain ⟨str, hstr, rfl⟩ := map_eq_some_iff.1 h
  have hroomy : Roomy { buf := [], bufSize := 4096 } := ⟨by simp, 12, by norm_num⟩
  obtain ⟨w, hw, hbuf, hr⟩ := (mppCfgToJson_appends 0 c _ hroomy).2 str hstr
  rw [nil_append] at hbuf
  exact ⟨w, hw, hbuf ▸ hr.lt, by rw [hbuf]⟩

theorem mppCfgToString_of_fits (hfits : Fits c) (hsize : size c < 2 ^ 30) :
    mppCfgToString c = some (.ofBuf (text 0 c)) := by
  have hroomy : Roomy { buf := [], bufSize := 4096 } := ⟨by simp, 12, by norm_num⟩
  obtain ⟨str, hstr, hbuf, -⟩ := (mppCfgToJson_appends 0 c _ hroomy).1 _
    (written_of_fits 0 c hfits) (by rw [length_text]; simpa using hsize)
  rw [nil_append] at hbuf
  rw [mppCfgToString, hstr, map_some, hbuf]

theorem isByte_textOf (c : Cfg MppCfgVal) : ∀ b ∈ text 0 c, IsByte b := by
  intro b hb
  simp only [text, mem_append, mem_singleton] at hb
  rcases hb with ((hb | hb) | hb) | rfl
  · exact isByte_indent 0 b hb
  · exact isByte_body 0 c b hb
  · have hcomma : comma 0 c ⊆ [','] := by
      rcases c with ⟨_, _⟩ | ⟨_, _, _ | _⟩ <;> simp [comma]
    rw [mem_singleton.1 (hcomma hb)]
    decide
  · decide

/-! ## The round trip -/

/-- The tree comes back from its text with the same shape, names and values. -/
def RoundTrips (fu : FloatUnit) (c : Cfg MppCfgVal) : Prop :=
  ∃ buf c', mppCfgToString c = some buf ∧ mppCfgFromString fu buf = .ok (some c') ∧
    c'.map MppCfgVal.meaning = c.map MppCfgVal.meaning

/-- The value comes back as it was. -/
def MppCfgVal.Plain : MppCfgVal → Prop
  | s64 v => intMin ≤ v
  | u64 v => v ≤ llongMax
  | str none => False
  | str (some s) => s.chars ≠ [] ∧ quote ∉ s.chars
  | _ => True

/-- The trees that come back as they were. -/
structure Plain (c : Cfg MppCfgVal) : Prop where
  name : c.name = none
  shaped : Shaped MppCfgVal.Plain c
  fits : Fits c
  size : size c < 2 ^ 30

theorem meaning_retype {z : ℤ} (h : intMin ≤ z ∧ z ≤ llongMax) :
    (val.retype z).meaning = .int z := by
  rw [MppCfgVal.retype]
  split_ifs with hint huint hullong
  · rfl
  · rfl
  · rfl
  · simp only [intMin, intMax, uintMax, llongMax, ullongMax] at *
    omega

theorem meaning_readBack (h : val.Plain) : val.readBack.meaning = val.meaning := by
  match val with
  | .null => rfl
  | .bool _ => rfl
  | .s32 v =>
    have hv := v.2
    exact meaning_retype ⟨hv.1, by simp only [intMax, llongMax] at *; omega⟩
  | .u32 v =>
    have hv := v.2
    exact meaning_retype ⟨by simp only [intMin] at *; omega,
      by simp only [uintMax, llongMax] at *; omega⟩
  | .s64 v => exact meaning_retype ⟨h, v.2.2⟩
  | .u64 v =>
    have hv := v.2
    exact meaning_retype ⟨by simp only [intMin] at *; omega, h⟩
  | .f32 _ => rfl
  | .f64 _ => rfl
  | .str (some s) => simp [MppCfgVal.readBack, dupStr, h.1]

/-- A value that the parser accepts and that comes back is plain. -/
theorem plain_of_readBack (h : val.meaning.Parsed) (hback : val.readBack.meaning = val.meaning) :
    val.Plain := by
  match val with
  | .null => trivial
  | .bool _ => trivial
  | .s32 _ => trivial
  | .u32 _ => trivial
  | .s64 _ => exact h.1
  | .u64 _ => exact h.2
  | .f32 _ => trivial
  | .f64 _ => trivial
  | .str none => simp [MppCfgVal.readBack, MppCfgVal.meaning] at hback
  | .str (some s) => exact h

theorem readable_of_plain (h : val.Plain) (hf : ¬ val.IsFloat) : val.Readable := by
  match val with
  | .null => trivial
  | .bool _ => trivial
  | .s32 _ => trivial
  | .u32 _ => trivial
  | .s64 _ => exact h
  | .u64 _ => exact h
  | .f32 _ => exact hf trivial
  | .f64 _ => exact hf trivial
  | .str (some _) => exact h.2

theorem readable_of_parsed (h : val.meaning.Parsed) (hf : ¬ val.IsFloat) : val.Readable := by
  match val with
  | .null => trivial
  | .bool _ => trivial
  | .s32 _ => trivial
  | .u32 _ => trivial
  | .s64 _ => exact h.1
  | .u64 _ => exact h.2
  | .f32 _ => exact hf trivial
  | .f64 _ => exact hf trivial
  | .str none => trivial
  | .str (some _) => exact h.2

/-- The root is an object, nodes are above `MAX_CFG_DEPTH`, and no value is floating-point. -/
structure IsConfig (c : Cfg MppCfgVal) : Prop where
  object : c.IsObject
  depth : c.depth < maxCfgDepth
  leaves : c.Leaves fun val => ¬ val.IsFloat

theorem IsConfig.exists_eq (h : IsConfig c) : ∃ name child, c = .branch name .object child := by
  rcases c with ⟨_, _⟩ | ⟨name, _ | _, child⟩
  · exact h.object.elim
  · exact ⟨name, child, rfl⟩
  · exact h.object.elim

theorem mppCfgFromString_ofBuf (hne : (CStr.ofBuf w).chars ≠ []) :
    mppCfgFromString fu (.ofBuf w) = mppCfgFromJson fu ((CStr.ofBuf w).chars ++ [nul]) := by
  rw [mppCfgFromString, if_neg fun h => hne (length_eq_zero_iff.1 h)]

theorem roundTrips_of_plain (hc : IsConfig c) (h : Plain c) : RoundTrips fu c := by
  obtain ⟨name, child, rfl⟩ := hc.exists_eq
  obtain rfl : name = none := h.name
  have hreadable := Shaped.imp (fun _ => readable_of_plain) _ h.shaped hc.leaves
  have hchars := ofBuf_of_bytes (isByte_textOf (.branch none .object child))
  refine ⟨_, (Cfg.branch none .object child).map MppCfgVal.readBack,
    mppCfgToString_of_fits h.fits h.size, ?_, ?_⟩
  · rw [mppCfgFromString_ofBuf (by rw [hchars]; simp [text]), hchars]
    exact mppCfgFromJson_text hreadable hc.depth
  · rw [Cfg.map_map, Cfg.map_eq_map]
    exact Shaped.leaves (fun _ => meaning_readBack) _ h.shaped

/-- What is known of a tree that comes back. -/
theorem RoundTrips.parse (h : RoundTrips fu c) :
    ∃ w c', written 0 c = some w ∧ w.length < 2 ^ 30 ∧
      mppCfgFromJson fu ((CStr.ofBuf w).chars ++ [nul]) = .ok (some c') ∧
      c'.map MppCfgVal.meaning = c.map MppCfgVal.meaning := by
  obtain ⟨buf, c', hto, hfrom, hmap⟩ := h
  obtain ⟨w, hw, hlen, rfl⟩ := mppCfgToString_eq_some hto
  refine ⟨w, c', hw, hlen, ?_, hmap⟩
  rw [← mppCfgFromString_ofBuf, hfrom]
  intro hnil
  rw [mppCfgFromString, if_pos (by rw [hnil]; rfl)] at hfrom
  simp at hfrom

/-- A blotted text starts with the first byte of the text. -/
theorem Blots.head {u : List Char} {b : Char} (h : Blots w (b :: u)) (hb : b ≠ '\n') :
    ∃ w', w = b :: w' := by
  cases h with
  | cons hab _ =>
    rcases hab with rfl | ⟨-, rfl⟩
    · exact ⟨_, rfl⟩
    · exact absurd rfl hb

theorem ofBuf_cons {b : Char} (hb : IsByte b) :
    (CStr.ofBuf (b :: w)).chars = b :: (CStr.ofBuf w).chars := by
  have hnul : b ≠ nul := by
    rintro rfl
    exact hb.1 rfl
  simp [CStr.ofBuf, hnul, hb.2]

/-- With a name before it, the root is not read as an object. -/
theorem RoundTrips.name_eq_none {name : Option CStr}
    (h : RoundTrips fu (.branch name .object child)) : name = none := by
  obtain ⟨w, c', hw, -, hparse, -⟩ := h.parse
  by_contra hname
  obtain ⟨n, rfl⟩ := ne_none_iff_exists'.1 hname
  obtain ⟨u, hu⟩ : ∃ u, text 0 (.branch (some n) .object child) = quote :: u :=
    ⟨_, by simp [text, body, indent, Cfg.name, nameText, quoted]; rfl⟩
  have hblots := written_blots 0 _ hw
  rw [hu] at hblots
  obtain ⟨w', rfl⟩ := hblots.head (by decide)
  rw [ofBuf_cons (by decide), cons_append, mppCfgFromJson_quote] at hparse
  simp at hparse

/-- The brackets of an object that comes back have been read. -/
theorem RoundTrips.branch (h : RoundTrips fu (.branch none .object child)) :
    ∃ w cs, written 0 (.branch none .object child) = some w ∧ w.length < 2 ^ 30 ∧
      (∃ rest, Reads ((CStr.ofBuf w).chars ++ [nul]) rest ∧
        rest.length < ((CStr.ofBuf w).chars ++ [nul]).length) ∧
      ShapedAll ParsedVal .object cs ∧
      mppCfgFromJson fu ((CStr.ofBuf w).chars ++ [nul]) =
        .ok (some (.branch none .object cs)) ∧
      Cfg.mapAll MppCfgVal.meaning cs = Cfg.mapAll MppCfgVal.meaning child := by
  obtain ⟨w, c', hw, hlen, hparse, hmap⟩ := h.parse
  obtain ⟨bs, hbs⟩ := valueText_object child
  have hblots := written_blots 0 _ hw
  rw [text, body, hbs] at hblots
  obtain ⟨w', rfl⟩ := hblots.head (by decide)
  have hchars := @ofBuf_cons w' '{' (by decide)
  have hparse' := hparse
  rw [hchars, cons_append, mppCfgFromJson_brace] at hparse'
  obtain ⟨⟨cs, rest⟩, hbranch, hc'⟩ := bind_eq_ok.1 hparse'
  obtain rfl : Cfg.branch none .object cs = c' := by simpa using hc'
  have ht := text_chars (.ofBuf ('{' :: w'))
  rw [hchars, cons_append] at ht
  obtain ⟨hshaped, hreads, hlt⟩ := parse_accepts.2.1 ht hbranch
  refine ⟨_, cs, hw, hlen, ⟨rest, ?_, ?_⟩, hshaped, hparse, ?_⟩
  · rwa [hchars]
  · rwa [hchars]
  · simpa [Cfg.map] using hmap

/-- The text of an object with children ends in its closing bracket. -/
theorem text_closing (hne : child ≠ []) (h : Readable (.branch none .object child)) :
    ∃ bs, json.Balanced bs ∧ text 0 (.branch none .object child) = ('{' :: bs) ++ ['}', '\n'] := by
  obtain ⟨c, cs, rfl⟩ := exists_cons_of_ne_nil hne
  refine ⟨['\n'] ++ inner 1 (c :: cs), balanced_newline.append (balanced_inner 1 .object _ h), ?_⟩
  simp [text, body, valueText, indent, nameText, Cfg.name, comma, Branch.opening, Branch.closing]

theorem written_newline (hne : child ≠ []) (hw : written 0 (.branch none .object child) = some w) :
    ∃ v, w = v ++ ['\n'] := by
  rw [written, if_neg (by simpa using hne)] at hw
  obtain ⟨l, -, hw⟩ := bind_eq_some_iff.1 hw
  obtain ⟨ls, -, hw⟩ := bind_eq_some_iff.1 hw
  obtain rfl := some.inj hw
  exact ⟨indent 0 ++ l ++ dropComma ls ++ indent 0 ++ [Branch.object.closing], by simp⟩

/-- A text with a line that does not fit ends before the last bracket, with brackets open. -/
theorem fits_of_reads {rest : List Char} (h : Readable (.branch none .object child))
    (hw : written 0 (.branch none .object child) = some w)
    (hreads : Reads ((CStr.ofBuf w).chars ++ [nul]) rest)
    (hlt : rest.length < ((CStr.ofBuf w).chars ++ [nul]).length) :
    Fits (.branch none .object child) := by
  by_cases hne : child = []
  · subst hne
    exact ⟨by simp [nameText], trivial⟩
  refine fits_of_written 0 _ hw fun hnul => ?_
  obtain ⟨bs, hbs, htext⟩ := text_closing hne h
  have hblots := written_blots 0 _ hw
  set p := (CStr.ofBuf w).chars with hp
  have hpre : p <+: w := ofBuf_prefix w
  have hpnul : nul ∉ p := fun hm => ((CStr.ofBuf w).bytes _ hm).1 rfl
  have hpre' := hblots.prefix hpre hpnul
  have hlen : p.length ≤ ('{' :: bs).length := by
    obtain ⟨v, rfl⟩ := written_newline hne hw
    have heq := hblots.length_eq
    rw [htext] at heq
    simp only [length_append, length_cons, length_nil] at heq ⊢
    rcases prefix_concat_iff.1 hpre with hall | hpre
    · exact absurd (hall ▸ hnul) hpnul
    · -- the NUL is not the newline of the last line
      have hle := hpre.length_le
      rcases Nat.lt_or_ge p.length v.length with hlt | hge
      · omega
      · rw [hpre.eq_of_length_le hge] at hpnul
        simp only [mem_append, hpnul, mem_singleton, false_or] at hnul
        exact absurd hnul (by decide)
  have hpopen : p <+: '{' :: bs := by
    rw [htext] at hpre'
    exact prefix_of_prefix_length_le hpre' (prefix_append _ _) hlen
  obtain ⟨q, hq, hqb⟩ := hreads
  have hqne : q ≠ [] := by
    rintro rfl
    rw [hq, nil_append] at hlt
    exact absurd hlt (lt_irrefl _)
  have hscan := congrArg Prod.snd (hqb.scan_eq 0)
  have hqpre : q <+: p ++ [nul] := ⟨rest, hq.symm⟩
  rcases prefix_concat_iff.1 hqpre with rfl | hqp
  · rw [scan_concat_plain (plain_of_isWs (by decide))] at hscan
    have hpne : p ≠ [] := by
      rw [htext] at hblots
      obtain ⟨w', rfl⟩ := hblots.head (by decide)
      rw [hp, ofBuf_cons (by decide)]
      simp
    exact (hbs.scan_ne rfl (by decide) hpopen hpne 0).ne' hscan
  · exact (hbs.scan_ne rfl (by decide) (hqp.trans hpopen) hqne 0).ne' hscan

theorem plain_of_roundTrips (hc : IsConfig c) (h : RoundTrips fu c) : Plain c := by
  obtain ⟨name, child, rfl⟩ := hc.exists_eq
  obtain rfl := h.name_eq_none
  obtain ⟨w, cs, hw, hlen, ⟨rest, hreads, hlt⟩, hshaped, hparse, hmap⟩ := h.branch
  -- the tree has the names of the one that was parsed, and the meanings of its leaves
  have hparsed : Shaped ParsedVal (.branch none .object child) := by
    have hs : ShapedAll Meaning.Parsed .object (Cfg.mapAll MppCfgVal.meaning cs) :=
      (shapedAll_map .object cs).2 hshaped
    rw [hmap] at hs
    exact (@shapedAll_map _ _ MppCfgVal.meaning Meaning.Parsed .object child).1 hs
  have hreadable := Shaped.imp (fun _ => readable_of_parsed) _ hparsed hc.leaves
  have hfits := fits_of_reads hreadable hw hreads hlt
  have htext : w = text 0 (.branch none .object child) := by
    rw [written_of_fits 0 _ hfits] at hw
    exact (some.inj hw).symm
  refine ⟨rfl, ?_, hfits, by rwa [← length_text, ← htext]⟩
  -- the parsed tree is the one that is read back
  rw [htext, ofBuf_of_bytes (isByte_textOf _), mppCfgFromJson_text hreadable hc.depth] at hparse
  obtain rfl : Cfg.mapAll MppCfgVal.readBack child = cs := by simpa [Cfg.map] using hparse
  rw [Cfg.mapAll_mapAll, Cfg.mapAll_eq_mapAll] at hmap
  exact Shaped.imp (fun _ => plain_of_readBack) _ hparsed hmap

/-- A configuration tree comes back from its JSON text exactly when it is plain. -/
theorem roundTrips_iff (c : Cfg MppCfgVal) (hc : IsConfig c) : RoundTrips fu c ↔ Plain c :=
  ⟨plain_of_roundTrips hc, roundTrips_of_plain hc⟩

/-- A machine with exact arithmetic. -/
def exactUnit : FloatUnit where
  longDouble := some
  single := id
  double := id
  longDouble_int _ _ := rfl

/-- An object with the member `"a"`. -/
def member (val : MppCfgVal) : Cfg MppCfgVal :=
  .branch none .object [.leaf (some (.ofBuf ['a'])) val]

theorem isConfig_member (h : ¬ val.IsFloat) : IsConfig (member val) :=
  ⟨trivial, by simp [member, Cfg.depth, Cfg.depthAll], h, trivial⟩

theorem roundTrips_member : RoundTrips exactUnit (member (.s64 ⟨-5, by decide⟩)) := by
  refine (roundTrips_iff _ (isConfig_member (by simp [MppCfgVal.IsFloat]))).2 ⟨rfl, ?_, ?_, ?_⟩
  · exact ⟨⟨_, rfl, by decide, by decide⟩, show intMin ≤ -5 by decide, trivial⟩
  · refine ⟨by decide, ?_, trivial⟩
    show (nameText (some (.ofBuf ['a']))).length + (decimal (-5)).length + 2 < 255
    decide
  · decide

/-- An empty string does not come back. -/
theorem empty_string_lost :
    ¬ ∀ (fu : FloatUnit) (c : Cfg MppCfgVal), IsConfig c → RoundTrips fu c := by
  intro h
  have hc : IsConfig (member (.str (some (.ofBuf [])))) :=
    isConfig_member (by simp [MppCfgVal.IsFloat])
  obtain ⟨-, ⟨-, hval, -⟩, -, -⟩ := plain_of_roundTrips hc (h exactUnit _ hc)
  exact hval.1 rfl

end Libmpp.CfgIo
