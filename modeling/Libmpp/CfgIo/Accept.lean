import Libmpp.Lib.Brackets
import Libmpp.CfgIo.ReadBack

/-!
# What the parser accepts

Whatever text the parser accepts, the tree it makes is `Shaped`: every child has a name that
the parser accepts, and what the leaves mean is `Meaning.Parsed`. And the text it has read is
balanced (`parse_accepts`).
-/

namespace Libmpp.CfgIo

open Brackets List Option

/-- The brackets of a JSON text. -/
def json : Brackets Char where
  quote := quote
  opening c := c = '{' || c = '['
  closing c := c = '}' || c = ']'

/-- A meaning that the parser gives to a leaf. The text of an empty string is `NULL`. -/
def Meaning.Parsed : Meaning → Prop
  | .int z => intMin ≤ z ∧ z ≤ llongMax
  | .str (some s) => s.chars ≠ [] ∧ quote ∉ s.chars
  | _ => True

/-- The bytes between two cursors are balanced. -/
def Reads (rest rest' : List Char) : Prop := ∃ bs, rest = bs ++ rest' ∧ json.Balanced bs

theorem Reads.trans {r₁ r₂ r₃ : List Char} (h : Reads r₁ r₂) (h' : Reads r₂ r₃) : Reads r₁ r₃ := by
  obtain ⟨bs, rfl, hb⟩ := h
  obtain ⟨bs', rfl, hb'⟩ := h'
  exact ⟨bs ++ bs', (append_assoc ..).symm, hb.append hb'⟩

/-! ## The cursor -/

variable {c : Char}

theorem plain_of_isWs (h : isWs c) : json.Plain c := by
  refine ⟨?_, ?_, ?_⟩
  · rintro rfl
    revert h
    decide
  · simp only [json, Bool.or_eq_false_iff, decide_eq_false_iff_not]
    constructor <;> rintro rfl <;> revert h <;> decide
  · simp only [json, Bool.or_eq_false_iff, decide_eq_false_iff_not]
    constructor <;> rintro rfl <;> revert h <;> decide

variable {rest rest' : List Char}

theorem skipWs_reads (h : skipWs rest = some rest') : Reads rest rest' := by
  have hdrop : rest.dropWhile isWs = rest' := by
    rw [skipWs] at h
    split at h
    · simp at h
    · next hd => rw [hd]; exact some.inj h
  refine ⟨rest.takeWhile isWs, ?_, .of_plain fun c hc => plain_of_isWs (mem_takeWhile_imp hc)⟩
  rw [← hdrop, takeWhile_append_dropWhile]

theorem skipByte_plain (hc : json.Plain c) (hhead : rest.head? = some c)
    (h : skipByte rest 1 = some rest') : Reads rest rest' := by
  obtain ⟨cs, rfl⟩ := head?_eq_some_iff.1 hhead
  rw [skipByte] at h
  split_ifs at h
  obtain rfl := some.inj h
  refine ⟨[c], rfl, .of_plain fun d hd => ?_⟩
  rwa [mem_singleton.1 hd]

theorem expectByte_reads {ret : ℤ} (h : expectByte c ret rest = .ok rest') :
    Reads rest rest' ∧ rest'.head? = some c := by
  obtain ⟨r, hr, h⟩ := bind_eq_ok.1 h
  split_ifs at h with hhead
  obtain rfl := Except.ok.inj h
  exact ⟨skipWs_reads (orFail_eq_ok.1 hr), hhead⟩

theorem startsWith_reads {w : List Char} (hw : ∀ c ∈ w, json.Plain c) (h : startsWith rest w) :
    Reads rest (advance rest w.length) := by
  simp only [startsWith, testByte, Bool.and_eq_true] at h
  obtain ⟨hlen, hpre⟩ := h
  have hlt : w.length < rest.length := by
    by_contra hge
    simp [hge] at hlen
  obtain ⟨r, rfl⟩ := isPrefixOf_iff_prefix.1 hpre
  rw [advance, skipByte, if_pos hlt, getD_some, drop_left]
  exact ⟨w, rfl, .of_plain hw⟩

/-! ## Leaves -/

/-- A scan that stops before the end has stopped at a quote. -/
theorem takeWhile_quote {r name : List Char} (hname : r.takeWhile (· ≠ quote) = name)
    (h : name.length < r.length) : ∃ t, r = name ++ quote :: t := by
  have hsplit := @List.takeWhile_append_dropWhile _ (· ≠ quote) r
  rw [hname] at hsplit
  rcases hd : r.dropWhile (· ≠ quote) with _ | ⟨c, t⟩
  · rw [hd, append_nil] at hsplit
    rw [hsplit] at h
    exact absurd h (lt_irrefl _)
  · have hc := head?_dropWhile_not (· ≠ quote) r
    rw [hd] at hc
    obtain rfl : c = quote := by simpa using hc
    exact ⟨t, by rw [← hd, hsplit]⟩

variable {cs : List Char}

theorem skipByte_cons (h : skipByte (c :: cs) 1 = some rest') : rest' = cs := by
  rw [skipByte] at h
  split_ifs at h
  exact (some.inj h).symm

theorem parseJsonString_reads (h : parseJsonString rest = .ok (cs, rest')) :
    ∃ ws, rest = ws ++ (quoted cs ++ rest') ∧ json.Balanced ws ∧ quote ∉ cs := by
  obtain ⟨r₁, h₁, h'⟩ := bind_eq_ok.1 h
  obtain ⟨r, h₂, h''⟩ := bind_eq_ok.1 h'
  obtain ⟨⟨ws, rfl, hws⟩, hhead⟩ := expectByte_reads h₁
  obtain ⟨r', rfl⟩ := head?_eq_some_iff.1 hhead
  obtain rfl := skipByte_cons (orFail_eq_ok.1 h₂)
  have hq : quote ∉ r.takeWhile (· ≠ quote) := fun hm => by
    simpa using mem_takeWhile_imp hm
  obtain ⟨name, hname⟩ : ∃ name, r.takeWhile (· ≠ quote) = name := ⟨_, rfl⟩
  simp only [hname] at h'' hq
  split_ifs at h'' with hlen
  obtain ⟨t, rfl⟩ := takeWhile_quote hname hlen
  obtain ⟨r₃, h₃, h₄⟩ := bind_eq_ok.1 h''
  obtain ⟨rfl, rfl⟩ : name = cs ∧ r₃ = rest' := by simpa using h₄
  have hrest : r₃ = t := by
    have h₃ := orFail_eq_ok.1 h₃
    rw [skipByte] at h₃
    split_ifs at h₃
    rw [← some.inj h₃, ← singleton_append, ← append_assoc]
    exact drop_left' (by simp)
  exact ⟨ws, by rw [hrest]; simp [quoted], hws, hq⟩

theorem quoted_reads {ws : List Char} (hws : json.Balanced ws) (hq : quote ∉ cs) :
    Reads (ws ++ (quoted cs ++ rest)) rest :=
  ⟨ws ++ quoted cs, (append_assoc ..).symm, hws.append (Balanced.string hq)⟩

/-- Bytes of a C string, up to and with the NUL. -/
structure Text (rest : List Char) : Prop where
  bytes : ∀ c ∈ rest.dropLast, c.toNat ≠ 0 ∧ c.toNat < 256
  last : ∀ c ∈ rest.getLast?, c = nul

theorem Text.suffix {bs : List Char} (h : Text (bs ++ rest)) : Text rest := by
  by_cases hne : rest = []
  · subst hne
    exact ⟨by simp, by simp⟩
  · refine ⟨fun c hc => h.bytes c ?_, fun c hc => h.last c ?_⟩
    · rw [dropLast_append_of_ne_nil hne]
      exact mem_append_right _ hc
    · rwa [getLast?_append_of_ne_nil _ hne]

theorem Text.reads (h : Text rest) (hr : Reads rest rest') : Text rest' := by
  obtain ⟨bs, rfl, -⟩ := hr
  exact h.suffix

/-- The cursor moves over a byte that is not the NUL. -/
theorem Text.advance_cons (h : Text (c :: cs)) (hc : c ≠ nul) : advance (c :: cs) 1 = cs := by
  have hne : cs ≠ [] := by
    rintro rfl
    exact hc (h.last c rfl)
  exact @advance_append cs [c] 1 hne rfl

theorem ofBuf_eq (h : ∀ c ∈ cs, c.toNat ≠ 0 ∧ c.toNat < 256) : (CStr.ofBuf cs).chars = cs :=
  congrArg CStr.chars (ofBuf_chars ⟨cs, h⟩)

theorem dupStr_eq (h : Text (quoted cs ++ rest)) {s : CStr} (hs : dupStr cs = some s) :
    s.chars = cs ∧ cs ≠ [] := by
  rw [dupStr] at hs
  split_ifs at hs with hnil
  obtain rfl := some.inj hs
  have hne : rest ≠ [] := by
    rintro rfl
    have hlast := h.last quote (by
      rw [quoted, append_nil, getLast?_append_of_ne_nil _ (by simp)]
      rfl)
    revert hlast
    decide
  refine ⟨ofBuf_eq fun c hc => h.bytes c ?_, hnil⟩
  rw [dropLast_append_of_ne_nil hne]
  simp [quoted, hc]

variable {v : ℚ}

theorem trunc_nonneg (h : 0 ≤ v) : 0 ≤ v.num.tdiv v.den :=
  Int.tdiv_nonneg (Rat.num_nonneg.2 h) (Int.natCast_nonneg _)

theorem trunc_le {m : ℤ} (hm : 0 ≤ m) (h : v ≤ m) : v.num.tdiv v.den ≤ m := by
  rcases le_total 0 v with hv | hv
  · have hnum := Rat.num_nonneg.2 hv
    rw [Int.tdiv_eq_ediv_of_nonneg hnum, ← Rat.floor_def']
    exact Int.floor_le_iff.2 (h.trans_lt (lt_add_one _))
  · have hnum := Rat.num_nonpos.2 hv
    have hneg : 0 ≤ (-v.num).tdiv v.den :=
      Int.tdiv_nonneg (Int.neg_nonneg.2 hnum) (Int.natCast_nonneg _)
    rw [Int.neg_tdiv] at hneg
    omega

theorem convert_eq_ok {lo hi : ℤ} {z : Ranged lo hi} (h : convert lo hi v = .ok z) :
    z.1 = v.num.tdiv v.den := by
  rw [convert] at h
  split_ifs at h
  obtain rfl := Except.ok.inj h
  rfl

theorem numberValue_parsed {fu : FloatUnit} {tmp : List Char} {val : MppCfgVal}
    (h : numberValue fu tmp = .ok val) : val.meaning.Parsed := by
  obtain ⟨value, -, h⟩ := bind_eq_ok.1 h
  split_ifs at h with hpoint hflt hint huint hllong hullong
  · obtain rfl := Except.ok.inj h
    trivial
  · obtain rfl := Except.ok.inj h
    trivial
  · obtain ⟨z, -, h⟩ := bind_eq_ok.1 h
    obtain rfl := Except.ok.inj h
    have hz := z.2
    exact ⟨hz.1, by simp only [intMax, llongMax] at *; omega⟩
  · obtain ⟨z, -, h⟩ := bind_eq_ok.1 h
    obtain rfl := Except.ok.inj h
    have hz := z.2
    exact ⟨by simp only [intMin] at *; omega, by simp only [uintMax, llongMax] at *; omega⟩
  · obtain ⟨z, hz, h⟩ := bind_eq_ok.1 h
    obtain rfl := Except.ok.inj h
    have hz' := z.2
    exact ⟨by simp only [intMin] at *; omega,
      (convert_eq_ok hz).le.trans (trunc_le (by decide) hllong.2)⟩
  · obtain ⟨z, hz, h⟩ := bind_eq_ok.1 h
    obtain rfl := Except.ok.inj h
    have hpos : 0 ≤ z.1 := (trunc_nonneg hullong.1).trans (convert_eq_ok hz).ge
    exact ⟨by simp only [intMin] at *; omega, z.2.2⟩

theorem plain_of_isNumberByte (h : isNumberByte c) : json.Plain c := by
  have hne : ∀ b : Char, isNumberByte b = false → c ≠ b := by
    rintro b hb rfl
    simp [h] at hb
  refine ⟨hne quote (by decide), ?_, ?_⟩
  · simp [json, hne '{' (by decide), hne '[' (by decide)]
  · simp [json, hne '}' (by decide), hne ']' (by decide)]

theorem parseNumber_reads {fu : FloatUnit} {val : MppCfgVal}
    (h : parseNumber fu rest = .ok (val, rest')) : Reads rest rest' ∧ val.meaning.Parsed := by
  obtain ⟨tmp, htmp⟩ : ∃ tmp, rest.takeWhile isNumberByte = tmp := ⟨_, rfl⟩
  simp only [parseNumber, htmp] at h
  split_ifs at h
  obtain ⟨v, hv, h⟩ := bind_eq_ok.1 h
  obtain ⟨rfl, rfl⟩ : v = val ∧ rest.drop tmp.length = rest' := by simpa using h
  refine ⟨⟨tmp, ?_, .of_plain fun c hc => ?_⟩, numberValue_parsed hv⟩
  · have hpre : tmp <+: rest := htmp ▸ takeWhile_prefix _
    obtain ⟨t, rfl⟩ := hpre
    rw [drop_left]
  · exact plain_of_isNumberByte (mem_takeWhile_imp (htmp ▸ hc))

/-! ## Branches -/

variable {type : Branch}

theorem enter_reads {depth : ℕ} {empty : Bool} (ht : Text rest)
    (h : enter type depth rest = .ok (empty, rest')) :
    ∃ ws, json.Balanced ws ∧
      rest = [type.opening] ++ ws ++ (if empty then [type.closing] else []) ++ rest' := by
  rw [enter] at h
  split_ifs at h with hdepth hhead
  obtain ⟨r₁, h₁, h'⟩ := bind_eq_ok.1 h
  obtain ⟨r₂, h₂, h''⟩ := bind_eq_ok.1 h'
  obtain ⟨cs, rfl⟩ := head?_eq_some_iff.1 (not_not.1 hhead)
  obtain rfl := skipByte_cons (orFail_eq_ok.1 h₁)
  obtain ⟨ws, rfl, hws⟩ := skipWs_reads (orFail_eq_ok.1 h₂)
  refine ⟨ws, hws, ?_⟩
  split_ifs at h'' with hclose
  · obtain ⟨r, rfl⟩ := head?_eq_some_iff.1 hclose
    have hr : Text (type.closing :: r) := by
      have hform : Text (([type.opening] ++ ws) ++ type.closing :: r) := by simpa using ht
      exact hform.suffix
    rw [hr.advance_cons (by cases type <;> decide)] at h''
    obtain ⟨rfl, rfl⟩ : true = empty ∧ r = rest' := by simpa using h''
    simp
  · obtain ⟨rfl, rfl⟩ : false = empty ∧ r₂ = rest' := by simpa using h''
    simp

theorem leave_reads (ht : Text rest) (h : leave type rest = .ok rest') :
    ∃ ws, json.Balanced ws ∧ rest = ws ++ [type.closing] ++ rest' := by
  obtain ⟨r, hr, h'⟩ := bind_eq_ok.1 h
  obtain ⟨⟨ws, rfl, hws⟩, hhead⟩ := expectByte_reads hr
  obtain ⟨cs, rfl⟩ := head?_eq_some_iff.1 hhead
  rw [ht.suffix.advance_cons (by cases type <;> decide)] at h'
  obtain rfl := Except.ok.inj h'
  exact ⟨ws, hws, by simp⟩

theorem afterItem_reads {more : Bool} (h : afterItem type rest = .ok (more, rest')) :
    Reads rest rest' := by
  obtain ⟨r₁, h₁, h'⟩ := bind_eq_ok.1 h
  have hr₁ := skipWs_reads (orFail_eq_ok.1 h₁)
  split_ifs at h' with hcomma
  · obtain ⟨r₂, h₂, h''⟩ := bind_eq_ok.1 h'
    have hr₂ : Reads r₁ r₂ := skipByte_plain (by simp [Plain, json]; decide) hcomma
      (orFail_eq_ok.1 h₂)
    split at h''
    · simp at h''
    · next r₃ h₃ =>
      obtain ⟨-, rfl⟩ : _ ∧ r₃ = rest' := by simpa using h''
      exact (hr₁.trans hr₂).trans (skipWs_reads h₃)
  · obtain ⟨-, rfl⟩ : _ ∧ r₁ = rest' := by simpa using h'
    exact hr₁

theorem parseName_reads {name : CStr} (ht : Text rest) (h : parseName rest = .ok (name, rest')) :
    Reads rest rest' ∧ name.chars ≠ [] ∧ quote ∉ name.chars := by
  obtain ⟨⟨cs, r₁⟩, h₁, k₁⟩ := bind_eq_ok.1 h
  obtain ⟨r₂, h₂, k₂⟩ := bind_eq_ok.1 k₁
  obtain ⟨r₃, h₃, k₃⟩ := bind_eq_ok.1 k₂
  obtain ⟨r₄, h₄, k₄⟩ := bind_eq_ok.1 k₃
  obtain ⟨s, hs, k₅⟩ := bind_eq_ok.1 k₄
  obtain ⟨rfl, rfl⟩ : s = name ∧ r₄ = rest' := by simpa using k₅
  obtain ⟨ws, rfl, hws, hq⟩ := parseJsonString_reads h₁
  obtain ⟨hr₂, hcolon⟩ := expectByte_reads h₂
  have hplain : json.Plain ':' := by simp [Plain, json]; decide
  have hr₃ : Reads r₂ r₃ := skipByte_plain hplain hcolon (orFail_eq_ok.1 h₃)
  have hr₄ := skipWs_reads (orFail_eq_ok.1 h₄)
  obtain ⟨hchars, hne⟩ := dupStr_eq ht.suffix (orFail_eq_ok.1 hs)
  rw [hchars]
  exact ⟨(((quoted_reads hws hq).trans hr₂).trans hr₃).trans hr₄, hne, hq⟩

/-- The leaves of a tree that the parser makes. -/
abbrev ParsedVal (val : MppCfgVal) : Prop := val.meaning.Parsed

theorem parsed_str {ws : List Char} (ht : Text (ws ++ (quoted cs ++ rest))) (hq : quote ∉ cs) :
    ParsedVal (.str (dupStr cs)) := by
  rcases hs : dupStr cs with _ | s
  · trivial
  · obtain ⟨hchars, hne⟩ := dupStr_eq ht.suffix hs
    rw [← hchars] at hne hq
    exact ⟨hne, hq⟩

section

variable {fu : FloatUnit} {n : ℕ}

/-- What is to be shown of the parse of a value. -/
def ValueAccepts (fu : FloatUnit) (n : ℕ) : Prop :=
  ∀ {depth name rest c rest'}, Text rest → parseJsonValue fu n depth name rest = .ok (c, rest') →
    c.name = name ∧ Shaped ParsedVal c ∧ Reads rest rest'

def BranchAccepts (fu : FloatUnit) (n : ℕ) : Prop :=
  ∀ {type depth rest cs rest'}, Text rest → parseBranch fu n type depth rest = .ok (cs, rest') →
    ShapedAll ParsedVal type cs ∧ Reads rest rest' ∧ rest'.length < rest.length

def ItemsAccept (fu : FloatUnit) (n : ℕ) : Prop :=
  ∀ {type depth rest cs rest'}, Text rest → parseItems fu n type depth rest = .ok (cs, rest') →
    ShapedAll ParsedVal type cs ∧ Reads rest rest'

variable {type : Branch}

theorem nameOk_of_name {c : Cfg MppCfgVal}
    (h : match type with | .object => ∃ n, c.name = some n ∧ n.chars ≠ [] ∧ quote ∉ n.chars | .array => c.name = none)
    : NameOk type c := by
  rcases type with _ | _
  · obtain ⟨n, hn, h⟩ := h
    rcases c with ⟨_ | _, _⟩ | ⟨_ | _, _ | _, _⟩ <;> simp_all [NameOk, Cfg.name]
  · exact h

variable {depth : ℕ} {rest rest' : List Char}

theorem parseItem_accepts (hv : ValueAccepts fu n) (hb : BranchAccepts fu n) {c : Cfg MppCfgVal}
    (ht : Text rest)
    (h : parseItem (parseJsonValue fu n depth) (parseBranch fu n .array depth) type rest = .ok (c, rest'))
    : NameOk type c ∧ Shaped ParsedVal c ∧ Reads rest rest' := by
  rcases type with _ | _
  · rw [parseItem] at h
    split_ifs at h
    · obtain ⟨⟨child, r⟩, h₁, k₁⟩ := bind_eq_ok.1 h
      obtain ⟨rfl, rfl⟩ : Cfg.branch none .array child = c ∧ r = rest' := by simpa using k₁
      obtain ⟨hshaped, hreads, -⟩ := hb ht h₁
      exact ⟨trivial, hshaped, hreads⟩
    · obtain ⟨⟨name, r⟩, h₁, k₁⟩ := bind_eq_ok.1 h
      obtain ⟨hr, hne, hq⟩ := parseName_reads ht h₁
      obtain ⟨hname, hshaped, hreads⟩ := hv (ht.reads hr) (recode_eq_ok.1 k₁)
      exact ⟨nameOk_of_name ⟨name, hname, hne, hq⟩, hshaped, hr.trans hreads⟩
  · obtain ⟨r, h₁, k₁⟩ := bind_eq_ok.1 h
    have hr := skipWs_reads (orFail_eq_ok.1 h₁)
    obtain ⟨hname, hshaped, hreads⟩ := hv (ht.reads hr) (recode_eq_ok.1 k₁)
    exact ⟨hname, hshaped, hr.trans hreads⟩

theorem parseItems_accept (hv : ValueAccepts fu n) (hb : BranchAccepts fu n)
    (hi : ItemsAccept fu n) : ItemsAccept fu (n + 1) := by
  intro type depth rest cs rest' ht h
  obtain ⟨⟨c, r₁⟩, h₁, k₁⟩ := bind_eq_ok.1 h
  obtain ⟨⟨more, r₂⟩, h₂, k₂⟩ := bind_eq_ok.1 k₁
  obtain ⟨hname, hshaped, hr₁⟩ := parseItem_accepts hv hb ht h₁
  have hr₂ := hr₁.trans (afterItem_reads h₂)
  rcases more with _ | _
  · obtain ⟨rfl, rfl⟩ : [c] = cs ∧ r₂ = rest' := by simpa using k₂
    exact ⟨⟨hname, hshaped, trivial⟩, hr₂⟩
  · obtain ⟨⟨cs', r₃⟩, h₃, k₃⟩ := bind_eq_ok.1 k₂
    obtain ⟨rfl, rfl⟩ : c :: cs' = cs ∧ r₃ = rest' := by simpa using k₃
    obtain ⟨hshaped', hr₃⟩ := hi (ht.reads hr₂) h₃
    exact ⟨⟨hname, hshaped, hshaped'⟩, hr₂.trans hr₃⟩

theorem balanced_branch {bs : List Char} (h : json.Balanced bs) :
    json.Balanced ([type.opening] ++ bs ++ [type.closing]) := by
  cases type <;> exact h.bracket (by decide) (by decide) (by decide) (by decide) (by decide)

theorem parseBranch_accepts (hi : ItemsAccept fu n) : BranchAccepts fu (n + 1) := by
  intro type depth rest cs rest' ht h
  obtain ⟨⟨empty, r₁⟩, h₁, k₁⟩ := bind_eq_ok.1 h
  obtain ⟨ws, hws, rfl⟩ := enter_reads ht h₁
  rcases empty with _ | _
  · obtain ⟨⟨child, r₂⟩, h₂, k₂⟩ := bind_eq_ok.1 k₁
    obtain ⟨r₃, h₃, k₃⟩ := bind_eq_ok.1 k₂
    obtain ⟨rfl, rfl⟩ : child = cs ∧ r₃ = rest' := by simpa using k₃
    have ht₁ : Text r₁ := ht.suffix
    obtain ⟨hshaped, bs, rfl, hbs⟩ := hi ht₁ h₂
    obtain ⟨ws', hws', rfl⟩ := leave_reads ht₁.suffix h₃
    refine ⟨hshaped, ⟨[type.opening] ++ (ws ++ bs ++ ws') ++ [type.closing], ?_,
      balanced_branch ((hws.append hbs).append hws')⟩, ?_⟩
    · simp
    · simp
      omega
  · obtain ⟨rfl, rfl⟩ : [] = cs ∧ r₁ = rest' := by simpa using k₁
    exact ⟨trivial, ⟨_, rfl, balanced_branch hws⟩, by simp; omega⟩

theorem parseJsonValue_accepts (hb : BranchAccepts fu n) : ValueAccepts fu (n + 1) := by
  intro depth name rest c rest' ht h
  rw [parseJsonValue.eq_def] at h
  simp only at h
  have hplain : ∀ d : Char, d ≠ quote → d ≠ '{' → d ≠ '[' → d ≠ '}' → d ≠ ']' → json.Plain d :=
    fun d h₁ h₂ h₃ h₄ h₅ => ⟨h₁, by simp [json, h₂, h₃], by simp [json, h₄, h₅]⟩
  split_ifs at h with hnull htrue hfalse
  · obtain ⟨rfl, rfl⟩ : Cfg.leaf name .null = c ∧ advance rest 4 = rest' := by simpa using h
    exact ⟨rfl, trivial, startsWith_reads (by simp [Plain, json]; decide) hnull⟩
  · obtain ⟨rfl, rfl⟩ : Cfg.leaf name (.bool true) = c ∧ advance rest 4 = rest' := by
      simpa using h
    exact ⟨rfl, trivial, startsWith_reads (by simp [Plain, json]; decide) htrue⟩
  · obtain ⟨rfl, rfl⟩ : Cfg.leaf name (.bool false) = c ∧ advance rest 5 = rest' := by
      simpa using h
    exact ⟨rfl, trivial, startsWith_reads (by simp [Plain, json]; decide) hfalse⟩
  rcases rest with _ | ⟨b, bs⟩
  · simp at h
  dsimp only at h
  split_ifs at h with hquote hnumber hobject harray
  · obtain ⟨⟨cs, r₁⟩, h₁, k₁⟩ := bind_eq_ok.1 h
    obtain ⟨rfl, rfl⟩ : Cfg.leaf name (.str (dupStr cs)) = c ∧ r₁ = rest' := by simpa using k₁
    obtain ⟨ws, hform, hws, hq⟩ := parseJsonString_reads (recode_eq_ok.1 h₁)
    rw [hform] at ht ⊢
    exact ⟨rfl, parsed_str ht hq, quoted_reads hws hq⟩
  · obtain ⟨⟨val, r₁⟩, h₁, k₁⟩ := bind_eq_ok.1 h
    obtain ⟨rfl, rfl⟩ : Cfg.leaf name val = c ∧ r₁ = rest' := by simpa using k₁
    obtain ⟨hreads, hparsed⟩ := parseNumber_reads h₁
    exact ⟨rfl, hparsed, hreads⟩
  · obtain ⟨⟨child, r₁⟩, h₁, k₁⟩ := bind_eq_ok.1 h
    obtain ⟨rfl, rfl⟩ : Cfg.branch name .object child = c ∧ r₁ = rest' := by simpa using k₁
    obtain ⟨hshaped, hreads, -⟩ := hb ht h₁
    exact ⟨rfl, hshaped, hreads⟩
  · obtain ⟨⟨child, r₁⟩, h₁, k₁⟩ := bind_eq_ok.1 h
    obtain ⟨rfl, rfl⟩ : Cfg.branch name .array child = c ∧ r₁ = rest' := by simpa using k₁
    obtain ⟨hshaped, hreads, -⟩ := hb ht h₁
    exact ⟨rfl, hshaped, hreads⟩

/-- The parser accepts shaped trees with balanced texts only. -/
theorem parse_accepts : ValueAccepts fu n ∧ BranchAccepts fu n ∧ ItemsAccept fu n := by
  induction n with
  | zero =>
    refine ⟨?_, ?_, ?_⟩
    · intro depth name rest c rest' _ h
      simp [parseJsonValue] at h
    · intro type depth rest cs rest' _ h
      simp [parseBranch] at h
    · intro type depth rest cs rest' _ h
      simp [parseItems] at h
  | succ n ih =>
    obtain ⟨hv, hb, hi⟩ := ih
    exact ⟨parseJsonValue_accepts hb, parseBranch_accepts hi, parseItems_accept hv hb hi⟩

/-! ## Termination -/

theorem Reads.length_le (h : Reads rest rest') : rest'.length ≤ rest.length := by
  obtain ⟨bs, rfl, -⟩ := h
  simp

variable {ret : ℤ}

theorem orFail_ne_calls {α : Type} {o : Option α} : orFail ret o ≠ .error .calls := by
  cases o <;> simp [orFail]

theorem recode_ne_calls {α : Type} {x : Except Stop α} (h : x ≠ .error .calls) :
    recode ret x ≠ .error .calls := by
  rcases x with (_ | _ | _) | _
  · simp [recode]
  · simp [recode]
  · exact absurd rfl h
  · simp [recode]

theorem bind_ne_calls {α β : Type} {x : Except Stop α} {f : α → Except Stop β}
    (hx : x ≠ .error .calls) (hf : ∀ a, x = .ok a → f a ≠ .error .calls) :
    (x >>= f) ≠ .error .calls := by
  rcases x with e | a
  · intro h
    exact hx (by simpa using h)
  · exact hf a rfl

theorem expectByte_ne_calls {c : Char} : expectByte c ret rest ≠ .error .calls := by
  refine bind_ne_calls orFail_ne_calls fun r _ => ?_
  split_ifs <;> simp

theorem parseJsonString_ne_calls : parseJsonString rest ≠ .error .calls := by
  refine bind_ne_calls expectByte_ne_calls fun r _ => bind_ne_calls orFail_ne_calls fun r _ => ?_
  dsimp only
  split_ifs
  · exact bind_ne_calls orFail_ne_calls fun r _ => by simp
  · simp

theorem parseName_ne_calls : parseName rest ≠ .error .calls :=
  bind_ne_calls parseJsonString_ne_calls fun _ _ =>
    bind_ne_calls expectByte_ne_calls fun _ _ =>
      bind_ne_calls orFail_ne_calls fun _ _ =>
        bind_ne_calls orFail_ne_calls fun _ _ =>
          bind_ne_calls orFail_ne_calls fun _ _ => by simp

theorem convert_ne_calls {lo hi : ℤ} {v : ℚ} (f : Ranged lo hi → MppCfgVal) :
    (convert lo hi v >>= fun z => pure (f z)) ≠ .error .calls := by
  rw [convert]
  split_ifs <;> simp [pure, Except.pure]

theorem parseNumber_ne_calls : parseNumber fu rest ≠ .error .calls := by
  rw [parseNumber]
  split_ifs
  · simp
  · simp
  · refine bind_ne_calls (bind_ne_calls orFail_ne_calls fun v _ => ?_) fun _ _ => by simp
    split_ifs
    · simp
    · simp
    · exact convert_ne_calls .s32
    · exact convert_ne_calls .u32
    · exact convert_ne_calls .u64
    · exact convert_ne_calls .s64
    · simp

theorem enter_ne_calls : enter type depth rest ≠ .error .calls := by
  rw [enter]
  split_ifs
  · simp
  · simp
  · refine bind_ne_calls orFail_ne_calls fun r _ => bind_ne_calls orFail_ne_calls fun r _ => ?_
    split_ifs <;> simp

theorem leave_ne_calls : leave type rest ≠ .error .calls :=
  bind_ne_calls expectByte_ne_calls fun _ _ => by simp

theorem afterItem_ne_calls : afterItem type rest ≠ .error .calls := by
  refine bind_ne_calls orFail_ne_calls fun r _ => ?_
  split_ifs
  · refine bind_ne_calls orFail_ne_calls fun r _ => ?_
    split <;> simp
  · simp

/-- The comma behind an item is read before the next one. -/
theorem afterItem_lt (h : afterItem type rest = .ok (true, rest')) :
    rest'.length < rest.length := by
  obtain ⟨r₁, h₁, h'⟩ := bind_eq_ok.1 h
  have hle := (skipWs_reads (orFail_eq_ok.1 h₁)).length_le
  split_ifs at h' with hcomma
  · obtain ⟨r₂, h₂, h''⟩ := bind_eq_ok.1 h'
    obtain ⟨cs, rfl⟩ := head?_eq_some_iff.1 hcomma
    obtain rfl := skipByte_cons (orFail_eq_ok.1 h₂)
    split at h''
    · simp at h''
    · next r₃ h₃ =>
      obtain ⟨-, rfl⟩ : _ ∧ r₃ = rest' := by simpa using h''
      have hle' := (skipWs_reads h₃).length_le
      simp only [length_cons] at hle
      omega
  · simp at h'

theorem parseItem_ne_calls (ht : Text rest)
    (hv : ∀ name r, Text r → r.length ≤ rest.length → parseJsonValue fu n depth name r ≠ .error .calls)
    (hb : parseBranch fu n .array depth rest ≠ .error .calls) :
    parseItem (parseJsonValue fu n depth) (parseBranch fu n .array depth) type rest ≠
      .error .calls := by
  rcases type with _ | _
  · rw [parseItem]
    split_ifs
    · exact bind_ne_calls hb fun _ _ => by simp
    · refine bind_ne_calls parseName_ne_calls fun p hp => recode_ne_calls ?_
      have hr := (parseName_reads ht hp).1
      exact hv _ _ (ht.reads hr) hr.length_le
  · refine bind_ne_calls orFail_ne_calls fun r hr => recode_ne_calls ?_
    have hr := skipWs_reads (orFail_eq_ok.1 hr)
    exact hv _ _ (ht.reads hr) hr.length_le

/-- With enough calls for the length of the text, the parser does not run out of them. -/
theorem parse_ne_calls (n : ℕ) (ht : Text rest) (depth : ℕ) :
    (∀ name, 3 * rest.length + 2 ≤ n →
      parseJsonValue fu n depth name rest ≠ .error .calls) ∧
    (∀ type, 3 * rest.length + 1 ≤ n → parseBranch fu n type depth rest ≠ .error .calls) ∧
    (∀ type, 3 * rest.length + 3 ≤ n → parseItems fu n type depth rest ≠ .error .calls) := by
  induction n generalizing rest depth with
  | zero => exact ⟨by omega, by omega, by omega⟩
  | succ n ih =>
    refine ⟨fun name hn => ?_, fun type hn => ?_, fun type hn => ?_⟩
    · have hbranch : ∀ type, parseBranch fu n type depth rest ≠ .error .calls := fun type =>
        (ih ht depth).2.1 type (by omega)
      rw [parseJsonValue.eq_def]
      simp only
      split_ifs
      · simp
      · simp
      · simp
      rcases rest with _ | ⟨b, bs⟩
      · simp
      dsimp only
      split_ifs
      · exact bind_ne_calls (recode_ne_calls parseJsonString_ne_calls) fun _ _ => by simp
      · exact bind_ne_calls parseNumber_ne_calls fun _ _ => by simp
      · exact bind_ne_calls (hbranch .object) fun _ _ => by simp
      · exact bind_ne_calls (hbranch .array) fun _ _ => by simp
      · simp
    · refine bind_ne_calls enter_ne_calls ?_
      rintro ⟨_ | _, r⟩ hr
      · obtain ⟨ws, -, rfl⟩ := enter_reads ht hr
        simp only [length_append, length_cons, length_nil] at hn
        refine bind_ne_calls ((ih ht.suffix (depth + 1)).2.2 type (by omega)) fun p _ => ?_
        exact bind_ne_calls leave_ne_calls fun _ _ => by simp
      · simp
    · have hitem := @parseItem_ne_calls fu n type depth rest ht
        (fun name r hr hle => (ih hr depth).1 name (by omega))
        ((ih ht depth).2.1 .array (by omega))
      refine bind_ne_calls hitem ?_
      rintro ⟨c, r₁⟩ h₁
      refine bind_ne_calls afterItem_ne_calls ?_
      rintro ⟨_ | _, r₂⟩ h₂
      · simp
      · obtain ⟨hv, hb, -⟩ := @parse_accepts fu n
        have hr₁ := (parseItem_accepts hv hb ht h₁).2.2
        have hlt := afterItem_lt h₂
        have hle := hr₁.length_le
        have ht₂ := ht.reads (hr₁.trans (afterItem_reads h₂))
        exact bind_ne_calls ((ih ht₂ depth).2.2 type (by omega)) fun _ _ => by simp

theorem text_chars (buf : CStr) : Text (buf.chars ++ [nul]) where
  bytes c hc := by
    rw [dropLast_concat] at hc
    exact buf.bytes c hc
  last c hc := by simpa using hc.symm

theorem advance_suffix (rest : List Char) (len : ℕ) : ∃ bs, rest = bs ++ advance rest len := by
  rw [advance, skipByte]
  split_ifs
  · exact ⟨rest.take len, (take_append_drop len rest).symm⟩
  · exact ⟨[], rfl⟩

/-- The parser never runs out of calls. -/
theorem mppCfgFromString_terminates (buf : CStr) :
    mppCfgFromString fu buf ≠ .error .calls := by
  rw [mppCfgFromString]
  split_ifs
  · simp
  have ht := text_chars buf
  obtain ⟨rest, hrest⟩ : ∃ rest, buf.chars ++ [nul] = rest := ⟨_, rfl⟩
  rw [hrest] at ht ⊢
  obtain ⟨r, hr⟩ : ∃ r, (if (testByte rest 4).isSome && utf8Mark.isPrefixOf rest
      then advance rest 3 else rest) = r := ⟨_, rfl⟩
  obtain ⟨bs, hbs⟩ : ∃ bs, rest = bs ++ r := by
    rw [← hr]
    split_ifs
    · exact advance_suffix rest 3
    · exact ⟨[], rfl⟩
  have htr : Text r := Text.suffix (hbs ▸ ht)
  have hlen : r.length ≤ rest.length := by
    rw [hbs]
    simp
  simp only [mppCfgFromJson, hr]
  refine bind_ne_calls orFail_ne_calls fun r' hr' => ?_
  have hreads := skipWs_reads (orFail_eq_ok.1 hr')
  have hle := hreads.length_le
  have hparse := fun type => (@parse_ne_calls fu _ (3 * rest.length + 3)
    (htr.reads hreads) 0).2.1 type (by omega)
  split_ifs
  · exact bind_ne_calls (hparse .object) fun _ _ => by simp
  · exact bind_ne_calls (hparse .array) fun _ _ => by simp
  · simp

end

end Libmpp.CfgIo
