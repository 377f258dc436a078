import Libmpp.CfgIo.Write

/-!
# The JSON parser

`mppCfgFromString` with `MPP_CFG_STR_FMT_JSON`. The parser has a cursor into the text; the
functions here take and return what lies from the cursor to the end of the text, with the NUL
there. A `NULL` cursor is `none`.

A failed parse ends with the code of the innermost function that sets one (`Stop.fail`). What
it leaves in the tree is not modelled. `Stop.undefined` is what C leaves undefined: a read
through a `NULL` cursor or behind an array, a conversion to an integer type that does not hold
the number. Plain `char` is signed.

The recursion of the parser is on a number of calls. It never ends for want of calls
(`mppCfgFromString_terminates`).
-/

namespace Libmpp.CfgIo

/-- Why a parse ends early. -/
inductive Stop
  | fail (ret : ℤ)
  | undefined
  | calls
deriving DecidableEq

/-- `rk_nok` -/
abbrev nok : ℤ := -1

/-- `MAX_CFG_DEPTH` -/
abbrev maxCfgDepth : ℕ := 64

/-! ## The cursor -/

def orFail {α : Type} (ret : ℤ) : Option α → Except Stop α
  | some a => .ok a
  | none => .error (.fail ret)

@[simp] theorem orFail_some {α : Type} (ret : ℤ) (a : α) : orFail ret (some a) = .ok a := rfl

@[simp] theorem ok_bind {α β : Type} (a : α) (f : α → Except Stop β) :
    (Except.ok a >>= f) = f a :=
  rfl

@[simp] theorem error_bind {α β : Type} (e : Stop) (f : α → Except Stop β) :
    (Except.error e >>= f) = .error e :=
  rfl

theorem bind_eq_ok {α β : Type} {x : Except Stop α} {f : α → Except Stop β} {b : β} :
    (x >>= f) = .ok b ↔ ∃ a, x = .ok a ∧ f a = .ok b := by
  cases x <;> simp

theorem orFail_eq_ok {α : Type} {ret : ℤ} {o : Option α} {a : α} :
    orFail ret o = .ok a ↔ o = some a := by
  cases o <;> simp [orFail]

def testByte (rest : List Char) (len : ℕ) : Option (List Char) :=
  if len < rest.length then some rest else none

def skipByte (rest : List Char) (len : ℕ) : Option (List Char) :=
  if len < rest.length then some (rest.drop len) else none

/-- `skipByte`, where the result is not looked at. -/
def advance (rest : List Char) (len : ℕ) : List Char := (skipByte rest len).getD rest

/-- `c <= 32` for a signed `c`. -/
def isWs (c : Char) : Bool := c.toNat ≤ 32 || 128 ≤ c.toNat

def skipWs (rest : List Char) : Option (List Char) :=
  match rest.dropWhile isWs with
  | [] => none
  | c :: cs => some (c :: cs)

/-- The text at the cursor is `word`, for `testByte` with the length of the word. -/
def startsWith (rest word : List Char) : Bool :=
  (testByte rest word.length).isSome && word.isPrefixOf rest

/-- Skip whitespace up to the byte `c`. -/
def expectByte (c : Char) (ret : ℤ) (rest : List Char) : Except Stop (List Char) := do
  let rest ← orFail ret (skipWs rest)
  if rest.head? = some c then .ok rest else .error (.fail ret)

/-! ## Strings -/

/-- `dup_str` -/
def dupStr (cs : List Char) : Option CStr := if cs = [] then none else some (.ofBuf cs)

def parseJsonString (rest : List Char) : Except Stop (List Char × List Char) := do
  let rest ← expectByte quote (-101) rest
  let rest ← orFail (-102) (skipByte rest 1)
  let name := rest.takeWhile (· ≠ quote)
  -- the closing quote
  if name.length < rest.length then
    let rest ← orFail (-104) (skipByte rest (name.length + 1))
    .ok (name, rest)
  else .error (.fail (-103))

/-! ## Numbers -/

/-- The floating-point arithmetic of the machine. A `long double` holds the integers of 64 bits
    exactly. -/
structure FloatUnit where
  /-- The result of `strtold` for a number, or `none` when it sets `errno`. -/
  longDouble : ℚ → Option ℚ
  single : ℚ → ℚ
  double : ℚ → ℚ
  longDouble_int : ∀ z : ℤ, |z| ≤ ullongMax → longDouble z = some z

/-- The sign at the start of a number, and what follows it. -/
def splitSign : List Char → Bool × List Char
  | '-' :: cs => (true, cs)
  | '+' :: cs => (false, cs)
  | cs => (false, cs)

/-- The part of a number behind the point. -/
def fraction : List Char → List Char
  | '.' :: cs => cs.takeWhile Char.isDigit
  | _ => []

/-- What follows the part behind the point. -/
def afterFraction : List Char → List Char
  | '.' :: cs => cs.dropWhile Char.isDigit
  | cs => cs

def exponentDigits (cs : List Char) : ℤ :=
  let (neg, ds) := splitSign cs
  let e : ℤ := Nat.ofDigitChars 10 (ds.takeWhile Char.isDigit) 0
  if neg then -e else e

def exponent : List Char → ℤ
  | 'e' :: cs => exponentDigits cs
  | 'E' :: cs => exponentDigits cs
  | _ => 0

/-- The number that `strtold` reads: the longest start of the text that is a number, and 0
    when there is none. -/
def strtold (cs : List Char) : ℚ :=
  let (neg, cs) := splitSign cs
  let whole := cs.takeWhile Char.isDigit
  let tail := cs.dropWhile Char.isDigit
  let frac := fraction tail
  if whole = [] ∧ frac = [] then 0
  else
    let mantissa : ℚ := Nat.ofDigitChars 10 (whole ++ frac) 0 / 10 ^ frac.length
    let value := mantissa * 10 ^ exponent (afterFraction tail)
    if neg then -value else value

/-- The integral part of a number, in a type that holds it. -/
def convert (lo hi : ℤ) (v : ℚ) : Except Stop (Ranged lo hi) :=
  let z := v.num.tdiv v.den
  if h : lo ≤ z ∧ z ≤ hi then .ok ⟨z, h⟩ else .error .undefined

/-- `FLT_MIN` -/
def fltMin : ℚ := 1 / 2 ^ 126

/-- `FLT_MAX` -/
def fltMax : ℚ := (2 ^ 24 - 1) * 2 ^ 104

def isNumberByte (c : Char) : Bool :=
  c.isDigit || c = '.' || c = 'e' || c = 'E' || c = '+' || c = '-'

variable (fu : FloatUnit)

/-- The value of the text of a number. The types of the last two branches are the source's. -/
def numberValue (tmp : List Char) : Except Stop MppCfgVal := do
  let value ← orFail nok (fu.longDouble (strtold tmp))
  if '.' ∈ tmp then
    if fltMin ≤ value ∧ value ≤ fltMax then .ok (.f32 (fu.single value))
    else .ok (.f64 (fu.double value))
  else if intMin ≤ value ∧ value ≤ intMax then
    return .s32 (← convert intMin intMax value)
  else if 0 ≤ value ∧ value ≤ uintMax then
    return .u32 (← convert 0 uintMax value)
  else if llongMin ≤ value ∧ value ≤ llongMax then
    return .u64 (← convert 0 ullongMax value)
  else if 0 ≤ value ∧ value ≤ ullongMax then
    return .s64 (← convert llongMin llongMax value)
  else .error (.fail nok)

/-- `parse_number`. The text is copied to 64 bytes, and ended there by the byte behind it. -/
def parseNumber (rest : List Char) : Except Stop (MppCfgVal × List Char) :=
  let tmp := rest.takeWhile isNumberByte
  if 63 ≤ tmp.length ∨ rest.length ≤ tmp.length then .error .undefined
  else if tmp = [] then .error (.fail nok)
  else do
    let val ← numberValue fu tmp
    .ok (val, rest.drop tmp.length)

/-! ## Values -/

/-- A failure under the code of the caller. -/
def recode {α : Type} (ret : ℤ) : Except Stop α → Except Stop α
  | .error (.fail _) => .error (.fail ret)
  | r => r

@[simp] theorem recode_ok {α : Type} (ret : ℤ) (a : α) :
    recode ret (.ok a : Except Stop α) = .ok a :=
  rfl

theorem recode_eq_ok {α : Type} {ret : ℤ} {x : Except Stop α} {a : α} :
    recode ret x = .ok a ↔ x = .ok a := by
  rcases x with (_ | _ | _) | _ <;> simp [recode]

/-- The start of an object or an array, up to its first item. It may be empty. -/
def enter (type : Branch) (depth : ℕ) (rest : List Char) : Except Stop (Bool × List Char) :=
  if maxCfgDepth ≤ depth then .error (.fail nok)
  else if rest.head? ≠ some type.opening then .error (.fail (-2))
  else do
    let rest ← orFail (-3) (skipByte rest 1)
    let rest ← orFail (-4) (skipWs rest)
    if rest.head? = some type.closing then .ok (true, advance rest 1) else .ok (false, rest)

namespace Branch

/-- The code for an end that is not the closing bracket. -/
def leaveRet : Branch → ℤ
  | object => -12
  | array => -9

/-- The codes for a text that ends behind an item, and behind a comma. -/
def itemRet : Branch → ℤ
  | object => -10
  | array => -7

def commaRet : Branch → ℤ
  | object => -11
  | array => -8

end Branch

/-- The end of an object or an array. -/
def leave (type : Branch) (rest : List Char) : Except Stop (List Char) := do
  let rest ← expectByte type.closing type.leaveRet rest
  .ok (advance rest 1)

/-- What follows an item of a loop, and whether the loop goes on. Behind a comma, it is a `}`
    that ends the loop, in an array as well. -/
def afterItem (type : Branch) (rest : List Char) : Except Stop (Bool × List Char) := do
  let rest ← orFail type.itemRet (skipWs rest)
  if rest.head? = some ',' then
    let rest ← orFail type.commaRet (skipByte rest 1)
    match skipWs rest with
    -- the source reads the byte at the cursor without a test
    | none => .error .undefined
    | some rest => .ok (rest.head? ≠ some '}', rest)
  else .ok (false, rest)

/-- The name of a member, up to its value. -/
def parseName (rest : List Char) : Except Stop (CStr × List Char) := do
  let (name, rest) ← parseJsonString rest
  let rest ← expectByte ':' (-5) rest
  let rest ← orFail (-6) (skipByte rest 1)
  let rest ← orFail (-7) (skipWs rest)
  let tmp ← orFail (-8) (dupStr name)
  .ok (tmp, rest)

/-- An item of a loop, where `value` parses a value and `array` an array. In an object, an array
    may stand without a name. -/
def parseItem (value : Option CStr → List Char → Except Stop (Cfg MppCfgVal × List Char))
    (array : List Char → Except Stop (List (Cfg MppCfgVal) × List Char)) :
    Branch → List Char → Except Stop (Cfg MppCfgVal × List Char)
  | .object, rest =>
    if rest.head? = some '[' then do
      let (child, rest) ← array rest
      .ok (.branch none .array child, rest)
    else do
      let (name, rest) ← parseName rest
      recode (-9) (value (some name) rest)
  | .array, rest => do
    let rest ← orFail (-5) (skipWs rest)
    recode (-6) (value none rest)

mutual

def parseJsonValue : ℕ → ℕ → Option CStr → List Char → Except Stop (Cfg MppCfgVal × List Char)
  | 0, _, _, _ => .error .calls
  | n + 1, depth, name, rest =>
    if startsWith rest ['n', 'u', 'l', 'l'] then
      .ok (.leaf name .null, advance rest 4)
    else if startsWith rest ['t', 'r', 'u', 'e'] then
      .ok (.leaf name (.bool true), advance rest 4)
    else if startsWith rest ['f', 'a', 'l', 's', 'e'] then
      .ok (.leaf name (.bool false), advance rest 5)
    else
      match rest with
      | [] => .error (.fail nok)
      | c :: _ =>
        if c = quote then do
          let (string, rest) ← recode nok (parseJsonString rest)
          .ok (.leaf name (.str (dupStr string)), rest)
        else if c = '-' || c.isDigit then do
          let (val, rest) ← parseNumber fu rest
          .ok (.leaf name val, rest)
        else if c = '{' then do
          let (child, rest) ← parseBranch n .object depth rest
          .ok (.branch name .object child, rest)
        else if c = '[' then do
          let (child, rest) ← parseBranch n .array depth rest
          .ok (.branch name .array child, rest)
        else .error (.fail nok)

/-- `parse_json_object` and `parse_json_array` -/
def parseBranch : ℕ → Branch → ℕ → List Char → Except Stop (List (Cfg MppCfgVal) × List Char)
  | 0, _, _, _ => .error .calls
  | n + 1, type, depth, rest => do
    let (empty, rest) ← enter type depth rest
    if empty then .ok ([], rest)
    else
      let (child, rest) ← parseItems n type (depth + 1) rest
      let rest ← leave type rest
      .ok (child, rest)

/-- The loops of `parse_json_object` and `parse_json_array` -/
def parseItems : ℕ → Branch → ℕ → List Char → Except Stop (List (Cfg MppCfgVal) × List Char)
  | 0, _, _, _ => .error .calls
  | n + 1, type, depth, rest => do
    let (c, rest) ← parseItem (parseJsonValue n depth) (parseBranch n .array depth) type rest
    let (more, rest) ← afterItem type rest
    if more then
      let (cs, rest) ← parseItems n type depth rest
      .ok (c :: cs, rest)
    else .ok ([c], rest)

end

/-! ## Texts -/

/-- The bytes of the UTF-8 mark. -/
def utf8Mark : List Char := [Char.ofNat 0xEF, Char.ofNat 0xBB, Char.ofNat 0xBF]

/-- `mpp_cfg_from_json`. A text that starts with neither bracket is accepted without a tree. -/
def mppCfgFromJson (rest : List Char) : Except Stop (Option (Cfg MppCfgVal)) := do
  let calls := 3 * rest.length + 3
  let rest := if (testByte rest 4).isSome && utf8Mark.isPrefixOf rest then advance rest 3 else rest
  let rest ← orFail nok (skipWs rest)
  if rest.head? = some '{' then
    let (child, _) ← parseBranch fu calls .object 0 rest
    .ok (some (.branch none .object child))
  else if rest.head? = some '[' then
    let (child, _) ← parseBranch fu calls .array 0 rest
    .ok (some (.branch none .array child))
  else .ok none

/-- `mpp_cfg_from_string` with `MPP_CFG_STR_FMT_JSON` -/
def mppCfgFromString (buf : CStr) : Except Stop (Option (Cfg MppCfgVal)) :=
  if buf.chars.length = 0 then .error (.fail nok) else mppCfgFromJson fu (buf.chars ++ [nul])

end Libmpp.CfgIo
