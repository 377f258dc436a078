import Libmpp.CfgIo.Tree

/-!
# The JSON writer

`mppCfgToString` with `MPP_CFG_STR_FMT_JSON`. Every line is put together in a buffer of 256
bytes, of which `snprintf` is given 255, and then copied to the text, whose buffer is doubled
when it is full. Names and strings are written as they are.

What the writer does outside its arrays, or with an integer that overflows, is undefined:
`none`. That memory can always be allocated is assumed.
-/

namespace Libmpp.CfgIo

abbrev quote : Char := Char.ofNat 34

/-! ## Values -/

/-- `%d`, `%u`, `%lld` and `%llu` -/
def decimal (z : ℤ) : List Char :=
  if z < 0 then '-' :: Nat.toDigits 10 z.natAbs else Nat.toDigits 10 z.natAbs

/-- The nearest integer, the even one of two. -/
def roundEven (q : ℚ) : ℤ :=
  let r := q - ⌊q⌋
  if r < 1 / 2 then ⌊q⌋
  else if 1 / 2 < r then ⌊q⌋ + 1
  else if ⌊q⌋ % 2 = 0 then ⌊q⌋ else ⌊q⌋ + 1

/-- `%f` -/
def fixed (q : ℚ) : List Char :=
  let n := (roundEven (|q| * 1000000)).toNat
  let frac := Nat.toDigits 10 (n % 1000000)
  (if q < 0 then ['-'] else []) ++ Nat.toDigits 10 (n / 1000000) ++ ['.'] ++
    List.replicate (6 - frac.length) '0' ++ frac

def quoted (cs : List Char) : List Char := [quote] ++ cs ++ [quote]

/-- The text of a value. A string that is `NULL` is printed as `(null)`. -/
def MppCfgVal.text : MppCfgVal → List Char
  | null => ['n', 'u', 'l', 'l']
  | bool true => ['t', 'r', 'u', 'e']
  | bool false => ['f', 'a', 'l', 's', 'e']
  | s32 v => decimal v
  | u32 v => decimal v
  | s64 v => decimal v
  | u64 v => decimal v
  | f32 v => fixed v
  | f64 v => fixed v
  | str none => quoted ['(', 'n', 'u', 'l', 'l', ')']
  | str (some s) => quoted s.chars

def nameText : Option CStr → List Char
  | none => []
  | some n => quoted n.chars ++ [' ', ':', ' ']

namespace Branch

def opening : Branch → Char
  | object => '{'
  | array => '['

def closing : Branch → Char
  | object => '}'
  | array => ']'

end Branch

/-! ## The text -/

/-- `MppCfgStrBuf`, where `buf` is what lies before the offset. -/
structure MppCfgStrBuf where
  buf : List Char
  bufSize : ℕ
deriving DecidableEq

namespace MppCfgStrBuf

def writeByte (str : MppCfgStrBuf) (bs : List Char) : Option MppCfgStrBuf :=
  if bs.length = 0 then some str
  else if str.buf.length + bs.length < str.bufSize then
    some { str with buf := str.buf ++ bs }
  -- the new size does not fit into an `rk_s32`, or there is still no room
  else if intMax < str.bufSize * 2 ∨ str.bufSize * 2 ≤ str.buf.length + bs.length then none
  else some { buf := str.buf ++ bs, bufSize := str.bufSize * 2 }

def writeIndent : ℕ → MppCfgStrBuf → Option MppCfgStrBuf
  | 0, str => some str
  | depth + 1, str => (str.writeByte [' ', ' ', ' ', ' ']).bind (writeIndent depth)

/-- The line that `snprintf` makes of a text, and `writeByte` copies. The last byte of a text
    of 255 bytes is lost to the NUL. The bytes behind it belong to nobody. -/
def line (text : List Char) : Option (List Char) :=
  if text.length < 255 then some text
  else if text.length = 255 then some (text.dropLast ++ [nul])
  else none

def writeLine (str : MppCfgStrBuf) (text : List Char) : Option MppCfgStrBuf :=
  (line text).bind str.writeByte

/-- Drop the comma before the last byte. -/
def revertComma (str : MppCfgStrBuf) : MppCfgStrBuf :=
  match str.buf.reverse with
  | b :: ',' :: bs => { str with buf := (b :: bs).reverse }
  | _ => str

end MppCfgStrBuf

open MppCfgStrBuf

mutual

def mppCfgToJson (depth : ℕ) : Cfg MppCfgVal → MppCfgStrBuf → Option MppCfgStrBuf
  | .leaf name val, str => do
    let str ← writeIndent depth str
    str.writeLine (nameText name ++ val.text ++ [',', '\n'])
  | .branch name type child, str => do
    let str ← writeIndent depth str
    if child.isEmpty then
      str.writeLine (nameText name ++ [type.opening, type.closing, ',', '\n'])
    else
      let str ← str.writeLine (nameText name ++ [type.opening, '\n'])
      let str ← childToJson (depth + 1) child str
      let str ← writeIndent depth str.revertComma
      str.writeLine ([type.closing] ++ (if depth = 0 then [] else [',']) ++ ['\n'])

def childToJson (depth : ℕ) : List (Cfg MppCfgVal) → MppCfgStrBuf → Option MppCfgStrBuf
  | [], str => some str
  | c :: cs, str => do
    let str ← mppCfgToJson depth c str
    childToJson depth cs str

end

/-- `mpp_cfg_to_string` with `MPP_CFG_STR_FMT_JSON` -/
def mppCfgToString (obj : Cfg MppCfgVal) : Option CStr :=
  (mppCfgToJson 0 obj { buf := [], bufSize := 4096 }).map fun str => .ofBuf str.buf

end Libmpp.CfgIo
