import Mathlib

/-!
# Configuration trees

The trees that `mpp_cfg_io.c` writes to a text and reads back. A leaf carries a value, and a
branch, an object or an array, its children in order. Every node may have a name.

A C string is the list of its bytes without the NUL at its end, and a byte is a `Char` below
256.
-/

namespace Libmpp.CfgIo

/-- A C string. -/
structure CStr where
  chars : List Char
  bytes : ∀ c ∈ chars, c.toNat ≠ 0 ∧ c.toNat < 256
deriving DecidableEq

theorem CStr.ext_iff {s s' : CStr} : s = s' ↔ s.chars = s'.chars := by
  cases s
  cases s'
  simp

abbrev nul : Char := Char.ofNat 0

/-- The C string at the start of a buffer. -/
def CStr.ofBuf (buf : List Char) : CStr where
  chars := buf.takeWhile fun c => c ≠ nul && c.toNat < 256
  bytes c h := by
    have hc := List.mem_takeWhile_imp h
    simp only [ne_eq, decide_not, Bool.and_eq_true, Bool.not_eq_eq_eq_not, Bool.not_true,
      decide_eq_false_iff_not, decide_eq_true_eq] at hc
    refine ⟨fun h0 => hc.1 ?_, hc.2⟩
    rw [← Char.ofNat_toNat c, h0]

/-- The integers of a C type. -/
abbrev Ranged (lo hi : ℤ) : Type := {z : ℤ // lo ≤ z ∧ z ≤ hi}

abbrev intMin : ℤ := -2147483648
abbrev intMax : ℤ := 2147483647
abbrev uintMax : ℤ := 4294967295
abbrev llongMin : ℤ := -9223372036854775808
abbrev llongMax : ℤ := 9223372036854775807
abbrev ullongMax : ℤ := 18446744073709551615

/-- `MppCfgVal`, with the `MppCfgType` of the leaf it is in. A string is a pointer, which may
    be `NULL`. -/
inductive MppCfgVal
  | null
  | bool (b1 : Bool)
  | s32 (v : Ranged intMin intMax)
  | u32 (v : Ranged 0 uintMax)
  | s64 (v : Ranged llongMin llongMax)
  | u64 (v : Ranged 0 ullongMax)
  | f32 (v : ℚ)
  | f64 (v : ℚ)
  | str (s : Option CStr)
deriving DecidableEq

/-- What a value says, whatever C type holds it. -/
inductive Meaning
  | null
  | bool (b : Bool)
  | int (z : ℤ)
  | real (q : ℚ)
  | str (s : Option CStr)
deriving DecidableEq

namespace MppCfgVal

def meaning : MppCfgVal → Meaning
  | null => .null
  | bool b => .bool b
  | s32 v => .int v.1
  | u32 v => .int v.1
  | s64 v => .int v.1
  | u64 v => .int v.1
  | f32 v => .real v
  | f64 v => .real v
  | str s => .str s

def IsFloat : MppCfgVal → Prop
  | f32 _ => True
  | f64 _ => True
  | _ => False

instance (v : MppCfgVal) : Decidable v.IsFloat := by
  cases v <;> unfold IsFloat <;> infer_instance

end MppCfgVal

/-- `MPP_CFG_TYPE_OBJECT` and `MPP_CFG_TYPE_ARRAY` -/
inductive Branch
  | object
  | array
deriving DecidableEq

/-- A tree with leaves in `α`. -/
inductive Cfg (α : Type)
  | leaf (name : Option CStr) (val : α)
  | branch (name : Option CStr) (type : Branch) (child : List (Cfg α))

namespace Cfg

variable {α β : Type}

def name : Cfg α → Option CStr
  | leaf n _ => n
  | branch n _ _ => n

mutual

/-- The same tree with other leaves. -/
def map (f : α → β) : Cfg α → Cfg β
  | leaf n v => leaf n (f v)
  | branch n k cs => branch n k (mapAll f cs)

def mapAll (f : α → β) : List (Cfg α) → List (Cfg β)
  | [] => []
  | c :: cs => map f c :: mapAll f cs

end

mutual

/-- The depth of the deepest node, where the root is at depth 0. -/
def depth : Cfg α → ℕ
  | leaf _ _ => 0
  | branch _ _ cs => depthAll cs

/-- The depth of the deepest of the nodes below a branch, which is at depth 0. -/
def depthAll : List (Cfg α) → ℕ
  | [] => 0
  | c :: cs => max (depth c + 1) (depthAll cs)

end

mutual

/-- Every leaf satisfies `P`. -/
def Leaves (P : α → Prop) : Cfg α → Prop
  | leaf _ v => P v
  | branch _ _ cs => LeavesAll P cs

def LeavesAll (P : α → Prop) : List (Cfg α) → Prop
  | [] => True
  | c :: cs => Leaves P c ∧ LeavesAll P cs

end

mutual

theorem map_map {γ : Type} (f : α → β) (g : β → γ) :
    (c : Cfg α) → (c.map f).map g = c.map fun v => g (f v)
  | leaf _ _ => rfl
  | branch n k cs => congrArg (branch n k) (mapAll_mapAll f g cs)

theorem mapAll_mapAll {γ : Type} (f : α → β) (g : β → γ) :
    (cs : List (Cfg α)) → mapAll g (mapAll f cs) = mapAll (fun v => g (f v)) cs
  | [] => rfl
  | c :: cs => congrArg₂ List.cons (map_map f g c) (mapAll_mapAll f g cs)

end

mutual

/-- Two maps of a tree are the same when they are on every leaf. -/
theorem map_eq_map {f g : α → β} :
    (c : Cfg α) → (c.map f = c.map g ↔ Leaves (fun v => f v = g v) c)
  | leaf _ _ => by simp [map, Leaves]
  | branch _ _ cs => by simpa [map, Leaves] using mapAll_eq_mapAll cs

theorem mapAll_eq_mapAll {f g : α → β} :
    (cs : List (Cfg α)) → (mapAll f cs = mapAll g cs ↔ LeavesAll (fun v => f v = g v) cs)
  | [] => by simp [mapAll, LeavesAll]
  | c :: cs => by simp [mapAll, LeavesAll, map_eq_map c, mapAll_eq_mapAll cs]

end

/-- The root is an object. -/
def IsObject : Cfg α → Prop
  | branch _ .object _ => True
  | _ => False

end Cfg

end Libmpp.CfgIo
