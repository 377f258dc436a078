import Mathlib

/-!
# Widths

The sizes of the fields and tables whose entries are numbered by a `Fin`: none is zero, so that
an entry has a number.
-/

namespace Libmpp

instance neZero_eight : NeZero 8 := ⟨Nat.succ_ne_zero _⟩

instance neZero_sixteen : NeZero 16 := ⟨Nat.succ_ne_zero _⟩

instance neZero_word : NeZero 32 := ⟨Nat.succ_ne_zero _⟩

instance neZero_long : NeZero 64 := ⟨Nat.succ_ne_zero _⟩

instance neZero_byte : NeZero 256 := ⟨Nat.succ_ne_zero _⟩

instance neZero_half : NeZero 65536 := ⟨Nat.succ_ne_zero _⟩

end Libmpp
