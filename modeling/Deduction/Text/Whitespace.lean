/-!
# White space

The Unicode property `White_Space`.  Readers skip these characters, and a line of a proof file that holds nothing
else is blank.
-/

namespace Deduction

/-- `c` has the Unicode property `White_Space`. -/
def isWhitespace (c : Char) : Bool :=
  (0x09 ≤ c.toNat && c.toNat ≤ 0x0D) || c.toNat == 0x20 || c.toNat == 0x85 || c.toNat == 0xA0 ||
  c.toNat == 0x1680 || (0x2000 ≤ c.toNat && c.toNat ≤ 0x200A) || c.toNat == 0x2028 || c.toNat == 0x2029 ||
  c.toNat == 0x202F || c.toNat == 0x205F || c.toNat == 0x3000

/-- Every character is white space. -/
def isBlank (text : List Char) : Bool := text.all isWhitespace

@[simp] theorem isBlank_nil : isBlank [] = true := rfl

theorem isBlank_cons {c : Char} {text : List Char} : isBlank (c :: text) = (isWhitespace c && isBlank text) :=
  List.all_cons

theorem isBlank_append {s t : List Char} : isBlank (s ++ t) = (isBlank s && isBlank t) := List.all_append

theorem isBlank_iff {text : List Char} : isBlank text = true ↔ ∀ c ∈ text, isWhitespace c = true := List.all_eq_true

end Deduction
