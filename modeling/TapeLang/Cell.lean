/-!
# Cells

A cell is an unsigned 32-bit word. Integers are stored modulo `Cell.modulus`, which is `2 ^ 32`, so
that adding to a cell wraps around at both ends.

* `Cell.toNat_ofInt`: what is stored is the remainder.
* `Cell.ofInt_eq_zero_iff`: only multiples of the modulus are stored as zero.
-/

namespace TapeLang

/-- A cell of the tape. -/
abbrev Cell := UInt32

namespace Cell

/-- The number of values of a cell. -/
def modulus : Int := 4294967296

/-- The cell that stores the integer `v`. -/
def ofInt (v : Int) : Cell := UInt32.ofInt v

theorem toNat_ofInt (v : Int) : ((ofInt v).toNat : Int) = v % modulus := by
  have h : (UInt32.ofInt v).toNat = (v % 4294967296).toNat % 4294967296 := rfl
  rw [ofInt, modulus, h]
  omega

theorem ofInt_add (v w : Int) : ofInt (v + w) = ofInt v + ofInt w := UInt32.ofInt_add v w

theorem ofInt_eq_iff (v w : Int) : ofInt v = ofInt w ↔ v % modulus = w % modulus := by
  rw [← UInt32.toNat_inj, ← Int.natCast_inj, toNat_ofInt, toNat_ofInt]

theorem ofInt_eq_zero_iff (v : Int) : ofInt v = 0 ↔ v % modulus = 0 := by
  rw [← UInt32.toNat_inj, ← Int.natCast_inj, toNat_ofInt]
  rfl

end Cell

end TapeLang
