import Mathlib.Tactic.Ring

namespace AliceModem.Words

/-- The value of a C `int` after an operation whose exact result is `z`. -/
def int32 (z : Int) : Int := (z + 2147483648) % 4294967296 - 2147483648

/-- The value of a C `unsigned long` after an operation whose exact result is `z`. -/
def uint32 (z : Int) : Nat := (z % 4294967296).toNat

/-- The conversion of an `int` to `unsigned short`. -/
def uint16 (z : Int) : Nat := (z % 65536).toNat

theorem int32_of_range {z : Int} (hl : -2147483648 ≤ z) (hu : z < 2147483648) : int32 z = z := by
  unfold int32
  omega

theorem int32_lower (z : Int) : -2147483648 ≤ int32 z := by
  unfold int32
  omega

theorem int32_upper (z : Int) : int32 z < 2147483648 := by
  unfold int32
  omega

theorem int32_le {z : Int} (h : 0 ≤ z) : int32 z ≤ z := by
  unfold int32
  omega

theorem uint32_lt (z : Int) : uint32 z < 4294967296 := by
  unfold uint32
  omega

theorem uint32_of_range {z : Int} (hl : 0 ≤ z) (hu : z < 4294967296) : (uint32 z : Int) = z := by
  unfold uint32
  omega

theorem uint32_natCast {n : Nat} (h : n < 4294967296) : uint32 n = n := by
  unfold uint32
  omega

theorem cast_uint32 (z : Int) : (uint32 z : Int) = z % 4294967296 := by
  unfold uint32
  omega

theorem int32_congr {y z : Int} (h : uint32 y = uint32 z) : int32 y = int32 z := by
  have hy := cast_uint32 y
  have hz := cast_uint32 z
  unfold int32
  omega

theorem uint16_of_range {z : Int} (hl : 0 ≤ z) (hu : z < 65536) : (uint16 z : Int) = z := by
  unfold uint16
  omega

theorem uint16_natCast {n : Nat} (h : n < 65536) : uint16 n = n := by
  unfold uint16
  omega

end AliceModem.Words
