import Mathlib.Data.List.Basic
import Mathlib.Tactic.Ring

namespace AliceModem.BigEndian

/-- The 32 bit word at the start of a byte string; missing bytes count as zero. -/
def be32 (bs : List UInt8) : Nat :=
  (((bs.getD 0 0).toNat * 256 + (bs.getD 1 0).toNat) * 256 + (bs.getD 2 0).toNat) * 256 + (bs.getD 3 0).toNat

def bytes32 (n : Nat) : List UInt8 :=
  [UInt8.ofNat (n / 16777216), UInt8.ofNat (n / 65536), UInt8.ofNat (n / 256), UInt8.ofNat n]

@[simp] theorem length_bytes32 (n : Nat) : (bytes32 n).length = 4 := rfl

theorem be32_bytes32 {n : Nat} (h : n < 4294967296) (rest : List UInt8) : be32 (bytes32 n ++ rest) = n := by
  simp only [be32, bytes32, List.cons_append, List.getD_cons_zero, List.getD_cons_succ, UInt8.toNat_ofNat']
  omega

theorem bytes32_be32 {bs : List UInt8} (h : bs.length = 4) : bytes32 (be32 bs) = bs := by
  obtain ⟨a, b, c, d, rfl⟩ := List.length_eq_four.mp h
  have ha := a.toNat_lt
  have hb := b.toNat_lt
  have hc := c.toNat_lt
  have hd := d.toNat_lt
  simp only [be32, bytes32, List.getD_cons_zero, List.getD_cons_succ, List.cons.injEq, and_true,
    ← UInt8.toNat_inj, UInt8.toNat_ofNat']
  omega

theorem be32_congr {bs cs : List UInt8} (h : bs.take 4 = cs.take 4) : be32 bs = be32 cs := by
  have hget (i : Nat) (hi : i < 4) : bs.getD i 0 = cs.getD i 0 := by
    have := congrArg (fun l : List UInt8 => l.getD i 0) h
    simpa [List.getD_eq_getElem?_getD, List.getElem?_take, hi] using this
  rw [be32, be32, hget 0 (by decide), hget 1 (by decide), hget 2 (by decide), hget 3 (by decide)]

end AliceModem.BigEndian
