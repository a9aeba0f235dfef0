import AliceModem.Lib.Lfsr
import AliceModem.Board.Crc

namespace AliceModem.Crc

open Lfsr

/-- A step of the reflected CRC-32, which takes in one bit. -/
def bitStep (crc : UInt32) : UInt32 := if crc &&& 1 = 1 then (crc >>> 1) ^^^ 0xedb88320 else crc >>> 1

def bitCrc32 (pdata : List UInt8) (crc : UInt32) : UInt32 :=
  pdata.foldl (fun crc b => bitStep^[8] (crc ^^^ b.toUInt32)) crc

theorem lsb_iff (crc : UInt32) : crc &&& 1 = 1 ↔ crc.toBitVec.getLsbD 0 = true := by
  rw [← UInt32.toBitVec_inj, UInt32.toBitVec_and]
  change crc.toBitVec &&& 1#32 = 1#32 ↔ _
  rw [BitVec.and_one_eq_setWidth_ofBool_getLsbD]
  cases crc.toBitVec.getLsbD 0 with
  | false => simp
  | true => simp

theorem toBitVec_bitStep (crc : UInt32) : (bitStep crc).toBitVec = step 0xedb88320#32 crc.toBitVec := by
  by_cases hlsb : crc &&& 1 = 1
  · rw [bitStep, if_pos hlsb, step, if_pos ((lsb_iff crc).mp hlsb)]
    rfl
  · rw [bitStep, if_neg hlsb, step, if_neg (mt (lsb_iff crc).mpr hlsb), BitVec.xor_zero]
    rfl

theorem toBitVec_iterate (k : Nat) (crc : UInt32) :
    (bitStep^[k] crc).toBitVec = (step 0xedb88320#32)^[k] crc.toBitVec := by
  induction k generalizing crc with
  | zero => rfl
  | succ k ih => rw [Function.iterate_succ_apply, Function.iterate_succ_apply, ih, toBitVec_bitStep]

theorem table_step :
    ∀ i : Fin 256, (crc32Table.getD i 0).toBitVec = (step 0xedb88320#32)^[8] (BitVec.ofNat 32 i) := by
  decide +kernel

theorem table_register (x : BitVec 32) :
    (x >>> 8) ^^^ (crc32Table.getD (x &&& 0xff#32).toNat 0).toBitVec = (step 0xedb88320#32)^[8] x := by
  have hlow : (x &&& 0xff#32).toNat < 256 := by
    rw [BitVec.toNat_and]
    exact Nat.lt_of_le_of_lt Nat.and_le_right (by decide)
  have hmask (i : Nat) : (0xff#32).getLsbD i = decide (i < 8) := by
    by_cases hi : i < 32
    · have hbyte : ∀ i : Fin 32, (0xff#32).getLsbD i = decide ((i : Nat) < 8) := by decide
      exact hbyte ⟨i, hi⟩
    · rw [BitVec.getLsbD_of_ge _ _ (by omega), decide_eq_false (by omega)]
  have hsplit : x = (x ^^^ (x &&& 0xff#32)) ^^^ (x &&& 0xff#32) := by
    rw [BitVec.xor_assoc, BitVec.xor_self, BitVec.xor_zero]
  have hhigh : (x ^^^ (x &&& 0xff#32)) >>> 8 = x >>> 8 := by
    apply BitVec.eq_of_getLsbD_eq
    intro i _
    simp [hmask]
  have hshift : (step 0xedb88320#32)^[8] (x ^^^ (x &&& 0xff#32)) = (x ^^^ (x &&& 0xff#32)) >>> 8 :=
    step_shift 8 _ fun i hi => by simp [hmask, hi]
  conv_rhs => rw [hsplit, iterate_xor, hshift, hhigh]
  rw [table_step ⟨_, hlow⟩, BitVec.ofNat_toNat, BitVec.setWidth_eq]

theorem table_byte (crc : UInt32) (b : UInt8) :
    ((crc >>> 8) ^^^ crc32Table.getD ((crc ^^^ b.toUInt32) &&& 0xff).toNat 0).toBitVec =
      (step 0xedb88320#32)^[8] (crc.toBitVec ^^^ b.toBitVec.setWidth 32) := by
  have hhigh : (crc.toBitVec ^^^ b.toBitVec.setWidth 32) >>> 8 = crc.toBitVec >>> 8 := by
    apply BitVec.eq_of_getLsbD_eq
    intro i _
    simp
  rw [← table_register, hhigh]
  rfl

theorem getCrc32_eq_bitCrc32 (pdata : List UInt8) (crc : UInt32) : getCrc32 pdata crc = bitCrc32 pdata crc := by
  induction pdata generalizing crc with
  | nil => rfl
  | cons b pdata ih =>
      have hbyte : (crc >>> 8) ^^^ crc32Table.getD ((crc ^^^ b.toUInt32) &&& 0xff).toNat 0 =
          bitStep^[8] (crc ^^^ b.toUInt32) := by
        apply UInt32.toBitVec_inj.mp
        rw [table_byte, toBitVec_iterate]
        rfl
      calc getCrc32 (b :: pdata) crc
          = getCrc32 pdata ((crc >>> 8) ^^^ crc32Table.getD ((crc ^^^ b.toUInt32) &&& 0xff).toNat 0) := rfl
        _ = bitCrc32 pdata (bitStep^[8] (crc ^^^ b.toUInt32)) := by rw [hbyte, ih]
        _ = bitCrc32 (b :: pdata) crc := rfl

/-- The table holds the reflected CRC-32, and a checksum can be continued. -/
theorem crc32_is_reflected (a b : List UInt8) (crc : UInt32) :
    getCrc32 a crc = bitCrc32 a crc ∧ getCrc32 (a ++ b) crc = getCrc32 b (getCrc32 a crc) :=
  ⟨getCrc32_eq_bitCrc32 a crc, List.foldl_append⟩

end AliceModem.Crc
