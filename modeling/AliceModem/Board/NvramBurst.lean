import AliceModem.Board.CrcBits
import AliceModem.Board.Nvram
import Mathlib.Data.List.GetD

namespace AliceModem.NvramBurst

open Words Hwdefs Sectors ByteMemory Device SharedBlks Regions BigEndian Crc Nvram Lfsr

/-- The feedback that `Crc32_table` has been computed with. -/
def crcPoly : BitVec 32 := 0xedb88320#32

theorem crcPoly_msb : crcPoly.msb = true := rfl

def bitAt (d : List Byte) (j : Nat) : Bool := (d.getD (j / 8) 0).toBitVec.getLsbD (j % 8)

theorem crc_byte (crc : UInt32) (b : Byte) :
    ((crc >>> 8) ^^^ crc32Table.getD ((crc ^^^ b.toUInt32) &&& 0xff).toNat 0).toBitVec =
      run crcPoly crc.toBitVec ((List.range 8).map b.toBitVec.getLsbD) := by
  have hbits : (List.range 8).map b.toBitVec.getLsbD = (List.range 8).map (b.toBitVec.setWidth 32).getLsbD := by
    apply List.map_congr_left
    intro i hi
    rw [List.mem_range] at hi
    rw [BitVec.getLsbD_setWidth, decide_eq_true (show i < 32 by omega), Bool.true_and]
  have hwide (i : Nat) (hi : 8 ≤ i) : (b.toBitVec.setWidth 32).getLsbD i = false := by
    rw [BitVec.getLsbD_setWidth, BitVec.getLsbD_of_ge _ _ hi, Bool.and_false]
  rw [hbits, run_bits 8 _ _ hwide]
  exact table_byte crc b

theorem crc_bits (d : List Byte) (crc : UInt32) :
    (getCrc32 d crc).toBitVec = run crcPoly crc.toBitVec ((List.range (8 * d.length)).map (bitAt d)) := by
  induction d generalizing crc with
  | nil => rfl
  | cons b d ih =>
      have hfirst : (List.range 8).map (bitAt (b :: d)) = (List.range 8).map b.toBitVec.getLsbD := by
        apply List.map_congr_left
        intro j hj
        rw [List.mem_range] at hj
        rw [bitAt, Nat.div_eq_of_lt hj, Nat.mod_eq_of_lt hj, List.getD_cons_zero]
      have hrest : (List.range (8 * d.length)).map (bitAt (b :: d) ∘ (8 + ·)) =
          (List.range (8 * d.length)).map (bitAt d) := by
        apply List.map_congr_left
        intro j _
        rw [Function.comp_apply, bitAt, bitAt, Nat.add_mod_left, show (8 + j) / 8 = j / 8 + 1 by omega,
          List.getD_cons_succ]
      rw [List.length_cons, Nat.mul_succ, Nat.add_comm, List.range_add, List.map_append, run_append, List.map_map,
        hfirst, hrest, ← crc_byte, ← ih]
      rfl

theorem byte_ext {d d' : List Byte} {i : Nat} (h : ∀ k < 8, bitAt d (8 * i + k) = bitAt d' (8 * i + k)) :
    d.getD i 0 = d'.getD i 0 := by
  apply UInt8.toBitVec_inj.mp
  apply BitVec.eq_of_getLsbD_eq
  intro k hk
  have hbit := h k hk
  rwa [bitAt, bitAt, show (8 * i + k) / 8 = i by omega, show (8 * i + k) % 8 = k by omega] at hbit

theorem bytes_ext {d d' : List Byte} (hlen : d.length = d'.length)
    (h : ∀ j < 8 * d.length, bitAt d j = bitAt d' j) : d = d' := by
  apply List.ext_getElem hlen
  intro i hi hi'
  have hbyte : d.getD i 0 = d'.getD i 0 := byte_ext fun k hk => h _ (by omega)
  rwa [List.getD_eq_getElem _ _ hi, List.getD_eq_getElem _ _ hi'] at hbyte

section CheckSum

variable {d d' : NvramData} (hd : d.length = nvramDataSize)

include hd

theorem bitAt_setCheckSum (crc : Nat) {j : Nat} (hj : j < 2368) : bitAt (setCheckSum d crc) j = bitAt d j := by
  have hlen : (d.take 296).length = 296 := by rw [List.length_take, hd]; rfl
  rw [bitAt, bitAt, setCheckSum, List.getD_append _ _ _ _ (by omega), List.getD_eq_getElem?_getD,
    List.getElem?_take_of_lt (by omega), ← List.getD_eq_getElem?_getD]

theorem bitAt_checkSum (hd' : d'.length = nvramDataSize) (crc : Nat) {j : Nat} (hj : 2368 ≤ j) :
    bitAt (setCheckSum d crc) j = bitAt (setCheckSum d' crc) j := by
  have hlen : (d.take 296).length = 296 := by rw [List.length_take, hd]; rfl
  have hlen' : (d'.take 296).length = 296 := by rw [List.length_take, hd']; rfl
  rw [bitAt, bitAt, setCheckSum, setCheckSum, List.getD_append_right _ _ _ _ (by omega),
    List.getD_append_right _ _ _ _ (by omega), hlen, hlen']

end CheckSum

/-- Some bits of a structure have changed, all of them in a window of 32 bits before the checksum. -/
structure Burst (d d' : NvramData) : Prop where
  changed : d' ≠ d
  window : ∃ a, a + 32 ≤ 2368 ∧ ∀ j < 2400, bitAt d' j ≠ bitAt d j → a ≤ j ∧ j < a + 32

theorem Burst.checkSum {d d' : NvramData} (h : Burst d d') {j : Nat} (hl : 2368 ≤ j) (hu : j < 2400) :
    bitAt d' j = bitAt d j := by
  obtain ⟨a, ha, hwin⟩ := h.window
  by_contra hne
  have := hwin j hu hne
  omega

theorem ulCheckSum_congr {d d' : NvramData} (hd : d.length = nvramDataSize) (hd' : d'.length = nvramDataSize)
    (h : ∀ j, 2368 ≤ j → j < 2400 → bitAt d' j = bitAt d j) : ulCheckSum d' = ulCheckSum d := by
  have htail : d'.drop 296 = d.drop 296 := by
    apply List.ext_getElem (by rw [List.length_drop, List.length_drop, hd, hd'])
    intro i hi hi'
    rw [List.length_drop, hd'] at hi
    have hbyte : d'.getD (296 + i) 0 = d.getD (296 + i) 0 :=
      byte_ext fun k hk => h _ (by omega) (by simp only [nvramDataSize] at hi; omega)
    rw [List.getD_eq_getElem _ _ (by omega), List.getD_eq_getElem _ _ (by rw [hd]; omega)] at hbyte
    rw [List.getElem_drop, List.getElem_drop]
    exact hbyte
  rw [ulCheckSum, ulCheckSum, htail]

theorem Burst.crc_ne {d d' : NvramData} (h : Burst d d') (hd : d.length = nvramDataSize)
    (hd' : d'.length = nvramDataSize) : nvramCrc d' ≠ nvramCrc d := by
  intro hcrc
  have hrun := congrArg UInt32.toBitVec (UInt32.toNat_inj.mp hcrc)
  rw [crc_bits, crc_bits, length_setCheckSum hd, length_setCheckSum hd'] at hrun
  obtain ⟨a, ha, hwin⟩ := h.window
  have hfit : a + 32 ≤ 8 * nvramDataSize := ha.trans (by decide)
  have hsame := no_burst crcPoly_msb hfit (fun j hj herr => ?_) (run_difference hrun)
  · refine h.changed (bytes_ext (hd'.trans hd.symm) fun j hj => ?_)
    rw [hd'] at hj
    rcases Nat.lt_or_ge j 2368 with hlow | hhigh
    · have hbit := hsame j hj
      rwa [bitAt_setCheckSum hd' 0 hlow, bitAt_setCheckSum hd 0 hlow, bne_eq_false_iff_eq] at hbit
    · exact h.checkSum hhigh hj
  · rcases Nat.lt_or_ge j 2368 with hlow | hhigh
    · rw [bitAt_setCheckSum hd' 0 hlow, bitAt_setCheckSum hd 0 hlow] at herr
      exact hwin j hj (by simpa using herr)
    · rw [bitAt_checkSum hd' hd 0 hhigh, Bool.xor_self] at herr
      exact absurd herr Bool.false_ne_true

theorem burst_first {m : Mem Byte} {b : Byte} (h : m nvramDataOffset ≠ b) :
    Burst (rawNvram m) (rawNvram (patch m nvramDataOffset [b])) := by
  have hbit (m : Mem Byte) {j : Nat} (hj : j < 2400) :
      bitAt (rawNvram m) j = (m (nvramDataOffset + (j / 8 : Nat))).toBitVec.getLsbD (j % 8) := by
    rw [bitAt, rawNvram]
    exact congrArg (fun v : Byte => v.toBitVec.getLsbD (j % 8))
      (getD_readBytes m nvramDataOffset nvramDataSize (j / 8) (by simp only [nvramDataSize]; omega))
  refine ⟨fun hsame => h ?_, 0, by decide, fun j hj hne => ⟨Nat.zero_le j, ?_⟩⟩
  · have hhead := congrArg (fun d => d.headD 0) hsame
    simp only [rawNvram, nvramDataSize] at hhead
    rw [headD_readBytes, headD_readBytes, patch_inside _ _ _ _ le_rfl (by simp)] at hhead
    rw [← hhead, Int.sub_self]
    rfl
  · by_contra hfar
    rw [hbit _ hj, hbit _ hj, patch_outside _ _ _ _ (.inr (by rw [List.length_singleton]; omega))] at hne
    exact hne rfl

variable {g : Geometry} {info : FlashAddrInfo}

/-- What `writeNvramData` has stored is read back, and with a burst of errors in it it is refused. -/
theorem burst_detected (hi : Initialised g info) {f : Flash} (hf : f.faults = []) {d : NvramData}
    (hd : d.length = nvramDataSize) :
    readNvramData g info (writeNvramData g info f d).mem = (0, setCheckSum d 0) ∧
    ∀ m, Burst (rawNvram (writeNvramData g info f d).mem) (rawNvram m) → (readNvramData g info m).1 = -1 := by
  have hmem := (writeNvramData_ok hi f hf hd).2
  have hlen := length_setCheckSum hd (nvramCrc d)
  have hraw : rawNvram (writeNvramData g info f d).mem = setCheckSum d (nvramCrc d) := by
    rw [hmem, rawNvram_patch _ hlen]
  refine ⟨by rw [hmem, readNvramData_patch hi f.mem hd], fun m hburst => ?_⟩
  rw [hraw] at hburst
  have hlen' := length_rawNvram m
  have hsum : ulCheckSum (rawNvram m) = nvramCrc d := by
    rw [ulCheckSum_congr hlen hlen' fun j => hburst.checkSum, ulCheckSum_setCheckSum hd (nvramCrc_lt d)]
  have hne := hburst.crc_ne hlen hlen'
  rw [nvramCrc_setCheckSum hd] at hne
  rw [readNvramData_eq hi, hsum, if_pos hne.symm]

theorem burst_detected_demo :
    readNvramData demoFlash (kerSysEarlyFlashInit demoFlash)
      (writeNvramData demoFlash (kerSysEarlyFlashInit demoFlash) (fresh fun _ => 0xff) (List.replicate 300 0)).mem =
        (0, setCheckSum (List.replicate 300 0) 0) ∧
    (readNvramData demoFlash (kerSysEarlyFlashInit demoFlash) (patch (writeNvramData demoFlash
      (kerSysEarlyFlashInit demoFlash) (fresh fun _ => 0xff) (List.replicate 300 0)).mem nvramDataOffset [1])).1 = -1 := by
  have hi : Initialised demoFlash (kerSysEarlyFlashInit demoFlash) := ⟨rfl, rfl⟩
  have hd : (List.replicate 300 (0 : Byte)).length = nvramDataSize := List.length_replicate
  have h := burst_detected hi (f := fresh fun _ => 0xff) rfl hd
  refine ⟨h.1, h.2 _ (burst_first ?_)⟩
  rw [(writeNvramData_ok hi _ rfl hd).2, patch_inside _ _ _ _ le_rfl (by rw [length_setCheckSum hd]; decide),
    Int.sub_self]
  decide

def bitFromTop (d : List Byte) (j : Nat) : Bool := (d.getD (j / 8) 0).toBitVec.getMsbD (j % 8)

def hiddenBurst : List Byte := [0x05, 0x8f, 0xf4, 0x6a, 0x70]

def zeroNvram : Mem Byte :=
  (writeNvramData demoFlash (kerSysEarlyFlashInit demoFlash) (fresh fun _ => 0xff) (List.replicate 300 0)).mem

theorem rawNvram_zeroNvram :
    rawNvram zeroNvram = List.replicate 5 0 ++ (List.replicate 291 0 ++ bytes32 (nvramCrc (List.replicate 300 0))) := by
  have hd : (List.replicate 300 (0 : Byte)).length = nvramDataSize := List.length_replicate
  rw [zeroNvram, (writeNvramData_ok ⟨rfl, rfl⟩ _ rfl hd).2, rawNvram_patch _ (length_setCheckSum hd _), setCheckSum,
    List.take_replicate, ← List.append_assoc, List.replicate_append_replicate]
  rfl

theorem rawNvram_hiddenBurst : rawNvram (patch zeroNvram nvramDataOffset hiddenBurst) =
    hiddenBurst ++ (List.replicate 291 0 ++ bytes32 (nvramCrc (List.replicate 300 0))) := by
  have hrest : readBytes zeroNvram (nvramDataOffset + 5) 295 =
      List.replicate 291 0 ++ bytes32 (nvramCrc (List.replicate 300 0)) := by
    have hdrop := drop_readBytes zeroNvram nvramDataOffset (show 5 ≤ nvramDataSize by decide)
    rw [← rawNvram, rawNvram_zeroNvram] at hdrop
    exact hdrop.symm
  rw [rawNvram, show nvramDataSize = hiddenBurst.length + 295 from rfl, readBytes_append, readBytes_patch,
    readBytes_patch_disjoint _ _ _ _ _ (.inr le_rfl)]
  exact congrArg (hiddenBurst ++ ·) hrest

theorem burst_from_top_accepted :
    rawNvram (patch zeroNvram nvramDataOffset hiddenBurst) ≠ rawNvram zeroNvram ∧
    (∀ j < 2400, bitFromTop (rawNvram (patch zeroNvram nvramDataOffset hiddenBurst)) j ≠
      bitFromTop (rawNvram zeroNvram) j → 5 ≤ j ∧ j < 36) ∧
    (readNvramData demoFlash (kerSysEarlyFlashInit demoFlash) (patch zeroNvram nvramDataOffset hiddenBurst)).1 = 0 := by
  rw [readNvramData_eq ⟨rfl, rfl⟩, rawNvram_hiddenBurst, rawNvram_zeroNvram]
  refine ⟨nofun, fun j _ hne => ?_, by decide +kernel⟩
  generalize List.replicate 291 0 ++ bytes32 (nvramCrc (List.replicate 300 0)) = rest at hne
  have hlen : hiddenBurst.length = 5 := rfl
  have hzero : (List.replicate 5 (0 : Byte)).length = 5 := rfl
  rcases Nat.lt_or_ge j 40 with hlow | hhigh
  · rw [bitFromTop, bitFromTop, List.getD_append _ _ _ _ (by omega), List.getD_append _ _ _ _ (by omega)] at hne
    revert hne
    clear * - hlow
    decide +revert
  · refine absurd ?_ hne
    rw [bitFromTop, bitFromTop, List.getD_append_right _ _ _ _ (by omega), List.getD_append_right _ _ _ _ (by omega)]
    rfl

end AliceModem.NvramBurst
