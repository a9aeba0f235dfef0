import AliceModem.Board.Crc
import AliceModem.Flash.Regions

namespace AliceModem.Nvram

open Words Hwdefs Sectors ByteMemory Device SharedBlks Regions BigEndian Crc

/-- `NVRAM_DATA` as the bytes it occupies; the fields are read at their offsets. -/
abbrev NvramData := List Byte

abbrev nvramDataSize : Nat := 300

def szBootline (d : NvramData) : List Byte := d.drop 4
def szBoardId (d : NvramData) : List Byte := d.drop 260
def ulPsiSize (d : NvramData) : Nat := be32 (d.drop 280)
def ulCheckSum (d : NvramData) : Nat := be32 (d.drop 296)

def setCheckSum (d : NvramData) (crc : Nat) : NvramData := d.take 296 ++ bytes32 crc

def nvramCrc (d : NvramData) : Nat := (getCrc32 (setCheckSum d 0) crc32InitValue).toNat

variable (g : Geometry) (info : FlashAddrInfo)

/-- The fields of `fInfo` that `kerSysEarlyFlashInit` has set and nothing changes later. -/
structure Initialised : Prop where
  nvram : info.nvram = (kerSysEarlyFlashInit g).nvram
  rootfsStartOffset : info.rootfsStartOffset = (kerSysEarlyFlashInit g).rootfsStartOffset

def readNvramData (m : Mem Byte) : Int × NvramData :=
  let d := ((kerSysNvRamGet g info m (fun _ => 0) nvramDataSize 0).getD (-1, [])).2
  (if ulCheckSum d ≠ nvramCrc d then -1 else 0, setCheckSum d 0)

def writeNvramData (f : Flash) (d : NvramData) : Flash :=
  let string := patch (fun _ => 0) 0 (setCheckSum d (nvramCrc d))
  (kerSysNvRamSet g info f string nvramDataSize 0).2

abbrev bootLatestImage : Byte := 48

/-- The search for `p=` in `getBootImageTag`. -/
def bootPartition : List Byte → Byte
  | a :: b :: c :: rest =>
      if c = 0 then bootLatestImage
      else if a = 112 ∧ b = 61 then c
      else bootPartition (b :: c :: rest)
  | _ => bootLatestImage

/-- The search in `flashFsKernelImage`, which passes over `p=0`. -/
def bootLatest : List Byte → Option (List Byte)
  | a :: b :: c :: rest =>
      if c = 0 then none
      else if a = 112 ∧ b = 61 ∧ c ≠ bootLatestImage then some (a :: b :: bootLatestImage :: rest)
      else (bootLatest (b :: c :: rest)).map (a :: ·)
  | _ => none

theorem length_setCheckSum {d : NvramData} (h : d.length = nvramDataSize) (crc : Nat) :
    (setCheckSum d crc).length = nvramDataSize := by
  rw [setCheckSum, List.length_append, List.length_take, h]
  rfl

theorem setCheckSum_setCheckSum {d : NvramData} (h : d.length = nvramDataSize) (a b : Nat) :
    setCheckSum (setCheckSum d a) b = setCheckSum d b := by
  have htake : (d.take 296).length = 296 := by rw [List.length_take, h]; rfl
  rw [setCheckSum, setCheckSum, List.take_left' htake, setCheckSum]

theorem ulCheckSum_setCheckSum {d : NvramData} (h : d.length = nvramDataSize) {crc : Nat}
    (hcrc : crc < 4294967296) : ulCheckSum (setCheckSum d crc) = crc := by
  have htake : (d.take 296).length = 296 := by rw [List.length_take, h]; rfl
  rw [ulCheckSum, setCheckSum, List.drop_left' htake]
  simpa using be32_bytes32 hcrc []

theorem setCheckSum_ulCheckSum {d : NvramData} (h : d.length = nvramDataSize) : setCheckSum d (ulCheckSum d) = d := by
  rw [setCheckSum, ulCheckSum, bytes32_be32 (by rw [List.length_drop, h]; rfl), List.take_append_drop]

theorem nvramCrc_setCheckSum {d : NvramData} (h : d.length = nvramDataSize) (crc : Nat) :
    nvramCrc (setCheckSum d crc) = nvramCrc d := by
  rw [nvramCrc, setCheckSum_setCheckSum h, nvramCrc]

theorem nvramCrc_lt (d : NvramData) : nvramCrc d < 4294967296 := UInt32.toNat_lt _

variable {g info}

def rawNvram (m : Mem Byte) : NvramData := readBytes m nvramDataOffset nvramDataSize

theorem length_rawNvram (m : Mem Byte) : (rawNvram m).length = nvramDataSize := length_readBytes _ _ _

theorem rawNvram_patch (m : Mem Byte) {d : NvramData} (hd : d.length = nvramDataSize) :
    rawNvram (patch m nvramDataOffset d) = d := by
  rw [rawNvram, ← hd, readBytes_patch]

theorem readNvramData_eq (hi : Initialised g info) (m : Mem Byte) :
    readNvramData g info m =
      (if ulCheckSum (rawNvram m) ≠ nvramCrc (rawNvram m) then -1 else 0, setCheckSum (rawNvram m) 0) := by
  have hfit := nvram_fits (g := g)
  have hget : kerSysNvRamGet g info m (fun _ => 0) nvramDataSize 0 = some (0, rawNvram m) := by
    have hwindow := hfit.window
    rw [kerSysNvRamGet, hi.nvram, sharedGet_inside m _ hfit.inFlash (by decide) (by simp [kerSysEarlyFlashInit])]
    · simp [Region.first, kerSysEarlyFlashInit, rawNvram, blkStart]
    · simp only [kerSysEarlyFlashInit, nvramDataOffset, nvramLength, nvramDataSize] at hwindow ⊢
      omega
  rw [readNvramData, hget]
  rfl

theorem writeNvramData_ok (hi : Initialised g info) (f : Flash) (hf : f.faults = []) {d : NvramData}
    (hd : d.length = nvramDataSize) :
    (writeNvramData g info f d).faults = [] ∧
    (writeNvramData g info f d).mem = patch f.mem nvramDataOffset (setCheckSum d (nvramCrc d)) := by
  have hfit := nvram_fits (g := g)
  obtain ⟨-, hfault, hmem⟩ := sharedSet_ok f hf hfit.inFlash (show (nvramDataSize : Int) ≤ nvramLength by decide)
    (patch (fun _ => 0) 0 (setCheckSum d (nvramCrc d))) 0
  have hlen := length_setCheckSum hd (nvramCrc d)
  have hwindow := hfit.window
  rw [writeNvramData, kerSysNvRamSet, hi.nvram]
  refine ⟨hfault, ?_⟩
  funext i
  rw [hmem]
  simp only [Region.first, kerSysEarlyFlashInit, Region.endBlk, blkStart, Int.toNat_zero, List.take_zero,
    List.sum_nil, Int.ofNat_zero, zero_add, add_zero, nvramDataOffset, nvramLength, nvramDataSize]
    at hlen hwindow ⊢
  by_cases h : 1408 ≤ i ∧ i < 1408 + 300
  · rw [if_pos (by omega), patch_inside _ _ _ _ (by omega) (by omega), patch_inside _ _ _ _ h.1 (by omega),
      Int.sub_zero]
  · rw [if_neg (by omega), patch_outside _ _ _ _ (by omega)]

theorem readNvramData_patch (hi : Initialised g info) (m : Mem Byte) {d : NvramData}
    (hd : d.length = nvramDataSize) :
    readNvramData g info (patch m nvramDataOffset (setCheckSum d (nvramCrc d))) = (0, setCheckSum d 0) := by
  rw [readNvramData_eq hi, rawNvram_patch m (length_setCheckSum hd _), nvramCrc_setCheckSum hd,
    ulCheckSum_setCheckSum hd (nvramCrc_lt d), setCheckSum_setCheckSum hd]
  simp

theorem readNvramData_data (hi : Initialised g info) (m : Mem Byte) :
    (readNvramData g info m).2.length = nvramDataSize ∧
      setCheckSum (readNvramData g info m).2 0 = (readNvramData g info m).2 := by
  rw [readNvramData_eq hi]
  exact ⟨length_setCheckSum (length_rawNvram m) 0, setCheckSum_setCheckSum (length_rawNvram m) 0 0⟩

theorem bootLatest_set (s s' : List Byte) (h : bootLatest s = some s') :
    ∃ k, s' = s.set (k + 2) bootLatestImage ∧ s.getD (k + 2) 0 ≠ 0 := by
  fun_induction bootLatest s generalizing s' with
  | case1 a b rest => simp at h
  | case2 a b c rest hc hp => exact ⟨0, (Option.some.inj h).symm, hc⟩
  | case3 a b c rest hc hp ih =>
      obtain ⟨t, ht, rfl⟩ := Option.map_eq_some_iff.mp h
      obtain ⟨k, rfl, hk⟩ := ih t ht
      exact ⟨k + 1, rfl, hk⟩
  | case4 s hs => simp at h

theorem bootPartition_bootLatest (s : List Byte) :
    bootPartition ((bootLatest s).getD s) = bootLatestImage := by
  fun_induction bootLatest s with
  | case1 a b rest => simp [bootPartition]
  | case2 a b c rest hc hp =>
      obtain ⟨rfl, rfl, -⟩ := hp
      simp [bootPartition]
  | case3 a b c rest hc hp ih =>
      have hkeep : ∃ t, (bootLatest (b :: c :: rest)).getD (b :: c :: rest) = b :: c :: t ∧
          ((bootLatest (b :: c :: rest)).map (a :: ·)).getD (a :: b :: c :: rest) = a :: b :: c :: t := by
        cases hl : bootLatest (b :: c :: rest) with
        | none => exact ⟨rest, rfl, rfl⟩
        | some s' =>
            obtain ⟨k, rfl, -⟩ := bootLatest_set _ _ hl
            exact ⟨_, rfl, rfl⟩
      obtain ⟨t, htail, hwhole⟩ := hkeep
      rw [htail] at ih
      rw [hwhole, bootPartition, if_neg hc]
      split
      next hab => simpa [hab.1, hab.2] using hp
      next => exact ih
  | case4 s hs =>
      rw [Option.getD_none]
      unfold bootPartition
      split
      next a b c rest => exact absurd rfl (hs a b c rest)
      next => rfl

theorem bootLatest_nvram {d : NvramData} (hd : d.length = nvramDataSize) (hsum : setCheckSum d 0 = d)
    {line : List Byte} (h : bootLatest (szBootline d) = some line) :
    (d.take 4 ++ line).length = nvramDataSize ∧ setCheckSum (d.take 4 ++ line) 0 = d.take 4 ++ line ∧
      szBootline (d.take 4 ++ line) = line := by
  obtain ⟨k, rfl, hk⟩ := bootLatest_set _ _ h
  have htail : d.drop 296 = [0, 0, 0, 0] := by
    rw [← hsum, setCheckSum, List.drop_left' (by rw [List.length_take, hd]; rfl)]
    rfl
  have hbefore : 4 + (k + 2) < 296 := by
    by_contra hge
    apply hk
    have hget : (szBootline d).getD (k + 2) 0 = (d.drop 296).getD (4 + (k + 2) - 296) 0 := by
      have hidx : 296 + (4 + (k + 2) - 296) = 4 + (k + 2) := by omega
      simp only [szBootline, List.getD_eq_getElem?_getD, List.getElem?_drop, hidx]
    rw [hget, htail]
    rcases 4 + (k + 2) - 296 with _ | _ | _ | _ | _ <;> rfl
  have hset : d.take 4 ++ (szBootline d).set (k + 2) bootLatestImage = d.set (4 + (k + 2)) bootLatestImage := by
    conv_rhs => rw [← List.take_append_drop 4 (d.set _ _)]
    rw [List.take_set_of_le (by omega), ← List.set_drop, szBootline]
  rw [hset]
  refine ⟨by rw [List.length_set, hd], ?_, by rw [szBootline, ← List.set_drop, szBootline]⟩
  conv_rhs => rw [← List.take_append_drop 296 (d.set _ _), List.drop_set_of_lt hbefore, htail]
  rfl

end AliceModem.Nvram
