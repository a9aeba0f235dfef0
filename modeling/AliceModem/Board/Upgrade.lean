import AliceModem.Board.ImageTag
import AliceModem.Flash.ImageSet

namespace AliceModem.Upgrade

open Words Hwdefs Sectors ByteMemory Device SharedBlks Regions BigEndian Crc Nvram Vsprintf ImageTag ImageSet

def tagOf (image : Mem Byte) : FileTag := readBytes image 0 256

def signTag (image : Mem Byte) : Mem Byte := patch image 236 (bytes32 (tagCrc (tagOf image)))

def imgSize (t : FileTag) : Nat := uint32 (rootfsLen t + kernelLen t)

def rootfsOffset (t : FileTag) : Nat := uint32 ((rootfsAddress t : Int) - imageBase - tagLen)

variable (g : Geometry) (info : FlashAddrInfo)

def curImgSize (m : Mem Byte) : Nat := ((getBootImageTag g info m).map imgSize).getD 0

def availableSizeTwoImgs : Nat :=
  let reserveForTwoImages :=
    if info.rootfsStartOffset > flashReservedAtEnd then info.rootfsStartOffset else flashReservedAtEnd
  uint32 (flashGetTotalSize g / 2 - reserveForTwoImages)

/-- Current and new image fit in half the flash each. -/
def TwoImages (m : Mem Byte) (t : FileTag) : Prop :=
  curImgSize g info m ≤ availableSizeTwoImgs g info ∧ imgSize t ≤ availableSizeTwoImgs g info

instance (m : Mem Byte) (t : FileTag) : Decidable (TwoImages g info m t) := inferInstanceAs (Decidable (_ ∧ _))

def ToSecond (m : Mem Byte) (t : FileTag) : Prop :=
  TwoImages g info m t ∧ getPartitionFromTag g info m (getBootImageTag g info m) = 1

instance (m : Mem Byte) (t : FileTag) : Decidable (ToSecond g info m t) := inferInstanceAs (Decidable (_ ∧ _))

def addrShift (t : FileTag) : Int :=
  if rootfsOffset t < uint32 info.rootfsStartOffset then info.rootfsStartOffset - rootfsOffset t else 0

def rootfsAddr (t : FileTag) : Nat := uint32 (uint32 (rootfsAddress t + addrShift info t) + bootOffset g)

def kernelAddr (t : FileTag) : Nat := uint32 (uint32 (kernelAddress t + addrShift info t) + bootOffset g)

/-- It wraps around when the image starts in the reserved space or behind it. -/
def availableSizeOneImg (t : FileTag) : Nat :=
  uint32 (flashGetTotalSize g - (rootfsAddr g info t - flashGetMemptr g 0) - flashReservedAtEnd)

def movedImage (imagePtr : Mem Byte) : Mem Byte :=
  let t := tagOf imagePtr
  if rootfsOffset t < uint32 info.rootfsStartOffset then
    signTag (patch (patch imagePtr 94 (sprintfLu (uint32 (rootfsAddress t + addrShift info t)))) 116
      (sprintfLu (uint32 (kernelAddress t + addrShift info t))))
  else imagePtr

def placedImage (m imagePtr : Mem Byte) : Mem Byte :=
  let t := tagOf imagePtr
  let offset := flashGetTotalSize g / 2 + tagLen
  if ToSecond g info m t then
    patch (patch (movedImage info imagePtr) 116
      (sprintfLu (uint32 (imageBase + offset + (kernelAddr g info t - rootfsAddr g info t))))) 94
      (sprintfLu (uint32 (imageBase + offset)))
  else movedImage info imagePtr

/-- What is handed to `kerSysBcmImageSet`. -/
structure Plan where
  dest : Int
  image : Mem Byte
  size : Int

/-- `flashFsKernelImage` up to the write: the tag is moved to its destination,
numbered and signed. There is no plan for an image that is too big. -/
def plan (m imagePtr : Mem Byte) : Option Plan :=
  let t := tagOf imagePtr
  if imgSize t > availableSizeOneImg g info t then none
  else
    let rootfsAddr := if ToSecond g info m t then uint32 (flashGetMemptr g 0 + (flashGetTotalSize g / 2 + tagLen))
      else rootfsAddr g info t
    let tagFs := patch (placedImage g info m imagePtr) 138 (sprintfD (updateImageSequenceNumber g info m))
    some ⟨rootfsAddr - tagLen, signTag tagFs, int32 (tagLen + imgSize t)⟩

/-- The boot line is searched in the NVRAM data read before the write. -/
def flashFsKernelImage (f : Flash) (imagePtr : Mem Byte) : Option Int × Flash :=
  match plan g info f.mem imagePtr with
  | none => (some (-1), f)
  | some p =>
      let nvramData := (readNvramData g info f.mem).2
      let r := kerSysBcmImageSet g info f p.dest p.image p.size
      if r.1 ≠ some 0 then r
      else
        match bootLatest (szBootline nvramData) with
        | none => (some 0, r.2)
        | some line => (some 0, writeNvramData g info r.2 (nvramData.take 4 ++ line))

variable {g info}

theorem take_tagOf (image : Mem Byte) {k : Nat} (hk : k ≤ 256) : (tagOf image).take k = readBytes image 0 k :=
  take_readBytes image 0 hk

theorem drop_tagOf (image : Mem Byte) {k : Nat} (hk : k ≤ 256) :
    (tagOf image).drop k = readBytes image k (256 - k) := by
  rw [tagOf, drop_readBytes image 0 hk, zero_add]

theorem tagCrc_signTag (image : Mem Byte) : tagCrc (tagOf (signTag image)) = tagCrc (tagOf image) := by
  rw [tagCrc, tagCrc, take_tagOf _ (by decide), take_tagOf _ (by decide), signTag,
    readBytes_patch_disjoint _ _ _ _ _ (.inl (by decide))]

theorem signTag_valid (image : Mem Byte) :
    tagCrc (tagOf (signTag image)) = tagValidationToken (tagOf (signTag image)) := by
  have hword : readBytes (signTag image) 236 4 = bytes32 (tagCrc (tagOf image)) := readBytes_patch _ _ _
  have hcrc : tagCrc (tagOf image) < 4294967296 := UInt32.toNat_lt _
  have htake : (readBytes (signTag image) 236 (256 - 236)).take 4 = (bytes32 (tagCrc (tagOf image)) ++ []).take 4 := by
    rw [take_readBytes _ _ (by decide), List.append_nil]
    exact hword
  rw [tagCrc_signTag, tagValidationToken, drop_tagOf _ (by decide)]
  exact (be32_bytes32 hcrc []).symm.trans (be32_congr htake).symm

theorem field_text {image : Mem Byte} {k : Nat} {text : List Byte} (h : readBytes image k text.length = text)
    (hk : k + text.length ≤ 256) : ∃ rest, (tagOf image).drop k = text ++ rest := by
  rw [drop_tagOf _ (by omega), show 256 - k = text.length + (256 - k - text.length) by omega, readBytes_append, h]
  exact ⟨_, rfl⟩

theorem rootfsStart_range (hi : Initialised g info) :
    65536 ≤ info.rootfsStartOffset ∧ info.rootfsStartOffset < 2147483648 := by
  have htotal := g.total_lt
  have hpos := g.nsect_pos
  have hsum := blkStart_le_total (g := g) 1
  have hone := blkStart_succ (g := g) (a := 0) le_rfl (by omega)
  have hzero : blkStart g 0 = 0 := by simp [blkStart]
  rw [zero_add, hzero, zero_add] at hone
  rw [flashGetTotalSize] at hsum
  rw [hi.rootfsStartOffset]
  simp only [kerSysEarlyFlashInit, flashLengthBootRom]
  split <;> omega

theorem memptr_zero : flashGetMemptr g 0 = g.flashBase := by
  obtain ⟨h0, h1⟩ := g.base_range
  have hbase : sectorBase g (uint16 0) = 0 := by
    rw [sectorBase]
    split <;> simp [uint16]
  rw [flashGetMemptr, hbase, add_zero, uint32_of_range h0 h1]

theorem toSecond_iff (m : Mem Byte) (t : FileTag) :
    ToSecond g info m t ↔ TwoImages g info m t ∧ bootImage g info m = 1 := by
  rw [ToSecond, getPartitionFromTag_boot]
  simp only [Nat.cast_eq_one]

variable (g info)

def imageOffset (t : FileTag) : Int := max (rootfsOffset t : Int) info.rootfsStartOffset

def destOffset (m : Mem Byte) (t : FileTag) : Int :=
  if TwoImages g info m t ∧ bootImage g info m = 1 then flashGetTotalSize g / 2 else imageOffset info t

variable {g info}

theorem rootfsAddr_eq (hi : Initialised g info) (t : FileTag) :
    (rootfsAddr g info t : Int) % 4294967296 = (g.flashBase + imageOffset info t + tagLen) % 4294967296 := by
  obtain ⟨hs0, hs1⟩ := rootfsStart_range hi
  have hro : (rootfsOffset t : Int) = ((rootfsAddress t : Int) - imageBase - tagLen) % 4294967296 := cast_uint32 _
  have hstart := uint32_of_range (z := info.rootfsStartOffset) (by omega) (by omega)
  have hmax : (rootfsOffset t : Int) + addrShift info t = imageOffset info t := by
    rw [addrShift, imageOffset]
    split <;> omega
  rw [← hmax, rootfsAddr, bootOffset]
  simp only [cast_uint32, imageBase, tagLen] at hro ⊢
  omega

theorem availableSizeOneImg_eq (hi : Initialised g info) (t : FileTag) :
    availableSizeOneImg g info t =
      uint32 (flashGetTotalSize g - imageOffset info t - tagLen - flashReservedAtEnd) := by
  have haddr := rootfsAddr_eq hi t
  rw [availableSizeOneImg, memptr_zero, uint32, uint32]
  omega

theorem plan_spec (hi : Initialised g info) {m imagePtr : Mem Byte} {p : Plan}
    (h : plan g info m imagePtr = some p) :
    imgSize (tagOf imagePtr) ≤ availableSizeOneImg g info (tagOf imagePtr) ∧
    uint32 (p.dest - g.flashBase) = uint32 (destOffset g info m (tagOf imagePtr)) ∧
    p.size = int32 (tagLen + imgSize (tagOf imagePtr)) ∧
    p.image = signTag (patch (placedImage g info m imagePtr) 138
      (sprintfD (updateImageSequenceNumber g info m))) := by
  have haddr := rootfsAddr_eq hi (tagOf imagePtr)
  rw [plan] at h
  dsimp only at h
  split at h
  · cases h
  next hsize =>
    obtain rfl := Option.some.inj h
    refine ⟨not_lt.mp hsize, ?_, rfl, rfl⟩
    simp only [destOffset, ← toSecond_iff, memptr_zero]
    split <;> (unfold uint32; omega)

theorem plan_of_le {m imagePtr : Mem Byte}
    (h : imgSize (tagOf imagePtr) ≤ availableSizeOneImg g info (tagOf imagePtr)) :
    ∃ p, plan g info m imagePtr = some p := by
  rw [plan]
  dsimp only
  rw [if_neg (not_lt.mpr h)]
  exact ⟨_, rfl⟩

theorem flashFsKernelImage_done {f : Flash} {imagePtr : Mem Byte}
    (h : (flashFsKernelImage g info f imagePtr).1 = some 0) :
    ∃ p, plan g info f.mem imagePtr = some p ∧
      (kerSysBcmImageSet g info f p.dest p.image p.size).1 = some 0 ∧
      (flashFsKernelImage g info f imagePtr).2 =
        match bootLatest (szBootline (readNvramData g info f.mem).2) with
        | none => (kerSysBcmImageSet g info f p.dest p.image p.size).2
        | some line => writeNvramData g info (kerSysBcmImageSet g info f p.dest p.image p.size).2
            ((readNvramData g info f.mem).2.take 4 ++ line) := by
  rw [flashFsKernelImage] at h ⊢
  rcases hp : plan g info f.mem imagePtr with _ | p
  · simp [hp] at h
  · simp only [hp] at h ⊢
    by_cases hret : (kerSysBcmImageSet g info f p.dest p.image p.size).1 = some 0
    · refine ⟨p, rfl, hret, ?_⟩
      rw [if_neg (not_not.mpr hret)]
      split <;> rfl
    · rw [if_pos hret] at h
      exact absurd h hret

theorem plan_image_kept (hi : Initialised g info) {m imagePtr : Mem Byte} {p : Plan}
    (h : plan g info m imagePtr = some p) (hboot : bootImage g info m ≠ 1)
    (hoff : info.rootfsStartOffset ≤ rootfsOffset (tagOf imagePtr)) :
    p.image = signTag (patch imagePtr 138 (sprintfD (updateImageSequenceNumber g info m))) := by
  obtain ⟨hs0, hs1⟩ := rootfsStart_range hi
  have hstart := uint32_of_range (z := info.rootfsStartOffset) (by omega) (by omega)
  have hnot : ¬ ToSecond g info m (tagOf imagePtr) := by
    rw [toSecond_iff]
    exact fun h => hboot h.2
  rw [(plan_spec hi h).2.2.2, placedImage, if_neg hnot, movedImage, if_neg (by omega)]

theorem destOffset_range (hi : Initialised g info) (m : Mem Byte) (t : FileTag) :
    0 < destOffset g info m t ∧ destOffset g info m t < 4294967296 := by
  obtain ⟨hs0, hs1⟩ := rootfsStart_range hi
  have hro : rootfsOffset t < 4294967296 := uint32_lt _
  have htotal := g.total_lt
  have hone := blkStart_succ (g := g) (a := 0) le_rfl (by have := g.nsect_pos; omega)
  have hsum := blkStart_le_total (g := g) 1
  have hfirst := flashGetSectorSize_ge (g := g) (a := 0) le_rfl (by have := g.nsect_pos; omega)
  have hzero : blkStart g 0 = 0 := by simp [blkStart]
  rw [zero_add, hzero] at hone
  rw [destOffset, imageOffset]
  split
  · rw [flashGetTotalSize] at hsum ⊢
    omega
  · omega

theorem plan_not_whole (hi : Initialised g info) {m imagePtr : Mem Byte} {p : Plan}
    (h : plan g info m imagePtr = some p) : ¬ wholeImage g info p.dest p.size := by
  obtain ⟨-, hdest, -⟩ := plan_spec hi h
  obtain ⟨h0, h1⟩ := destOffset_range hi m (tagOf imagePtr)
  have hd := cast_uint32 (p.dest - g.flashBase)
  have ho := uint32_of_range h0.le h1
  rintro ⟨hbase, -⟩
  have hp := cast_uint32 p.dest
  have hb := cast_uint32 g.flashBase
  omega

theorem plan_blk (hi : Initialised g info) {m imagePtr : Mem Byte} {p : Plan}
    (h : plan g info m imagePtr = some p) :
    flashGetBlk g p.dest = flashGetBlk g (g.flashBase + destOffset g info m (tagOf imagePtr)) := by
  obtain ⟨-, hdest, -⟩ := plan_spec hi h
  apply flashGetBlk_congr
  rw [hdest, add_sub_cancel_left]

theorem plan_partition (hi : Initialised g info) {m imagePtr : Mem Byte} {p : Plan}
    (h : plan g info m imagePtr = some p) (hoff : rootfsOffset (tagOf imagePtr) ≤ info.rootfsStartOffset) :
    flashGetBlk g p.dest =
      partitionBlk g info (if TwoImages g info m (tagOf imagePtr) ∧ bootImage g info m = 1 then 2 else 1) := by
  rw [plan_blk hi h, destOffset, imageOffset, max_eq_right hoff]
  split <;> rw [partitionBlk, memptr_zero]

theorem plan_valid (hi : Initialised g info) {m imagePtr : Mem Byte} {p : Plan}
    (h : plan g info m imagePtr = some p) : tagCrc (tagOf p.image) = tagValidationToken (tagOf p.image) := by
  obtain ⟨-, -, -, himage⟩ := plan_spec hi h
  rw [himage]
  exact signTag_valid _

/-- Sequence numbers that can still be counted up. -/
def SequencesBelow (g : Geometry) (info : FlashAddrInfo) (m : Mem Byte) : Prop :=
  ∀ k t, getTagFromPartition g info m k = some t → imageSequence t < 2147483647

theorem sequence_eq {t : FileTag} (h : imageSequence t < 2147483648) : sequence t = imageSequence t :=
  int32_of_range (by omega) (by omega)

theorem updateImageSequenceNumber_gt {m : Mem Byte} (hseq : SequencesBelow g info m) :
    0 ≤ updateImageSequenceNumber g info m ∧ updateImageSequenceNumber g info m < 2147483648 ∧
    ∀ k t, getTagFromPartition g info m k = some t → k = 1 ∨ k = 2 →
      sequence t < updateImageSequenceNumber g info m := by
  have hbound (k : Nat) (t : FileTag) (ht : getTagFromPartition g info m k = some t) :
      sequence t = imageSequence t ∧ imageSequence t < 2147483647 := by
    have := hseq k t ht
    exact ⟨sequence_eq (by omega), this⟩
  -- the number before it is counted up
  obtain ⟨n, hnew, hn0, hn1, hmax⟩ : ∃ n : Int, updateImageSequenceNumber g info m = int32 (n + 1) ∧
      0 ≤ n ∧ n < 2147483647 ∧
      ∀ k t, getTagFromPartition g info m k = some t → k = 1 ∨ k = 2 → sequence t ≤ n := by
    refine ⟨_, rfl, ?_⟩
    rcases h1 : getTagFromPartition g info m 1 with _ | t1 <;>
      rcases h2 : getTagFromPartition g info m 2 with _ | t2 <;> dsimp only
    · refine ⟨le_rfl, by decide, ?_⟩
      rintro k t ht (rfl | rfl)
      · simp [h1] at ht
      · simp [h2] at ht
    · obtain ⟨e2, b2⟩ := hbound 2 t2 h2
      have hz : uint32 0 = 0 := rfl
      rw [hz]
      refine ⟨by split <;> omega, by split <;> omega, ?_⟩
      rintro k t ht (rfl | rfl)
      · simp [h1] at ht
      · obtain rfl := Option.some.inj (h2.symm.trans ht)
        split <;> omega
    · obtain ⟨e1, b1⟩ := hbound 1 t1 h1
      refine ⟨by omega, by omega, ?_⟩
      rintro k t ht (rfl | rfl)
      · obtain rfl := Option.some.inj (h1.symm.trans ht)
        exact le_rfl
      · simp [h2] at ht
    · obtain ⟨e1, b1⟩ := hbound 1 t1 h1
      obtain ⟨e2, b2⟩ := hbound 2 t2 h2
      have hu := uint32_of_range (z := sequence t1) (by omega) (by omega)
      refine ⟨by split <;> omega, by split <;> omega, ?_⟩
      rintro k t ht (rfl | rfl)
      · obtain rfl := Option.some.inj (h1.symm.trans ht)
        split <;> omega
      · obtain rfl := Option.some.inj (h2.symm.trans ht)
        split <;> omega
  rw [int32_of_range (by omega) (by omega)] at hnew
  rw [hnew]
  refine ⟨by omega, by omega, fun k t ht hk => ?_⟩
  have := hmax k t ht hk
  omega

theorem plan_sequence (hi : Initialised g info) {m imagePtr : Mem Byte} {p : Plan}
    (h : plan g info m imagePtr = some p) (hseq : SequencesBelow g info m) :
    sequence (tagOf p.image) = updateImageSequenceNumber g info m := by
  obtain ⟨-, -, -, himage⟩ := plan_spec hi h
  obtain ⟨h0, h1, -⟩ := updateImageSequenceNumber_gt hseq
  have hlen := length_sprintfD_le (updateImageSequenceNumber g info m)
  have htext : readBytes p.image (138 : Nat) (sprintfD (updateImageSequenceNumber g info m)).length =
      sprintfD (updateImageSequenceNumber g info m) := by
    rw [himage, signTag, readBytes_patch_disjoint _ _ _ _ _ (.inl (by simp only [Nat.cast_ofNat]; omega))]
    exact readBytes_patch _ _ _
  obtain ⟨rest, hrest⟩ := field_text htext (by omega)
  have hnum := simpleStrtoul_sprintfD h0 h1 rest
  rw [ImageTag.sequence, imageSequence, hrest, hnum]
  exact int32_of_range (by omega) (by omega)

end AliceModem.Upgrade
