import AliceModem.Board.Upgrade
import AliceModem.Flash.Layout
import AliceModem.Flash.ImageTrace

namespace AliceModem.CompletedUpgrade

open Words Hwdefs Sectors ByteMemory Device SharedBlks Regions Nvram ImageTag ImageSet ImageTrace Upgrade Layout Vsprintf

variable {g : Geometry} {info : FlashAddrInfo}

/-- Where the first image can be found and how large it may get. -/
structure Partitioned (g : Geometry) (info : FlashAddrInfo) : Prop where
  room : info.rootfsStartOffset + tagLen + flashReservedAtEnd ≤ flashGetTotalSize g
  distinct : partitionBlk g info 2 ≠ partitionBlk g info 1
  second : partitionBlk g info 2 ≠ 0

theorem partitionBlk_lt (k : Nat) : partitionBlk g info k < g.sec.length := by
  have hpos := g.nsect_pos
  rw [partitionBlk.eq_def]
  split
  · exact flashGetBlk_lt _
  · exact flashGetBlk_lt _
  · omega

theorem nvram_before : (nvramDataOffset : Int) + nvramLength ≤ blkStart g 1 := by
  have hfit := g.nvram_fits
  have hpos := g.nsect_pos
  rw [blkStart_one, flashGetSectorSize]
  have h0 : uint16 0 = 0 := rfl
  rw [h0]
  cases hsec : g.sec with
  | nil => simp [hsec] at hpos
  | cons s rest =>
      rw [hsec] at hfit
      simp only [List.headD_cons, List.getD_cons_zero] at hfit ⊢
      omega

theorem Partitioned.blk_pos (hp : Partitioned g info) (hi : Initialised g info) {k : Nat} (hk : k = 1 ∨ k = 2) :
    0 < partitionBlk g info k := by
  obtain ⟨hs0, hs1⟩ := rootfsStart_range hi
  have hroom := hp.room
  simp only [tagLen, flashReservedAtEnd] at hroom
  rcases hk with rfl | rfl
  · obtain ⟨h0, h1, h2⟩ := flashGetBlk_offset (g := g) info.rootfsStartOffset (by omega) (by omega)
    rw [partitionBlk, memptr_zero]
    by_contra hle
    have hzero : flashGetBlk g (g.flashBase + info.rootfsStartOffset) = 0 := by omega
    rw [hzero, zero_add, blkStart_one] at h2
    rw [hi.rootfsStartOffset] at h2
    simp only [kerSysEarlyFlashInit] at h2
    split at h2 <;> omega
  · obtain ⟨h0, -, -⟩ := flashGetBlk_offset (g := g) (flashGetTotalSize g / 2) (by omega) (by omega)
    have hne := hp.second
    rw [partitionBlk, memptr_zero] at hne ⊢
    omega

/-- What an upgrade that returned 0 has done to the device. -/
structure Completed (g : Geometry) (info : FlashAddrInfo) (m : Mem Byte) (p : Plan) (m' : Mem Byte) : Prop where
  fits : blkStart g (flashGetBlk g p.dest) + p.size ≤ flashGetTotalSize g
  copied : ∀ i, blkStart g (flashGetBlk g p.dest) ≤ i → i < blkStart g (flashGetBlk g p.dest) + p.size →
    m' i = p.image (i - blkStart g (flashGetBlk g p.dest))
  kept : ∀ i, blkStart g 1 ≤ i →
    (i < blkStart g (flashGetBlk g p.dest) ∨ ∃ c, flashGetBlk g p.dest < c ∧ c ≤ g.sec.length ∧
      blkStart g (flashGetBlk g p.dest) + p.size ≤ blkStart g c ∧ blkStart g c ≤ i) → m' i = m i
  latest : bootPartition (szBootline (readNvramData g info m').2) = bootLatestImage

theorem rawNvram_congr {m m' : Mem Byte} (h : ∀ i, i < blkStart g 1 → m' i = m i) : rawNvram m' = rawNvram m := by
  have hbefore := nvram_before (g := g)
  simp only [nvramDataOffset, nvramLength] at hbefore
  exact readBytes_congr fun i hi => h _ (by simp only [nvramDataOffset, nvramDataSize] at hi ⊢; omega)

theorem readNvramData_congr (hi : Initialised g info) {m m' : Mem Byte} (h : ∀ i, i < blkStart g 1 → m' i = m i) :
    readNvramData g info m' = readNvramData g info m := by
  rw [readNvramData_eq hi, readNvramData_eq hi, rawNvram_congr h]

theorem upgrade_completed (hi : Initialised g info)
    (hpsi : 0 < info.persistent.startBlk → 0 ≤ info.persistent.length) {m imagePtr : Mem Byte} {p : Plan}
    (hplan : plan g info m imagePtr = some p) (hblk : 0 < flashGetBlk g p.dest) (hsize : 0 < p.size)
    (hrun : (flashFsKernelImage g info (fresh m) imagePtr).1 = some 0) :
    Completed g info m p (flashFsKernelImage g info (fresh m) imagePtr).2.mem := by
  obtain ⟨p', hplan', hret, hflash⟩ := flashFsKernelImage_done hrun
  obtain rfl : p = p' := Option.some.inj (hplan.symm.trans hplan')
  have hnot := plan_not_whole hi hplan
  have hfault : (kerSysBcmImageSet g info (fresh m) p.dest p.image p.size).2.faults = [] :=
    kerSysBcmImageSet_faults (fresh m) rfl _ _ _
  obtain ⟨hfit, hcopy⟩ := kerSysBcmImageSet_done (fresh m) p.image hsize hblk hpsi hret
  set r := (kerSysBcmImageSet g info (fresh m) p.dest p.image p.size).2 with hr
  have hframe {i : Int} (h : i < blkStart g (flashGetBlk g p.dest) ∨ ∃ c, flashGetBlk g p.dest < c ∧
      c ≤ g.sec.length ∧ blkStart g (flashGetBlk g p.dest) + p.size ≤ blkStart g c ∧ blkStart g c ≤ i) :
      r.mem i = m i := kerSysBcmImageSet_frame (fresh m) hnot hblk.le hfit p.image h
  have hfirst := blkStart_mono (g := g) (show 1 ≤ flashGetBlk g p.dest by omega)
  have hnvram : readNvramData g info r.mem = readNvramData g info m :=
    readNvramData_congr hi fun i h => hframe (.inl (by omega))
  have hline := bootPartition_bootLatest (szBootline (readNvramData g info m).2)
  rw [hflash]
  rcases hb : bootLatest (szBootline (readNvramData g info m).2) with _ | line
  · have hb' : bootLatest (szBootline (readNvramData g info (fresh m).mem).2) = none := hb
    simp only [hb']
    refine ⟨hfit, hcopy, fun i _ h => hframe h, ?_⟩
    rwa [hnvram, ← Option.getD_none (a := szBootline (readNvramData g info m).2), ← hb]
  · have hb' : bootLatest (szBootline (readNvramData g info (fresh m).mem).2) = some line := hb
    simp only [hb']
    obtain ⟨hlen, hsum⟩ := readNvramData_data hi m
    obtain ⟨hl, hzero, hsz⟩ := bootLatest_nvram hlen hsum hb
    obtain ⟨-, hmem⟩ := writeNvramData_ok hi r hfault hl
    have hbefore := nvram_before (g := g)
    have hnvlen := length_setCheckSum hl (nvramCrc ((readNvramData g info m).2.take 4 ++ line))
    have hkeep {i : Int} (h : blkStart g 1 ≤ i) :
        (writeNvramData g info r ((readNvramData g info m).2.take 4 ++ line)).mem i = r.mem i := by
      rw [hmem, patch_outside _ _ _ _ (.inr ?_)]
      rw [hnvlen]
      simp only [nvramDataOffset, nvramLength, nvramDataSize] at hbefore ⊢
      omega
    refine ⟨hfit, fun i h1 h2 => ?_, fun i h1 h => ?_, ?_⟩
    · exact (hkeep (by omega)).trans (hcopy i h1 h2)
    · exact (hkeep h1).trans (hframe h)
    · change bootPartition (szBootline (readNvramData g info
        (writeNvramData g info r ((readNvramData g info m).2.take 4 ++ line)).mem).2) = _
      rw [hmem, readNvramData_patch hi r.mem hl, hzero, hsz]
      rwa [hb, Option.getD_some] at hline

theorem flashFsKernelImage_below {m imagePtr : Mem Byte} {p : Plan} (hplan : plan g info m imagePtr = some p)
    {blk size : Int} (hblk : flashGetBlk g p.dest = blk) (hsize : p.size = size) (hroom : 0 ≤ blk ∧ 0 < size ∧
      blkStart g blk + size ≤ flashGetTotalSize g ∧ blkStart g blk + size ≤ blkStart g info.persistent.startBlk) :
    (flashFsKernelImage g info (fresh m) imagePtr).1 = some 0 := by
  subst hblk hsize
  obtain ⟨hblk, hsize, hfit, hpsi⟩ := hroom
  have hret := kerSysBcmImageSet_succeeds (fresh m) rfl p.image hsize hblk hfit (.inr (.inl hpsi))
  have hplan' : plan g info (fresh m).mem imagePtr = some p := hplan
  rw [flashFsKernelImage]
  simp only [hplan', hret, ne_eq, not_true_eq_false, if_false]
  split <;> rfl

theorem Partitioned.blk_lt (hp : Partitioned g info) (hi : Initialised g info) :
    partitionBlk g info 1 < partitionBlk g info 2 := by
  obtain ⟨hs0, hs1⟩ := rootfsStart_range hi
  have hroom := hp.room
  have hne := hp.distinct
  have hpos := hp.blk_pos hi (.inr rfl)
  simp only [tagLen, flashReservedAtEnd] at hroom
  obtain ⟨-, h1, -⟩ := flashGetBlk_offset (g := g) info.rootfsStartOffset (by omega) (by omega)
  obtain ⟨-, h2, h3⟩ := flashGetBlk_offset (g := g) (flashGetTotalSize g / 2) (by omega) (by omega)
  rw [partitionBlk, partitionBlk, memptr_zero] at hne ⊢
  rw [partitionBlk, memptr_zero] at hpos
  have hstart : info.rootfsStartOffset ≤ flashGetTotalSize g / 2 := by
    have hmono := blkStart_mono (g := g) (show 1 ≤ flashGetBlk g (g.flashBase + flashGetTotalSize g / 2) by omega)
    rw [blkStart_one] at hmono
    rw [hi.rootfsStartOffset] at hroom ⊢
    simp only [kerSysEarlyFlashInit, flashLengthBootRom] at hroom ⊢
    split at hroom <;> omega
  by_contra hge
  have hmono := blkStart_mono (g := g) (show flashGetBlk g (g.flashBase + flashGetTotalSize g / 2) + 1 ≤
    flashGetBlk g (g.flashBase + info.rootfsStartOffset) by omega)
  omega

theorem Partitioned.size (hp : Partitioned g info) (hi : Initialised g info) {m imagePtr : Mem Byte} {p : Plan}
    (hplan : plan g info m imagePtr = some p) (hoff : rootfsOffset (tagOf imagePtr) ≤ info.rootfsStartOffset) :
    256 ≤ p.size := by
  obtain ⟨hs0, hs1⟩ := rootfsStart_range hi
  obtain ⟨hle, -, hsize, -⟩ := plan_spec hi hplan
  have hroom := hp.room
  have htotal := g.total_lt
  simp only [tagLen, flashReservedAtEnd, flashGetTotalSize] at hroom
  have havail := availableSizeOneImg_eq hi (tagOf imagePtr)
  simp only [imageOffset, max_eq_right hoff, flashGetTotalSize, tagLen, flashReservedAtEnd] at havail
  have hcast := uint32_of_range (z := (g.sec.sum : Int) - info.rootfsStartOffset - 256 - 131072) (by omega) (by omega)
  simp only [hsize, tagLen]
  rw [int32_of_range (by omega) (by omega)]
  omega

/-- An upgrade that returned 0 is the one that boots next: its tag is found in
the partition it was meant for and has the greatest sequence number, whatever
the boot line asked for before. -/
theorem completed_upgrade_boots {ulPsiSize : Nat} {pTag : Option FileTag}
    (hinfo : info = kerSysFlashInit g ulPsiSize pTag) (hp : Partitioned g info) {m imagePtr : Mem Byte}
    (hseq : SequencesBelow g info m) (hoff : rootfsOffset (tagOf imagePtr) ≤ info.rootfsStartOffset)
    (hleave : ∀ p, plan g info m imagePtr = some p → flashGetBlk g p.dest = partitionBlk g info 1 →
      blkStart g (partitionBlk g info 2) < blkStart g (partitionBlk g info 1) + p.size →
      getTagFromPartition g info (flashFsKernelImage g info (fresh m) imagePtr).2.mem 2 = none)
    (hrun : (flashFsKernelImage g info (fresh m) imagePtr).1 = some 0) :
    ∃ p k, plan g info m imagePtr = some p ∧ (k = 1 ∨ k = 2) ∧ flashGetBlk g p.dest = partitionBlk g info k ∧
      getBootImageTag g info (flashFsKernelImage g info (fresh m) imagePtr).2.mem = some (tagOf p.image) ∧
      getPartitionFromTag g info (flashFsKernelImage g info (fresh m) imagePtr).2.mem (some (tagOf p.image)) = k ∧
      ∀ j t, j = 1 ∨ j = 2 → j ≠ k →
        getTagFromPartition g info (flashFsKernelImage g info (fresh m) imagePtr).2.mem j = some t →
        sequence t < sequence (tagOf p.image) := by
  have hi : Initialised g info := hinfo ▸ kerSysFlashInit_initialised g ulPsiSize pTag
  have hpsi : 0 < info.persistent.startBlk → 0 ≤ info.persistent.length := hinfo ▸ persistent_nonneg pTag
  obtain ⟨p, hplan, -⟩ := flashFsKernelImage_done hrun
  have hplan : plan g info m imagePtr = some p := hplan
  have hsize := hp.size hi hplan hoff
  have hlt := hp.blk_lt hi
  obtain ⟨k, j, hkj, hblk⟩ : ∃ k j, (k = 1 ∧ j = 2 ∨ k = 2 ∧ j = 1) ∧
      flashGetBlk g p.dest = partitionBlk g info k := by
    rw [plan_partition hi hplan hoff]
    split
    · exact ⟨2, 1, .inr ⟨rfl, rfl⟩, rfl⟩
    · exact ⟨1, 2, .inl ⟨rfl, rfl⟩, rfl⟩
  have hk : k = 1 ∨ k = 2 := by omega
  have hpos := hp.blk_pos hi hk
  have hdone := upgrade_completed hi hpsi hplan (by omega) (by omega) hrun
  obtain ⟨hfit, hcopied, hkept, hlatest⟩ := hdone
  set m' := (flashFsKernelImage g info (fresh m) imagePtr).2.mem with hm'
  rw [hblk] at hfit hcopied hkept
  have hnew : getTagFromPartition g info m' k = some (tagOf p.image) := by
    apply getTagFromPartition_copied hpos (partitionBlk_lt k) (plan_valid hi hplan)
    intro i hi'
    rw [hcopied _ (by omega) (by omega), add_sub_cancel_left]
  obtain ⟨-, -, hmax⟩ := updateImageSequenceNumber_gt hseq
  -- the other tag is the old one, or the image has run over it
  have hother (u : FileTag) (hu : getTagFromPartition g info m' j = some u) :
      sequence u < sequence (tagOf p.image) := by
    rw [plan_sequence hi hplan hseq]
    have hj := hp.blk_pos hi (show j = 1 ∨ j = 2 by omega)
    have hfirst := blkStart_mono (g := g) (show 1 ≤ partitionBlk g info j by omega)
    have hsame : getTagFromPartition g info m' j = getTagFromPartition g info m j := by
      apply getTagFromPartition_kept hj.le (partitionBlk_lt j)
      intro i h1 h2
      apply hkept i (by omega)
      rcases hkj with ⟨rfl, rfl⟩ | ⟨rfl, rfl⟩
      · by_cases hreach : blkStart g (partitionBlk g info 2) < blkStart g (partitionBlk g info 1) + p.size
        · rw [hleave p hplan hblk hreach] at hu
          cases hu
        · exact .inr ⟨_, hlt, (partitionBlk_lt 2).le, by omega, h1⟩
      · have hsect := flashGetSectorSize_ge (g := g) hj.le (partitionBlk_lt 1)
        have hnext := blkStart_succ (g := g) hj.le (partitionBlk_lt 1)
        have hmono := blkStart_mono (g := g) (show partitionBlk g info 1 + 1 ≤ partitionBlk g info 2 by omega)
        exact .inl (by omega)
    exact hmax j u (hsame ▸ hu) (by omega)
  have hboot := bootImage_newest hkj hnew hother hlatest
  have htag : getBootImageTag g info m' = some (tagOf p.image) := by rw [getBootImageTag, hboot, hnew]
  refine ⟨p, k, hplan, hk, hblk, htag, ?_, ?_⟩
  · rw [← htag, getPartitionFromTag_boot, hboot]
  · intro i t hi1 hi2 ht
    obtain rfl : i = j := by omega
    exact hother t ht

theorem constant_tag_invalid {m : Mem Byte} {k : Nat} {v : Byte} (hl : 0 ≤ partitionBlk g info k)
    (hcrc : tagCrc (List.replicate 256 v) ≠ tagValidationToken (List.replicate 256 v))
    (h : ∀ i : Nat, i < 256 → m (blkStart g (partitionBlk g info k) + i) = v) :
    getTagFromPartition g info m k = none := by
  have hread : flashReadBuf g m (partitionBlk g info k) 0 256 = List.replicate 256 v := by
    rw [flashReadBuf_blk _ hl (partitionBlk_lt k)]
    exact readBytes_replicate h
  rw [getTagFromPartition, hread]
  simp only [hcrc, ne_eq, not_false_eq_true, if_true, ite_self]

theorem erased_tag_invalid {m : Mem Byte} {k : Nat} (hl : 0 ≤ partitionBlk g info k)
    (h : ∀ i : Nat, i < 256 → m (blkStart g (partitionBlk g info k) + i) = 0xff) :
    getTagFromPartition g info m k = none :=
  constant_tag_invalid hl (by decide +kernel) h

def demoImage : Mem Byte := patch (fun _ => 0) 94 (sprintfLu 3217096960)

theorem imgSize_demoImage : imgSize (tagOf demoImage) = 0 := by decide

def erasedInfo (g : Geometry) : FlashAddrInfo := kerSysFlashInit g 24 none

theorem sequencesBelow_of {m : Mem Byte}
    (h : ∀ k t, k = 1 ∨ k = 2 → getTagFromPartition g info m k = some t → imageSequence t = 0) :
    SequencesBelow g info m := by
  intro k t ht
  by_cases hk : k = 1 ∨ k = 2
  · rw [h k t hk ht]
    decide
  · rw [getTagFromPartition_other (fun h1 => hk (.inl h1)) fun h2 => hk (.inr h2)] at ht
    cases ht

theorem demoFlash_blks : partitionBlk demoFlash (erasedInfo demoFlash) 1 = 1 ∧
    partitionBlk demoFlash (erasedInfo demoFlash) 2 = 32 ∧ Partitioned demoFlash (erasedInfo demoFlash) :=
  ⟨by decide, by decide, by decide, by decide, by decide⟩

def zeroTag : FileTag := List.replicate 236 0 ++ [255, 152, 146, 99] ++ List.replicate 16 0

theorem zeroTag_numbers : tagCrc zeroTag = tagValidationToken zeroTag ∧ zeroTag.length = 256 ∧
    imgSize zeroTag = 0 ∧ imageSequence zeroTag = 0 :=
  ⟨by decide +kernel, by decide +kernel, by decide, by decide⟩

theorem zeroTag_found (m : Mem Byte) {k : Nat} {a : Int} (hpos : 0 < partitionBlk g info k)
    (hstart : blkStart g (partitionBlk g info k) = a) :
    getTagFromPartition g info (patch m a zeroTag) k = some zeroTag := by
  obtain ⟨hvalid, hlen, -⟩ := zeroTag_numbers
  have hread := readBytes_patch m a zeroTag
  rw [hlen] at hread
  rw [getTagFromPartition_eq_some, flashReadBuf_blk _ hpos.le (partitionBlk_lt k), hstart]
  exact ⟨hpos.ne', hread.symm, hvalid⟩

theorem curImgSize_zeroTag {m : Mem Byte} (hboot : bootImage g info m = 1)
    (htag : getTagFromPartition g info m 1 = some zeroTag) : curImgSize g info m = 0 := by
  rw [curImgSize, getBootImageTag, hboot, htag]
  exact zeroTag_numbers.2.2.1

theorem bootImage_only {m : Mem Byte} {q r : Nat} (hqr : q = 1 ∧ r = 2 ∨ q = 2 ∧ r = 1) {t : FileTag}
    (ht : getTagFromPartition g info m q = some t) (hr : getTagFromPartition g info m r = none) :
    bootImage g info m = q := by
  rcases hqr with ⟨rfl, rfl⟩ | ⟨rfl, rfl⟩ <;> simp only [bootImage, ht, hr]

def bootedDemo : Mem Byte := patch (fun _ => 0xff) 65536 zeroTag

def longImage : Mem Byte := patch demoImage 106 (sprintfLu 65536)

theorem demoFlash_start : blkStart demoFlash 1 = 65536 ∧ blkStart demoFlash 32 = 2097152 := by
  rw [blkStart_uniform demoFlash_uniform (by decide) (by decide),
    blkStart_uniform demoFlash_uniform (by decide) (by decide)]
  decide

theorem bootedDemo_tag :
    getTagFromPartition demoFlash (erasedInfo demoFlash) bootedDemo 1 = some zeroTag ∧
    getTagFromPartition demoFlash (erasedInfo demoFlash) bootedDemo 2 = none := by
  obtain ⟨hfirst, hsecond, -⟩ := demoFlash_blks
  refine ⟨zeroTag_found _ (by rw [hfirst]; decide) (by rw [hfirst, demoFlash_start.1]), ?_⟩
  apply erased_tag_invalid (by rw [hsecond]; decide)
  intro i h
  rw [hsecond, demoFlash_start.2]
  exact patch_outside _ _ _ _ (.inr (by rw [zeroTag_numbers.2.1]; omega))

theorem bootedDemo_sequences : SequencesBelow demoFlash (erasedInfo demoFlash) bootedDemo := by
  refine sequencesBelow_of fun k t hk h => ?_
  rcases hk with rfl | rfl
  · rw [← Option.some.inj (bootedDemo_tag.1.symm.trans h)]
    exact zeroTag_numbers.2.2.2
  · rw [bootedDemo_tag.2] at h
    cases h

theorem bootedDemo_boot : bootImage demoFlash (erasedInfo demoFlash) bootedDemo = 1 :=
  bootImage_only (.inl ⟨rfl, rfl⟩) bootedDemo_tag.1 bootedDemo_tag.2

theorem bootedDemo_two {t : FileTag} (h : imgSize t ≤ availableSizeTwoImgs demoFlash (erasedInfo demoFlash)) :
    TwoImages demoFlash (erasedInfo demoFlash) bootedDemo t := by
  rw [TwoImages, curImgSize_zeroTag bootedDemo_boot bootedDemo_tag.1]
  exact ⟨Nat.zero_le _, h⟩

theorem bootedDemo_plan {imagePtr : Mem Byte} {len : Nat} (himg : imgSize (tagOf imagePtr) = len)
    (hone : len ≤ availableSizeOneImg demoFlash (erasedInfo demoFlash) (tagOf imagePtr))
    (htwo : len ≤ availableSizeTwoImgs demoFlash (erasedInfo demoFlash)) (hlen : len < 2147483392)
    (hoff : rootfsOffset (tagOf imagePtr) ≤ (erasedInfo demoFlash).rootfsStartOffset) :
    ∃ p, plan demoFlash (erasedInfo demoFlash) bootedDemo imagePtr = some p ∧
      flashGetBlk demoFlash p.dest = partitionBlk demoFlash (erasedInfo demoFlash) 2 ∧ p.size = 256 + len := by
  have hi : Initialised demoFlash (erasedInfo demoFlash) := kerSysFlashInit_initialised _ _ _
  obtain ⟨p, hp⟩ := plan_of_le (m := bootedDemo) (himg.trans_le hone)
  refine ⟨p, hp, ?_, ?_⟩
  · rw [plan_partition hi hp hoff, if_pos ⟨bootedDemo_two (himg.trans_le htwo), bootedDemo_boot⟩]
  · rw [(plan_spec hi hp).2.2.1, himg]
    exact int32_of_range (by simp only [tagLen]; omega) (by simp only [tagLen]; omega)

theorem longImage_booted :
    getBootImageTag demoFlash (erasedInfo demoFlash) bootedDemo = some zeroTag ∧
    ∃ p k, plan demoFlash (erasedInfo demoFlash) bootedDemo longImage = some p ∧ (k = 1 ∨ k = 2) ∧
      flashGetBlk demoFlash p.dest = partitionBlk demoFlash (erasedInfo demoFlash) k ∧
      getBootImageTag demoFlash (erasedInfo demoFlash)
        (flashFsKernelImage demoFlash (erasedInfo demoFlash) (fresh bootedDemo) longImage).2.mem =
          some (tagOf p.image) ∧
      getPartitionFromTag demoFlash (erasedInfo demoFlash)
        (flashFsKernelImage demoFlash (erasedInfo demoFlash) (fresh bootedDemo) longImage).2.mem
          (some (tagOf p.image)) = k ∧
      ∀ j t, j = 1 ∨ j = 2 → j ≠ k →
        getTagFromPartition demoFlash (erasedInfo demoFlash)
          (flashFsKernelImage demoFlash (erasedInfo demoFlash) (fresh bootedDemo) longImage).2.mem j = some t →
        sequence t < sequence (tagOf p.image) := by
  obtain ⟨hfirst, hsecond, hpart⟩ := demoFlash_blks
  have hoff : rootfsOffset (tagOf longImage) ≤ (erasedInfo demoFlash).rootfsStartOffset := by decide
  obtain ⟨p, hp, hblk, hsize⟩ := bootedDemo_plan (show imgSize (tagOf longImage) = 65536 by decide) (by decide)
    (by decide) (by decide) hoff
  rw [hsecond] at hblk
  refine ⟨by rw [getBootImageTag, bootedDemo_boot, bootedDemo_tag.1], completed_upgrade_boots
    (show erasedInfo demoFlash = kerSysFlashInit demoFlash 24 none from rfl) hpart bootedDemo_sequences hoff ?_ ?_⟩
  · intro p' hp' hdest _
    obtain rfl := Option.some.inj (hp.symm.trans hp')
    rw [hblk, hfirst] at hdest
    exact absurd hdest (by decide)
  · exact flashFsKernelImage_below hp hblk hsize (by decide)

def sectors128 (n : Nat) (hn : 0 < n ∧ n ≤ 16) : Geometry :=
  Geometry.uniform .cfi n 131072 ⟨hn.1, hn.2.trans (by decide)⟩ (by decide) (by omega)

def threeSectors : Geometry := sectors128 3 (by decide)

def bootedFlash : Mem Byte := patch (patch (fun _ => 0) 1412 [97, 98]) 131072 zeroTag

theorem threeSectors_partition {k : Nat} (hk : k = 1 ∨ k = 2) :
    partitionBlk threeSectors (erasedInfo threeSectors) k = 1 := by
  rcases hk with rfl | rfl
  · decide
  · decide +kernel

theorem threeSectors_start : blkStart threeSectors 1 = 131072 := by decide +kernel

theorem bootedFlash_tag {k : Nat} (hk : k = 1 ∨ k = 2) :
    getTagFromPartition threeSectors (erasedInfo threeSectors) bootedFlash k = some zeroTag :=
  zeroTag_found _ (by rw [threeSectors_partition hk]; decide) (by rw [threeSectors_partition hk, threeSectors_start])

theorem bootedFlash_boot : bootImage threeSectors (erasedInfo threeSectors) bootedFlash = 1 :=
  bootImage_same (bootedFlash_tag (.inl rfl)) (bootedFlash_tag (.inr rfl))

theorem bootedFlash_toSecond : ToSecond threeSectors (erasedInfo threeSectors) bootedFlash (tagOf demoImage) := by
  rw [toSecond_iff, TwoImages, curImgSize_zeroTag bootedFlash_boot (bootedFlash_tag (.inl rfl)), imgSize_demoImage]
  exact ⟨⟨Nat.zero_le _, Nat.zero_le _⟩, bootedFlash_boot⟩

theorem bootedFlash_sequences : SequencesBelow threeSectors (erasedInfo threeSectors) bootedFlash := by
  refine sequencesBelow_of fun k t hk ht => ?_
  rw [← Option.some.inj ((bootedFlash_tag hk).symm.trans ht)]
  exact zeroTag_numbers.2.2.2

theorem bootedFlash_line :
    (szBootline (readNvramData threeSectors (erasedInfo threeSectors) bootedFlash).2).take 3 = [97, 98, 0] := by
  have hi : Initialised threeSectors (erasedInfo threeSectors) := kerSysFlashInit_initialised _ _ _
  rw [readNvramData_eq hi]
  dsimp only
  decide

theorem threeSectors_boot {m image : Mem Byte} (hvalid : tagCrc (tagOf image) = tagValidationToken (tagOf image))
    (hcopied : ∀ i : Nat, i < 256 → m (131072 + i) = image i) :
    bootImage threeSectors (erasedInfo threeSectors) m = 1 := by
  have hnew {k : Nat} (hk : k = 1 ∨ k = 2) :
      getTagFromPartition threeSectors (erasedInfo threeSectors) m k = some (tagOf image) := by
    apply getTagFromPartition_copied _ (partitionBlk_lt k) hvalid
    · rwa [threeSectors_partition hk, threeSectors_start]
    · rw [threeSectors_partition hk]
      decide
  exact bootImage_same (hnew (.inl rfl)) (hnew (.inr rfl))

/-- The new image is meant for the second partition and is found in the first. -/
theorem same_sector_upgrade :
    (szBootline (readNvramData threeSectors (erasedInfo threeSectors) bootedFlash).2).take 3 = [97, 98, 0] ∧
    SequencesBelow threeSectors (erasedInfo threeSectors) bootedFlash ∧
    rootfsOffset (tagOf demoImage) ≤ (erasedInfo threeSectors).rootfsStartOffset ∧
    ToSecond threeSectors (erasedInfo threeSectors) bootedFlash (tagOf demoImage) ∧
    (flashFsKernelImage threeSectors (erasedInfo threeSectors) (fresh bootedFlash) demoImage).1 = some 0 ∧
    getPartitionFromTag threeSectors (erasedInfo threeSectors)
      (flashFsKernelImage threeSectors (erasedInfo threeSectors) (fresh bootedFlash) demoImage).2.mem
      (getBootImageTag threeSectors (erasedInfo threeSectors)
        (flashFsKernelImage threeSectors (erasedInfo threeSectors) (fresh bootedFlash) demoImage).2.mem) = 1 := by
  have hi : Initialised threeSectors (erasedInfo threeSectors) := kerSysFlashInit_initialised _ _ _
  have hoff : rootfsOffset (tagOf demoImage) ≤ (erasedInfo threeSectors).rootfsStartOffset := by decide +kernel
  obtain ⟨p, hp⟩ := plan_of_le (g := threeSectors) (m := bootedFlash) (imgSize_demoImage.trans_le (Nat.zero_le _))
  have hblk : flashGetBlk threeSectors p.dest = 1 := by
    rw [plan_partition hi hp hoff]
    split
    · exact threeSectors_partition (.inr rfl)
    · exact threeSectors_partition (.inl rfl)
  have hsize : p.size = 256 := by
    rw [(plan_spec hi hp).2.2.1, imgSize_demoImage]
    rfl
  have hrun : (flashFsKernelImage threeSectors (erasedInfo threeSectors) (fresh bootedFlash) demoImage).1 = some 0 :=
    flashFsKernelImage_below hp hblk hsize (by decide)
  have hdone := upgrade_completed hi (persistent_nonneg none) hp (by rw [hblk]; decide) (by rw [hsize]; decide) hrun
  refine ⟨bootedFlash_line, bootedFlash_sequences, hoff, bootedFlash_toSecond, hrun, ?_⟩
  rw [getPartitionFromTag_boot, threeSectors_boot (plan_valid hi hp)]
  · rfl
  · intro i h
    have hcopied := hdone.copied (131072 + i)
    rw [hblk, threeSectors_start, add_sub_cancel_left] at hcopied
    exact hcopied (by omega) (by omega)

end AliceModem.CompletedUpgrade
