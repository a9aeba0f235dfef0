import AliceModem.Kernel.Vsprintf
import AliceModem.Board.Nvram

namespace AliceModem.ImageTag

open Words Hwdefs Sectors ByteMemory Device SharedBlks Regions BigEndian Crc Nvram Vsprintf

/-- `FILE_TAG` as its 256 bytes. A decimal field is read from its offset on and
may run into the fields behind it, as the text in the source may. -/
abbrev FileTag := List Byte

def rootfsAddress (t : FileTag) : Nat := simpleStrtoul (t.drop 94)
def rootfsLen (t : FileTag) : Nat := simpleStrtoul (t.drop 106)
def kernelAddress (t : FileTag) : Nat := simpleStrtoul (t.drop 116)
def kernelLen (t : FileTag) : Nat := simpleStrtoul (t.drop 128)
def imageSequence (t : FileTag) : Nat := simpleStrtoul (t.drop 138)
def tagValidationToken (t : FileTag) : Nat := be32 (t.drop 236)

def tagCrc (t : FileTag) : Nat := (getCrc32 (t.take 236) crc32InitValue).toNat

/-- A sequence number as the `int` it is compared as. -/
def sequence (t : FileTag) : Int := int32 (imageSequence t)

variable (g : Geometry) (info : FlashAddrInfo)

/-- The sector that holds the tag of an image. -/
def partitionBlk : Nat → Int
  | 1 => flashGetBlk g (flashGetMemptr g 0 + info.rootfsStartOffset)
  | 2 => flashGetBlk g (flashGetMemptr g 0 + flashGetTotalSize g / 2)
  | _ => 0

def getTagFromPartition (m : Mem Byte) (imageNumber : Nat) : Option FileTag :=
  let blk := partitionBlk g info imageNumber
  if blk ≠ 0 then
    let pTag := flashReadBuf g m blk 0 256
    if tagCrc pTag ≠ tagValidationToken pTag then none else some pTag
  else none

def getPartitionFromTag (m : Mem Byte) : Option FileTag → Int
  | none => 0
  | some pTag =>
      if (getTagFromPartition g info m 1).map sequence = some (sequence pTag) then 1
      else if (getTagFromPartition g info m 2).map sequence = some (sequence pTag) then 2
      else 0

def bootImage (m : Mem Byte) : Nat :=
  match getTagFromPartition g info m 1, getTagFromPartition g info m 2 with
  | some pTag1, some pTag2 =>
      if bootPartition (szBootline (readNvramData g info m).2) = bootLatestImage then
        if sequence pTag2 > sequence pTag1 then 2 else 1
      else
        if sequence pTag2 < sequence pTag1 then 2 else 1
  | none, some _ => 2
  | some _, none => 1
  | none, none => 0

def getBootImageTag (m : Mem Byte) : Option FileTag := getTagFromPartition g info m (bootImage g info m)

def updateImageSequenceNumber (m : Mem Byte) : Int :=
  let newImageSequence := match getTagFromPartition g info m 1 with
    | some pTag => sequence pTag
    | none => 0
  let newImageSequence := match getTagFromPartition g info m 2 with
    | some pTag => if imageSequence pTag > uint32 newImageSequence then sequence pTag else newImageSequence
    | none => newImageSequence
  int32 (newImageSequence + 1)

variable {g info}

theorem getTagFromPartition_zero (m : Mem Byte) : getTagFromPartition g info m 0 = none := by
  simp [getTagFromPartition, partitionBlk]

theorem getTagFromPartition_other {k : Nat} (h1 : k ≠ 1) (h2 : k ≠ 2) (m : Mem Byte) :
    getTagFromPartition g info m k = none := by
  have hblk : partitionBlk g info k = 0 := by
    rw [partitionBlk.eq_def]
    split <;> first | rfl | omega
  simp [getTagFromPartition, hblk]

theorem getTagFromPartition_none {m : Mem Byte} (h1 : getTagFromPartition g info m 1 = none)
    (h2 : getTagFromPartition g info m 2 = none) (k : Nat) : getTagFromPartition g info m k = none := by
  by_cases hk1 : k = 1
  · rw [hk1, h1]
  by_cases hk2 : k = 2
  · rw [hk2, h2]
  · exact getTagFromPartition_other hk1 hk2 m

theorem getTagFromPartition_eq_some {m : Mem Byte} {k : Nat} {t : FileTag} :
    getTagFromPartition g info m k = some t ↔
      partitionBlk g info k ≠ 0 ∧ t = flashReadBuf g m (partitionBlk g info k) 0 256 ∧
        tagCrc t = tagValidationToken t := by
  rw [getTagFromPartition]
  constructor
  · intro h
    split at h
    next hb =>
      dsimp only at h
      split at h
      next => cases h
      next hcrc =>
        obtain rfl := Option.some.inj h
        exact ⟨hb, rfl, not_not.mp hcrc⟩
    next => cases h
  · rintro ⟨hb, rfl, hcrc⟩
    rw [if_pos hb]
    exact if_neg (not_not.mpr hcrc)

theorem getTagFromPartition_congr {m m' : Mem Byte} {k : Nat}
    (h : flashReadBuf g m (partitionBlk g info k) 0 256 = flashReadBuf g m' (partitionBlk g info k) 0 256) :
    getTagFromPartition g info m k = getTagFromPartition g info m' k := by
  simp only [getTagFromPartition, h]

variable (g info) in
theorem bootImage_cases (m : Mem Byte) :
    (getTagFromPartition g info m 1 = none ∧ getTagFromPartition g info m 2 = none ∧ bootImage g info m = 0) ∨
    (∃ t, getTagFromPartition g info m 1 = some t ∧ bootImage g info m = 1) ∨
    ∃ t, getTagFromPartition g info m 2 = some t ∧ bootImage g info m = 2 ∧
      (getTagFromPartition g info m 1).map sequence ≠ some (sequence t) := by
  rcases h1 : getTagFromPartition g info m 1 with _ | t1 <;>
    rcases h2 : getTagFromPartition g info m 2 with _ | t2
  · exact .inl ⟨rfl, rfl, by simp only [bootImage, h1, h2]⟩
  · exact .inr (.inr ⟨t2, rfl, by simp only [bootImage, h1, h2], nofun⟩)
  · exact .inr (.inl ⟨t1, rfl, by simp only [bootImage, h1, h2]⟩)
  · by_cases hb : bootImage g info m = 1
    · exact .inr (.inl ⟨t1, rfl, hb⟩)
    · -- the second image is only taken over a different sequence number
      have hsplit : bootImage g info m = 2 ∧ sequence t2 ≠ sequence t1 := by
        simp only [bootImage, h1, h2] at hb ⊢
        split_ifs at hb ⊢ <;> omega
      exact .inr (.inr ⟨t2, rfl, hsplit.1, fun he => hsplit.2 (Option.some.inj he).symm⟩)

theorem bootImage_none {m : Mem Byte} (h1 : getTagFromPartition g info m 1 = none)
    (h2 : getTagFromPartition g info m 2 = none) : bootImage g info m = 0 := by
  simp only [bootImage, h1, h2]

theorem bootImage_same {m : Mem Byte} {t : FileTag} (h1 : getTagFromPartition g info m 1 = some t)
    (h2 : getTagFromPartition g info m 2 = some t) : bootImage g info m = 1 := by
  simp only [bootImage, h1, h2, gt_iff_lt, lt_irrefl, if_false, ite_self]

theorem getPartitionFromTag_boot (m : Mem Byte) :
    getPartitionFromTag g info m (getBootImageTag g info m) = bootImage g info m := by
  rw [getBootImageTag]
  rcases bootImage_cases g info m with ⟨-, -, hb⟩ | ⟨t, ht, hb⟩ | ⟨t, ht, hb, hne⟩
  · rw [hb, getTagFromPartition_zero]
    rfl
  · rw [hb, ht, getPartitionFromTag, if_pos (by rw [ht, Option.map_some])]
    rfl
  · rw [hb, ht, getPartitionFromTag, if_neg hne, if_pos (by rw [ht, Option.map_some])]
    rfl

theorem flashReadBuf_blk (m : Mem Byte) {blk : Int} (hl : 0 ≤ blk) (hu : blk < g.sec.length) (n : Nat) :
    flashReadBuf g m blk 0 n = readBytes m (blkStart g blk) n := by
  rw [flashReadBuf, sectorBase_eq hl hu, add_zero]

theorem getTagFromPartition_kept {m m' : Mem Byte} {k : Nat} (hl : 0 ≤ partitionBlk g info k)
    (hu : partitionBlk g info k < g.sec.length)
    (h : ∀ i, blkStart g (partitionBlk g info k) ≤ i → i < blkStart g (partitionBlk g info k) + 256 → m' i = m i) :
    getTagFromPartition g info m' k = getTagFromPartition g info m k := by
  apply getTagFromPartition_congr
  rw [flashReadBuf_blk _ hl hu, flashReadBuf_blk _ hl hu]
  exact readBytes_congr fun i hi => h _ (by omega) (by omega)

theorem getTagFromPartition_copied {m image : Mem Byte} {k : Nat} (hl : 0 < partitionBlk g info k)
    (hu : partitionBlk g info k < g.sec.length)
    (hvalid : tagCrc (readBytes image 0 256) = tagValidationToken (readBytes image 0 256))
    (h : ∀ i : Nat, i < 256 → m (blkStart g (partitionBlk g info k) + i) = image i) :
    getTagFromPartition g info m k = some (readBytes image 0 256) := by
  have hread : flashReadBuf g m (partitionBlk g info k) 0 256 = readBytes image 0 256 := by
    rw [flashReadBuf_blk _ hl.le hu]
    exact readBytes_congr fun i hi => by rw [h i hi, zero_add]
  rw [getTagFromPartition_eq_some]
  exact ⟨hl.ne', hread.symm, hvalid⟩

theorem bootImage_newest {m : Mem Byte} {k j : Nat} (hkj : k = 1 ∧ j = 2 ∨ k = 2 ∧ j = 1) {t : FileTag}
    (ht : getTagFromPartition g info m k = some t)
    (hother : ∀ u, getTagFromPartition g info m j = some u → sequence u < sequence t)
    (hlatest : bootPartition (szBootline (readNvramData g info m).2) = bootLatestImage) :
    bootImage g info m = k := by
  rcases hu : getTagFromPartition g info m j with _ | u
  · rcases hkj with ⟨rfl, rfl⟩ | ⟨rfl, rfl⟩ <;> simp only [bootImage, ht, hu]
  · have hlt := hother u hu
    rcases hkj with ⟨rfl, rfl⟩ | ⟨rfl, rfl⟩
    · simp only [bootImage, ht, hu, if_pos hlatest]
      rw [if_neg (by omega)]
    · simp only [bootImage, ht, hu, if_pos hlatest]
      rw [if_pos hlt]

end AliceModem.ImageTag
