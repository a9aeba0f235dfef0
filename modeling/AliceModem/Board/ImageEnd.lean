import AliceModem.Board.Upgrade
import AliceModem.Flash.Layout

namespace AliceModem.ImageEnd

open Words Hwdefs Sectors ByteMemory Device SharedBlks Regions Nvram BigEndian ImageTag Upgrade Layout Vsprintf

def imageEnd (t : FileTag) : Nat := uint32 ((kernelAddress t : Int) + kernelLen t - imageBase)

/-- The kernel follows the root file system, and the text of its length ends in its field. -/
structure Packed (t : FileTag) : Prop where
  kernel : kernelAddress t = uint32 ((rootfsAddress t : Int) + rootfsLen t)
  terminated : 0 ∈ (t.drop 128).take 10

variable {g : Geometry} {info : FlashAddrInfo}

theorem kernelEnd_offset (t : FileTag) :
    flashGetBlk g (kernelEndAddr g t) = flashGetBlk g (imageEnd t + g.flashBase) := by
  apply flashGetBlk_congr
  rw [add_sub_cancel_right, imageEnd, kernelEndAddr, bootOffset]
  unfold uint32
  omega

theorem field_congr {image image' : Mem Byte} {k w : Nat} (hk : k + w ≤ 256)
    (h : readBytes image k w = readBytes image' k w) (h0 : 0 ∈ readBytes image k w) :
    simpleStrtoul ((tagOf image).drop k) = simpleStrtoul ((tagOf image').drop k) := by
  rw [drop_tagOf _ (by omega), drop_tagOf _ (by omega)]
  refine strtoulLoop_take (k := w) ?_ ?_ 0
  · rw [take_readBytes _ _ (by omega), take_readBytes _ _ (by omega), h]
  · rwa [take_readBytes _ _ (by omega)]

theorem field_number {image : Mem Byte} {k num : Nat} (hk : k + 11 ≤ 256)
    (h : readBytes image k (sprintfLu num).length = sprintfLu num) (hnum : num < 4294967296) :
    simpleStrtoul ((tagOf image).drop k) = num := by
  have hlen := length_sprintfLu_le num
  obtain ⟨rest, hrest⟩ := field_text h (by omega)
  rw [hrest, simpleStrtoul_sprintfLu hnum]

theorem readBytes_signTag (image : Mem Byte) {a : Int} {n : Nat} (h : a + n ≤ 236) :
    readBytes (signTag image) a n = readBytes image a n :=
  readBytes_patch_disjoint _ _ _ _ _ (.inl h)

theorem readBytes_number (m : Mem Byte) {a b : Int} {n : Nat} (num : Nat) (h : a + n ≤ b ∨ b + 11 ≤ a) :
    readBytes (patch m b (sprintfLu num)) a n = readBytes m a n := by
  have hlen := length_sprintfLu_le num
  exact readBytes_patch_disjoint _ _ _ _ _ (by omega)

theorem readBytes_movedImage (imagePtr : Mem Byte) :
    readBytes (movedImage info imagePtr) 128 10 = readBytes imagePtr 128 10 := by
  rw [movedImage]
  split
  · rw [readBytes_signTag _ (by decide), readBytes_number _ _ (by decide), readBytes_number _ _ (by decide)]
  · rfl

theorem readBytes_placedImage (m imagePtr : Mem Byte) :
    readBytes (placedImage g info m imagePtr) 128 10 = readBytes imagePtr 128 10 := by
  rw [placedImage]
  split
  · rw [readBytes_number _ _ (by decide), readBytes_number _ _ (by decide), readBytes_movedImage]
  · exact readBytes_movedImage imagePtr

section

variable {m imagePtr : Mem Byte} {p : Plan} (hi : Initialised g info) (h : plan g info m imagePtr = some p)

include hi h

theorem readBytes_plan {a : Int} {n : Nat} (ha : a + n ≤ 138) :
    readBytes p.image a n = readBytes (placedImage g info m imagePtr) a n := by
  rw [(plan_spec hi h).2.2.2, readBytes_signTag _ (by omega), readBytes_patch_disjoint _ _ _ _ _ (.inl ha)]

theorem plan_outside {i : Int} (hi' : 256 ≤ i) : p.image i = imagePtr i := by
  have hsign (image : Mem Byte) : signTag image i = image i :=
    patch_outside _ _ _ _ (.inr (by rw [length_bytes32]; omega))
  have hnumber (image : Mem Byte) {b : Int} (hb : b ≤ 116) (num : Nat) : patch image b (sprintfLu num) i = image i := by
    have hlen := length_sprintfLu_le num
    exact patch_outside _ _ _ _ (.inr (by omega))
  have hseq := length_sprintfD_le (updateImageSequenceNumber g info m)
  have hmoved : movedImage info imagePtr i = imagePtr i := by
    rw [movedImage]
    split
    · rw [hsign, hnumber _ (by decide), hnumber _ (by decide)]
    · rfl
  rw [(plan_spec hi h).2.2.2, hsign, patch_outside _ _ _ _ (.inr (by omega)), placedImage]
  split
  · rw [hnumber _ (by decide), hnumber _ (by decide), hmoved]
  · exact hmoved

variable (hp : Packed (tagOf imagePtr))

include hp

omit hi h in
theorem Packed.zero_mem : 0 ∈ readBytes imagePtr 128 10 := by
  have hmem := hp.terminated
  rwa [drop_tagOf _ (by decide), take_readBytes _ _ (by decide)] at hmem

theorem kernelLen_plan : kernelLen (tagOf p.image) = kernelLen (tagOf imagePtr) := by
  have hread : readBytes p.image (128 : Nat) 10 = readBytes imagePtr (128 : Nat) 10 :=
    (readBytes_plan hi h (by decide)).trans (readBytes_placedImage m imagePtr)
  exact field_congr (by decide) hread (hread ▸ hp.zero_mem)

theorem kernelAddress_plan : kernelAddress (tagOf p.image) =
    uint32 (imageBase + destOffset g info m (tagOf imagePtr) + tagLen + rootfsLen (tagOf imagePtr)) := by
  obtain ⟨hs0, hs1⟩ := rootfsStart_range hi
  have hstart := uint32_of_range (z := info.rootfsStartOffset) (by omega) (by omega)
  have hoff : (rootfsOffset (tagOf imagePtr) : Int) =
      ((rootfsAddress (tagOf imagePtr) : Int) - imageBase - tagLen) % 4294967296 := cast_uint32 _
  have hkernel := congrArg (Nat.cast (R := Int)) hp.kernel
  rw [cast_uint32] at hkernel
  -- a number that the upgrade has put into the field
  have hput {num : Nat} (hnum : num < 4294967296)
      (hread : readBytes (placedImage g info m imagePtr) 116 (sprintfLu num).length = sprintfLu num) :
      kernelAddress (tagOf p.image) = num := by
    have hlen := length_sprintfLu_le num
    exact field_number (by decide) ((readBytes_plan hi h (by rw [Nat.cast_ofNat]; omega)).trans hread) hnum
  rw [destOffset]
  by_cases hsecond : ToSecond g info m (tagOf imagePtr)
  · have hread (num num' : Nat) : readBytes (patch (patch (movedImage info imagePtr) 116 (sprintfLu num)) 94
        (sprintfLu num')) 116 (sprintfLu num).length = sprintfLu num :=
      (readBytes_number _ _ (.inr (by decide))).trans (readBytes_patch _ _ _)
    rw [if_pos ((toSecond_iff _ _).mp hsecond),
      hput (uint32_lt _) (by rw [placedImage, if_pos hsecond]; exact hread _ _), kernelAddr, rootfsAddr]
    unfold uint32
    omega
  · rw [if_neg fun hand => hsecond ((toSecond_iff _ _).mpr hand), imageOffset]
    have hplaced : placedImage g info m imagePtr = movedImage info imagePtr := by rw [placedImage, if_neg hsecond]
    by_cases hmove : rootfsOffset (tagOf imagePtr) < uint32 info.rootfsStartOffset
    · have hread (image : Mem Byte) (num : Nat) :
          readBytes (signTag (patch image 116 (sprintfLu num))) 116 (sprintfLu num).length = sprintfLu num := by
        have hlen := length_sprintfLu_le num
        exact (readBytes_signTag _ (by omega)).trans (readBytes_patch _ _ _)
      rw [hput (uint32_lt _) (by rw [hplaced, movedImage, if_pos hmove]; exact hread _ _), addrShift, if_pos hmove,
        max_eq_right (by omega)]
      unfold uint32
      omega
    · have hread : readBytes p.image (116 : Nat) 22 = readBytes imagePtr (116 : Nat) 22 := by
        rw [readBytes_plan hi h (by decide), hplaced, movedImage, if_neg hmove]
      have hzero : 0 ∈ readBytes p.image (116 : Nat) 22 := by
        rw [hread, show 22 = 12 + 10 from rfl, readBytes_append, List.mem_append]
        exact .inr hp.zero_mem
      rw [kernelAddress, field_congr (by decide) hread hzero, max_eq_left (by omega)]
      change kernelAddress (tagOf imagePtr) = _
      unfold uint32
      omega

/-- The stored image ends where its data end. -/
theorem imageEnd_plan : imageEnd (tagOf p.image) =
    uint32 (destOffset g info m (tagOf imagePtr) + tagLen + imgSize (tagOf imagePtr)) := by
  rw [imageEnd, kernelAddress_plan hi h hp, kernelLen_plan hi h hp, imgSize]
  unfold uint32
  omega

end

theorem rootfsStart_uniform {n size : Nat} (hg : Uniform g n size) (hsize : 65536 ≤ size) (hi : Initialised g info) :
    info.rootfsStartOffset = size := by
  rw [hi.rootfsStartOffset]
  simp only [kerSysEarlyFlashInit, flashLengthBootRom, hg.sectorSize le_rfl (by exact_mod_cast hg.pos)]
  split <;> omega

/-- What the size checks leave over for an image that starts before the reserved space. -/
structure Within (g : Geometry) (size : Nat) (off : Int) (p : Plan) : Prop where
  first : size ≤ off
  size : p.size = imageEnd (tagOf p.image) - off
  long : off + tagLen ≤ imageEnd (tagOf p.image)
  last : imageEnd (tagOf p.image) ≤ flashGetTotalSize g - flashReservedAtEnd + tagLen

theorem plan_within {n size : Nat} (hg : Uniform g n size) (hsize : size = 65536 ∨ 131072 ≤ size)
    (hi : Initialised g info) {m imagePtr : Mem Byte} {p : Plan} (h : plan g info m imagePtr = some p)
    (hp : Packed (tagOf imagePtr))
    (hstart : imageOffset info (tagOf imagePtr) + tagLen + flashReservedAtEnd ≤ flashGetTotalSize g) :
    Within g size (destOffset g info m (tagOf imagePtr)) p := by
  have htotal := hg.total_lt
  have hfirst := rootfsStart_uniform hg (by omega) hi
  have hend := imageEnd_plan hi h hp
  obtain ⟨hone, -, hlen, -⟩ := plan_spec hi h
  have himage : (size : Int) ≤ imageOffset info (tagOf imagePtr) := hfirst ▸ le_max_right _ _
  rw [availableSizeOneImg_eq hi] at hone
  simp only [hg.totalSize, tagLen, flashReservedAtEnd] at hone hstart hlen hend
  have hone' := uint32_of_range (z := n * size - imageOffset info (tagOf imagePtr) - 256 - 131072)
    (by omega) (by omega)
  rw [int32_of_range (by omega) (by omega)] at hlen
  -- where the data end in each of the two places
  obtain ⟨hlow, hhigh⟩ : size ≤ destOffset g info m (tagOf imagePtr) ∧
      destOffset g info m (tagOf imagePtr) + imgSize (tagOf imagePtr) ≤ n * size - 131072 := by
    rw [destOffset]
    split
    next htwo =>
      have hroom := htwo.1.2
      have htwice : (2 : Int) * size ≤ n * size := by
        have hn : 2 ≤ n := by
          by_contra hlt
          have : n * size ≤ 1 * size := Nat.mul_le_mul_right _ (by omega)
          omega
        exact_mod_cast Nat.mul_le_mul_right size hn
      have hbig : (262144 : Int) ≤ n * size := by
        rcases hsize with rfl | hsize <;> omega
      simp only [availableSizeTwoImgs, hfirst, hg.totalSize, flashReservedAtEnd] at hroom
      rw [hg.totalSize]
      split at hroom
      · have := uint32_of_range (z := n * size / 2 - size) (by omega) (by omega)
        omega
      · have := uint32_of_range (z := n * size / 2 - 131072) (by omega) (by omega)
        omega
    next => omega
  have hnat := uint32_of_range (z := destOffset g info m (tagOf imagePtr) + 256 + imgSize (tagOf imagePtr))
    (by omega) (by omega)
  rw [← hend] at hnat
  refine ⟨hlow, by omega, ?_, ?_⟩ <;> simp only [tagLen, flashReservedAtEnd, hg.totalSize] <;> omega

end AliceModem.ImageEnd
