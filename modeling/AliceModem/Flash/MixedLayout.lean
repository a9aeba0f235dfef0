import AliceModem.Flash.Layout

namespace AliceModem.MixedLayout

open Words Hwdefs Sectors ByteMemory Device SharedBlks Regions ImageTag Layout

variable {g : Geometry} {ulPsiSize : Nat}

theorem blkStart_end : blkStart g g.sec.length = flashGetTotalSize g := by
  rw [blkStart, Int.toNat_natCast, List.take_length, flashGetTotalSize]

/-- The sector of an offset into a device with sectors of any sizes. -/
structure InSector (g : Geometry) (a b : Int) : Prop where
  nonneg : 0 ≤ b
  lt : b < g.sec.length
  low : blkStart g b ≤ a
  high : a < blkStart g (b + 1)

theorem getBlk_inSector {a : Int} (hl : 0 ≤ a) (hu : a < flashGetTotalSize g) :
    InSector g a (flashGetBlk g (a + g.flashBase)) := by
  obtain ⟨h0, h1, h2⟩ := flashGetBlk_offset (g := g) a hl hu
  rw [add_comm g.flashBase] at h0 h1 h2
  refine ⟨h0, ?_, h1, h2⟩
  by_contra hge
  have hmono := blkStart_mono (g := g) (not_lt.mp hge)
  rw [blkStart_end] at hmono
  omega

theorem InSector.le {a a' b b' : Int} (h : InSector g a b) (h' : InSector g a' b') (hle : a ≤ a') : b ≤ b' := by
  by_contra hlt
  have hmono := blkStart_mono (g := g) (show b' + 1 ≤ b by omega)
  have := h.low
  have := h'.high
  omega

variable (g ulPsiSize) in
theorem psi_endBlk : (psiRegion g ulPsiSize).endBlk = g.sec.length := by
  rw [Region.endBlk, psiRegion, flashGetNumsectors]
  exact add_sub_cancel _ _

section

variable (hpos : 0 < psiLength ulPsiSize) (hle : psiLength ulPsiSize ≤ flashGetTotalSize g)

include hpos hle

theorem psiStartAddr_eq : psiStartAddr g ulPsiSize = flashGetTotalSize g - psiLength ulPsiSize := by
  have htotal := g.total_lt
  rw [flashGetTotalSize] at hle
  rw [psiStartAddr, flashGetTotalSize]
  exact int32_of_range (by omega) (by omega)

theorem psi_inSector :
    InSector g (flashGetTotalSize g - psiLength ulPsiSize) (psiRegion g ulPsiSize).startBlk := by
  have h := getBlk_inSector (g := g) (a := flashGetTotalSize g - psiLength ulPsiSize) (by omega) (by omega)
  rwa [← psiStartAddr_eq hpos hle] at h ⊢

theorem psi_first : (psiRegion g ulPsiSize).first g = flashGetTotalSize g - psiLength ulPsiSize := by
  have hin := psi_inSector hpos hle
  have hend := psi_endBlk g ulPsiSize
  have hlt := hin.lt
  have hused := usedBlkSize_eq hin.nonneg (show (psiRegion g ulPsiSize).startBlk ≤ g.sec.length by omega) le_rfl
  rw [blkStart_end, ← hend] at hused
  have hoffset : (psiRegion g ulPsiSize).blkOffset =
    usedBlkSize g (psiRegion g ulPsiSize).startBlk (psiRegion g ulPsiSize).endBlk - psiLength ulPsiSize := rfl
  rw [Region.first]
  omega

end

/-- Where `kerSysFlashInit` puts the pad: its window ends inside its sectors, and only a pad that has
its sectors to itself may start before them. -/
structure PadLayout (g : Geometry) (sp : Region) : Prop where
  start_nonneg : 0 ≤ sp.startBlk
  mono : sp.startBlk < sp.endBlk
  inside : sp.endBlk ≤ g.sec.length
  length : sp.length = 8192
  window : sp.blkOffset + 8192 ≤ blkStart g sp.endBlk - blkStart g sp.startBlk
  own : sp.blkOffset < 0 → sp.blkOffset + 8192 = blkStart g sp.endBlk - blkStart g sp.startBlk

theorem spRegion_layout (hpos : 0 < psiLength ulPsiSize) (hroom : psiLength ulPsiSize + 8192 ≤ flashGetTotalSize g)
    {kernelEnd : Int} (hlen : (spRegion g ulPsiSize kernelEnd).1.length ≠ 0) :
    PadLayout g (spRegion g ulPsiSize kernelEnd).1 := by
  have htotal := g.total_lt
  have hpsi := psi_inSector hpos (show psiLength ulPsiSize ≤ flashGetTotalSize g by omega)
  have hfirst := psi_first hpos (show psiLength ulPsiSize ≤ flashGetTotalSize g by omega)
  have haddr : (spAddr g ulPsiSize : Int) = flashGetTotalSize g - psiLength ulPsiSize - 8192 := by
    rw [flashGetTotalSize] at hroom
    rw [spAddr, psiStartAddr_eq hpos (by rw [flashGetTotalSize]; omega), cast_uint32, flashGetTotalSize, spMaxLen]
    exact Int.emod_eq_of_lt (by omega) (by omega)
  have hsp : InSector g (spAddr g ulPsiSize) (flashGetBlk g (spAddr g ulPsiSize + g.flashBase)) :=
    getBlk_inSector (by omega) (by omega)
  have hle := hsp.le hpsi (by omega)
  rw [spRegion] at hlen ⊢
  dsimp only at hlen ⊢
  split_ifs at hlen ⊢ with hkernel hshare
  · have hend : (psiRegion g ulPsiSize).startBlk + 1 ≤ g.sec.length := hpsi.lt
    rw [← hshare] at hsp ⊢
    rw [Region.first] at hfirst
    have hlow := hsp.low
    have hhigh := hpsi.high
    refine ⟨hsp.nonneg, ?_, hend, rfl, ?_, fun h => ?_⟩
    · exact lt_add_one _
    · simp only [Region.endBlk, spMaxLen]
      omega
    · simp only [spMaxLen] at h
      omega
  · have hblk : flashGetBlk g (spAddr g ulPsiSize + g.flashBase) < (psiRegion g ulPsiSize).startBlk :=
      lt_of_le_of_ne hle (Ne.symm hshare)
    have hend := hpsi.lt
    have hused := usedBlkSize_eq hsp.nonneg hle hpsi.lt.le
    simp only [add_sub_cancel]
    refine ⟨hsp.nonneg, ?_, ?_, rfl, ?_, fun _ => ?_⟩ <;> simp only [Region.endBlk, add_sub_cancel, spMaxLen] <;> omega
  · exact absurd rfl hlen

end AliceModem.MixedLayout
