import AliceModem.Flash.ImageResult

namespace AliceModem.ImagePsi

open Words Hwdefs Sectors ByteMemory Device SharedBlks Regions ImageTag Layout ConfigCopies ImageSet
  ImageResult MixedLayout

section

variable {g : Geometry} {psi : Region} {whole : Prop} [Decidable whole] (hnot : ¬ whole) {f : Flash} {blk size : Int}
  {n : Nat} {i : Int} (hlow : blkStart g psi.startBlk ≤ i)

omit [Decidable whole] in
theorem reaches_le_psi {p : List Bool} (h : Reaches g psi whole p blk size n) (hnot : ¬ whole)
    (hle : blk ≤ psi.startBlk) : blk + n ≤ psi.startBlk := by
  by_contra hlt
  exact h.free hnot (psi.startBlk - blk).toNat (by omega) (by omega)

include hnot hlow

theorem completedByte_psi {p : List Bool} (hc : Completes g psi whole p blk size n) (hn : blk + n ≤ psi.startBlk)
    (hi : blkStart g (psi.startBlk + 1) - psi.length ≤ i) (string : Mem Byte) :
    completedByte g psi whole f string blk size n i = f.mem i := by
  have hbefore (hne : blk + n ≠ psi.startBlk) := blkStart_mono (g := g) (show blk + n + 1 ≤ psi.startBlk by omega)
  rw [completedByte]
  split_ifs with h1 h2 h3
  · by_cases hb : blk + n = psi.startBlk
    · exact absurd ⟨hnot, hb, by rw [hb]; omega⟩ hc.fits
    · have := hbefore hb
      omega
  · rfl
  · have := hbefore fun hb => h2 ⟨hnot, hb⟩
    omega
  · have := hbefore fun hb => h2 ⟨hnot, hb⟩
    omega
  · rfl

theorem stoppedByte_psi (hf : f.faults = []) {junk : Option (Mem Byte)}
    (hs : Stops g psi whole f.faults blk size n junk) (string : Mem Byte) :
    stoppedByte g whole f string blk n junk i = f.mem i := by
  rcases hs with ⟨⟨-, hb, -⟩, rfl⟩ | ⟨-, left, hleft, -⟩
  · rw [stoppedByte, hb, if_neg (not_lt.mpr hlow), if_neg hnot]
    split_ifs <;> rfl
  · simp [hf] at hleft

end

variable {g : Geometry}

/-- An image that is written from a sector at or before the PSI leaves the PSI alone, and the write returns. -/
theorem image_spares_psi {ulPsiSize : Nat} (hpos : 0 < psiLength ulPsiSize)
    (hle : psiLength ulPsiSize ≤ flashGetTotalSize g) {pTag : Option FileTag} {info : FlashAddrInfo}
    (hinfo : info = kerSysFlashInit g ulPsiSize pTag) (f : Flash) (hf : f.faults = []) {addr size : Int}
    (hblk : 0 ≤ flashGetBlk g addr) (hbefore : flashGetBlk g addr ≤ info.persistent.startBlk)
    (hnot : ¬ wholeImage g info addr size) (hsize : 1 ≤ size) (string : Mem Byte) :
    (∃ r, (kerSysBcmImageSet g info f addr string size).1 = some r) ∧
    ∀ i, info.persistent.first g ≤ i → i < info.persistent.first g + info.persistent.length →
      (kerSysBcmImageSet g info f addr string size).2.mem i = f.mem i := by
  have hpsi : info.persistent = psiRegion g ulPsiSize := by rw [hinfo, kerSysFlashInit_persistent]
  have hin := psi_inSector hpos hle
  have hfirst := psi_first hpos hle
  have hlength : (psiRegion g ulPsiSize).length = psiLength ulPsiSize := rfl
  have hin' := hin.lt
  have hlow := hin.low
  have htotal := blkStart_le_total (g := g) ((psiRegion g ulPsiSize).startBlk + 1)
  have hstart := blkStart_mono (g := g) (hpsi ▸ hbefore)
  rcases imageSet_ends f string hblk hsize with hnone | ⟨n, hw⟩ | ⟨n, junk, hleft⟩
  · have hend := (imageSet_none_iff f string hblk hsize (by rw [hpsi]; exact hin')).mp hnone
    have := hend.2.1.resolve_left hnot
    omega
  · obtain ⟨hret, hmem⟩ := imageSet_written f string hblk hsize hw
    refine ⟨⟨_, hret⟩, fun i h1 h2 => ?_⟩
    have hn := reaches_le_psi hw.2.1 hnot hbefore
    rw [hpsi] at h1 h2
    rw [hmem (.inl (by rw [hpsi]; exact hin')) i (by omega) (by omega)]
    refine completedByte_psi hnot ?_ hw.2.2 hn ?_ string <;> rw [hpsi] <;> omega
  · obtain ⟨⟨r, hret, -⟩, hmem⟩ := imageSet_leftAt f string hblk hsize hleft
    refine ⟨⟨r, hret⟩, fun i h1 h2 => ?_⟩
    have hn := reaches_le_psi hleft.2.1 hnot hbefore
    rw [hpsi] at h1 h2 hn
    rw [hmem (by omega) i (by omega) (by omega)]
    exact stoppedByte_psi hnot (by rw [hpsi]; omega) hf hleft.2.2 string

theorem image_spares_psi_demo :
    let info := kerSysFlashInit demoFlash 24 (some blankTag)
    let set := kerSysBcmImageSet demoFlash info (fresh fun _ => 0xff) (65536 + demoFlash.flashBase) (fun _ => 7) 4103232
    (∃ r, set.1 = some r) ∧
    ∀ i, info.persistent.first demoFlash ≤ i → i < info.persistent.first demoFlash + info.persistent.length →
      set.2.mem i = 0xff :=
  image_spares_psi (by decide) (by decide) rfl (fresh fun _ => 0xff) rfl (by decide) (by decide) (by decide) (by decide) _

end AliceModem.ImagePsi
