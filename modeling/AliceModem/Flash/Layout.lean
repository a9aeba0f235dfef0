import AliceModem.Board.ImageTag

namespace AliceModem.Layout

open Words Hwdefs Sectors ByteMemory Device SharedBlks Regions Nvram ImageTag

variable (g : Geometry) (ulPsiSize : Nat)

def psiLength : Int :=
  int32 (if ulPsiSize ≠ 4294967295 ∧ ulPsiSize ≠ 0 then ulPsiSize * onek else defaultPsiSize * onek)

def psiStartAddr : Int := int32 (flashGetTotalSize g - psiLength ulPsiSize)

def psiRegion : Region :=
  let startBlk := flashGetBlk g (psiStartAddr g ulPsiSize + g.flashBase)
  let numberBlk := flashGetNumsectors g - startBlk
  let used := usedBlkSize g startBlk (startBlk + numberBlk)
  -- a block offset is only ever added to a pointer, so it is kept with its sign
  ⟨startBlk, numberBlk, psiLength ulPsiSize, used - psiLength ulPsiSize⟩

def spAddr : Nat := uint32 (psiStartAddr g ulPsiSize - spMaxLen)

def kernelEndAddr (pTag : FileTag) : Nat := uint32 (kernelAddress pTag + kernelLen pTag + bootOffset g)

variable (kernelEnd : Int)

/-- The region of the scratch pad and the size of the sectors that it uses in
addition to those of the PSI. `kernelEnd` is the sector in which the booted
image ends. -/
def spRegion : Region × Int :=
  let psi := psiRegion g ulPsiSize
  let startBlk := flashGetBlk g (spAddr g ulPsiSize + g.flashBase)
  if startBlk ≠ kernelEnd then
    if psi.startBlk = startBlk then (⟨startBlk, 1, spMaxLen, psi.blkOffset - spMaxLen⟩, 0)
    else
      let numberBlk := psi.startBlk - startBlk
      let used := usedBlkSize g startBlk (startBlk + numberBlk)
      (⟨startBlk, numberBlk, spMaxLen, used - spMaxLen⟩, used)
  else (⟨startBlk, 0, 0, 0⟩, 0)

def tailSize : Int :=
  let psi := psiRegion g ulPsiSize
  usedBlkSize g psi.startBlk psi.endBlk + (spRegion g ulPsiSize kernelEnd).2

def dareAddr : Int := flashGetTotalSize g - tailSize g ulPsiSize kernelEnd - psiLength ulPsiSize

def dareRegion : Region :=
  let startBlk := flashGetBlk g (uint32 (dareAddr g ulPsiSize kernelEnd) + g.flashBase)
  if startBlk ≠ kernelEnd then
    let numberBlk := (spRegion g ulPsiSize kernelEnd).1.startBlk - startBlk
    let used := usedBlkSize g startBlk (startBlk + numberBlk)
    ⟨startBlk, numberBlk, psiLength ulPsiSize, used - psiLength ulPsiSize⟩
  else ⟨startBlk, 0, 0, 0⟩

/-- Without a valid image tag the function returns before it has looked for
room for the scratch pad and the second configuration. -/
def kerSysFlashInit : Option FileTag → FlashAddrInfo
  | none => { kerSysEarlyFlashInit g with persistent := psiRegion g ulPsiSize }
  | some pTag =>
      let kernelEnd := flashGetBlk g (kernelEndAddr g pTag)
      { kerSysEarlyFlashInit g with
        persistent := psiRegion g ulPsiSize
        scratchPad := (spRegion g ulPsiSize kernelEnd).1
        darePersistent := dareRegion g ulPsiSize kernelEnd }

theorem kerSysFlashInit_initialised (pTag : Option FileTag) :
    Initialised g (kerSysFlashInit g ulPsiSize pTag) := by
  cases pTag <;> exact ⟨by simp only [kerSysFlashInit], by simp only [kerSysFlashInit]⟩

theorem kerSysFlashInit_some (pTag : FileTag) :
    kerSysFlashInit g ulPsiSize (some pTag) = { kerSysEarlyFlashInit g with
      persistent := psiRegion g ulPsiSize
      scratchPad := (spRegion g ulPsiSize (flashGetBlk g (kernelEndAddr g pTag))).1
      darePersistent := dareRegion g ulPsiSize (flashGetBlk g (kernelEndAddr g pTag)) } := by
  rw [kerSysFlashInit]

variable {g ulPsiSize kernelEnd}

theorem kerSysFlashInit_persistent (pTag : Option FileTag) :
    (kerSysFlashInit g ulPsiSize pTag).persistent = psiRegion g ulPsiSize := by
  cases pTag <;> simp only [kerSysFlashInit]

theorem psiLength_nonneg (h : 0 < (psiRegion g ulPsiSize).startBlk) : 0 ≤ (psiRegion g ulPsiSize).length := by
  by_contra hneg
  have hlow : -2147483648 ≤ psiLength ulPsiSize := int32_lower _
  have htotal := g.total_lt
  have hlen : psiLength ulPsiSize < 0 := not_le.mp hneg
  have haddr : psiStartAddr g ulPsiSize = int32 (flashGetTotalSize g - psiLength ulPsiSize) := rfl
  have hstart : (psiRegion g ulPsiSize).startBlk = flashGetBlk g (psiStartAddr g ulPsiSize + g.flashBase) := rfl
  have hsub : int32 (psiStartAddr g ulPsiSize + g.flashBase - g.flashBase) = psiStartAddr g ulPsiSize := by
    rw [add_sub_cancel_right, haddr]
    exact int32_of_range (int32_lower _) (int32_upper _)
  rw [flashGetTotalSize] at haddr
  rcases lt_or_ge (flashGetTotalSize g - psiLength ulPsiSize) 2147483648 with hsmall | hbig
  · rw [hstart, flashGetBlk_beyond] at h
    · omega
    · rw [hsub, haddr, int32_of_range (by omega) (by rw [flashGetTotalSize] at hsmall; omega), flashGetTotalSize]
      omega
  · rw [hstart, flashGetBlk_below] at h
    · cases hd : g.driver <;> simp [hd] at h
    · rw [hsub, haddr, int32]
      rw [flashGetTotalSize] at hbig
      omega

theorem persistent_nonneg (pTag : Option FileTag) (h : 0 < (kerSysFlashInit g ulPsiSize pTag).persistent.startBlk) :
    0 ≤ (kerSysFlashInit g ulPsiSize pTag).persistent.length := by
  rw [kerSysFlashInit_persistent] at h ⊢
  exact psiLength_nonneg h

theorem persistent_lt (pTag : Option FileTag) :
    (kerSysFlashInit g ulPsiSize pTag).persistent.startBlk < g.sec.length := by
  rw [kerSysFlashInit_persistent]
  exact flashGetBlk_lt _

theorem psiLength_eq (hl : 1 ≤ ulPsiSize) (hu : ulPsiSize ≤ 64) : psiLength ulPsiSize = ulPsiSize * 1024 := by
  rw [psiLength, if_pos (by omega), onek, int32_of_range (by omega) (by omega)]

theorem blk_bounds {a size : Int} (hsize : 0 < size) (ha : 0 ≤ a) :
    0 ≤ a / size ∧ a / size * size ≤ a ∧ a < a / size * size + size := by
  have hsum := Int.emod_add_mul_ediv a size
  have hlow := Int.emod_nonneg a hsize.ne'
  have hhigh := Int.emod_lt_of_pos a hsize
  rw [mul_comm size] at hsum
  exact ⟨Int.ediv_nonneg ha hsize.le, by omega, by omega⟩

def psiBlk (n size ulPsiSize : Nat) : Int := (n * size - ulPsiSize * 1024) / size

def spBlk (n size ulPsiSize : Nat) : Int := (n * size - ulPsiSize * 1024 - 8192) / size

/-- The sectors of the second configuration end before those of the scratch pad
and of the first configuration start. -/
structure Ordered (n : Nat) (psi sp dare : Region) : Prop where
  dare_nonneg : 0 ≤ dare.startBlk
  dare_le : dare.startBlk ≤ dare.endBlk
  dare_sp : dare.endBlk ≤ sp.startBlk
  sp_psi : sp.startBlk ≤ psi.startBlk
  sp_end : sp.endBlk ≤ n
  psi_start : psi.startBlk < n
  psi_end : psi.endBlk ≤ n

section

variable {n size : Nat} (hg : Uniform g n size)

include hg

theorem blkStart_uniform {a : Int} (hl : 0 ≤ a) (hu : a ≤ n) : blkStart g a = a * size := by
  rw [blkStart, hg, List.take_replicate, Nat.min_eq_left (by omega)]
  simp [hl]

theorem usedBlkSize_uniform {a b : Int} (hl : 0 ≤ a) (hab : a ≤ b) (hu : b ≤ n) :
    usedBlkSize g a b = b * size - a * size := by
  rw [usedBlkSize_eq hl hab (by rw [hg.length]; exact hu), blkStart_uniform hg (by omega) hu,
    blkStart_uniform hg hl (by omega)]

theorem getBlk_offset {a : Int} (hl : 0 ≤ a) (hu : a < n * size) :
    flashGetBlk g (a + g.flashBase) = a / size := by
  have htotal := hg.total_lt
  have hrange : int32 (a + g.flashBase - g.flashBase) = a := by
    rw [Int.add_sub_cancel]
    exact int32_of_range (by omega) (by omega)
  rw [hg.getBlk (by rwa [hrange]) (by rwa [hrange]), hrange]

theorem fits_uniform {r : Region} (hstart : 0 ≤ r.startBlk) (hnumber : 0 ≤ r.numberBlk) (hend : r.endBlk ≤ n)
    (hoffset : 0 ≤ r.blkOffset) (hlength : 0 ≤ r.length)
    (hwindow : r.blkOffset + r.length ≤ r.endBlk * size - r.startBlk * size) : r.Fits g where
  start_nonneg := hstart
  number_nonneg := hnumber
  inside := by rwa [hg.length]
  offset_nonneg := hoffset
  length_nonneg := hlength
  window := by
    have hmono : r.startBlk ≤ r.endBlk := by rw [Region.endBlk]; omega
    rwa [blkStart_uniform hg (by omega) hend, blkStart_uniform hg hstart (by omega)]

variable (hpsi : 1 ≤ ulPsiSize ∧ ulPsiSize ≤ 64)

include hpsi

theorem psiStartAddr_uniform (hroom : (ulPsiSize : Int) * 1024 ≤ n * size) :
    psiStartAddr g ulPsiSize = n * size - ulPsiSize * 1024 := by
  have htotal := hg.total_lt
  rw [psiStartAddr, hg.totalSize, psiLength_eq hpsi.1 hpsi.2, int32_of_range (by omega) (by omega)]

theorem psiBlk_bounds (hroom : (ulPsiSize : Int) * 1024 ≤ n * size) :
    0 ≤ psiBlk n size ulPsiSize ∧ psiBlk n size ulPsiSize < n ∧
    psiBlk n size ulPsiSize * size ≤ n * size - ulPsiSize * 1024 ∧
    n * size - ulPsiSize * 1024 < psiBlk n size ulPsiSize * size + size := by
  have hsize : (0 : Int) < size := by have := hg.nvram; omega
  obtain ⟨h0, h1, h2⟩ := blk_bounds hsize (a := n * size - ulPsiSize * 1024) (by omega)
  exact ⟨h0, Int.ediv_lt_of_lt_mul hsize (by omega), h1, h2⟩

theorem psiRegion_uniform (hroom : (ulPsiSize : Int) * 1024 ≤ n * size) :
    psiRegion g ulPsiSize = ⟨psiBlk n size ulPsiSize, n - psiBlk n size ulPsiSize, ulPsiSize * 1024,
      n * size - psiBlk n size ulPsiSize * size - ulPsiSize * 1024⟩ := by
  obtain ⟨h0, hn, -, -⟩ := psiBlk_bounds hg hpsi hroom
  have hblk : flashGetBlk g (psiStartAddr g ulPsiSize + g.flashBase) = psiBlk n size ulPsiSize := by
    rw [psiStartAddr_uniform hg hpsi hroom, getBlk_offset hg (by omega) (by omega), psiBlk]
  simp only [psiRegion, hblk, hg.numsectors, psiLength_eq hpsi.1 hpsi.2, add_sub_cancel]
  rw [usedBlkSize_uniform hg h0 hn.le le_rfl]

theorem psiRegion_fits (hroom : (ulPsiSize : Int) * 1024 ≤ n * size) : (psiRegion g ulPsiSize).Fits g := by
  obtain ⟨h0, hn, h1, -⟩ := psiBlk_bounds hg hpsi hroom
  rw [psiRegion_uniform hg hpsi hroom]
  apply fits_uniform hg <;> simp only [Region.endBlk, add_sub_cancel] <;> omega

variable (hroom : (ulPsiSize : Int) * 1024 + 8192 ≤ n * size)

include hroom

omit hpsi in
theorem spBlk_bounds :
    0 ≤ spBlk n size ulPsiSize ∧ spBlk n size ulPsiSize ≤ psiBlk n size ulPsiSize ∧
    spBlk n size ulPsiSize * size ≤ n * size - ulPsiSize * 1024 - 8192 ∧
    n * size - ulPsiSize * 1024 - 8192 < spBlk n size ulPsiSize * size + size := by
  have hsize : (0 : Int) < size := by have := hg.nvram; omega
  obtain ⟨h0, h1, h2⟩ := blk_bounds hsize (a := n * size - ulPsiSize * 1024 - 8192) (by omega)
  exact ⟨h0, Int.ediv_le_ediv hsize (by omega), h1, h2⟩

theorem getBlk_spAddr : flashGetBlk g (spAddr g ulPsiSize + g.flashBase) = spBlk n size ulPsiSize := by
  have htotal := hg.total_lt
  rw [spAddr, psiStartAddr_uniform hg hpsi (by omega), spMaxLen, uint32_of_range (by omega) (by omega),
    getBlk_offset hg (by omega) (by omega), spBlk]

theorem spRegion_off (hk : spBlk n size ulPsiSize = kernelEnd) :
    spRegion g ulPsiSize kernelEnd = (⟨kernelEnd, 0, 0, 0⟩, 0) := by
  simp only [spRegion, getBlk_spAddr hg hpsi hroom, hk, ne_eq, not_true_eq_false, if_false]

theorem spRegion_on (hk : spBlk n size ulPsiSize ≠ kernelEnd) :
    spRegion g ulPsiSize kernelEnd =
      if psiBlk n size ulPsiSize = spBlk n size ulPsiSize then
        (⟨spBlk n size ulPsiSize, 1, 8192,
          n * size - psiBlk n size ulPsiSize * size - ulPsiSize * 1024 - 8192⟩, 0)
      else
        (⟨spBlk n size ulPsiSize, psiBlk n size ulPsiSize - spBlk n size ulPsiSize, 8192,
          psiBlk n size ulPsiSize * size - spBlk n size ulPsiSize * size - 8192⟩,
          psiBlk n size ulPsiSize * size - spBlk n size ulPsiSize * size) := by
  obtain ⟨-, hn, -, -⟩ := psiBlk_bounds hg hpsi (by omega)
  obtain ⟨h0, hle, -, -⟩ := spBlk_bounds hg hroom
  simp only [spRegion, getBlk_spAddr hg hpsi hroom, psiRegion_uniform hg hpsi (by omega), hk, ne_eq,
    not_false_eq_true, if_true, add_sub_cancel, usedBlkSize_uniform hg h0 hle hn.le]

theorem spRegion_fits (hsize : 8192 ≤ size) (hk : spBlk n size ulPsiSize ≠ kernelEnd) :
    (spRegion g ulPsiSize kernelEnd).1.Fits g := by
  obtain ⟨h0, hn, h1, h2⟩ := psiBlk_bounds hg hpsi (by omega)
  obtain ⟨hs0, hle, hs1, hs2⟩ := spBlk_bounds hg hroom
  rw [spRegion_on hg hpsi hroom hk]
  split
  next hshare =>
    rw [← hshare] at hs1 hs0 ⊢
    apply fits_uniform hg <;> simp only [Region.endBlk, add_mul, one_mul] <;> omega
  next hshare =>
    have hgap : (spBlk n size ulPsiSize + 1) * size ≤ psiBlk n size ulPsiSize * size :=
      Int.mul_le_mul_of_nonneg_right (by omega) (by omega)
    rw [add_mul, one_mul] at hgap
    apply fits_uniform hg <;> simp only [Region.endBlk, add_sub_cancel] <;> omega

theorem tailSize_on (hk : spBlk n size ulPsiSize ≠ kernelEnd) :
    tailSize g ulPsiSize kernelEnd = n * size - spBlk n size ulPsiSize * size := by
  obtain ⟨h0, hn, -, -⟩ := psiBlk_bounds hg hpsi (by omega)
  simp only [tailSize, psiRegion_uniform hg hpsi (by omega), Region.endBlk, add_sub_cancel,
    usedBlkSize_uniform hg h0 hn.le le_rfl, spRegion_on hg hpsi hroom hk]
  split
  next he => rw [he, add_zero]
  next => omega

variable (hk : spBlk n size ulPsiSize ≠ kernelEnd) (hdare : 0 ≤ dareAddr g ulPsiSize kernelEnd)

include hk hdare

theorem dareRegion_on :
    ∃ db : Int, 0 ≤ db ∧ db < spBlk n size ulPsiSize ∧
      db * size ≤ spBlk n size ulPsiSize * size - ulPsiSize * 1024 ∧
      dareRegion g ulPsiSize kernelEnd = if db ≠ kernelEnd then
        ⟨db, spBlk n size ulPsiSize - db, ulPsiSize * 1024,
          spBlk n size ulPsiSize * size - db * size - ulPsiSize * 1024⟩
      else ⟨db, 0, 0, 0⟩ := by
  have htotal := hg.total_lt
  have hsize : (0 : Int) < size := by have := hg.nvram; omega
  obtain ⟨-, hn, -, -⟩ := psiBlk_bounds hg hpsi (by omega)
  obtain ⟨h0, hle, h1, -⟩ := spBlk_bounds hg hroom
  have haddr : dareAddr g ulPsiSize kernelEnd = spBlk n size ulPsiSize * size - ulPsiSize * 1024 := by
    rw [dareAddr, hg.totalSize, tailSize_on hg hpsi hroom hk, psiLength_eq hpsi.1 hpsi.2]
    omega
  rw [haddr] at hdare
  obtain ⟨hd0, hd1, -⟩ := blk_bounds hsize hdare
  have hdlt : (spBlk n size ulPsiSize * size - ulPsiSize * 1024) / size < spBlk n size ulPsiSize :=
    Int.ediv_lt_of_lt_mul hsize (by omega)
  have hstart : (spRegion g ulPsiSize kernelEnd).1.startBlk = spBlk n size ulPsiSize := by
    rw [spRegion_on hg hpsi hroom hk]
    split <;> rfl
  refine ⟨_, hd0, hdlt, hd1, ?_⟩
  simp only [dareRegion, haddr, uint32_of_range hdare (by omega), getBlk_offset hg hdare (by omega), hstart,
    psiLength_eq hpsi.1 hpsi.2, add_sub_cancel]
  rw [usedBlkSize_uniform hg hd0 hdlt.le (by omega)]

theorem regions_ordered :
    Ordered n (psiRegion g ulPsiSize) (spRegion g ulPsiSize kernelEnd).1 (dareRegion g ulPsiSize kernelEnd) := by
  obtain ⟨-, hn, -, -⟩ := psiBlk_bounds hg hpsi (by omega)
  obtain ⟨h0, hle, -, -⟩ := spBlk_bounds hg hroom
  obtain ⟨db, hd0, hdlt, -, hregion⟩ := dareRegion_on hg hpsi hroom hk hdare
  rw [hregion, spRegion_on hg hpsi hroom hk, psiRegion_uniform hg hpsi (by omega)]
  split_ifs <;> constructor <;> simp only [Region.endBlk] <;> omega

theorem dareRegion_fits (hlen : (dareRegion g ulPsiSize kernelEnd).length ≠ 0) :
    (dareRegion g ulPsiSize kernelEnd).Fits g := by
  obtain ⟨-, hn, -, -⟩ := psiBlk_bounds hg hpsi (by omega)
  obtain ⟨h0, hle, -, -⟩ := spBlk_bounds hg hroom
  obtain ⟨db, hd0, hdlt, hd1, hregion⟩ := dareRegion_on hg hpsi hroom hk hdare
  rw [hregion] at hlen ⊢
  by_cases hon : db ≠ kernelEnd
  · rw [if_pos hon]
    apply fits_uniform hg <;> simp only [Region.endBlk, add_sub_cancel] <;> omega
  · rw [if_neg hon] at hlen
    exact absurd rfl hlen

end

def smallSectors : Geometry := Geometry.uniform .spi 512 4096 (by decide) (by decide) (by decide)

def longTag : FileTag :=
  List.replicate 116 0 ++ [51, 50, 49, 55, 48, 57, 54, 57, 54, 48, 0, 0] ++ [50, 48, 48, 48, 48, 48, 48] ++
    List.replicate 121 0

theorem longTag_end : flashGetBlk smallSectors (kernelEndAddr smallSectors longTag) = 504 := by decide +kernel

theorem smallSectors_dare :
    (dareRegion smallSectors 24 504).startBlk = 500 ∧ (dareRegion smallSectors 24 504).numberBlk = 4 ∧
    (dareRegion smallSectors 24 504).length = 24576 ∧ (dareRegion smallSectors 24 504).blkOffset = -8192 := by
  decide +kernel

/-- A byte behind the NVRAM is written, and where the pad is given up for the end of an image, the window of the second
configuration starts before its sectors, so that its first byte is lost. -/
theorem stores_not_confined :
    ¬ Confined demoFlash (kerSysEarlyFlashInit demoFlash) .nvRam 1 1024 ∧
    (kerSysFlashInit smallSectors 24 (some longTag)).darePersistent.InFlash smallSectors ∧
    (kerSysFlashInit smallSectors 24 (some longTag)).darePersistent.blkOffset = -8192 ∧
    ¬ Confined smallSectors (kerSysFlashInit smallSectors 24 (some longTag)) .darePersistent 1 0 := by
  obtain ⟨hstart, hnumber, hlength, hoffset⟩ := smallSectors_dare
  have hsec : smallSectors.sec.length = 512 := Uniform.length (uniform_uniform _ _ _)
  have hin : (dareRegion smallSectors 24 504).InFlash smallSectors :=
    ⟨by omega, by omega, by rw [Region.endBlk]; omega⟩
  rw [kerSysFlashInit_some, longTag_end]
  dsimp only
  refine ⟨kerSysNvRamSet_past_window.2.2, hin, hoffset, ?_⟩
  rw [confined_iff_shared]
  dsimp only [Store.region, Store.limit]
  have hroom : ((1 : Nat) : Int) ≤ (dareRegion smallSectors 24 504).length := by omega
  exact not_shared_of_outside hin hroom 0 (by decide) (by omega)

end AliceModem.Layout
