import AliceModem.Board.InterruptedUpgrade
import AliceModem.Board.ImageEnd
import AliceModem.Lib.Transition

namespace AliceModem.StoredImages

open Words Hwdefs Sectors ByteMemory Device SharedBlks Regions Nvram ImageTag ImageSet Upgrade Layout BigEndian
  CompletedUpgrade InterruptedUpgrade ImageEnd Vsprintf Transition

variable (g : Geometry)

def InRegion (r : Region) (i : Int) : Prop := r.first g ≤ i ∧ i < r.first g + r.length

/-- The byte belongs to the image whose valid tag is in the partition `k`. -/
def InImage (m : Mem Byte) (k : Nat) (i : Int) : Prop :=
  ∃ t, getTagFromPartition g (kerSysEarlyFlashInit g) m k = some t ∧
    blkStart g (partitionBlk g (kerSysEarlyFlashInit g) k) ≤ i ∧ i < imageEnd t

def bootInfo (ulPsiSize : Nat) (m : Mem Byte) : FlashAddrInfo :=
  kerSysFlashInit g ulPsiSize (getBootImageTag g (kerSysEarlyFlashInit g) m)

structure Clear (info : FlashAddrInfo) (m : Mem Byte) : Prop where
  inside : ∀ r ∈ [info.persistent, info.scratchPad, info.darePersistent], r.length ≠ 0 → r.Fits g
  images : ∀ r ∈ [info.persistent, info.scratchPad, info.darePersistent], ∀ k i,
    InRegion g r i → ¬ InImage g m k i
  psi_sp : ∀ i, InRegion g info.persistent i → ¬ InRegion g info.scratchPad i
  psi_dare : ∀ i, InRegion g info.persistent i → ¬ InRegion g info.darePersistent i
  sp_dare : ∀ i, InRegion g info.scratchPad i → ¬ InRegion g info.darePersistent i

def dareStart (n size ulPsiSize : Nat) : Int := spBlk n size ulPsiSize * size - ulPsiSize * 1024

def GivenUp (n size ulPsiSize : Nat) (kernelEnd : Int) : Prop :=
  kernelEnd = spBlk n size ulPsiSize - 1 ∨
    kernelEnd = spBlk n size ulPsiSize ∧ spBlk n size ulPsiSize ≠ psiBlk n size ulPsiSize

/-- The booted image does not end in a sector that the scratch pad shares with
the PSI, and an image that ends behind the start of the second configuration is
stored only while the booted one ends in its sector or in that of the pad. -/
structure EndSectors (n size ulPsiSize : Nat) (m : Mem Byte) (t : FileTag) : Prop where
  booted : flashGetBlk g (kernelEndAddr g t) = spBlk n size ulPsiSize →
    spBlk n size ulPsiSize ≠ psiBlk n size ulPsiSize
  others : ∀ k u, getTagFromPartition g (kerSysEarlyFlashInit g) m k = some u →
    dareStart n size ulPsiSize < imageEnd u →
    flashGetBlk g (kernelEndAddr g t) = spBlk n size ulPsiSize - 1 ∨
      flashGetBlk g (kernelEndAddr g t) = spBlk n size ulPsiSize

/-- The stored images are longer than nothing and keep to the limits of the upgrade. -/
def Limited (m : Mem Byte) : Prop :=
  ∀ k t, getTagFromPartition g (kerSysEarlyFlashInit g) m k = some t →
    blkStart g (partitionBlk g (kerSysEarlyFlashInit g) k) < imageEnd t ∧
    imageEnd t ≤ flashGetTotalSize g - flashReservedAtEnd + tagLen

variable {g}

theorem partitionBlk_early {info : FlashAddrInfo} (hi : Initialised g info) (k : Nat) :
    partitionBlk g info k = partitionBlk g (kerSysEarlyFlashInit g) k := by
  rw [partitionBlk.eq_def, partitionBlk.eq_def, hi.rootfsStartOffset]

theorem partition_of_tag {m : Mem Byte} {k : Nat} {t : FileTag}
    (ht : getTagFromPartition g (kerSysEarlyFlashInit g) m k = some t) : k = 1 ∨ k = 2 := by
  by_contra hnot
  push Not at hnot
  rw [getTagFromPartition_other hnot.1 hnot.2] at ht
  cases ht

theorem getTagFromPartition_early {info : FlashAddrInfo} (hi : Initialised g info) (m : Mem Byte) (k : Nat) :
    getTagFromPartition g info m k = getTagFromPartition g (kerSysEarlyFlashInit g) m k := by
  rw [getTagFromPartition, getTagFromPartition, partitionBlk_early hi]

section

variable {n size ulPsiSize : Nat} (hg : Uniform g n size) (hsize : 65536 ≤ size)
  (hpsi : 1 ≤ ulPsiSize ∧ ulPsiSize ≤ 64)

include hg hsize hpsi

theorem psiRegion_range (i : Int) :
    InRegion g (psiRegion g ulPsiSize) i ↔ n * size - ulPsiSize * 1024 ≤ i ∧ i < n * size := by
  have hpos := hg.pos
  have hone : (1 : Int) * size ≤ n * size := mul_le_mul_of_nonneg_right (by omega) (by omega)
  obtain ⟨h0, hn, -, -⟩ := psiBlk_bounds hg hpsi (by omega)
  rw [InRegion, Region.first, psiRegion_uniform hg hpsi (by omega)]
  dsimp only
  rw [blkStart_uniform hg h0 hn.le]
  omega

theorem psiBlk_large : psiBlk n size ulPsiSize = n - 1 := by
  have hpos := hg.pos
  have hone : (1 : Int) * size ≤ n * size := mul_le_mul_of_nonneg_right (by omega) (by omega)
  obtain ⟨-, hlt, -, hnext⟩ := psiBlk_bounds hg hpsi (by omega)
  by_contra hne
  have hle : (psiBlk n size ulPsiSize + 1 + 1) * size ≤ n * size := mul_le_mul_of_nonneg_right (by omega) (by omega)
  rw [add_mul, add_mul, one_mul] at hle
  omega

variable (hroom : (ulPsiSize : Int) * 1024 + 8192 ≤ n * size)

include hroom

theorem spBlk_cases :
    (ulPsiSize * 1024 + 8192 ≤ size ∧ spBlk n size ulPsiSize = n - 1 ∧
      spBlk n size ulPsiSize * size = n * size - size) ∨
    (size < ulPsiSize * 1024 + 8192 ∧ spBlk n size ulPsiSize = n - 2 ∧
      spBlk n size ulPsiSize * size = n * size - 2 * size) := by
  obtain ⟨-, hle, hlow, hnext⟩ := spBlk_bounds hg hroom
  rw [psiBlk_large hg hsize hpsi] at hle
  have hmul {j : Int} (h : spBlk n size ulPsiSize = n - j) :
      spBlk n size ulPsiSize * size = n * size - j * size := by rw [h, sub_mul]
  by_cases hshare : ulPsiSize * 1024 + 8192 ≤ size
  · have hblk : spBlk n size ulPsiSize = n - 1 := by
      by_contra hne
      have hgap : (spBlk n size ulPsiSize + 1 + 1) * size ≤ n * size :=
        mul_le_mul_of_nonneg_right (by omega) (by omega)
      rw [add_mul, add_mul, one_mul] at hgap
      omega
    exact .inl ⟨hshare, hblk, by rw [hmul hblk, one_mul]⟩
  · have hblk : spBlk n size ulPsiSize = n - 2 := by
      by_contra hne
      rcases lt_or_gt_of_ne hne with hlt | hgt
      · have hgap : (spBlk n size ulPsiSize + 1 + 1 + 1) * size ≤ n * size :=
          mul_le_mul_of_nonneg_right (by omega) (by omega)
        rw [add_mul, add_mul, add_mul, one_mul] at hgap
        omega
      · have := hmul (show spBlk n size ulPsiSize = n - 1 by omega)
        omega
    exact .inr ⟨by omega, hblk, hmul hblk⟩

variable {kernelEnd : Int}

theorem spRegion_range {i : Int} (h : InRegion g (spRegion g ulPsiSize kernelEnd).1 i) :
    n * size - ulPsiSize * 1024 - 16384 ≤ i ∧ spBlk n size ulPsiSize * size ≤ i ∧ i < n * size - ulPsiSize * 1024 := by
  have hpos := hg.pos
  obtain ⟨hs0, hle, -, -⟩ := spBlk_bounds hg hroom
  have hcases := spBlk_cases hg hsize hpsi hroom
  have hpsi' := psiBlk_large hg hsize hpsi
  rw [InRegion, Region.first] at h
  by_cases hk : spBlk n size ulPsiSize = kernelEnd
  · rw [spRegion_off hg hpsi hroom hk] at h
    dsimp only at h
    omega
  · rw [spRegion_on hg hpsi hroom hk, hpsi', sub_mul, one_mul] at h
    split at h <;> dsimp only at h <;> rw [blkStart_uniform hg hs0 (by omega)] at h <;> omega

omit hsize in
theorem spRegion_startBlk : (spRegion g ulPsiSize kernelEnd).1.startBlk = spBlk n size ulPsiSize := by
  by_cases hk : spBlk n size ulPsiSize = kernelEnd
  · rw [spRegion_off hg hpsi hroom hk, hk]
  · rw [spRegion_on hg hpsi hroom hk]
    split <;> rfl

variable (hsp : 1 ≤ spBlk n size ulPsiSize)

include hsp

omit hroom hsp in
theorem getBlk_before {b : Int} (hl : 1 ≤ b) (hu : b ≤ n) :
    flashGetBlk g (uint32 (b * size - ulPsiSize * 1024) + g.flashBase) = b - 1 := by
  have htotal := hg.total_lt
  have hlow : 1 * (size : Int) ≤ b * size := mul_le_mul_of_nonneg_right hl (by omega)
  have hhigh : b * size ≤ n * size := mul_le_mul_of_nonneg_right hu (by omega)
  rw [uint32_of_range (by omega) (by omega), getBlk_offset hg (by omega) (by omega),
    show b * size - ulPsiSize * 1024 = (size - ulPsiSize * 1024) + (b - 1) * size by rw [sub_mul]; omega,
    Int.add_mul_ediv_right _ _ (by omega), Int.ediv_eq_zero_of_lt (by omega) (by omega), zero_add]

variable (kernelEnd) in
theorem dareAddr_large :
    ∃ b : Int, 1 ≤ b ∧ b ≤ n ∧ dareAddr g ulPsiSize kernelEnd = b * size - ulPsiSize * 1024 ∧
      (GivenUp n size ulPsiSize kernelEnd ↔ b - 1 = kernelEnd) ∧
      (b - 1 ≠ kernelEnd → b = spBlk n size ulPsiSize) := by
  have hblk := psiBlk_large hg hsize hpsi
  have hcases := spBlk_cases hg hsize hpsi hroom
  obtain ⟨h0, hn, -, -⟩ := psiBlk_bounds hg hpsi (by omega)
  rw [dareAddr, hg.totalSize, psiLength_eq hpsi.1 hpsi.2, GivenUp]
  by_cases hk : spBlk n size ulPsiSize = kernelEnd
  · have htail : tailSize g ulPsiSize kernelEnd = n * size - psiBlk n size ulPsiSize * size := by
      simp only [tailSize, psiRegion_uniform hg hpsi (by omega), Region.endBlk, add_sub_cancel,
        usedBlkSize_uniform hg h0 hn.le le_rfl, spRegion_off hg hpsi hroom hk, add_zero]
    exact ⟨psiBlk n size ulPsiSize, by omega, by omega, by rw [htail]; omega, by omega, by omega⟩
  · exact ⟨spBlk n size ulPsiSize, hsp, by omega, by rw [tailSize_on hg hpsi hroom hk]; omega, by omega, by omega⟩

theorem dareRegion_off (h : GivenUp n size ulPsiSize kernelEnd) : (dareRegion g ulPsiSize kernelEnd).length = 0 := by
  obtain ⟨b, hl, hu, haddr, hup, -⟩ := dareAddr_large hg hsize hpsi hroom kernelEnd hsp
  simp only [dareRegion, haddr, getBlk_before hg hsize hpsi hl hu, hup.mp h, ne_eq, not_true_eq_false, if_false]

theorem dareRegion_large (h : ¬ GivenUp n size ulPsiSize kernelEnd) : dareRegion g ulPsiSize kernelEnd =
    ⟨spBlk n size ulPsiSize - 1, 1, ulPsiSize * 1024, size - ulPsiSize * 1024⟩ := by
  obtain ⟨b, hl, hu, haddr, hup, hon⟩ := dareAddr_large hg hsize hpsi hroom kernelEnd hsp
  have hne : b - 1 ≠ kernelEnd := fun he => h (hup.mpr he)
  obtain rfl := hon hne
  simp only [dareRegion, haddr, getBlk_before hg hsize hpsi hl hu, spRegion_startBlk hg hpsi hroom, hne, ne_eq,
    not_false_eq_true, if_true, psiLength_eq hpsi.1 hpsi.2, sub_sub_cancel, sub_add_cancel]
  rw [usedBlkSize_uniform hg (by omega) (by omega) hu, sub_mul, one_mul, sub_sub_cancel]

theorem dareRegion_range (i : Int) : InRegion g (dareRegion g ulPsiSize kernelEnd) i ↔
    ¬ GivenUp n size ulPsiSize kernelEnd ∧ dareStart n size ulPsiSize ≤ i ∧ i < spBlk n size ulPsiSize * size := by
  rw [InRegion, Region.first]
  by_cases h : GivenUp n size ulPsiSize kernelEnd
  · rw [dareRegion_off hg hsize hpsi hroom hsp h]
    refine iff_of_false ?_ fun hand => hand.1 h
    omega
  · have hcases := spBlk_cases hg hsize hpsi hroom
    rw [dareRegion_large hg hsize hpsi hroom hsp h, dareStart]
    dsimp only
    rw [blkStart_uniform hg (by omega) (by omega), sub_mul, one_mul, and_iff_right h]
    omega

theorem dareRegion_inside (h : (dareRegion g ulPsiSize kernelEnd).length ≠ 0) :
    (dareRegion g ulPsiSize kernelEnd).Fits g := by
  have hup : ¬ GivenUp n size ulPsiSize kernelEnd := fun hup => h (dareRegion_off hg hsize hpsi hroom hsp hup)
  have hcases := spBlk_cases hg hsize hpsi hroom
  rw [dareRegion_large hg hsize hpsi hroom hsp hup]
  apply fits_uniform hg <;> simp only [Region.endBlk, sub_add_cancel, sub_mul, one_mul] <;> omega

end

section

variable {n size ulPsiSize : Nat} (hg : Uniform g n size) (hsize : 65536 ≤ size)

include hg hsize

theorem end_bounds {m : Mem Byte} (hlim : Limited g m) {k : Nat} {t : FileTag}
    (ht : getTagFromPartition g (kerSysEarlyFlashInit g) m k = some t) :
    flashGetBlk g (kernelEndAddr g t) * size ≤ imageEnd t ∧
      imageEnd t < flashGetBlk g (kernelEndAddr g t) * size + size := by
  have hlast := (hlim k t ht).2
  simp only [hg.totalSize, flashReservedAtEnd, tagLen] at hlast
  rw [kernelEnd_offset, getBlk_offset hg (by omega) (by omega)]
  exact (blk_bounds (by omega) (by omega)).2

variable (hn : 3 ≤ n)

include hn

theorem partitionBlk_first : partitionBlk g (kerSysEarlyFlashInit g) 1 = 1 := by
  have hthree : (3 : Int) * size ≤ n * size := mul_le_mul_of_nonneg_right (by omega) (by omega)
  have hfirst : (kerSysEarlyFlashInit g).rootfsStartOffset = size := rootfsStart_uniform hg hsize ⟨rfl, rfl⟩
  rw [partitionBlk, memptr_zero, hfirst, add_comm, getBlk_offset hg (by omega) (by omega), Int.ediv_self (by omega)]

theorem partition_start {m : Mem Byte} {k : Nat} {t : FileTag}
    (ht : getTagFromPartition g (kerSysEarlyFlashInit g) m k = some t) :
    1 ≤ partitionBlk g (kerSysEarlyFlashInit g) k ∧ 2 * (partitionBlk g (kerSysEarlyFlashInit g) k * size) ≤ n * size ∧
      blkStart g (partitionBlk g (kerSysEarlyFlashInit g) k) = partitionBlk g (kerSysEarlyFlashInit g) k * size := by
  have hthree : (3 : Int) * size ≤ n * size := mul_le_mul_of_nonneg_right (by omega) (by omega)
  obtain ⟨hne, -⟩ := getTagFromPartition_eq_some.mp ht
  have hlt : partitionBlk g (kerSysEarlyFlashInit g) k < g.sec.length := partitionBlk_lt k
  rw [hg.length] at hlt
  rcases partition_of_tag ht with rfl | rfl
  · rw [partitionBlk_first hg hsize hn, blkStart_uniform hg (by omega) (by omega)]
    omega
  · have hblk : partitionBlk g (kerSysEarlyFlashInit g) 2 = n * size / 2 / size := by
      rw [partitionBlk, memptr_zero, hg.totalSize, add_comm, getBlk_offset hg (by omega) (by omega)]
    obtain ⟨h0, h1, -⟩ := blk_bounds (show (0 : Int) < size by omega) (show (0 : Int) ≤ n * size / 2 by omega)
    rw [← hblk] at h0 h1
    exact ⟨by omega, by omega, blkStart_uniform hg h0 (by omega)⟩

variable (hpsi : 1 ≤ ulPsiSize ∧ ulPsiSize ≤ 64)

include hpsi

theorem partition_before {m : Mem Byte} (hlim : Limited g m) {j k : Nat} {t u : FileTag}
    (ht : getTagFromPartition g (kerSysEarlyFlashInit g) m j = some t)
    (hup : ¬ GivenUp n size ulPsiSize (flashGetBlk g (kernelEndAddr g t)))
    (hu : getTagFromPartition g (kerSysEarlyFlashInit g) m k = some u) :
    blkStart g (partitionBlk g (kerSysEarlyFlashInit g) k) < spBlk n size ulPsiSize * size := by
  have hthree : (3 : Int) * size ≤ n * size := mul_le_mul_of_nonneg_right (by omega) (by omega)
  obtain ⟨-, hhalf, hstart⟩ := partition_start hg hsize hn hu
  rw [hstart]
  rcases spBlk_cases hg hsize hpsi (by omega) with ⟨-, -, hmul⟩ | ⟨hlarge, hblk, hmul⟩
  · omega
  -- with a sector of its own the pad leaves no room for a third one before the half
  · obtain ⟨hlow, hhigh⟩ := end_bounds hg hsize hlim ht
    obtain ⟨hlong, hlast⟩ := hlim j t ht
    obtain ⟨hpos, -, hstart'⟩ := partition_start hg hsize hn ht
    have hone : (1 : Int) * size ≤ partitionBlk g (kerSysEarlyFlashInit g) j * size :=
      mul_le_mul_of_nonneg_right hpos (by omega)
    rw [GivenUp, psiBlk_large hg hsize hpsi, hblk] at hup
    rw [hstart'] at hlong
    simp only [hg.totalSize, flashReservedAtEnd, tagLen] at hlast
    generalize flashGetBlk g (kernelEndAddr g t) = e at *
    have hlt : e < n - 1 := by
      by_contra hge
      have : ((n : Int) - 1) * size ≤ e * size := mul_le_mul_of_nonneg_right (by omega) (by omega)
      rw [sub_mul] at this
      omega
    have : (e + 1) * size ≤ ((n : Int) - 3) * size := mul_le_mul_of_nonneg_right (by omega) (by omega)
    rw [sub_mul, add_mul] at this
    omega

theorem clear_iff {m : Mem Byte} (hlim : Limited g m) {j : Nat} {t : FileTag}
    (ht : getTagFromPartition g (kerSysEarlyFlashInit g) m j = some t) :
    Clear g (kerSysFlashInit g ulPsiSize (some t)) m ↔ EndSectors g n size ulPsiSize m t := by
  have hthree : (3 : Int) * size ≤ n * size := mul_le_mul_of_nonneg_right (by omega) (by omega)
  have hroom : (ulPsiSize : Int) * 1024 + 8192 ≤ n * size := by omega
  have hcases := spBlk_cases hg hsize hpsi hroom
  have hsp : 1 ≤ spBlk n size ulPsiSize := by omega
  have hends := end_bounds hg hsize hlim ht
  have hbefore {k : Nat} {u : FileTag} := partition_before (k := k) (u := u) hg hsize hn hpsi hlim ht
  rw [kerSysFlashInit_some]
  set kernelEnd := flashGetBlk g (kernelEndAddr g t) with hkernel
  have hd (i : Int) : InRegion g (dareRegion g ulPsiSize kernelEnd) i ↔ ¬ GivenUp n size ulPsiSize kernelEnd ∧
      dareStart n size ulPsiSize ≤ i ∧ i < spBlk n size ulPsiSize * size :=
    dareRegion_range hg hsize hpsi hroom hsp i
  constructor
  · intro hclear
    have himage {k : Nat} {i : Int} (h : InRegion g (dareRegion g ulPsiSize kernelEnd) i) : ¬ InImage g m k i :=
      hclear.images _ (by simp) k i h
    refine ⟨fun he hshare => ?_, fun k u hu hlate => ?_⟩
    · -- the last byte of the second configuration belongs to the booted image
      have hup : ¬ GivenUp n size ulPsiSize kernelEnd := by
        rw [GivenUp]
        omega
      have hstart := hbefore hup ht
      rw [hkernel, he] at hends
      refine himage ((hd (spBlk n size ulPsiSize * size - 1)).mpr ⟨hup, ?_, by omega⟩) ⟨t, ht, by omega, by omega⟩
      rw [dareStart]
      omega
    · by_contra hnot
      have hup : ¬ GivenUp n size ulPsiSize kernelEnd := fun h => hnot (h.imp_right And.left)
      have hstart := hbefore hup hu
      have hlong := (hlim k u hu).1
      have hfirst : dareStart n size ulPsiSize < spBlk n size ulPsiSize * size := by
        rw [dareStart]
        omega
      exact himage ((hd _).mpr ⟨hup, le_max_left _ _, max_lt hfirst hstart⟩)
        ⟨u, hu, le_max_right _ _, max_lt hlate hlong⟩
  · intro hsect
    have hfree (hup : ¬ GivenUp n size ulPsiSize kernelEnd) {k : Nat} {u : FileTag}
        (hu : getTagFromPartition g (kerSysEarlyFlashInit g) m k = some u) :
        imageEnd u ≤ dareStart n size ulPsiSize := by
      by_contra hlate
      rcases hsect.others k u hu (by omega) with he | he
      · exact hup (.inl he)
      · exact hup (.inr ⟨he, hsect.booted he⟩)
    have hp {i : Int} (h : InRegion g (psiRegion g ulPsiSize) i) := (psiRegion_range hg hsize hpsi i).mp h
    have hs {i : Int} (h : InRegion g (spRegion g ulPsiSize kernelEnd).1 i) := spRegion_range hg hsize hpsi hroom h
    refine ⟨?_, ?_, fun i h h' => ?_, fun i h h' => ?_, fun i h h' => ?_⟩
    · simp only [List.mem_cons, List.not_mem_nil, or_false]
      rintro r (rfl | rfl | rfl) hlen
      · exact psiRegion_fits hg hpsi (by omega)
      · refine spRegion_fits hg hpsi hroom (by omega) fun hk => hlen ?_
        rw [spRegion_off hg hpsi hroom hk]
      · exact dareRegion_inside hg hsize hpsi hroom hsp hlen
    · simp only [List.mem_cons, List.not_mem_nil, or_false]
      rintro r hr k i h ⟨u, hu, -, hend⟩
      have hlast := (hlim k u hu).2
      simp only [hg.totalSize, flashReservedAtEnd, tagLen] at hlast
      rcases hr with rfl | rfl | rfl
      · have := hp h
        omega
      · have := hs h
        omega
      · obtain ⟨hup, hlow, -⟩ := (hd i).mp h
        have := hfree hup hu
        omega
    · have := hp h
      have := hs h'
      omega
    · have := hp h
      have := (hd i).mp h'
      omega
    · have := hs h
      have := (hd i).mp h'
      omega

end

theorem clear_none {n size ulPsiSize : Nat} (hg : Uniform g n size) (hsize : 65536 ≤ size)
    (hpsi : 1 ≤ ulPsiSize ∧ ulPsiSize ≤ 64) {m : Mem Byte}
    (hnone : ∀ k, getTagFromPartition g (kerSysEarlyFlashInit g) m k = none) :
    Clear g (kerSysFlashInit g ulPsiSize none) m := by
  have hpos := hg.pos
  have hone : (1 : Int) * size ≤ n * size := mul_le_mul_of_nonneg_right (by omega) (by omega)
  have hempty (i : Int) : ¬ InRegion g ⟨0, 0, 0, 0⟩ i := by
    rintro ⟨h1, h2⟩
    dsimp only at h2
    omega
  simp only [kerSysFlashInit, kerSysEarlyFlashInit]
  refine ⟨?_, fun r _ k i _ => ?_, fun i _ => hempty i, fun i _ => hempty i, fun i h => absurd h (hempty i)⟩
  · simp only [List.mem_cons, List.not_mem_nil, or_false]
    rintro r (rfl | rfl | rfl) hlen
    · exact psiRegion_fits hg hpsi (by omega)
    · exact absurd rfl hlen
    · exact absurd rfl hlen
  · rintro ⟨t, ht, -⟩
    rw [hnone k] at ht
    cases ht

theorem no_tag_of_no_boot {m : Mem Byte} (hboot : getBootImageTag g (kerSysEarlyFlashInit g) m = none) (k : Nat) :
    getTagFromPartition g (kerSysEarlyFlashInit g) m k = none := by
  rw [getBootImageTag] at hboot
  rcases bootImage_cases g (kerSysEarlyFlashInit g) m with ⟨h1, h2, -⟩ | ⟨t, ht, hb⟩ | ⟨t, ht, hb, -⟩
  · exact getTagFromPartition_none h1 h2 k
  · rw [hb, ht] at hboot
    cases hboot
  · rw [hb, ht] at hboot
    cases hboot

/-- An image that starts before the reserved space, and that does not lay a valid
tag over the one in the middle of the flash. -/
structure Suits (g : Geometry) (info : FlashAddrInfo) (imagePtr : Mem Byte) (p : Plan) : Prop where
  packed : Packed (tagOf imagePtr)
  starts : imageOffset info (tagOf imagePtr) + tagLen + flashReservedAtEnd ≤ flashGetTotalSize g
  middle : flashGetBlk g p.dest < partitionBlk g info 2 →
    blkStart g (flashGetBlk g p.dest) + p.size ≤ blkStart g (partitionBlk g info 2) ∨
    blkStart g (partitionBlk g info 2) + tagLen ≤ blkStart g (flashGetBlk g p.dest) + p.size ∧
      tagCrc (readBytes imagePtr (blkStart g (partitionBlk g info 2) - blkStart g (flashGetBlk g p.dest)) 256) ≠
        tagValidationToken
          (readBytes imagePtr (blkStart g (partitionBlk g info 2) - blkStart g (flashGetBlk g p.dest)) 256)

def UpgradeStep (g : Geometry) (ulPsiSize : Nat) (m m' : Mem Byte) : Prop :=
  ∃ pTag imagePtr p, plan g (kerSysFlashInit g ulPsiSize pTag) m imagePtr = some p ∧
    Suits g (kerSysFlashInit g ulPsiSize pTag) imagePtr p ∧
    (flashFsKernelImage g (kerSysFlashInit g ulPsiSize pTag) (fresh m) imagePtr).1 = some 0 ∧
    m' = (flashFsKernelImage g (kerSysFlashInit g ulPsiSize pTag) (fresh m) imagePtr).2.mem

theorem limited_step {n size ulPsiSize : Nat} (hg : Uniform g n size) (hsize : size = 65536 ∨ 131072 ≤ size)
    (hn : 3 ≤ n) {m m' : Mem Byte} (hlim : Limited g m) (hstep : UpgradeStep g ulPsiSize m m') : Limited g m' := by
  obtain ⟨pTag, imagePtr, p, hplan, ⟨hpacked, hstart, hmiddle⟩, hrun, rfl⟩ := hstep
  have hi := kerSysFlashInit_initialised g ulPsiSize pTag
  have hpsi := @persistent_nonneg g ulPsiSize pTag
  generalize kerSysFlashInit g ulPsiSize pTag = info at *
  obtain ⟨hfirst, hsize', hlong, hlast⟩ := plan_within hg hsize hi hplan hpacked hstart
  have hblk := plan_blk hi hplan
  rw [hg.totalSize] at hlast
  simp only [flashReservedAtEnd, tagLen] at hlast hlong hmiddle
  generalize destOffset g info m (tagOf imagePtr) = off at *
  obtain ⟨-, hlow, -⟩ := flashGetBlk_offset (g := g) off (by omega) (by rw [hg.totalSize]; omega)
  have hpos : 1 ≤ flashGetBlk g p.dest := by
    rw [hblk, add_comm, getBlk_offset hg (by omega) (by omega)]
    exact Int.le_ediv_of_mul_le (by omega) (by omega)
  rw [← hblk] at hlow
  have hdone := upgrade_completed hi hpsi hplan (by omega) (by omega) hrun
  generalize (flashFsKernelImage g info (fresh m) imagePtr).2.mem = m' at *
  intro k t ht
  obtain ⟨hk1, -, hstart'⟩ := partition_start hg (by omega) hn ht
  rw [partitionBlk_early hi] at hmiddle
  have hlt : partitionBlk g (kerSysEarlyFlashInit g) k < g.sec.length := partitionBlk_lt k
  obtain ⟨-, hread, hvalid⟩ := getTagFromPartition_eq_some.mp ht
  rw [flashReadBuf_blk _ (by omega) hlt] at hread
  have hone := blkStart_mono (g := g) hk1
  have hsect := flashGetSectorSize_ge (g := g) (by omega) hlt
  have hnext := blkStart_succ (g := g) (by omega) hlt
  -- a tag that was not written is the one from before
  have hkept (hoff : ∀ i, blkStart g (partitionBlk g (kerSysEarlyFlashInit g) k) ≤ i →
      i < blkStart g (partitionBlk g (kerSysEarlyFlashInit g) k) + 256 →
      i < blkStart g (flashGetBlk g p.dest) ∨ ∃ c, flashGetBlk g p.dest < c ∧ c ≤ g.sec.length ∧
        blkStart g (flashGetBlk g p.dest) + p.size ≤ blkStart g c ∧ blkStart g c ≤ i) :
      getTagFromPartition g (kerSysEarlyFlashInit g) m k = some t := by
    rw [← ht]
    symm
    exact getTagFromPartition_kept (by omega) hlt fun i h1 h2 => hdone.kept i (by omega) (hoff i h1 h2)
  rcases lt_trichotomy (partitionBlk g (kerSysEarlyFlashInit g) k) (flashGetBlk g p.dest) with hlt' | hsame | hgt
  · have hmono := blkStart_mono (g := g)
      (show partitionBlk g (kerSysEarlyFlashInit g) k + 1 ≤ flashGetBlk g p.dest by omega)
    exact hlim k t (hkept fun i _ h2 => .inl (by omega))
  · have htag : t = tagOf p.image := by
      rw [hread]
      apply readBytes_congr
      intro i h
      rw [hsame, hdone.copied _ (by omega) (by omega), add_sub_cancel_left, zero_add]
    rw [htag, hsame, hg.totalSize]
    simp only [flashReservedAtEnd, tagLen]
    omega
  · obtain rfl : k = 2 := by
      rcases partition_of_tag ht with rfl | rfl
      · rw [partitionBlk_first hg (by omega) hn] at hgt
        omega
      · rfl
    rcases hmiddle hgt with hbehind | ⟨hover, hinvalid⟩
    · exact hlim 2 t (hkept fun i h1 _ => .inr ⟨_, hgt, hlt.le, hbehind, h1⟩)
    · have hmono := blkStart_mono (g := g)
        (show flashGetBlk g p.dest + 1 ≤ partitionBlk g (kerSysEarlyFlashInit g) 2 by omega)
      have hwide := flashGetSectorSize_ge (g := g) (show 0 ≤ flashGetBlk g p.dest by omega) (by omega)
      have hsucc := blkStart_succ (g := g) (show 0 ≤ flashGetBlk g p.dest by omega) (by omega)
      have htag : t = readBytes imagePtr
          (blkStart g (partitionBlk g (kerSysEarlyFlashInit g) 2) - blkStart g (flashGetBlk g p.dest)) 256 := by
        rw [hread]
        apply readBytes_congr
        intro i h
        rw [hdone.copied _ (by omega) (by omega), plan_outside hi hplan (by omega)]
        exact congrArg imagePtr (by omega)
      rw [htag] at hvalid
      exact absurd hvalid hinvalid

/-- In every flash content that upgrades lead to, the regions found at the next
initialisation are clear of the stored images and of each other exactly if the
images end in the sectors that leave the second configuration alone. -/
theorem regions_clear_iff {n size ulPsiSize : Nat} (hg : Uniform g n size) (hsize : ∃ j, size = 65536 * 2 ^ j)
    (hn : 3 ≤ n) (hpsi : 1 ≤ ulPsiSize ∧ ulPsiSize ≤ 64) {m : Mem Byte}
    (h : Reach (Limited g) (UpgradeStep g ulPsiSize) m) :
    Clear g (bootInfo g ulPsiSize m) m ↔
      ∀ t, getBootImageTag g (kerSysEarlyFlashInit g) m = some t → EndSectors g n size ulPsiSize m t := by
  have hpow : size = 65536 ∨ 131072 ≤ size := by
    obtain ⟨_ | j, rfl⟩ := hsize
    · exact .inl rfl
    · have hpos := Nat.two_pow_pos j
      rw [pow_succ]
      omega
  have hlim : Limited g m := h.invariant (fun _ h0 => h0) fun _ _ hb hs => limited_step hg hpow hn hb hs
  rw [bootInfo]
  rcases hboot : getBootImageTag g (kerSysEarlyFlashInit g) m with _ | t
  · refine iff_of_true (clear_none hg (by omega) hpsi (no_tag_of_no_boot hboot)) ?_
    intro t ht
    cases ht
  · rw [clear_iff hg (by omega) hn hpsi hlim hboot]
    constructor
    · intro hsect u hu
      rwa [← Option.some.inj hu]
    · intro hsect
      exact hsect t rfl

theorem erased_boot (hg : 0 < partitionBlk g (erasedInfo g) 1 ∧ 0 ≤ partitionBlk g (erasedInfo g) 2) (k : Nat) :
    getTagFromPartition g (erasedInfo g) (fun _ => 0xff) k = none :=
  getTagFromPartition_none (erased_tag_invalid hg.1.le fun _ _ => rfl) (erased_tag_invalid hg.2 fun _ _ => rfl) k

theorem erased_plan (hg : 0 < partitionBlk g (erasedInfo g) 1 ∧ 0 ≤ partitionBlk g (erasedInfo g) 2)
    {imagePtr : Mem Byte} {len : Nat} (himg : imgSize (tagOf imagePtr) = len) (hlen : len < 2147483392)
    (hone : len ≤ availableSizeOneImg g (erasedInfo g) (tagOf imagePtr))
    (hoff : rootfsOffset (tagOf imagePtr) = (erasedInfo g).rootfsStartOffset) :
    ∃ p, plan g (erasedInfo g) (fun _ => 0xff) imagePtr = some p ∧
      flashGetBlk g p.dest = partitionBlk g (erasedInfo g) 1 ∧ p.size = 256 + len ∧
      p.image = signTag (patch imagePtr 138 (sprintfD 1)) := by
  have hi : Initialised g (erasedInfo g) := kerSysFlashInit_initialised _ _ _
  have hboot : bootImage g (erasedInfo g) (fun _ => 0xff) = 0 :=
    bootImage_none (erased_boot hg 1) (erased_boot hg 2)
  have hnumber : updateImageSequenceNumber g (erasedInfo g) (fun _ => 0xff) = 1 := by
    simp only [updateImageSequenceNumber, erased_boot hg]
    rfl
  obtain ⟨p, hp⟩ := plan_of_le (m := fun _ => (0xff : Byte)) (himg.trans_le hone)
  refine ⟨p, hp, ?_, ?_, ?_⟩
  · rw [plan_partition hi hp hoff.le, hboot]
    simp
  · rw [(plan_spec hi hp).2.2.1, himg]
    exact int32_of_range (by simp only [tagLen]; omega) (by simp only [tagLen]; omega)
  · rw [plan_image_kept hi hp (by rw [hboot]; decide) hoff.ge, hnumber]

def kernelImage (len addr : Nat) : Mem Byte :=
  patch (patch (patch (fun _ => 0) 94 (sprintfLu addr)) 116 (sprintfLu addr)) 128 (sprintfLu len)

def largeSectors : Geometry := sectors128 16 (by decide)

theorem largeSectors_blks : partitionBlk largeSectors (erasedInfo largeSectors) 1 = 1 ∧
    partitionBlk largeSectors (erasedInfo largeSectors) 2 = 8 ∧ blkStart largeSectors 1 = 131072 ∧
    blkStart largeSectors 8 = 1048576 ∧ flashGetTotalSize largeSectors = 2097152 ∧
    blkStart largeSectors (erasedInfo largeSectors).persistent.startBlk = 1966080 := by decide

theorem largeSectors_dare : (dareRegion largeSectors 24 15).first largeSectors = 1941504 ∧
    (dareRegion largeSectors 24 15).length = 24576 := by decide

theorem kernelImage_zero (len addr : Nat) {i : Int} (h : 256 ≤ i) : kernelImage len addr i = 0 := by
  have hlen := length_sprintfLu_le len
  have haddr := length_sprintfLu_le addr
  rw [kernelImage, patch_outside _ _ _ _ (.inr (by omega)), patch_outside _ _ _ _ (.inr (by omega)),
    patch_outside _ _ _ _ (.inr (by omega))]

theorem largeSectors_upgrade (len : Nat) (hlen : 917504 ≤ len ∧ len ≤ 1834752)
    (himg : imgSize (tagOf (kernelImage len 3217162496)) = len)
    (hoff : rootfsOffset (tagOf (kernelImage len 3217162496)) = (erasedInfo largeSectors).rootfsStartOffset) :
    ∃ p f, plan largeSectors (erasedInfo largeSectors) (fun _ => 0xff) (kernelImage len 3217162496) = some p ∧
      flashGetBlk largeSectors p.dest = 1 ∧ p.size = 256 + len ∧
      flashFsKernelImage largeSectors (erasedInfo largeSectors) (fresh fun _ => 0xff)
        (kernelImage len 3217162496) = (some 0, f) ∧
      getTagFromPartition largeSectors (kerSysEarlyFlashInit largeSectors) f.mem 1 =
        some (tagOf (signTag (patch (kernelImage len 3217162496) 138 (sprintfD 1)))) ∧
      getBootImageTag largeSectors (kerSysEarlyFlashInit largeSectors) f.mem =
        some (tagOf (signTag (patch (kernelImage len 3217162496) 138 (sprintfD 1)))) := by
  obtain ⟨hfirst, hsecond, hstart1, hstart2, htotal, hpsiStart⟩ := largeSectors_blks
  have hi : Initialised largeSectors (erasedInfo largeSectors) := kerSysFlashInit_initialised _ _ _
  have hroom : len ≤ availableSizeOneImg largeSectors (erasedInfo largeSectors)
      (tagOf (kernelImage len 3217162496)) := by
    rw [availableSizeOneImg_eq hi, imageOffset, hoff, max_self]
    exact hlen.2.trans (by decide)
  obtain ⟨p, hp, hblk, hsize, himage⟩ := erased_plan (g := largeSectors) (by omega) himg (by omega) hroom hoff
  rw [hfirst] at hblk
  have hrun : (flashFsKernelImage largeSectors (erasedInfo largeSectors) (fresh fun _ => 0xff)
      (kernelImage len 3217162496)).1 = some 0 := by
    refine flashFsKernelImage_below hp hblk hsize ?_
    rw [hstart1, htotal, hpsiStart]
    omega
  have hdone := upgrade_completed hi (persistent_nonneg none) hp (by omega) (by omega) hrun
  refine ⟨p, _, hp, hblk, hsize, Prod.ext hrun rfl, ?_⟩
  generalize (flashFsKernelImage largeSectors (erasedInfo largeSectors) (fresh fun _ => 0xff)
    (kernelImage len 3217162496)).2.mem = m' at hdone ⊢
  have hcopied := hdone.copied
  rw [hblk, hstart1, hsize] at hcopied
  have htag : getTagFromPartition largeSectors (kerSysEarlyFlashInit largeSectors) m' 1 = some (tagOf p.image) := by
    rw [← getTagFromPartition_early hi]
    apply getTagFromPartition_copied (by omega) (partitionBlk_lt 1) (plan_valid hi hp)
    intro i h
    rw [hfirst, hstart1, hcopied _ (by omega) (by omega), add_sub_cancel_left]
  have hnone : getTagFromPartition largeSectors (kerSysEarlyFlashInit largeSectors) m' 2 = none := by
    rw [← getTagFromPartition_early hi]
    apply constant_tag_invalid (v := 0) (by omega) (by decide +kernel)
    intro i h
    rw [hsecond, hstart2, hcopied _ (by omega) (by omega), plan_outside hi hp (by omega),
      kernelImage_zero _ _ (by omega)]
  rw [← himage, getBootImageTag, bootImage_only (.inl ⟨rfl, rfl⟩) htag hnone, htag]
  exact ⟨rfl, rfl⟩

theorem kernelImage_ends :
    imageEnd (tagOf (signTag (patch (kernelImage 1834752 3217162496) 138 (sprintfD 1)))) = 1966080 ∧
    imageEnd (tagOf (signTag (patch (kernelImage 1834751 3217162496) 138 (sprintfD 1)))) = 1966079 ∧
    flashGetBlk largeSectors (1966080 + largeSectors.flashBase) = 15 ∧
    flashGetBlk largeSectors (1966079 + largeSectors.flashBase) = 14 :=
  ⟨by decide, by decide, by decide, by decide⟩

theorem largeSectors_uniform : Uniform largeSectors 16 131072 := by
  rw [largeSectors, sectors128]
  exact uniform_uniform _ _ _

theorem regions_clear_short :
    Reach (Limited largeSectors) (UpgradeStep largeSectors 24)
      (flashFsKernelImage largeSectors (erasedInfo largeSectors) (fresh fun _ => 0xff)
        (kernelImage 1834751 3217162496)).2.mem ∧
    Clear largeSectors
      (bootInfo largeSectors 24 (flashFsKernelImage largeSectors (erasedInfo largeSectors) (fresh fun _ => 0xff)
        (kernelImage 1834751 3217162496)).2.mem)
      (flashFsKernelImage largeSectors (erasedInfo largeSectors) (fresh fun _ => 0xff)
        (kernelImage 1834751 3217162496)).2.mem := by
  obtain ⟨hfirst, hsecond, hstart1, hstart2, -⟩ := largeSectors_blks
  obtain ⟨-, hend, -, hblk14⟩ := kernelImage_ends
  obtain ⟨p, f, hp, hblk, hsize, hrun, -, hboot⟩ := largeSectors_upgrade 1834751 (by decide) (by decide) (by decide)
  rw [hrun]
  have hsuits : Suits largeSectors (erasedInfo largeSectors) (kernelImage 1834751 3217162496) p := by
    refine ⟨⟨by decide, by decide⟩, by decide, fun _ => .inr ?_⟩
    rw [hblk, hsecond, hstart1, hstart2, hsize, readBytes_replicate fun i _ => kernelImage_zero _ _ (by omega)]
    exact ⟨by decide, by decide +kernel⟩
  have hblank : Limited largeSectors fun _ => 0xff := by
    intro k t ht
    rw [← getTagFromPartition_early (show Initialised largeSectors (erasedInfo largeSectors) from
      kerSysFlashInit_initialised _ _ _), erased_boot (by omega)] at ht
    cases ht
  rw [erasedInfo] at hp hsuits hrun
  have hstep : UpgradeStep largeSectors 24 (fun _ => 0xff) f.mem :=
    ⟨none, _, p, hp, hsuits, by rw [hrun], by rw [hrun]⟩
  have hreach := (Reach.start hblank).next hstep
  have hpow : ∃ j, 131072 = 65536 * 2 ^ j := ⟨1, by norm_num⟩
  have hiff := regions_clear_iff largeSectors_uniform hpow (by decide) (by decide) hreach
  refine ⟨hreach, hiff.mpr fun t ht => ?_⟩
  obtain rfl := Option.some.inj (hboot.symm.trans ht)
  have hsector : flashGetBlk largeSectors (kernelEndAddr largeSectors
      (tagOf (signTag (patch (kernelImage 1834751 3217162496) 138 (sprintfD 1))))) = 14 := by
    rw [kernelEnd_offset, hend, Nat.cast_ofNat, hblk14]
  refine ⟨fun he => ?_, fun _ _ _ _ => .inl ?_⟩
  · rw [hsector] at he
    exact absurd he (by decide)
  · rw [hsector]
    decide

theorem dare_region_in_image :
    (flashFsKernelImage largeSectors (erasedInfo largeSectors) (fresh fun _ => 0xff)
      (kernelImage 1834752 3217162496)).1 = some 0 ∧
    ¬ Clear largeSectors
      (bootInfo largeSectors 24 (flashFsKernelImage largeSectors (erasedInfo largeSectors) (fresh fun _ => 0xff)
        (kernelImage 1834752 3217162496)).2.mem)
      (flashFsKernelImage largeSectors (erasedInfo largeSectors) (fresh fun _ => 0xff)
        (kernelImage 1834752 3217162496)).2.mem := by
  obtain ⟨p, f, -, -, -, hrun, htag, hboot⟩ := largeSectors_upgrade 1834752 (by decide) (by decide) (by decide)
  obtain ⟨hend, -, hblk15, -⟩ := kernelImage_ends
  rw [hrun]
  refine ⟨rfl, fun hclear => ?_⟩
  rw [bootInfo, hboot] at hclear
  have hregion : InRegion largeSectors (kerSysFlashInit largeSectors 24
      (some (tagOf (signTag (patch (kernelImage 1834752 3217162496) 138 (sprintfD 1)))))).darePersistent 1966079 := by
    obtain ⟨hdare, hlen⟩ := largeSectors_dare
    rw [kerSysFlashInit_some]
    dsimp only
    rw [kernelEnd_offset, hend, Nat.cast_ofNat, hblk15, InRegion, hdare, hlen]
    omega
  refine hclear.images _ (by simp) 1 1966079 hregion ⟨_, htag, ?_, ?_⟩
  · decide
  · rw [hend]
    decide

end AliceModem.StoredImages
