import AliceModem.Board.InterruptedUpgrade

namespace AliceModem.ReservedTail

open Words Hwdefs Sectors ByteMemory Device SharedBlks Regions Nvram ImageTag ImageSet ImageTrace Upgrade Layout
  CompletedUpgrade InterruptedUpgrade Vsprintf

variable (g : Geometry) (info : FlashAddrInfo)

def SectorOff (s : Nat) (a b : Int) : Prop := blkStart g (s + 1) ≤ a ∨ b ≤ blkStart g s

def bootedStart (m : Mem Byte) : Int := blkStart g (partitionBlk g info (bootImage g info m))

def bootedEnd (m : Mem Byte) : Int := bootedStart g info m + tagLen + curImgSize g info m

/-- Whatever the writes do, the sectors erased for the image lie before the
reserved space, and under the two-image rule off the booted image. -/
def Spares (m imagePtr : Mem Byte) (p : Plan) : Prop :=
  ∀ faults s, Op.erase s ∈ (kerSysBcmImageSet g info ⟨m, faults, []⟩ p.dest p.image p.size).2.trace →
    blkStart g (s + 1) ≤ flashGetTotalSize g - flashReservedAtEnd ∧
    (TwoImages g info m (tagOf imagePtr) → bootImage g info m ≠ 0 →
      SectorOff g s (bootedStart g info m) (bootedEnd g info m))

def sectorsNeeded (sectSize size : Int) : Int := if size ≤ 0 then 1 else (size + sectSize - 1) / sectSize

/-- The sector behind the last one that is erased. The sector in which the PSI
starts is the last, and is left out if the image needs the part of the PSI. -/
def stopBlk (sectSize : Int) (psi : Region) (blk size : Int) : Int :=
  if blk ≤ psi.startBlk ∧ psi.startBlk < blk + sectorsNeeded sectSize size then
    if sectSize - psi.length < size - (psi.startBlk - blk) * sectSize ∨ size < 0 then psi.startBlk
    else psi.startBlk + 1
  else blk + sectorsNeeded sectSize size

variable {g info}

section

variable {sectSize : Int} (hs : 0 < sectSize)

include hs

theorem sectorsNeeded_spec {size : Int} (hsize : 0 < size) :
    (sectorsNeeded sectSize size - 1) * sectSize < size ∧ size ≤ sectorsNeeded sectSize size * sectSize := by
  obtain ⟨-, h1, h2⟩ := blk_bounds hs (show 0 ≤ size + sectSize - 1 by omega)
  rw [sectorsNeeded, if_neg (by omega), sub_mul, one_mul]
  omega

theorem sectorsNeeded_pos (size : Int) : 0 < sectorsNeeded sectSize size := by
  rw [sectorsNeeded]
  split
  · decide
  · exact (Int.le_ediv_iff_mul_le hs).mpr (by omega)

variable {psi : Region} {blk size : Int}

theorem stopBlk_psi :
    stopBlk sectSize psi psi.startBlk size =
      if sectSize - psi.length < size ∨ size < 0 then psi.startBlk else psi.startBlk + 1 := by
  have hpos := sectorsNeeded_pos hs size
  rw [stopBlk, if_pos (by omega), sub_self, zero_mul, sub_zero]

end

theorem lt_stopBlk_of_reached {n sectSize : Nat} (hg : Uniform g n sectSize) {psi : Region} {whole : Prop} (hwhole : ¬ whole)
    (hpsi : psi.startBlk < n) {blk size : Int} (hl : 0 ≤ blk) (hu : blk < n) (hstop : stopBlk sectSize psi blk size ≤ n)
    {op : Op} (hr : Reached g blk size op) (hb : BeforePsi g psi whole blk size op) :
    op.sector < stopBlk sectSize psi blk size := by
  have hpos : (0 : Int) < sectSize := by
    have := hg.nvram
    omega
  have hneed := sectorsNeeded_pos hpos size
  rw [stopBlk] at hstop ⊢
  by_cases hpart : blk ≤ psi.startBlk ∧ psi.startBlk < blk + sectorsNeeded sectSize size
  · have hbefore := hb hwhole hpart.1
    have hrest : size - (psi.startBlk - blk) * sectSize < 0 ↔ size < 0 := by
      rcases le_or_gt size 0 with hle | hgt
      · rw [sectorsNeeded, if_pos hle] at hpart
        rw [show psi.startBlk = blk by omega, sub_self, zero_mul, sub_zero]
      · have hmul := mul_le_mul_of_nonneg_right
          (show psi.startBlk - blk ≤ sectorsNeeded sectSize size - 1 by omega) hpos.le
        have hspec := (sectorsNeeded_spec hpos hgt).1
        omega
    rw [hg.sectorSize (by omega) hpsi, blkStart_uniform hg hl hu.le, blkStart_uniform hg (by omega) hpsi.le] at hbefore
    rw [sub_mul] at hrest
    rw [if_pos hpart, sub_mul]
    split_ifs <;> omega
  · rw [if_neg hpart] at hstop ⊢
    by_contra hge
    have hmono := blkStart_mono (g := g) (not_lt.mp hge)
    have hlow := blkStart_mono (g := g) hr.first
    rcases hr.last with hlast | hlast
    · omega
    · obtain ⟨-, hspec⟩ := sectorsNeeded_spec hpos (show 0 < size by omega)
      rw [blkStart_uniform hg (by omega) hstop, add_mul] at hmono
      rw [blkStart_uniform hg hl hu.le] at hlast
      omega

theorem imageLoop_erases {psi : Region} {whole : Prop} [Decidable whole] (fuel : Nat) (f : Flash) {blk : Int}
    (hl : 0 ≤ blk) (hu : blk + fuel < 65536) (string : Mem Byte) {size : Int}
    (h : blk ≠ psi.startBlk ∨ ¬ (flashGetSectorSize g blk - psi.length < size ∨ size < 0)) :
    Op.erase (uint16 blk) ∈ (imageLoop g psi whole (fuel + 1) f blk string size).2.trace := by
  have hround (b : Mem Byte) {k : Int} (hk : k ≤ flashGetSectorSize g blk) :
      Op.erase (uint16 blk) ∈ (flashWriteBuf g (flashSectorEraseInt g f blk) blk 0 b k).2.trace := by
    have hle := flashGetSectorSize_le (g := g) blk
    obtain ⟨ws, hw, -⟩ := write_runs (g := g) (flashSectorEraseInt g f blk) blk k b (by omega)
    rw [hw.trace, (erase_runs f blk).trace]
    simp
  rw [imageLoop]
  split
  next hhere =>
    obtain ⟨-, rfl⟩ := hhere
    rw [psiRound]
    dsimp only
    rw [if_neg (h.resolve_left (not_not.mpr rfl))]
    exact hround _ le_rfl
  next =>
    have hown := hround string (chunkLen_le (flashGetSectorSize g blk) size)
    dsimp only
    split
    · exact hown
    · split
      · obtain ⟨ops, hr, -⟩ := imageLoop_runs (g := g) psi whole fuel
          (flashWriteBuf g (flashSectorEraseInt g f blk) blk 0 string (chunkLen (flashGetSectorSize g blk) size)).2
          (show 0 ≤ blk + 1 by omega) (by omega) (view string (chunkLen (flashGetSectorSize g blk) size))
          (evenSize (flashGetSectorSize g blk) size - chunkLen (flashGetSectorSize g blk) size)
        rw [hr.trace]
        exact List.mem_append_left _ hown
      · exact hown

section

variable {n sectSize : Nat} (hg : Uniform g n sectSize) {addr size : Int}
  (hnot : ¬ wholeImage g info addr size) (hblk : 0 ≤ flashGetBlk g addr) (string : Mem Byte)

include hg hnot hblk

theorem erased_within (hpsi : info.persistent.startBlk < n) (f : Flash) (hf : f.trace = [])
    (hstop : stopBlk sectSize info.persistent (flashGetBlk g addr) size ≤ n) {s : Nat}
    (h : Op.erase s ∈ (kerSysBcmImageSet g info f addr string size).2.trace) :
    flashGetBlk g addr ≤ s ∧ s < stopBlk sectSize info.persistent (flashGetBlk g addr) size := by
  have hlt := flashGetBlk_lt (g := g) addr
  rw [hg.length] at hlt
  obtain ⟨ops, hr, hop⟩ := kerSysBcmImageSet_runs f hnot hblk string
  rw [hr.trace, hf, List.nil_append] at h
  obtain ⟨hreach, hbefore⟩ := hop _ h
  exact ⟨hreach.first, lt_stopBlk_of_reached hg hnot hpsi hblk hlt hstop hreach hbefore⟩

theorem erased_all (m : Mem Byte) {c : Int} (hbc : flashGetBlk g addr ≤ c) (hcn : c < n)
    (hc : c < stopBlk sectSize info.persistent (flashGetBlk g addr) size) :
    Op.erase (uint16 c) ∈ (kerSysBcmImageSet g info (fresh m) addr string size).2.trace := by
  have hpos : (0 : Int) < sectSize := by
    have := hg.nvram
    omega
  have hlt := flashGetBlk_lt (g := g) addr
  have hle := g.nsect_le
  have hlen := hg.length
  have hneed := sectorsNeeded_pos hpos size
  simp only [maxSectors] at hle
  -- the sector is one of those that the image needs
  have hend : c < flashGetBlk g addr + sectorsNeeded sectSize size := by
    rw [stopBlk] at hc
    split_ifs at hc <;> omega
  rcases hbc.eq_or_lt with rfl | hbc'
  · obtain ⟨fuel, hfuel, hlast⟩ := imageSet_fuel hblk
    rw [kerSysBcmImageSet_flash (fresh m) hnot hblk string, hfuel]
    apply imageLoop_erases fuel (fresh m) hblk (by omega)
    by_cases hhere : flashGetBlk g addr = info.persistent.startBlk
    · right
      rw [hg.sectorSize hblk hcn]
      rw [hhere, stopBlk_psi hpos] at hc
      split at hc
      next => omega
      next h => exact h
    · exact .inl hhere
  · have hsize : 0 < size := by
      by_contra hneg
      rw [sectorsNeeded, if_pos (by omega)] at hend
      omega
    obtain ⟨hneed', -⟩ := sectorsNeeded_spec hpos hsize
    have hrange : (c - flashGetBlk g addr) * sectSize < size := by
      have hmul : (c - flashGetBlk g addr) * sectSize ≤ (sectorsNeeded sectSize size - 1) * sectSize :=
        mul_le_mul_of_nonneg_right (by omega) hpos.le
      omega
    have hpsi' : info.persistent.startBlk < flashGetBlk g addr ∨ c < info.persistent.startBlk ∨
        c = info.persistent.startBlk ∧
          blkStart g (flashGetBlk g addr) + size ≤ blkStart g (c + 1) - info.persistent.length := by
      by_cases h1 : info.persistent.startBlk < flashGetBlk g addr
      · exact .inl h1
      by_cases h2 : c < info.persistent.startBlk
      · exact .inr (.inl h2)
      rw [stopBlk, if_pos (by omega)] at hc
      split at hc
      next => omega
      next hroom =>
        have hcp : c = info.persistent.startBlk := by omega
        rw [← hcp, sub_mul] at hroom
        rw [blkStart_uniform hg hblk (by omega), blkStart_uniform hg (by omega) (by omega), add_mul, one_mul]
        exact .inr (.inr ⟨hcp, by omega⟩)
    obtain ⟨pre, post, hruns, -⟩ := kerSysBcmImageSet_reaches (fresh m) rfl hnot string hsize hblk hbc (by omega)
      (by
        rw [sub_mul] at hrange
        rw [blkStart_uniform hg (by omega) hcn.le, blkStart_uniform hg hblk (by omega)]
        omega) hpsi'
    rw [hruns.trace]
    simp

end

variable (info) in
theorem bootedStart_uniform {n sectSize : Nat} (hg : Uniform g n sectSize) (m : Mem Byte) :
    ∃ j : Int, bootedStart g info m = j * sectSize := by
  have hlt : partitionBlk g info (bootImage g info m) < g.sec.length := partitionBlk_lt _
  rw [hg.length] at hlt
  rw [bootedStart]
  rcases lt_or_ge (partitionBlk g info (bootImage g info m)) 0 with hneg | h0
  · refine ⟨0, ?_⟩
    rw [blkStart, Int.toNat_of_nonpos hneg.le]
    simp
  · exact ⟨_, blkStart_uniform hg h0 hlt.le⟩

section

variable {n sectSize : Nat} (hg : Uniform g n sectSize) {b stop : Int} (hb : 0 ≤ b) (hlt : b < stop) (hstop : stop ≤ n)

include hg hb hlt hstop

theorem sectors_end_iff :
    (∀ s : Nat, b ≤ s → s < stop → blkStart g (s + 1) ≤ flashGetTotalSize g - flashReservedAtEnd) ↔
      stop * sectSize ≤ n * sectSize - flashReservedAtEnd := by
  rw [hg.totalSize]
  constructor
  · intro h
    have hlast := h (stop - 1).toNat (by omega) (by omega)
    rwa [Int.toNat_of_nonneg (by omega), sub_add_cancel, blkStart_uniform hg (by omega) hstop] at hlast
  · intro h s h1 h2
    have hmul : ((s : Int) + 1) * sectSize ≤ stop * sectSize :=
      mul_le_mul_of_nonneg_right (by omega) (Int.natCast_nonneg _)
    rw [blkStart_uniform hg (by omega) (by omega)]
    omega

theorem sectors_off_iff {j first last : Int} (hfirst : first = j * sectSize) (himage : first < last) :
    (∀ s : Nat, b ≤ s → s < stop → SectorOff g s first last) ↔
      stop * sectSize ≤ first ∨ last ≤ b * sectSize := by
  have hsector (s : Nat) (h1 : b ≤ s) (h2 : s < stop) :
      SectorOff g s first last ↔ s * sectSize + sectSize ≤ first ∨ last ≤ s * sectSize := by
    rw [SectorOff, blkStart_uniform hg (by omega) (by omega), blkStart_uniform hg (by omega) (by omega), add_mul, one_mul]
  constructor
  · intro h
    rcases lt_or_ge j b with hjb | hbj
    · -- the image starts before the range, and its first sector is off it
      right
      obtain ⟨s, rfl⟩ := Int.eq_ofNat_of_zero_le hb
      have hoff := (hsector s le_rfl hlt).mp (h s le_rfl hlt)
      have hmul : j * sectSize ≤ s * sectSize := mul_le_mul_of_nonneg_right hjb.le (Int.natCast_nonneg _)
      have hpos := hg.nvram
      omega
    · -- otherwise the sector it starts with is behind the range
      left
      by_contra hin
      rw [hfirst] at hin
      have hjs : j < stop := by
        by_contra hge
        exact hin (mul_le_mul_of_nonneg_right (not_lt.mp hge) (Int.natCast_nonneg _))
      obtain ⟨s, rfl⟩ := Int.eq_ofNat_of_zero_le (hb.trans hbj)
      have hoff := (hsector s hbj hjs).mp (h s hbj hjs)
      have hpos := hg.nvram
      omega
  · intro h s h1 h2
    have hlow : b * sectSize ≤ s * sectSize := mul_le_mul_of_nonneg_right h1 (Int.natCast_nonneg _)
    have hhigh : ((s : Int) + 1) * sectSize ≤ stop * sectSize :=
      mul_le_mul_of_nonneg_right (by omega) (Int.natCast_nonneg _)
    rw [add_mul, one_mul] at hhigh
    rw [hsector s h1 h2]
    omega

end

/-- Exactly the images whose sectors end before the reserved space, and before
or behind the booted image, spare both. -/
theorem spares_iff {n sectSize : Nat} (hg : Uniform g n sectSize) {ulPsiSize : Nat} {pTag : Option FileTag}
    (hinfo : info = kerSysFlashInit g ulPsiSize pTag) {m imagePtr : Mem Byte} {p : Plan}
    (hplan : plan g info m imagePtr = some p) :
    Spares g info m imagePtr p ↔
      flashGetBlk g p.dest < 0 ∨
      stopBlk sectSize info.persistent (flashGetBlk g p.dest) p.size ≤ flashGetBlk g p.dest ∨
      stopBlk sectSize info.persistent (flashGetBlk g p.dest) p.size * sectSize ≤
          n * sectSize - flashReservedAtEnd ∧
        (TwoImages g info m (tagOf imagePtr) → bootImage g info m ≠ 0 →
          stopBlk sectSize info.persistent (flashGetBlk g p.dest) p.size * sectSize ≤ bootedStart g info m ∨
          bootedEnd g info m ≤ flashGetBlk g p.dest * sectSize) := by
  have hi : Initialised g info := hinfo ▸ kerSysFlashInit_initialised g ulPsiSize pTag
  have hnot := plan_not_whole hi hplan
  have hlen := hg.length
  have hle := g.nsect_le
  have hnpos := hg.pos
  simp only [maxSectors] at hle
  have hpsi : info.persistent.startBlk < n := by
    rw [hinfo, ← hlen]
    exact persistent_lt pTag
  have hbn : flashGetBlk g p.dest < n := hlen ▸ flashGetBlk_lt p.dest
  set b := flashGetBlk g p.dest with hb
  set stop := stopBlk sectSize info.persistent b p.size with hstop
  rcases lt_or_ge b 0 with hneg | hb0
  · refine iff_of_true (fun faults s hs => ?_) (.inl hneg)
    rw [kerSysBcmImageSet] at hs
    dsimp only at hs
    rw [if_pos hneg] at hs
    cases hs
  rw [or_iff_right (not_lt.mpr hb0)]
  rcases le_or_gt stop b with hnone | hsome
  · refine iff_of_true (fun faults s hs => ?_) (.inl hnone)
    have hwithin : b ≤ s ∧ s < stop :=
      erased_within hg hnot hb0 p.image hpsi ⟨m, faults, []⟩ rfl (show stop ≤ n by omega) hs
    omega
  rw [or_iff_right (not_le.mpr hsome)]
  obtain ⟨j, hj⟩ := bootedStart_uniform info hg m
  have himage : bootedStart g info m < bootedEnd g info m := by
    simp only [bootedEnd, tagLen]
    omega
  constructor
  · intro hspares
    have hall (s : Nat) (h1 : b ≤ s) (h2 : (s : Int) < n) (h3 : s < stop) := hspares [] s (by
      have herased := erased_all hg hnot hb0 p.image m h1 h2 h3
      rwa [uint16_natCast (by omega)] at herased)
    have hstopn : stop ≤ n := by
      by_contra hover
      have hend := (hall (n - 1) (by omega) (by omega) (by omega)).1
      rw [Nat.cast_sub hnpos, Nat.cast_one, sub_add_cancel, blkStart_uniform hg (by omega) le_rfl, hg.totalSize] at hend
      simp only [flashReservedAtEnd] at hend
      omega
    exact ⟨(sectors_end_iff hg hb0 hsome hstopn).mp fun s h1 h2 => (hall s h1 (by omega) h2).1,
      fun htwo hboot => (sectors_off_iff hg hb0 hsome hstopn hj himage).mp fun s h1 h2 =>
        (hall s h1 (by omega) h2).2 htwo hboot⟩
  · rintro ⟨hend, hoff⟩ faults s hs
    have hstopn : stop ≤ n := by
      by_contra hover
      have hmul : (n : Int) * sectSize ≤ stop * sectSize :=
        mul_le_mul_of_nonneg_right (by omega) (Int.natCast_nonneg _)
      simp only [flashReservedAtEnd] at hend
      omega
    obtain ⟨h1, h2⟩ : b ≤ s ∧ s < stop := erased_within hg hnot hb0 p.image hpsi ⟨m, faults, []⟩ rfl hstopn hs
    exact ⟨(sectors_end_iff hg hb0 hsome hstopn).mpr hend s h1 h2, fun htwo hboot =>
      (sectors_off_iff hg hb0 hsome hstopn hj himage).mpr (hoff htwo hboot) s h1 h2⟩

def halfImage : Mem Byte := patch demoImage 106 (sprintfLu 1966080)

theorem halfImage_target : ∃ p, Target demoFlash (erasedInfo demoFlash) bootedDemo halfImage p 1 2 ∧
    p.size = 1966336 :=
  bootedDemo_target (show imgSize (tagOf halfImage) = 1966080 by decide) (by decide)
    (by decide) (by decide) (by decide)

theorem spares_iff_demo :
    ∃ p, plan demoFlash (erasedInfo demoFlash) bootedDemo longImage = some p ∧
      (Spares demoFlash (erasedInfo demoFlash) bootedDemo longImage p ↔
        flashGetBlk demoFlash p.dest < 0 ∨
        stopBlk (65536 : Nat) (erasedInfo demoFlash).persistent (flashGetBlk demoFlash p.dest) p.size ≤
          flashGetBlk demoFlash p.dest ∨
        stopBlk (65536 : Nat) (erasedInfo demoFlash).persistent (flashGetBlk demoFlash p.dest) p.size *
            (65536 : Nat) ≤ (64 : Nat) * (65536 : Nat) - flashReservedAtEnd ∧
          (TwoImages demoFlash (erasedInfo demoFlash) bootedDemo (tagOf longImage) →
            bootImage demoFlash (erasedInfo demoFlash) bootedDemo ≠ 0 →
            stopBlk (65536 : Nat) (erasedInfo demoFlash).persistent (flashGetBlk demoFlash p.dest) p.size *
                (65536 : Nat) ≤ bootedStart demoFlash (erasedInfo demoFlash) bootedDemo ∨
              bootedEnd demoFlash (erasedInfo demoFlash) bootedDemo ≤
                flashGetBlk demoFlash p.dest * (65536 : Nat))) := by
  obtain ⟨p, ht, -⟩ := longImage_target
  exact ⟨p, ht.plan, spares_iff demoFlash_uniform
    (show erasedInfo demoFlash = kerSysFlashInit demoFlash 24 none from rfl) ht.plan⟩

theorem halfImage_into_reserved :
    ∃ p, plan demoFlash (erasedInfo demoFlash) bootedDemo halfImage = some p ∧
      TwoImages demoFlash (erasedInfo demoFlash) bootedDemo (tagOf halfImage) ∧
      Op.erase 62 ∈ (kerSysBcmImageSet demoFlash (erasedInfo demoFlash) (fresh bootedDemo) p.dest p.image p.size).2.trace ∧
      flashGetTotalSize demoFlash - flashReservedAtEnd < blkStart demoFlash 63 ∧
      ¬ Spares demoFlash (erasedInfo demoFlash) bootedDemo halfImage p := by
  have hi : Initialised demoFlash (erasedInfo demoFlash) := kerSysFlashInit_initialised _ _ _
  have hstart : partitionBlk demoFlash (erasedInfo demoFlash) 2 = 32 := demoFlash_blks.2.1
  have hstop : stopBlk (65536 : Nat) (erasedInfo demoFlash).persistent 32 1966336 = 63 := by decide
  have hbeyond : flashGetTotalSize demoFlash - flashReservedAtEnd < blkStart demoFlash 63 := by decide
  have htwo : TwoImages demoFlash (erasedInfo demoFlash) bootedDemo (tagOf halfImage) :=
    bootedDemo_two (by decide)
  obtain ⟨p, ht, hsize⟩ := halfImage_target
  have hblk : flashGetBlk demoFlash p.dest = 32 := ht.dest.trans hstart
  have herase := erased_all demoFlash_uniform (plan_not_whole hi ht.plan) (by rw [hblk]; decide) p.image bootedDemo
    (show flashGetBlk demoFlash p.dest ≤ 62 by rw [hblk]; decide) (by decide)
    (by rw [hblk, hsize, hstop]; decide)
  refine ⟨p, ht.plan, htwo, herase, hbeyond, fun hspares => ?_⟩
  have hend := (hspares [] 62 herase).1
  exact absurd hend (not_le.mpr hbeyond)

end AliceModem.ReservedTail
