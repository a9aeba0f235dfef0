import AliceModem.Flash.ImageResult

namespace AliceModem.ImageTrace

open Words Hwdefs Sectors ByteMemory Device SharedBlks Regions ImageSet ImageFaults ImageResult

/-- One of the writes has put a byte at the offset `i` of the device. -/
def Written (g : Geometry) (ops : List Op) (i : Int) : Prop :=
  ∃ s offset bs, Op.write s offset bs ∈ ops ∧ sectorBase g s + offset ≤ i ∧ i < sectorBase g s + offset + bs.length

variable {g : Geometry} {psi : Region} {whole : Prop} [Decidable whole]

variable (psi whole) in
theorem imageLoop_first (fuel : Nat) (f : Flash) (hf : f.faults = []) {blk : Int} (hl : 0 ≤ blk)
    (hu : blk + fuel < 65536) (string : Mem Byte) {size : Int} (hsize : 0 < size) :
    ((imageLoop g psi whole (fuel + 1) f blk string size).2 = f ∧ ¬ whole ∧ blk = psi.startBlk ∧
      flashGetSectorSize g blk - psi.length < size) ∨
    ∃ bs rest, Runs g f (.erase (uint16 blk) :: .write (uint16 blk) 0 bs :: rest)
        (imageLoop g psi whole (fuel + 1) f blk string size).2 ∧
      bs.length ≤ flashGetSectorSize g blk ∧
      (∀ i : Nat, i < size → i < flashGetSectorSize g blk → i < bs.length ∧ bs.getD i default = string i) ∧
      (∀ op ∈ rest, Reached g blk size op ∧ blk < op.sector) ∧
      (size ≤ flashGetSectorSize g blk → rest = []) := by
  by_cases hhere : ¬ whole ∧ blk = psi.startBlk
  · obtain ⟨hwhole, rfl⟩ := hhere
    by_cases hbig : flashGetSectorSize g psi.startBlk - psi.length < size
    · rw [imageLoop_full fuel f hwhole string (.inl hbig)]
      exact .inl ⟨rfl, hwhole, rfl, hbig⟩
    · obtain ⟨f', bs, hruns, hbs, hbytes, he⟩ := imageLoop_shared hf fuel hwhole string hsize (not_lt.mp hbig)
      rw [he]
      exact .inr ⟨bs, [], hruns, hbs.le, fun i h1 h2 => ⟨by omega, hbytes i h1 h2⟩, by simp, fun _ => rfl⟩
  · right
    have hskip : whole ∨ blk ≠ psi.startBlk := by tauto
    obtain ⟨f', hruns, he⟩ := imageLoop_round (g := g) hf fuel hskip string hsize
    have hsect := flashGetSectorSize_nonneg (g := g) blk
    have hle := chunkLen_le (flashGetSectorSize g blk) size
    have hchunk : size ≤ chunkLen (flashGetSectorSize g blk) size ∨
        flashGetSectorSize g blk ≤ chunkLen (flashGetSectorSize g blk) size := by
      rcases lt_or_ge (flashGetSectorSize g blk) size with h | h
      · exact .inr (rest_of_lt h).2.ge
      · exact .inl (rest_of_ge h).2
    have hbytes (i : Nat) (h1 : i < size) (h2 : i < flashGetSectorSize g blk) :
        i < (readBytes string 0 (chunkLen (flashGetSectorSize g blk) size).toNat).length ∧
        (readBytes string 0 (chunkLen (flashGetSectorSize g blk) size).toNat).getD i default = string i := by
      rw [length_readBytes, getD_readBytes _ _ _ _ (by omega), zero_add]
      exact ⟨by omega, rfl⟩
    rw [he]
    by_cases hlt : flashGetSectorSize g blk < size
    · rw [if_pos hlt]
      obtain ⟨rest, hrest, hop⟩ := imageLoop_runs (g := g) psi whole fuel f' (show 0 ≤ blk + 1 by omega) (by omega)
        (view string (flashGetSectorSize g blk)) (size - flashGetSectorSize g blk)
      exact ⟨_, rest, hruns.trans hrest, by rw [length_readBytes]; omega, hbytes,
        fun op h => (hop op h).1.prev hl (by omega) hlt, fun h => absurd h (by omega)⟩
    · rw [if_neg hlt]
      exact ⟨_, [], hruns, by rw [length_readBytes]; omega, hbytes, by simp, fun _ => rfl⟩

theorem imageLoop_reaches (fuel : Nat) (f : Flash) (hf : f.faults = []) {blk c : Int} (hl : 0 ≤ blk)
    (hbc : blk ≤ c) (hfuel : c < blk + fuel) (hu : blk + fuel ≤ 65536)
    (string : Mem Byte) {size : Int} (hsize : 0 < size) (hreach : blkStart g c < blkStart g blk + size)
    (hpsi : whole ∨ psi.startBlk < blk ∨ c < psi.startBlk ∨
      c = psi.startBlk ∧ blkStart g blk + size ≤ blkStart g (c + 1) - psi.length) :
    ∃ pre post, Runs g f (pre ++ .erase (uint16 c) :: post) (imageLoop g psi whole fuel f blk string size).2 ∧
      ∀ op ∈ pre, op.Inside g ∧ blk ≤ op.sector ∧ op.sector < c := by
  obtain ⟨n, rfl⟩ : ∃ n : Nat, c = blk + n := ⟨(c - blk).toNat, by omega⟩
  obtain ⟨m, rfl⟩ : ∃ m, fuel = n + (m + 1) := ⟨fuel - n - 1, by omega⟩
  push_cast at hu
  have hnext := blkStart_next (g := g) (a := blk + n) (by omega) (by omega)
  have hr : Reaches g psi whole (pattern f) blk size n := by
    refine ⟨.inr hreach, fun hw k hk hb => ?_, fun k _ => never_fails hf k⟩
    rcases hpsi with h | h | h | h
    · exact hw h
    all_goals omega
  obtain ⟨f', pre, hpre, hsec, hf', hloop, -⟩ := imageLoop_advance (m + 1) f hl (by push_cast; omega) string hsize hr
  obtain ⟨post, hpost⟩ : ∃ post, Runs g f' (.erase (uint16 (blk + n)) :: post)
      (imageLoop g psi whole (n + (m + 1)) f blk string size).2 := by
    have hrest : 0 < size - (blkStart g (blk + n) - blkStart g blk) := by omega
    rw [hloop]
    rcases imageLoop_first (g := g) psi whole m f' (by rw [hf', hf, List.drop_nil])
      (show 0 ≤ blk + n by omega) (by omega) (view string (blkStart g (blk + n) - blkStart g blk)) hrest with
      ⟨-, hw, hb, hbig⟩ | ⟨bs, rest, hruns, -⟩
    · rcases hpsi with h | h | h | h
      · exact absurd h hw
      all_goals omega
    · exact ⟨_, hruns⟩
  have hall := hpre.trans hpost
  refine ⟨pre, post, hall, fun op hop => ?_⟩
  have hop' := runs_reached hl (by push_cast; omega) hall op (List.mem_append_left _ hop)
  exact ⟨hop'.inside, hop'.first, hsec op hop⟩

section

variable {info : FlashAddrInfo} (f : Flash) (hf : f.faults = []) {addr size : Int}
  (hnot : ¬ wholeImage g info addr size) (string : Mem Byte) (hsize : 0 < size)

include hf hnot hsize

theorem kerSysBcmImageSet_first (hblk : 0 ≤ flashGetBlk g addr) :
    (kerSysBcmImageSet g info f addr string size).2 = f ∧ flashGetBlk g addr = info.persistent.startBlk ∨
    ∃ bs rest, Runs g f (.erase (uint16 (flashGetBlk g addr)) :: .write (uint16 (flashGetBlk g addr)) 0 bs :: rest)
        (kerSysBcmImageSet g info f addr string size).2 ∧
      bs.length ≤ flashGetSectorSize g (flashGetBlk g addr) ∧
      (∀ i : Nat, i < size → i < flashGetSectorSize g (flashGetBlk g addr) →
        i < bs.length ∧ bs.getD i default = string i) ∧
      (∀ op ∈ rest, Reached g (flashGetBlk g addr) size op ∧ flashGetBlk g addr < op.sector) ∧
      (size ≤ flashGetSectorSize g (flashGetBlk g addr) → rest = []) := by
  obtain ⟨fuel, hfuel, hlast⟩ := imageSet_fuel hblk
  rw [kerSysBcmImageSet_flash f hnot hblk string, hfuel]
  exact (imageLoop_first _ _ fuel f hf hblk (by omega) string hsize).imp_left fun h => ⟨h.1, h.2.2.1⟩

theorem kerSysBcmImageSet_reaches {c : Int} (hblk : 0 ≤ flashGetBlk g addr) (hbc : flashGetBlk g addr ≤ c)
    (hc : c < g.sec.length) (hreach : blkStart g c < blkStart g (flashGetBlk g addr) + size)
    (hpsi : info.persistent.startBlk < flashGetBlk g addr ∨ c < info.persistent.startBlk ∨
      c = info.persistent.startBlk ∧
        blkStart g (flashGetBlk g addr) + size ≤ blkStart g (c + 1) - info.persistent.length) :
    ∃ pre post, Runs g f (pre ++ .erase (uint16 c) :: post) (kerSysBcmImageSet g info f addr string size).2 ∧
      ∀ op ∈ pre, op.Inside g ∧ flashGetBlk g addr ≤ op.sector ∧ op.sector < c := by
  have hle := g.nsect_le
  simp only [maxSectors] at hle
  rw [kerSysBcmImageSet_flash f hnot hblk string]
  exact imageLoop_reaches _ f hf hblk hbc (by simp only [maxSectors]; omega) (by simp only [maxSectors]; omega)
    string hsize hreach (.inr hpsi)

omit hnot in
theorem kerSysBcmImageSet_succeeds (hblk : 0 ≤ flashGetBlk g addr)
    (hfit : blkStart g (flashGetBlk g addr) + size ≤ flashGetTotalSize g)
    (hpsi : info.persistent.startBlk < flashGetBlk g addr ∨
      blkStart g (flashGetBlk g addr) + size ≤ blkStart g info.persistent.startBlk ∨
      blkStart g (flashGetBlk g addr) + size ≤ blkStart g (info.persistent.startBlk + 1) - info.persistent.length) :
    (kerSysBcmImageSet g info f addr string size).1 = some 0 := by
  rcases imageSet_ends f string hblk hsize with hnone | ⟨n, hw⟩ | ⟨n, junk, -, hr, hs⟩
  · have hle := g.nsect_le
    have hpos := ((imageSet_stuck_iff f string hblk hsize).mp hnone).rest_pos hsize
    have hend : (g.sec.length : Int) ≤ flashGetBlk g addr + (maxSectors - (flashGetBlk g addr).toNat : Nat) := by
      simp only [maxSectors] at hle ⊢
      omega
    rw [blkStart_length hend] at hpos
    omega
  · exact (imageSet_written f string hblk hsize hw).1
  · have hpos := hr.rest_pos hsize
    rcases hs with ⟨⟨-, hb, hbig⟩, -⟩ | ⟨-, left, hleft, -⟩
    · rw [hb] at hpos hbig
      omega
    · simp [hf] at hleft

omit hf hnot in
theorem kerSysBcmImageSet_done (hblk : 0 < flashGetBlk g addr)
    (hpsi : 0 < info.persistent.startBlk → 0 ≤ info.persistent.length)
    (h : (kerSysBcmImageSet g info f addr string size).1 = some 0) :
    blkStart g (flashGetBlk g addr) + size ≤ flashGetTotalSize g ∧
    ∀ i, blkStart g (flashGetBlk g addr) ≤ i → i < blkStart g (flashGetBlk g addr) + size →
      (kerSysBcmImageSet g info f addr string size).2.mem i = string (i - blkStart g (flashGetBlk g addr)) := by
  have hpos := g.nsect_pos
  rcases imageSet_ends f string hblk.le hsize with hnone | ⟨n, hw⟩ | ⟨n, junk, hleft⟩
  · rw [hnone] at h
    cases h
  · have hend : blkStart g (flashGetBlk g addr) + size ≤ blkStart g (flashGetBlk g addr + n + 1) := by
      rcases hw.2.2.last with hb | hlast
      · have hfits := mt (fun hbig => ⟨hb.1, hb.2, hbig⟩) hw.2.2.fits
        have := hpsi (by omega)
        omega
      · exact hlast
    have htotal := blkStart_le_total (g := g) (flashGetBlk g addr + n + 1)
    refine ⟨by omega, fun i h1 h2 => ?_⟩
    rw [(imageSet_written f string hblk.le hsize hw).2 (by omega) i h1 (by omega), completedByte, if_pos (by omega)]
  · obtain ⟨⟨r, hret, hzero⟩, -⟩ := imageSet_leftAt f string hblk.le hsize hleft
    rw [h, Option.some.injEq] at hret
    have := (hzero.mp hret.symm).2
    omega

end

end AliceModem.ImageTrace
