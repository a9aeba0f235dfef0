import AliceModem.Flash.ImageResult

namespace AliceModem.ImageSectors

open Words Hwdefs Sectors ByteMemory Device SharedBlks Regions ImageTag Layout ConfigCopies ImageSet ImageFaults
  ImageResult

variable {g : Geometry} {psi : Region} {whole : Prop} [Decidable whole]

theorem imageLoop_inside (fuel : Nat) (f : Flash) {blk : Int} (hl : 0 ≤ blk) (hblk : blk < g.sec.length)
    (hu : blk + fuel ≤ 65536) (hfuel : g.sec.length ≤ blk + fuel) (hpsi : psi.startBlk < g.sec.length)
    (string : Mem Byte) {size : Int} (hsize : 0 < size)
    (hcond : blkStart g blk + size ≤ flashGetTotalSize g ∨ (¬ whole ∧ blk ≤ psi.startBlk) ∨
      ∃ k : Nat, blk + k < g.sec.length ∧ Fails (pattern f) k) :
    (∃ r, (imageLoop g psi whole fuel f blk string size).1 = some r) ∧
    ∃ ops, Runs g f ops (imageLoop g psi whole fuel f blk string size).2 ∧ ∀ op ∈ ops, op.sector < g.sec.length := by
  have hends (n : Nat) (hr : Reaches g psi whole (pattern f) blk size n) : blk + n < g.sec.length := by
    rcases hcond with h | ⟨hnot, h⟩ | ⟨k, hk, hfail⟩
    · by_contra hout
      have hpos := hr.rest_pos hsize
      rw [blkStart_length (not_lt.mp hout)] at hpos
      omega
    · have := hr.free hnot (psi.startBlk - blk).toNat
      omega
    · by_contra hout
      exact hr.works k (by omega) hfail
  rcases reaches_or_ends g psi whole f.faults blk size fuel with h | ⟨n, hn, hr, hc | ⟨junk, hs⟩⟩
  · have := hends fuel h
    omega
  all_goals
    have hlt := hends n hr
    obtain ⟨m, rfl⟩ := Nat.exists_eq_add_of_lt hn
    rw [add_assoc]
  · obtain ⟨hret, ⟨ops, hruns, hops⟩, -⟩ := imageLoop_completes m f hl (by push_cast at hu; omega) string hsize hr hc
    exact ⟨⟨_, hret⟩, ops, hruns, fun op hop => by have := hops op hop; omega⟩
  · obtain ⟨⟨left, -, hret⟩, ⟨ops, hruns, hops⟩, -⟩ := imageLoop_stops m f hl (by push_cast at hu; omega) string hsize hr hs
    exact ⟨⟨_, hret⟩, ops, hruns, fun op hop => by have := hops op hop; omega⟩

theorem imageLoop_outside (fuel : Nat) (f : Flash) {blk : Int} (hl : 0 ≤ blk) (hblk : blk ≤ g.sec.length)
    (hu : blk + fuel ≤ 65536) (string : Mem Byte) {size : Int} (hsize : 0 < size)
    (hlong : flashGetTotalSize g < blkStart g blk + size) (hfree : whole ∨ psi.startBlk < blk)
    (hok : ∀ k : Nat, blk + k < g.sec.length → ¬ Fails (pattern f) k) :
    (imageLoop g psi whole fuel f blk string size).1 = none ∨
    ∃ ops, Runs g f ops (imageLoop g psi whole fuel f blk string size).2 ∧ ∃ op ∈ ops, op.sector = g.sec.length := by
  have hreach (n : Nat) (hn : blk + n ≤ g.sec.length) : Reaches g psi whole (pattern f) blk size n := by
    have htotal := blkStart_le_total (g := g) (blk + n)
    exact ⟨.inr (by omega), fun hw k _ => by have := hfree.resolve_left hw; omega, fun k hk => hok k (by omega)⟩
  by_cases hfuel : blk + fuel ≤ g.sec.length
  · exact .inl ((imageLoop_none_iff hsize f hl hu string).mpr (hreach fuel hfuel))
  right
  obtain ⟨n, hn⟩ : ∃ n : Nat, blk + n = g.sec.length := ⟨(g.sec.length - blk).toNat, by omega⟩
  obtain ⟨m, rfl⟩ : ∃ m, fuel = n + (m + 1) := ⟨fuel - n - 1, by omega⟩
  push_cast at hu
  have hrest : 0 < size - (blkStart g (blk + n) - blkStart g blk) := by
    have := (hreach n hn.le).rest_pos hsize
    omega
  have h16 := uint16_sector (g := g) (show 0 ≤ blk + n by omega) hn.le
  obtain ⟨f₁, ops, hruns, -, -, hloop, -⟩ := imageLoop_advance (m + 1) f hl (by push_cast; omega) string hsize
    (hreach n hn.le)
  have hskip : whole ∨ blk + n ≠ psi.startBlk := hfree.imp_right fun h => by omega
  have hfound {x : Op} (rest : List Op) : ∃ op ∈ ops ++ ([Op.erase (uint16 (blk + n)), x] ++ rest), op.sector = g.sec.length :=
    ⟨.erase (uint16 (blk + n)), by simp, by rw [Op.sector]; omega⟩
  rw [hloop]
  rcases round_cases (g := g) m f₁ hskip (view string (blkStart g (blk + n) - blkStart g blk)) hrest with
    ⟨-, left, f₂, -, hruns₂, he⟩ | ⟨-, f₂, -, hruns₂, he⟩ <;> rw [he]
  · exact ⟨_, hruns.trans hruns₂, by simpa using hfound []⟩
  · split_ifs
    · obtain ⟨rest, hruns₃, -⟩ := imageLoop_runs (g := g) psi whole m f₂ (show 0 ≤ blk + n + 1 by omega) (by omega)
        (view (view string (blkStart g (blk + n) - blkStart g blk)) (flashGetSectorSize g (blk + n)))
        (size - (blkStart g (blk + n) - blkStart g blk) - flashGetSectorSize g (blk + n))
      exact ⟨_, hruns.trans (hruns₂.trans hruns₃), hfound rest⟩
    · exact ⟨_, hruns.trans hruns₂, by simpa using hfound []⟩

section Set

variable (g) in
/-- The call returns, and no sector number behind the last one was erased or written. -/
def StaysInside (info : FlashAddrInfo) (f : Flash) (addr : Int) (string : Mem Byte) (size : Int) : Prop :=
  (∃ r, (kerSysBcmImageSet g info f addr string size).1 = some r) ∧
  ∃ ops, Runs g f ops (kerSysBcmImageSet g info f addr string size).2 ∧ ∀ op ∈ ops, op.sector < g.sec.length

variable {info : FlashAddrInfo} (hpsi : info.persistent.startBlk < g.sec.length) {f : Flash} {addr size : Int}
  (string : Mem Byte) (hblk : 0 ≤ flashGetBlk g addr) (hsize : 0 < size)

include hpsi hblk hsize

theorem staysInside_of (hcond : blkStart g (flashGetBlk g addr) + size ≤ flashGetTotalSize g ∨
      (¬ wholeImage g info addr size ∧ flashGetBlk g addr ≤ info.persistent.startBlk) ∨
      ∃ k : Nat, flashGetBlk g addr + k < g.sec.length ∧ Fails (pattern f) k) :
    StaysInside g info f addr string size := by
  have hlt := flashGetBlk_lt (g := g) addr
  have hle := g.nsect_le
  obtain ⟨⟨⟨b, left⟩, hr⟩, ops, hruns, hops⟩ := imageLoop_inside (maxSectors - (flashGetBlk g addr).toNat) f hblk hlt
    (by simp only [maxSectors] at hle ⊢; omega) (by omega) hpsi string hsize hcond
  rw [StaysInside, imageSet_some f string hblk hr]
  refine ⟨⟨_, rfl⟩, _, hruns.trans (eraseBlks_runs _ _), fun op hop => ?_⟩
  rcases List.mem_append.mp hop with h | h
  · exact hops op h
  · have hb := imageLoop_blk_le _ _ _ _ _ hr
    obtain ⟨c, hc, rfl⟩ := List.mem_map.mp h
    split_ifs at hc
    · obtain ⟨h1, h2⟩ := mem_blkRange.mp hc
      rw [flashGetNumsectors] at h2
      have := uint16_sector (g := g) (show 0 ≤ c by omega) h2.le
      rw [Op.sector]
      omega
    · cases hc

omit hpsi in
theorem staysInside_only (h : StaysInside g info f addr string size) :
    blkStart g (flashGetBlk g addr) + size ≤ flashGetTotalSize g ∨
      (¬ wholeImage g info addr size ∧ flashGetBlk g addr ≤ info.persistent.startBlk) ∨
      ∃ k : Nat, flashGetBlk g addr + k < g.sec.length ∧ Fails (pattern f) k := by
  by_contra hcond
  rw [not_or, not_or, not_and_or, not_not, not_le, not_le, not_exists] at hcond
  obtain ⟨hlong, hfree, hok⟩ := hcond
  have hlt := flashGetBlk_lt (g := g) addr
  have hle := g.nsect_le
  simp only [maxSectors] at hle
  obtain ⟨⟨r, hret⟩, ops, hruns, hops⟩ := h
  rcases imageLoop_outside (maxSectors - (flashGetBlk g addr).toNat) f hblk hlt.le (by simp only [maxSectors]; omega)
    string hsize hlong hfree (fun k hk hfail => hok k ⟨hk, hfail⟩) with hnone | ⟨ops', hruns', op, hop, hsec⟩
  · rw [imageSet_none f string hblk hnone] at hret
    cases hret
  · rcases hr : (imageLoop g info.persistent (wholeImage g info addr size) (maxSectors - (flashGetBlk g addr).toNat) f
      (flashGetBlk g addr) string size).1 with _ | ⟨b, left⟩
    · rw [imageSet_none f string hblk hr] at hret
      cases hret
    · rw [imageSet_some f string hblk hr] at hruns
      have hall := runs_unique hruns (hruns'.trans (eraseBlks_runs _ _))
      have := hops op (by rw [hall]; exact List.mem_append_left _ hop)
      omega

end Set

/-- A write of an image returns with all accesses inside the device exactly if the image ends inside,
or it is written from before the PSI, or one of the writes in the device fails. -/
theorem image_stays_inside_iff {ulPsiSize : Nat} {pTag : Option FileTag} {info : FlashAddrInfo}
    (hinfo : info = kerSysFlashInit g ulPsiSize pTag) (f : Flash) {addr size : Int} (string : Mem Byte)
    (hblk : 0 ≤ flashGetBlk g addr) (hsize : 1 ≤ size) :
    StaysInside g info f addr string size ↔
      blkStart g (flashGetBlk g addr) + size ≤ flashGetTotalSize g ∨
      (¬ wholeImage g info addr size ∧ flashGetBlk g addr ≤ info.persistent.startBlk) ∨
      ∃ k : Nat, flashGetBlk g addr + k < g.sec.length ∧ Fails (pattern f) k := by
  have hpsi : info.persistent.startBlk < g.sec.length := hinfo ▸ persistent_lt pTag
  exact ⟨staysInside_only string hblk hsize, staysInside_of hpsi string hblk hsize⟩

theorem psi_stops_image :
    StaysInside demoFlash (kerSysFlashInit demoFlash 24 (some blankTag)) (fresh fun _ => 0xff)
      (65536 + demoFlash.flashBase) (fun _ => 7) 4194304 :=
  (image_stays_inside_iff rfl _ _ (by decide) (by decide)).mpr (.inr (.inl ⟨by decide, by decide⟩))

/-- A whole image that is one byte longer than the device: the call does not return. -/
theorem long_image_runs_off :
    (kerSysBcmImageSet demoFlash (kerSysFlashInit demoFlash 24 (some blankTag)) (fresh fun _ => 0xff)
      demoFlash.flashBase (fun _ => 7) 4194305).1 = none := by
  have hblk : flashGetBlk demoFlash demoFlash.flashBase = 0 := by decide
  rw [imageSet_none_iff _ _ hblk.ge (by decide) (by decide), Endless, hblk]
  exact ⟨by decide, .inl (by decide), fun k _ => by simp [Fails, pattern, fresh]⟩

end AliceModem.ImageSectors
