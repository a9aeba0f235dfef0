import AliceModem.Board.CompletedUpgrade

namespace AliceModem.CopiedNvram

open Words Hwdefs Sectors ByteMemory Device SharedBlks Regions Nvram ImageSet ImageFaults ImageResult Upgrade
  CompletedUpgrade

section Loop

variable {g : Geometry} {psi : Region} {whole : Prop} [Decidable whole]

theorem imageLoop_inside (hpsi : psi.startBlk < g.sec.length) (fuel : Nat) (f : Flash) (hf : f.faults = []) {blk : Int}
    (hl : 0 ≤ blk) (hu : blk + fuel ≤ 65536) (string : Mem Byte) {size : Int} (hsize : 0 < size)
    (h : (imageLoop g psi whole fuel f blk string size).1 ≠ none) :
    ∃ ops, Runs g f ops (imageLoop g psi whole fuel f blk string size).2 ∧
      ∀ op ∈ ops, op.Inside g ∧ blk ≤ op.sector ∧ (op.sector : Int) < g.sec.length := by
  obtain ⟨ops, hruns, hops⟩ : ∃ ops, Runs g f ops (imageLoop g psi whole fuel f blk string size).2 ∧
      ∀ op ∈ ops, (op.sector : Int) < g.sec.length := by
    rcases reaches_or_ends g psi whole f.faults blk size fuel with hr | ⟨n, hn, hr, hc | ⟨junk, hs⟩⟩
    · exact absurd ((imageLoop_none_iff hsize f hl hu string).mpr hr) h
    all_goals
      obtain ⟨m, rfl⟩ := Nat.exists_eq_add_of_lt hn
      push_cast at hu
      rw [add_assoc]
    · obtain ⟨-, ⟨ops, hruns, hops⟩, -⟩ := imageLoop_completes m f hl (by omega) string hsize hr hc
      have hlt := hc.lt hl (by omega) hr hsize (.inl hpsi)
      exact ⟨ops, hruns, fun op hop => (hops op hop).trans_lt hlt⟩
    · obtain ⟨-, ⟨ops, hruns, hops⟩, -⟩ := imageLoop_stops m f hl (by omega) string hsize hr hs
      rcases hs with ⟨⟨-, hb, -⟩, -⟩ | ⟨-, left, hleft, -⟩
      · exact ⟨ops, hruns, fun op hop => by have := hops op hop; omega⟩
      · simp [hf] at hleft
  refine ⟨ops, hruns, fun op hop => ?_⟩
  have hreached := runs_reached hl hu hruns op hop
  exact ⟨hreached.inside, hreached.first, hops op hop⟩

theorem replay_behind {ops : List Op} (h : ∀ op ∈ ops, op.Inside g ∧ 1 ≤ op.sector ∧ op.sector < g.sec.length)
    (m : Mem Byte) {i : Int} (hi : i < blkStart g 1) : replay g m ops i = m i := by
  refine replay_outside (fun op hop => (h op hop).1) m fun op hop => .inl ?_
  obtain ⟨-, h1, h2⟩ := h op hop
  have hbase := (sector_span (g := g) (s := op.sector) (by omega)).1
  have hmono := blkStart_mono (g := g) (show (1 : Int) ≤ op.sector by omega)
  omega

end Loop

variable (g : Geometry) (info : FlashAddrInfo)

/-- The first sector, which holds the NVRAM, after the image was copied. -/
def firstSector (m : Mem Byte) (p : Plan) : Mem Byte :=
  if flashGetBlk g p.dest ≠ 0 then m
  else if ¬ wholeImage g info p.dest p.size ∧ info.persistent.startBlk = 0 then
    if flashGetSectorSize g 0 - info.persistent.length < p.size ∨ p.size < 0 then m
    else patch m 0 (readBytes p.image 0 p.size.toNat)
  else patch (fun _ => 0xff) 0 (readBytes p.image 0 (chunkLen (flashGetSectorSize g 0) p.size).toNat)

def broughtNvram (m : Mem Byte) (p : Plan) : NvramData := rawNvram (firstSector g info m p)

variable {g info}

section First

variable {psi : Region} {whole : Prop} [Decidable whole]

theorem erased_first (f : Flash) {i : Int} (hl : 0 ≤ i) (hi : i < blkStart g 1) :
    (flashSectorEraseInt g f 0).mem i = 0xff := by
  have hpos := g.nsect_pos
  have hlen := sectorLength_eq (g := g) le_rfl (show (0 : Int) < g.sec.length by omega)
  rw [blkStart_one] at hi
  change fill f.mem (sectorBase g (uint16 0)) (sectorLength g (uint16 0)) 0xff i = 0xff
  rw [sectorBase_eq le_rfl (by omega), blkStart_zero]
  exact fill_inside _ _ _ _ _ hl (by omega)

theorem round_first (hpsi : psi.startBlk < g.sec.length) {fuel : Nat} (hu : fuel < 65536) (m : Mem Byte)
    (hskip : whole ∨ 0 ≠ psi.startBlk) (string : Mem Byte) (size : Int)
    (h : (imageLoop g psi whole (fuel + 1) (fresh m) 0 string size).1 ≠ none) {i : Int} (hl : 0 ≤ i)
    (hi : i < blkStart g 1) :
    (imageLoop g psi whole (fuel + 1) (fresh m) 0 string size).2.mem i =
      patch (fun _ => 0xff) 0 (readBytes string 0 (chunkLen (flashGetSectorSize g 0) size).toNat) i := by
  have hpos := g.nsect_pos
  have hone := blkStart_one (g := g)
  have hle := chunkLen_le (flashGetSectorSize g 0) size
  have hsect := flashGetSectorSize_nonneg (g := g) 0
  by_cases hsize : 0 < size
  · obtain ⟨f', hruns, he⟩ := imageLoop_round (g := g) (f := fresh m) rfl fuel hskip string hsize
    have hmem : f'.mem i =
        patch (fun _ => 0xff) 0 (readBytes string 0 (chunkLen (flashGetSectorSize g 0) size).toNat) i := by
      rw [hruns.mem, replay_sector _ le_rfl (by omega) (by rw [length_readBytes]; omega), blkStart_zero, patch]
      split
      next => rw [sub_zero]
      next => rw [if_pos (by omega)]
    rw [he] at h ⊢
    by_cases hlt : flashGetSectorSize g 0 < size
    · rw [if_pos hlt] at h ⊢
      obtain ⟨ops, hrest, hops⟩ := imageLoop_inside hpsi fuel f' (hruns.faults rfl) (show 0 ≤ (0 : Int) + 1 by decide)
        (by omega) _ (by omega) h
      rw [hrest.mem, replay_behind (fun op hop => ?_) _ hi, hmem]
      obtain ⟨hin, h1, h2⟩ := hops op hop
      exact ⟨hin, by omega, by omega⟩
    · rw [if_neg hlt, hmem]
  · -- the sector is erased for an image without a length, too
    have hrest : ¬ 0 < evenSize (flashGetSectorSize g 0) size - chunkLen (flashGetSectorSize g 0) size := by
      rw [rest_pos_iff]
      omega
    have hchunk : chunkLen (flashGetSectorSize g 0) size ≤ 0 := by
      have hpos' : 0 < flashGetSectorSize g 0 := hone ▸ lt_of_le_of_lt hl hi
      rw [chunkLen, if_pos (by omega), evenSize]
      split <;> omega
    have hwrite : (flashWriteBuf g (flashSectorEraseInt g (fresh m) 0) 0 0 string
        (chunkLen (flashGetSectorSize g 0) size)).2.mem i = 0xff := by
      have herased := erased_first (fresh m) hl hi
      rcases hchunk.lt_or_eq with hneg | hzero
      · rw [flashWriteBuf, if_pos hneg]
        exact herased
      · rw [hzero, ← Nat.cast_zero, write_ok _ _ _ _ _ rfl]
        exact (program_outside _ _ _ _ (by rw [length_readBytes]; omega)).trans herased
    have hnil : (chunkLen (flashGetSectorSize g 0) size).toNat = 0 := by omega
    rw [imageLoop, if_neg (by tauto), patch_outside _ _ _ _ (by rw [length_readBytes]; omega)]
    dsimp only
    rw [if_neg hrest]
    split <;> exact hwrite

theorem shared_first (hpsi : psi.startBlk = 0) (hwhole : ¬ whole) (fuel : Nat) (m string : Mem Byte) {size : Int}
    (hsize : ¬ (flashGetSectorSize g 0 - psi.length < size ∨ size < 0)) {i : Int} (hl : 0 ≤ i)
    (hi : i < blkStart g 1) :
    (imageLoop g psi whole (fuel + 1) (fresh m) 0 string size).2.mem i = patch m 0 (readBytes string 0 size.toNat) i := by
  have hpos := g.nsect_pos
  obtain ⟨k, hk⟩ : ∃ k : Nat, flashGetSectorSize g 0 = k := ⟨_, rfl⟩
  rw [blkStart_one, hk] at hi
  rw [imageLoop, if_pos ⟨hwhole, hpsi.symm⟩, psiRound]
  dsimp only
  rw [if_neg hsize, hk, (erase_write_sector (fresh m) rfl le_rfl (by omega) _ (by omega)).2.2 i, blkStart_zero,
    if_pos (by omega), sub_zero, Int.toNat_natCast]
  by_cases hin : i < size
  · rw [patch_inside _ _ _ _ hl (by rw [length_readBytes]; omega),
      patch_inside _ _ _ _ hl (by rw [length_readBytes]; omega)]
  · rw [patch_outside _ _ _ _ (by rw [length_readBytes]; omega), flashReadBuf, sectorBase_eq le_rfl (by omega),
      blkStart_zero, patch_inside _ _ _ _ hl (by rw [length_readBytes]; omega), getD_readBytes _ _ _ _ (by omega),
      patch_outside _ _ _ _ (by rw [length_readBytes]; omega)]
    exact congrArg m (by omega)

theorem imageLoop_behind (fuel : Nat) (f : Flash) (hf : f.faults = []) {blk : Int} (hskip : whole ∨ blk ≠ psi.startBlk)
    (string : Mem Byte) {size : Int} (hsize : 0 < size) {b left : Int}
    (h : (imageLoop g psi whole (fuel + 1) f blk string size).1 = some (b, left)) : blk < b := by
  obtain ⟨f', -, he⟩ := imageLoop_round (g := g) hf fuel hskip string hsize
  rw [he] at h
  split at h
  · exact imageLoop_blk_le _ _ _ _ _ h
  · simp only [Option.some.injEq, Prod.mk.injEq] at h
    omega

end First

theorem wholeImage_blk {addr size : Int} (h : wholeImage g info addr size) : flashGetBlk g addr = 0 := by
  have hpos := g.nsect_pos
  have hbase : flashGetBlk g addr = flashGetBlk g (g.flashBase + 0) := by
    apply flashGetBlk_congr
    have := h.1
    unfold uint32 at this ⊢
    omega
  have hfirst := flashGetSectorSize_ge (g := g) le_rfl (show (0 : Int) < g.sec.length by omega)
  have htotal := blkStart_le_total (g := g) 1
  rw [blkStart_one] at htotal
  obtain ⟨h0, h1, -⟩ := flashGetBlk_offset (g := g) 0 le_rfl (by omega)
  rw [hbase]
  by_contra hne
  have hmono := blkStart_mono (g := g) (show 1 ≤ flashGetBlk g (g.flashBase + 0) by omega)
  rw [blkStart_one] at hmono
  omega

theorem firstSector_copied (hpsi : info.persistent.startBlk < g.sec.length) (m : Mem Byte) {p : Plan}
    (hwhole : wholeImage g info p.dest p.size → 0 < p.size)
    (h : (kerSysBcmImageSet g info (fresh m) p.dest p.image p.size).1 ≠ none) {i : Int} (hl : 0 ≤ i)
    (hi : i < blkStart g 1) :
    (kerSysBcmImageSet g info (fresh m) p.dest p.image p.size).2.mem i = firstSector g info m p i := by
  rw [firstSector]
  rcases lt_or_ge (flashGetBlk g p.dest) 0 with hneg | hblk
  · rw [if_pos hneg.ne, kerSysBcmImageSet]
    dsimp only
    rw [if_pos hneg]
    rfl
  obtain ⟨fuel, hfuel, hlast⟩ := imageSet_fuel hblk
  rcases hr : (imageLoop g info.persistent (wholeImage g info p.dest p.size)
    (maxSectors - (flashGetBlk g p.dest).toNat) (fresh m) (flashGetBlk g p.dest) p.image p.size).1 with _ | ⟨b, left⟩
  · rw [imageSet_none (fresh m) p.image hblk hr] at h
    exact absurd rfl h
  have hends := hr ▸ Option.some_ne_none (b, left)
  rw [imageSet_some (fresh m) p.image hblk hr]
  rw [hfuel] at hr hends ⊢
  dsimp only
  by_cases hzero : flashGetBlk g p.dest = 0
  · rw [if_neg (not_not.mpr hzero)]
    rw [hzero] at hr hends ⊢
    by_cases hw : wholeImage g info p.dest p.size
    · have hb := imageLoop_behind fuel (fresh m) rfl (.inl hw) p.image (hwhole hw) hr
      rw [if_pos hw, if_neg fun hand => hand.1 hw,
        eraseBlks_outside _ (by omega) (hi.trans_le (blkStart_mono (show 1 ≤ b by omega)))]
      exact round_first hpsi (by omega) m (.inl hw) p.image p.size hends hl hi
    · rw [if_neg hw]
      change (imageLoop _ _ _ _ _ _ _ _).2.mem i = _
      by_cases hshare : info.persistent.startBlk = 0
      · rw [if_pos ⟨hw, hshare⟩]
        split
        next hbig =>
          have hfull := imageLoop_full fuel (fresh m) hw p.image (show flashGetSectorSize g info.persistent.startBlk -
            info.persistent.length < p.size ∨ p.size < 0 by rwa [hshare])
          rw [hshare] at hfull
          rw [hfull]
          rfl
        next hfit => exact shared_first hshare hw fuel m p.image hfit hl hi
      · rw [if_neg fun hand => hshare hand.2]
        exact round_first hpsi (by omega) m (.inr (Ne.symm hshare)) p.image p.size
          hends hl hi
  · have hw : ¬ wholeImage g info p.dest p.size := fun hw => hzero (wholeImage_blk hw)
    rw [if_pos hzero, if_neg hw]
    change (imageLoop _ _ _ _ _ _ _ _).2.mem i = m i
    obtain ⟨ops, hruns, hops⟩ : ∃ ops, Runs g (fresh m) ops (imageLoop g info.persistent
        (wholeImage g info p.dest p.size) (fuel + 1) (fresh m) (flashGetBlk g p.dest) p.image p.size).2 ∧
        ∀ op ∈ ops, op.Inside g ∧ flashGetBlk g p.dest ≤ op.sector ∧ (op.sector : Int) < g.sec.length := by
      by_cases hsize : 0 < p.size
      · exact imageLoop_inside hpsi _ (fresh m) rfl hblk (by omega) p.image hsize hends
      · obtain ⟨ops, hruns, hops⟩ := imageLoop_runs info.persistent (wholeImage g info p.dest p.size) (fuel + 1)
          (fresh m) hblk (by omega) p.image p.size
        refine ⟨ops, hruns, fun op hop => ⟨(hops op hop).1.inside, (hops op hop).1.first, ?_⟩⟩
        rcases (hops op hop).1.last with hend | hend
        · exact hend.trans_lt (flashGetBlk_lt _)
        · have hmono := blkStart_mono (g := g) (hops op hop).1.first
          omega
    rw [hruns.mem]
    refine replay_behind (fun op hop => ?_) m hi
    obtain ⟨hin, h1, h2⟩ := hops op hop
    exact ⟨hin, by omega, by omega⟩

theorem broughtNvram_copied (hpsi : info.persistent.startBlk < g.sec.length) (m : Mem Byte) {p : Plan}
    (hwhole : wholeImage g info p.dest p.size → 0 < p.size)
    (h : (kerSysBcmImageSet g info (fresh m) p.dest p.image p.size).1 ≠ none) :
    rawNvram (kerSysBcmImageSet g info (fresh m) p.dest p.image p.size).2.mem = broughtNvram g info m p := by
  have hbefore := nvram_before (g := g)
  refine readBytes_congr fun i hi => firstSector_copied hpsi m hwhole h ?_ ?_ <;>
    simp only [nvramDataOffset, nvramLength, nvramDataSize] at hi hbefore ⊢ <;> omega

end AliceModem.CopiedNvram
