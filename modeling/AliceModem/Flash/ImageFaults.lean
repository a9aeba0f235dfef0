import AliceModem.Flash.ImageSet

namespace AliceModem.ImageFaults

open Words Hwdefs Sectors ByteMemory Device SharedBlks Regions ImageSet

def pattern (f : Flash) : List Bool := f.faults.map Option.isSome

def Fails (p : List Bool) (k : Nat) : Prop := p[k]? = some true

instance (p : List Bool) (k : Nat) : Decidable (Fails p k) := inferInstanceAs (Decidable (_ = _))

theorem fails_tail (p : List Bool) (k : Nat) : Fails p.tail k ↔ Fails p (k + 1) := by
  rw [Fails, Fails, List.getElem?_tail]

variable {g : Geometry} {psi : Region} {whole : Prop} [Decidable whole]

theorem erase_write_cases (f : Flash) (blk : Int) (b : Mem Byte) {n : Int} (hn : 0 ≤ n) :
    (Fails (pattern f) 0 ∧ ∃ left, f.faults.head? = some (some left) ∧
      (flashWriteBuf g (flashSectorEraseInt g f blk) blk 0 b n).1 = -1 ∧
      Runs g f [.erase (uint16 blk), .spoil (uint16 blk) left]
        (flashWriteBuf g (flashSectorEraseInt g f blk) blk 0 b n).2) ∨
    (¬ Fails (pattern f) 0 ∧
      (flashWriteBuf g (flashSectorEraseInt g f blk) blk 0 b n).1 = n ∧
      (flashWriteBuf g (flashSectorEraseInt g f blk) blk 0 b n).2.faults = f.faults.tail ∧
      Runs g f [.erase (uint16 blk), .write (uint16 blk) 0 (readBytes b 0 n.toNat)]
        (flashWriteBuf g (flashSectorEraseInt g f blk) blk 0 b n).2) := by
  have herase := erase_runs (g := g) f blk
  have hfaults : (flashSectorEraseInt g f blk).faults = f.faults := rfl
  rw [flashWriteBuf, if_neg (not_lt.mpr hn), hfaults]
  rcases hf : f.faults with _ | ⟨_ | left, rest⟩
  · refine .inr ⟨?_, rfl, ?_, herase.trans (perform_runs _ _)⟩
    · simp [Fails, pattern, hf]
    · exact hfaults.trans hf
  · refine .inr ⟨?_, rfl, ?_, ?_⟩
    · simp [Fails, pattern, hf]
    · rfl
    · exact herase.trans ⟨rfl, rfl, fun h => by rw [hfaults, hf] at h; cases h⟩
  · refine .inl ⟨?_, left, rfl, rfl, ?_⟩
    · simp [Fails, pattern, hf]
    · exact herase.trans ⟨rfl, rfl, fun h => by rw [hfaults, hf] at h; cases h⟩

theorem pattern_tail {f f' : Flash} (h : f'.faults = f.faults.tail) : pattern f' = (pattern f).tail := by
  rw [pattern, pattern, h, List.map_tail]

theorem chunkLen_nonneg {sectSize size : Int} (hs : 0 ≤ sectSize) (h : 0 < size) : 0 ≤ chunkLen sectSize size := by
  unfold chunkLen evenSize
  split_ifs <;> omega

/-- A round of the loop in a sector that the PSI does not need. -/
theorem round_cases (fuel : Nat) (f : Flash) {blk : Int} (hskip : whole ∨ blk ≠ psi.startBlk) (string : Mem Byte)
    {size : Int} (hsize : 0 < size) :
    (Fails (pattern f) 0 ∧ ∃ left f', f.faults.head? = some (some left) ∧
      Runs g f [.erase (uint16 blk), .spoil (uint16 blk) left] f' ∧
      imageLoop g psi whole (fuel + 1) f blk string size =
        (some (blk, evenSize (flashGetSectorSize g blk) size), f')) ∨
    (¬ Fails (pattern f) 0 ∧ ∃ f', f'.faults = f.faults.tail ∧
      Runs g f [.erase (uint16 blk),
        .write (uint16 blk) 0 (readBytes string 0 (chunkLen (flashGetSectorSize g blk) size).toNat)] f' ∧
      imageLoop g psi whole (fuel + 1) f blk string size =
        if flashGetSectorSize g blk < size then
          imageLoop g psi whole fuel f' (blk + 1) (view string (flashGetSectorSize g blk))
            (size - flashGetSectorSize g blk)
        else (some (blk + 1, 0), f')) := by
  have hchunk := chunkLen_nonneg (flashGetSectorSize_nonneg (g := g) blk) hsize
  have hnot : ¬ (¬ whole ∧ blk = psi.startBlk) := by tauto
  rcases erase_write_cases (g := g) f blk string hchunk with ⟨h0, left, hhead, hret, hruns⟩ | ⟨h0, hret, hf', hruns⟩
  · refine .inl ⟨h0, left, _, hhead, hruns, ?_⟩
    rw [imageLoop, if_neg hnot]
    dsimp only
    rw [hret, if_pos (by omega)]
  · refine .inr ⟨h0, _, hf', hruns, ?_⟩
    rw [imageLoop, if_neg hnot]
    dsimp only
    rw [hret, if_neg (not_not.mpr rfl)]
    by_cases h : flashGetSectorSize g blk < size
    · rw [if_pos ((rest_pos_iff _ _).mpr h), if_pos h, (rest_of_lt h).1, (rest_of_lt h).2]
    · rw [if_neg (by rwa [rest_pos_iff]), if_neg h, (rest_of_ge (not_lt.mp h)).1]

theorem imageLoop_full (fuel : Nat) (f : Flash) (hwhole : ¬ whole) (string : Mem Byte) {size : Int}
    (hsize : flashGetSectorSize g psi.startBlk - psi.length < size ∨ size < 0) :
    imageLoop g psi whole (fuel + 1) f psi.startBlk string size = (some (psi.startBlk, size), f) := by
  rw [imageLoop, if_pos ⟨hwhole, rfl⟩, psiRound]
  simp only [hsize, if_true]

variable (g) in
def psiBuf (f : Flash) (blk : Int) (string : Mem Byte) (size : Int) : Mem Byte :=
  patch (patch (fun _ => 0) 0 (flashReadBuf g f.mem blk 0 (flashGetSectorSize g blk).toNat)) 0
    (readBytes string 0 size.toNat)

variable (psi) in
/-- The round in the sector of the PSI, which is the last one. -/
theorem psi_cases (fuel : Nat) (f : Flash) (hnot : ¬ whole) (string : Mem Byte) {size : Int} (hsize : 0 < size) :
    (flashGetSectorSize g psi.startBlk - psi.length < size ∧
      imageLoop g psi whole (fuel + 1) f psi.startBlk string size = (some (psi.startBlk, size), f)) ∨
    (size ≤ flashGetSectorSize g psi.startBlk - psi.length ∧ Fails (pattern f) 0 ∧ ∃ left f', f.faults.head? = some (some left) ∧
      Runs g f [.erase (uint16 psi.startBlk), .spoil (uint16 psi.startBlk) left] f' ∧
      imageLoop g psi whole (fuel + 1) f psi.startBlk string size = (some (psi.startBlk, size), f')) ∨
    (size ≤ flashGetSectorSize g psi.startBlk - psi.length ∧ ¬ Fails (pattern f) 0 ∧ ∃ f',
      Runs g f [.erase (uint16 psi.startBlk), .write (uint16 psi.startBlk) 0
        (readBytes (psiBuf g f psi.startBlk string size) 0 (flashGetSectorSize g psi.startBlk).toNat)] f' ∧
      imageLoop g psi whole (fuel + 1) f psi.startBlk string size = (some (psi.startBlk, 0), f')) := by
  have hsect := flashGetSectorSize_nonneg (g := g) psi.startBlk
  by_cases hbig : flashGetSectorSize g psi.startBlk - psi.length < size
  · exact .inl ⟨hbig, imageLoop_full fuel f hnot string (.inl hbig)⟩
  right
  have hround : imageLoop g psi whole (fuel + 1) f psi.startBlk string size =
      let w := flashWriteBuf g (flashSectorEraseInt g f psi.startBlk) psi.startBlk 0
        (psiBuf g f psi.startBlk string size) (flashGetSectorSize g psi.startBlk)
      (some (psi.startBlk, if w.1 = flashGetSectorSize g psi.startBlk then 0 else size), w.2) := by
    rw [imageLoop, if_pos ⟨hnot, rfl⟩, psiRound]
    dsimp only
    rw [if_neg (by omega), psiBuf]
  rw [hround]
  rcases erase_write_cases (g := g) f psi.startBlk (psiBuf g f psi.startBlk string size) hsect with
    ⟨h0, left, hhead, hret, hruns⟩ | ⟨h0, hret, -, hruns⟩
  · refine .inl ⟨not_lt.mp hbig, h0, left, _, hhead, hruns, ?_⟩
    dsimp only
    rw [hret, if_neg (by omega)]
  · refine .inr ⟨not_lt.mp hbig, h0, _, hruns, ?_⟩
    dsimp only
    rw [hret, if_pos rfl]

section NoFaults

variable {f : Flash} (hf : f.faults = [])

include hf

theorem never_fails (k : Nat) : ¬ Fails (pattern f) k := by simp [Fails, pattern, hf]

theorem imageLoop_round (fuel : Nat) {blk : Int} (hskip : whole ∨ blk ≠ psi.startBlk) (string : Mem Byte) {size : Int}
    (hsize : 0 < size) :
    ∃ f', Runs g f [.erase (uint16 blk),
        .write (uint16 blk) 0 (readBytes string 0 (chunkLen (flashGetSectorSize g blk) size).toNat)] f' ∧
      imageLoop g psi whole (fuel + 1) f blk string size =
        if flashGetSectorSize g blk < size then
          imageLoop g psi whole fuel f' (blk + 1) (view string (flashGetSectorSize g blk))
            (size - flashGetSectorSize g blk)
        else (some (blk + 1, 0), f') := by
  rcases round_cases (g := g) fuel f hskip string hsize with ⟨h0, -⟩ | ⟨-, f', -, hruns, he⟩
  · exact absurd h0 (never_fails hf 0)
  · exact ⟨f', hruns, he⟩

theorem imageLoop_shared (fuel : Nat) (hnot : ¬ whole) (string : Mem Byte) {size : Int} (hsize : 0 < size)
    (hfit : size ≤ flashGetSectorSize g psi.startBlk - psi.length) :
    ∃ f' bs, Runs g f [.erase (uint16 psi.startBlk), .write (uint16 psi.startBlk) 0 bs] f' ∧
      bs.length = flashGetSectorSize g psi.startBlk ∧
      (∀ i : Nat, i < size → i < flashGetSectorSize g psi.startBlk → bs.getD i default = string i) ∧
      imageLoop g psi whole (fuel + 1) f psi.startBlk string size = (some (psi.startBlk, 0), f') := by
  rcases psi_cases (g := g) psi fuel f hnot string hsize with ⟨hbig, -⟩ | ⟨-, h0, -⟩ | ⟨-, -, f', hruns, he⟩
  · omega
  · exact absurd h0 (never_fails hf 0)
  have hsect := flashGetSectorSize_nonneg (g := g) psi.startBlk
  refine ⟨f', _, hruns, by rw [length_readBytes]; omega, fun i hi hik => ?_, he⟩
  rw [getD_readBytes _ _ _ _ (by omega), psiBuf, patch_inside _ _ _ _ (by omega) (by rw [length_readBytes]; omega),
    getD_readBytes _ _ _ _ (by omega)]
  exact congrArg string (by omega)

end NoFaults

theorem eraseBlks_runs (f : Flash) (blks : List Int) :
    Runs g f (blks.map fun b => .erase (uint16 b)) (eraseBlks g f blks) := by
  induction blks generalizing f with
  | nil => exact Runs.refl f
  | cons b blks ih => exact (erase_runs f b).trans (ih _)

theorem eraseBlks_outside (f : Flash) {b i : Int} (hb : 0 ≤ b) (hi : i < blkStart g b) :
    (eraseBlks g f (blkRange b (flashGetNumsectors g))).mem i = f.mem i := by
  rw [(eraseBlks_runs f _).mem]
  refine replay_outside (fun op hop => ?_) f.mem fun op hop => ?_ <;> obtain ⟨c, hc, rfl⟩ := List.mem_map.mp hop
  · trivial
  · obtain ⟨h1, h2⟩ := mem_blkRange.mp hc
    have hmono := blkStart_mono (g := g) h1
    rw [Op.sector, sectorBase_eq (by omega) h2]
    exact .inl (by omega)

section Set

variable {info : FlashAddrInfo} (f : Flash) {addr : Int} (string : Mem Byte) {size : Int} (hblk : 0 ≤ flashGetBlk g addr)

include hblk

theorem imageSet_none (h : (imageLoop g info.persistent (wholeImage g info addr size)
      (maxSectors - (flashGetBlk g addr).toNat) f (flashGetBlk g addr) string size).1 = none) :
    kerSysBcmImageSet g info f addr string size = (none, (imageLoop g info.persistent (wholeImage g info addr size)
      (maxSectors - (flashGetBlk g addr).toNat) f (flashGetBlk g addr) string size).2) := by
  rw [kerSysBcmImageSet]
  dsimp only
  rw [if_neg (not_lt.mpr hblk), h]

theorem imageSet_some {b left : Int} (h : (imageLoop g info.persistent (wholeImage g info addr size)
      (maxSectors - (flashGetBlk g addr).toNat) f (flashGetBlk g addr) string size).1 = some (b, left)) :
    kerSysBcmImageSet g info f addr string size =
      (some (if left = 0 then 0 else if wholeImage g info addr size then max b (flashGetNumsectors g) else b),
        eraseBlks g (imageLoop g info.persistent (wholeImage g info addr size)
          (maxSectors - (flashGetBlk g addr).toNat) f (flashGetBlk g addr) string size).2
          (if wholeImage g info addr size then blkRange b (flashGetNumsectors g) else [])) := by
  rw [kerSysBcmImageSet]
  dsimp only
  rw [if_neg (not_lt.mpr hblk), h]
  dsimp only
  split_ifs <;> rfl

end Set

end AliceModem.ImageFaults
