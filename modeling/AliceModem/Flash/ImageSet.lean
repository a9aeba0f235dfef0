import AliceModem.Flash.Regions

namespace AliceModem.ImageSet

open Words Hwdefs Sectors ByteMemory Device SharedBlks Regions

def evenSize (sectSize size : Int) : Int := if size < sectSize ∧ size % 2 = 1 then size + 1 else size

def chunkLen (sectSize size : Int) : Int := if size < sectSize then evenSize sectSize size else sectSize

variable (g : Geometry) (psi : Region) (whole : Prop) [Decidable whole]

/-- The sector in which the PSI starts is read, changed at its start and
written back, if the rest of the image leaves the PSI alone. A copy of a
negative number of bytes fails. -/
def psiRound (f : Flash) (blk : Int) (string : Mem Byte) (size : Int) : (Int × Int) × Flash :=
  let sectSize := flashGetSectorSize g blk
  if sectSize - psi.length < size ∨ size < 0 then ((blk, size), f)
  else
    let pTempBuf := patch (fun _ => 0) 0 (flashReadBuf g f.mem blk 0 sectSize.toNat)
    let pTempBuf := patch pTempBuf 0 (readBytes string 0 size.toNat)
    let w := flashWriteBuf g (flashSectorEraseInt g f blk) blk 0 pTempBuf sectSize
    ((blk, if w.1 = sectSize then 0 else size), w.2)

/-- The write loop: `blk_start` and `size` after it. Past the last sector the
table holds sizes of zero, so the loop makes no progress and runs off it. -/
def imageLoop : Nat → Flash → Int → Mem Byte → Int → Option (Int × Int) × Flash
  | 0, f, _, _, _ => (none, f)
  | fuel + 1, f, blk, string, size =>
      if ¬ whole ∧ blk = psi.startBlk then
        let r := psiRound g psi f blk string size
        (some r.1, r.2)
      else
        let sectSize := flashGetSectorSize g blk
        let n := chunkLen sectSize size
        let w := flashWriteBuf g (flashSectorEraseInt g f blk) blk 0 string n
        if w.1 ≠ n then (some (blk, evenSize sectSize size), w.2)
        else if 0 < evenSize sectSize size - n then
          imageLoop fuel w.2 (blk + 1) (view string n) (evenSize sectSize size - n)
        else (some (blk + 1, evenSize sectSize size - n), w.2)

def eraseBlks (f : Flash) (blks : List Int) : Flash := blks.foldl (flashSectorEraseInt g) f

variable (info : FlashAddrInfo)

def wholeImage (flashStartAddr size : Int) : Prop :=
  uint32 flashStartAddr = uint32 g.flashBase ∧ uint32 info.rootfsStartOffset < uint32 size

instance (flashStartAddr size : Int) : Decidable (wholeImage g info flashStartAddr size) :=
  inferInstanceAs (Decidable (_ ∧ _))

def kerSysBcmImageSet (f : Flash) (flashStartAddr : Int) (string : Mem Byte) (size : Int) : Option Int × Flash :=
  let blkStart := flashGetBlk g flashStartAddr
  if blkStart < 0 then (some (-1), f)
  else
    let r := imageLoop g info.persistent (wholeImage g info flashStartAddr size) (maxSectors - blkStart.toNat) f
      blkStart string size
    match r.1 with
    | none => (none, r.2)
    | some (blk, left) =>
        if wholeImage g info flashStartAddr size then
          (some (if left = 0 then 0 else max blk (flashGetNumsectors g)),
            eraseBlks g r.2 (blkRange blk (flashGetNumsectors g)))
        else (some (if left = 0 then 0 else blk), r.2)

variable {g psi whole info}

theorem chunkLen_le (sectSize size : Int) : chunkLen sectSize size ≤ sectSize := by
  unfold chunkLen evenSize
  split_ifs <;> omega

theorem rest_pos_iff (sectSize size : Int) :
    0 < evenSize sectSize size - chunkLen sectSize size ↔ sectSize < size := by
  unfold chunkLen evenSize
  split_ifs <;> omega

theorem rest_of_lt {sectSize size : Int} (h : sectSize < size) :
    evenSize sectSize size - chunkLen sectSize size = size - sectSize ∧ chunkLen sectSize size = sectSize := by
  unfold chunkLen evenSize
  split_ifs <;> omega

theorem rest_of_ge {sectSize size : Int} (h : size ≤ sectSize) :
    evenSize sectSize size - chunkLen sectSize size = 0 ∧ size ≤ chunkLen sectSize size := by
  unfold chunkLen evenSize
  split_ifs <;> omega

theorem blkStart_next {a : Int} (hl : 0 ≤ a) (hu : a < 65536) :
    blkStart g (a + 1) = blkStart g a + flashGetSectorSize g a := by
  by_cases h : a < g.sec.length
  · exact blkStart_succ hl h
  · have h16 := uint16_of_range hl hu
    rw [blkStart, blkStart, List.take_of_length_le (by omega), List.take_of_length_le (by omega), flashGetSectorSize,
      List.getD_eq_getElem?_getD, List.getElem?_eq_none (by omega)]
    simp

/-- The accesses of the loop: whatever the writes do, none lies before the
first sector or beyond the sector that the last byte falls in. -/
structure Reached (g : Geometry) (blk size : Int) (op : Op) : Prop where
  first : blk ≤ op.sector
  last : op.sector = blk ∨ blkStart g op.sector < blkStart g blk + size
  inside : op.Inside g

theorem Reached.prev {blk size : Int} {op : Op}
    (h : Reached g (blk + 1) (size - flashGetSectorSize g blk) op) (hl : 0 ≤ blk) (hu : blk < 65536)
    (hlt : flashGetSectorSize g blk < size) : Reached g blk size op ∧ blk < op.sector := by
  have hnext := blkStart_next (g := g) hl hu
  obtain ⟨h1, h2, h3⟩ := h
  refine ⟨⟨by omega, .inr ?_, h3⟩, by omega⟩
  rcases h2 with h2 | h2
  · rw [h2]
    omega
  · omega

theorem round_runs (f : Flash) {blk : Int} (hl : 0 ≤ blk) (hu : blk < 65536) (b : Mem Byte) {n : Int}
    (hn : n ≤ flashGetSectorSize g blk) (size : Int) :
    ∃ ops, Runs g f ops (flashWriteBuf g (flashSectorEraseInt g f blk) blk 0 b n).2 ∧
      ∀ op ∈ ops, Reached g blk size op ∧ op.sector = blk := by
  have h16 := uint16_of_range hl hu
  have hsize := flashGetSectorSize_le (g := g) blk
  obtain ⟨ws, hw, hsec⟩ := write_runs (g := g) (flashSectorEraseInt g f blk) blk n b (by omega)
  refine ⟨_, (erase_runs f blk).trans hw, ?_⟩
  intro op hop
  have hop' : op.sector = uint16 blk ∧ op.Inside g := by
    rcases List.mem_append.mp hop with h | h
    · rw [List.mem_singleton] at h
      subst h
      exact ⟨rfl, trivial⟩
    · exact hsec op h
  exact ⟨⟨by omega, .inl (by omega), hop'.2⟩, by omega⟩

omit [Decidable whole] in
variable (g psi whole) in
/-- The sector of the PSI is the last one, and is left out if the image needs the part of the PSI. -/
def BeforePsi (blk size : Int) (op : Op) : Prop :=
  ¬ whole → blk ≤ psi.startBlk → op.sector < psi.startBlk ∨ op.sector = psi.startBlk ∧
    ¬ (flashGetSectorSize g psi.startBlk - psi.length < blkStart g blk + size - blkStart g psi.startBlk ∨
      blkStart g blk + size - blkStart g psi.startBlk < 0)

variable (psi whole) in
theorem imageLoop_runs (fuel : Nat) (f : Flash) {blk : Int} (hl : 0 ≤ blk) (hu : blk + fuel ≤ 65536)
    (string : Mem Byte) (size : Int) :
    ∃ ops, Runs g f ops (imageLoop g psi whole fuel f blk string size).2 ∧
      ∀ op ∈ ops, Reached g blk size op ∧ BeforePsi g psi whole blk size op := by
  induction fuel generalizing f blk string size with
  | zero => exact ⟨[], Runs.refl f, by simp⟩
  | succ fuel ih =>
      push_cast at hu
      rw [imageLoop]
      split
      next hhere =>
        rw [psiRound]
        dsimp only
        split
        next => exact ⟨[], Runs.refl f, by simp⟩
        next hroom =>
          obtain ⟨ops, hr, hop⟩ := round_runs f hl (by omega) _ (le_refl (flashGetSectorSize g blk)) size
          refine ⟨ops, hr, fun op h => ⟨(hop op h).1, fun _ _ => .inr ⟨(hop op h).2.trans hhere.2, ?_⟩⟩⟩
          rwa [← hhere.2, add_sub_cancel_left]
      next hhere =>
        have hne (hw : ¬ whole) : blk ≠ psi.startBlk := fun h => hhere ⟨hw, h⟩
        dsimp only
        obtain ⟨ops, hr, hop⟩ := round_runs f hl (by omega) string
          (chunkLen_le (flashGetSectorSize g blk) size) size
        have hown (op : Op) (h : op ∈ ops) : Reached g blk size op ∧ BeforePsi g psi whole blk size op := by
          refine ⟨(hop op h).1, fun hw hle => .inl ?_⟩
          rw [(hop op h).2]
          exact lt_of_le_of_ne hle (hne hw)
        split
        · exact ⟨ops, hr, hown⟩
        · split
          next hrest =>
            rw [rest_pos_iff] at hrest
            rw [(rest_of_lt hrest).1]
            obtain ⟨rs, hr', hop'⟩ := ih (flashWriteBuf g (flashSectorEraseInt g f blk) blk 0 string
              (chunkLen (flashGetSectorSize g blk) size)).2 (show 0 ≤ blk + 1 by omega) (by omega)
              (view string (chunkLen (flashGetSectorSize g blk) size)) (size - flashGetSectorSize g blk)
            refine ⟨_, hr.trans hr', ?_⟩
            intro op h
            rcases List.mem_append.mp h with h | h
            · exact hown op h
            · have hnext := blkStart_next (g := g) hl (by omega)
              refine ⟨((hop' op h).1.prev hl (by omega) hrest).1, fun hw hle => ?_⟩
              have hpsi := (hop' op h).2 hw (Int.add_one_le_of_lt (lt_of_le_of_ne hle (hne hw)))
              omega
          next => exact ⟨ops, hr, hown⟩

theorem runs_unique {f f' : Flash} {xs ys : List Op} (h : Runs g f xs f') (h' : Runs g f ys f') : xs = ys := by
  have htrace := h.trace
  rw [h'.trace] at htrace
  exact (List.append_cancel_left htrace).symm

theorem runs_reached {fuel : Nat} {f : Flash} {blk : Int} (hl : 0 ≤ blk) (hu : blk + fuel ≤ 65536) {string : Mem Byte}
    {size : Int} {ops : List Op} (h : Runs g f ops (imageLoop g psi whole fuel f blk string size).2) :
    ∀ op ∈ ops, Reached g blk size op := by
  obtain ⟨ops', h', hreached⟩ := imageLoop_runs (g := g) psi whole fuel f hl hu string size
  exact runs_unique h h' ▸ fun op hop => (hreached op hop).1

theorem blkStart_length {a : Int} (h : g.sec.length ≤ a) : blkStart g a = flashGetTotalSize g := by
  rw [blkStart, flashGetTotalSize, List.take_of_length_le (by omega)]

theorem Reached.sector_lt {blk size : Int} {op : Op} (h : Reached g blk size op) (hu : blk < g.sec.length)
    (hfit : blkStart g blk + size ≤ flashGetTotalSize g) : (op.sector : Int) < g.sec.length := by
  rcases h.last with h | h
  · omega
  · by_contra hge
    rw [blkStart_length (by omega)] at h
    omega

theorem Reached.outside {blk size : Int} {op : Op} (h : Reached g blk size op)
    (hu : blk < g.sec.length) (hfit : blkStart g blk + size ≤ flashGetTotalSize g) {i : Int}
    (hi : i < blkStart g blk ∨
      ∃ c, blk < c ∧ c ≤ g.sec.length ∧ blkStart g blk + size ≤ blkStart g c ∧ blkStart g c ≤ i) :
    i < sectorBase g op.sector ∨ sectorBase g op.sector + sectorLength g op.sector ≤ i := by
  have hsec := h.sector_lt hu hfit
  obtain ⟨hbase, hend⟩ := sector_span hsec
  rcases hi with hi | ⟨c, hc, hcn, hlast, hi⟩
  · have := blkStart_mono (g := g) h.first
    omega
  · have hlt : (op.sector : Int) < c := by
      rcases h.last with h | h
      · omega
      · by_contra hge
        have := blkStart_mono (g := g) (show c ≤ op.sector by omega)
        omega
    have := blkStart_mono (g := g) (show (op.sector : Int) + 1 ≤ c by omega)
    omega

theorem blk_lt_of_end {blk size : Int} (hl : 0 ≤ blk) (hu : blk < 65536) (hsize : 0 < size)
    (hend : size ≤ flashGetSectorSize g blk) : blk < g.sec.length := by
  by_contra hout
  have hnext := blkStart_next (g := g) hl hu
  have h0 := blkStart_length (g := g) (a := blk) (by omega)
  have h1 := blkStart_length (g := g) (a := blk + 1) (by omega)
  omega

theorem imageLoop_blk_le (fuel : Nat) (f : Flash) (blk : Int) (string : Mem Byte) (size : Int) {blk' left : Int}
    (h : (imageLoop g psi whole fuel f blk string size).1 = some (blk', left)) : blk ≤ blk' := by
  induction fuel generalizing f blk string size with
  | zero => simp [imageLoop] at h
  | succ fuel ih =>
      rw [imageLoop] at h
      split at h
      · rw [psiRound] at h
        dsimp only at h
        split at h <;> simp only [Option.some.injEq, Prod.mk.injEq] at h <;> omega
      · dsimp only at h
        split at h
        · simp only [Option.some.injEq, Prod.mk.injEq] at h
          omega
        · split at h
          · have := ih _ _ _ _ h
            omega
          · simp only [Option.some.injEq, Prod.mk.injEq] at h
            omega

theorem imageSet_fuel {addr : Int} (hblk : 0 ≤ flashGetBlk g addr) :
    ∃ fuel, maxSectors - (flashGetBlk g addr).toNat = fuel + 1 ∧ flashGetBlk g addr + fuel = 1023 := by
  have hlt := flashGetBlk_lt (g := g) addr
  have hle := g.nsect_le
  simp only [maxSectors] at hle ⊢
  exact ⟨1023 - (flashGetBlk g addr).toNat, by omega, by omega⟩

theorem kerSysBcmImageSet_flash (f : Flash) {addr size : Int} (hnot : ¬ wholeImage g info addr size)
    (hblk : 0 ≤ flashGetBlk g addr) (string : Mem Byte) :
    (kerSysBcmImageSet g info f addr string size).2 =
      (imageLoop g info.persistent (wholeImage g info addr size) (maxSectors - (flashGetBlk g addr).toNat) f
        (flashGetBlk g addr) string size).2 := by
  rw [kerSysBcmImageSet]
  dsimp only
  rw [if_neg (by omega)]
  split
  · rfl
  · rw [if_neg hnot]

theorem kerSysBcmImageSet_runs (f : Flash) {addr size : Int} (hnot : ¬ wholeImage g info addr size)
    (hblk : 0 ≤ flashGetBlk g addr) (string : Mem Byte) :
    ∃ ops, Runs g f ops (kerSysBcmImageSet g info f addr string size).2 ∧
      ∀ op ∈ ops, Reached g (flashGetBlk g addr) size op ∧
        BeforePsi g info.persistent (wholeImage g info addr size) (flashGetBlk g addr) size op := by
  have hlt := flashGetBlk_lt (g := g) addr
  have hle := g.nsect_le
  simp only [maxSectors] at hle
  rw [kerSysBcmImageSet_flash f hnot hblk string]
  exact imageLoop_runs info.persistent _ _ f hblk (by simp only [maxSectors]; omega) string size

theorem eraseBlks_faults (f : Flash) (blks : List Int) : (eraseBlks g f blks).faults = f.faults := by
  induction blks generalizing f with
  | nil => rfl
  | cons b blks ih => exact ih _

theorem kerSysBcmImageSet_faults (f : Flash) (hf : f.faults = []) (addr : Int) (string : Mem Byte) (size : Int) :
    (kerSysBcmImageSet g info f addr string size).2.faults = [] := by
  have hlt := flashGetBlk_lt (g := g) addr
  have hle := g.nsect_le
  simp only [maxSectors] at hle
  rw [kerSysBcmImageSet]
  dsimp only
  split
  next => exact hf
  next hblk =>
    obtain ⟨ops, hr, -⟩ := imageLoop_runs (g := g) info.persistent (wholeImage g info addr size)
      (maxSectors - (flashGetBlk g addr).toNat) f (not_lt.mp hblk) (by simp only [maxSectors]; omega) string size
    split
    · exact hr.faults hf
    · split
      · rw [eraseBlks_faults]
        exact hr.faults hf
      · exact hr.faults hf

theorem kerSysBcmImageSet_frame (f : Flash) {addr size : Int} (hnot : ¬ wholeImage g info addr size)
    (hblk : 0 ≤ flashGetBlk g addr) (hfit : blkStart g (flashGetBlk g addr) + size ≤ flashGetTotalSize g)
    (string : Mem Byte) {i : Int}
    (hi : i < blkStart g (flashGetBlk g addr) ∨ ∃ c, flashGetBlk g addr < c ∧ c ≤ g.sec.length ∧
      blkStart g (flashGetBlk g addr) + size ≤ blkStart g c ∧ blkStart g c ≤ i) :
    (kerSysBcmImageSet g info f addr string size).2.mem i = f.mem i := by
  obtain ⟨ops, hr, hop⟩ := kerSysBcmImageSet_runs f hnot hblk string
  rw [hr.mem]
  exact replay_outside (fun op h => (hop op h).1.inside) f.mem
    (fun op h => (hop op h).1.outside (flashGetBlk_lt addr) hfit hi)

end AliceModem.ImageSet
