import AliceModem.Flash.Device

namespace AliceModem.SharedBlks

open Words Hwdefs Sectors ByteMemory Device

variable (g : Geometry)

def blkRange (startBlk endBlk : Int) : List Int :=
  (List.range (endBlk - startBlk).toNat).map (fun k : Nat => startBlk + k)

def usedBlkSize (startBlk endBlk : Int) : Int :=
  ((blkRange startBlk endBlk).map (flashGetSectorSize g)).sum

def readBlks (m : Mem Byte) : List Int → Int → Mem Byte → Mem Byte
  | [], _, buf => buf
  | i :: is, p, buf =>
      readBlks m is (p + flashGetSectorSize g i)
        (patch buf p (flashReadBuf g m i 0 (flashGetSectorSize g i).toNat))

/-- The sectors of a region in one buffer, seen from the buffer's first byte.
`heap` is the memory around the buffer. -/
def getSharedBlks (m heap : Mem Byte) (startBlk endBlk : Int) : Mem Byte :=
  readBlks g m (blkRange startBlk endBlk) 0 (fill heap 0 (usedBlkSize g startBlk endBlk).toNat 0)

def writeBlks : List Int → Mem Byte → Flash → Int × Flash
  | [], _, f => (0, f)
  | i :: is, buf, f =>
      let sectSize := flashGetSectorSize g i
      let w := flashWriteBuf g (flashSectorEraseInt g f i) i 0 buf sectSize
      if w.1 ≠ sectSize then (-1, w.2) else writeBlks is (view buf sectSize) w.2

def setSharedBlks (f : Flash) (startBlk endBlk : Int) (buf : Mem Byte) : Int × Flash :=
  writeBlks g (blkRange startBlk endBlk) buf f

/-- Offset in the device of the first byte of a sector; one past the table it
is the size of the device. -/
def blkStart (blk : Int) : Int := ((g.sec.take blk.toNat).sum : Nat)

variable {g}

theorem blkRange_nil {a b : Int} (h : b ≤ a) : blkRange a b = [] := by
  simp [blkRange, Int.toNat_of_nonpos (show b - a ≤ 0 by omega)]

theorem blkRange_cons {a b : Int} (h : a < b) : blkRange a b = a :: blkRange (a + 1) b := by
  have hn : (b - a).toNat = (b - (a + 1)).toNat + 1 := by omega
  rw [blkRange, hn, List.range_succ_eq_map]
  simp only [List.map_cons, List.map_map, blkRange, Int.ofNat_zero, Int.add_zero]
  congr 1
  apply List.map_congr_left
  intro k _
  simp only [Function.comp_apply]
  push_cast
  ring

theorem mem_blkRange {a b i : Int} : i ∈ blkRange a b ↔ a ≤ i ∧ i < b := by
  simp only [blkRange, List.mem_map, List.mem_range]
  constructor
  · rintro ⟨k, hk, rfl⟩
    omega
  · intro h
    exact ⟨(i - a).toNat, by omega, by omega⟩

theorem uint16_sector {a : Int} (hl : 0 ≤ a) (hu : a ≤ g.sec.length) : (uint16 a : Int) = a := by
  have hle := g.nsect_le
  simp only [maxSectors] at hle
  exact uint16_of_range hl (by omega)

theorem blkStart_succ {a : Int} (hl : 0 ≤ a) (hu : a < g.sec.length) :
    blkStart g (a + 1) = blkStart g a + flashGetSectorSize g a := by
  have h16 := uint16_sector hl hu.le
  have hn : (a + 1).toNat = a.toNat + 1 := by omega
  have hs : uint16 a = a.toNat := by omega
  rw [blkStart, blkStart, hn, take_sum_succ _ _ (by omega), flashGetSectorSize, hs]
  push_cast
  rfl

theorem sectorBase_eq {a : Int} (hl : 0 ≤ a) (hu : a < g.sec.length) :
    sectorBase g (uint16 a) = blkStart g a := by
  have h16 := uint16_sector hl hu.le
  have hs : uint16 a = a.toNat := by omega
  rw [sectorBase, if_pos (by omega), hs, blkStart]

theorem sectorLength_eq {a : Int} (hl : 0 ≤ a) (hu : a < g.sec.length) :
    (sectorLength g (uint16 a) : Int) = flashGetSectorSize g a := by
  have h16 := uint16_sector hl hu.le
  rw [sectorLength, if_pos (by omega), flashGetSectorSize]

theorem sector_span {s : Nat} (h : (s : Int) < g.sec.length) :
    sectorBase g s = blkStart g s ∧ sectorBase g s + sectorLength g s = blkStart g (s + 1) := by
  have h16 : uint16 (s : Int) = s := by
    have := uint16_sector (Int.natCast_nonneg s) h.le
    omega
  have hbase := sectorBase_eq (Int.natCast_nonneg s) h
  have hlen := sectorLength_eq (Int.natCast_nonneg s) h
  rw [h16] at hbase hlen
  rw [blkStart_succ (Int.natCast_nonneg s) h]
  omega

theorem flashGetSectorSize_nonneg (a : Int) : 0 ≤ flashGetSectorSize g a := Int.natCast_nonneg _

theorem flashGetSectorSize_ge {a : Int} (hl : 0 ≤ a) (hu : a < g.sec.length) :
    256 ≤ flashGetSectorSize g a := by
  have h16 := uint16_sector hl hu.le
  have := sectorSize_ge (g := g) (s := uint16 a) (by omega)
  rw [flashGetSectorSize]
  omega

theorem blkStart_le_total (a : Int) : blkStart g a ≤ flashGetTotalSize g := by
  have := take_sum_le g.sec a.toNat
  rw [blkStart, flashGetTotalSize]
  omega

theorem blkStart_mono {a b : Int} (h : a ≤ b) : blkStart g a ≤ blkStart g b := by
  have := take_sum_le (g.sec.take b.toNat) a.toNat
  rw [List.take_take, Nat.min_eq_left (by omega)] at this
  rw [blkStart, blkStart]
  omega

theorem flashGetBlk_offset (off : Int) (hl : 0 ≤ off) (hu : off < flashGetTotalSize g) :
    0 ≤ flashGetBlk g (g.flashBase + off) ∧ blkStart g (flashGetBlk g (g.flashBase + off)) ≤ off ∧
      off < blkStart g (flashGetBlk g (g.flashBase + off) + 1) := by
  have htotal := g.total_lt
  have hoff : int32 (g.flashBase + off - g.flashBase) = off := by
    rw [add_sub_cancel_left]
    rw [flashGetTotalSize] at hu
    exact int32_of_range (by omega) (by omega)
  obtain ⟨s, hs, he, h1, h2⟩ := flashGetBlk_inside (g := g) (g.flashBase + off) (by omega) (by omega)
  obtain ⟨hbase, hnext⟩ := sector_span (g := g) (s := s) (by omega)
  rw [sectorLength, if_pos hs] at hnext
  rw [hoff] at h1 h2
  rw [he]
  exact ⟨by omega, by omega, by omega⟩

theorem blkStart_zero : blkStart g 0 = 0 := by simp [blkStart]

theorem blkStart_one : blkStart g 1 = flashGetSectorSize g 0 := by
  have h := blkStart_succ (g := g) (a := 0) le_rfl (by have := g.nsect_pos; omega)
  rwa [zero_add, blkStart_zero, zero_add] at h

theorem usedBlkSize_eq {a b : Int} (hl : 0 ≤ a) (hab : a ≤ b) (hu : b ≤ g.sec.length) :
    usedBlkSize g a b = blkStart g b - blkStart g a := by
  obtain ⟨k, hk⟩ : ∃ k : Nat, b = a + k := ⟨(b - a).toNat, by omega⟩
  induction k generalizing a with
  | zero =>
      have he : b = a := by simpa using hk
      rw [usedBlkSize, blkRange_nil (by omega), he]
      simp
  | succ k ih =>
      have ha : a < b := by push_cast at hk; omega
      have h := ih (a := a + 1) (by omega) (by omega) (by push_cast at hk; omega)
      have hs := blkStart_succ hl (show a < g.sec.length by omega)
      rw [usedBlkSize] at h ⊢
      rw [blkRange_cons ha, List.map_cons, List.sum_cons, h]
      omega

theorem readBlks_eq (m : Mem Byte) {a b : Int} (hl : 0 ≤ a) (hab : a ≤ b) (hu : b ≤ g.sec.length)
    (p : Int) (buf : Mem Byte) (i : Int) :
    readBlks g m (blkRange a b) p buf i =
      if p ≤ i ∧ i < p + (blkStart g b - blkStart g a) then m (blkStart g a + (i - p)) else buf i := by
  obtain ⟨k, hk⟩ : ∃ k : Nat, b = a + k := ⟨(b - a).toNat, by omega⟩
  induction k generalizing a p buf with
  | zero =>
      have he : b = a := by simpa using hk
      rw [blkRange_nil (by omega), readBlks, if_neg (by rw [he]; omega)]
  | succ k ih =>
      have ha : a < b := by push_cast at hk; omega
      have hs := blkStart_succ hl (show a < g.sec.length by omega)
      have hmono := blkStart_mono (g := g) (show a + 1 ≤ b by omega)
      have hpos := flashGetSectorSize_nonneg (g := g) a
      rw [blkRange_cons ha, readBlks, ih (a := a + 1) (by omega) (by omega) _ _ (by push_cast at hk; omega)]
      by_cases hi : p ≤ i ∧ i < p + flashGetSectorSize g a
      · -- the byte lies in the sector just read
        rw [if_neg (by omega), if_pos (by omega), patch_inside _ _ _ _ hi.1
          (by rw [flashReadBuf, length_readBytes]; omega), flashReadBuf,
          getD_readBytes _ _ _ _ (by omega), sectorBase_eq hl (by omega)]
        congr 1
        omega
      · have hout : patch buf p (flashReadBuf g m a 0 (flashGetSectorSize g a).toNat) i = buf i :=
          patch_outside _ _ _ _ (by rw [flashReadBuf, length_readBytes]; omega)
        rw [hout]
        by_cases hj : p + flashGetSectorSize g a ≤ i ∧ i < p + (blkStart g b - blkStart g a)
        · rw [if_pos (by omega), if_pos (by omega)]
          congr 1
          omega
        · rw [if_neg (by omega), if_neg (by omega)]

theorem getSharedBlks_eq (m heap : Mem Byte) {a b : Int} (hl : 0 ≤ a) (hab : a ≤ b)
    (hu : b ≤ g.sec.length) (i : Int) :
    getSharedBlks g m heap a b i =
      if 0 ≤ i ∧ i < blkStart g b - blkStart g a then m (blkStart g a + i) else heap i := by
  have hmono := blkStart_mono (g := g) hab
  rw [getSharedBlks, readBlks_eq m hl hab hu, usedBlkSize_eq hl hab hu]
  by_cases hi : 0 ≤ i ∧ i < blkStart g b - blkStart g a
  · rw [if_pos (by omega), if_pos hi]
    congr 1
    omega
  · rw [if_neg (by omega), if_neg hi]
    exact fill_outside _ _ _ _ _ (by omega)

/-- An access to one of the sectors `a`, ..., `b - 1` that stays inside it. -/
def Op.Within (g : Geometry) (a b : Int) (op : Op) : Prop :=
  (a ≤ op.sector ∧ (op.sector : Int) < b) ∧ op.Inside g

theorem flashGetSectorSize_le (a : Int) : flashGetSectorSize g a ≤ sectorLength g (uint16 a) := by
  rw [flashGetSectorSize, sectorLength]
  split
  · exact le_rfl
  next h =>
    rw [List.getD_eq_getElem?_getD, List.getElem?_eq_none (by omega)]
    exact Int.natCast_nonneg _

theorem setSharedBlks_runs (f : Flash) {a b : Int} (hl : 0 ≤ a) (hu : b ≤ 65536) (buf : Mem Byte) :
    ∃ ops, Runs g f ops (setSharedBlks g f a b buf).2 ∧ ∀ op ∈ ops, Op.Within g a b op := by
  have main (is : List Int) (his : ∀ i ∈ is, a ≤ i ∧ i < b) (buf : Mem Byte) (f : Flash) :
      ∃ ops, Runs g f ops (writeBlks g is buf f).2 ∧ ∀ op ∈ ops, Op.Within g a b op := by
    induction is generalizing buf f with
    | nil => exact ⟨[], Runs.refl f, by simp⟩
    | cons i is ih =>
        have hi := his i (by simp)
        have h16 := uint16_of_range (z := i) (by omega) (by omega)
        have he := erase_runs (g := g) f i
        obtain ⟨ws, hw, hsec⟩ := write_runs (g := g) (flashSectorEraseInt g f i) i (flashGetSectorSize g i) buf
          (flashGetSectorSize_le i)
        have hfirst := he.trans hw
        have hbound : ∀ op ∈ [Op.erase (uint16 i)] ++ ws, Op.Within g a b op := by
          intro op hop
          rcases List.mem_append.mp hop with h | h
          · rw [List.mem_singleton] at h
            subst h
            exact ⟨by rw [Op.sector]; omega, trivial⟩
          · obtain ⟨hs, hin⟩ := hsec op h
            exact ⟨by rw [hs]; omega, hin⟩
        rw [writeBlks]
        split
        · exact ⟨_, hfirst, hbound⟩
        · obtain ⟨ops, hr, hop⟩ := ih (fun j hj => his j (List.mem_cons_of_mem _ hj)) _ _
          refine ⟨_, hfirst.trans hr, ?_⟩
          intro op h
          rcases List.mem_append.mp h with h | h
          · exact hbound op h
          · exact hop op h
  exact main _ (fun i hi => mem_blkRange.mp hi) buf f

theorem replay_sector (m : Mem Byte) {a : Int} (hl : 0 ≤ a) (hu : a < g.sec.length) {bs : List Byte}
    (hbs : bs.length ≤ flashGetSectorSize g a) (i : Int) :
    replay g m [.erase (uint16 a), .write (uint16 a) 0 bs] i =
      if blkStart g a ≤ i ∧ i < blkStart g a + bs.length then bs.getD (i - blkStart g a).toNat default
      else if blkStart g a ≤ i ∧ i < blkStart g a + flashGetSectorSize g a then 0xff
      else m i := by
  have hlen := sectorLength_eq hl hu
  have herased : ∀ j, blkStart g a ≤ j → j < blkStart g a + flashGetSectorSize g a →
      Op.apply g m (.erase (uint16 a)) j = 0xff := by
    intro j h1 h2
    rw [Op.apply, sectorBase_eq hl hu]
    exact fill_inside _ _ _ _ _ h1 (by omega)
  have hprog : replay g m [.erase (uint16 a), .write (uint16 a) 0 bs] =
      patch (Op.apply g m (.erase (uint16 a))) (blkStart g a) bs := by
    change program (Op.apply g m (.erase (uint16 a))) (sectorBase g (uint16 a) + 0) bs = _
    rw [sectorBase_eq hl hu, Int.add_zero]
    apply program_erased
    intro j h1 h2
    exact herased j h1 (by omega)
  rw [hprog]
  by_cases h1 : blkStart g a ≤ i ∧ i < blkStart g a + bs.length
  · rw [if_pos h1, patch_inside _ _ _ _ h1.1 h1.2]
  · rw [if_neg h1, patch_outside _ _ _ _ (by omega)]
    by_cases h2 : blkStart g a ≤ i ∧ i < blkStart g a + flashGetSectorSize g a
    · rw [if_pos h2]
      exact herased i h2.1 h2.2
    · rw [if_neg h2, Op.apply, sectorBase_eq hl hu]
      exact fill_outside _ _ _ _ _ (by omega)

theorem erase_write_runs (f : Flash) (hf : f.faults = []) (a : Int) (buf : Mem Byte) (n : Nat) :
    (flashWriteBuf g (flashSectorEraseInt g f a) a 0 buf n).1 = n ∧
    Runs g f [.erase (uint16 a), .write (uint16 a) 0 (readBytes buf 0 n)]
      (flashWriteBuf g (flashSectorEraseInt g f a) a 0 buf n).2 := by
  rw [write_ok (flashSectorEraseInt g f a) a 0 buf n hf]
  exact ⟨rfl, (erase_runs f a).trans (perform_runs _ _)⟩

theorem erase_write_sector (f : Flash) (hf : f.faults = []) {a : Int} (hl : 0 ≤ a) (hu : a < g.sec.length)
    (buf : Mem Byte) {n : Nat} (hn : n ≤ flashGetSectorSize g a) :
    (flashWriteBuf g (flashSectorEraseInt g f a) a 0 buf n).1 = n ∧
    (flashWriteBuf g (flashSectorEraseInt g f a) a 0 buf n).2.faults = [] ∧
    ∀ i, (flashWriteBuf g (flashSectorEraseInt g f a) a 0 buf n).2.mem i =
      if blkStart g a ≤ i ∧ i < blkStart g a + n then buf (i - blkStart g a)
      else if blkStart g a ≤ i ∧ i < blkStart g a + flashGetSectorSize g a then 0xff
      else f.mem i := by
  obtain ⟨hret, hruns⟩ := erase_write_runs f hf a buf n
  refine ⟨hret, hruns.faults hf, fun i => ?_⟩
  rw [hruns.mem, replay_sector f.mem hl hu (by rwa [length_readBytes]), length_readBytes]
  split
  next h =>
    rw [getD_readBytes _ _ _ _ (by omega)]
    congr 1
    omega
  next => rfl

theorem setSharedBlks_ok (f : Flash) (hf : f.faults = []) {a b : Int} (hl : 0 ≤ a) (hab : a ≤ b)
    (hu : b ≤ g.sec.length) (buf : Mem Byte) :
    (setSharedBlks g f a b buf).1 = 0 ∧ (setSharedBlks g f a b buf).2.faults = [] ∧
    ∀ i, (setSharedBlks g f a b buf).2.mem i =
      if blkStart g a ≤ i ∧ i < blkStart g b then buf (i - blkStart g a) else f.mem i := by
  rw [setSharedBlks]
  obtain ⟨k, hk⟩ : ∃ k : Nat, b = a + k := ⟨(b - a).toNat, by omega⟩
  induction k generalizing a buf f with
  | zero =>
      have he : b = a := by simpa using hk
      rw [blkRange_nil (by omega), writeBlks]
      refine ⟨rfl, hf, fun i => ?_⟩
      rw [if_neg (by rw [he]; omega)]
  | succ k ih =>
      have ha : a < b := by push_cast at hk; omega
      have hs := blkStart_succ hl (show a < g.sec.length by omega)
      have hmono := blkStart_mono (g := g) (show a + 1 ≤ b by omega)
      have hpos := flashGetSectorSize_nonneg (g := g) a
      obtain ⟨n, hn⟩ : ∃ n : Nat, flashGetSectorSize g a = n := ⟨_, rfl⟩
      obtain ⟨hret, hfault, hmem⟩ := erase_write_sector f hf hl (show a < g.sec.length by omega) buf
        (n := n) (by omega)
      rw [blkRange_cons ha, writeBlks, hn, if_neg (by rw [hret]; simp)]
      obtain ⟨h1, h2, h3⟩ := ih _ hfault (a := a + 1) (by omega) (by omega) (view buf n)
        (by push_cast at hk; omega)
      refine ⟨h1, h2, fun i => ?_⟩
      rw [h3, hmem]
      by_cases hi : blkStart g (a + 1) ≤ i ∧ i < blkStart g b
      · rw [if_pos hi, if_pos (by omega), view]
        congr 1
        omega
      · rw [if_neg hi]
        by_cases hj : blkStart g a ≤ i ∧ i < blkStart g a + n
        · rw [if_pos hj, if_pos (by omega)]
        · rw [if_neg hj, if_neg (by omega), if_neg (by omega)]

theorem writeBlks_returned {f f' : Flash} (hmem : f.mem = f'.mem) (hf' : f'.faults = []) {is : List Int}
    {buf : Mem Byte} (h : (writeBlks g is buf f).1 = 0) :
    (writeBlks g is buf f).2.mem = (writeBlks g is buf f').2.mem := by
  induction is generalizing f f' buf with
  | nil => exact hmem
  | cons i is ih =>
      obtain ⟨n, hn⟩ : ∃ n : Nat, flashGetSectorSize g i = n := ⟨_, rfl⟩
      have herase : (flashSectorEraseInt g f i).mem = (flashSectorEraseInt g f' i).mem := by
        simp only [flashSectorEraseInt, Flash.perform, hmem]
      obtain ⟨hret, hruns⟩ := erase_write_runs (g := g) f' hf' i buf n
      rw [writeBlks, hn] at h ⊢
      rw [writeBlks, hn, hret, if_neg (not_not.mpr rfl)]
      by_cases hok : (flashWriteBuf g (flashSectorEraseInt g f i) i 0 buf n).1 = n
      · rw [if_neg (not_not.mpr hok)] at h ⊢
        exact ih (write_returned herase hf' (Int.natCast_nonneg n) hok) (hruns.faults hf') h
      · rw [if_pos hok] at h
        cases h

theorem setSharedBlks_returned {f : Flash} {a b : Int} {buf : Mem Byte} (h : (setSharedBlks g f a b buf).1 = 0) :
    (setSharedBlks g f a b buf).2.mem = (setSharedBlks g (fresh f.mem) a b buf).2.mem := by
  have hmem : f.mem = (fresh f.mem).mem := rfl
  exact writeBlks_returned hmem rfl h

end AliceModem.SharedBlks
