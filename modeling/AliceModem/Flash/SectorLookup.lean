import AliceModem.Flash.Regions

namespace AliceModem.SectorLookup

open Words Hwdefs Sectors Regions

/-- The sectors of a device, which follow each other from `FLASH_BASE` on. -/
structure Table where
  flashBase : Int
  sec : List Nat
  base_range : 0 ≤ flashBase ∧ flashBase < 4294967296
  sec_pos : ∀ s ∈ sec, 0 < s
  nsect_pos : 0 < sec.length
  nsect_le : sec.length ≤ maxSectors
  total_lt : sec.sum < 2147483648

namespace Table

variable (t : Table)

def base (s : Nat) : Nat := (t.sec.take s).sum

def size (s : Nat) : Nat := t.sec.getD s 0

def getMemptr (s : Nat) : Int := uint32 (t.flashBase + t.base s)

def cfiFlashGetBlk (addr : Int) : Int :=
  let relativeAddr := int32 (addr - t.flashBase)
  let stop := blkLoop relativeAddr t.sec 0 0
  if relativeAddr < stop.1 then stop.2 - 1
  else if stop.2 = t.sec.length then -1
  else stop.2

def spiFlashGetBlk (addr : Int) : Int :=
  let relativeAddr := int32 (addr - t.flashBase)
  let stop := blkLoop relativeAddr t.sec 0 0
  if uint32 relativeAddr < uint32 stop.1 then stop.2 - 1
  else if stop.2 = t.sec.length then -1
  else stop.2

/-- The address is in the sector; the window may wrap around at the end of the address space. -/
structure Holds (addr : Int) (s : Nat) : Prop where
  lt : s < t.sec.length
  base_le : t.base s ≤ uint32 (addr - t.flashBase)
  lt_end : uint32 (addr - t.flashBase) < t.base s + t.size s

def Answer (addr blk : Int) : Prop := (∀ s, t.Holds addr s → blk = s) ∧ ((∀ s, ¬ t.Holds addr s) → blk = -1)

def Agree (addr : Int) : Prop := t.cfiFlashGetBlk addr = t.spiFlashGetBlk addr ∧ t.Answer addr (t.cfiFlashGetBlk addr)

end Table

def ofGeometry (g : Geometry) : Table :=
  ⟨g.flashBase, g.sec, g.base_range, g.sec_pos, g.nsect_pos, g.nsect_le, g.total_lt⟩

theorem flashGetBlk_ofGeometry (g : Geometry) (addr : Int) :
    flashGetBlk g addr = match g.driver with
      | .cfi => (ofGeometry g).cfiFlashGetBlk addr
      | .spi => (ofGeometry g).spiFlashGetBlk addr := rfl

namespace Table

variable {t : Table} {addr : Int}

theorem base_add_size {s : Nat} (hs : s < t.sec.length) : t.base s + t.size s = t.base (s + 1) :=
  (take_sum_succ t.sec s hs).symm

theorem base_mono {s s' : Nat} (h : s ≤ s') : t.base s ≤ t.base s' := by
  have hle := take_sum_le (t.sec.take s') s
  rwa [List.take_take, Nat.min_eq_left h] at hle

theorem base_le_total (s : Nat) : t.base s ≤ t.sec.sum := take_sum_le t.sec s

theorem Holds.unique {s s' : Nat} (h : t.Holds addr s) (h' : t.Holds addr s') : s = s' := by
  by_contra hne
  rcases Nat.lt_or_gt_of_ne hne with hlt | hlt
  · have hmono := base_mono (t := t) hlt
    rw [← base_add_size h.lt] at hmono
    exact absurd (h'.base_le.trans_lt h.lt_end) (Nat.not_lt.mpr hmono)
  · have hmono := base_mono (t := t) hlt
    rw [← base_add_size h'.lt] at hmono
    exact absurd (h.base_le.trans_lt h'.lt_end) (Nat.not_lt.mpr hmono)

theorem Holds.lt_total {s : Nat} (h : t.Holds addr s) : uint32 (addr - t.flashBase) < t.sec.sum := by
  have hend := h.lt_end
  rw [base_add_size h.lt] at hend
  exact hend.trans_le (base_le_total _)

theorem relative_eq (h : uint32 (addr - t.flashBase) < 2147483648) :
    int32 (addr - t.flashBase) = uint32 (addr - t.flashBase) := by
  have := cast_uint32 (addr - t.flashBase)
  rw [int32]
  omega

theorem relative_neg (h : 2147483648 ≤ uint32 (addr - t.flashBase)) : int32 (addr - t.flashBase) < 0 := by
  have := cast_uint32 (addr - t.flashBase)
  rw [int32]
  omega

theorem getBlk_inside {s : Nat} (h : t.Holds addr s) :
    t.cfiFlashGetBlk addr = s ∧ t.spiFlashGetBlk addr = s := by
  have htotal := t.total_lt
  have hlt := h.lt_total
  have hrel := relative_eq (hlt.trans htotal)
  obtain ⟨s', hs', hb, hu, hloop⟩ := blkLoop_inside t.sec_pos (r := int32 (addr - t.flashBase)) (by omega) (by omega)
  obtain rfl : s = s' := h.unique ⟨hs', by rw [base]; omega, by rw [base, size]; omega⟩
  have hend := base_add_size (t := t) hs'
  have hle := base_le_total (t := t) (s + 1)
  rw [base, size] at hend
  have hr32 := uint32_of_range (z := int32 (addr - t.flashBase)) (by omega) (by omega)
  have hbase32 := uint32_natCast (n := (t.sec.take s).sum) (by omega)
  have hend32 := uint32_of_range (z := (t.sec.take s).sum + t.sec.getD s 0) (by omega) (by omega)
  rw [cfiFlashGetBlk, spiFlashGetBlk]
  rcases hloop with he | ⟨he, hat⟩
  · simp only [he]
    exact ⟨(if_pos hu).trans (by omega), (if_pos (by omega)).trans (by omega)⟩
  · simp only [he]
    exact ⟨(if_neg (by omega)).trans (if_neg (by omega)), (if_neg (by omega)).trans (if_neg (by omega))⟩

theorem getBlk_beyond (hl : t.sec.sum ≤ uint32 (addr - t.flashBase)) (hu : uint32 (addr - t.flashBase) < 2147483648) :
    t.cfiFlashGetBlk addr = -1 ∧ t.spiFlashGetBlk addr = -1 := by
  have htotal := t.total_lt
  have hrel := relative_eq hu
  have he := blkLoop_beyond t.sec_pos (r := int32 (addr - t.flashBase)) (by omega)
  have hr32 := uint32_of_range (z := int32 (addr - t.flashBase)) (by omega) (by omega)
  have hend32 := uint32_natCast (n := t.sec.sum) (by omega)
  rw [cfiFlashGetBlk, spiFlashGetBlk]
  simp only [he]
  exact ⟨(if_neg (by omega)).trans (if_pos trivial), (if_neg (by omega)).trans (if_pos trivial)⟩

theorem getBlk_below (h : 2147483648 ≤ uint32 (addr - t.flashBase)) :
    t.cfiFlashGetBlk addr = -1 ∧ t.spiFlashGetBlk addr = 0 := by
  have hneg := relative_neg h
  have he := blkLoop_below hneg.le t.sec
  have hpos := t.nsect_pos
  have hzero : uint32 0 = 0 := rfl
  rw [cfiFlashGetBlk, spiFlashGetBlk]
  simp only [he]
  exact ⟨(if_pos hneg).trans (by decide), (if_neg (by omega)).trans (if_neg (by omega))⟩

theorem exists_holds (h : uint32 (addr - t.flashBase) < t.sec.sum) : ∃ s, t.Holds addr s := by
  have htotal := t.total_lt
  have hrel := relative_eq (h.trans htotal)
  obtain ⟨s, hs, hb, hu, -⟩ := blkLoop_inside t.sec_pos (r := int32 (addr - t.flashBase)) (by omega) (by omega)
  exact ⟨s, hs, by rw [base]; omega, by rw [base, size]; omega⟩

theorem cfi_answer (t : Table) (addr : Int) : t.Answer addr (t.cfiFlashGetBlk addr) := by
  refine ⟨fun s h => (getBlk_inside h).1, fun hnone => ?_⟩
  have hout : t.sec.sum ≤ uint32 (addr - t.flashBase) := by
    by_contra hlt
    obtain ⟨s, hs⟩ := exists_holds (not_le.mp hlt)
    exact hnone s hs
  by_cases hhigh : uint32 (addr - t.flashBase) < 2147483648
  · exact (getBlk_beyond hout hhigh).1
  · exact (getBlk_below (not_lt.mp hhigh)).1

theorem holds_memptr {s o : Nat} (hs : s < t.sec.length) (ho : o < t.size s) : t.Holds (t.getMemptr s + o) s := by
  have htotal := t.total_lt
  have hend := base_add_size (t := t) hs
  have hle := base_le_total (t := t) (s + 1)
  have hptr : uint32 (t.getMemptr s + o - t.flashBase) = t.base s + o := by
    have hmem := cast_uint32 (t.flashBase + t.base s)
    have hdiff := cast_uint32 (t.getMemptr s + o - t.flashBase)
    rw [getMemptr] at hdiff ⊢
    omega
  exact ⟨hs, by omega, by omega⟩

end Table

/-- The drivers agree on every address that is not below the window, or more than
half of the address space above its start; the parallel driver is right everywhere. -/
theorem sector_lookup_iff (t : Table) (addr : Int) :
    (t.Agree addr ↔ uint32 (addr - t.flashBase) < 2147483648) ∧ t.Answer addr (t.cfiFlashGetBlk addr) ∧
      (∀ s s', t.Holds addr s → t.Holds addr s' → s = s') ∧
      ∀ s o : Nat, s < t.sec.length → o < t.size s →
        t.cfiFlashGetBlk (t.getMemptr s + o) = s ∧ t.spiFlashGetBlk (t.getMemptr s + o) = s := by
  refine ⟨⟨fun hagree => ?_, fun hlow => ⟨?_, t.cfi_answer addr⟩⟩, t.cfi_answer addr, fun s s' h h' => h.unique h',
    fun s o hs ho => Table.getBlk_inside (Table.holds_memptr hs ho)⟩
  · by_contra hhigh
    obtain ⟨hcfi, hspi⟩ := Table.getBlk_below (not_lt.mp hhigh)
    have hsame := hagree.1
    rw [hcfi, hspi] at hsame
    cases hsame
  · by_cases hin : uint32 (addr - t.flashBase) < t.sec.sum
    · obtain ⟨s, hs⟩ := Table.exists_holds hin
      obtain ⟨hcfi, hspi⟩ := Table.getBlk_inside hs
      rw [hcfi, hspi]
    · obtain ⟨hcfi, hspi⟩ := Table.getBlk_beyond (not_lt.mp hin) hlow
      rw [hcfi, hspi]

theorem spi_finds_sector_below :
    (ofGeometry demoFlash).cfiFlashGetBlk (imageBase - 1) = -1 ∧
      (ofGeometry demoFlash).spiFlashGetBlk (imageBase - 1) = 0 ∧ ¬ (ofGeometry demoFlash).Agree (imageBase - 1) := by
  have hcfi : (ofGeometry demoFlash).cfiFlashGetBlk (imageBase - 1) = -1 := by decide
  have hspi : (ofGeometry demoFlash).spiFlashGetBlk (imageBase - 1) = 0 := by decide
  refine ⟨hcfi, hspi, fun h => ?_⟩
  have hsame := h.1
  rw [hcfi, hspi] at hsame
  cases hsame

end AliceModem.SectorLookup
