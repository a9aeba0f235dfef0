import AliceModem.Hwdefs
import AliceModem.Lib.Words
import Mathlib.Tactic.Linarith

namespace AliceModem.Sectors

open Words Hwdefs

inductive Driver
  | cfi
  | spi
  deriving DecidableEq, Repr

/-- What probing leaves behind: the driver that answered and the sizes in
`meminfo.sec`. Bases are consecutive, so they are not stored. Sizes come in
units of 256 bytes, and the first sector is required to hold the NVRAM block. -/
structure Geometry where
  driver : Driver
  flashBase : Int
  sec : List Nat
  base_range : 0 ≤ flashBase ∧ flashBase < 4294967296
  sec_ge : ∀ s ∈ sec, 256 ≤ s
  nsect_pos : 0 < sec.length
  nsect_le : sec.length ≤ maxSectors
  total_lt : sec.sum < 2147483648
  nvram_fits : nvramDataOffset + nvramLength ≤ sec.headD 0

variable (g : Geometry)

def flashGetNumsectors : Int := g.sec.length

def flashGetTotalSize : Int := (g.sec.sum : Nat)

def flashGetSectorSize (sector : Int) : Int := (g.sec.getD (uint16 sector) 0 : Nat)

/-- `meminfo.sec[sector].base`; entries past the table are still zero. -/
def sectorBase (sector : Nat) : Int :=
  if sector < g.sec.length then ((g.sec.take sector).sum : Nat) else 0

def flashGetMemptr (sector : Int) : Int := uint32 (g.flashBase + sectorBase g (uint16 sector))

def bootOffset : Int := uint32 (g.flashBase - imageBase)

/-- The search loop of `flash_get_blk`: the running size and the sector number
at which it stops. -/
def blkLoop (relativeAddr : Int) : List Nat → Int → Int → Int × Int
  | [], i, blk => (i, blk)
  | s :: rest, i, blk =>
      if i < relativeAddr then blkLoop relativeAddr rest (i + s) (blk + 1) else (i, blk)

def cfiFlashGetBlk (addr : Int) : Int :=
  let relativeAddr := int32 (addr - g.flashBase)
  let stop := blkLoop relativeAddr g.sec 0 0
  if relativeAddr < stop.1 then stop.2 - 1
  else if stop.2 = flashGetNumsectors g then -1
  else stop.2

def spiFlashGetBlk (addr : Int) : Int :=
  let relativeAddr := int32 (addr - g.flashBase)
  let stop := blkLoop relativeAddr g.sec 0 0
  if uint32 relativeAddr < uint32 stop.1 then stop.2 - 1
  else if stop.2 = flashGetNumsectors g then -1
  else stop.2

def flashGetBlk (addr : Int) : Int :=
  match g.driver with
  | .cfi => cfiFlashGetBlk g addr
  | .spi => spiFlashGetBlk g addr

variable {g}

theorem blkLoop_spec (r : Int) (l : List Nat) (i b : Int) :
    ∃ k, k ≤ l.length ∧ blkLoop r l i b = (i + ((l.take k).sum : Nat), b + k) ∧
      (k < l.length → r ≤ i + ((l.take k).sum : Nat)) ∧
      ∀ j, j < k → i + ((l.take j).sum : Nat) < r := by
  induction l generalizing i b with
  | nil => exact ⟨0, le_rfl, by simp [blkLoop], by simp, by simp⟩
  | cons s l ih =>
      by_cases h : i < r
      · obtain ⟨k, hk, he, hstop, hgo⟩ := ih (i + s) (b + 1)
        refine ⟨k + 1, by simpa using hk, ?_, ?_, ?_⟩
        · simp only [blkLoop, h, if_true, he, List.take_succ_cons, List.sum_cons]
          push_cast
          simp only [add_assoc, add_comm (1 : Int)]
        · intro hlt
          have := hstop (by simpa using hlt)
          simpa [add_assoc] using this
        · intro j hj
          cases j with
          | zero => simpa using h
          | succ j =>
              have := hgo j (by omega)
              simpa [add_assoc] using this
      · refine ⟨0, by simp, by simp [blkLoop, h], ?_, by simp⟩
        intro _
        simpa using h

theorem take_sum_le (l : List Nat) (k : Nat) : (l.take k).sum ≤ l.sum := by
  conv_rhs => rw [← List.take_append_drop k l, List.sum_append]
  omega

theorem take_sum_succ (l : List Nat) (k : Nat) (h : k < l.length) :
    (l.take (k + 1)).sum = (l.take k).sum + l.getD k 0 := by
  rw [List.take_succ_eq_append_getElem h, List.sum_append]
  simp [List.getD_eq_getElem?_getD, h]

theorem getD_pos {l : List Nat} (hpos : ∀ s ∈ l, 0 < s) {s : Nat} (h : s < l.length) : 0 < l.getD s 0 := by
  simpa [List.getD_eq_getElem?_getD, h] using hpos _ (List.getElem_mem h)

theorem blkLoop_below {r : Int} (h : r ≤ 0) (l : List Nat) : blkLoop r l 0 0 = (0, 0) := by
  cases l with
  | nil => rfl
  | cons s l => simp [blkLoop, h]

theorem blkLoop_beyond {l : List Nat} (hpos : ∀ s ∈ l, 0 < s) {r : Int} (h : (l.sum : Nat) ≤ r) :
    blkLoop r l 0 0 = ((l.sum : Int), (l.length : Int)) := by
  obtain ⟨k, hk, he, hstop, -⟩ := blkLoop_spec r l 0 0
  simp only [zero_add] at he hstop
  have hend : k = l.length := by
    by_contra hne
    have hlt : k < l.length := by omega
    have hle := hstop hlt
    have hcut := take_sum_succ l k hlt
    have hsize := getD_pos hpos hlt
    have := take_sum_le l (k + 1)
    omega
  rw [he, hend, List.take_length]

theorem blkLoop_inside {l : List Nat} (hpos : ∀ s ∈ l, 0 < s) {r : Int} (hl : 0 ≤ r) (hu : r < (l.sum : Nat)) :
    ∃ s < l.length, ((l.take s).sum : Nat) ≤ r ∧ r < (l.take s).sum + l.getD s 0 ∧
      (blkLoop r l 0 0 = (((l.take s).sum + l.getD s 0 : Int), (s + 1 : Int)) ∨
        blkLoop r l 0 0 = (((l.take s).sum : Int), (s : Int)) ∧ r = (l.take s).sum) := by
  obtain ⟨k, hk, he, hstop, hgo⟩ := blkLoop_spec r l 0 0
  simp only [zero_add] at he hstop hgo
  by_cases hgt : r < ((l.take k).sum : Nat)
  · have hk0 : k ≠ 0 := by rintro rfl; simp at hgt; omega
    obtain ⟨s, rfl⟩ : ∃ s, k = s + 1 := ⟨k - 1, by omega⟩
    have hlow := hgo s (Nat.lt_succ_self s)
    have hcut := take_sum_succ l s hk
    exact ⟨s, hk, hlow.le, by omega, .inl (by rw [he, hcut]; rfl)⟩
  · have hks : k < l.length := by
      by_contra hge
      obtain rfl : k = l.length := by omega
      rw [List.take_length] at hgt
      exact hgt hu
    have hle := hstop hks
    have hsize := getD_pos hpos hks
    exact ⟨k, hks, by omega, by omega, .inr ⟨he, by omega⟩⟩

theorem sectorSize_ge {s : Nat} (h : s < g.sec.length) : 256 ≤ g.sec.getD s 0 := by
  simpa [List.getD_eq_getElem?_getD, h] using g.sec_ge _ (List.getElem_mem h)

theorem Geometry.sec_pos (g : Geometry) (s : Nat) (h : s ∈ g.sec) : 0 < s := lt_of_lt_of_le (by decide) (g.sec_ge s h)

theorem flashGetBlk_inside (addr : Int) (hl : 0 ≤ int32 (addr - g.flashBase))
    (hu : int32 (addr - g.flashBase) < flashGetTotalSize g) :
    ∃ s : Nat, s < g.sec.length ∧ flashGetBlk g addr = s ∧
      sectorBase g s ≤ int32 (addr - g.flashBase) ∧
      int32 (addr - g.flashBase) < sectorBase g s + g.sec.getD s 0 := by
  set r := int32 (addr - g.flashBase) with hr
  have htotal := g.total_lt
  obtain ⟨s, hs, hb, ht, hloop⟩ := blkLoop_inside g.sec_pos hl hu
  have hsum := take_sum_succ g.sec s hs
  have hle := take_sum_le g.sec (s + 1)
  have hr32 := uint32_of_range hl (by omega)
  have hbase := uint32_natCast (n := (g.sec.take s).sum) (by omega)
  have hend := uint32_of_range (z := (g.sec.take s).sum + g.sec.getD s 0) (by omega) (by omega)
  refine ⟨s, hs, ?_, by rwa [sectorBase, if_pos hs], by rwa [sectorBase, if_pos hs]⟩
  unfold flashGetBlk cfiFlashGetBlk spiFlashGetBlk flashGetNumsectors
  simp only [← hr]
  rcases hloop with he | ⟨he, hat⟩
  · simp only [he]
    cases g.driver with
    | cfi => exact (if_pos (by omega)).trans (by omega)
    | spi => exact (if_pos (by omega)).trans (by omega)
  · simp only [he]
    cases g.driver with
    | cfi => exact (if_neg (by omega)).trans (if_neg (by omega))
    | spi => exact (if_neg (by omega)).trans (if_neg (by omega))

theorem flashGetBlk_beyond (addr : Int) (h : flashGetTotalSize g ≤ int32 (addr - g.flashBase)) :
    flashGetBlk g addr = -1 := by
  set r := int32 (addr - g.flashBase) with hr
  have htotal := g.total_lt
  have he := blkLoop_beyond g.sec_pos h
  unfold flashGetTotalSize at h
  have hr32 := uint32_of_range (z := r) (by omega) (by have := int32_upper (addr - g.flashBase); omega)
  have hend := uint32_natCast (n := g.sec.sum) (by omega)
  unfold flashGetBlk cfiFlashGetBlk spiFlashGetBlk flashGetNumsectors
  simp only [← hr, he]
  cases g.driver with
  | cfi => exact (if_neg (by omega)).trans (if_pos trivial)
  | spi => exact (if_neg (by omega)).trans (if_pos trivial)

/-- Below the device the parallel driver reports an error, the serial driver,
which compares unsigned, answers with the first sector. -/
theorem flashGetBlk_below (addr : Int) (h : int32 (addr - g.flashBase) < 0) :
    flashGetBlk g addr = match g.driver with | .cfi => -1 | .spi => 0 := by
  set r := int32 (addr - g.flashBase) with hr
  have hloop := blkLoop_below h.le g.sec
  have hlow := int32_lower (addr - g.flashBase)
  have hpos := g.nsect_pos
  have hu32 : ¬ uint32 r < uint32 0 := by
    have := cast_uint32 r
    have h0 : uint32 0 = 0 := rfl
    omega
  have hn : (0 : Int) ≠ flashGetNumsectors g := by
    unfold flashGetNumsectors
    omega
  unfold flashGetBlk cfiFlashGetBlk spiFlashGetBlk
  simp only [← hr, hloop]
  cases g.driver <;> simp [h, hu32, hn]

theorem flashGetBlk_lt (addr : Int) : flashGetBlk g addr < g.sec.length := by
  have hpos := g.nsect_pos
  rcases lt_or_ge (int32 (addr - g.flashBase)) 0 with h | h
  · rw [flashGetBlk_below addr h]
    cases g.driver <;> simp only <;> omega
  · rcases lt_or_ge (int32 (addr - g.flashBase)) (flashGetTotalSize g) with h' | h'
    · obtain ⟨s, hs, he, -⟩ := flashGetBlk_inside addr h h'
      omega
    · rw [flashGetBlk_beyond addr h']
      omega

theorem flashGetBlk_congr {a b : Int} (h : uint32 (a - g.flashBase) = uint32 (b - g.flashBase)) :
    flashGetBlk g a = flashGetBlk g b := by
  simp only [flashGetBlk, cfiFlashGetBlk, spiFlashGetBlk, int32_congr h]

def Uniform (g : Geometry) (n size : Nat) : Prop := g.sec = List.replicate n size

def Geometry.uniform (driver : Driver) (n size : Nat) (hn : 0 < n ∧ n ≤ maxSectors) (hsize : 2432 ≤ size)
    (htotal : n * size < 2147483648) : Geometry where
  driver := driver
  flashBase := imageBase
  sec := List.replicate n size
  base_range := by decide
  sec_ge := by
    intro s hs
    rw [List.eq_of_mem_replicate hs]
    omega
  nsect_pos := by simpa using hn.1
  nsect_le := by simpa using hn.2
  total_lt := by simpa using htotal
  nvram_fits := by
    obtain ⟨k, rfl⟩ : ∃ k, n = k + 1 := ⟨n - 1, by omega⟩
    simpa [List.replicate_succ, nvramDataOffset, nvramLength] using hsize

theorem uniform_uniform {driver : Driver} {n size : Nat} (hn : 0 < n ∧ n ≤ maxSectors) (hsize : 2432 ≤ size)
    (htotal : n * size < 2147483648) : Uniform (Geometry.uniform driver n size hn hsize htotal) n size := rfl

section

variable {n size : Nat} (hg : Uniform g n size)

include hg

theorem Uniform.numsectors : flashGetNumsectors g = n := by
  rw [flashGetNumsectors, hg, List.length_replicate]

theorem Uniform.length : g.sec.length = n := by
  rw [hg, List.length_replicate]

theorem Uniform.totalSize : flashGetTotalSize g = n * size := by
  rw [flashGetTotalSize, hg]
  simp

theorem Uniform.pos : 0 < n := hg.length ▸ g.nsect_pos

theorem Uniform.le : n ≤ maxSectors := hg.length ▸ g.nsect_le

theorem Uniform.total_lt : n * size < 2147483648 := by
  have h := g.total_lt
  rw [hg] at h
  simpa using h

theorem Uniform.nvram : 2432 ≤ size := by
  have h := g.nvram_fits
  have hn := hg.pos
  rw [hg] at h
  cases n with
  | zero => omega
  | succ n => simpa [List.replicate_succ, nvramDataOffset, nvramLength] using h

theorem Uniform.sectorSize {s : Int} (hl : 0 ≤ s) (hu : s < n) : flashGetSectorSize g s = size := by
  have hle := hg.le
  have h16 := uint16_of_range hl (by simp only [maxSectors] at hle; omega)
  have hlt : uint16 s < n := by omega
  rw [flashGetSectorSize, hg]
  simp [List.getD_eq_getElem?_getD, hlt]

theorem Uniform.getD {s : Nat} (hu : s < n) : g.sec.getD s 0 = size := by
  rw [hg]
  simp [List.getD_eq_getElem?_getD, hu]

theorem Uniform.base {s : Nat} (hu : s < n) : sectorBase g s = s * size := by
  have hlen := hg.length
  rw [sectorBase, if_pos (by omega), hg, List.take_replicate, Nat.min_eq_left hu.le]
  simp

theorem Uniform.getBlk {addr : Int} (hl : 0 ≤ int32 (addr - g.flashBase))
    (hu : int32 (addr - g.flashBase) < n * size) :
    flashGetBlk g addr = int32 (addr - g.flashBase) / size := by
  obtain ⟨s, hs, he, hb, ht⟩ := flashGetBlk_inside addr hl (by rwa [hg.totalSize])
  rw [hg.length] at hs
  rw [hg.base hs] at hb ht
  rw [hg.getD hs] at ht
  have hpos : (0 : Int) < size := by
    have := hg.nvram
    omega
  rw [he]
  symm
  rw [Int.ediv_eq_iff_of_pos hpos]
  constructor
  · linarith
  · linarith

end

end AliceModem.Sectors
