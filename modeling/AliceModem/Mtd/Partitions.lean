import Mathlib.Data.Nat.ModEq
import AliceModem.Mtd.Bcm963xx

namespace AliceModem.Partitions

open Bcm963xx Vsprintf Words

def tagSize : Nat := 256

/-- The tag describes an image inside the device whose tag, root file system and
kernel follow one another behind the sector of the CFE. -/
structure Describes (master : MtdInfo) (t : TagNumbers) : Prop where
  root : uint32 (t.rootAddress - extendedSize) = master.erasesize + tagSize
  kernel : uint32 (t.kernelAddress - extendedSize) = master.erasesize + tagSize + t.rootLength
  total : t.totalLength = t.rootLength + t.kernelLength
  inside : master.erasesize + tagSize + t.totalLength ≤ master.size

def Covers (p : MtdPartition) (a : Nat) : Prop := p.offset ≤ a ∧ a < p.offset + p.size

def Image (master : MtdInfo) (t : TagNumbers) (a : Nat) : Prop :=
  master.erasesize ≤ a ∧ a < master.erasesize + tagSize + t.totalLength

/-- The partitions lie inside the device, those other than the whole image do not
overlap, and no sector of the data partition holds a byte of the image or of the
NVRAM. -/
structure Sane (master : MtdInfo) (t : TagNumbers) (parts : List MtdPartition) : Prop where
  inside : ∀ p ∈ parts, p.offset + p.size ≤ master.size
  disjoint : ∀ p ∈ parts, ∀ q ∈ parts, p.name ≠ .linux → q.name ≠ .linux → p.name ≠ q.name →
    ∀ a, Covers p a → ¬ Covers q a
  erase : ∀ p ∈ parts, p.name = .data → ∀ a b, Covers p a → a / master.erasesize = b / master.erasesize →
    ¬ Image master t b ∧ ∀ q ∈ parts, q.name = .nvram → ¬ Covers q b

def wholeSectors (master : MtdInfo) (n : Nat) : Nat := (n + (master.erasesize - 1)) / master.erasesize * master.erasesize

/-- The window is inside the device, the image ends before the NVRAM, and its last
sector has room for the tag besides what `totalLength` takes of it. -/
def Fits (master : MtdInfo) (t : TagNumbers) : Prop :=
  master.erasesize ≤ windowSize ∧ windowSize ≤ master.size ∧
    if t.totalLength = 0 then master.size = 2 * master.erasesize
    else master.erasesize + tagSize + t.totalLength + master.erasesize ≤ master.size ∧
      t.totalLength + tagSize ≤ wholeSectors master t.totalLength

section

variable {master : MtdInfo} {t : TagNumbers}

theorem wholeSectors_lt (n : Nat) : wholeSectors master n < n + master.erasesize := by
  have hpos := master.erasesize_pos
  have hdiv := Nat.div_mul_le_self (n + (master.erasesize - 1)) master.erasesize
  rw [wholeSectors]
  omega

theorem wholeSectors_add_le {n l : Nat} (hl : master.erasesize ∣ l) (h : n + master.erasesize ≤ l) :
    wholeSectors master n + master.erasesize ≤ l := by
  have hlt : wholeSectors master n < l := (wholeSectors_lt n).trans_le h
  obtain ⟨k, rfl⟩ := hl
  rw [wholeSectors, mul_comm master.erasesize] at hlt ⊢
  have hq : (n + (master.erasesize - 1)) / master.erasesize < k := Nat.lt_of_mul_lt_mul_right hlt
  calc (n + (master.erasesize - 1)) / master.erasesize * master.erasesize + master.erasesize
      = ((n + (master.erasesize - 1)) / master.erasesize + 1) * master.erasesize := by rw [Nat.add_mul, one_mul]
    _ ≤ k * master.erasesize := Nat.mul_le_mul_right _ hq

theorem sector_le_iff {a b l : Nat} (hl : master.erasesize ∣ l) (h : a / master.erasesize = b / master.erasesize) :
    l ≤ a ↔ l ≤ b := by
  obtain ⟨k, rfl⟩ := hl
  rw [mul_comm, ← Nat.le_div_iff_mul_le master.erasesize_pos, h, Nat.le_div_iff_mul_le master.erasesize_pos]

theorem Describes.spareaddr_eq (h : Describes master t) :
    spareaddr master t.totalLength = wholeSectors master t.totalLength + master.erasesize := by
  have hpos := master.erasesize_pos
  have hsize := master.size_lt
  have hin := h.inside
  have hspare : wholeSectors master t.totalLength + master.erasesize ≤ master.size :=
    wholeSectors_add_le master.erasesize_dvd (by omega)
  have hround : roundup t.totalLength master.erasesize = wholeSectors master t.totalLength := by
    have hsum : uint32 (t.totalLength + (master.erasesize - 1)) = t.totalLength + (master.erasesize - 1) := by
      rw [← uint32_natCast (n := t.totalLength + (master.erasesize - 1)) (by omega)]
      congr 1
      omega
    rw [roundup, hsum, ← uint32_natCast (n := wholeSectors master t.totalLength) (by omega), wholeSectors]
    push_cast
    rfl
  rw [spareaddr, hround]
  exact uint32_natCast (by omega)

theorem Describes.two_sectors (h : Describes master t) : 2 * master.erasesize ≤ master.size := by
  obtain ⟨k, hk⟩ := master.erasesize_dvd
  have hin := h.inside
  have hone : master.erasesize * 1 < master.erasesize * k := by
    rw [← hk, mul_one]
    simp only [tagSize] at hin
    omega
  have htwo : 2 ≤ k := Nat.lt_of_mul_lt_mul_left hone
  rw [hk, mul_comm 2]
  exact Nat.mul_le_mul_left _ htwo

theorem Describes.nvram_eq (h : Describes master t) :
    uint32 (master.size - master.erasesize) = master.size - master.erasesize := by
  have htwo := h.two_sectors
  have hsize := master.size_lt
  rw [← uint32_natCast (n := master.size - master.erasesize) (by omega)]
  congr 1
  omega

theorem Describes.sparelen_eq (h : Describes master t)
    (hroom : wholeSectors master t.totalLength + 2 * master.erasesize ≤ master.size) :
    sparelen master t.totalLength = master.size - wholeSectors master t.totalLength - 2 * master.erasesize := by
  have hsize := master.size_lt
  rw [sparelen, h.spareaddr_eq]
  rw [← uint32_natCast (n := master.size - wholeSectors master t.totalLength - 2 * master.erasesize) (by omega)]
  congr 1
  omega

inductive Part (master : MtdInfo) (t : TagNumbers) : MtdPartition → Prop
  | cfe : Part master t ⟨.cfe, 0, master.erasesize⟩
  | kernel (h : 0 < t.kernelLength) :
      Part master t ⟨.kernel, master.erasesize + tagSize + t.rootLength, t.kernelLength⟩
  | rootfs (h : 0 < t.rootLength) : Part master t ⟨.rootfs, master.erasesize + tagSize, t.rootLength⟩
  | data (h : 0 < sparelen master t.totalLength) :
      Part master t ⟨.data, wholeSectors master t.totalLength + master.erasesize, sparelen master t.totalLength⟩
  | nvram : Part master t ⟨.nvram, master.size - master.erasesize, master.erasesize⟩
  | linux : Part master t ⟨.linux, master.erasesize, uint32 (windowSize - master.erasesize)⟩

theorem Describes.mem_partitions (h : Describes master t) (p : MtdPartition) :
    p ∈ partitions master t ↔ Part master t p := by
  rw [partitions, h.kernel, h.root, h.spareaddr_eq, h.nvram_eq]
  simp only [List.mem_append, List.mem_ite_nil_right, List.mem_cons, List.not_mem_nil, or_false]
  constructor
  · rintro ((((rfl | ⟨hk, rfl⟩) | ⟨hr, rfl⟩) | ⟨hs, rfl⟩) | rfl | rfl)
    · exact .cfe
    · exact .kernel hk
    · exact .rootfs hr
    · exact .data hs
    · exact .nvram
    · exact .linux
  · intro hp
    cases hp with
    | cfe => exact .inl (.inl (.inl (.inl rfl)))
    | kernel hk => exact .inl (.inl (.inl (.inr ⟨hk, rfl⟩)))
    | rootfs hr => exact .inl (.inl (.inr ⟨hr, rfl⟩))
    | data hs => exact .inl (.inr ⟨hs, rfl⟩)
    | nvram => exact .inr (.inl rfl)
    | linux => exact .inr (.inr rfl)

theorem wholeSectors_zero : wholeSectors master 0 = 0 := by
  have hle := wholeSectors_add_le (n := 0) (dvd_refl master.erasesize) (by omega)
  omega

theorem room_of_le (h : master.erasesize + tagSize + t.totalLength + master.erasesize ≤ master.size) :
    wholeSectors master t.totalLength + 2 * master.erasesize ≤ master.size := by
  have hdvd : master.erasesize ∣ master.size - master.erasesize := Nat.dvd_sub master.erasesize_dvd dvd_rfl
  have hle := wholeSectors_add_le (n := t.totalLength) hdvd (by omega)
  omega

theorem Fits.room (hf : Fits master t) :
    wholeSectors master t.totalLength + 2 * master.erasesize ≤ master.size := by
  obtain ⟨-, -, hfit⟩ := hf
  split_ifs at hfit with hzero
  · rw [hzero, wholeSectors_zero, hfit, zero_add]
  · exact room_of_le hfit.1

theorem Fits.tag_le (h : Describes master t) (hf : Fits master t) (hs : 0 < sparelen master t.totalLength) :
    t.totalLength + tagSize ≤ wholeSectors master t.totalLength := by
  have hlen := h.sparelen_eq hf.room
  obtain ⟨-, -, hfit⟩ := hf
  split_ifs at hfit with hzero
  · omega
  · exact hfit.2

theorem Fits.image_le (hf : Fits master t) (ht : 0 < t.totalLength) :
    master.erasesize + tagSize + t.totalLength + master.erasesize ≤ master.size := by
  obtain ⟨-, -, hfit⟩ := hf
  rw [if_neg (by omega)] at hfit
  exact hfit.1

theorem Fits.sane (h : Describes master t) (hf : Fits master t) : Sane master t (partitions master t) := by
  have hlen := h.sparelen_eq hf.room
  have hroom := hf.room
  have htwo := h.two_sectors
  have htag := hf.tag_le h
  have himage := hf.image_le
  have htotal := h.total
  refine ⟨fun p hp => ?_, fun p hp q hq hpl hql hne a hpa hqa => ?_, fun p hp hdata a b ha hab => ?_⟩
  · have hlinux : master.erasesize + uint32 (windowSize - master.erasesize) = windowSize := by
      have hw := hf.1
      rw [← Nat.cast_sub hw, uint32_natCast (by simp only [windowSize]; omega)]
      omega
    have hwin := hf.2.1
    have hin := h.inside
    cases (h.mem_partitions p).mp hp <;> dsimp only <;> omega
  · simp only [Covers] at hpa hqa
    cases (h.mem_partitions p).mp hp <;> cases (h.mem_partitions q).mp hq <;>
      first
        | exact hne rfl
        | exact hpl rfl
        | exact hql rfl
        | (dsimp only at hpa hqa; omega)
  · rw [h.mem_partitions] at hp
    cases hp with
    | data hs =>
        obtain ⟨hl, hu⟩ := ha
        dsimp only at hl hu
        have hstart : wholeSectors master t.totalLength + master.erasesize ≤ b :=
          (sector_le_iff (Nat.dvd_add ⟨_, mul_comm _ _⟩ dvd_rfl) hab).mp hl
        have hend : ¬ master.size - master.erasesize ≤ b := by
          rw [← sector_le_iff (Nat.dvd_sub master.erasesize_dvd dvd_rfl) hab]
          omega
        refine ⟨fun himg => ?_, fun q hq hnv hb => ?_⟩
        · have hlast := himg.2
          have := htag hs
          omega
        · cases (h.mem_partitions q).mp hq with
          | nvram => exact hend hb.1
          | _ => cases hnv
    | _ => cases hdata

theorem Sane.window (hs : Sane master t (partitions master t)) :
    master.erasesize ≤ windowSize ∧ windowSize ≤ master.size := by
  have hin := hs.inside ⟨.linux, master.erasesize, uint32 (windowSize - master.erasesize)⟩ (by simp [partitions])
  have hcast := cast_uint32 (windowSize - master.erasesize)
  have hsize := master.size_lt
  dsimp only [windowSize] at hin hcast ⊢
  omega

theorem Sane.tag_le (h : Describes master t) (hs : Sane master t (partitions master t))
    (hroom : wholeSectors master t.totalLength + 2 * master.erasesize < master.size) :
    t.totalLength + tagSize ≤ wholeSectors master t.totalLength := by
  have hlen := h.sparelen_eq hroom.le
  have hpart := (h.mem_partitions _).mpr (.data (by omega))
  by_contra hshort
  have hdata := (hs.erase _ hpart rfl (wholeSectors master t.totalLength + master.erasesize)
    (wholeSectors master t.totalLength + master.erasesize) ⟨le_rfl, by dsimp only; omega⟩ rfl).1
  exact hdata ⟨by omega, by omega⟩

theorem Sane.image_le (h : Describes master t) (hs : Sane master t (partitions master t)) (ht : 0 < t.totalLength) :
    master.erasesize + tagSize + t.totalLength + master.erasesize ≤ master.size := by
  have hin := h.inside
  have htotal := h.total
  have hnvram := (h.mem_partitions _).mpr .nvram
  by_contra hlong
  have hlast : Covers ⟨.nvram, master.size - master.erasesize, master.erasesize⟩
      (master.erasesize + tagSize + t.totalLength - 1) := ⟨by dsimp only; omega, by dsimp only; omega⟩
  by_cases hk : 0 < t.kernelLength
  · refine hs.disjoint _ ((h.mem_partitions _).mpr (.kernel hk)) _ hnvram nofun nofun nofun _ ?_ hlast
    exact ⟨by dsimp only; omega, by dsimp only; omega⟩
  · refine hs.disjoint _ ((h.mem_partitions _).mpr (.rootfs (by omega))) _ hnvram nofun nofun nofun _ ?_ hlast
    exact ⟨by dsimp only; omega, by dsimp only; omega⟩

theorem Sane.fits (h : Describes master t) (hs : Sane master t (partitions master t)) : Fits master t := by
  refine ⟨hs.window.1, hs.window.2, ?_⟩
  have htwo := h.two_sectors
  split_ifs with hzero
  · by_contra hne
    have hle := hs.tag_le h (by rw [hzero, wholeSectors_zero]; omega)
    rw [hzero, wholeSectors_zero] at hle
    cases hle
  · have himage := hs.image_le h (by omega)
    have hroom := room_of_le himage
    refine ⟨himage, ?_⟩
    by_cases hfull : wholeSectors master t.totalLength + 2 * master.erasesize = master.size
    · omega
    · exact hs.tag_le h (by omega)

end

theorem parseCfePartitions_eq {master : MtdInfo} {buf : List UInt8} (hlen : buf.length = cfeMapSize)
    (uninit : TagNumbers) :
    parseCfePartitions master true true buf uninit = .ok (partitions master (tagNumbers buf uninit)) := by
  rw [parseCfePartitions, if_neg (by decide), if_neg (by rw [hlen]; decide), if_neg (by decide)]

/-- The partitions of a device with an image are sane exactly if the image fits:
the tag, which `totalLength` does not count, must not need one more sector. -/
theorem partitions_sane_iff (master : MtdInfo) (buf : List UInt8) (uninit : TagNumbers) (parts : List MtdPartition)
    (hparse : parseCfePartitions master true true buf uninit = .ok parts)
    (htag : Describes master (tagNumbers buf uninit)) :
    Sane master (tagNumbers buf uninit) parts ↔ Fits master (tagNumbers buf uninit) := by
  have hparts : parts = partitions master (tagNumbers buf uninit) := by
    rw [parseCfePartitions, if_neg (by decide)] at hparse
    split_ifs at hparse
    cases hparse
    rfl
  rw [hparts]
  exact ⟨fun hs => hs.fits htag, fun hf => hf.sane htag⟩

def demoMaster : MtdInfo := ⟨0x400000, 0x10000, by decide, by decide, by decide⟩

def field (len num : Nat) : List UInt8 := (sprintfLu num ++ List.replicate len 0).take len

def demoTag (rootLength kernelLength : Nat) : List UInt8 :=
  List.replicate 62 0 ++ field 10 (rootLength + kernelLength) ++ List.replicate 22 0 ++
    field 12 (extendedSize + 0x10000 + 256) ++ field 10 rootLength ++
    field 12 (extendedSize + 0x10000 + 256 + rootLength) ++ field 10 kernelLength ++ List.replicate 118 0 ++
    List.replicate 16 0xff

theorem partitions_sane_iff_demo :
    Fits demoMaster (tagNumbers (demoTag 1000000 500000) {}) ∧
      (Sane demoMaster (tagNumbers (demoTag 1000000 500000) {})
          (partitions demoMaster (tagNumbers (demoTag 1000000 500000) {})) ↔
        Fits demoMaster (tagNumbers (demoTag 1000000 500000) {})) :=
  ⟨by unfold Fits; decide,
    partitions_sane_iff demoMaster (demoTag 1000000 500000) {} _ (parseCfePartitions_eq (by decide +kernel) {})
      ⟨by decide, by decide, by decide +kernel, by decide +kernel⟩⟩

theorem partitions_overlap :
    Describes demoMaster (tagNumbers (demoTag 32768 32768) {}) ∧
      parseCfePartitions demoMaster true true (demoTag 32768 32768) {} =
        .ok [⟨.cfe, 0, 0x10000⟩, ⟨.kernel, 0x18100, 0x8000⟩, ⟨.rootfs, 0x10100, 0x8000⟩, ⟨.data, 0x20000, 0x3D0000⟩,
          ⟨.nvram, 0x3F0000, 0x10000⟩, ⟨.linux, 0x10000, 0x3F0000⟩] ∧
      ¬ Sane demoMaster (tagNumbers (demoTag 32768 32768) {})
        [⟨.cfe, 0, 0x10000⟩, ⟨.kernel, 0x18100, 0x8000⟩, ⟨.rootfs, 0x10100, 0x8000⟩, ⟨.data, 0x20000, 0x3D0000⟩,
          ⟨.nvram, 0x3F0000, 0x10000⟩, ⟨.linux, 0x10000, 0x3F0000⟩] := by
  refine ⟨⟨by decide, by decide, by decide, by decide⟩, ?_, fun hs => ?_⟩
  · rw [parseCfePartitions_eq (by decide +kernel)]
    exact congrArg Except.ok (by decide)
  · refine hs.disjoint ⟨.kernel, 0x18100, 0x8000⟩ (by simp) ⟨.data, 0x20000, 0x3D0000⟩ (by simp)
      nofun nofun nofun 0x20000 ?_ ?_
    · exact ⟨by decide, by decide⟩
    · exact ⟨by decide, by decide⟩

end AliceModem.Partitions
