import AliceModem.Flash.SectorLookup
import Mathlib.Algebra.BigOperators.Group.List.Basic
import Mathlib.Algebra.Order.BigOperators.Group.List
import Mathlib.Tactic.Ring

namespace AliceModem.CfiProbe

open Words Hwdefs SectorLookup

inductive Family
  | amd
  | intel
  | sst
  deriving DecidableEq

def intelIds : List UInt16 := [0x88C3, 0x88C5, 0x88C2, 0x88C4, 0x8916]

def amdIds : List UInt16 :=
  [0x22CB, 0x225B, 0x22BA, 0x2249, 0x22F9, 0x22A8, 0x2200, 0x224A, 0x22DA, 0x22C4, 0x22F6, 0x22A7, 0x2201, 0x223B,
    0x22C9, 0x22E0, 0x22E2]

def sstIds : List UInt16 := [0x2789, 0x2780, 0x2781, 0x234B, 0x235B, 0x236B]

def flashFamily (deviceId : UInt16) : Option Family :=
  if deviceId ∈ intelIds then some .intel
  else if deviceId ∈ amdIds then some .amd
  else if deviceId ∈ sstIds then some .sst
  else none

def bottomIds : List UInt16 :=
  [0x22CB, 0x225B, 0x22BA, 0x2249, 0x22F9, 0x22A8, 0x2200, 0x88C3, 0x88C5, 0x8916, 0x88C2, 0x88C4, 0x235B, 0x236B,
    0x2789, 0x2780, 0x2781, 0x22E2]

def topIds : List UInt16 := [0x224A, 0x22DA, 0x22C4, 0x22F6, 0x22A7, 0x2201, 0x223B, 0x234B, 0x22C9, 0x22E0]

def flipCfiGeometry (deviceId : UInt16) : Option Bool :=
  if deviceId ∈ bottomIds then some false
  else if deviceId ∈ topIds then some true
  else none

/-- The words in the flash window after `FLASH_READ_ID` and after `FLASH_CFIQUERY`. -/
structure Device where
  idWords : Nat → UInt16
  cfiWords : Nat → UInt16

def cfiFlashGetDeviceId (d : Device) : UInt16 :=
  let answer := d.idWords 1
  if answer = 0x227E then d.idWords 0xf else answer

structure EraseBlock where
  sectorSize : Nat
  numSectors : Nat
  deriving DecidableEq

structure CfiQuery where
  deviceSize : Int
  eraseBlock : List EraseBlock
  deriving DecidableEq

def eraseBlock (fwp : Nat → UInt16) (i : Nat) : EraseBlock where
  sectorSize := uint32 (256 * (256 * (fwp (0x30 + 4 * i)).toNat + (fwp (0x2F + 4 * i)).toNat))
  numSectors := (fwp (0x2D + 4 * i)).toNat + (fwp (0x2E + 4 * i)).toNat * 256 + 1

def numEraseBlocks (fwp : Nat → UInt16) (family : Family) : Nat := if family = .sst then 1 else (fwp 0x2C).toNat

/-- The shift takes the low five bits of the exponent. All regions are
recorded, as if the array had room for them. -/
def cfiFlashGetCfi (fwp : Nat → UInt16) (family : Family) : Option CfiQuery :=
  if fwp 0x10 ≠ 81 ∧ fwp 0x11 ≠ 82 ∧ fwp 0x12 ≠ 89 then none
  else some ⟨int32 (2 ^ ((fwp 0x27).toNat % 32)), (List.range (numEraseBlocks fwp family)).map (eraseBlock fwp)⟩

def cfiDataStruct (last : UInt16) : List UInt16 :=
  [0x0020, 0x0049, 0xffff, 0xffff, 0xffff, 0xffff, 0xffff, 0xffff,
   0xffff, 0xffff, 0xffff, 0xffff, 0xffff, 0xffff, 0xffff, 0xffff,
   0x0051, 0x0052, 0x0059, 0x0002, 0x0000, 0x0040, 0x0000, 0x0000,
   0x0000, 0x0000, 0x0000, 0x0027, 0x0036, 0x0000, 0x0000, 0x0004,
   0x0000, 0x000a, 0x0000, 0x0004, 0x0000, 0x0003, 0x0000, 0x0015,
   0x0002, 0x0000, 0x0000, 0x0000, 0x0004, 0x0000, 0x0000, 0x0040,
   0x0000, 0x0001, 0x0000, 0x0020, 0x0000, 0x0000, 0x0000, 0x0080,
   0x0000, last, 0x0000, 0x0000, 0x0001, 0xffff, 0xffff, 0xffff,
   0x0050, 0x0052, 0x0049, 0x0031, 0x0030, 0x0000, 0x0002, 0x0001,
   0x0001, 0x0004, 0x0000, 0x0000, 0x0000, 0xffff, 0xffff, 0x0002,
   0xffff, 0xffff, 0xffff, 0xffff, 0xffff, 0xffff, 0xffff, 0xffff,
   0xffff, 0xffff, 0xffff, 0xffff, 0xffff, 0xffff, 0xffff, 0xffff,
   0xffff, 0x0888, 0x252b, 0x8c84, 0x7dbc, 0xffff, 0xffff, 0xffff,
   0xffff, 0xffff, 0xffff, 0xffff, 0xffff, 0xffff, 0xffff, 0xffff,
   0xffff, 0xffff, 0xffff, 0xffff, 0xffff, 0xffff, 0xffff, 0xffff,
   0xffff, 0xffff, 0xffff, 0xffff, 0xffff, 0xffff, 0xffff, 0xffff]

def cfiDataStruct29W160 : List UInt16 := cfiDataStruct 0x001e

def cfiDataStruct29W200 : List UInt16 := cfiDataStruct 0x0002

def cfiDataStruct26LV800B : List UInt16 := cfiDataStruct 0x000e

def builtinTable (deviceId : UInt16) : Option (List UInt16) :=
  if deviceId = 0x22C4 ∨ deviceId = 0x2249 then some cfiDataStruct29W160
  else if deviceId = 0x223B then some cfiDataStruct29W200
  else if deviceId = 0x225B then some cfiDataStruct26LV800B
  else none

structure Sector where
  size : Int
  base : Int
  deriving DecidableEq

/-- The inner loop records the sectors of a region and leaves `basecount` behind it. -/
def fillBlock (size : Int) : Nat → Int → List Sector × Int
  | 0, basecount => ([], basecount)
  | n + 1, basecount =>
      let rest := fillBlock size n (int32 (basecount + size))
      (⟨size, basecount⟩ :: rest.1, rest.2)

def fillTable (deviceSize : Int) : List EraseBlock → Int → List Sector
  | [], _ => []
  | b :: blocks, basecount =>
      if basecount < deviceSize then
        let block := fillBlock (int32 b.sectorSize) b.numSectors basecount
        block.1 ++ fillTable deviceSize blocks block.2
      else []

/-- Without a sector, `sec[-1]` lies over `nsect` and `bank1start`, which are both 0 then. -/
def totalSize (sec : List Sector) : Int :=
  match sec.getLast? with
  | none => 0
  | some s => int32 (s.base + s.size)

structure Probe where
  ownAnswer : Bool
  query : CfiQuery
  sec : List Sector
  totalSize : Int
  deriving DecidableEq

def scanOrder (flip : Bool) (blocks : List EraseBlock) : List EraseBlock := if flip then blocks.reverse else blocks

def buildTable (ownAnswer flip : Bool) (query : CfiQuery) : Probe :=
  let sec := fillTable query.deviceSize (scanOrder flip query.eraseBlock) 0
  ⟨ownAnswer, query, sec, totalSize sec⟩

def findQuery (d : Device) (family : Family) : Option (Bool × CfiQuery) :=
  match cfiFlashGetCfi d.cfiWords family with
  | some query => some (true, query)
  | none => do
      let table ← builtinTable (cfiFlashGetDeviceId d)
      let query ← cfiFlashGetCfi (fun i => table.getD i 0) family
      some (false, query)

/-- The result is `none` for `FLASH_API_ERROR`. -/
def cfiFlashInit (d : Device) : Option Probe := do
  let family ← flashFamily (cfiFlashGetDeviceId d)
  let found ← findQuery d family
  let flip ← flipCfiGeometry (cfiFlashGetDeviceId d)
  some (buildTable found.1 flip found.2)

def sizes (sec : List Sector) : List Int := sec.map Sector.size

/-- The sector table is what the answer of the device describes. -/
structure Valid (fwp : Nat → UInt16) (p : Probe) : Prop where
  signature : fwp 0x10 = 81 ∧ fwp 0x11 = 82 ∧ fwp 0x12 = 89
  regions_le : p.query.eraseBlock.length ≤ 8
  sectors_le : p.sec.length ≤ maxSectors
  size_pos : ∀ s ∈ p.sec, 0 < s.size
  base_eq : ∀ (i : Nat) (s : Sector), p.sec[i]? = some s → s.base = (sizes (p.sec.take i)).sum
  total_eq : p.totalSize = (sizes p.sec).sum
  announced : p.totalSize = 2 ^ (fwp 0x27).toNat

def regionSizes (blocks : List EraseBlock) : List Int := blocks.flatMap fun b => List.replicate b.numSectors (int32 b.sectorSize)

/-- The first regions in the order of the scan make up the device exactly,
with sectors of positive sizes that the table has room for. -/
structure Covers (fwp : Nat → UInt16) (blocks : List EraseBlock) : Prop where
  signature : fwp 0x10 = 81 ∧ fwp 0x11 = 82 ∧ fwp 0x12 = 89
  regions_le : blocks.length ≤ 8
  size_lt : (fwp 0x27).toNat < 31
  cover : ∃ m, (∀ b ∈ blocks.take m, 0 < int32 b.sectorSize) ∧ (regionSizes (blocks.take m)).length ≤ maxSectors ∧
    (regionSizes (blocks.take m)).sum = 2 ^ (fwp 0x27).toNat

def layout : List Int → Int → List Sector
  | [], _ => []
  | z :: zs, base => ⟨z, base⟩ :: layout zs (base + z)

theorem sizes_layout (zs : List Int) (base : Int) : sizes (layout zs base) = zs := by
  induction zs generalizing base with
  | nil => rfl
  | cons z zs ih => exact congrArg (z :: ·) (ih (base + z))

theorem layout_append (zs zs' : List Int) (base : Int) : layout (zs ++ zs') base = layout zs base ++ layout zs' (base + zs.sum) := by
  induction zs generalizing base with
  | nil => simp [layout]
  | cons z zs ih => simp [layout, ih, Int.add_assoc]

theorem base_layout {zs : List Int} {base : Int} {i : Nat} {s : Sector} (h : (layout zs base)[i]? = some s) :
    s.base = base + (zs.take i).sum := by
  induction zs generalizing base i with
  | nil => simp [layout] at h
  | cons z zs ih =>
      cases i with
      | zero =>
          cases h
          simp
      | succ i =>
          have hs : s.base = base + z + (zs.take i).sum := ih h
          simp [hs, Int.add_assoc]

theorem getLast_layout {zs : List Int} (hne : zs ≠ []) (base : Int) :
    ∃ s, (layout zs base).getLast? = some s ∧ s.base + s.size = base + zs.sum := by
  obtain ⟨zs, z, rfl⟩ := (List.eq_nil_or_concat' zs).resolve_left hne
  refine ⟨⟨z, base + zs.sum⟩, ?_, ?_⟩
  · simp [layout_append, layout]
  · simp [Int.add_assoc]

theorem fillBlock_layout {size : Int} (hsize : 0 < size) {n : Nat} {base : Int} (hbase : 0 ≤ base)
    (hend : base + n * size < 2147483648) :
    fillBlock size n base = (layout (List.replicate n size) base, base + n * size) := by
  induction n generalizing base with
  | zero => simp [fillBlock, layout]
  | succ n ih =>
      have hstep : base + size + n * size = base + (n + 1 : Nat) * size := by
        push_cast
        ring
      have hnonneg : 0 ≤ (n : Int) * size := by positivity
      have hint : int32 (base + size) = base + size := int32_of_range (by omega) (by omega)
      rw [fillBlock, hint, ih (by omega) (by omega), hstep, List.replicate_succ, layout]

theorem regionSizes_cons (b : EraseBlock) (blocks : List EraseBlock) :
    regionSizes (b :: blocks) = List.replicate b.numSectors (int32 b.sectorSize) ++ regionSizes blocks := List.flatMap_cons

theorem regionSizes_pos {blocks : List EraseBlock} (h : ∀ b ∈ blocks, 0 < int32 b.sectorSize) : ∀ z ∈ regionSizes blocks, 0 < z := by
  intro z hz
  obtain ⟨b, hb, hz⟩ := List.mem_flatMap.mp hz
  exact List.eq_of_mem_replicate hz ▸ h b hb

theorem fillTable_layout {deviceSize : Int} (hdevice : deviceSize < 2147483648) (rest : List EraseBlock) {blocks : List EraseBlock}
    (hpos : ∀ b ∈ blocks, 0 < int32 b.sectorSize ∧ 0 < b.numSectors) {base : Int} (hbase : 0 ≤ base)
    (hsum : base + (regionSizes blocks).sum = deviceSize) :
    fillTable deviceSize (blocks ++ rest) base = layout (regionSizes blocks) base := by
  induction blocks generalizing base with
  | nil =>
      have hstop : ¬ base < deviceSize := by
        simp [regionSizes] at hsum
        omega
      cases rest with
      | nil => rfl
      | cons b rest => exact if_neg hstop
  | cons b blocks ih =>
      obtain ⟨hsize, hnum⟩ := hpos b List.mem_cons_self
      have htail : ∀ b ∈ blocks, 0 < int32 b.sectorSize ∧ 0 < b.numSectors := fun c hc => hpos c (List.mem_cons_of_mem b hc)
      have hnonneg : 0 ≤ (regionSizes blocks).sum :=
        List.sum_nonneg fun z hz => (regionSizes_pos (fun c hc => (htail c hc).1) z hz).le
      have hblock : 0 < (b.numSectors : Int) * int32 b.sectorSize := Int.mul_pos (by omega) hsize
      rw [regionSizes_cons, List.sum_append, List.sum_replicate, nsmul_eq_mul] at hsum
      have hmore : base < deviceSize := by omega
      rw [List.cons_append, fillTable, if_pos hmore, fillBlock_layout hsize hbase (by omega), regionSizes_cons, layout_append,
        List.sum_replicate, nsmul_eq_mul]
      simp only
      rw [ih htail (by omega) (by omega)]

theorem sizes_fillBlock (size : Int) (n : Nat) (base : Int) : sizes (fillBlock size n base).1 = List.replicate n size := by
  induction n generalizing base with
  | zero => rfl
  | succ n ih => exact congrArg (size :: ·) (ih (int32 (base + size)))

theorem sizes_fillTable (deviceSize : Int) (blocks : List EraseBlock) (base : Int) :
    ∃ m, sizes (fillTable deviceSize blocks base) = regionSizes (blocks.take m) := by
  induction blocks generalizing base with
  | nil => exact ⟨0, rfl⟩
  | cons b blocks ih =>
      rw [fillTable]
      split
      next =>
          obtain ⟨m, hm⟩ := ih (fillBlock (int32 b.sectorSize) b.numSectors base).2
          refine ⟨m + 1, ?_⟩
          rw [List.take_succ_cons, regionSizes_cons, ← hm, ← sizes_fillBlock _ _ base]
          exact List.map_append
      next => exact ⟨0, rfl⟩

theorem totalSize_lt (sec : List Sector) : totalSize sec < 2147483648 := by
  rw [totalSize]
  split
  · decide
  · exact int32_upper _

theorem totalSize_layout {zs : List Int} (hl : 0 ≤ zs.sum) (hu : zs.sum < 2147483648) : totalSize (layout zs 0) = zs.sum := by
  cases zs with
  | nil => rfl
  | cons z zs =>
      obtain ⟨s, hs, hsum⟩ := getLast_layout (List.cons_ne_nil z zs) 0
      rw [totalSize, hs]
      exact (congrArg int32 hsum).trans ((Int.zero_add _).symm ▸ int32_of_range (by omega) hu)

theorem mem_scanOrder {flip : Bool} {blocks : List EraseBlock} {b : EraseBlock} : b ∈ scanOrder flip blocks ↔ b ∈ blocks := by
  cases flip <;> simp [scanOrder]

theorem length_scanOrder (flip : Bool) (blocks : List EraseBlock) : (scanOrder flip blocks).length = blocks.length := by
  cases flip <;> simp [scanOrder]

theorem cfiFlashGetCfi_some {fwp : Nat → UInt16} {family : Family} {query : CfiQuery} (h : cfiFlashGetCfi fwp family = some query) :
    query.deviceSize = int32 (2 ^ ((fwp 0x27).toNat % 32)) ∧ ∀ b ∈ query.eraseBlock, 0 < b.numSectors := by
  rw [cfiFlashGetCfi] at h
  split at h
  · cases h
  · obtain rfl := Option.some.inj h
    refine ⟨rfl, fun b hb => ?_⟩
    obtain ⟨i, -, rfl⟩ := List.mem_map.mp hb
    exact Nat.succ_pos _

theorem pow_lt_of_lt {n : Nat} (h : n < 31) : (2 : Int) ^ n < 2147483648 := by
  have hle : (2 : Int) ^ n ≤ 2 ^ 30 := pow_le_pow_right₀ (by decide) (Nat.le_of_lt_succ h)
  exact Int.lt_of_le_of_lt hle (by decide)

section

variable {fwp : Nat → UInt16} {family : Family} {query : CfiQuery} {own flip : Bool}

theorem Covers.valid (h : Covers fwp (scanOrder flip query.eraseBlock)) (hquery : cfiFlashGetCfi fwp family = some query) :
    Valid fwp (buildTable own flip query) := by
  obtain ⟨hsize, hnum⟩ := cfiFlashGetCfi_some hquery
  obtain ⟨m, hpos, hroom, hsum⟩ := h.cover
  have hlt := pow_lt_of_lt h.size_lt
  have hnonneg : (0 : Int) ≤ 2 ^ (fwp 0x27).toNat := pow_nonneg (by decide) _
  have hdevice : query.deviceSize = 2 ^ (fwp 0x27).toNat := by
    rw [hsize, Nat.mod_eq_of_lt (Nat.lt_of_lt_of_le h.size_lt (by decide)), int32_of_range (by omega) hlt]
  have hpos' : ∀ b ∈ (scanOrder flip query.eraseBlock).take m, 0 < int32 b.sectorSize ∧ 0 < b.numSectors := by
    intro b hb
    exact ⟨hpos b hb, hnum b (mem_scanOrder.mp (List.mem_of_mem_take hb))⟩
  have hsec : (buildTable own flip query).sec = layout (regionSizes ((scanOrder flip query.eraseBlock).take m)) 0 := by
    have hfill := fillTable_layout (hdevice ▸ hlt) ((scanOrder flip query.eraseBlock).drop m) hpos' (Int.le_refl 0)
      (by rw [hsum, hdevice, Int.zero_add])
    rwa [List.take_append_drop] at hfill
  have htotal : (buildTable own flip query).totalSize = 2 ^ (fwp 0x27).toNat := by
    calc (buildTable own flip query).totalSize = totalSize (buildTable own flip query).sec := rfl
      _ = 2 ^ (fwp 0x27).toNat := by rw [hsec, totalSize_layout (hsum ▸ hnonneg) (hsum ▸ hlt), hsum]
  refine ⟨h.signature, length_scanOrder flip query.eraseBlock ▸ h.regions_le, ?_, ?_, ?_, ?_, htotal⟩
  · rw [hsec, ← List.length_map Sector.size, ← sizes, sizes_layout]
    exact hroom
  · intro s hs
    have hmem : s.size ∈ sizes (buildTable own flip query).sec := List.mem_map_of_mem hs
    rw [hsec, sizes_layout] at hmem
    exact regionSizes_pos hpos s.size hmem
  · intro i s hs
    rw [hsec] at hs ⊢
    rw [base_layout hs, Int.zero_add, sizes, List.map_take]
    exact congrArg (fun zs => (List.take i zs).sum) (sizes_layout _ 0).symm
  · rw [htotal, hsec, sizes_layout, hsum]

theorem Valid.covers (h : Valid fwp (buildTable own flip query)) (hquery : cfiFlashGetCfi fwp family = some query) :
    Covers fwp (scanOrder flip query.eraseBlock) := by
  obtain ⟨m, hm⟩ := sizes_fillTable query.deviceSize (scanOrder flip query.eraseBlock) 0
  have hsizes : sizes (buildTable own flip query).sec = regionSizes ((scanOrder flip query.eraseBlock).take m) := hm
  have hnum := (cfiFlashGetCfi_some hquery).2
  have hlt : (2 : Int) ^ (fwp 0x27).toNat < 2147483648 := h.announced ▸ totalSize_lt _
  refine ⟨h.signature, (length_scanOrder flip query.eraseBlock).symm ▸ h.regions_le, ?_, m, ?_, ?_, ?_⟩
  · by_contra hge
    have hle : (2 : Int) ^ 31 ≤ 2 ^ (fwp 0x27).toNat := pow_le_pow_right₀ (by decide) (Nat.le_of_not_lt hge)
    exact absurd (Int.lt_of_le_of_lt hle hlt) (by decide)
  · intro b hb
    -- every region has a sector, so that its size is one of the recorded ones
    have hrep : int32 b.sectorSize ∈ List.replicate b.numSectors (int32 b.sectorSize) :=
      List.mem_replicate.mpr ⟨(hnum b (mem_scanOrder.mp (List.mem_of_mem_take hb))).ne', rfl⟩
    have hmem : int32 b.sectorSize ∈ sizes (buildTable own flip query).sec := hsizes ▸ List.mem_flatMap.mpr ⟨b, hb, hrep⟩
    obtain ⟨s, hs, hsize⟩ := List.mem_map.mp hmem
    exact hsize ▸ h.size_pos s hs
  · rw [← hsizes, sizes, List.length_map]
    exact h.sectors_le
  · rw [← hsizes, ← h.total_eq, h.announced]

end

theorem findQuery_own {d : Device} {family : Family} {query : CfiQuery} :
    findQuery d family = some (true, query) ↔ cfiFlashGetCfi d.cfiWords family = some query := by
  rw [findQuery]
  split
  next found hfound => simp [hfound]
  next hnone =>
      rw [hnone]
      simp [Option.bind_eq_some_iff]

theorem cfiFlashInit_own {d : Device} {p : Probe} :
    cfiFlashInit d = some p ∧ p.ownAnswer = true ↔ ∃ family flip query,
      flashFamily (cfiFlashGetDeviceId d) = some family ∧ flipCfiGeometry (cfiFlashGetDeviceId d) = some flip ∧
        cfiFlashGetCfi d.cfiWords family = some query ∧ p = buildTable true flip query := by
  constructor
  · rintro ⟨hinit, hown⟩
    obtain ⟨family, hfamily, hinit⟩ := Option.bind_eq_some_iff.mp hinit
    obtain ⟨⟨own, query⟩, hquery, hinit⟩ := Option.bind_eq_some_iff.mp hinit
    obtain ⟨flip, hflip, hp⟩ := Option.bind_eq_some_iff.mp hinit
    cases hp
    obtain rfl : own = true := hown
    exact ⟨family, flip, query, hfamily, hflip, findQuery_own.mp hquery, rfl⟩
  · rintro ⟨family, flip, query, hfamily, hflip, hquery, rfl⟩
    refine ⟨?_, rfl⟩
    simp [cfiFlashInit, hfamily, hflip, findQuery_own.mpr hquery]

/-- A table that is built from the answer of a device is valid exactly if the
answer has the whole signature and leading regions that make up the device. -/
theorem probing_valid_iff (d : Device) :
    (∀ p, cfiFlashInit d = some p → p.ownAnswer = true → Valid d.cfiWords p) ↔
      ∀ family flip query, flashFamily (cfiFlashGetDeviceId d) = some family →
        flipCfiGeometry (cfiFlashGetDeviceId d) = some flip → cfiFlashGetCfi d.cfiWords family = some query →
          Covers d.cfiWords (scanOrder flip query.eraseBlock) := by
  constructor
  · intro hvalid family flip query hfamily hflip hquery
    obtain ⟨hinit, hown⟩ := cfiFlashInit_own.mpr ⟨family, flip, query, hfamily, hflip, hquery, rfl⟩
    exact (hvalid _ hinit hown).covers hquery
  · intro hcovers p hinit hown
    obtain ⟨family, flip, query, hfamily, hflip, hquery, rfl⟩ := cfiFlashInit_own.mp ⟨hinit, hown⟩
    exact (hcovers family flip query hfamily hflip hquery).valid hquery

def window (words : List (Nat × UInt16)) (i : Nat) : UInt16 := (words.lookup i).getD 0

def oneLetter : Device := ⟨fun _ => 0x22CB, window [(0x10, 81), (0x27, 16), (0x2C, 1), (0x30, 1)]⟩

def manySectors : Device :=
  ⟨fun _ => 0x236B, window [(0x10, 81), (0x11, 82), (0x12, 89), (0x27, 23), (0x2C, 1), (0x2D, 0xFF), (0x2E, 7), (0x2F, 16)]⟩

theorem probing_accepts_invalid :
    (∃ p, cfiFlashInit oneLetter = some p ∧ p.ownAnswer = true ∧ ¬ Valid oneLetter.cfiWords p) ∧
      ∃ p, cfiFlashInit manySectors = some p ∧ p.ownAnswer = true ∧ p.sec.length = 2048 ∧ ¬ Valid manySectors.cfiWords p := by
  constructor
  · have hquery : cfiFlashGetCfi oneLetter.cfiWords .amd = some ⟨65536, [⟨65536, 1⟩]⟩ := by decide
    refine ⟨buildTable true false ⟨65536, [⟨65536, 1⟩]⟩, ?_, rfl, fun h => ?_⟩
    · exact (cfiFlashInit_own.mpr ⟨.amd, false, _, by decide, by decide, hquery, rfl⟩).1
    · exact absurd h.signature (by decide)
  · have hlength : (buildTable true false ⟨8388608, [⟨4096, 2048⟩]⟩).sec.length = 2048 := by decide +kernel
    refine ⟨buildTable true false ⟨8388608, [⟨4096, 2048⟩]⟩, ?_, rfl, hlength, fun h => ?_⟩
    · have hquery : cfiFlashGetCfi manySectors.cfiWords .sst = some ⟨8388608, [⟨4096, 2048⟩]⟩ := by decide
      exact (cfiFlashInit_own.mpr ⟨.sst, false, _, by decide, by decide, hquery, rfl⟩).1
    · have hle := h.sectors_le
      rw [hlength] at hle
      exact absurd hle (by decide)

def natSizes (sec : List Sector) : List Nat := sec.map fun s => s.size.toNat

theorem cast_natSizes {sec : List Sector} (hpos : ∀ s ∈ sec, 0 < s.size) : ((natSizes sec).sum : Int) = (sizes sec).sum := by
  induction sec with
  | nil => rfl
  | cons s sec ih =>
      have hs : (s.size.toNat : Int) = s.size := Int.toNat_of_nonneg (hpos s List.mem_cons_self).le
      have htail := ih fun c hc => hpos c (List.mem_cons_of_mem s hc)
      calc ((natSizes (s :: sec)).sum : Int) = s.size.toNat + (natSizes sec).sum := by simp [natSizes]
        _ = (sizes (s :: sec)).sum := by rw [hs, htail, sizes, sizes, List.map_cons, List.sum_cons]

theorem Valid.exists_table {fwp : Nat → UInt16} {p : Probe} (h : Valid fwp p) (hp : p.totalSize < 2147483648) {flashBase : Int}
    (hbase : 0 ≤ flashBase ∧ flashBase < 4294967296) :
    ∃ t : Table, t.flashBase = flashBase ∧ t.sec.length = p.sec.length ∧
      ∀ (i : Nat) (s : Sector), p.sec[i]? = some s → (t.base i : Int) = s.base ∧ (t.size i : Int) = s.size := by
  have hsum := cast_natSizes h.size_pos
  have htotal := h.total_eq
  have hpow : (0 : Int) < 2 ^ (fwp 0x27).toNat := pow_pos (by decide) _
  have hne : p.sec ≠ [] := by
    intro hnil
    have hzero : p.totalSize = 0 := by
      rw [htotal, hnil]
      rfl
    exact absurd (h.announced.symm.trans hzero) hpow.ne'
  refine ⟨⟨flashBase, natSizes p.sec, hbase, ?_, ?_, ?_, ?_⟩, rfl, List.length_map _, ?_⟩
  · intro z hz
    obtain ⟨s, hs, rfl⟩ := List.mem_map.mp hz
    have hpos := h.size_pos s hs
    omega
  · rw [natSizes, List.length_map]
    exact List.length_pos_iff.mpr hne
  · rw [natSizes, List.length_map]
    exact h.sectors_le
  · omega
  · intro i s hs
    constructor
    · have htake := cast_natSizes fun c hc => h.size_pos c (List.mem_of_mem_take (i := i) hc)
      calc (((natSizes p.sec).take i).sum : Int) = (natSizes (p.sec.take i)).sum := by rw [natSizes, natSizes, List.map_take]
        _ = s.base := htake.trans (h.base_eq i s hs).symm
    · have hpos := h.size_pos s (List.mem_of_getElem? hs)
      have hsize : (natSizes p.sec).getD i 0 = s.size.toNat := by simp [natSizes, hs]
      exact (congrArg Nat.cast hsize).trans (Int.toNat_of_nonneg hpos.le)

end AliceModem.CfiProbe
