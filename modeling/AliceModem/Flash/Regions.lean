import AliceModem.Flash.SharedBlks

namespace AliceModem.Regions

open Words Hwdefs Sectors ByteMemory Device SharedBlks

/-- The four `flash_*` fields that describe one part of the flash. -/
structure Region where
  startBlk : Int
  numberBlk : Int
  length : Int
  blkOffset : Int

structure FlashAddrInfo where
  persistent : Region
  scratchPad : Region
  nvram : Region
  darePersistent : Region
  rootfsStartOffset : Int

def Region.endBlk (r : Region) : Int := r.startBlk + r.numberBlk

structure Region.InFlash (g : Geometry) (r : Region) : Prop where
  start_nonneg : 0 ≤ r.startBlk
  number_nonneg : 0 ≤ r.numberBlk
  inside : r.endBlk ≤ g.sec.length

structure Region.Fits (g : Geometry) (r : Region) : Prop where
  start_nonneg : 0 ≤ r.startBlk
  number_nonneg : 0 ≤ r.numberBlk
  inside : r.endBlk ≤ g.sec.length
  offset_nonneg : 0 ≤ r.blkOffset
  length_nonneg : 0 ≤ r.length
  window : r.blkOffset + r.length ≤ blkStart g r.endBlk - blkStart g r.startBlk

def Region.first (g : Geometry) (r : Region) : Int := blkStart g r.startBlk + r.blkOffset

variable (g : Geometry)

/-- The common body of the `kerSys*Get` functions. A negative count is a
copy of almost the whole address space, which never returns. -/
def sharedGet (m heap : Mem Byte) (r : Region) (limit strLen offset : Int) : Option (Int × List Byte) :=
  if limit < strLen then some (-1, [])
  else if strLen < 0 then none
  else
    let pBuf := getSharedBlks g m heap r.startBlk r.endBlk
    some (0, readBytes pBuf (r.blkOffset + offset) strLen.toNat)

def sharedSet (f : Flash) (r : Region) (limit : Int) (string : Mem Byte) (strLen offset : Int) :
    Option Int × Flash :=
  if limit < strLen then (some (-1), f)
  else if strLen < 0 then (none, f)
  else
    let pBuf := getSharedBlks g f.mem (fun _ => 0) r.startBlk r.endBlk
    let pBuf := patch pBuf (r.blkOffset + offset) (readBytes string 0 strLen.toNat)
    let w := setSharedBlks g f r.startBlk r.endBlk pBuf
    (some (if w.1 ≠ 0 then -1 else 0), w.2)

/-- `kerSysEarlyFlashInit`: the parts of `fInfo` that do not depend on the
contents of the device. The other parts are still zero. -/
def kerSysEarlyFlashInit : FlashAddrInfo where
  persistent := ⟨0, 0, 0, 0⟩
  scratchPad := ⟨0, 0, 0, 0⟩
  nvram := ⟨0, 1, nvramLength, nvramDataOffset⟩
  darePersistent := ⟨0, 0, 0, 0⟩
  rootfsStartOffset :=
    if flashGetSectorSize g 0 < flashLengthBootRom then flashLengthBootRom else flashGetSectorSize g 0

variable (info : FlashAddrInfo)

def kerSysNvRamGet (m heap : Mem Byte) (strLen offset : Int) : Option (Int × List Byte) :=
  sharedGet g m heap info.nvram nvramLength strLen offset

def kerSysNvRamSet (f : Flash) (string : Mem Byte) (strLen offset : Int) : Option Int × Flash :=
  sharedSet g f info.nvram nvramLength string strLen offset

def kerSysPersistentGet (m heap : Mem Byte) (strLen offset : Int) : Option (Int × List Byte) :=
  sharedGet g m heap info.persistent info.persistent.length strLen offset

def kerSysPersistentSet (f : Flash) (string : Mem Byte) (strLen offset : Int) : Option Int × Flash :=
  sharedSet g f info.persistent info.persistent.length string strLen offset

def kerSysDarePersistentGet (m heap : Mem Byte) (strLen offset : Int) : Option (Int × List Byte) :=
  sharedGet g m heap info.darePersistent info.darePersistent.length strLen offset

def kerSysDarePersistentSet (f : Flash) (string : Mem Byte) (strLen offset : Int) : Option Int × Flash :=
  sharedSet g f info.darePersistent info.darePersistent.length string strLen offset

variable {g}

theorem Region.InFlash.mono {r : Region} (h : r.InFlash g) : r.startBlk ≤ r.endBlk := by
  have := h.number_nonneg
  rw [Region.endBlk]
  omega

theorem Region.Fits.inFlash {r : Region} (h : r.Fits g) : r.InFlash g := ⟨h.start_nonneg, h.number_nonneg, h.inside⟩

theorem Region.Fits.mono {r : Region} (h : r.Fits g) : r.startBlk ≤ r.endBlk := h.inFlash.mono

theorem nvram_fits : (kerSysEarlyFlashInit g).nvram.Fits g := by
  have hfit := g.nvram_fits
  have hpos := g.nsect_pos
  have hstep := blkStart_succ (g := g) (a := 0) le_rfl (by omega)
  have hsize : flashGetSectorSize g 0 = g.sec.headD 0 := by
    rw [flashGetSectorSize, List.headD_eq_head?_getD, List.head?_eq_getElem?, List.getD_eq_getElem?_getD]
    rfl
  refine ⟨le_rfl, zero_le_one, ?_, by simp [kerSysEarlyFlashInit], by simp [kerSysEarlyFlashInit], ?_⟩
  · simp only [kerSysEarlyFlashInit, Region.endBlk]
    omega
  · simp only [kerSysEarlyFlashInit, Region.endBlk, zero_add] at hstep ⊢
    omega

theorem sharedGet_inside (m heap : Mem Byte) {r : Region} (hr : r.InFlash g) {limit offset : Int} {n : Nat}
    (hlimit : n ≤ limit) (hl : 0 ≤ r.blkOffset + offset)
    (hu : r.blkOffset + offset + n ≤ blkStart g r.endBlk - blkStart g r.startBlk) :
    sharedGet g m heap r limit n offset = some (0, readBytes m (r.first g + offset) n) := by
  rw [sharedGet, if_neg (by omega), if_neg (by omega)]
  simp only [Int.toNat_natCast, Option.some.injEq, Prod.mk.injEq, true_and]
  apply readBytes_congr
  intro i hi
  rw [getSharedBlks_eq m heap hr.start_nonneg hr.mono hr.inside, if_pos (by omega), Region.first]
  congr 1
  omega

theorem sharedSet_ok (f : Flash) (hf : f.faults = []) {r : Region} (hr : r.InFlash g) {limit : Int}
    {n : Nat} (hlimit : n ≤ limit) (string : Mem Byte) (offset : Int) :
    (sharedSet g f r limit string n offset).1 = some 0 ∧
    (sharedSet g f r limit string n offset).2.faults = [] ∧
    ∀ i, (sharedSet g f r limit string n offset).2.mem i =
      if (blkStart g r.startBlk ≤ i ∧ i < blkStart g r.endBlk) ∧
        (r.first g + offset ≤ i ∧ i < r.first g + offset + n)
      then string (i - (r.first g + offset)) else f.mem i := by
  rw [sharedSet, if_neg (by omega), if_neg (by omega)]
  obtain ⟨h1, h2, h3⟩ := setSharedBlks_ok f hf hr.start_nonneg hr.mono hr.inside
    (patch (getSharedBlks g f.mem (fun _ => 0) r.startBlk r.endBlk) (r.blkOffset + offset)
      (readBytes string 0 n))
  simp only [Int.toNat_natCast, h1, ne_eq, not_true_eq_false, if_false, true_and]
  refine ⟨h2, fun i => ?_⟩
  rw [h3]
  by_cases hi : blkStart g r.startBlk ≤ i ∧ i < blkStart g r.endBlk
  · rw [if_pos hi]
    by_cases hj : r.first g + offset ≤ i ∧ i < r.first g + offset + n
    · rw [Region.first] at hj ⊢
      rw [if_pos ⟨hi, hj⟩, patch_inside _ _ _ _ (by omega) (by rw [length_readBytes]; omega),
        getD_readBytes _ _ _ _ (by omega)]
      congr 1
      omega
    · rw [if_neg (fun h => hj h.2)]
      rw [Region.first] at hj
      rw [patch_outside _ _ _ _ (by rw [length_readBytes]; omega),
        getSharedBlks_eq f.mem _ hr.start_nonneg hr.mono hr.inside, if_pos (by omega)]
      congr 1
      omega
  · rw [if_neg hi, if_neg (fun h => hi h.1)]

theorem sharedSet_runs (f : Flash) {r : Region} (hl : 0 ≤ r.startBlk) (hu : r.endBlk ≤ 65536)
    (limit strLen offset : Int) (string : Mem Byte) :
    ∃ ops, Runs g f ops (sharedSet g f r limit string strLen offset).2 ∧
      ∀ op ∈ ops, Op.Within g r.startBlk r.endBlk op := by
  rw [sharedSet]
  split
  · exact ⟨[], Runs.refl f, by simp⟩
  · split
    · exact ⟨[], Runs.refl f, by simp⟩
    · exact setSharedBlks_runs f hl hu _

inductive Store
  | nvRam
  | persistent
  | darePersistent
  deriving DecidableEq

def Store.region : Store → Region
  | .nvRam => info.nvram
  | .persistent => info.persistent
  | .darePersistent => info.darePersistent

def Store.limit : Store → Int
  | .nvRam => nvramLength
  | .persistent => info.persistent.length
  | .darePersistent => info.darePersistent.length

variable (g)

def Store.get (m heap : Mem Byte) (strLen offset : Int) : Store → Option (Int × List Byte)
  | .nvRam => kerSysNvRamGet g info m heap strLen offset
  | .persistent => kerSysPersistentGet g info m heap strLen offset
  | .darePersistent => kerSysDarePersistentGet g info m heap strLen offset

def Store.set (f : Flash) (string : Mem Byte) (strLen offset : Int) : Store → Option Int × Flash
  | .nvRam => kerSysNvRamSet g info f string strLen offset
  | .persistent => kerSysPersistentSet g info f string strLen offset
  | .darePersistent => kerSysDarePersistentSet g info f string strLen offset

/-- A request `(strLen, offset)` is confined when every successful update with
it changes bytes of the region's window only and can be read back. -/
def Confined (s : Store) (strLen offset : Int) : Prop :=
  ∀ (m string heap : Mem Byte) (f : Flash), s.set g info (fresh m) string strLen offset = (some 0, f) →
    (∀ i, f.mem i ≠ m i → (s.region info).first g ≤ i ∧ i < (s.region info).first g + (s.region info).length) ∧
    s.get g info f.mem heap strLen offset = some (0, readBytes string 0 strLen.toNat)

def SharedConfined (r : Region) (limit strLen offset : Int) : Prop :=
  ∀ (m string heap : Mem Byte) (f : Flash), sharedSet g (fresh m) r limit string strLen offset = (some 0, f) →
    (∀ i, f.mem i ≠ m i → r.first g ≤ i ∧ i < r.first g + r.length) ∧
    sharedGet g f.mem heap r limit strLen offset = some (0, readBytes string 0 strLen.toNat)

variable {g info}

theorem confined_iff_shared (s : Store) (strLen offset : Int) :
    Confined g info s strLen offset ↔ SharedConfined g (s.region info) (s.limit info) strLen offset := by
  cases s <;> exact Iff.rfl

variable {r : Region} {limit : Int}

theorem shared_of_not_copied {strLen : Int} (h : limit < strLen ∨ strLen < 0) (offset : Int) :
    SharedConfined g r limit strLen offset := by
  intro m string heap f hset
  rw [sharedSet] at hset
  split at hset
  · simp at hset
  · rw [if_pos (by omega)] at hset
    simp at hset

/-- The bytes of a request lie in the window and in the sectors of the region. -/
def Region.Covers (g : Geometry) (r : Region) (strLen offset : Int) : Prop :=
  (0 ≤ offset ∧ offset + strLen ≤ r.length) ∧
    0 ≤ r.blkOffset + offset ∧ r.blkOffset + offset + strLen ≤ blkStart g r.endBlk - blkStart g r.startBlk

theorem Region.Fits.covers_iff (hr : r.Fits g) {strLen offset : Int} :
    r.Covers g strLen offset ↔ 0 ≤ offset ∧ offset + strLen ≤ r.length := by
  have hw := hr.window
  have ho := hr.offset_nonneg
  rw [Region.Covers]
  omega

theorem shared_of_covers (hr : r.InFlash g) {offset : Int} {n : Nat} (h : n = 0 ∨ r.Covers g n offset) :
    SharedConfined g r limit n offset := by
  intro m string heap f hset
  have hlimit : n ≤ limit := by
    by_contra hlt
    rw [sharedSet, if_pos (by omega)] at hset
    simp at hset
  obtain ⟨-, -, hmem⟩ := sharedSet_ok (fresh m) rfl hr hlimit string offset
  rw [hset] at hmem
  have hfirst : r.first g = blkStart g r.startBlk + r.blkOffset := rfl
  rw [Region.Covers] at h
  refine ⟨fun i hi => ?_, ?_⟩
  · rw [hmem] at hi
    split at hi
    next hc => omega
    next hc => exact absurd rfl hi
  · obtain rfl | ⟨⟨hl, hu⟩, hl', hu'⟩ := h
    · rw [sharedGet, if_neg (by omega), if_neg (by omega)]
      rfl
    · rw [sharedGet_inside f.mem heap hr hlimit hl' hu']
      simp only [Int.toNat_natCast, Option.some.injEq, Prod.mk.injEq, true_and]
      apply readBytes_congr
      intro i hi
      rw [hmem, if_pos (by omega)]
      congr 1
      omega

theorem not_shared_of_outside (hr : r.InFlash g) {offset : Int} {n : Nat} (hlimit : n ≤ limit)
    (j : Nat) (hj : j < n) (hout : offset + j < 0 ∨ r.length ≤ offset + j ∨ r.blkOffset + offset + j < 0 ∨
      blkStart g r.endBlk - blkStart g r.startBlk ≤ r.blkOffset + offset + j) :
    ¬ SharedConfined g r limit n offset := by
  intro hc
  have hfirst : r.first g = blkStart g r.startBlk + r.blkOffset := rfl
  obtain ⟨hret, -, hmem⟩ := sharedSet_ok (fresh fun _ => 0) rfl hr hlimit (fun _ => 1) offset
  obtain ⟨hframe, hget⟩ := hc _ _ (fun _ => 0) _ (Prod.ext hret rfl)
  by_cases hin : 0 ≤ r.blkOffset + offset + j ∧
      r.blkOffset + offset + j < blkStart g r.endBlk - blkStart g r.startBlk
  · have h := hframe (r.first g + offset + j) (by
      rw [hmem, if_pos (by omega)]
      decide)
    omega
  · rw [sharedGet, if_neg (by omega), if_neg (by omega)] at hget
    simp only [Int.toNat_natCast, Option.some.injEq, Prod.mk.injEq, true_and] at hget
    have hbyte := congrArg (fun l : List Byte => l.getD j default) hget
    simp only [getD_readBytes _ _ _ _ hj] at hbyte
    rw [getSharedBlks_eq _ _ hr.start_nonneg hr.mono hr.inside, if_neg (by omega)] at hbyte
    exact absurd hbyte (by decide)

/-- Exactly the requests that are rejected, copy nothing or stay inside the window and the sectors are confined: the
length is checked, the offset is not, and neither is the place of the window. -/
theorem store_confined_iff (s : Store) (hr : (s.region info).InFlash g) (strLen offset : Int) :
    Confined g info s strLen offset ↔
      s.limit info < strLen ∨ strLen ≤ 0 ∨ (s.region info).Covers g strLen offset := by
  rw [confined_iff_shared]
  obtain hneg | ⟨n, rfl⟩ : strLen < 0 ∨ ∃ n : Nat, strLen = n := by
    rcases lt_or_ge strLen 0 with h | h
    · exact .inl h
    · exact .inr ⟨strLen.toNat, by omega⟩
  · exact iff_of_true (shared_of_not_copied (.inr hneg) offset) (by omega)
  constructor
  · intro hc
    by_contra hnot
    rw [Region.Covers] at hnot
    by_cases hlow : offset < 0 ∨ (s.region info).blkOffset + offset < 0
    · exact not_shared_of_outside hr (by omega) 0 (by omega) (by omega) hc
    · exact not_shared_of_outside hr (by omega) (n - 1) (by omega) (by omega) hc
  · rintro (h | h | h)
    · exact shared_of_not_copied (.inl h) offset
    · exact shared_of_covers hr (.inl (by omega))
    · exact shared_of_covers hr (.inr h)

def demoFlash : Geometry := Geometry.uniform .cfi 64 65536 (by decide) (by decide) (by decide)

theorem demoFlash_uniform : Uniform demoFlash 64 65536 := uniform_uniform _ _ _

theorem nvRam_confined : Confined demoFlash (kerSysEarlyFlashInit demoFlash) .nvRam 300 724 :=
  (store_confined_iff .nvRam nvram_fits.inFlash 300 724).mpr (.inr (.inr (nvram_fits.covers_iff.mpr (by decide))))

theorem kerSysNvRamSet_past_window :
    (kerSysNvRamSet demoFlash (kerSysEarlyFlashInit demoFlash) (fresh fun _ => 0xff) (fun _ => 0) 1 1024).1
      = some 0 ∧
    (kerSysNvRamSet demoFlash (kerSysEarlyFlashInit demoFlash) (fresh fun _ => 0xff) (fun _ => 0) 1 1024).2.mem
      2432 = 0 ∧
    ¬ Confined demoFlash (kerSysEarlyFlashInit demoFlash) .nvRam 1 1024 := by
  have hin := (nvram_fits (g := demoFlash)).inFlash
  obtain ⟨hret, -, hmem⟩ := sharedSet_ok (n := 1) (fresh fun _ => 0xff) rfl hin
    (show (1 : Nat) ≤ nvramLength by decide) (fun _ => 0) 1024
  have hbyte := hmem 2432
  rw [if_pos (by decide)] at hbyte
  refine ⟨hret, hbyte, ?_⟩
  rw [confined_iff_shared]
  exact not_shared_of_outside (n := 1) hin (by decide) 0 (by decide) (by decide)

end AliceModem.Regions
