import AliceModem.Flash.Layout
import AliceModem.Flash.ScratchPad

namespace AliceModem.ConfigCopies

open Words Hwdefs Sectors ByteMemory Device SharedBlks Regions ImageTag Layout ScratchPad

/-- The requests that rewrite the two configurations and the scratch pad. -/
inductive Call
  | persistentSet (string : Mem Byte) (strLen offset : Int)
  | darePersistentSet (string : Mem Byte) (strLen offset : Int)
  | scratchPadSet (heap tokenId : Mem Byte) (tokBuf : Option (Mem Byte)) (bufLen : Int)
  | scratchPadClearAll

variable (g : Geometry) (info : FlashAddrInfo)

def Call.exec (f : Flash) : Call → Flash
  | .persistentSet string strLen offset => (kerSysPersistentSet g info f string strLen offset).2
  | .darePersistentSet string strLen offset => (kerSysDarePersistentSet g info f string strLen offset).2
  | .scratchPadSet heap tokenId tokBuf bufLen => (kerSysScratchPadSet g info f heap tokenId tokBuf bufLen).2
  | .scratchPadClearAll => (kerSysScratchPadClearAll g info f).2

def Call.run (f : Flash) (calls : List Call) : Flash := calls.foldl (Call.exec g info) f

def Call.own : Call → Region
  | .persistentSet _ _ _ => info.persistent
  | .darePersistentSet _ _ _ => info.darePersistent
  | .scratchPadSet _ _ _ _ | .scratchPadClearAll => info.scratchPad

def Holds (r : Region) (s : Nat) : Prop := r.startBlk ≤ s ∧ (s : Int) < r.endBlk

/-- The sectors of the other copy: a call on the second configuration must stay
off the first one and off the scratch pad, any other call off the second. -/
def Call.Foreign (s : Nat) : Call → Prop
  | .darePersistentSet _ _ _ => Holds info.persistent s ∨ Holds info.scratchPad s
  | .persistentSet _ _ _ | .scratchPadSet _ _ _ _ | .scratchPadClearAll => Holds info.darePersistent s

variable {g info}

theorem Call.exec_runs (f : Flash) (c : Call) (hl : 0 ≤ (c.own info).startBlk)
    (hu : (c.own info).endBlk ≤ 65536) :
    ∃ ops, Runs g f ops (c.exec g info f) ∧
      ∀ op ∈ ops, Op.Within g (c.own info).startBlk (c.own info).endBlk op := by
  cases c with
  | persistentSet string strLen offset => exact sharedSet_runs f hl hu _ _ _ _
  | darePersistentSet string strLen offset => exact sharedSet_runs f hl hu _ _ _ _
  | scratchPadSet heap tokenId tokBuf bufLen => exact kerSysScratchPadSet_runs f hl hu _ _ _ _
  | scratchPadClearAll => exact kerSysScratchPadClearAll_runs f hl hu

theorem sector_disjoint {n size : Nat} (hg : Uniform g n size) {s t : Nat} (hs : s < n) (ht : t < n)
    (hne : s ≠ t) {i : Int} (hi : blkStart g t ≤ i ∧ i < blkStart g (t + 1)) :
    i < sectorBase g s ∨ sectorBase g s + sectorLength g s ≤ i := by
  have hlen : sectorLength g s = size := by rw [sectorLength, if_pos (by rwa [hg.length]), hg.getD hs]
  rw [blkStart_uniform hg (by omega) (by omega), blkStart_uniform hg (by omega) (by omega)] at hi
  rw [hlen, hg.base hs]
  rcases Nat.lt_or_gt_of_ne hne with h | h
  · right
    have : ((s + 1 : Nat) : Int) * size ≤ t * size := by exact_mod_cast Nat.mul_le_mul_right size h
    push_cast [add_mul, one_mul] at this
    omega
  · left
    have : ((t + 1 : Nat) : Int) * size ≤ s * size := by exact_mod_cast Nat.mul_le_mul_right size h
    push_cast at this
    omega

section

variable {n size ulPsiSize : Nat} (hg : Uniform g n size)

include hg

theorem Call.exec_foreign (ho : Ordered n info.persistent info.scratchPad info.darePersistent) (f : Flash)
    (c : Call) :
    ∃ ops, Runs g f ops (c.exec g info f) ∧ (∀ op ∈ ops, ¬ c.Foreign info op.sector) ∧
      ∀ (k s : Nat) (i : Int), c.Foreign info s → blkStart g s ≤ i ∧ i < blkStart g (s + 1) →
        replay g f.mem (ops.take k) i = f.mem i := by
  obtain ⟨hd0, hdle, hds, hsp, hse, hpn, hpe⟩ := ho
  have hn := hg.le
  simp only [maxSectors] at hn
  have hown : 0 ≤ (c.own info).startBlk ∧ (c.own info).endBlk ≤ n := by
    cases c <;> simp only [Call.own] <;> omega
  have hapart (s t : Nat) (hs : Holds (c.own info) s) (ht : c.Foreign info t) : s < n ∧ t < n ∧ s ≠ t := by
    cases c <;> simp only [Call.own, Call.Foreign, Holds] at hs ht <;> omega
  obtain ⟨ops, hruns, hwithin⟩ := Call.exec_runs (g := g) f c hown.1 (by omega)
  refine ⟨ops, hruns, fun op hop hf => (hapart _ _ (hwithin op hop).1 hf).2.2 rfl, fun k s i hs hi => ?_⟩
  have htake : ∀ op ∈ ops.take k, Op.Within g (c.own info).startBlk (c.own info).endBlk op :=
    fun op hop => hwithin op (List.mem_of_mem_take hop)
  apply replay_outside (fun op hop => (htake op hop).2)
  intro op hop
  obtain ⟨h1, h2, h3⟩ := hapart _ _ (htake op hop).1 hs
  exact sector_disjoint hg h1 h2 h3 hi

/-- In every run of updates a call accesses no sector of the other copy, and at
every point of the call the bytes of those sectors are the ones it found. -/
theorem config_copies_independent (hpsi : 1 ≤ ulPsiSize ∧ ulPsiSize ≤ 64) (pTag : FileTag)
    (hsp : (kerSysFlashInit g ulPsiSize (some pTag)).scratchPad.length ≠ 0)
    (hroom : 0 ≤ flashGetTotalSize g - psiLength ulPsiSize - spMaxLen)
    (hdare : 0 ≤ dareAddr g ulPsiSize (flashGetBlk g (kernelEndAddr g pTag)))
    (f : Flash) (calls : List Call) (c : Call) :
    let info := kerSysFlashInit g ulPsiSize (some pTag)
    let f' := Call.run g info f calls
    ∃ ops, Runs g f' ops (c.exec g info f') ∧ (∀ op ∈ ops, ¬ c.Foreign info op.sector) ∧
      ∀ (k s : Nat) (i : Int), c.Foreign info s → blkStart g s ≤ i ∧ i < blkStart g (s + 1) →
        replay g f'.mem (ops.take k) i = f'.mem i := by
  have hroom' : (ulPsiSize : Int) * 1024 + 8192 ≤ n * size := by
    rw [hg.totalSize, psiLength_eq hpsi.1 hpsi.2, spMaxLen] at hroom
    omega
  have hk : spBlk n size ulPsiSize ≠ flashGetBlk g (kernelEndAddr g pTag) := by
    intro hk
    simp only [kerSysFlashInit, spRegion_off hg hpsi hroom' hk] at hsp
    exact hsp rfl
  exact Call.exec_foreign hg (regions_ordered hg hpsi hroom' hk hdare) _ c

end

def blankTag : FileTag := List.replicate 256 0

theorem config_copies_independent_demo :
    let info := kerSysFlashInit demoFlash 24 (some blankTag)
    let f' := Call.run demoFlash info (fresh fun _ => 0xff) [.darePersistentSet (fun _ => 0) 100 0]
    info.darePersistent.length ≠ 0 ∧
    ∃ ops, Runs demoFlash f' ops (Call.scratchPadClearAll.exec demoFlash info f') ∧
      (∀ op ∈ ops, ¬ Call.scratchPadClearAll.Foreign info op.sector) ∧
      ∀ (k s : Nat) (i : Int), Call.scratchPadClearAll.Foreign info s →
        blkStart demoFlash s ≤ i ∧ i < blkStart demoFlash (s + 1) →
        replay demoFlash f'.mem (ops.take k) i = f'.mem i :=
  ⟨by decide +kernel, config_copies_independent demoFlash_uniform (by decide) blankTag
    (by decide) (by decide) (by decide) _ _ _⟩

end AliceModem.ConfigCopies
