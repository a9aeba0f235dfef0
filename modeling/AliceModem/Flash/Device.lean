import AliceModem.Flash.Sectors
import AliceModem.Lib.ByteMemory

namespace AliceModem.Device

open Words Hwdefs Sectors ByteMemory

abbrev Byte := UInt8

/-- One access of the flash driver that can change the device. A write that
fails its verification leaves unspecified bytes in the sector. -/
inductive Op
  | erase (sector : Nat)
  | write (sector : Nat) (offset : Int) (bytes : List Byte)
  | spoil (sector : Nat) (left : Mem Byte)

def Op.sector : Op → Nat
  | .erase s | .write s _ _ | .spoil s _ => s

variable (g : Geometry)

def sectorLength (s : Nat) : Nat := if s < g.sec.length then g.sec.getD s 0 else g.sec.headD 0

def program (m : Mem Byte) (a : Int) (bs : List Byte) : Mem Byte :=
  patch m a (List.zipWith (· &&& ·) (readBytes m a bs.length) bs)

def Op.apply (m : Mem Byte) : Op → Mem Byte
  | .erase s => fill m (sectorBase g s) (sectorLength g s) 0xff
  | .write s offset bs => program m (sectorBase g s + offset) bs
  | .spoil s left => patch m (sectorBase g s) (readBytes left 0 (sectorLength g s))

def Op.Inside : Op → Prop
  | .write s offset bs => 0 ≤ offset ∧ offset + bs.length ≤ sectorLength g s
  | .erase _ | .spoil _ _ => True

def replay (m : Mem Byte) (ops : List Op) : Mem Byte := ops.foldl (Op.apply g) m

/-- The device contents, the outcomes of the writes still to come (success
once the list is used up) and the accesses made so far. -/
structure Flash where
  mem : Mem Byte
  faults : List (Option (Mem Byte))
  trace : List Op

def fresh (m : Mem Byte) : Flash := ⟨m, [], []⟩

def Flash.perform (f : Flash) (op : Op) : Flash :=
  { f with mem := op.apply g f.mem, trace := f.trace ++ [op] }

def flashSectorEraseInt (f : Flash) (sector : Int) : Flash := f.perform g (.erase (uint16 sector))

def flashReadBuf (m : Mem Byte) (sector offset : Int) (numbytes : Nat) : List Byte :=
  readBytes m (sectorBase g (uint16 sector) + offset) numbytes

/-- `buffer` is the memory seen from the pointer passed to the driver. The
result is the number of bytes written, or -1. -/
def flashWriteBuf (f : Flash) (sector offset : Int) (buffer : Mem Byte) (numbytes : Int) : Int × Flash :=
  if numbytes < 0 then (-1, f)
  else match f.faults with
    | some left :: rest =>
        (-1, { f.perform g (.spoil (uint16 sector) left) with faults := rest })
    | none :: rest =>
        (numbytes, { f.perform g (.write (uint16 sector) offset (readBytes buffer 0 numbytes.toNat)) with
          faults := rest })
    | [] => (numbytes, f.perform g (.write (uint16 sector) offset (readBytes buffer 0 numbytes.toNat)))

/-- `f'` was reached from `f` by exactly the accesses `ops`. -/
structure Runs (f : Flash) (ops : List Op) (f' : Flash) : Prop where
  mem : f'.mem = replay g f.mem ops
  trace : f'.trace = f.trace ++ ops
  faults : f.faults = [] → f'.faults = []

variable {g}

theorem replay_append (m : Mem Byte) (xs ys : List Op) :
    replay g m (xs ++ ys) = replay g (replay g m xs) ys := List.foldl_append

theorem Runs.refl (f : Flash) : Runs g f [] f := ⟨rfl, by simp, id⟩

theorem Runs.trans {f f' f'' : Flash} {xs ys : List Op} (h : Runs g f xs f') (h' : Runs g f' ys f'') :
    Runs g f (xs ++ ys) f'' := by
  refine ⟨?_, ?_, fun hf => h'.faults (h.faults hf)⟩
  · rw [h'.mem, h.mem, replay_append]
  · rw [h'.trace, h.trace, List.append_assoc]

theorem perform_runs (f : Flash) (op : Op) : Runs g f [op] (f.perform g op) := ⟨rfl, rfl, id⟩

theorem erase_runs (f : Flash) (s : Int) : Runs g f [.erase (uint16 s)] (flashSectorEraseInt g f s) :=
  perform_runs f _

theorem write_runs (f : Flash) (s n : Int) (b : Mem Byte) (hn : n ≤ sectorLength g (uint16 s)) :
    ∃ ops, Runs g f ops (flashWriteBuf g f s 0 b n).2 ∧ ∀ op ∈ ops, op.sector = uint16 s ∧ op.Inside g := by
  unfold flashWriteBuf
  by_cases hneg : n < 0
  · exact ⟨[], by simpa [hneg] using Runs.refl f, by simp⟩
  · simp only [hneg, if_false]
    have hbuf : (Op.write (uint16 s) 0 (readBytes b 0 n.toNat)).Inside g := by
      rw [Op.Inside, length_readBytes]
      omega
    rcases hf : f.faults with _ | ⟨_ | left, rest⟩
    · exact ⟨_, perform_runs f _, by simpa [Op.sector] using hbuf⟩
    · refine ⟨_, ⟨rfl, rfl, ?_⟩, by simpa [Op.sector] using hbuf⟩
      rw [hf]
      simp
    · refine ⟨_, ⟨rfl, rfl, ?_⟩, by simp [Op.sector, Op.Inside]⟩
      rw [hf]
      simp

theorem write_ok (f : Flash) (s offset : Int) (b : Mem Byte) (n : Nat) (hf : f.faults = []) :
    flashWriteBuf g f s offset b n =
      ((n : Int), f.perform g (.write (uint16 s) offset (readBytes b 0 n))) := by
  simp [flashWriteBuf, hf, not_lt.mpr (Int.natCast_nonneg n)]

theorem write_returned {f f' : Flash} (hmem : f.mem = f'.mem) (hf' : f'.faults = []) {s offset n : Int} {b : Mem Byte}
    (hn : 0 ≤ n) (h : (flashWriteBuf g f s offset b n).1 = n) :
    (flashWriteBuf g f s offset b n).2.mem = (flashWriteBuf g f' s offset b n).2.mem := by
  unfold flashWriteBuf at h ⊢
  rw [if_neg (not_lt.mpr hn)] at h ⊢
  rw [if_neg (not_lt.mpr hn), hf']
  rcases hf : f.faults with _ | ⟨_ | left, rest⟩
  · simp only [Flash.perform, hmem]
  · simp only [Flash.perform, hmem]
  · rw [hf] at h
    simp only at h
    omega

theorem program_outside (m : Mem Byte) (a : Int) (bs : List Byte) (i : Int)
    (h : i < a ∨ a + bs.length ≤ i) : program m a bs i = m i :=
  patch_outside _ _ _ _ (by simpa using h)

theorem program_erased (m : Mem Byte) (a : Int) (bs : List Byte)
    (h : ∀ i, a ≤ i → i < a + bs.length → m i = 0xff) : program m a bs = patch m a bs := by
  have hread : readBytes m a bs.length = List.replicate bs.length 0xff :=
    readBytes_replicate fun i hi => h (a + i) (by omega) (by omega)
  have hzip : List.zipWith (· &&& ·) (List.replicate bs.length (0xff : Byte)) bs = bs := by
    apply List.ext_getElem (by simp)
    intro i _ _
    simp only [List.getElem_zipWith, List.getElem_replicate]
    exact UInt8.neg_one_and
  rw [program, hread, hzip]

theorem apply_outside {op : Op} (hin : op.Inside g) (m : Mem Byte) {i : Int}
    (h : i < sectorBase g op.sector ∨ sectorBase g op.sector + sectorLength g op.sector ≤ i) :
    op.apply g m i = m i := by
  cases op with
  | erase s => exact fill_outside _ _ _ _ _ h
  | write s offset bs =>
      rw [Op.sector] at h
      obtain ⟨h0, h1⟩ := hin
      exact program_outside _ _ _ _ (by omega)
  | spoil s left =>
      rw [Op.sector] at h
      exact patch_outside _ _ _ _ (by rw [length_readBytes]; omega)

theorem replay_outside {ops : List Op} (hin : ∀ op ∈ ops, op.Inside g) (m : Mem Byte) {i : Int}
    (h : ∀ op ∈ ops, i < sectorBase g op.sector ∨ sectorBase g op.sector + sectorLength g op.sector ≤ i) :
    replay g m ops i = m i := by
  induction ops generalizing m with
  | nil => rfl
  | cons op ops ih =>
      have htail := ih (fun o ho => hin o (List.mem_cons_of_mem _ ho)) (op.apply g m)
        (fun o ho => h o (List.mem_cons_of_mem _ ho))
      have hhead := apply_outside (hin op (by simp)) m (h op (by simp))
      rw [← hhead, ← htail]
      rfl

end AliceModem.Device
