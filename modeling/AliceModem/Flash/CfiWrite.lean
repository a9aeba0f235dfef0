import AliceModem.Flash.CfiProbe
import AliceModem.Flash.Device
import Mathlib.Data.List.Induction

namespace AliceModem.CfiWrite

open Words Sectors ByteMemory Device
open CfiProbe (Family)

/-- What happens when a word is programmed: the bits that are not cleared although
they should be, and whether the status register reports a failure. -/
structure Attempt where
  keep : Byte × Byte
  failed : Bool

def flashApiError : Int := -1

def ready (family : Family) (t : Attempt) (b0 b1 v0 v1 : Byte) : Bool :=
  match family with
  | .amd | .sst => v0 == b0 && v1 == b1
  | .intel => !t.failed

def writeLoop (family : Family) (attempts : Nat → Attempt) : Nat → Mem Byte → Int → List Byte → Nat × Mem Byte
  | i, m, a, b0 :: b1 :: bs =>
      let v0 := m a &&& (b0 ||| (attempts i).keep.1)
      let v1 := m (a + 1) &&& (b1 ||| (attempts i).keep.2)
      let m := patch m a [v0, v1]
      if ready family (attempts i) b0 b1 v0 v1 then
        let r := writeLoop family attempts (i + 1) m (a + 2) bs
        (r.1 + 2, r.2)
      else (0, m)
  | _, m, _, _ => (0, m)

variable (g : Geometry)

def cfiFlashWrite (family : Family) (attempts : Nat → Attempt) (sector offset : Nat) (buf : List Byte) (m : Mem Byte) :
    Int × Mem Byte :=
  if offset % 2 = 1 ∨ buf.length % 2 = 1 then (flashApiError, m)
  else
    let r := writeLoop family attempts 0 m (sectorBase g sector + offset) buf
    (r.1, r.2)

/-- The rounds that are left, from round `r` on. -/
def writeBufLoop (family : Family) (attempts : Nat → Nat → Attempt) (sector offset : Nat) (buffer : List Byte) :
    Nat → Nat → Mem Byte → Int × Mem Byte
  | 0, _, m => (flashApiError, m)
  | n + 1, r, m =>
      let (ret, m) := cfiFlashWrite g family (attempts r) sector offset buffer m
      if readBytes m (sectorBase g sector + offset) buffer.length = buffer then (ret, m)
      else writeBufLoop family attempts sector offset buffer n (r + 1) ((Op.erase sector).apply g m)

def cfiFlashWriteBuf (family : Family) (attempts : Nat → Nat → Attempt) (sector offset : Nat) (buffer : List Byte)
    (m : Mem Byte) : Int × Mem Byte :=
  writeBufLoop g family attempts sector offset buffer 3 0 m

def written (family : Family) (attempts : Nat → Attempt) : Nat → List Byte → Nat × List Byte
  | i, b0 :: b1 :: bs =>
      let v0 := b0 ||| (attempts i).keep.1
      let v1 := b1 ||| (attempts i).keep.2
      if ready family (attempts i) b0 b1 v0 v1 then
        let r := written family attempts (i + 1) bs
        (r.1 + 2, v0 :: v1 :: r.2)
      else (0, v0 :: v1 :: List.replicate bs.length 0xff)
  | _, bs => (0, List.replicate bs.length 0xff)

/-- A request for an even part of a sector whose bytes there are erased. -/
structure Request (sector offset : Nat) (buffer : List Byte) (m : Mem Byte) : Prop where
  offset_even : offset % 2 = 0
  length_even : buffer.length % 2 = 0
  within : offset + buffer.length ≤ sectorLength g sector
  erased : ∀ j : Nat, j < buffer.length → m (sectorBase g sector + offset + j) = 0xff

/-- The length is returned exactly if the buffer is in the flash, the error value
otherwise, and the rest of the sector is as it was. -/
structure Contract (sector offset : Nat) (buffer : List Byte) (m : Mem Byte) (result : Int × Mem Byte) : Prop where
  returns : result.1 = buffer.length ↔ readBytes result.2 (sectorBase g sector + offset) buffer.length = buffer
  error : readBytes result.2 (sectorBase g sector + offset) buffer.length ≠ buffer → result.1 = flashApiError
  outside : ∀ i, sectorBase g sector ≤ i → i < sectorBase g sector + sectorLength g sector →
    (i < sectorBase g sector + offset ∨ sectorBase g sector + offset + buffer.length ≤ i) → result.2 i = m i

def Good (family : Family) (attempts : Nat → Nat → Attempt) (buffer : List Byte) (r : Nat) : Prop :=
  (written family (attempts r) 0 buffer).2 = buffer

def Complete (family : Family) (attempts : Nat → Nat → Attempt) (buffer : List Byte) (r : Nat) : Prop :=
  (written family (attempts r) 0 buffer).1 = buffer.length

def RestErased (sector offset : Nat) (buffer : List Byte) (m : Mem Byte) : Prop :=
  ∀ i, sectorBase g sector ≤ i → i < sectorBase g sector + sectorLength g sector →
    (i < sectorBase g sector + offset ∨ sectorBase g sector + offset + buffer.length ≤ i) → m i = 0xff

section Words

variable {family : Family} {attempts : Nat → Attempt}

variable (family attempts) in
theorem length_written (i : Nat) (bs : List Byte) : (written family attempts i bs).2.length = bs.length := by
  induction bs using List.twoStepInduction generalizing i with
  | nil | singleton => rfl
  | cons_cons b0 b1 bs ih _ =>
      rw [written]
      dsimp only
      split
      · simp only [List.length_cons, ih]
      · simp only [List.length_cons, List.length_replicate]

theorem patch_erased {m : Mem Byte} {a : Int} {n : Nat} (h : ∀ j : Nat, j < n → m (a + j) = 0xff) :
    patch m a (List.replicate n 0xff) = m := by
  refine patch_same ?_
  rw [List.length_replicate]
  exact readBytes_replicate h

theorem writeLoop_erased (i : Nat) {m : Mem Byte} {a : Int} {bs : List Byte}
    (h : ∀ j : Nat, j < bs.length → m (a + j) = 0xff) :
    writeLoop family attempts i m a bs =
      ((written family attempts i bs).1, patch m a (written family attempts i bs).2) := by
  induction bs using List.twoStepInduction generalizing i m a with
  | nil => exact congrArg (Prod.mk _) (patch_erased h).symm
  | singleton b => exact congrArg (Prod.mk _) (patch_erased h).symm
  | cons_cons b0 b1 bs ih _ =>
      have h0 : m a = 0xff := by simpa using h 0 (by simp)
      have h1 : m (a + 1) = 0xff := h 1 (by simp)
      have hrest (v0 v1 : Byte) (j : Nat) (hj : j < bs.length) : patch m a [v0, v1] (a + 2 + j) = 0xff := by
        have hnext := h (j + 2) (by simpa using hj)
        rw [Int.natCast_add, Int.add_comm (j : Int), ← Int.add_assoc] at hnext
        rw [patch_outside _ _ _ _ (.inr (by simp only [List.length_cons, List.length_nil]; omega))]
        exact hnext
      have hand (b : Byte) : 0xff &&& b = b := UInt8.neg_one_and
      rw [writeLoop, h0, h1, hand, hand, written]
      dsimp only
      split
      · rw [ih (i + 1) (hrest _ _)]
        exact congrArg (Prod.mk _) (patch_append m a [_, _] _)
      · have hsplit := patch_append m a [b0 ||| (attempts i).keep.1, b1 ||| (attempts i).keep.2]
          (List.replicate bs.length 0xff)
        have hsame := patch_erased (hrest (b0 ||| (attempts i).keep.1) (b1 ||| (attempts i).keep.2))
        exact congrArg (Prod.mk 0) (hsame.symm.trans hsplit)

theorem written_complete (hfamily : family ≠ .intel) (i : Nat) {bs : List Byte} (heven : bs.length % 2 = 0)
    (h : (written family attempts i bs).2 = bs) : (written family attempts i bs).1 = bs.length := by
  induction bs using List.twoStepInduction generalizing i with
  | nil => rfl
  | singleton b => cases heven
  | cons_cons b0 b1 bs ih _ =>
      rw [written] at h ⊢
      dsimp only at h ⊢
      split at h
      case isTrue hready =>
        rw [if_pos hready]
        simp only [List.cons.injEq] at h
        have hrest : bs.length % 2 = 0 := by
          simp only [List.length_cons] at heven
          omega
        simp only [ih (i + 1) hrest h.2.2, List.length_cons]
      case isFalse hready =>
        simp only [List.cons.injEq] at h
        rw [h.1, h.2.1] at hready
        cases family with
        | amd | sst => exact absurd (by simp [ready]) hready
        | intel => exact absurd rfl hfamily

theorem written_ff (i n : Nat) :
    (written family attempts i (List.replicate n 0xff)).2 = List.replicate n 0xff := by
  induction n using Nat.twoStepInduction generalizing i with
  | zero | one => rfl
  | more n ih _ =>
      have hor (b : Byte) : 0xff ||| b = 0xff := UInt8.neg_one_or
      rw [List.replicate_succ, List.replicate_succ, written]
      dsimp only
      rw [hor, hor]
      split
      · rw [ih]
      · rw [List.length_replicate]

end Words

section Rounds

variable {g} {family : Family} {attempts : Nat → Nat → Attempt} {sector offset : Nat} {buffer : List Byte} {m : Mem Byte}

def blank (g : Geometry) (sector : Nat) (m : Mem Byte) : Mem Byte := (Op.erase sector).apply g m

theorem blank_inside {i : Int} (hl : sectorBase g sector ≤ i) (hu : i < sectorBase g sector + sectorLength g sector) :
    blank g sector m i = 0xff := fill_inside _ _ _ _ _ hl hu

theorem blank_outside {i : Int} (h : i < sectorBase g sector ∨ sectorBase g sector + sectorLength g sector ≤ i) :
    blank g sector m i = m i := fill_outside _ _ _ _ _ h

theorem Request.blank_patch (h : Request g sector offset buffer m) {bs : List Byte} (hlen : bs.length = buffer.length) :
    blank g sector (patch m (sectorBase g sector + offset) bs) = blank g sector m := by
  have hwithin := h.within
  funext i
  by_cases hi : sectorBase g sector ≤ i ∧ i < sectorBase g sector + sectorLength g sector
  · rw [blank_inside hi.1 hi.2, blank_inside hi.1 hi.2]
  · have hout : i < sectorBase g sector ∨ sectorBase g sector + sectorLength g sector ≤ i := by omega
    rw [blank_outside hout, blank_outside hout, patch_outside _ _ _ _ (by omega)]

theorem Request.erase (h : Request g sector offset buffer m) : Request g sector offset buffer (blank g sector m) := by
  have hwithin := h.within
  exact ⟨h.offset_even, h.length_even, h.within, fun j hj => blank_inside (by omega) (by omega)⟩

theorem blank_blank (m : Mem Byte) : blank g sector (blank g sector m) = blank g sector m := by
  funext i
  by_cases hi : sectorBase g sector ≤ i ∧ i < sectorBase g sector + sectorLength g sector
  · rw [blank_inside hi.1 hi.2, blank_inside hi.1 hi.2]
  · exact blank_outside (by omega)

theorem Request.cfiFlashWrite (h : Request g sector offset buffer m) (t : Nat → Attempt) :
    cfiFlashWrite g family t sector offset buffer m =
      (((written family t 0 buffer).1 : Int), patch m (sectorBase g sector + offset) (written family t 0 buffer).2) := by
  have hodd : ¬ (offset % 2 = 1 ∨ buffer.length % 2 = 1) := by
    have := h.offset_even
    have := h.length_even
    omega
  rw [CfiWrite.cfiFlashWrite, if_neg hodd, writeLoop_erased 0 h.erased]

theorem readBytes_written (m : Mem Byte) (a : Int) {bs buffer : List Byte} (hlen : bs.length = buffer.length) :
    readBytes (patch m a bs) a buffer.length = bs := by
  rw [← hlen]
  exact readBytes_patch m a bs

variable (family attempts) in
theorem Request.round (h : Request g sector offset buffer m) (n r : Nat) :
    (Good family attempts buffer r → writeBufLoop g family attempts sector offset buffer (n + 1) r m =
      (((written family (attempts r) 0 buffer).1 : Int), patch m (sectorBase g sector + offset) buffer)) ∧
    (¬ Good family attempts buffer r → writeBufLoop g family attempts sector offset buffer (n + 1) r m =
      writeBufLoop g family attempts sector offset buffer n (r + 1) (blank g sector m)) := by
  have hlen := length_written family (attempts r) 0 buffer
  rw [writeBufLoop, h.cfiFlashWrite]
  dsimp only
  rw [readBytes_written _ _ hlen]
  constructor
  · intro hgood
    have hbytes : (written family (attempts r) 0 buffer).2 = buffer := hgood
    rw [if_pos hbytes, hbytes]
  · intro hbad
    have hbytes : (written family (attempts r) 0 buffer).2 ≠ buffer := hbad
    rw [if_neg hbytes, ← h.blank_patch hlen]
    rfl

variable (family attempts) in
theorem Request.rounds (h : Request g sector offset buffer m) (n r : Nat) :
    (∃ q, r ≤ q ∧ q < r + n ∧ Good family attempts buffer q ∧ (∀ p, r ≤ p → p < q → ¬ Good family attempts buffer p) ∧
      writeBufLoop g family attempts sector offset buffer n r m =
        (((written family (attempts q) 0 buffer).1 : Int),
          patch (if q = r then m else blank g sector m) (sectorBase g sector + offset) buffer)) ∨
    ((∀ p, r ≤ p → p < r + n → ¬ Good family attempts buffer p) ∧
      writeBufLoop g family attempts sector offset buffer n r m =
        (flashApiError, if n = 0 then m else blank g sector m)) := by
  induction n generalizing r m with
  | zero => exact .inr ⟨fun p hle hlt => absurd hlt (by omega), rfl⟩
  | succ n ih =>
      obtain ⟨hgood, hbad⟩ := h.round family attempts n r
      by_cases hr : Good family attempts buffer r
      · refine .inl ⟨r, le_rfl, by omega, hr, fun p hle hlt => absurd hlt (by omega), ?_⟩
        rw [hgood hr, if_pos rfl]
      · rw [hbad hr]
        have hnot {p : Nat} (hle : r ≤ p) (h1 : r + 1 ≤ p → ¬ Good family attempts buffer p) :
            ¬ Good family attempts buffer p := by
          rcases Nat.eq_or_lt_of_le hle with rfl | hlt
          · exact hr
          · exact h1 hlt
        rcases ih h.erase (r + 1) with ⟨q, hle, hlt, hq, hbefore, hres⟩ | ⟨hnone, hres⟩
        · refine .inl ⟨q, by omega, by omega, hq, fun p hp hpq => hnot hp fun h1 => hbefore p h1 hpq, ?_⟩
          rw [hres, blank_blank, ite_self, if_neg (by omega)]
        · refine .inr ⟨fun p hp hpn => hnot hp fun h1 => hnone p h1 (by omega), ?_⟩
          rw [hres, blank_blank, ite_self, if_neg (by omega)]

theorem rest_iff (g : Geometry) (sector offset : Nat) (buffer : List Byte) (m : Mem Byte) :
    (∀ i, sectorBase g sector ≤ i → i < sectorBase g sector + sectorLength g sector →
      (i < sectorBase g sector + offset ∨ sectorBase g sector + offset + buffer.length ≤ i) → blank g sector m i = m i) ↔
    RestErased g sector offset buffer m := by
  refine forall_congr' fun i => forall₃_congr fun hl hu _ => ?_
  rw [blank_inside hl hu]
  exact eq_comm

theorem contract_patch {m' : Mem Byte} {ret : Nat} :
    Contract g sector offset buffer m ((ret : Int), patch m' (sectorBase g sector + offset) buffer) ↔
      ret = buffer.length ∧ ∀ i, sectorBase g sector ≤ i → i < sectorBase g sector + sectorLength g sector →
        (i < sectorBase g sector + offset ∨ sectorBase g sector + offset + buffer.length ≤ i) → m' i = m i := by
  have hread := readBytes_patch m' (sectorBase g sector + offset) buffer
  constructor
  · intro h
    refine ⟨Int.ofNat.inj (h.returns.mpr hread), fun i hl hu hout => ?_⟩
    rw [← h.outside i hl hu hout]
    exact (patch_outside _ _ _ _ hout).symm
  · rintro ⟨hret, hout⟩
    refine ⟨iff_of_true (congrArg Int.ofNat hret) hread, fun hne => absurd hread hne, fun i hl hu hi => ?_⟩
    rw [← hout i hl hu hi]
    exact patch_outside _ _ _ _ hi

theorem Request.blank_ne (h : Request g sector offset buffer m) (hbad : ¬ Good family attempts buffer 0) :
    readBytes (blank g sector m) (sectorBase g sector + offset) buffer.length ≠ buffer := by
  intro hsame
  rw [readBytes_replicate h.erase.erased] at hsame
  refine hbad ?_
  rw [Good, ← hsame]
  exact written_ff ..

theorem Request.intel_iff (h : Request g sector offset buffer m) :
    (family = .intel → ∀ r < 3, (∀ q < r, ¬ Good family attempts buffer q) → Good family attempts buffer r →
      Complete family attempts buffer r) ↔
    ∀ r < 3, (∀ q < r, ¬ Good family attempts buffer q) → Good family attempts buffer r →
      Complete family attempts buffer r := by
  refine ⟨fun hintel r hr hbad hgood => ?_, fun hall _ => hall⟩
  by_cases hfamily : family = .intel
  · exact hintel hfamily r hr hbad hgood
  · exact written_complete hfamily 0 h.length_even hgood

theorem Request.contract_blank (h : Request g sector offset buffer m) (hbad : ¬ Good family attempts buffer 0) :
    Contract g sector offset buffer m (flashApiError, blank g sector m) ↔ RestErased g sector offset buffer m := by
  rw [← rest_iff]
  refine ⟨fun hc => hc.outside, fun hout => ⟨iff_of_false ?_ (h.blank_ne hbad), fun _ => rfl, hout⟩⟩
  change (-1 : Int) ≠ buffer.length
  omega

variable (family attempts) in
theorem Request.access (h : Request g sector offset buffer m) (hsector : sector < 65536) {data : Mem Byte}
    (hdata : readBytes data 0 buffer.length = buffer)
    (hc : Contract g sector offset buffer m (cfiFlashWriteBuf g family attempts sector offset buffer m)) :
    ∃ fault, ∀ faults trace,
      (flashWriteBuf g ⟨m, fault :: faults, trace⟩ sector offset data buffer.length).1 =
        (cfiFlashWriteBuf g family attempts sector offset buffer m).1 ∧
      (flashWriteBuf g ⟨m, fault :: faults, trace⟩ sector offset data buffer.length).2.mem =
        (cfiFlashWriteBuf g family attempts sector offset buffer m).2 := by
  have hnonneg : ¬ (buffer.length : Int) < 0 := by omega
  have hwithin := h.within
  rw [cfiFlashWriteBuf] at hc ⊢
  simp only [flashWriteBuf, if_neg hnonneg, Flash.perform, uint16_natCast hsector, Int.toNat_natCast, hdata]
  rcases h.rounds family attempts 3 0 with ⟨q, -, -, -, -, hres⟩ | ⟨-, hres⟩
  · rw [hres] at hc ⊢
    obtain ⟨hret, hout⟩ := contract_patch.mp hc
    refine ⟨none, fun faults trace => ⟨congrArg Int.ofNat hret.symm, ?_⟩⟩
    have herased : ∀ i, sectorBase g sector + offset ≤ i → i < sectorBase g sector + offset + buffer.length →
        m i = 0xff := by
      intro i hl hu
      have hbyte := h.erased (i - (sectorBase g sector + offset)).toNat (by omega)
      rwa [Int.toNat_of_nonneg (by omega), add_sub_cancel] at hbyte
    refine (program_erased _ _ _ herased).trans (patch_congr fun i hi => ?_).symm
    by_cases hin : sectorBase g sector ≤ i ∧ i < sectorBase g sector + sectorLength g sector
    · exact hout i hin.1 hin.2 hi
    · split
      · rfl
      · exact blank_outside (by omega)
  · rw [hres, if_neg (by omega)]
    refine ⟨some (view (blank g sector m) (sectorBase g sector)), fun faults trace => ⟨rfl, ?_⟩⟩
    have hview : readBytes (view (blank g sector m) (sectorBase g sector)) 0 (sectorLength g sector) =
        readBytes (blank g sector m) (sectorBase g sector) (sectorLength g sector) := by
      refine readBytes_congr fun i _ => ?_
      rw [view, Int.zero_add]
    refine (congrArg (patch m (sectorBase g sector)) hview).trans ?_
    exact patch_readBytes fun i hi => blank_outside hi

end Rounds

/-- The contract of a buffer write holds exactly if the first round writes the
buffer or the rest of the sector is erased, and, where a status register is asked,
the first good round reports all bytes. -/
theorem write_contract_iff {g : Geometry} (family : Family) (attempts : Nat → Nat → Attempt) {sector offset : Nat}
    {buffer : List Byte} {m : Mem Byte} (h : Request g sector offset buffer m) :
    Contract g sector offset buffer m (cfiFlashWriteBuf g family attempts sector offset buffer m) ↔
      (Good family attempts buffer 0 ∨ RestErased g sector offset buffer m) ∧
        (family = .intel → ∀ r < 3, (∀ q < r, ¬ Good family attempts buffer q) → Good family attempts buffer r →
          Complete family attempts buffer r) := by
  rw [cfiFlashWriteBuf, h.intel_iff]
  rcases h.rounds family attempts 3 0 with ⟨q, -, hlt, hq, hbefore, hres⟩ | ⟨hnone, hres⟩
  · have hfirst : (∀ r < 3, (∀ p < r, ¬ Good family attempts buffer p) → Good family attempts buffer r →
        Complete family attempts buffer r) ↔ Complete family attempts buffer q := by
      refine ⟨fun hall => hall q (by omega) (fun p hp => hbefore p (Nat.zero_le p) hp) hq, fun hc r _ hbad hr => ?_⟩
      rcases Nat.lt_trichotomy r q with hrq | rfl | hqr
      · exact absurd hr (hbefore r (Nat.zero_le r) hrq)
      · exact hc
      · exact absurd hq (hbad q hqr)
    rw [hres, hfirst, contract_patch, and_comm]
    refine and_congr_left fun _ => ?_
    rcases Nat.eq_zero_or_pos q with rfl | hpos
    · rw [if_pos rfl]
      exact iff_of_true (fun _ _ _ _ => rfl) (.inl hq)
    · rw [if_neg (by omega), rest_iff]
      exact (or_iff_right (hbefore 0 le_rfl hpos)).symm
  · have hbad : ¬ Good family attempts buffer 0 := hnone 0 le_rfl (by omega)
    rw [hres, if_neg (by omega), h.contract_blank hbad, or_iff_right hbad]
    refine ⟨fun hrest => ⟨hrest, fun r hr _ hgood => absurd hgood (hnone r (Nat.zero_le r) (by omega))⟩, And.left⟩

def twoSectors : Geometry := Geometry.uniform .cfi 2 8192 (by decide) (by decide) (by decide)

def usedFlash : Mem Byte := fun i => if 8194 ≤ i ∧ i < 8196 then 0xff else 0

theorem usedFlash_request : Request twoSectors 1 2 [0x12, 0x34] usedFlash := by
  refine ⟨rfl, rfl, by decide, fun j hj => ?_⟩
  have hbase : sectorBase twoSectors 1 = 8192 := by decide
  rw [hbase, usedFlash]
  simp only [List.length_cons, List.length_nil] at hj
  exact if_pos (by omega)

theorem first_round_kept :
    Request twoSectors 1 2 [0x12, 0x34] usedFlash ∧
    Contract twoSectors 1 2 [0x12, 0x34] usedFlash
      (cfiFlashWriteBuf twoSectors .amd (fun _ _ => ⟨(0, 0), false⟩) 1 2 [0x12, 0x34] usedFlash) := by
  refine ⟨usedFlash_request, (write_contract_iff .amd _ usedFlash_request).mpr ⟨.inl ?_, fun h => ?_⟩⟩
  · rw [Good]
    decide
  · cases h

def stuckOnce (r _ : Nat) : Attempt := if r = 0 then ⟨(0x01, 0), true⟩ else ⟨(0, 0), false⟩

theorem stuckOnce_retried :
    cfiFlashWriteBuf twoSectors .amd stuckOnce 1 2 [0x12, 0x34] usedFlash =
      (2, patch (blank twoSectors 1 usedFlash) 8194 [0x12, 0x34]) := by
  have hbad : ¬ Good .amd stuckOnce [0x12, 0x34] 0 := by
    rw [Good]
    decide
  have hgood : Good .amd stuckOnce [0x12, 0x34] 1 := by
    rw [Good]
    decide
  rw [cfiFlashWriteBuf, (usedFlash_request.round .amd stuckOnce 2 0).2 hbad,
    (usedFlash_request.erase.round .amd stuckOnce 1 1).1 hgood]
  rfl

theorem reported_short :
    cfiFlashWriteBuf twoSectors .intel (fun _ _ => ⟨(0, 0), true⟩) 1 2 [0x12, 0x34] usedFlash =
      (0, patch usedFlash 8194 [0x12, 0x34]) := by
  have hgood : Good .intel (fun _ _ => ⟨(0, 0), true⟩) [0x12, 0x34] 0 := by
    rw [Good]
    decide
  rw [cfiFlashWriteBuf, (usedFlash_request.round .intel _ 2 0).1 hgood]
  rfl

theorem rest_lost_and_count_short :
    Request twoSectors 1 2 [0x12, 0x34] usedFlash ∧
    (cfiFlashWriteBuf twoSectors .amd stuckOnce 1 2 [0x12, 0x34] usedFlash).1 = 2 ∧
    (cfiFlashWriteBuf twoSectors .amd stuckOnce 1 2 [0x12, 0x34] usedFlash).2 8192 = 0xff ∧
    usedFlash 8192 = 0 ∧
    ¬ Contract twoSectors 1 2 [0x12, 0x34] usedFlash
      (cfiFlashWriteBuf twoSectors .amd stuckOnce 1 2 [0x12, 0x34] usedFlash) ∧
    (cfiFlashWriteBuf twoSectors .intel (fun _ _ => ⟨(0, 0), true⟩) 1 2 [0x12, 0x34] usedFlash).1 = 0 ∧
    readBytes (cfiFlashWriteBuf twoSectors .intel (fun _ _ => ⟨(0, 0), true⟩) 1 2 [0x12, 0x34] usedFlash).2 8194 2 =
      [0x12, 0x34] ∧
    ¬ Contract twoSectors 1 2 [0x12, 0x34] usedFlash
      (cfiFlashWriteBuf twoSectors .intel (fun _ _ => ⟨(0, 0), true⟩) 1 2 [0x12, 0x34] usedFlash) := by
  have hlost : patch (blank twoSectors 1 usedFlash) 8194 [0x12, 0x34] 8192 = 0xff := by
    rw [patch_outside _ _ _ _ (.inl (by omega))]
    exact blank_inside (by decide) (by decide)
  have hread : readBytes (patch usedFlash 8194 [0x12, 0x34]) 8194 2 = [0x12, 0x34] := readBytes_patch ..
  rw [stuckOnce_retried, reported_short]
  dsimp only
  refine ⟨usedFlash_request, rfl, hlost, rfl, fun hc => ?_, rfl, hread, fun hc => ?_⟩
  · have hkept := hc.outside 8192 (by decide) (by decide) (.inl (by decide))
    dsimp only at hkept
    rw [hlost] at hkept
    exact absurd hkept (by decide)
  · have hret := hc.returns.mpr hread
    exact absurd hret (by decide)

end AliceModem.CfiWrite
