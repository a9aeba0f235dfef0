import AliceModem.Netfilter.Esp

namespace AliceModem.EspNat

open Esp

inductive ManipType
  | src
  | dst
  deriving DecidableEq

structure Manip where
  ip : UInt32
  spi : UInt16
  deriving DecidableEq

structure Tuple where
  src : Manip
  dst : Manip
  protonum : UInt16
  deriving DecidableEq

/-- A write through `tspi`. -/
def Tuple.setSpi (tuple : Tuple) (spi : UInt16) : ManipType → Tuple
  | .src => { tuple with src := { tuple.src with spi := spi } }
  | .dst => { tuple with dst := { tuple.dst with spi := spi } }

def invertTuple (orig : Tuple) : Tuple := ⟨orig.dst, orig.src, orig.protonum⟩

/-- `taken` tells which tuples connections other than the ignored one have. -/
def ipNatUsedTuple (taken : Tuple → Bool) (tuple : Tuple) : Bool := taken (invertTuple tuple)

def rangeSize : Nat := 0x40

def spiOf (id : UInt16) : UInt16 := UInt16.ofNat (tempSpiStart + id.toNat % rangeSize)

structure Search where
  ret : Int
  id : UInt16
  tuple : Tuple
  tried : List UInt16

def uniqueLoop (taken : Tuple → Bool) (maniptype : ManipType) : Nat → UInt16 → Tuple → List UInt16 → Search
  | 0, id, tuple, tried => ⟨0, id, tuple, tried⟩
  | n + 1, id, tuple, tried =>
      let tuple := tuple.setSpi (spiOf id) maniptype
      let tried := tried ++ [spiOf id]
      if ipNatUsedTuple taken tuple then uniqueLoop taken maniptype n (id + 1) tuple tried
      else ⟨1, id, tuple, tried⟩

def espUniqueTuple (taken : Tuple → Bool) (maniptype : ManipType) (id : UInt16) (tuple : Tuple) : Search :=
  uniqueLoop taken maniptype rangeSize id tuple []

section

variable {m : ManipType}

@[simp] theorem setSpi_setSpi (tuple : Tuple) (spi spi' : UInt16) :
    (tuple.setSpi spi m).setSpi spi' m = tuple.setSpi spi' m := by
  cases m <;> rfl

def roundSpi (id : UInt16) (k : Nat) : UInt16 := spiOf (id + UInt16.ofNat k)

@[simp] theorem roundSpi_zero (id : UInt16) : roundSpi id 0 = spiOf id := by
  simp [roundSpi]

theorem roundSpi_succ (id : UInt16) (k : Nat) : roundSpi (id + 1) k = roundSpi id (k + 1) := by
  rw [roundSpi, roundSpi, UInt16.add_assoc, UInt16.ofNat_add, UInt16.add_comm 1]
  rfl

theorem uniqueLoop_cases (taken : Tuple → Bool) (n : Nat) (id : UInt16) (tuple : Tuple) (tried : List UInt16) :
    (∃ k < n, ipNatUsedTuple taken (tuple.setSpi (roundSpi id k) m) = false ∧
      (uniqueLoop taken m n id tuple tried).ret = 1 ∧
      (uniqueLoop taken m n id tuple tried).tuple = tuple.setSpi (roundSpi id k) m) ∨
    (∀ k < n, ipNatUsedTuple taken (tuple.setSpi (roundSpi id k) m) = true) ∧
      (uniqueLoop taken m n id tuple tried).ret = 0 ∧
      (uniqueLoop taken m n id tuple tried).tried = tried ++ (List.range n).map (roundSpi id) := by
  induction n generalizing id tuple tried with
  | zero => exact .inr ⟨by simp, rfl, by simp [uniqueLoop]⟩
  | succ n ih =>
      cases hused : ipNatUsedTuple taken (tuple.setSpi (spiOf id) m) with
      | false =>
          refine .inl ⟨0, Nat.succ_pos n, ?_⟩
          simp [uniqueLoop, hused]
      | true =>
          have hround : uniqueLoop taken m (n + 1) id tuple tried =
              uniqueLoop taken m n (id + 1) (tuple.setSpi (spiOf id) m) (tried ++ [spiOf id]) := by
            simp [uniqueLoop, hused]
          rw [hround]
          rcases ih (id + 1) (tuple.setSpi (spiOf id) m) (tried ++ [spiOf id]) with
            ⟨k, hk, hfree, hret, htuple⟩ | ⟨hall, hret, htried⟩
          · simp only [setSpi_setSpi, roundSpi_succ] at hfree htuple
            exact .inl ⟨k + 1, Nat.succ_lt_succ hk, hfree, hret, htuple⟩
          · refine .inr ⟨fun k hk => ?_, hret, ?_⟩
            · cases k with
              | zero => simpa using hused
              | succ k =>
                  have hused' := hall k (Nat.lt_of_succ_lt_succ hk)
                  simpa only [setSpi_setSpi, roundSpi_succ] using hused'
            · simp [htried, List.range_succ_eq_map, Function.comp_def, roundSpi_succ]

theorem toNat_roundSpi (id : UInt16) (k : Nat) : (roundSpi id k).toNat = 1500 + (id.toNat + k) % 64 := by
  have hid : (id + UInt16.ofNat k).toNat = (id.toNat + k) % 65536 := by
    simp [UInt16.toNat_add]
  rw [roundSpi, spiOf, UInt16.toNat_ofNat', hid, tempSpiStart, rangeSize]
  omega

theorem exists_round (id : UInt16) {spi : UInt16} (hl : 1500 ≤ spi.toNat) (hu : spi.toNat ≤ 1563) :
    ∃ k < 64, roundSpi id k = spi := by
  refine ⟨(spi.toNat - 1500 + 64 - id.toNat % 64) % 64, Nat.mod_lt _ (by decide), ?_⟩
  apply UInt16.toNat_inj.mp
  rw [toNat_roundSpi]
  omega

theorem roundSpi_range (id : UInt16) (k : Nat) : 1500 ≤ (roundSpi id k).toNat ∧ (roundSpi id k).toNat ≤ 1563 := by
  rw [toNat_roundSpi]
  omega

end

def Available (taken : Tuple → Bool) (maniptype : ManipType) (tuple : Tuple) (spi : UInt16) : Prop :=
  1500 ≤ spi.toNat ∧ spi.toNat ≤ 1563 ∧ ipNatUsedTuple taken (tuple.setSpi spi maniptype) = false

theorem espUniqueTuple_cases (taken : Tuple → Bool) (maniptype : ManipType) (id : UInt16) (tuple : Tuple) :
    ((espUniqueTuple taken maniptype id tuple).ret = 1 ∧
        ∃ spi, Available taken maniptype tuple spi ∧
          (espUniqueTuple taken maniptype id tuple).tuple = tuple.setSpi spi maniptype) ∨
      ((espUniqueTuple taken maniptype id tuple).ret = 0 ∧ (∀ spi, ¬ Available taken maniptype tuple spi) ∧
        (espUniqueTuple taken maniptype id tuple).tried.length = 64 ∧
        ∀ spi : UInt16, spi ∈ (espUniqueTuple taken maniptype id tuple).tried ↔ 1500 ≤ spi.toNat ∧ spi.toNat ≤ 1563) := by
  rcases uniqueLoop_cases (m := maniptype) taken rangeSize id tuple [] with
    ⟨k, -, hfree, hret, htuple⟩ | ⟨hall, hret, htried⟩
  · have hrange := roundSpi_range id k
    exact .inl ⟨hret, _, ⟨hrange.1, hrange.2, hfree⟩, htuple⟩
  · refine .inr ⟨hret, ?_, ?_, ?_⟩
    · rintro spi ⟨hl, hu, hfree⟩
      obtain ⟨k, hk, rfl⟩ := exists_round id hl hu
      rw [hall k hk] at hfree
      cases hfree
    · rw [espUniqueTuple, htried]
      simp [rangeSize]
    · intro spi
      rw [espUniqueTuple, htried, List.nil_append, List.mem_map]
      constructor
      · rintro ⟨k, -, rfl⟩
        exact roundSpi_range id k
      · rintro ⟨hl, hu⟩
        obtain ⟨k, hk, hspi⟩ := exists_round id hl hu
        exact ⟨k, List.mem_range.mpr hk, hspi⟩

/-- The search finds a free value if there is one, and gives up only after all
of them, whatever the counter is. -/
theorem unique_tuple_complete (taken : Tuple → Bool) (maniptype : ManipType) (id : UInt16) (tuple : Tuple) :
    ((espUniqueTuple taken maniptype id tuple).ret = 1 ↔ ∃ spi, Available taken maniptype tuple spi) ∧
      ((espUniqueTuple taken maniptype id tuple).ret = 1 → ∃ spi, Available taken maniptype tuple spi ∧
        (espUniqueTuple taken maniptype id tuple).tuple = tuple.setSpi spi maniptype) ∧
      ((espUniqueTuple taken maniptype id tuple).ret ≠ 1 → (espUniqueTuple taken maniptype id tuple).ret = 0 ∧
        (espUniqueTuple taken maniptype id tuple).tried.length = 64 ∧
        ∀ spi : UInt16, spi ∈ (espUniqueTuple taken maniptype id tuple).tried ↔ 1500 ≤ spi.toNat ∧ spi.toNat ≤ 1563) := by
  rcases espUniqueTuple_cases taken maniptype id tuple with ⟨hret, spi, hspi, htuple⟩ | ⟨hret, hnone, htried⟩
  · exact ⟨iff_of_true hret ⟨spi, hspi⟩, fun _ => ⟨spi, hspi, htuple⟩, fun h => absurd hret h⟩
  · have hne : (espUniqueTuple taken maniptype id tuple).ret ≠ 1 := by
      rw [hret]
      decide
    exact ⟨iff_of_false hne fun ⟨spi, hspi⟩ => hnone spi hspi, fun h => absurd h hne, fun _ => ⟨hret, htried⟩⟩

end AliceModem.EspNat
