import AliceModem.Xtm.Transmit

namespace AliceModem.QueueCarving

open Transmit

def sizeofDmaDesc : Nat := 8

def sizeofPointer : Nat := 4

def ulNumTxBufs (ids : List TransmitQueueId) : Nat := ids.foldl (fun n id => (n + id.ulQueueSize) % 4294967296) 0

/-- The size that `DoLinkUp` asks for. -/
def ulSize (ids : List TransmitQueueId) : Nat :=
  (ulNumTxBufs ids * (sizeofPointer + sizeofDmaDesc) + ids.length * 0x10) % 4294967296

def alignUp (p : Nat) : Nat := (p + 0x0f) % 4294967296 / 16 * 16

structure Area where
  start : Nat
  size : Nat
  deriving DecidableEq

def Area.stop (a : Area) : Nat := a.start + a.size

structure QueueAreas where
  pBds : Area
  ppSkbs : Area

def carve : List TransmitQueueId → Nat → List QueueAreas
  | [], _ => []
  | id :: ids, p =>
      if id.valid then
        let q := alignUp ((p + sizeofDmaDesc * id.ulQueueSize) % 4294967296)
        ⟨⟨p, sizeofDmaDesc * id.ulQueueSize⟩, ⟨q, sizeofPointer * id.ulQueueSize⟩⟩ ::
          carve ids ((q + sizeofPointer * id.ulQueueSize) % 4294967296)
      else carve ids p

def QueueAreas.areas (q : QueueAreas) : List Area := [q.pBds, q.ppSkbs]

/-- The memory of all queues, in a block at address `p`. -/
def queueAreas (ids : List TransmitQueueId) (p : Nat) : List Area := (carve ids (alignUp p)).flatMap QueueAreas.areas

def Disjoint (a b : Area) : Prop := a.stop ≤ b.start ∨ b.stop ≤ a.start

def Area.In (a : Area) (start size : Nat) : Prop := start ≤ a.start ∧ a.stop ≤ start + size

instance (a : Area) (start size : Nat) : Decidable (a.In start size) := inferInstanceAs (Decidable (_ ∧ _))

def totalBufs (ids : List TransmitQueueId) : Nat := (ids.map TransmitQueueId.ulQueueSize).sum

def neededSize (ids : List TransmitQueueId) : Nat := 12 * totalBufs ids + 16 * ids.length

@[simp] theorem totalBufs_cons (id : TransmitQueueId) (ids : List TransmitQueueId) :
    totalBufs (id :: ids) = id.ulQueueSize + totalBufs ids := rfl

theorem foldl_ulNumTxBufs (ids : List TransmitQueueId) {n : Nat} (h : n + totalBufs ids < 4294967296) :
    ids.foldl (fun n id => (n + id.ulQueueSize) % 4294967296) n = n + totalBufs ids := by
  induction ids generalizing n with
  | nil => rfl
  | cons id ids ih =>
      rw [totalBufs_cons] at h
      rw [List.foldl_cons, Nat.mod_eq_of_lt (by omega), ih (by omega), totalBufs_cons, Nat.add_assoc]

theorem ulSize_eq {ids : List TransmitQueueId} (h : neededSize ids < 4294967296) : ulSize ids = neededSize ids := by
  rw [neededSize] at h
  have hnum : ulNumTxBufs ids = totalBufs ids := by
    rw [ulNumTxBufs, foldl_ulNumTxBufs ids (by omega), Nat.zero_add]
  rw [ulSize, hnum, neededSize, sizeofPointer, sizeofDmaDesc]
  omega

theorem alignUp_bounds {p : Nat} (h : p + 15 < 4294967296) : p ≤ alignUp p ∧ alignUp p ≤ p + 15 ∧ alignUp p % 16 = 0 := by
  rw [alignUp]
  omega

def Room (ids : List TransmitQueueId) (p stop : Nat) : Prop :=
  p % 4 = 0 ∧ p + 12 * totalBufs ids + 12 * ids.length ≤ stop + if p % 8 = 0 then 4 else 0

theorem Room.cons {id : TransmitQueueId} {ids : List TransmitQueueId} {p stop : Nat} (h : Room (id :: ids) p stop)
    (hpos : 1 ≤ id.ulQueueSize) (hstop : stop ≤ 4294967296) :
    (p + 8 * id.ulQueueSize) % 4294967296 = p + 8 * id.ulQueueSize ∧
      p + 8 * id.ulQueueSize ≤ alignUp (p + 8 * id.ulQueueSize) ∧
      alignUp (p + 8 * id.ulQueueSize) + 4 * id.ulQueueSize ≤ stop ∧
      Room ids (alignUp (p + 8 * id.ulQueueSize) + 4 * id.ulQueueSize) stop := by
  obtain ⟨h4, hle⟩ := h
  rw [totalBufs_cons, List.length_cons] at hle
  have hbds : p + 8 * id.ulQueueSize + 15 < 4294967296 := by split_ifs at hle <;> omega
  obtain ⟨hq, hq', hq16⟩ := alignUp_bounds hbds
  refine ⟨Nat.mod_eq_of_lt (by omega), hq, ?_, by omega, ?_⟩
  · split_ifs at hle <;> omega
  · split_ifs at hle ⊢ <;> omega

theorem carve_areas {ids : List TransmitQueueId} (hpos : ∀ id ∈ ids, 1 ≤ id.ulQueueSize) {p stop : Nat}
    (hstop : stop ≤ 4294967296) (hroom : Room ids p stop) :
    ((carve ids p).flatMap QueueAreas.areas).Pairwise (fun a b => a.stop ≤ b.start) ∧
      ∀ a ∈ (carve ids p).flatMap QueueAreas.areas, p ≤ a.start ∧ a.stop ≤ stop := by
  induction ids generalizing p with
  | nil => exact ⟨List.Pairwise.nil, by simp [carve]⟩
  | cons id ids ih =>
      rw [List.forall_mem_cons] at hpos
      rw [carve]
      split_ifs with hvalid
      · obtain ⟨hbds, hq, hend, hnext⟩ := hroom.cons hpos.1 hstop
        rw [sizeofDmaDesc, sizeofPointer, hbds]
        generalize alignUp (p + 8 * id.ulQueueSize) = q at hq hend hnext
        -- the pointer may wrap around behind the last queue, where it is not used
        have hwrap : carve ids ((q + 4 * id.ulQueueSize) % 4294967296) = carve ids (q + 4 * id.ulQueueSize) := by
          cases ids with
          | nil => rfl
          | cons id' ids =>
              obtain ⟨-, hle⟩ := hnext
              rw [List.length_cons] at hle
              rw [Nat.mod_eq_of_lt (by split_ifs at hle <;> omega)]
        obtain ⟨hpair, hin⟩ := ih hpos.2 hnext
        simp only [hwrap, List.flatMap_cons, QueueAreas.areas, List.cons_append, List.nil_append, List.pairwise_cons,
          List.forall_mem_cons, Area.stop] at hpair hin ⊢
        refine ⟨⟨⟨hq, fun a ha => ?_⟩, fun a ha => (hin a ha).1, hpair⟩, ⟨le_rfl, by omega⟩, ⟨by omega, hend⟩, fun a ha => ?_⟩
        · have := (hin a ha).1
          omega
        · have := hin a ha
          omega
      · refine ih hpos.2 ⟨hroom.1, ?_⟩
        have hle := hroom.2
        rw [totalBufs_cons, List.length_cons] at hle
        split_ifs at hle ⊢ <;> omega

/-- The queues of a link share the block without overlap, as long as the size asked for is not reduced. -/
theorem queue_memory_in_bounds (lsc : LinkStatusChange) (hpos : ∀ id ∈ lsc.transmitQueueIds, 1 ≤ id.ulQueueSize)
    (hsize : 12 * totalBufs lsc.transmitQueueIds + 16 * lsc.transmitQueueIds.length < 4294967296) {p : Nat}
    (halign : p % 8 = 0) (hblock : p + ulSize lsc.transmitQueueIds ≤ 4294967296) :
    (queueAreas lsc.transmitQueueIds p).Pairwise Disjoint ∧
      ∀ a ∈ queueAreas lsc.transmitQueueIds p, a.In p (ulSize lsc.transmitQueueIds) := by
  generalize lsc.transmitQueueIds = ids at *
  cases ids with
  | nil => exact ⟨List.Pairwise.nil, by simp [queueAreas, carve]⟩
  | cons id ids =>
      rw [ulSize_eq hsize] at hblock ⊢
      rw [neededSize, List.length_cons] at hblock
      obtain ⟨hl, hu, h16⟩ := alignUp_bounds (p := p) (by omega)
      have hroom : Room (id :: ids) (alignUp p) (p + neededSize (id :: ids)) := by
        refine ⟨by omega, ?_⟩
        rw [if_pos (by omega), neededSize, List.length_cons]
        omega
      obtain ⟨hpair, hin⟩ := carve_areas hpos hblock hroom
      refine ⟨hpair.imp fun h => .inl h, fun a ha => ?_⟩
      have := hin a ha
      exact ⟨by omega, this.2⟩

theorem two_queues_in_bounds :
    ulSize [⟨1, 0, 5, 0⟩, ⟨1, 1, 8, 1⟩] = 188 ∧
      (queueAreas [⟨1, 0, 5, 0⟩, ⟨1, 1, 8, 1⟩] 0x80000008).Pairwise Disjoint ∧
      ∀ a ∈ queueAreas [⟨1, 0, 5, 0⟩, ⟨1, 1, 8, 1⟩] 0x80000008, a.In 0x80000008 188 :=
  ⟨by decide, queue_memory_in_bounds ⟨0, [⟨1, 0, 5, 0⟩, ⟨1, 1, 8, 1⟩], by decide⟩ (by decide) (by decide) (by decide)
    (by decide)⟩

theorem size_wraps :
    totalBufs [⟨1, 0, 0x15555556, 0⟩] < 4294967296 ∧ (⟨1, 0, 0x15555556, 0⟩ : TransmitQueueId).valid = true ∧
      ulSize [⟨1, 0, 0x15555556, 0⟩] = 24 ∧
      ¬ ∀ a ∈ queueAreas [⟨1, 0, 0x15555556, 0⟩] 0x80000000, a.In 0x80000000 (ulSize [⟨1, 0, 0x15555556, 0⟩]) := by
  decide

end AliceModem.QueueCarving
