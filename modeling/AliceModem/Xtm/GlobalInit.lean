import AliceModem.Xtm.Devices
import AliceModem.Xtm.Receive

namespace AliceModem.GlobalInit

open Devices (DrvState)
open Receive (maxReceiveQueues maxBufmemBlocks bufsPerBlock)

/-- The memory of the kernel. A block is named by its request; `results` tells
which requests are granted. -/
structure Heap where
  results : Nat → Bool
  asked : Nat
  freed : List Nat

namespace Heap

def kmalloc (h : Heap) : Option Nat × Heap :=
  (if h.results h.asked then some h.asked else none, { h with asked := h.asked + 1 })

def kfree (h : Heap) (p : Option Nat) : Heap := { h with freed := h.freed ++ p.toList }

end Heap

structure MibRegs where
  pulMibTxOctetCountBase : Nat
  pulMibRxMatch : Nat
  pulMibRxOctetCount : Nat
  pulMibRxPacketCount : Nat

structure GlobalInitParms where
  mib : MibRegs
  ulReceiveQueueSizes : Fin maxReceiveQueues → UInt32

structure GlobalInfo where
  ulDrvState : DrvState
  mib : MibRegs
  pRxSkbMem : Option Nat
  pFreeRxSkbList : List (Nat × Nat)
  pRxBdMem : Option Nat
  pBufMem : Fin maxBufmemBlocks → Option Nat

/-- The driver and the kernel during the request, with its variables `nRet` and
`j`. `overrun` tells whether an index past the end of `pBufMem` was used. -/
structure State where
  gi : GlobalInfo
  heap : Heap
  nRet : Int
  j : Nat
  overrun : Bool

def bufsToAlloc (parms : GlobalInitParms) : Nat := (∑ i, (parms.ulReceiveQueueSizes i).toNat) % 2 ^ 32

namespace State

def allocSkbs (s : State) (n : Nat) : State :=
  if s.nRet = 0 then
    match s.heap.kmalloc with
    | (some p, heap) =>
        { s with
          heap := heap
          gi := { s.gi with
            pRxSkbMem := some p
            pFreeRxSkbList := ((List.range n).reverse.map fun i => (p, i)) ++ s.gi.pFreeRxSkbList } }
    | (none, heap) => { s with heap := heap, gi := { s.gi with pRxSkbMem := none }, nRet := Devices.enomem }
  else { s with nRet := Devices.enomem }

def freeSkbs (s : State) : State :=
  { s with heap := s.heap.kfree s.gi.pRxSkbMem, gi := { s.gi with pRxSkbMem := none }, nRet := Devices.enomem }

def allocBds (s : State) : State :=
  if s.nRet = 0 then
    match s.heap.kmalloc with
    | (some p, heap) => { s with heap := heap, gi := { s.gi with pRxBdMem := some p } }
    | (none, heap) => freeSkbs { s with heap := heap, gi := { s.gi with pRxBdMem := none } }
  else s.freeSkbs

def putBuf (s : State) (p : Nat) : State :=
  if h : s.j < maxBufmemBlocks then
    { s with j := s.j + 1, gi := { s.gi with pBufMem := Function.update s.gi.pBufMem ⟨s.j, h⟩ (some p) } }
  else { s with j := s.j + 1, overrun := true }

def giveUp (s : State) : State :=
  { s with
    heap := { s.heap with
      freed := s.heap.freed ++ (List.finRange maxBufmemBlocks).filterMap s.gi.pBufMem ++ s.gi.pRxBdMem.toList }
    gi := { s.gi with pBufMem := fun _ => none, pRxBdMem := none }
    nRet := Devices.enomem }

/-- The loop over the `n` buffers that are still to be allocated. It has not
ended when the fuel is used up. -/
def bufLoop : Nat → Nat → State → Option State
  | _, 0, s => some s
  | 0, _ + 1, _ => none
  | fuel + 1, n + 1, s =>
      match s.heap.kmalloc with
      | (some p, heap) => bufLoop fuel (n + 1 - min bufsPerBlock (n + 1)) (putBuf { s with heap := heap } p)
      | (none, heap) => bufLoop fuel (n + 1) (giveUp { s with heap := heap })

def finish (s : State) : State :=
  if s.nRet = 0 then { s with gi := { s.gi with ulDrvState := .initialized } } else s

end State

def doGlobInitReq (fuel : Nat) (gi : GlobalInfo) (heap : Heap) (parms : GlobalInitParms) : Option State :=
  let n := bufsToAlloc parms
  let nRet := if gi.ulDrvState ≠ .uninitialized then Devices.eperm else 0
  let s := ((State.mk { gi with mib := parms.mib } heap nRet 0 false).allocSkbs n).allocBds
  (if s.nRet = 0 then s.bufLoop fuel n else some s).map State.finish

/-- The request ends: without effect if the driver is initialised, and with its
memory freed if an allocation fails, so that another one can succeed. -/
def AllOrNothing (gi : GlobalInfo) (heap : Heap) (parms : GlobalInitParms) : Prop :=
  ∃ fuel r, doGlobInitReq fuel gi heap parms = some r ∧
    (gi.ulDrvState ≠ .uninitialized → r.nRet = Devices.eperm ∧ r.gi = gi) ∧
    ((∃ k, heap.asked ≤ k ∧ k < r.heap.asked ∧ heap.results k = false) →
      r.nRet = Devices.enomem ∧
      (∀ k, heap.asked ≤ k → k < r.heap.asked → heap.results k = true → k ∈ r.heap.freed) ∧
      r.overrun = false ∧ r.gi.ulDrvState = .uninitialized ∧
      ∃ results fuel' r', doGlobInitReq fuel' r.gi { r.heap with results := results } parms = some r' ∧ r'.nRet = 0)

/-- The number of blocks for `n` buffers. -/
def blocksFor (n : Nat) : Nat := (n + bufsPerBlock - 1) / bufsPerBlock

structure Past (gi : GlobalInfo) (heap : Heap) : Prop where
  freed : ∀ p ∈ heap.freed, p < heap.asked
  pBufMem : ∀ i, ∀ p ∈ gi.pBufMem i, p < heap.asked

section Loop

variable {fuel n : Nat} {s s' : State}

theorem bufsPerBlock_eq : bufsPerBlock = 37 := rfl

def State.ask (s : State) : State := { s with heap := { s.heap with asked := s.heap.asked + 1 } }

theorem bufLoop_put (hres : s.heap.results s.heap.asked = true) : s.bufLoop (fuel + 1) (n + 1) =
    (s.ask.putBuf s.heap.asked).bufLoop fuel (n + 1 - min bufsPerBlock (n + 1)) := by
  rw [State.bufLoop, Heap.kmalloc, hres]
  rfl

theorem bufLoop_refused (hres : s.heap.results s.heap.asked = false) : s.bufLoop (fuel + 1) (n + 1) =
    s.ask.giveUp.bufLoop fuel (n + 1) := by
  rw [State.bufLoop, Heap.kmalloc, hres]
  rfl

theorem blocksFor_succ (n : Nat) : blocksFor (n + 1) = blocksFor (n + 1 - min bufsPerBlock (n + 1)) + 1 := by
  simp only [blocksFor, bufsPerBlock_eq]
  omega

theorem putBuf_same (s : State) (p : Nat) : (s.putBuf p).heap = s.heap ∧ (s.putBuf p).nRet = s.nRet ∧
    (s.putBuf p).gi.ulDrvState = s.gi.ulDrvState ∧ (s.putBuf p).gi.pRxBdMem = s.gi.pRxBdMem := by
  rw [State.putBuf]
  split <;> exact ⟨rfl, rfl, rfl, rfl⟩

theorem putBuf_pBufMem {p q : Nat} {i : Fin maxBufmemBlocks} (h : (s.putBuf p).gi.pBufMem i = some q) :
    q = p ∨ s.gi.pBufMem i = some q := by
  rw [State.putBuf] at h
  split at h
  case isTrue hj =>
    by_cases hi : i = ⟨s.j, hj⟩
    · dsimp only at h
      rw [hi, Function.update_self] at h
      exact .inl (Option.some.inj h).symm
    · dsimp only at h
      rw [Function.update_of_ne hi] at h
      exact .inr h
  case isFalse => exact .inr h

theorem bufLoop_granted (hfuel : blocksFor n ≤ fuel)
    (hres : ∀ i < blocksFor n, s.heap.results (s.heap.asked + i) = true) :
    ∃ s', s.bufLoop fuel n = some s' ∧ s'.nRet = s.nRet ∧
      s'.heap = { s.heap with asked := s.heap.asked + blocksFor n } := by
  induction fuel generalizing n s with
  | zero =>
      cases n with
      | zero => exact ⟨s, rfl, rfl, rfl⟩
      | succ n =>
          rw [blocksFor_succ] at hfuel
          omega
  | succ fuel ih =>
      cases n with
      | zero => exact ⟨s, rfl, rfl, rfl⟩
      | succ n =>
          rw [blocksFor_succ] at hfuel hres ⊢
          have h0 : s.heap.results s.heap.asked = true := hres 0 (Nat.succ_pos _)
          obtain ⟨hheap, hret, -, -⟩ := putBuf_same s.ask s.heap.asked
          have hrest (i : Nat) (hi : i < blocksFor (n + 1 - min bufsPerBlock (n + 1))) :
              s.heap.results (s.heap.asked + 1 + i) = true := by
            have hi' := hres (i + 1) (by omega)
            rwa [Nat.add_comm i 1, ← Nat.add_assoc] at hi'
          obtain ⟨s', hs', hret', hheap'⟩ := ih (n := n + 1 - min bufsPerBlock (n + 1))
            (s := s.ask.putBuf s.heap.asked) (by omega) (by rw [hheap]; exact hrest)
          refine ⟨s', (bufLoop_put h0).trans hs', hret'.trans hret, ?_⟩
          rw [hheap', hheap, State.ask]
          dsimp only
          rw [Nat.add_assoc, Nat.add_comm 1]

theorem bufLoop_induction {P : Nat → State → Prop} (hdone : P 0 s')
    (hput : ∀ n s, s.heap.results s.heap.asked = true →
      P (n + 1 - min bufsPerBlock (n + 1)) (s.ask.putBuf s.heap.asked) → P (n + 1) s)
    (hrefused : ∀ n s, s.heap.results s.heap.asked = false → P (n + 1) s.ask.giveUp → P (n + 1) s)
    (h : s.bufLoop fuel n = some s') : P n s := by
  induction fuel generalizing n s with
  | zero =>
      cases n with
      | zero => exact Option.some.inj h ▸ hdone
      | succ n => cases h
  | succ fuel ih =>
      cases n with
      | zero => exact Option.some.inj h ▸ hdone
      | succ n =>
          cases hres : s.heap.results s.heap.asked with
          | true => exact hput n s hres (ih ((bufLoop_put hres).symm.trans h))
          | false => exact hrefused n s hres (ih ((bufLoop_refused hres).symm.trans h))

theorem bufLoop_asked (h : s.bufLoop fuel n = some s') : s.heap.asked + blocksFor n ≤ s'.heap.asked := by
  refine bufLoop_induction (P := fun n s => s.heap.asked + blocksFor n ≤ s'.heap.asked) le_rfl
    (fun n s _ hrest => ?_) (fun n s _ hrest => ?_) h
  · rw [(putBuf_same s.ask s.heap.asked).1, State.ask] at hrest
    rw [blocksFor_succ]
    dsimp only at hrest
    omega
  · dsimp only [State.giveUp, State.ask] at hrest
    omega

theorem bufLoop_freed {p : Nat} (h : s.bufLoop fuel n = some s') (hp : p ∈ s'.heap.freed) :
    p ∈ s.heap.freed ∨ (∃ i, s.gi.pBufMem i = some p) ∨ s.gi.pRxBdMem = some p ∨ s.heap.asked ≤ p := by
  refine bufLoop_induction (P := fun _ s => p ∈ s.heap.freed ∨ (∃ i, s.gi.pBufMem i = some p) ∨
    s.gi.pRxBdMem = some p ∨ s.heap.asked ≤ p) (.inl hp) (fun n s _ hrest => ?_) (fun n s _ hrest => ?_) h
  · obtain ⟨hheap, -, -, hbd⟩ := putBuf_same s.ask s.heap.asked
    rw [hheap, hbd] at hrest
    rcases hrest with hold | ⟨i, hi⟩ | hold | hlater
    · exact .inl hold
    · rcases putBuf_pBufMem hi with rfl | hi
      · exact .inr (.inr (.inr le_rfl))
      · exact .inr (.inl ⟨i, hi⟩)
    · exact .inr (.inr (.inl hold))
    · exact .inr (.inr (.inr (Nat.le_of_succ_le hlater)))
  · rcases hrest with hold | ⟨i, hi⟩ | hold | hlater
    · rcases List.mem_append.mp hold with hold | hbd
      · rcases List.mem_append.mp hold with hold | hbuf
        · exact .inl hold
        · obtain ⟨i, -, hi⟩ := List.mem_filterMap.mp hbuf
          exact .inr (.inl ⟨i, hi⟩)
      · exact .inr (.inr (.inl (Option.mem_toList.mp hbd)))
    · cases hi
    · cases hold
    · exact .inr (.inr (.inr (Nat.le_of_succ_le hlater)))

end Loop

section Request

theorem finish_same (s : State) : s.finish.heap = s.heap ∧ s.finish.nRet = s.nRet := by
  rw [State.finish]
  split <;> exact ⟨rfl, rfl⟩

variable {gi : GlobalInfo} {heap : Heap} (parms : GlobalInitParms) (fuel : Nat)

theorem init_busy (hstate : gi.ulDrvState ≠ .uninitialized) : doGlobInitReq fuel gi heap parms =
    some ⟨{ gi with mib := parms.mib, pRxSkbMem := none }, heap.kfree gi.pRxSkbMem, Devices.enomem, 0, false⟩ := by
  have heperm : Devices.eperm ≠ 0 := by decide
  have henomem : Devices.enomem ≠ 0 := by decide
  simp [doGlobInitReq, State.allocSkbs, State.allocBds, State.freeSkbs, State.finish, hstate, heperm, henomem]

variable (hstate : gi.ulDrvState = .uninitialized)

include hstate

theorem init_no_skbs (h0 : heap.results heap.asked = false) : doGlobInitReq fuel gi heap parms =
    some ⟨{ gi with mib := parms.mib, pRxSkbMem := none }, { heap with asked := heap.asked + 1 }, Devices.enomem, 0,
      false⟩ := by
  have henomem : Devices.enomem ≠ 0 := by decide
  simp [doGlobInitReq, State.allocSkbs, State.allocBds, State.freeSkbs, State.finish, Heap.kmalloc, Heap.kfree, hstate, h0,
    henomem]

def chained (gi : GlobalInfo) (parms : GlobalInitParms) (p : Nat) : GlobalInfo :=
  { gi with
    mib := parms.mib
    pRxSkbMem := some p
    pFreeRxSkbList := ((List.range (bufsToAlloc parms)).reverse.map fun i => (p, i)) ++ gi.pFreeRxSkbList }

theorem init_no_bds (h0 : heap.results heap.asked = true) (h1 : heap.results (heap.asked + 1) = false) :
    doGlobInitReq fuel gi heap parms =
      some ⟨{ chained gi parms heap.asked with pRxSkbMem := none, pRxBdMem := none },
        { heap with asked := heap.asked + 2, freed := heap.freed ++ [heap.asked] }, Devices.enomem, 0, false⟩ := by
  have henomem : Devices.enomem ≠ 0 := by decide
  simp [doGlobInitReq, State.allocSkbs, State.allocBds, State.freeSkbs, State.finish, Heap.kmalloc, Heap.kfree, chained,
    hstate, h0, h1, henomem]

theorem init_no_bds_dangles (h0 : heap.results heap.asked = true) (h1 : heap.results (heap.asked + 1) = false)
    {r : State} (hr : doGlobInitReq fuel gi heap parms = some r) :
    heap.asked ∈ r.heap.freed ∧ ∀ i < bufsToAlloc parms, (heap.asked, i) ∈ r.gi.pFreeRxSkbList := by
  rw [init_no_bds parms fuel hstate h0 h1] at hr
  obtain rfl := Option.some.inj hr
  refine ⟨List.mem_append_right _ List.mem_cons_self, fun i hi => List.mem_append_left _ ?_⟩
  exact List.mem_map.mpr ⟨i, List.mem_reverse.mpr (List.mem_range.mpr hi), rfl⟩

theorem init_blocks (h0 : heap.results heap.asked = true) (h1 : heap.results (heap.asked + 1) = true) :
    doGlobInitReq fuel gi heap parms =
      (State.bufLoop fuel (bufsToAlloc parms)
        ⟨{ chained gi parms heap.asked with pRxBdMem := some (heap.asked + 1) },
          { heap with asked := heap.asked + 2 }, 0, 0, false⟩).map State.finish := by
  simp [doGlobInitReq, State.allocSkbs, State.allocBds, Heap.kmalloc, chained, hstate, h0, h1]

variable (heap) in
theorem init_granted (hfuel : blocksFor (bufsToAlloc parms) ≤ fuel)
    (hres : ∀ i < blocksFor (bufsToAlloc parms) + 2, heap.results (heap.asked + i) = true) :
    ∃ r, doGlobInitReq fuel gi heap parms = some r ∧ r.nRet = 0 ∧
      r.heap.asked = heap.asked + (blocksFor (bufsToAlloc parms) + 2) := by
  rw [init_blocks parms fuel hstate (hres 0 (by omega)) (hres 1 (by omega))]
  obtain ⟨s', hs', hret, hheap⟩ := bufLoop_granted (s := ⟨{ chained gi parms heap.asked with
    pRxBdMem := some (heap.asked + 1) }, { heap with asked := heap.asked + 2 }, 0, 0, false⟩) hfuel fun i hi => by
      have hi' := hres (i + 2) (by omega)
      rwa [Nat.add_comm i 2, ← Nat.add_assoc] at hi'
  obtain ⟨hheap', hret'⟩ := finish_same s'
  refine ⟨s'.finish, by rw [hs', Option.map_some], hret'.trans hret, ?_⟩
  rw [hheap', hheap]
  dsimp only
  omega

theorem init_possible : ∃ results fuel' r', doGlobInitReq fuel' gi { heap with results := results } parms = some r' ∧
    r'.nRet = 0 := by
  obtain ⟨r', hr', hret, -⟩ := init_granted { heap with results := fun _ => true } parms _ hstate le_rfl
    fun _ _ => rfl
  exact ⟨_, _, r', hr', hret⟩

theorem init_leaks (hpast : Past gi heap) (h0 : heap.results heap.asked = true)
    (h1 : heap.results (heap.asked + 1) = true) {r : State} (hr : doGlobInitReq fuel gi heap parms = some r) :
    heap.asked ∉ r.heap.freed ∧ heap.asked + 2 + blocksFor (bufsToAlloc parms) ≤ r.heap.asked := by
  rw [init_blocks parms fuel hstate h0 h1] at hr
  obtain ⟨s', hs', heq⟩ := Option.map_eq_some_iff.mp hr
  rw [← heq, (finish_same s').1]
  refine ⟨fun hmem => ?_, bufLoop_asked hs'⟩
  rcases bufLoop_freed hs' hmem with hold | ⟨i, hi⟩ | hbd | hlater
  · exact Nat.lt_irrefl _ (hpast.freed _ hold)
  · exact Nat.lt_irrefl _ (hpast.pBufMem i _ hi)
  · exact absurd (Option.some.inj hbd) (by omega)
  · dsimp only at hlater
    omega

end Request

section Receive

variable {fuel n : Nat} {s : State} {blocks : List (Option Nat)}

theorem bufLoop_code (hres : ∀ i < fuel, (blocks.getD i none).isSome = s.heap.results (s.heap.asked + i))
    (hlen : blocks.length = fuel) (hret : s.nRet = 0 ∨ s.nRet = Devices.enomem) :
    (s.bufLoop fuel n).map State.nRet =
      (Receive.allocBufs blocks n).map fun r => if s.nRet = 0 ∧ r.1 then 0 else Devices.enomem := by
  induction fuel generalizing n s blocks with
  | zero =>
      obtain rfl := List.length_eq_zero_iff.mp hlen
      cases n with
      | zero => rcases hret with hret | hret <;> simp [State.bufLoop, Receive.allocBufs, hret, Devices.enomem]
      | succ n => rfl
  | succ fuel ih =>
      obtain ⟨b, blocks, rfl⟩ := List.exists_cons_of_length_eq_add_one hlen
      have hlen' : blocks.length = fuel := Nat.succ.inj hlen
      have h0 := hres 0 (Nat.succ_pos _)
      have hrest (i : Nat) (hi : i < fuel) :
          (blocks.getD i none).isSome = s.heap.results (s.heap.asked + 1 + i) := by
        have hi' := hres (i + 1) (by omega)
        rwa [List.getD_cons_succ, Nat.add_comm i 1, ← Nat.add_assoc] at hi'
      cases n with
      | zero => rcases hret with hret | hret <;> simp [State.bufLoop, Receive.allocBufs, hret, Devices.enomem]
      | succ n =>
          cases b with
          | none =>
              have h0' : s.heap.results s.heap.asked = false := h0.symm
              have henomem : Devices.enomem ≠ 0 := by decide
              rw [bufLoop_refused h0', Receive.allocBufs, ih (s := s.ask.giveUp) hrest hlen' (.inr rfl), Option.map_map]
              refine Option.map_congr fun r _ => ?_
              rw [if_neg fun h => henomem h.1, Function.comp_apply, if_neg fun h => Bool.false_ne_true h.2]
          | some p =>
              have h0' : s.heap.results s.heap.asked = true := h0.symm
              obtain ⟨hheap, hret', -, -⟩ := putBuf_same s.ask s.heap.asked
              rw [bufLoop_put h0', Receive.allocBufs, ih (s := s.ask.putBuf s.heap.asked) (by rw [hheap]; exact hrest)
                hlen' (by rw [hret']; exact hret), Option.map_map, hret']
              rfl

theorem init_code {gi : GlobalInfo} {heap : Heap} {parms : GlobalInitParms} {rx : Receive.GlobalInitParms}
    (hsizes : ∀ i, (parms.ulReceiveQueueSizes i).toNat = rx.sizes i) (sys : Receive.Sys) (blocks : List (Option Nat))
    (hres : ∀ i < blocks.length, (blocks.getD i none).isSome = heap.results (heap.asked + 2 + i)) :
    (doGlobInitReq blocks.length gi heap parms).map State.nRet =
      (Receive.doGlobInitReq (decide (gi.ulDrvState = .uninitialized)) (heap.results heap.asked)
        (heap.results (heap.asked + 1)) blocks sys rx).map Prod.fst := by
  have hsum : bufsToAlloc parms = ∑ i, rx.sizes i := by
    have hfits := rx.fits
    rw [Receive.maxBufmemBlocks, bufsPerBlock_eq] at hfits
    have hsame : ∑ i, (parms.ulReceiveQueueSizes i).toNat = ∑ i, rx.sizes i := Finset.sum_congr rfl fun i _ => hsizes i
    rw [bufsToAlloc, hsame]
    exact Nat.mod_eq_of_lt (by omega)
  have henomem : Receive.enomem = Devices.enomem := rfl
  rw [Receive.doGlobInitReq]
  by_cases hstate : gi.ulDrvState = .uninitialized
  · cases h0 : heap.results heap.asked with
    | false =>
        rw [init_no_skbs parms _ hstate h0]
        simp [henomem]
    | true =>
        cases h1 : heap.results (heap.asked + 1) with
        | false =>
            rw [init_no_bds parms _ hstate h0 h1]
            simp [hstate, henomem]
        | true =>
            have hfinish : State.nRet ∘ State.finish = State.nRet := funext fun s => (finish_same s).2
            rw [init_blocks parms _ hstate h0 h1, Option.map_map, hfinish, bufLoop_code hres rfl (.inl rfl), hsum]
            simp only [hstate, decide_true, not_true_eq_false, or_self, if_false, Option.map_map]
            refine Option.map_congr fun r _ => ?_
            cases hr : r.1 <;> simp [hr, henomem]
  · rw [init_busy parms _ hstate]
    simp [hstate, henomem]

end Receive

theorem AllOrNothing.needs {gi : GlobalInfo} {heap : Heap} (hpast : Past gi heap) {parms : GlobalInitParms}
    (h : AllOrNothing gi heap parms) : gi.ulDrvState = .uninitialized ∧
      (heap.results heap.asked = false ∨ heap.results (heap.asked + 1) = false ∨
        ∀ i < blocksFor (bufsToAlloc parms), heap.results (heap.asked + 2 + i) = true) := by
  obtain ⟨fuel, r, hr, hbusy, hfail⟩ := h
  have hstate : gi.ulDrvState = .uninitialized := by
    by_contra hstate
    rw [init_busy parms fuel hstate] at hr
    cases hr
    have hcode : Devices.enomem = Devices.eperm := (hbusy hstate).1
    exact absurd hcode (by decide)
  refine ⟨hstate, ?_⟩
  by_contra hno
  simp only [not_or, Bool.not_eq_false, not_forall, Bool.not_eq_true] at hno
  obtain ⟨h0, h1, i, hi, hres⟩ := hno
  obtain ⟨hleak, hasked⟩ := init_leaks parms fuel hstate hpast h0 h1 hr
  have hfreed := (hfail ⟨heap.asked + 2 + i, by omega, by omega, hres⟩).2.1
  exact hleak (hfreed heap.asked le_rfl (by omega) h0)

/-- A request is all or nothing exactly if the driver is not initialised and the
memory of the headers or of the descriptors is refused, or no memory at all. -/
theorem init_all_or_nothing_iff {gi : GlobalInfo} {heap : Heap} (hpast : Past gi heap) (parms : GlobalInitParms) :
    AllOrNothing gi heap parms ↔ gi.ulDrvState = .uninitialized ∧
      (heap.results heap.asked = false ∨ heap.results (heap.asked + 1) = false ∨
        ∀ i < blocksFor (bufsToAlloc parms), heap.results (heap.asked + 2 + i) = true) := by
  refine ⟨fun h => h.needs hpast, ?_⟩
  rintro ⟨hstate, hmemory⟩
  have hnotbusy {p : Prop} (hbusy : gi.ulDrvState ≠ .uninitialized) : p := absurd hstate hbusy
  cases h0 : heap.results heap.asked with
  | false =>
      refine ⟨0, _, init_no_skbs parms 0 hstate h0, hnotbusy, fun _ => ⟨rfl, fun k hk hlt hres => ?_, rfl, hstate, ?_⟩⟩
      · obtain rfl : k = heap.asked := by
          dsimp only at hlt
          omega
        exact absurd (h0.symm.trans hres) Bool.false_ne_true
      · exact init_possible parms hstate
  | true =>
      cases h1 : heap.results (heap.asked + 1) with
      | false =>
          refine ⟨0, _, init_no_bds parms 0 hstate h0 h1, hnotbusy,
            fun _ => ⟨rfl, fun k hk hlt hres => ?_, rfl, hstate, ?_⟩⟩
          · rcases Nat.lt_or_ge heap.asked k with hgt | hle
            · obtain rfl : k = heap.asked + 1 := by
                dsimp only at hlt
                omega
              exact absurd (h1.symm.trans hres) Bool.false_ne_true
            · obtain rfl : k = heap.asked := by omega
              exact List.mem_append_right _ List.mem_cons_self
          · exact init_possible parms hstate
      | true =>
          rw [h0, h1] at hmemory
          have hall := (hmemory.resolve_left (by decide)).resolve_left (by decide)
          have hres (i : Nat) (hi : i < blocksFor (bufsToAlloc parms) + 2) : heap.results (heap.asked + i) = true := by
            rcases i with _ | _ | i
            · exact h0
            · exact h1
            · have hi' := hall i (by omega)
              rwa [Nat.add_assoc, Nat.add_comm 2] at hi'
          obtain ⟨r, hr, -, hasked⟩ := init_granted heap parms _ hstate le_rfl hres
          refine ⟨_, r, hr, hnotbusy, fun ⟨k, hk, hlt, hno⟩ => ?_⟩
          rw [hasked] at hlt
          have hyes := hres (k - heap.asked) (by omega)
          rw [Nat.add_sub_of_le hk] at hyes
          exact absurd (hno.symm.trans hyes) Bool.false_ne_true

def demoInfo (state : DrvState) : GlobalInfo := ⟨state, ⟨0, 0, 0, 0⟩, none, [], none, fun _ => none⟩

def demoParms : GlobalInitParms := ⟨⟨0, 0, 0, 0⟩, fun i => if i = 0 then 1 else 0⟩

theorem demo_past (state : DrvState) (results : Nat → Bool) : Past (demoInfo state) ⟨results, 0, []⟩ :=
  ⟨fun _ hp => absurd hp List.not_mem_nil, fun _ _ hp => absurd hp (Option.not_mem_none _)⟩

theorem refused_descriptors_undone : AllOrNothing (demoInfo .uninitialized) ⟨fun k => k == 0, 0, []⟩ demoParms :=
  (init_all_or_nothing_iff (demo_past _ _) demoParms).mpr ⟨rfl, .inr (.inl rfl)⟩

theorem repeated_and_refused_init :
    ¬ AllOrNothing (demoInfo .running) ⟨fun _ => true, 0, []⟩ demoParms ∧
      ¬ AllOrNothing (demoInfo .uninitialized) ⟨fun k => k != 2, 0, []⟩ demoParms := by
  constructor
  · intro h
    have hstate := (h.needs (demo_past _ _)).1
    cases hstate
  · intro h
    rcases (h.needs (demo_past _ _)).2 with h0 | h1 | hall
    · exact absurd h0 (by decide)
    · exact absurd h1 (by decide)
    · exact absurd (hall 0 (by decide)) (by decide)

end AliceModem.GlobalInit
