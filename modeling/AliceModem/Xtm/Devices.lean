import AliceModem.Board.MacPool
import Mathlib.Data.Finset.Insert
import Mathlib.Data.Fintype.Basic
import Mathlib.Data.List.FinRange

namespace AliceModem.Devices

open Device MacPool

abbrev maxDevCtxs : Nat := 16

abbrev maxMatchIds : Nat := 128

inductive DrvState
  | uninitialized
  | initialized
  | running
  deriving DecidableEq

def linkUp : Nat := 1

def eperm : Int := -1

def enomem : Int := -12

structure Memory where
  ulLinkState : Nat → Nat
  devAddr : Nat → List Byte

/-- The driver, with its devices named by their pointers, and the pool of
addresses. `live` are the devices for which a create returned 0 and a delete has
not. `stray` tells that a pointer into a freed block has been given to `kfree`:
the allocator may now hand out the same memory twice. -/
structure Global extends Memory where
  ulDrvState : DrvState
  pDevCtxs : Fin maxDevCtxs → Option Nat
  pDevCtxsByMatchId : Fin maxMatchIds → Option Nat
  fresh : Nat
  live : Finset Nat
  pool : MacInfo
  stray : Bool

/-- The receive vcids index the table of match ids. -/
structure LinkStatusChange where
  ulLinkState : Nat
  rxVcids : List (Fin maxMatchIds)

def defaultAddr : List Byte := [0x02, 0x10, 0x18, 0x02, 0x00, 0x01]

def macId (ifindex : UInt32) : UInt32 := ifindex ||| 0x10000000

def chooseAddr : Option (List Byte) → List Byte
  | none => defaultAddr
  | some mac => if mac.headD 0 &&& 0x01 = 0x01 then defaultAddr else mac

namespace Global

def slot (g : Global) (d : Option Nat) : Option (Fin maxDevCtxs) :=
  (List.finRange maxDevCtxs).find? fun i => g.pDevCtxs i = d

def Registered (g : Global) (d : Nat) : Prop := ∃ i, g.pDevCtxs i = some d

def AnyUp (g : Global) : Prop := ∃ i d, g.pDevCtxs i = some d ∧ g.ulLinkState d = linkUp

instance (g : Global) : Decidable g.AnyUp :=
  decidable_of_iff (∃ i, ∃ d ∈ g.pDevCtxs i, g.ulLinkState d = linkUp)
    (exists_congr fun _ => exists_congr fun _ => and_congr Option.mem_def Iff.rfl)

def setUp (g : Global) : Global :=
  let (mac, pool) := kerSysGetMacAddress g.pool (macId 0)
  { g with
    ulLinkState := Function.update g.ulLinkState g.fresh 0
    devAddr := Function.update g.devAddr g.fresh (chooseAddr mac)
    pool := pool }

def enter (g : Global) : Global :=
  { g with
    live := insert g.fresh g.live
    pDevCtxs := (g.slot none).elim g.pDevCtxs fun i => Function.update g.pDevCtxs i (some g.fresh)
    fresh := g.fresh + 1 }

/-- `free_netdev` frees the block of the device, and `kfree` then frees the
context inside it. -/
def freeTwice (g : Global) : Global := { g with stray := true }

def discard (g : Global) : Global := { g with fresh := g.fresh + 1 }.freeTwice

def share (g : Global) (written : Memory) : Global := if g.stray then { g with toMemory := written } else g

/-- `registered` is what `register_netdev` returns. -/
def doCreateDeviceReq (g : Global) (alloc : Bool) (registered : Int) (written : Memory) : Int × Global :=
  if g.ulDrvState ≠ .uninitialized ∧ alloc then
    let g := g.setUp.share written
    (registered, if registered = 0 then g.enter else g.discard)
  else (enomem, g)

def clearMatchIds (g : Global) (d : Nat) : Global :=
  { g with pDevCtxsByMatchId := fun m => if g.pDevCtxsByMatchId m = some d then none else g.pDevCtxsByMatchId m }

def doLinkUp (g : Global) (d : Nat) (lsc : LinkStatusChange) (memory : Bool) : Int × Global :=
  if memory then
    (0, { g with
      ulLinkState := Function.update g.ulLinkState d lsc.ulLinkState
      pDevCtxsByMatchId := fun m => if m ∈ lsc.rxVcids then some d else g.pDevCtxsByMatchId m
      ulDrvState := if g.ulDrvState = .initialized then .running else g.ulDrvState })
  else (enomem, g)

def stopRunning (g : Global) : Global := if g.AnyUp then g else { g with ulDrvState := .initialized }

def doLinkDown (g : Global) (d : Nat) (lsc : LinkStatusChange) : Int × Global :=
  let g := { g with ulLinkState := Function.update g.ulLinkState d lsc.ulLinkState }
  (0, (g.clearMatchIds d).stopRunning)

def doLinkStsChangedReq (g : Global) (d : Nat) (lsc : LinkStatusChange) (memory : Bool) : Int × Global :=
  match g.slot (some d) with
  | none => (eperm, g)
  | some _ => if lsc.ulLinkState = linkUp then g.doLinkUp d lsc memory else g.doLinkDown d lsc

def doDeleteDeviceReq (g : Global) (d : Nat) : Int × Global :=
  match g.slot (some d) with
  | none => (eperm, g.clearMatchIds d)
  | some i =>
      let g' := { g with
        pDevCtxs := Function.update g.pDevCtxs i none
        live := g.live.erase d
        pool := (kerSysReleaseMacAddress g.pool (g.devAddr d)).2 }
      (0, g'.freeTwice.clearMatchIds d)

end Global

inductive Request
  | create (alloc : Bool) (registered : Int)
  | delete (d : Nat)
  | linkStsChanged (d : Nat) (lsc : LinkStatusChange) (memory : Bool)

def request (g : Global) (written : Memory) : Request → Int × Global
  | .create alloc registered => g.doCreateDeviceReq alloc registered written
  | .delete d => g.doDeleteDeviceReq d
  | .linkStsChanged d lsc memory => g.doLinkStsChangedReq d lsc memory

/-- A request, with what others write to memory that is handed out twice. -/
def step (g : Global) (e : Request × Memory) : Global := (request g e.2 e.1).2

def initialized (pool : MacInfo) : Global :=
  ⟨⟨fun _ => 0, fun _ => []⟩, .initialized, fun _ => none, fun _ => none, 0, ∅, pool, false⟩

section

variable {g : Global} {d : Nat}

theorem slot_eq_none {x : Option Nat} : g.slot x = none ↔ ∀ i, g.pDevCtxs i ≠ x := by
  simp [Global.slot]

theorem slot_eq_some {x : Option Nat} {i : Fin maxDevCtxs} (h : g.slot x = some i) : g.pDevCtxs i = x := by
  simpa using List.find?_some h

theorem share_of_not_stray (h : g.stray = false) (written : Memory) : g.share written = g := by
  rw [Global.share, h, if_neg Bool.false_ne_true]

theorem share_of_stray (h : g.stray = true) (written : Memory) : g.share written = { g with toMemory := written } := by
  rw [Global.share, if_pos h]

end

end AliceModem.Devices
