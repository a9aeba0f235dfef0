import AliceModem.Lib.Ownership
import AliceModem.Lib.Transition

namespace AliceModem.Rt2684

open Ownership Transition

def rfc1483LlcLen : Nat := 8

def eunatch : Int := -42

inductive Disposal
  | kfree
  | send

structure Vcc where
  encap : Bool
  xoff : Bool

/-- A device with its VCC, if one is attached. `readers` are the read locks that
were taken by the transmit function and not given back. -/
structure Sys where
  vcc : Option Vcc
  stopped : Bool
  readers : Nat
  panic : Bool
  skbs : Ledger Disposal

/-- What the ATM layer answers during a call, and whether it takes back the
flow control before the device is throttled. -/
structure Answers where
  maySend : Bool
  popped : Bool
  maySendMore : Bool

namespace Sys

def readLock (s : Sys) : Sys := { s with readers := s.readers + 1 }

def readUnlock (s : Sys) : Sys := { s with readers := s.readers - 1 }

def dispose (s : Sys) (skb : Nat) (how : Disposal) : Sys := { s with skbs := s.skbs.dispose skb how }

def setXoff (s : Sys) (xoff : Bool) : Sys := { s with vcc := s.vcc.map fun vcc => { vcc with xoff := xoff } }

def rt2684StartXmit (s : Sys) (skb headroom : Nat) (a : Answers) : Sys × Int :=
  let s := s.readLock
  match s.vcc with
  | none => ((s.dispose skb .kfree).readUnlock, eunatch)
  | some vcc =>
      -- no room for the header to be pushed
      if vcc.encap ∧ headroom < rfc1483LlcLen then ({ s with panic := true }, 0)
      else if ¬ a.maySend then (s.dispose skb .kfree, 0)
      else
        let s := s.setXoff true
        if vcc.xoff then (s, 0)
        else
          let s := s.dispose skb .send
          if a.maySendMore then (s.setXoff false, 0)
          else if a.popped then (({ s with stopped := false }.setXoff false).readUnlock, 0)
          else ({ s with stopped := true }.readUnlock, 0)

def rt2684Pop (s : Sys) (maySend : Bool) : Sys :=
  match s.vcc with
  | none => s
  | some vcc => if maySend then { s with stopped := s.stopped && !vcc.xoff }.setXoff false else s

def rt2684Regvcc (s : Sys) (encaps : Bool) : Sys :=
  match s.vcc with
  | none => { s with vcc := some ⟨encaps, false⟩ }
  | some _ => s

def rt2684CloseVcc (s : Sys) : Sys := { s with vcc := none }

end Sys

inductive Event
  | xmit (headroom : Nat) (a : Answers)
  | pop (maySend : Bool)
  | regvcc (encaps : Bool)
  | closeVcc

def step (s : Sys) : Event → Sys
  | .xmit headroom a => (Sys.rt2684StartXmit { s with skbs := s.skbs.enter } s.skbs.next headroom a).1
  | .pop maySend => s.rt2684Pop maySend
  | .regvcc encaps => s.rt2684Regvcc encaps
  | .closeVcc => s.rt2684CloseVcc

/-- The list of VCCs is changed under the write lock. -/
def Enabled (s : Sys) : Event → Prop
  | .xmit _ _ | .pop _ => s.panic = false
  | .regvcc _ | .closeVcc => s.panic = false ∧ s.readers = 0

def Clean (s : Sys) : Prop := s.panic = false ∧ s.readers = 0 ∧ s.skbs.Settled

def Fills (vcc : Vcc) (headroom : Nat) (a : Answers) : Prop :=
  (vcc.encap = true → rfc1483LlcLen ≤ headroom) ∧ a.maySend = true ∧ vcc.xoff = false ∧ a.maySendMore = false

/-- Packets come only while there is no VCC, or fill its send buffer. -/
def Filling (s : Sys) : Event → Prop
  | .xmit headroom a => ∀ vcc ∈ s.vcc, Fills vcc headroom a
  | _ => True

section

variable {s : Sys}

structure Inv (s : Sys) : Prop where
  panic : s.panic = false
  readers : s.readers = 0
  owes : s.skbs.Owes []

theorem Inv.clean (h : Inv s) : Clean s := ⟨h.panic, h.readers, h.owes.settled⟩

variable {vcc : Vcc} {skb headroom : Nat} {a : Answers}

theorem startXmit_none (hvcc : s.vcc = none) :
    (s.rt2684StartXmit skb headroom a).1 = (s.readLock.dispose skb .kfree).readUnlock := by
  simp only [Sys.rt2684StartXmit, Sys.readLock, hvcc]

variable (skb) in
theorem startXmit_stuck (hvcc : s.vcc = some vcc) (h : ¬ Fills vcc headroom a) :
    (s.rt2684StartXmit skb headroom a).1.readers = s.readers + 1 := by
  simp only [Sys.rt2684StartXmit, Sys.readLock, hvcc]
  split
  case isTrue => rfl
  case isFalse hroom =>
    split
    case isTrue => rfl
    case isFalse hsend =>
      split
      case isTrue => rfl
      case isFalse hxoff =>
        split
        case isTrue => rfl
        case isFalse hmore =>
          rw [not_and, Nat.not_lt] at hroom
          rw [not_not] at hsend
          exact absurd ⟨hroom, hsend, Bool.eq_false_iff.mpr hxoff, Bool.eq_false_iff.mpr hmore⟩ h

variable (skb) in
theorem startXmit_fills (hvcc : s.vcc = some vcc) (h : Fills vcc headroom a) :
    (s.rt2684StartXmit skb headroom a).1.readers = s.readers ∧
      (s.rt2684StartXmit skb headroom a).1.panic = s.panic ∧
      (s.rt2684StartXmit skb headroom a).1.skbs = s.skbs.dispose skb .send := by
  obtain ⟨hroom, hsend, hxoff, hmore⟩ := h
  simp only [Sys.rt2684StartXmit, Sys.readLock, hvcc]
  rw [if_neg fun hshort => Nat.not_lt.mpr (hroom hshort.1) hshort.2, if_neg (not_not.mpr hsend),
    if_neg (Bool.eq_false_iff.mp hxoff), if_neg (Bool.eq_false_iff.mp hmore)]
  split
  · exact ⟨rfl, rfl, rfl⟩
  · exact ⟨rfl, rfl, rfl⟩

theorem Inv.xmit (h : Inv s) (hc : Filling s (.xmit headroom a)) : Inv (step s (.xmit headroom a)) := by
  have howes := h.owes.enter
  cases hvcc : s.vcc with
  | none =>
      rw [step, startXmit_none (s := { s with skbs := s.skbs.enter }) hvcc]
      exact ⟨h.panic, h.readers, howes.disposed .kfree⟩
  | some vcc =>
      obtain ⟨hreaders, hpanic, hskbs⟩ := startXmit_fills (s := { s with skbs := s.skbs.enter })
        s.skbs.next hvcc (hc vcc hvcc)
      refine ⟨hpanic.trans h.panic, hreaders.trans h.readers, ?_⟩
      rw [step, hskbs]
      exact howes.disposed .send

theorem Inv.pop (h : Inv s) (maySend : Bool) : Inv (step s (.pop maySend)) := by
  rw [step, Sys.rt2684Pop]
  split
  · exact h
  · split
    · exact ⟨h.panic, h.readers, h.owes⟩
    · exact h

theorem Inv.regvcc (h : Inv s) (encaps : Bool) : Inv (step s (.regvcc encaps)) := by
  rw [step, Sys.rt2684Regvcc]
  split
  · exact ⟨h.panic, h.readers, h.owes⟩
  · exact h

theorem Inv.step (h : Inv s) {e : Event} (hc : Filling s e) : Inv (step s e) := by
  cases e with
  | xmit headroom a => exact h.xmit hc
  | pop maySend => exact h.pop maySend
  | regvcc encaps => exact h.regvcc encaps
  | closeVcc => exact ⟨h.panic, h.readers, h.owes⟩

theorem Clean.filling {e : Event} (h : Clean (step s e)) : Filling s e := by
  cases e with
  | xmit headroom a =>
      intro vcc hvcc
      by_contra hstuck
      have hheld := startXmit_stuck (s := { s with skbs := s.skbs.enter }) s.skbs.next hvcc hstuck
      have hfree : (Sys.rt2684StartXmit { s with skbs := s.skbs.enter } s.skbs.next headroom a).1.readers = 0 :=
        h.2.1
      rw [hheld] at hfree
      cases hfree
  | pop | regvcc | closeVcc => trivial

end

def start (vcc : Option Vcc) (stopped : Bool) : Sys := ⟨vcc, stopped, 0, false, Ledger.fresh []⟩

/-- Neither a lock nor a packet is left behind in just those runs in which every
packet finds no VCC or fills the send buffer. -/
theorem clean_iff_filling (vcc : Option Vcc) (stopped : Bool) {es : List Event}
    (hE : Along step Enabled (start vcc stopped) es) :
    Throughout step Clean (start vcc stopped) es ↔ Along step Filling (start vcc stopped) es :=
  throughout_iff (I := Inv) (fun _ h => h.clean) (fun _ _ h _ hc => h.step hc) (fun _ _ _ _ h => h.filling)
    ⟨rfl, rfl, Ledger.fresh_owes []⟩ hE

theorem full_buffer_clean :
    Throughout step Clean (start (some ⟨true, false⟩) false) [.xmit 16 ⟨true, false, false⟩, .pop true] ↔
      Along step Filling (start (some ⟨true, false⟩) false) [.xmit 16 ⟨true, false, false⟩, .pop true] :=
  clean_iff_filling _ _ ⟨rfl, rfl, trivial⟩

theorem packet_and_lock_left_behind :
    (Along step Enabled (start (some ⟨true, false⟩) false) [.xmit 16 ⟨true, false, true⟩] ∧
      (step (start (some ⟨true, false⟩) false) (.xmit 16 ⟨true, false, true⟩)).readers = 1 ∧
      ¬ Throughout step Clean (start (some ⟨true, false⟩) false) [.xmit 16 ⟨true, false, true⟩]) ∧
    (Along step Enabled (start (some ⟨true, true⟩) false) [.xmit 16 ⟨true, false, true⟩] ∧
      (step (start (some ⟨true, true⟩) false) (.xmit 16 ⟨true, false, true⟩)).skbs.disposals 0 = 0 ∧
      ¬ Throughout step Clean (start (some ⟨true, true⟩) false) [.xmit 16 ⟨true, false, true⟩]) := by
  refine ⟨⟨⟨rfl, trivial⟩, rfl, fun h => ?_⟩, ⟨rfl, trivial⟩, rfl, fun h => ?_⟩
  · exact absurd h.2.2.1 (by decide)
  · exact absurd h.2.2.1 (by decide)

end AliceModem.Rt2684
