import AliceModem.Lib.Ownership
import AliceModem.Bridge.ForwardLoop

namespace AliceModem.Disposal

open ByteMemory Snooping ForwardLoop Ownership

inductive PortState
  | disabled
  | listening
  | learning
  | forwarding
  | blocking
  deriving DecidableEq

inductive Hook
  | forward
  | deliver
  deriving DecidableEq

inductive Fate (Port : Type)
  | passedUp
  | toPort (hook : Hook) (p : Port)
  | freed

abbrev Skbs (Port : Type) := Ledger (Fate Port)

structure FdbEntry (Port : Type) where
  dst : Port
  isLocal : Bool

/-- The fields of `struct net_bridge` and of its ports that tell where a frame goes. `fdbGet` is the
lookup in the table of unicast addresses. -/
structure NetBridge (Port : Type) extends Bridge Port where
  promisc : Bool
  state : Port → PortState
  devName : Port → List UInt8
  fdbGet : Mac → Option (FdbEntry Port)

structure Frame (Port : Type) extends Skb Port where
  nfmark : UInt32

abbrev fromWan : UInt32 := 0x1000
abbrev fromSwitch : UInt32 := 0x2000
abbrev ethP8021q : Nat := 0x8100

variable {Port : Type} [DecidableEq Port]

section

variable (br : NetBridge Port) (skb : Frame Port)

/-- Not to where it came from, nor from one WAN interface (`nas`) to another or from the switch back
to it (`eth`). -/
def shouldDeliver (p : Port) : Bool :=
  if skb.brPort = some p ∨ br.state p ≠ .forwarding then false
  else if skb.nfmark &&& fromWan ≠ 0 ∧ (br.devName p).take 3 = [110, 97, 115] then false
  else if skb.nfmark &&& fromSwitch ≠ 0 ∧ (br.devName p).take 3 = [101, 116, 104] then false
  else true

def kfreeSkb (l : Skbs Port) (s : Nat) : Skbs Port := l.dispose s .freed

def skbClone (l : Skbs Port) : Option Nat × Skbs Port := l.acquire

def skbCopy (l : Skbs Port) : Option Nat × Skbs Port := l.acquire

def brSend (hook : Hook) (l : Skbs Port) (dst : Port) (s : Nat) : Skbs Port :=
  if shouldDeliver br skb dst then l.dispose s (.toPort hook dst) else kfreeSkb l s

def brForward : Skbs Port → Port → Nat → Skbs Port := brSend br skb .forward

def brDeliver : Skbs Port → Port → Nat → Skbs Port := brSend br skb .deliver

/-- The walk over the ports of `br_flood`: a port gets its clone when the next one is found, the last
one the frame itself. -/
def floodLoop (hook : Hook) (s : Nat) : List Port → Option Port → Skbs Port → Skbs Port
  | [], none, l => kfreeSkb l s
  | [], some prev, l => l.dispose s (.toPort hook prev)
  | p :: ps, prev, l =>
      if shouldDeliver br skb p then
        match prev with
        | none => floodLoop hook s ps (some p) l
        | some q =>
            match skbClone l with
            | (none, l) => kfreeSkb l s
            | (some s2, l) => floodLoop hook s ps (some p) (l.dispose s2 (.toPort hook q))
      else floodLoop hook s ps prev l

def brFlood (hook : Hook) (clone : Bool) (l : Skbs Port) (s : Nat) : Skbs Port :=
  if clone then
    match skbClone l with
    | (none, l) => l
    | (some s2, l) => floodLoop br skb hook s2 br.portList none l
  else floodLoop br skb hook s br.portList none l

def brFloodForward : Bool → Skbs Port → Nat → Skbs Port := brFlood br skb .forward

def brFloodDeliver : Bool → Skbs Port → Nat → Skbs Port := brFlood br skb .deliver

/-- The clones that `mc_forward` sends to the ports it found. It does not look whether there is one,
and to send a missing one is a crash. -/
def sendClones (hook : Hook) : List Port → Skbs Port → Option (Skbs Port)
  | [], l => some l
  | p :: ps, l =>
      match skbClone l with
      | (none, _) => none
      | (some s2, l) => sendClones hook ps (brSend br skb hook l p s2)

variable (snooping : Nat) (jiffies : UInt32)

def mcForward (hook : Hook) (l : Skbs Port) (s : Nat) : Option (Bool × Bridge Port × Skbs Port) :=
  let r := Snooping.mcForward snooping jiffies br.toBridge skb.toSkb
  (sendClones br skb hook r.handed l).map fun l =>
    (r.status, r.bridge, if hook = .deliver ∧ r.status then kfreeSkb l s else l)

/-- `br_pass_frame_up_finish` passes a copy without the VLAN header on and frees the frame. -/
def brPassFrameUp (l : Skbs Port) (s : Nat) : Skbs Port :=
  if skb.protocol = ethP8021q then
    match skbCopy l with
    | (none, l) => kfreeSkb l s
    | (some s1, l) => (kfreeSkb l s).dispose s1 .passedUp
  else l.dispose s .passedUp

def passCopyUp (l : Skbs Port) : Bool × Skbs Port :=
  if br.promisc then
    match skbClone l with
    | (none, l) => (false, l)
    | (some s2, l) => (true, brPassFrameUp skb l s2)
  else (false, l)

/-- `dest[0] & 1` -/
def multicast : Prop := skb.hDest.headD 0 &&& 1 = 1

instance : Decidable (multicast skb) := inferInstanceAs (Decidable (_ = _))

def brHandleFrameFinish (l : Skbs Port) (s : Nat) : Option (Bridge Port × Skbs Port) :=
  match skb.brPort with
  | none => some (br.toBridge, kfreeSkb l s)
  | some p =>
      if br.state p = .disabled then some (br.toBridge, kfreeSkb l s)
      else
        let c := passCopyUp br skb l
        if multicast skb then
          (mcForward br skb snooping jiffies .forward c.2 s).map fun r =>
            let l := if r.1 then r.2.2 else brFloodForward br skb (!c.1) r.2.2 s
            (r.2.1, if c.1 then l else brPassFrameUp skb l s)
        else
          match br.fdbGet skb.hDest with
          | some dst =>
              if dst.isLocal then some (br.toBridge, if c.1 then kfreeSkb c.2 s else brPassFrameUp skb c.2 s)
              else some (br.toBridge, brForward br skb c.2 dst.dst s)
          | none => some (br.toBridge, brFloodForward br skb false c.2 s)

def brDevXmit (l : Skbs Port) (s : Nat) : Option (Bridge Port × Skbs Port) :=
  if multicast skb then
    (mcForward br skb snooping jiffies .deliver l s).map fun r =>
      (r.2.1, if r.1 then r.2.2 else brFloodDeliver br skb false r.2.2 s)
  else
    match br.fdbGet skb.hDest with
    | some dst => some (br.toBridge, brDeliver br skb l dst.dst s)
    | none => some (br.toBridge, brFloodDeliver br skb false l s)

end

structure Ready (l : Skbs Port) (S : List Nat) : Prop where
  works : l.fails = []
  owes : l.Owes S

section

variable {br : NetBridge Port} {skb : Frame Port} {l : Skbs Port} {s : Nat} {S : List Nat}

omit [DecidableEq Port] in
theorem Ready.clone (h : Ready l S) : ∃ l', l.acquire = (some l.next, l') ∧ Ready l' (l.next :: S) := by
  refine ⟨_, Ledger.acquire_ok ?_, ?_, h.owes.acquired⟩
  · rw [h.works]
    rfl
  · rw [h.works]
    rfl

omit [DecidableEq Port] in
theorem Ready.dispose (h : Ready l (s :: S)) (fate : Fate Port) : Ready (l.dispose s fate) S :=
  ⟨h.works, h.owes.disposed fate⟩

omit [DecidableEq Port] in
theorem Ready.swap {s' : Nat} (h : Ready l (s :: s' :: S)) : Ready l (s' :: s :: S) :=
  ⟨h.works, h.owes.perm (.swap _ _ _)⟩

theorem send_ready (h : Ready l (s :: S)) (hook : Hook) (dst : Port) : Ready (brSend br skb hook l dst s) S := by
  rw [brSend]
  split_ifs
  · exact h.dispose _
  · exact h.dispose _

theorem floodLoop_ready (hook : Hook) (ps : List Port) (prev : Option Port) (h : Ready l (s :: S)) :
    Ready (floodLoop br skb hook s ps prev l) S := by
  induction ps generalizing prev l with
  | nil => cases prev <;> exact h.dispose _
  | cons p ps ih =>
      rw [floodLoop.eq_def]
      dsimp only
      split_ifs
      · cases prev with
        | none => exact ih _ h
        | some q =>
            obtain ⟨l', he, h'⟩ := h.clone
            rw [skbClone, he]
            exact ih _ (h'.dispose _)
      · exact ih _ h

theorem flood_ready (hook : Hook) (h : Ready l (s :: S)) : Ready (brFlood br skb hook false l s) S := by
  rw [brFlood]
  exact floodLoop_ready hook _ _ h

theorem flood_clone_ready (hook : Hook) (h : Ready l S) : Ready (brFlood br skb hook true l s) S := by
  obtain ⟨l', he, h'⟩ := h.clone
  rw [brFlood, skbClone, he]
  exact floodLoop_ready hook _ _ h'

variable (br skb) in
theorem sendClones_ready (hook : Hook) (ps : List Port) (h : Ready l S) :
    ∃ l', sendClones br skb hook ps l = some l' ∧ Ready l' S := by
  induction ps generalizing l with
  | nil => exact ⟨l, rfl, h⟩
  | cons p ps ih =>
      obtain ⟨l', he, h'⟩ := h.clone
      rw [sendClones, skbClone, he]
      exact ih (send_ready h' hook p)

omit [DecidableEq Port] in
theorem passUp_ready (h : Ready l (s :: S)) : Ready (brPassFrameUp skb l s) S := by
  rw [brPassFrameUp]
  split_ifs
  · obtain ⟨l', he, h'⟩ := h.clone
    rw [skbCopy, he]
    exact (h'.swap.dispose _).dispose _
  · exact h.dispose _

omit [DecidableEq Port] in
variable (br skb) in
theorem passCopyUp_ready (h : Ready l S) :
    (passCopyUp br skb l).1 = br.promisc ∧ Ready (passCopyUp br skb l).2 S := by
  rw [passCopyUp]
  cases br.promisc with
  | false => exact ⟨rfl, h⟩
  | true =>
      obtain ⟨l', he, h'⟩ := h.clone
      rw [skbClone, he]
      exact ⟨rfl, passUp_ready h'⟩

end

def Snooped (snooping : Nat) (br : Bridge Port) (skb : Skb Port) : Prop :=
  snooping ≠ 0 ∧ skb.data 9 ≠ ipprotoIgmp ∧
    ((snooping = 2 ∧ controlFilter skb.hDest = true) ∨
      ∃ e ∈ br.mcList, e.addr = skb.hDest ∧ (e.passes skb.saddr = true ∨ e.filtMode = .mcastExclude))

theorem status_iff (snooping : Nat) (jiffies : UInt32) (br : Bridge Port) (skb : Skb Port) :
    (Snooping.mcForward snooping jiffies br skb).status = true ↔ Snooped snooping br skb := by
  rw [Snooping.mcForward, Snooped]
  by_cases hs : snooping = 0
  · rw [if_pos hs]
    exact iff_of_false Bool.false_ne_true fun h => h.1 hs
  by_cases hdata : skb.data 9 = ipprotoIgmp
  · rw [if_neg hs, if_pos hdata]
    exact iff_of_false Bool.false_ne_true fun h => h.2.1 hdata
  rw [if_neg hs, if_neg hdata, and_iff_right hs, and_iff_right hdata]
  dsimp only
  rw [forwardLoop_status, decide_eq_true_iff]

def given : Skbs Port := (Ledger.fresh []).acquire.2

omit [DecidableEq Port] in
theorem given_ready : Ready (given : Skbs Port) [0] := ⟨rfl, (Ledger.fresh_owes []).acquired⟩

section Once

variable (br : NetBridge Port) (skb : Frame Port) (snooping : Nat) (jiffies : UInt32) {l : Skbs Port}

theorem mcForward_ready (hook : Hook) {s : Nat} {S : List Nat} (h : Ready l (s :: S)) :
    ∃ b l', mcForward br skb snooping jiffies hook l s =
        some ((Snooping.mcForward snooping jiffies br.toBridge skb.toSkb).status, b, l') ∧
      Ready l' (if hook = .deliver ∧ (Snooping.mcForward snooping jiffies br.toBridge skb.toSkb).status = true then S
        else s :: S) := by
  obtain ⟨l', he, h'⟩ := sendClones_ready br skb hook
    (Snooping.mcForward snooping jiffies br.toBridge skb.toSkb).handed h
  refine ⟨(Snooping.mcForward snooping jiffies br.toBridge skb.toSkb).bridge,
    if hook = .deliver ∧ (Snooping.mcForward snooping jiffies br.toBridge skb.toSkb).status = true then kfreeSkb l' s
    else l', ?_, ?_⟩
  · rw [mcForward, he]
    rfl
  · split_ifs
    · exact h'.dispose _
    · exact h'

/-- The frames that get lost: those for a group that the bridge takes care of, while it is promiscuous. -/
def Lost : Prop :=
  (∃ p, skb.brPort = some p ∧ br.state p ≠ .disabled) ∧ br.promisc = true ∧ multicast skb ∧
    Snooped snooping br.toBridge skb.toSkb

theorem xmit_ready (h : Ready l [0]) : ∃ b l', brDevXmit br skb snooping jiffies l 0 = some (b, l') ∧ Ready l' [] := by
  rw [brDevXmit]
  split_ifs
  · obtain ⟨b, l', he, h'⟩ := mcForward_ready br skb snooping jiffies .deliver h
    rw [he]
    refine ⟨b, _, rfl, ?_⟩
    dsimp only
    split_ifs with hstatus
    · rwa [if_pos ⟨rfl, hstatus⟩] at h'
    · rw [if_neg fun hs => hstatus hs.2] at h'
      exact flood_ready _ h'
  · cases br.fdbGet skb.hDest with
    | none => exact ⟨_, _, rfl, flood_ready _ h⟩
    | some dst => exact ⟨_, _, rfl, send_ready h _ _⟩

theorem finish_ready (h : Ready l [0]) :
    ∃ b l' S, brHandleFrameFinish br skb snooping jiffies l 0 = some (b, l') ∧ Ready l' S ∧
      (S = [] ↔ ¬ Lost br skb snooping) := by
  rw [brHandleFrameFinish, Lost]
  rcases hport : skb.brPort with _ | p
  · exact ⟨_, _, [], rfl, h.dispose _, by simp⟩
  dsimp only
  by_cases hstate : br.state p = .disabled
  · rw [if_pos hstate]
    exact ⟨_, _, [], rfl, h.dispose _, by simp [hstate]⟩
  obtain ⟨hpassed, hcopy⟩ := passCopyUp_ready br skb h
  rw [if_neg hstate, hpassed]
  by_cases hmulti : multicast skb
  swap
  · rw [if_neg hmulti]
    have hnot (S : List Nat) (hS : S = []) : S = [] ↔ ¬ ((∃ q, some p = some q ∧ br.state q ≠ .disabled) ∧
        br.promisc = true ∧ multicast skb ∧ Snooped snooping br.toBridge skb.toSkb) :=
      iff_of_true hS fun hlost => hmulti hlost.2.2.1
    cases br.fdbGet skb.hDest with
    | none => exact ⟨_, _, [], rfl, flood_ready _ hcopy, hnot [] rfl⟩
    | some dst =>
        dsimp only
        split_ifs
        · exact ⟨_, _, [], rfl, hcopy.dispose _, hnot [] rfl⟩
        · exact ⟨_, _, [], rfl, passUp_ready hcopy, hnot [] rfl⟩
        · exact ⟨_, _, [], rfl, send_ready hcopy _ _, hnot [] rfl⟩
  rw [if_pos hmulti]
  obtain ⟨b, l', he, h'⟩ := mcForward_ready br skb snooping jiffies .forward hcopy
  rw [if_neg fun hs => by cases hs.1] at h'
  rw [he, ← status_iff snooping jiffies]
  have hactive : ∃ q, some p = some q ∧ br.state q ≠ .disabled := ⟨p, rfl, hstate⟩
  rw [and_iff_right hactive, and_iff_right hmulti]
  refine ⟨b, _, if br.promisc = true ∧ (Snooping.mcForward snooping jiffies br.toBridge skb.toSkb).status = true
    then [0] else [], rfl, ?_, by split_ifs with hlost <;> simp [hlost]⟩
  dsimp only
  cases br.promisc with
  | true =>
      by_cases hstatus : (Snooping.mcForward snooping jiffies br.toBridge skb.toSkb).status = true
      · rw [if_pos hstatus, if_pos rfl, if_pos ⟨rfl, hstatus⟩]
        exact h'
      · rw [if_neg hstatus, if_pos rfl, if_neg fun hs => hstatus hs.2]
        exact flood_ready _ h'
  | false =>
      have hkept : ¬ (false = true ∧ (Snooping.mcForward snooping jiffies br.toBridge skb.toSkb).status = true) :=
        fun hs => Bool.false_ne_true hs.1
      rw [if_neg Bool.false_ne_true, if_neg hkept]
      by_cases hstatus : (Snooping.mcForward snooping jiffies br.toBridge skb.toSkb).status = true
      · rw [if_pos hstatus]
        exact passUp_ready h'
      · rw [if_neg hstatus]
        exact passUp_ready (flood_clone_ready _ h')

end Once

def DisposedOnce (r : Option (Bridge Port × Skbs Port)) : Prop := ∃ b l, r = some (b, l) ∧ l.Settled

/-- A frame sent by the bridge itself is disposed of once, and so is a received one unless the bridge
is promiscuous and takes care of the frame by snooping. -/
theorem frame_disposed_once_iff (br : NetBridge Port) (skb : Frame Port) (snooping : Nat) (jiffies : UInt32) :
    DisposedOnce (brDevXmit br skb snooping jiffies given 0) ∧
    (DisposedOnce (brHandleFrameFinish br skb snooping jiffies given 0) ↔ ¬ Lost br skb snooping) := by
  obtain ⟨b, l, hx, hl⟩ := xmit_ready br skb snooping jiffies given_ready
  obtain ⟨b', l', S, hf, hl', hS⟩ := finish_ready br skb snooping jiffies given_ready
  refine ⟨⟨b, l, hx, hl.owes.settled⟩, ?_⟩
  rw [← hS, ← hl'.owes.settled_iff, hf]
  constructor
  · rintro ⟨b'', l'', he, hs⟩
    obtain ⟨-, rfl⟩ := Prod.mk.inj (Option.some.inj he)
    exact hs
  · exact fun hs => ⟨b', l', rfl, hs⟩

def demoBridge : NetBridge Nat where
  portList := [0, 1]
  mcList := []
  dirty := fun _ => false
  proxy := false
  startTimer := false
  igmpTimer := none
  allocs := []
  promisc := true
  state := fun _ => .forwarding
  devName := fun _ => []
  fdbGet := fun _ => none

def groupFrame : Frame Nat := ⟨⟨fun _ => 0, ethPIp, [2, 0, 0, 0, 0, 1], [0x01, 0x00, 0x5e, 1, 1, 1], some 0⟩, 0⟩

theorem promiscuous_frame_lost :
    ∃ b l, brHandleFrameFinish demoBridge groupFrame 2 0 given 0 = some (b, l) ∧
      l.events = [.acquire 0, .acquire 1, .dispose 1 .passedUp] ∧ ¬ l.Settled :=
  ⟨_, _, rfl, rfl, fun h => absurd (h 0 List.mem_cons_self) (by decide)⟩

end AliceModem.Disposal
