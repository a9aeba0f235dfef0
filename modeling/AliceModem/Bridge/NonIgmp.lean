import AliceModem.Bridge.Disposal
import AliceModem.Bridge.SnoopTable

namespace AliceModem.NonIgmp

open ByteMemory Snooping SnoopTable Ownership Disposal

variable {Port : Type} [DecidableEq Port]

/-- The call, if it ends, has left the table as it was. -/
def KeepsTable (br : NetBridge Port) (r : Option (Bridge Port × Skbs Port)) : Prop :=
  ∀ b l, r = some (b, l) → b.mcList = br.mcList

/-- The frame has the bytes of a leave where `mc_forward` looks for them, and there is an entry to remove. A frame
that the bridge sends itself has no port, and no entry. -/
def TakenForLeave (snooping : Nat) (br : Bridge Port) (skb : Skb Port) : Prop :=
  snooping ≠ 0 ∧ br.proxy = false ∧ skb.data 9 = ipprotoIgmp ∧ skb.data skb.igmpOffset = igmpHostLeaveMessage ∧
    ∃ p, skb.brPort = some p ∧ ⟨p, leaveGroup skb, skb.hSource, 0, .mcastExclude⟩ ∈ keys br

theorem remove_eq_iff (br : Bridge Port) (p : Port) (dest host : Mac) :
    (brMcFdbRemove br (some p) dest host snoopExClear 0).mcList = br.mcList ↔
      ⟨p, dest, host, 0, .mcastExclude⟩ ∉ keys br := by
  have hmode : clearMode snoopExClear = .mcastExclude := rfl
  rw [brMcFdbRemove, if_neg (by decide)]
  dsimp only
  rw [List.eraseP_eq_self_iff]
  simp only [decide_eq_true_eq, isFor_iff, hmode, keys, List.mem_map, not_exists, not_and]

section

variable (snooping : Nat) (jiffies : UInt32) {br : Bridge Port} {skb : Skb Port}

theorem mcForward_keeps_iff (hnot : skb.protocol ≠ ethPIp ∨ skb.data 9 ≠ ipprotoIgmp) :
    (Snooping.mcForward snooping jiffies br skb).bridge.mcList = br.mcList ↔ ¬ TakenForLeave snooping br skb := by
  rw [Snooping.mcForward, TakenForLeave]
  by_cases hs : snooping = 0
  · rw [if_pos hs]
    exact iff_of_true rfl fun h => h.1 hs
  by_cases hdata : skb.data 9 = ipprotoIgmp
  swap
  · rw [if_neg hs, if_neg hdata]
    exact iff_of_true rfl fun h => hdata h.2.2.1
  have hproto : skb.protocol ≠ ethPIp := hnot.resolve_right fun h => h hdata
  rw [if_neg hs, if_pos hdata]
  cases hproxy : br.proxy with
  | true => exact iff_of_true rfl fun h => Bool.noConfusion h.2.1
  | false =>
      rw [snoopIgmp]
      simp only [Bool.false_eq_true, if_false, hproto, and_false]
      by_cases htype : skb.data skb.igmpOffset = igmpHostLeaveMessage
      swap
      · rw [if_neg htype]
        exact iff_of_true rfl fun h => htype h.2.2.2.1
      rw [if_pos htype]
      rcases hport : skb.brPort with _ | p
      · exact iff_of_true rfl fun h => by simp at h
      · rw [remove_eq_iff]
        simp [hs, hdata, htype]

theorem handed_of_igmp (hdata : skb.data 9 = ipprotoIgmp) : (Snooping.mcForward snooping jiffies br skb).handed = [] := by
  rw [Snooping.mcForward]
  split_ifs <;> rfl

end

section Calls

variable (br : NetBridge Port) (skb : Frame Port) (snooping : Nat) (jiffies : UInt32) (l : Skbs Port) (s : Nat)

theorem keeps_iff (hook : Hook) {f : Bool × Bridge Port × Skbs Port → Bridge Port × Skbs Port} (hf : ∀ r, (f r).1 = r.2.1)
    (hnot : skb.protocol ≠ ethPIp ∨ skb.data 9 ≠ ipprotoIgmp) :
    KeepsTable br ((Disposal.mcForward br skb snooping jiffies hook l s).map f) ↔
      ¬ TakenForLeave snooping br.toBridge skb.toSkb := by
  rw [← mcForward_keeps_iff snooping jiffies hnot, Disposal.mcForward]
  constructor
  · intro h
    by_cases hdata : skb.data 9 = ipprotoIgmp
    · rw [handed_of_igmp snooping jiffies hdata] at h
      have := h _ _ rfl
      rwa [hf] at this
    · exact (mcForward_keeps_iff snooping jiffies hnot).mpr fun ht => hdata ht.2.2.1
  · rintro h b l' hr
    obtain ⟨r, hr, heq⟩ := Option.map_eq_some_iff.mp hr
    obtain ⟨l'', -, rfl⟩ := Option.map_eq_some_iff.mp hr
    have hb : (Snooping.mcForward snooping jiffies br.toBridge skb.toSkb).bridge = b :=
      (hf _).symm.trans (congrArg Prod.fst heq)
    rw [← hb]
    exact h

/-- A group frame that is no IGMP message changes the table exactly if it is taken for a leave of a known entry. -/
theorem table_kept_iff (hgroup : multicast skb) (hnot : skb.protocol ≠ ethPIp ∨ skb.data 9 ≠ ipprotoIgmp) :
    (KeepsTable br (brHandleFrameFinish br skb snooping jiffies l s) ↔
      ¬ ((∃ p, skb.brPort = some p ∧ br.state p ≠ .disabled) ∧ TakenForLeave snooping br.toBridge skb.toSkb)) ∧
    (KeepsTable br (brDevXmit br skb snooping jiffies l s) ↔ ¬ TakenForLeave snooping br.toBridge skb.toSkb) := by
  constructor
  · rw [brHandleFrameFinish]
    rcases hport : skb.brPort with _ | p
    · refine iff_of_true ?_ (by simp)
      rintro b l' ⟨⟩
      rfl
    · dsimp only
      by_cases hstate : br.state p = .disabled
      · rw [if_pos hstate]
        refine iff_of_true ?_ (by simp [hstate])
        rintro b l' ⟨⟩
        rfl
      · have hactive : ∃ q, some p = some q ∧ br.state q ≠ .disabled := ⟨p, rfl, hstate⟩
        rw [if_neg hstate, if_pos hgroup, and_iff_right hactive]
        exact keeps_iff br skb snooping jiffies _ s .forward (fun _ => rfl) hnot
  · rw [brDevXmit, if_pos hgroup]
    exact keeps_iff br skb snooping jiffies l s .deliver (fun _ => rfl) hnot

end Calls

def demoBridge : NetBridge Nat where
  portList := [0, 1]
  mcList := [⟨0, [0x01, 0x00, 0x5e, 1, 1, 1], [0x00, 0x02, 0x10, 0, 0, 1], 0, .mcastExclude, 26000⟩]
  dirty := fun _ => false
  proxy := false
  startTimer := true
  igmpTimer := some 2000
  allocs := []
  promisc := false
  state := fun _ => .forwarding
  devName := fun _ => []
  fdbGet := fun _ => none

def arpRequest (pad : UInt8) : Frame Nat :=
  ⟨⟨patch (fun _ => 0) 0 [0, 1, 8, 0, 6, 4, 0, 1, 0x00, 0x02, 0x10, 0, 0, 1, 10, 0, 0, 9, 0, 0, 0, 0, 0, 0, 23, 1, 1, 1,
    pad, pad, pad, pad], 0x0806, [0x00, 0x02, 0x10, 0, 0, 1], sysAddr, some 0⟩, 0⟩

theorem padded_request_kept :
    KeepsTable demoBridge (brHandleFrameFinish demoBridge (arpRequest 0) 1 0 given 0) := by
  refine (table_kept_iff demoBridge (arpRequest 0) 1 0 given 0 (by decide) (.inl (by decide))).1.mpr ?_
  rintro ⟨-, -, -, -, -, p, hp, hmem⟩
  obtain rfl : 0 = p := Option.some.inj hp
  revert hmem
  decide

theorem request_removes_entry :
    multicast (arpRequest 1) ∧ (arpRequest 1).protocol ≠ ethPIp ∧
      ¬ KeepsTable demoBridge (brHandleFrameFinish demoBridge (arpRequest 1) 1 0 given 0) := by
  refine ⟨by decide, by decide, fun h => ?_⟩
  have hkept := h _ _ rfl
  revert hkept
  decide

end AliceModem.NonIgmp
