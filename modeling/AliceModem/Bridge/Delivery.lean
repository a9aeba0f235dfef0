import AliceModem.Bridge.Disposal

namespace AliceModem.Delivery

open ByteMemory Snooping ForwardLoop Ownership Disposal

variable {Port : Type} [DecidableEq Port]

def Admits (s : Ip) (e : McFdbEntry Port) : Prop :=
  e.filtMode = .mcastInclude ∧ e.src = s ∨ e.filtMode = .mcastExclude ∧ (e.src = 0 ∨ e.src ≠ s)

instance (s : Ip) (e : McFdbEntry Port) : Decidable (Admits s e) := inferInstanceAs (Decidable (_ ∨ _))

omit [DecidableEq Port] in
theorem passes_iff_admits (e : McFdbEntry Port) (s : Ip) : e.passes s = true ↔ Admits s e := by
  rw [passes_iff, Admits, eq_comm (a := s), ne_comm (a := s)]

section

variable (br : NetBridge Port) (skb : Frame Port) (hook : Hook)

def handOver : List Port → Nat → List (Event (Fate Port))
  | [], _ => []
  | p :: ps, n =>
      .acquire n :: .dispose n (if shouldDeliver br skb p then .toPort hook p else .freed) :: handOver ps (n + 1)

theorem sendClones_events (ps : List Port) {l : Skbs Port} (hl : l.fails = []) :
    ∃ l', sendClones br skb hook ps l = some l' ∧ l'.events = l.events ++ handOver br skb hook ps l.next := by
  induction ps generalizing l with
  | nil => exact ⟨l, rfl, (List.append_nil _).symm⟩
  | cons p ps ih =>
      have hok : l.fails.headD false = false := by rw [hl]; rfl
      rw [sendClones, skbClone, Ledger.acquire_ok hok]
      have hsend (l' : Skbs Port) (n : Nat) : brSend br skb hook l' p n =
          l'.dispose n (if shouldDeliver br skb p then .toPort hook p else .freed) := by
        rw [brSend]
        split <;> rfl
      obtain ⟨l', he, hevents⟩ := ih (l := brSend br skb hook ⟨l.fails.tail, l.next + 1, l.events ++ [.acquire l.next]⟩ p
        l.next) (by rw [hsend, hl]; rfl)
      refine ⟨l', he, ?_⟩
      rw [hevents, hsend, handOver, Ledger.dispose]
      simp

end

section

variable {snooping : Nat} (jiffies : UInt32) (br : Bridge Port) {skb : Skb Port}

theorem status_iff_entry (hs : snooping ≠ 0) (hdata : skb.data 9 ≠ ipprotoIgmp) :
    (Snooping.mcForward snooping jiffies br skb).status = true ↔
      (snooping = 2 ∧ controlFilter skb.hDest = true) ∨
      (∃ e ∈ br.mcList, e.addr = skb.hDest ∧ e.filtMode = .mcastInclude ∧ e.src = skb.saddr) ∨
      ∃ e ∈ br.mcList, e.addr = skb.hDest ∧ e.filtMode = .mcastExclude := by
  have hentry (e : McFdbEntry Port) : (e.passes skb.saddr = true ∨ e.filtMode = .mcastExclude) ↔
      (e.filtMode = .mcastInclude ∧ e.src = skb.saddr) ∨ e.filtMode = .mcastExclude := by
    rw [passes_iff_admits, Admits]
    tauto
  rw [status_iff, Snooped, and_iff_right hs, and_iff_right hdata, ← exists_or]
  simp only [hentry, and_or_left]

theorem handed_marked (hs : snooping ≠ 0) (hdata : skb.data 9 ≠ ipprotoIgmp)
    (hports : ∀ e ∈ br.mcList, e.dst ∈ br.portList) (hdirty : ∀ p ∈ br.portList, br.dirty p = false) :
    (Snooping.mcForward snooping jiffies br skb).handed.Nodup ∧
    (∀ p, p ∈ (Snooping.mcForward snooping jiffies br skb).handed ↔
      ∃ e ∈ br.mcList, e.addr = skb.hDest ∧ Admits skb.saddr e ∧ e.dst = p) ∧
    ∀ p ∈ br.portList, (Snooping.mcForward snooping jiffies br skb).bridge.dirty p = false := by
  have hclean : Marked (· ∈ br.portList) br.dirty [] := ⟨List.nodup_nil, fun p hp => by simp [hdirty p hp]⟩
  obtain ⟨hmarked, hmem⟩ := forwardLoop_marked skb.saddr skb.hDest br.mcList hports hclean
    (decide (snooping = 2 ∧ controlFilter skb.hDest = true))
  simp only [List.not_mem_nil, false_or, passes_iff_admits] at hmem
  have hstatus := status_iff_entry jiffies br hs hdata
  rw [Snooping.mcForward, if_neg hs, if_neg hdata] at hstatus ⊢
  dsimp only at hstatus ⊢
  refine ⟨hmarked.nodup, hmem, fun p hp => ?_⟩
  split_ifs with hset
  · exact if_pos hp
  · -- without a status no entry lets the frame through, and no port was marked
    rw [← Bool.not_eq_true, hmarked.dirty p hp, hmem]
    rintro ⟨e, he, haddr, hadmits, -⟩
    refine hset (hstatus.mpr (.inr ?_))
    rcases hadmits with ⟨hmode, hsrc⟩ | ⟨hmode, -⟩
    · exact .inl ⟨e, he, haddr, hmode, hsrc⟩
    · exact .inr ⟨e, he, haddr, hmode⟩

end

/-- The source address of a frame; behind a VLAN tag the IP header starts four bytes later. -/
def source (skb : Skb Port) : Ip := ipAt skb.data (if skb.protocol = ethP8021q then 16 else 12)

structure Clean (br : Bridge Port) : Prop where
  ports : ∀ e ∈ br.mcList, e.dst ∈ br.portList
  dirty : ∀ p ∈ br.portList, br.dirty p = false

/-- The ports with an entry that admits the source are handed one clone each and the others none; the result tells
whether the frame is taken care of, and the flags are left clear. -/
def HandsOnce (br : NetBridge Port) (skb : Frame Port) (snooping : Nat) (jiffies : UInt32) (hook : Hook) (l : Skbs Port)
    (s : Nat) : Prop :=
  ∃ status b l' handed, Disposal.mcForward br skb snooping jiffies hook l s = some (status, b, l') ∧
    l'.events = l.events ++ handOver br skb hook handed l.next ++
      (if hook = .deliver ∧ status = true then [.dispose s .freed] else []) ∧
    (∀ p, handed.count p =
      if ∃ e ∈ br.mcList, e.addr = skb.hDest ∧ Admits (source skb.toSkb) e ∧ e.dst = p then 1 else 0) ∧
    (status = true ↔ (snooping = 2 ∧ controlFilter skb.hDest = true) ∨
      (∃ e ∈ br.mcList, e.addr = skb.hDest ∧ e.filtMode = .mcastInclude ∧ e.src = source skb.toSkb) ∨
      ∃ e ∈ br.mcList, e.addr = skb.hDest ∧ e.filtMode = .mcastExclude) ∧
    ∀ p ∈ br.portList, b.dirty p = false

section

variable (br : NetBridge Port) (skb : Frame Port) {snooping : Nat} (jiffies : UInt32) (hook : Hook) {l : Skbs Port} (s : Nat)

theorem mcForward_events (snooping : Nat) (hl : l.fails = []) :
    ∃ l', Disposal.mcForward br skb snooping jiffies hook l s = some
        ((Snooping.mcForward snooping jiffies br.toBridge skb.toSkb).status,
          (Snooping.mcForward snooping jiffies br.toBridge skb.toSkb).bridge, l') ∧
      l'.events = l.events ++
        handOver br skb hook (Snooping.mcForward snooping jiffies br.toBridge skb.toSkb).handed l.next ++
        (if hook = .deliver ∧ (Snooping.mcForward snooping jiffies br.toBridge skb.toSkb).status = true then
          [.dispose s .freed] else []) := by
  obtain ⟨l', he, hevents⟩ := sendClones_events br skb hook
    (Snooping.mcForward snooping jiffies br.toBridge skb.toSkb).handed hl
  refine ⟨_, by rw [Disposal.mcForward, he]; rfl, ?_⟩
  split_ifs
  · rw [← hevents]
    rfl
  · rw [hevents, List.append_nil]

theorem handsOnce_of_read (hs : snooping ≠ 0) (hl : l.fails = []) (hbr : Clean br.toBridge)
    (hdata : skb.data 9 ≠ ipprotoIgmp) (hsource : skb.saddr = source skb.toSkb) :
    HandsOnce br skb snooping jiffies hook l s := by
  obtain ⟨hnodup, hmem, hclean⟩ := handed_marked jiffies br.toBridge hs hdata hbr.ports hbr.dirty
  have hstatus := status_iff_entry jiffies br.toBridge hs hdata
  obtain ⟨l', he, hevents⟩ := mcForward_events br skb jiffies hook s snooping hl
  rw [hsource] at hmem hstatus
  refine ⟨_, _, l', _, he, hevents, fun p => ?_, hstatus, hclean⟩
  rw [hnodup.count]
  exact if_congr (hmem p) rfl rfl

theorem handOver_eq_nil_iff {ps : List Port} {n : Nat} : handOver br skb hook ps n = [] ↔ ps = [] := by
  cases ps <;> simp [handOver]

theorem HandsOnce.not_admits (hl : l.fails = []) (h : HandsOnce br skb snooping jiffies hook l s)
    (hnone : (Snooping.mcForward snooping jiffies br.toBridge skb.toSkb).handed = []) {e : McFdbEntry Port}
    (he : e ∈ br.mcList) (haddr : e.addr = skb.hDest) : ¬ Admits (source skb.toSkb) e := by
  obtain ⟨status, b, l₁, handed, hcall, hevents, hcount, -, -⟩ := h
  obtain ⟨l₂, hcall', hevents'⟩ := mcForward_events br skb jiffies hook s snooping hl
  rw [hcall] at hcall'
  obtain ⟨rfl, -, rfl⟩ : status = _ ∧ b = _ ∧ l₁ = l₂ := by simpa using hcall'
  have hnil : handed = [] := by
    rw [hnone, hevents, List.append_left_inj, List.append_right_inj] at hevents'
    exact (handOver_eq_nil_iff br skb hook).mp hevents'
  intro hadmits
  have hone := hcount e.dst
  rw [if_pos ⟨e, he, haddr, hadmits, rfl⟩, hnil] at hone
  exact Nat.zero_ne_one hone

end

section Exact

def oneRow (e : McFdbEntry Port) : NetBridge Port where
  portList := [e.dst]
  mcList := [e]
  dirty := fun _ => false
  proxy := false
  startTimer := true
  igmpTimer := some 2000
  allocs := []
  promisc := false
  state := fun _ => .forwarding
  devName := fun _ => []
  fdbGet := fun _ => none

omit [DecidableEq Port] in
theorem oneRow_clean (e : McFdbEntry Port) : Clean (oneRow e).toBridge :=
  ⟨fun _ he => List.mem_singleton.mpr (congrArg McFdbEntry.dst (List.mem_singleton.mp he)), fun _ _ => rfl⟩

theorem handed_of_refused {snooping : Nat} (hs : snooping ≠ 0) (jiffies : UInt32) (skb : Skb Port)
    {e : McFdbEntry Port} (hrefused : skb.data 9 = ipprotoIgmp ∨ ¬ Admits skb.saddr e) :
    (Snooping.mcForward snooping jiffies (oneRow e).toBridge skb).handed = [] := by
  rw [Snooping.mcForward, if_neg hs]
  by_cases hdata : skb.data 9 = ipprotoIgmp
  · rw [if_pos hdata]
  · have hpasses : ¬ e.passes skb.saddr = true := fun h => hrefused.resolve_left hdata ((passes_iff_admits e _).mp h)
    rw [if_neg hdata]
    simp only [oneRow, forwardLoop, if_neg hpasses]
    split_ifs <;> rfl

/-- Whatever the table, a frame is delivered right exactly if the byte that `mc_forward` takes for its protocol does not
say IGMP and the bytes it takes for the source address are that. -/
theorem one_clone_each_iff [Nonempty Port] (skb : Frame Port) {snooping : Nat} (hs : snooping ≠ 0) (jiffies : UInt32)
    (hook : Hook) {l : Skbs Port} (hl : l.fails = []) (s : Nat) :
    (∀ br : NetBridge Port, Clean br.toBridge → HandsOnce br skb snooping jiffies hook l s) ↔
      skb.data 9 ≠ ipprotoIgmp ∧ skb.saddr = source skb.toSkb := by
  refine ⟨fun h => ?_, fun ⟨hdata, hsource⟩ br hbr => handsOnce_of_read br skb jiffies hook s hs hl hbr hdata hsource⟩
  obtain ⟨p⟩ := ‹Nonempty Port›
  -- a bridge whose one entry admits the source, but not what is read, hands the frame to nobody
  have hread (e : McFdbEntry Port) (haddr : e.addr = skb.hDest) (hadmits : Admits (source skb.toSkb) e) :
      ¬ (skb.data 9 = ipprotoIgmp ∨ ¬ Admits skb.saddr e) := fun hrefused =>
    HandsOnce.not_admits (oneRow e) skb jiffies hook s hl (h _ (oneRow_clean e))
      (handed_of_refused hs jiffies skb.toSkb hrefused) List.mem_cons_self haddr hadmits
  constructor
  · exact fun hdata => hread ⟨p, skb.hDest, [], 0, .mcastExclude, 0⟩ rfl (.inr ⟨rfl, .inl rfl⟩) (.inl hdata)
  · by_contra hne
    refine hread ⟨p, skb.hDest, [], source skb.toSkb, .mcastInclude, 0⟩ rfl (.inl ⟨rfl, rfl⟩) (.inr ?_)
    rintro (⟨-, hsrc⟩ | ⟨hmode, -⟩)
    · exact hne hsrc.symm
    · cases hmode

end Exact

omit [DecidableEq Port] in
theorem untagged_source {skb : Skb Port} (hip : skb.protocol = ethPIp) : skb.saddr = source skb := by
  rw [source, if_neg (by rw [hip]; decide)]
  rfl

def demoRow (p : Nat) (src : Ip) (mode : FiltMode) (host : UInt8) : McFdbEntry Nat :=
  ⟨p, [0x01, 0x00, 0x5e, 1, 1, 1], [2, 0, 0, 0, 0, host], src, mode, 26000⟩

def sender : Ip := 0x0a000007

def rowsBridge : NetBridge Nat :=
  { demoBridge with
    portList := [0, 1, 2]
    mcList := [demoRow 0 0 .mcastExclude 1, demoRow 1 sender .mcastInclude 2, demoRow 0 sender .mcastExclude 3,
      demoRow 2 0 .mcastExclude 4] }

def datagram : List UInt8 :=
  [0x45, 0, 0, 32, 0, 2, 0, 0, 1, 17, 0xce, 0xc2, 10, 0, 0, 7, 224, 1, 1, 1, 0x1f, 0x90, 0x1f, 0x90, 0, 12, 0, 0,
    0x64, 0x61, 0x74, 0x61]

def udpFrame : Frame Nat :=
  ⟨⟨patch (fun _ => 0) 0 datagram, ethPIp, [2, 0, 0, 0, 0, 7], [0x01, 0x00, 0x5e, 1, 1, 1], some 3⟩, 0⟩

theorem one_clone_each_rows : udpFrame.saddr = sender ∧ HandsOnce rowsBridge udpFrame 1 0 .forward given 0 :=
  ⟨by decide, (one_clone_each_iff udpFrame (by decide) 0 .forward rfl 0).mpr
    ⟨by decide, untagged_source rfl⟩ rowsBridge ⟨by decide, by decide⟩⟩

def taggedFrame : Frame Nat := { udpFrame with data := patch (fun _ => 0) 0 ([0, 5, 8, 0] ++ datagram), protocol := ethP8021q }

theorem tagged_frame_kept_back :
    Clean rowsBridge.toBridge ∧ taggedFrame.protocol ≠ ethPIp ∧ source taggedFrame.toSkb = sender ∧
    (∃ b, Disposal.mcForward rowsBridge taggedFrame 1 0 .forward given 0 = some (false, b, given)) ∧
    ¬ HandsOnce rowsBridge taggedFrame 1 0 .forward given 0 := by
  refine ⟨⟨by decide, by decide⟩, by decide, by decide, ⟨_, rfl⟩, fun h => ?_⟩
  exact HandsOnce.not_admits rowsBridge taggedFrame 0 .forward 0 rfl h rfl List.mem_cons_self rfl
    (.inr ⟨rfl, .inl rfl⟩)

end AliceModem.Delivery
