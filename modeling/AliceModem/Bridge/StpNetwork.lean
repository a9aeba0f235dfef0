import AliceModem.Bridge.StpSafety

namespace AliceModem.Stp

open Bpdu Disposal

abbrev Claim := ℕ ×ₗ BridgeId ×ₗ ℕ

def NetBridgePort.record (q : NetBridgePort) : Claim :=
  toLex (q.designatedCost.toNat, toLex (q.designatedBridge, q.designatedPort.toNat))

section

variable {P : Type} {a b br : NetBridge P} {p : P}

def NetBridge.claim (br : NetBridge P) (p : P) : Claim :=
  toLex (br.rootPathCost.toNat, toLex (br.bridgeId, (br.port p).portId.toNat))

structure Elected (br : NetBridge P) (p : P) : Prop where
  root : (br.port p).designatedRoot = br.designatedRoot
  own : brIsDesignatedPort br p → (br.port p).designatedCost = br.rootPathCost
  order : (br.port p).record ≤ br.claim p

structure Stable (br : NetBridge P) : Prop where
  root : RootFrom br br
  port : ∀ p ∈ br.portList, (br.port p).state ≠ .disabled → Elected br p

theorem RootFrom.congr (h : RootFrom a a) (hlist : b.portList = a.portList)
    (hcand : ∀ p ∈ a.portList, Candidate b p ↔ Candidate a p)
    (hport : ∀ p, Candidate a p → (b.port p).portNo = (a.port p).portNo ∧ (b.port p).rootVector = (a.port p).rootVector ∧
      (b.port p).designatedRoot = (a.port p).designatedRoot ∧ (b.port p).cost = (a.port p).cost)
    (hrp : b.rootPort = a.rootPort) (hroot : b.designatedRoot = a.designatedRoot)
    (hcost : b.rootPathCost = a.rootPathCost) (hid : b.bridgeId = a.bridgeId) : RootFrom b b := by
  cases h with
  | own hnone hport' hroot' hcost' =>
      refine .own (fun p hp hc => ?_) (hrp.trans hport') (hroot.trans (hroot'.trans hid.symm)) (hcost.trans hcost')
      exact hnone p (hlist ▸ hp) ((hcand p (hlist ▸ hp)).mp hc)
  | port p hp hc hbest hport' hroot' hcost' =>
      obtain ⟨hno, hvec, hdes, hpath⟩ := hport p hc
      refine .port p (hlist ▸ hp) ((hcand p hp).mpr hc) (fun q hq hcq => ?_) (by rw [hrp, hport', hno])
        (by rw [hroot, hroot', hdes]) (by rw [hcost, hcost', hpath])
      have hcq' := (hcand q (hlist ▸ hq)).mp hcq
      rw [hvec, (hport q hcq').2.1]
      exact hbest q (hlist ▸ hq) hcq'

theorem Config.cost_eq (h : b.config = a.config) (p : P) : (b.port p).cost = (a.port p).cost := by
  rw [NetBridgePort.cost, NetBridgePort.cost, Config.designatedCost_eq h, Config.pathCost_eq h]

theorem Config.rootVector_eq (h : b.config = a.config) (p : P) : (b.port p).rootVector = (a.port p).rootVector := by
  rw [NetBridgePort.rootVector, NetBridgePort.rootVector, Config.designatedRoot_eq h, Config.cost_eq h,
    Config.designatedBridge_eq h, Config.designatedPort_eq h, Config.portId_eq h]

theorem Elected.of_config (h : b.config = a.config) (he : Elected a p) : Elected b p where
  root := by
    rw [Config.designatedRoot_eq h, Config.root_eq h]
    exact he.root
  own := by
    rw [Config.brIsDesignatedPort_eq h, Config.designatedCost_eq h, Config.rootPathCost_eq h]
    exact he.own
  order := by
    have horder := he.order
    rwa [NetBridgePort.record, NetBridge.claim, Config.designatedCost_eq h, Config.designatedBridge_eq h,
      Config.designatedPort_eq h, Config.rootPathCost_eq h, Config.bridgeId_eq h, Config.portId_eq h]

theorem Stable.of_config (h : b.config = a.config) (hs : Stable a) : Stable b where
  root := hs.root.congr (Config.portList_eq h) (fun p _ => ⟨fun hc => hc.of_config h.symm, fun hc => hc.of_config h⟩)
    (fun p _ => ⟨Config.portNo_eq h p, Config.rootVector_eq h p, Config.designatedRoot_eq h p, Config.cost_eq h p⟩)
    (Config.rootPort_eq h) (Config.root_eq h) (Config.rootPathCost_eq h) (Config.bridgeId_eq h)
  port := by
    intro p hp hen
    exact (hs.port p (Config.portList_eq h ▸ hp) fun hd => hen ((Config.disabled_iff h p).mpr hd)).of_config h

end

section

variable {P : Type} [DecidableEq P] {a b br : NetBridge P} {p : P}

theorem Updated.elected (h : Updated a b) (hp : p ∈ a.portList) (hen : (a.port p).state ≠ .disabled) : Elected b p := by
  have hport := h.port p
  rw [if_pos hp, elect] at hport
  split at hport
  · have hdes : (b.port p).designatedBridge = b.bridgeId := by rw [hport, h.bridgeId]
    refine ⟨by rw [hport], fun _ => by rw [hport], le_of_eq ?_⟩
    rw [NetBridgePort.record, NetBridge.claim, hdes, hport]
  next hno =>
      have hno := not_and.mp hno hen
      rw [not_or, not_or, not_not] at hno
      obtain ⟨hundes, hroot, horder⟩ := hno
      refine ⟨by rw [hport, hroot], fun hd => absurd ?_ hundes, not_lt.mp fun hlt => horder ?_⟩
      · rw [brIsDesignatedPort, hport, h.bridgeId, decide_eq_true_eq] at hd
        exact hd
      · rw [NetBridge.claim, NetBridgePort.record, toLex_lt, toLex_lt, hport, h.bridgeId] at hlt
        rwa [then_lt, then_lt, compare_lt_iff_lt]

theorem Updated.stable (h : Updated a b) (hc : Costs a) : Stable b where
  root := by
    cases h.root with
    | own hnone hport hroot hcost =>
        refine .own (fun p hp hcand => ?_) hport (hroot.trans h.bridgeId.symm) hcost
        exact hnone p (h.portList ▸ hp) (h.candidate hcand).2
    | port p hp hcand hbest hport hroot hcost =>
        have hsame := h.root_same hc hp hcand hroot hcost
        refine .port p (h.portList ▸ hp) (hcand.of_port hsame h.bridgeId) (fun q hq hcq => ?_) (by rw [hport, hsame])
          (by rw [hroot, hsame]) (by rw [hcost, hsame])
        obtain ⟨hsameq, hcq'⟩ := h.candidate hcq
        rw [hsame, hsameq]
        exact hbest q (h.portList ▸ hq) hcq'
  port := by
    intro p hp hen
    exact h.elected (h.portList ▸ hp) (h.state p ▸ hen)

theorem stable_brInitPort (hs : Stable br) (hd : (br.port p).state = .disabled) : Stable (brInitPort br p) where
  root := by
    have hport {q : P} (hc : Candidate br q) : (brInitPort br p).port q = br.port q :=
      brInitPort_port_of_ne fun h => hc.enabled (h ▸ hd)
    refine hs.root.congr rfl (fun q _ => ⟨fun hc => ?_, fun hc => hc.of_port (hport hc) rfl⟩)
      (fun q hc => by rw [hport hc]; exact ⟨rfl, rfl, rfl, rfl⟩) rfl rfl rfl rfl
    have hqp : q ≠ p := fun h => hc.undesignated (h ▸ brInitPort_designated)
    exact hc.of_port (brInitPort_port_of_ne hqp).symm rfl
  port := by
    intro q hq hen
    by_cases hqp : q = p
    · subst hqp
      have hport : brIsDesignatedPort (brInitPort br q) q := brInitPort_designated
      have hdes := of_decide_eq_true hport
      have hself : ((brInitPort br q).port q).designatedRoot = br.designatedRoot ∧
          ((brInitPort br q).port q).designatedCost = br.rootPathCost := by
        rw [brInitPort, setPort_port_self, brBecomeDesignatedPort, setPort_port_self]
        exact ⟨rfl, rfl⟩
      refine ⟨hself.1, fun _ => hself.2, le_of_eq ?_⟩
      rw [NetBridgePort.record, NetBridge.claim, hdes.1, hdes.2, hself.2]
      rfl
    · have hport : (brInitPort br p).port q = br.port q := brInitPort_port_of_ne hqp
      obtain ⟨hroot, hown, horder⟩ := hs.port q hq (hport ▸ hen)
      refine ⟨by rw [hport]; exact hroot, fun h => ?_, ?_⟩
      · rw [hport]
        rw [brIsDesignatedPort, hport] at h
        exact hown h
      · rw [NetBridge.claim, hport]
        exact horder

end

/-- Bridges `B` with ports `P` that are connected to LANs `L`, as they are set up. -/
structure Net (B P L : Type) where
  id : B → BridgeId
  ports : B → List P
  lan : B → P → L
  cost : B → P → UInt32
  priority : B → P → UInt8
  portNo : B → P → UInt16
  id_injective : Function.Injective id
  portNo_lt : ∀ i, ∀ p ∈ ports i, (portNo i p).toNat < 1024

namespace Net

variable {B P L : Type}

def portId (N : Net B P L) (i : B) (p : P) : UInt16 := brMakePortId (N.priority i p) (N.portNo i p)

def Meets (N : Net B P L) (i : B) (p : P) (j : B) (q : P) : Prop :=
  p ∈ N.ports i ∧ q ∈ N.ports j ∧ N.lan i p = N.lan j q

/-- A way over the LANs from the bridge `k`, with the costs of the ports at
which it comes in. -/
inductive Walk (N : Net B P L) (k : B) : B → ℕ → Prop
  | start : Walk N k k 0
  | hop {i j : B} {p q : P} {c : ℕ} (h : Walk N k j c) (hmeets : N.Meets i p j q) : Walk N k i (c + (N.cost i p).toNat)

/-- A BPDU that the bridge `i` may send from its port `p`: its root is a
bridge, and its cost is that of a way from there. -/
structure Honest (N : Net B P L) (i : B) (p : P) (bpdu : BrConfigBpdu) : Prop where
  mem : p ∈ N.ports i
  bridge : bpdu.bridgeId = N.id i
  port : bpdu.portId = N.portId i p
  root : ∃ k, bpdu.root = N.id k ∧ N.Walk k i bpdu.rootPathCost.toNat

end Net

section

variable {B P L : Type} {N : Net B P L} {i : B} {a b br : NetBridge P} {p : P}

/-- The bridge is set up as the bridge `i`. -/
structure Wired (N : Net B P L) (i : B) (br : NetBridge P) : Prop where
  id : br.bridgeId = N.id i
  ports : br.portList = N.ports i
  cost : ∀ p, (br.port p).pathCost = N.cost i p
  portId : ∀ p, (br.port p).portId = N.portId i p
  portNo : ∀ p, (br.port p).portNo = N.portNo i p
  priority : ∀ p, (br.port p).priority = N.priority i p

structure Sound (N : Net B P L) (i : B) (br : NetBridge P) : Prop where
  root : ∃ k, br.designatedRoot = N.id k ∧ N.Walk k i br.rootPathCost.toNat
  port : ∀ p ∈ br.portList, (br.port p).state ≠ .disabled → ∃ k j q, (br.port p).designatedRoot = N.id k ∧
    N.Walk k j (br.port p).designatedCost.toNat ∧ N.Meets i p j q
  sent : ∀ m ∈ br.sent, ∃ devAddr, m.2 = bpduFrame devAddr tcnBytes ∨
    ∃ bpdu, m.2 = bpduFrame devAddr (configBytes bpdu) ∧ N.Honest i m.1 bpdu

theorem Wired.of_config (hw : Wired N i a) (h : b.config = a.config) : Wired N i b where
  id := (Config.bridgeId_eq h).trans hw.id
  ports := (Config.portList_eq h).trans hw.ports
  cost := fun p => (Config.pathCost_eq h p).trans (hw.cost p)
  portId := fun p => (Config.portId_eq h p).trans (hw.portId p)
  portNo := fun p => (Config.portNo_eq h p).trans (hw.portNo p)
  priority := fun p => (Config.priority_eq h p).trans (hw.priority p)

theorem Sound.quiet (hs : Sound N i a) (hw : Wired N i a) (h : Quiet a b) : Sound N i b where
  root := by
    rw [Config.root_eq h.config, Config.rootPathCost_eq h.config]
    exact hs.root
  port := by
    intro p hp hen
    rw [Config.designatedRoot_eq h.config, Config.designatedCost_eq h.config]
    exact hs.port p (Config.portList_eq h.config ▸ hp) fun hd => hen ((Config.disabled_iff h.config p).mpr hd)
  sent := by
    obtain ⟨new, hnew, hann⟩ := h.sent
    intro m hm
    rw [hnew] at hm
    rcases List.mem_append.mp hm with hm | hm
    · exact hs.sent m hm
    · obtain ⟨hmem, devAddr, htcn | ⟨bpdu, hframe, hroot, hcost, hid, hport⟩⟩ := hann m hm
      · exact ⟨devAddr, .inl htcn⟩
      · obtain ⟨k, hk, hwalk⟩ := hs.root
        exact ⟨devAddr, .inr ⟨bpdu, hframe, ⟨hw.ports ▸ hmem, hid.trans hw.id, hport.trans (hw.portId m.1),
          k, hroot.trans hk, hcost ▸ hwalk⟩⟩⟩

structure Good (N : Net B P L) (i : B) (br : NetBridge P) : Prop where
  tended : Tended br
  stable : Stable br
  wired : Wired N i br
  sound : Sound N i br

theorem Good.quiet (hg : Good N i a) (h : Quiet a b) : Good N i b :=
  ⟨hg.tended.quiet h, hg.stable.of_config h.config, hg.wired.of_config h.config, hg.sound.quiet hg.wired h⟩

theorem Good.withFlags (hg : Good N i br) (up stp : Bool) : Good N i { br with up := up, stpEnabled := stp } where
  tended := hg.tended.withFlags up stp
  stable := by
    refine ⟨hg.stable.root.congr rfl (fun p _ => ⟨fun hc => hc.of_port rfl rfl, fun hc => hc.of_port rfl rfl⟩)
      (fun p _ => ⟨rfl, rfl, rfl, rfl⟩) rfl rfl rfl rfl, fun p hp hen => ?_⟩
    obtain ⟨hroot, hown, horder⟩ := hg.stable.port p hp hen
    exact ⟨hroot, hown, horder⟩
  wired := ⟨hg.wired.id, hg.wired.ports, hg.wired.cost, hg.wired.portId, hg.wired.portNo, hg.wired.priority⟩
  sound := ⟨hg.sound.root, hg.sound.port, hg.sound.sent⟩

end

section

variable {B P L : Type} [DecidableEq P] {N : Net B P L} {i : B} {a b br : NetBridge P} {p : P}
  {f : NetBridgePort → NetBridgePort}

theorem Wired.updated (hw : Wired N i a) (h : Updated a b) : Wired N i b where
  id := h.bridgeId.trans hw.id
  ports := h.portList.trans hw.ports
  cost := fun p => (h.pathCost p).trans (hw.cost p)
  portId := fun p => (h.portId p).trans (hw.portId p)
  portNo := fun p => (h.portNo p).trans (hw.portNo p)
  priority := fun p => (h.priority p).trans (hw.priority p)

theorem Sound.updated (hs : Sound N i a) (hw : Wired N i a) (hc : Costs a) (h : Updated a b) : Sound N i b := by
  have hroot : ∃ k, b.designatedRoot = N.id k ∧ N.Walk k i b.rootPathCost.toNat := by
    cases h.root with
    | own hnone hport hroot hcost => exact ⟨i, hroot.trans hw.id, hcost ▸ .start⟩
    | port p hp hcand hbest hport hroot hcost =>
        obtain ⟨k, j, q, hk, hwalk, hmeets⟩ := hs.port p hp hcand.enabled
        refine ⟨k, hroot.trans hk, ?_⟩
        rw [hcost, cost_toNat (hc.bounded p hp hcand.enabled hcand.undesignated), hw.cost]
        exact hwalk.hop hmeets
  refine ⟨hroot, fun p hp hen => ?_, h.sent ▸ hs.sent⟩
  have hmem : p ∈ a.portList := h.portList ▸ hp
  have hself : N.Meets i p i p := ⟨hw.ports ▸ hmem, hw.ports ▸ hmem, rfl⟩
  rw [h.port, if_pos hmem]
  rcases elect_cases b.designatedRoot b.rootPathCost a.bridgeId (a.port p) with heq | heq
  · rw [heq]
    exact hs.port p hmem (h.state p ▸ hen)
  · rw [heq]
    obtain ⟨k, hk, hwalk⟩ := hroot
    exact ⟨k, i, p, hk, hwalk, hself⟩

theorem Good.of_updated {c : NetBridge P} (hs : Sound N i a) (hw : Wired N i a) (hc : Costs a) (hu : Updated a b)
    (hq : Quiet b c) (ht : Tended c) : Good N i c where
  tended := ht
  stable := (hu.stable hc).of_config hq.config
  wired := (hw.updated hu).of_config hq.config
  sound := (hs.updated hw hc hu).quiet (hw.updated hu) hq

variable (jiffies : UInt32)

theorem Good.reconfigure (hg : Good N i br) (hn : Numbered a) (hc : Costs a) (hs : Sound N i a) (hw : Wired N i a)
    (htcn : a.tcnTimer = br.tcnTimer) : Yields (Good N i) (brReconfigure jiffies a (brIsRootBridge br)) := by
  obtain ⟨c, heq, ht, -⟩ := tended_brReconfigure jiffies hn hc (brIsRootBridge br) (htcn ▸ hg.tended.not_pending)
  obtain ⟨b, c', heq', hu, hq, -, -⟩ := brReconfigure_spec jiffies hn (brIsRootBridge br)
  rw [heq] at heq'
  cases heq'
  exact ⟨c, heq, .of_updated hs hw hc hu hq ht⟩

theorem Wired.setPort (hw : Wired N i br)
    (hcost : (f (br.port p)).pathCost = (br.port p).pathCost) (hid : (f (br.port p)).portId = (br.port p).portId)
    (hno : (f (br.port p)).portNo = (br.port p).portNo) (hprio : (f (br.port p)).priority = (br.port p).priority) :
    Wired N i (setPort br p f) where
  id := hw.id
  ports := hw.ports
  cost := fun q => (setPort_field (·.pathCost) hcost q).trans (hw.cost q)
  portId := fun q => (setPort_field (·.portId) hid q).trans (hw.portId q)
  portNo := fun q => (setPort_field (·.portNo) hno q).trans (hw.portNo q)
  priority := fun q => (setPort_field (·.priority) hprio q).trans (hw.priority q)

theorem Sound.setPort (hs : Sound N i br)
    (hp : p ∈ br.portList → (f (br.port p)).state ≠ .disabled → ∃ k j q, (f (br.port p)).designatedRoot = N.id k ∧
      N.Walk k j (f (br.port p)).designatedCost.toNat ∧ N.Meets i p j q) : Sound N i (setPort br p f) := by
  refine ⟨hs.root, fun q hq hen => ?_, hs.sent⟩
  by_cases hqp : q = p
  · subst hqp
    rw [setPort_port_self] at hen ⊢
    exact hp hq hen
  · rw [setPort_port_of_ne f hqp] at hen ⊢
    exact hs.port q hq hen

theorem Sound.brBecomeDesignatedPort (hs : Sound N i br) (hw : Wired N i br) (p : P) :
    Sound N i (brBecomeDesignatedPort br p) := by
  refine hs.setPort fun hp _ => ?_
  obtain ⟨k, hk, hwalk⟩ := hs.root
  exact ⟨k, i, p, hk, hwalk, hw.ports ▸ hp, hw.ports ▸ hp, rfl⟩

theorem Wired.brBecomeDesignatedPort (hw : Wired N i br) (p : P) : Wired N i (brBecomeDesignatedPort br p) :=
  hw.setPort rfl rfl rfl rfl

theorem good_brStpDisablePort (hg : Good N i br) (p : P) : Yields (Good N i) (brStpDisablePort jiffies br p) := by
  have hw : Wired N i (shutPort br p) := (hg.wired.brBecomeDesignatedPort p).setPort rfl rfl rfl rfl
  have hs : Sound N i (shutPort br p) :=
    (hg.sound.brBecomeDesignatedPort hg.wired p).setPort fun _ hen => absurd rfl hen
  exact hg.reconfigure jiffies (numbered_shutPort hg.tended.sane.numbered p) (costs_shutPort hg.tended.costs p) hs hw rfl

theorem good_brInitPort (hg : Good N i br) (hd : (br.port p).state = .disabled) : Good N i (brInitPort br p) := by
  let b := setPort br p fun q => { q with portId := brMakePortId q.priority q.portNo }
  have hid : brMakePortId (br.port p).priority (br.port p).portNo = (br.port p).portId := by
    rw [hg.wired.priority, hg.wired.portNo, hg.wired.portId, Net.portId]
  have hwb : Wired N i b := hg.wired.setPort rfl hid rfl rfl
  have hsb : Sound N i b := hg.sound.setPort fun _ hen => absurd hd hen
  refine ⟨tended_brInitPort hg.tended hd, stable_brInitPort hg.stable hd, ?_, ?_⟩
  · rw [brInitPort]
    exact (hwb.brBecomeDesignatedPort p).setPort rfl rfl rfl rfl
  · rw [brInitPort]
    refine (hsb.brBecomeDesignatedPort hwb p).setPort fun hp _ => ?_
    obtain ⟨k, hk, hwalk⟩ := hg.sound.root
    rw [brBecomeDesignatedPort, setPort_port_self]
    exact ⟨k, i, p, hk, hwalk, hg.wired.ports ▸ hp, hg.wired.ports ▸ hp, rfl⟩

theorem good_brMessageAgeTimerExpired (hg : Good N i br) (p : P) :
    Yields (Good N i) (brMessageAgeTimerExpired jiffies br p) := by
  rw [brMessageAgeTimerExpired]
  split
  · exact ⟨br, rfl, hg⟩
  · have hn : Numbered (brBecomeDesignatedPort br p) := numbered_setPort rfl hg.tended.sane.numbered
    exact hg.reconfigure jiffies hn (costs_brBecomeDesignatedPort hg.tended.costs p)
      (hg.sound.brBecomeDesignatedPort hg.wired p) (hg.wired.brBecomeDesignatedPort p) rfl

theorem good_brReceivedConfigBpdu (hg : Good N i br) (hdown : ¬ br.up → AllDown br) (hp : p ∈ br.portList)
    {bpdu : BrConfigBpdu} (hf : Foreign br p bpdu)
    (htrue : ∃ k j q, bpdu.root = N.id k ∧ N.Walk k j bpdu.rootPathCost.toNat ∧ N.Meets i p j q) :
    Yields (Good N i) (brReceivedConfigBpdu jiffies br p bpdu) := by
  obtain ⟨c, hc, hsc⟩ := safe_brReceivedConfigBpdu jiffies ⟨hg.tended, hdown⟩ hp hf
  rcases brReceivedConfigBpdu_spec jiffies hg.tended.sane hp bpdu with ⟨-, b, c', hc', hu, hq, -⟩ | ⟨-, hquiet⟩
  · rw [hc] at hc'
    cases hc'
    have hcosts := costs_brRecordConfigInformation jiffies hg.tended.costs hf
    have hs : Sound N i (brRecordConfigInformation jiffies br p bpdu) := hg.sound.setPort fun _ _ => htrue
    have hw : Wired N i (brRecordConfigInformation jiffies br p bpdu) := hg.wired.setPort rfl rfl rfl rfl
    exact ⟨c, hc, .of_updated hs hw hcosts hu hq hsc.toTended⟩
  · exact hquiet.yields fun _ => hg.quiet

theorem Good.setPort_state (hg : Good N i br)
    (hconfig : (f (br.port p)).config = (br.port p).config) (hrole : HasRole br p) : Good N i (setPort br p f) := by
  have hc : (setPort br p f).config = br.config := config_setPort hconfig
  refine ⟨hg.tended.setPort_state hconfig hrole, hg.stable.of_config hc, hg.wired.of_config hc,
    hg.sound.setPort fun hp hen => ?_⟩
  have hroot : (f (br.port p)).designatedRoot = (br.port p).designatedRoot := congrArg PortConfig.designatedRoot hconfig
  have hcost : (f (br.port p)).designatedCost = (br.port p).designatedCost := congrArg PortConfig.designatedCost hconfig
  rw [hroot, hcost]
  refine hg.sound.port p hp fun hd => hen ?_
  have hstate := (Config.disabled_iff hc p).mpr hd
  rwa [setPort_port_self] at hstate

theorem good_upkeep : Upkeep True jiffies (Good N i) where
  sane := fun hg => hg.tended.sane
  quiet := Good.quiet
  flags := fun up stp hg => hg.withFlags up stp
  move := Good.setPort_state
  init := fun hg hd => good_brInitPort hg (hd trivial)
  shut := fun p hg => good_brStpDisablePort jiffies hg p

end

namespace Net

variable {B P L : Type} (N : Net B P L)

/-- The bridges are set up and down, and nothing has been sent. -/
def Start (s : B → NetBridge P) : Prop := ∀ i, Safe (s i) ∧ ¬ (s i).up ∧ (s i).sent = [] ∧ Wired N i (s i)

/-- What can happen to the bridge `i` when the set-up stays as it is. A frame
comes from another port on the same LAN; it may have been sent at any time
before, and may arrive more than once or not at all. -/
def Allowed (s : B → NetBridge P) (i : B) : Event P → Prop
  | .frame p data => ∃ j, ∃ m ∈ (s j).sent, N.lan i p = N.lan j m.1 ∧ ¬ (j = i ∧ m.1 = p) ∧ data = m.2.drop 14 ∧
      ∀ bpdu, readBpdu data = some (.config bpdu) → bpdu.rootPathCost.toNat + (N.cost i p).toNat < 4294967296
  | .device p (.up _) => ((s i).port p).state = .disabled
  | .device _ (.changeAddr _) | .addIf .. | .delIf _ | .setBridgePriority _ | .setPortPriority .. | .setPathCost .. => False
  | _ => True

inductive Step [DecidableEq B] [DecidableEq P] (s : B → NetBridge P) : (B → NetBridge P) → Prop
  | event (i : B) (jiffies : UInt32) (e : Event P) {br : NetBridge P} (henabled : Enabled jiffies (s i) e)
      (hallowed : N.Allowed s i e) (hstep : step jiffies (s i) e = some br) : Step s (Function.update s i br)

end Net

theorem brMakePortId_mod {n : UInt16} (hn : n.toNat < 1024) (priority : UInt8) :
    (brMakePortId priority n).toNat % 1024 = n.toNat := by
  have hprio : priority.toNat * 1024 % 65536 < 2 ^ 16 := Nat.mod_lt _ (by decide)
  have hno : n.toNat % 1024 < 2 ^ 16 := by omega
  rw [brMakePortId, UInt16.toNat_ofNat_of_lt' (Nat.or_lt_two_pow hprio hno), show 1024 = 2 ^ 10 from rfl, Nat.or_mod_two_pow]
  have hhigh : priority.toNat * 2 ^ 10 % 65536 % 2 ^ 10 = 0 := by omega
  rw [hhigh, Nat.zero_or]
  omega

section

variable {B P L : Type} {N : Net B P L} {s : B → NetBridge P} {i : B} {p q : P}

theorem Net.portNo_of_portId (hp : p ∈ N.ports i) (hq : q ∈ N.ports i) (h : N.portId i p = N.portId i q) :
    N.portNo i p = N.portNo i q := by
  rw [Net.portId, Net.portId] at h
  have hmod := brMakePortId_mod (N.portNo_lt i p hp) (N.priority i p)
  rw [h, brMakePortId_mod (N.portNo_lt i q hq)] at hmod
  exact (UInt16.toNat_inj.mp hmod).symm

theorem good_start (h : N.Start s) (i : B) : Good N i (s i) := by
  obtain ⟨hs, hdown, hsent, hw⟩ := h i
  have hall := hs.down hdown
  have h0 : (s i).rootPort = 0 := by
    by_contra hne
    obtain ⟨p, hp, -, hcand, -⟩ := hs.led hne
    exact hcand.enabled (hall p hp)
  have hroot := hs.sane.root.own h0
  have hcost := hs.sane.root.cost h0
  refine ⟨hs.toTended, ⟨.own (fun p hp hcand => hcand.enabled (hall p hp)) h0 hroot hcost,
    fun p hp hen => absurd (hall p hp) hen⟩, hw, ⟨⟨i, hroot.trans hw.id, hcost ▸ .start⟩,
    fun p hp hen => absurd (hall p hp) hen, fun m hm => ?_⟩⟩
  rw [hsent] at hm
  exact absurd hm List.not_mem_nil

theorem Net.Allowed.honest (hg : ∀ i, Good N i (s i)) {data : List UInt8} (hp : p ∈ (s i).portList)
    (h : N.Allowed s i (.frame p data)) {bpdu : BrConfigBpdu} (hread : readBpdu data = some (.config bpdu)) :
    Foreign (s i) p bpdu ∧ ∃ k j q, bpdu.root = N.id k ∧ N.Walk k j bpdu.rootPathCost.toNat ∧ N.Meets i p j q := by
  obtain ⟨j, m, hm, hlan, hother, rfl, hbound⟩ := h
  obtain ⟨devAddr, htcn | ⟨sent, hframe, hmem, hbridge, hport, k, hroot, hwalk⟩⟩ := (hg j).sound.sent m hm
  · rw [htcn, readBpdu_tcn] at hread
    cases hread
  · have hb := hbound bpdu hread
    rw [hframe, readBpdu_config] at hread
    have hsame := Message.config.inj (Option.some.inj hread)
    obtain ⟨hroot', hcost', hbridge', hport'⟩ := sent.received_ids
    rw [hsame] at hroot' hcost' hbridge' hport'
    have hw := (hg i).wired
    have hpi : p ∈ N.ports i := hw.ports ▸ hp
    refine ⟨⟨fun ⟨hid, hno⟩ => hother ?_, by rw [hw.cost]; exact hb⟩, k, j, m.1, hroot'.trans hroot, hcost' ▸ hwalk, hpi,
      hmem, hlan⟩
    -- one bridge, and then one number
    have hji : j = i := N.id_injective (hbridge.symm.trans (hbridge'.symm.trans (hid.trans hw.id)))
    subst hji
    have hno := Net.portNo_of_portId hmem hpi (hport.symm.trans (hport'.symm.trans (hno.trans (hw.portId p))))
    refine ⟨rfl, (hg j).tended.sane.numbered.inj m.1 (hw.ports ▸ hmem) p hp ?_⟩
    rw [hw.portNo, hw.portNo, hno]

end

section

variable {B P L : Type} [DecidableEq P] {N : Net B P L} {s : B → NetBridge P} {i : B}

theorem good_step (jiffies : UInt32) (hg : ∀ i, Good N i (s i)) (hdown : ¬ (s i).up → AllDown (s i)) {e : Event P}
    (he : Enabled jiffies (s i) e) (ha : N.Allowed s i e) :
    ∃ c, step jiffies (s i) e = some c ∧ Good N i c ∧ (¬ c.up → AllDown c) := by
  have hgi := hg i
  -- the bridge on its own
  have hfair : Fair (s i) e := by
    cases e with
    | frame p data => exact fun bpdu hread => (ha.honest hg he hread).1
    | device p e =>
        cases e with
        | up carrier => exact ha
        | changeAddr addr => exact ha.elim
        | change | down => trivial
    | addIf | setPortPriority | setPathCost => exact ha.elim
    | _ => trivial
  obtain ⟨c, hc, hsc⟩ := safe_step jiffies ⟨hgi.tended, hdown⟩ he hfair
  -- and what it knows of the others
  have hgood : Yields (Good N i) (step jiffies (s i) e) := by
    have hkeep := good_upkeep (N := N) (i := i) jiffies
    cases e with
    | frame p data =>
        refine brStpHandleBpdu_rule jiffies ⟨s i, rfl, hgi⟩ (fun bpdu hread => ?_) ?_
        · obtain ⟨hforeign, htrue⟩ := ha.honest hg he hread
          exact good_brReceivedConfigBpdu jiffies hgi hdown he hforeign htrue
        · exact (quiet_brReceivedTcnBpdu jiffies hgi.tended.sane he).yields fun _ => hgi.quiet
    | tcnTimer => exact (quiet_tcnTimer jiffies hgi.tended he.1).yields fun _ => hgi.quiet
    | messageAgeTimer p => exact good_brMessageAgeTimerExpired jiffies (hgi.quiet (quiet_setPort rfl rfl)) p
    | forwardDelayTimer p =>
        have hfired : Good N i (setPort (s i) p fun q => { q with forwardDelayTimer := delTimer q.forwardDelayTimer }) :=
          hgi.quiet (quiet_setPort rfl rfl)
        obtain ⟨c, hc, hgc, -⟩ := hkeep.forwardDelay hfired he.1
        exact ⟨c, hc, hgc⟩
    | device p e =>
        refine hkeep.deviceEvent hgi hgi (fun _ h _ => h) (fun _ carrier h => ?_) fun addr h => ?_
        · subst h
          exact ha
        · subst h
          exact ha.elim
    | devOpen ready =>
        obtain ⟨c, hc, hgc, -⟩ := hkeep.devOpen hgi ready fun _ => hdown he
        exact ⟨c, hc, hgc⟩
    | devStop =>
        obtain ⟨c, hc, hgc, -⟩ := hkeep.devStop hgi
        exact ⟨c, hc, hgc⟩
    | setStpState on => exact ⟨_, rfl, hgi.withFlags (s i).up on⟩
    | helloTimer | topologyChangeTimer | holdTimer | setForwardDelay | setHelloTime | setMaxAge =>
        exact (quiet_step jiffies hgi.tended.sane.known he trivial).yields fun _ => hgi.quiet
    | addIf | delIf | setBridgePriority | setPortPriority | setPathCost => exact ha.elim
  obtain ⟨c', hc', hgc⟩ := hgood
  have heq : some c = some c' := hc.symm.trans hc'
  cases heq
  exact ⟨c, hc, hgc, hsc.down⟩

theorem good_of_reach [DecidableEq B] (h : Transition.Reach N.Start N.Step s) :
    ∀ i, Good N i (s i) ∧ (¬ (s i).up → AllDown (s i)) := by
  induction h with
  | start h => exact fun i => ⟨good_start h i, fun hdown => (h i).1.down hdown⟩
  | next _ hstep ih =>
      cases hstep with
      | event i jiffies e henabled hallowed hstep =>
          obtain ⟨c, hc, hgc, hdown⟩ := good_step jiffies (fun i => (ih i).1) (ih i).2 henabled hallowed
          rw [hc] at hstep
          cases hstep
          intro j
          by_cases hj : j = i
          · subst hj
            rw [Function.update_self]
            exact ⟨hgc, hdown⟩
          · rw [Function.update_of_ne hj]
            exact ih j

/-- Frames may be lost, delayed or repeated: a bridge never takes a root that
is no bridge, nor a cost that no way has. The bridge with the lowest id always
is the root to itself, and no event fails anywhere. -/
theorem network_knows_true_roots [DecidableEq B] (h : Transition.Reach N.Start N.Step s) (i : B) :
    (∃ k, (s i).designatedRoot = N.id k ∧ N.Walk k i (s i).rootPathCost.toNat ∧ N.id k ≤ N.id i) ∧
      ((∀ k, N.id i ≤ N.id k) → brIsRootBridge (s i) ∧ (s i).rootPort = 0) ∧
      ∀ (jiffies : UInt32) (e : Event P), Enabled jiffies (s i) e → (step jiffies (s i) e).isSome := by
  have hg := (good_of_reach h i).1
  obtain ⟨k, hk, hwalk⟩ := hg.sound.root
  have hsane := hg.tended.sane
  have hiff := hg.tended.led.brIsRootBridge_iff hsane.root
  have hle : N.id k ≤ N.id i := by
    rw [← hk, ← hg.wired.id]
    exact hg.tended.root_le
  refine ⟨⟨k, hk, hwalk, hle⟩, fun hmin => ?_, fun jiffies e he => ?_⟩
  · have hroot : brIsRootBridge (s i) := by
      rw [brIsRootBridge, hk, hg.wired.id, decide_eq_true_eq]
      exact le_antisymm (hmin k) hle
    exact ⟨hroot, hiff.mp hroot⟩
  · exact hg.tended.step_isSome jiffies he

end

def pairId (i : Bool) : BridgeId := ⟨0x8000, if i then 2 else 1⟩

theorem pairId_injective : Function.Injective pairId := by
  intro i j h
  cases i <;> cases j
  · rfl
  · exact absurd h (by decide)
  · exact absurd h (by decide)
  · rfl

def pairNet : Net Bool Unit Unit where
  id := pairId
  ports := fun _ => [()]
  lan := fun _ _ => ()
  cost := fun _ _ => 100
  priority := fun _ _ => 32
  portNo := fun _ _ => 1
  id_injective := pairId_injective
  portNo_lt := fun _ _ _ => Nat.one_lt_succ_succ 1022

def portedBridge (devAddr : BitVec 48) : NetBridge Unit :=
  after 0 (newBridgeDev fun _ => newNbp 0 0 0) (.addIf () devAddr 100 false)

def pairStart (i : Bool) : NetBridge Unit := setStpState (portedBridge (if i then 2 else 1)) true

theorem pairStart_safe (i : Bool) : Safe (pairStart i) := by
  have hnew : Transition.Reach (fun s : Clocked Unit => ∃ port, s.br = newBridgeDev port) Clocked.FairStep
      ⟨0, newBridgeDev fun _ => newNbp 0 0 0⟩ := .start ⟨_, rfl⟩
  have hported := hnew.next (.event (.addIf () (if i then 2 else 1) 100 false) le_rfl (List.not_mem_nil (a := ()))
    (by decide : 0 < (100 : UInt32).toNat) (step_after (by cases i <;> decide)))
  exact safe_of_fair (hported.next (.event (.setStpState true) le_rfl trivial trivial rfl))

theorem pairStart_start : pairNet.Start pairStart := by
  intro i
  refine ⟨pairStart_safe i, ?_, ?_, ?_⟩
  · cases i <;> decide
  · cases i <;> decide
  · cases i <;> exact ⟨by decide, by decide, fun () => by decide, fun () => by decide, fun () => by decide, fun () => by decide⟩

def pairAfter (s : Bool → NetBridge Unit) (i : Bool) (jiffies : UInt32) (e : Event Unit) : Bool → NetBridge Unit :=
  Function.update s i (after jiffies (s i) e)

def pairOpened : Bool → NetBridge Unit :=
  pairAfter (pairAfter pairStart false 0 (.devOpen fun _ => true)) true 0 (.devOpen fun _ => true)

def pairGreeted : Bool → NetBridge Unit := pairAfter pairOpened false 400 .helloTimer

def pairHello : Unit × List UInt8 := (pairGreeted false).sent.getLastD ((), [])

def pairSettled : Bool → NetBridge Unit := pairAfter pairGreeted true 401 (.frame () (pairHello.2.drop 14))

def messageCost : Message → UInt32
  | .config bpdu => bpdu.rootPathCost
  | .tcn => 0

theorem pairSettled_reached : Transition.Reach pairNet.Start pairNet.Step pairSettled := by
  have hstart : Transition.Reach pairNet.Start pairNet.Step pairStart := .start pairStart_start
  have hfirst := hstart.next (.event false 0 (.devOpen fun _ => true) (by decide : ¬ (pairStart false).up) trivial
    (step_after (by decide)))
  have hopened : Transition.Reach pairNet.Start pairNet.Step pairOpened := hfirst.next (.event true 0
    (.devOpen fun _ => true) (by decide : ¬ (pairAfter pairStart false 0 _ true).up) trivial (step_after (by decide)))
  have hgreeted : Transition.Reach pairNet.Start pairNet.Step pairGreeted := hopened.next (.event false 400 .helloTimer
    (by decide : Due 400 (pairOpened false).helloTimer) trivial (step_after (by decide)))
  refine hgreeted.next (.event true 401 (.frame () (pairHello.2.drop 14)) (by decide : () ∈ (pairGreeted true).portList)
    ⟨false, pairHello, by decide, rfl, by decide, rfl, fun bpdu hread => ?_⟩ (step_after (by decide)))
  have hcost : (readBpdu (pairHello.2.drop 14)).map messageCost = some 0 := by decide
  rw [hread] at hcost
  have hzero : bpdu.rootPathCost = 0 := Option.some.inj hcost
  rw [hzero]
  decide

theorem pairSettled_knows_true_roots :
    (pairSettled true).rootPort = 1 ∧ ∃ k, (pairSettled true).designatedRoot = pairNet.id k ∧
      pairNet.Walk k true (pairSettled true).rootPathCost.toNat ∧ pairNet.id k ≤ pairNet.id true :=
  ⟨by decide, (network_knows_true_roots pairSettled_reached true).1⟩

end AliceModem.Stp
