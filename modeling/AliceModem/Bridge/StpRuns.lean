import AliceModem.Bridge.StpSelection
import AliceModem.Lib.Transition

namespace AliceModem.Stp

open Bpdu Disposal

section

variable {P : Type} {a b br : NetBridge P} {p : P}

/-- The root port is there unless the bridge is the root. -/
structure RootSane (br : NetBridge P) : Prop where
  own : br.rootPort = 0 → br.designatedRoot = br.bridgeId
  cost : br.rootPort = 0 → br.rootPathCost = 0
  port : br.rootPort ≠ 0 → ∃ p ∈ br.portList, (br.port p).portNo = br.rootPort

theorem RootSane.known (h : RootSane br) (hn : Numbered br) : RootKnown br := by
  by_cases h0 : br.rootPort = 0
  · exact .inl (by rw [brIsRootBridge, h.own h0, decide_eq_true rfl])
  · obtain ⟨p, hp, hno⟩ := h.port h0
    exact .inr (by rw [← hno, hn.brGetPort_eq hp]; rfl)

/-- What the bridge makes sure of in every run. -/
structure Sane (br : NetBridge P) : Prop where
  numbered : Numbered br
  root : RootSane br
  settled : ∀ p ∈ br.portList, Settled br p

theorem Sane.known (h : Sane br) : RootKnown br := h.root.known h.numbered

theorem RootSane.of_eq (hr : RootSane a) (hlist : b.portList = a.portList)
    (hno : ∀ p, (b.port p).portNo = (a.port p).portNo) (hport : b.rootPort = a.rootPort)
    (hroot : b.designatedRoot = a.designatedRoot) (hcost : b.rootPathCost = a.rootPathCost)
    (hid : b.bridgeId = a.bridgeId) : RootSane b := by
  refine ⟨fun h0 => ?_, fun h0 => hcost.trans (hr.cost (hport ▸ h0)), fun h0 => ?_⟩
  · rw [hroot, hid]
    exact hr.own (hport ▸ h0)
  · obtain ⟨p, hp, heq⟩ := hr.port (hport ▸ h0)
    exact ⟨p, hlist ▸ hp, by rw [hno, heq, hport]⟩

theorem Quiet.numbered (h : Quiet a b) (hn : Numbered a) : Numbered b :=
  hn.of_eq (Config.portList_eq h.config) (Config.portNo_eq h.config)

theorem Quiet.rootSane (h : Quiet a b) (hr : RootSane a) : RootSane b :=
  hr.of_eq (Config.portList_eq h.config) (Config.portNo_eq h.config) (Config.rootPort_eq h.config)
    (Config.root_eq h.config) (Config.rootPathCost_eq h.config) (Config.bridgeId_eq h.config)

theorem Sane.quiet (hs : Sane a) (h : Quiet a b) : Sane b :=
  ⟨h.numbered hs.numbered, h.rootSane hs.root, fun p hp =>
    h.settled (hs.settled p (Config.portList_eq h.config ▸ hp))⟩

theorem Sane.withFlags (hs : Sane br) (up stp : Bool) : Sane { br with up := up, stpEnabled := stp } :=
  ⟨hs.numbered.of_eq rfl fun _ => rfl, hs.root.of_eq rfl (fun _ => rfl) rfl rfl rfl rfl, hs.settled⟩

theorem Sane.hasRole (hs : Sane br) (hp : p ∈ br.portList) (h1 : (br.port p).state ≠ .disabled)
    (h2 : (br.port p).state ≠ .blocking) : HasRole br p := ((hs.settled p hp).resolve_left h1).resolve_left h2

/-- The function has a result, for which `I` holds. -/
def Yields (I : NetBridge P → Prop) (r : Option (NetBridge P)) : Prop := ∃ c, r = some c ∧ I c

theorem QuietRun.yields {I : NetBridge P → Prop} {r : Option (NetBridge P)} (h : QuietRun a r)
    (hI : ∀ b, Quiet a b → I b) : Yields I r := by
  obtain ⟨c, hc, hq⟩ := h
  exact ⟨c, hc, hI c hq⟩

structure Kept (a b : NetBridge P) : Prop where
  up : b.up = a.up
  portList : b.portList = a.portList
  disabled : ∀ p, (b.port p).state = .disabled ↔ (a.port p).state = .disabled

theorem Kept.of_config (h : b.config = a.config) : Kept a b :=
  ⟨Config.up_eq h, Config.portList_eq h, Config.disabled_iff h⟩

theorem Kept.trans {c : NetBridge P} (hab : Kept a b) (hbc : Kept b c) : Kept a c :=
  ⟨hbc.up.trans hab.up, hbc.portList.trans hab.portList, fun p => (hbc.disabled p).trans (hab.disabled p)⟩

def AllDown (br : NetBridge P) : Prop := ∀ p ∈ br.portList, (br.port p).state = .disabled

theorem Kept.allDown (h : Kept a b) (hdown : AllDown a) : AllDown b :=
  fun p hp => (h.disabled p).mpr (hdown p (h.portList ▸ hp))

theorem Kept.down (h : Kept a b) (hdown : ¬ a.up → AllDown a) : ¬ b.up → AllDown b :=
  fun hb => h.allDown (hdown (h.up ▸ hb))

theorem findPortno_spec {index : UInt16} (h : findPortno br = some index) :
    index ≠ 0 ∧ index.toNat < 1024 ∧ ∀ p ∈ br.portList, (br.port p).portNo ≠ index := by
  obtain ⟨n, hn, rfl⟩ := Option.map_eq_some_iff.mp h
  have hrange := List.mem_range'_1.mp (List.mem_of_find?_eq_some hn)
  have hfree := List.find?_some hn
  have hval : (UInt16.ofNat n).toNat = n := UInt16.toNat_ofNat_of_lt' (by rw [UInt16.size]; omega)
  refine ⟨fun h0 => ?_, by omega, fun p hp heq => ?_⟩
  · have : n = 0 := by rw [← hval, h0]; rfl
    omega
  · rw [List.all_eq_true] at hfree
    have := hfree p hp
    rw [heq, hval] at this
    exact of_decide_eq_true this rfl

theorem brTcnTimerExpired_spec (jiffies : UInt32) (hs : Sane br) :
    Yields Sane (brTcnTimerExpired jiffies br) ∨
      br.up ∧ br.rootPort = 0 ∧ brTcnTimerExpired jiffies br = none := by
  rw [brTcnTimerExpired]
  split
  next hup =>
      by_cases h0 : br.rootPort = 0
      · have hnone : brGetPort br br.rootPort = none := by
          rw [h0, brGetPort, List.find?_eq_none]
          exact fun p hp h => hs.numbered.nonzero p hp (of_decide_eq_true h)
        exact .inr ⟨hup, h0, by rw [brTransmitTcn, hnone]; rfl⟩
      · obtain ⟨p, hp, hno⟩ := hs.root.port h0
        have hsend : Quiet br (brSendTcnBpdu br p) := quiet_brSendBpdu ⟨hp, _, .inl rfl⟩
        have hsane := hs.quiet hsend
        rw [brTransmitTcn, ← hno, hs.numbered.brGetPort_eq hp]
        exact .inl ⟨_, rfl, hsane.numbered.of_eq rfl fun _ => rfl, hsane.root.of_eq rfl (fun _ => rfl) rfl rfl rfl rfl,
          hsane.settled⟩
  next => exact .inl ⟨br, rfl, hs⟩

theorem sane_newBridgeDev (port : P → NetBridgePort) : Sane (newBridgeDev port) where
  numbered := ⟨List.nodup_nil, fun _ hp => absurd hp List.not_mem_nil, fun _ hp => absurd hp List.not_mem_nil⟩
  root := ⟨fun _ => rfl, fun _ => rfl, fun h => absurd rfl h⟩
  settled := fun _ hp => absurd hp List.not_mem_nil

end

section

variable {P : Type} [DecidableEq P] {a b br : NetBridge P} {p : P} {f : NetBridgePort → NetBridgePort}

theorem Updated.rootSane (h : Updated a b) (hn : Numbered a) : RootSane b := by
  cases h.root with
  | own hnone hport hroot hcost =>
      exact ⟨fun _ => hroot.trans h.bridgeId.symm, fun _ => hcost, fun hne => absurd hport hne⟩
  | port p hp hcand hbest hport hroot hcost =>
      have hne : b.rootPort ≠ 0 := hport ▸ hn.nonzero p hp
      refine ⟨fun h0 => absurd h0 hne, fun h0 => absurd h0 hne, fun _ => ⟨p, h.portList ▸ hp, ?_⟩⟩
      rw [h.portNo, hport]

variable (jiffies : UInt32)

theorem reconfigure_spec (hn : Numbered a) :
    ∃ b c, (brConfigurationUpdate a >>= brPortStateSelection jiffies) = some c ∧ Updated a b ∧ Quiet b c ∧ Sane c := by
  obtain ⟨b, hb, hu⟩ := brConfigurationUpdate_spec hn
  have hnb := hu.numbered hn
  have hrb := hu.rootSane hn
  obtain ⟨c, hc, hq, hs⟩ := quiet_brPortStateSelection jiffies (hrb.known hnb)
  refine ⟨b, c, by rw [hb]; exact hc, hu, hq, ⟨hq.numbered hnb, hq.rootSane hrb, hs⟩⟩

theorem brReconfigure_spec (hn : Numbered a) (wasRoot : Bool) :
    ∃ b c, brReconfigure jiffies a wasRoot = some c ∧ Updated a b ∧ Quiet b c ∧ Sane c ∧
      (brIsRootBridge c → ¬ wasRoot → ¬ c.tcnTimer.pending) := by
  obtain ⟨b, c, hc, hu, hq, hs⟩ := reconfigure_spec jiffies hn
  have heq : brReconfigure jiffies a wasRoot =
      if brIsRootBridge c ∧ ¬ wasRoot then brBecomeRootBridge jiffies c else some c := by
    rw [brReconfigure, ← bind_assoc, hc]
    rfl
  rw [heq]
  split
  · obtain ⟨d, hd, hqd, htcn⟩ := quiet_brBecomeRootBridge jiffies hs.known
    exact ⟨b, d, hd, hu, hq.trans hqd, hs.quiet hqd, fun hroot _ => htcn hroot⟩
  next hno => exact ⟨b, c, rfl, hu, hq, hs, fun hroot hwas => absurd ⟨hroot, hwas⟩ hno⟩

theorem Updated.kept (h : Updated a b) : Kept a b := ⟨h.up, h.portList, fun p => by rw [h.state]⟩

theorem numbered_setPort (hf : (f (a.port p)).portNo = (a.port p).portNo)
    (hn : Numbered a) : Numbered (setPort a p f) := hn.of_eq rfl (setPort_field (·.portNo) hf)

theorem sane_setPort (hf : (f (a.port p)).portNo = (a.port p).portNo)
    (hsettled : Settled a p → Settled (setPort a p f) p) (hs : Sane a) : Sane (setPort a p f) := by
  refine ⟨numbered_setPort hf hs.numbered, hs.root.of_eq rfl (setPort_field (·.portNo) hf) rfl rfl rfl rfl, fun q hq => ?_⟩
  have hbefore := hs.settled q hq
  by_cases hqp : q = p
  · subst hqp
    exact hsettled hbefore
  · rwa [Settled, HasRole, brIsDesignatedPort, setPort_port_of_ne f hqp]

theorem Sane.setPort_state (hs : Sane a)
    (hconfig : (f (a.port p)).config = (a.port p).config) (hrole : HasRole a p) : Sane (setPort a p f) :=
  sane_setPort (congrArg PortConfig.portNo hconfig)
    (fun _ => .inr (.inr ((Config.hasRole_iff (config_setPort hconfig) p).mpr hrole))) hs

theorem brReceivedConfigBpdu_spec (hs : Sane br) (hp : p ∈ br.portList) (bpdu : BrConfigBpdu) :
    (brSupersedesPortInfo br p bpdu ∧ ∃ b c, brReceivedConfigBpdu jiffies br p bpdu = some c ∧
        Updated (brRecordConfigInformation jiffies br p bpdu) b ∧ Quiet b c ∧ Sane c) ∨
      ¬ brSupersedesPortInfo br p bpdu ∧ QuietRun br (brReceivedConfigBpdu jiffies br p bpdu) := by
  rw [brReceivedConfigBpdu]
  split
  next hsup =>
      have hn : Numbered (brRecordConfigInformation jiffies br p bpdu) := numbered_setPort rfl hs.numbered
      obtain ⟨b, c, hc, hu, hq, hsc⟩ := reconfigure_spec jiffies hn
      have hstop : QuietRun c (if ¬ brIsRootBridge c ∧ brIsRootBridge br then stopBeingRoot jiffies c else some c) := by
        split
        next h => exact quiet_stopBeingRoot jiffies hsc.known h.1
        next => exact .some (.refl c)
      have hlast (d : NetBridge P) (hcd : Quiet c d) : QuietRun d
          (if (d.port p).portNo = d.rootPort then do
            let br ← brConfigBpduGeneration jiffies (brRecordConfigTimeoutValues d bpdu)
            some (if bpdu.topologyChangeAck then brTopologyChangeAcknowledged br else br)
          else some d) := by
        split
        next =>
            have htimes : Quiet d (brRecordConfigTimeoutValues d bpdu) :=
              .of_eq rfl rfl id fun _ => rfl
            have hk := Config.rootKnown htimes.config (Config.rootKnown hcd.config hsc.known)
            refine .after htimes ((quiet_brConfigBpduGeneration jiffies hk).bind fun e _ => .some ?_)
            split
            · exact .of_eq rfl rfl (fun h => absurd h Bool.false_ne_true) fun _ => rfl
            · exact .refl e
        next => exact .some (.refl d)
      obtain ⟨e, he, hqe⟩ := hstop.bind hlast
      refine .inl ⟨hsup, b, e, ?_, hu, hq.trans hqe, hsc.quiet hqe⟩
      rw [← he, ← bind_assoc, hc]
      rfl
  next hsup =>
      refine .inr ⟨hsup, ?_⟩
      split
      · exact quiet_brTransmitConfig jiffies hs.known hp
      · exact .some (.refl br)

theorem quiet_brReceivedTcnBpdu (hs : Sane br) (hp : p ∈ br.portList) : QuietRun br (brReceivedTcnBpdu jiffies br p) := by
  rw [brReceivedTcnBpdu]
  split
  · refine (quiet_brTopologyChangeDetection jiffies hs.known).bind fun b hb => ?_
    have hack : Quiet b (setPort b p fun q => { q with topologyChangeAck := true }) := quiet_setPort rfl rfl
    refine .after hack (quiet_brTransmitConfig jiffies ?_ (Config.portList_eq hb.config ▸ hp))
    exact Config.rootKnown hack.config (Config.rootKnown hb.config hs.known)
  · exact .some (.refl br)

theorem brBecomeDesignatedPort_portNo (br : NetBridge P) (p q : P) :
    ((brBecomeDesignatedPort br p).port q).portNo = (br.port q).portNo := setPort_field (·.portNo) rfl q

theorem brInitPort_portNo (br : NetBridge P) (p q : P) : ((brInitPort br p).port q).portNo = (br.port q).portNo := by
  rw [brInitPort, setPort_field (·.portNo) rfl, brBecomeDesignatedPort_portNo, setPort_field (·.portNo) rfl]

theorem brInitPort_port_of_ne {q : P} (hq : q ≠ p) : (brInitPort br p).port q = br.port q := by
  rw [brInitPort, setPort_port_of_ne _ hq, brBecomeDesignatedPort, setPort_port_of_ne _ hq, setPort_port_of_ne _ hq]

theorem sane_brInitPort (hs : Sane br) (p : P) : Sane (brInitPort br p) := by
  refine ⟨hs.numbered.of_eq rfl (brInitPort_portNo br p),
    hs.root.of_eq rfl (brInitPort_portNo br p) rfl rfl rfl rfl, fun q hq => ?_⟩
  by_cases hqp : q = p
  · subst hqp
    exact .inr (.inl (by rw [brInitPort, setPort_port_self]))
  · have hsettled := hs.settled q hq
    rwa [Settled, HasRole, brIsDesignatedPort, ← brInitPort_port_of_ne hqp] at hsettled

theorem brStpEnablePort_spec (hs : Sane br) (p : P) : QuietRun (brInitPort br p) (brStpEnablePort jiffies br p) := by
  obtain ⟨c, hc, hq, -⟩ := quiet_brPortStateSelection jiffies (sane_brInitPort hs p).known
  exact ⟨c, hc, hq⟩

theorem numbered_shutPort (hn : Numbered br) (p : P) : Numbered (shutPort br p) := by
  refine hn.of_eq rfl fun q => ?_
  rw [shutPort, setPort_field (·.portNo) rfl, brBecomeDesignatedPort_portNo]

theorem shutPort_disabled (br : NetBridge P) (p q : P) :
    ((shutPort br p).port q).state = .disabled ↔ q = p ∨ (br.port q).state = .disabled := by
  by_cases hq : q = p
  · subst hq
    rw [shutPort, setPort_port_self]
    exact iff_of_true rfl (.inl rfl)
  · rw [shutPort, setPort_port_of_ne _ hq, brBecomeDesignatedPort, setPort_port_of_ne _ hq, or_iff_right hq]

theorem brStpDisablePort_spec (hn : Numbered br) (p : P) :
    ∃ b c, brStpDisablePort jiffies br p = some c ∧ Updated (shutPort br p) b ∧ Quiet b c ∧ Sane c ∧
      (brIsRootBridge c → ¬ brIsRootBridge br → ¬ c.tcnTimer.pending) :=
  brReconfigure_spec jiffies (numbered_shutPort hn p) (brIsRootBridge br)

theorem brDeviceEvent_rule {R : Option (NetBridge P) → Prop} {e : DeviceEvent} (hsame : R (some br))
    (henable : br.up → (br.port p).state = .disabled ∨ (∃ carrier, e = .up carrier) → R (brStpEnablePort jiffies br p))
    (hdisable : br.up → R (brStpDisablePort jiffies br p))
    (haddr : ∀ addr, e = .changeAddr addr →
      R (brStpRecalculateBridgeId jiffies (setPort br p fun q => { q with devAddr := addr }))) :
    R (brDeviceEvent jiffies br p e) := by
  cases e with
  | changeAddr addr => exact haddr addr rfl
  | change carrier =>
      rw [brDeviceEvent]
      split
      · exact hsame
      next hup =>
          rw [not_not] at hup
          split
          · split
            next hd => exact henable hup (.inl hd)
            next => exact hsame
          · split
            · exact hdisable hup
            · exact hsame
  | down =>
      rw [brDeviceEvent]
      split
      next hup => exact hdisable hup
      next => exact hsame
  | up carrier =>
      rw [brDeviceEvent]
      split
      next hup => exact henable hup.2 (.inr ⟨carrier, rfl⟩)
      next => exact hsame

theorem brStpHandleBpdu_rule {R : Option (NetBridge P) → Prop} {data : List UInt8} (hsame : R (some br))
    (hconfig : ∀ bpdu, readBpdu data = some (.config bpdu) → R (brReceivedConfigBpdu jiffies br p bpdu))
    (htcn : R (brReceivedTcnBpdu jiffies br p)) : R (brStpHandleBpdu jiffies br p data) := by
  rw [brStpHandleBpdu]
  split
  · exact hsame
  · split
    · exact hsame
    next bpdu hread => exact hconfig bpdu hread
    · exact htcn

end

/-- What makes `I` last while ports are enabled, disabled and moved on; `D` is
whether only a port that takes no part may be enabled. -/
structure Upkeep {P : Type} [DecidableEq P] (D : Prop) (jiffies : UInt32) (I : NetBridge P → Prop) : Prop where
  sane : ∀ {b}, I b → Sane b
  quiet : ∀ {b c}, I b → Quiet b c → I c
  flags : ∀ {b} (up stp : Bool), I b → I { b with up := up, stpEnabled := stp }
  move : ∀ {b p f}, I b → (f (b.port p)).config = (b.port p).config → HasRole b p → I (setPort b p f)
  init : ∀ {b p}, I b → (D → (b.port p).state = .disabled) → I (brInitPort b p)
  shut : ∀ {b} p, I b → Yields I (brStpDisablePort jiffies b p)

namespace Upkeep

variable {P : Type} [DecidableEq P] {br : NetBridge P} {p : P} {D : Prop} {jiffies : UInt32} {I J : NetBridge P → Prop}

theorem enable (h : Upkeep D jiffies I) (hI : I br) (hd : D → (br.port p).state = .disabled) :
    ∃ c, brStpEnablePort jiffies br p = some c ∧ I c ∧ Kept (brInitPort br p) c := by
  obtain ⟨c, hc, hq⟩ := brStpEnablePort_spec jiffies (h.sane hI) p
  exact ⟨c, hc, h.quiet (h.init hI hd) hq, .of_config hq.config⟩

theorem disable (h : Upkeep D jiffies I) (hI : I br) (p : P) :
    ∃ c, brStpDisablePort jiffies br p = some c ∧ I c ∧ Kept (shutPort br p) c := by
  obtain ⟨c, hc, hIc⟩ := h.shut p hI
  obtain ⟨b, c', hc', hu, hq, -⟩ := brStpDisablePort_spec jiffies (h.sane hI).numbered p
  rw [hc] at hc'
  cases hc'
  exact ⟨c, hc, hIc, hu.kept.trans (.of_config hq.config)⟩

theorem enableLoop (h : Upkeep D jiffies I) (ready : P → Bool) (ps : List P) (hnd : ps.Nodup) (hI : I br)
    (hdown : D → ∀ p ∈ ps, (br.port p).state = .disabled) :
    Yields I (ps.foldlM (fun br p => if ready p then brStpEnablePort jiffies br p else some br) br) := by
  induction ps generalizing br with
  | nil => exact ⟨br, rfl, hI⟩
  | cons p ps ih =>
      obtain ⟨hp, hnd⟩ := List.nodup_cons.mp hnd
      rw [List.foldlM_cons]
      split
      · obtain ⟨b, hb, hIb, hkept⟩ := h.enable hI fun hD => hdown hD p List.mem_cons_self
        rw [hb]
        refine ih hnd hIb fun hD q hq => (hkept.disabled q).mpr ?_
        rw [brInitPort_port_of_ne (ne_of_mem_of_not_mem hq hp)]
        exact hdown hD q (List.mem_cons_of_mem p hq)
      · exact ih hnd hI fun hD q hq => hdown hD q (List.mem_cons_of_mem p hq)

theorem devOpen (h : Upkeep D jiffies I) (hI : I br) (ready : P → Bool) (hdown : D → AllDown br) :
    ∃ c, brDevOpen jiffies br ready = some c ∧ I c ∧ c.up := by
  have hhello : Quiet br { br with helloTimer := modTimer br.helloTimer (jiffies + br.helloTime) } :=
    .of_eq rfl rfl id fun _ => rfl
  have hs := h.sane hI
  obtain ⟨b, hb, hq⟩ := quiet_brConfigBpduGeneration jiffies (Config.rootKnown hhello.config hs.known)
  have hall := hhello.trans hq
  obtain ⟨c, hc, hIc⟩ := h.enableLoop ready b.portList (Config.portList_eq hall.config ▸ hs.numbered.nodup)
    (h.quiet hI hall) fun hD => (Kept.of_config hall.config).allDown (hdown hD)
  rw [brDevOpen, brStpEnableBridge, hb, Option.bind_eq_bind, Option.bind_some, hc]
  exact ⟨_, rfl, h.flags true c.stpEnabled hIc, rfl⟩

theorem disableLoop (h : Upkeep D jiffies I) (ps : List P) (hI : I br) :
    ∃ c, ps.foldlM (fun br p => if (br.port p).state ≠ .disabled then brStpDisablePort jiffies br p else some br) br =
        some c ∧ I c ∧ c.portList = br.portList ∧
      ∀ p, p ∈ ps ∨ (br.port p).state = .disabled → (c.port p).state = .disabled := by
  induction ps generalizing br with
  | nil => exact ⟨br, rfl, hI, rfl, fun p hp => hp.resolve_left List.not_mem_nil⟩
  | cons p ps ih =>
      rw [List.foldlM_cons]
      split
      · obtain ⟨b, hb, hIb, hkept⟩ := h.disable hI p
        obtain ⟨c, hc, hIc, hlist, hrest⟩ := ih hIb
        rw [hb]
        refine ⟨c, hc, hIc, hlist.trans hkept.portList, fun q hq => hrest q ?_⟩
        rw [hkept.disabled, shutPort_disabled]
        rcases hq with hq | hq
        · exact (List.mem_cons.mp hq).symm.imp_right .inl
        · exact .inr (.inr hq)
      next hd =>
          rw [not_not] at hd
          obtain ⟨c, hc, hIc, hlist, hrest⟩ := ih hI
          refine ⟨c, hc, hIc, hlist, fun q hq => hrest q ?_⟩
          rcases hq with hq | hq
          · rcases List.mem_cons.mp hq with rfl | hq
            · exact .inr hd
            · exact .inl hq
          · exact .inr hq

theorem devStop (h : Upkeep D jiffies I) (hI : I br) : ∃ c, brDevStop jiffies br = some c ∧ I c ∧ AllDown c := by
  obtain ⟨b, hb, hIb, hlist, hall⟩ := h.disableLoop br.portList hI
  have hstop : Quiet b { b with
      topologyChange := false
      topologyChangeDetected := false
      helloTimer := delTimer b.helloTimer
      topologyChangeTimer := delTimer b.topologyChangeTimer
      tcnTimer := delTimer b.tcnTimer } := .of_eq rfl rfl (fun h => absurd h Bool.false_ne_true) fun _ => rfl
  rw [brDevStop, brStpDisableBridge, hb]
  exact ⟨_, rfl, h.flags false b.stpEnabled (h.quiet hIb hstop), fun p hp => hall p (.inl (hlist ▸ hp))⟩

theorem deviceEvent (h : Upkeep D jiffies I) {e : DeviceEvent} (hI : I br) (hsame : J br) (hup : ∀ c, I c → c.up → J c)
    (hd : D → ∀ carrier, e = .up carrier → (br.port p).state = .disabled)
    (haddr : ∀ addr, e = .changeAddr addr →
      Yields J (brStpRecalculateBridgeId jiffies (setPort br p fun q => { q with devAddr := addr }))) :
    Yields J (brDeviceEvent jiffies br p e) := by
  refine brDeviceEvent_rule jiffies ⟨br, rfl, hsame⟩ (fun hbr hdis => ?_) (fun hbr => ?_) haddr
  · obtain ⟨c, hc, hIc, hkept⟩ := h.enable hI fun hD => hdis.elim id fun ⟨carrier, hc⟩ => hd hD carrier hc
    exact ⟨c, hc, hup c hIc (hkept.up ▸ hbr)⟩
  · obtain ⟨c, hc, hIc, hkept⟩ := h.disable hI p
    exact ⟨c, hc, hup c hIc (hkept.up ▸ hbr)⟩

theorem forwardDelay (h : Upkeep D jiffies I) (hI : I br) (hp : p ∈ br.portList) :
    ∃ c, brForwardDelayTimerExpired jiffies br p = some c ∧ I c ∧ Kept br c := by
  have hrole := (h.sane hI).hasRole hp
  have hmove {f : NetBridgePort → NetBridgePort} (hconfig : (f (br.port p)).config = (br.port p).config)
      (hrole : HasRole br p) : I (setPort br p f) ∧ Kept br (setPort br p f) :=
    ⟨h.move hI hconfig hrole, .of_config (config_setPort hconfig)⟩
  rw [brForwardDelayTimerExpired]
  split
  next hstate =>
      refine ⟨_, rfl, hmove ?_ (hrole (by simp [hstate]) (by simp [hstate]))⟩
      simp [NetBridgePort.config, hstate]
  next =>
      split
      next hstate =>
          obtain ⟨hIf, hkept⟩ := hmove (f := fun q => { q with state := .forwarding })
            (by simp [NetBridgePort.config, hstate]) (hrole (by simp [hstate]) (by simp [hstate]))
          dsimp only
          split
          · obtain ⟨c, hc, hq⟩ := quiet_brTopologyChangeDetection jiffies (h.sane hIf).known
            exact ⟨c, hc, h.quiet hIf hq, hkept.trans (.of_config hq.config)⟩
          · exact ⟨_, rfl, hIf, hkept⟩
      next => exact ⟨br, rfl, hI, .of_config rfl⟩

end Upkeep

section

variable {P : Type} [DecidableEq P] {a b br : NetBridge P} {p : P} (jiffies : UInt32)

theorem sane_brReconfigure (hn : Numbered br) (wasRoot : Bool) : Yields Sane (brReconfigure jiffies br wasRoot) := by
  obtain ⟨-, c, hc, -, -, hsc, -⟩ := brReconfigure_spec jiffies hn wasRoot
  exact ⟨c, hc, hsc⟩

theorem sane_upkeep : Upkeep False jiffies (Sane (P := P)) where
  sane := id
  quiet := Sane.quiet
  flags := fun up stp hs => hs.withFlags up stp
  move := Sane.setPort_state
  init := fun hs _ => sane_brInitPort hs _
  shut := fun p hs => sane_brReconfigure jiffies (numbered_shutPort hs.numbered p) _

theorem renamed_eq (hnd : br.portList.Nodup) (addr : BitVec 48) :
    renamed br addr = { br with
      bridgeId := { br.bridgeId with addr := addr }
      port := fun p => if p ∈ br.portList then
          { br.port p with
            designatedBridge := renameAddr br.bridgeId.addr addr (br.port p).designatedBridge
            designatedRoot := renameAddr br.bridgeId.addr addr (br.port p).designatedRoot }
        else br.port p } :=
  foldl_ports (K := fun _ => True) (fun _ _ _ => rfl) (fun _ _ _ => trivial) hnd trivial

def reprioritisedPort (self : BridgeId) (newprio : UInt16) (q : NetBridgePort) : NetBridgePort :=
  if q.state ≠ .disabled ∧ q.designatedBridge = self ∧ q.designatedPort = q.portId then
    { q with designatedBridge := { q.designatedBridge with prio := newprio } }
  else q

theorem reprioritised_eq (hnd : br.portList.Nodup) (newprio : UInt16) :
    reprioritised br newprio = { br with
      bridgeId := { br.bridgeId with prio := newprio }
      port := fun p => if p ∈ br.portList then reprioritisedPort br.bridgeId newprio (br.port p) else br.port p } := by
  rw [reprioritised, foldl_ports (K := fun b => b.bridgeId = br.bridgeId) (fun b p hb => ?_) (fun _ _ hb => hb) hnd rfl]
  split
  next hyes =>
      rw [brIsDesignatedPort, decide_eq_true_eq, hb] at hyes
      exact setPort_congr (if_pos hyes).symm
  next hno =>
      rw [brIsDesignatedPort, decide_eq_true_eq, hb] at hno
      exact (setPort_of_eq (if_neg hno)).symm

theorem numbered_renamed (hn : Numbered br) (addr : BitVec 48) : Numbered (renamed br addr) := by
  rw [renamed_eq hn.nodup]
  refine hn.of_eq rfl fun p => ?_
  dsimp only
  split <;> rfl

theorem numbered_reprioritised (hn : Numbered br) (newprio : UInt16) : Numbered (reprioritised br newprio) := by
  rw [reprioritised_eq hn.nodup]
  refine hn.of_eq rfl fun p => ?_
  dsimp only [reprioritisedPort]
  split
  · split <;> rfl
  · rfl

theorem sane_brStpRecalculateBridgeId (hs : Sane br) : Yields Sane (brStpRecalculateBridgeId jiffies br) := by
  rw [brStpRecalculateBridgeId]
  split
  · exact sane_brReconfigure jiffies (numbered_renamed hs.numbered _) _
  · exact ⟨br, rfl, hs⟩

theorem withPortPriority_designated (h : brIsDesignatedPort br p) (newprio : UInt8) :
    brIsDesignatedPort (withPortPriority br p newprio) p := by
  rw [brIsDesignatedPort, withPortPriority, setPort_port_self, decide_eq_true_eq]
  exact ⟨(of_decide_eq_true h).1, if_pos h⟩

theorem sane_withPortPriority (hs : Sane br) (p : P) (newprio : UInt8) : Sane (withPortPriority br p newprio) := by
  refine sane_setPort rfl (fun hsettled => ?_) hs
  rw [Settled, HasRole, setPort_port_self]
  exact hsettled.imp_right (.imp_right (.imp_right fun h => withPortPriority_designated h newprio))

theorem sane_brBecomeDesignatedPort (hs : Sane br) (p : P) : Sane (brBecomeDesignatedPort br p) := by
  refine sane_setPort rfl (fun _ => .inr (.inr (.inr ?_))) hs
  rw [brIsDesignatedPort, setPort_port_self, decide_eq_true_eq]
  exact ⟨rfl, rfl⟩

theorem quiet_selection_of_sane (hs : Sane br) : QuietRun br (brPortStateSelection jiffies br) := by
  obtain ⟨c, hc, hq, -⟩ := quiet_brPortStateSelection jiffies hs.known
  exact ⟨c, hc, hq⟩

theorem sane_brStpSetPortPriority (hs : Sane br) (p : P) (newprio : UInt8) :
    Yields Sane (brStpSetPortPriority jiffies br p newprio) := by
  have hprio := sane_withPortPriority hs p newprio
  rw [brStpSetPortPriority]
  split
  · have hdes := sane_brBecomeDesignatedPort hprio p
    exact (quiet_selection_of_sane jiffies hdes).yields fun _ => hdes.quiet
  · exact ⟨_, rfl, hprio⟩

theorem sane_brStpSetPathCost (hn : Numbered br) (p : P) (pathCost : UInt32) :
    Yields Sane (brStpSetPathCost jiffies br p pathCost) := by
  have hset : Numbered (setPort br p fun q => { q with pathCost := pathCost }) := numbered_setPort rfl hn
  obtain ⟨-, c, hc, -, -, hsc⟩ := reconfigure_spec jiffies hset
  exact ⟨c, hc, hsc⟩

theorem linkPort_port_of_ne {q : P} (hq : q ≠ p) (devAddr : BitVec 48) (cost : UInt32) (index : UInt16) :
    (linkPort br p devAddr cost index).port q = br.port q := by
  rw [linkPort, setPort_port_of_ne _ hq, brInitPort_port_of_ne hq, setPort_port_of_ne _ hq]

theorem linkPort_port_of_mem {q : P} (hp : p ∉ br.portList) (hq : q ∈ br.portList) (devAddr : BitVec 48) (cost : UInt32)
    (index : UInt16) : (linkPort br p devAddr cost index).port q = br.port q :=
  linkPort_port_of_ne (ne_of_mem_of_not_mem hq hp) devAddr cost index

theorem linkPort_port_self (devAddr : BitVec 48) (cost : UInt32) (index : UInt16) :
    (linkPort br p devAddr cost index).port p = { newNbp devAddr cost index with
      portId := brMakePortId 32 index
      designatedPort := brMakePortId 32 index
      designatedRoot := br.designatedRoot
      designatedCost := br.rootPathCost
      designatedBridge := br.bridgeId } := by
  rw [linkPort, setPort_port_self, brInitPort, setPort_port_self, brBecomeDesignatedPort, setPort_port_self,
    setPort_port_self, setPort_port_self]
  rfl

theorem numbered_linkPort (hn : Numbered br) (hp : p ∉ br.portList) (devAddr : BitVec 48) (cost : UInt32)
    {index : UInt16} (hindex : findPortno br = some index) : Numbered (linkPort br p devAddr cost index) := by
  obtain ⟨h0, -, hfree⟩ := findPortno_spec hindex
  have hself : ((linkPort br p devAddr cost index).port p).portNo = index := by rw [linkPort_port_self]; rfl
  refine ⟨List.nodup_cons.mpr ⟨hp, hn.nodup⟩, fun q hq => ?_, fun q hq r hr heq => ?_⟩
  · rcases List.mem_cons.mp hq with rfl | hq
    · rwa [hself]
    · rw [linkPort_port_of_mem hp hq]
      exact hn.nonzero q hq
  · rcases List.mem_cons.mp hq with rfl | hq <;> rcases List.mem_cons.mp hr with rfl | hr
    · rfl
    · rw [hself, linkPort_port_of_mem hp hr] at heq
      exact absurd heq.symm (hfree r hr)
    · rw [hself, linkPort_port_of_mem hp hq] at heq
      exact absurd heq (hfree q hq)
    · rw [linkPort_port_of_mem hp hq, linkPort_port_of_mem hp hr] at heq
      exact hn.inj q hq r hr heq

theorem sane_linkPort (hs : Sane br) (hp : p ∉ br.portList) (devAddr : BitVec 48) (cost : UInt32)
    {index : UInt16} (hindex : findPortno br = some index) : Sane (linkPort br p devAddr cost index) := by
  refine ⟨numbered_linkPort hs.numbered hp devAddr cost hindex, ⟨hs.root.own, hs.root.cost, fun h0 => ?_⟩, fun q hq => ?_⟩
  · obtain ⟨q, hq, hno⟩ := hs.root.port h0
    exact ⟨q, List.mem_cons_of_mem p hq, by rw [linkPort_port_of_mem hp hq]; exact hno⟩
  · rcases List.mem_cons.mp hq with rfl | hq
    · exact .inl (by rw [linkPort_port_self]; rfl)
    · have hsame := hs.settled q hq
      rwa [Settled, HasRole, brIsDesignatedPort, ← linkPort_port_of_mem hp hq] at hsame

theorem sane_brAddIf (hs : Sane br) (hp : p ∉ br.portList) (devAddr : BitVec 48) (cost : UInt32) (ready : Bool) :
    Yields Sane (brAddIf jiffies br p devAddr cost ready) := by
  rw [brAddIf]
  split
  · exact ⟨br, rfl, hs⟩
  next index hindex =>
      obtain ⟨b, hb, hsb⟩ := sane_brStpRecalculateBridgeId jiffies (sane_linkPort hs hp devAddr cost hindex)
      rw [hb, Option.bind_eq_bind, Option.bind_some]
      split
      · exact (brStpEnablePort_spec jiffies hsb p).yields fun _ => (sane_brInitPort hsb p).quiet
      · exact ⟨b, rfl, hsb⟩

theorem Updated.rootPort_ne (h : Updated a b) (hn : Numbered a) (hp : p ∈ a.portList)
    (hshut : (a.port p).state = .disabled) : b.rootPort ≠ (b.port p).portNo := by
  rw [h.portNo]
  cases h.root with
  | own hnone hport hroot hcost => exact fun h0 => hn.nonzero p hp (h0.symm.trans hport)
  | port q hq hcand hbest hport hroot hcost =>
      intro h0
      have : q = p := hn.inj q hq p hp (hport.symm.trans h0)
      subst this
      exact hcand.enabled hshut

theorem sane_erase (hs : Sane br) (hroot : br.rootPort ≠ (br.port p).portNo) :
    Sane { br with portList := br.portList.erase p } := by
  have hsub {q : P} (hq : q ∈ br.portList.erase p) : q ∈ br.portList := List.mem_of_mem_erase hq
  refine ⟨⟨hs.numbered.nodup.erase p, fun q hq => hs.numbered.nonzero q (hsub hq), fun q hq r hr =>
    hs.numbered.inj q (hsub hq) r (hsub hr)⟩, ⟨hs.root.own, hs.root.cost, fun h0 => ?_⟩, fun q hq => hs.settled q (hsub hq)⟩
  obtain ⟨q, hq, hno⟩ := hs.root.port h0
  have hqp : q ≠ p := fun h => hroot (h ▸ hno.symm)
  exact ⟨q, (List.mem_erase_of_ne hqp).mpr hq, hno⟩

theorem sane_brDelIf (hs : Sane br) (hp : p ∈ br.portList) : Yields Sane (brDelIf jiffies br p) := by
  obtain ⟨b, c, hc, hu, hq, hsc, -⟩ := brStpDisablePort_spec jiffies hs.numbered p
  have hroot : c.rootPort ≠ (c.port p).portNo := by
    have hb := hu.rootPort_ne (numbered_shutPort hs.numbered p) hp ((shutPort_disabled br p p).mpr (.inl rfl))
    rwa [Config.portNo_eq hq.config, Config.rootPort_eq hq.config]
  rw [brDelIf, hc]
  exact sane_brStpRecalculateBridgeId jiffies (sane_erase hsc hroot)

theorem sane_brMessageAgeTimerExpired (hs : Sane br) (p : P) :
    Yields Sane (brMessageAgeTimerExpired jiffies br p) := by
  rw [brMessageAgeTimerExpired]
  split
  · exact ⟨br, rfl, hs⟩
  · have hn : Numbered (brBecomeDesignatedPort br p) := numbered_setPort rfl hs.numbered
    exact sane_brReconfigure jiffies hn _

theorem quiet_brHoldTimerExpired (hk : RootKnown br) (hp : p ∈ br.portList) :
    QuietRun br (brHoldTimerExpired jiffies br p) := by
  rw [brHoldTimerExpired]
  split
  · exact quiet_brTransmitConfig jiffies hk hp
  · exact .some (.refl br)

def Event.IsQuiet : Event P → Prop
  | .helloTimer | .topologyChangeTimer | .holdTimer _ | .setForwardDelay _ | .setHelloTime _ | .setMaxAge _ => True
  | _ => False

theorem quiet_step (hk : RootKnown br) {e : Event P} (he : Enabled jiffies br e) (hq : e.IsQuiet) :
    QuietRun br (step jiffies br e) := by
  cases e with
  | helloTimer =>
      have hfired : Quiet br { br with helloTimer := delTimer br.helloTimer } := .of_eq rfl rfl id fun _ => rfl
      exact .after hfired (quiet_sendHellos jiffies (Config.rootKnown hfired.config hk))
  | holdTimer p =>
      have hfired : Quiet br (setPort br p fun q => { q with holdTimer := delTimer q.holdTimer }) := quiet_setPort rfl rfl
      exact .after hfired (quiet_brHoldTimerExpired jiffies (Config.rootKnown hfired.config hk) he.1)
  | topologyChangeTimer | setForwardDelay | setHelloTime | setMaxAge => exact .some (.of_eq rfl rfl id fun _ => rfl)
  | _ => exact hq.elim

theorem step_sane (hs : Sane br) {e : Event P} (he : Enabled jiffies br e) :
    Yields Sane (step jiffies br e) ∨ e = .tcnTimer ∧ br.up ∧ br.rootPort = 0 ∧ step jiffies br e = none := by
  have hkeep := sane_upkeep (P := P) jiffies
  cases e with
  | frame p data =>
      refine .inl (brStpHandleBpdu_rule jiffies ⟨br, rfl, hs⟩ (fun bpdu _ => ?_) ?_)
      · rcases brReceivedConfigBpdu_spec jiffies hs he bpdu with ⟨-, -, c, hc, -, -, hsc⟩ | ⟨-, hq⟩
        · exact ⟨c, hc, hsc⟩
        · exact hq.yields fun _ => hs.quiet
      · exact (quiet_brReceivedTcnBpdu jiffies hs he).yields fun _ => hs.quiet
  | tcnTimer =>
      have hfired : Quiet br { br with tcnTimer := delTimer br.tcnTimer } :=
        .of_eq rfl rfl (fun h => absurd h Bool.false_ne_true) fun _ => rfl
      exact (brTcnTimerExpired_spec jiffies (hs.quiet hfired)).imp_right fun h => ⟨rfl, h⟩
  | messageAgeTimer p => exact .inl (sane_brMessageAgeTimerExpired jiffies (hs.quiet (quiet_setPort rfl rfl)) p)
  | forwardDelayTimer p =>
      have hfired : Sane (setPort br p fun q => { q with forwardDelayTimer := delTimer q.forwardDelayTimer }) :=
        hs.quiet (quiet_setPort rfl rfl)
      obtain ⟨c, hc, hsc, -⟩ := hkeep.forwardDelay hfired he.1
      exact .inl ⟨c, hc, hsc⟩
  | device p e =>
      refine .inl (hkeep.deviceEvent hs hs (fun _ h _ => h) False.elim fun addr _ => ?_)
      refine sane_brStpRecalculateBridgeId jiffies (sane_setPort rfl (fun hsettled => ?_) hs)
      rwa [Settled, HasRole, brIsDesignatedPort, setPort_port_self]
  | devOpen ready =>
      obtain ⟨c, hc, hsc, -⟩ := hkeep.devOpen hs ready False.elim
      exact .inl ⟨c, hc, hsc⟩
  | devStop =>
      obtain ⟨c, hc, hsc, -⟩ := hkeep.devStop hs
      exact .inl ⟨c, hc, hsc⟩
  | addIf p devAddr cost ready => exact .inl (sane_brAddIf jiffies hs he devAddr cost ready)
  | delIf p => exact .inl (sane_brDelIf jiffies hs he)
  | setBridgePriority newprio =>
      exact .inl (sane_brReconfigure jiffies (numbered_reprioritised hs.numbered newprio) _)
  | setPortPriority p newprio => exact .inl (sane_brStpSetPortPriority jiffies hs p newprio)
  | setPathCost p pathCost => exact .inl (sane_brStpSetPathCost jiffies hs.numbered p pathCost)
  | setStpState on => exact .inl ⟨_, rfl, hs.withFlags br.up on⟩
  | helloTimer | topologyChangeTimer | holdTimer | setForwardDelay | setHelloTime | setMaxAge =>
      exact .inl ((quiet_step jiffies hs.known he trivial).yields fun _ => hs.quiet)

end

section

variable {P : Type} [DecidableEq P]

/-- The states of a bridge that starts as a new one. -/
def Reached (s : Clocked P) : Prop := Transition.Reach (fun s => ∃ port, s.br = newBridgeDev port) Clocked.Step s

theorem sane_of_reached {s : Clocked P} (h : Reached s) : Sane s.br := by
  refine h.invariant (fun s ⟨port, hs⟩ => hs ▸ sane_newBridgeDev port) fun s s' hs hstep => ?_
  cases hstep with
  | event e hnow henabled hstep =>
      rcases step_sane _ hs henabled with ⟨c, hc, hsc⟩ | ⟨-, -, -, hnone⟩
      · rw [hc] at hstep
        exact Option.some.inj hstep ▸ hsc
      · rw [hnone] at hstep
        cases hstep

/-- Whatever frames arrive and whatever the administrator does, a port listens,
learns or forwards only as the root port or as a designated port, and a bridge
without a root port is the root. No event fails, apart from the timer for
topology changes of a bridge that has no root port. -/
theorem bridge_keeps_roles {s : Clocked P} (h : Reached s) :
    (∀ p ∈ s.br.portList, (s.br.port p).state ≠ .disabled → (s.br.port p).state ≠ .blocking → HasRole s.br p) ∧
      (s.br.rootPort = 0 → brIsRootBridge s.br) ∧
      (s.br.rootPort ≠ 0 → ∃ p, brGetPort s.br s.br.rootPort = some p) ∧
      ∀ (jiffies : UInt32) (e : Event P), Enabled jiffies s.br e → step jiffies s.br e = none →
        e = .tcnTimer ∧ s.br.rootPort = 0 := by
  have hs := sane_of_reached h
  refine ⟨fun p hp => hs.hasRole hp, fun h0 => ?_, fun h0 => ?_,
    fun jiffies e he hnone => ?_⟩
  · rw [brIsRootBridge, hs.root.own h0, decide_eq_true rfl]
  · obtain ⟨p, hp, hno⟩ := hs.root.port h0
    exact ⟨p, by rw [← hno, hs.numbered.brGetPort_eq hp]⟩
  · rcases step_sane jiffies hs he with ⟨c, hc, -⟩ | ⟨he, -, h0, -⟩
    · rw [hnone] at hc
      cases hc
    · exact ⟨he, h0⟩

end

def after {P : Type} [DecidableEq P] (jiffies : UInt32) (br : NetBridge P) (e : Event P) : NetBridge P :=
  (step jiffies br e).getD br

theorem step_after {P : Type} [DecidableEq P] {jiffies : UInt32} {br : NetBridge P} {e : Event P}
    (h : (step jiffies br e).isSome) : step jiffies br e = some (after jiffies br e) := by
  obtain ⟨c, hc⟩ := Option.isSome_iff_exists.mp h
  rw [after, hc, Option.getD_some]

def addedBridge : NetBridge Unit := after 0 (newBridgeDev fun _ => newNbp 0 0 0) (.addIf () 5 100 true)

def openedBridge : NetBridge Unit := after 0 addedBridge (.devOpen fun _ => true)

theorem openedBridge_reached : Reached ⟨0, openedBridge⟩ := by
  have hnew : Reached ⟨0, newBridgeDev fun _ : Unit => newNbp 0 0 0⟩ := .start ⟨_, rfl⟩
  have hadded : Reached ⟨0, addedBridge⟩ :=
    hnew.next (.event (.addIf () 5 100 true) le_rfl (List.not_mem_nil (a := ())) (step_after (by decide)))
  exact hadded.next (.event (.devOpen fun _ => true) le_rfl (by decide : ¬ addedBridge.up)
    (step_after (by decide)))

theorem openedBridge_keeps_roles : (openedBridge.port ()).state = .learning ∧ HasRole openedBridge () :=
  ⟨by decide, (bridge_keeps_roles openedBridge_reached).1 () (by decide) (by decide) (by decide)⟩

end AliceModem.Stp
