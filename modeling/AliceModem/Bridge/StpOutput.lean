import AliceModem.Bridge.Stp

namespace AliceModem.Stp

open Bpdu Disposal

/-- What the selection of the root port and of the designated ports reads of a
port, and what does not change at all. -/
structure PortConfig where
  devAddr : BitVec 48
  priority : UInt8
  enabled : Bool
  portNo : UInt16
  portId : UInt16
  designatedPort : UInt16
  designatedRoot : BridgeId
  designatedBridge : BridgeId
  pathCost : UInt32
  designatedCost : UInt32

def NetBridgePort.config (q : NetBridgePort) : PortConfig :=
  ⟨q.devAddr, q.priority, q.state ≠ .disabled, q.portNo, q.portId, q.designatedPort, q.designatedRoot,
    q.designatedBridge, q.pathCost, q.designatedCost⟩

structure Config (P : Type) where
  portList : List P
  port : P → PortConfig
  up : Bool
  stpEnabled : Bool
  bridgeId : BridgeId
  designatedRoot : BridgeId
  rootPathCost : UInt32
  rootPort : UInt16

section

variable {P : Type}

def NetBridge.config (br : NetBridge P) : Config P :=
  ⟨br.portList, fun p => (br.port p).config, br.up, br.stpEnabled, br.bridgeId, br.designatedRoot, br.rootPathCost,
    br.rootPort⟩

variable {a b c br : NetBridge P} {p q : P}

def HasRole (br : NetBridge P) (p : P) : Prop := (br.port p).portNo = br.rootPort ∨ brIsDesignatedPort br p

def RootKnown (br : NetBridge P) : Prop := brIsRootBridge br ∨ (brGetPort br br.rootPort).isSome

def entryState (br : NetBridge P) : PortState := if br.stpEnabled then .listening else .learning

def Settled (br : NetBridge P) (p : P) : Prop :=
  (br.port p).state = .disabled ∨ (br.port p).state = .blocking ∨ HasRole br p

namespace Config

theorem port_config (h : b.config = a.config) (p : P) : (b.port p).config = (a.port p).config :=
  congrFun (congrArg Config.port h) p

section

variable (h : b.config = a.config)

include h

theorem portList_eq : b.portList = a.portList := congrArg Config.portList h

theorem up_eq : b.up = a.up := congrArg Config.up h

theorem bridgeId_eq : b.bridgeId = a.bridgeId := congrArg Config.bridgeId h

theorem root_eq : b.designatedRoot = a.designatedRoot := congrArg Config.designatedRoot h

theorem rootPathCost_eq : b.rootPathCost = a.rootPathCost := congrArg Config.rootPathCost h

theorem rootPort_eq : b.rootPort = a.rootPort := congrArg Config.rootPort h

theorem entryState_eq : entryState b = entryState a := by
  have hstp : b.stpEnabled = a.stpEnabled := congrArg Config.stpEnabled h
  rw [entryState, entryState, hstp]

variable (p : P)

theorem priority_eq : (b.port p).priority = (a.port p).priority := congrArg PortConfig.priority (port_config h p)

theorem portNo_eq : (b.port p).portNo = (a.port p).portNo := congrArg PortConfig.portNo (port_config h p)

theorem portId_eq : (b.port p).portId = (a.port p).portId := congrArg PortConfig.portId (port_config h p)

theorem designatedPort_eq : (b.port p).designatedPort = (a.port p).designatedPort :=
  congrArg PortConfig.designatedPort (port_config h p)

theorem designatedRoot_eq : (b.port p).designatedRoot = (a.port p).designatedRoot :=
  congrArg PortConfig.designatedRoot (port_config h p)

theorem designatedBridge_eq : (b.port p).designatedBridge = (a.port p).designatedBridge :=
  congrArg PortConfig.designatedBridge (port_config h p)

theorem pathCost_eq : (b.port p).pathCost = (a.port p).pathCost := congrArg PortConfig.pathCost (port_config h p)

theorem designatedCost_eq : (b.port p).designatedCost = (a.port p).designatedCost :=
  congrArg PortConfig.designatedCost (port_config h p)

theorem brGetPort_eq (n : UInt16) : brGetPort b n = brGetPort a n := by
  simp only [brGetPort, portNo_eq h, portList_eq h]

theorem brIsRootBridge_eq : brIsRootBridge b = brIsRootBridge a := by
  rw [brIsRootBridge, brIsRootBridge, bridgeId_eq h, root_eq h]

theorem brIsDesignatedPort_eq : brIsDesignatedPort b p = brIsDesignatedPort a p := by
  simp only [brIsDesignatedPort, bridgeId_eq h, designatedBridge_eq h, designatedPort_eq h, portId_eq h]

theorem hasRole_iff : HasRole b p ↔ HasRole a p := by
  rw [HasRole, HasRole, brIsDesignatedPort_eq h, portNo_eq h, rootPort_eq h]

theorem rootKnown (hk : RootKnown a) : RootKnown b := by
  rwa [RootKnown, brIsRootBridge_eq h, rootPort_eq h, brGetPort_eq h]

theorem disabled_iff : (b.port p).state = .disabled ↔ (a.port p).state = .disabled := by
  have hen := congrArg PortConfig.enabled (port_config h p)
  simpa [NetBridgePort.config] using hen

end

end Config

/-- A frame that says what the bridge has settled on, or that reports a change. -/
def Announces (br : NetBridge P) (m : P × List UInt8) : Prop :=
  m.1 ∈ br.portList ∧
    ∃ devAddr, m.2 = bpduFrame devAddr tcnBytes ∨
      ∃ bpdu, m.2 = bpduFrame devAddr (configBytes bpdu) ∧ bpdu.root = br.designatedRoot ∧
        bpdu.rootPathCost = br.rootPathCost ∧ bpdu.bridgeId = br.bridgeId ∧ bpdu.portId = (br.port m.1).portId

/-- What the functions do that leave the configuration as it is: they send
frames, run timers, and let ports with a role take part and others not. -/
structure Quiet (a b : NetBridge P) : Prop where
  config : b.config = a.config
  sent : ∃ new, b.sent = a.sent ++ new ∧ ∀ m ∈ new, Announces a m
  tcn : b.tcnTimer.pending → a.tcnTimer.pending ∨ ¬ brIsRootBridge a
  state : ∀ p, (b.port p).state = (a.port p).state ∨ (b.port p).state = .blocking ∨
    HasRole a p ∧ (b.port p).state = entryState a

theorem Announces.congr (h : b.config = a.config) {m : P × List UInt8} (hm : Announces b m) : Announces a m := by
  obtain ⟨hmem, devAddr, htcn | ⟨bpdu, hframe, hroot, hcost, hid, hport⟩⟩ := hm
  · exact ⟨Config.portList_eq h ▸ hmem, devAddr, .inl htcn⟩
  · exact ⟨Config.portList_eq h ▸ hmem, devAddr, .inr ⟨bpdu, hframe, hroot.trans (Config.root_eq h),
      hcost.trans (Config.rootPathCost_eq h), hid.trans (Config.bridgeId_eq h), hport.trans (Config.portId_eq h m.1)⟩⟩

namespace Quiet

theorem of_eq (hconfig : b.config = a.config) (hsent : b.sent = a.sent) (htcn : b.tcnTimer.pending → a.tcnTimer.pending)
    (hstate : ∀ p, (b.port p).state = (a.port p).state) : Quiet a b :=
  ⟨hconfig, ⟨[], hsent.trans (List.append_nil _).symm, fun _ hm => absurd hm List.not_mem_nil⟩, fun h => .inl (htcn h),
    fun p => .inl (hstate p)⟩

theorem refl (a : NetBridge P) : Quiet a a := .of_eq rfl rfl id fun _ => rfl

theorem trans (hab : Quiet a b) (hbc : Quiet b c) : Quiet a c where
  config := hbc.config.trans hab.config
  sent := by
    obtain ⟨new, hnew, hann⟩ := hab.sent
    obtain ⟨more, hmore, hann'⟩ := hbc.sent
    refine ⟨new ++ more, by rw [hmore, hnew, List.append_assoc], fun m hm => ?_⟩
    rcases List.mem_append.mp hm with hm | hm
    · exact hann m hm
    · exact (hann' m hm).congr hab.config
  tcn := by
    intro h
    rcases hbc.tcn h with hb | hb
    · exact hab.tcn hb
    · exact .inr (Config.brIsRootBridge_eq hab.config ▸ hb)
  state := by
    intro p
    rcases hbc.state p with h | h | ⟨hrole, h⟩
    · rw [h]
      exact hab.state p
    · exact .inr (.inl h)
    · exact .inr (.inr ⟨(Config.hasRole_iff hab.config p).mp hrole, h.trans (Config.entryState_eq hab.config)⟩)

theorem settled (h : Quiet a b) (hs : Settled a p) : Settled b p := by
  rcases hs with hd | hrest
  · exact .inl ((Config.disabled_iff h.config p).mpr hd)
  · rcases h.state p with hst | hst | ⟨hrole, -⟩
    · rw [Settled, hst, Config.hasRole_iff h.config p]
      exact .inr hrest
    · exact .inr (.inl hst)
    · exact .inr (.inr ((Config.hasRole_iff h.config p).mpr hrole))

end Quiet

/-- The result is there, and the function has left the configuration as it was. -/
def QuietRun (a : NetBridge P) (r : Option (NetBridge P)) : Prop := ∃ b, r = some b ∧ Quiet a b

namespace QuietRun

theorem some (h : Quiet a b) : QuietRun a (some b) := ⟨b, rfl, h⟩

theorem bind {r : Option (NetBridge P)} {f : NetBridge P → Option (NetBridge P)} (h : QuietRun a r)
    (hf : ∀ b, Quiet a b → QuietRun b (f b)) : QuietRun a (r >>= f) := by
  obtain ⟨b, rfl, hab⟩ := h
  obtain ⟨c, hc, hbc⟩ := hf b hab
  exact ⟨c, hc, hab.trans hbc⟩

theorem after (h : Quiet a b) {r : Option (NetBridge P)} (hr : QuietRun b r) : QuietRun a r := by
  obtain ⟨c, hc, hbc⟩ := hr
  exact ⟨c, hc, h.trans hbc⟩

theorem foldlM {f : NetBridge P → P → Option (NetBridge P)} (ps : List P) {a : NetBridge P}
    (hf : ∀ b, Quiet a b → ∀ p ∈ ps, QuietRun b (f b p)) : QuietRun a (ps.foldlM f a) := by
  induction ps generalizing a with
  | nil => exact some (.refl a)
  | cons p ps ih =>
      rw [List.foldlM_cons]
      refine (hf a (.refl a) p List.mem_cons_self).bind fun b hab => ih fun c hbc q hq => ?_
      exact hf c (hab.trans hbc) q (List.mem_cons_of_mem p hq)

end QuietRun

theorem quiet_brSendBpdu {data : List UInt8} (h : Announces br (p, bpduFrame (br.port p).devAddr data)) :
    Quiet br (brSendBpdu br p data) := by
  rw [brSendBpdu]
  split
  · refine ⟨rfl, ⟨_, rfl, fun m hm => ?_⟩, .inl, fun _ => .inl rfl⟩
    rwa [List.mem_singleton.mp hm]
  · exact .refl br

theorem messageAge_isSome (jiffies : UInt32) (hk : RootKnown br) : ∃ age, messageAge jiffies br = some age := by
  rw [messageAge]
  split
  · exact ⟨0, rfl⟩
  next hroot =>
      obtain ⟨p, hp⟩ := Option.isSome_iff_exists.mp (hk.resolve_left hroot)
      rw [hp]
      exact ⟨_, rfl⟩

theorem quiet_brTransmitTcn (hk : RootKnown br) (hroot : ¬ brIsRootBridge br) : QuietRun br (brTransmitTcn br) := by
  obtain ⟨p, hp⟩ := Option.isSome_iff_exists.mp (hk.resolve_left hroot)
  have hmem : p ∈ br.portList := List.mem_of_find?_eq_some hp
  rw [brTransmitTcn, hp]
  exact .some (quiet_brSendBpdu ⟨hmem, _, .inl rfl⟩)

theorem quiet_brTopologyChangeDetection (jiffies : UInt32) (hk : RootKnown br) : QuietRun br (brTopologyChangeDetection jiffies br) := by
  rw [brTopologyChangeDetection]
  split
  · exact .some (.of_eq rfl rfl id fun _ => rfl)
  next hroot =>
      split
      · exact .some (.refl br)
      · refine (quiet_brTransmitTcn hk hroot).bind fun b hb => .some ?_
        have hroot' : ¬ brIsRootBridge b := Config.brIsRootBridge_eq hb.config ▸ hroot
        exact ⟨rfl, (Quiet.refl b).sent, fun _ => .inr hroot', fun _ => .inl rfl⟩

theorem quiet_stopBeingRoot (jiffies : UInt32) (hk : RootKnown br) (hroot : ¬ brIsRootBridge br) : QuietRun br (stopBeingRoot jiffies br) := by
  have hhello : Quiet br { br with helloTimer := delTimer br.helloTimer } := .of_eq rfl rfl id fun _ => rfl
  rw [stopBeingRoot]
  split
  · have hdel : Quiet br { br with
        helloTimer := delTimer br.helloTimer, topologyChangeTimer := delTimer br.topologyChangeTimer } := .of_eq rfl rfl id fun _ => rfl
    refine .after hdel ((quiet_brTransmitTcn (Config.rootKnown hdel.config hk) hroot).bind fun b hb => .some ?_)
    have hroot' : ¬ brIsRootBridge b := by
      rw [Config.brIsRootBridge_eq hb.config]
      exact hroot
    exact ⟨rfl, (Quiet.refl b).sent, fun _ => .inr hroot', fun _ => .inl rfl⟩
  · exact .some hhello

end

section

variable {P : Type} [DecidableEq P] {br : NetBridge P} {p : P} {f : NetBridgePort → NetBridgePort}

@[simp] theorem setPort_port_self (f : NetBridgePort → NetBridgePort) : (setPort br p f).port p = f (br.port p) :=
  Function.update_self _ _ _

theorem setPort_port_of_ne (f : NetBridgePort → NetBridgePort) {q : P} (h : q ≠ p) :
    (setPort br p f).port q = br.port q := Function.update_of_ne h _ _

theorem setPort_field {α : Type} (g : NetBridgePort → α)
    (h : g (f (br.port p)) = g (br.port p)) (q : P) : g ((setPort br p f).port q) = g (br.port q) := by
  by_cases hq : q = p
  · subst hq
    rw [setPort_port_self, h]
  · rw [setPort_port_of_ne f hq]

theorem config_setPort (h : (f (br.port p)).config = (br.port p).config) :
    (setPort br p f).config = br.config := by
  have hport : (fun q => ((setPort br p f).port q).config) = fun q => (br.port q).config :=
    funext (setPort_field NetBridgePort.config h)
  rw [NetBridge.config, hport]
  rfl

theorem quiet_setPort (hconfig : (f (br.port p)).config = (br.port p).config)
    (hstate : (f (br.port p)).state = (br.port p).state) : Quiet br (setPort br p f) :=
  .of_eq (config_setPort hconfig) rfl id (setPort_field (·.state) hstate)

variable (jiffies : UInt32)

theorem quiet_brTransmitConfig (hk : RootKnown br) (hp : p ∈ br.portList) : QuietRun br (brTransmitConfig jiffies br p) := by
  rw [brTransmitConfig]
  split
  · exact .some (quiet_setPort rfl rfl)
  · obtain ⟨age, hage⟩ := messageAge_isSome jiffies hk
    rw [hage, Option.bind_eq_bind, Option.bind_some]
    split
    · have hsend : Quiet br (brSendConfigBpdu br p (configBpdu br p age)) :=
        quiet_brSendBpdu ⟨hp, _, .inr ⟨_, rfl, rfl, rfl, rfl, rfl⟩⟩
      exact .some (hsend.trans (quiet_setPort rfl rfl))
    · exact .some (.refl br)

theorem quiet_brConfigBpduGeneration (hk : RootKnown br) : QuietRun br (brConfigBpduGeneration jiffies br) := by
  refine QuietRun.foldlM br.portList fun b hb p hp => ?_
  split
  · exact quiet_brTransmitConfig jiffies (Config.rootKnown hb.config hk) (Config.portList_eq hb.config ▸ hp)
  · exact .some (.refl b)

theorem quiet_sendHellos (hk : RootKnown br) : QuietRun br (sendHellos jiffies br) := by
  rw [sendHellos]
  split
  · exact (quiet_brConfigBpduGeneration jiffies hk).bind fun b _ => .some (.of_eq rfl rfl id fun _ => rfl)
  · exact .some (.refl br)

theorem quiet_brBecomeRootBridge (hk : RootKnown br) :
    ∃ c, brBecomeRootBridge jiffies br = some c ∧ Quiet br c ∧ (brIsRootBridge c → ¬ c.tcnTimer.pending) := by
  have htimes : Quiet br { br with
      maxAge := br.bridgeMaxAge, helloTime := br.bridgeHelloTime, forwardDelay := br.bridgeForwardDelay } := .of_eq rfl rfl id fun _ => rfl
  have hkt := Config.rootKnown htimes.config hk
  obtain ⟨b, hb, hqb⟩ := quiet_brTopologyChangeDetection jiffies hkt
  have hdel : Quiet b { b with tcnTimer := delTimer b.tcnTimer } :=
    .of_eq rfl rfl (fun h => absurd h Bool.false_ne_true) fun _ => rfl
  obtain ⟨c, hc, hqc⟩ := quiet_sendHellos jiffies (Config.rootKnown hdel.config (Config.rootKnown hqb.config hkt))
  refine ⟨c, by rw [brBecomeRootBridge, hb]; exact hc, htimes.trans (hqb.trans (hdel.trans hqc)), fun hroot htcn => ?_⟩
  rcases hqc.tcn htcn with h | h
  · exact Bool.false_ne_true h
  · exact h (Config.brIsRootBridge_eq hqc.config ▸ hroot)

theorem quiet_brMakeBlocking (p : P) (hk : RootKnown br) :
    ∃ b, brMakeBlocking jiffies br p = some b ∧ Quiet br b ∧ Settled b p := by
  rw [brMakeBlocking]
  split
  next hstate =>
      have hdetect : QuietRun br (if (br.port p).state = .forwarding ∨ (br.port p).state = .learning then
          brTopologyChangeDetection jiffies br else some br) := by
        split
        · exact quiet_brTopologyChangeDetection jiffies hk
        · exact .some (.refl br)
      obtain ⟨b, hb, hq⟩ := hdetect
      have hen : (b.port p).state ≠ .disabled := fun h => hstate.1 ((Config.disabled_iff hq.config p).mp h)
      rw [hb]
      refine ⟨_, rfl, hq.trans ⟨config_setPort ?_, (Quiet.refl b).sent, .inl, fun q => ?_⟩, .inr (.inl ?_)⟩
      · simp [NetBridgePort.config, hen]
      · by_cases hqp : q = p
        · subst hqp
          exact .inr (.inl (by rw [setPort_port_self]))
        · exact .inl (by rw [setPort_port_of_ne _ hqp])
      · rw [setPort_port_self]
  next hstate =>
      refine ⟨br, rfl, .refl br, ?_⟩
      rw [Settled]
      tauto

theorem quiet_brMakeForwarding (hrole : HasRole br p) : Quiet br (brMakeForwarding jiffies br p) := by
  rw [brMakeForwarding]
  split
  next hblocking =>
      refine ⟨config_setPort ?_, (Quiet.refl br).sent, .inl, fun q => ?_⟩
      · cases br.stpEnabled <;> simp [NetBridgePort.config, hblocking]
      · by_cases hq : q = p
        · subst hq
          exact .inr (.inr ⟨hrole, by rw [setPort_port_self, entryState]⟩)
        · exact .inl (by rw [setPort_port_of_ne _ hq])
  · exact .refl br

theorem quiet_brSelectPortState (p : P) (hk : RootKnown br) :
    ∃ b, brSelectPortState jiffies br p = some b ∧ Quiet br b ∧ Settled b p := by
  have hpend : Quiet br (setPort br p fun q => { q with configPending := false, topologyChangeAck := false }) :=
    quiet_setPort rfl rfl
  have hage : Quiet br (setPort br p fun q => { q with messageAgeTimer := delTimer q.messageAgeTimer }) :=
    quiet_setPort rfl rfl
  rw [brSelectPortState]
  split
  next hdisabled => exact ⟨br, rfl, .refl br, .inl hdisabled⟩
  next =>
      split
      next hroot =>
          have hrole : HasRole br p := .inl hroot
          have hfwd := hpend.trans (quiet_brMakeForwarding jiffies ((Config.hasRole_iff hpend.config p).mpr hrole))
          exact ⟨_, rfl, hfwd, .inr (.inr ((Config.hasRole_iff hfwd.config p).mpr hrole))⟩
      next =>
          split
          next hdes =>
              have hrole : HasRole br p := .inr hdes
              have hfwd := hage.trans (quiet_brMakeForwarding jiffies ((Config.hasRole_iff hage.config p).mpr hrole))
              exact ⟨_, rfl, hfwd, .inr (.inr ((Config.hasRole_iff hfwd.config p).mpr hrole))⟩
          next =>
              obtain ⟨b, hb, hq, hs⟩ := quiet_brMakeBlocking jiffies p
                (Config.rootKnown hpend.config hk)
              exact ⟨b, hb, hpend.trans hq, hs⟩

theorem quiet_brPortStateSelection (hk : RootKnown br) :
    ∃ b, brPortStateSelection jiffies br = some b ∧ Quiet br b ∧ ∀ p ∈ b.portList, Settled b p := by
  have hloop (ps : List P) (a : NetBridge P) (ha : RootKnown a) :
      ∃ b, ps.foldlM (brSelectPortState jiffies) a = some b ∧ Quiet a b ∧ ∀ p ∈ ps, Settled b p := by
    induction ps generalizing a with
    | nil => exact ⟨a, rfl, .refl a, fun _ hp => absurd hp List.not_mem_nil⟩
    | cons p ps ih =>
        obtain ⟨b, hb, hab, hs⟩ := quiet_brSelectPortState jiffies p ha
        obtain ⟨c, hc, hbc, hrest⟩ := ih b (Config.rootKnown hab.config ha)
        refine ⟨c, by rw [List.foldlM_cons, hb]; exact hc, hab.trans hbc, fun q hq => ?_⟩
        rcases List.mem_cons.mp hq with rfl | hq
        · exact hbc.settled hs
        · exact hrest q hq
  obtain ⟨b, hb, hq, hs⟩ := hloop br.portList br hk
  exact ⟨b, hb, hq, Config.portList_eq hq.config ▸ hs⟩

end

end AliceModem.Stp
