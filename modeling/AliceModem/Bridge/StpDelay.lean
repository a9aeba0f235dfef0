import AliceModem.Bridge.StpRuns

namespace AliceModem.Stp

open Bpdu Disposal

structure Pace (P : Type) where
  portList : List P
  stpEnabled : Bool
  forwardDelay : UInt32
  bridgeForwardDelay : UInt32
  port : P → PortState × TimerList

section

variable {P : Type}

def NetBridge.pace (br : NetBridge P) : Pace P :=
  ⟨br.portList, br.stpEnabled, br.forwardDelay, br.bridgeForwardDelay,
    fun p => ((br.port p).state, (br.port p).forwardDelayTimer)⟩

variable {a b c br : NetBridge P} {p : P} {jiffies : UInt32}

theorem Pace.portList_eq (h : b.pace = a.pace) : b.portList = a.portList := congrArg Pace.portList h

theorem Pace.state_eq (h : b.pace = a.pace) (p : P) : (b.port p).state = (a.port p).state :=
  congrArg Prod.fst (congrFun (congrArg Pace.port h) p)

theorem Pace.timer_eq (h : b.pace = a.pace) (p : P) : (b.port p).forwardDelayTimer = (a.port p).forwardDelayTimer :=
  congrArg Prod.snd (congrFun (congrArg Pace.port h) p)

abbrev SamePace (a b : NetBridge P) : Prop := b.pace = a.pace

instance : IsPreorder (NetBridge P) SamePace where
  refl _ := rfl
  trans _ _ _ hab hbc := hbc.trans hab

/-- The result, if there is one, has come from the bridge before by `R`. -/
def Leads (R : NetBridge P → NetBridge P → Prop) (a : NetBridge P) (r : Option (NetBridge P)) : Prop :=
  ∀ b, r = some b → R a b

namespace Leads

variable {R : NetBridge P → NetBridge P → Prop} {r : Option (NetBridge P)}

theorem some (h : R a b) : Leads R a (some b) := fun _ hc => Option.some.inj hc ▸ h

variable [IsPreorder (NetBridge P) R]

theorem after (h : R a b) (hr : Leads R b r) : Leads R a r := fun c hc => IsTrans.trans a b c h (hr c hc)

theorem bind {f : NetBridge P → Option (NetBridge P)} (h : Leads R a r) (hf : ∀ b, Leads R b (f b)) :
    Leads R a (r >>= f) := by
  intro c hc
  obtain ⟨b, hb, hfb⟩ := Option.bind_eq_some_iff.mp hc
  exact IsTrans.trans a b c (h b hb) (hf b c hfb)

theorem foldlM {f : NetBridge P → P → Option (NetBridge P)} (hf : ∀ b p, Leads R b (f b p)) (ps : List P)
    (a : NetBridge P) : Leads R a (ps.foldlM f a) := by
  induction ps generalizing a with
  | nil => exact some (Std.Refl.refl a)
  | cons p ps ih =>
      rw [List.foldlM_cons]
      exact (hf a p).bind ih

end Leads

abbrev IdleRun (a : NetBridge P) (r : Option (NetBridge P)) : Prop := Leads SamePace a r

theorem pace_foldl {f : NetBridge P → P → NetBridge P} (hf : ∀ b p, (f b p).pace = b.pace) (ps : List P)
    (a : NetBridge P) : (ps.foldl f a).pace = a.pace := by
  induction ps generalizing a with
  | nil => rfl
  | cons p ps ih => exact (ih (f a p)).trans (hf a p)

theorem pace_brSendBpdu (br : NetBridge P) (p : P) (data : List UInt8) : (brSendBpdu br p data).pace = br.pace := by
  rw [brSendBpdu]
  split <;> rfl

theorem idle_brTransmitTcn (br : NetBridge P) : IdleRun br (brTransmitTcn br) := by
  intro c hc
  obtain ⟨p, -, hp⟩ := Option.bind_eq_some_iff.mp hc
  exact Option.some.inj hp ▸ pace_brSendBpdu br p tcnBytes

theorem idle_brTopologyChangeDetection (jiffies : UInt32) (br : NetBridge P) :
    IdleRun br (brTopologyChangeDetection jiffies br) := by
  rw [brTopologyChangeDetection]
  split
  · exact .some rfl
  · split
    · exact .some rfl
    · exact (idle_brTransmitTcn br).bind fun b => .some rfl

theorem idle_stopBeingRoot (jiffies : UInt32) (br : NetBridge P) : IdleRun br (stopBeingRoot jiffies br) := by
  rw [stopBeingRoot]
  split
  · exact .after rfl ((idle_brTransmitTcn _).bind fun b => .some rfl)
  · exact .some rfl

theorem idle_brRootSelection (br : NetBridge P) : IdleRun br (brRootSelection br) := by
  intro c hc
  obtain ⟨r, -, hr⟩ := Option.bind_eq_some_iff.mp hc
  split at hr
  · exact Option.some.inj hr ▸ rfl
  · obtain ⟨p, -, hp⟩ := Option.bind_eq_some_iff.mp hr
    exact Option.some.inj hp ▸ rfl

/-- How a port comes to its state: it keeps it, it takes no part any more, or
it starts to take part and its timer with it. -/
inductive PortMove (jiffies : UInt32) (a b : NetBridge P) (p : P) : Prop
  | same (hp : p ∈ a.portList) (hstate : (b.port p).state = (a.port p).state)
      (htimer : (b.port p).forwardDelayTimer = (a.port p).forwardDelayTimer)
  | stopped (hstate : (b.port p).state = .blocking ∨ (b.port p).state = .disabled)
      (htimer : (b.port p).forwardDelayTimer.pending = false)
  | started (delay : UInt32) (hdelay : delay = a.forwardDelay ∨ delay = a.bridgeForwardDelay)
      (hstate : (b.port p).state = entryState a) (htimer : (b.port p).forwardDelayTimer = ⟨true, jiffies + delay⟩)

structure Paced (jiffies : UInt32) (a b : NetBridge P) : Prop where
  stp : b.stpEnabled = a.stpEnabled
  delay : b.forwardDelay = a.forwardDelay ∨ b.forwardDelay = a.bridgeForwardDelay
  own : b.bridgeForwardDelay = a.bridgeForwardDelay
  port : ∀ p ∈ b.portList, PortMove jiffies a b p

theorem PortMove.of_pace (h : b.pace = a.pace) (hp : p ∈ b.portList) : PortMove jiffies a b p :=
  .same (Pace.portList_eq h ▸ hp) (Pace.state_eq h p) (Pace.timer_eq h p)

theorem PortMove.of_ports (h : PortMove jiffies a b p) (hstate : (c.port p).state = (b.port p).state)
    (htimer : (c.port p).forwardDelayTimer = (b.port p).forwardDelayTimer) : PortMove jiffies a c p := by
  cases h with
  | same hp hstate' htimer' => exact .same hp (hstate.trans hstate') (htimer.trans htimer')
  | stopped hstate' htimer' => exact .stopped (hstate ▸ hstate') (htimer ▸ htimer')
  | started delay hdelay hstate' htimer' => exact .started delay hdelay (hstate.trans hstate') (htimer.trans htimer')

namespace Paced

theorem of_pace (h : b.pace = a.pace) : Paced jiffies a b :=
  ⟨congrArg Pace.stpEnabled h, .inl (congrArg Pace.forwardDelay h), congrArg Pace.bridgeForwardDelay h,
    fun _ hp => .of_pace h hp⟩

theorem trans (hab : Paced jiffies a b) (hbc : Paced jiffies b c) : Paced jiffies a c where
  stp := hbc.stp.trans hab.stp
  delay := by
    rcases hbc.delay with h | h
    · rw [h]
      exact hab.delay
    · exact .inr (h.trans hab.own)
  own := hbc.own.trans hab.own
  port := by
    intro p hp
    cases hbc.port p hp with
    | same hb hstate htimer => exact (hab.port p hb).of_ports hstate htimer
    | stopped hstate htimer => exact .stopped hstate htimer
    | started delay hdelay hstate htimer =>
        refine .started delay ?_ (by rw [hstate, entryState, entryState, hab.stp]) htimer
        rcases hdelay with rfl | rfl
        · exact hab.delay
        · exact .inr hab.own

end Paced

instance : IsPreorder (NetBridge P) (Paced jiffies) where
  refl _ := .of_pace rfl
  trans _ _ _ := Paced.trans

abbrev PacedRun (jiffies : UInt32) (a : NetBridge P) (r : Option (NetBridge P)) : Prop := Leads (Paced jiffies) a r

theorem Leads.of_idle {r : Option (NetBridge P)} (h : IdleRun a r) : PacedRun jiffies a r :=
  fun b hb => .of_pace (h b hb)

end

section

variable {P : Type} [DecidableEq P] {br : NetBridge P} {p : P} {f : NetBridgePort → NetBridgePort}

theorem pace_setPort (hstate : (f (br.port p)).state = (br.port p).state)
    (htimer : (f (br.port p)).forwardDelayTimer = (br.port p).forwardDelayTimer) : (setPort br p f).pace = br.pace := by
  have hport : (fun q => (((setPort br p f).port q).state, ((setPort br p f).port q).forwardDelayTimer)) =
      fun q => ((br.port q).state, (br.port q).forwardDelayTimer) :=
    funext (setPort_field (fun q => (q.state, q.forwardDelayTimer)) (Prod.ext hstate htimer))
  rw [NetBridge.pace, hport]
  rfl

theorem paced_setPort {jiffies : UInt32}
    (h : PortMove jiffies br (setPort br p f) p) : Paced jiffies br (setPort br p f) := by
  refine ⟨rfl, .inl rfl, rfl, fun q hq => ?_⟩
  by_cases hqp : q = p
  · exact hqp ▸ h
  · exact .same hq (by rw [setPort_port_of_ne f hqp]) (by rw [setPort_port_of_ne f hqp])

end

section

variable {P : Type} [DecidableEq P] (jiffies : UInt32) (br : NetBridge P) (p : P)

theorem idle_brTransmitConfig : IdleRun br (brTransmitConfig jiffies br p) := by
  rw [brTransmitConfig]
  split
  · exact .some (pace_setPort rfl rfl)
  · intro c hc
    obtain ⟨age, -, hage⟩ := Option.bind_eq_some_iff.mp hc
    split at hage
    · rw [← Option.some.inj hage]
      exact (pace_setPort rfl rfl).trans (pace_brSendBpdu br p _)
    · exact Option.some.inj hage ▸ rfl

theorem idle_brConfigBpduGeneration : IdleRun br (brConfigBpduGeneration jiffies br) := by
  refine Leads.foldlM (fun b p => ?_) br.portList br
  split
  · exact idle_brTransmitConfig jiffies b p
  · exact .some rfl

theorem idle_sendHellos : IdleRun br (sendHellos jiffies br) := by
  rw [sendHellos]
  split
  · exact (idle_brConfigBpduGeneration jiffies br).bind fun b => .some rfl
  · exact .some rfl

theorem idle_brConfigurationUpdate : IdleRun br (brConfigurationUpdate br) := by
  refine (idle_brRootSelection br).bind fun b => .some (pace_foldl (fun b p => ?_) b.portList b)
  split
  · exact pace_setPort rfl rfl
  · rfl

theorem paced_brBecomeRootBridge : PacedRun jiffies br (brBecomeRootBridge jiffies br) := by
  let own : NetBridge P :=
    { br with maxAge := br.bridgeMaxAge, helloTime := br.bridgeHelloTime, forwardDelay := br.bridgeForwardDelay }
  have hown : Paced jiffies br own := ⟨rfl, .inr rfl, rfl, fun p hp => .same hp rfl rfl⟩
  refine .after hown (.of_idle ((idle_brTopologyChangeDetection jiffies own).bind fun b => ?_))
  exact .after rfl (idle_sendHellos jiffies { b with tcnTimer := delTimer b.tcnTimer })

theorem paced_brMakeBlocking : PacedRun jiffies br (brMakeBlocking jiffies br p) := by
  rw [brMakeBlocking]
  split
  · have hdetect : IdleRun br (if (br.port p).state = .forwarding ∨ (br.port p).state = .learning then
        brTopologyChangeDetection jiffies br else some br) := by
      split
      · exact idle_brTopologyChangeDetection jiffies br
      · exact .some rfl
    refine (Leads.of_idle hdetect).bind fun b => .some (paced_setPort (.stopped (.inl ?_) ?_))
    · rw [setPort_port_self]
    · rw [setPort_port_self]
      rfl
  · exact .some (.of_pace rfl)

theorem paced_brMakeForwarding : Paced jiffies br (brMakeForwarding jiffies br p) := by
  rw [brMakeForwarding]
  split
  · refine paced_setPort (.started br.forwardDelay (.inl rfl) ?_ ?_)
    · rw [setPort_port_self, entryState]
    · rw [setPort_port_self]
      rfl
  · exact .of_pace rfl

theorem paced_brSelectPortState : PacedRun jiffies br (brSelectPortState jiffies br p) := by
  have hpend : Paced jiffies br (setPort br p fun q => { q with configPending := false, topologyChangeAck := false }) :=
    .of_pace (pace_setPort rfl rfl)
  have hage : Paced jiffies br (setPort br p fun q => { q with messageAgeTimer := delTimer q.messageAgeTimer }) :=
    .of_pace (pace_setPort rfl rfl)
  rw [brSelectPortState]
  split
  · exact .some (.of_pace rfl)
  · split
    · exact .some (hpend.trans (paced_brMakeForwarding jiffies _ p))
    · split
      · exact .some (hage.trans (paced_brMakeForwarding jiffies _ p))
      · exact .after hpend (paced_brMakeBlocking jiffies _ p)

theorem paced_brPortStateSelection : PacedRun jiffies br (brPortStateSelection jiffies br) :=
  .foldlM (paced_brSelectPortState jiffies) br.portList br

theorem paced_brReconfigure (wasRoot : Bool) : PacedRun jiffies br (brReconfigure jiffies br wasRoot) := by
  refine (Leads.of_idle (idle_brConfigurationUpdate br)).bind fun b =>
    (paced_brPortStateSelection jiffies b).bind fun c => ?_
  split
  · exact paced_brBecomeRootBridge jiffies c
  · exact .some (.of_pace rfl)

theorem paced_brInitPort : Paced jiffies br (brInitPort br p) := by
  rw [brInitPort]
  let b := setPort br p fun q => { q with portId := brMakePortId q.priority q.portNo }
  have hid : Paced jiffies br b := .of_pace (pace_setPort rfl rfl)
  have hdes : Paced jiffies b (brBecomeDesignatedPort b p) := .of_pace (pace_setPort rfl rfl)
  refine hid.trans (hdes.trans (paced_setPort (.stopped (.inl ?_) ?_)))
  · rw [setPort_port_self]
  · rw [setPort_port_self]
    rfl

theorem paced_brStpEnablePort : PacedRun jiffies br (brStpEnablePort jiffies br p) :=
  .after (paced_brInitPort jiffies br p) (paced_brPortStateSelection jiffies _)

theorem paced_shutPort : Paced jiffies br (shutPort br p) := by
  have hdes : Paced jiffies br (brBecomeDesignatedPort br p) := .of_pace (pace_setPort rfl rfl)
  refine hdes.trans (paced_setPort (.stopped (.inr ?_) ?_))
  · rw [setPort_port_self]
  · rw [setPort_port_self]
    rfl

theorem paced_brStpDisablePort : PacedRun jiffies br (brStpDisablePort jiffies br p) :=
  .after (paced_shutPort jiffies br p) (paced_brReconfigure jiffies _ _)

theorem paced_brStpEnableBridge (ready : P → Bool) : PacedRun jiffies br (brStpEnableBridge jiffies br ready) := by
  have hhello : IdleRun br (brConfigBpduGeneration jiffies
      { br with helloTimer := modTimer br.helloTimer (jiffies + br.helloTime) }) :=
    .after rfl (idle_brConfigBpduGeneration jiffies _)
  refine (Leads.of_idle hhello).bind fun b => .foldlM (fun c p => ?_) b.portList b
  split
  · exact paced_brStpEnablePort jiffies c p
  · exact .some (.of_pace rfl)

theorem paced_brStpDisableBridge : PacedRun jiffies br (brStpDisableBridge jiffies br) := by
  refine (Leads.foldlM (fun c p => ?_) br.portList br).bind fun b => .some (.of_pace rfl)
  split
  · exact paced_brStpDisablePort jiffies c p
  · exact .some (.of_pace rfl)

theorem pace_renamed (addr : BitVec 48) : (renamed br addr).pace = br.pace := by
  refine (pace_foldl (fun b p => ?_) br.portList _).trans rfl
  exact pace_setPort rfl rfl

theorem pace_reprioritised (newprio : UInt16) : (reprioritised br newprio).pace = br.pace := by
  refine (rfl : _ = (br.portList.foldl _ br).pace).trans (pace_foldl (fun b p => ?_) br.portList br)
  split
  · exact pace_setPort rfl rfl
  · rfl

theorem paced_brStpRecalculateBridgeId : PacedRun jiffies br (brStpRecalculateBridgeId jiffies br) := by
  rw [brStpRecalculateBridgeId]
  split
  · exact .after (.of_pace (pace_renamed br _)) (paced_brReconfigure jiffies _ _)
  · exact .some (.of_pace rfl)

theorem paced_brStpSetPortPriority (newprio : UInt8) : PacedRun jiffies br (brStpSetPortPriority jiffies br p newprio) := by
  have hprio : Paced jiffies br (withPortPriority br p newprio) := .of_pace (pace_setPort rfl rfl)
  rw [brStpSetPortPriority]
  split
  · have hdes : Paced jiffies (withPortPriority br p newprio) (brBecomeDesignatedPort (withPortPriority br p newprio) p) :=
      .of_pace (pace_setPort rfl rfl)
    exact .after (hprio.trans hdes) (paced_brPortStateSelection jiffies _)
  · exact .some hprio

theorem paced_brStpSetPathCost (pathCost : UInt32) : PacedRun jiffies br (brStpSetPathCost jiffies br p pathCost) := by
  have hcost : Paced jiffies br (setPort br p fun q => { q with pathCost := pathCost }) := .of_pace (pace_setPort rfl rfl)
  exact .after hcost ((Leads.of_idle (idle_brConfigurationUpdate _)).bind (paced_brPortStateSelection jiffies))

theorem paced_linkPort (devAddr : BitVec 48) (cost : UInt32) (index : UInt16) :
    Paced jiffies br (linkPort br p devAddr cost index) := by
  refine ⟨rfl, .inl rfl, rfl, fun q hq => ?_⟩
  by_cases hqp : q = p
  · subst hqp
    exact .stopped (.inr (by rw [linkPort_port_self]; rfl)) (by rw [linkPort_port_self]; rfl)
  · have hport : (linkPort br p devAddr cost index).port q = br.port q := linkPort_port_of_ne hqp devAddr cost index
    exact .same ((List.mem_cons.mp hq).resolve_left hqp) (by rw [hport]) (by rw [hport])

theorem paced_brAddIf (devAddr : BitVec 48) (cost : UInt32) (ready : Bool) :
    PacedRun jiffies br (brAddIf jiffies br p devAddr cost ready) := by
  rw [brAddIf]
  split
  · exact .some (.of_pace rfl)
  next index _ =>
      refine .after (paced_linkPort jiffies br p devAddr cost index)
        ((paced_brStpRecalculateBridgeId jiffies _).bind fun b => ?_)
      split
      · exact paced_brStpEnablePort jiffies b p
      · exact .some (.of_pace rfl)

theorem paced_brDelIf : PacedRun jiffies br (brDelIf jiffies br p) := by
  refine (paced_brStpDisablePort jiffies br p).bind fun b => .after ?_ (paced_brStpRecalculateBridgeId jiffies _)
  exact ⟨rfl, .inl rfl, rfl, fun q hq => .same (List.mem_of_mem_erase hq) rfl rfl⟩

theorem paced_brDeviceEvent (e : DeviceEvent) : PacedRun jiffies br (brDeviceEvent jiffies br p e) := by
  refine brDeviceEvent_rule jiffies (.some (.of_pace rfl)) (fun _ _ => paced_brStpEnablePort jiffies br p)
    (fun _ => paced_brStpDisablePort jiffies br p) fun addr _ => ?_
  have haddr : Paced jiffies br (setPort br p fun q => { q with devAddr := addr }) := .of_pace (pace_setPort rfl rfl)
  exact .after haddr (paced_brStpRecalculateBridgeId jiffies _)

theorem paced_brMessageAgeTimerExpired : PacedRun jiffies br (brMessageAgeTimerExpired jiffies br p) := by
  rw [brMessageAgeTimerExpired]
  split
  · exact .some (.of_pace rfl)
  · have hdes : Paced jiffies br (brBecomeDesignatedPort br p) := .of_pace (pace_setPort rfl rfl)
    exact .after hdes (paced_brReconfigure jiffies _ _)

theorem idle_brReceivedTcnBpdu : IdleRun br (brReceivedTcnBpdu jiffies br p) := by
  rw [brReceivedTcnBpdu]
  split
  · refine (idle_brTopologyChangeDetection jiffies br).bind fun b => ?_
    have hack : (setPort b p fun q => { q with topologyChangeAck := true }).pace = b.pace := pace_setPort rfl rfl
    exact .after hack (idle_brTransmitConfig jiffies _ p)
  · exact .some rfl

variable {br} {c : NetBridge P}

theorem move_brReceivedConfigBpdu {bpdu : BrConfigBpdu} (hc : brReceivedConfigBpdu jiffies br p bpdu = some c) {q : P}
    (hq : q ∈ c.portList) : PortMove jiffies br c q := by
  rw [brReceivedConfigBpdu] at hc
  split at hc
  · rw [← bind_assoc, ← bind_assoc] at hc
    obtain ⟨d, hd, hlast⟩ := Option.bind_eq_some_iff.mp hc
    have hrecord : Paced jiffies br (brRecordConfigInformation jiffies br p bpdu) := .of_pace (pace_setPort rfl rfl)
    have hupdate := (Leads.of_idle (idle_brConfigurationUpdate (brRecordConfigInformation jiffies br p bpdu))).bind
      (paced_brPortStateSelection jiffies)
    have hmoved : Paced jiffies br d := by
      refine (Leads.after hrecord (hupdate.bind fun e => ?_)) d hd
      split
      · exact .of_idle (idle_stopBeingRoot jiffies e)
      · exact .some (.of_pace rfl)
    split at hlast
    · obtain ⟨e, he, heq⟩ := Option.bind_eq_some_iff.mp hlast
      have hpace := idle_brConfigBpduGeneration jiffies _ e he
      have hpace' : c.pace = e.pace := by
        rw [← Option.some.inj heq]
        split <;> rfl
      have hall := hpace'.trans hpace
      exact (hmoved.port q (Pace.portList_eq hall ▸ hq)).of_ports (Pace.state_eq hall q) (Pace.timer_eq hall q)
    · exact Option.some.inj hlast ▸ hmoved.port q (Option.some.inj hlast ▸ hq)
  · split at hc
    · exact .of_pace (idle_brTransmitConfig jiffies br p c hc) hq
    · exact .of_pace (Option.some.inj hc ▸ rfl) hq

inductive Advance (jiffies : UInt32) (a b : NetBridge P) (p : P) : Prop
  | learn (hbefore : (a.port p).state = .listening) (hstate : (b.port p).state = .learning)
      (htimer : (b.port p).forwardDelayTimer = ⟨true, jiffies + a.forwardDelay⟩)
  | forward (hbefore : (a.port p).state = .learning) (hstate : (b.port p).state = .forwarding)
      (htimer : (b.port p).forwardDelayTimer.pending = false)
  | stay (h1 : (a.port p).state ≠ .listening) (h2 : (a.port p).state ≠ .learning)
      (hstate : (b.port p).state = (a.port p).state) (htimer : (b.port p).forwardDelayTimer.pending = false)

theorem step_forwardDelayTimer (hc : step jiffies br (.forwardDelayTimer p) = some c) :
    c.portList = br.portList ∧ Advance jiffies br c p ∧
      ∀ q ≠ p, (c.port q).state = (br.port q).state ∧ (c.port q).forwardDelayTimer = (br.port q).forwardDelayTimer := by
  let fired := setPort br p fun q => { q with forwardDelayTimer := delTimer q.forwardDelayTimer }
  have hself : fired.port p = { br.port p with forwardDelayTimer := delTimer (br.port p).forwardDelayTimer } :=
    setPort_port_self _
  have hother {q : P} (hq : q ≠ p) : fired.port q = br.port q := setPort_port_of_ne _ hq
  change brForwardDelayTimerExpired jiffies fired p = some c at hc
  rw [brForwardDelayTimerExpired] at hc
  split at hc
  next hstate =>
      rw [← Option.some.inj hc]
      refine ⟨rfl, .learn (by rwa [hself] at hstate) (by rw [setPort_port_self]) (by rw [setPort_port_self]; rfl),
        fun q hq => ?_⟩
      rw [setPort_port_of_ne _ hq, hother hq]
      exact ⟨rfl, rfl⟩
  next hlisten =>
      split at hc
      next hstate =>
          have hpace : c.pace = (setPort fired p fun q => { q with state := .forwarding }).pace := by
            dsimp only at hc
            split at hc
            · exact idle_brTopologyChangeDetection jiffies _ c hc
            · exact Option.some.inj hc ▸ rfl
          refine ⟨(Pace.portList_eq hpace).trans rfl, .forward (by rwa [hself] at hstate) ?_ ?_, fun q hq => ?_⟩
          · rw [Pace.state_eq hpace, setPort_port_self]
          · rw [Pace.timer_eq hpace, setPort_port_self, hself]
            rfl
          · rw [Pace.state_eq hpace, Pace.timer_eq hpace, setPort_port_of_ne _ hq, hother hq]
            exact ⟨rfl, rfl⟩
      next hlearn =>
          rw [← Option.some.inj hc]
          rw [hself] at hlisten hlearn
          refine ⟨rfl, .stay hlisten hlearn (by rw [hself]) (by rw [hself]; rfl), fun q hq => ?_⟩
          rw [hother hq]
          exact ⟨rfl, rfl⟩

theorem step_moves {e : Event P} (hc : step jiffies br e = some c) (hp : p ∈ c.portList) :
    PortMove jiffies br c p ∨ e = .forwardDelayTimer p ∧ p ∈ br.portList ∧ Advance jiffies br c p := by
  cases e with
  | frame q data =>
      have hframe : brStpHandleBpdu jiffies br q data = some c → PortMove jiffies br c p :=
        brStpHandleBpdu_rule (R := fun r => r = some c → PortMove jiffies br c p) jiffies
          (fun h => .of_pace (Option.some.inj h ▸ rfl) hp) (fun bpdu _ h => move_brReceivedConfigBpdu jiffies q h hp)
          fun h => .of_pace (idle_brReceivedTcnBpdu jiffies br q c h) hp
      exact .inl (hframe hc)
  | helloTimer =>
      have hidle := idle_sendHellos jiffies { br with helloTimer := delTimer br.helloTimer }
      exact .inl (.of_pace (Leads.after (R := SamePace) rfl hidle c hc) hp)
  | tcnTimer =>
      have hidle : IdleRun { br with tcnTimer := delTimer br.tcnTimer }
          (brTcnTimerExpired jiffies { br with tcnTimer := delTimer br.tcnTimer }) := by
        rw [brTcnTimerExpired]
        split
        · exact (idle_brTransmitTcn _).bind fun b => .some rfl
        · exact .some rfl
      exact .inl (.of_pace (Leads.after (R := SamePace) rfl hidle c hc) hp)
  | messageAgeTimer q =>
      have hfired : Paced jiffies br (setPort br q fun r => { r with messageAgeTimer := delTimer r.messageAgeTimer }) :=
        .of_pace (pace_setPort rfl rfl)
      exact .inl ((hfired.trans (paced_brMessageAgeTimerExpired jiffies _ q c hc)).port p hp)
  | forwardDelayTimer q =>
      obtain ⟨hlist, hadvance, hrest⟩ := step_forwardDelayTimer jiffies q hc
      by_cases hpq : p = q
      · subst hpq
        exact .inr ⟨rfl, hlist ▸ hp, hadvance⟩
      · exact .inl (.same (hlist ▸ hp) (hrest p hpq).1 (hrest p hpq).2)
  | holdTimer q =>
      have hidle : IdleRun br (step jiffies br (.holdTimer q)) := by
        have hfired : (setPort br q fun r => { r with holdTimer := delTimer r.holdTimer }).pace = br.pace :=
          pace_setPort rfl rfl
        refine .after hfired fun b hb => ?_
        change brHoldTimerExpired jiffies _ q = some b at hb
        rw [brHoldTimerExpired] at hb
        split at hb
        · exact idle_brTransmitConfig jiffies _ q b hb
        · exact Option.some.inj hb ▸ rfl
      exact .inl (.of_pace (hidle c hc) hp)
  | device q e => exact .inl ((paced_brDeviceEvent jiffies br q e c hc).port p hp)
  | devOpen ready =>
      have hopen : PacedRun jiffies br (brDevOpen jiffies br ready) :=
        (paced_brStpEnableBridge jiffies br ready).bind fun b => .some (.of_pace rfl)
      exact .inl ((hopen c hc).port p hp)
  | devStop =>
      have hstop : PacedRun jiffies br (brDevStop jiffies br) :=
        (paced_brStpDisableBridge jiffies br).bind fun b => .some (.of_pace rfl)
      exact .inl ((hstop c hc).port p hp)
  | addIf q devAddr cost ready => exact .inl ((paced_brAddIf jiffies br q devAddr cost ready c hc).port p hp)
  | delIf q => exact .inl ((paced_brDelIf jiffies br q c hc).port p hp)
  | setBridgePriority newprio =>
      have hprio : Paced jiffies br (reprioritised br newprio) := .of_pace (pace_reprioritised br newprio)
      exact .inl ((hprio.trans (paced_brReconfigure jiffies _ _ c hc)).port p hp)
  | setPortPriority q newprio => exact .inl ((paced_brStpSetPortPriority jiffies br q newprio c hc).port p hp)
  | setPathCost q pathCost => exact .inl ((paced_brStpSetPathCost jiffies br q pathCost c hc).port p hp)
  | topologyChangeTimer | setStpState | setForwardDelay | setHelloTime | setMaxAge =>
      obtain rfl := Option.some.inj hc
      exact .inl (.same hp rfl rfl)

end

section

variable {P : Type} {p : P}

def TimerRuns (br : NetBridge P) (p : P) : Prop :=
  (br.port p).forwardDelayTimer.pending = true ↔ (br.port p).state = .listening ∨ (br.port p).state = .learning

theorem PortMove.timerRuns {jiffies : UInt32} {a b : NetBridge P} (h : PortMove jiffies a b p)
    (ha : p ∈ a.portList → TimerRuns a p) : TimerRuns b p := by
  cases h with
  | same hp hstate htimer =>
      rw [TimerRuns, hstate, htimer]
      exact ha hp
  | stopped hstate htimer =>
      rw [TimerRuns, htimer]
      rcases hstate with h | h <;> simp [h]
  | started delay hdelay hstate htimer =>
      rw [TimerRuns, hstate, htimer, entryState]
      cases a.stpEnabled <;> simp

theorem Advance.timerRuns {jiffies : UInt32} {a b : NetBridge P} (h : Advance jiffies a b p) : TimerRuns b p := by
  cases h with
  | learn hbefore hstate htimer => simp [TimerRuns, hstate, htimer]
  | forward hbefore hstate htimer => simp [TimerRuns, hstate, htimer]
  | stay h1 h2 hstate htimer => simp [TimerRuns, hstate, htimer, h1, h2]

/-- The protocol is on, and its delays are at least `D` jiffies. -/
structure Delayed (D : ℕ) (br : NetBridge P) : Prop where
  stp : br.stpEnabled
  delay : D ≤ br.forwardDelay.toNat ∧ br.forwardDelay.toNat < 2147483648
  own : D ≤ br.bridgeForwardDelay.toNat ∧ br.bridgeForwardDelay.toNat < 2147483648

/-- A timer that comes due at `due`, as seen at `now`. -/
def RunsTo (t : TimerList) (now due : ℕ) : Prop := t = ⟨true, .ofNat due⟩ ∧ due < now + 2147483648

theorem RunsTo.mono {t : TimerList} {now now' due : ℕ} (h : RunsTo t now due) (hle : now ≤ now') : RunsTo t now' due :=
  ⟨h.1, by have := h.2; omega⟩

theorem runsTo_start {now : ℕ} {delay : UInt32} (h : delay.toNat < 2147483648) :
    RunsTo ⟨true, .ofNat now + delay⟩ now (now + delay.toNat) := by
  refine ⟨?_, by omega⟩
  rw [UInt32.ofNat_add, UInt32.ofNat_toNat]

theorem RunsTo.le_of_due {t : TimerList} {now due : ℕ} (h : RunsTo t now due) (hdue : Due (.ofNat now) t) : due ≤ now := by
  obtain ⟨rfl, hlt⟩ := h
  have hdiff := hdue.2
  rw [UInt32.toNat_sub, UInt32.toNat_ofNat', UInt32.toNat_ofNat'] at hdiff
  omega

/-- How far a port can be that took no part at the time `start`. -/
inductive Progress (D start now : ℕ) (q : NetBridgePort) : Prop
  | waiting (hstate : q.state = .blocking ∨ q.state = .disabled)
  | listening (hstate : q.state = .listening) (due : ℕ) (hruns : RunsTo q.forwardDelayTimer now due)
      (hdue : start + D ≤ due)
  | learning (hstate : q.state = .learning) (due : ℕ) (hruns : RunsTo q.forwardDelayTimer now due)
      (hnow : start + D ≤ now) (hdue : start + 2 * D ≤ due)
  | forwarding (hstate : q.state = .forwarding) (hnow : start + 2 * D ≤ now)

variable {D start now now' : ℕ} {a b : NetBridge P}

theorem Progress.later {q q' : NetBridgePort} (h : Progress D start now q) (hnow : now ≤ now') (hstate : q'.state = q.state)
    (htimer : q'.forwardDelayTimer = q.forwardDelayTimer) : Progress D start now' q' := by
  cases h with
  | waiting h => exact .waiting (hstate ▸ h)
  | listening h due hruns hdue => exact .listening (hstate.trans h) due (htimer ▸ hruns.mono hnow) hdue
  | learning h due hruns hle hdue =>
      exact .learning (hstate.trans h) due (htimer ▸ hruns.mono hnow) (hle.trans hnow) hdue
  | forwarding h hle => exact .forwarding (hstate.trans h) (hle.trans hnow)

theorem PortMove.progress (h : PortMove (.ofNat now') a b p) (hd : Delayed D a) (hstart : start ≤ now) (hnow : now ≤ now')
    (ha : p ∈ a.portList → Progress D start now (a.port p)) : Progress D start now' (b.port p) := by
  cases h with
  | same hp hstate htimer => exact (ha hp).later hnow hstate htimer
  | stopped hstate htimer => exact .waiting hstate
  | started delay hdelay hstate htimer =>
      have hrange : D ≤ delay.toNat ∧ delay.toNat < 2147483648 := by
        rcases hdelay with rfl | rfl
        · exact hd.delay
        · exact hd.own
      have hlisten : (b.port p).state = .listening := by rw [hstate, entryState, if_pos hd.stp]
      exact .listening hlisten (now' + delay.toNat) (htimer ▸ runsTo_start hrange.2) (by omega)

theorem Advance.progress (h : Advance (.ofNat now') a b p) (hd : Delayed D a) (hnow : now ≤ now')
    (hdue : Due (.ofNat now') (a.port p).forwardDelayTimer) (ha : Progress D start now (a.port p)) :
    Progress D start now' (b.port p) := by
  cases h with
  | learn hbefore hstate htimer =>
      cases ha with
      | listening hlisten due hruns hle =>
          have := (hruns.mono hnow).le_of_due hdue
          have hdelay := hd.delay
          exact .learning hstate (now' + a.forwardDelay.toNat) (htimer ▸ runsTo_start hdelay.2) (by omega) (by omega)
      | waiting h => simp [hbefore] at h
      | learning h => simp [hbefore] at h
      | forwarding h => simp [hbefore] at h
  | forward hbefore hstate htimer =>
      cases ha with
      | learning hlearn due hruns hge hle =>
          have := (hruns.mono hnow).le_of_due hdue
          exact .forwarding hstate (by omega)
      | waiting h => simp [hbefore] at h
      | listening h => simp [hbefore] at h
      | forwarding h => simp [hbefore] at h
  | stay h1 h2 hstate htimer =>
      cases ha with
      | waiting h => exact .waiting (hstate ▸ h)
      | forwarding h hle => exact .forwarding (hstate.trans h) (hle.trans hnow)
      | listening h => exact absurd h h1
      | learning h => exact absurd h h2

end

section

variable {P : Type} [DecidableEq P] {p : P} {D : ℕ}

/-- No port gets stuck on its way to forwarding, and no timer runs for a port
that is not on its way. -/
theorem forward_delay_timer_runs {s : Clocked P} (h : Reached s) :
    ∀ p ∈ s.br.portList, (s.br.port p).forwardDelayTimer.pending = true ↔
      (s.br.port p).state = .listening ∨ (s.br.port p).state = .learning := by
  induction h with
  | start h =>
      obtain ⟨port, hs⟩ := h
      intro p hp
      rw [hs] at hp
      exact absurd hp List.not_mem_nil
  | next _ hstep ih =>
      intro p hp
      cases hstep with
      | event e hnow henabled hstep =>
          rcases step_moves _ p hstep hp with hmove | ⟨-, -, hadvance⟩
          · exact hmove.timerRuns (ih p)
          · exact hadvance.timerRuns

theorem openedBridge_timer_runs : (openedBridge.port ()).forwardDelayTimer.pending = true :=
  (forward_delay_timer_runs openedBridge_reached () (by decide)).mpr (.inr (by decide))

/-- One event after which the protocol is on with its delays. -/
def Clocked.DelayedStep (D : ℕ) (s s' : Clocked P) : Prop := s.Step s' ∧ Delayed D s'.br

theorem delayed_progress {s₀ s : Clocked P} (h₀ : Delayed D s₀.br)
    (hp₀ : p ∈ s₀.br.portList → (s₀.br.port p).state = .blocking ∨ (s₀.br.port p).state = .disabled)
    (h : Transition.Reach (fun s => s = s₀) (Clocked.DelayedStep D) s) :
    Delayed D s.br ∧ s₀.now ≤ s.now ∧ (p ∈ s.br.portList → Progress D s₀.now s.now (s.br.port p)) := by
  induction h with
  | start h =>
      subst h
      exact ⟨h₀, le_rfl, fun hp => .waiting (hp₀ hp)⟩
  | next _ hstep ih =>
      obtain ⟨hd, hle, hs⟩ := ih
      obtain ⟨hstep, hd'⟩ := hstep
      refine ⟨hd', ?_⟩
      cases hstep with
      | event e hnow henabled hstep =>
          refine ⟨hle.trans hnow, fun hp => ?_⟩
          rcases step_moves _ p hstep hp with hmove | ⟨rfl, hmem, hadvance⟩
          · exact hmove.progress hd hle hnow hs
          · exact hadvance.progress hd hnow henabled.2 (hs hmem)

/-- While the protocol is on with delays of at least `D` jiffies, a port that
took no part learns after `D` jiffies at the earliest, and forwards after
twice as many. -/
theorem forwarding_waits {s₀ s : Clocked P} (h₀ : Delayed D s₀.br)
    (hp₀ : p ∈ s₀.br.portList → (s₀.br.port p).state = .blocking ∨ (s₀.br.port p).state = .disabled)
    (h : Transition.Reach (fun s => s = s₀) (Clocked.DelayedStep D) s) (hp : p ∈ s.br.portList) :
    ((s.br.port p).state = .learning → s₀.now + D ≤ s.now) ∧
      ((s.br.port p).state = .forwarding → s₀.now + 2 * D ≤ s.now) := by
  cases (delayed_progress h₀ hp₀ h).2.2 hp with
  | waiting h => rcases h with h | h <;> simp [h]
  | listening h => simp [h]
  | learning h due hruns hle => simp [h, hle]
  | forwarding h hle => simp [h, hle]

end

def listeningBridge : NetBridge Unit := after 0 (setStpState addedBridge true) (.devOpen fun _ => true)

def learningBridge : NetBridge Unit := after 3000 listeningBridge (.forwardDelayTimer ())

def forwardingBridge : NetBridge Unit := after 6000 learningBridge (.forwardDelayTimer ())

theorem forwardingBridge_waits : (forwardingBridge.port ()).state = .forwarding ∧ 0 + 2 * 3000 ≤ 6000 := by
  have hstate : (forwardingBridge.port ()).state = .forwarding := by decide
  have hrun : Transition.Reach (fun s : Clocked Unit => s = ⟨0, setStpState addedBridge true⟩)
      (Clocked.DelayedStep 3000) ⟨6000, forwardingBridge⟩ := by
    refine .next (s := ⟨3000, learningBridge⟩) (.next (s := ⟨0, listeningBridge⟩) (.next (.start rfl) ⟨?_, ?_⟩) ⟨?_, ?_⟩)
      ⟨?_, ?_⟩
    · exact .event (.devOpen fun _ => true) le_rfl (by decide : ¬ addedBridge.up) (step_after (by decide))
    · exact ⟨by decide, by decide, by decide⟩
    · exact .event (.forwardDelayTimer ()) (by decide) ⟨by decide, by decide⟩ (step_after (by decide))
    · exact ⟨by decide, by decide, by decide⟩
    · exact .event (.forwardDelayTimer ()) (by decide) ⟨by decide, by decide⟩ (step_after (by decide))
    · exact ⟨by decide, by decide, by decide⟩
  exact ⟨hstate, (forwarding_waits ⟨by decide, by decide, by decide⟩ (fun _ => .inr (by decide)) hrun (by decide)).2 hstate⟩

end AliceModem.Stp
