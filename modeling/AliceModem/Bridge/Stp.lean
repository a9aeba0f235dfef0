import AliceModem.Bridge.Bpdu
import AliceModem.Bridge.Disposal

namespace AliceModem.Stp

open Bpdu Disposal

/-- A `struct timer_list`; `expires` keeps its value when the timer is deleted. -/
structure TimerList where
  pending : Bool
  expires : UInt32
  deriving DecidableEq

def modTimer (_ : TimerList) (expires : UInt32) : TimerList := ⟨true, expires⟩

def delTimer (t : TimerList) : TimerList := { t with pending := false }

/-- The fields of `struct net_bridge_port` that the protocol uses, and the
address of the device. -/
structure NetBridgePort where
  devAddr : BitVec 48
  priority : UInt8
  state : PortState
  portNo : UInt16
  topologyChangeAck : Bool
  configPending : Bool
  portId : UInt16
  designatedPort : UInt16
  designatedRoot : BridgeId
  designatedBridge : BridgeId
  pathCost : UInt32
  designatedCost : UInt32
  forwardDelayTimer : TimerList
  holdTimer : TimerList
  messageAgeTimer : TimerList
  deriving DecidableEq

/-- The fields of `struct net_bridge` that the protocol uses; `P` names the
ports by their pointers. `up` is `IFF_UP` of the bridge's device, and `sent`
has the frames given to the devices of the ports. -/
structure NetBridge (P : Type) where
  portList : List P
  port : P → NetBridgePort
  up : Bool
  designatedRoot : BridgeId
  bridgeId : BridgeId
  rootPathCost : UInt32
  maxAge : UInt32
  helloTime : UInt32
  forwardDelay : UInt32
  bridgeMaxAge : UInt32
  bridgeHelloTime : UInt32
  bridgeForwardDelay : UInt32
  rootPort : UInt16
  stpEnabled : Bool
  topologyChange : Bool
  topologyChangeDetected : Bool
  helloTimer : TimerList
  tcnTimer : TimerList
  topologyChangeTimer : TimerList
  sent : List (P × List UInt8)

def brHoldTime : UInt32 := 200

def messageAgeIncr : UInt32 := 1

section

variable {P : Type} (br : NetBridge P)

def brGetPort (portNo : UInt16) : Option P := br.portList.find? fun p => (br.port p).portNo = portNo

def brIsRootBridge : Bool := br.bridgeId = br.designatedRoot

def brIsDesignatedPort (p : P) : Bool :=
  (br.port p).designatedBridge = br.bridgeId ∧ (br.port p).designatedPort = (br.port p).portId

def NetBridgePort.cost (p : NetBridgePort) : UInt32 := p.designatedCost + p.pathCost

/-- The comparisons are made one after the other until one decides. There is no
result if the port `rootPort` is missing. -/
def brShouldBecomeRootPort (p : P) (rootPort : UInt16) : Option Bool :=
  if (br.port p).state = .disabled ∨ brIsDesignatedPort br p then some false
  else if br.bridgeId ≤ (br.port p).designatedRoot then some false
  else if rootPort = 0 then some true
  else do
    let rp ← brGetPort br rootPort
    let a := br.port p
    let b := br.port rp
    some (((compare a.designatedRoot b.designatedRoot).then <|
      (compare a.cost.toNat b.cost.toNat).then <|
      (compare a.designatedBridge b.designatedBridge).then <|
      (compare a.designatedPort.toNat b.designatedPort.toNat).then <|
      compare a.portId.toNat b.portId.toNat) = .lt)

def brRootSelection : Option (NetBridge P) := do
  let rootPort ← br.portList.foldlM (fun rootPort p => do
    let better ← brShouldBecomeRootPort br p rootPort
    some (if better then (br.port p).portNo else rootPort)) 0
  if rootPort = 0 then
    some { br with rootPort := rootPort, designatedRoot := br.bridgeId, rootPathCost := 0 }
  else do
    let p ← brGetPort br rootPort
    some { br with
      rootPort := rootPort
      designatedRoot := (br.port p).designatedRoot
      rootPathCost := (br.port p).cost }

end

section

variable {P : Type} [DecidableEq P] (jiffies : UInt32) (br : NetBridge P)

def setPort (p : P) (f : NetBridgePort → NetBridgePort) : NetBridge P :=
  { br with port := Function.update br.port p (f (br.port p)) }

/-- `br_send_bpdu`; a frame for which there is no memory is lost like one that
the network drops. -/
def brSendBpdu (p : P) (data : List UInt8) : NetBridge P :=
  if br.stpEnabled then { br with sent := br.sent ++ [(p, bpduFrame (br.port p).devAddr data)] } else br

def brSendConfigBpdu (p : P) (bpdu : BrConfigBpdu) : NetBridge P := brSendBpdu br p (configBytes bpdu)

def brSendTcnBpdu (p : P) : NetBridge P := brSendBpdu br p tcnBytes

/-- The age of the information about the root; the bridge that is not the root
reads it off the timer of its root port. -/
def messageAge : Option UInt32 :=
  if brIsRootBridge br then some 0
  else do
    let root ← brGetPort br br.rootPort
    some (br.maxAge - ((br.port root).messageAgeTimer.expires - jiffies) + messageAgeIncr)

def configBpdu (p : P) (age : UInt32) : BrConfigBpdu where
  topologyChange := br.topologyChange
  topologyChangeAck := (br.port p).topologyChangeAck
  root := br.designatedRoot
  rootPathCost := br.rootPathCost
  bridgeId := br.bridgeId
  portId := (br.port p).portId
  messageAge := age
  maxAge := br.maxAge
  helloTime := br.helloTime
  forwardDelay := br.forwardDelay

def brTransmitConfig (p : P) : Option (NetBridge P) :=
  if (br.port p).holdTimer.pending then some (setPort br p fun q => { q with configPending := true })
  else do
    let age ← messageAge jiffies br
    if age.toNat < br.maxAge.toNat then
      some <| setPort (brSendConfigBpdu br p (configBpdu br p age)) p fun q =>
        { q with
          topologyChangeAck := false
          configPending := false
          holdTimer := modTimer q.holdTimer (jiffies + brHoldTime) }
    else some br

def brRecordConfigInformation (p : P) (bpdu : BrConfigBpdu) : NetBridge P :=
  setPort br p fun q =>
    { q with
      designatedRoot := bpdu.root
      designatedCost := bpdu.rootPathCost
      designatedBridge := bpdu.bridgeId
      designatedPort := bpdu.portId
      messageAgeTimer := modTimer q.messageAgeTimer (jiffies + (br.maxAge - bpdu.messageAge)) }

def brRecordConfigTimeoutValues (bpdu : BrConfigBpdu) : NetBridge P :=
  { br with
    maxAge := bpdu.maxAge
    helloTime := bpdu.helloTime
    forwardDelay := bpdu.forwardDelay
    topologyChange := bpdu.topologyChange }

def brTransmitTcn : Option (NetBridge P) := do
  let p ← brGetPort br br.rootPort
  some (brSendTcnBpdu br p)

def brShouldBecomeDesignatedPort (p : P) : Bool :=
  let q := br.port p
  if brIsDesignatedPort br p then true
  else if q.designatedRoot ≠ br.designatedRoot then true
  else ((compare br.rootPathCost.toNat q.designatedCost.toNat).then <|
    (compare br.bridgeId q.designatedBridge).then <|
    compare q.portId.toNat q.designatedPort.toNat) = .lt

def brBecomeDesignatedPort (p : P) : NetBridge P :=
  setPort br p fun q =>
    { q with
      designatedRoot := br.designatedRoot
      designatedCost := br.rootPathCost
      designatedBridge := br.bridgeId
      designatedPort := q.portId }

def brDesignatedPortSelection : NetBridge P :=
  br.portList.foldl (fun br p =>
    if (br.port p).state ≠ .disabled ∧ brShouldBecomeDesignatedPort br p then brBecomeDesignatedPort br p else br) br

def brConfigurationUpdate : Option (NetBridge P) := do
  let br ← brRootSelection br
  some (brDesignatedPortSelection br)

def brSupersedesPortInfo (p : P) (bpdu : BrConfigBpdu) : Bool :=
  let q := br.port p
  let order := (compare bpdu.root q.designatedRoot).then <|
    (compare bpdu.rootPathCost.toNat q.designatedCost.toNat).then <| compare bpdu.bridgeId q.designatedBridge
  order = .lt ∨ order = .eq ∧ (bpdu.bridgeId ≠ br.bridgeId ∨ bpdu.portId.toNat ≤ q.designatedPort.toNat)

def brTopologyChangeAcknowledged : NetBridge P :=
  { br with topologyChangeDetected := false, tcnTimer := delTimer br.tcnTimer }

def brTopologyChangeDetection : Option (NetBridge P) :=
  if brIsRootBridge br then
    some { br with
      topologyChange := true
      topologyChangeTimer := modTimer br.topologyChangeTimer (jiffies + br.bridgeForwardDelay + br.bridgeMaxAge)
      topologyChangeDetected := true }
  else if br.topologyChangeDetected then some br
  else do
    let br ← brTransmitTcn br
    some { br with
      tcnTimer := modTimer br.tcnTimer (jiffies + br.bridgeHelloTime)
      topologyChangeDetected := true }

def brConfigBpduGeneration : Option (NetBridge P) :=
  br.portList.foldlM (fun br p =>
    if (br.port p).state ≠ .disabled ∧ brIsDesignatedPort br p then brTransmitConfig jiffies br p else some br) br

def sendHellos : Option (NetBridge P) :=
  if br.up then do
    let br ← brConfigBpduGeneration jiffies br
    some { br with helloTimer := modTimer br.helloTimer (jiffies + br.helloTime) }
  else some br

def brBecomeRootBridge : Option (NetBridge P) := do
  let br ← brTopologyChangeDetection jiffies
    { br with maxAge := br.bridgeMaxAge, helloTime := br.bridgeHelloTime, forwardDelay := br.bridgeForwardDelay }
  sendHellos jiffies { br with tcnTimer := delTimer br.tcnTimer }

def brMakeBlocking (p : P) : Option (NetBridge P) :=
  if (br.port p).state ≠ .disabled ∧ (br.port p).state ≠ .blocking then do
    let br ← (if (br.port p).state = .forwarding ∨ (br.port p).state = .learning then
      brTopologyChangeDetection jiffies br else some br)
    some (setPort br p fun q => { q with state := .blocking, forwardDelayTimer := delTimer q.forwardDelayTimer })
  else some br

def brMakeForwarding (p : P) : NetBridge P :=
  if (br.port p).state = .blocking then
    setPort br p fun q =>
      { q with
        state := if br.stpEnabled then .listening else .learning
        forwardDelayTimer := modTimer q.forwardDelayTimer (jiffies + br.forwardDelay) }
  else br

def brSelectPortState (p : P) : Option (NetBridge P) :=
  if (br.port p).state = .disabled then some br
  else if (br.port p).portNo = br.rootPort then
    some (brMakeForwarding jiffies
      (setPort br p fun q => { q with configPending := false, topologyChangeAck := false }) p)
  else if brIsDesignatedPort br p then
    some (brMakeForwarding jiffies (setPort br p fun q => { q with messageAgeTimer := delTimer q.messageAgeTimer }) p)
  else brMakeBlocking jiffies (setPort br p fun q => { q with configPending := false, topologyChangeAck := false }) p

def brPortStateSelection : Option (NetBridge P) := br.portList.foldlM (brSelectPortState jiffies) br

def brTopologyChangeAcknowledge (p : P) : Option (NetBridge P) :=
  brTransmitConfig jiffies (setPort br p fun q => { q with topologyChangeAck := true }) p

def stopBeingRoot : Option (NetBridge P) :=
  let br := { br with helloTimer := delTimer br.helloTimer }
  if br.topologyChangeDetected then do
    let br ← brTransmitTcn { br with topologyChangeTimer := delTimer br.topologyChangeTimer }
    some { br with tcnTimer := modTimer br.tcnTimer (jiffies + br.bridgeHelloTime) }
  else some br

def brReceivedConfigBpdu (p : P) (bpdu : BrConfigBpdu) : Option (NetBridge P) :=
  let wasRoot := brIsRootBridge br
  if brSupersedesPortInfo br p bpdu then do
    let br ← brConfigurationUpdate (brRecordConfigInformation jiffies br p bpdu)
    let br ← brPortStateSelection jiffies br
    let br ← (if ¬ brIsRootBridge br ∧ wasRoot then stopBeingRoot jiffies br else some br)
    if (br.port p).portNo = br.rootPort then do
      let br ← brConfigBpduGeneration jiffies (brRecordConfigTimeoutValues br bpdu)
      some (if bpdu.topologyChangeAck then brTopologyChangeAcknowledged br else br)
    else some br
  else if brIsDesignatedPort br p then brTransmitConfig jiffies br p
  else some br

def brReceivedTcnBpdu (p : P) : Option (NetBridge P) :=
  if brIsDesignatedPort br p then do
    let br ← brTopologyChangeDetection jiffies br
    brTopologyChangeAcknowledge jiffies br p
  else some br

/-- `data` is what is behind the Ethernet header. -/
def brStpHandleBpdu (p : P) (data : List UInt8) : Option (NetBridge P) :=
  if (br.port p).state = .disabled ∨ ¬ br.up ∨ ¬ br.stpEnabled then some br
  else
    match readBpdu data with
    | none => some br
    | some (.config bpdu) => brReceivedConfigBpdu jiffies br p bpdu
    | some .tcn => brReceivedTcnBpdu jiffies br p

def brReconfigure (wasRoot : Bool) : Option (NetBridge P) := do
  let br ← brConfigurationUpdate br
  let br ← brPortStateSelection jiffies br
  if brIsRootBridge br ∧ ¬ wasRoot then brBecomeRootBridge jiffies br else some br

def brHelloTimerExpired : Option (NetBridge P) := sendHellos jiffies br

def brMessageAgeTimerExpired (p : P) : Option (NetBridge P) :=
  if (br.port p).state = .disabled then some br
  else brReconfigure jiffies (brBecomeDesignatedPort br p) (brIsRootBridge br)

def brIsDesignatedForSomePort : Bool :=
  br.portList.any fun p => (br.port p).state ≠ .disabled ∧ (br.port p).designatedBridge = br.bridgeId

def brForwardDelayTimerExpired (p : P) : Option (NetBridge P) :=
  if (br.port p).state = .listening then
    some (setPort br p fun q =>
      { q with
        state := .learning
        forwardDelayTimer := modTimer q.forwardDelayTimer (jiffies + br.forwardDelay) })
  else if (br.port p).state = .learning then
    let br := setPort br p fun q => { q with state := .forwarding }
    if brIsDesignatedForSomePort br then brTopologyChangeDetection jiffies br else some br
  else some br

def brTcnTimerExpired : Option (NetBridge P) :=
  if br.up then do
    let br ← brTransmitTcn br
    some { br with tcnTimer := modTimer br.tcnTimer (jiffies + br.bridgeHelloTime) }
  else some br

def brTopologyChangeTimerExpired : NetBridge P := { br with topologyChangeDetected := false, topologyChange := false }

def brHoldTimerExpired (p : P) : Option (NetBridge P) :=
  if (br.port p).configPending then brTransmitConfig jiffies br p else some br

/-- `BR_PORT_BITS` is 10; the priority loses its two high bits. -/
def brMakePortId (priority : UInt8) (portNo : UInt16) : UInt16 :=
  .ofNat (priority.toNat * 1024 % 65536 ||| portNo.toNat % 1024)

def initTimer (t : TimerList) : TimerList := { t with pending := false }

def brInitPort (p : P) : NetBridge P :=
  let br := setPort br p fun q => { q with portId := brMakePortId q.priority q.portNo }
  setPort (brBecomeDesignatedPort br p) p fun q =>
    { q with
      state := .blocking
      topologyChangeAck := false
      configPending := false
      messageAgeTimer := initTimer q.messageAgeTimer
      forwardDelayTimer := initTimer q.forwardDelayTimer
      holdTimer := initTimer q.holdTimer }

def brStpEnablePort (p : P) : Option (NetBridge P) := brPortStateSelection jiffies (brInitPort br p)

/-- The port as `br_stp_disable_port` leaves it before the bridge reconfigures. -/
def shutPort (p : P) : NetBridge P :=
  setPort (brBecomeDesignatedPort br p) p fun q =>
    { q with
      state := .disabled
      topologyChangeAck := false
      configPending := false
      messageAgeTimer := delTimer q.messageAgeTimer
      forwardDelayTimer := delTimer q.forwardDelayTimer
      holdTimer := delTimer q.holdTimer }

def brStpDisablePort (p : P) : Option (NetBridge P) := brReconfigure jiffies (shutPort br p) (brIsRootBridge br)

/-- `ready` has the ports whose devices are up and have a carrier. -/
def brStpEnableBridge (ready : P → Bool) : Option (NetBridge P) := do
  let br ← brConfigBpduGeneration jiffies
    { br with helloTimer := modTimer br.helloTimer (jiffies + br.helloTime) }
  br.portList.foldlM (fun br p => if ready p then brStpEnablePort jiffies br p else some br) br

def brStpDisableBridge : Option (NetBridge P) := do
  let br ← br.portList.foldlM (fun br p =>
    if (br.port p).state ≠ .disabled then brStpDisablePort jiffies br p else some br) br
  some { br with
    topologyChange := false
    topologyChangeDetected := false
    helloTimer := delTimer br.helloTimer
    topologyChangeTimer := delTimer br.topologyChangeTimer
    tcnTimer := delTimer br.tcnTimer }

def renameAddr (old new : BitVec 48) (i : BridgeId) : BridgeId := if i.addr = old then { i with addr := new } else i

def renamed (addr : BitVec 48) : NetBridge P :=
  br.portList.foldl (fun br' p => setPort br' p fun q =>
    { q with
      designatedBridge := renameAddr br.bridgeId.addr addr q.designatedBridge
      designatedRoot := renameAddr br.bridgeId.addr addr q.designatedRoot })
    { br with bridgeId := { br.bridgeId with addr := addr } }

def brStpChangeBridgeId (addr : BitVec 48) : Option (NetBridge P) :=
  brReconfigure jiffies (renamed br addr) (brIsRootBridge br)

def lowestAddr : BitVec 48 :=
  match br.portList.map fun p => (br.port p).devAddr with
  | [] => 0
  | a :: as => as.foldl (fun lowest a => if a.toNat < lowest.toNat then a else lowest) a

def brStpRecalculateBridgeId : Option (NetBridge P) :=
  if br.bridgeId.addr ≠ lowestAddr br then brStpChangeBridgeId jiffies br (lowestAddr br) else some br

def reprioritised (newprio : UInt16) : NetBridge P :=
  let renamed : NetBridge P :=
    br.portList.foldl (fun br' p =>
      if (br'.port p).state ≠ .disabled ∧ brIsDesignatedPort br' p then
        setPort br' p fun q => { q with designatedBridge := { q.designatedBridge with prio := newprio } }
      else br') br
  { renamed with bridgeId := { br.bridgeId with prio := newprio } }

def brStpSetBridgePriority (newprio : UInt16) : Option (NetBridge P) :=
  brReconfigure jiffies (reprioritised br newprio) (brIsRootBridge br)

def withPortPriority (p : P) (newprio : UInt8) : NetBridge P :=
  setPort br p fun q =>
    { q with
      designatedPort := if brIsDesignatedPort br p then brMakePortId newprio q.portNo else q.designatedPort
      portId := brMakePortId newprio q.portNo
      priority := newprio }

def brStpSetPortPriority (p : P) (newprio : UInt8) : Option (NetBridge P) :=
  let br := withPortPriority br p newprio
  if br.bridgeId = (br.port p).designatedBridge ∧ (br.port p).portId.toNat < (br.port p).designatedPort.toNat then
    brPortStateSelection jiffies (brBecomeDesignatedPort br p)
  else some br

def brStpSetPathCost (p : P) (pathCost : UInt32) : Option (NetBridge P) := do
  let br ← brConfigurationUpdate (setPort br p fun q => { q with pathCost := pathCost })
  brPortStateSelection jiffies br

/-- A number that no port has; `BR_MAX_PORTS` is 1024, and zero is reserved. -/
def findPortno : Option UInt16 :=
  ((List.range' 1 1023).find? fun index => br.portList.all fun p => (br.port p).portNo.toNat ≠ index).map UInt16.ofNat

/-- What `new_nbp` fills into a cleared port before `br_init_port`. -/
def newNbp (devAddr : BitVec 48) (cost : UInt32) (index : UInt16) : NetBridgePort where
  devAddr := devAddr
  priority := 32
  state := .disabled
  portNo := index
  topologyChangeAck := false
  configPending := false
  portId := 0
  designatedPort := 0
  designatedRoot := ⟨0, 0⟩
  designatedBridge := ⟨0, 0⟩
  pathCost := cost
  designatedCost := 0
  forwardDelayTimer := ⟨false, 0⟩
  holdTimer := ⟨false, 0⟩
  messageAgeTimer := ⟨false, 0⟩

/-- The new port `p` at the head of the list, still disabled. -/
def linkPort (p : P) (devAddr : BitVec 48) (cost : UInt32) (index : UInt16) : NetBridge P :=
  let br := setPort (brInitPort (setPort br p fun _ => newNbp devAddr cost index) p) p fun q => { q with state := .disabled }
  { br with portList := p :: br.portList }

/-- `ready` is whether the device is up and has a carrier. -/
def brAddIf (p : P) (devAddr : BitVec 48) (cost : UInt32) (ready : Bool) : Option (NetBridge P) :=
  match findPortno br with
  | none => some br
  | some index => do
    let br ← brStpRecalculateBridgeId jiffies (linkPort br p devAddr cost index)
    if br.up ∧ ready then brStpEnablePort jiffies br p else some br

def brDelIf (p : P) : Option (NetBridge P) := do
  let br ← brStpDisablePort jiffies br p
  brStpRecalculateBridgeId jiffies { br with portList := br.portList.erase p }

/-- The bridge's device is up only when `br_dev_open` has returned. -/
def brDevOpen (ready : P → Bool) : Option (NetBridge P) := do
  let br ← brStpEnableBridge jiffies br ready
  some { br with up := true }

def brDevStop : Option (NetBridge P) := do
  let br ← brStpDisableBridge jiffies br
  some { br with up := false }

inductive DeviceEvent
  | changeAddr (addr : BitVec 48)
  | change (carrier : Bool)
  | down
  | up (carrier : Bool)

def brDeviceEvent (p : P) : DeviceEvent → Option (NetBridge P)
  | .changeAddr addr => brStpRecalculateBridgeId jiffies (setPort br p fun q => { q with devAddr := addr })
  | .change carrier =>
    if ¬ br.up then some br
    else if carrier then
      if (br.port p).state = .disabled then brStpEnablePort jiffies br p else some br
    else if (br.port p).state ≠ .disabled then brStpDisablePort jiffies br p else some br
  | .down => if br.up then brStpDisablePort jiffies br p else some br
  | .up carrier => if carrier ∧ br.up then brStpEnablePort jiffies br p else some br

end

section

variable {P : Type} (br : NetBridge P)

/-- The settings of `old_dev_ioctl`; the root uses its own times at once. -/
def setForwardDelay (time : UInt32) : NetBridge P :=
  { br with bridgeForwardDelay := time, forwardDelay := if brIsRootBridge br then time else br.forwardDelay }

def setHelloTime (time : UInt32) : NetBridge P :=
  { br with bridgeHelloTime := time, helloTime := if brIsRootBridge br then time else br.helloTime }

def setMaxAge (time : UInt32) : NetBridge P :=
  { br with bridgeMaxAge := time, maxAge := if brIsRootBridge br then time else br.maxAge }

def setStpState (on : Bool) : NetBridge P := { br with stpEnabled := on }

def newBridgeDev (port : P → NetBridgePort) : NetBridge P where
  portList := []
  port := port
  up := false
  designatedRoot := ⟨0x8000, 0⟩
  bridgeId := ⟨0x8000, 0⟩
  rootPathCost := 0
  maxAge := 20 * 200
  helloTime := 2 * 200
  forwardDelay := 15 * 200
  bridgeMaxAge := 20 * 200
  bridgeHelloTime := 2 * 200
  bridgeForwardDelay := 15 * 200
  rootPort := 0
  stpEnabled := false
  topologyChange := false
  topologyChangeDetected := false
  helloTimer := ⟨false, 0⟩
  tcnTimer := ⟨false, 0⟩
  topologyChangeTimer := ⟨false, 0⟩
  sent := []

end

inductive Event (P : Type)
  | frame (p : P) (data : List UInt8)
  | helloTimer
  | tcnTimer
  | topologyChangeTimer
  | messageAgeTimer (p : P)
  | forwardDelayTimer (p : P)
  | holdTimer (p : P)
  | device (p : P) (e : DeviceEvent)
  | devOpen (ready : P → Bool)
  | devStop
  | addIf (p : P) (devAddr : BitVec 48) (cost : UInt32) (ready : Bool)
  | delIf (p : P)
  | setBridgePriority (newprio : UInt16)
  | setPortPriority (p : P) (newprio : UInt8)
  | setPathCost (p : P) (pathCost : UInt32)
  | setStpState (on : Bool)
  | setForwardDelay (time : UInt32)
  | setHelloTime (time : UInt32)
  | setMaxAge (time : UInt32)

/-- The timer runs and its time has come, as `time_after_eq` has it. -/
def Due (jiffies : UInt32) (t : TimerList) : Prop := t.pending ∧ (jiffies - t.expires).toNat < 2147483648

instance decidableDue (jiffies : UInt32) (t : TimerList) : Decidable (Due jiffies t) :=
  inferInstanceAs (Decidable (_ ∧ _))

section

variable {P : Type}

def Enabled (jiffies : UInt32) (br : NetBridge P) : Event P → Prop
  | .frame p _ => p ∈ br.portList
  | .helloTimer => Due jiffies br.helloTimer
  | .tcnTimer => Due jiffies br.tcnTimer
  | .topologyChangeTimer => Due jiffies br.topologyChangeTimer
  | .messageAgeTimer p => p ∈ br.portList ∧ Due jiffies (br.port p).messageAgeTimer
  | .forwardDelayTimer p => p ∈ br.portList ∧ Due jiffies (br.port p).forwardDelayTimer
  | .holdTimer p => p ∈ br.portList ∧ Due jiffies (br.port p).holdTimer
  | .device p _ => p ∈ br.portList
  | .devOpen _ => ¬ br.up
  | .devStop => br.up
  | .addIf p _ _ _ => p ∉ br.portList
  | .delIf p => p ∈ br.portList
  | .setPortPriority p newprio => p ∈ br.portList ∧ newprio.toNat < 64
  | .setPathCost p _ => p ∈ br.portList
  | .setBridgePriority _ | .setStpState _ | .setForwardDelay _ | .setHelloTime _ | .setMaxAge _ => True

variable [DecidableEq P]

def step (jiffies : UInt32) (br : NetBridge P) : Event P → Option (NetBridge P)
  | .frame p data => brStpHandleBpdu jiffies br p data
  | .helloTimer => brHelloTimerExpired jiffies { br with helloTimer := delTimer br.helloTimer }
  | .tcnTimer => brTcnTimerExpired jiffies { br with tcnTimer := delTimer br.tcnTimer }
  | .topologyChangeTimer =>
    some (brTopologyChangeTimerExpired { br with topologyChangeTimer := delTimer br.topologyChangeTimer })
  | .messageAgeTimer p =>
    brMessageAgeTimerExpired jiffies (setPort br p fun q => { q with messageAgeTimer := delTimer q.messageAgeTimer }) p
  | .forwardDelayTimer p =>
    brForwardDelayTimerExpired jiffies
      (setPort br p fun q => { q with forwardDelayTimer := delTimer q.forwardDelayTimer }) p
  | .holdTimer p =>
    brHoldTimerExpired jiffies (setPort br p fun q => { q with holdTimer := delTimer q.holdTimer }) p
  | .device p e => brDeviceEvent jiffies br p e
  | .devOpen ready => brDevOpen jiffies br ready
  | .devStop => brDevStop jiffies br
  | .addIf p devAddr cost ready => brAddIf jiffies br p devAddr cost ready
  | .delIf p => brDelIf jiffies br p
  | .setBridgePriority newprio => brStpSetBridgePriority jiffies br newprio
  | .setPortPriority p newprio => brStpSetPortPriority jiffies br p newprio
  | .setPathCost p pathCost => brStpSetPathCost jiffies br p pathCost
  | .setStpState on => some (Stp.setStpState br on)
  | .setForwardDelay time => some (Stp.setForwardDelay br time)
  | .setHelloTime time => some (Stp.setHelloTime br time)
  | .setMaxAge time => some (Stp.setMaxAge br time)

end

structure Clocked (P : Type) where
  now : ℕ
  br : NetBridge P

inductive Clocked.Step {P : Type} [DecidableEq P] (s : Clocked P) : Clocked P → Prop
  | event {now : ℕ} {br : NetBridge P} (e : Event P) (hnow : s.now ≤ now) (henabled : Enabled (.ofNat now) s.br e)
      (hstep : Stp.step (.ofNat now) s.br e = some br) : Clocked.Step s ⟨now, br⟩

end AliceModem.Stp
