import AliceModem.Lib.BigEndian
import AliceModem.Lib.ByteMemory

namespace AliceModem.Snooping

open ByteMemory BigEndian

abbrev Mac := List UInt8

/-- An IPv4 address in network order, the order of this target. -/
abbrev Ip := UInt32

inductive FiltMode
  | mcastExclude
  | mcastInclude
  deriving DecidableEq

/-- `struct net_bridge_mc_fdb_entry`; a port is named by its pointer. -/
structure McFdbEntry (Port : Type) where
  dst : Port
  addr : Mac
  host : Mac
  src : Ip
  filtMode : FiltMode
  tstamp : UInt32
  deriving DecidableEq

/-- The fields of `struct net_bridge` that snooping uses, the `dirty` flags of
the ports, the expiry of a pending `igmp_timer`, and the outcomes of the
allocations still to come (success once the list is used up). -/
structure Bridge (Port : Type) where
  portList : List Port
  mcList : List (McFdbEntry Port)
  dirty : Port → Bool
  proxy : Bool
  startTimer : Bool
  igmpTimer : Option UInt32
  allocs : List Bool

abbrev snoopInAdd : UInt8 := 1
abbrev snoopInClear : UInt8 := 2
abbrev snoopExAdd : UInt8 := 3
abbrev snoopExClear : UInt8 := 4

/-- `TIMER_CHECK_TIMEOUT*HZ` and `QUERY_TIMEOUT*HZ` with 200 ticks a second. -/
abbrev timerCheckTicks : UInt32 := 2000
abbrev queryTimeoutTicks : UInt32 := 26000

def upnpAddr : Mac := [0x01, 0x00, 0x5e, 0x7f, 0xff, 0xfa]
def sys1Addr : Mac := [0x01, 0x00, 0x5e, 0x00, 0x00, 0x01]
def sys2Addr : Mac := [0x01, 0x00, 0x5e, 0x00, 0x00, 0x02]
def ospf1Addr : Mac := [0x01, 0x00, 0x5e, 0x00, 0x00, 0x05]
def ospf2Addr : Mac := [0x01, 0x00, 0x5e, 0x00, 0x00, 0x06]
def ripv2Addr : Mac := [0x01, 0x00, 0x5e, 0x00, 0x00, 0x09]
def sysAddr : Mac := [0xff, 0xff, 0xff, 0xff, 0xff, 0xff]

/-- Addresses of control traffic and of IPv6 give `false`. -/
def controlFilter (dest : Mac) : Bool :=
  ¬ (dest ∈ [upnpAddr, sys1Addr, sys2Addr, ospf1Addr, ospf2Addr, sysAddr, ripv2Addr] ∨ dest.take 2 = [0x33, 0x33])

def brcmConvIpToMac (ip : Ip) : Mac :=
  let ipa := bytes32 ip.toNat
  [0x01, 0x00, 0x5e, 0x7f &&& ipa.getD 1 0, ipa.getD 2 0, ipa.getD 3 0]

variable {Port : Type} [DecidableEq Port]

section

variable (jiffies : UInt32) (br : Bridge Port)

def McFdbEntry.isFor (prt : Port) (dest host : Mac) (src : Ip) (e : McFdbEntry Port) : Bool :=
  e.addr = dest ∧ e.host = host ∧ e.src = src ∧ e.dst = prt

def addMode (mode : UInt8) : FiltMode := if mode = snoopInAdd then .mcastInclude else .mcastExclude

def clearMode (mode : UInt8) : FiltMode := if mode = snoopInClear then .mcastInclude else .mcastExclude

def brMcFdbFind (prt : Port) (dest host : Mac) (src : Ip) : Option (McFdbEntry Port) :=
  br.mcList.find? (McFdbEntry.isFor prt dest host src)

def brMcFdbUpdate (prt : Port) (dest host : Mac) (mode : UInt8) (src : Ip) : Bool × Bridge Port :=
  let found (e : McFdbEntry Port) : Bool := e.isFor prt dest host src ∧ e.filtMode = addMode mode
  (br.mcList.any found,
    { br with mcList := br.mcList.map fun e => if found e then { e with tstamp := jiffies + queryTimeoutTicks } else e })

def brMcFdbAdd (prt : Option Port) (dest host : Mac) (mode : UInt8) (src : Ip) : Bridge Port :=
  match prt with
  | none => br
  | some prt =>
      if mode ≠ snoopInAdd ∧ mode ≠ snoopExAdd then br
      else if dest = upnpAddr then br
      else
        let u := brMcFdbUpdate jiffies br prt dest host mode src
        if u.1 then u.2
        else if br.allocs.headD true = false then { u.2 with allocs := br.allocs.tail }
        else
          let br := { u.2 with
            allocs := br.allocs.tail
            mcList := u.2.mcList ++ [⟨prt, dest, host, src, addMode mode, jiffies + queryTimeoutTicks⟩] }
          if br.startTimer then br
          else { br with igmpTimer := some (jiffies + timerCheckTicks), startTimer := true }

def brMcFdbRemove (prt : Option Port) (dest host : Mac) (mode : UInt8) (src : Ip) : Bridge Port :=
  match prt with
  | none => br
  | some prt =>
      if mode ≠ snoopInClear ∧ mode ≠ snoopExClear then br
      else { br with
        mcList := br.mcList.eraseP fun e => e.isFor prt dest host src ∧ e.filtMode = clearMode mode }

def brMcFdbRemoveGrp (prt : Port) (dest : Mac) : Bridge Port :=
  { br with mcList := br.mcList.filter fun e => ¬ (e.addr = dest ∧ e.dst = prt) }

def brMcFdbCleanup : Bridge Port := { br with mcList := [] }

def queryTimeout : Bridge Port :=
  { br with
    mcList := br.mcList.filter fun e => ¬ jiffies > e.tstamp
    igmpTimer := some (jiffies + timerCheckTicks) }

end

/-- `struct igmpv3_grec` with its source list. -/
structure GroupRecord where
  grecType : UInt8
  grecAuxwords : UInt8
  grecMca : Ip
  grecSrc : List Ip
  deriving DecidableEq

def ipAt (m : Mem UInt8) (a : Int) : Ip := UInt32.ofNat (be32 (readBytes m a 4))

def be16At (m : Mem UInt8) (a : Int) : Nat := (m a).toNat * 256 + (m (a + 1)).toNat

def grecAt (m : Mem UInt8) (a : Int) : GroupRecord :=
  ⟨m a, m (a + 1), ipAt m (a + 4), (List.range (be16At m (a + 2))).map fun i : Nat => ipAt m (a + 8 + 4 * i)⟩

/-- `IGMPV3_GRP_REC_SIZE`, which takes it that there are no auxiliary data. -/
def grecSize (r : GroupRecord) : Int := 8 + 4 * r.grecSrc.length

def grecsAt (m : Mem UInt8) : Nat → Int → List GroupRecord
  | 0, _ => []
  | n + 1, a => grecAt m a :: grecsAt m n (a + grecSize (grecAt m a))

section

variable (jiffies : UInt32) (prt : Option Port) (host : Mac)

def findMode (br : Bridge Port) (dest : Mac) (src : Ip) : Option FiltMode :=
  (prt.bind fun p => brMcFdbFind br p dest host src).map McFdbEntry.filtMode

/-- An entry of the mode `other` is taken back with `clear`; otherwise one is entered with `add`. -/
def changeSource (other : FiltMode) (clear add : UInt8) (dest : Mac) (br : Bridge Port) (src : Ip) : Bridge Port :=
  if findMode prt host br dest src = some other then brMcFdbRemove br prt dest host clear src
  else brMcFdbAdd jiffies br prt dest host add src

def includeSource : Mac → Bridge Port → Ip → Bridge Port :=
  changeSource jiffies prt host .mcastExclude snoopExClear snoopInAdd

def excludeSource : Mac → Bridge Port → Ip → Bridge Port :=
  changeSource jiffies prt host .mcastInclude snoopInClear snoopExAdd

/-- The three record types that ask for sources are treated alike, and so are
the three that refuse them. -/
def processGrec (br : Bridge Port) (grec : GroupRecord) : Bridge Port :=
  let dest := brcmConvIpToMac grec.grecMca
  if grec.grecType ∈ [1, 3, 5] then
    let br := grec.grecSrc.foldl (includeSource jiffies prt host dest) br
    if grec.grecSrc.length = 0 then brMcFdbRemove br prt dest host snoopExClear 0 else br
  else if grec.grecType ∈ [2, 4, 6] then
    let br := grec.grecSrc.foldl (excludeSource jiffies prt host dest) br
    if grec.grecSrc.length = 0 then brMcFdbAdd jiffies br prt dest host snoopExAdd 0 else br
  else br

/-- `data` is the memory from the report on. -/
def brProcessIgmpv3 (br : Bridge Port) (data : Mem UInt8) : Bridge Port :=
  (grecsAt data (be16At data 6) 8).foldl (processGrec jiffies prt host) br

end

/-- A frame for a multicast address: `data` starts behind the Ethernet header. -/
structure Skb (Port : Type) where
  data : Mem UInt8
  protocol : Nat
  hSource : Mac
  hDest : Mac
  brPort : Option Port

def Skb.ihl (skb : Skb Port) : Nat := (skb.data 0).toNat % 16

def Skb.saddr (skb : Skb Port) : Ip := ipAt skb.data 12

def Skb.igmpOffset (skb : Skb Port) : Int := if skb.ihl = 5 then 20 else 24

abbrev ipprotoIgmp : UInt8 := 2
abbrev ethPIp : Nat := 0x0800
abbrev igmpv2HostMembershipReport : UInt8 := 0x16
abbrev igmpv3HostMembershipReport : UInt8 := 0x22
abbrev igmpHostLeaveMessage : UInt8 := 0x17

def leaveGroup (skb : Skb Port) : Mac :=
  if skb.ihl = 5 then [0x01, 0x00, 0x5e, 0x7f &&& skb.data 24, skb.data 25, skb.data 26]
  else [0x01, 0x00, 0x5e, 0x7f &&& skb.data 29, skb.data 30, skb.data 31]

def snoopIgmp (jiffies : UInt32) (br : Bridge Port) (skb : Skb Port) : Bridge Port :=
  let igmpType := skb.data skb.igmpOffset
  if igmpType = igmpv2HostMembershipReport ∧ skb.protocol = ethPIp then
    brMcFdbAdd jiffies br skb.brPort skb.hDest skb.hSource snoopExAdd 0
  else if igmpType = igmpv3HostMembershipReport ∧ skb.protocol = ethPIp then
    brProcessIgmpv3 jiffies skb.brPort skb.hSource br (view skb.data skb.igmpOffset)
  else if igmpType = igmpHostLeaveMessage then
    brMcFdbRemove br skb.brPort (leaveGroup skb) skb.hSource snoopExClear 0
  else br

def McFdbEntry.passes (saddr : Ip) (e : McFdbEntry Port) : Bool :=
  match e.filtMode with
  | .mcastInclude => saddr = e.src
  | .mcastExclude => e.src = 0 ∨ saddr ≠ e.src

/-- The walk over `mc_list`: the dirty flags, the ports that are handed the
frame and the status. -/
def forwardLoop (saddr : Ip) (dest : Mac) :
    List (McFdbEntry Port) → (Port → Bool) → List Port → Bool → (Port → Bool) × List Port × Bool
  | [], dirty, handed, status => (dirty, handed, status)
  | e :: rest, dirty, handed, status =>
      if e.addr = dest then
        if e.passes saddr then
          forwardLoop saddr dest rest (Function.update dirty e.dst true)
            (if dirty e.dst then handed else handed ++ [e.dst]) true
        else forwardLoop saddr dest rest dirty handed (status || e.filtMode = .mcastExclude)
      else forwardLoop saddr dest rest dirty handed status

structure Forwarded (Port : Type) where
  status : Bool
  handed : List Port
  bridge : Bridge Port

def mcForward (snooping : Nat) (jiffies : UInt32) (br : Bridge Port) (skb : Skb Port) : Forwarded Port :=
  if snooping = 0 then ⟨false, [], br⟩
  else if skb.data 9 = ipprotoIgmp then ⟨false, [], if br.proxy then br else snoopIgmp jiffies br skb⟩
  else
    let blocked : Bool := snooping = 2 ∧ controlFilter skb.hDest
    let r := forwardLoop skb.saddr skb.hDest br.mcList br.dirty [] blocked
    let dirty := if r.2.2 then fun p => if p ∈ br.portList then false else r.1 p else r.1
    ⟨r.2.2, r.2.1, { br with dirty := dirty }⟩

end AliceModem.Snooping
