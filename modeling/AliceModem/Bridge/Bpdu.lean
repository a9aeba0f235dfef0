import AliceModem.Lib.Words
import Mathlib.Order.Basic
import Mathlib.Order.Defs.LinearOrder

namespace AliceModem.Bpdu

open Words

structure BridgeId where
  prio : UInt16
  addr : BitVec 48
  deriving DecidableEq

namespace BridgeId

def key (i : BridgeId) : Nat := i.prio.toNat * 281474976710656 + i.addr.toNat

theorem key_injective : Function.Injective key := by
  rintro ⟨p, a⟩ ⟨q, b⟩ h
  have ha := a.isLt
  have hb := b.isLt
  simp only [key] at h
  obtain ⟨hp, haddr⟩ : p.toNat = q.toNat ∧ a.toNat = b.toNat := by omega
  rw [UInt16.toNat_inj.mp hp, BitVec.eq_of_toNat_eq haddr]

instance : LinearOrder BridgeId := LinearOrder.lift' key key_injective

def bytes (i : BridgeId) : List UInt8 :=
  [.ofNat (i.prio.toNat / 256), .ofNat i.prio.toNat, .ofNat (i.addr.toNat / 1099511627776),
    .ofNat (i.addr.toNat / 4294967296), .ofNat (i.addr.toNat / 16777216), .ofNat (i.addr.toNat / 65536),
    .ofNat (i.addr.toNat / 256), .ofNat i.addr.toNat]

end BridgeId

section

variable (buf : List UInt8) (i : Nat)

def byteAt : Nat := (buf.getD i 0).toNat

def wordAt : Nat := byteAt buf i * 256 + byteAt buf (i + 1)

def longAt : Nat := wordAt buf i * 65536 + wordAt buf (i + 2)

def idAt : BridgeId := ⟨.ofNat (wordAt buf i), .ofNat 48 (wordAt buf (i + 2) * 4294967296 + longAt buf (i + 4))⟩

end

/-- `struct br_config_bpdu`. The fields of type `int` are only used as
`unsigned long` once they are read, so they are kept as such. -/
structure BrConfigBpdu where
  topologyChange : Bool
  topologyChangeAck : Bool
  root : BridgeId
  rootPathCost : UInt32
  bridgeId : BridgeId
  portId : UInt16
  messageAge : UInt32
  maxAge : UInt32
  helloTime : UInt32
  forwardDelay : UInt32
  deriving DecidableEq

/-- `JIFFIES_TO_TICKS` of an `int` with 200 jiffies a second, stored in a `__u16`. -/
def jiffiesToTicks (jiff : UInt32) : Nat := uint16 (Int.tdiv (int32 (jiff.toNat * 256)) 200)

def ticksToJiffies (ticks : Nat) : UInt32 := .ofNat (ticks * 200 / 256)

def brSetTicks (jiff : UInt32) : List UInt8 := [.ofNat (jiffiesToTicks jiff / 256), .ofNat (jiffiesToTicks jiff)]

def brGetTicks (buf : List UInt8) (i : Nat) : UInt32 := ticksToJiffies (wordAt buf i)

def header : List UInt8 := [0x42, 0x42, 0x03, 0x00, 0x00, 0x00]

def bpduTypeConfig : UInt8 := 0

def bpduTypeTcn : UInt8 := 0x80

def flags (change ack : Bool) : UInt8 := (if change then 0x01 else 0) ||| (if ack then 0x80 else 0)

/-- The array that `br_send_config_bpdu` fills. -/
def configBytes (b : BrConfigBpdu) : List UInt8 :=
  header ++ [bpduTypeConfig, flags b.topologyChange b.topologyChangeAck] ++ b.root.bytes ++
    [.ofNat (b.rootPathCost.toNat / 16777216), .ofNat (b.rootPathCost.toNat / 65536), .ofNat (b.rootPathCost.toNat / 256),
      .ofNat b.rootPathCost.toNat] ++
    b.bridgeId.bytes ++ [.ofNat (b.portId.toNat / 256), .ofNat b.portId.toNat] ++
    brSetTicks b.messageAge ++ brSetTicks b.maxAge ++ brSetTicks b.helloTime ++ brSetTicks b.forwardDelay

/-- The array that `br_send_tcn_bpdu` fills. -/
def tcnBytes : List UInt8 := header ++ [bpduTypeTcn]

def bridgeUla : List UInt8 := [0x01, 0x80, 0xc2, 0x00, 0x00, 0x00]

def macBytes (a : BitVec 48) : List UInt8 := (BridgeId.mk 0 a).bytes.drop 2

/-- The frame that `br_send_bpdu` builds around the array. -/
def bpduFrame (devAddr : BitVec 48) (data : List UInt8) : List UInt8 :=
  bridgeUla ++ macBytes devAddr ++ [0, .ofNat data.length] ++ data ++ List.replicate (60 - (data.length + 14)) 0xa5

inductive Message
  | config (b : BrConfigBpdu)
  | tcn
  deriving DecidableEq

def readConfig (buf : List UInt8) : BrConfigBpdu where
  topologyChange := byteAt buf 1 % 2 = 1
  topologyChangeAck := byteAt buf 1 / 128 = 1
  root := idAt buf 2
  rootPathCost := .ofNat (longAt buf 10)
  bridgeId := idAt buf 14
  portId := .ofNat (wordAt buf 22)
  messageAge := brGetTicks buf 24
  maxAge := brGetTicks buf 26
  helloTime := brGetTicks buf 28
  forwardDelay := brGetTicks buf 30

/-- What `br_stp_handle_bpdu` makes of the data behind the Ethernet header. -/
def readBpdu (data : List UInt8) : Option Message :=
  if data.length < 7 ∨ data.take 6 ≠ header then none
  else
    let buf := data.drop 6
    if buf.headD 0 = bpduTypeConfig then
      if buf.length < 32 then none else some (.config (readConfig buf))
    else if buf.headD 0 = bpduTypeTcn then some .tcn
    else none

theorem jiffiesToTicks_of_lt {j : UInt32} (h : j.toNat < 51200) : jiffiesToTicks j = j.toNat * 256 / 200 := by
  have hexact : int32 (j.toNat * 256) = ((j.toNat * 256 : Nat) : Int) := by
    rw [int32_of_range (by omega) (by omega)]
    rfl
  have hdiv : Int.tdiv ((j.toNat * 256 : Nat) : Int) 200 = ((j.toNat * 256 / 200 : Nat) : Int) :=
    (Int.ofNat_tdiv _ 200).symm
  rw [jiffiesToTicks, hexact, hdiv, uint16_natCast]
  omega

def onWire (j : UInt32) : UInt32 := ticksToJiffies (jiffiesToTicks j)

theorem rounded_down (n : Nat) : n * 256 / 200 * 200 / 256 = if n % 25 = 0 then n else n - 1 := by
  have hrest : ∀ r < 25, r * 32 / 25 * 25 / 32 = if r = 0 then 0 else r - 1 := by decide
  have hr := hrest (n % 25) (Nat.mod_lt n (by decide))
  have hticks : n * 256 / 200 = n / 25 * 32 + n % 25 * 32 / 25 := by omega
  have hback : (n / 25 * 32 + n % 25 * 32 / 25) * 200 / 256 = n / 25 * 25 + n % 25 * 32 / 25 * 25 / 32 := by omega
  rw [hticks, hback, hr]
  split <;> omega

theorem onWire_of_lt {j : UInt32} (h : j.toNat < 51200) :
    (onWire j).toNat = if j.toNat % 25 = 0 then j.toNat else j.toNat - 1 := by
  rw [← rounded_down, onWire, jiffiesToTicks_of_lt h, ticksToJiffies, UInt32.toNat_ofNat']
  omega

def BrConfigBpdu.received (b : BrConfigBpdu) : BrConfigBpdu :=
  { b with
    messageAge := onWire b.messageAge
    maxAge := onWire b.maxAge
    helloTime := onWire b.helloTime
    forwardDelay := onWire b.forwardDelay }

-- the fields are taken apart first, or the comparison would run into the conversion of the times
theorem BrConfigBpdu.received_ids (b : BrConfigBpdu) :
    b.received.root = b.root ∧ b.received.rootPathCost = b.rootPathCost ∧ b.received.bridgeId = b.bridgeId ∧
      b.received.portId = b.portId := by
  cases b
  exact ⟨rfl, rfl, rfl, rfl⟩

theorem BrConfigBpdu.received_flags (b : BrConfigBpdu) :
    b.received.topologyChange = b.topologyChange ∧ b.received.topologyChangeAck = b.topologyChangeAck := by
  cases b
  exact ⟨rfl, rfl⟩

theorem word_of_bytes (n : Nat) : (UInt8.ofNat (n / 256)).toNat * 256 + (UInt8.ofNat n).toNat = n % 65536 := by
  rw [UInt8.toNat_ofNat', UInt8.toNat_ofNat']
  omega

theorem idAt_bytes (i : BridgeId) : idAt i.bytes 0 = i := by
  obtain ⟨p, a⟩ := i
  have hp := p.toNat_lt
  have ha := a.isLt
  have hprio : wordAt (BridgeId.bytes ⟨p, a⟩) 0 = p.toNat := by
    rw [← Nat.mod_eq_of_lt hp]
    exact word_of_bytes p.toNat
  have haddr : wordAt (BridgeId.bytes ⟨p, a⟩) 2 * 4294967296 + longAt (BridgeId.bytes ⟨p, a⟩) 4 = a.toNat := by
    simp only [longAt, wordAt, byteAt, BridgeId.bytes, List.getD_cons_zero, List.getD_cons_succ, UInt8.toNat_ofNat']
    omega
  rw [idAt, hprio, haddr, UInt16.ofNat_toNat, BitVec.ofNat_toNat, BitVec.setWidth_eq]

theorem brGetTicks_brSetTicks (j : UInt32) : brGetTicks (brSetTicks j) 0 = onWire j := by
  have hlt : jiffiesToTicks j < 65536 := by
    unfold jiffiesToTicks uint16
    omega
  have hword : wordAt (brSetTicks j) 0 = jiffiesToTicks j := by
    rw [← Nat.mod_eq_of_lt hlt]
    exact word_of_bytes (jiffiesToTicks j)
  rw [brGetTicks, hword, onWire]

section

variable {buf l : List UInt8} {k n : Nat}

theorem byteAt_window (h : (buf.drop k).take n = l) {j : Nat} (hj : j < n) : byteAt buf (k + j) = byteAt l j := by
  rw [byteAt, byteAt, ← h, List.getD_eq_getElem?_getD, List.getD_eq_getElem?_getD, List.getElem?_take_of_lt hj,
    List.getElem?_drop]

theorem wordAt_window (h : (buf.drop k).take n = l) {j : Nat} (hj : j + 1 < n) : wordAt buf (k + j) = wordAt l j := by
  rw [wordAt, wordAt, byteAt_window h (by omega), Nat.add_assoc, byteAt_window h hj]

theorem longAt_window (h : (buf.drop k).take n = l) {j : Nat} (hj : j + 3 < n) : longAt buf (k + j) = longAt l j := by
  rw [longAt, longAt, wordAt_window h (by omega), Nat.add_assoc, wordAt_window h (by omega)]

theorem idAt_window {i : BridgeId} (h : (buf.drop k).take 8 = i.bytes) : idAt buf k = i := by
  have hprio : wordAt buf k = wordAt i.bytes 0 := wordAt_window (j := 0) h (by decide)
  rw [idAt, hprio, wordAt_window h (by decide), longAt_window h (by decide)]
  exact idAt_bytes i

theorem brGetTicks_window {j : UInt32} (h : (buf.drop k).take 2 = brSetTicks j) : brGetTicks buf k = onWire j := by
  have hword : wordAt buf k = wordAt (brSetTicks j) 0 := wordAt_window (j := 0) h (by decide)
  rw [brGetTicks, hword]
  exact brGetTicks_brSetTicks j

end

theorem flags_read : ∀ change ack : Bool,
    decide ((flags change ack).toNat % 2 = 1) = change ∧ decide ((flags change ack).toNat / 128 = 1) = ack := by
  decide

theorem readConfig_configBytes (b : BrConfigBpdu) {buf : List UInt8} (rest : List UInt8)
    (hbuf : buf = (configBytes b ++ rest).drop 6) : readConfig buf = b.received := by
  have hcost := b.rootPathCost.toNat_lt
  have hport := b.portId.toNat_lt
  -- the bytes one by one
  simp only [configBytes, header, BridgeId.bytes, brSetTicks, List.cons_append, List.nil_append, List.drop_succ_cons,
    List.drop_zero] at hbuf
  have hflags : byteAt buf 1 = (flags b.topologyChange b.topologyChangeAck).toNat := by
    rw [hbuf]
    rfl
  have hchange := (flags_read b.topologyChange b.topologyChangeAck).1
  have hack := (flags_read b.topologyChange b.topologyChangeAck).2
  have hroot : idAt buf 2 = b.root := idAt_window (by rw [hbuf]; rfl)
  have hbridge : idAt buf 14 = b.bridgeId := idAt_window (by rw [hbuf]; rfl)
  have hpathCost : UInt32.ofNat (longAt buf 10) = b.rootPathCost := by
    rw [hbuf, ← UInt32.toNat_inj, UInt32.toNat_ofNat']
    simp only [longAt, wordAt, byteAt, List.getD_cons_zero, List.getD_cons_succ, UInt8.toNat_ofNat']
    omega
  have hportId : UInt16.ofNat (wordAt buf 22) = b.portId := by
    rw [hbuf, ← UInt16.toNat_inj, UInt16.toNat_ofNat']
    simp only [wordAt, byteAt, List.getD_cons_zero, List.getD_cons_succ, UInt8.toNat_ofNat']
    omega
  have hage : brGetTicks buf 24 = onWire b.messageAge := brGetTicks_window (by rw [hbuf]; rfl)
  have hmaxAge : brGetTicks buf 26 = onWire b.maxAge := brGetTicks_window (by rw [hbuf]; rfl)
  have hhello : brGetTicks buf 28 = onWire b.helloTime := brGetTicks_window (by rw [hbuf]; rfl)
  have hdelay : brGetTicks buf 30 = onWire b.forwardDelay := brGetTicks_window (by rw [hbuf]; rfl)
  rw [readConfig, hflags, hchange, hack, hroot, hbridge, hpathCost, hportId, hage, hmaxAge, hhello, hdelay,
    BrConfigBpdu.received]

theorem drop_bpduFrame (devAddr : BitVec 48) (data : List UInt8) :
    (bpduFrame devAddr data).drop 14 = data ++ List.replicate (60 - (data.length + 14)) 0xa5 := by
  simp [bpduFrame, bridgeUla, macBytes, BridgeId.bytes]

theorem length_configBytes (b : BrConfigBpdu) : (configBytes b).length = 38 := by
  simp [configBytes, header, BridgeId.bytes, brSetTicks]

theorem readBpdu_config (devAddr : BitVec 48) (b : BrConfigBpdu) :
    readBpdu ((bpduFrame devAddr (configBytes b)).drop 14) = some (.config b.received) := by
  rw [drop_bpduFrame, length_configBytes]
  have hlength : (configBytes b ++ List.replicate (60 - (38 + 14)) 0xa5).length = 46 := by
    rw [List.length_append, length_configBytes, List.length_replicate]
  have hheader : (configBytes b ++ List.replicate (60 - (38 + 14)) 0xa5).take 6 = header := by
    simp [configBytes, header]
  have htype : ((configBytes b ++ List.replicate (60 - (38 + 14)) 0xa5).drop 6).headD 0 = bpduTypeConfig := by
    simp [configBytes, header]
  rw [readBpdu, if_neg (by rw [hlength, hheader]; decide), if_pos htype, List.length_drop, hlength,
    if_neg (by decide), readConfig_configBytes b _ rfl]

theorem readBpdu_tcn (devAddr : BitVec 48) : readBpdu ((bpduFrame devAddr tcnBytes).drop 14) = some .tcn := by
  rw [drop_bpduFrame]
  decide

/-- A BPDU that is sent is read again with the same ids, cost and flags; its
times lose a jiffy unless they are multiples of 25. A change notification is
read as one, and the two are never taken for each other. -/
theorem bpdu_round_trip (devAddr : BitVec 48) (b : BrConfigBpdu) :
    (∃ r, readBpdu ((bpduFrame devAddr (configBytes b)).drop 14) = some (.config r) ∧
      r.root = b.root ∧ r.rootPathCost = b.rootPathCost ∧ r.bridgeId = b.bridgeId ∧ r.portId = b.portId ∧
      r.topologyChange = b.topologyChange ∧ r.topologyChangeAck = b.topologyChangeAck ∧
      ∀ time ∈ [BrConfigBpdu.messageAge, BrConfigBpdu.maxAge, BrConfigBpdu.helloTime, BrConfigBpdu.forwardDelay],
        (time b).toNat < 51200 → (time r).toNat = if (time b).toNat % 25 = 0 then (time b).toNat else (time b).toNat - 1) ∧
      readBpdu ((bpduFrame devAddr tcnBytes).drop 14) = some .tcn := by
  obtain ⟨hroot, hcost, hbridge, hport⟩ := b.received_ids
  obtain ⟨hchange, hack⟩ := b.received_flags
  refine ⟨⟨b.received, readBpdu_config devAddr b, hroot, hcost, hbridge, hport, hchange, hack, fun time htime hlt => ?_⟩,
    readBpdu_tcn devAddr⟩
  simp only [List.mem_cons, List.not_mem_nil, or_false] at htime
  rcases htime with rfl | rfl | rfl | rfl
  · exact onWire_of_lt hlt
  · exact onWire_of_lt hlt
  · exact onWire_of_lt hlt
  · exact onWire_of_lt hlt

end AliceModem.Bpdu
