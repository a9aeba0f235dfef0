import Mathlib.Data.List.Basic
import AliceModem.Lib.Words

namespace AliceModem.Esp

open Words

def maxPorts : Nat := 64

def tempSpiStart : Nat := 1500

def espRefTmout : Int := 30 * 200

def espConnTmout : Int := 60 * 200 * 6

def espTmoutCount : Int := espConnTmout / espRefTmout

structure EspEntry where
  lSpi : UInt32 := 0
  rSpi : UInt32 := 0
  lIp : UInt32 := 0
  rIp : UInt32 := 0
  tspi : UInt16 := 0
  ct : Option Nat := none
  timerActive : Bool := false
  pktRcvd : Int := 0
  ntimeouts : Int := 0
  inuse : Bool := false
deriving DecidableEq

def EspEntry.zero : EspEntry := {}

abbrev EspTable := List EspEntry

def espTable : EspTable := List.replicate maxPorts .zero

def firstSome (f : EspEntry → Option EspEntry) : EspTable → Option (Nat × EspEntry)
  | [] => none
  | e :: es =>
    match f e with
    | some e' => some (0, e')
    | none => (firstSome f es).map fun r => (r.1 + 1, r.2)

def visit (spi daddr : UInt32) (e : EspEntry) : Option EspEntry :=
  if e.inuse = false then none
  -- traffic has been seen both ways
  else if e.lSpi ≠ 0 ∧ e.rSpi ≠ 0 then
    if e.lSpi = spi ∨ e.rSpi = spi then some e else none
  else if e.lSpi ≠ 0 then
    -- any other SPI is taken for the first packet from remote
    if spi = e.lSpi then some e else some { e with rSpi := spi, rIp := daddr }
  else if e.rSpi ≠ 0 then
    if spi = e.rSpi then some e else some { e with lSpi := spi }
  else none

def searchEspEntryBySpi (table : EspTable) (spi daddr : UInt32) : Option (Nat × EspEntry) :=
  firstSome (visit spi daddr) table

def allocEspEntry (table : EspTable) : Option (Nat × EspEntry) :=
  (firstSome (fun e => if e.inuse then none else some e) table).map fun r =>
    (r.1, { r.2 with tspi := .ofNat (tempSpiStart + r.1), inuse := true, pktRcvd := 0, timerActive := true })

def entryOf (table : EspTable) (spi saddr daddr : UInt32) (init : EspEntry → EspEntry) : Option (Nat × EspEntry) :=
  match searchEspEntryBySpi table spi daddr with
  | some r => some r
  | none => (allocEspEntry table).map fun r => (r.1, init { r.2 with lSpi := spi, lIp := saddr })

def EspEntry.count (e : EspEntry) : EspEntry := { e with pktRcvd := int32 (e.pktRcvd + 1) }

/-- The temporary SPI for both sides of the tuple; `esph` is the SPI of the
header if it can be copied from the packet. -/
def espPktToTuple (table : EspTable) (esph : Option UInt32) (saddr daddr : UInt32) : Option UInt16 × EspTable :=
  match esph with
  | none => (none, table)
  | some spi =>
    match entryOf table spi saddr daddr id with
    | none => (none, table)
    | some (i, e) => (some e.tspi, table.set i e.count)

inductive ConntrackInfo
  | established | related | new | establishedReply | relatedReply
deriving DecidableEq

/-- Whether the packet is accepted. -/
def espPacket (table : EspTable) (spi saddr daddr : UInt32) (info : ConntrackInfo) : Bool × EspTable :=
  if info = .new then
    match entryOf table spi saddr daddr fun e => { e with rSpi := 0 } with
    | none => (false, table)
    | some (i, e) => (true, table.set i e.count)
  else (true, table)

/-- Whether the connection is kept. -/
def espNew (table : EspTable) (conntrack : Nat) (spi saddr daddr : UInt32) : Bool × EspTable :=
  match entryOf table spi saddr daddr fun e => { e with rSpi := 0 } with
  | none => (false, table)
  | some (i, e) => (true, table.set i { e.count with ct := some conntrack })

def espFreeEntry (table : EspTable) (index : Nat) : EspTable :=
  table.modify index fun e => if e.inuse then .zero else e

/-- The connection passed to `ip_ct_refresh` if the timer gets there. -/
def espRefreshCt (table : EspTable) (data : Nat) : Option (Option Nat) × EspTable :=
  if maxPorts < data then (none, table)
  else
    match table[data]? with
    | none => (none, table)
    | some e =>
      if e.pktRcvd ≠ 0 then
        (some e.ct, table.set data { e with pktRcvd := 0, ntimeouts := 0, timerActive := true })
      else if espTmoutCount ≤ int32 (e.ntimeouts + 1) then
        (none, espFreeEntry (table.set data { e with ntimeouts := int32 (e.ntimeouts + 1) }) data)
      else (some e.ct, table.set data { e with ntimeouts := int32 (e.ntimeouts + 1), timerActive := true })

section

variable {f : EspEntry → Option EspEntry} {e e' : EspEntry} {pre post table : EspTable}

theorem firstSome_eq_none (h : ∀ e ∈ table, f e = none) : firstSome f table = none := by
  induction table with
  | nil => rfl
  | cons e es ih =>
      rw [firstSome, h e List.mem_cons_self, ih fun e' he' => h e' (List.mem_cons_of_mem e he')]
      rfl

theorem firstSome_split {i : Nat} (h : firstSome f table = some (i, e')) :
    ∃ pre e post, table = pre ++ e :: post ∧ pre.length = i ∧ (∀ a ∈ pre, f a = none) ∧ f e = some e' := by
  induction table generalizing i with
  | nil => cases h
  | cons e es ih =>
      rw [firstSome] at h
      cases hf : f e with
      | some a =>
          rw [hf] at h
          cases h
          exact ⟨[], e, es, rfl, rfl, by simp, hf⟩
      | none =>
          rw [hf] at h
          obtain ⟨r, hr, heq⟩ := Option.map_eq_some_iff.mp h
          cases heq
          obtain ⟨pre, a, post, rfl, hlength, hpre, ha⟩ := ih hr
          exact ⟨e :: pre, a, post, rfl, by rw [List.length_cons, hlength], List.forall_mem_cons.mpr ⟨hf, hpre⟩, ha⟩

theorem firstSome_mem {i : Nat} (h : firstSome f table = some (i, e')) : ∃ e ∈ table, f e = some e' := by
  obtain ⟨pre, e, post, rfl, -, -, he⟩ := firstSome_split h
  exact ⟨e, by simp, he⟩

theorem firstSome_append_cons (hpre : ∀ e ∈ pre, f e = none) (he : f e = some e') :
    firstSome f (pre ++ e :: post) = some (pre.length, e') := by
  induction pre with
  | nil => rw [List.nil_append, firstSome, he, List.length_nil]
  | cons a as ih =>
      rw [List.cons_append, firstSome, hpre a List.mem_cons_self, ih fun e' he' => hpre e' (List.mem_cons_of_mem a he')]
      rfl

theorem firstSome_none (h : firstSome f table = none) : ∀ e ∈ table, f e = none := by
  intro e he
  obtain ⟨pre, post, rfl⟩ := List.append_of_mem he
  by_contra hne
  obtain ⟨a, ha⟩ := Option.ne_none_iff_exists'.mp hne
  induction pre with
  | nil =>
      rw [List.nil_append, firstSome, ha] at h
      cases h
  | cons b pre ih =>
      rw [List.cons_append, firstSome] at h
      cases hb : f b with
      | some c =>
          rw [hb] at h
          cases h
      | none =>
          rw [hb] at h
          exact ih (Option.map_eq_none_iff.mp h) (by simp)

theorem firstFree_append_cons (hpre : ∀ a ∈ pre, a.inuse = true) (he : e.inuse = false) :
    firstSome (fun e => if e.inuse then none else some e) (pre ++ e :: post) = some (pre.length, e) := by
  refine firstSome_append_cons (fun a ha => ?_) ?_
  · rw [hpre a ha]
    rfl
  · rw [he]
    rfl

theorem firstFree_split {i : Nat} (h : firstSome (fun e => if e.inuse then none else some e) table = some (i, e)) :
    ∃ pre post, table = pre ++ e :: post ∧ pre.length = i ∧ (∀ a ∈ pre, a.inuse = true) ∧ e.inuse = false := by
  obtain ⟨pre, a, post, rfl, hlength, hpre, ha⟩ := firstSome_split h
  split_ifs at ha with hused
  cases ha
  refine ⟨pre, post, rfl, hlength, fun b hb => ?_, eq_false_of_ne_true hused⟩
  simpa using hpre b hb

end

end AliceModem.Esp
