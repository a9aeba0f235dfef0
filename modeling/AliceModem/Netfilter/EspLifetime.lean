import AliceModem.Lib.Transition
import AliceModem.Netfilter.Esp

namespace AliceModem.EspLifetime

open Esp Transition Words

structure Life where
  hits : Nat
  quiet : Nat
  since : Nat

/-- The table, the pending refresh timers by their `data`, and the histories. -/
structure Sys where
  table : EspTable
  pending : List Nat
  lives : Nat → Life

inductive Event
  | pktToTuple (esph : Option UInt32) (saddr daddr : UInt32)
  | new (conntrack : Nat) (spi saddr daddr : UInt32)
  | packet (spi saddr daddr : UInt32) (info : ConntrackInfo)
  | timer (data : Nat)

def Event.looksUp : Event → Option (UInt32 × UInt32)
  | .pktToTuple esph _ daddr => esph.map (·, daddr)
  | .new _ spi _ daddr => some (spi, daddr)
  | .packet spi _ daddr info => if info = .new then some (spi, daddr) else none
  | .timer _ => none

def selected (table : EspTable) (spi daddr : UInt32) : Option (Nat × Bool) :=
  match searchEspEntryBySpi table spi daddr with
  | some r => some (r.1, false)
  | none => (allocEspEntry table).map fun r => (r.1, true)

def nextTable (table : EspTable) : Event → EspTable
  | .pktToTuple esph saddr daddr => (espPktToTuple table esph saddr daddr).2
  | .new conntrack spi saddr daddr => (espNew table conntrack spi saddr daddr).2
  | .packet spi saddr daddr info => (espPacket table spi saddr daddr info).2
  | .timer data => (espRefreshCt table data).2

/-- The timer that expires is no longer pending; `esp_refresh_ct` adds it again after `ip_ct_refresh`, and
`esp_free_entry` deletes it. -/
def refreshTimers (s : Sys) (data : Nat) : List Nat :=
  let pending := s.pending.erase data
  if (espRefreshCt s.table data).1.isSome then data :: pending
  else if ∃ e ∈ s.table[data]?, e.inuse = true ∧ e.timerActive = true then pending.erase data else pending

def Life.select (life : Life) (allocated : Bool) : Life :=
  if allocated then ⟨1, 0, 0⟩ else { life with hits := life.hits + 1, since := 0 }

def Life.expire (life : Life) : Life :=
  ⟨0, if life.hits = 0 then life.quiet + 1 else 0, life.since + 1⟩

/-- `alloc_esp_entry` adds a timer for the entry that it allocates. -/
def step (s : Sys) (ev : Event) : Sys :=
  match ev with
  | .timer data =>
      ⟨nextTable s.table ev, refreshTimers s data, Function.update s.lives data (s.lives data).expire⟩
  | _ =>
      match ev.looksUp.bind fun l => selected s.table l.1 l.2 with
      | none => { s with table := nextTable s.table ev }
      | some (i, allocated) =>
          ⟨nextTable s.table ev, if allocated then i :: s.pending else s.pending,
            Function.update s.lives i ((s.lives i).select allocated)⟩

def start : Sys := ⟨espTable, [], fun _ => ⟨0, 0, 0⟩⟩

def Enabled (s : Sys) : Event → Prop
  | .timer data => data ∈ s.pending
  | _ => True

/-- An entry that ceases to be in use has been quiet for the last twelve expirations, and it is the timer that
frees it. -/
def FreesQuiet (s : Sys) (ev : Event) : Prop :=
  ∀ i e e', s.table[i]? = some e → e.inuse = true → (step s ev).table[i]? = some e' → e'.inuse = false →
    ev = .timer i ∧ ((step s ev).lives i).quiet = 12

/-- An entry in use has one timer and its own SPI, and is not yet at its thirteenth expiration; a free one has no
timer and is the one to be allocated if those before it are in use. -/
def Kept (s : Sys) : Prop :=
  ∀ i e, s.table[i]? = some e →
    (e.inuse = true → s.pending.count i = 1 ∧ e.tspi = .ofNat (tempSpiStart + i) ∧ (s.lives i).since < 13) ∧
    (e.inuse = false → s.pending.count i = 0 ∧
      ((∀ a ∈ s.table.take i, a.inuse = true) → (allocEspEntry s.table).map Prod.fst = some i))

/-- The lookups between two expirations are not so many that `pkt_rcvd` is back at 0. -/
def Counted (s : Sys) : Event → Prop
  | .timer data => (s.lives data).hits % 4294967296 = 0 → (s.lives data).hits = 0
  | _ => True

structure Row (i : Nat) (timers : Nat) (life : Life) (e : EspEntry) : Prop where
  used : e.inuse = true → timers = 1 ∧ e.tspi = .ofNat (tempSpiStart + i) ∧ e.pktRcvd = int32 life.hits ∧
    e.ntimeouts = life.quiet ∧ life.quiet < 12 ∧ life.since = if life.hits = 0 then life.quiet + 1 else 0
  free : e.inuse = false → timers = 0 ∧ e = .zero

structure Inv (s : Sys) : Prop where
  length : s.table.length = maxPorts
  pending : ∀ i ∈ s.pending, i < maxPorts
  row : ∀ i e, s.table[i]? = some e → Row i (s.pending.count i) (s.lives i) e

section Lookup

structure Alive (e : EspEntry) (tspi : UInt16) (pktRcvd ntimeouts : Int) : Prop where
  inuse : e.inuse = true
  tspi : e.tspi = tspi
  pktRcvd : e.pktRcvd = pktRcvd
  ntimeouts : e.ntimeouts = ntimeouts

variable {spi daddr : UInt32} {e e' : EspEntry}

theorem visit_alive (h : visit spi daddr e = some e') : e.inuse = true ∧ Alive e' e.tspi e.pktRcvd e.ntimeouts := by
  rw [visit] at h
  split_ifs at h with hfree
  all_goals
    cases h
    have hin : e.inuse = true := by simpa using hfree
    exact ⟨hin, hin, rfl, rfl, rfl⟩

theorem getElem?_split (pre : EspTable) (a : EspEntry) (post : EspTable) :
    (pre ++ a :: post)[pre.length]? = some a := by
  simp

theorem entryOf_cases (init : EspEntry → EspEntry) (table : EspTable) (spi saddr daddr : UInt32)
    (hinit : ∀ a tspi n k, Alive a tspi n k → Alive (init a) tspi n k) :
    (selected table spi daddr = none ∧ entryOf table spi saddr daddr init = none) ∨
    (∃ i e e', selected table spi daddr = some (i, false) ∧ entryOf table spi saddr daddr init = some (i, e') ∧
      table[i]? = some e ∧ e.inuse = true ∧ Alive e' e.tspi e.pktRcvd e.ntimeouts) ∨
    ∃ i e e', selected table spi daddr = some (i, true) ∧ entryOf table spi saddr daddr init = some (i, e') ∧
      table[i]? = some e ∧ e.inuse = false ∧ Alive e' (.ofNat (tempSpiStart + i)) 0 e.ntimeouts := by
  rw [selected, entryOf]
  rcases hsearch : searchEspEntryBySpi table spi daddr with _ | ⟨i, e'⟩
  · rcases halloc : firstSome (fun e => if e.inuse then none else some e) table with _ | ⟨i, a⟩
    · rw [allocEspEntry, halloc]
      exact .inl ⟨rfl, rfl⟩
    · obtain ⟨pre, post, rfl, rfl, -, hfree⟩ := firstFree_split halloc
      rw [allocEspEntry, halloc]
      exact .inr (.inr ⟨pre.length, a, _, rfl, rfl, getElem?_split .., hfree, hinit _ _ _ _ ⟨rfl, rfl, rfl, rfl⟩⟩)
  · obtain ⟨pre, e, post, rfl, rfl, -, he⟩ := firstSome_split hsearch
    obtain ⟨hin, halive⟩ := visit_alive he
    exact .inr (.inl ⟨pre.length, e, e', rfl, rfl, getElem?_split .., hin, halive⟩)

def Selects (table next : EspTable) (r : Option (Nat × Bool)) : Prop :=
  (r = none ∧ next = table) ∨
  (∃ i e e', r = some (i, false) ∧ table[i]? = some e ∧ e.inuse = true ∧ next = table.set i e' ∧
    Alive e' e.tspi (int32 (e.pktRcvd + 1)) e.ntimeouts) ∨
  ∃ i e e', r = some (i, true) ∧ table[i]? = some e ∧ e.inuse = false ∧ next = table.set i e' ∧
    Alive e' (.ofNat (tempSpiStart + i)) (int32 1) e.ntimeouts

theorem selects_of_entryOf {table next : EspTable} (saddr : UInt32) (init finish : EspEntry → EspEntry)
    (hinit : ∀ a tspi n k, Alive a tspi n k → Alive (init a) tspi n k)
    (hfinish : ∀ a tspi n k, Alive a tspi n k → Alive (finish a) tspi (int32 (n + 1)) k)
    (hnone : entryOf table spi saddr daddr init = none → next = table)
    (hsome : ∀ i a, entryOf table spi saddr daddr init = some (i, a) → next = table.set i (finish a)) :
    Selects table next (selected table spi daddr) := by
  rcases entryOf_cases init table spi saddr daddr hinit with
    ⟨hs, he⟩ | ⟨i, e, e', hs, he, hget, hin, ha⟩ | ⟨i, e, e', hs, he, hget, hin, ha⟩
  · exact .inl ⟨hs, hnone he⟩
  · exact .inr (.inl ⟨i, e, finish e', hs, hget, hin, hsome i e' he, hfinish _ _ _ _ ha⟩)
  · exact .inr (.inr ⟨i, e, finish e', hs, hget, hin, hsome i e' he, hfinish _ _ _ _ ha⟩)

theorem Alive.count {tspi : UInt16} {n k : Int} (h : Alive e tspi n k) : Alive e.count tspi (int32 (n + 1)) k :=
  ⟨h.inuse, h.tspi, congrArg (fun n => int32 (n + 1)) h.pktRcvd, h.ntimeouts⟩

theorem lookup_selects (table : EspTable) {ev : Event} (hev : ∀ data, ev ≠ .timer data) :
    Selects table (nextTable table ev) (ev.looksUp.bind fun l => selected table l.1 l.2) := by
  have hzero (a : EspEntry) (tspi : UInt16) (n k : Int) (h : Alive a tspi n k) :
      Alive { a with rSpi := 0 } tspi n k := ⟨h.inuse, h.tspi, h.pktRcvd, h.ntimeouts⟩
  cases ev with
  | timer data => exact absurd rfl (hev data)
  | pktToTuple esph saddr daddr =>
      cases esph with
      | none => exact .inl ⟨rfl, rfl⟩
      | some spi =>
          refine selects_of_entryOf saddr id EspEntry.count (fun _ _ _ _ h => h) (fun _ _ _ _ h => h.count)
            (fun h => ?_) fun i a h => ?_
          · rw [nextTable, espPktToTuple, h]
          · rw [nextTable, espPktToTuple, h]
  | new conntrack spi saddr daddr =>
      refine selects_of_entryOf saddr (fun e => { e with rSpi := 0 }) (fun e => { e.count with ct := some conntrack }) hzero
        (fun _ _ _ _ h => ⟨h.inuse, h.tspi, h.count.pktRcvd, h.ntimeouts⟩) (fun h => ?_) fun i a h => ?_
      · rw [nextTable, espNew, h]
      · rw [nextTable, espNew, h]
  | packet spi saddr daddr info =>
      by_cases hnew : info = .new
      · rw [Event.looksUp, if_pos hnew, Option.bind_some]
        refine selects_of_entryOf saddr (fun e => { e with rSpi := 0 }) EspEntry.count hzero (fun _ _ _ _ h => h.count)
          (fun h => ?_) fun i a h => ?_
        · rw [nextTable, espPacket, if_pos hnew, h]
        · rw [nextTable, espPacket, if_pos hnew, h]
      · rw [Event.looksUp, if_neg hnew, nextTable, espPacket, if_neg hnew]
        exact .inl ⟨rfl, rfl⟩

end Lookup

section Expiry

variable {s : Sys} {i : Nat} {e : EspEntry} {life : Life}

theorem espFreeEntry_set {table : EspTable} {a : EspEntry} (ha : a.inuse = true) :
    espFreeEntry (table.set i a) i = table.set i .zero := by
  refine List.ext_getElem? fun j => ?_
  rw [espFreeEntry, List.getElem?_modify, List.getElem?_set, List.getElem?_set]
  by_cases hij : i = j
  · by_cases hlt : i < table.length
    · simp [hij, hij ▸ hlt, ha]
    · simp [hij, hij ▸ hlt]
  · simp [hij]

theorem count_erase_of_one (h : s.pending.count i = 1) (j : Nat) :
    (s.pending.erase i).count j = if j = i then 0 else s.pending.count j := by
  rw [List.count_erase]
  by_cases hj : j = i
  · simp [hj, h]
  · simp [hj, Ne.symm hj]

theorem count_cons_erase (h : s.pending.count i = 1) (j : Nat) :
    (i :: s.pending.erase i).count j = s.pending.count j := by
  rw [List.count_cons, count_erase_of_one h]
  by_cases hj : j = i
  · simp [hj, h]
  · simp [hj, Ne.symm hj]

theorem refresh_cases (hrow : Row i (s.pending.count i) life e) (hin : e.inuse = true) (hget : s.table[i]? = some e)
    (hi : i < maxPorts) (hcounted : life.hits % 4294967296 = 0 → life.hits = 0) :
    (nextTable s.table (.timer i) = s.table.set i .zero ∧
      (∀ j, (refreshTimers s i).count j = if j = i then 0 else s.pending.count j) ∧ life.expire.quiet = 12) ∨
    ∃ e', nextTable s.table (.timer i) = s.table.set i e' ∧
      (∀ j, (refreshTimers s i).count j = s.pending.count j) ∧
      Alive e' e.tspi 0 life.expire.quiet ∧ life.expire.quiet < 12 ∧ life.expire.since = life.expire.quiet + 1 := by
  obtain ⟨hone, -, hrcvd, hntimeouts, hquiet, hsince⟩ := hrow.used hin
  have hdata : ¬ maxPorts < i := by omega
  rw [nextTable, refreshTimers, espRefreshCt, if_neg hdata, hget]
  by_cases hhits : life.hits = 0
  · have hzero : ¬ e.pktRcvd ≠ 0 := by
      rw [hrcvd, hhits]
      decide
    have hnext : int32 (e.ntimeouts + 1) = life.quiet + 1 := by
      rw [hntimeouts]
      exact int32_of_range (by omega) (by omega)
    have hexpire : life.expire.quiet = life.quiet + 1 := if_pos hhits
    have hsince : life.expire.since = life.expire.quiet + 1 := by
      rw [hexpire, Life.expire, hsince, if_pos hhits]
    simp only [if_neg hzero, hnext]
    by_cases hlast : espTmoutCount ≤ life.quiet + 1
    · have hlast' : 12 ≤ (life.quiet + 1 : Int) := hlast
      simp only [if_pos hlast]
      refine .inl ⟨espFreeEntry_set hin, fun j => ?_, by omega⟩
      have herase := count_erase_of_one hone j
      have hgone : i ∉ s.pending.erase i := List.count_eq_zero.mp (by rw [count_erase_of_one hone, if_pos rfl])
      simp only [Option.isSome_none, Bool.false_eq_true, if_false, List.erase_of_not_mem hgone, ite_self]
      exact herase
    · have hlast' : ¬ 12 ≤ (life.quiet + 1 : Int) := hlast
      simp only [if_neg hlast]
      refine .inr ⟨_, rfl, count_cons_erase hone, ⟨hin, rfl, Decidable.not_not.mp hzero, ?_⟩, by omega, hsince⟩
      rw [hexpire]
      rfl
  · have hzero : e.pktRcvd ≠ 0 := by
      rw [hrcvd, int32]
      omega
    have hexpire : life.expire.quiet = 0 := if_neg hhits
    simp only [if_pos hzero]
    refine .inr ⟨_, rfl, count_cons_erase hone, ⟨hin, rfl, rfl, ?_⟩, by omega, ?_⟩
    · rw [hexpire]
      rfl
    · rw [hexpire, Life.expire, hsince, if_neg hhits]

end Expiry

section Step

variable {s : Sys} {ev : Event} {i : Nat} {e e' : EspEntry} {life : Life} {timers : Nat}

theorem Row.selected (hrow : Row i timers life e) (hin : e.inuse = true)
    (ha : Alive e' e.tspi (int32 (e.pktRcvd + 1)) e.ntimeouts) : Row i timers (life.select false) e' := by
  obtain ⟨hone, htspi, hrcvd, hntimeouts, hquiet, -⟩ := hrow.used hin
  refine ⟨fun _ => ⟨hone, ha.tspi.trans htspi, ?_, ha.ntimeouts.trans hntimeouts, hquiet, rfl⟩, fun hfree => ?_⟩
  · have hhits : (life.select false).hits = life.hits + 1 := rfl
    rw [ha.pktRcvd, hrcvd, hhits]
    unfold int32
    omega
  · rw [ha.inuse] at hfree
    cases hfree

theorem Row.allocated (hrow : Row i timers life e) (hfree : e.inuse = false)
    (ha : Alive e' (.ofNat (tempSpiStart + i)) (int32 1) e.ntimeouts) :
    Row i (timers + 1) (life.select true) e' := by
  obtain ⟨htimers, rfl⟩ := hrow.free hfree
  refine ⟨fun _ => ⟨by omega, ha.tspi, ha.pktRcvd, ha.ntimeouts, Nat.succ_pos 11, rfl⟩, fun hfree' => ?_⟩
  rw [ha.inuse] at hfree'
  cases hfree'

theorem Row.expired (hrow : Row i timers life e) (hin : e.inuse = true) (ha : Alive e' e.tspi 0 life.expire.quiet)
    (hquiet : life.expire.quiet < 12) (hsince : life.expire.since = life.expire.quiet + 1) :
    Row i timers life.expire e' := by
  obtain ⟨hone, htspi, -⟩ := hrow.used hin
  have hhits : life.expire.hits = 0 := rfl
  refine ⟨fun _ => ⟨hone, ha.tspi.trans htspi, ?_, ha.ntimeouts, hquiet, ?_⟩, fun hfree => ?_⟩
  · rw [ha.pktRcvd, hhits]
    decide
  · rw [if_pos hhits, hsince]
  rw [ha.inuse] at hfree
  cases hfree

theorem step_lookup (hev : ∀ data, ev ≠ .timer data) :
    step s ev =
      match ev.looksUp.bind fun l => selected s.table l.1 l.2 with
      | none => { s with table := nextTable s.table ev }
      | some (i, allocated) =>
          ⟨nextTable s.table ev, if allocated then i :: s.pending else s.pending,
            Function.update s.lives i ((s.lives i).select allocated)⟩ := by
  cases ev with
  | timer data => exact absurd rfl (hev data)
  | pktToTuple esph saddr daddr => rfl
  | new conntrack spi saddr daddr => rfl
  | packet spi saddr daddr info => rfl

theorem step_cases (h : Inv s) (hE : Enabled s ev) (hC : Counted s ev) :
    step s ev = s ∨
    ∃ i e' pending life, step s ev = ⟨s.table.set i e', pending, Function.update s.lives i life⟩ ∧ i < maxPorts ∧
      (∀ j, j ≠ i → pending.count j = s.pending.count j) ∧ Row i (pending.count i) life e' ∧
      (e'.inuse = false → ev = .timer i ∧ life.quiet = 12) := by
  have hlt {i : Nat} {e : EspEntry} (hget : s.table[i]? = some e) : i < maxPorts :=
    h.length ▸ (List.getElem?_eq_some_iff.mp hget).1
  by_cases hev : ∀ data, ev ≠ .timer data
  · rw [step_lookup hev]
    rcases lookup_selects s.table hev with
      ⟨hs, hnext⟩ | ⟨i, e, e', hs, hget, hin, hnext, ha⟩ | ⟨i, e, e', hs, hget, hfree, hnext, ha⟩
    · left
      rw [hs, hnext]
    · right
      rw [hs, hnext]
      refine ⟨i, e', _, _, rfl, hlt hget, fun j _ => rfl, (h.row i e hget).selected hin ha, fun hfree => ?_⟩
      rw [ha.inuse] at hfree
      cases hfree
    · right
      rw [hs, hnext]
      refine ⟨i, e', _, _, rfl, hlt hget, fun j hj => List.count_cons_of_ne hj.symm, ?_, fun hfree' => ?_⟩
      · rw [if_pos rfl, List.count_cons_self]
        exact (h.row i e hget).allocated hfree ha
      · rw [ha.inuse] at hfree'
        cases hfree'
  · obtain ⟨i, rfl⟩ := not_forall_not.mp hev
    have hi : i < maxPorts := h.pending i hE
    obtain ⟨e, hget⟩ : ∃ e, s.table[i]? = some e := ⟨_, List.getElem?_eq_getElem (h.length.symm ▸ hi)⟩
    have hrow := h.row i e hget
    have hin : e.inuse = true := by
      by_contra hne
      obtain ⟨htimers, -⟩ := hrow.free (by simpa using hne)
      exact List.count_eq_zero.mp htimers hE
    right
    rcases refresh_cases hrow hin hget hi hC with ⟨hnext, hcount, hquiet⟩ | ⟨e', hnext, hcount, ha, hquiet, hsince⟩
    · refine ⟨i, .zero, refreshTimers s i, (s.lives i).expire, ?_, hi, fun j hj => ?_, ?_, fun _ => ⟨rfl, hquiet⟩⟩
      · rw [step, hnext]
      · rw [hcount, if_neg hj]
      · rw [hcount, if_pos rfl]
        exact ⟨fun hin => absurd hin Bool.false_ne_true, fun _ => ⟨rfl, rfl⟩⟩
    · refine ⟨i, e', refreshTimers s i, (s.lives i).expire, ?_, hi, fun j _ => hcount j, ?_, fun hfree => ?_⟩
      · rw [step, hnext]
      · rw [hcount]
        exact hrow.expired hin ha hquiet hsince
      · rw [ha.inuse] at hfree
        cases hfree

theorem Inv.step (h : Inv s) (hE : Enabled s ev) (hC : Counted s ev) : Inv (step s ev) := by
  rcases step_cases h hE hC with hsame | ⟨i, e', pending, life, hstep, hi, hcount, hrow, -⟩
  · exact hsame.symm ▸ h
  · rw [hstep]
    refine ⟨List.length_set.trans h.length, fun j hj => ?_, fun j a hget => ?_⟩
    · by_cases hji : j = i
      · exact hji ▸ hi
      · exact h.pending j (List.count_pos_iff.mp (hcount j hji ▸ List.count_pos_iff.mpr hj))
    · by_cases hji : j = i
      · obtain rfl : e' = a := by
          rw [hji, List.getElem?_set_self (h.length.symm ▸ hi)] at hget
          exact Option.some.inj hget
        simp only [hji, Function.update_self]
        exact hrow
      · rw [List.getElem?_set_ne (Ne.symm hji)] at hget
        simp only [Function.update_of_ne hji, hcount j hji]
        exact h.row j a hget

theorem Inv.freesQuiet (h : Inv s) (hE : Enabled s ev) (hC : Counted s ev) : FreesQuiet s ev := by
  intro j a a' hget hin hget' hfree
  rcases step_cases h hE hC with hsame | ⟨i, e', pending, life, hstep, hi, -, -, hfrees⟩
  · rw [hsame, hget] at hget'
    cases hget'
    rw [hin] at hfree
    cases hfree
  · rw [hstep] at hget' ⊢
    by_cases hji : j = i
    · obtain rfl : e' = a' := by
        rw [hji, List.getElem?_set_self (h.length.symm ▸ hi)] at hget'
        exact Option.some.inj hget'
      simp only [hji, Function.update_self]
      exact hfrees hfree
    · rw [List.getElem?_set_ne (Ne.symm hji), hget] at hget'
      cases hget'
      rw [hin] at hfree
      cases hfree

theorem Inv.kept (h : Inv s) : Kept s := by
  intro i e hget
  have hrow := h.row i e hget
  refine ⟨fun hin => ?_, fun hfree => ⟨(hrow.free hfree).1, fun hbefore => ?_⟩⟩
  · obtain ⟨hone, htspi, -, -, hquiet, hsince⟩ := hrow.used hin
    refine ⟨hone, htspi, ?_⟩
    split_ifs at hsince <;> omega
  · have hi := (List.getElem?_eq_some_iff.mp hget).1
    have htable : s.table = s.table.take i ++ e :: s.table.drop (i + 1) := by
      rw [← (List.getElem?_eq_some_iff.mp hget).2, List.getElem_cons_drop, List.take_append_drop]
    have hfirst : firstSome (fun a => if a.inuse then none else some a) (s.table.take i ++ e :: s.table.drop (i + 1)) =
        some ((s.table.take i).length, e) := firstFree_append_cons hbefore hfree
    rw [← htable, List.length_take_of_le hi.le] at hfirst
    rw [allocEspEntry, hfirst]
    rfl

theorem start_inv : Inv start := by
  refine ⟨List.length_replicate, fun i hi => absurd hi List.not_mem_nil, fun i e hget => ?_⟩
  obtain rfl : e = .zero := List.eq_of_mem_replicate (List.mem_of_getElem? hget)
  exact ⟨fun hin => absurd hin Bool.false_ne_true, fun _ => ⟨rfl, rfl⟩⟩

end Step

/-- Entries are freed after twelve quiet expirations and no others, at the latest by the thirteenth after the last
lookup; those in use have their timer and SPI, those freed can be allocated again. -/
theorem entry_lifetime (es : List Event) (hE : Along step Enabled start es) (hC : Along step Counted start es) :
    Along step FreesQuiet start es ∧ Throughout step Kept start es := by
  constructor
  · exact Along.of_invariant (I := Inv) (fun s ev h hE hC => h.freesQuiet hE hC) (fun s ev h hE hC => h.step hE hC)
      start_inv hE hC
  · exact Throughout.of_invariant (I := Inv) (fun s h => h.kept) (fun s ev h hE hC => h.step hE hC) start_inv hE hC

section Demo

instance decidableEnabled (s : Sys) : (ev : Event) → Decidable (Enabled s ev)
  | .timer data => inferInstanceAs (Decidable (data ∈ s.pending))
  | .pktToTuple _ _ _ | .new _ _ _ _ | .packet _ _ _ _ => inferInstanceAs (Decidable True)

instance decidableCounted (s : Sys) : (ev : Event) → Decidable (Counted s ev)
  | .timer data => inferInstanceAs (Decidable ((s.lives data).hits % 4294967296 = 0 → (s.lives data).hits = 0))
  | .pktToTuple _ _ _ | .new _ _ _ _ | .packet _ _ _ _ => inferInstanceAs (Decidable True)

def demoPacket : Event := .pktToTuple (some 7) 1 2

def demoQuiet (n : Nat) : List Event := demoPacket :: List.replicate n (.timer 0)

theorem entry_lifetime_quiet :
    (Along step Enabled start (demoQuiet 13) ∧ Along step Counted start (demoQuiet 13)) ∧
    (((demoQuiet 12).foldl step start).table.map (·.inuse)).head? = some true ∧
    (((demoQuiet 13).foldl step start).table.map (·.inuse)).head? = some false ∧
    Along step FreesQuiet start (demoQuiet 13) ∧ Throughout step Kept start (demoQuiet 13) :=
  ⟨⟨by decide, by decide⟩, by decide, by decide, entry_lifetime (demoQuiet 13) (by decide) (by decide)⟩

def demoEntry : EspEntry :=
  { lSpi := 7, lIp := 1, tspi := 1500, timerActive := true, ntimeouts := 11, inuse := true }

structure Flooded (n : Nat) (s : Sys) : Prop where
  table : s.table = { demoEntry with pktRcvd := int32 n } :: List.replicate 63 .zero
  pending : s.pending = [0]
  hits : (s.lives 0).hits = n

theorem flooded_zero : Flooded 0 ((demoQuiet 12).foldl step start) := ⟨by decide, by decide, by decide⟩

theorem Flooded.packet {n : Nat} {s : Sys} (h : Flooded n s) : Flooded (n + 1) (step s demoPacket) := by
  obtain ⟨table, pending, lives⟩ := s
  obtain ⟨htable, hpending, hhits⟩ := h
  have hcount : int32 (int32 n + 1) = int32 ((n + 1 : Nat) : Int) := by
    unfold int32
    omega
  subst htable hpending
  refine ⟨?_, rfl, ?_⟩
  · rw [← hcount]
    rfl
  · rw [← hhits]
    rfl

theorem flooded_replicate (n : Nat) {k : Nat} {s : Sys} (h : Flooded k s) :
    Along step Enabled s (List.replicate n demoPacket) ∧
      Flooded (k + n) ((List.replicate n demoPacket).foldl step s) := by
  induction n generalizing k s with
  | zero => exact ⟨trivial, h⟩
  | succ n ih =>
      obtain ⟨henabled, hflooded⟩ := ih h.packet
      refine ⟨⟨trivial, henabled⟩, ?_⟩
      rw [Nat.add_right_comm] at hflooded
      exact hflooded

theorem Flooded.frees {s : Sys} (h : Flooded 4294967296 s) : Enabled s (.timer 0) ∧ ¬ FreesQuiet s (.timer 0) := by
  have htable : s.table = demoEntry :: List.replicate 63 .zero := h.table
  have hnext : (step s (.timer 0)).table = .zero :: List.replicate 63 .zero := by
    rw [step, nextTable, htable]
    rfl
  have hhits : (s.lives 0).hits ≠ 0 := by
    rw [h.hits]
    decide
  have hquiet : ((step s (.timer 0)).lives 0).quiet = 0 := by
    simp only [step, Function.update_self, Life.expire, if_neg hhits]
  constructor
  · have hpending : 0 ∈ s.pending := h.pending ▸ List.mem_singleton_self 0
    exact hpending
  · intro hfrees
    obtain ⟨-, htwelve⟩ := hfrees 0 demoEntry .zero (by rw [htable]; rfl) rfl (by rw [hnext]; rfl) rfl
    rw [hquiet] at htwelve
    cases htwelve

def demoFlood : List Event := demoQuiet 12 ++ (List.replicate 4294967296 demoPacket ++ [.timer 0])

theorem flood_frees_entry : Along step Enabled start demoFlood ∧ ¬ Along step FreesQuiet start demoFlood := by
  obtain ⟨henabled, hflooded⟩ := flooded_replicate 4294967296 flooded_zero
  rw [Nat.zero_add] at hflooded
  obtain ⟨htimer, hfrees⟩ := hflooded.frees
  constructor
  · exact along_append.mpr ⟨by decide, along_append.mpr ⟨henabled, htimer, trivial⟩⟩
  · intro h
    exact hfrees (along_append.mp (along_append.mp h).2).2.1

end Demo

end AliceModem.EspLifetime
