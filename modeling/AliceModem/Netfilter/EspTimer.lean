import Mathlib.Data.Finset.Basic
import AliceModem.Lib.Transition
import AliceModem.Netfilter.Esp

namespace AliceModem.EspTimer

open Esp Transition

/-- The table and the connections that have been created and not destroyed;
`created` counts all those created so far. -/
structure Sys where
  table : EspTable
  created : Nat
  live : Finset Nat

inductive Event
  | create
  | destroy (conntrack : Nat)
  | pktToTuple (esph : Option UInt32) (saddr daddr : UInt32)
  | new (conntrack : Nat) (spi saddr daddr : UInt32)
  | packet (conntrack : Nat) (spi saddr daddr : UInt32) (info : ConntrackInfo)
  | timer (data : Nat)

def start : Sys := ⟨espTable, 0, ∅⟩

def step (s : Sys) : Event → Sys
  | .create => { s with created := s.created + 1, live := insert s.created s.live }
  | .destroy c => { s with live := s.live.erase c }
  | .pktToTuple esph saddr daddr => { s with table := (espPktToTuple s.table esph saddr daddr).2 }
  | .new c spi saddr daddr => { s with table := (espNew s.table c spi saddr daddr).2 }
  | .packet _ spi saddr daddr info => { s with table := (espPacket s.table spi saddr daddr info).2 }
  | .timer data => { s with table := (espRefreshCt s.table data).2 }

def Enabled (s : Sys) : Event → Prop
  | .create | .pktToTuple _ _ _ => True
  | .destroy c | .new c _ _ _ | .packet c _ _ _ _ => c ∈ s.live
  | .timer data => ∃ e ∈ s.table[data]?, e.timerActive

/-- The timer passes only live connections to `ip_ct_refresh`. -/
def Refreshes (s : Sys) : Event → Prop
  | .timer data => ∀ ct, (espRefreshCt s.table data).1 = some ct → ∃ c ∈ s.live, ct = some c
  | _ => True

def Bound (s : Sys) : Event → Prop
  | .destroy c => ∀ e ∈ s.table, e.ct ≠ some c
  | .timer data => ∀ e ∈ s.table[data]?, e.ct ≠ none
  | _ => True

def Holds (table : EspTable) (c : Nat) : Prop := ∃ e ∈ table, e.ct = some c

def Inv (s : Sys) : Prop := ∀ c, Holds s.table c → c ∈ s.live

section Step

variable {table : EspTable} {spi saddr daddr : UInt32} {e e' : EspEntry} {i c : Nat}

theorem visit_ct (h : visit spi daddr e = some e') : e'.ct = e.ct := by
  unfold visit at h
  split_ifs at h <;> cases h <;> rfl

theorem entryOf_ct {init : EspEntry → EspEntry} (h : entryOf table spi saddr daddr init = some (i, e'))
    (hinit : ∀ e, (init e).ct = e.ct) : ∃ e ∈ table, e'.ct = e.ct := by
  rw [entryOf] at h
  cases hs : searchEspEntryBySpi table spi daddr with
  | some r =>
      rw [hs] at h
      cases h
      obtain ⟨e, he, hv⟩ := firstSome_mem hs
      exact ⟨e, he, visit_ct hv⟩
  | none =>
      rw [hs] at h
      obtain ⟨r, hr, heq⟩ := Option.map_eq_some_iff.mp h
      obtain ⟨q, hq, rfl⟩ := Option.map_eq_some_iff.mp hr
      obtain ⟨e, he, hfree⟩ := firstSome_mem hq
      cases heq
      rw [hinit]
      split_ifs at hfree
      cases hfree
      exact ⟨q.2, he, rfl⟩

theorem Holds.of_set (h : Holds (table.set i e) c) : Holds table c ∨ e.ct = some c := by
  obtain ⟨a, ha, hct⟩ := h
  rcases List.mem_or_eq_of_mem_set ha with ha | rfl
  · exact .inl ⟨a, ha, hct⟩
  · exact .inr hct

theorem Holds.of_set_same (h : Holds (table.set i e) c) (he : ∃ a ∈ table, e.ct = a.ct) : Holds table c := by
  rcases h.of_set with h | hct
  · exact h
  · obtain ⟨a, ha, heq⟩ := he
    exact ⟨a, ha, heq ▸ hct⟩

theorem Holds.of_espPktToTuple {esph : Option UInt32} (h : Holds (espPktToTuple table esph saddr daddr).2 c) :
    Holds table c := by
  cases esph with
  | none => exact h
  | some spi =>
      rw [espPktToTuple] at h
      cases he : entryOf table spi saddr daddr id with
      | none =>
          rw [he] at h
          exact h
      | some r =>
          rw [he] at h
          have hct : ∃ a ∈ table, r.2.ct = a.ct := entryOf_ct he fun _ => rfl
          exact h.of_set_same hct

theorem Holds.of_espPacket {info : ConntrackInfo} (h : Holds (espPacket table spi saddr daddr info).2 c) :
    Holds table c := by
  rw [espPacket] at h
  split_ifs at h with hnew
  · cases he : entryOf table spi saddr daddr fun e => { e with rSpi := 0 } with
    | none =>
        rw [he] at h
        exact h
    | some r =>
        rw [he] at h
        have hct : ∃ a ∈ table, r.2.ct = a.ct := entryOf_ct he fun _ => rfl
        exact h.of_set_same hct
  · exact h

theorem Holds.of_espNew {conntrack : Nat} (h : Holds (espNew table conntrack spi saddr daddr).2 c) :
    Holds table c ∨ c = conntrack := by
  rw [espNew] at h
  cases he : entryOf table spi saddr daddr fun e => { e with rSpi := 0 } with
  | none =>
      rw [he] at h
      exact .inl h
  | some r =>
      rw [he] at h
      rcases h.of_set with h | hct
      · exact .inl h
      · exact .inr (Option.some_inj.mp hct).symm

theorem Holds.of_espFreeEntry (h : Holds (espFreeEntry table i) c) : Holds table c := by
  obtain ⟨e, he, hct⟩ := h
  obtain ⟨j, hj⟩ := List.getElem?_of_mem he
  rw [espFreeEntry, List.getElem?_modify] at hj
  obtain ⟨a, ha, heq⟩ := Option.map_eq_some_iff.mp hj
  refine ⟨a, List.mem_of_getElem? ha, ?_⟩
  split_ifs at heq
  · rw [← heq] at hct
    cases hct
  · rw [heq, hct]
  · rw [heq, hct]

theorem Holds.of_espRefreshCt {data : Nat} (h : Holds (espRefreshCt table data).2 c) : Holds table c := by
  rw [espRefreshCt] at h
  split_ifs at h with hmax
  · exact h
  · cases he : table[data]? with
    | none =>
        rw [he] at h
        exact h
    | some e =>
        rw [he] at h
        have hmem := List.mem_of_getElem? he
        dsimp only at h
        split_ifs at h with hrcvd hlast
        · exact h.of_set_same ⟨e, hmem, rfl⟩
        · exact h.of_espFreeEntry.of_set_same ⟨e, hmem, rfl⟩
        · exact h.of_set_same ⟨e, hmem, rfl⟩

theorem refreshed_eq {data : Nat} {ct : Option Nat} (h : (espRefreshCt table data).1 = some ct) :
    ∃ e ∈ table[data]?, e.ct = ct := by
  rw [espRefreshCt] at h
  split_ifs at h with hmax
  cases he : table[data]? with
  | none =>
      rw [he] at h
      cases h
  | some e =>
      rw [he] at h
      refine ⟨e, rfl, ?_⟩
      dsimp only at h
      split_ifs at h with hrcvd hlast <;> cases h <;> rfl

theorem Inv.step {s : Sys} {ev : Event} (h : Inv s) (hE : Enabled s ev) (hB : Bound s ev) : Inv (step s ev) := by
  intro c hc
  cases ev with
  | create => exact Finset.mem_insert_of_mem (h c hc)
  | destroy d =>
      refine Finset.mem_erase.mpr ⟨?_, h c hc⟩
      rintro rfl
      obtain ⟨e, he, hct⟩ := hc
      exact hB e he hct
  | pktToTuple esph saddr daddr => exact h c (Holds.of_espPktToTuple hc)
  | new d spi saddr daddr =>
      rcases Holds.of_espNew hc with hc | rfl
      · exact h c hc
      · exact hE
  | packet d spi saddr daddr info => exact h c (Holds.of_espPacket hc)
  | timer data => exact h c (Holds.of_espRefreshCt hc)

theorem Inv.refreshes {s : Sys} {ev : Event} (h : Inv s) (hB : Bound s ev) : Refreshes s ev := by
  cases ev with
  | timer data =>
      intro ct hct
      obtain ⟨e, he, rfl⟩ := refreshed_eq hct
      obtain ⟨c, hc⟩ := Option.ne_none_iff_exists'.mp (hB e he)
      exact ⟨c, h c ⟨e, List.mem_of_getElem? he, hc⟩, hc⟩
  | create | destroy | pktToTuple | new | packet => trivial

end Step

theorem start_inv : Inv start := by
  rintro c ⟨e, he, hct⟩
  rw [List.eq_of_mem_replicate he] at hct
  cases hct

/-- The refresh timer touches only live connections in the runs that destroy no
connection an entry refers to and let no timer expire before `esp_new`. -/
theorem timer_refreshes_live (events : List Event) (hE : Along step Enabled start events)
    (hB : Along step Bound start events) : Along step Refreshes start events :=
  Along.of_invariant (fun _ _ h _ hB => h.refreshes hB) (fun _ _ h hE hB => h.step hE hB) start_inv hE hB

def demoEvents : List Event :=
  [.create, .pktToTuple (some 7) 1 2, .new 0 7 1 2, .packet 0 7 1 2 .new, .timer 0, .create, .destroy 1, .timer 0]

instance (s : Sys) : (ev : Event) → Decidable (Enabled s ev)
  | .create | .pktToTuple _ _ _ => inferInstanceAs (Decidable True)
  | .destroy c | .new c _ _ _ | .packet c _ _ _ _ => inferInstanceAs (Decidable (c ∈ s.live))
  | .timer data => inferInstanceAs (Decidable (∃ e ∈ s.table[data]?, e.timerActive))

instance (s : Sys) : (ev : Event) → Decidable (Bound s ev)
  | .destroy c => inferInstanceAs (Decidable (∀ e ∈ s.table, e.ct ≠ some c))
  | .timer data => inferInstanceAs (Decidable (∀ e ∈ s.table[data]?, e.ct ≠ none))
  | .create | .pktToTuple _ _ _ | .new _ _ _ _ | .packet _ _ _ _ _ => inferInstanceAs (Decidable True)

theorem timer_refreshes_live_demo : Along step Refreshes start demoEvents :=
  timer_refreshes_live demoEvents (by decide) (by decide)

theorem timer_refreshes_null :
    Along step Enabled start [.pktToTuple (some 7) 1 2, .timer 0] ∧
      ¬ Along step Refreshes start [.pktToTuple (some 7) 1 2, .timer 0] := by
  refine ⟨by decide, fun h => ?_⟩
  obtain ⟨c, hc, -⟩ := h.2.1 none (by decide)
  cases hc

end AliceModem.EspTimer
