import Mathlib.Data.Fintype.Card
import AliceModem.Lib.Transition
import AliceModem.Netfilter.Esp

namespace AliceModem.EspTunnels

open Esp Transition Words

structure Tunnels (n : Nat) where
  spi : Fin n → Bool → UInt32
  nonzero : ∀ t d, spi t d ≠ 0
  distinct : ∀ t d t' d', spi t d = spi t' d' → t = t' ∧ d = d'
  atMost : n ≤ maxPorts

structure Packet (n : Nat) where
  tunnel : Fin n
  outbound : Bool
  saddr : UInt32
  daddr : UInt32
deriving DecidableEq

structure State (n : Nat) where
  table : EspTable
  log : List (Packet n × Option UInt16)

variable {n : Nat} (T : Tunnels n)

def start (n : Nat) : State n := ⟨espTable, []⟩

def step (s : State n) (p : Packet n) : State n :=
  let r := espPktToTuple s.table (some (T.spi p.tunnel p.outbound)) p.saddr p.daddr
  ⟨r.2, (p, r.1) :: s.log⟩

/-- All packets have got a temporary SPI, the same one if and only if they are of
the same tunnel. -/
def Apart (s : State n) : Prop :=
  ∀ p ∈ s.log, ∀ q ∈ s.log, p.2.isSome ∧ (p.2 = q.2 ↔ p.1.tunnel = q.1.tunnel)

/-- The first packet of a tunnel comes only after traffic both ways has been seen
for all entries in use. -/
def Orderly (s : State n) (p : Packet n) : Prop :=
  (∀ e ∈ s.table, e.inuse → ∀ d, e.lSpi ≠ T.spi p.tunnel d ∧ e.rSpi ≠ T.spi p.tunnel d) →
    ∀ e ∈ s.table, e.inuse → e.lSpi ≠ 0 ∧ e.rSpi ≠ 0

def Entry (t : Fin n) (e : EspEntry) : Prop :=
  e.inuse = true ∧ ∃ d, e.lSpi = T.spi t d ∧ (e.rSpi = 0 ∨ e.rSpi = T.spi t !d)

structure Rows (s : State n) (rows : List (Fin n × EspEntry)) : Prop where
  table : s.table = rows.map Prod.snd ++ List.replicate (maxPorts - rows.length) .zero
  nodup : (rows.map Prod.fst).Nodup
  entry : ∀ r ∈ rows, Entry T r.1 r.2
  tspi : rows.map (fun r => r.2.tspi) = (List.range rows.length).map fun k => .ofNat (tempSpiStart + k)
  closed : ∀ r ∈ rows.dropLast, r.2.rSpi ≠ 0
  log : ∀ p ∈ s.log, ∃ r ∈ rows, p.1.tunnel = r.1 ∧ p.2 = some r.2.tspi
  logged : ∀ r ∈ rows, ∃ p ∈ s.log, p.1.tunnel = r.1

def Inv (s : State n) : Prop := ∃ rows, Rows T s rows

section Visit

variable {T} {t t' : Fin n} {e : EspEntry}

theorem Entry.lSpi_ne_zero (h : Entry T t e) : e.lSpi ≠ 0 := by
  obtain ⟨-, d, hl, -⟩ := h
  rw [hl]
  exact T.nonzero t d

theorem Entry.ne_spi (h : Entry T t e) (hne : t ≠ t') (d : Bool) : e.lSpi ≠ T.spi t' d ∧ e.rSpi ≠ T.spi t' d := by
  obtain ⟨-, c, hl, hr⟩ := h
  refine ⟨fun heq => hne (T.distinct t c t' d (hl.symm.trans heq)).1, fun heq => ?_⟩
  rcases hr with hr | hr
  · exact T.nonzero t' d (heq.symm.trans hr)
  · exact hne (T.distinct t (!c) t' d (hr.symm.trans heq)).1

theorem visit_closed (h : Entry T t e) (hr : e.rSpi ≠ 0) (hne : t ≠ t') (d : Bool) (daddr : UInt32) :
    visit (T.spi t' d) daddr e = none := by
  have hno := h.ne_spi hne d
  rw [visit, if_neg (by simp [h.1]), if_pos ⟨h.lSpi_ne_zero, hr⟩, if_neg (by simp [hno])]

theorem visit_halfOpen (h : Entry T t e) (hr : e.rSpi = 0) (hne : t ≠ t') (d : Bool) (daddr : UInt32) :
    visit (T.spi t' d) daddr e = some { e with rSpi := T.spi t' d, rIp := daddr } := by
  have hno := h.ne_spi hne d
  rw [visit, if_neg (by simp [h.1]), if_neg (by simp [hr]), if_pos h.lSpi_ne_zero, if_neg hno.1.symm]

theorem visit_own (h : Entry T t e) (d : Bool) (daddr : UInt32) :
    ∃ e', visit (T.spi t d) daddr e = some e' ∧ Entry T t e' ∧ e'.tspi = e.tspi ∧ (e.rSpi ≠ 0 → e'.rSpi ≠ 0) := by
  have hl0 := h.lSpi_ne_zero
  obtain ⟨hin, c, hl, hr⟩ := h
  have hdir : T.spi t d = e.lSpi ∨ T.spi t d = T.spi t !c := by
    rw [hl]
    cases d <;> cases c <;> simp
  by_cases hr0 : e.rSpi = 0
  · rw [visit, if_neg (by simp [hin]), if_neg (by simp [hr0]), if_pos hl0]
    by_cases hd : T.spi t d = e.lSpi
    · rw [if_pos hd]
      exact ⟨e, rfl, ⟨hin, c, hl, hr⟩, rfl, id⟩
    · rw [if_neg hd]
      exact ⟨_, rfl, ⟨hin, c, hl, .inr (hdir.resolve_left hd)⟩, rfl, fun h => absurd hr0 h⟩
  · have hmine : e.lSpi = T.spi t d ∨ e.rSpi = T.spi t d := by
      rcases hdir with hd | hd
      · exact .inl hd.symm
      · exact .inr ((hr.resolve_left hr0).trans hd.symm)
    rw [visit, if_neg (by simp [hin]), if_pos ⟨hl0, hr0⟩, if_pos hmine]
    exact ⟨e, rfl, ⟨hin, c, hl, hr⟩, rfl, id⟩

end Visit

section Step

variable {T} {s : State n} {rows pre post : List (Fin n × EspEntry)} {t : Fin n} {e e' : EspEntry} {p : Packet n}

theorem Rows.length_le (h : Rows T s rows) : rows.length ≤ n := by
  have hcard := h.nodup.length_le_card
  rwa [List.length_map, Fintype.card_fin] at hcard

theorem Rows.tspi_nodup (h : Rows T s rows) : (rows.map fun r => r.2.tspi).Nodup := by
  rw [h.tspi]
  refine List.nodup_range.map_on fun i hi j hj heq => ?_
  have hbound := h.length_le.trans T.atMost
  rw [List.mem_range] at hi hj
  have hnat := congrArg UInt16.toNat heq
  simp only [UInt16.toNat_ofNat', tempSpiStart, maxPorts] at hnat hbound
  omega

theorem Rows.apart (h : Rows T s rows) : Apart s := by
  intro p hp q hq
  obtain ⟨r, hr, hrt, hrs⟩ := h.log p hp
  obtain ⟨r', hr', hrt', hrs'⟩ := h.log q hq
  rw [hrt, hrt', hrs, hrs', Option.some_inj]
  refine ⟨rfl, fun heq => ?_, fun heq => ?_⟩
  · rw [List.inj_on_of_nodup_map h.tspi_nodup hr hr' heq]
  · rw [List.inj_on_of_nodup_map h.nodup hr hr' heq]

theorem Rows.closed_pre (h : Rows T s (pre ++ (t, e) :: post)) : ∀ r ∈ pre, r.2.rSpi ≠ 0 := by
  intro r hr
  refine h.closed r ?_
  rw [List.dropLast_append_cons]
  exact List.mem_append_left _ hr

theorem Rows.step_eq (h : Rows T s (pre ++ (t, e) :: post)) (hpre : p.tunnel ∉ pre.map Prod.fst)
    (hv : visit (T.spi p.tunnel p.outbound) p.daddr e = some e') :
    step T s p = ⟨(pre ++ (t, e'.count) :: post).map Prod.snd ++
      List.replicate (maxPorts - (pre ++ (t, e) :: post).length) .zero, (p, some e'.tspi) :: s.log⟩ := by
  have hskip : ∀ a ∈ pre.map Prod.snd, visit (T.spi p.tunnel p.outbound) p.daddr a = none := by
    intro a ha
    obtain ⟨r, hr, rfl⟩ := List.mem_map.mp ha
    refine visit_closed (h.entry r (List.mem_append_left _ hr)) (h.closed_pre r hr) (fun heq => hpre ?_) _ _
    exact List.mem_map.mpr ⟨r, hr, heq⟩
  rw [step, h.table]
  simp only [espPktToTuple, entryOf, searchEspEntryBySpi, List.map_append, List.map_cons, List.append_assoc,
    List.cons_append, firstSome_append_cons hskip hv]
  simp

theorem Rows.known (h : Rows T s (pre ++ (p.tunnel, e) :: post)) : Inv T (step T s p) := by
  obtain ⟨e', hv, hentry, htspi, hclosed⟩ := visit_own (h.entry (p.tunnel, e) (by simp)) p.outbound p.daddr
  have hfst : p.tunnel ∉ pre.map Prod.fst := by
    have hnodup := h.nodup
    rw [List.map_append, List.map_cons, List.nodup_append] at hnodup
    exact fun hmem => hnodup.2.2 _ hmem _ List.mem_cons_self rfl
  rw [h.step_eq hfst hv]
  refine ⟨pre ++ (p.tunnel, e'.count) :: post, ?_, ?_, ?_, ?_, ?_, ?_, ?_⟩
  · rw [List.length_append, List.length_append, List.length_cons, List.length_cons]
  · simpa using h.nodup
  · intro r hr
    rcases List.mem_append.mp hr with hr | hr
    · exact h.entry r (List.mem_append_left _ hr)
    · rcases List.mem_cons.mp hr with rfl | hr
      · exact hentry
      · exact h.entry r (List.mem_append_right _ (List.mem_cons_of_mem _ hr))
  · have := h.tspi
    simp only [List.map_append, List.map_cons, List.length_append, List.length_cons] at this ⊢
    rw [← this, ← htspi]
    rfl
  · intro r hr
    rw [List.dropLast_append_cons] at hr
    rcases List.mem_append.mp hr with hr | hr
    · exact h.closed_pre r hr
    · cases post with
      | nil => cases hr
      | cons a as =>
          have hlast := fun r (hr : r ∈ ((p.tunnel, e) :: a :: as).dropLast) =>
            h.closed r (by rw [List.dropLast_append_cons]; exact List.mem_append_right _ hr)
          rw [List.dropLast_cons_cons] at hr hlast
          rcases List.mem_cons.mp hr with rfl | hr
          · exact hclosed (hlast _ List.mem_cons_self)
          · exact hlast r (List.mem_cons_of_mem _ hr)
  · intro q hq
    rcases List.mem_cons.mp hq with rfl | hq
    · exact ⟨(p.tunnel, e'.count), by simp, rfl, rfl⟩
    · obtain ⟨r, hr, hrt, hrs⟩ := h.log q hq
      rcases List.mem_append.mp hr with hr | hr
      · exact ⟨r, List.mem_append_left _ hr, hrt, hrs⟩
      · rcases List.mem_cons.mp hr with rfl | hr
        · exact ⟨(p.tunnel, e'.count), by simp, hrt, by rw [hrs, ← htspi]; rfl⟩
        · exact ⟨r, List.mem_append_right _ (List.mem_cons_of_mem _ hr), hrt, hrs⟩
  · intro r hr
    rcases List.mem_append.mp hr with hr | hr
    · obtain ⟨q, hq, hqt⟩ := h.logged r (List.mem_append_left _ hr)
      exact ⟨q, List.mem_cons_of_mem _ hq, hqt⟩
    · rcases List.mem_cons.mp hr with rfl | hr
      · exact ⟨(p, some e'.tspi), List.mem_cons_self, rfl⟩
      · obtain ⟨q, hq, hqt⟩ := h.logged r (List.mem_append_right _ (List.mem_cons_of_mem _ hr))
        exact ⟨q, List.mem_cons_of_mem _ hq, hqt⟩

/-- The entry a tunnel gets with its first packet, after `k` other tunnels. -/
def firstEntry (T : Tunnels n) (k : Nat) (p : Packet n) : EspEntry :=
  { tspi := .ofNat (tempSpiStart + k), inuse := true, timerActive := true, pktRcvd := 1
    lSpi := T.spi p.tunnel p.outbound, lIp := p.saddr }

theorem Rows.search_eq_none (h : Rows T s rows) (hnew : p.tunnel ∉ rows.map Prod.fst)
    (hclosed : ∀ r ∈ rows, r.2.rSpi ≠ 0) :
    searchEspEntryBySpi s.table (T.spi p.tunnel p.outbound) p.daddr = none := by
  refine firstSome_eq_none fun a ha => ?_
  rw [h.table] at ha
  rcases List.mem_append.mp ha with ha | ha
  · obtain ⟨r, hr, rfl⟩ := List.mem_map.mp ha
    refine visit_closed (h.entry r hr) (hclosed r hr) (fun heq => hnew ?_) _ _
    exact List.mem_map.mpr ⟨r, hr, heq⟩
  · rw [List.eq_of_mem_replicate ha]
    rfl

theorem Rows.step_eq_of_unknown (h : Rows T s rows) (hnew : p.tunnel ∉ rows.map Prod.fst)
    (hclosed : ∀ r ∈ rows, r.2.rSpi ≠ 0) :
    step T s p = ⟨(rows ++ [(p.tunnel, firstEntry T rows.length p)]).map Prod.snd ++
      List.replicate (maxPorts - (rows.length + 1)) .zero, (p, some (.ofNat (tempSpiStart + rows.length))) :: s.log⟩ := by
  have hlt : rows.length < maxPorts := by
    have hcard := (List.nodup_cons.mpr ⟨hnew, h.nodup⟩).length_le_card
    rw [List.length_cons, List.length_map, Fintype.card_fin] at hcard
    exact hcard.trans T.atMost
  have hrest : List.replicate (maxPorts - rows.length) EspEntry.zero =
      .zero :: List.replicate (maxPorts - (rows.length + 1)) .zero := by
    rw [← List.replicate_succ]
    congr 1
    omega
  have hused : ∀ a ∈ rows.map Prod.snd, a.inuse = true := by
    intro a ha
    obtain ⟨r, hr, rfl⟩ := List.mem_map.mp ha
    exact (h.entry r hr).1
  have halloc : allocEspEntry s.table = some (rows.length,
      { EspEntry.zero with tspi := .ofNat (tempSpiStart + rows.length), inuse := true, timerActive := true }) := by
    rw [allocEspEntry, h.table, hrest, firstFree_append_cons hused rfl, List.length_map]
    rfl
  simp only [step, espPktToTuple, entryOf, h.search_eq_none hnew hclosed, halloc, Option.map_some]
  have hlen : (rows.map Prod.snd).length = rows.length := List.length_map _
  rw [h.table, hrest, ← hlen, List.set_append_right _ _ le_rfl]
  simp [firstEntry, EspEntry.count, EspEntry.zero, int32]

theorem Rows.unknown (h : Rows T s rows) (hnew : p.tunnel ∉ rows.map Prod.fst) (hclosed : ∀ r ∈ rows, r.2.rSpi ≠ 0) :
    Inv T (step T s p) := by
  rw [h.step_eq_of_unknown hnew hclosed]
  refine ⟨rows ++ [(p.tunnel, firstEntry T rows.length p)], ?_, ?_, ?_, ?_, ?_, ?_, ?_⟩
  · rw [List.length_append, List.length_singleton]
  · rw [List.map_append, List.nodup_append]
    refine ⟨h.nodup, List.nodup_singleton _, fun a ha b hb hab => ?_⟩
    rw [List.map_singleton, List.mem_singleton] at hb
    rw [hab, hb] at ha
    exact hnew ha
  · intro r hr
    rcases List.mem_append.mp hr with hr | hr
    · exact h.entry r hr
    · rw [List.mem_singleton.mp hr]
      exact ⟨rfl, p.outbound, rfl, .inl rfl⟩
  · rw [List.map_append, List.length_append, List.length_singleton, List.range_succ, List.map_append, h.tspi]
    rfl
  · rw [List.dropLast_concat]
    exact hclosed
  · intro q hq
    rcases List.mem_cons.mp hq with rfl | hq
    · exact ⟨(p.tunnel, firstEntry T rows.length p), by simp, rfl, rfl⟩
    · obtain ⟨r, hr, hlog⟩ := h.log q hq
      exact ⟨r, List.mem_append_left _ hr, hlog⟩
  · intro r hr
    rcases List.mem_append.mp hr with hr | hr
    · obtain ⟨q, hq, hqt⟩ := h.logged r hr
      exact ⟨q, List.mem_cons_of_mem _ hq, hqt⟩
    · rw [List.mem_singleton.mp hr]
      exact ⟨_, List.mem_cons_self, rfl⟩

theorem Rows.stolen (h : Rows T s (pre ++ [(t, e)])) (hnew : p.tunnel ∉ (pre ++ [(t, e)]).map Prod.fst)
    (hopen : e.rSpi = 0) : ¬ Apart (step T s p) := by
  have hpre : p.tunnel ∉ pre.map Prod.fst := fun hmem => hnew (by simp [hmem])
  have hne : t ≠ p.tunnel := fun heq => hnew (by simp [heq])
  have hv := visit_halfOpen (h.entry (t, e) (by simp)) hopen hne p.outbound p.daddr
  rw [h.step_eq hpre hv]
  intro hapart
  obtain ⟨q, hq, hqt⟩ := h.logged (t, e) (by simp)
  obtain ⟨r, hr, hrt, hrs⟩ := h.log q hq
  have hre : r = (t, e) := List.inj_on_of_nodup_map h.nodup hr (by simp) (hrt.symm.trans hqt)
  have hsame := (hapart (p, some e.tspi) List.mem_cons_self q (List.mem_cons_of_mem _ hq)).2.mp (by rw [hrs, hre])
  exact hne (hqt.symm.trans hsame.symm)

theorem Rows.mem_of_inuse (h : Rows T s rows) {e : EspEntry} (he : e ∈ s.table) (hin : e.inuse = true) :
    ∃ t, (t, e) ∈ rows := by
  rw [h.table] at he
  rcases List.mem_append.mp he with he | he
  · obtain ⟨r, hr, rfl⟩ := List.mem_map.mp he
    exact ⟨r.1, hr⟩
  · rw [List.eq_of_mem_replicate he] at hin
    cases hin

theorem Rows.mem_table (h : Rows T s rows) {r : Fin n × EspEntry} (hr : r ∈ rows) : r.2 ∈ s.table := by
  rw [h.table]
  exact List.mem_append_left _ (List.mem_map_of_mem hr)

theorem Rows.unknown_iff (h : Rows T s rows) (t : Fin n) :
    (∀ e ∈ s.table, e.inuse → ∀ d, e.lSpi ≠ T.spi t d ∧ e.rSpi ≠ T.spi t d) ↔ t ∉ rows.map Prod.fst := by
  constructor
  · intro hall hmem
    obtain ⟨r, hr, rfl⟩ := List.mem_map.mp hmem
    obtain ⟨hin, d, hl, -⟩ := h.entry r hr
    exact (hall r.2 (h.mem_table hr) hin d).1 hl
  · intro hnew e he hin d
    obtain ⟨t', hr⟩ := h.mem_of_inuse he hin
    refine (h.entry _ hr).ne_spi (fun heq => hnew ?_) d
    exact List.mem_map.mpr ⟨_, hr, heq⟩

theorem Inv.step (h : Inv T s) (hp : Orderly T s p) : Inv T (step T s p) := by
  obtain ⟨rows, h⟩ := h
  by_cases hmem : p.tunnel ∈ rows.map Prod.fst
  · obtain ⟨⟨t, e⟩, hr, rfl⟩ := List.mem_map.mp hmem
    obtain ⟨pre, post, rfl⟩ := List.append_of_mem hr
    exact h.known
  · have hclosed := hp ((h.unknown_iff p.tunnel).mpr hmem)
    exact h.unknown hmem fun r hr => (hclosed r.2 (h.mem_table hr) (h.entry r hr).1).2

theorem Inv.orderly (h : Inv T s) (hp : Apart (EspTunnels.step T s p)) : Orderly T s p := by
  obtain ⟨rows, h⟩ := h
  intro hunknown e he hin
  obtain ⟨t, hr⟩ := h.mem_of_inuse he hin
  refine ⟨(h.entry _ hr).lSpi_ne_zero, fun hopen => ?_⟩
  have hnew := (h.unknown_iff p.tunnel).mp hunknown
  rcases List.eq_nil_or_concat rows with rfl | ⟨pre, r, rfl⟩
  · cases hr
  · rw [List.concat_eq_append] at h hr hnew
    rcases List.mem_append.mp hr with hr | hr
    · exact h.closed (t, e) (by rwa [List.dropLast_concat]) hopen
    · rw [← List.mem_singleton.mp hr] at h hnew
      exact h.stolen hnew hopen hp

end Step

theorem start_inv : Inv T (start n) :=
  ⟨[], rfl, List.nodup_nil, nofun, rfl, nofun, nofun, nofun⟩

/-- The temporary SPIs keep the tunnels apart exactly in the runs in which no
tunnel starts while the traffic of another has been seen one way only. -/
theorem tunnels_apart_iff (packets : List (Packet n)) :
    Throughout (step T) Apart (start n) packets ↔ Along (step T) (Orderly T) (start n) packets :=
  throughout_iff (E := fun _ _ => True) (fun _ ⟨_, h⟩ => h.apart) (fun _ _ h _ => h.step)
    (fun _ _ h _ => h.orderly) (start_inv T) (.of_forall (fun _ _ => trivial) _ _)

def twoTunnels : Tunnels 2 where
  spi t d := .ofNat (2 * t.val + d.toNat + 1)
  nonzero := by decide
  distinct := by decide
  atMost := by decide

theorem tunnels_share_tspi :
    ¬ Throughout (step twoTunnels) Apart (start 2) [⟨0, true, 0, 0⟩, ⟨1, true, 0, 0⟩] := by
  intro h
  have hlast := h.last
  have hsame := hlast (⟨1, true, 0, 0⟩, some 1500) (by decide) (⟨0, true, 0, 0⟩, some 1500) (by decide)
  exact absurd (hsame.2.mp rfl) (by decide)

end AliceModem.EspTunnels
