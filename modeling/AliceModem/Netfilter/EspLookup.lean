import AliceModem.Lib.Transition
import AliceModem.Netfilter.Esp

namespace AliceModem.EspLookup

open Esp Transition

structure Packet where
  spi : UInt32
  saddr : UInt32
  daddr : UInt32

inductive Call
  | new (conntrack : Nat)
  | packet (info : ConntrackInfo)

def Call.looksUp : Call → Prop
  | .new _ => True
  | .packet info => info = .new

variable (p : Packet)

def lookup (table : EspTable) : Option Nat := (entryOf table p.spi p.saddr p.daddr id).map Prod.fst

def tupled (table : EspTable) : EspTable := (espPktToTuple table (some p.spi) p.saddr p.daddr).2

def run (table : EspTable) : Call → EspTable
  | .new conntrack => (espNew table conntrack p.spi p.saddr p.daddr).2
  | .packet info => (espPacket table p.spi p.saddr p.daddr info).2

def NewlyUsed (table table' : EspTable) (k : Nat) : Prop :=
  (∃ e ∈ table[k]?, e.inuse = false) ∧ ∃ e ∈ table'[k]?, e.inuse = true

/-- All lookups for the packet select the entry that the first one selects, at most one entry is allocated, and the
other entries stay as they are. -/
structure OneEntry (table : EspTable) (calls : List Call) : Prop where
  same : Along (run p) (fun t c => c.looksUp → lookup p t = lookup p table) (tupled p table) calls
  allocated : ∀ k k', NewlyUsed table (calls.foldl (run p) (tupled p table)) k →
    NewlyUsed table (calls.foldl (run p) (tupled p table)) k' → k = k'
  others : ∀ k, lookup p table ≠ some k → (calls.foldl (run p) (tupled p table))[k]? = table[k]?

def Unmarked (table : EspTable) : Prop :=
  p.spi = 0 ∧ searchEspEntryBySpi table p.spi p.daddr = none ∧
    ∃ pre e post, table = pre ++ e :: post ∧ (∀ a ∈ pre, a.inuse = true) ∧ e.inuse = false ∧ e.rSpi = 0

section Visit

variable {p} {e e' : EspEntry}

theorem visit_isSome_iff : (visit p.spi p.daddr e).isSome = true ↔
    e.inuse = true ∧ (e.lSpi ≠ 0 ∨ e.rSpi ≠ 0) ∧ (e.lSpi ≠ 0 → e.rSpi ≠ 0 → e.lSpi = p.spi ∨ e.rSpi = p.spi) := by
  rw [visit]
  split_ifs <;> simp_all

theorem visit_again (h : visit p.spi p.daddr e = some e') : (visit p.spi p.daddr e').isSome = true := by
  have hsome := visit_isSome_iff.mp (Option.isSome_of_eq_some h)
  have hcases : e' = e ∨ e.lSpi ≠ 0 ∧ e' = { e with rSpi := p.spi, rIp := p.daddr } ∨
      e.rSpi ≠ 0 ∧ e' = { e with lSpi := p.spi } := by
    rw [visit] at h
    split_ifs at h with hfree hboth hmine hl hsame hr hsame' <;> cases h
    · exact .inl rfl
    · exact .inl rfl
    · exact .inr (.inl ⟨hl, rfl⟩)
    · exact .inl rfl
    · exact .inr (.inr ⟨hr, rfl⟩)
  rw [visit_isSome_iff]
  rcases hcases with rfl | ⟨hl, rfl⟩ | ⟨hr, rfl⟩
  · exact hsome
  · exact ⟨hsome.1, .inl hl, fun _ _ => .inr rfl⟩
  · exact ⟨hsome.1, .inr hr, fun _ _ => .inl rfl⟩

end Visit

/-- The lookups for the packet select the entry `i`. -/
def Found (table : EspTable) (i : Nat) : Prop :=
  ∃ pre e post, table = pre ++ e :: post ∧ pre.length = i ∧ (∀ a ∈ pre, visit p.spi p.daddr a = none) ∧
    (visit p.spi p.daddr e).isSome = true

section Found

variable {p} {table : EspTable} {i : Nat}

theorem Found.entryOf (h : Found p table i) (init : EspEntry → EspEntry) :
    ∃ e', entryOf table p.spi p.saddr p.daddr init = some (i, e') ∧ (visit p.spi p.daddr e').isSome = true := by
  obtain ⟨pre, e, post, rfl, rfl, hpre, he⟩ := h
  obtain ⟨e', he'⟩ := Option.isSome_iff_exists.mp he
  refine ⟨e', ?_, visit_again he'⟩
  rw [Esp.entryOf, searchEspEntryBySpi, firstSome_append_cons hpre he']

theorem Found.lookup (h : Found p table i) : lookup p table = some i := by
  obtain ⟨e', he, -⟩ := h.entryOf id
  rw [EspLookup.lookup, he]
  rfl

theorem Found.set (h : Found p table i) {e : EspEntry} (he : (visit p.spi p.daddr e).isSome = true) :
    Found p (table.set i e) i := by
  obtain ⟨pre, a, post, rfl, rfl, hpre, -⟩ := h
  exact ⟨pre, e, post, by simp, rfl, hpre, he⟩

theorem visit_count {e : EspEntry} (he : (visit p.spi p.daddr e).isSome = true) (ct : Option Nat) :
    (visit p.spi p.daddr e.count).isSome = true ∧ (visit p.spi p.daddr { e.count with ct := ct }).isSome = true := by
  rw [visit_isSome_iff] at he ⊢
  rw [visit_isSome_iff]
  exact ⟨he, he⟩

theorem Found.run (h : Found p table i) (c : Call) :
    Found p (run p table c) i ∧ ∀ k, k ≠ i → (EspLookup.run p table c)[k]? = table[k]? := by
  have hset (e : EspEntry) (he : (visit p.spi p.daddr e).isSome = true) :
      Found p (table.set i e) i ∧ ∀ k, k ≠ i → (table.set i e)[k]? = table[k]? :=
    ⟨h.set he, fun k hk => List.getElem?_set_ne hk.symm⟩
  obtain ⟨e, hentry, he⟩ := h.entryOf fun e => { e with rSpi := 0 }
  cases c with
  | new conntrack =>
      rw [EspLookup.run, espNew, hentry]
      exact hset _ (visit_count he _).2
  | packet info =>
      rw [EspLookup.run, espPacket]
      split_ifs
      · rw [hentry]
        exact hset _ (visit_count he none).1
      · exact ⟨h, fun _ _ => rfl⟩

theorem Found.calls (h : Found p table i) (calls : List Call) :
    Along (EspLookup.run p) (fun t c => c.looksUp → EspLookup.lookup p t = some i) table calls ∧
      ∀ k, k ≠ i → (calls.foldl (EspLookup.run p) table)[k]? = table[k]? := by
  induction calls generalizing table with
  | nil => exact ⟨trivial, fun _ _ => rfl⟩
  | cons c calls ih =>
      obtain ⟨hfound, hframe⟩ := h.run c
      obtain ⟨halong, hrest⟩ := ih hfound
      exact ⟨⟨fun _ => h.lookup, halong⟩, fun k hk => (hrest k hk).trans (hframe k hk)⟩

end Found

section Idle

variable {p} {table : EspTable}

theorem run_idle {c : Call} (h : ¬ c.looksUp) : run p table c = table := by
  cases c with
  | new conntrack => exact absurd trivial h
  | packet info =>
      have hinfo : info ≠ .new := h
      rw [run, espPacket, if_neg hinfo]

theorem first_lookup {calls : List Call} {i : Option Nat} (h : ∃ c ∈ calls, c.looksUp)
    (ha : Along (run p) (fun t c => c.looksUp → lookup p t = i) table calls) : lookup p table = i := by
  induction calls with
  | nil => simp at h
  | cons c calls ih =>
      by_cases hc : c.looksUp
      · exact ha.1 hc
      · have hrest := ha.2
        rw [run_idle hc] at hrest
        refine ih ?_ hrest
        obtain ⟨d, hd, hlooks⟩ := h
        rcases List.mem_cons.mp hd with rfl | hd
        · exact absurd hlooks hc
        · exact ⟨d, hd, hlooks⟩

theorem calls_idle (calls : List Call) (h : ∀ c ∈ calls, ¬ c.looksUp) (i : Option Nat) :
    Along (run p) (fun t c => c.looksUp → lookup p t = i) table calls ∧ calls.foldl (run p) table = table := by
  induction calls with
  | nil => exact ⟨trivial, rfl⟩
  | cons c calls ih =>
      obtain ⟨hc, hcalls⟩ := List.forall_mem_cons.mp h
      rw [Along, List.foldl_cons, run_idle hc]
      obtain ⟨halong, hfold⟩ := ih hcalls
      exact ⟨⟨fun hlooks => absurd hlooks hc, halong⟩, hfold⟩

theorem calls_full (calls : List Call) (h : ∀ init, entryOf table p.spi p.saddr p.daddr init = none) :
    Along (run p) (fun t c => c.looksUp → lookup p t = none) table calls ∧ calls.foldl (run p) table = table := by
  have hrun (c : Call) : run p table c = table := by
    cases c with
    | new conntrack => rw [run, espNew, h]
    | packet info =>
        rw [run, espPacket, h]
        split_ifs <;> rfl
  induction calls with
  | nil => exact ⟨trivial, rfl⟩
  | cons c calls ih =>
      rw [Along, List.foldl_cons, hrun c]
      exact ⟨⟨fun _ => by rw [lookup, h]; rfl, ih.1⟩, ih.2⟩

end Idle

section OneEntry

variable {p} {table : EspTable} {calls : List Call}

theorem OneEntry.of_frame {i : Option Nat} (hi : lookup p table = i)
    (hsame : Along (run p) (fun t c => c.looksUp → lookup p t = i) (tupled p table) calls)
    (hframe : ∀ k, i ≠ some k → (calls.foldl (run p) (tupled p table))[k]? = table[k]?) : OneEntry p table calls := by
  subst hi
  have hnew (k : Nat) (hk : NewlyUsed table (calls.foldl (run p) (tupled p table)) k) : lookup p table = some k := by
    by_contra hne
    obtain ⟨⟨e, he, hfree⟩, a, ha, hused⟩ := hk
    rw [hframe k hne, he] at ha
    cases ha
    rw [hfree] at hused
    cases hused
  exact ⟨hsame, fun k k' hk hk' => Option.some.inj ((hnew k hk).symm.trans (hnew k' hk')), hframe⟩

theorem OneEntry.of_found {i : Nat} {e : EspEntry} (hentry : entryOf table p.spi p.saddr p.daddr id = some (i, e))
    (h : Found p (tupled p table) i) : OneEntry p table calls := by
  have htupled : tupled p table = table.set i e.count := by rw [tupled, espPktToTuple, hentry]
  obtain ⟨hsame, hframe⟩ := h.calls calls
  refine .of_frame (by rw [lookup, hentry]; rfl) hsame fun k hk => ?_
  have hne : k ≠ i := fun he => hk (congrArg some he.symm)
  rw [hframe k hne, htupled, List.getElem?_set_ne hne.symm]

variable (p) in
/-- The free entry `e` of index `i` as the first lookup for the packet leaves it. -/
def taken (e : EspEntry) (i : Nat) : EspEntry :=
  { e with
    tspi := .ofNat (tempSpiStart + i), inuse := true, pktRcvd := 0, timerActive := true, lSpi := p.spi
    lIp := p.saddr }

theorem taken_visit_iff (e : EspEntry) (i : Nat) :
    (visit p.spi p.daddr (taken p e i).count).isSome = true ↔ p.spi ≠ 0 ∨ e.rSpi ≠ 0 := by
  rw [visit_isSome_iff]
  simp [taken, EspEntry.count]

variable {pre post : EspTable} {e : EspEntry}

theorem entryOf_fresh (hsearch : searchEspEntryBySpi (pre ++ e :: post) p.spi p.daddr = none)
    (hpre : ∀ a ∈ pre, a.inuse = true) (he : e.inuse = false) :
    entryOf (pre ++ e :: post) p.spi p.saddr p.daddr id = some (pre.length, taken p e pre.length) := by
  rw [Esp.entryOf, hsearch, allocEspEntry, firstFree_append_cons hpre he]
  rfl

theorem lookup_unmarked (hspi : p.spi = 0) (hsearch : searchEspEntryBySpi (pre ++ e :: post) p.spi p.daddr = none)
    (hr : e.rSpi = 0) : lookup p (pre ++ (taken p e pre.length).count :: post) ≠ some pre.length := by
  have hnone := firstSome_none hsearch
  have htaken : visit p.spi p.daddr (taken p e pre.length).count = none := by
    rw [← Option.not_isSome_iff_eq_none, taken_visit_iff]
    simp [hspi, hr]
  have hagain : searchEspEntryBySpi (pre ++ (taken p e pre.length).count :: post) p.spi p.daddr = none := by
    apply firstSome_eq_none
    intro a ha
    rw [List.mem_append, List.mem_cons] at ha
    rcases ha with ha | rfl | ha
    · exact hnone a (by simp [ha])
    · exact htaken
    · exact hnone a (by simp [ha])
  intro hlookup
  obtain ⟨r, hr, hindex⟩ := Option.map_eq_some_iff.mp hlookup
  rw [Esp.entryOf, hagain] at hr
  obtain ⟨q, hq, rfl⟩ := Option.map_eq_some_iff.mp hr
  obtain ⟨⟨j, a⟩, hj, rfl⟩ := Option.map_eq_some_iff.mp hq
  obtain ⟨pre', post', hsplit, hlength, -, hfree⟩ := firstFree_split hj
  obtain rfl : j = pre.length := hindex
  have hb : (taken p e pre.length).count = a := by
    have hat := congrArg (fun t : EspTable => t[pre.length]?) hsplit
    simpa [← hlength] using hat
  rw [← hb] at hfree
  cases hfree

theorem OneEntry.of_search {i : Nat} {e' : EspEntry} (hsearch : searchEspEntryBySpi table p.spi p.daddr = some (i, e')) :
    OneEntry p table calls := by
  obtain ⟨pre, e, post, rfl, hlength, hpre, he⟩ := firstSome_split hsearch
  have hfound : Found p (pre ++ e :: post) i := ⟨pre, e, post, rfl, hlength, hpre, Option.isSome_of_eq_some he⟩
  obtain ⟨a, hentry, ha⟩ := hfound.entryOf id
  refine .of_found hentry ?_
  rw [tupled, espPktToTuple, hentry]
  exact hfound.set (visit_count ha none).1

theorem OneEntry.of_full (hsearch : searchEspEntryBySpi table p.spi p.daddr = none)
    (halloc : firstSome (fun e => if e.inuse then none else some e) table = none) : OneEntry p table calls := by
  have hfull (init : EspEntry → EspEntry) : entryOf table p.spi p.saddr p.daddr init = none := by
    rw [Esp.entryOf, hsearch, allocEspEntry, halloc]
    rfl
  have htupled : tupled p table = table := by rw [tupled, espPktToTuple, hfull]
  obtain ⟨hsame, hfold⟩ := calls_full calls hfull
  refine .of_frame (i := none) (by rw [lookup, hfull]; rfl) (by rw [htupled]; exact hsame) fun k _ => ?_
  rw [htupled, hfold]

theorem oneEntry_fresh_iff (hsearch : searchEspEntryBySpi (pre ++ e :: post) p.spi p.daddr = none)
    (hpre : ∀ a ∈ pre, a.inuse = true) (he : e.inuse = false) :
    OneEntry p (pre ++ e :: post) calls ↔ ¬ ((p.spi = 0 ∧ e.rSpi = 0) ∧ ∃ c ∈ calls, c.looksUp) := by
  have hentry := entryOf_fresh hsearch hpre he
  have hlookup : lookup p (pre ++ e :: post) = some pre.length := by
    rw [lookup, hentry]
    rfl
  have htupled : tupled p (pre ++ e :: post) = pre ++ (taken p e pre.length).count :: post := by
    rw [tupled, espPktToTuple, hentry]
    simp
  by_cases hmarked : p.spi ≠ 0 ∨ e.rSpi ≠ 0
  · refine iff_of_true (.of_found hentry ?_) fun h => ?_
    · rw [htupled]
      refine ⟨pre, _, post, rfl, rfl, fun a ha => ?_, (taken_visit_iff e _).mpr hmarked⟩
      exact firstSome_none hsearch a (List.mem_append_left _ ha)
    · rcases hmarked with hspi | hr
      · exact hspi h.1.1
      · exact hr h.1.2
  · rw [not_or, not_not, not_not] at hmarked
    obtain ⟨hspi, hr⟩ := hmarked
    by_cases hcalls : ∃ c ∈ calls, c.looksUp
    · refine iff_of_false (fun h => ?_) fun h => h ⟨⟨hspi, hr⟩, hcalls⟩
      have hagain := first_lookup hcalls h.same
      rw [htupled, hlookup] at hagain
      exact lookup_unmarked hspi hsearch hr hagain
    · refine iff_of_true ?_ fun h => hcalls h.2
      obtain ⟨hsame, hfold⟩ := calls_idle calls (fun c hc hlooks => hcalls ⟨c, hc, hlooks⟩) (some pre.length)
      refine .of_frame hlookup hsame fun k hk => ?_
      have hne : pre.length ≠ k := fun heq => hk (congrArg some heq)
      rw [hfold, tupled, espPktToTuple, hentry]
      exact List.getElem?_set_ne hne

theorem unmarked_fresh_iff (hsearch : searchEspEntryBySpi (pre ++ e :: post) p.spi p.daddr = none)
    (hpre : ∀ a ∈ pre, a.inuse = true) (he : e.inuse = false) :
    Unmarked p (pre ++ e :: post) ↔ p.spi = 0 ∧ e.rSpi = 0 := by
  constructor
  · rintro ⟨hspi, -, pre', e', post', hsplit, hpre', he', hr⟩
    have hfirst : firstSome (fun e => if e.inuse then none else some e) (pre ++ e :: post) = some (pre.length, e) :=
      firstFree_append_cons hpre he
    rw [hsplit, firstFree_append_cons hpre' he'] at hfirst
    obtain ⟨-, rfl⟩ := Prod.mk.inj (Option.some.inj hfirst)
    exact ⟨hspi, hr⟩
  · rintro ⟨hspi, hr⟩
    exact ⟨hspi, hsearch, pre, e, post, rfl, hpre, he, hr⟩

/-- The lookups for a packet agree unless it takes a fresh entry with the SPI 0. -/
theorem one_entry_iff (p : Packet) (table : EspTable) (calls : List Call) :
    OneEntry p table calls ↔ ¬ (Unmarked p table ∧ ∃ c ∈ calls, c.looksUp) := by
  rcases hsearch : searchEspEntryBySpi table p.spi p.daddr with _ | ⟨i, e'⟩
  · rcases halloc : firstSome (fun e => if e.inuse then none else some e) table with _ | ⟨i, e'⟩
    · refine iff_of_true (.of_full hsearch halloc) ?_
      rintro ⟨⟨-, -, pre, e, post, rfl, hpre, he, -⟩, -⟩
      rw [firstFree_append_cons hpre he] at halloc
      cases halloc
    · obtain ⟨pre, post, rfl, -, hused, hfree⟩ := firstFree_split halloc
      rw [oneEntry_fresh_iff hsearch hused hfree, unmarked_fresh_iff hsearch hused hfree]
  · refine iff_of_true (.of_search hsearch) fun h => ?_
    have hnone := h.1.2.1
    rw [hsearch] at hnone
    cases hnone

end OneEntry

theorem zero_spi_allocates :
    ¬ OneEntry ⟨0, 1, 2⟩ espTable [.new 0, .packet .new] ∧
      lookup ⟨0, 1, 2⟩ espTable = some 0 ∧ lookup ⟨0, 1, 2⟩ (tupled ⟨0, 1, 2⟩ espTable) = some 1 ∧
      lookup ⟨0, 1, 2⟩ (run ⟨0, 1, 2⟩ (tupled ⟨0, 1, 2⟩ espTable) (.new 0)) = some 2 := by
  have hfirst : lookup ⟨0, 1, 2⟩ espTable = some 0 := by decide
  have hsecond : lookup ⟨0, 1, 2⟩ (tupled ⟨0, 1, 2⟩ espTable) = some 1 := by decide
  refine ⟨fun h => ?_, hfirst, hsecond, by decide⟩
  have hsame := h.same.1 trivial
  rw [hfirst, hsecond] at hsame
  cases hsame

end AliceModem.EspLookup
