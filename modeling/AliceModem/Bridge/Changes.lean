import AliceModem.Bridge.SnoopTable

namespace AliceModem.Changes

open Snooping SnoopTable

variable {Port : Type} [DecidableEq Port]

inductive Change
  | allow (dest : Mac) (src : Ip)
  | block (dest : Mac) (src : Ip)
  | leave (dest : Mac)
  | join (dest : Mac)

def Change.dest : Change → Mac
  | .allow dest _ | .block dest _ | .leave dest | .join dest => dest

def Change.src : Change → Ip
  | .allow _ src | .block _ src => src
  | .leave _ | .join _ => 0

def Change.takes : Change → Option FiltMode
  | .allow _ _ | .leave _ => some .mcastExclude
  | .block _ _ => some .mcastInclude
  | .join _ => none

def changesOf (r : GroupRecord) : List Change :=
  if r.grecType ∈ [1, 3, 5] then
    if r.grecSrc = [] then [.leave (brcmConvIpToMac r.grecMca)]
    else r.grecSrc.map (.allow (brcmConvIpToMac r.grecMca))
  else if r.grecType ∈ [2, 4, 6] then
    if r.grecSrc = [] then [.join (brcmConvIpToMac r.grecMca)]
    else r.grecSrc.map (.block (brcmConvIpToMac r.grecMca))
  else []

section

variable (jiffies : UInt32) (prt : Option Port) (host : Mac)

def Change.apply (br : Bridge Port) : Change → Bridge Port
  | .allow dest src => includeSource jiffies prt host dest br src
  | .block dest src => excludeSource jiffies prt host dest br src
  | .leave dest => brMcFdbRemove br prt dest host snoopExClear 0
  | .join dest => brMcFdbAdd jiffies br prt dest host snoopExAdd 0

theorem processGrec_eq (br : Bridge Port) (r : GroupRecord) :
    processGrec jiffies prt host br r = (changesOf r).foldl (Change.apply jiffies prt host) br := by
  rw [processGrec, changesOf]
  simp only [List.length_eq_zero_iff]
  split_ifs with hin hnone hex hnone
  · rw [hnone]
    rfl
  · rw [List.foldl_map]
    rfl
  · rw [hnone]
    rfl
  · rw [List.foldl_map]
    rfl
  · rfl

theorem foldl_processGrec (br : Bridge Port) (rs : List GroupRecord) :
    rs.foldl (processGrec jiffies prt host) br = (rs.flatMap changesOf).foldl (Change.apply jiffies prt host) br := by
  induction rs generalizing br with
  | nil => rfl
  | cons r rs ih => rw [List.foldl_cons, ih, processGrec_eq, List.flatMap_cons, List.foldl_append]

end

section Held

variable (jiffies : UInt32) {prt : Port} {host dest : Mac} {src : Ip} {mode : FiltMode} {n : Nat} {br : Bridge Port}

/-- At least `n` entries of the mode for the source, and none of the other mode. -/
structure Held (prt : Port) (host dest : Mac) (src : Ip) (mode : FiltMode) (n : Nat) (br : Bridge Port) : Prop where
  count : n ≤ (keys br).count ⟨prt, dest, host, src, mode⟩
  other : ⟨prt, dest, host, src, opposite mode⟩ ∉ keys br

theorem Held.remove (h : Held prt host dest src mode (n + 1) br) (d : Mac) {clear : UInt8}
    (hclear : clear = snoopInClear ∨ clear = snoopExClear) (s : Ip) :
    Held prt host dest src mode n (brMcFdbRemove br (some prt) d host clear s) := by
  have hcount := h.count
  have hkeys := keys_remove br prt d host hclear s
  constructor
  · rw [hkeys, List.count_erase]
    split_ifs <;> omega
  · rw [hkeys]
    exact fun hmem => h.other (List.mem_of_mem_erase hmem)

theorem Held.add (h : Held prt host dest src mode n br) {d : Mac} {add : UInt8}
    (hadd : add = snoopInAdd ∨ add = snoopExAdd) {s : Ip}
    (hne : ¬ (d = dest ∧ s = src ∧ addMode add = opposite mode)) :
    Held prt host dest src mode n (brMcFdbAdd jiffies br (some prt) d host add s) := by
  rcases keys_add_cases jiffies br prt d host add s hadd with hkeys | ⟨-, -, hkeys⟩
  · exact ⟨hkeys ▸ h.count, hkeys ▸ h.other⟩
  · constructor
    · rw [hkeys, List.count_append]
      exact Nat.le_add_right_of_le h.count
    · rw [hkeys, List.mem_append, List.mem_singleton, Key.mk.injEq]
      rintro (hmem | ⟨-, rfl, -, rfl, hmode⟩)
      · exact h.other hmem
      · exact hne ⟨rfl, rfl, hmode.symm⟩

theorem Held.findMode (h : Held prt host dest src mode (n + 1) br) :
    findMode (some prt) host br dest src = some mode := by
  have hmem : ⟨prt, dest, host, src, mode⟩ ∈ keys br := by
    have hcount := h.count
    exact List.count_pos_iff.mp (by omega)
  obtain ⟨m, hm⟩ := findMode_of_mem hmem
  have hne : m ≠ opposite mode := fun heq => h.other (heq ▸ findMode_some hm)
  rw [hm]
  cases m <;> cases mode <;> simp_all [opposite]

theorem Held.mono (h : Held prt host dest src mode (n + 1) br) : Held prt host dest src mode n br :=
  ⟨Nat.le_of_succ_le h.count, h.other⟩

theorem Held.changeSource (h : Held prt host dest src mode (n + 1) br) {other : FiltMode} {clear add : UInt8}
    (hclear : clear = snoopInClear ∨ clear = snoopExClear) (hadd : add = snoopInAdd ∨ add = snoopExAdd)
    (hmode : addMode add = opposite other) (d : Mac) (s : Ip) :
    Held prt host dest src mode n (changeSource jiffies (some prt) host other clear add d br s) := by
  rw [Snooping.changeSource]
  split_ifs with hfind
  · exact h.remove d hclear s
  · apply h.mono.add jiffies hadd
    rintro ⟨rfl, rfl, hopposite⟩
    rw [opposite_inj (hmode.symm.trans hopposite), h.findMode] at hfind
    exact hfind rfl

theorem Held.apply (h : Held prt host dest src mode (n + 1) br) (hsrc : mode = .mcastExclude ∨ src ≠ 0) (c : Change) :
    Held prt host dest src mode n (c.apply jiffies (some prt) host br) := by
  cases c with
  | allow d s => exact h.changeSource jiffies (.inr rfl) (.inl rfl) rfl d s
  | block d s => exact h.changeSource jiffies (.inl rfl) (.inr rfl) rfl d s
  | leave d => exact h.remove d (.inr rfl) 0
  | join d =>
      apply h.mono.add jiffies (.inr rfl)
      rintro ⟨-, rfl, hmode⟩
      have hin : mode = .mcastInclude := opposite_inj hmode.symm
      rcases hsrc with hex | hne
      · rw [hin] at hex
        cases hex
      · exact hne rfl

theorem Held.foldl (l : List Change) (h : Held prt host dest src mode (l.length + n) br)
    (hsrc : mode = .mcastExclude ∨ src ≠ 0) :
    Held prt host dest src mode n (l.foldl (Change.apply jiffies (some prt) host) br) := by
  induction l generalizing br with
  | nil =>
      rw [List.length_nil, Nat.zero_add] at h
      exact h
  | cons c l ih =>
      rw [List.length_cons, Nat.add_right_comm] at h
      exact ih (h.apply jiffies hsrc c)

end Held

section TellsApart

variable (jiffies : UInt32) {prt : Port} {host : Mac} {br : Bridge Port}

theorem keys_apply_takes {c : Change} {mode : FiltMode} (hc : c.takes = some mode)
    (h : Held prt host c.dest c.src mode 1 br) :
    keys (c.apply jiffies (some prt) host br) = (keys br).erase ⟨prt, c.dest, host, c.src, mode⟩ := by
  cases c with
  | allow d s =>
      cases hc
      have hfind : findMode (some prt) host br d s = some .mcastExclude := h.findMode
      rw [Change.apply, includeSource, changeSource, if_pos hfind]
      exact keys_remove br prt d host (.inr rfl) s
  | block d s =>
      cases hc
      have hfind : findMode (some prt) host br d s = some .mcastInclude := h.findMode
      rw [Change.apply, excludeSource, changeSource, if_pos hfind]
      exact keys_remove br prt d host (.inl rfl) s
  | leave d =>
      cases hc
      exact keys_remove br prt d host (.inr rfl) 0
  | join d => cases hc

theorem count_add_of_ne {k : Key Port} {dest : Mac} {src : Ip} (hne : ¬ (dest = k.addr ∧ src = k.src)) {mode : UInt8}
    (hmode : mode = snoopInAdd ∨ mode = snoopExAdd) :
    (keys (brMcFdbAdd jiffies br (some prt) dest host mode src)).count k = (keys br).count k := by
  rcases keys_add_cases jiffies br prt dest host mode src hmode with hkeys | ⟨-, -, hkeys⟩
  · rw [hkeys]
  · rw [hkeys, List.count_append, List.count_singleton, if_neg, Nat.add_zero]
    intro heq
    obtain rfl := eq_of_beq heq
    exact hne ⟨rfl, rfl⟩

theorem count_remove_of_ne {k : Key Port} {dest : Mac} {src : Ip} (hne : ¬ (dest = k.addr ∧ src = k.src)) {mode : UInt8}
    (hmode : mode = snoopInClear ∨ mode = snoopExClear) :
    (keys (brMcFdbRemove br (some prt) dest host mode src)).count k = (keys br).count k := by
  rw [keys_remove br prt dest host hmode src]
  apply List.count_erase_of_ne
  rintro rfl
  exact hne ⟨rfl, rfl⟩

theorem count_apply_of_ne {k : Key Port} {c : Change} (hne : ¬ (c.dest = k.addr ∧ c.src = k.src)) :
    (keys (c.apply jiffies (some prt) host br)).count k = (keys br).count k := by
  cases c with
  | allow d s =>
      rw [Change.apply, includeSource, changeSource]
      split_ifs
      · exact count_remove_of_ne hne (.inr rfl)
      · exact count_add_of_ne jiffies hne (.inl rfl)
  | block d s =>
      rw [Change.apply, excludeSource, changeSource]
      split_ifs
      · exact count_remove_of_ne hne (.inl rfl)
      · exact count_add_of_ne jiffies hne (.inr rfl)
  | leave d => exact count_remove_of_ne hne (.inr rfl)
  | join d => exact count_add_of_ne jiffies hne (.inr rfl)

theorem count_foldl_of_ne {k : Key Port} {l : List Change} (hne : ∀ c ∈ l, ¬ (c.dest = k.addr ∧ c.src = k.src)) :
    (keys (l.foldl (Change.apply jiffies (some prt) host) br)).count k = (keys br).count k := by
  induction l generalizing br with
  | nil => rfl
  | cons c l ih =>
      obtain ⟨hc, hl⟩ := List.forall_mem_cons.mp hne
      rw [List.foldl_cons, ih hl, count_apply_of_ne jiffies hc]

def bridgeWith (mcList : List (McFdbEntry Port)) (allocs : List Bool) : Bridge Port :=
  ⟨[], mcList, fun _ => false, false, false, none, allocs⟩

theorem held_replicate (prt : Port) (host dest : Mac) (src : Ip) (mode : FiltMode) (n : Nat) :
    Held prt host dest src mode n (bridgeWith (List.replicate n ⟨prt, dest, host, src, mode, 0⟩) []) := by
  have hkeys : keys (bridgeWith (List.replicate n ⟨prt, dest, host, src, mode, 0⟩) []) =
      List.replicate n ⟨prt, dest, host, src, mode⟩ := List.map_replicate
  constructor
  · rw [hkeys, List.count_replicate_self]
  · rw [hkeys]
    intro hmem
    have hmode : opposite mode = mode := congrArg Key.filtMode (List.eq_of_mem_replicate hmem)
    cases mode <;> cases hmode

theorem takes_ne {c : Change} {mode : FiltMode} (hc : c.takes = some mode) (h : Held prt host c.dest c.src mode 1 br)
    {rest : List Change} (hrest : ∀ a ∈ rest, ¬ (a.dest = c.dest ∧ a.src = c.src)) :
    (c.apply jiffies (some prt) host br).mcList ≠ (rest.foldl (Change.apply jiffies (some prt) host) br).mcList := by
  intro heq
  have hkeys : keys (c.apply jiffies (some prt) host br) =
      keys (rest.foldl (Change.apply jiffies (some prt) host) br) := congrArg (List.map keyOf) heq
  have hsame : (keys (rest.foldl (Change.apply jiffies (some prt) host) br)).count ⟨prt, c.dest, host, c.src, mode⟩ =
      (keys br).count ⟨prt, c.dest, host, c.src, mode⟩ := count_foldl_of_ne jiffies hrest
  have hcount := h.count
  rw [← hkeys, keys_apply_takes jiffies hc h, List.count_erase_self] at hsame
  omega

theorem takes_tells_apart (prt : Port) (host : Mac) (before rest : List Change) {c : Change} {mode : FiltMode}
    (hc : c.takes = some mode) (hsrc : mode = .mcastExclude ∨ c.src ≠ 0)
    (hrest : ∀ a ∈ rest, ¬ (a.dest = c.dest ∧ a.src = c.src)) :
    ∃ br : Bridge Port, ((before ++ [c]).foldl (Change.apply jiffies (some prt) host) br).mcList ≠
      ((before ++ rest).foldl (Change.apply jiffies (some prt) host) br).mcList := by
  refine ⟨bridgeWith (List.replicate (before.length + 1) ⟨prt, c.dest, host, c.src, mode, 0⟩) [], ?_⟩
  have hheld := (held_replicate prt host c.dest c.src mode (before.length + 1)).foldl jiffies before hsrc
  rw [List.foldl_append, List.foldl_append]
  exact takes_ne jiffies hc hheld hrest

/-- An empty table, and no memory for the next `n` entries. -/
structure Starved (n : Nat) (br : Bridge Port) : Prop where
  mcList : br.mcList = []
  allocs : br.allocs = List.replicate n false

section Starved

variable (prt : Port) (host : Mac)

theorem Starved.remove {n : Nat} (h : Starved n br) (dest : Mac) (mode : UInt8) (src : Ip) :
    Starved n (brMcFdbRemove br (some prt) dest host mode src) := by
  rw [brMcFdbRemove]
  split_ifs
  · exact h
  · refine ⟨?_, h.allocs⟩
    simp only [h.mcList, List.eraseP_nil]

theorem Starved.add (dest : Mac) (mode : UInt8) (src : Ip) : ∃ t, ∀ n (br : Bridge Port), Starved (t + n) br →
    Starved n (brMcFdbAdd jiffies br (some prt) dest host mode src) := by
  by_cases hnone : (mode ≠ snoopInAdd ∧ mode ≠ snoopExAdd) ∨ dest = upnpAddr
  · refine ⟨0, fun n br h => ?_⟩
    rw [Nat.zero_add] at h
    rcases hnone with hmode | hdest
    · rw [brMcFdbAdd, if_pos hmode]
      exact h
    · rw [hdest, add_upnp]
      exact h
  · obtain ⟨hmode, hdest⟩ := not_or.mp hnone
    refine ⟨1, fun n br h => ?_⟩
    have hk : ⟨prt, dest, host, src, addMode mode⟩ ∉ keys br := by
      rw [keys, h.mcList]
      exact List.not_mem_nil
    have hallocs : br.allocs = false :: List.replicate n false := by
      rw [h.allocs, Nat.add_comm, List.replicate_succ]
    simp only [brMcFdbAdd, if_neg hmode, if_neg hdest, update_eq, decide_eq_true_eq, if_neg hk,
      refresh_of_not_mem jiffies hk, hallocs, List.headD_cons, if_true, List.tail_cons]
    exact ⟨h.mcList, rfl⟩

theorem Starved.apply (c : Change) : ∃ t, ∀ n (br : Bridge Port), Starved (t + n) br →
    Starved n (c.apply jiffies (some prt) host br) := by
  have hchange (other : FiltMode) (clear add : UInt8) (d : Mac) (s : Ip) : ∃ t, ∀ n (br : Bridge Port),
      Starved (t + n) br → Starved n (changeSource jiffies (some prt) host other clear add d br s) := by
    obtain ⟨t, ht⟩ := Starved.add jiffies prt host d add s
    refine ⟨t, fun n br h => ?_⟩
    have hfind : findMode (some prt) host br d s ≠ some other := by
      intro hfind
      have hmem := findMode_some hfind
      rw [keys, h.mcList] at hmem
      exact List.not_mem_nil hmem
    rw [changeSource, if_neg hfind]
    exact ht n br h
  cases c with
  | allow d s => exact hchange _ _ _ d s
  | block d s => exact hchange _ _ _ d s
  | leave d =>
      refine ⟨0, fun n br h => ?_⟩
      rw [Nat.zero_add] at h
      exact h.remove prt host d snoopExClear 0
  | join d => exact Starved.add jiffies prt host d snoopExAdd 0

theorem Starved.foldl (l : List Change) : ∃ t, ∀ n (br : Bridge Port), Starved (t + n) br →
    Starved n (l.foldl (Change.apply jiffies (some prt) host) br) := by
  induction l with
  | nil =>
      refine ⟨0, fun n br h => ?_⟩
      rw [Nat.zero_add] at h
      exact h
  | cons c l ih =>
      obtain ⟨t, ht⟩ := ih
      obtain ⟨t', ht'⟩ := Starved.apply jiffies prt host c
      refine ⟨t' + t, fun n br h => ?_⟩
      rw [Nat.add_assoc] at h
      exact ht n _ (ht' (t + n) br h)

theorem join_ne (h : Starved 0 br) {dest : Mac} (hdest : dest ≠ upnpAddr) {rest : List Change}
    (hrest : ∀ a ∈ rest, ¬ (a.dest = dest ∧ a.src = 0)) :
    (Change.apply jiffies (some prt) host br (.join dest)).mcList ≠
      (rest.foldl (Change.apply jiffies (some prt) host) br).mcList := by
  intro heq
  have hempty : keys br = [] := congrArg (List.map keyOf) h.mcList
  have hkeys : keys (Change.apply jiffies (some prt) host br (.join dest)) =
      keys (rest.foldl (Change.apply jiffies (some prt) host) br) := congrArg (List.map keyOf) heq
  have hsame : (keys (rest.foldl (Change.apply jiffies (some prt) host) br)).count
      ⟨prt, dest, host, 0, .mcastExclude⟩ = (keys br).count ⟨prt, dest, host, 0, .mcastExclude⟩ :=
    count_foldl_of_ne jiffies hrest
  have hadd : keys (Change.apply jiffies (some prt) host br (.join dest)) = [⟨prt, dest, host, 0, .mcastExclude⟩] := by
    have hkeys := (keys_add jiffies h.allocs prt hdest host (.inr rfl) 0).1
    rw [hempty, if_neg List.not_mem_nil] at hkeys
    exact hkeys
  rw [← hkeys, hadd, hempty, List.count_singleton_self] at hsame
  cases hsame

theorem join_tells_apart (before rest : List Change) {dest : Mac} (hdest : dest ≠ upnpAddr)
    (hrest : ∀ a ∈ rest, ¬ (a.dest = dest ∧ a.src = 0)) :
    ∃ br : Bridge Port, ((before ++ [Change.join dest]).foldl (Change.apply jiffies (some prt) host) br).mcList ≠
      ((before ++ rest).foldl (Change.apply jiffies (some prt) host) br).mcList := by
  obtain ⟨t, ht⟩ := Starved.foldl jiffies prt host before
  have hstarved := ht 0 (bridgeWith [] (List.replicate t false)) ⟨rfl, rfl⟩
  refine ⟨bridgeWith [] (List.replicate t false), ?_⟩
  rw [List.foldl_append, List.foldl_append]
  exact join_ne jiffies prt host hstarved hdest hrest

end Starved

/-- The change makes a difference in some table, whatever comes before it. -/
def Change.Shows (c : Change) : Prop :=
  (∃ mode, c.takes = some mode ∧ (mode = .mcastExclude ∨ c.src ≠ 0)) ∨ ∃ dest, c = .join dest ∧ dest ≠ upnpAddr

theorem tells_apart (prt : Port) (host : Mac) (before rest : List Change) {c : Change} (hc : c.Shows)
    (hrest : ∀ a ∈ rest, ¬ (a.dest = c.dest ∧ a.src = c.src)) :
    ∃ br : Bridge Port, ((before ++ [c]).foldl (Change.apply jiffies (some prt) host) br).mcList ≠
      ((before ++ rest).foldl (Change.apply jiffies (some prt) host) br).mcList := by
  rcases hc with ⟨mode, htakes, hsrc⟩ | ⟨dest, rfl, hdest⟩
  · exact takes_tells_apart jiffies prt host before rest htakes hsrc hrest
  · exact join_tells_apart jiffies prt host before rest hdest hrest

end TellsApart

end AliceModem.Changes
