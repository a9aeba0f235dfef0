import AliceModem.Bridge.SnoopTable
import AliceModem.Bridge.Leave
import AliceModem.Lib.Transition

namespace AliceModem.Expiry

open Snooping SnoopTable Transition

variable {Port : Type} [DecidableEq Port]

section Log

variable (jiffies : UInt32) (prt : Option Port) (host : Mac)

def addedKey (dest : Mac) (mode : UInt8) (src : Ip) : List (Key Port) :=
  match prt with
  | none => []
  | some p => if dest = upnpAddr then [] else [⟨p, dest, host, src, addMode mode⟩]

def changedKey (other : FiltMode) (add : UInt8) (dest : Mac) (br : Bridge Port) (src : Ip) : List (Key Port) :=
  if findMode prt host br dest src = some other then [] else addedKey prt host dest add src

def collect {α : Type} (f : Bridge Port → α → Bridge Port) (g : Bridge Port → α → List (Key Port)) :
    Bridge Port → List α → List (Key Port)
  | _, [] => []
  | br, a :: l => g br a ++ collect f g (f br a) l

def grecKeys (br : Bridge Port) (r : GroupRecord) : List (Key Port) :=
  let dest := brcmConvIpToMac r.grecMca
  if r.grecType ∈ [1, 3, 5] then
    collect (includeSource jiffies prt host dest) (changedKey prt host .mcastExclude snoopInAdd dest) br r.grecSrc
  else if r.grecType ∈ [2, 4, 6] then
    collect (excludeSource jiffies prt host dest) (changedKey prt host .mcastInclude snoopExAdd dest) br r.grecSrc ++
      if r.grecSrc.length = 0 then addedKey prt host dest snoopExAdd 0 else []
  else []

end Log

def frameKeys (snooping : Nat) (jiffies : UInt32) (br : Bridge Port) (skb : Skb Port) : List (Key Port) :=
  if snooping ≠ 0 ∧ skb.data 9 = ipprotoIgmp ∧ br.proxy = false ∧ skb.protocol = ethPIp then
    if skb.data skb.igmpOffset = igmpv2HostMembershipReport then addedKey skb.brPort skb.hSource skb.hDest snoopExAdd 0
    else if skb.data skb.igmpOffset = igmpv3HostMembershipReport then
      let data := ByteMemory.view skb.data skb.igmpOffset
      collect (processGrec jiffies skb.brPort skb.hSource) (grecKeys jiffies skb.brPort skb.hSource) br
        (grecsAt data (be16At data 6) 8)
    else []
  else []

def Stamped (jiffies : UInt32) (log : List (Key Port)) (br br' : Bridge Port) : Prop :=
  ∀ e ∈ br'.mcList, (keyOf e ∈ log → e.tstamp = jiffies + queryTimeoutTicks) ∧ (keyOf e ∉ log → e ∈ br.mcList)

section Stamped

variable {jiffies : UInt32} {log log' : List (Key Port)} {br br' br'' : Bridge Port} {prt : Option Port} {host : Mac}

omit [DecidableEq Port] in
theorem Stamped.of_subset (h : ∀ e ∈ br'.mcList, e ∈ br.mcList) : Stamped jiffies [] br br' :=
  fun e he => ⟨fun hlog => absurd hlog List.not_mem_nil, fun _ => h e he⟩

omit [DecidableEq Port] in
theorem Stamped.trans (h : Stamped jiffies log br br') (h' : Stamped jiffies log' br' br'') :
    Stamped jiffies (log ++ log') br br'' := by
  intro e he
  obtain ⟨hlast, hkept⟩ := h' e he
  by_cases hlog' : keyOf e ∈ log'
  · exact ⟨fun _ => hlast hlog', fun hnot => absurd (List.mem_append_right _ hlog') hnot⟩
  · obtain ⟨hfirst, hold⟩ := h e (hkept hlog')
    refine ⟨fun hmem => hfirst ?_, fun hnot => hold fun hlog => hnot (List.mem_append_left _ hlog)⟩
    exact (List.mem_append.mp hmem).resolve_right hlog'

theorem add_stamped (br : Bridge Port) (dest : Mac) {mode : UInt8} (hmode : mode = snoopInAdd ∨ mode = snoopExAdd)
    (src : Ip) :
    Stamped jiffies (addedKey prt host dest mode src) br (brMcFdbAdd jiffies br prt dest host mode src) := by
  cases prt with
  | none => exact .of_subset fun e he => he
  | some p =>
      rw [addedKey]
      by_cases hdest : dest = upnpAddr
      · rw [if_pos hdest, hdest, add_upnp]
        exact .of_subset fun e he => he
      rw [if_neg hdest]
      have hold (e : McFdbEntry Port) (he : e ∈ br.mcList) (hk : ⟨p, dest, host, src, addMode mode⟩ ∉ keys br) :
          keyOf e ∉ [⟨p, dest, host, src, addMode mode⟩] := by
        rw [List.mem_singleton]
        intro hke
        rw [← hke] at hk
        exact hk (List.mem_map_of_mem he)
      intro e he
      rcases add_cases jiffies br p dest host mode src hmode hdest with ⟨-, hl⟩ | ⟨hk, hl | hl⟩
      · rw [hl, refresh, List.mem_map] at he
        obtain ⟨a, ha, rfl⟩ := he
        by_cases hka : keyOf a = ⟨p, dest, host, src, addMode mode⟩
        · rw [if_pos hka, keyOf_tstamp, hka]
          exact ⟨fun _ => rfl, fun hnot => absurd (List.mem_singleton_self _) hnot⟩
        · rw [if_neg hka, List.mem_singleton]
          exact ⟨fun h => absurd h hka, fun _ => ha⟩
      · rw [hl] at he
        exact ⟨fun h => absurd h (hold e he hk), fun _ => he⟩
      · rw [hl, List.mem_append] at he
        rcases he with he | he
        · exact ⟨fun h => absurd h (hold e he hk), fun _ => he⟩
        · obtain rfl := List.mem_singleton.mp he
          exact ⟨fun _ => rfl, fun hnot => absurd (List.mem_singleton_self _) hnot⟩

variable (prt host) in
theorem remove_stamped (br : Bridge Port) (dest : Mac) (mode : UInt8) (src : Ip) :
    Stamped jiffies [] br (brMcFdbRemove br prt dest host mode src) := by
  cases prt with
  | none => exact .of_subset fun e he => he
  | some p =>
      apply Stamped.of_subset
      rw [brMcFdbRemove]
      split_ifs
      · exact fun e he => he
      · exact fun e he => List.mem_of_mem_eraseP he

variable (jiffies prt host) in
theorem changeSource_stamped (other : FiltMode) (clear : UInt8) {add : UInt8}
    (hadd : add = snoopInAdd ∨ add = snoopExAdd) (dest : Mac) (br : Bridge Port) (src : Ip) :
    Stamped jiffies (changedKey prt host other add dest br src) br
      (changeSource jiffies prt host other clear add dest br src) := by
  rw [changedKey, changeSource]
  split
  · exact remove_stamped prt host br dest clear src
  · exact add_stamped br dest hadd src

omit [DecidableEq Port] in
theorem collect_stamped {α : Type} {f : Bridge Port → α → Bridge Port} {g : Bridge Port → α → List (Key Port)}
    (h : ∀ br a, Stamped jiffies (g br a) br (f br a)) (l : List α) (br : Bridge Port) :
    Stamped jiffies (collect f g br l) br (l.foldl f br) := by
  induction l generalizing br with
  | nil => exact .of_subset fun e he => he
  | cons a l ih => exact (h br a).trans (ih _)

theorem processGrec_stamped (br : Bridge Port) (r : GroupRecord) :
    Stamped jiffies (grecKeys jiffies prt host br r) br (processGrec jiffies prt host br r) := by
  have hin := collect_stamped (changeSource_stamped jiffies prt host .mcastExclude snoopExClear (.inl rfl)
    (brcmConvIpToMac r.grecMca)) r.grecSrc br
  have hex := collect_stamped (changeSource_stamped jiffies prt host .mcastInclude snoopInClear (.inr rfl)
    (brcmConvIpToMac r.grecMca)) r.grecSrc br
  rw [grecKeys, processGrec]
  dsimp only
  split_ifs
  · have hleave := hin.trans (remove_stamped prt host _ (brcmConvIpToMac r.grecMca) snoopExClear 0)
    rwa [List.append_nil] at hleave
  · exact hin
  · exact hex.trans (add_stamped _ _ (.inr rfl) 0)
  · rw [List.append_nil]
    exact hex
  · exact .of_subset fun e he => he

theorem mcForward_stamped (snooping : Nat) (br : Bridge Port) (skb : Skb Port) :
    Stamped jiffies (frameKeys snooping jiffies br skb) br (mcForward snooping jiffies br skb).bridge := by
  have hsame : Stamped jiffies [] br br := .of_subset fun e he => he
  rw [frameKeys, mcForward]
  by_cases hs : snooping = 0
  · rw [if_pos hs, if_neg fun h => h.1 hs]
    exact hsame
  by_cases hdata : skb.data 9 = ipprotoIgmp
  swap
  · rw [if_neg hs, if_neg hdata, if_neg fun h => hdata h.2.1]
    exact .of_subset fun e he => he
  cases hproxy : br.proxy with
  | true =>
      rw [if_neg hs, if_pos hdata, if_neg fun h => Bool.noConfusion h.2.2.1]
      exact hsame
  | false =>
      rw [if_neg hs, if_pos hdata, snoopIgmp]
      simp only [Bool.false_eq_true, if_false]
      by_cases hproto : skb.protocol = ethPIp
      · rw [if_pos ⟨hs, hdata, trivial, hproto⟩]
        simp only [hproto, and_true]
        split_ifs
        · exact add_stamped br skb.hDest (.inr rfl) 0
        · exact collect_stamped processGrec_stamped _ br
        · exact remove_stamped _ _ br _ snoopExClear 0
        · exact hsame
      · rw [if_neg fun h => hproto h.2.2.2]
        simp only [hproto, and_false, if_false]
        split_ifs
        · exact remove_stamped _ _ br _ snoopExClear 0
        · exact hsame

end Stamped

/-- The bridge, the time in ticks, of which `jiffies` is the low word, and for every row the time at which it was
entered or last refreshed. -/
structure Sys (Port : Type) where
  br : Bridge Port
  now : Nat
  since : Key Port → Nat

def Sys.jiffies (s : Sys Port) : UInt32 := .ofNat s.now

inductive Event (Port : Type)
  | wait (ticks : Nat)
  | frame (snooping : Nat) (skb : Skb Port)
  | timeout

def step (s : Sys Port) : Event Port → Sys Port
  | .wait ticks => { s with now := s.now + ticks }
  | .frame snooping skb =>
      { s with
        br := (mcForward snooping s.jiffies s.br skb).bridge
        since := fun k => if k ∈ frameKeys snooping s.jiffies s.br skb then s.now else s.since k }
  | .timeout => { s with br := queryTimeout s.jiffies s.br }

def Enabled (s : Sys Port) : Event Port → Prop
  | .timeout => ∃ expires ∈ s.br.igmpTimer, (s.jiffies - expires).toNat < 2147483648
  | _ => True

/-- `query_timeout` removes no row before its time is over, and every row whose time is over. -/
def OnTime (s : Sys Port) : Event Port → Prop
  | .timeout => ∀ e ∈ s.br.mcList,
      (e ∉ (queryTimeout s.jiffies s.br).mcList → s.since (keyOf e) + 26000 ≤ s.now) ∧
      (s.since (keyOf e) + 26000 < s.now → e ∉ (queryTimeout s.jiffies s.br).mcList)
  | _ => True

/-- `jiffies` has not wrapped around between now and the end of a row's time, or is past the same value again. -/
def Unwrapped (s : Sys Port) : Event Port → Prop
  | .timeout => ∀ e ∈ s.br.mcList,
      (s.since (keyOf e) + 26000) / 4294967296 = s.now / 4294967296 ∨
      (s.since (keyOf e) + 26000) / 4294967296 < s.now / 4294967296 ∧
        (s.since (keyOf e) + 26000) % 4294967296 < s.now % 4294967296
  | _ => True

structure Inv (s : Sys Port) : Prop where
  tstamp : ∀ e ∈ s.br.mcList, e.tstamp = .ofNat (s.since (keyOf e) + 26000)
  since : ∀ e ∈ s.br.mcList, s.since (keyOf e) ≤ s.now

theorem Inv.frame {s : Sys Port} (h : Inv s) (snooping : Nat) (skb : Skb Port) : Inv (step s (.frame snooping skb)) := by
  have hstamped : Stamped s.jiffies (frameKeys snooping s.jiffies s.br skb) s.br
      (step s (.frame snooping skb)).br := mcForward_stamped snooping s.br skb
  have hrow (e : McFdbEntry Port) (he : e ∈ (step s (.frame snooping skb)).br.mcList) :
      e.tstamp = .ofNat ((step s (.frame snooping skb)).since (keyOf e) + 26000) ∧
        (step s (.frame snooping skb)).since (keyOf e) ≤ s.now := by
    obtain ⟨hnew, hold⟩ := hstamped e he
    by_cases hk : keyOf e ∈ frameKeys snooping s.jiffies s.br skb
    · have hsince : (step s (.frame snooping skb)).since (keyOf e) = s.now := if_pos hk
      rw [hsince, hnew hk, UInt32.ofNat_add]
      exact ⟨rfl, le_refl _⟩
    · have hsince : (step s (.frame snooping skb)).since (keyOf e) = s.since (keyOf e) := if_neg hk
      rw [hsince]
      exact ⟨h.tstamp e (hold hk), h.since e (hold hk)⟩
  exact ⟨fun e he => (hrow e he).1, fun e he => (hrow e he).2⟩

theorem Inv.step {s : Sys Port} (h : Inv s) (ev : Event Port) : Inv (step s ev) := by
  cases ev with
  | wait ticks => exact ⟨h.tstamp, fun e he => (h.since e he).trans (Nat.le_add_right _ _)⟩
  | frame snooping skb => exact h.frame snooping skb
  | timeout =>
      exact ⟨fun e he => h.tstamp e (List.mem_of_mem_filter he), fun e he => h.since e (List.mem_of_mem_filter he)⟩

omit [DecidableEq Port] in
theorem mem_queryTimeout {s : Sys Port} (h : Inv s) {e : McFdbEntry Port} (he : e ∈ s.br.mcList) :
    e ∈ (queryTimeout s.jiffies s.br).mcList ↔
      s.now % 4294967296 ≤ (s.since (keyOf e) + 26000) % 4294967296 := by
  rw [queryTimeout, List.mem_filter, and_iff_right he, h.tstamp e he, Sys.jiffies]
  simp [UInt32.lt_iff_toNat_lt]

omit [DecidableEq Port] in
theorem onTime_iff {s : Sys Port} (h : Inv s) (ev : Event Port) : OnTime s ev ↔ Unwrapped s ev := by
  cases ev with
  | wait | frame => exact Iff.rfl
  | timeout =>
      refine forall₂_congr fun e he => ?_
      have hle := h.since e he
      rw [mem_queryTimeout h he]
      omega

def start (br : Bridge Port) (now : Nat) : Sys Port := ⟨{ br with mcList := [] }, now, fun _ => 0⟩

omit [DecidableEq Port] in
theorem start_inv (br : Bridge Port) (now : Nat) : Inv (start br now) :=
  ⟨fun _ he => absurd he List.not_mem_nil, fun _ he => absurd he List.not_mem_nil⟩

/-- Rows go on time exactly in the runs in which no wrap of `jiffies` lies between a run of `query_timeout` and the end
of a row's time. -/
theorem rows_expire_on_time_iff (br : Bridge Port) (now : Nat) (es : List (Event Port)) :
    Along step OnTime (start br now) es ↔ Along step Unwrapped (start br now) es := by
  have hall : Along step (fun _ _ => True) (start br now) es := Along.of_forall (fun _ _ => trivial) _ es
  exact along_iff (I := Inv) (fun _ ev h _ hun => (onTime_iff h ev).mpr hun) (fun _ ev h _ _ => h.step ev)
    (fun _ ev h _ hon => (onTime_iff h ev).mp hon) (start_inv br now) hall

def demoEvents : List (Event Nat) := [.frame 1 Leave.demoJoin, .wait 2000, .timeout]

theorem row_expires_early :
    Along step Enabled (start Leave.emptyBridge 4294957296) demoEvents ∧
      ¬ Along step OnTime (start Leave.emptyBridge 4294957296) demoEvents := by
  refine ⟨⟨trivial, trivial, ⟨4294959296, by decide, by decide⟩, trivial⟩, fun h => ?_⟩
  have hrow := (h.2.2.1 (Leave.membership 1 [2, 0, 0, 0, 0, 1] 0xef010101 16000) (by decide)).1 (by decide)
  revert hrow
  decide

end AliceModem.Expiry
