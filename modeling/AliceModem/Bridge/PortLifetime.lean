import AliceModem.Bridge.SnoopTable
import AliceModem.Lib.Transition

namespace AliceModem.PortLifetime

open ByteMemory BigEndian Snooping SnoopTable Transition

variable {Port : Type} [DecidableEq Port]

structure Sys (Port : Type) where
  br : Bridge Port
  registered : Bool
  snooping : Nat

structure PortSnooping where
  group : Mac
  host : Mac
  mode : UInt8
  src : Ip

inductive Event (Port : Type)
  | newNbp (p : Port)
  | delNbp (p : Port)
  | delBr
  | frame (jiffies : UInt32) (skb : Skb Port)
  | setPortSnooping (jiffies : UInt32) (p : Port) (arg : PortSnooping)
  | clearPortSnooping (p : Port) (arg : PortSnooping)
  | enableSnooping (mode : Nat)
  | timer (jiffies : UInt32)

def allHosts : Mac := [0xff, 0xff, 0xff, 0xff, 0xff, 0xff]

def brClearPortSnooping (br : Bridge Port) (p : Port) (arg : PortSnooping) : Bridge Port :=
  let br := { br with proxy := true }
  if arg.host = allHosts then brMcFdbRemoveGrp br p arg.group
  else brMcFdbRemove br (some p) arg.group arg.host arg.mode arg.src

def delNbp (br : Bridge Port) (p : Port) : Bridge Port := { br with portList := br.portList.erase p }

def delBr (br : Bridge Port) : Bridge Port := brMcFdbCleanup (br.portList.foldl delNbp br)

def step (s : Sys Port) : Event Port → Sys Port
  | .newNbp p => { s with br := { s.br with
      portList := p :: s.br.portList, dirty := Function.update s.br.dirty p false } }
  | .delNbp p => { s with br := delNbp s.br p }
  | .delBr => { s with br := delBr s.br, registered := false }
  | .frame jiffies skb => { s with br := (mcForward s.snooping jiffies s.br skb).bridge }
  | .setPortSnooping jiffies p arg =>
      { s with br := brMcFdbAdd jiffies s.br (some p) arg.group arg.host arg.mode arg.src }
  | .clearPortSnooping p arg => { s with br := brClearPortSnooping s.br p arg }
  | .enableSnooping mode => { s with snooping := mode }
  | .timer jiffies => { s with br := queryTimeout jiffies s.br }

/-- A port is new when it is added and on the list when it is used. A frame of
the bridge itself has no port. Only the timer can outlive the bridge. -/
def Enabled (s : Sys Port) : Event Port → Prop
  | .newNbp p => s.registered ∧ p ∉ s.br.portList
  | .delNbp p | .setPortSnooping _ p _ | .clearPortSnooping p _ => s.registered ∧ p ∈ s.br.portList
  | .delBr => s.registered
  | .frame _ skb => s.registered ∧ ∀ p, skb.brPort = some p → p ∈ s.br.portList
  | .enableSnooping _ => True
  | .timer _ => s.br.igmpTimer ≠ none

structure Safe (s : Sys Port) : Prop where
  entries : ∀ e ∈ s.br.mcList, e.dst ∈ s.br.portList
  timer : s.registered = false → s.br.igmpTimer = none

/-- A port may go when no entry refers to it, and the bridge when its timer was never started. -/
def Harmless (s : Sys Port) : Event Port → Prop
  | .delNbp p => ∀ e ∈ s.br.mcList, e.dst ≠ p
  | .delBr => s.br.startTimer = false
  | _ => True

structure Inv (s : Sys Port) : Prop extends Safe s where
  ports : s.br.portList.Nodup
  started : s.br.startTimer = s.br.igmpTimer.isSome

/-- New entries belong to the port `prt`, the ports stay, and the timer is
started with the first entry. -/
structure Kept (prt : Option Port) (br br' : Bridge Port) : Prop where
  entries : ∀ e ∈ br'.mcList, (∃ e' ∈ br.mcList, e'.dst = e.dst) ∨ prt = some e.dst
  portList : br'.portList = br.portList
  started : br.startTimer = br.igmpTimer.isSome → br'.startTimer = br'.igmpTimer.isSome

omit [DecidableEq Port] in
theorem Kept.refl (prt : Option Port) (br : Bridge Port) : Kept prt br br :=
  ⟨fun e he => .inl ⟨e, he, rfl⟩, rfl, id⟩

omit [DecidableEq Port] in
theorem Kept.trans {prt : Option Port} {br br' br'' : Bridge Port} (h : Kept prt br br') (h' : Kept prt br' br'') :
    Kept prt br br'' := by
  refine ⟨fun e he => ?_, h'.portList.trans h.portList, fun hs => h'.started (h.started hs)⟩
  rcases h'.entries e he with ⟨e', he', heq⟩ | hp
  · rw [← heq]
    exact h.entries e' he'
  · exact .inr hp

omit [DecidableEq Port] in
theorem kept_of_subset {br br' : Bridge Port} (prt : Option Port) (h : ∀ e ∈ br'.mcList, e ∈ br.mcList)
    (hp : br'.portList = br.portList) (hs : br'.startTimer = br.startTimer) (ht : br'.igmpTimer = br.igmpTimer) :
    Kept prt br br' :=
  ⟨fun e he => .inl ⟨e, h e he, rfl⟩, hp, fun h => by rw [hs, ht, h]⟩

theorem remove_kept (br : Bridge Port) (prt q : Option Port) (dest host : Mac) (mode : UInt8) (src : Ip) :
    Kept q br (brMcFdbRemove br prt dest host mode src) := by
  cases prt with
  | none => exact .refl q br
  | some prt =>
      simp only [brMcFdbRemove]
      split_ifs
      · exact .refl q br
      · exact kept_of_subset q (fun e he => List.mem_of_mem_eraseP he) rfl rfl rfl

theorem update_kept (jiffies : UInt32) (br : Bridge Port) (prt : Port) (q : Option Port) (dest host : Mac)
    (mode : UInt8) (src : Ip) : Kept q br (brMcFdbUpdate jiffies br prt dest host mode src).2 := by
  refine ⟨fun e he => .inl ?_, rfl, id⟩
  obtain ⟨e', he', rfl⟩ := List.mem_map.mp he
  refine ⟨e', he', ?_⟩
  split <;> rfl

theorem add_kept (jiffies : UInt32) (br : Bridge Port) (prt : Option Port) (dest host : Mac) (mode : UInt8)
    (src : Ip) : Kept prt br (brMcFdbAdd jiffies br prt dest host mode src) := by
  cases prt with
  | none => exact .refl none br
  | some prt =>
      have hup := update_kept jiffies br prt (some prt) dest host mode src
      have hentered (t : UInt32) : ∀ e ∈ (brMcFdbUpdate jiffies br prt dest host mode src).2.mcList ++
          [⟨prt, dest, host, src, addMode mode, t⟩], (∃ e' ∈ br.mcList, e'.dst = e.dst) ∨ some prt = some e.dst := by
        intro e he
        rcases List.mem_append.mp he with he | he
        · exact hup.entries e he
        · rw [List.mem_singleton.mp he]
          exact .inr rfl
      simp only [brMcFdbAdd]
      split_ifs with h1 h2 h3 h4 h5
      · exact .refl _ br
      · exact .refl _ br
      · exact hup
      · exact ⟨hup.entries, hup.portList, hup.started⟩
      · exact ⟨hentered _, hup.portList, hup.started⟩
      · exact ⟨hentered _, hup.portList, fun _ => rfl⟩

theorem mcForward_kept (snooping : Nat) (jiffies : UInt32) (br : Bridge Port) (skb : Skb Port) :
    Kept skb.brPort br (mcForward snooping jiffies br skb).bridge := by
  have hrespects : Respects (Kept skb.brPort) jiffies skb.brPort skb.hSource :=
    .of_add_remove (Kept.refl _) (fun _ _ _ => Kept.trans) (fun br dest mode src _ => add_kept ..)
      fun br dest mode src _ => remove_kept ..
  exact hrespects.mcForward (fun br dirty => kept_of_subset _ (fun e he => he) rfl rfl rfl) snooping br

theorem clear_kept (br : Bridge Port) (p : Port) (arg : PortSnooping) (q : Option Port) :
    Kept q br (brClearPortSnooping br p arg) := by
  have hproxy : Kept q br { br with proxy := true } := kept_of_subset q (fun e he => he) rfl rfl rfl
  rw [brClearPortSnooping]
  split
  · exact hproxy.trans (kept_of_subset q (fun e he => List.mem_of_mem_filter he) rfl rfl rfl)
  · exact hproxy.trans (remove_kept ..)

theorem delBr_eq (br : Bridge Port) : delBr br = { br with portList := [], mcList := [] } := by
  have hports (l : List Port) (br : Bridge Port) (h : br.portList = l) :
      l.foldl delNbp br = { br with portList := [] } := by
    induction l generalizing br with
    | nil => rw [List.foldl_nil, ← h]
    | cons p l ih =>
        rw [List.foldl_cons, ih _ (by rw [delNbp, h, List.erase_cons_head])]
        rfl
  rw [delBr, hports _ _ rfl, brMcFdbCleanup]

omit [DecidableEq Port] in
theorem Inv.of_kept {s : Sys Port} (h : Inv s) {prt : Option Port} {br' : Bridge Port} (hk : Kept prt s.br br')
    (hreg : s.registered) (hprt : ∀ p, prt = some p → p ∈ s.br.portList) : Inv { s with br := br' } := by
  refine ⟨⟨fun e he => ?_, fun hr => ?_⟩, hk.portList ▸ h.ports, hk.started h.started⟩
  · rw [hk.portList]
    rcases hk.entries e he with ⟨e', he', heq⟩ | hp
    · rw [← heq]
      exact h.entries e' he'
    · exact hprt e.dst hp
  · rw [hreg] at hr
    cases hr

theorem Inv.step {s : Sys Port} (h : Inv s) {e : Event Port} (hen : Enabled s e) (hc : Harmless s e) :
    Inv (step s e) := by
  cases e with
  | newNbp p =>
      obtain ⟨hreg, hp⟩ := hen
      refine ⟨⟨fun e he => List.mem_cons_of_mem _ (h.entries e he), fun hr => ?_⟩, ?_, h.started⟩
      · exact h.timer hr
      · exact List.nodup_cons.mpr ⟨hp, h.ports⟩
  | delNbp p =>
      refine ⟨⟨fun e he => ?_, h.timer⟩, h.ports.erase p, h.started⟩
      exact (h.ports.mem_erase_iff).mpr ⟨hc e he, h.entries e he⟩
  | delBr =>
      have hnone : s.br.igmpTimer = none := by
        have hstart : s.br.startTimer = false := hc
        rw [← Option.not_isSome_iff_eq_none, ← h.started, hstart]
        exact Bool.false_ne_true
      rw [step.eq_def]
      simp only [delBr_eq]
      exact ⟨⟨by simp, fun _ => hnone⟩, List.nodup_nil, h.started⟩
  | frame jiffies skb => exact h.of_kept (mcForward_kept ..) hen.1 hen.2
  | setPortSnooping jiffies p arg =>
      exact h.of_kept (add_kept ..) hen.1 fun q hq => Option.some.inj hq ▸ hen.2
  | clearPortSnooping p arg => exact h.of_kept (clear_kept s.br p arg none) hen.1 nofun
  | enableSnooping mode => exact ⟨⟨h.entries, h.timer⟩, h.ports, h.started⟩
  | timer jiffies =>
      refine ⟨⟨fun e he => h.entries e (List.mem_of_mem_filter he), fun hr => absurd (h.timer hr) hen⟩, h.ports, ?_⟩
      have hsome : s.br.igmpTimer.isSome := Option.isSome_iff_ne_none.mpr hen
      exact h.started.trans hsome

theorem harmless_of_safe {s : Sys Port} (h : Inv s) {e : Event Port} (hsafe : Safe (step s e)) : Harmless s e := by
  cases e with
  | delNbp p =>
      intro e he hp
      have hmem : e.dst ∈ s.br.portList.erase p := hsafe.entries e he
      exact (h.ports.mem_erase_iff.mp hmem).1 hp
  | delBr =>
      have hnone := hsafe.timer rfl
      simp only [step, delBr_eq] at hnone
      rw [Harmless, h.started, hnone]
      rfl
  | newNbp | frame | setPortSnooping | clearPortSnooping | enableSnooping | timer => trivial

def start (allocs : List Bool) (snooping : Nat) : Sys Port :=
  ⟨⟨[], [], fun _ => false, false, false, none, allocs⟩, true, snooping⟩

omit [DecidableEq Port] in
theorem start_inv (allocs : List Bool) (snooping : Nat) : Inv (start allocs snooping : Sys Port) :=
  ⟨⟨by simp [start], nofun⟩, List.nodup_nil, rfl⟩

/-- Snooping state does not outlive its port and its bridge exactly in the runs
that remove no port with entries and no bridge with a timer. -/
theorem snooping_lifetime_iff (allocs : List Bool) (snooping : Nat) {es : List (Event Port)}
    (hE : Along step Enabled (start allocs snooping) es) :
    Throughout step Safe (start allocs snooping) es ↔ Along step Harmless (start allocs snooping) es :=
  throughout_iff (I := Inv) (E := Enabled) (fun _ h => h.toSafe) (fun _ _ h hen hc => h.step hen hc)
    (fun _ _ h _ => harmless_of_safe h) (start_inv allocs snooping) hE

def demoEntry : Event Nat := .setPortSnooping 0 1 ⟨[0x01, 0x00, 0x5e, 1, 1, 1], [2, 0, 0, 0, 0, 1], snoopExAdd, 0⟩

theorem snooping_lifetime_iff_demo :
    Throughout step Safe (start [] 1) [.newNbp 1, demoEntry] ↔
      Along step Harmless (start [] 1) [.newNbp 1, demoEntry] :=
  snooping_lifetime_iff [] 1 ⟨⟨rfl, by simp [start]⟩, ⟨rfl, by simp [step, start]⟩, trivial⟩

theorem snooping_outlives :
    (Along step Enabled (start [] 1) [.newNbp 1, demoEntry, .delNbp 1] ∧
      ¬ Throughout step Safe (start [] 1) [.newNbp 1, demoEntry, .delNbp 1]) ∧
    Along step Enabled (start [] 1) [.newNbp 1, demoEntry, .delBr] ∧
      ¬ Throughout step Safe (start [] 1) [.newNbp 1, demoEntry, .delBr] := by
  refine ⟨⟨⟨⟨rfl, by decide⟩, ⟨rfl, by decide⟩, ⟨rfl, by decide⟩, trivial⟩, fun h => ?_⟩,
    ⟨⟨rfl, by decide⟩, ⟨rfl, by decide⟩, rfl, trivial⟩, fun h => ?_⟩
  · have hentries := h.2.2.2.entries ⟨1, [0x01, 0x00, 0x5e, 1, 1, 1], [2, 0, 0, 0, 0, 1], 0, .mcastExclude, 26000⟩
      (by decide)
    revert hentries
    decide
  · have htimer := h.2.2.2.timer rfl
    revert htimer
    decide

end AliceModem.PortLifetime
