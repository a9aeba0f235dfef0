import Mathlib.Data.List.Forall2
import AliceModem.Lib.RoundRobin

namespace AliceModem.Irq

open RoundRobin

def internalIsrTableOffset : Nat := 8

structure Perf where
  irqStatus : BitVec 32
  irqMask : BitVec 32

def Perf.pendingIrqs (perf : Perf) : BitVec 32 := perf.irqStatus &&& perf.irqMask

structure Position where
  irqBit : BitVec 32
  isrNumber : BitVec 32
deriving DecidableEq

def start : Position := ⟨0, 31⟩

def Position.advance (pos : Position) : Position :=
  if pos.isrNumber + 1 = 32 then ⟨1, 0⟩ else ⟨pos.irqBit <<< 1, pos.isrNumber + 1⟩

def dispatchLoop (pendingIrqs : BitVec 32) : Nat → Position → Option Position
  | 0, _ => none
  | fuel + 1, pos =>
    if pendingIrqs &&& pos.advance.irqBit ≠ 0 then some pos.advance else dispatchLoop pendingIrqs fuel pos.advance

structure Outcome where
  pos : Position
  perf : Perf
  /-- the arguments of the calls of `do_IRQ` -/
  irqs : List Nat

def irqDispatchInt (fuel : Nat) (perf : Perf) (pos : Position) : Option Outcome :=
  if perf.pendingIrqs = 0 then some ⟨pos, perf, []⟩
  else
    (dispatchLoop perf.pendingIrqs fuel pos).map fun pos =>
      ⟨pos, { perf with irqMask := perf.irqMask &&& ~~~ pos.irqBit }, [pos.isrNumber.toNat + internalIsrTableOffset]⟩

/-- The calls of `do_IRQ` by each call, where the registers are arbitrary each time. -/
def dispatches (fuel : Nat) : Position → List Perf → Option (List (List Nat))
  | _, [] => some []
  | pos, perf :: calls =>
    match irqDispatchInt fuel perf pos with
    | none => none
    | some out => (dispatches fuel out.pos calls).map (out.irqs :: ·)

def DispatchesOne (perf : Perf) (irqs : List Nat) : Prop :=
  perf.pendingIrqs ≠ 0 →
    ∃ line < 32, perf.pendingIrqs.getLsbD line = true ∧ irqs = [line + internalIsrTableOffset]

/-- Of the calls that find an interrupt, no 32 in a row pass over a line that all of them find. -/
def PassesNone (calls : List Perf) (irqs : List (List Nat)) : Prop :=
  ∀ before window behind, calls = before ++ window ++ behind → ∀ line < 32,
    (∀ perf ∈ window, perf.pendingIrqs ≠ 0 → perf.pendingIrqs.getLsbD line = true) →
    32 ≤ window.countP (·.pendingIrqs ≠ 0) →
    [line + internalIsrTableOffset] ∈ (irqs.drop before.length).take window.length

section Loop

def Position.line (pos : Position) : Nat := pos.isrNumber.toNat

/-- The bit is the one of the number, unless it is set to 1 before it is used. -/
structure Proper (pos : Position) : Prop where
  lt : pos.line < 32
  bit : pos.line ≠ 31 → pos.irqBit = BitVec.twoPow 32 pos.line

theorem start_proper : Proper start := ⟨by decide, fun h => absurd rfl h⟩

variable {pos : Position} {pendingIrqs : BitVec 32}

theorem advance_cases (h : Proper pos) :
    (pos.line + 1 = 32 ∧ pos.advance = ⟨1, 0⟩) ∨
    (pos.line + 1 ≠ 32 ∧ pos.advance = ⟨pos.irqBit <<< 1, pos.isrNumber + 1⟩ ∧ pos.advance.line = pos.line + 1) := by
  have hlt : pos.isrNumber.toNat < 32 := h.lt
  by_cases hlast : pos.isrNumber + 1 = 32
  · have hline : pos.isrNumber.toNat + 1 = 32 := by bv_omega
    exact .inl ⟨hline, if_pos hlast⟩
  · have hadvance : pos.advance = ⟨pos.irqBit <<< 1, pos.isrNumber + 1⟩ := if_neg hlast
    have hline : pos.isrNumber.toNat + 1 ≠ 32 := by bv_omega
    have hnext : (pos.isrNumber + 1).toNat = pos.isrNumber.toNat + 1 := by bv_omega
    refine .inr ⟨hline, hadvance, ?_⟩
    rw [hadvance]
    exact hnext

theorem advance_line (h : Proper pos) : pos.advance.line = after 32 pos.line := by
  rcases advance_cases h with ⟨hlast, hadvance⟩ | ⟨hlast, -, hline⟩
  · rw [after, if_pos hlast, hadvance]
    rfl
  · rw [after, if_neg hlast, hline]

theorem advance_irqBit (h : Proper pos) : pos.advance.irqBit = BitVec.twoPow 32 pos.advance.line := by
  rcases advance_cases h with ⟨hlast, hadvance⟩ | ⟨hlast, hadvance, hline⟩
  · rw [hadvance]
    rfl
  · rw [hline, hadvance, h.bit (by omega), BitVec.twoPow, BitVec.twoPow, BitVec.shiftLeft_add]

theorem Proper.advance (h : Proper pos) : Proper pos.advance := by
  refine ⟨?_, fun _ => advance_irqBit h⟩
  rw [advance_line h]
  exact after_lt h.lt

theorem and_irqBit_ne_zero_iff (h : Proper pos) :
    pendingIrqs &&& pos.advance.irqBit ≠ 0 ↔ pendingIrqs.getLsbD pos.advance.line = true := by
  rw [advance_irqBit h, BitVec.and_twoPow]
  cases pendingIrqs.getLsbD pos.advance.line with
  | false => simp
  | true =>
      have hbit : (BitVec.twoPow 32 pos.advance.line).getLsbD pos.advance.line = true := by
        rw [BitVec.getLsbD_twoPow]
        simp [h.advance.lt]
      refine iff_of_true (fun hzero => ?_) rfl
      rw [if_pos rfl] at hzero
      rw [hzero] at hbit
      simp at hbit

theorem exists_line (h : pendingIrqs ≠ 0) : ∃ line < 32, pendingIrqs.getLsbD line = true := by
  by_contra hnone
  push Not at hnone
  apply h
  refine BitVec.eq_of_getLsbD_eq fun i hi => ?_
  rw [eq_false_of_ne_true (hnone i hi)]
  exact BitVec.getLsbD_zero.symm

theorem dispatchLoop_next {fuel line : Nat} (h : Proper pos) (hline : line < 32)
    (hset : pendingIrqs.getLsbD line = true) (hfuel : passed 32 pos.line line < fuel) :
    ∃ pos', dispatchLoop pendingIrqs fuel pos = some pos' ∧ Proper pos' ∧
      Next 32 (fun line => pendingIrqs.getLsbD line = true) pos.line pos'.line := by
  induction fuel generalizing pos with
  | zero => omega
  | succ fuel ih =>
      rw [dispatchLoop]
      by_cases hhere : pendingIrqs &&& pos.advance.irqBit ≠ 0
      · rw [if_pos hhere]
        refine ⟨pos.advance, rfl, h.advance, ?_⟩
        rw [advance_line h]
        apply Next.here h.lt
        rw [← advance_line h]
        exact (and_irqBit_ne_zero_iff h).mp hhere
      · rw [if_neg hhere]
        have hskip : ¬ pendingIrqs.getLsbD (after 32 pos.line) = true := by
          rw [← advance_line h]
          exact mt (and_irqBit_ne_zero_iff h).mpr hhere
        have hne : line ≠ after 32 pos.line := by
          rintro rfl
          exact hskip hset
        rw [passed_succ h.lt hline hne, ← advance_line h] at hfuel
        obtain ⟨pos', hloop, hproper, hnext⟩ := ih h.advance (by omega)
        rw [advance_line h] at hnext
        exact ⟨pos', hloop, hproper, hnext.further h.lt hskip⟩

end Loop

section Run

variable {pos : Position} {perf : Perf} {out : Outcome} {calls : List Perf} {irqs : List (List Nat)}

def Turn (perf : Perf) (pos : Position) (out : Outcome) : Prop :=
  (perf.pendingIrqs = 0 ∧ out.pos = pos ∧ out.irqs = []) ∨
  (perf.pendingIrqs ≠ 0 ∧ out.irqs = [out.pos.line + internalIsrTableOffset] ∧
    Next 32 (fun line => perf.pendingIrqs.getLsbD line = true) pos.line out.pos.line)

theorem irqDispatchInt_turn (h : Proper pos) (perf : Perf) :
    ∃ out, irqDispatchInt 32 perf pos = some out ∧ Proper out.pos ∧ Turn perf pos out := by
  by_cases hnone : perf.pendingIrqs = 0
  · exact ⟨⟨pos, perf, []⟩, if_pos hnone, h, .inl ⟨hnone, rfl, rfl⟩⟩
  · obtain ⟨line, hline, hset⟩ := exists_line hnone
    obtain ⟨pos', hloop, hproper, hnext⟩ := dispatchLoop_next h hline hset (passed_lt hline)
    rw [irqDispatchInt, if_neg hnone, hloop]
    exact ⟨_, rfl, hproper, .inr ⟨hnone, rfl, hnext⟩⟩

theorem Turn.dispatchesOne (h : Turn perf pos out) : DispatchesOne perf out.irqs := by
  intro hsome
  rcases h with ⟨hnone, -⟩ | ⟨-, hirqs, hnext⟩
  · exact absurd hnone hsome
  · exact ⟨out.pos.line, hnext.lt, hnext.mem, hirqs⟩

theorem dispatches_cons (h : Proper pos) (hall : dispatches 32 pos (perf :: calls) = some irqs) :
    ∃ out rest, irqs = out.irqs :: rest ∧ dispatches 32 out.pos calls = some rest ∧ Proper out.pos ∧
      Turn perf pos out := by
  obtain ⟨out, hcall, hproper, hturn⟩ := irqDispatchInt_turn h perf
  rw [dispatches, hcall] at hall
  obtain ⟨rest, hrest, rfl⟩ := Option.map_eq_some_iff.mp hall
  exact ⟨out, rest, rfl, hrest, hproper, hturn⟩

theorem dispatches_returns (h : Proper pos) (calls : List Perf) :
    ∃ irqs, dispatches 32 pos calls = some irqs ∧ List.Forall₂ DispatchesOne calls irqs := by
  induction calls generalizing pos with
  | nil => exact ⟨[], rfl, .nil⟩
  | cons perf calls ih =>
      obtain ⟨out, hcall, hproper, hturn⟩ := irqDispatchInt_turn h perf
      obtain ⟨irqs, hrest, hone⟩ := ih hproper
      refine ⟨out.irqs :: irqs, ?_, .cons hturn.dispatchesOne hone⟩
      rw [dispatches, hcall]
      exact Option.map_eq_some_iff.mpr ⟨irqs, hrest, rfl⟩

theorem dispatches_append {before : List Perf} (h : Proper pos)
    (hall : dispatches 32 pos (before ++ calls) = some irqs) :
    ∃ pos', Proper pos' ∧ dispatches 32 pos' calls = some (irqs.drop before.length) := by
  induction before generalizing pos irqs with
  | nil => exact ⟨pos, h, hall⟩
  | cons perf before ih =>
      obtain ⟨out, rest, rfl, hrest, hproper, -⟩ := dispatches_cons h hall
      exact ih hproper hrest

theorem waiting_dispatched {window : List Perf} {line : Nat} (h : Proper pos) (hline : line < 32)
    (hall : dispatches 32 pos (window ++ calls) = some irqs)
    (hwaits : ∀ perf ∈ window, perf.pendingIrqs ≠ 0 → perf.pendingIrqs.getLsbD line = true)
    (hcount : passed 32 pos.line line < window.countP (·.pendingIrqs ≠ 0)) :
    [line + internalIsrTableOffset] ∈ irqs.take window.length := by
  induction window generalizing pos irqs with
  | nil => cases hcount
  | cons perf window ih =>
      obtain ⟨hfirst, hwaits⟩ := List.forall_mem_cons.mp hwaits
      obtain ⟨out, rest, rfl, hrest, hproper, hturn⟩ := dispatches_cons h hall
      rw [List.length_cons, List.take_succ_cons]
      rcases hturn with ⟨hnone, hpos, -⟩ | ⟨hsome, hirqs, hnext⟩
      · rw [List.countP_cons_of_neg (by simpa using hnone), ← hpos] at hcount
        exact List.mem_cons_of_mem _ (ih hproper hrest hwaits hcount)
      · rw [List.countP_cons_of_pos (by simpa using hsome)] at hcount
        by_cases hthis : out.pos.line = line
        · rw [hirqs, hthis]
          exact List.mem_cons_self
        · have hcloser := hnext.closer h.lt hline (hfirst hsome) hthis
          exact List.mem_cons_of_mem _ (ih hproper hrest hwaits (by omega))

end Run

/-- Every call returns within 32 rounds of its loop. -/
theorem dispatch_is_fair (calls : List Perf) :
    ∃ irqs, dispatches 32 start calls = some irqs ∧ List.Forall₂ DispatchesOne calls irqs ∧ PassesNone calls irqs := by
  obtain ⟨irqs, hall, hone⟩ := dispatches_returns start_proper calls
  refine ⟨irqs, hall, hone, ?_⟩
  rintro before window behind rfl line hline hwaits hcount
  rw [List.append_assoc] at hall
  obtain ⟨pos, hproper, hrest⟩ := dispatches_append start_proper hall
  exact waiting_dispatched hproper hline hrest hwaits (Nat.lt_of_lt_of_le (passed_lt hline) hcount)

end AliceModem.Irq
