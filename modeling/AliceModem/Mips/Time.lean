import Mathlib.Order.Basic
import AliceModem.Lib.Transition

namespace AliceModem.Time

open Transition

structure Clock where
  r4kInterval : UInt32
  r4kCur : UInt32
  compare : UInt32
  jiffies : UInt32
  timerhi : UInt32
  timerlo : UInt32

def doTimer (clock : Clock) : Clock := { clock with jiffies := clock.jiffies + 1 }

def ackR4ktimer (clock : Clock) (newval : UInt32) : Clock := { clock with compare := newval }

def tick (clock : Clock) : Clock :=
  let clock := doTimer clock
  let clock := { clock with r4kCur := clock.r4kCur + clock.r4kInterval }
  ackR4ktimer clock clock.r4kCur

structure Outcome where
  clock : Clock
  /-- the last value read from the counter, if any -/
  count : Option UInt32
  /-- the number of calls of `do_timer` -/
  calls : Nat
  handled : Bool

/-- The loop from its `k`-th read of the counter on. -/
def timerLoop (reads : Nat → UInt32) : Nat → Nat → Clock → Option (Clock × Nat)
  | 0, _, _ => none
  | fuel + 1, k, clock =>
    if reads k - (tick clock).r4kCur < 0x7fffffff then timerLoop reads fuel (k + 1) (tick clock)
    else some (tick clock, k)

def keepCount (clock : Clock) (count : UInt32) : Clock :=
  if clock.jiffies = 0 then { clock with timerhi := 0, timerlo := 0 }
  else { clock with timerhi := clock.timerhi + (if count < clock.timerlo then 1 else 0), timerlo := count }

def brcmTimerInterrupt (fuel : Nat) (reads : Nat → UInt32) (clock : Clock) : Option Outcome :=
  if clock.r4kInterval = 0 then some ⟨ackR4ktimer clock 0, none, 0, false⟩
  else (timerLoop reads fuel 0 clock).map fun r => ⟨keepCount r.1 (reads r.2), some (reads r.2), r.2 + 1, true⟩

def brcmTimerSetup (count : UInt32) (clock : Clock) : Clock :=
  let clock := { clock with r4kCur := count + clock.r4kInterval }
  { clock with compare := clock.r4kCur }

structure Invocation where
  entry : Nat
  reads : Nat → Nat
  entry_le : entry ≤ reads 0
  mono : ∀ k, reads k ≤ reads (k + 1)

def Invocation.counts (inv : Invocation) (k : Nat) : UInt32 := .ofNat (inv.reads k)

/-- The clock, the counter at the setup and at the last read, the compare value, and the calls of `do_timer`; the
counter and the compare value are not reduced modulo 2^32. -/
structure Sys where
  clock : Clock
  setupRead : Nat
  lastRead : Nat
  compare : Nat
  ticks : Nat

def Sys.interval (s : Sys) : Nat := s.clock.r4kInterval.toNat

def setup (count : Nat) (clock : Clock) : Sys :=
  ⟨brcmTimerSetup (.ofNat count) clock, count, count, count + clock.r4kInterval.toNat, 0⟩

def Sys.next (s : Sys) (inv : Invocation) (out : Outcome) : Sys where
  clock := out.clock
  setupRead := s.setupRead
  lastRead := if out.calls = 0 then s.lastRead else inv.reads (out.calls - 1)
  compare := s.compare + out.calls * s.interval
  ticks := s.ticks + out.calls

def Init (s : Sys) : Prop :=
  ∃ count clock, 0 < clock.r4kInterval.toNat ∧ clock.r4kInterval.toNat < 1073741824 ∧ s = setup count clock

/-- The handler is entered at the compare value or less than 2^31 - 1 cycles later, and between two of its reads the
counter advances by less than an interval. -/
def Entered (s : Sys) (inv : Invocation) : Prop :=
  s.compare ≤ inv.entry ∧ inv.entry < s.compare + 2147483647 ∧
    ∀ k, inv.reads (k + 1) < inv.reads k + s.interval

/-- The handler gets to its first read less than 2^31 - 1 cycles after the compare value that it sets. -/
def Prompt (s : Sys) (inv : Invocation) : Prop := inv.reads 0 < s.compare + s.interval + 2147483647

def Step (C : Sys → Invocation → Prop) (s s' : Sys) : Prop :=
  ∃ inv fuel out, C s inv ∧ brcmTimerInterrupt fuel inv.counts s.clock = some out ∧ s' = s.next inv out

/-- The compare value is ahead of the last read by at most an interval, and every whole interval has its tick. -/
structure OnTime (s : Sys) : Prop where
  ahead : 0 < (s.clock.r4kCur - .ofNat s.lastRead).toNat
  near : (s.clock.r4kCur - .ofNat s.lastRead).toNat ≤ s.interval
  ticks : s.ticks = (s.lastRead - s.setupRead) / s.interval

def Returns (s : Sys) (inv : Invocation) : Prop := ∃ fuel out, brcmTimerInterrupt fuel inv.counts s.clock = some out

section Loop

variable {clock clock' : Clock} {inv : Invocation} {cur k n fuel : Nat}

/-- What the loop has before its `k`-th read, where the compare value is `cur`. -/
structure Late (clock : Clock) (inv : Invocation) (cur k : Nat) : Prop where
  word : clock.r4kCur = .ofNat cur
  lt : clock.r4kInterval.toNat < 1073741824
  le : cur ≤ inv.reads k
  near : inv.reads k < cur + clock.r4kInterval.toNat + 2147483647
  slow : ∀ k, inv.reads (k + 1) < inv.reads k + clock.r4kInterval.toNat

theorem Late.tick_word (h : Late clock inv cur k) : (tick clock).r4kCur = .ofNat (cur + clock.r4kInterval.toNat) := by
  rw [UInt32.ofNat_add, UInt32.ofNat_toNat, ← h.word]
  rfl

theorem Late.again_iff (h : Late clock inv cur k) :
    inv.counts k - (tick clock).r4kCur < 0x7fffffff ↔ cur + clock.r4kInterval.toNat ≤ inv.reads k := by
  have hlt := h.lt
  have hle := h.le
  have hnear := h.near
  rw [h.tick_word, Invocation.counts, UInt32.lt_iff_toNat_lt, UInt32.toNat_sub, UInt32.toNat_ofNat', UInt32.toNat_ofNat']
  have hlimit : (0x7fffffff : UInt32).toNat = 2147483647 := rfl
  rw [hlimit]
  omega

theorem Late.tick (h : Late clock inv cur k) (hagain : cur + clock.r4kInterval.toNat ≤ inv.reads k) :
    Late (tick clock) inv (cur + clock.r4kInterval.toNat) (k + 1) := by
  have hslow := h.slow k
  have hnear := h.near
  have hsame : (Time.tick clock).r4kInterval = clock.r4kInterval := rfl
  refine ⟨h.tick_word, h.lt, Nat.le_trans hagain (inv.mono k), ?_, h.slow⟩
  rw [hsame]
  omega

theorem timerLoop_result (h : Late clock inv cur k) (hloop : timerLoop inv.counts fuel k clock = some (clock', n)) :
    ∃ j, n = k + j ∧ clock'.r4kInterval = clock.r4kInterval ∧
      clock'.r4kCur = .ofNat (cur + (j + 1) * clock.r4kInterval.toNat) ∧
      inv.reads n < cur + (j + 1) * clock.r4kInterval.toNat ∧
      cur + j * clock.r4kInterval.toNat ≤ inv.reads n := by
  induction fuel generalizing clock cur k with
  | zero => cases hloop
  | succ fuel ih =>
      rw [timerLoop] at hloop
      by_cases hagain : cur + clock.r4kInterval.toNat ≤ inv.reads k
      · rw [if_pos (h.again_iff.mpr hagain)] at hloop
        obtain ⟨j, rfl, hinterval, hword, hahead, hnear⟩ := ih (h.tick hagain) hloop
        have hsame : (tick clock).r4kInterval = clock.r4kInterval := rfl
        rw [hsame] at hinterval hword hahead hnear
        have hmul (i : Nat) : cur + (i + 1) * clock.r4kInterval.toNat =
            cur + clock.r4kInterval.toNat + i * clock.r4kInterval.toNat := by
          rw [Nat.succ_mul]
          omega
        refine ⟨j + 1, by omega, hinterval, ?_, ?_, ?_⟩
        · rw [hmul (j + 1)]
          exact hword
        · rw [hmul (j + 1)]
          exact hahead
        · rw [hmul j]
          exact hnear
      · rw [if_neg (mt h.again_iff.mp hagain)] at hloop
        obtain ⟨rfl, rfl⟩ := Prod.mk.inj (Option.some.inj hloop)
        refine ⟨0, rfl, rfl, ?_, ?_, ?_⟩
        · rw [Nat.zero_add, Nat.one_mul]
          exact h.tick_word
        · omega
        · rw [Nat.zero_mul]
          exact h.le

theorem timerLoop_returns {m : Nat} (h : Late clock inv cur k) (hm : inv.reads k < cur + m) :
    ∃ fuel r, timerLoop inv.counts fuel k clock = some r := by
  induction m generalizing clock cur k with
  | zero =>
      have hle := h.le
      omega
  | succ m ih =>
      by_cases hagain : cur + clock.r4kInterval.toNat ≤ inv.reads k
      · have hslow := h.slow k
        obtain ⟨fuel, r, hloop⟩ := ih (h.tick hagain) (by omega)
        refine ⟨fuel + 1, r, ?_⟩
        rw [timerLoop, if_pos (h.again_iff.mpr hagain), hloop]
      · refine ⟨1, (tick clock, k), ?_⟩
        rw [timerLoop, if_neg (mt h.again_iff.mp hagain)]

end Loop

section Run

variable {s s' : Sys} {inv : Invocation}

structure Inv (s : Sys) : Prop where
  pos : 0 < s.interval
  lt : s.interval < 1073741824
  word : s.clock.r4kCur = .ofNat s.compare
  ahead : s.lastRead < s.compare
  near : s.compare ≤ s.lastRead + s.interval
  ticks : s.compare = s.setupRead + (s.ticks + 1) * s.interval

theorem Inv.of_init (h : Init s) : Inv s := by
  obtain ⟨count, clock, hpos, hlt, rfl⟩ := h
  have hinterval : (setup count clock).interval = clock.r4kInterval.toNat := rfl
  refine ⟨hpos, hlt, ?_, Nat.lt_add_of_pos_right hpos, Nat.le_refl _, ?_⟩
  · have hword : (setup count clock).compare = count + clock.r4kInterval.toNat := rfl
    rw [hword, UInt32.ofNat_add, UInt32.ofNat_toNat]
    rfl
  · rw [hinterval]
    exact congrArg _ (Nat.one_mul _).symm

theorem Inv.late (h : Inv s) (hentered : Entered s inv) (hprompt : Prompt s inv) : Late s.clock inv s.compare 0 :=
  ⟨h.word, h.lt, Nat.le_trans hentered.1 inv.entry_le, hprompt, hentered.2.2⟩

theorem Inv.interval_ne_zero (h : Inv s) : s.clock.r4kInterval ≠ 0 := by
  intro hzero
  have hpos := h.pos
  rw [Sys.interval, hzero] at hpos
  cases hpos

theorem Inv.returns (h : Inv s) (hentered : Entered s inv) (hprompt : Prompt s inv) : Returns s inv := by
  have hlate := h.late hentered hprompt
  obtain ⟨fuel, r, hloop⟩ := timerLoop_returns (m := inv.reads 0 - s.compare + 1) hlate (by omega)
  refine ⟨fuel, ?_⟩
  rw [brcmTimerInterrupt, if_neg h.interval_ne_zero, hloop]
  exact ⟨_, rfl⟩

theorem keepCount_r4kCur (clock : Clock) (count : UInt32) : (keepCount clock count).r4kCur = clock.r4kCur := by
  unfold keepCount
  split_ifs <;> rfl

theorem keepCount_r4kInterval (clock : Clock) (count : UInt32) :
    (keepCount clock count).r4kInterval = clock.r4kInterval := by
  unfold keepCount
  split_ifs <;> rfl

theorem Inv.next {out : Outcome} {j : Nat} (h : Inv s) (hcalls : out.calls = j + 1)
    (hinterval : out.clock.r4kInterval = s.clock.r4kInterval)
    (hword : out.clock.r4kCur = .ofNat (s.compare + (j + 1) * s.interval))
    (hahead : inv.reads j < s.compare + (j + 1) * s.interval) (hnear : s.compare + j * s.interval ≤ inv.reads j) :
    Inv (s.next inv out) := by
  have hsame : (s.next inv out).interval = s.interval := congrArg UInt32.toNat hinterval
  have hlast : (s.next inv out).lastRead = inv.reads j := by
    simp only [Sys.next, hcalls, if_neg (Nat.succ_ne_zero j), Nat.add_sub_cancel]
  have hcompare : (s.next inv out).compare = s.compare + (j + 1) * s.interval := by
    simp only [Sys.next, hcalls]
  refine ⟨hsame ▸ h.pos, hsame ▸ h.lt, ?_, ?_, ?_, ?_⟩
  · rw [hcompare]
    exact hword
  · rw [hcompare, hlast]
    exact hahead
  · rw [hcompare, hlast, hsame, Nat.succ_mul]
    omega
  · have hticks : (s.next inv out).ticks = s.ticks + (j + 1) := congrArg _ hcalls
    have hsetup : (s.next inv out).setupRead = s.setupRead := rfl
    rw [hcompare, hticks, hsetup, hsame, h.ticks, Nat.add_right_comm s.ticks, Nat.add_mul (s.ticks + 1), Nat.add_assoc]

theorem Inv.step (h : Inv s) (hstep : Step (fun s inv => Entered s inv ∧ Prompt s inv) s s') : Inv s' := by
  obtain ⟨inv, fuel, out, ⟨hentered, hprompt⟩, hcall, rfl⟩ := hstep
  rw [brcmTimerInterrupt, if_neg h.interval_ne_zero] at hcall
  obtain ⟨⟨clock', n⟩, hloop, rfl⟩ := Option.map_eq_some_iff.mp hcall
  obtain ⟨j, hn, hinterval, hword, hahead, hnear⟩ := timerLoop_result (h.late hentered hprompt) hloop
  rw [Nat.zero_add] at hn
  subst hn
  exact h.next rfl ((keepCount_r4kInterval ..).trans hinterval) ((keepCount_r4kCur ..).trans hword) hahead hnear

theorem Inv.onTime (h : Inv s) : OnTime s := by
  have hpos := h.pos
  have hlt := h.lt
  have hahead := h.ahead
  have hnear := h.near
  have hdiff : (s.clock.r4kCur - .ofNat s.lastRead).toNat = s.compare - s.lastRead := by
    rw [h.word, UInt32.toNat_sub, UInt32.toNat_ofNat', UInt32.toNat_ofNat']
    omega
  refine ⟨by omega, by omega, ?_⟩
  have hticks := h.ticks
  rw [Nat.succ_mul] at hticks
  symm
  apply Nat.div_eq_of_lt_le
  · omega
  · rw [Nat.succ_mul]
    omega

end Run

theorem clock_keeps_time {s : Sys} (h : Reach Init (Step fun s inv => Entered s inv ∧ Prompt s inv) s) :
    OnTime s ∧ ∀ inv, Entered s inv → Prompt s inv → Returns s inv := by
  have hinv : Inv s := h.invariant (fun s => Inv.of_init) fun s s' hs hstep => hs.step hstep
  exact ⟨hinv.onTime, fun inv => hinv.returns⟩

section Demo

def demoClock : Clock := ⟨600000, 0, 0, 0, 0, 0⟩

def stopped (entry read : Nat) (h : entry ≤ read) : Invocation := ⟨entry, fun _ => read, h, fun _ => Nat.le_refl _⟩

def demoWrap : Invocation := stopped 4295567001 4296167100 (by decide)

def demoTwo : Outcome := ⟨⟨600000, 1799704, 1799704, 2, 0, 1199804⟩, some 1199804, 2, true⟩

theorem clock_keeps_time_wrap :
    OnTime ((setup 4294967000 demoClock).next demoWrap demoTwo) ∧
    ∀ inv, Entered ((setup 4294967000 demoClock).next demoWrap demoTwo) inv →
      Prompt ((setup 4294967000 demoClock).next demoWrap demoTwo) inv →
      Returns ((setup 4294967000 demoClock).next demoWrap demoTwo) inv := by
  have hinit : Init (setup 4294967000 demoClock) := ⟨4294967000, demoClock, by decide, by decide, rfl⟩
  have hentered : Entered (setup 4294967000 demoClock) demoWrap :=
    ⟨by decide, by decide, fun _ => Nat.lt_add_of_pos_right (by decide)⟩
  have hprompt : Prompt (setup 4294967000 demoClock) demoWrap := by
    unfold Prompt
    decide
  exact clock_keeps_time (.next (.start hinit) ⟨demoWrap, 2, demoTwo, ⟨hentered, hprompt⟩, rfl, rfl⟩)

def demoSlow : Invocation := stopped 600000 2148683647 (by decide)

def demoOne : Outcome := ⟨⟨600000, 1200000, 1200000, 1, 0, 2148683647⟩, some 2148683647, 1, true⟩

theorem late_read_loses_ticks : ∃ s, Reach Init (Step Entered) s ∧ ¬ OnTime s := by
  have hinit : Init (setup 0 demoClock) := ⟨0, demoClock, by decide, by decide, rfl⟩
  have hentered : Entered (setup 0 demoClock) demoSlow :=
    ⟨by decide, by decide, fun _ => Nat.lt_add_of_pos_right (by decide)⟩
  refine ⟨(setup 0 demoClock).next demoSlow demoOne,
    .next (.start hinit) ⟨demoSlow, 1, demoOne, hentered, rfl, rfl⟩, fun h => ?_⟩
  have hticks := h.ticks
  revert hticks
  decide

end Demo

end AliceModem.Time
