import AliceModem.Lib.Transition
import Mathlib.Data.BitVec
import Mathlib.Data.List.FinRange

namespace AliceModem.Led

open Transition

def maxVirtLeds : Nat := 15

def kFastBlinkCount : Int := 0

def kSlowBlinkCount : Int := 1

/-- The states of `BOARD_LED_STATE`, and any other number. -/
inductive LedState
  | off
  | on
  | fail
  | blinkOnce
  | slowBlinkContinues
  | fastBlinkContinues
  | other
  deriving DecidableEq

def LedState.continues : LedState → Bool
  | .slowBlinkContinues | .fastBlinkContinues => true
  | _ => false

def LedState.blinks : LedState → Bool
  | .blinkOnce | .slowBlinkContinues | .fastBlinkContinues => true
  | _ => false

/-- What drives one colour of an LED: `ledMask`, `ledActiveLow` and `ledSerial`, or
`ledMaskFail`, `ledActiveLowFail` and `ledSerialFail`. -/
structure Pin where
  mask : BitVec 32
  activeLow : Bool
  serial : Bool

structure LedMapPair where
  ledName : Nat
  ledInitState : LedState
  pin : Pin
  pinFail : Pin

structure LedInfo where
  pin : Pin
  pinFail : Pin
  ledState : LedState
  savedLedState : LedState
  blinkCountDown : Int

def LedInfo.zero : LedInfo := ⟨⟨0, false, false⟩, ⟨0, false, false⟩, .off, .off, 0⟩

/-- A call of a handler for the LED or, with `failure`, for its failure colour. -/
structure HwCall where
  failure : Bool
  ledName : Nat
  ledState : LedState

/-- The driver with `n` LEDs. -/
structure Sys (n : Nat) where
  gpioIo : BitVec 32
  gpioDir : BitVec 32
  led : Fin n → LedInfo
  gpVirtLeds : Nat → Option (Fin n)
  gLedHwFunc : Nat → Bool
  gLedHwFailFunc : Nat → Bool
  hwCalls : List HwCall
  gTimerOn : Bool
  gBlinkOnceTimerOn : Bool

variable {n : Nat}

namespace Sys

def setLed (s : Sys n) (i : Fin n) (l : LedInfo) : Sys n := { s with led := Function.update s.led i l }

def call (s : Sys n) (c : HwCall) : Sys n := { s with hwCalls := s.hwCalls ++ [c] }

def drive (s : Sys n) (p : Pin) (active : Bool) : Sys n :=
  if p.serial then s
  else
    { s with
      gpioDir := s.gpioDir ||| p.mask
      gpioIo := if active != p.activeLow then s.gpioIo ||| p.mask else s.gpioIo &&& ~~~p.mask }

def settle (s : Sys n) (i : Fin n) (p : Pin) (active : Bool) (state : LedState) : Sys n :=
  if p.mask ≠ 0 then
    (s.drive p active).setLed i { s.led i with ledState := state, savedLedState := state }
  else s

def ledOn (s : Sys n) (i : Fin n) : Sys n := s.settle i (s.led i).pin true .on

def ledOff (s : Sys n) (i : Fin n) : Sys n := s.settle i (s.led i).pin false .off

def ledOnFail (s : Sys n) (i : Fin n) : Sys n := s.settle i (s.led i).pinFail true .fail

def ledOffFail (s : Sys n) (i : Fin n) : Sys n := s.settle i (s.led i).pinFail false .off

def ledToggle (s : Sys n) (i : Fin n) : LedState × Sys n :=
  let p := (s.led i).pin
  if p.serial then (.off, s)
  else
    let s := { s with gpioDir := s.gpioDir ||| p.mask }
    if s.gpioIo &&& p.mask ≠ 0 then
      (if p.activeLow then .on else .off, { s with gpioIo := s.gpioIo &&& ~~~p.mask })
    else (if p.activeLow then .off else .on, { s with gpioIo := s.gpioIo ||| p.mask })

def blinkOnceTimerStart (s : Sys n) : Sys n := { s with gBlinkOnceTimerOn := true }

def blinkOnceTimerExpire (s : Sys n) : Sys n := { s with gBlinkOnceTimerOn := false }

def ledTimerStart (s : Sys n) : Sys n := { s with gTimerOn := true }

def setCountDown (s : Sys n) (i : Fin n) (c : Int) : Sys n := s.setLed i { s.led i with blinkCountDown := c }

def countDown (s : Sys n) (i : Fin n) (c : Int) : Sys n :=
  if (s.led i).blinkCountDown = 0 then ((s.setCountDown i c).ledToggle i).2
  else s.setCountDown i ((s.led i).blinkCountDown - 1)

def expireLed (s : Sys n) (i : Fin n) : Sys n :=
  match (s.led i).ledState with
  | .on | .off | .fail => s.setCountDown i 0
  | .blinkOnce =>
      let s := (s.blinkOnceTimerStart.ledToggle i).2
      let s := s.setLed i { s.led i with blinkCountDown := 0, ledState := (s.led i).savedLedState }
      if (s.led i).ledState.continues then s.ledTimerStart else s
  | .slowBlinkContinues => (s.countDown i kSlowBlinkCount).ledTimerStart
  | .fastBlinkContinues => (s.countDown i kFastBlinkCount).ledTimerStart
  | .other => s

def ledTimerExpire (s : Sys n) : Sys n :=
  (List.finRange n).foldl expireLed { s with gTimerOn := false }

/-- The switch of `boardLedCtrl`, for an LED that no handler takes care of. -/
def ctrlLed (s : Sys n) (ledName : Nat) (i : Fin n) : LedState → Sys n
  | .on =>
      let s :=
        if (s.led i).pinFail.mask ≠ 0 then s.ledOffFail i
        else if s.gLedHwFailFunc ledName then s.call ⟨true, ledName, .off⟩
        else s
      s.ledOn i
  | .off =>
      let s :=
        if (s.led i).pinFail.mask ≠ 0 then s.ledOffFail i
        else if s.gLedHwFailFunc ledName then s.call ⟨true, ledName, .off⟩
        else s
      s.ledOff i
  | .fail =>
      let s :=
        if (s.led i).pin.mask ≠ 0 then s.ledOff i
        else if s.gLedHwFunc ledName then s.call ⟨false, ledName, .off⟩
        else s
      s.ledOnFail i
  | .blinkOnce =>
      if (s.led i).savedLedState.continues then s
      else if (s.led i).blinkCountDown ≠ 0 ∨ s.gBlinkOnceTimerOn then s
      else
        let s := (s.ledToggle i).2
        (s.setLed i { s.led i with blinkCountDown := 1, ledState := .blinkOnce }).ledTimerStart
  | .slowBlinkContinues =>
      (s.setLed i { s.led i with
        blinkCountDown := kSlowBlinkCount
        ledState := .slowBlinkContinues
        savedLedState := .slowBlinkContinues }).ledTimerStart
  | .fastBlinkContinues =>
      (s.setLed i { s.led i with
        blinkCountDown := kFastBlinkCount
        ledState := .fastBlinkContinues
        savedLedState := .fastBlinkContinues }).ledTimerStart
  | .other => s

def ledInfoPtr (s : Sys n) (ledName : Nat) : Option (Fin n) :=
  if ledName < maxVirtLeds then s.gpVirtLeds ledName else none

def boardLedCtrl (s : Sys n) (ledName : Nat) (ledState : LedState) : Sys n :=
  -- unlike `gpVirtLeds`, the two tables of 15 handlers are read without a check, so behind them for larger names
  if ledState ≠ .fail ∧ s.gLedHwFunc ledName then
    let s :=
      if s.gLedHwFailFunc ledName then s.call ⟨true, ledName, .off⟩
      else match s.ledInfoPtr ledName with
        | some i => s.ledOffFail i
        | none => s
    s.call ⟨false, ledName, ledState⟩
  else if ledState = .fail ∧ s.gLedHwFailFunc ledName then
    let s :=
      if s.gLedHwFunc ledName then s.call ⟨false, ledName, .off⟩
      else match s.ledInfoPtr ledName with
        | some i => s.ledOff i
        | none => s
    s.call ⟨true, ledName, ledState⟩
  else match s.ledInfoPtr ledName with
    | none => s
    | some i =>
        -- without a failure LED it blinks
        s.ctrlLed ledName i
          (if ledState = .fail ∧ (s.led i).pinFail.mask = 0 then .slowBlinkContinues else ledState)

def initLedInfo (s : Sys n) (p : LedMapPair) (i : Fin n) : Bool × Sys n :=
  let s := s.setLed i
    { s.led i with pin := p.pin, pinFail := p.pinFail, ledState := p.ledInitState, savedLedState := p.ledInitState }
  match p.ledInitState with
  | .on => (false, (s.setCountDown i 0).ledOn i)
  | .off => (false, (s.setCountDown i 0).ledOff i)
  | .fail => (false, (s.setCountDown i 0).ledOnFail i)
  | .blinkOnce => (true, s.setCountDown i 1)
  | .slowBlinkContinues => (true, s.setCountDown i kSlowBlinkCount)
  | .fastBlinkContinues => (true, s.setCountDown i kFastBlinkCount)
  | .other => (false, s)

end Sys

def samePin (pin pinFail pin' pinFail' : Pin) : Bool :=
  pin.mask != 0 && pin.mask == pin'.mask || pinFail.mask != 0 && pinFail.mask == pinFail'.mask

def alreadyUsed (before : List LedMapPair) (p1 : LedMapPair) : Bool :=
  before.any fun p2 => samePin p1.pin p1.pinFail p2.pin p2.pinFail

/-- The entries of a table, given those in front of it, that have an LED of their own. -/
def physical (before : List LedMapPair) : List LedMapPair → List LedMapPair
  | [] => []
  | p :: ps => if alreadyUsed before p then physical (before ++ [p]) ps else p :: physical (before ++ [p]) ps

def gLedCount (table : List LedMapPair) : Nat := (physical [] table).length

structure Init (n : Nat) where
  sys : Sys n
  pCurLed : Nat
  needTimer : Bool

namespace Init

/-- An entry that has an LED of its own. The timer is needed if the last of them
needs it. -/
def first (t : Init n) (p : LedMapPair) : Init n :=
  if h : t.pCurLed < n then
    let r := t.sys.initLedInfo p ⟨t.pCurLed, h⟩
    ⟨{ r.2 with gpVirtLeds := Function.update r.2.gpVirtLeds p.ledName (some ⟨t.pCurLed, h⟩) }, t.pCurLed + 1, r.1⟩
  else t

def shared (t : Init n) (p : LedMapPair) : Init n :=
  let same (i : Fin n) : Bool :=
    decide (i.val < t.pCurLed) && samePin (t.sys.led i).pin (t.sys.led i).pinFail p.pin p.pinFail
  match (List.finRange n).find? same with
  | none => t
  | some i =>
      let l := t.sys.led i
      let l := if p.pin.mask ≠ 0 then { l with pin := p.pin } else l
      let l := if p.pinFail.mask ≠ 0 then { l with pinFail := p.pinFail } else l
      { t with
        sys := { t.sys.setLed i l with gpVirtLeds := Function.update t.sys.gpVirtLeds p.ledName (some i) } }

def loop (before : List LedMapPair) : List LedMapPair → Init n → Init n
  | [], t => t
  | p :: ps, t =>
      loop (before ++ [p]) ps
        (if maxVirtLeds < p.ledName then t else if alreadyUsed before p then t.shared p else t.first p)

end Init

def cleared (n : Nat) (gpioIo gpioDir : BitVec 32) : Sys n :=
  ⟨gpioIo, gpioDir, fun _ => .zero, fun _ => none, fun _ => false, fun _ => false, [], false, false⟩

def boardLedInit (table : List LedMapPair) (memory : Bool) (gpioIo gpioDir : BitVec 32) : Sys (gLedCount table) :=
  if memory then
    let t := Init.loop [] table ⟨cleared _ gpioIo gpioDir, 0, false⟩
    if t.needTimer then t.sys.ledTimerStart else t.sys
  else cleared _ gpioIo gpioDir

inductive Event
  | ctrl (ledName : Nat) (ledState : LedState)
  | ledTimer
  | blinkOnceTimer

def step (s : Sys n) : Event → Sys n
  | .ctrl ledName ledState => s.boardLedCtrl ledName ledState
  | .ledTimer => s.ledTimerExpire
  | .blinkOnceTimer => s.blinkOnceTimerExpire

/-- A timer that is not pending does not expire. -/
def Enabled (s : Sys n) : Event → Prop
  | .ctrl _ _ => True
  | .ledTimer => s.gTimerOn = true
  | .blinkOnceTimer => s.gBlinkOnceTimerOn = true

instance (s : Sys n) : (e : Event) → Decidable (Enabled s e)
  | .ctrl _ _ => inferInstanceAs (Decidable True)
  | .ledTimer => inferInstanceAs (Decidable (s.gTimerOn = true))
  | .blinkOnceTimer => inferInstanceAs (Decidable (s.gBlinkOnceTimerOn = true))

structure Kept (s : Sys n) : Prop where
  pending : ∀ i, (s.led i).ledState.blinks = true → s.gTimerOn = true
  count : ∀ i, (s.led i).blinkCountDown = 0 ∨ (s.led i).blinkCountDown = 1

/-- A single blink ends with the expiration of the timer. -/
def Ends (s : Sys n) (e : Event) : Prop :=
  e = .ledTimer → ∀ i, (s.led i).ledState = .blinkOnce → ((step s e).led i).ledState ≠ .blinkOnce

section Expire

def LedInfo.expire (l : LedInfo) : LedInfo :=
  match l.ledState with
  | .on | .off | .fail => { l with blinkCountDown := 0 }
  | .blinkOnce => { l with blinkCountDown := 0, ledState := l.savedLedState }
  | .slowBlinkContinues =>
      { l with blinkCountDown := if l.blinkCountDown = 0 then kSlowBlinkCount else l.blinkCountDown - 1 }
  | .fastBlinkContinues =>
      { l with blinkCountDown := if l.blinkCountDown = 0 then kFastBlinkCount else l.blinkCountDown - 1 }
  | .other => l

def LedInfo.toggles (l : LedInfo) : Bool :=
  match l.ledState with
  | .blinkOnce => true
  | .slowBlinkContinues | .fastBlinkContinues => l.blinkCountDown == 0
  | _ => false

def LedInfo.restarts (l : LedInfo) : Bool :=
  match l.ledState with
  | .blinkOnce => l.savedLedState.continues
  | .slowBlinkContinues | .fastBlinkContinues => true
  | _ => false

def Pin.toggled (p : Pin) (io : BitVec 32) : BitVec 32 :=
  if p.serial then io else if io &&& p.mask ≠ 0 then io &&& ~~~p.mask else io ||| p.mask

variable (s : Sys n) (i : Fin n)

theorem ledToggle_eq : ∃ dir, (s.ledToggle i).2 = { s with gpioDir := dir, gpioIo := (s.led i).pin.toggled s.gpioIo } := by
  rw [Sys.ledToggle]
  dsimp only
  split
  case isTrue hserial =>
    refine ⟨s.gpioDir, ?_⟩
    rw [Pin.toggled, if_pos hserial]
  case isFalse hserial =>
    refine ⟨s.gpioDir ||| (s.led i).pin.mask, ?_⟩
    rw [Pin.toggled, if_neg hserial]
    split
    · rfl
    · rfl

theorem countDown_eq (c : Int) : ∃ dir, s.countDown i c =
    { s with
      gpioDir := dir
      gpioIo := if (s.led i).blinkCountDown = 0 then (s.led i).pin.toggled s.gpioIo else s.gpioIo
      led := Function.update s.led i { s.led i with
        blinkCountDown := if (s.led i).blinkCountDown = 0 then c else (s.led i).blinkCountDown - 1 } } := by
  rw [Sys.countDown]
  split
  · obtain ⟨dir, h⟩ := ledToggle_eq (s.setCountDown i c) i
    refine ⟨dir, h.trans ?_⟩
    simp only [Sys.setCountDown, Sys.setLed, Function.update_self]
  · exact ⟨s.gpioDir, rfl⟩

theorem expireLed_eq : ∃ dir, s.expireLed i =
    { s with
      gpioDir := dir
      gpioIo := if (s.led i).toggles then (s.led i).pin.toggled s.gpioIo else s.gpioIo
      led := Function.update s.led i (s.led i).expire
      gTimerOn := s.gTimerOn || (s.led i).restarts
      gBlinkOnceTimerOn := s.gBlinkOnceTimerOn || decide ((s.led i).ledState = .blinkOnce) } := by
  rw [Sys.expireLed]
  cases hstate : (s.led i).ledState with
  | on | off | fail =>
      refine ⟨s.gpioDir, ?_⟩
      simp [LedInfo.toggles, LedInfo.expire, LedInfo.restarts, hstate, Sys.setCountDown, Sys.setLed]
  | other =>
      refine ⟨s.gpioDir, ?_⟩
      simp [LedInfo.toggles, LedInfo.expire, LedInfo.restarts, hstate]
  | blinkOnce =>
      obtain ⟨dir, h⟩ := ledToggle_eq s.blinkOnceTimerStart i
      refine ⟨dir, ?_⟩
      dsimp only
      rw [h]
      cases hsaved : (s.led i).savedLedState.continues <;>
        simp [LedInfo.toggles, LedInfo.expire, LedInfo.restarts, hstate, hsaved, Sys.setLed, Sys.blinkOnceTimerStart,
          Sys.ledTimerStart]
  | slowBlinkContinues =>
      obtain ⟨dir, h⟩ := countDown_eq s i kSlowBlinkCount
      refine ⟨dir, ?_⟩
      dsimp only
      rw [h]
      simp [LedInfo.toggles, LedInfo.expire, LedInfo.restarts, hstate, Sys.ledTimerStart]
  | fastBlinkContinues =>
      obtain ⟨dir, h⟩ := countDown_eq s i kFastBlinkCount
      refine ⟨dir, ?_⟩
      dsimp only
      rw [h]
      simp [LedInfo.toggles, LedInfo.expire, LedInfo.restarts, hstate, Sys.ledTimerStart]

theorem expireAll_led {is : List (Fin n)} (hnodup : is.Nodup) (j : Fin n) :
    (is.foldl Sys.expireLed s).led j = if j ∈ is then (s.led j).expire else s.led j := by
  induction is generalizing s with
  | nil => rfl
  | cons i is ih =>
      obtain ⟨hi, his⟩ := List.nodup_cons.mp hnodup
      obtain ⟨dir, h⟩ := expireLed_eq s i
      rw [List.foldl_cons, ih (s.expireLed i) his, h]
      dsimp only
      by_cases hj : j = i
      · rw [hj, if_neg hi, if_pos List.mem_cons_self, Function.update_self]
      · rw [Function.update_of_ne hj]
        simp only [List.mem_cons, hj, false_or]

theorem expireAll_timer {is : List (Fin n)} (hnodup : is.Nodup) :
    (is.foldl Sys.expireLed s).gTimerOn = true ↔ s.gTimerOn = true ∨ ∃ j ∈ is, (s.led j).restarts = true := by
  induction is generalizing s with
  | nil => simp
  | cons i is ih =>
      obtain ⟨hi, his⟩ := List.nodup_cons.mp hnodup
      obtain ⟨dir, h⟩ := expireLed_eq s i
      have hrest : (∃ j ∈ is, ((s.expireLed i).led j).restarts = true) ↔ ∃ j ∈ is, (s.led j).restarts = true := by
        refine exists_congr fun j => and_congr_right fun hj => ?_
        have hne : j ≠ i := fun heq => hi (heq ▸ hj)
        rw [h]
        dsimp only
        rw [Function.update_of_ne hne]
      rw [List.foldl_cons, ih (s.expireLed i) his, hrest, h]
      simp only [Bool.or_eq_true, List.mem_cons, exists_eq_or_imp, or_assoc]

theorem ledTimerExpire_led (j : Fin n) : s.ledTimerExpire.led j = (s.led j).expire := by
  rw [Sys.ledTimerExpire, expireAll_led _ (List.nodup_finRange n), if_pos (List.mem_finRange j)]

theorem ledTimerExpire_timer : s.ledTimerExpire.gTimerOn = true ↔ ∃ j, (s.led j).restarts = true := by
  rw [Sys.ledTimerExpire, expireAll_timer _ (List.nodup_finRange n), or_iff_right Bool.false_ne_true]
  exact exists_congr fun j => and_iff_right (List.mem_finRange j)

end Expire

structure Inv (s : Sys n) : Prop where
  kept : Kept s
  saved : ∀ i, (s.led i).savedLedState ≠ .blinkOnce

section Step

variable {s : Sys n} {i : Fin n}

theorem Inv.update (h : Inv s) {s' : Sys n} {l : LedInfo} (hled : s'.led = Function.update s.led i l)
    (htimer : s.gTimerOn = true → s'.gTimerOn = true) (hpending : l.ledState.blinks = true → s'.gTimerOn = true)
    (hcount : l.blinkCountDown = 0 ∨ l.blinkCountDown = 1) (hsaved : l.savedLedState ≠ .blinkOnce) : Inv s' := by
  have hcases (j : Fin n) : s'.led j = l ∨ s'.led j = s.led j := by
    rw [hled]
    by_cases hj : j = i
    · rw [hj, Function.update_self]
      exact .inl rfl
    · exact .inr (Function.update_of_ne hj ..)
  refine ⟨⟨fun j hj => ?_, fun j => ?_⟩, fun j => ?_⟩
  · rcases hcases j with heq | heq
    · exact hpending (heq ▸ hj)
    · exact htimer (h.kept.pending j (heq ▸ hj))
  · rcases hcases j with heq | heq
    · rwa [heq]
    · rw [heq]
      exact h.kept.count j
  · rcases hcases j with heq | heq
    · rwa [heq]
    · rw [heq]
      exact h.saved j

theorem Inv.same (h : Inv s) {s' : Sys n} (hled : s'.led = s.led) (htimer : s'.gTimerOn = s.gTimerOn) : Inv s' := by
  refine ⟨⟨fun j hj => ?_, fun j => ?_⟩, fun j => ?_⟩
  · rw [htimer]
    exact h.kept.pending j (hled ▸ hj)
  · rw [hled]
    exact h.kept.count j
  · rw [hled]
    exact h.saved j

theorem drive_same (p : Pin) (active : Bool) : (s.drive p active).led = s.led ∧ (s.drive p active).gTimerOn = s.gTimerOn := by
  rw [Sys.drive]
  split
  · exact ⟨rfl, rfl⟩
  · exact ⟨rfl, rfl⟩

theorem Inv.settle (h : Inv s) (i : Fin n) (p : Pin) (active : Bool) {state : LedState} (hstate : state.blinks = false) :
    Inv (s.settle i p active state) := by
  rw [Sys.settle]
  split
  · obtain ⟨hled, htimer⟩ := drive_same (s := s) p active
    refine h.update (i := i) (l := { s.led i with ledState := state, savedLedState := state }) ?_ (fun hon => ?_)
      (fun hblinks => ?_) (h.kept.count i) ?_
    · rw [Sys.setLed, hled]
    · exact htimer.trans hon
    · exact absurd (hstate.symm.trans hblinks) Bool.false_ne_true
    · rintro rfl
      cases hstate
  · exact h

theorem Inv.call (h : Inv s) (c : HwCall) : Inv (s.call c) := h.same rfl rfl

theorem Inv.ctrlLed (h : Inv s) (ledName : Nat) (i : Fin n) (ledState : LedState) :
    Inv (s.ctrlLed ledName i ledState) := by
  cases ledState with
  | on | off | fail =>
      -- the other pin is turned off first
      refine Inv.settle ?_ i _ _ rfl
      split_ifs
      · exact h.settle i _ _ rfl
      · exact h.call _
      · exact h
  | blinkOnce =>
      rw [Sys.ctrlLed]
      split_ifs
      · exact h
      · exact h
      · obtain ⟨dir, htoggle⟩ := ledToggle_eq s i
        rw [htoggle]
        exact h.update rfl (fun _ => rfl) (fun _ => rfl) (.inr rfl) (h.saved i)
  | slowBlinkContinues => exact h.update rfl (fun _ => rfl) (fun _ => rfl) (.inr rfl) nofun
  | fastBlinkContinues => exact h.update rfl (fun _ => rfl) (fun _ => rfl) (.inl rfl) nofun
  | other => exact h

theorem Inv.ctrl (h : Inv s) (ledName : Nat) (ledState : LedState) : Inv (s.boardLedCtrl ledName ledState) := by
  rw [Sys.boardLedCtrl]
  split_ifs with hhw hfail hhw' hfail'
  · exact (h.call _).call _
  · refine Inv.call ?_ _
    split
    · exact h.settle _ _ _ rfl
    · exact h
  · exact (h.call _).call _
  · refine Inv.call ?_ _
    split
    · exact h.settle _ _ _ rfl
    · exact h
  · split
    · exact h
    · exact h.ctrlLed ..

theorem restarts_of_blinks {l : LedInfo} (hsaved : l.savedLedState ≠ .blinkOnce)
    (h : l.expire.ledState.blinks = true) : l.restarts = true := by
  rw [LedInfo.expire] at h
  rw [LedInfo.restarts]
  cases hstate : l.ledState with
  | on | off | fail | other => simp [hstate, LedState.blinks] at h
  | slowBlinkContinues | fastBlinkContinues => rfl
  | blinkOnce =>
      simp only [hstate] at h
      cases hs : l.savedLedState with
      | blinkOnce => exact absurd hs hsaved
      | slowBlinkContinues | fastBlinkContinues => rfl
      | on | off | fail | other => simp [hs, LedState.blinks] at h

theorem expire_count {l : LedInfo} (h : l.blinkCountDown = 0 ∨ l.blinkCountDown = 1) :
    l.expire.blinkCountDown = 0 ∨ l.expire.blinkCountDown = 1 := by
  rw [LedInfo.expire]
  split
  · exact .inl rfl
  · exact .inl rfl
  · exact .inl rfl
  · exact .inl rfl
  · rcases h with h | h
    · exact .inr (if_pos h)
    · exact .inl (by simp [h])
  · rcases h with h | h
    · exact .inl (if_pos h)
    · exact .inl (by simp [h])
  · exact h

theorem expire_saved (l : LedInfo) : l.expire.savedLedState = l.savedLedState := by
  rw [LedInfo.expire]
  split <;> rfl

theorem Inv.ledTimer (h : Inv s) : Inv s.ledTimerExpire := by
  refine ⟨⟨fun j hj => ?_, fun j => ?_⟩, fun j => ?_⟩
  · rw [ledTimerExpire_led] at hj
    exact (ledTimerExpire_timer s).mpr ⟨j, restarts_of_blinks (h.saved j) hj⟩
  · rw [ledTimerExpire_led]
    exact expire_count (h.kept.count j)
  · rw [ledTimerExpire_led, expire_saved]
    exact h.saved j

theorem Inv.next (h : Inv s) (e : Event) : Inv (step s e) := by
  cases e with
  | ctrl ledName ledState => exact h.ctrl ledName ledState
  | ledTimer => exact h.ledTimer
  | blinkOnceTimer => exact h.same rfl rfl

theorem Inv.ends (h : Inv s) (e : Event) : Ends s e := by
  rintro rfl i hi
  change (s.ledTimerExpire.led i).ledState ≠ .blinkOnce
  rw [ledTimerExpire_led, LedInfo.expire, hi]
  exact h.saved i

end Step

section Init

structure Started (p : LedMapPair) (l : LedInfo) : Prop where
  saved : l.savedLedState = l.ledState
  state : l.ledState = p.ledInitState
  count : l.blinkCountDown = 0 ∨ l.blinkCountDown = 1

/-- The entries `done` have got their LEDs. -/
structure Entered (done : List LedMapPair) (t : Init n) : Prop where
  cur : t.pCurLed = done.length
  timer : t.sys.gTimerOn = false
  need : t.needTimer = true ↔ ∃ p, done.getLast? = some p ∧ p.ledInitState.blinks = true
  led : ∀ k (hk : k < done.length) (hn : k < n), Started done[k] (t.sys.led ⟨k, hn⟩)
  rest : ∀ k : Fin n, done.length ≤ k.val → t.sys.led k = .zero

theorem settle_started {s : Sys n} {p : LedMapPair} {i : Fin n} {led : Fin n → LedInfo} {l : LedInfo}
    (hled : s.led = Function.update led i l) (hl : Started p l) (pin : Pin) (active : Bool) :
    (s.settle i pin active p.ledInitState).gTimerOn = s.gTimerOn ∧
      ∃ l, (s.settle i pin active p.ledInitState).led = Function.update led i l ∧ Started p l := by
  rw [Sys.settle]
  split
  · obtain ⟨hsame, htimer⟩ := drive_same (s := s) pin active
    refine ⟨htimer, { l with ledState := p.ledInitState, savedLedState := p.ledInitState }, ?_, rfl, rfl, hl.count⟩
    rw [Sys.setLed, hsame, hled, Function.update_self, Function.update_idem]
  · exact ⟨rfl, l, hled, hl⟩

theorem initLedInfo_started (s : Sys n) (p : LedMapPair) (i : Fin n) (hzero : s.led i = .zero) :
    (s.initLedInfo p i).1 = p.ledInitState.blinks ∧ (s.initLedInfo p i).2.gTimerOn = s.gTimerOn ∧
      ∃ l, (s.initLedInfo p i).2.led = Function.update s.led i l ∧ Started p l := by
  have hentered : (s.setLed i { s.led i with
      pin := p.pin, pinFail := p.pinFail, ledState := p.ledInitState, savedLedState := p.ledInitState }).led =
        Function.update s.led i ⟨p.pin, p.pinFail, p.ledInitState, p.ledInitState, 0⟩ := by
    rw [Sys.setLed, hzero]
    rfl
  have hcounted (c : Int) : ((s.setLed i { s.led i with
      pin := p.pin, pinFail := p.pinFail, ledState := p.ledInitState,
      savedLedState := p.ledInitState }).setCountDown i c).led =
        Function.update s.led i ⟨p.pin, p.pinFail, p.ledInitState, p.ledInitState, c⟩ := by
    rw [Sys.setCountDown, hentered, Function.update_self, Sys.setLed, hentered, Function.update_idem]
  obtain ⟨ledName, state, pin, pinFail⟩ := p
  cases state with
  | on => exact ⟨rfl, settle_started (p := ⟨ledName, .on, pin, pinFail⟩) (hcounted 0) ⟨rfl, rfl, .inl rfl⟩ _ _⟩
  | off => exact ⟨rfl, settle_started (p := ⟨ledName, .off, pin, pinFail⟩) (hcounted 0) ⟨rfl, rfl, .inl rfl⟩ _ _⟩
  | fail => exact ⟨rfl, settle_started (p := ⟨ledName, .fail, pin, pinFail⟩) (hcounted 0) ⟨rfl, rfl, .inl rfl⟩ _ _⟩
  | blinkOnce | slowBlinkContinues => exact ⟨rfl, rfl, _, hcounted 1, rfl, rfl, .inr rfl⟩
  | fastBlinkContinues => exact ⟨rfl, rfl, _, hcounted 0, rfl, rfl, .inl rfl⟩
  | other => exact ⟨rfl, rfl, _, hentered, rfl, rfl, .inl rfl⟩

theorem Entered.first {done : List LedMapPair} {t : Init n} (h : Entered done t) (hn : done.length < n) (p : LedMapPair) :
    Entered (done ++ [p]) (t.first p) := by
  have hcur := h.cur
  have hlt : t.pCurLed < n := hcur ▸ hn
  obtain ⟨hneed, htimer, l, hled, hl⟩ := initLedInfo_started t.sys p ⟨t.pCurLed, hlt⟩ (h.rest ⟨t.pCurLed, hlt⟩ hcur.ge)
  rw [Init.first, dif_pos hlt]
  refine ⟨(congrArg (· + 1) hcur).trans (by rw [List.length_append, List.length_singleton]), htimer.trans h.timer, ?_, fun k hk hkn => ?_, fun k hk => ?_⟩
  · simp [hneed]
  · dsimp only
    rw [hled]
    rw [List.length_append, List.length_singleton] at hk
    rcases Nat.lt_succ_iff_lt_or_eq.mp hk with hk | rfl
    · rw [Function.update_of_ne (fun heq => by rw [Fin.mk.injEq] at heq; omega), List.getElem_append_left hk]
      exact h.led k hk hkn
    · have hsame : (⟨done.length, hkn⟩ : Fin n) = ⟨t.pCurLed, hlt⟩ := Fin.ext hcur.symm
      rw [hsame, Function.update_self, List.getElem_concat_length rfl]
      exact hl
  · dsimp only
    rw [List.length_append, List.length_singleton] at hk
    rw [hled, Function.update_of_ne (fun heq => by rw [Fin.ext_iff] at heq; dsimp only at heq; omega)]
    exact h.rest k (by omega)

theorem Entered.shared {done : List LedMapPair} {t : Init n} (h : Entered done t) (p : LedMapPair) :
    Entered done (t.shared p) := by
  rw [Init.shared]
  dsimp only
  split
  case h_1 => exact h
  case h_2 i hi =>
    have hbefore : i.val < done.length := by
      have hsame := List.find?_some hi
      rw [Bool.and_eq_true, decide_eq_true_eq, h.cur] at hsame
      exact hsame.1
    refine ⟨h.cur, h.timer, h.need, fun k hk hkn => ?_, fun k hk => ?_⟩
    · dsimp only [Sys.setLed]
      by_cases heq : (⟨k, hkn⟩ : Fin n) = i
      · rw [heq, Function.update_self]
        have hl := h.led k hk hkn
        rw [heq] at hl
        split_ifs
        all_goals exact ⟨hl.saved, hl.state, hl.count⟩
      · rw [Function.update_of_ne heq]
        exact h.led k hk hkn
    · dsimp only [Sys.setLed]
      rw [Function.update_of_ne (fun heq => by rw [heq] at hk; omega)]
      exact h.rest k hk

theorem Entered.loop {done : List LedMapPair} {t : Init n} (h : Entered done t) (before ps : List LedMapPair)
    (hnames : ∀ p ∈ ps, p.ledName < maxVirtLeds) (hn : (done ++ physical before ps).length ≤ n) :
    Entered (done ++ physical before ps) (Init.loop before ps t) := by
  induction ps generalizing before done t with
  | nil => rwa [physical, List.append_nil]
  | cons p ps ih =>
      have hname : ¬ maxVirtLeds < p.ledName := Nat.lt_asymm (hnames p List.mem_cons_self)
      have hrest (q : LedMapPair) (hq : q ∈ ps) := hnames q (List.mem_cons_of_mem p hq)
      rw [physical] at hn ⊢
      rw [Init.loop, if_neg hname]
      cases hused : alreadyUsed before p with
      | true =>
          rw [hused] at hn
          exact ih (h.shared p) (before ++ [p]) hrest hn
      | false =>
          rw [hused] at hn
          simp only [Bool.false_eq_true, if_false] at hn ⊢
          rw [List.append_cons] at hn ⊢
          refine ih (h.first ?_ p) (before ++ [p]) hrest hn
          rw [List.length_append, List.length_append, List.length_singleton] at hn
          omega

theorem cleared_entered (n : Nat) (gpioIo gpioDir : BitVec 32) : Entered [] (⟨cleared n gpioIo gpioDir, 0, false⟩ : Init n) :=
  ⟨rfl, rfl, by simp, fun _ hk => absurd hk (Nat.not_lt_zero _), fun _ _ => rfl⟩

end Init

section Main

variable {table : List LedMapPair} (gpioIo gpioDir : BitVec 32)

theorem boardLedInit_started (hnames : ∀ p ∈ table, p.ledName < maxVirtLeds) :
    ((boardLedInit table true gpioIo gpioDir).gTimerOn = true ↔
        ∃ p, (physical [] table).getLast? = some p ∧ p.ledInitState.blinks = true) ∧
      ∀ i : Fin (gLedCount table), Started ((physical [] table).get i) ((boardLedInit table true gpioIo gpioDir).led i) := by
  have hall := (cleared_entered (gLedCount table) gpioIo gpioDir).loop [] table hnames le_rfl
  rw [List.nil_append] at hall
  have hled (i : Fin (gLedCount table)) := hall.led i.val i.isLt i.isLt
  rw [boardLedInit, if_pos rfl, ← hall.need]
  dsimp only
  split
  case isTrue hneed => exact ⟨iff_of_true rfl hneed, hled⟩
  case isFalse hneed => exact ⟨iff_of_false (fun hon => Bool.false_ne_true (hall.timer.symm.trans hon)) hneed, hled⟩

theorem exists_led {p : LedMapPair} (hp : p ∈ physical [] table) :
    ∃ i : Fin (gLedCount table), (physical [] table).get i = p := List.get_of_mem hp

theorem Inv.of_started {s : Sys (gLedCount table)}
    (hstarted : ∀ i : Fin (gLedCount table), Started ((physical [] table).get i) (s.led i))
    (honce : ∀ p ∈ physical [] table, p.ledInitState ≠ .blinkOnce)
    (hpending : (∃ p ∈ physical [] table, p.ledInitState.blinks = true) → s.gTimerOn = true) : Inv s := by
  refine ⟨⟨fun i hi => ?_, fun i => (hstarted i).count⟩, fun i hi => ?_⟩
  · rw [(hstarted i).state] at hi
    exact hpending ⟨_, List.get_mem _ i, hi⟩
  · rw [(hstarted i).saved, (hstarted i).state] at hi
    exact honce _ (List.get_mem _ i) hi

theorem cleared_inv : Inv (cleared n gpioIo gpioDir) := by
  refine ⟨⟨fun i hi => ?_, fun i => .inl rfl⟩, fun i hi => ?_⟩
  · exact absurd hi Bool.false_ne_true
  · cases hi

theorem Inv.run {s : Sys n} (h : Inv s) {es : List Event} (hE : Along step Enabled s es) :
    Throughout step Kept s es ∧ Along step Ends s es := by
  constructor
  · exact Throughout.of_invariant (fun _ hs => hs.kept) (fun _ e hs _ _ => hs.next e) h hE hE
  · exact Along.of_invariant (fun _ e hs _ _ => hs.ends e) (fun _ e hs _ _ => hs.next e) h hE hE

/-- LEDs that blink keep blinking if and only if no LED starts with a single blink
and the last LED starts blinking whenever some LED does. -/
theorem blinking_leds_keep_blinking_iff (table : List LedMapPair) (hnames : ∀ p ∈ table, p.ledName < maxVirtLeds)
    (memory : Bool) (gpioIo gpioDir : BitVec 32) :
    (∀ es : List Event, Along step Enabled (boardLedInit table memory gpioIo gpioDir) es →
        Throughout step Kept (boardLedInit table memory gpioIo gpioDir) es ∧
          Along step Ends (boardLedInit table memory gpioIo gpioDir) es) ↔
      (memory = true →
        (∀ p ∈ physical [] table, p.ledInitState ≠ .blinkOnce) ∧
          ((∃ p ∈ physical [] table, p.ledInitState.blinks = true) →
            ∃ p, (physical [] table).getLast? = some p ∧ p.ledInitState.blinks = true)) := by
  cases memory with
  | false => exact iff_of_true (fun es hE => (cleared_inv gpioIo gpioDir).run hE) (fun h => absurd h Bool.false_ne_true)
  | true =>
      obtain ⟨htimer, hstarted⟩ := boardLedInit_started gpioIo gpioDir hnames
      rw [← htimer]
      refine ⟨fun hruns _ => ?_, fun hcond es hE => (Inv.of_started hstarted (hcond rfl).1 (hcond rfl).2).run hE⟩
      have hpending : (∃ p ∈ physical [] table, p.ledInitState.blinks = true) →
          (boardLedInit table true gpioIo gpioDir).gTimerOn = true := by
        rintro ⟨p, hp, hblinks⟩
        obtain ⟨i, rfl⟩ := exists_led hp
        have hkept : Kept (boardLedInit table true gpioIo gpioDir) := (hruns [] trivial).1
        exact hkept.pending i (by rwa [(hstarted i).state])
      refine ⟨fun p hp honce => ?_, hpending⟩
      obtain ⟨i, rfl⟩ := exists_led hp
      have hi := (hstarted i).state.trans honce
      have hon := hpending ⟨_, hp, by rw [honce]; rfl⟩
      -- the state that is restored is the single blink itself
      refine (hruns [.ledTimer] ⟨hon, trivial⟩).2.1 rfl i hi ?_
      change ((boardLedInit table true gpioIo gpioDir).ledTimerExpire.led i).ledState = .blinkOnce
      rw [ledTimerExpire_led, LedInfo.expire, hi]
      exact (hstarted i).saved.trans hi

def lastBlinks : List LedMapPair :=
  [⟨0, .on, ⟨1, true, false⟩, ⟨2, true, false⟩⟩, ⟨3, .slowBlinkContinues, ⟨4, true, false⟩, ⟨0, false, false⟩⟩]

theorem lastBlinks_keeps_blinking :
    (∀ p ∈ lastBlinks, p.ledName < maxVirtLeds) ∧
      ∀ es : List Event, Along step Enabled (boardLedInit lastBlinks true 0 0) es →
        Throughout step Kept (boardLedInit lastBlinks true 0 0) es ∧
          Along step Ends (boardLedInit lastBlinks true 0 0) es := by
  have hnames : ∀ p ∈ lastBlinks, p.ledName < maxVirtLeds := by decide
  refine ⟨hnames, (blinking_leds_keep_blinking_iff lastBlinks hnames true 0 0).mpr fun _ => ⟨by decide, fun _ => ?_⟩⟩
  exact ⟨_, rfl, rfl⟩

theorem first_led_does_not_blink :
    ∃ table : List LedMapPair, (∀ p ∈ table, p.ledName < maxVirtLeds) ∧
      ∃ i, ((boardLedInit table true 0 0).led i).ledState = .slowBlinkContinues ∧
        (boardLedInit table true 0 0).gTimerOn = false := by
  refine ⟨lastBlinks.reverse, by decide, ⟨0, by decide⟩, ?_⟩
  decide

end Main

end AliceModem.Led
