import AliceModem.Board.Led

namespace AliceModem.Led

open Transition

def Pin.level (p : Pin) (io : BitVec 32) : Bool := decide (io &&& p.mask ≠ 0)

def Pin.lit (p : Pin) (io : BitVec 32) : Bool := p.level io != p.activeLow

def Pin.Apart (p q : Pin) : Prop := p.mask &&& q.mask = 0

def Pin.driven (p : Pin) (active : Bool) (io : BitVec 32) : BitVec 32 :=
  if p.serial then io else if active != p.activeLow then io ||| p.mask else io &&& ~~~p.mask

section Pins

variable {p q : Pin} {io : BitVec 32}

theorem or_mask_and (io m : BitVec 32) : (io ||| m) &&& m = m := by
  ext k
  simp +contextual

theorem clear_mask_and (io m : BitVec 32) : io &&& ~~~m &&& m = 0 := by
  ext k
  simp

theorem Pin.Apart.or_and (h : p.Apart q) : (io ||| q.mask) &&& p.mask = io &&& p.mask := by
  calc (io ||| q.mask) &&& p.mask
    _ = p.mask &&& io ||| p.mask &&& q.mask := by rw [BitVec.and_comm, BitVec.and_or_distrib_left]
    _ = p.mask &&& io := by rw [h]; exact BitVec.or_zero
    _ = io &&& p.mask := BitVec.and_comm ..

theorem Pin.Apart.clear_and (h : p.Apart q) : io &&& ~~~q.mask &&& p.mask = io &&& p.mask := by
  ext k hk
  have hbit := congrArg (fun b : BitVec 32 => b.getLsbD k) h
  simp only [BitVec.getLsbD_and] at hbit
  simp
  grind

theorem Pin.lit_or (hmask : p.mask ≠ 0) : p.lit (io ||| p.mask) = !p.activeLow := by
  rw [Pin.lit, Pin.level, or_mask_and, decide_eq_true hmask, Bool.true_bne]

theorem Pin.lit_clear : p.lit (io &&& ~~~p.mask) = p.activeLow := by
  rw [Pin.lit, Pin.level, clear_mask_and, decide_eq_false (not_not_intro rfl), Bool.false_bne]

theorem Pin.lit_driven (hserial : p.serial = false) (hmask : p.mask ≠ 0) (active : Bool) :
    p.lit (p.driven active io) = active := by
  rw [Pin.driven, if_neg (hserial ▸ Bool.false_ne_true)]
  split
  case isTrue h =>
    rw [Pin.lit_or hmask]
    cases active <;> simp_all
  case isFalse h =>
    rw [Pin.lit_clear]
    simp_all

theorem Pin.lit_toggled (hserial : p.serial = false) (hmask : p.mask ≠ 0) : p.lit (p.toggled io) = !p.lit io := by
  rw [Pin.toggled, if_neg (hserial ▸ Bool.false_ne_true)]
  split
  case isTrue h =>
    rw [Pin.lit_clear, Pin.lit, Pin.level, decide_eq_true h]
    simp
  case isFalse h =>
    rw [Pin.lit_or hmask, Pin.lit, Pin.level, decide_eq_false h, Bool.false_bne]

theorem Pin.Apart.lit_driven (h : p.Apart q) (active : Bool) : p.lit (q.driven active io) = p.lit io := by
  rw [Pin.driven]
  split_ifs
  · rfl
  · rw [Pin.lit, Pin.level, h.or_and, Pin.lit, Pin.level]
  · rw [Pin.lit, Pin.level, h.clear_and, Pin.lit, Pin.level]

theorem Pin.Apart.lit_toggled (h : p.Apart q) : p.lit (q.toggled io) = p.lit io := by
  rw [Pin.toggled]
  split_ifs
  · rfl
  · rw [Pin.lit, Pin.level, h.clear_and, Pin.lit, Pin.level]
  · rw [Pin.lit, Pin.level, h.or_and, Pin.lit, Pin.level]

end Pins

variable {n : Nat}

/-- The LED has a normal and a failure pin of the GPIO register, apart from each
other and from those of all other LEDs, and there are no handlers. -/
structure Separate (s : Sys n) (i : Fin n) : Prop where
  serial : (s.led i).pin.serial = false
  serialFail : (s.led i).pinFail.serial = false
  mask : (s.led i).pin.mask ≠ 0
  maskFail : (s.led i).pinFail.mask ≠ 0
  own : (s.led i).pin.Apart (s.led i).pinFail
  others : ∀ j, j ≠ i → ∀ p ∈ [(s.led i).pin, (s.led i).pinFail], ∀ q ∈ [(s.led j).pin, (s.led j).pinFail], p.Apart q
  handler : ∀ ledName, s.gLedHwFunc ledName = false
  handlerFail : ∀ ledName, s.gLedHwFailFunc ledName = false

/-- What a step on LED `j` leaves alone. -/
structure Frame (j : Fin n) (s s' : Sys n) : Prop where
  other : ∀ k, k ≠ j → s'.led k = s.led k
  pin : (s'.led j).pin = (s.led j).pin
  pinFail : (s'.led j).pinFail = (s.led j).pinFail
  names : s'.gpVirtLeds = s.gpVirtLeds
  handler : s'.gLedHwFunc = s.gLedHwFunc
  handlerFail : s'.gLedHwFailFunc = s.gLedHwFailFunc
  lit : ∀ p : Pin, p.Apart (s.led j).pin → p.Apart (s.led j).pinFail → p.lit s'.gpioIo = p.lit s.gpioIo

section Frame

variable {j : Fin n} {s s' s'' : Sys n}

theorem Frame.refl (j : Fin n) (s : Sys n) : Frame j s s :=
  ⟨fun _ _ => rfl, rfl, rfl, rfl, rfl, rfl, fun _ _ _ => rfl⟩

theorem Frame.trans (h : Frame j s s') (h' : Frame j s' s'') : Frame j s s'' where
  other k hk := (h'.other k hk).trans (h.other k hk)
  pin := h'.pin.trans h.pin
  pinFail := h'.pinFail.trans h.pinFail
  names := h'.names.trans h.names
  handler := h'.handler.trans h.handler
  handlerFail := h'.handlerFail.trans h.handlerFail
  lit p hp hq := (h'.lit p (h.pin ▸ hp) (h.pinFail ▸ hq)).trans (h.lit p hp hq)

theorem Frame.pins (h : Frame j s s') (k : Fin n) :
    (s'.led k).pin = (s.led k).pin ∧ (s'.led k).pinFail = (s.led k).pinFail := by
  by_cases hk : k = j
  · rw [hk]
    exact ⟨h.pin, h.pinFail⟩
  · rw [h.other k hk]
    exact ⟨rfl, rfl⟩

theorem Frame.timers (j : Fin n) (s : Sys n) (timer once : Bool) :
    Frame j s { s with gTimerOn := timer, gBlinkOnceTimerOn := once } :=
  ⟨fun _ _ => rfl, rfl, rfl, rfl, rfl, rfl, fun _ _ _ => rfl⟩

theorem Frame.of_update {l : LedInfo} (hled : s'.led = Function.update s.led j l) (hpin : l.pin = (s.led j).pin)
    (hpinFail : l.pinFail = (s.led j).pinFail) (hnames : s'.gpVirtLeds = s.gpVirtLeds)
    (hhandler : s'.gLedHwFunc = s.gLedHwFunc) (hhandlerFail : s'.gLedHwFailFunc = s.gLedHwFailFunc)
    (hlit : ∀ p : Pin, p.Apart (s.led j).pin → p.Apart (s.led j).pinFail → p.lit s'.gpioIo = p.lit s.gpioIo) :
    Frame j s s' := by
  refine ⟨fun k hk => ?_, ?_, ?_, hnames, hhandler, hhandlerFail, hlit⟩
  · rw [hled, Function.update_of_ne hk]
  · rw [hled, Function.update_self, hpin]
  · rw [hled, Function.update_self, hpinFail]

theorem settle_eq (s : Sys n) (j : Fin n) {p : Pin} (hmask : p.mask ≠ 0) (active : Bool) (state : LedState) :
    ∃ dir, s.settle j p active state = { s with
      gpioDir := dir
      gpioIo := p.driven active s.gpioIo
      led := Function.update s.led j { s.led j with ledState := state, savedLedState := state } } := by
  rw [Sys.settle, if_pos hmask, Sys.drive, Pin.driven]
  split
  · exact ⟨s.gpioDir, rfl⟩
  · exact ⟨s.gpioDir ||| p.mask, rfl⟩

theorem Frame.settle {p : Pin} (hp : p = (s.led j).pin ∨ p = (s.led j).pinFail) (active : Bool) (state : LedState) :
    Frame j s (s.settle j p active state) := by
  by_cases hmask : p.mask = 0
  · rw [Sys.settle, if_neg (not_not_intro hmask)]
    exact Frame.refl j s
  · obtain ⟨dir, h⟩ := settle_eq s j hmask active state
    rw [h]
    refine .of_update rfl rfl rfl rfl rfl rfl fun q hq hqFail => ?_
    rcases hp with rfl | rfl
    · exact hq.lit_driven active
    · exact hqFail.lit_driven active

theorem Frame.turnOff {p : Pin} (hp : p = (s.led j).pin ∨ p = (s.led j).pinFail) (handler : Bool) (c : HwCall) :
    Frame j s (if p.mask ≠ 0 then s.settle j p false .off else if handler then s.call c else s) := by
  split_ifs
  · exact .settle hp ..
  · exact ⟨fun _ _ => rfl, rfl, rfl, rfl, rfl, rfl, fun _ _ _ => rfl⟩
  · exact .refl ..

theorem Frame.ctrlLed (s : Sys n) (ledName : Nat) (j : Fin n) (ledState : LedState) :
    Frame j s (s.ctrlLed ledName j ledState) := by
  cases ledState with
  | on | off => exact (Frame.turnOff (.inr rfl) _ _).trans (.settle (.inl rfl) ..)
  | fail => exact (Frame.turnOff (.inl rfl) _ _).trans (.settle (.inr rfl) ..)
  | blinkOnce =>
      rw [Sys.ctrlLed]
      split_ifs
      · exact .refl ..
      · exact .refl ..
      · obtain ⟨dir, htoggle⟩ := ledToggle_eq s j
        rw [htoggle]
        exact .of_update rfl rfl rfl rfl rfl rfl fun q hq _ => hq.lit_toggled
  | slowBlinkContinues | fastBlinkContinues => exact .of_update rfl rfl rfl rfl rfl rfl fun _ _ _ => rfl
  | other => exact .refl ..

theorem LedInfo.expire_pins (l : LedInfo) : l.expire.pin = l.pin ∧ l.expire.pinFail = l.pinFail := by
  rw [LedInfo.expire]
  split <;> exact ⟨rfl, rfl⟩

theorem Frame.expireLed (s : Sys n) (j : Fin n) : Frame j s (s.expireLed j) := by
  obtain ⟨dir, h⟩ := expireLed_eq s j
  rw [h]
  refine .of_update rfl (LedInfo.expire_pins _).1 (LedInfo.expire_pins _).2 rfl rfl rfl fun q hq _ => ?_
  dsimp only
  split
  · exact hq.lit_toggled
  · rfl

end Frame

@[ext]
structure View where
  info : LedInfo
  lit : Bool
  litFail : Bool

def view (i : Fin n) (s : Sys n) : View :=
  ⟨s.led i, (s.led i).pin.lit s.gpioIo, (s.led i).pinFail.lit s.gpioIo⟩

/-- A command for an LED with two pins, `once` if the timer after a blink is pending. -/
def View.ctrl (v : View) (once : Bool) : LedState → View
  | .on => ⟨{ v.info with ledState := .on, savedLedState := .on }, true, false⟩
  | .off => ⟨{ v.info with ledState := .off, savedLedState := .off }, false, false⟩
  | .fail => ⟨{ v.info with ledState := .fail, savedLedState := .fail }, false, true⟩
  | .blinkOnce =>
      if v.info.savedLedState.continues then v
      else if v.info.blinkCountDown ≠ 0 ∨ once then v
      else ⟨{ v.info with blinkCountDown := 1, ledState := .blinkOnce }, !v.lit, v.litFail⟩
  | .slowBlinkContinues =>
      { v with info := { v.info with
        blinkCountDown := kSlowBlinkCount
        ledState := .slowBlinkContinues
        savedLedState := .slowBlinkContinues } }
  | .fastBlinkContinues =>
      { v with info := { v.info with
        blinkCountDown := kFastBlinkCount
        ledState := .fastBlinkContinues
        savedLedState := .fastBlinkContinues } }
  | .other => v

def View.expire (v : View) : View := ⟨v.info.expire, if v.info.toggles then !v.lit else v.lit, v.litFail⟩

/-- What a step of the driver does to LED `i`. -/
def View.next (i : Fin n) (s : Sys n) : Event → View
  | .ctrl ledName ledState =>
      if s.ledInfoPtr ledName = some i then (view i s).ctrl s.gBlinkOnceTimerOn ledState else view i s
  | .ledTimer => (view i s).expire
  | .blinkOnceTimer => view i s

section View

variable {i j : Fin n} {s s' : Sys n}

theorem Separate.ownFail (h : Separate s i) : (s.led i).pinFail.Apart (s.led i).pin :=
  (BitVec.and_comm ..).trans h.own

theorem view_info (i : Fin n) (s : Sys n) : (view i s).info = s.led i := rfl

theorem Separate.frame (h : Separate s i) (hframe : Frame j s s') : Separate s' i := by
  obtain ⟨hpin, hpinFail⟩ := hframe.pins i
  refine ⟨?_, ?_, ?_, ?_, ?_, fun k hk => ?_, ?_, ?_⟩
  · rw [hpin]
    exact h.serial
  · rw [hpinFail]
    exact h.serialFail
  · rw [hpin]
    exact h.mask
  · rw [hpinFail]
    exact h.maskFail
  · rw [hpin, hpinFail]
    exact h.own
  · obtain ⟨hpin', hpinFail'⟩ := hframe.pins k
    rw [hpin, hpinFail, hpin', hpinFail']
    exact h.others k hk
  · rw [hframe.handler]
    exact h.handler
  · rw [hframe.handlerFail]
    exact h.handlerFail

theorem Separate.view_frame (h : Separate s i) (hne : i ≠ j) (hframe : Frame j s s') : view i s' = view i s := by
  have hapart (p : Pin) (hp : p ∈ [(s.led i).pin, (s.led i).pinFail]) := h.others j hne.symm p hp
  rw [view, view, hframe.other i hne]
  refine View.ext rfl ?_ ?_
  · exact hframe.lit _ (hapart _ (by simp) _ (by simp)) (hapart _ (by simp) _ (by simp))
  · exact hframe.lit _ (hapart _ (by simp) _ (by simp)) (hapart _ (by simp) _ (by simp))

theorem Separate.view_settle (h : Separate s i) (active : Bool) (state : LedState) :
    view i (s.settle i (s.led i).pin active state) =
      ⟨{ (view i s).info with ledState := state, savedLedState := state }, active, (view i s).litFail⟩ := by
  obtain ⟨dir, heq⟩ := settle_eq s i h.mask active state
  rw [heq]
  simp only [view, Function.update_self, Pin.lit_driven h.serial h.mask, h.ownFail.lit_driven]

theorem Separate.view_settleFail (h : Separate s i) (active : Bool) (state : LedState) :
    view i (s.settle i (s.led i).pinFail active state) =
      ⟨{ (view i s).info with ledState := state, savedLedState := state }, (view i s).lit, active⟩ := by
  obtain ⟨dir, heq⟩ := settle_eq s i h.maskFail active state
  rw [heq]
  simp only [view, Function.update_self, Pin.lit_driven h.serialFail h.maskFail, h.own.lit_driven]

theorem Separate.view_ctrlLed (h : Separate s i) (ledName : Nat) (ledState : LedState) :
    view i (s.ctrlLed ledName i ledState) = (view i s).ctrl s.gBlinkOnceTimerOn ledState := by
  have hoffFail : Separate (s.ledOffFail i) i := h.frame (.settle (.inr rfl) ..)
  have hoff : Separate (s.ledOff i) i := h.frame (.settle (.inl rfl) ..)
  cases ledState with
  | on =>
      rw [Sys.ctrlLed, if_pos h.maskFail, Sys.ledOn, hoffFail.view_settle, Sys.ledOffFail, h.view_settleFail]
      rfl
  | off =>
      rw [Sys.ctrlLed, if_pos h.maskFail, Sys.ledOff, hoffFail.view_settle, Sys.ledOffFail, h.view_settleFail]
      rfl
  | fail =>
      rw [Sys.ctrlLed, if_pos h.mask, Sys.ledOnFail, hoff.view_settleFail, Sys.ledOff, h.view_settle]
      rfl
  | blinkOnce =>
      rw [Sys.ctrlLed, View.ctrl, view_info]
      split_ifs
      · rfl
      · rfl
      · obtain ⟨dir, htoggle⟩ := ledToggle_eq s i
        rw [htoggle]
        simp only [Sys.setLed, Sys.ledTimerStart, view, Function.update_self, Pin.lit_toggled h.serial h.mask,
          h.ownFail.lit_toggled]
  | slowBlinkContinues | fastBlinkContinues =>
      simp only [Sys.ctrlLed, Sys.setLed, Sys.ledTimerStart, view, Function.update_self, View.ctrl]
  | other => rfl

theorem Separate.view_expireLed (h : Separate s i) : view i (s.expireLed i) = (view i s).expire := by
  obtain ⟨hpin, hpinFail⟩ := LedInfo.expire_pins (s.led i)
  obtain ⟨dir, heq⟩ := expireLed_eq s i
  rw [heq]
  cases htoggles : (s.led i).toggles with
  | true =>
      simp only [view, Function.update_self, hpin, hpinFail, View.expire, htoggles, if_true,
        Pin.lit_toggled h.serial h.mask, h.ownFail.lit_toggled]
  | false => simp only [view, Function.update_self, hpin, hpinFail, View.expire, htoggles, Bool.false_eq_true, if_false]

theorem Separate.expireAll (h : Separate s i) (is : List (Fin n)) : Separate (is.foldl Sys.expireLed s) i := by
  induction is generalizing s with
  | nil => exact h
  | cons j is ih => exact ih (h.frame (.expireLed s j))

theorem Separate.view_expireAll (h : Separate s i) {is : List (Fin n)} (hnodup : is.Nodup) :
    view i (is.foldl Sys.expireLed s) = if i ∈ is then (view i s).expire else view i s := by
  induction is generalizing s with
  | nil => rfl
  | cons j is ih =>
      obtain ⟨hj, his⟩ := List.nodup_cons.mp hnodup
      rw [List.foldl_cons, ih (h.frame (.expireLed s j)) his]
      by_cases heq : i = j
      · rw [heq] at h ⊢
        rw [if_neg hj, if_pos List.mem_cons_self, h.view_expireLed]
      · rw [h.view_frame heq (.expireLed s j)]
        simp only [List.mem_cons, heq, false_or]

theorem Separate.boardLedCtrl_eq (h : Separate s i) (ledName : Nat) (ledState : LedState) :
    s.boardLedCtrl ledName ledState = match s.ledInfoPtr ledName with
      | none => s
      | some j => s.ctrlLed ledName j
          (if ledState = .fail ∧ (s.led j).pinFail.mask = 0 then .slowBlinkContinues else ledState) := by
  have hhandler := h.handler ledName
  have hhandlerFail := h.handlerFail ledName
  exact (if_neg fun hc => Bool.false_ne_true (hhandler.symm.trans hc.2)).trans
    (if_neg fun hc => Bool.false_ne_true (hhandlerFail.symm.trans hc.2))

theorem Separate.next (h : Separate s i) (e : Event) : Separate (step s e) i := by
  cases e with
  | ctrl ledName ledState =>
      rw [step, h.boardLedCtrl_eq]
      split
      · exact h
      · exact h.frame (.ctrlLed ..)
  | ledTimer => exact (h.frame (.timers i s false s.gBlinkOnceTimerOn)).expireAll _
  | blinkOnceTimer => exact h.frame (.timers i s s.gTimerOn false)

theorem Separate.view_step (h : Separate s i) (e : Event) : view i (step s e) = View.next i s e := by
  cases e with
  | ctrl ledName ledState =>
      rw [step, h.boardLedCtrl_eq, View.next]
      cases hptr : s.ledInfoPtr ledName with
      | none => rfl
      | some j =>
          dsimp only
          by_cases heq : j = i
          · rw [heq, if_pos rfl, if_neg (fun hc => h.maskFail hc.2), h.view_ctrlLed]
          · rw [if_neg (fun hc => heq (Option.some.inj hc)), h.view_frame (Ne.symm heq) (.ctrlLed ..)]
  | ledTimer =>
      have hoff := h.frame (.timers i s false s.gBlinkOnceTimerOn)
      refine (hoff.view_expireAll (List.nodup_finRange n)).trans ?_
      rw [if_pos (List.mem_finRange i)]
      rfl
  | blinkOnceTimer => rfl

end View

/-- The command to blink once is carried out by LED `i`. -/
structure StartsBlink (i : Fin n) (s : Sys n) (ledName : Nat) : Prop where
  ptr : s.ledInfoPtr ledName = some i
  saved : (s.led i).savedLedState.continues = false
  count : (s.led i).blinkCountDown = 0
  once : s.gBlinkOnceTimerOn = false

theorem Separate.view_startsBlink {i : Fin n} {s : Sys n} (h : Separate s i) {ledName : Nat}
    (hstarts : StartsBlink i s ledName) : view i (step s (.ctrl ledName .blinkOnce)) =
      ⟨{ s.led i with blinkCountDown := 1, ledState := .blinkOnce }, !(view i s).lit, (view i s).litFail⟩ := by
  rw [h.view_step, View.next, if_pos hstarts.ptr, View.ctrl, view_info, hstarts.saved, hstarts.count, hstarts.once]
  rfl

section Exclusive

def Exclusive (i : Fin n) (s : Sys n) : Prop :=
  ¬ ((s.led i).pin.lit s.gpioIo = true ∧ (s.led i).pinFail.lit s.gpioIo = true)

def Safe (i : Fin n) (s : Sys n) : Event → Prop
  | .ctrl ledName ledState =>
      ledState = .blinkOnce → StartsBlink i s ledName → (s.led i).pinFail.lit s.gpioIo = false
  | .ledTimer => (s.led i).toggles = true → (s.led i).pinFail.lit s.gpioIo = false
  | .blinkOnceTimer => True

variable {i : Fin n} {s : Sys n}

theorem exclusive_iff_view : Exclusive i s ↔ ¬ ((view i s).lit = true ∧ (view i s).litFail = true) := Iff.rfl

theorem toggled_exclusive {lit litFail : Bool} (hex : ¬ (lit = true ∧ litFail = true)) :
    ¬ ((!lit) = true ∧ litFail = true) ↔ litFail = false := by
  revert lit litFail
  decide

theorem Separate.exclusive_ctrl (h : Separate s i) (hex : Exclusive i s) (ledName : Nat) (ledState : LedState) :
    Exclusive i (step s (.ctrl ledName ledState)) ↔ Safe i s (.ctrl ledName ledState) := by
  rw [exclusive_iff_view, h.view_step, View.next]
  rw [exclusive_iff_view] at hex
  by_cases hptr : s.ledInfoPtr ledName = some i
  · rw [if_pos hptr]
    cases ledState with
    | on | off | fail => exact iff_of_true (by simp [View.ctrl]) nofun
    | slowBlinkContinues | fastBlinkContinues | other => exact iff_of_true hex nofun
    | blinkOnce =>
        rw [View.ctrl]
        split_ifs with hcontinues hwaits
        · exact iff_of_true hex fun _ hstarts =>
            absurd (hstarts.saved.symm.trans hcontinues) Bool.false_ne_true
        · refine iff_of_true hex fun _ hstarts => ?_
          rcases hwaits with hcount | honce
          · exact absurd hstarts.count hcount
          · exact absurd (hstarts.once.symm.trans honce) Bool.false_ne_true
        · have hstarts : StartsBlink i s ledName := by
            rw [not_or, not_not] at hwaits
            exact ⟨hptr, Bool.not_eq_true _ ▸ hcontinues, hwaits.1, Bool.not_eq_true _ ▸ hwaits.2⟩
          exact (toggled_exclusive hex).trans ⟨fun hdark _ _ => hdark, fun hdark => hdark rfl hstarts⟩
  · rw [if_neg hptr]
    exact iff_of_true hex fun _ hstarts => absurd hstarts.ptr hptr

theorem Separate.exclusive_ledTimer (h : Separate s i) (hex : Exclusive i s) :
    Exclusive i (step s .ledTimer) ↔ Safe i s .ledTimer := by
  rw [exclusive_iff_view, h.view_step, View.next, View.expire]
  rw [exclusive_iff_view] at hex
  dsimp only
  split
  case isTrue htoggles => exact (toggled_exclusive hex).trans ⟨fun hdark _ => hdark, fun hdark => hdark htoggles⟩
  case isFalse htoggles => exact iff_of_true hex fun hc => absurd hc htoggles

theorem Separate.exclusive_step (h : Separate s i) (hex : Exclusive i s) (e : Event) :
    Exclusive i (step s e) ↔ Safe i s e := by
  cases e with
  | ctrl ledName ledState => exact h.exclusive_ctrl hex ledName ledState
  | ledTimer => exact h.exclusive_ledTimer hex
  | blinkOnceTimer => exact iff_of_true hex trivial

/-- The two colours of an LED are never lit together if and only if the LED never
blinks while its failure colour is lit. -/
theorem status_and_failure_exclusive_iff (i : Fin n) (s : Sys n) (hsep : Separate s i) (hstart : Exclusive i s)
    (es : List Event) : Throughout step (Exclusive i) s es ↔ Along step (Safe i) s es := by
  refine throughout_iff (I := fun s => Separate s i ∧ Exclusive i s) (E := fun _ _ => True) (fun _ h => h.2)
    (fun _ e h _ hsafe => ?_) (fun _ e h _ hex => ?_) ⟨hsep, hstart⟩ (.of_forall (fun _ _ => trivial) s es)
  · exact ⟨h.1.next e, (h.1.exclusive_step h.2 e).mpr hsafe⟩
  · exact (h.1.exclusive_step h.2 e).mp hex

def twoColours : List LedMapPair :=
  [⟨0, .off, ⟨1, false, false⟩, ⟨2, false, false⟩⟩, ⟨3, .off, ⟨4, true, false⟩, ⟨8, true, false⟩⟩]

theorem twoColours_separate (i : Fin (gLedCount twoColours)) : Separate (boardLedInit twoColours true 0 8) i where
  serial := by revert i; decide
  serialFail := by revert i; decide
  mask := by revert i; decide
  maskFail := by revert i; decide
  own := by revert i; unfold Pin.Apart; decide
  others := by revert i; unfold Pin.Apart; decide
  handler _ := rfl
  handlerFail _ := rfl

theorem blink_before_failure_is_exclusive :
    Separate (boardLedInit twoColours true 0 8) ⟨0, by decide⟩ ∧
      Throughout step (Exclusive ⟨0, by decide⟩) (boardLedInit twoColours true 0 8)
        [.ctrl 0 .blinkOnce, .ledTimer, .ctrl 0 .fail] := by
  refine ⟨twoColours_separate _, ?_⟩
  refine (status_and_failure_exclusive_iff _ _ (twoColours_separate _) (by unfold Exclusive; decide) _).mpr ?_
  refine ⟨fun _ _ => by decide, fun _ => by decide, fun hstate => absurd hstate (by decide), trivial⟩

theorem blink_in_failure_lights_both :
    ∃ (i : Fin (gLedCount twoColours)) (es : List Event), Separate (boardLedInit twoColours true 0 8) i ∧
      Exclusive i (boardLedInit twoColours true 0 8) ∧ Along step Enabled (boardLedInit twoColours true 0 8) es ∧
        ¬ Exclusive i (es.foldl step (boardLedInit twoColours true 0 8)) := by
  refine ⟨⟨0, by decide⟩, [.ctrl 0 .fail, .ctrl 0 .blinkOnce], twoColours_separate _, ?_, ?_, ?_⟩
  · unfold Exclusive
    decide
  · decide
  · unfold Exclusive
    decide

end Exclusive

section Match

def Fits (state : LedState) (lit : Bool) : Prop := (state = .on → lit = true) ∧ (state = .off → lit = false)

structure View.Ok (v : View) : Prop where
  fits : v.info.ledState ≠ .blinkOnce → v.info.savedLedState = v.info.ledState ∧ Fits v.info.ledState v.lit
  once : v.info.ledState = .blinkOnce →
    v.info.savedLedState ≠ .blinkOnce ∧ v.info.blinkCountDown ≠ 0 ∧ Fits v.info.savedLedState (!v.lit)

theorem View.Ok.of_steady {v : View} (state : LedState) (hstate : v.info.ledState = state)
    (hsaved : v.info.savedLedState = state) (hne : state ≠ .blinkOnce) (hfits : Fits state v.lit) : v.Ok where
  fits _ := ⟨hsaved.trans hstate.symm, hstate ▸ hfits⟩
  once h := absurd (hstate.symm.trans h) hne

theorem View.Ok.ctrl {v : View} (h : v.Ok) (once : Bool) (ledState : LedState) : (v.ctrl once ledState).Ok := by
  cases ledState with
  | on => exact .of_steady _ rfl rfl nofun ⟨fun _ => rfl, nofun⟩
  | off => exact .of_steady _ rfl rfl nofun ⟨nofun, fun _ => rfl⟩
  | fail | slowBlinkContinues | fastBlinkContinues => exact .of_steady _ rfl rfl nofun ⟨nofun, nofun⟩
  | other => exact h
  | blinkOnce =>
      rw [View.ctrl]
      split_ifs with hcontinues hwaits
      · exact h
      · exact h
      · rw [not_or, not_not] at hwaits
        -- the blink before this one has ended
        have hne : v.info.ledState ≠ .blinkOnce := fun hstate => (h.once hstate).2.1 hwaits.1
        obtain ⟨hsaved, hfits⟩ := h.fits hne
        refine ⟨fun hc => absurd rfl hc, fun _ => ⟨hsaved ▸ hne, one_ne_zero, ?_⟩⟩
        dsimp only
        rwa [Bool.not_not, hsaved]

theorem View.expire_once {v : View} (hstate : v.info.ledState = .blinkOnce) : v.expire =
    ⟨{ v.info with blinkCountDown := 0, ledState := v.info.savedLedState }, !v.lit, v.litFail⟩ := by
  rw [View.expire, LedInfo.expire, LedInfo.toggles, hstate]
  rfl

theorem LedInfo.expire_state {l : LedInfo} (hstate : l.ledState ≠ .blinkOnce) : l.expire.ledState = l.ledState := by
  rw [LedInfo.expire]
  split
  case h_4 h => exact absurd h hstate
  all_goals rfl

theorem Fits.of_toggles {l : LedInfo} (hstate : l.ledState ≠ .blinkOnce) (h : l.toggles = true) (lit : Bool) :
    Fits l.ledState lit := by
  rw [LedInfo.toggles] at h
  cases hl : l.ledState with
  | blinkOnce => exact absurd hl hstate
  | slowBlinkContinues | fastBlinkContinues => exact ⟨fun hon => LedState.noConfusion hon, fun hoff => LedState.noConfusion hoff⟩
  | on | off | fail | other => simp [hl] at h

theorem View.Ok.expire {v : View} (h : v.Ok) : v.expire.Ok := by
  by_cases hstate : v.info.ledState = .blinkOnce
  · obtain ⟨hne, -, hfits⟩ := h.once hstate
    rw [View.expire_once hstate]
    exact .of_steady _ rfl rfl hne hfits
  · obtain ⟨hsaved, hfits⟩ := h.fits hstate
    refine .of_steady v.info.ledState (LedInfo.expire_state hstate) ((expire_saved v.info).trans hsaved) hstate ?_
    rw [View.expire]
    dsimp only
    split
    case isTrue htoggles => exact .of_toggles hstate htoggles _
    case isFalse => exact hfits

structure Ok (s : Sys n) : Prop where
  separate : ∀ i, Separate s i
  led : ∀ i, (view i s).Ok

theorem Ok.next {s : Sys n} (h : Ok s) (e : Event) : Ok (step s e) := by
  refine ⟨fun i => (h.separate i).next e, fun i => ?_⟩
  rw [(h.separate i).view_step]
  cases e with
  | ctrl ledName ledState =>
      rw [View.next]
      split
      · exact (h.led i).ctrl ..
      · exact h.led i
  | ledTimer => exact (h.led i).expire
  | blinkOnceTimer => exact h.led i

def Undisturbed (i : Fin n) (s : Sys n) : Event → Prop
  | .ctrl ledName _ => s.ledInfoPtr ledName ≠ some i
  | .ledTimer => False
  | .blinkOnceTimer => True

theorem Separate.view_undisturbed {i : Fin n} {s : Sys n} (h : Separate s i) {es : List Event}
    (hes : Along step (Undisturbed i) s es) : Separate (es.foldl step s) i ∧ view i (es.foldl step s) = view i s := by
  induction es generalizing s with
  | nil => exact ⟨h, rfl⟩
  | cons e es ih =>
      obtain ⟨hsep, hview⟩ := ih (h.next e) hes.2
      refine ⟨hsep, hview.trans ?_⟩
      rw [h.view_step]
      cases e with
      | ctrl ledName ledState => exact if_neg hes.1
      | ledTimer => exact hes.1.elim
      | blinkOnceTimer => rfl

def Matches (s : Sys n) : Prop := ∀ i, Fits (s.led i).ledState ((s.led i).pin.lit s.gpioIo)

/-- A blink that starts in `s` and is not disturbed ends where it started. -/
def Restores (s : Sys n) : Prop :=
  ∀ (i : Fin n) (ledName : Nat) (es : List Event), StartsBlink i s ledName →
    Along step (Undisturbed i) (step s (.ctrl ledName .blinkOnce)) es →
      let s' := step (es.foldl step (step s (.ctrl ledName .blinkOnce))) .ledTimer
      (s'.led i).ledState = (s.led i).ledState ∧ (s'.led i).pin.lit s'.gpioIo = (s.led i).pin.lit s.gpioIo

theorem Ok.matches {s : Sys n} (h : Ok s) : Matches s := by
  intro i
  by_cases hstate : (s.led i).ledState = .blinkOnce
  · rw [hstate]
    exact ⟨nofun, nofun⟩
  · exact ((h.led i).fits hstate).2

theorem Ok.restores {s : Sys n} (h : Ok s) : Restores s := by
  intro i ledName es hstarts hes
  have hne : (s.led i).ledState ≠ .blinkOnce := fun hstate => ((h.led i).once hstate).2.1 hstarts.count
  obtain ⟨hsep, hview⟩ := ((h.separate i).next (.ctrl ledName .blinkOnce)).view_undisturbed hes
  have hend : view i (step (es.foldl step (step s (.ctrl ledName .blinkOnce))) .ledTimer) =
      ⟨{ s.led i with blinkCountDown := 0, ledState := (s.led i).savedLedState }, (view i s).lit, (view i s).litFail⟩ := by
    rw [hsep.view_step, View.next, hview, (h.separate i).view_startsBlink hstarts, View.expire_once rfl, Bool.not_not]
  have hinfo := congrArg View.info hend
  have hlit := congrArg View.lit hend
  exact ⟨(congrArg LedInfo.ledState hinfo).trans ((h.led i).fits hne).1, hlit⟩

theorem led_pins_match (s : Sys n) (hsep : ∀ i, Separate s i) (honce : ∀ i, (s.led i).ledState ≠ .blinkOnce)
    (hsaved : ∀ i, (s.led i).savedLedState = (s.led i).ledState) (hmatches : Matches s) (es : List Event) :
    Throughout step (fun s => Matches s ∧ Restores s) s es := by
  have hok : Ok s := ⟨hsep, fun i => .of_steady (s.led i).ledState rfl (hsaved i) (honce i) (hmatches i)⟩
  have hany : Along step (fun _ _ => True) s es := .of_forall (fun _ _ => trivial) s es
  exact Throughout.of_invariant (fun _ h => ⟨h.matches, h.restores⟩) (fun _ e h _ _ => h.next e) hok hany hany

theorem twoColours_match :
    (∀ i, Separate (boardLedInit twoColours true 0 8) i) ∧
      Throughout step (fun s => Matches s ∧ Restores s) (boardLedInit twoColours true 0 8)
        [.ctrl 0 .blinkOnce, .ctrl 3 .on, .ledTimer, .ctrl 0 .fail] := by
  have hmatches : Matches (boardLedInit twoColours true 0 8) := by
    unfold Matches Fits
    decide
  exact ⟨twoColours_separate, led_pins_match _ twoColours_separate (by decide) (by decide) hmatches _⟩

end Match

end AliceModem.Led
