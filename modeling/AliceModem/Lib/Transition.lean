import Mathlib.Logic.Basic

namespace AliceModem.Transition

section

variable {σ : Type*} {init : σ → Prop} {step : σ → σ → Prop}

/-- The states of the runs that start in `init`. -/
inductive Reach (init : σ → Prop) (step : σ → σ → Prop) : σ → Prop
  | start {s : σ} (h : init s) : Reach init step s
  | next {s s' : σ} (h : Reach init step s) (hs : step s s') : Reach init step s'

theorem Reach.invariant {I : σ → Prop} (h0 : ∀ s, init s → I s) (hstep : ∀ s s', I s → step s s' → I s') {s : σ}
    (h : Reach init step s) : I s := by
  induction h with
  | start h => exact h0 _ h
  | next _ hs ih => exact hstep _ _ ih hs

end

section

variable {σ ε : Type*} (step : σ → ε → σ)

def Along (C : σ → ε → Prop) : σ → List ε → Prop
  | _, [] => True
  | s, e :: es => C s e ∧ Along C (step s e) es

instance decidableAlong (C : σ → ε → Prop) [∀ s e, Decidable (C s e)] :
    (s : σ) → (es : List ε) → Decidable (Along step C s es)
  | _, [] => inferInstanceAs (Decidable True)
  | s, e :: es =>
    have := decidableAlong C (step s e) es
    inferInstanceAs (Decidable (C s e ∧ Along step C (step s e) es))

def Throughout (P : σ → Prop) : σ → List ε → Prop
  | s, [] => P s
  | s, e :: es => P s ∧ Throughout P (step s e) es

variable {step} {I P : σ → Prop} {E C : σ → ε → Prop}

theorem Along.of_forall (h : ∀ s e, C s e) (s : σ) (es : List ε) : Along step C s es := by
  induction es generalizing s with
  | nil => trivial
  | cons e es ih => exact ⟨h s e, ih _⟩

theorem along_append {s : σ} {xs ys : List ε} :
    Along step C s (xs ++ ys) ↔ Along step C s xs ∧ Along step C (xs.foldl step s) ys := by
  induction xs generalizing s with
  | nil => exact (iff_of_eq (true_and _)).symm
  | cons x xs ih =>
      rw [List.cons_append, Along, Along, ih, and_assoc]
      rfl

theorem Along.of_invariant {D : σ → ε → Prop} (hD : ∀ s e, I s → E s e → C s e → D s e)
    (hkeep : ∀ s e, I s → E s e → C s e → I (step s e)) {s : σ} (h : I s) {es : List ε}
    (hE : Along step E s es) (hC : Along step C s es) : Along step D s es := by
  induction es generalizing s with
  | nil => trivial
  | cons e es ih => exact ⟨hD s e h hE.1 hC.1, ih (hkeep s e h hE.1 hC.1) hE.2 hC.2⟩

theorem along_iff {D : σ → ε → Prop} (hD : ∀ s e, I s → E s e → C s e → D s e)
    (hkeep : ∀ s e, I s → E s e → C s e → I (step s e)) (hneed : ∀ s e, I s → E s e → D s e → C s e) {s : σ} (h : I s)
    {es : List ε} (hE : Along step E s es) : Along step D s es ↔ Along step C s es := by
  refine ⟨fun hall => ?_, Along.of_invariant hD hkeep h hE⟩
  induction es generalizing s with
  | nil => trivial
  | cons e es ih =>
      have hC := hneed s e h hE.1 hall.1
      exact ⟨hC, ih (hkeep s e h hE.1 hC) hE.2 hall.2⟩

theorem along_iff_of_simulation {τ : Type*} {next : τ → ε → τ} {D : τ → ε → Prop} {R : σ → τ → Prop}
    (hCD : ∀ s t e, R s t → E s e → (C s e ↔ D t e)) (hR : ∀ s t e, R s t → E s e → D t e → R (step s e) (next t e))
    {s : σ} {t : τ} (h : R s t) {es : List ε} (hE : Along step E s es) : Along step C s es ↔ Along next D t es := by
  induction es generalizing s t with
  | nil => exact Iff.rfl
  | cons e es ih =>
      rw [Along, Along, hCD s t e h hE.1]
      exact and_congr_right fun hD => ih (hR s t e h hE.1 hD) hE.2

theorem Throughout.of_invariant (hP : ∀ s, I s → P s) (hkeep : ∀ s e, I s → E s e → C s e → I (step s e)) {s : σ}
    (h : I s) {es : List ε} (hE : Along step E s es) (hC : Along step C s es) : Throughout step P s es := by
  induction es generalizing s with
  | nil => exact hP s h
  | cons e es ih => exact ⟨hP s h, ih (hkeep s e h hE.1 hC.1) hE.2 hC.2⟩

theorem Throughout.head {s : σ} {es : List ε} (h : Throughout step P s es) : P s := by
  cases es with
  | nil => exact h
  | cons e es => exact h.1

theorem Throughout.last {s : σ} {es : List ε} (h : Throughout step P s es) : P (es.foldl step s) := by
  induction es generalizing s with
  | nil => exact h
  | cons e es ih => exact ih h.2

theorem throughout_iff (hP : ∀ s, I s → P s) (hkeep : ∀ s e, I s → E s e → C s e → I (step s e))
    (hneed : ∀ s e, I s → E s e → P (step s e) → C s e) {s : σ} (h : I s) {es : List ε} (hE : Along step E s es) :
    Throughout step P s es ↔ Along step C s es := by
  refine ⟨fun hall => ?_, Throughout.of_invariant hP hkeep h hE⟩
  induction es generalizing s with
  | nil => trivial
  | cons e es ih =>
      have hC := hneed s e h hE.1 hall.2.head
      exact ⟨hC, ih (hkeep s e h hE.1 hC) hE.2 hall.2⟩

end

section

variable {σ ε α : Type*}

variable {step : σ → ε × α → σ} {I P : σ → Prop} {E C : σ → ε → Prop}

end

section

variable {σ : Type*} (more : σ → Bool) (step : σ → σ)

def whileLoop : Nat → σ → Option σ
  | 0, _ => none
  | fuel + 1, s => if more s then whileLoop fuel (step s) else some s

/-- The loop ends in `s'`. -/
def Ends (s s' : σ) : Prop := ∃ fuel, whileLoop more step fuel s = some s'

variable {more step} {s s' t : σ}

theorem Ends.stop (h : more s = false) : Ends more step s s := ⟨1, by rw [whileLoop, h, if_neg Bool.false_ne_true]⟩

theorem Ends.round (h : more s = true) (hrest : Ends more step (step s) s') : Ends more step s s' := by
  obtain ⟨fuel, hfuel⟩ := hrest
  exact ⟨fuel + 1, by rw [whileLoop, if_pos h, hfuel]⟩

theorem ends_map {β : Type*} {f : σ → β} {r : β} :
    (∃ fuel, (whileLoop more step fuel s).map f = some r) ↔ ∃ s', Ends more step s s' ∧ f s' = r := by
  constructor
  · rintro ⟨fuel, h⟩
    obtain ⟨s', hs', hr⟩ := Option.map_eq_some_iff.mp h
    exact ⟨s', ⟨fuel, hs'⟩, hr⟩
  · rintro ⟨s', ⟨fuel, hs'⟩, hr⟩
    exact ⟨fuel, by rw [hs', Option.map_some, hr]⟩

theorem Ends.unique (h : Ends more step s s') (ht : Ends more step s t) : s' = t := by
  obtain ⟨fuel, hfuel⟩ := h
  obtain ⟨fuel', hfuel'⟩ := ht
  induction fuel generalizing s fuel' with
  | zero => cases hfuel
  | succ fuel ih =>
      cases fuel' with
      | zero => cases hfuel'
      | succ fuel' =>
          rw [whileLoop] at hfuel hfuel'
          cases hmore : more s with
          | true =>
              rw [if_pos hmore] at hfuel hfuel'
              exact ih hfuel fuel' hfuel'
          | false =>
              rw [if_neg (Bool.eq_false_iff.mp hmore), Option.some.injEq] at hfuel hfuel'
              exact hfuel.symm.trans hfuel'

theorem Ends.within {m : σ → Nat} (h : Ends more step s s') (hless : ∀ s, more s = true → m (step s) < m s) {fuel : Nat}
    (hfuel : m s < fuel) : whileLoop more step fuel s = some s' := by
  induction fuel generalizing s with
  | zero => cases hfuel
  | succ fuel ih =>
      cases hmore : more s with
      | true =>
          obtain ⟨n, hn⟩ := h
          cases n with
          | zero => cases hn
          | succ n =>
              rw [whileLoop, if_pos hmore] at hn ⊢
              exact ih ⟨n, hn⟩ (Nat.lt_of_lt_of_le (hless s hmore) (Nat.le_of_lt_succ hfuel))
      | false =>
          rw [h.unique (Ends.stop hmore), whileLoop, if_neg (Bool.eq_false_iff.mp hmore)]

theorem Ends.invariant {I : σ → Prop} (h : Ends more step s s') (hkeep : ∀ s, I s → more s = true → I (step s)) (hs : I s) :
    I s' ∧ more s' = false := by
  obtain ⟨fuel, hfuel⟩ := h
  induction fuel generalizing s with
  | zero => cases hfuel
  | succ fuel ih =>
      rw [whileLoop] at hfuel
      cases hmore : more s with
      | true =>
          rw [if_pos hmore] at hfuel
          exact ih (hkeep s hs hmore) hfuel
      | false =>
          rw [if_neg (Bool.eq_false_iff.mp hmore), Option.some.injEq] at hfuel
          exact hfuel ▸ ⟨hs, hmore⟩

end

end AliceModem.Transition
