import AliceModem.Lib.Transition
import Mathlib.Data.List.Chain

namespace AliceModem.ResetButton

open Transition

def maxDelayCount : Nat := 20

/-- An interrupt of the button: the time of its entry and the time it records, in
jiffies that do not wrap around. -/
structure Interrupt where
  entry : Nat
  recorded : Nat
  le : entry ≤ recorded

def jiffies (time : Nat) : UInt32 := UInt32.ofNat time

structure Button where
  gResetCount : Nat
  gLastRcdJiff : UInt32
  enabled : Bool
  past : List Interrupt

def cleanCount (s : Button) (now : UInt32) : Nat :=
  if s.gLastRcdJiff ≠ 0 ∧ s.gResetCount ≠ 0 ∧ now - s.gLastRcdJiff > 100 then 0 else s.gResetCount

def resetIsr (s : Button) (e : Interrupt) : Button :=
  let count := cleanCount s (jiffies e.entry)
  if count < maxDelayCount then ⟨count + 1, jiffies e.recorded, true, e :: s.past⟩
  else ⟨count, s.gLastRcdJiff, false, e :: s.past⟩

def Restores (s : Button) (e : Interrupt) : Prop := maxDelayCount ≤ cleanCount s (jiffies e.entry)

def start : Button := ⟨0, 0, true, []⟩

/-- The interrupt can come, and the pause before it is shorter than a turn of the clock. -/
def Timed (s : Button) (e : Interrupt) : Prop :=
  s.enabled = true ∧ ∀ e' ∈ s.past.head?, e'.recorded ≤ e.entry ∧ e.entry < e'.recorded + 4294967296

instance (s : Button) (e : Interrupt) : Decidable (Timed s e) := inferInstanceAs (Decidable (_ ∧ _))

def Close (e e' : Interrupt) : Prop := e.entry ≤ e'.recorded + 100

instance (e e' : Interrupt) : Decidable (Close e e') := inferInstanceAs (Decidable (_ ≤ _))

def LongPress (es : List Interrupt) : Prop := maxDelayCount < es.length ∧ (es.take (maxDelayCount + 1)).IsChain Close

instance (es : List Interrupt) : Decidable (LongPress es) := inferInstanceAs (Decidable (_ ∧ _))

/-- Only a long press restores the default settings, and the interrupt after a
longer pause is the first one of a new press. -/
def Good (s : Button) (e : Interrupt) : Prop :=
  (Restores s e → LongPress (e :: s.past)) ∧
    ∀ e' ∈ s.past.head?, ¬ Close e e' → ¬ Restores s e ∧ (resetIsr s e).gResetCount = 1

def Seen (s : Button) (e : Interrupt) : Prop := ∀ e' ∈ s.past.head?, ¬ Close e e' → jiffies e'.recorded ≠ 0

instance (s : Button) (e : Interrupt) : Decidable (Seen s e) :=
  inferInstanceAs (Decidable (∀ e' ∈ s.past.head?, ¬ Close e e' → jiffies e'.recorded ≠ 0))

structure Counting (s : Button) : Prop where
  le : s.gResetCount ≤ maxDelayCount
  length : s.gResetCount ≤ s.past.length
  pos : s.past ≠ [] → s.gResetCount ≠ 0
  last : ∀ e' ∈ s.past.head?, s.gLastRcdJiff = jiffies e'.recorded
  chain : (s.past.take s.gResetCount).IsChain Close

theorem jiffies_sub_gt {t r : Nat} (hle : r ≤ t) (hlt : t < r + 4294967296) : jiffies t - jiffies r > 100 ↔ ¬ t ≤ r + 100 := by
  have h100 : (100 : UInt32).toNat = 100 := rfl
  rw [gt_iff_lt, UInt32.lt_iff_toNat_lt, UInt32.toNat_sub, jiffies, jiffies, UInt32.toNat_ofNat', UInt32.toNat_ofNat', h100]
  omega

section Step

variable {s : Button} {e e' : Interrupt} {past : List Interrupt}

theorem Counting.cleanCount_eq (h : Counting s) (hpast : s.past = e' :: past) (htimed : Timed s e) :
    cleanCount s (jiffies e.entry) = if jiffies e'.recorded ≠ 0 ∧ ¬ Close e e' then 0 else s.gResetCount := by
  have hhead : e' ∈ s.past.head? := by rw [hpast]; rfl
  obtain ⟨hle, hlt⟩ := htimed.2 e' hhead
  have hcount : s.gResetCount ≠ 0 := h.pos (by rw [hpast]; exact List.cons_ne_nil e' past)
  rw [cleanCount, h.last e' hhead]
  exact if_congr (and_congr_right fun _ => (and_iff_right hcount).trans (jiffies_sub_gt hle hlt)) rfl rfl

theorem Counting.first (h : Counting s) (hpast : s.past = []) : cleanCount s (jiffies e.entry) = 0 := by
  have hlength := h.length
  rw [hpast] at hlength
  rw [cleanCount, Nat.le_zero.mp hlength, ite_self]

theorem Counting.chain_cons (h : Counting s) (hpast : s.past = e' :: past) (hclose : Close e e') :
    ((e :: s.past).take (s.gResetCount + 1)).IsChain Close := by
  have hcount : s.gResetCount ≠ 0 := h.pos (by rw [hpast]; exact List.cons_ne_nil e' past)
  obtain ⟨k, hk⟩ := Nat.exists_eq_succ_of_ne_zero hcount
  have hchain := h.chain
  rw [hk, hpast] at hchain
  rw [hk, hpast]
  exact .cons_cons hclose hchain

theorem Counting.longPress (h : Counting s) (hpast : s.past = e' :: past) (hclose : Close e e')
    (hcount : maxDelayCount ≤ s.gResetCount) : LongPress (e :: s.past) := by
  have heq : s.gResetCount = maxDelayCount := Nat.le_antisymm h.le hcount
  have hchain := h.chain_cons hpast hclose
  have hlength := h.length
  rw [heq] at hchain hlength
  exact ⟨Nat.lt_succ_of_le hlength, hchain⟩

theorem Counting.good_iff (h : Counting s) (htimed : Timed s e) : Good s e ↔ Seen s e := by
  cases hpast : s.past with
  | nil =>
      have hclean := h.first (e := e) hpast
      refine iff_of_true ⟨fun hrestores => ?_, ?_⟩ ?_
      · rw [Restores, hclean] at hrestores
        exact absurd hrestores (by decide)
      · simp [hpast]
      · simp [Seen, hpast]
  | cons e' past =>
      have hclean := h.cleanCount_eq hpast htimed
      have hcount : s.gResetCount ≠ 0 := h.pos (by rw [hpast]; exact List.cons_ne_nil e' past)
      have hhead (P : Interrupt → Prop) : (∀ e' ∈ s.past.head?, P e') ↔ P e' := by
        simp [hpast]
      rw [Good, Seen, hhead, hhead, Restores, resetIsr, hclean]
      by_cases hclose : Close e e'
      · rw [if_neg (fun hc => hc.2 hclose)]
        exact iff_of_true ⟨h.longPress hpast hclose, fun hc => absurd hclose hc⟩ (fun hc => absurd hclose hc)
      · by_cases hzero : jiffies e'.recorded = 0
        · rw [if_neg (fun hc => hc.1 hzero)]
          refine iff_of_false (fun hc => ?_) (fun hc => hc hclose hzero)
          obtain ⟨hlt, hone⟩ := hc.2 hclose
          rw [if_pos (Nat.lt_of_not_le hlt)] at hone
          exact hcount (Nat.succ.inj hone)
        · rw [if_pos ⟨hzero, hclose⟩]
          exact iff_of_true ⟨fun hc => absurd hc (by decide), fun _ => ⟨by decide, rfl⟩⟩ (fun _ => hzero)

theorem Counting.clean_cases (h : Counting s) (htimed : Timed s e) (hseen : Seen s e) :
    cleanCount s (jiffies e.entry) = 0 ∨
      cleanCount s (jiffies e.entry) = s.gResetCount ∧ ∃ e' past, s.past = e' :: past ∧ Close e e' := by
  cases hpast : s.past with
  | nil => exact .inl (h.first hpast)
  | cons e' past =>
      rw [h.cleanCount_eq hpast htimed]
      by_cases hclose : Close e e'
      · exact .inr ⟨if_neg (fun hc => hc.2 hclose), e', past, rfl, hclose⟩
      · exact .inl (if_pos ⟨hseen e' (by simp [hpast]) hclose, hclose⟩)

theorem Counting.next (h : Counting s) (htimed : Timed s e) (hseen : Seen s e) (hon : (resetIsr s e).enabled = true) :
    Counting (resetIsr s e) := by
  rw [resetIsr] at hon ⊢
  split at hon
  case isFalse => exact absurd hon Bool.false_ne_true
  case isTrue hlt =>
    rw [if_pos hlt]
    have hlast : ∀ e' ∈ (e :: s.past).head?, jiffies e.recorded = jiffies e'.recorded := by simp
    rcases h.clean_cases htimed hseen with hclean | ⟨hclean, e', past, hpast, hclose⟩
    · rw [hclean] at hlt ⊢
      exact ⟨hlt, Nat.succ_le_succ (Nat.zero_le _), fun _ => Nat.one_ne_zero, hlast, .singleton e⟩
    · rw [hclean] at hlt ⊢
      exact ⟨hlt, Nat.succ_le_succ h.length, fun _ => Nat.succ_ne_zero _, hlast, h.chain_cons hpast hclose⟩

end Step

/-- The default settings are restored only by a long press, and a longer pause
starts the count again, if and only if no longer pause follows a time that is
recorded as zero. -/
theorem restore_needs_long_press_iff (es : List Interrupt) (htimed : Along resetIsr Timed start es) :
    Along resetIsr Good start es ↔ Along resetIsr Seen start es := by
  have hstart : Counting start := ⟨Nat.zero_le _, Nat.zero_le _, fun h => absurd rfl h, nofun, .nil⟩
  exact along_iff (I := fun s => s.enabled = true → Counting s) (fun s e hs ht hseen => ((hs ht.1).good_iff ht).mpr hseen)
    (fun s e hs ht hseen hon => (hs ht.1).next ht hseen hon) (fun s e hs ht hgood => ((hs ht.1).good_iff ht).mp hgood)
    (fun _ => hstart) htimed

def press (time count : Nat) : List Interrupt :=
  (List.range count).map fun k => ⟨time + 40 * k, time + 40 * k + 30, Nat.le_add_right _ _⟩

theorem long_press_restores :
    Along resetIsr Timed start (press 1000 21) ∧ Along resetIsr Good start (press 1000 21) ∧
      ((press 1000 21).foldl resetIsr start).enabled = false := by
  have htimed : Along resetIsr Timed start (press 1000 21) := by decide +kernel
  exact ⟨htimed, (restore_needs_long_press_iff _ htimed).mpr (by decide +kernel), by decide +kernel⟩

theorem short_press_restores :
    ∃ es : List Interrupt, Along resetIsr Timed start es ∧ (es.foldl resetIsr start).enabled = false ∧
      ¬ LongPress es.reverse := by
  refine ⟨⟨4294967266, 4294967296, by decide⟩ :: press 4294968296 20, ?_, ?_, ?_⟩
  · decide +kernel
  · decide +kernel
  · decide +kernel

end AliceModem.ResetButton
