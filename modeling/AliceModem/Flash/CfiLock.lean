import AliceModem.Lib.Transition
import Mathlib.Logic.Function.Basic
import Mathlib.Tactic.SplitIfs

namespace AliceModem.CfiLock

open Transition

inductive Fn
  | sectorEraseInt
  | readBuf
  | write (odd : Bool)

def Fn.ups : Fn → Bool
  | .sectorEraseInt | .readBuf => true
  | .write odd => !odd

inductive Call
  | sectorEraseInt (sector : Nat)
  | readBuf (sector : Nat) (offset numbytes : Int)
  | write (sector : Nat) (offset nbytes : Int)
  | writeBuf (sector : Nat) (offset numbytes : Int)

def isOdd (offset nbytes : Int) : Bool := offset % 2 = 1 ∨ nbytes % 2 = 1

def Call.isEven : Call → Bool
  | .sectorEraseInt _ | .readBuf _ _ _ => true
  | .write _ offset nbytes | .writeBuf _ offset nbytes => !isOdd offset nbytes

inductive Cont
  | ret
  | writeBuf (i : Nat) (odd : Bool)

def Cont.isEven : Cont → Bool
  | .ret => true
  | .writeBuf _ odd => !odd

/-- Where a caller is. `acquired` tells whether the semaphore was obtained. -/
inductive Pc
  | idle
  | enter (f : Fn) (k : Cont)
  | inside (f : Fn) (k : Cont) (acquired : Bool)
  | compare (i : Nat) (odd : Bool)

def Call.entry : Call → Pc
  | .sectorEraseInt _ => .enter .sectorEraseInt .ret
  | .readBuf _ _ _ => .enter .readBuf .ret
  | .write _ offset nbytes => .enter (.write (isOdd offset nbytes)) .ret
  | .writeBuf _ offset numbytes => .enter (.write (isOdd offset numbytes)) (.writeBuf 0 (isOdd offset numbytes))

def Cont.after (f : Fn) : Cont → Pc
  | .ret => .idle
  | .writeBuf i odd =>
      match f with
      | .write _ => .compare i odd
      | .sectorEraseInt | .readBuf => if i + 1 < 3 then .enter (.write odd) (.writeBuf (i + 1) odd) else .idle

def compared (i : Nat) (odd equal : Bool) : Pc := if equal then .idle else .enter .sectorEraseInt (.writeBuf i odd)

structure Sys (ι : Type) where
  count : Nat
  pc : ι → Pc

variable {ι : Type} [DecidableEq ι]

inductive Event (ι : Type)
  | call (i : ι) (c : Call)
  | down (i : ι) (interrupted : Bool)
  | leave (i : ι)
  | compare (i : ι) (equal : Bool)

/-- The result of the interruptible acquire is not looked at. -/
def step (s : Sys ι) : Event ι → Sys ι
  | .call i c => { s with pc := Function.update s.pc i c.entry }
  | .down i interrupted =>
      match s.pc i with
      | .enter f k =>
          { s with
            count := if interrupted then s.count else s.count - 1
            pc := Function.update s.pc i (.inside f k !interrupted) }
      | _ => s
  | .leave i =>
      match s.pc i with
      | .inside f k _ => { count := if f.ups then s.count + 1 else s.count, pc := Function.update s.pc i (k.after f) }
      | _ => s
  | .compare i equal =>
      match s.pc i with
      | .compare r odd => { s with pc := Function.update s.pc i (compared r odd equal) }
      | _ => s

def Pc.isInside : Pc → Bool
  | .inside _ _ _ => true
  | _ => false

def AllIdle (pc : ι → Pc) : Prop := ∀ i, pc i = .idle

def AtMostOne (pc : ι → Pc) : Prop := ∀ i j, (pc i).isInside = true → (pc j).isInside = true → i = j

/-- A caller that is not interrupted waits for the semaphore. -/
def Enabled (s : Sys ι) : Event ι → Prop
  | .call i _ => s.pc i = .idle
  | .down i interrupted => (∃ f k, s.pc i = .enter f k) ∧ (interrupted = false → 0 < s.count)
  | .leave i => ∃ f k acquired, s.pc i = .inside f k acquired
  | .compare i _ => ∃ r odd, s.pc i = .compare r odd

/-- No two callers are inside, and after the calls the semaphore is free once. -/
def Balanced (s : Sys ι) : Prop := AtMostOne s.pc ∧ (AllIdle s.pc → s.count = 1)

/-- No acquire is interrupted, and no write has an odd offset or length. -/
def Proper (_ : Sys ι) : Event ι → Prop
  | .call _ c => c.isEven
  | .down _ interrupted => interrupted = false
  | .leave _ | .compare _ _ => True

def Pc.Sound : Pc → Prop
  | .idle => True
  | .enter f k => f.ups ∧ k.isEven
  | .inside f k acquired => f.ups ∧ k.isEven ∧ acquired
  | .compare _ odd => odd = false

theorem entry_sound {c : Call} (h : c.isEven) : c.entry.Sound ∧ c.entry.isInside = false := by
  cases c with
  | sectorEraseInt | readBuf => exact ⟨⟨rfl, rfl⟩, rfl⟩
  | write => exact ⟨⟨h, rfl⟩, rfl⟩
  | writeBuf => exact ⟨⟨h, h⟩, rfl⟩

theorem after_sound (f : Fn) {k : Cont} (h : k.isEven) : (k.after f).Sound ∧ (k.after f).isInside = false := by
  cases k with
  | ret => exact ⟨trivial, rfl⟩
  | writeBuf i odd =>
      obtain rfl : odd = false := by simpa [Cont.isEven] using h
      cases f with
      | write => exact ⟨rfl, rfl⟩
      | sectorEraseInt | readBuf =>
          rw [Cont.after]
          split_ifs
          · exact ⟨⟨rfl, rfl⟩, rfl⟩
          · exact ⟨trivial, rfl⟩

theorem compared_sound (r : Nat) (equal : Bool) :
    (compared r false equal).Sound ∧ (compared r false equal).isInside = false := by
  cases equal with
  | false => exact ⟨⟨rfl, rfl⟩, rfl⟩
  | true => exact ⟨trivial, rfl⟩

structure Held (s : Sys ι) : Prop where
  sound : ∀ i, (s.pc i).Sound
  one : AtMostOne s.pc
  count : (∃ i, (s.pc i).isInside = true) ∧ s.count = 0 ∨ (∀ i, (s.pc i).isInside = false) ∧ s.count = 1

section Step

variable {s : Sys ι} {i : ι} {f : Fn} {k : Cont}

omit [DecidableEq ι] in
theorem Held.balanced (h : Held s) : Balanced s := by
  refine ⟨h.one, fun hidle => ?_⟩
  rcases h.count with ⟨⟨i, hi⟩, -⟩ | h
  · rw [hidle i] at hi
    cases hi
  · exact h.2

theorem sound_update {pc : ι → Pc} {p : Pc} (h : ∀ j, (pc j).Sound) (hp : p.Sound) (j : ι) :
    (Function.update pc i p j).Sound := by
  rw [Function.update_apply]
  split_ifs
  · exact hp
  · exact h j

theorem Held.outside (h : Held s) {p : Pc} (hi : (s.pc i).isInside = false) (hp : p.Sound ∧ p.isInside = false) :
    Held { s with pc := Function.update s.pc i p } := by
  have hsame (j) : (Function.update s.pc i p j).isInside = (s.pc j).isInside := by
    rw [Function.update_apply]
    split_ifs with hji
    · rw [hp.2, hji, hi]
    · rfl
  refine ⟨sound_update h.sound hp.1, ?_, ?_⟩
  · simpa only [AtMostOne, hsame] using h.one
  · simpa only [hsame] using h.count

theorem Held.down (h : Held s) (hi : s.pc i = .enter f k) (hpos : 0 < s.count) : Held (step s (.down i false)) := by
  have hsound := h.sound i
  rw [hi] at hsound
  obtain ⟨hnone, hcount⟩ := h.count.resolve_left fun hc => by omega
  have honly (j : ι) : (Function.update s.pc i (.inside f k true) j).isInside = true ↔ j = i := by
    by_cases hji : j = i
    · simp [hji, Pc.isInside]
    · simp [hji, hnone j]
  rw [step, hi]
  refine ⟨sound_update h.sound ⟨hsound.1, hsound.2, rfl⟩, fun j j' hj hj' => ?_, .inl ⟨⟨i, (honly i).mpr rfl⟩, ?_⟩⟩
  · exact ((honly j).mp hj).trans ((honly j').mp hj').symm
  · exact congrArg (· - 1) hcount

theorem Held.leave (h : Held s) {acquired : Bool} (hi : s.pc i = .inside f k acquired) : Held (step s (.leave i)) := by
  have hin : (s.pc i).isInside = true := by rw [hi]; rfl
  have hsound := h.sound i
  rw [hi] at hsound
  obtain ⟨hups, heven, -⟩ := hsound
  obtain ⟨hafter, hout⟩ := after_sound f heven
  obtain ⟨-, hcount⟩ := h.count.resolve_right fun hc => absurd hin (by simp [hc.1 i])
  have hnone (j : ι) : (Function.update s.pc i (k.after f) j).isInside = false := by
    rw [Function.update_apply]
    split_ifs with hji
    · exact hout
    · exact Bool.eq_false_iff.mpr fun hj => hji (h.one j i hj hin)
  rw [step, hi]
  dsimp only
  rw [hups, hcount]
  exact ⟨sound_update h.sound hafter, fun j _ hj => absurd hj (by simp [hnone j]), .inr ⟨hnone, rfl⟩⟩

theorem Held.step (h : Held s) {e : Event ι} (he : Enabled s e) (hc : Proper s e) : Held (step s e) := by
  cases e with
  | call i c =>
      have hi : s.pc i = .idle := he
      exact h.outside (by rw [hi]; rfl) (entry_sound hc)
  | down i interrupted =>
      obtain ⟨⟨f, k, hi⟩, hpos⟩ := he
      obtain rfl : interrupted = false := hc
      exact h.down hi (hpos rfl)
  | leave i =>
      obtain ⟨f, k, acquired, hi⟩ := he
      exact h.leave hi
  | compare i equal =>
      obtain ⟨r, odd, hi⟩ := he
      have hsound := h.sound i
      rw [hi] at hsound
      obtain rfl : odd = false := hsound
      rw [CfiLock.step, hi]
      exact h.outside (by rw [hi]; rfl) (compared_sound r equal)

end Step

def start (ι : Type) : Sys ι := ⟨1, fun _ => .idle⟩

omit [DecidableEq ι] in
theorem start_held : Held (start ι) :=
  ⟨fun _ => trivial, fun _ _ hi => absurd hi Bool.false_ne_true, .inr ⟨fun _ => rfl, rfl⟩⟩

/-- For any callers and any interleaving: as long as no acquire is interrupted and no write has an odd offset or length,
the lock is balanced throughout. -/
theorem balanced_of_proper {es : List (Event ι)} (hE : Along step Enabled (start ι) es)
    (hC : Along step Proper (start ι) es) : Throughout step Balanced (start ι) es :=
  Throughout.of_invariant (I := Held) (fun _ h => h.balanced) (fun _ _ h he hc => h.step he hc) start_held hE hC

def retryRun : List (Event Bool) :=
  [.call true (.writeBuf 3 0 2), .call false (.readBuf 4 1 5), .down true false, .leave true, .down false false,
    .compare true false, .leave false, .down true false, .leave true, .down true false, .leave true, .compare true true]

theorem retryRun_balanced : Throughout step Balanced (start Bool) retryRun := by
  refine balanced_of_proper ?_ ?_
  · exact ⟨rfl, rfl, ⟨⟨_, _, rfl⟩, fun _ => Nat.one_pos⟩, ⟨_, _, _, rfl⟩, ⟨⟨_, _, rfl⟩, fun _ => Nat.one_pos⟩, ⟨_, _, rfl⟩,
      ⟨_, _, _, rfl⟩, ⟨⟨_, _, rfl⟩, fun _ => Nat.one_pos⟩, ⟨_, _, _, rfl⟩, ⟨⟨_, _, rfl⟩, fun _ => Nat.one_pos⟩,
      ⟨_, _, _, rfl⟩, ⟨_, _, rfl⟩, trivial⟩
  · exact ⟨rfl, rfl, rfl, trivial, rfl, trivial, trivial, rfl, trivial, rfl, trivial, trivial, trivial⟩

theorem lock_unbalanced :
    (Along step Enabled (start Unit) [.call () (.write 0 0 1), .down () false, .leave ()] ∧
      ¬ Throughout step Balanced (start Unit) [.call () (.write 0 0 1), .down () false, .leave ()]) ∧
    (Along step Enabled (start Unit) [.call () (.sectorEraseInt 0), .down () true, .leave ()] ∧
      ¬ Throughout step Balanced (start Unit) [.call () (.sectorEraseInt 0), .down () true, .leave ()]) ∧
    (Along step Enabled (start Bool) [.call true (.sectorEraseInt 0), .call false (.sectorEraseInt 1),
        .down true false, .down false true] ∧
      ¬ Throughout step Balanced (start Bool) [.call true (.sectorEraseInt 0), .call false (.sectorEraseInt 1),
        .down true false, .down false true]) := by
  refine ⟨⟨⟨rfl, ⟨⟨_, _, rfl⟩, fun _ => Nat.one_pos⟩, ⟨_, _, _, rfl⟩, trivial⟩, fun h => ?_⟩,
    ⟨⟨rfl, ⟨⟨_, _, rfl⟩, fun _ => Nat.one_pos⟩, ⟨_, _, _, rfl⟩, trivial⟩, fun h => ?_⟩,
    ⟨rfl, rfl, ⟨⟨_, _, rfl⟩, fun _ => Nat.one_pos⟩, ⟨⟨_, _, rfl⟩, fun hno => absurd hno (by decide)⟩, trivial⟩,
    fun h => ?_⟩
  · exact absurd (h.last.2 fun _ => rfl) (by decide)
  · exact absurd (h.last.2 fun _ => rfl) (by decide)
  · exact absurd (h.last.1 true false rfl rfl) (by decide)

end AliceModem.CfiLock
