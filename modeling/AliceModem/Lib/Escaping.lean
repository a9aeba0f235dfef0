import Mathlib.Data.List.Basic

namespace AliceModem.Escaping

variable {α : Type*} [DecidableEq α] (esc : α) (special : α → Bool)

def escapeChar (c : α) : List α := if special c then [esc, c] else [c]

/-- The text with `esc` in front of every special character. -/
def escape (s : List α) : List α := s.flatMap (escapeChar esc special)

/-- A scan from left to right that drops each `esc` and keeps what stands behind
it. It fails at the end of the text behind an `esc`, and at a special character
that has none in front of it. -/
def unescape : List α → Option (List α)
  | [] => some []
  | [c] => if c = esc ∨ special c then none else some [c]
  | c :: d :: s =>
      if c = esc then (unescape s).map (d :: ·)
      else if special c then none
      else (unescape (d :: s)).map (c :: ·)

variable {esc special}

omit [DecidableEq α] in
theorem escape_cons (c : α) (s : List α) : escape esc special (c :: s) = escapeChar esc special c ++ escape esc special s :=
  List.flatMap_cons

omit [DecidableEq α] in
theorem mem_escape {c : α} {s : List α} (h : c ∈ escape esc special s) : c = esc ∨ c ∈ s := by
  obtain ⟨d, hd, hc⟩ := List.mem_flatMap.mp h
  rw [escapeChar] at hc
  split at hc
  · rcases List.mem_cons.mp hc with rfl | hc
    · exact .inl rfl
    · exact .inr (List.mem_singleton.mp hc ▸ hd)
  · exact .inr (List.mem_singleton.mp hc ▸ hd)

/-- A character that is not special stands for itself. -/
theorem unescape_plain (hesc : special esc = true) {c : α} (hc : special c = false) (s : List α) :
    unescape esc special (c :: s) = (unescape esc special s).map (c :: ·) := by
  have hne : c ≠ esc := by
    rintro rfl
    rw [hesc] at hc
    cases hc
  cases s with
  | nil => simp [unescape, hc, hne]
  | cons d s => simp [unescape, hc, hne]

theorem unescape_escape (hesc : special esc = true) (s : List α) : unescape esc special (escape esc special s) = some s := by
  induction s with
  | nil => rfl
  | cons c s ih =>
      rw [escape_cons, escapeChar]
      cases hc : special c with
      | true => simp [unescape, ih]
      | false => simp [unescape_plain hesc hc, ih]

theorem escape_injective (hesc : special esc = true) : Function.Injective (escape esc special) := by
  intro s t h
  have hs := unescape_escape hesc s
  rw [h, unescape_escape hesc t] at hs
  exact (Option.some.inj hs).symm

end AliceModem.Escaping
