import Mathlib.Data.Finset.Card

namespace AliceModem.References

variable {η α : Type*} [DecidableEq η] [DecidableEq α]

/-- How many of the live handles refer to `a`. -/
def refs (live : Finset η) (target : η → α) (a : α) : Nat := (live.filter fun h => target h = a).card

variable {live : Finset η} {target target' : η → α} {a : α} {h : η}

omit [DecidableEq η] in
theorem refs_congr (hsame : ∀ k ∈ live, target k = target' k) (a : α) : refs live target a = refs live target' a :=
  congrArg Finset.card (Finset.filter_congr fun k hk => by rw [hsame k hk])

omit [DecidableEq η] in
theorem refs_eq_zero : refs live target a = 0 ↔ ∀ k ∈ live, target k ≠ a := by
  rw [refs, Finset.card_eq_zero, Finset.filter_eq_empty_iff]

omit [DecidableEq η] in
theorem refs_pos (hk : h ∈ live) : 0 < refs live target (target h) :=
  Finset.card_pos.mpr ⟨h, Finset.mem_filter.mpr ⟨hk, rfl⟩⟩

theorem refs_insert (hk : h ∉ live) (a : α) :
    refs (insert h live) target a = refs live target a + if target h = a then 1 else 0 := by
  rw [refs, refs, Finset.filter_insert]
  split
  · exact Finset.card_insert_of_notMem fun hmem => hk (Finset.mem_of_mem_filter h hmem)
  · rfl

theorem refs_erase (hk : h ∈ live) (a : α) :
    refs live target a = refs (live.erase h) target a + if target h = a then 1 else 0 := by
  conv_lhs => rw [← Finset.insert_erase hk]
  exact refs_insert (Finset.notMem_erase h live) a

theorem refs_erase_of_ne (hk : h ∈ live) (hne : target h ≠ a) : refs (live.erase h) target a = refs live target a := by
  rw [refs_erase hk, if_neg hne, Nat.add_zero]

end AliceModem.References
