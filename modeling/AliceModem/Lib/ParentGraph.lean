import Mathlib.Combinatorics.SimpleGraph.Acyclic

namespace AliceModem.ParentGraph

variable {V ρ : Type*} [LinearOrder ρ] {R : V → V → Prop} {rank : V → ρ}

def graph (R : V → V → Prop) : SimpleGraph V := SimpleGraph.fromRel R

theorem graph_adj (hrank : ∀ v w, R v w → rank w < rank v) {v w : V} : (graph R).Adj v w ↔ R v w ∨ R w v := by
  rw [graph, SimpleGraph.fromRel_adj, and_iff_right_iff_imp]
  rintro (h | h) rfl
  · exact lt_irrefl _ (hrank v v h)
  · exact lt_irrefl _ (hrank v v h)

/-- A vertex of highest rank on a cycle would have two parents. -/
theorem isAcyclic (hrank : ∀ v w, R v w → rank w < rank v) (hfun : ∀ v w w', R v w → R v w' → w = w') :
    (graph R).IsAcyclic := by
  classical
  intro v c hc
  obtain ⟨u, hu, hmax⟩ := c.support.toFinset.exists_max_image rank ⟨v, List.mem_toFinset.mpr c.start_mem_support⟩
  have hu : u ∈ c.support := List.mem_toFinset.mp hu
  have hcycle : (c.rotate u hu).IsCycle := hc.rotate hu
  have hparent {w : V} (hw : w ∈ (c.rotate u hu).support) (hadj : (graph R).Adj u w) : R u w := by
    rcases (graph_adj hrank).mp hadj with h | h
    · exact h
    · have hw : w ∈ c.support := (c.mem_support_rotate_iff u hu).mp hw
      exact absurd (hrank w u h) (not_lt.mpr (hmax w (List.mem_toFinset.mpr hw)))
  have hnil := hcycle.not_nil
  refine hcycle.snd_ne_penultimate (hfun u _ _ (hparent ?_ ((c.rotate u hu).adj_snd hnil))
    (hparent ?_ ((c.rotate u hu).adj_penultimate hnil).symm))
  · exact SimpleGraph.Walk.getVert_mem_support _ _
  · exact SimpleGraph.Walk.getVert_mem_support _ _

end AliceModem.ParentGraph
