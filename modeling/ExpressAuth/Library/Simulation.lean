import ExpressAuth.Library.Runs

/-!
# Simulation of one machine by another

Each step of the concrete machine is matched by a list of steps of the abstract one, with the same inputs
from outside. Whole runs are then matched by whole runs.
-/

namespace Runs

variable {σ ε τ δ ι : Type*}

/-- `Ok` is what the concrete states of the run have to meet for their steps to be matched. -/
theorem simulated (step : σ → ε → σ) (step' : τ → δ → τ) (inputs : ε → List ι) (inputs' : δ → List ι)
    (Sim : σ → τ → Prop) (Ok : σ → Prop)
    (hstep : ∀ {s t} e, Sim s t → Ok s → Ok (step s e) →
      ∃ ds, ds.flatMap inputs' = inputs e ∧ Sim (step s e) (after step' t ds))
    {s : σ} {t : τ} (hstart : Sim s t) (es : List ε) (hok : ∀ pre, pre <+: es → Ok (after step s pre)) :
    ∃ ds, ds.flatMap inputs' = es.flatMap inputs ∧ Sim (after step s es) (after step' t ds) := by
  induction es using history_induction with
  | h0 => exact ⟨[], rfl, hstart⟩
  | hs es e ih =>
    obtain ⟨ds, hinputs, hsim⟩ := ih (fun pre hpre => hok pre (hpre.trans (List.prefix_append es [e])))
    have hbefore := hok es (List.prefix_append es [e])
    have hafter := hok (es ++ [e]) List.prefix_rfl
    rw [after_concat] at hafter
    obtain ⟨ds', hinputs', hsim'⟩ := hstep e hsim hbefore hafter
    refine ⟨ds ++ ds', ?_, ?_⟩
    · rw [List.flatMap_append, List.flatMap_append, hinputs, hinputs', List.flatMap_singleton]
    · rw [after_concat, after_append]
      exact hsim'

end Runs
