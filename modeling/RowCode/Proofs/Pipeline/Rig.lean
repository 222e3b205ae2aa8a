import RowCode.Pipeline.Rig
import RowCode.Proofs.Pipeline.Calls

/-!
# Rigs as pipelines

A rig answers as its pipeline does (`Rig.run_pipeline`): what its runners hold
between two rows is never seen. A run clears the stack before it starts and a
row is bound before every run, so the outcome of a runner is that of its
program on the row alone (`Runner.eval_outcome`, `Runner.evalAll_outcome`). The
rest follows the plan; for a tandem it is the loop, which commutes with every
map that its calls commute with (`pump_map`).
-/

namespace RowCode

/-! ## Runners -/

namespace Runner

theorem eval_outcome (r : Runner) (row : Row) :
    (r.eval row).1 = (r.program.eval row).map fun v => (v, row) := by
  simp only [eval, bind, run, Program.eval]
  cases r.program.run (some row) <;> rfl

theorem evalAll_outcome (r : Runner) (row : Row) :
    (r.evalAll row).1 = r.program.evalAll row := by
  simp only [evalAll, bind, run, Program.evalAll]
  cases r.program.run (some row) <;> rfl

end Runner

/-! ## Loops -/

/-- Loops whose calls correspond under maps of their states correspond. -/
theorem pump_map {σ σ' τ τ' : Type} {pull : σ → Answer × σ} {pull' : σ' → Answer × σ'}
    {put : Row → τ → Answer × τ} {put' : Row → τ' → Answer × τ'}
    {last : τ → Answer × τ} {last' : τ' → Answer × τ'} {f : σ → σ'} {g : τ → τ'}
    (hpull : ∀ s, pull' (f s) = Prod.map id f (pull s))
    (hput : ∀ row t, put' row (g t) = Prod.map id g (put row t))
    (hlast : ∀ t, last' (g t) = Prod.map id g (last t)) :
    ∀ (fuel : Nat) (s : σ) (t : τ),
      pump pull' put' last' fuel (f s) (g t) =
        Prod.map id (Prod.map f g) (pump pull put last fuel s t)
  | 0, s, t => by
      rw [pump, pump, hlast]
      rfl
  | fuel + 1, s, t => by
      rw [pump, pump, hpull]
      rcases pull s with ⟨_ | _ | row, s'⟩
      · rfl
      · simp only [Prod.map, id, hlast]
      · simp only [Prod.map, id, hput]
        rcases put row t with ⟨_ | _ | out, t'⟩
        · rfl
        · exact pump_map hpull hput hlast fuel s' t'
        · rfl

/-! ## Stages and plans at work -/

variable [KeyMap]

theorem Plan.put_filter (p : Program) (row : Row) (m : Unit) :
    (stage (.filter p)).put row m = (p.eval row >>= Stage.verdict row, m) := by
  rw [put, Stage.put]
  rcases p.eval row with e | v
  · rfl
  · cases hverdict : Stage.verdict row v <;> simp only [Bind.bind, Except.bind, hverdict]

theorem Plan.put_project (p : Program) (row : Row) (m : Unit) :
    (stage (.project p)).put row m = ((p.evalAll row).map some, m) := by
  rw [put, Stage.put]
  cases p.evalAll row <;> rfl

namespace Stage

theorem memory_start (s : Stage) : s.memory s.start = s.empty := by
  cases s <;> rfl

theorem put_memory (s : Stage) (row : Row) (state : s.State) :
    (Plan.stage s).put row (s.memory state) = Prod.map id s.memory (s.work row state) := by
  cases s with
  | filter p =>
      have houtcome := state.runner.eval_outcome row
      rw [state.holds] at houtcome
      simp only [Plan.put_filter, work, Worker.eval, houtcome]
      cases p.eval row <;> rfl
  | project p =>
      have houtcome := state.runner.evalAll_outcome row
      rw [state.holds] at houtcome
      simp only [Plan.put_project, work, Worker.evalAll, houtcome]
      cases p.evalAll row <;> rfl
  | aggregate aggs => rfl
  | groupBy columns aggs => rfl

theorem get_memory (s : Stage) (state : s.State) :
    (Plan.stage s).get (s.memory state) = Prod.map id s.memory (s.draw state) := by
  cases s <;> rfl

end Stage

namespace Plan

theorem memory_start : ∀ p : Plan, p.memory p.start = p.empty
  | identity => rfl
  | stage s => s.memory_start
  | tandem front back => by
      rw [start, memory, memory_start front, memory_start back]
      rfl

theorem put_memory : ∀ (p : Plan) (row : Row) (state : p.State),
    p.put row (p.memory state) = Prod.map id p.memory (p.work row state)
  | identity, _, _ => rfl
  | stage s, row, state => s.put_memory row state
  | tandem front back, row, (m, n) => by
      rw [memory, put, work, put_memory front]
      rcases front.work row m with ⟨_ | _ | out, m'⟩
      · rfl
      · rfl
      · simp only [Prod.map, id, put_memory back]
        rfl

theorem get_memory : ∀ (p : Plan) (state : p.State),
    p.get (p.memory state) = Prod.map id p.memory (p.draw state)
  | identity, _ => rfl
  | stage s, state => s.get_memory state
  | tandem front back, (m, n) =>
      pump_map (get_memory front) (put_memory back) (get_memory back) _ m n

end Plan

/-! ## Sequences of calls -/

namespace Pipeline

def call (p : Pipeline) : Call → Answer × Pipeline
  | .put row => p.put row
  | .get => p.get

/-- The answers to calls made one after the other, and the pipeline in the end. -/
def run (p : Pipeline) : List Call → List Answer × Pipeline
  | [] => ([], p)
  | c :: calls =>
    let (answer, p) := p.call c
    let (answers, p) := p.run calls
    (answer :: answers, p)

/-- A pipeline is its plan with what the plan keeps. -/
theorem run_mk (p : Plan) (m : p.Memory) (calls : List Call) :
    (⟨p, m⟩ : Pipeline).run calls = ((p.run calls m).1, ⟨p, (p.run calls m).2⟩) := by
  induction calls generalizing m with
  | nil => rfl
  | cons c calls ih =>
      have hcall : (⟨p, m⟩ : Pipeline).call c = ((p.call m c).1, ⟨p, (p.call m c).2⟩) := by
        cases c <;> rfl
      rw [run, hcall]
      simp only [ih, Plan.run]

end Pipeline

namespace Rig

def call (rig : Rig) : Call → Answer × Rig
  | .put row => rig.put row
  | .get => rig.get

/-- The answers to calls made one after the other, and the rig in the end. -/
def run (rig : Rig) : List Call → List Answer × Rig
  | [] => ([], rig)
  | c :: calls =>
    let (answer, rig) := rig.call c
    let (answers, rig) := rig.run calls
    (answer :: answers, rig)

theorem put_pipeline (rig : Rig) (row : Row) :
    rig.pipeline.put row = Prod.map id pipeline (rig.put row) := by
  rw [Pipeline.put, pipeline, Plan.put_memory]
  rfl

theorem get_pipeline (rig : Rig) : rig.pipeline.get = Prod.map id pipeline rig.get := by
  rw [Pipeline.get, pipeline, Plan.get_memory]
  rfl

theorem call_pipeline (rig : Rig) (c : Call) :
    rig.pipeline.call c = Prod.map id pipeline (rig.call c) := by
  cases c with
  | put row => exact rig.put_pipeline row
  | get => exact rig.get_pipeline

theorem run_pipeline (rig : Rig) (calls : List Call) :
    rig.pipeline.run calls = Prod.map id pipeline (rig.run calls) := by
  induction calls generalizing rig with
  | nil => rfl
  | cons c calls ih =>
      rw [Pipeline.run, call_pipeline, run]
      simp only [Prod.map, id, ih]

/-- Rigs that have kept the same give the same answers, whatever their runners hold. -/
theorem answers_congr {rig rig' : Rig} (h : rig.pipeline = rig'.pipeline) (calls : List Call) :
    (rig.run calls).1 = (rig'.run calls).1 := by
  have hrun := rig.run_pipeline calls
  rw [h, run_pipeline] at hrun
  exact (congrArg Prod.fst hrun).symm

/-! ## Decoding -/

theorem pipeline_ofPlan (p : Plan) : (ofPlan p).pipeline = Pipeline.ofPlan p := by
  rw [pipeline, ofPlan, Plan.memory_start]
  rfl

theorem append_ofPlan (p : Plan) (s : Stage) : (ofPlan p).append s = ofPlan (p.append s) := by
  cases p <;> rfl

theorem foldl_append_ofPlan (stages : List Stage) (p : Plan) :
    stages.foldl append (ofPlan p) = ofPlan (stages.foldl Plan.append p) := by
  induction stages generalizing p with
  | nil => rfl
  | cons s stages ih => rw [List.foldl_cons, List.foldl_cons, append_ofPlan, ih]

/-- The loop that sets up stage by stage does what reading all stages first
comes to, and its count of bytes is right at every stage. -/
theorem extend_eq (rig : Rig) (done : Nat) (code : Bytes) :
    rig.extend done code =
      ((match (Code.readStages code).2 with
        | none => .ok (done + code.length)
        | some e => .error e),
        (Code.readStages code).1.foldl append rig) := by
  fun_induction extend rig done code with
  | case1 rig done => rw [Code.readStages_nil, List.length_nil, Nat.add_zero, List.foldl_nil]
  | case2 rig done opcode rest e he => rw [Code.readStages_of_error he, List.foldl_nil]
  | case3 rig done opcode rest s rest' hs ih =>
      have hlength := Code.readStage_length hs
      have hcount : done + 1 + (rest.length - rest'.length) + rest'.length =
          done + (opcode :: rest).length := by
        rw [List.length_cons]
        omega
      rw [ih, hcount, Code.readStages_of_ok hs, List.foldl_cons]

theorem decode_eq (rig : Rig) (code : Bytes) :
    rig.decode code =
      ((Pipeline.decode code).1, ofPlan (.ofStages (Code.readStages code).1)) := by
  have hclear : rig.clear = ofPlan .identity := rfl
  rw [decode, hclear, extend_eq, Nat.zero_add, foldl_append_ofPlan]
  rfl

end Rig

end RowCode
